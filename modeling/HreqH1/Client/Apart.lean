import HreqH1.Client.Moves
import HreqH1.Support.Simulation

/-!
# Client — apart from the queue

Only `SendReq` looks at the queue of requests.  `Apart rx rx' c c'` says that two connections differ
in the queue alone, which is `rx` in the one and `rx'` in the other: from there the polls of the other
states are in step (`pollBidirect_apart`, `pollReadBody_apart`), and so are `SendReq` once it has its
request (`sendTaken_apart`) and the end of a round (`afterState_apart`).
-/

namespace HreqH1.Client
open PollM

/-- The connections are the same but for the queue of requests. -/
structure Apart (rx rx' : Chan Handle) (c c' : Conn) : Prop where
  left : c.reqRx = rx
  right : c' = { c with reqRx := rx' }

/-- And so are the states in hand. -/
def ApartWith {σ : Type} (rx rx' : Chan Handle) (s s' : σ × Conn) : Prop :=
  s.1 = s'.1 ∧ Apart rx rx' s.2 s'.2

section Parts
variable {σ α π : Type} {rx rx' : Chan Handle} {c c' : Conn}

theorem Apart.change {f : Conn → Conn} (h : Apart rx rx' c c')
    (hf : f { c with reqRx := rx' } = { f c with reqRx := rx' }) (hr : (f c).reqRx = c.reqRx) :
    Apart rx rx' (f c) (f c') :=
  ⟨hr.trans h.left, by rw [h.right, hf]⟩

/-- The same poll of a part beside the queue. -/
theorem Apart.zoom {get : Conn → π} {set : Conn → π → Conn} {x : PollM IoError π α}
    (h : Apart rx rx' c c') (hg : get { c with reqRx := rx' } = get c)
    (hs : ∀ p, set { c with reqRx := rx' } p = { set c p with reqRx := rx' })
    (hr : ∀ p, (set c p).reqRx = c.reqRx) :
    InStep (Apart rx rx') (zoom get set x) (zoom get set x) c c' := by
  obtain ⟨hl, rfl⟩ := h
  exact InStep.zoom hg.symm fun p => ⟨(hr p).trans hl, hs p⟩

theorem Apart.io {x : PollM IoError BufIo α} (h : Apart rx rx' c c') :
    InStep (Apart rx rx') (pollIo x) (pollIo x) c c' :=
  h.zoom rfl (fun _ => rfl) fun _ => rfl

theorem Apart.res {i : Nat} {x : PollM IoError (Chan Answer) α} (h : Apart rx rx' c c') :
    InStep (Apart rx rx') (pollRes i x) (pollRes i x) c c' :=
  h.zoom rfl (fun _ => rfl) fun _ => rfl

theorem Apart.reqBody {i : Nat} {x : PollM IoError (Chan (Bytes × Bool)) α}
    (h : Apart rx rx' c c') : InStep (Apart rx rx') (pollReqBody i x) (pollReqBody i x) c c' :=
  h.zoom rfl (fun _ => rfl) fun _ => rfl

theorem Apart.resBody {i : Nat} {x : PollM IoError (Chan (Except IoError Bytes)) α}
    (h : Apart rx rx' c c') : InStep (Apart rx rx') (pollResBody i x) (pollResBody i x) c c' :=
  h.zoom rfl (fun _ => rfl) fun _ => rfl

theorem Apart.dropHandle (handle : Handle) (h : Apart rx rx' c c') :
    Apart rx rx' (c.dropHandle handle) (c'.dropHandle handle) := h.change rfl rfl

variable {s s' : σ × Conn} {x : PollM IoError Conn α}

theorem ApartWith.onConn (h : ApartWith rx rx' s s')
    (hx : Apart rx rx' s.2 s'.2 → InStep (Apart rx rx') x x s.2 s'.2) :
    InStep (ApartWith rx rx') (onConn x) (onConn x : PollM IoError (σ × Conn) α) s s' :=
  (hx h.2).within fun _ _ hr => ⟨h.1, hr⟩

end Parts

variable {rx rx' : Chan Handle} {cx : Waker}

/-! ### `Bidirect` -/

section Bidirect
variable {s s' : Bidirect × Conn}

theorem deliver_apart (res : Response) (h : ApartWith rx rx' s s') :
    InStep (ApartWith rx rx') (deliver res) (deliver res) s s' := by
  obtain ⟨b, c⟩ := s
  obtain ⟨b', c'⟩ := s'
  obtain ⟨rfl, hl, rfl⟩ := h
  cases hi : b.handle.resTx with
  | none =>
      refine ⟨?_, ?_⟩
      · simp only [deliver, run_modify_bind, run_get_bind, hi, run_panic]
      · simp only [deliver, run_modify_bind, run_get_bind, hi, run_panic]
        exact ⟨rfl, hl, rfl⟩
  | some i =>
      refine ⟨?_, ?_⟩
      · rw [deliver_eq res hi, deliver_eq res hi]
      · rw [deliver_eq res hi, deliver_eq res hi]
        exact ⟨rfl, hl, rfl⟩

variable [Crates]

theorem pollResponse_apart [VecAlloc] (h : ApartWith rx rx' s s') :
    InStep (ApartWith rx rx') pollResponse pollResponse s s' := by
  refine (h.onConn fun h => h.io).bind fun r t t' _ _ h => ?_
  refine (InStep.lift r h).bind fun res t t' _ _ h => ?_
  cases res with
  | none => exact ⟨rfl, h⟩
  | some res => exact deliver_apart res h

omit [Crates] in
theorem pollSendBody_apart (h : ApartWith rx rx' s s') :
    InStep (ApartWith rx rx') (pollSendBody cx) (pollSendBody cx) s s' := by
  refine InStep.get ?_
  rw [← h.1]
  cases s.1.handle.bodyRx with
  | none => exact ⟨rfl, h⟩
  | some i =>
      refine (h.onConn fun h => h.reqBody).bind fun item t t' _ _ h => ?_
      cases item with
      | none => exact ⟨rfl, h⟩
      | some item =>
          obtain ⟨chunk, fin⟩ := item
          refine InStep.get ?_
          have hio : t'.2.io = t.2.io := by rw [h.2.right]
          rw [hio]
          refine (InStep.assert _ _ h).bind fun _ t t' _ _ h => ?_
          dsimp only
          cases fin with
          | false => exact h.onConn fun h => h.io
          | true =>
              have hdrop := h.2.change (f := Conn.onReqBody i Chan.dropReceiver) rfl rfl
              refine InStep.change (ApartWith.onConn ⟨?_, hdrop⟩ fun h => h.io)
              rw [← h.1]

omit [Crates] in
theorem bodyTxPending_apart (h : ApartWith rx rx' s s') :
    InStep (ApartWith rx rx') (bodyTxPending cx) (bodyTxPending cx) s s' := by
  refine InStep.get ?_
  rw [← h.1]
  exact .ite (fun _ => (pollSendBody_apart h).poll.map _) fun _ => .pure _ h

variable [VecAlloc]

theorem resTxPending_apart (h : ApartWith rx rx' s s') :
    InStep (ApartWith rx rx') resTxPending resTxPending s s' := by
  refine InStep.get ?_
  rw [← h.1]
  exact .ite (fun _ => (pollResponse_apart h).poll.map _) fun _ => .pure _ h

theorem bidirectRound_apart (h : ApartWith rx rx' s s') :
    InStep (ApartWith rx rx') (bidirectRound cx ()) (bidirectRound cx ()) s s' := by
  refine InStep.get ?_
  rw [← h.1]
  refine .ite (fun _ => .pure _ h) fun _ => ?_
  refine (resTxPending_apart h).bind fun res t t' _ _ h => ?_
  refine (bodyTxPending_apart h).bind fun body t t' _ _ h => ?_
  refine InStep.get ?_
  rw [← h.1]
  exact .ite (fun _ => ⟨rfl, h⟩) fun _ => .pure _ h

omit [Crates] [VecAlloc] in
theorem afterBidirect_apart (h : ApartWith rx rx' s s') :
    InStep (ApartWith rx rx') afterBidirect afterBidirect s s' := by
  refine InStep.get ?_
  rw [← h.1]
  dsimp only
  cases s.1.holder with
  | none => exact .ite (fun _ => .pure _ h) fun _ => .pure _ h
  | some p => exact InStep.change (.pure _ ⟨by rw [h.1], h.2⟩)

/-- Nor does it look at the queue while a response is received. -/
theorem pollBidirect_apart (h : ApartWith rx rx' s s') :
    InStep (ApartWith rx rx') (pollBidirect cx) (pollBidirect cx) s s' := by
  have hweight : bidirectWeight s = bidirectWeight s' := by
    rw [bidirectWeight, bidirectWeight, ← h.1, h.2.right]
  exact (InStep.loop hweight (fun _ _ _ h => bidirectRound_apart h) h).bind fun _ _ _ _ _ h =>
    afterBidirect_apart h

end Bidirect

/-! ### `BodyReceiver` -/

section BodyReceiver
variable [VecAlloc] {s s' : BodyReceiver × Conn}

omit [VecAlloc] in
theorem readLimit_apart {n : Nat} (h : ApartWith rx rx' s s') :
    InStep (ApartWith rx rx') (readLimit n) (readLimit n) s s' := by
  refine InStep.zoom ?_ fun p => ⟨?_, ?_⟩
  · rw [h.1, h.2.right]
  · rw [h.1]
  · exact h.2.change (f := fun c => { c with io := p.2 }) rfl rfl

theorem readBodyRound_apart (h : ApartWith rx rx' s s') :
    InStep (ApartWith rx rx') (readBodyRound cx ()) (readBodyRound cx ()) s s' := by
  refine InStep.get ?_
  rw [← h.1]
  refine .ite (fun _ => .pure _ h) fun _ => ?_
  refine InStep.get ?_
  rw [← h.1]
  refine (h.onConn fun h => h.resBody).bind fun _ t t' _ _ h => ?_
  refine InStep.get ?_
  rw [← h.1]
  refine (InStep.orPanic _ h).bind fun readInto t t' _ _ h => ?_
  refine (readLimit_apart h).bind fun bytes t t' _ _ h => ?_
  refine .ite (fun _ => ?_) fun _ => InStep.get ?_
  · exact (h.onConn fun h => h.resBody).bind fun _ _ _ _ _ h => .pure _ h
  · rw [← h.1]
    exact .ite (fun _ => .throw _ h) fun _ => .pure _ h

/-- Nor while its body is. -/
theorem pollReadBody_apart (h : ApartWith rx rx' s s') :
    InStep (ApartWith rx rx') (pollReadBody cx) (pollReadBody cx) s s' := by
  have hweight : readBodyWeight s = readBodyWeight s' := by
    rw [readBodyWeight, readBodyWeight, ← h.1, h.2.right]
  refine (InStep.loop hweight (fun _ _ _ h => readBodyRound_apart h) h).bind fun _ t t' _ _ h => ?_
  refine InStep.get ?_
  rw [← h.1]
  have hend := h.2.change (f := fun c => { c with complete := t.1.bodyTx :: c.complete }) rfl rfl
  exact InStep.change (.ite (fun _ => .pure _ ⟨h.1, hend⟩) fun _ => .pure _ ⟨h.1, hend⟩)

end BodyReceiver

/-! ### `Codec` -/

section Codec
variable {c c' : Conn}

/-- `SendReq`, from the request on that it has taken. -/
def sendTaken (handle : Handle) : PollM IoError Conn (Option State) :=
  onExit (Conn.dropHandle handle) do
    let bytes ← writeHttp1xReq handle.req maxRequestSize
    assert (← get).io.canPollWrite "assertion failed: io.can_poll_write()"
    let _ ← poll (pollIo (BufIo.writeAll bytes true))
    pure (some (.recvRes ⟨handle, false, none⟩))

theorem sendTaken_apart (handle : Handle) (h : Apart rx rx' c c') :
    InStep (Apart rx rx') (sendTaken handle) (sendTaken handle) c c' := by
  refine InStep.onExit (fun _ _ h => h.dropHandle handle) ?_
  refine InStep.bind ?_ fun bytes t t' _ _ h => InStep.get ?_
  · rw [InStep, writeHttp1xReq_eq, writeHttp1xReq_eq]
    exact ⟨rfl, h⟩
  · have hio : t'.io = t.io := by rw [h.right]
    rw [hio]
    refine (InStep.assert _ _ h).bind fun _ t t' _ _ h => ?_
    exact (h.io.poll).bind fun _ _ _ _ _ h => .pure _ h

theorem pollSendReq_eq : pollSendReq cx = pollReqRx (Chan.pollRecv cx true) >>= fun o =>
    match o with
    | none => pure none
    | some handle => sendTaken handle := rfl

/-- The end of a round of `drive`, behind the poll of its state. -/
def afterState (next : Option State) : PollM IoError Conn (Flow Unit Unit) := do
  match next with
  | none => pure (.done ())
  | some next =>
      match (← get).state with
      | .recvBody h => modify (Conn.onResBody h.bodyTx Chan.dropSender)
      | _ => pure ()
      modify ({ · with state := next })
      pure (.again ())

theorem afterState_apart (next : Option State) (h : Apart rx rx' c c') :
    InStep (Apart rx rx') (afterState next) (afterState next) c c' := by
  cases next with
  | none => exact .pure _ h
  | some next =>
      refine InStep.get ?_
      have hst : c'.state = c.state := by rw [h.right]
      rw [hst]
      have hnext : ∀ {t t'}, Apart rx rx' t t' →
          Apart rx rx' { t with state := next } { t' with state := next } := fun h =>
        h.change (f := fun c => { c with state := next }) rfl rfl
      cases c.state with
      | sendReq => exact InStep.change (.pure _ (hnext h))
      | recvRes b => exact InStep.change (.pure _ (hnext h))
      | recvBody b =>
          have hdrop := h.change (f := Conn.onResBody b.bodyTx Chan.dropSender) rfl rfl
          exact InStep.change (InStep.change (.pure _ (hnext hdrop)))

variable [Crates] [VecAlloc]

/-- The poll of the state, in a round of `drive`. -/
def pollState (cx : Waker) : PollM IoError Conn (Option State) := do
  match (← get).state with
  | .sendReq => pollSendReq cx
  | .recvRes h =>
      zoom (fun w => (h, w)) (fun _ s => { s.2 with state := .recvRes s.1 }) (pollBidirect cx)
  | .recvBody h =>
      zoom (fun w => (h, w)) (fun _ s => { s.2 with state := .recvBody s.1 }) (pollReadBody cx)

theorem driveRound_eq : driveRound cx () =
    pollIo BufIo.pollFinishPendingWrite >>= fun _ => pollState cx >>= afterState := by
  rw [driveRound, pollState]
  simp only [bind_assoc]
  refine bind_congr fun _ => bind_congr fun c => ?_
  cases c.state with
  | sendReq => rfl
  | recvRes h => rfl
  | recvBody h => rfl

theorem pollState_apart (hs : c.state ≠ .sendReq) (h : Apart rx rx' c c') :
    InStep (Apart rx rx') (pollState cx) (pollState cx) c c' := by
  refine InStep.get ?_
  have hst : c'.state = c.state := by rw [h.right]
  rw [hst]
  cases hc : c.state with
  | sendReq => exact absurd hc hs
  | recvRes b =>
      have hw : ApartWith rx rx' (b, c) (b, c') := ⟨rfl, h⟩
      refine InStep.within (pollBidirect_apart hw) fun p q hp => ?_
      rw [hp.1]
      exact hp.2.change (f := fun c => { c with state := .recvRes q.1 }) rfl rfl
  | recvBody b =>
      have hw : ApartWith rx rx' (b, c) (b, c') := ⟨rfl, h⟩
      refine InStep.within (pollReadBody_apart hw) fun p q hp => ?_
      rw [hp.1]
      exact hp.2.change (f := fun c => { c with state := .recvBody q.1 }) rfl rfl

end Codec

end HreqH1.Client
