import HreqH1.Client.Apart
import HreqH1.Client.Queued

/-!
# Client — requests that cannot be sent

A request whose version is not written, or whose head does not fit, is found out when the codec takes
it off the queue, and any error there closes the connection.  `Without bad c c₀` says that `c₀` is `c`
as if `bad` had not been queued: rounds, polls and steps of the two are in step
(`driveRound_without`, `pollClient_without`, `World.Without.step`) until the connection is dropped, or
a poll comes to `bad` (`AtTurn`).  From there the connection is `Over`.
-/

namespace HreqH1.Client
open PollM Runs BufIo

/-- The head of a request with the version `ver`, of whatever length. -/
def reqText (req : Request) (ver : Bytes) : Bytes :=
  req.method.bytes ++ ascii " " ++ req.uri.pathAndQuery.getD (ascii "/") ++ ascii " HTTP/" ++ ver ++
    ascii "\r\n" ++ hostLine req ++ headerLines req.headers

/-- It cannot be serialised: its version is not written, or its head does not fit. -/
def Unsendable (req : Request) : Prop :=
  ∀ ver, versionBytes req.version = .ok ver → maxRequestSize < (reqText req ver).length

/-- What a poll of the connection comes to over such a request. -/
def refusal {α : Type} (req : Request) : Outcome IoError α :=
  match versionBytes req.version with
  | .ok _ => .fail ⟨.writeZero, "failed to write whole buffer"⟩
  | .error m => .panic m

theorem reqHead_unsendable {req : Request} (h : Unsendable req) : reqHead req = refusal req := by
  rw [reqHead, writeHttp1xReq, refusal]
  cases hv : versionBytes req.version with
  | error m => rfl
  | ok ver =>
      have hlen : ¬ (reqText req ver).length ≤ maxRequestSize := Nat.not_le.mpr (h ver hv)
      show (writeCursor maxRequestSize (reqText req ver) ()).1 = _
      rw [writeCursor, if_neg hlen]
      rfl

theorem run_bind_refusal {α β : Type} {x : PollM IoError Conn α} {f : α → PollM IoError Conn β}
    {req : Request} {c t : Conn} (hx : x c = (refusal req, t)) : (x >>= f) c = (refusal req, t) := by
  rw [refusal] at hx ⊢
  cases hv : versionBytes req.version with
  | ok ver =>
      rw [hv] at hx
      exact run_bind_fail hx
  | error m =>
      rw [hv] at hx
      exact run_bind_panic hx

/-- The connection with `q` in its queue. -/
def Conn.queueing (q : List Handle) (c : Conn) : Conn :=
  { c with reqRx := { c.reqRx with queue := q } }

/-- The connection with `bad` taken off its queue, and out of scope. -/
def Conn.refusing (bad : Handle) (behind : List Handle) (c : Conn) : Conn :=
  Conn.dropHandle bad { c with reqRx := { c.reqRx with queue := behind }.wakeAll }

/-- The connection `c₀` is `c`, had `bad` not been queued. -/
def Without (bad : Handle) (c c₀ : Conn) : Prop :=
  ∃ front behind, c.reqRx.queue = front ++ bad :: behind ∧ c₀ = c.queueing (front ++ behind)

section Without
variable {bad : Handle} {c c₀ d d₀ : Conn}

theorem Without.apart (h : Without bad c c₀) : Apart c.reqRx c₀.reqRx c c₀ := by
  obtain ⟨front, behind, -, rfl⟩ := h
  exact ⟨rfl, rfl⟩

theorem Without.of_apart (h : Without bad c c₀) (ha : Apart c.reqRx c₀.reqRx d d₀) :
    Without bad d d₀ := by
  obtain ⟨front, behind, hq, rfl⟩ := h
  refine ⟨front, behind, by rw [ha.left, hq], ha.right.trans ?_⟩
  show { d with reqRx := { c.reqRx with queue := front ++ behind } } = d.queueing (front ++ behind)
  rw [Conn.queueing, ha.left]

theorem Without.change {f : Conn → Conn} (h : Without bad c c₀)
    (hf : f { c with reqRx := c₀.reqRx } = { f c with reqRx := c₀.reqRx })
    (hr : (f c).reqRx = c.reqRx) : Without bad (f c) (f c₀) :=
  h.of_apart (h.apart.change hf hr)

/-- Requests come on at the end of the queue. -/
theorem Without.onReqRx {f : Chan Handle → Chan Handle} {q : List Handle} (h : Without bad c c₀)
    (hf : ∀ q', f { c.reqRx with queue := q' } = { f c.reqRx with queue := q' ++ q }) :
    Without bad { c with reqRx := f c.reqRx } { c₀ with reqRx := f c₀.reqRx } := by
  obtain ⟨front, behind, hq, rfl⟩ := h
  refine ⟨front, behind ++ q, ?_, ?_⟩
  · have hself : (f c.reqRx).queue = c.reqRx.queue ++ q := congrArg Chan.queue (hf c.reqRx.queue)
    rw [hself, hq, List.append_assoc, List.cons_append]
  · show { c with reqRx := f { c.reqRx with queue := front ++ behind } } = _
    rw [hf, Conn.queueing, List.append_assoc]

end Without

/-! ### A round of `drive` -/

section Round
variable [VecAlloc] [Crates] {bad : Handle} {c c₀ : Conn} {cx : Waker} {io : BufIo}

/-- A write that was pending is finished once. -/
theorem driveRound_finished (hx : pollFinishPendingWrite c.io = (.ready (), io)) :
    driveRound cx () c = (pollState cx >>= afterState) { c with io := io } := by
  have hp : pollIo pollFinishPendingWrite c = (.ready (), { c with io := io }) := by
    rw [pollIo, run_zoom, hx]
  rw [driveRound_eq, run_bind_ready hp]

omit [VecAlloc] [Crates] in
/-- `SendReq`, where there is a request in front of `bad`. -/
theorem pollSendReq_without {handle : Handle} {front behind : List Handle}
    (hq : c.reqRx.queue = handle :: front ++ bad :: behind)
    (h₀ : c₀ = c.queueing (handle :: front ++ behind)) :
    InStep (Without bad) (pollSendReq cx) (pollSendReq cx) c c₀ := by
  have hx : pollReqRx (Chan.pollRecv cx true) c = (.ready (some handle),
      { c with reqRx := { c.reqRx with queue := front ++ bad :: behind }.wakeAll }) := by
    rw [pollReqRx, run_zoom, Chan.pollRecv_cons (q := front ++ bad :: behind) hq]
  have hy : pollReqRx (Chan.pollRecv cx true) c₀ = (.ready (some handle),
      { c with reqRx := { c.reqRx with queue := front ++ behind }.wakeAll }) := by
    rw [h₀, pollReqRx, run_zoom, Chan.pollRecv_cons (q := front ++ behind) rfl]
    rfl
  have hw : Without bad { c with reqRx := { c.reqRx with queue := front ++ bad :: behind }.wakeAll }
      { c with reqRx := { c.reqRx with queue := front ++ behind }.wakeAll } :=
    ⟨front, behind, rfl, rfl⟩
  have h := (sendTaken_apart handle hw.apart).mono fun _ _ ha => hw.of_apart ha
  rw [InStep, pollSendReq_eq, run_bind_ready hx, run_bind_ready hy]
  exact h

omit [VecAlloc] [Crates] in
/-- `SendReq`, where `bad` is the next request. -/
theorem pollSendReq_bad {behind : List Handle} (hbad : Unsendable bad.req)
    (hq : c.reqRx.queue = bad :: behind) :
    pollSendReq cx c = (refusal bad.req, c.refusing bad behind) := by
  have hx : pollReqRx (Chan.pollRecv cx true) c = (.ready (some bad),
      { c with reqRx := { c.reqRx with queue := behind }.wakeAll }) := by
    rw [pollReqRx, run_zoom, Chan.pollRecv_cons hq]
  rw [pollSendReq_eq, run_bind_ready hx]
  have hh : ∀ t : Conn, writeHttp1xReq bad.req maxRequestSize t = (refusal bad.req, t) := fun t => by
    rw [writeHttp1xReq_eq, reqHead_unsendable hbad]
  dsimp only
  rw [sendTaken, onExit, Conn.refusing]
  generalize { c with reqRx := { c.reqRx with queue := behind }.wakeAll } = d at hh
  have hd := hh d
  unfold refusal at hd ⊢
  cases hv : versionBytes bad.req.version with
  | ok ver =>
      rw [hv] at hd
      rw [run_bind_fail hd]
  | error m =>
      rw [hv] at hd
      rw [run_bind_panic hd]

theorem pollState_sendReq (hst : c.state = .sendReq) : pollState cx c = pollSendReq cx c := by
  rw [pollState, run_get_bind, hst]

/-- The poll of a state is in step with one without `bad`, unless it takes `bad`. -/
theorem pollState_without (h : Without bad c c₀) :
    InStep (Without bad) (pollState cx) (pollState cx) c c₀ ∨
      c.state = .sendReq ∧ ∃ behind, c.reqRx.queue = bad :: behind ∧ c₀ = c.queueing behind := by
  by_cases hst : c.state = .sendReq
  · obtain ⟨front, behind, hq, h₀⟩ := h
    cases front with
    | nil => exact .inr ⟨hst, behind, hq, h₀⟩
    | cons handle front =>
        have hst₀ : c₀.state = .sendReq := by
          rw [h₀]
          exact hst
        refine .inl (InStep.get ?_)
        rw [hst, hst₀]
        exact pollSendReq_without hq h₀
  · exact .inl ((pollState_apart hst h.apart).mono fun _ _ ha => h.of_apart ha)

/-- A round of `drive` is in step with one without `bad`, unless it has come to `bad`. -/
theorem driveRound_without (h : Without bad c c₀) :
    InStep (Without bad) (driveRound cx ()) (driveRound cx ()) c c₀ ∨
      ∃ io behind, pollFinishPendingWrite c.io = (.ready (), io) ∧ c.state = .sendReq ∧
        c.reqRx.queue = bad :: behind ∧ c₀ = c.queueing behind := by
  have hio := (h.apart.io (x := pollFinishPendingWrite)).mono fun _ _ ha => h.of_apart ha
  rcases hx : pollFinishPendingWrite c.io with ⟨r, io⟩
  by_cases hr : r = .ready ()
  · subst hr
    have hio₀ : pollFinishPendingWrite c₀.io = (.ready (), io) := by
      rw [h.apart.right]
      exact hx
    have h₁ : Without bad { c with io := io } { c₀ with io := io } :=
      h.change (f := fun c => { c with io := io }) rfl rfl
    have hstate : InStep (Without bad) (pollState cx) (pollState cx) _ _ ∨ _ :=
      pollState_without h₁
    rcases hstate with hs | ⟨hst, behind, hq, h₂⟩
    · refine .inl ?_
      rw [InStep, driveRound_finished hx, driveRound_finished hio₀]
      refine hs.bind fun next t t' _ _ ht => ?_
      exact (afterState_apart next ht.apart).mono fun _ _ ha => ht.of_apart ha
    · have hrx : c₀.reqRx = { c.reqRx with queue := behind } := congrArg Conn.reqRx h₂
      exact .inr ⟨io, behind, rfl, hst, hq, h.apart.right.trans (by rw [hrx]; rfl)⟩
  · -- Both wait for the writer, or fail with it.
    refine .inl ?_
    rw [driveRound_eq]
    refine hio.bind fun _ t t' ht _ _ => ?_
    rw [pollIo, run_zoom, hx] at ht
    exact absurd (Prod.mk.inj ht).1 hr

end Round

/-! ### A poll -/

section Poll
variable [VecAlloc] [Crates]

/-- A poll of `c` comes to `bad` at `d`: all that was in front of it is done, and a poll without it,
of `c₀`, goes on from there. -/
structure AtTurn (bad : Handle) (cx : Waker) (c c₀ d : Conn) : Prop where
  moves : Moves c d
  state : d.state = .sendReq
  idle : d.io.canPollWrite = true
  same : ∃ behind, d.reqRx.queue = bad :: behind ∧
    pollClient cx c₀ = pollClient cx (d.queueing behind) ∧
    pollClient cx c = (refusal bad.req, d.refusing bad behind)

variable {bad : Handle} {c c₀ : Conn} {cx : Waker}

omit [VecAlloc] [Crates] in
theorem Without.sound (h : Without bad c c₀) (hs : c.io.Sound) : c₀.io.Sound := by
  rw [h.apart.right]
  exact hs

theorem drive_again {t : Conn} {j : Unit} (hs : c.io.Sound)
    (hx : driveRound cx () c = (.ready (.again j), t)) : drive cx c = drive cx t := by
  have hd := loop_unfold (Requests.driveRound_decreases cx) () hs
  rw [run_bind_ready hx] at hd
  exact hd

theorem drive_congr (hs : c.io.Sound) (hs₀ : c₀.io.Sound)
    (hx : driveRound cx () c = driveRound cx () c₀) : drive cx c = drive cx c₀ := by
  have hd : drive cx c = _ := loop_unfold (Requests.driveRound_decreases cx) () hs
  have hd₀ : drive cx c₀ = _ := loop_unfold (Requests.driveRound_decreases cx) () hs₀
  rw [hd, hd₀]
  show PollM.bind _ _ c = PollM.bind _ _ c₀
  rw [PollM.bind, PollM.bind, hx]

/-- The round that comes to `bad`. -/
theorem drive_bad {io : BufIo} {behind : List Handle} (hbad : Unsendable bad.req) (hs : c.io.Sound)
    (hio : pollFinishPendingWrite c.io = (.ready (), io)) (hst : c.state = .sendReq)
    (hq : c.reqRx.queue = bad :: behind) :
    drive cx c = (refusal bad.req, Conn.refusing bad behind { c with io := io }) := by
  have hstate : pollState cx { c with io := io } =
      (refusal bad.req, Conn.refusing bad behind { c with io := io }) := by
    have hst₁ : ({ c with io := io } : Conn).state = .sendReq := hst
    rw [pollState_sendReq hst₁]
    exact pollSendReq_bad hbad hq
  have hd : drive cx c = _ := loop_unfold (Requests.driveRound_decreases cx) () hs
  rw [hd]
  refine run_bind_refusal ?_
  rw [driveRound_finished hio]
  exact run_bind_refusal hstate

/-- The loop of `drive`. -/
theorem drive_without (hbad : Unsendable bad.req) (hs : c.io.Sound) (h : Without bad c c₀) :
    InStep (Without bad) (drive cx) (drive cx) c c₀ ∨
      ∃ d behind, Moves c d ∧ d.state = .sendReq ∧ d.io.canPollWrite = true ∧
        d.reqRx.queue = bad :: behind ∧ drive cx c₀ = drive cx (d.queueing behind) ∧
        drive cx c = (refusal bad.req, d.refusing bad behind) := by
  induction hk : driveWeight c using Nat.strongRecOn generalizing c c₀ with
  | ind n ih =>
      have hround : InStep (Without bad) (driveRound cx ()) (driveRound cx ()) c c₀ ∨ _ :=
        driveRound_without h
      have hd : drive cx c = _ := loop_unfold (Requests.driveRound_decreases cx) () hs
      have hd₀ : drive cx c₀ = _ :=
        loop_unfold (Requests.driveRound_decreases cx) () (h.sound hs)
      rcases hround with hstep | ⟨io, behind, hio, hst, hq, h₀⟩
      · rcases hx : driveRound cx () c with ⟨r, t⟩
        rcases hy : driveRound cx () c₀ with ⟨r', t₀⟩
        obtain ⟨hr, ht⟩ := hstep
        rw [hx, hy] at hr ht
        obtain rfl : r = r' := hr
        by_cases hagain : ∃ j, r = .ready (.again j)
        · obtain ⟨j, rfl⟩ := hagain
          have hm := wp_elim (driveRound_moves hs) hx
          rw [drive_again hs hx, drive_again (h.sound hs) hy]
          refine (ih _ (hk ▸ hm.2.2) hm.2.1 ht rfl).imp (fun hin => ?_) ?_
          · rw [InStep, drive_again hs hx, drive_again (h.sound hs) hy]
            exact hin
          · rintro ⟨d, behind, hm₂, hrest⟩
            exact ⟨d, behind, hm.1.trans hm₂, hrest⟩
        · refine .inl ?_
          rw [InStep, hd, hd₀]
          refine InStep.bind ?_ fun f _ _ hf _ _ => ?_
          · rw [InStep, hx, hy]
            exact ⟨rfl, ht⟩
          · cases f with
            | again j => exact absurd ⟨j, (Prod.mk.inj (hx.symm.trans hf)).1⟩ hagain
            | done a => exact ⟨rfl, by assumption⟩
      · have hp : pollIo pollFinishPendingWrite c = (.ready (), { c with io := io }) := by
          rw [pollIo, run_zoom, hio]
        obtain ⟨hm, hs₁, hcan, -, -⟩ := wp_elim (finishPending_moves hs) hp
        have hio₀ : pollFinishPendingWrite c₀.io = (.ready (), io) := by
          rw [h₀]
          exact hio
        refine .inr ⟨{ c with io := io }, behind, hm, hst, hcan, hq, ?_, drive_bad hbad hs hio hst hq⟩
        refine drive_congr (h.sound hs) hs₁ ?_
        have hidle : pollFinishPendingWrite (Conn.queueing behind { c with io := io }).io =
            (.ready (), io) := pollFinishPendingWrite_idle hcan
        rw [driveRound_finished hio₀, driveRound_finished hidle, h₀]
        rfl

omit [VecAlloc] [Crates] in
theorem tryForwardError_without (e : IoError) (h : Without bad c c₀) :
    Without bad (tryForwardError e c) (tryForwardError e c₀) := by
  refine h.change (f := tryForwardError e) ?_ ?_
  · obtain ⟨io, state, reqRx, res, reqBody, resBody, complete, answers⟩ := c
    cases state with
    | sendReq => rfl
    | recvBody b => rfl
    | recvRes b =>
        simp only [tryForwardError]
        cases b.handle.resTx with
        | none => rfl
        | some i => rfl
  · rw [tryForwardError]
    cases c.state with
    | sendReq => rfl
    | recvBody b => rfl
    | recvRes b =>
        dsimp only
        cases b.handle.resTx with
        | none => rfl
        | some i => rfl

omit [VecAlloc] [Crates] in
theorem state_refusing {behind : List Handle} : (c.refusing bad behind).state = c.state := rfl

/-- **A poll of the connection.**  It is in step with one without `bad`, or it comes to `bad`. -/
theorem pollClient_without (hbad : Unsendable bad.req) (hs : c.io.Sound) (h : Without bad c c₀) :
    InStep (Without bad) (pollClient cx) (pollClient cx) c c₀ ∨ ∃ d, AtTurn bad cx c c₀ d := by
  have hdrive : InStep (Without bad) (drive cx) (drive cx) c c₀ ∨ _ := drive_without hbad hs h
  rcases hdrive with ⟨hr, ht⟩ | ⟨d, behind, hm, hst, hcan, hq, h₀, hx⟩
  · refine .inl ?_
    rw [InStep, pollClient, pollClient]
    rcases hx : drive cx c with ⟨r, t⟩
    rcases hy : drive cx c₀ with ⟨r', t₀⟩
    rw [hx, hy] at hr ht
    obtain rfl : r = r' := hr
    cases r with
    | fail e => exact ⟨rfl, tryForwardError_without e ht⟩
    | _ => exact ⟨rfl, ht⟩
  · refine .inr ⟨d, hm, hst, hcan, behind, hq, ?_, ?_⟩
    · rw [pollClient, pollClient, h₀]
    · have hfwd : ∀ e, tryForwardError e (d.refusing bad behind) = d.refusing bad behind := by
        intro e
        rw [tryForwardError, state_refusing, hst]
      rw [pollClient, hx]
      unfold refusal
      cases versionBytes bad.req.version with
      | ok ver =>
          dsimp only
          rw [hfwd]
      | error m => rfl

end Poll

/-! ### A step -/

/-- The world with another queue. -/
def World.withReqRx (rx : Chan Handle) (w : World) : World :=
  { w with conn := { w.conn with reqRx := rx } }

/-- The world `w₀` is `w`, had `bad` not been queued. -/
def World.Without (bad : Handle) (w w₀ : World) : Prop :=
  ∃ c₀, Client.Without bad w.conn c₀ ∧ w₀ = { w with conn := c₀ }

section Step
variable {bad : Handle} {w w₀ : World} {rx : Chan Handle}

theorem dropFuture_withReqRx (i : Nat) (w : World) :
    dropFuture i (w.withReqRx rx) = (dropFuture i w).withReqRx rx := by
  have hfold : ∀ g : Conn → Answer → Conn,
      (∀ c a, g { c with reqRx := rx } a = { g c a with reqRx := rx }) →
      ∀ (q : List Answer) (c : Conn),
        q.foldl g { c with reqRx := rx } = { q.foldl g c with reqRx := rx } :=
    fun g hg q c => List.foldl_hom (fun c : Conn => { c with reqRx := rx }) hg
  refine congrArg (fun c : Conn => ({ w with
    conn := c.onRes i Chan.dropReceiver
    future := Function.update w.future i false } : World)) (hfold _ ?_ (w.conn.res i).queue w.conn)
  intro c a
  cases a with
  | ok p => rfl
  | error e => rfl

variable [VecAlloc] [Crates]

/-- What the user does with the handles of requests is nothing to the queue. -/
theorem step_withReqRx {a : Action} (ha : Requests.onHandle a = true) (w : World) :
    step a (w.withReqRx rx) = ((step a w).1, (step a w).2.withReqRx rx) := by
  cases a with
  | pollFuture i cx =>
      rcases hx : pollRes i (Chan.pollRecv cx true) w.conn with ⟨r, c⟩
      have hx₀ : pollRes i (Chan.pollRecv cx true) (w.withReqRx rx).conn =
          (r, { c with reqRx := rx }) := by
        rw [pollRes, run_zoom] at hx ⊢
        obtain ⟨rfl, rfl⟩ := Prod.mk.inj hx
        rfl
      rw [step, step]
      show (if w.future i then _ else _) = _
      split
      · rw [pollFuture, pollFuture, hx, hx₀]
        rcases r with _ | (_ | (e | p)) | e | m | _
        · rfl
        · exact congrArg (Prod.mk _) (dropFuture_withReqRx i { w with conn := c })
        · exact congrArg (Prod.mk _) (dropFuture_withReqRx i { w with conn := c })
        · exact congrArg (Prod.mk _) (dropFuture_withReqRx i
            { w with conn := c, recv := Function.update w.recv i (some p.2) })
        · rfl
        · rfl
        · rfl
      · rfl
  | dropFuture i =>
      rw [step, step]
      show (if w.future i then _ else _) = _
      split
      · exact congrArg (Prod.mk _) (dropFuture_withReqRx i w)
      · rfl
  | read i cx n =>
      simp only [step, World.withReqRx]
      cases w.recv i with
      | none => rfl
      | some recv => rfl
  | dropRecv i =>
      simp only [step, World.withReqRx]
      cases w.recv i with
      | none => rfl
      | some recv => rfl
  | sendData i owned cx bs fin =>
      simp only [step, World.withReqRx]
      cases w.send i with
      | none => rfl
      | some send => rfl
  | dropSend i =>
      simp only [step, World.withReqRx]
      cases w.send i with
      | none => rfl
      | some send => rfl
  | _ => cases ha

theorem World.Without.onHandle {a : Action} (h : w.Without bad w₀)
    (ha : Requests.onHandle a = true) :
    (step a w).1 = (step a w₀).1 ∧ (step a w).2.Without bad (step a w₀).2 := by
  obtain ⟨c₀, hc, rfl⟩ := h
  have hw₀ : ({ w with conn := c₀ } : World) = w.withReqRx c₀.reqRx := by
    rw [hc.apart.right]
    rfl
  have hb := Requests.beside_step ha w
  rw [hw₀, step_withReqRx ha]
  exact ⟨rfl, _, hc.of_apart ⟨hb.reqRx, rfl⟩, rfl⟩

omit [VecAlloc] [Crates] in
theorem World.Without.sendRequest (h : w.Without bad w₀) (req : Request) (noBody : Bool) :
    (sendRequest req noBody w).1 = (sendRequest req noBody w₀).1 ∧
      (sendRequest req noBody w).2.Without bad (sendRequest req noBody w₀).2 := by
  obtain ⟨c₀, hc, rfl⟩ := h
  have hr : c₀.reqRx.receivers = w.conn.reqRx.receivers := by
    obtain ⟨front, behind, -, rfl⟩ := hc
    rfl
  rw [Client.sendRequest, Client.sendRequest]
  by_cases hm : req.method = .connect
  · rw [if_pos hm, if_pos hm]
    exact ⟨rfl, c₀, hc, rfl⟩
  · rw [if_neg hm, if_neg hm, hr]
    by_cases h0 : w.conn.reqRx.receivers = 0
    · rw [if_pos h0, if_pos h0]
      exact ⟨rfl, c₀, hc, rfl⟩
    · rw [if_neg h0, if_neg h0]
      dsimp only
      generalize hq : (⟨req, _, _⟩ : Handle) = next
      have henq : ∀ q', Chan.enqueue next { w.conn.reqRx with queue := q' } =
          { w.conn.reqRx.enqueue next with
            queue := q' ++ if w.conn.reqRx.ended then [] else [next] } := by
        intro q'
        rw [Chan.enqueue, Chan.enqueue]
        cases w.conn.reqRx.ended with
        | true => simp [Chan.wakeAll]
        | false => rfl
      refine ⟨rfl, _, (hc.onReqRx henq).change (f := fun c => { c with
        res := atId c.res w.issued fun _ => .new 1
        reqBody := atId c.reqBody w.issued fun _ =>
          if noBody || (LimitWrite.fromHeaders req.headers).isNoBody then (Chan.new 1).dropReceiver
          else .new 1 }) rfl rfl, rfl⟩

/-- **A step.**  It is in step with one without `bad`; or the connection is dropped; or the poll
comes to `bad`. -/
theorem World.Without.step (hbad : Unsendable bad.req) (hs : w.conn.io.Sound) (h : w.Without bad w₀)
    (a : Action) :
    (step a w).1 = (step a w₀).1 ∧ (step a w).2.Without bad (step a w₀).2 ∨
      a = .dropConn ∧ w.phase ≠ .dropped ∨
      ∃ cx d, a = .pollConn cx ∧ w.phase = .running ∧ AtTurn bad cx w.conn w₀.conn d := by
  have hsenders : w₀.conn.reqRx.senders = w.conn.reqRx.senders := by
    obtain ⟨c₀, ⟨front, behind, -, rfl⟩, rfl⟩ := h
    rfl
  -- A `SendRequest` is cloned, or dropped.
  have hhandle : ∀ f : Chan Handle → Chan Handle,
      (∀ q', f { w.conn.reqRx with queue := q' } = { f w.conn.reqRx with queue := q' ++ [] }) →
      (w.withReqRx (f w.conn.reqRx)).Without bad (w₀.withReqRx (f w₀.conn.reqRx)) := by
    intro f hf
    obtain ⟨c₀, hc, rfl⟩ := h
    exact ⟨_, hc.onReqRx hf, rfl⟩
  cases a with
  | sendRequest req noBody =>
      refine .inl ?_
      rw [Client.step, Client.step, hsenders]
      split
      · exact ⟨rfl, h⟩
      · exact h.sendRequest req noBody
  | cloneSendRequest =>
      refine .inl ?_
      rw [Client.step, Client.step, hsenders]
      split
      · exact ⟨rfl, h⟩
      · exact ⟨rfl, hhandle Chan.cloneSender fun q' => by rw [List.append_nil]; rfl⟩
  | dropSendRequest =>
      refine .inl ?_
      rw [Client.step, Client.step, hsenders]
      split
      · exact ⟨rfl, h⟩
      · refine ⟨rfl, hhandle Chan.dropSender fun q' => ?_⟩
        rw [List.append_nil, Chan.dropSender, Chan.dropSender]
        dsimp only
        split <;> rfl
  | pollConn cx =>
      obtain ⟨c₀, hc, rfl⟩ := h
      rw [Client.step, Client.step]
      by_cases hp : w.phase = .running
      · rw [if_neg (fun hn => hn hp), if_neg (fun hn => hn hp)]
        have hpoll : InStep (Client.Without bad) (pollClient cx) (pollClient cx) w.conn c₀ ∨ _ :=
          pollClient_without hbad hs hc
        rcases hpoll with ⟨ho, hr⟩ | ⟨d, hd⟩
        · refine .inl ⟨congrArg Obs.conn ho, _, hr, ?_⟩
          dsimp only
          rw [ho]
        · exact .inr (.inr ⟨cx, d, rfl, hp, hd⟩)
      · rw [if_pos hp, if_pos hp]
        exact .inl ⟨rfl, c₀, hc, rfl⟩
  | dropConn =>
      obtain ⟨c₀, hc, rfl⟩ := h
      by_cases hp : w.phase = .dropped
      · rw [Client.step, Client.step, if_pos hp, if_pos hp]
        exact .inl ⟨rfl, c₀, hc, rfl⟩
      · exact .inr (.inl ⟨rfl, hp⟩)
  | pollFuture i cx => exact .inl (h.onHandle rfl)
  | dropFuture i => exact .inl (h.onHandle rfl)
  | read i cx n => exact .inl (h.onHandle rfl)
  | dropRecv i => exact .inl (h.onHandle rfl)
  | sendData i owned cx bs fin => exact .inl (h.onHandle rfl)
  | dropSend i => exact .inl (h.onHandle rfl)

end Step

/-! ### Runs -/

/-- The connection has ended, at `d`, before the requests from `n` on. -/
structure Over (n : Nat) (d : Conn) (w : World) : Prop where
  phase : w.phase ≠ .running
  io : w.conn.io = d.io
  answers : w.conn.answers = d.answers
  untold : ∀ i, n ≤ i → (w.conn.res i).queue = []
  closed : (w.conn.res n).senders = 0
  issued : n < w.issued

section Over
variable {n : Nat} {d : Conn} {w : World} {bad : Handle}

theorem Over.of_hushed {w' : World} (h : Over n d w) (hp : w'.phase ≠ .running)
    (hc : SameCodec w.conn w'.conn) (hh : Hushed w.conn w'.conn) (hi : w'.issued = w.issued) :
    Over n d w' where
  phase := hp
  io := hc.io.trans h.io
  answers := hc.answers.trans h.answers
  untold := fun i hni => hh.queue i (h.untold i hni)
  closed := Nat.le_zero.mp (h.closed ▸ hh.senders n)
  issued := hi ▸ h.issued

theorem Over.enqueued {w' : World} {req : Request} {noSendBody : Bool} (h : Over n d w)
    (hp : w'.phase = w.phase) (hc : w'.conn = Client.enqueued w.issued req noSendBody w.conn)
    (hi : w'.issued = w.issued + 1) : Over n d w' := by
  have hres : w'.conn.res = atId w.conn.res w.issued fun _ => .new 1 := by
    rw [hc]
    rfl
  refine ⟨hp ▸ h.phase, ?_, ?_, fun i hni => ?_, ?_, hi ▸ Nat.lt_succ_of_lt h.issued⟩
  · rw [hc]
    exact h.io
  · rw [hc]
    exact h.answers
  · rw [hres]
    by_cases hii : i = w.issued
    · subst hii
      rw [atId_self]
      rfl
    · rw [atId_of_ne hii]
      exact h.untold i hni
  · rw [hres, atId_of_ne (Nat.ne_of_lt h.issued)]
    exact h.closed

variable [VecAlloc] [Crates]

theorem Over.step (h : Over n d w) (a : Action) : Over n d (step a w).2 := by
  have hacts := step_acts a w
  have hc : SameCodec w.conn (Client.step a w).2.conn := by
    refine hacts.codec.resolve_left ?_
    rintro ⟨cx, r, hp, -⟩
    exact h.phase hp
  by_cases ha : Requests.onHandle a = true
  · have hb := Requests.beside_step ha w
    exact h.of_hushed (hb.phase ▸ h.phase) hc (hushed_step ha w) hb.issued
  · generalize (Client.step a w).1 = o at hacts
    generalize (Client.step a w).2 = w' at hacts hc ⊢
    cases hacts with
    | idle => exact h
    | refused hr => exact h
    | request hm hs hr hl hb => exact h.enqueued rfl rfl rfl
    | cloned hs => exact h.of_hushed h.phase hc (.of_res rfl) rfl
    | dropRequest hs => exact h.of_hushed h.phase hc (.of_res rfl) rfl
    | poll hp hx => exact absurd hp h.phase
    | dropConn hp => exact h.of_hushed (by simp) hc (hushed_dropConn w.conn) rfl
    | _ => exact absurd rfl ha

theorem Over.run (h : Over n d w) (as : List Action) : Over n d (Runs.after Client.step as w) :=
  Runs.run_invariant (I := Over n d) (fun _ a h _ => h.step a) (Runs.along_true as w) h

/-- A request to which nothing has been sent is not answered. -/
theorem not_resolved {i : Nat} {cx : Waker} (hq : (w.conn.res i).queue = []) (res : Response) :
    (Client.step (.pollFuture i cx) w).1 ≠ .resolved i (.ready res) := by
  have hacts := step_acts (.pollFuture i cx) w
  generalize (Client.step (.pollFuture i cx) w).1 = o at hacts
  generalize (Client.step (.pollFuture i cx) w).2 = w' at hacts
  intro ho
  cases hacts with
  | idle => cases ho
  | wait hf hn hs => cases ho
  | resolve hf hn => cases hq.symm.trans hn
  | unanswered hf hn hs => cases ho

theorem Over.fails (h : Over n d w) (hf : w.future n = true) (cx : Waker) :
    ∃ e, (Client.step (.pollFuture n cx) w).1 = .resolved n (.fail e) := by
  rw [Client.step, if_pos hf]
  exact ⟨_, Requests.pollFuture_lastAnswer (h.untold n (Nat.le_refl n)) h.closed⟩

/-- The poll that comes to `bad` ends the connection. -/
theorem AtTurn.over {k : Nat} {cx : Waker} {c₀ : Conn} (h : AtTurn bad cx w.conn c₀ d)
    (hl : Lined k w.issued w.conn) (hp : w.phase = .running) (hn : bad.resTx = some n) :
    (Client.step (.pollConn cx) w).1 = .conn (refusal bad.req) ∧
      Over n d (Client.step (.pollConn cx) w).2 := by
  obtain ⟨behind, hq, -, hx⟩ := h.same
  obtain ⟨k', hd⟩ := moves_lined h.moves hl
  have hk : bad.resTx = some k' := hd.numbers 0 bad (by rw [hq]; rfl)
  obtain rfl : k' = n := Option.some.inj (hk.symm.trans hn)
  have hdrop := Requests.kept_dropHandle bad
    { d with reqRx := { d.reqRx with queue := behind }.wakeAll }
  have hres : Hushed d { d with reqRx := { d.reqRx with queue := behind }.wakeAll } := .of_res rfl
  have hh : Hushed d (d.refusing bad behind) := hres.trans (hushed_dropHandle bad _)
  have hpend : (refusal bad.req : Outcome IoError Unit) ≠ .pending := by
    unfold refusal
    cases versionBytes bad.req.version with
    | ok ver => simp
    | error m => simp
  rw [Client.step, if_neg (fun hne => hne hp), hx]
  refine ⟨rfl, ?_, rfl, rfl, fun i hi => hh.queue i (hd.untold i hi), hdrop.2 k' hn (hd.one k'), ?_⟩
  · show (if refusal bad.req = .pending then ConnPhase.running else .complete) ≠ .running
    rw [if_neg hpend]
    simp
  · have hlen := hd.length
    rw [hq, List.length_cons] at hlen
    show k' < w.issued
    omega

/-- And so does its drop. -/
theorem over_dropConn {k : Nat} (hl : Lined k w.issued w.conn) (hp : w.phase ≠ .dropped)
    (hm : bad ∈ w.conn.reqRx.queue) (hn : bad.resTx = some n) :
    Over n w.conn (Client.step .dropConn w).2 := by
  obtain ⟨j, hj⟩ := List.mem_iff_getElem?.mp hm
  have hnj : n = k + j := Option.some.inj (hn.symm.trans (hl.numbers j bad hj))
  have hlen := hl.length
  have hlt := lt_of_getElem? hj
  have hc := sameCodec_dropConn w.conn
  have hh := hushed_dropConn w.conn
  rw [Client.step, if_neg hp]
  refine ⟨by simp, hc.io, hc.answers, fun i hi => hh.queue i (hl.untold i ?_),
    senders_dropConn hl.one hm hn, ?_⟩
  · omega
  · show n < w.issued
    omega

end Over

section Runs
variable [VecAlloc] [Crates] {bad : Handle}

/-- What holds in front of the poll that comes to `bad`. -/
structure InFront (bad : Handle) (w w₀ : World) : Prop where
  sound : w.conn.io.Sound
  lined : ∃ k, Lined k w.issued w.conn
  without : w.Without bad w₀

/-- A run is in step with one without `bad`, up to where the connection is dropped, or comes to it. -/
theorem InFront.run {w w₀ : World} (hbad : Unsendable bad.req) (h : InFront bad w w₀)
    (as : List Action) : ∃ as₁ as₂, as = as₁ ++ as₂ ∧
      (Runs.run step as₁ w).1 = (Runs.run step as₁ w₀).1 ∧
      InFront bad (Runs.after step as₁ w) (Runs.after step as₁ w₀) ∧
      (as₂ = [] ∨ ∃ a as₃, as₂ = a :: as₃ ∧
        (a = .dropConn ∧ (Runs.after step as₁ w).phase ≠ .dropped ∨
          ∃ cx d, a = .pollConn cx ∧ (Runs.after step as₁ w).phase = .running ∧
            AtTurn bad cx (Runs.after step as₁ w).conn (Runs.after step as₁ w₀).conn d)) := by
  refine Runs.run_inStep_until (Q := fun w w₀ a => a = .dropConn ∧ w.phase ≠ .dropped ∨
    ∃ cx d, a = .pollConn cx ∧ w.phase = .running ∧ AtTurn bad cx w.conn w₀.conn d) ?_ as h
  intro w w₀ a h
  obtain ⟨k, hl⟩ := h.lined
  refine (h.without.step hbad h.sound a).imp (fun hstep => ⟨hstep.1, ?_, ?_, hstep.2⟩) id
  · exact (step_acts a w).sound h.sound
  · exact step_lined h.sound hl a

/-- **A request that cannot be sent ends the connection.**  In whatever follows (`later`), from when
the request `bad` with the number `n` is queued:

* Up to some point all steps show the same, and leave the same, as if it had not been queued (`w₀`).
* That point is the end of `later`; or the drop of the connection; or the poll that comes to `bad`,
  with all that was in front of it done, which fails or panics.
* From there nothing more is written, nor answered, and a poll of the `ResponseFuture` of `bad`
  fails.
* At no time is `bad`, or a request behind it, answered. -/
theorem unsendable_ends_connection (inner : Transport) (as later : List Action) {bad : Handle}
    {front behind : List Handle} (hbad : Unsendable bad.req)
    (hq : (Runs.after step as (handshake inner)).conn.reqRx.queue = front ++ bad :: behind) :
    let w := Runs.after step as (handshake inner)
    let w₀ := w.withReqRx { w.conn.reqRx with queue := front ++ behind }
    let v := Runs.after step later w
    ∃ n as₁ as₂, bad.resTx = some n ∧ later = as₁ ++ as₂ ∧
      let u := Runs.after step as₁ w
      let u₀ := Runs.after step as₁ w₀
      (Runs.run step as₁ w).1 = (Runs.run step as₁ w₀).1 ∧ u.Without bad u₀ ∧
        (∀ i cx res, n ≤ i → (step (.pollFuture i cx) v).1 ≠ .resolved i (.ready res)) ∧
        (as₂ = [] ∨ ∃ a as₃ d, as₂ = a :: as₃ ∧
          (a = .dropConn ∧ d = u.conn ∨ ∃ cx, a = .pollConn cx ∧
            AtTurn bad cx u.conn u₀.conn d ∧ (step a u).1 = .conn (refusal bad.req)) ∧
          v.conn.io = d.io ∧ v.conn.answers = d.answers ∧
          ∀ cx, v.future n = true → ∃ e, (step (.pollFuture n cx) v).1 = .resolved n (.fail e)) := by
  intro w w₀ v
  obtain ⟨hsound, k, hl⟩ : w.conn.io.Sound ∧ ∃ k, Lined k w.issued w.conn := run_lined inner as
  have hn : bad.resTx = some (k + front.length) :=
    hl.numbers front.length bad (by rw [hq, List.getElem?_append_right (Nat.le_refl _)]; simp)
  generalize k + front.length = n at hn
  have hw₀ : InFront bad w w₀ := ⟨hsound, ⟨k, hl⟩, _, ⟨front, behind, hq, rfl⟩, rfl⟩
  obtain ⟨as₁, as₂, hlater, hobs, ⟨-, ⟨k', hl'⟩, hu⟩, hend⟩ := hw₀.run hbad later
  refine ⟨n, as₁, as₂, hn, hlater, hobs, hu, ?_⟩
  have hmem : bad ∈ (Runs.after step as₁ w).conn.reqRx.queue := by
    obtain ⟨c₀, ⟨front', behind', hq', -⟩, -⟩ := hu
    rw [hq']
    simp
  have hv : v = Runs.after step as₂ (Runs.after step as₁ w) := by
    show Runs.after step later w = _
    rw [hlater, Runs.after, Runs.run_append]
  rcases hend with rfl | ⟨a, as₃, rfl, hq'⟩
  · refine ⟨fun i cx res hi => not_resolved ?_ res, .inl rfl⟩
    obtain ⟨j, hj⟩ := List.mem_iff_getElem?.mp hmem
    obtain rfl : n = k' + j := Option.some.inj (hn.symm.trans (hl'.numbers j bad hj))
    rw [hv]
    exact hl'.untold i (Nat.le_trans (Nat.le_add_right _ _) hi)
  · obtain ⟨d, hover, hd⟩ : ∃ d, Over n d (step a (Runs.after step as₁ w)).2 ∧
        (a = .dropConn ∧ d = (Runs.after step as₁ w).conn ∨ ∃ cx, a = .pollConn cx ∧
          AtTurn bad cx (Runs.after step as₁ w).conn (Runs.after step as₁ w₀).conn d ∧
          (step a (Runs.after step as₁ w)).1 = .conn (refusal bad.req)) := by
      rcases hq' with ⟨rfl, hp⟩ | ⟨cx, d, rfl, hp, hd⟩
      · exact ⟨_, over_dropConn hl' hp hmem hn, .inl ⟨rfl, rfl⟩⟩
      · have hturn := hd.over hl' hp hn
        exact ⟨d, hturn.2, .inr ⟨cx, rfl, hd, hturn.1⟩⟩
    have hvover : Over n d v := hv ▸ hover.run as₃
    exact ⟨fun i cx res hi => not_resolved (hvover.untold i hi) res,
      .inr ⟨a, as₃, d, rfl, hd, hvover.io, hvover.answers, fun cx hf => hvover.fails hf cx⟩⟩

end Runs

/-- A request, with a path of its own. -/
def getPath (path : Bytes) : Request := ⟨.get, ⟨none, none, none, some path⟩, .http11, []⟩

/-- A request with a head of more than 8192 bytes. -/
def longReq : Request := getPath (List.replicate 8192 47)

/-- A request with a version that is not written. -/
def http2Req : Request := { getPath [98] with version := .http2 }

/-- The answer to one request. -/
def noContentBytes : Bytes := ascii "HTTP/1.1 204 No\r\n\r\n"

/-- A transport with the answer. -/
def oneAnswer : Transport := ⟨[.data noContentBytes], false, [], [], 0⟩

/-- Three requests, of which the second cannot be sent. -/
def askThree : List Action :=
  [.sendRequest (getPath [47]) true, .sendRequest http2Req true, .sendRequest (getPath [97]) true]

theorem http2Req_unsendable : Unsendable http2Req := by
  intro ver hver
  cases hver

theorem askThree_queue :
    letI := VecAlloc.amortized
    letI := Crates.table [] [(noContentBytes, ⟨some 1, some 204, []⟩)]
    (Runs.after step askThree (handshake oneAnswer)).conn.reqRx.queue =
      [newHandle 0 (getPath [47]) true] ++ newHandle 1 http2Req true ::
        [newHandle 2 (getPath [97]) true] := by
  decide +kernel

/-- The first is sent and answered, and of the others nothing is written. -/
theorem unsendable_ends_connection_http2 :
    letI := VecAlloc.amortized
    letI := Crates.table [] [(noContentBytes, ⟨some 1, some 204, []⟩)]
    let w := Runs.after step askThree (handshake oneAnswer)
    let v := Runs.after step [.pollConn 0, .pollFuture 0 0] w
    v.conn.io.inner.written = ascii "GET / HTTP/1.1\r\n\r\n" ∧
      ∀ cx res, (step (.pollFuture 2 cx) v).1 ≠ .resolved 2 (.ready res) := by
  intro w v
  obtain ⟨n, as₁, as₂, hn, -, -, -, h, -⟩ :=
    @unsendable_ends_connection VecAlloc.amortized
      (Crates.table [] [(noContentBytes, ⟨some 1, some 204, []⟩)]) oneAnswer askThree
      [.pollConn 0, .pollFuture 0 0] _ _ _ http2Req_unsendable askThree_queue
  obtain rfl : 1 = n := Option.some.inj hn
  exact ⟨by decide +kernel, fun cx res => h 2 cx res (by decide)⟩

/-- **It does not fail alone.**  A request whose head does not fit, or whose version is not written,
ends the connection, and the one behind it is neither sent nor answered, as it is without it. -/
theorem unsendable_not_alone :
    letI := VecAlloc.amortized
    letI := Crates.table [] [(noContentBytes, ⟨some 1, some 204, []⟩)]
    let asked := fun req : Request => Runs.after step
      [.sendRequest req true, .sendRequest (getPath [47]) true] (handshake oneAnswer)
    let later : List Action := [.pollConn 0, .pollFuture 0 0, .pollFuture 1 0]
    let w := asked longReq
    let w₀ := w.withReqRx { w.conn.reqRx with queue := [newHandle 1 (getPath [47]) true] }
    (Runs.run step later w₀).1 =
        [.conn .pending, .resolved 0 .pending, .resolved 1 (.ready ⟨204, .http11, []⟩)] ∧
      (Runs.run step later w).1 =
        [.conn (.fail ⟨.writeZero, "failed to write whole buffer"⟩),
          .resolved 0 (.fail (errClosed "Response failed, connection is closed")),
          .resolved 1 .pending] ∧
      (Runs.after step later w).conn.io.inner.written = [] ∧
      (Runs.run step later (asked http2Req)).1 =
        [.conn (.panic "Unsupported http version"),
          .resolved 0 (.fail (errClosed "Response failed, connection is closed")),
          .resolved 1 .pending] := by
  decide +kernel

end HreqH1.Client
