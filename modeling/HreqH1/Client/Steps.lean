import HreqH1.Client.Moves
import HreqH1.Support.Runs

/-!
# Client — steps of the user

`Acts w a o w'`: what the step `a` comes to, with one constructor for each way it can.  A step
either polls the codec, drops it, or changes channels; `step_acts` is all that is used of `step`
elsewhere.
-/

namespace HreqH1.Client
open PollM

/-- What `send_request` enqueues as the `i`-th request. -/
def newHandle (i : Nat) (req : Request) (noSendBody : Bool) : Handle :=
  ⟨req, if noSendBody then none else some i, some i⟩

/-- The connection once a request is enqueued. -/
def enqueued (i : Nat) (req : Request) (noSendBody : Bool) (c : Conn) : Conn :=
  { c with
    reqRx := c.reqRx.enqueue (newHandle i req noSendBody)
    res := atId c.res i fun _ => .new 1
    reqBody := atId c.reqBody i fun _ =>
      if noSendBody then (Chan.new 1).dropReceiver else .new 1 }

/-- What a `ResponseFuture` makes of what it is sent. -/
def resolution : Answer → Outcome Error Response
  | .ok (res, _) => .ready res
  | .error e => .fail (.io e)

/-- The `RecvStream`s once an answer is there. -/
def received (i : Nat) (a : Answer) (recv : Nat → Option RecvStream) : Nat → Option RecvStream :=
  match a with
  | .ok (_, r) => Function.update recv i (some r)
  | .error _ => recv

section DropFuture

/-- A `ResponseFuture` that is dropped: its channel, and the bodies of what is queued in it. -/
theorem dropFuture_conn (i : Nat) (w : World) : ∃ resBody, (dropFuture i w).conn =
    { w.conn with res := atId w.conn.res i Chan.dropReceiver, resBody := resBody } := by
  have hfold : ∀ f : Conn → Answer → Conn,
      (∀ c a, ∃ resBody, f c a = { c with resBody := resBody }) →
      ∀ (q : List Answer) (c : Conn), ∃ resBody, q.foldl f c = { c with resBody := resBody } := by
    intro f hf q
    induction q with
    | nil => exact fun c => ⟨c.resBody, rfl⟩
    | cons a q ih =>
        intro c
        obtain ⟨rb, h⟩ := hf c a
        obtain ⟨rb', h'⟩ := ih (f c a)
        refine ⟨rb', ?_⟩
        rw [List.foldl_cons, h', h]
  rw [dropFuture]
  refine (hfold _ ?_ (w.conn.res i).queue w.conn).imp fun rb h =>
    (congrArg (Conn.onRes i Chan.dropReceiver) h).trans rfl
  intro c a
  cases a with
  | ok p => exact ⟨_, rfl⟩
  | error e => exact ⟨c.resBody, rfl⟩

end DropFuture

variable [VecAlloc] [Crates]

/-- What a step comes to. -/
inductive Acts : World → Action → Obs → World → Prop where
  /-- The handle is not held, or nothing is to be seen of the step. -/
  | idle {w : World} {a : Action} : Acts w a .idle w
  | refused {w : World} {req : Request} {noBody : Bool} {e : Error}
      (hr : req.method = .connect ∨ w.conn.reqRx.receivers = 0) :
      Acts w (.sendRequest req noBody) (.requested (.error e)) w
  | request {w : World} {req : Request} {noBody noSendBody : Bool} {limit : LimitWrite}
      (hm : req.method ≠ .connect) (hs : w.conn.reqRx.senders ≠ 0)
      (hr : w.conn.reqRx.receivers ≠ 0) (hl : limit = LimitWrite.fromHeaders req.headers)
      (hb : noSendBody = (noBody || limit.isNoBody)) :
      Acts w (.sendRequest req noBody) (.requested (.ok w.issued))
        { w with
          conn := enqueued w.issued req noSendBody w.conn
          issued := w.issued + 1
          future := Function.update w.future w.issued true
          send := Function.update w.send w.issued (some ⟨limit, noSendBody, false⟩) }
  | cloned {w : World} (hs : w.conn.reqRx.senders ≠ 0) :
      Acts w .cloneSendRequest .idle
        { w with conn := { w.conn with reqRx := w.conn.reqRx.cloneSender } }
  | dropRequest {w : World} (hs : w.conn.reqRx.senders ≠ 0) :
      Acts w .dropSendRequest .idle
        { w with conn := { w.conn with reqRx := w.conn.reqRx.dropSender } }
  | poll {w : World} {cx : Waker} {r : Outcome IoError Unit} {c : Conn}
      (hp : w.phase = .running) (hx : pollClient cx w.conn = (r, c)) :
      Acts w (.pollConn cx) (.conn r)
        { w with conn := c, phase := if r = .pending then .running else .complete }
  | dropConn {w : World} (hp : w.phase ≠ .dropped) :
      Acts w .dropConn .idle { w with conn := dropConn w.conn, phase := .dropped }
  | wait {w : World} {i : Nat} {cx : Waker} (hf : w.future i = true)
      (hq : (w.conn.res i).queue = []) (hn : (w.conn.res i).senders ≠ 0) :
      Acts w (.pollFuture i cx) (.resolved i .pending)
        { w with conn := w.conn.onRes i fun c => c.register cx }
  | resolve {w : World} {i : Nat} {cx : Waker} {a : Answer} {q : List Answer}
      (hf : w.future i = true) (hq : (w.conn.res i).queue = a :: q) :
      Acts w (.pollFuture i cx) (.resolved i (resolution a))
        (dropFuture i { w with
          conn := w.conn.onRes i fun c => { c with queue := q }.wakeAll
          recv := received i a w.recv })
  | unanswered {w : World} {i : Nat} {cx : Waker} (hf : w.future i = true)
      (hq : (w.conn.res i).queue = []) (hn : (w.conn.res i).senders = 0) :
      Acts w (.pollFuture i cx)
        (.resolved i (.fail (errClosed "Response failed, connection is closed")))
        (dropFuture i { w with conn := w.conn.onRes i fun c => c.register cx })
  | dropFuture {w : World} {i : Nat} (hf : w.future i = true) :
      Acts w (.dropFuture i) .idle (dropFuture i w)
  | read {w : World} {i : Nat} {cx : Waker} {n : Nat} {recv recv' : RecvStream}
      {o : Outcome IoError Bytes} {body : Chan (Except IoError Bytes)} (hr : w.recv i = some recv)
      (hp : RecvStream.pollBodyData cx (n + 1) (recv, w.conn.resBody i) = (o, (recv', body))) :
      Acts w (.read i cx n) (.read i o)
        { w with
          conn := w.conn.onResBody i fun _ => body
          recv := Function.update w.recv i (some recv') }
  | dropRecv {w : World} {i : Nat} {recv : RecvStream} (hr : w.recv i = some recv) :
      Acts w (.dropRecv i) .idle
        { w with
          conn := w.conn.onResBody i Chan.dropReceiver
          recv := Function.update w.recv i none }
  | sendData {w : World} {i : Nat} {owned : Bool} {cx : Waker} {bs : Bytes} {fin : Bool}
      {send send' : SendStream} {o : Outcome Error Unit} {rb : Chan (Bytes × Bool)}
      (hs : w.send i = some send)
      (hp : SendStream.pollSendData cx (if owned then Data.owned bs else .shared bs) fin
        (send, w.conn.reqBody i) = (o, (send', rb))) :
      Acts w (.sendData i owned cx bs fin) (.pushed i o)
        { w with
          conn := w.conn.onReqBody i fun _ => rb
          send := Function.update w.send i (some send') }
  | dropSend {w : World} {i : Nat} {send : SendStream} (hs : w.send i = some send) :
      Acts w (.dropSend i) .idle
        { w with
          conn := w.conn.onReqBody i Chan.dropSender
          send := Function.update w.send i none }

theorem sendRequest_acts {req : Request} {noBody : Bool} {w : World}
    (hs : w.conn.reqRx.senders ≠ 0) : Acts w (.sendRequest req noBody)
      (sendRequest req noBody w).1 (sendRequest req noBody w).2 := by
  rw [sendRequest]
  split
  · next hm => exact .refused (.inl hm)
  · next hm =>
    split
    · next hr => exact .refused (.inr hr)
    · next hr => exact .request hm hs hr rfl rfl

theorem pollFuture_acts {i : Nat} {cx : Waker} {w : World} (hf : w.future i = true) :
    Acts w (.pollFuture i cx) (pollFuture i cx w).1 (pollFuture i cx w).2 := by
  have hx : ∀ {r : Outcome IoError (Option Answer)} {c : Chan Answer},
      Chan.pollRecv cx true (w.conn.res i) = (r, c) →
        pollRes i (Chan.pollRecv cx true) w.conn = (r, w.conn.onRes i fun _ => c) := by
    intro r c h
    rw [pollRes, run_zoom, h]
  rw [pollFuture]
  cases hq : (w.conn.res i).queue with
  | nil =>
      have hp := hx (Chan.pollRecv_nil hq)
      rw [hp]
      by_cases h0 : (w.conn.res i).senders = 0
      · rw [if_pos h0]
        exact .unanswered hf hq h0
      · rw [if_neg h0]
        exact .wait hf hq h0
  | cons a q =>
      have hp := hx (Chan.pollRecv_cons hq)
      rw [hp]
      cases a with
      | ok p => exact .resolve (a := .ok p) hf hq
      | error e => exact .resolve (a := .error e) hf hq

/-- **What a step comes to.** -/
theorem step_acts (a : Action) (w : World) : Acts w a (step a w).1 (step a w).2 := by
  cases a with
  | sendRequest req noBody =>
      rw [step]
      split
      · exact .idle
      · next hs => exact sendRequest_acts hs
  | cloneSendRequest =>
      rw [step]
      split
      · exact .idle
      · next hs => exact .cloned hs
  | dropSendRequest =>
      rw [step]
      split
      · exact .idle
      · next hs => exact .dropRequest hs
  | pollConn cx =>
      rw [step]
      split
      · exact .idle
      · next hp => exact .poll (Classical.not_not.mp hp) rfl
  | dropConn =>
      rw [step]
      split
      · exact .idle
      · next hp => exact .dropConn hp
  | pollFuture i cx =>
      rw [step]
      split
      · next hf => exact pollFuture_acts hf
      · exact .idle
  | dropFuture i =>
      rw [step]
      split
      · next hf => exact .dropFuture hf
      · exact .idle
  | read i cx n =>
      rw [step]
      split
      · exact .idle
      · next recv hr => exact .read hr rfl
  | dropRecv i =>
      rw [step]
      split
      · exact .idle
      · next recv hr => exact .dropRecv hr
  | sendData i owned cx bs fin =>
      rw [step]
      split
      · exact .idle
      · next send hs => exact .sendData hs rfl
  | dropSend i =>
      rw [step]
      split
      · exact .idle
      · next send hs => exact .dropSend hs

/-! ### Steps beside the codec -/

/-- The codec itself is as it was, and only new requests have been queued. -/
structure SameCodec (c c' : Conn) : Prop where
  io : c'.io = c.io
  state : c'.state = c.state
  complete : c'.complete = c.complete
  answers : c'.answers = c.answers
  queue : ∀ h ∈ c'.reqRx.queue, h ∈ c.reqRx.queue ∨ ∃ i req noSendBody, h = newHandle i req noSendBody

section SameCodec
omit [VecAlloc] [Crates]

theorem SameCodec.refl (c : Conn) : SameCodec c c := ⟨rfl, rfl, rfl, rfl, fun _ => .inl⟩

theorem sameCodec_dropFuture (i : Nat) (w : World) {c : Conn} (h : SameCodec c w.conn) :
    SameCodec c (dropFuture i w).conn := by
  obtain ⟨rb, heq⟩ := dropFuture_conn i w
  rw [heq]
  exact ⟨h.io, h.state, h.complete, h.answers, h.queue⟩

theorem sameCodec_dropHandles (q : List Handle) (c : Conn) :
    SameCodec c (q.foldl (fun w h => w.dropHandle h) c) := by
  induction q generalizing c with
  | nil => exact .refl c
  | cons h q ih =>
      have hc := ih (c.dropHandle h)
      exact ⟨hc.io, hc.state, hc.complete, hc.answers, hc.queue⟩

/-- The state that is dropped stays in the record. -/
theorem sameCodec_dropConn (c : Conn) : SameCodec c (dropConn c) := by
  have hq : ∀ {c₁ : Conn}, SameCodec c c₁ →
      SameCodec c { c₁.reqRx.queue.foldl (fun w h => w.dropHandle h) c₁ with
        reqRx := (c₁.reqRx.queue.foldl (fun w h => w.dropHandle h) c₁).reqRx.dropReceiver } := by
    intro c₁ h
    have hd := sameCodec_dropHandles c₁.reqRx.queue c₁
    refine ⟨hd.io.trans h.io, hd.state.trans h.state, hd.complete.trans h.complete,
      hd.answers.trans h.answers, fun x hx => ?_⟩
    rcases hd.queue x (Chan.mem_dropReceiver hx) with hx | hx
    · exact h.queue x hx
    · exact .inr hx
  rw [dropConn]
  refine hq ?_
  cases c.state with
  | sendReq => exact .refl c
  | recvBody h => exact ⟨rfl, rfl, rfl, rfl, fun _ => .inl⟩
  | recvRes h =>
      dsimp only
      cases h.holder with
      | none => exact ⟨rfl, rfl, rfl, rfl, fun _ => .inl⟩
      | some p => exact ⟨rfl, rfl, rfl, rfl, fun _ => .inl⟩

end SameCodec

/-- A step that is no poll of the connection leaves the codec as it is. -/
theorem Acts.codec {w w' : World} {a : Action} {o : Obs} (h : Acts w a o w') :
    (∃ cx r, w.phase = .running ∧ pollClient cx w.conn = (r, w'.conn)) ∨
      SameCodec w.conn w'.conn := by
  cases h with
  | poll hp hx => exact .inl ⟨_, _, hp, hx⟩
  | dropConn hp => exact .inr (sameCodec_dropConn _)
  | resolve hf hq => exact .inr (sameCodec_dropFuture _ _ ⟨rfl, rfl, rfl, rfl, fun _ => .inl⟩)
  | unanswered hf hq hn => exact .inr (sameCodec_dropFuture _ _ ⟨rfl, rfl, rfl, rfl, fun _ => .inl⟩)
  | dropFuture hf => exact .inr (sameCodec_dropFuture _ _ (.refl _))
  | request hm hs hr hl hb =>
      refine .inr ⟨rfl, rfl, rfl, rfl, fun h hh => ?_⟩
      exact (Chan.mem_enqueue hh).imp id fun h => ⟨_, _, _, h⟩
  | dropRequest hs => exact .inr ⟨rfl, rfl, rfl, rfl, fun h hh => .inl (Chan.queue_dropSender ▸ hh)⟩
  | _ => exact .inr ⟨rfl, rfl, rfl, rfl, fun _ => .inl⟩

/-- The codec's buffers stay sound. -/
theorem Acts.sound {w w' : World} {a : Action} {o : Obs} (h : Acts w a o w')
    (hw : w.conn.io.Sound) : w'.conn.io.Sound := by
  rcases h.codec with ⟨cx, r, -, hx⟩ | hs
  · have hp : (pollClient cx w.conn).2.io.Sound := pollClient_sound hw
    rw [hx] at hp
    exact hp
  · rw [hs.io]
    exact hw

/-- An invariant of the codec that polls keep, a run keeps. -/
theorem run_codec {I : Conn → Prop} {inner : Transport} (as : List Action)
    (h0 : I (handshake inner).conn) (hI : ∀ {c c'}, SameCodec c c' → I c → I c')
    (hpoll : ∀ {c c' r}, ClientPost c r c' → I c → I c') :
    I (Runs.after step as (handshake inner)).conn := by
  have hstep : ∀ (w : World) (a : Action), w.conn.io.Sound ∧ I w.conn → True →
      (step a w).2.conn.io.Sound ∧ I (step a w).2.conn := by
    intro w a hw _
    have ha := step_acts a w
    refine ⟨ha.sound hw.1, ?_⟩
    rcases ha.codec with ⟨cx, r, -, hx⟩ | hs
    · exact hpoll (wp_elim (pollClient_moves hw.1) hx) hw.2
    · exact hI hs hw.2
  exact (Runs.run_invariant (I := fun w : World => w.conn.io.Sound ∧ I w.conn) hstep
    (Runs.along_true as _) ⟨BufIo.sound_withCapacity (by decide) inner, h0⟩).2

end HreqH1.Client
