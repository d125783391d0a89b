import HreqH1.Client.Ledger
import HreqH1.Concurrent.Channel

/-!
# Concurrent — Requests

The threads that call `send_request` through clones of the `SendRequest`, and the thread that polls
the `Connection` and drops it, in any interleaving.  A locked section of the queue of requests is one
step: `send_request` upgrades its `Weak` before it and lets go of the `Arc` after, and the drop of the
`Connection` goes by its fields, the state first.  A poll looks at the queue at most once in a round
of `drive`, so a round is one step too.

What the connection does in one go in `Client.step` is a run of these steps (`poll_eq`, `request_eq`,
`dropConn_eq`).
-/

namespace HreqH1.Requests
open PollM Runs Client

/-- Where the thread with a `SendRequest` is. -/
inductive RequestAt where
  | held
  /-- In `send_request`, with the channels of the `i`-th request and an `Arc` of the queue. -/
  | sending (i : Nat) (req : Request) (noSendBody : Bool)
  /-- In `send_request`, behind the locked section. -/
  | sent (i : Nat) (req : Request) (noSendBody : Bool)
  | gone
  deriving DecidableEq

/-- Where the thread with the `Connection` is. -/
inductive ConnAt where
  | idle
  | polling (cx : Waker)
  /-- In the drop, with the state gone. -/
  | stateless
  /-- In the drop, behind the locked section of the queue's `Receiver`. -/
  | closed
  deriving DecidableEq

/-- The connection and its user, and the threads. -/
structure World where
  base : Client.World
  conn : ConnAt
  threads : List RequestAt

/-- `handshake`. -/
def start (inner : Transport) : World := ⟨handshake inner, .idle, [.held]⟩

inductive Action where
  | clone (k : Nat)
  /-- `send_request` of the `k`-th clone, up to the lock. -/
  | send (k : Nat) (req : Request) (noBody : Bool)
  | enqueue (k : Nat)
  /-- The end of `send_request`. -/
  | sent (k : Nat)
  | dropSender (k : Nat)
  /-- The start of a poll of the `Connection`. -/
  | poll (cx : Waker)
  | round
  | dropState
  | close
  /-- The release of the queue's `Arc`. -/
  | release
  /-- What the user does with the other handles. -/
  | user (a : Client.Action)
  deriving DecidableEq

/-- The number of the request of a call. -/
def RequestAt.call : RequestAt → Option Nat
  | .sending i _ _ | .sent i _ _ => some i
  | _ => none

/-- A step on one of the handles a request comes with. -/
def onHandle : Client.Action → Bool
  | .pollFuture _ _ | .dropFuture _ | .read _ _ _ | .dropRecv _ | .sendData _ _ _ _ _
  | .dropSend _ => true
  | _ => false

namespace World

/-- An `Arc` of the queue is there to upgrade to. -/
def alive (w : World) : Bool :=
  w.base.conn.reqRx.receivers ≠ 0 || w.threads.any fun t => t.call.isSome

def setThread (k : Nat) (t : RequestAt) (w : World) : World :=
  { w with threads := w.threads.set k t }

/-- The connection after a step on it. -/
def withConn (c : Conn) (w : World) : World := { w with base := { w.base with conn := c } }

/-- The channels of the next request. -/
def beginRequest (noSendBody : Bool) (w : World) : World :=
  let i := w.base.issued
  let c := w.base.conn
  { w with
    base :=
      { w.base with
        conn :=
          { c with
            res := atId c.res i fun _ => .new 1
            reqBody := atId c.reqBody i fun _ =>
              if noSendBody then (Chan.new 1).dropReceiver else .new 1 }
        issued := i + 1 } }

/-- The locked section of `send`: a handle that is not queued goes out of scope. -/
def enqueueHandle (h : Handle) (c : Conn) : Conn :=
  let c' := if c.reqRx.ended then c.dropHandle h else c
  { c' with reqRx := c'.reqRx.enqueue h }

/-- The end of `send_request`. -/
def returnRequest (i : Nat) (req : Request) (noSendBody : Bool) (w : World) : World :=
  { w with
    base :=
      { w.base with
        future := Function.update w.base.future i true
        send := Function.update w.base.send i
          (some ⟨LimitWrite.fromHeaders req.headers, noSendBody, false⟩) } }

/-- The end of a poll. -/
def endPoll (r : Outcome IoError Unit) (c : Conn) (w : World) : Client.Obs × World :=
  (.conn r,
    { w with
      base := { w.base with conn := c, phase := if r = .pending then .running else .complete }
      conn := .idle })

/-- What is left of a poll after a round of `drive`. -/
def afterRound (p : Outcome IoError (Flow Unit Unit) × Conn) (w : World) : Client.Obs × World :=
  match p with
  | (.ready (.again _), c) => (.idle, w.withConn c)
  | (.ready (.done _), c) => w.endPoll (.ready ()) c
  | (.pending, c) => w.endPoll .pending c
  | (.fail e, c) => w.endPoll (.fail e) (tryForwardError e c)
  | (.panic m, c) => w.endPoll (.panic m) c
  | (.diverge, c) => w.endPoll .diverge c

end World

/-- The state of the codec goes out of scope. -/
def dropState (c : Conn) : Conn :=
  match c.state with
  | .sendReq => c
  | .recvRes h =>
      let c := c.dropHandle h.handle
      match h.holder with
      | some (i, _) => c.onResBody i Chan.dropSender
      | none => c
  | .recvBody h => c.onResBody h.bodyTx Chan.dropSender

/-- The locked section of the drop of the queue's `Receiver`. -/
def closeRequests (c : Conn) : Conn :=
  let c := c.reqRx.queue.foldl (fun c h => c.dropHandle h) c
  { c with reqRx := c.reqRx.close }

variable [VecAlloc] [Crates]

/-- A step of a thread; one that is not where it would be taken is none. -/
def step : Action → World → Client.Obs × World
  | .clone k, w =>
      match w.threads[k]? with
      | some .held =>
          (.idle, { w.withConn { w.base.conn with reqRx := w.base.conn.reqRx.cloneSender } with
            threads := w.threads ++ [.held] })
      | _ => (.idle, w)
  | .send k req noBody, w =>
      match w.threads[k]? with
      | some .held =>
          if req.method = .connect then
            (.requested (.error (.user "hreq-h1 does not support CONNECT")), w)
          else if w.alive then
            let noSendBody := noBody || (LimitWrite.fromHeaders req.headers).isNoBody
            (.idle, (w.beginRequest noSendBody).setThread k (.sending w.base.issued req noSendBody))
          else (.requested (.error (errClosed "Can't enqueue request, connection is closed")), w)
      | _ => (.idle, w)
  | .enqueue k, w =>
      match w.threads[k]? with
      | some (.sending i req noSendBody) =>
          (.idle,
            (w.withConn (World.enqueueHandle (newHandle i req noSendBody) w.base.conn)).setThread k
              (.sent i req noSendBody))
      | _ => (.idle, w)
  | .sent k, w =>
      match w.threads[k]? with
      | some (.sent i req noSendBody) =>
          (.requested (.ok i), (w.returnRequest i req noSendBody).setThread k .held)
      | _ => (.idle, w)
  | .dropSender k, w =>
      match w.threads[k]? with
      | some .held =>
          (.idle,
            (w.withConn { w.base.conn with reqRx := w.base.conn.reqRx.dropSender }).setThread k .gone)
      | _ => (.idle, w)
  | .poll cx, w =>
      if w.conn = .idle ∧ w.base.phase = .running then (.idle, { w with conn := .polling cx })
      else (.idle, w)
  | .round, w =>
      match w.conn with
      | .polling cx => w.afterRound (driveRound cx () w.base.conn)
      | _ => (.idle, w)
  | .dropState, w =>
      if w.conn = .idle ∧ w.base.phase ≠ .dropped then
        (.idle,
          { w with
            base := { w.base with conn := dropState w.base.conn, phase := .dropped }
            conn := .stateless })
      else (.idle, w)
  | .close, w =>
      if w.conn = .stateless then
        (.idle, { w.withConn (closeRequests w.base.conn) with conn := .closed })
      else (.idle, w)
  | .release, w =>
      if w.conn = .closed then
        let reqRx := w.base.conn.reqRx
        (.idle,
          { w.withConn { w.base.conn with reqRx := { reqRx with receivers := reqRx.receivers - 1 } }
            with conn := .idle })
      else (.idle, w)
  | .user a, w =>
      if onHandle a then ((Client.step a w.base).1, { w with base := (Client.step a w.base).2 })
      else (.idle, w)

/-! ### Steps in one go -/

section Together
variable {w : World} {k : Nat} {req : Request} {noBody : Bool} {c : Conn}

omit [VecAlloc] [Crates] in
@[simp] theorem reqRx_dropState (c : Conn) : (dropState c).reqRx = c.reqRx := by
  rw [dropState]
  split
  · rfl
  · dsimp only
    split <;> rfl
  · rfl

omit [VecAlloc] [Crates] in
/-- The drop of a connection. -/
theorem dropConn_eq (h : c.reqRx.receivers = 1) :
    Client.dropConn c =
      { closeRequests (dropState c) with
        reqRx := { (closeRequests (dropState c)).reqRx with
          receivers := (closeRequests (dropState c)).reqRx.receivers - 1 } } := by
  generalize hd : (dropState c).reqRx.queue.foldl (fun c h => Conn.dropHandle h c) (dropState c) = d
  have hr : d.reqRx = c.reqRx := by
    rw [← hd, reqRx_dropHandles, reqRx_dropState]
  have hdrop : Client.dropConn c = { d with reqRx := d.reqRx.dropReceiver } := by
    rw [← hd]
    rfl
  rw [hdrop, Chan.dropReceiver_eq (by rw [hr, h]), closeRequests, hd]

/-- A call of `send_request`. -/
theorem request_eq (hk : w.threads[k]? = some .held) (hm : req.method ≠ .connect)
    (hr : w.base.conn.reqRx.receivers ≠ 0) (he : w.base.conn.reqRx.ended = false) :
    Runs.after step [.send k req noBody, .enqueue k, .sent k] w =
      { w with base := (Client.sendRequest req noBody w.base).2 } := by
  obtain ⟨hlt, hget⟩ := List.getElem?_eq_some_iff.mp hk
  have ha : w.alive = true := by simp [World.alive, hr]
  have hset : w.threads.set k .held = w.threads := by
    rw [← hget, List.set_getElem_self]
  simp only [Runs.after, Runs.run_cons, Runs.run_nil, step, hk, hm, ha, if_true, if_false,
    World.setThread, World.beginRequest, List.getElem?_set_self hlt, World.withConn,
    World.returnRequest, World.enqueueHandle, he, Client.sendRequest, hr, List.set_set, hset,
    Bool.false_eq_true, newHandle]

theorem driveRound_decreases (cx : Waker) :
    Decreases (fun _ (c : Conn) => c.io.Sound) (fun _ => driveWeight) (driveRound cx) := by
  intro _ c _ c' hc hx
  have hr : wp (driveRound cx ()) _ c := driveRound_moves hc
  exact (wp_elim hr hx).2

/-- The rounds of a poll, and its end. -/
theorem rounds_eq {cx : Waker} (hs : w.base.conn.io.Sound) (hp : w.conn = .polling cx) :
    ∃ n, Runs.after step (List.replicate n .round) w =
      (w.endPoll (pollClient cx w.base.conn).1 (pollClient cx w.base.conn).2).2 := by
  induction hk : driveWeight w.base.conn using Nat.strongRecOn generalizing w with
  | ind n ih =>
      have hd := loop_unfold (driveRound_decreases cx) () hs
      change drive cx w.base.conn = _ at hd
      -- A poll that ends in this round.
      have hend : ∀ {r c}, pollClient cx w.base.conn = (r, c) →
          (w.afterRound (driveRound cx () w.base.conn)).2 = (w.endPoll r c).2 →
          ∃ n, Runs.after step (List.replicate n .round) w =
            (w.endPoll (pollClient cx w.base.conn).1 (pollClient cx w.base.conn).2).2 := by
        intro r c hx hr
        refine ⟨1, ?_⟩
        rw [hx, ← hr]
        simp only [List.replicate, Runs.after, Runs.run_cons, Runs.run_nil, step, hp]
      rcases hx : driveRound cx () w.base.conn with ⟨_ | (j | a) | e | m | _, c⟩
      · rw [run_bind_pending hx] at hd
        exact hend (r := .pending) (c := c) (by rw [pollClient, hd]) (by rw [hx]; rfl)
      · rw [run_bind_ready hx] at hd
        obtain ⟨hc, hlt⟩ := driveRound_decreases cx () _ _ _ hs hx
        obtain ⟨n, hn⟩ := ih _ (hk ▸ hlt) (w := w.withConn c) hc hp rfl
        refine ⟨n + 1, ?_⟩
        have hpoll : pollClient cx w.base.conn = pollClient cx c := by
          rw [pollClient, pollClient, hd]
          rfl
        rw [hpoll]
        simp only [List.replicate, Runs.after, Runs.run_cons, step, hp, hx]
        exact hn
      · rw [run_bind_ready hx] at hd
        exact hend (r := .ready ()) (c := c) (by rw [pollClient, hd]; rfl) (by rw [hx]; rfl)
      · rw [run_bind_fail hx] at hd
        exact hend (r := .fail e) (c := tryForwardError e c) (by rw [pollClient, hd]) (by rw [hx]; rfl)
      · rw [run_bind_panic hx] at hd
        exact hend (r := .panic m) (c := c) (by rw [pollClient, hd]) (by rw [hx]; rfl)
      · rw [run_bind_diverge hx] at hd
        exact hend (r := .diverge) (c := c) (by rw [pollClient, hd]) (by rw [hx]; rfl)

/-- A poll of the connection. -/
theorem poll_eq {cx : Waker} (hs : w.base.conn.io.Sound) (hi : w.conn = .idle)
    (hp : w.base.phase = .running) : ∃ n,
    Runs.after step (.poll cx :: List.replicate n .round) w =
      { w with base := (Client.step (.pollConn cx) w.base).2 } := by
  obtain ⟨n, hn⟩ := rounds_eq (w := { w with conn := .polling cx }) hs rfl
  refine ⟨n, ?_⟩
  simp only [Runs.after, Runs.run_cons, step, hi, hp, and_self, if_true, Client.step, ne_eq,
    not_true_eq_false, if_false]
  rw [Runs.after] at hn
  rw [hn, World.endPoll]

end Together

end HreqH1.Requests
