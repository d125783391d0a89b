import HreqH1.Model.Http11
import HreqH1.Model.Share

/-!
# Model — Client

`src/client.rs`, with the user's side of it.  Requests are numbered in the order they are sent, and
the three channels of a request — for its response, for its body, for the response's body — go by
its number; an end of one that the source holds as an `Option` is the number, or `none`.

`Conn` is the `Connection` with all channels, and `World` adds the handles of the user.  What goes
out of scope in the source is dropped here by hand.

Two history variables the source does not have: `complete`, the requests whose response has no body,
or one that has been received to the end, by its `LimitRead`; and `answers`, the responses received
with the number and the head of their request, newest first.
-/

namespace HreqH1.Client
open PollM

/-- `MAX_REQUEST_SIZE`. -/
def maxRequestSize : Nat := 8192

/-- `MAX_BODY_READ_SIZE`. -/
def maxBodyReadSize : Nat := 8 * 1024 * 1024

structure Handle where
  req : Request
  bodyRx : Option Nat
  resTx : Option Nat
  deriving DecidableEq

structure Bidirect where
  handle : Handle
  responseAllowsReuse : Bool
  holder : Option (Nat × LimitRead)
  deriving DecidableEq

structure BodyReceiver where
  requestAllowsReuse : Bool
  responseAllowsReuse : Bool
  curReadSize : Nat
  limit : LimitRead
  bodyTx : Nat
  deriving DecidableEq

inductive State where
  | sendReq
  | recvRes (h : Bidirect)
  | recvBody (h : BodyReceiver)
  deriving DecidableEq

/-- What a `ResponseFuture` resolves to. -/
abbrev Answer : Type := Except IoError (Response × RecvStream)

/-- `Codec`, and the channels it holds an end of. -/
structure Conn where
  io : BufIo
  state : State
  reqRx : Chan Handle
  res : Nat → Chan Answer
  reqBody : Nat → Chan (Bytes × Bool)
  resBody : Nat → Chan (Except IoError Bytes)
  complete : List Nat
  answers : List (Nat × Request × Response)

/-- `f` at the channel with number `i`. -/
def atId {α : Type} (chans : Nat → Chan α) (i : Nat) (f : Chan α → Chan α) : Nat → Chan α :=
  Function.update chans i (f (chans i))

section AtId
variable {α : Type} {chans : Nat → Chan α} {f g : Chan α → Chan α} {i j : Nat}

@[simp] theorem atId_self : atId chans i f i = f (chans i) := Function.update_self ..

theorem atId_of_ne (h : j ≠ i) : atId chans i f j = chans j := Function.update_of_ne h ..

@[simp] theorem atId_atId : atId (atId chans i f) i g = atId chans i fun c => g (f c) := by
  rw [atId, atId_self]
  exact Function.update_idem ..

end AtId

namespace Conn

def onRes (i : Nat) (f : Chan Answer → Chan Answer) (w : Conn) : Conn :=
  { w with res := atId w.res i f }

def onReqBody (i : Nat) (f : Chan (Bytes × Bool) → Chan (Bytes × Bool)) (w : Conn) : Conn :=
  { w with reqBody := atId w.reqBody i f }

def onResBody (i : Nat) (f : Chan (Except IoError Bytes) → Chan (Except IoError Bytes))
    (w : Conn) : Conn :=
  { w with resBody := atId w.resBody i f }

/-- A `Handle` goes out of scope. -/
def dropHandle (h : Handle) (w : Conn) : Conn :=
  { w with
    reqBody := match h.bodyRx with
      | some i => atId w.reqBody i Chan.dropReceiver
      | none => w.reqBody
    res := match h.resTx with
      | some i => atId w.res i Chan.dropSender
      | none => w.res }

end Conn

section Polls
variable {α : Type}

def pollIo (x : PollM IoError BufIo α) : PollM IoError Conn α :=
  zoom Conn.io (fun w io => { w with io := io }) x

def pollReqRx (x : PollM IoError (Chan Handle) α) : PollM IoError Conn α :=
  zoom Conn.reqRx (fun w c => { w with reqRx := c }) x

def pollRes (i : Nat) (x : PollM IoError (Chan Answer) α) : PollM IoError Conn α :=
  zoom (fun w => w.res i) (fun w c => w.onRes i fun _ => c) x

def pollReqBody (i : Nat) (x : PollM IoError (Chan (Bytes × Bool)) α) : PollM IoError Conn α :=
  zoom (fun w => w.reqBody i) (fun w c => w.onReqBody i fun _ => c) x

def pollResBody (i : Nat) (x : PollM IoError (Chan (Except IoError Bytes)) α) :
    PollM IoError Conn α :=
  zoom (fun w => w.resBody i) (fun w c => w.onResBody i fun _ => c) x

/-- A poll of the connection, from a state that holds `σ`. -/
def onConn {σ : Type} (x : PollM IoError Conn α) : PollM IoError (σ × Conn) α :=
  zoom Prod.snd (fun s w => (s.1, w)) x

end Polls

variable [VecAlloc] [Crates]

/-! ### `SendReq` -/

def pollSendReq (cx : Waker) : PollM IoError Conn (Option State) := do
  match ← pollReqRx (Chan.pollRecv cx true) with
  | none => pure none
  | some handle =>
      onExit (Conn.dropHandle handle) do
        let bytes ← writeHttp1xReq handle.req maxRequestSize
        assert (← get).io.canPollWrite "assertion failed: io.can_poll_write()"
        -- Pending falls through to the state change.  It is caught when looping in drive() and
        -- doing poll_finish_pending_write.
        let _ ← poll (pollIo (BufIo.writeAll bytes true))
        pure (some (.recvRes ⟨handle, false, none⟩))

/-! ### `Bidirect` -/

/-- A response without a body, by what `poll_response` looks at. -/
def isNoBody (limit : LimitRead) (method : Method) (res : Response) : Bool :=
  limit.isNoBody || method == .head || isInformational res.status || res.status == 204 ||
    res.status == 304 || isRedirection res.status && !headersIndicateBody res.headers

/-- The response `res` is received: `poll_response` from there on, and the `RecvStream` dropped
with it where the `ResponseFuture` is. -/
def deliver (res : Response) : PollM IoError (Bidirect × Conn) Unit := do
  modify fun s =>
    ({ s.1 with responseAllowsReuse := allowReuse res.headers res.version }, s.2)
  let limit := LimitRead.fromHeaders res.headers true
  let noBody := isNoBody limit (← get).1.handle.req.method res
  match (← get).1.handle.resTx with
  | none => PollM.panic "Missing res_tx"
  | some i =>
      -- If there isn't a body, the body's sender is dropped at once.
      let body := if noBody then (Chan.new 1).dropSender else Chan.new 1
      modify fun s =>
        ({ s.1 with
            holder := if noBody then none else some (i, limit)
            handle := { s.1.handle with resTx := none } },
          { s.2 with
            complete := if noBody then i :: s.2.complete else s.2.complete
            answers := (i, s.1.handle.req, res) :: s.2.answers })
      let sent ← onConn (pollRes i (Chan.send (.ok (res, .new noBody false))))
      modify fun s => (s.1, s.2.onResBody i fun _ => if sent then body else body.dropReceiver)
      modify fun s => (s.1, s.2.onRes i Chan.dropSender)

def pollResponse : PollM IoError (Bidirect × Conn) Unit := do
  match ← lift (← onConn (pollIo (pollForCrlfcrlf tryParseRes))) with
  | none => PollM.panic "Parsed partial response"
  | some res => deliver res

def pollSendBody (cx : Waker) : PollM IoError (Bidirect × Conn) Unit := do
  match (← get).1.handle.bodyRx with
  | none => PollM.panic unwrapNone
  | some i =>
      match ← onConn (pollReqBody i (Chan.pollRecv cx true)) with
      | none => throw ⟨.other, "SendStream dropped before sending entire body"⟩
      | some (chunk, fin) =>
          assert (← get).2.io.canPollWrite "assertion failed: io.can_poll_write()"
          if fin then
            -- This signals that no more body can be sent, and that we're done sending it.
            modify fun s => ({ s.1 with handle := { s.1.handle with bodyRx := none } },
              s.2.onReqBody i Chan.dropReceiver)
          onConn (pollIo (BufIo.writeAll chunk fin))

/-- `poll_response`, if it is still to be done: whether it is pending. -/
def resTxPending : PollM IoError (Bidirect × Conn) Bool := do
  if (← get).1.handle.resTx.isSome then Option.isNone <$> poll pollResponse else pure false

/-- `poll_send_body`, if it is still to be done: whether it is pending. -/
def bodyTxPending (cx : Waker) : PollM IoError (Bidirect × Conn) Bool := do
  if (← get).1.handle.bodyRx.isSome then Option.isNone <$> poll (pollSendBody cx) else pure false

/-- A round of the loop of `poll_bidirect`. -/
def bidirectRound (cx : Waker) (_ : Unit) : PollM IoError (Bidirect × Conn) (Flow Unit Unit) := do
  let h := (← get).1.handle
  if h.resTx.isNone && h.bodyRx.isNone then pure (.done ())
  else
    let resTxPending ← resTxPending
    let bodyTxPending ← bodyTxPending cx
    let h := (← get).1.handle
    if (resTxPending && (bodyTxPending || h.bodyRx.isNone)) ||
        (bodyTxPending && (resTxPending || h.resTx.isNone)) then pend
    else pure (.again ())

/-- A bound on the rounds of `poll_bidirect`: the response, and what is queued of the body. -/
def bidirectWeight (s : Bidirect × Conn) : Nat :=
  (if s.1.handle.resTx.isSome then 1 else 0) +
    match s.1.handle.bodyRx with
    | some i => 1 + (s.2.reqBody i).queue.length
    | none => 0

/-- What follows the loop of `poll_bidirect`. -/
def afterBidirect : PollM IoError (Bidirect × Conn) (Option State) := do
  let h := (← get).1
  let requestAllowsReuse := allowReuse h.handle.req.headers h.handle.req.version
  match h.holder with
  | some (bodyTx, limit) =>
      modify fun s => ({ s.1 with holder := none }, s.2)
      pure (some (.recvBody
        { requestAllowsReuse := requestAllowsReuse
          responseAllowsReuse := h.responseAllowsReuse
          curReadSize := min (limit.bodySize.getD 8192) maxBodyReadSize
          limit := limit
          bodyTx := bodyTx }))
  | none =>
      if requestAllowsReuse && h.responseAllowsReuse then pure (some .sendReq) else pure none

def pollBidirect (cx : Waker) : PollM IoError (Bidirect × Conn) (Option State) := do
  loop (fun _ => bidirectWeight) (bidirectRound cx) ()
  afterBidirect

/-! ### `BodyReceiver` -/

/-- A `limit.poll_read` of `n` bytes. -/
def readLimit (n : Nat) : PollM IoError (BodyReceiver × Conn) Bytes :=
  zoom (fun s => (s.1.limit, s.2.io))
    (fun s t => ({ s.1 with limit := t.1 }, { s.2 with io := t.2 })) (LimitRead.pollRead n)

/-- A round of the loop of `poll_read_body`.  A `RecvStream` that is dropped is ok, we will receive
and drop the entire body. -/
def readBodyRound (cx : Waker) (_ : Unit) :
    PollM IoError (BodyReceiver × Conn) (Flow Unit Unit) := do
  if (← get).1.limit.isComplete then pure (.done ())
  else
    let bodyTx := (← get).1.bodyTx
    let _ ← onConn (pollResBody bodyTx (Chan.pollReady cx true))
    let readInto ← orPanic (FastBuf.withCapacity (← get).1.curReadSize).borrow
    let bytes ← readLimit readInto.spare
    if 0 < bytes.length then
      let _ ← onConn (pollResBody bodyTx (Chan.send (.ok bytes)))
      pure (.again ())
    else if !(← get).1.limit.isComplete then throw ⟨.unexpectedEof, "Partial body"⟩
    else pure (.again ())

/-- A bound on the rounds of `poll_read_body`. -/
def readBodyWeight (s : BodyReceiver × Conn) : Nat :=
  s.2.io.unread.length + s.2.io.inner.rxWeight + if s.1.limit.isComplete then 0 else 1

def pollReadBody (cx : Waker) : PollM IoError (BodyReceiver × Conn) (Option State) := do
  loop (fun _ => readBodyWeight) (readBodyRound cx) ()
  let h := (← get).1
  modify fun s => (s.1, { s.2 with complete := h.bodyTx :: s.2.complete })
  if h.requestAllowsReuse && h.responseAllowsReuse && h.limit.isReusable then
    pure (some .sendReq)
  else pure none

/-! ### `Codec` -/

/-- A round of the loop of `drive`. -/
def driveRound (cx : Waker) (_ : Unit) : PollM IoError Conn (Flow Unit Unit) := do
  pollIo BufIo.pollFinishPendingWrite
  let next ← match (← get).state with
    | .sendReq => pollSendReq cx
    | .recvRes h =>
        zoom (fun w => (h, w)) (fun _ s => { s.2 with state := .recvRes s.1 }) (pollBidirect cx)
    | .recvBody h =>
        zoom (fun w => (h, w)) (fun _ s => { s.2 with state := .recvBody s.1 }) (pollReadBody cx)
  match next with
  | none => pure (.done ())
  | some next =>
      -- The state that is left: all that can still be in it is the sender of a received body.
      match (← get).state with
      | .recvBody h => modify (Conn.onResBody h.bodyTx Chan.dropSender)
      | _ => pure ()
      modify ({ · with state := next })
      pure (.again ())

/-- A bound on the rounds of `drive`: the steps of the request at hand, and of those queued. -/
def driveWeight (w : Conn) : Nat :=
  3 * w.reqRx.queue.length + match w.state with
    | .sendReq => 0
    | .recvRes _ => 2
    | .recvBody _ => 1

def drive (cx : Waker) : PollM IoError Conn Unit := loop (fun _ => driveWeight) (driveRound cx) ()

/-- `try_forward_error`: the error that is sent on is the one that closes the connection. -/
def tryForwardError (e : IoError) (w : Conn) : Conn :=
  match w.state with
  | .sendReq => w
  | .recvRes h =>
      match h.handle.resTx with
      | some i => (pollRes i (Chan.send (.error e)) w).2
      | none => w
  | .recvBody h => (pollResBody h.bodyTx (Chan.send (.error e)) w).2

def pollClient (cx : Waker) : PollM IoError Conn Unit := fun w =>
  match drive cx w with
  | (.fail e, w) => (.fail e, tryForwardError e w)
  | p => p

/-! ### The user's side -/

/-- The `Connection` future: to be polled, complete, or dropped. -/
inductive ConnPhase where
  | running | complete | dropped
  deriving DecidableEq, Repr

/-- The connection, and the user's handles: the `ResponseFuture`s still held, the `RecvStream`s and
the `SendStream`s. -/
structure World where
  conn : Conn
  phase : ConnPhase
  issued : Nat
  future : Nat → Bool
  recv : Nat → Option RecvStream
  send : Nat → Option SendStream

/-- `handshake`. -/
def handshake (inner : Transport) : World where
  conn :=
    { io := .withCapacity readBufInitSize inner
      state := .sendReq
      reqRx := .new 100
      res := fun _ => .new 1
      reqBody := fun _ => .new 1
      resBody := fun _ => .new 1
      complete := []
      answers := [] }
  phase := .running
  issued := 0
  future := fun _ => false
  recv := fun _ => none
  send := fun _ => none

inductive Action where
  /-- `SendRequest::send_request`, through any of its clones. -/
  | sendRequest (req : Request) (noBody : Bool)
  | cloneSendRequest
  | dropSendRequest
  /-- A poll of the `Connection`. -/
  | pollConn (cx : Waker)
  | dropConn
  /-- A poll of the `i`-th `ResponseFuture`. -/
  | pollFuture (i : Nat) (cx : Waker)
  | dropFuture (i : Nat)
  /-- A poll of `RecvStream::read` of the `i`-th response, into `n + 1` bytes. -/
  | read (i : Nat) (cx : Waker) (n : Nat)
  | dropRecv (i : Nat)
  /-- A poll of `SendStream::send_data`, or of `send_data_owned`, of the `i`-th request. -/
  | sendData (i : Nat) (owned : Bool) (cx : Waker) (bs : Bytes) (fin : Bool)
  | dropSend (i : Nat)
  deriving DecidableEq

inductive Obs where
  | requested (r : Except Error Nat)
  | conn (r : Outcome IoError Unit)
  | resolved (i : Nat) (r : Outcome Error Response)
  | read (i : Nat) (r : Outcome IoError Bytes)
  | pushed (i : Nat) (r : Outcome Error Unit)
  | idle
  deriving DecidableEq

/-- `send_request`. -/
def sendRequest (req : Request) (noBody : Bool) (w : World) : Obs × World :=
  if req.method = .connect then
    (.requested (.error (.user "hreq-h1 does not support CONNECT")), w)
  else if w.conn.reqRx.receivers = 0 then
    (.requested (.error (errClosed "Can't enqueue request, connection is closed")), w)
  else
    let i := w.issued
    let limit := LimitWrite.fromHeaders req.headers
    let noSendBody := noBody || limit.isNoBody
    let next : Handle := ⟨req, if noSendBody then none else some i, some i⟩
    (.requested (.ok i),
      { w with
        conn :=
          { w.conn with
            reqRx := w.conn.reqRx.enqueue next
            res := atId w.conn.res i fun _ => .new 1
            reqBody := atId w.conn.reqBody i fun _ =>
              if noSendBody then (Chan.new 1).dropReceiver else .new 1 }
        issued := i + 1
        future := Function.update w.future i true
        send := Function.update w.send i (some ⟨limit, noSendBody, false⟩) })

/-- The `Connection` goes out of scope, with the codec and the requests that are queued. -/
def dropConn (w : Conn) : Conn :=
  let w := match w.state with
    | .sendReq => w
    | .recvRes h =>
        let w := w.dropHandle h.handle
        match h.holder with
        | some (i, _) => w.onResBody i Chan.dropSender
        | none => w
    | .recvBody h => w.onResBody h.bodyTx Chan.dropSender
  let w := w.reqRx.queue.foldl (fun w h => w.dropHandle h) w
  { w with reqRx := w.reqRx.dropReceiver }

/-- A `ResponseFuture` goes out of scope, and a `RecvStream` that is queued for it. -/
def dropFuture (i : Nat) (w : World) : World :=
  let conn := (w.conn.res i).queue.foldl (fun (c : Conn) a => match a with
    | .ok _ => c.onResBody i Chan.dropReceiver
    | .error _ => c) w.conn
  { w with conn := conn.onRes i Chan.dropReceiver, future := Function.update w.future i false }

/-- A poll of a `ResponseFuture`, which is dropped once it has resolved. -/
def pollFuture (i : Nat) (cx : Waker) (w : World) : Obs × World :=
  match (pollRes i (Chan.pollRecv cx true)) w.conn with
  | (.ready (some (.ok (res, recv))), c) =>
      (.resolved i (.ready res),
        dropFuture i { w with conn := c, recv := Function.update w.recv i (some recv) })
  | (.ready (some (.error e)), c) =>
      (.resolved i (.fail (.io e)), dropFuture i { w with conn := c })
  | (.ready none, c) =>
      (.resolved i (.fail (errClosed "Response failed, connection is closed")),
        dropFuture i { w with conn := c })
  | (.pending, c) => (.resolved i .pending, { w with conn := c })
  | (.fail e, c) => (.resolved i (.fail (.io e)), { w with conn := c })
  | (.panic m, c) => (.resolved i (.panic m), { w with conn := c })
  | (.diverge, c) => (.resolved i .diverge, { w with conn := c })

/-- A step of the connection or of the user; one on a handle that is not held is none. -/
def step : Action → World → Obs × World
  | .sendRequest req noBody, w =>
      if w.conn.reqRx.senders = 0 then (.idle, w) else sendRequest req noBody w
  | .cloneSendRequest, w =>
      if w.conn.reqRx.senders = 0 then (.idle, w)
      else (.idle, { w with conn := { w.conn with reqRx := w.conn.reqRx.cloneSender } })
  | .dropSendRequest, w =>
      if w.conn.reqRx.senders = 0 then (.idle, w)
      else (.idle, { w with conn := { w.conn with reqRx := w.conn.reqRx.dropSender } })
  | .pollConn cx, w =>
      if w.phase ≠ .running then (.idle, w)
      else
        let p := pollClient cx w.conn
        (.conn p.1,
          { w with conn := p.2, phase := if p.1 = .pending then .running else .complete })
  | .dropConn, w =>
      if w.phase = .dropped then (.idle, w)
      else (.idle, { w with conn := dropConn w.conn, phase := .dropped })
  | .pollFuture i cx, w => if w.future i then pollFuture i cx w else (.idle, w)
  | .dropFuture i, w => if w.future i then (.idle, dropFuture i w) else (.idle, w)
  | .read i cx n, w =>
      match w.recv i with
      | none => (.idle, w)
      | some recv =>
          let p := RecvStream.pollBodyData cx (n + 1) (recv, w.conn.resBody i)
          (.read i p.1,
            { w with
              conn := w.conn.onResBody i fun _ => p.2.2
              recv := Function.update w.recv i (some p.2.1) })
  | .dropRecv i, w =>
      match w.recv i with
      | none => (.idle, w)
      | some _ =>
          (.idle,
            { w with
              conn := w.conn.onResBody i Chan.dropReceiver
              recv := Function.update w.recv i none })
  | .sendData i owned cx bs fin, w =>
      match w.send i with
      | none => (.idle, w)
      | some send =>
          let data := if owned then Data.owned bs else .shared bs
          let p := SendStream.pollSendData cx data fin (send, w.conn.reqBody i)
          (.pushed i p.1,
            { w with
              conn := w.conn.onReqBody i fun _ => p.2.2
              send := Function.update w.send i (some p.2.1) })
  | .dropSend i, w =>
      match w.send i with
      | none => (.idle, w)
      | some _ =>
          (.idle,
            { w with
              conn := w.conn.onReqBody i Chan.dropSender
              send := Function.update w.send i none })

end HreqH1.Client
