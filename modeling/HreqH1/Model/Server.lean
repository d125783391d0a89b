import HreqH1.Model.Http11
import HreqH1.Model.Share

/-!
# Model — Server

`src/server.rs`, with the user's side of it.  `accept` does not poll the codec while a
`SyncDriveExternal` of an earlier request is held, and every handle of a request holds one; so there
is one request at a time, and one channel each for its body, for its response and for the
response's body.  An end of one that the source holds as an `Option` is whether it is there.

The polls of the `send_response` and `send_data` futures are here in their parts, in any order:
what they put on a channel (`respond`, `pushData`) and the drives of the codec around it (`drive`).

Three history variables the source does not have: `log`, what the codec has taken from the user in
order, each with the answers the writer had left at that time; `entire`, the buffers that were taken
whole, each with the limiter it was then given to; and `complete`, whether the body of the request
at hand has been received to the end, by its `LimitRead`.
-/

namespace HreqH1.Server
open PollM

/-- `MAX_RESPONSE_SIZE`. -/
def maxResponseSize : Nat := 8192

/-- `MAX_BODY_READ_SIZE`. -/
def maxBodyReadSize : Nat := 8 * 1024 * 1024

structure Bidirect where
  limit : LimitRead
  requestAllowsReuse : Bool
  txBody : Bool
  rxRes : Bool
  holder : Option (Bool × LimitWrite)
  curReadSize : Nat
  deriving DecidableEq

/-- The state after the request `req`. -/
def Bidirect.new (req : Request) : Bidirect :=
  let limit := LimitRead.fromHeaders req.headers false
  { limit := limit
    requestAllowsReuse := allowReuse req.headers req.version
    txBody := !limit.isNoBody
    rxRes := true
    holder := none
    curReadSize := min (limit.bodySize.getD 8192) maxBodyReadSize }

structure BodySender where
  requestAllowsReuse : Bool
  deriving DecidableEq

inductive State where
  | recvReq
  | sendRes (h : Bidirect)
  | sendBody (h : BodySender)
  | closed
  deriving DecidableEq

/-- What the codec has taken from the user. -/
inductive Taken where
  | response (res : Response) (tx : List TxEvent)
  | item (chunk : Bytes) (fin : Bool) (tx : List TxEvent)
  deriving DecidableEq

/-- `Codec`, and the channels it holds an end of. -/
structure Conn where
  io : BufIo
  state : State
  body : Chan (Except IoError Bytes)
  res : Chan (Response × Bool)
  resBody : Chan (Bytes × Bool)
  log : List Taken
  entire : List (Bytes × LimitRead)
  complete : Bool

section Polls
variable {α σ : Type}

def pollIo (x : PollM IoError BufIo α) : PollM IoError Conn α :=
  zoom Conn.io (fun w io => { w with io := io }) x

def pollBody (x : PollM IoError (Chan (Except IoError Bytes)) α) : PollM IoError Conn α :=
  zoom Conn.body (fun w c => { w with body := c }) x

def pollRes (x : PollM IoError (Chan (Response × Bool)) α) : PollM IoError Conn α :=
  zoom Conn.res (fun w c => { w with res := c }) x

def pollResBody (x : PollM IoError (Chan (Bytes × Bool)) α) : PollM IoError Conn α :=
  zoom Conn.resBody (fun w c => { w with resBody := c }) x

/-- A poll of the connection, from a state that holds `σ`. -/
def onConn (x : PollM IoError Conn α) : PollM IoError (σ × Conn) α :=
  zoom Prod.snd (fun s w => (s.1, w)) x

/-- A step on the state's own fields. -/
def update (f : σ → σ) : PollM IoError (σ × Conn) Unit := modify fun s => (f s.1, s.2)

end Polls

namespace Conn

/-- The receiver of the response goes out of scope, and the response's body with a response that
is queued. -/
def dropRes (w : Conn) : Conn :=
  { w with
    resBody := if w.res.queue.isEmpty then w.resBody else w.resBody.dropReceiver
    res := w.res.dropReceiver }

/-- The state goes out of scope. -/
def dropState (w : Conn) : Conn :=
  match w.state with
  | .recvReq => w
  | .closed => w
  | .sendRes h =>
      let w := if h.rxRes then w.dropRes else w
      { w with
        body := if h.txBody then w.body.dropSender else w.body
        resBody := if h.holder.isSome then w.resBody.dropReceiver else w.resBody }
  | .sendBody _ => { w with resBody := w.resBody.dropReceiver }

end Conn

variable [VecAlloc] [Crates]

/-! ### `RecvReq` -/

/-- What `accept` hands out: the request with its `RecvStream`, and the `SendResponse` by its
`req_expects_no_body`. -/
abbrev Package : Type := Request × RecvStream × Bool

/-- The request `req` is received: `poll_next_req` from there on. -/
def receive (req : Request) : PollM IoError Conn (Option Package × State) := do
  let noReqBody := (LimitRead.fromHeaders req.headers false).isNoBody
  let reqExpectsNoBody := req.method == .head
  -- The body's sender is dropped straight away if headers indicate there is no request body.
  modify fun w =>
    { w with
      body := if noReqBody then (Chan.new 1).dropSender else .new 1
      res := .new 1
      complete := noReqBody }
  pure (some (req, .new noReqBody true, reqExpectsNoBody), .sendRes (.new req))

def pollNextReq : PollM IoError Conn (Option Package × State) := do
  match (← attempt (pollIo (pollForCrlfcrlf tryParseReq))).bind id with
  | .error e =>
      -- remote just hung up before sending request, that's ok.
      if isClosedKind e.kind then pure (none, .closed) else throw e
  | .ok none => throw ⟨.invalidData, "Failed to parse request"⟩
  | .ok (some req) => receive req

/-! ### `Bidirect` -/

def pollSendResp (cx : Waker) (reg : Bool) : PollM IoError (Bidirect × Conn) Unit := do
  -- We shouldn't be here unless we have rx_res.
  assert (← get).1.rxRes unwrapNone
  match ← onConn (pollRes (Chan.pollRecv cx reg)) with
  | none => throw (Error.user "SendResponse dropped before sending any response").intoIo
  | some (res, fin) =>
      update fun h => { h with holder := some (fin, LimitWrite.fromHeaders res.headers) }
      modify fun s => (s.1, { s.2 with log := s.2.log ++ [.response res s.2.io.inner.tx] })
      let bytes ← writeHttp1xRes res maxResponseSize
      assert (← get).2.io.canPollWrite "assertion failed: io.can_poll_write()"
      let _ ← poll (onConn (pollIo (BufIo.writeAll bytes true)))
      -- We don't need anything more from rx_res.
      modify fun s => ({ s.1 with rxRes := false }, s.2.dropRes)

/-- A `limit.poll_read` of `n` bytes. -/
def readLimit (n : Nat) : PollM IoError (Bidirect × Conn) Bytes :=
  zoom (fun s => (s.1.limit, s.2.io))
    (fun s t => ({ s.1 with limit := t.1 }, { s.2 with io := t.2 })) (LimitRead.pollRead n)

/-- The next chunk of the body, out of a buffer with `available` bytes. -/
def nextChunk (available : Nat) : PollM IoError (Bidirect × Conn) Bytes := do
  let s ← get
  if s.1.limit.canReadEntireVec && s.2.io.canTakeReadBuf then
    -- With a content-length we can sometimes take the entire input buffer.
    let chunk ← onConn (pollIo BufIo.takeReadBuf)
    modify fun t => (t.1, { t.2 with entire := (chunk, s.1.limit) :: t.2.entire })
    let limit ← orPanic (s.1.limit.acceptEntireVec chunk)
    update fun h => { h with limit := limit }
    pure chunk
  else
    let readInto ← orPanic (FastBuf.withCapacity available).borrow
    readLimit readInto.spare

/-- The chunk goes to the user; there is none at the end of the body only. -/
def passOn (chunk : Bytes) : PollM IoError (Bidirect × Conn) Unit := do
  if !chunk.isEmpty then
    let _ ← onConn (pollBody (Chan.send (.ok chunk)))
  else if !(← get).1.limit.isComplete then throw ⟨.unexpectedEof, "Partial body"⟩

/-- The sender of the body is dropped once that is complete. -/
def endBody : PollM IoError (Bidirect × Conn) Unit := do
  if (← get).1.limit.isComplete then
    -- This indicates to the RecvStream that there are no more body chunks to come.
    modify fun s => ({ s.1 with txBody := false },
      { s.2 with body := s.2.body.dropSender, complete := true })

def pollReadBody (cx : Waker) : PollM IoError (Bidirect × Conn) Unit := do
  -- We shouldn't be here unless we have tx_body.
  assert (← get).1.txBody unwrapNone
  -- If the user has dropped the RecvStream, we will just discard the entire incoming body.
  let _ ← onConn (pollBody (Chan.pollReady cx true))
  onConn (pollIo (BufIo.ensureReadCapacity (← get).1.curReadSize))
  let buf ← onConn (pollIo (BufIo.pollFillBuf false))
  if buf.isEmpty then throw ⟨.unexpectedEof, "EOF before complete body received"⟩
  else
    let chunk ← nextChunk buf.length
    passOn chunk
    endBody

/-- `poll_send_resp`, if it is still to be done: whether it is pending. -/
def pollRespond (cx : Waker) (reg : Bool) : PollM IoError (Bidirect × Conn) Bool := do
  if (← get).1.rxRes then Option.isNone <$> poll (pollSendResp cx reg) else pure false

/-- A round of the loop of `poll_bidirect`. -/
def bidirectRound (cx : Waker) (reg : Bool) (_ : Unit) :
    PollM IoError (Bidirect × Conn) (Flow Unit Unit) := do
  let h := (← get).1
  if !h.rxRes && !h.txBody then pure (.done ())
  else
    let sendRespPending ← pollRespond cx reg
    -- A waker is registered, or nothing less than user input makes progress.
    if sendRespPending && (reg || !(← get).1.txBody) then pend
    else
      if (← get).1.txBody then pollReadBody cx
      pure (.again ())

/-- A bound on the rounds of `poll_bidirect`. -/
def bidirectWeight (s : Bidirect × Conn) : Nat :=
  (if s.1.rxRes then 1 else 0) + (if s.1.txBody then 1 else 0) +
    (s.2.io.unread.length + s.2.io.inner.rxWeight)

/-- What follows the loop of `poll_bidirect`. -/
def afterBidirect : PollM IoError (Bidirect × Conn) State := do
  let h := (← get).1
  match h.holder with
  | none => PollM.panic "Holder of rx_body"
  | some (noBody, limit) =>
      update fun h => { h with holder := none }
      if noBody || limit.isNoBody then
        modify fun s => (s.1, { s.2 with resBody := s.2.resBody.dropReceiver })
        pure (if h.requestAllowsReuse then .recvReq else .closed)
      else pure (.sendBody ⟨h.requestAllowsReuse⟩)

def pollBidirect (cx : Waker) (reg : Bool) : PollM IoError (Bidirect × Conn) State := do
  loop (fun _ => bidirectWeight) (bidirectRound cx reg) ()
  afterBidirect

/-! ### `BodySender` -/

/-- A round of the loop of `poll_send_body`. -/
def sendBodyRound (cx : Waker) (reg : Bool) (_ : Unit) :
    PollM IoError (BodySender × Conn) (Flow Unit State) := do
  let next ← onConn (pollResBody (Chan.pollRecv cx reg))
  assert (← get).2.io.canPollWrite "assertion failed: io.can_poll_write()"
  match next with
  | none => throw ⟨.other, "Unexpected end of body"⟩
  | some (chunk, fin) =>
      modify fun s => (s.1, { s.2 with log := s.2.log ++ [.item chunk fin s.2.io.inner.tx] })
      onConn (pollIo (BufIo.writeAll chunk fin))
      if fin then
        pure (.done (if (← get).1.requestAllowsReuse then .recvReq else .closed))
      else pure (.again ())

def pollSendBody (cx : Waker) (reg : Bool) : PollM IoError (BodySender × Conn) State :=
  loop (fun _ s => s.2.resBody.queue.length) (sendBodyRound cx reg) ()

/-! ### `Codec` -/

/-- A round of the loop of `drive`; `want` is whether there is a `want_next_req`. -/
def driveRound (cx : Waker) (want reg : Bool) (_ : Unit) :
    PollM IoError Conn (Flow Unit (Option Package)) := do
  pollIo BufIo.pollFinishPendingWrite
  match (← get).state with
  | .recvReq =>
      if want then
        let (package, next) ← pollNextReq
        modify ({ · with state := next })
        pure (.done package)
      else pure (.done none)
  | .sendRes h =>
      let next ← zoom (fun w => (h, w)) (fun _ s => { s.2 with state := .sendRes s.1 })
        (pollBidirect cx reg)
      modify ({ · with state := next })
      pure (.again ())
  | .sendBody h =>
      let next ← zoom (fun w => (h, w)) (fun _ s => { s.2 with state := .sendBody s.1 })
        (pollSendBody cx reg)
      -- The receiver of the body goes with the state.
      modify fun w => { w with state := next, resBody := w.resBody.dropReceiver }
      pure (.again ())
  | .closed => pure (.done none)

/-- A bound on the rounds of `drive`. -/
def driveWeight (w : Conn) : Nat :=
  match w.state with
  | .recvReq => 0
  | .sendRes _ => 2
  | .sendBody _ => 1
  | .closed => 0

def drive (cx : Waker) (want reg : Bool) : PollM IoError Conn (Option Package) :=
  loop (fun _ => driveWeight) (driveRound cx want reg) ()

/-- `poll_server`: any error bubbling up closes the connection. -/
def pollServer (cx : Waker) (want reg : Bool) : PollM IoError Conn (Option Package) := fun w =>
  match drive cx want reg w with
  | (.fail e, w) => (.fail e, { w.dropState with state := .closed })
  | p => p

def pollDriveExternal (cx : Waker) : PollM IoError Conn Unit := do
  match ← poll (pollServer cx false false) with
  | none =>
      -- Only propagate Pending if it was due to io.
      let io := (← get).io
      if io.pendingRx || io.pendingTx then pend else pure ()
  | some none => pure ()
  | some (some _) => PollM.panic "Got next request in poll_drive_external"

/-! ### The user's side -/

/-- The connection, and the handles of the request at hand: its `RecvStream`, the `SendResponse`
by its `req_expects_no_body` until it is used, and the `SendStream`. -/
structure World where
  conn : Conn
  recv : Option RecvStream
  respond : Option Bool
  send : Option SendStream

/-- `handshake`. -/
def handshake (inner : Transport) : World where
  conn :=
    { io := .withCapacity readBufInitSize inner
      state := .recvReq
      body := .new 1
      res := .new 1
      resBody := .new 1
      log := []
      entire := []
      complete := true }
  recv := none
  respond := none
  send := none

inductive Action where
  /-- A poll of `Connection::accept`. -/
  | accept (cx : Waker)
  /-- A poll of `Connection::close`. -/
  | close (cx : Waker)
  /-- A poll of `RecvStream::read`, into `n + 1` bytes. -/
  | read (cx : Waker) (n : Nat)
  /-- `send_response` puts the response on its channel. -/
  | respond (res : Response) (noBody : Bool)
  /-- `send_data`, or `send_data_owned`, is polled for its `poll_send_data`. -/
  | pushData (owned : Bool) (cx : Waker) (bs : Bytes) (fin : Bool)
  /-- `send_response` or `send_data` drives the codec. -/
  | drive (cx : Waker)
  | dropRecv
  | dropRespond
  | dropSend
  deriving DecidableEq

inductive Obs where
  | accepted (r : Outcome IoError (Option Request))
  | closed (r : Outcome IoError Unit)
  | read (r : Outcome IoError Bytes)
  | responded (r : Except Error Unit)
  | pushed (r : Outcome Error Unit)
  | driven (r : Outcome IoError Unit)
  | idle
  deriving DecidableEq

/-- Whether a handle of a request is held. -/
def World.held (w : World) : Bool := w.recv.isSome || w.respond.isSome || w.send.isSome

/-- A poll of `accept`. -/
def accept (cx : Waker) (w : World) : Obs × World :=
  if w.held then (.accepted .pending, w)
  else
    match pollServer cx true true w.conn with
    | (.ready (some (req, recv, expectsNoBody)), c) =>
        (.accepted (.ready (some req)),
          { w with conn := c, recv := some recv, respond := some expectsNoBody })
    | (r, c) => (.accepted (r.map fun _ => none), { w with conn := c })

/-- What `send_response` does before it drives the codec. -/
def respond (res : Response) (noBody expectsNoBody : Bool) (w : World) : Obs × World :=
  let limit := LimitWrite.fromHeaders res.headers
  let ended := noBody || expectsNoBody || limit.isNoBody || isInformational res.status ||
    res.status == 204 || res.status == 304
  if w.conn.res.receivers = 0 then
    (.responded (.error (.io ⟨.other, "Connection closed"⟩)),
      { w with conn := { w.conn with res := w.conn.res.dropSender }, respond := none })
  else
    (.responded (.ok ()),
      { w with
        conn :=
          { w.conn with
            resBody := .new 1
            res := (w.conn.res.enqueue (res, ended)).dropSender }
        respond := none
        send := some ⟨limit, ended, true⟩ })

/-- A poll of `RecvStream::read`: it drives the codec first. -/
def read (cx : Waker) (n : Nat) (recv : RecvStream) (w : World) : Obs × World :=
  match pollDriveExternal cx w.conn with
  | (.ready _, c) =>
      let p := RecvStream.pollBodyData cx n (recv, c.body)
      (.read p.1, { w with conn := { c with body := p.2.2 }, recv := some p.2.1 })
  | (r, c) => (.read (r.map fun _ => []), { w with conn := c })

/-- A step of the user; one on a handle that is not held is none. -/
def step : Action → World → Obs × World
  | .accept cx, w => accept cx w
  | .close cx, w =>
      let p := pollServer cx false true w.conn
      (.closed (p.1.map fun _ => ()), { w with conn := p.2 })
  | .read cx n, w =>
      match w.recv with
      | none => (.idle, w)
      | some recv => read cx (n + 1) recv w
  | .respond res noBody, w =>
      match w.respond with
      | none => (.idle, w)
      | some expectsNoBody => respond res noBody expectsNoBody w
  | .pushData owned cx bs fin, w =>
      match w.send with
      | none => (.idle, w)
      | some send =>
          let data := if owned then Data.owned bs else .shared bs
          let p := SendStream.pollSendData cx data fin (send, w.conn.resBody)
          (.pushed p.1, { w with conn := { w.conn with resBody := p.2.2 }, send := some p.2.1 })
  | .drive cx, w =>
      if w.respond.isSome || w.send.isSome then
        let p := pollDriveExternal cx w.conn
        (.driven p.1, { w with conn := p.2 })
      else (.idle, w)
  | .dropRecv, w =>
      if w.recv.isSome then
        (.idle, { w with conn := { w.conn with body := w.conn.body.dropReceiver }, recv := none })
      else (.idle, w)
  | .dropRespond, w =>
      if w.respond.isSome then
        (.idle, { w with conn := { w.conn with res := w.conn.res.dropSender }, respond := none })
      else (.idle, w)
  | .dropSend, w =>
      if w.send.isSome then
        (.idle,
          { w with conn := { w.conn with resBody := w.conn.resBody.dropSender }, send := none })
      else (.idle, w)

end HreqH1.Server
