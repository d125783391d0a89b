import HreqH1.Model.Server
import HreqH1.Reading.Limited
import HreqH1.Reading.Pending
import HreqH1.Reading.Scan
import HreqH1.Support.Moves
import HreqH1.Writing.Writes

/-!
# Server — moves of the codec

What a poll of the server's codec does, as moves of a machine on `Conn`: `Move` has one constructor
for each thing it can finish, and `Stop` one for each way in which a poll ends in the middle of one.
A function of the codec that holds a part of the state is seen through `viewRes` and `viewBody`.

`pollServer_moves` is all that is used of the codec's functions elsewhere.
-/

namespace HreqH1.Server
open PollM BufIo Relation

variable [Crates]

/-- What `write_http1x_res` makes of a head. -/
def resHead (res : Response) : Outcome IoError Bytes :=
  ((writeHttp1xRes res maxResponseSize : PollM IoError Unit Bytes) ()).1

/-- The bytes the codec writes for what it takes. -/
def Taken.bytes : Taken → Bytes
  | .response res _ => match resHead res with
    | .ready head => head
    | _ => []
  | .item chunk _ _ => chunk

/-- The connection once the request `req` is received. -/
def received (req : Request) (c : Conn) : Conn :=
  let noReqBody := (LimitRead.fromHeaders req.headers false).isNoBody
  { c with
    state := .sendRes (.new req)
    body := if noReqBody then (Chan.new 1).dropSender else .new 1
    res := .new 1
    complete := noReqBody }

/-- The state after a response without a body, or after the last of its body. -/
def after (requestAllowsReuse : Bool) : State := if requestAllowsReuse then .recvReq else .closed

/-- A chunk of the body on its way to the user. -/
def deliver (chunk : Bytes) (body : Chan (Except IoError Bytes)) : Chan (Except IoError Bytes) :=
  if chunk.isEmpty then body else body.offer (.ok chunk)

/-- The chunk `bs` of the body is taken, after which the limiter is `limit`: it goes to the user, and
with the last one the sender of the body is dropped. -/
def passedOn (h : Bidirect) (limit : LimitRead) (bs : Bytes) (c : Conn) : Conn :=
  { c with
    state := .sendRes { h with limit := limit, txBody := !limit.isComplete }
    body := if limit.isComplete then (deliver bs c.body).dropSender else deliver bs c.body
    complete := c.complete || limit.isComplete }

/-- A response that is still to come has not been sent. -/
def Awaiting (h : Bidirect) (c : Conn) : Prop :=
  h.rxRes = true → c.res.queue = [] ∧ c.res.senders ≠ 0

/-- What a poll of the codec can finish; `want` is whether it wants a request. -/
inductive Move (want : Bool) : Conn → Conn → Prop where
  | write {c : Conn} {io : BufIo} (hw : Writes [] c.io io) (ht : io.TxWf)
      (hi : io.canPollWrite = true) : Move want c { c with io := io }
  | read {c : Conn} {io : BufIo} (hr : Reads [] c.io io)
      (hp : io.pendingRx = true → c.io.pendingRx = true ∧ io.unread = c.io.unread) :
      Move want c { c with io := io }
  | wake {c : Conn} {res : Chan (Response × Bool)} (hq : c.res.Quiet res) :
      Move want c { c with res := res }
  | request {c : Conn} {io : BufIo} {head : Bytes} {eos : Bool} {req : Request}
      (hs : c.state = .recvReq) (hf : HeadFound head eos c.io io)
      (hp : tryParseReq head eos = .ok (some req)) (hwant : want = true) :
      Move want c (received req { c with io := io })
  | hangUp {c : Conn} {io : BufIo} (hs : c.state = .recvReq) (hr : Reads [] c.io io)
      (why : ¬ Transport.Clean c.io.inner.rx ∨ io.AtEof ∧ io.unread = []) :
      Move want c { c with io := io, state := .closed }
  | response {c : Conn} {h : Bidirect} {res : Response} {fin : Bool} {rx : Chan (Response × Bool)}
      {io : BufIo} {head : Bytes} (hs : c.state = .sendRes h) (hrx : h.rxRes = true)
      (ht : c.res.Takes (res, fin) rx) (hh : resHead res = .ready head)
      (hw : Writes head c.io io) (hio : io.TxWf)
      (hi : io.canPollWrite = true ∨ io.pendingTx = true) :
      Move want c (Conn.dropRes
        { c with
          io := io
          state := .sendRes
            { h with holder := some (fin, LimitWrite.fromHeaders res.headers), rxRes := false }
          res := rx
          log := c.log ++ [.response res c.io.inner.tx] })
  | chunk {c : Conn} {h : Bidirect} {n : Nat} {bs : Bytes} {limit : LimitRead} {io : BufIo}
      (hs : c.state = .sendRes h) (hb : h.txBody = true) (ho : c.body.Open ∨ c.body.receivers = 0)
      (hn : n ≠ 0) (hl : LimitRead.pollRead n (h.limit, c.io) = (.ready bs, (limit, io)))
      (hr : ∃ front, Reads (front ++ bs) c.io io) (hc : bs = [] → limit.isComplete = true)
      (hp : io.pendingRx = true → c.io.pendingRx = true) (hu : c.io.unread ≠ []) :
      Move want c (passedOn h limit bs { c with io := io })
  | entire {c : Conn} {h : Bidirect} {limit : LimitRead} {io : BufIo}
      (hs : c.state = .sendRes h) (hb : h.txBody = true) (ho : c.body.Open ∨ c.body.receivers = 0)
      (he : h.limit.canReadEntireVec = true) (hl : h.limit.acceptEntireVec c.io.unread = .ok limit)
      (hne : c.io.unread ≠ []) (hr : Reads c.io.unread c.io io) (hu : io.unread = [])
      (hp : io.pendingRx = c.io.pendingRx) :
      Move want c (passedOn h limit c.io.unread
        { c with io := io, entire := (c.io.unread, h.limit) :: c.entire })
  | responded {c : Conn} {h : Bidirect} {fin : Bool} {limit : LimitWrite}
      (hs : c.state = .sendRes h) (hrx : h.rxRes = false) (hb : h.txBody = false)
      (hh : h.holder = some (fin, limit)) (hn : (fin || limit.isNoBody) = true) :
      Move want c { c with resBody := c.resBody.dropReceiver, state := after h.requestAllowsReuse }
  | toBody {c : Conn} {h : Bidirect} {fin : Bool} {limit : LimitWrite}
      (hs : c.state = .sendRes h) (hrx : h.rxRes = false) (hb : h.txBody = false)
      (hh : h.holder = some (fin, limit)) (hn : (fin || limit.isNoBody) = false) :
      Move want c { c with state := .sendBody ⟨h.requestAllowsReuse⟩ }
  | item {c : Conn} {h : BodySender} {bs : Bytes} {rx : Chan (Bytes × Bool)} {io : BufIo}
      (hs : c.state = .sendBody h) (ht : c.resBody.Takes (bs, false) rx)
      (hw : Writes bs c.io io) (hio : io.canPollWrite = true) :
      Move want c
        { c with io := io, resBody := rx, log := c.log ++ [.item bs false c.io.inner.tx] }
  | lastItem {c : Conn} {h : BodySender} {bs : Bytes} {rx : Chan (Bytes × Bool)} {io : BufIo}
      (hs : c.state = .sendBody h) (ht : c.resBody.Takes (bs, true) rx)
      (hw : Writes bs c.io io) (hio : io.canPollWrite = true)
      (hf : io.inner.flushed = io.inner.written.length) :
      Move want c
        { c with
          io := io
          state := after h.requestAllowsReuse
          resBody := rx.dropReceiver
          log := c.log ++ [.item bs true c.io.inner.tx] }

/-- Where a poll of the codec ends in the middle of something. -/
inductive Stop : Halt IoError → Conn → Conn → Prop where
  | writePending {c : Conn} {io : BufIo} (hw : Writes [] c.io io) (ht : io.TxWf)
      (hp : io.pendingTx = true) (hlt : io.inner.tx.length < c.io.inner.tx.length) :
      Stop .pending c { c with io := io }
  | writeFailed {c : Conn} {io : BufIo} {e : IoError} (hw : Writes [] c.io io) (ht : io.TxWf)
      (why : ¬ TxClean c.io.inner.tx) : Stop (.fail e) c { c with io := io }
  | grow {c : Conn} {io : BufIo} {m : String} (hs : c.state = .recvReq) (hr : Reads [] c.io io)
      (hg : ¬ io.Grows) (hm : m ∈ FastBuf.growthPanics) (hn : NoEnd io.unread) :
      Stop (.panic m) c { c with io := io }
  | headPending {c : Conn} {io : BufIo} (hs : c.state = .recvReq) (hr : Reads [] c.io io)
      (hb : Blocked c.io io) (hp : io.pendingRx = true) (hn : NoEnd io.unread) :
      Stop .pending c { c with io := io }
  | headMissing {c : Conn} {io : BufIo} {e : IoError} (hs : c.state = .recvReq)
      (hr : Reads [] c.io io) (why : NoHead e c.io io) (hk : isClosedKind e.kind = false) :
      Stop (.fail e) c { c with io := io }
  | headInvalid {c : Conn} {io : BufIo} {e : IoError} {head : Bytes} {eos : Bool}
      (hs : c.state = .recvReq) (hf : HeadFound head eos c.io io)
      (hp : ∀ req, tryParseReq head eos ≠ .ok (some req)) : Stop (.fail e) c { c with io := io }
  | awaitResponse {c : Conn} {h : Bidirect} (hs : c.state = .sendRes h) (hrx : h.rxRes = true)
      (hq : c.res.queue = []) (hn : c.res.senders ≠ 0) : Stop .pending c c
  | noResponse {c : Conn} {h : Bidirect} {res : Chan (Response × Bool)} {e : IoError}
      (hs : c.state = .sendRes h) (hrx : h.rxRes = true) (hr : c.res.Quiet res)
      (hq : c.res.queue = []) (hn : c.res.senders = 0) : Stop (.fail e) c { c with res := res }
  | responseCut {k : Halt IoError} {c : Conn} {h : Bidirect} {res : Response} {fin : Bool}
      {rx : Chan (Response × Bool)} {io : BufIo} {front : Bytes} (hs : c.state = .sendRes h)
      (hrx : h.rxRes = true) (ht : c.res.Takes (res, fin) rx) (hw : Writes front c.io io)
      (hio : io.TxWf) (hk : k ≠ .pending)
      (why : front = [] ∧ (∀ head, resHead res ≠ .ready head) ∨ ¬ TxClean c.io.inner.tx)
      (hm : ∀ m, k = .panic m → io = c.io ∧ m = "Unsupported http version") :
      Stop k c
        { c with
          io := io
          state := .sendRes { h with holder := some (fin, LimitWrite.fromHeaders res.headers) }
          res := rx
          log := c.log ++ [.response res c.io.inner.tx] }
  | bodyFull {c : Conn} {h : Bidirect} {body : Chan (Except IoError Bytes)}
      (hs : c.state = .sendRes h) (hb : h.txBody = true) (hq : c.body.Quiet body)
      (hr : c.body.receivers ≠ 0) (ho : ¬ c.body.Open) (ha : Awaiting h c) :
      Stop .pending c { c with body := body }
  | fillPending {c : Conn} {h : Bidirect} {io : BufIo} (hs : c.state = .sendRes h)
      (hb : h.txBody = true) (ho : c.body.Open ∨ c.body.receivers = 0) (hr : Reads [] c.io io)
      (hb : Blocked c.io io) (hp : io.pendingRx = true) (ha : Awaiting h c)
      (hu : io.unread = []) : Stop .pending c { c with io := io }
  | fillFailed {c : Conn} {h : Bidirect} {io : BufIo} {e : IoError} (hs : c.state = .sendRes h)
      (hb : h.txBody = true) (hr : Reads [] c.io io) (hu : Transport.Clean c.io.inner.rx →
        io.AtEof ∧ io.unread = []) : Stop (.fail e) c { c with io := io }
  | limitPending {c : Conn} {h : Bidirect} {n : Nat} {limit : LimitRead} {io : BufIo}
      (hs : c.state = .sendRes h) (hb : h.txBody = true)
      (ho : c.body.Open ∨ c.body.receivers = 0) (hn : n ≠ 0)
      (hl : LimitRead.pollRead n (h.limit, c.io) = (.pending, (limit, io)))
      (hr : ∃ bs, Reads bs c.io io) (hw : Waits c.io io) (ha : Awaiting h c) :
      Stop .pending c { c with io := io, state := .sendRes { h with limit := limit } }
  | limitFailed {k : Halt IoError} {c : Conn} {h : Bidirect} {n : Nat} {limit : LimitRead}
      {io : BufIo} {r : Outcome IoError Bytes} (hs : c.state = .sendRes h) (hb : h.txBody = true)
      (hn : n ≠ 0) (hl : LimitRead.pollRead n (h.limit, c.io) = (r, (limit, io)))
      (hr : ∃ bs, Reads bs c.io io) (hk : k ≠ .pending)
      (why : r ≠ .pending ∧ ∀ bs, r = .ready bs → bs = [] ∧ limit.isComplete = false)
      (hm : ∀ m, k = .panic m → m ∈ LimitRead.overflowPanics)
      (hp : io.pendingRx = true → c.io.pendingRx = true) (hu : c.io.unread ≠ []) :
      Stop k c { c with io := io, state := .sendRes { h with limit := limit } }
  | entireOverflow {c : Conn} {h : Bidirect} {io : BufIo} {m : String}
      (hs : c.state = .sendRes h) (hb : h.txBody = true)
      (hl : h.limit.acceptEntireVec c.io.unread = .error m) (hr : Reads c.io.unread c.io io)
      (hp : io.pendingRx = c.io.pendingRx) (hu : c.io.unread ≠ []) :
      Stop (.panic m) c { c with io := io, entire := (c.io.unread, h.limit) :: c.entire }
  | noHolder {c : Conn} {h : Bidirect} (hs : c.state = .sendRes h)
      (hrx : h.rxRes = false) (hh : h.holder = none) : Stop (.panic "Holder of rx_body") c c
  | awaitItem {c : Conn} {h : BodySender} {rx : Chan (Bytes × Bool)} (hs : c.state = .sendBody h)
      (hr : c.resBody.Quiet rx) (hq : c.resBody.queue = []) (hn : c.resBody.senders ≠ 0) :
      Stop .pending c { c with resBody := rx }
  | noItem {c : Conn} {h : BodySender} {rx : Chan (Bytes × Bool)} (hs : c.state = .sendBody h)
      (hr : c.resBody.Quiet rx) (hq : c.resBody.queue = []) (hn : c.resBody.senders = 0) :
      Stop (.fail ⟨.other, "Unexpected end of body"⟩) c { c with resBody := rx }
  | itemPending {c : Conn} {h : BodySender} {bs : Bytes} {fin : Bool} {rx : Chan (Bytes × Bool)}
      {io : BufIo} (hs : c.state = .sendBody h) (ht : c.resBody.Takes (bs, fin) rx)
      (hw : Writes bs c.io io) (hio : io.TxWf) (hp : io.pendingTx = true)
      (hlt : io.inner.tx.length < c.io.inner.tx.length)
      (hf : fin = true → through bs.length c.io.inner.tx = false) :
      Stop .pending c
        { c with io := io, resBody := rx, log := c.log ++ [.item bs fin c.io.inner.tx] }
  | itemFailed {c : Conn} {h : BodySender} {bs front : Bytes} {fin : Bool}
      {rx : Chan (Bytes × Bool)} {io : BufIo} {e : IoError} (hs : c.state = .sendBody h)
      (ht : c.resBody.Takes (bs, fin) rx) (hw : Writes front c.io io) (hio : io.TxWf)
      (why : ¬ TxClean c.io.inner.tx) :
      Stop (.fail e) c
        { c with io := io, resBody := rx, log := c.log ++ [.item bs fin c.io.inner.tx] }

theorem Move.sound {want : Bool} {c c' : Conn} (h : Move want c c') (hc : c.io.Sound) : c'.io.Sound := by
  cases h with
  | write hw ht => exact hc.writes hw ht
  | read hr => exact hc.reads hr
  | wake hq => exact hc
  | request hs hf hp => exact hc.reads hf.reads
  | hangUp hs hr why => exact hc.reads hr
  | response hs hrx ht hh hw hio => exact hc.writes hw hio
  | chunk hs hb ho hn hl hr hc' => obtain ⟨front, hr⟩ := hr; exact hc.reads hr
  | entire hs hb ho he hl hne hr hu => exact hc.reads hr
  | responded hs hrx hb hh hn => exact hc
  | toBody hs hrx hb hh hn => exact hc
  | item hs ht hw hio => exact hc.writes hw (txWf_of_canPollWrite hio)
  | lastItem hs ht hw hio hf => exact hc.writes hw (txWf_of_canPollWrite hio)

theorem Stop.sound {k : Halt IoError} {c c' : Conn} (h : Stop k c c') (hc : c.io.Sound) :
    c'.io.Sound := by
  cases h with
  | writePending hw ht hp hlt => exact hc.writes hw ht
  | writeFailed hw ht why => exact hc.writes hw ht
  | grow hs hr hg => exact hc.reads hr
  | headPending hs hr hb hp => exact hc.reads hr
  | headMissing hs hr why hk => exact hc.reads hr
  | headInvalid hs hf hp => exact hc.reads hf.reads
  | awaitResponse hs hrx hq hn => exact hc
  | noResponse hs hrx hr hq hn => exact hc
  | responseCut hs hrx ht hw hio hk why => exact hc.writes hw hio
  | bodyFull hs hb hq hr ho => exact hc
  | fillPending hs hb ho hr hbl hp => exact hc.reads hr
  | fillFailed hs hb hr hu => exact hc.reads hr
  | limitPending hs hb ho hn hl hr hw => obtain ⟨bs, hr⟩ := hr; exact hc.reads hr
  | limitFailed hs hb hn hl hr hk why => obtain ⟨bs, hr⟩ := hr; exact hc.reads hr
  | entireOverflow hs hb hl hr => exact hc.reads hr
  | noHolder hs hrx hh => exact hc
  | awaitItem hs hr hq hn => exact hc
  | noItem hs hr hq hn => exact hc
  | itemPending hs ht hw hio hp hlt hf => exact hc.writes hw hio
  | itemFailed hs ht hw hio why => exact hc.writes hw hio

/-- Moves of the codec. -/
abbrev Moves (want : Bool) : Conn → Conn → Prop := ReflTransGen (Move want)

/-- The outcome of a poll of a part of the codec. -/
abbrev Ends {τ α : Type} (want : Bool) (view : τ → Conn) (c : Conn) (Q : α → τ → Prop) :
    Outcome IoError α → τ → Prop := Comes (Move want) Stop view c Q

/-- The state `SendRes`, put back. -/
def viewRes (s : Bidirect × Conn) : Conn := { s.2 with state := .sendRes s.1 }

/-- The state `SendBody`, put back. -/
def viewBody (s : BodySender × Conn) : Conn := { s.2 with state := .sendBody s.1 }

variable {c c' : Conn} {cx : Waker} {want reg : Bool}

/-! ### Writing what is pending -/

variable (want) in
theorem finishPending_moves (h : Sound c.io) :
    wp (pollIo BufIo.pollFinishPendingWrite) (Ends want id c fun _ c' =>
      c'.io.Sound ∧ c'.io.canPollWrite = true ∧ c'.state = c.state) c := by
  rw [pollIo, wp_zoom]
  refine (pollFinishPendingWrite_spec h.txWf).mono fun r io hio => ?_
  cases r with
  | ready _ =>
      have ht := txWf_of_canPollWrite hio.2.1
      exact ⟨.single (.write hio.1 ht hio.2.1), h.writes hio.1 ht, hio.2.1, rfl⟩
  | pending =>
      obtain ⟨hw, ht, hp, hlt, -⟩ := hio
      exact ⟨c, .refl, .writePending hw ht hp hlt⟩
  | fail e =>
      obtain ⟨⟨front, hf, hw⟩, ht, hc⟩ := hio
      rw [List.prefix_nil.mp hf] at hw
      exact ⟨c, .refl, .writeFailed hw ht hc⟩
  | panic m => exact hio.elim
  | diverge => exact hio.elim

/-! ### Heads -/

theorem tryParseReq_error {buf : Bytes} {eos : Bool} {e : IoError}
    (h : tryParseReq buf eos = .error e) : isClosedKind e.kind = false := by
  unfold tryParseReq at h
  cases hp : Crates.parseReq buf with
  | error m => simp only [hp] at h; cases h; rfl
  | ok p =>
      obtain ⟨isPartial, parsed⟩ := p
      simp only [hp] at h
      cases isPartial with
      | true => cases h
      | false =>
          simp only [Bool.false_eq_true, if_false] at h
          cases hu : Crates.buildUri parsed.path with
          | error m => simp only [hu] at h; cases h; rfl
          | ok uri =>
              simp only [hu] at h
              split at h
              · cases h; rfl
              · cases h

theorem writeHttp1xRes_eq {σ : Type} (res : Response) (t : σ) :
    writeHttp1xRes res maxResponseSize t = (resHead res, t) := by
  unfold resHead writeHttp1xRes
  cases versionBytes res.version with
  | error m => rfl
  | ok ver =>
      simp only [orPanic, writeCursor, pure_bind]
      split <;> rfl

theorem resHead_cases (res : Response) :
    (∃ head, resHead res = .ready head) ∨ (∃ e, resHead res = .fail e) ∨
      resHead res = .panic "Unsupported http version" := by
  unfold resHead writeHttp1xRes
  cases hv : versionBytes res.version with
  | error m =>
      obtain rfl := versionBytes_error hv
      exact .inr (.inr rfl)
  | ok ver =>
      simp only [orPanic, writeCursor, pure_bind]
      split
      · exact .inl ⟨_, rfl⟩
      · exact .inr (.inl ⟨_, rfl⟩)

variable [VecAlloc]

/-! ### `RecvReq` -/

/-- What comes of `RecvReq`: the next state, and the package that goes with it. -/
def NextReq (package : Option Package) (next : State) (c : Conn) : Prop :=
  match package with
  | some (req, recv, expectsNoBody) =>
      (∃ c₁, { c with state := next } = received req c₁) ∧ expectsNoBody = (req.method == .head) ∧
        recv = .new (LimitRead.fromHeaders req.headers false).isNoBody true
  | none => next = .closed

theorem pollNextReq_moves (hwant : want = true) (hs : c.state = .recvReq) (h : Sound c.io) :
    wp pollNextReq (fun r c' => match r with
      | .ready (package, next) =>
          Moves want c { c' with state := next } ∧ NextReq package next c' ∧ Sound c'.io
      | .pending => Stop .pending c c'
      | .fail e => Stop (.fail e) c c'
      | .panic m => Stop (.panic m) c c'
      | .diverge => False) c := by
  rw [pollNextReq, wp_bind, wp_attempt, pollIo, wp_zoom]
  refine (pollForCrlfcrlf_spec h.wf).mono fun r io hio => ?_
  cases r with
  | pending =>
      obtain ⟨hr, hb, hp, hn⟩ := hio
      exact .headPending hs hr hb hp hn
  | panic m => exact .grow hs hio.1.reads hio.1.grows hio.1.msg hio.2.2
  | diverge => exact hio.elim
  | fail e =>
      obtain ⟨hr, why⟩ := hio
      dsimp only [bindPost, Except.bind]
      rw [wp_ite]
      split
      · next hk =>
        -- The end of the stream before a request.
        refine ⟨.single (.hangUp hs hr ?_), rfl, h.reads hr⟩
        rcases why with hc | ⟨-, heof⟩ | ⟨rfl, -⟩
        · exact .inl hc
        · exact .inr heof
        · cases hk
      · next hk => exact .headMissing hs hr why (Bool.not_eq_true _ ▸ hk)
  | ready ret =>
      obtain ⟨head, eos, rfl, hf⟩ := hio
      cases hp : tryParseReq head eos with
      | error e =>
          dsimp only [Outcome.map, bindPost, Except.bind, id]
          rw [wp_ite, if_neg (by rw [tryParseReq_error hp]; exact Bool.false_ne_true)]
          exact .headInvalid hs hf fun req h => by cases hp.symm.trans h
      | ok req =>
          cases req with
          | none => exact .headInvalid hs hf fun req h => by cases hp.symm.trans h
          | some req =>
              exact ⟨.single (.request hs hf hp hwant), ⟨⟨_, rfl⟩, rfl, rfl⟩, h.reads hf.reads⟩

/-! ### `Bidirect` -/

variable {s : Bidirect × Conn}

variable (want) in
omit [VecAlloc] in
theorem pollSendResp_moves (hio : s.2.io.canPollWrite = true) (hrx : s.1.rxRes = true) :
    wp (pollSendResp cx reg) (fun r s' => match r with
      | .ready _ => Move want (viewRes s) (viewRes s') ∧ s'.1.rxRes = false ∧
          s'.1.txBody = s.1.txBody ∧ s'.2.io.TxWf ∧ ∃ head, Writes head s.2.io s'.2.io
      | .pending => s'.1 = s.1 ∧ (∃ res, s.2.res.Quiet res ∧ s'.2 = { s.2 with res := res }) ∧
          s.2.res.queue = [] ∧ s.2.res.senders ≠ 0
      | .fail e => Stop (.fail e) (viewRes s) (viewRes s')
      | .panic m => Stop (.panic m) (viewRes s) (viewRes s')
      | .diverge => False) s := by
  rw [pollSendResp, wp_bind, wp_get, bindPost, wp_bind, wp_assert, if_pos hrx]
  dsimp only [bindPost]
  rw [wp_bind, onConn, wp_zoom, pollRes, wp_zoom]
  refine Chan.pollRecv_spec.mono fun r rx hr => ?_
  cases r with
  | pending => exact ⟨rfl, ⟨rx, hr.1, rfl⟩, hr.2⟩
  | fail e => exact hr.elim
  | panic m => exact hr.elim
  | diverge => exact hr.elim
  | ready o =>
      cases o with
      | none => exact .noResponse rfl hrx hr.1 hr.2.1 hr.2.2
      | some item =>
          obtain ⟨res, fin⟩ := item
          dsimp only [bindPost]
          rw [wp_bind, update, wp_modify, bindPost, wp_bind, wp_modify, bindPost, wp_bind]
          refine wp_of_eq (writeHttp1xRes_eq res _) ?_
          have ht := txWf_of_canPollWrite hio
          rcases resHead_cases res with ⟨head, hh⟩ | ⟨e, hh⟩ | hh
          · rw [hh]
            dsimp only [bindPost]
            rw [wp_bind, wp_get, bindPost, wp_bind, wp_assert]
            rw [if_pos (show s.2.io.canPollWrite = true from hio), bindPost, wp_bind, wp_poll, onConn,
              wp_zoom, pollIo, wp_zoom]
            refine (writeAll_spec (show s.2.io.canPollWrite = true from hio)).mono fun r io hw => ?_
            cases r with
            | ready _ =>
                have hio' := txWf_of_canPollWrite hw.2.1
                exact ⟨.response (c := viewRes s) (h := s.1) rfl hrx hr hh hw.1 hio' (.inl hw.2.1), rfl,
                  rfl, hio', head, hw.1⟩
            | pending =>
                exact ⟨.response (c := viewRes s) (h := s.1) rfl hrx hr hh hw.1 hw.2.1 (.inr hw.2.2.1),
                  rfl, rfl, hw.2.1, head, hw.1⟩
            | fail e =>
                obtain ⟨⟨front, hf, hw⟩, hio', hc⟩ := hw
                exact .responseCut (c := viewRes s) (h := s.1) rfl hrx hr hw hio' (by simp) (.inr hc)
                  (by simp)
            | panic m => exact hw.elim
            | diverge => exact hw.elim
          · rw [hh]
            exact .responseCut (c := viewRes s) (h := s.1) rfl hrx hr (Writes.refl _) ht (by simp)
              (.inl ⟨rfl, fun head h => by cases hh.symm.trans h⟩) (by simp)
          · rw [hh]
            exact .responseCut (c := viewRes s) (h := s.1) rfl hrx hr (Writes.refl _) ht (by simp)
              (.inl ⟨rfl, fun head h => by cases hh.symm.trans h⟩)
              fun m hm => ⟨rfl, (Halt.panic.inj hm).symm⟩

/-- What `next_chunk` comes to. -/
def ChunkPost (s : Bidirect × Conn) : Outcome IoError Bytes → Bidirect × Conn → Prop
  | .ready bs, s' => ∃ limit io entire,
      s' = ({ s.1 with limit := limit }, { s.2 with io := io, entire := entire }) ∧
      (s.1.limit.canReadEntireVec = true ∧ s.1.limit.acceptEntireVec bs = .ok limit ∧
          bs = s.2.io.unread ∧ Reads bs s.2.io io ∧ io.unread = [] ∧
          io.pendingRx = s.2.io.pendingRx ∧ entire = (bs, s.1.limit) :: s.2.entire ∨
        entire = s.2.entire ∧ (∃ front, Reads (front ++ bs) s.2.io io) ∧
          (io.pendingRx = true → s.2.io.pendingRx = true) ∧
          ∃ n, n ≠ 0 ∧ LimitRead.pollRead n (s.1.limit, s.2.io) = (.ready bs, (limit, io)))
  | .pending, s' => Stop .pending (viewRes s) (viewRes s')
  | .fail e, s' => Stop (.fail e) (viewRes s) (viewRes s')
  | .panic m, s' => Stop (.panic m) (viewRes s) (viewRes s')
  | .diverge, _ => False

theorem nextChunk_moves {n : Nat} (hw : s.2.io.Wf) (hb : s.1.txBody = true)
    (ho : s.2.body.Open ∨ s.2.body.receivers = 0) (ha : Awaiting s.1 s.2) (hn : n ≠ 0)
    (hu₀ : s.2.io.unread ≠ []) : wp (nextChunk n) (ChunkPost s) s := by
  rw [nextChunk, wp_bind, wp_get, bindPost, wp_ite]
  split
  · next hfast =>
    rw [Bool.and_eq_true] at hfast
    obtain ⟨hu, hr⟩ := reads_takeReadBuf hw (beq_iff_eq.mp hfast.2)
    have hx : (takeReadBuf : PollM IoError BufIo Bytes) s.2.io = (.ready s.2.io.unread,
        { s.2.io with buf := .withCapacity s.2.io.buf.capacity, pos := 0 }) := by
      rw [← hu]; rfl
    rw [wp_bind, onConn, wp_zoom, pollIo, wp_zoom]
    refine wp_of_eq hx ?_
    dsimp only [bindPost]
    rw [wp_bind, wp_modify, bindPost, wp_bind]
    cases hl : s.1.limit.acceptEntireVec s.2.io.unread with
    | error m => exact .entireOverflow (c := viewRes s) (h := s.1) rfl hb hl hr rfl hu₀
    | ok limit => exact ⟨limit, _, _, rfl, .inl ⟨hfast.1, hl, rfl, hr, rfl, rfl, rfl⟩⟩
  · next hslow =>
    rw [FastBuf.borrow_withCapacity (Nat.pos_of_ne_zero hn)]
    show ChunkPost s (LimitRead.pollRead n (s.1.limit, s.2.io)).1
      ({ s.1 with limit := (LimitRead.pollRead n (s.1.limit, s.2.io)).2.1 },
        { s.2 with io := (LimitRead.pollRead n (s.1.limit, s.2.io)).2.2 })
    have hm : wp _ _ _ := LimitRead.pollRead_moves s.1.limit hw hn
    have hrx := LimitRead.steady_pollRead n (s.1.limit, s.2.io)
    rw [wp] at hm
    rcases hp : LimitRead.pollRead n (s.1.limit, s.2.io) with ⟨r, limit, io⟩
    rw [hp] at hm hrx
    cases r with
    | ready bs => exact ⟨limit, io, _, rfl, .inr ⟨rfl, hm.2, hrx (by simp), n, hn, hp⟩⟩
    | pending => exact .limitPending (c := viewRes s) (h := s.1) rfl hb ho hn hp hm.1 hm.2 ha
    | fail e =>
        exact .limitFailed (c := viewRes s) (h := s.1) rfl hb hn hp hm (by simp) ⟨by simp, by simp⟩
          (by simp) (hrx (by simp)) hu₀
    | panic m =>
        exact .limitFailed (c := viewRes s) (h := s.1) rfl hb hn hp hm.1 (by simp) ⟨by simp, by simp⟩
          (fun m' h => Halt.panic.inj h ▸ hm.2) (hrx (by simp)) hu₀
    | diverge => exact hm.elim

omit [Crates] [VecAlloc] in
theorem passOn_eq {bs : Bytes} (hc : bs = [] → s.1.limit.isComplete = true) :
    passOn bs s = (.ready (), (s.1, { s.2 with body := deliver bs s.2.body })) := by
  cases bs with
  | nil => simp [passOn, deliver, hc rfl]
  | cons b bs =>
      have hx : (onConn (pollBody (Chan.send (.ok (b :: bs)))) :
          PollM IoError (Bidirect × Conn) Bool) s =
          (.ready (decide (s.2.body.receivers ≠ 0)),
            (s.1, { s.2 with body := s.2.body.offer (.ok (b :: bs)) })) := by
        rw [onConn, run_zoom, pollBody, run_zoom, Chan.send_eq]
      simp [passOn, deliver, run_bind_ready hx]

omit [Crates] [VecAlloc] in
/-- The chunk, and what follows where it is the last. -/
theorem passOn_ends {h : Bidirect} {limit : LimitRead} {bs : Bytes} {c : Conn}
    (hb : h.txBody = true) (hc : bs = [] → limit.isComplete = true) :
    wp (passOn bs >>= fun _ => endBody) (fun r s' => r = .ready () ∧
      viewRes s' = passedOn h limit bs c ∧ s'.1.rxRes = h.rxRes ∧ s'.2.io = c.io ∧
      (s'.1.txBody = true → bs ≠ [])) ({ h with limit := limit }, c) := by
  rw [wp_bind]
  refine wp_of_eq (passOn_eq (s := ({ h with limit := limit }, c)) hc) ?_
  dsimp only [bindPost]
  rw [endBody, wp_bind, wp_get, bindPost, wp_ite]
  split
  · next hcomp =>
    have hcomp : limit.isComplete = true := hcomp
    refine ⟨rfl, ?_, rfl, rfl, by simp⟩
    rw [viewRes, passedOn, hcomp, Bool.or_true]
    rfl
  · next hcomp =>
    have hcomp : limit.isComplete = false := Bool.not_eq_true _ ▸ hcomp
    refine ⟨rfl, ?_, rfl, rfl, fun _ hnil => ?_⟩
    · simp only [viewRes, passedOn, hcomp, hb, Bool.or_false, Bool.not_false, Bool.false_eq_true,
        if_false]
      rfl
    · rw [hc hnil] at hcomp
      cases hcomp

omit [Crates] [VecAlloc] in
theorem bidirectWeight_eq : bidirectWeight s = (if s.1.rxRes then 1 else 0) +
    (if s.1.txBody then 1 else 0) + s.2.io.weight := rfl

variable (want) in
theorem pollReadBody_moves (hio : s.2.io.Sound) (hb : s.1.txBody = true)
    (ha : Awaiting s.1 s.2) :
    wp (pollReadBody cx) (Ends want viewRes (viewRes s) fun _ s' => s'.2.io.Sound ∧
      s'.1.rxRes = s.1.rxRes ∧ s'.2.io.canPollWrite = s.2.io.canPollWrite ∧
      bidirectWeight s' < bidirectWeight s) s := by
  rw [pollReadBody, wp_bind, wp_get, bindPost, wp_bind, wp_assert, if_pos hb]
  dsimp only [bindPost]
  rw [wp_bind, onConn, wp_zoom, pollBody, wp_zoom]
  refine Chan.pollReady_spec.mono fun r body hr => ?_
  cases r with
  | pending => exact ⟨_, .refl, .bodyFull (c := viewRes s) (h := s.1) rfl hb hr.1 hr.2.1 hr.2.2 ha⟩
  | fail e => exact hr.elim
  | panic m => exact hr.elim
  | diverge => exact hr.elim
  | ready b =>
      obtain ⟨rfl, hb'⟩ := hr
      have ho : s.2.body.Open ∨ s.2.body.receivers = 0 := by
        cases b with
        | true => exact .inl hb'
        | false => exact .inr hb'
      dsimp only [bindPost]
      rw [wp_bind, wp_get, bindPost, wp_bind, onConn, wp_zoom, pollIo, wp_zoom, ensureReadCapacity,
        wp_modify]
      have hens : Reads [] s.2.io { s.2.io with buf := s.2.io.buf.ensureCapacity s.1.curReadSize } :=
        reads_ensureCapacity s.1.curReadSize
      dsimp only [bindPost]
      rw [wp_bind, onConn, wp_zoom, pollIo, wp_zoom]
      have hgrown : Move want (viewRes s) (viewRes (s.1, { s.2 with
          io := { s.2.io with buf := s.2.io.buf.ensureCapacity s.1.curReadSize } })) :=
        .read hens fun hp => ⟨hp, unread_ensureCapacity _⟩
      refine (pollFillBuf_spec (hens.wf hio.wf) false).mono fun r io hr => ?_
      cases r with
      | pending =>
          obtain ⟨hr, hbl, hu, hp, h0⟩ := hr
          have hnil := (hens.wf hio.wf).unread_eq_nil.mpr (h0.resolve_right (by simp))
          exact ⟨_, .single hgrown, .fillPending (h := s.1) rfl hb ho hr hbl hp ha (hu.trans hnil)⟩
      | fail e =>
          exact ⟨_, .single hgrown, .fillFailed (h := s.1) rfl hb hr.1 fun hc => absurd hc hr.2⟩
      | panic m => cases hr.2.2
      | diverge => exact hr.elim
      | ready buf =>
          obtain ⟨rfl, hr, hfill⟩ := hr
          have hio' := (hio.reads hens).reads hr
          have hmove : Moves want (viewRes s) (viewRes (s.1, { s.2 with io := io })) :=
            .tail (.single hgrown) (.read hr fun hp => by
              rcases hfill with ⟨-, -, rfl⟩ | ⟨-, -, new, -, -, -, hp'⟩
              · exact ⟨hp, rfl⟩
              · cases hp'.symm.trans hp)
          dsimp only [bindPost]
          rw [wp_ite]
          split
          · next hnil =>
            refine ⟨_, .single hgrown, .fillFailed (h := s.1) rfl hb hr fun hc => ?_⟩
            have hu : io.unread = [] := List.isEmpty_iff.mp hnil
            rcases hfill with ⟨hne, -, rfl⟩ | ⟨-, -, new, hnew, heof, -⟩
            · exact absurd ((hens.wf hio.wf).unread_eq_nil.mp hu) hne
            · rw [hu] at hnew
              exact ⟨(heof (List.append_eq_nil_iff.mp hnew.symm).2 hc).reads hr, hu⟩
          · next hnil =>
            have hu : io.unread ≠ [] := fun h => hnil (List.isEmpty_iff.mpr h)
            have hlen : io.unread.length ≠ 0 := fun h => hu (List.length_eq_zero_iff.mp h)
            rw [wp_bind]
            refine (nextChunk_moves (s := (s.1, { s.2 with io := io })) hio'.wf hb ho ha hlen hu).mono
              fun r s₃ hchunk => ?_
            cases r with
            | pending => exact ⟨_, hmove, hchunk⟩
            | fail e => exact ⟨_, hmove, hchunk⟩
            | panic m => exact ⟨_, hmove, hchunk⟩
            | diverge => exact hchunk.elim
            | ready bs =>
                obtain ⟨limit, io₃, entire, rfl, hcase⟩ := hchunk
                by_cases hc : bs = [] → limit.isComplete = true
                · -- The chunk is passed on.
                  obtain ⟨hmv, front, hrd⟩ : Move want (viewRes (s.1, { s.2 with io := io }))
                      (passedOn s.1 limit bs { s.2 with io := io₃, entire := entire }) ∧
                      ∃ front, Reads (front ++ bs) io io₃ := by
                    rcases hcase with ⟨he, hl, rfl, hrd, hu₃, hp, rfl⟩ | ⟨rfl, hrd, hp, n, hn, hl⟩
                    · exact ⟨.entire (h := s.1) rfl hb ho he hl hu hrd hu₃ hp, [], hrd⟩
                    · exact ⟨.chunk (h := s.1) rfl hb ho hn hl hrd hc hp hu, hrd⟩
                  dsimp only [bindPost]
                  refine (passOn_ends (c := { s.2 with io := io₃, entire := entire }) hb hc).mono
                    fun r s' h => ?_
                  obtain ⟨rfl, hm, hrx, hs', hne⟩ := h
                  have hmv' := (hmove).tail (hm ▸ hmv)
                  have hrest := ((hens.trans hr).trans hrd)
                  refine ⟨hmv', ?_, hrx, ?_, ?_⟩
                  · rw [hs']
                    exact hio'.reads hrd
                  · rw [hs']
                    exact hrest.canPollWrite
                  · have hwt := hrest.weight
                    rw [bidirectWeight_eq, bidirectWeight_eq, hrx, hs', hb]
                    simp only [List.nil_append, List.length_append] at hwt
                    simp only [if_true]
                    by_cases htx : s'.1.txBody = true
                    · have := List.length_pos_iff.mpr (hne htx)
                      rw [if_pos htx]
                      omega
                    · rw [if_neg htx]
                      omega
                · -- Nothing was read, and the body is not complete.
                  obtain ⟨rfl, hcomp⟩ := Classical.not_imp.mp hc
                  rw [Bool.not_eq_true] at hcomp
                  have hx : passOn [] ({ s.1 with limit := limit }, { s.2 with
                      io := io₃, entire := entire }) =
                      (.fail ⟨.unexpectedEof, "Partial body"⟩, ({ s.1 with limit := limit }, { s.2 with
                        io := io₃, entire := entire })) := by
                    simp [passOn, hcomp]
                  rcases hcase with ⟨-, -, hnil, -⟩ | ⟨rfl, ⟨front, hrd⟩, hp, n, hn, hl⟩
                  · exact absurd hnil.symm hu
                  · dsimp only [bindPost]
                    rw [wp_bind]
                    refine wp_of_eq hx ⟨_, hmove, ?_⟩
                    exact .limitFailed (c := viewRes (s.1, { s.2 with io := io })) (h := s.1) rfl hb hn
                      hl ⟨_, hrd⟩ (by simp) ⟨by simp, fun bs h => ⟨(Outcome.ready.inj h).symm, hcomp⟩⟩
                      (by simp) hp hu

/-- What the rounds of `poll_bidirect` keep: nothing is being written while a response is awaited. -/
def Ready (s : Bidirect × Conn) : Prop :=
  s.2.io.Sound ∧ (s.1.rxRes = true → s.2.io.canPollWrite = true)

variable (want) in
omit [VecAlloc] in
theorem pollRespond_moves (h : Ready s) :
    wp (pollRespond cx reg) (Ends want viewRes (viewRes s) fun p s' => Ready s' ∧
      s'.1.txBody = s.1.txBody ∧ s'.2.io.weight = s.2.io.weight ∧ s'.1.rxRes = p ∧
      (p = true → s.1.rxRes = true ∧ s'.2.res.queue = [] ∧ s'.2.res.senders ≠ 0)) s := by
  rw [pollRespond, wp_bind, wp_get, bindPost, wp_ite]
  split
  · next hrx =>
    rw [wp_map, wp_poll]
    refine (pollSendResp_moves want (h.2 hrx) hrx).mono fun r s' hs => ?_
    cases r with
    | ready _ =>
        obtain ⟨hm, hrx', htx, ht, head, hw⟩ := hs
        refine ⟨.single hm, ⟨h.1.writes hw ht, fun h' => ?_⟩, htx, hw.weight, hrx', by simp⟩
        rw [hrx'] at h'
        cases h'
    | pending =>
        obtain ⟨h₁, ⟨res, hq, h₂⟩, hnil, hne⟩ := hs
        have hio : s'.2.io = s.2.io := by rw [h₂]
        refine ⟨.single ?_, ⟨hio ▸ h.1, fun _ => hio ▸ h.2 hrx⟩, by rw [h₁], by rw [hio],
          by rw [h₁, hrx]; rfl, fun _ => ⟨hrx, ?_, ?_⟩⟩
        · rw [viewRes, viewRes, h₁, h₂]
          exact .wake (c := viewRes s) hq
        · rw [h₂]
          exact hq.queue.trans hnil
        · rw [h₂]
          show res.senders ≠ 0
          rw [hq.senders]
          exact hne
    | fail e => exact ⟨_, .refl, hs⟩
    | panic m => exact ⟨_, .refl, hs⟩
    | diverge => exact hs.elim
  · next hrx =>
    exact ⟨.refl, h, rfl, rfl, Bool.not_eq_true _ ▸ hrx, by simp⟩

theorem bidirectRound_moves (h : Ready s) :
    wp (bidirectRound cx reg ()) (roundPost
      (fun _ s' => Moves want (viewRes s) (viewRes s') ∧ Ready s' ∧ bidirectWeight s' < bidirectWeight s)
      (Ends want viewRes (viewRes s) fun _ s' =>
        Ready s' ∧ s'.1.rxRes = false ∧ s'.1.txBody = false)) s := by
  rw [bidirectRound, wp_bind, wp_get, bindPost, wp_ite]
  split
  · next hdone =>
    rw [Bool.and_eq_true, Bool.not_eq_true', Bool.not_eq_true'] at hdone
    exact ⟨.refl, h, hdone⟩
  · next hdone =>
    rw [wp_bind]
    refine (pollRespond_moves want h).mono fun r s₁ hs => ?_
    cases r with
    | pending => exact hs
    | fail e => exact hs
    | panic m => exact hs
    | diverge => exact hs
    | ready p =>
        obtain ⟨hm, hr, htx, hwt, hrx, hp⟩ := hs
        dsimp only [bindPost]
        rw [wp_bind, wp_get, bindPost, wp_ite]
        split
        · next hpend =>
          rw [Bool.and_eq_true] at hpend
          obtain ⟨-, hnil, hne⟩ := hp hpend.1
          exact ⟨_, hm, .awaitResponse (h := s₁.1) rfl (hrx.trans hpend.1) hnil hne⟩
        · next hgo =>
          rw [wp_bind, wp_get, bindPost, wp_ite]
          split
          · next htx₁ =>
            rw [wp_bind]
            have ha : Awaiting s₁.1 s₁.2 := fun h => (hp (hrx.symm.trans h)).2
            refine (pollReadBody_moves want hr.1 htx₁ ha).mono fun r s₂ hs₂ => ?_
            cases r with
            | pending => exact hs₂.after hm
            | fail e => exact hs₂.after hm
            | panic m => exact hs₂.after hm
            | diverge => exact hs₂.elim
            | ready _ =>
                obtain ⟨hm₂, hio, hrx₂, hcan, hlt⟩ := hs₂
                show _ ∧ Ready s₂ ∧ bidirectWeight s₂ < bidirectWeight s
                refine ⟨hm.trans hm₂, ⟨hio, fun h' => ?_⟩, Nat.lt_of_lt_of_le hlt ?_⟩
                · rw [hcan]
                  exact hr.2 (hrx₂ ▸ h')
                · rw [bidirectWeight_eq, bidirectWeight_eq, htx, hwt, hrx]
                  cases p with
                  | false => simp only [Bool.false_eq_true, if_false]; omega
                  | true => exact Nat.le_of_eq (by rw [(hp rfl).1])
          · next htx₁ =>
            -- No body is awaited, so the response has just been sent.
            rw [Bool.not_eq_true] at htx₁
            rw [htx₁] at hgo htx
            rw [← htx] at hdone
            have hp₁ : p = false := by simpa using hgo
            have hrx₀ : s.1.rxRes = true := by simpa using hdone
            show _ ∧ Ready s₁ ∧ bidirectWeight s₁ < bidirectWeight s
            refine ⟨hm, hr, ?_⟩
            rw [bidirectWeight_eq, bidirectWeight_eq, hwt, hrx, hp₁, hrx₀, htx₁, ← htx]
            simp only [Bool.false_eq_true, if_false, if_true]
            omega

/-- A state is left for another. -/
def Leaves {τ : Type} (want : Bool) (view : τ → Conn) (leave : τ → State → Conn) (c : Conn)
    (Q : State → τ → Prop) : Outcome IoError State → τ → Prop
  | .ready next, t => Moves want c (leave t next) ∧ Q next t
  | .pending, t => ∃ c', Moves want c c' ∧ Stop .pending c' (view t)
  | .fail e, t => ∃ c', Moves want c c' ∧ Stop (.fail e) c' (view t)
  | .panic m, t => ∃ c', Moves want c c' ∧ Stop (.panic m) c' (view t)
  | .diverge, _ => False

omit [VecAlloc] in
theorem Leaves.after {τ : Type} {view : τ → Conn} {leave : τ → State → Conn} {c c' : Conn}
    {Q : State → τ → Prop} {r : Outcome IoError State} {t : τ} (hm : Moves want c c')
    (h : Leaves want view leave c' Q r t) : Leaves want view leave c Q r t := by
  cases r with
  | ready next => exact ⟨hm.trans h.1, h.2⟩
  | pending => exact h.imp fun _ h => ⟨hm.trans h.1, h.2⟩
  | fail e => exact h.imp fun _ h => ⟨hm.trans h.1, h.2⟩
  | panic m => exact h.imp fun _ h => ⟨hm.trans h.1, h.2⟩
  | diverge => exact h

/-- `Bidirect` with the state it is left for. -/
def leaveRes (s : Bidirect × Conn) (next : State) : Conn := { s.2 with state := next }

omit [VecAlloc] in
theorem afterBidirect_moves (hio : s.2.io.Sound) (hrx : s.1.rxRes = false)
    (htx : s.1.txBody = false) : wp afterBidirect (Leaves want viewRes leaveRes (viewRes s) fun next s' =>
      s'.2.io.Sound ∧ driveWeight (leaveRes s' next) < 2) s := by
  rw [afterBidirect, wp_bind, wp_get, bindPost]
  dsimp only
  cases hh : s.1.holder with
  | none => exact ⟨_, .refl, .noHolder (h := s.1) rfl hrx hh⟩
  | some p =>
      obtain ⟨fin, limit⟩ := p
      dsimp only
      rw [wp_bind, update, wp_modify, bindPost, wp_ite]
      split
      · next hn =>
        refine ⟨.single (.responded (c := viewRes s) (h := s.1) rfl hrx htx hh hn), hio, ?_⟩
        cases s.1.requestAllowsReuse with
        | true => exact Nat.zero_lt_two
        | false => exact Nat.zero_lt_two
      · next hn =>
        exact ⟨.single (.toBody (c := viewRes s) (h := s.1) rfl hrx htx hh (Bool.not_eq_true _ ▸ hn)),
          hio, Nat.one_lt_two⟩

variable (want) in
theorem pollBidirect_moves (h : Ready s) :
    wp (pollBidirect cx reg) (Leaves want viewRes leaveRes (viewRes s) fun next s' =>
      s'.2.io.Sound ∧ driveWeight (leaveRes s' next) < 2) s := by
  rw [pollBidirect, wp_bind]
  refine (wp_moves_loop (M := Move want) (P := fun c => Ends want viewRes c _) (I := fun _ => Ready)
    (fun _ _ _ _ hm h => Comes.after hm h) (fun _ _ h => bidirectRound_moves h) h).mono
    fun r s₁ hs => ?_
  cases r with
  | pending => exact hs
  | fail e => exact hs
  | panic m => exact hs
  | diverge => exact hs.elim
  | ready _ =>
      obtain ⟨hm, hr, hrx, htx⟩ := hs
      exact (afterBidirect_moves hr.1 hrx htx).mono fun r s₂ hs₂ => hs₂.after hm

/-! ### `BodySender` -/

section BodySender
variable {s : BodySender × Conn}

/-- `BodySender` with the state it is left for: the receiver of the body goes with it. -/
def leaveBody (s : BodySender × Conn) (next : State) : Conn :=
  { s.2 with state := next, resBody := s.2.resBody.dropReceiver }

/-- What the rounds of `poll_send_body` keep. -/
def Sending (s : BodySender × Conn) : Prop := s.2.io.Sound ∧ s.2.io.canPollWrite = true

omit [VecAlloc] in
theorem sendBodyRound_moves (h : Sending s) :
    wp (sendBodyRound cx reg ()) (roundPost
      (fun _ s' => Moves want (viewBody s) (viewBody s') ∧ Sending s' ∧
        s'.2.resBody.queue.length < s.2.resBody.queue.length)
      (Leaves want viewBody leaveBody (viewBody s) fun next s' =>
        s'.2.io.Sound ∧ driveWeight (leaveBody s' next) < 1)) s := by
  rw [sendBodyRound, wp_bind, onConn, wp_zoom, pollResBody, wp_zoom]
  refine Chan.pollRecv_spec.mono fun r rx hr => ?_
  cases r with
  | pending => exact ⟨_, .refl, .awaitItem (c := viewBody s) (h := s.1) rfl hr.1 hr.2.1 hr.2.2⟩
  | fail e => exact hr.elim
  | panic m => exact hr.elim
  | diverge => exact hr.elim
  | ready o =>
      cases o with
      | none =>
          dsimp only [bindPost]
          rw [wp_bind, wp_get, bindPost, wp_bind, wp_assert, if_pos h.2]
          exact ⟨_, .refl, .noItem (c := viewBody s) (h := s.1) rfl hr.1 hr.2.1 hr.2.2⟩
      | some item =>
          obtain ⟨bs, fin⟩ := item
          dsimp only [bindPost]
          rw [wp_bind, wp_get, bindPost, wp_bind, wp_assert, if_pos h.2, bindPost, wp_bind, wp_modify,
            bindPost, wp_bind, onConn, wp_zoom, pollIo, wp_zoom]
          refine (writeAll_spec h.2).mono fun r io hw => ?_
          cases r with
          | pending =>
              obtain ⟨hw, ht, hp, hlt, hthr⟩ := hw
              exact ⟨_, .refl, .itemPending (c := viewBody s) (h := s.1) rfl hr hw ht hp hlt hthr⟩
          | fail e =>
              obtain ⟨⟨front, hf, hw⟩, ht, hc⟩ := hw
              exact ⟨_, .refl, .itemFailed (c := viewBody s) (h := s.1) rfl hr hw ht hc⟩
          | panic m => exact hw.elim
          | diverge => exact hw.elim
          | ready _ =>
              obtain ⟨hw, hcan, hfl⟩ := hw
              have hio := h.1.writes hw (txWf_of_canPollWrite hcan)
              dsimp only [bindPost]
              rw [wp_ite]
              split
              · next hfin =>
                subst hfin
                refine ⟨.single (.lastItem (c := viewBody s) (h := s.1) rfl hr hw hcan (hfl rfl)),
                  hio, ?_⟩
                show driveWeight (leaveBody _ (after s.1.requestAllowsReuse)) < 1
                cases s.1.requestAllowsReuse with
                | true => exact Nat.zero_lt_one
                | false => exact Nat.zero_lt_one
              · next hfin =>
                obtain rfl : fin = false := Bool.not_eq_true _ ▸ hfin
                refine ⟨.single (.item (c := viewBody s) (h := s.1) rfl hr hw hcan), ⟨hio, hcan⟩, ?_⟩
                show rx.queue.length < s.2.resBody.queue.length
                rw [hr.queue]
                exact Nat.lt_succ_self _

variable (want) in
omit [VecAlloc] in
theorem pollSendBody_moves (h : Sending s) :
    wp (pollSendBody cx reg) (Leaves want viewBody leaveBody (viewBody s) fun next s' =>
      s'.2.io.Sound ∧ driveWeight (leaveBody s' next) < 1) s :=
  wp_moves_loop (M := Move want) (P := fun c => Leaves want viewBody leaveBody c _) (I := fun _ => Sending)
    (fun _ _ _ _ hm h => Leaves.after hm h) (fun _ _ h => sendBodyRound_moves h) h

end BodySender

/-! ### `Codec` -/

/-- What a `drive` is ready with. -/
def Served (want : Bool) (package : Option Package) (c : Conn) : Prop :=
  match package with
  | some _ => want = true ∧ NextReq package c.state c
  | none => c.state = .closed ∨ want = false ∧ c.state = .recvReq

theorem driveRound_moves (h : c.io.Sound) :
    wp (driveRound cx want reg ()) (roundPost
      (fun _ c' => Moves want c c' ∧ c'.io.Sound ∧ driveWeight c' < driveWeight c)
      (Ends want id c fun package c' => c'.io.Sound ∧ Served want package c')) c := by
  rw [driveRound, wp_bind]
  refine (finishPending_moves want h).mono fun r c₁ hs => ?_
  cases r with
  | pending => exact hs
  | fail e => exact hs
  | panic m => exact hs
  | diverge => exact hs.elim
  | ready _ =>
      obtain ⟨hm, hio, hcan, hstate⟩ := hs
      dsimp only [bindPost]
      rw [wp_bind, wp_get, bindPost]
      cases hst : c₁.state with
      | closed => exact ⟨hm, hio, .inl hst⟩
      | recvReq =>
          dsimp only
          rw [wp_ite]
          split
          · next hwant =>
            rw [wp_bind]
            refine (pollNextReq_moves hwant hst hio).mono fun r c₂ hs => ?_
            cases r with
            | pending => exact ⟨c₁, hm, hs⟩
            | fail e => exact ⟨c₁, hm, hs⟩
            | panic m => exact ⟨c₁, hm, hs⟩
            | diverge => exact hs.elim
            | ready item =>
                obtain ⟨package, next⟩ := item
                obtain ⟨hm₂, hn, hio₂⟩ := hs
                refine ⟨hm.trans hm₂, hio₂, ?_⟩
                cases package with
                | none => exact .inl hn
                | some p => exact ⟨hwant, hn⟩
          · next hwant => exact ⟨hm, hio, .inr ⟨Bool.not_eq_true _ ▸ hwant, hst⟩⟩
      | sendRes h =>
          dsimp only
          rw [wp_bind, wp_zoom]
          have hview : viewRes (h, c₁) = c₁ := by rw [viewRes, ← hst]
          refine (pollBidirect_moves want (s := (h, c₁)) ⟨hio, fun _ => hcan⟩).mono fun r s hs => ?_
          have hs := hs.after (hview ▸ hm)
          cases r with
          | pending => exact hs
          | fail e => exact hs
          | panic m => exact hs
          | diverge => exact hs.elim
          | ready next =>
              obtain ⟨hm₂, hio₂, hlt⟩ := hs
              refine ⟨hm₂, hio₂, Nat.lt_of_lt_of_le hlt ?_⟩
              exact Nat.le_of_eq (by rw [driveWeight, ← hstate, hst])
      | sendBody h =>
          dsimp only
          rw [wp_bind, wp_zoom]
          have hview : viewBody (h, c₁) = c₁ := by rw [viewBody, ← hst]
          refine (pollSendBody_moves want (s := (h, c₁)) ⟨hio, hcan⟩).mono fun r s hs => ?_
          have hs := hs.after (hview ▸ hm)
          cases r with
          | pending => exact hs
          | fail e => exact hs
          | panic m => exact hs
          | diverge => exact hs.elim
          | ready next =>
              obtain ⟨hm₂, hio₂, hlt⟩ := hs
              refine ⟨hm₂, hio₂, Nat.lt_of_lt_of_le hlt ?_⟩
              exact Nat.le_of_eq (by rw [driveWeight, ← hstate, hst])

theorem drive_moves (h : c.io.Sound) : wp (drive cx want reg)
    (Ends want id c fun package c' => c'.io.Sound ∧ Served want package c') c :=
  wp_moves_loop (M := Move want) (P := fun c => Ends want id c _) (I := fun _ c => c.io.Sound)
    (fun _ _ _ _ hm h => Comes.after hm h) (fun _ _ h => driveRound_moves h) h

/-- The codec shuts down. -/
def shut (c : Conn) : Conn := { c.dropState with state := .closed }

/-- The outcome of a poll of the codec. -/
def ServerPost (want : Bool) (c : Conn) : Outcome IoError (Option Package) → Conn → Prop
  | .ready package, c' => Moves want c c' ∧ Served want package c'
  | .pending, c' => ∃ c₁, Moves want c c₁ ∧ Stop .pending c₁ c'
  | .fail e, c' => ∃ c₁ c₂, Moves want c c₁ ∧ Stop (.fail e) c₁ c₂ ∧ c' = shut c₂
  | .panic m, c' => ∃ c₁, Moves want c c₁ ∧ Stop (.panic m) c₁ c'
  | .diverge, _ => False

/-- **What a poll of the codec does.** -/
theorem pollServer_moves (h : c.io.Sound) :
    wp (pollServer cx want reg) (ServerPost want c) c := by
  have hd : wp (drive cx want reg)
      (Ends want id c fun package c' => c'.io.Sound ∧ Served want package c') c := drive_moves h
  rw [wp] at hd
  rw [wp, pollServer]
  rcases hx : drive cx want reg c with ⟨r, c'⟩
  rw [hx] at hd
  cases r with
  | ready package => exact ⟨hd.1, hd.2.2⟩
  | pending => exact hd
  | fail e =>
      obtain ⟨c₁, hm, hs⟩ := hd
      exact ⟨c₁, c', hm, hs, rfl⟩
  | panic m => exact hd
  | diverge => exact hd.elim

omit [VecAlloc] in
/-- What moves and stops keep, and what holds once the codec has shut down after a failure. -/
theorem ServerPost.keeps_or_shut {I : Conn → Prop} {r : Outcome IoError (Option Package)}
    (hM : ∀ c c', Move want c c' → I c → I c')
    (hS : ∀ k c c', (∀ e, k ≠ .fail e) → Stop k c c' → I c → I c')
    (hF : ∀ e c c', Stop (.fail e) c c' → I c → I (shut c')) (h : ServerPost want c r c')
    (hc : I c) : I c' := by
  cases r with
  | ready package => exact moves_keep hM h.1 hc
  | pending =>
      obtain ⟨c₁, hm, hs⟩ := h
      exact hS _ _ _ (fun e he => by cases he) hs (moves_keep hM hm hc)
  | fail e =>
      obtain ⟨c₁, c₂, hm, hs, rfl⟩ := h
      exact hF _ _ _ hs (moves_keep hM hm hc)
  | panic m =>
      obtain ⟨c₁, hm, hs⟩ := h
      exact hS _ _ _ (fun e he => by cases he) hs (moves_keep hM hm hc)
  | diverge => exact h.elim

omit [VecAlloc] in
/-- What moves, stops and the shutdown keep, a poll of the codec keeps. -/
theorem ServerPost.keeps {I : Conn → Prop} {r : Outcome IoError (Option Package)}
    (hM : ∀ c c', Move want c c' → I c → I c') (hS : ∀ k c c', Stop k c c' → I c → I c')
    (hshut : ∀ c, I c → I (shut c)) (h : ServerPost want c r c') (hc : I c) : I c' :=
  h.keeps_or_shut hM (fun _ _ _ _ hs => hS _ _ _ hs) (fun _ _ _ hs hc => hshut _ (hS _ _ _ hs hc)) hc

omit [Crates] [VecAlloc] in
@[simp] theorem io_shut (c : Conn) : (shut c).io = c.io := by
  rw [shut, Conn.dropState]
  cases c.state with
  | recvReq => rfl
  | closed => rfl
  | sendBody h => rfl
  | sendRes h => cases hrx : h.rxRes <;> simp [hrx, Conn.dropRes]

/-- The codec's buffers stay sound. -/
theorem pollServer_sound (h : c.io.Sound) : (pollServer cx want reg c).2.io.Sound :=
  ServerPost.keeps (I := fun c => c.io.Sound) (fun _ _ hm => hm.sound) (fun _ _ _ hs => hs.sound)
    (fun c hc => by rw [io_shut]; exact hc) (pollServer_moves h) h

end HreqH1.Server
