import HreqH1.Model.Client
import HreqH1.Reading.Limited
import HreqH1.Reading.Scan
import HreqH1.Support.Moves
import HreqH1.Writing.Writes

/-!
# Client — moves of the codec

What a poll of the client's codec does, as moves of a machine on `Conn`: `Move` has one constructor
for each thing it can finish, and `Stop` one for each way in which a poll ends in the middle of one.
A function of the codec that holds a part of the state is seen through `viewRes` and `viewBody`.

`pollClient_moves` is all that is used of the codec's functions elsewhere.
-/

namespace HreqH1.Client
open PollM BufIo Relation

/-- What `write_http1x_req` makes of a head. -/
def reqHead (req : Request) : Outcome IoError Bytes :=
  ((writeHttp1xReq req maxRequestSize : PollM IoError Unit Bytes) ()).1

/-- The channel for the body of the response `res`, and whether it has none. -/
def bodyOf (noBody sent : Bool) : Chan (Except IoError Bytes) :=
  let body := if noBody then (Chan.new 1).dropSender else Chan.new 1
  if sent then body else body.dropReceiver

/-- The state after the response `res`. -/
def Bidirect.answered (h : Bidirect) (i : Nat) (res : Response) : Bidirect :=
  let limit := LimitRead.fromHeaders res.headers true
  { handle := { h.handle with resTx := none }
    responseAllowsReuse := allowReuse res.headers res.version
    holder := if isNoBody limit h.handle.req.method res then none else some (i, limit) }

/-- The connection once the response `res` to request `i` is received. -/
def answered (h : Bidirect) (i : Nat) (res : Response) (c : Conn) : Conn :=
  let noBody := isNoBody (LimitRead.fromHeaders res.headers true) h.handle.req.method res
  { c with
    state := .recvRes (h.answered i res)
    res := atId c.res i fun r => (r.offer (.ok (res, .new noBody false))).dropSender
    resBody := atId c.resBody i fun _ => bodyOf noBody (decide ((c.res i).receivers ≠ 0))
    complete := if noBody then i :: c.complete else c.complete
    answers := (i, h.handle.req, res) :: c.answers }

/-- The receiver of the request's body, after an item. -/
def afterItem (fin : Bool) (rx : Chan (Bytes × Bool)) : Chan (Bytes × Bool) :=
  if fin then rx.dropReceiver else rx

/-- The state after an item of the request's body. -/
def Bidirect.sent (h : Bidirect) (i : Nat) (fin : Bool) : Bidirect :=
  { h with handle := { h.handle with bodyRx := if fin then none else some i } }

/-- The state in which the response's body is received. -/
def Bidirect.receiving (h : Bidirect) (i : Nat) (limit : LimitRead) : BodyReceiver where
  requestAllowsReuse := allowReuse h.handle.req.headers h.handle.req.version
  responseAllowsReuse := h.responseAllowsReuse
  curReadSize := min (limit.bodySize.getD 8192) maxBodyReadSize
  limit := limit
  bodyTx := i

/-- Whether the connection is used again after the response. -/
def Bidirect.allowsReuse (h : Bidirect) : Bool :=
  allowReuse h.handle.req.headers h.handle.req.version && h.responseAllowsReuse

/-- Whether the connection is used again after the response's body. -/
def BodyReceiver.allowsReuse (h : BodyReceiver) : Bool :=
  h.requestAllowsReuse && h.responseAllowsReuse && h.limit.isReusable

variable [Crates]

/-- What a poll of the codec can finish. -/
inductive Move : Conn → Conn → Prop where
  | write {c : Conn} {io : BufIo} (hw : Writes [] c.io io) (ht : io.TxWf) :
      Move c { c with io := io }
  | read {c : Conn} {io : BufIo} (hr : Reads [] c.io io) : Move c { c with io := io }
  | wake {c : Conn} {i : Nat} {rx : Chan (Bytes × Bool)} (hq : (c.reqBody i).Quiet rx) :
      Move c { c with reqBody := atId c.reqBody i fun _ => rx }
  | rest {c : Conn} {rx : Chan Handle} (hs : c.state = .sendReq) (hq : c.reqRx.Quiet rx) :
      Move c { c with reqRx := rx }
  | request {c : Conn} {handle : Handle} {rx : Chan Handle} {io : BufIo} {head : Bytes}
      (hs : c.state = .sendReq) (ht : c.reqRx.Takes handle rx)
      (hh : reqHead handle.req = .ready head) (hw : Writes head c.io io) (hio : io.TxWf) :
      Move c { c with io := io, reqRx := rx, state := .recvRes ⟨handle, false, none⟩ }
  | response {c : Conn} {h : Bidirect} {i : Nat} {io : BufIo} {head : Bytes} {eos : Bool}
      {res : Response} (hs : c.state = .recvRes h) (hi : h.handle.resTx = some i)
      (hf : HeadFound head eos c.io io) (hp : tryParseRes head eos = .ok (some res)) :
      Move c (answered h i res { c with io := io })
  | item {c : Conn} {h : Bidirect} {i : Nat} {bs : Bytes} {fin : Bool} {rx : Chan (Bytes × Bool)}
      {io : BufIo} (hs : c.state = .recvRes h) (hi : h.handle.bodyRx = some i)
      (ht : (c.reqBody i).Takes (bs, fin) rx) (hw : Writes bs c.io io) (hio : io.TxWf) :
      Move c
        { c with
          io := io
          state := .recvRes (h.sent i fin)
          reqBody := atId c.reqBody i fun _ => afterItem fin rx }
  | toBody {c : Conn} {h : Bidirect} {i : Nat} {limit : LimitRead} (hs : c.state = .recvRes h)
      (hr : h.handle.resTx = none) (hb : h.handle.bodyRx = none)
      (hh : h.holder = some (i, limit)) :
      Move c { c with state := .recvBody (h.receiving i limit) }
  | toNext {c : Conn} {h : Bidirect} (hs : c.state = .recvRes h) (hr : h.handle.resTx = none)
      (hb : h.handle.bodyRx = none) (hh : h.holder = none) (hu : h.allowsReuse = true) :
      Move c { c with state := .sendReq }
  | chunk {c : Conn} {h : BodyReceiver} {n : Nat} {bs : Bytes} {limit : LimitRead} {io : BufIo}
      (hs : c.state = .recvBody h) (hc : h.limit.isComplete = false)
      (ho : (c.resBody h.bodyTx).Open ∨ (c.resBody h.bodyTx).receivers = 0)
      (hn : n ≠ 0) (hl : LimitRead.pollRead n (h.limit, c.io) = (.ready bs, (limit, io)))
      (hr : ∃ front, Reads (front ++ bs) c.io io) (hne : bs ≠ []) :
      Move c
        { c with
          io := io
          state := .recvBody { h with limit := limit }
          resBody := atId c.resBody h.bodyTx fun b => b.offer (.ok bs) }
  | lastRead {c : Conn} {h : BodyReceiver} {n : Nat} {limit : LimitRead} {io : BufIo}
      (hs : c.state = .recvBody h) (hc : h.limit.isComplete = false) (hn : n ≠ 0)
      (hl : LimitRead.pollRead n (h.limit, c.io) = (.ready [], (limit, io)))
      (hr : ∃ front, Reads front c.io io) (he : limit.isComplete = true) :
      Move c { c with io := io, state := .recvBody { h with limit := limit } }
  | bodyEnd {c : Conn} {h : BodyReceiver} (hs : c.state = .recvBody h)
      (hc : h.limit.isComplete = true) : Move c { c with complete := h.bodyTx :: c.complete }
  | bodyNext {c : Conn} {h : BodyReceiver} (hs : c.state = .recvBody h)
      (hc : h.limit.isComplete = true) (hm : h.bodyTx ∈ c.complete) (hu : h.allowsReuse = true) :
      Move c
        { c with state := .sendReq, resBody := atId c.resBody h.bodyTx Chan.dropSender }

/-- Where a poll of the codec ends in the middle of something. -/
inductive Stop : Halt IoError → Conn → Conn → Prop where
  | writePending {c : Conn} {io : BufIo} (hw : Writes [] c.io io) (ht : io.TxWf)
      (hlt : io.inner.tx.length < c.io.inner.tx.length) : Stop .pending c { c with io := io }
  | writeFailed {c : Conn} {io : BufIo} {e : IoError} (hw : Writes [] c.io io) (ht : io.TxWf)
      (why : ¬ TxClean c.io.inner.tx) : Stop (.fail e) c { c with io := io }
  | grow {c : Conn} {io : BufIo} {m : String} (hr : Reads [] c.io io) (hg : ¬ io.Grows)
      (hm : m ∈ FastBuf.growthPanics) : Stop (.panic m) c { c with io := io }
  | awaitRequest {c : Conn} {rx : Chan Handle} (hs : c.state = .sendReq) (hr : c.reqRx.Quiet rx)
      (hq : c.reqRx.queue = []) (hn : c.reqRx.senders ≠ 0) : Stop .pending c { c with reqRx := rx }
  | requestFailed {c : Conn} {handle : Handle} {rx : Chan Handle} {io : BufIo} {front : Bytes}
      {e : IoError} (hs : c.state = .sendReq) (ht : c.reqRx.Takes handle rx)
      (hw : Writes front c.io io) (hio : io.TxWf)
      (why : front = [] ∧ (∀ head, reqHead handle.req ≠ .ready head) ∨ ¬ TxClean c.io.inner.tx) :
      Stop (.fail e) c (Conn.dropHandle handle { c with io := io, reqRx := rx })
  | requestPanic {c : Conn} {handle : Handle} {rx : Chan Handle}
      (hs : c.state = .sendReq) (ht : c.reqRx.Takes handle rx)
      (why : ∀ head, reqHead handle.req ≠ .ready head) :
      Stop (.panic "Unsupported http version") c (Conn.dropHandle handle { c with reqRx := rx })
  | headPending {c : Conn} {h : Bidirect} {io : BufIo} (hs : c.state = .recvRes h)
      (hi : h.handle.resTx ≠ none) (hb : h.handle.bodyRx = none) (hr : Reads [] c.io io)
      (hbl : Blocked c.io io) : Stop .pending c { c with io := io }
  | headMissing {c : Conn} {h : Bidirect} {io : BufIo} {e : IoError} (hs : c.state = .recvRes h)
      (hi : h.handle.resTx ≠ none) (hr : Reads [] c.io io) (why : NoHead e c.io io) :
      Stop (.fail e) c { c with io := io }
  | headInvalid {k : Halt IoError} {c : Conn} {h : Bidirect} {io : BufIo} {head : Bytes}
      {eos : Bool} (hs : c.state = .recvRes h) (hi : h.handle.resTx ≠ none)
      (hf : HeadFound head eos c.io io) (hp : ∀ res, tryParseRes head eos ≠ .ok (some res))
      (hk : k ≠ .pending) (hm : ∀ m, k = .panic m → m = "Parsed partial response") :
      Stop k c { c with io := io }
  | headPendingSent {c : Conn} {h : Bidirect} {i : Nat} {bs : Bytes} {rx : Chan (Bytes × Bool)}
      {io io' : BufIo} (hs : c.state = .recvRes h) (hi : h.handle.bodyRx = some i)
      (ht : (c.reqBody i).Takes (bs, true) rx) (hr : Reads [] c.io io) (hw : Writes bs io io')
      (hio : io'.TxWf) :
      Stop .pending c
        { c with
          io := io'
          state := .recvRes (h.sent i true)
          reqBody := atId c.reqBody i fun _ => afterItem true rx }
  | bidirectPending {c : Conn} {h : Bidirect} (hs : c.state = .recvRes h)
      (hb : h.handle.bodyRx ≠ none ∨ c.io.canPollWrite = false) : Stop .pending c c
  | noItem {c : Conn} {h : Bidirect} {i : Nat} {rx : Chan (Bytes × Bool)} {e : IoError}
      (hs : c.state = .recvRes h) (hi : h.handle.bodyRx = some i) (hr : (c.reqBody i).Quiet rx)
      (hq : (c.reqBody i).queue = []) (hn : (c.reqBody i).senders = 0) :
      Stop (.fail e) c { c with reqBody := atId c.reqBody i fun _ => rx }
  | itemFailed {c : Conn} {h : Bidirect} {i : Nat} {bs front : Bytes} {fin : Bool}
      {rx : Chan (Bytes × Bool)} {io : BufIo} {e : IoError} (hs : c.state = .recvRes h)
      (hi : h.handle.bodyRx = some i) (ht : (c.reqBody i).Takes (bs, fin) rx)
      (hw : Writes front c.io io) (hio : io.TxWf) (why : ¬ TxClean c.io.inner.tx) :
      Stop (.fail e) c
        { c with
          io := io
          state := .recvRes (h.sent i fin)
          reqBody := atId c.reqBody i fun _ => afterItem fin rx }
  | bodyFull {c : Conn} {h : BodyReceiver} {body : Chan (Except IoError Bytes)}
      (hs : c.state = .recvBody h) (hc : h.limit.isComplete = false)
      (hq : (c.resBody h.bodyTx).Quiet body) (hr : (c.resBody h.bodyTx).receivers ≠ 0)
      (ho : ¬ (c.resBody h.bodyTx).Open) :
      Stop .pending c { c with resBody := atId c.resBody h.bodyTx fun _ => body }
  | limitPending {c : Conn} {h : BodyReceiver} {n : Nat} {limit : LimitRead} {io : BufIo}
      (hs : c.state = .recvBody h) (hc : h.limit.isComplete = false) (hn : n ≠ 0)
      (hl : LimitRead.pollRead n (h.limit, c.io) = (.pending, (limit, io)))
      (hr : ∃ bs, Reads bs c.io io) (hw : Waits c.io io) :
      Stop .pending c { c with io := io, state := .recvBody { h with limit := limit } }
  | limitFailed {k : Halt IoError} {c : Conn} {h : BodyReceiver} {n : Nat} {limit : LimitRead}
      {io : BufIo} {r : Outcome IoError Bytes} (hs : c.state = .recvBody h)
      (hc : h.limit.isComplete = false)
      (hl : LimitRead.pollRead n (h.limit, c.io) = (r, (limit, io)))
      (hn : n ≠ 0) (hr : ∃ bs, Reads bs c.io io) (hk : k ≠ .pending)
      (why : r ≠ .pending ∧ ∀ bs, r = .ready bs → bs = [] ∧ limit.isComplete = false)
      (hm : ∀ m, k = .panic m → m ∈ LimitRead.overflowPanics) :
      Stop k c { c with io := io, state := .recvBody { h with limit := limit } }
  | noSize {c : Conn} {h : BodyReceiver} (hs : c.state = .recvBody h) (h0 : h.curReadSize = 0) :
      Stop (.panic "FastBuf::borrow() with 0 capacity") c c

theorem Move.sound {c c' : Conn} (h : Move c c') (hc : c.io.Sound) : c'.io.Sound := by
  cases h with
  | write hw ht => exact hc.writes hw ht
  | read hr => exact hc.reads hr
  | wake hq => exact hc
  | rest hs hq => exact hc
  | request hs ht hh hw hio => exact hc.writes hw hio
  | response hs hi hf hp => exact hc.reads hf.reads
  | item hs hi ht hw hio => exact hc.writes hw hio
  | toBody hs hr hb hh => exact hc
  | toNext hs hr hb hh hu => exact hc
  | chunk hs hc' ho hn hl hr hne => obtain ⟨front, hr⟩ := hr; exact hc.reads hr
  | lastRead hs hc' hn hl hr he => obtain ⟨front, hr⟩ := hr; exact hc.reads hr
  | bodyEnd hs hc' => exact hc
  | bodyNext hs hc' hm hu => exact hc

omit [Crates] in
@[simp] theorem io_dropHandle (h : Handle) (c : Conn) : (c.dropHandle h).io = c.io := rfl

theorem Stop.sound {k : Halt IoError} {c c' : Conn} (h : Stop k c c') (hc : c.io.Sound) :
    c'.io.Sound := by
  cases h with
  | writePending hw ht hlt => exact hc.writes hw ht
  | writeFailed hw ht why => exact hc.writes hw ht
  | grow hr hg => exact hc.reads hr
  | awaitRequest hs hr hq hn => exact hc
  | requestFailed hs ht hw hio why => exact hc.writes hw hio
  | requestPanic hs ht why => exact hc
  | headPending hs hi hb hr hbl => exact hc.reads hr
  | headMissing hs hi hr why => exact hc.reads hr
  | headInvalid hs hi hf hp hk => exact hc.reads hf.reads
  | headPendingSent hs hi ht hr hw hio => exact (hc.reads hr).writes hw hio
  | bidirectPending hs hb => exact hc
  | noItem hs hi hr hq hn => exact hc
  | itemFailed hs hi ht hw hio why => exact hc.writes hw hio
  | bodyFull hs hc' hq hr ho => exact hc
  | limitPending hs hc' hn hl hr hw => obtain ⟨bs, hr⟩ := hr; exact hc.reads hr
  | limitFailed hs hc' hl hn hr hk why => obtain ⟨bs, hr⟩ := hr; exact hc.reads hr
  | noSize hs h0 => exact hc

/-- A move takes no request back. -/
theorem Move.driveWeight_le {c c' : Conn} (h : Move c c') : driveWeight c' ≤ driveWeight c := by
  cases h with
  | write hw ht => exact Nat.le_refl _
  | read hr => exact Nat.le_refl _
  | wake hq => exact Nat.le_refl _
  | rest hs hq => exact Nat.le_of_eq (by rw [driveWeight, driveWeight, hq.queue])
  | request hs ht hh hw hio =>
      rw [driveWeight, driveWeight, ht.queue, hs, List.length_cons]
      dsimp only
      omega
  | response hs hi hf hp => exact Nat.le_of_eq (by rw [driveWeight, driveWeight, hs]; rfl)
  | item hs hi ht hw hio => exact Nat.le_of_eq (by rw [driveWeight, driveWeight, hs])
  | toBody hs hr hb hh =>
      rw [driveWeight, driveWeight, hs]; exact Nat.add_le_add_left (Nat.le_succ _) _
  | toNext hs hr hb hh hu =>
      rw [driveWeight, driveWeight, hs]; exact Nat.add_le_add_left (Nat.zero_le _) _
  | chunk hs hc' ho hn hl hr hne => exact Nat.le_of_eq (by rw [driveWeight, driveWeight, hs])
  | lastRead hs hc' hn hl hr he => exact Nat.le_of_eq (by rw [driveWeight, driveWeight, hs])
  | bodyEnd hs hc' => exact Nat.le_refl _
  | bodyNext hs hc' hm hu =>
      rw [driveWeight, driveWeight, hs]; exact Nat.add_le_add_left (Nat.zero_le _) _

/-- Moves of the codec. -/
abbrev Moves : Conn → Conn → Prop := ReflTransGen Move

/-- The outcome of a poll of a part of the codec. -/
abbrev Ends {τ α : Type} (view : τ → Conn) (c : Conn) (Q : α → τ → Prop) :
    Outcome IoError α → τ → Prop := Comes Move Stop view c Q

/-- The state `RecvRes`, put back. -/
def viewRes (s : Bidirect × Conn) : Conn := { s.2 with state := .recvRes s.1 }

/-- The state `RecvBody`, put back. -/
def viewBody (s : BodyReceiver × Conn) : Conn := { s.2 with state := .recvBody s.1 }

variable {c c' : Conn} {cx : Waker}

theorem driveWeight_moves (h : Moves c c') : driveWeight c' ≤ driveWeight c :=
  moves_keep (I := fun c' => driveWeight c' ≤ driveWeight c)
    (fun _ _ hm h => Nat.le_trans hm.driveWeight_le h) h (Nat.le_refl _)

/-! ### Writing -/

theorem finishPending_moves (h : Sound c.io) :
    wp (pollIo BufIo.pollFinishPendingWrite) (Ends id c fun _ c' =>
      c'.io.Sound ∧ c'.io.canPollWrite = true ∧ c'.state = c.state ∧ c'.reqRx = c.reqRx) c := by
  rw [pollIo, wp_zoom]
  refine (pollFinishPendingWrite_spec h.txWf).mono fun r io hio => ?_
  cases r with
  | ready _ =>
      have ht := txWf_of_canPollWrite hio.2.1
      exact ⟨.single (.write hio.1 ht), h.writes hio.1 ht, hio.2.1, rfl, rfl⟩
  | pending =>
      obtain ⟨hw, ht, hp, hlt, -⟩ := hio
      exact ⟨c, .refl, .writePending hw ht hlt⟩
  | fail e =>
      obtain ⟨⟨front, hf, hw⟩, ht, hc⟩ := hio
      rw [List.prefix_nil.mp hf] at hw
      exact ⟨c, .refl, .writeFailed hw ht hc⟩
  | panic m => exact hio.elim
  | diverge => exact hio.elim

omit [Crates] in
theorem writeHttp1xReq_eq {σ : Type} (req : Request) (t : σ) :
    writeHttp1xReq req maxRequestSize t = (reqHead req, t) := by
  unfold reqHead writeHttp1xReq
  cases versionBytes req.version with
  | error m => rfl
  | ok ver =>
      simp only [orPanic, writeCursor, pure_bind]
      split <;> rfl

omit [Crates] in
theorem reqHead_cases (req : Request) :
    (∃ head, reqHead req = .ready head) ∨ (∃ e, reqHead req = .fail e) ∨
      reqHead req = .panic "Unsupported http version" := by
  unfold reqHead writeHttp1xReq
  cases hv : versionBytes req.version with
  | error m =>
      obtain rfl := versionBytes_error hv
      exact .inr (.inr rfl)
  | ok ver =>
      simp only [orPanic, writeCursor, pure_bind]
      split
      · exact .inl ⟨_, rfl⟩
      · exact .inr (.inl ⟨_, rfl⟩)

/-! ### `SendReq` -/

/-- The codec is done with a connection without requests. -/
def Unasked (c : Conn) : Prop :=
  c.state = .sendReq ∧ c.reqRx.queue = [] ∧ c.reqRx.senders = 0

theorem pollSendReq_moves (hs : c.state = .sendReq) (h : Sound c.io)
    (hcan : c.io.canPollWrite = true) :
    wp (pollSendReq cx) (fun r c' => match r with
      | .ready (some next) => Moves c { c' with state := next } ∧ c'.io.Sound ∧
          c'.state = .sendReq ∧ (∃ h, next = .recvRes h) ∧
          c'.reqRx.queue.length < c.reqRx.queue.length
      | .ready none => Moves c c' ∧ c'.io.Sound ∧ c'.io.canPollWrite = true ∧ Unasked c'
      | .pending => Stop .pending c c'
      | .fail e => Stop (.fail e) c c'
      | .panic m => Stop (.panic m) c c'
      | .diverge => False) c := by
  rw [pollSendReq, wp_bind, pollReqRx, wp_zoom]
  refine Chan.pollRecv_spec.mono fun r rx hr => ?_
  cases r with
  | pending => exact .awaitRequest hs hr.1 hr.2.1 hr.2.2
  | fail e => exact hr.elim
  | panic m => exact hr.elim
  | diverge => exact hr.elim
  | ready o =>
      cases o with
      | none =>
          obtain ⟨hq, hnil, h0⟩ := hr
          exact ⟨.single (.rest hs hq), h, hcan, hs, hq.queue.trans hnil, hq.senders.trans h0⟩
      | some handle =>
          dsimp only [bindPost]
          rw [wp_onExit, wp_bind]
          refine wp_of_eq (writeHttp1xReq_eq handle.req _) ?_
          have ht := txWf_of_canPollWrite hcan
          rcases reqHead_cases handle.req with ⟨head, hh⟩ | ⟨e, hh⟩ | hh
          · rw [hh]
            dsimp only [bindPost]
            rw [wp_bind, wp_get, bindPost, wp_bind, wp_assert, if_pos hcan, bindPost, wp_bind, wp_poll,
              pollIo, wp_zoom]
            refine (writeAll_spec hcan).mono fun r io hw => ?_
            have hlt : rx.queue.length < c.reqRx.queue.length := by
              rw [hr.queue]
              exact Nat.lt_succ_self _
            cases r with
            | ready _ =>
                have hio := txWf_of_canPollWrite hw.2.1
                exact ⟨.single (.request hs hr hh hw.1 hio), h.writes hw.1 hio, hs, ⟨_, rfl⟩, hlt⟩
            | pending =>
                exact ⟨.single (.request hs hr hh hw.1 hw.2.1), h.writes hw.1 hw.2.1, hs, ⟨_, rfl⟩, hlt⟩
            | fail e =>
                obtain ⟨⟨front, hf, hw⟩, hio, hc⟩ := hw
                exact .requestFailed hs hr hw hio (.inr hc)
            | panic m => exact hw.elim
            | diverge => exact hw.elim
          · rw [hh]
            exact .requestFailed hs hr (Writes.refl _) ht
              (.inl ⟨rfl, fun head h => by cases hh.symm.trans h⟩)
          · rw [hh]
            exact .requestPanic hs hr fun head h => by cases hh.symm.trans h

/-! ### `Bidirect` -/

variable {s : Bidirect × Conn}

omit [Crates] in
theorem deliver_eq {i : Nat} (res : Response) (hi : s.1.handle.resTx = some i) :
    deliver res s = (.ready (),
      (s.1.answered i res,
        { s.2 with
          res := (answered s.1 i res s.2).res
          resBody := (answered s.1 i res s.2).resBody
          complete := (answered s.1 i res s.2).complete
          answers := (answered s.1 i res s.2).answers })) := by
  have hsend : ∀ (a : Answer) (t : Bidirect × Conn),
      (onConn (pollRes i (Chan.send a)) : PollM IoError (Bidirect × Conn) Bool) t =
        (.ready (decide ((t.2.res i).receivers ≠ 0)), (t.1, t.2.onRes i fun r => r.offer a)) := by
    intro a t
    rw [onConn, run_zoom, pollRes, run_zoom, Chan.send_eq]
    rfl
  simp only [deliver, run_modify_bind, run_get_bind, hi, run_bind_ready (hsend _ _), run_modify]
  refine congrArg (Prod.mk _) (Prod.ext rfl ?_)
  simp only [Conn.onRes, Conn.onResBody, atId_atId, answered]
  rfl

omit [Crates] in
theorem viewRes_answered {i : Nat} (res : Response) :
    viewRes (s.1.answered i res, { s.2 with
      res := (answered s.1 i res s.2).res
      resBody := (answered s.1 i res s.2).resBody
      complete := (answered s.1 i res s.2).complete
      answers := (answered s.1 i res s.2).answers }) = answered s.1 i res s.2 := rfl

variable [VecAlloc]

theorem pollResponse_moves {i : Nat} (h : Sound s.2.io) (hi : s.1.handle.resTx = some i) :
    wp pollResponse (fun r s' => match r with
      | .ready _ => Move (viewRes s) (viewRes s') ∧ s'.1.handle.resTx = none ∧
          s'.1.handle.bodyRx = s.1.handle.bodyRx ∧ s'.2.reqBody = s.2.reqBody ∧ s'.2.io.Sound ∧
          s'.2.io.canPollWrite = s.2.io.canPollWrite
      | .pending => ∃ io, s' = (s.1, { s.2 with io := io }) ∧ Reads [] s.2.io io ∧
          Blocked s.2.io io
      | .fail e => Stop (.fail e) (viewRes s) (viewRes s')
      | .panic m => Stop (.panic m) (viewRes s) (viewRes s')
      | .diverge => False) s := by
  have hne : s.1.handle.resTx ≠ none := by
    rw [hi]
    exact Option.some_ne_none i
  rw [pollResponse, wp_bind, onConn, wp_zoom, pollIo, wp_zoom]
  refine (pollForCrlfcrlf_spec h.wf).mono fun r io hio => ?_
  cases r with
  | pending => exact ⟨io, rfl, hio.1, hio.2.1⟩
  | panic m => exact .grow (c := viewRes s) hio.1.reads hio.1.grows hio.1.msg
  | diverge => exact hio.elim
  | fail e => exact .headMissing (c := viewRes s) (h := s.1) rfl hne hio.1 hio.2
  | ready ret =>
      obtain ⟨head, eos, rfl, hf⟩ := hio
      cases hp : tryParseRes head eos with
      | error e =>
          exact .headInvalid (c := viewRes s) (h := s.1) rfl hne hf
            (fun res h => by cases hp.symm.trans h) (by simp) (by simp)
      | ok res =>
          cases res with
          | none =>
              exact .headInvalid (c := viewRes s) (h := s.1) rfl hne hf
                (fun res h => by cases hp.symm.trans h) (by simp) fun m h => (Halt.panic.inj h).symm
          | some res =>
              dsimp only [bindPost, lift]
              refine wp_of_eq (deliver_eq (s := (s.1, { s.2 with io := io })) res hi) ?_
              exact ⟨.response (c := viewRes s) (h := s.1) rfl hi hf hp, rfl, rfl, rfl,
                h.reads hf.reads, hf.reads.canPollWrite⟩

omit [Crates] [VecAlloc] in
/-- What is put back of the request's body after an item. -/
theorem onReqBody_item {c : Conn} {i : Nat} {rx : Chan (Bytes × Bool)} :
    (c.onReqBody i fun _ => rx).onReqBody i Chan.dropReceiver =
      c.onReqBody i fun _ => rx.dropReceiver := by
  rw [Conn.onReqBody, Conn.onReqBody, Conn.onReqBody, atId_atId]

/-- What a `poll_send_body` comes to. -/
def SendBodyPost (i : Nat) (s : Bidirect × Conn) : Outcome IoError Unit → Bidirect × Conn → Prop
  | .ready _, s' => ∃ bs fin rx io, (s.2.reqBody i).Takes (bs, fin) rx ∧ Writes bs s.2.io io ∧
      io.canPollWrite = true ∧
      s' = (s.1.sent i fin,
        { s.2 with io := io, reqBody := atId s.2.reqBody i fun _ => afterItem fin rx })
  | .pending, s' => (∃ rx, (s.2.reqBody i).Quiet rx ∧
        s' = (s.1, { s.2 with reqBody := atId s.2.reqBody i fun _ => rx })) ∨
      ∃ bs fin rx io, (s.2.reqBody i).Takes (bs, fin) rx ∧ Writes bs s.2.io io ∧ io.TxWf ∧
        io.pendingTx = true ∧ s' = (s.1.sent i fin,
          { s.2 with io := io, reqBody := atId s.2.reqBody i fun _ => afterItem fin rx })
  | .fail e, s' => Stop (.fail e) (viewRes s) (viewRes s')
  | .panic m, s' => Stop (.panic m) (viewRes s) (viewRes s')
  | .diverge, _ => False

omit [VecAlloc] in
theorem pollSendBody_moves {i : Nat} (hi : s.1.handle.bodyRx = some i)
    (hcan : s.2.io.canPollWrite = true) : wp (pollSendBody cx) (SendBodyPost i s) s := by
  rw [pollSendBody, wp_bind, wp_get, bindPost, hi]
  dsimp only
  rw [wp_bind, onConn, wp_zoom, pollReqBody, wp_zoom]
  refine Chan.pollRecv_spec.mono fun r rx hr => ?_
  cases r with
  | pending => exact .inl ⟨rx, hr.1, rfl⟩
  | fail e => exact hr.elim
  | panic m => exact hr.elim
  | diverge => exact hr.elim
  | ready o =>
      cases o with
      | none => exact .noItem (c := viewRes s) (h := s.1) rfl hi hr.1 hr.2.1 hr.2.2
      | some item =>
          obtain ⟨bs, fin⟩ := item
          have key : ∀ t : Bidirect × Conn, t = (s.1.sent i fin,
              { s.2 with reqBody := atId s.2.reqBody i fun _ => afterItem fin rx }) →
              wp (onConn (pollIo (BufIo.writeAll bs fin))) (SendBodyPost i s) t := by
            intro t ht
            subst ht
            rw [onConn, wp_zoom, pollIo, wp_zoom]
            refine (writeAll_spec hcan).mono fun r io hw => ?_
            cases r with
            | ready _ => exact ⟨bs, fin, rx, io, hr, hw.1, hw.2.1, rfl⟩
            | pending => exact .inr ⟨bs, fin, rx, io, hr, hw.1, hw.2.1, hw.2.2.1, rfl⟩
            | fail e =>
                obtain ⟨⟨front, hf, hw⟩, hio, hc⟩ := hw
                exact .itemFailed (c := viewRes s) (h := s.1) rfl hi hr hw hio hc
            | panic m => exact hw.elim
            | diverge => exact hw.elim
          dsimp only [bindPost]
          rw [wp_bind, wp_get, bindPost, wp_bind, wp_assert,
            if_pos (show (s.2.onReqBody i fun _ => rx).io.canPollWrite = true from hcan), bindPost]
          cases fin with
          | true =>
              rw [if_pos rfl, wp_bind, wp_modify, bindPost]
              refine key _ ?_
              rw [onReqBody_item]
              rfl
          | false =>
              rw [if_neg Bool.false_ne_true]
              refine key _ ?_
              rw [Bidirect.sent, ← hi]
              rfl

/-- What the rounds of `poll_bidirect` keep: nothing is being written. -/
def Ready (s : Bidirect × Conn) : Prop := s.2.io.Sound ∧ s.2.io.canPollWrite = true

theorem resTxPending_moves (h : Sound s.2.io) :
    wp resTxPending (fun r s' => match r with
      | .ready true => s.1.handle.resTx ≠ none ∧ ∃ io, s' = (s.1, { s.2 with io := io }) ∧
          Reads [] s.2.io io ∧ Blocked s.2.io io
      | .ready false => Moves (viewRes s) (viewRes s') ∧ s'.1.handle.resTx = none ∧
          s'.1.handle.bodyRx = s.1.handle.bodyRx ∧ s'.2.reqBody = s.2.reqBody ∧ s'.2.io.Sound ∧
          s'.2.io.canPollWrite = s.2.io.canPollWrite
      | .pending => False
      | .fail e => Stop (.fail e) (viewRes s) (viewRes s')
      | .panic m => Stop (.panic m) (viewRes s) (viewRes s')
      | .diverge => False) s := by
  rw [resTxPending, wp_bind, wp_get, bindPost]
  cases hi : s.1.handle.resTx with
  | none => exact ⟨.refl, hi, rfl, rfl, h, rfl⟩
  | some i =>
      rw [Option.isSome_some, if_pos rfl, wp_map, wp_poll]
      refine (pollResponse_moves h hi).mono fun r s' hs => ?_
      cases r with
      | ready _ => exact ⟨.single hs.1, hs.2⟩
      | pending => exact ⟨Option.some_ne_none i, hs⟩
      | fail e => exact hs
      | panic m => exact hs
      | diverge => exact hs

omit [VecAlloc] in
theorem bodyTxPending_moves (h : s.1.handle.bodyRx ≠ none → s.2.io.canPollWrite = true) :
    wp (bodyTxPending cx) (fun r s' => match r with
      | .ready true => ∃ i, s.1.handle.bodyRx = some i ∧ SendBodyPost i s .pending s'
      | .ready false => s.1.handle.bodyRx = none ∧ s' = s ∨
          ∃ i, s.1.handle.bodyRx = some i ∧ SendBodyPost i s (.ready ()) s'
      | .pending => False
      | .fail e => Stop (.fail e) (viewRes s) (viewRes s')
      | .panic m => Stop (.panic m) (viewRes s) (viewRes s')
      | .diverge => False) s := by
  rw [bodyTxPending, wp_bind, wp_get, bindPost]
  cases hi : s.1.handle.bodyRx with
  | none => exact .inl ⟨rfl, rfl⟩
  | some i =>
      rw [Option.isSome_some, if_pos rfl, wp_map, wp_poll]
      refine (pollSendBody_moves hi (h (hi ▸ Option.some_ne_none i))).mono fun r s' hs => ?_
      cases r with
      | ready _ => exact .inr ⟨i, rfl, hs⟩
      | pending => exact ⟨i, rfl, hs⟩
      | fail e => exact hs
      | panic m => exact hs
      | diverge => exact hs

omit [VecAlloc] in
/-- An item that is sent is a move. -/
theorem SendBodyPost.moves {i : Nat} {s' : Bidirect × Conn} (h : SendBodyPost i s (.ready ()) s')
    (hi : s.1.handle.bodyRx = some i) (hs : Sound s.2.io) :
    Move (viewRes s) (viewRes s') ∧ Ready s' ∧ s'.1.handle.resTx = s.1.handle.resTx ∧
      bidirectWeight s' < bidirectWeight s := by
  obtain ⟨bs, fin, rx, io, ht, hw, hcan, rfl⟩ := h
  have hio := txWf_of_canPollWrite hcan
  refine ⟨.item (c := viewRes s) (h := s.1) rfl hi ht hw hio,
    ⟨hs.writes hw hio, hcan⟩, rfl, ?_⟩
  rw [bidirectWeight, bidirectWeight, hi]
  have hq : (s.2.reqBody i).queue.length = rx.queue.length + 1 := by
    rw [ht.queue]
    rfl
  cases fin with
  | true =>
      show _ + 0 < _ + (1 + (s.2.reqBody i).queue.length)
      exact Nat.add_lt_add_left (by rw [hq]; exact Nat.succ_pos _) _
  | false =>
      show _ + (1 + (atId s.2.reqBody i _ i).queue.length) < _ + (1 + (s.2.reqBody i).queue.length)
      rw [atId_self, hq]
      exact Nat.add_lt_add_left (Nat.lt_succ_self _) _

omit [VecAlloc] in
/-- A body that is not sent yet stops the poll. -/
theorem SendBodyPost.stops {i : Nat} {s' : Bidirect × Conn} (h : SendBodyPost i s .pending s')
    (hi : s.1.handle.bodyRx = some i) :
    Moves (viewRes s) (viewRes s') ∧ Stop .pending (viewRes s') (viewRes s') := by
  rcases h with ⟨rx, hq, rfl⟩ | ⟨bs, fin, rx, io, ht, hw, hio, hp, rfl⟩
  · refine ⟨.single (.wake (c := viewRes s) hq), .bidirectPending (h := s.1) rfl (.inl ?_)⟩
    rw [hi]
    exact Option.some_ne_none i
  · refine ⟨.single (.item (c := viewRes s) (h := s.1) rfl hi ht hw hio),
      .bidirectPending (h := s.1.sent i fin) rfl (.inr ?_)⟩
    show io.canPollWrite = false
    rw [BufIo.canPollWrite, hp]
    simp

theorem bidirectRound_moves (h : Ready s) :
    wp (bidirectRound cx ()) (roundPost
      (fun _ s' => Moves (viewRes s) (viewRes s') ∧ Ready s' ∧ bidirectWeight s' < bidirectWeight s)
      (Ends viewRes (viewRes s) fun _ s' =>
        Ready s' ∧ s'.1.handle.resTx = none ∧ s'.1.handle.bodyRx = none)) s := by
  rw [bidirectRound, wp_bind, wp_get, bindPost, wp_ite]
  split
  · next hdone =>
    rw [Bool.and_eq_true, Option.isNone_iff_eq_none, Option.isNone_iff_eq_none] at hdone
    exact ⟨.refl, h, hdone⟩
  · next hdone =>
    rw [wp_bind]
    refine (resTxPending_moves h.1).mono fun r s₁ hs => ?_
    cases r with
    | pending => exact hs.elim
    | fail e => exact ⟨_, .refl, hs⟩
    | panic m => exact ⟨_, .refl, hs⟩
    | diverge => exact hs.elim
    | ready b =>
        cases b with
        | true =>
            obtain ⟨hres, io, rfl, hr, hbl⟩ := hs
            have hmv : Moves (viewRes s) (viewRes (s.1, { s.2 with io := io })) := .single (.read hr)
            dsimp only [bindPost]
            rw [wp_bind]
            refine (bodyTxPending_moves (s := (s.1, { s.2 with io := io }))
              fun _ => hr.canPollWrite.trans h.2).mono fun r s₂ hs₂ => ?_
            cases r with
            | pending => exact hs₂.elim
            | fail e => exact ⟨_, hmv, hs₂⟩
            | panic m => exact ⟨_, hmv, hs₂⟩
            | diverge => exact hs₂.elim
            | ready b =>
                cases b with
                | true =>
                    obtain ⟨i, hi, hp⟩ := hs₂
                    have hst := hp.stops hi
                    dsimp only [bindPost]
                    rw [wp_bind, wp_get, bindPost, wp_ite, if_pos (by simp)]
                    exact ⟨_, hmv.trans hst.1, hst.2⟩
                | false =>
                    dsimp only [bindPost]
                    rw [wp_bind, wp_get, bindPost, wp_ite]
                    rcases hs₂ with ⟨hb, rfl⟩ | ⟨i, hi, hp⟩
                    · -- The body is sent, and the response is awaited.
                      rw [if_pos (by simp [show s.1.handle.bodyRx = none from hb])]
                      exact ⟨_, .refl, .headPending (c := viewRes s) (h := s.1) rfl hres hb hr hbl⟩
                    · split
                      · next hpend =>
                        obtain ⟨bs, fin, rx, io', ht, hw, hcan, rfl⟩ := hp
                        cases fin with
                        | false => simp [Bidirect.sent] at hpend
                        | true =>
                            exact ⟨_, .refl, .headPendingSent (c := viewRes s) (h := s.1) rfl hi ht hr hw
                              (txWf_of_canPollWrite hcan)⟩
                      · have hm := hp.moves hi (h.1.reads hr)
                        exact ⟨hmv.tail hm.1, hm.2.1, hm.2.2.2⟩
        | false =>
            obtain ⟨hm, hres, hb, hrb, hio, hcan⟩ := hs
            dsimp only [bindPost]
            rw [wp_bind]
            have hle : bidirectWeight s₁ ≤ bidirectWeight s := by
              rw [bidirectWeight, bidirectWeight, hb, hrb, hres]
              exact Nat.add_le_add_right (Nat.zero_le _) _
            refine (bodyTxPending_moves (s := s₁) fun _ => hcan.trans h.2).mono fun r s₂ hs₂ => ?_
            cases r with
            | pending => exact hs₂.elim
            | fail e => exact ⟨_, hm, hs₂⟩
            | panic m => exact ⟨_, hm, hs₂⟩
            | diverge => exact hs₂.elim
            | ready b =>
                cases b with
                | true =>
                    obtain ⟨i, hi, hp⟩ := hs₂
                    have hst := hp.stops hi
                    have hres₂ : s₂.1.handle.resTx = none := by
                      rcases hp with ⟨rx, -, rfl⟩ | ⟨bs, fin, rx, io, -, -, -, -, rfl⟩
                      · exact hres
                      · exact hres
                    dsimp only [bindPost]
                    rw [wp_bind, wp_get, bindPost, wp_ite, if_pos (by simp [hres₂])]
                    exact ⟨_, hm.trans hst.1, hst.2⟩
                | false =>
                    dsimp only [bindPost]
                    rw [wp_bind, wp_get, bindPost, wp_ite, if_neg (by simp)]
                    rcases hs₂ with ⟨hb₁, rfl⟩ | ⟨i, hi, hp⟩
                    · -- No body is sent, so the response has just been received.
                      show _ ∧ Ready s₂ ∧ bidirectWeight s₂ < bidirectWeight s
                      refine ⟨hm, ⟨hio, hcan.trans h.2⟩, ?_⟩
                      have hres₀ : s.1.handle.resTx.isSome = true := by
                        rw [← hb, hb₁] at hdone
                        simpa [Option.isSome_iff_ne_none] using hdone
                      rw [bidirectWeight, bidirectWeight, hres, ← hb, hb₁, if_pos hres₀]
                      exact Nat.zero_lt_one
                    · have hm₂ := hp.moves hi hio
                      exact ⟨hm.tail hm₂.1, hm₂.2.1, Nat.lt_of_lt_of_le hm₂.2.2.2 hle⟩

/-- `Bidirect`, left for the next state if there is one. -/
def leaveRes (s : Bidirect × Conn) : Option State → Conn
  | some next => { s.2 with state := next }
  | none => viewRes s

/-- What comes of `RecvRes`: less to do than in `c`, or nothing. -/
def AfterRes (c : Conn) (next : Option State) (s : Bidirect × Conn) : Prop :=
  match next with
  | some _ => driveWeight (leaveRes s next) < driveWeight c
  | none => s.1.handle.resTx = none ∧ s.1.handle.bodyRx = none ∧ s.1.holder = none ∧
      s.1.allowsReuse = false

omit [VecAlloc] in
theorem afterBidirect_moves (hr : s.1.handle.resTx = none) (hb : s.1.handle.bodyRx = none) :
    ∃ next s', afterBidirect s = (.ready next, s') ∧ s'.2 = s.2 ∧ AfterRes (viewRes s) next s' ∧
      Moves (viewRes s) (leaveRes s' next) := by
  rw [afterBidirect, run_get_bind]
  cases hh : s.1.holder with
  | some p =>
      obtain ⟨i, limit⟩ := p
      exact ⟨some (.recvBody (s.1.receiving i limit)), _, rfl, rfl,
        Nat.add_lt_add_left Nat.one_lt_two _,
        .single (.toBody (c := viewRes s) (h := s.1) rfl hr hb hh)⟩
  | none =>
      dsimp only
      rw [run_ite]
      split
      · next hu =>
        exact ⟨some .sendReq, s, rfl, rfl, Nat.add_lt_add_left Nat.zero_lt_two _,
          .single (.toNext (c := viewRes s) (h := s.1) rfl hr hb hh hu)⟩
      · next hu => exact ⟨none, s, rfl, rfl, ⟨hr, hb, hh, Bool.not_eq_true _ ▸ hu⟩, .refl⟩

/-- How a state is left: for the next, or for none. -/
def Leaves {τ : Type} (view : τ → Conn) (leave : τ → Option State → Conn) (c : Conn)
    (Q : Option State → τ → Prop) : Outcome IoError (Option State) → τ → Prop
  | .ready next, t => Moves c (leave t next) ∧ Q next t
  | .pending, t => ∃ c', Moves c c' ∧ Stop .pending c' (view t)
  | .fail e, t => ∃ c', Moves c c' ∧ Stop (.fail e) c' (view t)
  | .panic m, t => ∃ c', Moves c c' ∧ Stop (.panic m) c' (view t)
  | .diverge, _ => False

omit [VecAlloc] in
theorem Leaves.after {τ : Type} {view : τ → Conn} {leave : τ → Option State → Conn} {c c' : Conn}
    {Q : Option State → τ → Prop} {r : Outcome IoError (Option State)} {t : τ} (hm : Moves c c')
    (h : Leaves view leave c' Q r t) : Leaves view leave c Q r t := by
  cases r with
  | ready next => exact ⟨hm.trans h.1, h.2⟩
  | pending => exact h.imp fun _ h => ⟨hm.trans h.1, h.2⟩
  | fail e => exact h.imp fun _ h => ⟨hm.trans h.1, h.2⟩
  | panic m => exact h.imp fun _ h => ⟨hm.trans h.1, h.2⟩
  | diverge => exact h

theorem pollBidirect_moves (h : Ready s) : wp (pollBidirect cx)
    (Leaves viewRes leaveRes (viewRes s) fun next s' =>
      Ready s' ∧ AfterRes (viewRes s) next s') s := by
  rw [pollBidirect, wp_bind]
  refine (wp_moves_loop (M := Move) (P := fun c => Ends viewRes c _) (I := fun _ => Ready)
    (fun _ _ _ _ hm h => Comes.after hm h) (fun _ _ h => bidirectRound_moves h) h).mono
    fun r s₁ hs => ?_
  cases r with
  | pending => exact hs
  | fail e => exact hs
  | panic m => exact hs
  | diverge => exact hs.elim
  | ready _ =>
      obtain ⟨hm, hrd, hr, hb⟩ := hs
      obtain ⟨next, s₂, hx, hio, ha, hm₂⟩ := afterBidirect_moves hr hb
      have hnext : AfterRes (viewRes s) next s₂ := by
        cases next with
        | none => exact ha
        | some next => exact Nat.lt_of_lt_of_le ha (driveWeight_moves hm)
      have hio₂ : Ready s₂ := ⟨hio ▸ hrd.1, hio ▸ hrd.2⟩
      show Leaves viewRes leaveRes (viewRes s) _ (afterBidirect s₁).1 (afterBidirect s₁).2
      rw [hx]
      exact ⟨hm.trans hm₂, hio₂, hnext⟩

/-! ### `BodyReceiver` -/

section BodyReceiver
variable {s : BodyReceiver × Conn}

omit [Crates] [VecAlloc] in
theorem readBodyWeight_eq :
    readBodyWeight s = s.2.io.weight + if s.1.limit.isComplete then 0 else 1 := rfl

theorem readBodyRound_moves (h : Sound s.2.io) (hcan : s.2.io.canPollWrite = true) :
    wp (readBodyRound cx ()) (roundPost
      (fun _ s' => Moves (viewBody s) (viewBody s') ∧
        (s'.2.io.Sound ∧ s'.2.io.canPollWrite = true) ∧ readBodyWeight s' < readBodyWeight s)
      (Ends viewBody (viewBody s) fun _ s' =>
        (s'.2.io.Sound ∧ s'.2.io.canPollWrite = true) ∧ s'.1.limit.isComplete = true)) s := by
  rw [readBodyRound, wp_bind, wp_get, bindPost, wp_ite]
  split
  · next hc => exact ⟨.refl, ⟨h, hcan⟩, hc⟩
  · next hc =>
    rw [Bool.not_eq_true] at hc
    rw [wp_bind, wp_get, bindPost, wp_bind, onConn, wp_zoom, pollResBody, wp_zoom]
    refine Chan.pollReady_spec.mono fun r body hr => ?_
    cases r with
    | pending =>
        exact ⟨_, .refl, .bodyFull (c := viewBody s) (h := s.1) rfl hc hr.1 hr.2.1 hr.2.2⟩
    | fail e => exact hr.elim
    | panic m => exact hr.elim
    | diverge => exact hr.elim
    | ready b =>
        obtain ⟨rfl, hb⟩ := hr
        have ho : (s.2.resBody s.1.bodyTx).Open ∨ (s.2.resBody s.1.bodyTx).receivers = 0 := by
          cases b with
          | true => exact .inl hb
          | false => exact .inr hb
        have hsame : s.2.onResBody s.1.bodyTx (fun _ => s.2.resBody s.1.bodyTx) = s.2 := by
          rw [Conn.onResBody, atId, Function.update_eq_self]
        dsimp only [bindPost]
        rw [hsame, wp_bind, wp_get, bindPost, wp_bind]
        by_cases h0 : s.1.curReadSize = 0
        · rw [FastBuf.borrow,
            if_pos (show (FastBuf.withCapacity s.1.curReadSize).capacity = 0 from h0)]
          exact ⟨_, .refl, .noSize (c := viewBody s) (h := s.1) rfl h0⟩
        · rw [FastBuf.borrow_withCapacity (Nat.pos_of_ne_zero h0)]
          dsimp only [orPanic]
          rw [wp_pure, bindPost, wp_bind, readLimit, wp_zoom]
          refine wp_intro fun r t hl => ?_
          obtain ⟨limit, io⟩ := t
          have hm := wp_elim (LimitRead.pollRead_moves s.1.limit h.wf h0) hl
          cases r with
          | pending =>
              exact ⟨_, .refl, .limitPending (c := viewBody s) (h := s.1) rfl hc h0 hl hm.1 hm.2⟩
          | fail e =>
              exact ⟨_, .refl, .limitFailed (c := viewBody s) (h := s.1) rfl hc hl h0 hm (by simp)
                ⟨by simp, by simp⟩ (by simp)⟩
          | panic m =>
              exact ⟨_, .refl, .limitFailed (c := viewBody s) (h := s.1) rfl hc hl h0 hm.1 (by simp)
                ⟨by simp, by simp⟩ fun m' h => Halt.panic.inj h ▸ hm.2⟩
          | diverge => exact hm.elim
          | ready bs =>
              obtain ⟨hle, front, hr⟩ := hm
              have hio : io.Sound ∧ io.canPollWrite = true :=
                ⟨h.reads hr, hr.canPollWrite.trans hcan⟩
              have hwt : io.weight + (front ++ bs).length ≤ s.2.io.weight := hr.weight
              rw [List.length_append] at hwt
              dsimp only [bindPost]
              rw [wp_ite]
              split
              · next hpos =>
                rw [wp_bind, onConn, wp_zoom, pollResBody, wp_zoom]
                refine wp_of_eq (Chan.send_eq _) ?_
                refine ⟨.single (.chunk (c := viewBody s) (h := s.1) rfl hc ho h0 hl ⟨front, hr⟩
                  (List.length_pos_iff.mp hpos)), hio, ?_⟩
                rw [readBodyWeight_eq, readBodyWeight_eq, hc]
                show io.weight + (if limit.isComplete then 0 else 1) < s.2.io.weight + 1
                split <;> omega
              · next hpos =>
                obtain rfl : bs = [] := List.length_eq_zero_iff.mp (Nat.le_zero.mp (Nat.not_lt.mp hpos))
                rw [List.append_nil] at hr
                rw [wp_bind, wp_get, bindPost, wp_ite]
                split
                · next hn =>
                  exact ⟨_, .refl, .limitFailed (c := viewBody s) (h := s.1) rfl hc hl h0 ⟨_, hr⟩
                    (by simp)
                    ⟨by simp, fun bs hbs => ⟨(Outcome.ready.inj hbs).symm, by simpa using hn⟩⟩
                    (by simp)⟩
                · next hn =>
                  have he : limit.isComplete = true := by simpa using hn
                  refine ⟨.single (.lastRead (c := viewBody s) (h := s.1) rfl hc h0 hl ⟨_, hr⟩ he),
                    hio, ?_⟩
                  rw [readBodyWeight_eq, readBodyWeight_eq, hc]
                  show io.weight + (if limit.isComplete then 0 else 1) < s.2.io.weight + 1
                  rw [if_pos he]
                  omega

/-- `BodyReceiver`, left for the next state if there is one: the sender of the body goes with it. -/
def leaveBody (s : BodyReceiver × Conn) : Option State → Conn
  | some next => { s.2 with state := next, resBody := atId s.2.resBody s.1.bodyTx Chan.dropSender }
  | none => viewBody s

/-- What comes of `RecvBody`: less to do than in `c`, or nothing. -/
def AfterBody (c : Conn) (next : Option State) (s : BodyReceiver × Conn) : Prop :=
  match next with
  | some _ => driveWeight (leaveBody s next) < driveWeight c
  | none => s.1.limit.isComplete = true ∧ s.1.bodyTx ∈ s.2.complete ∧ s.1.allowsReuse = false

theorem pollReadBody_moves (h : Sound s.2.io) (hcan : s.2.io.canPollWrite = true) :
    wp (pollReadBody cx) (Leaves viewBody leaveBody (viewBody s) fun next s' =>
      (s'.2.io.Sound ∧ s'.2.io.canPollWrite = true) ∧ AfterBody (viewBody s) next s') s := by
  rw [pollReadBody, wp_bind]
  refine (wp_moves_loop (M := Move) (P := fun c => Ends viewBody c _)
    (I := fun _ s => s.2.io.Sound ∧ s.2.io.canPollWrite = true)
    (fun _ _ _ _ hm h => Comes.after hm h) (fun _ _ h => readBodyRound_moves h.1 h.2)
    ⟨h, hcan⟩).mono fun r s₁ hs => ?_
  cases r with
  | pending => exact hs
  | fail e => exact hs
  | panic m => exact hs
  | diverge => exact hs.elim
  | ready _ =>
      obtain ⟨hm, hio, hc⟩ := hs
      have hm₁ := hm.tail (.bodyEnd (c := viewBody s₁) (h := s₁.1) rfl hc)
      dsimp only [bindPost]
      rw [wp_bind, wp_get, bindPost, wp_bind, wp_modify, bindPost, wp_ite]
      split
      · next hu =>
        refine ⟨hm₁.tail (.bodyNext (h := s₁.1) rfl hc List.mem_cons_self hu), hio,
          Nat.lt_of_lt_of_le ?_ (driveWeight_moves hm)⟩
        exact Nat.add_lt_add_left Nat.zero_lt_one _
      · next hu => exact ⟨hm₁, hio, hc, List.mem_cons_self, Bool.not_eq_true _ ▸ hu⟩

end BodyReceiver

/-! ### `Codec` -/

/-- The codec is done with the connection. -/
inductive Done (c : Conn) : Prop where
  | unasked (h : Unasked c)
  | response {h : Bidirect} (hs : c.state = .recvRes h) (hr : h.handle.resTx = none)
      (hb : h.handle.bodyRx = none) (hh : h.holder = none) (hu : h.allowsReuse = false)
  | body {h : BodyReceiver} (hs : c.state = .recvBody h) (hc : h.limit.isComplete = true)
      (hm : h.bodyTx ∈ c.complete) (hu : h.allowsReuse = false)

theorem driveRound_moves (h : c.io.Sound) :
    wp (driveRound cx ()) (roundPost
      (fun _ c' => Moves c c' ∧ c'.io.Sound ∧ driveWeight c' < driveWeight c)
      (Ends id c fun _ c' => c'.io.canPollWrite = true ∧ Done c')) c := by
  rw [driveRound, wp_bind]
  refine (finishPending_moves h).mono fun r c₁ hs => ?_
  cases r with
  | pending => exact hs
  | fail e => exact hs
  | panic m => exact hs
  | diverge => exact hs.elim
  | ready _ =>
      obtain ⟨hm, hio, hcan, -, -⟩ := hs
      have hle : driveWeight c₁ ≤ driveWeight c := driveWeight_moves hm
      dsimp only [bindPost]
      rw [wp_bind, wp_get, bindPost]
      cases hst : c₁.state with
      | sendReq =>
          dsimp only
          rw [wp_bind]
          refine (pollSendReq_moves hst hio hcan).mono fun r c₂ hs => ?_
          cases r with
          | pending => exact ⟨c₁, hm, hs⟩
          | fail e => exact ⟨c₁, hm, hs⟩
          | panic m => exact ⟨c₁, hm, hs⟩
          | diverge => exact hs.elim
          | ready o =>
              cases o with
              | none => exact ⟨hm.trans hs.1, hs.2.2.1, .unasked hs.2.2.2⟩
              | some next =>
                  obtain ⟨hm₂, hio₂, hst₂, ⟨h, rfl⟩, hlt⟩ := hs
                  dsimp only [bindPost]
                  rw [wp_bind, wp_get, bindPost, hst₂]
                  have hlt' : driveWeight { c₂ with state := .recvRes h } < driveWeight c₁ := by
                    rw [driveWeight, driveWeight, hst]
                    dsimp only
                    omega
                  exact ⟨hm.trans hm₂, hio₂, Nat.lt_of_lt_of_le hlt' hle⟩
      | recvRes h =>
          dsimp only
          rw [wp_bind, wp_zoom]
          have hview : viewRes (h, c₁) = c₁ := by rw [viewRes, ← hst]
          refine (pollBidirect_moves (s := (h, c₁)) ⟨hio, hcan⟩).mono fun r s hs => ?_
          have hs := hs.after (hview ▸ hm)
          cases r with
          | pending => exact hs
          | fail e => exact hs
          | panic m => exact hs
          | diverge => exact hs.elim
          | ready o =>
              cases o with
              | none =>
                  obtain ⟨hm₂, hio₂, hr, hb, hh, hu⟩ := hs
                  exact ⟨hm₂, hio₂.2, .response (h := s.1) rfl hr hb hh hu⟩
              | some next =>
                  obtain ⟨hm₂, hio₂, hlt⟩ := hs
                  exact ⟨hm₂, hio₂.1, Nat.lt_of_lt_of_le (hview ▸ hlt) hle⟩
      | recvBody h =>
          dsimp only
          rw [wp_bind, wp_zoom]
          have hview : viewBody (h, c₁) = c₁ := by rw [viewBody, ← hst]
          refine (pollReadBody_moves (s := (h, c₁)) hio hcan).mono fun r s hs => ?_
          have hs := hs.after (hview ▸ hm)
          cases r with
          | pending => exact hs
          | fail e => exact hs
          | panic m => exact hs
          | diverge => exact hs.elim
          | ready o =>
              cases o with
              | none =>
                  obtain ⟨hm₂, hio₂, hc, hmem, hu⟩ := hs
                  exact ⟨hm₂, hio₂.2, .body (h := s.1) rfl hc hmem hu⟩
              | some next =>
                  obtain ⟨hm₂, hio₂, hlt⟩ := hs
                  exact ⟨hm₂, hio₂.1, Nat.lt_of_lt_of_le (hview ▸ hlt) hle⟩

theorem drive_moves (h : c.io.Sound) :
    wp (drive cx) (Ends id c fun _ c' => c'.io.canPollWrite = true ∧ Done c') c :=
  wp_moves_loop (M := Move) (P := fun c => Ends id c _) (I := fun _ c => c.io.Sound)
    (fun _ _ _ _ hm h => Comes.after hm h) (fun _ _ h => driveRound_moves h) h

/-- The outcome of a poll of the codec. -/
def ClientPost (c : Conn) : Outcome IoError Unit → Conn → Prop
  | .ready _, c' => Moves c c' ∧ Done c'
  | .pending, c' => ∃ c₁, Moves c c₁ ∧ Stop .pending c₁ c'
  | .fail e, c' => ∃ c₁ c₂, Moves c c₁ ∧ Stop (.fail e) c₁ c₂ ∧ c' = tryForwardError e c₂
  | .panic m, c' => ∃ c₁, Moves c c₁ ∧ Stop (.panic m) c₁ c'
  | .diverge, _ => False

/-- **What a poll of the codec does.** -/
theorem pollClient_moves (h : c.io.Sound) : wp (pollClient cx) (ClientPost c) c := by
  have hd : wp (drive cx) _ c := drive_moves h
  rw [wp] at hd
  rw [wp, pollClient]
  rcases hx : drive cx c with ⟨r, c'⟩
  rw [hx] at hd
  cases r with
  | ready _ => exact ⟨hd.1, hd.2.2⟩
  | pending => exact hd
  | fail e =>
      obtain ⟨c₁, hm, hs⟩ := hd
      exact ⟨c₁, c', hm, hs, rfl⟩
  | panic m => exact hd
  | diverge => exact hd.elim

/-- A connection that is complete has written all it was given. -/
theorem pollClient_written (h : c.io.Sound) (hx : pollClient cx c = (.ready (), c')) :
    c'.io.backlog = [] := by
  have hd : wp (drive cx) _ c := drive_moves h
  rw [wp] at hd
  rw [pollClient] at hx
  rcases hy : drive cx c with ⟨r, c₁⟩
  rw [hy] at hd hx
  cases r with
  | ready _ =>
      obtain rfl := (Prod.mk.inj hx).2
      rw [BufIo.backlog, (canPollWrite_iff.mp hd.2.1).1]
      rfl
  | _ => cases (Prod.mk.inj hx).1

omit [VecAlloc] in
/-- What moves, stops and a forwarded error keep, a poll of the codec keeps. -/
theorem ClientPost.keeps {I : Conn → Prop} {r : Outcome IoError Unit}
    (hM : ∀ c c', Move c c' → I c → I c') (hS : ∀ k c c', Stop k c c' → I c → I c')
    (hF : ∀ e c, I c → I (tryForwardError e c)) (h : ClientPost c r c') (hc : I c) : I c' := by
  cases r with
  | ready _ => exact moves_keep hM h.1 hc
  | pending =>
      obtain ⟨c₁, hm, hs⟩ := h
      exact hS _ _ _ hs (moves_keep hM hm hc)
  | fail e =>
      obtain ⟨c₁, c₂, hm, hs, rfl⟩ := h
      exact hF _ _ (hS _ _ _ hs (moves_keep hM hm hc))
  | panic m =>
      obtain ⟨c₁, hm, hs⟩ := h
      exact hS _ _ _ hs (moves_keep hM hm hc)
  | diverge => exact h.elim

omit [Crates] [VecAlloc] in
@[simp] theorem io_tryForwardError (e : IoError) (c : Conn) : (tryForwardError e c).io = c.io := by
  rw [tryForwardError]
  cases c.state with
  | sendReq => rfl
  | recvBody h => rfl
  | recvRes h =>
      dsimp only
      cases h.handle.resTx with
      | none => rfl
      | some i => rfl

/-- The codec's buffers stay sound. -/
theorem pollClient_sound (h : c.io.Sound) : (pollClient cx c).2.io.Sound :=
  ClientPost.keeps (I := fun c => c.io.Sound) (fun _ _ hm => hm.sound) (fun _ _ _ hs => hs.sound)
    (fun e c hc => by rw [io_tryForwardError]; exact hc) (pollClient_moves h) h

end HreqH1.Client
