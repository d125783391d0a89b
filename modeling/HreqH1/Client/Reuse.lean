import HreqH1.Client.Steps

/-!
# Client — reuse of the connection

After which responses the codec goes back to `SendReq`.  `Conn.left` are the exchanges it has left for
the next; a further request is sent after these only.

Each of them allows reuse on both sides, and the end of its response is known by its head or by its
own body (`reused_known`).  Among the heads is that of a redirect without body fields, which
`poll_response` takes for one without a body (`redirect_reused`).
-/

namespace HreqH1.Client
open PollM Runs

/-- The response has no body, by its method and its status. -/
def NoBodyByHead (req : Request) (res : Response) : Prop :=
  req.method = .head ∨ isInformational res.status = true ∨ res.status = 204 ∨ res.status = 304

/-- The header fields announce a body: chunked, or of a length that may be 0. -/
def BodyAnnounced (res : Response) : Prop :=
  isChunked res.headers = true ∨ (getAs res.headers (ascii "content-length")).isSome = true

/-- A redirect that announces no body. -/
def BareRedirect (res : Response) : Prop :=
  isRedirection res.status = true ∧ headersIndicateBody res.headers = false

instance (req : Request) (res : Response) : Decidable (NoBodyByHead req res) :=
  inferInstanceAs (Decidable (_ ∨ _))

instance (res : Response) : Decidable (BodyAnnounced res) := inferInstanceAs (Decidable (_ ∨ _))

/-- Both sides allow the connection to be used again, and the response's end, which has been received,
is known. -/
structure Reusable (c : Conn) (a : Nat × Request × Response) : Prop where
  request : allowReuse a.2.1.headers a.2.1.version = true
  response : allowReuse a.2.2.headers a.2.2.version = true
  known : NoBodyByHead a.2.1 a.2.2 ∨ BodyAnnounced a.2.2 ∨ BareRedirect a.2.2
  complete : a.1 ∈ c.complete

/-- The exchanges the codec has left for the next. -/
def Conn.left (c : Conn) : List (Nat × Request × Response) :=
  match c.state with
  | .sendReq => c.answers
  | .recvRes h => if h.handle.resTx.isSome then c.answers else c.answers.tail
  | .recvBody _ => c.answers.tail

/-- What the codec holds of the exchange at hand is that of its last answer. -/
def Current (c : Conn) : Prop :=
  match c.state with
  | .sendReq => True
  | .recvRes h => h.handle.resTx = none → ∃ i res rest,
      c.answers = (i, h.handle.req, res) :: rest ∧
      h.responseAllowsReuse = allowReuse res.headers res.version ∧
      (h.holder = none → isNoBody (LimitRead.fromHeaders res.headers true) h.handle.req.method res = true
        ∧ i ∈ c.complete) ∧
      ∀ j limit, h.holder = some (j, limit) → j = i ∧ limit = LimitRead.fromHeaders res.headers true
  | .recvBody b => ∃ i req res rest,
      c.answers = (i, req, res) :: rest ∧ b.bodyTx = i ∧
      b.requestAllowsReuse = allowReuse req.headers req.version ∧
      b.responseAllowsReuse = allowReuse res.headers res.version ∧
      b.limit.isReadToEnd = (LimitRead.fromHeaders res.headers true).isReadToEnd

/-- What the codec keeps. -/
structure Traced (c : Conn) : Prop where
  left : ∀ a ∈ c.left, Reusable c a
  current : Current c
  queue : ∀ h ∈ c.reqRx.queue, h.resTx.isSome = true

/-! ### The end of a response -/

section Known
variable {req : Request} {res : Response}

/-- Only a response without body fields is read to the end. -/
theorem announced_of_not_readToEnd
    (h : (LimitRead.fromHeaders res.headers true).isReadToEnd = false) : BodyAnnounced res := by
  rw [LimitRead.fromHeaders] at h
  by_cases hc : isChunked res.headers = true
  · exact .inl hc
  · rw [if_neg hc] at h
    cases hl : getAs res.headers (ascii "content-length") with
    | some n => exact .inr (by rw [hl]; rfl)
    | none =>
        rw [hl] at h
        cases h

/-- What `poll_response` takes for a response without a body. -/
theorem known_of_isNoBody
    (h : isNoBody (LimitRead.fromHeaders res.headers true) req.method res = true) :
    NoBodyByHead req res ∨ BodyAnnounced res ∨ BareRedirect res := by
  simp only [isNoBody, Bool.or_eq_true, beq_iff_eq, Bool.and_eq_true, Bool.not_eq_true'] at h
  rcases h with ((((hl | hm) | hi) | hn) | hnm) | hr
  · refine .inr (.inl (announced_of_not_readToEnd ?_))
    cases hf : LimitRead.fromHeaders res.headers true with
    | readToEnd v =>
        rw [hf] at hl
        cases hl
    | _ => rfl
  · exact .inl (.inl hm)
  · exact .inl (.inr (.inl hi))
  · exact .inl (.inr (.inr (.inl hn)))
  · exact .inl (.inr (.inr (.inr hnm)))
  · exact .inr (.inr hr)

/-- A read changes the state of a limiter, not its kind. -/
theorem isReadToEnd_pollRead {n : Nat} {l l' : LimitRead} {io io' : BufIo} {r : Outcome IoError Bytes}
    (h : LimitRead.pollRead n (l, io) = (r, (l', io'))) : l'.isReadToEnd = l.isReadToEnd := by
  have hl : (LimitRead.pollRead n (l, io)).2.1 = l' := by rw [h]
  cases l with
  | chunkedDecoder v => exact hl ▸ rfl
  | contentLength v => exact hl ▸ rfl
  | readToEnd v => exact hl ▸ rfl
  | noBody => exact hl ▸ rfl

end Known

/-! ### What the codec keeps -/

section Traced
variable {c c' : Conn}

theorem Reusable.mono {a : Nat × Request × Response} (h : Reusable c a)
    (hc : ∀ i ∈ c.complete, i ∈ c'.complete) : Reusable c' a :=
  ⟨h.request, h.response, h.known, hc _ h.complete⟩

theorem Traced.of_eq (h : Traced c) (hs : c'.state = c.state) (ha : c'.answers = c.answers)
    (hc : c'.complete = c.complete)
    (hq : ∀ x ∈ c'.reqRx.queue, x ∈ c.reqRx.queue ∨ x.resTx.isSome = true) : Traced c' where
  left := fun a hl => by
    rw [Conn.left, hs, ha] at hl
    exact (h.left a hl).mono fun i hi => hc ▸ hi
  current := by
    have hcur := h.current
    rw [Current] at hcur ⊢
    rw [hs, ha, hc]
    exact hcur
  queue := fun x hx => (hq x hx).elim (h.queue x) id

/-- `SendRes`, with another part of it changed. -/
theorem Traced.recvRes {h h' : Bidirect} (ht : Traced c) (hs : c.state = .recvRes h)
    (hs' : c'.state = .recvRes h') (hr : h'.handle.resTx = h.handle.resTx)
    (hreq : h'.handle.req = h.handle.req) (hu : h'.responseAllowsReuse = h.responseAllowsReuse)
    (hh : h'.holder = h.holder) (ha : c'.answers = c.answers) (hc : c'.complete = c.complete)
    (hq : c'.reqRx = c.reqRx) : Traced c' where
  left := fun a hl => by
    refine (ht.left a ?_).mono fun i hi => hc ▸ hi
    rw [Conn.left, hs', ha] at hl
    rw [Conn.left, hs]
    dsimp only at hl ⊢
    rwa [hr] at hl
  current := by
    have hcur := ht.current
    rw [Current, hs] at hcur
    rw [Current, hs', ha, hc]
    dsimp only at hcur ⊢
    rwa [hr, hreq, hu, hh]
  queue := hq ▸ ht.queue

/-- `RecvBody`, after a read. -/
theorem Traced.recvBody {b : BodyReceiver} {limit : LimitRead} (ht : Traced c)
    (hs : c.state = .recvBody b) (hs' : c'.state = .recvBody { b with limit := limit })
    (hl : limit.isReadToEnd = b.limit.isReadToEnd) (ha : c'.answers = c.answers)
    (hc : c'.complete = c.complete) (hq : c'.reqRx = c.reqRx) : Traced c' where
  left := fun a hl => by
    refine (ht.left a ?_).mono fun i hi => hc ▸ hi
    rw [Conn.left, hs', ha] at hl
    rw [Conn.left, hs]
    exact hl
  current := by
    have hcur := ht.current
    rw [Current, hs] at hcur
    rw [Current, hs']
    obtain ⟨i, req, res, rest, hans, hi, hreq, hres, hlim⟩ := hcur
    exact ⟨i, req, res, rest, ha.trans hans, hi, hreq, hres, hl.trans hlim⟩
  queue := hq ▸ ht.queue

/-- The exchange at hand is left: nothing more is awaited of it. -/
theorem Traced.leave (ht : Traced c) (hs' : c'.state = .sendReq) (ha : c'.answers = c.answers)
    (hc : c'.complete = c.complete) (hq : c'.reqRx = c.reqRx) (hleft : c.left = c.answers.tail)
    {a : Nat × Request × Response} {rest : List (Nat × Request × Response)}
    (hans : c.answers = a :: rest) (hr : Reusable c a) : Traced c' where
  left := fun b hl => by
    rw [Conn.left, hs', ha] at hl
    dsimp only at hl
    rw [hans] at hl hleft
    rcases List.mem_cons.mp hl with rfl | hl
    · exact hr.mono fun i hi => hc ▸ hi
    · exact (ht.left b (hleft ▸ hl)).mono fun i hi => hc ▸ hi
  current := by
    rw [Current, hs']
    trivial
  queue := hq ▸ ht.queue

variable [Crates]

theorem Move.traced (h : Move c c') (ht : Traced c) : Traced c' := by
  cases h with
  | write hw hio => exact ht.of_eq rfl rfl rfl fun _ => .inl
  | read hr => exact ht.of_eq rfl rfl rfl fun _ => .inl
  | wake hq => exact ht.of_eq rfl rfl rfl fun _ => .inl
  | rest hs hq => exact ht.of_eq rfl rfl rfl fun x hx => .inl (hq.queue ▸ hx)
  | @request handle rx io head hs htk hh hw hio =>
      have hsome : handle.resTx.isSome = true :=
        ht.queue handle (htk.queue ▸ List.mem_cons_self)
      refine ⟨fun a hl => ?_, fun hnone => ?_, fun x hx => ?_⟩
      · refine (ht.left a ?_).mono fun _ => id
        rw [Conn.left] at hl
        dsimp only at hl
        rw [if_pos hsome] at hl
        rw [Conn.left, hs]
        exact hl
      · rw [show handle.resTx = none from hnone] at hsome
        cases hsome
      · exact ht.queue x (htk.queue ▸ List.mem_cons_of_mem _ hx)
  | @response h i io head eos res hs hi hf hp =>
      refine ⟨fun a hl => ?_, fun _ => ⟨i, res, c.answers, rfl, rfl, fun hnone => ?_, ?_⟩, ht.queue⟩
      · refine (ht.left a ?_).mono fun j hj => ?_
        · rw [Conn.left, hs]
          dsimp only
          rw [hi]
          exact hl
        · show j ∈ if _ then _ else _
          split
          · exact List.mem_cons_of_mem _ hj
          · exact hj
      · have hb : isNoBody (LimitRead.fromHeaders res.headers true) h.handle.req.method res = true := by
          by_contra hb
          rw [Bidirect.answered] at hnone
          simp [hb] at hnone
        refine ⟨hb, ?_⟩
        show i ∈ if isNoBody (LimitRead.fromHeaders res.headers true) h.handle.req.method res then _ else _
        rw [if_pos hb]
        exact List.mem_cons_self
      · intro j limit hh
        rw [Bidirect.answered] at hh
        dsimp only at hh
        split at hh
        · cases hh
        · cases hh
          exact ⟨rfl, rfl⟩
  | item hs hi htk hw hio => exact ht.recvRes hs rfl rfl rfl rfl rfl rfl rfl rfl
  | @toBody h i limit hs hr hb hh =>
      have hcur := ht.current
      rw [Current, hs] at hcur
      obtain ⟨j, res, rest, hans, hu, -, hhold⟩ := hcur hr
      obtain ⟨rfl, rfl⟩ := hhold i limit hh
      refine ⟨fun a hl => ?_, ⟨i, h.handle.req, res, rest, hans, rfl, rfl, hu, rfl⟩, ht.queue⟩
      refine (ht.left a ?_).mono fun _ => id
      rw [Conn.left, hs]
      dsimp only
      rw [hr]
      exact hl
  | @toNext h hs hr hb hh hu =>
      have hcur := ht.current
      rw [Current, hs] at hcur
      obtain ⟨j, res, rest, hans, hres, hnone, -⟩ := hcur hr
      rw [Bidirect.allowsReuse, Bool.and_eq_true] at hu
      refine ht.leave rfl rfl rfl rfl ?_ hans
        ⟨hu.1, hres.symm.trans hu.2, known_of_isNoBody (hnone hh).1, (hnone hh).2⟩
      rw [Conn.left, hs]
      dsimp only
      rw [hr]
      rfl
  | chunk hs hc' ho hn hl hr hne =>
      exact ht.recvBody hs rfl (isReadToEnd_pollRead hl) rfl rfl rfl
  | lastRead hs hc' hn hl hr he =>
      exact ht.recvBody hs rfl (isReadToEnd_pollRead hl) rfl rfl rfl
  | @bodyEnd b hs hc' =>
      refine ⟨fun a hl => (ht.left a hl).mono fun _ => List.mem_cons_of_mem _, ?_, ht.queue⟩
      have hcur := ht.current
      rw [Current, hs] at hcur
      rw [Current]
      dsimp only
      rw [hs]
      exact hcur
  | @bodyNext b hs hc' hm hu =>
      have hcur := ht.current
      rw [Current, hs] at hcur
      obtain ⟨i, req, res, rest, hans, rfl, hreq, hres, hlim⟩ := hcur
      rw [BodyReceiver.allowsReuse, Bool.and_eq_true, Bool.and_eq_true, LimitRead.isReusable,
        Bool.and_eq_true, Bool.not_eq_true'] at hu
      refine ht.leave rfl rfl rfl rfl ?_ hans
        ⟨hreq.symm.trans hu.1.1, hres.symm.trans hu.1.2,
          .inr (.inl (announced_of_not_readToEnd (hlim.symm.trans hu.2.2))), hm⟩
      rw [Conn.left, hs]

theorem Stop.traced {k : Halt IoError} (h : Stop k c c') (ht : Traced c) : Traced c' := by
  have htake : ∀ {handle : Handle} {rx : Chan Handle}, c.reqRx.Takes handle rx →
      ∀ x ∈ rx.queue, x ∈ c.reqRx.queue ∨ x.resTx.isSome = true := fun htk x hx =>
    .inl (htk.queue ▸ List.mem_cons_of_mem _ hx)
  cases h with
  | awaitRequest hs hr hq hn => exact ht.of_eq rfl rfl rfl fun x hx => .inl (hr.queue ▸ hx)
  | requestFailed hs htk hw hio why => exact ht.of_eq rfl rfl rfl (htake htk)
  | requestPanic hs htk why => exact ht.of_eq rfl rfl rfl (htake htk)
  | headPendingSent hs hi htk hr hw hio => exact ht.recvRes hs rfl rfl rfl rfl rfl rfl rfl rfl
  | itemFailed hs hi htk hw hio why => exact ht.recvRes hs rfl rfl rfl rfl rfl rfl rfl rfl
  | limitPending hs hc' hn hl hr hw => exact ht.recvBody hs rfl (isReadToEnd_pollRead hl) rfl rfl rfl
  | limitFailed hs hc' hl hn hr hk why =>
      exact ht.recvBody hs rfl (isReadToEnd_pollRead hl) rfl rfl rfl
  | _ => exact ht.of_eq rfl rfl rfl fun _ => .inl

omit [Crates] in
theorem Traced.forward (e : IoError) (ht : Traced c) : Traced (tryForwardError e c) := by
  rw [tryForwardError]
  split
  · exact ht
  · split
    · exact ht.of_eq rfl rfl rfl fun _ => .inl
    · exact ht
  · exact ht.of_eq rfl rfl rfl fun _ => .inl

end Traced

/-- Nothing is left where nothing has been asked. -/
theorem traced_unasked {c : Conn} (hs : c.state = .sendReq) (ha : c.answers = [])
    (hq : c.reqRx.queue = []) : Traced c where
  left := by
    rw [Conn.left, hs, ha]
    exact fun _ h => absurd h List.not_mem_nil
  current := by
    rw [Current, hs]
    trivial
  queue := by
    rw [hq]
    exact fun _ h => absurd h List.not_mem_nil

/-! ### Runs -/

/-- `GET /`, without header fields. -/
def getSlash : Request := ⟨.get, ⟨none, none, none, some (ascii "/")⟩, .http11, []⟩

/-- A redirect without header fields. -/
def found : Response := ⟨302, .http11, []⟩

variable [VecAlloc] [Crates]

theorem traced_after (inner : Transport) (as : List Action) :
    Traced (after step as (handshake inner)).conn := by
  refine run_codec (I := Traced) as (traced_unasked rfl rfl rfl) (fun {c c'} hs ht => ?_)
    fun hp ht => ?_
  · refine ht.of_eq hs.state hs.answers hs.complete fun x hx => ?_
    refine (hs.queue x hx).imp id ?_
    rintro ⟨i, req, b, hx⟩
    exact hx ▸ rfl
  · exact hp.keeps (fun _ _ hm => hm.traced) (fun _ _ _ hst => hst.traced)
      (fun e _ ht => ht.forward e) ht

/-- **The connection is used again** only after exchanges in which both sides allow it and the end of
the response is known: by its head, or by its own body, received completely; never by the end of the
connection. -/
theorem reused_known (inner : Transport) (as : List Action) :
    ∀ a ∈ (after step as (handshake inner)).conn.left,
      Reusable (after step as (handshake inner)).conn a :=
  (traced_after inner as).left

/-- `GET /`, and its answer in one read. -/
def askOnce : List Action := [.sendRequest getSlash true, .pollConn 0]

omit [VecAlloc] [Crates] in
/-- An exchange that ends with the head of the response. -/
theorem reused_known_noContent :
    letI := VecAlloc.amortized
    letI := Crates.table [] [(ascii "HTTP/1.1 204 No\r\n\r\n", ⟨some 1, some 204, []⟩)]
    let w := after step askOnce
      (handshake ⟨[.data (ascii "HTTP/1.1 204 No\r\n\r\n")], false, [], [], 0⟩)
    Reusable w.conn (0, getSlash, ⟨204, .http11, []⟩) := by
  intro w
  have hleft : w.conn.left = [(0, getSlash, ⟨204, .http11, []⟩)] := by decide +kernel
  refine @reused_known VecAlloc.amortized
    (Crates.table [] [(ascii "HTTP/1.1 204 No\r\n\r\n", ⟨some 1, some 204, []⟩)]) _ askOnce _ ?_
  have hmem : (0, getSlash, (⟨204, .http11, []⟩ : Response)) ∈ w.conn.left := by
    rw [hleft]
    exact List.mem_cons_self
  exact hmem

omit [VecAlloc] [Crates] in
/-- **The connection is used again** after a redirect whose end neither method nor status nor a body
field tells. -/
theorem redirect_reused :
    letI := VecAlloc.amortized
    letI := Crates.table [] [(ascii "HTTP/1.1 302 Found\r\n\r\n", ⟨some 1, some 302, []⟩)]
    let w := after step [.sendRequest getSlash true, .pollConn 0]
      (handshake ⟨[.data (ascii "HTTP/1.1 302 Found\r\n\r\n")], false, [], [], 0⟩)
    w.conn.state = .sendReq ∧ w.conn.left = [(0, getSlash, found)] ∧
      ¬ NoBodyByHead getSlash found ∧ ¬ BodyAnnounced found := by
  decide +kernel

end HreqH1.Client
