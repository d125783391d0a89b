import HreqH1.Server.Moves
import HreqH1.Support.Simulation

/-!
# Server — bodies taken whole

`poll_read_body` of a body with a content-length has two ways to a chunk: it takes the whole read
buffer, where nothing of that has been consumed, or it copies out of it by
`ContentLengthRead::poll_read`.  `copyReadBody` is the reading that copies only.  The copying
reading counts to the limit and leaves the rest where it is (`copyReadBody_counts`); the two agree
exactly as long as no buffer that is taken whole holds more than what is left of the body
(`agreesWithCopy_iff`).
-/

namespace HreqH1.Server
open PollM BufIo Runs

variable [VecAlloc]

/-! ### The reading that copies -/

/-- The next chunk, by `ContentLengthRead::poll_read` alone. -/
def copyChunk (available : Nat) : PollM IoError (Bidirect × Conn) Bytes := do
  let readInto ← orPanic (FastBuf.withCapacity available).borrow
  readLimit readInto.spare

/-- `poll_read_body` without the whole buffer. -/
def copyReadBody (cx : Waker) : PollM IoError (Bidirect × Conn) Unit := do
  let _ ← onConn (pollBody (Chan.pollReady cx true))
  onConn (pollIo (BufIo.ensureReadCapacity (← get).1.curReadSize))
  let buf ← onConn (pollIo (BufIo.pollFillBuf false))
  if buf.isEmpty then throw ⟨.unexpectedEof, "EOF before complete body received"⟩
  else
    let chunk ← copyChunk buf.length
    passOn chunk
    endBody

/-- What happens to a request's body: it is polled for, a chunk is taken from its channel, or the
`RecvStream` is dropped. -/
inductive BodyAction where
  | poll (cx : Waker)
  | recv (cx : Waker)
  | drop
  deriving DecidableEq

inductive BodyObs where
  | polled (r : Outcome IoError Unit)
  | received (r : Outcome IoError (Option (Except IoError Bytes)))
  | idle
  deriving DecidableEq

/-- A step of the reading by `read`. -/
def bodyStep (read : Waker → PollM IoError (Bidirect × Conn) Unit) :
    BodyAction → Bidirect × Conn → BodyObs × (Bidirect × Conn)
  | .poll cx, s =>
      if s.1.txBody then (.polled (read cx s).1, (read cx s).2) else (.idle, s)
  | .recv cx, s =>
      let p := (Chan.pollRecv cx true : PollM IoError _ _) s.2.body
      (.received p.1, (s.1, { s.2 with body := p.2 }))
  | .drop, s => (.idle, (s.1, { s.2 with body := s.2.body.dropReceiver }))

/-! ### What they should agree on -/

/-- The same but for the record of the buffers that were taken. -/
def SameBody (s t : Bidirect × Conn) : Prop :=
  s.1 = t.1 ∧ s.2 = { t.2 with entire := s.2.entire }

/-- From `s` to `s'` as many bytes of the body have gone from the stream as are counted, at most
the limit; and the body is complete when they are as many as that. -/
def Counted (s s' : Bidirect × Conn) : Prop :=
  ∃ v v' bs, s.1.limit = .contentLength v ∧ s'.1.limit = .contentLength v' ∧ v'.limit = v.limit ∧
    s.2.io.stream = bs ++ s'.2.io.stream ∧ v'.total = v.total + bs.length ∧ v'.total ≤ v'.limit ∧
    (s'.1.limit.isComplete = true ↔ v.total + bs.length = v.limit)

/-- Whatever is done, the reading shows and leaves what the copying one does, and counts. -/
def AgreesWithCopy (s : Bidirect × Conn) : Prop :=
  ∀ as, (run (bodyStep pollReadBody) as s).1 = (run (bodyStep copyReadBody) as s).1 ∧
    SameBody (Runs.after (bodyStep pollReadBody) as s) (Runs.after (bodyStep copyReadBody) as s) ∧
    Counted s (Runs.after (bodyStep pollReadBody) as s)

/-- The bytes a poll finds in a read buffer of which nothing is consumed. -/
def nextFill (h : Bidirect) (io : BufIo) : Bytes :=
  if io.buf.len = 0 then
    match (io.inner.pollRead (io.buf.ensureCapacity h.curReadSize).capacity).1 with
    | some (.ok bs) => bs
    | _ => []
  else if io.pos = 0 then io.unread
  else []

/-- A poll for the body, where its channel lets it through, finds at most what is left of it. -/
def Fits (s : Bidirect × Conn) (a : BodyAction) : Prop :=
  ∀ cx v, a = .poll cx → s.1.txBody = true → s.2.body.Open ∨ s.2.body.receivers = 0 →
    s.1.limit = .contentLength v → (nextFill s.1 s.2.io).length ≤ v.limit - v.total

/-- A body with a content-length, of which some is still to come. -/
structure Unfinished (s : Bidirect × Conn) : Prop where
  wf : s.2.io.Wf
  waits : s.1.txBody = true
  short : ∃ v, s.1.limit = .contentLength v ∧ v.total < v.limit ∧ v.limit < 2 ^ 64

/-! ### What is found in the buffer -/

omit [VecAlloc] in
theorem unread_of_pos {io : BufIo} (h : io.pos = 0) : io.unread = io.buf.data := by
  rw [BufIo.unread, h]
  rfl

/-- A read into an empty buffer. -/
theorem pollFillBuf_empty {io : BufIo} (hw : io.Wf) (h0 : io.buf.len = 0) :
    wp (BufIo.pollFillBuf false) (fun r io' => match (io.inner.pollRead io.buf.capacity).1 with
      | none => r = .pending
      | some (.error e) => r = .fail e
      | some (.ok bs) => r = .ready bs ∧ io'.pos = 0 ∧ io'.unread = bs) io := by
  have hcap := hw.capacity_pos
  have hpos : io.pos = 0 := by rcases hw.pos_lt with h | h <;> omega
  have hdata : io.buf.data = [] := List.length_eq_zero_iff.mp h0
  have hb : io.buf.borrow = .ok io.buf := by
    unfold FastBuf.borrow
    rw [if_neg (Nat.ne_of_gt hcap), if_neg (by omega)]
    exact if_pos (by omega)
  have hspare : io.buf.spare = io.buf.capacity := by rw [FastBuf.spare, h0, Nat.sub_zero]
  simp only [BufIo.pollFillBuf, wp_bind, wp_get, bindPost, h0, beq_self_eq_true, Bool.true_or, if_true,
    borrowBuf, hb, wp_modify]
  rw [wp, callInner, hspare]
  rcases hr : io.inner.pollRead io.buf.capacity with ⟨_ | e | bs, t⟩
  · exact rfl
  · exact rfl
  · obtain ⟨hle, -⟩ := (Transport.pollRead_spec hr).1 bs rfl
    obtain ⟨buf, he, hd, -⟩ := FastBuf.extend_ok (b := io.buf) (show bs.length ≤ _ by rw [hspare]; exact hle)
    dsimp only [bindPost]
    rw [wp_bind, wp_modify, bindPost, wp_bind, wp_get, bindPost, he]
    have hu : BufIo.unread { io with buf := buf, inner := t, pendingRx := false } = bs := by
      rw [unread_of_pos (by exact hpos)]
      show buf.data = bs
      rw [hd, hdata, List.nil_append]
    exact ⟨congrArg Outcome.ready hu, hpos, hu⟩

/-- What a poll finds in a buffer of which nothing is consumed, after its `ensure_read_capacity`. -/
theorem pollFillBuf_nextFill {io : BufIo} (h : Bidirect) (hw : io.Wf) :
    wp (BufIo.pollFillBuf false) (fun r io' =>
      (∀ buf, r = .ready buf → io'.pos = 0 → io'.unread = nextFill h io) ∧
      (nextFill h io ≠ [] → ∃ buf, r = .ready buf ∧ io'.pos = 0 ∧ io'.unread = nextFill h io))
      { io with buf := io.buf.ensureCapacity h.curReadSize } := by
  have hlen := io.buf.len_ensureCapacity h.curReadSize
  by_cases h0 : io.buf.len = 0
  · refine (pollFillBuf_empty ((reads_ensureCapacity h.curReadSize).wf hw)
      (hlen.trans h0)).mono fun r io' hr => ?_
    rw [nextFill, if_pos h0]
    dsimp only at hr
    rcases hp : (io.inner.pollRead (io.buf.ensureCapacity h.curReadSize).capacity).1 with _ | e | bs <;>
      rw [hp] at hr
    · subst hr; exact ⟨fun _ h => (by cases h), fun h => absurd rfl h⟩
    · subst hr; exact ⟨fun _ h => (by cases h), fun h => absurd rfl h⟩
    · obtain ⟨rfl, hpos, hu⟩ := hr
      exact ⟨fun _ _ _ => hu, fun _ => ⟨bs, rfl, hpos, hu⟩⟩
  · have hb : ((io.buf.ensureCapacity h.curReadSize).len == 0 || false) = false := by
      rw [hlen, Bool.or_false]
      exact beq_eq_false_iff_ne.mpr h0
    rw [nextFill, if_neg h0, BufIo.pollFillBuf, wp_bind, wp_get, bindPost]
    simp only [wp_bind, wp_ite]
    rw [if_neg (by rw [hb]; exact Bool.false_ne_true)]
    have hu : BufIo.unread { io with buf := io.buf.ensureCapacity h.curReadSize } = io.unread := by
      rw [BufIo.unread, BufIo.unread, FastBuf.data_ensureCapacity]
    refine ⟨fun _ _ hpos => ?_, fun hne => ?_⟩
    · rw [if_pos (show io.pos = 0 from hpos)]
      exact hu
    · by_cases hpos : io.pos = 0
      · rw [if_pos hpos]
        exact ⟨_, rfl, hpos, hu⟩
      · exact absurd (if_neg hpos) hne

/-! ### Content-lengths -/

section ContentLength
variable {v : ContentLengthRead} {io : BufIo} {n : Nat}

omit [VecAlloc] in
/-- `ContentLengthRead::poll_read` counts what it takes, and no further than to the limit. -/
theorem contentLength_counts (hw : io.Wf) (hn : n ≠ 0) (hle : v.total ≤ v.limit)
    (hlim : v.limit < 2 ^ 64) :
    wp (ContentLengthRead.pollRead n) (fun r t => ∃ bs, Reads bs io t.2 ∧
      t.1 = ⟨v.limit, v.total + bs.length⟩ ∧ v.total + bs.length ≤ v.limit ∧ match r with
        | .ready out => out = bs
        | .panic _ => False
        | .diverge => False
        | _ => bs = []) (v, io) := by
  simp only [ContentLengthRead.pollRead, wp_bind, wp_assert, wp_get, bindPost, wp_ite, wp_zoom]
  rw [if_pos (decide_eq_true hn), if_pos (decide_eq_true hle)]
  split
  · exact ⟨[], Reads.refl io, rfl, hle, rfl⟩
  · next h0 =>
    refine (pollReadBuf_spec hw _).mono fun r io' h => ?_
    cases r with
    | pending => exact ⟨[], h.1, rfl, hle, rfl⟩
    | fail e => exact ⟨[], h.1, rfl, hle, rfl⟩
    | panic m => exact h.elim
    | diverge => exact h.elim
    | ready bs =>
        obtain ⟨hr, hbs, -⟩ := h
        have hfit : v.total + bs.length ≤ v.limit := by omega
        dsimp only [bindPost]
        split
        · next hz =>
          obtain rfl := List.length_eq_zero_iff.mp hz
          exact ⟨[], hr, rfl, hfit, rfl⟩
        · rw [if_pos (decide_eq_true (Nat.lt_of_le_of_lt hfit hlim))]
          exact ⟨bs, hr, rfl, hfit, rfl⟩

omit [VecAlloc] in
/-- A buffer that fits, of which nothing is consumed, is taken whole by it as well. -/
theorem contentLength_whole (hpos : io.pos = 0) (hne : io.unread ≠ [])
    (hfit : io.unread.length ≤ v.limit - v.total) (hlim : v.limit < 2 ^ 64) :
    ContentLengthRead.pollRead io.unread.length (v, io) =
      (.ready io.unread, (⟨v.limit, v.total + io.unread.length⟩,
        { io with buf := .withCapacity io.buf.capacity, pos := 0 })) := by
  have hlen : 0 < io.unread.length := List.length_pos_iff.mpr hne
  have hbuf : io.buf.len = io.unread.length := by rw [length_unread, hpos, Nat.sub_zero]
  have hmax : min io.unread.length (min (v.limit - v.total) (2 ^ 64 - 1)) = io.unread.length := by
    omega
  have hread : BufIo.pollReadBuf io.unread.length io = (.ready io.unread,
      { io with buf := .withCapacity io.buf.capacity, pos := 0 }) := by
    have hadv : io.advance io.unread.length =
        { io with buf := .withCapacity io.buf.capacity, pos := 0 } := by
      rw [advance, if_pos (by rw [hpos, hbuf, Nat.zero_add])]
      rfl
    simp only [BufIo.pollReadBuf, run_get_bind, run_ite]
    rw [if_pos (by rw [hbuf, hpos]; exact hlen), run_modify_bind, List.take_length, hadv]
    rfl
  have hx : (zoom Prod.snd (fun s io => (s.1, io)) (BufIo.pollReadBuf io.unread.length) :
      PollM IoError (ContentLengthRead × BufIo) Bytes) (v, io) = (.ready io.unread,
        (v, { io with buf := .withCapacity io.buf.capacity, pos := 0 })) := by
    rw [run_zoom, hread]
  have hn : decide (io.unread.length ≠ 0) = true := decide_eq_true (Nat.ne_of_gt hlen)
  have hle : decide (v.total ≤ v.limit) = true := decide_eq_true (by omega)
  have hlt : decide (v.total + io.unread.length < 2 ^ 64) = true := decide_eq_true (by omega)
  simp only [ContentLengthRead.pollRead, hn, assert, if_true, run_pure_bind, run_get_bind, hle, run_ite,
    hmax]
  rw [if_neg (by omega), run_bind_ready hx]
  simp only [run_ite, hlt, if_true]
  rw [if_neg (Nat.ne_of_gt hlen)]
  rfl

end ContentLength

/-! ### The two readings -/

variable {s t : Bidirect × Conn} {cx : Waker}

/-- A body with a content-length on its way, or complete. -/
structure Reading (s : Bidirect × Conn) (v : ContentLengthRead) : Prop where
  wf : s.2.io.Wf
  limit : s.1.limit = .contentLength v
  le : v.total ≤ v.limit
  bound : v.limit < 2 ^ 64
  waits : s.1.txBody = true ↔ v.total < v.limit

omit [VecAlloc] in
theorem SameBody.io (h : SameBody s t) : s.2.io = t.2.io := by rw [h.2]

omit [VecAlloc] in
theorem SameBody.body (h : SameBody s t) : s.2.body = t.2.body := by rw [h.2]

/-- The copying chunk is a poll of the limiter. -/
theorem copyChunk_eq {n : Nat} (hn : n ≠ 0) : copyChunk n = readLimit n := by
  rw [copyChunk, FastBuf.borrow_withCapacity (Nat.pos_of_ne_zero hn)]
  rfl

/-- A chunk that is taken whole. -/
theorem nextChunk_whole {v : ContentLengthRead} (hw : s.2.io.Wf) (hpos : s.2.io.pos = 0)
    (hv : s.1.limit = .contentLength v) (hlt : v.total + s.2.io.unread.length < 2 ^ 64) (n : Nat) :
    nextChunk n s = (.ready s.2.io.unread,
      ({ s.1 with limit := .contentLength ⟨v.limit, v.total + s.2.io.unread.length⟩ },
        { s.2 with
          io := { s.2.io with buf := .withCapacity s.2.io.buf.capacity, pos := 0 }
          entire := (s.2.io.unread, s.1.limit) :: s.2.entire })) := by
  have hu := (reads_takeReadBuf hw hpos).1
  have hfast : (s.1.limit.canReadEntireVec && s.2.io.canTakeReadBuf) = true := by
    rw [hv, BufIo.canTakeReadBuf, hpos]
    rfl
  have htake : (onConn (pollIo BufIo.takeReadBuf) : PollM IoError (Bidirect × Conn) Bytes) s =
      (.ready s.2.io.unread, (s.1, { s.2 with
        io := { s.2.io with buf := .withCapacity s.2.io.buf.capacity, pos := 0 } })) := by
    rw [← hu]
    rfl
  rw [nextChunk, run_get_bind]
  simp only [hfast, if_true]
  rw [run_bind_ready htake, run_modify_bind, hv]
  simp only [LimitRead.acceptEntireVec, hlt, if_true]
  rfl

/-- A chunk that is copied, of a buffer that fits. -/
theorem copyChunk_whole {v : ContentLengthRead} (hpos : s.2.io.pos = 0) (hne : s.2.io.unread ≠ [])
    (hv : s.1.limit = .contentLength v) (hlim : v.limit < 2 ^ 64)
    (hfit : s.2.io.unread.length ≤ v.limit - v.total) :
    copyChunk s.2.io.unread.length s = (.ready s.2.io.unread,
      ({ s.1 with limit := .contentLength ⟨v.limit, v.total + s.2.io.unread.length⟩ },
        { s.2 with io := { s.2.io with buf := .withCapacity s.2.io.buf.capacity, pos := 0 } })) := by
  rw [copyChunk_eq fun h => hne (List.length_eq_zero_iff.mp h), readLimit, run_zoom, hv,
    LimitRead.pollRead, run_get_bind]
  simp only [LimitRead.pollInner, run_zoom]
  rw [contentLength_whole hpos hne hfit hlim]

/-- **The two chunks**, where a buffer that is taken whole fits. -/
theorem nextChunk_inStep {v : ContentLengthRead} (hR : SameBody s t) (hw : s.2.io.Wf)
    (hne : s.2.io.unread ≠ []) (hv : s.1.limit = .contentLength v) (hlim : v.limit < 2 ^ 64)
    (hfit : s.2.io.pos = 0 → s.2.io.unread.length ≤ v.limit - v.total) :
    InStep SameBody (nextChunk s.2.io.unread.length) (copyChunk s.2.io.unread.length) s t := by
  have hn : s.2.io.unread.length ≠ 0 := fun h => hne (List.length_eq_zero_iff.mp h)
  have hio := hR.io
  obtain ⟨h1, h2⟩ := hR
  by_cases hpos : s.2.io.pos = 0
  · have hlen := hfit hpos
    rw [InStep, nextChunk_whole hw hpos hv (by omega), hio,
      copyChunk_whole (hio ▸ hpos) (hio ▸ hne) (h1 ▸ hv) hlim (hio ▸ hlen)]
    refine ⟨rfl, ?_, ?_⟩
    · rw [h1]
    · rw [h2]
  · -- The buffer has been read from: both copy.
    have hslow : (s.1.limit.canReadEntireVec && s.2.io.canTakeReadBuf) = false := by
      rw [BufIo.canTakeReadBuf, beq_eq_false_iff_ne.mpr hpos, Bool.and_false]
    rw [copyChunk_eq hn, InStep, nextChunk, run_get_bind, hslow,
      FastBuf.borrow_withCapacity (Nat.pos_of_ne_zero hn)]
    have hz : InStep SameBody (readLimit s.2.io.unread.length) (readLimit s.2.io.unread.length)
        s t := by
      refine InStep.zoom (by rw [h1, hio]) fun p => ⟨?_, ?_⟩
      · rw [h1]
      · rw [h2]
    exact hz

section InStep
omit [VecAlloc]

theorem SameBody.onBody {α : Type} (hR : SameBody s t)
    (z : PollM IoError (Chan (Except IoError Bytes)) α) :
    InStep SameBody (onConn (pollBody z)) (onConn (pollBody z)) s t := by
  have hb := hR.body
  obtain ⟨h1, h2⟩ := hR
  refine ⟨congrArg (fun c => (z c).1) hb, h1, ?_⟩
  show ({ s.2 with body := (z s.2.body).2 } : Conn) = { t.2 with
    body := (z t.2.body).2, entire := s.2.entire }
  rw [hb, h2]

theorem SameBody.onIo {α : Type} (hR : SameBody s t) (z : PollM IoError BufIo α) :
    InStep SameBody (onConn (pollIo z)) (onConn (pollIo z)) s t := by
  have hio := hR.io
  obtain ⟨h1, h2⟩ := hR
  refine ⟨congrArg (fun io => (z io).1) hio, h1, ?_⟩
  show ({ s.2 with io := (z s.2.io).2 } : Conn) = { t.2 with
    io := (z t.2.io).2, entire := s.2.entire }
  rw [hio, h2]

theorem SameBody.passOn (hR : SameBody s t) (bs : Bytes) :
    InStep SameBody (passOn bs >>= fun _ => endBody) (passOn bs >>= fun _ => endBody) s t := by
  refine InStep.bind ?_ fun _ s' t' _ _ hR' => ?_
  · unfold Server.passOn
    refine InStep.ite (fun _ => ?_) fun _ => InStep.get ?_
    · exact (hR.onBody _).bind fun _ _ _ _ _ hR' => .pure _ hR'
    · rw [hR.1]
      exact InStep.ite (fun _ => .throw _ hR) fun _ => .pure _ hR
  · unfold endBody
    refine InStep.get ?_
    rw [hR'.1]
    refine InStep.ite (fun _ => .modify ⟨by rw [hR'.1], ?_⟩) fun _ => .pure _ hR'
    show ({ s'.2 with body := s'.2.body.dropSender, complete := true } : Conn) = { t'.2 with
      body := t'.2.body.dropSender, complete := true, entire := s'.2.entire }
    rw [hR'.2]

end InStep

/-- **A poll by the two readings**, where a buffer that is taken whole fits. -/
theorem pollReadBody_inStep {v : ContentLengthRead} (hR : SameBody s t) (h : Reading s v)
    (hb : s.1.txBody = true) (hfit : s.2.body.Open ∨ s.2.body.receivers = 0 →
      (nextFill s.1 s.2.io).length ≤ v.limit - v.total) :
    InStep SameBody (pollReadBody cx) (copyReadBody cx) s t := by
  unfold pollReadBody copyReadBody
  refine InStep.skip run_get (InStep.skip (c := ()) (by rw [hb]; rfl) ?_)
  refine (hR.onBody _).bind fun b s₁ t₁ hx _ hR₁ => ?_
  -- A channel that lets the poll through is as it was.
  obtain ⟨rfl, ho⟩ : s₁ = s ∧ (s.2.body.Open ∨ s.2.body.receivers = 0) := by
    have hp : wp (Chan.pollReady cx true : PollM IoError _ Bool) _ s.2.body := Chan.pollReady_spec
    rw [onConn, run_zoom, pollBody, run_zoom] at hx
    obtain ⟨hb, rfl⟩ := Prod.mk.inj hx
    rw [wp, hb] at hp
    obtain ⟨hc, ho⟩ := hp
    refine ⟨by rw [hc], ?_⟩
    cases b with
    | true => exact .inl ho
    | false => exact .inr ho
  refine InStep.get ?_
  rw [← hR₁.1]
  refine (hR₁.onIo _).bind fun _ s₂ t₂ hx₂ _ hR₂ => ?_
  obtain ⟨-, rfl⟩ := Prod.mk.inj hx₂
  refine (hR₂.onIo _).bind fun buf s₃ t₃ hx₃ _ hR₃ => ?_
  have hens : Reads [] s₁.2.io { s₁.2.io with buf := s₁.2.io.buf.ensureCapacity s₁.1.curReadSize } :=
    reads_ensureCapacity s₁.1.curReadSize
  -- The buffer, as the fill has left it.
  rcases hp : BufIo.pollFillBuf false
    { s₁.2.io with buf := s₁.2.io.buf.ensureCapacity s₁.1.curReadSize } with ⟨r, io₃⟩
  have hfill := wp_elim (pollFillBuf_spec (hens.wf h.wf) false) hp
  have hnext := (wp_elim (pollFillBuf_nextFill s₁.1 h.wf) hp).1
  obtain ⟨rfl, rfl⟩ : r = .ready buf ∧ s₃ = (s₁.1, { s₁.2 with io := io₃ }) := by
    rw [onConn, run_zoom, pollIo, run_zoom] at hx₃
    obtain ⟨hr, rfl⟩ := Prod.mk.inj hx₃
    exact ⟨(congrArg Prod.fst hp).symm.trans hr, congrArg
      (fun p => (s₁.1, ({ s₁.2 with io := p.2 } : Conn))) hp⟩
  obtain ⟨rfl, hr, -⟩ := hfill
  refine InStep.ite (fun _ => .throw _ hR₃) fun hne => ?_
  refine InStep.bind (nextChunk_inStep hR₃ (hr.wf (hens.wf h.wf)) ?_ h.limit h.bound fun hpos => ?_)
    fun bs s₄ t₄ _ _ hR₄ => hR₄.passOn bs
  · exact fun hnil => hne (List.isEmpty_iff.mpr hnil)
  · exact Nat.le_trans (Nat.le_of_eq (congrArg List.length (hnext _ rfl hpos))) (hfit ho)

/-! ### What the copying reading counts -/

/-- The reading has gone on from `v` over some bytes, and is at `v'`. -/
def ReadOn (v : ContentLengthRead) (s s' : Bidirect × Conn) : Prop :=
  ∃ v' bs, Reading s' v' ∧ v'.limit = v.limit ∧ v'.total = v.total + bs.length ∧
    s.2.io.stream = bs ++ s'.2.io.stream

omit [VecAlloc] in
theorem Reading.readOn {v : ContentLengthRead} (h : Reading s v) : ReadOn v s s :=
  ⟨v, [], h, rfl, rfl, rfl⟩

omit [VecAlloc] in
/-- A move of the reader over nothing, and a change of the channel. -/
theorem Reading.move {v : ContentLengthRead} (h : Reading s v) {io : BufIo}
    (hr : Reads [] s.2.io io) (body : Chan (Except IoError Bytes)) :
    ReadOn v s (s.1, { s.2 with io := io, body := body }) :=
  ⟨v, [], ⟨hr.wf h.wf, h.limit, h.le, h.bound, h.waits⟩, rfl, rfl, hr.stream⟩

omit [VecAlloc] in
theorem ReadOn.trans {v v' : ContentLengthRead} {s' s'' : Bidirect × Conn} {bs : Bytes}
    (h : ReadOn v' s' s'') (hl : v'.limit = v.limit) (ht : v'.total = v.total + bs.length)
    (hs : s.2.io.stream = bs ++ s'.2.io.stream) : ReadOn v s s'' := by
  obtain ⟨v'', cs, hr, hl', ht', hs'⟩ := h
  refine ⟨v'', bs ++ cs, hr, hl'.trans hl, ?_, ?_⟩
  · rw [ht', ht, List.length_append, Nat.add_assoc]
  · rw [hs, hs', List.append_assoc]

omit [VecAlloc] in
/-- What the copying reading has read on, it has counted. -/
theorem ReadOn.counted {v : ContentLengthRead} {s' : Bidirect × Conn}
    (hv : s.1.limit = .contentLength v) (h : ReadOn v s s') : Counted s s' := by
  obtain ⟨v', bs, hr, hl, ht, hs⟩ := h
  refine ⟨v, v', bs, hv, hr.limit, hl, hs, ht, hr.le, ?_⟩
  rw [hr.limit, LimitRead.isComplete, ContentLengthRead.isEnd, beq_iff_eq, ht, hl]

omit [VecAlloc] in
/-- A chunk of `bs` goes to the user, and the body ends with its last byte. -/
theorem passOn_readOn {v : ContentLengthRead} (bs : Bytes) (hw : s.2.io.Wf)
    (hv : s.1.limit = .contentLength v) (hle : v.total ≤ v.limit) (hlim : v.limit < 2 ^ 64)
    (hb : s.1.txBody = true) :
    wp (passOn bs >>= fun _ => endBody) (fun _ s' => ReadOn v s s') s := by
  have hcomp : s.1.limit.isComplete = true ↔ v.total = v.limit := by
    rw [hv, LimitRead.isComplete, ContentLengthRead.isEnd, beq_iff_eq]
  by_cases hc : bs = [] → s.1.limit.isComplete = true
  · rw [wp_bind]
    refine wp_of_eq (passOn_eq hc) ?_
    dsimp only [bindPost]
    rw [endBody, wp_bind, wp_get, bindPost, wp_ite]
    split
    · next he =>
      have heq := hcomp.mp he
      refine ⟨v, [], ⟨hw, hv, hle, hlim, ?_⟩, rfl, rfl, rfl⟩
      exact ⟨fun h => (by cases h), fun h => absurd heq (Nat.ne_of_lt h)⟩
    · next he =>
      refine ⟨v, [], ⟨hw, hv, hle, hlim, fun _ => ?_, fun _ => hb⟩, rfl, rfl, rfl⟩
      exact Nat.lt_of_le_of_ne hle fun h => he (hcomp.mpr h)
  · obtain ⟨rfl, he⟩ := Classical.not_imp.mp hc
    have hx : passOn [] s = (.fail ⟨.unexpectedEof, "Partial body"⟩, s) := by
      simp [passOn, Bool.not_eq_true _ ▸ he]
    rw [wp_bind]
    refine wp_of_eq hx ⟨v, [], ⟨hw, hv, hle, hlim, fun _ => ?_, fun _ => hb⟩, rfl, rfl, rfl⟩
    exact Nat.lt_of_le_of_ne hle fun h => he (hcomp.mpr h)

/-- **The copying reading** counts what it takes from the stream, and no further than to the
limit. -/
theorem copyReadBody_readOn {v : ContentLengthRead} (h : Reading s v) (hb : s.1.txBody = true) :
    wp (copyReadBody cx) (fun _ s' => ReadOn v s s') s := by
  rw [copyReadBody, wp_bind, onConn, wp_zoom, pollBody, wp_zoom]
  refine Chan.pollReady_spec.mono fun r body hr => ?_
  cases r with
  | pending => exact h.move (Reads.refl _) body
  | fail e => exact hr.elim
  | panic m => exact hr.elim
  | diverge => exact hr.elim
  | ready b =>
      obtain ⟨rfl, -⟩ := hr
      dsimp only [bindPost]
      rw [wp_bind, wp_get, bindPost, wp_bind, onConn, wp_zoom, pollIo, wp_zoom, ensureReadCapacity,
        wp_modify]
      have hens : Reads [] s.2.io { s.2.io with buf := s.2.io.buf.ensureCapacity s.1.curReadSize } :=
        reads_ensureCapacity s.1.curReadSize
      dsimp only [bindPost]
      rw [wp_bind, onConn, wp_zoom, pollIo, wp_zoom]
      refine (pollFillBuf_spec (hens.wf h.wf) false).mono fun r io hr => ?_
      cases r with
      | pending => exact h.move (hens.trans hr.1) _
      | fail e => exact h.move (hens.trans hr.1) _
      | panic m => exact h.move (hens.trans hr.1.reads) _
      | diverge => exact hr.elim
      | ready buf =>
          obtain ⟨rfl, hr, -⟩ := hr
          have hio := hens.trans hr
          dsimp only [bindPost]
          rw [wp_ite]
          split
          · exact h.move hio _
          · next hne =>
            have hn : io.unread.length ≠ 0 := fun h =>
              hne (List.isEmpty_iff.mpr (List.length_eq_zero_iff.mp h))
            rw [copyChunk_eq hn, wp_bind, readLimit, wp_zoom, h.limit, LimitRead.pollRead, wp_bind,
              wp_get, bindPost]
            refine (LimitRead.wp_pollInner).mpr ?_
            refine (contentLength_counts (hio.wf h.wf) hn h.le h.bound).mono fun r p hp => ?_
            obtain ⟨v', io'⟩ := p
            obtain ⟨bs, hrd, rfl, hle, hout⟩ := hp
            have hst : s.2.io.stream = bs ++ io'.stream := (hio.trans hrd).stream
            have hstay : bs = [] → ReadOn v s
                ({ s.1 with limit := .contentLength ⟨v.limit, v.total + bs.length⟩ },
                  { s.2 with io := io' }) := fun hnil =>
              ⟨_, bs, ⟨hrd.wf (hio.wf h.wf), rfl, hle, h.bound, by rw [hnil]; exact h.waits⟩, rfl, rfl,
                hst⟩
            cases r with
            | ready out =>
                subst hout
                have hpass := passOn_readOn
                  (s := ({ s.1 with limit := .contentLength ⟨v.limit, v.total + out.length⟩ },
                    { s.2 with io := io' })) out (hrd.wf (hio.wf h.wf)) rfl hle h.bound hb 
                exact hpass.mono fun r s' hs' => hs'.trans (v := v) rfl rfl hst
            | pending => exact hstay hout
            | fail e => exact hstay hout
            | panic m => exact hout.elim
            | diverge => exact hout.elim

/-! ### A buffer that does not fit -/

/-- A poll that has taken the bytes `bs` and counted all of them, or none. -/
def TookWhole (v : ContentLengthRead) (bs : Bytes) (s s' : Bidirect × Conn) : Prop :=
  s.2.io.stream = bs ++ s'.2.io.stream ∧ (s'.1.limit = .contentLength v ∨
    s'.1.limit = .contentLength ⟨v.limit, v.total + bs.length⟩)

theorem nextChunk_tookWhole {v : ContentLengthRead} (hw : s.2.io.Wf) (hpos : s.2.io.pos = 0)
    (hv : s.1.limit = .contentLength v) (n : Nat) :
    wp (nextChunk n) (fun _ s' => TookWhole v s.2.io.unread s s') s := by
  obtain ⟨hu, hr⟩ := reads_takeReadBuf hw hpos
  have hfast : (s.1.limit.canReadEntireVec && s.2.io.canTakeReadBuf) = true := by
    rw [hv, BufIo.canTakeReadBuf, hpos]
    rfl
  have hst : s.2.io.stream = s.2.io.unread ++
      BufIo.stream { s.2.io with buf := .withCapacity s.2.io.buf.capacity, pos := 0 } := hr.stream
  have htake : (onConn (pollIo BufIo.takeReadBuf) : PollM IoError (Bidirect × Conn) Bytes) s =
      (.ready s.2.io.unread, (s.1, { s.2 with
        io := { s.2.io with buf := .withCapacity s.2.io.buf.capacity, pos := 0 } })) := by
    rw [← hu]
    rfl
  rw [nextChunk, wp_bind, wp_get, bindPost, wp_ite, if_pos hfast, wp_bind]
  refine wp_of_eq htake ?_
  dsimp only [bindPost]
  rw [wp_bind, wp_modify, bindPost, wp_bind, hv]
  simp only [LimitRead.acceptEntireVec]
  split
  · exact ⟨hst, .inr rfl⟩
  · exact ⟨hst, .inl hv⟩

omit [VecAlloc] in
theorem passOn_keeps (bs : Bytes) :
    wp (passOn bs >>= fun _ => endBody) (fun _ s' => s'.2.io = s.2.io ∧ s'.1.limit = s.1.limit) s := by
  rw [wp_bind]
  by_cases hc : bs = [] → s.1.limit.isComplete = true
  · refine wp_of_eq (passOn_eq hc) ?_
    dsimp only [bindPost]
    rw [endBody, wp_bind, wp_get, bindPost, wp_ite]
    split
    · exact ⟨rfl, rfl⟩
    · exact ⟨rfl, rfl⟩
  · obtain ⟨rfl, he⟩ := Classical.not_imp.mp hc
    have hx : passOn [] s = (.fail ⟨.unexpectedEof, "Partial body"⟩, s) := by
      simp [passOn, Bool.not_eq_true _ ▸ he]
    exact wp_of_eq hx ⟨rfl, rfl⟩

/-- A poll that finds a buffer of which nothing is consumed takes all of it. -/
theorem pollReadBody_tookWhole {v : ContentLengthRead} (h : Reading s v) (hb : s.1.txBody = true)
    (ho : s.2.body.Open ∨ s.2.body.receivers = 0) (hne : nextFill s.1 s.2.io ≠ []) :
    wp (pollReadBody cx) (fun _ s' => TookWhole v (nextFill s.1 s.2.io) s s') s := by
  rw [pollReadBody, wp_bind, wp_get, bindPost, wp_bind, wp_assert, if_pos hb]
  dsimp only [bindPost]
  rw [wp_bind, onConn, wp_zoom, pollBody, wp_zoom]
  refine Chan.pollReady_spec.mono fun r body hr => ?_
  cases r with
  | pending => exact ho.elim (fun ho => absurd ho hr.2.2) fun h0 => absurd h0 hr.2.1
  | fail e => exact hr.elim
  | panic m => exact hr.elim
  | diverge => exact hr.elim
  | ready b =>
      obtain ⟨rfl, -⟩ := hr
      have hens : Reads [] s.2.io { s.2.io with buf := s.2.io.buf.ensureCapacity s.1.curReadSize } :=
        reads_ensureCapacity s.1.curReadSize
      dsimp only [bindPost]
      rw [wp_bind, wp_get, bindPost, wp_bind, onConn, wp_zoom, pollIo, wp_zoom, ensureReadCapacity,
        wp_modify]
      dsimp only [bindPost]
      rw [wp_bind, onConn, wp_zoom, pollIo, wp_zoom]
      refine ((pollFillBuf_spec (hens.wf h.wf) false).and
        (pollFillBuf_nextFill s.1 h.wf)).mono fun r io hr => ?_
      obtain ⟨hr, -, hnext⟩ := hr
      obtain ⟨buf, rfl, hpos, hu⟩ := hnext hne
      obtain ⟨rfl, hr, -⟩ := hr
      dsimp only [bindPost]
      rw [hu, wp_ite, if_neg fun hnil => hne (List.isEmpty_iff.mp hnil), wp_bind]
      have hchunk := nextChunk_tookWhole (s := (s.1, { s.2 with io := io }))
        (hr.wf (hens.wf h.wf)) hpos h.limit (nextFill s.1 s.2.io).length
      refine hchunk.mono fun r s' hs' => ?_
      have htook : TookWhole v (nextFill s.1 s.2.io) s s' := by
        obtain ⟨hst, hl⟩ := hs'
        rw [← hu]
        exact ⟨(hens.trans hr).stream.trans hst, hl⟩
      cases r with
      | pending => exact htook
      | fail e => exact htook
      | panic m => exact htook
      | diverge => exact htook
      | ready bs =>
          dsimp only [bindPost]
          refine (passOn_keeps bs).mono fun r s'' hs'' => ?_
          obtain ⟨hio, hl⟩ := hs''
          exact ⟨by rw [hio]; exact htook.1, by rw [hl]; exact htook.2⟩

/-! ### Runs -/

variable {v : ContentLengthRead}

theorem bodyStep_readOn (h : Reading s v) (a : BodyAction) :
    ReadOn v s (bodyStep copyReadBody a s).2 := by
  cases a with
  | recv cx => exact h.move (Reads.refl _) _
  | drop => exact h.move (Reads.refl _) _
  | poll cx =>
      rw [bodyStep]
      split
      · next hb => exact copyReadBody_readOn h hb
      · exact h.readOn

/-- What the copying reading reads on in a run, it counts. -/
theorem run_readOn (h : Reading s v) (as : List BodyAction) :
    ReadOn v s (Runs.after (bodyStep copyReadBody) as s) := by
  refine run_invariant (I := ReadOn v s) (fun s₁ a h₁ _ => ?_) (along_true as s) h.readOn
  obtain ⟨v₁, bs, hr, hl, ht, hs⟩ := h₁
  exact (bodyStep_readOn hr a).trans hl ht hs

omit [VecAlloc] in
theorem SameBody.reading (hR : SameBody s t) (h : Reading t v) : Reading s v :=
  ⟨hR.io ▸ h.wf, hR.1 ▸ h.limit, h.le, h.bound, hR.1 ▸ h.waits⟩

omit [VecAlloc] in
theorem SameBody.counted {s₀ : Bidirect × Conn} (hR : SameBody s t) (h : Counted s₀ t) :
    Counted s₀ s := by
  have hio := hR.io
  rw [Counted, hR.1, hio]
  exact h

/-- A step of the two readings, where a buffer that is taken whole fits. -/
theorem bodyStep_inStep (hR : SameBody s t) (h : Reading s v) {a : BodyAction} (hfit : Fits s a) :
    (bodyStep pollReadBody a s).1 = (bodyStep copyReadBody a t).1 ∧
      SameBody (bodyStep pollReadBody a s).2 (bodyStep copyReadBody a t).2 := by
  cases a with
  | drop =>
      refine ⟨rfl, hR.1, ?_⟩
      show ({ s.2 with body := s.2.body.dropReceiver } : Conn) = { t.2 with
        body := t.2.body.dropReceiver, entire := s.2.entire }
      rw [hR.2]
  | recv cx =>
      have hb := hR.body
      refine ⟨by simp only [bodyStep, hb], hR.1, ?_⟩
      simp only [bodyStep, hb]
      rw [hR.2]
  | poll cx =>
      have h1 := hR.1
      rw [bodyStep, bodyStep, ← h1]
      split
      · next hb =>
        obtain ⟨ho, hR'⟩ := pollReadBody_inStep hR h hb fun ho =>
          hfit cx v rfl hb ho h.limit
        exact ⟨congrArg BodyObs.polled ho, hR'⟩
      · exact ⟨rfl, hR⟩

/-- A run of the two readings, where every buffer that is taken whole fits. -/
theorem run_sameBody (h : Reading s v) {as : List BodyAction}
    (hfits : Along (bodyStep pollReadBody) Fits as s) :
    (run (bodyStep pollReadBody) as s).1 = (run (bodyStep copyReadBody) as s).1 ∧
      SameBody (Runs.after (bodyStep pollReadBody) as s)
        (Runs.after (bodyStep copyReadBody) as s) := by
  have hrun := run_inStep (P := Fits) (R := fun s' t' => SameBody s' t' ∧ ∃ v', Reading t' v')
    (fun s' t' a hR hP => by
      obtain ⟨hR, v', ht⟩ := hR
      obtain ⟨ho, hR'⟩ := bodyStep_inStep hR (hR.reading ht) hP
      obtain ⟨v'', -, hr'', -⟩ := bodyStep_readOn ht a
      exact ⟨ho, hR', v'', hr''⟩) hfits ⟨⟨rfl, rfl⟩, v, h⟩
  exact ⟨hrun.1, hrun.2.1⟩

/-- A poll that finds more than is left of the body is not counted right. -/
theorem not_counted {s₀ : Bidirect × Conn} (h : Reading s v) (hb : s.1.txBody = true)
    (ho : s.2.body.Open ∨ s.2.body.receivers = 0)
    (hover : v.limit - v.total < (nextFill s.1 s.2.io).length) (h₀ : Counted s₀ s) :
    ¬ Counted s₀ (bodyStep pollReadBody (.poll cx) s).2 := by
  have hne : nextFill s.1 s.2.io ≠ [] := fun hnil => by rw [hnil] at hover; cases hover
  have htook : TookWhole v (nextFill s.1 s.2.io) s (bodyStep pollReadBody (.poll cx) s).2 := by
    rw [bodyStep, if_pos hb]
    exact pollReadBody_tookWhole h hb ho hne
  obtain ⟨hst, hl⟩ := htook
  obtain ⟨v₀, v₁, bs₁, hv₀, hv₁, hl₁, hst₁, ht₁, -⟩ := h₀
  rintro ⟨v₀', v₂, bs₂, hv₀', hv₂, hl₂, hst₂, ht₂, hle₂, -⟩
  obtain rfl : v₀ = v₀' := LimitRead.contentLength.inj (hv₀.symm.trans hv₀')
  obtain rfl : v = v₁ := LimitRead.contentLength.inj (h.limit.symm.trans hv₁)
  rcases hl with hl | hl
  · -- The bytes have gone, and none of them is counted.
    obtain rfl : v₂ = v := LimitRead.contentLength.inj (hv₂.symm.trans hl)
    have hlen := congrArg List.length (hst₁.symm.trans hst₂)
    rw [hst] at hlen
    simp only [List.length_append] at hlen
    omega
  · obtain rfl := LimitRead.contentLength.inj (hv₂.symm.trans hl)
    simp only at hle₂
    omega

/-- **When the two readings agree**: exactly where no buffer that is taken whole holds more than
what is left of the body. -/
theorem agreesWithCopy_iff (h : Unfinished s) :
    AgreesWithCopy s ↔ ∀ as, Along (bodyStep pollReadBody) Fits as s := by
  obtain ⟨v, hv, hlt, hlim⟩ := h.short
  have hr : Reading s v :=
    ⟨h.wf, hv, Nat.le_of_lt hlt, hlim, fun _ => hlt, fun _ => h.waits⟩
  constructor
  · intro hagree as
    by_contra hnot
    obtain ⟨pre, a, post, -, hpre, hfit⟩ := first_failure hnot
    obtain ⟨v', -, hr', -⟩ := run_readOn hr pre
    have hr₁ := (run_sameBody hr hpre).2.reading hr'
    simp only [Fits, not_forall, Nat.not_le] at hfit
    obtain ⟨cx, v₁, rfl, hb, ho, hv₁, hover⟩ := hfit
    obtain rfl : v' = v₁ := LimitRead.contentLength.inj (hr₁.limit.symm.trans hv₁)
    have hcount := (hagree (pre ++ [.poll cx])).2.2
    rw [after_concat] at hcount
    exact not_counted hr₁ hb ho hover (hagree pre).2.2 hcount
  · intro hfits as
    obtain ⟨hobs, hsame⟩ := run_sameBody hr (hfits as)
    exact ⟨hobs, hsame, hsame.counted ((run_readOn hr as).counted hv)⟩

/-- A request with the content-length 5, whose head has been all there was in the buffer, and `bs`
to come. -/
def fiveBytes (bs : Bytes) : Bidirect × Conn :=
  (⟨.contentLength ⟨5, 0⟩, true, true, true, none, 5⟩,
    { io := .withCapacity readBufInitSize ⟨[.data bs], true, [], [], 0⟩
      state := .recvReq
      body := .new 1
      res := .new 1
      resBody := .new 1
      log := []
      entire := []
      complete := false })

omit [VecAlloc] in
theorem unfinished_fiveBytes (bs : Bytes) : Unfinished (fiveBytes bs) :=
  ⟨⟨Nat.succ_pos 16383, .inr ⟨rfl, rfl⟩, fun f hf => by cases hf⟩, rfl, _, rfl,
    by decide, by decide⟩

omit [VecAlloc] in
theorem agrees_at_five :
    letI := VecAlloc.amortized
    AgreesWithCopy (fiveBytes (ascii "hello")) ↔
      ∀ as, Along (bodyStep pollReadBody) Fits as (fiveBytes (ascii "hello")) :=
  @agreesWithCopy_iff VecAlloc.amortized (fiveBytes (ascii "hello")) (unfinished_fiveBytes _)

omit [VecAlloc] in
theorem takes_next_request :
    letI := VecAlloc.amortized
    Unfinished (fiveBytes (ascii "helloGET / HTTP/1.1\r\n\r\n")) ∧
      ¬ AgreesWithCopy (fiveBytes (ascii "helloGET / HTTP/1.1\r\n\r\n")) := by
  have hu := unfinished_fiveBytes (ascii "helloGET / HTTP/1.1\r\n\r\n")
  have hr : Reading (fiveBytes (ascii "helloGET / HTTP/1.1\r\n\r\n")) ⟨5, 0⟩ :=
    ⟨hu.wf, rfl, by decide, by decide, by decide⟩
  refine ⟨hu, fun h => ?_⟩
  refine @not_counted VecAlloc.amortized _ 0 ⟨5, 0⟩ _ hr rfl (.inl (by decide)) ?_
    (hr.readOn.counted rfl) (h [.poll 0]).2.2
  decide +kernel

end HreqH1.Server
