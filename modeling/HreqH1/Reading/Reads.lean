import HreqH1.Model.BufReader

/-!
# Reading — moves of the reader

Everything that reads, reads through a `BufIo`.  `Reads bs io io'` says that the reader has moved
from `io` to `io'` over the bytes `bs`: they are gone from the front of `BufIo.stream`, and the
write side is as it was.  Moves compose (`Reads.trans`), so each of the readers above is described
by the bytes it moves over.

A poll that is `Pending` has moved, and is `Blocked`: it has used up an answer of the transport, or
the transport is silent.
-/

namespace HreqH1

/-- The buffer is not full, or may still grow. -/
def Fill.HasRoom (f : Fill) : Prop := f.len < f.capacity ∨ f.capacity < maxCapacity

instance (f : Fill) : Decidable f.HasRoom := inferInstanceAs (Decidable (_ ∨ _))

namespace BufIo
open PollM

/-- What reading does not touch. -/
def writeSide (io : BufIo) : List TxEvent × Bytes × Nat × Bool × Option ConsumeBuf × Bool :=
  (io.inner.tx, io.inner.written, io.inner.flushed, io.pendingTx, io.writeBuf, io.needFlush)

/-- The read position is in the buffer, and at its end only when that is empty; and a `borrow` of
the buffer has gone through exactly where there was room. -/
structure Wf (io : BufIo) : Prop where
  capacity_pos : 0 < io.buf.capacity
  pos_lt : io.pos < io.buf.len ∨ io.buf.len = 0 ∧ io.pos = 0
  fills : ∀ f ∈ io.fills, f.ok = true ↔ f.HasRoom

/-- A bound on the bytes and answers that can still be read. -/
def weight (io : BufIo) : Nat := io.unread.length + io.inner.rxWeight

/-- Every `borrow` of the read buffer so far has gone through. -/
def Grows (io : BufIo) : Prop := ∀ f ∈ io.fills, f.ok = true

/-- The reader has moved over `bs`. -/
structure Reads (bs : Bytes) (io io' : BufIo) : Prop where
  writeSide : io'.writeSide = io.writeSide
  eof : io'.inner.eof = io.inner.eof
  stream : io.stream = bs ++ io'.stream
  weight : io'.weight + bs.length ≤ io.weight
  rx_le : io'.inner.rx.length ≤ io.inner.rx.length
  clean : Transport.Clean io.inner.rx → Transport.Clean io'.inner.rx
  fills : io.fills <:+ io'.fills
  wf : io.Wf → io'.Wf

/-- What a `Pending` read waits for: the transport is silent, or has answered `Pending`. -/
def Blocked (io io' : BufIo) : Prop :=
  io.inner.rx = [] ∧ io.inner.eof = false ∨ io'.inner.rx.length < io.inner.rx.length

/-- A `Pending` read for which nothing is buffered. -/
structure Waits (io io' : BufIo) : Prop where
  blocked : Blocked io io'
  pendingRx : io'.pendingRx = true
  unread : io'.unread = []

/-- The stream has ended, and all of it has been read. -/
def AtEof (io : BufIo) : Prop := io.inner.coming = [] ∧ io.inner.rx = [] ∧ io.inner.eof = true

variable {io io' io'' : BufIo} {bs cs : Bytes} {n : Nat}

theorem Reads.refl (io : BufIo) : Reads [] io io where
  writeSide := rfl
  eof := rfl
  stream := rfl
  weight := Nat.le_refl _
  rx_le := Nat.le_refl _
  clean := id
  fills := List.suffix_refl _
  wf := id

theorem Reads.trans (h : Reads bs io io') (h' : Reads cs io' io'') : Reads (bs ++ cs) io io'' where
  writeSide := h'.writeSide.trans h.writeSide
  eof := h'.eof.trans h.eof
  stream := by rw [h.stream, h'.stream, List.append_assoc]
  weight := by
    have := h.weight
    have := h'.weight
    rw [List.length_append]
    omega
  rx_le := Nat.le_trans h'.rx_le h.rx_le
  clean := h'.clean ∘ h.clean
  fills := h.fills.trans h'.fills
  wf := h'.wf ∘ h.wf

theorem Reads.grows (h : Reads bs io io') (hg : io'.Grows) : io.Grows :=
  fun f hf => hg f (h.fills.subset hf)

theorem Blocked.after (h : Reads bs io io') (h' : Reads cs io' io'') (hb : Blocked io' io'') :
    Blocked io io'' := by
  have hle := h.rx_le
  rcases hb with ⟨hrx, heof⟩ | hlt
  · rcases Nat.eq_zero_or_pos io.inner.rx.length with h0 | hpos
    · exact .inl ⟨List.length_eq_zero_iff.mp h0, h.eof ▸ heof⟩
    · right
      have := h'.rx_le
      rw [hrx] at this
      exact Nat.lt_of_le_of_lt this hpos
  · exact .inr (Nat.lt_of_lt_of_le hlt hle)

theorem Blocked.before (hb : Blocked io io') (h' : Reads cs io' io'') : Blocked io io'' :=
  hb.imp id fun hlt => Nat.lt_of_le_of_lt h'.rx_le hlt

theorem Waits.after (h : Reads bs io io') (h' : Reads cs io' io'') (hw : Waits io' io'') :
    Waits io io'' :=
  ⟨hw.blocked.after h h', hw.pendingRx, hw.unread⟩

/-- A wait at a silent transport is at the end of what there is to read. -/
theorem Waits.silent (hw : Waits io io') (h : Reads bs io io') (hrx : io.inner.rx = []) :
    io'.stream = [] := by
  have hle := h.rx_le
  rw [hrx] at hle
  rw [BufIo.stream, hw.unread, Transport.coming, List.length_eq_zero_iff.mp (Nat.le_zero.mp hle)]
  rfl

theorem Wf.pos_le (h : io.Wf) : io.pos ≤ io.buf.len := by
  rcases h.pos_lt with h | h <;> omega

theorem length_unread : io.unread.length = io.buf.len - io.pos := List.length_drop

theorem Wf.unread_eq_nil (h : io.Wf) : io.unread = [] ↔ io.buf.len = 0 := by
  rw [← List.length_eq_zero_iff, length_unread]
  rcases h.pos_lt with h | h <;> omega

/-- At the end of the stream there is nothing left. -/
theorem AtEof.stream (h : io.AtEof) (hu : io.unread = []) : io.stream = [] := by
  rw [BufIo.stream, hu, h.1]
  rfl

theorem AtEof.reads (h : io.AtEof) (hr : Reads bs io io') : io'.AtEof := by
  have hle := hr.rx_le
  rw [h.2.1] at hle
  have hrx : io'.inner.rx = [] := List.length_eq_zero_iff.mp (Nat.le_zero.mp hle)
  exact ⟨by rw [Transport.coming, hrx]; rfl, hrx, hr.eof.trans h.2.2⟩

/-! ### Moves of single operations -/

@[simp] theorem pendingRx_advance (n : Nat) : (io.advance n).pendingRx = io.pendingRx := by
  rw [advance]
  split <;> rfl

/-- A move along the buffer. -/
theorem reads_advance (hw : io.Wf) (hn : n ≤ io.unread.length) :
    Reads (io.unread.take n) io (io.advance n) := by
  have hpos := hw.pos_le
  rw [length_unread] at hn
  have hu : io.unread = io.unread.take n ++ (io.advance n).unread := by
    rw [advance]
    split
    · next he =>
      rw [List.take_of_length_le (by rw [length_unread]; omega)]
      exact (List.append_nil _).symm
    · show io.unread = _ ++ io.buf.data.drop (io.pos + n)
      rw [← List.drop_drop]
      exact (List.take_append_drop n io.unread).symm
  have hinner : (io.advance n).inner = io.inner := by rw [advance]; split <;> rfl
  refine
    { writeSide := by rw [advance]; split <;> rfl
      eof := by rw [hinner]
      stream := ?_
      weight := ?_
      rx_le := Nat.le_of_eq (by rw [hinner])
      clean := fun h => by rw [hinner]; exact h
      fills := by rw [advance]; split <;> exact List.suffix_refl _
      wf := fun _ => ?_ }
  · rw [BufIo.stream, BufIo.stream, hinner]
    nth_rewrite 1 [hu]
    rw [List.append_assoc]
  · have hlen := congrArg List.length hu
    rw [List.length_append] at hlen
    rw [BufIo.weight, BufIo.weight, hinner]
    omega
  · rw [advance]
    split
    · exact ⟨hw.capacity_pos, .inr ⟨rfl, rfl⟩, hw.fills⟩
    · next he => exact ⟨hw.capacity_pos, .inl (by show io.pos + n < io.buf.len; omega), hw.fills⟩

/-- A move of the transport alone. -/
theorem reads_inner {r : IoPoll Bytes} {t : Transport} (h : io.inner.pollRead n = (r, t))
    (hr : ∀ bs, r ≠ some (.ok bs)) (b : Bool) :
    Reads [] io { io with inner := t, pendingRx := b } := by
  obtain ⟨-, hc, hrw, heof, htx, hwr, hfl⟩ := Transport.pollRead_spec h
  refine ⟨?_, heof, ?_, ?_, ?_, fun hcl => hcl.pollRead h, List.suffix_refl _,
    fun hw => ⟨hw.capacity_pos, hw.pos_lt, hw.fills⟩⟩
  · simp only [BufIo.writeSide, htx, hwr, hfl]
  · rw [List.nil_append]
    exact congrArg (io.unread ++ ·) (hc hr).symm
  · exact Nat.add_le_add_left hrw _
  · exact Transport.pollRead_rx_le h

/-- A move of the transport, at an empty buffer. -/
theorem reads_direct {t : Transport} (hu : io.unread = [])
    (h : io.inner.pollRead n = (some (.ok bs), t)) (b : Bool) :
    Reads bs io { io with inner := t, pendingRx := b } := by
  obtain ⟨hok, -, hrw, heof, htx, hwr, hfl⟩ := Transport.pollRead_spec h
  obtain ⟨-, hc, hlt, -⟩ := hok bs rfl
  refine ⟨?_, heof, ?_, ?_, Transport.pollRead_rx_le h, fun hcl => hcl.pollRead h,
    List.suffix_refl _, fun hw => ⟨hw.capacity_pos, hw.pos_lt, hw.fills⟩⟩
  · simp only [BufIo.writeSide, htx, hwr, hfl]
  · show io.unread ++ io.inner.coming = bs ++ (io.unread ++ t.coming)
    rw [hu, List.nil_append, List.nil_append, hc]
  · show io.unread.length + t.rxWeight + bs.length ≤ io.unread.length + io.inner.rxWeight
    rcases eq_or_ne bs [] with rfl | hne
    · exact Nat.add_le_add_left hrw _
    · have := hlt hne
      omega

/-- A read that is `Pending` is blocked. -/
theorem blocked_inner {t : Transport} (h : io.inner.pollRead n = (none, t)) (b : Bool) :
    Blocked io { io with inner := t, pendingRx := b } := by
  rcases Transport.pollRead_pending h with ⟨hrx, heof, -⟩ | hrx
  · exact .inl ⟨hrx, heof⟩
  · right
    rw [hrx]
    exact Nat.lt_succ_self _

/-- What `poll_read_buf` of `n` bytes comes to. -/
def ReadBufPost (n : Nat) (io : BufIo) : Outcome IoError Bytes → BufIo → Prop
  | .ready bs, io' => Reads bs io io' ∧ bs.length ≤ n ∧
      (bs = [] → 0 < n → Transport.Clean io.inner.rx → io.AtEof ∧ io.unread = [])
  | .pending, io' => Reads [] io io' ∧ Waits io io'
  | .fail _, io' => Reads [] io io' ∧ ¬ Transport.Clean io.inner.rx
  | .panic _, _ => False
  | .diverge, _ => False

theorem pollReadBuf_spec (hw : io.Wf) (n : Nat) : wp (pollReadBuf n) (ReadBufPost n io) io := by
  rw [pollReadBuf, wp_bind, wp_get, bindPost, wp_ite]
  split
  · next hpos =>
    rw [wp_bind, wp_modify, bindPost, wp_pure]
    refine ⟨?_, List.length_take_le _ _, fun hnil hn => ?_⟩
    · have h := reads_advance hw (n := (io.unread.take n).length)
        (by rw [List.length_take]; exact Nat.min_le_right _ _)
      have htake : io.unread.take (io.unread.take n).length = io.unread.take n := by
        rw [List.length_take, ← List.take_eq_take_min]
      rwa [htake] at h
    · rw [List.take_eq_nil_iff] at hnil
      rcases hnil with rfl | hnil
      · exact absurd hn (Nat.lt_irrefl 0)
      · have := hw.unread_eq_nil.mp hnil
        omega
  · next hpos =>
    have hu : io.unread = [] := List.length_eq_zero_iff.mp (by rw [length_unread]; omega)
    rw [wp_bind, wp, callInner]
    rcases hr : io.inner.pollRead n with ⟨_ | e | bs, t⟩
    · exact ⟨reads_inner hr (by simp) true, blocked_inner hr true, rfl, hu⟩
    · exact ⟨reads_inner hr (by simp) false, fun hcl => hcl.not_fail hr⟩
    · refine ⟨reads_direct hu hr false, ((Transport.pollRead_spec hr).1 bs rfl).1,
        fun hnil hn hcl => ?_⟩
      subst hnil
      obtain ⟨hc, hrx, he, -⟩ := hcl.eof_coming hn hr
      exact ⟨⟨hc, hrx, he⟩, hu⟩

/-- The reader panics at a buffer that is full at `MAX_CAPACITY`. -/
structure Overgrown (m : String) (io io' : BufIo) : Prop where
  reads : Reads [] io io'
  grows : ¬ io'.Grows
  pos : io'.pos = io.pos
  full : maxCapacity ≤ io'.buf.len
  msg : m ∈ FastBuf.growthPanics

/-- What `poll_fill_buf` comes to: what was unread stays in front, and nothing is added at the end
of the stream only. -/
def FillPost (forceAppend : Bool) (io : BufIo) : Outcome IoError Bytes → BufIo → Prop
  | .ready bs, io' => bs = io'.unread ∧ Reads [] io io' ∧
      ((io.buf.len ≠ 0 ∧ forceAppend = false ∧ io' = io) ∨
        (io.buf.len = 0 ∨ forceAppend = true) ∧ io'.pos = io.pos ∧
          ∃ new, io'.unread = io.unread ++ new ∧
          (new = [] → Transport.Clean io.inner.rx → io.AtEof) ∧
          (new ≠ [] → io'.inner.rxWeight + new.length ≤ io.inner.rxWeight) ∧
          io'.pendingRx = false)
  | .pending, io' => Reads [] io io' ∧ Blocked io io' ∧ io'.unread = io.unread ∧
      io'.pendingRx = true ∧ (io.buf.len = 0 ∨ forceAppend = true)
  | .fail _, io' => Reads [] io io' ∧ ¬ Transport.Clean io.inner.rx
  | .panic m, io' => Overgrown m io io' ∧ io'.unread = io.unread ∧ forceAppend = true
  | .diverge, _ => False

section Fill
variable [VecAlloc]

omit [VecAlloc] in
/-- The record of a `borrow` is no move. -/
theorem reads_record (f : Fill) (hf : f.ok = true ↔ f.HasRoom) :
    Reads [] io { io with fills := f :: io.fills } := by
  refine ⟨rfl, rfl, rfl, Nat.le_refl _, Nat.le_refl _, id, List.suffix_cons _ _, fun hw => ?_⟩
  refine ⟨hw.capacity_pos, hw.pos_lt, fun g hg => ?_⟩
  rcases List.mem_cons.mp hg with rfl | hg
  · exact hf
  · exact hw.fills g hg

/-- The move of a `borrow`, which reads nothing. -/
theorem reads_borrow {buf : FastBuf} (h : io.buf.borrow = .ok buf) :
    buf.data = io.buf.data ∧ 0 < buf.spare ∧ Reads [] io { io with
      buf := buf, fills := ⟨io.buf.len, io.buf.capacity, true⟩ :: io.fills } := by
  rcases io.buf.borrow_cases with ⟨m, hm, -⟩ | ⟨buf', hb, hd, hs, hc, h0, hroom⟩
  · cases h.symm.trans hm
  · obtain rfl : buf = buf' := Except.ok.inj (h.symm.trans hb)
    have hu : ∀ f, BufIo.unread { io with buf := buf, fills := f } = io.unread := fun f => by
      rw [BufIo.unread, BufIo.unread, hd]
    refine ⟨hd, hs, rfl, rfl, ?_, ?_, Nat.le_refl _, id, List.suffix_cons _ _, fun hw => ?_⟩
    · rw [BufIo.stream, BufIo.stream, hu]; rfl
    · rw [BufIo.weight, BufIo.weight, hu]; exact Nat.le_refl _
    · have hl : buf.len = io.buf.len := congrArg List.length hd
      refine ⟨Nat.lt_of_lt_of_le h0 hc, by rw [hl]; exact hw.pos_lt, fun g hg => ?_⟩
      rcases List.mem_cons.mp hg with rfl | hg
      · exact ⟨fun _ => hroom, fun _ => rfl⟩
      · exact hw.fills g hg

/-- A `borrow` that panics finds a buffer that is full at `MAX_CAPACITY`. -/
theorem full_of_borrow (hw : io.Wf) {m : String} (h : io.buf.borrow = .error m) :
    io.buf.len = io.buf.capacity ∧ maxCapacity ≤ io.buf.capacity := by
  rcases io.buf.borrow_cases with ⟨m', hm, h0 | hf⟩ | ⟨buf, hb, -⟩
  · exact absurd hw.capacity_pos (by omega)
  · exact hf
  · cases h.symm.trans hb

/-- The record of a `borrow` that panics. -/
theorem overgrown_record (hw : io.Wf) {m : String} (h : io.buf.borrow = .error m) :
    Overgrown m io { io with fills := ⟨io.buf.len, io.buf.capacity, false⟩ :: io.fills } := by
  obtain ⟨hl, hc⟩ := full_of_borrow hw h
  have hroom : ¬ Fill.HasRoom ⟨io.buf.len, io.buf.capacity, false⟩ := by
    rintro (hf | hf) <;> simp only at hf <;> omega
  refine ⟨reads_record _ ⟨by simp, fun h => absurd h hroom⟩, fun hg => ?_, rfl, by rw [hl]; exact hc,
    FastBuf.borrow_error hw.capacity_pos h⟩
  cases hg _ List.mem_cons_self

omit [VecAlloc] in
/-- The bytes of a read go behind what is unread. -/
theorem reads_extend {buf : FastBuf} {t : Transport} {new : Bytes} (hpos : io.pos ≤ io.buf.len)
    (hd : buf.data = io.buf.data ++ new) (hcap : buf.capacity = io.buf.capacity)
    (h : io.inner.pollRead n = (some (.ok new), t)) (b : Bool) :
    BufIo.unread { io with buf := buf, inner := t, pendingRx := b } = io.unread ++ new ∧
      Reads [] io { io with buf := buf, inner := t, pendingRx := b } := by
  obtain ⟨hok, -, hrw, heof, htx, hwr, hfl⟩ := Transport.pollRead_spec h
  obtain ⟨-, hc, hlt, -⟩ := hok new rfl
  have hu : BufIo.unread { io with buf := buf, inner := t, pendingRx := b } = io.unread ++ new := by
    show buf.data.drop io.pos = io.buf.data.drop io.pos ++ new
    rw [hd, List.drop_append_of_le_length hpos]
  refine ⟨hu, ?_, heof, ?_, ?_, Transport.pollRead_rx_le h, fun hcl => hcl.pollRead h,
    List.suffix_refl _, fun hw => ?_⟩
  · simp only [BufIo.writeSide, htx, hwr, hfl]
  · rw [BufIo.stream, BufIo.stream, hu, hc, List.nil_append, List.append_assoc]
  · rw [BufIo.weight, BufIo.weight, hu, List.length_append]
    show io.unread.length + new.length + t.rxWeight + 0 ≤ io.unread.length + io.inner.rxWeight
    rcases eq_or_ne new [] with rfl | hne
    · exact Nat.add_le_add_left hrw _
    · have := hlt hne
      omega
  · have hl : buf.len = io.buf.len + new.length := by
      rw [FastBuf.len, hd, List.length_append]; rfl
    refine ⟨by show 0 < buf.capacity; rw [hcap]; exact hw.capacity_pos, ?_, hw.fills⟩
    show io.pos < buf.len ∨ buf.len = 0 ∧ io.pos = 0
    rcases hw.pos_lt with hp | ⟨h0, hp⟩ <;> omega

theorem pollFillBuf_spec (hw : io.Wf) (fa : Bool) : wp (pollFillBuf fa) (FillPost fa io) io := by
  rw [pollFillBuf, wp_bind, wp_get, bindPost]
  simp only [wp_bind, wp_ite]
  by_cases hfill : (io.buf.len == 0 || fa) = true
  swap
  · rw [if_neg hfill]
    simp only [Bool.or_eq_true, beq_iff_eq, not_or, Bool.not_eq_true] at hfill
    exact ⟨rfl, Reads.refl io, .inl ⟨hfill.1, hfill.2, rfl⟩⟩
  rw [if_pos hfill]
  simp only [Bool.or_eq_true, beq_iff_eq] at hfill
  cases hb : io.buf.borrow with
  | error m =>
      have hx : (borrowBuf : PollM IoError BufIo Unit) io = (.panic m, { io with
          fills := ⟨io.buf.len, io.buf.capacity, false⟩ :: io.fills }) := by
        simp [borrowBuf, hb]
      have hforce : fa = true := hfill.resolve_left fun h0 => by
        have := (full_of_borrow hw hb).1
        have := hw.capacity_pos
        omega
      exact wp_of_eq hx ⟨overgrown_record hw hb, rfl, hforce⟩
  | ok buf =>
      have hx : (borrowBuf : PollM IoError BufIo Unit) io = (.ready (), { io with
          buf := buf, fills := ⟨io.buf.len, io.buf.capacity, true⟩ :: io.fills }) := by
        simp [borrowBuf, hb]
      obtain ⟨hd, hs, hr⟩ := reads_borrow hb
      refine wp_of_eq hx ?_
      generalize hi : ({ io with
        buf := buf, fills := ⟨io.buf.len, io.buf.capacity, true⟩ :: io.fills } : BufIo) = io₁ at hr ⊢
      have hinner : io₁.inner = io.inner := by rw [← hi]
      have hbuf : io₁.buf = buf := by rw [← hi]
      have hu : io₁.unread = io.unread := by
        rw [← hi, BufIo.unread, BufIo.unread]
        exact congrArg _ hd
      have hblk : ∀ {io' : BufIo}, Blocked io₁ io' → Blocked io io' := by
        intro io' h
        rwa [Blocked, hinner] at h
      rw [bindPost, wp_bind, wp_get, bindPost, wp_bind, wp, callInner, bindPost]
      rcases hp : io₁.inner.pollRead io₁.buf.spare with ⟨_ | e | new, t⟩
      · exact ⟨hr.trans (reads_inner hp (by simp) true), hblk (blocked_inner hp true), hu, rfl, hfill⟩
      · exact ⟨hr.trans (reads_inner hp (by simp) false), fun hcl => (hinner ▸ hcl).not_fail hp⟩
      · obtain ⟨hle, -⟩ := (Transport.pollRead_spec hp).1 new rfl
        obtain ⟨buf', he, hd', hc'⟩ := FastBuf.extend_ok hle
        obtain ⟨hu', hr'⟩ := reads_extend (hr.wf hw).pos_le hd' hc' hp false
        refine wp_of_eq (r := .ready _) (t := { io₁ with buf := buf', inner := t, pendingRx := false })
          (by simp [he, orPanic])
          ⟨rfl, hr.trans hr', .inr ⟨hfill, by rw [← hi], new, hu ▸ hu', ?_, ?_, rfl⟩⟩
        · rintro rfl hcl
          obtain ⟨hc, hrx, heof, -⟩ := Transport.Clean.eof_coming (hinner ▸ hcl) (hbuf ▸ hs) hp
          rw [hinner] at hc hrx heof
          exact ⟨hc, hrx, heof⟩
        · intro hne
          rw [← hinner]
          exact ((Transport.pollRead_spec hp).1 new rfl).2.2.1 hne

end Fill

/-- `consume` of bytes that are there. -/
theorem consume_eq {ε : Type} (hw : io.Wf) (hn : n ≤ io.unread.length) :
    (consume n : PollM ε BufIo Unit) io = (.ready (), io.advance n) := by
  have hpos := hw.pos_le
  rw [length_unread] at hn
  have hle : io.pos + n ≤ io.buf.len := by omega
  simp [consume, assert, hle]

/-- Taking the whole buffer is a move over what is unread. -/
theorem reads_takeReadBuf (hw : io.Wf) (hp : io.pos = 0) :
    io.buf.data = io.unread ∧ Reads io.unread io
      { io with buf := .withCapacity io.buf.capacity, pos := 0 } := by
  have hu : io.buf.data = io.unread := by rw [unread, hp]; rfl
  refine ⟨hu, rfl, rfl, rfl, ?_, Nat.le_refl _, id, List.suffix_refl _, fun _ => ?_⟩
  · show 0 + io.inner.rxWeight + io.unread.length ≤ io.unread.length + io.inner.rxWeight
    omega
  · exact ⟨hw.capacity_pos, .inr ⟨rfl, rfl⟩, hw.fills⟩

theorem unread_ensureCapacity [VecAlloc] (n : Nat) :
    BufIo.unread { io with buf := io.buf.ensureCapacity n } = io.unread := by
  rw [unread, unread, io.buf.data_ensureCapacity n]

/-- More capacity is no move. -/
theorem reads_ensureCapacity [VecAlloc] (n : Nat) :
    Reads [] io { io with buf := io.buf.ensureCapacity n } := by
  have hu : BufIo.unread { io with buf := io.buf.ensureCapacity n } = io.unread :=
    unread_ensureCapacity n
  refine ⟨rfl, rfl, ?_, ?_, Nat.le_refl _, id, List.suffix_refl _,
    fun hw => ⟨?_, ?_, hw.fills⟩⟩
  · rw [BufIo.stream, BufIo.stream, hu]; rfl
  · rw [BufIo.weight, BufIo.weight, hu]; exact Nat.le_refl _
  · exact Nat.lt_of_lt_of_le hw.capacity_pos (io.buf.capacity_ensureCapacity n)
  · show io.pos < (io.buf.ensureCapacity n).len ∨ (io.buf.ensureCapacity n).len = 0 ∧ io.pos = 0
    rw [io.buf.len_ensureCapacity]
    exact hw.pos_lt

end BufIo

end HreqH1
