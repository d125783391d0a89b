import HreqH1.Reading.Scan

/-!
# Reading — terminators

The empty line that ends a head, by its bytes alone: `\r\n\r\n` or `\n\n` (`Terminated`).  The scan
keeps one position for the two and goes back to the start on a mismatch, without another look at the
bytes it has passed; so it sees the first terminator only where it is at the start in front of it.
`Settled` says by the bytes where that is: behind a byte that is no line end, and from there on
behind each of the blocks `\r\r`, `\n\r` and `\r\n\r\r`.

`stopsAt_iff`: the scan stops at the first terminator exactly where it is settled in front of it.
-/

namespace HreqH1
open PollM BufIo

/-! ### The position, by the bytes -/

/-- `bs` ends with a terminator. -/
def Terminated (bs : Bytes) : Prop := endOfHeader <:+ bs ∨ [10, 10] <:+ bs

instance : DecidablePred Terminated := fun _ => inferInstanceAs (Decidable (_ ∨ _))

/-- The first terminator in `s` ends at `n`. -/
structure FirstTerminator (s : Bytes) (n : Nat) : Prop where
  le : n ≤ s.length
  terminated : Terminated (s.take n)
  first : ∀ k < n, ¬ Terminated (s.take k)

/-- A byte that is no line end, and blocks behind it that bring the scan back to the start. -/
inductive Settled : Bytes → Prop where
  | nil : Settled []
  | other (q : Bytes) {b : Byte} (h13 : b ≠ 13) (h10 : b ≠ 10) : Settled (q ++ [b])
  | crCr {q : Bytes} (h : Settled q) : Settled (q ++ [13, 13])
  | lfCr {q : Bytes} (h : Settled q) : Settled (q ++ [10, 13])
  | crLfCrCr {q : Bytes} (h : Settled q) : Settled (q ++ [13, 10, 13, 13])

/-- What the scan's position says of the bytes before it. -/
inductive Seen : Nat → Bytes → Prop where
  | start {q : Bytes} (h : Settled q) : Seen 0 q
  | cr {q : Bytes} (h : Settled q) : Seen 1 (q ++ [13])
  | crLf {q : Bytes} (h : Settled q) : Seen 2 (q ++ [13, 10])
  | crLfCr {q : Bytes} (h : Settled q) : Seen 3 (q ++ [13, 10, 13])
  | lf {q : Bytes} (h : Settled q) : Seen 3 (q ++ [10])

theorem endIndexAfter_append (bs cs : Bytes) :
    endIndexAfter (bs ++ cs) = cs.foldl endIndexStep (endIndexAfter bs) := List.foldl_append

/-- A byte that is no line end leads back to the start. -/
theorem endIndexStep_other {b : Byte} (h13 : b ≠ 13) (h10 : b ≠ 10) (i : Nat) :
    endIndexStep i b = 0 := by
  have h : endOfHeader[i]? ≠ some b := by
    intro h
    have hm := List.mem_of_getElem? h
    simp only [endOfHeader, List.mem_cons, List.not_mem_nil, or_false] at hm
    rcases hm with hm | hm | hm | hm
    · exact h13 hm
    · exact h10 hm
    · exact h13 hm
    · exact h10 hm
  rw [endIndexStep, if_neg h, if_neg fun hb => h10 hb.2]

/-- The scan is at the start behind settled bytes. -/
theorem Settled.endIndexAfter {q : Bytes} (h : Settled q) : endIndexAfter q = 0 := by
  induction h with
  | nil => rfl
  | other q h13 h10 => rw [endIndexAfter_append]; exact endIndexStep_other h13 h10 _
  | crCr h ih => rw [endIndexAfter_append, ih]; rfl
  | lfCr h ih => rw [endIndexAfter_append, ih]; rfl
  | crLfCrCr h ih => rw [endIndexAfter_append, ih]; rfl

theorem terminated_lf (q : Bytes) : Terminated (q ++ [10, 10]) := .inr ⟨q, rfl⟩

theorem terminated_crlf (q : Bytes) : Terminated (q ++ [13, 10, 13, 10]) := .inl ⟨q, rfl⟩

/-- One more byte that ends no terminator. -/
theorem Seen.step {i : Nat} {q : Bytes} (h : Seen i q) (b : Byte) (ht : ¬ Terminated (q ++ [b])) :
    Seen (endIndexStep i b) (q ++ [b]) := by
  by_cases h13 : b = 13
  · subst h13
    cases h with
    | start h => exact .cr h
    | cr h => rw [List.append_assoc]; exact .start (.crCr h)
    | crLf h => rw [List.append_assoc]; exact .crLfCr h
    | crLfCr h => rw [List.append_assoc]; exact .start (.crLfCrCr h)
    | lf h => rw [List.append_assoc]; exact .start (.lfCr h)
  · by_cases h10 : b = 10
    · subst h10
      cases h with
      | start h => exact .lf h
      | cr h => rw [List.append_assoc]; exact .crLf h
      | @crLf q h =>
          -- `\r\n\n`, where the position is lost.
          refine absurd ?_ ht
          have := terminated_lf (q ++ [13])
          rwa [List.append_assoc] at this ⊢
      | crLfCr h => rw [List.append_assoc] at ht; exact absurd (terminated_crlf _) ht
      | lf h => rw [List.append_assoc] at ht; exact absurd (terminated_lf _) ht
    · rw [endIndexStep_other h13 h10]
      exact .start (.other q h13 h10)

/-- Before the first terminator the position says what has been seen. -/
theorem seen_of_not_terminated {bs : Bytes} (h : ∀ k ≤ bs.length, ¬ Terminated (bs.take k)) :
    Seen (endIndexAfter bs) bs := by
  induction bs using List.reverseRecOn with
  | nil => exact .start .nil
  | append_singleton bs b ih =>
      rw [endIndexAfter_append]
      refine (ih fun k hk => ?_).step b ?_
      · have ht : (bs ++ [b]).take k = bs.take k := List.take_append_of_le_length hk
        rw [← ht]
        exact h k (by rw [List.length_append]; omega)
      · have := h (bs ++ [b]).length (Nat.le_refl _)
        rwa [List.take_length] at this

theorem Seen.lt {i : Nat} {q : Bytes} (h : Seen i q) : i < 4 := by
  cases h with
  | start => decide
  | cr => decide
  | crLf => decide
  | crLfCr => decide
  | lf => decide

theorem Seen.settled {q : Bytes} (h : Seen 0 q) : Settled q := by
  cases h with
  | start h => exact h

/-- A terminator is a head's end only where the scan is at the start in front of it. -/
theorem settled_of_seen {i : Nat} {q t : Bytes} (hs : Seen i q)
    (ht : t = endOfHeader ∨ t = [10, 10]) (h : t.foldl endIndexStep i = 4) : Settled q := by
  have hi := hs.lt
  obtain rfl : i = 0 := by
    rcases ht with rfl | rfl <;> interval_cases i <;> first | rfl | (revert h; decide)
  exact hs.settled

/-- Where a step moves the position on. -/
theorem endIndexStep_succ {i j : Nat} {b : Byte} (h : endIndexStep i b = j + 1) :
    endOfHeader[i]? = some b ∧ j = i ∨ i = 0 ∧ b = 10 ∧ j = 2 := by
  rw [endIndexStep] at h
  split at h
  · next hb => exact .inl ⟨hb, (Nat.succ.inj h).symm⟩
  · split at h
    · next hb => exact .inr ⟨hb.1, hb.2, (Nat.succ.inj h).symm⟩
    · cases h

/-- The bytes at the end that a position stands for. -/
def EndsAt (i : Nat) (bs : Bytes) : Prop :=
  endOfHeader.take i <:+ bs ∨ i = 3 ∧ [10] <:+ bs ∨ i = 4 ∧ [10, 10] <:+ bs

theorem suffix_append_singleton {t bs : Bytes} (h : t <:+ bs) (b : Byte) :
    t ++ [b] <:+ bs ++ [b] := by
  obtain ⟨q, rfl⟩ := h
  exact ⟨q, (List.append_assoc q t [b]).symm⟩

theorem endsAt_endIndexAfter (bs : Bytes) : EndsAt (endIndexAfter bs) bs := by
  induction bs using List.reverseRecOn with
  | nil => exact .inl (List.suffix_refl _)
  | append_singleton bs b ih =>
      rw [endIndexAfter_append]
      show EndsAt (endIndexStep (endIndexAfter bs) b) (bs ++ [b])
      generalize endIndexAfter bs = i at ih
      cases hj : endIndexStep i b with
      | zero => exact .inl List.nil_suffix
      | succ j =>
          rcases endIndexStep_succ hj with ⟨hb, rfl⟩ | ⟨rfl, rfl, rfl⟩
          · have htake : endOfHeader.take (j + 1) = endOfHeader.take j ++ [b] :=
              List.take_add_one.trans (by rw [hb]; rfl)
            rcases ih with ih | ⟨rfl, ih⟩ | ⟨rfl, -⟩
            · exact .inl (htake ▸ suffix_append_singleton ih b)
            · obtain rfl : (10 : Byte) = b := Option.some.inj hb
              exact .inr (.inr ⟨rfl, suffix_append_singleton ih 10⟩)
            · cases hb
          · exact .inr (.inl ⟨rfl, List.suffix_append _ _⟩)

/-- A head ends with a terminator. -/
theorem HeadEnd.terminated {bs : Bytes} (h : HeadEnd bs) : Terminated bs := by
  have he := endsAt_endIndexAfter bs
  rw [h.1] at he
  rcases he with he | ⟨hi, -⟩ | ⟨-, he⟩
  · exact .inl he
  · cases hi
  · exact .inr he

/-! ### Heads -/

theorem FirstTerminator.not_before {s : Bytes} {n : Nat} (h : FirstTerminator s n) {q t : Bytes}
    (he : s.take n = q ++ t) (ht : t ≠ []) : ∀ k ≤ q.length, ¬ Terminated (q.take k) := by
  intro k hk
  have hlen := congrArg List.length he
  rw [List.length_take, List.length_append] at hlen
  have hpos := List.length_pos_iff.mpr ht
  have hn := h.le
  have hq : q.take k = s.take k := by
    have ht' : (q ++ t).take k = q.take k := List.take_append_of_le_length hk
    rw [← ht', ← he, List.take_take]
    exact congrArg (s.take ·) (by omega)
  rw [hq]
  exact h.first k (by omega)

/-- The bytes in front of the terminator that ends `bs` are settled. -/
def SettledBefore (bs : Bytes) : Prop :=
  ∃ q t, bs = q ++ t ∧ (t = endOfHeader ∨ t = [10, 10]) ∧ Settled q

/-- **Where the scan sees the first terminator.** -/
theorem FirstTerminator.headEnd_iff {s : Bytes} {n : Nat} (h : FirstTerminator s n) :
    HeadEnd (s.take n) ↔ SettledBefore (s.take n) := by
  constructor
  · intro hh
    obtain ⟨q, t, he, ht⟩ : ∃ q t, s.take n = q ++ t ∧ (t = endOfHeader ∨ t = [10, 10]) := by
      rcases h.terminated with ⟨q, hq⟩ | ⟨q, hq⟩
      · exact ⟨q, _, hq.symm, .inl rfl⟩
      · exact ⟨q, _, hq.symm, .inr rfl⟩
    have hne : t ≠ [] := by rcases ht with rfl | rfl <;> decide
    refine ⟨q, t, he, ht, settled_of_seen (seen_of_not_terminated (h.not_before he hne)) ht ?_⟩
    rw [← endIndexAfter_append, ← he]
    exact hh.1
  · rintro ⟨q, t, he, ht, hq⟩
    refine ⟨?_, fun k hk => ?_⟩
    · rw [he, endIndexAfter_append, hq.endIndexAfter]
      rcases ht with rfl | rfl <;> rfl
    · rw [List.length_take] at hk
      rw [List.take_take, Nat.min_eq_left (by omega)]
      refine Nat.ne_of_lt (seen_of_not_terminated fun j hj => ?_).lt
      rw [List.length_take] at hj
      rw [List.take_take]
      exact h.first _ (by omega)

/-! ### The scan -/

/-- The read position is not so far into the buffer that a head could find it full at
`MAX_CAPACITY`. -/
def Roomy (io : BufIo) : Prop := io.pos + readBufInitSize ≤ maxCapacity

/-- `poll_for_crlfcrlf` over the stream `s`, in whatever pieces that comes, gives the first `n`
bytes to its parse function and consumes them; until then it is `Pending` where the transport is,
and has consumed nothing. -/
def StopsAt [VecAlloc] (s : Bytes) (n : Nat) : Prop :=
  ∀ (T : Type) (f : Bytes → Bool → T) (io : BufIo), io.Wf → Roomy io →
    Transport.Clean io.inner.rx → io.stream = s →
    wp (pollForCrlfcrlf f) (fun r io' => match r with
      | .ready ret => ret = f (s.take n) false ∧ io'.stream = s.drop n
      | .pending => io'.stream = s ∧ io'.inner.rx.length < io.inner.rx.length
      | _ => False) io

/-- A stream of which all is buffered, and that has ended. -/
def buffered (s : Bytes) : BufIo :=
  { BufIo.withCapacity 0 ⟨[], true, [], [], 0⟩ with buf := ⟨s, s.length + 1, Nat.le_succ _⟩ }

theorem buffered_wf (s : Bytes) : (buffered s).Wf := by
  refine ⟨Nat.succ_pos _, ?_, fun f hf => by cases hf⟩
  rcases Nat.eq_zero_or_pos s.length with h0 | hpos
  · exact .inr ⟨h0, rfl⟩
  · exact .inl hpos

theorem buffered_roomy (s : Bytes) : Roomy (buffered s) := by
  show 0 + 16384 ≤ 10485760
  decide

theorem buffered_clean (s : Bytes) : Transport.Clean (buffered s).inner.rx := fun _ he => by cases he

theorem stream_buffered (s : Bytes) : (buffered s).stream = s := List.append_nil s

variable {io io' : BufIo} {s : Bytes}

/-- A scan does not panic where there is room. -/
theorem Roomy.not_overgrown {m : String} (h : Roomy io) (ho : Overgrown m io io')
    (hu : io'.unread.length < readBufInitSize) : False := by
  have hfull := ho.full
  rw [length_unread] at hu
  rw [Roomy, ← ho.pos] at h
  omega

variable [VecAlloc]

/-- A head within the limit is found. -/
theorem stopsAt_of_headEnd {n : Nat} (hn : n ≤ readBufInitSize) (hh : HeadEnd (s.take n)) :
    StopsAt s n := by
  intro T f io hw hroom hcl hst
  refine (pollForCrlfcrlf_spec hw).mono fun r io' h => ?_
  have hlen : (s.take n).length ≤ readBufInitSize := Nat.le_trans (List.length_take_le n s) hn
  have hp := h.of_headEnd hcl (hst.trans (List.take_append_drop n s).symm) hh hlen
  cases r with
  | ready ret => exact hp
  | pending => exact ⟨hp.1.stream.symm.trans hst, hp.2⟩
  | fail e => exact hp
  | panic m => exact hroom.not_overgrown hp.1 hp.2
  | diverge => exact hp

/-- A scan that stops at `n` has seen the end of a head there. -/
theorem headEnd_of_stopsAt {n : Nat} (h : StopsAt s n) : HeadEnd (s.take n) := by
  have hpost := pollForCrlfcrlf_spec (f := fun head eos => (head, eos)) (buffered_wf s)
  have hstop := h (Bytes × Bool) (fun head eos => (head, eos)) _ (buffered_wf s) (buffered_roomy s)
    (buffered_clean s) (stream_buffered s)
  rw [wp] at hpost hstop
  generalize (pollForCrlfcrlf (fun head eos => (head, eos)) (buffered s)).1 = r at hpost hstop
  cases r with
  | ready ret =>
      obtain ⟨head, eos, hret, hf⟩ := hpost
      obtain ⟨rfl, rfl⟩ := Prod.mk.inj (hret.symm.trans hstop.1)
      exact (hf.ended rfl).1
  | pending => exact absurd hstop.2 (Nat.not_lt_zero _)
  | fail e => exact hstop.elim
  | panic m => exact hstop.elim
  | diverge => exact hstop.elim

/-- **When the scan stops at the first terminator**: exactly where the bytes in front of it are
settled. -/
theorem stopsAt_iff {n : Nat} (h : FirstTerminator s n) (hn : n ≤ readBufInitSize) :
    StopsAt s n ↔ SettledBefore (s.take n) :=
  ⟨fun hs => h.headEnd_iff.mp (headEnd_of_stopsAt hs),
    fun hq => stopsAt_of_headEnd hn (h.headEnd_iff.mpr hq)⟩

/-- `a\n\n`. -/
def lfHead : Bytes := [97, 10, 10]

/-- `a\r\n\n`. -/
def mixedHead : Bytes := [97, 13, 10, 10]

omit [VecAlloc] in
theorem stops_at_lf :
    letI := VecAlloc.amortized
    FirstTerminator lfHead 3 ∧ (StopsAt lfHead 3 ↔ SettledBefore (lfHead.take 3)) := by
  have h : FirstTerminator lfHead 3 := ⟨by decide, by decide, by decide⟩
  exact ⟨h, @stopsAt_iff lfHead VecAlloc.amortized 3 h (by decide)⟩

omit [VecAlloc] in
theorem misses_mixed_head :
    letI := VecAlloc.amortized
    FirstTerminator mixedHead 4 ∧ ¬ StopsAt mixedHead 4 := by
  refine ⟨⟨by decide, by decide, by decide⟩, fun h => ?_⟩
  exact absurd (@headEnd_of_stopsAt mixedHead VecAlloc.amortized 4 h).1 (by decide)

end HreqH1
