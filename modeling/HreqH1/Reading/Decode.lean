import HreqH1.Model.Chunked
import HreqH1.Reading.Reads

/-!
# Reading — what the chunked decoder moves over

Each loop of the decoder, by the bytes it moves over: `poll_chunk_size` over hex digits and the
`;` or `\r` behind them, `poll_skip_until_lf` over everything up to a `\n`.  Nothing is assumed of
the bytes.
-/

namespace HreqH1.ChunkedDecoder
open PollM BufIo

/-- A hex digit. -/
def IsHex (b : Byte) : Prop := (toDigit 16 b).isSome = true

/-- The end of a chunk size, for the decoder. -/
def EndsSize (b : Byte) : Prop := b = 59 ∨ b = 13

theorem not_isHex_of_endsSize {b : Byte} (h : EndsSize b) : ¬ IsHex b := by
  rw [IsHex]
  rcases h with rfl | rfl <;> decide

/-- Why a read for one more byte gives up: the transport fails, or the stream has ended. -/
def Starved (io io' : BufIo) : Prop :=
  ¬ Transport.Clean io.inner.rx ∨ io'.AtEof ∧ io'.unread = []

variable {s s' : Dec} {n : Nat} {ds : Bytes} {c : Byte}

theorem Starved.after {io io' io'' : BufIo} (h : Reads ds io io') (hs : Starved io' io'') :
    Starved io io'' :=
  hs.imp (fun hc hcl => hc (h.clean hcl)) id

/-- Reading one byte. -/
theorem readByte_spec (hw : s.2.Wf) :
    wp (readRecv 1) (fun r s' => s'.1 = s.1 ∧ match r with
      | .ready [] => Reads [] s.2 s'.2 ∧ Starved s.2 s'.2
      | .ready (c :: _) => Reads [c] s.2 s'.2
      | .pending => Reads [] s.2 s'.2 ∧ Waits s.2 s'.2
      | .fail _ => Reads [] s.2 s'.2 ∧ Starved s.2 s'.2
      | .panic _ | .diverge => False) s := by
  rw [readRecv, wp_zoom]
  refine (pollReadBuf_spec hw 1).mono fun r io' h => ⟨rfl, ?_⟩
  cases r with
  | pending => exact h
  | fail e => exact ⟨h.1, .inl h.2⟩
  | panic m => exact h
  | diverge => exact h
  | ready bs =>
      obtain ⟨hr, hle, heof⟩ := h
      cases bs with
      | nil =>
          refine ⟨hr, ?_⟩
          by_cases hcl : Transport.Clean s.2.inner.rx
          · obtain ⟨he, hu⟩ := heof rfl Nat.one_pos hcl
            have hst := hr.stream
            rw [he.stream hu, List.nil_append] at hst
            exact .inr ⟨he.reads hr, (List.append_eq_nil_iff.mp hst.symm).1⟩
          · exact .inl hcl
      | cons c bs =>
          cases bs with
          | nil => exact hr
          | cons _ _ => exact absurd hle (by simp)

/-! ### `poll_chunk_size` -/

/-- What a round of `poll_chunk_size` comes to. -/
def SizeRoundPost (s : Dec) : Outcome IoError (Flow Unit Unit) → Dec → Prop
  | .ready (.done _), s' => ∃ c, Reads [c] s.2 s'.2 ∧ EndsSize c ∧ s'.1 = s.1
  | .ready (.again _), s' => ∃ c, Reads [c] s.2 s'.2 ∧ IsHex c ∧
      s'.1 = { s.1 with chunkSizeBuf := s.1.chunkSizeBuf ++ [c] }
  | .pending, s' => Reads [] s.2 s'.2 ∧ Waits s.2 s'.2 ∧ s'.1 = s.1
  | .fail _, s' => Reads [] s.2 s'.2 ∧ Starved s.2 s'.2 ∨
      ∃ c, Reads [c] s.2 s'.2 ∧
        (IsHex c ∧ 10 < (s.1.chunkSizeBuf ++ [c]).length ∨ ¬ IsHex c ∧ ¬ EndsSize c)
  | .panic _, _ => False
  | .diverge, _ => False

theorem sizeRound_spec (hw : s.2.Wf) : wp (sizeRound ()) (SizeRoundPost s) s := by
  rw [sizeRound, wp_bind]
  refine (readByte_spec hw).mono fun r s' h => ?_
  obtain ⟨hv, h⟩ := h
  cases r with
  | pending => exact ⟨h.1, h.2, hv⟩
  | fail e => exact .inl h
  | panic m => exact h
  | diverge => exact h
  | ready bs =>
      cases bs with
      | nil => exact .inl h
      | cons c _ =>
          simp only [bindPost, wp_ite]
          split
          · next hc => exact ⟨c, h, hc, hv⟩
          · next hc =>
            split
            · next hd =>
              rw [wp_bind, update, wp_modify, bindPost, wp_bind, wp_get, bindPost, wp_ite]
              split
              · next hl => exact .inr ⟨c, h, .inl ⟨hd, hv ▸ hl⟩⟩
              · exact ⟨c, h, hd, congrArg (fun v => { v with chunkSizeBuf := v.chunkSizeBuf ++ [c] }) hv⟩
            · next hd => exact .inr ⟨c, h, .inr ⟨hd, hc⟩⟩

theorem sizeRound_decreases : Decreases (fun _ (s : Dec) => s.2.Wf) (fun _ => weight) sizeRound := by
  intro _ s _ s' hw hb
  obtain ⟨c, hr, -⟩ := wp_elim (sizeRound_spec hw) hb
  exact ⟨hr.wf hw, hr.weight⟩

/-- What `poll_chunk_size` comes to. -/
def SizePost (s : Dec) : Outcome IoError Unit → Dec → Prop
  | .ready _, s' => ∃ ds c, Reads (ds ++ [c]) s.2 s'.2 ∧ (∀ d ∈ ds, IsHex d) ∧ EndsSize c ∧
      s'.1 = { s.1 with chunkSizeBuf := s.1.chunkSizeBuf ++ ds }
  | .pending, s' => ∃ ds, Reads ds s.2 s'.2 ∧ (∀ d ∈ ds, IsHex d) ∧ Waits s.2 s'.2 ∧
      s'.1 = { s.1 with chunkSizeBuf := s.1.chunkSizeBuf ++ ds }
  | .fail _, s' => ∃ ds, (∀ d ∈ ds, IsHex d) ∧
      (Reads ds s.2 s'.2 ∧
          (Starved s.2 s'.2 ∨ ds ≠ [] ∧ 10 < (s.1.chunkSizeBuf ++ ds).length) ∨
        ∃ c, Reads (ds ++ [c]) s.2 s'.2 ∧ ¬ IsHex c ∧ ¬ EndsSize c)
  | .panic _, _ => False
  | .diverge, _ => False

theorem pollChunkSize_spec (hw : s.2.Wf) : wp pollChunkSize (SizePost s) s := by
  -- The digits that the rounds so far have moved over.
  refine wp_loop sizeRound_decreases (fun _ s' => ∃ ds, Reads ds s.2 s'.2 ∧ (∀ d ∈ ds, IsHex d) ∧
    s'.1 = { s.1 with chunkSizeBuf := s.1.chunkSizeBuf ++ ds }) ?_ hw
    ⟨[], Reads.refl _, by simp, by rw [List.append_nil]⟩
  rintro _ s₁ hw₁ ⟨ds, hr, hds, hv⟩
  have hbuf : s₁.1.chunkSizeBuf = s.1.chunkSizeBuf ++ ds := by rw [hv]
  refine (sizeRound_spec hw₁).mono fun r s' h => ?_
  cases r with
  | ready f =>
      cases f with
      | done _ =>
          obtain ⟨c, hr', hc, hv'⟩ := h
          exact ⟨ds, c, hr.trans hr', hds, hc, hv'.trans hv⟩
      | again _ =>
          obtain ⟨c, hr', hc, hv'⟩ := h
          refine ⟨ds ++ [c], hr.trans hr', ?_, ?_⟩
          · intro d hd
            rcases List.mem_append.mp hd with hd | hd
            · exact hds d hd
            · rw [List.mem_singleton.mp hd]; exact hc
          · rw [hv', hbuf, hv, List.append_assoc]
  | pending =>
      obtain ⟨hr', hb, hv'⟩ := h
      exact ⟨ds, List.append_nil ds ▸ hr.trans hr', hds, hb.after hr hr', hv'.trans hv⟩
  | fail e =>
      rcases h with ⟨hr', hs⟩ | ⟨c, hr', ⟨hc, hl⟩ | hc⟩
      · exact ⟨ds, hds, .inl ⟨List.append_nil ds ▸ hr.trans hr', .inl (hs.after hr)⟩⟩
      · refine ⟨ds ++ [c], ?_, .inl ⟨hr.trans hr', .inr ⟨by simp, ?_⟩⟩⟩
        · intro d hd
          rcases List.mem_append.mp hd with hd | hd
          · exact hds d hd
          · rw [List.mem_singleton.mp hd]; exact hc
        · rwa [hbuf, List.append_assoc] at hl
      · exact ⟨ds, hds, .inr ⟨c, hr.trans hr', hc⟩⟩
  | panic m => exact h
  | diverge => exact h

/-! ### `poll_skip_until_lf` -/

/-- What a round of `poll_skip_until_lf` comes to. -/
def SkipRoundPost (s : Dec) (r : Outcome IoError (Flow Unit Unit)) (s' : Dec) : Prop :=
  s'.1 = s.1 ∧ match r with
    | .ready (.done _) => Reads [10] s.2 s'.2
    | .ready (.again _) => ∃ c, Reads [c] s.2 s'.2 ∧ c ≠ 10
    | .pending => Reads [] s.2 s'.2 ∧ Waits s.2 s'.2
    | .fail _ => Reads [] s.2 s'.2 ∧ Starved s.2 s'.2
    | .panic _ => False
    | .diverge => False

theorem skipRound_spec (hw : s.2.Wf) : wp (skipRound ()) (SkipRoundPost s) s := by
  rw [skipRound, wp_bind]
  refine (readByte_spec hw).mono fun r s' h => ?_
  obtain ⟨hv, h⟩ := h
  cases r with
  | pending => exact ⟨hv, h⟩
  | fail e => exact ⟨hv, h⟩
  | panic m => exact ⟨hv, h⟩
  | diverge => exact ⟨hv, h⟩
  | ready bs =>
      cases bs with
      | nil => exact ⟨hv, h⟩
      | cons c _ =>
          simp only [bindPost, wp_ite]
          split
          · next hc => exact ⟨hv, hc ▸ h⟩
          · next hc => exact ⟨hv, c, h, hc⟩

theorem skipRound_decreases : Decreases (fun _ (s : Dec) => s.2.Wf) (fun _ => weight) skipRound := by
  intro _ s _ s' hw hb
  obtain ⟨-, c, hr, -⟩ := wp_elim (skipRound_spec hw) hb
  exact ⟨hr.wf hw, hr.weight⟩

/-- What `poll_skip_until_lf` comes to. -/
def SkipPost (s : Dec) (r : Outcome IoError Unit) (s' : Dec) : Prop :=
  s'.1 = s.1 ∧ ∃ xs, 10 ∉ xs ∧ match r with
    | .ready _ => Reads (xs ++ [10]) s.2 s'.2
    | .pending => Reads xs s.2 s'.2 ∧ Waits s.2 s'.2
    | .fail _ => Reads xs s.2 s'.2 ∧ Starved s.2 s'.2
    | .panic _ => False
    | .diverge => False

theorem pollSkipUntilLf_spec (hw : s.2.Wf) : wp pollSkipUntilLf (SkipPost s) s := by
  refine wp_loop skipRound_decreases (fun _ s' => s'.1 = s.1 ∧ ∃ xs, 10 ∉ xs ∧ Reads xs s.2 s'.2)
    ?_ hw ⟨rfl, [], by simp, Reads.refl _⟩
  rintro _ s₁ hw₁ ⟨hv, xs, hxs, hr⟩
  refine (skipRound_spec hw₁).mono fun r s' h => ?_
  obtain ⟨hv', h⟩ := h
  cases r with
  | ready f =>
      cases f with
      | done _ => exact ⟨hv'.trans hv, xs, hxs, hr.trans h⟩
      | again _ =>
          obtain ⟨c, hr', hc⟩ := h
          refine ⟨hv'.trans hv, xs ++ [c], fun hm => ?_, hr.trans hr'⟩
          rcases List.mem_append.mp hm with hm | hm
          · exact hxs hm
          · exact hc (List.mem_singleton.mp hm).symm
  | pending =>
      exact ⟨hv'.trans hv, xs, hxs, List.append_nil xs ▸ hr.trans h.1, h.2.after hr h.1⟩
  | fail e => exact ⟨hv'.trans hv, xs, hxs, List.append_nil xs ▸ hr.trans h.1, h.2.after hr⟩
  | panic m => exact h.elim
  | diverge => exact h.elim

/-! ### `poll_read` -/

/-- What a round of `poll_read` comes to, by the state it starts in: it moves over `bs`. -/
inductive RoundMove (n : Nat) (s s' : Dec) : Bytes → Outcome IoError (Flow Unit Bytes) → Prop where
  | sized {ds : Bytes} {c : Byte} {amount : Nat} (hs : s.1.state = .chunkSize)
      (hds : ∀ d ∈ ds, IsHex d) (hc : EndsSize c)
      (ha : fromStrRadix 16 (s.1.chunkSizeBuf ++ ds) = some amount)
      (hv : s'.1 = ⟨amount, if amount = 0 then .fin else .chunkSizeLf, []⟩) :
      RoundMove n s s' (ds ++ [c]) (.ready (.again ()))
  | sizing {ds : Bytes} (hs : s.1.state = .chunkSize) (hds : ∀ d ∈ ds, IsHex d)
      (hb : Waits s.2 s'.2)
      (hv : s'.1 = { s.1 with chunkSizeBuf := s.1.chunkSizeBuf ++ ds }) :
      RoundMove n s s' ds .pending
  | sizeLf {xs : Bytes} (hs : s.1.state = .chunkSizeLf) (hxs : 10 ∉ xs)
      (hv : s'.1 = { s.1 with state := .chunk }) :
      RoundMove n s s' (xs ++ [10]) (.ready (.again ()))
  | chunkLf {xs : Bytes} (hs : s.1.state = .chunkLf) (hxs : 10 ∉ xs)
      (hv : s'.1 = { s.1 with state := .chunkSize }) :
      RoundMove n s s' (xs ++ [10]) (.ready (.again ()))
  | skipping {xs : Bytes} (hs : s.1.state = .chunkSizeLf ∨ s.1.state = .chunkLf) (hxs : 10 ∉ xs)
      (hb : Waits s.2 s'.2) (hv : s'.1 = s.1) :
      RoundMove n s s' xs .pending
  | data {bs : Bytes} (hs : s.1.state = .chunk) (hle : bs.length ≤ min s.1.amountLeft n)
      (he : bs = [] → 0 < min s.1.amountLeft n → Starved s.2 s'.2)
      (hv : s'.1 = ⟨s.1.amountLeft - bs.length,
        if s.1.amountLeft - bs.length = 0 then .chunkLf else .chunk, s.1.chunkSizeBuf⟩) :
      RoundMove n s s' bs (.ready (.done bs))
  | waiting (hs : s.1.state = .chunk) (hb : Waits s.2 s'.2)
      (hv : s'.1 = s.1) : RoundMove n s s' [] .pending
  | ended (hs : s.1.state = .fin) (hv : s' = s) : RoundMove n s s' [] (.ready (.done []))
  | sizeFailed {ds : Bytes} {e : IoError} (hs : s.1.state = .chunkSize) (hds : ∀ d ∈ ds, IsHex d)
      (why : Starved s.2 s'.2 ∨ ds ≠ [] ∧ 10 < (s.1.chunkSizeBuf ++ ds).length) :
      RoundMove n s s' ds (.fail e)
  | sizeInvalid {ds : Bytes} {c : Byte} {e : IoError} (hs : s.1.state = .chunkSize)
      (hds : ∀ d ∈ ds, IsHex d) (hc : ¬ IsHex c) (hc' : ¬ EndsSize c) :
      RoundMove n s s' (ds ++ [c]) (.fail e)
  | sizeUnreadable {ds : Bytes} {c : Byte} {e : IoError} (hs : s.1.state = .chunkSize)
      (hds : ∀ d ∈ ds, IsHex d) (hc : EndsSize c)
      (ha : fromStrRadix 16 (s.1.chunkSizeBuf ++ ds) = none) :
      RoundMove n s s' (ds ++ [c]) (.fail e)
  | skipFailed {xs : Bytes} {e : IoError} (hs : s.1.state = .chunkSizeLf ∨ s.1.state = .chunkLf)
      (hxs : 10 ∉ xs) (why : Starved s.2 s'.2) : RoundMove n s s' xs (.fail e)
  | dataFailed {e : IoError} (hs : s.1.state = .chunk) (why : ¬ Transport.Clean s.2.inner.rx) :
      RoundMove n s s' [] (.fail e)

theorem readRound_spec (hw : s.2.Wf) (n : Nat) :
    wp (readRound n ()) (fun r s' => ∃ bs, Reads bs s.2 s'.2 ∧ RoundMove n s s' bs r) s := by
  rw [readRound, wp_bind, wp_get, bindPost]
  cases hs : s.1.state with
  | chunkSize =>
      rw [wp_bind]
      refine (pollChunkSize_spec hw).mono fun r s' h => ?_
      cases r with
      | pending =>
          obtain ⟨ds, hr, hds, hb, hv⟩ := h
          exact ⟨ds, hr, .sizing hs hds hb hv⟩
      | fail e =>
          obtain ⟨ds, hds, ⟨hr, why⟩ | ⟨c, hr, hc, hc'⟩⟩ := h
          · exact ⟨ds, hr, .sizeFailed hs hds why⟩
          · exact ⟨ds ++ [c], hr, .sizeInvalid hs hds hc hc'⟩
      | panic m => exact h.elim
      | diverge => exact h.elim
      | ready _ =>
          obtain ⟨ds, c, hr, hds, hc, hv⟩ := h
          have hbuf : s'.1.chunkSizeBuf = s.1.chunkSizeBuf ++ ds := by rw [hv]
          rw [bindPost, wp_bind, wp_get, bindPost, hbuf]
          cases ha : fromStrRadix 16 (s.1.chunkSizeBuf ++ ds) with
          | none => exact ⟨ds ++ [c], hr, .sizeUnreadable hs hds hc ha⟩
          | some amount =>
              simp only [update, wp_bind, wp_modify, bindPost, wp_ite, wp_pure]
              split
              · next h0 => exact ⟨ds ++ [c], hr, .sized hs hds hc ha (by rw [if_pos h0])⟩
              · next h0 => exact ⟨ds ++ [c], hr, .sized hs hds hc ha (by rw [if_neg h0])⟩
  | chunkSizeLf =>
      rw [wp_bind]
      refine (pollSkipUntilLf_spec hw).mono fun r s' h => ?_
      obtain ⟨hv, xs, hxs, h⟩ := h
      cases r with
      | pending => exact ⟨xs, h.1, .skipping (.inl hs) hxs h.2 hv⟩
      | fail e => exact ⟨xs, h.1, .skipFailed (.inl hs) hxs h.2⟩
      | panic m => exact h.elim
      | diverge => exact h.elim
      | ready _ =>
          exact ⟨xs ++ [10], h, .sizeLf hs hxs (congrArg (fun v => { v with state := .chunk }) hv)⟩
  | chunkLf =>
      rw [wp_bind]
      refine (pollSkipUntilLf_spec hw).mono fun r s' h => ?_
      obtain ⟨hv, xs, hxs, h⟩ := h
      cases r with
      | pending => exact ⟨xs, h.1, .skipping (.inr hs) hxs h.2 hv⟩
      | fail e => exact ⟨xs, h.1, .skipFailed (.inr hs) hxs h.2⟩
      | panic m => exact h.elim
      | diverge => exact h.elim
      | ready _ =>
          exact ⟨xs ++ [10], h,
            .chunkLf hs hxs (congrArg (fun v => { v with state := .chunkSize }) hv)⟩
  | fin => exact ⟨[], Reads.refl _, .ended hs rfl⟩
  | chunk =>
      simp only [wp_bind, wp_get, bindPost]
      rw [readRecv, wp_zoom]
      refine (pollReadBuf_spec hw _).mono fun r io' h => ?_
      cases r with
      | pending => exact ⟨[], h.1, .waiting hs h.2 rfl⟩
      | fail e => exact ⟨[], h.1, .dataFailed hs h.2⟩
      | panic m => exact h.elim
      | diverge => exact h.elim
      | ready bs =>
          obtain ⟨hr, hle, heof⟩ := h
          have hle' : bs.length ≤ s.1.amountLeft := Nat.le_trans hle (Nat.min_le_left _ _)
          have hstarved : bs = [] → 0 < min s.1.amountLeft n → Starved s.2 io' := by
            rintro rfl hpos
            by_cases hcl : Transport.Clean s.2.inner.rx
            · obtain ⟨he, hu⟩ := heof rfl hpos hcl
              have hst := hr.stream
              rw [he.stream hu, List.nil_append] at hst
              exact .inr ⟨he.reads hr, (List.append_eq_nil_iff.mp hst.symm).1⟩
            · exact .inl hcl
          simp only [bindPost, wp_bind, wp_get, wp_assert, decide_eq_true_eq, if_pos hle', update,
            wp_modify, wp_ite, wp_pure]
          split
          · next h0 =>
            exact ⟨bs, hr, .data hs hle hstarved (by rw [if_pos h0])⟩
          · next h0 =>
            exact ⟨bs, hr, .data hs hle hstarved (by rw [if_neg h0, ← hs])⟩

theorem readRound_decreases (n : Nat) :
    Decreases (fun _ (s : Dec) => s.2.Wf) (fun _ => weight) (readRound n) := by
  intro _ s _ s' hw hb
  obtain ⟨bs, hr, hm⟩ := wp_elim (readRound_spec hw n) hb
  have hlt : bs ≠ [] → s'.2.weight < s.2.weight := fun hne => by
    have := hr.weight
    have := List.length_pos_iff.mpr hne
    omega
  refine ⟨hr.wf hw, hlt ?_⟩
  cases hm with
  | sized => simp
  | sizeLf => simp
  | chunkLf => simp

/-- What `poll_read` comes to, of whatever bytes: what it reads is the last it moves over. -/
theorem pollRead_moves (hw : s.2.Wf) (hn : n ≠ 0) :
    wp (pollRead n) (fun r s' => match r with
      | .ready out => out.length ≤ n ∧ ∃ front, Reads (front ++ out) s.2 s'.2
      | .pending => (∃ bs, Reads bs s.2 s'.2) ∧ Waits s.2 s'.2
      | .fail _ => ∃ bs, Reads bs s.2 s'.2
      | .panic _ => False
      | .diverge => False) s := by
  rw [pollRead, wp_bind, wp_assert, if_pos (decide_eq_true hn), bindPost]
  refine wp_loop (readRound_decreases n) (fun _ s' => ∃ bs, Reads bs s.2 s'.2) ?_ hw
    ⟨[], Reads.refl _⟩
  rintro _ s₁ hw₁ ⟨bs, hr⟩
  refine (readRound_spec hw₁ n).mono fun r s' hround => ?_
  obtain ⟨cs, hr', hm⟩ := hround
  have hmoved : ∃ bs, Reads bs s.2 s'.2 := ⟨bs ++ cs, hr.trans hr'⟩
  cases hm with
  | sized => exact hmoved
  | sizeLf => exact hmoved
  | chunkLf => exact hmoved
  | sizing hs hds hb hv => exact ⟨hmoved, hb.after hr hr'⟩
  | skipping hs hxs hb hv => exact ⟨hmoved, hb.after hr hr'⟩
  | waiting hs hb hv => exact ⟨hmoved, hb.after hr hr'⟩
  | data hs hle he hv => exact ⟨Nat.le_trans hle (Nat.min_le_right _ _), bs, hr.trans hr'⟩
  | ended hs hv => exact ⟨Nat.zero_le _, bs, hr.trans hr'⟩
  | sizeFailed => exact hmoved
  | sizeInvalid => exact hmoved
  | sizeUnreadable => exact hmoved
  | skipFailed => exact hmoved
  | dataFailed => exact hmoved

end HreqH1.ChunkedDecoder
