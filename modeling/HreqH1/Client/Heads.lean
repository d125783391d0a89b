import HreqH1.Client.Moves
import HreqH1.Reading.Terminators

/-!
# Client — heads that are no heads

`poll_response` takes what the scan stops at for a whole head, and expects the parser to find one.
The parser passes over empty lines in front of a head (`Httparse`), and the scan does not: it stops
behind a pair of them.  `neverPartial_iff`: the parser is left without a head exactly where the
stream begins with empty lines the scan stops at (`EmptyHead`).
-/

namespace HreqH1.Client
open PollM BufIo

/-! ### Empty lines -/

/-- What is left behind the empty lines in front. -/
def skipEmptyLines : Bytes → Bytes
  | 10 :: bs => skipEmptyLines bs
  | 13 :: 10 :: bs => skipEmptyLines bs
  | bs => bs

/-- A line end, and an empty line behind it. -/
def HasEmptyLine (bs : Bytes) : Prop := [10, 10] <:+: bs ∨ [10, 13, 10] <:+: bs

instance : DecidablePred HasEmptyLine := fun _ => inferInstanceAs (Decidable (_ ∨ _))

/-- What is asked of `httparse`: it skips empty lines in front of a head, and a parse that does not
fail is partial just where the empty line that closes the head is missing. -/
structure Httparse [Crates] : Prop where
  partial_iff : ∀ buf b parsed, Crates.parseRes buf = .ok (b, parsed) →
    (b = true ↔ ¬ HasEmptyLine (skipEmptyLines buf))
  skips : ∀ buf, skipEmptyLines buf = [] → ∃ b parsed, Crates.parseRes buf = .ok (b, parsed)

/-- `httparse` with the complete heads that are listed; every other one is an error. -/
@[reducible] def linesOnly (ress : List (Bytes × ParsedRes)) : Crates :=
  { Crates.table [] ress with
    parseRes := fun buf =>
      if HasEmptyLine (skipEmptyLines buf) then
        match ress.lookup buf with
        | some parsed => .ok (false, parsed)
        | none => .error "invalid token"
      else .ok (true, ⟨none, none, []⟩) }

/-- Empty lines only, that the scan takes for a head. -/
inductive EmptyHead : Bytes → Prop where
  | crlf : EmptyHead [13, 10, 13, 10]
  | lf (n : Nat) : EmptyHead (10 :: ((List.replicate n [13, 10]).flatten ++ [10]))
  | skip {h : Bytes} (hh : EmptyHead h) : EmptyHead (13 :: 10 :: 10 :: h)

/-- Empty lines go from the front only. -/
theorem skipEmptyLines_suffix (bs : Bytes) : skipEmptyLines bs <:+ bs := by
  fun_induction skipEmptyLines bs with
  | case1 bs ih => exact ih.trans (List.suffix_cons _ _)
  | case2 bs ih => exact ih.trans ((List.suffix_cons _ _).trans (List.suffix_cons _ _))
  | case3 bs => exact List.suffix_refl _

/-- What is left begins with no empty line. -/
theorem skipEmptyLines_idem (bs : Bytes) :
    skipEmptyLines (skipEmptyLines bs) = skipEmptyLines bs := by
  fun_induction skipEmptyLines bs with
  | case1 bs ih => exact ih
  | case2 bs ih => exact ih
  | case3 bs h₁ h₂ => rw [skipEmptyLines.eq_3 bs h₁ h₂]

/-- **A head that is not all empty lines has an empty line behind it.** -/
theorem hasEmptyLine_of_terminated {bs : Bytes} (h : Terminated bs) (hne : skipEmptyLines bs ≠ []) :
    HasEmptyLine (skipEmptyLines bs) := by
  have hs := skipEmptyLines_suffix bs
  have hidem := skipEmptyLines_idem bs
  generalize skipEmptyLines bs = t at hs hne hidem ⊢
  rcases h with h | h
  · have h' : [10, 13, 10] <:+ bs := List.IsSuffix.trans (by decide) h
    rcases List.suffix_or_suffix_of_suffix h' hs with ht | ht
    · exact .inr ht.isInfix
    · -- A shorter end of the terminator is a line end.
      rcases List.suffix_cons_iff.mp ht with rfl | ht
      · cases hidem
      rcases List.suffix_cons_iff.mp ht with rfl | ht
      · cases hidem
      rcases List.suffix_cons_iff.mp ht with rfl | ht
      · cases hidem
      exact absurd (List.suffix_nil.mp ht) hne
  · rcases List.suffix_or_suffix_of_suffix h hs with ht | ht
    · exact .inl ht.isInfix
    · rcases List.suffix_cons_iff.mp ht with rfl | ht
      · cases hidem
      rcases List.suffix_cons_iff.mp ht with rfl | ht
      · cases hidem
      exact absurd (List.suffix_nil.mp ht) hne

/-! ### Empty heads -/

/-- `bs` takes the scan from the position `i` to the end of a head, and no shorter front does. -/
def StopsFrom (i : Nat) (bs : Bytes) : Prop :=
  bs.foldl endIndexStep i = 4 ∧ ∀ k < bs.length, (bs.take k).foldl endIndexStep i ≠ 4

theorem headEnd_iff_stopsFrom (bs : Bytes) : HeadEnd bs ↔ StopsFrom 0 bs := Iff.rfl

theorem stopsFrom_cons {i : Nat} (hi : i ≠ 4) (b : Byte) (bs : Bytes) :
    StopsFrom i (b :: bs) ↔ StopsFrom (endIndexStep i b) bs := by
  refine and_congr Iff.rfl ⟨fun h k hk => h (k + 1) (Nat.succ_lt_succ hk), fun h k hk => ?_⟩
  cases k with
  | zero => exact hi
  | succ k => exact h k (Nat.lt_of_succ_lt_succ hk)

/-- Behind the end of a head the scan has stopped. -/
theorem stopsFrom_end (bs : Bytes) : StopsFrom 4 bs ↔ bs = [] := by
  constructor
  · intro h
    by_contra hne
    exact h.2 0 (List.length_pos_iff.mpr hne) rfl
  · rintro rfl
    exact ⟨rfl, fun k hk => absurd hk (Nat.not_lt_zero k)⟩

theorem not_stopsFrom_nil {i : Nat} (hi : i ≠ 4) : ¬ StopsFrom i [] := fun h => hi h.1

/-- The scan behind a `\n` at the start. -/
theorem stopsFrom_lf (n : Nat) : StopsFrom 3 ((List.replicate n [13, 10]).flatten ++ [10]) := by
  induction n with
  | zero => exact (stopsFrom_cons (by decide) _ _).mpr ((stopsFrom_end _).mpr rfl)
  | succ n ih =>
      rw [List.replicate_succ, List.flatten_cons, List.append_assoc]
      exact (stopsFrom_cons (by decide) _ _).mpr ((stopsFrom_cons (by decide) _ _).mpr ih)

theorem EmptyHead.headEnd {h : Bytes} (hh : EmptyHead h) : HeadEnd h := by
  rw [headEnd_iff_stopsFrom]
  induction hh with
  | crlf => exact ⟨by decide, by decide⟩
  | lf n => exact (stopsFrom_cons (by decide) _ _).mpr (stopsFrom_lf n)
  | skip hh ih =>
      exact (stopsFrom_cons (by decide) _ _).mpr ((stopsFrom_cons (by decide) _ _).mpr
        ((stopsFrom_cons (by decide) _ _).mpr ih))

theorem EmptyHead.skips {h : Bytes} (hh : EmptyHead h) : skipEmptyLines h = [] := by
  induction hh with
  | crlf => rfl
  | lf n =>
      show skipEmptyLines ((List.replicate n [13, 10]).flatten ++ [10]) = []
      induction n with
      | zero => rfl
      | succ n ih => exact ih
  | skip hh ih => exact ih

/-- **Where the scan stops in empty lines.** -/
theorem emptyHead_of_headEnd {h : Bytes} (hh : HeadEnd h) (hs : skipEmptyLines h = []) :
    EmptyHead h := by
  -- By the positions that whole lines lead to: the start, behind `\n`, and behind `\r\n`.
  suffices (StopsFrom 0 h → EmptyHead h) ∧
      (StopsFrom 3 h → ∃ n, h = (List.replicate n [13, 10]).flatten ++ [10]) ∧
      (StopsFrom 2 h → h = [13, 10] ∨ ∃ h', h = 10 :: h' ∧ EmptyHead h') from this.1 hh
  clear hh
  fun_induction skipEmptyLines h with
  | case1 bs ih =>
      obtain ⟨h0, h3, h2⟩ := ih hs
      refine ⟨fun h => ?_, fun h => ?_, fun h => ?_⟩
      · obtain ⟨n, rfl⟩ := h3 ((stopsFrom_cons (by decide) _ _).mp h)
        exact .lf n
      · obtain rfl := (stopsFrom_end bs).mp ((stopsFrom_cons (by decide) _ _).mp h)
        exact ⟨0, rfl⟩
      · exact .inr ⟨bs, rfl, h0 ((stopsFrom_cons (by decide) _ _).mp h)⟩
  | case2 bs ih =>
      obtain ⟨h0, h3, h2⟩ := ih hs
      have hcons : ∀ {i}, i ≠ 4 → endIndexStep i 13 ≠ 4 → StopsFrom i (13 :: 10 :: bs) →
          StopsFrom (endIndexStep (endIndexStep i 13) 10) bs := fun hi hi' h =>
        (stopsFrom_cons hi' _ _).mp ((stopsFrom_cons hi _ _).mp h)
      refine ⟨fun h => ?_, fun h => ?_, fun h => ?_⟩
      · rcases h2 (hcons (by decide) (by decide) h) with rfl | ⟨h', rfl, hh'⟩
        · exact .crlf
        · exact .skip hh'
      · obtain ⟨n, rfl⟩ := h3 (hcons (by decide) (by decide) h)
        exact ⟨n + 1, rfl⟩
      · obtain rfl := (stopsFrom_end bs).mp (hcons (by decide) (by decide) h)
        exact .inl rfl
  | case3 bs h₁ h₂ =>
      subst hs
      exact ⟨fun h => absurd h (not_stopsFrom_nil (by decide)),
        fun h => absurd h (not_stopsFrom_nil (by decide)),
        fun h => absurd h (not_stopsFrom_nil (by decide))⟩

/-! ### The parser behind the scan -/

/-- A stream that begins with empty lines the scan takes for a head. -/
def BeginsEmpty (s : Bytes) : Prop :=
  ∃ head, EmptyHead head ∧ head.length ≤ readBufInitSize ∧ head <+: s

variable {s : Bytes} [Crates]

/-- A parser that is left without a head has been given empty lines only. -/
theorem skips_of_partial (hp : Httparse) {head : Bytes} {eos : Bool}
    (h : tryParseRes head eos = .ok none) (hh : eos = false → HeadEnd head) :
    eos = false ∧ skipEmptyLines head = [] := by
  unfold tryParseRes at h
  cases hparse : Crates.parseRes head with
  | error m => simp only [hparse] at h; cases h
  | ok p =>
      obtain ⟨b, parsed⟩ := p
      simp only [hparse] at h
      split at h
      · next hb =>
        simp only [Bool.and_eq_true, Bool.not_eq_true'] at hb
        refine ⟨hb.2, ?_⟩
        by_contra hne
        exact (hp.partial_iff head b parsed hparse).mp hb.1
          (hasEmptyLine_of_terminated (hh hb.2).terminated hne)
      · split at h <;> cases h

/-- On empty lines only it is left without one. -/
theorem partial_of_skips (hp : Httparse) {head : Bytes} (hs : skipEmptyLines head = []) :
    tryParseRes head false = .ok none := by
  obtain ⟨b, parsed, hparse⟩ := hp.skips head hs
  obtain rfl : b = true := (hp.partial_iff head b parsed hparse).mpr (by rw [hs]; decide)
  simp [tryParseRes, hparse]

/-- The stream in front of a parser that is left without a head. -/
theorem beginsEmpty_of_headFound (hp : Httparse) {head : Bytes} {eos : Bool} {io io' : BufIo}
    (hf : HeadFound head eos io io') (h : tryParseRes head eos = .ok none) :
    BeginsEmpty io.stream := by
  obtain ⟨he, hs⟩ := skips_of_partial hp h fun he => (hf.ended he).1
  obtain ⟨hend, hlen⟩ := hf.ended he
  exact ⟨head, emptyHead_of_headEnd hend hs, hlen, io'.stream, hf.reads.stream.symm⟩

variable [VecAlloc]

/-- Whatever the scan finds in the stream `s`, in whatever pieces that comes, the parser is not left
without a head. -/
def NeverPartial (s : Bytes) : Prop :=
  ∀ io io', io.Wf → io.stream = s → pollForCrlfcrlf tryParseRes io ≠ (.ready (.ok none), io')

theorem not_neverPartial (hp : Httparse) (hs : BeginsEmpty s) : ¬ NeverPartial s := by
  obtain ⟨head, hhead, hlen, rest, rfl⟩ := hs
  intro hn
  have hcut : (head ++ rest).take head.length = head := List.take_left
  have hstop := stopsAt_of_headEnd (s := head ++ rest) (n := head.length) hlen
    (hcut.symm ▸ hhead.headEnd) _ tryParseRes _ (buffered_wf _) (buffered_roomy _) (buffered_clean _) (stream_buffered _)
  have hnever := hn (buffered (head ++ rest))
    (pollForCrlfcrlf tryParseRes (buffered (head ++ rest))).2 (buffered_wf _) (stream_buffered _)
  rw [wp] at hstop
  rcases hx : pollForCrlfcrlf tryParseRes (buffered (head ++ rest)) with ⟨r, io'⟩
  rw [hx] at hstop hnever
  cases r with
  | ready ret =>
      obtain ⟨rfl, -⟩ := hstop
      rw [hcut, partial_of_skips hp hhead.skips] at hnever
      exact hnever rfl
  | pending => exact absurd hstop.2 (Nat.not_lt_zero _)
  | fail e => exact hstop
  | panic m => exact hstop
  | diverge => exact hstop

/-- **When the parser always finds a head**: exactly where the stream does not begin with empty
lines the scan takes for one. -/
theorem neverPartial_iff (hp : Httparse) : NeverPartial s ↔ ¬ BeginsEmpty s := by
  refine ⟨fun hn hs => not_neverPartial hp hs hn, ?_⟩
  rintro hs io io' hw rfl hx
  obtain ⟨head, eos, hret, hf⟩ := wp_elim (pollForCrlfcrlf_spec hw) hx
  exact hs (beginsEmpty_of_headFound hp hf hret.symm)

omit [VecAlloc] [Crates] in
theorem parseRes_linesOnly (ress : List (Bytes × ParsedRes)) (buf : Bytes) :
    @Crates.parseRes (linesOnly ress) buf =
      if HasEmptyLine (skipEmptyLines buf) then
        match ress.lookup buf with
        | some parsed => .ok (false, parsed)
        | none => .error "invalid token"
      else .ok (true, ⟨none, none, []⟩) := rfl

omit [VecAlloc] [Crates] in
theorem httparse_lines (ress : List (Bytes × ParsedRes)) : @Httparse (linesOnly ress) := by
  refine @Httparse.mk (linesOnly ress) (fun buf b parsed h => ?_) fun buf hs => ?_
  · rw [parseRes_linesOnly] at h
    split at h
    · next hl =>
      split at h
      · cases h; simp [hl]
      · cases h
    · next hl => cases h; simp [hl]
  · exact ⟨true, ⟨none, none, []⟩, by rw [parseRes_linesOnly, hs, if_neg (by decide)]⟩

/-- `HTTP/1.1 200 OK` and an empty line. -/
def okHead : Bytes := ascii "HTTP/1.1 200 OK\r\n\r\n"

omit [VecAlloc] [Crates] in
theorem never_partial_ok :
    letI := VecAlloc.amortized
    letI := linesOnly [(okHead, ⟨some 1, some 200, []⟩)]
    NeverPartial okHead ↔ ¬ BeginsEmpty okHead :=
  @neverPartial_iff okHead (linesOnly [(okHead, ⟨some 1, some 200, []⟩)]) VecAlloc.amortized
    (httparse_lines _)

omit [VecAlloc] [Crates] in
theorem partial_behind_empty_lines :
    letI := VecAlloc.amortized
    letI := linesOnly [(okHead, ⟨some 1, some 200, []⟩)]
    Httparse ∧ ¬ NeverPartial (13 :: 10 :: 13 :: 10 :: okHead) :=
  ⟨httparse_lines _, @not_neverPartial _ (linesOnly [(okHead, ⟨some 1, some 200, []⟩)])
    VecAlloc.amortized (httparse_lines _)
    ⟨[13, 10, 13, 10], .crlf, by decide, List.prefix_append _ _⟩⟩

/-- The panic of `poll_response` at a parser without a head. -/
theorem pollResponse_parsed (hp : Httparse) {t : Bidirect × Conn} {i : Nat} (hw : t.2.io.Wf)
    (hi : t.1.handle.resTx = some i) :
    wp pollResponse (fun r _ => r = .panic "Parsed partial response" → BeginsEmpty t.2.io.stream)
      t := by
  rw [pollResponse, wp_bind, onConn, wp_zoom, pollIo, wp_zoom]
  refine (pollForCrlfcrlf_spec hw).mono fun r io h => ?_
  cases r with
  | pending => exact fun hr => by cases hr
  | fail e => exact fun hr => by cases hr
  | diverge => exact h.elim
  | panic m =>
      intro hr
      have hm := h.1.msg
      rw [Outcome.panic.inj hr] at hm
      exact absurd hm (by decide)
  | ready ret =>
      obtain ⟨head, eos, rfl, hf⟩ := h
      cases hparse : tryParseRes head eos with
      | error e => exact fun hr => by cases hr
      | ok res =>
          cases res with
          | none => exact fun _ => beginsEmpty_of_headFound hp hf hparse
          | some res =>
              dsimp only [Outcome.map, bindPost, lift]
              exact wp_of_eq (deliver_eq res hi) fun hr => by cases hr

end HreqH1.Client
