import HreqH1.Model.Http11
import HreqH1.Reading.Reads

/-!
# Reading — the end of a head

`poll_for_crlfcrlf` by the bytes it moves over.  `endIndexAfter bs` is the scan's position in
`\r\n\r\n` after `bs`; a head ends where it is first at the end (`HeadEnd`), or where the stream
does.  A scan that is `Pending`, or fails, has moved over nothing.
-/

namespace HreqH1
open PollM BufIo

/-- `end_index` after the bytes of a head so far. -/
def endIndexAfter (bs : Bytes) : Nat := bs.foldl endIndexStep 0

/-- No front of `bs` is a head. -/
def NoEnd (bs : Bytes) : Prop := ∀ k ≤ bs.length, endIndexAfter (bs.take k) ≠ 4

/-- `bs` is a head, and no shorter front of it is. -/
def HeadEnd (bs : Bytes) : Prop := endIndexAfter bs = 4 ∧ ∀ k < bs.length, endIndexAfter (bs.take k) ≠ 4

theorem NoEnd.take {bs : Bytes} (h : NoEnd bs) (n : Nat) : NoEnd (bs.take n) := by
  intro k hk
  rw [List.take_take]
  rw [List.length_take] at hk
  exact h _ (by omega)

/-- A head starts no other head, and is the front of a stream in one way. -/
theorem HeadEnd.unique {h h' s s' : Bytes} (hh : HeadEnd h) (hh' : HeadEnd h')
    (he : h ++ s = h' ++ s') : h = h' ∧ s = s' := by
  refine List.append_inj he ?_
  rcases Nat.lt_trichotomy h.length h'.length with hl | hl | hl
  · refine absurd hh.1 ?_
    have := hh'.2 _ hl
    rwa [← List.take_append_of_le_length (Nat.le_of_lt hl), ← he, List.take_left] at this
  · exact hl
  · refine absurd hh'.1 ?_
    have := hh.2 _ hl
    rwa [← List.take_append_of_le_length (Nat.le_of_lt hl), he, List.take_left] at this

theorem HeadEnd.not_noEnd {h s bs : Bytes} (hh : HeadEnd h) (hp : h ++ s = bs) : ¬ NoEnd bs := by
  intro hn
  have := hn h.length (by rw [← hp, List.length_append]; omega)
  rw [← hp, List.take_left] at this
  exact this hh.1

/-! ### The inner loop -/

/-- What a scan of `rest`, after the bytes `front`, comes to in the middle of a stream. -/
theorem scan_spec (front rest : Bytes) (hn : NoEnd front) (hlt : front.length ≤ readBufInitSize) :
    match scan false rest (endIndexAfter front) front.length with
    | .head n => n ≤ (front ++ rest).length ∧ n ≤ readBufInitSize ∧ HeadEnd ((front ++ rest).take n)
    | .eof => False
    | .tooLong => readBufInitSize ≤ (front ++ rest).length ∧
        NoEnd ((front ++ rest).take readBufInitSize)
    | .more endIndex => endIndex = endIndexAfter (front ++ rest) ∧ NoEnd (front ++ rest) ∧
        (front ++ rest).length < readBufInitSize := by
  induction rest generalizing front with
  | nil =>
      have h4 : endIndexAfter front ≠ 4 := by
        have := hn front.length (Nat.le_refl _)
        rwa [List.take_length] at this
      rw [scan, List.append_nil]
      by_cases hl : front.length = readBufInitSize
      · simp only [h4, Bool.false_eq_true, false_and, or_self, if_false, hl, if_true]
        exact ⟨Nat.le_refl _, by rwa [← hl, List.take_length]⟩
      · simp only [h4, Bool.false_eq_true, false_and, or_self, if_false, hl]
        exact ⟨trivial, hn, Nat.lt_of_le_of_ne hlt hl⟩
  | cons b rest ih =>
      have h4 : endIndexAfter front ≠ 4 := by
        have := hn front.length (Nat.le_refl _)
        rwa [List.take_length] at this
      have hcons : front ++ b :: rest = (front ++ [b]) ++ rest := by simp
      rw [scan]
      by_cases hl : front.length = readBufInitSize
      · simp only [h4, Bool.false_eq_true, false_and, or_self, if_false, hl, if_true]
        refine ⟨by rw [List.length_append]; omega, ?_⟩
        rwa [← hl, List.take_left]
      · simp only [h4, Bool.false_eq_true, false_and, or_self, if_false, hl]
        have hstep : endIndexStep (endIndexAfter front) b = endIndexAfter (front ++ [b]) := by
          rw [endIndexAfter, endIndexAfter, List.foldl_append]
          rfl
        have hlen : front.length + 1 = (front ++ [b]).length := by simp
        rw [hstep, hlen, hcons]
        have htake : ∀ k ≤ front.length, (front ++ [b]).take k = front.take k := fun k hk =>
          List.take_append_of_le_length hk
        by_cases he : endIndexAfter (front ++ [b]) = 4
        · -- The head ends with `b`.
          rw [scan.eq_def]
          simp only [he, true_or, if_true]
          refine ⟨(List.prefix_append _ _).length_le, ?_, ?_⟩
          · rw [← hlen]; omega
          · rw [List.take_left]
            refine ⟨he, fun k hk => ?_⟩
            rw [← hlen] at hk
            rw [htake k (Nat.le_of_lt_succ hk)]
            exact hn k (Nat.le_of_lt_succ hk)
        · refine ih (front ++ [b]) (fun k hk => ?_) (by rw [← hlen]; omega)
          rcases Nat.lt_or_ge front.length k with hlt' | hge
          · rw [List.take_of_length_le (by omega)]
            exact he
          · rw [htake k hge]
            exact hn k hge

variable {T : Type} {f : Bytes → Bool → T} {io io' : BufIo}

/-! ### The outer loop -/

/-- What the variables of the outer loop say: the buffer has not been looked at, or all of it is
scanned and there is no head in it. -/
def Scanned (v : ScanVars) (io : BufIo) : Prop :=
  v = ⟨false, 0, 0⟩ ∨
    v = ⟨true, endIndexAfter io.unread, io.unread.length⟩ ∧ 0 < io.unread.length ∧
      NoEnd io.unread ∧ io.unread.length < readBufInitSize

/-- A head, or what there is of one at the end of the stream, and the move over it.  The last read was
answered, unless the head was there without one. -/
structure HeadFound (head : Bytes) (eos : Bool) (io io' : BufIo) : Prop where
  ne : head ≠ []
  reads : Reads head io io'
  ended : eos = false → HeadEnd head ∧ head.length ≤ readBufInitSize
  cut : eos = true → NoEnd head ∧ head.length < readBufInitSize ∧
    (Transport.Clean io.inner.rx → io'.AtEof ∧ io'.unread = [])
  fresh : io'.pendingRx = true → io.pendingRx = true ∧ HeadEnd head ∧ ∃ rest, io.unread = head ++ rest

/-- Why there is no head: the transport fails, or the stream has ended, or it goes on for too
long. -/
def NoHead (e : IoError) (io io' : BufIo) : Prop :=
  ¬ Transport.Clean io.inner.rx ∨
    e = ⟨.unexpectedEof, "EOF and no header length"⟩ ∧ io'.AtEof ∧ io'.unread = [] ∨
    e = ⟨.invalidData, "No header found in 16384 bytes"⟩ ∧
      ∃ front rest, io.stream = front ++ rest ∧ front.length = readBufInitSize ∧ NoEnd front

/-- What `poll_for_crlfcrlf` comes to. -/
def HeadPost (f : Bytes → Bool → T) (io : BufIo) : Outcome IoError T → BufIo → Prop
  | .ready ret, io' => ∃ head eos, ret = f head eos ∧ HeadFound head eos io io'
  | .pending, io' => Reads [] io io' ∧ Blocked io io' ∧ io'.pendingRx = true ∧ NoEnd io'.unread
  | .fail e, io' => Reads [] io io' ∧ NoHead e io io'
  | .panic m, io' => Overgrown m io io' ∧ io'.unread.length < readBufInitSize ∧ NoEnd io'.unread
  | .diverge, _ => False

/-- The post of a scan that starts after reads that have moved over nothing. -/
theorem HeadPost.after {io₁ : BufIo} {r : Outcome IoError T} (hr : Reads [] io io₁)
    (hp : io₁.pos = io.pos) (hno : io₁ = io ∨ NoEnd io₁.unread) (h : HeadPost f io₁ r io') :
    HeadPost f io r io' := by
  have hcl : Transport.Clean io.inner.rx → Transport.Clean io₁.inner.rx := hr.clean
  cases r with
  | ready ret =>
      obtain ⟨head, eos, hret, hne, hm, hhead, hend, hfresh⟩ := h
      refine ⟨head, eos, hret, hne, hr.trans hm, hhead, fun he =>
        ⟨(hend he).1, (hend he).2.1, fun hc => (hend he).2.2 (hcl hc)⟩, fun hf => ?_⟩
      obtain ⟨hf, hh, rest, hu⟩ := hfresh hf
      rcases hno with rfl | hno
      · exact ⟨hf, hh, rest, hu⟩
      · exact absurd hno (hh.not_noEnd hu.symm)
  | pending => exact ⟨hr.trans h.1, h.2.1.after hr h.1, h.2.2⟩
  | fail e =>
      obtain ⟨hm, why⟩ := h
      refine ⟨hr.trans hm, ?_⟩
      rcases why with hc | heof | ⟨he, front, rest, hst, hlong⟩
      · exact .inl fun h => hc (hcl h)
      · exact .inr (.inl heof)
      · exact .inr (.inr ⟨he, front, rest, hr.stream.trans hst, hlong⟩)
  | panic m =>
      obtain ⟨ho, hu⟩ := h
      exact ⟨⟨hr.trans ho.reads, ho.grows, ho.pos.trans hp, ho.full, ho.msg⟩, hu⟩
  | diverge => exact h

/-- What `poll_for_crlfcrlf` comes to where a head is at the front of the stream: no scan gets past
it. -/
theorem HeadPost.of_headEnd {head rest : Bytes} {r : Outcome IoError T} (h : HeadPost f io r io')
    (hcl : Transport.Clean io.inner.rx) (hst : io.stream = head ++ rest) (hh : HeadEnd head)
    (hlen : head.length ≤ readBufInitSize) : match r with
      | .ready ret => ret = f head false ∧ io'.stream = rest
      | .pending => Reads [] io io' ∧ io'.inner.rx.length < io.inner.rx.length
      | .panic m => Overgrown m io io' ∧ io'.unread.length < readBufInitSize
      | .fail _ => False
      | .diverge => False := by
  have hlong : ∀ {front left : Bytes}, head ++ rest = front ++ left → head.length ≤ front.length →
      ¬ NoEnd front := by
    intro front left he hle
    refine hh.not_noEnd (s := front.drop head.length) ?_
    have hhead : front.take head.length = head := by
      rw [← List.take_append_of_le_length hle, ← he, List.take_left]
    nth_rewrite 1 [← hhead]
    exact List.take_append_drop _ _
  cases r with
  | ready ret =>
      obtain ⟨head', eos, rfl, hf⟩ := h
      cases eos with
      | false =>
          obtain ⟨rfl, hrest⟩ := (hf.ended rfl).1.unique hh (hf.reads.stream.symm.trans hst)
          exact ⟨rfl, hrest⟩
      | true =>
          obtain ⟨hno, -, hend⟩ := hf.cut rfl
          obtain ⟨heof, hu⟩ := hend hcl
          have hs : head ++ rest = head' ++ [] := by
            rw [← hst, hf.reads.stream, heof.stream hu]
          refine absurd hno (hlong hs ?_)
          have hl := congrArg List.length hs
          rw [List.length_append, List.length_append, List.length_nil] at hl
          omega
  | pending =>
      obtain ⟨hr, hb, -, hno⟩ := h
      refine ⟨hr, ?_⟩
      rcases hb with ⟨hrx, -⟩ | hlt
      · -- A silent transport has given all of the stream.
        have hle := hr.rx_le
        rw [hrx] at hle
        have hrx' : io'.inner.rx = [] := List.length_eq_zero_iff.mp (Nat.le_zero.mp hle)
        have hs : head ++ rest = io'.unread ++ [] := by
          rw [← hst, hr.stream, List.nil_append, BufIo.stream, Transport.coming, hrx']
          rfl
        refine absurd hno (hlong hs ?_)
        have hl := congrArg List.length hs
        rw [List.length_append, List.length_append, List.length_nil] at hl
        omega
      · exact hlt
  | fail e =>
      obtain ⟨hr, hc | ⟨-, heof, hu⟩ | ⟨-, front, left, hs, hfront, hno⟩⟩ := h
      · exact hc hcl
      · have hnil : head ++ rest = [] := hst.symm.trans (hr.stream.trans (heof.stream hu))
        obtain ⟨rfl, -⟩ := List.append_eq_nil_iff.mp hnil
        exact absurd hh.1 (by decide)
      · exact hlong (hst.symm.trans hs) (hfront ▸ hlen) hno
  | panic m => exact ⟨h.1, h.2.1⟩
  | diverge => exact h

theorem noEnd_nil : NoEnd [] := by
  intro k _
  rw [List.take_nil]
  decide

theorem Scanned.front {v : ScanVars} (h : Scanned v io) : NoEnd (io.unread.take v.bufIndex) ∧
    v.endIndex = endIndexAfter (io.unread.take v.bufIndex) ∧
    v.bufIndex ≤ io.unread.length ∧ v.bufIndex < readBufInitSize := by
  rcases h with rfl | ⟨rfl, -, hn, hlt⟩
  · exact ⟨noEnd_nil, rfl, Nat.zero_le _, by decide⟩
  · rw [List.take_length]
    exact ⟨hn, rfl, Nat.le_refl _, hlt⟩

/-- A front of what is unread is a front of the stream. -/
theorem take_unread {n : Nat} (h : n ≤ io.unread.length) : io.unread.take n = io.stream.take n :=
  (List.take_append_of_le_length h).symm

/-- What a round comes to. -/
def ScanRoundPost (f : Bytes → Bool → T) (v : ScanVars) (io : BufIo) :
    Outcome IoError (Flow ScanVars T) → BufIo → Prop
  | .ready (.again w), io' => Reads [] io io' ∧ Scanned w io' ∧ io'.pos = io.pos ∧
      scanWeight w io' < scanWeight v io ∧ NoEnd io'.unread
  | .ready (.done ret), io' => HeadPost f io (.ready ret) io'
  | .pending, io' => HeadPost f io .pending io'
  | .fail e, io' => HeadPost f io (.fail e) io'
  | .panic m, io' => HeadPost f io (.panic m) io'
  | .diverge, _ => False

/-- A round that has found the `n` bytes of a head. -/
theorem scanRound_found {v : ScanVars} {n : Nat} {eos : Bool} (hw : io.Wf) {io₁ : BufIo} (hr : Reads [] io io₁)
    (hn : 0 < n) (hle : n ≤ io₁.unread.length)
    (hhead : eos = false → HeadEnd (io₁.unread.take n) ∧ n ≤ readBufInitSize)
    (hend : eos = true → NoEnd io₁.unread ∧ io₁.unread.length < readBufInitSize ∧
      n = io₁.unread.length ∧ (Transport.Clean io.inner.rx → io₁.AtEof))
    (hfresh : io₁ = io ∧ eos = false ∨ io₁.pendingRx = false) :
    wp (do
      let ret := f (io₁.unread.take n) eos
      BufIo.consume n
      pure (.done ret)) (ScanRoundPost f v io) io₁ := by
  have hw₁ := hr.wf hw
  rw [wp_bind]
  refine wp_of_eq (consume_eq hw₁ hle) ?_
  have hadv := reads_advance hw₁ hle
  have hlen : (io₁.unread.take n).length = n := by rw [List.length_take]; omega
  refine ⟨io₁.unread.take n, eos, rfl, ?_, hr.trans hadv, fun he => ?_, fun he => ?_, fun hf => ?_⟩
  · intro hnil
    rw [hnil] at hlen
    exact absurd hlen (Nat.ne_of_lt hn)
  · rw [hlen]
    exact hhead he
  · obtain ⟨hno, hlt, rfl, heof⟩ := hend he
    rw [List.take_length] at hadv ⊢
    refine ⟨hno, hlt, fun hcl => ⟨(heof hcl).reads hadv, ?_⟩⟩
    have hst := hadv.stream
    rw [BufIo.stream, (heof hcl).1, List.append_nil] at hst
    have hnil : (io₁.advance io₁.unread.length).stream = [] := by
      have hl := congrArg List.length hst
      rw [List.length_append] at hl
      exact List.length_eq_zero_iff.mp (by omega)
    exact (List.append_eq_nil_iff.mp hnil).1
  · have hf : io₁.pendingRx = true := (pendingRx_advance n).symm.trans hf
    rcases hfresh with ⟨rfl, he⟩ | hfresh
    · exact ⟨hf, (hhead he).1, _, (List.take_append_drop n _).symm⟩
    · cases hfresh.symm.trans hf

variable [VecAlloc]

theorem scanRound_spec {v : ScanVars} (hw : io.Wf) (hv : Scanned v io) :
    wp (scanRound f v) (ScanRoundPost f v io) io := by
  obtain ⟨hno, hidx, hle, hlt⟩ := hv.front
  rw [scanRound, wp_bind]
  refine (pollFillBuf_spec hw v.forceAppend).mono fun r io₁ h => ?_
  cases r with
  | pending =>
      obtain ⟨hr, hb, hu, hp, hfill⟩ := h
      refine ⟨hr, hb, hp, ?_⟩
      rw [hu]
      rcases hv with rfl | ⟨-, -, hn, -⟩
      · have hnil := hw.unread_eq_nil.mpr (hfill.resolve_right (by simp))
        rw [hnil]
        exact noEnd_nil
      · exact hn
  | fail e => exact ⟨h.1, .inl h.2⟩
  | panic m =>
      obtain ⟨ho, hu, hforce⟩ := h
      refine ⟨ho, ?_⟩
      rw [hu]
      rcases hv with rfl | ⟨-, -, hn, hlt'⟩
      · cases hforce
      · exact ⟨hlt', hn⟩
  | diverge => exact h
  | ready buf =>
      obtain ⟨rfl, hr, hfill⟩ := h
      have hw₁ := hr.wf hw
      have hpos₁ : io₁.pos = io.pos := by
        rcases hfill with ⟨-, -, rfl⟩ | ⟨-, hp, -⟩
        · rfl
        · exact hp
      -- What was scanned is still in front.
      obtain ⟨new, hu, hnew⟩ : ∃ new, io₁.unread = io.unread ++ new ∧
          (io₁ = io ∧ v.forceAppend = false ∧ io.buf.len ≠ 0 ∧ new = [] ∨
            (new = [] → Transport.Clean io.inner.rx → io.AtEof) ∧
            (new ≠ [] → io₁.inner.rxWeight + new.length ≤ io.inner.rxWeight) ∧
            (io.buf.len = 0 ∨ v.forceAppend = true) ∧ io₁.pendingRx = false) := by
        rcases hfill with ⟨hne, hf, rfl⟩ | ⟨hor, -, new, hu, h₁, h₂, hp⟩
        · exact ⟨[], (List.append_nil _).symm, .inl ⟨rfl, hf, hne, rfl⟩⟩
        · exact ⟨new, hu, .inr ⟨h₁, h₂, hor, hp⟩⟩
      have hle₁ : v.bufIndex ≤ io₁.unread.length := by
        rw [hu, List.length_append]; omega
      have hfront : io₁.unread.take v.bufIndex = io.unread.take v.bufIndex := by
        rw [hu, List.take_append_of_le_length hle]
      simp only [bindPost, wp_bind, wp_assert, hle₁, decide_true, if_true]
      by_cases heos : io₁.unread.length = v.bufIndex
      · -- Nothing was added, which is the end of the stream.
        rw [beq_iff_eq.mpr heos, List.drop_of_length_le (Nat.le_of_eq heos), scan.eq_def]
        -- Some of the stream has been scanned where a round has been made.
        have hall : io₁.unread = io.unread.take v.bufIndex := by
          rw [← hfront, List.take_of_length_le (Nat.le_of_eq heos)]
        have heof : Transport.Clean io.inner.rx → io₁.AtEof := by
          intro hcl
          rcases hnew with ⟨rfl, hforce, hne, -⟩ | ⟨hend, -, -⟩
          · rcases hv with rfl | ⟨rfl, -⟩
            · rw [length_unread] at heos
              have := hw.pos_lt
              simp only at heos
              omega
            · cases hforce
          · refine (hend ?_ hcl).reads hr
            have hl := congrArg List.length hu
            rw [heos, List.length_append] at hl
            exact List.length_eq_zero_iff.mp (by omega)
        rcases Nat.eq_zero_or_pos v.bufIndex with h0 | hpos
        · have hv4 : v.endIndex ≠ 4 := by rw [hidx, h0, List.take_zero]; decide
          simp only [hv4, h0, true_and, Nat.lt_irrefl, or_self, if_false, if_true]
          refine ⟨hr, ?_⟩
          by_cases hcl : Transport.Clean io.inner.rx
          · exact .inr (.inl ⟨rfl, heof hcl, List.length_eq_zero_iff.mp (heos.trans h0)⟩)
          · exact .inl hcl
        · simp only [hpos, true_and, or_true, if_true]
          have hflag : io₁.pendingRx = false := by
            rcases hnew with ⟨-, hforce, -⟩ | ⟨-, -, -, hflag⟩
            · rcases hv with rfl | ⟨rfl, -⟩
              · exact absurd hpos (Nat.lt_irrefl 0)
              · cases hforce
            · exact hflag
          exact scanRound_found hw hr hpos (Nat.le_of_eq heos.symm) (by simp)
            (fun _ => ⟨hall ▸ hno, heos ▸ hlt, heos.symm, heof⟩) (.inr hflag)
      · have hb : (io₁.unread.length == v.bufIndex) = false := beq_eq_false_iff_ne.mpr heos
        have hs := scan_spec (io₁.unread.take v.bufIndex) (io₁.unread.drop v.bufIndex)
          (hfront ▸ hno) (by rw [List.length_take]; omega)
        have hlen : (io₁.unread.take v.bufIndex).length = v.bufIndex := by
          rw [List.length_take]; omega
        rw [List.take_append_drop, hlen, hfront, ← hidx] at hs
        rw [hb]
        generalize scan false (io₁.unread.drop v.bufIndex) v.endIndex v.bufIndex = found at hs
        cases found with
        | eof => exact hs.elim
        | head n =>
            obtain ⟨hn, hn', hh⟩ := hs
            refine scanRound_found hw hr (Nat.pos_of_ne_zero ?_) hn (fun _ => ⟨hh, hn'⟩) (by simp) ?_
            · rintro rfl
              exact absurd hh.1 (by rw [List.take_zero]; decide)
            · exact hnew.imp (fun h => ⟨h.1, rfl⟩) fun h => h.2.2.2
        | tooLong =>
            obtain ⟨hlong, hno'⟩ := hs
            refine ⟨hr, .inr (.inr ⟨rfl, io₁.unread.take readBufInitSize,
              io₁.unread.drop readBufInitSize ++ io₁.inner.coming, ?_, ?_, hno'⟩)⟩
            · rw [← List.append_assoc, List.take_append_drop, hr.stream]
              rfl
            · rw [List.length_take]; omega
        | more endIndex =>
            obtain ⟨rfl, hno', hlt'⟩ := hs
            have hpos : 0 < io₁.unread.length := by omega
            refine ⟨hr, .inr ⟨rfl, hpos, hno', hlt'⟩, hpos₁, ?_, hno'⟩
            have hrx := hr.weight
            rw [BufIo.weight, BufIo.weight, hu, List.length_append, List.length_nil] at hrx
            show scanWeight ⟨true, _, io₁.unread.length⟩ io₁ < _
            simp only [scanWeight, if_true]
            rcases hv with rfl | ⟨rfl, -⟩
            · simp only [Bool.false_eq_true, if_false]
              omega
            · -- The forced read has added something.
              have hl := congrArg List.length hu
              rw [List.length_append] at hl
              simp only at heos
              simp only [if_true]
              omega

theorem scanRound_decreases :
    Decreases (fun v (io : BufIo) => io.Wf ∧ Scanned v io) scanWeight (scanRound f) := by
  rintro v io w io' ⟨hw, hv⟩ hx
  obtain ⟨hr, hs, -, hlt, -⟩ := wp_elim (scanRound_spec hw hv) hx
  exact ⟨⟨hr.wf hw, hs⟩, hlt⟩

/-- **What `poll_for_crlfcrlf` comes to**, of whatever bytes. -/
theorem pollForCrlfcrlf_spec (hw : io.Wf) : wp (pollForCrlfcrlf f) (HeadPost f io) io := by
  refine wp_loop scanRound_decreases
    (fun _ io₁ => Reads [] io io₁ ∧ io₁.pos = io.pos ∧ (io₁ = io ∨ NoEnd io₁.unread)) ?_
    ⟨hw, .inl rfl⟩ ⟨Reads.refl io, rfl, .inl rfl⟩
  rintro v io₁ ⟨hw₁, hv⟩ ⟨hr, hp, hno⟩
  refine (scanRound_spec hw₁ hv).mono fun r io₂ h => ?_
  cases r with
  | ready f =>
      cases f with
      | again w => exact ⟨hr.trans h.1, h.2.2.1.trans hp, .inr h.2.2.2.2⟩
      | done ret => exact HeadPost.after (f := f) (r := .ready ret) hr hp hno h
  | pending => exact HeadPost.after (f := f) (r := .pending) hr hp hno h
  | fail e => exact HeadPost.after (f := f) (r := .fail e) hr hp hno h
  | panic m => exact HeadPost.after (f := f) (r := .panic m) hr hp hno h
  | diverge => exact h

end HreqH1
