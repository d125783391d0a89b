import HreqH1.Reading.Scan

/-!
# Reading — reading a head out

`headOut f n io` polls `poll_for_crlfcrlf` up to `n` times, for as long as it is `Pending`; every poll
starts its scan over.  What no poll that is `Pending` changes, and what a poll comes to from there,
is what the polls come to (`headOut_rule`).

`headOf` is the scan of a whole string that is followed by the end of the stream; it has no
transport, no buffer and no polls.  The polls come to it in whatever pieces the string arrives
(`scanning_ignores_fragmentation`), and so do they to a head in the stream, of which nothing is known
but that it is there (`headOut_of_headEnd`).
-/

namespace HreqH1
open PollM BufIo

/-! ### Polls -/

/-- Polls of `poll_for_crlfcrlf` until it is no longer `Pending`. -/
def headOut [VecAlloc] {T : Type} (f : Bytes → Bool → T) :
    Nat → BufIo → Outcome IoError T × BufIo
  | 0, io => (.pending, io)
  | n + 1, io =>
      match pollForCrlfcrlf f io with
      | (.pending, io') => headOut f n io'
      | (.ready ret, io') => (.ready ret, io')
      | (.fail e, io') => (.fail e, io')
      | (.panic m, io') => (.panic m, io')
      | (.diverge, io') => (.diverge, io')

/-- A reader over `s` and then the end of the stream: some of `s` may be buffered, and the transport
answers with the rest in any pieces, and with `Pending` in between. -/
structure Yields (s : Bytes) (io : BufIo) : Prop where
  wf : io.Wf
  clean : Transport.Clean io.inner.rx
  eof : io.inner.eof = true
  stream : io.stream = s

variable {T : Type} {f : Bytes → Bool → T} {io io' : BufIo} {s head rest bs : Bytes} {polls : Nat}

theorem Yields.reads (h : Yields s io) (hr : Reads [] io io') : Yields s io' :=
  ⟨hr.wf h.wf, hr.clean h.clean, hr.eof.trans h.eof, hr.stream.symm.trans h.stream⟩

/-- Where the stream ends, a poll that waits has used an answer up. -/
theorem Yields.rx_lt (h : Yields s io) (hb : Blocked io io') :
    io'.inner.rx.length < io.inner.rx.length := by
  rcases hb with ⟨-, heof⟩ | hlt
  · cases h.eof.symm.trans heof
  · exact hlt

/-- What the polls come to, by what one comes to. -/
theorem headOut_rule [VecAlloc] {I : BufIo → Prop} {R : Outcome IoError T → BufIo → Prop}
    (hpoll : ∀ io, I io → wp (pollForCrlfcrlf f) (fun r io' => match r with
      | .pending => I io' ∧ io'.inner.rx.length < io.inner.rx.length
      | r => R r io') io)
    (hi : I io) (hpolls : io.inner.rx.length < polls) :
    R (headOut f polls io).1 (headOut f polls io).2 := by
  induction polls generalizing io with
  | zero => exact absurd hpolls (Nat.not_lt_zero _)
  | succ n ih =>
      have h := hpoll io hi
      rw [wp] at h
      rw [headOut]
      rcases hp : pollForCrlfcrlf f io with ⟨r, io'⟩
      rw [hp] at h
      cases r with
      | pending =>
          have hlt : io'.inner.rx.length < io.inner.rx.length := h.2
          exact ih h.1 (by omega)
      | ready ret => exact h
      | fail e => exact h
      | panic m => exact h
      | diverge => exact h

/-! ### The scan of a string -/

/-- The head at the front of `s`, and what is left behind it, where the stream ends behind `s`. -/
def headOf (s : Bytes) : Outcome IoError (Bytes × Bool) × Bytes :=
  match scan false s 0 0 with
  | .head n => (.ready (s.take n, false), s.drop n)
  | .tooLong => (.fail ⟨.invalidData, "No header found in 16384 bytes"⟩, s)
  | .eof => (.fail ⟨.unexpectedEof, "EOF and no header length"⟩, s)
  | .more _ =>
      if s = [] then (.fail ⟨.unexpectedEof, "EOF and no header length"⟩, s)
      else (.ready (s, true), [])

/-- What the scan of the whole of `s` comes to. -/
theorem scan_whole (s : Bytes) : match scan false s 0 0 with
    | .head n => n ≤ s.length ∧ n ≤ readBufInitSize ∧ HeadEnd (s.take n)
    | .eof => False
    | .tooLong => readBufInitSize ≤ s.length ∧ NoEnd (s.take readBufInitSize)
    | .more endIndex => endIndex = endIndexAfter s ∧ NoEnd s ∧ s.length < readBufInitSize :=
  scan_spec [] s noEnd_nil (Nat.zero_le _)

theorem headOf_found (hh : HeadEnd head) (hlen : head.length ≤ readBufInitSize) :
    headOf (head ++ rest) = (.ready (head, false), rest) := by
  have h := scan_whole (head ++ rest)
  rw [headOf]
  generalize scan false (head ++ rest) 0 0 = found at h
  cases found with
  | head n =>
      obtain ⟨-, -, hn⟩ := h
      obtain ⟨hhead, hrest⟩ := hn.unique hh (List.take_append_drop n (head ++ rest))
      dsimp only
      rw [hhead, hrest]
  | eof => exact h.elim
  | tooLong =>
      obtain ⟨-, hno⟩ := h
      refine absurd hno (hh.not_noEnd (s := rest.take (readBufInitSize - head.length)) ?_)
      rw [List.take_append, List.take_of_length_le hlen]
  | more i => exact absurd h.2.1 (hh.not_noEnd rfl)

theorem headOf_tooLong (hlen : head.length = readBufInitSize) (hno : NoEnd head) :
    headOf (head ++ rest) = (.fail ⟨.invalidData, "No header found in 16384 bytes"⟩, head ++ rest) := by
  have h := scan_whole (head ++ rest)
  rw [headOf]
  generalize scan false (head ++ rest) 0 0 = found at h
  cases found with
  | head n =>
      obtain ⟨-, hle, hn⟩ := h
      rw [← hlen] at hle
      rw [List.take_append_of_le_length hle] at hn
      exact absurd hn.1 (hno n hle)
  | eof => exact h.elim
  | tooLong => rfl
  | more i =>
      obtain ⟨-, -, hlt⟩ := h
      rw [List.length_append] at hlt
      omega

theorem headOf_cut (hne : s ≠ []) (hno : NoEnd s) (hlt : s.length < readBufInitSize) :
    headOf s = (.ready (s, true), []) := by
  have h := scan_whole s
  rw [headOf]
  generalize scan false s 0 0 = found at h
  cases found with
  | head n => exact absurd h.2.2.1 (hno n h.1)
  | eof => exact h.elim
  | tooLong => exact absurd hlt (Nat.not_lt.mpr h.1)
  | more i => exact if_neg hne

theorem headOf_nil : headOf [] = (.fail ⟨.unexpectedEof, "EOF and no header length"⟩, []) := rfl

/-- A string is given whole, with the end of the stream, only where nothing is left of it. -/
theorem headOf_eos (h : (headOf s).1 = .ready (head, true)) : head = s ∧ (headOf s).2 = [] := by
  rw [headOf] at h ⊢
  generalize scan false s 0 0 = found at h
  cases found with
  | head n => cases h
  | eof => cases h
  | tooLong => cases h
  | more i =>
      dsimp only at h ⊢
      by_cases hs : s = []
      · rw [if_pos hs] at h
        cases h
      · rw [if_neg hs] at h ⊢
        cases h
        exact ⟨rfl, rfl⟩

theorem headOf_ne_pending (s : Bytes) : (headOf s).1 ≠ .pending := by
  rw [headOf]
  cases scan false s 0 0 with
  | head n => intro h; cases h
  | eof => intro h; cases h
  | tooLong => intro h; cases h
  | more i =>
      dsimp only
      split
      · intro h; cases h
      · intro h; cases h

/-! ### Heads in pieces -/

variable [VecAlloc]

/-- One poll, of a reader over `s`: it waits, or comes to what the scan of `s` does. -/
theorem Yields.poll (h : Yields s io) : wp (pollForCrlfcrlf f) (fun r io' => match r with
    | .pending => Yields s io' ∧ io'.inner.rx.length < io.inner.rx.length
    | r => io'.Grows → r = (headOf s).1.map (fun p => f p.1 p.2) ∧ io'.stream = (headOf s).2) io := by
  refine (pollForCrlfcrlf_spec h.wf).mono fun r io' hp => ?_
  cases r with
  | pending => exact ⟨h.reads hp.1, h.rx_lt hp.2.1⟩
  | ready ret =>
      obtain ⟨head, eos, rfl, hf⟩ := hp
      have hs : s = head ++ io'.stream := h.stream.symm.trans hf.reads.stream
      intro _
      cases eos with
      | false =>
          obtain ⟨hh, hlen⟩ := hf.ended rfl
          rw [hs, headOf_found hh hlen]
          exact ⟨rfl, rfl⟩
      | true =>
          obtain ⟨hno, hlt, hend⟩ := hf.cut rfl
          obtain ⟨heof, hu⟩ := hend h.clean
          have hnil := heof.stream hu
          rw [hnil, List.append_nil] at hs
          subst hs
          rw [headOf_cut hf.ne hno hlt]
          exact ⟨rfl, hnil⟩
  | fail e =>
      obtain ⟨hr, why⟩ := hp
      have hs : io'.stream = s := hr.stream.symm.trans h.stream
      intro _
      rcases why with hc | ⟨rfl, heof, hu⟩ | ⟨rfl, front, rest, hst, hlen, hno⟩
      · exact absurd h.clean hc
      · have hnil := heof.stream hu
        rw [← hs, hnil, headOf_nil]
        exact ⟨rfl, rfl⟩
      · obtain rfl : s = front ++ rest := h.stream.symm.trans hst
        rw [headOf_tooLong hlen hno]
        exact ⟨rfl, hs⟩
  | panic m => exact fun hg => absurd hg hp.1.grows
  | diverge => exact hp.elim

/-- **A scan does not depend on the fragmentation.**  Of a string that is followed by the end of the
stream, the polls come to the same in whatever pieces it arrives, as long as the read buffer grows
where it has to: to the same slice and the same flag for the parse function, or to the same error;
and the same is left unread.  A slice with the flag of the end is the whole string. -/
theorem scanning_ignores_fragmentation (s : Bytes) :
    ∃ (out : Outcome IoError (Bytes × Bool)) (rest : Bytes), out ≠ .pending ∧
      (∀ head, out = .ready (head, true) → head = s ∧ rest = []) ∧
      ∀ (T : Type) (f : Bytes → Bool → T) (io : BufIo) (polls : Nat), Yields s io →
        io.inner.rx.length < polls → (headOut f polls io).2.Grows →
        (headOut f polls io).1 = out.map (fun p => f p.1 p.2) ∧
          (headOut f polls io).2.stream = rest := by
  refine ⟨(headOf s).1, (headOf s).2, headOf_ne_pending s, fun _ h => headOf_eos h,
    fun T f io polls h hpolls => ?_⟩
  exact headOut_rule (R := fun r io' => io'.Grows →
    r = (headOf s).1.map (fun p => f p.1 p.2) ∧ io'.stream = (headOf s).2)
    (fun io hy => hy.poll) h hpolls

/-- **A head in the stream is given whole**, and nothing behind it is touched, in whatever pieces it
arrives and whatever comes behind. -/
theorem headOut_of_headEnd (hh : HeadEnd head) (hlen : head.length ≤ readBufInitSize) (hw : io.Wf)
    (hcl : Transport.Clean io.inner.rx) (hst : io.stream = head ++ rest)
    (hpolls : io.inner.rx.length < polls) (hg : (headOut f polls io).2.Grows) :
    (headOut f polls io).1 = .ready (f head false) ∧ (headOut f polls io).2.stream = rest := by
  refine headOut_rule (R := fun r io' => io'.Grows → r = .ready (f head false) ∧ io'.stream = rest)
    (I := fun io => io.Wf ∧ Transport.Clean io.inner.rx ∧ io.stream = head ++ rest)
    (fun io hI => ?_) ⟨hw, hcl, hst⟩ hpolls hg
  obtain ⟨hw, hcl, hst⟩ := hI
  refine (pollForCrlfcrlf_spec hw).mono fun r io' h => ?_
  have hp := h.of_headEnd hcl hst hh hlen
  cases r with
  | ready ret => exact fun _ => ⟨congrArg Outcome.ready hp.1, hp.2⟩
  | pending =>
      obtain ⟨hr, hlt⟩ := hp
      exact ⟨⟨hr.wf hw, hr.clean hcl, hr.stream.symm.trans hst⟩, hlt⟩
  | fail e => exact hp.elim
  | panic m => exact fun hg => absurd hg hp.1.grows
  | diverge => exact hp.elim

end HreqH1
