import HreqH1.Reading.ChunkedBody

/-!
# Reading — reading a body out

`readOut ns s` polls the decoder of `s` into slices of the sizes `ns`, one poll after the other, for
as long as it is `Pending` or reads something: what was read, how it ended, and what of the stream
is left.

`decode` is the decoder one byte at a time, over a string that is followed by the end of the stream;
it has no transport, no buffer and no slices.  Every poll follows it (`pollRead_proceeds`), so what
is read out is what the string decodes to (`readsOutAs_decoded`), in whatever pieces it arrives and
is asked for (`decoding_ignores_fragmentation`).  Of a body that is coded as it should be that is its
data (`readsOutAs_body`).
-/

namespace HreqH1.ChunkedDecoder
open PollM BufIo

/-- How reading a body ends: with the decoder at `End`, with an `Ok(0)` before that, with an error,
or not as it should. -/
inductive Ending where
  | complete
  | short
  | failed (e : IoError)
  | crashed
  deriving DecidableEq

/-- A body that has been read out: the data, the end, and what is left of the stream. -/
structure ReadOut where
  out : Bytes
  ending : Ending
  left : Bytes
  deriving DecidableEq

/-- With `bs` read in front. -/
def ReadOut.prepend (bs : Bytes) (r : ReadOut) : ReadOut := { r with out := bs ++ r.out }

/-- How an `Ok(0)` ends the body. -/
def ending (v : ChunkedDecoder) : Ending := if v.isEnd then .complete else .short

/-- Polls into slices of `n + 1` bytes, `n` from `ns`, until there is `Ok(0)` or an error. -/
def readOut : List Nat → Dec → Option ReadOut
  | [], _ => none
  | n :: ns, s =>
      match pollRead (n + 1) s with
      | (.pending, s') => readOut ns s'
      | (.ready [], s') => some ⟨[], ending s'.1, s'.2.stream⟩
      | (.ready (b :: bs), s') => (readOut ns s').map (·.prepend (b :: bs))
      | (.fail e, s') => some ⟨[], .failed e, s'.2.stream⟩
      | (.panic _, s') => some ⟨[], .crashed, s'.2.stream⟩
      | (.diverge, s') => some ⟨[], .crashed, s'.2.stream⟩

/-- A bound on the polls until a body is read out. -/
def pollsLeft (s : Dec) : Nat := s.2.weight + s.2.inner.rx.length

/-- Whatever slices are polled for, what is read out is `r`; and enough polls read it out. -/
def ReadsOutAs (s : Dec) (r : ReadOut) : Prop :=
  ∀ ns, (∀ r', readOut ns s = some r' → r' = r) ∧ (pollsLeft s < ns.length → readOut ns s = some r)

/-! ### Byte by byte -/

/-- What one more byte makes of a decoder. -/
def next (v : ChunkedDecoder) (c : Byte) : Except IoError ChunkedDecoder :=
  match v.state with
  | .chunkSize =>
      if c = 59 ∨ c = 13 then
        match fromStrRadix 16 v.chunkSizeBuf with
        | none => .error ⟨.invalidData, "Not a number in chunk size"⟩
        | some amount => .ok ⟨amount, if amount = 0 then .fin else .chunkSizeLf, []⟩
      else if (toDigit 16 c).isSome then
        if (v.chunkSizeBuf ++ [c]).length > 10 then
          .error ⟨.invalidData, "Too many chars in chunk size"⟩
        else .ok { v with chunkSizeBuf := v.chunkSizeBuf ++ [c] }
      else .error ⟨.invalidData, "Unexpected char in chunk size: " ++ charDebug c⟩
  | .chunkSizeLf => .ok (if c = 10 then { v with state := .chunk } else v)
  | .chunk =>
      .ok ⟨v.amountLeft - 1, if v.amountLeft - 1 = 0 then .chunkLf else .chunk, v.chunkSizeBuf⟩
  | .chunkLf => .ok (if c = 10 then { v with state := .chunkSize } else v)
  | .fin => .ok v

/-- What the end of the stream makes of a decoder. -/
def atEnd (v : ChunkedDecoder) : Ending :=
  match v.state with
  | .chunkSize => .failed ⟨.unexpectedEof, "EOF while reading chunk size"⟩
  | .chunkSizeLf => .failed ⟨.unexpectedEof, "EOF before finding lf"⟩
  | .chunk => .short
  | .chunkLf => .failed ⟨.unexpectedEof, "EOF before finding lf"⟩
  | .fin => .complete

/-- What a decoder makes of the rest `s` of the stream. -/
def decode (v : ChunkedDecoder) : Bytes → ReadOut
  | [] => ⟨[], atEnd v, []⟩
  | c :: s =>
      if v.isEnd then ⟨[], .complete, c :: s⟩
      else match next v c with
        | .error e => ⟨[], .failed e, s⟩
        | .ok v' => if v.state = .chunk then (decode v' s).prepend [c] else decode v' s

variable {v v' : ChunkedDecoder} {c : Byte} {bs rest : Bytes} {s s' s'' : Dec} {n : Nat}

theorem decode_fin (h : v.state = .fin) (bs : Bytes) : decode v bs = ⟨[], .complete, bs⟩ := by
  cases bs with
  | nil => rw [decode, atEnd, h]
  | cons c bs => rw [decode, isEnd, h]; rfl

theorem decode_next (hs : v.state ≠ .fin) (hc : v.state ≠ .chunk) (hn : next v c = .ok v') :
    decode v (c :: rest) = decode v' rest := by
  rw [decode, isEnd, if_neg (by simpa using hs), hn]
  exact if_neg hc

theorem decode_error {e : IoError} (hs : v.state ≠ .fin) (hn : next v c = .error e) :
    decode v (c :: rest) = ⟨[], .failed e, rest⟩ := by
  rw [decode, isEnd, if_neg (by simpa using hs), hn]

theorem next_size {amount : Nat} (hs : v.state = .chunkSize) (hc : EndsSize c)
    (ha : fromStrRadix 16 v.chunkSizeBuf = some amount) :
    next v c = .ok ⟨amount, if amount = 0 then .fin else .chunkSizeLf, []⟩ := by
  have hc' : c = 59 ∨ c = 13 := hc
  rw [next, hs]
  dsimp only
  rw [if_pos hc', ha]

theorem next_not_size (hs : v.state = .chunkSize) (hc : EndsSize c)
    (ha : fromStrRadix 16 v.chunkSizeBuf = none) :
    next v c = .error ⟨.invalidData, "Not a number in chunk size"⟩ := by
  have hc' : c = 59 ∨ c = 13 := hc
  rw [next, hs]
  dsimp only
  rw [if_pos hc', ha]

/-- Bytes of a chunk are data. -/
theorem decode_data (hs : v.state = .chunk) (hne : bs ≠ []) (hle : bs.length ≤ v.amountLeft) :
    decode v (bs ++ rest) =
      (decode ⟨v.amountLeft - bs.length,
        if v.amountLeft - bs.length = 0 then .chunkLf else .chunk, v.chunkSizeBuf⟩ rest).prepend bs := by
  induction bs generalizing v with
  | nil => exact absurd rfl hne
  | cons c bs ih =>
      have hn : next v c = .ok ⟨v.amountLeft - 1,
          if v.amountLeft - 1 = 0 then .chunkLf else .chunk, v.chunkSizeBuf⟩ := by
        rw [next, hs]
      rw [List.cons_append, decode, isEnd, if_neg (by simp [hs]), hn]
      dsimp only
      rw [if_pos hs]
      rcases eq_or_ne bs [] with rfl | hb
      · rfl
      · have hpos := List.length_pos_iff.mpr hb
        rw [List.length_cons] at hle
        rw [if_neg (by omega), ih rfl hb (by dsimp only; omega), List.length_cons]
        dsimp only
        rw [Nat.sub_sub, Nat.add_comm 1]
        rfl

/-! ### Polls -/

/-- A decoder that can be polled: the transport answers with bytes in any pieces and `Pending` in
between, and then ends the stream; and a chunk that has not been read is not empty. -/
structure Good (s : Dec) : Prop where
  wf : s.2.Wf
  clean : Transport.Clean s.2.inner.rx
  eof : s.2.inner.eof = true
  left : s.1.state = .chunkSizeLf ∨ s.1.state = .chunk → s.1.amountLeft ≠ 0

/-- What is left of the stream, decoded. -/
def decoded (s : Dec) : ReadOut := decode s.1 s.2.stream

/-- `s'` comes after `s`, with nothing read in between. -/
structure Follows (s s' : Dec) : Prop where
  good : Good s'
  reads : ∃ bs, Reads bs s.2 s'.2
  decoded : decoded s' = decoded s

theorem Good.reads (h : Good s) (hr : Reads bs s.2 s'.2)
    (hv : s'.1.state = .chunkSizeLf ∨ s'.1.state = .chunk → s'.1.amountLeft ≠ 0) : Good s' :=
  ⟨hr.wf h.wf, hr.clean h.clean, hr.eof.trans h.eof, hv⟩

theorem Follows.refl (h : Good s) : Follows s s := ⟨h, ⟨[], Reads.refl _⟩, rfl⟩

theorem Follows.trans (h : Follows s s') (h' : Follows s' s'') : Follows s s'' := by
  obtain ⟨bs, hr⟩ := h.reads
  obtain ⟨cs, hr'⟩ := h'.reads
  exact ⟨h'.good, ⟨bs ++ cs, hr.trans hr'⟩, h'.decoded.trans h.decoded⟩

theorem Follows.rx_le (h : Follows s s') : s'.2.inner.rx.length ≤ s.2.inner.rx.length := by
  obtain ⟨bs, hr⟩ := h.reads
  exact hr.rx_le

/-- What a part of a poll comes to: it is done, or waits with an answer of the transport used up, or
fails as the rest of the stream does. -/
def Proceeds {α : Type} (Q : α → Dec → Prop) (s : Dec) : Outcome IoError α → Dec → Prop
  | .ready a, s' => Q a s'
  | .pending, s' => Follows s s' ∧ s'.2.inner.rx.length < s.2.inner.rx.length
  | .fail e, s' => decoded s = ⟨[], .failed e, s'.2.stream⟩
  | .panic _, _ => False
  | .diverge, _ => False

/-- After a wait that is not the end of the script. -/
theorem Good.rx_lt {io : BufIo} (h : Good s) (hb : Blocked s.2 io) :
    io.inner.rx.length < s.2.inner.rx.length := by
  rcases hb with ⟨-, he⟩ | hlt
  · rw [h.eof] at he
    cases he
  · exact hlt

/-- Reading one byte. -/
theorem readByte_proceeds (h : Good s) :
    wp (readRecv 1) (fun r s' => s'.1 = s.1 ∧ match r with
      | .ready [] => s.2.stream = [] ∧ s'.2.stream = []
      | .ready (c :: _) => Reads [c] s.2 s'.2
      | .pending => Follows s s' ∧ s'.2.inner.rx.length < s.2.inner.rx.length
      | _ => False) s := by
  rw [readRecv, wp_zoom]
  refine (pollReadBuf_spec h.wf 1).mono fun r io hs => ⟨rfl, ?_⟩
  cases r with
  | panic m => exact hs
  | diverge => exact hs
  | fail e => exact hs.2 h.clean
  | pending =>
      obtain ⟨hr, hw⟩ := hs
      refine ⟨⟨h.reads hr h.left, ⟨[], hr⟩, ?_⟩, h.rx_lt hw.blocked⟩
      rw [decoded, decoded, hr.stream]
      rfl
  | ready bs =>
      obtain ⟨hr, hle, heof⟩ := hs
      cases bs with
      | nil =>
          obtain ⟨he, hu⟩ := heof rfl Nat.one_pos h.clean
          have hst : s.2.stream = [] := he.stream hu
          exact ⟨hst, by rw [hr.stream] at hst; exact hst⟩
      | cons c bs =>
          cases bs with
          | nil => exact hr
          | cons _ _ => exact absurd hle (by simp)

/-! ### `poll_chunk_size` -/

/-- What a round of a loop that skips or collects comes to. -/
def Goes (I Q : Dec → Prop) : Flow Unit Unit → Dec → Prop
  | .again _, s => I s
  | .done _, s => Q s

/-- A decoder at the byte behind a chunk size, and `s'` past it. -/
def Sized (s s' : Dec) : Prop :=
  ∃ s₁ c, Follows s s₁ ∧ s₁.1.state = .chunkSize ∧ EndsSize c ∧ s'.1 = s₁.1 ∧ Reads [c] s₁.2 s'.2

theorem Sized.after (h : Follows s s') (hs : Sized s' s'') : Sized s s'' := by
  obtain ⟨s₁, c, hf, hs, hc, hv, hr⟩ := hs
  exact ⟨s₁, c, h.trans hf, hs, hc, hv, hr⟩

/-- What a round, or a loop, that proceeds from a later decoder is from an earlier one. -/
theorem Proceeds.after {α : Type} {Q Q' : α → Dec → Prop} {r : Outcome IoError α}
    (hp : Proceeds Q s' r s'') (h : Follows s s') (hQ : ∀ a, Q a s'' → Q' a s'') :
    Proceeds Q' s r s'' := by
  cases r with
  | ready a => exact hQ a hp
  | pending => exact ⟨h.trans hp.1, Nat.lt_of_lt_of_le hp.2 h.rx_le⟩
  | fail e => exact h.decoded.symm.trans hp
  | panic m => exact hp
  | diverge => exact hp

/-- A byte that the decoder goes on after. -/
theorem Good.follows (h : Good s) (hr : Reads [c] s.2 s'.2) (hs : s.1.state ≠ .fin)
    (hc : s.1.state ≠ .chunk) (hn : next s.1 c = .ok s'.1)
    (hl : s'.1.state = .chunkSizeLf ∨ s'.1.state = .chunk → s'.1.amountLeft ≠ 0) :
    Follows s s' := by
  refine ⟨h.reads hr hl, ⟨[c], hr⟩, ?_⟩
  rw [decoded, decoded, hr.stream]
  exact (decode_next hs hc hn).symm

theorem sizeRound_proceeds (h : Good s) (hs : s.1.state = .chunkSize) :
    wp (sizeRound ())
      (Proceeds (Goes (fun s' => Follows s s' ∧ s'.1.state = .chunkSize) (Sized s)) s) s := by
  have hfin : s.1.state ≠ .fin := by rw [hs]; simp
  have hchunk : s.1.state ≠ .chunk := by rw [hs]; simp
  rw [sizeRound, wp_bind]
  refine (readByte_proceeds h).mono fun r s' hr => ?_
  obtain ⟨hv, hr⟩ := hr
  cases r with
  | pending => exact hr
  | fail e => exact hr.elim
  | panic m => exact hr.elim
  | diverge => exact hr.elim
  | ready bs =>
      cases bs with
      | nil =>
          obtain ⟨hst, hst'⟩ := hr
          show decoded s = ⟨[], _, s'.2.stream⟩
          rw [decoded, hst, decode, atEnd, hs, hst']
      | cons c bs =>
          simp only [bindPost, wp_ite]
          split
          · next hc => exact ⟨s, c, .refl h, hs, hc, hv, hr⟩
          · next hc =>
            split
            · next hd =>
              rw [wp_bind, update, wp_modify, bindPost, wp_bind, wp_get, bindPost, wp_ite]
              split
              · next hl =>
                show decoded s = ⟨[], _, s'.2.stream⟩
                rw [decoded, hr.stream]
                refine decode_error hfin ?_
                rw [hv] at hl
                rw [next, hs]
                dsimp only
                rw [if_neg hc, if_pos hd, if_pos hl]
              · next hl =>
                rw [hv] at hl
                have hn : next s.1 c = .ok { s'.1 with chunkSizeBuf := s'.1.chunkSizeBuf ++ [c] } := by
                  rw [next, hs]
                  dsimp only
                  rw [if_neg hc, if_pos hd, if_neg hl, hv, hs]
                have hf : Follows s ({ s'.1 with chunkSizeBuf := s'.1.chunkSizeBuf ++ [c] }, s'.2) :=
                  h.follows hr hfin hchunk hn (by rw [hv]; exact h.left)
                refine ⟨hf, ?_⟩
                show s'.1.state = _
                rw [hv, hs]
            · next hd =>
              show decoded s = ⟨[], _, s'.2.stream⟩
              rw [decoded, hr.stream]
              refine decode_error hfin ?_
              rw [next, hs]
              dsimp only
              rw [if_neg hc, if_neg hd]

theorem pollChunkSize_proceeds (h : Good s) (hs : s.1.state = .chunkSize) :
    wp pollChunkSize (Proceeds (fun _ => Sized s) s) s := by
  refine wp_loop sizeRound_decreases (fun _ s' => Follows s s' ∧ s'.1.state = .chunkSize) ?_ h.wf
    ⟨.refl h, hs⟩
  rintro _ s₁ - ⟨hf, hs₁⟩
  refine (sizeRound_proceeds hf.good hs₁).mono fun r s' hr => ?_
  have hp : Proceeds (Goes (fun s' => Follows s s' ∧ s'.1.state = .chunkSize) (Sized s)) s r s' :=
    hr.after hf fun f hq => by
      cases f with
      | again _ => exact ⟨hf.trans hq.1, hq.2⟩
      | done _ => exact hq.after hf
  cases r with
  | ready f => cases f <;> exact hp
  | pending => exact hp
  | fail e => exact hp
  | panic m => exact hp
  | diverge => exact hp

/-! ### `poll_skip_until_lf` -/

/-- A decoder at the line feed it skips to, and `s'` past it. -/
def Skipped (s s' : Dec) : Prop := ∃ s₁, Follows s s₁ ∧ s₁.1 = s.1 ∧ s'.1 = s.1 ∧ Reads [10] s₁.2 s'.2

theorem skipRound_proceeds (h : Good s) (hs : s.1.state = .chunkSizeLf ∨ s.1.state = .chunkLf) :
    wp (skipRound ())
      (Proceeds (Goes (fun s' => Follows s s' ∧ s'.1 = s.1) (Skipped s)) s) s := by
  have hfin : s.1.state ≠ .fin := by rcases hs with hs | hs <;> rw [hs] <;> simp
  have hchunk : s.1.state ≠ .chunk := by rcases hs with hs | hs <;> rw [hs] <;> simp
  rw [skipRound, wp_bind]
  refine (readByte_proceeds h).mono fun r s' hr => ?_
  obtain ⟨hv, hr⟩ := hr
  cases r with
  | pending => exact hr
  | fail e => exact hr.elim
  | panic m => exact hr.elim
  | diverge => exact hr.elim
  | ready bs =>
      cases bs with
      | nil =>
          obtain ⟨hst, hst'⟩ := hr
          show decoded s = ⟨[], _, s'.2.stream⟩
          rw [decoded, hst, decode, hst', atEnd]
          rcases hs with hs | hs <;> rw [hs]
      | cons c bs =>
          simp only [bindPost, wp_ite]
          split
          · next hc => exact ⟨s, .refl h, rfl, hv, hc ▸ hr⟩
          · next hc =>
            have hn : next s.1 c = .ok s'.1 := by
              rw [next, hv]
              rcases hs with hs | hs <;> rw [hs] <;> dsimp only <;> rw [if_neg hc]
            have hf : Follows s s' := h.follows hr hfin hchunk hn (by rw [hv]; exact h.left)
            exact ⟨hf, hv⟩

theorem pollSkipUntilLf_proceeds (h : Good s)
    (hs : s.1.state = .chunkSizeLf ∨ s.1.state = .chunkLf) :
    wp pollSkipUntilLf (Proceeds (fun _ => Skipped s) s) s := by
  refine wp_loop skipRound_decreases (fun _ s' => Follows s s' ∧ s'.1 = s.1) ?_ h.wf ⟨.refl h, rfl⟩
  rintro _ s₁ - ⟨hf, hv⟩
  refine (skipRound_proceeds hf.good (by rw [hv]; exact hs)).mono fun r s' hr => ?_
  have hp : Proceeds (Goes (fun s' => Follows s s' ∧ s'.1 = s.1) (Skipped s)) s r s' :=
    hr.after hf fun f hq => by
      cases f with
      | again _ => exact ⟨hf.trans hq.1, hq.2.trans hv⟩
      | done _ =>
          obtain ⟨s₂, hf₂, hv₂, hv', hr'⟩ := hq
          exact ⟨s₂, hf.trans hf₂, hv₂.trans hv, hv'.trans hv, hr'⟩
  cases r with
  | ready f => cases f <;> exact hp
  | pending => exact hp
  | fail e => exact hp
  | panic m => exact hp
  | diverge => exact hp

/-! ### `poll_read` -/

/-- What has been read at once: some data, or nothing more is to come. -/
def Gives (s : Dec) (out : Bytes) (s' : Dec) : Prop :=
  (out = [] → decoded s = ⟨[], ending s'.1, s'.2.stream⟩) ∧
    (out ≠ [] → Good s' ∧ decoded s = (decoded s').prepend out ∧
      ∃ front, Reads (front ++ out) s.2 s'.2)

theorem Gives.after {out : Bytes} (h : Follows s s') (hg : Gives s' out s'') : Gives s out s'' := by
  refine ⟨fun ho => h.decoded.symm.trans (hg.1 ho), fun ho => ?_⟩
  obtain ⟨hgood, hd, front, hr⟩ := hg.2 ho
  obtain ⟨bs, hb⟩ := h.reads
  refine ⟨hgood, h.decoded.symm.trans hd, bs ++ front, ?_⟩
  rw [List.append_assoc]
  exact hb.trans hr

/-- What a round of `poll_read` comes to. -/
def ReadGoes (s : Dec) : Flow Unit Bytes → Dec → Prop
  | .again _, s' => Follows s s'
  | .done out, s' => Gives s out s'

theorem readRound_proceeds (h : Good s) (hn : 0 < n) :
    wp (readRound n ()) (Proceeds (ReadGoes s) s) s := by
  rw [readRound, wp_bind, wp_get, bindPost]
  cases hs : s.1.state with
  | fin =>
      refine ⟨fun _ => ?_, fun ho => absurd rfl ho⟩
      show decoded s = ⟨[], ending s.1, s.2.stream⟩
      rw [decoded, decode_fin hs, ending, isEnd, hs]
      rfl
  | chunkSize =>
      rw [wp_bind]
      refine (pollChunkSize_proceeds h hs).mono fun r s' hr => ?_
      cases r with
      | pending => exact hr
      | fail e => exact hr
      | panic m => exact hr.elim
      | diverge => exact hr.elim
      | ready _ =>
          obtain ⟨s₁, c, hf, hs₁, hc, hv, hr⟩ := hr
          have hfin : s₁.1.state ≠ .fin := by rw [hs₁]; simp
          have hchunk : s₁.1.state ≠ .chunk := by rw [hs₁]; simp
          rw [bindPost, wp_bind, wp_get, bindPost, hv]
          cases ha : fromStrRadix 16 s₁.1.chunkSizeBuf with
          | none =>
              show decoded s = ⟨[], _, s'.2.stream⟩
              rw [← hf.decoded, decoded, hr.stream]
              exact decode_error hfin (next_not_size hs₁ hc ha)
          | some amount =>
              have hgo : ∀ v', v' = (⟨amount, if amount = 0 then .fin else .chunkSizeLf, []⟩ :
                  ChunkedDecoder) → Follows s (v', s'.2) := by
                rintro v' rfl
                have hf' : Follows s₁ (⟨amount, if amount = 0 then .fin else .chunkSizeLf, []⟩, s'.2) :=
                  hf.good.follows hr hfin hchunk (next_size hs₁ hc ha) fun hl h0 => by
                    dsimp only at hl h0
                    rw [if_pos h0] at hl
                    simp at hl
                exact hf.trans hf'
              simp only [update, wp_bind, wp_modify, bindPost, wp_ite, wp_pure]
              split
              · next h0 => exact hgo _ (by rw [if_pos h0])
              · next h0 => exact hgo _ (by rw [if_neg h0])
  | chunkSizeLf =>
      rw [wp_bind]
      refine (pollSkipUntilLf_proceeds h (.inl hs)).mono fun r s' hr => ?_
      cases r with
      | pending => exact hr
      | fail e => exact hr
      | panic m => exact hr.elim
      | diverge => exact hr.elim
      | ready _ =>
          obtain ⟨s₁, hf, hv₁, hv, hr⟩ := hr
          have hs₁ : s₁.1.state = .chunkSizeLf := by rw [hv₁, hs]
          have hn : next s₁.1 10 = .ok { s'.1 with state := .chunk } := by
            rw [next, hs₁]
            dsimp only
            rw [if_pos rfl, hv₁, hv]
          have hf' : Follows s₁ ({ s'.1 with state := .chunk }, s'.2) :=
            hf.good.follows hr (by rw [hs₁]; simp) (by rw [hs₁]; simp) hn fun _ => by
              show s'.1.amountLeft ≠ 0
              rw [hv]
              exact h.left (.inl hs)
          exact hf.trans hf'
  | chunkLf =>
      rw [wp_bind]
      refine (pollSkipUntilLf_proceeds h (.inr hs)).mono fun r s' hr => ?_
      cases r with
      | pending => exact hr
      | fail e => exact hr
      | panic m => exact hr.elim
      | diverge => exact hr.elim
      | ready _ =>
          obtain ⟨s₁, hf, hv₁, hv, hr⟩ := hr
          have hs₁ : s₁.1.state = .chunkLf := by rw [hv₁, hs]
          have hn : next s₁.1 10 = .ok { s'.1 with state := .chunkSize } := by
            rw [next, hs₁]
            dsimp only
            rw [if_pos rfl, hv₁, hv]
          have hf' : Follows s₁ ({ s'.1 with state := .chunkSize }, s'.2) :=
            hf.good.follows hr (by rw [hs₁]; simp) (by rw [hs₁]; simp) hn fun hl => by simp at hl
          exact hf.trans hf'
  | chunk =>
      have hleft := h.left (.inr hs)
      simp only [wp_bind, wp_get, bindPost]
      rw [readRecv, wp_zoom]
      refine (pollReadBuf_spec h.wf _).mono fun r io hr => ?_
      cases r with
      | panic m => exact hr.elim
      | diverge => exact hr.elim
      | fail e => exact absurd h.clean hr.2
      | pending =>
          obtain ⟨hr, hw⟩ := hr
          refine ⟨⟨h.reads hr h.left, ⟨[], hr⟩, ?_⟩, h.rx_lt hw.blocked⟩
          rw [decoded, decoded, hr.stream]
          rfl
      | ready bs =>
          obtain ⟨hr, hle, heof⟩ := hr
          have hle' : bs.length ≤ s.1.amountLeft := Nat.le_trans hle (Nat.min_le_left _ _)
          simp only [bindPost, wp_bind, wp_get, wp_assert, decide_eq_true_eq, if_pos hle', update,
            wp_modify, wp_ite, wp_pure]
          have hgive : ∀ v', v' = (⟨s.1.amountLeft - bs.length,
              if s.1.amountLeft - bs.length = 0 then .chunkLf else .chunk, s.1.chunkSizeBuf⟩ :
              ChunkedDecoder) → Gives s bs (v', io) := by
            rintro v' rfl
            refine ⟨fun hb => ?_, fun hb => ⟨h.reads hr fun hl h0 => ?_, ?_, [], hr⟩⟩
            · -- Nothing is read at the end of the stream only.
              subst hb
              obtain ⟨he, hu⟩ := heof rfl (by omega) h.clean
              have hst : s.2.stream = [] := he.stream hu
              have hst' : io.stream = [] := by rw [hr.stream] at hst; exact hst
              show decoded s = ⟨[], ending _, io.stream⟩
              rw [decoded, hst, decode, atEnd, hs, hst', ending, isEnd, List.length_nil, Nat.sub_zero,
                if_neg hleft]
              rfl
            · dsimp only at hl h0
              rw [if_pos h0] at hl
              simp at hl
            · rw [decoded, hr.stream, decode_data hs hb hle']
              rfl
          split
          · next h0 => exact hgive _ (by rw [if_pos h0])
          · next h0 => exact hgive _ (by rw [if_neg h0, hs])

/-- **Every poll follows the decoder byte by byte.** -/
theorem pollRead_proceeds (h : Good s) (hn : n ≠ 0) :
    wp (pollRead n) (Proceeds (Gives s) s) s := by
  rw [pollRead, wp_bind, wp_assert, if_pos (decide_eq_true hn), bindPost]
  refine wp_loop (readRound_decreases n) (fun _ s' => Follows s s') ?_ h.wf (.refl h)
  intro _ s₁ _ hf
  refine (readRound_proceeds hf.good (Nat.pos_of_ne_zero hn)).mono fun r s' hr => ?_
  have hp : Proceeds (fun f s' => ReadGoes s f s') s r s' := hr.after hf fun f hq => by
    cases f with
    | again _ => exact hf.trans hq
    | done out => exact hq.after hf
  cases r with
  | ready f => cases f <;> exact hp
  | pending => exact hp
  | fail e => exact hp
  | panic m => exact hp
  | diverge => exact hp

/-! ### Reading out -/

theorem Follows.weight_le (h : Follows s s') : s'.2.weight ≤ s.2.weight := by
  obtain ⟨bs, hr⟩ := h.reads
  have := hr.weight
  omega

/-- What is read out is what the stream decodes to. -/
theorem readsOutAs_decoded (h : Good s) : ReadsOutAs s (decoded s) := by
  intro ns
  induction ns generalizing s with
  | nil => exact ⟨fun r hr => (by cases hr), fun hlt => absurd hlt (Nat.not_lt_zero _)⟩
  | cons n ns ih =>
      have hp : wp (pollRead (n + 1)) _ s := pollRead_proceeds h (Nat.succ_ne_zero n)
      rw [wp] at hp
      rw [readOut, pollsLeft, List.length_cons]
      rcases hx : pollRead (n + 1) s with ⟨r, s'⟩
      rw [hx] at hp
      dsimp only at hp
      cases r with
      | panic m => exact hp.elim
      | diverge => exact hp.elim
      | fail e =>
          have hd : decoded s = ⟨[], .failed e, s'.2.stream⟩ := hp
          rw [hd]
          exact ⟨fun r hr => (Option.some.inj hr).symm, fun _ => rfl⟩
      | pending =>
          obtain ⟨hf, hlt⟩ := hp
          obtain ⟨h₁, h₂⟩ := ih hf.good
          rw [hf.decoded] at h₁ h₂
          refine ⟨h₁, fun hn => h₂ ?_⟩
          have := hf.weight_le
          rw [pollsLeft]
          omega
      | ready out =>
          obtain ⟨hnil, hcons⟩ := hp
          cases out with
          | nil =>
              have hd : decoded s = ⟨[], ending s'.1, s'.2.stream⟩ := hnil rfl
              rw [hd]
              exact ⟨fun r hr => (Option.some.inj hr).symm, fun _ => rfl⟩
          | cons b bs =>
              obtain ⟨hgood, hd, front, hr⟩ := hcons (by simp)
              obtain ⟨h₁, h₂⟩ := ih hgood
              have hd' : decoded s = (decoded s').prepend (b :: bs) := hd
              rw [hd']
              refine ⟨fun r hr => ?_, fun hn => ?_⟩
              · obtain ⟨r', hr', rfl⟩ := Option.map_eq_some_iff.mp hr
                rw [h₁ r' hr']
              · have hw := hr.weight
                have hle := hr.rx_le
                rw [List.length_append, List.length_cons] at hw
                have hsome := h₂ (by rw [pollsLeft]; omega)
                exact congrArg (Option.map (ReadOut.prepend (b :: bs))) hsome

theorem decode_not_crashed (v : ChunkedDecoder) (bs : Bytes) : (decode v bs).ending ≠ .crashed := by
  induction bs generalizing v with
  | nil =>
      rw [decode, atEnd]
      cases v.state <;> simp
  | cons c bs ih =>
      rw [decode]
      split
      · simp
      · cases next v c with
        | error e => simp
        | ok v' =>
            dsimp only
            split
            · exact ih v'
            · exact ih v'

/-- A fresh decoder, with a reader over `bs` and the end of the stream: some of the bytes may be
buffered, and the transport answers with the others in any pieces, and with `Pending` in between. -/
structure Delivers (bs : Bytes) (s : Dec) : Prop where
  decoder : s.1 = .new
  wf : s.2.Wf
  clean : Transport.Clean s.2.inner.rx
  eof : s.2.inner.eof = true
  stream : s.2.stream = bs

theorem Delivers.good (h : Delivers bs s) : Good s :=
  ⟨h.wf, h.clean, h.eof, by rw [h.decoder]; simp [new]⟩

theorem Delivers.decoded (h : Delivers bs s) : decoded s = decode .new bs := by
  rw [ChunkedDecoder.decoded, h.decoder, h.stream]

/-- **Decoding does not depend on the fragmentation.**  Of the same bytes, valid or not, any two
decoders read out the same, whatever arrives at once and whatever is asked for at once: the data,
how it ends and what is left of the stream.  Nothing panics on the way, and enough polls get
there. -/
theorem decoding_ignores_fragmentation {bs : Bytes} {s s' : Dec} (h : Delivers bs s)
    (h' : Delivers bs s') :
    ∃ r : ReadOut, r.ending ≠ .crashed ∧ ReadsOutAs s r ∧ ReadsOutAs s' r := by
  refine ⟨decode .new bs, decode_not_crashed _ _, ?_, ?_⟩
  · rw [← h.decoded]
    exact readsOutAs_decoded h.good
  · rw [← h'.decoded]
    exact readsOutAs_decoded h'.good

/-- A chunk of two bytes and an `x`, at once. -/
def atOnce : Dec := (.new, .withCapacity 16 ⟨[.data [50, 13, 10, 97, 98, 13, 10, 120]], true, [], [], 0⟩)

/-- The same, with the size buffered, and the rest in two pieces. -/
def inPieces : Dec :=
  (.new,
    { BufIo.withCapacity 16 ⟨[.pending, .data [10, 97], .pending, .data [98, 13, 10, 120]], true, [],
        [], 0⟩ with buf := ⟨[50, 13], 16, by decide⟩ })

theorem atOnce_delivers : Delivers [50, 13, 10, 97, 98, 13, 10, 120] atOnce where
  decoder := rfl
  wf := ⟨by decide, .inr ⟨rfl, rfl⟩, by intros; contradiction⟩
  clean := by
    intro e he
    rw [List.mem_singleton.mp he]
    exact .inr ⟨_, _, rfl⟩
  eof := rfl
  stream := rfl

theorem inPieces_delivers : Delivers [50, 13, 10, 97, 98, 13, 10, 120] inPieces where
  decoder := rfl
  wf := ⟨by decide, .inl (by decide), by intros; contradiction⟩
  clean := by
    intro e he
    rcases List.mem_cons.mp he with rfl | he
    · exact .inl rfl
    rcases List.mem_cons.mp he with rfl | he
    · exact .inr ⟨_, _, rfl⟩
    rcases List.mem_cons.mp he with rfl | he
    · exact .inl rfl
    · rw [List.mem_singleton.mp he]
      exact .inr ⟨_, _, rfl⟩
  eof := rfl
  stream := rfl

/-- Both read `ab`, and then refuse the `x`. -/
theorem pieces_read_the_same :
    ∃ r : ReadOut, r.ending ≠ .crashed ∧ ReadsOutAs atOnce r ∧ ReadsOutAs inPieces r :=
  decoding_ignores_fragmentation atOnce_delivers inPieces_delivers

example : readOut [4, 4] atOnce =
    some ⟨[97, 98], .failed ⟨.invalidData, "Unexpected char in chunk size: 'x'"⟩, []⟩ := by
  decide +kernel

/-! ### Bodies -/

/-- **A body is read out as its data**, to its end; the transport need not end the stream. -/
theorem readsOutAs_body {l : LastChunk} {data rest : Bytes} {s : Dec} (hw : s.2.Wf)
    (hcl : Transport.Clean s.2.inner.rx) (hb : OnBody l data rest s) :
    ReadsOutAs s ⟨data, .complete, l.left ++ rest⟩ := by
  intro ns
  induction ns generalizing s data with
  | nil => exact ⟨fun r hr => (by cases hr), fun hlt => absurd hlt (Nat.not_lt_zero _)⟩
  | cons n ns ih =>
      have hp : wp (pollRead (n + 1)) _ s := pollRead_expects (Nat.succ_pos n) hw hcl hb
      have hmoves : wp (pollRead (n + 1)) _ s := pollRead_moves hw (Nat.succ_ne_zero n)
      rw [wp] at hp hmoves
      rw [readOut, pollsLeft, List.length_cons]
      rcases hx : pollRead (n + 1) s with ⟨r, s'⟩
      rw [hx] at hp hmoves
      dsimp only at hp hmoves
      obtain ⟨⟨bs, hr⟩, hp⟩ := hp
      have hle := hr.rx_le
      have hwt := hr.weight
      cases r with
      | panic m => exact hp.elim
      | diverge => exact hp.elim
      | fail e => exact hp.elim
      | pending =>
          obtain ⟨hb', hwait⟩ := hp
          obtain ⟨h₁, h₂⟩ := ih (hr.wf hw) (hr.clean hcl) hb'
          refine ⟨h₁, fun hn => h₂ ?_⟩
          rcases hwait.blocked with ⟨hrx, -⟩ | hlt
          · -- A silent transport has already given the whole body.
            obtain ⟨wire, hx', hst⟩ := hb'
            rw [hwait.silent hr hrx] at hst
            exact absurd (List.append_eq_nil_iff.mp hst.symm).1 hx'.wire_ne
          · rw [pollsLeft]
            omega
      | ready out =>
          obtain ⟨-, data', rfl, hb', hend⟩ := hp
          cases out with
          | nil =>
              obtain ⟨wire, hx', hst⟩ := hb'
              obtain ⟨rfl, rfl⟩ := hx'.at_end (hend rfl)
              have he : ending s'.1 = .complete := if_pos (hend rfl)
              dsimp only
              rw [he, hst]
              exact ⟨fun r hr => (Option.some.inj hr).symm, fun _ => rfl⟩
          | cons b bs' =>
              obtain ⟨h₁, h₂⟩ := ih (hr.wf hw) (hr.clean hcl) hb'
              refine ⟨fun r hr => ?_, fun hn => ?_⟩
              · obtain ⟨r', hr', rfl⟩ := Option.map_eq_some_iff.mp hr
                rw [h₁ r' hr']
                rfl
              · obtain ⟨-, front, hf⟩ := hmoves
                have hwt := hf.weight
                rw [List.length_append, List.length_cons] at hwt
                have hsome := h₂ (by rw [pollsLeft]; omega)
                exact congrArg (Option.map (ReadOut.prepend (b :: bs'))) hsome

end HreqH1.ChunkedDecoder
