import HreqH1.Reading.Decode
import HreqH1.Support.Delimited

/-!
# Reading — chunked bodies

The chunked coding of RFC 7230 section 4.1, and the decoder over a body in it.  `Expects` ties a
decoder to what is left of the body: the bytes that are still to come and the data that is still to
be read.  Every round keeps it (`Expects.round`), and so does every poll (`pollRead_expects`).

The decoder is done at the `;` or `\r` behind the last chunk's zeros, so what it then still expects
is the rest of the body from there on (`LastChunk.left`).
-/

namespace HreqH1

/-- `chunk-ext`: nothing, or a `;` and more on the line. -/
def ChunkExt (ext : Bytes) : Prop := (ext = [] ∨ ext.head? = some 59) ∧ 13 ∉ ext ∧ 10 ∉ ext

/-- A chunk with a size of one to ten digits. -/
structure Chunk where
  digits : Bytes
  ext : Bytes
  data : Bytes
  digits_le : digits.length ≤ 10
  size_eq : foldDigits 16 0 digits = some data.length
  data_ne : data ≠ []
  ext_ok : ChunkExt ext

/-- The last chunk with the trailer fields, and the empty line. -/
structure LastChunk where
  zeros : Bytes
  ext : Bytes
  trailers : List Bytes
  zeros_ne : zeros ≠ []
  zeros_le : zeros.length ≤ 10
  zeros_ok : ∀ b ∈ zeros, b = 48
  ext_ok : ChunkExt ext
  trailers_ok : ∀ t ∈ trailers, t ≠ [] ∧ 13 ∉ t ∧ 10 ∉ t

namespace Chunk

/-- What follows the size. -/
def afterSize (c : Chunk) : Bytes := c.ext ++ crlf ++ c.data ++ crlf

def bytes (c : Chunk) : Bytes := c.digits ++ c.afterSize

end Chunk

namespace LastChunk

/-- What follows the zeros. -/
def afterSize (l : LastChunk) : Bytes :=
  l.ext ++ crlf ++ l.trailers.flatMap (· ++ crlf) ++ crlf

/-- What the decoder leaves of a body: all that follows the first byte behind the zeros. -/
def left (l : LastChunk) : Bytes := l.afterSize.tail

theorem left_ne (l : LastChunk) : l.left ≠ [] := by
  intro h
  have hlen : l.afterSize.length ≤ 1 := by
    rw [← Nat.sub_eq_zero_iff_le, ← List.length_tail, ← LastChunk.left, h]; rfl
  simp [afterSize, crlf] at hlen
  omega

end LastChunk

/-- The coding of the chunks `cs` and a last chunk. -/
def codedBody (cs : List Chunk) (l : LastChunk) : Bytes :=
  cs.flatMap Chunk.bytes ++ (l.zeros ++ l.afterSize)

/-- The data of the chunks `cs`. -/
def bodyData (cs : List Chunk) : Bytes := cs.flatMap Chunk.data

namespace ChunkedDecoder
open PollM BufIo

/-- The bytes and the data a decoder still expects of a body that ends with `l`. -/
inductive Expects (l : LastChunk) : ChunkedDecoder → Bytes → Bytes → Prop where
  | size (a : Nat) (p q : Bytes) (c : Chunk) (cs : List Chunk) (h : c.digits = p ++ q) :
      Expects l ⟨a, .chunkSize, p⟩ (q ++ (c.afterSize ++ codedBody cs l)) (c.data ++ bodyData cs)
  | lastSize (a : Nat) (p q : Bytes) (h : l.zeros = p ++ q) :
      Expects l ⟨a, .chunkSize, p⟩ (q ++ l.afterSize) []
  | sizeLf (x : Bytes) (hx : 10 ∉ x) (d : Bytes) (hd : d ≠ []) (cs : List Chunk) :
      Expects l ⟨d.length, .chunkSizeLf, []⟩ (x ++ 10 :: (d ++ crlf ++ codedBody cs l))
        (d ++ bodyData cs)
  | chunk (d : Bytes) (hd : d ≠ []) (cs : List Chunk) :
      Expects l ⟨d.length, .chunk, []⟩ (d ++ crlf ++ codedBody cs l) (d ++ bodyData cs)
  | chunkLf (x : Bytes) (hx : 10 ∉ x) (cs : List Chunk) :
      Expects l ⟨0, .chunkLf, []⟩ (x ++ 10 :: codedBody cs l) (bodyData cs)
  | fin : Expects l ⟨0, .fin, []⟩ l.left []

variable {l : LastChunk} {cs : List Chunk} {v : ChunkedDecoder} {wire data rest : Bytes}

/-- A decoder at the start of a body. -/
theorem expects_start (a : Nat) :
    Expects l ⟨a, .chunkSize, []⟩ (codedBody cs l) (bodyData cs) := by
  cases cs with
  | nil => exact .lastSize a [] l.zeros rfl
  | cons c cs =>
      have h : Expects l ⟨a, .chunkSize, []⟩ _ _ := .size a [] c.digits c cs rfl
      have hw : codedBody (c :: cs) l = c.digits ++ (c.afterSize ++ codedBody cs l) := by
        simp only [codedBody, List.flatMap_cons, Chunk.bytes, List.append_assoc]
      rw [hw]
      exact h

/-- All that is left at the end is what follows the size of the last chunk. -/
theorem Expects.at_end (h : Expects l v wire data) (he : v.isEnd = true) :
    wire = l.left ∧ data = [] := by
  have hs : v.state = .fin := of_decide_eq_true he
  cases h with
  | fin => exact ⟨rfl, rfl⟩
  | size => cases hs
  | lastSize => cases hs
  | sizeLf => cases hs
  | chunk => cases hs
  | chunkLf => cases hs

theorem Expects.wire_ne (h : Expects l v wire data) : wire ≠ [] := by
  cases h with
  | size => simp [Chunk.afterSize, crlf]
  | lastSize => simp [LastChunk.afterSize, crlf]
  | sizeLf => simp
  | chunk d hd => simp [hd]
  | chunkLf => simp
  | fin => exact l.left_ne

/-! ### Sizes -/

theorem isHex_of_foldDigits {ds : Bytes} {acc n : Nat} (h : foldDigits 16 acc ds = some n) :
    ∀ d ∈ ds, IsHex d := by
  induction ds generalizing acc with
  | nil => exact fun _ hd => absurd hd List.not_mem_nil
  | cons b bs ih =>
      rw [foldDigits] at h
      cases hb : toDigit 16 b with
      | none => rw [hb] at h; cases h
      | some k =>
          rw [hb] at h
          intro d hd
          rcases List.mem_cons.mp hd with rfl | hd
          · rw [IsHex, hb]; rfl
          · exact ih h d hd

theorem foldDigits_lt {ds : Bytes} {acc n : Nat} (h : foldDigits 16 acc ds = some n) :
    n < (acc + 1) * 16 ^ ds.length := by
  induction ds generalizing acc with
  | nil => cases h; simp
  | cons b bs ih =>
      rw [foldDigits] at h
      cases hb : toDigit 16 b with
      | none => rw [hb] at h; cases h
      | some k =>
          rw [hb] at h
          have hk : k < 16 := of_decide_eq_true (Option.filter_eq_some_iff.mp hb).2
          refine Nat.lt_of_lt_of_le (ih h) ?_
          rw [List.length_cons, Nat.pow_succ', ← Nat.mul_assoc]
          exact Nat.mul_le_mul_right _ (by omega)

theorem foldDigits_zeros {ds : Bytes} (h : ∀ b ∈ ds, b = 48) : foldDigits 16 0 ds = some 0 := by
  induction ds with
  | nil => rfl
  | cons b bs ih =>
      obtain rfl := h b List.mem_cons_self
      exact ih fun d hd => h d (List.mem_cons_of_mem _ hd)

/-- A size of at most ten digits is read as it is. -/
theorem fromStrRadix_hex {ds : Bytes} {n : Nat} (hne : ds ≠ []) (hle : ds.length ≤ 10)
    (h : foldDigits 16 0 ds = some n) : fromStrRadix 16 ds = some n := by
  have hlt : n < 2 ^ 64 := by
    refine Nat.lt_of_lt_of_le (foldDigits_lt h) ?_
    rw [Nat.zero_add, Nat.one_mul]
    exact Nat.le_trans (Nat.pow_le_pow_right (by decide) hle) (by decide)
  have hplus : ∀ rest, ds ≠ 43 :: rest := by
    rintro rest rfl
    cases h
  have hempty : ds.isEmpty = false := by
    rw [List.isEmpty_eq_false_iff]
    exact hne
  have hfilter : (some n).filter (fun m => decide (m < 2 ^ 64)) = some n := by
    rw [Option.filter_some, if_pos (decide_eq_true hlt)]
  rw [fromStrRadix]
  · rw [hempty, if_neg Bool.false_ne_true, h, hfilter]
  · exact hplus

theorem fromStrRadix_digits (c : Chunk) : fromStrRadix 16 c.digits = some c.data.length := by
  refine fromStrRadix_hex ?_ c.digits_le c.size_eq
  intro hnil
  have h := c.size_eq
  rw [hnil] at h
  exact c.data_ne (List.length_eq_zero_iff.mp (Option.some.inj h).symm)

/-- What follows a size begins with a byte that ends it, and ends with a line feed after which
there is more. -/
theorem ext_crlf {ext rest : Bytes} (h : ChunkExt ext) :
    ∃ b x, ext ++ crlf ++ rest = b :: (x ++ 10 :: rest) ∧ EndsSize b ∧ 10 ∉ x := by
  obtain ⟨rfl | hh, h13, h10⟩ := h
  · exact ⟨13, [], rfl, .inr rfl, by simp⟩
  · cases ext with
    | nil => cases hh
    | cons b x =>
        refine ⟨b, x ++ [13], by simp [crlf], .inl (Option.some.inj hh), fun hm => ?_⟩
        rcases List.mem_append.mp hm with hm | hm
        · exact h10 (List.mem_cons_of_mem _ hm)
        · cases List.mem_singleton.mp hm

/-- A decoder in a chunk size: the digits still to come, and where they lead. -/
theorem Expects.at_size (h : Expects l v wire data) (hs : v.state = .chunkSize) :
    ∃ q b left amount, wire = q ++ b :: left ∧ EndsSize b ∧ (∀ d ∈ q, IsHex d) ∧
      (v.chunkSizeBuf ++ q).length ≤ 10 ∧ fromStrRadix 16 (v.chunkSizeBuf ++ q) = some amount ∧
      (∀ p' q', q = p' ++ q' →
        Expects l { v with chunkSizeBuf := v.chunkSizeBuf ++ p' } (q' ++ b :: left) data) ∧
      Expects l ⟨amount, if amount = 0 then .fin else .chunkSizeLf, []⟩ left data := by
  cases h with
  | size a p q c cs hd =>
      obtain ⟨b, x, hx, hb, h10⟩ := @ext_crlf c.ext (c.data ++ crlf ++ codedBody cs l) c.ext_ok
      have hw : c.afterSize ++ codedBody cs l = b :: (x ++ 10 :: (c.data ++ crlf ++ codedBody cs l)) := by
        rw [← hx]
        simp only [Chunk.afterSize, List.append_assoc]
      have hlen : c.data.length ≠ 0 := fun h0 => c.data_ne (List.length_eq_zero_iff.mp h0)
      refine ⟨q, b, _, c.data.length, by rw [hw], hb, fun d hm => ?_, hd ▸ c.digits_le,
        hd ▸ fromStrRadix_digits c, fun p' q' hq => ?_, ?_⟩
      · exact isHex_of_foldDigits c.size_eq d (hd ▸ List.mem_append_right p hm)
      · rw [← hw]
        exact .size a (p ++ p') q' c cs (by rw [hd, hq, List.append_assoc])
      · rw [if_neg hlen]
        exact .sizeLf x h10 c.data c.data_ne cs
  | lastSize a p q hz =>
      obtain ⟨b, x, hx, hb, -⟩ := @ext_crlf l.ext (l.trailers.flatMap (· ++ crlf) ++ crlf) l.ext_ok
      have hw : l.afterSize = b :: l.left := by
        have : l.afterSize = b :: (x ++ 10 :: (l.trailers.flatMap (· ++ crlf) ++ crlf)) := by
          rw [← hx]
          simp only [LastChunk.afterSize, List.append_assoc]
        rw [LastChunk.left, this]
        rfl
      have hdigits : foldDigits 16 0 l.zeros = some 0 := foldDigits_zeros l.zeros_ok
      refine ⟨q, b, l.left, 0, by rw [hw], hb, fun d hm => ?_, hz ▸ l.zeros_le,
        hz ▸ fromStrRadix_hex l.zeros_ne l.zeros_le hdigits, fun p' q' hq => ?_, .fin⟩
      · exact isHex_of_foldDigits hdigits d (hz ▸ List.mem_append_right p hm)
      · rw [← hw]
        exact .lastSize a (p ++ p') q' (by rw [hz, hq, List.append_assoc])
  | sizeLf => cases hs
  | chunk => cases hs
  | chunkLf => cases hs
  | fin => cases hs

/-- A decoder that skips to a line feed. -/
theorem Expects.at_skip (h : Expects l v wire data)
    (hs : v.state = .chunkSizeLf ∨ v.state = .chunkLf) :
    ∃ x left, wire = x ++ 10 :: left ∧ 10 ∉ x ∧
      (∀ x' y', x = x' ++ y' → Expects l v (y' ++ 10 :: left) data) ∧
      (v.state = .chunkSizeLf → Expects l { v with state := .chunk } left data) ∧
      (v.state = .chunkLf → Expects l { v with state := .chunkSize } left data) := by
  have hsub : ∀ {x x' y' : Bytes}, 10 ∉ x → x = x' ++ y' → 10 ∉ y' := fun hx he hm =>
    hx (he ▸ List.mem_append_right _ hm)
  cases h with
  | size => cases hs <;> contradiction
  | lastSize => cases hs <;> contradiction
  | chunk => cases hs <;> contradiction
  | fin => cases hs <;> contradiction
  | sizeLf x hx d hd cs =>
      exact ⟨x, _, rfl, hx, fun x' y' he => .sizeLf y' (hsub hx he) d hd cs,
        fun _ => .chunk d hd cs, by simp⟩
  | chunkLf x hx cs =>
      exact ⟨x, _, rfl, hx, fun x' y' he => .chunkLf y' (hsub hx he) cs, by simp,
        fun _ => expects_start 0⟩

/-- A decoder in the data of a chunk. -/
theorem Expects.at_chunk (h : Expects l v wire data) (hs : v.state = .chunk) :
    ∃ d cs, v = ⟨d.length, .chunk, []⟩ ∧ d ≠ [] ∧ wire = d ++ crlf ++ codedBody cs l ∧
      data = d ++ bodyData cs := by
  cases h with
  | chunk d hd cs => exact ⟨d, cs, rfl, hd, rfl, rfl⟩
  | size => cases hs
  | lastSize => cases hs
  | sizeLf => cases hs
  | chunkLf => cases hs
  | fin => cases hs

/-! ### Polls -/

variable {n : Nat} {s s' : Dec} {bs : Bytes} {r : Outcome IoError (Flow Unit Bytes)}

/-- What a round comes to over a body, with `rest` behind it. -/
def OnBody (l : LastChunk) (data rest : Bytes) (s' : Dec) : Prop :=
  ∃ wire, Expects l s'.1 wire data ∧ s'.2.stream = wire ++ rest

/-- Over a body no round fails; and nothing is read at the end of the body only. -/
theorem Expects.round (hn : 0 < n) (hx : Expects l s.1 wire data) (hst : s.2.stream = wire ++ rest)
    (hcl : Transport.Clean s.2.inner.rx) (hr : Reads bs s.2 s'.2) (hm : RoundMove n s s' bs r) :
    match r with
    | .ready (.again _) => OnBody l data rest s'
    | .ready (.done out) => ∃ data', data = out ++ data' ∧ OnBody l data' rest s' ∧
        (out = [] → s'.1.isEnd = true)
    | .pending => OnBody l data rest s'
    | _ => False := by
  have hmove : bs ++ s'.2.stream = wire ++ rest := hr.stream.symm.trans hst
  have hend : Starved s.2 s'.2 → s'.2.stream = [] := fun h =>
    h.elim (fun h => absurd hcl h) fun h => h.1.stream h.2
  cases hm with
  | sized hs hds hc ha hv =>
      obtain ⟨q, b, left, amount, rfl, hb, hq, -, hamount, -, hnext⟩ := hx.at_size hs
      rw [List.append_assoc, List.append_assoc] at hmove
      obtain ⟨rfl, rfl, hleft⟩ :=
        Delimited.cut_unique hds hq (not_isHex_of_endsSize hc) (not_isHex_of_endsSize hb) hmove
      obtain rfl := Option.some.inj (ha.symm.trans hamount)
      exact ⟨left, hv ▸ hnext, hleft⟩
  | sizing hs hds hb' hv =>
      obtain ⟨q, b, left, amount, rfl, hb, hq, -, -, hpart, -⟩ := hx.at_size hs
      rw [List.append_assoc] at hmove
      obtain ⟨q', rfl, hleft⟩ := Delimited.front_le hds (not_isHex_of_endsSize hb) hmove
      exact ⟨_, hv ▸ hpart _ q' rfl, by rw [hleft, List.append_assoc]; rfl⟩
  | sizeFailed hs hds why =>
      obtain ⟨q, b, left, amount, rfl, hb, hq, hle, -⟩ := hx.at_size hs
      rw [List.append_assoc] at hmove
      obtain ⟨q', rfl, hleft⟩ := Delimited.front_le hds (not_isHex_of_endsSize hb) hmove
      rcases why with why | ⟨-, hlong⟩
      · rw [hend why] at hleft
        cases q' <;> cases hleft
      · simp only [List.length_append] at hle hlong
        omega
  | sizeInvalid hs hds hc hc' =>
      obtain ⟨q, b, left, amount, rfl, hb, hq, -⟩ := hx.at_size hs
      rw [List.append_assoc, List.append_assoc] at hmove
      obtain ⟨-, rfl, -⟩ := Delimited.cut_unique hds hq hc (not_isHex_of_endsSize hb) hmove
      exact hc' hb
  | sizeUnreadable hs hds hc ha =>
      obtain ⟨q, b, left, amount, rfl, hb, hq, -, hamount, -⟩ := hx.at_size hs
      rw [List.append_assoc, List.append_assoc] at hmove
      obtain ⟨rfl, -, -⟩ :=
        Delimited.cut_unique hds hq (not_isHex_of_endsSize hc) (not_isHex_of_endsSize hb) hmove
      cases ha.symm.trans hamount
  | @sizeLf xs hs hxs hv =>
      obtain ⟨x, left, rfl, h10, -, hnext, -⟩ := hx.at_skip (.inl hs)
      rw [List.append_assoc, List.append_assoc] at hmove
      obtain ⟨-, -, hleft⟩ := Delimited.cut_unique (P := (· ≠ 10))
        (fun d hd he => hxs (he ▸ hd)) (fun d hd he => h10 (he ▸ hd)) (by simp) (by simp) hmove
      exact ⟨left, hv ▸ hnext hs, hleft⟩
  | @chunkLf xs hs hxs hv =>
      obtain ⟨x, left, rfl, h10, -, -, hnext⟩ := hx.at_skip (.inr hs)
      rw [List.append_assoc, List.append_assoc] at hmove
      obtain ⟨-, -, hleft⟩ := Delimited.cut_unique (P := (· ≠ 10))
        (fun d hd he => hxs (he ▸ hd)) (fun d hd he => h10 (he ▸ hd)) (by simp) (by simp) hmove
      exact ⟨left, hv ▸ hnext hs, hleft⟩
  | skipping hs hxs hb hv =>
      obtain ⟨x, left, rfl, h10, hpart, -⟩ := hx.at_skip hs
      rw [List.append_assoc] at hmove
      obtain ⟨y, rfl, hleft⟩ := Delimited.front_le (P := (· ≠ 10))
        (fun d hd he => hxs (he ▸ hd)) (by simp) hmove
      exact ⟨_, hv ▸ hpart _ y rfl, by rw [hleft, List.append_assoc]; rfl⟩
  | skipFailed hs hxs why =>
      obtain ⟨x, left, rfl, h10, -⟩ := hx.at_skip hs
      rw [List.append_assoc, hend why, List.append_nil] at hmove
      exact hxs (hmove ▸ by simp)
  | data hs hle he hv =>
      obtain ⟨d, cs, hd, hne, rfl, rfl⟩ := hx.at_chunk hs
      have hleft : s.1.amountLeft = d.length := congrArg ChunkedDecoder.amountLeft hd
      have hbuf : s.1.chunkSizeBuf = [] := congrArg ChunkedDecoder.chunkSizeBuf hd
      rw [hleft] at hle he hv
      have hbs : bs ≠ [] := by
        rintro rfl
        rw [hend (he rfl (by have := List.length_pos_iff.mpr hne; omega))] at hmove
        simp [hne] at hmove
      -- The bytes read are a front of the chunk's data.
      rw [List.append_assoc, List.append_assoc] at hmove
      obtain ⟨d', rfl⟩ : ∃ d', d = bs ++ d' :=
        (List.prefix_of_prefix_length_le ⟨_, hmove⟩ ⟨_, rfl⟩
          (Nat.le_trans hle (Nat.min_le_left _ _))).imp fun _ h => h.symm
      rw [List.append_assoc, List.append_cancel_left_eq] at hmove
      rw [List.length_append, Nat.add_sub_cancel_left, hbuf] at hv
      refine ⟨d' ++ bodyData cs, List.append_assoc .., ?_, fun h => absurd h hbs⟩
      by_cases hd' : d' = []
      · subst hd'
        exact ⟨[13] ++ 10 :: codedBody cs l, hv ▸ .chunkLf [13] (by decide) cs, hmove⟩
      · rw [if_neg fun h0 => hd' (List.length_eq_zero_iff.mp h0)] at hv
        exact ⟨d' ++ crlf ++ codedBody cs l, hv ▸ .chunk d' hd' cs,
          by rw [hmove, List.append_assoc, List.append_assoc]⟩
  | waiting hs hb hv => exact ⟨wire, hv ▸ hx, hmove.trans rfl⟩
  | dataFailed hs why => exact why hcl
  | ended hs hv => exact ⟨data, rfl, ⟨wire, hv ▸ hx, hmove.trans rfl⟩, fun _ => by
      rw [hv]; exact decide_eq_true hs⟩

/-- **The decoder over a body.**  A poll for `n` bytes reads a front of the data, and none of it
only at the end. -/
theorem pollRead_expects (hn : 0 < n) (hw : s.2.Wf) (hcl : Transport.Clean s.2.inner.rx)
    (hb : OnBody l data rest s) :
    wp (pollRead n) (fun r s' => (∃ bs, Reads bs s.2 s'.2) ∧ match r with
      | .ready out => out.length ≤ n ∧ ∃ data', data = out ++ data' ∧ OnBody l data' rest s' ∧
          (out = [] → s'.1.isEnd = true)
      | .pending => OnBody l data rest s' ∧ Waits s.2 s'.2
      | _ => False) s := by
  rw [pollRead, wp_bind, wp_assert, if_pos (decide_eq_true (Nat.ne_of_gt hn)), bindPost]
  refine wp_loop (readRound_decreases n)
    (fun _ s' => (∃ bs, Reads bs s.2 s'.2) ∧ OnBody l data rest s') ?_ hw
    ⟨⟨[], Reads.refl _⟩, hb⟩
  rintro _ s₁ hw₁ ⟨⟨bs, hr⟩, wire, hx, hst⟩
  refine (readRound_spec hw₁ n).mono fun r s' hround => ?_
  obtain ⟨cs, hr', hm⟩ := hround
  have hround := hx.round hn hst (hr.clean hcl) hr' hm
  have hmoved : ∃ bs, Reads bs s.2 s'.2 := ⟨bs ++ cs, hr.trans hr'⟩
  cases hm with
  | sized => exact ⟨hmoved, hround⟩
  | sizeLf => exact ⟨hmoved, hround⟩
  | chunkLf => exact ⟨hmoved, hround⟩
  | sizing hs hds hb hv => exact ⟨hmoved, hround, hb.after hr hr'⟩
  | skipping hs hxs hb hv => exact ⟨hmoved, hround, hb.after hr hr'⟩
  | waiting hs hb hv => exact ⟨hmoved, hround, hb.after hr hr'⟩
  | data hs hle he hv =>
      exact ⟨hmoved, Nat.le_trans hle (Nat.min_le_right _ _), hround⟩
  | ended hs hv => exact ⟨hmoved, Nat.zero_le _, hround⟩
  | sizeFailed => exact hround.elim
  | sizeInvalid => exact hround.elim
  | sizeUnreadable => exact hround.elim
  | skipFailed => exact hround.elim
  | dataFailed => exact hround.elim

end ChunkedDecoder

end HreqH1
