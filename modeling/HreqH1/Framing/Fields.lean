import HreqH1.Model.Limit

/-!
# Framing — Fields

The look-ups of `src/limit.rs` by what the header fields say: `is_chunked` by the first
`transfer-encoding`, and `get_as` by the first `content-length` as a plain decimal number.
-/

namespace HreqH1

/-- How the end of a body is known. -/
inductive Framing where
  | noBody
  | contentLength (n : Nat)
  | chunked
  | readToEnd
  deriving DecidableEq

def LimitRead.framing : LimitRead → Framing
  | .chunkedDecoder _ => .chunked
  | .contentLength v => .contentLength v.limit
  | .readToEnd _ => .readToEnd
  | .noBody => .noBody

/-! ### Numbers -/

/-- A decimal digit. -/
def IsDigit (b : Byte) : Prop := 48 ≤ b ∧ b ≤ 57

instance (b : Byte) : Decidable (IsDigit b) := inferInstanceAs (Decidable (_ ∧ _))

/-- The number decimal digits stand for. -/
def decimalValue (v : Bytes) : Nat := v.foldl (fun n b => n * 10 + (b.toNat - 48)) 0

/-- `v` is a plain decimal number, and that is `n`. -/
def PlainDecimal (v : Bytes) (n : Nat) : Prop :=
  v ≠ [] ∧ (∀ b ∈ v, IsDigit b) ∧ decimalValue v = n

section Digits
variable {b : Byte} {v : Bytes} {n : Nat}

theorem toDigit_of_isDigit (h : IsDigit b) : toDigit 10 b = some (b.toNat - 48) := by
  have h9 : b.toNat ≤ 57 := h.2
  have hlt : b.toNat - 48 < 10 := by omega
  have hd : 48 ≤ b ∧ b ≤ 57 := h
  simp [toDigit, hd, Option.filter, hlt]

theorem toDigit_of_not_isDigit (h : ¬ IsDigit b) : toDigit 10 b = none := by
  have hd : ¬ (48 ≤ b ∧ b ≤ 57) := h
  rw [toDigit, if_neg hd]
  split
  · simp only [Option.filter, decide_eq_true_eq]
    rw [if_neg (by omega)]
  · split
    · simp only [Option.filter, decide_eq_true_eq]
      rw [if_neg (by omega)]
    · rfl

theorem foldDigits_of_digits (h : ∀ b ∈ v, IsDigit b) (acc : Nat) :
    foldDigits 10 acc v = some (v.foldl (fun n b => n * 10 + (b.toNat - 48)) acc) := by
  induction v generalizing acc with
  | nil => rfl
  | cons b v ih =>
      rw [foldDigits, toDigit_of_isDigit (h b List.mem_cons_self)]
      exact ih (fun c hc => h c (List.mem_cons_of_mem b hc)) _

theorem foldDigits_of_other (hb : b ∈ v) (h : ¬ IsDigit b) (acc : Nat) :
    foldDigits 10 acc v = none := by
  induction v generalizing acc with
  | nil => cases hb
  | cons c v ih =>
      rw [foldDigits]
      rcases List.mem_cons.mp hb with rfl | hb
      · rw [toDigit_of_not_isDigit h]
        rfl
      · cases toDigit 10 c with
        | none => rfl
        | some d => exact ih hb _

theorem fromStrRadix_cons (hb : b ≠ 43) (v : Bytes) :
    fromStrRadix 10 (b :: v) = (foldDigits 10 0 (b :: v)).filter (· < 2 ^ 64) := by
  simp only [fromStrRadix]
  split
  · next rest heq => exact absurd (List.cons.inj heq).1 hb
  · rfl

theorem fromStrRadix_sign (v : Bytes) : fromStrRadix 10 (43 :: v) =
    if v.isEmpty then none else (foldDigits 10 0 v).filter (· < 2 ^ 64) := rfl

theorem fromStrRadix_plain (h : PlainDecimal v n) (hn : n < 2 ^ 64) :
    fromStrRadix 10 v = some n := by
  obtain ⟨hne, hd, rfl⟩ := h
  cases v with
  | nil => exact absurd rfl hne
  | cons b v =>
      have hb : b ≠ 43 := by
        rintro rfl
        exact absurd (hd 43 List.mem_cons_self) (by decide)
      rw [fromStrRadix_cons hb, foldDigits_of_digits hd]
      exact if_pos (decide_eq_true hn)

/-- A byte that is neither a digit nor a sign. -/
theorem fromStrRadix_other (hb : b ∈ v) (h : ¬ IsDigit b) (hs : b ≠ 43) :
    fromStrRadix 10 v = none := by
  cases v with
  | nil => cases hb
  | cons c v =>
      by_cases hc : c = 43
      · subst hc
        rw [fromStrRadix_sign, foldDigits_of_other ((List.mem_cons.mp hb).resolve_left hs) h]
        split <;> rfl
      · rw [fromStrRadix_cons hc, foldDigits_of_other hb h]
        rfl

end Digits

/-! ### Fields -/

/-- `transfer-encoding`. -/
def transferEncoding : Bytes := ascii "transfer-encoding"

/-- `content-length`. -/
def contentLength : Bytes := ascii "content-length"

/-- `identity`. -/
def identity : Bytes := ascii "identity"

section Fields
variable {headers : HeaderMap} {v : Bytes} {n : Nat}

theorem isChunked_of_none (h : headers.get transferEncoding = none) : isChunked headers = false := by
  rw [isChunked, ← transferEncoding, h]
  rfl

theorem isChunked_of_identity (h : headers.get transferEncoding = some identity) :
    isChunked headers = false := by
  rw [isChunked, ← transferEncoding, h]
  rfl

theorem isChunked_of_coding (h : headers.get transferEncoding = some v) (hv : toStr v = some v)
    (hi : ¬ identity <:+: v) : isChunked headers = true := by
  rw [isChunked, ← transferEncoding, h, Option.bind_some, hv, Option.map_some, Option.getD_some,
    ← identity, decide_eq_false hi]
  rfl

theorem toStr_of_digits (h : ∀ b ∈ v, IsDigit b) : toStr v = some v := by
  refine if_pos (List.all_eq_true.mpr fun b hb => ?_)
  have hd := h b hb
  have h₁ : 32 ≤ b := UInt8.le_trans (by decide) hd.1
  have h₂ : b < 127 := UInt8.lt_of_le_of_lt hd.2 (by decide)
  simp [h₁, h₂]

theorem getAs_plain (h : headers.get contentLength = some v) (hv : PlainDecimal v n)
    (hn : n < 2 ^ 64) : getAs headers contentLength = some n := by
  rw [getAs, getStr, h, Option.bind_some, toStr_of_digits hv.2.1]
  exact fromStrRadix_plain hv hn

theorem getAs_other {b : Byte} (h : headers.get contentLength = some v) (hb : b ∈ v)
    (hd : ¬ IsDigit b) (hs : b ≠ 43) : getAs headers contentLength = none := by
  rw [getAs, getStr, h, Option.bind_some, toStr]
  split
  · exact fromStrRadix_other hb hd hs
  · rfl

end Fields

end HreqH1
