import HreqH1.Model.Error

/-!
# Model — FastBuf

`src/fast_buf.rs`.  A `Vec<u8>` is its bytes and its capacity.  How far `Vec::reserve` grows past
what is needed is left to the allocator (`VecAlloc`); `Vec::with_capacity` is exact.

`FastBuf::borrow` lends the whole capacity and `FastBufRef` counts the bytes written into it, so
here the borrowed buffer is the buffer itself, with `spare` bytes left to write.  Where the source
panics, the result is the panic's message.
-/

namespace HreqH1

/-- `Vec::reserve`: the new capacity, from the old one and the length that is needed. -/
class VecAlloc where
  grow : Nat → Nat → Nat
  le_grow : ∀ cap needed, needed ≤ grow cap needed

/-- `RawVec::grow_amortized` at `u8`. -/
@[reducible] def VecAlloc.amortized : VecAlloc where
  grow cap needed := max 8 (max (cap * 2) needed)
  le_grow cap needed := by omega

/-- Growth to exactly what is needed. -/
@[reducible] def VecAlloc.exact : VecAlloc where
  grow _ needed := needed
  le_grow _ _ := Nat.le_refl _

/-- `MAX_CAPACITY`. -/
def maxCapacity : Nat := 10 * 1024 * 1024

/-- `FastBuf(Vec<u8>)`. -/
structure FastBuf where
  data : Bytes
  capacity : Nat
  len_le : data.length ≤ capacity
  deriving DecidableEq

namespace FastBuf

@[ext] theorem ext' {a b : FastBuf} (h₁ : a.data = b.data) (h₂ : a.capacity = b.capacity) :
    a = b := by
  cases a; cases b; cases h₁; cases h₂; rfl

def withCapacity (capacity : Nat) : FastBuf := ⟨[], capacity, Nat.zero_le _⟩

def len (b : FastBuf) : Nat := b.data.length

/-- The bytes that can be written into the borrowed buffer. -/
def spare (b : FastBuf) : Nat := b.capacity - b.len

/-- `Vec::reserve`. -/
def reserve [VecAlloc] (b : FastBuf) (additional : Nat) : FastBuf :=
  if _ : b.len + additional ≤ b.capacity then b
  else ⟨b.data, VecAlloc.grow b.capacity (b.len + additional),
    Nat.le_trans (Nat.le_add_right _ _) (VecAlloc.le_grow _ _)⟩

def ensureCapacity [VecAlloc] (b : FastBuf) (capacity : Nat) : FastBuf :=
  if capacity > b.capacity then b.reserve (capacity - b.capacity) else b

def empty (b : FastBuf) : FastBuf := ⟨[], b.capacity, Nat.zero_le _⟩

def intoVec (b : FastBuf) : Bytes := b.data

/-- `FastBuf::borrow`. -/
def borrow [VecAlloc] (b : FastBuf) : Except String FastBuf :=
  if b.capacity = 0 then .error "FastBuf::borrow() with 0 capacity"
  else
    let grown : Except String FastBuf :=
      if b.len = b.capacity then
        let max := min maxCapacity (b.capacity * 2)
        if max < b.capacity then .error "attempt to subtract with overflow"
        else .ok (b.reserve (max - b.capacity))
      else .ok b
    match grown with
    | .error m => .error m
    | .ok b' =>
        if b'.capacity > b.len then .ok b'
        else .error "assertion failed: self.0.capacity() > len_at_start"

/-- `FastBufRef::extend_from_slice`, and `FastBufRef::extend` once the bytes `bs` are in place. -/
def extend (b : FastBuf) (bs : Bytes) : Except String FastBuf :=
  if h : b.len + bs.length ≤ b.capacity then
    .ok ⟨b.data ++ bs, b.capacity, by rw [List.length_append]; exact h⟩
  else .error "FastBuf::extend with not enough len"

@[simp] theorem len_withCapacity (n : Nat) : (withCapacity n).len = 0 := rfl
@[simp] theorem data_withCapacity (n : Nat) : (withCapacity n).data = [] := rfl
@[simp] theorem capacity_withCapacity (n : Nat) : (withCapacity n).capacity = n := rfl
@[simp] theorem data_empty (b : FastBuf) : b.empty.data = [] := rfl
@[simp] theorem len_empty (b : FastBuf) : b.empty.len = 0 := rfl
@[simp] theorem capacity_empty (b : FastBuf) : b.empty.capacity = b.capacity := rfl

theorem len_le_capacity (b : FastBuf) : b.len ≤ b.capacity := b.len_le

@[simp] theorem data_reserve [VecAlloc] (b : FastBuf) (n : Nat) : (b.reserve n).data = b.data := by
  unfold reserve; split <;> rfl

theorem capacity_reserve [VecAlloc] (b : FastBuf) (n : Nat) :
    b.len + n ≤ (b.reserve n).capacity ∧ b.capacity ≤ (b.reserve n).capacity := by
  unfold reserve
  split
  · exact ⟨‹_›, Nat.le_refl _⟩
  · have := VecAlloc.le_grow b.capacity (b.len + n)
    exact ⟨this, by simp only; omega⟩

@[simp] theorem data_ensureCapacity [VecAlloc] (b : FastBuf) (n : Nat) :
    (b.ensureCapacity n).data = b.data := by
  unfold ensureCapacity; split <;> simp

@[simp] theorem len_ensureCapacity [VecAlloc] (b : FastBuf) (n : Nat) :
    (b.ensureCapacity n).len = b.len := by
  simp [len]

theorem capacity_ensureCapacity [VecAlloc] (b : FastBuf) (n : Nat) :
    b.capacity ≤ (b.ensureCapacity n).capacity := by
  unfold ensureCapacity
  split
  · exact (b.capacity_reserve _).2
  · exact Nat.le_refl _

theorem extend_ok {b : FastBuf} {bs : Bytes} (h : bs.length ≤ b.spare) :
    ∃ b', b.extend bs = .ok b' ∧ b'.data = b.data ++ bs ∧ b'.capacity = b.capacity := by
  have := b.len_le_capacity
  have h' : b.len + bs.length ≤ b.capacity := by unfold spare at h; omega
  exact ⟨⟨b.data ++ bs, b.capacity, by rw [List.length_append]; exact h'⟩,
    by rw [extend, dif_pos h'], rfl, rfl⟩

/-- **When `borrow` panics**: at no capacity, or at a buffer that is full at `MAX_CAPACITY`.
Otherwise the bytes stay, and there is room for one more. -/
theorem borrow_cases [VecAlloc] (b : FastBuf) :
    (∃ m, b.borrow = .error m ∧
      (b.capacity = 0 ∨ b.len = b.capacity ∧ maxCapacity ≤ b.capacity)) ∨
    (∃ b', b.borrow = .ok b' ∧ b'.data = b.data ∧ 0 < b'.spare ∧ b.capacity ≤ b'.capacity ∧
      0 < b.capacity ∧ (b.len < b.capacity ∨ b.capacity < maxCapacity)) := by
  unfold borrow
  have hle := b.len_le_capacity
  by_cases h0 : b.capacity = 0
  · exact .inl ⟨_, if_pos h0, .inl h0⟩
  · rw [if_neg h0]
    by_cases hf : b.len = b.capacity
    · simp only [if_pos hf]
      by_cases hm : min maxCapacity (b.capacity * 2) < b.capacity
      · exact .inl ⟨_, by rw [if_pos hm], .inr ⟨hf, by omega⟩⟩
      · simp only [if_neg hm]
        by_cases hg : (b.reserve (min maxCapacity (b.capacity * 2) - b.capacity)).capacity > b.len
        · refine .inr ⟨_, by rw [if_pos hg], by simp, ?_, (b.capacity_reserve _).2,
            by omega, .inr ?_⟩
          · simp only [spare, len, data_reserve] at hg ⊢; omega
          · by_contra hc
            have h0' : min maxCapacity (b.capacity * 2) - b.capacity = 0 := by omega
            rw [h0', reserve, dif_pos (by omega)] at hg
            omega
        · refine .inl ⟨_, by rw [if_neg hg], .inr ⟨hf, ?_⟩⟩
          have := (b.capacity_reserve (min maxCapacity (b.capacity * 2) - b.capacity)).1
          omega
    · simp only [if_neg hf]
      refine .inr ⟨b, by rw [if_pos (by omega)], rfl, by unfold spare; omega, Nat.le_refl _,
        by omega, .inl (by omega)⟩

/-- The panics of `borrow` at a full buffer that does not grow. -/
def growthPanics : List String :=
  ["attempt to subtract with overflow", "assertion failed: self.0.capacity() > len_at_start"]

theorem borrow_error [VecAlloc] {b : FastBuf} {m : String} (h0 : 0 < b.capacity)
    (h : b.borrow = .error m) : m ∈ growthPanics := by
  unfold borrow at h
  rw [if_neg (Nat.ne_of_gt h0)] at h
  dsimp only at h
  split at h
  · next hg =>
    split at hg
    · split at hg
      · cases hg; cases h; simp [growthPanics]
      · cases hg
    · cases hg
  · split at h
    · cases h
    · cases h; simp [growthPanics]

/-- A fresh buffer of positive capacity can be borrowed as it is. -/
theorem borrow_withCapacity [VecAlloc] {n : Nat} (h : 0 < n) :
    (withCapacity n).borrow = .ok (withCapacity n) := by
  unfold borrow
  rw [if_neg (by simp; omega), if_neg (by simp; omega)]
  simp [h]

end FastBuf

/-- `ConsumeBuf`: a buffer with a read start pointer moved by `consume`. -/
structure ConsumeBuf where
  buf : Bytes
  pos : Nat
  pos_le : pos ≤ buf.length
  deriving DecidableEq

namespace ConsumeBuf

def new (buf : Bytes) : ConsumeBuf := ⟨buf, 0, Nat.zero_le _⟩

/-- The bytes still to be consumed, `&buf[..]`. -/
def rest (b : ConsumeBuf) : Bytes := b.buf.drop b.pos

def len (b : ConsumeBuf) : Nat := b.buf.length - b.pos

def isEmpty (b : ConsumeBuf) : Bool := b.len == 0

def consume (b : ConsumeBuf) (amount : Nat) : Except String ConsumeBuf :=
  if h : b.pos + amount ≤ b.buf.length then .ok ⟨b.buf, b.pos + amount, h⟩
  else .error "assertion failed: new_pos <= self.buf.len()"

@[simp] theorem rest_new (bs : Bytes) : (new bs).rest = bs := rfl

@[simp] theorem length_rest (b : ConsumeBuf) : b.rest.length = b.len := by simp [rest, len]

theorem isEmpty_iff (b : ConsumeBuf) : b.isEmpty = true ↔ b.rest = [] := by
  rw [isEmpty, beq_iff_eq, ← length_rest, List.length_eq_zero_iff]

theorem consume_ok {b : ConsumeBuf} {n : Nat} (h : n ≤ b.len) :
    ∃ b', b.consume n = .ok b' ∧ b'.rest = b.rest.drop n := by
  have h' : b.pos + n ≤ b.buf.length := by have := b.pos_le; unfold len at h; omega
  exact ⟨⟨b.buf, b.pos + n, h'⟩, by rw [consume, dif_pos h'], by simp [rest]⟩

end ConsumeBuf

end HreqH1
