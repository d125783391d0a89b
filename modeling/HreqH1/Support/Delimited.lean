import Mathlib

/-!
# Support — delimited lists

Lists that go on up to a first element outside a set: however such a list is cut, the cuts agree.

Nothing here is about one program.
-/

namespace HreqH1.Delimited
variable {α : Type} {P : α → Prop} {xs ys s t : List α} {a b : α}

/-- A front inside `P` does not get to the delimiter. -/
theorem front_le (hxs : ∀ x ∈ xs, P x) (hb : ¬ P b) (h : xs ++ s = ys ++ b :: t) :
    ∃ zs, ys = xs ++ zs ∧ s = zs ++ b :: t := by
  induction xs generalizing ys with
  | nil => exact ⟨ys, rfl, h⟩
  | cons x xs ih =>
      cases ys with
      | nil =>
          obtain ⟨rfl, -⟩ := List.cons.inj h
          exact absurd (hxs x List.mem_cons_self) hb
      | cons y ys =>
          obtain ⟨rfl, htail⟩ := List.cons.inj h
          obtain ⟨zs, rfl, hs⟩ := ih (fun z hz => hxs z (List.mem_cons_of_mem _ hz)) htail
          exact ⟨zs, rfl, hs⟩

/-- Two cuts at a first delimiter are one. -/
theorem cut_unique (hxs : ∀ x ∈ xs, P x) (hys : ∀ y ∈ ys, P y) (ha : ¬ P a) (hb : ¬ P b)
    (h : xs ++ a :: s = ys ++ b :: t) : xs = ys ∧ a = b ∧ s = t := by
  obtain ⟨zs, rfl, hs⟩ := front_le hxs hb h
  cases zs with
  | nil =>
      obtain ⟨rfl, rfl⟩ := List.cons.inj hs
      exact ⟨(List.append_nil xs).symm, rfl, rfl⟩
  | cons z zs =>
      obtain ⟨rfl, -⟩ := List.cons.inj hs
      exact absurd (hys a (by simp)) ha

end HreqH1.Delimited
