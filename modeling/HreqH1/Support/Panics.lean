import HreqH1.Support.Poll

/-!
# Support — Panics

What a poll can panic with.  `Panics P x` says that the message of a panic of `x`, from whatever
state, is one of `P`; it holds of a poll whose steps it holds of, with no invariant of the state.

Nothing here is about one program.
-/

namespace HreqH1.PollM

variable {ε σ τ α β ι : Type} {P : String → Prop}

/-- From every state, a panic of `x` is one of `P`. -/
def Panics (P : String → Prop) (x : PollM ε σ α) : Prop := ∀ s m, (x s).1 = .panic m → P m

theorem panics_pure (a : α) : Panics P (pure a : PollM ε σ α) := by
  intro s m h
  cases h

theorem panics_throw (e : ε) : Panics P (throw e : PollM ε σ α) := by
  intro s m h
  cases h

theorem panics_get : Panics P (get : PollM ε σ σ) := by
  intro s m h
  cases h

theorem panics_modify (f : σ → σ) : Panics P (modify f : PollM ε σ Unit) := by
  intro s m h
  cases h

theorem panics_lift (r : Except ε α) : Panics P (lift r : PollM ε σ α) := by
  cases r with
  | ok a => exact panics_pure a
  | error e => exact panics_throw e

theorem panics_orPanic {r : Except String α} (h : ∀ m, r = .error m → P m) :
    Panics P (orPanic r : PollM ε σ α) := by
  intro s m hm
  cases r with
  | ok a => cases hm
  | error e => cases hm; exact h _ rfl

theorem Panics.bind {x : PollM ε σ α} {f : α → PollM ε σ β} (hx : Panics P x)
    (hf : ∀ a, Panics P (f a)) : Panics P (x >>= f) := by
  intro s m hm
  rcases hr : x s with ⟨r, t⟩
  cases r with
  | pending => rw [run_bind_pending hr] at hm; cases hm
  | fail e => rw [run_bind_fail hr] at hm; cases hm
  | diverge => rw [run_bind_diverge hr] at hm; cases hm
  | ready a => rw [run_bind_ready hr] at hm; exact hf a t m hm
  | panic m' => rw [run_bind_panic hr] at hm; cases hm; exact hx s _ (congrArg Prod.fst hr)

theorem Panics.ite {p : Prop} [Decidable p] {x y : PollM ε σ α} (hx : Panics P x)
    (hy : Panics P y) : Panics P (if p then x else y) := by
  split
  · exact hx
  · exact hy

theorem Panics.zoom {x : PollM ε τ α} {get : σ → τ} {set : σ → τ → σ} (hx : Panics P x) :
    Panics P (zoom get set x) := fun s m hm => hx (get s) m hm

/-- The loop rule: what its rounds panic with. -/
theorem Panics.loop {m : ι → σ → Nat} {body : ι → PollM ε σ (Flow ι α)}
    (hb : ∀ i, Panics P (body i)) (i : ι) : Panics P (loop m body i) := by
  have hn : ∀ n i, Panics P (loopN body n i) := by
    intro n
    induction n with
    | zero =>
        intro i s m h
        cases h
    | succ n ih =>
        intro i
        refine (hb i).bind fun a => ?_
        cases a with
        | again j => exact ih j
        | done a => exact panics_pure a
  exact fun s m hm => hn _ i s m hm

end HreqH1.PollM
