import HreqH1.Support.Poll

/-!
# Support — Steady

What a poll brings about only where it is pending.  `Steady p x` says that `p` holds after a poll of
`x` that is not pending only if it held before; it holds of a poll whose steps it holds of, with no
invariant of the state, and of every poll that is always pending.

Nothing here is about one program.
-/

namespace HreqH1.PollM

variable {ε σ τ α β ι : Type} {p : σ → Prop} {q : τ → Prop}

/-- From every state, `p` holds after a poll of `x` only if it did before, or the poll is pending. -/
def Steady (p : σ → Prop) (x : PollM ε σ α) : Prop := ∀ s, (x s).1 ≠ .pending → p (x s).2 → p s

theorem steady_pure (a : α) : Steady p (pure a : PollM ε σ α) := fun _ _ h => h

theorem steady_throw (e : ε) : Steady p (throw e : PollM ε σ α) := fun _ _ h => h

theorem steady_panic (m : String) : Steady p (panic m : PollM ε σ α) := fun _ _ h => h

theorem steady_get : Steady p (get : PollM ε σ σ) := fun _ _ h => h

theorem steady_modify {f : σ → σ} (hf : ∀ s, p (f s) → p s) :
    Steady p (modify f : PollM ε σ Unit) := fun s _ h => hf s h

/-- A poll that is always pending. -/
theorem steady_of_pending {x : PollM ε σ α} (h : ∀ s, (x s).1 = .pending) : Steady p x :=
  fun s hne _ => absurd (h s) hne

theorem steady_assert (b : Bool) (m : String) : Steady p (assert b m : PollM ε σ Unit) := by
  rw [assert]
  split
  · exact steady_pure ()
  · exact steady_panic m

theorem steady_lift (r : Except ε α) : Steady p (lift r : PollM ε σ α) := by
  cases r with
  | ok a => exact steady_pure a
  | error e => exact steady_throw e

theorem Steady.bind {x : PollM ε σ α} {f : α → PollM ε σ β} (hx : Steady p x)
    (hf : ∀ a, Steady p (f a)) : Steady p (x >>= f) := by
  intro s hne hp
  rcases hr : x s with ⟨r, t⟩
  have hs := hx s
  rw [hr] at hs
  cases r with
  | pending => rw [run_bind_pending hr] at hne; exact absurd rfl hne
  | fail e => rw [run_bind_fail hr] at hp; exact hs (by simp) hp
  | panic m => rw [run_bind_panic hr] at hp; exact hs (by simp) hp
  | diverge => rw [run_bind_diverge hr] at hp; exact hs (by simp) hp
  | ready a =>
      rw [run_bind_ready hr] at hne hp
      exact hs (by simp) (hf a t hne hp)

theorem Steady.ite {b : Prop} [Decidable b] {x y : PollM ε σ α} (hx : Steady p x)
    (hy : Steady p y) : Steady p (if b then x else y) := by
  split
  · exact hx
  · exact hy

theorem Steady.attempt {x : PollM ε σ α} (hx : Steady p x) : Steady p (attempt x) := by
  intro s hne hp
  have hs := hx s
  rw [PollM.attempt] at hne hp
  rcases hr : x s with ⟨r, t⟩
  rw [hr] at hs hne hp
  cases r with
  | pending => exact absurd rfl hne
  | fail e => exact hs (by simp) hp
  | panic m => exact hs (by simp) hp
  | diverge => exact hs (by simp) hp
  | ready a => exact hs (by simp) hp

/-- On a part of the state, by which `p` is decided. -/
theorem Steady.zoom {x : PollM ε τ α} {get : σ → τ} {set : σ → τ → σ} (hx : Steady q x)
    (hset : ∀ s t, p (set s t) → q t) (hget : ∀ s, q (get s) → p s) :
    Steady p (zoom get set x) :=
  fun s hne hp => hget s (hx (get s) hne (hset s _ hp))

/-- The loop rule: what its rounds keep steady. -/
theorem Steady.loop {m : ι → σ → Nat} {body : ι → PollM ε σ (Flow ι α)}
    (hb : ∀ i, Steady p (body i)) (i : ι) : Steady p (loop m body i) := by
  have hn : ∀ n i, Steady p (loopN body n i) := by
    intro n
    induction n with
    | zero => exact fun _ _ _ h => h
    | succ n ih =>
        intro i
        refine (hb i).bind fun a => ?_
        cases a with
        | again j => exact ih j
        | done a => exact steady_pure a
  exact fun s hne hp => hn _ i s hne hp

end HreqH1.PollM
