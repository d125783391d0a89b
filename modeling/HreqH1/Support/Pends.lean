import HreqH1.Support.Poll

/-!
# Support — Pends

What holds where a poll is pending.  `Pends P x` says that a poll of `x` that is pending, from
whatever state, leaves a state where `P` holds; it holds of a poll whose steps it holds of, with no
invariant of the state, and of every poll that is never pending.

Nothing here is about one program.
-/

namespace HreqH1.PollM

variable {ε σ τ α β ι : Type} {P : σ → Prop} {Q : τ → Prop} {s : σ}

/-- From every state, a poll of `x` that is pending leaves `P`. -/
def Pends (P : σ → Prop) (x : PollM ε σ α) : Prop := ∀ s, (x s).1 = .pending → P (x s).2

theorem pends_of_never {x : PollM ε σ α} (h : ∀ s, (x s).1 ≠ .pending) : Pends P x :=
  fun s hp => absurd hp (h s)

theorem pends_pure (a : α) : Pends P (pure a : PollM ε σ α) := pends_of_never fun _ => by simp

theorem pends_throw (e : ε) : Pends P (throw e : PollM ε σ α) := pends_of_never fun _ => by simp

theorem pends_panic (m : String) : Pends P (panic m : PollM ε σ α) := pends_of_never fun _ => by simp

theorem pends_get : Pends P (get : PollM ε σ σ) := pends_of_never fun _ => by simp

theorem pends_modify (f : σ → σ) : Pends P (modify f : PollM ε σ Unit) :=
  pends_of_never fun _ => by simp

theorem pends_assert (b : Bool) (m : String) : Pends P (assert b m : PollM ε σ Unit) := by
  rw [assert]
  split
  · exact pends_pure ()
  · exact pends_panic m

theorem pends_lift (r : Except ε α) : Pends P (lift r : PollM ε σ α) := by
  cases r with
  | ok a => exact pends_pure a
  | error e => exact pends_throw e

theorem pends_orPanic (r : Except String α) : Pends P (orPanic r : PollM ε σ α) := by
  cases r with
  | ok a => exact pends_pure a
  | error m => exact pends_panic m

/-- What becomes of a pending poll is asked of no one. -/
theorem pends_poll (x : PollM ε σ α) : Pends P (poll x) := by
  refine pends_of_never fun s h => ?_
  rw [poll] at h
  generalize x s = p at h
  obtain ⟨r, t⟩ := p
  cases r <;> cases h

/-- A poll that gives up once it has changed the state. -/
theorem pends_modify_pend {f : σ → σ} (h : ∀ s, P (f s)) :
    Pends P (modify f >>= fun _ => (pend : PollM ε σ α)) := fun s _ => h s

theorem Pends.mono {P' : σ → Prop} {x : PollM ε σ α} (hx : Pends P x) (h : ∀ s, P s → P' s) :
    Pends P' x := fun s hp => h _ (hx s hp)

theorem Pends.wp {x : PollM ε σ α} (hx : Pends P x) : wp x (fun r t => r = .pending → P t) s := hx s

theorem Pends.bind {x : PollM ε σ α} {f : α → PollM ε σ β} (hx : Pends P x)
    (hf : ∀ a, Pends P (f a)) : Pends P (x >>= f) := by
  intro s hp
  rcases hr : x s with ⟨r, t⟩
  have hs := hx s
  rw [hr] at hs
  cases r with
  | pending => rw [run_bind_pending hr]; exact hs rfl
  | fail e => rw [run_bind_fail hr] at hp; cases hp
  | panic m => rw [run_bind_panic hr] at hp; cases hp
  | diverge => rw [run_bind_diverge hr] at hp; cases hp
  | ready a => rw [run_bind_ready hr] at hp ⊢; exact hf a t hp

theorem Pends.ite {b : Prop} [Decidable b] {x y : PollM ε σ α} (hx : Pends P x) (hy : Pends P y) :
    Pends P (if b then x else y) := by
  split
  · exact hx
  · exact hy

theorem Pends.attempt {x : PollM ε σ α} (hx : Pends P x) : Pends P (attempt x) := by
  intro s hp
  have hs := hx s
  rw [PollM.attempt] at hp ⊢
  rcases hr : x s with ⟨r, t⟩
  rw [hr] at hs hp
  cases r with
  | pending => exact hs rfl
  | fail e => cases hp
  | panic m => cases hp
  | diverge => cases hp
  | ready a => cases hp

/-- On a part of the state. -/
theorem Pends.zoom {x : PollM ε τ α} {get : σ → τ} {set : σ → τ → σ} (hx : Pends Q x)
    (h : ∀ s t, Q t → P (set s t)) : Pends P (zoom get set x) :=
  fun s hp => h s _ (hx (get s) hp)

/-- The loop rule. -/
theorem Pends.loop {m : ι → σ → Nat} {body : ι → PollM ε σ (Flow ι α)}
    (hb : ∀ i, Pends P (body i)) (i : ι) : Pends P (loop m body i) := by
  have hn : ∀ n i, Pends P (loopN body n i) := by
    intro n
    induction n with
    | zero => exact fun _ => pends_of_never fun _ h => by cases h
    | succ n ih =>
        intro i
        refine (hb i).bind fun a => ?_
        cases a with
        | again j => exact ih j
        | done a => exact pends_pure a
  exact fun s hp => hn _ i s hp

end HreqH1.PollM
