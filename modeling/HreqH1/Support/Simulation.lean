import HreqH1.Support.Poll
import HreqH1.Support.Runs

/-!
# Support — Simulation

Two polls in step: they come to the same outcome, and leave states that a relation `R` relates.

* `InStep`: with the rules for sequences, branches and parts of the state.
* `Runs.run_inStep`: machines whose steps are in step along `P` have the same observations;
  `Runs.run_inStep_until` has them up to the first step that is not.

Nothing here is about one program.
-/

namespace HreqH1

namespace PollM
variable {ε σ τ σ' τ' α β : Type} {R : σ → τ → Prop}

/-- The same outcome, and related states. -/
def InStep (R : σ → τ → Prop) (x : PollM ε σ α) (y : PollM ε τ α) (s : σ) (t : τ) : Prop :=
  (x s).1 = (y t).1 ∧ R (x s).2 (y t).2

variable {x : PollM ε σ α} {y : PollM ε τ α} {f : α → PollM ε σ β} {g : α → PollM ε τ β}
  {s : σ} {t : τ}

theorem InStep.mono {R' : σ → τ → Prop} (h : InStep R x y s t) (hR : ∀ s t, R s t → R' s t) :
    InStep R' x y s t := ⟨h.1, hR _ _ h.2⟩

theorem InStep.bind (h : InStep R x y s t)
    (hf : ∀ a s' t', x s = (.ready a, s') → y t = (.ready a, t') → R s' t' →
      InStep R (f a) (g a) s' t') : InStep R (x >>= f) (y >>= g) s t := by
  obtain ⟨ho, hr⟩ := h
  rcases hx : x s with ⟨r, s'⟩
  rcases hy : y t with ⟨r', t'⟩
  rw [hx, hy] at ho hr
  obtain rfl : r = r' := ho
  rw [InStep]
  cases r with
  | ready a =>
      rw [run_bind_ready hx, run_bind_ready hy]
      exact hf a s' t' hx hy hr
  | pending => rw [run_bind_pending hx, run_bind_pending hy]; exact ⟨rfl, hr⟩
  | fail e => rw [run_bind_fail hx, run_bind_fail hy]; exact ⟨rfl, hr⟩
  | panic m => rw [run_bind_panic hx, run_bind_panic hy]; exact ⟨rfl, hr⟩
  | diverge => rw [run_bind_diverge hx, run_bind_diverge hy]; exact ⟨rfl, hr⟩

/-- A poll that is ready and changes nothing, before one of the two. -/
theorem InStep.skip {γ : Type} {z : PollM ε σ γ} {f : γ → PollM ε σ α} {c : γ}
    (hz : z s = (.ready c, s)) (h : InStep R (f c) y s t) : InStep R (z >>= f) y s t := by
  rw [InStep, run_bind_ready hz]
  exact h

theorem InStep.pure (a : α) (h : R s t) : InStep R (pure a : PollM ε σ α) (pure a) s t := ⟨rfl, h⟩

theorem InStep.throw (e : ε) (h : R s t) :
    InStep R (PollM.throw e : PollM ε σ α) (PollM.throw e) s t := ⟨rfl, h⟩

theorem InStep.lift (r : Except ε α) (h : R s t) :
    InStep R (PollM.lift r : PollM ε σ α) (PollM.lift r) s t := by
  cases r with
  | error e => exact ⟨rfl, h⟩
  | ok a => exact ⟨rfl, h⟩

theorem InStep.orPanic (r : Except String α) (h : R s t) :
    InStep R (PollM.orPanic r : PollM ε σ α) (PollM.orPanic r) s t := by
  cases r with
  | error m => exact ⟨rfl, h⟩
  | ok a => exact ⟨rfl, h⟩

theorem InStep.assert (p : Bool) (m : String) (h : R s t) :
    InStep R (PollM.assert p m : PollM ε σ Unit) (PollM.assert p m) s t := by
  cases p with
  | false => exact ⟨rfl, h⟩
  | true => exact ⟨rfl, h⟩

theorem InStep.modify {u : σ → σ} {v : τ → τ} (h : R (u s) (v t)) :
    InStep R (PollM.modify u : PollM ε σ Unit) (PollM.modify v) s t := ⟨rfl, h⟩

theorem InStep.ite {p : Prop} [Decidable p] {x' : PollM ε σ α} {y' : PollM ε τ α}
    (h : p → InStep R x y s t) (h' : ¬ p → InStep R x' y' s t) :
    InStep R (if p then x else x') (if p then y else y') s t := by
  split
  · next hp => exact h hp
  · next hp => exact h' hp

theorem InStep.get {f : σ → PollM ε σ β} {g : τ → PollM ε τ β} (h : InStep R (f s) (g t) s t) :
    InStep R (PollM.get >>= f) (PollM.get >>= g) s t := h

theorem InStep.change {u : σ → σ} {v : τ → τ} {f : Unit → PollM ε σ β} {g : Unit → PollM ε τ β}
    (h : InStep R (f ()) (g ()) (u s) (v t)) :
    InStep R (PollM.modify u >>= f) (PollM.modify v >>= g) s t := h

/-- In step with a poll of the part `p` of the state. -/
theorem InStep.eq {p : σ → τ} (h : InStep (fun s t => t = p s) x y s (p s)) :
    y (p s) = ((x s).1, p (x s).2) :=
  Prod.ext h.1.symm h.2

/-- Polls of parts of the two states that are in step. -/
theorem InStep.within {π ρ : Type} {Q : π → ρ → Prop} {get : σ → π} {set : σ → π → σ}
    {get' : τ → ρ} {set' : τ → ρ → τ} {z : PollM ε π α} {z' : PollM ε ρ α}
    (h : InStep Q z z' (get s) (get' t)) (hs : ∀ p q, Q p q → R (set s p) (set' t q)) :
    InStep R (zoom get set z) (zoom get' set' z') s t := by
  refine ⟨?_, ?_⟩
  · rw [run_zoom, run_zoom]
    exact h.1
  · rw [run_zoom, run_zoom]
    exact hs _ _ h.2

theorem InStep.map {γ : Type} (k : α → γ) (h : InStep R x y s t) :
    InStep R (k <$> x) (k <$> y) s t := by
  rw [InStep, run_map, run_map, h.1]
  exact ⟨rfl, h.2⟩

theorem InStep.poll (h : InStep R x y s t) : InStep R (PollM.poll x) (PollM.poll y) s t := by
  obtain ⟨ho, hr⟩ := h
  rw [InStep, PollM.poll, PollM.poll]
  rcases hx : x s with ⟨r, s'⟩
  rcases hy : y t with ⟨r', t'⟩
  rw [hx, hy] at ho hr
  obtain rfl : r = r' := ho
  cases r with
  | _ => exact ⟨rfl, hr⟩

theorem InStep.onExit {u : σ → σ} {v : τ → τ} (hu : ∀ s t, R s t → R (u s) (v t))
    (h : InStep R x y s t) : InStep R (PollM.onExit u x) (PollM.onExit v y) s t := by
  obtain ⟨ho, hr⟩ := h
  rw [InStep, PollM.onExit, PollM.onExit]
  rcases hx : x s with ⟨r, s'⟩
  rcases hy : y t with ⟨r', t'⟩
  rw [hx, hy] at ho hr
  obtain rfl : r = r' := ho
  cases r with
  | ready a => exact ⟨rfl, hr⟩
  | pending => exact ⟨rfl, hr⟩
  | fail e => exact ⟨rfl, hu _ _ hr⟩
  | panic m => exact ⟨rfl, hu _ _ hr⟩
  | diverge => exact ⟨rfl, hr⟩

/-- Loops with one bound whose rounds are in step. -/
theorem InStep.loop {ι : Type} {m : ι → σ → Nat} {m' : ι → τ → Nat}
    {body : ι → PollM ε σ (Flow ι α)} {body' : ι → PollM ε τ (Flow ι α)} {i : ι}
    (hm : m i s = m' i t) (hb : ∀ i s t, R s t → InStep R (body i) (body' i) s t) (hR : R s t) :
    InStep R (PollM.loop m body i) (PollM.loop m' body' i) s t := by
  have hn : ∀ n i s t, R s t → InStep R (loopN body n i) (loopN body' n i) s t := by
    intro n
    induction n with
    | zero => exact fun _ _ _ hR => ⟨rfl, hR⟩
    | succ n ih =>
        intro i s t hR
        refine (hb i s t hR).bind fun f s' t' _ _ hR' => ?_
        cases f with
        | again j => exact ih j s' t' hR'
        | done a => exact ⟨rfl, hR'⟩
  have h := hn (m i s + 1) i s t hR
  rw [InStep, PollM.loop, PollM.loop, ← hm]
  exact h

/-- The same poll of a part that the two states share. -/
theorem InStep.zoom {π : Type} {get : σ → π} {set : σ → π → σ} {get' : τ → π} {set' : τ → π → τ}
    {z : PollM ε π α} (hg : get s = get' t) (hs : ∀ p, R (set s p) (set' t p)) :
    InStep R (zoom get set z) (zoom get' set' z) s t := by
  refine ⟨by rw [run_zoom, run_zoom, hg], ?_⟩
  rw [run_zoom, run_zoom, hg]
  exact hs _

end PollM

namespace Runs
variable {α σ τ ο : Type} {step : α → σ → ο × σ} {step' : α → τ → ο × τ} {P : σ → α → Prop}
  {R : σ → τ → Prop}

/-- Two machines that are in step along `P` show the same, and end in related states. -/
theorem run_inStep
    (h : ∀ s t a, R s t → P s a → (step a s).1 = (step' a t).1 ∧ R (step a s).2 (step' a t).2)
    {as : List α} {s : σ} {t : τ} (hP : Along step P as s) (hR : R s t) :
    (run step as s).1 = (run step' as t).1 ∧ R (after step as s) (after step' as t) := by
  induction as generalizing s t with
  | nil => exact ⟨rfl, hR⟩
  | cons a as ih =>
      obtain ⟨ho, hr⟩ := h s t a hR hP.1
      obtain ⟨hos, hrs⟩ := ih hP.2 hr
      refine ⟨?_, hrs⟩
      rw [run_cons, run_cons, ho]
      exact congrArg _ hos

/-- Two machines whose steps are in step, or `Q`, are in step up to where `Q` first is. -/
theorem run_inStep_until {Q : σ → τ → α → Prop}
    (h : ∀ s t a, R s t → (step a s).1 = (step' a t).1 ∧ R (step a s).2 (step' a t).2 ∨ Q s t a)
    (as : List α) {s : σ} {t : τ} (hR : R s t) : ∃ as₁ as₂, as = as₁ ++ as₂ ∧
      (run step as₁ s).1 = (run step' as₁ t).1 ∧ R (after step as₁ s) (after step' as₁ t) ∧
      (as₂ = [] ∨ ∃ a as₃, as₂ = a :: as₃ ∧ Q (after step as₁ s) (after step' as₁ t) a) := by
  induction as generalizing s t with
  | nil => exact ⟨[], [], rfl, rfl, hR, .inl rfl⟩
  | cons a as ih =>
      rcases h s t a hR with ⟨ho, hr⟩ | hq
      · obtain ⟨as₁, as₂, rfl, hos, hrs, hend⟩ := ih hr
        refine ⟨a :: as₁, as₂, rfl, ?_, hrs, hend⟩
        rw [run_cons, run_cons, ho, hos]
      · exact ⟨[], a :: as, rfl, rfl, hR, .inr ⟨a, as, rfl, hq⟩⟩

end Runs

end HreqH1
