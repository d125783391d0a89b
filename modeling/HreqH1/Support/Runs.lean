import Mathlib

/-!
# Support — Runs

Runs of a deterministic machine: `step a s` is what the action `a` gives in the state `s`, and the
state after it.

* `run step as s`: the observations of the actions `as` and the last state.
* `Along step P as s`: every action of the run meets `P` in the state it is taken in.
* `run_invariant`, `run_observed`, `run_history`: what every step along `P` keeps, or shows, the run
  does; `along_invariant` has the invariant at each action, `along_upto` the end of the run.
* `record note as r s`: what `note` writes down along a run; `run_record` is its invariant, and
  `record_prod` puts two side by side.
* `along_true`, `along_of_forall`: where nothing is asked of the actions, or nothing of the states.
* `run_observed_iff`: what every step shows exactly along `P`, so does the run.
* `run_congr`: two machines that agree along `P` have the same runs.
* `first_failure`: a run that leaves `P` does so at some first action.

Nothing here is about one program.
-/

namespace HreqH1.Runs
variable {α σ ο : Type} {step step' : α → σ → ο × σ}

/-- The observations of a run, and its last state. -/
def run (step : α → σ → ο × σ) : List α → σ → List ο × σ
  | [], s => ([], s)
  | a :: as, s => ((step a s).1 :: (run step as (step a s).2).1, (run step as (step a s).2).2)

/-- The state after a run. -/
abbrev after (step : α → σ → ο × σ) (as : List α) (s : σ) : σ := (run step as s).2

@[simp] theorem run_nil (s : σ) : run step [] s = ([], s) := rfl

@[simp] theorem run_cons (a : α) (as : List α) (s : σ) :
    run step (a :: as) s =
      ((step a s).1 :: (run step as (step a s).2).1, (run step as (step a s).2).2) := rfl

theorem run_append (as bs : List α) (s : σ) :
    run step (as ++ bs) s =
      ((run step as s).1 ++ (run step bs (after step as s)).1,
        after step bs (after step as s)) := by
  induction as generalizing s with
  | nil => rfl
  | cons a as ih => simp only [List.cons_append, run_cons, ih, after]

theorem after_concat (as : List α) (a : α) (s : σ) :
    after step (as ++ [a]) s = (step a (after step as s)).2 := by
  rw [after, run_append]
  rfl

theorem length_run (as : List α) (s : σ) : (run step as s).1.length = as.length := by
  induction as generalizing s with
  | nil => rfl
  | cons a as ih => simp only [run_cons, List.length_cons, ih]

/-- Every action is taken in a state where `P` holds of it. -/
def Along (step : α → σ → ο × σ) (P : σ → α → Prop) : List α → σ → Prop
  | [], _ => True
  | a :: as, s => P s a ∧ Along step P as (step a s).2

variable {P : σ → α → Prop}

theorem Along.mono {Q : σ → α → Prop} (hPQ : ∀ s a, P s a → Q s a) {as : List α} {s : σ}
    (h : Along step P as s) : Along step Q as s := by
  induction as generalizing s with
  | nil => trivial
  | cons a as ih => exact ⟨hPQ s a h.1, ih h.2⟩

theorem Along.and {Q : σ → α → Prop} {as : List α} {s : σ} (h : Along step P as s)
    (h' : Along step Q as s) : Along step (fun s a => P s a ∧ Q s a) as s := by
  induction as generalizing s with
  | nil => trivial
  | cons a as ih => exact ⟨⟨h.1, h'.1⟩, ih h.2 h'.2⟩

theorem along_append {as bs : List α} {s : σ} :
    Along step P (as ++ bs) s ↔ Along step P as s ∧ Along step P bs (after step as s) := by
  induction as generalizing s with
  | nil => exact ⟨fun h => ⟨trivial, h⟩, fun h => h.2⟩
  | cons a as ih =>
      simp only [List.cons_append, Along, ih, run_cons, after, and_assoc]

/-- What every step keeps, a run keeps. -/
theorem run_invariant {I : σ → Prop} (hI : ∀ s a, I s → P s a → I (step a s).2)
    {as : List α} {s : σ} (h : Along step P as s) (hs : I s) : I (after step as s) := by
  induction as generalizing s with
  | nil => exact hs
  | cons a as ih => exact ih h.2 (hI s a hs h.1)

/-- An invariant holds at every action of a run. -/
theorem along_invariant {I : σ → Prop} (hI : ∀ s a, I s → P s a → I (step a s).2)
    {as : List α} {s : σ} (h : Along step P as s) (hs : I s) :
    Along step (fun s a => I s ∧ P s a) as s := by
  induction as generalizing s with
  | nil => trivial
  | cons a as ih => exact ⟨⟨hs, h.1⟩, ih h.2 (hI s a hs h.1)⟩

/-- What every step takes further is at no action of a run further than at its end. -/
theorem along_upto {I : σ → Prop} {R : σ → σ → Prop} (hrefl : ∀ s, R s s)
    (htrans : ∀ s₁ s₂ s₃, R s₁ s₂ → R s₂ s₃ → R s₁ s₃)
    (hI : ∀ s a, I s → P s a → I (step a s).2) (hR : ∀ s a, I s → P s a → R s (step a s).2)
    {as : List α} {s : σ} (h : Along step P as s) (hs : I s) :
    R s (after step as s) ∧ Along step (fun s' a => R (step a s').2 (after step as s)) as s := by
  induction as generalizing s with
  | nil => exact ⟨hrefl s, trivial⟩
  | cons a as ih =>
      obtain ⟨hend, halong⟩ := ih h.2 (hI s a hs h.1)
      exact ⟨htrans _ _ _ (hR s a hs h.1) hend, hend, halong⟩

/-- What every step keeps of the history and the state, a run does. -/
theorem run_history {I : List ο → σ → Prop}
    (hI : ∀ os s a, I os s → P s a → I (os ++ [(step a s).1]) (step a s).2)
    {as : List α} {os : List ο} {s : σ} (h : Along step P as s) (hs : I os s) :
    I (os ++ (run step as s).1) (after step as s) := by
  induction as generalizing os s with
  | nil => rw [run_nil, List.append_nil]; exact hs
  | cons a as ih =>
      rw [run_cons, List.append_cons]
      exact ih h.2 (hI os s a hs h.1)

/-- What `note` adds to `r`, from the actions of a run, what they show and the states after them. -/
def record {ρ : Type} (step : α → σ → ο × σ) (note : ρ → α → ο → σ → ρ) : List α → ρ → σ → ρ
  | [], r, _ => r
  | a :: as, r, s => record step note as (note r a (step a s).1 (step a s).2) (step a s).2

/-- What every step keeps of the record and the state, a run does. -/
theorem run_record {ρ : Type} {note : ρ → α → ο → σ → ρ} {I : ρ → σ → Prop}
    (hI : ∀ r s a, I r s → P s a → I (note r a (step a s).1 (step a s).2) (step a s).2)
    {as : List α} {r : ρ} {s : σ} (h : Along step P as s) (hs : I r s) :
    I (record step note as r s) (after step as s) := by
  induction as generalizing r s with
  | nil => exact hs
  | cons a as ih => exact ih h.2 (hI r s a hs h.1)

/-- Two records of one run, side by side. -/
theorem record_prod {ρ ρ' : Type} {note : ρ → α → ο → σ → ρ} {note' : ρ' → α → ο → σ → ρ'}
    {as : List α} {r : ρ} {r' : ρ'} {s : σ} :
    record step (fun p a o s => (note p.1 a o s, note' p.2 a o s)) as (r, r') s =
      (record step note as r s, record step note' as r' s) := by
  induction as generalizing r r' s with
  | nil => rfl
  | cons a as ih => exact ih

/-- Nothing is asked of the actions. -/
theorem along_true (as : List α) (s : σ) : Along step (fun _ _ => True) as s := by
  induction as generalizing s with
  | nil => trivial
  | cons a as ih => exact ⟨trivial, ih _⟩

/-- What is asked of the actions alone. -/
theorem along_of_forall {Q : α → Prop} {as : List α} (h : ∀ a ∈ as, Q a) (s : σ) :
    Along step (fun _ a => Q a) as s := by
  induction as generalizing s with
  | nil => trivial
  | cons a as ih => exact ⟨h a List.mem_cons_self, ih (fun b hb => h b (List.mem_cons_of_mem a hb)) _⟩

/-- What every step shows under an invariant, every observation of a run shows. -/
theorem run_observed {I : σ → Prop} {O : ο → Prop}
    (hI : ∀ s a, I s → P s a → I (step a s).2) (hO : ∀ s a, I s → P s a → O (step a s).1)
    {as : List α} {s : σ} (h : Along step P as s) (hs : I s) :
    ∀ o ∈ (run step as s).1, O o := by
  induction as generalizing s with
  | nil => intro o ho; cases ho
  | cons a as ih =>
      intro o ho
      rcases List.mem_cons.mp ho with rfl | ho
      · exact hO s a hs h.1
      · exact ih h.2 (hI s a hs h.1) o ho

/-- What every step shows exactly where `P` holds, a run shows exactly where it is along `P`. -/
theorem run_observed_iff {I : σ → Prop} {O : ο → Prop} (hI : ∀ s a, I s → I (step a s).2)
    (hO : ∀ s a, I s → (O (step a s).1 ↔ P s a)) {as : List α} {s : σ} (hs : I s) :
    (∀ o ∈ (run step as s).1, O o) ↔ Along step P as s := by
  induction as generalizing s with
  | nil => exact iff_of_true (by intros; contradiction) trivial
  | cons a as ih =>
      rw [run_cons, List.forall_mem_cons, hO s a hs, ih (hI s a hs)]
      rfl

/-- Two machines that agree along `P` have the same run. -/
theorem run_congr (heq : ∀ s a, P s a → step a s = step' a s) {as : List α} {s : σ}
    (h : Along step P as s) : run step as s = run step' as s := by
  induction as generalizing s with
  | nil => rfl
  | cons a as ih =>
      have ha := heq s a h.1
      rw [run_cons, run_cons, ih h.2, ha]

/-- Where two machines agree along `P`, the run along `P` of one is one of the other. -/
theorem Along.congr (heq : ∀ s a, P s a → step a s = step' a s) {as : List α} {s : σ}
    (h : Along step P as s) : Along step' P as s := by
  induction as generalizing s with
  | nil => trivial
  | cons a as ih => exact ⟨h.1, heq s a h.1 ▸ ih h.2⟩

/-- A run that does not stay in `P` has a first action outside it. -/
theorem first_failure {as : List α} {s : σ} (h : ¬ Along step P as s) :
    ∃ pre a post, as = pre ++ a :: post ∧ Along step P pre s ∧ ¬ P (after step pre s) a := by
  induction as generalizing s with
  | nil => exact absurd trivial h
  | cons a as ih =>
      by_cases ha : P s a
      · obtain ⟨pre, b, post, rfl, hpre, hb⟩ := ih fun h' => h ⟨ha, h'⟩
        exact ⟨a :: pre, b, post, rfl, ⟨ha, hpre⟩, hb⟩
      · exact ⟨[], a, as, rfl, trivial, ha⟩

end HreqH1.Runs
