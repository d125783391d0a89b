import Mathlib

/-!
# Support — Poll

Computations that are polled.  A poll of a task runs on a state `σ` until it is `pending`, is
`ready`, fails with an error, panics, or — for a loop that does not stop — diverges; the state is
kept in every case, since what a suspended poll has done so far is not undone.

* `Outcome`, `PollM`: the results and the monad; `bind` is `ready!(…)?` of the futures ecosystem.
* `poll`, `attempt`: a sub-poll whose `Pending`, or whose error, is inspected and not propagated.
* `zoom`: a sub-poll on a part of the state.
* `loop`: a loop with loop variables `ι`, bounded by a measure; `loop_unfold` removes the bound
  where every round that goes on decreases the measure.
* `wp`: the weakest precondition of a poll, with one rule for each of the above.

Nothing here is about one program.
-/

namespace HreqH1

/-- How a poll ends: `Poll<Result<α, ε>>`, a panic, or not at all. -/
inductive Outcome (ε α : Type) where
  | pending
  | ready (a : α)
  | fail (e : ε)
  | panic (msg : String)
  | diverge
  deriving DecidableEq, Repr

namespace Outcome
variable {ε α β : Type}

/-- An outcome that carries no value, at any other type of value. -/
def map (f : α → β) : Outcome ε α → Outcome ε β
  | .pending => .pending
  | .ready a => .ready (f a)
  | .fail e => .fail e
  | .panic m => .panic m
  | .diverge => .diverge

@[simp] theorem map_ready (f : α → β) (a : α) :
    (Outcome.ready a : Outcome ε α).map f = .ready (f a) := rfl
@[simp] theorem map_pending (f : α → β) : (Outcome.pending : Outcome ε α).map f = .pending := rfl
@[simp] theorem map_fail (f : α → β) (e : ε) : (Outcome.fail e).map f = .fail e := rfl
@[simp] theorem map_panic (f : α → β) (m : String) :
    (Outcome.panic m : Outcome ε α).map f = .panic m := rfl
@[simp] theorem map_diverge (f : α → β) : (Outcome.diverge : Outcome ε α).map f = .diverge := rfl

/-- The poll neither panicked nor diverged. -/
def Sound : Outcome ε α → Prop
  | .panic _ | .diverge => False
  | _ => True

end Outcome

/-- A poll on the state `σ`. -/
def PollM (ε σ α : Type) : Type := σ → Outcome ε α × σ

/-- What a round of a loop decides. -/
inductive Flow (ι α : Type) where
  | again (i : ι)
  | done (a : α)
  deriving DecidableEq, Repr

namespace PollM
variable {ε σ τ α β ι : Type}

/-- `x`, and then `f` of its value; every other outcome of `x` is the outcome. -/
def bind (x : PollM ε σ α) (f : α → PollM ε σ β) : PollM ε σ β := fun s =>
  match x s with
  | (.ready a, t) => f a t
  | (.pending, t) => (.pending, t)
  | (.fail e, t) => (.fail e, t)
  | (.panic m, t) => (.panic m, t)
  | (.diverge, t) => (.diverge, t)

instance : Monad (PollM ε σ) where
  pure a := fun s => (.ready a, s)
  bind := bind

def pend : PollM ε σ α := fun s => (.pending, s)
def throw (e : ε) : PollM ε σ α := fun s => (.fail e, s)
def panic (m : String) : PollM ε σ α := fun s => (.panic m, s)
def get : PollM ε σ σ := fun s => (.ready s, s)
def modify (f : σ → σ) : PollM ε σ Unit := fun s => (.ready (), f s)

/-- `assert!(p)`. -/
def assert (p : Bool) (m : String) : PollM ε σ Unit := if p then pure () else panic m

/-- A step that panics with a message or goes on. -/
def orPanic : Except String α → PollM ε σ α
  | .ok a => pure a
  | .error m => panic m

/-- `r?`. -/
def lift : Except ε α → PollM ε σ α
  | .ok a => pure a
  | .error e => throw e

/-- `match x { Poll::Pending => none, Poll::Ready(v) => some(v?) }`. -/
def poll (x : PollM ε σ α) : PollM ε σ (Option α) := fun s =>
  match x s with
  | (.pending, t) => (.ready none, t)
  | (r, t) => (r.map some, t)

/-- `ready!(x)`, with the `Result` kept. -/
def attempt (x : PollM ε σ α) : PollM ε σ (Except ε α) := fun s =>
  match x s with
  | (.fail e, t) => (.ready (.error e), t)
  | (r, t) => (r.map .ok, t)

/-- `x`, and `f` on its way out with an error or a panic: what goes out of scope there. -/
def onExit (f : σ → σ) (x : PollM ε σ α) : PollM ε σ α := fun s =>
  match x s with
  | (.fail e, t) => (.fail e, f t)
  | (.panic m, t) => (.panic m, f t)
  | p => p

/-- `x` on the part `get` of the state. -/
def zoom (get : σ → τ) (set : σ → τ → σ) (x : PollM ε τ α) : PollM ε σ α := fun s =>
  ((x (get s)).1, set s (x (get s)).2)

/-- At most `n` rounds of `body`. -/
def loopN (body : ι → PollM ε σ (Flow ι α)) : Nat → ι → PollM ε σ α
  | 0, _ => fun s => (.diverge, s)
  | n + 1, i => bind (body i) fun
      | .again j => loopN body n j
      | .done a => pure a

/-- `loop { body }`, for at most `m` rounds more than one. -/
def loop (m : ι → σ → Nat) (body : ι → PollM ε σ (Flow ι α)) (i : ι) : PollM ε σ α := fun s =>
  loopN body (m i s + 1) i s

/-! ### One step of a run -/

section Run
variable {x : PollM ε σ α} {f : α → PollM ε σ β} {s t : σ}

@[simp] theorem run_pure (a : α) : (pure a : PollM ε σ α) s = (.ready a, s) := rfl
@[simp] theorem run_pend : (pend : PollM ε σ α) s = (.pending, s) := rfl
@[simp] theorem run_throw (e : ε) : (throw e : PollM ε σ α) s = (.fail e, s) := rfl
@[simp] theorem run_panic (m : String) : (panic m : PollM ε σ α) s = (.panic m, s) := rfl
@[simp] theorem run_get : (get : PollM ε σ σ) s = (.ready s, s) := rfl
@[simp] theorem run_modify (g : σ → σ) : (modify g : PollM ε σ Unit) s = (.ready (), g s) := rfl

@[simp] theorem run_get_bind (g : σ → PollM ε σ β) : (get >>= g) s = g s s := rfl
@[simp] theorem run_modify_bind (g : σ → σ) (h : Unit → PollM ε σ β) :
    (modify g >>= h) s = h () (g s) := rfl
@[simp] theorem run_pure_bind (a : α) : ((pure a : PollM ε σ α) >>= f) s = f a s := rfl
@[simp] theorem run_throw_bind (e : ε) : ((throw e : PollM ε σ α) >>= f) s = (.fail e, s) := rfl
@[simp] theorem run_panic_bind (m : String) :
    ((panic m : PollM ε σ α) >>= f) s = (.panic m, s) := rfl

@[simp] theorem run_ite (p : Prop) [Decidable p] (x y : PollM ε σ α) :
    (if p then x else y) s = if p then x s else y s := by
  split <;> rfl

@[simp] theorem run_zoom (get : σ → τ) (set : σ → τ → σ) (x : PollM ε τ α) :
    zoom get set x s = ((x (get s)).1, set s (x (get s)).2) := rfl

@[simp] theorem run_map (g : α → β) : (g <$> x) s = ((x s).1.map g, (x s).2) := by
  show bind x _ s = _
  rw [bind]
  rcases x s with ⟨r, t⟩
  cases r <;> rfl

theorem run_bind_ready {a : α} (h : x s = (.ready a, t)) : (x >>= f) s = f a t := by
  show bind x f s = _; rw [bind, h]

theorem run_bind_pending (h : x s = (.pending, t)) : (x >>= f) s = (.pending, t) := by
  show bind x f s = _; rw [bind, h]

theorem run_bind_fail {e : ε} (h : x s = (.fail e, t)) : (x >>= f) s = (.fail e, t) := by
  show bind x f s = _; rw [bind, h]

theorem run_bind_diverge (h : x s = (.diverge, t)) : (x >>= f) s = (.diverge, t) := by
  show bind x f s = _; rw [bind, h]

theorem run_bind_panic {m : String} (h : x s = (.panic m, t)) : (x >>= f) s = (.panic m, t) := by
  show bind x f s = _; rw [bind, h]

instance : LawfulMonad (PollM ε σ) := by
  refine LawfulMonad.mk' _ (fun x => ?_) (fun _ _ => rfl) fun x f g => ?_
  · funext s
    show bind x _ s = _
    rw [bind]
    rcases x s with ⟨r, t⟩
    cases r <;> rfl
  · funext s
    show bind (bind x f) g s = bind x (fun a => bind (f a) g) s
    simp only [bind]
    rcases x s with ⟨r, t⟩
    cases r <;> rfl

end Run

/-! ### Weakest preconditions -/

/-- `Q` holds of the outcome of `x` from `s` and of the state it leaves. -/
def wp (x : PollM ε σ α) (Q : Outcome ε α → σ → Prop) (s : σ) : Prop := Q (x s).1 (x s).2

/-- `wp` of the continuation, and `Q` itself where there is none. -/
def bindPost (f : α → PollM ε σ β) (Q : Outcome ε β → σ → Prop) : Outcome ε α → σ → Prop
  | .ready a, t => wp (f a) Q t
  | .pending, t => Q .pending t
  | .fail e, t => Q (.fail e) t
  | .panic m, t => Q (.panic m) t
  | .diverge, t => Q .diverge t

variable {x : PollM ε σ α} {Q Q' : Outcome ε α → σ → Prop} {s : σ}

theorem wp_of_eq {r : Outcome ε α} {t : σ} (h : x s = (r, t)) (hQ : Q r t) : wp x Q s := by
  rw [wp, h]; exact hQ

theorem wp_intro (h : ∀ r t, x s = (r, t) → Q r t) : wp x Q s := h _ _ rfl

theorem wp_elim (h : wp x Q s) {r : Outcome ε α} {t : σ} (hx : x s = (r, t)) : Q r t := by
  rw [wp, hx] at h; exact h

theorem wp.mono (h : wp x Q s) (hQ : ∀ r t, Q r t → Q' r t) : wp x Q' s := hQ _ _ h

theorem wp.and (h : wp x Q s) (h' : wp x Q' s) : wp x (fun r t => Q r t ∧ Q' r t) s := ⟨h, h'⟩

@[simp] theorem wp_pure {a : α} : wp (pure a : PollM ε σ α) Q s ↔ Q (.ready a) s := Iff.rfl
@[simp] theorem wp_pend : wp (pend : PollM ε σ α) Q s ↔ Q .pending s := Iff.rfl
@[simp] theorem wp_throw {e : ε} : wp (throw e : PollM ε σ α) Q s ↔ Q (.fail e) s := Iff.rfl
@[simp] theorem wp_panic {m : String} : wp (panic m : PollM ε σ α) Q s ↔ Q (.panic m) s := Iff.rfl
@[simp] theorem wp_get {Q : Outcome ε σ → σ → Prop} : wp get Q s ↔ Q (.ready s) s := Iff.rfl
@[simp] theorem wp_modify {f : σ → σ} {Q : Outcome ε Unit → σ → Prop} :
    wp (modify f) Q s ↔ Q (.ready ()) (f s) := Iff.rfl

@[simp] theorem wp_assert {p : Bool} {m : String} {Q : Outcome ε Unit → σ → Prop} :
    wp (assert p m) Q s ↔ if p then Q (.ready ()) s else Q (.panic m) s := by
  unfold assert; split <;> simp

@[simp] theorem wp_ite {p : Prop} [Decidable p] {x y : PollM ε σ α} :
    wp (if p then x else y) Q s ↔ if p then wp x Q s else wp y Q s := by
  split <;> rfl

@[simp] theorem wp_bind {f : α → PollM ε σ β} {Q : Outcome ε β → σ → Prop} :
    wp (x >>= f) Q s ↔ wp x (bindPost f Q) s := by
  show wp (bind x f) Q s ↔ _
  unfold wp bind
  rcases x s with ⟨r, t⟩
  cases r <;> exact Iff.rfl

@[simp] theorem wp_map {g : α → β} {Q : Outcome ε β → σ → Prop} :
    wp (g <$> x) Q s ↔ wp x (fun r t => Q (r.map g) t) s := by
  rw [wp, run_map]; exact Iff.rfl

theorem wp_poll {Q : Outcome ε (Option α) → σ → Prop} :
    wp (poll x) Q s ↔ wp x (fun r t => match r with
      | .pending => Q (.ready none) t
      | r => Q (r.map some) t) s := by
  unfold wp poll
  rcases x s with ⟨r, t⟩
  cases r <;> exact Iff.rfl

theorem wp_attempt {Q : Outcome ε (Except ε α) → σ → Prop} :
    wp (attempt x) Q s ↔ wp x (fun r t => match r with
      | .fail e => Q (.ready (.error e)) t
      | r => Q (r.map .ok) t) s := by
  unfold wp attempt
  rcases x s with ⟨r, t⟩
  cases r <;> exact Iff.rfl

theorem wp_onExit {f : σ → σ} :
    wp (onExit f x) Q s ↔ wp x (fun r t => match r with
      | .fail e => Q (.fail e) (f t)
      | .panic m => Q (.panic m) (f t)
      | r => Q r t) s := by
  unfold wp onExit
  rcases x s with ⟨r, t⟩
  cases r <;> exact Iff.rfl

theorem wp_zoom {get : σ → τ} {set : σ → τ → σ} {x : PollM ε τ α} :
    wp (zoom get set x) Q s ↔ wp x (fun r t => Q r (set s t)) (get s) := Iff.rfl

/-! ### Loops -/

section Loop
variable {J : ι → σ → Prop} {m : ι → σ → Nat} {body : ι → PollM ε σ (Flow ι α)}

/-- Where `J` holds, every round that goes on keeps `J` and decreases the measure. -/
def Decreases (J : ι → σ → Prop) (m : ι → σ → Nat) (body : ι → PollM ε σ (Flow ι α)) : Prop :=
  ∀ i s j t, J i s → body i s = (.ready (.again j), t) → J j t ∧ m j t < m i s

/-- Any two bounds above the measure give the same run. -/
theorem loopN_eq (h : Decreases J m body) :
    ∀ {k n i s}, J i s → m i s < k → m i s < n → loopN body k i s = loopN body n i s := by
  intro k
  induction k with
  | zero => intro n i s _ hk; omega
  | succ k ih =>
      intro n i s hs hk hn
      obtain ⟨n, rfl⟩ : ∃ n', n = n' + 1 := ⟨n - 1, by omega⟩
      simp only [loopN, bind]
      rcases hb : body i s with ⟨_ | (j | a) | e | p | _, t⟩ <;> simp only
      obtain ⟨ht, hlt⟩ := h i s j t hs hb
      exact ih ht (by omega) (by omega)

/-- One round of the loop. -/
theorem loop_unfold (h : Decreases J m body) (i : ι) {s : σ} (hs : J i s) :
    loop m body i s =
      (body i >>= fun | .again j => loop m body j | .done a => pure a) s := by
  show loopN body (m i s + 1) i s = bind (body i) _ s
  simp only [loopN, bind]
  rcases hb : body i s with ⟨_ | (j | a) | e | p | _, t⟩ <;> simp only
  obtain ⟨ht, hlt⟩ := h i s j t hs hb
  exact loopN_eq h ht (by omega) (by omega)

/-- The postcondition of a round under the invariant `I` of the loop. -/
def roundPost (I : ι → σ → Prop) (Q : Outcome ε α → σ → Prop) :
    Outcome ε (Flow ι α) → σ → Prop
  | .ready (.again j), t => I j t
  | .ready (.done a), t => Q (.ready a) t
  | .pending, t => Q .pending t
  | .fail e, t => Q (.fail e) t
  | .panic p, t => Q (.panic p) t
  | .diverge, t => Q .diverge t

/-- **The loop rule.**  What every round keeps, and every exit establishes. -/
theorem wp_loop (h : Decreases J m body) (I : ι → σ → Prop)
    (hI : ∀ i s, J i s → I i s → wp (body i) (roundPost I Q) s) :
    ∀ {i s}, J i s → I i s → wp (loop m body i) Q s := by
  intro i s
  induction hk : m i s using Nat.strongRecOn generalizing i s with
  | ind k ih =>
      intro hs hi
      rw [wp, loop_unfold h i hs]
      show wp (body i >>= _) Q s
      rw [wp_bind]
      refine wp_intro fun r t hb => ?_
      have hr := wp_elim (hI i s hs hi) hb
      rcases r with _ | (j | a) | e | p | _
      · exact hr
      · obtain ⟨ht, hlt⟩ := h i s j t hs hb
        exact ih _ (hk ▸ hlt) rfl ht hr
      · exact hr
      · exact hr
      · exact hr
      · exact hr

end Loop

end PollM

end HreqH1
