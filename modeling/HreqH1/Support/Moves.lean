import HreqH1.Support.Poll

/-!
# Support — Moves

What a poll does, as moves of an abstract machine.  `M c c'` is a move of the machine, and
`S h c c'` the last, unfinished move of a poll that is not ready.  `Comes M S view c Q` is a
postcondition: the poll has made moves from `c`, and either is ready at a state where `Q` holds, or
has stopped with an `S`.  The state a poll runs on is seen by the machine through `view`.

* `wp_comes_bind`, `wp_moves_loop`: the rules for sequences and loops.
* `Comes.after`: moves before.
* `moves_keep`: what each move keeps, moves keep.

Nothing here is about one program.
-/

namespace HreqH1

/-- How a poll stops that is not ready. -/
inductive Halt (ε : Type) where
  | pending
  | fail (e : ε)
  | panic (msg : String)
  deriving DecidableEq, Repr

namespace PollM
open Relation

variable {ε σ τ α β ι : Type} {M : σ → σ → Prop} {S : Halt ε → σ → σ → Prop} {view : τ → σ}

/-- The outcome of a poll that has made moves from `c`. -/
def Comes (M : σ → σ → Prop) (S : Halt ε → σ → σ → Prop) (view : τ → σ) (c : σ)
    (Q : α → τ → Prop) : Outcome ε α → τ → Prop
  | .ready a, t => ReflTransGen M c (view t) ∧ Q a t
  | .pending, t => ∃ c', ReflTransGen M c c' ∧ S .pending c' (view t)
  | .fail e, t => ∃ c', ReflTransGen M c c' ∧ S (.fail e) c' (view t)
  | .panic m, t => ∃ c', ReflTransGen M c c' ∧ S (.panic m) c' (view t)
  | .diverge, _ => False

variable {c c' : σ} {Q : α → τ → Prop} {Q' : β → τ → Prop} {r : Outcome ε α} {t : τ}

theorem Comes.mono {R : α → τ → Prop} (h : Comes M S view c Q r t) (hQ : ∀ a t, Q a t → R a t) :
    Comes M S view c R r t := by
  cases r with
  | ready a => exact ⟨h.1, hQ a t h.2⟩
  | pending => exact h
  | fail e => exact h
  | panic m => exact h
  | diverge => exact h

theorem Comes.after (hc : ReflTransGen M c c') (h : Comes M S view c' Q r t) :
    Comes M S view c Q r t := by
  cases r with
  | ready a => exact ⟨hc.trans h.1, h.2⟩
  | pending => exact h.imp fun _ h => ⟨hc.trans h.1, h.2⟩
  | fail e => exact h.imp fun _ h => ⟨hc.trans h.1, h.2⟩
  | panic m => exact h.imp fun _ h => ⟨hc.trans h.1, h.2⟩
  | diverge => exact h

/-- The machine sees the state at the end. -/
theorem comes_view {R : α → σ → Prop} :
    Comes M S id c R r (view t) ↔ Comes M S view c (fun a t => R a (view t)) r t := by
  cases r <;> exact Iff.rfl

/-- A poll that stops stops the whole. -/
theorem wp_comes_bind {x : PollM ε τ α} {f : α → PollM ε τ β} {s : τ}
    (hx : wp x (Comes M S view c Q) s)
    (hf : ∀ a t, ReflTransGen M c (view t) → Q a t → wp (f a) (Comes M S view (view t) Q') t) :
    wp (x >>= f) (Comes M S view c Q') s := by
  rw [wp_bind]
  refine hx.mono fun r t h => ?_
  cases r with
  | ready a => exact (hf a t h.1 h.2).mono fun _ _ h' => h'.after h.1
  | pending => exact h
  | fail e => exact h
  | panic m => exact h
  | diverge => exact h

/-- A loop whose rounds keep the invariant `I` and decrease the measure, at any postcondition `P`
that moves may come before. -/
theorem wp_moves_loop {P : σ → Outcome ε α → τ → Prop} {I : ι → τ → Prop} {m : ι → τ → Nat}
    {body : ι → PollM ε τ (Flow ι α)}
    (hP : ∀ c c' r t, ReflTransGen M c c' → P c' r t → P c r t)
    (h : ∀ i s, I i s → wp (body i) (roundPost
      (fun j t => ReflTransGen M (view s) (view t) ∧ I j t ∧ m j t < m i s) (P (view s))) s)
    {i : ι} {s : τ} (hs : I i s) : wp (loop m body i) (P (view s)) s := by
  have hdec : Decreases I m body := by
    intro i s j t hi hx
    exact (wp_elim (h i s hi) hx).2
  refine wp_loop hdec (fun _ t => ReflTransGen M (view s) (view t)) ?_ hs .refl
  intro j u hj hm
  refine (h j u hj).mono fun r t hr => ?_
  cases r with
  | ready a =>
      cases a with
      | again k => exact hm.trans hr.1
      | done a => exact hP _ _ _ _ hm hr
  | pending => exact hP _ _ _ _ hm hr
  | fail e => exact hP _ _ _ _ hm hr
  | panic m => exact hP _ _ _ _ hm hr
  | diverge => exact hP _ _ _ _ hm hr

/-- What each move keeps, moves keep. -/
theorem moves_keep {I : σ → Prop} (hI : ∀ c c', M c c' → I c → I c') (h : ReflTransGen M c c')
    (hc : I c) : I c' := by
  induction h with
  | refl => exact hc
  | tail _ hm ih => exact hI _ _ hm ih

/-- And what holds of the last state. -/
theorem Comes.keeps {I J : σ → Prop} (hI : ∀ c c', M c c' → I c → I c')
    (hS : ∀ k c c', S k c c' → I c → J c') (hIJ : ∀ c, I c → J c) (h : Comes M S view c Q r t)
    (hc : I c) : J (view t) := by
  cases r with
  | ready a => exact hIJ _ (moves_keep hI h.1 hc)
  | pending => obtain ⟨c', hm, hs⟩ := h; exact hS _ _ _ hs (moves_keep hI hm hc)
  | fail e => obtain ⟨c', hm, hs⟩ := h; exact hS _ _ _ hs (moves_keep hI hm hc)
  | panic m => obtain ⟨c', hm, hs⟩ := h; exact hS _ _ _ hs (moves_keep hI hm hc)
  | diverge => exact h.elim

end PollM

end HreqH1
