import HreqH1.Support.Poll

/-!
# Support — Rounds

Polls whose loops need not end.  Such a poll is given a number of rounds for its loops, and diverges
where they do not do.

* `Stable`: once a poll has returned, more rounds change nothing.
* `Returns`: what a poll comes to with rounds enough, by the parts of a sequence
  (`Returns.bind`, `Returns.of_bind`).
* `Mirrors`: a poll with rounds does, with enough of them, what a poll without does on the part `f` of
  its state.

Nothing here is about one program.
-/

namespace HreqH1.PollM
variable {ε σ τ α β ι : Type} {x : Nat → PollM ε σ α} {f : Nat → α → PollM ε σ β} {s t : σ}

/-! ### More rounds -/

/-- Where the poll returns, more rounds change nothing. -/
def Stable (x : Nat → PollM ε σ α) : Prop :=
  ∀ n m s, n ≤ m → (x n s).1 ≠ .diverge → x m s = x n s

theorem Stable.const (x : PollM ε σ α) : Stable fun _ => x := fun _ _ _ _ _ => rfl

theorem Stable.bind (hx : Stable x) (hf : ∀ a, Stable fun n => f n a) :
    Stable fun n => x n >>= f n := by
  intro n m s hle (hne : ((x n >>= f n) s).1 ≠ .diverge)
  show (x m >>= f m) s = (x n >>= f n) s
  rcases hxn : x n s with ⟨r, t⟩
  have hxm : r ≠ .diverge → x m s = (r, t) := fun hr => (hx n m s hle (by rwa [hxn])).trans hxn
  cases r with
  | ready a =>
      rw [run_bind_ready hxn] at hne ⊢
      rw [run_bind_ready (hxm (by simp))]
      exact hf a n m t hle hne
  | pending => rw [run_bind_pending hxn, run_bind_pending (hxm (by simp))]
  | fail e => rw [run_bind_fail hxn, run_bind_fail (hxm (by simp))]
  | panic p => rw [run_bind_panic hxn, run_bind_panic (hxm (by simp))]
  | diverge => rw [run_bind_diverge hxn] at hne; exact absurd rfl hne

theorem Stable.get {x : σ → Nat → PollM ε σ α} (hx : ∀ s, Stable (x s)) :
    Stable fun n => PollM.get >>= fun s => x s n :=
  fun n m s hle hne => hx s n m s hle hne

theorem Stable.ite {p : Prop} [Decidable p] {y : Nat → PollM ε σ α} (hx : Stable x) (hy : Stable y) :
    Stable fun n => if p then x n else y n := by
  by_cases hp : p
  · simpa only [if_pos hp] using hx
  · simpa only [if_neg hp] using hy

theorem Stable.zoom {x : Nat → PollM ε τ α} (hx : Stable x) (get : σ → τ) (set : σ → τ → σ) :
    Stable fun n => zoom get set (x n) := by
  intro n m s hle (hne : (x n (get s)).1 ≠ .diverge)
  show ((x m (get s)).1, set s (x m (get s)).2) = _
  rw [hx n m (get s) hle hne]
  rfl

theorem stable_loopN (body : ι → PollM ε σ (Flow ι α)) (i : ι) :
    Stable fun n => loopN body n i := by
  intro n
  induction n generalizing i with
  | zero => exact fun m s _ hne => absurd rfl hne
  | succ n ih =>
      intro m s hle hne
      obtain ⟨m, rfl⟩ : ∃ m', m = m' + 1 := ⟨m - 1, by omega⟩
      revert hne
      simp only [loopN, PollM.bind]
      rcases body i s with ⟨_ | (j | a) | e | p | _, t⟩ <;> intro hne
      · rfl
      · exact ih j m t (Nat.le_of_succ_le_succ hle) hne
      · rfl
      · rfl
      · rfl
      · rfl

/-- A round that changes nothing is made for ever. -/
theorem loopN_spins {body : ι → PollM ε σ (Flow ι α)} {i : ι}
    (h : body i s = (.ready (.again i), s)) (n : Nat) : loopN body n i s = (.diverge, s) := by
  induction n with
  | zero => rfl
  | succ n ih =>
      rw [loopN, PollM.bind, h]
      exact ih

/-! ### Returning -/

/-- With rounds enough, the poll comes to `r` and leaves `t`. -/
def Returns (x : Nat → PollM ε σ α) (s : σ) (r : Outcome ε α) (t : σ) : Prop :=
  r ≠ .diverge ∧ ∃ n, x n s = (r, t)

variable {r r' : Outcome ε α} {t' : σ}

/-- A stable poll returns in one way. -/
theorem Stable.unique (hx : Stable x) (h : Returns x s r t) (h' : Returns x s r' t') :
    r = r' ∧ t = t' := by
  obtain ⟨hr, n, hn⟩ := h
  obtain ⟨hr', m, hm⟩ := h'
  rcases Nat.le_total n m with hle | hle
  · have := hx n m s hle (by rwa [hn])
    rw [hn, hm] at this
    cases this
    exact ⟨rfl, rfl⟩
  · have := hx m n s hle (by rwa [hm])
    rw [hn, hm] at this
    cases this
    exact ⟨rfl, rfl⟩

/-- A sequence returns where both parts do. -/
theorem Returns.bind (hx : Stable x) (hf : ∀ a, Stable fun n => f n a) {a : α} {r : Outcome ε β}
    {u : σ} (h : Returns x s (.ready a) t) (h' : Returns (fun n => f n a) t r u) :
    Returns (fun n => x n >>= f n) s r u := by
  obtain ⟨-, n, hn⟩ := h
  obtain ⟨hr, m, hm⟩ := h'
  refine ⟨hr, max n m, ?_⟩
  show (x (max n m) >>= f (max n m)) s = _
  have hxn := (hx n (max n m) s (Nat.le_max_left n m) (by rw [hn]; simp)).trans hn
  rw [run_bind_ready hxn]
  exact (hf a m (max n m) t (Nat.le_max_right n m) (by rwa [hm])).trans hm

/-- What is not `ready` is what the sequence comes to. -/
theorem Returns.bind_fail {e : ε} (h : Returns x s (.fail e) t) :
    Returns (fun n => x n >>= f n) s (.fail e) t := by
  obtain ⟨-, n, hn⟩ := h
  exact ⟨by simp, n, run_bind_fail hn⟩

theorem Returns.bind_pending (h : Returns x s .pending t) :
    Returns (fun n => x n >>= f n) s .pending t := by
  obtain ⟨-, n, hn⟩ := h
  exact ⟨by simp, n, run_bind_pending hn⟩

theorem Returns.bind_panic {m : String} (h : Returns x s (.panic m) t) :
    Returns (fun n => x n >>= f n) s (.panic m) t := by
  obtain ⟨-, n, hn⟩ := h
  exact ⟨by simp, n, run_bind_panic hn⟩

/-- What a sequence comes to, by its parts. -/
theorem Returns.of_bind {r : Outcome ε β} {u : σ} (h : Returns (fun n => x n >>= f n) s r u) :
    (∃ a t, Returns x s (.ready a) t ∧ Returns (fun n => f n a) t r u) ∨
      r = .pending ∧ Returns x s .pending u ∨
      (∃ e, r = .fail e ∧ Returns x s (.fail e) u) ∨
      ∃ m, r = .panic m ∧ Returns x s (.panic m) u := by
  obtain ⟨hr, n, hn⟩ := h
  rcases hx : x n s with ⟨r', t⟩
  dsimp only at hn
  cases r' with
  | ready a =>
      rw [run_bind_ready hx] at hn
      exact .inl ⟨a, t, ⟨by simp, n, hx⟩, hr, n, hn⟩
  | pending =>
      rw [run_bind_pending hx] at hn
      cases hn
      exact .inr (.inl ⟨rfl, by simp, n, hx⟩)
  | fail e =>
      rw [run_bind_fail hx] at hn
      cases hn
      exact .inr (.inr (.inl ⟨e, rfl, by simp, n, hx⟩))
  | panic m =>
      rw [run_bind_panic hx] at hn
      cases hn
      exact .inr (.inr (.inr ⟨m, rfl, by simp, n, hx⟩))
  | diverge =>
      rw [run_bind_diverge hx] at hn
      cases hn
      exact absurd rfl hr

/-! ### The same poll with rounds -/

/-- With rounds enough, `y` does on the part `p` of the state what `x` does on the state. -/
def Mirrors (p : σ → τ) (x : PollM ε σ α) (y : Nat → PollM ε τ α) (s : σ) : Prop :=
  ∃ n, ∀ m, n ≤ m → y m (p s) = ((x s).1, p (x s).2)

variable {p : σ → τ} {x : PollM ε σ α} {y : Nat → PollM ε τ α} {f : α → PollM ε σ β}
  {g : Nat → α → PollM ε τ β}

theorem Mirrors.const {y : PollM ε τ α} (h : y (p s) = ((x s).1, p (x s).2)) :
    Mirrors p x (fun _ => y) s := ⟨0, fun _ _ => h⟩

theorem Mirrors.bind (h : Mirrors p x y s)
    (hf : ∀ a t, x s = (.ready a, t) → Mirrors p (f a) (fun n => g n a) t) :
    Mirrors p (x >>= f) (fun n => y n >>= g n) s := by
  obtain ⟨n, hn⟩ := h
  rcases hx : x s with ⟨r, t⟩
  rw [hx] at hn
  cases r with
  | ready a =>
      obtain ⟨m, hm⟩ := hf a t hx
      refine ⟨max n m, fun k hk => ?_⟩
      show (y k >>= g k) (p s) = _
      rw [run_bind_ready hx, run_bind_ready (hn k (by omega))]
      exact hm k (by omega)
  | pending =>
      refine ⟨n, fun k hk => ?_⟩
      show (y k >>= g k) (p s) = _
      rw [run_bind_pending hx, run_bind_pending (hn k hk)]
  | fail e =>
      refine ⟨n, fun k hk => ?_⟩
      show (y k >>= g k) (p s) = _
      rw [run_bind_fail hx, run_bind_fail (hn k hk)]
  | panic m =>
      refine ⟨n, fun k hk => ?_⟩
      show (y k >>= g k) (p s) = _
      rw [run_bind_panic hx, run_bind_panic (hn k hk)]
  | diverge =>
      refine ⟨n, fun k hk => ?_⟩
      show (y k >>= g k) (p s) = _
      rw [run_bind_diverge hx, run_bind_diverge (hn k hk)]

theorem Mirrors.ite {c : Prop} [Decidable c] {x' : PollM ε σ α} {y' : Nat → PollM ε τ α}
    (h : c → Mirrors p x y s) (h' : ¬ c → Mirrors p x' y' s) :
    Mirrors p (if c then x else x') (fun n => if c then y n else y' n) s := by
  by_cases hc : c
  · simpa only [if_pos hc] using h hc
  · simpa only [if_neg hc] using h' hc

theorem Mirrors.get {f : σ → PollM ε σ β} {g : Nat → τ → PollM ε τ β}
    (h : Mirrors p (f s) (fun n => g n (p s)) s) :
    Mirrors p (PollM.get >>= f) (fun n => PollM.get >>= g n) s := h

theorem Mirrors.zoom {σ' τ' : Type} {q : σ' → τ'} {get : σ' → σ} {set : σ' → σ → σ'}
    {get' : τ' → τ} {set' : τ' → τ → τ'} {u : σ'} (hget : get' (q u) = p (get u))
    (hset : ∀ s, q (set u s) = set' (q u) (p s)) (h : Mirrors p x y (get u)) :
    Mirrors q (zoom get set x) (fun n => zoom get' set' (y n)) u := by
  obtain ⟨n, hn⟩ := h
  refine ⟨n, fun m hm => ?_⟩
  show ((y m (get' (q u))).1, set' (q u) (y m (get' (q u))).2) = _
  rw [hget, hn m hm, ← hset]
  rfl

/-- Loops whose rounds are the same on the part, where the one ends. -/
theorem Mirrors.loop {J : ι → σ → Prop} {m : ι → σ → Nat} {body : ι → PollM ε σ (Flow ι α)}
    {body' : ι → PollM ε τ (Flow ι α)} (hdec : Decreases J m body)
    (hbody : ∀ i s, body' i (p s) = ((body i s).1, p (body i s).2)) {i : ι} (hJ : J i s) :
    Mirrors p (loop m body i) (fun n => loopN body' n i) s := by
  have hsame : ∀ n i s, loopN body' n i (p s) = ((loopN body n i s).1, p (loopN body n i s).2) := by
    intro n
    induction n with
    | zero => exact fun i s => rfl
    | succ n ih =>
        intro i s
        simp only [loopN, PollM.bind]
        rw [hbody]
        rcases body i s with ⟨_ | (j | a) | e | q | _, t⟩
        · rfl
        · exact ih j t
        · rfl
        · rfl
        · rfl
        · rfl
  refine ⟨m i s + 1, fun k hk => ?_⟩
  show loopN body' k i (p s) = _
  rw [hsame, loopN_eq hdec hJ (n := m i s + 1) (by omega) (Nat.lt_succ_self _)]
  rfl

end HreqH1.PollM
