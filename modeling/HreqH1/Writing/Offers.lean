import HreqH1.Model.AsyncWrite
import HreqH1.Support.Rounds

/-!
# Writing — offers

What a poll asks of a writer: a list of jobs, each of which is to write a string, the rest of which is
offered again and again, or to flush (`Job`).  By the writer alone: which rests it comes to be offered
(`Offered`), the state it is in when the jobs are done (`Done`), whether it fails at one (`Fails`), and
whether it answers `Ok(0)` to a rest that is not empty (`Stalls`).

A poll that `Does` the jobs fails exactly where the writer does, and returns where the writer does not
stall.  Of a sequence it is enough to know it of the parts (`Does.bind`), and of a loop, that its rounds
offer the rest (`Does.loop`).
-/

namespace HreqH1
open PollM AsyncWrite
variable {W : Type} [AsyncWrite W]

/-! ### The writer -/

/-- A writer that is offered `bs`, and its rest after each `Ok`, comes to `w'` with `bs'` to offer. -/
inductive Offered : W → Bytes → W → Bytes → Prop where
  | refl (w : W) (bs : Bytes) : Offered w bs w bs
  | more {w w₁ w' : W} {bs bs' : Bytes} {k : Nat} (hne : bs ≠ [])
      (h : pollWrite w bs = (some (.ok k), w₁)) (t : Offered w₁ (bs.drop k) w' bs') :
      Offered w bs w' bs'

/-- What a poll has to do of its writer. -/
inductive Job where
  | write (bs : Bytes)
  | flush

namespace Job

/-- The writer is in the state `w'` when the job is done. -/
def Done : Job → W → W → Prop
  | write bs, w, w' => Offered w bs w' []
  | flush, w, w' => pollFlush w = (some (.ok ()), w')

/-- The writer fails at the job. -/
def Fails : Job → W → Prop
  | write bs, w =>
      ∃ w' bs' e w₁, Offered w bs w' bs' ∧ bs' ≠ [] ∧ pollWrite w' bs' = (some (.error e), w₁)
  | flush, w => ∃ e w₁, pollFlush w = (some (.error e), w₁)

/-- The writer answers `Ok(0)` to a rest that is not empty. -/
def Stalls : Job → W → Prop
  | write bs, w => ∃ w' bs' w₁, Offered w bs w' bs' ∧ bs' ≠ [] ∧ pollWrite w' bs' = (some (.ok 0), w₁)
  | flush, _ => False

end Job

/-- The writer is in the state `w'` when the jobs are done, one after the other. -/
def Done : List Job → W → W → Prop
  | [], w, w' => w' = w
  | j :: js, w, w' => ∃ w₁, j.Done w w₁ ∧ Done js w₁ w'

/-- The writer fails at one of the jobs. -/
def Fails : List Job → W → Prop
  | [], _ => False
  | j :: js, w => j.Fails w ∨ ∃ w₁, j.Done w w₁ ∧ Fails js w₁

/-- The writer stalls at one of the jobs. -/
def Stalls : List Job → W → Prop
  | [], _ => False
  | j :: js, w => j.Stalls w ∨ ∃ w₁, j.Done w w₁ ∧ Stalls js w₁

variable {w w' w₁ : W} {bs bs' : Bytes} {j : Job} {js js' : List Job}

theorem done_append : Done (js ++ js') w w' ↔ ∃ w₁, Done js w w₁ ∧ Done js' w₁ w' := by
  induction js generalizing w with
  | nil =>
      constructor
      · exact fun h => ⟨w, rfl, h⟩
      · rintro ⟨w₁, rfl, h⟩
        exact h
  | cons j js ih =>
      constructor
      · rintro ⟨w₂, hj, hd⟩
        obtain ⟨w₁, h, h'⟩ := ih.mp hd
        exact ⟨w₁, ⟨w₂, hj, h⟩, h'⟩
      · rintro ⟨w₁, ⟨w₂, hj, h⟩, h'⟩
        exact ⟨w₂, hj, ih.mpr ⟨w₁, h, h'⟩⟩

theorem fails_append : Fails (js ++ js') w ↔ Fails js w ∨ ∃ w₁, Done js w w₁ ∧ Fails js' w₁ := by
  induction js generalizing w with
  | nil =>
      constructor
      · exact fun h => .inr ⟨w, rfl, h⟩
      · rintro (h | ⟨w₁, rfl, h⟩)
        · exact h.elim
        · exact h
  | cons j js ih =>
      constructor
      · rintro (h | ⟨w₂, hj, hf⟩)
        · exact .inl (.inl h)
        · rcases ih.mp hf with hf | ⟨w₁, hd, hf⟩
          · exact .inl (.inr ⟨w₂, hj, hf⟩)
          · exact .inr ⟨w₁, ⟨w₂, hj, hd⟩, hf⟩
      · rintro ((h | ⟨w₂, hj, hf⟩) | ⟨w₁, ⟨w₂, hj, hd⟩, hf⟩)
        · exact .inl h
        · exact .inr ⟨w₂, hj, ih.mpr (.inl hf)⟩
        · exact .inr ⟨w₂, hj, ih.mpr (.inr ⟨w₁, hd, hf⟩)⟩

theorem Stalls.append_left (h : Stalls js w) : Stalls (js ++ js') w := by
  induction js generalizing w with
  | nil => exact h.elim
  | cons j js ih =>
      rcases h with h | ⟨w₁, hj, h⟩
      · exact .inl h
      · exact .inr ⟨w₁, hj, ih h⟩

theorem Stalls.append_right (hd : Done js w w₁) (h : Stalls js' w₁) : Stalls (js ++ js') w := by
  induction js generalizing w with
  | nil =>
      obtain rfl : w₁ = w := hd
      exact h
  | cons j js ih =>
      obtain ⟨w₂, hj, hd⟩ := hd
      exact .inr ⟨w₂, hj, ih hd⟩

/-- Where the writer does not stall, a string comes to be taken, or to be refused. -/
theorem Job.ends_of_not_stalls (h : ¬ (write bs).Stalls w) :
    (∃ w', Offered w bs w' []) ∨ ∃ w' bs', Offered w bs w' bs' ∧ bs' ≠ [] ∧
      ((∃ w₁, pollWrite w' bs' = (none, w₁)) ∨ ∃ e w₁, pollWrite w' bs' = (some (.error e), w₁)) := by
  induction hn : bs.length using Nat.strongRecOn generalizing w bs with
  | ind n ih =>
      by_cases hne : bs = []
      · exact .inl ⟨w, hne ▸ .refl w bs⟩
      rcases hw : pollWrite w bs with ⟨_ | e | k, w₁⟩
      · exact .inr ⟨w, bs, .refl w bs, hne, .inl ⟨w₁, hw⟩⟩
      · exact .inr ⟨w, bs, .refl w bs, hne, .inr ⟨e, w₁, hw⟩⟩
      · have hk : k ≠ 0 := by
          rintro rfl
          exact h ⟨w, bs, w₁, .refl w bs, hne, hw⟩
        have hpos := List.length_pos_iff.mpr hne
        have hrest : ¬ (write (bs.drop k)).Stalls w₁ := by
          rintro ⟨w', bs', w₂, ho, h'⟩
          exact h ⟨w', bs', w₂, .more hne hw ho, h'⟩
        rcases ih _ (by rw [List.length_drop]; omega) hrest rfl with ⟨w', ho⟩ | ⟨w', bs', ho, h'⟩
        · exact .inl ⟨w', .more hne hw ho⟩
        · exact .inr ⟨w', bs', .more hne hw ho, h'⟩

/-! ### Polls -/

variable {σ ι : Type} {x y : Nat → PollM IoError σ Unit} {inner : σ → W} {P Q : σ → Prop} {s s' : σ}

/-- From the state `s`, the poll does the jobs of its writer, and leaves `P` when they are done: it is
ready when they are, and fails where the writer does; and it returns where the writer does not
stall. -/
structure Does (x : Nat → PollM IoError σ Unit) (inner : σ → W) (js : List Job) (P : σ → Prop)
    (s : σ) : Prop where
  ready : ∀ t, Returns x s (.ready ()) t → Done js (inner s) (inner t) ∧ P t
  fail : ∀ e t, Returns x s (.fail e) t → Fails js (inner s)
  panic : ∀ m t, ¬ Returns x s (.panic m) t
  done : ∀ w, Done js (inner s) w → ∃ t, Returns x s (.ready ()) t ∧ inner t = w
  fails : Fails js (inner s) → ∃ e t, Returns x s (.fail e) t
  returns : ¬ Stalls js (inner s) → ∃ r t, Returns x s r t

theorem Does.pure (h : P s) : Does (fun _ => Pure.pure ()) inner [] P s where
  ready := by
    rintro t ⟨-, n, hn⟩
    obtain rfl : s = t := congrArg Prod.snd hn
    exact ⟨rfl, h⟩
  fail := by
    rintro e t ⟨-, n, hn⟩
    cases congrArg Prod.fst hn
  panic := by
    rintro m t ⟨-, n, hn⟩
    cases congrArg Prod.fst hn
  done := by
    rintro w rfl
    exact ⟨s, ⟨by simp, 0, rfl⟩, rfl⟩
  fails := fun h => h.elim
  returns := fun _ => ⟨.ready (), s, by simp, 0, rfl⟩

theorem Does.mono (h : Does x inner js P s) (hpq : ∀ t, P t → Q t) : Does x inner js Q s :=
  { h with ready := fun t ht => ⟨(h.ready t ht).1, hpq t (h.ready t ht).2⟩ }

/-- A flush. -/
theorem Does.flush {y : PollM IoError σ Unit} (h : wp y (fun r t => match r with
      | .ready _ => pollFlush (inner s) = (some (.ok ()), inner t) ∧ P t
      | .pending => pollFlush (inner s) = (none, inner t)
      | .fail e => pollFlush (inner s) = (some (.error e), inner t)
      | .panic _ => False
      | .diverge => False) s) : Does (fun _ => y) inner [.flush] P s := by
  rcases hy : y s with ⟨r, u⟩
  have hp := wp_elim h hy
  constructor
  · rintro t ⟨-, n, hn⟩
    cases hy.symm.trans hn
    exact ⟨⟨inner u, hp.1, rfl⟩, hp.2⟩
  · rintro e t ⟨-, n, hn⟩
    cases hy.symm.trans hn
    exact .inl ⟨e, inner u, hp⟩
  · rintro m t ⟨-, n, hn⟩
    cases hy.symm.trans hn
    exact hp
  · rintro w ⟨w₁, hw, rfl⟩
    have hw : pollFlush (inner s) = (some (.ok ()), w) := hw
    cases r with
    | ready a =>
        refine ⟨u, ⟨by simp, 0, hy⟩, ?_⟩
        cases hw.symm.trans hp.1
        rfl
    | pending => cases hw.symm.trans hp
    | fail e => cases hw.symm.trans hp
    | panic m => exact hp.elim
    | diverge => exact hp.elim
  · rintro (⟨e, w, hw⟩ | ⟨w, -, hf⟩)
    · cases r with
      | ready a => cases hw.symm.trans hp.1
      | pending => cases hw.symm.trans hp
      | fail e' => exact ⟨e', u, by simp, 0, hy⟩
      | panic m => exact hp.elim
      | diverge => exact hp.elim
    · exact hf.elim
  · intro _
    refine ⟨r, u, ?_, 0, hy⟩
    rintro rfl
    exact hp

/-- A poll that goes on as another does. -/
theorem Does.of_eq (h : Does y inner js P s') (he : ∀ n, x n s = y n s')
    (hi : inner s' = inner s) : Does x inner js P s := by
  have hret : ∀ {r t}, Returns x s r t ↔ Returns y s' r t := by
    intro r t
    simp only [Returns, he]
  constructor
  · intro t ht
    rw [← hi]
    exact h.ready t (hret.mp ht)
  · intro e t ht
    rw [← hi]
    exact h.fail e t (hret.mp ht)
  · exact fun m t ht => h.panic m t (hret.mp ht)
  · intro w hd
    rw [← hi] at hd
    obtain ⟨t, ht, hw⟩ := h.done w hd
    exact ⟨t, hret.mpr ht, hw⟩
  · intro hf
    rw [← hi] at hf
    obtain ⟨e, t, ht⟩ := h.fails hf
    exact ⟨e, t, hret.mpr ht⟩
  · intro hs
    rw [← hi] at hs
    obtain ⟨r, t, ht⟩ := h.returns hs
    exact ⟨r, t, hret.mpr ht⟩

/-- One poll after the other. -/
theorem Does.bind (hx : Stable x) (hy : Stable y) (h : Does x inner js P s)
    (h' : ∀ t, P t → Does y inner js' Q t) :
    Does (fun n => x n >>= fun _ => y n) inner (js ++ js') Q s := by
  have hseq : ∀ {t r u}, Returns x s (.ready ()) t → Returns y t r u →
      Returns (fun n => x n >>= fun _ => y n) s r u :=
    fun ht hu => ht.bind hx (fun _ => hy) hu
  constructor
  · intro u hu
    rcases hu.of_bind with ⟨_, t, ht, hu⟩ | ⟨hr, -⟩ | ⟨e, hr, -⟩ | ⟨m, hr, -⟩
    · obtain ⟨hd, hp⟩ := h.ready t ht
      obtain ⟨hd', hq⟩ := (h' t hp).ready u hu
      exact ⟨done_append.mpr ⟨_, hd, hd'⟩, hq⟩
    · cases hr
    · cases hr
    · cases hr
  · intro e u hu
    rcases hu.of_bind with ⟨_, t, ht, hu⟩ | ⟨hr, -⟩ | ⟨e', -, hu⟩ | ⟨m, hr, -⟩
    · obtain ⟨hd, hp⟩ := h.ready t ht
      exact fails_append.mpr (.inr ⟨_, hd, (h' t hp).fail e u hu⟩)
    · cases hr
    · exact fails_append.mpr (.inl (h.fail e' u hu))
    · cases hr
  · intro m u hu
    rcases hu.of_bind with ⟨_, t, ht, hu⟩ | ⟨hr, -⟩ | ⟨e, hr, -⟩ | ⟨m', -, hu⟩
    · exact (h' t (h.ready t ht).2).panic m u hu
    · cases hr
    · cases hr
    · exact h.panic m' u hu
  · intro w hd
    obtain ⟨w₁, hd, hd'⟩ := done_append.mp hd
    obtain ⟨t, ht, rfl⟩ := h.done w₁ hd
    obtain ⟨u, hu, hw⟩ := (h' t (h.ready t ht).2).done w hd'
    exact ⟨u, hseq ht hu, hw⟩
  · intro hf
    rcases fails_append.mp hf with hf | ⟨w₁, hd, hf⟩
    · obtain ⟨e, t, ht⟩ := h.fails hf
      exact ⟨e, t, ht.bind_fail⟩
    · obtain ⟨t, ht, rfl⟩ := h.done w₁ hd
      obtain ⟨e, u, hu⟩ := (h' t (h.ready t ht).2).fails hf
      exact ⟨e, u, hseq ht hu⟩
  · intro hs
    obtain ⟨r, t, ht⟩ := h.returns fun hs' => hs hs'.append_left
    cases r with
    | ready a =>
        obtain ⟨hd, hp⟩ := h.ready t ht
        obtain ⟨r, u, hu⟩ := (h' t hp).returns fun hs' => hs (.append_right hd hs')
        exact ⟨r, u, hseq ht hu⟩
    | pending => exact ⟨.pending, t, ht.bind_pending⟩
    | fail e => exact ⟨.fail e, t, ht.bind_fail⟩
    | panic m => exact absurd ht (h.panic m t)
    | diverge => exact absurd rfl ht.1

/-- A poll of a part of the state. -/
theorem Does.zoom {τ : Type} {z : Nat → PollM IoError τ Unit} {inner : τ → W} {P : τ → Prop}
    (get : σ → τ) (set : σ → τ → σ) (hget : ∀ s t, get (set s t) = t)
    (h : Does z inner js P (get s)) :
    Does (fun n => zoom get set (z n)) (fun s => inner (get s)) js
      (fun t => P (get t) ∧ t = set s (get t)) s := by
  have hup : ∀ {r t}, Returns z (get s) r t → Returns (fun n => PollM.zoom get set (z n)) s r (set s t) := by
    rintro r t ⟨hr, n, hn⟩
    refine ⟨hr, n, ?_⟩
    show ((z n (get s)).1, set s (z n (get s)).2) = _
    rw [hn]
  have hdown : ∀ {r u}, Returns (fun n => PollM.zoom get set (z n)) s r u →
      ∃ t, Returns z (get s) r t ∧ u = set s t := by
    rintro r u ⟨hr, n, hn⟩
    cases hn
    exact ⟨_, ⟨hr, n, rfl⟩, rfl⟩
  constructor
  · intro u hu
    obtain ⟨t, ht, rfl⟩ := hdown hu
    rw [hget]
    exact ⟨(h.ready t ht).1, (h.ready t ht).2, rfl⟩
  · intro e u hu
    obtain ⟨t, ht, rfl⟩ := hdown hu
    exact h.fail e t ht
  · intro m u hu
    obtain ⟨t, ht, rfl⟩ := hdown hu
    exact h.panic m t ht
  · intro w hd
    obtain ⟨t, ht, rfl⟩ := h.done w hd
    exact ⟨_, hup ht, by rw [hget]⟩
  · intro hf
    obtain ⟨e, t, ht⟩ := h.fails hf
    exact ⟨e, _, hup ht⟩
  · intro hs
    obtain ⟨r, t, ht⟩ := h.returns hs
    exact ⟨r, _, hup ht⟩

/-- The poll returns, and with an error where its writer has stalled. -/
def Progresses (x : Nat → PollM IoError σ Unit) (inner : σ → W) (js : List Job) (s : σ) : Prop :=
  (∃ r t, r.Sound ∧ Returns x s r t) ∧
    (Stalls js (inner s) → ∃ e t, Returns x s (.fail e) t)

/-- **When a poll that does jobs progresses**: where the writer fails whenever it stalls. -/
theorem Does.progresses_iff (h : Does x inner js P s) :
    Progresses x inner js s ↔ (Stalls js (inner s) → Fails js (inner s)) := by
  constructor
  · rintro ⟨-, herr⟩ hs
    obtain ⟨e, t, ht⟩ := herr hs
    exact h.fail e t ht
  · intro hc
    refine ⟨?_, fun hs => h.fails (hc hs)⟩
    by_cases hs : Stalls js (inner s)
    · obtain ⟨e, t, ht⟩ := h.fails (hc hs)
      exact ⟨.fail e, t, trivial, ht⟩
    · obtain ⟨r, t, ht⟩ := h.returns hs
      refine ⟨r, t, ?_, ht⟩
      cases r with
      | ready a => trivial
      | pending => trivial
      | fail e => trivial
      | panic m => exact h.panic m t ht
      | diverge => exact ht.1 rfl

/-! ### Loops -/

/-- What a round that offers `rest` comes to. -/
def OfferPost (inner : σ → W) (rest : ι → σ → Bytes) (J : ι → σ → Prop) (i : ι) (s : σ) :
    Outcome IoError (Flow ι Unit) → σ → Prop
  | .ready (.done _), t => rest i s = [] ∧ t = s
  | .ready (.again j), t => J j t ∧ rest i s ≠ [] ∧
      ∃ k, pollWrite (inner s) (rest i s) = (some (.ok k), inner t) ∧ rest j t = (rest i s).drop k
  | .pending, t => rest i s ≠ [] ∧ pollWrite (inner s) (rest i s) = (none, inner t)
  | .fail e, t => rest i s ≠ [] ∧ pollWrite (inner s) (rest i s) = (some (.error e), inner t)
  | .panic _, _ => False
  | .diverge, _ => False

variable {body : ι → PollM IoError σ (Flow ι Unit)} {rest : ι → σ → Bytes} {J : ι → σ → Prop}
  {i : ι}

/-- A loop that has come to an end has been through rests that were offered. -/
theorem offered_of_loopN (hbody : ∀ i s, J i s → wp (body i) (OfferPost inner rest J i s) s) (n : Nat)
    (hJ : J i s) : wp (loopN body n i) (fun r t => match r with
      | .ready _ => Offered (inner s) (rest i s) (inner t) [] ∧ ∃ j, J j t
      | .fail e => ∃ w' bs', Offered (inner s) (rest i s) w' bs' ∧ bs' ≠ [] ∧
          pollWrite w' bs' = (some (.error e), inner t)
      | .panic _ => False
      | _ => True) s := by
  induction n generalizing i s with
  | zero => trivial
  | succ n ih =>
      rw [loopN]
      refine wp_bind.mpr ((hbody i s hJ).mono fun r s₁ hp => ?_)
      cases r with
      | ready f =>
          cases f with
          | again j =>
              obtain ⟨hJ', hne, k, hw, hrest⟩ := hp
              dsimp only [bindPost]
              refine (ih hJ').mono fun r t h => ?_
              rw [hrest] at h
              cases r with
              | ready a => exact ⟨.more hne hw h.1, h.2⟩
              | fail e =>
                  obtain ⟨w', bs', ho, h⟩ := h
                  exact ⟨w', bs', .more hne hw ho, h⟩
              | panic m => exact h
              | pending => trivial
              | diverge => trivial
          | done a =>
              obtain ⟨hrest, rfl⟩ := hp
              refine ⟨?_, i, hJ⟩
              rw [hrest]
              exact .refl _ _
      | pending => trivial
      | fail e => exact ⟨_, _, .refl _ _, hp⟩
      | panic m => exact hp.elim
      | diverge => exact hp.elim

/-- A loop goes through the rests that are offered. -/
theorem loopN_of_offered (hbody : ∀ i s, J i s → wp (body i) (OfferPost inner rest J i s) s)
    {w w' : W} {bs bs' : Bytes} (ho : Offered w bs w' bs') {i : ι} {s : σ} (hJ : J i s)
    (hi : inner s = w) (hr : rest i s = bs) :
    ∃ m j t, J j t ∧ inner t = w' ∧ rest j t = bs' ∧
      ∀ n, loopN body (n + m) i s = loopN body n j t := by
  induction ho generalizing i s with
  | refl => exact ⟨0, i, s, hJ, hi, hr, fun n => rfl⟩
  | @more w w₁ w' bs bs' k hne hw _ ih =>
      subst hi hr
      rcases hb : body i s with ⟨r, s₁⟩
      have hp := wp_elim (hbody i s hJ) hb
      cases r with
      | ready f =>
          cases f with
          | again j =>
              obtain ⟨hJ', -, k', hw', hrest⟩ := hp
              cases hw.symm.trans hw'
              obtain ⟨m, j', t, hJt, hi, hr, hn⟩ := ih hJ' rfl hrest
              refine ⟨m + 1, j', t, hJt, hi, hr, fun n => ?_⟩
              show PollM.bind (body i) _ s = _
              rw [PollM.bind, hb]
              exact hn n
          | done a => exact absurd hp.1 hne
      | pending => cases hw.symm.trans hp.2
      | fail e => cases hw.symm.trans hp.2
      | panic m => exact hp.elim
      | diverge => exact hp.elim

/-- A round that is the last. -/
theorem last_round (hbody : ∀ i s, J i s → wp (body i) (OfferPost inner rest J i s) s) {j : ι} {t : σ}
    (hJ : J j t) : wp (loopN body 1 j) (fun r u => match r with
      | .ready _ => rest j t = [] ∧ u = t
      | .pending => rest j t ≠ [] ∧ pollWrite (inner t) (rest j t) = (none, inner u)
      | .fail e => rest j t ≠ [] ∧ pollWrite (inner t) (rest j t) = (some (.error e), inner u)
      | .panic _ => False
      | .diverge => rest j t ≠ [] ∧ ∃ k w, pollWrite (inner t) (rest j t) = (some (.ok k), w)) t := by
  rw [loopN]
  refine wp_bind.mpr ((hbody j t hJ).mono fun r u hp => ?_)
  cases r with
  | ready f =>
      cases f with
      | again j' =>
          obtain ⟨-, hne, k, hw, -⟩ := hp
          exact ⟨hne, k, inner u, hw⟩
      | done a => exact hp
  | pending => exact hp
  | fail e => exact hp
  | panic m => exact hp.elim
  | diverge => exact hp.elim

/-- **A loop whose rounds offer the rest** has the writer write it. -/
theorem Does.loop (hbody : ∀ i s, J i s → wp (body i) (OfferPost inner rest J i s) s) (hJ : J i s) :
    Does (fun n => loopN body n i) inner [.write (rest i s)] (fun t => ∃ j, J j t) s := by
  -- What the last round decides, the loop does.
  have hlast : ∀ {m j t r u}, (∀ n, loopN body (n + m) i s = loopN body n j t) →
      loopN body 1 j t = (r, u) → r ≠ .diverge → Returns (fun n => loopN body n i) s r u :=
    fun {m j t r u} hn hl hr => ⟨hr, 1 + m, (hn 1).trans hl⟩
  constructor
  · rintro t ⟨-, n, hn⟩
    obtain ⟨ho, hj⟩ := wp_elim (offered_of_loopN hbody n hJ) hn
    exact ⟨⟨inner t, ho, rfl⟩, hj⟩
  · rintro e t ⟨-, n, hn⟩
    obtain ⟨w', bs', ho, hne, hw⟩ := wp_elim (offered_of_loopN hbody n hJ) hn
    exact .inl ⟨w', bs', e, inner t, ho, hne, hw⟩
  · rintro m t ⟨-, n, hn⟩
    exact wp_elim (offered_of_loopN hbody n hJ) hn
  · rintro w ⟨w₁, ho, rfl⟩
    obtain ⟨m, j, t, hJt, hi, hr, hn⟩ := loopN_of_offered hbody ho hJ rfl rfl
    rcases hl : loopN body 1 j t with ⟨r, u⟩
    have hp := wp_elim (last_round hbody hJt) hl
    cases r with
    | ready a =>
        obtain ⟨-, rfl⟩ := hp
        exact ⟨u, hlast hn hl (by simp), hi⟩
    | pending => exact absurd hr hp.1
    | fail e => exact absurd hr hp.1
    | panic m => exact hp.elim
    | diverge => exact absurd hr hp.1
  · rintro (⟨w', bs', e, w₁, ho, hne, hw⟩ | ⟨w₁, -, hf⟩)
    · obtain ⟨m, j, t, hJt, rfl, rfl, hn⟩ := loopN_of_offered hbody ho hJ rfl rfl
      rcases hl : loopN body 1 j t with ⟨r, u⟩
      have hp := wp_elim (last_round hbody hJt) hl
      cases r with
      | ready a => exact absurd hp.1 hne
      | pending => cases hw.symm.trans hp.2
      | fail e' => exact ⟨e', u, hlast hn hl (by simp)⟩
      | panic m => exact hp.elim
      | diverge =>
          obtain ⟨-, k, w, hw'⟩ := hp
          cases hw.symm.trans hw'
    · exact hf.elim
  · intro hs
    have hends := Job.ends_of_not_stalls fun h => hs (.inl h)
    obtain ⟨m, j, t, hJt, hn, hno⟩ : ∃ m j t, J j t ∧
        (∀ n, loopN body (n + m) i s = loopN body n j t) ∧
        (rest j t ≠ [] → ∀ k w, pollWrite (inner t) (rest j t) ≠ (some (.ok k), w)) := by
      rcases hends with ⟨w', ho⟩ | ⟨w', bs', ho, -, hw⟩
      · obtain ⟨m, j, t, hJt, -, hr, hn⟩ := loopN_of_offered hbody ho hJ rfl rfl
        exact ⟨m, j, t, hJt, hn, fun hne => absurd hr hne⟩
      · obtain ⟨m, j, t, hJt, rfl, rfl, hn⟩ := loopN_of_offered hbody ho hJ rfl rfl
        refine ⟨m, j, t, hJt, hn, fun _ k w hk => ?_⟩
        rcases hw with ⟨w₁, hw⟩ | ⟨e, w₁, hw⟩
        · cases hw.symm.trans hk
        · cases hw.symm.trans hk
    rcases hl : loopN body 1 j t with ⟨r, u⟩
    have hp := wp_elim (last_round hbody hJt) hl
    refine ⟨r, u, hlast hn hl ?_⟩
    rintro rfl
    obtain ⟨hne, k, w, hw⟩ := hp
    exact hno hne k w hw

end HreqH1
