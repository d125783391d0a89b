import HreqH1.Concurrent.Channel

/-!
# Concurrent — Closing

Whether the `Receiver` of a channel of `src/mpsc.rs` learns that the last `Sender` is gone.
`Sender::drop` wakes everyone before its `Weak` is released, so a poll between the two sees a channel
that is not closed yet, and nothing wakes it later (`close_missed`).  Where no poll falls there, the
close is seen (`close_seen`).
-/

namespace HreqH1.Channel
open PollM Runs

variable {α : Type}

/-- The `Receiver`'s last poll was `Pending`, and its waker is registered and has not been woken
since. -/
def Waits (w : World α) : Prop :=
  ∃ cx n, w.waiting = some (cx, n) ∧ cx ∈ w.chan.wakers ∧ cx ∉ w.chan.woken.drop n

/-- The channel is closed and empty, and nobody has told the `Receiver`. -/
def CloseMissed (w : World α) : Prop :=
  (∀ s ∈ w.senders, s = .gone) ∧ w.chan.queue = [] ∧ Waits w

/-- The `Sender` has yet to wake everyone. -/
def SenderAt.wakes (s : SenderAt α) : Prop := s ≠ .woken ∧ s ≠ .gone

instance (s : SenderAt α) [DecidableEq α] : Decidable s.wakes := inferInstanceAs (Decidable (_ ∧ _))

/-- A poll of an empty channel finds it closed, or a `Sender` that has yet to wake everyone. -/
def Told (w : World α) (a : Action α) : Prop :=
  ∀ cx, a = .pollRecv cx → w.receiver = .held → w.chan.queue = [] → w.chan.senders ≠ 0 →
    ∃ s ∈ w.senders, s.wakes

/-- A `Receiver` that waits has been woken, or will be. -/
def WillWake (w : World α) : Prop :=
  ∀ cx n, w.waiting = some (cx, n) →
    cx ∈ w.chan.woken.drop n ∨
      n ≤ w.chan.woken.length ∧ cx ∈ w.chan.wakers ∧ w.receiver = .held ∧ ∃ s ∈ w.senders, s.wakes

theorem WillWake.not_missed {w : World α} (h : WillWake w) : ¬ CloseMissed w := by
  rintro ⟨hgone, -, cx, n, hw, -, hwoken⟩
  rcases h cx n hw with hin | ⟨-, -, -, s, hs, hwakes⟩
  · exact hwoken hin
  · exact hwakes.2 (hgone s hs)

theorem Counted.alive {w : World α} (h : Counted w) (hr : w.receiver = .held) :
    w.alive = true := by
  have h1 : w.chan.receivers = 1 := by
    rw [h.receivers, hr]
    rfl
  rw [World.alive, h1]
  rfl

theorem Steps.willWake {w w' : World α} {a : Action α} {o : Obs α} (h : Steps w a o w')
    (hc : Counted w) (hw : WillWake w) (ht : Told w a) : WillWake w' := by
  intro cx n hwait
  cases h with
  | stay ho hr => exact hw cx n hwait
  | clone =>
      refine (hw cx n hwait).imp id ?_
      rintro ⟨hn, hin, hr, s, hs, hwk⟩
      exact ⟨hn, hin, hr, s, List.mem_append_left _ hs, hwk⟩
  | go hs hne hne' hg =>
      refine (hw cx n hwait).imp id ?_
      rintro ⟨hn, hin, hr, _⟩
      exact ⟨hn, hin, hr, _, mem_set_self hs, hg, hne'⟩
  | enqueue hs =>
      refine .inl (Chan.mem_woken_enqueue _ ((hw cx n hwait).imp id fun h => ⟨h.1, h.2.1⟩))
  | register cx' =>
      refine (hw cx n hwait).imp id ?_
      rintro ⟨hn, hin, h⟩
      exact ⟨hn, List.mem_append_left _ hin, h⟩
  | wake hs ha => exact .inl (Chan.mem_woken ((hw cx n hwait).imp id fun h => ⟨h.1, h.2.1⟩))
  | unheard hs ha =>
      rcases hw cx n hwait with hin | ⟨-, -, hr, -⟩
      · exact .inl hin
      · rw [hc.alive hr] at ha
        cases ha
  | release hs =>
      refine (hw cx n hwait).imp id ?_
      rintro ⟨hn, hin, hr, s, hmem, hwk⟩
      exact ⟨hn, hin, hr, s, mem_set_of_ne hmem hs hwk.1, hwk⟩
  | recv hr hq => cases hwait
  | closed hr hq h0 => cases hwait
  | @wait cx' hr hq h0 =>
      obtain ⟨rfl, rfl⟩ : cx' = cx ∧ w.chan.woken.length = n := by
        simpa using hwait
      exact .inr ⟨Nat.le_refl _, List.mem_append_right _ (List.mem_singleton.mpr rfl), hr,
        ht cx' rfl hr hq h0⟩
  | close hr => exact .inl (Chan.mem_woken ((hw cx n hwait).imp id fun h => ⟨h.1, h.2.1⟩))
  | drop hr =>
      rcases hw cx n hwait with hin | ⟨-, -, hr', -⟩
      · exact .inl hin
      · cases hr.symm.trans hr'

/-- **The close is seen** in every run in which no poll of the empty channel falls between the last
`Sender`'s `wake_all` and the release of its `Weak`. -/
theorem close_seen (bound : Nat) {as : List (Action α)}
    (h : Along step Told as (World.new bound)) :
    ¬ CloseMissed (after step as (World.new bound)) := by
  have hI : Counted (after step as (World.new bound)) ∧ WillWake (after step as (World.new bound)) :=
    run_invariant (I := fun w => Counted w ∧ WillWake w)
      (fun w a hw ht => ⟨(step_steps a w).counted hw.1,
        (step_steps a w).willWake hw.1 hw.2 ht⟩)
      h ⟨counted_new bound, fun _ _ h => by cases h⟩
  exact hI.2.not_missed

/-- A run with a `Sender` that is cloned and dropped while the `Receiver` waits. -/
theorem close_seen_clone :
    ¬ CloseMissed (after step
      [.clone 0, .pollRecv 7, .dropSender 0, .pollRecv 7, .releaseSender 0, .dropSender 1,
        .releaseSender 1]
      (World.new 1 : World Nat)) :=
  close_seen 1 (by
    refine ⟨?_, fun cx h _ _ _ => ⟨.held, by decide, by decide⟩, ?_,
      fun cx h _ _ _ => ⟨.held, by decide, by decide⟩, ?_, ?_, ?_, trivial⟩
    all_goals rintro _ ⟨⟩)

/-- **The close is missed**: the `Receiver` polls after `wake_all`, and before the `Weak` is
released. -/
theorem close_missed :
    CloseMissed (after step [.dropSender 0, .pollRecv 7, .releaseSender 0]
      (World.new 1 : World Nat)) :=
  ⟨by decide, by decide, 7, 0, by decide, by decide, by decide⟩

end HreqH1.Channel
