import HreqH1.Concurrent.Channel

/-!
# Concurrent — Accept

`SyncDriveExternal::poll_pending_external` and the threads that drop the handles of a request.  Each
handle holds a `SyncDriveExternal`: a clone of the counted `Arc`, and a `Sender`.  Its drop lets go of
the one, and then wakes everyone with the other.  `accept` reads the count, and registers only after.

Between the two the last handle can go, and then nothing wakes `accept` (`accept_asleep`); where that
does not happen it is woken (`accept_woken_iff`).
-/

namespace HreqH1.Accept
open PollM Runs

/-- Where the thread with a handle is. -/
inductive HandleAt where
  | held
  /-- The count is decremented. -/
  | released
  | gone
  deriving DecidableEq

/-- Where a poll of `accept` is. -/
inductive PollAt where
  | idle
  /-- A count that is not one has been read. -/
  | counted (cx : Waker)
  deriving DecidableEq

/-- `count` is `count_external`, and `chan` the channel the `SyncDriveExternal`s hold the `Sender`s
of.  `waiting` is the last poll of `accept` where that was `Pending` for a handle: its waker, and how
many had been woken by then. -/
structure World where
  count : Nat
  chan : Chan Unit
  handles : List HandleAt
  poll : PollAt
  waiting : Option (Waker × Nat)
  deriving DecidableEq

/-- A `Connection`, with its own `SyncDriveExternal`. -/
def World.new : World := ⟨1, .new 1, [], .idle, none⟩

inductive Action where
  /-- `accept` reads the count; where it goes on, `n` handles are given out. -/
  | readCount (cx : Waker) (n : Nat)
  /-- `accept` polls the channel. -/
  | register
  | clone (i : Nat)
  /-- The drop of a handle decrements the count. -/
  | release (i : Nat)
  /-- And drops the `Sender`. -/
  | dropSender (i : Nat)
  deriving DecidableEq

inductive Obs where
  | polled (r : Outcome Unit Unit)
  | idle
  deriving DecidableEq

namespace World

def setHandle (i : Nat) (h : HandleAt) (w : World) : World := { w with handles := w.handles.set i h }

/-- `n` clones of the `SyncDriveExternal`. -/
def give (n : Nat) (w : World) : World :=
  { w with
    count := w.count + n
    chan := { w.chan with senders := w.chan.senders + n }
    handles := w.handles ++ List.replicate n .held }

end World

/-- A step of a thread; one that is not where it would be taken is none. -/
def step : Action → World → Obs × World
  | .readCount cx n, w =>
      match w.poll with
      | .idle =>
          if w.count = 1 then (.polled (.ready ()), { w.give n with waiting := none })
          else (.idle, { w with poll := .counted cx })
      | .counted _ => (.idle, w)
  | .register, w =>
      match w.poll with
      | .counted cx =>
          match (Chan.pollRecv cx true w.chan : Outcome Unit (Option Unit) × Chan Unit) with
          | (.pending, chan) =>
              (.polled .pending,
                { w with chan := chan, poll := .idle, waiting := some (cx, w.chan.woken.length) })
          | (_, chan) =>
              (.polled (.panic "internal error: entered unreachable code"),
                { w with chan := chan, poll := .idle })
      | .idle => (.idle, w)
  | .clone i, w =>
      match w.handles[i]? with
      | some .held => (.idle, w.give 1)
      | _ => (.idle, w)
  | .release i, w =>
      match w.handles[i]? with
      | some .held => (.idle, { w with count := w.count - 1 }.setHandle i .released)
      | _ => (.idle, w)
  | .dropSender i, w =>
      match w.handles[i]? with
      | some .released => (.idle, { w with chan := w.chan.dropSender }.setHandle i .gone)
      | _ => (.idle, w)

/-- All handles are gone, and `accept` is `Pending` with its waker registered and not woken since. -/
def Asleep (w : World) : Prop :=
  (∀ h ∈ w.handles, h = .gone) ∧
    ∃ cx n, w.waiting = some (cx, n) ∧ cx ∈ w.chan.wakers ∧ cx ∉ w.chan.woken.drop n

/-- A handle is there while `accept` registers. -/
def Watched (w : World) (a : Action) : Prop :=
  a = .register → w.poll ≠ .idle → ∃ h ∈ w.handles, h ≠ .gone

/-- `accept` has been woken since its last poll, or a handle will do it. -/
def WillWake (w : World) : Prop :=
  ∀ cx n, w.waiting = some (cx, n) →
    cx ∈ w.chan.woken.drop n ∨
      n ≤ w.chan.woken.length ∧ cx ∈ w.chan.wakers ∧ ∃ h ∈ w.handles, h ≠ .gone

theorem WillWake.not_asleep {w : World} (h : WillWake w) : ¬ Asleep w := by
  rintro ⟨hgone, cx, n, hw, -, hwoken⟩
  rcases h cx n hw with hin | ⟨-, -, s, hs, hne⟩
  · exact hwoken hin
  · exact hne (hgone s hs)

/-- The handle has its `Sender`. -/
def HandleAt.here : HandleAt → Bool
  | .gone => false
  | _ => true

/-- The channel is open, and nothing is ever sent on it. -/
structure Open (w : World) : Prop where
  queue : w.chan.queue = []
  receivers : w.chan.receivers = 1
  senders : w.chan.senders = 1 + w.handles.countP HandleAt.here

theorem open_new : Open .new := ⟨rfl, rfl, rfl⟩

section Steps
variable {w : World}

theorem Open.give (h : Open w) (n : Nat) : Open (w.give n) where
  queue := h.queue
  receivers := h.receivers
  senders := by
    show w.chan.senders + n = 1 + (w.handles ++ List.replicate n HandleAt.held).countP HandleAt.here
    rw [List.countP_append, List.countP_replicate, h.senders, Nat.add_assoc]
    rfl

/-- A poll of the channel finds nothing, and registers. -/
theorem Open.pollRecv (h : Open w) (cx : Waker) :
    (Chan.pollRecv cx true w.chan : Outcome Unit (Option Unit) × Chan Unit) =
      (.pending, w.chan.register cx) := by
  have h0 : w.chan.senders ≠ 0 := by
    rw [h.senders]
    exact Nat.ne_of_gt (Nat.add_pos_left Nat.one_pos _)
  rw [Chan.pollRecv_nil h.queue, if_neg h0]
  rfl

theorem Open.step (h : Open w) (a : Action) : Open (step a w).2 := by
  cases a with
  | readCount cx n =>
      rw [Accept.step]
      split
      · split
        · have hg := h.give n
          exact ⟨hg.queue, hg.receivers, hg.senders⟩
        · exact ⟨h.queue, h.receivers, h.senders⟩
      · exact h
  | register =>
      rw [Accept.step]
      split
      · next cx hp =>
        rw [h.pollRecv cx]
        exact ⟨h.queue, h.receivers, h.senders⟩
      · exact h
  | clone i =>
      rw [Accept.step]
      split
      · exact h.give 1
      · exact h
  | release i =>
      rw [Accept.step]
      split
      · next hi =>
        refine ⟨h.queue, h.receivers, ?_⟩
        show w.chan.senders = 1 + (w.handles.set i .released).countP HandleAt.here
        rw [countP_set_pos hi rfl rfl]
        exact h.senders
      · exact h
  | dropSender i =>
      rw [Accept.step]
      split
      · next hi =>
        have hr : w.chan.receivers ≠ 0 := by
          rw [h.receivers]
          exact Nat.one_ne_zero
        have hd := Chan.dropSender_eq hr
        refine ⟨?_, ?_, ?_⟩
        · show w.chan.dropSender.queue = []
          rw [hd]
          exact h.queue
        · show w.chan.dropSender.receivers = 1
          rw [hd]
          exact h.receivers
        · show w.chan.dropSender.senders = 1 + (w.handles.set i .gone).countP HandleAt.here
          rw [hd]
          show w.chan.senders - 1 = _
          have hlt : (w.handles.set i .gone).countP HandleAt.here + 1 =
              w.handles.countP HandleAt.here := countP_set_neg hi rfl rfl
          rw [h.senders, ← hlt]
          exact Nat.add_sub_cancel (1 + _) 1
      · exact h

theorem WillWake.give (h : WillWake w) (n : Nat) : WillWake (w.give n) := by
  intro cx m hw
  refine (h cx m hw).imp id ?_
  rintro ⟨hn, hin, s, hs, hne⟩
  exact ⟨hn, hin, s, List.mem_append_left _ hs, hne⟩

theorem WillWake.step (h : WillWake w) (ho : Open w) {a : Action} (hw : Watched w a) :
    WillWake (step a w).2 := by
  cases a with
  | readCount cx n =>
      rw [Accept.step]
      split
      · split
        · intro cx m hnone
          cases hnone
        · exact h
      · exact h
  | register =>
      rw [Accept.step]
      split
      · next cx hp =>
        rw [ho.pollRecv cx]
        intro cx' n hwait
        obtain ⟨rfl, rfl⟩ : cx = cx' ∧ w.chan.woken.length = n := by simpa using hwait
        refine .inr ⟨Nat.le_refl _, List.mem_append_right _ (List.mem_singleton.mpr rfl), ?_⟩
        exact hw rfl (hp ▸ (by simp))
      · exact h
  | clone i =>
      rw [Accept.step]
      split
      · exact h.give 1
      · exact h
  | release i =>
      rw [Accept.step]
      split
      · next hi =>
        intro cx n hwait
        refine (h cx n hwait).imp id ?_
        rintro ⟨hn, hin, s, hs, hne⟩
        exact ⟨hn, hin, .released, mem_set_self hi, by simp⟩
      · exact h
  | dropSender i =>
      rw [Accept.step]
      split
      · next hi =>
        intro cx n hwait
        have hr : w.chan.receivers ≠ 0 := by
          rw [ho.receivers]
          exact Nat.one_ne_zero
        refine .inl ?_
        show cx ∈ w.chan.dropSender.woken.drop n
        rw [Chan.dropSender_eq hr]
        exact Chan.mem_woken ((h cx n hwait).imp id fun h => ⟨h.1, h.2.1⟩)
      · exact h

/-- A registration that nobody watches is never heard. -/
theorem asleep_of_not_watched (ho : Open w) {a : Action} (hw : ¬ Watched w a) :
    Asleep (step a w).2 := by
  rw [Watched, Classical.not_imp, Classical.not_imp] at hw
  obtain ⟨rfl, hp, hgone⟩ := hw
  cases hpoll : w.poll with
  | idle => exact absurd hpoll hp
  | counted cx =>
      have hstep : (step .register w).2 = { w with
          chan := w.chan.register cx, poll := .idle, waiting := some (cx, w.chan.woken.length) } := by
        rw [Accept.step, hpoll]
        dsimp only
        rw [ho.pollRecv cx]
      rw [hstep]
      refine ⟨fun h hh => Classical.byContradiction fun hne => hgone ⟨h, hh, hne⟩,
        cx, w.chan.woken.length, rfl, List.mem_append_right _ (List.mem_singleton.mpr rfl), ?_⟩
      show cx ∉ w.chan.woken.drop w.chan.woken.length
      rw [List.drop_length]
      exact List.not_mem_nil

end Steps

/-- **`accept` is woken** in exactly the runs in which it registers only while a handle is there:
between its reading of the count and its registration, the last one has not gone. -/
theorem accept_woken_iff (as : List Action) :
    Along step (fun w a => ¬ Asleep (step a w).2) as .new ↔ Along step Watched as .new := by
  constructor
  · intro h
    refine (along_invariant (I := Open) (fun w a ho _ => ho.step a) h open_new).mono ?_
    exact fun w a h => Classical.byContradiction fun hw => h.2 (asleep_of_not_watched h.1 hw)
  · intro h
    refine (along_invariant (I := fun w => Open w ∧ WillWake w)
      (fun w a hI hw => ⟨hI.1.step a, hI.2.step hI.1 hw⟩) h
      ⟨open_new, fun _ _ h => by cases h⟩).mono ?_
    exact fun w a h => (h.1.2.step h.1.1 h.2).not_asleep

/-- **`accept` stays asleep**: the only handle goes after the count is read. -/
theorem accept_asleep :
    Asleep (after step [.readCount 0 1, .readCount 7 0, .release 0, .dropSender 0, .register] .new) :=
  ⟨by decide, 7, 0, by decide, by decide, by decide⟩

end HreqH1.Accept
