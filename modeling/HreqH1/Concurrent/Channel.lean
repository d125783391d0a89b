import HreqH1.Model.Mpsc
import HreqH1.Support.Runs

/-!
# Concurrent — Channel

One channel of `src/mpsc.rs` and the threads that hold its ends, in any interleaving.  A locked
section is one step.  Beside these stand the steps on the reference counts: `send` upgrades its
`Weak` before it locks and lets go of the `Arc` after, `Sender::drop` wakes everyone before the
`Weak` is released, and `Receiver::drop` clears the queue before its `Arc` is.

`Chan.dropSender` and `Chan.dropReceiver`, which the connections are modelled with, are two of these
steps in one go (`dropSender_eq`, `dropReceiver_eq`).
-/

namespace HreqH1

namespace Chan
variable {α : Type} {c : Chan α}

/-- The locked section of the last `Receiver::drop`. -/
def close (c : Chan α) : Chan α := { c with queue := [], ended := true }.wakeAll

theorem dropSender_eq (h : c.receivers ≠ 0) :
    c.dropSender = { c.wakeAll with senders := c.wakeAll.senders - 1 } := by
  rw [dropSender, if_neg h]

theorem dropReceiver_eq (h : c.receivers = 1) :
    c.dropReceiver = { c.close with receivers := c.close.receivers - 1 } := by
  rw [dropReceiver, if_pos h]
  rfl

theorem mem_drop_append {β : Type} {b : β} {n : Nat} {l : List β} (l' : List β)
    (h : b ∈ l.drop n) : b ∈ (l ++ l').drop n := by
  rw [List.drop_append]
  exact List.mem_append_left _ h

/-- Whoever is registered is woken by `wake_all`. -/
theorem mem_woken {cx : Waker} {n : Nat}
    (h : cx ∈ c.woken.drop n ∨ n ≤ c.woken.length ∧ cx ∈ c.wakers) :
    cx ∈ c.wakeAll.woken.drop n := by
  rcases h with hin | ⟨hn, hin⟩
  · exact mem_drop_append _ hin
  · show cx ∈ (c.woken ++ c.wakers).drop n
    rw [List.drop_append_of_le_length hn]
    exact List.mem_append_right _ hin

theorem mem_woken_enqueue {cx : Waker} {n : Nat} (t : α)
    (h : cx ∈ c.woken.drop n ∨ n ≤ c.woken.length ∧ cx ∈ c.wakers) :
    cx ∈ (c.enqueue t).woken.drop n := by
  rw [Chan.enqueue]
  split
  · exact mem_woken h
  · exact mem_woken (c := { c with queue := c.queue ++ [t], sent := c.sent ++ [t] }) h

end Chan

section Lists
variable {β : Type} {b c d : β} {i : Nat} {l : List β}

/-- Another place of a list is kept by a change. -/
theorem mem_set_of_ne (hb : b ∈ l)
    (hc : l[i]? = some c) (hne : b ≠ c) : b ∈ l.set i d := by
  obtain ⟨j, hj⟩ := List.mem_iff_getElem?.mp hb
  refine List.mem_iff_getElem?.mpr ⟨j, ?_⟩
  have hij : i ≠ j := by
    rintro rfl
    exact hne (Option.some.inj (hj.symm.trans hc))
  rw [List.getElem?_set_ne hij]
  exact hj

theorem mem_set_self (hc : l[i]? = some c) :
    d ∈ l.set i d := by
  obtain ⟨hi, -⟩ := List.getElem?_eq_some_iff.mp hc
  exact List.mem_set hi d

/-- A place that counts, changed to one that does. -/
theorem countP_set_pos {p : β → Bool} (hc : l[i]? = some c) (hp : p c = true) (hd : p d = true) :
    (l.set i d).countP p = l.countP p := by
  obtain ⟨hi, rfl⟩ := List.getElem?_eq_some_iff.mp hc
  rw [List.countP_set hi, if_pos hp, if_pos hd]
  exact Nat.sub_add_cancel (List.countP_pos_iff.mpr ⟨_, List.getElem_mem hi, hp⟩)

/-- And to one that does not. -/
theorem countP_set_neg {p : β → Bool} (hc : l[i]? = some c) (hp : p c = true) (hd : p d = false) :
    (l.set i d).countP p + 1 = l.countP p := by
  obtain ⟨hi, rfl⟩ := List.getElem?_eq_some_iff.mp hc
  rw [List.countP_set hi, if_pos hp, hd]
  exact Nat.sub_add_cancel (List.countP_pos_iff.mpr ⟨_, List.getElem_mem hi, hp⟩)

end Lists

namespace Channel
open PollM

/-- Where the thread with a `Sender` is. -/
inductive SenderAt (α : Type) where
  | held
  /-- In `send`, with an `Arc`. -/
  | sending (t : α)
  /-- In `send`, behind the locked section. -/
  | sent
  /-- In `drop`, behind the locked section. -/
  | woken
  | gone
  deriving DecidableEq

/-- Where the thread with the `Receiver` is. -/
inductive ReceiverAt where
  | held
  /-- In `drop`, behind the locked section. -/
  | closed
  | gone
  deriving DecidableEq

/-- The channel and its threads.  `waiting` is the `Receiver`'s last poll where that was `Pending`:
its waker, and how many had been woken by then. -/
structure World (α : Type) where
  chan : Chan α
  senders : List (SenderAt α)
  receiver : ReceiverAt
  waiting : Option (Waker × Nat)
  deriving DecidableEq

/-- `Receiver::new`. -/
def World.new {α : Type} (bound : Nat) : World α := ⟨.new bound, [.held], .held, none⟩

inductive Action (α : Type) where
  | clone (i : Nat)
  /-- `send` of the `i`-th `Sender`, up to the lock. -/
  | send (i : Nat) (t : α)
  | enqueue (i : Nat)
  /-- The end of `send`. -/
  | sent (i : Nat)
  | pollReady (i : Nat) (cx : Waker)
  | dropSender (i : Nat)
  /-- The release of the `Weak`. -/
  | releaseSender (i : Nat)
  | pollRecv (cx : Waker)
  | dropReceiver
  /-- The release of the `Arc`. -/
  | releaseReceiver
  deriving DecidableEq

inductive Obs (α : Type) where
  /-- `send` has returned `false`. -/
  | refused (t : α)
  /-- `send` will return `true`. -/
  | accepted (t : α)
  | ready (r : Outcome Unit Bool)
  | received (r : Outcome Unit (Option α))
  | idle
  deriving DecidableEq

variable {α : Type}

namespace World

/-- An `Arc` is there to upgrade to. -/
def alive (w : World α) : Bool :=
  w.chan.receivers ≠ 0 || w.senders.any fun
    | .sending _ | .sent => true
    | _ => false

def setSender (i : Nat) (s : SenderAt α) (w : World α) : World α :=
  { w with senders := w.senders.set i s }

end World

/-- A step of a thread; one that is not where it would be taken is none. -/
def step : Action α → World α → Obs α × World α
  | .clone i, w =>
      match w.senders[i]? with
      | some .held =>
          (.idle, { w with chan := w.chan.cloneSender, senders := w.senders ++ [.held] })
      | _ => (.idle, w)
  | .send i t, w =>
      match w.senders[i]? with
      | some .held => if w.alive then (.idle, w.setSender i (.sending t)) else (.refused t, w)
      | _ => (.idle, w)
  | .enqueue i, w =>
      match w.senders[i]? with
      | some (.sending t) =>
          (.accepted t, { w with chan := w.chan.enqueue t }.setSender i .sent)
      | _ => (.idle, w)
  | .sent i, w =>
      match w.senders[i]? with
      | some .sent => (.idle, w.setSender i .held)
      | _ => (.idle, w)
  | .pollReady i cx, w =>
      match w.senders[i]? with
      | some .held =>
          if w.alive then
            let p := Chan.innerPollReady cx true w.chan
            (.ready p.1, { w with chan := p.2 })
          else (.ready (.ready false), w)
      | _ => (.idle, w)
  | .dropSender i, w =>
      match w.senders[i]? with
      | some .held =>
          (.idle, { w with chan := if w.alive then w.chan.wakeAll else w.chan }.setSender i .woken)
      | _ => (.idle, w)
  | .releaseSender i, w =>
      match w.senders[i]? with
      | some .woken =>
          (.idle,
            { w with chan := { w.chan with senders := w.chan.senders - 1 } }.setSender i .gone)
      | _ => (.idle, w)
  | .pollRecv cx, w =>
      match w.receiver with
      | .held =>
          let p := Chan.pollRecv cx true w.chan
          (.received p.1,
            { w with
              chan := p.2
              waiting := match p.1 with
                | .pending => some (cx, w.chan.woken.length)
                | _ => none })
      | _ => (.idle, w)
  | .dropReceiver, w =>
      match w.receiver with
      | .held => (.idle, { w with chan := w.chan.close, receiver := .closed })
      | _ => (.idle, w)
  | .releaseReceiver, w =>
      match w.receiver with
      | .closed =>
          (.idle,
            { w with
              chan := { w.chan with receivers := w.chan.receivers - 1 }
              receiver := .gone })
      | _ => (.idle, w)

/-! ### What a step does -/

/-- What a step comes to. -/
inductive Steps (w : World α) : Action α → Obs α → World α → Prop where
  | stay {a : Action α} {o : Obs α} (ho : ∀ t, o ≠ .accepted t) (hr : ∀ r, o ≠ .received r) :
      Steps w a o w
  | clone {a : Action α} :
      Steps w a .idle { w with chan := w.chan.cloneSender, senders := w.senders ++ [.held] }
  | go {a : Action α} {i : Nat} {s s' : SenderAt α} (hs : w.senders[i]? = some s) (hne : s ≠ .gone)
      (hne' : s' ≠ .gone) (hw : s' ≠ .woken) : Steps w a .idle (w.setSender i s')
  | enqueue {a : Action α} {i : Nat} {t : α} (hs : w.senders[i]? = some (.sending t)) :
      Steps w a (.accepted t) ({ w with chan := w.chan.enqueue t }.setSender i .sent)
  | register {a : Action α} {o : Outcome Unit Bool} (cx : Waker) :
      Steps w a (.ready o) { w with chan := w.chan.register cx }
  | wake {a : Action α} {i : Nat} (hs : w.senders[i]? = some .held) (ha : w.alive = true) :
      Steps w a .idle ({ w with chan := w.chan.wakeAll }.setSender i .woken)
  | unheard {a : Action α} {i : Nat} (hs : w.senders[i]? = some .held) (ha : w.alive = false) :
      Steps w a .idle (w.setSender i .woken)
  | release {a : Action α} {i : Nat} (hs : w.senders[i]? = some .woken) :
      Steps w a .idle
        ({ w with chan := { w.chan with senders := w.chan.senders - 1 } }.setSender i .gone)
  | recv {cx : Waker} {t : α} {q : List α} (hr : w.receiver = .held) (hq : w.chan.queue = t :: q) :
      Steps w (.pollRecv cx) (.received (.ready (some t)))
        { w with chan := { w.chan with queue := q }.wakeAll, waiting := none }
  | closed {cx : Waker} (hr : w.receiver = .held) (hq : w.chan.queue = [])
      (h0 : w.chan.senders = 0) :
      Steps w (.pollRecv cx) (.received (.ready none))
        { w with chan := w.chan.register cx, waiting := none }
  | wait {cx : Waker} (hr : w.receiver = .held) (hq : w.chan.queue = [])
      (h0 : w.chan.senders ≠ 0) :
      Steps w (.pollRecv cx) (.received .pending)
        { w with chan := w.chan.register cx, waiting := some (cx, w.chan.woken.length) }
  | close {a : Action α} (hr : w.receiver = .held) :
      Steps w a .idle { w with chan := w.chan.close, receiver := .closed }
  | drop {a : Action α} (hr : w.receiver = .closed) :
      Steps w a .idle
        { w with
          chan := { w.chan with receivers := w.chan.receivers - 1 }
          receiver := .gone }

theorem steps_idle (a : Action α) (w : World α) : Steps w a .idle w := .stay (by simp) (by simp)

theorem step_steps (a : Action α) (w : World α) : Steps w a (step a w).1 (step a w).2 := by
  cases a with
  | clone i =>
      rw [step]
      split
      · exact .clone
      · exact steps_idle _ w
  | send i t =>
      rw [step]
      split
      · next hs =>
        split
        · exact .go hs (by simp) (by simp) (by simp)
        · exact .stay (by simp) (by simp)
      · exact steps_idle _ w
  | enqueue i =>
      rw [step]
      split
      · next hs => exact .enqueue hs
      · exact steps_idle _ w
  | sent i =>
      rw [step]
      split
      · next hs => exact .go hs (by simp) (by simp) (by simp)
      · exact steps_idle _ w
  | pollReady i cx =>
      rw [step]
      split
      · split
        · rw [Chan.innerPollReady]
          split
          · exact .register cx
          · exact .stay (by simp) (by simp)
        · exact .stay (by simp) (by simp)
      · exact steps_idle _ w
  | dropSender i =>
      rw [step]
      split
      · next hs =>
        cases ha : w.alive with
        | true => exact .wake hs ha
        | false => exact .unheard hs ha
      · exact steps_idle _ w
  | releaseSender i =>
      rw [step]
      split
      · next hs => exact .release hs
      · exact steps_idle _ w
  | pollRecv cx =>
      rw [step]
      split
      · next hr =>
        cases hq : w.chan.queue with
        | cons t q =>
            rw [Chan.pollRecv_cons hq]
            exact .recv hr hq
        | nil =>
            rw [Chan.pollRecv_nil hq]
            by_cases h0 : w.chan.senders = 0
            · simp only [h0, if_true]
              exact .closed hr hq h0
            · simp only [h0, if_false, if_true]
              exact .wait hr hq h0
      · exact steps_idle _ w
  | dropReceiver =>
      rw [step]
      split
      · next hr => exact .close hr
      · exact steps_idle _ w
  | releaseReceiver =>
      rw [step]
      split
      · next hr => exact .drop hr
      · exact steps_idle _ w

/-! ### The reference counts -/

/-- The `Sender` has its `Weak`. -/
def SenderAt.here : SenderAt α → Bool
  | .gone => false
  | _ => true

@[simp] theorem SenderAt.here_eq_true {s : SenderAt α} : s.here = true ↔ s ≠ .gone := by
  cases s <;> simp [here]

/-- The `Weak`s. -/
def weaks (senders : List (SenderAt α)) : Nat := senders.countP SenderAt.here

theorem weaks_eq_zero {senders : List (SenderAt α)} : weaks senders = 0 ↔ ∀ s ∈ senders, s = .gone := by
  rw [weaks, List.countP_eq_zero]
  simp only [SenderAt.here_eq_true, ne_eq, Classical.not_not]

/-- The counts are those of the threads. -/
structure Counted (w : World α) : Prop where
  senders : w.chan.senders = weaks w.senders
  receivers : w.chan.receivers = if w.receiver = .gone then 0 else 1

theorem counted_new (bound : Nat) : Counted (World.new bound : World α) := ⟨rfl, rfl⟩

theorem Steps.counted {w w' : World α} {a : Action α} {o : Obs α} (h : Steps w a o w') (hw : Counted w) :
    Counted w' := by
  cases h with
  | stay ho hr => exact hw
  | clone =>
      refine ⟨?_, hw.receivers⟩
      show w.chan.senders + 1 = _
      rw [hw.senders, weaks, weaks, List.countP_append]
      rfl
  | go hs hne hne' hg => exact 
      ⟨hw.senders.trans (countP_set_pos hs (SenderAt.here_eq_true.mpr hne)
        (SenderAt.here_eq_true.mpr hne')).symm, hw.receivers⟩
  | enqueue hs =>
      refine ⟨?_, ?_⟩
      · show (w.chan.enqueue _).senders = weaks (w.senders.set _ .sent)
        rw [Chan.senders_enqueue, weaks, countP_set_pos hs rfl rfl]
        exact hw.senders
      · show (w.chan.enqueue _).receivers = _
        rw [Chan.receivers_enqueue]
        exact hw.receivers
  | register cx => exact ⟨hw.senders, hw.receivers⟩
  | wake hs ha =>
      exact ⟨hw.senders.trans (countP_set_pos hs rfl rfl).symm, hw.receivers⟩
  | unheard hs ha =>
      exact ⟨hw.senders.trans (countP_set_pos hs rfl rfl).symm, hw.receivers⟩
  | release hs =>
      refine ⟨?_, hw.receivers⟩
      show w.chan.senders - 1 = weaks (w.senders.set _ .gone)
      have hlt : (w.senders.set _ .gone).countP SenderAt.here + 1 = w.senders.countP SenderAt.here :=
        countP_set_neg hs rfl rfl
      rw [hw.senders, weaks, ← hlt]
      rfl
  | recv hr hq => exact ⟨hw.senders, hw.receivers⟩
  | closed hr hq h0 => exact ⟨hw.senders, hw.receivers⟩
  | wait hr hq h0 => exact ⟨hw.senders, hw.receivers⟩
  | close hr =>
      refine ⟨hw.senders, ?_⟩
      show w.chan.receivers = 1
      rw [hw.receivers, hr]
      rfl
  | drop hr =>
      refine ⟨hw.senders, ?_⟩
      show w.chan.receivers - 1 = 0
      rw [hw.receivers, hr]
      rfl

/-- Where the threads are is what the code sees. -/
theorem Counted.senders_eq_zero {w : World α} (h : Counted w) :
    w.chan.senders = 0 ↔ ∀ s ∈ w.senders, s = .gone := by
  rw [h.senders, weaks_eq_zero]

end Channel

end HreqH1
