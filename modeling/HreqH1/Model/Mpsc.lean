import HreqH1.Support.Poll

/-!
# Model — Mpsc

`src/mpsc.rs`.  A channel is its locked `Inner` with the counts of its two kinds of handles: the
`Weak` references the `Sender`s hold and the `Receiver`s.  Every function here is one locked
section, or a section and the count beside it.

A waker is the task it wakes.  Two history variables the source does not have: `sent`, the items
the queue has taken, and `woken`, the tasks that have been woken, oldest first.
-/

namespace HreqH1
open PollM

abbrev Waker : Type := Nat

structure Chan (α : Type) where
  queue : List α
  ended : Bool
  bound : Nat
  wakers : List Waker
  senders : Nat
  receivers : Nat
  sent : List α
  woken : List Waker
  deriving DecidableEq

namespace Chan
variable {α ε : Type}

/-- `Receiver::new`: one `Sender` and one `Receiver`. -/
def new (bound : Nat) : Chan α := ⟨[], false, bound, [], 1, 1, [], []⟩

/-- `Inner::wake_all`. -/
def wakeAll (c : Chan α) : Chan α := { c with wakers := [], woken := c.woken ++ c.wakers }

/-- `Inner::enqueue`. -/
def enqueue (t : α) (c : Chan α) : Chan α :=
  (if c.ended then c else { c with queue := c.queue ++ [t], sent := c.sent ++ [t] }).wakeAll

def register (cx : Waker) (c : Chan α) : Chan α := { c with wakers := c.wakers ++ [cx] }

/-- `Inner::poll_ready`. -/
def innerPollReady (cx : Waker) (reg : Bool) : PollM ε (Chan α) Bool := fun c =>
  if !c.ended && c.queue.length ≥ c.bound then
    (.pending, if reg then c.register cx else c)
  else (.ready true, c)

/-- `Inner::poll_dequeue`. -/
def innerPollDequeue (cx : Waker) (reg : Bool) : PollM ε (Chan α) (Option α) := fun c =>
  match c.queue with
  | t :: queue => (.ready (some t), { c with queue := queue }.wakeAll)
  | [] => (.pending, if reg then c.register cx else c)

/-- `Receiver::poll_recv`. -/
def pollRecv (cx : Waker) (reg : Bool) : PollM ε (Chan α) (Option α) := do
  match ← poll (innerPollDequeue cx reg) with
  | none => if (← get).senders = 0 then pure none else pend
  | some r => pure r

/-- `Sender::poll_ready`. -/
def pollReady (cx : Waker) (reg : Bool) : PollM ε (Chan α) Bool := do
  if (← get).receivers = 0 then pure false else innerPollReady cx reg

/-- `Sender::send`. -/
def send (t : α) : PollM ε (Chan α) Bool := do
  if (← get).receivers = 0 then pure false
  else
    modify (enqueue t)
    pure true

/-- `Sender::len`. -/
def len (c : Chan α) : Nat := if c.receivers = 0 then 0 else c.queue.length

/-- `Sender::is_empty`. -/
def isEmpty (c : Chan α) : Bool := c.len == 0

/-- `Sender::clone`. -/
def cloneSender (c : Chan α) : Chan α := { c with senders := c.senders + 1 }

/-- `Sender::drop`, and the release of its `Weak`. -/
def dropSender (c : Chan α) : Chan α :=
  let c := if c.receivers = 0 then c else c.wakeAll
  { c with senders := c.senders - 1 }

/-- `Receiver::drop`, and the release of its `Arc`. -/
def dropReceiver (c : Chan α) : Chan α :=
  let c := if c.receivers = 1 then { c with queue := [], ended := true } else c
  { c.wakeAll with receivers := c.receivers - 1 }

/-- `Sender::send`, on the channel. -/
def offer (t : α) (c : Chan α) : Chan α := if c.receivers = 0 then c else c.enqueue t

/-! ### What the polls come to -/

/-- Only wakers have come and gone. -/
structure Quiet (c c' : Chan α) : Prop where
  queue : c'.queue = c.queue
  ended : c'.ended = c.ended
  bound : c'.bound = c.bound
  senders : c'.senders = c.senders
  receivers : c'.receivers = c.receivers
  sent : c'.sent = c.sent

/-- The first item has been taken. -/
structure Takes (t : α) (c c' : Chan α) : Prop where
  queue : c.queue = t :: c'.queue
  ended : c'.ended = c.ended
  bound : c'.bound = c.bound
  senders : c'.senders = c.senders
  receivers : c'.receivers = c.receivers
  sent : c'.sent = c.sent

/-- There is a `Receiver`, and the queue is not full. -/
def Open (c : Chan α) : Prop := c.receivers ≠ 0 ∧ (c.ended = true ∨ c.queue.length < c.bound)

instance (c : Chan α) : Decidable c.Open := inferInstanceAs (Decidable (_ ∧ _))

variable {c : Chan α} {cx : Waker} {reg : Bool}

theorem pollReady_closed (hc : c.receivers = 0) :
    (pollReady cx reg : PollM ε _ Bool) c = (.ready false, c) := by
  simp [pollReady, hc]

theorem pollReady_full (hc : c.receivers ≠ 0) (ho : ¬ c.Open) :
    (pollReady cx reg : PollM ε _ Bool) c = (.pending, if reg then c.register cx else c) := by
  simp only [Open, not_and, not_or, Bool.not_eq_true, Nat.not_lt] at ho
  simp [pollReady, innerPollReady, hc, ho hc]

theorem pollReady_open (hc : c.Open) :
    (pollReady cx reg : PollM ε _ Bool) c = (.ready true, c) := by
  have : (!c.ended && decide (c.queue.length ≥ c.bound)) = false := by
    rcases hc.2 with h | h <;> simp [h]
  simp [pollReady, innerPollReady, hc.1, this]

theorem send_closed (hc : c.receivers = 0) (t : α) :
    (send t : PollM ε _ Bool) c = (.ready false, c) := by
  simp [send, hc]

theorem send_alive (hc : c.receivers ≠ 0) (t : α) :
    (send t : PollM ε _ Bool) c = (.ready true, c.enqueue t) := by
  simp [send, hc]

theorem pollRecv_cons {t : α} {q : List α} (h : c.queue = t :: q) :
    (pollRecv cx reg : PollM ε _ (Option α)) c =
      (.ready (some t), { c with queue := q }.wakeAll) := by
  have hd : (poll (innerPollDequeue cx reg) : PollM ε _ _) c =
      (.ready (some (some t)), { c with queue := q }.wakeAll) := by
    simp [poll, innerPollDequeue, h, Outcome.map]
  simp [pollRecv, run_bind_ready hd]

theorem pollRecv_nil (h : c.queue = []) :
    (pollRecv cx reg : PollM ε _ (Option α)) c =
      (if c.senders = 0 then .ready none else .pending, if reg then c.register cx else c) := by
  have hd : (poll (innerPollDequeue cx reg) : PollM ε _ (Option (Option α))) c =
      (.ready none, if reg then c.register cx else c) := by
    simp [poll, innerPollDequeue, h]
  have hs : (if reg then c.register cx else c).senders = c.senders := by split <;> rfl
  rw [pollRecv, run_bind_ready hd]
  by_cases h0 : c.senders = 0 <;> simp [hs, h0]

theorem quiet_register (reg : Bool) : c.Quiet (if reg then c.register cx else c) := by
  cases reg <;> exact ⟨rfl, rfl, rfl, rfl, rfl, rfl⟩

theorem Quiet.refl (c : Chan α) : c.Quiet c := ⟨rfl, rfl, rfl, rfl, rfl, rfl⟩

/-- What `poll_recv` comes to. -/
theorem pollRecv_spec : wp (pollRecv cx reg : PollM ε _ (Option α)) (fun r c' => match r with
    | .ready (some t) => c.Takes t c'
    | .ready none => c.Quiet c' ∧ c.queue = [] ∧ c.senders = 0
    | .pending => c.Quiet c' ∧ c.queue = [] ∧ c.senders ≠ 0
    | _ => False) c := by
  cases hq : c.queue with
  | cons t q => exact wp_of_eq (pollRecv_cons hq) ⟨hq, rfl, rfl, rfl, rfl, rfl⟩
  | nil =>
      refine wp_of_eq (pollRecv_nil hq) ?_
      by_cases h0 : c.senders = 0
      · rw [if_pos h0]; exact ⟨quiet_register reg, rfl, h0⟩
      · rw [if_neg h0]; exact ⟨quiet_register reg, rfl, h0⟩

/-- What `poll_ready` comes to. -/
theorem pollReady_spec : wp (pollReady cx reg : PollM ε _ Bool) (fun r c' => match r with
    | .ready b => c' = c ∧ (if b then c.Open else c.receivers = 0)
    | .pending => c.Quiet c' ∧ c.receivers ≠ 0 ∧ ¬ c.Open
    | _ => False) c := by
  by_cases h0 : c.receivers = 0
  · exact wp_of_eq (pollReady_closed h0) ⟨rfl, h0⟩
  · by_cases ho : c.Open
    · exact wp_of_eq (pollReady_open ho) ⟨rfl, ho⟩
    · exact wp_of_eq (pollReady_full h0 ho) ⟨quiet_register reg, h0, ho⟩

theorem send_eq (t : α) :
    (send t : PollM ε _ Bool) c = (.ready (decide (c.receivers ≠ 0)), c.offer t) := by
  by_cases h0 : c.receivers = 0
  · rw [send_closed h0, offer, if_pos h0]; simp [h0]
  · rw [send_alive h0, offer, if_neg h0]; simp [h0]

/-- A `Receiver` changes neither what has been sent nor who is there. -/
theorem pollRecv_keeps :
    ((pollRecv cx reg : PollM ε _ (Option α)) c).2.sent = c.sent ∧
      ((pollRecv cx reg : PollM ε _ (Option α)) c).2.ended = c.ended ∧
      ((pollRecv cx reg : PollM ε _ (Option α)) c).2.receivers = c.receivers := by
  cases hq : c.queue with
  | nil => rw [pollRecv_nil hq]; cases reg <;> exact ⟨rfl, rfl, rfl⟩
  | cons t q => rw [pollRecv_cons hq]; exact ⟨rfl, rfl, rfl⟩

theorem dropReceiver_sent : c.dropReceiver.sent = c.sent := by
  rw [dropReceiver]
  split <;> rfl

/-- A channel that has ended has no `Receiver`. -/
theorem dropReceiver_dead (h : c.ended = true → c.receivers = 0)
    (he : c.dropReceiver.ended = true) : c.dropReceiver.receivers = 0 := by
  rw [dropReceiver] at he ⊢
  by_cases h1 : c.receivers = 1
  · rw [if_pos h1]; show c.receivers - 1 = 0; rw [h1]
  · rw [if_neg h1] at he ⊢
    show c.receivers - 1 = 0
    rw [h he]

section Fields

@[simp] theorem queue_enqueue (t : α) (h : c.ended = false) :
    (c.enqueue t).queue = c.queue ++ [t] := by simp [enqueue, h, wakeAll]

@[simp] theorem sent_enqueue (t : α) (h : c.ended = false) :
    (c.enqueue t).sent = c.sent ++ [t] := by simp [enqueue, h, wakeAll]

@[simp] theorem ended_enqueue (t : α) : (c.enqueue t).ended = c.ended := by
  unfold enqueue; split <;> simp_all [wakeAll]

@[simp] theorem receivers_enqueue (t : α) : (c.enqueue t).receivers = c.receivers := by
  unfold enqueue; split <;> simp_all [wakeAll]

@[simp] theorem senders_enqueue (t : α) : (c.enqueue t).senders = c.senders := by
  unfold enqueue; split <;> simp_all [wakeAll]

@[simp] theorem bound_enqueue (t : α) : (c.enqueue t).bound = c.bound := by
  unfold enqueue; split <;> simp_all [wakeAll]

theorem mem_enqueue {t u : α} (h : u ∈ (c.enqueue t).queue) : u ∈ c.queue ∨ u = t := by
  unfold enqueue at h
  split at h
  · exact .inl h
  · exact (List.mem_append.mp h).imp id List.mem_singleton.mp

@[simp] theorem queue_dropSender : c.dropSender.queue = c.queue := by
  unfold dropSender; dsimp only; split <;> rfl

@[simp] theorem ended_dropSender : c.dropSender.ended = c.ended := by
  unfold dropSender; dsimp only; split <;> rfl

@[simp] theorem receivers_dropSender : c.dropSender.receivers = c.receivers := by
  unfold dropSender; dsimp only; split <;> rfl

@[simp] theorem senders_dropSender : c.dropSender.senders = c.senders - 1 := by
  unfold dropSender; dsimp only; split <;> rfl

@[simp] theorem sent_dropSender : c.dropSender.sent = c.sent := by
  unfold dropSender; dsimp only; split <;> rfl

theorem mem_dropReceiver {t : α} (h : t ∈ c.dropReceiver.queue) : t ∈ c.queue := by
  unfold dropReceiver at h
  dsimp only at h
  split at h
  · cases h
  · exact h

@[simp] theorem receivers_dropReceiver : c.dropReceiver.receivers = c.receivers - 1 := by
  unfold dropReceiver; dsimp only; split <;> rfl

@[simp] theorem senders_dropReceiver : c.dropReceiver.senders = c.senders := by
  unfold dropReceiver; dsimp only; split <;> rfl

@[simp] theorem senders_offer (t : α) : (c.offer t).senders = c.senders := by
  unfold offer; split <;> simp

@[simp] theorem queue_register : (c.register cx).queue = c.queue := rfl
@[simp] theorem ended_register : (c.register cx).ended = c.ended := rfl
@[simp] theorem senders_register : (c.register cx).senders = c.senders := rfl
@[simp] theorem receivers_register : (c.register cx).receivers = c.receivers := rfl
@[simp] theorem sent_register : (c.register cx).sent = c.sent := rfl
@[simp] theorem bound_register : (c.register cx).bound = c.bound := rfl
@[simp] theorem queue_wakeAll : c.wakeAll.queue = c.queue := rfl
@[simp] theorem ended_wakeAll : c.wakeAll.ended = c.ended := rfl
@[simp] theorem senders_wakeAll : c.wakeAll.senders = c.senders := rfl
@[simp] theorem receivers_wakeAll : c.wakeAll.receivers = c.receivers := rfl
@[simp] theorem sent_wakeAll : c.wakeAll.sent = c.sent := rfl
@[simp] theorem bound_wakeAll : c.wakeAll.bound = c.bound := rfl

end Fields

/-! ### One handle of each kind -/

section Single
variable {c' : Chan α} {t : α}

/-- At most one handle of each kind; a channel without its receiver has ended, and is empty. -/
structure Single (c : Chan α) : Prop where
  senders : c.senders ≤ 1
  receivers : c.receivers ≤ 1
  gone : c.receivers = 0 → c.queue = []
  alive : c.receivers ≠ 0 → c.ended = false

theorem single_new (bound : Nat) : (new bound : Chan α).Single where
  senders := Nat.le_refl 1
  receivers := Nat.le_refl 1
  gone := by intros; rfl
  alive := by intros; rfl

theorem Quiet.symm (h : c.Quiet c') : c'.Quiet c :=
  ⟨h.queue.symm, h.ended.symm, h.bound.symm, h.senders.symm, h.receivers.symm, h.sent.symm⟩

theorem Quiet.single (h : c.Quiet c') (hc : c.Single) : c'.Single where
  senders := h.senders ▸ hc.senders
  receivers := h.receivers ▸ hc.receivers
  gone := fun h0 => h.queue.trans (hc.gone (h.receivers ▸ h0))
  alive := fun h0 => h.ended.trans (hc.alive (h.receivers ▸ h0))

theorem Takes.single (h : c.Takes t c') (hc : c.Single) : c'.Single where
  senders := h.senders ▸ hc.senders
  receivers := h.receivers ▸ hc.receivers
  gone := fun h0 => by
    have hq := hc.gone (h.receivers ▸ h0)
    rw [h.queue] at hq
    cases hq
  alive := fun h0 => h.ended.trans (hc.alive (h.receivers ▸ h0))

theorem Single.enqueue (hc : c.Single) (h0 : c.receivers ≠ 0) (t : α) : (c.enqueue t).Single where
  senders := by rw [senders_enqueue]; exact hc.senders
  receivers := by rw [receivers_enqueue]; exact hc.receivers
  gone := fun h => absurd (receivers_enqueue t ▸ h) h0
  alive := fun _ => by rw [ended_enqueue]; exact hc.alive h0

theorem Single.dropSender (hc : c.Single) : c.dropSender.Single where
  senders := by rw [senders_dropSender]; exact Nat.le_trans (Nat.sub_le _ _) hc.senders
  receivers := by rw [receivers_dropSender]; exact hc.receivers
  gone := fun h => by rw [queue_dropSender]; exact hc.gone (receivers_dropSender ▸ h)
  alive := fun h => by rw [ended_dropSender]; exact hc.alive (receivers_dropSender ▸ h)

theorem Single.receivers_dropReceiver (hc : c.Single) : c.dropReceiver.receivers = 0 := by
  rw [Chan.receivers_dropReceiver]
  exact Nat.sub_eq_zero_of_le hc.receivers

theorem Single.queue_dropReceiver (hc : c.Single) : c.dropReceiver.queue = [] := by
  by_cases h1 : c.receivers = 1
  · rw [Chan.dropReceiver, if_pos h1]
    rfl
  · have h0 : c.receivers = 0 := by have := hc.receivers; omega
    rw [Chan.dropReceiver, if_neg h1]
    exact hc.gone h0

theorem Single.dropReceiver (hc : c.Single) : c.dropReceiver.Single where
  senders := by rw [senders_dropReceiver]; exact hc.senders
  receivers := Nat.le_trans (Nat.le_of_eq hc.receivers_dropReceiver) (Nat.zero_le 1)
  gone := fun _ => hc.queue_dropReceiver
  alive := fun h => absurd hc.receivers_dropReceiver h

theorem Single.offer (hc : c.Single) (t : α) : (c.offer t).Single := by
  rw [Chan.offer]
  split
  · exact hc
  · next h0 => exact hc.enqueue h0 t

theorem Single.register (hc : c.Single) (cx : Waker) : (c.register cx).Single :=
  ⟨hc.senders, hc.receivers, hc.gone, hc.alive⟩

end Single

end Chan

end HreqH1
