import HreqH1.Concurrent.Channel

/-!
# Concurrent — Delivery

What a channel of `src/mpsc.rs` delivers: every item a `send` has accepted, once and in the order of
the locked sections, until the `Receiver` is dropped, and the end of the channel only after the last
of them (`delivery`).
-/

namespace HreqH1.Channel
open PollM Runs

variable {α : Type}

/-- The items `poll_recv` has returned. -/
def received (os : List (Obs α)) : List α := os.filterMap fun
  | .received (.ready (some t)) => some t
  | _ => none

/-- The items `send` has returned `true` for, in the order they were enqueued. -/
def accepted (os : List (Obs α)) : List α := os.filterMap fun
  | .accepted t => some t
  | _ => none

theorem received_append (os ps : List (Obs α)) : received (os ++ ps) = received os ++ received ps :=
  List.filterMap_append

theorem accepted_append (os ps : List (Obs α)) : accepted (os ++ ps) = accepted os ++ accepted ps :=
  List.filterMap_append

/-- What has been accepted and what has been returned, by what is queued. -/
structure Delivers (os : List (Obs α)) (w : World α) : Prop where
  counted : Counted w
  held : w.receiver = .held → w.chan.ended = false ∧ accepted os = received os ++ w.chan.queue
  dropped : w.receiver ≠ .held →
    w.chan.ended = true ∧ w.chan.queue = [] ∧ received os <+: accepted os

theorem delivers_new (bound : Nat) : Delivers [] (World.new bound : World α) where
  counted := counted_new bound
  held := fun _ => ⟨rfl, rfl⟩
  dropped := fun h => absurd rfl h

/-- A step that shows nothing and leaves the queue. -/
theorem Delivers.quiet {os : List (Obs α)} {w w' : World α} {o : Obs α} (h : Delivers os w)
    (hc : Counted w') (ha : accepted [o] = []) (hr : received [o] = [])
    (hrec : w'.receiver = w.receiver) (hq : w'.chan.queue = w.chan.queue)
    (he : w'.chan.ended = w.chan.ended) : Delivers (os ++ [o]) w' := by
  refine ⟨hc, ?_, ?_⟩
  · rw [accepted_append, received_append, ha, hr, List.append_nil, List.append_nil, hrec, hq, he]
    exact h.held
  · rw [accepted_append, received_append, ha, hr, List.append_nil, List.append_nil, hrec, hq, he]
    exact h.dropped

theorem Steps.delivers {os : List (Obs α)} {w w' : World α} {a : Action α} {o : Obs α}
    (h : Steps w a o w') (hw : Delivers os w) : Delivers (os ++ [o]) w' := by
  have hc := h.counted hw.counted
  cases h with
  | stay ho hr =>
      refine hw.quiet hc ?_ ?_ rfl rfl rfl
      · cases o with
        | accepted t => exact absurd rfl (ho t)
        | _ => rfl
      · cases o with
        | received r => exact absurd rfl (hr r)
        | _ => rfl
  | clone => exact hw.quiet hc rfl rfl rfl rfl rfl
  | go hs hne hne' hg => exact hw.quiet hc rfl rfl rfl rfl rfl
  | register cx => exact hw.quiet hc rfl rfl rfl rfl rfl
  | wake hs ha => exact hw.quiet hc rfl rfl rfl rfl rfl
  | unheard hs ha => exact hw.quiet hc rfl rfl rfl rfl rfl
  | release hs => exact hw.quiet hc rfl rfl rfl rfl rfl
  | closed hr hq h0 => exact hw.quiet hc rfl rfl rfl rfl rfl
  | wait hr hq h0 => exact hw.quiet hc rfl rfl rfl rfl rfl
  | @enqueue _ i t hs =>
      refine ⟨hc, fun hr => ?_, fun hr => ?_⟩
      · obtain ⟨he, hacc⟩ := hw.held hr
        refine ⟨(Chan.ended_enqueue t).trans he, ?_⟩
        show accepted (os ++ [.accepted t]) = received (os ++ [.accepted t]) ++ (w.chan.enqueue t).queue
        rw [accepted_append, received_append, hacc, Chan.queue_enqueue t he, List.append_assoc]
        exact congrArg (· ++ _) (List.append_nil _).symm
      · -- What is sent to a closed channel goes nowhere.
        obtain ⟨he, hq, hpre⟩ := hw.dropped hr
        refine ⟨(Chan.ended_enqueue t).trans he, ?_, ?_⟩
        · show (w.chan.enqueue t).queue = []
          rw [Chan.enqueue, if_pos he]
          exact hq
        · rw [accepted_append, received_append]
          exact (List.append_nil _).symm ▸ hpre.trans (List.prefix_append _ _)
  | @recv cx t q hr hq =>
      refine ⟨hc, fun _ => ?_, fun h => absurd hr h⟩
      obtain ⟨he, hacc⟩ := hw.held hr
      refine ⟨he, ?_⟩
      show accepted (os ++ [.received (.ready (some t))]) =
        received (os ++ [.received (.ready (some t))]) ++ q
      rw [accepted_append, received_append, hacc, hq]
      show (received os ++ t :: q) ++ [] = (received os ++ [t]) ++ q
      rw [List.append_nil, List.append_assoc]
      rfl
  | close hr =>
      obtain ⟨he, hacc⟩ := hw.held hr
      refine ⟨hc, by simp, fun _ => ⟨rfl, rfl, ?_⟩⟩
      rw [accepted_append, received_append]
      exact (List.append_nil (received os)).symm ▸ (List.append_nil (accepted os)).symm ▸
        hacc ▸ List.prefix_append _ _
  | drop hr =>
      refine ⟨hc, by simp, fun _ => ?_⟩
      obtain ⟨he, hq, hpre⟩ := hw.dropped (hr ▸ (by simp))
      rw [accepted_append, received_append]
      exact ⟨he, hq, (List.append_nil (received os)).symm ▸ (List.append_nil (accepted os)).symm ▸ hpre⟩

theorem run_delivers (bound : Nat) (as : List (Action α)) :
    Delivers (run step as (World.new bound)).1 (after step as (World.new bound)) :=
  run_history (I := Delivers) (fun _ s a h _ => (step_steps a s).delivers h)
    (along_true as _) (delivers_new bound)

theorem Delivers.front {os : List (Obs α)} {w : World α} (h : Delivers os w) :
    received os <+: accepted os := by
  by_cases hr : w.receiver = .held
  · exact (h.held hr).2 ▸ List.prefix_append _ _
  · exact (h.dropped hr).2.2

/-- The end of the channel is reported with nothing left of it. -/
theorem Delivers.closed {os : List (Obs α)} {w : World α} (h : Delivers os w) {cx : Waker}
    (hc : (step (.pollRecv cx) w).1 = .received (.ready none)) :
    (∀ s ∈ w.senders, s = .gone) ∧ received os = accepted os := by
  have hs := step_steps (.pollRecv cx) w
  rw [hc] at hs
  generalize (step (.pollRecv cx) w).2 = w' at hs
  cases hs with
  | stay ho hr => exact absurd rfl (hr _)
  | closed hr hq h0 =>
      refine ⟨h.counted.senders_eq_zero.mp h0, ?_⟩
      rw [(h.held hr).2, hq, List.append_nil]

/-- **The channel delivers.**  What `poll_recv` returns is at every moment a front of what the
senders have enqueued; `None` comes when all of it has been returned and no sender is left; and
until the `Receiver` is dropped, what has been accepted is returned or queued. -/
theorem delivery (bound : Nat) (as : List (Action α)) :
    let os := (run step as (World.new bound)).1
    let w := after step as (World.new bound)
    received os <+: accepted os ∧
      (∀ cx, (step (.pollRecv cx) w).1 = .received (.ready none) →
        (∀ s ∈ w.senders, s = .gone) ∧ received os = accepted os) ∧
      (w.receiver = .held → accepted os = received os ++ w.chan.queue) := by
  intro os w
  have h : Delivers os w := run_delivers bound as
  exact ⟨h.front, fun _ hc => h.closed hc, fun hr => (h.held hr).2⟩

end HreqH1.Channel
