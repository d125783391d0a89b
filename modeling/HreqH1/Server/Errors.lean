import HreqH1.Server.Reuse

/-!
# Server — after an error

An error closes the codec (`closed_of_failed`), and a codec that is closed stays so (`Over.step`).
What the failing poll has left of a write stays as well, and is looked at first: a poll of the
closed codec fails again exactly when the transport fails this write or its flush
(`BufIo.failsLeft`), and is otherwise `Pending` or at its end (`pollServer_over`).
-/

namespace HreqH1.Server
open PollM BufIo Runs

variable [VecAlloc] [Crates]

/-- What the codec answers to the step `a`, where it polls the codec. -/
def codecPoll (a : Action) (w : World) : Option (Outcome IoError (Option Package)) :=
  match a with
  | .accept cx => if w.held then none else some (pollServer cx true true w.conn).1
  | .close cx => some (pollServer cx false true w.conn).1
  | .read cx _ => if w.recv.isSome then some (pollServer cx false false w.conn).1 else none
  | .drive cx =>
      if w.respond.isSome || w.send.isSome then some (pollServer cx false false w.conn).1 else none
  | _ => none

/-- The codec reports an error in the step `a`. -/
def Failed (a : Action) (w : World) : Prop := ∃ e, codecPoll a w = some (.fail e)

/-- An `accept` that is ready returns `None`. -/
def Ended : Obs → Prop
  | .accepted r => r = .pending ∨ r = .ready none
  | _ => True

/-- An `accept` that polls the codec meets no failure in what is left of a write. -/
def Settles (w : World) (a : Action) : Prop :=
  match a with
  | .accept _ => w.held = false → w.conn.io.failsLeft = false
  | _ => True

/-- The codec is closed. -/
structure Over (c : Conn) : Prop where
  sound : c.io.Sound
  closed : c.state = .closed

section Polls
variable {c c' : Conn} {w : World} {a : Action} {cx : Waker} {want reg : Bool}

omit [VecAlloc] [Crates] in
theorem Over.of_eq (h : Over c) (hio : c'.io = c.io) (hs : c'.state = c.state) : Over c' :=
  ⟨hio ▸ h.sound, hs.trans h.closed⟩

/-- A failing poll leaves the codec closed. -/
theorem pollServer_failed (hc : c.io.Sound) {e : IoError}
    (h : (pollServer cx want reg c).1 = .fail e) : Over (pollServer cx want reg c).2 := by
  refine ⟨pollServer_sound hc, ?_⟩
  have hp : ServerPost want c (pollServer cx want reg c).1 (pollServer cx want reg c).2 :=
    pollServer_moves hc
  rw [h] at hp
  obtain ⟨c₁, c₂, -, -, heq⟩ := hp
  rw [heq]
  rfl

/-- What a poll of the closed codec comes to. -/
theorem Over.polls {r : Outcome IoError (Option Package)} (h : Over c) (hp : Polls want c r c') :
    Over c' ∧ (r = .pending ∨ r = .ready none ∨ ∃ e, r = .fail e) ∧
      ((∃ e, r = .fail e) ↔ c.io.failsLeft = true) := by
  obtain ⟨cx, reg, hp⟩ := hp
  rw [pollServer_finish h.closed] at hp
  rcases hf : pollFinishPendingWrite c.io with ⟨u, io⟩
  rw [hf] at hp
  have hpost := wp_elim (pollFinishPendingWrite_spec h.sound.txWf) hf
  have hfails : (∃ e, u = .fail e) ↔ c.io.failsLeft = true :=
    wp_elim (pollFinishPendingWrite_fails h.sound.txWf) hf
  have hover : io.Sound → Over { c with io := io } := fun hio => ⟨hio, h.closed⟩
  cases u with
  | ready _ =>
      obtain ⟨rfl, rfl⟩ := Prod.mk.inj hp
      exact ⟨hover (h.sound.writes hpost.1 (txWf_of_canPollWrite hpost.2.1)), .inr (.inl rfl), by
        simpa using hfails⟩
  | pending =>
      obtain ⟨rfl, rfl⟩ := Prod.mk.inj hp
      exact ⟨hover (h.sound.writes hpost.1 hpost.2.1), .inl rfl, by simpa using hfails⟩
  | fail e =>
      obtain ⟨rfl, rfl⟩ := Prod.mk.inj hp
      obtain ⟨⟨front, -, hw⟩, ht, -⟩ := hpost
      exact ⟨hover (h.sound.writes hw ht), .inr (.inr ⟨e, rfl⟩), by simpa using hfails⟩
  | panic m => exact hpost.elim
  | diverge => exact hpost.elim

/-- The error that a step reports leaves the codec closed. -/
theorem closed_of_failed (hw : w.conn.io.Sound) (h : Failed a w) : Over (step a w).2.conn := by
  obtain ⟨e, h⟩ := h
  cases a with
  | accept cx =>
      rw [codecPoll] at h
      split at h
      · cases h
      · next hh =>
        have hf := pollServer_failed hw (Option.some.inj h)
        rw [Server.step, accept, if_neg hh]
        split
        · next hx => rw [hx] at hf; exact hf
        · next hx => rw [hx] at hf; exact hf
  | close cx => exact pollServer_failed hw (Option.some.inj h)
  | read cx n =>
      rw [codecPoll] at h
      split at h
      · next hr =>
        obtain ⟨recv, hr⟩ := Option.isSome_iff_exists.mp hr
        have hf := pollServer_failed hw (Option.some.inj h)
        rw [Server.step, hr]
        dsimp only
        rw [Server.read, pollDriveExternal_eq, Option.some.inj h]
        exact hf
      · cases h
  | drive cx =>
      rw [codecPoll] at h
      split at h
      · next hs =>
        have hf := pollServer_failed hw (Option.some.inj h)
        rw [Server.step, if_pos hs, pollDriveExternal_eq]
        exact hf
      · cases h
  | respond res noBody => cases h
  | pushData owned cx bs fin => cases h
  | dropRecv => cases h
  | dropRespond => cases h
  | dropSend => cases h

/-- A codec that is closed stays so. -/
theorem Over.step (h : Over w.conn) : Over (step a w).2.conn := by
  have hpoll : ∀ {want r c}, Polls want w.conn r c → Over c := fun hp => (h.polls hp).1
  have ha := step_acts a w
  generalize (Server.step a w).1 = o at ha
  generalize (Server.step a w).2 = w' at ha ⊢
  cases ha with
  | idle => exact h
  | held hh => exact h
  | accept hh hp => exact hpoll hp
  | noAccept hh hp hr => exact hpoll hp
  | close hp => exact hpoll hp
  | read hr hp hb => exact (hpoll hp).of_eq rfl rfl
  | noRead hr hp ho => exact hpoll hp
  | refused hr hc => exact h.of_eq rfl rfl
  | respond hr hc hl => exact h.of_eq rfl rfl
  | pushData hs hp => exact h.of_eq rfl rfl
  | drive hp => exact hpoll hp
  | dropRecv hr => exact h.of_eq rfl rfl
  | dropRespond hr => exact h.of_eq rfl rfl
  | dropSend hs => exact h.of_eq rfl rfl

/-- What an `accept` on a closed codec comes to. -/
theorem Over.accept_ended (h : Over w.conn) :
    Ended (accept cx w).1 ↔ (w.held = false → w.conn.io.failsLeft = false) := by
  rw [accept]
  split
  · next hh => simp [Ended, hh]
  · next hh =>
    rw [Bool.not_eq_true] at hh
    rcases hp : pollServer cx true true w.conn with ⟨r, c⟩
    obtain ⟨-, hr, hf⟩ := h.polls ⟨cx, true, hp⟩
    have hf : (∃ e, r = .fail e) ↔ ¬ w.conn.io.failsLeft = false := by simpa using hf
    rcases hr with rfl | rfl | ⟨e, rfl⟩
    · simpa [Ended, hh] using hf
    · simpa [Ended, hh] using hf
    · simpa [Ended, hh] using hf

theorem Over.ended_iff (h : Over w.conn) : Ended (Server.step a w).1 ↔ Settles w a := by
  cases a with
  | accept cx => exact h.accept_ended
  | read cx n =>
      refine iff_of_true ?_ trivial
      rw [Server.step]
      split
      · trivial
      · rw [Server.read]; split <;> trivial
  | respond res noBody =>
      refine iff_of_true ?_ trivial
      rw [Server.step]
      split
      · trivial
      · rw [Server.respond]; dsimp only; split <;> trivial
  | pushData owned cx bs fin =>
      refine iff_of_true ?_ trivial
      rw [Server.step]
      split <;> trivial
  | close cx => exact iff_of_true trivial trivial
  | drive cx => exact iff_of_true (by rw [Server.step]; split <;> trivial) trivial
  | dropRecv => exact iff_of_true (by rw [Server.step]; split <;> trivial) trivial
  | dropRespond => exact iff_of_true (by rw [Server.step]; split <;> trivial) trivial
  | dropSend => exact iff_of_true (by rw [Server.step]; split <;> trivial) trivial

end Polls

/-- **After an error the connection is over** exactly where no `accept` that polls the codec meets a
failure in what is left of a write: every later `accept` that is ready then returns `None`. -/
theorem stays_closed_iff (inner : Transport) {pre post : List Action} {a : Action}
    (h : Failed a (Runs.after step pre (handshake inner))) :
    (∀ o ∈ (run step post (Runs.after step (pre ++ [a]) (handshake inner))).1, Ended o) ↔
      Along step Settles post (Runs.after step (pre ++ [a]) (handshake inner)) := by
  have hsound : (Runs.after step pre (handshake inner)).conn.io.Sound :=
    run_invariant (I := fun w => w.conn.io.Sound) (fun w a hw _ => (step_acts a w).sound hw)
      (along_true pre _) (BufIo.sound_withCapacity (by decide) inner)
  rw [after_concat]
  exact run_observed_iff (I := fun w => Over w.conn) (fun _ _ hw => hw.step)
    (fun _ _ hw => hw.ended_iff) (closed_of_failed hsound h)

instance : DecidablePred Ended
  | .accepted r => inferInstanceAs (Decidable (r = .pending ∨ r = .ready none))
  | .closed _ | .read _ | .responded _ | .pushed _ | .driven _ | .idle => .isTrue trivial

/-- A request that does not parse. -/
def noRequest : Transport := ⟨[.data (ascii "?\r\n\r\n")], true, [], [], 0⟩

omit [VecAlloc] [Crates] in
theorem noRequest_failed :
    letI := VecAlloc.amortized
    letI := getCrates
    Failed (.accept 0) (handshake noRequest) :=
  ⟨⟨.invalidData, "Failed to parse request"⟩, by decide +kernel⟩

omit [VecAlloc] [Crates] in
/-- The head of the request is refused, and then `accept` returns `None`. -/
theorem stays_closed_parse :
    letI := VecAlloc.amortized
    letI := getCrates
    Failed (.accept 0) (handshake noRequest) ∧
      ∀ o ∈ (run step [.accept 0, .accept 0]
        (Runs.after step ([] ++ [.accept 0]) (handshake noRequest))).1, Ended o :=
  ⟨noRequest_failed,
    (@stays_closed_iff VecAlloc.amortized getCrates noRequest [] [.accept 0, .accept 0] (.accept 0)
      noRequest_failed).mpr
      ⟨fun _ => by decide +kernel, fun _ => by decide +kernel, trivial⟩⟩

/-- The transport resets the connection. -/
def reset : IoError := ⟨.connectionReset, "reset"⟩

/-- A request, and a transport that is `Pending` once and fails then. -/
def resetTwice : Transport :=
  ⟨[.data (getHead "")], true, [.pending, .fail reset, .fail reset], [], 0⟩

omit [VecAlloc] [Crates] in
/-- **The error is reported again.**  The response is left in the write buffer, and the `accept` that
follows the error writes it first. -/
theorem reported_again :
    letI := VecAlloc.amortized
    letI := getCrates
    let pre := [.accept 0, .respond closingRes false]
    Failed (.drive 0) (Runs.after step pre (handshake resetTwice)) ∧
      ¬ ∀ o ∈ (run step [.dropRecv, .dropSend, .accept 0]
        (Runs.after step (pre ++ [.drive 0]) (handshake resetTwice))).1, Ended o :=
  ⟨⟨reset, by decide +kernel⟩, by decide +kernel⟩

end HreqH1.Server
