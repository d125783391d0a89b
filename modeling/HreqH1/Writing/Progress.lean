import HreqH1.Support.Simulation
import HreqH1.Writing.Offers
import HreqH1.Writing.Writes

/-!
# Writing — progress

Over any writer, `poll_finish_pending_write` does the pending jobs, and `poll_write_all` those and
then its own (`finishPending_does`, `writeAll_does`).  Neither loop looks at an `Ok(0)`: the same rest is
offered again.  So a poll returns, and with an error where the writer has accepted nothing of a rest
that is not empty, exactly where the writer does not do that, or fails by itself later in the same
poll (`writing_progresses_iff`); and it loops without end over a writer that never accepts anything
(`writing_spins`).

`BufIo` itself is the case of a script (`mirrors_writeAll`), which does come to its end.
-/

namespace HreqH1.WriteIo
open PollM AsyncWrite
variable {W : Type} [AsyncWrite W] {io : WriteIo W} {bs : Bytes} {flush : Bool}

/-! ### The jobs -/

/-- What is left to do, of a write or a flush that was `Pending`. -/
def pendingJobs (io : WriteIo W) : List Job :=
  (match io.writeBuf with
    | none => []
    | some b => [.write b.rest]) ++ if io.needFlush then [.flush] else []

/-- What `poll_write_all` has to do of its own. -/
def bufJobs (buf : Option Bytes) (flush : Bool) : List Job :=
  match buf with
  | none => []
  | some bs => .write bs :: if flush then [.flush] else []

/-- The rest of a pending write. -/
def backlog (io : WriteIo W) : Bytes := (io.writeBuf.map ConsumeBuf.rest).getD []

/-! ### Pending jobs -/

/-- A round of `poll_finish_pending_write` offers what is left of the pending write. -/
theorem finishRound_offers {c : Bool} (hc : io.needFlush = c) :
    wp (finishRound ()) (OfferPost inner (fun _ => backlog) (fun _ io => io.needFlush = c) () io) io := by
  rw [finishRound, wp_bind, wp_get, bindPost]
  cases hb : io.writeBuf with
  | none =>
      have hnil : io.backlog = [] := by rw [backlog, hb]; rfl
      exact ⟨hnil, rfl⟩
  | some b =>
      have hrest : io.backlog = b.rest := by rw [backlog, hb]; rfl
      dsimp only
      rw [wp_ite]
      split
      · next he => exact ⟨hrest.trans (b.isEmpty_iff.mp he), rfl⟩
      · next he =>
        have hne : io.backlog ≠ [] := fun h => he (b.isEmpty_iff.mpr (hrest.symm.trans h))
        rw [wp_bind, wp, callInner]
        rcases hw : pollWrite io.inner b.rest with ⟨_ | e | k, w⟩
        · have hw : pollWrite io.inner io.backlog = (none, w) := hrest.symm ▸ hw
          exact ⟨hne, hw⟩
        · have hw : pollWrite io.inner io.backlog = (some (.error e), w) := hrest.symm ▸ hw
          exact ⟨hne, hw⟩
        · have hle : k ≤ b.len := by
            have := pollWrite_le hw
            rwa [b.length_rest] at this
          obtain ⟨b', hb', hdrop⟩ := ConsumeBuf.consume_ok hle
          have hw : pollWrite io.inner io.backlog = (some (.ok k), w) := hrest.symm ▸ hw
          have hdrop : b'.rest = io.backlog.drop k := hrest.symm ▸ hdrop
          simp only [bindPost, wp_bind, wp_modify, lift, wp_pure, hb', orPanic]
          exact ⟨hc, hne, k, hw, hdrop⟩

theorem stable_finishWrite : Stable (finishWrite (W := W)) := by
  unfold finishWrite
  exact .get fun io => .ite (.bind (stable_loopN _ _) fun _ => .const _) (.const _)

theorem stable_pollFinishPendingWrite : Stable (pollFinishPendingWrite (W := W)) := by
  unfold pollFinishPendingWrite
  exact .bind stable_finishWrite fun _ => .const _

theorem finishWrite_does (io : WriteIo W) :
    Does finishWrite inner (match io.writeBuf with
      | none => []
      | some b => [.write b.rest]) (fun t => t.writeBuf = none ∧ t.needFlush = io.needFlush) io := by
  cases hb : io.writeBuf with
  | none =>
      refine Does.of_eq (.pure ⟨hb, rfl⟩) (fun n => ?_) rfl
      rw [finishWrite, run_get_bind, hb]
      rfl
  | some b =>
      have hrest : io.backlog = b.rest := by rw [backlog, hb]; rfl
      have hloop : Does (fun n => loopN finishRound n ()) inner [.write b.rest] _ io :=
        hrest ▸ Does.loop (i := ()) (fun _ io' hc => finishRound_offers hc) (rfl : io.needFlush = _)
      have hnone : ∀ t : WriteIo W, (∃ _ : Unit, t.needFlush = io.needFlush) →
          Does (fun _ => modify ({ · with writeBuf := none })) inner []
            (fun t => t.writeBuf = none ∧ t.needFlush = io.needFlush) t := by
        rintro t ⟨-, ht⟩
        exact Does.of_eq (.pure (s := { t with writeBuf := none }) ⟨rfl, ht⟩) (fun n => rfl) rfl
      refine Does.of_eq (hloop.bind (stable_loopN _ _) (.const _) hnone) (fun n => ?_) rfl
      rw [finishWrite, run_get_bind, hb]
      rfl

theorem finishFlush_does {c : Bool} (h : io.writeBuf = none ∧ io.needFlush = c) :
    Does (fun _ => finishFlush) inner (if c then [.flush] else [])
      (fun t => t.writeBuf = none ∧ t.needFlush = false) io := by
  obtain ⟨hb, rfl⟩ := h
  cases hf : io.needFlush with
  | false =>
      refine Does.of_eq (.pure ⟨hb, hf⟩) (fun n => ?_) rfl
      rw [finishFlush, run_get_bind, hf]
      rfl
  | true =>
      refine Does.flush ?_
      rw [finishFlush, wp_bind, wp_get, bindPost, hf, if_pos rfl, wp_bind, wp, callInner]
      rcases AsyncWrite.pollFlush io.inner with ⟨_ | e | _, w⟩
      · exact rfl
      · exact rfl
      · exact ⟨rfl, hb, rfl⟩

theorem finishPending_does (io : WriteIo W) :
    Does pollFinishPendingWrite inner io.pendingJobs
      (fun t => t.writeBuf = none ∧ t.needFlush = false) io :=
  (finishWrite_does io).bind stable_finishWrite (.const _) fun _ h => finishFlush_does h

/-! ### A buffer -/

/-- A round of `poll_write_all` offers what is left of the buffer. -/
theorem writeRound_offers {pos : Nat} (hpos : pos ≤ bs.length) :
    wp (writeRound bs flush pos) (OfferPost inner (fun pos _ => bs.drop pos)
      (fun pos _ => pos ≤ bs.length) pos io) io := by
  rw [writeRound, wp_ite]
  split
  · next he =>
    have hnil : bs.drop pos = [] := by rw [he, List.drop_length]
    exact ⟨hnil, rfl⟩
  · next he =>
    have hne : bs.drop pos ≠ [] := fun h => he (by rw [List.drop_eq_nil_iff] at h; omega)
    rw [wp_bind, wp, callInner]
    rcases hw : pollWrite io.inner (bs.drop pos) with ⟨_ | e | k, w⟩
    · exact ⟨hne, hw⟩
    · exact ⟨hne, hw⟩
    · have hle := pollWrite_le hw
      rw [List.length_drop] at hle
      exact ⟨by omega, hne, k, hw, (List.drop_drop ..).symm⟩

theorem stable_writeTaken : Stable (writeTaken (W := W) bs flush) := by
  unfold writeTaken
  exact .bind (stable_loopN _ _) fun _ => .const _

theorem writeTaken_does (io : WriteIo W) :
    Does (writeTaken bs flush) inner (.write bs :: if flush then [.flush] else []) (fun _ => True) io := by
  have hround : ∀ pos (io : WriteIo W), pos ≤ bs.length → wp (writeRound bs flush pos)
      (OfferPost inner (fun pos _ => bs.drop pos) (fun pos _ => pos ≤ bs.length) pos io) io :=
    fun _ _ h => writeRound_offers h
  have hloop : Does (fun n => loopN (writeRound bs flush) n 0) inner [.write bs] _ io :=
    Does.loop hround (Nat.zero_le bs.length)
  refine hloop.bind (stable_loopN _ _) (.const _) fun t _ => ?_
  cases flush with
  | false => exact .pure trivial
  | true =>
      refine Does.flush ?_
      rw [if_pos rfl, wp_bind, wp, callInner]
      rcases AsyncWrite.pollFlush t.inner with ⟨_ | e | _, w⟩
      · exact rfl
      · exact rfl
      · exact ⟨rfl, trivial⟩

/-! ### Both -/

/-- After the pending jobs, nothing is in the way. -/
theorem asserts_do {t : WriteIo W} (h : t.writeBuf = none ∧ t.needFlush = false) :
    Does (fun _ => do
      assert (← get).writeBuf.isNone "assertion failed: this.write_buf.is_none()"
      assert (!(← get).needFlush) "assertion failed: !this.need_flush") inner [] (fun _ => True) t := by
  refine Does.of_eq (.pure trivial) (fun n => ?_) rfl
  rw [run_get_bind, h.1]
  show (get >>= fun io => assert (!io.needFlush) _) t = _
  rw [run_get_bind, h.2]
  rfl

theorem writeAll_does (io : WriteIo W) (buf : Option Bytes) (flush : Bool) :
    Does (pollWriteAll flush) (fun s => s.1.inner) (io.pendingJobs ++ bufJobs buf flush)
      (fun _ => True) (io, buf) := by
  have hpending := (finishPending_does io).bind stable_pollFinishPendingWrite (.const _)
    fun _ h => asserts_do h
  rw [List.append_nil] at hpending
  have hzoom := Does.zoom (s := (io, buf)) Prod.fst (fun s io => (io, s.2)) (fun _ _ => rfl) hpending
  have hstable : Stable fun n => (do
      match (← get).2 with
      | none => pure ()
      | some bs =>
          modify fun s => (s.1, none)
          zoom Prod.fst (fun s io => (io, s.2)) (writeTaken bs flush n) :
      PollM IoError (WriteIo W × Option Bytes) Unit) := by
    refine .get fun s => ?_
    cases s.2 with
    | none => exact .const _
    | some bs => exact .bind (.const _) fun _ => stable_writeTaken.zoom _ _
  refine hzoom.bind ?_ hstable ?_
  · exact (stable_pollFinishPendingWrite.bind fun _ => .const _).zoom _ _
  · rintro ⟨t, buf'⟩ ⟨-, hbuf⟩
    obtain rfl : buf' = buf := congrArg Prod.snd hbuf
    cases buf' with
    | none => exact Does.of_eq (.pure trivial) (fun n => rfl) rfl
    | some bs =>
        have hwrite : Does (writeTaken bs flush) inner _ _ t := writeTaken_does t
        have htaken := Does.zoom (s := (t, (none : Option Bytes))) Prod.fst (fun s io => (io, s.2))
          (fun _ _ => rfl) hwrite
        exact Does.of_eq (htaken.mono fun _ _ => trivial) (fun n => rfl) rfl

/-- **When writing makes progress or returns**, over any writer: a poll returns, and with an error where
the writer accepts nothing of a rest that is not empty, exactly if the writer does not do that, or fails
by itself at another of the jobs of the poll. -/
theorem writing_progresses_iff (io : WriteIo W) (buf : Option Bytes) (flush : Bool) :
    (Progresses pollFinishPendingWrite inner io.pendingJobs io ↔
      (Stalls io.pendingJobs io.inner → Fails io.pendingJobs io.inner)) ∧
    (Progresses (pollWriteAll flush) (fun s => s.1.inner) (io.pendingJobs ++ bufJobs buf flush) (io, buf) ↔
      (Stalls (io.pendingJobs ++ bufJobs buf flush) io.inner →
        Fails (io.pendingJobs ++ bufJobs buf flush) io.inner)) :=
  ⟨(finishPending_does io).progresses_iff, (writeAll_does io buf flush).progresses_iff⟩

theorem zero_le_of_accepted {w : Unit} {bs : Bytes} {k : Nat}
    (h : ((some (.ok 0), ()) : IoPoll Nat × Unit) = (some (.ok k), w)) : k ≤ bs.length := by
  cases h
  exact Nat.zero_le _

/-- A writer that never accepts anything. -/
@[reducible] def deaf : AsyncWrite Unit where
  pollWrite := fun _ _ => (some (.ok 0), ())
  pollFlush := fun _ => (some (.ok ()), ())
  pollWrite_le := zero_le_of_accepted

/-- Over it, neither poll returns with a byte to write, whatever the number of rounds. -/
theorem writing_spins :
    letI := deaf
    (∀ n, (pollFinishPendingWrite n ⟨(), false, some (.new [97]), false⟩).1 = .diverge) ∧
      ∀ n, (pollWriteAll false n (⟨(), false, none, false⟩, some [97])).1 = .diverge := by
  let _ := deaf
  have hfinish : finishRound () ⟨(), false, some (.new [97]), false⟩ =
      (.ready (.again ()), ⟨(), false, some (.new [97]), false⟩) := rfl
  have hwrite : writeRound [97] false 0 ⟨(), false, none, false⟩ =
      (.ready (.again 0), ⟨(), false, none, false⟩) := rfl
  constructor
  · intro n
    show (PollM.bind (PollM.bind (loopN finishRound n ()) _) _ _).1 = _
    rw [PollM.bind, PollM.bind, loopN_spins hfinish n]
  · intro n
    show (PollM.bind (loopN (writeRound [97] false) n 0) _ ⟨(), false, none, false⟩).1 = _
    rw [PollM.bind, loopN_spins hwrite n]

/-! ### Over a script -/

/-- The write side of a `BufIo`. -/
def ofBufIo (io : BufIo) : WriteIo Transport := ⟨io.inner, io.pendingTx, io.writeBuf, io.needFlush⟩

/-- The same poll, of a `BufIo` and of its write side. -/
abbrev Same {α : Type} (x : PollM IoError BufIo α) (y : PollM IoError (WriteIo Transport) α)
    (io : BufIo) : Prop := InStep (fun io t => t = ofBufIo io) x y io (ofBufIo io)

theorem same_callInner {α : Type} (f : Transport → α × Transport) (io : BufIo) :
    Same (BufIo.callInner f) (callInner f) io := ⟨rfl, rfl⟩

theorem same_finishRound (io : BufIo) : Same (BufIo.finishRound ()) (finishRound ()) io := by
  rw [Same, BufIo.finishRound, finishRound]
  refine .get ?_
  have hb : (ofBufIo io).writeBuf = io.writeBuf := rfl
  rw [hb]
  cases io.writeBuf with
  | none => exact ⟨rfl, rfl⟩
  | some b =>
      refine .ite (fun _ => ⟨rfl, rfl⟩) fun _ => .bind (same_callInner _ io) ?_
      rintro a io₁ _ - - rfl
      cases a with
      | none => exact ⟨rfl, rfl⟩
      | some v =>
          refine .bind ⟨rfl, rfl⟩ ?_
          rintro _ io₂ _ - - rfl
          refine .bind (.lift v rfl) ?_
          rintro k io₃ _ - - rfl
          refine .bind (.orPanic _ rfl) ?_
          rintro b' io₄ _ - - rfl
          exact ⟨rfl, rfl⟩

theorem same_finishFlush (io : BufIo) : Same BufIo.finishFlush finishFlush io := by
  rw [Same, BufIo.finishFlush, finishFlush]
  refine .get (.ite (fun _ => .bind (same_callInner _ io) ?_) fun _ => ⟨rfl, rfl⟩)
  rintro a io₁ _ - - rfl
  cases a with
  | none => exact ⟨rfl, rfl⟩
  | some v =>
      refine .bind ⟨rfl, rfl⟩ ?_
      rintro _ io₂ _ - - rfl
      refine .bind (.lift v rfl) ?_
      rintro _ io₃ _ - - rfl
      exact ⟨rfl, rfl⟩

theorem same_writeRound (pos : Nat) (io : BufIo) :
    Same (BufIo.writeRound bs flush pos) (writeRound bs flush pos) io := by
  rw [Same, BufIo.writeRound, writeRound]
  refine .ite (fun _ => ⟨rfl, rfl⟩) fun _ => .bind (same_callInner _ io) ?_
  rintro a io₁ _ - - rfl
  rcases a with _ | e | k
  · exact ⟨rfl, rfl⟩
  · exact ⟨rfl, rfl⟩
  · exact ⟨rfl, rfl⟩

/-- Each round of `poll_write_all` over a script uses up an answer, or writes something. -/
theorem writeRound_decreases : Decreases (fun pos (_ : BufIo) => pos ≤ bs.length)
    (fun pos io => io.inner.tx.length + (bs.length - pos)) (BufIo.writeRound bs flush) := by
  intro pos io pos' io' hpos hx
  rw [BufIo.writeRound, run_ite] at hx
  split at hx
  · cases hx
  · next hne =>
    have hcall : ∀ w t, io.inner.pollWrite (bs.drop pos) = (w, t) →
        (BufIo.callInner (·.pollWrite (bs.drop pos)) : PollM IoError BufIo (IoPoll Nat)) io =
          (.ready w, { io with inner := t }) := fun w t h => by rw [BufIo.callInner, h]
    rcases hw : io.inner.pollWrite (bs.drop pos) with ⟨_ | e | k, t⟩
    · rw [run_bind_ready (hcall _ _ hw)] at hx
      cases hx
    · rw [run_bind_ready (hcall _ _ hw)] at hx
      cases hx
    · rw [run_bind_ready (hcall _ _ hw)] at hx
      cases hx
      obtain ⟨hle, -, hlt⟩ := (Transport.pollWrite_spec hw).1 k rfl
      have htx := (Transport.pollWrite_spec hw).2.2.1
      rw [List.length_drop] at hle hlt
      refine ⟨by omega, ?_⟩
      show t.tx.length + (bs.length - (pos + k)) < io.inner.tx.length + (bs.length - pos)
      omega

theorem mirrors_finishPending (io : BufIo) :
    Mirrors ofBufIo BufIo.pollFinishPendingWrite pollFinishPendingWrite io := by
  have hwrite : Mirrors ofBufIo BufIo.finishWrite finishWrite io := by
    refine .get (.ite (fun hsome => .bind ?_ fun _ _ _ => .const rfl) fun _ => .const rfl)
    exact .loop BufIo.finishRound_decreases (fun _ io => (same_finishRound io).eq)
      (Option.isSome_iff_exists.mp hsome)
  exact hwrite.bind fun _ io' _ => .const (same_finishFlush io').eq

theorem mirrors_writeTaken (io : BufIo) :
    Mirrors ofBufIo (BufIo.writeTaken bs flush) (writeTaken bs flush) io := by
  have hloop : Mirrors ofBufIo (loop _ (BufIo.writeRound bs flush) 0) _ io :=
    .loop writeRound_decreases (fun pos io => (same_writeRound pos io).eq) (Nat.zero_le bs.length)
  refine hloop.bind fun _ io' _ => .ite (fun _ => .const ?_) fun _ => .const rfl
  refine InStep.eq (.bind (same_callInner _ io') ?_)
  rintro a io₁ _ - - rfl
  cases a with
  | none => exact ⟨rfl, rfl⟩
  | some v =>
      refine .bind ⟨rfl, rfl⟩ ?_
      rintro _ io₂ _ - - rfl
      exact .lift v rfl

/-- **A script is one of the writers**: with rounds enough, writing over it is writing as `BufIo`
does. -/
theorem mirrors_writeAll (io : BufIo) (buf : Option Bytes) (flush : Bool) :
    Mirrors (fun s : BufIo × Option Bytes => (ofBufIo s.1, s.2)) (BufIo.pollWriteAll flush)
      (pollWriteAll flush) (io, buf) := by
  refine Mirrors.bind (.zoom (p := ofBufIo) rfl (fun _ => rfl) ?_) fun _ s _ => .get ?_
  · refine (mirrors_finishPending io).bind fun _ io' _ => .const (InStep.eq (.get ?_))
    refine .bind (.assert _ _ rfl) ?_
    rintro _ io₁ _ - - rfl
    exact .get (.assert _ _ rfl)
  · rcases s with ⟨io', _ | bs⟩
    · exact .const rfl
    · refine Mirrors.bind (.const rfl) fun _ s' hs' => ?_
      cases hs'
      exact .zoom (p := ofBufIo) rfl (fun _ => rfl) (mirrors_writeTaken io')

end HreqH1.WriteIo
