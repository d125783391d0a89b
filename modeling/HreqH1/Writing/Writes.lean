import HreqH1.Reading.Reads

/-!
# Writing — moves of the writer

Everything that writes, writes through a `BufIo`.  `Writes bs io io'` says that the writer has
taken over `bs`: they are behind all the bytes it was given before (`BufIo.given`), accepted by the
transport or pending, and the read side is as it was.  Moves compose (`Writes.trans`).

A poll that is `Pending` has moved all the same, and has used up a `Pending` of the transport.
-/

namespace HreqH1

/-- The transport's answers to writes do not fail. -/
def TxClean (tx : List TxEvent) : Prop := ∀ e, .fail e ∉ tx

/-- The coming answers let `n` bytes and a flush through without a `Pending`. -/
def through : Nat → List TxEvent → Bool
  | _, [] => true
  | _, .pending :: _ => false
  | _, .fail _ :: _ => true
  | 0, .accept _ :: _ => true
  | n + 1, .accept k :: tx => through (n + 1 - k) tx

/-- The coming answers fail what is left of a write: `n` bytes, and a flush if there is one. -/
def leftFails : Nat → Bool → List TxEvent → Bool
  | _, _, [] => false
  | 0, flush, .fail _ :: _ => flush
  | 0, _, _ :: _ => false
  | _ + 1, _, .pending :: _ => false
  | _ + 1, _, .fail _ :: _ => true
  | n + 1, flush, .accept k :: tx => leftFails (n + 1 - k) flush tx

theorem TxClean.suffix {tx tx' : List TxEvent} (h : TxClean tx) (hs : tx' <:+ tx) : TxClean tx' :=
  fun e he => h e (hs.subset he)

theorem through_accept {n k : Nat} {tx : List TxEvent} (hn : n ≠ 0) :
    through n (.accept k :: tx) = through (n - k) tx := by
  cases n with
  | zero => exact absurd rfl hn
  | succ n => rfl

@[simp] theorem leftFails_nil (n : Nat) (flush : Bool) : leftFails n flush [] = false := by
  cases n <;> rfl

theorem leftFails_flush {flush : Bool} {tx : List TxEvent} :
    leftFails 0 flush tx = true ↔ flush = true ∧ ∃ e tx', tx = .fail e :: tx' := by
  rcases tx with _ | ⟨_ | k | e, tx⟩ <;> simp [leftFails]

theorem leftFails_accept {n k : Nat} {flush : Bool} {tx : List TxEvent} (hn : n ≠ 0) :
    leftFails n flush (.accept k :: tx) = leftFails (n - k) flush tx := by
  cases n with
  | zero => exact absurd rfl hn
  | succ n => rfl

namespace BufIo
open PollM

/-- What writing does not touch. -/
def readSide (io : BufIo) : List RxEvent × Bool × FastBuf × Nat × Bool × List Fill :=
  (io.inner.rx, io.inner.eof, io.buf, io.pos, io.pendingRx, io.fills)

/-- The bytes of a write that is pending. -/
def backlog (io : BufIo) : Bytes := (io.writeBuf.map ConsumeBuf.rest).getD []

/-- All bytes given to the writer: accepted by the transport, or pending. -/
def given (io : BufIo) : Bytes := io.inner.written ++ io.backlog

/-- A pending write has bytes left, and only a write or a flush that is left is pending. -/
structure TxWf (io : BufIo) : Prop where
  writeBuf : ∀ b, io.writeBuf = some b → b.rest ≠ []
  pendingTx : io.pendingTx = true → io.writeBuf.isSome = true ∨ io.needFlush = true

/-- The writer has taken over `bs`. -/
structure Writes (bs : Bytes) (io io' : BufIo) : Prop where
  readSide : io'.readSide = io.readSide
  given : io'.given = io.given ++ bs
  tx : io'.inner.tx <:+ io.inner.tx

variable {io io' io'' : BufIo} {bs cs : Bytes} {flush : Bool}

theorem Writes.refl (io : BufIo) : Writes [] io io where
  readSide := rfl
  given := (List.append_nil _).symm
  tx := List.suffix_refl _

theorem Writes.trans (h : Writes bs io io') (h' : Writes cs io' io'') :
    Writes (bs ++ cs) io io'' where
  readSide := h'.readSide.trans h.readSide
  given := by rw [h'.given, h.given, List.append_assoc]
  tx := h'.tx.trans h.tx

theorem Writes.clean (h : Writes bs io io') (hc : TxClean io.inner.tx) : TxClean io'.inner.tx :=
  hc.suffix h.tx

theorem canPollWrite_iff : io.canPollWrite = true ↔
    io.writeBuf = none ∧ io.needFlush = false ∧ io.pendingTx = false := by
  simp [canPollWrite, and_assoc]

theorem given_of_none (h : io.writeBuf = none) : io.given = io.inner.written := by
  rw [given, backlog, h]
  exact List.append_nil _

theorem given_of_some {b : ConsumeBuf} (h : io.writeBuf = some b) :
    io.given = io.inner.written ++ b.rest := by
  rw [given, backlog, h]
  rfl

theorem backlog_of_some {b : ConsumeBuf} (h : io.writeBuf = some b) : io.backlog = b.rest := by
  rw [backlog, h]; rfl

theorem given_withCapacity (capacity : Nat) (inner : Transport) :
    (withCapacity capacity inner).given = inner.written := given_of_none rfl

theorem txWf_of_none (hb : io.writeBuf = none)
    (hp : io.pendingTx = true → io.needFlush = true) : io.TxWf := by
  refine ⟨fun b hb' => ?_, fun h => .inr (hp h)⟩
  rw [hb] at hb'
  cases hb'

theorem txWf_of_canPollWrite (h : io.canPollWrite = true) : io.TxWf := by
  obtain ⟨hb, -, hp⟩ := canPollWrite_iff.mp h
  refine txWf_of_none hb fun h' => ?_
  rw [hp] at h'
  cases h'

/-- What a poll of the writer comes to that is given `bs`: where the transport fails it has taken
over a front of them. -/
def WritePost (bs : Bytes) (flush : Bool) (io : BufIo) : Outcome IoError Unit → BufIo → Prop
  | .ready _, io' => Writes bs io io' ∧ io'.canPollWrite = true ∧
      (flush = true → io'.inner.flushed = io'.inner.written.length)
  | .pending, io' => Writes bs io io' ∧ io'.TxWf ∧ io'.pendingTx = true ∧
      io'.inner.tx.length < io.inner.tx.length ∧
      (flush = true → through bs.length io.inner.tx = false)
  | .fail _, io' => (∃ front, front <+: bs ∧ Writes front io io') ∧ io'.TxWf ∧
      ¬ TxClean io.inner.tx
  | .panic _, _ => False
  | .diverge, _ => False

/-! ### A flush -/

/-- A flush changes nothing but what has been flushed. -/
theorem writes_flush {u : IoPoll Unit} {t : Transport} (h : io.inner.pollFlush = (u, t))
    (p n : Bool) : Writes [] io { io with inner := t, pendingTx := p, needFlush := n } := by
  obtain ⟨-, -, -, hw, hrx, heof⟩ := Transport.pollFlush_spec h
  refine ⟨?_, ?_, (Transport.pollFlush_tx h).1⟩
  · simp only [BufIo.readSide, hrx, heof]
  · show t.written ++ _ = _ ++ []
    rw [hw, List.append_nil]
    rfl

theorem pending_shorter {tx tx' : List TxEvent} {e : TxEvent} (h : tx = e :: tx') :
    tx'.length < tx.length := by
  rw [h]; exact Nat.lt_succ_self _

theorem not_txClean {tx tx' : List TxEvent} {e : IoError} (h : tx = .fail e :: tx') :
    ¬ TxClean tx := fun hc => hc e (h ▸ List.mem_cons_self)

/-! ### `poll_finish_pending_write` -/

/-- What a round of `poll_finish_pending_write` comes to, at the pending bytes `b`. -/
def FinishRoundPost (b : ConsumeBuf) (io : BufIo) :
    Outcome IoError (Flow Unit Unit) → BufIo → Prop
  | .ready (.again _), io' => Writes [] io io' ∧ (∃ b', io'.writeBuf = some b') ∧
      io'.pendingTx = false ∧ io'.needFlush = io.needFlush ∧ io'.txWeight < io.txWeight
  | .ready (.done _), io' => b.rest = [] ∧ io' = io
  | .pending, io' => Writes [] io io' ∧ io'.needFlush = io.needFlush ∧ io'.TxWf ∧
      io'.pendingTx = true ∧ io'.inner.tx.length < io.inner.tx.length
  | .fail _, io' => Writes [] io io' ∧ io'.needFlush = io.needFlush ∧ io'.TxWf ∧
      ¬ TxClean io.inner.tx
  | .panic _, _ => False
  | .diverge, _ => False

theorem finishRound_spec {b : ConsumeBuf} (hb : io.writeBuf = some b) :
    wp (finishRound ()) (FinishRoundPost b io) io := by
  rw [finishRound, wp_bind, wp_get, bindPost, hb]
  simp only [wp_ite]
  split
  · next he => exact ⟨b.isEmpty_iff.mp he, rfl⟩
  · next he =>
    have hne : b.rest ≠ [] := fun h => he (b.isEmpty_iff.mpr h)
    rw [wp_bind, wp, callInner]
    rcases hp : io.inner.pollWrite b.rest with ⟨w, t⟩
    obtain ⟨hok, hnot, -, -, hrx, heof⟩ := Transport.pollWrite_spec hp
    obtain ⟨hsuf, hpend, hfail, hacc⟩ := Transport.pollWrite_tx hp
    have hread : ∀ b' p, BufIo.readSide { io with inner := t, pendingTx := p, writeBuf := b' } =
        io.readSide := fun b' p => by simp only [BufIo.readSide, hrx, heof]
    -- The bytes that are left stay pending.
    have hleft : ∀ p, TxWf { io with inner := t, pendingTx := p } := fun p =>
      ⟨fun b' hb' => Option.some.inj (hb.symm.trans hb') ▸ hne,
        fun _ => .inl (by show io.writeBuf.isSome = true; rw [hb]; rfl)⟩
    cases w with
    | none =>
        refine ⟨⟨hread _ _, ?_, hsuf⟩, rfl, hleft true, rfl, pending_shorter (hpend rfl)⟩
        show t.written ++ _ = io.given ++ []
        rw [hnot (by simp), List.append_nil]
        rfl
    | some x =>
        cases x with
        | error e =>
            refine ⟨⟨hread _ _, ?_, hsuf⟩, rfl, hleft false, not_txClean (hfail e rfl)⟩
            show t.written ++ _ = io.given ++ []
            rw [hnot (by simp), List.append_nil]
            rfl
        | ok k =>
            obtain ⟨hk, hwr, hlt⟩ := hok k rfl
            obtain ⟨b', hc, hr⟩ := b.consume_ok (n := k) (by rwa [b.length_rest] at hk)
            simp only [bindPost, wp_bind, wp_modify, lift, wp_pure, hc, orPanic]
            refine ⟨⟨hread _ _, ?_, hsuf⟩, ⟨b', rfl⟩, rfl, rfl, ?_⟩
            · rw [given_of_some (b := b') rfl, given_of_some hb, hr]
              show t.written ++ _ = _
              rw [hwr, List.append_nil, List.append_assoc, List.take_append_drop]
            · have hl := congrArg List.length hr
              rw [List.length_drop, b'.length_rest, b.length_rest] at hl
              have hpos := List.length_pos_iff.mpr hne
              have hle := hsuf.length_le
              rw [b.length_rest] at hpos hlt
              show t.tx.length + b'.len < io.inner.tx.length + (io.writeBuf.map ConsumeBuf.len).getD 0
              rw [hb]
              show _ < _ + b.len
              omega

theorem finishRound_decreases :
    Decreases (fun _ (io : BufIo) => ∃ b, io.writeBuf = some b) (fun _ => txWeight)
      finishRound := by
  rintro _ io _ io' ⟨b, hb⟩ hx
  obtain ⟨-, hb', -, -, hlt⟩ := wp_elim (finishRound_spec hb) hx
  exact ⟨hb', hlt⟩

/-- The loop of `poll_finish_pending_write`. -/
theorem finishLoop_spec {b : ConsumeBuf} (hb : io.writeBuf = some b) (hw : io.TxWf) :
    wp (loop (fun _ io => io.txWeight) finishRound ()) (fun r io' =>
      Writes [] io io' ∧ io'.needFlush = io.needFlush ∧ match r with
        | .ready _ => io'.backlog = [] ∧ io'.pendingTx = false
        | .pending => io'.TxWf ∧ io'.pendingTx = true ∧
            io'.inner.tx.length < io.inner.tx.length
        | .fail _ => io'.TxWf ∧ ¬ TxClean io.inner.tx
        | .panic _ | .diverge => False) io := by
  refine wp_loop finishRound_decreases (fun _ io₁ => Writes [] io io₁ ∧
    io₁.needFlush = io.needFlush ∧ (io₁ = io ∨ io₁.pendingTx = false)) ?_ ⟨b, hb⟩
    ⟨Writes.refl io, rfl, .inl rfl⟩
  rintro _ io₁ ⟨b₁, hb₁⟩ ⟨hwr, hnf, hor⟩
  refine (finishRound_spec hb₁).mono fun r io₂ h => ?_
  cases r with
  | ready f =>
      cases f with
      | again _ =>
          obtain ⟨hwr', -, hp, hnf', -⟩ := h
          exact ⟨hwr.trans hwr', hnf'.trans hnf, .inr hp⟩
      | done _ =>
          obtain ⟨hnil, rfl⟩ := h
          refine ⟨hwr, hnf, ?_, ?_⟩
          · rw [backlog, hb₁]; exact hnil
          · rcases hor with rfl | hp
            · exact absurd hnil (hw.writeBuf b₁ hb₁)
            · exact hp
  | pending =>
      obtain ⟨hwr', hnf', hw₂, hp, hlt⟩ := h
      exact ⟨hwr.trans hwr', hnf'.trans hnf, hw₂, hp, Nat.lt_of_lt_of_le hlt hwr.tx.length_le⟩
  | fail e =>
      obtain ⟨hwr', hnf', hw₂, hc⟩ := h
      exact ⟨hwr.trans hwr', hnf'.trans hnf, hw₂, fun h => hc (hwr.clean h)⟩
  | panic m => exact h.elim
  | diverge => exact h.elim

/-- No write is pending, and only a flush that is left is. -/
def Written (io : BufIo) : Prop :=
  io.writeBuf = none ∧ (io.needFlush = false → io.pendingTx = false)

theorem finishWrite_spec (hw : io.TxWf) : wp finishWrite (fun r io' => match r with
    | .ready _ => Writes [] io io' ∧ io'.Written
    | r => WritePost [] false io r io') io := by
  rw [finishWrite, wp_bind, wp_get, bindPost]
  simp only [wp_ite, wp_bind]
  cases hb : io.writeBuf with
  | none =>
      refine ⟨Writes.refl io, hb, fun hn => ?_⟩
      cases hp : io.pendingTx with
      | false => rfl
      | true =>
          rcases hw.pendingTx hp with h | h
          · rw [hb] at h; cases h
          · cases hn.symm.trans h
  | some b =>
      rw [Option.isSome_some, if_pos rfl]
      refine (finishLoop_spec hb hw).mono fun r io₁ h => ?_
      obtain ⟨hwr, hnf, h⟩ := h
      cases r with
      | ready _ =>
          refine ⟨⟨hwr.readSide, ?_, hwr.tx⟩, rfl, fun _ => h.2⟩
          rw [← hwr.given, given, given, h.1]
          rfl
      | pending => exact ⟨hwr, h.1, h.2.1, h.2.2, by simp⟩
      | fail e => exact ⟨⟨[], List.nil_prefix, hwr⟩, h⟩
      | panic m => exact h
      | diverge => exact h

theorem finishFlush_spec (hw : io.Written) : wp finishFlush (WritePost [] false io) io := by
  rw [finishFlush, wp_bind, wp_get, bindPost]
  simp only [wp_ite, wp_bind]
  cases hn : io.needFlush with
  | false => exact ⟨Writes.refl io, canPollWrite_iff.mpr ⟨hw.1, hn, hw.2 hn⟩, by simp⟩
  | true =>
      rw [wp, callInner]
      rcases hp : io.inner.pollFlush with ⟨u, t⟩
      obtain ⟨-, hpend, hfail⟩ := Transport.pollFlush_tx hp
      have hleft : ∀ p, TxWf { io with inner := t, pendingTx := p } := fun p =>
        txWf_of_none hw.1 fun _ => hn
      have hwr : ∀ p, Writes [] io { io with inner := t, pendingTx := p } := fun p =>
        hn ▸ writes_flush hp p io.needFlush
      cases u with
      | none => exact ⟨hwr true, hleft true, rfl, pending_shorter (hpend rfl), by simp⟩
      | some x =>
          cases x with
          | error e =>
              exact ⟨⟨[], List.nil_prefix, hwr false⟩, hleft false, not_txClean (hfail e rfl)⟩
          | ok _ =>
              exact ⟨writes_flush hp false false, canPollWrite_iff.mpr ⟨hw.1, rfl, rfl⟩, by simp⟩

/-- A poll of the writer that is given nothing, after one. -/
theorem WritePost.after {r : Outcome IoError Unit} (hwr : Writes [] io io')
    (h : WritePost bs false io' r io'') : WritePost bs false io r io'' := by
  cases r with
  | ready _ => exact ⟨hwr.trans h.1, h.2.1, by simp⟩
  | pending =>
      exact ⟨hwr.trans h.1, h.2.1, h.2.2.1, Nat.lt_of_lt_of_le h.2.2.2.1 hwr.tx.length_le, by simp⟩
  | fail e =>
      obtain ⟨⟨front, hf, hwr'⟩, hw, hc⟩ := h
      exact ⟨⟨front, hf, hwr.trans hwr'⟩, hw, fun hcl => hc (hwr.clean hcl)⟩
  | panic m => exact h
  | diverge => exact h

theorem pollFinishPendingWrite_spec (hw : io.TxWf) :
    wp pollFinishPendingWrite (WritePost [] false io) io := by
  rw [pollFinishPendingWrite, wp_bind]
  refine (finishWrite_spec hw).mono fun r io₁ h => ?_
  cases r with
  | ready _ => exact (finishFlush_spec h.2).mono fun r io₂ h' => WritePost.after h.1 h'
  | pending => exact h
  | fail e => exact h
  | panic m => exact h
  | diverge => exact h

/-- With nothing pending there is nothing to finish. -/
theorem pollFinishPendingWrite_idle (h : io.canPollWrite = true) :
    pollFinishPendingWrite io = (.ready (), io) := by
  obtain ⟨hb, hn, -⟩ := canPollWrite_iff.mp h
  simp [pollFinishPendingWrite, finishWrite, finishFlush, hb, hn]

/-! ### A failure to come -/

/-- Whether what is left of a write fails. -/
def failsLeft (io : BufIo) : Bool := leftFails io.backlog.length io.needFlush io.inner.tx

theorem finishRound_fails {b : ConsumeBuf} (hb : io.writeBuf = some b) :
    wp (finishRound ()) (fun r io' => match r with
      | .ready _ => io'.failsLeft = io.failsLeft
      | .pending => io.failsLeft = false
      | .fail _ => io.failsLeft = true
      | .panic _ | .diverge => True) io := by
  rw [finishRound, wp_bind, wp_get, bindPost, hb]
  simp only [wp_ite]
  split
  · rfl
  · next he =>
    have hne : b.rest.length ≠ 0 := fun h => he (b.isEmpty_iff.mpr (List.length_eq_zero_iff.mp h))
    have hleft : io.failsLeft = leftFails b.rest.length io.needFlush io.inner.tx := by
      rw [failsLeft, backlog_of_some hb]
    rw [wp_bind, wp, callInner]
    rcases hp : io.inner.pollWrite b.rest with ⟨w, t⟩
    obtain ⟨-, hpend, hfail, hacc⟩ := Transport.pollWrite_tx hp
    cases w with
    | none =>
        show io.failsLeft = false
        rw [hleft, hpend rfl]
        obtain ⟨n, hn⟩ := Nat.exists_eq_succ_of_ne_zero hne
        rw [hn]; rfl
    | some x =>
        cases x with
        | error e =>
            show io.failsLeft = true
            rw [hleft, hfail e rfl]
            obtain ⟨n, hn⟩ := Nat.exists_eq_succ_of_ne_zero hne
            rw [hn]; rfl
        | ok k =>
            have hk := ((Transport.pollWrite_spec hp).1 k rfl).1
            obtain ⟨b', hc, hr⟩ := b.consume_ok (n := k) (by rwa [b.length_rest] at hk)
            simp only [bindPost, wp_bind, wp_modify, lift, wp_pure, hc, orPanic]
            rw [hleft, failsLeft, backlog_of_some (b := b') rfl, hr, List.length_drop]
            show leftFails _ io.needFlush t.tx = _
            rcases hacc k rfl with ⟨hnil, hnil'⟩ | ⟨n, hn, hkn⟩
            · rw [hnil, hnil', leftFails_nil, leftFails_nil]
            · rw [hn, leftFails_accept hne, hkn]
              congr 1
              omega

/-- The loop of `poll_finish_pending_write`. -/
theorem finishLoop_fails {b : ConsumeBuf} (hb : io.writeBuf = some b) :
    wp (loop (fun _ io => io.txWeight) finishRound ()) (fun r io' => match r with
      | .ready _ => io'.failsLeft = io.failsLeft
      | .pending => io.failsLeft = false
      | .fail _ => io.failsLeft = true
      | .panic _ | .diverge => True) io := by
  refine wp_loop finishRound_decreases (fun _ io₁ => io₁.failsLeft = io.failsLeft) ?_ ⟨b, hb⟩ rfl
  rintro _ io₁ ⟨b₁, hb₁⟩ heq
  refine (finishRound_fails hb₁).mono fun r io₂ h => ?_
  cases r with
  | ready f =>
      cases f with
      | again _ => exact h.trans heq
      | done _ => exact h.trans heq
  | pending => exact heq.symm.trans h
  | fail e => exact heq.symm.trans h
  | panic m => trivial
  | diverge => trivial

theorem finishWrite_fails (hw : io.TxWf) : wp finishWrite (fun r io' => match r with
    | .ready _ => io'.backlog = [] ∧ io'.failsLeft = io.failsLeft
    | .pending => io.failsLeft = false
    | .fail _ => io.failsLeft = true
    | .panic _ | .diverge => False) io := by
  rw [finishWrite, wp_bind, wp_get, bindPost]
  simp only [wp_ite, wp_bind]
  cases hb : io.writeBuf with
  | none =>
      refine ⟨?_, rfl⟩
      show (io.writeBuf.map ConsumeBuf.rest).getD [] = []
      rw [hb]
      rfl
  | some b =>
      rw [Option.isSome_some, if_pos rfl]
      refine ((finishLoop_spec hb hw).and (finishLoop_fails hb)).mono fun r io₁ h => ?_
      obtain ⟨⟨-, -, hr⟩, hf⟩ := h
      cases r with
      | ready _ =>
          refine ⟨rfl, hf ▸ ?_⟩
          rw [failsLeft, failsLeft, hr.1]
          rfl
      | pending => exact hf
      | fail e => exact hf
      | panic m => exact hr
      | diverge => exact hr

theorem finishFlush_fails (hb : io.backlog = []) :
    wp finishFlush (fun r _ => (∃ e, r = .fail e) ↔ io.failsLeft = true) io := by
  rw [failsLeft, hb, List.length_nil, leftFails_flush, finishFlush, wp_bind, wp_get, bindPost]
  simp only [wp_ite, wp_bind]
  cases hn : io.needFlush with
  | false => simp
  | true =>
      rw [if_pos rfl, wp, callInner]
      rcases htx : io.inner.tx with _ | ⟨_ | k | e, tx⟩ <;>
        simp [Transport.pollFlush, htx, bindPost, lift]

/-- **When a `poll_finish_pending_write` fails.** -/
theorem pollFinishPendingWrite_fails (hw : io.TxWf) :
    wp pollFinishPendingWrite (fun r _ => (∃ e, r = .fail e) ↔ io.failsLeft = true) io := by
  rw [pollFinishPendingWrite, wp_bind]
  refine (finishWrite_fails hw).mono fun r io₁ h => ?_
  cases r with
  | ready _ => exact h.2 ▸ finishFlush_fails h.1
  | pending => simp [bindPost, h]
  | fail e => simp [bindPost, h]
  | panic m => exact h.elim
  | diverge => exact h.elim
/-! ### `poll_write_all` -/

/-- What the rounds of `poll_write_all` up to `pos` have done. -/
structure Halfway (bs : Bytes) (pos : Nat) (io io' : BufIo) : Prop where
  pos_le : pos ≤ bs.length
  readSide : io'.readSide = io.readSide
  written : io'.inner.written = io.inner.written ++ bs.take pos
  tx : io'.inner.tx <:+ io.inner.tx
  idle : io'.canPollWrite = true
  through : through bs.length io.inner.tx = true →
    HreqH1.through (bs.length - pos) io'.inner.tx = true

theorem Halfway.writes {pos : Nat} (hi : io.canPollWrite = true) (h : Halfway bs pos io io') :
    Writes (bs.take pos) io io' where
  readSide := h.readSide
  given := by
    rw [given_of_none (canPollWrite_iff.mp h.idle).1, given_of_none (canPollWrite_iff.mp hi).1]
    exact h.written
  tx := h.tx

/-- What a round of `poll_write_all` comes to at `pos`. -/
def WriteRoundPost (bs : Bytes) (flush : Bool) (pos : Nat) (io io₁ : BufIo) :
    Outcome IoError (Flow Nat Unit) → BufIo → Prop
  | .ready (.again pos'), io' => Halfway bs pos' io io' ∧
      io'.inner.tx.length + (bs.length - pos') < io₁.inner.tx.length + (bs.length - pos)
  | .ready (.done _), io' => pos = bs.length ∧ io' = io₁
  | .pending, io' => WritePost bs flush io .pending io'
  | .fail e, io' => WritePost bs flush io (.fail e) io'
  | .panic _, _ => False
  | .diverge, _ => False

theorem writeRound_spec {pos : Nat} {io₁ : BufIo} (hi : io.canPollWrite = true)
    (h : Halfway bs pos io io₁) :
    wp (writeRound bs flush pos) (WriteRoundPost bs flush pos io io₁) io₁ := by
  rw [writeRound, wp_ite]
  split
  · next he => exact ⟨he, rfl⟩
  · next he =>
    have hpos := h.pos_le
    have hlen : (bs.drop pos).length = bs.length - pos := List.length_drop
    have hne : bs.length - pos ≠ 0 := by omega
    obtain ⟨hb, hn, hp₁⟩ := canPollWrite_iff.mp h.idle
    rw [wp_bind, wp, callInner]
    rcases hp : io₁.inner.pollWrite (bs.drop pos) with ⟨w, t⟩
    obtain ⟨hok, hnot, -, -, hrx, heof⟩ := Transport.pollWrite_spec hp
    obtain ⟨hsuf, hpend, hfail, hacc⟩ := Transport.pollWrite_tx hp
    have hread : ∀ b p n, BufIo.readSide
        { io₁ with inner := t, pendingTx := p, writeBuf := b, needFlush := n } = io.readSide :=
      fun b p n => by rw [← h.readSide]; simp only [BufIo.readSide, hrx, heof]
    cases w with
    | none =>
        refine ⟨⟨hread _ _ _, ?_, hsuf.trans h.tx⟩, ⟨?_, fun _ => .inl rfl⟩, rfl, ?_, fun _ => ?_⟩
        · rw [given_of_some (b := .new (bs.drop pos)) rfl,
            given_of_none (canPollWrite_iff.mp hi).1, ConsumeBuf.rest_new]
          show t.written ++ _ = _
          rw [hnot (by simp), h.written, List.append_assoc, List.take_append_drop]
        · rintro b ⟨⟩ hnil
          rw [ConsumeBuf.rest_new] at hnil
          rw [hnil] at hlen
          exact hne hlen.symm
        · exact Nat.lt_of_lt_of_le (pending_shorter (hpend rfl)) h.tx.length_le
        · -- A `Pending` is in the way of the rest.
          by_contra hthr
          have := h.through (Bool.not_eq_false _ ▸ hthr)
          rw [hpend rfl] at this
          cases hk : bs.length - pos with
          | zero => exact hne hk
          | succ k => rw [hk] at this; cases this
    | some x =>
        cases x with
        | error e =>
            refine ⟨⟨bs.take pos, List.take_prefix _ _, hread _ _ _, ?_, hsuf.trans h.tx⟩, ?_, ?_⟩
            · refine Eq.trans (given_of_none hb) ?_
              rw [given_of_none (canPollWrite_iff.mp hi).1]
              exact (hnot (by simp)).trans h.written
            · exact txWf_of_none hb (by simp)
            · exact fun hc => not_txClean (hfail e rfl) (hc.suffix h.tx)
        | ok k =>
            obtain ⟨hk, hwr, hlt⟩ := hok k rfl
            rw [hlen] at hk hlt
            refine ⟨⟨by omega, hread _ _ _, ?_, hsuf.trans h.tx, ?_, fun hthr => ?_⟩, ?_⟩
            · show t.written = _
              rw [hwr, h.written, List.append_assoc, ← List.take_add]
            · exact canPollWrite_iff.mpr ⟨hb, hn, rfl⟩
            · show HreqH1.through _ t.tx = true
              rcases hacc k rfl with ⟨-, hnil⟩ | ⟨n, hn', hkn⟩
              · rw [hnil]; rfl
              · have := h.through hthr
                rw [hn', through_accept hne] at this
                rw [hlen] at hkn
                have hsub : bs.length - (pos + k) = bs.length - pos - n := by omega
                rw [hsub]
                exact this
            · show t.tx.length + _ < _
              have := hsuf.length_le
              omega

theorem writeRound_decreases (hi : io.canPollWrite = true) :
    Decreases (fun pos io₁ => Halfway bs pos io io₁)
      (fun pos io => io.inner.tx.length + (bs.length - pos)) (writeRound bs flush) :=
  fun _ _ _ _ h hx => wp_elim (writeRound_spec hi h) hx

theorem writeTaken_spec (hi : io.canPollWrite = true) :
    wp (writeTaken bs flush) (WritePost bs flush io) io := by
  have hstart : Halfway bs 0 io io :=
    ⟨Nat.zero_le _, rfl, (List.append_nil _).symm, List.suffix_refl _, hi, id⟩
  rw [writeTaken, wp_bind]
  refine wp.mono (Q := fun r io' => match r with
    | .ready _ => Halfway bs bs.length io io'
    | r => WritePost bs flush io r io') ?_ fun r io₁ h => ?_
  · refine wp_loop (writeRound_decreases hi) (fun pos io₁ => Halfway bs pos io io₁) ?_ hstart hstart
    intro pos io₁ h _
    refine (writeRound_spec hi h).mono fun r io' h' => ?_
    cases r with
    | ready f =>
        cases f with
        | again _ => exact h'.1
        | done _ =>
            obtain ⟨rfl, rfl⟩ := h'
            exact h
    | pending => exact h'
    | fail e => exact h'
    | panic m => exact h'
    | diverge => exact h'
  · cases r with
    | pending => exact h
    | fail e => exact h
    | panic m => exact h
    | diverge => exact h
    | ready _ =>
        have hwr := h.writes hi
        rw [List.take_length] at hwr
        obtain ⟨hb, hn, hp₁⟩ := canPollWrite_iff.mp h.idle
        simp only [bindPost, wp_ite, wp_bind]
        cases flush with
        | false => exact ⟨hwr, h.idle, by simp⟩
        | true =>
            rw [if_pos rfl, wp, callInner]
            rcases hp : io₁.inner.pollFlush with ⟨u, t⟩
            obtain ⟨hfl, -, -, hw', -⟩ := Transport.pollFlush_spec hp
            obtain ⟨-, hpend, hfail⟩ := Transport.pollFlush_tx hp
            have hmove : ∀ p n, Writes bs io { io₁ with inner := t, pendingTx := p, needFlush := n } :=
              fun p n => List.append_nil bs ▸ hwr.trans (writes_flush hp p n)
            cases u with
            | none =>
                refine ⟨hmove true true, txWf_of_none hb fun _ => rfl, rfl, ?_, fun _ => ?_⟩
                · exact Nat.lt_of_lt_of_le (pending_shorter (hpend rfl)) h.tx.length_le
                · by_contra hthr
                  have := h.through (Bool.not_eq_false _ ▸ hthr)
                  rw [hpend rfl, Nat.sub_self] at this
                  cases this
            | some x =>
                cases x with
                | error e =>
                    refine ⟨⟨bs, List.prefix_refl _, ?_⟩, txWf_of_none hb (by intros; contradiction), ?_⟩
                    · exact hn ▸ hmove false io₁.needFlush
                    · exact fun hc => not_txClean (hfail e rfl) (hc.suffix h.tx)
                | ok _ =>
                    refine ⟨hn ▸ hmove false io₁.needFlush, ?_, fun _ => ?_⟩
                    · exact canPollWrite_iff.mpr ⟨hb, hn, rfl⟩
                    · show t.flushed = t.written.length
                      rw [hfl rfl, hw']

/-- **What a write of a caller's own buffer comes to**, where nothing is pending. -/
theorem writeAll_spec (hi : io.canPollWrite = true) :
    wp (writeAll bs flush) (WritePost bs flush io) io := by
  have hx : pollWriteAll flush (io, some bs) =
      ((writeTaken bs flush io).1, ((writeTaken bs flush io).2, none)) := by
    obtain ⟨hb, hn, -⟩ := canPollWrite_iff.mp hi
    have hidle : (zoom Prod.fst (fun (s : BufIo × Option Bytes) io => (io, s.2)) (do
        pollFinishPendingWrite
        assert (← get).writeBuf.isNone "assertion failed: this.write_buf.is_none()"
        assert (!(← get).needFlush) "assertion failed: !this.need_flush") : PollM IoError _ Unit)
        (io, some bs) = (.ready (), (io, some bs)) := by
      rw [run_zoom, run_bind_ready (pollFinishPendingWrite_idle hi)]
      simp [assert, hb, hn]
    rw [pollWriteAll, run_bind_ready hidle]
    rfl
  have h : wp (writeTaken bs flush) (WritePost bs flush io) io := writeTaken_spec hi
  rw [wp] at h
  rw [wp, writeAll, hx]
  cases hr : (writeTaken bs flush io).1 with
  | ready a => rw [hr] at h; exact h
  | pending => rw [hr] at h; exact h
  | fail e => rw [hr] at h; exact h
  | panic m => rw [hr] at h; exact h
  | diverge => rw [hr] at h; exact h

/-! ### The two sides -/

section Sides

theorem Reads.txWf (h : Reads bs io io') (hw : io.TxWf) : io'.TxWf := by
  have hs := h.writeSide
  simp only [BufIo.writeSide, Prod.mk.injEq] at hs
  obtain ⟨-, -, -, hp, hb, hn⟩ := hs
  exact ⟨fun b h => hw.writeBuf b (hb ▸ h), fun h => by rw [hb, hn]; exact hw.pendingTx (hp ▸ h)⟩

theorem Reads.given (h : Reads bs io io') : io'.given = io.given := by
  have hs := h.writeSide
  simp only [BufIo.writeSide, Prod.mk.injEq] at hs
  rw [BufIo.given, BufIo.given, backlog, backlog, hs.2.1, hs.2.2.2.2.1]

theorem Reads.tx (h : Reads bs io io') : io'.inner.tx = io.inner.tx :=
  congrArg (fun s => s.1) h.writeSide

theorem Reads.canPollWrite (h : Reads bs io io') : io'.canPollWrite = io.canPollWrite := by
  have hs := h.writeSide
  simp only [BufIo.writeSide, Prod.mk.injEq] at hs
  rw [BufIo.canPollWrite, BufIo.canPollWrite, hs.2.2.2.1, hs.2.2.2.2.1, hs.2.2.2.2.2]

/-- A move of the writer is none of the reader. -/
theorem Writes.reads_eq (h : Writes bs io io') : io'.unread = io.unread ∧
    io'.inner.rx = io.inner.rx ∧ io'.inner.eof = io.inner.eof ∧ io'.pendingRx = io.pendingRx ∧
    io'.fills = io.fills ∧ io'.buf = io.buf ∧ io'.pos = io.pos := by
  have hs := h.readSide
  simp only [BufIo.readSide, Prod.mk.injEq] at hs
  obtain ⟨hrx, heof, hbuf, hpos, hp, hf⟩ := hs
  exact ⟨by rw [unread, unread, hbuf, hpos], hrx, heof, hp, hf, hbuf, hpos⟩

theorem Writes.stream (h : Writes bs io io') : io'.stream = io.stream := by
  obtain ⟨hu, hrx, -⟩ := h.reads_eq
  rw [BufIo.stream, BufIo.stream, hu, Transport.coming, Transport.coming, hrx]

theorem Writes.weight (h : Writes bs io io') : io'.weight = io.weight := by
  obtain ⟨hu, hrx, -⟩ := h.reads_eq
  rw [BufIo.weight, BufIo.weight, hu, Transport.rxWeight, Transport.rxWeight, hrx]

theorem Writes.wf (h : Writes bs io io') (hw : io.Wf) : io'.Wf := by
  obtain ⟨-, -, -, -, hf, hb, hp⟩ := h.reads_eq
  exact ⟨hb ▸ hw.capacity_pos, hb ▸ hp ▸ hw.pos_lt, hf ▸ hw.fills⟩

/-- What reading and writing need. -/
structure Sound (io : BufIo) : Prop where
  wf : io.Wf
  txWf : io.TxWf

theorem sound_withCapacity {capacity : Nat} (h : 0 < capacity) (inner : Transport) :
    Sound (.withCapacity capacity inner) where
  wf := ⟨h, .inr ⟨rfl, rfl⟩, by intros; contradiction⟩
  txWf := txWf_of_canPollWrite rfl

theorem Sound.reads (h : Sound io) (hr : Reads bs io io') : Sound io' :=
  ⟨hr.wf h.wf, hr.txWf h.txWf⟩

theorem Sound.writes (h : Sound io) (hw : Writes bs io io') (ht : io'.TxWf) : Sound io' :=
  ⟨hw.wf h.wf, ht⟩

end Sides

end BufIo

end HreqH1
