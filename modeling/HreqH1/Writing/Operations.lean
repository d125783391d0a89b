import HreqH1.Support.Runs
import HreqH1.Writing.Writes

/-!
# Writing — operations of the write side

The write side of a `BufIo` is used through `poll_write_all`, with a buffer or with one that has been
taken before, and `poll_finish_pending_write`, in any order.  `writeStep` is one of them, and shows
what it comes to and the buffer it takes.

Over a writer that does not fail, a buffer is taken whole or left alone (`pollWriteAll_spec`), what
has been taken is accepted or pending, in order, and a flush that was asked for stays due until it has
covered all that was taken before (`Covered`).  So where the buffer can be written to again, nothing
is left to accept or to flush (`all_or_nothing`).
-/

namespace HreqH1.BufIo
open PollM Runs
variable {io io' : BufIo} {bs : Bytes} {flush : Bool} {m : Nat}

/-! ### Flushes -/

/-- A flush of the first `m` bytes that were given has completed, or is still to come. -/
structure Covered (m : Nat) (io : BufIo) : Prop where
  le : m ≤ io.given.length
  due : m ≤ io.inner.flushed ∨ io.needFlush = true

/-- What was covered stays so where nothing is flushed, and the need for it stays. -/
theorem Covered.same (h : Covered m io) (hg : io'.given = io.given ++ bs)
    (hf : io'.inner.flushed = io.inner.flushed) (hn : io.needFlush = true → io'.needFlush = true) :
    Covered m io' where
  le := by
    rw [hg, List.length_append]
    exact Nat.le_trans h.le (Nat.le_add_right _ _)
  due := by
    rw [hf]
    exact h.due.imp id hn

/-- A flush covers all that was given where no write is pending. -/
theorem Covered.flushed (h : Covered m io) (hg : io'.given = io.given)
    (hb : io'.writeBuf = none) (hf : io'.inner.flushed = io'.inner.written.length) :
    Covered m io' where
  le := hg ▸ h.le
  due := by
    left
    rw [hf, ← given_of_none hb, hg]
    exact h.le

/-- Nothing is flushed, and a flush that is needed stays so. -/
def Unflushed (io io' : BufIo) : Prop :=
  io'.inner.flushed = io.inner.flushed ∧ io'.needFlush = io.needFlush

theorem Unflushed.trans {io'' : BufIo} (h : Unflushed io io') (h' : Unflushed io' io'') :
    Unflushed io io'' := ⟨h'.1.trans h.1, h'.2.trans h.2⟩

theorem finishRound_unflushed {b : ConsumeBuf} (hb : io.writeBuf = some b) :
    wp (finishRound ()) (fun _ io' => Unflushed io io') io := by
  rw [finishRound, wp_bind, wp_get, bindPost, hb]
  simp only [wp_ite]
  split
  · exact ⟨rfl, rfl⟩
  · rw [wp_bind, wp, callInner]
    rcases hp : io.inner.pollWrite b.rest with ⟨w, t⟩
    have hf := (Transport.pollWrite_spec hp).2.2.2.1
    rcases w with _ | e | k
    · exact ⟨hf, rfl⟩
    · exact ⟨hf, rfl⟩
    · dsimp only [bindPost]
      rw [wp_bind, wp_modify, bindPost, wp_bind, lift, wp_pure, bindPost, wp_bind]
      cases b.consume k with
      | error m => exact ⟨hf, rfl⟩
      | ok b' => exact ⟨hf, rfl⟩

/-- Finishing a write flushes nothing. -/
theorem finishWrite_unflushed : wp finishWrite (fun _ io' => Unflushed io io') io := by
  rw [finishWrite, wp_bind, wp_get, bindPost]
  simp only [wp_ite, wp_bind]
  cases hb : io.writeBuf with
  | none => exact ⟨rfl, rfl⟩
  | some b =>
      rw [Option.isSome_some, if_pos rfl]
      refine wp.mono (Q := fun _ io' => Unflushed io io') ?_ fun r io₁ h => ?_
      · refine wp_loop finishRound_decreases (fun _ io₁ => Unflushed io io₁) ?_ ⟨b, hb⟩ ⟨rfl, rfl⟩
        rintro _ io₁ ⟨b₁, hb₁⟩ heq
        refine (finishRound_unflushed hb₁).mono fun r io₂ h => ?_
        rcases r with _ | (_ | _) | _ | _ | _ <;> exact heq.trans h
      · cases r <;> exact h

/-- Finishing a flush completes it, or leaves the need for it. -/
theorem finishFlush_covered (hw : io.Written) (hm : Covered m io) :
    wp finishFlush (fun _ io' => Covered m io') io := by
  rw [finishFlush, wp_bind, wp_get, bindPost]
  simp only [wp_ite, wp_bind]
  cases hn : io.needFlush with
  | false => exact hm
  | true =>
      rw [if_pos rfl, wp, callInner]
      rcases hp : io.inner.pollFlush with ⟨u, t⟩
      obtain ⟨hok, hnot, -, hwr, -⟩ := Transport.pollFlush_spec hp
      have hgiven : ∀ p n, BufIo.given { io with inner := t, pendingTx := p, needFlush := n } =
          io.given := fun p n => by
        have hg := (writes_flush hp p n).given
        rwa [List.append_nil] at hg
      have hleft : u ≠ some (.ok ()) → ∀ p, Covered m { io with inner := t, pendingTx := p } :=
        fun hu p => hm.same ((hgiven p io.needFlush).trans (List.append_nil _).symm) (hnot hu) id
      rcases u with _ | e | _
      · exact hleft (by simp) true
      · exact hleft (by simp) false
      · exact hm.flushed (hgiven false false) hw.1 ((hok rfl).trans (congrArg _ hwr.symm))

/-- **What is covered stays so** while pending writes are finished. -/
theorem pollFinishPendingWrite_covered (hw : io.TxWf) (hm : Covered m io) :
    wp pollFinishPendingWrite (fun _ io' => Covered m io') io := by
  rw [pollFinishPendingWrite, wp_bind]
  refine ((finishWrite_spec hw).and finishWrite_unflushed).mono fun r io₁ h => ?_
  obtain ⟨hs, hf, hn⟩ := h
  have hkeep : Writes [] io io₁ → Covered m io₁ := fun hwr =>
    hm.same hwr.given hf fun h => hn.trans h
  cases r with
  | ready _ => exact finishFlush_covered hs.2 (hkeep hs.1)
  | pending => exact hkeep hs.1
  | fail e =>
      obtain ⟨⟨front, hfr, hwr⟩, -⟩ := hs
      exact hm.same hwr.given hf fun h => hn.trans h
  | panic m => exact hs.elim
  | diverge => exact hs.elim

theorem writeRound_unflushed {pos : Nat} (hi : io.needFlush = false) :
    wp (writeRound bs flush pos) (fun r io' => io'.inner.flushed = io.inner.flushed ∧
      match r with
      | .pending => io'.needFlush = flush
      | _ => io'.needFlush = false) io := by
  rw [writeRound, wp_ite]
  split
  · exact ⟨rfl, hi⟩
  · rw [wp_bind, wp, callInner]
    rcases hp : io.inner.pollWrite (bs.drop pos) with ⟨w, t⟩
    have hf := (Transport.pollWrite_spec hp).2.2.2.1
    rcases w with _ | e | k
    · exact ⟨hf, rfl⟩
    · exact ⟨hf, hi⟩
    · exact ⟨hf, hi⟩

/-- The loop of `poll_write_all` over a writer that does not fail. -/
theorem writeLoop_unflushed (hi : io.canPollWrite = true) (hc : TxClean io.inner.tx) :
    wp (loop (fun pos io => io.inner.tx.length + (bs.length - pos)) (writeRound bs flush) 0)
      (fun r io' => io'.inner.flushed = io.inner.flushed ∧ match r with
        | .ready _ => Halfway bs bs.length io io'
        | .pending => Writes bs io io' ∧ io'.needFlush = flush
        | _ => False) io := by
  have hstart : Halfway bs 0 io io :=
    ⟨Nat.zero_le _, rfl, (List.append_nil _).symm, List.suffix_refl _, hi, id⟩
  refine wp_loop (writeRound_decreases hi) (fun _ io₁ => io₁.inner.flushed = io.inner.flushed) ?_
    hstart rfl
  intro pos io₁ h heq
  have hn := (canPollWrite_iff.mp h.idle).2.1
  refine ((writeRound_spec hi h).and (writeRound_unflushed hn)).mono fun r io₂ hr => ?_
  obtain ⟨hs, hf, hn₂⟩ := hr
  cases r with
  | ready f =>
      cases f with
      | again _ => exact hf.trans heq
      | done _ =>
          obtain ⟨rfl, rfl⟩ := hs
          exact ⟨heq, h⟩
  | pending => exact ⟨hf.trans heq, hs.1, hn₂⟩
  | fail e => exact absurd hc hs.2.2
  | panic m => exact hs.elim
  | diverge => exact hs.elim

/-- What was covered stays so, and so is all that was given where a flush was asked for. -/
def CoversAll (flush : Bool) (io io' : BufIo) : Prop :=
  (∀ m, Covered m io → Covered m io') ∧ (flush = true → Covered io'.given.length io')

theorem coversAll_of_flushed (h : Writes bs io io') (hb : io'.writeBuf = none)
    (hf : io'.inner.flushed = io'.inner.written.length) : CoversAll flush io io' := by
  have hdue : io'.given.length ≤ io'.inner.flushed := by
    rw [given_of_none hb, hf]
  have hle : io.given.length ≤ io'.given.length := by
    rw [h.given, List.length_append]
    exact Nat.le_add_right _ _
  exact ⟨fun m hm => ⟨Nat.le_trans hm.le hle, .inl (Nat.le_trans hm.le (Nat.le_trans hle hdue))⟩,
    fun _ => ⟨Nat.le_refl _, .inl hdue⟩⟩

theorem coversAll_of_needed (h : Writes bs io io') (hn : io.needFlush = false)
    (hf : io'.inner.flushed = io.inner.flushed) (hneed : flush = true → io'.needFlush = true) :
    CoversAll flush io io' :=
  ⟨fun _ hm => hm.same h.given hf fun h => (by rw [hn] at h; cases h),
    fun he => ⟨Nat.le_refl _, .inr (hneed he)⟩⟩

/-- A buffer that is taken. -/
theorem writeTaken_covers (hi : io.canPollWrite = true) (hc : TxClean io.inner.tx) :
    wp (writeTaken bs flush) (fun _ io' => CoversAll flush io io') io := by
  have hn := (canPollWrite_iff.mp hi).2.1
  rw [writeTaken, wp_bind]
  refine (writeLoop_unflushed hi hc).mono fun r io₁ h => ?_
  obtain ⟨hf, h⟩ := h
  cases r with
  | pending => exact coversAll_of_needed h.1 hn hf fun he => h.2.trans he
  | fail e => exact h.elim
  | panic m => exact h.elim
  | diverge => exact h.elim
  | ready _ =>
      have hwr := h.writes hi
      rw [List.take_length] at hwr
      dsimp only [bindPost]
      rw [wp_ite]
      cases flush with
      | false => exact coversAll_of_needed hwr hn hf (by simp)
      | true =>
          rw [if_pos rfl, wp_bind, wp, callInner]
          rcases hp : io₁.inner.pollFlush with ⟨u, t⟩
          obtain ⟨hok, hnot, -, hw', -⟩ := Transport.pollFlush_spec hp
          have hmove : ∀ p n, Writes bs io { io₁ with inner := t, pendingTx := p, needFlush := n } :=
            fun p n => List.append_nil bs ▸ hwr.trans (writes_flush hp p n)
          rcases u with _ | e | _
          · exact coversAll_of_needed (hmove true true) hn ((hnot (by simp)).trans hf) fun _ => rfl
          · exact absurd (hc.suffix h.tx) (not_txClean ((Transport.pollFlush_tx hp).2.2 e rfl))
          · exact coversAll_of_flushed (hmove false io₁.needFlush) (canPollWrite_iff.mp h.idle).1
              ((hok rfl).trans (congrArg _ hw'.symm))

/-! ### `poll_write_all` -/

/-- What a `poll_write_all` comes to, over a writer that does not fail: it has taken `bs`, which is
its whole buffer or nothing of it. -/
structure WroteAll (flush : Bool) (buf : Option Bytes) (io : BufIo) (r : Outcome IoError Unit)
    (io' : BufIo) (buf' : Option Bytes) (bs : Bytes) : Prop where
  taken : buf' = none ∧ bs = buf.getD [] ∨ r = .pending ∧ buf' = buf ∧ bs = []
  writes : Writes bs io io'
  txWf : io'.TxWf
  covered : ∀ m, Covered m io → Covered m io'
  covers : buf'.isNone = true → buf.isSome = true → flush = true → Covered io'.given.length io'
  sound : r = .pending ∨ r = .ready () ∧ io'.canPollWrite = true

theorem pollWriteAll_spec (hw : io.TxWf) (hc : TxClean io.inner.tx) (buf : Option Bytes) :
    wp (pollWriteAll flush) (fun r s => ∃ bs, WroteAll flush buf io r s.1 s.2 bs) (io, buf) := by
  rw [pollWriteAll, wp_bind, wp_zoom, wp_bind]
  refine wp_intro fun r io₁ hx => ?_
  have hs := wp_elim (pollFinishPendingWrite_spec hw) hx
  have hcov : ∀ m, Covered m io → Covered m io₁ := fun m hm =>
    wp_elim (pollFinishPendingWrite_covered hw hm) hx
  cases r with
  | pending =>
      refine ⟨[], .inr ⟨rfl, rfl, rfl⟩, hs.1, hs.2.1, hcov, fun hn hsome => ?_, .inl rfl⟩
      cases buf with
      | none => cases hsome
      | some bs => cases hn
  | fail e => exact absurd hc hs.2.2
  | panic m => exact hs.elim
  | diverge => exact hs.elim
  | ready _ =>
      obtain ⟨hwr, hcan, -⟩ := hs
      obtain ⟨hb, hn, -⟩ := canPollWrite_iff.mp hcan
      dsimp only [bindPost]
      rw [wp_bind, wp_get, bindPost, wp_bind, wp_assert, hb, if_pos (by rfl), bindPost, wp_bind,
        wp_get, bindPost, wp_assert, hn, if_pos (by rfl)]
      dsimp only [bindPost]
      rw [wp_bind, wp_get, bindPost]
      cases buf with
      | none =>
          exact ⟨[], .inl ⟨rfl, rfl⟩, hwr, txWf_of_canPollWrite hcan, hcov, by simp, .inr ⟨rfl, hcan⟩⟩
      | some bs =>
          dsimp only
          rw [wp_bind, wp_modify, bindPost, wp_zoom]
          refine ((writeTaken_spec hcan).and (writeTaken_covers hcan (hwr.clean hc))).mono
            fun r io₂ h => ?_
          obtain ⟨hs, hkeep, hnew⟩ := h
          have hcov₂ : ∀ m, Covered m io → Covered m io₂ := fun m hm => hkeep m (hcov m hm)
          cases r with
          | pending =>
              exact ⟨bs, .inl ⟨rfl, rfl⟩, hwr.trans hs.1, hs.2.1, hcov₂, fun _ _ => hnew, .inl rfl⟩
          | fail e => exact absurd (hwr.clean hc) hs.2.2
          | panic m => exact hs.elim
          | diverge => exact hs.elim
          | ready _ =>
              exact ⟨bs, .inl ⟨rfl, rfl⟩, hwr.trans hs.1, txWf_of_canPollWrite hs.2.1, hcov₂,
                fun _ _ => hnew, .inr ⟨rfl, hs.2.1⟩⟩

/-! ### Runs -/

/-- An operation of the write side: `poll_write_all`, with the caller's buffer if it has not been
taken, or `poll_finish_pending_write`. -/
inductive WriteOp where
  | writeAll (buf : Option Bytes) (flush : Bool)
  | finishPending

/-- What an operation shows: its outcome, and the buffer it has taken, with the flush that was asked
for. -/
structure WriteObs where
  outcome : Outcome IoError Unit
  taken : Option (Bytes × Bool)

def writeStep : WriteOp → BufIo → WriteObs × BufIo
  | .writeAll buf flush, io =>
      let polled := pollWriteAll flush (io, buf)
      (⟨polled.1, if polled.2.2.isNone then buf.map fun bs => (bs, flush) else none⟩, polled.2.1)
  | .finishPending, io => (⟨(pollFinishPendingWrite io).1, none⟩, (pollFinishPendingWrite io).2)

/-- The bytes of all buffers that were taken, in order. -/
def takenBytes (os : List WriteObs) : Bytes :=
  os.flatMap fun o => (o.taken.map Prod.fst).getD []

/-- How many of the bytes that were taken a flush was asked for, each time it was: after `start`
bytes. -/
def flushMarks : Nat → List WriteObs → List Nat
  | _, [] => []
  | start, o :: os =>
      match o.taken with
      | none => flushMarks start os
      | some (bs, flush) =>
          if flush then (start + bs.length) :: flushMarks (start + bs.length) os
          else flushMarks (start + bs.length) os

theorem takenBytes_concat (os : List WriteObs) (o : WriteObs) :
    takenBytes (os ++ [o]) = takenBytes os ++ (o.taken.map Prod.fst).getD [] := by
  rw [takenBytes, List.flatMap_append, List.flatMap_singleton, takenBytes]

theorem flushMarks_concat (start : Nat) (os : List WriteObs) (o : WriteObs) :
    flushMarks start (os ++ [o]) =
      flushMarks start os ++ flushMarks (start + (takenBytes os).length) [o] := by
  induction os generalizing start with
  | nil => rfl
  | cons p os ih =>
      rw [List.cons_append, flushMarks, flushMarks]
      have htaken : takenBytes (p :: os) = (p.taken.map Prod.fst).getD [] ++ takenBytes os := rfl
      rw [htaken]
      cases p.taken with
      | none => exact ih start
      | some t =>
          obtain ⟨bs, flush⟩ := t
          dsimp only [Option.map_some, Option.getD_some]
          rw [List.length_append, ← Nat.add_assoc, ih]
          cases flush <;> rfl

/-- A `poll_write_all` that is `Pending` has taken its buffer whole, or has left it with the caller and
written none of it. -/
def AllOrNothing (io : BufIo) : WriteOp → Prop
  | .writeAll (some bs) flush =>
      let polled := pollWriteAll flush (io, some bs)
      polled.1 = .pending → polled.2.2 = none ∧ polled.2.1.given = io.given ++ bs ∨
        polled.2.2 = some bs ∧ polled.2.1.given = io.given
  | _ => True

/-- What was given to the writer, `start` and then what was taken in `os`; and each flush that was
asked for has completed, or is to come. -/
structure InOrder (start : Bytes) (os : List WriteObs) (io : BufIo) : Prop where
  txWf : io.TxWf
  clean : TxClean io.inner.tx
  given : io.given = start ++ takenBytes os
  covered : ∀ m ∈ flushMarks start.length os, Covered m io

section Runs
variable {start : Bytes} {os : List WriteObs}

/-- The order goes on with an operation that has taken something, or nothing. -/
theorem InOrder.concat {o : WriteObs} (h : InOrder start os io)
    (hw : Writes ((o.taken.map Prod.fst).getD []) io io') (ht : io'.TxWf)
    (hk : ∀ m, Covered m io → Covered m io')
    (hnew : ∀ bs, o.taken = some (bs, true) → Covered io'.given.length io') :
    InOrder start (os ++ [o]) io' where
  txWf := ht
  clean := hw.clean h.clean
  given := by rw [hw.given, h.given, takenBytes_concat, List.append_assoc]
  covered := by
    intro m hm
    rw [flushMarks_concat] at hm
    rcases List.mem_append.mp hm with hm | hm
    · exact hk m (h.covered m hm)
    · rw [flushMarks] at hm
      cases ho : o.taken with
      | none =>
          rw [ho] at hm
          cases hm
      | some t =>
          obtain ⟨bs, flush⟩ := t
          rw [ho] at hm hw
          cases flush with
          | false => cases hm
          | true =>
              have hlen : io'.given.length = start.length + (takenBytes os).length + bs.length := by
                rw [hw.given, h.given, List.length_append, List.length_append]
                rfl
              rcases List.mem_cons.mp hm with rfl | hm
              · exact hlen ▸ hnew bs ho
              · cases hm

/-- **One operation** keeps the order, and takes a buffer whole or leaves it. -/
theorem InOrder.step (h : InOrder start os io) (op : WriteOp) :
    InOrder start (os ++ [(writeStep op io).1]) (writeStep op io).2 ∧ AllOrNothing io op := by
  cases op with
  | finishPending =>
      refine ⟨?_, trivial⟩
      have hcov : ∀ m, Covered m io → Covered m (pollFinishPendingWrite io).2 := fun m hm =>
        pollFinishPendingWrite_covered h.txWf hm
      rcases hx : pollFinishPendingWrite io with ⟨r, io₁⟩
      have hs := wp_elim (pollFinishPendingWrite_spec h.txWf) hx
      rw [hx] at hcov
      rw [writeStep, hx]
      have hnone : ∀ bs, (WriteObs.mk r none).taken = some (bs, true) → Covered io₁.given.length io₁ :=
        fun bs hb => by cases hb
      cases r with
      | ready _ => exact h.concat hs.1 (txWf_of_canPollWrite hs.2.1) hcov hnone
      | pending => exact h.concat hs.1 hs.2.1 hcov hnone
      | fail e => exact absurd h.clean hs.2.2
      | panic m => exact hs.elim
      | diverge => exact hs.elim
  | writeAll buf flush =>
      rcases hx : pollWriteAll flush (io, buf) with ⟨r, io₁, buf'⟩
      have hspec : wp (pollWriteAll flush) _ (io, buf) := pollWriteAll_spec h.txWf h.clean buf
      obtain ⟨bs, hs⟩ := wp_elim hspec hx
      constructor
      · rw [writeStep, hx]
        refine h.concat ?_ hs.txWf hs.covered fun bs' hb => ?_
        · have htaken : bs = ((if buf'.isNone then buf.map fun bs => (bs, flush) else none).map
              Prod.fst).getD [] := by
            rcases hs.taken with ⟨rfl, rfl⟩ | ⟨-, rfl, rfl⟩
            · cases buf <;> rfl
            · cases buf' <;> rfl
          exact htaken ▸ hs.writes
        · dsimp only at hb
          split at hb
          · next hn =>
            obtain ⟨b, hb₁, hb₂⟩ := Option.map_eq_some_iff.mp hb
            cases hb₂
            exact hs.covers hn (by rw [hb₁]; rfl) rfl
          · cases hb
      · cases buf with
        | none => trivial
        | some b =>
            rw [AllOrNothing, hx]
            intro _
            rcases hs.taken with ⟨rfl, rfl⟩ | ⟨-, rfl, rfl⟩
            · exact .inl ⟨rfl, hs.writes.given⟩
            · exact .inr ⟨rfl, hs.writes.given.trans (List.append_nil _)⟩

theorem inOrder_withCapacity (capacity : Nat) {inner : Transport} (hc : TxClean inner.tx) :
    InOrder inner.written [] (withCapacity capacity inner) where
  txWf := txWf_of_canPollWrite rfl
  clean := hc
  given := (given_withCapacity capacity inner).trans (List.append_nil _).symm
  covered := by intros; contradiction

/-- **The write side is all or nothing, and in order.**  Over a writer that does not fail, and in any
order of operations: what the writer has accepted, and what is pending, is what has been taken; a
`Pending` write has taken its buffer whole or left it; and where the buffer can be written to again,
all of it has been accepted, and every flush that was asked for has completed after its bytes. -/
theorem all_or_nothing (capacity : Nat) {inner : Transport} (hc : TxClean inner.tx)
    (ops : List WriteOp) :
    let os := (run writeStep ops (withCapacity capacity inner)).1
    let io := after writeStep ops (withCapacity capacity inner)
    io.inner.written ++ io.backlog = inner.written ++ takenBytes os ∧
      Along writeStep AllOrNothing ops (withCapacity capacity inner) ∧
      (io.canPollWrite = true → io.inner.written = inner.written ++ takenBytes os ∧
        ∀ m ∈ flushMarks inner.written.length os, m ≤ io.inner.flushed) := by
  intro os io
  have hstart := inOrder_withCapacity capacity hc
  have horder : InOrder inner.written os io :=
    run_history (I := InOrder inner.written) (fun _ _ op hI _ => (hI.step op).1)
      (along_true ops _) hstart
  refine ⟨horder.given, ?_, fun hcan => ?_⟩
  · have hinv := along_invariant (I := fun io => ∃ os, InOrder inner.written os io)
      (fun _ op hI _ => hI.elim fun os hI => ⟨_, (hI.step op).1⟩) (along_true ops _) ⟨[], hstart⟩
    exact hinv.mono fun _ op hI => hI.1.elim fun os hI => (hI.step op).2
  · obtain ⟨hb, hn, -⟩ := canPollWrite_iff.mp hcan
    refine ⟨(given_of_none hb).symm.trans horder.given, fun m hm => ?_⟩
    rcases (horder.covered m hm).due with hle | hneed
    · exact hle
    · rw [hn] at hneed
      cases hneed

end Runs

/-- A writer that takes three bytes, is `Pending` twice, and then takes everything. -/
def slowWriter : Transport := ⟨[], false, [.accept 3, .pending, .pending], [], 0⟩

/-- A write with a flush, polled until it is through, and another. -/
def twoWrites : List WriteOp :=
  [.writeAll (some [1, 2, 3, 4, 5]) true, .writeAll none true, .finishPending,
    .writeAll (some [6]) false]

/-- The rest of the first write goes through later, and both are there in the end. -/
theorem all_or_nothing_twoWrites :
    let os := (run writeStep twoWrites (withCapacity 16 slowWriter)).1
    let io := after writeStep twoWrites (withCapacity 16 slowWriter)
    io.inner.written ++ io.backlog = slowWriter.written ++ takenBytes os ∧
      Along writeStep AllOrNothing twoWrites (withCapacity 16 slowWriter) ∧
      (io.canPollWrite = true → io.inner.written = slowWriter.written ++ takenBytes os ∧
        ∀ m ∈ flushMarks slowWriter.written.length os, m ≤ io.inner.flushed) :=
  all_or_nothing 16 (by intro e he; simp [slowWriter] at he) twoWrites

end HreqH1.BufIo
