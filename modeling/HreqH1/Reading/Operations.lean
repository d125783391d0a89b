import HreqH1.Reading.Reads
import HreqH1.Support.Runs

/-!
# Reading — operations of the read side

The read side of a `BufIo` is used through `poll_fill_buf`, `consume`, `poll_read_buf` and
`take_read_buf`, in any order.  Here it is a machine: `readStep` is one operation, and shows the
bytes it hands out and the bytes the inner reader has produced for it.

`offered` is the length of the slice an operation offers the inner reader; `inner_afterOp` says that
it is the one call that is made.  Every operation moves over what it hands out (`reads_afterOp`), so
handed out and unread bytes are the produced ones, along any run (`loses_nothing`).
-/

namespace HreqH1.BufIo
open PollM Runs
variable [VecAlloc] {io : BufIo} {cap : Nat} {inner : Transport}

/-- An operation of the read side. -/
inductive ReadOp where
  | fill (forceAppend : Bool)
  | consume (amount : Nat)
  | readBuf (n : Nat)
  | take
  deriving DecidableEq

/-- The operation, and the bytes it hands out. -/
def readOp : ReadOp → PollM IoError BufIo Bytes
  | .fill forceAppend => (fun _ => []) <$> pollFillBuf forceAppend
  | .consume amount => do
      let io ← get
      consume amount
      pure (io.unread.take amount)
  | .readBuf n => pollReadBuf n
  | .take => takeReadBuf

/-- `consume` of no more than is unread, `poll_read_buf` into a buffer that is not empty, and
`take_read_buf` where `can_take_read_buf` holds. -/
def Allowed (io : BufIo) : ReadOp → Prop
  | .fill _ => True
  | .consume amount => amount ≤ io.unread.length
  | .readBuf n => 0 < n
  | .take => io.canTakeReadBuf = true

instance (io : BufIo) : ∀ op, Decidable (Allowed io op)
  | .fill _ => inferInstanceAs (Decidable True)
  | .consume amount => inferInstanceAs (Decidable (amount ≤ io.unread.length))
  | .readBuf n => inferInstanceAs (Decidable (0 < n))
  | .take => inferInstanceAs (Decidable (io.canTakeReadBuf = true))

/-- The length of the slice that is offered to the inner reader. -/
def offered (io : BufIo) : ReadOp → Option Nat
  | .fill forceAppend =>
      if io.buf.len == 0 || forceAppend then
        match io.buf.borrow with
        | .ok bref => some bref.spare
        | .error _ => none
      else none
  | .readBuf n => if io.buf.len - io.pos > 0 then none else some n
  | .consume _ | .take => none

/-- The bytes the inner reader produces for an operation. -/
def produced (io : BufIo) (op : ReadOp) : Bytes :=
  match offered io op with
  | none => []
  | some n =>
      match (io.inner.pollRead n).1 with
      | some (.ok bs) => bs
      | _ => []

/-- The inner reader after its call. -/
def innerAfter (io : BufIo) (op : ReadOp) : Transport :=
  match offered io op with
  | none => io.inner
  | some n => (io.inner.pollRead n).2

/-- What an operation shows: what it hands out, and what was produced for it. -/
structure ReadObs where
  handed : Bytes
  produced : Bytes

/-- The bytes that are handed out: none where the operation is `Pending`, or fails. -/
def handedOut (io : BufIo) (op : ReadOp) : Bytes :=
  match (readOp op io).1 with
  | .ready bs => bs
  | _ => []

def readStep (op : ReadOp) (io : BufIo) : ReadObs × BufIo :=
  (⟨handedOut io op, produced io op⟩, (readOp op io).2)

/-- The slice that is offered has room, so that `Ok(0)` is an end of the stream that the reader
itself has announced. -/
def OffersRoom (io : BufIo) (op : ReadOp) : Prop :=
  ∀ n, offered io op = some n → 0 < n ∧ ((io.inner.pollRead n).1 = some (.ok []) →
    io.inner.rx = [] ∧ io.inner.eof = true ∨ ∃ rx, io.inner.rx = .data [] :: rx)

/-! ### One operation -/

/-- The call of a `poll_fill_buf`. -/
theorem inner_pollFillBuf (forceAppend : Bool) :
    (pollFillBuf forceAppend io).2.inner = innerAfter io (.fill forceAppend) := by
  show wp (pollFillBuf forceAppend) (fun _ io' => io'.inner = innerAfter io (.fill forceAppend)) io
  rw [pollFillBuf, wp_bind, wp_get, bindPost, innerAfter, offered]
  simp only [wp_bind, wp_ite]
  by_cases hfill : (io.buf.len == 0 || forceAppend) = true
  swap
  · rw [if_neg hfill, if_neg hfill]
    exact rfl
  rw [if_pos hfill, if_pos hfill, borrowBuf, wp_bind, wp_get, bindPost]
  dsimp only
  cases io.buf.borrow with
  | error m => exact rfl
  | ok buf =>
      dsimp only
      rw [wp_modify, bindPost, wp_bind, wp_get, bindPost, wp_bind, wp, callInner]
      dsimp only
      rcases io.inner.pollRead buf.spare with ⟨_ | e | bs, t⟩
      · exact rfl
      · exact rfl
      · dsimp only [bindPost]
        rw [wp_bind, wp_modify, bindPost, wp_bind, wp_get, bindPost]
        cases buf.extend bs with
        | error m => exact rfl
        | ok buf' => exact rfl

/-- **An operation makes one call** of the inner reader at most, with the slice that is offered. -/
theorem inner_afterOp (op : ReadOp) : (readOp op io).2.inner = innerAfter io op := by
  cases op with
  | fill forceAppend => rw [readOp, run_map, inner_pollFillBuf]
  | consume amount =>
      show wp (readOp (.consume amount)) (fun _ io' => io'.inner = io.inner) io
      rw [readOp, wp_bind, wp_get, bindPost, wp_bind, BufIo.consume, wp_bind, wp_get, bindPost,
        wp_bind, wp_assert]
      split
      · rw [bindPost, wp_modify, bindPost, advance]
        split <;> exact rfl
      · exact rfl
  | readBuf n =>
      show wp (pollReadBuf n) (fun _ io' => io'.inner = innerAfter io (.readBuf n)) io
      rw [pollReadBuf, wp_bind, wp_get, bindPost, innerAfter, offered, wp_ite]
      split
      · rw [wp_bind, wp_modify, bindPost, wp_pure, advance]
        split <;> exact rfl
      · rw [wp_bind, wp, callInner]
        dsimp only
        rcases io.inner.pollRead n with ⟨_ | e | bs, t⟩ <;> exact rfl
  | take => exact rfl

/-- An operation moves over what it hands out. -/
theorem reads_afterOp (hw : io.Wf) {op : ReadOp} (ha : Allowed io op) :
    Reads (handedOut io op) io (readOp op io).2 := by
  cases op with
  | fill forceAppend =>
      rw [handedOut, readOp, run_map]
      rcases hx : pollFillBuf forceAppend io with ⟨r, t⟩
      have h := wp_elim (pollFillBuf_spec hw forceAppend) hx
      cases r with
      | pending => exact h.1
      | ready bs => exact h.2.1
      | fail e => exact h.1
      | panic m => exact h.1.reads
      | diverge => exact h.elim
  | consume amount =>
      have hx : readOp (.consume amount) io =
          (.ready (io.unread.take amount), io.advance amount) := by
        rw [readOp, run_get_bind, run_bind_ready (consume_eq hw ha), run_pure]
      rw [handedOut, hx]
      exact reads_advance hw ha
  | readBuf n =>
      rw [handedOut, readOp]
      rcases hx : pollReadBuf n io with ⟨r, t⟩
      have h := wp_elim (pollReadBuf_spec hw n) hx
      cases r with
      | pending => exact h.1
      | ready bs => exact h.1
      | fail e => exact h.1
      | panic m => exact h.elim
      | diverge => exact h.elim
  | take =>
      obtain ⟨hd, hr⟩ := reads_takeReadBuf hw (beq_iff_eq.mp ha)
      rw [← hd] at hr
      exact hr

/-- What was produced comes off what the inner reader has to give. -/
theorem coming_innerAfter (op : ReadOp) :
    io.inner.coming = produced io op ++ (innerAfter io op).coming := by
  rw [produced, innerAfter]
  cases offered io op with
  | none => exact rfl
  | some n =>
      dsimp only
      rcases hp : io.inner.pollRead n with ⟨r, t⟩
      obtain ⟨hok, hc, -⟩ := Transport.pollRead_spec hp
      rcases r with _ | e | bs
      · exact (hc (by simp)).symm
      · exact (hc (by simp)).symm
      · exact (hok bs rfl).2.1

/-- **One operation** leaves what was unread and what was produced, less what it hands out. -/
theorem handedOut_append (hw : io.Wf) {op : ReadOp} (ha : Allowed io op) :
    handedOut io op ++ (readOp op io).2.unread = io.unread ++ produced io op := by
  have hs := (reads_afterOp hw ha).stream
  rw [stream, stream, coming_innerAfter op, inner_afterOp, ← List.append_assoc,
    ← List.append_assoc] at hs
  exact (List.append_cancel_right hs).symm

/-- A slice that is offered is not empty. -/
theorem offered_pos {op : ReadOp} (ha : Allowed io op) {n : Nat}
    (h : offered io op = some n) : 0 < n := by
  cases op with
  | fill forceAppend =>
      rw [offered] at h
      split at h
      · rcases io.buf.borrow_cases with ⟨m, hb, -⟩ | ⟨buf, hb, -, hs, -⟩
        · rw [hb] at h
          cases h
        · rw [hb] at h
          cases h
          exact hs
      · cases h
  | consume amount => cases h
  | readBuf m =>
      rw [offered] at h
      split at h
      · cases h
      · cases h
        exact ha
  | take => cases h

theorem offersRoom {op : ReadOp} (ha : Allowed io op) : OffersRoom io op := by
  intro n hn
  have hpos := offered_pos ha hn
  refine ⟨hpos, fun hnil => ?_⟩
  rcases hp : io.inner.pollRead n with ⟨r, t⟩
  rw [hp] at hnil
  exact ((Transport.pollRead_spec hp).1 [] hnil).2.2.2 rfl hpos

/-! ### Runs -/

omit [VecAlloc] in
theorem wf_withCapacity (hcap : 0 < cap) : (withCapacity cap inner).Wf :=
  ⟨hcap, .inr ⟨rfl, rfl⟩, by intros; contradiction⟩

/-- What was handed out in `os`, and is unread, is what was produced, from `inner` on. -/
structure Lossless (inner : Transport) (os : List ReadObs) (io : BufIo) : Prop where
  kept : os.flatMap ReadObs.handed ++ io.unread = os.flatMap ReadObs.produced
  coming : inner.coming = os.flatMap ReadObs.produced ++ io.inner.coming

theorem Lossless.step {os : List ReadObs} (h : Lossless inner os io) (hw : io.Wf) {op : ReadOp}
    (ha : Allowed io op) :
    Lossless inner (os ++ [(readStep op io).1]) (readStep op io).2 := by
  constructor
  · rw [List.flatMap_append, List.flatMap_append, List.flatMap_singleton, List.flatMap_singleton,
      List.append_assoc, ← h.kept, List.append_assoc]
    exact congrArg _ (handedOut_append hw ha)
  · rw [List.flatMap_append, List.flatMap_singleton, List.append_assoc, h.coming]
    show _ = _ ++ (produced io op ++ (readOp op io).2.inner.coming)
    rw [inner_afterOp, ← coming_innerAfter]

/-- The read position is in the buffer, and at its end only where both are 0. -/
def InPlace (io : BufIo) : Prop :=
  io.pos ≤ io.buf.len ∧ (io.pos = io.buf.len → io.pos = 0 ∧ io.buf.len = 0)

omit [VecAlloc] in
theorem Wf.inPlace (hw : io.Wf) : InPlace io := by
  refine ⟨hw.pos_le, fun he => ?_⟩
  rcases hw.pos_lt with hlt | ⟨h0, hp⟩
  · omega
  · exact ⟨hp, h0⟩

/-- **The read side loses nothing.**  Over any inner reader and in any order of operations, the
bytes that are handed out, followed by the unread ones, are those the inner reader has produced; the
read position is in place; and no slice that is offered is empty. -/
theorem loses_nothing (hcap : 0 < cap) {ops : List ReadOp}
    (h : Along readStep Allowed ops (withCapacity cap inner)) :
    Lossless inner (run readStep ops (withCapacity cap inner)).1
        (after readStep ops (withCapacity cap inner)) ∧
      InPlace (after readStep ops (withCapacity cap inner)) ∧
      Along readStep OffersRoom ops (withCapacity cap inner) := by
  have hstep : ∀ s a, Wf s → Allowed s a → Wf (readStep a s).2 :=
    fun s a hw ha => (reads_afterOp hw ha).wf hw
  have hwf : Wf (withCapacity cap inner) := wf_withCapacity hcap
  refine ⟨?_, (run_invariant hstep h hwf).inPlace, ?_⟩
  · have hnone : Lossless inner [] (withCapacity cap inner) := ⟨rfl, rfl⟩
    exact (run_history (I := fun os s => Wf s ∧ Lossless inner os s)
      (fun os s a hI ha => ⟨hstep s a hI.1 ha, hI.2.step hI.1 ha⟩) h ⟨hwf, hnone⟩).2
  · exact (along_invariant hstep h hwf).mono fun s a ha => offersRoom ha.2

/-- An inner reader that is slow, fails once, and goes on. -/
def slowReader : Transport :=
  ⟨[.data [1, 2, 3], .pending, .data [4, 5], .fail ⟨.other, "reset"⟩, .data [6, 7, 8, 9]],
    true, [], [], 0⟩

/-- The four operations, in between what the reader answers. -/
def mixedOps : List ReadOp :=
  [.fill false, .consume 1, .fill true, .fill true, .fill true, .readBuf 9, .readBuf 2, .fill false, .take]

omit [VecAlloc] in
/-- All of it arrives, whatever the reader does in between. -/
theorem loses_nothing_mixed :
    letI := VecAlloc.amortized
    Lossless slowReader (run readStep mixedOps (withCapacity 4 slowReader)).1
        (after readStep mixedOps (withCapacity 4 slowReader)) ∧
      InPlace (after readStep mixedOps (withCapacity 4 slowReader)) ∧
      Along readStep OffersRoom mixedOps (withCapacity 4 slowReader) :=
  @loses_nothing VecAlloc.amortized 4 slowReader (by decide) mixedOps
    (by simp only [mixedOps, Along]; decide +kernel)

end HreqH1.BufIo
