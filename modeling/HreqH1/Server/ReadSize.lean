import HreqH1.Reading.Operations
import HreqH1.Server.Moves

/-!
# Server — the size of a read

Before it fills an empty read buffer, `poll_read_body` asks for capacity for as much as
`cur_read_size` with `ensure_read_capacity`.  `ensure_capacity` reserves what the capacity is short
of, but `Vec::reserve` counts from the length: where the buffer is not full, the spare capacity is
taken off again.

So the capacity is sure to be there only where it was there before, or the buffer is full
(`ensureCapacity_iff`); and an empty buffer gets no more than it has (`readSize_iff`).
-/

namespace HreqH1

/-- **What `ensure_capacity` ensures**, of any `Vec::reserve`. -/
theorem FastBuf.ensureCapacity_iff (b : FastBuf) (capacity : Nat) :
    (∀ _ : VecAlloc, capacity ≤ (b.ensureCapacity capacity).capacity) ↔
      capacity ≤ b.capacity ∨ b.len = b.capacity := by
  have hle := b.len_le_capacity
  constructor
  · intro h
    by_contra hc
    rw [not_or, Nat.not_le] at hc
    -- Growth to exactly what is needed falls short by the spare capacity.
    have hex := h VecAlloc.exact
    unfold ensureCapacity reserve at hex
    rw [if_pos hc.1] at hex
    split at hex
    · omega
    · have hex : capacity ≤ b.len + (capacity - b.capacity) := hex
      omega
  · rintro h A
    rw [ensureCapacity]
    split
    · next hlt =>
      have := (b.capacity_reserve (capacity - b.capacity)).1
      omega
    · omega

/-- An empty buffer is left as it is, up to twice its capacity. -/
theorem FastBuf.ensureCapacity_empty [VecAlloc] {b : FastBuf} {capacity : Nat} (h0 : b.len = 0)
    (hle : capacity ≤ 2 * b.capacity) : b.ensureCapacity capacity = b := by
  rw [ensureCapacity]
  split
  · rw [reserve, dif_pos (by omega)]
  · rfl

namespace Server
open PollM BufIo
variable {s : Bidirect × Conn} {cx : Waker}

/-- `poll_read_body`, up to its `poll_fill_buf`. -/
def beforeFill [VecAlloc] (cx : Waker) : PollM IoError (Bidirect × Conn) Unit := do
  assert (← get).1.txBody unwrapNone
  let _ ← onConn (pollBody (Chan.pollReady cx true))
  onConn (pollIo (BufIo.ensureReadCapacity (← get).1.curReadSize))

/-- And from there on. -/
def fromFill [VecAlloc] : PollM IoError (Bidirect × Conn) Unit := do
  let buf ← onConn (pollIo (BufIo.pollFillBuf false))
  if buf.isEmpty then throw ⟨.unexpectedEof, "EOF before complete body received"⟩
  else
    let chunk ← nextChunk buf.length
    passOn chunk
    endBody

theorem pollReadBody_eq [VecAlloc] : pollReadBody cx = beforeFill cx >>= fun _ => fromFill := by
  simp only [pollReadBody, beforeFill, fromFill, bind_assoc]

/-- The length of the slice the transport is offered for the body. -/
def bodySlice [VecAlloc] (cx : Waker) (s : Bidirect × Conn) : Option Nat :=
  offered (beforeFill cx s).2.2.io (.fill false)

/-- The body is to be read, and nothing of it is buffered. -/
structure AtFill (s : Bidirect × Conn) : Prop where
  txBody : s.1.txBody = true
  lets : s.2.body.Open ∨ s.2.body.receivers = 0
  wf : s.2.io.Wf
  empty : s.2.io.buf.len = 0

theorem beforeFill_eq [VecAlloc] (h : AtFill s) : beforeFill cx s = (.ready (), (s.1, { s.2 with
    io := { s.2.io with buf := s.2.io.buf.ensureCapacity s.1.curReadSize } })) := by
  obtain ⟨b, hx⟩ : ∃ b, (Chan.pollReady cx true : PollM IoError _ Bool) s.2.body =
      (.ready b, s.2.body) := by
    by_cases h0 : s.2.body.receivers = 0
    · exact ⟨_, Chan.pollReady_closed h0⟩
    · exact ⟨_, Chan.pollReady_open (h.lets.resolve_right h0)⟩
  have hready : (onConn (pollBody (Chan.pollReady cx true)) : PollM IoError (Bidirect × Conn) Bool) s =
      (.ready b, s) := by
    rw [onConn, run_zoom, pollBody, run_zoom, hx]
  have hassert : (assert s.1.txBody unwrapNone : PollM IoError (Bidirect × Conn) Unit) s =
      (.ready (), s) := by
    simp [assert, h.txBody]
  rw [beforeFill, run_get_bind, run_bind_ready hassert, run_bind_ready hready]
  rfl

/-- The slice is the capacity there is then. -/
theorem bodySlice_eq [VecAlloc] (h : AtFill s) :
    bodySlice cx s = some (s.2.io.buf.ensureCapacity s.1.curReadSize).capacity := by
  have hcap := Nat.lt_of_lt_of_le h.wf.capacity_pos
    (s.2.io.buf.capacity_ensureCapacity s.1.curReadSize)
  have hlen := (s.2.io.buf.len_ensureCapacity s.1.curReadSize).trans h.empty
  rw [bodySlice, beforeFill_eq h, offered]
  dsimp only
  rw [hlen, if_pos (by rfl), FastBuf.borrow, if_neg (Nat.ne_of_gt hcap)]
  dsimp only
  rw [if_neg (by omega)]
  dsimp only
  rw [hlen, if_pos hcap]
  dsimp only
  rw [FastBuf.spare, hlen, Nat.sub_zero]

/-- **The size of a read**: for the body, the transport is sure to be offered as much as
`cur_read_size` only where the empty buffer has that capacity; and any `ensure_capacity` is sure to
have its effect only on a buffer that has the capacity, or is full. -/
theorem readSize_iff (b : FastBuf) (capacity : Nat) (cx : Waker) (s : Bidirect × Conn) :
    ((∀ _ : VecAlloc, capacity ≤ (b.ensureCapacity capacity).capacity) ↔
      capacity ≤ b.capacity ∨ b.len = b.capacity) ∧
    (AtFill s →
      ((∀ _ : VecAlloc, ∃ n, bodySlice cx s = some n ∧ s.1.curReadSize ≤ n) ↔
        s.1.curReadSize ≤ s.2.io.buf.capacity)) := by
  refine ⟨b.ensureCapacity_iff capacity, fun h => ?_⟩
  have hslice : (∀ _ : VecAlloc, ∃ n, bodySlice cx s = some n ∧ s.1.curReadSize ≤ n) ↔
      ∀ _ : VecAlloc, s.1.curReadSize ≤ (s.2.io.buf.ensureCapacity s.1.curReadSize).capacity := by
    refine forall_congr' fun A => ?_
    simp only [bodySlice_eq h, Option.some.injEq, exists_eq_left']
  have hne : s.2.io.buf.len ≠ s.2.io.buf.capacity := by
    have := h.wf.capacity_pos
    have := h.empty
    omega
  rw [hslice, FastBuf.ensureCapacity_iff, or_iff_left hne]

/-- A handle for a body of 20000 bytes, on a connection of which nothing is read. -/
def longBody : Bidirect × Conn :=
  (⟨.contentLength ⟨20000, 0⟩, true, true, true, none, 20000⟩, (handshake ⟨[], false, [], [], 0⟩).conn)

/-- The read buffer of a new connection is not grown for it, whatever `Vec::reserve` does. -/
theorem readSize_short :
    ∃ (b : FastBuf) (capacity : Nat) (cx : Waker) (s : Bidirect × Conn), AtFill s ∧
      s.1.limit = .contentLength ⟨20000, 0⟩ ∧ s.1.curReadSize = 20000 ∧
      ∀ _ : VecAlloc, (b.ensureCapacity capacity).capacity < capacity ∧
        bodySlice cx s = some readBufInitSize ∧ readBufInitSize < s.1.curReadSize := by
  have hfill : AtFill longBody :=
    ⟨rfl, .inl ⟨by decide, by decide⟩, wf_withCapacity (by decide), rfl⟩
  refine ⟨.withCapacity readBufInitSize, 20000, 0, longBody, hfill, rfl, rfl, fun A => ?_⟩
  have hkept : (FastBuf.withCapacity readBufInitSize).ensureCapacity 20000 =
      .withCapacity readBufInitSize := FastBuf.ensureCapacity_empty rfl (by decide)
  have hslice : longBody.2.io.buf.ensureCapacity longBody.1.curReadSize =
      .withCapacity readBufInitSize := hkept
  refine ⟨?_, ?_, by decide⟩
  · rw [hkept]
    decide
  · rw [bodySlice_eq hfill, hslice]
    rfl

end Server

end HreqH1
