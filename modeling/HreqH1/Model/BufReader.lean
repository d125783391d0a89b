import HreqH1.Model.FastBuf
import HreqH1.Model.Transport

/-!
# Model — BufReader

`BufIo` of `src/buf_reader.rs`: the read buffer with its read position, and the write side with
what a `Pending` write or flush has left to do.

`fills` is a history variable the source does not have: what each `borrow` of the read buffer came
to, newest first.
-/

namespace HreqH1

/-- A `borrow` of the read buffer: its length and capacity, and whether it went through. -/
structure Fill where
  len : Nat
  capacity : Nat
  ok : Bool
  deriving DecidableEq, Repr

structure BufIo where
  inner : Transport
  buf : FastBuf
  pos : Nat
  pendingRx : Bool
  pendingTx : Bool
  writeBuf : Option ConsumeBuf
  needFlush : Bool
  fills : List Fill
  deriving DecidableEq

namespace BufIo
open PollM

variable {ε : Type}

def withCapacity (capacity : Nat) (inner : Transport) : BufIo where
  inner := inner
  buf := .withCapacity capacity
  pos := 0
  pendingRx := false
  pendingTx := false
  writeBuf := none
  needFlush := false
  fills := []

/-- The bytes read and not yet consumed, `&self.buf[self.pos..]`. -/
def unread (io : BufIo) : Bytes := io.buf.data.drop io.pos

/-- Everything the connection has still to read: what is buffered, and what the peer's script
holds. -/
def stream (io : BufIo) : Bytes := io.unread ++ io.inner.coming

def ensureReadCapacity [VecAlloc] (capacity : Nat) : PollM ε BufIo Unit :=
  modify fun io => { io with buf := io.buf.ensureCapacity capacity }

/-- A call of the inner reader or writer. -/
def callInner {α : Type} (f : Transport → α × Transport) : PollM ε BufIo α := fun io =>
  (.ready (f io.inner).1, { io with inner := (f io.inner).2 })

/-! ### The write side -/

/-- A round of the loop of `poll_finish_pending_write`. -/
def finishRound (_ : Unit) : PollM IoError BufIo (Flow Unit Unit) := do
  match (← get).writeBuf with
  | none => pure (.done ())
  | some buf =>
      if buf.isEmpty then pure (.done ())
      else
        match ← callInner (·.pollWrite buf.rest) with
        | none =>
            modify ({ · with pendingTx := true })
            pend
        | some v =>
            modify ({ · with pendingTx := false })
            let amount ← lift v
            let buf ← orPanic (buf.consume amount)
            modify ({ · with writeBuf := some buf })
            pure (.again ())

/-- The bytes of `write_buf` and the answers the writer has left. -/
def txWeight (io : BufIo) : Nat :=
  io.inner.tx.length + (io.writeBuf.map ConsumeBuf.len).getD 0

/-- The write that `poll_finish_pending_write` finishes. -/
def finishWrite : PollM IoError BufIo Unit := do
  if (← get).writeBuf.isSome then
    loop (fun _ io => io.txWeight) finishRound ()
    modify ({ · with writeBuf := none })

/-- And its flush. -/
def finishFlush : PollM IoError BufIo Unit := do
  if (← get).needFlush then
    match ← callInner (·.pollFlush) with
    | none =>
        modify ({ · with pendingTx := true })
        pend
    | some v =>
        modify ({ · with pendingTx := false })
        lift v
    modify ({ · with needFlush := false })

def pollFinishPendingWrite : PollM IoError BufIo Unit := do
  finishWrite
  finishFlush

def canPollWrite (io : BufIo) : Bool := io.writeBuf.isNone && !io.needFlush && !io.pendingTx

/-- A round of the loop of `poll_write_all`, at `pos`. -/
def writeRound (buf : Bytes) (flush : Bool) (pos : Nat) : PollM IoError BufIo (Flow Nat Unit) := do
  if pos = buf.length then pure (.done ())
  else
    match ← callInner (·.pollWrite (buf.drop pos)) with
    | none =>
        -- Half sent buffer, the rest is for poll_finish_pending_write.
        modify ({ · with
          pendingTx := true, writeBuf := some (.new (buf.drop pos)), needFlush := flush })
        pend
    | some (.error e) =>
        modify ({ · with pendingTx := false })
        throw e
    | some (.ok amount) =>
        modify ({ · with pendingTx := false })
        pure (.again (pos + amount))

/-- `poll_write_all` once nothing is pending and the buffer is taken. -/
def writeTaken (buf : Bytes) (flush : Bool) : PollM IoError BufIo Unit := do
  loop (fun pos io => io.inner.tx.length + (buf.length - pos)) (writeRound buf flush) 0
  if flush then
    match ← callInner (·.pollFlush) with
    | none =>
        -- Do this in poll_finish_pending_write later.
        modify ({ · with pendingTx := true, needFlush := true })
        pend
    | some v =>
        modify ({ · with pendingTx := false })
        lift v

/-- `poll_write_all`, on the buffer and on the caller's `buf`, which is `none` once it is taken. -/
def pollWriteAll (flush : Bool) : PollM IoError (BufIo × Option Bytes) Unit := do
  zoom Prod.fst (fun s io => (io, s.2)) do
    pollFinishPendingWrite
    assert (← get).writeBuf.isNone "assertion failed: this.write_buf.is_none()"
    assert (!(← get).needFlush) "assertion failed: !this.need_flush"
  match (← get).2 with
  | none => pure ()
  | some buf =>
      modify fun s => (s.1, none)
      zoom Prod.fst (fun s io => (io, s.2)) (writeTaken buf flush)

/-- `poll_write_all` of a buffer that is the caller's alone.  Where it is `Pending` the caller
asserts that the buffer has been taken. -/
def writeAll (bytes : Bytes) (flush : Bool) : PollM IoError BufIo Unit := fun io =>
  match pollWriteAll flush (io, some bytes) with
  | (.pending, (io, none)) => (.pending, io)
  | (.pending, (io, some _)) => (.panic "assertion failed: to_send.is_none()", io)
  | (r, (io, _)) => (r, io)

/-! ### The read side -/

/-- `self.buf.borrow()`. -/
def borrowBuf [VecAlloc] : PollM ε BufIo Unit := do
  let buf := (← get).buf
  match buf.borrow with
  | .ok bref =>
      modify fun io => { io with buf := bref, fills := ⟨buf.len, buf.capacity, true⟩ :: io.fills }
  | .error m =>
      modify fun io => { io with fills := ⟨buf.len, buf.capacity, false⟩ :: io.fills }
      PollM.panic m

def pollFillBuf [VecAlloc] (forceAppend : Bool) : PollM IoError BufIo Bytes := do
  let curLen := (← get).buf.len
  if curLen == 0 || forceAppend then
    borrowBuf
    let readInto := (← get).buf.spare
    match ← callInner (·.pollRead readInto) with
    | none =>
        modify ({ · with pendingRx := true })
        pend
    | some (.error e) =>
        modify ({ · with pendingRx := false })
        throw e
    | some (.ok bs) =>
        modify ({ · with pendingRx := false })
        let bref ← orPanic ((← get).buf.extend bs)
        modify ({ · with buf := bref })
  pure (← get).unread

/-- A partially read buffer can not be taken. -/
def canTakeReadBuf (io : BufIo) : Bool := io.pos == 0

def takeReadBuf : PollM ε BufIo Bytes := do
  let buf := (← get).buf
  modify ({ · with buf := .withCapacity buf.capacity, pos := 0 })
  pure buf.intoVec

/-- The read position after `amount` more bytes: back at the start when all is used up. -/
def advance (amount : Nat) (io : BufIo) : BufIo :=
  if io.pos + amount = io.buf.len then { io with pos := 0, buf := io.buf.empty }
  else { io with pos := io.pos + amount }

def consume (amount : Nat) : PollM ε BufIo Unit := do
  let io ← get
  assert (io.pos + amount ≤ io.buf.len) "assertion failed: new_pos <= this.buf.len()"
  modify (advance amount)

/-- `poll_read_buf` into a slice of `n` bytes. -/
def pollReadBuf (n : Nat) : PollM IoError BufIo Bytes := do
  let io ← get
  let hasAmount := io.buf.len - io.pos
  if hasAmount > 0 then
    let amt := io.unread.take n
    modify (advance amt.length)
    pure amt
  else
    -- once inner buffer is used up, read directly from underlying.
    match ← callInner (·.pollRead n) with
    | none =>
        modify ({ · with pendingRx := true })
        pend
    | some r =>
        modify ({ · with pendingRx := false })
        lift r

end BufIo

end HreqH1
