import HreqH1.Model.BufReader

/-!
# Model — AsyncWrite

The write side of `BufIo` over any `AsyncWrite`.  `Transport` is a script, and each of its answers is
used up; a writer here is any machine that keeps the contract, and may answer the same for ever.  So
the loops need not end, and the polls are given a number of rounds for each of them.

The functions are those of the write side of `BufIo`, which has the same fields and a reader beside
them.
-/

namespace HreqH1

/-- `AsyncWrite`, of a writer with the states `W`. -/
class AsyncWrite (W : Type) where
  pollWrite : W → Bytes → IoPoll Nat × W
  pollFlush : W → IoPoll Unit × W
  /-- No more is accepted than is offered. -/
  pollWrite_le {w w' : W} {bs : Bytes} {k : Nat} (h : pollWrite w bs = (some (.ok k), w')) :
    k ≤ bs.length

instance : AsyncWrite Transport where
  pollWrite := Transport.pollWrite
  pollFlush := Transport.pollFlush
  pollWrite_le := fun h => ((Transport.pollWrite_spec h).1 _ rfl).1

/-- The fields of `BufIo` that its write side is of. -/
structure WriteIo (W : Type) where
  inner : W
  pendingTx : Bool
  writeBuf : Option ConsumeBuf
  needFlush : Bool

namespace WriteIo
open PollM
variable {W : Type} [AsyncWrite W]

/-- A call of the inner writer. -/
def callInner {α : Type} (f : W → α × W) : PollM IoError (WriteIo W) α := fun io =>
  (.ready (f io.inner).1, { io with inner := (f io.inner).2 })

/-- A round of the loop of `poll_finish_pending_write`. -/
def finishRound (_ : Unit) : PollM IoError (WriteIo W) (Flow Unit Unit) := do
  match (← get).writeBuf with
  | none => pure (.done ())
  | some buf =>
      if buf.isEmpty then pure (.done ())
      else
        match ← callInner (AsyncWrite.pollWrite · buf.rest) with
        | none =>
            modify ({ · with pendingTx := true })
            pend
        | some v =>
            modify ({ · with pendingTx := false })
            let amount ← lift v
            let buf ← orPanic (buf.consume amount)
            modify ({ · with writeBuf := some buf })
            pure (.again ())

/-- The write that `poll_finish_pending_write` finishes. -/
def finishWrite (rounds : Nat) : PollM IoError (WriteIo W) Unit := do
  if (← get).writeBuf.isSome then
    loopN finishRound rounds ()
    modify ({ · with writeBuf := none })

/-- And its flush. -/
def finishFlush : PollM IoError (WriteIo W) Unit := do
  if (← get).needFlush then
    match ← callInner AsyncWrite.pollFlush with
    | none =>
        modify ({ · with pendingTx := true })
        pend
    | some v =>
        modify ({ · with pendingTx := false })
        lift v
    modify ({ · with needFlush := false })

def pollFinishPendingWrite (rounds : Nat) : PollM IoError (WriteIo W) Unit := do
  finishWrite rounds
  finishFlush

/-- A round of the loop of `poll_write_all`, at `pos`. -/
def writeRound (buf : Bytes) (flush : Bool) (pos : Nat) :
    PollM IoError (WriteIo W) (Flow Nat Unit) := do
  if pos = buf.length then pure (.done ())
  else
    match ← callInner (AsyncWrite.pollWrite · (buf.drop pos)) with
    | none =>
        -- Half sent buffer, the rest is for poll_finish_pending_write.
        modify ({ · with
          pendingTx := true, writeBuf := some (.new (buf.drop pos)), needFlush := flush })
        pend
    | some (.error e) =>
        modify ({ · with pendingTx := false })
        throw e
    | some (.ok amount) =>
        modify ({ · with pendingTx := false })
        pure (.again (pos + amount))

/-- `poll_write_all` once nothing is pending and the buffer is taken. -/
def writeTaken (buf : Bytes) (flush : Bool) (rounds : Nat) : PollM IoError (WriteIo W) Unit := do
  loopN (writeRound buf flush) rounds 0
  if flush then
    match ← callInner AsyncWrite.pollFlush with
    | none =>
        -- Do this in poll_finish_pending_write later.
        modify ({ · with pendingTx := true, needFlush := true })
        pend
    | some v =>
        modify ({ · with pendingTx := false })
        lift v

/-- `poll_write_all`, on the buffer and on the caller's `buf`, which is `none` once it is taken. -/
def pollWriteAll (flush : Bool) (rounds : Nat) :
    PollM IoError (WriteIo W × Option Bytes) Unit := do
  zoom Prod.fst (fun s io => (io, s.2)) do
    pollFinishPendingWrite rounds
    assert (← get).writeBuf.isNone "assertion failed: this.write_buf.is_none()"
    assert (!(← get).needFlush) "assertion failed: !this.need_flush"
  match (← get).2 with
  | none => pure ()
  | some buf =>
      modify fun s => (s.1, none)
      zoom Prod.fst (fun s io => (io, s.2)) (writeTaken buf flush rounds)

end WriteIo

end HreqH1
