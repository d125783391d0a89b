import HreqH1.Model.Http11
import HreqH1.Reading.Pending
import HreqH1.Support.Pends

/-!
# Reading — the flags of a `BufIo`

A poll of the reader or of the writer that is `Pending` leaves `pending_rx` or `pending_tx` set, from
whatever state: the transport has been asked last, and will wake the task.
-/

namespace HreqH1
open PollM

/-- The last write or flush of the transport was `Pending`. -/
abbrev BufIo.PendsTx (io : BufIo) : Prop := io.pendingTx = true

namespace BufIo

theorem pends_callInner {ε α : Type} {P : BufIo → Prop} (f : Transport → α × Transport) :
    Pends P (callInner f : PollM ε BufIo α) := pends_of_never fun _ h => by cases h

/-! ### The writer -/

theorem pends_finishRound (u : Unit) : Pends PendsTx (finishRound u) := by
  rw [finishRound]
  refine pends_get.bind fun io => ?_
  cases io.writeBuf with
  | none => exact pends_pure _
  | some buf =>
      refine Pends.ite (pends_pure _) ((pends_callInner _).bind fun r => ?_)
      cases r with
      | none => exact pends_modify_pend fun _ => rfl
      | some v =>
          refine (pends_modify _).bind fun _ => (pends_lift v).bind fun amount => ?_
          exact (pends_orPanic _).bind fun b => (pends_modify _).bind fun _ => pends_pure _

theorem pends_finishWrite : Pends PendsTx finishWrite := by
  rw [finishWrite]
  refine pends_get.bind fun io => Pends.ite ?_ (pends_pure ())
  exact (Pends.loop pends_finishRound ()).bind fun _ => pends_modify _

theorem pends_finishFlush : Pends PendsTx finishFlush := by
  rw [finishFlush]
  refine pends_get.bind fun io => Pends.ite ((pends_callInner _).bind fun r => ?_) (pends_pure ())
  cases r with
  | none => exact pends_modify_pend fun _ => rfl
  | some v => exact (pends_modify _).bind fun _ => (pends_lift v).bind fun _ => pends_modify _

theorem pends_pollFinishPendingWrite : Pends PendsTx pollFinishPendingWrite :=
  pends_finishWrite.bind fun _ => pends_finishFlush

theorem pends_writeRound (bs : Bytes) (flush : Bool) (pos : Nat) :
    Pends PendsTx (writeRound bs flush pos) := by
  rw [writeRound]
  refine Pends.ite (pends_pure _) ((pends_callInner _).bind fun r => ?_)
  cases r with
  | none => exact pends_modify_pend fun _ => rfl
  | some v =>
      cases v with
      | ok amount => exact (pends_modify _).bind fun _ => pends_pure _
      | error e => exact (pends_modify _).bind fun _ => pends_throw e

theorem pends_writeTaken (bs : Bytes) (flush : Bool) : Pends PendsTx (writeTaken bs flush) := by
  rw [writeTaken]
  refine (Pends.loop (pends_writeRound bs flush) 0).bind fun _ => Pends.ite ?_ (pends_pure ())
  refine (pends_callInner _).bind fun r => ?_
  cases r with
  | none => exact pends_modify_pend fun _ => rfl
  | some v => exact (pends_modify _).bind fun _ => pends_lift v

theorem pends_pollWriteAll (flush : Bool) : Pends (fun s => s.1.PendsTx) (pollWriteAll flush) := by
  rw [pollWriteAll]
  refine Pends.bind ?_ fun _ => pends_get.bind fun s => ?_
  · refine Pends.zoom (Q := PendsTx) ?_ fun _ _ h => h
    refine pends_pollFinishPendingWrite.bind fun _ => pends_get.bind fun io => ?_
    exact (pends_assert _ _).bind fun _ => pends_get.bind fun io => pends_assert _ _
  · cases s.2 with
    | none => exact pends_pure ()
    | some bs =>
        exact (pends_modify _).bind fun _ => (pends_writeTaken bs flush).zoom fun _ _ h => h

theorem pends_writeAll (bs : Bytes) (flush : Bool) : Pends PendsTx (writeAll bs flush) := by
  intro io hp
  have hall := pends_pollWriteAll flush (io, some bs)
  rw [writeAll] at hp ⊢
  generalize pollWriteAll flush (io, some bs) = p at hall hp ⊢
  obtain ⟨r, io', left⟩ := p
  cases r with
  | pending =>
      cases left with
      | none => exact hall rfl
      | some b => cases hp
  | ready a => cases hp
  | fail e => cases hp
  | panic m => cases hp
  | diverge => cases hp

/-! ### The reader -/

theorem pends_pollReadBuf (n : Nat) : Pends PendsRx (pollReadBuf n) := by
  rw [pollReadBuf]
  refine pends_get.bind fun io => Pends.ite ((pends_modify _).bind fun _ => pends_pure _) ?_
  refine (pends_callInner _).bind fun r => ?_
  cases r with
  | none => exact pends_modify_pend fun _ => rfl
  | some r => exact (pends_modify _).bind fun _ => pends_lift r

/-- The reader beside something else. -/
theorem pends_snd {ρ α : Type} {x : PollM IoError BufIo α} (hx : Pends PendsRx x) :
    Pends (fun s : ρ × BufIo => s.2.PendsRx) (zoom Prod.snd (fun s io => (s.1, io)) x) :=
  hx.zoom fun _ _ h => h

variable [VecAlloc]

theorem pends_pollFillBuf (forceAppend : Bool) : Pends PendsRx (pollFillBuf forceAppend) := by
  rw [pollFillBuf]
  refine pends_get.bind fun io => ?_
  dsimp only
  split
  · have hborrow : Pends PendsRx (borrowBuf : PollM IoError BufIo Unit) := by
      refine pends_get.bind fun io => ?_
      dsimp only
      cases io.buf.borrow with
      | ok b => exact pends_modify _
      | error m => exact (pends_modify _).bind fun _ => pends_panic m
    refine hborrow.bind fun _ => pends_get.bind fun io => (pends_callInner _).bind fun r => ?_
    cases r with
    | none => exact pends_modify_pend fun _ => rfl
    | some r =>
        cases r with
        | error e => exact (pends_modify _).bind fun _ => pends_throw e
        | ok bs =>
            refine (pends_modify _).bind fun _ => pends_get.bind fun io => ?_
            refine (pends_orPanic _).bind fun b => (pends_modify _).bind fun _ => ?_
            exact pends_get.bind fun _ => pends_pure _
  · exact pends_get.bind fun _ => pends_pure _

end BufIo

namespace ChunkedDecoder

theorem pends_readRecv (n : Nat) : Pends PendsRx (readRecv n) :=
  BufIo.pends_snd (BufIo.pends_pollReadBuf n)

theorem pends_pollChunkSize : Pends PendsRx pollChunkSize := by
  refine Pends.loop (fun _ => ?_) ()
  rw [sizeRound]
  refine (pends_readRecv 1).bind fun bs => ?_
  cases bs with
  | nil => exact pends_throw _
  | cons c bs =>
      refine Pends.ite (pends_pure _) (Pends.ite ?_ (pends_throw _))
      exact (pends_modify _).bind fun _ => pends_get.bind fun s =>
        Pends.ite (pends_throw _) (pends_pure _)

theorem pends_pollSkipUntilLf : Pends PendsRx pollSkipUntilLf := by
  refine Pends.loop (fun _ => ?_) ()
  rw [skipRound]
  refine (pends_readRecv 1).bind fun bs => ?_
  cases bs with
  | nil => exact pends_throw _
  | cons c bs => exact Pends.ite (pends_pure _) (pends_pure _)

theorem pends_readRound (n : Nat) (u : Unit) : Pends PendsRx (readRound n u) := by
  rw [readRound]
  refine pends_get.bind fun s => ?_
  cases s.1.state with
  | chunkSize =>
      refine pends_pollChunkSize.bind fun _ => pends_get.bind fun t => ?_
      cases fromStrRadix 16 t.1.chunkSizeBuf with
      | none => exact pends_throw _
      | some amount =>
          refine (pends_modify _).bind fun _ => (pends_modify _).bind fun _ => ?_
          exact Pends.ite ((pends_modify _).bind fun _ => pends_pure _)
            ((pends_modify _).bind fun _ => pends_pure _)
  | chunkSizeLf =>
      exact pends_pollSkipUntilLf.bind fun _ => (pends_modify _).bind fun _ => pends_pure _
  | chunk =>
      refine pends_get.bind fun t => (pends_readRecv _).bind fun read => ?_
      refine pends_get.bind fun t => (pends_assert _ _).bind fun _ => ?_
      refine (pends_modify _).bind fun _ => pends_get.bind fun t => ?_
      exact Pends.ite ((pends_modify _).bind fun _ => pends_pure _) (pends_pure _)
  | chunkLf =>
      exact pends_pollSkipUntilLf.bind fun _ => (pends_modify _).bind fun _ => pends_pure _
  | fin => exact pends_pure _

theorem pends_pollRead (n : Nat) : Pends PendsRx (pollRead n) :=
  (pends_assert _ _).bind fun _ => Pends.loop (pends_readRound n) ()

end ChunkedDecoder

theorem ContentLengthRead.pends_pollRead (n : Nat) :
    Pends (fun s => s.2.PendsRx) (ContentLengthRead.pollRead n) := by
  rw [ContentLengthRead.pollRead]
  refine (pends_assert _ _).bind fun _ => pends_get.bind fun s => ?_
  refine (pends_assert _ _).bind fun _ => Pends.ite (pends_pure _) ?_
  refine (BufIo.pends_snd (BufIo.pends_pollReadBuf _)).bind fun read => ?_
  refine Pends.ite (pends_throw _) ((pends_assert _ _).bind fun _ => ?_)
  exact (pends_modify _).bind fun _ => pends_pure _

theorem ReadToEnd.pends_pollRead (n : Nat) :
    Pends (fun s => s.2.PendsRx) (ReadToEnd.pollRead n) := by
  rw [ReadToEnd.pollRead]
  refine (pends_assert _ _).bind fun _ => pends_get.bind fun s => Pends.ite (pends_pure _) ?_
  refine (BufIo.pends_snd (BufIo.pends_pollReadBuf n)).attempt.bind fun r => ?_
  cases r with
  | ok read => exact Pends.ite ((pends_modify _).bind fun _ => pends_pure _) (pends_pure _)
  | error e => exact Pends.ite ((pends_modify _).bind fun _ => pends_pure _) (pends_throw _)

/-- **A reader of a body** that is `Pending` waits for the transport. -/
theorem LimitRead.pends_pollRead (n : Nat) :
    Pends (fun s => s.2.PendsRx) (LimitRead.pollRead n) := by
  rw [LimitRead.pollRead]
  refine pends_get.bind fun s => ?_
  have hinner : ∀ {ρ : Type} (v : ρ) (wrap : ρ → LimitRead) {x : PollM IoError (ρ × BufIo) Bytes},
      Pends (fun s => s.2.PendsRx) x → Pends (fun s => s.2.PendsRx) (pollInner v wrap x) := by
    intro ρ v wrap x hx
    exact hx.zoom fun _ _ h => h
  cases s.1 with
  | chunkedDecoder v => exact hinner v _ (ChunkedDecoder.pends_pollRead n)
  | contentLength v => exact hinner v _ (ContentLengthRead.pends_pollRead n)
  | readToEnd v => exact hinner v _ (ReadToEnd.pends_pollRead n)
  | noBody => exact pends_pure _

/-- The search for a head waits for the transport. -/
theorem pends_pollForCrlfcrlf [VecAlloc] {T : Type} (f : Bytes → Bool → T) :
    Pends BufIo.PendsRx (pollForCrlfcrlf f) := by
  refine Pends.loop (fun v => ?_) _
  rw [scanRound]
  refine (BufIo.pends_pollFillBuf _).bind fun buf => (pends_assert _ _).bind fun _ => ?_
  split
  · exact (pends_get.bind fun _ => (pends_assert _ _).bind fun _ => pends_modify _).bind fun _ =>
      pends_pure _
  · exact pends_throw _
  · exact pends_throw _
  · exact pends_pure _

end HreqH1
