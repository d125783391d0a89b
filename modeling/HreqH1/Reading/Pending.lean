import HreqH1.Model.Limit
import HreqH1.Reading.Reads
import HreqH1.Support.Steady

/-!
# Reading — `pending_rx`

Only a read of the transport that is `Pending` sets `pending_rx`, and then what reads is `Pending`
itself; so no reader of a body that has read something, or has failed, leaves the flag set that was
not set before (`LimitRead.steady_pollRead`).
-/

namespace HreqH1
open PollM

/-- The last read of the transport was `Pending`. -/
abbrev BufIo.PendsRx (io : BufIo) : Prop := io.pendingRx = true

theorem BufIo.steady_pollReadBuf (n : Nat) : Steady BufIo.PendsRx (BufIo.pollReadBuf n) := by
  rw [BufIo.pollReadBuf]
  refine steady_get.bind fun io => ?_
  refine Steady.ite ?_ ?_
  · refine (steady_modify fun s h => ?_).bind fun _ => steady_pure _
    rw [PendsRx, pendingRx_advance] at h
    exact h
  · have hcall : Steady BufIo.PendsRx (BufIo.callInner (·.pollRead n) : PollM IoError BufIo _) :=
      fun _ _ h => h
    refine hcall.bind fun r => ?_
    cases r with
    | none => exact steady_of_pending fun _ => rfl
    | some r =>
        refine (steady_modify fun s h => ?_).bind fun _ => steady_lift r
        cases h

/-- The reader beside something else. -/
theorem BufIo.steady_snd {ρ α : Type} {x : PollM IoError BufIo α} (hx : Steady BufIo.PendsRx x) :
    Steady (fun s : ρ × BufIo => s.2.PendsRx) (zoom Prod.snd (fun s io => (s.1, io)) x) :=
  hx.zoom (fun _ _ h => h) fun _ h => h

/-- What is beside the reader changes. -/
theorem BufIo.steady_fst {ρ : Type} (f : ρ × BufIo → ρ) : Steady (fun s : ρ × BufIo => s.2.PendsRx)
    (modify fun s => (f s, s.2) : PollM IoError (ρ × BufIo) Unit) :=
  steady_modify fun _ h => h

namespace ChunkedDecoder

/-- The same, of the reader a decoder polls. -/
abbrev PendsRx (s : Dec) : Prop := s.2.PendsRx

theorem steady_readRecv (n : Nat) : Steady PendsRx (readRecv n) :=
  BufIo.steady_snd (BufIo.steady_pollReadBuf n)

theorem steady_update (f : ChunkedDecoder → ChunkedDecoder) : Steady PendsRx (update f) :=
  BufIo.steady_fst fun s => f s.1

theorem steady_pollChunkSize : Steady PendsRx pollChunkSize := by
  refine Steady.loop (fun _ => ?_) ()
  rw [sizeRound]
  refine (steady_readRecv 1).bind fun bs => ?_
  cases bs with
  | nil => exact steady_throw _
  | cons c bs =>
      refine Steady.ite (steady_pure _) (Steady.ite ?_ (steady_throw _))
      refine (steady_update _).bind fun _ => steady_get.bind fun s => ?_
      exact Steady.ite (steady_throw _) (steady_pure _)

theorem steady_pollSkipUntilLf : Steady PendsRx pollSkipUntilLf := by
  refine Steady.loop (fun _ => ?_) ()
  rw [skipRound]
  refine (steady_readRecv 1).bind fun bs => ?_
  cases bs with
  | nil => exact steady_throw _
  | cons c bs => exact Steady.ite (steady_pure _) (steady_pure _)

theorem steady_readRound (n : Nat) (u : Unit) : Steady PendsRx (readRound n u) := by
  rw [readRound]
  refine steady_get.bind fun s => ?_
  cases s.1.state with
  | chunkSize =>
      refine steady_pollChunkSize.bind fun _ => steady_get.bind fun t => ?_
      cases fromStrRadix 16 t.1.chunkSizeBuf with
      | none => exact steady_throw _
      | some amount =>
          refine (steady_update _).bind fun _ => (steady_update _).bind fun _ => ?_
          exact Steady.ite ((steady_update _).bind fun _ => steady_pure _)
            ((steady_update _).bind fun _ => steady_pure _)
  | chunkSizeLf =>
      exact steady_pollSkipUntilLf.bind fun _ => (steady_update _).bind fun _ => steady_pure _
  | chunk =>
      refine steady_get.bind fun t => (steady_readRecv _).bind fun read => ?_
      refine steady_get.bind fun t => (steady_assert _ _).bind fun _ => ?_
      refine (steady_update _).bind fun _ => steady_get.bind fun t => ?_
      exact Steady.ite ((steady_update _).bind fun _ => steady_pure _) (steady_pure _)
  | chunkLf =>
      exact steady_pollSkipUntilLf.bind fun _ => (steady_update _).bind fun _ => steady_pure _
  | fin => exact steady_pure _

theorem steady_pollRead (n : Nat) : Steady PendsRx (pollRead n) :=
  (steady_assert _ _).bind fun _ => Steady.loop (steady_readRound n) ()

end ChunkedDecoder

theorem ContentLengthRead.steady_pollRead (n : Nat) :
    Steady (fun s => s.2.PendsRx) (ContentLengthRead.pollRead n) := by
  rw [ContentLengthRead.pollRead]
  refine (steady_assert _ _).bind fun _ => steady_get.bind fun s => ?_
  refine (steady_assert _ _).bind fun _ => Steady.ite (steady_pure _) ?_
  refine (BufIo.steady_snd (BufIo.steady_pollReadBuf _)).bind fun read => ?_
  refine Steady.ite (steady_throw _) ((steady_assert _ _).bind fun _ => ?_)
  exact (BufIo.steady_fst _).bind fun _ => steady_pure _

theorem ReadToEnd.steady_pollRead (n : Nat) :
    Steady (fun s => s.2.PendsRx) (ReadToEnd.pollRead n) := by
  rw [ReadToEnd.pollRead]
  refine (steady_assert _ _).bind fun _ => steady_get.bind fun s => ?_
  refine Steady.ite (steady_pure _) ?_
  refine (BufIo.steady_snd (BufIo.steady_pollReadBuf n)).attempt.bind fun r => ?_
  cases r with
  | ok read =>
      exact Steady.ite ((BufIo.steady_fst _).bind fun _ => steady_pure _) (steady_pure _)
  | error e =>
      exact Steady.ite ((BufIo.steady_fst _).bind fun _ => steady_pure _) (steady_throw _)

/-- **A reader of a body** sets `pending_rx` only where it is `Pending`. -/
theorem LimitRead.steady_pollRead (n : Nat) :
    Steady (fun s => s.2.PendsRx) (LimitRead.pollRead n) := by
  rw [LimitRead.pollRead]
  refine steady_get.bind fun s => ?_
  have hinner : ∀ {ρ : Type} (v : ρ) (wrap : ρ → LimitRead) {x : PollM IoError (ρ × BufIo) Bytes},
      Steady (fun s => s.2.PendsRx) x → Steady (fun s => s.2.PendsRx) (pollInner v wrap x) := by
    intro ρ v wrap x hx
    exact hx.zoom (fun _ _ h => h) fun _ h => h
  cases s.1 with
  | chunkedDecoder v => exact hinner v _ (ChunkedDecoder.steady_pollRead n)
  | contentLength v => exact hinner v _ (ContentLengthRead.steady_pollRead n)
  | readToEnd v => exact hinner v _ (ReadToEnd.steady_pollRead n)
  | noBody => exact steady_pure _

end HreqH1
