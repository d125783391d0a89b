import HreqH1.Model.BufReader
import HreqH1.Model.Headers

/-!
# Model — Chunked

`src/chunked.rs`.  The decoder polls a `BufIo`, so its polls run on the pair of the two; a slice
of `n` bytes to read into is `n`, and what is read is the result.
-/

namespace HreqH1
open PollM

/-- `DecoderState`. -/
inductive DecoderState where
  | chunkSize
  | chunkSizeLf
  | chunk
  | chunkLf
  | fin
  deriving DecidableEq, Repr

structure ChunkedDecoder where
  amountLeft : Nat
  state : DecoderState
  chunkSizeBuf : Bytes
  deriving DecidableEq

/-- `char`'s `{:?}`, for the first 256 characters. -/
def charDebug (b : Byte) : String :=
  let c := Char.ofNat b.toNat
  let body :=
    if b = 0 then "\\0"
    else if b = 9 then "\\t"
    else if b = 10 then "\\n"
    else if b = 13 then "\\r"
    else if b = 39 then "\\'"
    else if b = 92 then "\\\\"
    else if b < 32 ∨ (127 ≤ b ∧ b ≤ 160) ∨ b = 173 then
      "\\u\x7b" ++ String.ofList (Nat.toDigits 16 b.toNat) ++ "\x7d"
    else String.singleton c
  "'" ++ body ++ "'"

namespace ChunkedDecoder

def new : ChunkedDecoder := ⟨0, .chunkSize, []⟩

def isEnd (v : ChunkedDecoder) : Bool := v.state = .fin

/-- A decoder and the reader it polls. -/
abbrev Dec : Type := ChunkedDecoder × BufIo

/-- A read of `recv` into `n` bytes. -/
def readRecv (n : Nat) : PollM IoError Dec Bytes :=
  zoom Prod.snd (fun s io => (s.1, io)) (BufIo.pollReadBuf n)

/-- A step on the decoder's own fields. -/
def update (f : ChunkedDecoder → ChunkedDecoder) : PollM IoError Dec Unit :=
  modify fun s => (f s.1, s.2)

/-- A bound on the bytes that can still be read. -/
def weight (s : Dec) : Nat := s.2.unread.length + s.2.inner.rxWeight

/-- A round of the loop of `poll_chunk_size`. -/
def sizeRound (_ : Unit) : PollM IoError Dec (Flow Unit Unit) := do
  match ← readRecv 1 with
  | [] => throw ⟨.unexpectedEof, "EOF while reading chunk size"⟩
  | c :: _ =>
      -- keep reading until we get ; or \r
      if c = 59 ∨ c = 13 then pure (.done ())
      else if (toDigit 16 c).isSome then
        update fun v => { v with chunkSizeBuf := v.chunkSizeBuf ++ [c] }
        if (← get).1.chunkSizeBuf.length > 10 then
          throw ⟨.invalidData, "Too many chars in chunk size"⟩
        else pure (.again ())
      else throw ⟨.invalidData, "Unexpected char in chunk size: " ++ charDebug c⟩

def pollChunkSize : PollM IoError Dec Unit := loop (fun _ => weight) sizeRound ()

/-- A round of the loop of `poll_skip_until_lf`. -/
def skipRound (_ : Unit) : PollM IoError Dec (Flow Unit Unit) := do
  match ← readRecv 1 with
  | [] => throw ⟨.unexpectedEof, "EOF before finding lf"⟩
  | c :: _ => if c = 10 then pure (.done ()) else pure (.again ())

def pollSkipUntilLf : PollM IoError Dec Unit := loop (fun _ => weight) skipRound ()

/-- A round of the loop of `poll_read`, for a slice of `n` bytes. -/
def readRound (n : Nat) (_ : Unit) : PollM IoError Dec (Flow Unit Bytes) := do
  match (← get).1.state with
  | .chunkSize =>
      pollChunkSize
      match fromStrRadix 16 (← get).1.chunkSizeBuf with
      | none => throw ⟨.invalidData, "Not a number in chunk size"⟩
      | some amount =>
          update fun v => { v with amountLeft := amount }
          -- reset for next time.
          update fun v => { v with chunkSizeBuf := [] }
          if amount = 0 then update fun v => { v with state := .fin }
          else update fun v => { v with state := .chunkSizeLf }
          pure (.again ())
  | .chunkSizeLf =>
      pollSkipUntilLf
      update fun v => { v with state := .chunk }
      pure (.again ())
  | .chunk =>
      let toRead := min (← get).1.amountLeft n
      let read ← readRecv toRead
      assert (read.length ≤ (← get).1.amountLeft) "attempt to subtract with overflow"
      update fun v => { v with amountLeft := v.amountLeft - read.length }
      if (← get).1.amountLeft = 0 then update fun v => { v with state := .chunkLf }
      pure (.done read)
  | .chunkLf =>
      pollSkipUntilLf
      update fun v => { v with state := .chunkSize }
      pure (.again ())
  | .fin => pure (.done [])

/-- `poll_read` into a slice of `n` bytes. -/
def pollRead (n : Nat) : PollM IoError Dec Bytes := do
  assert (n ≠ 0) "Chunk read with empty buf"
  loop (fun _ => weight) (readRound n) ()

end ChunkedDecoder

/-! ### The encoder -/

def crlf : Bytes := [13, 10]

/-- `{:x}`. -/
def lowerHex (n : Nat) : Bytes := (Nat.toDigits 16 n).map fun c => c.toNat.toUInt8

namespace ChunkedEncoder

variable [VecAlloc]

/-- `out.borrow()`, and the slices `extend_from_slice` appends to it. -/
def extendAll (out : FastBuf) (slices : List Bytes) : Except String FastBuf :=
  slices.foldlM (fun b s => b.extend s) =<< out.borrow

def writeChunk (buf : Bytes) : PollM Error FastBuf Unit := do
  if buf.isEmpty then pure ()
  else
    let out ← orPanic (extendAll (← get) [lowerHex buf.length ++ crlf, buf, crlf])
    modify fun _ => out

def writeFinish : PollM Error FastBuf Unit := do
  let out ← orPanic (extendAll (← get) [ascii "0\r\n\r\n"])
  modify fun _ => out

end ChunkedEncoder

end HreqH1
