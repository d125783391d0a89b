import HreqH1.Model.Chunked

/-!
# Model — Limit

`src/limit.rs`: the reader that ends an incoming body, and the writer that bounds an outgoing one.
`u64` arithmetic panics where it overflows.
-/

namespace HreqH1
open PollM

/-! ### Reading -/

/-- `ContentLengthRead`. -/
structure ContentLengthRead where
  limit : Nat
  total : Nat
  deriving DecidableEq

/-- `ReadToEnd`. -/
structure ReadToEnd where
  reachedEnd : Bool
  deriving DecidableEq

inductive LimitRead where
  | chunkedDecoder (v : ChunkedDecoder)
  | contentLength (v : ContentLengthRead)
  | readToEnd (v : ReadToEnd)
  | noBody
  deriving DecidableEq

def ContentLengthRead.isEnd (v : ContentLengthRead) : Bool := v.total == v.limit

/-- `ContentLengthRead::poll_read` into a slice of `n` bytes. -/
def ContentLengthRead.pollRead (n : Nat) : PollM IoError (ContentLengthRead × BufIo) Bytes := do
  assert (n ≠ 0) "poll_read with len 0 buf"
  let v := (← get).1
  assert (v.total ≤ v.limit) "attempt to subtract with overflow"
  let left := min (v.limit - v.total) (2 ^ 64 - 1)
  if left = 0 then pure []
  else
    let max := min n left
    let read ← zoom Prod.snd (fun s io => (s.1, io)) (BufIo.pollReadBuf max)
    if read.length = 0 then
      throw ⟨.unexpectedEof,
        s!"Partial body received {toString v.total} bytes and expected {toString v.limit}"⟩
    else
      assert (v.total + read.length < 2 ^ 64) "attempt to add with overflow"
      modify fun s => ({ s.1 with total := s.1.total + read.length }, s.2)
      pure read

/-- `ReadToEnd::poll_read` into a slice of `n` bytes. -/
def ReadToEnd.pollRead (n : Nat) : PollM IoError (ReadToEnd × BufIo) Bytes := do
  assert (n ≠ 0) "poll_read with len 0 buf"
  if (← get).1.reachedEnd then pure []
  else
    match ← attempt (zoom Prod.snd (fun s io => (s.1, io)) (BufIo.pollReadBuf n)) with
    | .ok read =>
        if read.length = 0 then modify fun s => (⟨true⟩, s.2)
        pure read
    | .error e =>
        if isClosedKind e.kind then
          modify fun s => (⟨true⟩, s.2)
          pure []
        else throw e

namespace LimitRead

/-- `LimitRead::from_headers`. -/
def fromHeaders (headers : HeaderMap) (isServerResponse : Bool) : LimitRead :=
  if isChunked headers then .chunkedDecoder .new
  else match getAs headers (ascii "content-length") with
    | some size => .contentLength ⟨size, 0⟩
    | none => if isServerResponse then .readToEnd ⟨false⟩ else .noBody

def isNoBody : LimitRead → Bool
  | .contentLength r => r.limit == 0
  | .noBody => true
  | _ => false

def isComplete : LimitRead → Bool
  | .chunkedDecoder v => v.isEnd
  | .contentLength v => v.isEnd
  | .readToEnd v => v.reachedEnd
  | .noBody => true

def bodySize : LimitRead → Option Nat
  | .contentLength v => some v.limit
  | _ => none

def isReadToEnd : LimitRead → Bool
  | .readToEnd _ => true
  | _ => false

def isReusable (l : LimitRead) : Bool := l.isComplete && !l.isReadToEnd

def canReadEntireVec : LimitRead → Bool
  | .contentLength _ => true
  | _ => false

def acceptEntireVec (l : LimitRead) (buf : Bytes) : Except String LimitRead :=
  match l with
  | .contentLength v =>
      if v.total + buf.length < 2 ^ 64 then
        .ok (.contentLength { v with total := v.total + buf.length })
      else .error "attempt to add with overflow"
  | _ => .error "accept_entire_vec with wrong type of writer"

/-- A poll of the reader inside a `LimitRead`, which `wrap` puts back. -/
def pollInner {ρ : Type} (v : ρ) (wrap : ρ → LimitRead) (x : PollM IoError (ρ × BufIo) Bytes) :
    PollM IoError (LimitRead × BufIo) Bytes :=
  zoom (fun s => (v, s.2)) (fun _ t => (wrap t.1, t.2)) x

/-- `LimitRead::poll_read` into a slice of `n` bytes. -/
def pollRead (n : Nat) : PollM IoError (LimitRead × BufIo) Bytes := do
  match (← get).1 with
  | .chunkedDecoder v => pollInner v .chunkedDecoder (ChunkedDecoder.pollRead n)
  | .contentLength v => pollInner v .contentLength (ContentLengthRead.pollRead n)
  | .readToEnd v => pollInner v .readToEnd (ReadToEnd.pollRead n)
  | .noBody => pure []

end LimitRead

/-! ### Writing -/

/-- `ContentLengthWrite`. -/
structure ContentLengthWrite where
  limit : Nat
  total : Nat
  total_lt : total < 2 ^ 64
  deriving DecidableEq

theorem ContentLengthWrite.zero_lt : 0 < 2 ^ 64 := by decide

/-- `total += n`, which is checked. -/
def ContentLengthWrite.count (v : ContentLengthWrite) (n : Nat) :
    Except String ContentLengthWrite :=
  if h : v.total + n < 2 ^ 64 then .ok { v with total := v.total + n, total_lt := h }
  else .error "attempt to add with overflow"

theorem ContentLengthWrite.count_zero (v : ContentLengthWrite) : v.count 0 = .ok v :=
  dif_pos v.total_lt

theorem ContentLengthWrite.count_ok {v w : ContentLengthWrite} {n : Nat}
    (h : v.count n = .ok w) : w.limit = v.limit ∧ w.total = v.total + n := by
  rw [count] at h
  split at h
  · cases h; exact ⟨rfl, rfl⟩
  · cases h

inductive LimitWrite where
  | chunkedEncoder
  | contentLength (v : ContentLengthWrite)
  | noBody
  deriving DecidableEq

/-- `ContentLengthWrite::write`. -/
def ContentLengthWrite.write [VecAlloc] (data : Bytes) :
    PollM Error (ContentLengthWrite × FastBuf) Unit := do
  if data.isEmpty then pure ()
  else
    let v ← orPanic ((← get).1.count data.length)
    modify fun s => (v, s.2)
    if v.total > v.limit then
      throw (.user
        s!"Body data longer than content-length header: {toString v.total} > {toString v.limit}")
    else
      let out ← orPanic (ChunkedEncoder.extendAll (← get).2 [data])
      modify fun s => (s.1, out)

namespace LimitWrite

/-- `LimitWrite::from_headers`. -/
def fromHeaders (headers : HeaderMap) : LimitWrite :=
  if isChunked headers then .chunkedEncoder
  else match getAs headers (ascii "content-length") with
    | some limit => .contentLength ⟨limit, 0, ContentLengthWrite.zero_lt⟩
    | none => .noBody

/-- Extra overhead bytes per `send_data` call. -/
def overhead : LimitWrite → Nat
  | .chunkedEncoder => 32
  | .contentLength _ => 0
  | .noBody => 0

def isNoBody : LimitWrite → Bool
  | .contentLength w => w.limit == 0
  | .noBody => true
  | _ => false

def canWriteEntireVec : LimitWrite → Bool
  | .contentLength _ => true
  | _ => false

def acceptEntireVec (l : LimitWrite) (buf : Bytes) : Except String LimitWrite :=
  match l with
  | .contentLength v => (v.count buf.length).map .contentLength
  | _ => .error "accept_entire_vec with wrong type of writer"

variable [VecAlloc]

/-- `LimitWrite::write`: the limiter, and the buffer that is written to. -/
def write (data : Bytes) : PollM Error (LimitWrite × FastBuf) Unit := do
  match (← get).1 with
  | .chunkedEncoder =>
      zoom Prod.snd (fun s out => (s.1, out)) (ChunkedEncoder.writeChunk data)
  | .contentLength v =>
      zoom (fun s => (v, s.2)) (fun _ t => (.contentLength t.1, t.2))
        (ContentLengthWrite.write data)
  | .noBody => pure ()

/-- `LimitWrite::finish`. -/
def finish : PollM Error (LimitWrite × FastBuf) Unit := do
  match (← get).1 with
  | .chunkedEncoder => zoom Prod.snd (fun s out => (s.1, out)) ChunkedEncoder.writeFinish
  | .contentLength _ => pure ()
  | .noBody => pure ()

end LimitWrite

end HreqH1
