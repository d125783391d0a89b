import HreqH1.Model.BufReader
import HreqH1.Model.Headers

/-!
# Model — Http11

`src/http11.rs`: the writers of the two heads, the parsers of the two heads over what `httparse`
gives, and `poll_for_crlfcrlf`, which finds where a head ends.
-/

namespace HreqH1
open PollM

/-- `READ_BUF_INIT_SIZE`. -/
def readBufInitSize : Nat := 16384

/-! ### Writing a head -/

/-- `Display` of an unsigned integer. -/
def decimal (n : Nat) : Bytes := (Nat.toDigits 10 n).map fun c => c.toNat.toUInt8

/-- `Display` of a `Method`. -/
def Method.bytes : Method → Bytes
  | .options => ascii "OPTIONS"
  | .get => ascii "GET"
  | .post => ascii "POST"
  | .put => ascii "PUT"
  | .delete => ascii "DELETE"
  | .head => ascii "HEAD"
  | .trace => ascii "TRACE"
  | .connect => ascii "CONNECT"
  | .patch => ascii "PATCH"
  | .extension name => name

/-- The version in a head, and the panic at a version the crate does not write. -/
def versionBytes : Version → Except String Bytes
  | .http10 => .ok (ascii "1.0")
  | .http11 => .ok (ascii "1.1")
  | _ => .error "Unsupported http version"

theorem versionBytes_error {v : Version} {m : String} (h : versionBytes v = .error m) :
    m = "Unsupported http version" := by
  cases v <;> cases h <;> rfl

/-- The header lines and the empty line. -/
def headerLines (headers : HeaderMap) : Bytes :=
  headers.flatMap (fun h => h.1 ++ ascii ": " ++ h.2 ++ ascii "\r\n") ++ ascii "\r\n"

/-- The `host` line `write_http1x_req` adds for a request without one. -/
def hostLine (req : Request) : Bytes :=
  if req.headers.any fun h => h.1 == ascii "host" then []
  else
    let defaultPort :=
      if req.uri.scheme = some (ascii "https") then 443
      else if req.uri.scheme = some (ascii "http") then 80
      else 0
    let port := match req.uri.port with
      | some p => if p = defaultPort then 0 else p
      | none => 0
    match req.uri.host with
    | none => []
    | some h =>
        ascii "host: " ++ h ++ (if port ≠ 0 then ascii ":" ++ decimal port else []) ++ ascii "\r\n"

/-- What a `Cursor` over `room` bytes makes of writing `bytes`. -/
def writeCursor {σ : Type} (room : Nat) (bytes : Bytes) : PollM IoError σ Bytes :=
  if bytes.length ≤ room then pure bytes
  else throw ⟨.writeZero, "failed to write whole buffer"⟩

/-- `write_http1x_req` into a buffer of `room` bytes: the bytes it writes. -/
def writeHttp1xReq {σ : Type} (req : Request) (room : Nat) : PollM IoError σ Bytes := do
  let pq := req.uri.pathAndQuery.getD (ascii "/")
  let ver ← orPanic (versionBytes req.version)
  writeCursor room (req.method.bytes ++ ascii " " ++ pq ++ ascii " HTTP/" ++ ver ++ ascii "\r\n" ++
    hostLine req ++ headerLines req.headers)

/-- `write_http1x_res` into a buffer of `room` bytes: the bytes it writes. -/
def writeHttp1xRes {σ : Type} [Crates] (res : Response) (room : Nat) : PollM IoError σ Bytes := do
  let ver ← orPanic (versionBytes res.version)
  writeCursor room (ascii "HTTP/" ++ ver ++ ascii " " ++ decimal res.status ++ ascii " " ++
    (Crates.canonicalReason res.status).getD (ascii "Unknown") ++ ascii "\r\n" ++
    headerLines res.headers)

/-! ### Parsing a head -/

/-- `version_of`. -/
def versionOf : Option Nat → Version
  | some 0 => .http10
  | some 1 => .http11
  -- an unknown version, or none, is assumed to be 1.1
  | some _ => .http11
  | none => .http11

section Parse
variable [Crates]

/-- The headers a builder takes over from a parser: a name or a value that is not valid is
dropped. -/
def keepHeaders (headers : List (Bytes × Bytes)) : HeaderMap :=
  headers.filterMap fun head =>
    match Crates.headerName head.1, Crates.headerValue head.2 with
    | .ok name, .ok value => some (name, value)
    | _, _ => none

/-- `try_parse_res`. -/
def tryParseRes (buf : Bytes) (endOfStream : Bool) : Except IoError (Option Response) :=
  match Crates.parseRes buf with
  | .error m => .error ⟨.invalidData, m⟩
  | .ok (isPartial, parsed) =>
      if isPartial && !endOfStream then .ok none
      else
        -- without a code, the builder's own status stays
        let status := parsed.code.getD 200
        let headers := parsed.headers.filter fun head => !(head.1.isEmpty && endOfStream)
        if status < 100 ∨ 1000 ≤ status then .error ⟨.invalidData, "invalid status code"⟩
        else .ok (some ⟨status, versionOf parsed.version, keepHeaders headers⟩)

/-- `try_parse_req`. -/
def tryParseReq (buf : Bytes) (_ : Bool) : Except IoError (Option Request) :=
  match Crates.parseReq buf with
  | .error m => .error ⟨.invalidData, m⟩
  | .ok (isPartial, parsed) =>
      if isPartial then .ok none
      else
        let version := if parsed.version = some 1 then Version.http11 else Version.http10
        match Crates.buildUri parsed.path with
        | .error m => .error ⟨.invalidData, m⟩
        | .ok uri =>
            let method : Except String Method := match parsed.method with
              | some m => Crates.method m
              | none => .ok .get
            match method with
            | .error m => .error ⟨.invalidData, m⟩
            | .ok method => .ok (some ⟨method, uri, version, keepHeaders parsed.headers⟩)

end Parse

/-! ### Finding the end of a head -/

/-- `END_OF_HEADER`. -/
def endOfHeader : Bytes := [13, 10, 13, 10]

/-- `end_index` after the byte `b`. -/
def endIndexStep (endIndex : Nat) (b : Byte) : Nat :=
  if endOfHeader[endIndex]? = some b then endIndex + 1
  -- the special case of \n\n: we still expect the last \n
  else if endIndex = 0 ∧ b = 10 then 3
  else 0

/-- What the scan of the buffer comes to. -/
inductive Scan where
  | head (bufIndex : Nat)
  | eof
  | tooLong
  | more (endIndex : Nat)
  deriving DecidableEq, Repr

/-- The inner loop of `poll_for_crlfcrlf`, over the part of the buffer from `bufIndex` on. -/
def scan (endOfStream : Bool) : Bytes → Nat → Nat → Scan
  | rest, endIndex, bufIndex =>
      if endIndex = 4 ∨ endOfStream = true ∧ 0 < bufIndex then .head bufIndex
      else if endOfStream = true ∧ bufIndex = 0 then .eof
      else if bufIndex = readBufInitSize then .tooLong
      else
        match rest with
        | [] => .more endIndex
        | b :: rest => scan endOfStream rest (endIndexStep endIndex b) (bufIndex + 1)

/-- The variables of the outer loop of `poll_for_crlfcrlf`. -/
structure ScanVars where
  forceAppend : Bool
  endIndex : Nat
  bufIndex : Nat

variable [VecAlloc] {T : Type}

/-- A round of the outer loop of `poll_for_crlfcrlf`. -/
def scanRound (f : Bytes → Bool → T) (v : ScanVars) : PollM IoError BufIo (Flow ScanVars T) := do
  let buf ← BufIo.pollFillBuf v.forceAppend
  -- the buffer did not grow: that means end of file in the underlying reader.
  let endOfStream := buf.length == v.bufIndex
  assert (v.bufIndex ≤ buf.length) "index out of bounds"
  match scan endOfStream (buf.drop v.bufIndex) v.endIndex v.bufIndex with
  | .head n =>
      let ret := f (buf.take n) endOfStream
      BufIo.consume n
      pure (.done ret)
  | .eof => throw ⟨.unexpectedEof, "EOF and no header length"⟩
  | .tooLong => throw ⟨.invalidData, "No header found in 16384 bytes"⟩
  | .more endIndex => pure (.again ⟨true, endIndex, buf.length⟩)

/-- A bound on the rounds of `poll_for_crlfcrlf`. -/
def scanWeight (v : ScanVars) (io : BufIo) : Nat :=
  3 * io.inner.rxWeight + (if v.forceAppend then 0 else 1) +
    (if v.bufIndex = io.unread.length then 0 else 1)

def pollForCrlfcrlf (f : Bytes → Bool → T) : PollM IoError BufIo T :=
  loop scanWeight (scanRound f) ⟨false, 0, 0⟩

end HreqH1
