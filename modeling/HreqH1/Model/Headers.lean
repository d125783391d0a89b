import HreqH1.Model.Error

/-!
# Model — Headers

The types of the `http` crate a head is made of, what the crate asks of the `http` and `httparse`
crates (`Crates`), and the header look-ups of `src/limit.rs`: `is_chunked`, `allow_reuse`,
`is_keep_alive`, `get_str`, `get_as`.
-/

namespace HreqH1

/-- An ASCII literal. -/
def ascii (s : String) : Bytes := s.toList.map fun c => c.toNat.toUInt8

/-- `http::Version`. -/
inductive Version where
  | http09 | http10 | http11 | http2 | http3
  deriving DecidableEq, Repr

/-- `http::Method`. -/
inductive Method where
  | options | get | post | put | delete | head | trace | connect | patch
  | extension (name : Bytes)
  deriving DecidableEq, Repr

/-- `http::HeaderMap`: names in lower case and their values, in the order of insertion. -/
abbrev HeaderMap : Type := List (Bytes × Bytes)

namespace HeaderMap

/-- `HeaderMap::get`: the first value of the field. -/
def get (headers : HeaderMap) (name : Bytes) : Option Bytes :=
  (headers.find? fun h => h.1 == name).map Prod.snd

/-- `HeaderMap::get_all`. -/
def getAll (headers : HeaderMap) (name : Bytes) : List Bytes :=
  (headers.filter fun h => h.1 == name).map Prod.snd

end HeaderMap

/-- `http::Uri`, in the parts `write_http1x_req` asks for. -/
structure Uri where
  scheme : Option Bytes
  host : Option Bytes
  port : Option Nat
  pathAndQuery : Option Bytes
  deriving DecidableEq

/-- The head of an `http::Request`. -/
structure Request where
  method : Method
  uri : Uri
  version : Version
  headers : HeaderMap
  deriving DecidableEq

/-- The head of an `http::Response`. -/
structure Response where
  status : Nat
  version : Version
  headers : HeaderMap
  deriving DecidableEq

/-- `httparse::Request`, as `parse` leaves it. -/
structure ParsedReq where
  method : Option Bytes
  path : Option Bytes
  version : Option Nat
  headers : List (Bytes × Bytes)
  deriving DecidableEq

/-- `httparse::Response`, as `parse` leaves it. -/
structure ParsedRes where
  version : Option Nat
  code : Option Nat
  headers : List (Bytes × Bytes)
  deriving DecidableEq

/-- What the crate asks of `httparse` and of `http`, whose sources are elsewhere.  `parseReq` and
`parseRes` are the two `parse` methods at 128 headers: an error, or whether the parse is partial
and what the parser holds. -/
class Crates where
  parseReq : Bytes → Except String (Bool × ParsedReq)
  parseRes : Bytes → Except String (Bool × ParsedRes)
  /-- `HeaderName::from_bytes`, in lower case. -/
  headerName : Bytes → Except String Bytes
  /-- `HeaderValue::from_bytes`. -/
  headerValue : Bytes → Except String Bytes
  /-- `Uri::builder()`, with a `path_and_query` if there is one, and `build`. -/
  buildUri : Option Bytes → Except String Uri
  /-- `Method::try_from`. -/
  method : Bytes → Except String Method
  /-- `StatusCode::canonical_reason`. -/
  canonicalReason : Nat → Option Bytes

/-- The two crates as they are on the heads listed here, with names in lower case and values as they
are.  Every other head is taken for a partial one. -/
@[reducible] def Crates.table (reqs : List (Bytes × ParsedReq)) (ress : List (Bytes × ParsedRes)) :
    Crates where
  parseReq buf := match reqs.lookup buf with
    | some parsed => .ok (false, parsed)
    | none => .ok (true, ⟨none, none, none, []⟩)
  parseRes buf := match ress.lookup buf with
    | some parsed => .ok (false, parsed)
    | none => .ok (true, ⟨none, none, []⟩)
  headerName := .ok
  headerValue := .ok
  buildUri path := .ok ⟨none, none, none, path⟩
  method name :=
    if name = ascii "GET" then .ok .get
    else if name = ascii "HEAD" then .ok .head
    else if name = ascii "POST" then .ok .post
    else .ok (.extension name)
  canonicalReason status :=
    if status = 200 then some (ascii "OK")
    else if status = 204 then some (ascii "No Content")
    else if status = 302 then some (ascii "Found")
    else none

/-! ### Values -/

/-- `HeaderValue::to_str`: the value, if it is visible ASCII. -/
def toStr (value : Bytes) : Option Bytes :=
  if value.all fun b => (32 ≤ b && b < 127) || b == 9 then some value else none

/-- The value of a digit below `radix`, as `char::to_digit`. -/
def toDigit (radix : Nat) (b : Byte) : Option Nat :=
  let d :=
    if 48 ≤ b ∧ b ≤ 57 then some (b.toNat - 48)
    else if 97 ≤ b ∧ b ≤ 122 then some (b.toNat - 97 + 10)
    else if 65 ≤ b ∧ b ≤ 90 then some (b.toNat - 65 + 10)
    else none
  d.filter (· < radix)

/-- The digits of a number in `radix`, most significant first, after the digits of `acc`. -/
def foldDigits (radix : Nat) : Nat → Bytes → Option Nat
  | acc, [] => some acc
  | acc, b :: bs => (toDigit radix b).bind fun d => foldDigits radix (acc * radix + d) bs

/-- `from_str_radix` of a 64-bit unsigned integer: an optional `+`, and one or more digits that do
not overflow. -/
def fromStrRadix (radix : Nat) (s : Bytes) : Option Nat :=
  let digits := match s with
    | 43 :: rest => rest
    | _ => s
  if digits.isEmpty then none
  else (foldDigits radix 0 digits).filter (· < 2 ^ 64)

/-- `get_str`. -/
def getStr (headers : HeaderMap) (key : Bytes) : Option Bytes :=
  (headers.get key).bind toStr

/-- `get_as::<u64>`. -/
def getAs (headers : HeaderMap) (key : Bytes) : Option Nat :=
  (getStr headers key).bind (fromStrRadix 10)

def isChunked (headers : HeaderMap) : Bool :=
  (((headers.get (ascii "transfer-encoding")).bind toStr).map
    fun h => !decide (ascii "identity" <:+: h)).getD false

def isKeepAlive (headers : HeaderMap) (default : Bool) : Bool :=
  (((headers.get (ascii "connection")).bind toStr).bind fun h =>
    if h = ascii "keep-alive" then some true
    else if h = ascii "close" then some false
    else none).getD default

def allowReuse (headers : HeaderMap) (version : Version) : Bool :=
  if version = .http11 then isKeepAlive headers true else isKeepAlive headers false

/-- `headers_indicate_body`. -/
def headersIndicateBody (headers : HeaderMap) : Bool :=
  isChunked headers || (getAs headers (ascii "content-length")).isSome

/-! ### Status codes -/

def isInformational (status : Nat) : Bool := 100 ≤ status && status < 200
def isRedirection (status : Nat) : Bool := 300 ≤ status && status < 400

end HreqH1
