import HreqH1.Support.Poll

/-!
# Model — Error

`src/error.rs`, the part of `std::io::Error` the crate uses, and `is_closed_kind` of
`src/share.rs`.
-/

namespace HreqH1

abbrev Byte := UInt8
abbrev Bytes := List UInt8

/-- `io::ErrorKind`: the kinds the crate names; every other kind of a transport is `otherKind`. -/
inductive ErrorKind where
  | unexpectedEof
  | connectionReset
  | connectionAborted
  | notConnected
  | invalidData
  | writeZero
  | other
  | otherKind (n : Nat)
  deriving DecidableEq, Repr

/-- `io::Error`: its kind and its text. -/
structure IoError where
  kind : ErrorKind
  msg : String
  deriving DecidableEq, Repr

/-- `crate::Error`. -/
inductive Error where
  | user (msg : String)
  | io (e : IoError)
  | http11Parser (msg : String)
  | http (msg : String)
  deriving DecidableEq, Repr

/-- `Error::into_io`. -/
def Error.intoIo : Error → IoError
  | .io i => i
  | .user m => ⟨.other, m⟩
  | .http11Parser m => ⟨.other, m⟩
  | .http m => ⟨.other, m⟩

/-- `err_closed`. -/
def errClosed (msg : String) : Error := .io ⟨.notConnected, msg⟩

/-- `is_closed_kind`: the other side closed the connection. -/
def isClosedKind (kind : ErrorKind) : Bool :=
  kind == .unexpectedEof || kind == .connectionReset || kind == .connectionAborted

/-- What `Option::unwrap` panics with where there is nothing. -/
def unwrapNone : String := "called `Option::unwrap()` on a `None` value"

end HreqH1
