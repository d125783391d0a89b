import HreqH1.Model.Limit
import HreqH1.Model.Mpsc

/-!
# Model — Share

`SendStream`, `RecvStream` and `Data` of `src/share.rs`.  A stream's poll runs on the stream and on
the channel it holds an end of.  `poll_drive_server`, which is nothing on the client, is in
`Server`.
-/

namespace HreqH1
open PollM

/-- `Data`. -/
inductive Data where
  | shared (bs : Bytes)
  | owned (bs : Bytes)
  | empty
  deriving DecidableEq, Repr

namespace Data

def isOwned : Data → Bool
  | .owned _ => true
  | _ => false

/-- The slice a `Data` derefs to. -/
def bytes : Data → Bytes
  | .shared v => v
  | .owned v => v
  | .empty => []

def isEmpty (d : Data) : Bool := d.bytes.isEmpty
def len (d : Data) : Nat := d.bytes.length

end Data

structure SendStream where
  limit : LimitWrite
  ended : Bool
  driveExternal : Bool
  deriving DecidableEq

namespace SendStream
variable [VecAlloc]

/-- The stream and its `tx_body`. -/
abbrev Out : Type := SendStream × Chan (Bytes × Bool)

def onChan {α : Type} (x : PollM Error (Chan (Bytes × Bool)) α) : PollM Error Out α :=
  zoom Prod.snd (fun s c => (s.1, c)) x

/-- A step of the limiter that writes into `chunk`: what the chunk is then. -/
def onLimit (chunk : FastBuf) (x : PollM Error (LimitWrite × FastBuf) Unit) :
    PollM Error Out FastBuf := fun s =>
  match x (s.1.limit, chunk) with
  | (r, t) => (r.map fun _ => t.2, ({ s.1 with limit := t.1 }, s.2))

def connectionClosed : Error := .io ⟨.connectionAborted, "Connection closed"⟩

/-- The end of the branch for shared data: `finish`, where the body ends. -/
def sealChunk (fin : Bool) (chunk : FastBuf) : PollM Error Out Bytes := do
  if fin then
    modify fun s => ({ s.1 with ended := true }, s.2)
    let chunk ← onLimit chunk LimitWrite.finish
    pure chunk.intoVec
  else pure chunk.intoVec

/-- The bytes to put on the channel, from the branch for owned data with a content-length and the
branch for shared data and chunked transfer. -/
def toSend (data : Data) (fin : Bool) : PollM Error Out Bytes := do
  let this := (← get).1
  if data.isOwned && this.limit.canWriteEntireVec then
    -- so limit counters are correct
    let limit ← orPanic (this.limit.acceptEntireVec data.bytes)
    modify fun s => ({ s.1 with limit := limit }, s.2)
    pure data.bytes
  else
    let capacity := data.len + this.limit.overhead
    let chunk ← onLimit (.withCapacity capacity) (LimitWrite.write data.bytes)
    sealChunk fin chunk

/-- `poll_send_data`. -/
def pollSendData (cx : Waker) (data : Data) (fin : Bool) : PollM Error Out Unit := do
  let this := (← get).1
  if this.ended && fin && data.isEmpty then pure ()
  else if this.ended then throw (.user "Body data is not expected")
  else
    let ready ← onChan (Chan.pollReady cx true)
    if !ready then throw connectionClosed
    else
      let chunk ← toSend data fin
      let sent ← onChan (Chan.send (chunk, fin))
      if !sent then throw connectionClosed
      else pure ()

end SendStream

structure RecvStream where
  ready : Option ConsumeBuf
  ended : Bool
  driveExternal : Bool
  deriving DecidableEq

namespace RecvStream

/-- `RecvStream::new`. -/
def new (ended driveExternal : Bool) : RecvStream := ⟨none, ended, driveExternal⟩

/-- The stream and its `rx_body`. -/
abbrev In : Type := RecvStream × Chan (Except IoError Bytes)

/-- A round of the loop of `poll_body_data`, for a slice of `n` bytes. -/
def bodyRound (cx : Waker) (n : Nat) (_ : Unit) : PollM IoError In (Flow Unit Bytes) := do
  match (← get).1.ready with
  | some ready =>
      -- First ship out ready data already received.
      let out := ready.rest.take n
      let ready ← orPanic (ready.consume out.length)
      modify fun s => ({ s.1 with ready := if ready.isEmpty then none else some ready }, s.2)
      pure (.done out)
  | none =>
      match ← zoom Prod.snd (fun s c => (s.1, c)) (Chan.pollRecv cx true) with
      | none =>
          -- Channel is closed which indicates end of body.
          modify fun s => ({ s.1 with ended := true }, s.2)
          pure (.done [])
      | some v =>
          let v ← lift v
          modify fun s => ({ s.1 with ready := some (.new v) }, s.2)
          pure (.again ())

/-- `poll_body_data` into a slice of `n` bytes. -/
def pollBodyData (cx : Waker) (n : Nat) : PollM IoError In Bytes := do
  if (← get).1.ended then pure []
  else loop (fun _ s => if s.1.ready.isSome then 0 else 1) (bodyRound cx n) ()

end RecvStream

end HreqH1
