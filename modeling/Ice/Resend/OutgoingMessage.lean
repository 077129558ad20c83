import Ice.Lib.Transition
import Ice.Streams.OutputStream

/-!
# Messages that are sent again

The streams of outgoing messages on their way through connections. The header of a stream is
edited where it lies on each attempt to send it; when the attempt fails, the stream is what the
next connection gets. A message that is queued carries the stream of its caller, which nobody else
touches meanwhile.
-/

namespace Ice.Resend

open Streams (Byte intBytes toInt leNat)

def headerSize : Nat := 14

/-- A buffer and the position from which it is written, which is null until sending begins. -/
structure Stream where
  b : List Byte
  i : Option Nat
  deriving DecidableEq, Repr

/-- A stream without a message -/
def Stream.empty : Stream := ⟨[], some 0⟩

/-- The position after `n` bytes more. -/
def Stream.advance (s : Stream) (n : Nat) : Stream :=
  { s with i := s.i.map fun i => min (i + n) s.b.length }

/-- The position at the end -/
def Stream.finish (s : Stream) : Stream := { s with i := some s.b.length }

structure OutgoingMessage where
  id : Nat
  /-- The stream of the caller -/
  callers : Stream
  /-- The stream that the message owns -/
  adopted : Option Stream
  /-- `outAsync` is set. -/
  request : Bool
  compress : Bool
  deriving DecidableEq, Repr

namespace OutgoingMessage

/-- `*stream` -/
def stream (m : OutgoingMessage) : Stream := m.adopted.getD m.callers

def setStream (m : OutgoingMessage) (s : Stream) : OutgoingMessage :=
  match m.adopted with
  | some _ => { m with adopted := some s }
  | none => { m with callers := s }

/-- `adopt(0)` -/
def adopt (m : OutgoingMessage) : OutgoingMessage :=
  match m.adopted with
  | some _ => m
  | none => if m.request then m else { m with adopted := some m.callers, callers := .empty }

end OutgoingMessage

structure ConnectionI where
  closingPending : Bool := false
  closed : Bool := false
  sendStreams : List OutgoingMessage := []
  writeStream : Stream := .empty
  deriving DecidableEq, Repr

/-- `_writeStream.swap(*message->stream)` -/
def ConnectionI.swap (c : ConnectionI) (m : OutgoingMessage) : ConnectionI × OutgoingMessage :=
  ({ c with writeStream := m.stream }, m.setStream c.writeStream)

/-- Bytes that are offered to a transceiver for the first time in an attempt to send a message:
what the compressor made of it, or the stream of the message -/
structure Offer where
  id : Nat
  compressed : Bool
  bytes : List Byte
  deriving DecidableEq, Repr

/-- `copy(p, p + bytes.size(), b.begin() + k)` -/
def overwrite (b : List Byte) (k : Nat) (bytes : List Byte) : List Byte :=
  b.take k ++ bytes ++ b.drop (k + bytes.length)

/-- `doCompress`: the uncompressed stream with the size that it gets, and the compressed one, which
there is none of if `BZ2_bzBuffToBuffCompress` fails. -/
def doCompress (bz : List Byte → Option (List Byte)) (uncompressed : List Byte) :
    List Byte × Option (List Byte) :=
  match bz (uncompressed.drop headerSize) with
  | none => (uncompressed, none)
  | some body =>
    let uncompressed := overwrite uncompressed 10 (intBytes (headerSize + 4 + body.length : Nat))
    (uncompressed,
      some (uncompressed.take headerSize ++ intBytes uncompressed.length ++ body))

/-- A message that is about to be written: its stream, and the bytes for the transceiver -/
structure Prepared where
  stream : List Byte
  bytes : Option (List Byte)
  compressed : Bool
  deriving DecidableEq, Repr

/-- The edits of `sendMessage` and `sendNextMessage` before a message is written. Only messages of
at least 100 bytes are compressed. -/
def prepare (bz : List Byte → Option (List Byte)) (compress : Bool) (b : List Byte) : Prepared :=
  if compress && decide (100 ≤ b.length) then
    let p := doCompress bz (b.set 9 2)
    ⟨p.1, p.2, true⟩
  else
    let b := if compress then b.set 9 1 else b
    let b := overwrite b 10 (intBytes b.length)
    ⟨b, some b, false⟩

def Prepared.offers (p : Prepared) (id : Nat) : List Offer :=
  match p.bytes with
  | some bytes => [⟨id, p.compressed, bytes⟩]
  | none => []

/-- What comes of `write(stream)`: it returns `SocketOperationNone`, it blocks, or it throws. -/
inductive Answer
  | done
  | blocked (n : Nat)
  | failed (n : Nat)
  deriving DecidableEq, Repr

/-- A connection after a call, the streams that are with their callers again, and the offers -/
structure Effect where
  connection : ConnectionI
  returned : List (Nat × Stream) := []
  offers : List Offer := []

/-- `sendMessage`. Its callers close the connection if it throws. -/
def sendMessage (bz : List Byte → Option (List Byte)) (c : ConnectionI) (m : OutgoingMessage)
    (answer : Answer) : Effect :=
  let m := { m with callers := { m.callers with i := none } }
  if c.sendStreams ≠ [] then
    { connection := { c with sendStreams := c.sendStreams ++ [m.adopt] } }
  else
    let p := prepare bz m.compress m.callers.b
    let offers := p.offers m.id
    let callers : Stream := ⟨p.stream, some 0⟩
    match p.bytes with
    | none => ⟨{ c with closed := true }, [(m.id, callers)], offers⟩
    | some bytes =>
      -- the compressed bytes are in a stream of their own
      let written : Stream := ⟨bytes, some 0⟩
      match answer with
      | .done => ⟨c, [(m.id, if p.compressed then callers else written.finish)], offers⟩
      | .failed n =>
        ⟨{ c with closed := true },
          [(m.id, if p.compressed then callers else written.advance n)], offers⟩
      | .blocked n =>
        let m :=
          if p.compressed then { m with callers, adopted := some (written.advance n) }
          else { m with callers := written.advance n }.adopt
        let (c, m) := c.swap m
        ⟨{ c with sendStreams := [m] }, [], offers⟩

/-- The loop of `sendNextMessage`, from a message that is written on; `rest` is queued behind it. -/
def sendNext (bz : List Byte → Option (List Byte)) (m : OutgoingMessage) :
    List OutgoingMessage → List Answer → ConnectionI → Effect
  | [], _, c =>
    let (c, m) := c.swap m
    { connection := { c with sendStreams := [] }, returned := [(m.id, m.callers)] }
  | next :: rest, answers, c =>
    let (c, m) := c.swap m
    if c.closingPending then
      { connection := { c with sendStreams := next :: rest }, returned := [(m.id, m.callers)] }
    else
      let p := prepare bz next.compress next.stream.b
      let offers := p.offers next.id
      let edited := next.setStream ⟨p.stream, next.stream.i⟩
      match p.bytes with
      | none =>
        ⟨{ c with closed := true, sendStreams := edited :: rest }, [(m.id, m.callers)], offers⟩
      | some bytes =>
        let next :=
          if p.compressed then { edited with adopted := some ⟨bytes, some 0⟩ }
          else next.setStream ⟨bytes, some 0⟩
        let (c, next) := c.swap next
        match answers.headD (.blocked 0) with
        | .done =>
          let e := sendNext bz next rest answers.tail
            { c with writeStream := c.writeStream.finish }
          ⟨e.connection, (m.id, m.callers) :: e.returned, offers ++ e.offers⟩
        | .blocked n =>
          ⟨{ c with sendStreams := next :: rest, writeStream := c.writeStream.advance n },
            [(m.id, m.callers)], offers⟩
        | .failed n =>
          ⟨{ c with
              closed := true
              sendStreams := next :: rest
              writeStream := c.writeStream.advance n },
            [(m.id, m.callers)], offers⟩

/-- `finish`: the streams go back to the callers. -/
def finish (c : ConnectionI) : Effect :=
  let queue :=
    match c.sendStreams with
    | [] => []
    | m :: rest => if c.writeStream.b ≠ [] then (c.swap m).2 :: rest else m :: rest
  { connection := { c with sendStreams := [], writeStream := .empty }
    returned := queue.map fun m => (m.id, m.callers) }

/-- A request that waits for its response gets an id, and a batch the number of its requests, in the
same place. -/
def fillIn (requestId : Option Int) (b : List Byte) : List Byte :=
  match requestId with
  | some v => overwrite b headerSize (intBytes v)
  | none => b

/-- The streams that are with their callers, the connections, and the offers so far -/
structure State where
  streams : Nat → Option Stream
  connections : Nat → ConnectionI
  log : List Offer

/-- The steps of a request and its connections -/
inductive Step
  /-- A message is handed to a connection, by `sendAsyncRequest` or as a reply. -/
  | send (connection id : Nat) (request compress : Bool) (requestId : Option Int) (answer : Answer)
  /-- The connection may write. -/
  | writable (connection : Nat) (answers : List Answer)
  /-- The close is pending and the transceiver does not write the message any more. -/
  | withheld (connection : Nat)
  /-- `asyncRequestCanceled` for a request that is queued -/
  | cancel (connection index : Nat)
  | closePending (connection : Nat)
  | close (connection : Nat)
  | finish (connection : Nat)
  deriving DecidableEq, Repr

namespace State

def setConnection (s : State) (k : Nat) (c : ConnectionI) : State :=
  { s with connections := fun j => if j = k then c else s.connections j }

def setStream (s : State) (id : Nat) (stream : Option Stream) : State :=
  { s with streams := fun j => if j = id then stream else s.streams j }

/-- The state after a call on a connection -/
def apply (s : State) (k : Nat) (e : Effect) : State :=
  e.returned.foldl (fun s p => s.setStream p.1 (some p.2))
    { s.setConnection k e.connection with log := s.log ++ e.offers }

end State

def step (bz : List Byte → Option (List Byte)) (s : State) : Step → Option State
  | .send k id request compress requestId answer =>
    let c := s.connections k
    match s.streams id with
    | none => none
    | some stream =>
      if c.closed ∨ stream.b = [] ∨
          (requestId.isSome ∧ stream.b.length < headerSize + 4) then none
      else
        let stream := { stream with b := fillIn requestId stream.b }
        let m : OutgoingMessage := ⟨id, stream, none, request, compress⟩
        some ((s.setStream id none).apply k (sendMessage bz c m answer))
  | .writable k answers =>
    let c := s.connections k
    match c.sendStreams with
    | [] => none
    | m :: rest =>
      if c.closed ∨ c.writeStream.b = [] then none
      else
        match answers.headD (.blocked 0) with
        | .done =>
          let c := { c with writeStream := c.writeStream.finish }
          some (s.apply k (sendNext bz m rest answers.tail c))
        | .blocked n =>
          some (s.setConnection k { c with writeStream := c.writeStream.advance n })
        | .failed n =>
          some (s.setConnection k
            { c with closed := true, writeStream := c.writeStream.advance n })
  | .withheld k =>
    let c := s.connections k
    match c.sendStreams with
    | [] => none
    | m :: rest =>
      if c.closed ∨ !c.closingPending ∨ c.writeStream.i ≠ some 0 then none
      else
        let (c, m) := c.swap m
        some (s.setConnection k { c with sendStreams := m :: rest })
  | .cancel k index =>
    let c := s.connections k
    match c.sendStreams[index]? with
    | none => none
    | some m =>
      if c.closed ∨ !m.request then none
      else if index = 0 then
        -- it stays until it is written
        let m := { m with request := false }.adopt
        some (s.setConnection k { c with sendStreams := m :: c.sendStreams.tail })
      else
        let c := { c with sendStreams := c.sendStreams.eraseIdx index }
        some (s.apply k { connection := c, returned := [(m.id, m.callers)] })
  | .closePending k => some (s.setConnection k { s.connections k with closingPending := true })
  | .close k => some (s.setConnection k { s.connections k with closed := true })
  | .finish k =>
    if (s.connections k).closed then some (s.apply k (finish (s.connections k))) else none

/-- Messages that were not handed to a connection yet, and new connections -/
def State.initial (messages : Nat → List Byte) : State :=
  ⟨fun id => some ⟨messages id, none⟩, fun _ => {}, []⟩

end Ice.Resend
