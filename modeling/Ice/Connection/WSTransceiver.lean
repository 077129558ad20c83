import Mathlib

/-!
# The WebSocket transceiver

`WSTransceiver` from the time the connection is opened: `write`, `read` and `closing`,
with the state that they keep between calls. The underlying transport is a script: for
each round of the loop of `write` it says how much is taken, for each round of the loop
of `read` how much of what the peer sent is there. Iterators are positions.
-/

namespace Ice.Connection

/-- `IceInternal::Buffer` -/
structure Buffer where
  b : List UInt8 := []
  i : Nat := 0
  deriving DecidableEq, Repr

namespace Buffer

/-- `Container::resize`; what new bytes hold is not specified. -/
def resized (n : Nat) (b : List UInt8) : List UInt8 := b.take n ++ List.replicate (n - b.length) 0

/-- Copy bytes over those from a position on. -/
def overwrite (b : List UInt8) (pos : Nat) (bytes : List UInt8) : List UInt8 :=
  b.take pos ++ bytes ++ b.drop (pos + bytes.length)

/-- The bytes from the position on. -/
def rest (buf : Buffer) : List UInt8 := buf.b.drop buf.i

/-- `buf.i == buf.b.end()` -/
def atEnd (buf : Buffer) : Bool := buf.i = buf.b.length

end Buffer

structure SocketOperation where
  read : Bool
  write : Bool
  deriving DecidableEq, Repr

namespace SocketOperation

def none : SocketOperation := ⟨false, false⟩

def onRead : SocketOperation := ⟨true, false⟩

def onWrite : SocketOperation := ⟨false, true⟩

end SocketOperation

/-- The exceptions of an opened transceiver. -/
inductive WSException
  | protocolException (reason : String)
  | connectionLostException
  deriving DecidableEq, Repr

/-- The states from `StateOpened` on. -/
inductive WSState
  | opened
  | pingPending
  | pongPending
  | closingRequestPending
  | closingResponsePending
  deriving DecidableEq, Repr

/-- The place of a state in the enumeration. -/
def WSState.toNat : WSState → Nat
  | .opened => 4
  | .pingPending => 5
  | .pongPending => 6
  | .closingRequestPending => 7
  | .closingResponsePending => 8

inductive ReadState
  | opcode
  | header
  | controlFrame
  | payload
  deriving DecidableEq, Repr

inductive WriteState
  | header
  | payload
  | controlFrame
  deriving DecidableEq, Repr

/-- Why a connection is closed, as far as `closing` looks at it. -/
inductive ClosingReason
  | closeConnection
  | objectAdapterDeactivated
  | communicatorDestroyed
  | memoryLimit
  | protocol
  | other
  deriving DecidableEq, Repr

/-- A frame mask of four bytes. -/
abbrev Mask := Fin 4 → UInt8

scoped instance mask_neZero : NeZero 4 := ⟨by decide⟩

/-- The byte of the mask for the byte at a position of the payload. -/
def Mask.at (mask : Mask) (n : Nat) : UInt8 := mask (Fin.ofNat 4 n)

/-- The bytes of a payload from position `n` on, masked. -/
def Mask.apply (mask : Mask) (n : Nat) (bytes : List UInt8) : List UInt8 :=
  bytes.mapIdx fun j x => x ^^^ mask.at (n + j)

def opCont : Nat := 0

def opText : Nat := 1

def opData : Nat := 2

def opClose : Nat := 8

def opPing : Nat := 9

def opPong : Nat := 10

/-- `FLAG_FINAL` and `FLAG_MASKED` -/
def flag : Nat := 128

/-- The `k` bytes of a number in network order. -/
def bigEndian : Nat → Nat → List UInt8
  | 0, _ => []
  | k + 1, n => UInt8.ofNat (n / 256 ^ k) :: bigEndian k n

/-- A number from its bytes in network order. -/
def ofBigEndian (bytes : List UInt8) : Nat := bytes.foldl (fun n b => 256 * n + b.toNat) 0

/-- The `Long` of eight bytes: from `2 ^ 63` on it is negative. -/
def asLong (n : Nat) : Int := if n < 2 ^ 63 then n else n - 2 ^ 64

structure WSTransceiver where
  incoming : Bool
  /-- What `generateRandom` yields, and how often it was called. -/
  random : Nat → Mask
  generated : Nat := 0
  state : WSState := .opened
  nextState : WSState := .opened
  readState : ReadState := .opcode
  readBuffer : Buffer
  readI : Nat
  readBufferSize : Nat := 1024
  readLastFrame : Bool := true
  readOpCode : Nat := 0
  readHeaderLength : Nat := 0
  readPayloadLength : Nat := 0
  readStart : Nat := 0
  readFrameStart : Nat := 0
  readMask : Mask := fun _ => 0
  writeState : WriteState := .header
  writeBuffer : Buffer
  writeBufferSize : Nat
  writeMask : Mask := fun _ => 0
  writePayloadLength : Nat
  closingInitiator : Bool := false
  closingReason : Nat := 1000
  pingPayload : List UInt8 := []

namespace WSTransceiver

/-- A transceiver at the end of `initialize`: `consumed` is the upgrade request or response in
the read buffer, `leftover` what was read behind it, `spare` the rest of the buffer. The write
buffer holds the own part of the upgrade; the payload length was never set. -/
def opened (incoming : Bool) (random : Nat → Mask) (consumed leftover spare upgrade : List UInt8)
    (writePayloadLength : Nat) : WSTransceiver :=
  { incoming
    random
    readBuffer := ⟨consumed ++ leftover ++ spare, consumed.length + leftover.length⟩
    readI := consumed.length
    writeBuffer := ⟨upgrade, upgrade.length⟩
    writeBufferSize := if incoming then 1024 else 16 * 1024
    writePayloadLength }

/-- `_state == StateClosingRequestPending && !_closingInitiator` or
`_state == StateClosingResponsePending && _closingInitiator` -/
def closeDue (t : WSTransceiver) : Bool :=
  (t.state = .closingRequestPending && !t.closingInitiator) ||
    (t.state = .closingResponsePending && t.closingInitiator)

/-- A control frame is to be sent. -/
def controlDue (t : WSTransceiver) : Bool :=
  t.state = .pingPending || t.state = .pongPending || t.closeDue

/-- The state that is looked at before a close: the next one, if there is one. -/
def effectiveState (t : WSTransceiver) : WSState :=
  if t.nextState = .opened then t.state else t.nextState

/-- The new `_closingReason`: limits of memory are protocol exceptions, too. -/
def reasonCode (t : WSTransceiver) : ClosingReason → Nat
  | .closeConnection => 1000
  | .objectAdapterDeactivated => 1001
  | .communicatorDestroyed => 1001
  | .protocol => 1002
  | .memoryLimit => 1002
  | .other => t.closingReason

/-- `WSTransceiver::closing` -/
def closing (initiator : Bool) (reason : ClosingReason) (t : WSTransceiver) :
    SocketOperation × WSTransceiver :=
  let s := t.effectiveState
  if s = .closingRequestPending && t.closingInitiator then
    (.onWrite, { t with closingInitiator := false })
  else if WSState.closingRequestPending.toNat ≤ s.toNat then (.none, t)
  else
    let t := { t with closingInitiator := initiator, closingReason := t.reasonCode reason }
    if t.state = .opened then
      (if initiator then .onRead else .onWrite, { t with state := .closingRequestPending })
    else (.none, { t with nextState := .closingRequestPending })

/-- The bytes of a frame header that hold the length of the payload. -/
def lengthBytes (masked : Bool) (payloadLength : Nat) : List UInt8 :=
  let maskFlag := if masked then flag else 0
  if payloadLength ≤ 125 then [UInt8.ofNat (payloadLength + maskFlag)]
  else if payloadLength ≤ 65535 then UInt8.ofNat (126 + maskFlag) :: bigEndian 2 payloadLength
  else UInt8.ofNat (127 + maskFlag) :: bigEndian 8 payloadLength

/-- The bytes of a frame header. -/
def frameHeader (incoming : Bool) (opCode payloadLength : Nat) (mask : Mask) : List UInt8 :=
  UInt8.ofNat (opCode + flag) ::
    (lengthBytes (!incoming) payloadLength ++
    if incoming then [] else [mask 0, mask 1, mask 2, mask 3])

/-- `WSTransceiver::prepareWriteHeader` -/
def prepareWriteHeader (opCode payloadLength : Nat) (t : WSTransceiver) : WSTransceiver :=
  let mask := if t.incoming then t.writeMask else t.random t.generated
  let header := frameHeader t.incoming opCode payloadLength mask
  { t with
    generated := if t.incoming then t.generated else t.generated + 1
    writeMask := mask
    writeBuffer :=
      ⟨Buffer.overwrite (Buffer.resized t.writeBufferSize t.writeBuffer.b) 0 header,
        header.length⟩ }

/-- Put bytes behind the header, let the write buffer end there and go to its start. -/
def controlFrame (payload : List UInt8) (t : WSTransceiver) : WSTransceiver :=
  { t with
    writeBuffer := ⟨t.writeBuffer.b.take t.writeBuffer.i ++ payload, 0⟩
    writeState := .controlFrame }

/-- The first part of `preWrite`: prepare the header of the next frame, if there is one. -/
def prepareFrame (t : WSTransceiver) (buf : Buffer) : Option WSTransceiver :=
  if t.state = .opened then
    if buf.b.isEmpty || buf.atEnd then none
    else some { t.prepareWriteHeader opData buf.b.length with writeState := .payload }
  else if t.state = .pingPending then
    some ((t.prepareWriteHeader opPing 0).controlFrame [])
  else if t.state = .pongPending then
    -- the payload of a ping is sent back as it came, also where frames are masked
    some { (t.prepareWriteHeader opPong t.pingPayload.length).controlFrame t.pingPayload with
      pingPayload := [] }
  else if t.closeDue then
    let t := t.prepareWriteHeader opClose 2
    let reason := bigEndian 2 t.closingReason
    some (t.controlFrame (if t.incoming then reason else t.writeMask.apply 0 reason))
  else none

/-- The second part of `preWrite`: fill the write buffer with what follows of the payload. -/
def fillPayload (t : WSTransceiver) (buf : Buffer) : WSTransceiver × Buffer :=
  if !t.incoming && (t.writePayloadLength = 0 || t.writeBuffer.atEnd) then
    let start := if t.writeBuffer.atEnd then 0 else t.writeBuffer.i
    let bytes := (buf.b.drop buf.i).take (t.writeBuffer.b.length - start)
    let filled := Buffer.overwrite t.writeBuffer.b start (t.writeMask.apply buf.i bytes)
    ({ t with
      writePayloadLength := buf.i + bytes.length
      writeBuffer := ⟨filled.take (start + bytes.length), 0⟩ }, buf)
  else if t.writePayloadLength = 0 then
    let bytes := (buf.b.drop buf.i).take (t.writeBuffer.b.length - t.writeBuffer.i)
    let filled := Buffer.overwrite t.writeBuffer.b t.writeBuffer.i bytes
    ({ t with
      writePayloadLength := bytes.length
      writeBuffer := ⟨filled.take (t.writeBuffer.i + bytes.length), 0⟩ },
      { buf with i := buf.i + bytes.length })
  else (t, buf)

/-- `WSTransceiver::preWrite` -/
def preWrite (t : WSTransceiver) (buf : Buffer) : Bool × WSTransceiver × Buffer :=
  let prepared := if t.writeState = .header then
      (t.prepareFrame buf).map fun t => { t with writePayloadLength := 0 }
    else some t
  match prepared with
  | none => (false, t, buf)
  | some t =>
    if t.writeState = .payload then (true, t.fillPayload buf)
    else (!t.writeBuffer.atEnd, t, buf)

/-- The last part of `postWrite`: how far the message is, and whether there is more to write. -/
def endRound (t : WSTransceiver) (buf : Buffer) : Bool × WSTransceiver × Buffer :=
  let buf :=
    if (!t.incoming || buf.i = 0) && 0 < t.writePayloadLength && t.writeBuffer.atEnd then
      { buf with i := t.writePayloadLength }
    else buf
  if buf.b.isEmpty || buf.atEnd then (t.controlDue, { t with writeState := .header }, buf)
  else (t.state = .opened, t, buf)

/-- `WSTransceiver::postWrite` -/
def postWrite (t : WSTransceiver) (buf : Buffer) :
    Except WSException (Bool × WSTransceiver × Buffer) :=
  if t.state ≠ .opened ∧ t.writeState = .controlFrame then
    if t.writeBuffer.atEnd then
      if t.closeDue then
        if t.state = .closingRequestPending && !t.closingInitiator then
          .ok (false, { t with writeState := .header, state := .closingResponsePending }, buf)
        else .error .connectionLostException
      else
        .ok ({ t with
          state := t.nextState
          nextState := .opened
          writeState := .header }.endRound buf)
    else .ok (true, t, buf)
  else .ok (t.endRound buf)

/-- What the transport does in one round: how many bytes it takes, and whether it waits to read
or to write where these are not all it is given. -/
structure Acceptance where
  taken : Nat
  wantsRead : Bool := false
  deriving DecidableEq, Repr

def Acceptance.blocked (a : Acceptance) : SocketOperation :=
  if a.wantsRead then .onRead else .onWrite

/-- The call of the transport in one round of the loop of `write`: the bytes it takes. -/
def offer (t : WSTransceiver) (buf : Buffer) (ready : Bool) (a : Acceptance) :
    List UInt8 × Option SocketOperation × WSTransceiver × Buffer :=
  if ready && !t.writeBuffer.atEnd then
    let bytes := t.writeBuffer.rest.take a.taken
    let t' := { t with writeBuffer := ⟨t.writeBuffer.b, t.writeBuffer.i + bytes.length⟩ }
    (bytes, if t'.writeBuffer.atEnd then .none else some a.blocked, t', buf)
  else if ready && t.incoming && !buf.b.isEmpty && t.writeState = .payload then
    let bytes := buf.rest.take a.taken
    let buf' := { buf with i := buf.i + bytes.length }
    (bytes, if buf'.atEnd then .none else some a.blocked, t, buf')
  else ([], .none, t, buf)

/-- What a call of `write` comes to, and the bytes handed to the transport. -/
structure Written where
  bytes : List UInt8
  result : Except WSException SocketOperation
  transceiver : WSTransceiver
  buf : Buffer

/-- What is left to do in a state is to read. -/
def waits (state : WSState) (t : WSTransceiver) : Bool :=
  state = .closingResponsePending && !t.closingInitiator

/-- The end of `write`. -/
def writeResult (t : WSTransceiver) : SocketOperation :=
  if t.waits t.state then .onRead else .none

/-- `WSTransceiver::write`, with one entry of the script for each round of its loop. -/
def write (buf : Buffer) (t : WSTransceiver) : List Acceptance → Option Written
  | [] => none
  | a :: script =>
    let (ready, t, buf) := t.preWrite buf
    match t.offer buf ready a with
    | (bytes, some op, t, buf) =>
      if script.isEmpty then some ⟨bytes, .ok op, t, buf⟩ else none
    | (bytes, none, t, buf) =>
      match t.postWrite buf with
      | .error ex => if script.isEmpty then some ⟨bytes, .error ex, t, buf⟩ else none
      | .ok (true, t, buf) =>
        (write buf t script).map fun w => { w with bytes := bytes ++ w.bytes }
      | .ok (false, t, buf) =>
        if script.isEmpty then some ⟨bytes, .ok t.writeResult, t, buf⟩ else none

/-- `WSTransceiver::readBuffered` -/
def readBuffered (sz : Nat) (t : WSTransceiver) : Bool × WSTransceiver :=
  let available := t.readBuffer.i - t.readI
  let t :=
    if t.readI = t.readBuffer.i then
      { t with readBuffer := ⟨Buffer.resized t.readBufferSize t.readBuffer.b, 0⟩, readI := 0 }
    else if available < sz then
      let moved := Buffer.overwrite t.readBuffer.b 0 ((t.readBuffer.b.drop t.readI).take available)
      { t with
        readBuffer := ⟨Buffer.resized (max t.readBufferSize sz) moved, available⟩
        readI := 0 }
    else t
  (t.readI + sz ≤ t.readBuffer.i, { t with readStart := t.readBuffer.i })

/-- The byte at a position of the read buffer. -/
def byteAt (t : WSTransceiver) (k : Nat) : Nat := (t.readBuffer.b.getD k 0).toNat

/-- The bytes of the read buffer from `_readI` on. -/
def buffered (t : WSTransceiver) (k : Nat) : List UInt8 := (t.readBuffer.b.drop t.readI).take k

/-- The two bytes that every frame starts with, once they are there. -/
def readOpcode (t : WSTransceiver) : Except WSException WSTransceiver := do
  let ch := t.byteAt t.readI
  let opCode := ch % 16
  let final := flag ≤ ch
  if opCode = opData && !t.readLastFrame then
    throw (.protocolException "invalid data frame, no FIN on previous frame")
  if opCode = opCont && t.readLastFrame then
    throw (.protocolException "invalid continuation frame, previous frame FIN set")
  let ch := t.byteAt (t.readI + 1)
  let masked : Bool := flag ≤ ch
  if masked ≠ t.incoming then
    throw (.protocolException "invalid masking")
  let length := ch % flag
  let readHeaderLength :=
    (if length < 126 then 0 else if length = 126 then 2 else 8) + (if masked then 4 else 0)
  return { t with
    readI := t.readI + 2
    readOpCode := opCode
    readLastFrame := if opCode = opData || opCode = opCont then final else t.readLastFrame
    readPayloadLength := length
    readHeaderLength
    readState := .header }

/-- The length of the payload, once the rest of the header is there. -/
def readLength (t : WSTransceiver) : Except WSException WSTransceiver :=
  if t.readPayloadLength = 126 then
    .ok { t with readPayloadLength := ofBigEndian (t.buffered 2), readI := t.readI + 2 }
  else if t.readPayloadLength = 127 then
    let l := asLong (ofBigEndian (t.buffered 8))
    if l < 0 ∨ 2147483647 < l then
      .error (.protocolException s!"invalid WebSocket payload length: {l}")
    else .ok { t with readPayloadLength := l.toNat, readI := t.readI + 8 }
  else .ok t

/-- The mask, where the peer masks its frames. -/
def readMaskBytes (t : WSTransceiver) : WSTransceiver :=
  if t.incoming then
    { t with readMask := fun k => (t.buffered 4).getD k 0, readI := t.readI + 4 }
  else t

/-- A frame starts; the result is whether it is worth to go on reading. -/
def startFrame (t : WSTransceiver) (buf : Buffer) : Except WSException (Bool × WSTransceiver) :=
  if t.readOpCode = opText then .error (.protocolException "text frames not supported")
  else if t.readOpCode = opData ∨ t.readOpCode = opCont then
    if t.readPayloadLength = 0 then .error (.protocolException "payload length is 0")
    else .ok (true, { t with readState := .payload, readFrameStart := buf.i })
  else if t.readOpCode = opClose then
    if t.effectiveState = .closingRequestPending then
      let t := { t with closingInitiator := true }
      if t.state = .closingRequestPending then
        .ok (false, { t with state := .closingResponsePending })
      else .ok (false, { t with nextState := .closingResponsePending })
    else .error .connectionLostException
  else if t.readOpCode = opPing ∨ t.readOpCode = opPong then
    .ok (true, { t with readState := .controlFrame })
  else .error (.protocolException s!"unsupported opcode: {t.readOpCode}")

/-- A ping came in: the pong frame is sent now or next. -/
def pinged (t : WSTransceiver) : WSTransceiver :=
  if t.state = .opened then { t with state := .pongPending }
  else if t.nextState.toNat < WSState.pongPending.toNat then { t with nextState := .pongPending }
  else t

/-- The payload of a ping is kept for the pong frame, unless it is empty. -/
def keepPayload (t : WSTransceiver) : WSTransceiver :=
  if 0 < t.readPayloadLength && t.readOpCode = opPing then
    { t with pingPayload := t.buffered t.readPayloadLength }
  else t

/-- A ping or pong frame is complete. -/
def endControlFrame (t : WSTransceiver) : WSTransceiver :=
  let t := t.keepPayload
  let t := { t with readI := t.readI + t.readPayloadLength, readPayloadLength := 0 }
  let t := if t.readOpCode = opPing then t.pinged else t
  { t with readState := .opcode }

/-- Copy what the read buffer holds of the payload; the result is whether to read more. -/
def copyPayload (t : WSTransceiver) (buf : Buffer) : Bool × WSTransceiver × Buffer :=
  let t := { t with readStart := buf.i }
  if buf.b.isEmpty || buf.atEnd then (false, t, buf)
  else
    let n := min (min (t.readBuffer.i - t.readI) (buf.b.length - buf.i)) t.readPayloadLength
    let buf' : Buffer := ⟨Buffer.overwrite buf.b buf.i (t.buffered n), buf.i + n⟩
    (!buf'.atEnd && n < t.readPayloadLength, { t with readI := t.readI + n }, buf')

/-- Read more into the buffer, if something is to be read at all. -/
def readBufferedIf (sz : Nat) (t : WSTransceiver) : Bool × WSTransceiver :=
  if 0 < sz then t.readBuffered sz else (true, t)

/-- The last parts of a pass of `preRead`: the payload of a control frame or of a data frame. -/
def preReadBody (t : WSTransceiver) (buf : Buffer) : Option Bool × WSTransceiver × Buffer :=
  if t.readState = .controlFrame then
    match t.readBufferedIf t.readPayloadLength with
    | (false, t) => (some true, t, buf)
    | (true, t) => (none, t.endControlFrame, buf)
  else
    let (more, t, buf) := t.copyPayload buf
    (some more, t, buf)

/-- A pass of `preRead` from the rest of the header on. -/
def preReadHeader (t : WSTransceiver) (buf : Buffer) :
    Except WSException (Option Bool × WSTransceiver × Buffer) :=
  match t.readBufferedIf t.readHeaderLength with
  | (false, t) => .ok (some true, t, buf)
  | (true, t) => do
    let t ← t.readLength
    let (interested, t) ← t.readMaskBytes.startFrame buf
    if interested then return t.preReadBody buf
    else return (some false, t, buf)

/-- One pass through the loop of `preRead`: it ends with a result, or the loop goes on. -/
def preReadPass (t : WSTransceiver) (buf : Buffer) :
    Except WSException (Option Bool × WSTransceiver × Buffer) :=
  match t.readState with
  | .opcode =>
    match t.readBuffered 2 with
    | (false, t) => .ok (some true, t, buf)
    | (true, t) => do
      let t ← t.readOpcode
      t.preReadHeader buf
  | .header => t.preReadHeader buf
  | .controlFrame => .ok (t.preReadBody buf)
  | .payload => .ok (t.preReadBody buf)

/-- The loop of `preRead`; each round but the last takes a control frame from the buffer. -/
def preReadLoop : Nat → WSTransceiver → Buffer → Except WSException (Bool × WSTransceiver × Buffer)
  | 0, t, buf => .ok (true, t, buf)
  | fuel + 1, t, buf => do
    match ← t.preReadPass buf with
    | (some more, t, buf) => return (more, t, buf)
    | (none, t, buf) => preReadLoop fuel t buf

/-- `WSTransceiver::preRead` -/
def preRead (t : WSTransceiver) (buf : Buffer) :
    Except WSException (Bool × WSTransceiver × Buffer) :=
  preReadLoop (t.readBuffer.i - t.readI + 1) t buf

/-- `WSTransceiver::postRead` -/
def postRead (t : WSTransceiver) (buf : Buffer) : Bool × WSTransceiver × Buffer :=
  if t.readState ≠ .payload then (t.readStart < t.readBuffer.i, t, buf)
  else if t.readStart = buf.i then (false, t, buf)
  else
    let bytes := (buf.b.drop t.readStart).take (buf.i - t.readStart)
    let unmasked := t.readMask.apply (t.readStart - t.readFrameStart) bytes
    let buf' : Buffer :=
      if t.incoming then ⟨Buffer.overwrite buf.b t.readStart unmasked, buf.i⟩ else buf
    let left := t.readPayloadLength - (buf.i - t.readStart)
    (!buf'.atEnd, { t with
      readPayloadLength := left
      readStart := buf.i
      readState := if left = 0 then .opcode else .payload }, buf')

/-- What the transport does in one round: how many of the bytes that the peer sent are there,
and whether it has to write before it can go on. -/
structure Arrival where
  count : Nat
  wantsWrite : Bool
  deriving DecidableEq, Repr

/-- The call of the transport in one round of the loop of `read`: `wire` is what the peer sent
and was not read yet. -/
def receive (t : WSTransceiver) (buf : Buffer) (wire : List UInt8) (more : Bool) (a : Arrival) :
    WSTransceiver × Buffer × List UInt8 :=
  if !more then (t, buf, wire)
  else if t.readState = .payload then
    let bytes := wire.take
      (min a.count (min (buf.b.length - buf.i) (t.readPayloadLength - (buf.i - t.readStart))))
    (t, ⟨Buffer.overwrite buf.b buf.i bytes, buf.i + bytes.length⟩, wire.drop bytes.length)
  else
    let bytes := wire.take (min a.count (t.readBuffer.b.length - t.readBuffer.i))
    ({ t with readBuffer :=
        ⟨Buffer.overwrite t.readBuffer.b t.readBuffer.i bytes, t.readBuffer.i + bytes.length⟩ },
      buf, wire.drop bytes.length)

/-- What a call of `read` comes to, and what of the bytes of the peer is not read yet. -/
structure WSRead where
  wire : List UInt8
  result : Except WSException SocketOperation
  transceiver : WSTransceiver
  buf : Buffer

/-- The end of `read`. -/
def readResult (t : WSTransceiver) (buf : Buffer) : SocketOperation :=
  { read := !buf.atEnd
    write := t.controlDue && t.writeState = .header }

/-- The loop of `read`, with one entry of the script for each round. -/
def readLoop (buf : Buffer) (t : WSTransceiver) (wire : List UInt8) : List Arrival → Option WSRead
  | [] => none
  | a :: script =>
    match t.preRead buf with
    | .error ex => if script.isEmpty then some ⟨wire, .error ex, t, buf⟩ else none
    | .ok (more, t, buf) =>
      let (t, buf, wire) := t.receive buf wire more a
      let (again, t, buf) := t.postRead buf
      if more && a.wantsWrite then
        if script.isEmpty then some ⟨wire, .ok .onWrite, t, buf⟩ else none
      else if again then readLoop buf t wire script
      else if script.isEmpty then some ⟨wire, .ok (t.readResult buf), t, buf⟩
      else none

/-- `WSTransceiver::read` -/
def read (buf : Buffer) (t : WSTransceiver) (wire : List UInt8) (script : List Arrival) :
    Option WSRead :=
  if buf.atEnd then
    if script.isEmpty then some ⟨wire, .ok .none, t, buf⟩ else none
  else readLoop buf t wire script

end WSTransceiver

end Ice.Connection
