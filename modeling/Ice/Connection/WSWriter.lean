import Ice.Connection.WSFrame
import Ice.Lib.Transition

/-!
# The writing side of a WebSocket connection

One party writes its messages one after the other. A call of `write` that comes back with
anything but `SocketOperationNone` is made again for the same message, and between two calls
there may be calls of `read`, in which ping, pong and close frames come in, and of `closing`.
-/

namespace Ice.Connection

open Ice.Lib
open WSTransceiver (Acceptance Arrival Written frameHeader)

/-- A party of an opened connection: the message that `write` is called for, what the transport
took, the buffers for which `write` returned `SocketOperationNone`, and whether the connection
is lost. -/
structure Writer where
  transceiver : WSTransceiver
  current : Option Buffer := none
  wire : List UInt8 := []
  written : List Buffer := []
  lost : Bool := false

/-- What happens to a party. -/
inductive WriterEvent
  /-- `write` is called for the next message. -/
  | start (message : List UInt8) (script : List Acceptance)
  /-- `write` is called again for the current message. -/
  | resume (script : List Acceptance)
  /-- `write` is called with an empty buffer. -/
  | flush (script : List Acceptance)
  /-- `read` is called, with these bytes of the peer to come. -/
  | read (buf : Buffer) (wire : List UInt8) (script : List Arrival)
  | closing (initiator : Bool) (reason : ClosingReason)

namespace Writer

/-- A party whose connection was just opened. -/
def opened (incoming : Bool) (random : Nat → Mask) (consumed leftover spare upgrade : List UInt8)
    (writePayloadLength : Nat) : Writer :=
  { transceiver :=
      .opened incoming random consumed leftover spare upgrade writePayloadLength }

/-- The buffer of the current message; it is empty if there is none. -/
def buffer (w : Writer) : Buffer := w.current.getD {}

/-- A call of `write` came to an end. -/
def wrote (w : Writer) (r : Written) : Writer :=
  let message := if r.buf.b.isEmpty then none else some r.buf
  match r.result with
  | .error _ =>
    { w with
      transceiver := r.transceiver
      current := message
      wire := w.wire ++ r.bytes
      lost := true }
  | .ok op =>
    { w with
      transceiver := r.transceiver
      current := if op = .none then none else message
      wire := w.wire ++ r.bytes
      written := if op = .none then w.written ++ message.toList else w.written }

/-- What may happen to a connection that is not lost. -/
def step (w : Writer) (e : WriterEvent) : Option Writer :=
  if w.lost then none
  else
    match e, w.current with
    | .start message script, none =>
      if message.isEmpty then none
      else (w.transceiver.write ⟨message, 0⟩ script).map w.wrote
    | .resume script, some buf => (w.transceiver.write buf script).map w.wrote
    | .flush script, none => (w.transceiver.write {} script).map w.wrote
    | .read buf wire script, _ =>
      (w.transceiver.read buf wire script).map fun r =>
        { w with transceiver := r.transceiver, lost := !r.result.isOk }
    | .closing initiator reason, _ =>
      some { w with transceiver := (w.transceiver.closing initiator reason).2 }
    | _, _ => none

/-- The buffer and the script of a call of `write`. -/
def call (w : Writer) : WriterEvent → Option (Buffer × List Acceptance)
  | .start message script => some (⟨message, 0⟩, script)
  | .resume script | .flush script => some (w.buffer, script)
  | _ => none

/-- The bytes of the wire are those of some frames but for `rest`, which is a part of the last
of them. Each buffer for which `write` returned `SocketOperationNone` is at its end, and the
messages of the frames are those of these buffers. A data frame that is not all on the wire, or
for which `write` did not return yet, is that of the current message. -/
def Delivered (w : Writer) : Prop :=
  (∀ buf ∈ w.written, buf.atEnd) ∧
    ∃ frames rest masked, masked = !w.transceiver.incoming ∧
      w.wire ++ rest = wireOf masked frames ∧
      (rest = [] ∨ ∃ f ∈ frames.getLast?, rest <:+ f.bytes masked) ∧
      ((messages masked frames = w.written.map (·.b) ∧
          (rest = [] ∨ ∃ f ∈ frames.getLast?, f.opCode ≠ opData)) ∨
        ∃ buf ∈ w.current, messages masked frames = w.written.map (·.b) ++ [buf.b])

end Writer

namespace WSTransceiver

/-- How many bytes of the message are on the wire once the write buffer is. -/
def copied (t : WSTransceiver) (buf : Buffer) : Nat :=
  if t.incoming then buf.i
  else if t.writeBuffer.atEnd then
    t.writePayloadLength +
      min t.writeBuffer.b.length (buf.b.length - t.writePayloadLength)
  else t.writePayloadLength

/-- The number of bytes of the control frame that is to be sent. -/
def controlLength (t : WSTransceiver) : Nat :=
  let payload :=
    if t.state = .pingPending then 0
    else if t.state = .pongPending then t.pingPayload.length
    else 2
  (frameHeader t.incoming 0 payload t.writeMask).length + payload

/-- The state once the control frame that is sent or to be sent is on the wire lets nothing of
the message follow. -/
def blocked (t : WSTransceiver) : Bool :=
  !t.closeDue && t.nextState ≠ .opened && !t.waits t.nextState

/-- With so many bytes taken in the first round, `write` gives up in the middle of a message:
what the transport is offered first ends before the message does, and after it the transceiver
is not in `StateOpened`. -/
def givesUp (t : WSTransceiver) (buf : Buffer) (taken : Nat) : Bool :=
  !buf.b.isEmpty &&
    match t.writeState with
    | .payload =>
      t.state ≠ .opened && !t.waits t.state && t.copied buf < buf.b.length &&
        !(t.incoming && t.writeBuffer.atEnd) &&
        (if t.writeBuffer.atEnd then
            min t.writeBuffer.b.length (buf.b.length - t.writePayloadLength)
          else t.writeBuffer.rest.length) ≤ taken
    | .controlFrame => !buf.atEnd && t.blocked && t.writeBuffer.rest.length ≤ taken
    | .header =>
      !buf.atEnd && t.state ≠ .opened &&
        (if t.controlDue then t.blocked && t.controlLength ≤ taken else !t.waits t.state)

end WSTransceiver

/-- No call of `write` gives up. -/
def Persevering (w : Writer) (e : WriterEvent) : Prop :=
  ∀ buf a script, w.call e = some (buf, a :: script) → ¬ w.transceiver.givesUp buf a.taken

end Ice.Connection
