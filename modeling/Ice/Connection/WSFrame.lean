import Ice.Connection.WSTransceiver

/-!
# WebSocket frames

What the bytes on the wire stand for. A frame keeps its payload as it is on the wire, so that
a frame whose payload was not masked although it says so is a frame, too.
-/

namespace Ice.Connection

/-- A frame, with the payload as it is on the wire. -/
structure Frame where
  opCode : Nat
  final : Bool
  mask : Mask
  payload : List UInt8

namespace Frame

/-- The bytes before the payload. -/
def header (masked : Bool) (f : Frame) : List UInt8 :=
  UInt8.ofNat (f.opCode + if f.final then flag else 0) ::
    (WSTransceiver.lengthBytes masked f.payload.length ++
    if masked then [f.mask 0, f.mask 1, f.mask 2, f.mask 3] else [])

def bytes (masked : Bool) (f : Frame) : List UInt8 := f.header masked ++ f.payload

/-- What the payload says. -/
def data (masked : Bool) (f : Frame) : List UInt8 :=
  if masked then f.mask.apply 0 f.payload else f.payload

/-- The frame that carries a whole message. -/
def message (masked : Bool) (mask : Mask) (b : List UInt8) : Frame :=
  ⟨opData, true, mask, if masked then mask.apply 0 b else b⟩

end Frame

/-- The messages of some data frames, each of them in one frame. -/
def messages (masked : Bool) (frames : List Frame) : List (List UInt8) :=
  (frames.filter (·.opCode = opData)).map (·.data masked)

/-- The bytes of some frames. -/
def wireOf (masked : Bool) (frames : List Frame) : List UInt8 :=
  frames.flatMap (·.bytes masked)

namespace Mask

variable (mask : Mask)

@[simp] theorem length_apply (n : Nat) (bytes : List UInt8) :
    (mask.apply n bytes).length = bytes.length := by
  simp [apply]

/-- The part of a payload behind another is masked from where that one ends. -/
theorem apply_append (n : Nat) (l r : List UInt8) :
    mask.apply n (l ++ r) = mask.apply n l ++ mask.apply (n + l.length) r := by
  simp [apply, List.mapIdx_append, Nat.add_assoc, Nat.add_comm l.length]

/-- Masking twice gives the payload back. -/
theorem apply_apply (n : Nat) (bytes : List UInt8) :
    mask.apply n (mask.apply n bytes) = bytes := by
  apply List.ext_getElem
  · simp
  · intro k _ _
    simp [apply]

end Mask

variable (masked : Bool)

@[simp] theorem wireOf_append (l r : List Frame) :
    wireOf masked (l ++ r) = wireOf masked l ++ wireOf masked r := by
  simp [wireOf]

@[simp] theorem wireOf_singleton (f : Frame) : wireOf masked [f] = f.bytes masked := by
  simp [wireOf]

@[simp] theorem messages_append (l r : List Frame) :
    messages masked (l ++ r) = messages masked l ++ messages masked r := by
  simp [messages]

theorem messages_message (mask : Mask) (b : List UInt8) :
    messages masked [.message masked mask b] = [b] := by
  simp [messages, Frame.message, Frame.data]
  cases masked
  · rfl
  · simp [Mask.apply_apply]

theorem messages_control {f : Frame} (h : f.opCode ≠ opData) :
    messages masked [f] = [] := by
  simp [messages, h]

namespace Buffer

@[simp] theorem length_resized (n : Nat) (b : List UInt8) : (resized n b).length = n := by
  simp [resized]
  omega

variable {b bytes : List UInt8}

theorem length_overwrite {pos : Nat} (h : pos + bytes.length ≤ b.length) :
    (overwrite b pos bytes).length = b.length := by
  simp [overwrite]
  omega

/-- The bytes up to the end of those copied in. -/
theorem take_overwrite {pos : Nat} (h : pos ≤ b.length) :
    (overwrite b pos bytes).take (pos + bytes.length) = b.take pos ++ bytes := by
  have hlength : (b.take pos ++ bytes).length = pos + bytes.length := by
    simp [Nat.min_eq_left h]
  rw [overwrite, ← hlength, List.take_left]

theorem rest_eq_nil {buf : Buffer} (h : buf.i ≤ buf.b.length) : buf.rest = [] ↔ buf.atEnd := by
  simp [rest, atEnd]
  omega

end Buffer

end Ice.Connection
