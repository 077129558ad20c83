import Mathlib.Data.Vector.Basic
import Ice.Lib.Exceptional

/-!
# Input streams

The primitives of `Ice::InputStream`, in the order of its header and source: sizes, blobs,
strings and the check of sequence sizes. The decoder that hangs off the current
encapsulation is a parameter. Positions are counted from the beginning of the buffer;
what C++ computes with `int` is computed modulo `2 ^ 32`.
-/

namespace Ice.Streams

abbrev Byte := UInt8

/-- The exceptions that decoding throws. -/
inductive IceException
  | unmarshalOutOfBounds
  | marshal (reason : String)
  | encapsulation
  | noValueFactory (reason : String) (typeId : List Byte)
  | unknownUser (typeId : List Byte)
  | unsupportedEncoding (major minor : Byte)
  | proxyUnmarshal
  deriving DecidableEq, Repr

/-- What a program must not do. -/
inductive Fault
  /-- An assertion fails. -/
  | assertion (condition : String)
  /-- A pointer that is null is used. -/
  | nullPointer
  /-- The bytes of a range are copied whose end comes before its start. -/
  | invertedRange
  /-- The position leaves the buffer. -/
  | outside
  deriving DecidableEq, Repr

/-- How decoding ends other than with a value. -/
inductive Failure
  | exception (e : IceException)
  | fault (f : Fault)
  /-- More calls are nested than were allowed for. -/
  | unfinished
  deriving DecidableEq, Repr

/-- A 32-bit signed integer. -/
def toInt (x : Int) : Int := x.bmod (2 ^ 32)

theorem toInt_of_lt {x : Int} (h₀ : -2 ^ 31 ≤ x) (h : x < 2 ^ 31) : toInt x = x := by
  unfold toInt
  apply Int.bmod_eq_of_le <;> omega

theorem toInt_range (x : Int) : -2 ^ 31 ≤ toInt x ∧ toInt x < 2 ^ 31 := by
  unfold toInt
  have hpos : 0 < 2 ^ 32 := by decide
  have hlow := Int.le_bmod (x := x) hpos
  have hhigh := Int.bmod_lt (x := x) hpos
  omega

attribute [irreducible] toInt

/-- The encapsulation that is being read. -/
structure Encaps where
  start : Nat
  sz : Nat
  deriving DecidableEq, Repr

/-- Requests that are noted before they are carried out. -/
inductive Note
  /-- To copy a sequence of scalars that is longer than the buffer. -/
  | overlong
  /-- To read the members of an instance without a communicator to ask whether cycles are
  accepted. -/
  | noCommunicator
  /-- To read the instance of an entry of an indirection table that is 0. -/
  | zeroIndex
  /-- To refer to an identifier whose negation is no positive `int`. -/
  | leastId
  /-- To preserve a skipped slice with optional members that has no byte for their end. -/
  | emptyOptionals
  /-- To go back to before the buffer. -/
  | rewound
  /-- To read the indirection table of a skipped slice of an instance. -/
  | skippedTable
  /-- To patch an address with an instance that comes later. -/
  | late (index : Int) (address : Nat)
  deriving DecidableEq, Repr

/-- The stream. `notes` is no field of the source: it lists the requests that the results
on hostile input and on the graph of instances speak of. -/
structure InputStream (δ : Type) where
  b : List Byte
  i : Nat
  startSeq : Int
  minSeqSize : Int
  encaps : Encaps
  decoder : δ
  notes : List Note

/-- A read from a stream with a decoder. -/
abbrev Read (δ α : Type) := EStateM Failure (InputStream δ) α

variable {δ α β : Type}

namespace InputStream

/-- A new stream on a buffer, with an encapsulation that is as long as the buffer. -/
def ofBytes (b : List Byte) (decoder : δ) : InputStream δ where
  b := b
  i := 0
  startSeq := -1
  minSeqSize := 0
  encaps := ⟨0, b.length⟩
  decoder := decoder
  notes := []

/-- The bytes that are left. -/
def rest (s : InputStream δ) : List Byte := s.b.drop s.i

/-- The position goes on. -/
def advance (n : Nat) (s : InputStream δ) : InputStream δ := { s with i := s.i + n }

/-- A request is noted. -/
def addNote (n : Note) (s : InputStream δ) : InputStream δ := { s with notes := s.notes ++ [n] }

/-- `b.end() - i` -/
def left (s : InputStream δ) : Nat := s.b.length - s.i

end InputStream

/-- A request is noted if it meets a condition, which is tested before it is carried out. -/
def watch (p : Prop) [Decidable p] (n : Note) : Read δ Unit :=
  modify fun s => if p then s.addNote n else s

theorem watch_of {p : Prop} [Decidable p] {n : Note} {s : InputStream δ} (h : p) :
    watch p n s = .ok () (s.addNote n) := by
  change EStateM.Result.ok () (if p then s.addNote n else s) = _
  rw [if_pos h]

theorem watch_of_not {p : Prop} [Decidable p] {n : Note} {s : InputStream δ} (h : ¬p) :
    watch p n s = .ok () s := by
  change EStateM.Result.ok () (if p then s.addNote n else s) = _
  rw [if_neg h]

def throwException {σ : Type} (e : IceException) : EStateM Failure σ α := throw (.exception e)

def throwFault {σ : Type} (f : Fault) : EStateM Failure σ α := throw (.fault f)

/-- `assert(p)`; `condition` is its text. -/
def assert {σ : Type} (p : Prop) [Decidable p] (condition : String) : EStateM Failure σ Unit :=
  if p then pure () else throwFault (.assertion condition)

/-- `n` bytes, when there are so many. -/
def readBytes (n : Nat) : Read δ (List Byte) := fun s =>
  if s.left < n then .error (.exception .unmarshalOutOfBounds) s
  else .ok (s.rest.take n) (s.advance n)

/-- `read(Byte&)` -/
def readByte : Read δ Byte := fun s =>
  match s.rest with
  | [] => .error (.exception .unmarshalOutOfBounds) s
  | x :: _ => .ok x (s.advance 1)

/-- The number that bytes stand for, the lowest first. -/
def leNat : List Byte → Nat
  | [] => 0
  | x :: xs => x.toNat + 256 * leNat xs

/-- `read(Int&)` -/
def readInt : Read δ Int := do
  let bytes ← readBytes 4
  return toInt (leNat bytes)

/-- `readSize` -/
def readSize : Read δ Nat := do
  let byte ← readByte
  if byte = 255 then
    let v ← readInt
    if v < 0 then throwException .unmarshalOutOfBounds else return v.toNat
  else return byte.toNat

/-- `skip` -/
def skip (n : Nat) : Read δ Unit := fun s =>
  if s.left < n then .error (.exception .unmarshalOutOfBounds) s else .ok () (s.advance n)

/-- `skipSize` -/
def skipSize : Read δ Unit := do
  let byte ← readByte
  if byte = 255 then skip 4

/-- `read(string&, bool)` -/
def readString : Read δ (List Byte) := do
  let sz ← readSize
  readBytes sz

/-- A scalar as the bytes it has in memory. -/
abbrev Scalar (n : Nat) := List.Vector Byte n

/-- A scalar whose first bytes are given. -/
def Scalar.ofBytes (n : Nat) (bytes : List Byte) : Scalar n :=
  ⟨(bytes ++ List.replicate n 0).take n, by simp⟩

/-- `read` for a scalar of `n` bytes -/
def readScalar (n : Nat) : Read δ (Scalar n) := do
  let bytes ← readBytes n
  return .ofBytes n bytes

namespace InputStream

/-- The part of `readAndCheckSeqSize` that bounds the bytes which sequences still need. -/
def checkSeqSize (sz minSize : Nat) (s : InputStream δ) : InputStream δ :=
  if s.startSeq = -1 ∨ s.startSeq + s.minSeqSize < s.i then
    { s with startSeq := toInt s.i, minSeqSize := toInt (sz * minSize) }
  else { s with minSeqSize := toInt (s.minSeqSize + toInt (sz * minSize)) }

end InputStream

/-- `readAndCheckSeqSize` -/
def readAndCheckSeqSize (minSize : Nat) : Read δ Nat := do
  let sz ← readSize
  if sz = 0 then return 0
  modify (InputStream.checkSeqSize sz minSize)
  let s ← get
  if toInt s.b.length < toInt (s.startSeq + s.minSeqSize) then
    throwException .unmarshalOutOfBounds
  return sz

/-- The scalars that bytes hold one after the other. -/
def scalars (n : Nat) : Nat → List Byte → List (Scalar n)
  | 0, _ => []
  | sz + 1, bytes => .ofBytes n bytes :: scalars n sz (bytes.drop n)

/-- With the product in `int`, the range of so many scalars is inverted or leaves the buffer. -/
def InputStream.Overlong (n sz : Nat) (s : InputStream δ) : Prop :=
  toInt (sz * n) < 0 ∨ s.left < toInt (sz * n)

instance (n sz : Nat) (s : InputStream δ) : Decidable (s.Overlong n sz) :=
  inferInstanceAs (Decidable (_ ∨ _))

/-- `copy(i, i + sz * n, …)`, with the product in `int`. -/
def copyRange (n sz : Nat) : Read δ (List (Scalar n)) := fun s =>
  let length := toInt (sz * n)
  if length < 0 then .error (.fault .invertedRange) s
  else if s.left < length then .error (.fault .outside) s
  else .ok (scalars n sz (s.rest.take length.toNat)) (s.advance length.toNat)

/-- The copying of scalars -/
def copyScalars (n sz : Nat) : Read δ (List (Scalar n)) := do
  let s ← get
  watch (s.Overlong n sz) .overlong
  copyRange n sz

theorem copyScalars_eq (n sz : Nat) (s : InputStream δ) : copyScalars n sz s =
    (watch (s.Overlong n sz) .overlong >>= fun _ =>
      copyRange n sz : Read δ (List (Scalar n))) s := by
  have hget : (get : Read δ (InputStream δ)) s = .ok s s := rfl
  unfold copyScalars
  exact Lib.bind_of_ok hget _

/-- `read(vector<Byte>&)`, `read(vector<Short>&)` and so on: the elements are copied
without another check. -/
def readScalars (n : Nat) : Read δ (List (Scalar n)) := do
  let sz ← readAndCheckSeqSize n
  copyScalars n sz

end Ice.Streams
