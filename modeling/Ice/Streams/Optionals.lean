import Ice.Streams.Values

/-!
# Optional values

The header of an optional value is its tag and its format, by which a reader that does not
know the tag skips the value. `StreamOptionalHelper` chooses the format of a type and adds
the size where the type's own encoding does not begin with one. The calls that skip a
class are a parameter.
-/

namespace Ice.Streams

open Lib

/-- `OptionalFormat` -/
inductive OptionalFormat
  | f1 | f2 | f4 | f8 | size | vSize | fSize | ofClass
  deriving DecidableEq, Repr

namespace OptionalFormat

def toNat : OptionalFormat → Nat
  | .f1 => 0
  | .f2 => 1
  | .f4 => 2
  | .f8 => 3
  | .size => 4
  | .vSize => 5
  | .fSize => 6
  | .ofClass => 7

/-- The format of the lowest three bits. -/
def ofByte (v : Byte) : OptionalFormat :=
  match v.toNat % 8 with
  | 0 => .f1
  | 1 => .f2
  | 2 => .f4
  | 3 => .f8
  | 4 => .size
  | 5 => .vSize
  | 6 => .fSize
  | _ => .ofClass

end OptionalFormat

def OPTIONAL_END_MARKER : Byte := 0xFF

variable {ε δ R S : Type}

/-- `writeOptImpl` with the encoding 1.1 -/
def writeOptImpl (tag : Nat) (format : OptionalFormat) : Write ε Unit :=
  if tag < 30 then append [UInt8.ofNat (format.toNat + 8 * tag)]
  else do
    append [UInt8.ofNat (format.toNat + 8 * 30)]
    writeSize tag

/-- `skipOptional`; `skipClass` is `read(0, 0)`. -/
def skipOptional (skipClass : Read δ Unit) : OptionalFormat → Read δ Unit
  | .f1 => skip 1
  | .f2 => skip 2
  | .f4 => skip 4
  | .f8 => skip 8
  | .size => skipSize
  | .vSize => do
    let sz ← readSize
    skip sz
  | .fSize => do
    let sz ← readInt
    if sz < 0 then throwException .unmarshalOutOfBounds
    skip sz.toNat
  | .ofClass => skipClass

/-- The position goes back. -/
def goBack (n : Nat) : Read δ Unit := fun s =>
  if s.i < n then .error (.fault .outside) s else .ok () { s with i := s.i - n }

/-- `rewind` -/
def rewind (n : Nat) : Read δ Unit := do
  let s ← get
  watch (s.i < n) .rewound
  goBack n

theorem rewind_eq (n : Nat) (s : InputStream δ) : rewind n s =
    if s.i < n then .error (.fault .outside) (s.addNote .rewound)
    else .ok () { s with i := s.i - n } := by
  change (watch (s.i < n) .rewound >>= fun _ => goBack n) s = _
  split
  next h =>
    rw [bind_of_ok (watch_of h)]
    exact if_pos h
  next h =>
    rw [bind_of_ok (watch_of_not h)]
    exact if_neg h

/-- The position is at the end of the encapsulation. -/
def InputStream.atEnd (s : InputStream δ) : Bool := s.encaps.start + s.encaps.sz ≤ s.i

/-- The tag that a header begins with. -/
def readTag (v : Byte) : Read δ Nat :=
  if v.toNat / 8 = 30 then readSize else return v.toNat / 8

/-- The loop of `readOptImpl`; each turn reads a byte. -/
def readOptLoop (skipClass : Read δ Unit) (tag : Nat) (expectedFormat : OptionalFormat) :
    Nat → Read δ Bool
  | 0 => throw .unfinished
  | n + 1 => do
    let s ← get
    if s.atEnd then return false
    else
      let v ← readByte
      if v = OPTIONAL_END_MARKER then
        rewind 1
        return false
      else
        let found ← readTag v
        if tag < found then
          rewind (if found < 30 then 1 else if found < 255 then 2 else 6)
          return false
        else if found < tag then
          skipOptional skipClass (.ofByte v)
          readOptLoop skipClass tag expectedFormat n
        else if OptionalFormat.ofByte v ≠ expectedFormat then
          throwException (.marshal
            ("invalid optional data member `" ++ toString found ++ "': unexpected format"))
        else return true

/-- `readOptImpl` with the encoding 1.1 -/
def readOptImpl (skipClass : Read δ Unit) (tag : Nat) (expectedFormat : OptionalFormat) :
    Read δ Bool := do
  let s ← get
  readOptLoop skipClass tag expectedFormat (s.left + 1)

/-- The loop of `skipOptionals`; each turn reads a byte. -/
def skipOptionalsLoop (skipClass : Read δ Unit) : Nat → Read δ Unit
  | 0 => throw .unfinished
  | n + 1 => do
    let s ← get
    if s.atEnd then return ()
    else
      let v ← readByte
      if v = OPTIONAL_END_MARKER then return ()
      else
        if v.toNat / 8 = 30 then skipSize
        skipOptional skipClass (.ofByte v)
        skipOptionalsLoop skipClass n

/-- `skipOptionals` -/
def skipOptionals (skipClass : Read δ Unit) : Read δ Unit := do
  let s ← get
  skipOptionalsLoop skipClass (s.left + 1)

/-- `endEncapsulation` with the encoding 1.1 -/
def endEncapsulation (skipClass : Read δ Unit) : Read δ Unit := do
  skipOptionals skipClass
  let s ← get
  if s.i ≠ s.encaps.start + s.encaps.sz then throwException .encapsulation

def KeyType.minWireSize : KeyType → Nat
  | .scalar w => w.bytes
  | .string => 1
  | .struct t u => t.minWireSize + u.minWireSize

def KeyType.fixedLength : KeyType → Bool
  | .scalar _ => true
  | .string => false
  | .struct t u => t.fixedLength && u.fixedLength

/-- `StreamOptionalContainerHelper::optionalFormat` -/
def containerFormat (fixedLength : Bool) : OptionalFormat := if fixedLength then .vSize else .fSize

/-- `StreamOptionalHelper::optionalFormat` -/
def WireType.optionalFormat : WireType → OptionalFormat
  | .scalar .one => .f1
  | .scalar .two => .f2
  | .scalar .four => .f4
  | .scalar .eight => .f8
  | .string => .vSize
  | .value => .ofClass
  | .struct t u => containerFormat (t.fixedLength && u.fixedLength)
  | .sequence t => containerFormat t.fixedLength
  | .dictionary k t => containerFormat (k.fixedLength && t.fixedLength)

/-- What is written between `startSize` and `endSize`. -/
def writeSized (w : Write ε Unit) : Write ε Unit := do
  let position ← startSize
  w
  endSize position

/-- `StreamOptionalContainerHelper::write`; `sz` is the size of an element. -/
def writeContainer (fixedLength : Bool) (sz n : Nat) (w : Write ε Unit) : Write ε Unit :=
  if fixedLength then
    if sz = 1 then w
    else do
      writeSize (sz * n + if n < 255 then 1 else 5)
      w
  else writeSized w

/-- `StreamOptionalContainerHelper::read` -/
def readContainer {α : Type} (fixedLength : Bool) (sz : Nat) (r : Read δ α) : Read δ α :=
  if fixedLength then
    if sz = 1 then r
    else do
      skipSize
      r
  else do
    skip 4
    r

namespace WireType

/-- `StreamOptionalHelper::write` -/
def writeOptionalValue (wr : R → Write ε Unit) : (t : WireType) → t.Data R → Write ε Unit
  | .struct t u, x =>
    if t.fixedLength && u.fixedLength then do
      writeSize (struct t u).minWireSize
      (struct t u).write wr x
    else writeSized ((struct t u).write wr x)
  | .sequence t, x =>
    writeContainer t.fixedLength t.minWireSize (List.length x) ((sequence t).write wr x)
  | .dictionary k t, x =>
    writeContainer (k.fixedLength && t.fixedLength) (k.minWireSize + t.minWireSize)
      x.entries.length ((dictionary k t).write wr x)
  | t, x => t.write wr x

/-- `StreamOptionalHelper::read` -/
def readOptionalValue (rd : Read δ S) : (t : WireType) → Read δ (t.Data S)
  | .struct t u =>
    if t.fixedLength && u.fixedLength then do
      skipSize
      (struct t u).read rd
    else do
      skip 4
      (struct t u).read rd
  | .sequence t => readContainer t.fixedLength t.minWireSize ((sequence t).read rd)
  | .dictionary k t =>
    readContainer (k.fixedLength && t.fixedLength) (k.minWireSize + t.minWireSize)
      ((dictionary k t).read rd)
  | t => t.read rd

end WireType

end Ice.Streams
