import Ice.Streams.Encoder
import Ice.Streams.Decoder11

/-!
# The encoder of the encoding 1.1

`EncapsEncoder11`, function by function. `writeInstance` is given how many calls of it may be
nested; it calls itself through the references of an instance.
-/

namespace Ice.Streams

/-- `FormatType` -/
inductive FormatType
  | compact | sliced
  deriving DecidableEq, Repr

namespace Encoder11

/-- `InstanceData` -/
structure InstanceData (ν : Type) where
  sliceType : SliceType
  firstSlice : Bool
  sliceFlags : Byte
  /-- The position of the data members. -/
  writeSlice : Nat
  /-- The position of the flags. -/
  sliceFlagsPos : Nat
  indirectionMap : ν → Option Nat
  indirectionTable : List (Option ν)

end Encoder11

/-- What `EncapsEncoder11` adds: the stack that `_current` is the top of. -/
structure Encoder11 (ν : Type) where
  current : List (Encoder11.InstanceData ν)
  valueIdIndex : Nat

abbrev Write11 (ν α : Type) := Write (EncapsEncoder ν (Encoder11 ν)) α

namespace Encoder11

variable {ν : Type} [DecidableEq ν]

def start : EncapsEncoder ν (Encoder11 ν) := .start ⟨[], 1⟩

/-- `*_current` -/
def theCurrent : Write11 ν (InstanceData ν) := do
  let e ← getEncoder
  match e.derived.current with
  | [] => throwFault .nullPointer
  | f :: _ => return f

def modifyCurrent (h : InstanceData ν → InstanceData ν) : Write11 ν Unit := do
  let e ← getEncoder
  match e.derived.current with
  | [] => throwFault .nullPointer
  | f :: fs => modifyEncoder fun e => { e with derived := { e.derived with current := h f :: fs } }

/-- The type id in the header of a slice, with its flag. -/
def writeSliceTypeId (typeId : List Byte) (compactId : Int) : Write11 ν Unit :=
  if 0 ≤ compactId then do
    modifyCurrent fun f => { f with sliceFlags := f.sliceFlags ||| FLAG_HAS_TYPE_ID_COMPACT }
    writeSize compactId.toNat
  else do
    let index ← registerTypeId typeId
    match index with
    | none =>
      modifyCurrent fun f => { f with sliceFlags := f.sliceFlags ||| FLAG_HAS_TYPE_ID_STRING }
      writeString typeId
    | some index =>
      modifyCurrent fun f => { f with sliceFlags := f.sliceFlags ||| FLAG_HAS_TYPE_ID_INDEX }
      writeSize index

section

variable (format : FormatType)

/-- `startSlice` -/
def startSlice (typeId : List Byte) (compactId : Int) (last : Bool) : Write11 ν Unit := do
  let f ← theCurrent
  assert (f.indirectionTable = []) "_current->indirectionTable.empty()"
  let s ← get
  modifyCurrent fun f => { f with
    sliceFlagsPos := s.b.length
    sliceFlags := (if format = .sliced then FLAG_HAS_SLICE_SIZE else 0) |||
      (if last then FLAG_IS_LAST_SLICE else 0) }
  append [0]
  if f.sliceType = .valueSlice then
    if format = .sliced ∨ f.firstSlice = true then writeSliceTypeId typeId compactId
  else writeString typeId
  if format = .sliced then writeInt 0
  let s ← get
  modifyCurrent fun f => { f with writeSlice := s.b.length, firstSlice := false }

variable (writeInstance : ν → Write11 ν Unit)

/-- An entry of the indirection table. -/
def writeTableEntry : Option ν → Write11 ν Unit
  | none => throwFault (.assertion "v")
  | some v => writeInstance v

/-- The indirection table at the end of a slice. -/
def writeTable : Write11 ν Unit := do
  let f ← theCurrent
  if f.indirectionTable ≠ [] then
    assert (format = .sliced) "_encaps->format == FormatType::SlicedFormat"
    modifyCurrent fun f => { f with sliceFlags := f.sliceFlags ||| FLAG_HAS_INDIRECTION_TABLE }
    writeSize f.indirectionTable.length
    f.indirectionTable.forM (writeTableEntry writeInstance)
    modifyCurrent fun f => { f with indirectionTable := [], indirectionMap := fun _ => none }

/-- The end marker of the optional members. -/
def writeEndMarker : Write11 ν Unit := do
  let f ← theCurrent
  if hasFlag f.sliceFlags FLAG_HAS_OPTIONAL_MEMBERS then append [OPTIONAL_END_MARKER]

/-- The size of a slice, where `startSlice` has left room for it. -/
def rewriteSliceSize : Write11 ν Unit := do
  let f ← theCurrent
  if hasFlag f.sliceFlags FLAG_HAS_SLICE_SIZE then
    let s ← get
    rewrite (toInt (s.b.length - f.writeSlice + 4 : Nat)) (f.writeSlice - 4)

/-- `endSlice` -/
def endSlice : Write11 ν Unit := do
  writeEndMarker
  rewriteSliceSize
  writeTable format writeInstance
  let f ← theCurrent
  rewriteByte f.sliceFlags f.sliceFlagsPos

/-- `writeOptional` -/
def writeOptional (tag : Nat) (optionalFormat : OptionalFormat) : Write11 ν Bool := do
  writeOptImpl tag optionalFormat
  let e ← getEncoder
  if e.derived.current ≠ [] then
    modifyCurrent fun f => { f with sliceFlags := f.sliceFlags ||| FLAG_HAS_OPTIONAL_MEMBERS }
  return true

/-- A reference in a slice of the sliced format, by the indirection table. -/
def writeIndirect (v : ν) : Write11 ν Unit := do
  let f ← theCurrent
  match f.indirectionMap v with
  | some idx => writeSize idx
  | none =>
    let idx := f.indirectionTable.length + 1
    modifyCurrent fun f => { f with
      indirectionTable := f.indirectionTable ++ [some v]
      indirectionMap := fun u => if u = v then some idx else f.indirectionMap u }
    writeSize idx

/-- `write(const ValuePtr&)` -/
def write (v : Option ν) : Write11 ν Unit := do
  match v with
  | none => writeSize 0
  | some v =>
    let e ← getEncoder
    if e.derived.current ≠ [] ∧ format = .sliced then writeIndirect v else writeInstance v

/-- `writeSlicedData`, for each slice -/
def writePreservedSlice (p : SliceInfo (Option ν)) : Write11 ν Unit := do
  startSlice format p.typeId p.compactId p.isLastSlice
  append p.bytes
  if p.hasOptionalMembers then
    modifyCurrent fun f => { f with sliceFlags := f.sliceFlags ||| FLAG_HAS_OPTIONAL_MEMBERS }
  modifyCurrent fun f => { f with indirectionTable := p.instances }
  endSlice format writeInstance

/-- `writeSlicedData` -/
def writeSlicedData (slicedData : List (SliceInfo (Option ν))) : Write11 ν Unit :=
  if format = .sliced then slicedData.forM (writePreservedSlice format writeInstance)
  else return ()

/-- `startInstance` -/
def startInstance (sliceType : SliceType) (slicedData : List (SliceInfo (Option ν))) :
    Write11 ν Unit := do
  modifyEncoder fun e => { e with derived := { e.derived with
    current := ⟨sliceType, true, 0, 0, 0, fun _ => none, []⟩ :: e.derived.current } }
  writeSlicedData format writeInstance slicedData

/-- `endInstance` -/
def endInstance : Write11 ν Unit :=
  modifyEncoder fun e => { e with derived := { e.derived with current := e.derived.current.tail } }

/-- A slice of `_iceWriteImpl`. -/
def writeSlice (slice : Slice (Option ν)) (last : Bool) : Write11 ν Unit := do
  startSlice format slice.type.typeId slice.type.compactId last
  writeMembers (write format writeInstance) slice.type.members slice.data.1
  writeOptionals writeOptional (write format writeInstance) slice.type.optionals slice.data.2
  endSlice format writeInstance

/-- `_iceWriteImpl` of a class and of its base classes -/
def writeSlices : List (Slice (Option ν)) → Write11 ν Unit
  | [] => return ()
  | slice :: slices => do
    writeSlice format writeInstance slice slices.isEmpty
    writeSlices slices

/-- `_iceWrite` -/
def iceWrite (o : Object (Option ν)) : Write11 ν Unit := do
  startInstance format writeInstance .valueSlice o.slicedData
  writeSlices format writeInstance o.slices
  endInstance

/-- `writeInstance`, with the function for the nested calls. -/
def writeInstanceWith (graph : Graph ν) (v : ν) : Write11 ν Unit := do
  let e ← getEncoder
  match e.marshaledMap v with
  | some index => writeSize index
  | none =>
    modifyEncoder fun e => { e with
      marshaledMap := fun u =>
        if u = v then some (e.derived.valueIdIndex + 1) else e.marshaledMap u
      derived := { e.derived with valueIdIndex := e.derived.valueIdIndex + 1 } }
    writeSize 1
    iceWrite format writeInstance (graph v)

end

/-- `writeInstance`, with the number of calls of it that may be active at the same time. -/
def writeInstance (format : FormatType) (graph : Graph ν) : Nat → ν → Write11 ν Unit
  | 0 => fun _ => throw .unfinished
  | n + 1 => writeInstanceWith format (writeInstance format graph n) graph

end Encoder11

end Ice.Streams
