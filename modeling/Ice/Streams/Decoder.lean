import Ice.Streams.Optionals

/-!
# Decoders

What `EncapsDecoder10` and `EncapsDecoder11` share: classes as the reader knows them, the
instances that a decoder makes, the smart pointers in them, which it patches by their
address, and the maps by which it finds an instance again. Of the user code that runs when
an instance has been read only the calls of `ice_postUnmarshal` are kept.
-/

namespace Ice.Streams

/-- The address of a smart pointer. -/
abbrev Address := Nat

/-- An instance, numbered in the order in which they are made. -/
abbrev Instance := Nat

/-- One class of an inheritance chain: what a slice holds. -/
structure SliceDef where
  typeId : List Byte
  compactId : Int
  members : List WireType
  /-- Tags and types, in the order of the tags. -/
  optionals : List (Nat × WireType)
  deriving DecidableEq, Repr

/-- A class with its base classes, the most derived first. -/
structure ClassDef where
  slices : List SliceDef
  /-- The class keeps the slices of unknown derived classes. -/
  preserve : Bool
  deriving DecidableEq, Repr

/-- The values of the data members of a slice. -/
def MembersData (R : Type) : List WireType → Type
  | [] => Unit
  | t :: ts => t.Data R × MembersData R ts

/-- The values of the optional data members of a slice. -/
def OptionalsData (R : Type) : List (Nat × WireType) → Type
  | [] => Unit
  | o :: os => Option (o.2.Data R) × OptionalsData R os

def SliceDef.Data (R : Type) (d : SliceDef) : Type :=
  MembersData R d.members × OptionalsData R d.optionals

/-- A slice of an instance. -/
structure Slice (R : Type) where
  type : SliceDef
  data : type.Data R

/-- `SliceInfo`, a slice of an unknown class. -/
structure SliceInfo (R : Type) where
  typeId : List Byte
  compactId : Int
  bytes : List Byte
  hasOptionalMembers : Bool
  isLastSlice : Bool
  instances : List R
  deriving DecidableEq, Repr

/-- An instance of a class, or of none that is known. -/
structure Object (R : Type) where
  slices : List (Slice R)
  slicedData : List (SliceInfo R)
  /-- The type of an `UnknownSlicedValue`. -/
  unknownTypeId : Option (List Byte)

/-- What the stream is constructed with. -/
structure Reader where
  /-- `acceptClassCycles` of the communicator, if there is one. -/
  acceptClassCycles : Option Bool
  sliceValues : Bool
  classGraphDepthMax : Nat
  /-- `resolveCompactId`, and then the table of the generated classes. -/
  resolveCompactId : Nat → List Byte
  /-- `newInstance`: the factories that are found by a type id. -/
  newInstance : List Byte → Option ClassDef
  exceptionFactory : List Byte → Option ClassDef

structure PatchEntry where
  index : Int
  address : Address
  classGraphDepth : Nat
  deriving DecidableEq, Repr

/-- `EncapsDecoder`, with the instances it has made; `derived` is what the encoding adds. -/
structure EncapsDecoder (ρ : Type) where
  patchMap : List PatchEntry
  /-- The instances by index; there is none in an entry for an instance that is being read
  when cycles are not accepted. -/
  unmarshaledMap : Int → Option (Option Instance)
  /-- The type ids by index, from 1 on. -/
  typeIdMap : List (List Byte)
  classGraphDepth : Nat
  /-- The instances that wait for `postUnmarshal`. -/
  valueList : List Instance
  objects : List (Object Address)
  pointers : List (Option Instance)
  derived : ρ
  /-- The instances whose `postUnmarshal` has been called -/
  posted : List Instance

namespace EncapsDecoder

variable {ρ : Type}

def start (derived : ρ) : EncapsDecoder ρ where
  patchMap := []
  unmarshaledMap := fun _ => none
  typeIdMap := []
  classGraphDepth := 0
  valueList := []
  objects := []
  pointers := []
  derived := derived
  posted := []

/-- The patch function for an instance. -/
def patch (address : Address) (v : Option Instance) (d : EncapsDecoder ρ) : EncapsDecoder ρ :=
  { d with pointers := d.pointers.set address v }

/-- `_unmarshaledMap.insert`, which keeps an entry that is there. -/
def insertUnmarshaled (index : Int) (v : Option Instance) (d : EncapsDecoder ρ) :
    EncapsDecoder ρ :=
  { d with
    unmarshaledMap := fun i =>
      if i = index ∧ d.unmarshaledMap i = none then some v else d.unmarshaledMap i }

def assignUnmarshaled (index : Int) (v : Option Instance) (d : EncapsDecoder ρ) :
    EncapsDecoder ρ :=
  { d with unmarshaledMap := fun i => if i = index then some v else d.unmarshaledMap i }

/-- The entries for an index are patched and erased. -/
def patchAll (index : Int) (v : Instance) (d : EncapsDecoder ρ) : EncapsDecoder ρ :=
  let d := (d.patchMap.filter (·.index = index)).foldl (fun d e => d.patch e.address (some v)) d
  { d with patchMap := d.patchMap.filter (·.index ≠ index) }

/-- `_stream->postUnmarshal(v)` -/
def postUnmarshal (v : Instance) (d : EncapsDecoder ρ) : EncapsDecoder ρ :=
  { d with posted := d.posted ++ [v] }

/-- The calls of `postUnmarshal` at the end of `unmarshal`. -/
def post (v : Instance) (d : EncapsDecoder ρ) : EncapsDecoder ρ :=
  if d.valueList = [] ∧ d.patchMap = [] then d.postUnmarshal v
  else if d.patchMap = [] then
    { (d.valueList ++ [v]).foldl (fun d v => d.postUnmarshal v) d with valueList := [] }
  else { d with valueList := d.valueList ++ [v] }

/-- An instance gets another slice. -/
def addSlice (v : Instance) (slice : Slice Address) (d : EncapsDecoder ρ) : EncapsDecoder ρ :=
  { d with objects := d.objects.modify v fun o => { o with slices := o.slices ++ [slice] } }

def setSlicedData (v : Instance) (slicedData : List (SliceInfo Address)) (d : EncapsDecoder ρ) :
    EncapsDecoder ρ :=
  { d with objects := d.objects.modify v fun o => { o with slicedData := slicedData } }

end EncapsDecoder

section

variable {ρ α : Type}

def modifyDecoder (f : EncapsDecoder ρ → EncapsDecoder ρ) : Read (EncapsDecoder ρ) Unit :=
  modify fun s => { s with decoder := f s.decoder }

def getDecoder : Read (EncapsDecoder ρ) (EncapsDecoder ρ) := do
  let s ← get
  return s.decoder

def note (n : Note) : Read (EncapsDecoder ρ) Unit := modify (·.addNote n)

/-- A smart pointer in the instance that is being read. -/
def newPointer : Read (EncapsDecoder ρ) Address := do
  let d ← getDecoder
  modifyDecoder fun d => { d with pointers := d.pointers ++ [none] }
  return d.pointers.length

/-- An instance without its data members. -/
def make (unknownTypeId : Option (List Byte)) : Read (EncapsDecoder ρ) Instance := do
  let d ← getDecoder
  modifyDecoder fun d => { d with objects := d.objects ++ [⟨[], [], unknownTypeId⟩] }
  return d.objects.length

/-- `readTypeId` -/
def readTypeId (isIndex : Bool) : Read (EncapsDecoder ρ) (List Byte) := do
  if isIndex then
    let index ← readSize
    let d ← getDecoder
    match index with
    | 0 => throwException .unmarshalOutOfBounds
    | k + 1 =>
      match d.typeIdMap[k]? with
      | none => throwException .unmarshalOutOfBounds
      | some typeId => return typeId
  else
    let typeId ← readString
    modifyDecoder fun d => { d with typeIdMap := d.typeIdMap ++ [typeId] }
    return typeId

/-- `addPatchEntry` -/
def addPatchEntry (reader : Reader) (index : Int) (address : Address) :
    Read (EncapsDecoder ρ) Unit := do
  assert (0 < index) "index > 0"
  let d ← getDecoder
  match d.unmarshaledMap index with
  | some none =>
    match reader.acceptClassCycles with
    | none => throwFault .nullPointer
    | some accept =>
      assert (accept = false) "!_stream->_instance->acceptClassCycles()"
      throwException (.marshal "cycle detected during Value unmarshaling")
  | some (some v) => modifyDecoder (·.patch address (some v))
  | none =>
    note (.late index address)
    modifyDecoder fun d =>
      { d with patchMap := d.patchMap ++ [⟨index, address, d.classGraphDepth⟩] }

/-- `unmarshal`; `iceRead` is the instance's own. -/
def unmarshal (reader : Reader) (index : Int) (v : Instance)
    (iceRead : Read (EncapsDecoder ρ) Unit) : Read (EncapsDecoder ρ) Unit := do
  watch (reader.acceptClassCycles = none) .noCommunicator
  match reader.acceptClassCycles with
  | none => throwFault .nullPointer
  | some accept =>
    modifyDecoder (·.insertUnmarshaled index (if accept then some v else none))
    iceRead
    modifyDecoder (·.patchAll index v)
    modifyDecoder (·.post v)
    if !accept then modifyDecoder (·.assignUnmarshaled index (some v))

/-- The values of data members. -/
def readMembers (rd : Read (EncapsDecoder ρ) Address) :
    (ts : List WireType) → Read (EncapsDecoder ρ) (MembersData Address ts)
  | [] => return ()
  | t :: ts => do
    let x ← t.read rd
    let xs ← readMembers rd ts
    return (x, xs)

/-- The values of optional data members; `readOptional` is the decoder's. -/
def readOptionals (readOptional : Nat → OptionalFormat → Read (EncapsDecoder ρ) Bool)
    (rd : Read (EncapsDecoder ρ) Address) :
    (os : List (Nat × WireType)) → Read (EncapsDecoder ρ) (OptionalsData Address os)
  | [] => return ()
  | o :: os => do
    let present ← readOptional o.1 o.2.optionalFormat
    let x ← if present then some <$> o.2.readOptionalValue rd else pure none
    let xs ← readOptionals readOptional rd os
    return (x, xs)

end

end Ice.Streams
