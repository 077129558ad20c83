import Ice.Streams.Decoder11

/-!
# The decoder of the encoding 1.0

`EncapsDecoder10`, function by function. References are identifiers, and the instances
follow the data that refers to them; so instances are never nested. There are no optional
members.
-/

namespace Ice.Streams

/-- What `EncapsDecoder10` adds. -/
structure Decoder10 where
  /-- `initEncaps` has made the decoder. -/
  initialized : Bool
  sliceType : SliceType
  skipFirstSlice : Bool
  sliceSize : Int
  typeId : List Byte
  deriving DecidableEq, Repr

abbrev Stream10 := InputStream (EncapsDecoder Decoder10)

abbrev Read10 (α : Type) := Read (EncapsDecoder Decoder10) α

namespace Decoder10

def start : EncapsDecoder Decoder10 := .start ⟨false, .noSlice, false, 0, []⟩

def modifyDerived (f : Decoder10 → Decoder10) : Read10 Unit :=
  modifyDecoder fun d => { d with derived := f d.derived }

/-- `initEncaps` -/
def initEncaps : Read10 Unit := modifyDerived fun d => { d with initialized := true }

/-- `startInstance` -/
def startInstance (sliceType : SliceType) : Read10 Unit := do
  let d ← getDecoder
  assert (d.derived.sliceType = sliceType) "_sliceType == sliceType"
  modifyDerived fun d => { d with skipFirstSlice := true }

/-- `startSlice` after the test whether the header has been read. -/
def readSliceHeader : Read10 Unit := do
  let d ← getDecoder
  if d.derived.sliceType = .valueSlice then
    let isIndex ← readByte
    let typeId ← readTypeId (isIndex ≠ 0)
    modifyDerived fun d => { d with typeId := typeId }
  else
    let typeId ← readString
    modifyDerived fun d => { d with typeId := typeId }
  let sliceSize ← readInt
  modifyDerived fun d => { d with sliceSize := sliceSize }
  if sliceSize < 4 then throwException .unmarshalOutOfBounds

/-- `startSlice` -/
def startSlice : Read10 Unit := do
  let d ← getDecoder
  if d.derived.skipFirstSlice then modifyDerived fun d => { d with skipFirstSlice := false }
  else readSliceHeader

/-- `skipSlice` -/
def skipSlice : Read10 Unit := do
  let d ← getDecoder
  assert (4 ≤ d.derived.sliceSize) "_sliceSize >= 4"
  skip (d.derived.sliceSize.toNat - 4)

/-- `endInstance` -/
def endInstance : Read10 Unit := do
  let d ← getDecoder
  if d.derived.sliceType = .valueSlice then
    startSlice
    let sz ← readSize
    if sz ≠ 0 then throwException (.marshal "invalid Object slice")
  modifyDerived fun d => { d with sliceType := .noSlice }

/-- `read`; the least `int` is its own negation. -/
def read (reader : Reader) (address : Address) : Read10 Unit := do
  initEncaps
  let index ← readInt
  if 0 < index then throwException (.marshal "invalid object id")
  if index = 0 then modifyDecoder (·.patch address none)
  else
    watch (index = -2 ^ 31) .leastId
    addPatchEntry reader (toInt (-index)) address

/-- A data member that is a class. -/
def readReference (reader : Reader) : Read10 Address := do
  let a ← newPointer
  read reader a
  return a

/-- `readOptional` -/
def readOptional (_tag : Nat) (_format : OptionalFormat) : Read10 Bool := return false

/-- The slices of `_iceReadImpl`; `addSlice` keeps what has been read. -/
def readSlices (reader : Reader) (addSlice : Slice Address → Read10 Unit) :
    List SliceDef → Read10 Unit
  | [] => return ()
  | d :: ds => do
    startSlice
    let members ← readMembers (readReference reader) d.members
    let optionals ← readOptionals readOptional (readReference reader) d.optionals
    addSlice ⟨d, members, optionals⟩
    readSlices reader addSlice ds

/-- `_iceRead` -/
def iceRead (reader : Reader) (sliceType : SliceType) (v : Instance) (cls : ClassDef) :
    Read10 Unit := do
  startInstance sliceType
  readSlices reader (fun slice => modifyDecoder (·.addSlice v slice)) cls.slices
  endInstance

/-- The loop of `readInstance` over the slices up to one with a factory; each turn reads a
slice header. -/
def findFactory (reader : Reader) (mostDerivedId : List Byte) : Nat → Read10 (Instance × ClassDef)
  | 0 => throw .unfinished
  | n + 1 => do
    let d ← getDecoder
    let typeId := d.derived.typeId
    if typeId = Decoder11.objectId then throwException (.noValueFactory "" mostDerivedId)
    else
      match reader.newInstance typeId with
      | some cls =>
        let v ← make none
        return (v, cls)
      | none =>
        if !reader.sliceValues then
          throwException (.noValueFactory "no value factory found and value slicing is disabled"
            typeId)
        else
          skipSlice
          startSlice
          findFactory reader mostDerivedId n

/-- The greatest class graph depth of the entries for an index. -/
def graphDepth (index : Int) (patchMap : List PatchEntry) : Nat :=
  ((patchMap.filter (·.index = index)).map (·.classGraphDepth)).foldl max 0

/-- The part of `readInstance` after the index. -/
def readInstanceOf (reader : Reader) (index : Int) : Read10 Unit := do
  modifyDerived fun d => { d with sliceType := .valueSlice, skipFirstSlice := false }
  startSlice
  let d ← getDecoder
  let s ← get
  let found ← findFactory reader d.derived.typeId (s.left + 1)
  modifyDecoder fun d => { d with classGraphDepth := graphDepth index d.patchMap + 1 }
  let d ← getDecoder
  if reader.classGraphDepthMax < d.classGraphDepth then
    throwException (.marshal "maximum class graph depth reached")
  else unmarshal reader index found.1 (iceRead reader .valueSlice found.1 found.2)

/-- `readInstance` -/
def readInstance (reader : Reader) : Read10 Unit := do
  let index ← readInt
  if index ≤ 0 then throwException (.marshal "invalid object id")
  else readInstanceOf reader index

/-- The loop of `readPendingValues`; each turn reads a size. -/
def readBatches (reader : Reader) : Nat → Read10 Unit
  | 0 => throw .unfinished
  | n + 1 => do
    let num ← readSize
    let _ ← readTimes num (readInstance reader)
    if num = 0 then return () else readBatches reader n

/-- `readPendingValues` -/
def readPendingValues (reader : Reader) : Read10 Unit := do
  let d ← getDecoder
  if d.derived.initialized then
    let s ← get
    readBatches reader (s.left + 1)
    let d ← getDecoder
    if d.patchMap ≠ [] then
      throwException (.marshal "index for class received, but no instance")
  else skipSize

/-- `endEncapsulation` -/
def endEncapsulation : Read10 Unit := do
  let s ← get
  if s.i ≠ s.encaps.start + s.encaps.sz then
    if s.i + 1 ≠ s.encaps.start + s.encaps.sz then throwException .encapsulation
    else modify (·.advance 1)

/-- The results of an operation, to the end of the encapsulation; `returnsClasses` says
whether some of them may be instances. -/
def readResults (reader : Reader) (returnsClasses : Bool) (d : SliceDef) :
    Read10 (d.Data Address) := do
  let members ← readMembers (readReference reader) d.members
  let optionals ← readOptionals readOptional (readReference reader) d.optionals
  if returnsClasses then readPendingValues reader
  endEncapsulation
  return (members, optionals)

/-- An exception that has a factory. -/
def readException (reader : Reader) (usesClasses : Bool) (cls : ClassDef) : Read10 Instance := do
  let v ← make none
  iceRead reader .exceptionSlice v cls
  if usesClasses then readPendingValues reader
  return v

/-- The loop of `throwException` over the slices up to one with a factory; each turn reads a
slice header. The result is the exception that is thrown. -/
def findException (reader : Reader) (usesClasses : Bool) : Nat → Read10 Instance
  | 0 => throw .unfinished
  | n + 1 => do
    let d ← getDecoder
    match reader.exceptionFactory d.derived.typeId with
    | some cls => readException reader usesClasses cls
    | none =>
      skipSlice
      startSlice
      findException reader usesClasses n

/-- `throwException` -/
def throwUserException (reader : Reader) : Read10 Instance := do
  initEncaps
  let d ← getDecoder
  assert (d.derived.sliceType = .noSlice) "_sliceType == NoSlice"
  let usesClasses ← readByte
  modifyDerived fun d => { d with sliceType := .exceptionSlice, skipFirstSlice := false }
  startSlice
  let s ← get
  findException reader (usesClasses ≠ 0) (s.left + 1)

end Decoder10

end Ice.Streams
