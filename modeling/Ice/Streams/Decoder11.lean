import Ice.Streams.Decoder

/-!
# The decoder of the encoding 1.1

`EncapsDecoder11`, function by function. `readInstance` is given how many calls of it may be
nested: the recursion goes through the members, the indirection tables of known and of
skipped slices, and skipped optional members, all of which get it as an argument.
-/

namespace Ice.Streams

def FLAG_HAS_TYPE_ID_STRING : Byte := 1
def FLAG_HAS_TYPE_ID_INDEX : Byte := 2
def FLAG_HAS_TYPE_ID_COMPACT : Byte := 3
def FLAG_HAS_OPTIONAL_MEMBERS : Byte := 4
def FLAG_HAS_INDIRECTION_TABLE : Byte := 8
def FLAG_HAS_SLICE_SIZE : Byte := 16
def FLAG_IS_LAST_SLICE : Byte := 32

/-- `flags & flag` as a condition -/
def hasFlag (flags flag : Byte) : Bool := flags &&& flag ≠ 0

/-- `SliceType` -/
inductive SliceType
  | noSlice | valueSlice | exceptionSlice
  deriving DecidableEq, Repr

/-- A skipped slice; its instances are looked up at the end. -/
structure SkippedSlice where
  typeId : List Byte
  compactId : Int
  bytes : List Byte
  hasOptionalMembers : Bool
  isLastSlice : Bool
  /-- The indirection table. -/
  indirectionTable : List Int
  deriving DecidableEq, Repr

/-- `InstanceData` -/
structure InstanceData where
  sliceType : SliceType
  skipFirstSlice : Bool
  /-- `slices` and `indirectionTables` -/
  slices : List SkippedSlice
  sliceFlags : Byte
  sliceSize : Int
  typeId : List Byte
  compactId : Int
  indirectPatchList : List (Int × Address)
  deriving DecidableEq, Repr

/-- What `EncapsDecoder11` adds: the stack that `_current` is the top of. -/
structure Decoder11 where
  current : List InstanceData
  valueIdIndex : Int
  deriving DecidableEq, Repr

abbrev Stream11 := InputStream (EncapsDecoder Decoder11)

abbrev Read11 (α : Type) := Read (EncapsDecoder Decoder11) α

namespace Decoder11

def start : EncapsDecoder Decoder11 := .start ⟨[], 1⟩

/-- `*_current` -/
def theCurrent : Read11 InstanceData := do
  let d ← getDecoder
  match d.derived.current with
  | [] => throwFault .nullPointer
  | c :: _ => return c

def modifyCurrent (f : InstanceData → InstanceData) : Read11 Unit := do
  let d ← getDecoder
  match d.derived.current with
  | [] => throwFault .nullPointer
  | c :: cs => modifyDecoder fun d => { d with derived := { d.derived with current := f c :: cs } }

/-- `push` -/
def push (sliceType : SliceType) : Read11 Unit :=
  modifyDecoder fun d =>
    { d with derived := { d.derived with
      current := ⟨sliceType, false, [], 0, 0, [], -1, []⟩ :: d.derived.current } }

/-- `startInstance` -/
def startInstance (sliceType : SliceType) : Read11 Unit := do
  let c ← theCurrent
  assert (c.sliceType = sliceType) "_current->sliceType == sliceType"
  modifyCurrent fun c => { c with skipFirstSlice := true }

/-- The type id in the header of a slice, as the flags say. -/
def readSliceTypeId (sliceType : SliceType) (flags : Byte) : Read11 Unit :=
  if sliceType = .valueSlice then
    if flags &&& FLAG_HAS_TYPE_ID_COMPACT = FLAG_HAS_TYPE_ID_COMPACT then do
      let compactId ← readSize
      modifyCurrent fun c => { c with typeId := [], compactId := compactId }
    else if hasFlag flags (FLAG_HAS_TYPE_ID_STRING ||| FLAG_HAS_TYPE_ID_INDEX) then do
      let typeId ← readTypeId (hasFlag flags FLAG_HAS_TYPE_ID_INDEX)
      modifyCurrent fun c => { c with typeId := typeId, compactId := -1 }
    else
      modifyCurrent fun c => { c with typeId := [], compactId := -1 }
  else do
    let typeId ← readString
    modifyCurrent fun c => { c with typeId := typeId }

/-- The size in the header of a slice, if there is one. -/
def readSliceSize (flags : Byte) : Read11 Unit :=
  if hasFlag flags FLAG_HAS_SLICE_SIZE then do
    let sliceSize ← readInt
    modifyCurrent fun c => { c with sliceSize := sliceSize }
    if sliceSize < 4 then throwException .unmarshalOutOfBounds
  else
    modifyCurrent fun c => { c with sliceSize := 0 }

/-- `startSlice` after the test whether the header has been read. -/
def readSliceHeader : Read11 Unit := do
  let flags ← readByte
  modifyCurrent fun c => { c with sliceFlags := flags }
  let c ← theCurrent
  readSliceTypeId c.sliceType flags
  readSliceSize flags

/-- `startSlice` -/
def startSlice : Read11 Unit := do
  let c ← theCurrent
  if c.skipFirstSlice then modifyCurrent fun c => { c with skipFirstSlice := false }
  else readSliceHeader

/-- The innermost slice has an indirection table, if there is one. -/
def inTableSlice (d : EncapsDecoder Decoder11) : Bool :=
  match d.derived.current with
  | [] => false
  | c :: _ => hasFlag c.sliceFlags FLAG_HAS_INDIRECTION_TABLE

section

variable (reader : Reader) (readInstance : Int → Option Address → Read11 Int)

/-- `read` -/
def read (address : Option Address) : Read11 Unit := do
  let index ← readSize
  if index = 0 then
    if let some a := address then modifyDecoder (·.patch a none)
  else
    let d ← getDecoder
    if inTableSlice d then
      if let some a := address then
        modifyCurrent fun c =>
          { c with indirectPatchList := c.indirectPatchList ++ [((index : Int) - 1, a)] }
    else
      let _ ← readInstance index address

/-- A data member that is a class. -/
def readReference : Read11 Address := do
  let a ← newPointer
  read readInstance (some a)
  return a

/-- `read(0, 0)` -/
def skipClass : Read11 Unit := read readInstance none

/-- `readOptional` -/
def readOptional (tag : Nat) (format : OptionalFormat) : Read11 Bool := do
  let d ← getDecoder
  match d.derived.current with
  | [] => readOptImpl (skipClass readInstance) tag format
  | c :: _ =>
    if hasFlag c.sliceFlags FLAG_HAS_OPTIONAL_MEMBERS then
      readOptImpl (skipClass readInstance) tag format
    else return false

/-- An entry of an indirection table. -/
def readTableEntry : Read11 Int := do
  let index ← readSize
  watch (index = 0) .zeroIndex
  readInstance index none

/-- An indirection table. -/
def readTable : Read11 (List Int) := do
  let sz ← readAndCheckSeqSize 1
  readTimes sz (readTableEntry readInstance)

/-- The indirect references become direct ones. -/
def patchIndirect (table : List Int) : List (Int × Address) → Read11 Unit
  | [] => return ()
  | e :: es => do
    assert (0 ≤ e.1) "p->index >= 0"
    match table[e.1.toNat]? with
    | none => throwException (.marshal "indirection out of range")
    | some index =>
      addPatchEntry reader index e.2
      patchIndirect table es

/-- The part of `endSlice` that reads the indirection table. -/
def readIndirections (c : InstanceData) : Read11 Unit :=
  if hasFlag c.sliceFlags FLAG_HAS_INDIRECTION_TABLE then do
    let table ← readTable readInstance
    if table = [] then throwException (.marshal "empty indirection table")
    else
      let c ← theCurrent
      if c.indirectPatchList = [] ∧ !hasFlag c.sliceFlags FLAG_HAS_OPTIONAL_MEMBERS then
        throwException (.marshal "no references to indirection table")
      else
        patchIndirect reader table c.indirectPatchList
        modifyCurrent fun c => { c with indirectPatchList := [] }
  else return ()

/-- `endSlice` -/
def endSlice : Read11 Unit := do
  let c ← theCurrent
  if hasFlag c.sliceFlags FLAG_HAS_OPTIONAL_MEMBERS then skipOptionals (skipClass readInstance)
  readIndirections reader readInstance c

/-- The part of `skipSlice` that skips the slice. -/
def skipContent (c : InstanceData) : Read11 Unit :=
  if hasFlag c.sliceFlags FLAG_HAS_SLICE_SIZE then do
    assert (4 ≤ c.sliceSize) "_current->sliceSize >= 4"
    skip (c.sliceSize.toNat - 4)
  else if c.sliceType = .valueSlice then
    throwException (.noValueFactory ("no value factory found and compact format prevents " ++
      "slicing (the sender should use the sliced format instead)") c.typeId)
  else throwException (.unknownUser c.typeId)

/-- The indirection table of a skipped slice. -/
def readSkippedTable (c : InstanceData) : Read11 (List Int) :=
  if hasFlag c.sliceFlags FLAG_HAS_INDIRECTION_TABLE then do
    watch (c.sliceType = .valueSlice) .skippedTable
    readTable readInstance
  else return []

/-- The part of `skipSlice` that preserves the slice. The end marker of the optional members
is left out. -/
def preserveSlice (c : InstanceData) (bytes : List Byte) : Read11 Unit := do
  let hasOptionalMembers := hasFlag c.sliceFlags FLAG_HAS_OPTIONAL_MEMBERS
  watch (hasOptionalMembers ∧ bytes = []) .emptyOptionals
  if hasOptionalMembers ∧ bytes = [] then throwFault .invertedRange
  else
    let table ← readSkippedTable readInstance c
    modifyCurrent fun c =>
      { c with slices := c.slices ++
        [⟨c.typeId, c.compactId, if hasOptionalMembers then bytes.dropLast else bytes,
          hasOptionalMembers, hasFlag c.sliceFlags FLAG_IS_LAST_SLICE, table⟩] }

/-- `skipSlice` -/
def skipSlice : Read11 Unit := do
  let c ← theCurrent
  let s ← get
  skipContent c
  let e ← get
  preserveSlice readInstance c (s.rest.take (e.i - s.i))

/-- The instances of the preserved slices, as `readSlicedData` looks them up. -/
def lookUpInstances : List Int → Read11 (List Address)
  | [] => return []
  | index :: table => do
    let a ← newPointer
    addPatchEntry reader index a
    let rest ← lookUpInstances table
    return a :: rest

/-- `readSlicedData` -/
def readSlicedData : List SkippedSlice → Read11 (List (SliceInfo Address))
  | [] => return []
  | p :: ps => do
    let instances ← lookUpInstances reader p.indirectionTable
    let rest ← readSlicedData ps
    return ⟨p.typeId, p.compactId, p.bytes, p.hasOptionalMembers, p.isLastSlice, instances⟩ :: rest

/-- `endInstance` -/
def endInstance (preserve : Bool) : Read11 (List (SliceInfo Address)) := do
  let c ← theCurrent
  let slicedData ← if preserve then readSlicedData reader c.slices else pure []
  modifyDecoder fun d => { d with derived := { d.derived with current := d.derived.current.tail } }
  return slicedData

/-- The slices of `_iceReadImpl`; `addSlice` keeps what has been read. -/
def readSlices (addSlice : Slice Address → Read11 Unit) : List SliceDef → Read11 Unit
  | [] => return ()
  | d :: ds => do
    startSlice
    let members ← readMembers (readReference readInstance) d.members
    let optionals ←
      readOptionals (readOptional readInstance) (readReference readInstance) d.optionals
    endSlice reader readInstance
    addSlice ⟨d, members, optionals⟩
    readSlices addSlice ds

/-- `_iceRead` of an instance of a class, and `_read` of an exception. -/
def readSliced (sliceType : SliceType) (v : Instance) (cls : ClassDef) : Read11 Unit := do
  startInstance sliceType
  readSlices reader readInstance (fun slice => modifyDecoder (·.addSlice v slice)) cls.slices
  let slicedData ← endInstance reader cls.preserve
  modifyDecoder (·.setSlicedData v slicedData)

/-- `_iceRead` of an instance of a class, or of `UnknownSlicedValue` when there is none. -/
def iceRead (v : Instance) (cls : Option ClassDef) : Read11 Unit :=
  readSliced reader readInstance .valueSlice v (cls.getD ⟨[], true⟩)

/-- `compactId` becomes a type id. -/
def resolveTypeId : Read11 (List Byte) := do
  modifyCurrent fun c =>
    if 0 ≤ c.compactId then { c with typeId := reader.resolveCompactId c.compactId.toNat } else c
  let c ← theCurrent
  return c.typeId

/-- `Object::ice_staticId()` -/
def objectId : List Byte := "::Ice::Object".toUTF8.toList

/-- The loop of `readInstance` over the slices up to one with a factory; each turn reads a
slice header. -/
def findFactory (mostDerivedId : List Byte) : Nat → Read11 (Instance × Option ClassDef)
  | 0 => throw .unfinished
  | n + 1 => do
    let typeId ← resolveTypeId reader
    match if typeId = [] then none else reader.newInstance typeId with
    | some cls =>
      let v ← make none
      return (v, some cls)
    | none =>
      if !reader.sliceValues then
        throwException (.noValueFactory "no value factory found and value slicing is disabled"
          typeId)
      skipSlice readInstance
      let c ← theCurrent
      if hasFlag c.sliceFlags FLAG_IS_LAST_SLICE then
        match reader.newInstance objectId with
        | some cls =>
          let v ← make none
          return (v, some cls)
        | none =>
          let v ← make (some mostDerivedId)
          return (v, none)
      startSlice
      findFactory mostDerivedId n

/-- The part of `readInstance` that reads the members of the instance. -/
def readMembersOf (index : Int) (v : Instance) (cls : Option ClassDef) : Read11 Unit := do
  modifyDecoder fun d => { d with classGraphDepth := d.classGraphDepth + 1 }
  let d ← getDecoder
  if reader.classGraphDepthMax < d.classGraphDepth then
    throwException (.marshal "maximum class graph depth reached")
  else
    unmarshal reader index v (iceRead reader readInstance v cls)
    modifyDecoder fun d => { d with classGraphDepth := d.classGraphDepth - 1 }
    let d ← getDecoder
    if d.derived.current = [] ∧ d.patchMap ≠ [] then
      throwException (.marshal "index for class received, but no instance")
    else return ()

/-- The part of `readInstance` for an instance that follows. -/
def readInlineInstance : Read11 (Int × Instance) := do
  push .valueSlice
  modifyDecoder fun d => { d with
    derived := { d.derived with valueIdIndex := d.derived.valueIdIndex + 1 } }
  let d ← getDecoder
  startSlice
  let c ← theCurrent
  let s ← get
  let found ← findFactory reader readInstance c.typeId (s.left + 1)
  readMembersOf reader readInstance d.derived.valueIdIndex found.1 found.2
  return (d.derived.valueIdIndex, found.1)

/-- `readInstance`, with the function for the nested calls. -/
def readInstanceWith (index : Int) (address : Option Address) : Read11 Int := do
  assert (0 < index) "index > 0"
  if 1 < index then
    if let some a := address then addPatchEntry reader index a
    return index
  else
    let read ← readInlineInstance reader readInstance
    if let some a := address then modifyDecoder (·.patch a (some read.2))
    return read.1

end

/-- `readInstance`, with the number of calls of it that may be active at the same time. -/
def readInstance (reader : Reader) : Nat → Int → Option Address → Read11 Int
  | 0 => fun _ _ => throw .unfinished
  | n + 1 => readInstanceWith reader (readInstance reader n)

/-- The results of an operation, to the end of the encapsulation. -/
def readResults (reader : Reader) (depth : Nat) (d : SliceDef) : Read11 (d.Data Address) := do
  let inner := readInstance reader depth
  let members ← readMembers (readReference inner) d.members
  let optionals ← readOptionals (readOptional inner) (readReference inner) d.optionals
  endEncapsulation (skipClass inner)
  return (members, optionals)

/-- An exception that has a factory. -/
def readException (reader : Reader) (depth : Nat) (cls : ClassDef) : Read11 Instance := do
  let v ← make none
  readSliced reader (readInstance reader depth) .exceptionSlice v cls
  return v

/-- The loop of `throwException` over the slices up to one with a factory; each turn reads a
slice header. The result is the exception that is thrown. -/
def findException (reader : Reader) (depth : Nat) (mostDerivedId : List Byte) :
    Nat → Read11 Instance
  | 0 => throw .unfinished
  | n + 1 => do
    let c ← theCurrent
    match reader.exceptionFactory c.typeId with
    | some cls => readException reader depth cls
    | none =>
      skipSlice (readInstance reader depth)
      let c ← theCurrent
      if hasFlag c.sliceFlags FLAG_IS_LAST_SLICE then throwException (.unknownUser mostDerivedId)
      else
        startSlice
        findException reader depth mostDerivedId n

/-- `throwException` -/
def throwUserException (reader : Reader) (depth : Nat) : Read11 Instance := do
  let d ← getDecoder
  assert (d.derived.current = []) "!_current"
  push .exceptionSlice
  startSlice
  let c ← theCurrent
  let s ← get
  findException reader depth c.typeId (s.left + 1)

end Decoder11

end Ice.Streams
