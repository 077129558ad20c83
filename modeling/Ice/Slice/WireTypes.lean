import Ice.References.Marshaling
import Ice.Streams.Encoder11
import Ice.Streams.OptionalHeaders

/-!
# Types and their sizes on the wire

The types that the Slice compiler knows, with the estimates of `minWireSize` and
`isVariableLength`, and what `OutputStream` writes for a value of a type. The compiler adds
the sizes up in a `size_t`. References to instances are written by the encoder of the
encoding, proxies in the encapsulation of the stream. Scalars and strings are given by the
bytes that are written for them, enumerators by their values.
-/

namespace Ice.Slice

open Streams
open References (RoutableReference Version)

/-- `Builtin::Kind`. Local objects are not transmitted. -/
inductive Kind
  | byte | bool | short | int | long | float | double | string | object | objectProxy | value
  deriving DecidableEq, Repr

namespace Kind

/-- `Builtin::minWireSize` -/
def minWireSize : Kind → Nat
  | .byte | .bool => 1
  | .short => 2
  | .int => 4
  | .long => 8
  | .float => 4
  | .double => 8
  | .string => 1
  | .object => 1
  | .objectProxy => 2
  | .value => 1

/-- `Builtin::isVariableLength` -/
def isVariableLength : Kind → Bool
  | .string | .object | .objectProxy | .value => true
  | _ => false

/-- The values of a builtin type, with references from `R` and proxies from `P`. -/
def Data (R P : Type) : Kind → Type
  | .byte => Scalar 1
  | .bool => Bool
  | .short => Scalar 2
  | .int | .float => Scalar 4
  | .long | .double => Scalar 8
  | .string => List Byte
  | .object | .value => R
  | .objectProxy => P

end Kind

mutual

/-- The types that are not local. -/
inductive DataType
  | builtin (kind : Kind)
  | enum (maxValue : Nat)
  | proxy
  | classDecl
  | struct (members : Members)
  | sequence (type : DataType)
  | dictionary (keyType valueType : DataType)

/-- The types of the data members of a struct, of which there is at least one. -/
inductive Members
  | last (type : DataType)
  | cons (type : DataType) (members : Members)

end

/-- The range of `size_t` -/
def sizeMax : Nat := 2 ^ 64

mutual

/-- `Type::minWireSize` -/
def DataType.minWireSize : DataType → Nat
  | .builtin kind => kind.minWireSize
  | .enum _ => 1
  | .proxy => 2
  | .classDecl => 1
  | .struct members => members.addSizes 0
  | .sequence _ => 1
  | .dictionary _ _ => 1

/-- The loop of `Struct::minWireSize` -/
def Members.addSizes (sz : Nat) : Members → Nat
  | .last type => (sz + type.minWireSize) % sizeMax
  | .cons type members => members.addSizes ((sz + type.minWireSize) % sizeMax)

end

mutual

/-- `Type::isVariableLength` -/
def DataType.isVariableLength : DataType → Bool
  | .builtin kind => kind.isVariableLength
  | .struct members => members.isVariableLength
  | _ => true

/-- The loop of `Struct::isVariableLength` -/
def Members.isVariableLength : Members → Bool
  | .last type => type.isVariableLength
  | .cons type members => type.isVariableLength || members.isVariableLength

end

mutual

/-- The values of a type. A dictionary is the list of its entries. -/
def DataType.Data (R P : Type) : DataType → Type
  | .builtin kind => kind.Data R P
  | .enum maxValue => Fin (maxValue + 1)
  | .proxy => P
  | .classDecl => R
  | .struct members => members.Data R P
  | .sequence type => List (type.Data R P)
  | .dictionary keyType valueType => List (keyType.Data R P × valueType.Data R P)

def Members.Data (R P : Type) : Members → Type
  | .last type => type.Data R P
  | .cons type members => type.Data R P × members.Data R P

end

/-- The two encodings -/
inductive Encoding
  | e10 | e11
  deriving DecidableEq, Repr

/-- The encoding of a stream and its calls for references and proxies -/
structure Writers (ε R P : Type) where
  encoding : Encoding
  value : R → Write ε Unit
  proxy : P → Write ε Unit

section

variable {ε R P : Type} (w : Writers ε R P)

/-- `OutputStream::writeEnum` -/
def writeEnum (encoding : Encoding) (v maxValue : Nat) : Write ε Unit :=
  match encoding with
  | .e10 =>
    if maxValue < 127 then append [UInt8.ofNat v]
    else if maxValue < 32767 then writeShort v
    else writeInt v
  | .e11 => writeSize v

/-- `write` of the builtin types -/
def Kind.write : (kind : Kind) → kind.Data R P → Write ε Unit
  | .byte, x | .short, x | .int, x | .long, x | .float, x | .double, x =>
    append (List.Vector.toList x)
  | .bool, x => writeBool x
  | .string, x => writeString x
  | .object, x | .value, x => w.value x
  | .objectProxy, x => w.proxy x

mutual

/-- `StreamHelper::write` -/
def DataType.write : (type : DataType) → type.Data R P → Write ε Unit
  | .builtin kind, x => kind.write w x
  | .enum maxValue, x => writeEnum w.encoding (Fin.val x) maxValue
  | .proxy, x => w.proxy x
  | .classDecl, x => w.value x
  | .struct members, x => members.write x
  | .sequence type, x => do
    writeSize (List.length x)
    List.forM x type.write
  | .dictionary keyType valueType, x => do
    writeSize (List.length x)
    List.forM x fun entry => do
      keyType.write entry.1
      valueType.write entry.2

/-- `_iceWriteMembers` of a struct -/
def Members.write : (members : Members) → members.Data R P → Write ε Unit
  | .last type, x => type.write x
  | .cons type members, x => do
    type.write x.1
    members.write x.2

end

/-- `getOptionalFormat` -/
def DataType.optionalFormat : DataType → OptionalFormat
  | .builtin .byte | .builtin .bool => .f1
  | .builtin .short => .f2
  | .builtin .int | .builtin .float => .f4
  | .builtin .long | .builtin .double => .f8
  | .builtin .string => .vSize
  | .builtin .object | .builtin .value => .ofClass
  | .builtin .objectProxy => .fSize
  | .enum _ => .size
  | .proxy => .fSize
  | .classDecl => .ofClass
  | .struct members => containerFormat !members.isVariableLength
  | .sequence type => containerFormat !type.isVariableLength
  | .dictionary keyType valueType =>
    containerFormat !(keyType.isVariableLength || valueType.isVariableLength)

/-- `StreamOptionalHelper::write` -/
def DataType.writeOptionalValue : (type : DataType) → type.Data R P → Write ε Unit
  | .builtin .objectProxy, x => writeSized (w.proxy x)
  | .proxy, x => writeSized (w.proxy x)
  | .struct members, x =>
    if members.isVariableLength then writeSized (members.write w x)
    else do
      writeSize (DataType.struct members).minWireSize
      members.write w x
  | .sequence type, x =>
    writeContainer (!type.isVariableLength) type.minWireSize (List.length x)
      ((DataType.sequence type).write w x)
  | .dictionary keyType valueType, x =>
    writeContainer (!(keyType.isVariableLength || valueType.isVariableLength))
      (keyType.minWireSize + valueType.minWireSize) (List.length x)
      ((DataType.dictionary keyType valueType).write w x)
  | .builtin kind, x => kind.write w x
  | .enum maxValue, x => writeEnum w.encoding (Fin.val x) maxValue
  | .classDecl, x => w.value x

end

/-- What `EncapsEncoder10` adds, as far as it writes references. -/
structure Encoder10 (ν : Type) where
  toBeMarshaledMap : ν → Option Nat
  valueIdIndex : Nat

namespace Encoder10

variable {ν : Type} [DecidableEq ν]

/-- `registerValue` -/
def registerValue (v : ν) : Write (EncapsEncoder ν (Encoder10 ν)) Nat := do
  let e ← getEncoder
  match e.derived.toBeMarshaledMap v with
  | some index => return index
  | none =>
    match e.marshaledMap v with
    | some index => return index
    | none =>
      let index := e.derived.valueIdIndex + 1
      modifyEncoder fun e => { e with derived :=
        { toBeMarshaledMap := fun u =>
            if u = v then some index else e.derived.toBeMarshaledMap u
          valueIdIndex := index } }
      return index

/-- `write(const ValuePtr&)`. References are negative integers in 1.0. -/
def write : Option ν → Write (EncapsEncoder ν (Encoder10 ν)) Unit
  | some v => do
    let index ← registerValue v
    writeInt (-index)
  | none => writeInt 0

end Encoder10

/-- `write(const Identity&)` -/
def writeIdentity (id : References.Identity) : Write WriteEncaps Unit := do
  writeString id.name
  writeString id.category

/-- `ReferenceFactory::proxyToStream`; `none` is the nil proxy. -/
def writeProxy : Option RoutableReference → Write WriteEncaps Unit
  | none => writeIdentity ⟨[], []⟩
  | some r => do
    writeIdentity r.identity
    r.streamWrite

/-- The proxy is written in the encapsulation that the encoder belongs to. -/
def inEncapsulation {ε : Type} (encaps : WriteEncaps) (w : Write WriteEncaps Unit) :
    Write ε Unit := fun s =>
  match w ⟨s.b, encaps⟩ with
  | .ok _ t => .ok () ⟨t.b, s.encoder⟩
  | .error e t => .error e ⟨t.b, s.encoder⟩

namespace Encoding

def version : Encoding → Version
  | .e10 => Encoding_1_0
  | .e11 => currentEncoding

/-- The encoder of an encoding -/
abbrev Encoder (ν : Type) : Encoding → Type
  | .e10 => EncapsEncoder ν (Encoder10 ν)
  | .e11 => EncapsEncoder ν (Streams.Encoder11 ν)

variable {ν : Type} [DecidableEq ν]

/-- `EncapsEncoder::write(const ValuePtr&)`; `depth` calls of `writeInstance` may be nested. -/
def writeValue (format : FormatType) (graph : Graph ν) (depth : Nat) :
    (e : Encoding) → Option ν → Write (e.Encoder ν) Unit
  | .e10 => Encoder10.write
  | .e11 => Encoder11.write format (Encoder11.writeInstance format graph depth)

/-- The calls of a stream whose encapsulation began at `start` -/
def writers (format : FormatType) (graph : Graph ν) (depth start : Nat)
    (previous : List (Nat × Version)) (e : Encoding) :
    Writers (e.Encoder ν) (Option ν) (Option RoutableReference) where
  encoding := e
  value := e.writeValue format graph depth
  proxy r := inEncapsulation ⟨start, e.version, previous⟩ (writeProxy r)

end Encoding

end Ice.Slice
