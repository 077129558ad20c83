import Ice.Streams.Decoder

/-!
# Encoders

What `EncapsEncoder10` and `EncapsEncoder11` share. The instances to be written are the
nodes of a graph; node by node it says what slices an instance has, and in their data the
nodes that it refers to. User code that runs before an instance is written is left out.
-/

namespace Ice.Streams

/-- What each instance holds. -/
abbrev Graph (ν : Type) := ν → Object (Option ν)

/-- `EncapsEncoder`; `derived` is what the encoding adds. -/
structure EncapsEncoder (ν ρ : Type) where
  /-- The indices of the instances that have been written, or are being written. -/
  marshaledMap : ν → Option Nat
  typeIdMap : List Byte → Option Nat
  typeIdIndex : Nat
  derived : ρ

def EncapsEncoder.start {ν ρ : Type} (derived : ρ) : EncapsEncoder ν ρ where
  marshaledMap := fun _ => none
  typeIdMap := fun _ => none
  typeIdIndex := 0
  derived := derived

section

variable {ν ρ ε R : Type}

def modifyEncoder (f : EncapsEncoder ν ρ → EncapsEncoder ν ρ) : Write (EncapsEncoder ν ρ) Unit :=
  modify fun s => { s with encoder := f s.encoder }

def getEncoder : Write (EncapsEncoder ν ρ) (EncapsEncoder ν ρ) := do
  let s ← get
  return s.encoder

/-- `registerTypeId`, with nothing for -1 -/
def registerTypeId (typeId : List Byte) : Write (EncapsEncoder ν ρ) (Option Nat) := do
  let e ← getEncoder
  match e.typeIdMap typeId with
  | some index => return some index
  | none =>
    modifyEncoder fun e => { e with
      typeIdMap := fun t => if t = typeId then some (e.typeIdIndex + 1) else e.typeIdMap t
      typeIdIndex := e.typeIdIndex + 1 }
    return none

/-- `rewrite` of an `int` that is given by its lowest byte alone. -/
def rewriteByte (v : Byte) (position : Nat) : Write ε Unit :=
  modify fun s => { s with b := s.b.set position v }

/-- The values of data members. -/
def writeMembers (wr : R → Write ε Unit) : (ts : List WireType) → MembersData R ts → Write ε Unit
  | [], _ => return ()
  | t :: ts, x => do
    t.write wr x.1
    writeMembers wr ts x.2

/-- An optional data member, if it is set; `writeOptional` is the encoder's. -/
def writeOptionalMember (writeOptional : Nat → OptionalFormat → Write ε Bool)
    (wr : R → Write ε Unit) (tag : Nat) (t : WireType) : Option (t.Data R) → Write ε Unit
  | none => return ()
  | some x => do
    let supported ← writeOptional tag t.optionalFormat
    if supported then t.writeOptionalValue wr x

/-- The values of optional data members. -/
def writeOptionals (writeOptional : Nat → OptionalFormat → Write ε Bool) (wr : R → Write ε Unit) :
    (os : List (Nat × WireType)) → OptionalsData R os → Write ε Unit
  | [], _ => return ()
  | o :: os, x => do
    writeOptionalMember writeOptional wr o.1 o.2 x.1
    writeOptionals writeOptional wr os x.2

end

end Ice.Streams
