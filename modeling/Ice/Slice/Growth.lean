import Ice.Slice.WireTypes

/-!
# Streams that grow

`AddsFrom n w` says that a piece of writing makes the stream longer by `n` bytes or more. The
encoders go back to sizes and flags that they have left room for, which does not make the
stream shorter, and each of their references takes a byte at least.
-/

namespace Ice.Slice

open Lib Streams
open Nat (zero_le)

/-- A piece of writing that appends `n` bytes or more; what it changes further on does not
make the stream shorter. -/
def AddsFrom {ε α : Type} (n : Nat) (w : Write ε α) : Prop :=
  ∀ s a s', w s = .ok a s' → s.b.length + n ≤ s'.b.length

namespace AddsFrom

variable {ε α β : Type} {m n : Nat}

variable {w : Write ε α} {f : α → Write ε β}

/-- Fewer bytes are promised. -/
theorem mono (h : AddsFrom n w) (hle : m ≤ n) : AddsFrom m w := by
  intro s a s' hw
  have := h s a s' hw
  omega

/-- The numbers are added. -/
theorem bind (h : AddsFrom m w) (h' : ∀ a, AddsFrom n (f a)) : AddsFrom (m + n) (w >>= f) := by
  intro s b s'' hw
  obtain ⟨a, s', hfirst, hsecond⟩ := ok_of_bind hw
  have hm := h s a s' hfirst
  have hn := h' a s' b s'' hsecond
  omega

/-- The first part alone makes up the number. -/
theorem first (h : AddsFrom m w) (h' : ∀ a, AddsFrom 0 (f a)) :
    AddsFrom m (w >>= f) := bind h h'

/-- The second part alone makes up the number. -/
theorem second (h : AddsFrom 0 w) (h' : ∀ a, AddsFrom n (f a)) : AddsFrom n (w >>= f) := by
  have hboth := bind h h'
  rwa [Nat.zero_add] at hboth

theorem pure (a : α) : AddsFrom 0 (Pure.pure a : Write ε α) := by
  intro s b s' hw
  obtain ⟨-, rfl⟩ := EStateM.Result.ok.inj hw
  rfl

/-- What never returns promises anything. -/
theorem fails (h : ∀ s, ∃ e s', w s = .error e s') : AddsFrom n w := by
  intro s a s' hw
  obtain ⟨e, t, he⟩ := h s
  rw [he] at hw
  contradiction

theorem throwFault (f : Fault) : AddsFrom n (Streams.throwFault f : Write ε α) :=
  fails fun s => ⟨_, s, rfl⟩

theorem get : AddsFrom 0 (MonadState.get : Write ε (OutputStream ε)) := by
  intro s a s' hw
  obtain ⟨-, rfl⟩ := EStateM.Result.ok.inj hw
  rfl

theorem modify {f : OutputStream ε → OutputStream ε} (hf : ∀ s, s.b.length ≤ (f s).b.length) :
    AddsFrom 0 (modify f : Write ε Unit) := by
  intro s a s' hw
  obtain ⟨-, rfl⟩ := EStateM.Result.ok.inj hw
  exact hf s

theorem assert (p : Prop) [Decidable p] (text : String) :
    AddsFrom 0 (Streams.assert p text : Write ε Unit) := by
  unfold Streams.assert
  split_ifs
  · exact pure ()
  · exact throwFault _

theorem append {bytes : List Byte} (h : n ≤ bytes.length) :
    AddsFrom n (append bytes : Write ε Unit) := by
  intro s a s' hw
  obtain ⟨-, rfl⟩ := EStateM.Result.ok.inj hw
  simp only [List.length_append]
  omega

theorem writeSize (v : Nat) : AddsFrom 1 (writeSize v : Write ε Unit) := by
  intro s a s' hw
  obtain ⟨-, rfl⟩ := lt_of_writeSize hw
  have := sizeBytes_ne_nil v
  simp only [List.length_append]
  omega

theorem writeString (v : List Byte) : AddsFrom 1 (writeString v : Write ε Unit) :=
  (writeSize _).first fun _ => append (zero_le _)

theorem writeInt (v : Int) : AddsFrom 4 (writeInt v : Write ε Unit) :=
  append (length_intBytes v).ge

/-- A size is patched in where four bytes were kept for it. -/
theorem rewrite (v : Int) (position : Nat) : AddsFrom 0 (rewrite v position : Write ε Unit) := by
  apply modify
  intro s
  simp only [List.length_append, List.length_take, List.length_drop, length_intBytes]
  omega

theorem rewriteByte (v : Byte) (position : Nat) :
    AddsFrom 0 (rewriteByte v position : Write ε Unit) :=
  modify fun _ => (List.length_set ..).ge

/-- Every turn adds its bytes. -/
theorem forM {γ : Type} {w : γ → Write ε Unit} {xs : List γ} (h : ∀ x ∈ xs, AddsFrom n (w x)) :
    AddsFrom (xs.length * n) (xs.forM w) := by
  induction xs with
  | nil =>
    rw [List.length_nil, Nat.zero_mul]
    exact pure ()
  | cons x xs ih =>
    rw [List.forall_mem_cons] at h
    have hboth := (h.1).bind fun _ => ih h.2
    rwa [List.length_cons, Nat.succ_mul, Nat.add_comm]

/-- A loop whose turns do not shorten the stream. -/
theorem forM_zero {γ : Type} {w : γ → Write ε Unit} {xs : List γ}
    (h : ∀ x ∈ xs, AddsFrom 0 (w x)) : AddsFrom 0 (xs.forM w) := forM h

theorem ite {c : Prop} [Decidable c] {w' : Write ε α} (h : AddsFrom n w) (h' : AddsFrom n w') :
    AddsFrom n (if c then w else w') := by
  split_ifs
  · exact h
  · exact h'

end AddsFrom

section Encoders

variable {ν ρ : Type}

theorem addsFrom_modifyEncoder (f : EncapsEncoder ν ρ → EncapsEncoder ν ρ) :
    AddsFrom 0 (modifyEncoder f) := AddsFrom.modify fun _ => Nat.le_refl _

theorem addsFrom_getEncoder : AddsFrom 0 (getEncoder : Write (EncapsEncoder ν ρ) _) :=
  AddsFrom.get.first fun _ => .pure _

variable (typeId : List Byte)

theorem addsFrom_registerTypeId :
    AddsFrom 0 (registerTypeId typeId : Write (EncapsEncoder ν ρ) _) := by
  refine addsFrom_getEncoder.first fun e => ?_
  cases e.typeIdMap typeId with
  | some index => exact .pure _
  | none => exact (addsFrom_modifyEncoder _).first fun _ => .pure _

namespace Encoder11

open Streams.Encoder11

theorem addsFrom_theCurrent : AddsFrom 0 (theCurrent : Write11 ν _) := by
  refine addsFrom_getEncoder.first fun e => ?_
  cases e.derived.current with
  | nil => exact .throwFault _
  | cons f fs => exact .pure _

theorem addsFrom_modifyCurrent (h : InstanceData ν → InstanceData ν) :
    AddsFrom 0 (modifyCurrent h) := by
  refine addsFrom_getEncoder.first fun e => ?_
  cases e.derived.current with
  | nil => exact .throwFault _
  | cons f fs => exact addsFrom_modifyEncoder _

theorem addsFrom_writeSliceTypeId (compactId : Int) :
    AddsFrom 0 (writeSliceTypeId typeId compactId : Write11 ν Unit) := by
  unfold writeSliceTypeId
  apply AddsFrom.ite
  · exact (addsFrom_modifyCurrent _).first fun _ => (AddsFrom.writeSize _).mono (zero_le _)
  · refine (addsFrom_registerTypeId typeId).first fun index => ?_
    cases index with
    | none =>
      exact (addsFrom_modifyCurrent _).first fun _ =>
        (AddsFrom.writeString _).mono (zero_le _)
    | some index =>
      exact (addsFrom_modifyCurrent _).first fun _ => (AddsFrom.writeSize _).mono (zero_le _)

section Instances

variable {format : FormatType} {writeInstance : ν → Write11 ν Unit}

/-- The header of a slice. -/
theorem addsFrom_startSlice (compactId : Int) (last : Bool) :
    AddsFrom 0 (startSlice format typeId compactId last : Write11 ν Unit) := by
  unfold startSlice
  refine addsFrom_theCurrent.first fun f => (AddsFrom.assert _ _).first fun _ =>
    AddsFrom.get.first fun s => (addsFrom_modifyCurrent _).first fun _ =>
      (AddsFrom.append (zero_le _)).first fun _ => ?_
  dsimp only
  refine .ite (.ite ((addsFrom_writeSliceTypeId typeId compactId).first fun _ => ?_) ?_)
    (((AddsFrom.writeString typeId).mono (zero_le _)).first fun _ => ?_)
  -- what comes after the type id is the same in all the cases
  all_goals
    apply AddsFrom.ite
    · exact ((AddsFrom.writeInt 0).mono (zero_le _)).first fun _ =>
        AddsFrom.get.first fun _ => addsFrom_modifyCurrent _
    · exact AddsFrom.get.first fun _ => addsFrom_modifyCurrent _

theorem addsFrom_writeTable (h : ∀ v, AddsFrom 0 (writeInstance v)) :
    AddsFrom 0 (writeTable format writeInstance) := by
  unfold writeTable
  refine addsFrom_theCurrent.first fun f => .ite ?_ (.pure _)
  refine (AddsFrom.assert _ _).first fun _ => (addsFrom_modifyCurrent _).first fun _ =>
    ((AddsFrom.writeSize _).mono (zero_le _)).first fun _ =>
      (AddsFrom.forM_zero fun v _ => ?_).first fun _ => addsFrom_modifyCurrent _
  cases v with
  | none => exact .throwFault _
  | some v => exact h v

/-- The end marker, the size and the table of the indirect values. -/
theorem addsFrom_endSlice (h : ∀ v, AddsFrom 0 (writeInstance v)) :
    AddsFrom 0 (endSlice format writeInstance) := by
  have hmarker : AddsFrom 0 (writeEndMarker : Write11 ν Unit) :=
    addsFrom_theCurrent.first fun _ => .ite (.append (zero_le _)) (.pure _)
  have hsize : AddsFrom 0 (rewriteSliceSize : Write11 ν Unit) :=
    addsFrom_theCurrent.first fun _ => .ite (AddsFrom.get.first fun _ => .rewrite _ _) (.pure _)
  exact hmarker.first fun _ => hsize.first fun _ => (addsFrom_writeTable h).first fun _ =>
    addsFrom_theCurrent.first fun _ => .rewriteByte _ _

/-- The tag with its format. -/
theorem addsFrom_writeOptional (tag : Nat) (optionalFormat : OptionalFormat) :
    AddsFrom 0 (writeOptional tag optionalFormat : Write11 ν Bool) := by
  have hheader : AddsFrom 0 (writeOptImpl tag optionalFormat : Write11 ν Unit) :=
    .ite (.append (zero_le _)) ((AddsFrom.append (zero_le _)).first fun _ =>
      (AddsFrom.writeSize _).mono (zero_le _))
  refine hheader.first fun _ => addsFrom_getEncoder.first fun e => ?_
  exact .ite ((addsFrom_modifyCurrent _).first fun _ => .pure _) (.pure _)

/-- The slices that were preserved. -/
theorem addsFrom_writeSlicedData (h : ∀ v, AddsFrom 0 (writeInstance v))
    (slicedData : List (SliceInfo (Option ν))) :
    AddsFrom 0 (writeSlicedData format writeInstance slicedData) := by
  refine .ite (AddsFrom.forM_zero fun p _ => ?_) (.pure ())
  unfold writePreservedSlice
  refine (addsFrom_startSlice _ _ _).first fun _ =>
    (AddsFrom.append (zero_le _)).first fun _ => ?_
  dsimp only
  refine .ite ((addsFrom_modifyCurrent _).first fun _ => ?_) ?_
  all_goals
    exact (addsFrom_modifyCurrent _).first fun _ => addsFrom_endSlice h

end Instances

end Encoder11

variable {R ε : Type} {wr : R → Write ε Unit}

/-- The values of data members do not make the stream shorter. -/
theorem addsFrom_wireType (h : ∀ r, AddsFrom 0 (wr r)) (t : WireType)
    (x : t.Data R) : AddsFrom 0 (t.write wr x) := by
  have hkey (k : KeyType) (x : k.Data) : AddsFrom 0 (k.write x : Write ε Unit) := by
    induction k with
    | scalar w => exact .append (zero_le _)
    | string => exact (AddsFrom.writeString x).mono (zero_le _)
    | struct t u iht ihu => exact (iht x.1).first fun _ => ihu x.2
  induction t with
  | scalar w => exact .append (zero_le _)
  | string => exact (AddsFrom.writeString x).mono (zero_le _)
  | value => exact h x
  | struct t u iht ihu => exact (iht x.1).first fun _ => ihu x.2
  | sequence t ih =>
    exact ((AddsFrom.writeSize _).mono (zero_le _)).first fun _ =>
      AddsFrom.forM_zero fun y _ => ih y
  | dictionary k t ih =>
    exact ((AddsFrom.writeSize _).mono (zero_le _)).first fun _ =>
      AddsFrom.forM_zero fun p _ => (hkey k p.1).first fun _ => ih p.2

/-- Sizes that are patched in do not make the stream shorter either. -/
theorem addsFrom_writeSized {w : Write ε Unit} (h : AddsFrom 0 w) : AddsFrom 0 (writeSized w) := by
  have hstart : AddsFrom 0 (startSize : Write ε Nat) :=
    AddsFrom.get.first fun _ => ((AddsFrom.writeInt 0).mono (zero_le _)).first fun _ => .pure _
  exact hstart.first fun position => h.first fun _ => AddsFrom.get.first fun _ => .rewrite _ _

theorem addsFrom_writeContainer {w : Write ε Unit} (h : AddsFrom 0 w) (fixedLength : Bool)
    (sz n : Nat) : AddsFrom 0 (writeContainer fixedLength sz n w) := by
  refine .ite (.ite h ?_) (addsFrom_writeSized h)
  exact ((AddsFrom.writeSize _).mono (zero_le _)).first fun _ => h

section

variable (h : ∀ r, AddsFrom 0 (wr r))

include h

/-- A value with what its optional format puts before it. -/
theorem addsFrom_optionalValue (t : WireType)
    (x : t.Data R) : AddsFrom 0 (t.writeOptionalValue wr x) := by
  have hvalue := addsFrom_wireType h t x
  cases t with
  | scalar w | string | value => exact hvalue
  | struct t u =>
    refine .ite ?_ (addsFrom_writeSized hvalue)
    exact ((AddsFrom.writeSize _).mono (zero_le _)).first fun _ => hvalue
  | sequence t | dictionary k t => exact addsFrom_writeContainer hvalue _ _ _

/-- Members are written one after the other. -/
theorem addsFrom_writeMembers
    (ts : List WireType) (x : MembersData R ts) : AddsFrom 0 (writeMembers wr ts x) := by
  induction ts with
  | nil => exact .pure ()
  | cons t ts ih => exact (addsFrom_wireType h t x.1).first fun _ => ih x.2

theorem addsFrom_writeOptionals
    {writeOpt : Nat → OptionalFormat → Write ε Bool}
    (ho : ∀ tag format, AddsFrom 0 (writeOpt tag format)) (os : List (Nat × WireType))
    (x : OptionalsData R os) : AddsFrom 0 (writeOptionals writeOpt wr os x) := by
  induction os with
  | nil => exact .pure ()
  | cons o os ih =>
    refine AddsFrom.first ?_ fun _ => ih x.2
    cases hx : x.1 with
    | none => exact .pure ()
    | some y =>
      exact (ho _ _).first fun supported => .ite (addsFrom_optionalValue h o.2 y) (.pure ())

end

variable [DecidableEq ν]

/-- A value is written as its index. -/
theorem addsFrom_writeValue10 (v : Option ν) : AddsFrom 1 (Encoder10.write v) := by
  have hregister (v : ν) : AddsFrom 0 (Encoder10.registerValue v) := by
    refine addsFrom_getEncoder.first fun e => ?_
    cases e.derived.toBeMarshaledMap v with
    | some index => exact .pure _
    | none =>
      dsimp only
      cases e.marshaledMap v with
      | some index => exact .pure _
      | none => exact (addsFrom_modifyEncoder _).first fun _ => .pure _
  cases v with
  | none => exact (AddsFrom.writeInt 0).mono (by decide)
  | some v => exact (hregister v).second fun index => (AddsFrom.writeInt _).mono (by decide)

namespace Encoder11

open Streams.Encoder11

variable {format : FormatType} {writeInstance : ν → Write11 ν Unit}

/-- A reference takes a byte. -/
theorem addsFrom_write (h : ∀ v, AddsFrom 1 (writeInstance v)) (v : Option ν) :
    AddsFrom 1 (write format writeInstance v) := by
  cases v with
  | none => exact .writeSize 0
  | some v =>
    refine addsFrom_getEncoder.second fun e => .ite ?_ (h v)
    refine addsFrom_theCurrent.second fun f => ?_
    cases f.indirectionMap v with
    | some idx => exact .writeSize idx
    | none => exact (addsFrom_modifyCurrent _).second fun _ => .writeSize _

/-- The slices of an instance. -/
theorem addsFrom_writeSlices (h : ∀ v, AddsFrom 1 (writeInstance v))
    (slices : List (Slice (Option ν))) : AddsFrom 0 (writeSlices format writeInstance slices) := by
  have hzero v : AddsFrom 0 (writeInstance v) := (h v).mono (zero_le _)
  have hwrite v : AddsFrom 0 (write format writeInstance v) :=
    (addsFrom_write h v).mono (zero_le _)
  induction slices with
  | nil => exact .pure ()
  | cons slice slices ih =>
    refine AddsFrom.first ?_ fun _ => ih
    exact (addsFrom_startSlice _ _ _).first fun _ => (addsFrom_writeMembers hwrite _ _).first
      fun _ => (addsFrom_writeOptionals hwrite addsFrom_writeOptional _ _).first
        fun _ => addsFrom_endSlice hzero

/-- An instance takes a byte, whether it is written or referred to. -/
theorem addsFrom_writeInstance (graph : Graph ν) (depth : Nat) (v : ν) :
    AddsFrom 1 (Streams.Encoder11.writeInstance format graph depth v) := by
  induction depth generalizing v with
  | zero => exact .fails fun s => ⟨_, s, rfl⟩
  | succ n ih =>
    refine addsFrom_getEncoder.second fun e => ?_
    cases e.marshaledMap v with
    | some index => exact .writeSize index
    | none =>
      refine (addsFrom_modifyEncoder _).second fun _ => (AddsFrom.writeSize 1).first fun _ => ?_
      refine AddsFrom.first ?_ fun _ => (addsFrom_writeSlices ih _).first fun _ =>
        addsFrom_modifyEncoder _
      exact (addsFrom_modifyEncoder _).first fun _ =>
        addsFrom_writeSlicedData (fun v => (ih v).mono (zero_le _)) _

end Encoder11

end Encoders

end Ice.Slice
