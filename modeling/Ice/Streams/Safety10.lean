import Ice.Streams.Safety

/-!
# Safety of the decoder of the encoding 1.0

The walk over `EncapsDecoder10`. Its instances are not nested; each turn of its loops
leaves less to read.
-/

namespace Ice.Streams.Decoder10

open Lib

variable {reader : Reader} {overrun : Stream10 → Prop} {P Q : Decoder10 → Prop} {k : Nat}

/-- The stream is in order, with at most `k` bytes left. -/
structure At (reader : Reader) (P : Decoder10 → Prop) (k : Nat) (s : Stream10) : Prop where
  inside : s.i ≤ s.b.length
  encaps : s.encaps.start + s.encaps.sz ≤ s.b.length
  clean : s.Clean
  sound : s.decoder.Sound reader
  derived : P s.decoder.derived
  left : s.left ≤ k

namespace At

variable {m : Nat} {s : Stream10} {sliceType : SliceType}

theorem mono {n : Nat} (h : At reader P m s) (hle : m ≤ n) : At reader P n s :=
  ⟨h.inside, h.encaps, h.clean, h.sound, h.derived, h.left.trans hle⟩

theorem before {t : Stream10} (h : At reader P k s) (hb : s.Before t) (hleft : t.left ≤ m) :
    At reader P m t where
  inside := hb.inside
  encaps := by
    rw [hb.encaps, hb.b]
    exact h.encaps
  clean := by
    intro n hn
    rw [hb.notes] at hn
    exact h.clean n hn
  sound := by
    rw [hb.decoder]
    exact h.sound
  derived := by
    rw [hb.decoder]
    exact h.derived
  left := hleft

theorem quiet : Quiet (At reader P k) where
  inside _ hs := hs.inside
  clean _ hs := hs.clean
  before s t hs ht := by
    apply hs.before ht
    have hle := ht.le
    have hleft := hs.left
    unfold InputStream.left at *
    rw [ht.b]
    omega
  resolves s t hs ht := by
    refine ⟨?_, ?_, ht.clean hs.clean, ht.decoder.sound hs.sound, ?_, ?_⟩
    · rw [ht.i, ht.b]
      exact hs.inside
    · rw [ht.encaps, ht.b]
      exact hs.encaps
    · rw [ht.decoder.derived]
      exact hs.derived
    · unfold InputStream.left
      rw [ht.i, ht.b]
      exact hs.left

theorem stable : Stable (At reader P k) (Ends overrun) := quiet.stable

theorem ends (h : At reader P k s) (e : IceException) :
    Ends overrun (.exception e) s := ⟨h.inside, h.clean⟩

theorem modifyDerived {f : Decoder10 → Decoder10} (hf : ∀ d, P d → Q (f d)) :
    Spec (At reader P k) (modifyDerived f) (fun _ => At reader Q k) (Ends overrun) :=
  fun s hs => ⟨hs.inside, hs.encaps, hs.clean, hs.sound, hf s.decoder.derived hs.derived, hs.left⟩

theorem readInt : Spec (At reader P k) readInt (fun _ s => At reader P (k - 4) s ∧ s.left < k)
    (Ends overrun) := by
  rw [spec_iff_wp]
  intro s hs
  rcases readInt_cases s with hread | ⟨hleft, v, hread⟩
  · rw [wp_of_error hread]
    exact hs.ends _
  · rw [wp_of_ok hread]
    have hk := hs.left
    have hadvance : (s.advance 4).left ≤ k - 4 := by
      change s.b.length - (s.i + 4) ≤ k - 4
      unfold InputStream.left at hleft hk
      omega
    exact ⟨hs.before (InputStream.before_advance hs.inside hleft) hadvance, by omega⟩

section

variable (hP : ∀ d typeId sliceSize, P d → P { d with typeId := typeId, sliceSize := sliceSize })

include hP

/-- A header keeps what does not depend on the slice, and leaves less to read. -/
theorem readSliceHeader :
    Spec (At reader P k) readSliceHeader
      (fun _ s => At reader (fun d => P d ∧ 4 ≤ d.sliceSize) k s ∧ s.left < k) (Ends overrun) := by
  have hid (typeId : List Byte) : Reads (At reader P k) (Ends overrun)
      (Decoder10.modifyDerived fun d => { d with typeId := typeId }) :=
    modifyDerived fun d hd => hP d typeId d.sliceSize hd
  have hsize : Spec (At reader P k)
      (Streams.readInt >>= fun sliceSize =>
        Decoder10.modifyDerived (fun d => { d with sliceSize := sliceSize }) >>= fun _ =>
          if sliceSize < 4 then Streams.throwException .unmarshalOutOfBounds else pure ())
      (fun _ s => At reader (fun d => P d ∧ 4 ≤ d.sliceSize) k s ∧ s.left < k) (Ends overrun) := by
    apply Spec.bind readInt
    intro sliceSize
    rw [spec_iff_wp]
    rintro s ⟨hs, hlt⟩
    have hd := hP s.decoder.derived s.decoder.derived.typeId sliceSize hs.derived
    change wp (if sliceSize < 4 then Streams.throwException .unmarshalOutOfBounds else pure ()) _ _
      { s with decoder := { s.decoder with derived := { s.decoder.derived with
        sliceSize := sliceSize } } }
    rw [wp_ite]
    constructor
    · intro _
      exact ⟨hs.inside, hs.clean⟩
    · intro hlarge
      exact ⟨⟨hs.inside, hs.encaps, hs.clean, hs.sound, ⟨hd, not_lt.mp hlarge⟩,
        hs.left.trans (Nat.sub_le ..)⟩,
        hlt⟩
  apply Spec.bind Quiet.getDecoder
  intro d
  apply Spec.ite
  · intro _
    apply Spec.bind (stable.of_advances advances_readByte)
    intro isIndex
    apply Spec.bind (quiet.readTypeId stable _)
    intro typeId
    exact Spec.bind (hid typeId) fun _ => hsize
  · intro _
    apply Spec.bind (stable.of_advances advances_readString)
    intro typeId
    exact Spec.bind (hid typeId) fun _ => hsize

theorem startSlice
    (hskip : ∀ d, P d → P { d with skipFirstSlice := false }) :
    Reads (At reader P k) (Ends overrun) startSlice := by
  apply Reads.bind Quiet.getDecoder
  intro d
  apply Reads.ite (modifyDerived hskip)
  apply (readSliceHeader hP).conseq (fun _ hs => hs) _ fun _ _ he => he
  rintro _ s ⟨hs, -⟩
  exact ⟨hs.inside, hs.encaps, hs.clean, hs.sound, hs.derived.1, hs.left⟩

/-- A header that is not the first. -/
theorem startSlice_left
    (hfirst : ∀ d, P d → d.skipFirstSlice = false) :
    Spec (At reader P k) Decoder10.startSlice
      (fun _ s => At reader (fun d => P d ∧ 4 ≤ d.sliceSize) k s ∧ s.left < k) (Ends overrun) := by
  rw [spec_iff_wp]
  intro s hs
  unfold Decoder10.startSlice
  rw [wp_bind, wp_getDecoder, hfirst _ hs.derived, if_neg Bool.false_ne_true]
  exact readSliceHeader hP s hs

end

/-- The size of a slice counts the four bytes it is written in. -/
theorem skipSlice (hP : ∀ d, P d → 4 ≤ d.sliceSize) :
    Reads (At reader P k) (Ends overrun) skipSlice := by
  rw [Reads, spec_iff_wp]
  intro s hs
  unfold Decoder10.skipSlice
  rw [wp_bind, wp_getDecoder, wp_bind, wp_assert (hP _ hs.derived)]
  exact stable.of_advances (advances_skip _) s hs

theorem readReference
    (hP : ∀ d, P d → P { d with initialized := true }) :
    Reads (At reader P k) (Ends overrun) (readReference reader) := by
  apply (quiet.newPointer).bind
  intro a
  apply Reads.bind _ fun _ => Reads.pure a
  unfold Decoder10.read initEncaps
  apply Reads.bind (modifyDerived hP)
  intro _
  rw [Reads, spec_iff_wp]
  intro s hs
  rw [wp_bind]
  rcases readInt_cases s with hread | ⟨hleft, index, hread⟩
  · rw [wp_of_error hread]
    exact hs.ends .unmarshalOutOfBounds
  rw [wp_of_ok hread, wp_ite]
  have ht := quiet.before s _ hs (InputStream.before_advance hs.inside hleft)
  constructor
  · intro _
    exact ⟨ht.inside, ht.clean⟩
  intro hpos
  rw [wp_ite]
  constructor
  · intro _
    have hagrees : (s.advance 4).decoder.Agrees ((s.advance 4).decoder.patch a none) :=
      ⟨rfl, rfl, rfl⟩
    exact quiet.resolves (s.advance 4) _ ht hagrees.resolves
  intro hzero
  obtain ⟨hlow, hhigh⟩ := readInt_range hread
  rw [wp_bind, wp_watch]
  constructor
  · intro hleast
    have hindex : ¬(0 : Int) < toInt (-index) := by
      have hsame : toInt (-index) = toInt (2 ^ 31 - 2 ^ 32) := by
        rw [hleast]
        unfold toInt
        exact (Int.sub_bmod_right ..).symm
      rw [hsame, toInt_of_lt (by omega) (by omega)]
      omega
    unfold addPatchEntry assert
    rw [wp_bind, if_neg hindex]
    exact ⟨ht.inside, (s.advance 4).not_clean_addNote rfl⟩
  · intro hleast
    have hindex : 0 < toInt (-index) := by
      rw [toInt_of_lt (by omega) (by omega)]
      omega
    apply wp_mono (wp_addPatchEntry ht.inside ht.clean ht.sound hindex a)
    · intro _ u hu
      exact quiet.resolves _ u ht hu
    · intro e u he
      exact he

/-- A slice lies in an instance or an exception. -/
def InType (sliceType : SliceType) (d : Decoder10) : Prop := d.sliceType = sliceType

theorem readSlices {addSlice : Slice Address → Read10 Unit}
    (hadd : ∀ x, Reads (At reader (InType sliceType) k) (Ends overrun) (addSlice x))
    (ds : List SliceDef) :
    Reads (At reader (InType sliceType) k) (Ends overrun) (readSlices reader addSlice ds) := by
  have href :
      Reads (At reader (InType sliceType) k) (Ends overrun) (Decoder10.readReference reader) :=
    readReference fun _ h => h
  have hopt (tag : Nat) (format : OptionalFormat) :
      Reads (At reader (InType sliceType) k) (Ends overrun) (readOptional tag format) := .pure _
  induction ds with
  | nil => exact .pure _
  | cons d ds ih =>
    exact (startSlice (fun _ _ _ h => h) fun _ h => h).bind fun _ =>
      (stable.readMembers href d.members).bind fun _ =>
        (stable.readOptionals hopt href d.optionals).bind fun _ => (hadd _).bind fun _ => ih

theorem endInstance :
    Spec (At reader (InType sliceType) k) endInstance (fun _ => At reader (InType .noSlice) k)
      (Ends overrun) := by
  have hclose : Spec (At reader (InType sliceType) k)
      (Decoder10.modifyDerived fun d => { d with sliceType := .noSlice })
      (fun _ => At reader (InType .noSlice) k) (Ends overrun) := modifyDerived fun _ _ => rfl
  apply Spec.bind Quiet.getDecoder
  intro d
  apply Spec.ite
  · intro _
    apply Spec.bind (startSlice (fun _ _ _ h => h) fun _ h => h)
    intro _
    apply Spec.bind (stable.of_advances advances_readSize)
    intro sz
    apply Spec.ite
    · intro _ s hs
      exact ⟨hs.inside, hs.clean⟩
    · intro _
      exact hclose
  · intro _
    exact hclose

theorem iceRead (sliceType : SliceType) (v : Instance) (cls : ClassDef) :
    Spec (At reader (InType sliceType) k) (iceRead reader sliceType v cls)
      (fun _ => At reader (InType .noSlice) k) (Ends overrun) := by
  have hadd (x : Slice Address) : Reads (At reader (InType sliceType) k) (Ends overrun)
      (modifyDecoder (·.addSlice v x)) := quiet.modifyDecoder fun _ => ⟨rfl, rfl, rfl⟩
  have hstart :
      Reads (At reader (InType sliceType) k) (Ends overrun) (startInstance sliceType) := by
    rw [Reads, spec_iff_wp]
    intro s hs
    unfold startInstance
    have htype : s.decoder.derived.sliceType = sliceType := hs.derived
    rw [wp_bind, wp_getDecoder, wp_bind, wp_assert htype]
    exact ⟨hs.inside, hs.encaps, hs.clean, hs.sound, htype, hs.left⟩
  apply Spec.bind hstart
  intro _
  apply Spec.bind (readSlices hadd cls.slices)
  intro _
  exact endInstance

/-- The header of the slice that is looked at has been read. -/
def HeaderRead (sliceType : SliceType) (d : Decoder10) : Prop :=
  (d.sliceType = sliceType ∧ d.skipFirstSlice = false) ∧ 4 ≤ d.sliceSize

theorem nextSlice {α : Type} {f : Read10 α} {T : α → Stream10 → Prop} (hk : k < m + 1)
    (hf : ∀ k' < m, k' ≤ k → Spec (At reader (HeaderRead sliceType) k') f T (Ends overrun)) :
    Spec (At reader (HeaderRead sliceType) k)
      (Decoder10.skipSlice >>= fun _ => Decoder10.startSlice >>= fun _ => f) T (Ends overrun) := by
  apply Spec.bind (skipSlice fun _ h => h.2)
  intro _
  rw [spec_iff_wp]
  intro s hs
  have hs' : At reader (fun d => d.sliceType = sliceType ∧ d.skipFirstSlice = false) k s :=
    ⟨hs.inside, hs.encaps, hs.clean, hs.sound, hs.derived.1, hs.left⟩
  rw [wp_bind]
  apply wp_mono (startSlice_left (fun _ _ _ h => h) (fun _ h => h.2) s hs')
  · rintro _ t ⟨ht, hlt⟩
    exact hf (k - 1) (by omega) (Nat.sub_le ..) t
      ⟨ht.inside, ht.encaps, ht.clean, ht.sound, ht.derived, by omega⟩
  · intro e t he
    exact he

/-- The slices up to one with a factory are skipped. -/
theorem findFactory (mostDerivedId : List Byte) (m : Nat) (hk : k < m) :
    Reads (At reader (HeaderRead .valueSlice) k) (Ends overrun)
      (findFactory reader mostDerivedId m) := by
  induction m generalizing k with
  | zero => omega
  | succ m ih =>
    have hnext : Reads (At reader (HeaderRead .valueSlice) k) (Ends overrun)
        (Decoder10.skipSlice >>= fun _ => Decoder10.startSlice >>= fun _ =>
          Decoder10.findFactory reader mostDerivedId m) := by
      apply nextSlice hk
      intro k' hk' hle
      exact (ih hk').conseq (fun _ hs => hs) (fun _ _ ht => At.mono ht hle) fun _ _ he => he
    apply Reads.bind Quiet.getDecoder
    intro d
    apply Reads.ite (.throwException stable _)
    cases reader.newInstance d.derived.typeId with
    | some cls => exact (quiet.make none).bind fun _ => .pure _
    | none => exact .ite (.throwException stable _) hnext

/-- Wherever the decoder is, an instance may follow. -/
def Anywhere (_ : Decoder10) : Prop := True

/-- An instance with its slices -/
theorem readInstanceOf (index : Int) :
    Reads (At reader Anywhere k) (Ends overrun) (readInstanceOf reader index) := by
  have hset : Spec (At reader Anywhere k)
      (Decoder10.modifyDerived fun d =>
        { d with sliceType := .valueSlice, skipFirstSlice := false })
      (fun _ => At reader (fun d => d.sliceType = .valueSlice ∧ d.skipFirstSlice = false) k)
      (Ends overrun) := modifyDerived fun _ _ => ⟨rfl, rfl⟩
  apply Spec.bind hset
  intro _
  apply Spec.bind (startSlice_left (fun _ _ _ h => h) fun _ h => h.2)
  intro _
  apply Spec.bind Quiet.getDecoder
  intro d
  rw [spec_iff_wp]
  rintro s ⟨hs, -⟩
  have hs' : At reader (HeaderRead .valueSlice) s.left s :=
    ⟨hs.inside, hs.encaps, hs.clean, hs.sound, hs.derived, le_rfl⟩
  rw [wp_bind, wp_get, wp_bind]
  apply wp_mono (findFactory d.derived.typeId _ (Nat.lt_succ_self _) s hs')
  · intro found t ht
    rw [wp_bind, wp_modifyDecoder, wp_bind, wp_getDecoder, wp_ite]
    constructor
    · intro _
      exact ⟨ht.inside, ht.clean⟩
    · intro _
      apply wp_unmarshal
      · exact ht.inside
      · intro u d hu hd
        exact ⟨hu.inside, hu.encaps, hu.clean, hd.sound hu.sound, trivial, hu.left⟩
      · intro d hd
        have hu : At reader (InType .valueSlice) k { t with decoder := d } := by
          refine ⟨ht.inside, ht.encaps, ht.clean, hd.sound ht.sound, ?_, ht.left.trans hs.left⟩
          change d.derived.sliceType = _
          rw [hd.derived]
          exact ht.derived.1.1
        apply wp_mono (iceRead .valueSlice found.1 found.2 _ hu)
        · intro _ w hw
          exact ⟨hw.inside, hw.encaps, hw.clean, hw.sound, trivial, hw.left⟩
        · intro e w he
          exact he
  · intro e t he
    exact he

theorem readInstance : Reads (At reader Anywhere k) (Ends overrun) (readInstance reader) :=
  (stable.of_advances advances_readInt).bind fun index =>
    .ite (.throwException stable _) (readInstanceOf index)

theorem readBatches (m : Nat) (hk : k < m) :
    Reads (At reader Anywhere k) (Ends overrun) (readBatches reader m) := by
  induction m generalizing k with
  | zero => omega
  | succ m ih =>
    rw [Reads, spec_iff_wp]
    intro s hs
    unfold Decoder10.readBatches
    rw [wp_bind]
    apply wp_readSize hs.inside
    · intro e t ht
      exact ⟨ht.inside, fun n hn => hs.clean n (ht.notes ▸ hn)⟩
    intro num j hj hjleft _
    have hleft := hs.left
    have ht : At reader Anywhere (k - 1) (s.advance j) := by
      apply hs.before (InputStream.before_advance hs.inside (not_lt.mpr hjleft))
      change s.b.length - (s.i + j) ≤ k - 1
      unfold InputStream.left at hjleft hleft
      omega
    have hbatch : Reads (At reader Anywhere (k - 1)) (Ends overrun)
        (readTimes num (Decoder10.readInstance reader)) := Stable.readTimes readInstance num
    rw [wp_bind]
    apply wp_mono (hbatch _ ht)
    · intro _ u hu
      rw [wp_ite]
      constructor
      · intro _
        exact hu.mono (Nat.sub_le ..)
      · intro _
        have hk' : k - 1 < m := by
          unfold InputStream.left at hjleft hleft
          omega
        exact wp_mono (ih hk' u hu) (fun _ w hw => hw.mono (Nat.sub_le ..)) fun _ _ he => he
    · intro e u he
      exact he

/-- Batches are read until none is left. -/
theorem readPendingValues :
    Reads (At reader Anywhere k) (Ends overrun) (readPendingValues reader) := by
  apply Reads.bind Quiet.getDecoder
  intro d
  apply Reads.ite _ (stable.of_advances advances_skipSize)
  rw [Reads, spec_iff_wp]
  intro s hs
  rw [wp_bind, wp_get, wp_bind]
  have hs' : At reader Anywhere s.left s :=
    ⟨hs.inside, hs.encaps, hs.clean, hs.sound, hs.derived, le_rfl⟩
  apply wp_mono (readBatches _ (Nat.lt_succ_self _) s hs')
  · intro _ t ht
    rw [wp_bind, wp_getDecoder, wp_ite]
    constructor
    · intro _
      exact ⟨ht.inside, ht.clean⟩
    · intro _
      exact ht.mono hs.left
  · intro e t he
    exact he

end At

variable {s : Stream10}

end Ice.Streams.Decoder10
