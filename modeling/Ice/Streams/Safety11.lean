import Mathlib.Tactic.IntervalCases
import Ice.Streams.Safety

/-!
# Safety of the decoder of the encoding 1.1

One walk over `EncapsDecoder11` shows how reading may end and how far the calls of
`readInstance` are nested. The frames of the stack keep what the assertions need. An
instance never ends before it begins: only a byte with the tag 31 makes the
position go back too far, and the header of a slice has a byte that stops this. How many
nested calls are enough is left open.
-/

namespace Ice.Streams

open Lib
open List (cons_ne_nil map_cons map_eq_cons_iff mem_cons mem_cons_self mem_singleton not_mem_nil
  prefix_rfl)

/-- The lists of a frame hold what indexes may be. -/
structure InstanceData.Tables (c : InstanceData) : Prop where
  patches : ∀ e ∈ c.indirectPatchList, 0 ≤ e.1
  tables : ∀ p ∈ c.slices, ∀ i ∈ p.indirectionTable, 0 < i

/-- What the decoder relies on in a frame whose header has been read. -/
structure InstanceData.Sound (c : InstanceData) : Prop extends c.Tables where
  size : hasFlag c.sliceFlags FLAG_HAS_SLICE_SIZE = true → 4 ≤ c.sliceSize

/-- What nested calls leave as it is in a frame. -/
def InstanceData.shape (c : InstanceData) : SliceType × Bool := (c.sliceType, c.skipFirstSlice)

namespace InputStream

/-- The stack of the decoder. -/
abbrev current (s : Stream11) : List InstanceData := s.decoder.derived.current

/-- The stack is replaced. -/
def withCurrent (cs : List InstanceData) (s : Stream11) : Stream11 :=
  { s with decoder := { s.decoder with derived := { s.decoder.derived with current := cs } } }

/-- Reading goes on in `t`. -/
structure Spans (s t : Stream11) : Prop where
  b : t.b = s.b
  encaps : t.encaps = s.encaps
  notes : s.notes <+: t.notes

/-- The stream is in order but for the stack. -/
structure Core (reader : Reader) (s : Stream11) : Prop where
  inside : s.i ≤ s.b.length
  clean : s.Clean
  sound : s.decoder.Sound reader
  valueIds : 1 ≤ s.decoder.derived.valueIdIndex

/-- The stream is in order. -/
structure Good (reader : Reader) (s : Stream11) : Prop extends s.Core reader where
  frames : ∀ c ∈ s.current, c.Sound

/-- `t` is where a nested call may end. -/
structure Onward (reader : Reader) (s t : Stream11) : Prop extends Spans s t where
  good : t.Good reader
  le : s.i ≤ t.i
  depth : t.decoder.classGraphDepth = s.decoder.classGraphDepth
  shape : t.current.map InstanceData.shape = s.current.map InstanceData.shape

variable {reader : Reader} {s t u : Stream11}

theorem Spans.refl : s.Spans s := ⟨rfl, rfl, prefix_rfl⟩

theorem Spans.trans (h : s.Spans t) (h' : t.Spans u) : s.Spans u :=
  ⟨h'.b.trans h.b, h'.encaps.trans h.encaps, h.notes.trans h'.notes⟩

theorem Onward.refl (h : s.Good reader) : s.Onward reader s :=
  ⟨.refl, h, le_rfl, rfl, rfl⟩

theorem Onward.trans (h : s.Onward reader t) (h' : t.Onward reader u) : s.Onward reader u :=
  ⟨h.toSpans.trans h'.toSpans, h'.good, h.le.trans h'.le, h'.depth.trans h.depth,
    h'.shape.trans h.shape⟩

theorem Core.before (h : s.Core reader) (hb : s.Before t) : t.Core reader where
  inside := hb.inside
  clean := by
    intro n hn
    rw [hb.notes] at hn
    exact h.clean n hn
  sound := by
    rw [hb.decoder]
    exact h.sound
  valueIds := by
    rw [hb.decoder]
    exact h.valueIds

theorem Core.resolves (h : s.Core reader) (hr : s.Resolves t) : t.Core reader where
  inside := by
    rw [hr.i, hr.b]
    exact h.inside
  clean := hr.clean h.clean
  sound := hr.decoder.sound h.sound
  valueIds := by
    rw [hr.decoder.derived]
    exact h.valueIds

theorem Good.before (h : s.Good reader) (hb : s.Before t) : s.Onward reader t where
  b := hb.b
  encaps := hb.encaps
  notes := by
    have hnotes := hb.notes
    simp only [hnotes, List.prefix_refl]
  good := by
    refine ⟨h.toCore.before hb, ?_⟩
    unfold current
    rw [hb.decoder]
    exact h.frames
  le := hb.le
  depth := by rw [hb.decoder]
  shape := by
    unfold current
    rw [hb.decoder]

theorem Good.resolves (h : s.Good reader) (hr : s.Resolves t) : s.Onward reader t where
  b := hr.b
  encaps := hr.encaps
  notes := hr.notes
  good := by
    refine ⟨h.toCore.resolves hr, ?_⟩
    unfold current
    rw [hr.decoder.derived]
    exact h.frames
  le := le_of_eq hr.i.symm
  depth := hr.decoder.classGraphDepth
  shape := by
    unfold current
    rw [hr.decoder.derived]

theorem Core.withCurrent (h : s.Core reader) (cs : List InstanceData) :
    (s.withCurrent cs).Core reader := ⟨h.inside, h.clean, h.sound, h.valueIds⟩

/-- The uppermost frame changes. -/
theorem Good.withCurrent {c c' : InstanceData} {cs : List InstanceData} (h : s.Good reader)
    (hs : s.current = c :: cs) (hc : c'.Sound) (hshape : c'.shape = c.shape) :
    s.Onward reader (s.withCurrent (c' :: cs)) where
  b := rfl
  encaps := rfl
  notes := prefix_rfl
  good := by
    refine ⟨h.toCore.withCurrent _, ?_⟩
    intro d hd
    rcases mem_cons.mp hd with rfl | hd
    · exact hc
    · apply h.frames d
      rw [hs]
      exact List.mem_cons_of_mem c hd
  le := le_rfl
  depth := rfl
  shape := by
    change (c' :: cs).map InstanceData.shape = _
    rw [hs, map_cons, map_cons, hshape]

end InputStream

namespace Decoder11

variable {reader : Reader} {α β : Type} {overrun : Stream11 → Prop}

/-- A property that nested calls keep. -/
structure Closed (reader : Reader) (I : Stream11 → Prop) : Prop where
  good : ∀ s, I s → s.Good reader
  onward : ∀ s t, I s → s.Onward reader t → I t

/-- A property that nested calls keep, with a frame on the stack. -/
structure Framed (reader : Reader) (I : Stream11 → Prop) : Prop extends Closed reader I where
  frame : ∀ s, I s → s.current ≠ []

namespace Closed

variable {I : Stream11 → Prop}

theorem quiet (h : Closed reader I) : Quiet I where
  inside s hs := (h.good s hs).inside
  clean s hs := (h.good s hs).clean
  before s t hs ht := h.onward s t hs ((h.good s hs).before ht)
  resolves s t hs ht := h.onward s t hs ((h.good s hs).resolves ht)

theorem stable (h : Closed reader I) : Stable I (Ends overrun) := h.quiet.stable

theorem and (h : Closed reader I) {J : Stream11 → Prop}
    (hJ : ∀ s t, J s → s.Onward reader t → J t) : Closed reader fun s => I s ∧ J s where
  good s hs := h.good s hs.1
  onward s t hs ht := ⟨h.onward s t hs.1 ht, hJ s t hs.2 ht⟩

theorem left_le (k : Nat) (s t : Stream11) (hs : s.left ≤ k) (ht : s.Onward reader t) :
    t.left ≤ k := by
  have hle := ht.le
  unfold InputStream.left at *
  rw [ht.b]
  omega

theorem onward_of (s : Stream11) : Closed reader (s.Onward reader) where
  good _ ht := ht.good
  onward _ _ ht hu := ht.trans hu

end Closed

variable {s : Stream11} {c : InstanceData} {R : Failure → Stream11 → Prop}

theorem wp_theCurrent {cs : List InstanceData} (hs : s.current = c :: cs)
    {Q : InstanceData → Stream11 → Prop} :
    wp theCurrent Q R s ↔ Q c s := by
  unfold theCurrent
  rw [wp_bind, wp_getDecoder]
  rw [show s.decoder.derived.current = c :: cs from hs]
  exact wp_pure

variable {f : InstanceData → InstanceData}

theorem wp_modifyCurrent {cs : List InstanceData} (hs : s.current = c :: cs)
    {Q : Unit → Stream11 → Prop} :
    wp (modifyCurrent f) Q R s ↔ Q () (s.withCurrent (f c :: cs)) := by
  unfold modifyCurrent
  rw [wp_bind, wp_getDecoder]
  rw [show s.decoder.derived.current = c :: cs from hs]
  exact wp_modifyDecoder

namespace Framed

variable {I : Stream11 → Prop}

section

variable (h : Framed reader I)

include h

theorem exists_cons {s : Stream11} (hs : I s) :
    ∃ c cs, s.current = c :: cs ∧ c.Sound := by
  obtain ⟨c, cs, hc⟩ := List.exists_cons_of_ne_nil (h.frame s hs)
  refine ⟨c, cs, hc, (h.good s hs).frames c ?_⟩
  rw [hc]
  exact mem_cons_self ..

theorem theCurrent :
    Spec I theCurrent (fun c s => I s ∧ c.Sound ∧ ∃ cs, s.current = c :: cs) (Ends overrun) := by
  rw [spec_iff_wp]
  intro s hs
  obtain ⟨c, cs, hc, hsound⟩ := h.exists_cons hs
  rw [wp_theCurrent hc]
  exact ⟨hs, hsound, cs, hc⟩

theorem theCurrent_bind {f : InstanceData → Read11 α}
    (hf : ∀ c, c.Sound → Reads I (Ends overrun) (f c)) :
    Reads I (Ends overrun) (Decoder11.theCurrent >>= f) := by
  apply Spec.bind h.theCurrent
  intro c s hs
  exact hf c hs.2.1 s hs.1

theorem modifyCurrent
    (hf : ∀ c, c.Sound → (f c).Sound ∧ (f c).shape = c.shape) :
    Reads I (Ends overrun) (modifyCurrent f) := by
  rw [Reads, spec_iff_wp]
  intro s hs
  obtain ⟨c, cs, hc, hsound⟩ := h.exists_cons hs
  rw [wp_modifyCurrent hc]
  obtain ⟨hf₁, hf₂⟩ := hf c hsound
  exact h.onward s _ hs ((h.good s hs).withCurrent hc hf₁ hf₂)

end

end Framed

/-- How many nested calls are enough. A call is made with `enough`, and the members of an
instance are read `within` what is left, wherever they stand. -/
structure Budget (reader : Reader) where
  enough : Nat → Stream11 → Prop
  within : Nat → Stream11 → Prop
  overrun : Stream11 → Prop
  zero : ∀ s, enough 0 s → overrun s
  addNote : ∀ s n, overrun s → overrun (s.addNote n)
  enough_of_within : ∀ n s, within n s → enough n s
  within_spans : ∀ n s t, within n s → s.Spans t →
    t.decoder.classGraphDepth = s.decoder.classGraphDepth → within n t
  enter : ∀ n s t, enough (n + 1) s → s.Spans t →
    t.decoder.classGraphDepth = s.decoder.classGraphDepth + 1 →
    t.decoder.classGraphDepth ≤ reader.classGraphDepthMax → within n t
  skip : ∀ n s t, reader.sliceValues = true → enough (n + 1) s → s.Spans t →
    t.decoder.classGraphDepth = s.decoder.classGraphDepth → t.i ≤ t.b.length → s.i < t.i →
    .skippedTable ∈ t.notes → enough n t

/-- The function for the nested calls. -/
structure Nested (B : Budget reader) (n : Nat) (inner : Int → Option Address → Read11 Int) :
    Prop where
  positive : ∀ index address s, 0 < index → s.Good reader → B.enough n s →
    wp (inner index address) (fun i t => 0 < i ∧ s.Onward reader t) (Ends B.overrun) s
  zero : ∀ address s, s.Good reader → B.enough n s →
    wp (inner 0 address) (fun _ _ => False) (Ends B.overrun) (s.addNote .zeroIndex)

section

variable {B : Budget reader} {n : Nat} {inner : Int → Option Address → Read11 Int}
  {I : Stream11 → Prop}

section

variable (h : Closed reader I)

include h

section

variable (hinner : Nested B n inner)

include hinner

section

variable (hI : ∀ s, I s → B.enough n s)

include hI

theorem Closed.read (address : Option Address) :
    Reads I (Ends B.overrun) (read inner address) := by
  unfold Decoder11.read
  apply (h.stable.of_advances advances_readSize).bind
  intro index
  apply Spec.ite
  · intro _
    cases address with
    | none => exact Reads.pure _
    | some a =>
      apply h.quiet.modifyDecoder
      intro d
      exact ⟨rfl, rfl, rfl⟩
  intro hindex
  rw [spec_iff_wp]
  intro s hs
  rw [wp_bind, wp_getDecoder, wp_ite]
  constructor
  · intro htable
    cases address with
    | none => exact hs
    | some a =>
      unfold inTableSlice at htable
      cases hc : s.current with
      | nil =>
        rw [show s.decoder.derived.current = [] from hc] at htable
        contradiction
      | cons c cs =>
        have hsound := (h.good s hs).frames c (hc ▸ mem_cons_self ..)
        change wp (modifyCurrent _) _ _ _
        rw [wp_modifyCurrent hc]
        apply h.onward s _ hs
        refine (h.good s hs).withCurrent hc ⟨⟨?_, hsound.tables⟩, hsound.size⟩ rfl
        intro e he
        rcases List.mem_append.mp he with he | he
        · exact hsound.patches e he
        · rw [mem_singleton.mp he]
          change (0 : Int) ≤ index - 1
          omega
  · intro _
    rw [wp_bind]
    apply wp_mono (hinner.positive index address s (by omega) (h.good s hs) (hI s hs))
    · intro i t ht
      exact h.onward s t hs ht.2
    · intro e t he
      exact he

theorem Closed.readReference : Reads I (Ends B.overrun) (readReference inner) :=
  h.quiet.newPointer.bind fun _ => (h.read hinner hI _).bind fun _ => .pure _

/-- A skipped class never ends before it begins. -/
theorem Closed.skipClass (k : Nat) :
    Reads (fun s => I s ∧ s.left ≤ k) (Ends B.overrun) (skipClass inner) :=
  (h.and (Closed.left_le k)).read hinner (fun s hs => hI s hs.1) none

theorem Closed.readOptional (hr : Rewinds I (Ends B.overrun)) (tag : Nat)
    (format : OptionalFormat) : Reads I (Ends B.overrun) (readOptional inner tag format) := by
  have himpl := h.stable.readOptImpl hr (h.skipClass hinner hI) tag format
  apply Quiet.getDecoder.bind
  intro d
  cases d.derived.current with
  | nil => exact himpl
  | cons c cs => exact .ite himpl (.pure _)

theorem Closed.readTableEntry :
    Spec I (readTableEntry inner) (fun i s => 0 < i ∧ I s) (Ends B.overrun) := by
  unfold Decoder11.readTableEntry
  apply Spec.bind (h.stable.of_advances advances_readSize)
  intro index
  rw [spec_iff_wp]
  intro s hs
  rw [wp_bind, wp_watch]
  constructor
  · intro hzero
    rw [hzero]
    apply wp_mono (hinner.zero none s (h.good s hs) (hI s hs))
    · intro i t ht
      exact ht.elim
    · intro e t he
      exact he
  · intro hindex
    apply wp_mono (hinner.positive index none s (by omega) (h.good s hs) (hI s hs))
    · intro i t ht
      exact ⟨ht.1, h.onward s t hs ht.2⟩
    · intro e t he
      exact he

theorem Closed.readTable :
    Spec I (readTable inner) (fun table s => (∀ i ∈ table, 0 < i) ∧ I s) (Ends B.overrun) := by
  apply Spec.bind (h.stable.of_advances (advances_readAndCheckSeqSize 1))
  intro sz
  exact Stable.forall_readTimes (h.readTableEntry hinner hI) sz

end

end

theorem Closed.addPatchEntry {index : Int} (hindex : 0 < index)
    (address : Address) : Reads I (Ends overrun) (addPatchEntry reader index address) := by
  rw [Reads, spec_iff_wp]
  intro s hs
  have hgood := h.good s hs
  apply wp_mono (wp_addPatchEntry hgood.inside hgood.clean hgood.sound hindex address)
  · intro _ t ht
    exact h.quiet.resolves s t hs ht
  · intro e t he
    exact he

theorem Closed.patchIndirect {table : List Int}
    (htable : ∀ i ∈ table, 0 < i) {es : List (Int × Address)} (hes : ∀ e ∈ es, 0 ≤ e.1) :
    Reads I (Ends overrun) (patchIndirect reader table es) := by
  induction es with
  | nil => exact .pure _
  | cons e es ih =>
    obtain ⟨he, hes⟩ := List.forall_mem_cons.mp hes
    rw [Decoder11.patchIndirect, Reads, spec_iff_wp]
    intro s hs
    rw [wp_bind, wp_assert he]
    cases hindex : table[e.1.toNat]? with
    | none => exact ⟨(h.good s hs).inside, (h.good s hs).clean⟩
    | some index =>
      have hpos := htable index (List.mem_of_getElem? hindex)
      exact ((h.addPatchEntry hpos e.2).bind fun _ => ih hes) s hs

end

theorem Framed.readIndirections (h : Framed reader I) (hinner : Nested B n inner)
    (hI : ∀ s, I s → B.enough n s) (c : InstanceData) :
    Reads I (Ends B.overrun) (readIndirections reader inner c) := by
  apply Reads.ite _ (.pure _)
  apply Spec.bind (h.readTable hinner hI)
  intro table
  apply Spec.of_forall
  rintro s ⟨htable, hs⟩ t rfl
  have hrest (c : InstanceData) (hc : c.Sound) : Reads I (Ends B.overrun)
      (Decoder11.patchIndirect reader table c.indirectPatchList >>= fun _ =>
        Decoder11.modifyCurrent fun c => { c with indirectPatchList := [] }) := by
    apply (h.patchIndirect htable hc.patches).bind
    intro _
    apply h.modifyCurrent
    intro c hc
    exact ⟨⟨⟨fun e he => absurd he not_mem_nil, hc.tables⟩, hc.size⟩, rfl⟩
  have hall : Reads I (Ends B.overrun) (if table = [] then
      throwException (.marshal "empty indirection table") else Decoder11.theCurrent >>= fun c =>
        if c.indirectPatchList = [] ∧ !hasFlag c.sliceFlags FLAG_HAS_OPTIONAL_MEMBERS then
          throwException (.marshal "no references to indirection table")
        else Decoder11.patchIndirect reader table c.indirectPatchList >>= fun _ =>
          Decoder11.modifyCurrent fun c => { c with indirectPatchList := [] }) :=
    .ite (.throwException h.stable _) (h.theCurrent_bind fun c hc =>
      .ite (.throwException h.stable _) (hrest c hc))
  exact hall t hs

theorem Framed.endSlice (h : Framed reader I) (hinner : Nested B n inner)
    (hI : ∀ s, I s → B.enough n s) : Reads I (Ends B.overrun) (endSlice reader inner) := by
  apply h.theCurrent_bind
  intro c _
  have hrest := h.readIndirections hinner hI c
  exact .ite ((h.stable.skipOptionals (h.skipClass hinner hI)).bind fun _ => hrest) hrest

theorem Closed.addNote (h : Closed reader I) {s : Stream11} (hs : I s) {n : Note}
    (hn : n.hostile = false) : I (s.addNote n) :=
  h.quiet.resolves s _ hs ⟨rfl, rfl, rfl, .refl, List.prefix_append .., fun hc => hc.addNote hn⟩

/-- Where the slice of an instance is skipped, its indirection table has been noted. -/
def SkipNoted (s : Stream11) : Prop :=
  ∀ c cs, s.current = c :: cs → c.sliceType = .valueSlice → .skippedTable ∈ s.notes

/-- The indirection table of a skipped slice takes nested calls, which must be enough once it
is noted. -/
theorem Closed.readSkippedTable (h : Closed reader I) (hinner : Nested B n inner)
    (hI : ∀ s, I s → SkipNoted s → B.enough n s)
    (hc : ∀ s, I s → ∃ c' cs, s.current = c' :: cs ∧ c'.sliceType = c.sliceType) :
    Spec I (readSkippedTable inner c) (fun table s => (∀ i ∈ table, 0 < i) ∧ I s)
      (Ends B.overrun) := by
  have hnoted :
      Closed reader fun s => I s ∧ (c.sliceType = .valueSlice → .skippedTable ∈ s.notes) :=
    h.and fun _ _ hmem ht hvalue => ht.notes.subset (hmem hvalue)
  have htable := hnoted.readTable hinner fun s hs => hI s hs.1 <| by
    intro c₁ cs₁ hc₁ hvalue
    obtain ⟨c', cs', hc', htype⟩ := hc s hs.1
    rw [hc₁] at hc'
    obtain ⟨rfl, -⟩ := List.cons.inj hc'
    exact hs.2 (htype.symm.trans hvalue)
  have hend (table : List Int) (t : Stream11) (ht : (∀ i ∈ table, 0 < i) ∧ I t ∧
      (c.sliceType = .valueSlice → .skippedTable ∈ t.notes)) : (∀ i ∈ table, 0 < i) ∧ I t :=
    ⟨ht.1, ht.2.1⟩
  apply Spec.ite
  · intro _
    rw [spec_iff_wp]
    intro s hs
    rw [wp_bind, wp_watch]
    constructor
    · intro _
      exact wp_mono (htable _ ⟨h.addNote hs rfl,
        fun _ => List.mem_append_right _ (List.mem_singleton_self _)⟩) hend fun _ _ he => he
    · intro hne
      exact wp_mono (htable s ⟨hs, fun hvalue => absurd hvalue hne⟩) hend fun _ _ he => he
  · intro _
    apply Spec.pure
    intro s hs
    exact ⟨fun i hi => absurd hi not_mem_nil, hs⟩

theorem Framed.preserveSlice (h : Framed reader I) (hinner : Nested B n inner)
    (hI : ∀ s, I s → SkipNoted s → B.enough n s)
    (hc : ∀ s, I s → ∃ c' cs, s.current = c' :: cs ∧ c'.sliceType = c.sliceType)
    (bytes : List Byte) : Reads I (Ends B.overrun) (preserveSlice inner c bytes) := by
  rw [Reads, spec_iff_wp]
  intro s hs
  unfold Decoder11.preserveSlice
  rw [wp_bind, wp_watch]
  constructor
  · intro hempty
    rw [if_pos hempty]
    exact ⟨(h.good s hs).inside, s.not_clean_addNote rfl⟩
  · intro hempty
    rw [if_neg hempty]
    revert s
    rw [← spec_iff_wp]
    apply Spec.bind (h.readSkippedTable hinner hI hc)
    intro table
    apply Spec.of_forall
    rintro s ⟨htable, hs⟩ t rfl
    refine h.modifyCurrent ?_ t hs
    intro c hc
    refine ⟨⟨⟨hc.patches, ?_⟩, hc.size⟩, rfl⟩
    intro p hp i hi
    rcases List.mem_append.mp hp with hp | hp
    · exact hc.tables p hp i hi
    · rw [mem_singleton.mp hp] at hi
      exact htable i hi

/-- The frame on top keeps its type. -/
theorem Framed.typed (h : Framed reader I) (sliceType : SliceType) :
    Framed reader fun s => I s ∧ ∃ c cs, s.current = c :: cs ∧ c.sliceType = sliceType where
  toClosed := by
    apply h.and
    rintro s t ⟨c, cs, hc, htype⟩ ht
    have hshape := ht.shape
    rw [hc, map_cons] at hshape
    obtain ⟨c', cs', hc', hfirst, -⟩ := map_eq_cons_iff.mp hshape
    exact ⟨c', cs', hc', (congrArg Prod.fst hfirst).trans htype⟩
  frame s hs := h.frame s hs.1

theorem Framed.skipSlice (h : Framed reader I) (hinner : Nested B n inner)
    (hI : ∀ s, I s → SkipNoted s → B.enough n s) :
    Reads I (Ends B.overrun) (skipSlice inner) := by
  apply Spec.bind h.theCurrent
  intro c
  apply Spec.of_forall
  rintro s ⟨hs, hsound, cs, hc⟩ t rfl
  have htyped := h.typed c.sliceType
  have hcontent : Reads (fun s => I s ∧ ∃ c' cs, s.current = c' :: cs ∧ c'.sliceType = c.sliceType)
      (Ends B.overrun) (skipContent c) := by
    apply Spec.ite
    · intro hsize
      rw [spec_iff_wp]
      intro s hs
      rw [wp_bind, wp_assert (hsound.size hsize)]
      exact htyped.stable.of_advances (advances_skip _) s hs
    · intro _
      exact Reads.ite (.throwException htyped.stable _) (.throwException htyped.stable _)
  have hpreserve (bytes : List Byte) := htyped.preserveSlice hinner (fun s hs => hI s hs.1)
    (fun _ hs => hs.2) bytes
  have hall : Reads (fun s => I s ∧ ∃ c' cs, s.current = c' :: cs ∧ c'.sliceType = c.sliceType)
      (Ends B.overrun) (MonadState.get >>= fun s => skipContent c >>= fun _ =>
        MonadState.get >>= fun e => Decoder11.preserveSlice inner c (s.rest.take (e.i - s.i))) :=
    .get_bind fun _ => hcontent.bind fun _ => .get_bind fun _ => hpreserve _
  exact wp_mono (hall t ⟨hs, c, cs, hc, rfl⟩) (fun _ _ ht => ht.1) fun _ _ he => he

theorem Closed.lookUpInstances (h : Closed reader I) {table : List Int}
    (htable : ∀ i ∈ table, 0 < i) : Reads I (Ends overrun) (lookUpInstances reader table) := by
  induction table with
  | nil => exact .pure _
  | cons index table ih =>
    obtain ⟨hindex, htable⟩ := List.forall_mem_cons.mp htable
    exact h.quiet.newPointer.bind fun a => (h.addPatchEntry hindex a).bind fun _ =>
      (ih htable).bind fun _ => .pure _

theorem Closed.readSlicedData (h : Closed reader I) {ps : List SkippedSlice}
    (hps : ∀ p ∈ ps, ∀ i ∈ p.indirectionTable, 0 < i) :
    Reads I (Ends overrun) (readSlicedData reader ps) := by
  induction ps with
  | nil => exact .pure _
  | cons p ps ih =>
    obtain ⟨hp, hps⟩ := List.forall_mem_cons.mp hps
    exact (h.lookUpInstances hp).bind fun _ => (ih hps).bind fun _ => .pure _

end

/-- The byte from which the position goes back too far. -/
def Backs (b : List Byte) (p : Nat) : Prop :=
  ∃ v, b[p]? = some v ∧ v.toNat / 8 = 31 ∧ v ≠ OPTIONAL_END_MARKER

/-- Going back stops at `q` at the latest. -/
def Walled (q : Nat) (s : Stream11) : Prop := ∃ p, q ≤ p ∧ p ≤ s.i ∧ ¬Backs s.b p

theorem Walled.le {q : Nat} (h : Walled q s) : q ≤ s.i := by
  obtain ⟨p, hq, hp, -⟩ := h
  exact hq.trans hp

theorem Walled.onward {q : Nat} {t : Stream11} (h : Walled q s) (ht : s.Onward reader t) :
    Walled q t := by
  obtain ⟨p, hq, hp, hb⟩ := h
  refine ⟨p, hq, hp.trans ht.le, ?_⟩
  rw [ht.b]
  exact hb

theorem hasSliceSize_of_backs {v : Byte} (h : v.toNat / 8 = 31) :
    hasFlag v FLAG_HAS_SLICE_SIZE = true := by
  obtain ⟨n, hn, rfl⟩ : ∃ n < 256, v = UInt8.ofNat n :=
    ⟨v.toNat, v.toNat_lt, (UInt8.ofNat_toNat).symm⟩
  rw [UInt8.toNat_ofNat_of_lt' hn] at h
  have hlow : 248 ≤ n := by omega
  interval_cases n <;> decide

theorem getElem?_of_rest {v : Byte} {tail : List Byte} (h : s.rest = v :: tail) :
    s.b[s.i]? = some v := by
  rw [← Nat.add_zero s.i, ← List.getElem?_drop, show s.b.drop s.i = v :: tail from h]
  rfl

theorem toInt_neg {x : Int} (h : 2 ^ 31 ≤ x) (hlt : x < 2 ^ 32) : toInt x < 0 := by
  have hx : toInt x = toInt (x - 2 ^ 32) := by
    unfold toInt
    exact (Int.sub_bmod_right ..).symm
  rw [hx, toInt_of_lt (by omega) (by omega)]
  omega

/-- A size that is not negative has no such byte at its end. -/
theorem not_backs_of_readInt {v : Int} (h : readInt s = .ok v (s.advance 4)) (hv : 0 ≤ v) :
    ¬Backs s.b (s.i + 3) := by
  rintro ⟨x, hx, h31, -⟩
  by_cases hleft : s.left < 4
  · have hread : readBytes 4 s = .error (.exception .unmarshalOutOfBounds) s := by
      unfold readBytes
      rw [if_pos hleft]
    unfold readInt at h
    rw [bind_of_error hread] at h
    contradiction
  have hread : readBytes 4 s = .ok (s.rest.take 4) (s.advance 4) := by
    unfold readBytes
    rw [if_neg hleft]
  unfold readInt at h
  rw [bind_of_ok hread] at h
  obtain ⟨rfl, -⟩ := EStateM.Result.ok.inj h
  have hlast : s.rest[3]? = some x := by
    unfold InputStream.rest
    rw [List.getElem?_drop]
    exact hx
  match hrest : s.rest with
  | [] | [_] | [_, _] | [_, _, _] =>
    rw [hrest] at hlast
    simp at hlast
  | a :: b :: c :: d :: tail =>
    rw [hrest] at hlast hv
    obtain rfl : d = x := by simpa using hlast
    have ha := a.toNat_lt
    have hb := b.toNat_lt
    have hc := c.toNat_lt
    have hd := d.toNat_lt
    have hneg : toInt (leNat [a, b, c, d]) < 0 := by
      apply toInt_neg
      · simp only [leNat]
        omega
      · simp only [leNat]
        omega
    simp only [List.take_succ_cons, List.take_zero] at hv
    omega

/-- Within the header of the slice that begins at `s`; its frame is `c₀` there. -/
structure Header (reader : Reader) (s : Stream11) (c₀ : InstanceData) (cs : List InstanceData)
    (F : InstanceData → Prop) (t : Stream11) : Prop extends s.Spans t where
  core : t.Core reader
  lt : s.i < t.i
  depth : t.decoder.classGraphDepth = s.decoder.classGraphDepth
  top : ∃ c, t.current = c :: cs ∧ c.Tables ∧ c.shape = c₀.shape ∧ F c

namespace Header

variable {s : Stream11} {c₀ : InstanceData} {cs : List InstanceData}
  {F G : InstanceData → Prop}

theorem quiet : Quiet (Header reader s c₀ cs F) where
  inside t ht := ht.core.inside
  clean t ht := ht.core.clean
  before t u ht hb := by
    refine ⟨⟨hb.b.trans ht.b, hb.encaps.trans ht.encaps, ?_⟩, ht.core.before hb,
      ht.lt.trans_le hb.le, ?_, ?_⟩
    · rw [hb.notes]
      exact ht.notes
    · rw [hb.decoder]
      exact ht.depth
    · unfold InputStream.current
      rw [hb.decoder]
      exact ht.top
  resolves t u ht hr := by
    refine ⟨⟨hr.b.trans ht.b, hr.encaps.trans ht.encaps, ht.notes.trans hr.notes⟩,
      ht.core.resolves hr, ?_, hr.decoder.classGraphDepth.trans ht.depth, ?_⟩
    · rw [hr.i]
      exact ht.lt
    · unfold InputStream.current
      rw [hr.decoder.derived]
      exact ht.top

theorem modifyCurrent
    (hf : ∀ c, c.Tables → F c → (f c).Tables ∧ (f c).shape = c.shape ∧ G (f c)) :
    Spec (Header reader s c₀ cs F) (modifyCurrent f) (fun _ => Header reader s c₀ cs G)
      (Ends overrun) := by
  rw [spec_iff_wp]
  intro t ht
  obtain ⟨c, hc, htables, hshape, hF⟩ := ht.top
  obtain ⟨htables', hshape', hG⟩ := hf c htables hF
  rw [wp_modifyCurrent hc]
  exact ⟨⟨ht.b, ht.encaps, ht.notes⟩, ht.core.withCurrent _, ht.lt, ht.depth,
    f c, rfl, htables', hshape'.trans hshape, hG⟩

theorem readSliceTypeId (flags : Byte) (sliceType : SliceType) :
    Reads (Header reader s c₀ cs fun c => c.sliceFlags = flags) (Ends overrun)
      (readSliceTypeId sliceType flags) := by
  have hquiet : Quiet (Header reader s c₀ cs fun c => c.sliceFlags = flags) := quiet
  have hstable : Stable (Header reader s c₀ cs fun c => c.sliceFlags = flags) (Ends overrun) :=
    hquiet.stable
  have hmodify (f : InstanceData → InstanceData)
      (hf : ∀ c, (f c).sliceFlags = c.sliceFlags ∧ (f c).shape = c.shape ∧
        (f c).indirectPatchList = c.indirectPatchList ∧ (f c).slices = c.slices) :
      Reads (Header reader s c₀ cs fun c => c.sliceFlags = flags) (Ends overrun)
        (Decoder11.modifyCurrent f) := by
    apply modifyCurrent
    intro c htables hflags
    obtain ⟨h₁, h₂, h₃, h₄⟩ := hf c
    refine ⟨⟨?_, ?_⟩, h₂, h₁.trans hflags⟩
    · rw [h₃]
      exact htables.patches
    · rw [h₄]
      exact htables.tables
  apply Reads.ite
  · apply Reads.ite
    · exact (hstable.of_advances advances_readSize).bind fun _ => hmodify _ fun _ =>
        ⟨rfl, rfl, rfl, rfl⟩
    · apply Reads.ite
      · exact (hquiet.readTypeId hstable _).bind fun _ => hmodify _ fun _ => ⟨rfl, rfl, rfl, rfl⟩
      · exact hmodify _ fun _ => ⟨rfl, rfl, rfl, rfl⟩
  · exact (hstable.of_advances advances_readString).bind fun _ => hmodify _ fun _ =>
      ⟨rfl, rfl, rfl, rfl⟩

/-- The end of a header, where the stream is in order again. -/
theorem onward {t : Stream11} (h : Header reader s c₀ cs InstanceData.Sound t)
    (hs : s.Good reader) (hc₀ : s.current = c₀ :: cs) : s.Onward reader t := by
  obtain ⟨c, hc, -, hshape, hsound⟩ := h.top
  refine ⟨h.toSpans, ⟨h.core, ?_⟩, h.lt.le, h.depth, ?_⟩
  · intro d hd
    rw [hc] at hd
    rcases mem_cons.mp hd with rfl | hd
    · exact hsound
    · apply hs.frames d
      rw [hc₀]
      exact List.mem_cons_of_mem _ hd
  · rw [hc, hc₀, map_cons, map_cons, hshape]

end Header

/-- A header takes at least a byte, and nothing goes back behind it. -/
theorem wp_readSliceHeader (hs : s.Good reader) (hne : s.current ≠ []) :
    wp readSliceHeader (fun _ t => s.Onward reader t ∧ s.i < t.i ∧ Walled s.i t)
      (Ends overrun) s := by
  obtain ⟨c₀, cs, hc₀⟩ := List.exists_cons_of_ne_nil hne
  have hsound : c₀.Sound := hs.frames c₀ (hc₀ ▸ mem_cons_self ..)
  unfold readSliceHeader
  rw [wp_bind]
  apply wp_readByte ⟨hs.inside, hs.clean⟩
  intro flags tail hflags
  have hone := InputStream.one_le_left hflags
  have hbefore : s.Before (s.advance 1) := InputStream.before_advance hs.inside (not_lt.mpr hone)
  have hc₁ : (s.advance 1).current = c₀ :: cs := hc₀
  rw [wp_bind, wp_modifyCurrent hc₁, wp_bind, wp_theCurrent rfl, wp_bind]
  have hstart : Header reader s c₀ cs (fun c => c.sliceFlags = flags)
      ((s.advance 1).withCurrent ({ c₀ with sliceFlags := flags } :: cs)) :=
    ⟨⟨rfl, rfl, prefix_rfl⟩, (hs.toCore.before hbefore).withCurrent _, Nat.lt_succ_self _,
      rfl, _, rfl, ⟨hsound.patches, hsound.tables⟩, rfl, rfl⟩
  apply wp_mono (Header.readSliceTypeId flags _ _ hstart)
  · intro _ t ht
    unfold readSliceSize
    rw [wp_ite]
    constructor
    · intro hsize
      rw [wp_bind]
      rcases readInt_cases t with hread | ⟨hleft, sliceSize, hread⟩
      · rw [wp_of_error hread]
        exact ⟨ht.core.inside, ht.core.clean⟩
      · rw [wp_of_ok hread, wp_bind]
        have hnext := Header.quiet.before t _ ht (InputStream.before_advance ht.core.inside hleft)
        obtain ⟨c, hc, htables, hshape, hF⟩ := hnext.top
        rw [wp_modifyCurrent hc, wp_ite]
        have hcore := hnext.core.withCurrent ({ c with sliceSize := sliceSize } :: cs)
        constructor
        · intro _
          exact ⟨hcore.inside, hcore.clean⟩
        · intro hlarge
          have hend : Header reader s c₀ cs InstanceData.Sound
              ((t.advance 4).withCurrent ({ c with sliceSize := sliceSize } :: cs)) :=
            ⟨⟨hnext.b, hnext.encaps, hnext.notes⟩, hcore, hnext.lt, hnext.depth, _, rfl,
              ⟨htables.patches, htables.tables⟩, hshape,
              ⟨⟨htables.patches, htables.tables⟩, fun _ => not_lt.mp hlarge⟩⟩
          refine ⟨hend.onward hs hc₀, hnext.lt, t.i + 3, ?_, ?_,
            not_backs_of_readInt hread (by omega)⟩
          · have := ht.lt
            omega
          · exact Nat.le_succ (t.i + 3)
    · intro hsize
      obtain ⟨c, hc, htables, hshape, hF⟩ := ht.top
      rw [wp_modifyCurrent hc]
      have hend : Header reader s c₀ cs InstanceData.Sound
          (t.withCurrent ({ c with sliceSize := 0 } :: cs)) := by
        refine ⟨⟨ht.b, ht.encaps, ht.notes⟩, ht.core.withCurrent _, ht.lt, ht.depth, _, rfl,
          ⟨htables.patches, htables.tables⟩, hshape, ⟨⟨htables.patches, htables.tables⟩, ?_⟩⟩
        intro hflag
        rw [show c.sliceFlags = flags from hF] at hflag
        exact absurd hflag hsize
      refine ⟨hend.onward hs hc₀, ht.lt, s.i, le_rfl, ht.lt.le, ?_⟩
      rintro ⟨v, hv, h31, -⟩
      change t.b[s.i]? = some v at hv
      rw [ht.b, getElem?_of_rest hflags] at hv
      obtain rfl := Option.some.inj hv
      exact hsize (hasSliceSize_of_backs h31)
  · intro e t he
    exact he

section

variable {B : Budget reader} {n : Nat} {inner : Int → Option Address → Read11 Int}
  {I : Stream11 → Prop}

/-- A slice begins wherever the marks for first slices are of no concern. -/
theorem Framed.startSlice (h : Framed reader I)
    (hskip : ∀ s c cs b, I s → s.current = c :: cs →
      I (s.withCurrent ({ c with skipFirstSlice := b } :: cs))) :
    Reads I (Ends overrun) startSlice := by
  rw [Reads, spec_iff_wp]
  intro s hs
  obtain ⟨c, cs, hc, -⟩ := h.exists_cons hs
  unfold Decoder11.startSlice
  rw [wp_bind, wp_theCurrent hc, wp_ite]
  constructor
  · intro _
    rw [wp_modifyCurrent hc]
    exact hskip s c cs false hs hc
  · intro _
    apply wp_mono (wp_readSliceHeader (h.good s hs) (h.frame s hs))
    · intro _ t ht
      exact h.onward s t hs ht.1
    · intro e t he
      exact he

variable {s t : Stream11}

theorem wp_endInstance (hs : s.Good reader) (hne : s.current ≠ []) (preserve : Bool) :
    wp (endInstance reader preserve)
      (fun _ t => ∃ u, s.Onward reader u ∧ t = u.withCurrent u.current.tail) (Ends overrun) s := by
  obtain ⟨c, cs, hc⟩ := List.exists_cons_of_ne_nil hne
  have hsound : c.Sound := hs.frames c (hc ▸ mem_cons_self ..)
  have hdata : Reads (s.Onward reader) (Ends overrun) (readSlicedData reader c.slices) :=
    (Closed.onward_of s).readSlicedData hsound.tables
  unfold endInstance
  rw [wp_bind, wp_theCurrent hc, wp_ite]
  constructor
  · intro _
    rw [wp_bind]
    apply wp_mono (hdata s (.refl hs))
    · intro _ u hu
      exact ⟨u, hu, rfl⟩
    · intro e t he
      exact he
  · intro _
    exact ⟨s, .refl hs, rfl⟩

theorem Framed.readSlices (h : Framed reader I) (hinner : Nested B n inner)
    (hI : ∀ s, I s → B.enough n s) (hr : Rewinds I (Ends B.overrun))
    (hskip : ∀ s c cs b, I s → s.current = c :: cs →
      I (s.withCurrent ({ c with skipFirstSlice := b } :: cs)))
    {addSlice : Slice Address → Read11 Unit} (hadd : ∀ x, Reads I (Ends B.overrun) (addSlice x))
    (ds : List SliceDef) :
    Reads I (Ends B.overrun) (readSlices reader inner addSlice ds) := by
  have href := h.readReference hinner hI
  induction ds with
  | nil => exact .pure _
  | cons d ds ih =>
    exact (h.startSlice hskip).bind fun _ => (h.stable.readMembers href d.members).bind fun _ =>
      (h.stable.readOptionals (h.readOptional hinner hI hr) href d.optionals).bind fun _ =>
        (h.endSlice hinner hI).bind fun _ => (hadd _).bind fun _ => ih

/-- Within the slices of an instance whose frame lies on `cs`. -/
structure Slices (reader : Reader) (s : Stream11) (sliceType : SliceType)
    (cs : List InstanceData) (t : Stream11) : Prop extends s.Spans t where
  good : t.Good reader
  depth : t.decoder.classGraphDepth = s.decoder.classGraphDepth
  top : ∃ c cs', t.current = c :: cs' ∧ c.sliceType = sliceType ∧
    cs'.map InstanceData.shape = cs.map InstanceData.shape

namespace Slices

variable {s : Stream11} {sliceType : SliceType} {cs : List InstanceData} {q : Nat}

theorem framed (q : Nat) :
    Framed reader fun t => Slices reader s sliceType cs t ∧ Walled q t where
  good t ht := ht.1.good
  onward t u ht hu := by
    refine ⟨⟨ht.1.toSpans.trans hu.toSpans, hu.good, hu.depth.trans ht.1.depth, ?_⟩,
      ht.2.onward hu⟩
    obtain ⟨c, cs', hc, htype, hcs⟩ := ht.1.top
    have hshape := hu.shape
    rw [hc, map_cons] at hshape
    obtain ⟨c', cs'', hc', hfirst, hrest⟩ := map_eq_cons_iff.mp hshape
    exact ⟨c', cs'', hc', (congrArg Prod.fst hfirst).trans htype, hrest.trans hcs⟩
  frame t ht := by
    obtain ⟨c, cs', hc, -⟩ := ht.1.top
    rw [hc]
    exact cons_ne_nil c cs'

theorem skip (t : Stream11) (c : InstanceData) (cs' : List InstanceData) (b : Bool)
    (ht : Slices reader s sliceType cs t ∧ Walled q t) (hc : t.current = c :: cs') :
    Slices reader s sliceType cs (t.withCurrent ({ c with skipFirstSlice := b } :: cs')) ∧
      Walled q (t.withCurrent ({ c with skipFirstSlice := b } :: cs')) := by
  obtain ⟨ht, hwall⟩ := ht
  have hsound : c.Sound := ht.good.frames c (hc ▸ mem_cons_self ..)
  obtain ⟨c', cs'', hc', htype, hcs⟩ := ht.top
  rw [hc] at hc'
  obtain ⟨rfl, rfl⟩ := List.cons.inj hc'
  refine ⟨⟨⟨ht.b, ht.encaps, ht.notes⟩, ⟨ht.good.toCore.withCurrent _, ?_⟩, ht.depth, _, _, rfl,
    htype, hcs⟩, hwall⟩
  intro d hd
  rcases mem_cons.mp hd with rfl | hd
  · exact ⟨⟨hsound.patches, hsound.tables⟩, hsound.size⟩
  · apply ht.good.frames d
    rw [hc]
    exact List.mem_cons_of_mem _ hd

theorem rewinds : Rewinds (fun t => Slices reader s sliceType cs t ∧ Walled q t)
    (Ends overrun) where
  back t v tail ht hv h31 hend hi := by
    obtain ⟨ht, p, hq, hp, hback⟩ := ht
    have hne : p ≠ t.i := by
      rintro rfl
      exact hback ⟨v, getElem?_of_rest hv, h31, hend⟩
    have hinside := ht.good.inside
    refine ⟨⟨⟨ht.b, ht.encaps, ht.notes⟩, ⟨⟨?_, ht.good.clean, ht.good.sound, ht.good.valueIds⟩,
      ht.good.frames⟩, ht.depth, ht.top⟩, p, hq, ?_, hback⟩
    · change t.i - 1 ≤ t.b.length
      omega
    · change p ≤ t.i - 1
      omega
  outside t v tail ht hv h31 hend hi := by
    obtain ⟨ht, p, hq, hp, hback⟩ := ht
    obtain rfl : p = t.i := by omega
    exact absurd ⟨v, getElem?_of_rest hv, h31, hend⟩ hback

end Slices

/-- The slices of an instance or an exception. Its frame is taken off the stack. -/
theorem wp_readSliced {cs : List InstanceData} {q : Nat}
    {sliceType : SliceType} (hinner : Nested B n inner) (hs : s.Good reader)
    (hc : s.current = c :: cs) (htype : c.sliceType = sliceType) (hwall : Walled q s)
    (hwithin : B.within n s) (v : Instance) (cls : ClassDef) :
    wp (readSliced reader inner sliceType v cls)
      (fun _ t => s.Spans t ∧ t.Good reader ∧ q ≤ t.i ∧
        t.decoder.classGraphDepth = s.decoder.classGraphDepth ∧
        t.current.map InstanceData.shape = cs.map InstanceData.shape) (Ends B.overrun) s := by
  have hframed : Framed reader fun t => Slices reader s sliceType cs t ∧ Walled q t :=
    Slices.framed q
  have henough (t : Stream11) (ht : Slices reader s sliceType cs t ∧ Walled q t) :
      B.enough n t :=
    B.enough_of_within n t (B.within_spans n s t hwithin ht.1.toSpans ht.1.depth)
  have hadd (x : Slice Address) : Reads (fun t => Slices reader s sliceType cs t ∧ Walled q t)
      (Ends B.overrun) (modifyDecoder (·.addSlice v x)) :=
    hframed.quiet.modifyDecoder fun _ => ⟨rfl, rfl, rfl⟩
  have hslices := hframed.readSlices hinner henough Slices.rewinds Slices.skip hadd cls.slices
  have hstart : Slices reader s sliceType cs s ∧ Walled q s :=
    ⟨⟨.refl, hs, rfl, c, cs, hc, htype, rfl⟩, hwall⟩
  unfold readSliced startInstance
  rw [wp_bind, wp_bind, wp_theCurrent hc, wp_bind, wp_assert htype, wp_modifyCurrent hc, wp_bind]
  apply wp_mono (hslices _ (Slices.skip s c cs true hstart hc))
  · intro _ t ht
    rw [wp_bind]
    apply wp_mono (wp_endInstance ht.1.good (hframed.frame t ht) _)
    · rintro _ _ ⟨u, hu, rfl⟩
      have hu' := hframed.onward t u ht hu
      obtain ⟨c', cs', hc', -, hcs⟩ := hu'.1.top
      refine ⟨⟨hu'.1.b, hu'.1.encaps, hu'.1.notes⟩,
        ⟨⟨hu'.1.good.inside, hu'.1.good.clean, hu'.1.good.sound, hu'.1.good.valueIds⟩, ?_⟩,
        hu'.2.le, hu'.1.depth, ?_⟩
      · intro d hd
        exact hu'.1.good.frames d (List.mem_of_mem_tail hd)
      · change u.current.tail.map InstanceData.shape = _
        rw [hc']
        exact hcs
    · intro e t he
      exact he
  · intro e t he
    exact he

theorem Framed.resolveTypeId (h : Framed reader I) :
    Reads I (Ends overrun) (resolveTypeId reader) := by
  apply Reads.bind
  · apply h.modifyCurrent
    intro c hc
    split
    · exact ⟨⟨⟨hc.patches, hc.tables⟩, hc.size⟩, rfl⟩
    · exact ⟨hc, rfl⟩
  · intro _
    exact h.theCurrent_bind fun c _ => .pure _

/-- Another header leaves less to read. -/
theorem Framed.startSlice_left (h : Framed reader I)
    (hfirst : ∀ s, I s → ∃ c cs, s.current = c :: cs ∧ c.skipFirstSlice = false) (k : Nat) :
    Spec (fun s => I s ∧ s.left ≤ k) Decoder11.startSlice (fun _ s => I s ∧ s.left < k)
      (Ends overrun) := by
  rw [spec_iff_wp]
  rintro s ⟨hs, hleft⟩
  obtain ⟨c, cs, hc, hfalse⟩ := hfirst s hs
  unfold Decoder11.startSlice
  rw [wp_bind, wp_theCurrent hc, hfalse]
  apply wp_mono (wp_readSliceHeader (h.good s hs) (h.frame s hs))
  · rintro _ t ⟨ht, hlt, -⟩
    refine ⟨h.onward s t hs ht, ?_⟩
    have hinside := ht.good.inside
    have hb := ht.b
    unfold InputStream.left at *
    rw [hb] at hinside ⊢
    omega
  · intro e t he
    exact he

/-- The slices up to one with a factory are skipped. -/
theorem Framed.findFactory (h : Framed reader I) (hinner : Nested B n inner)
    (hI : ∀ s, I s → reader.sliceValues = true → SkipNoted s → B.enough n s)
    (hfirst : ∀ s, I s → ∃ c cs, s.current = c :: cs ∧ c.skipFirstSlice = false)
    (mostDerivedId : List Byte) (m k : Nat) (hk : k < m) :
    Reads (fun s => I s ∧ s.left ≤ k) (Ends B.overrun)
      (findFactory reader inner mostDerivedId m) := by
  have hleft : Framed reader fun s => I s ∧ s.left ≤ k :=
    ⟨h.and (Closed.left_le k), fun s hs => h.frame s hs.1⟩
  induction m generalizing k with
  | zero => omega
  | succ m ih =>
    have hskip (hslice : reader.sliceValues = true) :=
      hleft.skipSlice hinner fun s hs => hI s hs.1 hslice
    have hmake (id : Option (List Byte)) (cls : Option ClassDef) :
        Reads (fun s => I s ∧ s.left ≤ k) (Ends B.overrun)
          (make id >>= fun v => pure (v, cls)) := (hleft.quiet.make id).bind fun _ => .pure _
    have hnext : Reads (fun s => I s ∧ s.left ≤ k) (Ends B.overrun)
        (Decoder11.startSlice >>= fun _ => Decoder11.findFactory reader inner mostDerivedId m) := by
      apply Spec.bind (h.startSlice_left hfirst k)
      intro _
      rw [spec_iff_wp]
      rintro s ⟨hs, hlt⟩
      have hrest := ih (k - 1) (by omega)
        ⟨h.and (Closed.left_le (k - 1)), fun s hs => h.frame s hs.1⟩ s ⟨hs, by omega⟩
      exact wp_mono hrest (fun _ t ht => ⟨ht.1, by omega⟩) fun _ _ he => he
    apply hleft.resolveTypeId.bind
    intro typeId
    cases (if typeId = [] then none else reader.newInstance typeId) with
    | some cls => exact hmake _ _
    | none =>
      apply Spec.ite
      · intro _ s hs
        exact ⟨(hleft.good s hs).inside, (hleft.good s hs).clean⟩
      · intro hslice
        apply (hskip (by simpa using hslice)).bind
        intro _
        apply hleft.theCurrent_bind
        intro c _
        apply Reads.ite _ hnext
        cases reader.newInstance objectId with
        | none => exact hmake _ _
        | some cls => exact hmake _ _

/-- The stream where a call has pushed its frame and taken the index of its instance. -/
def pushed (s : Stream11) : Stream11 :=
  { s with decoder := { s.decoder with derived :=
    ⟨⟨.valueSlice, false, [], 0, 0, [], -1, []⟩ :: s.current,
      s.decoder.derived.valueIdIndex + 1⟩ } }

theorem good_pushed (hs : s.Good reader) : (pushed s).Good reader where
  inside := hs.inside
  clean := hs.clean
  sound := hs.sound
  valueIds := by
    have := hs.valueIds
    change 1 ≤ s.decoder.derived.valueIdIndex + 1
    omega
  frames := by
    intro c hc
    rcases mem_cons.mp hc with rfl | hc
    · refine ⟨⟨fun _ he => absurd he not_mem_nil, fun _ hp => absurd hp not_mem_nil⟩, ?_⟩
      intro hflag
      exact absurd hflag (by decide)
    · exact hs.frames c hc

/-- The members of the instance that a call at `s` reads have been read in `t`. -/
structure MembersRead (reader : Reader) (s t : Stream11) : Prop extends s.Spans t where
  good : t.Good reader
  le : s.i ≤ t.i
  depth : t.decoder.classGraphDepth = s.decoder.classGraphDepth + 1
  shape : t.current.map InstanceData.shape = s.current.map InstanceData.shape

variable {d : EncapsDecoder Decoder11}

theorem good_of_derived (hs : s.Good reader)
    (hsound : d.Sound reader) (hd : d.derived = s.decoder.derived) :
    ({ s with decoder := d } : Stream11).Good reader where
  inside := hs.inside
  clean := hs.clean
  sound := hsound
  valueIds := by
    change 1 ≤ d.derived.valueIdIndex
    rw [hd]
    exact hs.valueIds
  frames := by
    change ∀ c ∈ d.derived.current, c.Sound
    rw [hd]
    exact hs.frames

theorem MembersRead.alike (ht : MembersRead reader s t)
    (hd : t.decoder.Alike reader d) : MembersRead reader s { t with decoder := d } := by
  refine ⟨⟨ht.b, ht.encaps, ht.notes⟩,
    good_of_derived ht.good (hd.sound ht.good.sound) hd.derived, ht.le,
    hd.classGraphDepth.trans ht.depth, ?_⟩
  change d.derived.current.map _ = _
  rw [hd.derived]
  exact ht.shape

section

variable (hinner : Nested B n inner)

include hinner

/-- Where the members begin, the frame of the instance lies on those of the caller. -/
theorem wp_unmarshal_iceRead (henough : B.enough (n + 1) s)
    (ht : (pushed s).Onward reader t) (hwall : Walled s.i t)
    (hdepth : t.decoder.classGraphDepth + 1 ≤ reader.classGraphDepthMax) (index : Int)
    (v : Instance) (cls : Option ClassDef) :
    wp (unmarshal reader index v (iceRead reader inner v cls)) (fun _ => MembersRead reader s)
      (Ends B.overrun)
      { t with decoder := { t.decoder with
        classGraphDepth := t.decoder.classGraphDepth + 1 } } := by
  have hshape := ht.shape
  change t.current.map _ = (SliceType.valueSlice, false) :: s.current.map _ at hshape
  obtain ⟨c, cs, hc, hfirst, hcs⟩ := map_eq_cons_iff.mp hshape
  have htype : c.sliceType = .valueSlice := congrArg Prod.fst hfirst
  have hdeeper : t.decoder.classGraphDepth = s.decoder.classGraphDepth := ht.depth
  apply wp_unmarshal
  · exact ht.good.inside
  · intro u d hu hd
    exact hu.alike hd
  intro d hd
  have hgood : ({ t with decoder := d } : Stream11).Good reader :=
    good_of_derived ht.good (hd.sound ht.good.sound) hd.derived
  have hcurrent : ({ t with decoder := d } : Stream11).current = c :: cs := by
    change d.derived.current = _
    rw [hd.derived]
    exact hc
  have hspans : s.Spans { t with decoder := d } := ⟨ht.b, ht.encaps, ht.notes⟩
  have hd' : d.classGraphDepth = t.decoder.classGraphDepth + 1 := hd.classGraphDepth
  have hwithin := B.enter n s _ henough hspans (hd'.trans (by rw [hdeeper])) (hd' ▸ hdepth)
  apply wp_mono (wp_readSliced hinner hgood hcurrent htype hwall hwithin v _)
  · rintro _ u ⟨hspans', hgood', hle, hu, hsh⟩
    exact ⟨hspans.trans hspans', hgood', hle, hu.trans (hd'.trans (by rw [hdeeper])),
      hsh.trans hcs⟩
  · intro e u he
    exact he

theorem wp_readMembersOf (henough : B.enough (n + 1) s)
    (ht : (pushed s).Onward reader t) (hwall : Walled s.i t) (index : Int) (v : Instance)
    (cls : Option ClassDef) :
    wp (readMembersOf reader inner index v cls) (fun _ u => s.Onward reader u)
      (Ends B.overrun) t := by
  unfold readMembersOf
  rw [wp_bind, wp_modifyDecoder, wp_bind, wp_getDecoder, wp_ite]
  constructor
  · intro _
    exact ⟨ht.good.inside, ht.good.clean⟩
  intro hdepth
  rw [wp_bind]
  apply wp_mono (wp_unmarshal_iceRead hinner henough ht hwall (not_lt.mp hdepth) index v cls)
  · intro _ u hu
    rw [wp_bind, wp_modifyDecoder, wp_bind, wp_getDecoder, wp_ite]
    constructor
    · intro _
      exact ⟨hu.good.inside, hu.good.clean⟩
    · intro _
      refine ⟨⟨hu.b, hu.encaps, hu.notes⟩,
        ⟨⟨hu.good.inside, hu.good.clean, hu.good.sound, hu.good.valueIds⟩, hu.good.frames⟩,
        hu.le, ?_, hu.shape⟩
      change u.decoder.classGraphDepth - 1 = _
      rw [hu.depth]
      rfl
  · intro e u he
    exact he

/-- An instance that follows ends where the caller may go on. -/
theorem wp_readInlineInstance (hs : s.Good reader)
    (henough : B.enough (n + 1) s) :
    wp (readInlineInstance reader inner) (fun r t => 0 < r.1 ∧ s.Onward reader t)
      (Ends B.overrun) s := by
  have hgood := good_pushed hs
  unfold readInlineInstance push
  rw [wp_bind, wp_modifyDecoder, wp_bind, wp_modifyDecoder, wp_bind, wp_getDecoder]
  change wp _ _ _ (pushed s)
  rw [wp_bind]
  unfold startSlice
  have hcurrent :
      (pushed s).current = ⟨.valueSlice, false, [], 0, 0, [], -1, []⟩ :: s.current := rfl
  rw [wp_bind, wp_theCurrent hcurrent, if_neg Bool.false_ne_true]
  apply wp_mono (wp_readSliceHeader hgood (cons_ne_nil _ _))
  · rintro _ t ⟨ht, hlt, hwall⟩
    have hframed :
        Framed reader fun u => (pushed s).Onward reader u ∧ s.i < u.i ∧ Walled s.i u := by
      refine ⟨⟨fun u hu => hu.1.good, ?_⟩, ?_⟩
      · rintro u w ⟨hu, hi, hw⟩ huw
        exact ⟨hu.trans huw, hi.trans_le huw.le, hw.onward huw⟩
      · rintro u ⟨hu, -⟩ hnil
        have hshape := hu.shape
        rw [hnil] at hshape
        contradiction
    have hfirst (u : Stream11) (hu : (pushed s).Onward reader u ∧ s.i < u.i ∧ Walled s.i u) :
        ∃ c cs, u.current = c :: cs ∧ c.skipFirstSlice = false := by
      obtain ⟨c, cs, hc, htop, -⟩ := map_eq_cons_iff.mp
        (show u.current.map InstanceData.shape = (SliceType.valueSlice, false) :: _ from hu.1.shape)
      exact ⟨c, cs, hc, congrArg Prod.snd htop⟩
    have hskip (u : Stream11) (hu : (pushed s).Onward reader u ∧ s.i < u.i ∧ Walled s.i u)
        (hslice : reader.sliceValues = true) (hnoted : SkipNoted u) : B.enough n u := by
      obtain ⟨c, cs, hc, htop, -⟩ := map_eq_cons_iff.mp
        (show u.current.map InstanceData.shape = (SliceType.valueSlice, false) :: _ from hu.1.shape)
      exact B.skip n s u hslice henough ⟨hu.1.b, hu.1.encaps, hu.1.notes⟩ hu.1.depth
        hu.1.good.inside hu.2.1 (hnoted c cs hc (congrArg Prod.fst htop))
    obtain ⟨c, cs, hc, -⟩ := hfirst t ⟨ht, hlt, hwall⟩
    rw [wp_bind, wp_theCurrent hc, wp_bind, wp_get, wp_bind]
    have hfind := hframed.findFactory hinner hskip hfirst c.typeId (t.left + 1) t.left
      (Nat.lt_succ_self _) t ⟨⟨ht, hlt, hwall⟩, le_rfl⟩
    apply wp_mono hfind
    · rintro found u ⟨⟨hu, -, hwall'⟩, -⟩
      rw [wp_bind]
      apply wp_mono (wp_readMembersOf hinner henough hu hwall' _ found.1 found.2)
      · intro _ w hw
        refine ⟨?_, hw⟩
        have := hs.valueIds
        change 0 < s.decoder.derived.valueIdIndex + 1
        omega
      · intro e w he
        exact he
    · intro e u he
      exact he
  · intro e t he
    exact he

/-- One call more may be active where the inner ones are nested. -/
theorem Nested.succ : Nested B (n + 1) (readInstanceWith reader inner) where
  zero address s hs _ := ⟨hs.inside, s.not_clean_addNote rfl⟩
  positive index address s hindex hs henough := by
    unfold readInstanceWith
    rw [wp_bind, wp_assert hindex, wp_ite]
    have hquiet : Quiet (s.Onward reader) := (Closed.onward_of s).quiet
    constructor
    · intro _
      cases address with
      | none => exact ⟨hindex, .refl hs⟩
      | some a =>
        dsimp only
        rw [wp_bind]
        apply wp_mono (wp_addPatchEntry hs.inside hs.clean hs.sound hindex a)
        · intro _ t ht
          exact ⟨hindex, hs.resolves ht⟩
        · intro e t he
          exact he
    · intro _
      rw [wp_bind]
      apply wp_mono (wp_readInlineInstance hinner hs henough)
      · rintro r t ⟨hr, ht⟩
        cases address with
        | none => exact ⟨hr, ht⟩
        | some a =>
          dsimp only
          rw [wp_bind, wp_modifyDecoder]
          have hagrees : t.decoder.Agrees (t.decoder.patch a (some r.2)) := ⟨rfl, rfl, rfl⟩
          exact ⟨hr, hquiet.resolves t _ ht hagrees.resolves⟩
      · intro e t he
        exact he

end

end

/-- Outside all instances. -/
structure Outermost (reader : Reader) (s t : Stream11) : Prop extends s.Spans t where
  good : t.Good reader
  depth : t.decoder.classGraphDepth = s.decoder.classGraphDepth
  current : t.current = []

theorem Outermost.closed (s : Stream11) : Closed reader (Outermost reader s) where
  good _ ht := ht.good
  onward t u ht hu := by
    refine ⟨ht.toSpans.trans hu.toSpans, hu.good, hu.depth.trans ht.depth, ?_⟩
    have hshape := hu.shape
    rw [ht.current] at hshape
    exact List.map_eq_nil_iff.mp hshape

theorem Outermost.rewinds (s : Stream11) : Rewinds (Outermost reader s) (Ends overrun) where
  back t v tail ht _ _ _ hi := by
    have hinside := ht.good.inside
    refine ⟨⟨ht.b, ht.encaps, ht.notes⟩, ⟨⟨?_, ht.good.clean, ht.good.sound, ht.good.valueIds⟩,
      ht.good.frames⟩, ht.depth, ht.current⟩
    change t.i - 1 ≤ t.b.length
    omega
  outside t v tail ht hv _ _ _ := by
    have hone := InputStream.one_le_left hv
    refine ⟨?_, (t.advance 1).not_clean_addNote rfl⟩
    change t.i + 1 ≤ t.b.length
    unfold InputStream.left at hone
    omega

section

variable {B : Budget reader} {n : Nat}

variable {s : Stream11}

/-- In the frame of an exception that has no other below it. -/
structure InException (reader : Reader) (q : Nat) (s t : Stream11) : Prop extends s.Spans t where
  good : t.Good reader
  depth : t.decoder.classGraphDepth = s.decoder.classGraphDepth
  wall : Walled q t
  shape : t.current.map InstanceData.shape = [(.exceptionSlice, false)]

namespace InException

variable {q : Nat} {s : Stream11}

theorem top {t : Stream11} (ht : InException reader q s t) :
    ∃ c, t.current = [c] ∧ c.sliceType = .exceptionSlice ∧ c.skipFirstSlice = false := by
  obtain ⟨c, cs, hc, hfirst, hcs⟩ := map_eq_cons_iff.mp ht.shape
  rw [List.map_eq_nil_iff] at hcs
  rw [hcs] at hc
  exact ⟨c, hc, congrArg Prod.fst hfirst, congrArg Prod.snd hfirst⟩

theorem framed : Framed reader (InException reader q s) where
  good _ ht := ht.good
  onward t u ht hu := ⟨ht.toSpans.trans hu.toSpans, hu.good, hu.depth.trans ht.depth,
    ht.wall.onward hu, hu.shape.trans ht.shape⟩
  frame t ht := by
    obtain ⟨c, hc, -⟩ := ht.top
    rw [hc]
    exact cons_ne_nil c []

theorem enough (hwithin : B.within n s) (t : Stream11) (ht : InException reader q s t) :
    B.enough n t :=
  B.enough_of_within n t (B.within_spans n s t hwithin ht.toSpans ht.depth)

end InException

end

end Decoder11

end Ice.Streams
