import Ice.Streams.Decoder10
import Ice.Streams.Stable

/-!
# How decoding may end

The requests that a decoder must not carry out are noted by a condition on their arguments and
the state before them, whatever comes of them. `Ends` ties the two: an exception ends a decoding
that has made none of them, an assertion, a null pointer or a position outside the buffer one
that has. What both decoders share keeps their maps in order.
-/

namespace Ice.Streams

open Lib

/-- The requests that must not be carried out. -/
def Note.hostile : Note → Bool
  | .overlong | .noCommunicator | .zeroIndex | .leastId | .emptyOptionals | .rewound => true
  | .skippedTable | .late .. => false

variable {δ ρ α β : Type}

/-- The state before each request met its condition. -/
def InputStream.Clean (s : InputStream δ) : Prop := ∀ n ∈ s.notes, n.hostile = false

variable {n : Note}

theorem InputStream.Clean.addNote {s : InputStream δ} (h : s.Clean)
    (hn : n.hostile = false) : (s.addNote n).Clean := by
  intro m hm
  rcases List.mem_append.mp hm with hm | hm
  · exact h m hm
  · rw [List.mem_singleton.mp hm]
    exact hn

theorem InputStream.not_clean_addNote (s : InputStream δ) (hn : n.hostile = true) :
    ¬(s.addNote n).Clean := by
  intro h
  have := h n (List.mem_append_right _ (List.mem_singleton_self n))
  rw [hn] at this
  contradiction

/-- How a decoding may end without a value; `overrun` says when it is left unfinished. -/
def Ends (overrun : InputStream δ → Prop) (e : Failure) (t : InputStream δ) : Prop :=
  t.i ≤ t.b.length ∧
    match e with
    | .exception _ => t.Clean
    | .fault _ => ¬t.Clean
    | .unfinished => overrun t

/-- A property of the stream that moves in the buffer and clean requests keep. -/
structure Steady (I : InputStream δ → Prop) : Prop where
  inside : ∀ s, I s → s.i ≤ s.b.length
  clean : ∀ s, I s → s.Clean
  before : ∀ s t, I s → s.Before t → I t

theorem Steady.stable {I : InputStream δ → Prop} (h : Steady I)
    {overrun : InputStream δ → Prop} : Stable I (Ends overrun) where
  inside := h.inside
  before := h.before
  exception _ s hs := ⟨h.inside s hs, h.clean s hs⟩
  overlong _ s hs := ⟨h.inside s hs, s.not_clean_addNote rfl⟩

/-- A stream that decoding begins with, at any place of its buffer and after any sequences;
`start` is the new decoder. -/
structure InputStream.Fresh (start : δ) (s : InputStream δ) : Prop where
  inside : s.i ≤ s.b.length
  encaps : s.encaps.start + s.encaps.sz ≤ s.b.length
  decoder : s.decoder = start
  notes : s.notes = []

section

variable {I : InputStream (EncapsDecoder ρ) → Prop}
  {E : Failure → InputStream (EncapsDecoder ρ) → Prop} {rd : Read (EncapsDecoder ρ) Address}

theorem Stable.readMembers (h : Stable I E)
    (hrd : Reads I E rd) (ts : List WireType) : Reads I E (readMembers rd ts) := by
  induction ts with
  | nil => exact .pure _
  | cons t ts ih => exact (h.read hrd t).bind fun _ => ih.bind fun _ => .pure _

theorem Stable.readOptionals (h : Stable I E)
    {readOptional : Nat → OptionalFormat → Read (EncapsDecoder ρ) Bool}
    (hopt : ∀ tag format, Reads I E (readOptional tag format))
    (hrd : Reads I E rd) (os : List (Nat × WireType)) :
    Reads I E (readOptionals readOptional rd os) := by
  induction os with
  | nil => exact .pure _
  | cons o os ih =>
    apply Reads.bind (hopt _ _)
    intro present
    have hvalue : Reads I E (some <$> o.2.readOptionalValue rd) :=
      (h.readOptionalValue hrd o.2).map some
    exact .ite (hvalue.bind fun _ => ih.bind fun _ => .pure _)
      ((Reads.pure none).bind fun _ => ih.bind fun _ => .pure _)

end

namespace EncapsDecoder

/-- An entry without an instance is made only when cycles are not accepted. -/
def Sound (reader : Reader) (d : EncapsDecoder ρ) : Prop :=
  ∀ i, d.unmarshaledMap i = some none → reader.acceptClassCycles = some false

/-- The two decoders agree except in the instances, their pointers and the patch map. -/
structure Agrees (d d' : EncapsDecoder ρ) : Prop where
  unmarshaledMap : d'.unmarshaledMap = d.unmarshaledMap
  classGraphDepth : d'.classGraphDepth = d.classGraphDepth
  derived : d'.derived = d.derived

variable {d d' d'' : EncapsDecoder ρ}

theorem Agrees.refl : d.Agrees d := ⟨rfl, rfl, rfl⟩

theorem Agrees.trans (h : d.Agrees d') (h' : d'.Agrees d'') : d.Agrees d'' :=
  ⟨h'.unmarshaledMap.trans h.unmarshaledMap, h'.classGraphDepth.trans h.classGraphDepth,
    h'.derived.trans h.derived⟩

variable {reader : Reader}

theorem Agrees.sound (h : d.Agrees d') (hs : d.Sound reader) : d'.Sound reader := by
  intro i
  rw [h.unmarshaledMap]
  exact hs i

theorem agrees_foldl_patch (v : Option Instance) (es : List PatchEntry) (d : EncapsDecoder ρ) :
    d.Agrees (es.foldl (fun d e => d.patch e.address v) d) := by
  induction es generalizing d with
  | nil => exact .refl
  | cons e es ih =>
    have hpatch : d.Agrees (d.patch e.address v) := ⟨rfl, rfl, rfl⟩
    exact hpatch.trans (ih _)

theorem agrees_patchAll (index : Int) (v : Instance) (d : EncapsDecoder ρ) :
    d.Agrees (d.patchAll index v) :=
  (agrees_foldl_patch (some v) _ d).trans ⟨rfl, rfl, rfl⟩

theorem agrees_foldl_postUnmarshal (vs : List Instance) (d : EncapsDecoder ρ) :
    d.Agrees (vs.foldl (fun d v => d.postUnmarshal v) d) := by
  induction vs generalizing d with
  | nil => exact .refl
  | cons v vs ih =>
    have hcall : d.Agrees (d.postUnmarshal v) := ⟨rfl, rfl, rfl⟩
    exact hcall.trans (ih _)

theorem agrees_post (v : Instance) (d : EncapsDecoder ρ) : d.Agrees (d.post v) := by
  unfold post
  split_ifs
  · exact ⟨rfl, rfl, rfl⟩
  · exact (agrees_foldl_postUnmarshal _ d).trans ⟨rfl, rfl, rfl⟩
  · exact ⟨rfl, rfl, rfl⟩

theorem Sound.insertUnmarshaled (h : d.Sound reader) {index : Int} {v : Option Instance}
    (hv : v = none → reader.acceptClassCycles = some false) :
    (d.insertUnmarshaled index v).Sound reader := by
  intro i hi
  change (if i = index ∧ d.unmarshaledMap i = none then some v else d.unmarshaledMap i) =
    some none at hi
  split at hi
  · exact hv (Option.some.inj hi)
  · exact h i hi

theorem Sound.assignUnmarshaled (h : d.Sound reader) (index : Int) (v : Instance) :
    (d.assignUnmarshaled index (some v)).Sound reader := by
  intro i hi
  change (if i = index then some (some v) else d.unmarshaledMap i) = some none at hi
  split at hi
  · exact absurd (Option.some.inj hi) (Option.some_ne_none v)
  · exact h i hi

/-- The two decoders agree on what the encoding adds, and none is unsound. -/
structure Alike (reader : Reader) (d d' : EncapsDecoder ρ) : Prop where
  sound : d.Sound reader → d'.Sound reader
  classGraphDepth : d'.classGraphDepth = d.classGraphDepth
  derived : d'.derived = d.derived

theorem Agrees.alike (h : d.Agrees d') : d.Alike reader d' :=
  ⟨h.sound, h.classGraphDepth, h.derived⟩

end EncapsDecoder

/-- `t` is `s` except in what a reference that is resolved changes. -/
structure InputStream.Resolves (s t : InputStream (EncapsDecoder ρ)) : Prop where
  b : t.b = s.b
  i : t.i = s.i
  encaps : t.encaps = s.encaps
  decoder : s.decoder.Agrees t.decoder
  notes : s.notes <+: t.notes
  clean : s.Clean → t.Clean

/-- Decoders that agree do so in streams. -/
theorem EncapsDecoder.Agrees.resolves {s : InputStream (EncapsDecoder ρ)} {d : EncapsDecoder ρ}
    (h : s.decoder.Agrees d) : s.Resolves { s with decoder := d } :=
  ⟨rfl, rfl, rfl, h, List.prefix_rfl, id⟩

section

variable {reader : Reader} {s : InputStream (EncapsDecoder ρ)}
  {overrun : InputStream (EncapsDecoder ρ) → Prop}

variable {R : Failure → InputStream (EncapsDecoder ρ) → Prop}

theorem wp_getDecoder {Q : EncapsDecoder ρ → InputStream (EncapsDecoder ρ) → Prop} :
    wp getDecoder Q R s ↔ Q s.decoder s := Iff.rfl

variable {Q : Unit → InputStream (EncapsDecoder ρ) → Prop}

theorem wp_modifyDecoder
    {f : EncapsDecoder ρ → EncapsDecoder ρ} :
    wp (modifyDecoder f) Q R s ↔ Q () { s with decoder := f s.decoder } := Iff.rfl

theorem wp_watch {p : Prop} [Decidable p] :
    wp (watch p n) Q R s ↔ (p → Q () (s.addNote n)) ∧ (¬p → Q () s) := by
  by_cases hp : p
  · rw [wp_of_ok (watch_of hp)]
    exact ⟨fun h => ⟨fun _ => h, fun hnot => absurd hp hnot⟩, fun h => h.1 hp⟩
  · rw [wp_of_ok (watch_of_not hp)]
    exact ⟨fun h => ⟨fun hpos => absurd hpos hp, fun _ => h⟩, fun h => h.2 hp⟩

theorem wp_assert {σ : Type} {Q : Unit → σ → Prop} {R : Failure → σ → Prop} {t : σ} {p : Prop}
    [Decidable p] (hp : p) {condition : String} : wp (assert p condition) Q R t ↔ Q () t := by
  unfold assert
  rw [if_pos hp, wp_pure]

/-- A reference with a positive index is resolved, or ends in an exception. -/
theorem wp_addPatchEntry (hinside : s.i ≤ s.b.length) (hclean : s.Clean)
    (hsound : s.decoder.Sound reader) {index : Int} (hindex : 0 < index) (address : Address) :
    wp (addPatchEntry reader index address) (fun _ t => s.Resolves t) (Ends overrun) s := by
  unfold addPatchEntry
  rw [wp_bind, wp_assert hindex, wp_bind, wp_getDecoder]
  cases hmap : s.decoder.unmarshaledMap index with
  | none => exact ⟨rfl, rfl, rfl, ⟨rfl, rfl, rfl⟩, List.prefix_append .., fun h => h.addNote rfl⟩
  | some v =>
    cases v with
    | some v =>
      have hagrees : s.decoder.Agrees (s.decoder.patch address (some v)) := ⟨rfl, rfl, rfl⟩
      exact hagrees.resolves
    | none =>
      rw [hsound index hmap]
      dsimp only
      rw [wp_bind, wp_assert rfl]
      exact ⟨hinside, hclean⟩

/-- What the reading of the members of an instance leaves, so does `unmarshal`. -/
theorem wp_unmarshal (hinside : s.i ≤ s.b.length) {index : Int} {v : Instance}
    {iceRead : Read (EncapsDecoder ρ) Unit} {P : InputStream (EncapsDecoder ρ) → Prop}
    (hP : ∀ (t : InputStream (EncapsDecoder ρ)) d, P t → t.decoder.Alike reader d →
      P { t with decoder := d })
    (hread : ∀ d, s.decoder.Alike reader d →
      wp iceRead (fun _ => P) (Ends overrun) { s with decoder := d }) :
    wp (unmarshal reader index v iceRead) (fun _ => P) (Ends overrun) s := by
  unfold unmarshal
  cases haccept : reader.acceptClassCycles with
  | none =>
    rw [wp_bind, wp_of_ok (watch_of rfl)]
    exact ⟨hinside, s.not_clean_addNote rfl⟩
  | some accept =>
    rw [wp_bind, wp_of_ok (watch_of_not (Option.some_ne_none accept))]
    dsimp only
    rw [wp_bind, wp_modifyDecoder, wp_bind]
    have hinsert : s.decoder.Alike reader
        (s.decoder.insertUnmarshaled index (if accept then some v else none)) := by
      refine ⟨fun h => h.insertUnmarshaled ?_, rfl, rfl⟩
      intro hnone
      rw [haccept]
      cases accept with
      | false => rfl
      | true => contradiction
    apply wp_mono (hread _ hinsert)
    · intro _ t ht
      rw [wp_bind, wp_modifyDecoder, wp_bind, wp_modifyDecoder]
      have hpatch := hP _ _ ht (EncapsDecoder.agrees_patchAll index v _).alike
      have hpost := hP _ _ hpatch (EncapsDecoder.agrees_post v _).alike
      rw [wp_ite]
      constructor
      · intro _
        exact hP _ _ hpost ⟨fun h => h.assignUnmarshaled index v, rfl, rfl⟩
      · intro _
        exact hpost
    · intro e t he
      exact he

end

/-- A property that the resolving of references keeps too. -/
structure Quiet (I : InputStream (EncapsDecoder ρ) → Prop) : Prop extends Steady I where
  resolves : ∀ s t, I s → s.Resolves t → I t

namespace Quiet

variable {I : InputStream (EncapsDecoder ρ) → Prop}
  {E : Failure → InputStream (EncapsDecoder ρ) → Prop}

theorem getDecoder : Reads I E (getDecoder : Read (EncapsDecoder ρ) (EncapsDecoder ρ)) :=
  fun _ hs => hs

theorem modifyDecoder (h : Quiet I) {f : EncapsDecoder ρ → EncapsDecoder ρ}
    (hf : ∀ d : EncapsDecoder ρ, d.Agrees (f d)) : Reads I E (modifyDecoder f) :=
  fun s hs => h.resolves s _ hs (hf s.decoder).resolves

theorem newPointer (h : Quiet I) : Reads I E (newPointer : Read (EncapsDecoder ρ) Address) := by
  apply getDecoder.bind
  intro d
  apply Reads.bind
  · apply h.modifyDecoder
    intro d
    exact ⟨rfl, rfl, rfl⟩
  · intro _
    exact .pure _

theorem make (h : Quiet I) (unknownTypeId : Option (List Byte)) :
    Reads I E (make unknownTypeId : Read (EncapsDecoder ρ) Instance) := by
  apply getDecoder.bind
  intro d
  apply Reads.bind
  · apply h.modifyDecoder
    intro d
    exact ⟨rfl, rfl, rfl⟩
  · intro _
    exact .pure _

theorem readTypeId (h : Quiet I) (hE : Stable I E) (isIndex : Bool) :
    Reads I E (readTypeId isIndex : Read (EncapsDecoder ρ) (List Byte)) := by
  cases isIndex with
  | true =>
    apply Reads.bind (hE.of_advances advances_readSize)
    intro index
    apply getDecoder.bind
    intro d
    cases index with
    | zero => exact .throwException hE _
    | succ k =>
      dsimp only
      cases d.typeIdMap[k]? with
      | none => exact .throwException hE _
      | some typeId => exact .pure typeId
  | false =>
    apply (hE.of_advances advances_readString).bind
    intro typeId
    apply Reads.bind
    · apply h.modifyDecoder
      intro d
      exact ⟨rfl, rfl, rfl⟩
    · intro _
      exact .pure _

end Quiet

end Ice.Streams
