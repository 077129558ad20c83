import Mathlib
import Ice.References.Reference
import Ice.Streams.Optionals

/-!
# Encapsulations

An encapsulation has its own encoding and is headed by its size. The encapsulation that is being
written or read hangs off the stream, with those around it; outside of all the encoding is that of
the stream. What is between the start and the end of an encapsulation is read back like any other
piece, and it may count on the size.
-/

namespace Ice.Streams

open Lib
open List (append_assoc length_append length_cons)
open InputStream (rest rest_advance)
open References (Version)

def Encoding_1_0 : Version := ⟨1, 0⟩

def currentEncoding : Version := ⟨1, 1⟩

/-- `isSupported` -/
def isSupported (version supported : Version) : Bool :=
  version.major = supported.major && version.minor ≤ supported.minor

/-- `checkSupportedEncoding` -/
def checkSupportedEncoding {σ : Type} (v : Version) : EStateM Failure σ Unit :=
  if isSupported v currentEncoding then pure ()
  else throwException (.unsupportedEncoding v.major v.minor)

/-- The encapsulation that is being written. Where there is none, its encoding is that of the
stream. -/
structure WriteEncaps where
  start : Nat
  encoding : Version
  /-- Start and encoding of those around it, the innermost first -/
  previous : List (Nat × Version)
  deriving DecidableEq, Repr

/-- The encapsulation that is being read; the stream has its start and size. -/
structure ReadEncaps where
  encoding : Version
  previous : List (Encaps × Version)
  deriving DecidableEq, Repr

/-- A new encapsulation in the current one -/
def WriteEncaps.push (e : WriteEncaps) (start : Nat) (encoding : Version) : WriteEncaps :=
  ⟨start, encoding, (e.start, e.encoding) :: e.previous⟩

def ReadEncaps.push (d : ReadEncaps) (encaps : Encaps) (encoding : Version) : ReadEncaps :=
  ⟨encoding, (encaps, d.encoding) :: d.previous⟩

variable {ε δ α β : Type}

/-- `write(bool)` -/
def writeBool (v : Bool) : Write ε Unit := append [if v then 1 else 0]

/-- `read(bool&)` -/
def readBool : Read δ Bool := do
  let byte ← readByte
  return byte ≠ 0

/-- The bytes of a `short` -/
def shortBytes (v : Int) : List Byte := leBytes 2 (v.emod (2 ^ 16)).toNat

/-- `write(Short)` -/
def writeShort (v : Int) : Write ε Unit := append (shortBytes v)

/-- `read(Short&)` -/
def readShort : Read δ Int := do
  let bytes ← readBytes 2
  return Int.bmod (leNat bytes) (2 ^ 16)

/-- The writing of a `ProtocolVersion` or an `EncodingVersion` -/
def writeVersion (v : Version) : Write ε Unit := append [v.major, v.minor]

def readVersion : Read δ Version := do
  let major ← readByte
  let minor ← readByte
  return ⟨major, minor⟩

/-- `OutputStream::startEncapsulation(encoding, format)` -/
def OutputStream.startEncapsulation (encoding : Version) : Write WriteEncaps Unit := do
  checkSupportedEncoding encoding
  modify fun s => { s with encoder := s.encoder.push s.b.length encoding }
  writeInt 0
  writeVersion encoding

/-- `OutputStream::endEncapsulation` -/
def OutputStream.endEncapsulation : Write WriteEncaps Unit := do
  let s ← get
  match s.encoder.previous with
  | [] => throwFault (.assertion "_currentEncaps")
  | (start, encoding) :: previous =>
    rewrite (s.b.length - s.encoder.start : Nat) s.encoder.start
    modify fun s => { s with encoder := ⟨start, encoding, previous⟩ }

/-- `InputStream::startEncapsulation` -/
def InputStream.startEncapsulation : Read ReadEncaps Unit := do
  let s ← get
  let sz ← readInt
  if sz < 6 then throwException .unmarshalOutOfBounds
  if s.b.length < s.i + sz then throwException .unmarshalOutOfBounds
  let encoding ← readVersion
  checkSupportedEncoding encoding
  modify fun t =>
    { t with encaps := ⟨s.i, sz.toNat⟩, decoder := t.decoder.push t.encaps encoding }

/-- `InputStream::endEncapsulation`; `skipClass` skips an optional value of a class. -/
def InputStream.endEncapsulation (skipClass : Read ReadEncaps Unit) : Read ReadEncaps Unit := do
  let s ← get
  match s.decoder.previous with
  | [] => throwFault (.assertion "_currentEncaps")
  | (encaps, encoding) :: previous =>
    if s.decoder.encoding ≠ Encoding_1_0 then Streams.endEncapsulation skipClass
    else if s.i ≠ s.encaps.start + s.encaps.sz then
      if s.i + 1 ≠ s.encaps.start + s.encaps.sz then throwException .encapsulation
      -- user exceptions of old versions end with another byte
      modify (InputStream.advance 1)
    modify fun t => { t with encaps := encaps, decoder := ⟨encoding, previous⟩ }

/-- `getEncapsulationSize` -/
def getEncapsulationSize : Read δ Int := do
  let s ← get
  return s.encaps.sz - 4 - 2

/-- `readBlob(vector<Byte>&, Int)` -/
def readBlob (sz : Int) : Read δ (List Byte) := if 0 < sz then readBytes sz.toNat else return []

/-- What is written in an encapsulation -/
def writeEncapsulation (encoding : Version) (w : Write WriteEncaps Unit) :
    Write WriteEncaps Unit := do
  OutputStream.startEncapsulation encoding
  w
  OutputStream.endEncapsulation

/-- What is read in an encapsulation -/
def readEncapsulation (skipClass : Read ReadEncaps Unit) (r : Read ReadEncaps α) :
    Read ReadEncaps α := do
  InputStream.startEncapsulation
  let x ← r
  InputStream.endEncapsulation skipClass
  return x

/-- A piece of writing appends bytes and leaves the encapsulations. -/
def Appends (w : Write ε Unit) : Prop :=
  ∀ s s', w s = .ok () s' → ∃ bytes, s' = ⟨s.b ++ bytes, s.encoder⟩

namespace Appends

variable {w w' : Write ε Unit}

theorem pure : Appends (Pure.pure () : Write ε Unit) := by
  intro s s' h
  obtain ⟨-, rfl⟩ := EStateM.Result.ok.inj h
  exact ⟨[], by rw [List.append_nil]⟩

theorem append (bytes : List Byte) : Appends (append bytes : Write ε Unit) := by
  intro s s' h
  obtain ⟨-, rfl⟩ := EStateM.Result.ok.inj h
  exact ⟨bytes, rfl⟩

theorem seq (h : Appends w) (h' : Appends w') : Appends (w >>= fun _ => w') := by
  intro s s'' hw
  obtain ⟨_, s', hfirst, hsecond⟩ := ok_of_bind hw
  obtain ⟨bytes, rfl⟩ := h s s' hfirst
  obtain ⟨bytes', rfl⟩ := h' _ s'' hsecond
  exact ⟨bytes ++ bytes', by rw [append_assoc]⟩

theorem writeSize (v : Nat) : Appends (writeSize v : Write ε Unit) := by
  intro s s' h
  obtain ⟨_, rfl⟩ := lt_of_writeSize h
  exact ⟨sizeBytes v, rfl⟩

theorem writeString (v : List Byte) : Appends (writeString v : Write ε Unit) :=
  (writeSize v.length).seq (append v)

theorem forM {w : α → Write ε Unit} {xs : List α} (h : ∀ x ∈ xs, Appends (w x)) :
    Appends (xs.forM w) := by
  induction xs with
  | nil => exact pure
  | cons x xs ih =>
    rw [List.forall_mem_cons] at h
    exact h.1.seq (ih h.2)

theorem writes {γ : Type} {L : Link γ ε δ} (h : Appends w) : Writes L 0 w := by
  intro s s' hw
  obtain ⟨bytes, rfl⟩ := h s s' hw
  exact ⟨bytes, rfl, Nat.zero_le _, id⟩

end Appends

theorem checkSupportedEncoding_ok {σ : Type} {v : Version} {s s' : σ}
    (h : checkSupportedEncoding v s = .ok () s') :
    isSupported v currentEncoding = true ∧ s = s' := by
  unfold checkSupportedEncoding at h
  split at h
  · rename_i hsupported
    obtain ⟨-, rfl⟩ := EStateM.Result.ok.inj h
    exact ⟨hsupported, rfl⟩
  · contradiction

/-- The bytes of an encapsulation -/
def encapsulationBytes (encoding : Version) (content : List Byte) : List Byte :=
  intBytes (content.length + 6 : Nat) ++ [encoding.major, encoding.minor] ++ content

/-- An `int` is replaced. -/
theorem rewrite_eq {before after : List Byte} {v v' : Int} :
    (before ++ intBytes v ++ after).take before.length ++ intBytes v' ++
      (before ++ intBytes v ++ after).drop (before.length + 4) =
        before ++ intBytes v' ++ after := by
  have htake : (before ++ intBytes v ++ after).take before.length = before := by
    rw [append_assoc, List.take_left]
  have hdrop : (before ++ intBytes v ++ after).drop (before.length + 4) = after := by
    apply List.drop_left'
    rw [length_append, length_intBytes]
  rw [htake, hdrop]

variable {encoding : Version} {w : Write WriteEncaps Unit} {s s' : OutputStream WriteEncaps}

theorem startEncapsulation_run
    (h : OutputStream.startEncapsulation encoding s = .ok () s') :
    isSupported encoding currentEncoding = true ∧
      s' = ⟨s.b ++ intBytes 0 ++ [encoding.major, encoding.minor],
        s.encoder.push s.b.length encoding⟩ := by
  obtain ⟨_, _, hcheck, hopen⟩ := ok_of_bind h
  obtain ⟨hsupported, rfl⟩ := checkSupportedEncoding_ok hcheck
  exact ⟨hsupported, (EStateM.Result.ok.inj hopen).2.symm⟩

theorem endEncapsulation_eq (e : WriteEncaps) (start : Nat) (encoding : Version) (b : List Byte) :
    OutputStream.endEncapsulation ⟨b, e.push start encoding⟩ =
      .ok () ⟨b.take start ++ intBytes (b.length - start : Nat) ++ b.drop (start + 4), e⟩ := rfl

theorem startEncapsulation_eq (hsupported : isSupported encoding currentEncoding = true)
    (s : OutputStream WriteEncaps) :
    OutputStream.startEncapsulation encoding s =
      .ok () ⟨s.b ++ intBytes 0 ++ [encoding.major, encoding.minor],
        s.encoder.push s.b.length encoding⟩ := by
  have hcheck : checkSupportedEncoding encoding s = .ok () s := by
    unfold checkSupportedEncoding
    rw [if_pos hsupported]
    rfl
  unfold OutputStream.startEncapsulation
  rw [bind_of_ok hcheck]
  rfl

/-- The size is filled in after the content has been written. -/
theorem endEncapsulation_content (e : WriteEncaps) (encoding : Version) (b content : List Byte) :
    OutputStream.endEncapsulation
      ⟨b ++ intBytes 0 ++ [encoding.major, encoding.minor] ++ content, e.push b.length encoding⟩ =
      .ok () ⟨b ++ encapsulationBytes encoding content, e⟩ := by
  have hlength : (b ++ intBytes 0 ++ [encoding.major, encoding.minor] ++ content).length -
      b.length = content.length + 6 := by
    simp only [length_append, length_intBytes, length_cons, List.length_nil]
    omega
  rw [endEncapsulation_eq, hlength, append_assoc (b ++ intBytes 0), rewrite_eq,
    append_assoc, encapsulationBytes, append_assoc]

/-- What is written in an encapsulation comes after its size and its encoding. -/
theorem writeEncapsulation_run (hw : Appends w)
    (h : writeEncapsulation encoding w s = .ok () s') :
    isSupported encoding currentEncoding = true ∧ ∃ s₀ content,
      s₀.encoder = s.encoder.push s.b.length encoding ∧
        w s₀ = .ok () ⟨s₀.b ++ content, s₀.encoder⟩ ∧
        s' = ⟨s.b ++ encapsulationBytes encoding content, s.encoder⟩ := by
  obtain ⟨_, s₀, hstart, hrest⟩ := ok_of_bind h
  obtain ⟨_, s₁, hfirst, hend⟩ := ok_of_bind hrest
  obtain ⟨hsupported, rfl⟩ := startEncapsulation_run hstart
  obtain ⟨content, rfl⟩ := hw _ _ hfirst
  rw [endEncapsulation_content] at hend
  exact ⟨hsupported, _, content, rfl, hfirst, (EStateM.Result.ok.inj hend).2.symm⟩

theorem writeEncapsulation_eq {content : List Byte}
    (hsupported : isSupported encoding currentEncoding = true)
    (hw : ∀ s, w s = .ok () ⟨s.b ++ content, s.encoder⟩) (s : OutputStream WriteEncaps) :
    writeEncapsulation encoding w s =
      .ok () ⟨s.b ++ encapsulationBytes encoding content, s.encoder⟩ := by
  unfold writeEncapsulation
  rw [bind_of_ok (startEncapsulation_eq hsupported s), bind_of_ok (hw _)]
  exact endEncapsulation_content ..

theorem Appends.encapsulation (hw : Appends w) : Appends (writeEncapsulation encoding w) := by
  intro s s' h
  obtain ⟨_, _, content, _, _, rfl⟩ := writeEncapsulation_run hw h
  exact ⟨_, rfl⟩

/-- The encapsulations do not change. -/
def still (e : ε) (d : δ) : Link Unit ε δ :=
  ⟨fun _ e' d' => e' = e ∧ d' = d, fun _ => True, False, fun _ => False⟩

section

variable {m n : Nat} {w w' : Write ε Unit} {γ : Type} [Preorder γ] {L : Link γ ε δ}
  {P : γ → β → Prop} {f : α → Read δ β} {r : Read δ α}

/-- A piece that is read back exactly, and one after it -/
theorem RoundTrip.andThen {x : α}
    (h : RoundTrip L m w r fun _ y => y = x) (h' : RoundTrip L n w' (f x) P) :
    RoundTrip L 0 (w >>= fun _ => w') (r >>= f) P := by
  have hboth : RoundTrip L (m + n) (w >>= fun _ => w') (r >>= f) fun g z => ∃ y, y = x ∧ P g z := by
    apply h.bind h'.writes
    rintro y ⟨_, rfl⟩
    exact h'.reads
  apply (hboth.mono (Nat.zero_le _)).conseq
  rintro g z ⟨_, _, hz⟩
  exact hz

/-- The reader is done with a piece that is read back exactly. -/
theorem RoundTrip.finish {x : α} {z : β}
    (h : RoundTrip L m w r fun _ y => y = x) (hf : f x = Pure.pure z) :
    RoundTrip L m w (r >>= f) fun _ y => y = z := by
  refine ⟨h.writes, ?_⟩
  intro s s' g t bytes tail k hat
  cases h.reads s s' g t bytes tail k hat with
  | fails hr hf' => exact .fails (bind_of_error hr f) hf'
  | @arrives y g' t' hr ha =>
    obtain rfl : y = x := ha.post g' le_rfl
    have hread : (r >>= f) t = .ok z t' := by
      rw [bind_of_ok hr, hf]
      rfl
    apply Outcome.arrives hread
    exact { ha with post := fun _ _ => rfl }

theorem RoundTrip.byte (x : Byte) : RoundTrip L 1 (append [x]) readByte fun _ y => y = x :=
  .of_append le_rfl (fun _ => rfl) fun _ _ hrest _ => readByte_of_rest hrest

theorem RoundTrip.bool (x : Bool) : RoundTrip L 1 (writeBool x) readBool fun _ y => y = x := by
  apply (RoundTrip.byte (if x then 1 else 0)).map
  rintro _ _ rfl
  cases x <;> rfl

variable {v : Int}

theorem RoundTrip.int (h₀ : -2 ^ 31 ≤ v) (h : v < 2 ^ 31) :
    RoundTrip L 4 (writeInt v) readInt fun _ y => y = v := by
  apply RoundTrip.of_append (y := v)
  · exact le_of_eq (length_intBytes v).symm
  · exact fun _ => rfl
  · intro t tail hrest _
    rw [readInt_of_rest hrest, toInt_of_lt h₀ h, length_intBytes]

theorem RoundTrip.version (v : Version) :
    RoundTrip L 2 (writeVersion v) readVersion fun _ y => y = v := by
  apply RoundTrip.of_append (y := v)
  · exact le_rfl
  · exact fun _ => rfl
  · intro t tail hrest _
    have hmajor := readByte_of_rest hrest
    have hminor : readByte (t.advance 1) = .ok v.minor ((t.advance 1).advance 1) :=
      readByte_of_rest (rest_advance (show t.rest = [v.major] ++ (v.minor :: tail) from hrest))
    unfold readVersion
    rw [bind_of_ok hmajor, bind_of_ok hminor]
    rfl

theorem leNat_shortBytes (v : Int) : (leNat (shortBytes v) : Int) = v.emod (2 ^ 16) := by
  have hnonneg : 0 ≤ v.emod (2 ^ 16) := Int.emod_nonneg _ (by decide)
  have hlt : v.emod (2 ^ 16) < 2 ^ 16 := Int.emod_lt_of_pos _ (by decide)
  rw [shortBytes, leNat_leBytes, Nat.mod_eq_of_lt (by omega), Int.toNat_of_nonneg hnonneg]

theorem readShort_of_rest {t : InputStream δ} {tail : List Byte} (h₀ : -2 ^ 15 ≤ v)
    (h : v < 2 ^ 15) (hrest : t.rest = shortBytes v ++ tail) :
    readShort t = .ok v (t.advance 2) := by
  have hlength : (shortBytes v).length = 2 := length_leBytes ..
  have hread := readBytes_of_rest hrest
  rw [hlength] at hread
  have hv : Int.bmod (leNat (shortBytes v)) (2 ^ 16) = v := by
    rw [leNat_shortBytes]
    have hemod : (v.emod (2 ^ 16)).bmod (2 ^ 16) = v.bmod (2 ^ 16) := Int.emod_bmod ..
    rw [hemod]
    apply Int.bmod_eq_of_le <;> omega
  unfold readShort
  rw [bind_of_ok hread, hv]
  rfl

theorem RoundTrip.short (h₀ : -2 ^ 15 ≤ v) (h : v < 2 ^ 15) :
    RoundTrip L 2 (writeShort v) readShort fun _ y => y = v := by
  have hlength : (shortBytes v).length = 2 := length_leBytes ..
  apply RoundTrip.of_append (y := v)
  · exact le_of_eq hlength.symm
  · exact fun _ => rfl
  · intro t tail hrest _
    rw [readShort_of_rest h₀ h hrest, hlength]

end

/-- The stream at the content of an encapsulation that has been started -/
def InputStream.enter (t : InputStream ReadEncaps) (encoding : Version) (sz : Nat) :
    InputStream ReadEncaps :=
  { t.advance 6 with encaps := ⟨t.i, sz⟩, decoder := t.decoder.push t.encaps encoding }

theorem InputStream.startEncapsulation_of_rest {t : InputStream ReadEncaps}
    {content tail : List Byte} (hsupported : isSupported encoding currentEncoding = true)
    (hrest : t.rest = encapsulationBytes encoding content ++ tail) (hlength : t.b.length < 2 ^ 31) :
    InputStream.startEncapsulation t = .ok () (t.enter encoding (content.length + 6)) := by
  rw [encapsulationBytes, append_assoc, append_assoc] at hrest
  have hleft := InputStream.length_le_left hrest
  simp only [length_append, length_intBytes, length_cons, List.length_nil,
    InputStream.left] at hleft
  have hsz : toInt (content.length + 6 : Nat) = (content.length + 6 : Nat) :=
    toInt_of_lt (by omega) (by omega)
  have hint := readInt_of_rest hrest
  rw [hsz] at hint
  have hrest' := rest_advance hrest
  rw [length_intBytes] at hrest'
  have hversion : readVersion (t.advance 4) = .ok encoding ((t.advance 4).advance 2) := by
    have hmajor : readByte (t.advance 4) = .ok encoding.major ((t.advance 4).advance 1) :=
      readByte_of_rest hrest'
    have hminor : readByte ((t.advance 4).advance 1) =
        .ok encoding.minor (((t.advance 4).advance 1).advance 1) :=
      readByte_of_rest (rest_advance
        (show (t.advance 4).rest = [encoding.major] ++
          (encoding.minor :: (content ++ tail)) from hrest'))
    unfold readVersion
    rw [bind_of_ok hmajor, bind_of_ok hminor]
    rfl
  have hcheck : checkSupportedEncoding encoding ((t.advance 4).advance 2) =
      .ok () ((t.advance 4).advance 2) := by
    unfold checkSupportedEncoding
    rw [if_pos hsupported]
    rfl
  have hget : (get : Read ReadEncaps (InputStream ReadEncaps)) t = .ok t t := rfl
  unfold InputStream.startEncapsulation
  rw [bind_of_ok hget, bind_of_ok hint, if_neg (by omega), if_neg (by omega)]
  have hrest : (readVersion >>= fun encoding => checkSupportedEncoding encoding >>= fun _ =>
      modify fun u : InputStream ReadEncaps =>
        { u with
          encaps := ⟨t.i, content.length + 6⟩, decoder := u.decoder.push u.encaps encoding })
      (t.advance 4) = .ok () (t.enter encoding (content.length + 6)) := by
    rw [bind_of_ok hversion, bind_of_ok hcheck]
    rfl
  exact hrest

variable (skipClass : Read ReadEncaps Unit)

/-- The end of an encapsulation that has been read to its end -/
theorem InputStream.endEncapsulation_of_end {t : InputStream ReadEncaps} {d : ReadEncaps}
    {encaps : Encaps} (hd : t.decoder = d.push encaps encoding)
    (hend : t.i = t.encaps.start + t.encaps.sz) :
    InputStream.endEncapsulation skipClass t =
      .ok () { t with encaps := encaps, decoder := d } := by
  have hget : (get : Read ReadEncaps (InputStream ReadEncaps)) t = .ok t t := rfl
  have hat : t.atEnd = true := by
    unfold InputStream.atEnd
    rw [decide_eq_true_eq, hend]
  have hskip : skipOptionals skipClass t = .ok () t := by
    unfold skipOptionals
    rw [bind_of_ok hget, skipOptionalsLoop, bind_of_ok hget, if_pos hat]
    rfl
  have hold : Streams.endEncapsulation skipClass t = .ok () t := by
    unfold Streams.endEncapsulation
    rw [bind_of_ok hskip, bind_of_ok hget, if_neg (not_not.mpr hend)]
    rfl
  unfold InputStream.endEncapsulation
  rw [bind_of_ok hget]
  simp only [hd, ReadEncaps.push]
  by_cases hencoding : encoding = Encoding_1_0
  · rw [if_neg (not_not.mpr hencoding), if_neg (not_not.mpr hend)]
    rfl
  · rw [if_pos hencoding, bind_of_ok hold]
    rfl

/-- How the content of an encapsulation is read back. -/
def FillsBack (e : WriteEncaps) (d : ReadEncaps) (encoding : Version) (w : Write WriteEncaps Unit)
    (r : Read ReadEncaps β) (y : β) : Prop :=
  ∀ start encaps s s' t bytes tail n,
    At (still (e.push start encoding) (d.push encaps encoding)) 0 w s s' () t bytes tail n →
    t.encaps.sz = bytes.length + 6 →
    Outcome (still (e.push start encoding) (d.push encaps encoding)) (fun _ z => z = y) r ()
      s'.encoder t bytes.length n

theorem RoundTrip.encapsulation {e : WriteEncaps} {d : ReadEncaps} {r : Read ReadEncaps β} {y : β}
    (hw : Appends w) (h : FillsBack e d encoding w r y) :
    RoundTrip (still e d) 0 (writeEncapsulation encoding w) (readEncapsulation skipClass r)
      fun _ z => z = y := by
  refine ⟨hw.encapsulation.writes, ?_⟩
  rintro s s' g t bytes tail n ⟨hrun, hb, hready⟩
  obtain ⟨he, hd⟩ := hready.inv
  obtain ⟨hsupported, s₀, content, hs₀, hfill, rfl⟩ := writeEncapsulation_run hw hrun
  obtain rfl := List.append_cancel_left hb
  have hstart := InputStream.startEncapsulation_of_rest hsupported hready.rest hready.length
  have hbytes : encapsulationBytes encoding content =
      (intBytes (content.length + 6 : Nat) ++ [encoding.major, encoding.minor]) ++ content := rfl
  have hrest := hready.rest
  rw [hbytes, append_assoc] at hrest
  have hrest' := rest_advance hrest
  have hsix :
      (intBytes (content.length + 6 : Nat) ++ [encoding.major, encoding.minor]).length = 6 := by
    rw [length_append, length_intBytes]
    rfl
  rw [hsix] at hrest'
  have hready' :
      Ready (still (s.encoder.push s.b.length encoding) (t.decoder.push t.encaps encoding))
      0 () s₀.encoder s₀.encoder (t.enter encoding (content.length + 6)) content tail n := by
    refine ⟨trivial, ⟨hs₀, rfl⟩, hrest', hready.length, hready.tail, ?_, False.elim⟩
    have howes : (t.advance 6).Owes n := hready.owes.advance (Nat.zero_le _)
    rw [Nat.zero_add]
    exact howes
  rw [he, hd] at hready'
  cases h s.b.length t.encaps _ _ _ content tail n ⟨hfill, rfl, hready'⟩ rfl with
  | fails _ hf => exact False.elim hf
  | @arrives z _ t' hr ha =>
    have hend : t'.i = t'.encaps.start + t'.encaps.sz := by
      rw [ha.i, ha.encaps]
      change t.i + 6 + content.length = t.i + (content.length + 6)
      omega
    have hclose := InputStream.endEncapsulation_of_end skipClass ha.inv.2 hend
    have hread : readEncapsulation skipClass r t =
        .ok z { t' with encaps := t.encaps, decoder := d } := by
      unfold readEncapsulation
      rw [bind_of_ok hstart, bind_of_ok hr, bind_of_ok hclose]
      rfl
    apply Outcome.arrives hread
    refine ⟨le_rfl, ha.post, ha.b, ?_, rfl, ha.owes, ⟨he, rfl⟩⟩
    change t'.i = t.i + _
    rw [ha.i, hbytes, length_append, hsix]
    exact Nat.add_assoc ..

section

variable {δ : Type} {t t' : InputStream δ} {bytes : List Byte}

theorem readBytes_ok {n : Nat} (h : readBytes n t = .ok bytes t') :
    t.rest = bytes ++ t'.rest ∧ bytes.length = n ∧ t' = t.advance n := by
  unfold readBytes at h
  split at h
  · contradiction
  · rename_i hleft
    obtain ⟨rfl, rfl⟩ := EStateM.Result.ok.inj h
    refine ⟨?_, ?_, rfl⟩
    · have hrest : (t.advance n).rest = t.rest.drop n := by
        rw [rest, rest, List.drop_drop]
        rfl
      rw [hrest, List.take_append_drop]
    · rw [List.length_take, rest, List.length_drop]
      exact Nat.min_eq_left (not_lt.mp hleft)

theorem readByte_ok {x : Byte} (h : readByte t = .ok x t') :
    t.rest = x :: t'.rest ∧ t' = t.advance 1 := by
  unfold readByte at h
  split at h
  · contradiction
  · rename_i y tail hrest
    obtain ⟨rfl, rfl⟩ := EStateM.Result.ok.inj h
    have hadvance : (t.advance 1).rest = tail :=
      rest_advance (show t.rest = [y] ++ tail from hrest)
    rw [hadvance]
    exact ⟨hrest, rfl⟩

theorem leNat_lt (bytes : List Byte) : leNat bytes < 256 ^ bytes.length := by
  induction bytes with
  | nil => exact Nat.one_pos
  | cons x xs ih =>
    have hx := x.toNat_lt
    rw [leNat, length_cons, Nat.pow_succ']
    omega

theorem leBytes_leNat (bytes : List Byte) : leBytes bytes.length (leNat bytes) = bytes := by
  induction bytes with
  | nil => rfl
  | cons x xs ih =>
    have hx := x.toNat_lt
    have hdiv : (x.toNat + 256 * leNat xs) / 256 = leNat xs := by omega
    have hbyte : UInt8.ofNat (x.toNat + 256 * leNat xs) = x := by
      apply UInt8.toNat_inj.mp
      rw [UInt8.toNat_ofNat']
      omega
    rw [leNat, length_cons, leBytes, hdiv, ih, hbyte]

/-- The bytes of a number from which it was read -/
theorem leBytes_bmod {n : Nat} (hn : bytes.length = n) :
    leBytes n (((leNat bytes : Int).bmod (256 ^ n)).emod (256 ^ n : Nat)).toNat = bytes := by
  have hlt := leNat_lt bytes
  rw [hn] at hlt
  have hemod : ((leNat bytes : Int).bmod (256 ^ n)).emod (256 ^ n : Nat) = leNat bytes := by
    have h :
        ((leNat bytes : Int).bmod (256 ^ n)) % (256 ^ n : Nat) = leNat bytes % (256 ^ n : Nat) :=
      Int.bmod_emod ..
    have hmod : (leNat bytes : Int) % (256 ^ n : Nat) = leNat bytes := by
      rw [← Int.natCast_emod, Nat.mod_eq_of_lt hlt]
    exact h.trans hmod
  rw [hemod, Int.toNat_natCast, ← hn, leBytes_leNat]

theorem readShort_ok {v : Int} (h : readShort t = .ok v t') :
    t.rest = shortBytes v ++ t'.rest ∧ t' = t.advance 2 := by
  obtain ⟨bytes, u, hbytes, hv⟩ := ok_of_bind h
  obtain ⟨rfl, rfl⟩ := EStateM.Result.ok.inj hv
  obtain ⟨hrest, hlength, rfl⟩ := readBytes_ok hbytes
  have hshort : shortBytes ((leNat bytes : Int).bmod (2 ^ 16)) = bytes := leBytes_bmod hlength
  rw [hshort]
  exact ⟨hrest, rfl⟩

theorem readInt_ok {v : Int} (h : readInt t = .ok v t') :
    t.rest = intBytes v ++ t'.rest ∧ t' = t.advance 4 ∧ v < 2 ^ 31 := by
  obtain ⟨bytes, u, hbytes, hv⟩ := ok_of_bind h
  obtain ⟨rfl, rfl⟩ := EStateM.Result.ok.inj hv
  obtain ⟨hrest, hlength, rfl⟩ := readBytes_ok hbytes
  have hint : intBytes (toInt (leNat bytes)) = bytes := by
    unfold toInt
    exact leBytes_bmod hlength
  rw [hint]
  exact ⟨hrest, rfl, (toInt_range _).2⟩

theorem readVersion_ok {v : Version} (h : readVersion t = .ok v t') :
    t.rest = [v.major, v.minor] ++ t'.rest ∧ t' = t.advance 2 := by
  obtain ⟨major, u, hmajor, hrest⟩ := ok_of_bind h
  obtain ⟨minor, u', hminor, hv⟩ := ok_of_bind hrest
  obtain ⟨rfl, rfl⟩ := EStateM.Result.ok.inj hv
  obtain ⟨hfirst, rfl⟩ := readByte_ok hmajor
  obtain ⟨hsecond, rfl⟩ := readByte_ok hminor
  rw [hfirst, hsecond]
  exact ⟨rfl, rfl⟩

end

section

variable {t t' : InputStream ReadEncaps}

/-- How an encapsulation starts that could be started -/
theorem InputStream.startEncapsulation_ok (h : InputStream.startEncapsulation t = .ok () t') :
    ∃ (encoding : Version) (n : Nat), isSupported encoding currentEncoding = true ∧
      n + 6 < 2 ^ 31 ∧
      t.rest = intBytes (n + 6 : Nat) ++ [encoding.major, encoding.minor] ++ t'.rest ∧
      t' = t.enter encoding (n + 6) := by
  unfold InputStream.startEncapsulation at h
  obtain ⟨s, u, hget, h⟩ := ok_of_bind h
  obtain ⟨rfl, rfl⟩ := EStateM.Result.ok.inj hget
  obtain ⟨sz, u, hint, h⟩ := ok_of_bind h
  obtain ⟨hfirst, rfl, hrange⟩ := readInt_ok hint
  by_cases hsz : sz < 6
  · rw [if_pos hsz] at h
    contradiction
  · rw [if_neg hsz] at h
    by_cases hend : (t.b.length : Int) < t.i + sz
    · rw [if_pos hend] at h
      contradiction
    · rw [if_neg hend] at h
      obtain ⟨encoding, u, hversion, h⟩ := ok_of_bind h
      obtain ⟨hsecond, rfl⟩ := readVersion_ok hversion
      obtain ⟨_, u, hcheck, h⟩ := ok_of_bind h
      obtain ⟨hsupported, rfl⟩ := checkSupportedEncoding_ok hcheck
      obtain ⟨-, rfl⟩ := EStateM.Result.ok.inj h
      obtain ⟨n, rfl⟩ : ∃ n : Nat, sz = (n + 6 : Nat) := ⟨(sz - 6).toNat, by omega⟩
      refine ⟨encoding, n, hsupported, by omega, ?_, rfl⟩
      rw [hfirst, hsecond, append_assoc]
      rfl

end

end Ice.Streams
