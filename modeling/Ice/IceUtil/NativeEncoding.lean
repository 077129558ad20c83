import Ice.IceUtil.UniversalName

/-!
# Native encodings

A text is encoded character by character. A string converter converts the texts of an encoding.
-/

namespace Ice.IceUtil

open Option (bind_eq_bind bind_eq_some_iff bind_some some.inj)

/-- An encoding of the characters: those of ASCII are themselves, no other one is written with
control characters, and what is written for one is not how another one begins. -/
structure Encoding where
  encode : Char → Option Str
  ascii : ∀ c, c.val.toNat ≤ 0x7f → encode c = some [UInt8.ofNat c.val.toNat]
  printed : ∀ c bs, encode c = some bs → 0x7f < c.val.toNat → ∀ b ∈ bs, checkChar b = some b
  unambiguous : ∀ c d bs t, encode c = some bs → encode d = some (bs ++ t) → c = d

/-- The string of a text -/
def Encoding.native (encoding : Encoding) : List Char → Option Str
  | [] => some []
  | c :: cs => do
    let bs ← encoding.encode c
    let s ← encoding.native cs
    return bs ++ s

/-- A character of ASCII -/
def charOf (b : UInt8) : Char := Char.ofNat b.toNat

section

variable {encoding : Encoding} {c d : Char} {cs ds : List Char} {s t : Str} {b : UInt8}

theorem charOf_toNat (b : UInt8) : (charOf b).val.toNat = b.toNat := by
  have hlt := b.toNat_lt
  have hvalid : b.toNat.isValidChar := .inl (by omega)
  unfold charOf Char.ofNat
  rw [dif_pos hvalid]
  rfl

theorem encode_charOf (hb : b ≤ 127) : encoding.encode (charOf b) = some [b] := by
  have hle : b.toNat ≤ 127 := UInt8.le_iff_toNat_le.mp hb
  rw [encoding.ascii, charOf_toNat, UInt8.ofNat_toNat]
  rwa [charOf_toNat]

theorem encode_ne (h : encoding.encode c = some s) : s ≠ [] := by
  rintro rfl
  have hfirst := encoding.unambiguous c (charOf 0) [] [0] h (encode_charOf (by decide))
  have hnext := encoding.unambiguous c (charOf 1) [] [1] h (encode_charOf (by decide))
  have heq : (charOf 0).val.toNat = (charOf 1).val.toNat := by
    rw [← hfirst, ← hnext]
  rw [charOf_toNat, charOf_toNat] at heq
  exact absurd heq (by decide)

/-- What is written for a character that is not in ASCII does not begin in ASCII. -/
theorem encode_high (h : encoding.encode c = some s) (hc : 0x7f < c.val.toNat) :
    ∃ b ∈ s, 127 < b := by
  cases s with
  | nil => exact absurd rfl (encode_ne h)
  | cons b s =>
    refine ⟨b, List.mem_cons_self, UInt8.not_le.mp fun hb => ?_⟩
    have hle : b.toNat ≤ 127 := UInt8.le_iff_toNat_le.mp hb
    have heq := encoding.unambiguous (charOf b) c [b] s (encode_charOf hb) h
    rw [← heq, charOf_toNat] at hc
    omega

theorem native_cons : encoding.native (c :: cs) = some s ↔
    ∃ bs t, encoding.encode c = some bs ∧ encoding.native cs = some t ∧ s = bs ++ t := by
  constructor
  · intro h
    obtain ⟨bs, hbs, h⟩ := bind_eq_some_iff.mp h
    obtain ⟨t, ht, h⟩ := bind_eq_some_iff.mp h
    cases h
    exact ⟨bs, t, hbs, ht, rfl⟩
  · rintro ⟨bs, t, hbs, ht, rfl⟩
    unfold Encoding.native
    rw [hbs, ht]
    rfl

section

variable (hs : encoding.native cs = some s)

include hs

theorem native_append (ht : encoding.native ds = some t) :
    encoding.native (cs ++ ds) = some (s ++ t) := by
  induction cs generalizing s with
  | nil =>
    cases hs
    exact ht
  | cons c cs ih =>
    obtain ⟨bs, r, hbs, hr, rfl⟩ := native_cons.mp hs
    rw [List.append_assoc]
    exact native_cons.mpr ⟨bs, _, hbs, ih hr, rfl⟩

/-- A text whose string begins with the string of another text begins with this text. -/
theorem native_split (ht : encoding.native ds = some (s ++ t)) :
    ∃ es, ds = cs ++ es ∧ encoding.native es = some t := by
  induction cs generalizing s ds with
  | nil =>
    cases hs
    exact ⟨ds, rfl, ht⟩
  | cons c cs ih =>
    obtain ⟨bs, r, hbs, hr, rfl⟩ := native_cons.mp hs
    cases ds with
    | nil =>
      have hnil : ([] : Str) = bs ++ r ++ t := some.inj ht
      rw [List.append_assoc] at hnil
      exact absurd (List.append_eq_nil_iff.mp hnil.symm).1 (encode_ne hbs)
    | cons d ds =>
      obtain ⟨bd, rd, hbd, hrd, heq⟩ := native_cons.mp ht
      rw [List.append_assoc] at heq
      have hsame : c = d := by
        rcases List.append_eq_append_iff.mp heq with ⟨x, hx, _⟩ | ⟨x, hx, _⟩
        · exact encoding.unambiguous c d bs x hbs (hx ▸ hbd)
        · exact (encoding.unambiguous d c bd x hbd (hx ▸ hbs)).symm
      subst hsame
      rw [hbs] at hbd
      cases hbd
      obtain ⟨es, rfl, hes⟩ := ih hr (List.append_cancel_left heq ▸ hrd)
      exact ⟨es, rfl, hes⟩

theorem native_injective (ht : encoding.native ds = some s) :
    ds = cs := by
  rw [← List.append_nil s] at ht
  obtain ⟨es, rfl, hes⟩ := native_split hs ht
  cases es with
  | nil => exact List.append_nil cs
  | cons e es =>
    obtain ⟨bs, r, hbs, _, heq⟩ := native_cons.mp hes
    exact absurd (List.append_eq_nil_iff.mp heq.symm).1 (encode_ne hbs)

end

theorem text_nil (h : encoding.native cs = some []) : cs = [] :=
  @native_injective encoding [] cs [] rfl h

end

/-- The converter takes the texts of the encoding to UTF-8 and back; for other strings it throws. -/
structure Lossless (encoding : Encoding) (converter : StringConverter) : Prop where
  toUTF8 : ∀ s u, converter.toUTF8 s = some u ↔ ∃ cs, encoding.native cs = some s ∧ u = utf8 cs
  fromUTF8 : ∀ s u, converter.fromUTF8 u = some s ↔ ∃ cs, encoding.native cs = some s ∧ u = utf8 cs

theorem utf8EncodeChar_unambiguous {c d : Char} {t : Str}
    (h : String.utf8EncodeChar d = String.utf8EncodeChar c ++ t) : c = d := by
  suffices heq : c.val.toNat = d.val.toNat by
    exact Char.ext (UInt32.toNat_inj.mp heq)
  by_cases hc : c.val.toNat ≤ 0x7f
  · rw [utf8EncodeChar_one hc] at h
    by_cases hd : d.val.toNat ≤ 0x7f
    · rw [utf8EncodeChar_one hd] at h
      have hbyte := congrArg UInt8.toNat (List.cons.inj h).1
      rw [toNat_ofNat (by omega), toNat_ofNat (by omega)] at hbyte
      exact hbyte.symm
    · have hhigh := utf8EncodeChar_high (Nat.lt_of_not_le hd) (UInt8.ofNat c.val.toNat)
      rw [h, UInt8.lt_iff_toNat_lt, toNat_ofNat (by omega)] at hhigh
      exact absurd (hhigh List.mem_cons_self) (Nat.not_lt.mpr hc)
  · obtain ⟨b, bs, hbs, hb, hread⟩ := readCodePoint_utf8 (Nat.lt_of_not_le hc)
    rw [hbs, List.cons_append] at h
    by_cases hd : d.val.toNat ≤ 0x7f
    · rw [utf8EncodeChar_one hd] at h
      rw [← (List.cons.inj h).1, toNat_ofNat (by omega)] at hb
      omega
    · obtain ⟨b', bs', hbs', _, hread'⟩ := readCodePoint_utf8 (Nat.lt_of_not_le hd)
      rw [hbs'] at h
      obtain ⟨rfl, rfl⟩ := List.cons.inj h
      have hboth := hread' []
      rw [List.append_assoc, hread] at hboth
      exact congrArg Prod.fst (some.inj hboth)

theorem utf8EncodeChar_printed {c : Char} (h : 0x7f < c.val.toNat) :
    ∀ b ∈ String.utf8EncodeChar c, checkChar b = some b := by
  have hcheck : ∀ b : UInt8, 127 < b → checkChar b = some b := by
    apply forall_byte
    decide +kernel
  intro b hb
  exact hcheck b (utf8EncodeChar_high h b hb)

def utf8Encoding : Encoding where
  encode c := some (String.utf8EncodeChar c)
  ascii c hc := by rw [utf8EncodeChar_one hc]
  printed c bs hbs hc := by
    cases hbs
    exact utf8EncodeChar_printed hc
  unambiguous c d bs t hbs hd := by
    cases hbs
    exact utf8EncodeChar_unambiguous (some.inj hd)

theorem native_utf8 (cs : List Char) : utf8Encoding.native cs = some (utf8 cs) := by
  induction cs with
  | nil => rfl
  | cons c cs ih => exact native_cons.mpr ⟨_, _, rfl, ih, rfl⟩

/-- The encoding of a process: UTF-8 if there is no converter -/
def EncodedBy (encoding : Encoding) : Option StringConverter → Prop
  | none => encoding = utf8Encoding
  | some converter => Lossless encoding converter

def latin1Encoding : Encoding where
  encode c := if c.val.toNat ≤ 0xff then some [UInt8.ofNat c.val.toNat] else none
  ascii c hc := if_pos (by omega)
  printed c bs hbs hc := by
    split at hbs
    · cases hbs
      have hcheck : ∀ b : UInt8, 127 < b → checkChar b = some b := by
        apply forall_byte
        decide +kernel
      intro b hb
      apply hcheck
      rw [List.mem_singleton.mp hb, UInt8.lt_iff_toNat_lt, toNat_ofNat (by omega)]
      exact hc
    · cases hbs
  unambiguous c d bs t hbs hd := by
    split at hbs
    · cases hbs
      split at hd
      · obtain ⟨hbyte, _⟩ := List.cons.inj (some.inj hd)
        have heq := congrArg UInt8.toNat hbyte
        rw [toNat_ofNat (by omega), toNat_ofNat (by omega)] at heq
        exact Char.ext (UInt32.toNat_inj.mp heq.symm)
      · cases hd
    · cases hbs

theorem native_latin1 (s : Str) : latin1Encoding.native (s.map charOf) = some s := by
  induction s with
  | nil => rfl
  | cons b s ih =>
    have hlt := b.toNat_lt
    refine native_cons.mpr ⟨[b], s, ?_, ih, rfl⟩
    show (if (charOf b).val.toNat ≤ 0xff then some [UInt8.ofNat (charOf b).val.toNat] else none) =
      some [b]
    rw [charOf_toNat, if_pos (by omega), UInt8.ofNat_toNat]

/-- The characters of a text in UTF-8; a number of turns is enough that is not less than the
length. -/
def decodeText : Nat → Str → Option (List Char)
  | _, [] => some []
  | 0, _ :: _ => none
  | n + 1, b :: s => do
    let (codePoint, s) ← if b ≤ 127 then some (b.toNat, s) else readCodePoint b s
    let cs ← decodeText n s
    return Char.ofNat codePoint :: cs

theorem ofNat_val (c : Char) : Char.ofNat c.val.toNat = c := Char.ofNat_toNat c

theorem decodeText_utf8 (cs : List Char) {n : Nat} (hn : (utf8 cs).length ≤ n) :
    decodeText n (utf8 cs) = some cs := by
  induction cs generalizing n with
  | nil => cases n <;> rfl
  | cons c cs ih =>
    rw [utf8_cons] at hn ⊢
    by_cases hc : c.val.toNat ≤ 0x7f
    · have hle : UInt8.ofNat c.val.toNat ≤ 127 := by
        rw [UInt8.le_iff_toNat_le, toNat_ofNat (by omega)]
        exact hc
      rw [utf8EncodeChar_one hc, List.singleton_append] at hn ⊢
      cases n with
      | zero => exact absurd hn (by simp)
      | succ n =>
        rw [decodeText, if_pos hle]
        dsimp only [bind_eq_bind, bind_some]
        rw [ih (Nat.le_of_succ_le_succ hn), toNat_ofNat (by omega), ofNat_val]
        rfl
    · obtain ⟨b, bs, hbs, hb, hread⟩ := readCodePoint_utf8 (Nat.lt_of_not_le hc)
      have hle : ¬ b ≤ 127 := UInt8.not_le.mpr (UInt8.lt_iff_toNat_lt.mpr hb)
      rw [hbs, List.cons_append] at hn ⊢
      rw [List.length_cons, List.length_append] at hn
      cases n with
      | zero => omega
      | succ n =>
        rw [decodeText, if_neg hle, hread]
        dsimp only [bind_eq_bind, bind_some]
        rw [ih (by omega), ofNat_val]
        rfl

/-- A converter of Latin-1 -/
def latin1 : StringConverter where
  toUTF8 s := some (utf8 (s.map charOf))
  fromUTF8 u := do
    let cs ← decodeText u.length u
    if utf8 cs = u then latin1Encoding.native cs else none

theorem lossless_latin1 : Lossless latin1Encoding latin1 where
  toUTF8 s u := by
    constructor
    · intro h
      exact ⟨_, native_latin1 s, (some.inj h).symm⟩
    · rintro ⟨cs, hcs, rfl⟩
      rw [native_injective (native_latin1 s) hcs]
      rfl
  fromUTF8 s u := by
    constructor
    · intro h
      obtain ⟨cs, _, h⟩ := bind_eq_some_iff.mp h
      split at h
      · rename_i heq
        exact ⟨cs, h, heq.symm⟩
      · cases h
    · rintro ⟨cs, hcs, rfl⟩
      unfold latin1
      dsimp only
      rw [decodeText_utf8 cs (Nat.le_refl _)]
      dsimp only [bind_eq_bind, bind_some]
      rw [if_pos rfl, hcs]

end Ice.IceUtil
