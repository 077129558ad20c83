import Ice.IceUtil.EscapePieces

/-!
# Universal character names

The bytes of a character that is not in ASCII are read as its code point, and the universal
character name that is written for it is decoded to these bytes.
-/

namespace Ice.IceUtil

open List (cons_append mem_cons mem_cons_self not_mem_nil)
open Option (bind_eq_bind bind_some)

/-- A text in UTF-8 -/
def utf8 (cs : List Char) : Str := cs.flatMap String.utf8EncodeChar

theorem utf8_cons (c : Char) (cs : List Char) :
    utf8 (c :: cs) = String.utf8EncodeChar c ++ utf8 cs := rfl

section

variable {c : Char} {v n : Nat}

/-- The code point of a character is no surrogate and not too large. -/
theorem valid_char (c : Char) :
    c.val.toNat < 0xD800 ∨ 0xDFFF < c.val.toNat ∧ c.val.toNat < 0x110000 := c.valid

theorem toNat_ofNat (h : n < 256) : (UInt8.ofNat n).toNat = n :=
  UInt8.toNat_ofNat_of_lt' h

variable (codePoint : Nat)

theorem addContinuationByte_ofNat (h : n < 64) (s : Str) :
    addContinuationByte codePoint (UInt8.ofNat (n + 0x80) :: s) = some (codePoint * 64 + n, s) := by
  have hbyte : (UInt8.ofNat (n + 0x80)).toNat = n + 0x80 := toNat_ofNat (by omega)
  unfold addContinuationByte
  dsimp only
  rw [hbyte, if_neg (by omega)]
  congr 2
  omega

/-- The sequences of two, three and four bytes -/
theorem utf8EncodeChar_two (hlow : 0x7f < c.val.toNat) (hhigh : c.val.toNat ≤ 0x7ff) :
    String.utf8EncodeChar c = [UInt8.ofNat (c.val.toNat / 64 + 0xC0),
      UInt8.ofNat (c.val.toNat % 64 + 0x80)] := by
  have hmod : c.val.toNat / 64 % 0x20 = c.val.toNat / 64 := by omega
  unfold String.utf8EncodeChar
  dsimp only
  rw [if_neg (by omega), if_pos hhigh, hmod]

theorem utf8EncodeChar_three (hlow : 0x7ff < c.val.toNat) (hhigh : c.val.toNat ≤ 0xffff) :
    String.utf8EncodeChar c = [UInt8.ofNat (c.val.toNat / 4096 + 0xE0),
      UInt8.ofNat (c.val.toNat / 64 % 64 + 0x80), UInt8.ofNat (c.val.toNat % 64 + 0x80)] := by
  have hmod : c.val.toNat / 4096 % 0x10 = c.val.toNat / 4096 := by omega
  unfold String.utf8EncodeChar
  dsimp only
  rw [if_neg (by omega), if_neg (by omega), if_pos hhigh, hmod]

theorem utf8EncodeChar_four (hlow : 0xffff < c.val.toNat) :
    String.utf8EncodeChar c = [UInt8.ofNat (c.val.toNat / 262144 + 0xF0),
      UInt8.ofNat (c.val.toNat / 4096 % 64 + 0x80), UInt8.ofNat (c.val.toNat / 64 % 64 + 0x80),
      UInt8.ofNat (c.val.toNat % 64 + 0x80)] := by
  have hvalid := valid_char c
  have hmod : c.val.toNat / 262144 % 0x08 = c.val.toNat / 262144 := by omega
  unfold String.utf8EncodeChar
  dsimp only
  rw [if_neg (by omega), if_neg (by omega), if_neg (by omega), hmod]

/-- The bytes of a character that is not in ASCII are read as its code point. -/
theorem readCodePoint_utf8 (h : 0x7f < c.val.toNat) :
    ∃ b bs, String.utf8EncodeChar c = b :: bs ∧ 127 < b.toNat ∧
      ∀ s, readCodePoint b (bs ++ s) = some (c.val.toNat, s) := by
  have hvalid := valid_char c
  by_cases htwo : c.val.toNat ≤ 0x7ff
  · have hbyte := @toNat_ofNat (c.val.toNat / 64 + 0xC0) (by omega)
    refine ⟨_, _, utf8EncodeChar_two h htwo, by omega, fun s => ?_⟩
    unfold readCodePoint
    rw [hbyte, if_pos (by omega), cons_append, addContinuationByte_ofNat _ (by omega)]
    congr 2
    omega
  · by_cases hthree : c.val.toNat ≤ 0xffff
    · have hbyte := @toNat_ofNat (c.val.toNat / 4096 + 0xE0) (by omega)
      refine ⟨_, _, utf8EncodeChar_three (by omega) hthree, by omega, fun s => ?_⟩
      unfold readCodePoint
      rw [hbyte, if_neg (by omega), if_pos (by omega), cons_append,
        addContinuationByte_ofNat _ (by omega)]
      dsimp only [bind_eq_bind, bind_some]
      rw [cons_append, addContinuationByte_ofNat _ (by omega)]
      congr 2
      omega
    · have hbyte := @toNat_ofNat (c.val.toNat / 262144 + 0xF0) (by omega)
      refine ⟨_, _, utf8EncodeChar_four (by omega), by omega, fun s => ?_⟩
      unfold readCodePoint
      rw [hbyte, if_neg (by omega), if_neg (by omega), if_pos (by omega), cons_append,
        addContinuationByte_ofNat _ (by omega)]
      dsimp only [bind_eq_bind, bind_some]
      rw [cons_append, addContinuationByte_ofNat _ (by omega)]
      dsimp only [bind_some]
      rw [cons_append, addContinuationByte_ofNat _ (by omega)]
      congr 2
      omega

/-- The code point of a character is written as its bytes. -/
theorem appendUTF8_char (c : Char) :
    appendUTF8 c.val.toNat = some (String.utf8EncodeChar c) := by
  have hvalid := valid_char c
  unfold appendUTF8
  rw [if_neg (by omega)]
  by_cases hone : c.val.toNat ≤ 0x7F
  · unfold String.utf8EncodeChar
    dsimp only
    rw [if_pos hone, if_pos hone]
  · rw [if_neg hone]
    by_cases htwo : c.val.toNat ≤ 0x7FF
    · rw [if_pos htwo, utf8EncodeChar_two (by omega) htwo]
    · rw [if_neg htwo]
      by_cases hthree : c.val.toNat ≤ 0xFFFF
      · rw [if_pos hthree, utf8EncodeChar_three (by omega) hthree]
      · rw [if_neg hthree, if_pos (by omega), utf8EncodeChar_four (by omega)]

/-- A character in ASCII is a byte. -/
theorem utf8EncodeChar_one (h : c.val.toNat ≤ 0x7f) :
    String.utf8EncodeChar c = [UInt8.ofNat c.val.toNat] := by
  unfold String.utf8EncodeChar
  dsimp only
  rw [if_pos h]

/-- The bytes of a character that is not in ASCII are none in ASCII. -/
theorem utf8EncodeChar_high (h : 0x7f < c.val.toNat) :
    ∀ b ∈ String.utf8EncodeChar c, 127 < b := by
  have hvalid := valid_char c
  have hlt {n : Nat} (hlow : 127 < n) (hhigh : n < 256) : 127 < UInt8.ofNat n := by
    rw [UInt8.lt_iff_toNat_lt, toNat_ofNat hhigh]
    exact hlow
  by_cases htwo : c.val.toNat ≤ 0x7ff
  · rw [utf8EncodeChar_two h htwo]
    simp only [mem_cons, not_mem_nil, or_false]
    rintro b (rfl | rfl)
    all_goals exact hlt (by omega) (by omega)
  · by_cases hthree : c.val.toNat ≤ 0xffff
    · rw [utf8EncodeChar_three (by omega) hthree]
      simp only [mem_cons, not_mem_nil, or_false]
      rintro b (rfl | rfl | rfl)
      all_goals exact hlt (by omega) (by omega)
    · rw [utf8EncodeChar_four (by omega)]
      simp only [mem_cons, not_mem_nil, or_false]
      rintro b (rfl | rfl | rfl | rfl)
      all_goals exact hlt (by omega) (by omega)

/-- What is written in ASCII mode for a character that is not in ASCII -/
def universalName (codePoint : Nat) : Str :=
  if codePoint > 0xFFFF then ch '\\' :: ch 'U' :: hexDigits codePoint 8
  else ch '\\' :: ch 'u' :: hexDigits codePoint 4

/-- A character as a piece -/
def charPiece (special : Str) (c : Char) : Piece :=
  if c.val.toNat ≤ 0x7f then bytePiece special .ascii (UInt8.ofNat c.val.toNat)
  else ⟨String.utf8EncodeChar c, universalName c.val.toNat, false⟩

theorem raw_charPiece (special : Str) (c : Char) :
    (charPiece special c).raw = String.utf8EncodeChar c := by
  unfold charPiece
  split
  · rename_i h
    rw [utf8EncodeChar_one h]
    rfl
  · rfl

theorem isASCII_hexDigits (codePoint n : Nat) : ∀ b ∈ hexDigits codePoint n, b ≤ 127 := by
  induction n with
  | zero => simp [hexDigits]
  | succ n ih =>
    intro b hb
    rcases mem_cons.mp hb with rfl | hrest
    · exact toHexDigit_le (Nat.mod_lt _ (by decide))
    · exact ih b hrest

theorem isASCII_universalName : IsASCII (universalName codePoint) := by
  have hdigits := isASCII_hexDigits codePoint
  unfold universalName IsASCII
  split
  · intro b hb
    rcases mem_cons.mp hb with rfl | hb
    · decide
    · rcases mem_cons.mp hb with rfl | hb
      · decide
      · exact hdigits 8 b hb
  · intro b hb
    rcases mem_cons.mp hb with rfl | hb
    · decide
    · rcases mem_cons.mp hb with rfl | hb
      · decide
      · exact hdigits 4 b hb

theorem mem_universalName : ch '\\' ∈ universalName codePoint := by
  unfold universalName
  split
  · exact mem_cons_self
  · exact mem_cons_self

theorem decodes_universalName (special : Str) (h : 0x7f < c.val.toNat) :
    Decodes special (universalName c.val.toNat) false (String.utf8EncodeChar c) := by
  have hvalid := valid_char c
  have hflag : decide (c.val.toNat ≤ 127) = false := decide_eq_false (by omega)
  unfold universalName
  split
  · have hname := @decodes_name special _ _ (appendUTF8_char c) _ _ (.inr ⟨rfl, rfl⟩) (by omega)
    rwa [hflag] at hname
  · have hname := @decodes_name special _ _ (appendUTF8_char c) _ _ (.inl ⟨rfl, rfl⟩) (by omega)
    rwa [hflag] at hname

theorem escapes_universalName {special : Str} (hspecial : ∀ b ∈ special, IsSpecial b)
    (h : 0x7f < c.val.toNat) :
    Escapes special .ascii (String.utf8EncodeChar c) (universalName c.val.toNat) := by
  obtain ⟨b, bs, heq, hb, hread⟩ := readCodePoint_utf8 h
  have hhigh : 127 < b := UInt8.lt_iff_toNat_lt.mpr hb
  have hfacts : ∀ b : UInt8, 127 < b → ¬ (b = ch '\\' ∨ b = ch '\'' ∨ b = ch '"') ∧
      letter .ascii b = none ∧ ¬ b ≤ 126 ∧ 126 < b ∧ ¬ (b < 32 ∨ b = 127) := by
    apply forall_byte
    decide +kernel
  obtain ⟨hquoted, hletter, hle, hlt, hcontrol⟩ := hfacts b hhigh
  have hnot : b ∉ special := fun hmem => hle (hspecial b hmem).2.1
  refine ⟨b, bs, heq, fun s => ?_⟩
  rw [escapeNext_other hquoted hletter, if_neg hnot, if_pos (.inr hlt), if_neg (by decide),
    if_neg hcontrol, if_pos rfl]
  unfold appendUniversalName universalName
  rw [hread]
  dsimp only [bind_eq_bind, bind_some]
  split
  · rfl
  · rfl

theorem charPiece_ok {special : Str} (hspecial : ∀ b ∈ special, IsSpecial b) (c : Char) :
    (charPiece special c).Ok special .ascii := by
  unfold charPiece
  by_cases h : c.val.toNat ≤ 0x7f
  · rw [if_pos h]
    apply bytePiece_ok hspecial
    right
    rw [UInt8.le_iff_toNat_le, toNat_ofNat (by omega)]
    exact h
  · rw [if_neg h]
    have hlt : 0x7f < c.val.toNat := by omega
    have hhigh := utf8EncodeChar_high hlt
    obtain ⟨b, bs, heq, _, _⟩ := readCodePoint_utf8 hlt
    have hmem : b ∈ String.utf8EncodeChar c := by
      rw [heq]
      exact mem_cons_self
    refine ⟨escapes_universalName hspecial hlt, decodes_universalName special hlt,
      .inr ⟨?_, ?_, ?_⟩, ?_⟩
    · exact mem_universalName _
    · exact isASCII_universalName _
    · exact ⟨b, hmem, .inr (.inr (.inr (.inr (.inr (.inr ⟨hhigh b hmem, nofun⟩)))))⟩
    · exact iff_of_true rfl ⟨nofun, hhigh⟩

end

end Ice.IceUtil
