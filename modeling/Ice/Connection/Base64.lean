import Mathlib.Data.List.Basic

/-!
# Base64

`Base64::encode` and `Base64::decode`. A character is a byte, and the bits of a byte are taken apart
by division and remainder.
-/

namespace Ice.Connection.Base64

abbrev Str := List UInt8

def isBase64 (c : UInt8) : Bool :=
  if 65 ≤ c ∧ c ≤ 90 then true
  else if 97 ≤ c ∧ c ≤ 122 then true
  else if 48 ≤ c ∧ c ≤ 57 then true
  else if c = '+'.toUInt8 then true
  else if c = '/'.toUInt8 then true
  else if c = '='.toUInt8 then true
  else false

/-- The character of a number below 64 -/
def encodeDigit (uc : Nat) : UInt8 :=
  if uc < 26 then UInt8.ofNat (65 + uc)
  else if uc < 52 then UInt8.ofNat (97 + uc - 26)
  else if uc < 62 then UInt8.ofNat (48 + uc - 52)
  else if uc = 62 then '+'.toUInt8
  else '/'.toUInt8

/-- The number of a character; there is no test of the last one. -/
def decodeDigit (c : UInt8) : Nat :=
  if 65 ≤ c ∧ c ≤ 90 then c.toNat - 65
  else if 97 ≤ c ∧ c ≤ 122 then c.toNat - 97 + 26
  else if 48 ≤ c ∧ c ≤ 57 then c.toNat - 48 + 52
  else if c = '+'.toUInt8 then 62
  else 63

def by4 (by1 : UInt8) : Nat := by1.toNat / 4

def by5 (by1 by2 : UInt8) : Nat := by1.toNat % 4 * 16 + by2.toNat / 16

def by6 (by2 by3 : UInt8) : Nat := by2.toNat % 16 * 4 + by3.toNat / 64

def by7 (by3 : UInt8) : Nat := by3.toNat % 64

/-- The loop of `encode`; bytes that are missing are zero, and padded. -/
def encodeGroups : List UInt8 → Str
  | [] => []
  | [by1] => [encodeDigit (by4 by1), encodeDigit (by5 by1 0), '='.toUInt8, '='.toUInt8]
  | [by1, by2] =>
    [encodeDigit (by4 by1), encodeDigit (by5 by1 by2), encodeDigit (by6 by2 0), '='.toUInt8]
  | by1 :: by2 :: by3 :: plainSeq =>
    encodeDigit (by4 by1) :: encodeDigit (by5 by1 by2) :: encodeDigit (by6 by2 by3) ::
      encodeDigit (by7 by3) :: encodeGroups plainSeq

/-- The loop that cuts the text into lines; a number of turns is enough that is not less than the
length. -/
def breakLines : Nat → Str → Str
  | 0, retval => retval
  | n + 1, retval =>
    if 76 < retval.length then
      retval.take 76 ++ ['\r'.toUInt8, '\n'.toUInt8] ++ breakLines n (retval.drop 76)
    else retval

def encode (plainSeq : List UInt8) : Str :=
  breakLines (encodeGroups plainSeq).length (encodeGroups plainSeq)

/-- What a group of four characters is decoded to -/
def decodeGroup (c1 c2 c3 c4 : UInt8) : List UInt8 :=
  [UInt8.ofNat (decodeDigit c1 * 4 % 256 + decodeDigit c2 / 16)] ++
    (if c3 ≠ '='.toUInt8 then
      [UInt8.ofNat (decodeDigit c2 % 16 * 16 + decodeDigit c3 / 4)] else []) ++
    (if c4 ≠ '='.toUInt8 then [UInt8.ofNat (decodeDigit c3 % 4 * 64 + decodeDigit c4)] else [])

/-- The loop of `decode`; characters that are missing are an `A`. -/
def decodeGroups : Str → List UInt8
  | [] => []
  | [c1] => decodeGroup c1 'A'.toUInt8 'A'.toUInt8 'A'.toUInt8
  | [c1, c2] => decodeGroup c1 c2 'A'.toUInt8 'A'.toUInt8
  | [c1, c2, c3] => decodeGroup c1 c2 c3 'A'.toUInt8
  | c1 :: c2 :: c3 :: c4 :: newStr => decodeGroup c1 c2 c3 c4 ++ decodeGroups newStr

def decode (str : Str) : List UInt8 := decodeGroups (str.filter isBase64)

/-- A text into which characters were inserted that are not in the alphabet -/
inductive Inserted : Str → Str → Prop
  | nil : Inserted [] []
  | keep (c : UInt8) {s t : Str} (h : Inserted s t) : Inserted (c :: s) (c :: t)
  | insert (c : UInt8) (hc : isBase64 c = false) {s t : Str} (h : Inserted s t) :
      Inserted s (c :: t)

theorem Inserted.refl : ∀ s : Str, Inserted s s
  | [] => .nil
  | c :: s => .keep c (.refl s)

section

variable {s t : Str} {n : Nat}

theorem decodeDigit_encodeDigit (h : n < 64) : decodeDigit (encodeDigit n) = n := by
  have hall : ∀ n < 64, decodeDigit (encodeDigit n) = n := by
    decide
  exact hall n h

theorem encodeDigit_ne (h : n < 64) : encodeDigit n ≠ '='.toUInt8 := by
  have hall : ∀ n < 64, encodeDigit n ≠ '='.toUInt8 := by
    decide
  exact hall n h

theorem isBase64_encodeDigit (h : n < 64) : isBase64 (encodeDigit n) = true := by
  have hall : ∀ n < 64, isBase64 (encodeDigit n) = true := by
    decide
  exact hall n h

theorem by4_lt (by1 : UInt8) : by4 by1 < 64 := by
  have h := by1.toNat_lt
  unfold by4
  omega

theorem by5_lt (by1 by2 : UInt8) : by5 by1 by2 < 64 := by
  have h := by2.toNat_lt
  unfold by5
  omega

theorem by6_lt (by2 by3 : UInt8) : by6 by2 by3 < 64 := by
  have h := by3.toNat_lt
  unfold by6
  omega

theorem by7_lt (by3 : UInt8) : by7 by3 < 64 := Nat.mod_lt _ (by decide)

/-- The first byte is in the first two digits. -/
theorem first_byte (by1 by2 : UInt8) :
    UInt8.ofNat (by4 by1 * 4 % 256 + by5 by1 by2 / 16) = by1 := by
  have h1 := by1.toNat_lt
  have h2 := by2.toNat_lt
  have heq : by4 by1 * 4 % 256 + by5 by1 by2 / 16 = by1.toNat := by
    unfold by4 by5
    omega
  rw [heq, UInt8.ofNat_toNat]

theorem second_byte (by1 by2 by3 : UInt8) :
    UInt8.ofNat (by5 by1 by2 % 16 * 16 + by6 by2 by3 / 4) = by2 := by
  have h2 := by2.toNat_lt
  have h3 := by3.toNat_lt
  have heq : by5 by1 by2 % 16 * 16 + by6 by2 by3 / 4 = by2.toNat := by
    unfold by5 by6
    omega
  rw [heq, UInt8.ofNat_toNat]

theorem third_byte (by2 by3 : UInt8) : UInt8.ofNat (by6 by2 by3 % 4 * 64 + by7 by3) = by3 := by
  have h3 := by3.toNat_lt
  have heq : by6 by2 by3 % 4 * 64 + by7 by3 = by3.toNat := by
    unfold by6 by7
    omega
  rw [heq, UInt8.ofNat_toNat]

theorem decodeGroups_encodeGroups (plainSeq : List UInt8) :
    decodeGroups (encodeGroups plainSeq) = plainSeq := by
  induction plainSeq using encodeGroups.induct with
  | case1 => rfl
  | case2 by1 =>
    have hfirst := first_byte by1 0
    have hpad : ¬ '='.toUInt8 ≠ '='.toUInt8 := not_not_intro rfl
    rw [encodeGroups, decodeGroups, decodeGroup, decodeDigit_encodeDigit (by4_lt _),
      decodeDigit_encodeDigit (by5_lt _ _), if_neg hpad, if_neg hpad, hfirst]
    rfl
  | case3 by1 by2 =>
    have hfirst := first_byte by1 by2
    have hsecond := second_byte by1 by2 0
    have hpad : ¬ '='.toUInt8 ≠ '='.toUInt8 := not_not_intro rfl
    rw [encodeGroups, decodeGroups, decodeGroup, decodeDigit_encodeDigit (by4_lt _),
      decodeDigit_encodeDigit (by5_lt _ _), decodeDigit_encodeDigit (by6_lt _ _),
      if_pos (encodeDigit_ne (by6_lt _ _)), if_neg hpad, hfirst, hsecond]
    rfl
  | case4 by1 by2 by3 plainSeq ih =>
    have hfirst := first_byte by1 by2
    have hsecond := second_byte by1 by2 by3
    have hthird := third_byte by2 by3
    rw [encodeGroups, decodeGroups, decodeGroup, decodeDigit_encodeDigit (by4_lt _),
      decodeDigit_encodeDigit (by5_lt _ _), decodeDigit_encodeDigit (by6_lt _ _),
      decodeDigit_encodeDigit (by7_lt _), if_pos (encodeDigit_ne (by6_lt _ _)),
      if_pos (encodeDigit_ne (by7_lt _)), hfirst, hsecond, hthird, ih]
    rfl

theorem filter_encodeGroups (plainSeq : List UInt8) :
    (encodeGroups plainSeq).filter isBase64 = encodeGroups plainSeq := by
  have hpad : isBase64 '='.toUInt8 = true := by decide
  rw [List.filter_eq_self]
  induction plainSeq using encodeGroups.induct with
  | case1 => nofun
  | case2 by1 =>
    simp only [encodeGroups, List.forall_mem_cons, hpad, isBase64_encodeDigit (by4_lt _),
      isBase64_encodeDigit (by5_lt _ _), List.not_mem_nil]
    simp
  | case3 by1 by2 =>
    simp only [encodeGroups, List.forall_mem_cons, hpad, isBase64_encodeDigit (by4_lt _),
      isBase64_encodeDigit (by5_lt _ _), isBase64_encodeDigit (by6_lt _ _), List.not_mem_nil]
    simp
  | case4 by1 by2 by3 plainSeq ih =>
    simp only [encodeGroups, List.forall_mem_cons, isBase64_encodeDigit (by4_lt _),
      isBase64_encodeDigit (by5_lt _ _), isBase64_encodeDigit (by6_lt _ _),
      isBase64_encodeDigit (by7_lt _), true_and]
    exact ih

/-- The line breaks are no characters of the alphabet. -/
theorem filter_breakLines (n : Nat) (s : Str) :
    (breakLines n s).filter isBase64 = s.filter isBase64 := by
  induction n generalizing s with
  | zero => rfl
  | succ n ih =>
    unfold breakLines
    split
    · have hbreak : ['\r'.toUInt8, '\n'.toUInt8].filter isBase64 = [] := by decide
      rw [List.filter_append, List.filter_append, hbreak, List.append_nil, ih,
        ← List.filter_append, List.take_append_drop]
    · rfl

theorem Inserted.filter_eq (h : Inserted s t) : t.filter isBase64 = s.filter isBase64 := by
  induction h with
  | nil => rfl
  | keep c _ ih => rw [List.filter_cons, List.filter_cons, ih]
  | insert c hc _ ih => rw [List.filter_cons_of_neg (by rw [hc]; nofun), ih]

/-- What was encoded is decoded, whatever characters that are not in the alphabet are inserted. -/
theorem decode_encode (plainSeq : List UInt8) :
    decode (encode plainSeq) = plainSeq ∧
      ∀ str, Inserted (encode plainSeq) str → decode str = decode (encode plainSeq) := by
  constructor
  · unfold decode encode
    rw [filter_breakLines, filter_encodeGroups, decodeGroups_encodeGroups]
  · intro str h
    unfold decode
    rw [h.filter_eq]

/-- A text that is cut into lines, behind a space -/
theorem decode_encode_space : 13 ∈ encode (List.replicate 60 65) ∧
    decode (32 :: encode (List.replicate 60 65)) = List.replicate 60 65 := by
  obtain ⟨hdecode, hinserted⟩ := decode_encode (List.replicate 60 65)
  exact ⟨by decide, (hinserted _ (.insert 32 (by decide) (.refl _))).trans hdecode⟩

end

end Ice.Connection.Base64
