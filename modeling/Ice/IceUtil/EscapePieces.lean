import Ice.IceUtil.StringUtil
import Mathlib.Tactic.Ring

/-!
# The pieces of an escaped string

A string is escaped piece by piece, a byte or the bytes of a character at a time. What is written
for a piece is decoded to the piece, whatever is behind it.
-/

namespace Ice.IceUtil

/-- The characters that are not escape letters -/
def IsSpecial (c : UInt8) : Prop :=
  32 ≤ c ∧ c ≤ 126 ∧ control c = none ∧ c ≠ ch 'u' ∧ c ≠ ch 'U' ∧ c ≠ ch 'x' ∧
    ¬ (ch '0' ≤ c ∧ c ≤ ch '7')

instance (c : UInt8) : Decidable (IsSpecial c) := inferInstanceAs (Decidable (_ ∧ _))

/-- The characters that are not written as they are -/
def IsEscaped (special : Str) (toStringMode : ToStringMode) (c : UInt8) : Prop :=
  c = ch '\\' ∨ c = ch '\'' ∨ c = ch '"' ∨ c ∈ special ∨ c < 32 ∨ c = 127 ∨
    (127 < c ∧ toStringMode ≠ .unicode)

instance (special : Str) (toStringMode : ToStringMode) (c : UInt8) :
    Decidable (IsEscaped special toStringMode c) := inferInstanceAs (Decidable (_ ∨ _))

/-- A piece is escaped whatever is behind it. -/
def Escapes (special : Str) (toStringMode : ToStringMode) (raw out : Str) : Prop :=
  ∃ c cs, raw = c :: cs ∧ ∀ s, escapeNext special toStringMode c (cs ++ s) = some (out, s)

/-- What is written for a piece is decoded whatever is behind it. -/
def Decodes (special out : Str) (decoded : Bool) (raw : Str) : Prop :=
  ∃ c cs, out = c :: cs ∧ ∀ s, decodeChar special c (cs ++ s) = some (decoded, raw, s)

section

variable {special : Str} {toStringMode : ToStringMode} {c d : UInt8} {s : Str}

theorem decodes_escape {cs raw : Str} {decoded : Bool}
    (h : ∀ s, decodeEscape special c (cs ++ s) = some (decoded, raw, s)) :
    Decodes special (ch '\\' :: c :: cs) decoded raw := by
  refine ⟨_, _, rfl, fun s => ?_⟩
  unfold decodeChar
  rw [if_neg (not_not_intro rfl)]
  exact h s

theorem decodes_quoted (h : c = ch '\\' ∨ c = ch '\'' ∨ c = ch '"') :
    Decodes special [ch '\\', c] true [c] := by
  apply decodes_escape
  intro s
  unfold decodeEscape
  rw [if_pos]
  · rfl
  · rcases h with h | h | h
    · exact .inl h
    · exact .inr (.inl h)
    · exact .inr (.inr (.inl h))

/-- What holds of 256 numbers holds of every byte. -/
theorem forall_byte {P : UInt8 → Prop} [DecidablePred P]
    (h : (List.range 256).all (fun n => P (UInt8.ofNat n)) = true) (c : UInt8) : P c := by
  have hc := List.all_eq_true.mp h c.toNat (List.mem_range.mpr c.toNat_lt)
  rw [UInt8.ofNat_toNat] at hc
  exact of_decide_eq_true hc

/-- The letter of a control character is in none of the other classes and stands for it. -/
theorem letter_spec (h : letter toStringMode c = some d) : control d = some c ∧
    ¬ (d = ch '\\' ∨ d = ch '\'' ∨ d = ch '"' ∨ d = ch '?') ∧ c < 32 ∧ d ≤ 127 := by
  unfold letter at h
  split_ifs at h
  all_goals subst c
  all_goals obtain rfl := Option.some.inj h
  all_goals decide

/-- The letter of a control character is decoded to it. -/
theorem decodes_letter (h : letter toStringMode c = some d) :
    Decodes special [ch '\\', d] true [c] := by
  obtain ⟨hcontrol, hquoted, -, -⟩ := letter_spec h
  apply decodes_escape
  intro s
  unfold decodeEscape
  rw [if_neg hquoted, hcontrol]
  rfl

theorem decodes_special (hc : c ∈ special) (h : IsSpecial c) :
    Decodes special [ch '\\', c] true [c] := by
  obtain ⟨hlow, hhigh, hcontrol, hu, hU, hx, hoctal⟩ := h
  apply decodes_escape
  intro s
  unfold decodeEscape
  by_cases hquoted : c = ch '\\' ∨ c = ch '\'' ∨ c = ch '"' ∨ c = ch '?'
  · rw [if_pos hquoted]
    rfl
  · rw [if_neg hquoted]
    have hcheck : checkChar c = some c := by
      have hdel : c ≠ 127 := by
        rintro rfl
        exact absurd hhigh (by decide)
      exact if_neg (not_or.mpr ⟨UInt8.not_lt.mpr hlow, hdel⟩)
    have hascii : decide (c ≤ 127) = true := by
      apply decide_eq_true
      exact UInt8.le_trans hhigh (by decide)
    rw [hcontrol]
    dsimp only
    rw [if_neg (not_or.mpr ⟨hu, hU⟩), if_neg hoctal, if_neg hx, hcheck]
    simp [hascii, hc]

/-- The digits of an octal number are no other escape sequence. -/
theorem octal_digits (c : UInt8) : ∀ d ∈ octal c.toNat,
    ¬ (d = ch '\\' ∨ d = ch '\'' ∨ d = ch '"' ∨ d = ch '?') ∧ control d = none ∧
      ¬ (d = ch 'u' ∨ d = ch 'U') ∧ ch '0' ≤ d ∧ d ≤ ch '7' := by
  have hdigit : ∀ k < 8,
      ¬ (UInt8.ofNat (48 + k) = ch '\\' ∨ UInt8.ofNat (48 + k) = ch '\'' ∨
        UInt8.ofNat (48 + k) = ch '"' ∨ UInt8.ofNat (48 + k) = ch '?') ∧
      control (UInt8.ofNat (48 + k)) = none ∧
      ¬ (UInt8.ofNat (48 + k) = ch 'u' ∨ UInt8.ofNat (48 + k) = ch 'U') ∧
      ch '0' ≤ UInt8.ofNat (48 + k) ∧ UInt8.ofNat (48 + k) ≤ ch '7' := by
    decide +kernel
  have hlt := c.toNat_lt
  simp only [octal, List.forall_mem_cons]
  exact ⟨hdigit _ (by omega), hdigit _ (by omega), hdigit _ (by omega), List.forall_mem_nil _⟩

theorem octal_value : ∀ c : UInt8, readOctal 3 0 (octal c.toNat) = (c.toNat, []) := by
  apply forall_byte
  decide +kernel

theorem readOctal_append {n : Nat} {cs : Str} (hlength : cs.length = n)
    (h : ∀ d ∈ cs, ch '0' ≤ d ∧ d ≤ ch '7') (val : Nat) (s : Str) :
    readOctal n val (cs ++ s) = ((readOctal n val cs).1, s) := by
  induction n generalizing val cs with
  | zero =>
    rw [List.eq_nil_of_length_eq_zero hlength]
    rfl
  | succ n ih =>
    obtain ⟨d, cs, rfl⟩ := List.exists_cons_of_length_eq_add_one hlength
    have hd := h d List.mem_cons_self
    rw [List.cons_append, readOctal, readOctal, if_pos hd, if_pos hd]
    apply ih
    · rwa [List.length_cons, Nat.add_right_cancel_iff] at hlength
    · intro e he
      exact h e (List.mem_cons_of_mem _ he)

theorem decodes_octal (special : Str) (c : UInt8) :
    Decodes special (ch '\\' :: octal c.toNat) (decide (c ≤ 127)) [c] := by
  have hall := octal_digits c
  have hvalue := octal_value c
  have hle : ¬ c.toNat > 255 := by
    have hlt := c.toNat_lt
    omega
  obtain ⟨d, ds, heq⟩ : ∃ d ds, octal c.toNat = d :: ds := ⟨_, _, rfl⟩
  have hlength : (d :: ds).length = 3 := by
    rw [← heq]
    rfl
  rw [heq] at hall hvalue ⊢
  apply decodes_escape
  intro s
  obtain ⟨hquoted, hcontrol, hname, hdigit⟩ := hall d List.mem_cons_self
  have hread := readOctal_append hlength (fun d hd => (hall d hd).2.2.2) 0 s
  rw [hvalue, List.cons_append] at hread
  unfold decodeEscape
  rw [if_neg hquoted, hcontrol]
  dsimp only
  rw [if_neg hname, if_pos hdigit, hread]
  dsimp only
  rw [if_neg hle, UInt8.ofNat_toNat]
  rfl

theorem hexValue_toHexDigit {d : Nat} (h : d < 16) : hexValue (toHexDigit d) = some d := by
  have hall : ∀ d < 16, hexValue (toHexDigit d) = some d := by decide
  exact hall d h

/-- The digits of a number are read back, up to as many as there are. -/
theorem readHex_hexDigits (codePoint n val : Nat) (s : Str) :
    readHex n val (hexDigits codePoint n ++ s) = (0, val * 16 ^ n + codePoint % 16 ^ n, s) := by
  induction n generalizing val with
  | zero =>
    rw [Nat.pow_zero, Nat.mod_one, Nat.mul_one]
    rfl
  | succ n ih =>
    have hdigit := hexValue_toHexDigit (Nat.mod_lt (codePoint / 16 ^ n) (by decide : 0 < 16))
    have hsplit : codePoint % 16 ^ (n + 1) =
        codePoint / 16 ^ n % 16 * 16 ^ n + codePoint % 16 ^ n := by
      rw [Nat.pow_succ, Nat.mod_mul, Nat.mul_comm, Nat.add_comm]
    rw [hexDigits, List.cons_append, readHex, hdigit]
    dsimp only
    rw [ih, hsplit, Nat.pow_succ]
    congr 2
    ring

theorem decodes_name {codePoint : Nat} {raw : Str} (hraw : appendUTF8 codePoint = some raw)
    {c : UInt8} {n : Nat} (hc : c = ch 'u' ∧ n = 4 ∨ c = ch 'U' ∧ n = 8)
    (hlt : codePoint < 16 ^ n) :
    Decodes special (ch '\\' :: c :: hexDigits codePoint n) (decide (codePoint ≤ 127)) raw := by
  apply decodes_escape
  intro s
  have hread := readHex_hexDigits codePoint n 0 s
  rw [Nat.zero_mul, Nat.zero_add, Nat.mod_eq_of_lt hlt] at hread
  have hsize : (if c = ch 'u' then 4 else 8) = n := by
    rcases hc with ⟨rfl, rfl⟩ | ⟨rfl, rfl⟩
    · rfl
    · rfl
  have hname : c = ch 'u' ∨ c = ch 'U' := hc.imp And.left And.left
  have hquoted : ¬ (c = ch '\\' ∨ c = ch '\'' ∨ c = ch '"' ∨ c = ch '?') := by
    rcases hname with rfl | rfl
    · decide
    · decide
  have hcontrol : control c = none := by
    rcases hname with rfl | rfl
    · rfl
    · rfl
  unfold decodeEscape
  rw [if_neg hquoted, hcontrol]
  dsimp only
  rw [if_pos hname, hsize, hread]
  dsimp only
  rw [if_neg (Nat.lt_irrefl 0), hraw]
  rfl

/-- `\u00nn` -/
theorem decodes_control (hc : c ≤ 127) :
    Decodes special [ch '\\', ch 'u', ch '0', ch '0', toHexDigit (c.toNat / 16),
      toHexDigit (c.toNat % 16)] true [c] := by
  have hle : c.toNat ≤ 127 := UInt8.le_iff_toNat_le.mp hc
  have hraw : appendUTF8 c.toNat = some [c] := by
    unfold appendUTF8
    rw [if_neg (by omega), if_pos hle, UInt8.ofNat_toNat]
  have hname := @decodes_name special _ _ hraw _ _ (.inl ⟨rfl, rfl⟩) (by omega)
  have hdigits : hexDigits c.toNat 4 = [ch '0', ch '0', toHexDigit (c.toNat / 16),
      toHexDigit (c.toNat % 16)] := by
    have hhigh : c.toNat / 16 ^ 3 % 16 = 0 := by omega
    have hnext : c.toNat / 16 ^ 2 % 16 = 0 := by omega
    have hthird : c.toNat / 16 ^ 1 % 16 = c.toNat / 16 := by omega
    have hlast : c.toNat / 16 ^ 0 % 16 = c.toNat % 16 := by omega
    rw [hexDigits, hexDigits, hexDigits, hexDigits, hexDigits, hhigh, hnext, hthird, hlast]
    rfl
  rw [hdigits, decide_eq_true hle] at hname
  exact hname

end

/-- A piece of a string, what is written for it, and what `decodeChar` returns there -/
structure Piece where
  raw : Str
  out : Str
  decoded : Bool

/-- A piece is escaped and decoded whatever is behind it. It is written as it is, or in ASCII
characters with a backslash. -/
structure Piece.Ok (special : Str) (toStringMode : ToStringMode) (p : Piece) : Prop where
  escapes : Escapes special toStringMode p.raw p.out
  decodes : Decodes special p.out p.decoded p.raw
  kept : p.out = p.raw ∧ (∀ c ∈ p.raw, ¬ IsEscaped special toStringMode c) ∨
    ch '\\' ∈ p.out ∧ IsASCII p.out ∧ ∃ c ∈ p.raw, IsEscaped special toStringMode c
  flag : p.decoded = false ↔ toStringMode ≠ .unicode ∧ ∀ c ∈ p.raw, 127 < c

/-- What is written for a byte -/
def escapedByte (special : Str) (toStringMode : ToStringMode) (c : UInt8) : Str :=
  ((escapeNext special toStringMode c []).map (·.1)).getD []

/-- A byte as a piece -/
def bytePiece (special : Str) (toStringMode : ToStringMode) (c : UInt8) : Piece :=
  ⟨[c], escapedByte special toStringMode c, !decide (toStringMode ≠ .unicode ∧ 127 < c)⟩

section

variable {special : Str} {toStringMode : ToStringMode} {c d : UInt8}

/-- A byte that is written whatever is behind it -/
theorem bytePiece_of {out : Str}
    (h : ∀ s, escapeNext special toStringMode c s = some (out, s))
    (hdecodes : Decodes special out (!decide (toStringMode ≠ .unicode ∧ 127 < c)) [c])
    (hkept : out = [c] ∧ ¬ IsEscaped special toStringMode c ∨
      ch '\\' ∈ out ∧ IsASCII out ∧ IsEscaped special toStringMode c) :
    (bytePiece special toStringMode c).Ok special toStringMode := by
  have hout : escapedByte special toStringMode c = out := by
    unfold escapedByte
    rw [h]
    rfl
  have hpiece : bytePiece special toStringMode c =
      ⟨[c], out, !decide (toStringMode ≠ .unicode ∧ 127 < c)⟩ := by
    unfold bytePiece
    rw [hout]
  rw [hpiece]
  refine ⟨⟨c, [], rfl, h⟩, hdecodes, ?_, ?_⟩
  · simpa using hkept
  · simp

theorem escapeNext_quoted (h : c = ch '\\' ∨ c = ch '\'' ∨ c = ch '"') (s : Str) :
    escapeNext special toStringMode c s = some ([ch '\\', c], s) := by
  unfold escapeNext
  rw [if_pos h]

section

variable (hquoted : ¬ (c = ch '\\' ∨ c = ch '\'' ∨ c = ch '"'))

include hquoted

theorem escapeNext_letter {d : UInt8}
    (h : letter toStringMode c = some d) (s : Str) :
    escapeNext special toStringMode c s = some ([ch '\\', d], s) := by
  unfold escapeNext
  rw [if_neg hquoted, h]

theorem escapeNext_other
    (h : letter toStringMode c = none) (s : Str) : escapeNext special toStringMode c s =
      if c ∈ special then some ([ch '\\', c], s)
      else if c < 32 ∨ 126 < c then
        if toStringMode = .compat then some (ch '\\' :: octal c.toNat, s)
        else if c < 32 ∨ c = 127 then
          some ([ch '\\', ch 'u', ch '0', ch '0', toHexDigit (c.toNat / 16),
            toHexDigit (c.toNat % 16)], s)
        else if toStringMode = .ascii then appendUniversalName c s
        else some ([c], s)
      else some ([c], s) := by
  unfold escapeNext
  rw [if_neg hquoted, h]

end

theorem decodes_plain (hslash : c ≠ ch '\\') (hlow : ¬ c < 32) (hdel : c ≠ 127) :
    Decodes special [c] true [c] := by
  refine ⟨c, [], rfl, fun s => ?_⟩
  unfold decodeChar checkChar
  rw [if_pos hslash, if_neg (not_or.mpr ⟨hlow, hdel⟩)]
  rfl

theorem lt_of_126_lt (h : 126 < c) (hne : c ≠ 127) : 127 < c := by
  rw [UInt8.lt_iff_toNat_lt] at h ⊢
  have hnat : c.toNat ≠ 127 := fun heq => hne (UInt8.toNat_inj.mp heq)
  have hlow : (126 : UInt8).toNat = 126 := rfl
  have hhigh : (127 : UInt8).toNat = 127 := rfl
  omega

theorem isASCII_octal (c : UInt8) : IsASCII (ch '\\' :: octal c.toNat) := by
  have hdigits := octal_digits c
  refine List.forall_mem_cons.mpr ⟨by decide, fun d hd => ?_⟩
  exact UInt8.le_trans (hdigits d hd).2.2.2.2 (by decide)

theorem toHexDigit_le {d : Nat} (h : d < 16) : toHexDigit d ≤ 127 := by
  have hall : ∀ d < 16, toHexDigit d ≤ 127 := by decide
  exact hall d h

theorem isASCII_control (c : UInt8) : IsASCII [ch '\\', ch 'u', ch '0', ch '0',
    toHexDigit (c.toNat / 16), toHexDigit (c.toNat % 16)] := by
  have hlt := c.toNat_lt
  have hhigh := toHexDigit_le (show c.toNat / 16 < 16 by omega)
  have hlow := toHexDigit_le (Nat.mod_lt c.toNat (show 0 < 16 by decide))
  simp only [IsASCII, List.forall_mem_cons]
  exact ⟨by decide, by decide, by decide, by decide, hhigh, hlow, List.forall_mem_nil _⟩

theorem le_127 (h : c ≤ 126) : c ≤ 127 := UInt8.le_trans h (by decide)

theorem marked_low (hc : c ≤ 127) : (!decide (toStringMode ≠ .unicode ∧ 127 < c)) = true := by
  simp [UInt8.not_lt.mpr hc]

theorem isASCII_pair (hc : c ≤ 127) : IsASCII [ch '\\', c] :=
  List.forall_mem_cons.mpr ⟨by decide, List.forall_mem_singleton.mpr hc⟩

theorem isEscaped_control (h : c < 32 ∨ c = 127) : IsEscaped special toStringMode c := by
  rcases h with hlow | hdel
  · exact .inr (.inr (.inr (.inr (.inl hlow))))
  · exact .inr (.inr (.inr (.inr (.inr (.inl hdel)))))

theorem bytePiece_quoted (h : c = ch '\\' ∨ c = ch '\'' ∨ c = ch '"') :
    (bytePiece special toStringMode c).Ok special toStringMode := by
  have hascii : c ≤ 127 := by
    rcases h with rfl | rfl | rfl
    · decide
    · decide
    · decide
  apply bytePiece_of (escapeNext_quoted h)
  · rw [marked_low hascii]
    exact decodes_quoted h
  · refine .inr ⟨List.mem_cons_self, isASCII_pair hascii, ?_⟩
    rcases h with hc | hc | hc
    · exact .inl hc
    · exact .inr (.inl hc)
    · exact .inr (.inr (.inl hc))

theorem bytePiece_letter (hquoted : ¬ (c = ch '\\' ∨ c = ch '\'' ∨ c = ch '"'))
    (h : letter toStringMode c = some d) :
    (bytePiece special toStringMode c).Ok special toStringMode := by
  obtain ⟨-, -, hlow, hascii⟩ := letter_spec h
  apply bytePiece_of (escapeNext_letter hquoted h)
  · rw [marked_low (UInt8.le_trans (UInt8.le_of_lt hlow) (by decide))]
    exact decodes_letter h
  · exact .inr ⟨List.mem_cons_self, isASCII_pair hascii, isEscaped_control (.inl hlow)⟩

theorem outside_of_control (h : c < 32 ∨ c = 127) : c < 32 ∨ 126 < c := by
  apply h.imp_right
  rintro rfl
  decide

section

variable (hquoted : ¬ (c = ch '\\' ∨ c = ch '\'' ∨ c = ch '"'))
  (hletter : letter toStringMode c = none)

include hquoted hletter

theorem bytePiece_special (hc : c ∈ special) (h : IsSpecial c) :
    (bytePiece special toStringMode c).Ok special toStringMode := by
  have hascii := le_127 h.2.1
  apply bytePiece_of (fun s => (escapeNext_other hquoted hletter s).trans (if_pos hc))
  · rw [marked_low hascii]
    exact decodes_special hc h
  · exact .inr ⟨List.mem_cons_self, isASCII_pair hascii, .inr (.inr (.inr (.inl hc)))⟩

theorem bytePiece_octal (hc : c ∉ special) (hrange : c < 32 ∨ 126 < c)
    (hmode : toStringMode = .compat) :
    (bytePiece special toStringMode c).Ok special toStringMode := by
  have hother := @escapeNext_other special _ _ hquoted hletter
  apply bytePiece_of (fun s => (hother s).trans (by rw [if_neg hc, if_pos hrange, if_pos hmode]))
  · have hflag : (!decide (toStringMode ≠ .unicode ∧ 127 < c)) = decide (c ≤ 127) := by
      rw [hmode]
      simp [← UInt8.not_le]
    rw [hflag]
    exact decodes_octal special c
  · refine .inr ⟨List.mem_cons_self, isASCII_octal c, ?_⟩
    by_cases hcontrol : c < 32 ∨ c = 127
    · exact isEscaped_control hcontrol
    · obtain ⟨hlow, hdel⟩ := not_or.mp hcontrol
      have hlt := lt_of_126_lt (hrange.resolve_left hlow) hdel
      refine .inr (.inr (.inr (.inr (.inr (.inr ⟨hlt, ?_⟩)))))
      rw [hmode]
      nofun

theorem bytePiece_control (hc : c ∉ special) (hcompat : toStringMode ≠ .compat)
    (hcontrol : c < 32 ∨ c = 127) :
    (bytePiece special toStringMode c).Ok special toStringMode := by
  have hother := @escapeNext_other special _ _ hquoted hletter
  have hrange := outside_of_control hcontrol
  have hascii : c ≤ 127 := by
    rcases hcontrol with hlow | rfl
    · exact UInt8.le_trans (UInt8.le_of_lt hlow) (by decide)
    · decide
  apply bytePiece_of (fun s => (hother s).trans
    (by rw [if_neg hc, if_pos hrange, if_neg hcompat, if_pos hcontrol]))
  · rw [marked_low hascii]
    exact decodes_control hascii
  · exact .inr ⟨List.mem_cons_self, isASCII_control c, isEscaped_control hcontrol⟩

theorem bytePiece_plain (hc : c ∉ special) (hcontrol : ¬ (c < 32 ∨ c = 127))
    (hmode : 127 < c → toStringMode = .unicode) :
    (bytePiece special toStringMode c).Ok special toStringMode := by
  obtain ⟨hlow, hdel⟩ := not_or.mp hcontrol
  have hother := @escapeNext_other special _ _ hquoted hletter
  have hplain : ∀ s, escapeNext special toStringMode c s = some ([c], s) := by
    intro s
    rw [hother, if_neg hc]
    by_cases hrange : c < 32 ∨ 126 < c
    · have hunicode := hmode (lt_of_126_lt (hrange.resolve_left hlow) hdel)
      rw [if_pos hrange, hunicode, if_neg nofun, if_neg hcontrol, if_neg nofun]
    · rw [if_neg hrange]
  have hmarked : (!decide (toStringMode ≠ .unicode ∧ 127 < c)) = true := by
    rw [Bool.not_eq_true', decide_eq_false_iff_not]
    rintro ⟨hnot, hlt⟩
    exact hnot (hmode hlt)
  apply bytePiece_of hplain
  · rw [hmarked]
    exact decodes_plain (fun heq => hquoted (.inl heq)) hlow hdel
  · refine .inl ⟨rfl, ?_⟩
    rintro (heq | heq | heq | heq | heq | heq | heq)
    · exact hquoted (.inl heq)
    · exact hquoted (.inr (.inl heq))
    · exact hquoted (.inr (.inr heq))
    · exact hc heq
    · exact hlow heq
    · exact hdel heq
    · exact heq.2 (hmode heq.1)

end

/-- The bytes of a string are its pieces, in ASCII mode those of ASCII. -/
theorem bytePiece_ok (hspecial : ∀ c ∈ special, IsSpecial c)
    (h : toStringMode ≠ .ascii ∨ c ≤ 127) :
    (bytePiece special toStringMode c).Ok special toStringMode := by
  by_cases hquoted : c = ch '\\' ∨ c = ch '\'' ∨ c = ch '"'
  · exact bytePiece_quoted hquoted
  · cases hletter : letter toStringMode c with
    | some d => exact bytePiece_letter hquoted hletter
    | none =>
      by_cases hc : c ∈ special
      · exact bytePiece_special hquoted hletter hc (hspecial c hc)
      · by_cases hcontrol : c < 32 ∨ c = 127
        · by_cases hcompat : toStringMode = .compat
          · have hrange := outside_of_control hcontrol
            exact bytePiece_octal hquoted hletter hc hrange hcompat
          · exact bytePiece_control hquoted hletter hc hcompat hcontrol
        · by_cases hhigh : 127 < c
          · cases toStringMode with
            | unicode => exact bytePiece_plain hquoted hletter hc hcontrol fun _ => rfl
            | ascii => exact absurd (h.resolve_left (absurd rfl)) (UInt8.not_le.mpr hhigh)
            | compat =>
              have hrange : c < 32 ∨ 126 < c := .inr (UInt8.lt_trans (by decide) hhigh)
              exact bytePiece_octal hquoted hletter hc hrange rfl
          · exact bytePiece_plain hquoted hletter hc hcontrol fun hlt => absurd hlt hhigh

end

end Ice.IceUtil
