import Ice.IceUtil.EscapeRoundTrip
import Ice.IceUtil.NativeEncoding

/-!
# Escaped texts

`unescapeString` gives back the text that was escaped, from between any two strings, unless it
takes too many characters or does not convert what it decoded.
-/

namespace Ice.IceUtil

open List (append_nil forall_mem_append map_cons mem_map mem_singleton)

/-- The pieces of a text: its characters in ASCII mode, and its bytes in the other modes -/
def pieces (special : Str) (toStringMode : ToStringMode) (cs : List Char) : List Piece :=
  if toStringMode = .ascii then cs.map (charPiece special)
  else (utf8 cs).map (bytePiece special toStringMode)

/-- What is written for a text, in UTF-8 -/
def escaped (special : Str) (toStringMode : ToStringMode) (cs : List Char) : Str :=
  outOf (pieces special toStringMode cs)

section

variable {special : Str} {toStringMode : ToStringMode} {cs : List Char}

theorem pieces_ok (hspecial : ∀ c ∈ special, IsSpecial c) :
    ∀ p ∈ pieces special toStringMode cs, p.Ok special toStringMode := by
  unfold pieces
  split
  · rename_i hmode
    subst hmode
    intro p hp
    obtain ⟨c, _, rfl⟩ := mem_map.mp hp
    exact charPiece_ok hspecial c
  · rename_i hmode
    intro p hp
    obtain ⟨c, _, rfl⟩ := mem_map.mp hp
    exact bytePiece_ok hspecial (.inl hmode)

theorem rawOf_bytes (u : Str) : rawOf (u.map (bytePiece special toStringMode)) = u := by
  induction u with
  | nil => rfl
  | cons c u ih =>
    rw [map_cons, rawOf_cons, ih]
    rfl

theorem rawOf_pieces : rawOf (pieces special toStringMode cs) = utf8 cs := by
  unfold pieces
  split
  · induction cs with
    | nil => rfl
    | cons c cs ih => rw [map_cons, rawOf_cons, ih, raw_charPiece, utf8_cons]
  · exact rawOf_bytes _

section

variable (hspecial : ∀ c ∈ special, IsSpecial c)

include hspecial

theorem escapeLoop_utf8 :
    escapeLoop special toStringMode (utf8 cs).length (utf8 cs) =
      some (escaped special toStringMode cs) := by
  have h := @escapeLoop_pieces special toStringMode (pieces special toStringMode cs)
    (pieces_ok hspecial) _ (Nat.le_refl _)
  rwa [rawOf_pieces] at h

theorem mem_escaped :
    ch '\\' ∈ escaped special toStringMode cs ↔
      ∃ c ∈ utf8 cs, IsEscaped special toStringMode c := by
  have h := @mem_outOf special toStringMode (pieces special toStringMode cs) (pieces_ok hspecial)
  rwa [rawOf_pieces] at h

theorem escaped_kept
    (hkept : ∀ c ∈ utf8 cs, ¬ IsEscaped special toStringMode c) :
    escaped special toStringMode cs = utf8 cs := by
  have h := @outOf_kept special toStringMode (pieces special toStringMode cs) (pieces_ok hspecial)
  rw [rawOf_pieces] at h
  exact h hkept

theorem isASCII_escaped
    (hmode : toStringMode = .unicode → IsASCII (utf8 cs)) :
    IsASCII (escaped special toStringMode cs) := by
  have hok := @pieces_ok special toStringMode cs hspecial
  have h := isASCII_outOf hok
  rw [rawOf_pieces] at h
  exact h hmode

end

/-- The result of decoding is taken for ASCII if there were only bytes above ASCII. -/
def unmarked (toStringMode : ToStringMode) (u : Str) : Bool :=
  u.all fun c => decide (toStringMode ≠ .unicode ∧ 127 < c)

theorem unmarked_iff {u : Str} :
    unmarked toStringMode u = true ↔ ∀ c ∈ u, toStringMode ≠ .unicode ∧ 127 < c := by
  unfold unmarked
  rw [List.all_eq_true]
  simp only [decide_eq_true_eq]

section

variable (hspecial : ∀ c ∈ special, IsSpecial c)

include hspecial

/-- What is written for a text is decoded to it. -/
theorem decodeLoop_escaped {n : Nat}
    (hn : (escaped special toStringMode cs).length ≤ n) :
    decodeLoop special n (escaped special toStringMode cs) =
      some (unmarked toStringMode (utf8 cs), utf8 cs) := by
  have hok := @pieces_ok special toStringMode cs hspecial
  have hany := any_decoded hok
  have h := @decodeLoop_pieces special toStringMode _ hok [] n
    (by rw [append_nil]; exact hn)
  rw [rawOf_pieces] at hany h
  rw [append_nil] at h
  rw [escaped, h]
  cases hdecoded : (pieces special toStringMode cs).any Piece.decoded with
  | false =>
    rw [unmarked_iff.mpr (hany.mp hdecoded)]
    simp [decodeLoop]
  | true =>
    have hmarked : unmarked toStringMode (utf8 cs) = false := by
      by_contra hnot
      rw [hany.mpr (unmarked_iff.mp (Bool.not_eq_false _ ▸ hnot))] at hdecoded
      cases hdecoded
    rw [hmarked]
    simp [decodeLoop]

/-- What is behind is decoded as well, and is something. -/
theorem decodeLoop_more {n : Nat} {t result : Str}
    {pure : Bool} (ht : t ≠ []) (hn : (escaped special toStringMode cs ++ t).length ≤ n)
    (h : decodeLoop special n (escaped special toStringMode cs ++ t) = some (pure, result)) :
    result ≠ utf8 cs ∧
      (unmarked toStringMode (utf8 cs) = false → pure = false) := by
  have hok := @pieces_ok special toStringMode cs hspecial
  have hany := any_decoded hok
  have hloop := @decodeLoop_pieces special toStringMode _ hok t n hn
  rw [rawOf_pieces] at hany hloop
  rw [escaped, hloop] at h
  obtain ⟨⟨flag, more⟩, hmore, heq⟩ := Option.map_eq_some_iff.mp h
  cases heq
  constructor
  · intro heq
    exact decodeLoop_ne ht hmore (List.append_right_eq_self.mp heq)
  · intro hmarked
    apply if_pos
    rw [← Bool.not_eq_false, hany, ← unmarked_iff, hmarked]
    nofun

theorem inRange_special : InRange special :=
  fun c hc => ⟨(hspecial c hc).1, (hspecial c hc).2.1⟩

end

end

/-- The text that is written for a character in Unicode mode -/
def written (special : Str) (c : Char) : List Char :=
  if c.val.toNat ≤ 0x7f then
    (escapedByte special .unicode (UInt8.ofNat c.val.toNat)).map charOf
  else [c]

/-- What is written in Unicode mode for a text `u` of the string `s`: `w` in UTF-8, and `y` in the
encoding. -/
structure Written (special u s w y : Str) : Prop where
  slash : ch '\\' ∈ y ↔ (∃ c ∈ u, IsEscaped special .unicode c) ∨ ch '\\' ∈ s
  ascii : IsASCII y ↔ IsASCII u
  pure : IsASCII u → y = w
  kept : (∀ c ∈ u, ¬ IsEscaped special .unicode c) → y = s
  printed : (∀ c ∈ u, ¬ IsEscaped special .unicode c) → ∀ c ∈ s, checkChar c = some c

section

variable {special : Str} {encoding : Encoding} {c : Char} {cs : List Char}
  {u u' s s' w w' y y' : Str}

theorem isASCII_append : IsASCII (u ++ u') ↔ IsASCII u ∧ IsASCII u' := by
  simp only [IsASCII, forall_mem_append]

theorem Written.append (h : Written special u s w y) (h' : Written special u' s' w' y') :
    Written special (u ++ u') (s ++ s') (w ++ w') (y ++ y') where
  slash := by
    simp only [List.mem_append, h.slash, h'.slash, or_and_right, exists_or]
    exact or_or_or_comm
  ascii := by rw [isASCII_append, isASCII_append, h.ascii, h'.ascii]
  pure hascii := by
    obtain ⟨hleft, hright⟩ := isASCII_append.mp hascii
    rw [h.pure hleft, h'.pure hright]
  kept hkept := by
    obtain ⟨hleft, hright⟩ := forall_mem_append.mp hkept
    rw [h.kept hleft, h'.kept hright]
  printed hkept := by
    obtain ⟨hleft, hright⟩ := forall_mem_append.mp hkept
    exact forall_mem_append.mpr ⟨h.printed hleft, h'.printed hright⟩

theorem native_ascii (h : IsASCII s) : encoding.native (s.map charOf) = some s := by
  induction s with
  | nil => rfl
  | cons b s ih =>
    obtain ⟨hb, hs⟩ := List.forall_mem_cons.mp h
    exact native_cons.mpr ⟨[b], s, encode_charOf hb, ih hs, rfl⟩

theorem utf8_ascii (h : IsASCII s) : utf8 (s.map charOf) = s := by
  have hnative := @native_ascii utf8Encoding s h
  rw [native_utf8] at hnative
  exact Option.some.inj hnative

section

variable (hspecial : ∀ c ∈ special, IsSpecial c)

include hspecial

/-- A character of ASCII that is written -/
theorem written_low (hc : c.val.toNat ≤ 0x7f) :
    utf8 (written special c) =
        outOf ((String.utf8EncodeChar c).map (bytePiece special .unicode)) ∧
      ∃ y, encoding.native (written special c) = some y ∧
        Written special (String.utf8EncodeChar c) [UInt8.ofNat c.val.toNat]
          (utf8 (written special c)) y := by
  have hbyte : UInt8.ofNat c.val.toNat ≤ 127 := by
    rw [UInt8.le_iff_toNat_le, toNat_ofNat (by omega)]
    exact hc
  have hutf8 := utf8EncodeChar_one hc
  generalize hb : UInt8.ofNat c.val.toNat = b at hbyte hutf8 ⊢
  have hok := @bytePiece_ok special .unicode b hspecial (.inr hbyte)
  have hascii : IsASCII (escapedByte special .unicode b) := by
    rcases hok.kept with ⟨heq, _⟩ | ⟨_, hout, _⟩
    · change escapedByte special .unicode b = [b] at heq
      rw [heq]
      exact List.forall_mem_singleton.mpr hbyte
    · exact hout
  have hwritten : written special c = (escapedByte special .unicode b).map charOf := by
    unfold written
    rw [if_pos hc, hb]
  rw [hwritten, utf8_ascii hascii, hutf8]
  refine ⟨(append_nil _).symm, _, native_ascii hascii, ?_, ?_, ?_, ?_, ?_⟩
  · simp only [mem_singleton, exists_eq_left]
    rcases hok.kept with ⟨heq, hkept⟩ | ⟨hslash, _, d, hd, hescaped⟩
    · change escapedByte special .unicode b = [b] at heq
      have hnot := hkept b (List.mem_singleton_self b)
      rw [heq, mem_singleton]
      exact ⟨.inr, fun h => h.resolve_left hnot⟩
    · rw [mem_singleton.mp hd] at hescaped
      exact iff_of_true hslash (.inl hescaped)
  · exact iff_of_true hascii (List.forall_mem_singleton.mpr hbyte)
  · intro _
    rfl
  · intro hkept
    rcases hok.kept with ⟨heq, _⟩ | ⟨_, _, d, hd, hescaped⟩
    · exact heq
    · exact absurd hescaped (hkept d hd)
  · intro hkept
    have hnot := List.forall_mem_singleton.mp hkept
    rw [List.forall_mem_singleton]
    unfold checkChar
    rw [if_neg]
    rintro (hlow | hdel)
    · exact hnot (.inr (.inr (.inr (.inr (.inl hlow)))))
    · exact hnot (.inr (.inr (.inr (.inr (.inr (.inl hdel))))))

/-- A character that is not in ASCII -/
theorem written_high (hc : ¬ c.val.toNat ≤ 0x7f)
    (hs : encoding.encode c = some s) :
    utf8 (written special c) =
        outOf ((String.utf8EncodeChar c).map (bytePiece special .unicode)) ∧
      ∃ y, encoding.native (written special c) = some y ∧
        Written special (String.utf8EncodeChar c) s (utf8 (written special c)) y := by
  have hlt := Nat.lt_of_not_le hc
  have hhigh := utf8EncodeChar_high hlt
  have hnot : ∀ b ∈ String.utf8EncodeChar c, ¬ IsEscaped special .unicode b := by
    have hbytes : ∀ b : UInt8, 127 < b → ¬ (b = ch '\\' ∨ b = ch '\'' ∨ b = ch '"') ∧ ¬ b ≤ 126 ∧
        ¬ (b < 32 ∨ b = 127) := by
      apply forall_byte
      decide +kernel
    intro b hb
    obtain ⟨hquoted, hle, hcontrol⟩ := hbytes b (hhigh b hb)
    rintro (h | h | h | h | h | h | h)
    · exact hquoted (.inl h)
    · exact hquoted (.inr (.inl h))
    · exact hquoted (.inr (.inr h))
    · exact hle (hspecial b h).2.1
    · exact hcontrol (.inl h)
    · exact hcontrol (.inr h)
    · exact h.2 rfl
  have hwritten : written special c = [c] := if_neg hc
  have hutf8 : utf8 [c] = String.utf8EncodeChar c := append_nil _
  have hbytes : ∀ p ∈ (String.utf8EncodeChar c).map (bytePiece special .unicode),
      p.Ok special .unicode := by
    intro p hp
    obtain ⟨b, _, rfl⟩ := mem_map.mp hp
    exact bytePiece_ok hspecial (.inl nofun)
  have hkept := outOf_kept hbytes (by rwa [rawOf_bytes])
  have hnone : ¬ IsASCII (String.utf8EncodeChar c) := by
    obtain ⟨b, bs, heq, hb, _⟩ := readCodePoint_utf8 hlt
    intro hascii
    have hle := hascii b (heq ▸ List.mem_cons_self)
    exact UInt8.not_lt.mpr hle (UInt8.lt_iff_toNat_lt.mpr hb)
  rw [rawOf_bytes] at hkept
  rw [hwritten, hutf8, hkept]
  refine ⟨rfl, s, native_cons.mpr ⟨s, [], hs, rfl, (append_nil s).symm⟩, ?_, ?_, ?_, ?_, ?_⟩
  · constructor
    · exact .inr
    · rintro (⟨b, hb, hescaped⟩ | hmem)
      · exact absurd hescaped (hnot b hb)
      · exact hmem
  · obtain ⟨b, hb, hhead⟩ := encode_high hs hlt
    exact iff_of_false (fun hascii => UInt8.not_lt.mpr (hascii b hb) hhead) hnone
  · intro hascii
    exact absurd hascii hnone
  · intro _
    rfl
  · intro _
    exact encoding.printed c s hs hlt

/-- What is written for a text in Unicode mode is a text of the encoding as well. -/
theorem written_text (hs : encoding.native cs = some s) :
    utf8 (cs.flatMap (written special)) = escaped special .unicode cs ∧
      ∃ y, encoding.native (cs.flatMap (written special)) = some y ∧
        Written special (utf8 cs) s (escaped special .unicode cs) y := by
  induction cs generalizing s with
  | nil =>
    cases hs
    refine ⟨rfl, [], rfl, ?_, ?_, ?_, ?_, ?_⟩
    · simp [utf8]
    · exact Iff.rfl
    · intro _
      rfl
    · intro _
      rfl
    · nofun
  | cons c cs ih =>
    obtain ⟨bs, t, hbs, ht, rfl⟩ := native_cons.mp hs
    obtain ⟨hrest, y, hy, hwritten⟩ := ih ht
    have hfirst : utf8 (written special c) =
          outOf ((String.utf8EncodeChar c).map (bytePiece special .unicode)) ∧
        ∃ y, encoding.native (written special c) = some y ∧
          Written special (String.utf8EncodeChar c) bs (utf8 (written special c)) y := by
      by_cases hc : c.val.toNat ≤ 0x7f
      · rw [encoding.ascii c hc] at hbs
        cases hbs
        exact written_low hspecial hc
      · exact written_high hspecial hc hbs
    obtain ⟨hraw, z, hz, hchar⟩ := hfirst
    have hsplit : escaped special .unicode (c :: cs) =
        utf8 (written special c) ++ escaped special .unicode cs := by
      rw [hraw]
      unfold escaped pieces
      rw [if_neg nofun, if_neg nofun, utf8_cons, List.map_append]
      exact List.flatMap_append
    rw [List.flatMap_cons, hsplit, utf8_cons]
    refine ⟨?_, z ++ y, native_append hz hy, hchar.append hwritten⟩
    rw [← hrest]
    exact List.flatMap_append

end

end

end Ice.IceUtil
