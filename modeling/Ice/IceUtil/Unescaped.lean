import Ice.IceUtil.EscapedText

/-!
# The round trip of an escaped text

Where `unescapeString` takes too many characters, and where it does not convert what it decoded
-/

namespace Ice.IceUtil

open Option (bind_some)

section

variable {special : Str} {toStringMode : ToStringMode} {encoding : Encoding}
  {converter : Option StringConverter} {cs : List Char} {s t u e pre post : Str}

theorem substr_between : substr (pre ++ e ++ post) pre.length e.length = e := by
  unfold substr
  rw [List.append_assoc, List.drop_left, List.take_left]

/-- `substr` takes as many characters from behind the string as there are before it. -/
theorem substr_beyond : substr (pre ++ e ++ post) pre.length (pre.length + e.length) =
    e ++ post.take pre.length := by
  unfold substr
  rw [List.append_assoc, List.drop_left, List.take_append,
    List.take_of_length_le (Nat.le_add_left _ _), Nat.add_sub_cancel]

theorem take_eq_nil : post.take pre.length = [] ↔ pre = [] ∨ post = [] := by
  rw [List.take_eq_nil_iff, List.length_eq_zero_iff]

theorem unescapeString_plain (hrange : InRange special) (hslash : ch '\\' ∉ e)
    (hcheck : ∀ c ∈ e, checkChar c = some c) :
    unescapeString converter (pre ++ e ++ post) pre.length (pre.length + e.length) special =
      some (e ++ post.take pre.length) := by
  have hall : (e.all fun c => (checkChar c).isSome) = true := by
    apply List.all_eq_true.mpr
    intro c hc
    rw [hcheck c hc]
    rfl
  unfold unescapeString
  dsimp only
  rw [if_pos hrange, Nat.add_sub_cancel_left, substr_between, substr_beyond, if_pos hslash,
    if_pos hall]

theorem unescapeString_slash (hrange : InRange special) (hslash : ch '\\' ∈ e) :
    unescapeString converter (pre ++ e ++ post) pre.length (pre.length + e.length) special =
      (if converter.isSome ∧ ¬ IsASCII e then nativeToUTF8 (e ++ post.take pre.length) converter
        else some e).bind fun u8s => (decodeLoop special u8s.length u8s).bind fun r =>
          if converter.isSome ∧ ¬ r.1 then UTF8ToNative r.2 converter else some r.2 := by
  unfold unescapeString
  dsimp only
  rw [if_pos hrange, Nat.add_sub_cancel_left, substr_between, substr_beyond,
    if_neg (not_not_intro hslash)]
  split
  · rfl
  · rfl

theorem nativeToUTF8_text (h : EncodedBy encoding converter) (hs : encoding.native cs = some s) :
    nativeToUTF8 s converter = some (utf8 cs) := by
  cases converter with
  | none =>
    cases h
    rw [native_utf8] at hs
    exact hs.symm
  | some converter =>
    unfold nativeToUTF8
    dsimp only
    split
    · rename_i hnil
      rw [hnil] at hs ⊢
      rw [text_nil hs]
      rfl
    · exact (h.toUTF8 s _).mpr ⟨cs, hs, rfl⟩

theorem UTF8ToNative_text (h : EncodedBy encoding converter) (hs : encoding.native cs = some s) :
    UTF8ToNative (utf8 cs) converter = some s := by
  cases converter with
  | none =>
    cases h
    rwa [native_utf8] at hs
  | some converter =>
    unfold UTF8ToNative
    dsimp only
    split
    · rename_i hnil
      have hcs : cs = [] := by
        cases cs with
        | nil => rfl
        | cons c cs =>
          have hne : String.utf8EncodeChar c ≠ [] := @encode_ne utf8Encoding c _ rfl
          exact absurd (List.append_eq_nil_iff.mp hnil).1 hne
      rw [hnil, ← hs, hcs]
      rfl
    · exact (h.fromUTF8 s _).mpr ⟨cs, hs, rfl⟩

theorem eq_of_UTF8ToNative {converter : StringConverter} (h : Lossless encoding converter)
    (hs : encoding.native cs = some s) (hu : UTF8ToNative u (some converter) = some s) :
    u = utf8 cs := by
  unfold UTF8ToNative at hu
  dsimp only at hu
  split at hu
  · rename_i hnil
    cases hu
    rw [hnil] at hs
    rw [text_nil hs, hnil]
    rfl
  · obtain ⟨ds, hds, rfl⟩ := (h.fromUTF8 s u).mp hu
    rw [native_injective hs hds]

theorem text_of_nativeToUTF8 {converter : StringConverter} (h : Lossless encoding converter)
    (ht : nativeToUTF8 t (some converter) = some u) :
    ∃ ds, encoding.native ds = some t ∧ u = utf8 ds := by
  unfold nativeToUTF8 at ht
  dsimp only at ht
  split at ht
  · rename_i hnil
    cases ht
    exact ⟨[], hnil ▸ rfl, hnil⟩
  · exact (h.toUTF8 t u).mp ht

theorem escapeString_text (h : EncodedBy encoding converter) (hs : encoding.native cs = some s)
    (hspecial : ∀ c ∈ special, IsSpecial c) : escapeString converter s special toStringMode =
      if toStringMode = .unicode then UTF8ToNative (escaped special toStringMode cs) converter
      else some (escaped special toStringMode cs) := by
  unfold escapeString
  rw [if_pos (inRange_special hspecial), nativeToUTF8_text h hs]
  dsimp only [Option.bind_eq_bind, bind_some]
  rw [escapeLoop_utf8 hspecial]
  rfl

/-- When the string that was escaped is given back: if there is something before and behind what is
written, that must have a backslash, and in Unicode mode a converter must have nothing to convert.
In the other modes a converter is not used for a text without characters of ASCII. -/
structure RoundTrips (converter : Option StringConverter) (special : Str)
    (toStringMode : ToStringMode) (s u pre post : Str) : Prop where
  substring : pre ≠ [] → post ≠ [] →
    ((∃ c ∈ u, IsEscaped special toStringMode c) ∨ ch '\\' ∈ s) ∧
      (converter.isSome → toStringMode = .unicode → IsASCII u)
  converted : converter.isSome → toStringMode ≠ .unicode → s ≠ [] → (∀ c ∈ u, 127 < c) → u = s

/-- Nothing is written with a backslash. -/
theorem roundTrips_plain (hrange : InRange special) (hslash : ch '\\' ∉ s)
    (hcheck : ∀ c ∈ s, checkChar c = some c)
    (hkept : ∀ c ∈ u, ¬ IsEscaped special toStringMode c)
    (hsame : toStringMode ≠ .unicode → u = s) :
    unescapeString converter (pre ++ s ++ post) pre.length (pre.length + s.length) special =
      some s ↔ RoundTrips converter special toStringMode s u pre post := by
  rw [unescapeString_plain hrange hslash hcheck]
  constructor
  · intro heq
    have htake : post.take pre.length = [] := by
      rw [Option.some.injEq] at heq
      exact List.append_right_eq_self.mp heq
    refine ⟨fun hpre hpost => ?_, fun _ hmode _ _ => hsame hmode⟩
    rcases take_eq_nil.mp htake with hnil | hnil
    · exact absurd hnil hpre
    · exact absurd hnil hpost
  · intro h
    have htake : post.take pre.length = [] := by
      rw [take_eq_nil]
      by_contra hboth
      obtain ⟨hpre, hpost⟩ := not_or.mp hboth
      rcases (h.substring hpre hpost).1 with ⟨c, hc, hescaped⟩ | hmem
      · exact hkept c hc hescaped
      · exact hslash hmem
    rw [htake, List.append_nil]

/-- Without a converter, what is decoded is the string. -/
theorem roundTrips_none (hs : s = utf8 cs) (hspecial : ∀ c ∈ special, IsSpecial c)
    (hslash : ch '\\' ∈ escaped special toStringMode cs) :
    unescapeString none (pre ++ escaped special toStringMode cs ++ post) pre.length
        (pre.length + (escaped special toStringMode cs).length) special = some s ↔
      RoundTrips none special toStringMode s (utf8 cs) pre post := by
  rw [unescapeString_slash (inRange_special hspecial) hslash, if_neg (by simp), bind_some,
    decodeLoop_escaped hspecial (Nat.le_refl _), bind_some, if_neg (by simp)]
  have hescaped := (mem_escaped hspecial).mp hslash
  exact iff_of_true (congrArg some hs.symm) ⟨fun _ _ => ⟨.inl hescaped, nofun⟩, nofun⟩

/-- In ASCII and Compat mode a converter is used if something of ASCII was decoded. -/
theorem roundTrips_ascii {converter : StringConverter} (h : Lossless encoding converter)
    (hs : encoding.native cs = some s) (hspecial : ∀ c ∈ special, IsSpecial c)
    (hmode : toStringMode ≠ .unicode) (hslash : ch '\\' ∈ escaped special toStringMode cs) :
    unescapeString (some converter) (pre ++ escaped special toStringMode cs ++ post) pre.length
        (pre.length + (escaped special toStringMode cs).length) special = some s ↔
      RoundTrips (some converter) special toStringMode s (utf8 cs) pre post := by
  have hascii := @isASCII_escaped special toStringMode cs hspecial (fun h => absurd h hmode)
  have hescaped := (mem_escaped hspecial).mp hslash
  rw [unescapeString_slash (inRange_special hspecial) hslash,
    if_neg (fun hnot => hnot.2 hascii), bind_some,
    decodeLoop_escaped hspecial (Nat.le_refl _), bind_some]
  dsimp only
  by_cases hunmarked : unmarked toStringMode (utf8 cs) = true
  · rw [if_neg (fun hnot => hnot.2 hunmarked), Option.some.injEq]
    constructor
    · intro heq
      exact ⟨fun _ _ => ⟨.inl hescaped, fun _ hunicode => absurd hunicode hmode⟩,
        fun _ _ _ _ => heq⟩
    · intro hround
      by_cases hnil : s = []
      · rw [hnil] at hs ⊢
        rw [text_nil hs]
        rfl
      · exact hround.converted rfl hmode hnil fun c hc => (unmarked_iff.mp hunmarked c hc).2
  · rw [if_pos ⟨rfl, hunmarked⟩, @UTF8ToNative_text encoding (some converter) cs s h hs]
    refine iff_of_true rfl
      ⟨fun _ _ => ⟨.inl hescaped, fun _ hunicode => absurd hunicode hmode⟩, ?_⟩
    intro _ _ _ hall
    exact absurd (unmarked_iff.mpr fun c hc => ⟨hmode, hall c hc⟩) hunmarked

/-- In Unicode mode with a converter, what is taken from the string is converted before it is
decoded, if it is not ASCII. -/
theorem roundTrips_unicode {converter : StringConverter} (h : Lossless encoding converter)
    (hs : encoding.native cs = some s) (hspecial : ∀ c ∈ special, IsSpecial c)
    (he : encoding.native (cs.flatMap (written special)) = some e)
    (hwritten : Written special (utf8 cs) s (escaped special .unicode cs) e)
    (hslash : ch '\\' ∈ e) :
    unescapeString (some converter) (pre ++ e ++ post) pre.length (pre.length + e.length) special =
      some s ↔ RoundTrips (some converter) special .unicode s (utf8 cs) pre post := by
  have hmem := hwritten.slash.mp hslash
  have hcs : utf8 cs ≠ [] := by
    intro hnil
    have hs' := @UTF8ToNative_text encoding (some converter) cs s h hs
    rw [hnil] at hs'
    cases hs'
    rcases hmem with ⟨c, hc, _⟩ | hmem
    · rw [hnil] at hc
      cases hc
    · cases hmem
  have hmarked : unmarked .unicode (utf8 cs) = false := by
    by_contra hnot
    obtain ⟨c, hc⟩ := List.exists_mem_of_ne_nil _ hcs
    exact (unmarked_iff.mp (Bool.not_eq_false _ ▸ hnot) c hc).1 rfl
  -- What is decoded if nothing is taken from behind
  have hdecoded : ((decodeLoop special (escaped special .unicode cs).length
      (escaped special .unicode cs)).bind fun r =>
        if (some converter).isSome ∧ ¬ r.1 then UTF8ToNative r.2 (some converter)
        else some r.2) = some s := by
    rw [decodeLoop_escaped hspecial (Nat.le_refl _), bind_some, hmarked, if_pos ⟨rfl, nofun⟩]
    exact @UTF8ToNative_text encoding (some converter) cs s h hs
  rw [unescapeString_slash (inRange_special hspecial) hslash]
  by_cases hascii : IsASCII e
  · have hpure := hwritten.ascii.mp hascii
    rw [if_neg (fun hnot => hnot.2 hascii), bind_some, hwritten.pure hpure, hdecoded]
    exact iff_of_true rfl ⟨fun _ _ => ⟨hmem, fun _ _ => hpure⟩, fun _ hmode => absurd rfl hmode⟩
  · rw [if_pos ⟨rfl, hascii⟩]
    by_cases htake : post.take pre.length = []
    · have hconvert := @nativeToUTF8_text encoding (some converter) _ e h he
      rw [(written_text hspecial hs).1] at hconvert
      rw [htake, List.append_nil, hconvert, bind_some, hdecoded]
      refine iff_of_true rfl ⟨fun hpre hpost => ?_, fun _ hmode => absurd rfl hmode⟩
      rcases take_eq_nil.mp htake with hnil | hnil
      · exact absurd hnil hpre
      · exact absurd hnil hpost
    · obtain ⟨hpre, hpost⟩ := not_or.mp (mt take_eq_nil.mpr htake)
      apply iff_of_false
      · intro heq
        obtain ⟨w, hw, hloop⟩ := Option.bind_eq_some_iff.mp heq
        obtain ⟨⟨flag, r⟩, hr, hresult⟩ := Option.bind_eq_some_iff.mp hloop
        obtain ⟨ds, hds, rfl⟩ := text_of_nativeToUTF8 h hw
        obtain ⟨es, rfl, hes⟩ := native_split he hds
        have hbehind : utf8 es ≠ [] := by
          intro hnil
          have hes' := @UTF8ToNative_text encoding (some converter) es _ h hes
          rw [hnil] at hes'
          exact htake (Option.some.inj hes').symm
        have hsplit : utf8 (cs.flatMap (written special) ++ es) =
            escaped special .unicode cs ++ utf8 es := by
          rw [← (written_text hspecial hs).1]
          exact List.flatMap_append
        rw [hsplit] at hr
        obtain ⟨hne, hflag⟩ := decodeLoop_more hspecial hbehind (Nat.le_refl _) hr
        rw [hflag hmarked, if_pos ⟨rfl, nofun⟩] at hresult
        exact hne (eq_of_UTF8ToNative h hs hresult)
      · intro hround
        exact hascii (hwritten.ascii.mpr ((hround.substring hpre hpost).2 rfl rfl))

/-- In ASCII and Compat mode a text that is written without a backslash is in ASCII. -/
theorem ascii_kept (hs : encoding.native cs = some s) (hmode : toStringMode ≠ .unicode)
    (hkept : ∀ c ∈ utf8 cs, ¬ IsEscaped special toStringMode c) : utf8 cs = s := by
  have hascii : IsASCII (utf8 cs) := by
    intro c hc
    refine UInt8.not_lt.mp fun hlt => hkept c hc ?_
    exact .inr (.inr (.inr (.inr (.inr (.inr ⟨hlt, hmode⟩)))))
  have hnative := @native_ascii encoding (utf8 cs) hascii
  have htext := @native_ascii utf8Encoding (utf8 cs) hascii
  rw [native_injective htext (native_utf8 cs), hnative] at hs
  exact Option.some.inj hs

/-- A character that is written as it is is no control character. -/
theorem checkChar_kept {c : UInt8} (h : ¬ IsEscaped special toStringMode c) :
    checkChar c = some c := by
  unfold checkChar
  rw [if_neg]
  rintro (hlow | hdel)
  · exact h (.inr (.inr (.inr (.inr (.inl hlow)))))
  · exact h (.inr (.inr (.inr (.inr (.inr (.inl hdel))))))

/-- A text of any encoding is escaped, and unescaped from between any two strings it is itself
exactly when `RoundTrips` holds. -/
theorem unescapeString_escapeString (h : EncodedBy encoding converter)
    (hs : encoding.native cs = some s) (hspecial : ∀ c ∈ special, IsSpecial c) (pre post : Str) :
    ∃ e, escapeString converter s special toStringMode = some e ∧
      (unescapeString converter (pre ++ e ++ post) pre.length (pre.length + e.length) special =
        some s ↔ RoundTrips converter special toStringMode s (utf8 cs) pre post) := by
  have hrange := inRange_special hspecial
  rw [escapeString_text h hs hspecial]
  by_cases hmode : toStringMode = .unicode ∧ converter.isSome
  · obtain ⟨rfl, hsome⟩ := hmode
    obtain ⟨converter, rfl⟩ := Option.isSome_iff_exists.mp hsome
    obtain ⟨htext, e, he, hwritten⟩ := written_text hspecial hs
    have hconvert := @UTF8ToNative_text encoding (some converter) _ e h he
    rw [htext] at hconvert
    rw [if_pos rfl]
    refine ⟨e, hconvert, ?_⟩
    by_cases hslash : ch '\\' ∈ e
    · exact roundTrips_unicode h hs hspecial he hwritten hslash
    · obtain ⟨hkept, hmem⟩ := not_or.mp (mt hwritten.slash.mpr hslash)
      have hnot : ∀ c ∈ utf8 cs, ¬ IsEscaped special .unicode c :=
        fun c hc hescaped => hkept ⟨c, hc, hescaped⟩
      rw [hwritten.kept hnot]
      exact roundTrips_plain hrange hmem (hwritten.printed hnot) hnot (absurd rfl)
  · have hresult : (if toStringMode = .unicode then
        UTF8ToNative (escaped special toStringMode cs) converter
        else some (escaped special toStringMode cs)) = some (escaped special toStringMode cs) := by
      split
      · rename_i hunicode
        have hnone : converter = none := Option.not_isSome_iff_eq_none.mp fun hsome =>
          hmode ⟨hunicode, hsome⟩
        rw [hnone]
        rfl
      · rfl
    rw [hresult]
    refine ⟨_, rfl, ?_⟩
    by_cases hslash : ch '\\' ∈ escaped special toStringMode cs
    · cases converter with
      | none =>
        cases h
        rw [native_utf8] at hs
        exact roundTrips_none (Option.some.inj hs).symm hspecial hslash
      | some converter => exact roundTrips_ascii h hs hspecial (fun heq => hmode ⟨heq, rfl⟩) hslash
    · have hnot : ∀ c ∈ utf8 cs, ¬ IsEscaped special toStringMode c :=
        fun c hc hescaped => hslash ((mem_escaped hspecial).mpr ⟨c, hc, hescaped⟩)
      have hkept := escaped_kept hspecial hnot
      have hsame : utf8 cs = s := by
        by_cases hunicode : toStringMode = .unicode
        · have hnone : converter = none := Option.not_isSome_iff_eq_none.mp fun hsome =>
            hmode ⟨hunicode, hsome⟩
          subst hnone
          cases h
          rw [native_utf8] at hs
          exact Option.some.inj hs
        · exact ascii_kept hs hunicode hnot
      rw [hkept, hsame] at hslash ⊢
      rw [hsame] at hnot
      exact roundTrips_plain hrange hslash (fun c hc => checkChar_kept (hnot c hc)) hnot
        (fun _ => rfl)

/-- A text in Latin-1 between parentheses -/
theorem unescapeString_escapeString_latin1 :
    ∃ e, escapeString (some latin1) [0xE9, ch '/'] [ch '/'] .compat = some e ∧
      unescapeString (some latin1) ([ch '('] ++ e ++ [ch ')']) 1 (1 + e.length) [ch '/'] =
        some [0xE9, ch '/'] := by
  have hencoded : EncodedBy latin1Encoding (some latin1) := lossless_latin1
  have hspecial : ∀ c ∈ [ch '/'], IsSpecial c := List.forall_mem_singleton.mpr (by decide)
  obtain ⟨e, he, hiff⟩ : ∃ e, escapeString _ _ _ .compat = some e ∧ _ :=
    unescapeString_escapeString hencoded (native_latin1 [0xE9, ch '/']) hspecial [ch '('] [ch ')']
  refine ⟨e, he, hiff.mpr ⟨fun _ _ => ⟨.inl ⟨ch '/', by decide, by decide⟩, ?_⟩, ?_⟩⟩
  · intro _ hmode
    cases hmode
  · intro _ _ _ hall
    exact absurd (hall (ch '/') (by decide)) (by decide)

/-- The string is followed by a character that is taken with it. -/
theorem unescapeString_takes_too_many :
    escapeString none [ch 'b'] [] .unicode = some [ch 'b'] ∧
      unescapeString none ([ch 'a'] ++ [ch 'b'] ++ [ch 'c']) 1 2 [] = some [ch 'b', ch 'c'] :=
  ⟨by decide, by decide⟩

end

end Ice.IceUtil
