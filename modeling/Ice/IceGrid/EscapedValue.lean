import Ice.IceGrid.EscapedKey
import Ice.Lib.Words
import Mathlib.Data.List.DropRight

/-!
# Reading an escaped value

A backslash in front of a space or of an `=` of the value is lost, and so is a tab in front of the
value and at its end. Spaces at the front are doubled if only a backslash is behind them.
-/

namespace Ice.IceGrid

open Properties Properties.LineParser
open List (append_assoc append_nil getLast?_concat replicate)

section

variable {prev : Bool} {c : Char} {s : Str} {n : Nat} {p : LineParser}

section

variable (hp : p.state = .value)

include hp

theorem escape_value_escapable (hc : Escapable c) :
    p.escape c = p.addValue [c] := by
  unfold escape
  rw [hp]
  dsimp only
  rw [if_pos hc]

theorem escape_value_space :
    p.escape ' ' = { p with
      whitespace := p.whitespace ++ [' ']
      escapedspace := p.escapedspace ++ [' '] } := by
  unfold escape
  rw [hp]
  rfl

theorem escape_value_other (hc : ¬ Escapable c) (hspace : c ≠ ' ') :
    p.escape c = p.addValue ['\\', c] := by
  unfold escape
  rw [hp]
  dsimp only
  rw [if_neg hc, if_neg hspace]

theorem char_value_blank (hc : Blank c) : (p.char c).getD p =
    if p.value ≠ [] then { p with whitespace := p.whitespace ++ [c] } else p := by
  unfold char
  rw [hp]
  dsimp only
  rw [if_pos hc]
  rfl

theorem char_value_other (hc : ¬ Blank c) (hescaped : ¬ Escaped false c) :
    (p.char c).getD p = p.addValue [c] := by
  have hhash : c ≠ '#' := fun hhash => hescaped (.inl hhash)
  unfold char
  rw [hp]
  dsimp only
  rw [if_neg hc, if_neg hhash]
  rfl

end

@[simp]
theorem flushed_addValue (p : LineParser) (d : Char) (t : Str) :
    (p.addValue (d :: t)).flushed = p.flushed ++ d :: t := by
  simp [flushed, addValue]

/-- The characters in front of which a backslash is lost -/
def Loses (c : Char) : Prop := c = ' ' ∨ c = '='

instance (c : Char) : Decidable (Loses c) := inferInstanceAs (Decidable (_ ∨ _))

/-- The value as far as it is read, with the white space and the backslash that are held back -/
def valueText (p : LineParser) (prev : Bool) : Str := p.flushed ++ pending prev

/-- Something was read of the value, and no escaped space is held back. -/
structure Begun (p : LineParser) : Prop where
  ne : p.value ≠ []
  nil : p.escapedspace = []

theorem begun_addValue (p : LineParser) (d : Char) (t : Str) : Begun (p.addValue (d :: t)) :=
  ⟨by simp [addValue], rfl⟩

theorem not_blank_of_escapable (hc : Escapable c) : ¬ Blank c := by
  rcases hc with rfl | rfl | rfl
  · decide
  · decide
  · decide

/-- A character of the value is read unless it is behind a backslash that is lost. -/
theorem next_value (hp : p.state = .value) (hclear : prev = true → ¬ Loses c)
    (hready : Begun p ∨ prev = true ∨ ¬ Blank c) :
    valueText (next false prev c p) (decide (c = '\\')) = valueText p prev ++ [c] ∧
      (Begun (next false prev c p) ∨ next false prev c p = p ∧ c = '\\' ∧ prev = false) ∧
      (c ≠ '\\' →
        ((prev || !decide (Blank c)) = true ↔ (next false prev c p).whitespace = [])) := by
  unfold next valueText
  by_cases hc : c = '\\'
  · subst hc
    rw [if_pos rfl]
    cases prev
    · simp [pending]
    · rw [if_pos rfl, escape_value_escapable hp (.inl rfl)]
      refine ⟨?_, .inl (begun_addValue _ _ _), fun hne => absurd rfl hne⟩
      simp [pending]
  · rw [if_neg hc, decide_eq_false hc]
    by_cases hescaped : Escaped false c
    · rw [if_pos hescaped]
      have hescapable : Escapable c := .inr (hescaped.imp_right And.left)
      cases prev
      · rw [if_neg Bool.false_ne_true, escape_value_escapable hp hescapable]
        refine ⟨?_, .inl (begun_addValue _ _ _), fun _ => iff_of_true ?_ rfl⟩
        · simp [pending]
        · simp [not_blank_of_escapable hescapable]
      · rw [if_pos rfl, escape_value_escapable hp (.inl rfl),
          escape_value_escapable (p := p.addValue _) hp hescapable]
        refine ⟨?_, .inl (begun_addValue _ _ _), fun _ => iff_of_true rfl rfl⟩
        simp [pending]
    · rw [if_neg hescaped]
      cases prev
      · rw [if_neg Bool.false_ne_true]
        by_cases hblank : Blank c
        · have hbegun : Begun p :=
            hready.resolve_right (fun hor => hor.elim Bool.false_ne_true (fun hnot => hnot hblank))
          rw [char_value_blank hp hblank, if_pos hbegun.ne]
          refine ⟨?_, .inl ⟨hbegun.ne, hbegun.nil⟩, ?_⟩
          · simp [flushed, pending, hbegun.ne]
          · simp [hblank]
        · rw [char_value_other hp hblank hescaped]
          refine ⟨?_, .inl (begun_addValue _ _ _), fun _ => iff_of_true ?_ rfl⟩
          · simp [pending]
          · simp [hblank]
      · have hloses := hclear rfl
        have hspace : c ≠ ' ' := fun hspace => hloses (.inl hspace)
        have hescapable : ¬ Escapable c := by
          rintro (hslash | hhash | hequal)
          · exact hc hslash
          · exact hescaped (.inl hhash)
          · exact hloses (.inr hequal)
        rw [if_pos rfl, escape_value_other hp hescapable hspace]
        refine ⟨?_, .inl (begun_addValue _ _ _), fun _ => iff_of_true rfl rfl⟩
        simp [pending]

/-- A text is read behind something that was read. -/
theorem readAll_value (hp : p.state = .value) (hbegun : Begun p) (hclear : Clear Loses prev s)
    {read : Bool} (hread : prev = false → (read = true ↔ p.whitespace = [])) :
    Begun (readAll false prev s p) ∧
      valueText (readAll false prev s p) (endsEscape prev s) = valueText p prev ++ s ∧
      (tidy read prev s = true ↔
        (readAll false prev s p).whitespace = [] ∨ endsEscape prev s = true) := by
  induction s generalizing prev p read with
  | nil =>
    refine ⟨hbegun, (append_nil _).symm, ?_⟩
    rw [tidy, Bool.or_eq_true, endsEscape, readAll]
    cases prev
    · rw [hread rfl]
    · simp
  | cons c s ih =>
    obtain ⟨hc, hrest⟩ := hclear
    obtain ⟨htext, hbegun', hwhitespace⟩ := next_value hp hc (.inl hbegun)
    have hbehind : Begun (next false prev c p) := by
      rcases hbegun' with hbegun' | ⟨heq, _⟩
      · exact hbegun'
      · rwa [heq]
    have hstate : (next false prev c p).state = .value :=
      (next_state (by simp [hp])).trans hp
    have hagain := ih hstate hbehind hrest
      (fun hprev => hwhitespace (of_decide_eq_false hprev))
    rw [htext, append_assoc] at hagain
    exact hagain

/-- The number of characters other than spaces -/
def weight (s : Str) : Nat := s.countP (· ≠ ' ')

theorem weight_append (s t : Str) : weight (s ++ t) = weight s + weight t :=
  List.countP_append

theorem weight_spaces (n : Nat) : weight (replicate n ' ') = 0 := by
  unfold weight
  rw [List.countP_replicate]
  rfl

/-- The characters other than spaces that are read or held back -/
def held (p : LineParser) (prev : Bool) : Nat :=
  weight p.value + weight p.whitespace + prev.toNat

/-- Only spaces are held back for the ends of the value. -/
def SpacesHeld (p : LineParser) : Prop := weight p.escapedspace = 0

theorem SpacesHeld.flushed (h : SpacesHeld p) : weight p.flushed ≤ held p false := by
  unfold SpacesHeld at h
  unfold LineParser.flushed held
  rw [weight_append]
  split
  · omega
  · exact Nat.le_refl _

theorem held_addValue (h : SpacesHeld p) (s : Str) :
    SpacesHeld (p.addValue s) ∧ held (p.addValue s) false ≤ held p false + weight s := by
  refine ⟨rfl, ?_⟩
  have hle := h.flushed
  unfold held addValue at *
  rw [weight_append]
  have hnil : weight [] = 0 := rfl
  simp only [Bool.toNat_false, hnil] at *
  omega

section

variable (hp : p.state = .value)

include hp

theorem weight_escape (h : SpacesHeld p) (c : Char) :
    SpacesHeld (p.escape c) ∧
      held (p.escape c) false ≤ held p false + if Loses c then weight [c] else 1 + weight [c] := by
  by_cases hescapable : Escapable c
  · rw [escape_value_escapable hp hescapable]
    obtain ⟨hspaces, hle⟩ := held_addValue h [c]
    refine ⟨hspaces, hle.trans ?_⟩
    split
    · exact Nat.le_refl _
    · omega
  · by_cases hspace : c = ' '
    · subst hspace
      rw [escape_value_space hp, if_pos (.inl rfl)]
      unfold SpacesHeld held at *
      dsimp only
      rw [weight_append, weight_append, h]
      exact ⟨rfl, Nat.le_refl _⟩
    · have hloses : ¬ Loses c := by
        rintro (hloses | hloses)
        · exact hspace hloses
        · exact hescapable (.inr (.inr hloses))
      rw [escape_value_other hp hescapable hspace, if_neg hloses]
      obtain ⟨hspaces, hle⟩ := held_addValue h ['\\', c]
      have hcons : weight ['\\', c] = 1 + weight [c] := weight_append ['\\'] [c]
      rw [hcons] at hle
      exact ⟨hspaces, hle⟩

/-- No character is made up, and one is lost behind a backslash that is lost and where a tab is in
front of the value. -/
theorem weight_next (h : SpacesHeld p) :
    SpacesHeld (next false prev c p) ∧
      held (next false prev c p) (decide (c = '\\')) ≤ held p prev + weight [c] ∧
      (prev = true ∧ Loses c ∨ p.value = [] ∧ prev = false ∧ Blank c ∧ c ≠ ' ' →
        held (next false prev c p) (decide (c = '\\')) < held p prev + weight [c]) := by
  have hheld (q : LineParser) : held q true = held q false + 1 := rfl
  unfold next
  by_cases hc : c = '\\'
  · subst hc
    have hone : weight ['\\'] = 1 := rfl
    have hno : ¬ (prev = true ∧ Loses '\\' ∨
        p.value = [] ∧ prev = false ∧ Blank '\\' ∧ '\\' ≠ ' ') := by
      simp [Loses, Blank]
    rw [if_pos rfl, decide_eq_true rfl, hheld, hone]
    cases prev
    · exact ⟨h, Nat.le_refl _, fun hyes => absurd hyes hno⟩
    · rw [if_pos rfl, escape_value_escapable hp (.inl rfl), hheld]
      obtain ⟨hspaces, hle⟩ := held_addValue h ['\\']
      rw [hone] at hle
      exact ⟨hspaces, Nat.add_le_add_right hle 1, fun hyes => absurd hyes hno⟩
  · rw [if_neg hc, decide_eq_false hc]
    by_cases hescaped : Escaped false c
    · have hhash : c = '#' := by
        simpa [Escaped] using hescaped
      subst hhash
      have hno : ¬ (prev = true ∧ Loses '#' ∨
          p.value = [] ∧ prev = false ∧ Blank '#' ∧ '#' ≠ ' ') := by
        simp [Loses, Blank]
      rw [if_pos hescaped]
      cases prev
      · rw [if_neg Bool.false_ne_true, escape_value_escapable hp (.inr (.inl rfl))]
        obtain ⟨hspaces, hle⟩ := held_addValue h ['#']
        exact ⟨hspaces, hle, fun hyes => absurd hyes hno⟩
      · rw [if_pos rfl, escape_value_escapable hp (.inl rfl),
          escape_value_escapable (p := p.addValue _) hp (.inr (.inl rfl)), hheld]
        obtain ⟨hspaces, hle⟩ := held_addValue h ['\\']
        obtain ⟨hspaces', hle'⟩ := held_addValue hspaces ['#']
        exact ⟨hspaces', hle'.trans (Nat.add_le_add_right hle _), fun hyes => absurd hyes hno⟩
    · rw [if_neg hescaped]
      cases prev
      · rw [if_neg Bool.false_ne_true]
        by_cases hblank : Blank c
        · rw [char_value_blank hp hblank]
          by_cases hvalue : p.value = []
          · rw [if_neg (not_not_intro hvalue)]
            refine ⟨h, Nat.le_add_right _ _, ?_⟩
            rintro (⟨hfalse, _⟩ | ⟨_, _, _, hspace⟩)
            · cases hfalse
            · have hone : weight [c] = 1 := by
                simp [weight, hspace]
              omega
          · rw [if_pos hvalue]
            refine ⟨h, ?_, ?_⟩
            · unfold held
              dsimp only
              rw [weight_append]
              omega
            · rintro (⟨hfalse, _⟩ | ⟨hnil, _⟩)
              · cases hfalse
              · exact absurd hnil hvalue
        · rw [char_value_other hp hblank hescaped]
          obtain ⟨hspaces, hle⟩ := held_addValue h [c]
          refine ⟨hspaces, hle, ?_⟩
          rintro (⟨hfalse, _⟩ | ⟨_, _, hyes, _⟩)
          · cases hfalse
          · exact absurd hyes hblank
      · rw [if_pos rfl, hheld]
        obtain ⟨hspaces, hle⟩ := weight_escape hp h c
        refine ⟨hspaces, ?_, ?_⟩
        · split at hle
          · omega
          · omega
        · rintro (⟨_, hloses⟩ | ⟨_, hfalse, _⟩)
          · rw [if_pos hloses] at hle
            omega
          · cases hfalse

theorem weight_readAll (h : SpacesHeld p) (prev : Bool) (s : Str) :
    SpacesHeld (readAll false prev s p) ∧
      held (readAll false prev s p) (endsEscape prev s) ≤ held p prev + weight s ∧
      (¬ Clear Loses prev s →
        held (readAll false prev s p) (endsEscape prev s) < held p prev + weight s) := by
  induction s generalizing prev p with
  | nil => exact ⟨h, Nat.le_refl _, fun hnot => absurd trivial hnot⟩
  | cons c s ih =>
    have hstate : (next false prev c p).state = .value := (next_state (by simp [hp])).trans hp
    obtain ⟨hspaces, hone, hlost⟩ := @weight_next prev c p hp h
    obtain ⟨hspaces', hle, hlt⟩ := ih hstate hspaces (decide (c = '\\'))
    have hcons : weight (c :: s) = weight [c] + weight s := weight_append [c] s
    rw [readAll, endsEscape, hcons]
    refine ⟨hspaces', by omega, ?_⟩
    intro hnot
    by_cases hc : prev = true → ¬ Loses c
    · have hless := hlt fun hrest => hnot ⟨hc, hrest⟩
      omega
    · push Not at hc
      have hless := hlost (.inl hc)
      omega

end

/-- The value that is set -/
def result (p : LineParser) : Str := p.value ++ p.escapedspace

section

variable (hp : p.state = .value)

include hp

theorem loop_escapedSpaces (n : Nat) (t : Str) :
    p.loop (escapedSpaces n ++ t) = { p with
      whitespace := p.whitespace ++ replicate n ' '
      escapedspace := p.escapedspace ++ replicate n ' ' : LineParser }.loop t := by
  induction n generalizing p with
  | zero =>
    simp [escapedSpaces]
  | succ n ih =>
    rw [escapedSpaces_succ, List.cons_append, List.cons_append, loop_escape,
      escape_value_space hp, ih (by exact hp)]
    simp [List.replicate_succ]

theorem result_escapedSpaces (n : Nat) :
    result (p.loop (escapedSpaces n)) = result p ++ replicate n ' ' := by
  have hloop := loop_escapedSpaces hp n []
  rw [append_nil, loop_nil] at hloop
  rw [hloop]
  unfold result
  rw [append_assoc]

/-- Behind a text that does not end with a backslash -/
theorem result_ends_false (n : Nat) :
    result (p.loop (written false n false [])) = result p ++ replicate n ' ' := by
  rw [← result_escapedSpaces hp]
  cases n
  · rfl
  · rfl

/-- Behind a backslash; what is held back for the end is set twice where nothing follows. -/
theorem result_ends_true (n : Nat) :
    result (p.loop (written false n true [])) =
      p.flushed ++ ['\\'] ++ if n = 0 then p.escapedspace else replicate n ' ' := by
  cases n with
  | zero =>
    have hend : p.loop (written false 0 true []) = p.escapeEnd := rfl
    rw [hend, if_pos rfl]
    unfold escapeEnd
    rw [hp]
    rfl
  | succ n =>
    have hslash : p.loop (written false (n + 1) true []) =
        (p.escape '\\').loop (escapedSpaces (n + 1)) := rfl
    rw [hslash, escape_value_escapable hp (.inl rfl), if_neg (Nat.succ_ne_zero n),
      result_escapedSpaces (p := p.addValue _) hp]
    unfold result
    rw [(begun_addValue p '\\' []).nil, append_nil]
    rfl

theorem weight_result (h : SpacesHeld p) (n : Nat) (ends : Bool) :
    weight (result (p.loop (written false n ends []))) ≤ held p ends := by
  have hspaces : weight p.escapedspace = 0 := h
  cases ends
  · rw [result_ends_false hp]
    unfold result held
    rw [weight_append, weight_append, weight_spaces, hspaces]
    omega
  · rw [result_ends_true hp, weight_append, weight_append]
    have hflushed := h.flushed
    have hone : weight ['\\'] = 1 := rfl
    have hlast : weight (if n = 0 then p.escapedspace else replicate n ' ') = 0 := by
      split
      · exact hspaces
      · exact weight_spaces n
    have hheld : held p true = held p false + 1 := rfl
    omega

/-- What is read is set, unless white space is left behind it. -/
theorem result_begun (h : Begun p) (n : Nat) (ends : Bool) :
    result (p.loop (written false n ends [])) = valueText p ends ++ replicate n ' ' ↔
      p.whitespace = [] ∨ ends = true := by
  have hflushed : p.flushed = p.value ++ p.whitespace := by
    unfold flushed
    rw [if_neg h.ne]
  unfold valueText
  cases ends
  · rw [result_ends_false hp, hflushed]
    unfold result
    rw [h.nil]
    simp [pending]
  · rw [result_ends_true hp, h.nil]
    refine iff_of_true ?_ (.inr rfl)
    cases n
    · simp [pending]
    · simp [pending]

end

end

/-- The text of the value is read if white space is not at its ends, no backslash is in front of a
space or an `=`, and it is no lone backslash behind spaces. -/
structure Readable (n m : Nat) (body : Str) : Prop where
  head : ∀ c ∈ body.head?, ¬ Blank c
  clear : Clear Loses false body
  last : tidy true false body = true
  alone : body = ['\\'] → m = 0 → n = 0

/-- What the parser is behind the leading spaces of a value. -/
def leading (key : Str) (n : Nat) : LineParser :=
  { state := .value, key := key, whitespace := replicate n ' '
    escapedspace := replicate n ' ' }

theorem flushed_leading (key : Str) (n : Nat) : (leading key n).flushed = replicate n ' ' :=
  rfl

/-- What is set for a text behind something that was read, where no backslash is lost. -/
theorem result_rest {p : LineParser} (hp : p.state = .value) (hbegun : Begun p) {prev read : Bool}
    {s : Str} (hclear : Clear Loses prev s)
    (hread : prev = false → (read = true ↔ p.whitespace = [])) (m : Nat) :
    result ((readAll false prev s p).loop (written false m (endsEscape prev s) [])) =
      valueText p prev ++ (s ++ replicate m ' ') ↔ tidy read prev s = true := by
  obtain ⟨hend, htext, htidy⟩ := readAll_value hp hbegun hclear hread
  have hstate : (readAll false prev s p).state = .value :=
    (readAll_state (fun hkey => nomatch hp.symm.trans hkey) _ _).trans hp
  rw [htidy, ← result_begun hstate hend m, htext, append_assoc]

variable {body : Str}

/-- What is set for a text of which no backslash is lost. -/
theorem result_clear (key : Str) (hhead : ∀ c ∈ body.head?, ¬ Blank c)
    (hclear : Clear Loses false body) (hne : body ≠ []) (n m : Nat) :
    result ((readAll false false body (leading key n)).loop
        (written false m (endsEscape false body) [])) =
      replicate n ' ' ++ (body ++ replicate m ' ') ↔
      tidy true false body = true ∧ (body = ['\\'] → m = 0 → n = 0) := by
  obtain ⟨c, t, rfl⟩ := List.exists_cons_of_ne_nil hne
  have hp : (leading key n).state = .value := rfl
  have hc : ¬ Blank c := hhead c rfl
  have hstate (prev : Bool) (d : Char) : (next false prev d (leading key n)).state = .value :=
    (next_state fun hkey => nomatch hp.symm.trans hkey).trans hp
  by_cases hslash : c = '\\'
  · subst hslash
    cases t with
    | nil =>
      -- The backslash is still held back when the line ends.
      have hread : readAll false false ['\\'] (leading key n) = leading key n := rfl
      have hends : endsEscape false ['\\'] = true := rfl
      have htidy : tidy true false ['\\'] = true := rfl
      rw [hread, hends, result_ends_true hp, flushed_leading, htidy]
      by_cases hm : m = 0
      · rw [if_pos hm, hm]
        simp [leading]
      · rw [if_neg hm]
        simp [hm]
    | cons d t =>
      obtain ⟨hd, hrest⟩ := hclear.2
      obtain ⟨htext, hbegun, hwhitespace⟩ := @next_value true d _ hp hd (.inr (.inl rfl))
      have hbehind : Begun (next false true d (leading key n)) :=
        hbegun.resolve_right fun hand => Bool.noConfusion hand.2.2
      have hiff := result_rest (hstate true d) hbehind hrest
        (fun hprev => hwhitespace (of_decide_eq_false hprev)) m
      have hvalue : replicate n ' ' ++ ('\\' :: d :: t ++ replicate m ' ') =
          valueText (next false true d (leading key n)) (decide (d = '\\')) ++
            (t ++ replicate m ' ') := by
        rw [htext]
        unfold valueText
        rw [flushed_leading]
        simp [pending]
      rw [hvalue, and_iff_left (by simp)]
      exact hiff
  · obtain ⟨htext, hbegun, hwhitespace⟩ := @next_value false c _ hp (by simp) (.inr (.inr hc))
    have hbehind : Begun (next false false c (leading key n)) :=
      hbegun.resolve_right fun hand => hslash hand.2.1
    have hiff := result_rest (hstate false c) hbehind hclear.2 (fun _ => hwhitespace hslash) m
    have hvalue : replicate n ' ' ++ (c :: t ++ replicate m ' ') =
        valueText (next false false c (leading key n)) (decide (c = '\\')) ++
          (t ++ replicate m ' ') := by
      rw [htext]
      unfold valueText
      rw [flushed_leading]
      simp [pending]
    rw [hvalue, and_iff_left (by simp [hslash])]
    exact hiff

theorem result_core {key body : Str} (h : Core body) (n m : Nat) :
    result (LineParser.loop { state := .value, key := key }
        (escapeProperty (replicate n ' ' ++ (body ++ replicate m ' ')) false)) =
      replicate n ' ' ++ (body ++ replicate m ' ') ↔ Readable n m body := by
  have hp : (leading key n).state = .value := rfl
  have hspaces : SpacesHeld (leading key n) := weight_spaces n
  have hzero : held (leading key n) false = 0 := by
    unfold held leading
    rw [weight_spaces]
    rfl
  have hstart : LineParser.loop { state := .value, key := key }
      (escapeProperty (replicate n ' ' ++ (body ++ replicate m ' ')) false) =
      (readAll false false body (leading key n)).loop
        (written false m (endsEscape false body) []) := by
    rw [escapeProperty_core h, loop_escapedSpaces rfl]
    have hwritten := @loop_written false m (leading key n) (fun hkey => nomatch hkey) false body []
    rw [append_nil, append_nil] at hwritten
    exact hwritten
  have hstate : (readAll false false body (leading key n)).state = .value :=
    (readAll_state (fun hkey => nomatch hp.symm.trans hkey) _ _).trans hp
  obtain ⟨hspaces', hle, hlt⟩ := weight_readAll hp hspaces false body
  have hweight := weight_result hstate hspaces' m (endsEscape false body)
  -- What is set has not enough characters if one was lost.
  have hlost : held (readAll false false body (leading key n)) (endsEscape false body) <
      weight body → ¬ result ((readAll false false body (leading key n)).loop
        (written false m (endsEscape false body) [])) =
      replicate n ' ' ++ (body ++ replicate m ' ') := by
    intro hless heq
    rw [heq, weight_append, weight_append, weight_spaces, weight_spaces] at hweight
    omega
  rw [hstart]
  by_cases hhead : ∀ c ∈ body.head?, ¬ Blank c
  · by_cases hclear : Clear Loses false body
    · rw [result_clear key hhead hclear h.ne]
      constructor
      · rintro ⟨htidy, halone⟩
        exact ⟨hhead, hclear, htidy, halone⟩
      · intro hreadable
        exact ⟨hreadable.last, hreadable.alone⟩
    · refine iff_of_false (hlost ?_) fun hreadable => hclear hreadable.clear
      have hless := hlt hclear
      omega
  · refine iff_of_false (hlost ?_) fun hreadable => hhead hreadable.head
    push Not at hhead
    obtain ⟨c, hc, hblank⟩ := hhead
    obtain ⟨d, t, rfl⟩ := List.exists_cons_of_ne_nil h.ne
    have hspace := h.head c hc
    cases Option.some.inj hc
    obtain ⟨hnext, _, hless⟩ := @weight_next false c _ hp hspaces
    have hfirst := hless (.inr ⟨rfl, rfl, hblank, hspace⟩)
    have hstate' : (next false false c (leading key n)).state = .value :=
      (next_state fun hkey => nomatch hp.symm.trans hkey).trans hp
    obtain ⟨_, hrest, _⟩ := weight_readAll hstate' hnext (decide (c = '\\')) t
    have hcons : weight (c :: t) = weight [c] + weight t := weight_append [c] t
    rw [readAll, endsEscape]
    omega

/-- A string without the spaces at its ends -/
def core (s : Str) : Str := (s.dropWhile (· = ' ')).rdropWhile (· = ' ')

theorem core_spaces (n : Nat) : core (replicate n ' ') = [] := by
  unfold core
  rw [List.dropWhile_replicate]
  simp

theorem core_of_core (h : Core body) (n m : Nat) :
    core (replicate n ' ' ++ (body ++ replicate m ' ')) = body := by
  have hlast : ¬ (decide (body.getLast h.ne = ' ') = true) := by
    simpa using h.last _ (List.getLast?_eq_some_getLast h.ne)
  obtain ⟨c, t, rfl⟩ := List.exists_cons_of_ne_nil h.ne
  have hc : c ≠ ' ' := h.head c rfl
  have hdrop : (replicate n ' ' ++ (c :: t ++ replicate m ' ')).dropWhile (· = ' ') =
      c :: t ++ replicate m ' ' := by
    rw [List.dropWhile_append, List.dropWhile_replicate]
    simp [hc]
  unfold core
  rw [hdrop, List.rdropWhile, List.reverse_append, List.reverse_replicate, List.dropWhile_append,
    List.dropWhile_replicate]
  have hkeep : (c :: t).rdropWhile (· = ' ') = c :: t :=
    List.rdropWhile_eq_self_iff.mpr fun _ => hlast
  unfold List.rdropWhile at hkeep
  simpa using hkeep

theorem clear_iff {bad : Char → Prop} (prev : Bool) (s : Str) :
    Clear bad prev s ↔ ∀ c, bad c → ¬ ['\\', c] <:+: pending prev ++ s := by
  induction s generalizing prev with
  | nil =>
    refine iff_of_true trivial ?_
    intro c _ hwithin
    have hle := hwithin.length_le
    cases prev
    · simp [pending] at hle
    · simp [pending] at hle
  | cons d s ih =>
    have hbehind (c : Char) : ['\\', c] <:+: d :: s ↔
        ['\\', c] <:+: pending (decide (d = '\\')) ++ s := by
      by_cases hd : d = '\\'
      · subst hd
        rfl
      · rw [decide_eq_false hd, List.infix_cons_iff, List.cons_prefix_cons]
        simp [pending, Ne.symm hd]
    rw [Clear, ih]
    constructor
    · rintro ⟨hd, hs⟩ c hc hwithin
      apply hs c hc
      rw [← hbehind]
      cases prev
      · exact hwithin
      · rcases List.infix_cons_iff.mp hwithin with hfront | hrest
        · have hcd := (List.cons_prefix_cons.mp (List.cons_prefix_cons.mp hfront).2).1
          rw [hcd] at hc
          exact absurd hc (hd rfl)
        · exact hrest
    · intro h
      constructor
      · rintro rfl hd
        exact h d hd ⟨[], s, rfl⟩
      · intro c hc hwithin
        rw [← hbehind] at hwithin
        exact h c hc (hwithin.trans (List.suffix_append _ _).isInfix)

/-- Whether a text ends with a backslash can be told without a character in front of it. -/
theorem getLast_pending (prev : Bool) (d : Char) (u : Str) :
    (pending prev ++ d :: u).getLast? = some '\\' ↔
      (pending (decide (d = '\\')) ++ u).getLast? = some '\\' := by
  rw [List.getLast?_append_cons]
  by_cases hd : d = '\\'
  · subst hd
    rfl
  · rw [decide_eq_false hd]
    cases u with
    | nil => simp [pending, hd]
    | cons e u =>
      rw [List.getLast?_cons_cons]
      rfl

theorem endsEscape_iff (prev : Bool) (s : Str) :
    endsEscape prev s = true ↔ (pending prev ++ s).getLast? = some '\\' := by
  induction s generalizing prev with
  | nil =>
    cases prev
    · simp [endsEscape, pending]
    · simp [endsEscape, pending]
  | cons d s ih => rw [endsEscape, ih, getLast_pending]

theorem tidy_iff (read prev : Bool) {s : Str} (hs : s ≠ []) : tidy read prev s = true ↔
    ∀ u c, s = u ++ [c] → Blank c → (pending prev ++ u).getLast? = some '\\' := by
  induction s generalizing read prev with
  | nil => exact absurd rfl hs
  | cons d s ih =>
    rw [tidy]
    cases s with
    | nil =>
      have hslash : Blank d → d ≠ '\\' := by
        rintro hblank rfl
        simp [Blank] at hblank
      constructor
      · intro htidy u c heq hblank
        obtain ⟨rfl, rfl⟩ : c = d ∧ u = [] := by
          simpa [List.singleton_eq_append_iff, and_comm] using heq
        cases prev
        · simp [tidy, hblank, hslash hblank] at htidy
        · rfl
      · intro h
        by_cases hblank : Blank d
        · have hlast := h [] d rfl hblank
          cases prev
          · simp [pending] at hlast
          · rfl
        · simp [tidy, hblank]
    | cons e s =>
      rw [ih _ _ (by simp)]
      constructor
      · intro h u c heq hblank
        cases u with
        | nil => simp at heq
        | cons f u =>
          obtain ⟨rfl, hrest⟩ := List.cons.inj heq
          exact (getLast_pending prev d u).mpr (h u c hrest hblank)
      · intro h u c heq hblank
        have hlast := h (d :: u) c (by rw [heq]; rfl) hblank
        exact (getLast_pending prev d u).mp hlast

/-- What a key is like that is read back: no backslash is in front of a space or at its end. -/
structure PlainKey (key : Str) : Prop where
  space : ¬ ['\\', ' '] <:+: key
  last : key.getLast? ≠ some '\\'

/-- What a value is like that is read back. Without the spaces at its ends, it does not begin with
white space, and ends with it only behind a backslash; no backslash is in front of a space or of an
`=`. It is no lone backslash behind spaces. -/
structure PlainValue (value : Str) : Prop where
  head : ∀ c ∈ (core value).head?, ¬ Blank c
  last : ∀ u c, core value = u ++ [c] → Blank c → u.getLast? = some '\\'
  space : ¬ ['\\', ' '] <:+: core value
  equal : ¬ ['\\', '='] <:+: core value
  alone : ∀ n, value ≠ replicate (n + 1) ' ' ++ ['\\']

theorem plainKey_iff (key : Str) :
    PlainKey key ↔ Clear (· = ' ') false key ∧ endsEscape false key = false := by
  have hclear := @clear_iff (· = ' ') false key
  have hends := endsEscape_iff false key
  simp only [pending, if_neg Bool.false_ne_true, List.nil_append, forall_eq] at hclear hends
  rw [hclear, ← Bool.not_eq_true, hends]
  constructor
  · intro h
    exact ⟨h.space, h.last⟩
  · rintro ⟨hspace, hlast⟩
    exact ⟨hspace, hlast⟩

theorem plainValue_core (h : Core body) (n m : Nat) :
    PlainValue (replicate n ' ' ++ (body ++ replicate m ' ')) ↔ Readable n m body := by
  have hcore := core_of_core h n m
  have hclear := @clear_iff Loses false body
  have htidy := tidy_iff true false h.ne
  simp only [pending, if_neg Bool.false_ne_true, List.nil_append] at hclear htidy
  have halone : (∀ k, replicate n ' ' ++ (body ++ replicate m ' ') ≠
      replicate (k + 1) ' ' ++ ['\\']) ↔ (body = ['\\'] → m = 0 → n = 0) := by
    constructor
    · rintro hne rfl rfl
      cases n with
      | zero => rfl
      | succ n => exact absurd (by simp) (hne n)
    · intro hzero k heq
      have hslash : Core ['\\'] := ⟨by simp, by simp, by simp⟩
      have hbody := core_of_core hslash (k + 1) 0
      rw [List.replicate_zero, append_nil, ← heq, hcore] at hbody
      subst hbody
      have hlengths := congrArg List.length heq
      have hlast := congrArg List.getLast? heq
      have hm : m = 0 := by
        cases m with
        | zero => rfl
        | succ m =>
          rw [List.replicate_succ', ← append_assoc, ← append_assoc,
            getLast?_concat, getLast?_concat] at hlast
          exact absurd (Option.some.inj hlast) (by decide)
      have hn := hzero rfl hm
      simp [hm, hn] at hlengths
  constructor
  · intro hplain
    obtain ⟨hhead, hlast, hspace, hequal, hlone⟩ := hplain
    rw [hcore] at hhead hlast hspace hequal
    refine ⟨hhead, hclear.mpr ?_, htidy.mpr hlast, halone.mp hlone⟩
    rintro c (rfl | rfl)
    · exact hspace
    · exact hequal
  · intro hreadable
    have hall := hclear.mp hreadable.clear
    refine ⟨?_, ?_, ?_, ?_, halone.mpr hreadable.alone⟩
    · rw [hcore]
      exact hreadable.head
    · rw [hcore]
      exact htidy.mp hreadable.last
    · rw [hcore]
      exact hall _ (.inl rfl)
    · rw [hcore]
      exact hall _ (.inr rfl)

theorem plainValue_spaces (n : Nat) : PlainValue (replicate n ' ') := by
  have hcore := core_spaces n
  refine ⟨?_, ?_, ?_, ?_, ?_⟩
  · rw [hcore]
    simp
  · rw [hcore]
    intro u c heq
    simp at heq
  · rw [hcore]
    simp
  · rw [hcore]
    simp
  · intro k heq
    have hmem : '\\' ∈ replicate n ' ' := by
      rw [heq]
      simp
    exact absurd (List.eq_of_mem_replicate hmem) (by decide)

/-- A value is set as it was, if it is a plain one. -/
theorem result_iff (key value : Str) :
    result (LineParser.loop { state := .value, key := key } (escapeProperty value false)) = value ↔
      PlainValue value := by
  rcases spaces_or_core value with ⟨n, rfl⟩ | ⟨n, m, body, rfl, hbody⟩
  · refine iff_of_true ?_ (plainValue_spaces n)
    rw [escapeProperty_spaces, result_escapedSpaces rfl]
    rfl
  · rw [result_core hbody, plainValue_core hbody]

/-- A line is written for a property. -/
def lineOf (key value : Str) : Str :=
  escapeProperty key true ++ "=".toList ++ escapeProperty value false

/-- Whatever the properties are, exactly the property of the key is changed by the line. -/
def SetsExactly (names : PropertyNames) (toNative : Str → Str) (line key value : Str) : Prop :=
  ∀ properties, ∃ properties' warnings,
    parseLine names toNative properties line = .ok (properties', warnings) ∧
      Sets properties properties' key value

variable {names : PropertyNames} {toNative : Str → Str} {key line value : Str}

/-- A line that sets a property has been read to the end of `parseLine`. -/
theorem setsExactly_iff : SetsExactly names toNative line key value ↔
    (LineParser.loop {} line).state = .value ∧ (LineParser.loop {} line).key ≠ [] ∧
      trim (toNative (LineParser.loop {} line).key) ≠ [] ∧
      (names.check (trim (toNative (LineParser.loop {} line).key))).1 = key ∧
      toNative (result (LineParser.loop {} line)) = value := by
  have hself : ¬∀ properties, Sets properties properties key value := by
    intro h
    have hvalue := (h fun _ => some ⟨' ' :: value, false⟩).value
    split at hvalue
    · cases hvalue
    · exact List.cons_ne_self _ _ (Option.some.inj hvalue)
  unfold SetsExactly parseLine setProperty
  generalize LineParser.loop {} line = p
  dsimp only
  by_cases hentry : (p.state = .key ∧ p.key ≠ []) ∨ (p.state = .value ∧ p.key = [])
  · refine iff_of_false ?_ ?_
    · intro h
      apply hself
      intro properties
      obtain ⟨properties', warnings, hparse, hsets⟩ := h properties
      rw [if_pos hentry] at hparse
      cases hparse
      exact hsets
    · rintro ⟨hstate, hne, -⟩
      rcases hentry with ⟨hkey, -⟩ | ⟨-, hnil⟩
      · rw [hstate] at hkey
        cases hkey
      · exact hne hnil
  · simp only [if_neg hentry]
    by_cases hnil : p.key = []
    · simp only [if_pos hnil]
      refine iff_of_false ?_ fun h => h.2.1 hnil
      intro h
      apply hself
      intro properties
      obtain ⟨properties', warnings, hparse, hsets⟩ := h properties
      cases hparse
      exact hsets
    · have hstate : p.state = .value := by
        cases hp : p.state with
        | key => exact absurd (.inl ⟨hp, hnil⟩) hentry
        | value => rfl
      simp only [if_neg hnil]
      by_cases hempty : trim (toNative p.key) = []
      · simp only [if_pos hempty]
        refine iff_of_false ?_ fun h => h.2.2.1 hempty
        intro h
        obtain ⟨_, _, hparse, -⟩ := h fun _ => none
        cases hparse
      · simp only [if_neg hempty]
        have hput := @sets_put_iff (names.check (trim (toNative p.key))).1
          (toNative (p.value ++ p.escapedspace)) key value
        constructor
        · intro h
          refine ⟨hstate, hnil, hempty, hput.mp ?_⟩
          intro properties
          obtain ⟨properties', warnings, hparse, hsets⟩ := h properties
          cases hparse
          exact hsets
        · rintro ⟨-, -, -, hkeys⟩ properties
          exact ⟨_, _, rfl, hput.mpr hkeys properties⟩

/-- A key without backslashes is a plain one. -/
theorem plainKey_of_notMem (h : '\\' ∉ key) : PlainKey key where
  space hwithin := h (hwithin.subset List.mem_cons_self)
  last hlast := h (List.mem_of_getLast? hlast)

/-- The line sets exactly the property, or removes it for an empty value, if the key and the value
are plain ones and no other property is set for the key. -/
theorem parseLine_iff (names : PropertyNames) {toNative : Str → Str} (hnative : Converter toNative)
    {key : Str} (hkey : Key key) (value : Str) :
    SetsExactly names toNative (lineOf key value) (toNative key) (toNative value) ↔
      PlainKey key ∧ PlainValue value ∧ ¬names.Renames (toNative key) := by
  have hline : lineOf key value = escapeProperty key true ++ '=' :: escapeProperty value false := by
    simp [lineOf]
  have htrim : trim (toNative key) = toNative key := by
    rw [hnative.trim, hkey.trim]
  -- What is read of the line if the key is a plain one
  have hplain (h : PlainKey key) : LineParser.loop {} (lineOf key value) =
      LineParser.loop { state := .value, key := key } (escapeProperty value false) := by
    obtain ⟨hclear, hends⟩ := (plainKey_iff key).mp h
    rw [hline, loop_key hkey hclear hends]
  obtain ⟨hstate, hkeep⟩ := loop_value (p := { state := .value, key := key }) rfl
    (escapeProperty value false)
  rw [setsExactly_iff]
  constructor
  · rintro ⟨-, -, -, hkeys, hvalues⟩
    have hread : PlainKey key := by
      rcases names.check_cases (trim (toNative (LineParser.loop {} (lineOf key value)).key)) with
        hsame | hslash
      · rw [hkeys, hnative.trim] at hsame
        have hloop := (hnative.injective hsame).symm
        rw [hline] at hloop
        exact (plainKey_iff key).mpr (clear_of_loop_key hkey hloop)
      · rw [hkeys] at hslash
        exact plainKey_of_notMem fun hmem => hslash (hnative.slash key hmem)
    rw [hplain hread] at hkeys hvalues
    rw [hkeep, htrim] at hkeys
    exact ⟨hread, (result_iff key value).mp (hnative.injective hvalues),
      (names.check_eq_iff _).mp hkeys⟩
  · rintro ⟨hread, hvalue, hcurrent⟩
    rw [hplain hread, hkeep, htrim, (result_iff key value).mpr hvalue]
    refine ⟨hstate, hkey.ne, ?_, (names.check_eq_iff _).mpr hcurrent, rfl⟩
    intro hnil
    exact hkey.ne (hnative.injective (hnil.trans hnative.nil.symm))

theorem forall_of_some {P : Char → Prop} [DecidablePred P] {o : Option Char}
    (h : o.all (fun c => P c) = true) : ∀ c ∈ o, P c := by
  rintro c rfl
  simpa using h

/-- A value with spaces at its ends and inside, with a tab, a `#`, an `=` and backslashes -/
def directory : Str := "  C:\\dir\\#1 = a\tb \\ ".toList

/-- Two properties of the table; the second one is deprecated. -/
def certificates : PropertyNames where
  validProps := [[⟨"IceSSL.CAs".toList, false, none⟩,
    ⟨"IceSSL.CertAuthFile".toList, true, some "IceSSL.CAs".toList⟩]]
  nodup := List.nodup_singleton _
  unescaped := by decide

theorem converter_id : Converter id :=
  ⟨Function.injective_id, rfl, fun _ h => h, fun _ => rfl⟩

/-- The directory is set for a key that is not known, but for the prefix. -/
theorem parseLine_directory : Converter id ∧ Key "IceSSL.My Dir".toList ∧
    SetsExactly certificates id (lineOf "IceSSL.My Dir".toList directory) "IceSSL.My Dir".toList
      directory := by
  have hkey : Key "IceSSL.My Dir".toList :=
    ⟨by decide, forall_of_some (by decide), forall_of_some (by decide)⟩
  have hcore : core directory = "C:\\dir\\#1 = a\tb \\".toList := by decide +kernel
  refine ⟨converter_id, hkey, (parseLine_iff certificates converter_id hkey _).mpr
    ⟨⟨by decide, by decide⟩, ⟨forall_of_some (by decide), ?_, by decide, by decide, ?_⟩,
      (certificates.check_eq_iff _).mp (by decide)⟩⟩
  · intro u c heq hblank
    have hlast := congrArg List.getLast? (hcore.symm.trans heq)
    rw [getLast?_concat] at hlast
    cases hlast
    exact absurd hblank (by decide)
  · intro n heq
    have hlast := congrArg List.getLast? heq
    rw [getLast?_concat] at hlast
    revert hlast
    decide +kernel

/-- The backslash in front of the space of `C:\ x` is lost. -/
theorem not_parseLine_backslash :
    ¬ ∀ (names : PropertyNames) (toNative : Str → Str), Converter toNative →
      ∀ key value : Str, Key key → (∀ c ∈ key ++ value, c ≠ '\n' ∧ c ≠ '\r') →
        SetsExactly names toNative (lineOf key value) (toNative key) (toNative value) := by
  intro h
  have hkey : Key "Path".toList :=
    ⟨by decide, forall_of_some (by decide), forall_of_some (by decide)⟩
  have hset := h certificates id converter_id _ "C:\\ x".toList hkey
    (Lib.forall_of_all (by decide))
  obtain ⟨-, -, -, -, hvalue⟩ := setsExactly_iff.mp hset
  revert hvalue
  decide +kernel

end Ice.IceGrid
