import Ice.IceGrid.Resolver
import Ice.Properties.ParseLine
import Mathlib.Data.List.Infix
import Mathlib.Data.List.Flatten

/-!
# Properties in a configuration file

`escapeProperty` escapes what `parseLine` would not read for itself: `#`, `=` in a key, the spaces
at the ends, and a backslash in front of what is escaped. White space at the ends other than spaces
and a backslash in front of what is not escaped are read as something else.
-/

namespace Ice.IceGrid

open Properties Properties.LineParser
open List (append_assoc append_nil cons_append replicate replicate_succ)

/-- Whether a position is in front of the first character that is not a space or behind the last
one; there is none in a string of spaces. -/
def isOuter (firstChar lastChar : Option Nat) (i : Nat) : Bool :=
  firstChar.all (i < ·) || lastChar.any (· < i)

/-- The loop of `escapeProperty` from a position on -/
def escapeFrom (escapeEqual : Bool) (firstChar lastChar : Option Nat) : Nat → Bool → Str → Str
  | _, _, [] => []
  | i, previousCharIsEscape, c :: s =>
    if c = ' ' then
      if isOuter firstChar lastChar i then
        (if previousCharIsEscape then ['\\'] else []) ++
          '\\' :: c :: escapeFrom escapeEqual firstChar lastChar (i + 1) false s
      else c :: escapeFrom escapeEqual firstChar lastChar (i + 1) false s
    else if Escapable c then
      if c = '=' ∧ ¬ escapeEqual then
        c :: escapeFrom escapeEqual firstChar lastChar (i + 1) false s
      else
        (if previousCharIsEscape then ['\\'] else []) ++
          if c = '\\' then c :: escapeFrom escapeEqual firstChar lastChar (i + 1) true s
          else '\\' :: c :: escapeFrom escapeEqual firstChar lastChar (i + 1) false s
    else c :: escapeFrom escapeEqual firstChar lastChar (i + 1) false s

/-- `find_first_not_of(' ')` -/
def findFirst (s : Str) : Option Nat := s.findIdx? (· ≠ ' ')

/-- `find_last_not_of(' ')` -/
def findLast (s : Str) : Option Nat := (s.reverse.findIdx? (· ≠ ' ')).map (s.length - 1 - ·)

def escapeProperty (s : Str) (escapeEqual : Bool) : Str :=
  escapeFrom escapeEqual (findFirst s) (findLast s) 0 false s

/-- Spaces at an end -/
def escapedSpaces (n : Nat) : Str := (replicate n ['\\', ' ']).flatten

/-- The backslash that was read last, if it was one -/
def pending (prev : Bool) : Str := if prev then ['\\'] else []

/-- The characters besides the backslash that are escaped wherever they stand -/
def Escaped (escapeEqual : Bool) (c : Char) : Prop := c = '#' ∨ (c = '=' ∧ escapeEqual = true)

instance (escapeEqual : Bool) (c : Char) : Decidable (Escaped escapeEqual c) :=
  inferInstanceAs (Decidable (_ ∨ _))

/-- What is written behind the leading spaces for a text and for `n` spaces at the end: a backslash
is put in front of the next character, and so is another one if that character is escaped. -/
def written (escapeEqual : Bool) (n : Nat) : Bool → Str → Str
  | prev, [] => pending prev ++ if n = 0 then [] else pending prev ++ escapedSpaces n
  | prev, c :: s =>
    if c = '\\' then pending prev ++ pending prev ++ written escapeEqual n true s
    else if Escaped escapeEqual c then
      pending prev ++ pending prev ++ '\\' :: c :: written escapeEqual n false s
    else pending prev ++ c :: written escapeEqual n false s

section

variable {escapeEqual : Bool} {firstChar lastChar : Option Nat} {i n : Nat} {prev : Bool} {c : Char}
  {s : Str}

theorem written_slash : written escapeEqual n prev ('\\' :: s) =
    pending prev ++ pending prev ++ written escapeEqual n true s := rfl

theorem Escaped.ne_slash (h : Escaped escapeEqual c) : c ≠ '\\' := by
  rintro rfl
  simp [Escaped] at h

theorem written_escaped (h : Escaped escapeEqual c) : written escapeEqual n prev (c :: s) =
    pending prev ++ pending prev ++ '\\' :: c :: written escapeEqual n false s := by
  rw [written, if_neg h.ne_slash, if_pos h]

theorem written_plain (hc : c ≠ '\\') (h : ¬ Escaped escapeEqual c) :
    written escapeEqual n prev (c :: s) = pending prev ++ c :: written escapeEqual n false s := by
  rw [written, if_neg hc, if_neg h]

theorem escapeFrom_slash : escapeFrom escapeEqual firstChar lastChar i prev ('\\' :: s) =
    pending prev ++ '\\' :: escapeFrom escapeEqual firstChar lastChar (i + 1) true s := by
  rw [escapeFrom, if_neg (by decide), if_pos (.inl rfl), if_neg (by simp), if_pos rfl]
  rfl

theorem escapeFrom_escaped (h : Escaped escapeEqual c) :
    escapeFrom escapeEqual firstChar lastChar i prev (c :: s) = pending prev ++
      '\\' :: c :: escapeFrom escapeEqual firstChar lastChar (i + 1) false s := by
  have hescapable : Escapable c := .inr (h.imp_right And.left)
  have hspace : c ≠ ' ' := by
    rintro rfl
    simp [Escaped] at h
  have hequal : ¬ (c = '=' ∧ ¬ escapeEqual = true) := by
    rintro ⟨rfl, hnot⟩
    rcases h with hhash | ⟨_, hescape⟩
    · cases hhash
    · exact hnot hescape
  rw [escapeFrom, if_neg hspace, if_pos hescapable, if_neg hequal, if_neg h.ne_slash]
  rfl

theorem escapeFrom_plain (hc : c ≠ '\\') (h : ¬ Escaped escapeEqual c)
    (hin : isOuter firstChar lastChar i = false) :
    escapeFrom escapeEqual firstChar lastChar i prev (c :: s) =
      c :: escapeFrom escapeEqual firstChar lastChar (i + 1) false s := by
  rw [escapeFrom, hin, if_neg Bool.false_ne_true]
  by_cases hspace : c = ' '
  · rw [if_pos hspace]
  · rw [if_neg hspace]
    by_cases hescapable : Escapable c
    · have hhash : c ≠ '#' := fun hhash => h (.inl hhash)
      have hequal : c = '=' := (hescapable.resolve_left hc).resolve_left hhash
      have hnot : ¬ escapeEqual = true := fun hescape => h (.inr ⟨hequal, hescape⟩)
      rw [if_pos hescapable, if_pos ⟨hequal, hnot⟩]
    · rw [if_neg hescapable]

theorem escapedSpaces_succ : escapedSpaces (n + 1) = '\\' :: ' ' :: escapedSpaces n := by
  unfold escapedSpaces
  rw [replicate_succ, List.flatten_cons]
  rfl

/-- Outer spaces are escaped. -/
theorem escapeFrom_spaces (h : ∀ j, i ≤ j → j < i + n → isOuter firstChar lastChar j) :
    escapeFrom escapeEqual firstChar lastChar i false (replicate n ' ' ++ s) =
      escapedSpaces n ++ escapeFrom escapeEqual firstChar lastChar (i + n) false s := by
  induction n generalizing i with
  | zero => rfl
  | succ n ih =>
    have hrest := @ih (i + 1) (fun j hj hlt => h j (by omega) (by omega))
    have hcount : i + 1 + n = i + (n + 1) := by
      omega
    rw [replicate_succ, cons_append, escapeFrom, if_pos rfl,
      if_pos (h i (Nat.le_refl i) (by omega)), hrest, hcount, escapedSpaces_succ]
    rfl

/-- The text between the outer spaces, and the spaces behind it. -/
theorem escapeFrom_text (hin : ∀ j, i ≤ j → j < i + s.length → isOuter firstChar lastChar j = false)
    (hout : ∀ j, i + s.length ≤ j → isOuter firstChar lastChar j) :
    pending prev ++ escapeFrom escapeEqual firstChar lastChar i prev (s ++ replicate n ' ') =
      written escapeEqual n prev s := by
  induction s generalizing i prev with
  | nil =>
    rw [List.nil_append, written]
    cases n with
    | zero => rfl
    | succ n =>
      have hspaces := @escapeFrom_spaces escapeEqual firstChar lastChar (i + 1) n []
        (fun j hj _ => hout j (by simp only [List.length_nil]; omega))
      rw [append_nil] at hspaces
      rw [replicate_succ, escapeFrom, if_pos rfl, if_pos (hout i (Nat.le_refl i)), hspaces,
        if_neg (Nat.succ_ne_zero n), escapedSpaces_succ, escapeFrom, append_nil]
      rfl
  | cons c s ih =>
    rw [List.length_cons] at hin hout
    have hrest (prev : Bool) := @ih (i + 1) prev (fun j hj hlt => hin j (by omega) (by omega))
      (fun j hj => hout j (by omega))
    rw [cons_append]
    by_cases hc : c = '\\'
    · subst hc
      rw [escapeFrom_slash, written_slash, ← hrest true, append_assoc]
      rfl
    · by_cases hescaped : Escaped escapeEqual c
      · rw [escapeFrom_escaped hescaped, written_escaped hescaped, ← hrest false,
          append_assoc]
        rfl
      · rw [escapeFrom_plain hc hescaped (hin i (Nat.le_refl i) (by omega)),
          written_plain hc hescaped, ← hrest false]
        rfl

end

/-- A text that neither begins nor ends with a space -/
structure Core (s : Str) : Prop where
  ne : s ≠ []
  head : ∀ c ∈ s.head?, c ≠ ' '
  last : ∀ c ∈ s.getLast?, c ≠ ' '

/-- A string that begins with another character than a space is a text with spaces behind it. -/
theorem core_of_cons {c : Char} (hc : c ≠ ' ') (s : Str) :
    ∃ m body, c :: s = body ++ replicate m ' ' ∧ Core body := by
  have hhead {t : Str} : ∀ d ∈ (c :: t).head?, d ≠ ' ' := by
    intro d hd
    rwa [← Option.some.inj hd]
  induction s using List.reverseRecOn with
  | nil =>
    refine ⟨0, [c], by simp, by simp, hhead, ?_⟩
    intro d hd
    rwa [← Option.some.inj hd]
  | append_singleton s d ih =>
    by_cases hd : d = ' '
    · obtain ⟨m, body, heq, hbody⟩ := ih
      refine ⟨m + 1, body, ?_, hbody⟩
      rw [← cons_append, heq, hd, List.replicate_succ', append_assoc]
    · refine ⟨0, c :: (s ++ [d]), by simp, by simp, hhead, ?_⟩
      intro e he
      rw [← cons_append, List.getLast?_append] at he
      rwa [← Option.some.inj he]

/-- A string is made of spaces, or it is a text with spaces at its ends. -/
theorem spaces_or_core (s : Str) : (∃ n, s = replicate n ' ') ∨
    ∃ n m body, s = replicate n ' ' ++ (body ++ replicate m ' ') ∧ Core body := by
  induction s with
  | nil => exact .inl ⟨0, rfl⟩
  | cons c s ih =>
    by_cases hc : c = ' '
    · rcases ih with ⟨n, heq⟩ | ⟨n, m, body, heq, hbody⟩
      · left
        exact ⟨n + 1, by rw [heq, hc, replicate_succ]⟩
      · right
        exact ⟨n + 1, m, body, by rw [heq, hc, replicate_succ, cons_append], hbody⟩
    · obtain ⟨m, body, heq, hbody⟩ := core_of_cons hc s
      exact .inr ⟨0, m, body, heq, hbody⟩

theorem findFirst_spaces (n : Nat) : findFirst (replicate n ' ') = none := by
  unfold findFirst
  rw [List.findIdx?_eq_none_iff]
  intro c hc
  rw [List.eq_of_mem_replicate hc]
  rfl

variable {body : Str}

theorem findFirst_core (h : Core body) (n : Nat) (s : Str) :
    findFirst (replicate n ' ' ++ (body ++ s)) = some n := by
  have hnone := findFirst_spaces n
  unfold findFirst at hnone ⊢
  obtain ⟨c, t, rfl⟩ := List.exists_cons_of_ne_nil h.ne
  have hc : c ≠ ' ' := h.head c rfl
  rw [List.findIdx?_append, hnone, cons_append, List.findIdx?_cons]
  simp [hc]

theorem Core.reverse (h : Core body) : Core body.reverse := by
  refine ⟨by simp [h.ne], ?_, ?_⟩
  · rw [List.head?_reverse]
    exact h.last
  · rw [List.getLast?_reverse]
    exact h.head

theorem findLast_core (h : Core body) (n m : Nat) :
    findLast (replicate n ' ' ++ (body ++ replicate m ' ')) =
      some (n + body.length - 1) := by
  have hfirst := findFirst_core h.reverse m (replicate n ' ')
  unfold findFirst at hfirst
  unfold findLast
  rw [List.reverse_append, List.reverse_append, List.reverse_replicate, List.reverse_replicate,
    append_assoc, hfirst, Option.map_some]
  have hpos := List.length_pos_iff.mpr h.ne
  congr 1
  simp only [List.length_append, List.length_replicate]
  omega

/-- In a string of spaces all of them are escaped. -/
theorem escapeProperty_spaces (escapeEqual : Bool) (n : Nat) :
    escapeProperty (replicate n ' ') escapeEqual = escapedSpaces n := by
  have hspaces := @escapeFrom_spaces escapeEqual none (findLast (replicate n ' ')) 0 n []
    (fun _ _ _ => rfl)
  rw [append_nil] at hspaces
  rw [escapeProperty, findFirst_spaces, hspaces, escapeFrom, append_nil]

/-- The spaces at the ends are escaped, and so is the text between them. -/
theorem escapeProperty_core (h : Core body) (escapeEqual : Bool) (n m : Nat) :
    escapeProperty (replicate n ' ' ++ (body ++ replicate m ' ')) escapeEqual =
      escapedSpaces n ++ written escapeEqual m false body := by
  have hpos := List.length_pos_iff.mpr h.ne
  have hin (j : Nat) (hj : n ≤ j) (hlt : j < n + body.length) :
      isOuter (some n) (some (n + body.length - 1)) j = false := by
    simp only [isOuter, Option.all_some, Option.any_some, Bool.or_eq_false_iff,
      decide_eq_false_iff_not]
    omega
  have hout (j : Nat) (hj : n + body.length ≤ j) :
      isOuter (some n) (some (n + body.length - 1)) j := by
    simp only [isOuter, Option.all_some, Option.any_some, Bool.or_eq_true, decide_eq_true_eq]
    omega
  have hleading (j : Nat) (_ : 0 ≤ j) (hlt : j < 0 + n) :
      isOuter (some n) (some (n + body.length - 1)) j := by
    simp only [isOuter, Option.all_some, Option.any_some, Bool.or_eq_true, decide_eq_true_eq]
    omega
  have htext := @escapeFrom_text escapeEqual (some n) (some (n + body.length - 1)) n m false body
    hin hout
  rw [escapeProperty, findFirst_core h, findLast_core h, escapeFrom_spaces hleading, Nat.zero_add,
    ← htext]
  rfl

end Ice.IceGrid
