import Ice.IceGrid.EscapeProperty
import Mathlib.Data.List.Count

/-!
# Reading an escaped key

The text of `escapeProperty` is read one character of the original at a time. A backslash in front
of a space of the key is lost, and one at its end takes the `=` behind the key for a part of it.
-/

namespace Ice.IceGrid

open Properties Properties.LineParser

/-- What the parser does for a character of the original, which is behind a backslash or not -/
def next (escapeEqual prev : Bool) (c : Char) (p : LineParser) : LineParser :=
  if c = '\\' then if prev then p.escape '\\' else p
  else if Escaped escapeEqual c then (if prev then p.escape '\\' else p).escape c
  else if prev then p.escape c
  else (p.char c).getD p

/-- What the parser does for a text -/
def readAll (escapeEqual : Bool) : Bool → Str → LineParser → LineParser
  | _, [], p => p
  | prev, c :: s, p => readAll escapeEqual (decide (c = '\\')) s (next escapeEqual prev c p)

/-- Whether a text, which is behind a backslash or not, ends with one -/
def endsEscape : Bool → Str → Bool
  | prev, [] => prev
  | _, c :: s => endsEscape (decide (c = '\\')) s

section

variable {escapeEqual prev : Bool} {c : Char} {s t : Str} {n : Nat} {p : LineParser}

theorem escape_state (c : Char) (p : LineParser) : (p.escape c).state = p.state := by
  unfold escape
  split
  · split
    · rfl
    · split
      · split
        · rfl
        · rfl
      · rfl
  · split
    · rfl
    · split
      · rfl
      · rfl

section

variable (hp : p.state = .key → escapeEqual = true)

include hp

/-- A character that is not escaped is no comment and does not end the key. -/
theorem char_plain (hescaped : ¬ Escaped escapeEqual c) :
    ∃ q, p.char c = some q ∧ q.state = p.state := by
  have hhash : c ≠ '#' := fun hhash => hescaped (.inl hhash)
  unfold char
  cases hstate : p.state with
  | key =>
    have hequal : c ≠ '=' := fun hequal => hescaped (.inr ⟨hequal, hp hstate⟩)
    by_cases hblank : Blank c
    · by_cases hkey : p.key = []
      · simp [hblank, hkey, hstate]
      · simp [hblank, hkey]
    · simp [hblank, hequal, hhash, addKey, hstate]
  | value =>
    by_cases hblank : Blank c
    · by_cases hvalue : p.value = []
      · simp [hblank, hvalue, hstate]
      · simp [hblank, hvalue]
    · simp [hblank, hhash, addValue, hstate]

theorem next_state :
    (next escapeEqual prev c p).state = p.state := by
  unfold next
  by_cases hc : c = '\\'
  · rw [if_pos hc]
    cases prev
    · rfl
    · exact escape_state _ _
  · rw [if_neg hc]
    by_cases hescaped : Escaped escapeEqual c
    · rw [if_pos hescaped, escape_state]
      cases prev
      · rfl
      · exact escape_state _ _
    · rw [if_neg hescaped]
      cases prev
      · obtain ⟨q, hq, hstate⟩ := char_plain hp hescaped
        rw [if_neg Bool.false_ne_true, hq]
        exact hstate
      · exact escape_state _ _

/-- A character of the original is read. -/
theorem loop_written_cons :
    p.loop (written escapeEqual n prev (c :: s) ++ t) =
      (next escapeEqual prev c p).loop (written escapeEqual n (decide (c = '\\')) s ++ t) := by
  unfold next
  by_cases hc : c = '\\'
  · subst hc
    rw [written_slash]
    cases prev
    · rfl
    · exact loop_escape
  · rw [if_neg hc, decide_eq_false hc]
    by_cases hescaped : Escaped escapeEqual c
    · rw [if_pos hescaped, written_escaped hescaped]
      cases prev
      · exact loop_escape
      · exact loop_escape.trans loop_escape
    · rw [if_neg hescaped, written_plain hc hescaped]
      cases prev
      · obtain ⟨q, hq, _⟩ := char_plain hp hescaped
        rw [if_neg Bool.false_ne_true, hq]
        exact loop_char hc hq
      · exact loop_escape

theorem readAll_state (prev : Bool) (s : Str) :
    (readAll escapeEqual prev s p).state = p.state := by
  induction s generalizing prev p with
  | nil => rfl
  | cons c s ih =>
    have hstate : (next escapeEqual prev c p).state = p.state := next_state hp
    rw [readAll, ih (by rwa [hstate]), hstate]

/-- A text is read, up to what is behind it. -/
theorem loop_written (prev : Bool) (s t : Str) :
    p.loop (written escapeEqual n prev s ++ t) =
      (readAll escapeEqual prev s p).loop
        (written escapeEqual n (endsEscape prev s) [] ++ t) := by
  induction s generalizing prev p with
  | nil => rfl
  | cons c s ih =>
    have hstate : (next escapeEqual prev c p).state = p.state := next_state hp
    rw [loop_written_cons hp, readAll, endsEscape, ih (by rwa [hstate])]

end

section

variable (hp : p.state = .key)

include hp

theorem escape_key_escapable (hc : Escapable c) :
    p.escape c = p.addKey [c] := by
  unfold escape
  rw [hp]
  dsimp only
  rw [if_pos hc]

theorem escape_key_space : p.escape ' ' =
    if p.key ≠ [] then { p with whitespace := p.whitespace ++ [' '] } else p := by
  unfold escape
  rw [hp]
  rfl

theorem escape_key_other (hc : ¬ Escapable c) (hspace : c ≠ ' ') :
    p.escape c = p.addKey ['\\', c] := by
  unfold escape
  rw [hp]
  dsimp only
  rw [if_neg hc, if_neg hspace]

theorem char_key_blank (hc : Blank c) : (p.char c).getD p =
    if p.key ≠ [] then { p with whitespace := p.whitespace ++ [c] } else p := by
  unfold char
  rw [hp]
  dsimp only
  rw [if_pos hc]
  rfl

theorem char_key_other (hc : ¬ Blank c) (hescaped : ¬ Escaped true c) :
    (p.char c).getD p = p.addKey [c] := by
  have hequal : c ≠ '=' := fun hequal => hescaped (.inr ⟨hequal, rfl⟩)
  have hhash : c ≠ '#' := fun hhash => hescaped (.inl hhash)
  unfold char
  rw [hp]
  dsimp only
  rw [if_neg hc, if_neg hequal, if_neg hhash]
  rfl

end

theorem not_escapable (hc : c ≠ '\\') (hescaped : ¬ Escaped true c) : ¬ Escapable c := by
  rintro (hslash | hhash | hequal)
  · exact hc hslash
  · exact hescaped (.inl hhash)
  · exact hescaped (.inr ⟨hequal, rfl⟩)

/-- The key as far as it is read, with the white space and the backslash that are held back -/
def keyText (p : LineParser) (prev : Bool) : Str := p.key ++ p.whitespace ++ pending prev

section

variable (hp : p.state = .key)

include hp

/-- A character of the key is read unless it is a space behind a backslash. -/
theorem next_key (hclear : prev = true → c ≠ ' ')
    (hready : p.key = [] → prev = false → ¬ Blank c) :
    keyText (next true prev c p) (decide (c = '\\')) = keyText p prev ++ [c] ∧
      ((next true prev c p).key = [] → c = '\\') ∧
      ((next true prev c p).whitespace ≠ [] → c = '\\' ∨ Blank c ∧ prev = false) := by
  unfold next keyText
  by_cases hc : c = '\\'
  · subst hc
    rw [if_pos rfl]
    cases prev
    · simp [pending]
    · rw [if_pos rfl, escape_key_escapable hp (.inl rfl)]
      simp [pending, addKey]
  · rw [if_neg hc, decide_eq_false hc]
    by_cases hescaped : Escaped true c
    · rw [if_pos hescaped]
      have hescapable : Escapable c := .inr (hescaped.imp_right And.left)
      cases prev
      · rw [if_neg Bool.false_ne_true, escape_key_escapable hp hescapable]
        simp [pending, addKey]
      · rw [if_pos rfl, escape_key_escapable hp (.inl rfl),
          escape_key_escapable (p := p.addKey _) hp hescapable]
        simp [pending, addKey]
    · rw [if_neg hescaped]
      cases prev
      · rw [if_neg Bool.false_ne_true]
        by_cases hblank : Blank c
        · have hkey : p.key ≠ [] := fun hkey => hready hkey rfl hblank
          rw [char_key_blank hp hblank, if_pos hkey]
          simp [pending, hkey, hblank]
        · rw [char_key_other hp hblank hescaped]
          simp [pending, addKey]
      · rw [if_pos rfl, escape_key_other hp (not_escapable hc hescaped) (hclear rfl)]
        simp [pending, addKey]

/-- A backslash is lost in front of a space. -/
theorem next_key_space :
    keyText (next true true ' ' p) false = p.key ++ p.whitespace ++ [' '] ∨
      keyText (next true true ' ' p) false = p.key ++ p.whitespace := by
  have hnext : next true true ' ' p = p.escape ' ' := rfl
  rw [hnext, escape_key_space hp]
  unfold keyText pending
  split
  · left
    simp
  · right
    simp

/-- White space is lost in front of the key. -/
theorem next_key_blank (hc : Blank c) (hkey : p.key = []) :
    next true false c p = p := by
  have hslash : c ≠ '\\' := by
    rintro rfl
    simp [Blank] at hc
  have hescaped : ¬ Escaped true c := by
    rintro (rfl | ⟨rfl, _⟩)
    · simp [Blank] at hc
    · simp [Blank] at hc
  unfold next
  rw [if_neg hslash, if_neg hescaped, if_neg Bool.false_ne_true, char_key_blank hp hc, hkey]
  rfl

theorem length_next_key :
    (keyText (next true prev c p) (decide (c = '\\'))).length ≤ (keyText p prev).length + 1 ∧
      (prev = true → c = ' ' → (keyText (next true prev c p) (decide (c = '\\'))).length <
        (keyText p prev).length + 1) := by
  by_cases hclear : prev = true → c ≠ ' '
  · by_cases hready : p.key = [] → prev = false → ¬ Blank c
    · obtain ⟨heq, _⟩ := next_key hp hclear hready
      rw [heq, List.length_append]
      exact ⟨Nat.le_refl _, fun hprev hc => absurd hc (hclear hprev)⟩
    · push Not at hready
      obtain ⟨hkey, rfl, hblank⟩ := hready
      have hslash : c ≠ '\\' := by
        rintro rfl
        simp [Blank] at hblank
      rw [next_key_blank hp hblank hkey, decide_eq_false hslash]
      exact ⟨Nat.le_succ _, fun hprev _ => absurd hprev Bool.false_ne_true⟩
  · push Not at hclear
    obtain ⟨rfl, rfl⟩ := hclear
    have hlong : (keyText p true).length = (p.key ++ p.whitespace).length + 1 := by
      unfold keyText
      rw [List.length_append]
      rfl
    have hshort : (keyText (next true true ' ' p) false).length < (keyText p true).length + 1 := by
      rcases next_key_space hp with heq | heq
      · rw [heq, hlong, List.length_append]
        exact Nat.lt_succ_self _
      · rw [heq, hlong]
        omega
    exact ⟨hshort.le, fun _ _ => hshort⟩

/-- No `=` of the key is lost. -/
theorem count_next_key :
    (keyText (next true prev c p) (decide (c = '\\'))).count '=' =
      (keyText p prev).count '=' + [c].count '=' := by
  by_cases hclear : prev = true → c ≠ ' '
  · by_cases hready : p.key = [] → prev = false → ¬ Blank c
    · obtain ⟨heq, _⟩ := next_key hp hclear hready
      rw [heq, List.count_append]
    · push Not at hready
      obtain ⟨hkey, rfl, hblank⟩ := hready
      have hslash : c ≠ '\\' := by
        rintro rfl
        simp [Blank] at hblank
      have hequal : c ≠ '=' := by
        rintro rfl
        simp [Blank] at hblank
      rw [next_key_blank hp hblank hkey, decide_eq_false hslash]
      simp [hequal]
  · push Not at hclear
    obtain ⟨rfl, rfl⟩ := hclear
    have hlong : keyText p true = p.key ++ p.whitespace ++ ['\\'] := rfl
    rcases next_key_space hp with heq | heq
    · rw [hlong]
      simp [heq]
    · rw [hlong]
      simp [heq]

end

/-- No character that a backslash in front of it does not stand for itself is behind a backslash. -/
def Clear (bad : Char → Prop) : Bool → Str → Prop
  | _, [] => True
  | prev, c :: s => (prev = true → ¬ bad c) ∧ Clear bad (decide (c = '\\')) s

/-- Whether a text that is behind a backslash or not, and behind white space that is not read yet
or not, ends with what is read -/
def tidy : Bool → Bool → Str → Bool
  | read, prev, [] => read || prev
  | _, prev, c :: s => tidy (prev || !decide (Blank c)) (decide (c = '\\')) s

section

variable (hp : p.state = .key)

include hp

theorem readAll_key (hclear : Clear (· = ' ') prev s)
    (hready : p.key = [] → prev = false → ∀ c ∈ s.head?, ¬ Blank c) {read : Bool}
    (hread : read = true → p.whitespace = [] ∨ prev = true) (htidy : tidy read prev s = true) :
    keyText (readAll true prev s p) (endsEscape prev s) = keyText p prev ++ s ∧
      ((readAll true prev s p).whitespace = [] ∨ endsEscape prev s = true) := by
  induction s generalizing prev p read with
  | nil =>
    refine ⟨(List.append_nil _).symm, ?_⟩
    rw [tidy, Bool.or_eq_true] at htidy
    exact htidy.elim hread .inr
  | cons c s ih =>
    obtain ⟨hc, hrest⟩ := hclear
    obtain ⟨htext, hkey, hwhitespace⟩ := next_key hp hc
      (fun hnil hprev => hready hnil hprev c rfl)
    have hstate : (next true prev c p).state = .key := (next_state fun _ => rfl).trans hp
    have hagain := ih hstate hrest ?_ ?_ htidy
    · rw [htext, List.append_assoc] at hagain
      exact hagain
    · intro hnil hprev
      rw [decide_eq_false_iff_not] at hprev
      exact absurd (hkey hnil) hprev
    · intro hor
      by_cases hnil : (next true prev c p).whitespace = []
      · exact .inl hnil
      · rcases hwhitespace hnil with rfl | ⟨hblank, rfl⟩
        · exact .inr rfl
        · simp [hblank] at hor

theorem length_readAll_key (prev : Bool) (s : Str) :
    (keyText (readAll true prev s p) (endsEscape prev s)).length ≤
        (keyText p prev).length + s.length ∧
      (¬ Clear (· = ' ') prev s → (keyText (readAll true prev s p) (endsEscape prev s)).length <
        (keyText p prev).length + s.length) := by
  induction s generalizing prev p with
  | nil => exact ⟨Nat.le_refl _, fun hnot => absurd trivial hnot⟩
  | cons c s ih =>
    have hstate : (next true prev c p).state = .key := (next_state fun _ => rfl).trans hp
    obtain ⟨hle, hlt⟩ := ih hstate (decide (c = '\\'))
    obtain ⟨hone, hlost⟩ := @length_next_key prev c p hp
    rw [readAll, endsEscape, List.length_cons]
    refine ⟨by omega, ?_⟩
    intro hnot
    by_cases hc : prev = true → c ≠ ' '
    · have hrest : ¬ Clear (· = ' ') (decide (c = '\\')) s := fun hrest => hnot ⟨hc, hrest⟩
      have hless := hlt hrest
      omega
    · push Not at hc
      have hless := hlost hc.1 hc.2
      omega

theorem count_readAll_key (prev : Bool) (s : Str) :
    (keyText (readAll true prev s p) (endsEscape prev s)).count '=' =
      (keyText p prev).count '=' + s.count '=' := by
  induction s generalizing prev p with
  | nil => rfl
  | cons c s ih =>
    have hstate : (next true prev c p).state = .key := (next_state fun _ => rfl).trans hp
    have hcons : (c :: s).count '=' = [c].count '=' + s.count '=' := by
      rw [← List.count_append]
      rfl
    rw [readAll, endsEscape, ih hstate, count_next_key hp, hcons, Nat.add_assoc]

theorem next_key_frame :
    (next true prev c p).value = p.value ∧
      (next true prev c p).escapedspace = p.escapedspace := by
  have hescape {q : LineParser} (hq : q.state = .key) (d : Char) :
      (q.escape d).value = q.value ∧ (q.escape d).escapedspace = q.escapedspace := by
    unfold escape
    rw [hq]
    dsimp only
    split
    · exact ⟨rfl, rfl⟩
    · split
      · split
        · exact ⟨rfl, rfl⟩
        · exact ⟨rfl, rfl⟩
      · exact ⟨rfl, rfl⟩
  unfold next
  by_cases hc : c = '\\'
  · rw [if_pos hc]
    cases prev
    · exact ⟨rfl, rfl⟩
    · exact hescape hp _
  · rw [if_neg hc]
    by_cases hescaped : Escaped true c
    · rw [if_pos hescaped]
      cases prev
      · exact hescape hp c
      · rw [if_pos rfl, escape_key_escapable hp (.inl rfl)]
        exact hescape (q := p.addKey _) hp c
    · rw [if_neg hescaped]
      cases prev
      · rw [if_neg Bool.false_ne_true]
        by_cases hblank : Blank c
        · rw [char_key_blank hp hblank]
          split
          · exact ⟨rfl, rfl⟩
          · exact ⟨rfl, rfl⟩
        · rw [char_key_other hp hblank hescaped]
          exact ⟨rfl, rfl⟩
      · exact hescape hp c

theorem readAll_key_frame (prev : Bool) (s : Str) :
    (readAll true prev s p).value = p.value ∧
      (readAll true prev s p).escapedspace = p.escapedspace := by
  induction s generalizing prev p with
  | nil => exact ⟨rfl, rfl⟩
  | cons c s ih =>
    have hstate : (next true prev c p).state = .key := (next_state fun _ => rfl).trans hp
    obtain ⟨hvalue, hescapedspace⟩ := @next_key_frame prev c p hp
    obtain ⟨hvalue', hescapedspace'⟩ := ih hstate (decide (c = '\\'))
    exact ⟨hvalue'.trans hvalue, hescapedspace'.trans hescapedspace⟩

end

/-- A text that does not end with white space ends with what is read. -/
theorem tidy_of_last (hs : s ≠ []) (hlast : ∀ c ∈ s.getLast?, ¬ Blank c) (read prev : Bool) :
    tidy read prev s = true := by
  induction s generalizing read prev with
  | nil => exact absurd rfl hs
  | cons c s ih =>
    rw [tidy]
    cases s with
    | nil =>
      have hc : ¬ Blank c := hlast c rfl
      simp [tidy, hc]
    | cons d s =>
      apply ih (by simp)
      rwa [List.getLast?_cons_cons] at hlast

/-- The `=` behind a key ends it. -/
theorem loop_equal (hp : p.state = .key) (line : Str) :
    p.loop ('=' :: line) = { p with whitespace := [], state := .value : LineParser }.loop line := by
  apply loop_char (by decide)
  unfold char
  rw [hp]
  rfl

end

/-- A key that is not empty and has no white space at its ends -/
structure Key (key : Str) : Prop where
  ne : key ≠ []
  head : ∀ c ∈ key.head?, ¬ Blank c
  last : ∀ c ∈ key.getLast?, ¬ Blank c

variable {key : Str}

theorem Key.core (h : Key key) : Core key := by
  refine ⟨h.ne, ?_, ?_⟩
  · rintro c hc rfl
    exact h.head _ hc (.inl rfl)
  · rintro c hc rfl
    exact h.last _ hc (.inl rfl)

theorem Key.trim (h : Key key) : trim key = key := by
  have hhead : key.dropWhile (Blank ·) = key := by
    cases key with
    | nil => rfl
    | cons c s => exact List.dropWhile_cons_of_neg (by simpa using h.head c rfl)
  have hlast : ∀ hne : key ≠ [], ¬decide (Blank (key.getLast hne)) = true := by
    intro hne
    simpa using h.last _ (List.getLast?_eq_some_getLast hne)
  rw [Properties.trim, hhead]
  exact List.rdropWhile_eq_self_iff.mpr hlast

theorem escapeProperty_key (h : Key key) :
    escapeProperty key true = written true 0 false key := by
  have hcore := escapeProperty_core h.core true 0 0
  rw [List.replicate_zero, List.nil_append, List.append_nil] at hcore
  exact hcore

/-- A key without a backslash in front of a space and at its end is read. -/
theorem loop_key (h : Key key) (hclear : Clear (· = ' ') false key)
    (hends : endsEscape false key = false) (line : Str) :
    LineParser.loop {} (escapeProperty key true ++ '=' :: line) =
      LineParser.loop { state := .value, key := key } line := by
  have hstate : (readAll true false key {}).state = .key := readAll_state (fun _ => rfl) _ _
  have hread := readAll_key (p := {}) rfl hclear (fun _ _ => h.head) (fun _ => .inl rfl)
    (tidy_of_last h.ne h.last true false)
  obtain ⟨hvalue, hescapedspace⟩ := readAll_key_frame (p := {}) rfl false key
  obtain ⟨htext, hwhitespace⟩ := hread
  rw [hends] at htext hwhitespace
  have hnil := hwhitespace.resolve_right Bool.false_ne_true
  rw [escapeProperty_key h, loop_written (p := {}) (fun _ => rfl), hends]
  have hempty : written true 0 false [] = [] := rfl
  rw [hempty, List.nil_append, loop_equal hstate, hvalue, hescapedspace]
  have hkey : (readAll true false key {}).key = key := by
    unfold keyText pending at htext
    rw [hnil, if_neg Bool.false_ne_true] at htext
    simpa using htext
  rw [hkey]

/-- A key that is read, but for white space at its ends, has no backslash in front of a space and
none at its end. -/
theorem clear_of_loop_key {key line : Str} (h : Key key)
    (hread : trim (LineParser.loop {} (escapeProperty key true ++ '=' :: line)).key = key) :
    Clear (· = ' ') false key ∧ endsEscape false key = false := by
  have hstate : (readAll true false key {}).state = .key := readAll_state (fun _ => rfl) _ _
  rw [escapeProperty_key h, loop_written (p := {}) (fun _ => rfl)] at hread
  cases hends : endsEscape false key with
  | false =>
    have hempty : written true 0 false [] = [] := rfl
    rw [hends, hempty, List.nil_append, loop_equal hstate,
      (loop_value (p := { (readAll true false key {}) with
        whitespace := [], state := .value }) rfl line).2] at hread
    refine ⟨?_, rfl⟩
    by_contra hclear
    have hless := (length_readAll_key (p := {}) rfl false key).2 hclear
    dsimp only at hread
    have hlong := length_trim_le (readAll true false key {}).key
    rw [hread] at hlong
    rw [hends] at hless
    unfold keyText at hless
    simp only [List.length_append, pending, if_neg Bool.false_ne_true, List.length_nil] at hless
    omega
  | true =>
    have hcount := count_readAll_key (p := {}) rfl false key
    have hgrown := key_prefix_loop ((readAll true false key {}).escape '=') line
    have hle := hgrown.sublist.count_le '='
    have hslash : written true 0 true [] ++ '=' :: line = '\\' :: '=' :: line := rfl
    rw [hends, hslash, loop_escape] at hread
    rw [← count_trim (LineParser.loop _ _).key, hread,
      escape_key_escapable hstate (.inr (.inr rfl))] at hle
    rw [hends] at hcount
    unfold addKey at hle
    unfold keyText pending at hcount
    simp only [List.count_append, if_pos, List.count_singleton_self] at hle hcount
    simp at hcount
    omega

end Ice.IceGrid
