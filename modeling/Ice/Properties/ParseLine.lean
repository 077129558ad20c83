import Ice.Properties.SetProperty

/-!
# A line of a configuration file

`PropertiesI::parseLine` reads the key up to the first `=` and the value behind it. White space is
held back until a character is read that it stands in front of; escaped spaces are held back once
more, for they stay at the ends of a value.
-/

namespace Ice.Properties

open Option (some.inj)

inductive ParseState
  | key
  | value
  deriving DecidableEq, Repr

structure LineParser where
  state : ParseState := .key
  key : Str := []
  value : Str := []
  whitespace : Str := []
  escapedspace : Str := []
  deriving DecidableEq, Repr

/-- The characters that are read for themselves behind a backslash -/
def Escapable (c : Char) : Prop := c = '\\' ∨ c = '#' ∨ c = '='

instance (c : Char) : Decidable (Escapable c) := inferInstanceAs (Decidable (_ ∨ _))

namespace LineParser

/-- The white space that was held back and characters are put to the key. -/
def addKey (p : LineParser) (s : Str) : LineParser :=
  { p with key := p.key ++ p.whitespace ++ s, whitespace := [] }

/-- The value with the white space that was held back -/
def flushed (p : LineParser) : Str :=
  p.value ++ if p.value = [] then p.escapedspace else p.whitespace

def addValue (p : LineParser) (s : Str) : LineParser :=
  { p with value := p.flushed ++ s, whitespace := [], escapedspace := [] }

/-- A character behind a backslash -/
def escape (p : LineParser) (c : Char) : LineParser :=
  match p.state with
  | .key =>
    if Escapable c then p.addKey [c]
    else if c = ' ' then
      if p.key ≠ [] then { p with whitespace := p.whitespace ++ [c] } else p
    else p.addKey ['\\', c]
  | .value =>
    if Escapable c then p.addValue [c]
    else if c = ' ' then
      { p with
        whitespace := p.whitespace ++ [c]
        escapedspace := p.escapedspace ++ [c] }
    else p.addValue ['\\', c]

/-- A backslash at the end of the line; the white space is not cleared. -/
def escapeEnd (p : LineParser) : LineParser :=
  match p.state with
  | .key => { p with key := p.key ++ p.whitespace ++ ['\\'] }
  | .value => { p with value := p.flushed ++ ['\\'] }

/-- Any other character; nothing if the rest is a comment. -/
def char (p : LineParser) (c : Char) : Option LineParser :=
  match p.state with
  | .key =>
    if Blank c then
      some (if p.key ≠ [] then { p with whitespace := p.whitespace ++ [c] } else p)
    else if c = '=' then some { p with whitespace := [], state := .value }
    else if c = '#' then none
    else some (p.addKey [c])
  | .value =>
    if Blank c then
      some (if p.value ≠ [] then { p with whitespace := p.whitespace ++ [c] } else p)
    else if c = '#' then none
    else some (p.addValue [c])

/-- The loop of `parseLine` -/
def loop (p : LineParser) : Str → LineParser
  | [] => p
  | c :: line =>
    if c = '\\' then
      match line with
      | [] => p.escapeEnd
      | c :: line => loop (p.escape c) line
    else
      match p.char c with
      | none => p
      | some p => loop p line

end LineParser

/-- `parseLine`; `toNative` is `UTF8ToNative` with the converter. Nothing is set for a line that is
blank or a comment. -/
def parseLine (names : PropertyNames) (toNative : Str → Str) (properties : PropertyMap)
    (line : Str) : Result :=
  let p := LineParser.loop {} line
  let value := p.value ++ p.escapedspace
  if (p.state = .key ∧ p.key ≠ []) ∨ (p.state = .value ∧ p.key = []) then
    .ok (properties, ["invalid config file entry: \"".toList ++ line ++ "\"".toList])
  else if p.key = [] then .ok (properties, [])
  else setProperty names properties (toNative p.key) (toNative value)

/-- What is relied on from a converter to the native encoding: it loses nothing, and keeps
backslashes and the white space at the ends of a text. -/
structure Converter (toNative : Str → Str) : Prop where
  injective : Function.Injective toNative
  nil : toNative [] = []
  slash : ∀ s, '\\' ∈ s → '\\' ∈ toNative s
  trim : ∀ s, Properties.trim (toNative s) = toNative (Properties.trim s)

namespace LineParser

variable {p : LineParser} {c : Char} {line : Str}

@[simp]
theorem loop_nil : p.loop [] = p := rfl

theorem loop_escape : p.loop ('\\' :: c :: line) = (p.escape c).loop line := rfl

theorem loop_char {p' : LineParser} (hc : c ≠ '\\') (h : p.char c = some p') :
    p.loop (c :: line) = p'.loop line := by
  rw [loop.eq_def]
  dsimp only
  rw [if_neg hc, h]

/-- What every character keeps is kept by the loop. -/
theorem loop_invariant {I : LineParser → Prop} (hescape : ∀ p c, I p → I (p.escape c))
    (hend : ∀ p, I p → I p.escapeEnd) (hchar : ∀ p c p', I p → p.char c = some p' → I p')
    (h : I p) (line : Str) : I (p.loop line) := by
  induction p, line using loop.induct with
  | case1 p => exact h
  | case2 p => exact hend p h
  | case3 p c line ih => exact ih (hescape p c h)
  | case4 p c line hc hnone =>
    rw [loop.eq_def]
    dsimp only
    rw [if_neg hc, hnone]
    exact h
  | case5 p c line hc p' hsome ih =>
    rw [loop_char hc hsome]
    exact ih (hchar p c p' h hsome)

/-- The key is not touched while the value is read. -/
theorem loop_value (h : p.state = .value) (line : Str) :
    (p.loop line).state = .value ∧ (p.loop line).key = p.key := by
  apply loop_invariant (I := fun q => q.state = .value ∧ q.key = p.key)
  · rintro q c ⟨hstate, hkey⟩
    unfold escape
    rw [hstate]
    dsimp only
    split
    · exact ⟨hstate, hkey⟩
    · split
      · exact ⟨rfl, hkey⟩
      · exact ⟨hstate, hkey⟩
  · rintro q ⟨hstate, hkey⟩
    unfold escapeEnd
    rw [hstate]
    exact ⟨rfl, hkey⟩
  · rintro q c q' ⟨hstate, hkey⟩ hchar
    unfold char at hchar
    rw [hstate] at hchar
    dsimp only at hchar
    split at hchar
    · cases some.inj hchar
      split
      · exact ⟨rfl, hkey⟩
      · exact ⟨hstate, hkey⟩
    · split at hchar
      · cases hchar
      · cases some.inj hchar
        exact ⟨hstate, hkey⟩
  · exact ⟨h, rfl⟩

theorem key_prefix_addKey (p : LineParser) (s : Str) : p.key <+: (p.addKey s).key := by
  unfold addKey
  rw [List.append_assoc]
  exact List.prefix_append _ _

/-- The key only grows. -/
theorem key_prefix_loop (p : LineParser) (line : Str) : p.key <+: (p.loop line).key := by
  apply loop_invariant (I := fun q => p.key <+: q.key)
  · intro q c h
    unfold escape
    split
    · split
      · exact h.trans (key_prefix_addKey q _)
      · split
        · split
          · exact h
          · exact h
        · exact h.trans (key_prefix_addKey q _)
    · split
      · exact h
      · split
        · exact h
        · exact h
  · intro q h
    unfold escapeEnd
    split
    · rw [List.append_assoc]
      exact h.trans (List.prefix_append _ _)
    · exact h
  · intro q c q' h hchar
    unfold char at hchar
    split at hchar
    · split at hchar
      · cases some.inj hchar
        split
        · exact h
        · exact h
      · split at hchar
        · cases some.inj hchar
          exact h
        · split at hchar
          · cases hchar
          · cases some.inj hchar
            exact h.trans (key_prefix_addKey q _)
    · split at hchar
      · cases some.inj hchar
        split
        · exact h
        · exact h
      · split at hchar
        · cases hchar
        · cases some.inj hchar
          exact h
  · exact List.prefix_rfl

end LineParser

end Ice.Properties
