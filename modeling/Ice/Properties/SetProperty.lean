import Mathlib.Data.List.DropRight
import Mathlib.Data.List.Nodup
import Mathlib.Logic.Function.Basic

/-!
# Setting a property

`PropertiesI::setProperty` looks a key up in the table of the known properties. It warns of a key
that is not known, sets the new property instead of a deprecated one, and removes a property for an
empty value.
-/

namespace Ice.Properties

abbrev Str := List Char

/-- White space, which is not read for itself -/
def Blank (c : Char) : Prop := c = ' ' ∨ c = '\t' ∨ c = '\r' ∨ c = '\n'

instance (c : Char) : Decidable (Blank c) := inferInstanceAs (Decidable (_ ∨ _))

/-- `IceUtilInternal::trim` -/
def trim (s : Str) : Str := (s.dropWhile (Blank ·)).rdropWhile (Blank ·)

/-- `IceUtilInternal::toUpper` -/
def toUpper (s : Str) : Str := s.map Char.toUpper

/-- `IceUtilInternal::match`: the first `*` of a pattern stands for one character at least. -/
def isMatch (s pat : Str) : Bool :=
  match pat.findIdx? (· = '*') with
  | none => s = pat
  | some beginIndex =>
    let endLength := pat.length - beginIndex - 1
    let endIndex := s.length - endLength
    if beginIndex > s.length ∨ s.take beginIndex ≠ pat.take beginIndex then false
    else if endLength > s.length then false
    else if endIndex ≤ beginIndex then false
    else s.drop endIndex = pat.drop (beginIndex + 1)

/-- A property that is known, and the one that is set instead if it is deprecated -/
structure Property where
  pattern : Str
  deprecated : Bool := false
  deprecatedBy : Option Str := none
  deriving DecidableEq, Repr

/-- The properties with one prefix are those whose first pattern has it. -/
def prefixOf (props : List Property) : Str :=
  toUpper ((props.head?.elim [] (·.pattern)).takeWhile (· ≠ '.'))

/-- `validProps`: the prefixes are different, and the names that are set instead of deprecated ones
have no backslash. -/
structure PropertyNames where
  validProps : List (List Property)
  nodup : (validProps.map prefixOf).Nodup
  unescaped : ∀ props ∈ validProps, ∀ prop ∈ props, ∀ other ∈ prop.deprecatedBy, '\\' ∉ other

/-- Is the key that of a property, at least but for the case? -/
def isNamed (key : Str) (prop : Property) : Bool :=
  isMatch key prop.pattern || isMatch (toUpper key) (toUpper prop.pattern)

/-- The loop over the properties of a prefix: the key that it ends with, and the warnings -/
def checkProps (currentKey : Str) : List Property → Str × List Str
  | [] => (currentKey, ["unknown property: \x60".toList ++ currentKey ++ "'".toList])
  | prop :: props =>
    if isMatch currentKey prop.pattern then
      if prop.deprecated then
        (prop.deprecatedBy.getD currentKey, ["deprecated property: ".toList ++ currentKey])
      else (currentKey, [])
    else if isMatch (toUpper currentKey) (toUpper prop.pattern) then
      (currentKey, ["unknown property: \x60".toList ++ currentKey ++
        "'; did you mean \x60".toList ++ prop.pattern ++ "'".toList])
    else checkProps currentKey props

/-- The loop over the prefixes -/
def checkPrefixes (keyPrefix currentKey : Str) : List (List Property) → Str × List Str
  | [] => (currentKey, [])
  | props :: rest =>
    if prefixOf props ≠ toUpper keyPrefix then checkPrefixes keyPrefix currentKey rest
    else
      let checked := checkProps currentKey props
      let others := checkPrefixes keyPrefix checked.1 rest
      (others.1, checked.2 ++ others.2)

/-- Check if the property is legal. -/
def PropertyNames.check (names : PropertyNames) (currentKey : Str) : Str × List Str :=
  if '.' ∈ currentKey then
    checkPrefixes (currentKey.takeWhile (· ≠ '.')) currentKey names.validProps
  else (currentKey, [])

structure PropertyValue where
  value : Str
  used : Bool := false
  deriving DecidableEq, Repr

/-- `_properties`, as a function of the key -/
abbrev PropertyMap := Str → Option PropertyValue

/-- Set or clear the property. -/
def PropertyMap.put (properties : PropertyMap) (currentKey value : Str) : PropertyMap :=
  Function.update properties currentKey
    (if value ≠ [] then some ⟨value, (properties currentKey).any (·.used)⟩ else none)

/-- The properties and the warnings that were logged, or the text of an exception -/
abbrev Result := Except Str (PropertyMap × List Str)

def setProperty (names : PropertyNames) (properties : PropertyMap) (key value : Str) : Result :=
  let currentKey := trim key
  if currentKey = [] then .error "Attempt to set property with empty key".toList
  else
    let checked := names.check currentKey
    .ok (properties.put checked.1 value, checked.2)

/-- Another property is set for the key: the first property of its prefix that is named by it is
deprecated in favour of the other one. -/
def PropertyNames.Renames (names : PropertyNames) (key : Str) : Prop :=
  '.' ∈ key ∧ ∃ props ∈ names.validProps, prefixOf props = toUpper (key.takeWhile (· ≠ '.')) ∧
    ∃ prop other, props.find? (isNamed key) = some prop ∧ isMatch key prop.pattern = true ∧
      prop.deprecated = true ∧ prop.deprecatedBy = some other ∧ other ≠ key

/-- Exactly the property of a key has changed: it has the value, or there is none if the value is
empty. -/
structure Sets (properties properties' : PropertyMap) (key value : Str) : Prop where
  value : (properties' key).map (·.value) = if value = [] then none else some value
  others : ∀ k ≠ key, properties' k = properties k

/-- The `=` of a text are kept. -/
theorem count_trim (s : Str) : (trim s).count '=' = s.count '=' := by
  have hdrop (t : Str) : (t.dropWhile (Blank ·)).count '=' = t.count '=' := by
    have hblank : '=' ∉ t.takeWhile (Blank ·) := by
      intro hmem
      have hequal := List.mem_takeWhile_imp hmem
      simp [Blank] at hequal
    calc (t.dropWhile (Blank ·)).count '='
        = (t.takeWhile (Blank ·)).count '=' + (t.dropWhile (Blank ·)).count '=' := by
          rw [List.count_eq_zero.mpr hblank, Nat.zero_add]
      _ = t.count '=' := by rw [← List.count_append, List.takeWhile_append_dropWhile]
  rw [trim, List.rdropWhile, List.count_reverse, hdrop, List.count_reverse, hdrop]

theorem length_trim_le (s : Str) : (trim s).length ≤ s.length :=
  (List.rdropWhile_prefix _ _).length_le.trans (List.dropWhile_suffix _).length_le

variable {names : PropertyNames} {key keyPrefix value : Str} {props : List Property}
  {rest : List (List Property)}

/-- The name that is set instead of a key is one of the table. -/
theorem checkProps_fst : (checkProps key props).1 = key ∨ ∃ prop other,
    props.find? (isNamed key) = some prop ∧ isMatch key prop.pattern = true ∧
      prop.deprecated = true ∧ prop.deprecatedBy = some other ∧
      (checkProps key props).1 = other := by
  induction props with
  | nil => exact .inl rfl
  | cons prop props ih =>
    unfold checkProps
    by_cases hmatch : isMatch key prop.pattern = true
    · have hnamed : isNamed key prop = true := by
        rw [isNamed, hmatch, Bool.true_or]
      rw [if_pos hmatch, List.find?_cons_of_pos hnamed]
      by_cases hdeprecated : prop.deprecated = true
      · rw [if_pos hdeprecated]
        cases hother : prop.deprecatedBy with
        | none => exact .inl rfl
        | some other => exact .inr ⟨prop, other, rfl, hmatch, hdeprecated, hother, rfl⟩
      · rw [if_neg hdeprecated]
        exact .inl rfl
    · rw [if_neg hmatch]
      by_cases hupper : isMatch (toUpper key) (toUpper prop.pattern) = true
      · rw [if_pos hupper]
        exact .inl rfl
      · have hnamed : ¬isNamed key prop = true := by
          rw [isNamed, Bool.or_eq_true]
          exact not_or.mpr ⟨hmatch, hupper⟩
        rw [if_neg hupper, List.find?_cons_of_neg hnamed]
        exact ih

/-- The first property that is named by a key decides. -/
theorem checkProps_of_find {prop : Property} {other : Str}
    (hfind : props.find? (isNamed key) = some prop) (hmatch : isMatch key prop.pattern = true)
    (hdeprecated : prop.deprecated = true) (hother : prop.deprecatedBy = some other) :
    (checkProps key props).1 = other := by
  induction props with
  | nil => cases hfind
  | cons first props ih =>
    unfold checkProps
    by_cases hnamed : isNamed key first = true
    · rw [List.find?_cons_of_pos hnamed] at hfind
      obtain rfl := Option.some.inj hfind
      rw [if_pos hmatch, if_pos hdeprecated, hother]
      rfl
    · rw [List.find?_cons_of_neg hnamed] at hfind
      rw [isNamed, Bool.or_eq_true, not_or] at hnamed
      rw [if_neg hnamed.1, if_neg hnamed.2]
      exact ih hfind

/-- Properties with other prefixes do not matter. -/
theorem checkPrefixes_of_notMem (h : toUpper keyPrefix ∉ rest.map prefixOf) :
    checkPrefixes keyPrefix key rest = (key, []) := by
  induction rest with
  | nil => rfl
  | cons props rest ih =>
    rw [List.map_cons, List.mem_cons, not_or] at h
    rw [checkPrefixes, if_pos (Ne.symm h.1), ih h.2]

/-- One prefix decides. -/
theorem checkPrefixes_of_mem (hnodup : (rest.map prefixOf).Nodup) (hmem : props ∈ rest)
    (hpre : prefixOf props = toUpper keyPrefix) :
    (checkPrefixes keyPrefix key rest).1 = (checkProps key props).1 := by
  induction rest with
  | nil => cases hmem
  | cons first rest ih =>
    rw [List.map_cons, List.nodup_cons] at hnodup
    rw [checkPrefixes]
    rcases List.mem_cons.mp hmem with rfl | hmem
    · rw [hpre] at hnodup
      rw [if_neg (not_not.mpr hpre)]
      dsimp only
      rw [checkPrefixes_of_notMem hnodup.1]
    · have hother : prefixOf first ≠ toUpper keyPrefix := by
        rw [← hpre]
        intro heq
        exact hnodup.1 (heq ▸ List.mem_map_of_mem hmem)
      rw [if_pos hother]
      exact ih hnodup.2 hmem

namespace PropertyNames

/-- Another key than the one that is checked is one of the table. -/
theorem mem_of_check_ne (h : (names.check key).1 ≠ key) : ∃ props ∈ names.validProps,
    '.' ∈ key ∧ prefixOf props = toUpper (key.takeWhile (· ≠ '.')) ∧
      (names.check key).1 = (checkProps key props).1 := by
  unfold check at h ⊢
  by_cases hdot : '.' ∈ key
  · rw [if_pos hdot] at h ⊢
    by_cases hmem : toUpper (key.takeWhile (· ≠ '.')) ∈ names.validProps.map prefixOf
    · obtain ⟨props, hprops, hpre⟩ := List.mem_map.mp hmem
      exact ⟨props, hprops, hdot, hpre, checkPrefixes_of_mem names.nodup hprops hpre⟩
    · rw [checkPrefixes_of_notMem hmem] at h
      exact absurd rfl h
  · rw [if_neg hdot] at h
    exact absurd rfl h

theorem check_eq_iff (names : PropertyNames) (key : Str) :
    (names.check key).1 = key ↔ ¬names.Renames key := by
  constructor
  · rintro heq ⟨hdot, props, hprops, hpre, prop, other, hfind, hmatch, hdeprecated, hother, hne⟩
    unfold check at heq
    rw [if_pos hdot, checkPrefixes_of_mem names.nodup hprops hpre,
      checkProps_of_find hfind hmatch hdeprecated hother] at heq
    exact hne heq
  · intro hnot
    by_contra hne
    obtain ⟨props, hprops, hdot, hpre, hcheck⟩ := mem_of_check_ne hne
    rw [hcheck] at hne
    rcases checkProps_fst with heq | ⟨prop, other, hfind, hmatch, hdeprecated, hother, heq⟩
    · exact hne heq
    · rw [heq] at hne
      exact hnot ⟨hdot, props, hprops, hpre, prop, other, hfind, hmatch, hdeprecated, hother, hne⟩

/-- The key that is set is the one that is checked, or has no backslash. -/
theorem check_cases (names : PropertyNames) (key : Str) :
    (names.check key).1 = key ∨ '\\' ∉ (names.check key).1 := by
  by_cases hne : (names.check key).1 = key
  · exact .inl hne
  · obtain ⟨props, hprops, -, -, hcheck⟩ := mem_of_check_ne hne
    rw [hcheck] at hne ⊢
    rcases checkProps_fst with heq | ⟨prop, other, hfind, -, -, hother, heq⟩
    · exact absurd heq hne
    · rw [heq]
      exact .inr (names.unescaped props hprops prop (List.mem_of_find?_eq_some hfind) other hother)

end PropertyNames

/-- What is set for every content of the map tells the key and the value. -/
theorem sets_put_iff {key' value' : Str} :
    (∀ properties, Sets properties (PropertyMap.put properties key value) key' value') ↔
      key = key' ∧ value = value' := by
  constructor
  · intro h
    -- The value at the key changes from a longer one.
    have hset := h fun _ => some ⟨' ' :: value, false⟩
    have hkey : key = key' := by
      by_contra hne
      have hkept := hset.others key hne
      rw [PropertyMap.put, Function.update_self] at hkept
      split at hkept
      · have hlength := congrArg List.length
          (congrArg PropertyValue.value (Option.some.inj hkept))
        rw [List.length_cons] at hlength
        exact absurd hlength (Nat.succ_ne_self _).symm
      · cases hkept
    subst hkey
    have hvalue := hset.value
    rw [PropertyMap.put, Function.update_self] at hvalue
    refine ⟨rfl, ?_⟩
    by_cases hnil : value = []
    · by_cases hnil' : value' = []
      · rw [hnil, hnil']
      · simp [hnil, hnil'] at hvalue
    · by_cases hnil' : value' = []
      · simp [hnil, hnil'] at hvalue
      · simpa [hnil, hnil'] using hvalue
  · rintro ⟨rfl, rfl⟩ properties
    constructor
    · rw [PropertyMap.put, Function.update_self]
      by_cases hnil : value = []
      · simp [hnil]
      · simp [hnil]
    · intro k hk
      exact Function.update_of_ne hk _ _

end Ice.Properties
