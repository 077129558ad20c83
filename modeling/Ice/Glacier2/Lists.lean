import Ice.References.Reference

/-!
# Lists in properties

The two parsers of a property that is a list of words, and the properties that are written so that
a list of words is meant.
-/

namespace Ice.Glacier2

open References

abbrev Identity := References.Identity

def space : UInt8 := 32
def tab : UInt8 := 9
def backslash : UInt8 := 92

def isBlank (c : UInt8) : Bool := c = space || c = tab

/-- `"` and `'` -/
def isQuote (c : UInt8) : Bool := c = 34 || c = 39

/-- The character is a backslash before a quote: outside of quotes any quote, inside the one that
would end them. -/
def escapes (quoteChar : Option UInt8) (c : UInt8) (rest : Str) : Bool :=
  c = backslash &&
    match rest.head? with
    | none => false
    | some d =>
      match quoteChar with
      | none => isQuote d
      | some q => d = q

/-- `result.push_back(elt)` unless the element is empty -/
def pushed (result : List Str) (elt : Str) : List Str :=
  if elt = [] then result else result ++ [elt]

/-- The loop of `splitString`, from the position on where `str` begins -/
def splitLoop (delim : Str) (quoteChar : Option UInt8) (elt : Str) (result : List Str) (str : Str) :
    List Str × Bool :=
  match str with
  | [] => (pushed result elt, quoteChar.isNone)
  | c :: rest =>
    if quoteChar = none ∧ isQuote c then splitLoop delim (some c) elt result rest
    else if escapes quoteChar c rest then
      splitLoop delim quoteChar (elt ++ rest.take 1) result (rest.drop 1)
    else if quoteChar = some c then splitLoop delim none elt result rest
    else if c ∈ delim ∧ quoteChar = none then splitLoop delim none [] (pushed result elt) rest
    else splitLoop delim quoteChar (elt ++ [c]) result rest
termination_by str.length
decreasing_by all_goals (simp only [List.length_cons, List.length_drop]; omega)

/-- `splitString`, which adds to `result` -/
def splitString (str delim : Str) (result : List Str) : List Str × Bool :=
  splitLoop delim none [] result str

/-- `stringToSeq` for strings -/
def stringToSeq (str : Str) (seq : List Str) : List Str := (splitString str [space, tab] seq).1

/-- The search for the quote that ends an element, with an even number of backslashes before it. -/
def closing (quote : UInt8) (seen : Str) : Str → Option (Str × Str)
  | [] => none
  | c :: rest =>
    if c = quote ∧ (seen.takeWhile (· = backslash)).length % 2 = 0 then some (seen.reverse, rest)
    else closing quote (c :: seen) rest

theorem length_closing {quote : UInt8} {seen str inside rest : Str}
    (h : closing quote seen str = some (inside, rest)) : rest.length < str.length := by
  induction str generalizing seen with
  | nil => cases h
  | cons c str ih =>
    rw [closing] at h
    split at h
    · cases h
      exact Nat.lt_succ_self _
    · exact (ih h).trans (Nat.lt_succ_self _)

theorem length_dropWhile_le (p : UInt8 → Bool) (str : Str) :
    (str.dropWhile p).length ≤ str.length :=
  (List.dropWhile_sublist p).length_le

/-- `stringToSeq` for identities; `none` where `stringToIdentity` throws. -/
def stringToIdentities (stringToIdentity : Str → Option Identity) (str : Str)
    (seq : List Identity) :
    Option (List Identity) :=
  match _h : str.dropWhile isBlank with
  | [] => some seq
  | c :: rest =>
    if isQuote c then
      match _hc : closing c [] rest with
      | none =>
        match stringToIdentity (c :: rest) with
        | none => none
        | some id => some (seq ++ [id])
      | some (inside, after) =>
        match stringToIdentity inside with
        | none => none
        | some id => stringToIdentities stringToIdentity after (seq ++ [id])
    else
      match stringToIdentity (c :: rest.takeWhile (!isBlank ·)) with
      | none => none
      | some id => stringToIdentities stringToIdentity (rest.dropWhile (!isBlank ·)) (seq ++ [id])
termination_by str.length
decreasing_by
  all_goals have hlength := length_dropWhile_le isBlank str
  all_goals rw [_h, List.length_cons] at hlength
  · have := length_closing _hc
    omega
  · have := length_dropWhile_le (!isBlank ·) rest
    omega

/-- Elements, each with the blanks before it -/
structure Setting (α : Type) where
  items : List (Str × α)
  trailing : Str
  blanks : ∀ p ∈ items, ∀ c ∈ p.1, isBlank c = true
  trailingBlanks : ∀ c ∈ trailing, isBlank c = true
  separated : ∀ p ∈ items.tail, p.1 ≠ []

namespace Setting

variable {α : Type}

def textOf (written : α → Str) (items : List (Str × α)) (trailing : Str) : Str :=
  items.flatMap (fun p => p.1 ++ written p.2) ++ trailing

/-- The property -/
def text (written : α → Str) (s : Setting α) : Str := textOf written s.items s.trailing

def values (s : Setting α) : List α := s.items.map Prod.snd

end Setting

/-- A string as it is written: within quotes, or without them if it has no blank -/
structure Word where
  quote : Option UInt8
  value : Str
  nonempty : value ≠ []
  isQuote : ∀ q ∈ quote, isQuote q = true
  unquoted : quote = none → ∀ c ∈ value, isBlank c = false
  quoted : quote ≠ none → value.getLast? ≠ some backslash

/-- Quotes that would mean something else have a backslash before them. -/
def escaped (special : UInt8 → Bool) (value : Str) : Str :=
  value.flatMap fun c => if special c then [backslash, c] else [c]

def Word.text (w : Word) : Str :=
  match w.quote with
  | none => escaped Glacier2.isQuote w.value
  | some q => q :: escaped (· = q) w.value ++ [q]

/-- A backslash makes the character after it a part of the element. -/
def Regular (quote : UInt8) : Str → Prop
  | [] => True
  | [c] => c ≠ backslash ∧ c ≠ quote
  | c :: d :: rest =>
    if c = backslash then Regular quote rest else c ≠ quote ∧ Regular quote (d :: rest)

/-- An identity as it is written -/
structure IdentityWord (stringToIdentity : Str → Option Identity) where
  quote : Option UInt8
  raw : Str
  value : Identity
  parses : stringToIdentity raw = some value
  isQuote : ∀ q ∈ quote, isQuote q = true
  unquoted : quote = none →
    raw ≠ [] ∧ (∀ c ∈ raw, isBlank c = false) ∧ ∀ c ∈ raw.head?, Glacier2.isQuote c = false
  quoted : ∀ q ∈ quote, Regular q raw

def IdentityWord.text {f : Str → Option Identity} (w : IdentityWord f) : Str :=
  match w.quote with
  | none => w.raw
  | some q => q :: w.raw ++ [q]

end Ice.Glacier2
