import Mathlib

/-!
# Escaped strings

`escapeString` and `unescapeString` of `IceUtilInternal`. A character is a byte; an exception is no
result. The bits of a number are written by division and remainder.
-/

namespace Ice.IceUtil

abbrev Str := List UInt8

/-- A character of the source -/
def ch (c : Char) : UInt8 := UInt8.ofNat c.toNat

/-- A string converter; there is no result where it throws. -/
structure StringConverter where
  toUTF8 : Str → Option Str
  fromUTF8 : Str → Option Str

def nativeToUTF8 (str : Str) : Option StringConverter → Option Str
  | none => some str
  | some converter => if str = [] then some str else converter.toUTF8 str

def UTF8ToNative (str : Str) : Option StringConverter → Option Str
  | none => some str
  | some converter => if str = [] then some str else converter.fromUTF8 str

inductive ToStringMode
  | unicode
  | ascii
  | compat
  deriving DecidableEq, Repr

def toHexDigit (b : Nat) : UInt8 := UInt8.ofNat (if b < 10 then 48 + b else 97 - 10 + b)

/-- The last `n` hexadecimal digits of a number -/
def hexDigits (codePoint : Nat) : Nat → Str
  | 0 => []
  | n + 1 => toHexDigit (codePoint / 16 ^ n % 16) :: hexDigits codePoint n

def addContinuationByte (codePoint : Nat) : Str → Option (Nat × Str)
  | [] => none
  | b :: s => if b.toNat / 64 ≠ 2 then none else some (codePoint * 64 + b.toNat % 64, s)

/-- The code point of a sequence of two to four bytes -/
def readCodePoint (c : UInt8) (s : Str) : Option (Nat × Str) :=
  if c.toNat / 32 = 6 then addContinuationByte (c.toNat % 32) s
  else if c.toNat / 16 = 14 then do
    let (codePoint, s) ← addContinuationByte (c.toNat % 16) s
    addContinuationByte codePoint s
  else if c.toNat / 8 = 30 then do
    let (codePoint, s) ← addContinuationByte (c.toNat % 8) s
    let (codePoint, s) ← addContinuationByte codePoint s
    addContinuationByte codePoint s
  else none

/-- What is appended to the result, and what is left of the string -/
def appendUniversalName (c : UInt8) (s : Str) : Option (Str × Str) := do
  let (codePoint, s) ← readCodePoint c s
  if codePoint > 0xFFFF then some (ch '\\' :: ch 'U' :: hexDigits codePoint 8, s)
  else some (ch '\\' :: ch 'u' :: hexDigits codePoint 4, s)

/-- The octal digits of a byte, with leading zeroes -/
def octal (i : Nat) : Str :=
  [UInt8.ofNat (48 + i / 64), UInt8.ofNat (48 + i / 8 % 8), UInt8.ofNat (48 + i % 8)]

/-- The letter of the escape sequence of a control character, if there is one in the mode -/
def letter (toStringMode : ToStringMode) (c : UInt8) : Option UInt8 :=
  if c = 7 then if toStringMode = .compat then none else some (ch 'a')
  else if c = 8 then some (ch 'b')
  else if c = 12 then some (ch 'f')
  else if c = 10 then some (ch 'n')
  else if c = 13 then some (ch 'r')
  else if c = 9 then some (ch 't')
  else if c = 11 then if toStringMode = .compat then none else some (ch 'v')
  else none

/-- One turn of the loop of `escapeString`: what is appended, and what is left. Where `\a` and `\v`
have no letter, they are written as octal numbers like other control characters. -/
def escapeNext (special : Str) (toStringMode : ToStringMode) (c : UInt8) (s : Str) :
    Option (Str × Str) :=
  if c = ch '\\' ∨ c = ch '\'' ∨ c = ch '"' then some ([ch '\\', c], s)
  else
    match letter toStringMode c with
    | some l => some ([ch '\\', l], s)
    | none =>
      if c ∈ special then some ([ch '\\', c], s)
      else if c < 32 ∨ 126 < c then
        if toStringMode = .compat then some (ch '\\' :: octal c.toNat, s)
        else if c < 32 ∨ c = 127 then
          some ([ch '\\', ch 'u', ch '0', ch '0', toHexDigit (c.toNat / 16),
            toHexDigit (c.toNat % 16)], s)
        else if toStringMode = .ascii then appendUniversalName c s
        else some ([c], s)
      else some ([c], s)

/-- The loop of `escapeString`; a number of turns is enough that is not less than the length. -/
def escapeLoop (special : Str) (toStringMode : ToStringMode) : Nat → Str → Option Str
  | _, [] => some []
  | 0, _ :: _ => none
  | n + 1, c :: s => do
    let (out, s) ← escapeNext special toStringMode c s
    let result ← escapeLoop special toStringMode n s
    return out ++ result

/-- The test of the special characters -/
def InRange (special : Str) : Prop := ∀ c ∈ special, 32 ≤ c ∧ c ≤ 126

instance (special : Str) : Decidable (InRange special) := List.decidableBAll _ special

def escapeString (converter : Option StringConverter) (s special : Str)
    (toStringMode : ToStringMode) : Option Str :=
  if InRange special then do
    let u8s ← nativeToUTF8 s converter
    let result ← escapeLoop special toStringMode u8s.length u8s
    if toStringMode = .unicode then UTF8ToNative result converter else some result
  else none

def checkChar (c : UInt8) : Option UInt8 := if c < 32 ∨ c = 127 then none else some c

def appendUTF8 (codePoint : Nat) : Option Str :=
  if 0xD800 ≤ codePoint ∧ codePoint ≤ 0xDFFF then none
  else if codePoint ≤ 0x7F then some [UInt8.ofNat codePoint]
  else if codePoint ≤ 0x7FF then
    some [UInt8.ofNat (codePoint / 64 + 0xC0), UInt8.ofNat (codePoint % 64 + 0x80)]
  else if codePoint ≤ 0xFFFF then
    some [UInt8.ofNat (codePoint / 4096 + 0xE0), UInt8.ofNat (codePoint / 64 % 64 + 0x80),
      UInt8.ofNat (codePoint % 64 + 0x80)]
  else if codePoint ≤ 0x10FFFF then
    some [UInt8.ofNat (codePoint / 262144 + 0xF0), UInt8.ofNat (codePoint / 4096 % 64 + 0x80),
      UInt8.ofNat (codePoint / 64 % 64 + 0x80), UInt8.ofNat (codePoint % 64 + 0x80)]
  else none

def hexValue (c : UInt8) : Option Nat :=
  if ch '0' ≤ c ∧ c ≤ ch '9' then some (c.toNat - 48)
  else if ch 'a' ≤ c ∧ c ≤ ch 'f' then some (10 + (c.toNat - 97))
  else if ch 'A' ≤ c ∧ c ≤ ch 'F' then some (10 + (c.toNat - 65))
  else none

/-- At most `size` digits are read: how many are missing, the number, and what is left. -/
def readHex : Nat → Nat → Str → Nat × Nat × Str
  | 0, val, s => (0, val, s)
  | size + 1, val, [] => (size + 1, val, [])
  | size + 1, val, c :: s =>
    match hexValue c with
    | some charVal => readHex size (val * 16 + charVal) s
    | none => (size + 1, val, c :: s)

def readOctal : Nat → Nat → Str → Nat × Str
  | 0, val, s => (val, s)
  | _ + 1, val, [] => (val, [])
  | size + 1, val, c :: s =>
    if ch '0' ≤ c ∧ c ≤ ch '7' then readOctal size (val * 8 + (c.toNat - 48)) s
    else (val, c :: s)

/-- The control character of a letter -/
def control (c : UInt8) : Option UInt8 :=
  if c = ch 'a' then some 7
  else if c = ch 'b' then some 8
  else if c = ch 'f' then some 12
  else if c = ch 'n' then some 10
  else if c = ch 'r' then some 13
  else if c = ch 't' then some 9
  else if c = ch 'v' then some 11
  else none

/-- `decodeChar` for a backslash and what is behind it: the result, what is appended, and what is
left. -/
def decodeEscape (special : Str) (c : UInt8) (s : Str) : Option (Bool × Str × Str) :=
  if c = ch '\\' ∨ c = ch '\'' ∨ c = ch '"' ∨ c = ch '?' then some (true, [c], s)
  else
    match control c with
    | some d => some (true, [d], s)
    | none =>
      if c = ch 'u' ∨ c = ch 'U' then
        let (missing, codePoint, s) := readHex (if c = ch 'u' then 4 else 8) 0 s
        if missing > 0 then none
        else (appendUTF8 codePoint).map fun out => (decide (codePoint ≤ 127), out, s)
      else if ch '0' ≤ c ∧ c ≤ ch '7' then
        let (val, s) := readOctal 3 0 (c :: s)
        if val > 255 then none else some (decide (val ≤ 127), [UInt8.ofNat val], s)
      else if c = ch 'x' then
        let (missing, val, s) := readHex 2 0 s
        if missing = 2 then none else some (decide (val ≤ 127), [UInt8.ofNat val], s)
      else
        (checkChar c).map fun c =>
          (decide (c ≤ 127), if c ∈ special then [c] else [ch '\\', c], s)

/-- `decodeChar`; the string is not empty. -/
def decodeChar (special : Str) (c : UInt8) (s : Str) : Option (Bool × Str × Str) :=
  if c ≠ ch '\\' then (checkChar c).map fun c => (true, [c], s)
  else
    match s with
    | [] => some (true, [ch '\\'], [])
    | c :: s => decodeEscape special c s

/-- The loop of `unescapeString`: `resultIsPureASCII` and the result. A number of turns is enough
that is not less than the length. -/
def decodeLoop (special : Str) : Nat → Str → Option (Bool × Str)
  | _, [] => some (true, [])
  | 0, _ :: _ => none
  | n + 1, c :: s => do
    let (decoded, out, s) ← decodeChar special c s
    let (resultIsPureASCII, result) ← decodeLoop special n s
    return (if decoded then false else resultIsPureASCII, out ++ result)

/-- `substr` -/
def substr (s : Str) (pos n : Nat) : Str := (s.drop pos).take n

def IsASCII (s : Str) : Prop := ∀ c ∈ s, c ≤ 127

instance (s : Str) : Decidable (IsASCII s) := List.decidableBAll _ s

/-- `unescapeString` for the characters from `start` to `last`. What is between the two is looked
at, but `substr` is given `last` for the number of characters. -/
def unescapeString (converter : Option StringConverter) (s : Str) (start last : Nat)
    (special : Str) : Option Str :=
  if InRange special then
    let input := substr s start (last - start)
    if ch '\\' ∉ input then
      if input.all fun c => (checkChar c).isSome then some (substr s start last) else none
    else do
      let u8s ←
        if converter.isSome ∧ ¬ IsASCII input then nativeToUTF8 (substr s start last) converter
        else some input
      let (resultIsPureASCII, result) ← decodeLoop special u8s.length u8s
      if converter.isSome ∧ ¬ resultIsPureASCII then UTF8ToNative result converter
      else some result
  else none

end Ice.IceUtil
