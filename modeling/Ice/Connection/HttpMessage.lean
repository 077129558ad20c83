import Ice.Connection.HttpParser
import Ice.Lib.Words

/-!
# HTTP messages

The messages that `HttpParser::parse` knows, as languages: a start line, header fields and
continuation lines, and the line that ends them.
-/

namespace Ice.Connection

open Ice.Lib
open scoped Computability

namespace Http

/-- A character that ends a line, alone or with another one -/
def Ends (c : UInt8) : Prop := c = cr ∨ c = lf

instance : DecidablePred Ends := fun c => inferInstanceAs (Decidable (c = cr ∨ c = lf))

/-- The end of a line -/
def eol : Language UInt8 := {[lf], [cr, lf]}

/-- Ends of lines in front of a message are skipped. -/
def leading : Language UInt8 := wordsOver Ends

def spaces : Language UInt8 := wordsOver (· = space)

def gap : Language UInt8 := someOver (· = space)

def word : Language UInt8 := someOver fun c => c ≠ space ∧ ¬ Ends c

def plain : Language UInt8 := wordsOver fun c => ¬ Ends c

/-- The digits of a number that is not taken for the missing one -/
def number : Language UInt8 :=
  {digits | (∀ c ∈ digits, isDigit c) ∧ digits.foldl addDigit (-1) ≠ -1}

/-- A method; what begins with an H goes on with an E, and it is empty if the line begins with a
space. -/
def method : Language UInt8 :=
  {m | m ∈ wordsOver (fun c => c ≠ space ∧ ¬ Ends c) ∧
    (m.head? = some (byte 'H') → [byte 'H', byte 'E'] <+: m)}

def requestTarget : Language UInt8 := method * gap * word * gap

def http : List UInt8 := [byte 'H', byte 'T', byte 'T', byte 'P', byte '/']

def version : Language UInt8 := {http} * number * {[byte '.']} * number

def requestLine : Language UInt8 := requestTarget * version * eol

def responseStatus : Language UInt8 := version * gap * number

def statusLine : Language UInt8 := responseStatus * eol + responseStatus * {[space]} * plain * eol

/-- A message up to its start line -/
def heading : Language UInt8 := leading * (requestLine + statusLine)

def fieldName : Language UInt8 := someOver fun c => c ≠ space ∧ c ≠ byte ':' ∧ ¬ Ends c

def field : Language UInt8 := fieldName * spaces * {[byte ':']} * plain * eol

/-- What a line adds to the value of a field; the spaces before it are not taken for it. -/
def folded : Language UInt8 := {t | t ∈ someOver (fun c => ¬ Ends c) ∧ t.head? ≠ some space}

/-- A line that goes on with the value of a field -/
def continuation : Language UInt8 := gap * folded * eol

/-- A line of spaces -/
def blankLine : Language UInt8 := gap * eol

/-- A message up to some line that is not blank, with a field or without any -/
def lines (named : Bool) : Language UInt8 :=
  if named then heading * field * (field + continuation)∗ else heading

/-- A message up to some line that is not blank -/
def head : Language UInt8 := lines false + lines true

/-- The messages that the parser takes as complete -/
def message : Language UInt8 := head * (eol + blankLine)

variable {l : List UInt8} {c : UInt8}

theorem mem_method_snoc (h : l ∈ method) (hne : l ≠ []) (hc : c ≠ space ∧ ¬ Ends c) :
    l ++ [c] ∈ method := by
  constructor
  · exact over_snoc h.1 hc
  · intro hhead
    rw [List.head?_append_of_ne_nil l hne] at hhead
    obtain ⟨rest, hrest⟩ := h.2 hhead
    exact ⟨rest ++ [c], by rw [← hrest, List.append_assoc]⟩

theorem singleton_mem_method (hc : c ≠ space ∧ ¬ Ends c) (hne : c ≠ byte 'H') : [c] ∈ method := by
  constructor
  · exact over_of_someOver (singleton_mem_someOver hc)
  · intro hhead
    exact absurd (Option.some.inj hhead) hne

theorem nil_mem_method : [] ∈ method := by
  constructor
  · exact nil_mem_over _
  · intro hhead
    cases hhead

/-- Digits that were read, and the number they are -/
def digits (n : Int) : Language UInt8 :=
  {ds | (∀ c ∈ ds, isDigit c) ∧ ds.foldl addDigit (-1) = n}

theorem nil_mem_digits : [] ∈ digits (-1) := by
  constructor
  · simp
  · rfl

theorem mem_digits_snoc {n : Int} (h : l ∈ digits n) (hc : isDigit c = true) :
    l ++ [c] ∈ digits (addDigit n c) := by
  constructor
  · exact over_snoc h.1 hc
  · rw [List.foldl_append, h.2]
    rfl

theorem mem_number_of_digits {n : Int} (h : l ∈ digits n) (hn : n ≠ -1) : l ∈ number := by
  constructor
  · exact h.1
  · rw [h.2]
    exact hn

theorem lf_mem_eol : [lf] ∈ eol := .inl rfl

theorem crlf_mem_eol : [cr] ++ [lf] ∈ eol := .inr rfl

end Http

end Ice.Connection
