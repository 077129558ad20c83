import Mathlib

/-!
# The parser of HTTP upgrade messages

`isCompleteMessage` and `parse` of `HttpParser`. A position is a number of bytes from the start of
the text, and a local pointer that was not set yet is `none`. A switch case that ends with `break`
goes on with the next byte, one that ends with `continue` looks at the same byte again.
-/

namespace Ice.Connection

/-- The byte of a character -/
def byte (c : Char) : UInt8 := UInt8.ofNat c.toNat

def cr : UInt8 := 13

def lf : UInt8 := 10

def space : UInt8 := 32

inductive HttpType
  | unknown
  | request
  | response
  deriving DecidableEq, Repr

inductive HttpState
  | init
  | type
  | typeCheck
  | request
  | requestMethod
  | requestMethodSP
  | requestURI
  | requestURISP
  | requestLF
  | headerFieldStart
  | headerFieldContStart
  | headerFieldCont
  | headerFieldNameStart
  | headerFieldName
  | headerFieldNameEnd
  | headerFieldValueStart
  | headerFieldValue
  | headerFieldValueEnd
  | headerFieldLF
  | headerFieldEndLF
  | version
  | versionH
  | versionHT
  | versionHTT
  | versionHTTP
  | versionMajor
  | versionMinor
  | response
  | responseVersionSP
  | responseStatus
  | responseReasonStart
  | responseReason
  | responseLF
  | complete
  deriving DecidableEq, Repr

/-- From the name in lower case to the name and the value -/
abbrev HeaderFields := List (List UInt8 × List UInt8 × List UInt8)

namespace HeaderFields

/-- `_headers.find(name)` -/
def find (name : List UInt8) (headers : HeaderFields) : Option (List UInt8 × List UInt8) :=
  headers.lookup name

/-- Assign to `q->second.second` of the field found. -/
def setValue (name value : List UInt8) (headers : HeaderFields) : HeaderFields :=
  headers.map fun field => if field.1 = name then (field.1, field.2.1, value) else field

end HeaderFields

structure HttpParser where
  type : HttpType := .unknown
  method : List UInt8 := []
  uri : List UInt8 := []
  headers : HeaderFields := []
  headerName : List UInt8 := []
  versionMajor : Int := 0
  versionMinor : Int := 0
  status : Int := 0
  reason : List UInt8 := []
  state : HttpState := .init
  deriving DecidableEq, Repr

/-- Why `parse` does not return -/
inductive HttpFailure
  /-- A `WebSocketException` -/
  | exception (reason : String)
  | assertion
  /-- A pointer that was not set is used. -/
  | nullPointer
  deriving DecidableEq, Repr

/-- `IceUtilInternal::toLower` -/
def toLower (text : List UInt8) : List UInt8 :=
  text.map fun c => if byte 'A' ≤ c ∧ c ≤ byte 'Z' then c + 32 else c

/-- The values of a 32 bit `int` -/
def wrap32 (n : Int) : Int := (n + 2 ^ 31) % 2 ^ 32 - 2 ^ 31

def isDigit (c : UInt8) : Bool := byte '0' ≤ c && c ≤ byte '9'

/-- The next digit of a number; the number is -1 as long as there is none. -/
def addDigit (n : Int) (c : UInt8) : Int :=
  let n := if n = -1 then 0 else n
  wrap32 (wrap32 (n * 10) + (c.toNat - 48))

namespace HttpParser

/-- The first loop of `isCompleteMessage`: the position behind leading CR and LF characters. -/
def skipLeading (p : Nat) : List UInt8 → Nat × List UInt8
  | [] => (p, [])
  | c :: rest => if c ≠ cr ∧ c ≠ lf then (p, c :: rest) else skipLeading (p + 1) rest

/-- The second loop of `isCompleteMessage` -/
def findEnd (seenFirst : Bool) (p : Nat) : List UInt8 → Option Nat
  | [] => none
  | c :: rest =>
    if c = lf then if seenFirst then some (p + 1) else findEnd true (p + 1) rest
    else findEnd (if c ≠ cr then false else seenFirst) (p + 1) rest

/-- `HttpParser::isCompleteMessage`; `none` is the null pointer. -/
def isCompleteMessage (text : List UInt8) : Option Nat :=
  findEnd false (skipLeading 0 text).1 (skipLeading 0 text).2

/-- The members and the local variable `start` in the loop of `parse` -/
structure Scan where
  parser : HttpParser
  start : Option Nat := none
  deriving DecidableEq, Repr

/-- How a switch case ends -/
inductive Turn
  /-- `break`: the position moves on. -/
  | next (s : Scan)
  /-- `continue`: the position stays. -/
  | again (s : Scan)
  deriving DecidableEq, Repr

namespace Scan

def state (s : Scan) : HttpState := s.parser.state

def goto (state : HttpState) (s : Scan) : Scan :=
  { s with parser := { s.parser with state := state } }

/-- Enter a state with `start` at a position. -/
def mark (p : Nat) (state : HttpState) (s : Scan) : Scan := { s.goto state with start := some p }

/-- `string(start, p)`, if `start` is set -/
def token (text : List UInt8) (p : Nat) (s : Scan) : Except HttpFailure (List UInt8) :=
  match s.start with
  | none => .error .nullPointer
  | some start => .ok ((text.take p).drop start)

/-- Leave a state with `break`. -/
def next (state : HttpState) (s : Scan) : Except HttpFailure Turn := .ok (.next (s.goto state))

/-- Leave a state with `continue`. -/
def again (state : HttpState) (s : Scan) : Except HttpFailure Turn := .ok (.again (s.goto state))

def stay (s : Scan) : Except HttpFailure Turn := .ok (.next s)

/-- The states in which one character has to follow -/
def expect (want c : UInt8) (reason : String) (state : HttpState) (s : Scan) :
    Except HttpFailure Turn :=
  if c ≠ want then .error (.exception reason) else s.next state

/-- `StateInit` -/
def clear (s : Scan) : Scan :=
  { s with parser := { s.parser with
      method := []
      uri := []
      versionMajor := -1
      versionMinor := -1
      status := -1
      reason := []
      headers := [] } }

def pushMethod (cs : List UInt8) (s : Scan) : Scan :=
  { s with parser := { s.parser with method := s.parser.method ++ cs } }

def pushUri (c : UInt8) (s : Scan) : Scan :=
  { s with parser := { s.parser with uri := s.parser.uri ++ [c] } }

/-- `StateHeaderFieldCont` -/
def headerFieldCont (text : List UInt8) (p : Nat) (c : UInt8) (s : Scan) :
    Except HttpFailure Turn := do
  if c = cr ∨ c = lf then
    let token ← s.token text p
    if token ≠ [] then
      if s.parser.headerName = [] then throw (.exception "malformed header")
      match s.parser.headers.find s.parser.headerName with
      | none => throw .assertion
      | some (_, value) =>
        let headers := s.parser.headers.setValue s.parser.headerName (value ++ [space] ++ token)
        let s := { s with parser := { s.parser with headers } }
        s.next (if c = cr then .headerFieldLF else .headerFieldStart)
    else s.next (if c = cr then .headerFieldEndLF else .complete)
  else s.stay

/-- The first part of `StateHeaderFieldNameEnd`: a placeholder entry for a new name -/
def placeholder (text : List UInt8) (p : Nat) (s : Scan) : Except HttpFailure Scan := do
  if s.parser.headerName = [] then
    let token ← s.token text p
    let name := toLower token
    let headers := match s.parser.headers.find name with
      | none => s.parser.headers ++ [(name, token, [])]
      | some _ => s.parser.headers
    return { s with parser := { s.parser with headerName := name, headers } }
  else return s

/-- `StateHeaderFieldNameEnd` -/
def headerFieldNameEnd (text : List UInt8) (p : Nat) (c : UInt8) (s : Scan) :
    Except HttpFailure Turn := do
  let s ← s.placeholder text p
  if c = space then s.stay
  else if c ≠ byte ':' ∨ s.start = some p then throw (.exception "malformed header")
  else s.next .headerFieldValueStart

/-- `StateHeaderFieldValueEnd` -/
def headerFieldValueEnd (text : List UInt8) (p : Nat) (c : UInt8) (s : Scan) :
    Except HttpFailure Turn := do
  if ¬ (c = cr ∨ c = lf) then throw .assertion
  let token ← s.token text p
  let state := if c = cr then .headerFieldLF else .headerFieldStart
  if token ≠ [] then
    match s.parser.headers.find s.parser.headerName with
    | none => throw (.exception "malformed header")
    | some (_, value) =>
      let value := if value = [] then token else value ++ [byte ',', space] ++ token
      let headers := s.parser.headers.setValue s.parser.headerName value
      let s := { s with parser := { s.parser with headers } }
      s.next state
  else s.next state

/-- `StateVersionMajor` -/
def versionMajor (c : UInt8) (s : Scan) : Except HttpFailure Turn :=
  if c = byte '.' then
    if s.parser.versionMajor = -1 then .error (.exception "malformed version")
    else s.next .versionMinor
  else if !isDigit c then .error (.exception "malformed version")
  else
    .ok (.next { s with parser := { s.parser with
      versionMajor := addDigit s.parser.versionMajor c } })

/-- `StateVersionMinor` -/
def versionMinor (c : UInt8) (s : Scan) : Except HttpFailure Turn :=
  if c = cr then
    if s.parser.versionMinor = -1 ∨ s.parser.type ≠ .request then
      .error (.exception "malformed version")
    else s.next .requestLF
  else if c = lf then
    if s.parser.versionMinor = -1 ∨ s.parser.type ≠ .request then
      .error (.exception "malformed version")
    else s.next .headerFieldStart
  else if c = space then
    if s.parser.versionMinor = -1 ∨ s.parser.type ≠ .response then
      .error (.exception "malformed version")
    else s.next .responseVersionSP
  else if !isDigit c then .error (.exception "malformed version")
  else
    .ok (.next { s with parser := { s.parser with
      versionMinor := addDigit s.parser.versionMinor c } })

/-- `StateResponseStatus` -/
def responseStatus (c : UInt8) (s : Scan) : Except HttpFailure Turn :=
  if c = cr then
    if s.parser.status = -1 then .error (.exception "malformed response status")
    else s.next .responseLF
  else if c = lf then
    if s.parser.status = -1 then .error (.exception "malformed response status")
    else s.next .headerFieldStart
  else if c = space then
    if s.parser.status = -1 then .error (.exception "malformed response status")
    else s.next .responseReasonStart
  else if !isDigit c then .error (.exception "malformed response status")
  else .ok (.next { s with parser := { s.parser with status := addDigit s.parser.status c } })

/-- `StateResponseReason` -/
def responseReason (text : List UInt8) (p : Nat) (c : UInt8) (s : Scan) :
    Except HttpFailure Turn := do
  if c = cr ∨ c = lf then
    let token ← s.token text p
    let reason := if token ≠ [] then token else s.parser.reason
    let s := { s with parser := { s.parser with reason } }
    s.next (if c = cr then .responseLF else .headerFieldStart)
  else s.stay

/-- The switch of `parse` -/
def visit (text : List UInt8) (p : Nat) (c : UInt8) (s : Scan) : Except HttpFailure Turn :=
  match s.state with
  | .init => s.clear.again .type
  | .type =>
    if c = cr ∨ c = lf then s.stay
    else if c = byte 'H' then s.next .typeCheck
    else s.again .request
  | .typeCheck =>
    if c = byte 'T' then s.next .response
    else if c = byte 'E' then (s.pushMethod [byte 'H', byte 'E']).next .request
    else .error (.exception "malformed request or response")
  | .request =>
    let s := { s with parser := { s.parser with type := .request } }
    s.again .requestMethod
  | .requestMethod =>
    if c = space ∨ c = cr ∨ c = lf then s.again .requestMethodSP else (s.pushMethod [c]).stay
  | .requestMethodSP =>
    if c = space then s.stay
    else if c = cr ∨ c = lf then .error (.exception "malformed request")
    else s.again .requestURI
  | .requestURI =>
    if c = space ∨ c = cr ∨ c = lf then s.again .requestURISP else (s.pushUri c).stay
  | .requestURISP =>
    if c = space then s.stay
    else if c = cr ∨ c = lf then .error (.exception "malformed request")
    else s.again .version
  | .requestLF => s.expect lf c "malformed request" .headerFieldStart
  | .headerFieldStart =>
    if c = cr then s.next .headerFieldEndLF
    else if c = lf then s.next .complete
    else if c = space then s.next .headerFieldContStart
    else s.again .headerFieldNameStart
  | .headerFieldContStart =>
    if c = space then s.stay else .ok (.again (s.mark p .headerFieldCont))
  | .headerFieldCont => s.headerFieldCont text p c
  | .headerFieldNameStart =>
    if c = space then .error .assertion
    else
      let s := { s with parser := { s.parser with headerName := [] } }
      .ok (.again (s.mark p .headerFieldName))
  | .headerFieldName =>
    if c = space ∨ c = byte ':' then s.again .headerFieldNameEnd
    else if c = cr ∨ c = lf then .error (.exception "malformed header")
    else s.stay
  | .headerFieldNameEnd => s.headerFieldNameEnd text p c
  | .headerFieldValueStart =>
    if c = space then s.stay
    else if c = cr then s.next .headerFieldLF
    else if c = lf then s.next .headerFieldStart
    else .ok (.again (s.mark p .headerFieldValue))
  | .headerFieldValue => if c = cr ∨ c = lf then s.again .headerFieldValueEnd else s.stay
  | .headerFieldValueEnd => s.headerFieldValueEnd text p c
  | .headerFieldLF => s.expect lf c "malformed header" .headerFieldStart
  | .headerFieldEndLF => s.expect lf c "malformed header" .complete
  | .version => s.expect (byte 'H') c "malformed version" .versionH
  | .versionH => s.expect (byte 'T') c "malformed version" .versionHT
  | .versionHT => s.expect (byte 'T') c "malformed version" .versionHTT
  | .versionHTT => s.expect (byte 'P') c "malformed version" .versionHTTP
  | .versionHTTP => s.expect (byte '/') c "malformed version" .versionMajor
  | .versionMajor => s.versionMajor c
  | .versionMinor => s.versionMinor c
  | .response =>
    let s := { s with parser := { s.parser with type := .response } }
    s.again .versionHT
  | .responseVersionSP => if c = space then s.stay else s.again .responseStatus
  | .responseStatus => s.responseStatus c
  | .responseReasonStart =>
    if c = space then s.stay else .ok (.again (s.mark p .responseReason))
  | .responseReason => s.responseReason text p c
  | .responseLF => s.expect lf c "malformed status line" .headerFieldStart
  | .complete => .error .assertion

end Scan

end HttpParser

/-- How often a byte may be looked at again -/
def HttpState.rank : HttpState → Nat
  | .init => 10
  | .type => 9
  | .request => 8
  | .requestMethod => 7
  | .requestMethodSP => 6
  | .requestURI => 5
  | .requestURISP => 4
  | .headerFieldStart => 4
  | .headerFieldNameStart => 3
  | .headerFieldName => 2
  | .headerFieldNameEnd => 1
  | .headerFieldContStart => 1
  | .headerFieldValueStart => 3
  | .headerFieldValue => 2
  | .headerFieldValueEnd => 1
  | .response => 1
  | .responseVersionSP => 1
  | .responseReasonStart => 1
  | _ => 0

namespace HttpParser

/-- `continue` leads to a state of lower rank, so the loop of `parse` ends. -/
theorem Scan.rank_lt_of_again {text : List UInt8} {p : Nat} {c : UInt8} {s s' : Scan}
    (h : s.visit text p c = .ok (.again s')) : s'.state.rank < s.state.rank := by
  cases hs : s.state <;>
    simp only [visit, hs, expect, next, again, stay, headerFieldCont, headerFieldNameEnd,
      headerFieldValueEnd, versionMajor, versionMinor, responseStatus, responseReason, bind,
      Except.bind, throw, throwThe, MonadExceptOf.throw] at h
  all_goals
    repeat' split at h
    all_goals cases h
    all_goals simp [state, goto, mark, HttpState.rank]

/-- The loop of `parse` from a position on: where it ends, and with which members -/
def parseLoop (text : List UInt8) (p : Nat) (s : Scan) : Except HttpFailure (Nat × Scan) :=
  if h : p < text.length ∧ s.state ≠ .complete then
    match hv : s.visit text p text[p] with
    | .error failure => .error failure
    | .ok (.next s') => parseLoop text (p + 1) s'
    | .ok (.again s') => parseLoop text p s'
  else .ok (p, s)
termination_by (text.length - p, s.state.rank)
decreasing_by
  · apply Prod.Lex.left
    omega
  · apply Prod.Lex.right
    exact Scan.rank_lt_of_again hv

section

variable {text : List UInt8} {p : Nat} {c : UInt8} {s s' : Scan} {failure : HttpFailure}

section

variable (hc : text[p]? = some c)

include hc

theorem parseLoop_next (hne : s.state ≠ .complete)
    (hv : s.visit text p c = .ok (.next s')) : parseLoop text p s = parseLoop text (p + 1) s' := by
  obtain ⟨hp, rfl⟩ := List.getElem?_eq_some_iff.mp hc
  rw [parseLoop, dif_pos ⟨hp, hne⟩]
  split
  · rename_i heq
    cases hv.symm.trans heq
  · rename_i heq
    cases hv.symm.trans heq
    rfl
  · rename_i heq
    cases hv.symm.trans heq

theorem parseLoop_again (hne : s.state ≠ .complete)
    (hv : s.visit text p c = .ok (.again s')) : parseLoop text p s = parseLoop text p s' := by
  obtain ⟨hp, rfl⟩ := List.getElem?_eq_some_iff.mp hc
  rw [parseLoop, dif_pos ⟨hp, hne⟩]
  split
  · rename_i heq
    cases hv.symm.trans heq
  · rename_i heq
    cases hv.symm.trans heq
  · rename_i heq
    cases hv.symm.trans heq
    rfl

theorem parseLoop_error (hne : s.state ≠ .complete)
    (hv : s.visit text p c = .error failure) : parseLoop text p s = .error failure := by
  obtain ⟨hp, rfl⟩ := List.getElem?_eq_some_iff.mp hc
  rw [parseLoop, dif_pos ⟨hp, hne⟩]
  split
  · rename_i heq
    cases hv.symm.trans heq
    rfl
  all_goals
    rename_i heq
    cases hv.symm.trans heq

end

theorem parseLoop_end (h : text.length ≤ p ∨ s.state = .complete) :
    parseLoop text p s = .ok (p, s) := by
  rw [parseLoop, dif_neg]
  rintro ⟨hp, hne⟩
  rcases h with hle | hs
  · omega
  · exact hne hs

end

/-- `HttpParser::parse`: the position that was reached and the members; the result is whether the
state is `StateComplete`. -/
def parse (text : List UInt8) (parser : HttpParser) : Except HttpFailure (Nat × HttpParser) :=
  let parser := if parser.state = .complete then { parser with state := .init } else parser
  (parseLoop text 0 { parser }).map fun r => (r.1, r.2.parser)

end HttpParser

end Ice.Connection
