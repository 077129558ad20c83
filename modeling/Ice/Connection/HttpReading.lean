import Ice.Connection.HttpMessage

/-!
# What `HttpParser::parse` reads

What was read when the parser is in a state is the beginning of a message, so what is accepted is
well formed, and no assertion of the parser fails.
-/

namespace Ice.Connection

open Ice.Lib
open HttpParser.Scan (expect token visit)
open List (append_assoc append_nil length_take)
open Language (append_mem_mul mem_mul)
open scoped Computability

namespace Http

variable {l : List UInt8} {c : UInt8}

open HttpParser (Scan Turn)

/-- A method of which a character was read -/
def someMethod : Language UInt8 := {m | m ∈ method ∧ m ≠ []}

/-- What is in front of the version -/
def beforeVersion : HttpType → Language UInt8
  | .request => leading * requestTarget
  | .response => leading
  | .unknown => 0

/-- A method was begun, or this character begins it. -/
def InMethod (pre : List UInt8) (c : UInt8) : Prop :=
  pre ∈ leading * someMethod ∨ pre ∈ leading ∧ ¬ Ends c ∧ c ≠ byte 'H'

/-- No number and no field was read. -/
def Fresh (s : Scan) : Prop :=
  s.parser.headerName = [] ∧ s.parser.versionMajor = -1 ∧ s.parser.versionMinor = -1 ∧
    s.parser.status = -1

/-- What was read up to a character when the parser is in a state before the version -/
def SeenStart (pre : List UInt8) (c : UInt8) (s : Scan) : Prop :=
  match s.state with
  | .type => pre ∈ leading
  | .typeCheck => pre ∈ leading * {[byte 'H']}
  | .request => InMethod pre c
  | .requestMethod => s.parser.type = .request ∧ InMethod pre c
  | .requestMethodSP => s.parser.type = .request ∧
    (pre ∈ leading * method ∧ (c = space ∨ Ends c) ∨ pre ∈ leading * (method * gap))
  | .requestURI => s.parser.type = .request ∧
    (pre ∈ leading * (method * gap) ∧ ¬ (c = space ∨ Ends c) ∨
      pre ∈ leading * (method * gap * word))
  | .requestURISP => s.parser.type = .request ∧
    (pre ∈ leading * (method * gap * word) ∧ (c = space ∨ Ends c) ∨
      pre ∈ leading * requestTarget)
  | .version => s.parser.type = .request ∧ pre ∈ leading * requestTarget
  | .versionH => pre ∈ beforeVersion s.parser.type * {http.take 1}
  | .versionHT => pre ∈ beforeVersion s.parser.type * {http.take 2}
  | .versionHTT => pre ∈ beforeVersion s.parser.type * {http.take 3}
  | .versionHTTP => pre ∈ beforeVersion s.parser.type * {http.take 4}
  | .response => pre ∈ leading * {http.take 2}
  | _ => False

/-- What was read when the parser is in a state of the rest of the start line, or before anything
was read -/
def SeenVersion (pre : List UInt8) (s : Scan) : Prop :=
  match s.state with
  | .init => pre = []
  | .versionMajor => s.parser.versionMinor = -1 ∧ s.parser.status = -1 ∧
    pre ∈ beforeVersion s.parser.type * ({http} * digits s.parser.versionMajor)
  | .versionMinor => s.parser.status = -1 ∧
    pre ∈ beforeVersion s.parser.type *
      ({http} * number * {[byte '.']} * digits s.parser.versionMinor)
  | .requestLF => pre ++ [lf] ∈ heading
  | .responseVersionSP => s.parser.status = -1 ∧ pre ∈ leading * (version * gap)
  | .responseStatus => pre ∈ leading * (version * gap * digits s.parser.status)
  | .responseReasonStart => pre ∈ leading * (responseStatus * {[space]} * plain)
  | .responseReason => s.start.isSome ∧ pre ∈ leading * (responseStatus * {[space]} * plain)
  | .responseLF => pre ++ [lf] ∈ heading
  | _ => False

/-- There is an entry for the last field. -/
def Named (s : Scan) : Prop :=
  s.parser.headerName ≠ [] ∧ (s.parser.headers.find s.parser.headerName).isSome

/-- There is a last field, or no field was read. -/
def Found (s : Scan) : Prop := s.parser.headerName ≠ [] → Named s

/-- What was read up to a character when the parser is in a state of the header fields -/
def SeenHeader (pre : List UInt8) (c : UInt8) (s : Scan) : Prop :=
  match s.state with
  | .headerFieldStart => Found s ∧ pre ∈ lines (s.parser.headerName ≠ [])
  | .headerFieldContStart => Found s ∧ pre ∈ lines (s.parser.headerName ≠ []) * gap
  | .headerFieldCont => Found s ∧ ∃ u ∈ lines (s.parser.headerName ≠ []) * gap, ∃ v,
    pre = u ++ v ∧ s.start = some u.length ∧ (v = [] ∧ c ≠ space ∨ v ∈ folded)
  | .headerFieldNameStart => pre ∈ head ∧ c ≠ space ∧ ¬ Ends c
  | .headerFieldName => s.parser.headerName = [] ∧ ∃ u ∈ head, ∃ v,
    pre = u ++ v ∧ s.start = some u.length ∧ (v = [] ∧ c ≠ space ∧ ¬ Ends c ∨ v ∈ fieldName)
  | .headerFieldNameEnd => ∃ u ∈ head, ∃ v sp, pre = u ++ v ++ sp ∧ s.start = some u.length ∧
    sp ∈ spaces ∧ (s.parser.headerName = [] ∧ sp = [] ∧ (v = [] ∧ c = byte ':' ∨ v ∈ fieldName) ∨
      Named s ∧ v ∈ fieldName)
  | .headerFieldValueStart => Named s ∧ pre ∈ head * (fieldName * spaces * {[byte ':']} * plain)
  | .headerFieldValue => Named s ∧ s.start.isSome ∧
    pre ∈ head * (fieldName * spaces * {[byte ':']} * plain)
  | .headerFieldValueEnd => Named s ∧ s.start.isSome ∧ Ends c ∧
    pre ∈ head * (fieldName * spaces * {[byte ':']} * plain)
  | .headerFieldLF => Named s ∧ pre ++ [lf] ∈ lines true
  | .headerFieldEndLF => pre ++ [lf] ∈ message
  | .complete => pre ∈ message
  | _ => False

/-- What was read up to a character when the parser is in a state -/
def Seen (pre : List UInt8) (c : UInt8) (s : Scan) : Prop :=
  Fresh s ∧ SeenStart pre c s ∨ s.parser.headerName = [] ∧ SeenVersion pre s ∨ SeenHeader pre c s

/-- What a switch case comes to: no assertion fails, and the parser knows what it has read. -/
inductive Follows (pre : List UInt8) (c : UInt8) : Except HttpFailure Turn → Prop
  | next {s : Scan} (h : ∀ c', Seen (pre ++ [c]) c' s) : Follows pre c (.ok (.next s))
  | again {s : Scan} (h : Seen pre c s) : Follows pre c (.ok (.again s))
  | exception {reason : String} : Follows pre c (.error (.exception reason))

variable {pre text : List UInt8} {p : Nat} {s : Scan} {A : Language UInt8} {n : Int}

variable {state : HttpState} {e v : List UInt8}

theorem goto_self (hs : s.state = state) : s.goto state = s := by
  subst hs
  rfl

theorem follows_next (hfresh : Fresh s) (h : ∀ c', SeenStart (pre ++ [c]) c' (s.goto state)) :
    Follows pre c (s.next state) :=
  .next fun c' => .inl ⟨hfresh, h c'⟩

theorem follows_again (hfresh : Fresh s) (h : SeenStart pre c (s.goto state)) :
    Follows pre c (s.again state) :=
  .again (.inl ⟨hfresh, h⟩)

theorem follows_stay (hs : s.state = state) (hfresh : Fresh s)
    (h : ∀ c', SeenStart (pre ++ [c]) c' (s.goto state)) : Follows pre c s.stay := by
  rw [goto_self hs] at h
  exact .next fun c' => .inl ⟨hfresh, h c'⟩

theorem follows_expect {want : UInt8} {reason : String} (hfresh : Fresh s)
    (h : c = want → ∀ c', SeenStart (pre ++ [c]) c' (s.goto state)) :
    Follows pre c (s.expect want c reason state) := by
  unfold expect
  split
  · exact .exception
  · rename_i heq
    exact follows_next hfresh (h (not_not.mp heq))

theorem follows_type (hs : s.state = .type) (hfresh : Fresh s)
    (h : pre ∈ leading) : Follows pre c (s.visit text p c) := by
  simp only [visit, hs]
  split
  · rename_i hends
    exact follows_stay hs hfresh fun _ => over_snoc h hends
  · rename_i hends
    split
    · rename_i heq
      apply follows_next hfresh
      intro c'
      rw [heq]
      exact mul_begin h rfl
    · rename_i hne
      exact follows_again hfresh (.inr ⟨h, hends, hne⟩)

theorem follows_typeCheck (hs : s.state = .typeCheck) (hfresh : Fresh s)
    (h : pre ∈ leading * {[byte 'H']}) : Follows pre c (s.visit text p c) := by
  simp only [visit, hs]
  split
  · rename_i heq
    apply follows_next hfresh
    intro c'
    apply mul_snoc h
    rintro b rfl
    rw [heq]
    rfl
  · split
    · rename_i heq
      have hfresh' : Fresh (s.pushMethod [byte 'H', byte 'E']) := hfresh
      apply follows_next hfresh'
      intro c'
      apply Or.inl
      apply mul_snoc h
      rintro b rfl
      rw [heq]
      refine ⟨⟨?_, fun _ => List.prefix_refl _⟩, by simp⟩
      exact forall_of_all (by decide)
    · exact .exception

theorem follows_requestMethod (hs : s.state = .requestMethod) (hfresh : Fresh s)
    (htype : s.parser.type = .request) (h : InMethod pre c) :
    Follows pre c (s.visit text p c) := by
  simp only [visit, hs]
  split
  · rename_i hends
    apply follows_again hfresh
    refine ⟨htype, .inl ⟨?_, hends⟩⟩
    rcases h with h | ⟨h, _⟩
    · exact mul_mono_right h fun b hb => hb.1
    · exact mul_nil h nil_mem_method
  · rename_i hends
    have hc : c ≠ space ∧ ¬ Ends c := not_or.mp hends
    have hs' : (s.pushMethod [c]).state = .requestMethod := hs
    have hfresh' : Fresh (s.pushMethod [c]) := hfresh
    apply follows_stay hs' hfresh'
    intro c'
    refine ⟨htype, .inl ?_⟩
    rcases h with h | ⟨h, _, hne⟩
    · exact mul_snoc h fun b hb => ⟨mem_method_snoc hb.1 hb.2 hc, by simp⟩
    · exact mul_begin h ⟨singleton_mem_method hc hne, by simp⟩

/-- What is read over a predicate goes on with the next character. -/
theorem someOver_begin_snoc {P : UInt8 → Prop}
    (h : pre ∈ leading * A ∨ pre ∈ leading * (A * someOver P)) (hc : P c) :
    pre ++ [c] ∈ leading * (A * someOver P) := by
  rcases h with h | h
  · apply mul_snoc h
    intro b hb
    exact mul_begin hb (singleton_mem_someOver hc)
  · apply mul_snoc h
    intro b hb
    exact mul_snoc hb fun d hd => someOver_snoc hd.2 hc

section

variable (h : pre ∈ leading * A ∧ (c = space ∨ Ends c) ∨ pre ∈ leading * (A * gap))

include h

/-- Spaces are skipped behind a part of the request line; they have to be there. -/
theorem gap_snoc
    (hc : c = space) : pre ++ [c] ∈ leading * (A * gap) :=
  someOver_begin_snoc (h.imp_left And.left) hc

theorem gap_ends
    (hc : ¬ (c = space ∨ Ends c)) : pre ∈ leading * (A * gap) :=
  h.resolve_left fun h => hc h.2

end

/-- The spaces behind the method -/
theorem follows_requestMethodSP (hs : s.state = .requestMethodSP)
    (hfresh : Fresh s) (htype : s.parser.type = .request)
    (h : pre ∈ leading * method ∧ (c = space ∨ Ends c) ∨ pre ∈ leading * (method * gap)) :
    Follows pre c (s.visit text p c) := by
  simp only [visit, hs]
  split
  · rename_i hspace
    exact follows_stay hs hfresh fun _ => ⟨htype, .inr (gap_snoc h hspace)⟩
  · rename_i hspace
    split
    · exact .exception
    · rename_i hends
      have hc : ¬ (c = space ∨ Ends c) := not_or.mpr ⟨hspace, hends⟩
      exact follows_again hfresh ⟨htype, .inl ⟨gap_ends h hc, hc⟩⟩

theorem follows_requestURI (hs : s.state = .requestURI) (hfresh : Fresh s)
    (htype : s.parser.type = .request)
    (h : pre ∈ leading * (method * gap) ∧ ¬ (c = space ∨ Ends c) ∨
      pre ∈ leading * (method * gap * word)) :
    Follows pre c (s.visit text p c) := by
  simp only [visit, hs]
  split
  · rename_i hends
    apply follows_again hfresh
    exact ⟨htype, .inl ⟨h.resolve_left fun h => h.2 hends, hends⟩⟩
  · rename_i hends
    have hc : c ≠ space ∧ ¬ Ends c := not_or.mp hends
    have hs' : (s.pushUri c).state = .requestURI := hs
    have hfresh' : Fresh (s.pushUri c) := hfresh
    apply follows_stay hs' hfresh'
    intro c'
    exact ⟨htype, .inr (someOver_begin_snoc (h.imp_left And.left) hc)⟩

/-- The spaces behind the URI -/
theorem follows_requestURISP (hs : s.state = .requestURISP) (hfresh : Fresh s)
    (htype : s.parser.type = .request)
    (h : pre ∈ leading * (method * gap * word) ∧ (c = space ∨ Ends c) ∨
      pre ∈ leading * requestTarget) :
    Follows pre c (s.visit text p c) := by
  simp only [visit, hs]
  split
  · rename_i hspace
    exact follows_stay hs hfresh fun _ => ⟨htype, .inr (gap_snoc h hspace)⟩
  · rename_i hspace
    split
    · exact .exception
    · rename_i hends
      have hc : ¬ (c = space ∨ Ends c) := not_or.mpr ⟨hspace, hends⟩
      exact follows_again hfresh ⟨htype, gap_ends h hc⟩

theorem follows_version (hs : s.state = .version) (hfresh : Fresh s)
    (htype : s.parser.type = .request) (h : pre ∈ leading * requestTarget) :
    Follows pre c (s.visit text p c) := by
  simp only [visit, hs]
  apply follows_expect hfresh
  rintro rfl c'
  change pre ++ [byte 'H'] ∈ beforeVersion s.parser.type * {http.take 1}
  rw [htype]
  exact mul_begin h rfl

/-- The next character of `HTTP/` is read. -/
theorem http_snoc {k : Nat} {want : UInt8} (hk : http.take (k + 1) = http.take k ++ [want])
    (h : pre ∈ A * {http.take k}) (hc : c = want) : pre ++ [c] ∈ A * {http.take (k + 1)} := by
  apply mul_snoc h
  rintro b rfl
  rw [hc]
  exact hk.symm

theorem follows_response (hs : s.state = .response) (hfresh : Fresh s)
    (h : pre ∈ leading * {http.take 2}) : Follows pre c (s.visit text p c) := by
  simp only [visit, hs]
  exact .again (.inl ⟨hfresh, h⟩)

theorem follows_init (hs : s.state = .init) (hname : s.parser.headerName = []) :
    Follows [] c (s.visit text p c) := by
  simp only [visit, hs]
  exact .again (.inl ⟨⟨hname, rfl, rfl, rfl⟩, nil_mem_over _⟩)

theorem follows_request (hs : s.state = .request) (hfresh : Fresh s) (h : InMethod pre c) :
    Follows pre c (s.visit text p c) := by
  simp only [visit, hs]
  exact .again (.inl ⟨hfresh, rfl, h⟩)

theorem follows_versionHTTP (hs : s.state = .versionHTTP) (hfresh : Fresh s)
    (h : pre ∈ beforeVersion s.parser.type * {http.take 4}) :
    Follows pre c (s.visit text p c) := by
  obtain ⟨hname, hmajor, hminor, hstatus⟩ := hfresh
  simp only [visit, hs, expect]
  split
  · exact .exception
  · rename_i heq
    apply Follows.next
    intro c'
    refine .inr (.inl ⟨hname, hminor, hstatus, ?_⟩)
    change pre ++ [c] ∈ beforeVersion s.parser.type * ({http} * digits s.parser.versionMajor)
    rw [not_not.mp heq, hmajor]
    apply mul_snoc h
    rintro b rfl
    exact mul_nil rfl nil_mem_digits

theorem follows_stayVersion (hs : s.state = state) (hname : s.parser.headerName = [])
    (h : SeenVersion (pre ++ [c]) (s.goto state)) : Follows pre c (.ok (.next s)) := by
  rw [goto_self hs] at h
  exact .next fun _ => .inr (.inl ⟨hname, h⟩)

theorem follows_nextVersion (hname : s.parser.headerName = [])
    (h : SeenVersion (pre ++ [c]) (s.goto state)) : Follows pre c (s.next state) :=
  .next fun _ => .inr (.inl ⟨hname, h⟩)

/-- The start line is at its end. -/
theorem follows_heading (hname : s.parser.headerName = []) (h : pre ++ [c] ∈ heading) :
    Follows pre c (s.next .headerFieldStart) := by
  apply Follows.next
  intro c'
  refine .inr (.inr ⟨fun hne => absurd hname hne, ?_⟩)
  change pre ++ [c] ∈ lines (s.parser.headerName ≠ [])
  rw [hname]
  exact h

theorem heading_of_request (h : pre ∈ leading * requestTarget * version) (he : e ∈ eol) :
    pre ++ e ∈ heading := by
  rw [mul_assoc] at h
  obtain ⟨u, hu, v, hv, rfl⟩ := mem_mul.mp h
  rw [append_assoc]
  exact append_mem_mul hu (.inl (append_mem_mul hv he))

theorem heading_of_status (h : pre ∈ leading * responseStatus) (he : e ∈ eol) :
    pre ++ e ∈ heading := by
  obtain ⟨u, hu, v, hv, rfl⟩ := mem_mul.mp h
  rw [append_assoc]
  exact append_mem_mul hu (.inr (.inl (append_mem_mul hv he)))

theorem heading_of_reason (h : pre ∈ leading * (responseStatus * {[space]} * plain))
    (he : e ∈ eol) : pre ++ e ∈ heading := by
  obtain ⟨u, hu, v, hv, rfl⟩ := mem_mul.mp h
  rw [append_assoc]
  exact append_mem_mul hu (.inr (.inr (append_mem_mul hv he)))

theorem append_crlf_mem {B : Language UInt8} (h : pre ++ ([cr] ++ [lf]) ∈ B) :
    pre ++ [cr] ++ [lf] ∈ B := by
  rw [append_assoc]
  exact h

/-- The digits before the dot -/
theorem follows_versionMajor (hs : s.state = .versionMajor) (hname : s.parser.headerName = [])
    (hminor : s.parser.versionMinor = -1) (hstatus : s.parser.status = -1)
    (h : pre ∈ beforeVersion s.parser.type * ({http} * digits s.parser.versionMajor)) :
    Follows pre c (s.visit text p c) := by
  simp only [visit, hs, Scan.versionMajor]
  split
  · rename_i hdot
    split
    · exact .exception
    · rename_i hsome
      apply follows_nextVersion hname
      refine ⟨hstatus, ?_⟩
      change pre ++ [c] ∈ beforeVersion s.parser.type *
        ({http} * number * {[byte '.']} * digits s.parser.versionMinor)
      rw [hminor, hdot]
      apply mul_snoc h
      intro b hb
      apply mul_nil _ nil_mem_digits
      exact mul_begin (mul_mono_right hb fun d hd => mem_number_of_digits hd hsome) rfl
  · split
    · exact .exception
    · rename_i hdigit
      have hdigit' : isDigit c = true := by
        simpa using hdigit
      refine follows_stayVersion hs hname ⟨hminor, hstatus, ?_⟩
      apply mul_snoc h
      intro b hb
      exact mul_snoc hb fun d hd => mem_digits_snoc hd hdigit'

/-- The version is at its end. -/
theorem version_of_digits {type : HttpType}
    (hbad : ¬ (s.parser.versionMinor = -1 ∨ s.parser.type ≠ type))
    (h : pre ∈ beforeVersion s.parser.type *
      ({http} * number * {[byte '.']} * digits s.parser.versionMinor)) :
    pre ∈ beforeVersion type * version := by
  obtain ⟨hsome, htype⟩ := not_or.mp hbad
  rw [not_not.mp htype] at h
  apply mul_mono_right h
  intro b hb
  exact mul_mono_right hb fun d hd => mem_number_of_digits hd hsome

/-- The digits behind the dot, and the end of the version -/
theorem follows_versionMinor (hs : s.state = .versionMinor) (hname : s.parser.headerName = [])
    (hstatus : s.parser.status = -1)
    (h : pre ∈ beforeVersion s.parser.type *
      ({http} * number * {[byte '.']} * digits s.parser.versionMinor)) :
    Follows pre c (s.visit text p c) := by
  simp only [visit, hs, Scan.versionMinor]
  split
  · rename_i hcr
    split
    · exact .exception
    · rename_i hbad
      rw [hcr]
      apply follows_nextVersion hname
      exact append_crlf_mem (heading_of_request (version_of_digits hbad h) crlf_mem_eol)
  · split
    · rename_i hlf
      split
      · exact .exception
      · rename_i hbad
        rw [hlf]
        exact follows_heading hname (heading_of_request (version_of_digits hbad h) lf_mem_eol)
    · split
      · rename_i hspace
        split
        · exact .exception
        · rename_i hbad
          apply follows_nextVersion hname
          refine ⟨hstatus, mul_snoc (version_of_digits hbad h) fun b hb => ?_⟩
          exact mul_begin hb (singleton_mem_someOver hspace)
      · split
        · exact .exception
        · rename_i hdigit
          have hdigit' : isDigit c = true := by
            simpa using hdigit
          refine follows_stayVersion hs hname ⟨hstatus, ?_⟩
          apply mul_snoc h
          intro b hb
          exact mul_snoc hb fun d hd => mem_digits_snoc hd hdigit'

theorem follows_lf {reason : String} (hname : s.parser.headerName = [])
    (h : pre ++ [lf] ∈ heading) : Follows pre c (s.expect lf c reason .headerFieldStart) := by
  unfold expect
  split
  · exact .exception
  · rename_i heq
    rw [not_not.mp heq]
    exact follows_heading hname h

theorem follows_responseVersionSP (hs : s.state = .responseVersionSP)
    (hname : s.parser.headerName = []) (hstatus : s.parser.status = -1)
    (h : pre ∈ leading * (version * gap)) : Follows pre c (s.visit text p c) := by
  simp only [visit, hs]
  split
  · rename_i hspace
    refine follows_stayVersion hs hname ⟨hstatus, mul_snoc h fun b hb => ?_⟩
    exact mul_snoc hb fun d hd => someOver_snoc hd.2 hspace
  · apply Follows.again
    refine .inr (.inl ⟨hname, ?_⟩)
    change pre ∈ leading * (version * gap * digits s.parser.status)
    rw [hstatus]
    exact mul_mono_right h fun b hb => mul_nil hb nil_mem_digits

/-- The digits of the status, and its end -/
theorem follows_responseStatus (hs : s.state = .responseStatus) (hname : s.parser.headerName = [])
    (h : pre ∈ leading * (version * gap * digits s.parser.status)) :
    Follows pre c (s.visit text p c) := by
  have hnumber (hsome : s.parser.status ≠ -1) : pre ∈ leading * responseStatus :=
    mul_mono_right h fun b hb => mul_mono_right hb fun d hd => mem_number_of_digits hd hsome
  simp only [visit, hs, Scan.responseStatus]
  split
  · rename_i hcr
    split
    · exact .exception
    · rename_i hsome
      rw [hcr]
      apply follows_nextVersion hname
      exact append_crlf_mem (heading_of_status (hnumber hsome) crlf_mem_eol)
  · split
    · rename_i hlf
      split
      · exact .exception
      · rename_i hsome
        rw [hlf]
        exact follows_heading hname (heading_of_status (hnumber hsome) lf_mem_eol)
    · split
      · rename_i hspace
        split
        · exact .exception
        · rename_i hsome
          rw [hspace]
          apply follows_nextVersion hname
          apply mul_snoc (hnumber hsome)
          intro b hb
          exact mul_nil (mul_begin hb rfl) (nil_mem_over _)
      · split
        · exact .exception
        · rename_i hdigit
          have hdigit' : isDigit c = true := by
            simpa using hdigit
          refine follows_stayVersion hs hname (mul_snoc h fun b hb => ?_)
          exact mul_snoc hb fun d hd => mem_digits_snoc hd hdigit'

theorem follows_responseReasonStart (hs : s.state = .responseReasonStart)
    (hname : s.parser.headerName = [])
    (h : pre ∈ leading * (responseStatus * {[space]} * plain)) :
    Follows pre c (s.visit text p c) := by
  simp only [visit, hs]
  split
  · rename_i hspace
    have hc : ¬ Ends c := by
      rw [hspace]
      decide
    refine follows_stayVersion hs hname (mul_snoc h fun b hb => ?_)
    exact mul_snoc hb fun d hd => over_snoc hd hc
  · exact .again (.inr (.inl ⟨hname, rfl, h⟩))

theorem follows_responseReason (hs : s.state = .responseReason) (hname : s.parser.headerName = [])
    (hstart : s.start.isSome) (h : pre ∈ leading * (responseStatus * {[space]} * plain)) :
    Follows pre c (s.visit text p c) := by
  obtain ⟨start, hstart'⟩ := Option.isSome_iff_exists.mp hstart
  simp only [visit, hs, Scan.responseReason, token, hstart', bind, Except.bind]
  split
  · rename_i hends
    split
    · rename_i hcr
      rw [hcr]
      apply follows_nextVersion
      · exact hname
      · exact append_crlf_mem (heading_of_reason h crlf_mem_eol)
    · rename_i hcr
      rw [hends.resolve_left hcr]
      exact follows_heading hname (heading_of_reason h lf_mem_eol)
  · rename_i hends
    refine follows_stayVersion hs hname ⟨hstart, mul_snoc h fun b hb => ?_⟩
    exact mul_snoc hb fun d hd => over_snoc hd hends

theorem follows_nextHeader (h : ∀ c', SeenHeader (pre ++ [c]) c' (s.goto state)) :
    Follows pre c (s.next state) := .next fun c' => .inr (.inr (h c'))

theorem follows_stayHeader (hs : s.state = state)
    (h : ∀ c', SeenHeader (pre ++ [c]) c' (s.goto state)) : Follows pre c (.ok (.next s)) := by
  rw [goto_self hs] at h
  exact .next fun c' => .inr (.inr (h c'))

theorem follows_againHeader (h : SeenHeader pre c (s.goto state)) :
    Follows pre c (s.again state) := .again (.inr (.inr h))

theorem mem_head {named : Bool} (h : l ∈ lines named) : l ∈ head := by
  cases named
  · exact .inl h
  · exact .inr h

theorem mem_lines_field {f : List UInt8} (h : l ∈ head) (hf : f ∈ field) : l ++ f ∈ lines true := by
  change l ++ f ∈ heading * field * (field + continuation)∗
  rcases h with h | h
  · exact mul_nil (append_mem_mul h hf) (Language.nil_mem_kstar _)
  · obtain ⟨u, hu, v, hv, rfl⟩ := mem_mul.mp (show l ∈ _ * _ from h)
    rw [append_assoc]
    exact append_mem_mul hu (kstar_append hv (.inl hf))

theorem mem_lines_continuation {f : List UInt8} (h : l ∈ lines true) (hf : f ∈ continuation) :
    l ++ f ∈ lines true := by
  obtain ⟨u, hu, v, hv, rfl⟩ := mem_mul.mp
    (show l ∈ heading * field * (field + continuation)∗ from h)
  rw [append_assoc]
  exact append_mem_mul hu (kstar_append hv (.inr hf))

theorem follows_headerFieldStart (hs : s.state = .headerFieldStart) (hfound : Found s)
    (h : pre ∈ lines (s.parser.headerName ≠ [])) : Follows pre c (s.visit text p c) := by
  simp only [visit, hs]
  split
  · rename_i hcr
    rw [hcr]
    apply follows_nextHeader
    intro c'
    exact append_crlf_mem (append_mem_mul (mem_head h) (.inl crlf_mem_eol))
  · rename_i hcr
    split
    · rename_i hlf
      rw [hlf]
      apply follows_nextHeader
      intro c'
      exact append_mem_mul (mem_head h) (.inl lf_mem_eol)
    · rename_i hlf
      split
      · rename_i hspace
        apply follows_nextHeader
        intro c'
        exact ⟨hfound, mul_begin h (singleton_mem_someOver hspace)⟩
      · rename_i hspace
        exact follows_againHeader ⟨mem_head h, hspace, not_or.mpr ⟨hcr, hlf⟩⟩

theorem follows_headerFieldContStart (hs : s.state = .headerFieldContStart) (hfound : Found s)
    (h : text.take p ∈ lines (s.parser.headerName ≠ []) * gap) (hp : p ≤ text.length) :
    Follows (text.take p) c (s.visit text p c) := by
  simp only [visit, hs]
  split
  · rename_i hspace
    refine follows_stayHeader hs fun c' => ⟨hfound, ?_⟩
    exact mul_snoc h fun b hb => someOver_snoc hb.2 hspace
  · rename_i hspace
    apply Follows.again
    refine .inr (.inr ⟨hfound, text.take p, h, [], (append_nil _).symm, ?_, .inl ⟨rfl, hspace⟩⟩)
    rw [length_take, Nat.min_eq_left hp]
    rfl

theorem token_eq {u : List UInt8} (hpre : text.take p = u ++ v) (hstart : s.start = some u.length) :
    s.token text p = .ok v := by
  unfold token
  rw [hstart]
  dsimp only
  rw [hpre, List.drop_left]

theorem find_setValue (headers : HeaderFields) (name value : List UInt8)
    (h : (headers.find name).isSome) : ((headers.setValue name value).find name).isSome := by
  unfold HeaderFields.find HeaderFields.setValue at *
  induction headers with
  | nil => exact h
  | cons field headers ih =>
    rw [List.map_cons]
    by_cases hname : field.1 = name
    · rw [if_pos hname]
      simp [List.lookup, hname]
    · rw [if_neg hname]
      have hbeq : (name == field.1) = false := by
        simpa using fun heq => hname heq.symm
      simp only [List.lookup, hbeq] at h ⊢
      exact ih h

theorem mem_folded_snoc (h : v = [] ∧ c ≠ space ∨ v ∈ folded) (hc : ¬ Ends c) :
    v ++ [c] ∈ folded := by
  rcases h with ⟨rfl, hspace⟩ | ⟨hv, hhead⟩
  · exact ⟨singleton_mem_someOver hc, fun heq => hspace (Option.some.inj heq)⟩
  · refine ⟨someOver_snoc hv.2 hc, ?_⟩
    rw [List.head?_append_of_ne_nil v hv.1]
    exact hhead

/-- The field of the last name stays where its value is set. -/
theorem named_setValue {headers : HeaderFields} {value : List UInt8} (h : Named s)
    (hheaders : headers = s.parser.headers.setValue s.parser.headerName value) :
    Named { s with parser := { s.parser with headers := headers } } := by
  constructor
  · exact h.1
  · rw [hheaders]
    exact find_setValue _ _ _ h.2

theorem lines_of_named (h : Named s) (hl : l ∈ lines true) :
    l ∈ lines (s.parser.headerName ≠ []) := by
  rw [decide_eq_true h.1]
  exact hl

/-- A line with a field or its continuation is at its end. -/
theorem follows_line {e : UInt8} (hends : Ends e) (hnamed : Named s)
    (hline : ∀ r ∈ eol, pre ++ r ∈ lines true) :
    Follows pre e (s.next (if e = cr then .headerFieldLF else .headerFieldStart)) := by
  split
  · rename_i hcr
    rw [hcr]
    apply follows_nextHeader
    intro c'
    exact ⟨hnamed, append_crlf_mem (hline _ crlf_mem_eol)⟩
  · rename_i hcr
    rw [hends.resolve_left hcr]
    apply follows_nextHeader
    intro c'
    exact ⟨fun _ => hnamed, lines_of_named hnamed (hline _ lf_mem_eol)⟩

theorem follows_headerFieldCont (hs : s.state = .headerFieldCont) (hfound : Found s)
    (h : ∃ u ∈ lines (s.parser.headerName ≠ []) * gap, ∃ v, text.take p = u ++ v ∧
      s.start = some u.length ∧ (v = [] ∧ c ≠ space ∨ v ∈ folded)) :
    Follows (text.take p) c (s.visit text p c) := by
  obtain ⟨u, hu, v, hpre, hstart, hv⟩ := h
  simp only [visit, hs, Scan.headerFieldCont, token_eq hpre hstart, bind, Except.bind]
  rw [hpre]
  obtain ⟨a, ha, g, hg, rfl⟩ := mem_mul.mp hu
  split
  · rename_i hends
    split
    · rename_i hne
      split
      · exact .exception
      · rename_i hname
        have hnamed := hfound hname
        obtain ⟨entry, hentry⟩ := Option.isSome_iff_exists.mp hnamed.2
        have hfolded := hv.resolve_left fun h => hne h.1
        rw [decide_eq_true hname] at ha
        simp only [hentry]
        apply follows_line hends (named_setValue hnamed rfl)
        intro r hr
        rw [append_assoc, append_assoc, ← append_assoc g]
        exact mem_lines_continuation ha
          (append_mem_mul (append_mem_mul hg hfolded) hr)
    · rename_i hnil
      have hv' : v = [] := not_not.mp hnil
      have hmessage (r : List UInt8) (hr : r ∈ eol) : a ++ g ++ v ++ r ∈ message := by
        rw [hv', append_nil, append_assoc]
        exact append_mem_mul (mem_head ha) (.inr (append_mem_mul hg hr))
      split
      · rename_i hcr
        rw [hcr]
        apply follows_nextHeader
        intro c'
        exact append_crlf_mem (hmessage _ crlf_mem_eol)
      · rename_i hcr
        rw [hends.resolve_left hcr]
        apply follows_nextHeader
        intro c'
        exact hmessage _ lf_mem_eol
  · rename_i hends
    refine follows_stayHeader hs fun c' => ⟨hfound, a ++ g, hu, v ++ [c], ?_, hstart, .inr ?_⟩
    · rw [append_assoc]
    · exact mem_folded_snoc hv hends

theorem follows_headerFieldNameStart (hs : s.state = .headerFieldNameStart)
    (h : text.take p ∈ head ∧ c ≠ space ∧ ¬ Ends c) (hp : p ≤ text.length) :
    Follows (text.take p) c (s.visit text p c) := by
  obtain ⟨hhead, hspace, hends⟩ := h
  simp only [visit, hs, if_neg hspace]
  apply Follows.again
  refine .inr (.inr ⟨rfl, text.take p, hhead, [], (append_nil _).symm, ?_,
    .inl ⟨rfl, hspace, hends⟩⟩)
  rw [length_take, Nat.min_eq_left hp]
  rfl

theorem follows_headerFieldName (hs : s.state = .headerFieldName)
    (h : s.parser.headerName = [] ∧ ∃ u ∈ head, ∃ v, pre = u ++ v ∧ s.start = some u.length ∧
      (v = [] ∧ c ≠ space ∧ ¬ Ends c ∨ v ∈ fieldName)) :
    Follows pre c (s.visit text p c) := by
  obtain ⟨hname, u, hu, v, hpre, hstart, hv⟩ := h
  simp only [visit, hs]
  split
  · rename_i hstop
    apply follows_againHeader
    refine ⟨u, hu, v, [], ?_, hstart, nil_mem_over _, .inl ⟨hname, rfl, ?_⟩⟩
    · rw [append_nil]
      exact hpre
    · rcases hv with ⟨hnil, hspace, _⟩ | hv
      · exact .inl ⟨hnil, hstop.resolve_left hspace⟩
      · exact .inr hv
  · rename_i hgo
    obtain ⟨hspace, hcolon⟩ := not_or.mp hgo
    split
    · exact .exception
    · rename_i hends
      refine follows_stayHeader hs fun c' => ⟨hname, u, hu, v ++ [c], ?_, hstart, .inr ?_⟩
      · rw [hpre, append_assoc]
      · apply someOver_snoc _ ⟨hspace, hcolon, hends⟩
        rcases hv with ⟨rfl, _⟩ | hv
        · exact nil_mem_over _
        · exact hv.2

/-- Behind the name of a field there is an entry for it. -/
theorem placeholder_eq {u : List UInt8} {sp : List UInt8} (hpre : text.take p = u ++ v ++ sp)
    (hstart : s.start = some u.length)
    (hv : s.parser.headerName = [] ∧ sp = [] ∨ Named s ∧ v ≠ []) :
    ∃ s', s.placeholder text p = .ok s' ∧ s'.state = s.state ∧ s'.start = s.start ∧
      (v ≠ [] → Named s') := by
  unfold Scan.placeholder
  rcases hv with ⟨hname, hnil⟩ | ⟨hnamed, hne⟩
  · rw [hnil, append_nil] at hpre
    rw [if_pos hname, token_eq hpre hstart]
    refine ⟨_, rfl, rfl, rfl, ?_⟩
    intro hne
    constructor
    · dsimp only
      unfold toLower
      simpa using hne
    · dsimp only
      split
      · unfold HeaderFields.find
        rw [List.lookup_append]
        simp
      · rename_i entry hentry
        rw [hentry]
        rfl
  · rw [if_neg hnamed.1]
    exact ⟨s, rfl, rfl, rfl, fun _ => hnamed⟩

theorem follows_headerFieldNameEnd (hs : s.state = .headerFieldNameEnd)
    (hp : p ≤ text.length)
    (h : ∃ u ∈ head, ∃ v sp, text.take p = u ++ v ++ sp ∧ s.start = some u.length ∧ sp ∈ spaces ∧
      (s.parser.headerName = [] ∧ sp = [] ∧ (v = [] ∧ c = byte ':' ∨ v ∈ fieldName) ∨
        Named s ∧ v ∈ fieldName)) :
    Follows (text.take p) c (s.visit text p c) := by
  obtain ⟨u, hu, v, sp, hpre, hstart, hsp, hv⟩ := h
  have hcolon : v = [] ∧ c = byte ':' ∨ v ∈ fieldName := by
    rcases hv with ⟨_, _, hv⟩ | ⟨_, hv⟩
    · exact hv
    · exact .inr hv
  have hnonempty : v = [] → sp = [] := by
    intro hnil
    rcases hv with ⟨_, hsp, _⟩ | ⟨_, hv⟩
    · exact hsp
    · exact absurd hnil hv.1
  obtain ⟨s', hplaceholder, hs', hstart', hnamed⟩ := placeholder_eq hpre hstart (by
    rcases hv with ⟨hname, hsp, _⟩ | ⟨hnamed, hv⟩
    · exact .inl ⟨hname, hsp⟩
    · exact .inr ⟨hnamed, hv.1⟩)
  simp only [visit, hs, Scan.headerFieldNameEnd, hplaceholder, bind, Except.bind]
  rw [hpre]
  split
  · rename_i hspace
    have hname : v ∈ fieldName := by
      apply hcolon.resolve_left
      rintro ⟨_, heq⟩
      rw [hspace] at heq
      exact absurd heq (by decide)
    refine follows_stayHeader (hs'.trans hs) fun c' => ?_
    refine ⟨u, hu, v, sp ++ [c], ?_, hstart'.trans hstart, over_snoc hsp hspace,
      .inr ⟨hnamed hname.1, hname⟩⟩
    rw [append_assoc]
  · split
    · exact .exception
    · rename_i hgood
      obtain ⟨heq, hmoved⟩ := not_or.mp hgood
      have hne : v ≠ [] := by
        intro hnil
        apply hmoved
        have hlength := congrArg List.length hpre
        rw [hnil, hnonempty hnil, append_nil, append_nil, length_take,
          Nat.min_eq_left hp] at hlength
        rw [hstart', hstart, hlength]
      have hname : v ∈ fieldName := hcolon.resolve_left fun h => hne h.1
      rw [not_not.mp heq]
      apply follows_nextHeader
      intro c'
      refine ⟨hnamed hne, ?_⟩
      rw [append_assoc, append_assoc]
      apply append_mem_mul hu
      rw [← append_assoc]
      exact mul_nil (mul_begin (append_mem_mul hname hsp) rfl) (nil_mem_over _)

section

variable (h : pre ∈ head * (fieldName * spaces * {[byte ':']} * plain))

include h

theorem mem_lines_value {r : List UInt8} (hr : r ∈ eol) :
    pre ++ r ∈ lines true := by
  obtain ⟨u, hu, v, hv, rfl⟩ := mem_mul.mp h
  rw [append_assoc]
  exact mem_lines_field hu (append_mem_mul hv hr)

theorem value_snoc (hc : ¬ Ends c) :
    pre ++ [c] ∈ head * (fieldName * spaces * {[byte ':']} * plain) :=
  mul_snoc h fun _ hb => mul_snoc hb fun _ hd => over_snoc hd hc

end

theorem follows_headerFieldValueStart (hs : s.state = .headerFieldValueStart) (hnamed : Named s)
    (h : pre ∈ head * (fieldName * spaces * {[byte ':']} * plain)) :
    Follows pre c (s.visit text p c) := by
  simp only [visit, hs]
  split
  · rename_i hspace
    have hc : ¬ Ends c := by
      rw [hspace]
      decide
    exact follows_stayHeader hs fun c' => ⟨hnamed, value_snoc h hc⟩
  · split
    · rename_i hcr
      have hline := follows_line (e := c) (.inl hcr) hnamed fun r hr => mem_lines_value h hr
      rw [if_pos hcr] at hline
      exact hline
    · rename_i hcr
      split
      · rename_i hlf
        have hline := follows_line (e := c) (.inr hlf) hnamed fun r hr => mem_lines_value h hr
        rw [if_neg hcr] at hline
        exact hline
      · exact .again (.inr (.inr ⟨hnamed, rfl, h⟩))

theorem follows_headerFieldValue (hs : s.state = .headerFieldValue) (hnamed : Named s)
    (hstart : s.start.isSome) (h : pre ∈ head * (fieldName * spaces * {[byte ':']} * plain)) :
    Follows pre c (s.visit text p c) := by
  simp only [visit, hs]
  split
  · rename_i hends
    exact follows_againHeader ⟨hnamed, hstart, hends, h⟩
  · rename_i hends
    exact follows_stayHeader hs fun c' => ⟨hnamed, hstart, value_snoc h hends⟩

theorem follows_headerFieldValueEnd (hs : s.state = .headerFieldValueEnd) (hnamed : Named s)
    (hstart : s.start.isSome) (hends : Ends c)
    (h : pre ∈ head * (fieldName * spaces * {[byte ':']} * plain)) :
    Follows pre c (s.visit text p c) := by
  obtain ⟨start, hstart'⟩ := Option.isSome_iff_exists.mp hstart
  obtain ⟨entry, hentry⟩ := Option.isSome_iff_exists.mp hnamed.2
  have hends' : ¬ ¬ (c = cr ∨ c = lf) := not_not.mpr hends
  simp only [visit, hs, Scan.headerFieldValueEnd, if_neg hends', token, hstart', hentry,
    bind, Except.bind]
  split
  · exact follows_line hends (named_setValue hnamed rfl) fun r hr => mem_lines_value h hr
  · exact follows_line hends hnamed fun r hr => mem_lines_value h hr

theorem follows_headerFieldLF (hs : s.state = .headerFieldLF) (hnamed : Named s)
    (h : pre ++ [lf] ∈ lines true) : Follows pre c (s.visit text p c) := by
  simp only [visit, hs, expect]
  split
  · exact .exception
  · rename_i heq
    rw [not_not.mp heq]
    apply follows_nextHeader
    intro c'
    exact ⟨fun _ => hnamed, lines_of_named hnamed h⟩

theorem follows_headerFieldEndLF (hs : s.state = .headerFieldEndLF)
    (h : pre ++ [lf] ∈ message) : Follows pre c (s.visit text p c) := by
  simp only [visit, hs, expect]
  split
  · exact .exception
  · rename_i heq
    rw [not_not.mp heq]
    exact follows_nextHeader fun c' => h

/-- The parser knows what it has read, and no assertion fails. -/
theorem follows_visit (hp : p ≤ text.length) (h : Seen (text.take p) c s)
    (hne : s.state ≠ .complete) : Follows (text.take p) c (s.visit text p c) := by
  rcases h with ⟨hfresh, h⟩ | ⟨hname, h⟩ | h
  · unfold SeenStart at h
    split at h
    case h_1 hs => exact follows_type hs hfresh h
    case h_2 hs => exact follows_typeCheck hs hfresh h
    case h_3 hs => exact follows_request hs hfresh h
    case h_4 hs => exact follows_requestMethod hs hfresh h.1 h.2
    case h_5 hs => exact follows_requestMethodSP hs hfresh h.1 h.2
    case h_6 hs => exact follows_requestURI hs hfresh h.1 h.2
    case h_7 hs => exact follows_requestURISP hs hfresh h.1 h.2
    case h_8 hs => exact follows_version hs hfresh h.1 h.2
    case h_9 hs =>
      simp only [visit, hs]
      exact follows_expect hfresh fun hc c' => http_snoc rfl h hc
    case h_10 hs =>
      simp only [visit, hs]
      exact follows_expect hfresh fun hc c' => http_snoc rfl h hc
    case h_11 hs =>
      simp only [visit, hs]
      exact follows_expect hfresh fun hc c' => http_snoc rfl h hc
    case h_12 hs => exact follows_versionHTTP hs hfresh h
    case h_13 hs => exact follows_response hs hfresh h
    case h_14 => exact h.elim
  · unfold SeenVersion at h
    split at h
    case h_1 hs =>
      rw [h]
      exact follows_init hs hname
    case h_2 hs => exact follows_versionMajor hs hname h.1 h.2.1 h.2.2
    case h_3 hs => exact follows_versionMinor hs hname h.1 h.2
    case h_4 hs =>
      simp only [visit, hs]
      exact follows_lf hname h
    case h_5 hs => exact follows_responseVersionSP hs hname h.1 h.2
    case h_6 hs => exact follows_responseStatus hs hname h
    case h_7 hs => exact follows_responseReasonStart hs hname h
    case h_8 hs => exact follows_responseReason hs hname h.1 h.2
    case h_9 hs =>
      simp only [visit, hs]
      exact follows_lf hname h
    case h_10 => exact h.elim
  · unfold SeenHeader at h
    split at h
    case h_1 hs => exact follows_headerFieldStart hs h.1 h.2
    case h_2 hs => exact follows_headerFieldContStart hs h.1 h.2 hp
    case h_3 hs => exact follows_headerFieldCont hs h.1 h.2
    case h_4 hs => exact follows_headerFieldNameStart hs h hp
    case h_5 hs => exact follows_headerFieldName hs h
    case h_6 hs => exact follows_headerFieldNameEnd hs hp h
    case h_7 hs => exact follows_headerFieldValueStart hs h.1 h.2
    case h_8 hs => exact follows_headerFieldValue hs h.1 h.2.1 h.2.2
    case h_9 hs => exact follows_headerFieldValueEnd hs h.1 h.2.1 h.2.2.1 h.2.2.2
    case h_10 hs => exact follows_headerFieldLF hs h.1 h.2
    case h_11 hs => exact follows_headerFieldEndLF hs h
    case h_12 hs => exact absurd hs hne
    case h_13 => exact h.elim

/-- What `parse` comes to on a text: the members tell what was read up to where it ends, and if
the message is not complete there, that is the end of the text; 0 stands for the character that
is not there. -/
inductive Parsed (text : List UInt8) : Except HttpFailure (Nat × Scan) → Prop
  | complete {q : Nat} {s : Scan} (hq : q ≤ text.length) (hs : s.state = .complete)
      (h : text.take q ∈ message) : Parsed text (.ok (q, s))
  | incomplete {s : Scan} (hs : s.state ≠ .complete) (h : Seen text 0 s) :
      Parsed text (.ok (text.length, s))
  | exception {reason : String} : Parsed text (.error (.exception reason))

theorem mem_message_of_complete (hs : s.state = .complete) (h : Seen pre c s) : pre ∈ message := by
  unfold Seen SeenStart SeenVersion SeenHeader at h
  rw [hs] at h
  rcases h with ⟨_, h⟩ | ⟨_, h⟩ | h
  · exact h.elim
  · exact h.elim
  · exact h

theorem getElem?_of_lt (hp : p < text.length) : text[p]? = some (text.getD p 0) := by
  rw [List.getD_eq_getElem?_getD, List.getElem?_eq_getElem hp]
  rfl

theorem parsed_parseLoop (text : List UInt8) (p : Nat) (s : Scan) (hp : p ≤ text.length)
    (h : Seen (text.take p) (text.getD p 0) s) : Parsed text (HttpParser.parseLoop text p s) := by
  induction p, s using HttpParser.parseLoop.induct text with
  | case1 p s hgo failure hv =>
    have hc := getElem?_of_lt hgo.1
    obtain ⟨_, hget⟩ := List.getElem?_eq_some_iff.mp hc
    rw [hget] at hv
    have hfollows := follows_visit hp h hgo.2
    rw [hv] at hfollows
    rw [HttpParser.parseLoop_error hc hgo.2 hv]
    cases hfollows
    exact .exception
  | case2 p s hgo s' hv ih =>
    have hc := getElem?_of_lt hgo.1
    obtain ⟨_, hget⟩ := List.getElem?_eq_some_iff.mp hc
    rw [hget] at hv
    have hfollows := follows_visit hp h hgo.2
    rw [hv] at hfollows
    rw [HttpParser.parseLoop_next hc hgo.2 hv]
    obtain @⟨_, hseen⟩ := hfollows
    have htake : text.take (p + 1) = text.take p ++ [text.getD p 0] := by
      rw [List.take_add_one, hc]
      rfl
    rw [← htake] at hseen
    exact ih hgo.1 (hseen _)
  | case3 p s hgo s' hv ih =>
    have hc := getElem?_of_lt hgo.1
    obtain ⟨hlt, hget⟩ := List.getElem?_eq_some_iff.mp hc
    rw [hget] at hv
    have hfollows := follows_visit hp h hgo.2
    rw [hv] at hfollows
    rw [HttpParser.parseLoop_again hc hgo.2 hv]
    cases hfollows with
    | again hseen => exact ih hp hseen
  | case4 p s hgo =>
    by_cases hs : s.state = .complete
    · rw [HttpParser.parseLoop_end (.inr hs)]
      exact .complete hp hs (mem_message_of_complete hs h)
    · have hp' : p = text.length := by
        have hnot := not_and.mp hgo
        rcases Nat.lt_or_ge p text.length with hlt | hge
        · exact absurd hs (hnot hlt)
        · omega
      rw [HttpParser.parseLoop_end (.inl (by omega))]
      subst hp'
      rw [List.take_length, List.getD_eq_getElem?_getD, List.getElem?_length] at h
      exact .incomplete hs h

/-- What a fresh parser makes of a text -/
theorem parsed_fresh (text : List UInt8) :
    Parsed text (HttpParser.parseLoop text 0 { parser := {} }) := by
  apply parsed_parseLoop text 0 { parser := {} } (Nat.zero_le _)
  exact .inr (.inl ⟨rfl, rfl⟩)

end Http

end Ice.Connection
