import Ice.Connection.HttpReading

/-!
# What `HttpParser::parse` accepts

Each line of a message takes the parser from the start of a line to the start of the next one, so
a message whose lines are well formed is not rejected.
-/

namespace Ice.Connection

open Ice.Lib
open HttpParser.Scan (goto token visit)
open List (append_assoc append_nil mem_cons_of_mem mem_cons_self prefix_append)
open Language (mem_mul)
open scoped Computability

namespace Http

open HttpParser (Scan Turn parseLoop)

variable {text pre w : List UInt8} {c : UInt8} {C D : Scan → Prop} {P : UInt8 → Prop}

/-- A fresh parser reads the beginning of a text, and then its members meet a condition. -/
structure Reads (text pre : List UInt8) (C : Scan → Prop) : Prop where
  begins : pre <+: text
  exists_scan : ∃ s, parseLoop text 0 { parser := {} } = parseLoop text pre.length s ∧ C s

theorem Reads.mono (h : Reads text pre C) (hCD : ∀ s, C s → D s) : Reads text pre D := by
  obtain ⟨hpre, s, hrun, hs⟩ := h
  exact ⟨hpre, s, hrun, hCD s hs⟩

theorem getElem?_of_begins (h : pre ++ c :: w <+: text) : text[pre.length]? = some c := by
  obtain ⟨rest, rfl⟩ := h
  rw [append_assoc, List.getElem?_append_right (Nat.le_refl _), Nat.sub_self]
  rfl

theorem begins_snoc (h : pre ++ c :: w <+: text) : pre ++ [c] <+: text := by
  obtain ⟨rest, rfl⟩ := h
  exact ⟨w ++ rest, by simp⟩

variable {s : Scan} {lead z sp e g v l : List UInt8} {named : Bool} {p : Nat}

/-- There is no switch case for a complete message. -/
theorem ne_complete {turn : Turn} (h : s.visit text p c = .ok turn) :
    s.state ≠ .complete := by
  intro hs
  simp only [visit, hs] at h
  cases h

theorem Reads.next (h : Reads text pre C) (hpre : pre ++ c :: w <+: text)
    (hv : ∀ s, C s → ∃ s', s.visit text pre.length c = .ok (.next s') ∧ D s') :
    Reads text (pre ++ [c]) D := by
  obtain ⟨_, s, hrun, hs⟩ := h
  obtain ⟨s', hvisit, hs'⟩ := hv s hs
  refine ⟨begins_snoc hpre, s', ?_, hs'⟩
  rw [hrun, HttpParser.parseLoop_next (getElem?_of_begins hpre) (ne_complete hvisit) hvisit,
    List.length_append, List.length_singleton]

theorem Reads.again (h : Reads text pre C) (hpre : pre ++ c :: w <+: text)
    (hv : ∀ s, C s → ∃ s', s.visit text pre.length c = .ok (.again s') ∧ D s') :
    Reads text pre D := by
  obtain ⟨hbegins, s, hrun, hs⟩ := h
  obtain ⟨s', hvisit, hs'⟩ := hv s hs
  refine ⟨hbegins, s', ?_, hs'⟩
  rw [hrun, HttpParser.parseLoop_again (getElem?_of_begins hpre) (ne_complete hvisit) hvisit]

/-- The characters of a part of the text change a value that the members hold. -/
theorem Reads.fold {α : Type} {C : α → Scan → Prop} {f : α → UInt8 → α} {n : α}
    (h : Reads text pre (C n)) (hw : w ∈ wordsOver P) (hpre : pre ++ w <+: text)
    (hv : ∀ c, P c → ∀ p n s, C n s → ∃ s', s.visit text p c = .ok (.next s') ∧ C (f n c) s') :
    Reads text (pre ++ w) (C (w.foldl f n)) := by
  induction w generalizing pre n with
  | nil =>
    rw [append_nil]
    exact h
  | cons c w ih =>
    have hnext : Reads text (pre ++ [c]) (C (f n c)) :=
      h.next hpre fun s hs => hv c (hw c mem_cons_self) pre.length n s hs
    have hassoc : pre ++ c :: w = pre ++ [c] ++ w := by
      simp
    rw [hassoc] at hpre ⊢
    exact ih hnext (fun x hx => hw x (mem_cons_of_mem c hx)) hpre

theorem Reads.or (h : Reads text pre fun s => C s ∨ D s) : Reads text pre C ∨ Reads text pre D := by
  obtain ⟨hpre, s, hrun, hs | hs⟩ := h
  · exact .inl ⟨hpre, s, hrun, hs⟩
  · exact .inr ⟨hpre, s, hrun, hs⟩

/-- Each character of a part of the text is read where a condition is met again behind it. -/
theorem Reads.each (h : Reads text pre C) (hw : w ∈ wordsOver P) (hpre : pre ++ w <+: text)
    (hv : ∀ c, P c → ∀ l, l ++ [c] <+: text → Reads text l C → Reads text (l ++ [c]) C) :
    Reads text (pre ++ w) C := by
  induction w generalizing pre with
  | nil =>
    rw [append_nil]
    exact h
  | cons c w ih =>
    have hnext := hv c (hw c mem_cons_self) pre (begins_snoc hpre) h
    have hassoc : pre ++ c :: w = pre ++ [c] ++ w := by
      simp
    rw [hassoc] at hpre ⊢
    exact ih hnext (fun x hx => hw x (mem_cons_of_mem c hx)) hpre

/-- The characters of a part of the text keep a condition. -/
theorem Reads.each_char (h : Reads text pre C) (hw : w ∈ wordsOver P) (hpre : pre ++ w <+: text)
    (hv : ∀ c, P c → ∀ p s, C s → ∃ s', s.visit text p c = .ok (.next s') ∧ C s') :
    Reads text (pre ++ w) C :=
  Reads.fold (C := fun (_ : Unit) => C) (f := fun u _ => u) (n := ()) h hw hpre
    fun c hc p _ s hs => hv c hc p s hs

/-- In a state before the version is read -/
def Before (state : HttpState) (s : Scan) : Prop := s.state = state ∧ Fresh s

/-- In a state of the request line -/
def InRequest (state : HttpState) (s : Scan) : Prop :=
  s.state = state ∧ s.parser.type = .request ∧ Fresh s

theorem reads_leading (hlead : lead ∈ leading) (hpre : lead ++ c :: w <+: text) :
    Reads text lead (Before .type) := by
  have hinit : Reads text [] fun s => s.state = .init ∧ s.parser.headerName = [] :=
    ⟨⟨text, rfl⟩, _, rfl, rfl, rfl⟩
  obtain ⟨x, rest, hfirst⟩ : ∃ x rest, [] ++ lead ++ c :: w = [] ++ x :: rest := by
    cases lead with
    | nil => exact ⟨c, w, rfl⟩
    | cons x lead => exact ⟨x, lead ++ c :: w, rfl⟩
  have htype : Reads text [] (Before .type) := by
    apply hinit.again (c := x) (w := rest)
    · rw [← hfirst]
      exact hpre
    · rintro s ⟨hs, hname⟩
      refine ⟨s.clear.goto .type, ?_, rfl, hname, rfl, rfl, rfl⟩
      simp only [visit, hs]
      rfl
  apply htype.each_char hlead
  · exact (prefix_append lead _).trans hpre
  · rintro x hx p s ⟨hs, hfresh⟩
    refine ⟨s, ?_, hs, hfresh⟩
    simp only [visit, hs]
    exact if_pos hx

/-- The rest of a method, and the space behind it -/
theorem reads_restOfMethod (h : Reads text pre (Before .request))
    (hw : w ∈ wordsOver fun c => c ≠ space ∧ ¬ Ends c) (hpre : pre ++ w ++ space :: z <+: text) :
    Reads text (pre ++ w ++ [space]) (InRequest .requestMethodSP) := by
  obtain ⟨x, tail, hfirst⟩ : ∃ x tail, pre ++ w ++ space :: z = pre ++ x :: tail := by
    cases w with
    | nil => exact ⟨space, z, by simp⟩
    | cons x w => exact ⟨x, w ++ space :: z, by simp⟩
  have hmethod : Reads text pre (InRequest .requestMethod) := by
    apply h.again (c := x) (w := tail)
    · rw [← hfirst]
      exact hpre
    · rintro s ⟨hs, hfresh⟩
      refine ⟨goto .requestMethod { s with parser := { s.parser with type := .request } }, ?_,
        rfl, rfl, hfresh⟩
      simp only [visit, hs]
      rfl
  have hword : Reads text (pre ++ w) (InRequest .requestMethod) := by
    apply hmethod.each_char hw
    · exact (prefix_append (pre ++ w) _).trans hpre
    · rintro c ⟨hspace, hends⟩ p s ⟨hs, htype, hfresh⟩
      refine ⟨s.pushMethod [c], ?_, hs, htype, hfresh⟩
      simp only [visit, hs]
      exact if_neg (not_or.mpr ⟨hspace, hends⟩)
  have hsp : Reads text (pre ++ w) (InRequest .requestMethodSP) := by
    apply hword.again hpre
    rintro s ⟨hs, htype, hfresh⟩
    refine ⟨s.goto .requestMethodSP, ?_, rfl, htype, hfresh⟩
    simp only [visit, hs]
    rfl
  apply hsp.next hpre
  rintro s ⟨hs, htype, hfresh⟩
  refine ⟨s, ?_, hs, htype, hfresh⟩
  simp only [visit, hs]
  rfl

theorem reads_method {m : List UInt8} (hlead : lead ∈ leading) (hm : m ∈ method)
    (hpre : lead ++ m ++ space :: z <+: text) :
    Reads text (lead ++ m ++ [space]) (InRequest .requestMethodSP) := by
  obtain ⟨x, tail, hfirst⟩ : ∃ x tail, lead ++ m ++ space :: z = lead ++ x :: tail := by
    cases m with
    | nil => exact ⟨space, z, by simp⟩
    | cons x m => exact ⟨x, m ++ space :: z, by simp⟩
  have htype : Reads text lead (Before .type) := by
    apply reads_leading hlead (c := x) (w := tail)
    rw [← hfirst]
    exact hpre
  by_cases hhead : m.head? = some (byte 'H')
  · obtain ⟨r, rfl⟩ := hm.2 hhead
    have hpre' : lead ++ byte 'H' :: byte 'E' :: (r ++ space :: z) <+: text := by
      simpa using hpre
    have hcheck : Reads text (lead ++ [byte 'H']) (Before .typeCheck) := by
      apply htype.next hpre'
      rintro s ⟨hs, hfresh⟩
      refine ⟨s.goto .typeCheck, ?_, rfl, hfresh⟩
      simp only [visit, hs]
      rfl
    have hpre'' : lead ++ [byte 'H'] ++ byte 'E' :: (r ++ space :: z) <+: text := by
      simpa using hpre
    have hrequest : Reads text (lead ++ [byte 'H'] ++ [byte 'E']) (Before .request) := by
      apply hcheck.next hpre''
      rintro s ⟨hs, hfresh⟩
      refine ⟨(s.pushMethod [byte 'H', byte 'E']).goto .request, ?_, rfl, hfresh⟩
      simp only [visit, hs]
      rfl
    have hr : r ∈ wordsOver fun c => c ≠ space ∧ ¬ Ends c :=
      fun c hc => hm.1 c (List.mem_append_right _ hc)
    have hall := reads_restOfMethod hrequest hr (z := z) (by simpa using hpre)
    simpa using hall
  · have hx : ¬ Ends x ∧ x ≠ byte 'H' := by
      cases m with
      | nil =>
        rw [append_nil] at hfirst
        obtain ⟨rfl, -⟩ := List.cons.inj (List.append_cancel_left hfirst)
        exact ⟨by decide, by decide⟩
      | cons y m =>
        simp only [append_assoc, List.cons_append] at hfirst
        obtain ⟨rfl, -⟩ := List.cons.inj (List.append_cancel_left hfirst)
        exact ⟨(hm.1 y mem_cons_self).2, fun heq => hhead (congrArg some heq)⟩
    have hrequest : Reads text lead (Before .request) := by
      apply htype.again (c := x) (w := tail)
      · rw [← hfirst]
        exact hpre
      · rintro s ⟨hs, hfresh⟩
        refine ⟨s.goto .request, ?_, rfl, hfresh⟩
        simp only [visit, hs]
        exact (if_neg hx.1).trans (if_neg hx.2)
    exact reads_restOfMethod hrequest hm.1 hpre

theorem reads_spaces {state : HttpState} (h : Reads text pre (InRequest state))
    (hstate : state = .requestMethodSP ∨ state = .requestURISP) (hsp : sp ∈ spaces)
    (hpre : pre ++ sp <+: text) : Reads text (pre ++ sp) (InRequest state) := by
  apply h.each_char hsp hpre
  rintro c rfl p s ⟨hs, htype, hfresh⟩
  refine ⟨s, ?_, hs, htype, hfresh⟩
  rcases hstate with rfl | rfl
  · simp only [visit, hs]
    rfl
  · simp only [visit, hs]
    rfl

/-- The spaces behind the method and the address, up to the space behind that -/
theorem reads_uri {uri : List UInt8} (h : Reads text pre (InRequest .requestMethodSP))
    (hsp : sp ∈ spaces) (huri : uri ∈ word) (hpre : pre ++ sp ++ uri ++ space :: z <+: text) :
    Reads text (pre ++ sp ++ uri ++ [space]) (InRequest .requestURISP) := by
  have hgap : Reads text (pre ++ sp) (InRequest .requestMethodSP) := by
    apply reads_spaces h (.inl rfl) hsp
    apply List.IsPrefix.trans _ hpre
    exact ⟨uri ++ space :: z, by simp⟩
  obtain ⟨x, u, rfl⟩ := List.exists_cons_of_ne_nil huri.1
  have hx := huri.2 x mem_cons_self
  have hbegin : Reads text (pre ++ sp) (InRequest .requestURI) := by
    apply hgap.again (c := x) (w := u ++ space :: z)
    · simpa using hpre
    · rintro s ⟨hs, htype, hfresh⟩
      refine ⟨s.goto .requestURI, ?_, rfl, htype, hfresh⟩
      simp only [visit, hs]
      exact (if_neg hx.1).trans (if_neg hx.2)
  have hword : Reads text (pre ++ sp ++ x :: u) (InRequest .requestURI) := by
    apply hbegin.each_char huri.2
    · exact (prefix_append _ _).trans hpre
    · rintro c ⟨hspace, hends⟩ p s ⟨hs, htype, hfresh⟩
      refine ⟨s.pushUri c, ?_, hs, htype, hfresh⟩
      simp only [visit, hs]
      exact if_neg (not_or.mpr ⟨hspace, hends⟩)
  have hend : Reads text (pre ++ sp ++ x :: u) (InRequest .requestURISP) := by
    apply hword.again hpre
    rintro s ⟨hs, htype, hfresh⟩
    refine ⟨s.goto .requestURISP, ?_, rfl, htype, hfresh⟩
    simp only [visit, hs]
    rfl
  apply hend.next hpre
  rintro s ⟨hs, htype, hfresh⟩
  refine ⟨s, ?_, hs, htype, hfresh⟩
  simp only [visit, hs]
  rfl

/-- In a state where one character of the version has to follow -/
def InVersion (type : HttpType) (state : HttpState) (s : Scan) : Prop :=
  s.state = state ∧ s.parser.type = type ∧ Fresh s

/-- A number of the version is read. -/
def InMajor (type : HttpType) (n : Int) (s : Scan) : Prop :=
  s.state = .versionMajor ∧ s.parser.type = type ∧ s.parser.versionMajor = n ∧
    s.parser.versionMinor = -1 ∧ s.parser.status = -1

def InMinor (type : HttpType) (n : Int) (s : Scan) : Prop :=
  s.state = .versionMinor ∧ s.parser.type = type ∧ s.parser.versionMinor = n ∧
    s.parser.status = -1

theorem isDigit_ne (h : isDigit c = true) :
    c ≠ byte '.' ∧ c ≠ cr ∧ c ≠ lf ∧ c ≠ space := by
  refine ⟨?_, ?_, ?_, ?_⟩ <;> rintro rfl <;> revert h <;> decide

theorem reads_numbers {type : HttpType} {major minor : List UInt8}
    (h : Reads text pre (InVersion type .versionHT)) (hmajor : major ∈ number)
    (hminor : minor ∈ number)
    (hpre : pre ++ [byte 'T', byte 'P', byte '/'] ++ major ++ [byte '.'] ++ minor <+: text) :
    ∃ n, n ≠ -1 ∧
      Reads text (pre ++ [byte 'T', byte 'P', byte '/'] ++ major ++ [byte '.'] ++ minor)
        (InMinor type n) := by
  have hT : Reads text (pre ++ [byte 'T']) (InVersion type .versionHTT) := by
    apply h.next (w := byte 'P' :: byte '/' :: (major ++ byte '.' :: minor)) (by simpa using hpre)
    rintro s ⟨hs, htype, hfresh⟩
    refine ⟨s.goto .versionHTT, ?_, rfl, htype, hfresh⟩
    simp only [visit, hs]
    rfl
  have hP : Reads text (pre ++ [byte 'T'] ++ [byte 'P']) (InVersion type .versionHTTP) := by
    apply hT.next (w := byte '/' :: (major ++ byte '.' :: minor)) (by simpa using hpre)
    rintro s ⟨hs, htype, hfresh⟩
    refine ⟨s.goto .versionHTTP, ?_, rfl, htype, hfresh⟩
    simp only [visit, hs]
    rfl
  have hslash : Reads text (pre ++ [byte 'T'] ++ [byte 'P'] ++ [byte '/']) (InMajor type (-1)) := by
    apply hP.next (w := major ++ byte '.' :: minor) (by simpa using hpre)
    rintro s ⟨hs, htype, hname, hmajor, hminor, hstatus⟩
    refine ⟨s.goto .versionMajor, ?_, rfl, htype, hmajor, hminor, hstatus⟩
    simp only [visit, hs]
    rfl
  have hfirst := Reads.fold (C := InMajor type) (f := addDigit) hslash hmajor.1
    (by
      apply List.IsPrefix.trans _ hpre
      exact ⟨byte '.' :: minor, by simp⟩)
    (by
      rintro c hc p n s ⟨hs, htype, hn, hminor, hstatus⟩
      obtain ⟨hdot, -⟩ := isDigit_ne hc
      refine ⟨{ s with parser :=
        { s.parser with versionMajor := addDigit s.parser.versionMajor c } },
        ?_, hs, htype, ?_, hminor, hstatus⟩
      · simp only [visit, hs, Scan.versionMajor, if_neg hdot, hc]
        rfl
      · rw [← hn])
  have hdot : Reads text (pre ++ [byte 'T'] ++ [byte 'P'] ++ [byte '/'] ++ major ++ [byte '.'])
      (InMinor type (-1)) := by
    apply hfirst.next (w := minor) (by simpa using hpre)
    rintro s ⟨hs, htype, hn, hminor, hstatus⟩
    refine ⟨s.goto .versionMinor, ?_, rfl, htype, hminor, hstatus⟩
    simp only [visit, hs, Scan.versionMajor, hn]
    exact if_neg hmajor.2
  have hsecond := Reads.fold (C := InMinor type) (f := addDigit) hdot hminor.1
    (by simpa using hpre)
    (by
      rintro c hc p n s ⟨hs, htype, hn, hstatus⟩
      obtain ⟨-, hcr, hlf, hspace⟩ := isDigit_ne hc
      refine ⟨{ s with parser :=
        { s.parser with versionMinor := addDigit s.parser.versionMinor c } },
        ?_, hs, htype, ?_, hstatus⟩
      · simp only [visit, hs, Scan.versionMinor, if_neg hcr, if_neg hlf, if_neg hspace, hc]
        rfl
      · rw [← hn])
  refine ⟨_, hminor.2, ?_⟩
  simpa using hsecond

/-- At the start of a line; there is an entry for the last field, if there was a field. -/
def LineStart (named : Bool) (s : Scan) : Prop :=
  s.state = .headerFieldStart ∧ (named = true → Named s)

/-- Where LF has to follow -/
def inLF (state : HttpState) : Prop :=
  state = .requestLF ∨ state = .responseLF ∨ state = .headerFieldLF

/-- Where a line may end, LF takes the parser to the next line, and CR to a state in which LF has
to follow. -/
theorem Reads.line (h : Reads text pre C) (state : HttpState) (he : e ∈ eol)
    (hpre : pre ++ e <+: text) (hstate : inLF state)
    (hlf : ∀ s, C s → ∃ s', s.visit text pre.length lf = .ok (.next s') ∧ LineStart named s')
    (hcr : ∀ s, C s → ∃ s', s.visit text pre.length cr = .ok (.next s') ∧
      s'.state = state ∧ (named = true → Named s')) : Reads text (pre ++ e) (LineStart named) := by
  rcases he with rfl | rfl
  · exact h.next hpre hlf
  · have hreturn : Reads text (pre ++ [cr]) fun s => s.state = state ∧ (named = true → Named s) :=
      h.next hpre hcr
    have hassoc : pre ++ [cr, lf] = pre ++ [cr] ++ [lf] := by
      simp
    rw [hassoc] at hpre ⊢
    apply hreturn.next hpre
    rintro s ⟨hs, hnamed⟩
    refine ⟨s.goto .headerFieldStart, ?_, rfl, hnamed⟩
    rcases hstate with rfl | rfl | rfl
    all_goals
      simp only [visit, hs]
      rfl

theorem mem_gap (hg : g ∈ gap) : ∃ sp ∈ spaces, g = space :: sp := by
  obtain ⟨x, sp, rfl⟩ := List.exists_cons_of_ne_nil hg.1
  rw [hg.2 x mem_cons_self]
  exact ⟨sp, fun c hc => hg.2 c (mem_cons_of_mem x hc), rfl⟩

theorem reads_requestTarget {target : List UInt8} (hlead : lead ∈ leading)
    (htarget : target ∈ requestTarget) (hpre : lead ++ target ++ byte 'H' :: z <+: text) :
    Reads text (lead ++ target) (InVersion .request .version) := by
  obtain ⟨l₁, hl₁, g₂, hg₂, rfl⟩ := mem_mul.mp htarget
  obtain ⟨l₂, hl₂, uri, huri, rfl⟩ := mem_mul.mp hl₁
  obtain ⟨m, hm, g₁, hg₁, rfl⟩ := mem_mul.mp hl₂
  obtain ⟨sp₁, hsp₁, rfl⟩ := mem_gap hg₁
  obtain ⟨sp₂, hsp₂, rfl⟩ := mem_gap hg₂
  have hmethod : Reads text _ _ := reads_method hlead hm
    (z := sp₁ ++ (uri ++ space :: (sp₂ ++ byte 'H' :: z))) (by simpa using hpre)
  have haddress := reads_uri hmethod hsp₁ huri
    (z := sp₂ ++ byte 'H' :: z) (by simpa using hpre)
  have hgap := reads_spaces haddress (.inr rfl) hsp₂ (by
    apply List.IsPrefix.trans _ hpre
    exact ⟨byte 'H' :: z, by simp⟩)
  have hversion := hgap.again (c := byte 'H') (w := z) (D := InVersion .request .version)
    (by simpa using hpre)
    (by
      rintro s ⟨hs, htype, hfresh⟩
      refine ⟨s.goto .version, ?_, rfl, htype, hfresh⟩
      simp only [visit, hs]
      rfl)
  simpa using hversion

/-- A version and the text before it, up to the end of the version -/
theorem reads_version {type : HttpType} (hv : v ∈ version)
    (h : Reads text (pre ++ [byte 'H', byte 'T']) (InVersion type .versionHT))
    (hpre : pre ++ v <+: text) : ∃ n, n ≠ -1 ∧ Reads text (pre ++ v) (InMinor type n) := by
  obtain ⟨l₁, hl₁, minor, hminor, rfl⟩ := mem_mul.mp hv
  obtain ⟨l₂, hl₂, _, rfl, rfl⟩ := mem_mul.mp hl₁
  obtain ⟨_, rfl, major, hmajor, rfl⟩ := mem_mul.mp hl₂
  obtain ⟨n, hn, hnumbers⟩ := reads_numbers h hmajor hminor (by simpa [http] using hpre)
  refine ⟨n, hn, ?_⟩
  simpa [http] using hnumbers

theorem version_begin (hv : v ∈ version) :
    ∃ rest, v = byte 'H' :: byte 'T' :: byte 'T' :: rest := by
  obtain ⟨l₁, hl₁, minor, _, rfl⟩ := mem_mul.mp hv
  obtain ⟨l₂, hl₂, _, rfl, rfl⟩ := mem_mul.mp hl₁
  obtain ⟨_, rfl, major, _, rfl⟩ := mem_mul.mp hl₂
  exact ⟨_, rfl⟩

variable {line : List UInt8}

theorem reads_requestLine (hlead : lead ∈ leading)
    (hline : line ∈ requestLine) (hpre : lead ++ line <+: text) :
    Reads text (lead ++ line) (LineStart false) := by
  obtain ⟨l, hl, e, he, rfl⟩ := mem_mul.mp hline
  obtain ⟨target, htarget, v, hv, rfl⟩ := mem_mul.mp hl
  obtain ⟨rest, hrest⟩ := version_begin hv
  have hbegin : lead ++ target ++ byte 'H' :: byte 'T' :: byte 'T' :: (rest ++ e) <+: text := by
    rw [hrest] at hpre
    simpa using hpre
  have hversion := reads_requestTarget hlead htarget hbegin
  have hH := hversion.next (D := InVersion .request .versionH) hbegin (by
    rintro s ⟨hs, htype, hfresh⟩
    refine ⟨s.goto .versionH, ?_, rfl, htype, hfresh⟩
    simp only [visit, hs]
    rfl)
  have hHT := hH.next (c := byte 'T') (w := byte 'T' :: (rest ++ e))
    (D := InVersion .request .versionHT) (by simpa using hbegin)
    (by
      rintro s ⟨hs, htype, hfresh⟩
      refine ⟨s.goto .versionHT, ?_, rfl, htype, hfresh⟩
      simp only [visit, hs]
      rfl)
  rw [append_assoc] at hHT
  have hpre' : lead ++ target ++ v ++ e <+: text := by
    simpa using hpre
  obtain ⟨n, hn, hminor⟩ := reads_version hv hHT ((prefix_append _ e).trans hpre')
  have hgood : ¬ (n = -1 ∨ HttpType.request ≠ .request) := not_or.mpr ⟨hn, not_not.mpr rfl⟩
  rw [← append_assoc, ← append_assoc]
  apply hminor.line .requestLF he hpre' (.inl rfl)
  · rintro s ⟨hs, htype, hs_minor, _⟩
    refine ⟨s.goto .headerFieldStart, ?_, rfl, fun h => absurd h Bool.false_ne_true⟩
    simp only [visit, hs, Scan.versionMinor, htype, hs_minor, if_neg hgood]
    rfl
  · rintro s ⟨hs, htype, hs_minor, _⟩
    refine ⟨s.goto .requestLF, ?_, rfl, fun h => absurd h Bool.false_ne_true⟩
    simp only [visit, hs, Scan.versionMinor, htype, hs_minor, if_neg hgood]
    rfl

/-- The status is read. -/
def InStatus (n : Int) (s : Scan) : Prop := s.state = .responseStatus ∧ s.parser.status = n

/-- The text behind the status is read. -/
def InReason (s : Scan) : Prop := s.state = .responseReason ∧ s.start.isSome

theorem reads_responseVersion (hlead : lead ∈ leading) (hv : v ∈ version)
    (hpre : lead ++ v ++ space :: z <+: text) :
    Reads text (lead ++ v ++ [space]) fun s => s.state = .responseVersionSP ∧
      s.parser.status = -1 := by
  obtain ⟨r, hr⟩ := version_begin hv
  have hbegin : lead ++ byte 'H' :: byte 'T' :: byte 'T' :: (r ++ space :: z) <+: text := by
    rw [hr] at hpre
    simpa using hpre
  have hH := (reads_leading hlead hbegin).next (D := Before .typeCheck) hbegin (by
    rintro s ⟨hs, hfresh⟩
    refine ⟨s.goto .typeCheck, ?_, rfl, hfresh⟩
    simp only [visit, hs]
    rfl)
  have hbegin' : lead ++ [byte 'H'] ++ byte 'T' :: byte 'T' :: (r ++ space :: z) <+: text := by
    simpa using hbegin
  have hHT := hH.next (D := Before .response) hbegin' (by
    rintro s ⟨hs, hfresh⟩
    refine ⟨s.goto .response, ?_, rfl, hfresh⟩
    simp only [visit, hs]
    rfl)
  have htype := hHT.again (c := byte 'T') (w := r ++ space :: z)
    (D := InVersion .response .versionHT) (by simpa using hbegin)
    (by
      rintro s ⟨hs, hfresh⟩
      refine ⟨goto .versionHT { s with parser := { s.parser with type := .response } }, ?_,
        rfl, rfl, hfresh⟩
      simp only [visit, hs]
      rfl)
  rw [append_assoc] at htype
  obtain ⟨n, hn, hminor⟩ := reads_version hv htype ((prefix_append _ _).trans hpre)
  have hgood : ¬ (n = -1 ∨ HttpType.response ≠ .response) := not_or.mpr ⟨hn, not_not.mpr rfl⟩
  apply hminor.next hpre
  rintro s ⟨hs, hs_type, hs_minor, hstatus⟩
  refine ⟨s.goto .responseVersionSP, ?_, rfl, hstatus⟩
  simp only [visit, hs, Scan.versionMinor, hs_type, hs_minor, if_neg hgood]
  rfl

theorem number_begin {d : List UInt8} (hd : d ∈ number) :
    ∃ c rest, d = c :: rest ∧ isDigit c = true := by
  cases d with
  | nil => exact absurd rfl hd.2
  | cons c rest => exact ⟨c, rest, rfl, hd.1 c mem_cons_self⟩

theorem reads_responseStatus {st : List UInt8} (hlead : lead ∈ leading)
    (hst : st ∈ responseStatus) (hpre : lead ++ st ++ z <+: text) :
    ∃ n, n ≠ -1 ∧ Reads text (lead ++ st) (InStatus n) := by
  obtain ⟨l, hl, d, hd, rfl⟩ := mem_mul.mp hst
  obtain ⟨v, hv, g, hg, rfl⟩ := mem_mul.mp hl
  obtain ⟨sp, hsp, rfl⟩ := mem_gap hg
  have hversion : Reads text _ _ := reads_responseVersion hlead hv (z := sp ++ (d ++ z))
    (by simpa using hpre)
  have hgap := hversion.each_char hsp
    (by
      apply List.IsPrefix.trans _ hpre
      exact ⟨d ++ z, by simp⟩)
    (by
      rintro c rfl p s ⟨hs, hstatus⟩
      refine ⟨s, ?_, hs, hstatus⟩
      simp only [visit, hs]
      rfl)
  obtain ⟨x, r, rfl, hx⟩ := number_begin hd
  have hbegin := hgap.again (c := x) (w := r ++ z) (D := InStatus (-1))
    (by simpa using hpre)
    (by
      rintro s ⟨hs, hstatus⟩
      refine ⟨s.goto .responseStatus, ?_, rfl, hstatus⟩
      simp only [visit, hs]
      exact if_neg (isDigit_ne hx).2.2.2)
  have hnumber := Reads.fold (C := InStatus) (f := addDigit) hbegin hd.1
    (by
      apply List.IsPrefix.trans _ hpre
      exact ⟨z, by simp⟩)
    (by
      rintro c hc p n s ⟨hs, hn⟩
      obtain ⟨-, hcr, hlf, hspace⟩ := isDigit_ne hc
      refine ⟨{ s with parser := { s.parser with status := addDigit s.parser.status c } },
        ?_, hs, ?_⟩
      · simp only [visit, hs, Scan.responseStatus, if_neg hcr, if_neg hlf, if_neg hspace, hc]
        rfl
      · rw [← hn])
  refine ⟨_, hd.2, ?_⟩
  simpa using hnumber

theorem reads_statusEnd {n : Int} (h : Reads text pre (InStatus n)) (hn : n ≠ -1) (he : e ∈ eol)
    (hpre : pre ++ e <+: text) : Reads text (pre ++ e) (LineStart false) := by
  apply h.line .responseLF he hpre (.inr (.inl rfl))
  · rintro s ⟨hs, hstatus⟩
    refine ⟨s.goto .headerFieldStart, ?_, rfl, fun h => absurd h Bool.false_ne_true⟩
    simp only [visit, hs, Scan.responseStatus, hstatus, if_neg hn]
    rfl
  · rintro s ⟨hs, hstatus⟩
    refine ⟨s.goto .responseLF, ?_, rfl, fun h => absurd h Bool.false_ne_true⟩
    simp only [visit, hs, Scan.responseStatus, hstatus, if_neg hn]
    rfl

theorem reads_reasonStart (h : Reads text l fun s => s.state = .responseReasonStart)
    (hpre : l ++ [c] <+: text) (hc : c ≠ space) : Reads text l InReason := by
  apply h.again hpre
  intro s hs
  refine ⟨s.mark l.length .responseReason, ?_, rfl, rfl⟩
  simp only [visit, hs]
  exact if_neg hc

/-- The text behind the status may be anything up to the end of the line. -/
theorem reads_reason {n : Int} {r : List UInt8} (h : Reads text pre (InStatus n)) (hn : n ≠ -1)
    (hr : r ∈ plain) (he : e ∈ eol) (hpre : pre ++ [space] ++ r ++ e <+: text) :
    Reads text (pre ++ [space] ++ r ++ e) (LineStart false) := by
  have hspace :
      Reads text (pre ++ [space]) fun s => s.state = .responseReasonStart ∨ InReason s := by
    apply h.next (w := r ++ e) (by simpa using hpre)
    rintro s ⟨hs, hstatus⟩
    refine ⟨s.goto .responseReasonStart, ?_, .inl rfl⟩
    simp only [visit, hs, Scan.responseStatus, hstatus, if_neg hn]
    rfl
  have hall := hspace.each hr ((prefix_append _ e).trans hpre) (by
    intro c hc l hl hread
    have hreason (h : Reads text l InReason) : Reads text (l ++ [c]) InReason := by
      apply h.next hl
      rintro s ⟨hs, hstart⟩
      refine ⟨s, ?_, hs, hstart⟩
      simp only [visit, hs]
      exact if_neg hc
    rcases hread.or with hread | hread
    · by_cases hc_space : c = space
      · apply hread.next hl
        intro s hs
        refine ⟨s, ?_, .inl hs⟩
        simp only [visit, hs]
        exact if_pos hc_space
      · exact (hreason (reads_reasonStart hread hl hc_space)).mono fun s hs => .inr hs
    · exact (hreason hread).mono fun s hs => .inr hs)
  obtain ⟨x, e', rfl, hx⟩ : ∃ x e', e = x :: e' ∧ x ≠ space := by
    rcases he with rfl | rfl
    · exact ⟨lf, [], rfl, by decide⟩
    · exact ⟨cr, [lf], rfl, by decide⟩
  have hreason : Reads text (pre ++ [space] ++ r) InReason := by
    rcases hall.or with hread | hread
    · exact reads_reasonStart hread (begins_snoc hpre) hx
    · exact hread
  have hend (c : UInt8) (hc : c = cr ∨ c = lf) (s : Scan) (hs : InReason s) :
      ∃ s', s.visit text (pre ++ [space] ++ r).length c = .ok (.next s') ∧
        s'.state = if c = cr then .responseLF else .headerFieldStart := by
    obtain ⟨start, hstart⟩ := Option.isSome_iff_exists.mp hs.2
    simp only [visit, hs.1, Scan.responseReason, token, hstart, bind, Except.bind]
    rw [if_pos hc]
    exact ⟨_, rfl, rfl⟩
  apply hreason.line .responseLF he hpre (.inr (.inl rfl))
  · intro s hs
    obtain ⟨s', hvisit, hs'⟩ := hend lf (.inr rfl) s hs
    exact ⟨s', hvisit, hs', fun h => absurd h Bool.false_ne_true⟩
  · intro s hs
    obtain ⟨s', hvisit, hs'⟩ := hend cr (.inl rfl) s hs
    exact ⟨s', hvisit, hs', fun h => absurd h Bool.false_ne_true⟩

theorem reads_statusLine (hlead : lead ∈ leading) (hline : line ∈ statusLine)
    (hpre : lead ++ line <+: text) : Reads text (lead ++ line) (LineStart false) := by
  rcases hline with hline | hline
  · obtain ⟨st, hst, e, he, rfl⟩ := mem_mul.mp hline
    rw [← append_assoc] at hpre ⊢
    obtain ⟨n, hn, hstatus⟩ := reads_responseStatus hlead hst hpre
    exact reads_statusEnd hstatus hn he hpre
  · obtain ⟨l₁, hl₁, e, he, rfl⟩ := mem_mul.mp hline
    obtain ⟨l₂, hl₂, r, hr, rfl⟩ := mem_mul.mp hl₁
    obtain ⟨st, hst, _, rfl, rfl⟩ := mem_mul.mp hl₂
    have hpre' : lead ++ st ++ [space] ++ r ++ e <+: text := by
      simpa using hpre
    obtain ⟨n, hn, hstatus⟩ := reads_responseStatus hlead hst (z := [space] ++ r ++ e) (by
      simpa using hpre)
    have hall := reads_reason hstatus hn hr he hpre'
    simpa using hall

theorem reads_heading {u : List UInt8} (hu : u ∈ heading) (hpre : u <+: text) :
    Reads text u (LineStart false) := by
  obtain ⟨lead, hlead, line, hline, rfl⟩ := mem_mul.mp hu
  rcases hline with hline | hline
  · exact reads_requestLine hlead hline hpre
  · exact reads_statusLine hlead hline hpre

/-- The name of a field is read, which begins at a position. -/
def InName (start : Nat) (s : Scan) : Prop :=
  s.state = .headerFieldName ∧ s.parser.headerName = [] ∧ s.start = some start

/-- Behind the name of a field; the entry for it is made where the name ends. -/
def NameEnd (start : Nat) (sp : List UInt8) (s : Scan) : Prop :=
  s.state = .headerFieldNameEnd ∧ s.start = some start ∧
    (s.parser.headerName = [] ∧ sp = [] ∨ Named s)

def ValueStart (s : Scan) : Prop := s.state = .headerFieldValueStart ∧ Named s

def InValue (s : Scan) : Prop := s.state = .headerFieldValue ∧ s.start.isSome ∧ Named s

/-- The beginning of the text is what was read of it. -/
theorem take_length (h : pre ++ w <+: text) : text.take pre.length = pre := by
  obtain ⟨rest, rfl⟩ := h
  rw [append_assoc, List.take_left]

variable {name : List UInt8}

theorem reads_name (h : Reads text pre (LineStart named))
    (hname : name ∈ fieldName) (hpre : pre ++ name ++ c :: z <+: text)
    (hc : c = space ∨ c = byte ':') : Reads text (pre ++ name) (NameEnd pre.length []) := by
  obtain ⟨x, tail, rfl⟩ := List.exists_cons_of_ne_nil hname.1
  obtain ⟨hspace, hcolon, hends⟩ := hname.2 x mem_cons_self
  obtain ⟨hcr, hlf⟩ := not_or.mp hends
  have hpre' : pre ++ x :: (tail ++ c :: z) <+: text := by
    simpa using hpre
  have hstart := h.again (D := fun s => s.state = .headerFieldNameStart) hpre' (by
    rintro s ⟨hs, _⟩
    refine ⟨s.goto .headerFieldNameStart, ?_, rfl⟩
    simp only [visit, hs, if_neg hcr, if_neg hlf, if_neg hspace]
    rfl)
  have hbegin := hstart.again (D := InName pre.length) hpre' (by
    intro s hs
    refine ⟨Scan.mark pre.length .headerFieldName
      { s with parser := { s.parser with headerName := [] } }, ?_, rfl, rfl, rfl⟩
    simp only [visit, hs, if_neg hspace])
  have hall := hbegin.each_char hname.2 ((prefix_append _ _).trans hpre) (by
    rintro y ⟨hspace, hcolon, hends⟩ p s ⟨hs, hname, hstart⟩
    refine ⟨s, ?_, hs, hname, hstart⟩
    simp only [visit, hs, if_neg (not_or.mpr ⟨hspace, hcolon⟩)]
    exact if_neg hends)
  apply hall.again hpre
  rintro s ⟨hs, hname, hstart⟩
  refine ⟨s.goto .headerFieldNameEnd, ?_, rfl, hstart, .inl ⟨hname, rfl⟩⟩
  simp only [visit, hs, if_pos hc]
  rfl

/-- The spaces behind a name, with the colon behind them -/
theorem reads_colon (h : Reads text (pre ++ name) (NameEnd pre.length []))
    (hname : name ≠ []) (hsp : sp ∈ spaces) (hpre : pre ++ name ++ sp ++ byte ':' :: z <+: text) :
    Reads text (pre ++ name ++ sp ++ [byte ':']) ValueStart := by
  have hend : Reads text (pre ++ name ++ sp) (NameEnd pre.length sp) := by
    cases sp with
    | nil =>
      rw [append_nil]
      exact h
    | cons x sp =>
      have hx : x = space := hsp x mem_cons_self
      have hfirst : Reads text (pre ++ name ++ [x]) (NameEnd pre.length (x :: sp)) := by
        have hpre' : pre ++ name ++ x :: (sp ++ byte ':' :: z) <+: text := by
          simpa using hpre
        apply h.next hpre'
        rintro s ⟨hs, hstart, hnamed⟩
        have htake : text.take (pre ++ name).length = pre ++ name ++ [] := by
          rw [append_nil]
          exact take_length hpre'
        obtain ⟨s', hplaceholder, hs', hstart', hnamed'⟩ := placeholder_eq htake hstart (by
          rcases hnamed with ⟨hempty, _⟩ | hnamed
          · exact .inl ⟨hempty, rfl⟩
          · exact .inr ⟨hnamed, hname⟩)
        refine ⟨s', ?_, hs'.trans hs, hstart'.trans hstart, .inr (hnamed' hname)⟩
        simp only [visit, hs, Scan.headerFieldNameEnd, hplaceholder, bind, Except.bind]
        exact if_pos hx
      have hassoc : pre ++ name ++ x :: sp = pre ++ name ++ [x] ++ sp := by
        simp
      rw [hassoc] at hpre ⊢
      apply hfirst.each_char (P := (· = space)) (fun y hy => hsp y (mem_cons_of_mem x hy))
        ((prefix_append _ _).trans hpre)
      rintro y hy p s ⟨hs, hstart, hnamed⟩
      have hnamed' : Named s := hnamed.resolve_left fun h => absurd h.2 (by simp)
      refine ⟨s, ?_, hs, hstart, .inr hnamed'⟩
      simp only [visit, hs, Scan.headerFieldNameEnd, Scan.placeholder,
        if_neg hnamed'.1, bind, Except.bind, pure, Except.pure]
      exact if_pos hy
  apply hend.next hpre
  rintro s ⟨hs, hstart, hnamed⟩
  obtain ⟨s', hplaceholder, hs', hstart', hnamed'⟩ := placeholder_eq (take_length hpre) hstart (by
    rcases hnamed with hempty | hnamed
    · exact .inl hempty
    · exact .inr ⟨hnamed, hname⟩)
  have hmoved : s'.start ≠ some (pre ++ name ++ sp).length := by
    rw [hstart', hstart]
    intro heq
    have hlength := Option.some.inj heq
    have hpos := List.length_pos_iff.mpr hname
    simp only [List.length_append] at hlength
    omega
  refine ⟨s'.goto .headerFieldValueStart, ?_, rfl, hnamed' hname⟩
  simp only [visit, hs, Scan.headerFieldNameEnd, hplaceholder, bind, Except.bind]
  rw [if_neg (by decide), if_neg (not_or.mpr ⟨not_not.mpr rfl, hmoved⟩)]
  rfl

theorem eol_begin (he : e ∈ eol) : ∃ x e', e = x :: e' ∧ Ends x := by
  rcases he with rfl | rfl
  · exact ⟨lf, [], rfl, .inr rfl⟩
  · exact ⟨cr, [lf], rfl, .inl rfl⟩

theorem reads_valueStart (h : Reads text l ValueStart) (hpre : l ++ [c] <+: text)
    (hspace : c ≠ space) (hends : ¬ Ends c) : Reads text l InValue := by
  obtain ⟨hcr, hlf⟩ := not_or.mp hends
  apply h.again hpre
  rintro s ⟨hs, hnamed⟩
  refine ⟨s.mark l.length .headerFieldValue, ?_, rfl, rfl, hnamed⟩
  simp only [visit, hs, if_neg hspace, if_neg hcr, if_neg hlf]

theorem reads_valueChar (h : Reads text l fun s => ValueStart s ∨ InValue s)
    (hpre : l ++ [c] <+: text) (hends : ¬ Ends c) :
    Reads text (l ++ [c]) fun s => ValueStart s ∨ InValue s := by
  have hvalue (h : Reads text l InValue) : Reads text (l ++ [c]) InValue := by
    apply h.next hpre
    rintro s ⟨hs, hstart, hnamed⟩
    refine ⟨s, ?_, hs, hstart, hnamed⟩
    simp only [visit, hs]
    exact if_neg hends
  rcases h.or with hread | hread
  · by_cases hspace : c = space
    · apply hread.next hpre
      rintro s ⟨hs, hnamed⟩
      refine ⟨s, ?_, .inl ⟨hs, hnamed⟩⟩
      simp only [visit, hs]
      exact if_pos hspace
    · exact (hvalue (reads_valueStart hread hpre hspace hends)).mono fun s hs => .inr hs
  · exact (hvalue hread).mono fun s hs => .inr hs

/-- The value of a field is taken where its line ends. -/
theorem visit_valueEnd (hc : c = cr ∨ c = lf) (hs : s.state = .headerFieldValueEnd)
    (hstart : s.start.isSome) (hnamed : Named s) :
    ∃ s', s.visit text p c = .ok (.next s') ∧
      s'.state = (if c = cr then .headerFieldLF else .headerFieldStart) ∧ Named s' := by
  obtain ⟨start, hstart'⟩ := Option.isSome_iff_exists.mp hstart
  obtain ⟨entry, hentry⟩ := Option.isSome_iff_exists.mp hnamed.2
  simp only [visit, hs, Scan.headerFieldValueEnd, if_neg (not_not.mpr hc), token, hstart',
    hentry, bind, Except.bind]
  split
  · exact ⟨_, rfl, rfl, named_setValue (s := s) hnamed rfl⟩
  · exact ⟨_, rfl, rfl, hnamed⟩

theorem reads_value {r : List UInt8} (h : Reads text pre ValueStart) (hr : r ∈ plain)
    (he : e ∈ eol) (hpre : pre ++ r ++ e <+: text) :
    Reads text (pre ++ r ++ e) (LineStart true) := by
  have hstart : Reads text pre fun s => ValueStart s ∨ InValue s := h.mono fun s hs => .inl hs
  have hall := hstart.each hr ((prefix_append _ e).trans hpre)
    fun c hc l hl hread => reads_valueChar hread hl hc
  rcases hall.or with hread | hread
  · apply hread.line .headerFieldLF he hpre (.inr (.inr rfl))
    · rintro s ⟨hs, hnamed⟩
      refine ⟨s.goto .headerFieldStart, ?_, rfl, fun _ => hnamed⟩
      simp only [visit, hs]
      rfl
    · rintro s ⟨hs, hnamed⟩
      refine ⟨s.goto .headerFieldLF, ?_, rfl, fun _ => hnamed⟩
      simp only [visit, hs]
      rfl
  · have hend : Reads text (pre ++ r) fun s => s.state = .headerFieldValueEnd ∧ s.start.isSome ∧
        Named s := by
      obtain ⟨x, e', rfl, hx⟩ := eol_begin he
      apply hread.again hpre
      rintro s ⟨hs, hmark, hnamed⟩
      refine ⟨s.goto .headerFieldValueEnd, ?_, rfl, hmark, hnamed⟩
      simp only [visit, hs]
      exact if_pos hx
    apply hend.line .headerFieldLF he hpre (.inr (.inr rfl))
    · rintro s ⟨hs, hmark, hnamed⟩
      obtain ⟨s', hvisit, hs', hnamed'⟩ := visit_valueEnd (.inr rfl) hs hmark hnamed
      exact ⟨s', hvisit, hs', fun _ => hnamed'⟩
    · rintro s ⟨hs, hmark, hnamed⟩
      obtain ⟨s', hvisit, hs', hnamed'⟩ := visit_valueEnd (.inl rfl) hs hmark hnamed
      exact ⟨s', hvisit, hs', fun _ => hnamed'⟩

theorem reads_field {f : List UInt8} (h : Reads text pre (LineStart named)) (hf : f ∈ field)
    (hpre : pre ++ f <+: text) : Reads text (pre ++ f) (LineStart true) := by
  obtain ⟨l₁, hl₁, e, he, rfl⟩ := mem_mul.mp hf
  obtain ⟨l₂, hl₂, r, hr, rfl⟩ := mem_mul.mp hl₁
  obtain ⟨l₃, hl₃, _, rfl, rfl⟩ := mem_mul.mp hl₂
  obtain ⟨name, hname, sp, hsp, rfl⟩ := mem_mul.mp hl₃
  have hpre' : pre ++ name ++ sp ++ byte ':' :: (r ++ e) <+: text := by
    simpa using hpre
  obtain ⟨x, tail, hfirst, hx⟩ : ∃ x tail, sp ++ byte ':' :: (r ++ e) = x :: tail ∧
      (x = space ∨ x = byte ':') := by
    cases sp with
    | nil => exact ⟨_, _, rfl, .inr rfl⟩
    | cons x sp => exact ⟨x, _, rfl, .inl (hsp x mem_cons_self)⟩
  have hend := reads_name (c := x) (z := tail) h hname
    (by
      rw [← hfirst, ← append_assoc]
      exact hpre')
    hx
  have hcolon := reads_colon hend hname.1 hsp hpre'
  have hvalue := reads_value hcolon hr he (by simpa using hpre)
  simpa using hvalue

/-- The spaces at the beginning of a line -/
theorem reads_gap (h : Reads text pre (LineStart named)) (hg : g ∈ gap) (hpre : pre ++ g <+: text) :
    Reads text (pre ++ g) fun s => s.state = .headerFieldContStart ∧ (named = true → Named s) := by
  obtain ⟨sp, hsp, rfl⟩ := mem_gap hg
  have hfirst := h.next
    (D := fun s => s.state = .headerFieldContStart ∧ (named = true → Named s)) hpre (by
      rintro s ⟨hs, hnamed⟩
      refine ⟨s.goto .headerFieldContStart, ?_, rfl, hnamed⟩
      simp only [visit, hs]
      rfl)
  have hassoc : pre ++ space :: sp = pre ++ [space] ++ sp := by
    simp
  rw [hassoc] at hpre ⊢
  apply hfirst.each_char hsp hpre
  rintro c hc p s ⟨hs, hnamed⟩
  refine ⟨s, ?_, hs, hnamed⟩
  simp only [visit, hs]
  exact if_pos hc

/-- The text behind the spaces is read, which begins at a position. -/
def InCont (named : Bool) (start : Nat) (s : Scan) : Prop :=
  s.state = .headerFieldCont ∧ s.start = some start ∧ (named = true → Named s)

theorem reads_cont (h : Reads text pre (LineStart named)) (hg : g ∈ gap)
    (hpre : pre ++ g ++ c :: z <+: text) (hc : c ≠ space) :
    Reads text (pre ++ g) (InCont named (pre ++ g).length) := by
  apply (reads_gap h hg ((prefix_append _ _).trans hpre)).again hpre
  rintro s ⟨hs, hnamed⟩
  refine ⟨s.mark (pre ++ g).length .headerFieldCont, ?_, rfl, rfl, hnamed⟩
  simp only [visit, hs]
  exact if_neg hc

theorem visit_contEnd {t : List UInt8} (hpre : pre ++ g ++ t ++ w <+: text) (ht : t ≠ [])
    (hc : c = cr ∨ c = lf) (hs : InCont true (pre ++ g).length s) :
    ∃ s', s.visit text (pre ++ g ++ t).length c = .ok (.next s') ∧
      s'.state = (if c = cr then .headerFieldLF else .headerFieldStart) ∧ Named s' := by
  obtain ⟨hs, hstart, hnamed⟩ := hs
  obtain ⟨entry, hentry⟩ := Option.isSome_iff_exists.mp (hnamed rfl).2
  have htoken := token_eq (take_length hpre) hstart
  simp only [visit, hs, Scan.headerFieldCont, if_pos hc, htoken, if_pos ht, bind, Except.bind,
    if_neg (hnamed rfl).1, hentry]
  exact ⟨_, rfl, rfl, named_setValue (s := s) (hnamed rfl) rfl⟩

theorem reads_continuation {f : List UInt8} (h : Reads text pre (LineStart true))
    (hf : f ∈ continuation) (hpre : pre ++ f <+: text) :
    Reads text (pre ++ f) (LineStart true) := by
  obtain ⟨l, hl, e, he, rfl⟩ := mem_mul.mp hf
  obtain ⟨g, hg, t, ht, rfl⟩ := mem_mul.mp hl
  have hpre' : pre ++ g ++ t ++ e <+: text := by
    simpa using hpre
  have hbegin : Reads text (pre ++ g) (InCont true (pre ++ g).length) := by
    obtain ⟨x, tail, rfl⟩ := List.exists_cons_of_ne_nil ht.1.1
    apply reads_cont h hg (c := x) (z := tail ++ e)
    · simpa using hpre
    · intro heq
      exact ht.2 (congrArg some heq)
  have hall := hbegin.each_char ht.1.2 ((prefix_append _ e).trans hpre') (by
    rintro c hc p s ⟨hs, hstart, hnamed⟩
    refine ⟨s, ?_, hs, hstart, hnamed⟩
    simp only [visit, hs]
    exact if_neg hc)
  rw [← append_assoc, ← append_assoc]
  apply hall.line .headerFieldLF he hpre' (.inr (.inr rfl))
  · intro s hs
    obtain ⟨s', hvisit, hs', hnamed'⟩ := visit_contEnd hpre' ht.1.1 (.inr rfl) hs
    exact ⟨s', hvisit, hs', fun _ => hnamed'⟩
  · intro s hs
    obtain ⟨s', hvisit, hs', hnamed'⟩ := visit_contEnd hpre' ht.1.1 (.inl rfl) hs
    exact ⟨s', hvisit, hs', fun _ => hnamed'⟩

/-- Each line that is not blank takes the parser to the start of the next one. -/
theorem reads_lines (hl : l ∈ lines named) (hpre : l <+: text) :
    Reads text l (LineStart named) := by
  cases named with
  | false => exact reads_heading hl hpre
  | true =>
    obtain ⟨u, hu, v, hv, rfl⟩ := mem_mul.mp
      (show l ∈ heading * field * (field + continuation)∗ from hl)
    obtain ⟨x, hx, f, hf, rfl⟩ := mem_mul.mp hu
    have hfield : Reads text (x ++ f) (LineStart true) := by
      have hpre' : x ++ f <+: text := (prefix_append _ v).trans hpre
      exact reads_field (reads_heading hx ((prefix_append x f).trans hpre')) hf hpre'
    have hall : x ++ f ++ v <+: text → Reads text (x ++ f ++ v) (LineStart true) := by
      apply kstar_induction (I := fun v => x ++ f ++ v <+: text → Reads text (x ++ f ++ v)
        (LineStart true)) hv
      · intro _
        rw [append_nil]
        exact hfield
      · intro u _ b hb ih hbegins
        rw [← append_assoc] at hbegins ⊢
        have hlines := ih ((prefix_append _ b).trans hbegins)
        rcases hb with hb | hb
        · exact reads_field hlines hb hbegins
        · exact reads_continuation hlines hb hbegins
    exact hall hpre

/-- Where an empty line began with CR, LF completes the message. -/
theorem reads_endLF (h : Reads text pre fun s => s.state = .headerFieldEndLF)
    (hpre : pre ++ [lf] <+: text) : Reads text (pre ++ [lf]) fun s => s.state = .complete := by
  apply h.next hpre
  intro s hs
  refine ⟨s.goto .complete, ?_, rfl⟩
  simp only [visit, hs]
  rfl

/-- An empty line completes a message. -/
theorem reads_emptyLine (h : Reads text pre (LineStart named)) (he : e ∈ eol)
    (hpre : pre ++ e <+: text) : Reads text (pre ++ e) fun s => s.state = .complete := by
  rcases he with rfl | rfl
  · apply h.next hpre
    rintro s ⟨hs, -⟩
    refine ⟨s.goto .complete, ?_, rfl⟩
    simp only [visit, hs]
    rfl
  · have hreturn : Reads text (pre ++ [cr]) fun s => s.state = .headerFieldEndLF := by
      apply h.next hpre
      rintro s ⟨hs, -⟩
      refine ⟨s.goto .headerFieldEndLF, ?_, rfl⟩
      simp only [visit, hs]
      rfl
    have hassoc : pre ++ [cr, lf] = pre ++ [cr] ++ [lf] := by
      simp
    rw [hassoc] at hpre ⊢
    exact reads_endLF hreturn hpre

/-- A line of spaces completes a message. -/
theorem reads_blankLine {b : List UInt8} (h : Reads text pre (LineStart named))
    (hb : b ∈ blankLine) (hpre : pre ++ b <+: text) :
    Reads text (pre ++ b) fun s => s.state = .complete := by
  obtain ⟨g, hg, e, he, rfl⟩ := mem_mul.mp hb
  have hpre' : pre ++ g ++ e <+: text := by
    simpa using hpre
  have hbegin : Reads text (pre ++ g) (InCont named (pre ++ g).length) := by
    obtain ⟨x, e', rfl, hx⟩ := eol_begin he
    apply reads_cont h hg hpre'
    rintro rfl
    exact absurd hx (by decide)
  have hend (c : UInt8) (hc : c = cr ∨ c = lf) (s : Scan) (hs : InCont named (pre ++ g).length s) :
      ∃ s', s.visit text (pre ++ g).length c = .ok (.next s') ∧
        s'.state = if c = cr then .headerFieldEndLF else .complete := by
    obtain ⟨hs, hstart, _⟩ := hs
    have htake : text.take (pre ++ g).length = pre ++ g ++ [] := by
      rw [append_nil]
      exact take_length hpre'
    simp only [visit, hs, Scan.headerFieldCont, if_pos hc, token_eq htake hstart, bind,
      Except.bind]
    exact ⟨_, rfl, rfl⟩
  rw [← append_assoc]
  rcases he with rfl | rfl
  · exact hbegin.next hpre' (hend lf (.inr rfl))
  · have hreturn : Reads text (pre ++ g ++ [cr]) fun s => s.state = .headerFieldEndLF :=
      hbegin.next hpre' (hend cr (.inl rfl))
    have hassoc : pre ++ g ++ [cr, lf] = pre ++ g ++ [cr] ++ [lf] := by
      simp
    rw [hassoc] at hpre' ⊢
    exact reads_endLF hreturn hpre'

/-- A message is complete for a fresh parser, whatever follows. -/
theorem parseLoop_message {u : List UInt8} (hu : u ∈ message) (rest : List UInt8) :
    ∃ s, parseLoop (u ++ rest) 0 { parser := {} } = .ok (u.length, s) ∧ s.state = .complete := by
  obtain ⟨h, hh, b, hb, rfl⟩ := mem_mul.mp hu
  obtain ⟨named, hlines⟩ : ∃ named, h ∈ lines named := by
    rcases hh with hh | hh
    · exact ⟨false, hh⟩
    · exact ⟨true, hh⟩
  have hpre : h ++ b <+: h ++ b ++ rest := prefix_append _ rest
  have hstart := reads_lines hlines ((prefix_append h b).trans hpre)
  obtain ⟨_, s, hrun, hs⟩ : Reads (h ++ b ++ rest) (h ++ b) fun s => s.state = .complete := by
    rcases hb with hb | hb
    · exact reads_emptyLine hstart hb hpre
    · exact reads_blankLine hstart hb hpre
  refine ⟨s, ?_, hs⟩
  rw [hrun, HttpParser.parseLoop_end (.inr hs)]

end Http

end Ice.Connection
