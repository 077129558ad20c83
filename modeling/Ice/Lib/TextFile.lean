import Mathlib.Data.List.DropRight

/-!
# Reading a file line by line

A file is a list of bytes, and its lines are the pieces that end with a newline, with a last one
that may not. An input stream on a file has a position and the flags that an end of the file
leaves; reading itself does not fail.
-/

namespace Ice.Lib

open List (cons_append cons_ne_nil flatten_cons length_append length_cons mem_cons)

/-- `'\n'` -/
def newline : UInt8 := 10

/-- The lines of a file, each with the newline that ends it -/
def rawLines : List UInt8 → List (List UInt8)
  | [] => []
  | c :: x =>
    if c = newline then [c] :: rawLines x
    else
      match rawLines x with
      | [] => [[c]]
      | l :: ls => (c :: l) :: ls

variable {x y line : List UInt8} {l : List UInt8} {ls : List (List UInt8)}

@[simp] theorem flatten_rawLines (x : List UInt8) : (rawLines x).flatten = x := by
  induction x with
  | nil => rfl
  | cons c x ih =>
    unfold rawLines
    split
    · rw [flatten_cons, ih, List.singleton_append]
    · cases h : rawLines x with
      | nil | cons l ls =>
        rw [h] at ih
        rw [← ih]
        rfl

@[simp] theorem rawLines_eq_nil : rawLines x = [] ↔ x = [] := by
  constructor
  · intro h
    rw [← flatten_rawLines x, h, List.flatten_nil]
  · rintro rfl
    rfl

/-- The first line ends with the first newline. -/
theorem rawLines_append (h : newline ∉ line) (y : List UInt8) :
    rawLines (line ++ newline :: y) = (line ++ [newline]) :: rawLines y := by
  induction line with
  | nil =>
    rw [List.nil_append, rawLines, if_pos rfl]
    rfl
  | cons c line ih =>
    obtain ⟨hne, hmem⟩ := not_or.mp (mem_cons.not.mp h)
    rw [cons_append, rawLines, if_neg (Ne.symm hne), ih hmem]
    rfl

/-- The last line need not end with a newline. -/
theorem rawLines_last (h : newline ∉ line) (hne : line ≠ []) : rawLines line = [line] := by
  induction line with
  | nil => exact absurd rfl hne
  | cons c line ih =>
    obtain ⟨hc, hmem⟩ := not_or.mp (mem_cons.not.mp h)
    rw [rawLines, if_neg (Ne.symm hc)]
    cases line with
    | nil => rfl
    | cons d line => rw [ih hmem (cons_ne_nil _ _)]

/-- A file is empty, or one line without a newline, or goes on behind its first line. -/
theorem file_cases (x : List UInt8) :
    x = [] ∨ (x ≠ [] ∧ newline ∉ x) ∨ ∃ line y, newline ∉ line ∧ x = line ++ newline :: y := by
  by_cases hmem : newline ∈ x
  · obtain ⟨line, y, heq, hline⟩ := List.eq_append_cons_of_mem hmem
    exact Or.inr (Or.inr ⟨line, y, hline, heq⟩)
  · by_cases hnil : x = []
    · exact Or.inl hnil
    · exact Or.inr (Or.inl ⟨hnil, hmem⟩)

theorem ne_nil_of_mem_rawLines (h : l ∈ rawLines x) : l ≠ [] := by
  induction x generalizing l with
  | nil => cases h
  | cons c x ih =>
    unfold rawLines at h
    split at h
    · rcases mem_cons.mp h with rfl | hmem
      · exact cons_ne_nil _ _
      · exact ih hmem
    · cases hlines : rawLines x with
      | nil =>
        rw [hlines] at h
        rw [List.mem_singleton.mp h]
        exact cons_ne_nil _ _
      | cons l' ls =>
        rw [hlines] at h ih
        rcases mem_cons.mp h with rfl | hmem
        · exact cons_ne_nil _ _
        · exact ih (List.mem_cons_of_mem _ hmem)

/-- From a position inside a line on, all lines but the first are lines of the file. -/
theorem rawLines_drop (hy : y ≠ []) (x : List UInt8) :
    ∃ before, before ≠ [] ∧ rawLines (x ++ y) = before ++ (rawLines y).tail ∧
      before.dropLast.flatten.length ≤ x.length := by
  induction x with
  | nil =>
    cases h : rawLines y with
    | nil => exact absurd (rawLines_eq_nil.mp h) hy
    | cons l ls =>
      refine ⟨[l], cons_ne_nil _ _, h, ?_⟩
      exact Nat.zero_le _
  | cons c x ih =>
    obtain ⟨before, hne, hlines, hle⟩ := ih
    by_cases hc : c = newline
    · refine ⟨[c] :: before, cons_ne_nil _ _, ?_, ?_⟩
      · rw [cons_append, rawLines, if_pos hc, hlines]
        rfl
      · rw [List.dropLast_cons_of_ne_nil hne, flatten_cons, length_append,
          List.length_singleton, length_cons]
        omega
    · cases before with
      | nil => exact absurd rfl hne
      | cons l before =>
        refine ⟨(c :: l) :: before, cons_ne_nil _ _, ?_, ?_⟩
        · rw [cons_append, rawLines, if_neg hc, hlines]
          rfl
        · cases before with
          | nil => exact Nat.zero_le _
          | cons l' before =>
            rw [List.dropLast_cons_of_ne_nil (cons_ne_nil _ _), flatten_cons,
              length_append] at hle ⊢
            rw [length_cons, length_cons]
            omega

/-- An `ifstream` -/
structure Ifstream where
  content : List UInt8
  pos : Nat := 0
  eof : Bool := false
  fail : Bool := false
  deriving DecidableEq, Repr

namespace Ifstream

variable (s : Ifstream)

def good : Bool := !s.eof && !s.fail

/-- `clear()` -/
def clear : Ifstream := { s with eof := false, fail := false }

/-- `seekg(pos)`, for a position in the file -/
def seekg (pos : Nat) : Ifstream := { s with pos, eof := false }

/-- `seekg(0, ios::end)` -/
def seekEnd : Ifstream := s.seekg s.content.length

def tellg : Int := if s.fail then -1 else s.pos

/-- `getline` of a stream that is good -/
def getline : List UInt8 × Ifstream :=
  let rest := s.content.drop s.pos
  let line := rest.takeWhile (· ≠ newline)
  if line.length < rest.length then (line, { s with pos := s.pos + line.length + 1 })
  else (line, { s with pos := s.content.length, eof := true, fail := rest = [] })

variable {s}

/-- At the end of the file -/
theorem getline_nil (h : s.content.drop s.pos = []) :
    s.getline = ([], { s with pos := s.content.length, eof := true, fail := true }) := by
  unfold getline
  rw [h]
  rfl

/-- The last line, without a newline -/
theorem getline_last (hne : s.content.drop s.pos ≠ []) (h : newline ∉ s.content.drop s.pos) :
    s.getline = (s.content.drop s.pos,
      { s with pos := s.content.length, eof := true, fail := false }) := by
  have hline : (s.content.drop s.pos).takeWhile (· ≠ newline) = s.content.drop s.pos := by
    apply List.takeWhile_eq_self_iff.mpr
    intro c hc
    simp only [ne_eq, decide_eq_true_eq]
    rintro rfl
    exact h hc
  unfold getline
  dsimp only
  rw [hline, if_neg (Nat.lt_irrefl _), decide_eq_false hne]

/-- A line that ends with a newline -/
theorem getline_line (hline : newline ∉ line) (h : s.content.drop s.pos = line ++ newline :: y) :
    s.getline = (line, { s with pos := s.pos + line.length + 1 }) := by
  have htake : (line ++ newline :: y).takeWhile (· ≠ newline) = line := by
    rw [List.takeWhile_append_of_pos, List.takeWhile_cons_of_neg, List.append_nil]
    · simp
    · intro c hc
      simp only [ne_eq, decide_eq_true_eq]
      rintro rfl
      exact hline hc
  unfold getline
  dsimp only
  rw [h, htake, if_pos (by rw [length_append, length_cons]; omega)]

/-- Each line that is read brings the end of the file nearer. -/
theorem getline_lt (h : s.good = true) :
    s.getline.2.content.length - s.getline.2.pos + (if s.getline.2.good then 1 else 0) <
      s.content.length - s.pos + (if s.good then 1 else 0) := by
  rw [if_pos h]
  rcases file_cases (s.content.drop s.pos) with hnil | ⟨hne, hmem⟩ | ⟨line, y, hline, heq⟩
  · rw [getline_nil hnil]
    simp [good]
  · rw [getline_last hne hmem]
    simp [good]
  · rw [getline_line hline heq]
    have hlength := congrArg List.length heq
    rw [List.length_drop, length_append, length_cons] at hlength
    dsimp only
    have hbit : (if ({ s with pos := s.pos + line.length + 1 } : Ifstream).good then 1 else 0) ≤
        1 := by
      split
      · exact le_refl 1
      · exact Nat.zero_le 1
    omega

end Ifstream

end Ice.Lib
