import Mathlib.Data.List.Infix
import Ice.IcePatch2.Disk
import Ice.IcePatch2.PathComponents

/-!
# Files sent to a client

`FileServerI` opens a file of the data directory for a path that a client sends, on a system other
than Windows. What the system answers for a file is a parameter.
-/

namespace Ice.IcePatch2

/-- `isspace` -/
def isSpace (c : Byte) : Bool := 9 ≤ c ∧ c ≤ 13 ∨ c = 32

/-- `IceUtilInternal::isAbsolutePath` -/
def isAbsolutePath (path : Path) : Bool := (path.dropWhile isSpace).head? = some slash

/-- The name that the system is given for a string -/
def cString (path : Path) : Path := path.takeWhile (· ≠ 0)

/-- What the system does with an open file, or the text of its error -/
structure Descriptor where
  size : Except Path Nat
  lseek (pos : Int) : Except Path Unit
  read (pos : Int) (num : Nat) : Except Path (List Byte)

structure System where
  /-- What is behind the name of a file -/
  file (name : Path) : Except Path Descriptor
  /-- The text of a number -/
  digits (n : Int) : Path

namespace FileServer

/-- A `..` among the components, as it is looked for in the text of a path -/
def hasParent (path : Path) : Bool :=
  path = dotdot || decide ([slash, dot, dot, slash] <:+: path) ||
    decide (3 ≤ path.length) &&
      (path.take 3 = [dot, dot, slash] || path.drop (path.length - 3) = [slash, dot, dot])

/-- The content of an open file: the buffer has as many bytes as were asked for. -/
def content (system : System) (path : Path) (descriptor : Descriptor) (pos num : Int)
    (largeFile : Bool) : Except Path (List Byte) := do
  if largeFile = false then
    match descriptor.size with
    | .error text => throw (bytes "cannot stat \x60" ++ path ++ bytes "':\n" ++ text)
    | .ok size =>
      if 0x7FFFFFFF < size then
        throw (bytes "cannot encode size \x60" ++ system.digits size ++ bytes "' for file \x60" ++
          path ++ bytes "' as Ice::Int\n")
  match descriptor.lseek pos with
  | .error text =>
    throw (bytes "cannot seek position " ++ system.digits pos ++ bytes " in file \x60" ++ path ++
      bytes "': " ++ text)
  | .ok _ => pure ()
  match descriptor.read pos num.toNat with
  | .error text => throw (bytes "cannot read \x60" ++ path ++ bytes "': " ++ text)
  | .ok data => pure (data ++ List.replicate (num.toNat - data.length) 0)

/-- `getFileCompressedInternal`: the names of the files that are opened, and the buffer -/
def getFileCompressedInternal (system : System) (dataDir pa : Path) (pos num : Int)
    (largeFile : Bool) : List Path × Except Path (List Byte) :=
  if isAbsolutePath pa then ([], .error (bytes "illegal absolute path \x60" ++ pa ++ bytes "'"))
  else
    let path := simplify pa
    if hasParent path then
      ([], .error (bytes "illegal \x60..' component in path \x60" ++ path ++ bytes "'"))
    else if num ≤ 0 ∨ pos < 0 then ([], .ok [])
    else
      let absolutePath := dataDir ++ slash :: (path ++ suffixBZ2)
      ([cString absolutePath],
        match system.file (cString absolutePath) with
        | .error text =>
          .error (bytes "cannot open \x60" ++ path ++ bytes "' for reading: " ++ text)
        | .ok descriptor => content system path descriptor pos num largeFile)

open Simplify

variable {path x y : Path} {cs ds : List Path}

theorem cString_of_notMem (h : 0 ∉ path) : cString path = path := by
  apply List.takeWhile_eq_self_iff.mpr
  intro c hc
  have hne : c ≠ 0 := by
    rintro rfl
    exact h hc
  simpa using hne

theorem parts_split (x y : Path) : parts (x ++ slash :: y) = parts x ++ parts y :=
  List.splitOn_append_cons_self x y

theorem body_of_ne_nil (h : cs ≠ []) : ∃ y, body cs = slash :: y := by
  cases cs with
  | nil => exact absurd rfl h
  | cons c cs => exact ⟨_, body_cons⟩

theorem join_split (h : cs ≠ []) (c : Path) (ds : List Path) :
    join (cs ++ c :: ds) = join cs ++ slash :: (c ++ body ds) := by
  cases cs with
  | nil => exact absurd rfl h
  | cons d cs => simp [join_cons]

/-- What is looked for in the text is there exactly if `..` is a component. -/
theorem hasParent_iff : hasParent path = true ↔ dotdot ∈ parts path := by
  have hparts : parts dotdot = [dotdot] := rfl
  simp only [hasParent, Bool.or_eq_true, Bool.and_eq_true, decide_eq_true_eq]
  constructor
  · rintro ((rfl | ⟨x, y, rfl⟩) | ⟨_, h | h⟩)
    · exact List.mem_singleton_self _
    · rw [show x ++ [slash, dot, dot, slash] ++ y = x ++ slash :: (dotdot ++ slash :: y) by
        simp [dotdot], parts_split, parts_split, hparts]
      simp
    · rw [← List.take_append_drop 3 path, h,
        show [dot, dot, slash] ++ path.drop 3 = dotdot ++ slash :: path.drop 3 from rfl,
        parts_split, hparts]
      simp
    · rw [← List.take_append_drop (path.length - 3) path, h,
        show [slash, dot, dot] = slash :: dotdot from rfl, parts_split, hparts]
      simp
  · intro hmem
    obtain ⟨before, after, hsplit⟩ := List.append_of_mem hmem
    have hpath := join_parts path
    rw [hsplit] at hpath
    by_cases hbefore : before = []
    · rw [hbefore, List.nil_append, join_cons] at hpath
      by_cases hafter : after = []
      · rw [hafter, body_nil, List.append_nil] at hpath
        exact .inl (.inl hpath.symm)
      · obtain ⟨y, hy⟩ := body_of_ne_nil hafter
        rw [hy] at hpath
        refine .inr ⟨?_, .inl ?_⟩
        · rw [← hpath]
          simp [dotdot]
        · rw [← hpath]
          rfl
    · rw [join_split hbefore] at hpath
      by_cases hafter : after = []
      · rw [hafter, body_nil, List.append_nil] at hpath
        refine .inr ⟨?_, .inr ?_⟩
        · rw [← hpath]
          simp [dotdot]
        · rw [← hpath, List.length_append]
          exact List.drop_left
      · obtain ⟨y, hy⟩ := body_of_ne_nil hafter
        rw [hy] at hpath
        refine .inl (.inr ⟨join before, y, ?_⟩)
        rw [← hpath]
        simp [dotdot]

theorem head_of_not_isAbsolutePath (h : isAbsolutePath path = false) :
    path.head? ≠ some slash := by
  intro hhead
  obtain ⟨x, rfl⟩ := List.head?_eq_some_iff.mp hhead
  rw [isAbsolutePath, List.dropWhile_cons_of_neg (by decide)] at h
  simp at h

theorem mem_parts_iff_names : dotdot ∈ parts path ↔ dotdot ∈ names path := by
  rw [names, List.mem_filter]
  exact ⟨fun h => ⟨h, rfl⟩, And.left⟩

theorem hasParent_simplify (h : path.head? ≠ some slash) :
    hasParent (simplify path) = true ↔ dotdot ∈ names path := by
  obtain ⟨_, hnames, _⟩ := simplify_spec path
  rw [hasParent_iff, mem_parts_iff_names, hnames, components, if_neg h]

/-- The file of a path: the directory, the names of the path and the suffix, except that a `.` may
stand for no name and a slash may be behind a drive. -/
def fileOf (dataDir pa : Path) : Path :=
  dataDir ++ slash :: (relativeForm (names pa) (lastPart pa) ++ suffixBZ2)

/-- An absolute path, or one with a component `..` -/
def Illegal (pa : Path) : Prop := isAbsolutePath pa = true ∨ dotdot ∈ names pa

variable {a : Byte}

theorem mem_body (h : a ∈ body cs) : a = slash ∨ ∃ c ∈ cs, a ∈ c := by
  obtain ⟨c, hc, hmem⟩ := List.mem_flatMap.mp h
  rcases List.mem_cons.mp hmem with rfl | hmem
  · exact .inl rfl
  · exact .inr ⟨c, hc, hmem⟩

theorem mem_join (h : a ∈ join cs) : a = slash ∨ ∃ c ∈ cs, a ∈ c := by
  cases cs with
  | nil => cases h
  | cons c cs =>
    apply mem_body
    rw [body_eq (List.cons_ne_nil c cs)]
    exact List.mem_cons_of_mem _ h

theorem mem_of_mem_part {c : Path} (hc : c ∈ parts path) (ha : a ∈ c) : a ∈ path := by
  obtain ⟨before, after, hsplit⟩ := List.append_of_mem hc
  rw [← join_parts path, hsplit]
  by_cases hbefore : before = []
  · rw [hbefore, List.nil_append, join_cons]
    exact List.mem_append_left _ ha
  · rw [join_split hbefore]
    simp [ha]

/-- What is written for a path has the characters of the path, and slashes. -/
theorem mem_relativeForm (h : a ∈ relativeForm (names path) (lastPart path)) :
    a = slash ∨ a ∈ path := by
  have hnames : ∀ c ∈ names path, a ∈ c → a ∈ path := fun c hc =>
    mem_of_mem_part (List.mem_of_mem_filter hc)
  revert h hnames
  generalize names path = cs
  intro h hnames
  match cs, h, hnames with
  | [], h, _ => exact .inr (mem_of_mem_part (List.getLast_mem _) h)
  | [c], h, hnames =>
    simp only [relativeForm] at h
    split at h
    · rcases List.mem_append.mp h with h | h
      · exact .inr (hnames c List.mem_cons_self h)
      · exact .inl (List.mem_singleton.mp h)
    · exact .inr (hnames c List.mem_cons_self h)
  | c :: d :: cs, h, hnames =>
    rcases mem_join h with rfl | ⟨e, he, ha⟩
    · exact .inl rfl
    · exact .inr (hnames e he ha)

/-- What is written for names: they are joined, except that a `.` may stand for no name and a slash
may be behind a drive. -/
theorem relativeForm_cases {z : Path} (hz : cs = [] → z = [] ∨ z = [dot]) :
    relativeForm cs z = join cs ∨ cs = [] ∧ relativeForm cs z = [dot] ∨
      ∃ c, cs = [c] ∧ isDrive c [] = true ∧ relativeForm cs z = c ++ [slash] := by
  match cs, hz with
  | [], hz =>
    rcases hz rfl with h | h
    · exact .inl h
    · exact .inr (.inl ⟨rfl, h⟩)
  | [c], _ =>
    by_cases h : isDrive c [] = true ∧ z ≠ c
    · exact .inr (.inr ⟨c, rfl, h.1, if_pos h⟩)
    · refine .inl ((if_neg h).trans ?_)
      rw [join_cons, body_nil, List.append_nil]
  | c :: d :: cs, _ => exact .inl rfl

theorem notMem_fileOf {dataDir pa : Path} (hdir : 0 ∉ dataDir) (hpa : 0 ∉ pa) :
    0 ∉ fileOf dataDir pa := by
  unfold fileOf
  intro h
  rcases List.mem_append.mp h with h | h
  · exact hdir h
  · rcases List.mem_cons.mp h with h | h
    · exact absurd h (by decide)
    · rcases List.mem_append.mp h with h | h
      · rcases mem_relativeForm h with h | h
        · exact absurd h (by decide)
        · exact hpa h
      · exact absurd h (by decide +kernel)

section

variable (system : System) (dataDir pa : Path) (pos num : Int) (largeFile : Bool)

/-- A request is refused, opens nothing or opens the file of the path. -/
theorem getFileCompressedInternal_cases :
    let r := getFileCompressedInternal system dataDir pa pos num largeFile
    Illegal pa ∧ (∃ text, r = ([], .error text)) ∨
      ¬Illegal pa ∧ (num ≤ 0 ∨ pos < 0) ∧ r = ([], .ok []) ∨
      ¬Illegal pa ∧ (0 < num ∧ 0 ≤ pos) ∧ r.1 = [cString (fileOf dataDir pa)] := by
  intro r
  unfold r getFileCompressedInternal
  by_cases habs : isAbsolutePath pa = true
  · rw [if_pos habs]
    exact .inl ⟨.inl habs, _, rfl⟩
  · rw [if_neg habs]
    have hhead := head_of_not_isAbsolutePath (Bool.eq_false_iff.mpr habs)
    have hform : simplify pa = relativeForm (names pa) (lastPart pa) := by
      rw [simplify_eq_normalForm, normalForm, if_neg hhead]
    dsimp only
    by_cases hparent : hasParent (simplify pa) = true
    · rw [if_pos hparent]
      exact .inl ⟨.inr ((hasParent_simplify hhead).mp hparent), _, rfl⟩
    · rw [if_neg hparent]
      have hlegal : ¬Illegal pa := fun h => h.elim habs fun h =>
        hparent ((hasParent_simplify hhead).mpr h)
      by_cases hnothing : num ≤ 0 ∨ pos < 0
      · rw [if_pos hnothing]
        exact .inr (.inl ⟨hlegal, hnothing, rfl⟩)
      · rw [if_neg hnothing, hform]
        exact .inr (.inr ⟨hlegal, by omega, rfl⟩)

/-- Exactly the requests for illegal paths are refused. Another one opens nothing, if nothing is
asked for, or opens one file: that of the names of the path, none of which is `..`. A `.` may stand
for no name, a slash may be behind a drive, and the name of the file ends where the string has a
NUL. A path is simplified in one go, and keeps its components. -/
theorem getFileCompressedInternal_confined (system : System) (dataDir pa : Path) (pos num : Int)
    (largeFile : Bool) :
    let r := getFileCompressedInternal system dataDir pa pos num largeFile
    (Illegal pa ∧ (∃ text, r = ([], .error text)) ∨
      ¬Illegal pa ∧ (num ≤ 0 ∨ pos < 0) ∧ r = ([], .ok []) ∨
      ¬Illegal pa ∧ (0 < num ∧ 0 ≤ pos) ∧ dotdot ∉ names pa ∧ ∃ form,
        (form = join (names pa) ∨ names pa = [] ∧ form = [dot] ∨
          ∃ c, names pa = [c] ∧ isDrive c [] = true ∧ form = c ++ [slash]) ∧
        r.1 = [cString (dataDir ++ slash :: (form ++ suffixBZ2))] ∧
        (0 ∈ dataDir ∨ 0 ∈ pa ∨ r.1 = [dataDir ++ slash :: (form ++ suffixBZ2)])) ∧
      ∀ path, simplify (simplify path) = simplify path ∧
        components (simplify path) = components path := by
  intro r
  constructor
  · rcases getFileCompressedInternal_cases system dataDir pa pos num largeFile with
      hrefused | hnothing | ⟨hlegal, hasked, h⟩
    · exact .inl hrefused
    · exact .inr (.inl hnothing)
    · have hnames : dotdot ∉ names pa := fun h => hlegal (.inr h)
      refine .inr (.inr ⟨hlegal, hasked, hnames, _, relativeForm_cases (lastPart_spec pa), h, ?_⟩)
      by_cases hdir : 0 ∈ dataDir
      · exact .inl hdir
      · by_cases hpa : 0 ∈ pa
        · exact .inr (.inl hpa)
        · refine .inr (.inr (h.trans ?_))
          rw [cString_of_notMem (notMem_fileOf hdir hpa)]
          rfl
  · intro path
    obtain ⟨_, _, hcomponents, hself⟩ := simplify_spec path
    exact ⟨hself, hcomponents⟩

end

/-- The path `.` has no names, and the suffix is behind its dot. -/
theorem getFileCompressedInternal_dot :
    (getFileCompressedInternal ⟨fun _ => .error [], fun _ => []⟩ (bytes "d") (bytes ".") 0 1
        true).1 = [bytes "d/..bz2"] ∧
      names (bytes ".") = [] ∧ bytes "d/..bz2" ≠ bytes "d" ++ slash :: (join [] ++ suffixBZ2) := by
  decide +kernel

end FileServer

end Ice.IcePatch2
