import Mathlib

/-!
# Paths and file information

The paths of IcePatch2 are strings of bytes, which `simplify` brings into a normal form, and the
records of the file lists are compared by path, kind and checksum, and then by the flag.
-/

namespace Ice.IcePatch2

abbrev Byte := Fin 256

/-- A `string` -/
abbrev Path := List Byte

/-- The bytes of a literal -/
def bytes (s : String) : Path := s.toUTF8.toList.map UInt8.toFin

scoped instance byte_neZero : NeZero 256 := ⟨by decide⟩

scoped instance byte_lawfulBEq : LawfulBEq Byte := inferInstance

def slash : Byte := 47

def dot : Byte := 46

def checksumFile : Path := bytes "IcePatch2.sum"

def logFile : Path := bytes "IcePatch2.log"

/-- `IceUtilInternal::isAlpha` -/
def isAlpha (c : Byte) : Bool := 65 ≤ c ∧ c ≤ 90 ∨ 97 ≤ c ∧ c ≤ 122

namespace Simplify

/-- The loop over `//` -/
def slashes : Path → Path
  | [] => []
  | a :: l => if a = slash ∧ l.head? = some slash then slashes l else a :: slashes l

/-- The loop over `/./` -/
def dots : Path → Path
  | [] => []
  | a :: l =>
    if a = slash ∧ l.take 2 = [dot, slash] then dots (l.drop 1) else a :: dots l
termination_by l => l.length
decreasing_by
  · simp only [List.length_drop, List.length_cons]
    omega
  · simp

/-- The loop over a leading `/../` -/
def parents (path : Path) : Path :=
  if path.take 4 = [slash, dot, dot, slash] then parents (path.drop 3) else path
termination_by path.length
decreasing_by
  rename_i h
  have hlength := congrArg List.length h
  simp only [List.length_take, List.length_cons, List.length_nil] at hlength
  simp only [List.length_drop]
  omega

/-- `./` at the beginning -/
def current (path : Path) : Path := if path.take 2 = [dot, slash] then path.drop 2 else path

/-- `/.` at the end -/
def last (path : Path) : Path :=
  if path.drop (path.length - 2) = [slash, dot] then path.take (path.length - 2) else path

/-- A drive, as it is on Windows, before `rest` -/
def isDrive (path rest : Path) : Bool :=
  match path with
  | a :: b :: l => isAlpha a ∧ b = 58 ∧ l = rest
  | _ => false

/-- `/` at the end -/
def trailing (path : Path) : Path :=
  if path.getLast? = some slash then path.dropLast else path

end Simplify

open Simplify in
/-- `simplify` -/
def simplify (path : Path) : Path :=
  let result := current (parents (dots (slashes path)))
  if result = [slash, dot] ∨ isDrive result [slash, dot] then result.dropLast
  else
    let result := last result
    if result = [slash] ∨ isDrive result [slash] then result
    else
      let result := trailing result
      if result = [slash, dot, dot] then [slash] else result

/-- `getBasename` of a path in normal form -/
def basename (path : Path) : Path := (path.reverse.takeWhile (· ≠ slash)).reverse

/-- `getSuffix`: no suffix begins before the last slash. -/
def getSuffix (path : Path) : Path :=
  let name := basename (simplify path)
  if dot ∈ name then (name.reverse.takeWhile (· ≠ dot)).reverse else []

/-- `ignoreSuffix` -/
def ignoreSuffix (path : Path) : Bool :=
  getSuffix path ∈ [bytes "md5", bytes "tot", bytes "bz2", bytes "bz2temp"]

/-- `LargeFileInfo` -/
structure LargeFileInfo where
  path : Path
  checksum : List Byte
  size : Int
  executable : Bool
  deriving DecidableEq, Repr

namespace LargeFileInfo

/-- What is compared of the size: a file or a directory. -/
def kind (info : LargeFileInfo) : Int := if 0 < info.size then 0 else info.size

/-- `FileInfoEqual` -/
def fileInfoEqual (lhs rhs : LargeFileInfo) : Bool :=
  if lhs.path ≠ rhs.path then false
  else if lhs.kind ≠ rhs.kind then false
  else if lhs.executable ≠ rhs.executable then false
  else lhs.checksum = rhs.checksum

/-- `compareWithoutFlags` -/
def compareWithoutFlags (lhs rhs : LargeFileInfo) : Int :=
  if lhs.path < rhs.path then -1
  else if rhs.path < lhs.path then 1
  else if lhs.kind < rhs.kind then -1
  else if rhs.kind < lhs.kind then 1
  else if lhs.checksum < rhs.checksum then -1
  else if rhs.checksum < lhs.checksum then 1
  else 0

/-- `FileInfoWithoutFlagsLess` -/
def fileInfoWithoutFlagsLess (lhs rhs : LargeFileInfo) : Bool := lhs.compareWithoutFlags rhs < 0

/-- `FileInfoLess` -/
def fileInfoLess (lhs rhs : LargeFileInfo) : Bool :=
  if lhs.compareWithoutFlags rhs < 0 then true
  else if 0 < lhs.compareWithoutFlags rhs then false
  else lhs.executable < rhs.executable

/-- What records are compared by without the flag. -/
def keyWithoutFlags (info : LargeFileInfo) : Path ×ₗ Int ×ₗ List Byte :=
  toLex (info.path, toLex (info.kind, info.checksum))

/-- What records are compared by. -/
def key (info : LargeFileInfo) : (Path ×ₗ Int ×ₗ List Byte) ×ₗ Bool :=
  toLex (info.keyWithoutFlags, info.executable)

variable {a b : LargeFileInfo}

/-- A file, whatever its size -/
theorem kind_of_nonneg (h : 0 ≤ a.size) : a.kind = 0 := by
  unfold kind
  split_ifs
  all_goals omega

theorem key_eq_iff : a.key = b.key ↔ a.path = b.path ∧ a.kind = b.kind ∧ a.checksum = b.checksum ∧
    a.executable = b.executable := by
  simp [key, keyWithoutFlags, and_assoc]

theorem fileInfoEqual_iff : a.fileInfoEqual b = true ↔ a.key = b.key := by
  rw [key_eq_iff]
  unfold fileInfoEqual
  split_ifs with hpath hkind hexecutable
  · simp [hpath]
  · simp [hkind]
  · simp [hexecutable]
  · simp only [ne_eq, not_not] at hpath hkind hexecutable
    simp [hpath, hkind, hexecutable]

/-- The comparison has the sign of the order of the keys. -/
theorem compareWithoutFlags_cases (a b : LargeFileInfo) :
    (a.compareWithoutFlags b = -1 ∧ a.keyWithoutFlags < b.keyWithoutFlags) ∨
      (a.compareWithoutFlags b = 0 ∧ a.keyWithoutFlags = b.keyWithoutFlags) ∨
        (a.compareWithoutFlags b = 1 ∧ b.keyWithoutFlags < a.keyWithoutFlags) := by
  unfold compareWithoutFlags keyWithoutFlags
  rcases lt_trichotomy a.path b.path with hpath | hpath | hpath
  · simp [hpath, Prod.Lex.toLex_lt_toLex]
  · rcases lt_trichotomy a.kind b.kind with hkind | hkind | hkind
    · simp [hpath, hkind, Prod.Lex.toLex_lt_toLex]
    · rcases lt_trichotomy a.checksum b.checksum with h | h | h
      · simp [hpath, hkind, h, Prod.Lex.toLex_lt_toLex]
      · simp [hpath, hkind, h]
      · simp [hpath, hkind, h, h.not_gt, Prod.Lex.toLex_lt_toLex]
    · simp [hpath, hkind, hkind.not_gt, Prod.Lex.toLex_lt_toLex]
  · simp [hpath, hpath.not_gt, Prod.Lex.toLex_lt_toLex]

theorem fileInfoWithoutFlagsLess_iff :
    a.fileInfoWithoutFlagsLess b = true ↔ a.keyWithoutFlags < b.keyWithoutFlags := by
  unfold fileInfoWithoutFlagsLess
  rcases compareWithoutFlags_cases a b with ⟨h, hkey⟩ | ⟨h, hkey⟩ | ⟨h, hkey⟩
  · simp [h, hkey]
  · simp [h, hkey]
  · simp [h, hkey.not_gt]

theorem fileInfoLess_iff : a.fileInfoLess b = true ↔ a.key < b.key := by
  unfold fileInfoLess key
  rw [Prod.Lex.toLex_lt_toLex]
  rcases compareWithoutFlags_cases a b with ⟨h, hkey⟩ | ⟨h, hkey⟩ | ⟨h, hkey⟩
  · simp [h, hkey]
  · simp [h, hkey]
  · simp [h, hkey.not_gt, hkey.ne']

end LargeFileInfo

end Ice.IcePatch2
