import Ice.IcePatch2.FileInfo
import Ice.Lib.OrderedRanges

/-!
# File lists and their checksums

A directory tree is listed into records, each with a checksum over its path and what is in the
file, and the records are spread over 256 nodes, each with a checksum over those of its records.
-/

namespace Ice.IcePatch2

mutual

/-- What is on disk under a name -/
inductive Node
  | regular (content : List Byte) (executable : Bool)
  | directory (content : Entries)
  | special

/-- The names that `readDirectory` gives, and what is under each -/
inductive Entries
  | nil
  | cons (name : Path) (node : Node) (rest : Entries)

end

/-- A record with what was read from the file -/
structure Listed extends LargeFileInfo where
  content : List Byte
  deriving DecidableEq, Repr

variable (sha1 : List Byte → List Byte)

/-- SHA-1, or zeros where there is nothing to give to it. -/
def digest (x : List Byte) : List Byte := if x = [] then List.replicate 20 0 else sha1 x

section

variable (basePath : Path) (compress : Nat) (sizeBZ2 : Path → Nat)

/-- What is never listed -/
def skipped (relPath : Path) : Bool :=
  relPath = checksumFile ∨ relPath = logFile ∨
    ignoreSuffix (simplify (basePath ++ slash :: relPath))

mutual

/-- `getFileInfoSeqInternal`: the size is that of the compressed file, if there is one. -/
def getFileInfoSeqInternal (relPath : Path) : Node → List Listed
  | .regular content executable =>
    if skipped basePath relPath then []
    else
      [{ path := relPath
         checksum := digest sha1 (relPath ++ content)
         size := if content ≠ [] ∧ 0 < compress then sizeBZ2 relPath else 0
         executable
         content }]
  | .directory content =>
    if skipped basePath relPath then []
    else
      { path := relPath
        checksum := digest sha1 relPath
        size := -1
        executable := false
        content := [] } :: getContent relPath content
  | .special => []

/-- The loop over what `readDirectory` gives -/
def getContent (relPath : Path) : Entries → List Listed
  | .nil => []
  | .cons name node rest =>
    getFileInfoSeqInternal (simplify (relPath ++ slash :: name)) node ++ getContent relPath rest

end

/-- `getFileInfoSeq` -/
def getFileInfoSeq (node : Node) : List Listed :=
  Lib.unique (fun lhs rhs => lhs.fileInfoEqual rhs.toLargeFileInfo)
    (Lib.sort (fun lhs rhs => lhs.fileInfoLess rhs.toLargeFileInfo)
      (getFileInfoSeqInternal sha1 (simplify basePath) compress sizeBZ2 (simplify [dot]) node))

end

/-- `FileTree1` -/
structure FileTree1 where
  files : List LargeFileInfo
  checksum : List Byte

/-- `FileTree0` -/
structure FileTree0 where
  nodes : Byte → FileTree1
  checksum : List Byte

/-- The 21 bytes for a record: the checksum and the flag. -/
def block (info : LargeFileInfo) : List Byte :=
  info.checksum.rightpad 20 0 ++ [if info.executable then 1 else 0]

/-- The bytes `allChecksums1` -/
def allChecksums1 (files : List LargeFileInfo) : List Byte := files.flatMap block

def getFileTree1 (infoSeq : List LargeFileInfo) (i : Byte) : FileTree1 :=
  let files := infoSeq.filter fun p => p.checksum.head? = some i
  { files, checksum := digest sha1 (allChecksums1 files) }

/-- The bytes `allChecksums0` -/
def allChecksums0 (nodes : Byte → FileTree1) : List Byte :=
  (List.finRange 256).flatMap fun i => (nodes i).checksum

/-- `getFileTree0` -/
def getFileTree0 (infoSeq : List LargeFileInfo) : FileTree0 :=
  let nodes := getFileTree1 sha1 infoSeq
  { nodes, checksum := digest sha1 (allChecksums0 nodes) }

/-- The record tells what is on disk. -/
structure Accurate (e : Listed) : Prop where
  checksum : e.checksum = digest sha1 (e.path ++ e.content)
  directory : e.kind = -1 → e.content = [] ∧ e.executable = false
  kind : e.kind = 0 ∨ e.kind = -1

variable {sha1} {basePath : Path} {compress : Nat} {sizeBZ2 : Path → Nat}

mutual

theorem accurate_of_mem_internal {relPath : Path} {e : Listed} : ∀ {node : Node},
    e ∈ getFileInfoSeqInternal sha1 basePath compress sizeBZ2 relPath node → Accurate sha1 e
  | .regular content executable, h => by
    unfold getFileInfoSeqInternal at h
    split at h
    · cases h
    · cases List.mem_singleton.mp h
      have hkind := LargeFileInfo.kind_of_nonneg (a :=
        { path := relPath
          checksum := digest sha1 (relPath ++ content)
          size := if content ≠ [] ∧ 0 < compress then sizeBZ2 relPath else 0
          executable }) (by dsimp only; split <;> omega)
      constructor
      · rfl
      · intro hdirectory
        cases hkind.symm.trans hdirectory
      · exact Or.inl hkind
  | .directory content, h => by
    unfold getFileInfoSeqInternal at h
    split at h
    · cases h
    · rcases List.mem_cons.mp h with rfl | h
      · constructor
        · simp
        · simp
        · exact Or.inr rfl
      · exact accurate_of_mem_content h
  | .special, h => by
    unfold getFileInfoSeqInternal at h
    cases h

theorem accurate_of_mem_content {relPath : Path} {e : Listed} : ∀ {content : Entries},
    e ∈ getContent sha1 basePath compress sizeBZ2 relPath content → Accurate sha1 e
  | .nil, h => by
    unfold getContent at h
    cases h
  | .cons name node rest, h => by
    unfold getContent at h
    rcases List.mem_append.mp h with h | h
    · exact accurate_of_mem_internal h
    · exact accurate_of_mem_content h

end

theorem accurate_of_mem {node : Node} {e : Listed}
    (h : e ∈ getFileInfoSeq sha1 basePath compress sizeBZ2 node) : Accurate sha1 e := by
  have hsorted := (Lib.unique_sublist _ _).subset h
  exact accurate_of_mem_internal ((Lib.perm_sort _ _).subset hsorted)

/-- No two records of a list are the same in what is compared. -/
theorem pairwise_getFileInfoSeq (node : Node) :
    (getFileInfoSeq sha1 basePath compress sizeBZ2 node).Pairwise fun a b => a.key < b.key := by
  apply Lib.pairwise_unique
  · intro a b
    exact LargeFileInfo.fileInfoEqual_iff
  · apply Lib.pairwise_sort
    intro a b
    exact LargeFileInfo.fileInfoLess_iff

end Ice.IcePatch2
