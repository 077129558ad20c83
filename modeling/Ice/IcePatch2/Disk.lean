import Ice.IcePatch2.Listing

/-!
# The data directory

The files and directories below a data directory, by their paths in normal form, and what the
functions on files do with them. What fails throws an exception.
-/

namespace Ice.IcePatch2

open List (append_assoc cons_append lookup_cons mem_append mem_append_right mem_cons_self)
open Option (bind_some)

/-- What is under a path -/
inductive Item
  | directory
  | regular (content : List Byte) (executable : Bool)
  deriving DecidableEq, Repr

/-- Everything in the data directory, which is itself `.` -/
abbrev Disk := List (Path × Item)

/-- `getDirname`, of a path below the data directory -/
def getDirname (path : Path) : Path :=
  if slash ∈ path then ((path.reverse.dropWhile (· ≠ slash)).drop 1).reverse else [dot]

/-- The suffix of a file that is compressed -/
def suffixBZ2 : Path := bytes ".bz2"

/-- The path is below the directory. -/
def Below (dir path : Path) : Prop := dir ++ [slash] <+: path

instance (dir path : Path) : Decidable (Below dir path) :=
  inferInstanceAs (Decidable (dir ++ [slash] <+: path))

namespace Disk

variable (disk : Disk)

def get (path : Path) : Option Item := disk.lookup path

def erase (path : Path) : Disk := disk.filter fun e => decide (e.1 ≠ path)

def put (path : Path) (item : Item) : Disk := (path, item) :: disk.erase path

/-- `remove` -/
def remove (path : Path) : Option Disk :=
  match disk.get path with
  | none => none
  | some .directory =>
    if disk.any fun e => getDirname e.1 = path then none else some (disk.erase path)
  | some (.regular ..) => some (disk.erase path)

/-- `removeRecursive`, the errors of which are ignored -/
def removeRecursive (path : Path) : Disk :=
  disk.filter fun e => decide (e.1 ≠ path ∧ ¬Below path e.1)

/-- `mkdir`, where it is not an error that something is under the path -/
def mkdir (path : Path) : Option Disk :=
  match disk.get path with
  | some _ => some disk
  | none =>
    if disk.get (getDirname path) = some .directory then some (disk.put path .directory) else none

/-- `createDirectoryRecursive` -/
def createDirectoryRecursive (path : Path) : Option Disk :=
  ((path.inits.filter fun q => Below q path) ++ [path]).foldlM mkdir disk

/-- `fopen`, to write -/
def openFile (path : Path) : Option Disk :=
  match disk.get path with
  | some .directory => none
  | some (.regular _ executable) => some (disk.put path (.regular [] executable))
  | none =>
    if disk.get (getDirname path) = some .directory then some (disk.put path (.regular [] false))
    else none

/-- `setFileFlags` -/
def setFileFlags (path : Path) (executable : Bool) : Option Disk :=
  match disk.get path with
  | none => none
  | some .directory => some disk
  | some (.regular content _) => some (disk.put path (.regular content executable))

/-- A file is received as `.bz2` and decompressed, as in `Decompressor::run`. -/
def decompress (path : Path) (content : List Byte) (executable : Bool) : Option Disk := do
  let disk ← disk.createDirectoryRecursive (getDirname path)
  let disk ← (disk.removeRecursive (path ++ suffixBZ2)).openFile (path ++ suffixBZ2)
  let disk ← disk.openFile path
  let disk ← (disk.put path (.regular content false)).setFileFlags path executable
  disk.remove (path ++ suffixBZ2)

end Disk

variable {disk : Disk} {dir path q : Path} {item : Item}

theorem getDirname_eq (h : slash ∈ path) :
    ∃ name, slash ∉ name ∧ path = getDirname path ++ slash :: name := by
  have hmem : slash ∈ path.reverse := List.mem_reverse.mpr h
  obtain ⟨as, bs, heq, hout⟩ := List.eq_append_cons_of_mem hmem
  have hdrop : path.reverse.dropWhile (· ≠ slash) = slash :: bs := by
    rw [heq, List.dropWhile_append_of_pos]
    · rw [List.dropWhile_cons_of_neg (by simp)]
    · intro x hx
      rw [decide_eq_true_iff]
      rintro rfl
      exact hout hx
  refine ⟨as.reverse, fun hmem => hout (List.mem_reverse.mp hmem), ?_⟩
  unfold getDirname
  rw [if_pos h, hdrop, List.drop_succ_cons, List.drop_zero]
  rw [← List.reverse_reverse path, heq]
  simp

theorem below_getDirname (h : slash ∈ path) : Below (getDirname path) path := by
  obtain ⟨name, -, heq⟩ := getDirname_eq h
  refine ⟨name, ?_⟩
  rw [append_assoc, List.singleton_append, ← heq]

theorem getDirname_append {name : Path} (dir : Path) (h : slash ∉ name) :
    getDirname (dir ++ slash :: name) = dir := by
  obtain ⟨name', hname', heq⟩ := @getDirname_eq (dir ++ slash :: name) (by simp)
  have hlength : name.length = name'.length := by
    rcases List.append_eq_append_iff.mp heq with ⟨as, -, has⟩ | ⟨as, -, has⟩
    · cases as with
      | nil =>
        cases has
        rfl
      | cons a as =>
        rw [cons_append] at has
        obtain ⟨-, rfl⟩ := List.cons.inj has
        exact absurd (mem_append_right as (mem_cons_self ..)) h
    · cases as with
      | nil =>
        cases has
        rfl
      | cons a as =>
        rw [cons_append] at has
        obtain ⟨-, rfl⟩ := List.cons.inj has
        exact absurd (mem_append_right as (mem_cons_self ..)) hname'
  exact (List.append_inj_left' heq (by simp [hlength])).symm

/-- A suffix does not change the directory. -/
theorem getDirname_append_suffix {suffix : Path} (path : Path) (h : slash ∉ suffix) :
    getDirname (path ++ suffix) = getDirname path := by
  by_cases hpath : slash ∈ path
  · obtain ⟨name, hname, heq⟩ := getDirname_eq hpath
    have hout : slash ∉ name ++ suffix := by
      rw [mem_append, not_or]
      exact ⟨hname, h⟩
    rw [heq, append_assoc, cons_append, getDirname_append _ hout,
      getDirname_append _ hname]
  · unfold getDirname
    rw [if_neg hpath, if_neg]
    rw [mem_append, not_or]
    exact ⟨hpath, h⟩

theorem getDirname_of_not_mem (h : slash ∉ path) : getDirname path = [dot] := if_neg h

theorem Below.mem_slash (h : Below dir path) : slash ∈ path := by
  obtain ⟨t, rfl⟩ := h
  simp

/-- The directory of what is below a directory is that directory or below it as well. -/
theorem Below.getDirname (h : Below dir path) :
    getDirname path = dir ∨ Below dir (getDirname path) := by
  obtain ⟨name, hname, heq⟩ := getDirname_eq h.mem_slash
  obtain ⟨t, ht⟩ := h
  rw [heq, append_assoc, List.singleton_append] at ht
  rcases List.append_eq_append_iff.mp ht with ⟨as, has, has'⟩ | ⟨as, has, has'⟩
  · cases as with
    | nil =>
      left
      rw [has, List.append_nil]
    | cons a as =>
      right
      rw [cons_append] at has'
      obtain ⟨rfl, -⟩ := List.cons.inj has'
      refine ⟨as, ?_⟩
      rw [has, append_assoc, List.singleton_append]
  · cases as with
    | nil =>
      left
      rw [has, List.append_nil]
    | cons a as =>
      rw [cons_append] at has'
      obtain ⟨-, rfl⟩ := List.cons.inj has'
      exact absurd (mem_append_right as (mem_cons_self ..)) hname

theorem Below.trans (h : Below dir q) (h' : Below q path) : Below dir path := by
  obtain ⟨s, rfl⟩ := h
  obtain ⟨t, rfl⟩ := h'
  exact ⟨s ++ slash :: t, by simp⟩

theorem Below.lt (h : Below dir path) : dir < path := by
  obtain ⟨t, rfl⟩ := h
  rw [append_assoc]
  induction dir with
  | nil => exact List.nil_lt_cons ..
  | cons a dir ih => exact List.cons_lt_cons_self.mpr ih

namespace Disk

theorem get_filter (disk : Disk) (f : Path → Bool) (q : Path) :
    get (disk.filter fun e => f e.1) q = if f q then disk.get q else none := by
  unfold get
  induction disk with
  | nil => simp
  | cons e disk ih =>
    obtain ⟨path, item⟩ := e
    by_cases hq : q = path
    · subst hq
      by_cases hf : f q = true
      · simp [hf]
      · rw [Bool.not_eq_true] at hf
        rw [List.filter_cons_of_neg (by simp [hf]), ih, hf]
        rfl
    · rw [lookup_cons, beq_eq_false_iff_ne.mpr hq, ← ih, List.filter_cons]
      split
      · rw [lookup_cons, beq_eq_false_iff_ne.mpr hq]
      · rfl

@[simp] theorem get_erase (disk : Disk) (path q : Path) :
    (disk.erase path).get q = if q = path then none else disk.get q := by
  unfold erase
  rw [get_filter disk (fun p => decide (p ≠ path))]
  by_cases hq : q = path
  · simp [hq]
  · simp [hq]

@[simp] theorem get_put (disk : Disk) (path q : Path) (item : Item) :
    (disk.put path item).get q = if q = path then some item else disk.get q := by
  by_cases hq : q = path
  · rw [hq, if_pos rfl]
    exact List.lookup_cons_self
  · rw [if_neg hq]
    have herase := get_erase disk path q
    rw [if_neg hq] at herase
    rw [← herase]
    unfold put get
    rw [lookup_cons, beq_eq_false_iff_ne.mpr hq]

theorem get_removeRecursive (disk : Disk) (path q : Path) :
    (disk.removeRecursive path).get q = if q = path ∨ Below path q then none else disk.get q := by
  unfold removeRecursive
  rw [get_filter disk (fun p => decide (p ≠ path ∧ ¬Below path p))]
  by_cases hq : q = path ∨ Below path q
  · rw [if_pos hq, if_neg]
    simpa [not_or, imp_iff_not_or] using hq
  · rw [if_neg hq, if_pos]
    simpa [not_or] using hq

theorem exists_get_of_mem {e : Path × Item} (h : e ∈ disk) : ∃ item, disk.get e.1 = some item := by
  rw [← Option.isSome_iff_exists]
  unfold get
  rw [List.lookup_isSome_iff]
  exact ⟨e, h, beq_self_eq_true e.1⟩

theorem mem_of_get (h : disk.get path = some item) : (path, item) ∈ disk := by
  unfold get at h
  rw [List.lookup_eq_some_iff] at h
  obtain ⟨l, m, rfl, -⟩ := h
  exact mem_append_right l (mem_cons_self ..)

/-- A directory can only be removed if nothing is in it. -/
theorem any_getDirname (disk : Disk) (path : Path) :
    (disk.any fun e => decide (getDirname e.1 = path)) = true ↔
      ∃ q item, disk.get q = some item ∧ getDirname q = path := by
  rw [List.any_eq_true]
  constructor
  · rintro ⟨e, he, hdir⟩
    obtain ⟨item, hitem⟩ := exists_get_of_mem he
    exact ⟨e.1, item, hitem, of_decide_eq_true hdir⟩
  · rintro ⟨q, item, hitem, hdir⟩
    exact ⟨(q, item), mem_of_get hitem, decide_eq_true hdir⟩

end Disk

/-- Every file and directory is in a directory, and no file is left compressed. -/
structure Formed (disk : Disk) : Prop where
  root : disk.get [dot] = some .directory
  parent : ∀ p item, disk.get p = some item → p ≠ [dot] →
    disk.get (getDirname p) = some .directory
  names : ∀ p item, disk.get p = some item → ¬suffixBZ2 <:+ p

/-- Only what is under the path is changed. -/
def Stored (disk : Disk) (path : Path) (item : Item) (disk' : Disk) : Prop :=
  ∀ q, disk'.get q = if q = path then some item else disk.get q

variable {disk' : Disk}

theorem Formed.directory_of_below (h : Formed disk) (hbelow : Below dir path)
    (hpath : disk.get path = some item) : disk.get dir = some .directory := by
  induction hn : path.length using Nat.strong_induction_on generalizing path item with
  | _ n ih =>
    have hne : path ≠ [dot] := by
      rintro rfl
      have hmem := hbelow.mem_slash
      exact absurd hmem (by decide)
    have hparent := h.parent path item hpath hne
    rcases hbelow.getDirname with heq | hbelow'
    · rwa [heq] at hparent
    · obtain ⟨name, -, heq⟩ := getDirname_eq hbelow.mem_slash
      have hless : (getDirname path).length < n := by
        rw [← hn]
        conv_rhs => rw [heq]
        simp
      exact ih _ hless hbelow' hparent rfl

theorem Formed.not_bz2 (h : Formed disk) (path : Path) :
    disk.get (path ++ suffixBZ2) = none ∧ ∀ q, Below (path ++ suffixBZ2) q → disk.get q = none := by
  have hfree : disk.get (path ++ suffixBZ2) = none := by
    rw [Option.eq_none_iff_forall_ne_some]
    exact fun item hitem => h.names _ item hitem (List.suffix_append ..)
  refine ⟨hfree, ?_⟩
  intro q hq
  rw [Option.eq_none_iff_forall_ne_some]
  intro item hitem
  rw [h.directory_of_below hq hitem] at hfree
  cases hfree

theorem remove_eq (hpath : disk.get path = some item)
    (hempty : item = .directory → ∀ q item, disk.get q = some item → getDirname q ≠ path) :
    disk.remove path = some (disk.erase path) := by
  unfold Disk.remove
  rw [hpath]
  cases item with
  | directory =>
    dsimp only
    rw [if_neg]
    rw [Disk.any_getDirname]
    rintro ⟨q, item, hq, heq⟩
    exact hempty rfl q item hq heq
  | regular content executable => rfl

theorem formed_erase (h : Formed disk) (hpath : path ≠ [dot])
    (hempty : ∀ q item, disk.get q = some item → getDirname q ≠ path) :
    Formed (disk.erase path) := by
  constructor
  · rw [Disk.get_erase, if_neg (Ne.symm hpath)]
    exact h.root
  · intro q item hq hne
    rw [Disk.get_erase] at hq ⊢
    split at hq
    · cases hq
    · rw [if_neg (hempty q item hq)]
      exact h.parent q item hq hne
  · intro q item hq
    rw [Disk.get_erase] at hq
    split at hq
    · cases hq
    · exact h.names q item hq

theorem formed_stored (h : Formed disk) (hpath : path ≠ [dot]) (hnone : disk.get path = none)
    (hparent : disk.get (getDirname path) = some .directory) (hname : ¬suffixBZ2 <:+ path)
    (hstored : Stored disk path item disk') : Formed disk' := by
  have hdirectory {q : Path} (hq : disk.get q = some .directory) :
      disk'.get q = some .directory := by
    rw [hstored q, if_neg]
    · exact hq
    · rintro rfl
      rw [hnone] at hq
      cases hq
  constructor
  · exact hdirectory h.root
  · intro q item' hq hne
    apply hdirectory
    rw [hstored q] at hq
    split at hq
    · rename_i heq
      rw [heq]
      exact hparent
    · exact h.parent q item' hq hne
  · intro q item' hq
    rw [hstored q] at hq
    split at hq
    · rename_i heq
      rw [heq]
      exact hname
    · exact h.names q item' hq

/-- A file is written again. -/
theorem formed_restored {content content' : List Byte} {executable executable' : Bool}
    (h : Formed disk) (hpath : disk.get path = some (.regular content executable))
    (hstored : Stored disk path (.regular content' executable') disk') : Formed disk' := by
  have hdirectory {q : Path} (hq : disk.get q = some .directory) :
      disk'.get q = some .directory := by
    rw [hstored q, if_neg]
    · exact hq
    · rintro rfl
      rw [hpath] at hq
      cases hq
  have hold {q : Path} {item : Item} (hq : disk'.get q = some item) :
      ∃ item, disk.get q = some item := by
    rw [hstored q] at hq
    split at hq
    · rename_i heq
      rw [heq]
      exact ⟨_, hpath⟩
    · exact ⟨item, hq⟩
  constructor
  · exact hdirectory h.root
  · intro q item hq hne
    obtain ⟨item, hq⟩ := hold hq
    exact hdirectory (h.parent q item hq hne)
  · intro q item hq
    obtain ⟨item, hq⟩ := hold hq
    exact h.names q item hq

theorem stored_put (disk : Disk) (path : Path) (item : Item) :
    Stored disk path item (disk.put path item) := fun q => Disk.get_put disk path q item

theorem foldlM_mkdir {l : List Path} (h : ∀ q ∈ l, (disk.get q).isSome) :
    l.foldlM Disk.mkdir disk = some disk := by
  induction l with
  | nil => rfl
  | cons q l ih =>
    have hq := h q (mem_cons_self ..)
    rw [List.foldlM_cons]
    unfold Disk.mkdir
    obtain ⟨item, hitem⟩ := Option.isSome_iff_exists.mp hq
    rw [hitem]
    exact ih fun q hq => h q (List.mem_cons_of_mem _ hq)

theorem createDirectoryRecursive_eq (h : Formed disk)
    (hparent : disk.get (getDirname path) = some .directory) :
    disk.createDirectoryRecursive path = disk.mkdir path := by
  have habove : ∀ q ∈ path.inits.filter fun q => decide (Below q path),
      (disk.get q).isSome := by
    intro q hq
    have hbelow := of_decide_eq_true (List.mem_filter.mp hq).2
    rcases hbelow.getDirname with heq | hbelow
    · rw [← heq, hparent]
      rfl
    · rw [h.directory_of_below hbelow hparent]
      rfl
  unfold Disk.createDirectoryRecursive
  rw [List.foldlM_append, foldlM_mkdir habove]
  simp only [Option.bind_eq_bind, bind_some, List.foldlM_cons, List.foldlM_nil,
    Option.pure_def, Option.bind_fun_some]

/-- A directory is made where there is none. -/
theorem createDirectoryRecursive_new (h : Formed disk)
    (hparent : disk.get (getDirname path) = some .directory) (hnone : disk.get path = none) :
    disk.createDirectoryRecursive path = some (disk.put path .directory) := by
  rw [createDirectoryRecursive_eq h hparent]
  unfold Disk.mkdir
  rw [hnone]
  exact if_pos hparent

theorem createDirectoryRecursive_old (h : Formed disk) (hdir : disk.get path = some .directory) :
    disk.createDirectoryRecursive path = some disk := by
  have habove : ∀ q ∈ (path.inits.filter fun q => decide (Below q path)) ++ [path],
      (disk.get q).isSome := by
    intro q hq
    rcases mem_append.mp hq with hq | hq
    · rw [h.directory_of_below (of_decide_eq_true (List.mem_filter.mp hq).2) hdir]
      rfl
    · rw [List.mem_singleton.mp hq, hdir]
      rfl
  exact foldlM_mkdir habove

theorem openFile_new (hparent : disk.get (getDirname path) = some .directory)
    (hnone : disk.get path = none) :
    disk.openFile path = some (disk.put path (.regular [] false)) := by
  unfold Disk.openFile
  rw [hnone]
  exact if_pos hparent

theorem decompress_new (h : Formed disk) (hparent : disk.get (getDirname path) = some .directory)
    (hnone : disk.get path = none) (content : List Byte) (executable : Bool) :
    ∃ disk', disk.decompress path content executable = some disk' ∧
      Stored disk path (.regular content executable) disk' := by
  obtain ⟨hbz2, hbelow⟩ := h.not_bz2 path
  have hsame (q : Path) : (disk.removeRecursive (path ++ suffixBZ2)).get q = disk.get q := by
    rw [Disk.get_removeRecursive]
    split
    · rename_i hq
      rcases hq with rfl | hq
      · exact hbz2.symm
      · exact (hbelow q hq).symm
    · rfl
  have hdir : getDirname (path ++ suffixBZ2) = getDirname path :=
    getDirname_append_suffix path (by decide +kernel)
  have hne : path ≠ path ++ suffixBZ2 := by
    intro heq
    have hlength := congrArg List.length heq
    rw [List.length_append] at hlength
    have hsuffix : suffixBZ2.length = 4 := by decide +kernel
    omega
  have hdirne : getDirname path ≠ path ++ suffixBZ2 := by
    intro heq
    rw [heq, hbz2] at hparent
    cases hparent
  have hreceived : (disk.removeRecursive (path ++ suffixBZ2)).openFile (path ++ suffixBZ2) =
      some ((disk.removeRecursive (path ++ suffixBZ2)).put (path ++ suffixBZ2)
        (.regular [] false)) := by
    apply openFile_new
    · rw [hdir, hsame]
      exact hparent
    · rw [hsame]
      exact hbz2
  generalize hreceiving : (disk.removeRecursive (path ++ suffixBZ2)).put (path ++ suffixBZ2)
    (.regular [] false) = received at hreceived
  have hget (q : Path) : received.get q =
      if q = path ++ suffixBZ2 then some (.regular [] false) else disk.get q := by
    rw [← hreceiving, Disk.get_put, hsame]
  have hopened : received.openFile path = some (received.put path (.regular [] false)) := by
    apply openFile_new
    · rw [hget, if_neg hdirne]
      exact hparent
    · rw [hget, if_neg hne]
      exact hnone
  refine ⟨Disk.erase (Disk.put (Disk.put (received.put path (.regular [] false)) path
    (.regular content false)) path (.regular content executable)) (path ++ suffixBZ2), ?_, ?_⟩
  · unfold Disk.decompress
    rw [createDirectoryRecursive_old h hparent]
    simp only [Option.bind_eq_bind, bind_some]
    rw [hreceived, bind_some, hopened, bind_some]
    unfold Disk.setFileFlags
    rw [Disk.get_put, if_pos rfl]
    dsimp only
    rw [bind_some]
    unfold Disk.remove
    rw [Disk.get_put, if_neg hne.symm, Disk.get_put, if_neg hne.symm, Disk.get_put,
      if_neg hne.symm, hget, if_pos rfl]
  · intro q
    rw [Disk.get_erase]
    by_cases hqz : q = path ++ suffixBZ2
    · rw [if_pos hqz, hqz, if_neg hne.symm, hbz2]
    · rw [if_neg hqz, Disk.get_put, Disk.get_put, Disk.get_put, hget, if_neg hqz]
      by_cases hq : q = path
      · rw [if_pos hq, if_pos hq]
      · rw [if_neg hq, if_neg hq, if_neg hq, if_neg hq]

end Ice.IcePatch2
