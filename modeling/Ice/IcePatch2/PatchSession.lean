import Ice.IcePatch2.Patcher

/-!
# What a session compares

While a patcher works, its three lists are the differences between the data directory and the one
of the server, and its local list describes the data directory.
-/

namespace Ice.IcePatch2

variable {sha1 : List Byte → List Byte} {sizeBZ2 : List Byte → ℕ+}
  {disk disk' : Disk} {server : ServerTree} {files : List LargeFileInfo} {path q : Path}
  {item item' : Item} {a b r f : LargeFileInfo} {s : Session}

namespace LargeFileInfo

/-- The path is compared first. -/
theorem keyWithoutFlags_lt_of_path_lt (h : a.path < b.path) :
    a.keyWithoutFlags < b.keyWithoutFlags := by
  unfold keyWithoutFlags
  rw [Prod.Lex.toLex_lt_toLex]
  exact Or.inl h

theorem key_lt_of_path_lt (h : a.path < b.path) : a.key < b.key := by
  unfold key
  rw [Prod.Lex.toLex_lt_toLex]
  exact Or.inl (keyWithoutFlags_lt_of_path_lt h)

/-- Records of different paths are in the order of their paths. -/
theorem path_lt_of_key_lt (h : a.key < b.key) (hne : a.path ≠ b.path) : a.path < b.path := by
  unfold key keyWithoutFlags at h
  simp only [Prod.Lex.toLex_lt_toLex, toLex_inj, Prod.mk.injEq] at h
  rcases h with (h | ⟨h, -⟩) | ⟨⟨h, -⟩, -⟩
  · exact h
  · exact absurd h hne
  · exact absurd h hne

theorem path_eq_of_key_eq (h : a.key = b.key) : a.path = b.path := (key_eq_iff.mp h).1

theorem keyWithoutFlags_eq_iff : a.keyWithoutFlags = b.keyWithoutFlags ↔
    a.path = b.path ∧ a.kind = b.kind ∧ a.checksum = b.checksum := by
  simp [keyWithoutFlags]

theorem path_eq_of_keyWithoutFlags_eq (h : a.keyWithoutFlags = b.keyWithoutFlags) :
    a.path = b.path := (keyWithoutFlags_eq_iff.mp h).1

end LargeFileInfo

open LargeFileInfo

/-- The list has at most one record for a path. -/
def Sorted (files : List LargeFileInfo) : Prop := files.Pairwise fun a b => a.path < b.path

theorem Sorted.key (h : Sorted files) : files.Pairwise fun a b => a.key < b.key :=
  h.imp key_lt_of_path_lt

theorem Sorted.keyWithoutFlags (h : Sorted files) :
    files.Pairwise fun a b => a.keyWithoutFlags < b.keyWithoutFlags :=
  h.imp keyWithoutFlags_lt_of_path_lt

theorem Sorted.eq_of_path_eq (h : Sorted files) (ha : a ∈ files) (hb : b ∈ files)
    (heq : a.path = b.path) : a = b := by
  have hnodup : (files.map LargeFileInfo.path).Nodup := List.pairwise_map.mpr (h.imp ne_of_lt)
  exact List.inj_on_of_nodup_map hnodup ha hb heq

/-- Files with different paths are sorted by them. -/
theorem sorted_sort (hnodup : files.Nodup)
    (hinj : ∀ a ∈ files, ∀ b ∈ files, a.path = b.path → a = b) :
    Sorted (Lib.sort fileInfoLess files) := by
  have hkeys : (files.map LargeFileInfo.key).Nodup := by
    apply hnodup.map_on
    intro a ha b hb heq
    exact hinj a ha b hb (path_eq_of_key_eq heq)
  have hsorted := @Lib.pairwise_sort_of_nodup _ _ _ fileInfoLess LargeFileInfo.key files
    (fun _ _ => fileInfoLess_iff) hkeys
  have hperm := Lib.perm_sort fileInfoLess files
  apply hsorted.imp_of_mem
  intro a b ha hb hlt
  apply path_lt_of_key_lt hlt
  intro heq
  rw [hinj a (hperm.mem_iff.mp ha) b (hperm.mem_iff.mp hb) heq] at hlt
  exact lt_irrefl _ hlt

/-- Nothing is left out of a list with one record for each path. -/
theorem unique_sorted (h : Sorted files) : Lib.unique fileInfoEqual files = files :=
  Lib.unique_eq_self (fun _ _ => fileInfoEqual_iff) h.key

theorem sorted_setDifference {less : LargeFileInfo → LargeFileInfo → Bool} (h : Sorted files)
    (others : List LargeFileInfo) : Sorted (Lib.setDifference less files others) :=
  h.sublist (Lib.setDifference_sublist less files others)

theorem kind_fileInfo (path : Path) (item : Item) : (fileInfo sha1 sizeBZ2 path item).kind =
    match item with
    | .directory => -1
    | .regular .. => 0 := by
  cases item with
  | directory => rfl
  | regular content executable =>
    apply kind_of_nonneg
    unfold fileInfo
    dsimp only
    split
    · exact le_refl _
    · exact Int.natCast_nonneg _

theorem path_fileInfo (path : Path) (item : Item) :
    (fileInfo sha1 sizeBZ2 path item).path = path := by
  cases item with
  | directory => rfl
  | regular content executable => rfl

/-- The content is the same, whatever the flag is. -/
def Item.Alike : Item → Item → Prop
  | .directory, .directory => True
  | .regular content _, .regular content' _ => content = content'
  | _, _ => False

/-- The flag is not part of this key. -/
theorem Item.Alike.keyWithoutFlags_eq (h : item.Alike item') (path : Path) :
    (fileInfo sha1 sizeBZ2 path item).keyWithoutFlags =
      (fileInfo sha1 sizeBZ2 path item').keyWithoutFlags := by
  rw [keyWithoutFlags_eq_iff, kind_fileInfo, kind_fileInfo]
  cases item with
  | directory =>
    cases item' with
    | directory => exact ⟨rfl, rfl, rfl⟩
    | regular content' executable' => exact h.elim
  | regular content executable =>
    cases item' with
    | directory => exact h.elim
    | regular content' executable' =>
      change content = content' at h
      rw [h]
      exact ⟨rfl, rfl, rfl⟩

/-- The list describes the data directory, with one record for each path. -/
structure Synced (sha1 : List Byte → List Byte) (sizeBZ2 : List Byte → ℕ+) (disk : Disk)
    (files : List LargeFileInfo) : Prop where
  sorted : Sorted files
  described : ∀ r ∈ files, ∃ item, disk.get r.path = some item ∧
    r.key = (fileInfo sha1 sizeBZ2 r.path item).key
  listed : ∀ path item, disk.get path = some item → ∃ r ∈ files, r.path = path

theorem get_of_mem {e : Path × Item} (hnodup : (disk.map Prod.fst).Nodup) (he : e ∈ disk) :
    disk.get e.1 = some e.2 := by
  obtain ⟨item, hitem⟩ := Disk.exists_get_of_mem he
  have hmem := Disk.mem_of_get hitem
  have heq := List.inj_on_of_nodup_map hnodup hmem he rfl
  rw [hitem, ← heq]

theorem pairwise_fileList (sha1 : List Byte → List Byte) (sizeBZ2 : List Byte → ℕ+)
    (tree : ServerTree) :
    Sorted (Lib.sort fileInfoLess (tree.disk.map fun e => fileInfo sha1 sizeBZ2 e.1 e.2)) := by
  have hpaths : (tree.disk.map fun e => fileInfo sha1 sizeBZ2 e.1 e.2).Pairwise
      fun a b => a.path ≠ b.path := by
    rw [List.pairwise_map]
    apply (List.pairwise_map.mp tree.nodup).imp
    intro e e' hne
    rwa [path_fileInfo, path_fileInfo]
  apply sorted_sort
  · exact hpaths.imp fun hne heq => hne (by rw [heq])
  · intro a ha b hb heq
    exact List.inj_on_of_nodup_map (List.pairwise_map.mpr hpaths) ha hb heq

variable (tree : ServerTree)

/-- The list that the server calculates has no duplicates to leave out. -/
theorem fileList_eq : fileList sha1 sizeBZ2 tree =
    Lib.sort fileInfoLess (tree.disk.map fun e => fileInfo sha1 sizeBZ2 e.1 e.2) :=
  unique_sorted (pairwise_fileList sha1 sizeBZ2 tree)

theorem sorted_fileList : Sorted (fileList sha1 sizeBZ2 tree) := by
  rw [fileList_eq]
  exact pairwise_fileList sha1 sizeBZ2 tree

theorem mem_fileList : f ∈ fileList sha1 sizeBZ2 tree ↔
    ∃ item, tree.disk.get f.path = some item ∧ f = fileInfo sha1 sizeBZ2 f.path item := by
  rw [fileList_eq, (Lib.perm_sort _ _).mem_iff, List.mem_map]
  constructor
  · rintro ⟨e, he, rfl⟩
    refine ⟨e.2, ?_, ?_⟩
    · rw [path_fileInfo]
      exact get_of_mem tree.nodup he
    · rw [path_fileInfo]
  · rintro ⟨item, hitem, heq⟩
    exact ⟨(f.path, item), Disk.mem_of_get hitem, heq.symm⟩

/-- The list of the server describes its tree. -/
theorem synced_fileList :
    Synced sha1 sizeBZ2 tree.disk (fileList sha1 sizeBZ2 tree) := by
  constructor
  · exact sorted_fileList tree
  · intro f hf
    obtain ⟨item, hitem, heq⟩ := (mem_fileList tree).mp hf
    exact ⟨item, hitem, congrArg LargeFileInfo.key heq⟩
  · intro path item hitem
    refine ⟨fileInfo sha1 sizeBZ2 path item, ?_, path_fileInfo path item⟩
    rw [mem_fileList, path_fileInfo]
    exact ⟨item, hitem, rfl⟩

/-- The file or directory is the same on the server, but for the flag. -/
def Matches (disk : Disk) (server : ServerTree) (path : Path) : Prop :=
  ∃ item item', disk.get path = some item ∧ server.disk.get path = some item' ∧ item.Alike item'

/-- The file or directory is the same on the server. -/
def Agrees (disk : Disk) (server : ServerTree) (path : Path) : Prop :=
  ∃ item, disk.get path = some item ∧ server.disk.get path = some item

/-- What holds between the calls of a session -/
structure Comparing (sha1 : List Byte → List Byte) (sizeBZ2 : List Byte → ℕ+) (s : Session)
    (disk : Disk) : Prop where
  formed : Formed disk
  synced : Synced sha1 sizeBZ2 disk s.localFiles
  removeSorted : Sorted s.removeFiles
  updateSorted : Sorted s.updateFiles
  flagsSorted : Sorted s.updateFlags
  mem_remove : ∀ r, r ∈ s.removeFiles ↔ r ∈ s.localFiles ∧ ¬Matches disk s.server r.path
  mem_update : ∀ f, f ∈ s.updateFiles ↔
    f ∈ fileList sha1 sizeBZ2 s.server ∧ ¬Matches disk s.server f.path
  mem_flags : ∀ f, f ∈ s.updateFlags ↔ f ∈ fileList sha1 sizeBZ2 s.server ∧
    Matches disk s.server f.path ∧ ¬Agrees disk s.server f.path

/-- The checksums differ where the two directories do. -/
structure ToldApart (sha1 : List Byte → List Byte) (sizeBZ2 : List Byte → ℕ+) (disk : Disk)
    (files : List LargeFileInfo) (server : ServerTree) : Prop where
  tree : (getFileTree0 sha1 files).checksum =
      (getFileTree0 sha1 (fileList sha1 sizeBZ2 server)).checksum →
    ∀ i, ((getFileTree0 sha1 files).nodes i).checksum =
      ((getFileTree0 sha1 (fileList sha1 sizeBZ2 server)).nodes i).checksum
  nodes : ∀ i, ((getFileTree0 sha1 files).nodes i).checksum =
      ((getFileTree0 sha1 (fileList sha1 sizeBZ2 server)).nodes i).checksum →
    ((getFileTree0 sha1 files).nodes i).files.map LargeFileInfo.key =
      ((getFileTree0 sha1 (fileList sha1 sizeBZ2 server)).nodes i).files.map LargeFileInfo.key
  content : ∀ path item item', disk.get path = some item → server.disk.get path = some item' →
    (fileInfo sha1 sizeBZ2 path item).keyWithoutFlags =
      (fileInfo sha1 sizeBZ2 path item').keyWithoutFlags → item.Alike item'

theorem LargeFileInfo.key_eq_iff_keyWithoutFlags : a.key = b.key ↔
    a.keyWithoutFlags = b.keyWithoutFlags ∧ a.executable = b.executable := by
  simp [LargeFileInfo.key]

/-- The flag is all that can be different. -/
theorem Item.Alike.eq (h : item.Alike item') (path : Path)
    (hflag : (fileInfo sha1 sizeBZ2 path item).executable =
      (fileInfo sha1 sizeBZ2 path item').executable) : item = item' := by
  cases item with
  | directory =>
    cases item' with
    | directory => rfl
    | regular content' executable' => exact h.elim
  | regular content executable =>
    cases item' with
    | directory => exact h.elim
    | regular content' executable' =>
      change content = content' at h
      change executable = executable' at hflag
      rw [h, hflag]

section

variable (hs : Synced sha1 sizeBZ2 disk files) (ht : ToldApart sha1 sizeBZ2 disk files server)

include hs ht

/-- The records tell whether a local file is to be removed. -/
theorem matches_iff_of_local (hr : r ∈ files) : Matches disk server r.path ↔
    ∃ f ∈ fileList sha1 sizeBZ2 server, f.keyWithoutFlags = r.keyWithoutFlags := by
  obtain ⟨item, hitem, hkey⟩ := hs.described r hr
  have hwithout := (key_eq_iff_keyWithoutFlags.mp hkey).1
  constructor
  · rintro ⟨item₁, item', hitem₁, hitem', halike⟩
    cases hitem.symm.trans hitem₁
    refine ⟨fileInfo sha1 sizeBZ2 r.path item', ?_, ?_⟩
    · rw [mem_fileList, path_fileInfo]
      exact ⟨item', hitem', rfl⟩
    · rw [hwithout]
      exact (halike.keyWithoutFlags_eq r.path).symm
  · rintro ⟨f, hf, heq⟩
    obtain ⟨item', hitem', hf⟩ := (mem_fileList server).mp hf
    have hpath := path_eq_of_keyWithoutFlags_eq heq
    rw [hpath] at hitem' hf
    refine ⟨item, item', hitem, hitem', ?_⟩
    apply ht.content r.path item item' hitem hitem'
    rw [← hwithout, ← heq, hf]

/-- They tell whether a file of the server is to be fetched. -/
theorem matches_iff_of_server (hf : f ∈ fileList sha1 sizeBZ2 server) :
    Matches disk server f.path ↔ ∃ r ∈ files, r.keyWithoutFlags = f.keyWithoutFlags := by
  constructor
  · intro hmatches
    have hmatches' := hmatches
    obtain ⟨item, item', hitem, -, -⟩ := hmatches'
    obtain ⟨r, hr, hpath⟩ := hs.listed f.path item hitem
    rw [← hpath, matches_iff_of_local hs ht hr] at hmatches
    obtain ⟨f', hf', heq⟩ := hmatches
    have hff := (sorted_fileList server).eq_of_path_eq hf' hf
      ((path_eq_of_keyWithoutFlags_eq heq).trans hpath)
    rw [hff] at heq
    exact ⟨r, hr, heq.symm⟩
  · rintro ⟨r, hr, heq⟩
    rw [← path_eq_of_keyWithoutFlags_eq heq, matches_iff_of_local hs ht hr]
    exact ⟨f, hf, heq.symm⟩

/-- They tell whether the flag is right as well. -/
theorem agrees_iff_of_server (hf : f ∈ fileList sha1 sizeBZ2 server) :
    Agrees disk server f.path ↔ ∃ r ∈ files, r.key = f.key := by
  obtain ⟨item', hitem', hfeq⟩ := (mem_fileList server).mp hf
  constructor
  · rintro ⟨item, hitem, hserver⟩
    cases hitem'.symm.trans hserver
    obtain ⟨r, hr, hpath⟩ := hs.listed f.path item' hitem
    obtain ⟨item, hitem₁, hkey⟩ := hs.described r hr
    rw [hpath] at hitem₁ hkey
    cases hitem.symm.trans hitem₁
    refine ⟨r, hr, ?_⟩
    rw [hkey]
    exact (congrArg LargeFileInfo.key hfeq).symm
  · rintro ⟨r, hr, heq⟩
    obtain ⟨item, hitem, hkey⟩ := hs.described r hr
    have hpath := path_eq_of_key_eq heq
    rw [hpath] at hitem hkey
    have hfkey : f.key = (fileInfo sha1 sizeBZ2 f.path item').key := congrArg LargeFileInfo.key hfeq
    have hkeys := key_eq_iff_keyWithoutFlags.mp (hkey.symm.trans (heq.trans hfkey))
    have halike := ht.content f.path item item' hitem hitem' hkeys.1
    have hitems := halike.eq f.path hkeys.2
    rw [← hitems] at hitem'
    exact ⟨item, hitem, hitem'⟩

end

theorem nodes_files_eq (l : List LargeFileInfo) (i : Byte) :
    ((getFileTree0 sha1 l).nodes i).files = l.filter fun p => p.checksum.head? = some i := rfl

theorem sorted_serverFiles (server : ServerTree) (i : Byte) :
    Sorted (serverFiles sha1 sizeBZ2 server i) ∧
      ∀ f, f ∈ serverFiles sha1 sizeBZ2 server i ↔
        f ∈ fileList sha1 sizeBZ2 server ∧ f.checksum.head? = some i := by
  have hfilter : Sorted ((fileList sha1 sizeBZ2 server).filter
      fun p => p.checksum.head? = some i) := (sorted_fileList server).sublist List.filter_sublist
  have hsort : Sorted (Lib.sort fileInfoLess ((fileList sha1 sizeBZ2 server).filter
      fun p => p.checksum.head? = some i)) := by
    apply sorted_sort
    · exact hfilter.imp fun hlt heq => by
        rw [heq] at hlt
        exact lt_irrefl _ hlt
    · exact fun a ha b hb heq => hfilter.eq_of_path_eq ha hb heq
  unfold serverFiles
  rw [nodes_files_eq, unique_sorted hsort]
  refine ⟨hsort, ?_⟩
  intro f
  rw [(Lib.perm_sort _ _).mem_iff, List.mem_filter, decide_eq_true_iff]

/-- Nodes that are not compared hold the same. -/
theorem keys_of_not_differing (ht : ToldApart sha1 sizeBZ2 disk files server) {i : Byte}
    (hi : i ∉ differing sha1 sizeBZ2 files server) (k : (Path ×ₗ Int ×ₗ List Byte) ×ₗ Bool) :
    (∃ r ∈ files, r.checksum.head? = some i ∧ r.key = k) ↔
      ∃ f ∈ fileList sha1 sizeBZ2 server, f.checksum.head? = some i ∧ f.key = k := by
  have hnodes : ((getFileTree0 sha1 files).nodes i).checksum =
      ((getFileTree0 sha1 (fileList sha1 sizeBZ2 server)).nodes i).checksum := by
    unfold differing at hi
    dsimp only at hi
    split at hi
    · rename_i heq
      exact ht.tree heq i
    · by_contra hne
      apply hi
      exact List.mem_filter.mpr ⟨List.mem_finRange i, decide_eq_true hne⟩
  have hkeys := ht.nodes i hnodes
  have hmem : k ∈ ((getFileTree0 sha1 files).nodes i).files.map LargeFileInfo.key ↔
      k ∈ ((getFileTree0 sha1 (fileList sha1 sizeBZ2 server)).nodes i).files.map
        LargeFileInfo.key := by
    rw [hkeys]
  simpa [nodes_files_eq, and_assoc] using hmem

/-- What the loop over the nodes collects, if each of the differences is taken from the files with
the checksums of the node -/
theorem sorted_collectDifferences {from_ : List LargeFileInfo}
    {differences : List LargeFileInfo → List LargeFileInfo → List LargeFileInfo}
    (hfrom : Sorted from_)
    (hnode : ∀ i, Sorted (differences ((getFileTree0 sha1 files).nodes i).files
      (serverFiles sha1 sizeBZ2 server i)))
    (hmem : ∀ i, ∀ a ∈ differences ((getFileTree0 sha1 files).nodes i).files
      (serverFiles sha1 sizeBZ2 server i), a ∈ from_ ∧ a.checksum.head? = some i) :
    Sorted (collectDifferences sha1 sizeBZ2 files server differences) ∧
      ∀ a, a ∈ collectDifferences sha1 sizeBZ2 files server differences ↔
        ∃ i ∈ differing sha1 sizeBZ2 files server,
          a ∈ differences ((getFileTree0 sha1 files).nodes i).files
            (serverFiles sha1 sizeBZ2 server i) := by
  have hnodes : (differing sha1 sizeBZ2 files server).Nodup := by
    unfold differing
    dsimp only
    split
    · exact List.nodup_nil
    · exact (List.nodup_finRange 256).filter _
  have hnodup : ((differing sha1 sizeBZ2 files server).flatMap fun i =>
      differences ((getFileTree0 sha1 files).nodes i).files
        (serverFiles sha1 sizeBZ2 server i)).Nodup := by
    rw [List.nodup_flatMap]
    constructor
    · intro i _
      exact (hnode i).imp fun hlt heq => by
        rw [heq] at hlt
        exact lt_irrefl _ hlt
    · apply hnodes.imp
      intro i j hne a ha hb
      have hi := (hmem i a ha).2
      have hj := (hmem j a hb).2
      rw [hi] at hj
      exact hne (Option.some.inj hj)
  unfold collectDifferences
  constructor
  · apply sorted_sort hnodup
    intro a ha b hb heq
    obtain ⟨i, -, ha⟩ := List.mem_flatMap.mp ha
    obtain ⟨j, -, hb⟩ := List.mem_flatMap.mp hb
    exact hfrom.eq_of_path_eq (hmem i a ha).1 (hmem j b hb).1 heq
  · intro a
    rw [(Lib.perm_sort _ _).mem_iff, List.mem_flatMap]

variable {l m : List LargeFileInfo}

theorem mem_withoutFlags (hl : Sorted l) (hm : Sorted m) :
    a ∈ Lib.setDifference fileInfoWithoutFlagsLess l m ↔
      a ∈ l ∧ ∀ b ∈ m, b.keyWithoutFlags ≠ a.keyWithoutFlags :=
  Lib.mem_setDifference (fun _ _ => fileInfoWithoutFlagsLess_iff) hl.keyWithoutFlags
    hm.keyWithoutFlags

theorem mem_difference (hl : Sorted l) (hm : Sorted m) :
    a ∈ Lib.setDifference fileInfoLess l m ↔ a ∈ l ∧ ∀ b ∈ m, b.key ≠ a.key :=
  Lib.mem_setDifference (fun _ _ => fileInfoLess_iff) hl.key hm.key

variable (hlength : ∀ x, (sha1 x).length = 20)

include hlength

/-- A checksum has a first byte, which is the number of its node. -/
theorem exists_head (path : Path) (item : Item) :
    ∃ i, (fileInfo sha1 sizeBZ2 path item).checksum.head? = some i := by
  have hdigest (x : List Byte) : ∃ i, (digest sha1 x).head? = some i := by
    have hlen : (digest sha1 x).length = 20 := by
      unfold digest
      split
      · exact List.length_replicate
      · exact hlength x
    cases hx : digest sha1 x with
    | nil =>
      rw [hx] at hlen
      cases hlen
    | cons i l => exact ⟨i, rfl⟩
  cases item with
  | directory => exact hdigest path
  | regular content executable => exact hdigest (path ++ content)

theorem Synced.exists_head (hs : Synced sha1 sizeBZ2 disk files) (hr : r ∈ files) :
    ∃ i, r.checksum.head? = some i := by
  obtain ⟨item, -, hkey⟩ := hs.described r hr
  rw [(key_eq_iff.mp hkey).2.2.1]
  exact IcePatch2.exists_head hlength r.path item

/-- The lists of a new patcher are the differences. -/
theorem comparing_prepare (hformed : Formed disk) (hs : Synced sha1 sizeBZ2 disk files)
    (ht : ToldApart sha1 sizeBZ2 disk files server) (remove : Int) :
    Comparing sha1 sizeBZ2 (prepare sha1 sizeBZ2 files server remove) disk := by
  have hmine (i : Byte) : Sorted ((getFileTree0 sha1 files).nodes i).files :=
    hs.sorted.sublist List.filter_sublist
  have hmemMine (i : Byte) (a : LargeFileInfo) : a ∈ ((getFileTree0 sha1 files).nodes i).files ↔
      a ∈ files ∧ a.checksum.head? = some i := by
    rw [nodes_files_eq, List.mem_filter, decide_eq_true_iff]
  have hhead {a b : LargeFileInfo} (h : a.keyWithoutFlags = b.keyWithoutFlags) :
      a.checksum.head? = b.checksum.head? := by
    rw [(keyWithoutFlags_eq_iff.mp h).2.2]
  have hserver (i : Byte) := @sorted_serverFiles sha1 sizeBZ2 server i
  have hremove := @sorted_collectDifferences sha1 sizeBZ2 server files files
    (fun mine files => Lib.setDifference fileInfoWithoutFlagsLess mine files) hs.sorted
    (fun i => sorted_setDifference (hmine i) _)
    (fun i a ha => (hmemMine i a).mp ((mem_withoutFlags (hmine i) (hserver i).1).mp ha).1)
  have hupdate :=
    @sorted_collectDifferences sha1 sizeBZ2 server files (fileList sha1 sizeBZ2 server)
    (fun mine files => Lib.setDifference fileInfoWithoutFlagsLess files mine)
    (sorted_fileList server) (fun i => sorted_setDifference (hserver i).1 _)
    (fun i a ha => ((hserver i).2 a).mp ((mem_withoutFlags (hserver i).1 (hmine i)).mp ha).1)
  have hinner (i : Byte) : Sorted (Lib.setDifference fileInfoLess
      (serverFiles sha1 sizeBZ2 server i) ((getFileTree0 sha1 files).nodes i).files) :=
    sorted_setDifference (hserver i).1 _
  have hcontents (i : Byte) : Sorted (Lib.setDifference fileInfoWithoutFlagsLess
      (serverFiles sha1 sizeBZ2 server i) ((getFileTree0 sha1 files).nodes i).files) :=
    sorted_setDifference (hserver i).1 _
  have hflags := @sorted_collectDifferences sha1 sizeBZ2 server files (fileList sha1 sizeBZ2 server)
    (fun mine files => Lib.setDifference fileInfoLess (Lib.setDifference fileInfoLess files mine)
      (Lib.setDifference fileInfoWithoutFlagsLess files mine))
    (sorted_fileList server) (fun i => sorted_setDifference (hinner i) _)
    (fun i a ha => ((hserver i).2 a).mp ((mem_difference (hserver i).1 (hmine i)).mp
      ((mem_difference (hinner i) (hcontents i)).mp ha).1).1)
  constructor
  · exact hformed
  · exact hs
  · exact hremove.1
  · exact hupdate.1
  · exact hflags.1
  · intro r
    apply (hremove.2 r).trans
    change _ ↔ r ∈ files ∧ ¬Matches disk server r.path
    constructor
    · rintro ⟨i, -, hr⟩
      obtain ⟨hr, hne⟩ := (mem_withoutFlags (hmine i) (hserver i).1).mp hr
      obtain ⟨hr, hi⟩ := (hmemMine i r).mp hr
      refine ⟨hr, fun hmatches => ?_⟩
      obtain ⟨f, hf, heq⟩ := (matches_iff_of_local hs ht hr).mp hmatches
      exact hne f (((hserver i).2 f).mpr ⟨hf, (hhead heq).trans hi⟩) heq
    · rintro ⟨hr, hnot⟩
      rw [matches_iff_of_local hs ht hr] at hnot
      obtain ⟨i, hi⟩ := hs.exists_head hlength hr
      refine ⟨i, ?_, ?_⟩
      · by_contra hout
        obtain ⟨f, hf, -, hkey⟩ := (keys_of_not_differing ht hout r.key).mp ⟨r, hr, hi, rfl⟩
        exact hnot ⟨f, hf, (key_eq_iff_keyWithoutFlags.mp hkey).1⟩
      · apply (mem_withoutFlags (hmine i) (hserver i).1).mpr
        refine ⟨(hmemMine i r).mpr ⟨hr, hi⟩, fun f hf heq => ?_⟩
        exact hnot ⟨f, (((hserver i).2 f).mp hf).1, heq⟩
  · intro f
    apply (hupdate.2 f).trans
    change _ ↔ f ∈ fileList sha1 sizeBZ2 server ∧ ¬Matches disk server f.path
    constructor
    · rintro ⟨i, -, hf⟩
      obtain ⟨hf, hne⟩ := (mem_withoutFlags (hserver i).1 (hmine i)).mp hf
      obtain ⟨hf, hi⟩ := ((hserver i).2 f).mp hf
      refine ⟨hf, fun hmatches => ?_⟩
      obtain ⟨r, hr, heq⟩ := (matches_iff_of_server hs ht hf).mp hmatches
      exact hne r ((hmemMine i r).mpr ⟨hr, (hhead heq).trans hi⟩) heq
    · rintro ⟨hf, hnot⟩
      rw [matches_iff_of_server hs ht hf] at hnot
      obtain ⟨i, hi⟩ := (synced_fileList server).exists_head hlength hf
      refine ⟨i, ?_, ?_⟩
      · by_contra hout
        obtain ⟨r, hr, -, hkey⟩ := (keys_of_not_differing ht hout f.key).mpr ⟨f, hf, hi, rfl⟩
        exact hnot ⟨r, hr, (key_eq_iff_keyWithoutFlags.mp hkey).1⟩
      · apply (mem_withoutFlags (hserver i).1 (hmine i)).mpr
        refine ⟨((hserver i).2 f).mpr ⟨hf, hi⟩, fun r hr heq => ?_⟩
        exact hnot ⟨r, ((hmemMine i r).mp hr).1, heq⟩
  · intro f
    apply (hflags.2 f).trans
    change _ ↔ f ∈ fileList sha1 sizeBZ2 server ∧ Matches disk server f.path ∧
      ¬Agrees disk server f.path
    constructor
    · rintro ⟨i, -, hf⟩
      obtain ⟨hf, hold⟩ := (mem_difference (hinner i) (hcontents i)).mp hf
      obtain ⟨hfi, hne⟩ := (mem_difference (hserver i).1 (hmine i)).mp hf
      obtain ⟨hf, hi⟩ := ((hserver i).2 f).mp hfi
      refine ⟨hf, ?_, ?_⟩
      · by_contra hnot
        rw [matches_iff_of_server hs ht hf] at hnot
        apply hold f _ rfl
        apply (mem_withoutFlags (hserver i).1 (hmine i)).mpr
        refine ⟨hfi, fun r hr heq => ?_⟩
        exact hnot ⟨r, ((hmemMine i r).mp hr).1, heq⟩
      · rw [agrees_iff_of_server hs ht hf]
        rintro ⟨r, hr, heq⟩
        have hhead := hhead (key_eq_iff_keyWithoutFlags.mp heq).1
        exact hne r ((hmemMine i r).mpr ⟨hr, hhead.trans hi⟩) heq
    · rintro ⟨hf, hmatches, hnot⟩
      rw [agrees_iff_of_server hs ht hf] at hnot
      obtain ⟨r, hr, heq⟩ := (matches_iff_of_server hs ht hf).mp hmatches
      obtain ⟨i, hi⟩ := (synced_fileList server).exists_head hlength hf
      have hfi := ((hserver i).2 f).mpr ⟨hf, hi⟩
      refine ⟨i, ?_, ?_⟩
      · by_contra hout
        obtain ⟨r, hr, -, hkey⟩ := (keys_of_not_differing ht hout f.key).mpr ⟨f, hf, hi, rfl⟩
        exact hnot ⟨r, hr, hkey⟩
      · apply (mem_difference (hinner i) (hcontents i)).mpr
        constructor
        · apply (mem_difference (hserver i).1 (hmine i)).mpr
          exact ⟨hfi, fun r hr heq => hnot ⟨r, ((hmemMine i r).mp hr).1, heq⟩⟩
        · intro g hg hkey
          obtain ⟨-, hne⟩ := (mem_withoutFlags (hserver i).1 (hmine i)).mp hg
          apply hne r ((hmemMine i r).mpr ⟨hr, (hhead heq).trans hi⟩)
          rw [heq, (key_eq_iff_keyWithoutFlags.mp hkey).1]

end Ice.IcePatch2
