import Ice.IcePatch2.PatchSession

/-!
# Removing and updating

What `removeFiles`, `updateFiles` and `updateFlags` do to the data directory and to the lists, when
they are called for some of what they are to do.
-/

namespace Ice.IcePatch2

open LargeFileInfo
open List (foldlM_cons map_cons mem_cons mem_cons_of_mem mem_cons_self mem_filter pairwise_cons)

variable {sha1 : List Byte → List Byte} {sizeBZ2 : List Byte → ℕ+}
  {disk disk' : Disk} {server : ServerTree} {files l m : List LargeFileInfo} {path q : Path}
  {item item' : Item} {a b r f u : LargeFileInfo} {s : Session}

def paths (files : List LargeFileInfo) : List Path := files.map LargeFileInfo.path

theorem mem_paths (h : r ∈ files) : r.path ∈ paths files := List.mem_map_of_mem h

theorem exists_of_mem_paths (h : q ∈ paths files) : ∃ r ∈ files, r.path = q := List.mem_map.mp h

theorem not_mem_paths_of_disjoint (hdisjoint : ∀ f ∈ files, f.path ∉ paths l) (h : r ∈ l) :
    r.path ∉ paths files := by
  intro hpath
  obtain ⟨f, hf, heq⟩ := exists_of_mem_paths hpath
  exact hdisjoint f hf (heq ▸ mem_paths h)

theorem matches_congr (h : disk'.get q = disk.get q) :
    Matches disk' server q ↔ Matches disk server q := by
  unfold Matches
  rw [h]

theorem agrees_congr (h : disk'.get q = disk.get q) :
    Agrees disk' server q ↔ Agrees disk server q := by
  unfold Agrees
  rw [h]

theorem Item.Alike.refl (item : Item) : item.Alike item := by
  cases item with
  | directory => trivial
  | regular content executable => rfl

theorem Agrees.matches (h : Agrees disk server q) : Matches disk server q := by
  obtain ⟨item, hitem, hserver⟩ := h
  exact ⟨item, item, hitem, hserver, .refl item⟩

theorem not_matches_of_none (h : disk.get q = none) : ¬Matches disk server q := by
  rintro ⟨item, -, hitem, -⟩
  rw [h] at hitem
  cases hitem

/-- A directory of the server that is on disk as well -/
theorem Matches.directory (h : Matches disk server q)
    (hserver : server.disk.get q = some .directory) : disk.get q = some .directory := by
  obtain ⟨item, item', hitem, hitem', halike⟩ := h
  cases hserver.symm.trans hitem'
  cases item with
  | directory => exact hitem
  | regular content executable => exact halike.elim

theorem matches_of_directory (h : disk.get q = some .directory)
    (hserver : server.disk.get q = some .directory) : Matches disk server q :=
  ⟨_, _, h, hserver, trivial⟩

/-- The root matches always. -/
theorem ne_root_of_not_matches (h : Formed disk) (hnot : ¬Matches disk server q) : q ≠ [dot] := by
  rintro rfl
  exact hnot (matches_of_directory h.root server.formed.root)

section

variable (hl : Sorted l)

include hl

theorem mem_difference_of_subset (hfiles : Sorted files)
    (hsub : ∀ f ∈ files, f ∈ l) :
    a ∈ Lib.setDifference fileInfoLess l files ↔ a ∈ l ∧ a.path ∉ paths files := by
  rw [mem_difference hl hfiles]
  apply and_congr_right
  intro ha
  constructor
  · intro hne hmem
    obtain ⟨f, hf, hpath⟩ := exists_of_mem_paths hmem
    apply hne f hf
    rw [hl.eq_of_path_eq (hsub f hf) ha hpath]
  · intro hout f hf heq
    apply hout
    rw [← path_eq_of_key_eq heq]
    exact mem_paths hf

section

variable (hm : Sorted m)

include hm

theorem mem_union : a ∈ Lib.setUnion fileInfoLess l m ↔
    a ∈ l ∨ (a ∈ m ∧ ∀ b ∈ l, b.key ≠ a.key) :=
  Lib.mem_setUnion (fun _ _ => fileInfoLess_iff) hl.key hm.key

theorem pairwise_union :
    (Lib.setUnion fileInfoLess l m).Pairwise fun a b => a.key < b.key :=
  Lib.pairwise_setUnion (fun _ _ => fileInfoLess_iff) hl.key hm.key

theorem mem_union_of_disjoint
    (hdisjoint : ∀ b ∈ m, b.path ∉ paths l) :
    a ∈ Lib.setUnion fileInfoLess l m ↔ a ∈ l ∨ a ∈ m := by
  rw [mem_union hl hm]
  apply or_congr_right
  rw [and_iff_left_iff_imp]
  intro ha b hb heq
  apply hdisjoint a ha
  rw [← path_eq_of_key_eq heq]
  exact mem_paths hb

theorem sorted_union_of_disjoint
    (hdisjoint : ∀ b ∈ m, b.path ∉ paths l) : Sorted (Lib.setUnion fileInfoLess l m) := by
  apply (pairwise_union hl hm).imp_of_mem
  intro a b ha hb hlt
  apply path_lt_of_key_lt hlt
  intro heq
  rcases (mem_union_of_disjoint hl hm hdisjoint).mp ha with ha | ha
  · rcases (mem_union_of_disjoint hl hm hdisjoint).mp hb with hb | hb
    · rw [hl.eq_of_path_eq ha hb heq] at hlt
      exact lt_irrefl _ hlt
    · apply hdisjoint b hb
      rw [← heq]
      exact mem_paths ha
  · rcases (mem_union_of_disjoint hl hm hdisjoint).mp hb with hb | hb
    · apply hdisjoint a ha
      rw [heq]
      exact mem_paths hb
    · rw [hm.eq_of_path_eq ha hb heq] at hlt
      exact lt_irrefl _ hlt

end

end

theorem below_of_getDirname (hdir : getDirname q = path) (hpath : path ≠ [dot]) :
    Below path q := by
  have hslash : slash ∈ q := by
    by_contra hslash
    rw [getDirname_of_not_mem hslash] at hdir
    exact hpath hdir.symm
  have hbelow := below_getDirname hslash
  rwa [hdir] at hbelow

/-- The records are removed from the last one to the first, so that a directory is empty when its
turn comes. -/
theorem removeAll_eq (s : Session) (hformed : Formed disk) (hsorted : Sorted files)
    (hfiles : ∀ r ∈ files, r.path ≠ [dot] ∧ ∃ item, disk.get r.path = some item)
    (hchildren : ∀ r ∈ files, ∀ q item, disk.get q = some item → getDirname q = r.path →
      q ∈ paths files) :
    ∃ disk', removeAll s files disk = some disk' ∧ Formed disk' ∧
      ∀ q, disk'.get q = if q ∈ paths files then none else disk.get q := by
  induction files with
  | nil => exact ⟨disk, rfl, hformed, fun q => rfl⟩
  | cons r files ih =>
    obtain ⟨hbelow, hsorted⟩ := pairwise_cons.mp hsorted
    obtain ⟨hroot, item, hitem⟩ := hfiles r (mem_cons_self ..)
    have hout : r.path ∉ paths files := by
      intro hmem
      obtain ⟨f, hf, heq⟩ := exists_of_mem_paths hmem
      have hlt := hbelow f hf
      rw [heq] at hlt
      exact lt_irrefl _ hlt
    have hrest : ∀ f ∈ files, ∀ q item, disk.get q = some item → getDirname q = f.path →
        q ∈ paths files := by
      intro f hf q item hq heq
      rcases mem_cons.mp (hchildren f (mem_cons_of_mem r hf) q item hq heq) with
        hqr | hq
      · have hlt := (below_of_getDirname heq (hfiles f (mem_cons_of_mem r hf)).1).lt
        rw [hqr] at hlt
        exact absurd (hbelow f hf) hlt.asymm
      · exact hq
    obtain ⟨disk₁, heq, hformed₁, hget⟩ := ih hsorted
      (fun f hf => hfiles f (mem_cons_of_mem r hf)) hrest
    have hempty : ∀ q item, disk₁.get q = some item → getDirname q ≠ r.path := by
      intro q item hq hdir
      rw [hget] at hq
      split at hq
      · cases hq
      · rename_i hqout
        rcases mem_cons.mp (hchildren r (mem_cons_self ..) q item hq hdir) with
          hqr | hmem
        · have hlt := (below_of_getDirname hdir hroot).lt
          rw [hqr] at hlt
          exact lt_irrefl _ hlt
        · exact hqout hmem
    have hitem₁ : disk₁.get r.path = some item := by
      rw [hget, if_neg hout]
      exact hitem
    refine ⟨disk₁.erase r.path, ?_, formed_erase hformed₁ hroot hempty, ?_⟩
    · unfold removeAll at heq ⊢
      rw [List.reverse_cons, List.foldlM_append, heq]
      simp only [Option.bind_eq_bind, Option.bind_some, foldlM_cons, List.foldlM_nil]
      rw [remove_eq hitem₁ fun _ => hempty]
      rfl
    · intro q
      rw [Disk.get_erase, hget]
      unfold paths
      rw [map_cons]
      by_cases hqr : q = r.path
      · rw [if_pos hqr, if_pos]
        rw [hqr]
        exact mem_cons_self ..
      · rw [if_neg hqr]
        simp only [mem_cons, hqr, false_or]

/-- Directories are removed together with what is in them. -/
theorem Comparing.children (h : Comparing sha1 sizeBZ2 s disk) (hr : r ∈ s.removeFiles)
    (hq : disk.get q = some item) (hdir : getDirname q = r.path) :
    Below r.path q ∧ q ∈ paths s.removeFiles := by
  obtain ⟨hlocal, hnot⟩ := (h.mem_remove r).mp hr
  have hbelow := below_of_getDirname hdir (ne_root_of_not_matches h.formed hnot)
  have hne : q ≠ [dot] := by
    rintro rfl
    exact absurd hbelow.mem_slash (by decide)
  refine ⟨hbelow, ?_⟩
  obtain ⟨f, hf, hpath⟩ := h.synced.listed q item hq
  rw [← hpath]
  apply mem_paths
  rw [h.mem_remove]
  refine ⟨hf, ?_⟩
  rw [hpath]
  rintro ⟨_, item', _, hitem', _⟩
  apply hnot
  have hmine := h.formed.parent q item hq hne
  have hserver := s.server.formed.parent q item' hitem' hne
  rw [hdir] at hmine hserver
  exact matches_of_directory hmine hserver

variable {p : Path → Bool} {d : Path}

/-- The records of a list whose paths are picked -/
abbrev picked (p : Path → Bool) (files : List LargeFileInfo) : List LargeFileInfo :=
  files.filter fun f => p f.path

theorem sorted_picked (h : Sorted files) : Sorted (picked p files) :=
  h.sublist List.filter_sublist

/-- What is picked of a list that has one record for each path -/
theorem not_mem_paths_picked (h : r ∈ files) :
    r.path ∉ paths (picked p files) ↔ ¬p r.path = true := by
  apply not_congr
  constructor
  · intro hmem
    obtain ⟨f, hf, heq⟩ := exists_of_mem_paths hmem
    rw [← heq]
    exact (mem_filter.mp hf).2
  · intro hpicked
    exact mem_paths (mem_filter.mpr ⟨h, hpicked⟩)

theorem mem_difference_of_picked (hl : Sorted l) :
    a ∈ Lib.setDifference fileInfoLess l (picked p l) ↔ a ∈ l ∧ a.path ∉ paths (picked p l) :=
  mem_difference_of_subset hl (sorted_picked hl) fun _ => List.mem_of_mem_filter

theorem mem_difference_picked (hl : Sorted l) :
    a ∈ Lib.setDifference fileInfoLess l (picked p l) ↔ a ∈ l ∧ ¬p a.path = true :=
  (mem_difference_of_picked hl).trans (and_congr_right fun ha => not_mem_paths_picked ha)

theorem removeFiles_eq (h : Comparing sha1 sizeBZ2 s disk) (hremove : 1 ≤ s.remove)
    (hp : ∀ r ∈ s.removeFiles, ∀ f ∈ s.removeFiles, p r.path = true →
      Below r.path f.path → p f.path = true) :
    ∃ s' disk', removeFiles s (picked p s.removeFiles) disk = some (s', disk') ∧
      Comparing sha1 sizeBZ2 s' disk' ∧ s'.server = s.server ∧ s'.remove = s.remove ∧
      s'.updateFiles = s.updateFiles ∧ s'.updateFlags = s.updateFlags ∧
      (∀ r, r ∈ s'.removeFiles ↔ r ∈ s.removeFiles ∧ ¬p r.path = true) ∧
      ∀ q, disk'.get q =
        if q ∈ paths (picked p s.removeFiles) then none else disk.get q := by
  have hmem {r : LargeFileInfo} (hr : r ∈ picked p s.removeFiles) :
      r ∈ s.removeFiles := List.mem_of_mem_filter hr
  have hlocal {r : LargeFileInfo} (hr : r ∈ picked p s.removeFiles) :
      r ∈ s.localFiles := ((h.mem_remove r).mp (hmem hr)).1
  have hsorted : Sorted (picked p s.removeFiles) := sorted_picked h.removeSorted
  have hnone {q : Path} (hq : q ∈ paths (picked p s.removeFiles)) :
      ¬Matches disk s.server q := by
    obtain ⟨r, hr, rfl⟩ := exists_of_mem_paths hq
    exact ((h.mem_remove r).mp (hmem hr)).2
  obtain ⟨disk', hdisk, hformed, hget⟩ := removeAll_eq s h.formed hsorted
    (fun r hr => by
      obtain ⟨item, hitem, -⟩ := h.synced.described r (hlocal hr)
      exact ⟨ne_root_of_not_matches h.formed (hnone (mem_paths hr)), item, hitem⟩)
    (fun r hr q item hq hdir => by
      obtain ⟨hbelow, hq⟩ := h.children (hmem hr) hq hdir
      obtain ⟨f, hf, rfl⟩ := exists_of_mem_paths hq
      apply mem_paths
      exact mem_filter.mpr ⟨hf, hp r (hmem hr) f hf (mem_filter.mp hr).2 hbelow⟩)
  generalize hfiles : picked p s.removeFiles = files at *
  have hsame {q : Path} (hq : q ∉ paths files) : disk'.get q = disk.get q := by
    rw [hget, if_neg hq]
  have hgone {q : Path} (hq : q ∈ paths files) : disk'.get q = none := by
    rw [hget, if_pos hq]
  have hmemLocal (r : LargeFileInfo) : r ∈ Lib.setDifference fileInfoLess s.localFiles files ↔
      r ∈ s.localFiles ∧ r.path ∉ paths files :=
    mem_difference_of_subset h.synced.sorted hsorted fun f hf => hlocal hf
  have hmemRemove (r : LargeFileInfo) : r ∈ Lib.setDifference fileInfoLess s.removeFiles files ↔
      r ∈ s.removeFiles ∧ r.path ∉ paths files := by
    rw [← hfiles]
    exact mem_difference_of_picked h.removeSorted
  have hmatches (q : Path) : Matches disk' s.server q ↔ Matches disk s.server q := by
    by_cases hq : q ∈ paths files
    · exact iff_of_false (not_matches_of_none (hgone hq)) (hnone hq)
    · exact matches_congr (hsame hq)
  have hagrees (q : Path) : Agrees disk' s.server q ↔ Agrees disk s.server q := by
    by_cases hq : q ∈ paths files
    · exact iff_of_false (fun hagrees => not_matches_of_none (hgone hq) hagrees.matches)
        fun hagrees => hnone hq hagrees.matches
    · exact agrees_congr (hsame hq)
  refine ⟨{ s with
    localFiles := Lib.setDifference fileInfoLess s.localFiles files
    removeFiles := Lib.setDifference fileInfoLess s.removeFiles files }, disk', ?_, ?_,
    rfl, rfl, rfl, rfl, ?_, hget⟩
  · unfold removeFiles
    rw [if_neg (by omega), hdisk]
    rfl
  · constructor
    · exact hformed
    · constructor
      · exact sorted_setDifference h.synced.sorted files
      · intro r hr
        obtain ⟨hr, hout⟩ := (hmemLocal r).mp hr
        rw [hsame hout]
        exact h.synced.described r hr
      · intro q item hq
        by_cases hmem : q ∈ paths files
        · rw [hgone hmem] at hq
          cases hq
        · rw [hsame hmem] at hq
          obtain ⟨r, hr, rfl⟩ := h.synced.listed q item hq
          exact ⟨r, (hmemLocal r).mpr ⟨hr, hmem⟩, rfl⟩
    · exact sorted_setDifference h.removeSorted files
    · exact h.updateSorted
    · exact h.flagsSorted
    · intro r
      dsimp only
      rw [hmemRemove, hmemLocal, hmatches, h.mem_remove]
      exact and_right_comm
    · intro f
      rw [hmatches]
      exact h.mem_update f
    · intro f
      rw [hmatches, hagrees]
      exact h.mem_flags f
  · intro r
    rw [← hfiles]
    exact mem_difference_picked h.removeSorted

/-- A record of the server is stored where nothing is. -/
theorem updateFile_eq (hformed : Formed disk) (hnone : disk.get f.path = none)
    (hparent : disk.get (getDirname f.path) = some .directory)
    (hitem : server.disk.get f.path = some item)
    (hrecord : f = fileInfo sha1 sizeBZ2 f.path item)
    (hplain : f.size = 0 → f.executable = false) :
    ∃ disk', updateFile server disk f = some disk' ∧ Stored disk f.path item disk' := by
  unfold updateFile
  cases item with
  | directory =>
    have hsize : f.size = -1 := by rw [hrecord]; rfl
    rw [if_pos (by omega), createDirectoryRecursive_new hformed hparent hnone]
    exact ⟨_, rfl, stored_put disk f.path .directory⟩
  | regular content executable =>
    have hflag : f.executable = executable := by rw [hrecord]; rfl
    by_cases hcontent : content = []
    · have hsize : f.size = 0 := by
        rw [hrecord]
        exact if_pos hcontent
      have hexecutable := hplain hsize
      rw [if_neg (by omega), if_pos hsize, openFile_new hparent hnone]
      refine ⟨_, rfl, ?_⟩
      rw [hcontent, ← hflag, hexecutable]
      exact stored_put disk f.path (.regular [] false)
    · have hsize : f.size = ((sizeBZ2 content : Nat) : Int) := by
        rw [hrecord]
        exact if_neg hcontent
      have hpos := (sizeBZ2 content).pos
      rw [if_neg (by omega), if_neg (by omega), hitem, hflag]
      exact decompress_new hformed hparent hnone content executable

/-- The records come in an order in which a directory is made before what is in it. -/
theorem updateAll_eq (hformed : Formed disk) (hsorted : Sorted files)
    (hfiles : ∀ f ∈ files, f.path ≠ [dot] ∧ disk.get f.path = none ∧
      ∃ item, server.disk.get f.path = some item ∧ f = fileInfo sha1 sizeBZ2 f.path item)
    (hparents : ∀ f ∈ files, disk.get (getDirname f.path) = some .directory ∨
      (getDirname f.path ∈ paths files ∧
        server.disk.get (getDirname f.path) = some .directory))
    (hplain : ∀ f ∈ files, f.size = 0 → f.executable = false) :
    ∃ disk', files.foldlM (updateFile server) disk = some disk' ∧ Formed disk' ∧
      ∀ q, disk'.get q = if q ∈ paths files then server.disk.get q else disk.get q := by
  induction files generalizing disk with
  | nil => exact ⟨disk, rfl, hformed, fun q => rfl⟩
  | cons f files ih =>
    obtain ⟨hbelow, hsorted⟩ := pairwise_cons.mp hsorted
    obtain ⟨hroot, hnone, item, hitem, hrecord⟩ := hfiles f (mem_cons_self ..)
    have hparent : disk.get (getDirname f.path) = some .directory := by
      rcases hparents f (mem_cons_self ..) with hparent | ⟨hmem, -⟩
      · exact hparent
      · obtain ⟨g, hg, hdir⟩ := exists_of_mem_paths hmem
        have hlt := (below_of_getDirname hdir.symm (hfiles g hg).1).lt
        rcases mem_cons.mp hg with rfl | hg
        · exact absurd hlt (lt_irrefl _)
        · exact absurd hlt (hbelow g hg).asymm
    obtain ⟨disk₁, hupdate, hstored⟩ := updateFile_eq hformed hnone hparent hitem hrecord
      (hplain f (mem_cons_self ..))
    have hdirectory {q : Path} (hq : disk.get q = some .directory) :
        disk₁.get q = some .directory := by
      rw [hstored q, if_neg]
      · exact hq
      · rintro rfl
        rw [hnone] at hq
        cases hq
    obtain ⟨disk', heq, hformed', hget⟩ := ih
      (formed_stored hformed hroot hnone hparent (server.formed.names _ item hitem) hstored)
      hsorted
      (fun g hg => by
        obtain ⟨hgroot, hgnone, hserver⟩ := hfiles g (mem_cons_of_mem f hg)
        refine ⟨hgroot, ?_, hserver⟩
        rw [hstored, if_neg (hbelow g hg).ne']
        exact hgnone)
      (fun g hg => by
        rcases hparents g (mem_cons_of_mem f hg) with hparent | ⟨hmem, hserver⟩
        · exact Or.inl (hdirectory hparent)
        · rcases mem_cons.mp hmem with hdir | hmem
          · left
            rw [hstored, if_pos hdir]
            rwa [hdir, hitem] at hserver
          · exact Or.inr ⟨hmem, hserver⟩)
      (fun g hg => hplain g (mem_cons_of_mem f hg))
    refine ⟨disk', ?_, hformed', ?_⟩
    · rw [foldlM_cons, hupdate]
      exact heq
    · intro q
      rw [hget, hstored]
      by_cases hq : q = f.path
      · rw [if_pos hq, hq, hitem, ite_self, if_pos]
        exact mem_cons_self ..
      · rw [if_neg hq]
        apply if_congr _ rfl rfl
        unfold paths
        rw [map_cons, mem_cons, or_iff_right hq]

/-- What is stored from the server is the same as there. -/
theorem agrees_of_stored (hget : ∀ q, disk'.get q =
      if q ∈ paths files then server.disk.get q else disk.get q)
    (hserver : ∀ f ∈ files, ∃ item, server.disk.get f.path = some item) (q : Path) :
    (Agrees disk' server q ↔ q ∈ paths files ∨ Agrees disk server q) ∧
      (Matches disk' server q ↔ q ∈ paths files ∨ Matches disk server q) := by
  by_cases hq : q ∈ paths files
  · obtain ⟨f, hf, rfl⟩ := exists_of_mem_paths hq
    obtain ⟨item, hitem⟩ := hserver f hf
    have hagrees : Agrees disk' server f.path := by
      refine ⟨item, ?_, hitem⟩
      rw [hget, if_pos hq]
      exact hitem
    exact ⟨iff_of_true hagrees (Or.inl hq), iff_of_true hagrees.matches (Or.inl hq)⟩
  · have hsame : disk'.get q = disk.get q := by rw [hget, if_neg hq]
    rw [agrees_congr hsame, matches_congr hsame, or_iff_right hq, or_iff_right hq]
    exact ⟨Iff.rfl, Iff.rfl⟩

/-- Records of the server join a list without records for their paths. -/
theorem synced_union (hlocal : Sorted l) (hfiles : Sorted files)
    (hdisjoint : ∀ f ∈ files, f.path ∉ paths l)
    (hdescribed : ∀ r ∈ l, ∃ item, disk.get r.path = some item ∧
      r.key = (fileInfo sha1 sizeBZ2 r.path item).key)
    (hlisted : ∀ q item, q ∉ paths files → disk.get q = some item → q ∈ paths l)
    (hserver : ∀ f ∈ files, f ∈ fileList sha1 sizeBZ2 server)
    (hget : ∀ q, disk'.get q = if q ∈ paths files then server.disk.get q else disk.get q) :
    Synced sha1 sizeBZ2 disk' (Lib.setUnion fileInfoLess l files) := by
  have hmem {r : LargeFileInfo} : r ∈ Lib.setUnion fileInfoLess l files ↔ r ∈ l ∨ r ∈ files :=
    mem_union_of_disjoint hlocal hfiles hdisjoint
  constructor
  · exact sorted_union_of_disjoint hlocal hfiles hdisjoint
  · intro r hr
    rcases hmem.mp hr with hr | hr
    · rw [hget, if_neg (not_mem_paths_of_disjoint hdisjoint hr)]
      exact hdescribed r hr
    · obtain ⟨item, hitem, heq⟩ := (mem_fileList server).mp (hserver r hr)
      refine ⟨item, ?_, congrArg LargeFileInfo.key heq⟩
      rw [hget, if_pos (mem_paths hr)]
      exact hitem
  · intro q item hq
    by_cases hpath : q ∈ paths files
    · obtain ⟨f, hf, heq⟩ := exists_of_mem_paths hpath
      exact ⟨f, hmem.mpr (Or.inr hf), heq⟩
    · rw [hget, if_neg hpath] at hq
      obtain ⟨r, hr, heq⟩ := exists_of_mem_paths (hlisted q item hpath hq)
      exact ⟨r, hmem.mpr (Or.inl hr), heq⟩

/-- A directory of the server that is not on disk is to be made. -/
theorem Comparing.directory_mem (h : Comparing sha1 sizeBZ2 s disk)
    (hserver : s.server.disk.get q = some .directory) (hnot : ¬Matches disk s.server q) :
    fileInfo sha1 sizeBZ2 q .directory ∈ s.updateFiles := by
  rw [h.mem_update, mem_fileList, path_fileInfo]
  exact ⟨⟨.directory, hserver, rfl⟩, hnot⟩

theorem updateFiles_eq (h : Comparing sha1 sizeBZ2 s disk)
    (hfree : ∀ f ∈ s.updateFiles, p f.path = true → disk.get f.path = none)
    (hparents : ∀ f ∈ s.updateFiles, p f.path = true →
      disk.get (getDirname f.path) = some .directory ∨ p (getDirname f.path) = true)
    (hplain : ∀ f ∈ s.updateFiles, p f.path = true → f.size = 0 → f.executable = false) :
    ∃ s' disk', updateFiles s (picked p s.updateFiles) disk = some (s', disk') ∧
      Comparing sha1 sizeBZ2 s' disk' ∧ s'.server = s.server ∧ s'.remove = s.remove ∧
      s'.removeFiles = s.removeFiles ∧ s'.updateFlags = s.updateFlags ∧
      (∀ f, f ∈ s'.updateFiles ↔ f ∈ s.updateFiles ∧ ¬p f.path = true) ∧
      ∀ q, disk'.get q = if q ∈ paths (picked p s.updateFiles)
        then s.server.disk.get q else disk.get q := by
  have hmem {f : LargeFileInfo} (hf : f ∈ picked p s.updateFiles) :
      f ∈ s.updateFiles ∧ p f.path = true := mem_filter.mp hf
  have hserver {f : LargeFileInfo} (hf : f ∈ picked p s.updateFiles) :
      f ∈ fileList sha1 sizeBZ2 s.server := ((h.mem_update f).mp (hmem hf).1).1
  have hitem {f : LargeFileInfo} (hf : f ∈ picked p s.updateFiles) :
      ∃ item, s.server.disk.get f.path = some item ∧ f = fileInfo sha1 sizeBZ2 f.path item :=
    (mem_fileList s.server).mp (hserver hf)
  have hsorted : Sorted (picked p s.updateFiles) := sorted_picked h.updateSorted
  obtain ⟨disk', hdisk, hformed, hget⟩ := updateAll_eq h.formed hsorted
    (fun f hf => ⟨ne_root_of_not_matches h.formed ((h.mem_update f).mp (hmem hf).1).2,
      hfree f (hmem hf).1 (hmem hf).2, hitem hf⟩)
    (fun f hf => by
      obtain ⟨item, hitem, -⟩ := hitem hf
      have hserver := s.server.formed.parent f.path item hitem
        (ne_root_of_not_matches h.formed ((h.mem_update f).mp (hmem hf).1).2)
      rcases hparents f (hmem hf).1 (hmem hf).2 with hparent | hpicked
      · exact Or.inl hparent
      · by_cases hmatches : Matches disk s.server (getDirname f.path)
        · exact Or.inl (hmatches.directory hserver)
        · right
          refine ⟨?_, hserver⟩
          rw [← @path_fileInfo sha1 sizeBZ2 (getDirname f.path) .directory] at hpicked ⊢
          exact mem_paths (mem_filter.mpr ⟨h.directory_mem hserver hmatches, hpicked⟩))
    (fun f hf => hplain f (hmem hf).1 (hmem hf).2)
  have hcompare (q : Path) := agrees_of_stored hget
    (fun f hf => ⟨_, (hitem hf).choose_spec.1⟩) q
  have hdisjoint : ∀ f ∈ picked p s.updateFiles, f.path ∉ paths s.localFiles := by
    intro f hf hpath
    obtain ⟨r, hr, heq⟩ := exists_of_mem_paths hpath
    obtain ⟨item, hitem, -⟩ := h.synced.described r hr
    rw [heq, hfree f (hmem hf).1 (hmem hf).2] at hitem
    cases hitem
  have hunmatched {q : Path} (hq : q ∈ paths (picked p s.updateFiles)) :
      ¬Matches disk s.server q := by
    obtain ⟨f, hf, rfl⟩ := exists_of_mem_paths hq
    exact ((h.mem_update f).mp (hmem hf).1).2
  refine ⟨{ s with
    localFiles := Lib.setUnion fileInfoLess s.localFiles (picked p s.updateFiles)
    updateFiles := Lib.setDifference fileInfoLess s.updateFiles
      (picked p s.updateFiles) }, disk', ?_, ?_, rfl, rfl, rfl, rfl, ?_, hget⟩
  · unfold updateFiles
    rw [hdisk]
    rfl
  · constructor
    · exact hformed
    · exact synced_union h.synced.sorted hsorted hdisjoint h.synced.described
        (fun q item _ hq => by
          obtain ⟨r, hr, heq⟩ := h.synced.listed q item hq
          rw [← heq]
          exact mem_paths hr)
        (fun f hf => hserver hf) hget
    · exact h.removeSorted
    · exact sorted_setDifference h.updateSorted _
    · exact h.flagsSorted
    · intro r
      dsimp only
      rw [mem_union_of_disjoint h.synced.sorted hsorted hdisjoint, (hcompare r.path).2,
        h.mem_remove, not_or]
      constructor
      · rintro ⟨hr, hnot⟩
        exact ⟨Or.inl hr, not_mem_paths_of_disjoint hdisjoint hr, hnot⟩
      · rintro ⟨hr | hr, hout, hnot⟩
        · exact ⟨hr, hnot⟩
        · exact absurd (mem_paths hr) hout
    · intro f
      dsimp only
      rw [mem_difference_of_picked h.updateSorted, (hcompare f.path).2, h.mem_update, not_or,
        and_assoc]
      exact and_congr_right fun _ => and_comm
    · intro f
      dsimp only
      rw [(hcompare f.path).1, (hcompare f.path).2, h.mem_flags, not_or]
      apply and_congr_right
      intro _
      constructor
      · rintro ⟨hmatches, hnot⟩
        exact ⟨Or.inr hmatches, fun hpath => hunmatched hpath hmatches, hnot⟩
      · rintro ⟨hmatches, hout, hnot⟩
        exact ⟨hmatches.resolve_left hout, hnot⟩
  · exact fun f => mem_difference_picked h.updateSorted

/-- Files with the content that they have on the server get the flag as well. -/
theorem setFlags_eq (hformed : Formed disk) (hsorted : Sorted files)
    (hfiles : ∀ f ∈ files, ∃ content executable executable',
      disk.get f.path = some (.regular content executable) ∧
      server.disk.get f.path = some (.regular content executable') ∧
      f = fileInfo sha1 sizeBZ2 f.path (.regular content executable')) :
    ∃ disk', files.foldlM (fun disk p => if 0 ≤ p.size then disk.setFileFlags p.path p.executable
        else some disk) disk = some disk' ∧ Formed disk' ∧
      ∀ q, disk'.get q = if q ∈ paths files then server.disk.get q else disk.get q := by
  induction files generalizing disk with
  | nil => exact ⟨disk, rfl, hformed, fun q => rfl⟩
  | cons f files ih =>
    obtain ⟨hbelow, hsorted⟩ := pairwise_cons.mp hsorted
    obtain ⟨content, executable, executable', hitem, hserver, hrecord⟩ :=
      hfiles f (mem_cons_self ..)
    have hsize : 0 ≤ f.size := by
      rw [hrecord]
      unfold fileInfo
      dsimp only
      split
      · exact le_refl _
      · exact Int.natCast_nonneg _
    have hflag : f.executable = executable' := by rw [hrecord]; rfl
    have hstored := stored_put disk f.path (.regular content executable')
    generalize hput : disk.put f.path (.regular content executable') = disk₁ at hstored
    have hflags : disk.setFileFlags f.path f.executable = some disk₁ := by
      unfold Disk.setFileFlags
      rw [hitem, hflag, ← hput]
    have hformed₁ : Formed disk₁ := formed_restored hformed hitem hstored
    obtain ⟨disk', heq, hformed', hget⟩ := ih hformed₁ hsorted (fun g hg => by
      obtain ⟨content, executable, executable', hitem, hg'⟩ :=
        hfiles g (mem_cons_of_mem f hg)
      refine ⟨content, executable, executable', ?_, hg'⟩
      rw [hstored, if_neg (hbelow g hg).ne']
      exact hitem)
    refine ⟨disk', ?_, hformed', ?_⟩
    · rw [foldlM_cons, if_pos hsize, hflags]
      exact heq
    · intro q
      rw [hget, hstored]
      by_cases hq : q = f.path
      · rw [if_pos hq, hq, hserver, ite_self, if_pos]
        exact mem_cons_self ..
      · rw [if_neg hq]
        apply if_congr _ rfl rfl
        unfold paths
        rw [map_cons, mem_cons, or_iff_right hq]

theorem updateFlags_eq (h : Comparing sha1 sizeBZ2 s disk) :
    ∃ s' disk', updateFlags s (picked p s.updateFlags) disk = some (s', disk') ∧
      Comparing sha1 sizeBZ2 s' disk' ∧ s'.server = s.server ∧ s'.remove = s.remove ∧
      s'.removeFiles = s.removeFiles ∧ s'.updateFiles = s.updateFiles ∧
      (∀ f, f ∈ s'.updateFlags ↔ f ∈ s.updateFlags ∧ ¬p f.path = true) ∧
      ∀ q, disk'.get q = if q ∈ paths (picked p s.updateFlags)
        then s.server.disk.get q else disk.get q := by
  have hmem {f : LargeFileInfo} (hf : f ∈ picked p s.updateFlags) :
      f ∈ s.updateFlags := (mem_filter.mp hf).1
  have hregular {f : LargeFileInfo} (hf : f ∈ picked p s.updateFlags) :
      ∃ content executable executable',
        disk.get f.path = some (.regular content executable) ∧
        s.server.disk.get f.path = some (.regular content executable') ∧
        f = fileInfo sha1 sizeBZ2 f.path (.regular content executable') := by
    obtain ⟨hlist, ⟨item, item', hitem, hitem', halike⟩, hnot⟩ := (h.mem_flags f).mp (hmem hf)
    obtain ⟨item₁, hitem₁, hrecord⟩ := (mem_fileList s.server).mp hlist
    cases hitem'.symm.trans hitem₁
    cases item with
    | directory =>
      cases item' with
      | directory => exact absurd ⟨_, hitem, hitem'⟩ hnot
      | regular content' executable' => exact halike.elim
    | regular content executable =>
      cases item' with
      | directory => exact halike.elim
      | regular content' executable' =>
        change content = content' at halike
        subst halike
        exact ⟨content, executable, executable', hitem, hitem', hrecord⟩
  have hsorted : Sorted (picked p s.updateFlags) := sorted_picked h.flagsSorted
  obtain ⟨disk', hdisk, hformed, hget⟩ := setFlags_eq h.formed hsorted fun f hf => hregular hf
  have hmatched {q : Path} (hq : q ∈ paths (picked p s.updateFlags)) :
      Matches disk s.server q := by
    obtain ⟨f, hf, rfl⟩ := exists_of_mem_paths hq
    exact ((h.mem_flags f).mp (hmem hf)).2.1
  have hcompare (q : Path) := agrees_of_stored hget
    (fun f hf => by
      obtain ⟨content, -, executable', -, hserver, -⟩ := hregular hf
      exact ⟨.regular content executable', hserver⟩) q
  have hmatches (q : Path) : Matches disk' s.server q ↔ Matches disk s.server q := by
    rw [(hcompare q).2, or_iff_right_iff_imp]
    exact hmatched
  -- The old records of the files go, whatever their flags are.
  have hmemLocal (r : LargeFileInfo) : r ∈ Lib.setDifference fileInfoWithoutFlagsLess s.localFiles
      (picked p s.updateFlags) ↔
      r ∈ s.localFiles ∧ r.path ∉ paths (picked p s.updateFlags) := by
    rw [mem_withoutFlags h.synced.sorted hsorted]
    apply and_congr_right
    intro hr
    constructor
    · intro hne hpath
      obtain ⟨f, hf, heq⟩ := exists_of_mem_paths hpath
      obtain ⟨content, executable, executable', hitem, -, hrecord⟩ := hregular hf
      obtain ⟨item, hitem', hkey⟩ := h.synced.described r hr
      apply hne f hf
      rw [heq] at hitem hrecord
      cases hitem.symm.trans hitem'
      have halike : Item.Alike (.regular content executable') (.regular content executable) := rfl
      rw [(key_eq_iff_keyWithoutFlags.mp hkey).1, hrecord]
      exact halike.keyWithoutFlags_eq r.path
    · intro hout f hf heq
      apply hout
      rw [← path_eq_of_keyWithoutFlags_eq heq]
      exact mem_paths hf
  have hlocal : Sorted (Lib.setDifference fileInfoWithoutFlagsLess s.localFiles
      (picked p s.updateFlags)) := sorted_setDifference h.synced.sorted _
  have hdisjoint : ∀ f ∈ picked p s.updateFlags,
      f.path ∉ paths (Lib.setDifference fileInfoWithoutFlagsLess s.localFiles
        (picked p s.updateFlags)) :=
    fun f hf => not_mem_paths_of_disjoint (fun r hr => ((hmemLocal r).mp hr).2) hf
  refine ⟨{ s with
    localFiles := Lib.setUnion fileInfoLess (Lib.setDifference fileInfoWithoutFlagsLess
      s.localFiles (picked p s.updateFlags))
      (picked p s.updateFlags)
    updateFlags := Lib.setDifference fileInfoLess s.updateFlags
      (picked p s.updateFlags) }, disk', ?_, ?_, rfl, rfl, rfl, rfl, ?_, hget⟩
  · unfold updateFlags
    rw [hdisk]
    rfl
  · constructor
    · exact hformed
    · apply synced_union hlocal hsorted hdisjoint
      · intro r hr
        exact h.synced.described r ((hmemLocal r).mp hr).1
      · intro q item hout hq
        obtain ⟨r, hr, rfl⟩ := h.synced.listed q item hq
        exact mem_paths ((hmemLocal r).mpr ⟨hr, hout⟩)
      · exact fun f hf => ((h.mem_flags f).mp (hmem hf)).1
      · exact hget
    · exact h.removeSorted
    · exact h.updateSorted
    · exact sorted_setDifference h.flagsSorted _
    · intro r
      dsimp only
      rw [mem_union_of_disjoint hlocal hsorted hdisjoint, hmemLocal, hmatches, h.mem_remove]
      constructor
      · rintro ⟨hr, hnot⟩
        exact ⟨Or.inl ⟨hr, fun hpath => hnot (hmatched hpath)⟩, hnot⟩
      · rintro ⟨⟨hr, -⟩ | hr, hnot⟩
        · exact ⟨hr, hnot⟩
        · exact absurd (hmatched (mem_paths hr)) hnot
    · intro f
      rw [hmatches]
      exact h.mem_update f
    · intro f
      dsimp only
      rw [mem_difference_of_picked h.flagsSorted, hmatches, (hcompare f.path).1,
        h.mem_flags, not_or]
      tauto
  · exact fun f => mem_difference_picked h.flagsSorted

/-- What `patch` is meant to be about -/
def Picked (d path : Path) : Prop :=
  simplify d = [] ∨ simplify d = [dot] ∨ path = simplify d ∨ Below (simplify d) path

/-- The call meets none of what `patch` does wrong: its comparisons find the directory and nothing
else, the directory is in one that exists, a new empty file is not executable, and what is in the
way of an update is removed. -/
structure CarefulPatch (s : Session) (disk : Disk) (d : Path) : Prop where
  covers : ∀ f, (1 ≤ s.remove ∧ f ∈ s.removeFiles) ∨ f ∈ s.updateFiles ∨ f ∈ s.updateFlags →
    (picks d f.path = true ↔ Picked d f.path)
  above : (∃ f ∈ s.updateFiles, f.path = simplify d) → Picked d (getDirname (simplify d)) ∨
    disk.get (getDirname (simplify d)) = some .directory
  plain : ∀ f ∈ s.updateFiles, Picked d f.path → f.size = 0 → f.executable = false
  removes : 1 ≤ s.remove ∨
    ∀ r ∈ s.removeFiles, ∀ f ∈ s.updateFiles, Picked d f.path → r.path ≠ f.path

theorem picked_of_below (h : Picked d path) (hbelow : Below path q) : Picked d q := by
  rcases h with h | h | h | h
  · exact Or.inl h
  · exact Or.inr (Or.inl h)
  · rw [h] at hbelow
    exact Or.inr (Or.inr (Or.inr hbelow))
  · exact Or.inr (Or.inr (Or.inr (h.trans hbelow)))

section

variable (sha1 sizeBZ2)

/-- What a part of `patch` did for the paths that it was given -/
structure Advanced (s : Session) (disk : Disk) (d : Path) (s' : Session) (disk' : Disk) : Prop where
  comparing : Comparing sha1 sizeBZ2 s' disk'
  server : s'.server = s.server
  remove : s'.remove = s.remove
  same : ∀ q, ¬Picked d q → disk'.get q = disk.get q

end

theorem Advanced.trans {s' s'' : Session} {disk'' : Disk}
    (h : Advanced sha1 sizeBZ2 s disk d s' disk')
    (h' : Advanced sha1 sizeBZ2 s' disk' d s'' disk'') :
    Advanced sha1 sizeBZ2 s disk d s'' disk'' := by
  constructor
  · exact h'.comparing
  · exact h'.server.trans h.server
  · exact h'.remove.trans h.remove
  · intro q hq
    exact (h'.same q hq).trans (h.same q hq)

theorem Advanced.refl (h : Comparing sha1 sizeBZ2 s disk) :
    Advanced sha1 sizeBZ2 s disk d s disk := by
  constructor
  · exact h
  · rfl
  · rfl
  · exact fun _ _ => rfl

theorem not_mem_of_not_picked (hcovers : ∀ f ∈ files, picks d f.path = true ↔ Picked d f.path)
    (hq : ¬Picked d q) : q ∉ paths (picked (picks d) files) := by
  intro hmem
  obtain ⟨f, hf, rfl⟩ := exists_of_mem_paths hmem
  obtain ⟨hf, hpicks⟩ := mem_filter.mp hf
  exact hq ((hcovers f hf).mp hpicks)

theorem not_picked_of_nil (hcovers : ∀ f ∈ files, picks d f.path = true ↔ Picked d f.path)
    (hempty : picked (picks d) files = []) (hf : f ∈ files) : ¬Picked d f.path := by
  intro hpicked
  have hmem : f ∈ picked (picks d) files := mem_filter.mpr ⟨hf, (hcovers f hf).mpr hpicked⟩
  rw [hempty] at hmem
  cases hmem

theorem removing_eq (h : Comparing sha1 sizeBZ2 s disk) (hd : CarefulPatch s disk d) :
    ∃ s' disk', (if picked (picks d) s.removeFiles = [] then some (s, disk)
        else removeFiles s (picked (picks d) s.removeFiles) disk) = some (s', disk') ∧
      Advanced sha1 sizeBZ2 s disk d s' disk' ∧
      s'.updateFiles = s.updateFiles ∧ s'.updateFlags = s.updateFlags ∧
      (1 ≤ s.remove → ∀ r ∈ s.removeFiles, Picked d r.path →
        r ∉ s'.removeFiles ∧ disk'.get r.path = none) ∧
      (∀ r ∈ s'.removeFiles, r ∈ s.removeFiles) ∧
      ∀ q, disk'.get q = none ∨ disk'.get q = disk.get q := by
  have hcovers : 1 ≤ s.remove → ∀ r ∈ s.removeFiles, picks d r.path = true ↔ Picked d r.path :=
    fun hremove r hr => hd.covers r (Or.inl ⟨hremove, hr⟩)
  by_cases hempty : picked (picks d) s.removeFiles = []
  · refine ⟨s, disk, if_pos hempty, .refl h, rfl, rfl, ?_, fun r hr => hr, fun q => Or.inr rfl⟩
    intro hremove r hr hpicked
    exact absurd hpicked (not_picked_of_nil (hcovers hremove) hempty hr)
  · rw [if_neg hempty]
    by_cases hremove : s.remove < 1
    · refine ⟨s, disk, if_pos hremove, .refl h, rfl, rfl, ?_, fun r hr => hr, fun q => Or.inr rfl⟩
      intro hremove'
      omega
    · replace hcovers := hcovers (by omega)
      obtain ⟨s', disk', heq, hcomparing, hserver, hremove', hupdate, hflags, hmem, hget⟩ :=
        removeFiles_eq h (p := picks d) (by omega) (fun r hr f hf hpicks hbelow =>
          (hcovers f hf).mpr (picked_of_below ((hcovers r hr).mp hpicks) hbelow))
      refine ⟨s', disk', heq, ⟨hcomparing, hserver, hremove', ?_⟩, hupdate, hflags, ?_, ?_, ?_⟩
      · intro q hq
        rw [hget, if_neg (not_mem_of_not_picked hcovers hq)]
      · intro _ r hr hpicked
        have hpicks := (hcovers r hr).mpr hpicked
        constructor
        · intro hr'
          exact ((hmem r).mp hr').2 hpicks
        · rw [hget, if_pos]
          exact mem_paths (mem_filter.mpr ⟨hr, hpicks⟩)
      · exact fun r hr => ((hmem r).mp hr).1
      · intro q
        rw [hget]
        split
        · exact Or.inl rfl
        · exact Or.inr rfl

/-- What is given to `updateFiles` is free by then, and there is a directory for it. -/
theorem updating_eq {s₀ : Session} {disk₀ : Disk} (h₀ : Comparing sha1 sizeBZ2 s₀ disk₀)
    (hd : CarefulPatch s₀ disk₀ d) (h : Advanced sha1 sizeBZ2 s₀ disk₀ d s disk)
    (hupdate : s.updateFiles = s₀.updateFiles)
    (hremoved : 1 ≤ s₀.remove → ∀ r ∈ s₀.removeFiles, Picked d r.path → disk.get r.path = none)
    (hold : ∀ q, disk.get q = none ∨ disk.get q = disk₀.get q) :
    ∃ s' disk', (if picked (picks d) s₀.updateFiles = [] then some (s, disk)
        else updateFiles s (picked (picks d) s₀.updateFiles) disk) =
          some (s', disk') ∧
      Advanced sha1 sizeBZ2 s disk d s' disk' ∧
      s'.removeFiles = s.removeFiles ∧ s'.updateFlags = s.updateFlags ∧
      ∀ f ∈ s'.updateFiles, f ∈ s.updateFiles ∧ ¬Picked d f.path := by
  have hcovers : ∀ f ∈ s₀.updateFiles, picks d f.path = true ↔ Picked d f.path :=
    fun f hf => hd.covers f (Or.inr (Or.inl hf))
  rw [← hupdate] at hcovers ⊢
  by_cases hempty : picked (picks d) s.updateFiles = []
  · refine ⟨s, disk, if_pos hempty, .refl h.comparing, rfl, rfl, ?_⟩
    exact fun f hf => ⟨hf, not_picked_of_nil hcovers hempty hf⟩
  · rw [if_neg hempty]
    obtain ⟨s', disk', heq, hcomparing, hserver, hremove, hrest, hflags, hmem, hget⟩ :=
      updateFiles_eq h.comparing (p := picks d)
        (fun f hf hpicks => by
          have hpicked := (hcovers f hf).mp hpicks
          rcases hold f.path with hnone | hsame
          · exact hnone
          · cases hitem : disk₀.get f.path with
            | none => rw [hsame, hitem]
            | some item =>
              rw [hupdate] at hf
              obtain ⟨r, hr, hpath⟩ := h₀.synced.listed f.path item hitem
              have hrm : r ∈ s₀.removeFiles := by
                rw [h₀.mem_remove, hpath]
                exact ⟨hr, ((h₀.mem_update f).mp hf).2⟩
              rcases hd.removes with hremove | hnone
              · rw [← hpath]
                apply hremoved hremove r hrm
                rwa [hpath]
              · exact absurd hpath (hnone r hrm f hf hpicked))
        (fun f hf hpicks => by
          have hpicked := (hcovers f hf).mp hpicks
          by_cases hparent : Picked d (getDirname f.path)
          · obtain ⟨hlist, hnot⟩ := (h.comparing.mem_update f).mp hf
            obtain ⟨item, hitem, -⟩ := (mem_fileList s.server).mp hlist
            have hserver := s.server.formed.parent f.path item hitem
              (ne_root_of_not_matches h.comparing.formed hnot)
            by_cases hmatches : Matches disk s.server (getDirname f.path)
            · exact Or.inl (hmatches.directory hserver)
            · right
              rw [← @path_fileInfo sha1 sizeBZ2 (getDirname f.path) .directory] at hparent ⊢
              exact (hcovers _ (h.comparing.directory_mem hserver hmatches)).mpr hparent
          · have hdir : f.path = simplify d := by
              rcases hpicked with hd | hd | heq | hbelow
              · exact absurd (Or.inl hd) hparent
              · exact absurd (Or.inr (Or.inl hd)) hparent
              · exact heq
              · exact absurd (Or.inr (Or.inr hbelow.getDirname)) hparent
            left
            rw [h.same _ hparent, hdir]
            rw [hdir] at hparent
            rw [hupdate] at hf
            exact (hd.above ⟨f, hf, hdir⟩).resolve_left hparent)
        (fun f hf hpicks => by
          rw [hupdate] at hf
          have hpicked := (hd.covers f (Or.inr (Or.inl hf))).mp hpicks
          exact hd.plain f hf hpicked)
    refine ⟨s', disk', heq, ⟨hcomparing, hserver, hremove, ?_⟩, hrest, hflags, ?_⟩
    · intro q hq
      rw [hget, if_neg (not_mem_of_not_picked hcovers hq)]
    · intro f hf
      obtain ⟨hf, hnot⟩ := (hmem f).mp hf
      exact ⟨hf, fun hpicked => hnot ((hcovers f hf).mpr hpicked)⟩

theorem flagging_eq {s₀ : Session} {disk₀ : Disk} (hd : CarefulPatch s₀ disk₀ d)
    (h : Comparing sha1 sizeBZ2 s disk) (hflags : s.updateFlags = s₀.updateFlags) :
    ∃ s' disk', (if picked (picks d) s₀.updateFlags = [] then some (s, disk)
        else updateFlags s (picked (picks d) s₀.updateFlags) disk) =
          some (s', disk') ∧
      Advanced sha1 sizeBZ2 s disk d s' disk' ∧
      s'.removeFiles = s.removeFiles ∧ s'.updateFiles = s.updateFiles ∧
      ∀ f ∈ s'.updateFlags, f ∈ s.updateFlags ∧ ¬Picked d f.path := by
  have hcovers : ∀ f ∈ s₀.updateFlags, picks d f.path = true ↔ Picked d f.path :=
    fun f hf => hd.covers f (Or.inr (Or.inr hf))
  rw [← hflags] at hcovers ⊢
  by_cases hempty : picked (picks d) s.updateFlags = []
  · refine ⟨s, disk, if_pos hempty, .refl h, rfl, rfl, ?_⟩
    exact fun f hf => ⟨hf, not_picked_of_nil hcovers hempty hf⟩
  · rw [if_neg hempty]
    obtain ⟨s', disk', heq, hcomparing, hserver, hremove, hrest, hupdate, hmem, hget⟩ :=
      updateFlags_eq h (p := picks d)
    refine ⟨s', disk', heq, ⟨hcomparing, hserver, hremove, ?_⟩, hrest, hupdate, ?_⟩
    · intro q hq
      rw [hget, if_neg (not_mem_of_not_picked hcovers hq)]
    · intro f hf
      obtain ⟨hf, hnot⟩ := (hmem f).mp hf
      exact ⟨hf, fun hpicked => hnot ((hcovers f hf).mpr hpicked)⟩

theorem patch_eq_bind (d : Path) : patch s d disk =
    (if picked (picks d) s.removeFiles = [] then some (s, disk)
      else removeFiles s (picked (picks d) s.removeFiles) disk).bind fun removed =>
    (if picked (picks d) s.updateFiles = [] then some removed
      else updateFiles removed.1 (picked (picks d) s.updateFiles) removed.2).bind
        fun updated =>
    if picked (picks d) s.updateFlags = [] then some updated
      else updateFlags updated.1 (picked (picks d) s.updateFlags) updated.2 := by
  unfold patch
  dsimp only
  split
  · split
    · rfl
    · rfl
  · split
    · rfl
    · rfl

/-- A careful call does not fail, and leaves nothing to do for what it is about. -/
theorem patch_eq (h : Comparing sha1 sizeBZ2 s disk) (hd : CarefulPatch s disk d) :
    ∃ s' disk', patch s d disk = some (s', disk') ∧ Advanced sha1 sizeBZ2 s disk d s' disk' ∧
      (∀ f ∈ s'.updateFiles, ¬Picked d f.path) ∧ (∀ f ∈ s'.updateFlags, ¬Picked d f.path) ∧
      (1 ≤ s.remove → ∀ r ∈ s'.removeFiles, ¬Picked d r.path) := by
  obtain ⟨s₁, disk₁, heq₁, h₁, hupdate₁, hflags₁, hgone, hremove₁, hold⟩ := removing_eq h hd
  obtain ⟨s₂, disk₂, heq₂, h₂, hremove₂, hflags₂, hupdated⟩ := updating_eq h hd h₁ hupdate₁
    (fun hremove r hr hpicked => (hgone hremove r hr hpicked).2) hold
  obtain ⟨s₃, disk₃, heq₃, h₃, hremove₃, hupdate₃, hflagged⟩ :=
    flagging_eq hd h₂.comparing (hflags₂.trans hflags₁)
  refine ⟨s₃, disk₃, ?_, h₁.trans (h₂.trans h₃), ?_, ?_, ?_⟩
  · rw [patch_eq_bind, heq₁, Option.bind_some, heq₂, Option.bind_some]
    exact heq₃
  · intro f hf
    rw [hupdate₃] at hf
    exact (hupdated f hf).2
  · exact fun f hf => (hflagged f hf).2
  · intro hremove r hr hpicked
    rw [hremove₃, hremove₂] at hr
    exact (hgone hremove r (hremove₁ r hr) hpicked).1 hr

end Ice.IcePatch2
