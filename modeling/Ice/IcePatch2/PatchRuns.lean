import Ice.IcePatch2.PatchSteps

/-!
# Sessions, one after the other

Any number of patch sessions with any servers: as long as the calls of `patch` are careful, the list
describes the data directory, and a session for everything makes the directory the server's.
-/

namespace Ice.IcePatch2

open LargeFileInfo

variable {sha1 : List Byte → List Byte} {sizeBZ2 : List Byte → ℕ+} {w w' w₀ : World}
  {disk disk' : Disk} {server : ServerTree} {s : Session} {d q : Path} {a : PatchAction}
  {l m : List LargeFileInfo}

section

variable (sha1 sizeBZ2)

/-- A data directory with its saved list -/
structure Resting (w : World) : Prop where
  session : w.session = none
  formed : Formed w.disk
  synced : Synced sha1 sizeBZ2 w.disk w.saved

/-- Between sessions the saved list describes the data directory, in one the list of the patcher. -/
def Kept (w : World) : Prop :=
  match w.session with
  | none => Formed w.disk ∧ Synced sha1 sizeBZ2 w.disk w.saved
  | some s => Comparing sha1 sizeBZ2 s w.disk

/-- A new patcher is told apart what differs, and the calls of `patch` are careful. -/
def Careful (w : World) : PatchAction → Prop
  | .prepare server _ => w.session = none ∧ ToldApart sha1 sizeBZ2 w.disk w.saved server
  | .patch d => ∃ s, w.session = some s ∧ CarefulPatch s w.disk d
  | .finish => ∃ s, w.session = some s

end

theorem Resting.kept (h : Resting sha1 sizeBZ2 w) : Kept sha1 sizeBZ2 w := by
  unfold Kept
  rw [h.session]
  exact ⟨h.formed, h.synced⟩

theorem Kept.synced (h : Kept sha1 sizeBZ2 w) (hsession : w.session = none) :
    Synced sha1 sizeBZ2 w.disk w.saved := by
  unfold Kept at h
  rw [hsession] at h
  exact h.2

theorem Kept.comparing (h : Kept sha1 sizeBZ2 w) (hsession : w.session = some s) :
    Comparing sha1 sizeBZ2 s w.disk := by
  unfold Kept at h
  rwa [hsession] at h

/-- Two lists that describe the same directory have the same keys. -/
theorem map_key_eq (hl : Synced sha1 sizeBZ2 disk l) (hm : Synced sha1 sizeBZ2 disk' m)
    (hsame : ∀ q, disk.get q = disk'.get q) :
    l.map LargeFileInfo.key = m.map LargeFileInfo.key := by
  have hsub {disk disk' : Disk} {l m : List LargeFileInfo} (hl : Synced sha1 sizeBZ2 disk l)
      (hm : Synced sha1 sizeBZ2 disk' m) (hsame : ∀ q, disk.get q = disk'.get q) :
      l.map LargeFileInfo.key ⊆ m.map LargeFileInfo.key := by
    intro k hk
    obtain ⟨r, hr, rfl⟩ := List.mem_map.mp hk
    obtain ⟨item, hitem, hkey⟩ := hl.described r hr
    rw [hsame] at hitem
    obtain ⟨f, hf, hpath⟩ := hm.listed r.path item hitem
    obtain ⟨item', hitem', hkey'⟩ := hm.described f hf
    rw [hpath, hitem] at hitem'
    cases hitem'
    rw [hkey, ← hpath, ← hkey']
    exact List.mem_map_of_mem hf
  have hsorted {disk : Disk} {l : List LargeFileInfo} (hl : Synced sha1 sizeBZ2 disk l) :
      (l.map LargeFileInfo.key).Pairwise (· < ·) := List.pairwise_map.mpr hl.sorted.key
  have hnodup {disk : Disk} {l : List LargeFileInfo} (hl : Synced sha1 sizeBZ2 disk l) :
      (l.map LargeFileInfo.key).Nodup := (hsorted hl).imp ne_of_lt
  have hperm : (l.map LargeFileInfo.key).Perm (m.map LargeFileInfo.key) := by
    rw [List.perm_ext_iff_of_nodup (hnodup hl) (hnodup hm)]
    intro k
    constructor
    · intro hk
      exact hsub hl hm hsame hk
    · intro hk
      exact hsub hm hl (fun q => (hsame q).symm) hk
  exact hperm.eq_of_pairwise (fun _ _ _ _ hab hba => absurd hab hba.asymm) (hsorted hl) (hsorted hm)

/-- With nothing left to do, the directory is the server's. -/
theorem Comparing.get_eq (h : Comparing sha1 sizeBZ2 s disk) (hremove : s.removeFiles = [])
    (hupdate : s.updateFiles = []) (hflags : s.updateFlags = []) (q : Path) :
    disk.get q = s.server.disk.get q := by
  cases hserver : s.server.disk.get q with
  | none =>
    rw [Option.eq_none_iff_forall_ne_some]
    intro item hitem
    obtain ⟨r, hr, rfl⟩ := h.synced.listed q item hitem
    have hout : r ∉ s.removeFiles := by rw [hremove]; exact List.not_mem_nil
    rw [h.mem_remove, not_and_not_right] at hout
    obtain ⟨-, item', -, hitem', -⟩ := hout hr
    rw [hserver] at hitem'
    cases hitem'
  | some item =>
    have hpath := @path_fileInfo sha1 sizeBZ2 q item
    have hlist : fileInfo sha1 sizeBZ2 q item ∈ fileList sha1 sizeBZ2 s.server := by
      rw [mem_fileList, hpath]
      exact ⟨item, hserver, rfl⟩
    have hmatches : Matches disk s.server q := by
      have hout : fileInfo sha1 sizeBZ2 q item ∉ s.updateFiles := by
        rw [hupdate]
        exact List.not_mem_nil
      rw [h.mem_update, not_and_not_right, hpath] at hout
      exact hout hlist
    have hagrees : Agrees disk s.server q := by
      have hout : fileInfo sha1 sizeBZ2 q item ∉ s.updateFlags := by
        rw [hflags]
        exact List.not_mem_nil
      rw [h.mem_flags, hpath] at hout
      by_contra hnot
      exact hout ⟨hlist, hmatches, hnot⟩
    obtain ⟨item', hitem, hitem'⟩ := hagrees
    rw [hserver] at hitem'
    cases hitem'
    exact hitem

/-- What a careful call does in a session -/
theorem patchStep_patch (h : Comparing sha1 sizeBZ2 s w.disk) (hsession : w.session = some s)
    (hd : CarefulPatch s w.disk d) :
    ∃ s' disk', patchStep sha1 sizeBZ2 w (.patch d) =
        some { w with disk := disk', session := some s' } ∧
      Advanced sha1 sizeBZ2 s w.disk d s' disk' ∧
      (∀ f ∈ s'.updateFiles, ¬Picked d f.path) ∧ (∀ f ∈ s'.updateFlags, ¬Picked d f.path) ∧
      (1 ≤ s.remove → ∀ r ∈ s'.removeFiles, ¬Picked d r.path) := by
  obtain ⟨s', disk', heq, hadvanced, hrest⟩ := patch_eq h hd
  refine ⟨s', disk', ?_, hadvanced, hrest⟩
  unfold patchStep
  dsimp only
  rw [hsession]
  dsimp only
  rw [heq]
  rfl

theorem patchStep_prepare (h : w.session = none) (server : ServerTree) (remove : Int) :
    patchStep sha1 sizeBZ2 w (.prepare server remove) =
      some { w with session := some (prepare sha1 sizeBZ2 w.saved server remove) } := by
  unfold patchStep
  dsimp only
  rw [h]

theorem patchStep_finish (h : w.session = some s) : patchStep sha1 sizeBZ2 w .finish =
    some { w with saved := s.localFiles, session := none } := by
  unfold patchStep
  dsimp only
  rw [h]

theorem kept_patchStep (hlength : ∀ x, (sha1 x).length = 20) (h : Kept sha1 sizeBZ2 w)
    (ha : Careful sha1 sizeBZ2 w a) :
    ∃ w', patchStep sha1 sizeBZ2 w a = some w' ∧ Kept sha1 sizeBZ2 w' := by
  cases a with
  | prepare server remove =>
    obtain ⟨hsession, hapart⟩ := ha
    unfold Kept at h
    rw [hsession] at h
    exact ⟨_, patchStep_prepare hsession server remove,
      comparing_prepare hlength h.1 h.2 hapart remove⟩
  | patch d =>
    obtain ⟨s, hsession, hd⟩ := ha
    obtain ⟨s', disk', heq, hadvanced, -⟩ := patchStep_patch (h.comparing hsession) hsession hd
    exact ⟨_, heq, hadvanced.comparing⟩
  | finish =>
    obtain ⟨s, hsession⟩ := ha
    have hcomparing := h.comparing hsession
    exact ⟨_, patchStep_finish hsession, hcomparing.formed, hcomparing.synced⟩

theorem kept_of_reach (hlength : ∀ x, (sha1 x).length = 20) (hinit : Resting sha1 sizeBZ2 w₀)
    (hrun : Lib.Reach (patchStep sha1 sizeBZ2) (Careful sha1 sizeBZ2) w₀ w) :
    Kept sha1 sizeBZ2 w := by
  apply hrun.invariant hinit.kept
  intro w a w' hkept ha hstep
  obtain ⟨w₁, heq, hkept₁⟩ := kept_patchStep hlength hkept ha
  rw [hstep] at heq
  cases heq
  exact hkept₁

/-- Everything is about everything. -/
theorem picked_all (hd : simplify d = [] ∨ simplify d = [dot]) (path : Path) : Picked d path := by
  rcases hd with hd | hd
  · exact Or.inl hd
  · exact Or.inr (Or.inl hd)

/-- Over careful runs: the saved list has one record for each path and describes the directory,
`patch` changes what it is about only, and a session for everything that removes what is not on the
server leaves the server's directory and list. -/
theorem converged_of_careful (hlength : ∀ x, (sha1 x).length = 20)
    (hinit : Resting sha1 sizeBZ2 w₀)
    (hrun : Lib.Reach (patchStep sha1 sizeBZ2) (Careful sha1 sizeBZ2) w₀ w) :
    (w.session = none → Synced sha1 sizeBZ2 w.disk w.saved) ∧
    (∀ a, Careful sha1 sizeBZ2 w a → ∃ w', patchStep sha1 sizeBZ2 w a = some w') ∧
    (∀ d w', Careful sha1 sizeBZ2 w (.patch d) →
      patchStep sha1 sizeBZ2 w (.patch d) = some w' →
      ∀ q, w'.disk.get q ≠ w.disk.get q → Picked d q) ∧
    ∀ s d w' w'', w.session = some s → 1 ≤ s.remove → (simplify d = [] ∨ simplify d = [dot]) →
      Careful sha1 sizeBZ2 w (.patch d) → patchStep sha1 sizeBZ2 w (.patch d) = some w' →
      patchStep sha1 sizeBZ2 w' .finish = some w'' →
      (∀ q, w''.disk.get q = s.server.disk.get q) ∧
        w''.saved.map LargeFileInfo.key =
          (fileList sha1 sizeBZ2 s.server).map LargeFileInfo.key := by
  have hkept := kept_of_reach hlength hinit hrun
  refine ⟨hkept.synced, ?_, ?_, ?_⟩
  · intro a ha
    obtain ⟨w', heq, -⟩ := kept_patchStep hlength hkept ha
    exact ⟨w', heq⟩
  · rintro d w' ⟨s, hsession, hd⟩ hstep q hne
    obtain ⟨s', disk', heq, hadvanced, -⟩ :=
      patchStep_patch (hkept.comparing hsession) hsession hd
    rw [hstep] at heq
    cases heq
    by_contra hnot
    exact hne (hadvanced.same q hnot)
  · rintro s d w' w'' hsession hremove hall ⟨s₁, hsession₁, hd⟩ hstep hfinish
    cases hsession.symm.trans hsession₁
    obtain ⟨s', disk', heq, hadvanced, hupdate, hflags, hremoved⟩ :=
      patchStep_patch (hkept.comparing hsession) hsession hd
    rw [hstep] at heq
    cases heq
    cases hfinish
    have hpicked := picked_all hall
    have hget := hadvanced.comparing.get_eq
      (List.eq_nil_iff_forall_not_mem.mpr fun r hr => hremoved hremove r hr (hpicked r.path))
      (List.eq_nil_iff_forall_not_mem.mpr fun f hf => hupdate f hf (hpicked f.path))
      (List.eq_nil_iff_forall_not_mem.mpr fun f hf => hflags f hf (hpicked f.path))
    rw [hadvanced.server] at hget
    exact ⟨hget, map_key_eq hadvanced.comparing.synced (synced_fileList s.server) hget⟩

/-- What holds of the entries of a data directory -/
theorem formed_of_forall (hroot : disk.get [dot] = some .directory)
    (hentries : ∀ e ∈ disk, (e.1 ≠ [dot] → disk.get (getDirname e.1) = some .directory) ∧
      ¬suffixBZ2 <:+ e.1) : Formed disk := by
  constructor
  · exact hroot
  · intro path item hitem hne
    exact (hentries _ (Disk.mem_of_get hitem)).1 hne
  · intro path item hitem
    exact (hentries _ (Disk.mem_of_get hitem)).2

theorem toldApart_of_forall {tree : ServerTree}
    (htree : (getFileTree0 sha1 (fileList sha1 sizeBZ2 tree)).checksum ≠
      (getFileTree0 sha1 (fileList sha1 sizeBZ2 server)).checksum)
    (hnodes : ∀ i, ((getFileTree0 sha1 (fileList sha1 sizeBZ2 tree)).nodes i).checksum =
        ((getFileTree0 sha1 (fileList sha1 sizeBZ2 server)).nodes i).checksum →
      ((getFileTree0 sha1 (fileList sha1 sizeBZ2 tree)).nodes i).files.map LargeFileInfo.key =
        ((getFileTree0 sha1 (fileList sha1 sizeBZ2 server)).nodes i).files.map LargeFileInfo.key)
    (hentries : ∀ e ∈ tree.disk, ∀ e' ∈ server.disk, e.1 = e'.1 → e.2 = e'.2 ∨
      (fileInfo sha1 sizeBZ2 e.1 e.2).keyWithoutFlags ≠
        (fileInfo sha1 sizeBZ2 e.1 e'.2).keyWithoutFlags) :
    ToldApart sha1 sizeBZ2 tree.disk (fileList sha1 sizeBZ2 tree) server := by
  constructor
  · exact fun heq => absurd heq htree
  · exact hnodes
  · intro path item item' hitem hitem' heq
    rcases hentries _ (Disk.mem_of_get hitem) _ (Disk.mem_of_get hitem') rfl with hsame | hne
    · cases hsame
      exact .refl item
    · exact absurd heq hne

/-- A directory with the list that was made of it -/
def listedWorld (sha1 : List Byte → List Byte) (sizeBZ2 : List Byte → ℕ+) (tree : ServerTree) :
    World where
  disk := tree.disk
  saved := fileList sha1 sizeBZ2 tree

theorem resting_listedWorld (tree : ServerTree) :
    Resting sha1 sizeBZ2 (listedWorld sha1 sizeBZ2 tree) := by
  constructor
  · rfl
  · exact tree.formed
  · exact synced_fileList tree

/-- A checksum that tells the sample trees apart -/
def patchSha1 (x : List Byte) : List Byte :=
  0 :: (x.take 63).foldl (fun h b => 31 * h + b) 7 :: List.replicate 18 0

/-- The file `a`, and `ab` beside it if it is given -/
def sampleTree (content : List Byte) (beside : Option (List Byte)) : Disk :=
  [([dot], .directory), (bytes "a", .regular content false)] ++
    (beside.map fun content => (bytes "ab", Item.regular content false)).toList

def oldTree : ServerTree where
  disk := sampleTree [1] none
  nodup := by decide +kernel
  formed := formed_of_forall (by decide +kernel) (by decide +kernel)

def newTree : ServerTree where
  disk := sampleTree [2] (some [3])
  nodup := by decide +kernel
  formed := formed_of_forall (by decide +kernel) (by decide +kernel)

theorem toldApart_newTree : ToldApart patchSha1 (fun _ => 40) oldTree.disk
    (fileList patchSha1 (fun _ => 40) oldTree) newTree := by
  apply toldApart_of_forall
  · decide +kernel
  · decide +kernel
  · decide +kernel

theorem length_patchSha1 (x : List Byte) : (patchSha1 x).length = 20 := rfl

/-- A session that removes nothing, for everything -/
def keepingRun : List PatchAction := [.prepare newTree 0, .patch [], .finish]

/-- A session for the file `a` -/
def partialRun : List PatchAction := [.prepare newTree 1, .patch (bytes "a")]

/-- The old file is not removed, so that two records are left for it; and a file is changed that
has a name with the same beginning. -/
theorem not_converged_newTree :
    Resting patchSha1 (fun _ => 40) (listedWorld patchSha1 (fun _ => 40) oldTree) ∧
    ToldApart patchSha1 (fun _ => 40) oldTree.disk (fileList patchSha1 (fun _ => 40) oldTree)
      newTree ∧
    (Lib.run (patchStep patchSha1 fun _ => 40) (listedWorld patchSha1 (fun _ => 40) oldTree)
        keepingRun).map (fun w => w.saved.map LargeFileInfo.path) =
      some [[dot], bytes "a", bytes "a", bytes "ab"] ∧
    (Lib.run (patchStep patchSha1 fun _ => 40) (listedWorld patchSha1 (fun _ => 40) oldTree)
        partialRun).map (fun w => w.disk.get (bytes "ab")) =
      some (some (.regular [3] false)) ∧
    oldTree.disk.get (bytes "ab") = none ∧ ¬Picked (bytes "a") (bytes "ab") := by
  refine ⟨resting_listedWorld oldTree, toldApart_newTree, ?_, ?_, ?_, ?_⟩
  · decide +kernel
  · decide +kernel
  · decide +kernel
  · unfold Picked
    decide +kernel

/-- The session for everything that makes the old directory the new one -/
theorem converged_oldTree :
    ∃ w, Lib.run (patchStep patchSha1 fun _ => 40) (listedWorld patchSha1 (fun _ => 40) oldTree)
        [.prepare newTree 1, .patch [], .finish] = some w ∧
      (∀ q, w.disk.get q = newTree.disk.get q) ∧
      w.saved.map LargeFileInfo.key =
        (fileList patchSha1 (fun _ => 40) newTree).map LargeFileInfo.key := by
  have hinit := @resting_listedWorld patchSha1 (fun _ => 40) oldTree
  have hcareful : Careful patchSha1 (fun _ => 40) (listedWorld patchSha1 (fun _ => 40) oldTree)
      (.prepare newTree 1) := ⟨rfl, toldApart_newTree⟩
  have hprepare := @patchStep_prepare patchSha1 (fun _ => 40)
    (listedWorld patchSha1 (fun _ => 40) oldTree) rfl newTree 1
  have hrun := Lib.Reach.tail .refl hcareful hprepare
  have hall : simplify [] = [] := by decide +kernel
  have hd : CarefulPatch (prepare patchSha1 (fun _ => 40)
      (listedWorld patchSha1 (fun _ => 40) oldTree).saved newTree 1) oldTree.disk [] := by
    have hpicks (path : Path) : picks [] path = true := decide_eq_true (Or.inl hall)
    have hplain : ∀ f ∈ (prepare patchSha1 (fun _ => 40)
        (listedWorld patchSha1 (fun _ => 40) oldTree).saved newTree 1).updateFiles,
        f.size = 0 → f.executable = false := by
      decide +kernel
    constructor
    · exact fun f _ => iff_of_true (hpicks f.path) (Or.inl hall)
    · exact fun _ => Or.inl (Or.inl hall)
    · exact fun f hf _ => hplain f hf
    · exact Or.inl (le_refl _)
  obtain ⟨s', disk', hpatch, -⟩ := patchStep_patch
    (w := { listedWorld patchSha1 (fun _ => 40) oldTree with
      session := some (prepare patchSha1 (fun _ => 40)
        (listedWorld patchSha1 (fun _ => 40) oldTree).saved newTree 1) })
    (comparing_prepare length_patchSha1 hinit.formed hinit.synced toldApart_newTree 1) rfl hd
  obtain ⟨-, -, -, hlast⟩ := converged_of_careful length_patchSha1 hinit hrun
  refine ⟨_, ?_, hlast _ [] _ _ rfl (le_refl _) (Or.inl hall) ⟨_, rfl, hd⟩ hpatch
    (patchStep_finish rfl)⟩
  unfold Lib.run
  rw [hprepare, Option.bind_some]
  unfold Lib.run
  rw [hpatch]
  rfl

end Ice.IcePatch2
