import Ice.IcePatch2.Listing

/-!
# What equal checksums tell

Two lists whose nodes have equal checksums hold the same records, except where the entries of a
node take their paths and contents apart in different ways.
-/

namespace Ice.IcePatch2

open List (flatMap_cons flatMap_def forall₂_iff_zip length_append map_cons map_map mem_cons_self
  mem_map of_mem_zip)

variable {sha1 : List Byte → List Byte} {l l' : List Listed} {e e' : Listed} {i : Byte}

/-- The records of a list -/
def records (l : List Listed) : List LargeFileInfo := l.map Listed.toLargeFileInfo

/-- The entries of a node -/
def entries (l : List Listed) (i : Byte) : List Listed :=
  l.filter fun e => e.checksum.head? = some i

/-- What SHA-1 is given for a list -/
inductive Given (sha1 : List Byte → List Byte) (l : List Listed) : List Byte → Prop
  | file (e : Listed) (he : e ∈ l) : Given sha1 l (e.path ++ e.content)
  | node (i : Byte) : Given sha1 l (allChecksums1 (records (entries l i)))
  | top : Given sha1 l (allChecksums0 (getFileTree0 sha1 (records l)).nodes)

/-- The same path, kind, content and flag -/
structure Same (e e' : Listed) : Prop where
  path : e.path = e'.path
  kind : e.kind = e'.kind
  content : e.content = e'.content
  executable : e.executable = e'.executable

/-- The same path and content as far as they are joined together, and the same flag -/
def Alike (e e' : Listed) : Prop :=
  e.path ++ e.content = e'.path ++ e'.content ∧ e.executable = e'.executable

/-- Alike in every place, and yet of another path or kind in one -/
def Confusable (l l' : List Listed) : Prop :=
  List.Forall₂ Alike l l' ∧ ∃ e e', (e, e') ∈ l.zip l' ∧ (e.path ≠ e'.path ∨ e.kind ≠ e'.kind)

theorem Same.alike (h : Same e e') : Alike e e' := ⟨by rw [h.path, h.content], h.executable⟩

theorem Alike.same (h : Alike e e') (hpath : e.path = e'.path) (hkind : e.kind = e'.kind) :
    Same e e' := by
  constructor
  · exact hpath
  · exact hkind
  · have hjoined := h.1
    rw [hpath] at hjoined
    exact List.append_cancel_left hjoined
  · exact h.2

theorem forall₂_same_of_not_confusable (halike : List.Forall₂ Alike l l')
    (h : ¬ Confusable l l') : List.Forall₂ Same l l' := by
  obtain ⟨hlength, hpairs⟩ := forall₂_iff_zip.mp halike
  refine forall₂_iff_zip.mpr ⟨hlength, ?_⟩
  intro e e' hmem
  by_cases hpath : e.path = e'.path
  · by_cases hkind : e.kind = e'.kind
    · exact (hpairs hmem).same hpath hkind
    · exact absurd ⟨halike, e, e', hmem, Or.inr hkind⟩ h
  · exact absurd ⟨halike, e, e', hmem, Or.inl hpath⟩ h

theorem not_confusable_of_same (h : List.Forall₂ Same l l') : ¬ Confusable l l' := by
  rintro ⟨-, e, e', hmem, hdiffer⟩
  have hsame := (forall₂_iff_zip.mp h).2 hmem
  rcases hdiffer with hpath | hkind
  · exact hpath hsame.path
  · exact hkind hsame.kind

/-- Blocks of one length are found again in what they are joined to. -/
theorem map_eq_of_flatMap_eq {α β γ : Type*} {f : α → List γ} {g : β → List γ} {n : Nat}
    {l : List α} {m : List β} (hn : n ≠ 0) (hf : ∀ a ∈ l, (f a).length = n)
    (hg : ∀ b ∈ m, (g b).length = n) (h : l.flatMap f = m.flatMap g) : l.map f = m.map g := by
  induction l generalizing m with
  | nil =>
    cases m with
    | nil => rfl
    | cons b m =>
      have hlength := congrArg List.length h
      simp only [List.flatMap_nil, flatMap_cons, length_append, List.length_nil,
        hg b (mem_cons_self ..)] at hlength
      omega
  | cons a l ih =>
    cases m with
    | nil =>
      have hlength := congrArg List.length h
      simp only [List.flatMap_nil, flatMap_cons, length_append, List.length_nil,
        hf a (mem_cons_self ..)] at hlength
      omega
    | cons b m =>
      rw [flatMap_cons, flatMap_cons] at h
      have hfirst : (f a).length = (g b).length :=
        (hf a (mem_cons_self ..)).trans (hg b (mem_cons_self ..)).symm
      obtain ⟨hab, hrest⟩ := List.append_inj h hfirst
      rw [map_cons, map_cons, hab,
        ih (fun a ha => hf a (List.mem_cons_of_mem _ ha))
          (fun b hb => hg b (List.mem_cons_of_mem _ hb)) hrest]

theorem map_eq_iff_forall₂ {α β γ : Type*} {f : α → γ} {g : β → γ} {l : List α} {m : List β} :
    l.map f = m.map g ↔ List.Forall₂ (fun a b => f a = g b) l m := by
  rw [← List.forall₂_eq_eq_eq, List.forall₂_map_left_iff, List.forall₂_map_right_iff]

section

variable (hlength : ∀ x, (sha1 x).length = 20)

include hlength

theorem length_digest (x : List Byte) : (digest sha1 x).length = 20 := by
  unfold digest
  split
  · exact List.length_replicate
  · exact hlength x

section

variable (h : Accurate sha1 e)

include h

theorem Accurate.length_checksum : e.checksum.length = 20 := by
  rw [h.checksum]
  exact length_digest hlength _

theorem Accurate.block_eq :
    block e.toLargeFileInfo = e.checksum ++ [if e.executable then 1 else 0] := by
  unfold block
  rw [List.rightpad, h.length_checksum hlength]
  simp

theorem Accurate.length_block : (block e.toLargeFileInfo).length = 21 := by
  rw [h.block_eq hlength, length_append, h.length_checksum hlength]
  rfl

/-- Every record is in one of the nodes. -/
theorem Accurate.exists_head : ∃ i, e.checksum.head? = some i := by
  have hsize := h.length_checksum hlength
  cases hchecksum : e.checksum with
  | nil =>
    rw [hchecksum] at hsize
    cases hsize
  | cons i checksum => exact ⟨i, rfl⟩

end

end

theorem flag_inj : ∀ b b' : Bool,
    [if b = true then (1 : Byte) else 0] = [if b' = true then 1 else 0] → b = b' := by
  decide

theorem nodes_files (l : List Listed) (i : Byte) :
    ((getFileTree0 sha1 (records l)).nodes i).files = records (entries l i) :=
  List.filter_map ..

theorem nodes_checksum (l : List Listed) (i : Byte) :
    ((getFileTree0 sha1 (records l)).nodes i).checksum =
      digest sha1 (allChecksums1 (records (entries l i))) := by
  rw [← @nodes_files sha1 l i]
  rfl

theorem mem_entries : e ∈ entries l i ↔ e ∈ l ∧ e.checksum.head? = some i := by
  unfold entries
  rw [List.mem_filter, decide_eq_true_eq]

/-- A list as `getFileInfoSeq` makes it -/
structure Listing (sha1 : List Byte → List Byte) (l : List Listed) : Prop where
  accurate : ∀ e ∈ l, Accurate sha1 e
  ordered : l.Pairwise fun a b => a.key < b.key

theorem listing_getFileInfoSeq (sha1 : List Byte → List Byte) (basePath : Path) (compress : Nat)
    (sizeBZ2 : Path → Nat) (node : Node) :
    Listing sha1 (getFileInfoSeq sha1 basePath compress sizeBZ2 node) where
  accurate _ he := accurate_of_mem he
  ordered := pairwise_getFileInfoSeq node

/-- The nodes hold all that is in the list. -/
theorem mem_keys_iff (hlength : ∀ x, (sha1 x).length = 20) (hl : Listing sha1 l)
    {k : (Path ×ₗ Int ×ₗ List Byte) ×ₗ Bool} :
    k ∈ l.map (·.key) ↔ ∃ i, k ∈ (entries l i).map (·.key) := by
  constructor
  · intro hk
    obtain ⟨e, he, rfl⟩ := mem_map.mp hk
    obtain ⟨i, hi⟩ := (hl.accurate e he).exists_head hlength
    exact ⟨i, mem_map.mpr ⟨e, mem_entries.mpr ⟨he, hi⟩, rfl⟩⟩
  · rintro ⟨i, hk⟩
    obtain ⟨e, he, rfl⟩ := mem_map.mp hk
    exact mem_map.mpr ⟨e, (mem_entries.mp he).1, rfl⟩

section

variable (hlength : ∀ x, (sha1 x).length = 20) (hl : Listing sha1 l) (hl' : Listing sha1 l')
  (hinj : Set.InjOn (digest sha1) {x | Given sha1 l x ∨ Given sha1 l' x})

include hl hl' hinj

theorem checksum_eq_iff (he : e ∈ l) (he' : e' ∈ l') :
    e.checksum = e'.checksum ↔ e.path ++ e.content = e'.path ++ e'.content := by
  rw [(hl.accurate e he).checksum, (hl'.accurate e' he').checksum]
  exact hinj.eq_iff (Or.inl (Given.file e he)) (Or.inr (Given.file e' he'))

theorem same_iff_key_eq (he : e ∈ l) (he' : e' ∈ l') : Same e e' ↔ e.key = e'.key := by
  rw [LargeFileInfo.key_eq_iff, checksum_eq_iff hl hl' hinj he he']
  constructor
  · intro h
    exact ⟨h.path, h.kind, h.alike.1, h.alike.2⟩
  · rintro ⟨hpath, hkind, hjoined, hexecutable⟩
    exact Alike.same ⟨hjoined, hexecutable⟩ hpath hkind

include hlength

theorem block_eq_iff (he : e ∈ l) (he' : e' ∈ l') :
    block e.toLargeFileInfo = block e'.toLargeFileInfo ↔ Alike e e' := by
  have ha := hl.accurate e he
  have ha' := hl'.accurate e' he'
  rw [ha.block_eq hlength, ha'.block_eq hlength, Alike, ← checksum_eq_iff hl hl' hinj he he']
  constructor
  · intro h
    have hsize := (ha.length_checksum hlength).trans (ha'.length_checksum hlength).symm
    obtain ⟨hchecksum, hflag⟩ := List.append_inj h hsize
    exact ⟨hchecksum, flag_inj _ _ hflag⟩
  · rintro ⟨hchecksum, hexecutable⟩
    rw [hchecksum, hexecutable]

/-- What equal checksums of a node tell of its entries -/
theorem nodes_checksum_eq_iff (i : Byte) :
    ((getFileTree0 sha1 (records l)).nodes i).checksum =
        ((getFileTree0 sha1 (records l')).nodes i).checksum ↔
      List.Forall₂ Alike (entries l i) (entries l' i) := by
  have hblocks : (records (entries l i)).map block = (records (entries l' i)).map block ↔
      List.Forall₂ Alike (entries l i) (entries l' i) := by
    unfold records
    rw [map_map, map_map, map_eq_iff_forall₂, forall₂_iff_zip,
      forall₂_iff_zip]
    refine and_congr_right fun _ => forall₂_congr fun e e' => imp_congr_right fun hmem => ?_
    obtain ⟨he, he'⟩ := of_mem_zip hmem
    exact block_eq_iff hlength hl hl' hinj (mem_entries.mp he).1 (mem_entries.mp he').1
  rw [nodes_checksum, nodes_checksum, ← hblocks,
    hinj.eq_iff (Or.inl (Given.node i)) (Or.inr (Given.node i))]
  constructor
  · intro h
    apply map_eq_of_flatMap_eq (n := 21) (by decide) _ _ h
    · intro p hp
      obtain ⟨e, he, rfl⟩ := mem_map.mp hp
      exact (hl.accurate e (mem_entries.mp he).1).length_block hlength
    · intro p hp
      obtain ⟨e, he, rfl⟩ := mem_map.mp hp
      exact (hl'.accurate e (mem_entries.mp he).1).length_block hlength
  · intro h
    unfold allChecksums1
    rw [flatMap_def, flatMap_def, h]

omit hl hl' in
/-- Equal top checksums are those over equal checksums of the nodes. -/
theorem checksum_eq_top_iff :
    (getFileTree0 sha1 (records l)).checksum = (getFileTree0 sha1 (records l')).checksum ↔
      ∀ i, ((getFileTree0 sha1 (records l)).nodes i).checksum =
        ((getFileTree0 sha1 (records l')).nodes i).checksum := by
  have hsize (l : List Listed) (i : Byte) :
      ((getFileTree0 sha1 (records l)).nodes i).checksum.length = 20 := by
    rw [nodes_checksum]
    exact length_digest hlength _
  have htop : (getFileTree0 sha1 (records l)).checksum = (getFileTree0 sha1 (records l')).checksum ↔
      allChecksums0 (getFileTree0 sha1 (records l)).nodes =
        allChecksums0 (getFileTree0 sha1 (records l')).nodes :=
    hinj.eq_iff (Or.inl Given.top) (Or.inr Given.top)
  rw [htop]
  constructor
  · intro h i
    have hmap := map_eq_of_flatMap_eq (n := 20) (by decide) (fun i _ => hsize l i)
      (fun i _ => hsize l' i) h
    exact List.map_inj_left.mp hmap i (List.mem_finRange i)
  · intro h
    unfold allChecksums0
    rw [flatMap_def, flatMap_def, List.map_congr_left fun i _ => h i]

/-- Lists are the same if their nodes are. -/
theorem forall₂_same_of_entries
    (h : ∀ i, List.Forall₂ Same (entries l i) (entries l' i)) : List.Forall₂ Same l l' := by
  have hnode (i : Byte) : (entries l i).map (·.key) = (entries l' i).map (·.key) := by
    rw [map_eq_iff_forall₂]
    obtain ⟨hsize, hpairs⟩ := forall₂_iff_zip.mp (h i)
    refine forall₂_iff_zip.mpr ⟨hsize, ?_⟩
    intro e e' hmem
    obtain ⟨he, he'⟩ := of_mem_zip hmem
    have hsame := same_iff_key_eq hl hl' hinj (mem_entries.mp he).1 (mem_entries.mp he').1
    exact hsame.mp (hpairs hmem)
  have hkeys : l.map (·.key) = l'.map (·.key) := by
    apply Lib.map_key_eq hl.ordered hl'.ordered
    intro k
    rw [mem_keys_iff hlength hl, mem_keys_iff hlength hl']
    exact exists_congr fun i => by rw [hnode i]
  obtain ⟨hsize, hpairs⟩ := forall₂_iff_zip.mp (map_eq_iff_forall₂.mp hkeys)
  refine forall₂_iff_zip.mpr ⟨hsize, ?_⟩
  intro e e' hmem
  obtain ⟨he, he'⟩ := of_mem_zip hmem
  exact (same_iff_key_eq hl hl' hinj he he').mpr (hpairs hmem)

end

/-- A tree, and what its list is made with -/
structure Tree where
  basePath : Path
  compress : Nat
  sizeBZ2 : Path → Nat
  node : Node

/-- The list of a tree -/
def Tree.list (sha1 : List Byte → List Byte) (t : Tree) : List Listed :=
  getFileInfoSeq sha1 t.basePath t.compress t.sizeBZ2 t.node

/-- Neither the whole nor a node that differs is taken to be up to date. -/
def Detected (sha1 : List Byte → List Byte) (l l' : List Listed) : Prop :=
  ((getFileTree0 sha1 (records l)).checksum = (getFileTree0 sha1 (records l')).checksum →
      List.Forall₂ Same l l') ∧
    ∀ i, ((getFileTree0 sha1 (records l)).nodes i).checksum =
        ((getFileTree0 sha1 (records l')).nodes i).checksum →
      List.Forall₂ Same (entries l i) (entries l' i)

/-- Equal checksums tell that nothing differs, except where the entries of a node are confusable. -/
theorem detected_iff (sha1 : List Byte → List Byte) (t t' : Tree)
    (hlength : ∀ x, (sha1 x).length = 20)
    (hinj : Set.InjOn (digest sha1)
      {x | Given sha1 (t.list sha1) x ∨ Given sha1 (t'.list sha1) x}) :
    Detected sha1 (t.list sha1) (t'.list sha1) ↔
      ∀ i, ¬ Confusable (entries (t.list sha1) i) (entries (t'.list sha1) i) := by
  have hl : Listing sha1 (t.list sha1) := listing_getFileInfoSeq ..
  have hl' : Listing sha1 (t'.list sha1) := listing_getFileInfoSeq ..
  constructor
  · rintro ⟨-, hnodes⟩ i hconfusable
    have hequal := (nodes_checksum_eq_iff hlength hl hl' hinj i).mpr hconfusable.1
    exact not_confusable_of_same (hnodes i hequal) hconfusable
  · intro h
    have hnodes (i : Byte)
        (hequal : ((getFileTree0 sha1 (records (t.list sha1))).nodes i).checksum =
          ((getFileTree0 sha1 (records (t'.list sha1))).nodes i).checksum) :
        List.Forall₂ Same (entries (t.list sha1) i) (entries (t'.list sha1) i) :=
      forall₂_same_of_not_confusable ((nodes_checksum_eq_iff hlength hl hl' hinj i).mp hequal) (h i)
    constructor
    · intro htop
      apply forall₂_same_of_entries hlength hl hl' hinj
      intro i
      exact hnodes i ((checksum_eq_top_iff hlength hinj).mp htop i)
    · exact hnodes

/-- The checksum of the directory `.` -/
def rootChecksum : List Byte :=
  [58, 82, 206, 120, 9, 80, 212, 217, 105, 121,
   42, 37, 89, 205, 81, 157, 126, 232, 199, 39]

/-- The checksum over `ab` -/
def abChecksum : List Byte :=
  [218, 35, 97, 78, 2, 70, 154, 13, 124, 123,
   209, 189, 171, 92, 156, 71, 75, 25, 4, 220]

/-- What is given for the records, and for the nodes with one of them -/
def samples : List (List Byte × List Byte) :=
  [(bytes ".", rootChecksum),
    (bytes "ab", abChecksum),
    (rootChecksum ++ [0],
      [218, 254, 203, 65, 64, 230, 218, 45, 182, 184,
       185, 39, 18, 168, 45, 146, 57, 184, 211, 229]),
    (abChecksum ++ [0],
      [101, 90, 225, 113, 196, 242, 42, 228, 183, 43,
       145, 173, 29, 222, 210, 28, 39, 140, 20, 61])]

/-- The checksum of the nodes with one of the records each -/
def topChecksum : List Byte :=
  [140, 134, 54, 38, 200, 236, 214, 111, 112, 99,
   171, 140, 191, 22, 107, 38, 211, 215, 119, 214]

/-- SHA-1 for what is given for the trees that follow -/
def sampleSha1 (x : List Byte) : List Byte :=
  ((samples.find? fun s => s.1 = x).map Prod.snd).getD topChecksum

/-- A directory that is listed as the server does, with compressed files of 40 bytes. -/
def serverTree (content : Entries) : Tree where
  basePath := bytes "/srv/data"
  compress := 1
  sizeBZ2 _ := 40
  node := .directory content

/-- A directory that is listed as a patcher does. -/
def localTree (content : Entries) : Tree where
  basePath := bytes "data"
  compress := 0
  sizeBZ2 _ := 0
  node := .directory content

/-- A file `a` with the letter `b` -/
def fileContent : Entries := .cons (bytes "a") (.regular (bytes "b") false) .nil

/-- An empty file `ab` -/
def emptyContent : Entries := .cons (bytes "ab") (.regular [] false) .nil

/-- A directory `ab` -/
def directoryContent : Entries := .cons (bytes "ab") (.directory .nil) .nil

theorem length_sampleSha1 (x : List Byte) : (sampleSha1 x).length = 20 := by
  have hsamples : ∀ s ∈ samples, s.2.length = 20 := by decide +kernel
  unfold sampleSha1
  cases hfind : samples.find? fun s => s.1 = x with
  | none => rfl
  | some s => exact hsamples s (List.mem_of_find?_eq_some hfind)

/-- What is given for a list is among the samples, but for the checksums of the nodes. -/
def Sampled (l : List Listed) : Prop :=
  (∀ e ∈ l, e.path ++ e.content ∈ [] :: samples.map Prod.fst) ∧
    ∀ i, allChecksums1 (records (entries l i)) ∈ [] :: samples.map Prod.fst

theorem length_allChecksums0 (l : List Listed) :
    (allChecksums0 (getFileTree0 sampleSha1 (records l)).nodes).length = 5120 := by
  have hnodes : ∀ i ∈ List.finRange 256,
      ((getFileTree0 sampleSha1 (records l)).nodes i).checksum.length = 20 := by
    intro i _
    rw [nodes_checksum]
    exact length_digest length_sampleSha1 _
  unfold allChecksums0
  rw [List.length_flatMap, List.map_congr_left hnodes, List.map_const', List.sum_replicate_nat,
    List.length_finRange]

theorem Sampled.given {l : List Listed} (h : Sampled l) {x : List Byte}
    (hx : Given sampleSha1 l x) : x ∈ [] :: samples.map Prod.fst ∨
      x = allChecksums0 (getFileTree0 sampleSha1 (records l)).nodes := by
  cases hx with
  | file e he => exact Or.inl (h.1 e he)
  | node i => exact Or.inl (h.2 i)
  | top => exact Or.inr rfl

theorem digest_of_length {x : List Byte} (h : x.length = 5120) :
    digest sampleSha1 x = topChecksum := by
  have hsamples : ∀ s ∈ samples, s.1.length ≠ 5120 := by decide +kernel
  have hfind : (samples.find? fun s => s.1 = x) = none := by
    rw [List.find?_eq_none]
    intro s hs heq
    exact hsamples s hs (by rw [of_decide_eq_true heq, h])
  unfold digest sampleSha1
  rw [hfind, if_neg]
  · rfl
  · rintro rfl
    cases h

/-- The samples are told apart for lists with the same checksums of the nodes. -/
theorem injOn_sampleSha1 {l l' : List Listed} (h : Sampled l) (h' : Sampled l')
    (hnodes : ∀ i, ((getFileTree0 sampleSha1 (records l)).nodes i).checksum =
      ((getFileTree0 sampleSha1 (records l')).nodes i).checksum) :
    Set.InjOn (digest sampleSha1) {x | Given sampleSha1 l x ∨ Given sampleSha1 l' x} := by
  have hsamples : ∀ x ∈ [] :: samples.map Prod.fst, digest sampleSha1 x ≠ topChecksum ∧
      ∀ y ∈ [] :: samples.map Prod.fst, digest sampleSha1 x = digest sampleSha1 y → x = y := by
    decide +kernel
  have htop : allChecksums0 (getFileTree0 sampleSha1 (records l')).nodes =
      allChecksums0 (getFileTree0 sampleSha1 (records l)).nodes := by
    unfold allChecksums0
    rw [flatMap_def, flatMap_def, List.map_congr_left fun i _ => hnodes i]
  have hgiven (x : List Byte) (hx : Given sampleSha1 l x ∨ Given sampleSha1 l' x) :
      x ∈ [] :: samples.map Prod.fst ∨
        x = allChecksums0 (getFileTree0 sampleSha1 (records l)).nodes := by
    rcases hx with hx | hx
    · exact h.given hx
    · have hother := h'.given hx
      rwa [htop] at hother
  intro x hx y hy hxy
  have hlength := digest_of_length (length_allChecksums0 l)
  rcases hgiven x hx with hx | rfl
  · rcases hgiven y hy with hy | rfl
    · exact (hsamples x hx).2 y hy hxy
    · exact absurd (hxy.trans hlength) (hsamples x hx).1
  · rcases hgiven y hy with hy | rfl
    · exact absurd (hxy.symm.trans hlength) (hsamples y hy).1
    · rfl

/-- A node that is taken to be up to date, although it is not -/
theorem not_detected {l l' : List Listed} {i : Byte}
    (hequal : ((getFileTree0 sampleSha1 (records l)).nodes i).checksum =
      ((getFileTree0 sampleSha1 (records l')).nodes i).checksum)
    (hdiffer : ¬ ∀ p ∈ (entries l i).zip (entries l' i),
      p.1.path = p.2.path ∧ p.1.kind = p.2.kind) :
    ¬ Detected sampleSha1 l l' := by
  intro h
  apply hdiffer
  intro p hp
  have hsame := (forall₂_iff_zip.mp (h.2 i hequal)).2 hp
  exact ⟨hsame.path, hsame.kind⟩

/-- A directory that holds what the server's holds is up to date. -/
theorem detected_sameContent :
    Detected sampleSha1 ((serverTree fileContent).list sampleSha1)
      ((localTree fileContent).list sampleSha1) := by
  have hpairs : ∀ i, ∀ p ∈ (entries ((serverTree fileContent).list sampleSha1) i).zip
      (entries ((localTree fileContent).list sampleSha1) i),
      p.1.path = p.2.path ∧ p.1.kind = p.2.kind := by
    decide +kernel
  apply (detected_iff sampleSha1 (serverTree fileContent) (localTree fileContent)
    length_sampleSha1 (injOn_sampleSha1 _ _ _)).mpr
  · rintro i ⟨-, e, e', hmem, hpath | hkind⟩
    · exact hpath (hpairs i (e, e') hmem).1
    · exact hkind (hpairs i (e, e') hmem).2
  · unfold Sampled
    decide +kernel
  · unfold Sampled
    decide +kernel
  · decide +kernel

/-- A path is not told from what is in the file, and an empty file is not told from a directory. -/
theorem not_detected_emptyContent :
    (Set.InjOn (digest sampleSha1)
        {x | Given sampleSha1 ((serverTree fileContent).list sampleSha1) x ∨
          Given sampleSha1 ((localTree emptyContent).list sampleSha1) x} ∧
      ¬ Detected sampleSha1 ((serverTree fileContent).list sampleSha1)
        ((localTree emptyContent).list sampleSha1)) ∧
    (Set.InjOn (digest sampleSha1)
        {x | Given sampleSha1 ((serverTree directoryContent).list sampleSha1) x ∨
          Given sampleSha1 ((localTree emptyContent).list sampleSha1) x} ∧
      ¬ Detected sampleSha1 ((serverTree directoryContent).list sampleSha1)
        ((localTree emptyContent).list sampleSha1)) := by
  have hempty : Sampled ((localTree emptyContent).list sampleSha1) := by
    unfold Sampled
    decide +kernel
  constructor
  all_goals
    constructor
    · apply injOn_sampleSha1 _ hempty
      · decide +kernel
      · unfold Sampled
        decide +kernel
    · apply not_detected (i := 218)
      · decide +kernel
      · decide +kernel

end Ice.IcePatch2
