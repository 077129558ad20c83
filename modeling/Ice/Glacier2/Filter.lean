import Ice.Lib.SortedVector

/-!
# The filters of a router

A filter is a set of strings or identities that is kept as a sorted vector.
-/

namespace Ice.Glacier2

open Lib

variable {T : Type} [LinearOrder T]

/-- The variables of the loops in `FilterT::remove`. An iterator of `_items` is a place, one of
`toRemove` is what stands from there on. -/
structure Removal (T : Type) where
  r : List T
  mark : Nat
  deleteList : List Nat

/-- The inner loop, from the iterator `i` on -/
def scan (items : List T) (i : Nat) (s : Removal T) : Removal T :=
  match s.r with
  | [] => s
  | y :: r =>
    if h : i < items.length then
      if y = items[i] then scan items (i + 1) ⟨r, i + 1, i :: s.deleteList⟩
      else scan items (i + 1) s
    else s
termination_by items.length - i

theorem length_scan (items : List T) (i : Nat) (s : Removal T) :
    (scan items i s).r.length ≤ s.r.length := by
  fun_induction scan items i s with
  | case1 => rfl
  | case2 i s r hlt hr ih =>
    rw [hr, List.length_cons]
    exact ih.trans (Nat.le_succ _)
  | case3 i s y r hr hi hne ih => exact ih
  | case4 => rfl

/-- The outer loop -/
def passes (items : List T) (s : Removal T) : Removal T :=
  match _h : (scan items s.mark s).r with
  | [] => scan items s.mark s
  | _ :: r => passes items { scan items s.mark s with r := r }
termination_by s.r.length
decreasing_by
  have hlength := length_scan items s.mark s
  rw [_h, List.length_cons] at hlength
  exact hlength

/-- `FilterT::remove` on the vectors -/
def removed (items deletions : List T) : List T :=
  (passes items ⟨sortUnique deletions, 0, []⟩).deleteList.foldl List.eraseIdx items

/-- Up to the mark, the places to delete are known; behind it, only what is left of `toRemove` is
to be deleted. -/
structure Removal.Tracks (s : Removal T) (items toRemove : List T) : Prop where
  sorted : s.r.Pairwise (· < ·)
  descending : s.deleteList.Pairwise (· > ·)
  below : ∀ j ∈ s.deleteList, j < s.mark
  known : ∀ j x, j < s.mark → items[j]? = some x → (j ∈ s.deleteList ↔ x ∈ toRemove)
  left : ∀ j x, s.mark ≤ j → items[j]? = some x → (x ∈ toRemove ↔ x ∈ s.r)

section

variable {items toRemove : List T} {s : Removal T} {i : Nat}

section

variable (h : s.Tracks items toRemove)

include h

section

variable (hitems : items.Pairwise (· < ·))

include hitems

/-- The elements between the mark and a match are smaller than all that is left. -/
theorem Removal.Tracks.hit {y : T} {r : List T} (hr : s.r = y :: r)
    (hi : s.mark ≤ i) (hy : items[i]? = some y) :
    Removal.Tracks ⟨r, i + 1, i :: s.deleteList⟩ items toRemove := by
  have hsorted := h.sorted
  rw [hr, List.pairwise_cons] at hsorted
  have hleft := h.left
  rw [hr] at hleft
  constructor
  · exact hsorted.2
  · rw [List.pairwise_cons]
    exact ⟨fun j hj => (h.below j hj).trans_le hi, h.descending⟩
  · intro j hj
    rcases List.mem_cons.mp hj with rfl | hj
    · exact Nat.lt_succ_self j
    · exact ((h.below j hj).trans_le hi).trans (Nat.lt_succ_self i)
  · intro j x hj hx
    rcases Nat.lt_succ_iff_lt_or_eq.mp hj with hlt | rfl
    · rw [List.mem_cons, or_iff_right hlt.ne]
      rcases Nat.lt_or_ge j s.mark with hmark | hmark
      · exact h.known j x hmark hx
      · -- passed over since the mark
        have hxy := lt_of_getElem? hitems hlt hx hy
        rw [hleft j x hmark hx, List.mem_cons]
        constructor
        · intro hmem
          exact absurd (h.below j hmem) (by omega)
        · rintro (rfl | hmem)
          · exact absurd hxy (lt_irrefl x)
          · exact absurd (hxy.trans (hsorted.1 x hmem)) (lt_irrefl x)
    · rw [hy, Option.some.injEq] at hx
      subst hx
      rw [hleft j y hi hy]
      simp
  · intro j x hj hx
    have hij : i < j := hj
    have hxy := lt_of_getElem? hitems hij hy hx
    rw [hleft j x (hi.trans hij.le) hx, List.mem_cons, or_iff_right hxy.ne']

/-- After a scan, what comes first in the rest of `toRemove` is not an element behind the mark. -/
theorem scan_tracks (hi : s.mark ≤ i)
    (hpassed : ∀ j x, s.mark ≤ j → j < i → items[j]? = some x → some x ≠ s.r.head?) :
    (scan items i s).Tracks items toRemove ∧
      ∀ j x, (scan items i s).mark ≤ j → items[j]? = some x →
        some x ≠ (scan items i s).r.head? := by
  fun_induction scan items i s with
  | case1 i s hr =>
    refine ⟨h, fun j x _ _ => ?_⟩
    rw [hr]
    exact Option.some_ne_none x
  | case2 i s r hlt hr ih =>
    have hy := List.getElem?_eq_getElem hlt
    apply ih (h.hit hitems hr hi hy) (le_refl _)
    intro j x hmark hj
    exact absurd hj (Nat.not_lt.mpr hmark)
  | case3 i s y r hr hlt hne ih =>
    apply ih h (by omega)
    intro j x hmark hj hx
    rcases Nat.lt_succ_iff_lt_or_eq.mp hj with hlt' | rfl
    · exact hpassed j x hmark hlt' hx
    · rw [List.getElem?_eq_getElem hlt, Option.some.injEq] at hx
      rw [hr, ← hx]
      intro heq
      exact hne (Option.some.inj heq).symm
  | case4 i s y r hr hge =>
    refine ⟨h, fun j x hmark hx => hpassed j x hmark ?_ hx⟩
    have := (List.getElem?_eq_some_iff.mp hx).1
    omega

theorem passes_tracks :
    (passes items s).Tracks items toRemove ∧ (passes items s).r = [] := by
  have hscan := scan_tracks h hitems (le_refl _) fun j x hle hlt => absurd hle (by omega)
  fun_induction passes items s with
  | case1 s hr => exact ⟨hscan.1, hr⟩
  | case2 s y r hr ih =>
    have hnext : Removal.Tracks { scan items s.mark s with r := r } items toRemove := by
      obtain ⟨⟨hsorted, hdescending, hbelow, hknown, hleft⟩, hmiss⟩ := hscan
      rw [hr] at hsorted hleft hmiss
      constructor
      · exact (List.pairwise_cons.mp hsorted).2
      · exact hdescending
      · exact hbelow
      · exact hknown
      · intro j x hmark hx
        have hne : x ≠ y := fun heq => hmiss j x hmark hx (by rw [heq]; rfl)
        rw [hleft j x hmark hx, List.mem_cons, or_iff_right hne]
    exact ih hnext (scan_tracks hnext hitems (le_refl _) fun j x hle hlt => absurd hle (by omega))

end

end

theorem mem_removed (hitems : items.Pairwise (· < ·)) {deletions : List T} {x : T} :
    x ∈ removed items deletions ↔ x ∈ items ∧ x ∉ deletions := by
  have hstart : Removal.Tracks ⟨sortUnique deletions, 0, []⟩ items (sortUnique deletions) := by
    constructor
    · exact sortUnique_sorted deletions
    · exact List.Pairwise.nil
    · intro j hj
      cases hj
    · intro j x hj
      cases hj
    · intro j x _ _
      rfl
  obtain ⟨htracks, hr⟩ := passes_tracks hstart hitems
  unfold removed
  generalize passes items ⟨sortUnique deletions, 0, []⟩ = s at *
  have hplaces : ∀ j x, items[j]? = some x → (j ∈ s.deleteList ↔ x ∈ deletions) := by
    intro j x hx
    have hmem : x ∈ sortUnique deletions ↔ x ∈ deletions := mem_sortUnique
    rw [← hmem]
    rcases Nat.lt_or_ge j s.mark with hmark | hmark
    · exact htracks.known j x hmark hx
    · rw [htracks.left j x hmark hx, hr]
      constructor
      · intro hj
        exact absurd (htracks.below j hj) (by omega)
      · intro hx
        cases hx
  rw [mem_foldl_eraseIdx htracks.descending, List.mem_iff_getElem?]
  constructor
  · rintro ⟨j, hj, hx⟩
    exact ⟨⟨j, hx⟩, fun hmem => hj ((hplaces j x hx).mpr hmem)⟩
  · rintro ⟨⟨j, hx⟩, hmem⟩
    exact ⟨j, fun hj => hmem ((hplaces j x hx).mp hj), hx⟩

theorem removed_sorted (hitems : items.Pairwise (· < ·)) (deletions : List T) :
    (removed items deletions).Pairwise (· < ·) :=
  hitems.sublist (foldl_eraseIdx_sublist _ items)

end

/-- Class `FilterT`: its vector is sorted and has no element twice. -/
structure FilterT (T : Type) [LinearOrder T] where
  items : List T
  sorted : items.Pairwise (· < ·)

namespace FilterT

/-- The constructor -/
def ofSeq (accept : List T) : FilterT T := ⟨sortUnique accept, sortUnique_sorted accept⟩

/-- `FilterT::add` -/
def add (f : FilterT T) (additions : List T) : FilterT T :=
  ⟨mergeUnique (sortUnique additions) f.items,
    mergeUnique_sorted (sortUnique_sorted additions) f.sorted⟩

/-- `FilterT::remove` -/
def remove (f : FilterT T) (deletions : List T) : FilterT T :=
  ⟨removed f.items deletions, removed_sorted f.sorted deletions⟩

/-- `FilterT::empty` -/
def empty (f : FilterT T) : Bool := f.items.isEmpty

/-- `FilterT::match` -/
def isMatch (f : FilterT T) (candidate : T) : Bool :=
  if f.items.isEmpty then true else binarySearch f.items candidate

/-- The set that a filter stands for -/
def elements (f : FilterT T) : Set T := {x | x ∈ f.items}

variable {f : FilterT T}

@[simp]
theorem elements_ofSeq (accept : List T) : (ofSeq accept).elements = {x | x ∈ accept} := by
  ext x
  exact mem_sortUnique

@[simp]
theorem elements_add (additions : List T) :
    (f.add additions).elements = f.elements ∪ {x | x ∈ additions} := by
  ext x
  have h := mem_mergeUnique (sortUnique_sorted additions) f.sorted (x := x)
  rw [mem_sortUnique, or_comm] at h
  exact h

@[simp]
theorem elements_remove (deletions : List T) :
    (f.remove deletions).elements = f.elements \ {x | x ∈ deletions} := by
  ext x
  exact mem_removed f.sorted

theorem empty_iff : f.empty = true ↔ f.elements = ∅ := by
  unfold empty elements
  rw [List.isEmpty_iff, Set.eq_empty_iff_forall_notMem, List.eq_nil_iff_forall_not_mem]
  rfl

theorem isMatch_iff (h : f.elements ≠ ∅) {x : T} : f.isMatch x = true ↔ x ∈ f.elements := by
  have hempty : ¬f.items.isEmpty = true := fun hempty => h (empty_iff.mp hempty)
  unfold isMatch
  rw [if_neg hempty]
  exact binarySearch_iff f.sorted

end FilterT

end Ice.Glacier2
