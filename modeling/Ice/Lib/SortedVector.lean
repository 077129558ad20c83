import Mathlib.Data.List.Destutter
import Mathlib.Data.List.Sort

/-!
# Sets kept as sorted vectors

The operations of the standard library on a vector that is sorted and has no element twice, and the
elements that they leave.
-/

namespace Ice.Lib

variable {α : Type*} [LinearOrder α]

/-- `sort`, and `unique` with `erase` -/
def sortUnique (l : List α) : List α := (l.mergeSort (· ≤ ·)).destutter (· ≠ ·)

/-- `merge`, and `unique` with `erase` -/
def mergeUnique (l r : List α) : List α := (l.merge r (· ≤ ·)).destutter (· ≠ ·)

variable {l v : List α} {x : α}

theorem pairwise_destutter (h : l.Pairwise (· ≤ ·)) : (l.destutter (· ≠ ·)).Pairwise (· < ·) := by
  have hle : (l.destutter (· ≠ ·)).Pairwise (· ≤ ·) := h.sublist (List.destutter_sublist _ l)
  have hne : (l.destutter (· ≠ ·)).Pairwise (· ≠ ·) := by
    rw [h.destutter_eq_dedup]
    exact List.nodup_dedup l
  exact (hle.and hne).imp fun h => lt_of_le_of_ne h.1 h.2

theorem mem_destutter (h : l.Pairwise (· ≤ ·)) : x ∈ l.destutter (· ≠ ·) ↔ x ∈ l := by
  rw [h.destutter_eq_dedup, List.mem_dedup]

theorem sortUnique_sorted (l : List α) : (sortUnique l).Pairwise (· < ·) :=
  pairwise_destutter (List.pairwise_mergeSort' (· ≤ ·) l)

theorem mem_sortUnique : x ∈ sortUnique l ↔ x ∈ l := by
  unfold sortUnique
  rw [mem_destutter (List.pairwise_mergeSort' (· ≤ ·) l), List.mem_mergeSort]

section

variable {l r : List α}

section

variable (hl : l.Pairwise (· < ·))

include hl

section

variable (hr : r.Pairwise (· < ·))

include hr

theorem merge_sorted : (l.merge r (· ≤ ·)).Pairwise (· ≤ ·) :=
  (hl.imp le_of_lt).merge (hr.imp le_of_lt)

theorem mergeUnique_sorted :
    (mergeUnique l r).Pairwise (· < ·) :=
  pairwise_destutter (merge_sorted hl hr)

theorem mem_mergeUnique {x : α} :
    x ∈ mergeUnique l r ↔ x ∈ l ∨ x ∈ r := by
  unfold mergeUnique
  rw [mem_destutter (merge_sorted hl hr), List.mem_merge]

end

end

end

/-- The loop of `lower_bound`, on the elements from `first` on -/
def lowerBound (v : List α) (x : α) (first len : Nat) : Nat :=
  if len = 0 then first
  else
    match v[first + len / 2]? with
    | none => first
    | some y =>
      if y < x then lowerBound v x (first + len / 2 + 1) (len - len / 2 - 1)
      else lowerBound v x first (len / 2)
termination_by len

/-- `binary_search` -/
def binarySearch (v : List α) (x : α) : Bool :=
  match v[lowerBound v x 0 v.length]? with
  | none => false
  | some y => !decide (x < y)

theorem lt_of_getElem? (hv : v.Pairwise (· < ·)) {i j : Nat} {y z : α} (hij : i < j)
    (hi : v[i]? = some y) (hj : v[j]? = some z) : y < z := by
  obtain ⟨hi', rfl⟩ := List.getElem?_eq_some_iff.mp hi
  obtain ⟨hj', rfl⟩ := List.getElem?_eq_some_iff.mp hj
  exact List.pairwise_iff_getElem.mp hv i j hi' hj' hij

/-- The place parts the smaller elements from the others. -/
structure PartsAt (v : List α) (x : α) (k : Nat) : Prop where
  before : ∀ j y, j < k → v[j]? = some y → y < x
  after : ∀ j y, k ≤ j → v[j]? = some y → x ≤ y

theorem lowerBound_parts (hv : v.Pairwise (· < ·)) {first len : Nat}
    (hlen : first + len ≤ v.length) (hbefore : ∀ j y, j < first → v[j]? = some y → y < x)
    (hafter : ∀ j y, first + len ≤ j → v[j]? = some y → x ≤ y) :
    PartsAt v x (lowerBound v x first len) := by
  fun_induction lowerBound v x first len with
  | case1 first => exact ⟨hbefore, hafter⟩
  | case2 first len hne hnone =>
    rw [List.getElem?_eq_none_iff] at hnone
    omega
  | case3 first len hne y hy hless ih =>
    apply ih (by omega)
    · intro j z hj hz
      rcases Nat.lt_succ_iff_lt_or_eq.mp hj with h | rfl
      · exact (lt_of_getElem? hv h hz hy).trans hless
      · rw [hy] at hz
        cases hz
        exact hless
    · intro j z hj
      exact hafter j z (by omega)
  | case4 first len hne y hy hless ih =>
    apply ih (by omega) hbefore
    intro j z hj hz
    rcases hj.lt_or_eq with h | rfl
    · exact (not_lt.mp hless).trans (lt_of_getElem? hv h hy hz).le
    · rw [hy] at hz
      cases hz
      exact not_lt.mp hless

/-- In a sorted vector, `binary_search` finds what is an element. -/
theorem binarySearch_iff (hv : v.Pairwise (· < ·)) : binarySearch v x = true ↔ x ∈ v := by
  have hparts : PartsAt v x (lowerBound v x 0 v.length) := by
    apply lowerBound_parts hv (by omega)
    · intro j y hj
      omega
    · intro j y hj hy
      rw [List.getElem?_eq_none (by omega)] at hy
      cases hy
  unfold binarySearch
  generalize lowerBound v x 0 v.length = k at *
  constructor
  · intro h
    split at h
    · cases h
    · rename_i y hy
      have hge := hparts.after k y (le_refl k) hy
      have hle : y ≤ x := by simpa using h
      rw [le_antisymm hge hle]
      exact List.mem_of_getElem? hy
  · intro h
    obtain ⟨j, hj⟩ := List.mem_iff_getElem?.mp h
    have hkj : k ≤ j := by
      by_contra hlt
      exact lt_irrefl x (hparts.before j x (by omega) hj)
    have hlen := (List.getElem?_eq_some_iff.mp hj).1
    obtain ⟨y, hk⟩ : ∃ y, v[k]? = some y := ⟨_, List.getElem?_eq_getElem (hkj.trans_lt hlen)⟩
    have hle : y ≤ x := by
      rcases hkj.lt_or_eq with hlt | rfl
      · exact (lt_of_getElem? hv hlt hk hj).le
      · rw [hj, Option.some.injEq] at hk
        exact hk.ge
    rw [hk]
    simpa using hle

/-- Elements are erased from the last one on, so that the places of the others stay. -/
theorem mem_foldl_eraseIdx {β : Type*} {places : List Nat} (h : places.Pairwise (· > ·))
    {l : List β} {x : β} : x ∈ places.foldl List.eraseIdx l ↔ ∃ j, j ∉ places ∧ l[j]? = some x := by
  induction places generalizing l with
  | nil => simp [List.mem_iff_getElem?]
  | cons d places ih =>
    rw [List.pairwise_cons] at h
    rw [List.foldl_cons, ih h.2]
    constructor
    · rintro ⟨j, hj, hx⟩
      rw [List.getElem?_eraseIdx] at hx
      split at hx
      · rename_i hlt
        exact ⟨j, by simp [hj, hlt.ne], hx⟩
      · rename_i hge
        have hnot : j + 1 ∉ places := fun hmem => by
          have := h.1 _ hmem
          omega
        exact ⟨j + 1, by simp [hnot]; omega, hx⟩
    · rintro ⟨j, hj, hx⟩
      rw [List.mem_cons, not_or] at hj
      rcases Nat.lt_or_gt_of_ne hj.1 with hlt | hgt
      · exact ⟨j, hj.2, by rw [List.getElem?_eraseIdx, if_pos hlt]; exact hx⟩
      · refine ⟨j - 1, fun hmem => ?_, ?_⟩
        · have := h.1 _ hmem
          omega
        · rw [List.getElem?_eraseIdx, if_neg (by omega)]
          have hj' : j - 1 + 1 = j := by omega
          rw [hj']
          exact hx

theorem foldl_eraseIdx_sublist {β : Type*} (places : List Nat) (l : List β) :
    (places.foldl List.eraseIdx l).Sublist l := by
  induction places generalizing l with
  | nil => exact List.Sublist.refl l
  | cons d places ih => exact (ih _).trans (List.eraseIdx_sublist l d)

end Ice.Lib
