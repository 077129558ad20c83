import Mathlib

/-!
# Ordered sets whose elements have keys

A set that is ordered by keys holds one element for each key. It is a list here; an element whose
key is there is not inserted.
-/

namespace Ice.Lib

variable {α κ : Type*} [LinearOrder κ] {key : α → κ} {x y : α} {l : List α} {k : κ}

/-- The keys grow. -/
def SortedBy (key : α → κ) (l : List α) : Prop := l.Pairwise fun x y => key x < key y

def insertBy (key : α → κ) (x : α) : List α → List α
  | [] => [x]
  | y :: l =>
    if key x < key y then x :: y :: l
    else if key y < key x then y :: insertBy key x l
    else y :: l

def eraseBy (key : α → κ) (k : κ) (l : List α) : List α := l.filter fun x => key x ≠ k

theorem mem_eraseBy : x ∈ eraseBy key k l ↔ x ∈ l ∧ key x ≠ k := by
  simp [eraseBy]

theorem SortedBy.eraseBy (h : SortedBy key l) : SortedBy key (eraseBy key k l) := h.filter _

/-- What is inserted is there if its key was not. -/
theorem mem_insertBy (hnew : ∀ y ∈ l, key y ≠ key x) : y ∈ insertBy key x l ↔ y = x ∨ y ∈ l := by
  induction l with
  | nil => simp [insertBy]
  | cons z l ih =>
    rw [List.forall_mem_cons] at hnew
    rw [insertBy]
    split
    · simp
    · split
      · rw [List.mem_cons, ih hnew.2, List.mem_cons]
        exact or_left_comm
      · exact absurd (le_antisymm (not_lt.mp ‹_›) (not_lt.mp ‹_›)) hnew.1

theorem mem_or_eq_of_mem_insertBy (h : y ∈ insertBy key x l) : y = x ∨ y ∈ l := by
  induction l with
  | nil => simpa [insertBy] using h
  | cons z l ih =>
    rw [insertBy] at h
    split at h
    · simpa using h
    · split at h
      · rcases List.mem_cons.mp h with rfl | h
        · exact .inr List.mem_cons_self
        · exact (ih h).imp id (List.mem_cons_of_mem _)
      · exact .inr h

theorem SortedBy.insertBy (h : SortedBy key l) : SortedBy key (insertBy key x l) := by
  induction l with
  | nil => exact List.pairwise_singleton _ _
  | cons z l ih =>
    obtain ⟨hz, hl⟩ := List.pairwise_cons.mp h
    rw [Lib.insertBy]
    split
    · rename_i hlt
      apply List.pairwise_cons.mpr
      refine ⟨fun y hy => ?_, h⟩
      rcases List.mem_cons.mp hy with rfl | hy
      · exact hlt
      · exact hlt.trans (hz y hy)
    · split
      · rename_i hgt
        apply List.pairwise_cons.mpr
        refine ⟨fun y hy => ?_, ih hl⟩
        rcases mem_or_eq_of_mem_insertBy hy with rfl | hy
        · exact hgt
        · exact hz y hy
      · exact h

/-- A sorted list has one element for a key. -/
theorem SortedBy.eq_of_key (h : SortedBy key l) (hx : x ∈ l) (hy : y ∈ l) (hk : key x = key y) :
    x = y := by
  obtain ⟨i, hi, rfl⟩ := List.getElem_of_mem hx
  obtain ⟨j, hj, rfl⟩ := List.getElem_of_mem hy
  have hlt := List.pairwise_iff_getElem.mp h
  rcases Nat.lt_trichotomy i j with hij | rfl | hij
  · exact absurd hk (hlt i j hi hj hij).ne
  · rfl
  · exact absurd hk (hlt j i hj hi hij).ne'

end Ice.Lib
