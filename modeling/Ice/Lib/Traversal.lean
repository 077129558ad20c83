import Mathlib.Algebra.Order.BigOperators.Group.Finset
import Mathlib.Algebra.BigOperators.Intervals

/-!
# Traversals as loops

A visitor that calls itself for what it finds, and does nothing afterwards, is a loop over the
calls that are still to be made. What a call asks for comes before what was asked for earlier, so
that the order is the one of the recursion.
-/

namespace Ice.Lib

variable {σ α : Type*} {visit : α → σ → List α × σ} {I : List α → σ → Prop}
  {μ : List α → σ → Nat} {calls : List α} {s : σ}

/-- So many calls are made. What is left are the calls that are still to be made. -/
def traverse (visit : α → σ → List α × σ) : Nat → List α → σ → List α × σ
  | 0, calls, s => (calls, s)
  | _ + 1, [], s => ([], s)
  | fuel + 1, a :: calls, s =>
    traverse visit fuel ((visit a s).1 ++ calls) (visit a s).2

@[simp] theorem traverse_nil (fuel : Nat) : traverse visit fuel [] s = ([], s) := by
  cases fuel with
  | zero => rfl
  | succ fuel => rfl

/-- What every call keeps holds at the end. -/
theorem traverse_invariant (fuel : Nat) (h : I calls s)
    (hvisit : ∀ a calls s, I (a :: calls) s → I ((visit a s).1 ++ calls) (visit a s).2) :
    I (traverse visit fuel calls s).1 (traverse visit fuel calls s).2 := by
  induction fuel generalizing calls s with
  | zero => exact h
  | succ fuel ih =>
    cases calls with
    | nil => exact h
    | cons a calls => exact ih (hvisit a calls s h)

/-- With enough fuel, which every call uses up, all calls are made. -/
theorem traverse_finished {fuel : Nat} (h : I calls s)
    (hvisit : ∀ a calls s, I (a :: calls) s → I ((visit a s).1 ++ calls) (visit a s).2)
    (hless : ∀ a calls s, I (a :: calls) s →
      μ ((visit a s).1 ++ calls) (visit a s).2 < μ (a :: calls) s)
    (hfuel : μ calls s ≤ fuel) : (traverse visit fuel calls s).1 = [] := by
  induction fuel generalizing calls s with
  | zero =>
    cases calls with
    | nil => rfl
    | cons a calls =>
      have hlt := hless a calls s h
      omega
  | succ fuel ih =>
    cases calls with
    | nil => rfl
    | cons a calls =>
      have hlt := hless a calls s h
      exact ih (hvisit a calls s h) (by omega)

/-- The invariant at the end of a traversal with enough fuel -/
theorem traverse_spec {fuel : Nat} (h : I calls s)
    (hvisit : ∀ a calls s, I (a :: calls) s → I ((visit a s).1 ++ calls) (visit a s).2)
    (hless : ∀ a calls s, I (a :: calls) s →
      μ ((visit a s).1 ++ calls) (visit a s).2 < μ (a :: calls) s)
    (hfuel : μ calls s ≤ fuel) : I [] (traverse visit fuel calls s).2 := by
  have hend := traverse_invariant fuel h hvisit
  rwa [traverse_finished h hvisit hless hfuel] at hend

/-- A sum in which one value changes -/
theorem sum_update {β : Type*} {n i : Nat} (g : Nat → β → Nat) (f : Nat → β) (b : β) (hi : i < n) :
    ∑ j ∈ Finset.range n, g j (Function.update f i b j) + g i (f i) =
      ∑ j ∈ Finset.range n, g j (f j) + g i b := by
  have hmem : i ∈ Finset.range n := Finset.mem_range.mpr hi
  have hothers : ∑ j ∈ (Finset.range n).erase i, g j (Function.update f i b j) =
      ∑ j ∈ (Finset.range n).erase i, g j (f j) := by
    apply Finset.sum_congr rfl
    intro j hj
    rw [Function.update_of_ne (Finset.ne_of_mem_erase hj)]
  rw [← Finset.add_sum_erase _ _ hmem, ← Finset.add_sum_erase _ (fun j => g j (f j)) hmem,
    Function.update_self, hothers]
  omega

/-- The sum of the weights of those that are not found yet -/
def remaining (n : Nat) (weight : Nat → Nat) (found : Nat → Bool) : Nat :=
  ∑ i ∈ Finset.range n, if found i then 0 else weight i

theorem remaining_le (n : Nat) (weight : Nat → Nat) (found : Nat → Bool) :
    remaining n weight found ≤ ∑ i ∈ Finset.range n, weight i := by
  apply Finset.sum_le_sum
  intro i _
  split
  · exact Nat.zero_le _
  · exact Nat.le_refl _

/-- One more is found. -/
theorem remaining_update {n : Nat} {weight : Nat → Nat} {found : Nat → Bool} {i : Nat}
    (hi : i < n) (hfound : found i = false) :
    remaining n weight (Function.update found i true) + weight i = remaining n weight found := by
  have hsum := sum_update (fun j b => if b = true then 0 else weight j) found true hi
  rw [hfound] at hsum
  exact hsum

end Ice.Lib
