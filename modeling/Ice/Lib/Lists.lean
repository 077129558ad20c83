import Mathlib.Algebra.Order.BigOperators.Group.List
import Mathlib.Algebra.Order.Ring.Int

/-!
# Lists

What happens to sums and members when one place of a list is changed, and where an element of
a list stands when others are added behind it.
-/

namespace Ice.Lib

variable {α : Type*}

variable {i : Nat} {l after before xs : List α} {x : α} (f : α → Int)

theorem sum_map_eraseIdx (h : l[i]? = some x) :
    ((l.eraseIdx i).map f).sum = (l.map f).sum - f x := by
  obtain ⟨hi, rfl⟩ := List.getElem?_eq_some_iff.mp h
  have hi' : i < (l.map f).length := by rwa [List.length_map]
  have hsum := List.CommMonoid.add_sum_eraseIdx hi'
  rw [List.getElem_map, List.eraseIdx_map] at hsum
  omega

theorem sum_map_set (y : α) (h : l[i]? = some x) :
    ((l.set i y).map f).sum = (l.map f).sum - f x + f y := by
  obtain ⟨hi, rfl⟩ := List.getElem?_eq_some_iff.mp h
  have hi' : i < (l.map f).length := by rwa [List.length_map]
  rw [List.map_set, List.sum_set', dif_pos hi', List.getElem_map]
  omega

theorem sum_map_nonneg (h : ∀ x ∈ l, 0 ≤ f x) : 0 ≤ (l.map f).sum := by
  apply List.sum_nonneg
  simpa using h

theorem le_sum_map (h : ∀ y ∈ l, 0 ≤ f y) (hx : x ∈ l) : f x ≤ (l.map f).sum := by
  apply List.single_le_sum _ _ (List.mem_map_of_mem hx)
  simpa using h

/-- A sum over a range where each summand is at most one -/
theorem sum_map_range_le {f : Nat → Nat} (hf : ∀ i, f i ≤ 1) (n : Nat) :
    ((List.range n).map f).sum ≤ n := by
  induction n with
  | zero => exact Nat.le_refl 0
  | succ n ih =>
    rw [List.range_succ, List.map_append, List.sum_append, List.map_singleton,
      List.sum_singleton]
    have hn := hf n
    omega

/-- Zeros at the end of a range do not count. -/
theorem sum_map_range_add {f : Nat → Nat} {m : Nat} (hf : ∀ i, m ≤ i → f i = 0) (n : Nat) :
    ((List.range (m + n)).map f).sum = ((List.range m).map f).sum := by
  induction n with
  | zero => rfl
  | succ n ih =>
    rw [← Nat.add_assoc, List.range_succ, List.map_append, List.sum_append, ih,
      List.map_singleton, List.sum_singleton, hf (m + n) (Nat.le_add_right m n)]
    omega

/-- The size of an interval within a range -/
theorem sum_map_range_interval (first n m : Nat) :
    ((List.range m).map fun i => if first ≤ i ∧ i < first + n then 1 else 0).sum =
      min m (first + n) - min m first := by
  induction m with
  | zero => simp
  | succ m ih =>
    rw [List.range_succ, List.map_append, List.sum_append, ih, List.map_singleton,
      List.sum_singleton]
    split <;> omega

theorem forall_mem_set {p : α → Prop} {y : α} (h : ∀ x ∈ l, p x) (hy : p y) :
    ∀ x ∈ l.set i y, p x := by
  intro x hx
  rcases List.mem_or_eq_of_mem_set hx with hx | rfl
  · exact h x hx
  · exact hy

theorem mem_eraseIdx_or_eq {y : α} (h : l[i]? = some x) (hy : y ∈ l) :
    y ∈ l.eraseIdx i ∨ y = x := by
  obtain ⟨j, hj⟩ := List.getElem?_of_mem hy
  by_cases hij : j = i
  · subst hij
    exact .inr (Option.some.inj (hj.symm.trans h))
  · exact .inl (List.mem_eraseIdx_iff_getElem?.mpr ⟨j, hij, hj⟩)

/-- The place of something that is not in what was added. -/
theorem split_of_append {ys : List α} (h : xs ++ ys = before ++ x :: after) (hx : x ∉ ys) :
    ∃ rest, xs = before ++ x :: rest ∧ after = rest ++ ys := by
  rcases List.append_eq_append_iff.mp h with ⟨zs, hb, hys⟩ | ⟨zs, hxs, hrest⟩
  · have hmem : x ∈ ys := by simp [hys]
    exact absurd hmem hx
  · cases zs with
    | nil =>
      rw [List.nil_append] at hrest
      have hmem : x ∈ ys := by simp [← hrest]
      exact absurd hmem hx
    | cons z rest =>
      injection hrest with hz hafter
      subst hz
      exact ⟨rest, hxs, hafter⟩

/-- The place of something that is there once. -/
theorem split_of_not_mem {ys : List α} (h : xs ++ x :: ys = before ++ x :: after) (hx : x ∉ xs)
    (hy : x ∉ ys) : before = xs ∧ after = ys := by
  rcases List.append_eq_append_iff.mp h with ⟨zs, hb, hys⟩ | ⟨zs, hxs, hrest⟩
  · cases zs with
    | nil =>
      injection hys with _ hys
      exact ⟨by simpa using hb, hys.symm⟩
    | cons z rest =>
      injection hys with _ hys
      have hmem : x ∈ ys := by simp [hys]
      exact absurd hmem hy
  · cases zs with
    | nil =>
      injection hrest with _ hrest
      exact ⟨by simpa using hxs.symm, hrest⟩
    | cons z rest =>
      injection hrest with hz _
      have hmem : x ∈ xs := by simp [hxs, ← hz]
      exact absurd hmem hx

/-- Nothing follows the last element of a list in a sublist. -/
theorem eq_nil_of_sublist (h : (before ++ x :: after).Sublist (xs ++ [x])) (hx : x ∉ xs) :
    after = [] := by
  obtain ⟨l₁, l₂, heq, h₁, h₂⟩ := List.sublist_append_iff.mp h
  have hl₁ : x ∉ l₁ := fun hmem => hx (h₁.subset hmem)
  rcases List.append_eq_append_iff.mp heq.symm with ⟨ys, hb, hl⟩ | ⟨ys, hl, hb⟩
  · rw [hl] at h₂
    have hlen := h₂.length_le
    simp only [List.length_append, List.length_cons, List.length_nil] at hlen
    exact List.eq_nil_of_length_eq_zero (by omega)
  · cases ys with
    | nil =>
      rw [List.nil_append] at hb
      rw [← hb] at h₂
      exact List.eq_nil_of_length_eq_zero (by simpa using h₂.length_le)
    | cons y rest =>
      injection hb with hy _
      have hmem : x ∈ l₁ := by simp [hl, hy]
      exact absurd hmem hl₁

end Ice.Lib
