import Mathlib.Data.List.SplitBy

/-!
# Segments of a sorted list

`List.splitBy` cuts a list where a label changes. When the list is strictly sorted and
each label occupies a convex part of the order, the first element of a segment is the
least one of the whole list that has its label.
-/

namespace Ice.Lib

variable {α β : Type*} [DecidableEq β] {lt : α → α → Prop} {f : α → β} {l : List α}

/-- A label that two elements share belongs to all elements between them. -/
def Convex (lt : α → α → Prop) (f : α → β) : Prop :=
  ∀ x y z, lt x y → lt y z → f x = f z → f x = f y

/-- The last element before a segment has another label. -/
private theorem getLast_ne_head {before after : List (List α)} {g : List α}
    (h : l.splitBy (fun x y => f x = f y) = before ++ g :: after) (hb : before ≠ []) :
    ∃ (y z : α), before.flatten.getLast? = some y ∧ g.head? = some z ∧ f y ≠ f z := by
  have hchain := List.isChain_getLast_head_splitBy (fun x y => decide (f x = f y)) l
  rw [h, List.isChain_append] at hchain
  obtain ⟨_, _, hlink⟩ := hchain
  obtain ⟨hy, hz, hne⟩ := hlink (before.getLast hb) (List.getLast_mem_getLast? hb) g (by simp)
  refine ⟨(before.getLast hb).getLast hy, g.head hz, ?_, List.head?_eq_some_head hz, ?_⟩
  · have hflat : before.flatten = before.dropLast.flatten ++ before.getLast hb := by
      conv_lhs => rw [← List.dropLast_append_getLast hb]
      simp
    rw [hflat, List.getLast?_append, List.getLast?_eq_some_getLast hy]
    rfl
  · simpa using hne

/-- The head of a segment is the least element with its label. -/
theorem head_splitBy_least (hsorted : l.Pairwise lt) (hconvex : Convex lt f) {g : List α}
    (hg : g ∈ l.splitBy fun x y => f x = f y) {z x : α} (hz : g.head? = some z) (hx : x ∈ l)
    (hf : f x = f z) : x = z ∨ lt z x := by
  obtain ⟨before, after, hsplit⟩ := List.append_of_mem hg
  have hl : l = before.flatten ++ (g ++ after.flatten) := by
    conv_lhs => rw [← List.flatten_splitBy (fun x y => decide (f x = f y)) l, hsplit]
    simp
  obtain ⟨rest, hrest⟩ : ∃ rest, g = z :: rest := by
    cases g with
    | nil => simp at hz
    | cons a rest => exact ⟨rest, by simpa using hz⟩
  subst hrest
  rw [hl, List.pairwise_append] at hsorted
  obtain ⟨hbefore, hfrom, hcross⟩ := hsorted
  rw [hl, List.mem_append] at hx
  rcases hx with hx | hx
  · -- the last element before the segment would have the label too
    exfalso
    have hne : before ≠ [] := by
      rintro rfl
      simp at hx
    obtain ⟨y, z', hy, hz', hfy⟩ := getLast_ne_head hsplit hne
    obtain rfl : z = z' := by simpa using hz'
    have hymem : y ∈ before.flatten := List.mem_of_getLast? hy
    have hyz : lt y z := hcross y hymem z (by simp)
    obtain ⟨init, hinit⟩ : ∃ init, before.flatten = init ++ [y] :=
      List.getLast?_eq_some_iff.mp hy
    rw [hinit] at hx hbefore
    rcases List.mem_append.mp hx with hx | hx
    · have hxy : lt x y := (List.pairwise_append.mp hbefore).2.2 x hx y (by simp)
      exact hfy ((hconvex x y z hxy hyz hf).symm.trans hf)
    · obtain rfl : x = y := by simpa using hx
      exact hfy hf
  · rcases List.mem_append.mp hx with hx | hx
    · rcases List.mem_cons.mp hx with rfl | hx
      · exact .inl rfl
      · exact .inr ((List.pairwise_append.mp hfrom).1 |> List.rel_of_pairwise_cons <| hx)
    · exact .inr ((List.pairwise_append.mp hfrom).2.2 z (by simp) x hx)

end Ice.Lib
