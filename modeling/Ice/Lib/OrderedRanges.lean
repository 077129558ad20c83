import Mathlib.Data.List.Sort

/-!
# Algorithms on ordered ranges

What `sort` and `unique` leave of a range, and what `set_difference` and `set_union` take of two,
for comparisons that depend on a key.
-/

namespace Ice.Lib

open List (forall_mem_cons mem_cons pairwise_cons pairwise_map)

variable {α κ : Type*}

/-- `sort` -/
def sort (less : α → α → Bool) (l : List α) : List α := l.insertionSort fun a b => ¬ less b a

/-- `unique` with `erase` -/
def unique (same : α → α → Bool) : List α → List α
  | [] => []
  | a :: l => a :: after a l
where
  /-- What is left behind an element that stays. -/
  after : α → List α → List α
    | _, [] => []
    | a, b :: l => if same a b then after a l else b :: after b l

section

variable [LinearOrder κ] {less same : α → α → Bool} {key : α → κ} {l : List α}

theorem perm_sort (less : α → α → Bool) (l : List α) : (sort less l).Perm l :=
  List.perm_insertionSort _ l

theorem pairwise_sort (hless : ∀ a b, less a b = true ↔ key a < key b) (l : List α) :
    (sort less l).Pairwise fun a b => key a ≤ key b := by
  have hle (a b : α) : ¬ less b a = true ↔ key a ≤ key b := by rw [hless, not_lt]
  have : Std.Total fun a b => ¬ less b a = true :=
    ⟨fun a b => by rw [hle, hle]; exact le_total (key a) (key b)⟩
  have : IsTrans α fun a b => ¬ less b a = true :=
    ⟨fun a b c hab hbc => (hle a c).mpr (((hle a b).mp hab).trans ((hle b c).mp hbc))⟩
  exact (List.pairwise_insertionSort _ l).imp fun {a b} hab => (hle a b).mp hab

theorem after_sublist (same : α → α → Bool) (a : α) (l : List α) :
    (unique.after same a l).Sublist l := by
  induction l generalizing a with
  | nil => exact .slnil
  | cons b l ih =>
    unfold unique.after
    split
    · exact (ih a).cons b
    · exact (ih b).cons_cons b

theorem unique_sublist (same : α → α → Bool) (l : List α) : (unique same l).Sublist l := by
  cases l with
  | nil => exact .slnil
  | cons a l => exact (after_sublist same a l).cons_cons a

theorem pairwise_unique (hsame : ∀ a b, same a b = true ↔ key a = key b)
    (hl : l.Pairwise fun a b => key a ≤ key b) :
    (unique same l).Pairwise fun a b => key a < key b := by
  have hafter : ∀ (l : List α) (a : α), ((a :: l).Pairwise fun a b => key a ≤ key b) →
      (a :: unique.after same a l).Pairwise fun a b => key a < key b := by
    intro l
    induction l with
    | nil =>
      intro a _
      exact List.pairwise_singleton _ a
    | cons b l ih =>
      intro a ha
      obtain ⟨hfirst, hrest⟩ := pairwise_cons.mp ha
      unfold unique.after
      by_cases hab : same a b = true
      · rw [if_pos hab]
        apply ih a
        refine pairwise_cons.mpr ⟨?_, (pairwise_cons.mp hrest).2⟩
        intro c hc
        exact hfirst c (List.mem_cons_of_mem b hc)
      · rw [if_neg hab]
        have hlt : key a < key b :=
          lt_of_le_of_ne (hfirst b (List.mem_cons_self ..)) fun heq => hab ((hsame a b).mpr heq)
        have hlater := ih b hrest
        refine pairwise_cons.mpr ⟨?_, hlater⟩
        intro c hc
        rcases mem_cons.mp hc with rfl | hc
        · exact hlt
        · exact hlt.trans ((pairwise_cons.mp hlater).1 c hc)
  cases l with
  | nil => exact .nil
  | cons a l => exact hafter l a hl

/-- Two ranges without equal keys are the same in their keys if they hold the same keys. -/
theorem map_key_eq {l m : List α} (hl : l.Pairwise fun a b => key a < key b)
    (hm : m.Pairwise fun a b => key a < key b) (h : ∀ k, k ∈ l.map key ↔ k ∈ m.map key) :
    l.map key = m.map key := by
  have hl' : (l.map key).Pairwise (· < ·) := pairwise_map.mpr hl
  have hm' : (m.map key).Pairwise (· < ·) := pairwise_map.mpr hm
  have hperm : (l.map key).Perm (m.map key) :=
    (List.perm_ext_iff_of_nodup (hl'.imp ne_of_lt) (hm'.imp ne_of_lt)).mpr h
  exact hperm.eq_of_pairwise (fun a b _ _ hab hba => absurd hba hab.asymm) hl' hm'

/-- A range without equal keys is left as it is. -/
theorem unique_eq_self (hsame : ∀ a b, same a b = true ↔ key a = key b)
    (hl : l.Pairwise fun a b => key a < key b) : unique same l = l := by
  have hafter : ∀ (l : List α) (a : α), ((a :: l).Pairwise fun a b => key a < key b) →
      unique.after same a l = l := by
    intro l
    induction l with
    | nil => exact fun a _ => rfl
    | cons b l ih =>
      intro a ha
      obtain ⟨hfirst, hrest⟩ := pairwise_cons.mp ha
      unfold unique.after
      rw [if_neg, ih b hrest]
      rw [hsame]
      exact (hfirst b (List.mem_cons_self ..)).ne
  cases l with
  | nil => rfl
  | cons a l =>
    change a :: unique.after same a l = a :: l
    rw [hafter l a hl]

/-- Sorting a range without equal keys -/
theorem pairwise_sort_of_nodup (hless : ∀ a b, less a b = true ↔ key a < key b)
    (hl : (l.map key).Nodup) : (sort less l).Pairwise fun a b => key a < key b := by
  have hsorted := pairwise_sort hless l
  have hnodup : ((sort less l).map key).Nodup := ((perm_sort less l).map key).nodup_iff.mpr hl
  have hne : (sort less l).Pairwise fun a b => key a ≠ key b := pairwise_map.mp hnodup
  exact (hsorted.and hne).imp fun ⟨hle, hne⟩ => lt_of_le_of_ne hle hne

/-- `set_difference` -/
def setDifference (less : α → α → Bool) : List α → List α → List α
  | [], _ => []
  | a :: l, [] => a :: l
  | a :: l, b :: m =>
    if less a b then a :: setDifference less l (b :: m)
    else if less b a then setDifference less (a :: l) m
    else setDifference less l m
termination_by l m => l.length + m.length

/-- `set_union` -/
def setUnion (less : α → α → Bool) : List α → List α → List α
  | [], m => m
  | a :: l, [] => a :: l
  | a :: l, b :: m =>
    if less b a then b :: setUnion less (a :: l) m
    else if less a b then a :: setUnion less l (b :: m)
    else a :: setUnion less l m
termination_by l m => l.length + m.length

variable {m : List α} {x : α}

theorem setDifference_sublist (less : α → α → Bool) (l m : List α) :
    (setDifference less l m).Sublist l := by
  induction l, m using setDifference.induct less with
  | case1 m =>
    unfold setDifference
    exact .slnil
  | case2 a l =>
    unfold setDifference
    exact .refl _
  | case3 a l b m h ih =>
    unfold setDifference
    rw [if_pos h]
    exact ih.cons_cons a
  | case4 a l b m h h' ih =>
    unfold setDifference
    rw [if_neg h, if_pos h']
    exact ih
  | case5 a l b m h h' ih =>
    unfold setDifference
    rw [if_neg h, if_neg h']
    exact ih.cons a

/-- A key below the first one is below all of the range. -/
theorem lt_of_lt_head {a y : α} {k : κ} (hl : (a :: l).Pairwise fun a b => key a < key b)
    (h : k < key a) (hy : y ∈ a :: l) : k < key y := by
  rcases mem_cons.mp hy with rfl | hy
  · exact h
  · exact h.trans ((pairwise_cons.mp hl).1 y hy)

section

variable (hless : ∀ a b, less a b = true ↔ key a < key b)

include hless

section

variable (hl : l.Pairwise fun a b => key a < key b)

include hl

section

variable (hm : m.Pairwise fun a b => key a < key b)

include hm

/-- What is left has a key that is not in the other range. -/
theorem mem_setDifference :
    x ∈ setDifference less l m ↔ x ∈ l ∧ ∀ y ∈ m, key y ≠ key x := by
  induction l, m using setDifference.induct less with
  | case1 m | case2 a l =>
    unfold setDifference
    simp
  | case3 a l b m h ih =>
    obtain ⟨-, hl⟩ := pairwise_cons.mp hl
    rw [hless] at h
    have ha : ∀ y ∈ b :: m, key y ≠ key a := fun y hy => (lt_of_lt_head hm h hy).ne'
    unfold setDifference
    rw [if_pos ((hless a b).mpr h), mem_cons, ih hl hm, mem_cons]
    constructor
    · rintro (rfl | ⟨hx, hne⟩)
      · exact ⟨Or.inl rfl, ha⟩
      · exact ⟨Or.inr hx, hne⟩
    · rintro ⟨hx, hne⟩
      exact hx.imp_right fun hx => ⟨hx, hne⟩
  | case4 a l b m h h' ih =>
    obtain ⟨-, hm⟩ := pairwise_cons.mp hm
    rw [hless] at h'
    unfold setDifference
    rw [if_neg h, if_pos ((hless b a).mpr h'), ih hl hm, forall_mem_cons]
    constructor
    · rintro ⟨hx, hne⟩
      exact ⟨hx, (lt_of_lt_head hl h' hx).ne, hne⟩
    · rintro ⟨hx, -, hne⟩
      exact ⟨hx, hne⟩
  | case5 a l b m h h' ih =>
    obtain ⟨habove, hl⟩ := pairwise_cons.mp hl
    obtain ⟨hbelow, hm⟩ := pairwise_cons.mp hm
    rw [hless, not_lt] at h h'
    have hab : key a = key b := le_antisymm h' h
    unfold setDifference
    rw [if_neg (by rw [hless, not_lt]; exact h), if_neg (by rw [hless, not_lt]; exact h'),
      ih hl hm, forall_mem_cons, ← hab]
    constructor
    · rintro ⟨hx, hne⟩
      exact ⟨List.mem_cons_of_mem a hx, (habove x hx).ne, hne⟩
    · rintro ⟨hx, hnot, hne⟩
      rcases mem_cons.mp hx with rfl | hx
      · exact absurd rfl hnot
      · exact ⟨hx, hne⟩

/-- Of two elements with the same key, the one of the first range is taken. -/
theorem mem_setUnion :
    x ∈ setUnion less l m ↔ x ∈ l ∨ (x ∈ m ∧ ∀ y ∈ l, key y ≠ key x) := by
  induction l, m using setUnion.induct less with
  | case1 m =>
    unfold setUnion
    simp
  | case2 a l =>
    unfold setUnion
    simp
  | case3 a l b m h ih =>
    obtain ⟨-, hm⟩ := pairwise_cons.mp hm
    rw [hless] at h
    have hb : ∀ y ∈ a :: l, key y ≠ key b := fun y hy => (lt_of_lt_head hl h hy).ne'
    unfold setUnion
    rw [if_pos ((hless b a).mpr h), mem_cons, ih hl hm, mem_cons (b := b)]
    constructor
    · rintro (rfl | hx | ⟨hx, hne⟩)
      · exact Or.inr ⟨Or.inl rfl, hb⟩
      · exact Or.inl hx
      · exact Or.inr ⟨Or.inr hx, hne⟩
    · rintro (hx | ⟨rfl | hx, hne⟩)
      · exact Or.inr (Or.inl hx)
      · exact Or.inl rfl
      · exact Or.inr (Or.inr ⟨hx, hne⟩)
  | case4 a l b m h h' ih =>
    obtain ⟨-, hl⟩ := pairwise_cons.mp hl
    rw [hless] at h'
    unfold setUnion
    rw [if_neg h, if_pos ((hless a b).mpr h'), mem_cons, ih hl hm, mem_cons (b := a),
      forall_mem_cons, or_assoc]
    constructor
    · rintro (rfl | hx | ⟨hx, hne⟩)
      · exact Or.inl rfl
      · exact Or.inr (Or.inl hx)
      · exact Or.inr (Or.inr ⟨hx, (lt_of_lt_head hm h' hx).ne, hne⟩)
    · rintro (rfl | hx | ⟨hx, -, hne⟩)
      · exact Or.inl rfl
      · exact Or.inr (Or.inl hx)
      · exact Or.inr (Or.inr ⟨hx, hne⟩)
  | case5 a l b m h h' ih =>
    obtain ⟨habove, hl⟩ := pairwise_cons.mp hl
    obtain ⟨hbelow, hm⟩ := pairwise_cons.mp hm
    rw [hless, not_lt] at h h'
    have hab : key a = key b := le_antisymm h h'
    unfold setUnion
    rw [if_neg (by rw [hless, not_lt]; exact h), if_neg (by rw [hless, not_lt]; exact h'),
      mem_cons, ih hl hm, mem_cons (b := a), mem_cons (b := b),
      forall_mem_cons, or_assoc, hab]
    constructor
    · rintro (rfl | hx | ⟨hx, hne⟩)
      · exact Or.inl rfl
      · exact Or.inr (Or.inl hx)
      · exact Or.inr (Or.inr ⟨Or.inr hx, (hbelow x hx).ne, hne⟩)
    · rintro (rfl | hx | ⟨rfl | hx, hnot, hne⟩)
      · exact Or.inl rfl
      · exact Or.inr (Or.inl hx)
      · exact absurd rfl hnot
      · exact Or.inr (Or.inr ⟨hx, hne⟩)

theorem pairwise_setUnion :
    (setUnion less l m).Pairwise fun a b => key a < key b := by
  induction l, m using setUnion.induct less with
  | case1 m =>
    unfold setUnion
    exact hm
  | case2 a l =>
    unfold setUnion
    exact hl
  | case3 a l b m h ih =>
    obtain ⟨hbelow, hm'⟩ := pairwise_cons.mp hm
    unfold setUnion
    rw [if_pos h]
    rw [hless] at h
    refine pairwise_cons.mpr ⟨?_, ih hl hm'⟩
    intro y hy
    rcases (mem_setUnion hless hl hm').mp hy with hy | ⟨hy, -⟩
    · exact lt_of_lt_head hl h hy
    · exact hbelow y hy
  | case4 a l b m h h' ih =>
    obtain ⟨habove, hl'⟩ := pairwise_cons.mp hl
    unfold setUnion
    rw [if_neg h, if_pos h']
    rw [hless] at h'
    refine pairwise_cons.mpr ⟨?_, ih hl' hm⟩
    intro y hy
    rcases (mem_setUnion hless hl' hm).mp hy with hy | ⟨hy, -⟩
    · exact habove y hy
    · exact lt_of_lt_head hm h' hy
  | case5 a l b m h h' ih =>
    obtain ⟨habove, hl⟩ := pairwise_cons.mp hl
    obtain ⟨hbelow, hm⟩ := pairwise_cons.mp hm
    unfold setUnion
    rw [if_neg h, if_neg h']
    rw [hless, not_lt] at h h'
    refine pairwise_cons.mpr ⟨?_, ih hl hm⟩
    intro y hy
    rcases (mem_setUnion hless hl hm).mp hy with hy | ⟨hy, -⟩
    · exact habove y hy
    · exact h.trans_lt (hbelow y hy)

end

end

end

end

end Ice.Lib
