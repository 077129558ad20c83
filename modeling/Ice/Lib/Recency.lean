import Mathlib.Data.List.Dedup
import Mathlib.Data.List.DropRight

/-!
# The values used last

A word of uses is read from its start; the last `n` values that were used are kept, each at its
last use. A value is displaced where `n` others are used before it is used again.
-/

namespace Ice.Lib

open List (append_assoc append_nil dedup_cons length_append length_cons mem_append not_mem_nil)

variable {α : Type*} {n : Nat} {l xs a m : List α} {x y : α}

theorem rdrop_append_rtake (l : List α) (n : Nat) : l.rdrop n ++ l.rtake n = l :=
  List.take_append_drop _ l

theorem length_rtake (l : List α) (n : Nat) : (l.rtake n).length = min n l.length := by
  rw [List.rtake, List.length_drop]
  omega

theorem rtake_of_length_le (h : l.length ≤ n) : l.rtake n = l := by
  rw [List.rtake, Nat.sub_eq_zero_of_le h, List.drop_zero]

theorem rtake_append_of_le (h : n ≤ m.length) : (a ++ m).rtake n = m.rtake n := by
  rw [List.rtake, List.rtake, length_append, List.drop_append]
  have hnil : a.drop (a.length + m.length - n) = [] := by
    apply List.drop_of_length_le
    omega
  have hcount : a.length + m.length - n - a.length = m.length - n := by
    omega
  rw [hnil, hcount, List.nil_append]

theorem mem_rtake_cons (hy : y ∉ m) :
    y ∈ (a ++ y :: m).rtake n ↔ m.length < n := by
  constructor
  · intro h
    by_contra hle
    have hle' : n ≤ m.length := Nat.le_of_not_lt hle
    have hassoc : a ++ y :: m = a ++ [y] ++ m := by
      simp
    rw [hassoc, rtake_append_of_le hle'] at h
    exact hy (List.mem_of_mem_drop h)
  · intro hlt
    rw [List.rtake, List.drop_append_of_le_length]
    · exact List.mem_append_right _ List.mem_cons_self
    · rw [length_append, length_cons]
      omega

/-- The last place of a value -/
theorem last_use (h : y ∈ l) : ∃ a m, l = a ++ y :: m ∧ y ∉ m := by
  obtain ⟨s, t, heq, hs⟩ := List.eq_append_cons_of_mem (List.mem_reverse.mpr h)
  refine ⟨t.reverse, s.reverse, ?_, ?_⟩
  · rw [← List.reverse_reverse l, heq]
    simp
  · rwa [List.mem_reverse]

/-- What holds at one number and not at a later one ends between them. -/
theorem exists_last {p : Nat → Prop} {i j : Nat} (hij : i ≤ j) (hi : p i) (hj : ¬ p j) :
    ∃ k < j, p k ∧ ¬ p (k + 1) := by
  induction j, hij using Nat.le_induction with
  | base => exact absurd hi hj
  | succ j _ ih =>
    by_cases h : p j
    · exact ⟨j, Nat.lt_succ_self j, h, hj⟩
    · obtain ⟨k, hk, hkept, hnot⟩ := ih h
      exact ⟨k, Nat.lt_succ_of_lt hk, hkept, hnot⟩

variable [DecidableEq α]

/-- The `n` values that were used last, the one that was used first of them in front -/
def recent (n : Nat) (l : List α) : List α := l.dedup.rtake n

/-- A value is used: it goes to the end. -/
def used (l : List α) (x : α) : List α := l.filter (· ≠ x) ++ [x]

/-- A value is displaced between two uses: `n` others were used in the meantime. -/
def Displaced (n : Nat) (l : List α) (y : α) : Prop :=
  ∃ a m b, l = a ++ y :: m ++ b ∧ y ∉ m ∧ n ≤ m.dedup.length

/-- What is dropped from the front where only `n` values are kept, one use after the other -/
def dropped (n : Nat) (l : List α) : List α → List α
  | [] => []
  | x :: xs => (used l x).rdrop n ++ dropped n ((used l x).rtake n) xs

theorem dedup_snoc (l : List α) (x : α) : (l ++ [x]).dedup = used l.dedup x := by
  unfold used
  induction l with
  | nil => simp
  | cons b l ih =>
    rw [List.cons_append, dedup_cons, dedup_cons, ih]
    by_cases hb : b ∈ l
    · rw [if_pos hb, if_pos (List.mem_append_left _ hb)]
    · rw [if_neg hb]
      by_cases hx : b = x
      · have hmem : b ∈ l ++ [x] := by
          rw [hx]
          simp
        rw [if_pos hmem, List.filter_cons_of_neg (by simpa using hx)]
      · have hmem : b ∉ l ++ [x] := by
          simp [hb, hx]
        rw [if_neg hmem, List.filter_cons_of_pos (by simpa using hx)]
        rfl

theorem nodup_used (h : l.Nodup) (x : α) : (used l x).Nodup := by
  apply List.Nodup.append (h.filter _) (List.nodup_singleton x)
  intro y hy hyx
  rw [List.mem_singleton.mp hyx] at hy
  have hne := (List.mem_filter.mp hy).2
  simp at hne

theorem mem_used : y ∈ used l x ↔ y ∈ l ∨ y = x := by
  unfold used
  by_cases hyx : y = x
  · simp [hyx]
  · simp [hyx]

theorem used_eq_erase (h : l.Nodup) (x : α) : used l x = l.erase x ++ [x] := by
  unfold used
  rw [h.erase_eq_filter]
  congr 1
  apply List.filter_congr
  intro b _
  by_cases hb : b = x
  · simp [hb]
  · simp [hb]

/-- At most one value is taken out where another is used. -/
theorem length_le_used (h : l.Nodup) (x : α) : l.length ≤ (used l x).length := by
  rw [used_eq_erase h, length_append, List.length_erase]
  split
  · have hpos := List.length_pos_of_mem ‹x ∈ l›
    simp only [List.length_singleton]
    omega
  · omega

theorem length_used_of_mem (h : l.Nodup) (hx : x ∈ l) : (used l x).length = l.length := by
  rw [used_eq_erase h, length_append, List.length_erase_of_mem hx]
  have hpos := List.length_pos_of_mem hx
  simp only [List.length_singleton]
  omega

/-- What is not kept any more does not matter for the next use. -/
theorem rtake_used (h : l.Nodup) (x : α) :
    (used (l.rtake n) x).rtake n = (used l x).rtake n := by
  by_cases hle : l.length ≤ n
  · rw [rtake_of_length_le hle]
  · have hlength : (l.rtake n).length = n := by
      rw [length_rtake]
      omega
    have hsplit : used l x = (l.rdrop n).filter (· ≠ x) ++ used (l.rtake n) x := by
      unfold used
      rw [← append_assoc, ← List.filter_append, rdrop_append_rtake]
    have hnodup : (l.rtake n).Nodup := h.sublist (List.drop_sublist _ l)
    have hmany := length_le_used hnodup x
    rw [hsplit, rtake_append_of_le]
    omega

theorem recent_snoc (n : Nat) (l : List α) (x : α) :
    recent n (l ++ [x]) = (used (recent n l) x).rtake n := by
  unfold recent
  rw [dedup_snoc, rtake_used (List.nodup_dedup l)]

theorem recent_of_nodup (h : l.Nodup) (hlength : l.length ≤ n) : recent n l = l := by
  unfold recent
  rw [h.dedup, rtake_of_length_le hlength]

theorem nodup_recent (n : Nat) (l : List α) : (recent n l).Nodup :=
  (List.nodup_dedup l).sublist (List.drop_sublist _ _)

theorem length_recent_le (n : Nat) (l : List α) : (recent n l).length ≤ n := by
  unfold recent
  rw [length_rtake]
  exact Nat.min_le_left _ _

theorem mem_of_mem_recent (h : y ∈ recent n l) : y ∈ l :=
  List.mem_dedup.mp (List.mem_of_mem_drop h)

/-- The values used last are those used last of what is kept and what is used then. -/
theorem recent_append (n : Nat) (l xs : List α) :
    recent n (recent n l ++ xs) = recent n (l ++ xs) := by
  induction xs using List.reverseRecOn with
  | nil =>
    rw [append_nil, append_nil]
    exact recent_of_nodup (nodup_recent n l) (length_recent_le n l)
  | append_singleton xs x ih =>
    rw [← append_assoc, ← append_assoc, recent_snoc, recent_snoc, ih]

theorem dedup_append_cons (a : List α) (hy : y ∉ m) :
    ∃ b, (a ++ y :: m).dedup = b ++ y :: m.dedup := by
  induction a with
  | nil => exact ⟨[], List.dedup_cons_of_notMem hy⟩
  | cons c a ih =>
    obtain ⟨b, heq⟩ := ih
    rw [List.cons_append, dedup_cons, heq]
    split
    · exact ⟨b, rfl⟩
    · exact ⟨c :: b, rfl⟩

/-- A value is kept if less than `n` others were used after its last use. -/
theorem mem_recent_iff (hy : y ∉ m) : y ∈ recent n (a ++ y :: m) ↔ m.dedup.length < n := by
  obtain ⟨b, heq⟩ := dedup_append_cons a hy
  unfold recent
  rw [heq, mem_rtake_cons]
  rwa [List.mem_dedup]

/-- A value that was used is kept, or it is displaced behind its last use. -/
theorem displaced_of_not_recent (h : y ∈ l) (hnot : y ∉ recent n l) : Displaced n l y := by
  obtain ⟨a, m, rfl, hm⟩ := last_use h
  rw [mem_recent_iff hm] at hnot
  exact ⟨a, m, [], (append_nil _).symm, hm, Nat.le_of_not_lt hnot⟩

theorem Displaced.mem (h : Displaced n l y) : y ∈ l := by
  obtain ⟨a, m, b, rfl, _, _⟩ := h
  simp

section

variable (hn : 0 < n)

include hn

theorem mem_rdrop_used (h : l.Nodup) :
    y ∈ (used l x).rdrop n ↔ y ∈ l ∧ y ∉ (used l x).rtake n := by
  have hnodup := nodup_used h x
  have hmem : y ∈ used l x ↔ y ∈ (used l x).rdrop n ∨ y ∈ (used l x).rtake n := by
    rw [← mem_append, rdrop_append_rtake]
  have hdisjoint : y ∈ (used l x).rdrop n → y ∉ (used l x).rtake n := by
    intro hdrop htake
    rw [← rdrop_append_rtake (used l x) n] at hnodup
    exact (List.disjoint_of_nodup_append hnodup) hdrop htake
  have hlast : x ∈ (used l x).rtake n := by
    unfold used
    rw [mem_rtake_cons not_mem_nil]
    exact hn
  constructor
  · intro hy
    have hnot := hdisjoint hy
    refine ⟨?_, hnot⟩
    rcases mem_used.mp (hmem.mpr (.inl hy)) with hyl | rfl
    · exact hyl
    · exact absurd hlast hnot
  · rintro ⟨hyl, hnot⟩
    exact (hmem.mp (mem_used.mpr (.inl hyl))).resolve_right hnot

/-- A value is dropped where it is kept before a use and not behind it. -/
theorem mem_dropped_iff (l xs : List α) :
    y ∈ dropped n (recent n l) xs ↔
      ∃ u x v, xs = u ++ x :: v ∧ y ∈ recent n (l ++ u) ∧ y ∉ recent n (l ++ u ++ [x]) := by
  induction xs generalizing l with
  | nil => simp [dropped]
  | cons x xs ih =>
    rw [dropped, mem_append, mem_rdrop_used hn (nodup_recent n l), ← recent_snoc, ih]
    constructor
    · rintro (⟨hkept, hnot⟩ | ⟨u, z, v, rfl, hkept, hnot⟩)
      · refine ⟨[], x, xs, rfl, ?_, ?_⟩
        · rwa [append_nil]
        · rwa [append_nil]
      · refine ⟨x :: u, z, v, rfl, ?_, ?_⟩
        · simpa using hkept
        · simpa using hnot
    · rintro ⟨u, z, v, heq, hkept, hnot⟩
      cases u with
      | nil =>
        obtain ⟨rfl, rfl⟩ := List.cons.inj heq
        rw [append_nil] at hkept hnot
        exact .inl ⟨hkept, hnot⟩
      | cons w u =>
        obtain ⟨rfl, rfl⟩ := List.cons.inj heq
        refine .inr ⟨u, z, v, rfl, ?_, ?_⟩
        · simpa using hkept
        · simpa using hnot

theorem displaced_of_step {u v : List α} (hkept : y ∈ recent n (l ++ u))
    (hnot : y ∉ recent n (l ++ u ++ [x])) : Displaced n (l ++ (u ++ x :: v)) y := by
  obtain ⟨a, m, heq, hm⟩ := last_use (mem_of_mem_recent hkept)
  have hyx : y ≠ x := by
    rintro rfl
    apply hnot
    rw [mem_recent_iff not_mem_nil]
    exact hn
  have hm' : y ∉ m ++ [x] := by
    simp [hm, hyx]
  have hassoc : l ++ u ++ [x] = a ++ y :: (m ++ [x]) := by
    simp [heq]
  rw [hassoc, mem_recent_iff hm'] at hnot
  refine ⟨a, m ++ [x], v, ?_, hm', Nat.le_of_not_lt hnot⟩
  rw [← hassoc]
  simp

/-- From a list of different values that are all kept, exactly the displaced ones are dropped. -/
theorem mem_dropped (hl : l.Nodup) (hlength : l.length ≤ n) (xs : List α) :
    y ∈ dropped n l xs ↔ Displaced n (l ++ xs) y := by
  have hall : recent n l = l := recent_of_nodup hl hlength
  have hdropped := mem_dropped_iff (y := y) hn l xs
  rw [hall] at hdropped
  rw [hdropped]
  constructor
  · rintro ⟨u, x, v, rfl, hkept, hnot⟩
    exact displaced_of_step hn hkept hnot
  · rintro ⟨a, m, b, heq, hm, hcount⟩
    have hlengths := congrArg List.length heq
    simp only [length_append, length_cons] at hlengths
    have hmany : n ≤ m.length := hcount.trans (List.dedup_sublist m).length_le
    have htake (k : Nat) : l ++ xs.take k = (a ++ y :: m ++ b).take (l.length + k) := by
      rw [← heq, List.take_length_add_append]
    have hend : y ∉ recent n (l ++ xs.take (a.length + 1 + m.length - l.length)) := by
      have hcut : l.length + (a.length + 1 + m.length - l.length) = (a ++ y :: m).length := by
        simp only [length_append, length_cons]
        omega
      rw [htake, hcut, List.take_left, mem_recent_iff hm]
      omega
    have hbegin : y ∈ recent n (l ++ xs.take (a.length + 1 - l.length)) := by
      by_cases hin : a.length < l.length
      · have hzero : a.length + 1 - l.length = 0 := by
          omega
        rw [hzero, List.take_zero, append_nil, hall]
        have hget : (l ++ xs)[a.length]? = some y := by
          rw [heq]
          simp
        rw [List.getElem?_append_left hin] at hget
        exact List.mem_of_getElem? hget
      · have hcut : l.length + (a.length + 1 - l.length) = (a ++ [y]).length := by
          simp only [length_append, List.length_singleton]
          omega
        have hassoc : a ++ y :: m ++ b = a ++ [y] ++ (m ++ b) := by
          simp
        rw [htake, hcut, hassoc, List.take_left, mem_recent_iff not_mem_nil]
        exact hn
    have hle : a.length + 1 - l.length ≤ a.length + 1 + m.length - l.length := by
      omega
    obtain ⟨k, hk, hkept, hnot⟩ := exists_last (p := fun k => y ∈ recent n (l ++ xs.take k))
      hle hbegin hend
    have hlt : k < xs.length := by
      omega
    refine ⟨xs.take k, xs[k], xs.drop (k + 1), ?_, hkept, ?_⟩
    · rw [List.getElem_cons_drop, List.take_append_drop]
    · rw [append_assoc, List.take_append_getElem hlt]
      exact hnot

/-- What is dropped is exactly what is not kept in the end if nothing displaced is. -/
theorem dropped_exact_iff (hl : l.Nodup) (hlength : l.length ≤ n) (xs : List α) :
    (∀ y, y ∈ dropped n l xs ↔ (y ∈ l ∨ y ∈ xs) ∧ y ∉ recent n (l ++ xs)) ↔
      ∀ y, Displaced n (l ++ xs) y → y ∉ recent n (l ++ xs) := by
  constructor
  · intro hexact y hy
    exact ((hexact y).mp ((mem_dropped hn hl hlength xs).mpr hy)).2
  · intro hnone y
    rw [mem_dropped hn hl hlength, ← mem_append]
    constructor
    · intro hy
      exact ⟨hy.mem, hnone y hy⟩
    · rintro ⟨hmem, hnot⟩
      exact displaced_of_not_recent hmem hnot

end

end Ice.Lib
