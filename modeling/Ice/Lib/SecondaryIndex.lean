import Mathlib.Init
import Std.Data.ExtTreeMap
import Std.Data.ExtTreeSet

/-!
# Tables with secondary indexes

A table is an ordered map whose records know their keys. A secondary index of a table has a pair
for each record, of the group that the record belongs to and its key. The pairs are ordered by
their groups first, so a cursor that is placed at a group finds the keys of its records one after
the other.
-/

namespace Ice.Lib

open Std

variable {κ γ ν : Type} [Ord κ] [TransOrd κ] [Ord γ] [TransOrd γ]

def comparePairs {γ κ : Type} [Ord γ] [Ord κ] : γ × κ → γ × κ → Ordering :=
  compareLex (compareOn Prod.fst) (compareOn Prod.snd)

instance : TransCmp (comparePairs (γ := γ) (κ := κ)) :=
  inferInstanceAs (TransCmp (compareLex (compareOn Prod.fst) (compareOn Prod.snd)))

instance [LawfulEqOrd κ] [LawfulEqOrd γ] : LawfulEqCmp (comparePairs (γ := γ) (κ := κ)) where
  eq_of_compare h := by
    obtain ⟨hfst, hsnd⟩ := Ordering.then_eq_eq.mp h
    exact Prod.ext (LawfulEqCmp.compare_eq_iff_eq.mp hfst)
      (LawfulEqCmp.compare_eq_iff_eq.mp hsnd)

/-- A table that may have several values for a key, in their order -/
abbrev Pairs (γ κ : Type) [Ord γ] [Ord κ] := ExtTreeSet (γ × κ) comparePairs

variable {group : ν → γ} {key : ν → κ} {index : Pairs γ κ} {table : ExtTreeMap κ ν} {g : γ}
  {k : κ} {v old : ν}

/-- The index has the pairs of the records and no others. -/
def Indexes (group : ν → γ) (index : Pairs γ κ) (table : ExtTreeMap κ ν) : Prop :=
  ∀ g k, (g, k) ∈ index ↔ ∃ v, table[k]? = some v ∧ group v = g

/-- The records know their keys. -/
def Keyed (key : ν → κ) (table : ExtTreeMap κ ν) : Prop :=
  ∀ k v, table[k]? = some v → key v = k

theorem Indexes.empty : Indexes group (∅ : Pairs γ κ) (∅ : ExtTreeMap κ ν) := by
  intro g k
  simp

theorem Keyed.empty : Keyed key (∅ : ExtTreeMap κ ν) := by
  intro k v h
  simp at h

theorem Keyed.erase (h : Keyed key table) : Keyed key (table.erase k) := by
  intro k' v' hget
  rw [ExtTreeMap.getElem?_erase] at hget
  split at hget
  · cases hget
  · exact h k' v' hget

theorem Indexes.eq_group (h : Indexes group index table) (hold : table[k]? = some old)
    (hmem : (g, k) ∈ index) : g = group old := by
  obtain ⟨v, hv, rfl⟩ := (h g k).mp hmem
  cases hold.symm.trans hv
  rfl

section changes

variable [LawfulEqOrd κ]

theorem Keyed.insert (h : Keyed key table) (hv : key v = k) :
    Keyed key (table.insert k v) := by
  intro k' v' hget
  rw [ExtTreeMap.getElem?_insert] at hget
  split at hget
  · rename_i heq
    cases hget
    rw [hv, LawfulEqCmp.compare_eq_iff_eq.mp heq]
  · exact h k' v' hget

variable [LawfulEqOrd γ]

section

variable (h : Indexes group index table)

include h

/-- A record is put, and its pair. The pair of the record that it replaces has been removed before,
unless it is the same one. -/
theorem Indexes.insert {index' : Pairs γ κ}
    (hother : ∀ g k', k' ≠ k → ((g, k') ∈ index' ↔ (g, k') ∈ index))
    (hold : ∀ g, (g, k) ∈ index' → g = group v) :
    Indexes group (index'.insert (group v, k)) (table.insert k v) := by
  intro g k'
  rw [ExtTreeSet.mem_insert, ExtTreeMap.getElem?_insert, LawfulEqCmp.compare_eq_iff_eq]
  by_cases hk : k = k'
  · subst hk
    rw [if_pos compare_self]
    constructor
    · rintro (heq | hmem)
      · exact ⟨v, rfl, congrArg Prod.fst heq⟩
      · exact ⟨v, rfl, (hold g hmem).symm⟩
    · rintro ⟨v', hv, rfl⟩
      cases hv
      exact .inl rfl
  · rw [if_neg fun heq => hk (LawfulEqCmp.compare_eq_iff_eq.mp heq), ← h g k',
      ← hother g k' (Ne.symm hk)]
    constructor
    · rintro (heq | hmem)
      · exact absurd (congrArg Prod.snd heq) hk
      · exact hmem
    · exact .inr

/-- The record has no pair yet. -/
theorem Indexes.insert_new (hnone : table[k]? = none) :
    Indexes group (index.insert (group v, k)) (table.insert k v) := by
  apply h.insert
  · exact fun _ _ _ => Iff.rfl
  · intro g hmem
    obtain ⟨v', hv, -⟩ := (h g k).mp hmem
    cases hnone.symm.trans hv

/-- The record stays in its group. -/
theorem Indexes.insert_same (hold : table[k]? = some old)
    (hgroup : group old = group v) :
    Indexes group (index.insert (group v, k)) (table.insert k v) := by
  apply h.insert
  · exact fun _ _ _ => Iff.rfl
  · intro g hmem
    exact (h.eq_group hold hmem).trans hgroup

end

theorem mem_erase_pair {g' : γ} :
    (g, k) ∈ index.erase (g', k) ↔ g' ≠ g ∧ (g, k) ∈ index := by
  rw [ExtTreeSet.mem_erase, ne_eq, LawfulEqCmp.compare_eq_iff_eq, Prod.mk.injEq]
  simp

theorem mem_erase_pair_of_ne {g' : γ} {k' : κ} (hne : k' ≠ k) :
    (g, k') ∈ index.erase (g', k) ↔ (g, k') ∈ index := by
  rw [ExtTreeSet.mem_erase, ne_eq, LawfulEqCmp.compare_eq_iff_eq, Prod.mk.injEq]
  simp [Ne.symm hne]

/-- The pair of the old record is removed first. -/
theorem Indexes.insert_moved (h : Indexes group index table) (hold : table[k]? = some old) :
    Indexes group ((index.erase (group old, k)).insert (group v, k)) (table.insert k v) := by
  apply h.insert
  · intro g k' hne
    exact mem_erase_pair_of_ne hne
  · intro g hmem
    obtain ⟨hne, hmem⟩ := mem_erase_pair.mp hmem
    exact absurd (h.eq_group hold hmem).symm hne

theorem Indexes.erase (h : Indexes group index table) (hold : table[k]? = some old) :
    Indexes group (index.erase (group old, k)) (table.erase k) := by
  intro g k'
  rw [ExtTreeMap.getElem?_erase]
  by_cases hk : k = k'
  · subst hk
    rw [if_pos compare_self, mem_erase_pair]
    constructor
    · rintro ⟨hne, hmem⟩
      exact absurd (h.eq_group hold hmem).symm hne
    · rintro ⟨v, hv, -⟩
      cases hv
  · rw [if_neg fun heq => hk (LawfulEqCmp.compare_eq_iff_eq.mp heq),
      mem_erase_pair_of_ne (Ne.symm hk)]
    exact h g k'

end changes

/-- A cursor is placed at a group; what it visits from there on. -/
def Pairs.cursor [DecidableEq γ] (index : Pairs γ κ) (g : γ) : List (γ × κ) :=
  index.toList.dropWhile (·.1 ≠ g)

/-- The loop that reads records while the cursor is in the group. A record that is not found leaves
the variable as it is. -/
def readGroup [DecidableEq γ] (table : ExtTreeMap κ ν) (g : γ) : ν → List (γ × κ) → List ν
  | _, [] => []
  | v, (g', k) :: rest =>
    if g' = g then
      let v := table[k]?.getD v
      v :: readGroup table g v rest
    else []

section lookups

variable [DecidableEq γ] {l : List (γ × κ)} {p q : γ × κ}

omit [TransOrd κ] [TransOrd γ] [DecidableEq γ] in
theorem isLE_of_comparePairs (h : comparePairs p q = .lt) : (compare p.1 q.1).isLE = true := by
  rcases Ordering.then_eq_lt.mp h with hlt | ⟨heq, -⟩
  · exact Ordering.isLE_of_eq_lt hlt
  · exact Ordering.isLE_of_eq_eq heq

omit [TransOrd κ] in
/-- Behind a pair of a group, the group ends with the first pair that is not in it. -/
theorem takeWhile_eq_filter [LawfulEqOrd γ] (h : l.Pairwise fun p q => comparePairs p q = .lt)
    (hg : ∀ p ∈ l, (compare g p.1).isLE = true) :
    l.takeWhile (·.1 = g) = l.filter (·.1 = g) := by
  induction l with
  | nil => rfl
  | cons p l ih =>
    obtain ⟨hp, hl⟩ := List.pairwise_cons.mp h
    rw [List.forall_mem_cons] at hg
    rw [List.takeWhile_cons, List.filter_cons]
    split
    · rw [ih hl hg.2]
    · rename_i hne
      symm
      apply List.filter_eq_nil_iff.mpr
      intro q hq heq
      apply hne
      have hle := isLE_of_comparePairs (hp q hq)
      rw [of_decide_eq_true heq] at hle
      exact decide_eq_true (LawfulEqCmp.compare_eq_iff_eq.mp (OrientedCmp.isLE_antisymm hle hg.1))

omit [TransOrd κ] in
/-- In an ordered list, the pairs of a group stand together. -/
theorem takeWhile_dropWhile_eq_filter [LawfulEqOrd γ]
    (h : l.Pairwise fun p q => comparePairs p q = .lt) :
    (l.dropWhile (·.1 ≠ g)).takeWhile (·.1 = g) = l.filter (·.1 = g) := by
  induction l with
  | nil => rfl
  | cons p l ih =>
    obtain ⟨hp, hl⟩ := List.pairwise_cons.mp h
    rw [List.dropWhile_cons]
    by_cases hg : p.1 = g
    · rw [if_neg (by simpa using hg)]
      apply takeWhile_eq_filter h
      rw [List.forall_mem_cons]
      constructor
      · rw [hg, compare_self]
        rfl
      · intro q hq
        rw [← hg]
        exact isLE_of_comparePairs (hp q hq)
    · rw [if_pos (by simpa using hg), List.filter_cons_of_neg (by simpa using hg)]
      exact ih hl

theorem readGroup_eq (h : Indexes group index table) (hl : ∀ p ∈ l, p ∈ index) :
    readGroup table g v l = (l.takeWhile (·.1 = g)).filterMap fun p => table[p.2]? := by
  induction l generalizing v with
  | nil => rfl
  | cons p l ih =>
    rw [List.forall_mem_cons] at hl
    obtain ⟨v', hv, -⟩ := (h p.1 p.2).mp hl.1
    rw [readGroup, List.takeWhile_cons]
    split
    · rename_i hp
      rw [if_pos (by simpa using hp), List.filterMap_cons, hv]
      exact congrArg (v' :: ·) (ih hl.2)
    · rename_i hp
      rw [if_neg (by simpa using hp)]
      rfl

variable [LawfulEqOrd γ]

theorem Indexes.readGroup_cursor [LawfulEqOrd κ] (h : Indexes group index table) :
    readGroup table g v (index.cursor g) =
      (index.toList.filter (·.1 = g)).filterMap fun p => table[p.2]? := by
  rw [readGroup_eq h, Pairs.cursor, takeWhile_dropWhile_eq_filter ExtTreeSet.ordered_toList]
  intro p hp
  exact ExtTreeSet.mem_toList.mp ((List.dropWhile_sublist _).subset hp)

variable [LawfulEqOrd κ]

/-- The records that are read through a cursor are those of the group. -/
theorem Indexes.mem_readGroup (h : Indexes group index table) {record : ν} :
    record ∈ readGroup table g v (index.cursor g) ↔
      ∃ k : κ, table[k]? = some record ∧ group record = g := by
  rw [h.readGroup_cursor, List.mem_filterMap]
  constructor
  · rintro ⟨⟨g', k⟩, hp, hk⟩
    obtain ⟨hmem, hg⟩ := List.mem_filter.mp hp
    refine ⟨k, hk, ?_⟩
    exact (h.eq_group hk (ExtTreeSet.mem_toList.mp hmem)).symm.trans (of_decide_eq_true hg)
  · rintro ⟨k, hk, hg⟩
    refine ⟨(g, k), ?_, hk⟩
    apply List.mem_filter.mpr
    refine ⟨ExtTreeSet.mem_toList.mpr ?_, decide_eq_true rfl⟩
    exact (h g k).mpr ⟨record, hk, hg⟩

/-- Each is read once. -/
theorem Indexes.nodup_readGroup (h : Indexes group index table) (hkeyed : Keyed key table) :
    (readGroup table g v (index.cursor g)).Nodup := by
  rw [h.readGroup_cursor]
  apply List.pairwise_filterMap.mpr
  apply List.Pairwise.imp_of_mem _ (ExtTreeSet.ordered_toList.filter _)
  rintro ⟨g₁, k₁⟩ ⟨g₂, k₂⟩ h₁ h₂ hlt record hr₁ record' hr₂ rfl
  have hg₁ : g₁ = g := of_decide_eq_true (List.mem_filter.mp h₁).2
  have hg₂ : g₂ = g := of_decide_eq_true (List.mem_filter.mp h₂).2
  have hk : k₁ = k₂ := (hkeyed k₁ record hr₁).symm.trans (hkeyed k₂ record hr₂)
  cases hk
  have hself : comparePairs (g, k₁) (g, k₁) = .eq := ReflCmp.compare_self
  rw [hg₁, hg₂, hself] at hlt
  cases hlt

end lookups

/-- The records are new, or they are those that are there. -/
def Agrees (key : ν → κ) (table : ExtTreeMap κ ν) (l : List ν) : Prop :=
  ∀ a ∈ l, table[key a]? = none ∨ table[key a]? = some a

section writing

variable [LawfulEqOrd κ] {a : ν} {l : List ν}

omit [LawfulEqOrd κ] in
theorem Agrees.empty : Agrees key (∅ : ExtTreeMap κ ν) l := fun a _ => .inl (by simp)

theorem Agrees.insert (h : Agrees key table (a :: l))
    (hsame : ∀ b ∈ l, key a = key b → a = b) : Agrees key (table.insert (key a) a) l := by
  intro b hb
  rw [ExtTreeMap.getElem?_insert]
  split
  · rename_i heq
    rw [hsame b hb (LawfulEqCmp.compare_eq_iff_eq.mp heq)]
    exact .inr rfl
  · exact h b (List.mem_cons_of_mem _ hb)

theorem Indexes.insert_agreeing [LawfulEqOrd γ] (h : Indexes group index table)
    (ha : table[k]? = none ∨ table[k]? = some v) :
    Indexes group (index.insert (group v, k)) (table.insert k v) := by
  rcases ha with hnone | hsome
  · exact h.insert_new hnone
  · exact h.insert_same hsome rfl

/-- Putting a record that is new or there is putting it if there is none. -/
theorem insertIfNew_eq_insert (ha : table[k]? = none ∨ table[k]? = some v) :
    table.insertIfNew k v = table.insert k v := by
  apply ExtTreeMap.ext_getElem?
  intro k'
  rw [ExtTreeMap.getElem?_insertIfNew, ExtTreeMap.getElem?_insert]
  by_cases hk : compare k k' = .eq
  · obtain rfl := LawfulEqCmp.compare_eq_iff_eq.mp hk
    rw [if_pos hk]
    rcases ha with hnone | hsome
    · have hmem : ¬k ∈ table := by
        rw [ExtTreeMap.mem_iff_isSome_getElem?, hnone]
        exact nofun
      rw [if_pos ⟨hk, hmem⟩]
    · have hmem : k ∈ table := by
        rw [ExtTreeMap.mem_iff_isSome_getElem?, hsome]
        rfl
      rw [if_neg fun hand => hand.2 hmem, hsome]
  · rw [if_neg fun hand => hk hand.1, if_neg hk]

theorem erase_of_none (h : table[k]? = none) : table.erase k = table := by
  apply ExtTreeMap.ext_getElem?
  intro k'
  rw [ExtTreeMap.getElem?_erase]
  split
  · rename_i heq
    rw [← LawfulEqCmp.compare_eq_iff_eq.mp heq, h]
  · rfl

theorem foldl_insertIfNew (h : Agrees key table l)
    (hsame : ∀ a ∈ l, ∀ b ∈ l, key a = key b → a = b) :
    l.foldl (fun t a => t.insertIfNew (key a) a) table =
      l.foldl (fun t a => t.insert (key a) a) table := by
  induction l generalizing table with
  | nil => rfl
  | cons a l ih =>
    rw [List.foldl_cons, List.foldl_cons, insertIfNew_eq_insert (h a List.mem_cons_self)]
    apply ih
    · exact h.insert fun b hb => hsame a List.mem_cons_self b (List.mem_cons_of_mem _ hb)
    · intro b hb c hc
      exact hsame b (List.mem_cons_of_mem _ hb) c (List.mem_cons_of_mem _ hc)

end writing

end Ice.Lib
