import Mathlib

/-!
# Maps with a cached iterator

An ordered map comes with an iterator that a lookup tries first. The iterator is the end, or the
key of the entry that it points to; it may be used as long as that entry is there.
-/

namespace Ice.Lib

open Std

/-- The entries of a map, and its cached iterator -/
structure HintedMap (κ ν : Type) [Ord κ] where
  entries : ExtTreeMap κ ν compare := ∅
  hint : Option κ := none

namespace HintedMap

variable {κ ν : Type} [Ord κ] [TransOrd κ] {m : HintedMap κ ν} {k k' : κ} {v v' : ν}

/-- The iterator is the end or points into the map. -/
def Valid (m : HintedMap κ ν) : Prop := ∀ k, m.hint = some k → k ∈ m.entries

/-- `find`, after which the iterator points to what was found -/
def lookup (m : HintedMap κ ν) (k : κ) : HintedMap κ ν :=
  if k ∈ m.entries then { m with hint := some k } else m

/-- `insert`: an entry that is there stays. -/
def insert (m : HintedMap κ ν) (k : κ) (v : ν) : HintedMap κ ν :=
  ⟨m.entries.insertIfNew k v, some k⟩

/-- The key of the entry after that of `k` -/
def next (m : HintedMap κ ν) (k : κ) : Option κ :=
  m.entries.keys.find? fun k' => compare k k' == .lt

/-- `erase(p++)`: the iterator goes to the entry after the erased one. -/
def eraseNext (m : HintedMap κ ν) (k : κ) : HintedMap κ ν := ⟨m.entries.erase k, m.next k⟩

/-- An entry is erased, and the iterator goes to the end. -/
def eraseEnd (m : HintedMap κ ν) (k : κ) : HintedMap κ ν := ⟨m.entries.erase k, none⟩

theorem valid_empty : ({} : HintedMap κ ν).Valid := by
  intro k hk
  cases hk

theorem valid_eraseEnd : (m.eraseEnd k).Valid := by
  intro k' hk'
  cases hk'

@[simp]
theorem entries_lookup : (m.lookup k).entries = m.entries := by
  rw [lookup]
  split <;> rfl

theorem Valid.lookup (h : m.Valid) : (m.lookup k).Valid := by
  rw [HintedMap.lookup]
  split
  · rename_i hk
    intro k' hk'
    cases hk'
    exact hk
  · exact h

theorem valid_insert : (m.insert k v).Valid := by
  intro k' hk'
  cases hk'
  exact ExtTreeMap.mem_insertIfNew_self

variable [LawfulEqOrd κ]

/-- The entry after `k` is another one, so it is still there when that of `k` is erased. -/
theorem valid_eraseNext : (m.eraseNext k).Valid := by
  intro k' hk'
  have hmem : k' ∈ m.entries := ExtTreeMap.mem_keys.mp (List.mem_of_find?_eq_some hk')
  have hlt : compare k k' = .lt := by simpa using List.find?_some hk'
  apply ExtTreeMap.mem_erase.mpr
  constructor
  · rw [hlt]
    decide
  · exact hmem

theorem getElem?_insert (hnew : k ∉ m.entries) :
    (m.insert k v).entries[k']? = some v' ↔
      k' = k ∧ v' = v ∨ m.entries[k']? = some v' := by
  rw [insert, ExtTreeMap.getElem?_insertIfNew]
  split
  · rename_i hk
    obtain rfl := LawfulEqCmp.compare_eq_iff_eq.mp hk.1
    rw [ExtTreeMap.getElem?_eq_none hnew]
    simp [eq_comm]
  · rename_i hk
    have hne : k' ≠ k := by
      rintro rfl
      exact hk ⟨LawfulEqCmp.compare_eq_iff_eq.mpr rfl, hnew⟩
    simp [hne]

theorem getElem?_erase {entries : ExtTreeMap κ ν compare} :
    (entries.erase k)[k']? = some v' ↔ k' ≠ k ∧ entries[k']? = some v' := by
  rw [ExtTreeMap.getElem?_erase]
  split
  · rename_i hk
    obtain rfl := LawfulEqCmp.compare_eq_iff_eq.mp hk
    simp
  · rename_i hk
    have hne : k' ≠ k := by
      rintro rfl
      exact hk (LawfulEqCmp.compare_eq_iff_eq.mpr rfl)
    simp [hne]

end HintedMap

end Ice.Lib
