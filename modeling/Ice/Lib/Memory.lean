import Mathlib.Data.List.Basic

/-!
# Slices of memory

A memory is a total function of the address. What is in a range of it is a list, and storing a list
changes the range that it is stored in.
-/

namespace Ice.Lib

variable {α : Type*} {mem mem' : Nat → α} {xs : List α} {start a b m n i : Nat}

/-- What is in `n` cells from `start` on -/
def slice (mem : Nat → α) (start n : Nat) : List α := (List.range n).map fun j => mem (start + j)

/-- The memory with the elements of a list from `start` on -/
def poke (mem : Nat → α) (start : Nat) (xs : List α) : Nat → α :=
  fun i => if i < start then mem i else xs[i - start]?.getD (mem i)

@[simp] theorem length_slice (mem : Nat → α) (start n : Nat) : (slice mem start n).length = n := by
  simp [slice]

@[simp] theorem getElem_slice (mem : Nat → α) (start : Nat) (h : i < (slice mem start n).length) :
    (slice mem start n)[i] = mem (start + i) := by simp [slice]

theorem slice_add (mem : Nat → α) (start m n : Nat) :
    slice mem start (m + n) = slice mem start m ++ slice mem (start + m) n := by
  unfold slice
  rw [List.range_add, List.map_append, List.map_map]
  congr 1
  apply List.map_congr_left
  intro j _
  rw [Function.comp_apply, Nat.add_assoc]

/-- Ranges of the same length with the same elements -/
theorem slice_congr (h : ∀ j, j < n → mem (a + j) = mem' (b + j)) :
    slice mem a n = slice mem' b n := by
  apply List.map_congr_left
  intro j hj
  exact h j (List.mem_range.mp hj)

theorem slice_eq_self (h : ∀ i, a ≤ i → i < a + n → mem i = mem' i) :
    slice mem a n = slice mem' a n :=
  slice_congr fun j hj => h (a + j) (Nat.le_add_right ..) (by omega)

theorem poke_of_lt (h : i < start) : poke mem start xs i = mem i := if_pos h

theorem poke_of_le (h : start + xs.length ≤ i) : poke mem start xs i = mem i := by
  unfold poke
  rw [if_neg (by omega), List.getElem?_eq_none (by omega)]
  rfl

theorem poke_add (h : i < xs.length) : poke mem start xs (start + i) = xs[i] := by
  unfold poke
  rw [if_neg (by omega), Nat.add_sub_cancel_left, List.getElem?_eq_getElem h]
  rfl

@[simp] theorem poke_nil (mem : Nat → α) (start : Nat) : poke mem start [] = mem := by
  funext i
  simp [poke]

theorem poke_cons (mem : Nat → α) (start : Nat) (x : α) (xs : List α) :
    poke (poke mem start [x]) (start + 1) xs = poke mem start (x :: xs) := by
  funext i
  rcases Nat.lt_trichotomy i start with hlt | rfl | hgt
  · rw [poke_of_lt (by omega), poke_of_lt hlt, poke_of_lt hlt]
  · rw [poke_of_lt (by omega)]
    have hfirst (ys : List α) : poke mem i (x :: ys) (i + 0) = x := poke_add (Nat.succ_pos _)
    exact (hfirst []).trans (hfirst xs).symm
  · have hold : poke mem start [x] i = mem i := poke_of_le hgt
    obtain ⟨j, rfl⟩ : ∃ j, i = start + 1 + j := ⟨i - (start + 1), by omega⟩
    have hrest : start + 1 + j - (start + 1) = j := by omega
    have hall : start + 1 + j - start = j + 1 := by omega
    change (if _ then _ else xs[start + 1 + j - (start + 1)]?.getD (poke mem start [x] _)) =
      if _ then _ else (x :: xs)[start + 1 + j - start]?.getD _
    rw [if_neg (by omega), if_neg (by omega), hrest, hall, hold, List.getElem?_cons_succ]

/-- What is stored is there. -/
theorem slice_poke (mem : Nat → α) (start : Nat) (xs : List α) :
    slice (poke mem start xs) start xs.length = xs := by
  apply List.ext_getElem
  · rw [length_slice]
  · intro i hi hi'
    rw [getElem_slice, poke_add hi']

/-- Elsewhere nothing is changed. -/
theorem slice_poke_of_disjoint (h : a + n ≤ start ∨ start + xs.length ≤ a) :
    slice (poke mem start xs) a n = slice mem a n := by
  apply slice_eq_self
  intro i hle hlt
  rcases h with h | h
  · exact poke_of_lt (by omega)
  · exact poke_of_le (by omega)

end Ice.Lib
