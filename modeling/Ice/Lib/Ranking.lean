import Mathlib.Data.List.Lex
import Mathlib.Data.Set.Basic

/-!
# Comparisons that are written out

A comparison of many fields is a chain of tests, two for each field, with an equality that is
written separately. Such a pair is ranked by lists of numbers that are compared
lexicographically: each value puts numbers before the rest, and no rank is the beginning of
another one, so that a chain is ranked by putting one rank before the other.
-/

namespace Ice.Lib

variable {α β : Type*}

/-- A strict weak order on a set, and the equality of the elements it does not tell apart. -/
structure StrictWeak (S : Set α) (lt eq : α → α → Bool) : Prop where
  irrefl : ∀ a ∈ S, lt a a = false
  asymm : ∀ a ∈ S, ∀ b ∈ S, lt a b = true → lt b a = false
  trans : ∀ a ∈ S, ∀ b ∈ S, ∀ c ∈ S, lt a b = true → lt b c = true → lt a c = true
  incomparable : ∀ a ∈ S, ∀ b ∈ S, ∀ c ∈ S, lt a b = false → lt b a = false →
    lt b c = false → lt c b = false → lt a c = false ∧ lt c a = false
  eq_iff : ∀ a ∈ S, ∀ b ∈ S, eq a b = true ↔ lt a b = false ∧ lt b a = false

/-- What tells the elements apart by a key in a linear order. -/
theorem StrictWeak.of_key {κ : Type*} [LinearOrder κ] {S : Set α} {lt eq : α → α → Bool}
    (key : α → κ) (hlt : ∀ a ∈ S, ∀ b ∈ S, lt a b = true ↔ key a < key b)
    (heq : ∀ a ∈ S, ∀ b ∈ S, eq a b = true ↔ key a = key b) : StrictWeak S lt eq := by
  have hge : ∀ a ∈ S, ∀ b ∈ S, lt a b = false ↔ key b ≤ key a := by
    intro a ha b hb
    rw [← Bool.not_eq_true, hlt a ha b hb, not_lt]
  constructor
  · intro a ha
    exact (hge a ha a ha).mpr le_rfl
  · intro a ha b hb h
    exact (hge b hb a ha).mpr ((hlt a ha b hb).mp h).le
  · intro a ha b hb c hc h h'
    exact (hlt a ha c hc).mpr (((hlt a ha b hb).mp h).trans ((hlt b hb c hc).mp h'))
  · intro a ha b hb c hc hab hba hbc hcb
    have hac := ((hge a ha b hb).mp hab).trans' ((hge b hb c hc).mp hbc)
    have hca := ((hge b hb a ha).mp hba).trans ((hge c hc b hb).mp hcb)
    exact ⟨(hge a ha c hc).mpr hac, (hge c hc a ha).mpr hca⟩
  · intro a ha b hb
    rw [heq a ha b hb, hge a ha b hb, hge b hb a ha]
    exact ⟨fun h => ⟨h.ge, h.le⟩, fun h => le_antisymm h.2 h.1⟩

/-- Only the comparisons of elements of the set count. -/
theorem StrictWeak.congr {S : Set α} {lt lt' eq : α → α → Bool} (h : StrictWeak S lt eq)
    (hlt : ∀ a ∈ S, ∀ b ∈ S, lt' a b = lt a b) : StrictWeak S lt' eq := by
  constructor
  · intro a ha
    rw [hlt a ha a ha]
    exact h.irrefl a ha
  · intro a ha b hb
    rw [hlt a ha b hb, hlt b hb a ha]
    exact h.asymm a ha b hb
  · intro a ha b hb c hc
    rw [hlt a ha b hb, hlt b hb c hc, hlt a ha c hc]
    exact h.trans a ha b hb c hc
  · intro a ha b hb c hc
    rw [hlt a ha b hb, hlt b hb a ha, hlt b hb c hc, hlt c hc b hb, hlt a ha c hc, hlt c hc a ha]
    exact h.incomparable a ha b hb c hc
  · intro a ha b hb
    rw [hlt a ha b hb, hlt b hb a ha]
    exact h.eq_iff a ha b hb

/-- `if(less) return true; else if(greater) return false;` and what follows -/
def chain (less greater rest : Bool) : Bool :=
  if less then true else if greater then false else rest

/-- The two tests of a field -/
def chainOf [LT β] [DecidableLT β] (a b : β) (rest : Bool) : Bool :=
  chain (decide (a < b)) (decide (b < a)) rest

/-- `lexicographical_compare` -/
def listLess (lt : α → α → Bool) : List α → List α → Bool
  | [], [] => false
  | [], _ :: _ => true
  | _ :: _, [] => false
  | a :: as, b :: bs => chain (lt a b) (lt b a) (listLess lt as bs)

/-- The equality of lists -/
def listEqual (eq : α → α → Bool) : List α → List α → Bool
  | [], [] => true
  | a :: as, b :: bs => eq a b && listEqual eq as bs
  | _, _ => false

/-- How two values compare is how their ranks do, whatever comes after. -/
structure RanksAt (less equal : Bool) (ra rb : List Int → List Int) : Prop where
  lt_iff : ∀ s t, ra s < rb t ↔ less = true ∨ (equal = true ∧ s < t)
  eq_iff : ∀ s t, ra s = rb t ↔ equal = true ∧ s = t

/-- A pair of values, compared one way and the other -/
structure Ranked (lt eq : α → α → Bool) (rank : α → List Int → List Int) (a b : α) : Prop where
  at_left : RanksAt (lt a b) (eq a b) (rank a) (rank b)
  at_right : RanksAt (lt b a) (eq b a) (rank b) (rank a)

variable {lt eq : α → α → Bool} {rank : α → List Int → List Int} {a b : α}

section

variable (h : Ranked lt eq rank a b)

include h

theorem Ranked.symm : Ranked lt eq rank b a :=
  ⟨h.at_right, h.at_left⟩

theorem Ranked.lt_iff : lt a b = true ↔ rank a [] < rank b [] := by
  rw [h.at_left.lt_iff]
  simp

theorem Ranked.eq_iff : eq a b = true ↔ rank a [] = rank b [] := by
  rw [h.at_left.eq_iff]
  simp

theorem Ranked.eq_symm (hab : eq a b = true) : eq b a = true :=
  h.symm.eq_iff.mpr (h.eq_iff.mp hab).symm

theorem Ranked.eq_of_not_lt (hab : ¬lt a b = true)
    (hba : ¬lt b a = true) : eq a b = true := by
  rw [h.lt_iff] at hab
  rw [h.symm.lt_iff] at hba
  rw [h.eq_iff]
  exact le_antisymm (not_lt.mp hba) (not_lt.mp hab)

/-- A chain goes on when the values are equal. -/
theorem Ranked.chain_iff {rest : Bool} :
    chain (lt a b) (lt b a) rest = true ↔ lt a b = true ∨ (eq a b = true ∧ rest = true) := by
  unfold chain
  split
  · simp_all
  · rename_i hab
    split
    · rename_i hba
      have hne : eq a b ≠ true := by
        rw [Ne, h.eq_iff]
        exact ne_of_gt (h.symm.lt_iff.mp hba)
      simp [hne, hab]
    · rename_i hba
      have heq := h.eq_of_not_lt hab hba
      simp [heq, hab]

/-- A chain may ask for equality instead of asking the other way round. -/
theorem Ranked.chain_test {rest : Bool} :
    (if lt a b then true else if !eq a b then false else rest) = chain (lt a b) (lt b a) rest := by
  rw [Bool.eq_iff_iff, h.chain_iff]
  cases lt a b <;> cases eq a b <;> simp

end

variable {rest rest' : Bool}

theorem Ranked.chain_congr (h : Ranked lt eq rank a b)
    (hrest : eq a b = true → rest = rest') :
    chain (lt a b) (lt b a) rest = chain (lt a b) (lt b a) rest' := by
  rw [Bool.eq_iff_iff, h.chain_iff, h.chain_iff]
  by_cases he : eq a b = true
  · rw [hrest he]
  · simp [he]

theorem Ranked.not_lt_self (h : Ranked lt eq rank a a) : lt a a = false := by
  rw [← Bool.not_eq_true, h.lt_iff]
  exact lt_irrefl _

variable {ra rb : List Int → List Int} {less equal : Bool}

/-- A chain is ranked by the rank of the field before the rank of what follows, which matters
only for equal fields. -/
theorem Ranked.chain (h : Ranked lt eq rank a b)
    (hrest : eq a b = true → RanksAt less equal ra rb) :
    RanksAt (chain (lt a b) (lt b a) less) (eq a b && equal) (fun s => rank a (ra s))
      (fun s => rank b (rb s)) := by
  constructor
  · intro s t
    rw [h.at_left.lt_iff, h.chain_iff, Bool.and_eq_true]
    by_cases he : eq a b = true
    · have hlt := (hrest he).lt_iff s t
      simp only [he, true_and]
      rw [hlt, or_assoc]
    · simp [he]
  · intro s t
    rw [h.at_left.eq_iff, Bool.and_eq_true, and_assoc]
    by_cases he : eq a b = true
    · simp only [he, true_and]
      exact (hrest he).eq_iff s t
    · simp [he]

/-- The end of a chain -/
theorem RanksAt.nil : RanksAt false true id id where
  lt_iff s t := by simp
  eq_iff s t := by simp

theorem RanksAt.congr {less less' equal equal' : Bool}
    (h : RanksAt less equal ra rb) (hl : less' = less) (he : equal' = equal) :
    RanksAt less' equal' ra rb := by
  rw [hl, he]
  exact h

/-- Values that are ranked by a number -/
theorem Ranked.of_int (f : α → Int) (hlt : ∀ a b, lt a b = true ↔ f a < f b)
    (heq : ∀ a b, eq a b = true ↔ f a = f b) (a b : α) :
    Ranked lt eq (fun a s => f a :: s) a b := by
  have hat : ∀ a b, RanksAt (lt a b) (eq a b) (fun s => f a :: s) (fun s => f b :: s) := by
    intro a b
    constructor
    · intro s t
      rw [List.cons_lt_cons_iff, hlt, heq]
    · intro s t
      rw [List.cons.injEq, heq]
  exact ⟨hat a b, hat b a⟩

theorem zero_cons_lt_one_cons (s t : List Int) : 0 :: s < 1 :: t :=
  List.cons_lt_cons_iff.mpr (.inl Int.zero_lt_one)

theorem not_one_cons_lt_zero_cons (s t : List Int) : ¬1 :: s < 0 :: t :=
  (zero_cons_lt_one_cons t s).asymm

/-- An element is announced by 1, the end of the list by 0. -/
def rankList (rank : α → List Int → List Int) : List α → List Int → List Int
  | [], s => 0 :: s
  | a :: as, s => 1 :: rank a (rankList rank as s)

/-- The elements that a comparison of two lists comes to -/
inductive Reached (eq : α → α → Bool) : List α → List α → α → α → Prop
  | head {a b : α} {as bs : List α} : Reached eq (a :: as) (b :: bs) a b
  | tail {a b x y : α} {as bs : List α} (h : eq a b = true) (hxy : Reached eq as bs x y) :
    Reached eq (a :: as) (b :: bs) x y

theorem Reached.mem {as bs : List α} {x y : α} (h : Reached eq as bs x y) : x ∈ as ∧ y ∈ bs := by
  induction h with
  | head => exact ⟨List.mem_cons_self .., List.mem_cons_self ..⟩
  | tail _ _ ih => exact ⟨List.mem_cons_of_mem _ ih.1, List.mem_cons_of_mem _ ih.2⟩

/-- A list that is compared with itself -/
theorem Reached.eq_of_self {as : List α} {x y : α} (h : Reached eq as as x y) : x = y := by
  induction as with
  | nil => cases h
  | cons a as ih =>
    cases h with
    | head => rfl
    | tail _ hxy => exact ih hxy

theorem ranksAt_list {as bs : List α} (h : ∀ x y, Reached eq as bs x y → Ranked lt eq rank x y) :
    RanksAt (listLess lt as bs) (listEqual eq as bs) (rankList rank as) (rankList rank bs) := by
  induction as generalizing bs with
  | nil =>
    cases bs with
    | nil => constructor <;> intro s t <;> simp [rankList, listLess, listEqual]
    | cons b bs =>
      constructor
      · intro s t
        simp only [rankList, listLess, zero_cons_lt_one_cons, true_or]
      · intro s t
        simp [rankList, listEqual]
  | cons a as ih =>
    cases bs with
    | nil =>
      constructor
      · intro s t
        simp [rankList, listLess, listEqual, not_one_cons_lt_zero_cons, -not_lt]
      · intro s t
        simp [rankList, listEqual]
    | cons b bs =>
      have hchain := (h a b .head).chain fun he => ih fun x y hxy => h x y (.tail he hxy)
      constructor
      · intro s t
        rw [rankList, rankList, List.cons_lt_cons_iff, hchain.lt_iff]
        simp [listLess, listEqual]
      · intro s t
        rw [rankList, rankList, List.cons.injEq, hchain.eq_iff]
        simp [listEqual]

theorem ranked_list {as bs : List α} (h : ∀ x y, Reached eq as bs x y → Ranked lt eq rank x y)
    (h' : ∀ x y, Reached eq bs as x y → Ranked lt eq rank x y) :
    Ranked (listLess lt) (listEqual eq) (rankList rank) as bs :=
  ⟨ranksAt_list h, ranksAt_list h'⟩

/-- A null handle is less than any other. -/
def handleLess (lt : α → α → Bool) : Option α → Option α → Bool
  | some a, some b => lt a b
  | none, some _ => true
  | _, none => false

def handleEqual (eq : α → α → Bool) : Option α → Option α → Bool
  | some a, some b => eq a b
  | none, none => true
  | _, _ => false

def rankHandle (rank : α → List Int → List Int) : Option α → List Int → List Int
  | none, s => 0 :: s
  | some a, s => 1 :: rank a s

theorem ranked_handle {a b : Option α} (h : ∀ x ∈ a, ∀ y ∈ b, Ranked lt eq rank x y) :
    Ranked (handleLess lt) (handleEqual eq) (rankHandle rank) a b := by
  have hat : ∀ {a b : Option α}, (∀ x ∈ a, ∀ y ∈ b, Ranked lt eq rank x y) →
      RanksAt (handleLess lt a b) (handleEqual eq a b) (rankHandle rank a) (rankHandle rank b) := by
    intro a b h
    cases a with
    | none =>
      cases b with
      | none => constructor <;> intro s t <;> simp [rankHandle, handleLess, handleEqual]
      | some y =>
        constructor
        · intro s t
          simp only [rankHandle, handleLess, zero_cons_lt_one_cons, true_or]
        · intro s t
          simp [rankHandle, handleEqual]
    | some x =>
      cases b with
      | none =>
        constructor
        · intro s t
          simp [rankHandle, handleLess, handleEqual, not_one_cons_lt_zero_cons, -not_lt]
        · intro s t
          simp [rankHandle, handleEqual]
      | some y =>
        have hxy := (h x rfl y rfl).at_left
        constructor
        · intro s t
          rw [rankHandle, rankHandle, List.cons_lt_cons_iff, hxy.lt_iff]
          simp [handleLess, handleEqual]
        · intro s t
          rw [rankHandle, rankHandle, List.cons.injEq, hxy.eq_iff]
          simp [handleEqual]
  exact ⟨hat h, hat fun x hx y hy => (h y hy x hx).symm⟩

/-- The types whose `<` and `==` are ranked -/
class Rankable (β : Type*) [LT β] [DecidableLT β] [DecidableEq β] where
  rank : β → List Int → List Int
  ranked : ∀ a b : β, Ranked (fun a b => decide (a < b)) (fun a b => decide (a = b)) rank a b

section

variable {β : Type*} [LT β] [DecidableLT β] [DecidableEq β]

/-- The two tests of a field are ranked by its rank before the rank of what follows. -/
theorem ranksAt_chainOf [Rankable β] (a b : β)
    (h : a = b → RanksAt less equal ra rb) :
    RanksAt (chainOf a b less) (decide (a = b) && equal) (fun s => Rankable.rank a (ra s))
      (fun s => Rankable.rank b (rb s)) :=
  (Rankable.ranked a b).chain fun he => h (of_decide_eq_true he)

theorem chainOf_congr [Rankable β] (a b : β) (h : a = b → rest = rest') :
    chainOf a b rest = chainOf a b rest' :=
  (Rankable.ranked a b).chain_congr fun he => h (of_decide_eq_true he)

theorem chainOf_self [Rankable β] (a : β) (rest : Bool) : chainOf a a rest = rest := by
  have hself := (Rankable.ranked a a).not_lt_self
  simp only [chainOf, chain, hself, Bool.false_eq_true, if_false]

/-- Values that are ranked by a number -/
@[reducible]
def Rankable.ofInt (f : β → Int) (hlt : ∀ a b, a < b ↔ f a < f b) (heq : ∀ a b, f a = f b → a = b) :
    Rankable β where
  rank a s := f a :: s
  ranked := by
    apply Ranked.of_int f
    · simpa using hlt
    · intro a b
      rw [decide_eq_true_iff]
      exact ⟨congrArg f, heq a b⟩

end

instance : Rankable Int := .ofInt id (fun _ _ => Iff.rfl) fun _ _ => id

instance : Rankable Nat := .ofInt Int.ofNat (fun _ _ => Int.ofNat_lt.symm) fun _ _ => Int.ofNat.inj

instance : Rankable Bool := .ofInt (fun b => b.toNat) (by decide) (by decide)

instance : Rankable UInt8 :=
  .ofInt (fun b => b.toNat) (fun _ _ => Int.ofNat_lt.symm) fun _ _ h =>
    UInt8.toNat.inj (Int.ofNat.inj h)

instance : Rankable UInt16 :=
  .ofInt (fun b => b.toNat) (fun _ _ => Int.ofNat_lt.symm) fun _ _ h =>
    UInt16.toNat.inj (Int.ofNat.inj h)

instance : Rankable UInt32 :=
  .ofInt (fun b => b.toNat) (fun _ _ => Int.ofNat_lt.symm) fun _ _ h =>
    UInt32.toNat.inj (Int.ofNat.inj h)

instance {n : Nat} : Rankable (BitVec n) :=
  .ofInt (fun b => b.toNat) (fun _ _ => Int.ofNat_lt.symm) fun _ _ h =>
    BitVec.eq_of_toNat_eq (Int.ofNat.inj h)

theorem listLess_eq {α : Type*} [LT α] [DecidableLT α] [DecidableEq α] [Rankable α]
    (as bs : List α) : listLess (fun a b => decide (a < b)) as bs = decide (as < bs) := by
  induction as generalizing bs with
  | nil => cases bs <;> simp [listLess]
  | cons a as ih =>
    cases bs with
    | nil => simp [listLess]
    | cons b bs =>
      have hchain : chain (decide (a < b)) (decide (b < a)) (decide (as < bs)) = true ↔
          decide (a < b) = true ∨ (decide (a = b) = true ∧ decide (as < bs) = true) :=
        (Rankable.ranked a b).chain_iff
      rw [listLess, ih, Bool.eq_iff_iff, hchain]
      simp only [decide_eq_true_eq, List.cons_lt_cons_iff]

theorem listEqual_eq {α : Type*} [DecidableEq α] (as bs : List α) :
    listEqual (fun a b => decide (a = b)) as bs = decide (as = bs) := by
  induction as generalizing bs with
  | nil => cases bs <;> simp [listEqual]
  | cons a as ih =>
    cases bs with
    | nil => simp [listEqual]
    | cons b bs => simp [listEqual, ih]

instance {α : Type*} [LT α] [DecidableLT α] [DecidableEq α] [Rankable α] : Rankable (List α) where
  rank := rankList Rankable.rank
  ranked as bs := by
    have h := @ranked_list α _ _ _ as bs (fun a b _ => Rankable.ranked a b)
      fun a b _ => Rankable.ranked a b
    have hlt : listLess (fun a b : α => decide (a < b)) = fun as bs => decide (as < bs) := by
      funext as bs
      exact listLess_eq as bs
    have heq : listEqual (fun a b : α => decide (a = b)) = fun as bs => decide (as = bs) := by
      funext as bs
      exact listEqual_eq as bs
    rw [hlt, heq] at h
    exact h

end Ice.Lib
