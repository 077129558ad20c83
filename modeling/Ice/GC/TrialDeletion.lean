import Ice.GC.Heap

/-!
# Trial deletion

`collect` subtracts from the counts what the graph itself refers to, and keeps in its map exactly
the objects that nothing else leads to.
-/

namespace Ice.GC

open Function (update_of_ne update_self update)
open List (count_cons_of_ne count_nil count_pos_iff length_append length_cons length_map mem_append
  mem_append_right mem_cons mem_cons_of_mem mem_cons_self mem_filter mem_map mem_range nil_append)

variable {s : State} {a o p q : Nat} {counts : Counts}

/-- The traversal goes on from an object to a member. -/
def Visits (s : State) (p q : Nat) : Prop := s.collectable p = true ∧ q ∈ s.handles p

theorem leads_of_visits (h : Relation.ReflTransGen (Visits s) p q) : Leads s p q := by
  induction h with
  | refl => exact .refl
  | tail _ hvisits ih => exact ih.tail hvisits.2

/-- How often the object is found in the members of the given objects, if they are collectable. -/
def found (s : State) (seen : Nat → Bool) (o : Nat) : Nat :=
  ∑ p ∈ Finset.range s.size, if (seen p && s.collectable p) = true then (s.handles p).count o else 0

/-- The keys of the map -/
def Counts.seen (counts : Counts) (o : Nat) : Bool := (counts o).isSome

theorem seen_update (counts : Counts) (o : Nat) (n : Int) :
    Counts.seen (update counts o (some n)) = update counts.seen o true := by
  funext x
  unfold Counts.seen
  by_cases hx : x = o
  · rw [hx, update_self, update_self]
    rfl
  · rw [update_of_ne hx, update_of_ne hx]

variable {seen : Nat → Bool}

theorem found_update (hp : p < s.size) (hseen : seen p = false) :
    found s (update seen p true) o =
      found s seen o + if s.collectable p = true then (s.handles p).count o else 0 := by
  have hsum := Lib.sum_update
    (fun q b => if (b && s.collectable q) = true then (s.handles q).count o else 0) seen true hp
  rw [hseen] at hsum
  exact hsum

theorem found_of_seen (h : ∀ p, seen p = true → s.collectable p = true →
    o ∉ s.handles p) : found s seen o = 0 := by
  apply Finset.sum_eq_zero
  intro p _
  split
  · rename_i hp
    rw [Bool.and_eq_true] at hp
    exact List.count_eq_zero.mpr (h p hp.1 hp.2)
  · rfl

theorem mem_handles_of_found (hp : p < s.size) (hseen : seen p = true)
    (hcollectable : s.collectable p = true) (ho : o ∈ s.handles p) : 0 < found s seen o := by
  have hpos : 0 < (s.handles p).count o := count_pos_iff.mpr ho
  have hle := Finset.single_le_sum (f := fun p =>
    if (seen p && s.collectable p) = true then (s.handles p).count o else 0)
    (fun q _ => Nat.zero_le _) (Finset.mem_range.mpr hp)
  rw [hseen, hcollectable, Bool.and_self, if_pos rfl] at hle
  exact hpos.trans_le hle

/-- What the counts are while so many visits are still to be made -/
structure Decreasing (s : State) (a : Nat) (calls : List Nat) (counts : Counts) : Prop where
  unseen : ∀ o, counts o = none →
    (if o = a then 1 else 0) + found s counts.seen o = calls.count o
  seen : ∀ o n, counts o = some n →
    n + ((if o = a then 1 else 0) + found s counts.seen o : Nat) = s.ref o + calls.count o
  led : ∀ o, (counts o).isSome ∨ o ∈ calls → Relation.ReflTransGen (Visits s) a o

section

variable (hlt : ∀ p, ∀ o ∈ s.handles p, o < s.size)

include hlt

theorem lt_of_visits (ha : a < s.size)
    (h : Relation.ReflTransGen (Visits s) a o) : o < s.size := by
  cases h with
  | refl => exact ha
  | tail _ hvisits => exact hlt _ _ hvisits.2

theorem decreasing_visit (ha : a < s.size)
    (obj : Nat) (calls : List Nat) (counts : Counts)
    (h : Decreasing s a (obj :: calls) counts) :
    Decreasing s a ((decreaseRefCount s obj counts).1 ++ calls)
      (decreaseRefCount s obj counts).2 := by
  have hled := h.led obj (Or.inr (mem_cons_self ..))
  have hobj : obj < s.size := lt_of_visits hlt ha hled
  unfold decreaseRefCount
  cases hcount : counts obj with
  | none =>
    have hseen : counts.seen obj = false := by
      unfold Counts.seen
      rw [hcount]
      rfl
    have hcalls (x : Nat) :
        ((if s.collectable obj = true then s.handles obj else []) ++ calls).count x =
          (if s.collectable obj = true then (s.handles obj).count x else 0) + calls.count x := by
      rw [List.count_append]
      split
      · rfl
      · rfl
    dsimp only
    constructor
    · intro x hx
      have hne : x ≠ obj := by
        rintro rfl
        rw [update_self] at hx
        cases hx
      rw [update_of_ne hne] at hx
      have hold := h.unseen x hx
      rw [count_cons_of_ne hne.symm] at hold
      rw [seen_update, found_update hobj hseen, hcalls]
      omega
    · intro x n hx
      rw [seen_update, found_update hobj hseen, hcalls]
      by_cases hne : x = obj
      · subst hne
        rw [update_self] at hx
        have hold := h.unseen x hcount
        rw [List.count_cons_self] at hold
        cases hx
        generalize (if s.collectable x = true then (s.handles x).count x else 0) = handled
        generalize (if x = a then 1 else 0) = first at hold ⊢
        push_cast
        omega
      · rw [update_of_ne hne] at hx
        have hold := h.seen x n hx
        rw [count_cons_of_ne (Ne.symm hne)] at hold
        generalize (if s.collectable obj = true then (s.handles obj).count x else 0) = handled
        generalize (if x = a then 1 else 0) = first at hold ⊢
        push_cast at hold ⊢
        omega
    · intro x hx
      by_cases hne : x = obj
      · rwa [hne]
      · rw [update_of_ne hne] at hx
        rcases hx with hx | hx
        · exact h.led x (Or.inl hx)
        · rcases mem_append.mp hx with hx | hx
          · split at hx
            · rename_i hcollectable
              exact hled.tail ⟨hcollectable, hx⟩
            · cases hx
          · exact h.led x (Or.inr (mem_cons_of_mem obj hx))
  | some k =>
    have hseen : Counts.seen (update counts obj (some (k - 1))) = counts.seen := by
      rw [seen_update]
      apply Function.update_eq_self_iff.mpr
      unfold Counts.seen
      rw [hcount]
      rfl
    dsimp only
    rw [nil_append]
    constructor
    · intro x hx
      have hne : x ≠ obj := by
        rintro rfl
        rw [update_self] at hx
        cases hx
      rw [update_of_ne hne] at hx
      have hold := h.unseen x hx
      rw [count_cons_of_ne hne.symm] at hold
      rw [hseen]
      exact hold
    · intro x n hx
      rw [hseen]
      by_cases hne : x = obj
      · subst hne
        rw [update_self] at hx
        have hold := h.seen x k hcount
        rw [List.count_cons_self] at hold
        cases hx
        push_cast at hold ⊢
        omega
      · rw [update_of_ne hne] at hx
        have hold := h.seen x n hx
        rwa [count_cons_of_ne (Ne.symm hne)] at hold
    · intro x hx
      by_cases hne : x = obj
      · rwa [hne]
      · rw [update_of_ne hne] at hx
        rcases hx with hx | hx
        · exact h.led x (Or.inl hx)
        · exact h.led x (Or.inr (mem_cons_of_mem obj hx))

/-- The counts after the first traversal -/
theorem decreasing_end (ha : a < s.size) :
    Decreasing s a [] (s.decreaseRefCounts a) := by
  have hstart : Decreasing s a [a] fun _ => none := by
    have hfound (o : Nat) : found s (Counts.seen fun _ => none) o = 0 := found_of_seen nofun
    constructor
    · intro o _
      rw [hfound, List.count_singleton, Nat.add_zero]
      by_cases ho : o = a
      · rw [if_pos ho, ho, if_pos (beq_self_eq_true a)]
      · rw [if_neg ho, if_neg]
        rw [beq_iff_eq]
        exact fun heq => ho heq.symm
    · exact fun o n => nofun
    · intro o ho
      rcases ho with ho | ho
      · cases ho
      · rw [List.mem_singleton.mp ho]
  unfold State.decreaseRefCounts
  apply Lib.traverse_spec (I := Decreasing s a)
    (μ := fun calls counts =>
      calls.length + Lib.remaining s.size (fun o => (s.handles o).length) counts.seen) hstart
  · exact fun obj calls counts => decreasing_visit hlt ha obj calls counts
  · intro obj calls counts h
    have hobj : obj < s.size := lt_of_visits hlt ha (h.led obj (Or.inr (mem_cons_self ..)))
    unfold decreaseRefCount
    cases hcount : counts obj with
    | none =>
      have hseen : counts.seen obj = false := by
        unfold Counts.seen
        rw [hcount]
        rfl
      have hremaining := @Lib.remaining_update s.size (fun o => (s.handles o).length)
        counts.seen obj hobj hseen
      dsimp only at hremaining ⊢
      rw [seen_update, length_append, length_cons]
      split
      · omega
      · rw [List.length_nil]
        omega
    | some n =>
      have hseen : Counts.seen (update counts obj (some (n - 1))) = counts.seen := by
        rw [seen_update]
        apply Function.update_eq_self_iff.mpr
        unfold Counts.seen
        rw [hcount]
        rfl
      dsimp only
      rw [hseen, nil_append, length_cons]
      omega
  · have hle := Lib.remaining_le s.size (fun o => (s.handles o).length)
      (Counts.seen fun _ => none)
    unfold State.total
    rw [List.length_singleton]
    exact Nat.add_le_add_left hle 1

end

/-- What is left of the counts `first` while so many visits are still to be made -/
structure Restoring (s : State) (a : Nat) (first : Counts) (calls : List (Nat × Bool))
    (counts : Counts) : Prop where
  state : ∀ o, counts o = first o ∨ (first o = some 0 ∧ counts o = some (-1)) ∨
    ((first o).isSome ∧ counts o = none)
  started : counts a = none ∨ counts a = some (-1) ∨ (a, false) ∈ calls
  marked : ∀ o, counts o = some (-1) → ∀ m ∈ s.handles o, (first m).isSome →
    counts m = none ∨ counts m = some (-1) ∨ ∃ b, (m, b) ∈ calls
  erased : ∀ o, (first o).isSome → counts o = none → ∀ m ∈ s.handles o,
    counts m = none ∨ (m, true) ∈ calls
  kept : ∀ o, ((first o).isSome ∧ counts o = none) ∨ (o, true) ∈ calls →
    ∃ r n, first r = some n ∧ 0 < n ∧ Leads s r o

variable {first : Counts} {calls : List (Nat × Bool)} {n : Int} {b : Bool}

/-- A visit that finds nothing to do -/
theorem Restoring.skip (h : Restoring s a first ((o, b) :: calls) counts)
    (ho : counts o = none ∨ (b = false ∧ counts o = some (-1))) :
    Restoring s a first calls counts := by
  have hcall {x : Nat} {b' : Bool} (hx : (x, b') ∈ (o, b) :: calls)
      (hne : x = o → b' = b → False) : (x, b') ∈ calls := by
    rcases mem_cons.mp hx with heq | hx
    · cases heq
      exact (hne rfl rfl).elim
    · exact hx
  constructor
  · exact h.state
  · rcases h.started with hnone | hmarked | hcalls
    · exact Or.inl hnone
    · exact Or.inr (Or.inl hmarked)
    · by_cases hao : a = o
      · rw [hao]
        rcases ho with ho | ho
        · exact Or.inl ho
        · exact Or.inr (Or.inl ho.2)
      · exact Or.inr (Or.inr (hcall hcalls fun heq _ => hao heq))
  · intro p hp m hm hfirst
    rcases h.marked p hp m hm hfirst with hnone | hmarked | ⟨b', hcalls⟩
    · exact Or.inl hnone
    · exact Or.inr (Or.inl hmarked)
    · by_cases hmo : m = o
      · rw [hmo]
        rcases ho with ho | ho
        · exact Or.inl ho
        · exact Or.inr (Or.inl ho.2)
      · exact Or.inr (Or.inr ⟨b', hcall hcalls fun heq _ => hmo heq⟩)
  · intro p hp hnone m hm
    rcases h.erased p hp hnone m hm with hnone | hcalls
    · exact Or.inl hnone
    · by_cases hmo : m = o
      · rw [hmo]
        rcases ho with ho | ⟨rfl, -⟩
        · exact Or.inl ho
        · rw [hmo] at hcalls
          exact Or.inr (hcall hcalls fun _ => nofun)
      · exact Or.inr (hcall hcalls fun heq _ => hmo heq)
  · intro p hp
    apply h.kept p
    rcases hp with hp | hp
    · exact Or.inl hp
    · exact Or.inr (mem_cons_of_mem _ hp)

/-- An object is found to be reachable, and so is what it leads to. -/
theorem Restoring.erase (h : Restoring s a first ((o, b) :: calls) counts)
    (ho : counts o = some n) (hreach : ∃ r k, first r = some k ∧ 0 < k ∧ Leads s r o) :
    Restoring s a first ((s.handles o).map (·, true) ++ calls)
      (update counts o none) := by
  have hcall {x : Nat} {b' : Bool} (hx : (x, b') ∈ (o, b) :: calls) (hne : x ≠ o) :
      (x, b') ∈ (s.handles o).map (·, true) ++ calls := by
    rcases mem_cons.mp hx with heq | hx
    · cases heq
      exact absurd rfl hne
    · exact mem_append_right _ hx
  have hfirst : (first o).isSome := by
    rcases h.state o with heq | ⟨hzero, -⟩ | ⟨-, hnone⟩
    · rw [← heq, ho]
      rfl
    · rw [hzero]
      rfl
    · rw [hnone] at ho
      cases ho
  have hself : update counts o none o = none := update_self ..
  have hother {x : Nat} (hx : x ≠ o) : update counts o none x = counts x :=
    update_of_ne hx ..
  constructor
  · intro x
    by_cases hx : x = o
    · rw [hx]
      exact Or.inr (Or.inr ⟨hfirst, hself⟩)
    · rw [hother hx]
      exact h.state x
  · by_cases hao : a = o
    · rw [hao]
      exact Or.inl hself
    · rw [hother hao]
      rcases h.started with hnone | hmarked | hcalls
      · exact Or.inl hnone
      · exact Or.inr (Or.inl hmarked)
      · exact Or.inr (Or.inr (hcall hcalls hao))
  · intro p hp m hm hfirst
    have hpo : p ≠ o := by
      rintro rfl
      rw [hself] at hp
      cases hp
    rw [hother hpo] at hp
    by_cases hmo : m = o
    · rw [hmo]
      exact Or.inl hself
    · rw [hother hmo]
      rcases h.marked p hp m hm hfirst with hnone | hmarked | ⟨b', hcalls⟩
      · exact Or.inl hnone
      · exact Or.inr (Or.inl hmarked)
      · exact Or.inr (Or.inr ⟨b', hcall hcalls hmo⟩)
  · intro p hp hnone m hm
    by_cases hmo : m = o
    · rw [hmo]
      exact Or.inl hself
    · rw [hother hmo]
      by_cases hpo : p = o
      · rw [hpo] at hm
        exact Or.inr (List.mem_append_left _ (List.mem_map_of_mem hm))
      · rw [hother hpo] at hnone
        rcases h.erased p hp hnone m hm with hnone | hcalls
        · exact Or.inl hnone
        · exact Or.inr (hcall hcalls hmo)
  · intro p hp
    by_cases hpo : p = o
    · rwa [hpo]
    · rw [hother hpo] at hp
      rcases hp with hp | hp
      · exact h.kept p (Or.inl hp)
      · rcases mem_append.mp hp with hp | hp
        · obtain ⟨m, hm, heq⟩ := mem_map.mp hp
          cases heq
          obtain ⟨r, k, hr, hk, hleads⟩ := hreach
          exact ⟨r, k, hr, hk, hleads.tail hm⟩
        · exact h.kept p (Or.inr (mem_cons_of_mem _ hp))

/-- An object to which nothing else refers is marked, until it is found to be reachable. -/
theorem Restoring.mark (h : Restoring s a first ((o, false) :: calls) counts)
    (ho : counts o = some 0) :
    Restoring s a first ((s.handles o).map (·, false) ++ calls)
      (update counts o (some (-1))) := by
  have hfirst : first o = some 0 := by
    rcases h.state o with heq | ⟨hzero, -⟩ | ⟨-, hnone⟩
    · rw [← heq, ho]
    · exact hzero
    · rw [hnone] at ho
      cases ho
  have hself : update counts o (some (-1)) o = some (-1) := update_self ..
  have hother {x : Nat} (hx : x ≠ o) : update counts o (some (-1)) x = counts x :=
    update_of_ne hx ..
  have hne {x : Nat} (hx : update counts o (some (-1)) x = none) : x ≠ o := by
    rintro rfl
    rw [hself] at hx
    cases hx
  constructor
  · intro x
    by_cases hx : x = o
    · rw [hx]
      exact Or.inr (Or.inl ⟨hfirst, hself⟩)
    · rw [hother hx]
      exact h.state x
  · by_cases hao : a = o
    · rw [hao]
      exact Or.inr (Or.inl hself)
    · rw [hother hao]
      rcases h.started with hnone | hmarked | hcalls
      · exact Or.inl hnone
      · exact Or.inr (Or.inl hmarked)
      · rcases mem_cons.mp hcalls with heq | hcalls
        · cases heq
          exact absurd rfl hao
        · exact Or.inr (Or.inr (mem_append_right _ hcalls))
  · intro p hp m hm hsome
    by_cases hmo : m = o
    · rw [hmo]
      exact Or.inr (Or.inl hself)
    · rw [hother hmo]
      by_cases hpo : p = o
      · rw [hpo] at hm
        exact Or.inr (Or.inr ⟨false, List.mem_append_left _ (List.mem_map_of_mem hm)⟩)
      · rw [hother hpo] at hp
        rcases h.marked p hp m hm hsome with hnone | hmarked | ⟨b', hcalls⟩
        · exact Or.inl hnone
        · exact Or.inr (Or.inl hmarked)
        · rcases mem_cons.mp hcalls with heq | hcalls
          · cases heq
            exact absurd rfl hmo
          · exact Or.inr (Or.inr ⟨b', mem_append_right _ hcalls⟩)
  · intro p hp hnone m hm
    rw [hother (hne hnone)] at hnone
    rcases h.erased p hp hnone m hm with hm' | hcalls
    · left
      rw [hother]
      · exact hm'
      · rintro rfl
        rw [ho] at hm'
        cases hm'
    · rcases mem_cons.mp hcalls with heq | hcalls
      · cases heq
      · exact Or.inr (mem_append_right _ hcalls)
  · intro p hp
    apply h.kept p
    rcases hp with ⟨hp, hnone⟩ | hp
    · rw [hother (hne hnone)] at hnone
      exact Or.inl ⟨hp, hnone⟩
    · right
      rcases mem_append.mp hp with hp | hp
      · obtain ⟨m, -, heq⟩ := mem_map.mp hp
        cases heq
      · exact mem_cons_of_mem _ hp

theorem restoring_visit (hfirst : ∀ o n, first o = some n → 0 ≤ n) (visit : Nat × Bool)
    (calls : List (Nat × Bool)) (counts : Counts)
    (h : Restoring s a first (visit :: calls) counts) :
    Restoring s a first ((restoreRefCount s visit counts).1 ++ calls)
      (restoreRefCount s visit counts).2 := by
  obtain ⟨o, b⟩ := visit
  unfold restoreRefCount
  cases hcount : counts o with
  | none => exact h.skip (Or.inl hcount)
  | some n =>
    dsimp only
    split
    · rename_i hb
      subst hb
      exact h.erase hcount (h.kept o (Or.inr (mem_cons_self ..)))
    · rename_i hb
      rw [Bool.not_eq_true] at hb
      subst hb
      split
      · rename_i hzero
        subst hzero
        exact h.mark hcount
      · split
        · rename_i hpos
          apply h.erase hcount
          rcases h.state o with heq | ⟨-, hminus⟩ | ⟨-, hnone⟩
          · exact ⟨o, n, heq.symm.trans hcount, hpos, .refl⟩
          · rw [hcount] at hminus
            cases hminus
            omega
          · rw [hcount] at hnone
            cases hnone
        · rename_i hzero hpos
          apply h.skip
          right
          refine ⟨rfl, ?_⟩
          rcases h.state o with heq | ⟨-, hminus⟩ | ⟨-, hnone⟩
          · have hnonneg := hfirst o n (heq.symm.trans hcount)
            omega
          · exact hminus
          · rw [hcount] at hnone
            cases hnone

/-- How often the members of an object with the count may still be visited. -/
def visitsLeft (members : Nat) : Option Int → Nat
  | none => 0
  | some n => if n = 0 then 2 * members else members

variable (members : Nat)

@[simp] theorem visitsLeft_none : visitsLeft members none = 0 := rfl

@[simp] theorem visitsLeft_zero : visitsLeft members (some 0) = 2 * members := rfl

theorem visitsLeft_of_ne {members : Nat} (hn : n ≠ 0) : visitsLeft members (some n) = members :=
  if_neg hn

theorem visitsLeft_le (c : Option Int) : visitsLeft members c ≤ 2 * members := by
  unfold visitsLeft
  split
  · exact Nat.zero_le _
  · split
    · exact Nat.le_refl _
    · omega

/-- How much of the members is still to be visited -/
def unvisited (s : State) (counts : Counts) : Nat :=
  ∑ o ∈ Finset.range s.size, visitsLeft (s.handles o).length (counts o)

theorem unvisited_le (s : State) (counts : Counts) : unvisited s counts ≤ 2 * s.total := by
  unfold unvisited State.total
  rw [two_mul, ← Finset.sum_add_distrib]
  apply Finset.sum_le_sum
  intro o _
  rw [← two_mul]
  exact visitsLeft_le _ _

theorem unvisited_update (ho : o < s.size) (counts : Counts) (c : Option Int) :
    unvisited s (update counts o c) + visitsLeft (s.handles o).length (counts o) =
      unvisited s counts + visitsLeft (s.handles o).length c :=
  Lib.sum_update (fun p c => visitsLeft (s.handles p).length c) counts c ho

/-- The counts after the second traversal -/
theorem restoring_end (a : Nat) (hsize : ∀ o n, first o = some n → o < s.size)
    (hfirst : ∀ o n, first o = some n → 0 ≤ n) :
    Restoring s a first [] (s.restoreRefCounts a first) := by
  have hstart : Restoring s a first [(a, false)] first := by
    constructor
    · exact fun o => Or.inl rfl
    · exact Or.inr (Or.inr (mem_cons_self ..))
    · intro o ho
      have hnonneg := hfirst o (-1) ho
      omega
    · intro o hsome hnone
      rw [hnone] at hsome
      cases hsome
    · rintro o (⟨hsome, hnone⟩ | hcalls)
      · rw [hnone] at hsome
        cases hsome
      · cases List.mem_singleton.mp hcalls
  unfold State.restoreRefCounts
  apply Lib.traverse_spec (I := Restoring s a first)
    (μ := fun calls counts => calls.length + unvisited s counts) hstart
  · exact fun visit calls counts => restoring_visit hfirst visit calls counts
  · rintro ⟨o, b⟩ calls counts h
    unfold restoreRefCount
    cases hcount : counts o with
    | none =>
      dsimp only
      rw [nil_append, length_cons]
      omega
    | some n =>
      have ho : o < s.size := by
        rcases h.state o with heq | ⟨hzero, -⟩ | ⟨-, hnone⟩
        · exact hsize o n (heq.symm.trans hcount)
        · exact hsize o 0 hzero
        · rw [hcount] at hnone
          cases hnone
      have hnone := unvisited_update ho counts none
      have hmark := unvisited_update ho counts (some (-1))
      have hmarked : visitsLeft (s.handles o).length (some (-1)) = (s.handles o).length :=
        visitsLeft_of_ne (by omega)
      rw [hcount, visitsLeft_none] at hnone
      rw [hcount, hmarked] at hmark
      have hpositive : (s.handles o).length ≤ visitsLeft (s.handles o).length (some n) := by
        by_cases hn : n = 0
        · rw [hn, visitsLeft_zero]
          omega
        · rw [visitsLeft_of_ne hn]
      dsimp only
      split
      · rw [length_append, length_map, length_cons]
        dsimp only
        omega
      · split
        · rename_i hzero
          rw [hzero, visitsLeft_zero] at hmark
          rw [length_append, length_map, length_cons]
          dsimp only
          omega
        · split
          · rw [length_append, length_map, length_cons]
            dsimp only
            omega
          · rw [nil_append, length_cons]
            dsimp only
            omega
  · have hle := unvisited_le s first
    rw [List.length_singleton]
    omega

/-- How often an object is a member of others -/
def indegree (s : State) (o : Nat) : Nat :=
  ∑ p ∈ Finset.range s.size, (s.handles p).count o

/-- What the traversal goes through -/
def Visited (s : State) (a o : Nat) : Prop := Relation.ReflTransGen (Visits s) a o

/-- A reference to the object that is neither the released handle nor a member that is visited -/
def Held (s : State) (a : Nat) (ext : Nat → Nat) (r : Nat) : Prop :=
  0 < ext r ∨ ∃ p, r ∈ s.handles p ∧ ¬(Visited s a p ∧ s.collectable p = true)

section

variable {ext : Nat → Nat} (hlt : ∀ p, ∀ o ∈ s.handles p, o < s.size)
  (hmembers : ∀ p, s.size ≤ p → s.handles p = []) (ha : a < s.size)
  (hrefs : ∀ o, Leads s a o → s.ref o = (if o = a then 1 else 0) + ext o + indegree s o)

include hlt ha

theorem seen_iff : (s.decreaseRefCounts a o).isSome ↔ Visited s a o := by
  have hend := decreasing_end hlt ha
  constructor
  · intro hsome
    exact hend.led o (Or.inl hsome)
  · intro hvisited
    induction hvisited with
    | refl =>
      by_contra hnone
      have hunseen := hend.unseen a (Option.not_isSome_iff_eq_none.mp hnone)
      rw [count_nil, if_pos rfl] at hunseen
      omega
    | tail hp hvisits ih =>
      by_contra hnone
      have hunseen := hend.unseen _ (Option.not_isSome_iff_eq_none.mp hnone)
      rw [count_nil] at hunseen
      have hseen : (s.decreaseRefCounts a).seen _ = true := ih
      have hpos := mem_handles_of_found (lt_of_visits hlt ha hp) hseen hvisits.1 hvisits.2
      omega

theorem lt_of_seen (h : s.decreaseRefCounts a o = some n) : o < s.size := by
  apply lt_of_visits hlt ha
  apply (seen_iff hlt ha).mp
  rw [h]
  rfl

omit hlt ha in
theorem found_le (seen : Nat → Bool) : found s seen o ≤ indegree s o := by
  apply Finset.sum_le_sum
  intro p _
  split
  · exact Nat.le_refl _
  · exact Nat.zero_le _

omit hlt ha in
include hmembers in
theorem lt_of_mem_handles (h : o ∈ s.handles p) : p < s.size := by
  by_contra hp
  rw [hmembers p (Nat.le_of_not_lt hp)] at h
  cases h

/-- If an object is not found as often as it is a member, then another object has it. -/
theorem held_of_found_lt
    (h : found s (s.decreaseRefCounts a).seen o < indegree s o) :
    ∃ p, o ∈ s.handles p ∧ ¬(Visited s a p ∧ s.collectable p = true) := by
  obtain ⟨p, hp, hless⟩ := Finset.exists_lt_of_sum_lt h
  have hne : ¬((s.decreaseRefCounts a).seen p && s.collectable p) = true := by
    intro hseen
    rw [if_pos hseen] at hless
    omega
  rw [if_neg hne] at hless
  refine ⟨p, count_pos_iff.mp hless, ?_⟩
  rintro ⟨hvisited, hcollectable⟩
  apply hne
  rw [Bool.and_eq_true]
  exact ⟨(seen_iff hlt ha).mpr hvisited, hcollectable⟩

include hmembers in
/-- If an object is found as often as it is a member, then only visited objects have it. -/
theorem visited_of_found_eq (h : found s (s.decreaseRefCounts a).seen o = indegree s o)
    (hp : o ∈ s.handles p) : Visited s a p ∧ s.collectable p = true := by
  by_contra hnot
  have hne : ¬((s.decreaseRefCounts a).seen p && s.collectable p) = true := by
    rw [Bool.and_eq_true]
    rintro ⟨hseen, hcollectable⟩
    exact hnot ⟨(seen_iff hlt ha).mp hseen, hcollectable⟩
  have hless : found s (s.decreaseRefCounts a).seen o < indegree s o := by
    apply Finset.sum_lt_sum
    · intro q _
      split
      · exact Nat.le_refl _
      · exact Nat.zero_le _
    · have hmem := Finset.mem_range.mpr (lt_of_mem_handles hmembers hp)
      rw [← count_pos_iff] at hp
      refine ⟨p, hmem, ?_⟩
      rw [if_neg hne]
      exact hp
  omega

include hrefs

/-- What the first traversal leaves is what else refers to the object. -/
theorem decreased_eq (h : s.decreaseRefCounts a o = some n) :
    n = ext o + indegree s o - found s (s.decreaseRefCounts a).seen o := by
  have hend := (decreasing_end hlt ha).seen o n h
  have hvisited := (seen_iff hlt ha).mp (by rw [h]; rfl)
  rw [count_nil, hrefs o (leads_of_visits hvisited)] at hend
  by_cases hoa : o = a
  · rw [if_pos hoa, if_pos hoa] at hend
    omega
  · rw [if_neg hoa, if_neg hoa] at hend
    omega

theorem decreased_nonneg (o : Nat) (n : Int) (h : s.decreaseRefCounts a o = some n) : 0 ≤ n := by
  have heq := decreased_eq hlt ha hrefs h
  have hle := found_le (s := s) (o := o) (s.decreaseRefCounts a).seen
  omega

theorem held_of_pos (h : s.decreaseRefCounts a o = some n) (hn : 0 < n) : Held s a ext o := by
  have heq := decreased_eq hlt ha hrefs h
  by_cases hext : 0 < ext o
  · exact Or.inl hext
  · right
    apply held_of_found_lt hlt ha
    omega

include hmembers in
theorem not_held_of_zero (h : s.decreaseRefCounts a o = some 0) :
    ext o = 0 ∧ ∀ p, o ∈ s.handles p → Visited s a p ∧ s.collectable p = true := by
  have heq := decreased_eq hlt ha hrefs h
  have hle := found_le (s := s) (o := o) (s.decreaseRefCounts a).seen
  constructor
  · omega
  · intro p hp
    apply visited_of_found_eq hlt hmembers ha _ hp
    omega

/-- If the object is kept, then it can be reached from one that something else refers to. -/
theorem collect_none_of_restored
    (hzero : s.decreaseRefCounts a a = some 0)
    (hnone : s.restoreRefCounts a (s.decreaseRefCounts a) a = none) :
    s.keys (s.restoreRefCounts a (s.decreaseRefCounts a)) = [] ∧
      ∃ r, Leads s a r ∧ Leads s r a ∧ Held s a ext r := by
  have hend := restoring_end a (fun o n => lt_of_seen hlt ha) (decreased_nonneg hlt ha hrefs)
  constructor
  · unfold State.keys
    rw [List.filter_eq_nil_iff]
    intro o hrange hsome
    have hvisited : Visited s a o := by
      apply (seen_iff hlt ha).mp
      rcases hend.state o with heq | ⟨hfirst, -⟩ | ⟨-, hnone⟩
      · rwa [← heq]
      · rw [hfirst]
        rfl
      · rw [hnone] at hsome
        cases hsome
    have hgone : s.restoreRefCounts a (s.decreaseRefCounts a) o = none := by
      clear hsome hrange
      induction hvisited with
      | refl => exact hnone
      | tail hp hvisits ih =>
        rcases hend.erased _ ((seen_iff hlt ha).mpr hp) ih _ hvisits.2 with hgone | hcalls
        · exact hgone
        · cases hcalls
    rw [hgone] at hsome
    cases hsome
  · obtain ⟨r, n, hr, hn, hleads⟩ := hend.kept a (Or.inl ⟨by rw [hzero]; rfl, hnone⟩)
    refine ⟨r, ?_, hleads, held_of_pos hlt ha hrefs hr hn⟩
    apply leads_of_visits
    apply (seen_iff hlt ha).mp
    rw [hr]
    rfl

include hmembers

/-- What is collected is only referred to by what is collected. -/
theorem closed_of_marked
    (hmarked : s.restoreRefCounts a (s.decreaseRefCounts a) a = some (-1))
    (ho : o ∈ s.keys (s.restoreRefCounts a (s.decreaseRefCounts a))) :
    Leads s a o ∧ ext o = 0 ∧
      ∀ p, o ∈ s.handles p → p ∈ s.keys (s.restoreRefCounts a (s.decreaseRefCounts a)) := by
  have hend := restoring_end a (fun o n => lt_of_seen hlt ha) (decreased_nonneg hlt ha hrefs)
  obtain ⟨-, hsome⟩ := mem_filter.mp ho
  have hvisited : Visited s a o := by
    apply (seen_iff hlt ha).mp
    rcases hend.state o with heq | ⟨hfirst, -⟩ | ⟨hsome, -⟩
    · rwa [← heq]
    · rw [hfirst]
      rfl
    · exact hsome
  have hdone : ∀ p, Visited s a p → s.restoreRefCounts a (s.decreaseRefCounts a) p = none ∨
      s.restoreRefCounts a (s.decreaseRefCounts a) p = some (-1) := by
    intro p hp
    induction hp with
    | refl => exact Or.inr hmarked
    | tail hp hvisits ih =>
      have hfirst := (seen_iff hlt ha).mpr (hp.tail hvisits)
      rcases ih with hnone | hminus
      · rcases hend.erased _ ((seen_iff hlt ha).mpr hp) hnone _ hvisits.2 with hgone | hcalls
        · exact Or.inl hgone
        · cases hcalls
      · rcases hend.marked _ hminus _ hvisits.2 hfirst with hgone | hminus | ⟨b, hcalls⟩
        · exact Or.inl hgone
        · exact Or.inr hminus
        · cases hcalls
  have hfirst : s.decreaseRefCounts a o = some 0 := by
    rcases hdone o hvisited with hnone | hminus
    · rw [hnone] at hsome
      cases hsome
    · rcases hend.state o with heq | ⟨hfirst, -⟩ | ⟨-, hnone⟩
      · have hnonneg := decreased_nonneg hlt ha hrefs o (-1) (heq.symm.trans hminus)
        omega
      · exact hfirst
      · rw [hnone] at hsome
        cases hsome
  obtain ⟨hext, hparents⟩ := not_held_of_zero hlt hmembers ha hrefs hfirst
  refine ⟨leads_of_visits hvisited, hext, ?_⟩
  intro p hp
  have hpvisited := (hparents p hp).1
  apply mem_filter.mpr
  constructor
  · exact mem_range.mpr (lt_of_visits hlt ha hpvisited)
  · by_contra hgone
    rw [Option.not_isSome_iff_eq_none] at hgone
    rcases hend.erased p ((seen_iff hlt ha).mpr hpvisited) hgone o hp with hnone | hcalls
    · rw [hnone] at hsome
      cases hsome
    · cases hcalls

/-- Either the object is part of a cycle to which something else refers, or the objects that are
collected are only referred to by each other. -/
theorem collect_cases :
    (s.collect a = (none, true) ∧ ∃ r, Leads s a r ∧ Leads s r a ∧ Held s a ext r) ∨
    ∃ objects, s.collect a = (some objects, true) ∧ a ∈ objects ∧ objects.Nodup ∧
      ∀ o ∈ objects, o < s.size ∧ Leads s a o ∧ ext o = 0 ∧
        ∀ p, o ∈ s.handles p → p ∈ objects := by
  have hsome : (s.decreaseRefCounts a a).isSome := (seen_iff hlt ha).mpr .refl
  obtain ⟨n, hn⟩ := Option.isSome_iff_exists.mp hsome
  have hnonneg := decreased_nonneg hlt ha hrefs a n hn
  unfold State.collect
  dsimp only
  rw [hn]
  dsimp only
  by_cases hpos : 0 < n
  · rw [if_pos hpos]
    exact Or.inl ⟨rfl, a, .refl, .refl, held_of_pos hlt ha hrefs hn hpos⟩
  · rw [if_neg hpos]
    have hzero : s.decreaseRefCounts a a = some 0 := by
      rw [hn]
      congr 1
      omega
    have hend := restoring_end a (fun o n => lt_of_seen hlt ha) (decreased_nonneg hlt ha hrefs)
    rcases hend.started with hnone | hmarked | hcalls
    · obtain ⟨hkeys, hheld⟩ := collect_none_of_restored hlt ha hrefs hzero hnone
      rw [if_pos hkeys]
      exact Or.inl ⟨rfl, hheld⟩
    · have hmem : a ∈ s.keys (s.restoreRefCounts a (s.decreaseRefCounts a)) := by
        apply mem_filter.mpr
        rw [hmarked]
        exact ⟨mem_range.mpr ha, rfl⟩
      rw [if_neg (List.ne_nil_of_mem hmem), hmarked]
      right
      refine ⟨_, rfl, hmem, List.Nodup.filter _ List.nodup_range, ?_⟩
      intro o ho
      have hlist := mem_range.mp (mem_filter.mp ho).1
      exact ⟨hlist, closed_of_marked hlt hmembers ha hrefs hmarked ho⟩
    · cases hcalls

end

end Ice.GC
