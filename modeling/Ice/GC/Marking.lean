import Ice.GC.Heap

/-!
# Marking a graph

`ClearCollectable` clears the flags of the objects that it finds through flagged ones, and
`MarkCollectable` sets those of the objects that it finds through objects that are not flagged.
Whatever the strong components are, both flags are set for each of them in the end.
-/

namespace Ice.GC

open Function (update_of_ne update_self update)
open List (append_assoc cons_ne_nil getLast?_cons_of_ne_nil getLast?_singleton mem_append mem_cons
  mem_cons_of_mem mem_cons_self mem_of_getLast? mem_singleton)

variable {s h : State} {a o p q : Nat} {calls : List Nat} {marks : List Mark} {m : Marking}

/-- The object is found through objects with the flag. -/
def Cleared (s : State) (a o : Nat) : Prop :=
  s.collectable a = true ∧
    Relation.ReflTransGen (fun p q => q ∈ s.handles p ∧ s.collectable q = true) a o

theorem Cleared.collectable (hcleared : Cleared s a o) : s.collectable o = true := by
  obtain ⟨ha, hpath⟩ := hcleared
  cases hpath with
  | refl => exact ha
  | tail _ hedge => exact hedge.2

theorem Cleared.leads (hcleared : Cleared s a o) : Leads s a o := by
  obtain ⟨-, hpath⟩ := hcleared
  induction hpath with
  | refl => exact .refl
  | tail _ hedge ih => exact ih.tail hedge.1

/-- What the flags are while so many visits are still to be made -/
structure Clearing (h : State) (a : Nat) (calls : List Nat) (s : State) : Prop where
  heap : s = { h with collectable := s.collectable, cycleMember := s.cycleMember }
  flags : ∀ o, (s.collectable o = h.collectable o ∧ s.cycleMember o = h.cycleMember o) ∨
    (Cleared h a o ∧ s.collectable o = false ∧ s.cycleMember o = false)
  led : ∀ o ∈ calls, h.collectable o = true → Cleared h a o
  started : s.collectable a = false ∨ a ∈ calls
  closed : ∀ p, Cleared h a p → s.collectable p = false →
    ∀ q ∈ h.handles p, s.collectable q = false ∨ q ∈ calls

theorem Clearing.handles (hs : Clearing h a calls s) : s.handles = h.handles := by
  rw [hs.heap]
  rfl

theorem Clearing.cleared (hs : Clearing h a (o :: calls) s) (ho : s.collectable o = true) :
    Cleared h a o := by
  rcases hs.flags o with ⟨heq, -⟩ | ⟨hcleared, -⟩
  · exact hs.led o (mem_cons_self ..) (heq.symm.trans ho)
  · exact hcleared

/-- A visit clears the flag and goes on to the neighbors. -/
theorem clearing_visit (obj : Nat) (calls : List Nat) (s : State)
    (hs : Clearing h a (obj :: calls) s) :
    Clearing h a ((clearCollectable obj s).1 ++ calls) (clearCollectable obj s).2 := by
  unfold clearCollectable
  split
  · rename_i ho
    have hcleared := hs.cleared ho
    have hkeep {x : Nat} (hx : s.collectable x = false) :
        update s.collectable obj false x = false := by
      by_cases hxo : x = obj
      · rw [hxo, update_self]
      · rwa [update_of_ne hxo]
    have hcall {x : Nat} (hx : s.collectable x = false ∨ x ∈ obj :: calls) :
        update s.collectable obj false x = false ∨ x ∈ s.handles obj ++ calls := by
      rcases hx with hx | hx
      · exact Or.inl (hkeep hx)
      · rcases mem_cons.mp hx with rfl | hx
        · exact Or.inl (update_self ..)
        · exact Or.inr (List.mem_append_right _ hx)
    constructor
    · dsimp only
      rw [hs.heap]
    · intro x
      dsimp only
      by_cases hxo : x = obj
      · rw [hxo, update_self, update_self]
        exact Or.inr ⟨hcleared, rfl, rfl⟩
      · rw [update_of_ne hxo, update_of_ne hxo]
        exact hs.flags x
    · intro x hx hflag
      rcases mem_append.mp hx with hx | hx
      · rw [hs.handles] at hx
        exact ⟨hcleared.1, hcleared.2.tail ⟨hx, hflag⟩⟩
      · exact hs.led x (mem_cons_of_mem _ hx) hflag
    · exact hcall hs.started
    · intro x hx hgone q hq
      by_cases hxo : x = obj
      · rw [hxo, ← hs.handles] at hq
        exact Or.inr (List.mem_append_left _ hq)
      · dsimp only at hgone
        rw [update_of_ne hxo] at hgone
        exact hcall (hs.closed x hx hgone q hq)
  · rename_i ho
    rw [Bool.not_eq_true] at ho
    have hcall {x : Nat} (hx : s.collectable x = false ∨ x ∈ obj :: calls) :
        s.collectable x = false ∨ x ∈ calls := by
      rcases hx with hx | hx
      · exact Or.inl hx
      · rcases mem_cons.mp hx with rfl | hx
        · exact Or.inl ho
        · exact Or.inr hx
    constructor
    · exact hs.heap
    · exact hs.flags
    · exact fun x hx => hs.led x (mem_cons_of_mem _ hx)
    · exact hcall hs.started
    · exact fun x hx hgone q hq => hcall (hs.closed x hx hgone q hq)

section

variable (hlt : ∀ p, ∀ o ∈ h.handles p, o < h.size)

include hlt

/-- No call is left at the end. -/
theorem clearing_end (ha : a < h.size) :
    Clearing h a [] (h.clearCollectable a) := by
  have hstart : Clearing h a [a] h := by
    constructor
    · rfl
    · exact fun o => Or.inl ⟨rfl, rfl⟩
    · intro o ho hflag
      rw [mem_singleton.mp ho] at hflag ⊢
      exact ⟨hflag, .refl⟩
    · exact Or.inr (mem_cons_self ..)
    · intro p hp hgone
      rw [hp.collectable] at hgone
      cases hgone
  have hbound {o : Nat} (ho : Cleared h a o) : o < h.size := by
    cases ho.leads with
    | refl => exact ha
    | tail _ hedge => exact hlt _ _ hedge
  unfold State.clearCollectable
  apply Lib.traverse_spec (I := Clearing h a)
    (μ := fun calls s => calls.length +
      Lib.remaining h.size (fun o => (h.handles o).length) fun o => !s.collectable o) hstart
  · exact fun obj calls s => clearing_visit obj calls s
  · intro obj calls s hs
    unfold clearCollectable
    split
    · rename_i ho
      have hless := @Lib.remaining_update h.size (fun o => (h.handles o).length)
        (fun o => !s.collectable o) obj (hbound (hs.cleared ho)) (by rw [ho]; rfl)
      have hsame : update (fun o => !s.collectable o) obj true =
          fun o => !update s.collectable obj false o := by
        funext x
        by_cases hxo : x = obj
        · rw [hxo, update_self, update_self]
          rfl
        · rw [update_of_ne hxo, update_of_ne hxo]
      rw [hsame] at hless
      dsimp only
      rw [List.length_append, List.length_cons, hs.handles]
      omega
    · dsimp only
      rw [List.nil_append, List.length_cons]
      omega
  · have hle := Lib.remaining_le h.size (fun o => (h.handles o).length) fun o => !h.collectable o
    rw [List.length_singleton]
    unfold State.total
    omega

/-- The flags after `ClearCollectable` -/
theorem clearCollectable_spec (ha : a < h.size) :
    ∃ collectable cycleMember : Nat → Bool,
      h.clearCollectable a = { h with collectable := collectable, cycleMember := cycleMember } ∧
      ∀ o, (Cleared h a o → collectable o = false ∧ cycleMember o = false) ∧
        (¬Cleared h a o → collectable o = h.collectable o ∧ cycleMember o = h.cycleMember o) := by
  have hend := clearing_end hlt ha
  refine ⟨_, _, hend.heap, ?_⟩
  intro o
  have hgone (ho : Cleared h a o) : (h.clearCollectable a).collectable o = false := by
    obtain ⟨hflag, hpath⟩ := ho
    induction hpath with
    | refl =>
      rcases hend.started with hgone | hcalls
      · exact hgone
      · cases hcalls
    | tail hp hedge ih =>
      rcases hend.closed _ ⟨hflag, hp⟩ ih _ hedge.1 with hgone | hcalls
      · exact hgone
      · cases hcalls
  constructor
  · intro ho
    refine ⟨hgone ho, ?_⟩
    rcases hend.flags o with ⟨heq, -⟩ | ⟨-, -, hcycle⟩
    · rw [hgone ho, ho.collectable] at heq
      cases heq
    · exact hcycle
  · intro ho
    rcases hend.flags o with heq | ⟨hcleared, -⟩
    · exact heq
    · exact absurd hcleared ho

end

/-- The object is found through objects without the flag. -/
def Marked (s : State) (a o : Nat) : Prop :=
  s.collectable a = false ∧
    Relation.ReflTransGen (fun p q => q ∈ s.handles p ∧ s.collectable q = false) a o

theorem Marked.collectable (hmarked : Marked s a o) : s.collectable o = false := by
  obtain ⟨ha, hpath⟩ := hmarked
  cases hpath with
  | refl => exact ha
  | tail _ hedge => exact hedge.2

theorem Marked.leads (hmarked : Marked s a o) : Leads s a o := by
  obtain ⟨-, hpath⟩ := hmarked
  induction hpath with
  | refl => exact .refl
  | tail _ hedge ih => exact ih.tail hedge.1

/-- The objects whose visits are not finished -/
def active (marks : List Mark) : List Nat :=
  marks.filterMap fun
    | .finish o => some o
    | _ => none

theorem active_neighbors (objects : List Nat) (marks : List Mark) :
    active (objects.map .visitNeighbor ++ marks) = active marks := by
  induction objects with
  | nil => rfl
  | cons o objects ih => exact ih

/-- The first of the two numbers is the larger one. -/
def Above (m : Marking) (p q : Nat) : Prop := m.number q < m.number p

/-- What the stacks and the flags are while so much is still to be done -/
structure Numbered (h : State) (a : Nat) (marks : List Mark) (m : Marking) : Prop where
  heap : m.heap = { h with collectable := m.heap.collectable, cycleMember := m.heap.cycleMember }
  collectable : ∀ o, m.heap.collectable o = true ↔
    h.collectable o = true ∨ (m.numbers o).isSome
  cycleMember : ∀ o, m.heap.cycleMember o = true ↔
    h.cycleMember o = true ∨ ((m.numbers o).isSome ∧ o ∉ m.s)
  numbered : ∀ o n, m.numbers o = some n → 1 ≤ n ∧ n ≤ m.counter ∧ Marked h a o
  stacked : ∀ o ∈ m.s, (m.numbers o).isSome
  sorted : m.s.Pairwise (Above m)
  path : (active marks).Pairwise (Above m)
  activated : ∀ o ∈ active marks, o ∈ m.s
  bounds : m.p.Sublist (active marks)
  root : 0 < m.counter → m.number a = 1
  led : ∀ q, .visit q ∈ marks ∨ .visitNeighbor q ∈ marks → h.collectable q = false → Marked h a q
  started : m.heap.collectable a = true ∨ .visit a ∈ marks
  closed : ∀ o, (m.numbers o).isSome → ∀ q ∈ h.handles o,
    m.heap.collectable q = true ∨ .visit q ∈ marks ∨ .visitNeighbor q ∈ marks
  rest : (marks = [.visit a] ∧ m.s = [] ∧ m.p = [] ∧ m.counter = 0) ∨
    (marks = [] ∧ m.s = []) ∨
    (marks.getLast? = some (.finish a) ∧ m.s.getLast? = some a ∧ m.p.getLast? = some a)

variable {mark : Mark}

theorem Numbered.handles (hm : Numbered h a marks m) : m.heap.handles = h.handles := by
  rw [hm.heap]
  rfl

theorem Numbered.last (hm : Numbered h a (mark :: marks) m) (hne : ∀ o, mark ≠ .finish o) :
    (mark = .visit a ∧ marks = [] ∧ m.s = [] ∧ m.p = [] ∧ m.counter = 0) ∨
    (marks.getLast? = some (.finish a) ∧ m.s.getLast? = some a ∧ m.p.getLast? = some a) := by
  rcases hm.rest with ⟨hstart, hrest⟩ | ⟨hnil, -⟩ | ⟨hlast, hrest⟩
  · cases hstart
    exact Or.inl ⟨rfl, rfl, hrest⟩
  · cases hnil
  · right
    refine ⟨?_, hrest⟩
    rwa [getLast?_cons_of_ne_nil] at hlast
    rintro rfl
    rw [getLast?_singleton] at hlast
    exact hne a (Option.some.inj hlast)

/-- A visit that finds nothing to do -/
theorem Numbered.skip (hm : Numbered h a (mark :: marks) m) (hne : ∀ o, mark ≠ .finish o)
    (hmark : ∀ q, mark = .visit q ∨ mark = .visitNeighbor q → m.heap.collectable q = true) :
    Numbered h a marks m := by
  have hactive : active (mark :: marks) = active marks := by
    cases mark with
    | visit o => rfl
    | visitNeighbor o => rfl
    | finish o => exact absurd rfl (hne o)
  constructor
  · exact hm.heap
  · exact hm.collectable
  · exact hm.cycleMember
  · exact hm.numbered
  · exact hm.stacked
  · exact hm.sorted
  · rw [← hactive]
    exact hm.path
  · rw [← hactive]
    exact hm.activated
  · rw [← hactive]
    exact hm.bounds
  · exact hm.root
  · intro q hq
    exact hm.led q (hq.imp (mem_cons_of_mem _) (mem_cons_of_mem _))
  · rcases hm.started with hflag | hvisit
    · exact Or.inl hflag
    · rcases mem_cons.mp hvisit with heq | hvisit
      · exact Or.inl (hmark a (Or.inl heq.symm))
      · exact Or.inr hvisit
  · intro o ho q hq
    rcases hm.closed o ho q hq with hflag | hvisit | hneighbor
    · exact Or.inl hflag
    · rcases mem_cons.mp hvisit with heq | hvisit
      · exact Or.inl (hmark q (Or.inl heq.symm))
      · exact Or.inr (Or.inl hvisit)
    · rcases mem_cons.mp hneighbor with heq | hneighbor
      · exact Or.inl (hmark q (Or.inr heq.symm))
      · exact Or.inr (Or.inr hneighbor)
  · rcases hm.last hne with ⟨-, hnil, hs, -⟩ | hrest
    · exact Or.inr (Or.inl ⟨hnil, hs⟩)
    · exact Or.inr (Or.inr hrest)

variable {objects : List Nat}

theorem mem_visiting :
    Mark.visit q ∈ objects.map .visitNeighbor ++ [.finish o] ++ marks ↔ .visit q ∈ marks := by
  simp

theorem mem_visiting_neighbor :
    Mark.visitNeighbor q ∈ objects.map .visitNeighbor ++ [.finish o] ++ marks ↔
      q ∈ objects ∨ .visitNeighbor q ∈ marks := by
  simp

theorem number_of_some {n : Nat} (hn : m.numbers o = some n) : m.number o = n := by
  unfold Marking.number
  rw [hn]
  rfl

theorem Numbered.number_le (hm : Numbered h a marks m) (ho : (m.numbers o).isSome) :
    1 ≤ m.number o ∧ m.number o ≤ m.counter := by
  obtain ⟨n, hn⟩ := Option.isSome_iff_exists.mp ho
  obtain ⟨hone, hle, -⟩ := hm.numbered o n hn
  rw [number_of_some hn]
  exact ⟨hone, hle⟩

theorem Numbered.marked (hm : Numbered h a marks m) (ho : (m.numbers o).isSome) :
    Marked h a o := by
  obtain ⟨n, hn⟩ := Option.isSome_iff_exists.mp ho
  exact (hm.numbered o n hn).2.2

theorem numbered_visit (hm : Numbered h a (.visit o :: marks) m) :
    Numbered h a ((m.visit o).1 ++ marks) (m.visit o).2 := by
  unfold Marking.visit
  split
  · rename_i ho
    apply hm.skip (fun _ => nofun)
    rintro q (heq | heq)
    · cases heq
      exact ho
    · cases heq
  · rename_i ho
    have hfree : h.collectable o = false ∧ m.numbers o = none := by
      rwa [hm.collectable, not_or, Bool.not_eq_true, Option.not_isSome_iff_eq_none] at ho
    have hmarked : Marked h a o := hm.led o (Or.inl (mem_cons_self ..)) hfree.1
    have hnew {x : Nat} (hx : (m.numbers x).isSome) : x ≠ o := by
      rintro rfl
      rw [hfree.2] at hx
      cases hx
    have hsome (x : Nat) : (update m.numbers o (some (m.counter + 1)) x).isSome ↔
        x = o ∨ (m.numbers x).isSome := by
      by_cases hxo : x = o
      · rw [hxo, update_self]
        exact iff_of_true rfl (Or.inl rfl)
      · rw [update_of_ne hxo]
        exact (or_iff_right hxo).symm
    have hflag (x : Nat) : update m.heap.collectable o true x = true ↔
        x = o ∨ m.heap.collectable x = true := by
      by_cases hxo : x = o
      · rw [hxo, update_self]
        exact iff_of_true rfl (Or.inl rfl)
      · rw [update_of_ne hxo]
        exact (or_iff_right hxo).symm
    have hnumbers {l : List Nat} (hl : ∀ x ∈ l, (m.numbers x).isSome)
        (hpairs : l.Pairwise (Above m)) : (o :: l).Pairwise fun x y =>
          (update m.numbers o (some (m.counter + 1)) y).getD 0 <
            (update m.numbers o (some (m.counter + 1)) x).getD 0 := by
      apply List.Pairwise.cons
      · intro y hy
        rw [update_self, update_of_ne (hnew (hl y hy))]
        exact Nat.lt_succ_of_le (hm.number_le (hl y hy)).2
      · apply hpairs.imp_of_mem
        intro x y hx hy habove
        rw [update_of_ne (hnew (hl y hy)), update_of_ne (hnew (hl x hx))]
        exact habove
    constructor
    · dsimp only
      rw [hm.heap]
    · intro x
      dsimp only
      rw [hflag, hsome, hm.collectable, or_left_comm]
    · intro x
      dsimp only
      rw [hm.cycleMember, hsome, mem_cons]
      apply or_congr_right
      constructor
      · rintro ⟨hx, hout⟩
        refine ⟨Or.inr hx, ?_⟩
        rintro (rfl | hin)
        · exact hnew hx rfl
        · exact hout hin
      · rintro ⟨hx, hout⟩
        rw [not_or] at hout
        exact ⟨hx.resolve_left hout.1, hout.2⟩
    · intro x n hn
      dsimp only at hn ⊢
      by_cases hxo : x = o
      · rw [hxo, update_self] at hn
        cases hn
        rw [hxo]
        exact ⟨by omega, Nat.le_refl _, hmarked⟩
      · rw [update_of_ne hxo] at hn
        obtain ⟨hone, hle, hx⟩ := hm.numbered x n hn
        exact ⟨hone, Nat.le_succ_of_le hle, hx⟩
    · intro x hx
      dsimp only
      rw [hsome]
      exact (mem_cons.mp hx).imp_right (hm.stacked x)
    · exact hnumbers hm.stacked hm.sorted
    · rw [append_assoc, active_neighbors]
      exact hnumbers (fun x hx => hm.stacked x (hm.activated x hx)) hm.path
    · rw [append_assoc, active_neighbors]
      intro x hx
      rcases mem_cons.mp hx with rfl | hx
      · exact mem_cons_self ..
      · exact mem_cons_of_mem _ (hm.activated x hx)
    · rw [append_assoc, active_neighbors]
      exact hm.bounds.cons_cons o
    · intro _
      unfold Marking.number
      dsimp only
      rcases hm.last (fun _ => nofun) with ⟨heq, -, -, -, hzero⟩ | ⟨-, hs, -⟩
      · cases heq
        rw [update_self, hzero]
        rfl
      · have ha : (m.numbers a).isSome := hm.stacked a (mem_of_getLast? hs)
        rw [update_of_ne (hnew ha)]
        have hle := hm.number_le ha
        exact hm.root (by omega)
    · intro q hq hflag
      rw [mem_visiting, mem_visiting_neighbor, or_left_comm] at hq
      rcases hq with hq | hq
      · rw [hm.handles] at hq
        exact ⟨hmarked.1, hmarked.2.tail ⟨hq, hflag⟩⟩
      · exact hm.led q (hq.imp (mem_cons_of_mem _) (mem_cons_of_mem _)) hflag
    · dsimp only
      rw [hflag, mem_visiting]
      rcases hm.started with hold | hvisit
      · exact Or.inl (Or.inr hold)
      · rcases mem_cons.mp hvisit with heq | hvisit
        · cases heq
          exact Or.inl (Or.inl rfl)
        · exact Or.inr hvisit
    · intro x hx q hq
      dsimp only at hx ⊢
      rw [hflag, mem_visiting, mem_visiting_neighbor]
      rcases (hsome x).mp hx with rfl | hx
      · rw [← hm.handles] at hq
        exact Or.inr (Or.inr (Or.inl hq))
      · rcases hm.closed x hx q hq with hold | hvisit | hneighbor
        · exact Or.inl (Or.inr hold)
        · rcases mem_cons.mp hvisit with heq | hvisit
          · cases heq
            exact Or.inl (Or.inl rfl)
          · exact Or.inr (Or.inl hvisit)
        · rcases mem_cons.mp hneighbor with heq | hneighbor
          · cases heq
          · exact Or.inr (Or.inr (Or.inr hneighbor))
    · right
      right
      dsimp only
      rw [append_assoc, List.getLast?_append_of_ne_nil _ (by simp), List.singleton_append]
      rcases hm.last (fun _ => nofun) with ⟨heq, hmarks, hs, hp, -⟩ | ⟨hlast, hs, hp⟩
      · cases heq
        rw [hmarks, hs, hp]
        exact ⟨rfl, rfl, rfl⟩
      · rw [getLast?_cons_of_ne_nil, getLast?_cons_of_ne_nil,
          getLast?_cons_of_ne_nil]
        · exact ⟨hlast, hs, hp⟩
        · rintro hnil
          rw [hnil] at hp
          cases hp
        · rintro hnil
          rw [hnil] at hs
          cases hs
        · rintro hnil
          rw [hnil] at hlast
          cases hlast

theorem getLast?_dropWhile {p : Nat → Bool} {l : List Nat} (hlast : l.getLast? = some a)
    (ha : p a = false) : (l.dropWhile p).getLast? = some a := by
  induction l with
  | nil => cases hlast
  | cons x l ih =>
    rw [List.dropWhile_cons]
    split
    · rename_i hx
      apply ih
      rwa [getLast?_cons_of_ne_nil] at hlast
      rintro rfl
      rw [getLast?_singleton] at hlast
      cases hlast
      rw [ha] at hx
      cases hx
    · exact hlast

theorem numbered_visitNeighbor (hm : Numbered h a (.visitNeighbor o :: marks) m) :
    Numbered h a ((m.visitNeighbor o).1 ++ marks) (m.visitNeighbor o).2 := by
  obtain ⟨heq, -⟩ | hlast := hm.last (fun _ => nofun)
  · cases heq
  unfold Marking.visitNeighbor
  cases hnumber : m.numbers o with
  | none =>
    refine { hm with led := ?_, started := ?_, closed := ?_, rest := ?_ }
    · intro q hq
      apply hm.led q
      rcases hq with hq | hq
      · rcases mem_cons.mp hq with heq | hq
        · cases heq
          exact Or.inr (mem_cons_self ..)
        · exact Or.inl (mem_cons_of_mem _ hq)
      · rcases mem_cons.mp hq with heq | hq
        · cases heq
        · exact Or.inr (mem_cons_of_mem _ hq)
    · rcases hm.started with hflag | hvisit
      · exact Or.inl hflag
      · rcases mem_cons.mp hvisit with heq | hvisit
        · cases heq
        · exact Or.inr (mem_cons_of_mem _ hvisit)
    · intro x hx q hq
      rcases hm.closed x hx q hq with hflag | hvisit | hneighbor
      · exact Or.inl hflag
      · rcases mem_cons.mp hvisit with heq | hvisit
        · cases heq
        · exact Or.inr (Or.inl (mem_cons_of_mem _ hvisit))
      · rcases mem_cons.mp hneighbor with heq | hneighbor
        · cases heq
          exact Or.inr (Or.inl (mem_cons_self ..))
        · exact Or.inr (Or.inr (mem_cons_of_mem _ hneighbor))
    · right
      right
      refine ⟨?_, hlast.2⟩
      change (Mark.visit o :: marks).getLast? = _
      rw [getLast?_cons_of_ne_nil]
      · exact hlast.1
      · rintro hnil
        rw [hnil] at hlast
        cases hlast.1
  | some n =>
    have hskip : Numbered h a marks m := by
      apply hm.skip (fun _ => nofun)
      rintro q (heq | heq)
      · cases heq
      · cases heq
        rw [hm.collectable, hnumber]
        exact Or.inr rfl
    dsimp only
    split
    · exact hskip
    · have ha : (m.numbers a).isSome := hm.stacked a (mem_of_getLast? hlast.2.1)
      have hle := hm.number_le ha
      have hone := (hm.numbered o n hnumber).1
      have hroot := hm.root (by omega)
      have hlast' := getLast?_dropWhile hlast.2.2
        (p := fun o => decide (n < m.number o)) (decide_eq_false (by omega))
      have hne : m.p.dropWhile (fun o => decide (n < m.number o)) ≠ [] := by
        intro hnil
        rw [hnil] at hlast'
        cases hlast'
      rw [check_of hne]
      refine { hskip with bounds := ?_, rest := ?_ }
      · exact (List.dropWhile_sublist _).trans hskip.bounds
      · exact Or.inr (Or.inr ⟨hlast.1, hlast.2.1, hlast'⟩)

variable {l₁ l₂ : List Nat}

theorem takeWhile_ne (ho : o ∉ l₁) :
    (l₁ ++ o :: l₂).takeWhile (· ≠ o) = l₁ := by
  rw [List.takeWhile_append_of_pos]
  · rw [List.takeWhile_cons_of_neg (by simp), List.append_nil]
  · intro x hx
    rw [decide_eq_true_iff]
    rintro rfl
    exact ho hx

theorem dropWhile_ne (ho : o ∉ l₁) :
    (l₁ ++ o :: l₂).dropWhile (· ≠ o) = o :: l₂ := by
  rw [List.dropWhile_append_of_pos]
  · rw [List.dropWhile_cons_of_neg (by simp)]
  · intro x hx
    rw [decide_eq_true_iff]
    rintro rfl
    exact ho hx

theorem not_mem_of_above {l : List Nat} (h : (o :: l).Pairwise (Above m)) : o ∉ l := by
  intro hmem
  exact Nat.lt_irrefl _ (List.rel_of_pairwise_cons h hmem)

section

variable (hm : Numbered h a (.finish o :: marks) m)

include hm

theorem Numbered.unfinished :
    (Mark.finish o :: marks).getLast? = some (.finish a) ∧
      m.s.getLast? = some a ∧ m.p.getLast? = some a := by
  rcases hm.rest with ⟨heq, -⟩ | ⟨heq, -⟩ | hlast
  · cases heq
  · cases heq
  · exact hlast

/-- What is still to be done does not matter to the flags of the members. -/
theorem Numbered.closed_of_finish
    (hp : (m.numbers p).isSome) (hq : q ∈ h.handles p) :
    m.heap.collectable q = true ∨ .visit q ∈ marks ∨ .visitNeighbor q ∈ marks := by
  rcases hm.closed p hp q hq with hflag | hvisit | hneighbor
  · exact Or.inl hflag
  · rcases mem_cons.mp hvisit with heq | hvisit
    · cases heq
    · exact Or.inr (Or.inl hvisit)
  · rcases mem_cons.mp hneighbor with heq | hneighbor
    · cases heq
    · exact Or.inr (Or.inr hneighbor)

/-- The last visit of an object, when its neighbors are done -/
theorem numbered_finish :
    Numbered h a ((m.finish o).1 ++ marks) (m.finish o).2 := by
  obtain ⟨hlast, hs, hp⟩ := hm.unfinished
  have hpath : (o :: active marks).Pairwise (Above m) := hm.path
  have hbounds : m.p.Sublist (o :: active marks) := hm.bounds
  have hne : m.p ≠ [] := by
    intro hnil
    rw [hnil] at hp
    cases hp
  have hled (q : Nat) (hq : .visit q ∈ marks ∨ .visitNeighbor q ∈ marks)
      (hflag : h.collectable q = false) : Marked h a q :=
    hm.led q (hq.imp (mem_cons_of_mem _) (mem_cons_of_mem _)) hflag
  have hstarted : m.heap.collectable a = true ∨ .visit a ∈ marks := by
    rcases hm.started with hflag | hvisit
    · exact Or.inl hflag
    · rcases mem_cons.mp hvisit with heq | hvisit
      · cases heq
      · exact Or.inr hvisit
  unfold Marking.finish
  rw [check_of hne]
  dsimp only
  split
  · rename_i hhead
    obtain ⟨p, hpeq⟩ : ∃ p, m.p = o :: p := by
      cases hmp : m.p with
      | nil => exact absurd hmp hne
      | cons x p =>
        rw [hmp, List.head?_cons] at hhead
        exact ⟨p, by rw [Option.some.inj hhead]⟩
    have hmem : o ∈ m.s := hm.activated o (mem_cons_self ..)
    obtain ⟨above, below, hsplit, hout⟩ := List.eq_append_cons_of_mem hmem
    rw [check_of hmem, hsplit, takeWhile_ne hout, dropWhile_ne hout, hpeq, List.tail_cons,
      List.tail_cons]
    have hsorted : (above ++ o :: below).Pairwise (Above m) := hsplit ▸ hm.sorted
    have hbelow : (o :: below).Pairwise (Above m) := (List.pairwise_append.mp hsorted).2.1
    have hin (x : Nat) : x ∈ m.s ↔ x ∈ above ++ [o] ∨ x ∈ below := by
      rw [hsplit, List.append_cons, mem_append]
    have hdisjoint {x : Nat} (hx : x ∈ below) : x ∉ above ++ [o] := by
      intro hcomponent
      rw [List.append_cons] at hsorted
      exact Nat.lt_irrefl _ ((List.pairwise_append.mp hsorted).2.2 x hcomponent x hx)
    constructor
    · dsimp only
      rw [hm.heap]
    · exact hm.collectable
    · intro x
      dsimp only
      rw [Bool.or_eq_true, List.contains_iff_mem, hm.cycleMember, or_assoc]
      apply or_congr_right
      constructor
      · rintro (⟨hx, hnot⟩ | hx)
        · exact ⟨hx, fun hxbelow => hnot ((hin x).mpr (Or.inr hxbelow))⟩
        · exact ⟨hm.stacked x ((hin x).mpr (Or.inl hx)), fun hxbelow => hdisjoint hxbelow hx⟩
      · rintro ⟨hx, hnot⟩
        by_cases hcomponent : x ∈ above ++ [o]
        · exact Or.inr hcomponent
        · refine Or.inl ⟨hx, fun hxs => ?_⟩
          exact ((hin x).mp hxs).elim hcomponent hnot
    · exact hm.numbered
    · exact fun x hx => hm.stacked x ((hin x).mpr (Or.inr hx))
    · exact hbelow.of_cons
    · exact hpath.of_cons
    · intro x hx
      have hless : Above m o x := List.rel_of_pairwise_cons hpath hx
      rcases (hin x).mp (hm.activated x (mem_cons_of_mem o hx)) with hcomponent | hxbelow
      · rcases mem_append.mp hcomponent with habove | hself
        · have hmore := (List.pairwise_append.mp hsorted).2.2 x habove o (mem_cons_self ..)
          exact absurd hless (Nat.lt_asymm hmore)
        · rw [mem_singleton.mp hself] at hless
          exact absurd hless (Nat.lt_irrefl _)
      · exact hxbelow
    · rw [hpeq] at hbounds
      exact hbounds.of_cons_cons
    · exact hm.root
    · exact hled
    · exact hstarted
    · exact fun x hx q hq => hm.closed_of_finish hx hq
    · right
      dsimp only
      cases marks with
      | nil =>
        left
        refine ⟨rfl, ?_⟩
        rw [getLast?_singleton] at hlast
        cases hlast
        cases below with
        | nil => rfl
        | cons x below =>
          rw [hsplit, List.getLast?_append_of_ne_nil _ (cons_ne_nil _ _),
            getLast?_cons_of_ne_nil (cons_ne_nil _ _)] at hs
          exact absurd (mem_of_getLast? hs) (not_mem_of_above hbelow)
      | cons mark marks =>
        right
        rw [getLast?_cons_of_ne_nil (cons_ne_nil _ _)] at hlast
        have ha : a ∈ active (mark :: marks) :=
          List.mem_filterMap.mpr ⟨_, mem_of_getLast? hlast, rfl⟩
        have hao : a ≠ o := by
          rintro rfl
          exact not_mem_of_above hpath ha
        refine ⟨hlast, ?_, ?_⟩
        · rw [hsplit, List.getLast?_append_of_ne_nil _ (cons_ne_nil _ _)] at hs
          rwa [getLast?_cons_of_ne_nil] at hs
          rintro rfl
          rw [getLast?_singleton] at hs
          exact hao (Option.some.inj hs).symm
        · rw [hpeq] at hp
          rwa [getLast?_cons_of_ne_nil] at hp
          rintro rfl
          rw [getLast?_singleton] at hp
          exact hao (Option.some.inj hp).symm
  · rename_i hhead
    have hsub : m.p.Sublist (active marks) := by
      rcases List.sublist_cons_iff.mp hbounds with hsub | ⟨p, heq, -⟩
      · exact hsub
      · rw [heq] at hhead
        exact absurd rfl hhead
    constructor
    · exact hm.heap
    · exact hm.collectable
    · exact hm.cycleMember
    · exact hm.numbered
    · exact hm.stacked
    · exact hm.sorted
    · exact hpath.of_cons
    · exact fun x hx => hm.activated x (mem_cons_of_mem o hx)
    · exact hsub
    · exact hm.root
    · exact hled
    · exact hstarted
    · exact fun x hx q hq => hm.closed_of_finish hx hq
    · right
      right
      refine ⟨?_, hs, hp⟩
      rw [getLast?_cons_of_ne_nil] at hlast
      · exact hlast
      · rintro rfl
        exact hne (List.sublist_nil.mp hsub)

end

theorem numbered_mark (mark : Mark) (marks : List Mark) (m : Marking)
    (hm : Numbered h a (mark :: marks) m) :
    Numbered h a ((markCollectable mark m).1 ++ marks) (markCollectable mark m).2 := by
  cases mark with
  | visit o => exact numbered_visit hm
  | visitNeighbor o => exact numbered_visitNeighbor hm
  | finish o => exact numbered_finish hm

def Mark.weight : Mark → Nat
  | .visit _ => 1
  | .visitNeighbor _ => 2
  | .finish _ => 1

/-- How many calls are made for so much that is still to be done -/
def markWeights (marks : List Mark) : Nat := (marks.map Mark.weight).sum

theorem markWeights_append (marks marks' : List Mark) :
    markWeights (marks ++ marks') = markWeights marks + markWeights marks' := by
  unfold markWeights
  rw [List.map_append, List.sum_append]

theorem markWeights_neighbors (objects : List Nat) :
    markWeights (objects.map .visitNeighbor) = 2 * objects.length := by
  unfold markWeights
  rw [List.map_map]
  change (objects.map fun _ => 2).sum = _
  rw [List.map_const', List.sum_replicate_nat, Nat.mul_comm]

theorem Marked.lt (hlt : ∀ p, ∀ o ∈ h.handles p, o < h.size) (ha : a < h.size)
    (ho : Marked h a o) : o < h.size := by
  cases ho.leads with
  | refl => exact ha
  | tail _ hedge => exact hlt _ _ hedge

/-- How many calls the objects may ask for that are not found yet -/
def unmarked (h : State) (m : Marking) : Nat :=
  Lib.remaining h.size (fun o => 2 * (h.handles o).length + 1) m.heap.collectable

section

variable (hlt : ∀ p, ∀ o ∈ h.handles p, o < h.size)

include hlt

/-- Each step lowers the measure. -/
theorem mark_less (ha : a < h.size) (mark : Mark)
    (marks : List Mark) (m : Marking) (hm : Numbered h a (mark :: marks) m) :
    markWeights ((markCollectable mark m).1 ++ marks) + unmarked h (markCollectable mark m).2 <
      markWeights (mark :: marks) + unmarked h m := by
  have hcons : markWeights (mark :: marks) = mark.weight + markWeights marks := rfl
  rw [markWeights_append, hcons]
  cases mark with
  | visit o =>
    unfold markCollectable
    dsimp only
    unfold Marking.visit
    split
    · change 0 + markWeights marks + unmarked h m < 1 + markWeights marks + unmarked h m
      omega
    · rename_i ho
      rw [Bool.not_eq_true] at ho
      have hfree : h.collectable o = false := by
        by_contra hflag
        rw [Bool.not_eq_false] at hflag
        rw [(hm.collectable o).mpr (Or.inl hflag)] at ho
        cases ho
      have hmarked := hm.led o (Or.inl (mem_cons_self ..)) hfree
      have hless := @Lib.remaining_update h.size (fun o => 2 * (h.handles o).length + 1)
        m.heap.collectable o (hmarked.lt hlt ha) ho
      have hfinish : markWeights [.finish o] = 1 := rfl
      dsimp only
      rw [markWeights_append, markWeights_neighbors, hfinish, hm.handles]
      unfold unmarked
      dsimp only
      change _ < 1 + _ + _
      omega
  | visitNeighbor o =>
    unfold markCollectable
    dsimp only
    unfold Marking.visitNeighbor
    split
    · change 1 + markWeights marks + unmarked h m < 2 + markWeights marks + unmarked h m
      omega
    · split
      all_goals
        change 0 + markWeights marks + unmarked h m < 2 + markWeights marks + unmarked h m
        omega
  | finish o =>
    unfold markCollectable
    dsimp only
    unfold Marking.finish
    dsimp only
    split
    all_goals
      change 0 + markWeights marks + unmarked h m < 1 + markWeights marks + unmarked h m
      omega

/-- The flags after `MarkCollectable` -/
theorem markCollectable_spec (ha : a < h.size) :
    ∃ collectable cycleMember : Nat → Bool,
      h.markCollectable a = { h with collectable := collectable, cycleMember := cycleMember } ∧
      ∀ o, (Marked h a o → collectable o = true ∧ cycleMember o = true) ∧
        (¬Marked h a o → collectable o = h.collectable o ∧ cycleMember o = h.cycleMember o) := by
  have hstart : Numbered h a [.visit a] { heap := h } := by
    constructor
    · rfl
    · intro o
      exact (or_iff_left Bool.false_ne_true).symm
    · intro o
      exact (or_iff_left fun hand => Bool.false_ne_true hand.1).symm
    · exact fun o n => nofun
    · exact fun o ho => nomatch ho
    · exact List.Pairwise.nil
    · exact List.Pairwise.nil
    · exact fun o ho => nomatch ho
    · exact List.Sublist.slnil
    · intro hpos
      exact absurd hpos (Nat.lt_irrefl _)
    · rintro q (hq | hq) hflag
      · cases mem_singleton.mp hq
        exact ⟨hflag, .refl⟩
      · cases mem_singleton.mp hq
    · exact Or.inr (mem_cons_self ..)
    · exact fun o ho => nomatch ho
    · exact Or.inl ⟨rfl, rfl, rfl, rfl⟩
  have hend : Numbered h a [] (Lib.traverse markCollectable (2 + 2 * h.total + h.size)
      [.visit a] { heap := h }).2 := by
    apply Lib.traverse_spec (I := Numbered h a)
      (μ := fun marks m => markWeights marks + unmarked h m) hstart
    · exact numbered_mark
    · exact mark_less hlt ha
    · have hle := Lib.remaining_le h.size (fun o => 2 * (h.handles o).length + 1) h.collectable
      simp only [two_mul, Finset.sum_add_distrib, ← Finset.card_eq_sum_ones,
        Finset.card_range] at hle
      change 1 + Lib.remaining h.size (fun o => 2 * (h.handles o).length + 1) h.collectable ≤ _
      simp only [two_mul]
      unfold State.total
      omega
  unfold State.markCollectable
  generalize (Lib.traverse markCollectable (2 + 2 * h.total + h.size) [.visit a]
    { heap := h }).2 = m at hend ⊢
  have hs : m.s = [] := by
    rcases hend.rest with ⟨heq, -⟩ | ⟨-, hs⟩ | ⟨heq, -⟩
    · cases heq
    · exact hs
    · cases heq
  have hnumbered (o : Nat) : (m.numbers o).isSome ↔ Marked h a o := by
    constructor
    · exact hend.marked
    · rintro ⟨hfree, hpath⟩
      induction hpath with
      | refl =>
        rcases hend.started with hflag | hvisit
        · rw [hend.collectable, hfree] at hflag
          exact hflag.resolve_left Bool.false_ne_true
        · cases hvisit
      | tail _ hedge ih =>
        rcases hend.closed _ ih _ hedge.1 with hflag | hvisit | hneighbor
        · rw [hend.collectable, hedge.2] at hflag
          exact hflag.resolve_left Bool.false_ne_true
        · cases hvisit
        · cases hneighbor
  refine ⟨_, _, hend.heap, ?_⟩
  intro o
  have hflag := hend.collectable o
  have hcycle := hend.cycleMember o
  rw [hs, and_iff_left List.not_mem_nil] at hcycle
  rw [hnumbered] at hflag hcycle
  constructor
  · intro ho
    exact ⟨hflag.mpr (Or.inr ho), hcycle.mpr (Or.inr ho)⟩
  · intro ho
    rw [or_iff_left ho] at hflag hcycle
    exact ⟨Bool.eq_iff_iff.mpr hflag, Bool.eq_iff_iff.mpr hcycle⟩

end

end Ice.GC
