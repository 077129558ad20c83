import Ice.GC.Releasing
import Ice.GC.Marking

/-!
# What a program does

Whatever a program does with the objects that it can reach, the counts stay the numbers of the
handles and of the members, and nothing is left to do.
-/

namespace Ice.GC

open Function (update_of_ne update_self update)
open List (count_eq_zero count_nil mem_singleton)

variable {s t : State} {a : Action} {o p q r : Nat} {tasks : List Task} {value : Option Nat}

theorem Sound.reachable (h : Sound s tasks) (ho : Reachable s o) :
    o < s.size ∧ s.noDelete o = false := by
  obtain ⟨r, hr, hleads⟩ := ho
  obtain ⟨hlt, hlive⟩ := h.outside r hr
  exact ⟨h.leads_lt hlt hleads, leads_live h.live hlive hleads⟩

/-- At rest, what is not to be deleted is not deleted, and the other way round. -/
theorem Sound.deleted_iff (h : Sound s []) : o ∈ s.deleted ↔ s.noDelete o = true := by
  rw [h.doomed o, or_iff_left List.not_mem_nil]

theorem handles_new (s : State) (members : Nat) (h : s.members s.size = []) :
    (s.act (.new members)).handles = s.handles := by
  funext p
  unfold State.handles State.act
  dsimp only
  by_cases hp : p = s.size
  · rw [hp, update_self, h, List.reduceOption_replicate_none]
    rfl
  · rw [update_of_ne hp]

theorem indegree_new (s : State) (members : Nat) (h : s.members s.size = []) :
    indegree (s.act (.new members)) o = indegree s o := by
  unfold indegree
  rw [handles_new s members h]
  change ∑ p ∈ Finset.range (s.size + 1), _ = _
  rw [Finset.sum_range_succ]
  unfold State.handles
  rw [h]
  rfl

/-- A new object has one handle outside the graph. -/
theorem sound_new (h : Sound s []) (members : Nat) : Sound (s.act (.new members)) [] := by
  have hempty := h.empty s.size (Nat.le_refl _)
  have hhandles := handles_new s members hempty
  have hfresh : s.size ∉ s.deleted := fun hmem => Nat.lt_irrefl _ (h.deleted_lt _ hmem)
  have hnobody {p : Nat} : s.size ∉ s.handles p := fun hmem => Nat.lt_irrefl _ (h.bounded p _ hmem)
  have hlive : s.noDelete s.size = false := by
    rw [← Bool.not_eq_true, ← h.deleted_iff]
    exact hfresh
  have hnoDelete : (s.act (.new members)).noDelete = s.noDelete :=
    Function.update_eq_self_iff.mpr hlive.symm
  have hzero : indegree s s.size = 0 := by
    apply Finset.sum_eq_zero
    intro p _
    exact count_eq_zero.mpr hnobody
  constructor
  · intro p x hx
    rw [hhandles] at hx
    exact Nat.lt_succ_of_lt (h.bounded p x hx)
  · intro p hp
    have hne : p ≠ s.size := by
      rintro rfl
      exact Nat.not_succ_le_self _ hp
    change update s.members s.size _ p = []
    rw [update_of_ne hne]
    exact h.empty p (Nat.le_of_succ_le hp)
  · exact fun task htask => nomatch htask
  · exact fun x hx => Nat.lt_succ_of_lt (h.deleted_lt x hx)
  · intro x hx hkept
    rw [indegree_new s members hempty]
    change (((update s.outside s.size 1 x : Nat) : Int) + indegree s x + 0) ≤
      update s.ref s.size 1 x
    by_cases hxs : x = s.size
    · rw [hxs, update_self, update_self, hzero]
      rfl
    · rw [update_of_ne hxs, update_of_ne hxs]
      exact h.held x (Nat.lt_of_le_of_ne (Nat.le_of_lt_succ hx) hxs) hkept
  · intro x hx hxlive
    rw [hnoDelete] at hxlive
    rw [indegree_new s members hempty]
    change update s.ref s.size 1 x =
      ((update s.outside s.size 1 x : Nat) : Int) + indegree s x + 0
    by_cases hxs : x = s.size
    · rw [hxs, update_self, update_self, hzero]
      rfl
    · rw [update_of_ne hxs, update_of_ne hxs]
      exact h.exact x (Nat.lt_of_le_of_ne (Nat.le_of_lt_succ hx) hxs) hxlive
  · intro x hx
    rw [hhandles]
    exact h.gone x hx
  · intro x
    rw [hnoDelete]
    exact h.doomed x
  · exact h.once
  · intro x hx
    rw [hnoDelete]
    change 0 < update s.outside s.size 1 x at hx
    change x < s.size + 1 ∧ _
    by_cases hxs : x = s.size
    · rw [hxs]
      exact ⟨Nat.lt_succ_self _, hlive⟩
    · rw [update_of_ne hxs] at hx
      exact ⟨Nat.lt_succ_of_lt (h.outside x hx).1, (h.outside x hx).2⟩
  · intro p hp x hx
    rw [hnoDelete] at hp ⊢
    rw [hhandles] at hx
    exact h.live p hp x hx
  · intro x hx hcycle
    rw [hnoDelete] at hx
    change update s.cycleMember s.size false x = true at hcycle
    change update s.ref s.size 1 x ≤ 0
    by_cases hxs : x = s.size
    · rw [hxs, update_self] at hcycle
      cases hcycle
    · rw [update_of_ne hxs] at hcycle ⊢
      exact h.cycle x hx hcycle
  · trivial
  · intro x hx hne
    rw [hnoDelete] at hx
    change update s.members s.size _ x ≠ [] at hne
    by_cases hxs : x = s.size
    · rw [hxs, hlive] at hx
      cases hx
    · rw [update_of_ne hxs] at hne
      exact h.cleared x hx hne
  · exact fun x hx => nomatch hx
  · exact h.asserted

/-- A handle is copied. -/
theorem sound_acquire (h : Sound s []) (ho : o < s.size) (hlive : s.noDelete o = false) :
    Sound (s.act (.acquire o)) [] := by
  have hcycle {x : Nat} (hx : s.noDelete x = true) : x ≠ o := by
    rintro rfl
    rw [hlive] at hx
    cases hx
  refine { h with held := ?_, exact := ?_, outside := ?_, cycle := ?_ }
  · intro x hx hkept
    have hheld := h.held x hx hkept
    change ((update s.outside o (s.outside o + 1) x : Nat) : Int) + indegree s x + _ ≤
      update s.ref o (s.ref o + 1) x
    by_cases hxo : x = o
    · subst hxo
      rw [update_self, update_self]
      push_cast
      omega
    · rw [update_of_ne hxo, update_of_ne hxo]
      exact hheld
  · intro x hx hxlive
    have hexact := h.exact x hx hxlive
    change update s.ref o (s.ref o + 1) x =
      ((update s.outside o (s.outside o + 1) x : Nat) : Int) + indegree s x + _
    by_cases hxo : x = o
    · subst hxo
      rw [update_self, update_self]
      push_cast
      omega
    · rw [update_of_ne hxo, update_of_ne hxo]
      exact hexact
  · intro x hx
    change 0 < update s.outside o (s.outside o + 1) x at hx
    by_cases hxo : x = o
    · rw [hxo]
      exact ⟨ho, hlive⟩
    · rw [update_of_ne hxo] at hx
      exact h.outside x hx
  · intro x hx hxcycle
    change update s.ref o (s.ref o + 1) x ≤ 0
    rw [update_of_ne (hcycle hx)]
    exact h.cycle x hx hxcycle

/-- A handle from outside is taken away, and is to be released. -/
theorem sound_release (h : Sound s []) (ho : 0 < s.outside o) :
    Sound { s with outside := update s.outside o (s.outside o - 1) }
      [.release o] := by
  obtain ⟨hlt, hlive⟩ := h.outside o ho
  have hrefs (x : Nat) : update s.outside o (s.outside o - 1) x +
      [Task.release o].count (.release x) = s.outside x := by
    by_cases hxo : x = o
    · subst hxo
      rw [update_self, List.count_singleton_self]
      omega
    · rw [update_of_ne hxo, count_eq_zero.mpr]
      · rfl
      · rw [mem_singleton]
        intro heq
        cases heq
        exact hxo rfl
  constructor
  · exact h.bounded
  · exact h.empty
  · intro task htask
    rw [mem_singleton.mp htask]
    exact hlt
  · exact h.deleted_lt
  · intro x hx hkept
    have hheld := h.held x hx hkept
    have hsum := hrefs x
    rw [count_nil] at hheld
    dsimp only
    change _ + (indegree s x : Int) + _ ≤ _
    omega
  · intro x hx hxlive
    have hexact := h.exact x hx hxlive
    have hsum := hrefs x
    rw [count_nil] at hexact
    dsimp only
    change _ = _ + (indegree s x : Int) + _
    omega
  · intro x hx
    refine ⟨(h.gone x hx).1, fun hmem => ?_⟩
    cases mem_singleton.mp hmem
    rw [h.deleted_iff, hlive] at hx
    cases hx
  · intro x
    rw [mem_singleton, or_iff_left (b := Task.delete x = Task.release o) nofun]
    exact h.deleted_iff.symm
  · intro x
    rw [List.count_cons_of_ne (show Task.release o ≠ .delete x from nofun)]
    exact h.once x
  · intro x hx
    apply h.outside x
    have hsum := hrefs x
    dsimp only at hx
    omega
  · exact h.live
  · exact h.cycle
  · trivial
  · exact fun x hx hne => (h.cleared x hx hne).imp nofun nofun
  · exact fun x hx => nomatch mem_singleton.mp hx
  · exact h.asserted

/-- How often the handle refers to the object -/
def refersTo (value : Option Nat) (o : Nat) : Nat := if value = some o then 1 else 0

theorem count_reduceOption_set (l : List (Option Nat)) (i : Nat) (value : Option Nat) (o : Nat)
    (hi : i < l.length) : (l.set i value).reduceOption.count o + refersTo (l[i]?).join o =
      l.reduceOption.count o + refersTo value o := by
  have hcons (value : Option Nat) (l : List (Option Nat)) :
      (List.reduceOption (value :: l)).count o = refersTo value o + l.reduceOption.count o := by
    cases value with
    | none =>
      rw [List.reduceOption_cons_of_none]
      exact (Nat.zero_add _).symm
    | some m =>
      rw [List.reduceOption_cons_of_some]
      unfold refersTo
      by_cases hm : m = o
      · rw [hm, List.count_cons_self, if_pos rfl, Nat.add_comm]
      · rw [List.count_cons_of_ne hm, if_neg fun heq => hm (Option.some.inj heq), Nat.zero_add]
  induction l generalizing i with
  | nil => exact absurd hi (Nat.not_lt_zero i)
  | cons x l ih =>
    cases i with
    | zero =>
      rw [List.set_cons_zero, hcons, hcons, List.getElem?_cons_zero]
      change _ + refersTo x o = _
      omega
    | succ i =>
      have hrest := ih i (Nat.lt_of_succ_lt_succ hi)
      rw [List.set_cons_succ, hcons, hcons, List.getElem?_cons_succ]
      omega

theorem mem_reduceOption_set {l : List (Option Nat)} {i : Nat}
    (ho : o ∈ (l.set i value).reduceOption) : o ∈ l.reduceOption ∨ value = some o := by
  rw [List.reduceOption_mem_iff] at ho
  rcases List.mem_or_eq_of_mem_set ho with hmem | heq
  · exact Or.inl (List.reduceOption_mem_iff.mpr hmem)
  · exact Or.inr heq.symm

/-- The old value of a member is still to be released. -/
def releases : Option Nat → List Task
  | none => []
  | some q => [.release q]

theorem count_releases (value : Option Nat) (o : Nat) :
    (releases value).count (.release o) = refersTo value o := by
  cases value with
  | none => rfl
  | some q =>
    unfold releases refersTo
    by_cases hq : q = o
    · rw [hq, List.count_singleton_self, if_pos rfl]
    · rw [if_neg fun heq => hq (Option.some.inj heq), count_eq_zero]
      intro hmem
      cases mem_singleton.mp hmem
      exact hq rfl

theorem mem_releases {task : Task} (htask : task ∈ releases value) :
    ∃ q, value = some q ∧ task = .release q := by
  cases value with
  | none => cases htask
  | some q => exact ⟨q, rfl, mem_singleton.mp htask⟩

theorem incRef_ref (s : State) (value : Option Nat) (o : Nat) :
    (s.incRef value).ref o = s.ref o + refersTo value o := by
  cases value with
  | none => exact (add_zero _).symm
  | some q =>
    change update s.ref q (s.ref q + 1) o = _
    unfold refersTo
    by_cases hq : o = q
    · rw [hq, update_self, if_pos rfl]
      rfl
    · rw [update_of_ne hq, if_neg fun heq => hq (Option.some.inj heq).symm]
      exact (add_zero _).symm

theorem incRef_eq (s : State) (value : Option Nat) :
    s.incRef value = { s with ref := (s.incRef value).ref } := by
  cases value with
  | none => rfl
  | some q => rfl

/-- The state when a member is assigned and its old value is not yet released -/
def State.assigned (s : State) (o member : Nat) (value : Option Nat) : State :=
  (s.incRef value).setMembers o ((s.members o).set member value)

theorem assigned_eq (s : State) (o member : Nat) (value : Option Nat) :
    s.assigned o member value = { s with
      ref := (s.incRef value).ref
      members := update s.members o ((s.members o).set member value) } := by
  unfold State.assigned
  rw [incRef_eq]
  rfl

theorem assign_eq (s : State) (o member : Nat) (value : Option Nat) :
    s.assign o member value =
      if value = ((s.members o)[member]?).join then s
      else (s.assigned o member value).settle (releases ((s.members o)[member]?).join) := by
  have hmembers : (s.incRef value).members = s.members := by
    rw [incRef_eq]
  unfold State.assign State.assigned State.setMembers
  dsimp only
  rw [hmembers]
  split
  · rfl
  · cases ((s.members o)[member]?).join with
    | none =>
      unfold State.settle releases
      rw [Lib.traverse_nil]
    | some q => rfl

/-- A member is assigned: the new object is counted before the old one is released. -/
theorem sound_assigned {member : Nat} (h : Sound s []) (ho : o < s.size)
    (hlive : s.noDelete o = false) (hmember : member < (s.members o).length)
    (hvalue : ∀ q, value = some q → q < s.size ∧ s.noDelete q = false) :
    Sound (s.assigned o member value) (releases ((s.members o)[member]?).join) := by
  have hset (x : Nat) := count_reduceOption_set (s.members o) member value x hmember
  have hmem {p x : Nat} (hx : x ∈ (s.assigned o member value).handles p) :
      x ∈ s.handles p ∨ (p = o ∧ value = some x) := by
    rw [assigned_eq] at hx
    unfold State.handles at hx
    by_cases hpo : p = o
    · rw [hpo] at hx ⊢
      dsimp only at hx
      rw [update_self] at hx
      exact (mem_reduceOption_set hx).imp_right fun heq => ⟨rfl, heq⟩
    · dsimp only at hx
      rw [update_of_ne hpo] at hx
      exact Or.inl hx
  have hindegree (x : Nat) : indegree (s.assigned o member value) x +
      refersTo ((s.members o)[member]?).join x = indegree s x + refersTo value x := by
    have hsum := Lib.sum_update (fun _ l => (List.reduceOption l).count x) s.members
      ((s.members o).set member value) ho
    have hset := hset x
    have hindegree : indegree (s.assigned o member value) x =
        ∑ j ∈ Finset.range s.size, (List.reduceOption (update s.members o
          ((s.members o).set member value) j)).count x := by
      rw [assigned_eq]
      rfl
    have hold : indegree s x =
        ∑ j ∈ Finset.range s.size, (List.reduceOption (s.members j)).count x := rfl
    omega
  have hold {q : Nat} (hq : ((s.members o)[member]?).join = some q) : q ∈ s.handles o := by
    rw [Option.join_eq_some_iff] at hq
    exact List.reduceOption_mem_iff.mpr (List.mem_of_getElem? hq)
  have href := incRef_ref s value
  rw [assigned_eq] at hindegree hmem ⊢
  constructor
  · intro p x hx
    rcases hmem hx with hx | ⟨-, hx⟩
    · exact h.bounded p x hx
    · exact (hvalue x hx).1
  · intro p hp
    dsimp only
    rw [update_of_ne]
    · exact h.empty p hp
    · rintro rfl
      exact absurd ho (Nat.not_lt_of_ge hp)
  · intro task htask
    obtain ⟨q, hq, rfl⟩ := mem_releases htask
    exact h.bounded o q (hold hq)
  · exact h.deleted_lt
  · intro x hx hkept
    have hheld := h.held x hx hkept
    have hindegree := hindegree x
    rw [count_nil] at hheld
    rw [count_releases]
    dsimp only
    rw [href]
    omega
  · intro x hx hxlive
    have hexact := h.exact x hx hxlive
    have hindegree := hindegree x
    rw [count_nil] at hexact
    rw [count_releases]
    dsimp only
    rw [href]
    omega
  · intro x hx
    have hdead := h.deleted_iff.mp hx
    constructor
    · intro p hp
      rcases hmem hp with hp | ⟨-, hp⟩
      · exact (h.gone x hx).1 p hp
      · rw [(hvalue x hp).2] at hdead
        cases hdead
    · intro htask
      obtain ⟨q, hq, heq⟩ := mem_releases htask
      cases heq
      exact (h.gone x hx).1 o (hold hq)
  · intro x
    rw [or_iff_left]
    · exact h.deleted_iff.symm
    · intro htask
      obtain ⟨q, -, heq⟩ := mem_releases htask
      cases heq
  · intro x
    have hnone : (releases ((s.members o)[member]?).join).count (.delete x) = 0 := by
      rw [count_eq_zero]
      intro htask
      obtain ⟨q, -, heq⟩ := mem_releases htask
      cases heq
    rw [hnone]
    exact h.once x
  · exact h.outside
  · intro p hp x hx
    rcases hmem hx with hx | ⟨-, hx⟩
    · exact h.live p hp x hx
    · exact (hvalue x hx).2
  · intro x hx hcycle
    have hle := h.cycle x hx hcycle
    have hnone : refersTo value x = 0 := by
      apply if_neg
      intro heq
      rw [(hvalue x heq).2] at hx
      cases hx
    dsimp only
    rw [href, hnone]
    omega
  · cases ((s.members o)[member]?).join with
    | none => trivial
    | some q => trivial
  · intro x hx hne
    dsimp only at hne
    have hxo : x ≠ o := by
      rintro rfl
      rw [hlive] at hx
      cases hx
    rw [update_of_ne hxo] at hne
    exact (h.cleared x hx hne).imp nofun nofun
  · intro x hx
    obtain ⟨q, -, heq⟩ := mem_releases hx
    cases heq
  · exact h.asserted

theorem sound_flags (h : Sound s []) {collectable cycleMember : Nat → Bool}
    (hcycle : ∀ o, s.noDelete o = true → cycleMember o = true → s.cycleMember o = true) :
    Sound { s with collectable := collectable, cycleMember := cycleMember } [] := by
  refine { h with cycle := ?_, ordered := ?_ }
  · exact fun o ho hflag => h.cycle o ho (hcycle o ho hflag)
  · trivial

/-- What holds when nothing is left to do -/
structure Resting (s : State) : Prop where
  sound : Sound s []
  flagged : ∀ o, s.noDelete o = false → s.collectable o = true → s.cycleMember o = true

theorem resting_settle (h : Sound s tasks)
    (hflagged : ∀ o, s.noDelete o = false → s.collectable o = true → s.cycleMember o = true) :
    Resting (s.settle tasks) := by
  constructor
  · exact sound_settle h
  · intro o hlive hflag
    obtain ⟨hlive, hcollectable, hcycle⟩ := (kept_settle h).live o hlive
    rw [hcollectable] at hflag
    rw [hcycle]
    exact hflagged o hlive hflag

section

variable (h : Resting s)

include h

section

variable (ho : o < s.size)

include ho

theorem resting_clear : Resting (s.clearCollectable o) := by
  obtain ⟨collectable, cycleMember, heq, hflags⟩ := clearCollectable_spec h.sound.bounded ho
  rw [heq]
  constructor
  · apply sound_flags h.sound
    intro x _ hcycle
    by_cases hx : Cleared s o x
    · rw [((hflags x).1 hx).2] at hcycle
      cases hcycle
    · rwa [((hflags x).2 hx).2] at hcycle
  · intro x hlive hflag
    dsimp only at hlive hflag ⊢
    by_cases hx : Cleared s o x
    · rw [((hflags x).1 hx).1] at hflag
      cases hflag
    · rw [((hflags x).2 hx).1] at hflag
      rw [((hflags x).2 hx).2]
      exact h.flagged x hlive hflag

/-- Marking ends, and changes only flags. -/
theorem resting_mark (hlive : s.noDelete o = false) :
    Resting (s.markCollectable o) := by
  obtain ⟨collectable, cycleMember, heq, hflags⟩ := markCollectable_spec h.sound.bounded ho
  rw [heq]
  constructor
  · apply sound_flags h.sound
    intro x hdead hcycle
    by_cases hx : Marked s o x
    · rw [leads_live h.sound.live hlive hx.leads] at hdead
      cases hdead
    · rwa [((hflags x).2 hx).2] at hcycle
  · intro x hxlive hflag
    dsimp only at hxlive hflag ⊢
    by_cases hx : Marked s o x
    · exact ((hflags x).1 hx).2
    · rw [((hflags x).2 hx).1] at hflag
      rw [((hflags x).2 hx).2]
      exact h.flagged x hxlive hflag

theorem clearCollectable_frame :
    ∃ collectable cycleMember : Nat → Bool, s.clearCollectable o =
      { s with collectable := collectable, cycleMember := cycleMember } := by
  obtain ⟨collectable, cycleMember, heq, -⟩ := clearCollectable_spec h.sound.bounded ho
  exact ⟨collectable, cycleMember, heq⟩

theorem resting_collectable (hlive : s.noDelete o = false)
    (enable : Bool) : Resting (s.iceCollectable o enable) := by
  have hclear := resting_clear h ho
  obtain ⟨collectable, cycleMember, heq⟩ := clearCollectable_frame h ho
  unfold State.iceCollectable
  split
  · apply resting_mark hclear
    · rw [heq]
      exact ho
    · rw [heq]
      exact hlive
  · exact hclear

end

/-- Whatever a program does keeps the counts right, and no assertion fails. -/
theorem resting_act (ha : Proper s a) : Resting (s.act a) := by
  cases a with
  | new members =>
    constructor
    · exact sound_new h.sound members
    · intro o hlive hflag
      change update s.noDelete s.size false o = false at hlive
      change update s.collectable s.size false o = true at hflag
      change update s.cycleMember s.size false o = true
      by_cases ho : o = s.size
      · rw [ho, update_self] at hflag
        cases hflag
      · rw [update_of_ne ho] at hlive hflag ⊢
        exact h.flagged o hlive hflag
  | acquire o =>
    obtain ⟨hlt, hlive⟩ := h.sound.reachable ha
    exact ⟨sound_acquire h.sound hlt hlive, h.flagged⟩
  | release o => exact resting_settle (sound_release h.sound ha) h.flagged
  | assign o member value =>
    obtain ⟨ho, hmember, hvalue⟩ := ha
    obtain ⟨hlt, hlive⟩ := h.sound.reachable ho
    change Resting (s.assign o member value)
    rw [assign_eq]
    split
    · exact h
    · apply resting_settle
      · exact sound_assigned h.sound hlt hlive hmember
          fun q hq => h.sound.reachable (hvalue q hq)
      · rw [assigned_eq]
        exact h.flagged
  | collectable o enable =>
    obtain ⟨hlt, hlive⟩ := h.sound.reachable ha
    exact resting_collectable h hlt hlive enable

end

end Ice.GC
