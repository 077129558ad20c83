import Ice.GC.Actions

/-!
# Completeness

When a graph is marked as a whole, then each of its objects that is not deleted is backed: a
handle from outside leads to it, or an object that is not part of the graph. What is released
backs an object until the release is done.
-/

namespace Ice.GC

open Function (update_of_ne update_self)
open State (handles perform)

variable {graph : Nat → Prop} {s t : State} {o p q : Nat} {task : Task} {tasks tasks' : List Task}

/-- Why the object is not deleted -/
inductive Backed (graph : Nat → Prop) (s : State) (tasks : List Task) : Nat → Prop
  | outside {o : Nat} : 0 < s.outside o → Backed graph s tasks o
  | pending {o : Nat} : Task.release o ∈ tasks → Backed graph s tasks o
  | doomed {p o : Nat} : s.noDelete p = true → o ∈ s.handles p → Backed graph s tasks o
  | other {o : Nat} : ¬graph o → s.noDelete o = false → Backed graph s tasks o
  | member {p o : Nat} : Backed graph s tasks p → o ∈ s.handles p → Backed graph s tasks o

/-- What is known about a graph that was marked -/
structure Complete (graph : Nat → Prop) (s : State) (tasks : List Task) : Prop where
  closed : ∀ p, graph p → ∀ o ∈ s.handles p, graph o
  flagged : ∀ o, graph o → s.noDelete o = false →
    s.collectable o = true ∧ s.cycleMember o = true
  backed : ∀ o, graph o → s.noDelete o = false → Backed graph s tasks o

theorem Backed.leads (h : Backed graph s tasks p) (hleads : Leads s p o) :
    Backed graph s tasks o := by
  induction hleads with
  | refl => exact h
  | tail _ hedge ih => exact ih.member hedge

theorem Backed.congr (houtside : t.outside = s.outside) (hnoDelete : t.noDelete = s.noDelete)
    (hhandles : t.handles = s.handles) (h : Backed graph s tasks o) : Backed graph t tasks o := by
  induction h with
  | outside hpos => exact .outside (houtside ▸ hpos)
  | pending htask => exact .pending htask
  | doomed hdead hmem => exact .doomed (hnoDelete ▸ hdead) (hhandles ▸ hmem)
  | other hgraph hlive => exact .other hgraph (hnoDelete ▸ hlive)
  | member _ hmem ih => exact ih.member (hhandles ▸ hmem)

/-- What was backed is still backed, unless it is to be deleted. -/
theorem Backed.transfer (houtside : ∀ o, 0 < s.outside o → Backed graph t tasks' o)
    (hdoomed : ∀ o, s.noDelete o = true → t.noDelete o = true)
    (hhandles : ∀ p, ∀ o ∈ s.handles p, o ∈ t.handles p ∨ Task.release o ∈ tasks')
    (hpending : ∀ o, Task.release o ∈ tasks → Backed graph t tasks' o ∨ t.noDelete o = true)
    (h : Backed graph s tasks o) : Backed graph t tasks' o ∨ t.noDelete o = true := by
  induction h with
  | outside hpos => exact Or.inl (houtside _ hpos)
  | pending htask => exact hpending _ htask
  | doomed hdead hmem =>
    rcases hhandles _ _ hmem with hmem | htask
    · exact Or.inl (.doomed (hdoomed _ hdead) hmem)
    · exact Or.inl (.pending htask)
  | @other o hgraph hlive =>
    by_cases hdead : t.noDelete o = true
    · exact Or.inr hdead
    · rw [Bool.not_eq_true] at hdead
      exact Or.inl (.other hgraph hdead)
  | member _ hmem ih =>
    rcases hhandles _ _ hmem with hmem | htask
    · rcases ih with hbacked | hdead
      · exact Or.inl (hbacked.member hmem)
      · exact Or.inl (.doomed hdead hmem)
    · exact Or.inl (.pending htask)

theorem Complete.transfer (h : Complete graph s tasks)
    (hkept : ∀ o, graph o → t.noDelete o = false → s.noDelete o = false ∧
      t.collectable o = s.collectable o ∧ t.cycleMember o = s.cycleMember o)
    (hfewer : ∀ p, ∀ o ∈ t.handles p, o ∈ s.handles p)
    (hbacked : ∀ o, Backed graph s tasks o → Backed graph t tasks' o ∨ t.noDelete o = true) :
    Complete graph t tasks' := by
  constructor
  · exact fun p hp o ho => h.closed p hp o (hfewer p o ho)
  · intro o ho hlive
    obtain ⟨hold, hcollectable, hcycle⟩ := hkept o ho hlive
    rw [hcollectable, hcycle]
    exact h.flagged o ho hold
  · intro o ho hlive
    rcases hbacked o (h.backed o ho (hkept o ho hlive).1) with hbacked | hdead
    · exact hbacked
    · rw [hlive] at hdead
      cases hdead

/-- Without the released handle, the object is backed by another one, or the released object
leads to it. -/
theorem Backed.cases_release (h : Backed graph s (.release p :: tasks) o) :
    Backed graph s tasks o ∨ Leads s p o := by
  induction h with
  | outside hpos => exact Or.inl (.outside hpos)
  | pending htask =>
    rcases List.mem_cons.mp htask with heq | htask
    · cases heq
      exact Or.inr .refl
    · exact Or.inl (.pending htask)
  | doomed hdead hmem => exact Or.inl (.doomed hdead hmem)
  | other hgraph hlive => exact Or.inl (.other hgraph hlive)
  | member _ hmem ih =>
    rcases ih with hbacked | hleads
    · exact Or.inl (hbacked.member hmem)
    · exact Or.inr (hleads.tail hmem)

theorem Complete.leads (h : Complete graph s tasks) (hp : graph p) (hleads : Leads s p o) :
    graph o := by
  induction hleads with
  | refl => exact hp
  | tail _ hedge ih => exact h.closed _ ih _ hedge

/-- The traversal finds the whole graph of an object, as long as it is marked. -/
theorem Complete.visited (h : Complete graph s tasks)
    (hlives : ∀ p, s.noDelete p = false → ∀ o ∈ s.handles p, s.noDelete o = false)
    (hp : graph p) (hlive : s.noDelete p = false) (hleads : Leads s p o) : Visited s p o := by
  induction hleads with
  | refl => exact .refl
  | tail hpath hedge ih =>
    have hflag := h.flagged _ (h.leads hp hpath) (leads_live hlives hlive hpath)
    exact ih.tail ⟨hflag.1, hedge⟩

/-- What keeps an object from being collected backs it. -/
theorem backed_of_held (hs : Sound s (.release p :: tasks))
    (h : Complete graph s (.release p :: tasks)) (hp : graph p) (hlive : s.noDelete p = false)
    (hheld : Held s p (handlesLeft s tasks) o) : Backed graph s tasks o := by
  rcases hheld with hpos | ⟨q, hmem, hnot⟩
  · unfold handlesLeft at hpos
    by_cases hout : 0 < s.outside o
    · exact .outside hout
    · apply Backed.pending
      rw [← List.count_pos_iff]
      omega
  · cases hdead : s.noDelete q with
    | true => exact .doomed hdead hmem
    | false =>
      by_cases hq : graph q
      · rcases (h.backed q hq hdead).cases_release with hbacked | hleads
        · exact hbacked.member hmem
        · have hvisited := h.visited hs.live hp hlive hleads
          exact absurd ⟨hvisited, (h.flagged q hq hdead).1⟩ hnot
      · exact Backed.member (.other hq hdead) hmem

/-- A member stays one, or it is to be released. -/
theorem perform_handles (hs : Sound s (task :: tasks)) (p o : Nat) (hmem : o ∈ s.handles p) :
    o ∈ (perform task s).2.handles p ∨
      Task.release o ∈ (perform task s).1 ++ tasks := by
  cases task with
  | release a =>
    unfold perform
    dsimp only
    rcases decRef_cases hs with ⟨heq, -⟩ | ⟨-, -, heq⟩ | ⟨-, objects, -, heq⟩
    all_goals
      rw [heq]
      exact Or.inl hmem
  | clear a =>
    by_cases hpa : p = a
    · subst hpa
      unfold perform
      dsimp only
      split
      · exact Or.inl hmem
      · rename_i members hnone
        left
        rw [handles, hnone, List.reduceOption_cons_of_none] at hmem
        exact (handles_setMembers_self s p members).symm ▸ hmem
      · rename_i m members hsome
        rw [handles, hsome, List.reduceOption_cons_of_some] at hmem
        rcases List.mem_cons.mp hmem with rfl | hmem
        · exact Or.inr (List.mem_cons_self ..)
        · left
          exact (handles_setMembers_self s p members).symm ▸ hmem
    · left
      unfold perform
      dsimp only
      split
      · exact hmem
      all_goals exact (@handles_setMembers_of_ne s a p _ hpa).symm ▸ hmem
  | delete a =>
    left
    by_cases hpa : p = a
    · subst hpa
      change o ∈ (s.setMembers p (s.members p).reverse).handles p
      rw [handles_setMembers_self]
      exact ((List.reverse_perm (s.members p)).filterMap _).mem_iff.mpr hmem
    · change o ∈ (s.setMembers a (s.members a).reverse).handles p
      rwa [handles_setMembers_of_ne hpa]

/-- What the released handle refers to is backed by something else, or it is to be deleted. -/
theorem perform_release (hs : Sound s (.release p :: tasks))
    (h : Complete graph s (.release p :: tasks)) :
    Backed graph (s.decRef p).2 ((s.decRef p).1 ++ tasks) p ∨ (s.decRef p).2.noDelete p = true := by
  rcases decRef_cases hs with ⟨heq, hmore⟩ | ⟨-, -, heq⟩ | ⟨-, objects, hobjects, heq⟩
  · rw [heq]
    cases hdead : s.noDelete p with
    | true => exact Or.inr hdead
    | false =>
      left
      by_cases hp : graph p
      · rcases hmore with hdead' | ⟨-, hcycle⟩
        · rw [hdead] at hdead'
          cases hdead'
        · obtain ⟨r, -, hback, hheld⟩ := hcycle (h.flagged p hp hdead).2
          have hbacked := (backed_of_held hs h hp hdead hheld).leads hback
          apply Backed.congr _ _ _ hbacked
          · rfl
          · rfl
          · rfl
      · exact .other hp hdead
  · rw [heq]
    exact Or.inr (update_self ..)
  · rw [heq]
    right
    rw [doom_noDelete]
    exact Or.inr hobjects.mem

theorem complete_perform (task : Task) (tasks : List Task) (s : State)
    (hs : Sound s (task :: tasks)) (h : Complete graph s (task :: tasks)) :
    Complete graph (perform task s).2 ((perform task s).1 ++ tasks) := by
  have hkept := kept_perform task tasks s hs
  apply h.transfer (fun o _ => hkept.live o) hkept.handles
  intro o
  apply Backed.transfer
  · intro x hx
    apply Backed.outside
    rwa [hkept.outside]
  · intro x hx
    by_contra hlive
    rw [Bool.not_eq_true] at hlive
    rw [(hkept.live x hlive).1] at hx
    cases hx
  · exact perform_handles hs
  · intro x hx
    rcases List.mem_cons.mp hx with rfl | hx
    · exact perform_release hs h
    · exact Or.inl (.pending (List.mem_append_right _ hx))

theorem complete_settle (hs : Sound s tasks) (h : Complete graph s tasks) :
    Complete graph (s.settle tasks) [] := by
  have hend := Lib.traverse_spec (I := fun tasks s => Sound s tasks ∧ Complete graph s tasks)
    (μ := fun tasks s => s.effort tasks) ⟨hs, h⟩
    (fun task tasks t ht =>
      ⟨sound_perform task tasks t ht.1, complete_perform task tasks t ht.1 ht.2⟩)
    (fun task tasks t ht => effort_perform task tasks t ht.1) (Nat.le_refl _)
  exact hend.2

/-- The program copies and releases handles, and makes new objects. -/
def Quiet (s : State) (a : Action) : Prop :=
  Proper s a ∧ match a with
    | .new _ => True
    | .acquire _ => True
    | .release _ => True
    | .assign .. => False
    | .collectable .. => False

theorem complete_act {a : Action} (hs : Resting s) (ha : Quiet s a)
    (hlt : ∀ o, graph o → o < s.size) (h : Complete graph s []) :
    Complete graph (s.act a) [] := by
  obtain ⟨ha, hquiet⟩ := ha
  cases a with
  | new members =>
    have hempty := hs.sound.empty s.size (Nat.le_refl _)
    have hfresh : s.noDelete s.size = false := by
      rw [← Bool.not_eq_true, ← hs.sound.deleted_iff]
      exact fun hmem => Nat.lt_irrefl _ (hs.sound.deleted_lt _ hmem)
    have hnoDelete : (s.act (.new members)).noDelete = s.noDelete :=
      Function.update_eq_self_iff.mpr hfresh.symm
    have hhandles := handles_new s members hempty
    apply h.transfer
    · intro o ho hlive
      rw [hnoDelete] at hlive
      have hne : o ≠ s.size := Nat.ne_of_lt (hlt o ho)
      exact ⟨hlive, update_of_ne hne .., update_of_ne hne ..⟩
    · rw [hhandles]
      exact fun _ _ hmem => hmem
    · intro o
      apply Backed.transfer
      · intro x hx
        apply Backed.outside
        change 0 < Function.update s.outside s.size 1 x
        by_cases hxs : x = s.size
        · rw [hxs, update_self]
          exact Nat.one_pos
        · rwa [update_of_ne hxs]
      · rw [hnoDelete]
        exact fun _ hdead => hdead
      · rw [hhandles]
        exact fun _ _ hmem => Or.inl hmem
      · exact fun x hx => nomatch hx
  | acquire o =>
    apply h.transfer
    · exact fun _ _ hlive => ⟨hlive, rfl, rfl⟩
    · exact fun _ _ hmem => hmem
    · intro x
      apply Backed.transfer
      · intro x hx
        apply Backed.outside
        change 0 < Function.update s.outside o (s.outside o + 1) x
        by_cases hxo : x = o
        · rw [hxo, update_self]
          exact Nat.succ_pos _
        · rwa [update_of_ne hxo]
      · exact fun _ hdead => hdead
      · exact fun _ _ hmem => Or.inl hmem
      · exact fun x hx => nomatch hx
  | release o =>
    apply complete_settle (sound_release hs.sound ha)
    apply h.transfer
    · exact fun _ _ hlive => ⟨hlive, rfl, rfl⟩
    · exact fun _ _ hmem => hmem
    · intro x
      apply Backed.transfer
      · intro x hx
        by_cases hxo : x = o
        · rw [hxo]
          exact .pending (List.mem_singleton_self _)
        · apply Backed.outside
          change 0 < Function.update s.outside o (s.outside o - 1) x
          rwa [update_of_ne hxo]
      · exact fun _ hdead => hdead
      · exact fun _ _ hmem => Or.inl hmem
      · exact fun x hx => nomatch hx
  | assign o member value => exact hquiet.elim
  | collectable o enable => exact hquiet.elim

/-- When nothing is left to do, handles from outside and other objects are all that backs one. -/
theorem Backed.cases_resting (hs : Sound s []) (h : Backed graph s [] o) :
    Reachable s o ∨ ∃ x, ¬graph x ∧ s.noDelete x = false ∧ Leads s x o := by
  induction h with
  | outside hpos => exact Or.inl ⟨_, hpos, .refl⟩
  | pending htask => cases htask
  | @doomed p o hdead hmem =>
    have hne : s.members p ≠ [] := by
      intro hnil
      unfold handles at hmem
      rw [hnil] at hmem
      cases hmem
    rcases hs.cleared p hdead hne with htask | htask
    · cases htask
    · cases htask
  | other hgraph hlive => exact Or.inr ⟨_, hgraph, hlive, .refl⟩
  | member _ hmem ih =>
    rcases ih with ⟨r, hr, hleads⟩ | ⟨x, hx, hlive, hleads⟩
    · exact Or.inl ⟨r, hr, hleads.tail hmem⟩
    · exact Or.inr ⟨x, hx, hlive, hleads.tail hmem⟩

end Ice.GC
