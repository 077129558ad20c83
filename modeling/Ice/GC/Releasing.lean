import Ice.GC.TrialDeletion

/-!
# Releasing a handle

What the release of a handle keeps: the counts are the numbers of the handles and members that
refer to an object, an object is deleted when nothing refers to it, and everything that is asked
for is done.
-/

namespace Ice.GC

open Function (update_of_ne update_self update)
open State (doom perform)
open List (count_append count_cons_of_ne count_cons_self count_eq_zero length_cons map_map
  mem_append mem_cons mem_cons_of_mem mem_cons_self mem_map mem_singleton)

variable {s t : State} {o p q : Nat} {task : Task} {tasks : List Task} {objects : List Nat}

def Task.object : Task → Nat
  | .release o => o
  | .clear o => o
  | .delete o => o

/-- Nothing refers to an object when it is deleted: the members of the objects that refer to it
are cleared before, and no handle to it is released later. -/
def Ordered (s : State) : List Nat → List Task → Prop
  | _, [] => True
  | before, .release _ :: tasks => Ordered s before tasks
  | before, .clear o :: tasks => Ordered s (o :: before) tasks
  | before, .delete o :: tasks =>
    Task.release o ∉ tasks ∧ (∀ q, o ∈ s.handles q → q ∈ before) ∧ Ordered s before tasks

/-- What holds while so much is still to be done -/
structure Sound (s : State) (tasks : List Task) : Prop where
  bounded : ∀ p, ∀ o ∈ s.handles p, o < s.size
  empty : ∀ p, s.size ≤ p → s.members p = []
  tasks_lt : ∀ task ∈ tasks, task.object < s.size
  deleted_lt : ∀ o ∈ s.deleted, o < s.size
  held : ∀ o, o < s.size → o ∉ s.deleted →
    (s.outside o + indegree s o + tasks.count (.release o) : Int) ≤ s.ref o
  exact : ∀ o, o < s.size → s.noDelete o = false →
    s.ref o = s.outside o + indegree s o + tasks.count (.release o)
  gone : ∀ o ∈ s.deleted, (∀ p, o ∉ s.handles p) ∧ Task.release o ∉ tasks
  doomed : ∀ o, s.noDelete o = true ↔ o ∈ s.deleted ∨ Task.delete o ∈ tasks
  once : ∀ o, s.deleted.count o + tasks.count (.delete o) ≤ 1
  outside : ∀ o, 0 < s.outside o → o < s.size ∧ s.noDelete o = false
  live : ∀ p, s.noDelete p = false → ∀ o ∈ s.handles p, s.noDelete o = false
  cycle : ∀ o, s.noDelete o = true → s.cycleMember o = true → s.ref o ≤ 0
  ordered : Ordered s [] tasks
  cleared : ∀ o, s.noDelete o = true → s.members o ≠ [] →
    Task.clear o ∈ tasks ∨ Task.delete o ∈ tasks
  clears : ∀ o, Task.clear o ∈ tasks → s.noDelete o = true
  asserted : s.failed = false

theorem Ordered.mono {before before' : List Nat}
    (hhandles : ∀ q, ∀ o ∈ t.handles q, o ∈ s.handles q)
    (hbefore : ∀ q, t.handles q ≠ [] → q ∈ before → q ∈ before')
    (h : Ordered s before tasks) : Ordered t before' tasks := by
  induction tasks generalizing before before' with
  | nil => trivial
  | cons task tasks ih =>
    cases task with
    | release o => exact ih hbefore h
    | clear o =>
      apply ih _ h
      intro q hq hmem
      rcases mem_cons.mp hmem with rfl | hmem
      · exact mem_cons_self ..
      · exact mem_cons_of_mem _ (hbefore q hq hmem)
    | delete o =>
      obtain ⟨hrelease, hbefores, hrest⟩ := h
      refine ⟨hrelease, ?_, ih hbefore hrest⟩
      intro q hq
      exact hbefore q (List.ne_nil_of_mem hq) (hbefores q (hhandles q o hq))

variable {before : List Nat}

/-- The members of what was found are cleared before it is deleted. -/
theorem ordered_clears (h : Ordered s (objects.reverse ++ before) tasks) :
    Ordered s before (objects.map .clear ++ tasks) := by
  induction objects generalizing before with
  | nil => exact h
  | cons o objects ih =>
    apply ih
    rwa [List.reverse_cons, List.append_assoc] at h

theorem ordered_deletes
    (hobjects : ∀ o ∈ objects, Task.release o ∉ tasks ∧ ∀ q, o ∈ s.handles q → q ∈ before)
    (h : Ordered s before tasks) : Ordered s before (objects.map .delete ++ tasks) := by
  induction objects with
  | nil => exact h
  | cons o objects ih =>
    obtain ⟨hrelease, hbefore⟩ := hobjects o (mem_cons_self ..)
    refine ⟨?_, hbefore, ih fun p hp => hobjects p (mem_cons_of_mem o hp)⟩
    intro hmem
    rcases mem_append.mp hmem with hmem | hmem
    · obtain ⟨p, -, heq⟩ := mem_map.mp hmem
      cases heq
    · exact hrelease hmem

namespace State

variable (s : State)

/-- The state after the count is decremented -/
def lower (o : Nat) : State := { s with ref := update s.ref o (s.ref o - 1) }

/-- The object is no longer referred to. -/
def drop (o : Nat) : State :=
  { s.lower o with noDelete := update s.noDelete o true }

end State

theorem decrement_eq (s : State) (o : Nat) : s.decrement o =
    if s.ref o = 1 then (if s.noDelete o then [] else [.delete o], s.drop o)
    else ([], s.lower o) := by
  have hself : (update s.ref o (s.ref o - 1) o = 0) = (s.ref o = 1) := by
    rw [update_self, sub_eq_zero]
  unfold State.decrement
  simp only [hself]
  rfl

/-- The references to an object, members apart -/
def handlesLeft (s : State) (tasks : List Task) (o : Nat) : Nat :=
  s.outside o + tasks.count (.release o)

theorem leads_live (hlive : ∀ p, s.noDelete p = false → ∀ o ∈ s.handles p, s.noDelete o = false)
    (hp : s.noDelete p = false) (h : Leads s p o) : s.noDelete o = false := by
  induction h with
  | refl => exact hp
  | tail _ hedge ih => exact hlive _ ih _ hedge

theorem Sound.handles_nil (h : Sound s tasks) (p : Nat) (hp : s.size ≤ p) : s.handles p = [] := by
  unfold State.handles
  rw [h.empty p hp]
  rfl

theorem Sound.leads_lt (h : Sound s tasks) (hp : p < s.size) (hleads : Leads s p o) :
    o < s.size := by
  induction hleads with
  | refl => exact hp
  | tail _ hedge _ => exact h.bounded _ _ hedge

/-- What the released object and what it leads to is referred to by -/
theorem Sound.refs (h : Sound s (.release o :: tasks)) (hlive : s.noDelete o = false)
    (hleads : Leads s o p) :
    s.ref p = (if p = o then 1 else 0) + handlesLeft s tasks p + indegree s p := by
  have ho : o < s.size := h.tasks_lt _ (mem_cons_self ..)
  have hexact := h.exact p (h.leads_lt ho hleads) (leads_live h.live hlive hleads)
  unfold handlesLeft
  by_cases hpo : p = o
  · subst hpo
    rw [count_cons_self] at hexact
    rw [if_pos rfl]
    push_cast at hexact ⊢
    omega
  · rw [count_cons_of_ne] at hexact
    · rw [if_neg hpo]
      push_cast
      omega
    · intro heq
      cases heq
      exact hpo rfl

/-- Which objects are collected -/
structure Collected (s : State) (tasks : List Task) (o : Nat) (objects : List Nat) : Prop where
  mem : o ∈ objects
  nodup : objects.Nodup
  lt : ∀ p ∈ objects, p < s.size
  leads : ∀ p ∈ objects, Leads s o p
  alone : ∀ p ∈ objects, handlesLeft s tasks p = 0
  closed : ∀ p ∈ objects, ∀ q, p ∈ s.handles q → q ∈ objects

/-- The release of a handle only decrements the count, or asks for the deletion of the object, or
collects the objects to which nothing else refers. -/
theorem decRef_cases (h : Sound s (.release o :: tasks)) :
    (s.decRef o = ([], s.lower o) ∧ (s.noDelete o = true ∨ 1 < s.ref o ∧
      (s.cycleMember o = true →
        ∃ r, Leads s o r ∧ Leads s r o ∧ Held s o (handlesLeft s tasks) r))) ∨
    (s.noDelete o = false ∧ s.ref o = 1 ∧ s.decRef o = ([.delete o], s.drop o)) ∨
    (s.noDelete o = false ∧ ∃ objects, Collected s tasks o objects ∧
      s.decRef o = (objects.map .clear ++ objects.map .delete, s.doom objects)) := by
  have ho : o < s.size := h.tasks_lt _ (mem_cons_self ..)
  have hkept : o ∉ s.deleted := fun hmem => (h.gone o hmem).2 (mem_cons_self ..)
  have hheld := h.held o ho hkept
  rw [count_cons_self] at hheld
  have hpos : 0 < s.ref o := by omega
  unfold State.decRef
  rw [check_of ⟨hpos, hkept⟩]
  cases hlive : s.noDelete o with
  | true =>
    left
    refine ⟨?_, Or.inl rfl⟩
    have hcycle : s.cycleMember o = false := by
      by_contra hcycle
      have hle := h.cycle o hlive (Bool.not_eq_false _ ▸ hcycle)
      omega
    dsimp only
    rw [hcycle, if_neg (fun hand => nomatch hand.2)]
    rw [decrement_eq, hlive, if_pos rfl]
    split
    · unfold State.drop
      rw [Function.update_eq_self_iff.mpr hlive.symm]
      rfl
    · rfl
  | false =>
    by_cases hone : s.ref o = 1
    · right
      left
      refine ⟨rfl, hone, ?_⟩
      dsimp only
      rw [if_neg (by omega)]
      rw [decrement_eq, if_pos hone, hlive]
      rfl
    · have hmore : 1 < s.ref o := by omega
      have hdecrement : s.decrement o = ([], s.lower o) := by
        rw [decrement_eq, if_neg hone]
      by_cases hcycle : s.cycleMember o = true
      · dsimp only
        rw [if_pos ⟨hmore, hcycle⟩]
        rcases collect_cases h.bounded h.handles_nil ho (fun p hp => h.refs hlive hp) with
          ⟨hnone, hheld⟩ | ⟨objects, hsome, hmem, hnodup, hobjects⟩
        · left
          rw [hnone]
          dsimp only
          rw [check_of rfl, hdecrement]
          exact ⟨rfl, Or.inr ⟨hmore, fun _ => hheld⟩⟩
        · right
          right
          refine ⟨rfl, objects, ?_, ?_⟩
          · constructor
            · exact hmem
            · exact hnodup
            · exact fun p hp => (hobjects p hp).1
            · exact fun p hp => (hobjects p hp).2.1
            · exact fun p hp => (hobjects p hp).2.2.1
            · exact fun p hp => (hobjects p hp).2.2.2
          · rw [hsome]
            dsimp only
            rw [check_of rfl]
      · left
        dsimp only
        rw [if_neg (fun hand => hcycle hand.2), hdecrement]
        exact ⟨rfl, Or.inr ⟨hmore, fun hyes => absurd hyes hcycle⟩⟩

theorem indegree_pos (h : o ∈ s.handles p) (hp : p < s.size) : 0 < indegree s o := by
  have hpos : 0 < (s.handles p).count o := List.count_pos_iff.mpr h
  have hle := Finset.single_le_sum (f := fun p => (s.handles p).count o)
    (fun q _ => Nat.zero_le _) (Finset.mem_range.mpr hp)
  exact hpos.trans_le hle

theorem Sound.not_mem_handles (h : Sound s tasks) (ho : indegree s o = 0) : o ∉ s.handles p := by
  intro hmem
  have hp : p < s.size := lt_of_mem_handles h.handles_nil hmem
  have hpos := indegree_pos hmem hp
  omega

/-- A handle is released. -/
theorem sound_lower (h : Sound s (.release o :: tasks)) : Sound (s.lower o) tasks := by
  have hself : (s.lower o).ref o = s.ref o - 1 := update_self ..
  have hother {x : Nat} (hx : x ≠ o) : (s.lower o).ref x = s.ref x := update_of_ne hx ..
  have hcount {x : Nat} (hx : x ≠ o) :
      (Task.release o :: tasks).count (.release x) = tasks.count (.release x) := by
    apply count_cons_of_ne
    rintro heq
    cases heq
    exact hx rfl
  constructor
  · exact h.bounded
  · exact h.empty
  · exact fun task htask => h.tasks_lt task (mem_cons_of_mem _ htask)
  · exact h.deleted_lt
  · intro x hx hkept
    have hheld := h.held x hx hkept
    by_cases hxo : x = o
    · subst hxo
      rw [count_cons_self] at hheld
      rw [hself]
      change (s.outside x + indegree s x + tasks.count (.release x) : Int) ≤ _
      push_cast at hheld
      omega
    · rw [hcount hxo] at hheld
      rw [hother hxo]
      exact hheld
  · intro x hx hlive
    have hexact := h.exact x hx hlive
    by_cases hxo : x = o
    · subst hxo
      rw [count_cons_self] at hexact
      rw [hself]
      change _ = (s.outside x + indegree s x + tasks.count (.release x) : Int)
      push_cast at hexact
      omega
    · rw [hcount hxo] at hexact
      rw [hother hxo]
      exact hexact
  · intro x hx
    exact ⟨(h.gone x hx).1, fun hmem => (h.gone x hx).2 (mem_cons_of_mem _ hmem)⟩
  · intro x
    have hdoomed := h.doomed x
    rw [mem_cons, or_iff_right (a := Task.delete x = Task.release o) nofun] at hdoomed
    exact hdoomed
  · intro x
    have honce := h.once x
    rwa [count_cons_of_ne (show Task.release o ≠ .delete x from nofun)] at honce
  · exact h.outside
  · exact h.live
  · intro x hx hcycle
    have hle := h.cycle x hx hcycle
    by_cases hxo : x = o
    · subst hxo
      rw [hself]
      omega
    · rwa [hother hxo]
  · have hordered : Ordered s [] tasks := h.ordered
    apply hordered.mono
    · exact fun _ _ hmem => hmem
    · exact fun _ _ hmem => hmem
  · intro x hx hmembers
    have hcleared := h.cleared x hx hmembers
    rwa [mem_cons, or_iff_right (a := Task.clear x = Task.release o) nofun,
      mem_cons, or_iff_right (a := Task.delete x = Task.release o) nofun] at hcleared
  · exact fun x hx => h.clears x (mem_cons_of_mem _ hx)
  · exact h.asserted

/-- An object to which nothing refers is to be deleted. -/
theorem sound_drop (h : Sound s tasks) (ho : o < s.size) (hlive : s.noDelete o = false)
    (hzero : s.ref o = 0) :
    Sound { s with noDelete := update s.noDelete o true } (.delete o :: tasks) := by
  have hexact := h.exact o ho hlive
  rw [hzero] at hexact
  have hnobody {p : Nat} : o ∉ s.handles p := h.not_mem_handles (by omega)
  have hnone : Task.release o ∉ tasks := by
    rw [← count_eq_zero]
    omega
  have hnot : ¬(o ∈ s.deleted ∨ Task.delete o ∈ tasks) := by
    rw [← h.doomed o, hlive]
    exact Bool.false_ne_true
  rw [not_or] at hnot
  have hcount (x : Nat) : (Task.delete o :: tasks).count (.release x) = tasks.count (.release x) :=
    count_cons_of_ne (show Task.delete o ≠ .release x from nofun)
  have hdead {x : Nat} (hx : update s.noDelete o true x = false) :
      x ≠ o ∧ s.noDelete x = false := by
    by_cases hxo : x = o
    · rw [hxo, update_self] at hx
      cases hx
    · rw [update_of_ne hxo] at hx
      exact ⟨hxo, hx⟩
  constructor
  · exact h.bounded
  · exact h.empty
  · intro task htask
    rcases mem_cons.mp htask with rfl | htask
    · exact ho
    · exact h.tasks_lt task htask
  · exact h.deleted_lt
  · intro x hx hkept
    rw [hcount]
    exact h.held x hx hkept
  · intro x hx hlive
    rw [hcount]
    exact h.exact x hx (hdead hlive).2
  · intro x hx
    refine ⟨(h.gone x hx).1, fun hmem => ?_⟩
    rcases mem_cons.mp hmem with heq | hmem
    · cases heq
    · exact (h.gone x hx).2 hmem
  · intro x
    dsimp only
    by_cases hxo : x = o
    · rw [hxo, update_self]
      exact iff_of_true rfl (Or.inr (mem_cons_self ..))
    · rw [update_of_ne hxo, h.doomed x, mem_cons,
        or_iff_right (a := Task.delete x = Task.delete o)]
      intro heq
      cases heq
      exact hxo rfl
  · intro x
    by_cases hxo : x = o
    · subst hxo
      rw [count_cons_self, count_eq_zero.mpr hnot.1, count_eq_zero.mpr hnot.2]
    · rw [count_cons_of_ne]
      · exact h.once x
      · intro heq
        cases heq
        exact hxo rfl
  · intro x hx
    have hout := h.outside x hx
    refine ⟨hout.1, ?_⟩
    dsimp only at hx ⊢
    rw [update_of_ne]
    · exact hout.2
    · rintro rfl
      omega
  · intro p hp x hx
    dsimp only
    rw [update_of_ne]
    · exact h.live p (hdead hp).2 x hx
    · rintro rfl
      exact hnobody hx
  · intro x hx hcycle
    dsimp only at hx
    by_cases hxo : x = o
    · rw [hxo]
      exact hzero.le
    · rw [update_of_ne hxo] at hx
      exact h.cycle x hx hcycle
  · refine ⟨hnone, fun q hq => absurd hq hnobody, ?_⟩
    apply h.ordered.mono
    · exact fun _ _ hmem => hmem
    · exact fun _ _ hmem => hmem
  · intro x hx hmembers
    dsimp only at hx
    by_cases hxo : x = o
    · rw [hxo]
      exact Or.inr (mem_cons_self ..)
    · rw [update_of_ne hxo] at hx
      exact (h.cleared x hx hmembers).imp (mem_cons_of_mem _) (mem_cons_of_mem _)
  · intro x hx
    rcases mem_cons.mp hx with heq | hx
    · cases heq
    · dsimp only
      by_cases hxo : x = o
      · rw [hxo, update_self]
      · rw [update_of_ne hxo]
        exact h.clears x hx
  · exact h.asserted

theorem mem_collecting_release :
    Task.release p ∈ objects.map .clear ++ objects.map .delete ++ tasks ↔
      Task.release p ∈ tasks := by
  simp

theorem mem_collecting_clear :
    Task.clear p ∈ objects.map .clear ++ objects.map .delete ++ tasks ↔
      p ∈ objects ∨ Task.clear p ∈ tasks := by
  simp

theorem mem_collecting_delete :
    Task.delete p ∈ objects.map .clear ++ objects.map .delete ++ tasks ↔
      p ∈ objects ∨ Task.delete p ∈ tasks := by
  simp

theorem count_collecting_release :
    (objects.map Task.clear ++ objects.map Task.delete ++ tasks).count (Task.release p) =
      tasks.count (Task.release p) := by
  have hclear : (objects.map Task.clear).count (Task.release p) = 0 :=
    count_eq_zero.mpr (by simp)
  have hdelete : (objects.map Task.delete).count (Task.release p) = 0 :=
    count_eq_zero.mpr (by simp)
  rw [count_append, count_append, hclear, hdelete]
  omega

theorem count_collecting_delete :
    (objects.map Task.clear ++ objects.map Task.delete ++ tasks).count (Task.delete p) =
      objects.count p + tasks.count (Task.delete p) := by
  have hclear : (objects.map Task.clear).count (Task.delete p) = 0 :=
    count_eq_zero.mpr (by simp)
  have hdelete : (objects.map Task.delete).count (.delete p) = objects.count p := by
    apply List.count_map_of_injective
    intro x y heq
    cases heq
    rfl
  rw [count_append, count_append, hclear, hdelete]
  omega

theorem doom_noDelete (s : State) (objects : List Nat) (x : Nat) :
    (s.doom objects).noDelete x = true ↔ s.noDelete x = true ∨ x ∈ objects := by
  unfold doom
  rw [Bool.or_eq_true, List.contains_iff_mem]

/-- The objects that were found are to be cleared, and then deleted. -/
theorem sound_doom (h : Sound s (.release o :: tasks)) (hlive : s.noDelete o = false)
    (hobjects : Collected s tasks o objects) :
    Sound (s.doom objects) (objects.map .clear ++ objects.map .delete ++ tasks) := by
  have hdead {x : Nat} (hx : (s.doom objects).noDelete x = false) :
      x ∉ objects ∧ s.noDelete x = false := by
    have hnot := (doom_noDelete s objects x).not.mp (by rw [hx]; exact Bool.false_ne_true)
    rw [not_or, Bool.not_eq_true] at hnot
    exact hnot.symm
  have hmine {x : Nat} (hx : x ∈ objects) : s.noDelete x = false :=
    leads_live h.live hlive (hobjects.leads x hx)
  have hfew (x : Nat) : tasks.count (.release x) ≤ (Task.release o :: tasks).count (.release x) :=
    List.count_le_count_cons
  constructor
  · exact h.bounded
  · exact h.empty
  · intro task htask
    rcases mem_append.mp htask with htask | htask
    · rcases mem_append.mp htask with htask | htask
      all_goals
        obtain ⟨x, hx, rfl⟩ := mem_map.mp htask
        exact hobjects.lt x hx
    · exact h.tasks_lt task (mem_cons_of_mem _ htask)
  · exact h.deleted_lt
  · intro x hx hkept
    have hheld := h.held x hx hkept
    have hless := hfew x
    rw [count_collecting_release]
    change (s.outside x + indegree s x + tasks.count (.release x) : Int) ≤ s.ref x
    omega
  · intro x hx hlive'
    have hexact := h.exact x hx (hdead hlive').2
    rw [count_cons_of_ne] at hexact
    · rw [count_collecting_release]
      exact hexact
    · intro heq
      cases heq
      exact (hdead hlive').1 hobjects.mem
  · intro x hx
    refine ⟨(h.gone x hx).1, fun hmem => ?_⟩
    exact (h.gone x hx).2 (mem_cons_of_mem _ (mem_collecting_release.mp hmem))
  · intro x
    have hdoomed := h.doomed x
    rw [mem_cons, or_iff_right (a := Task.delete x = Task.release o) nofun] at hdoomed
    rw [doom_noDelete, hdoomed, mem_collecting_delete]
    change _ ↔ x ∈ s.deleted ∨ _
    rw [or_assoc, or_comm (a := Task.delete x ∈ tasks)]
  · intro x
    have honce := h.once x
    rw [count_cons_of_ne (show Task.release o ≠ .delete x from nofun)] at honce
    rw [count_collecting_delete]
    change s.deleted.count x + _ ≤ 1
    by_cases hx : x ∈ objects
    · have hnot : ¬(x ∈ s.deleted ∨ Task.delete x ∈ Task.release o :: tasks) := by
        rw [← h.doomed x, hmine hx]
        exact Bool.false_ne_true
      rw [not_or, mem_cons, not_or] at hnot
      have hle := List.nodup_iff_count_le_one.mp hobjects.nodup x
      rw [count_eq_zero.mpr hnot.1, count_eq_zero.mpr hnot.2.2]
      omega
    · rw [count_eq_zero.mpr hx]
      omega
  · intro x hx
    have hout := h.outside x hx
    refine ⟨hout.1, ?_⟩
    by_contra hdoom
    rw [Bool.not_eq_false, doom_noDelete, hout.2] at hdoom
    rcases hdoom with hdoom | hmem
    · cases hdoom
    · have halone := hobjects.alone x hmem
      unfold handlesLeft at halone
      change 0 < s.outside x at hx
      omega
  · intro p hp x hx
    by_contra hdoom
    rw [Bool.not_eq_false, doom_noDelete, h.live p (hdead hp).2 x hx] at hdoom
    rcases hdoom with hdoom | hmem
    · cases hdoom
    · exact (hdead hp).1 (hobjects.closed x hmem p hx)
  · intro x hx hcycle
    unfold doom at hcycle
    rw [Bool.and_eq_true, Bool.not_eq_true', ← Bool.not_eq_true, List.contains_iff_mem] at hcycle
    rcases (doom_noDelete s objects x).mp hx with hold | hmem
    · exact h.cycle x hold hcycle.1
    · exact absurd hmem hcycle.2
  · have hordered : Ordered s [] tasks := h.ordered
    rw [List.append_assoc]
    apply ordered_clears
    apply ordered_deletes
    · intro p hp
      have halone := hobjects.alone p hp
      unfold handlesLeft at halone
      constructor
      · rw [← count_eq_zero]
        omega
      · intro q hq
        rw [List.append_nil, List.mem_reverse]
        exact hobjects.closed p hp q hq
    · apply hordered.mono
      · exact fun _ _ hmem => hmem
      · exact fun _ _ hmem => nomatch hmem
  · intro x hx hmembers
    rw [mem_collecting_clear, mem_collecting_delete]
    rcases (doom_noDelete s objects x).mp hx with hold | hmem
    · rcases h.cleared x hold hmembers with hclear | hdelete
      · rcases mem_cons.mp hclear with heq | hclear
        · cases heq
        · exact Or.inl (Or.inr hclear)
      · rcases mem_cons.mp hdelete with heq | hdelete
        · cases heq
        · exact Or.inr (Or.inr hdelete)
    · exact Or.inl (Or.inl hmem)
  · intro x hx
    rw [doom_noDelete]
    rcases mem_collecting_clear.mp hx with hmem | hclear
    · exact Or.inr hmem
    · exact Or.inl (h.clears x (mem_cons_of_mem _ hclear))
  · exact h.asserted

variable {members : List (Option Nat)} {m : Nat}

def State.setMembers (s : State) (o : Nat) (members : List (Option Nat)) : State :=
  { s with members := update s.members o members }

theorem members_setMembers_self (s : State) (o : Nat) (members : List (Option Nat)) :
    (s.setMembers o members).members o = members :=
  update_self ..

theorem handles_setMembers_self (s : State) (o : Nat) (members : List (Option Nat)) :
    (s.setMembers o members).handles o = members.reduceOption := by
  unfold State.handles
  rw [members_setMembers_self]

theorem members_setMembers_of_ne (hp : p ≠ o) :
    (s.setMembers o members).members p = s.members p :=
  update_of_ne hp ..

theorem handles_setMembers_of_ne (hp : p ≠ o) :
    (s.setMembers o members).handles p = s.handles p := by
  unfold State.handles
  rw [members_setMembers_of_ne hp]

theorem indegree_setMembers (ho : o < s.size) (x : Nat) :
    indegree (s.setMembers o members) x + (s.handles o).count x =
      indegree s x + members.reduceOption.count x :=
  Lib.sum_update (fun _ l => (List.reduceOption l).count x) s.members members ho

theorem mem_handles_setMembers (hmembers : ∀ x ∈ members.reduceOption, x ∈ s.handles o)
    (hx : q ∈ (s.setMembers o members).handles p) : q ∈ s.handles p := by
  by_cases hpo : p = o
  · rw [hpo, handles_setMembers_self] at hx
    rw [hpo]
    exact hmembers q hx
  · rwa [handles_setMembers_of_ne hpo] at hx

/-- The members are put in another order, and null ones are left out. -/
theorem sound_reorder (h : Sound s tasks) (ho : o < s.size)
    (hperm : members.reduceOption.Perm (s.handles o)) (hmore : members ≠ [] → s.members o ≠ []) :
    Sound (s.setMembers o members) tasks := by
  have hmem {p x : Nat} (hx : x ∈ (s.setMembers o members).handles p) : x ∈ s.handles p :=
    mem_handles_setMembers (fun x hx => hperm.mem_iff.mp hx) hx
  have hindegree (x : Nat) : indegree (s.setMembers o members) x = indegree s x := by
    have hsum := @indegree_setMembers s o members ho x
    rw [hperm.count_eq] at hsum
    omega
  constructor
  · exact fun p x hx => h.bounded p x (hmem hx)
  · intro p hp
    rw [members_setMembers_of_ne]
    · exact h.empty p hp
    · rintro rfl
      exact absurd ho (Nat.not_lt_of_ge hp)
  · exact h.tasks_lt
  · exact h.deleted_lt
  · intro x hx hkept
    rw [hindegree]
    exact h.held x hx hkept
  · intro x hx hlive
    rw [hindegree]
    exact h.exact x hx hlive
  · exact fun x hx => ⟨fun p hp => (h.gone x hx).1 p (hmem hp), (h.gone x hx).2⟩
  · exact h.doomed
  · exact h.once
  · exact h.outside
  · exact fun p hp x hx => h.live p hp x (hmem hx)
  · exact h.cycle
  · apply h.ordered.mono
    · exact fun _ _ => hmem
    · exact fun _ _ hmem => hmem
  · intro x hx hne
    apply h.cleared x hx
    by_cases hxo : x = o
    · rw [hxo]
      apply hmore
      rwa [hxo, members_setMembers_self] at hne
    · rwa [members_setMembers_of_ne hxo] at hne
  · exact h.clears
  · exact h.asserted

section

variable (h : Sound s (.clear o :: tasks))

include h

theorem sound_clear_nil (hnil : s.members o = []) :
    Sound s tasks := by
  have hcount (x : Nat) : (Task.clear o :: tasks).count (.release x) = tasks.count (.release x) :=
    count_cons_of_ne (show Task.clear o ≠ .release x from nofun)
  constructor
  · exact h.bounded
  · exact h.empty
  · exact fun task htask => h.tasks_lt task (mem_cons_of_mem _ htask)
  · exact h.deleted_lt
  · intro x hx hkept
    rw [← hcount]
    exact h.held x hx hkept
  · intro x hx hlive
    rw [← hcount]
    exact h.exact x hx hlive
  · exact fun x hx =>
      ⟨(h.gone x hx).1, fun hmem => (h.gone x hx).2 (mem_cons_of_mem _ hmem)⟩
  · intro x
    have hdoomed := h.doomed x
    rwa [mem_cons, or_iff_right (a := Task.delete x = Task.clear o) nofun] at hdoomed
  · intro x
    have honce := h.once x
    rwa [count_cons_of_ne (show Task.clear o ≠ .delete x from nofun)] at honce
  · exact h.outside
  · exact h.live
  · exact h.cycle
  · have hordered : Ordered s [o] tasks := h.ordered
    apply hordered.mono
    · exact fun _ _ hmem => hmem
    · intro q hq hmem
      rw [mem_singleton.mp hmem] at hq
      unfold State.handles at hq
      rw [hnil] at hq
      exact absurd rfl hq
  · intro x hx hmembers
    rcases h.cleared x hx hmembers with hclear | hdelete
    · rcases mem_cons.mp hclear with heq | hclear
      · cases heq
        exact absurd hnil hmembers
      · exact Or.inl hclear
    · rcases mem_cons.mp hdelete with heq | hdelete
      · cases heq
      · exact Or.inr hdelete
  · exact fun x hx => h.clears x (mem_cons_of_mem _ hx)
  · exact h.asserted

theorem sound_clear_none (hnone : s.members o = none :: members) :
    Sound (s.setMembers o members) (.clear o :: tasks) := by
  have ho : o < s.size := h.tasks_lt _ (mem_cons_self ..)
  apply sound_reorder h ho
  · unfold State.handles
    rw [hnone, List.reduceOption_cons_of_none]
  · intro _
    rw [hnone]
    exact List.cons_ne_nil none members

theorem sound_clear_some
    (hsome : s.members o = some m :: members) :
    Sound (s.setMembers o members) (.release m :: .clear o :: tasks) := by
  have ho : o < s.size := h.tasks_lt _ (mem_cons_self ..)
  have hhandles : s.handles o = m :: members.reduceOption := by
    unfold State.handles
    rw [hsome, List.reduceOption_cons_of_some]
  have hmem {p x : Nat} (hx : x ∈ (s.setMembers o members).handles p) : x ∈ s.handles p := by
    apply mem_handles_setMembers _ hx
    intro x hx
    rw [hhandles]
    exact mem_cons_of_mem m hx
  have hm : m ∈ s.handles o := by
    rw [hhandles]
    exact mem_cons_self ..
  have hrefs (x : Nat) : indegree (s.setMembers o members) x +
      (Task.release m :: .clear o :: tasks).count (.release x) =
        indegree s x + (Task.clear o :: tasks).count (.release x) := by
    have hsum := @indegree_setMembers s o members ho x
    rw [hhandles] at hsum
    by_cases hxm : m = x
    · subst hxm
      rw [count_cons_self] at hsum ⊢
      omega
    · rw [count_cons_of_ne hxm] at hsum
      rw [count_cons_of_ne]
      · omega
      · intro heq
        cases heq
        exact hxm rfl
  constructor
  · exact fun p x hx => h.bounded p x (hmem hx)
  · intro p hp
    rw [members_setMembers_of_ne]
    · exact h.empty p hp
    · rintro rfl
      exact absurd ho (Nat.not_lt_of_ge hp)
  · intro task htask
    rcases mem_cons.mp htask with rfl | htask
    · exact h.bounded o m hm
    · exact h.tasks_lt task htask
  · exact h.deleted_lt
  · intro x hx hkept
    have hheld := h.held x hx hkept
    have hrefs := hrefs x
    change (s.outside x + _ + _ : Int) ≤ s.ref x
    omega
  · intro x hx hlive
    have hexact := h.exact x hx hlive
    have hrefs := hrefs x
    change s.ref x = (s.outside x + _ + _ : Int)
    omega
  · intro x hx
    have hgone := h.gone x hx
    refine ⟨fun p hp => hgone.1 p (hmem hp), fun htask => ?_⟩
    rcases mem_cons.mp htask with heq | htask
    · cases heq
      exact hgone.1 o hm
    · exact hgone.2 htask
  · intro x
    have hdoomed := h.doomed x
    rw [mem_cons, or_iff_right (a := Task.delete x = Task.release m) nofun]
    exact hdoomed
  · intro x
    have honce := h.once x
    rwa [count_cons_of_ne (show Task.release m ≠ .delete x from nofun)]
  · exact h.outside
  · exact fun p hp x hx => h.live p hp x (hmem hx)
  · exact h.cycle
  · have hordered : Ordered s [o] tasks := h.ordered
    have hmono : Ordered (s.setMembers o members) [o] tasks := by
      apply hordered.mono
      · exact fun _ _ => hmem
      · exact fun _ _ hmem => hmem
    exact hmono
  · intro x hx hne
    have hne' : s.members x ≠ [] := by
      by_cases hxo : x = o
      · rw [hxo, hsome]
        exact List.cons_ne_nil (some m) members
      · rwa [members_setMembers_of_ne hxo] at hne
    exact (h.cleared x hx hne').imp (mem_cons_of_mem _) (mem_cons_of_mem _)
  · intro x hx
    apply h.clears x
    rcases mem_cons.mp hx with heq | hx
    · cases heq
    · exact hx
  · exact h.asserted

end

/-- The object is deleted, and its members are still to be released. -/
theorem sound_deleted (h : Sound s (.delete o :: tasks)) :
    Sound { s with deleted := s.deleted ++ [o] } (.clear o :: tasks) := by
  have ho : o < s.size := h.tasks_lt _ (mem_cons_self ..)
  obtain ⟨hnone, hnobody, hordered⟩ := h.ordered
  have hcount (x : Nat) : (Task.clear o :: tasks).count (.release x) =
      (Task.delete o :: tasks).count (.release x) := by
    rw [count_cons_of_ne (show Task.clear o ≠ .release x from nofun),
      count_cons_of_ne (show Task.delete o ≠ .release x from nofun)]
  constructor
  · exact h.bounded
  · exact h.empty
  · intro task htask
    rcases mem_cons.mp htask with rfl | htask
    · exact ho
    · exact h.tasks_lt task (mem_cons_of_mem _ htask)
  · intro x hx
    rcases mem_append.mp hx with hx | hx
    · exact h.deleted_lt x hx
    · rw [mem_singleton.mp hx]
      exact ho
  · intro x hx hkept
    rw [hcount]
    exact h.held x hx fun hmem => hkept (List.mem_append_left _ hmem)
  · intro x hx hlive
    rw [hcount]
    exact h.exact x hx hlive
  · intro x hx
    rcases mem_append.mp hx with hx | hx
    · refine ⟨(h.gone x hx).1, fun htask => ?_⟩
      rcases mem_cons.mp htask with heq | htask
      · cases heq
      · exact (h.gone x hx).2 (mem_cons_of_mem _ htask)
    · rw [mem_singleton.mp hx]
      refine ⟨fun p hp => absurd (hnobody p hp) List.not_mem_nil, fun htask => ?_⟩
      rcases mem_cons.mp htask with heq | htask
      · cases heq
      · exact hnone htask
  · intro x
    have hdoomed := h.doomed x
    rw [mem_cons, Task.delete.injEq] at hdoomed
    rw [mem_cons, or_iff_right (a := Task.delete x = Task.clear o) nofun, mem_append,
      mem_singleton, or_assoc]
    exact hdoomed
  · intro x
    have honce := h.once x
    rw [count_cons_of_ne (show Task.clear o ≠ .delete x from nofun), count_append]
    by_cases hxo : o = x
    · subst hxo
      rw [count_cons_self] at honce
      rw [List.count_singleton_self]
      omega
    · rw [count_cons_of_ne] at honce
      · have hsingle : [o].count x = 0 := by
          rw [count_eq_zero, mem_singleton]
          exact fun heq => hxo heq.symm
        rw [hsingle]
        omega
      · intro heq
        cases heq
        exact hxo rfl
  · exact h.outside
  · exact h.live
  · exact h.cycle
  · have hmono : Ordered { s with deleted := s.deleted ++ [o] } [o] tasks := by
      apply hordered.mono
      · exact fun _ _ hmem => hmem
      · exact fun _ _ hmem => nomatch hmem
    exact hmono
  · intro x hx hne
    rcases h.cleared x hx hne with hclear | hdelete
    · rcases mem_cons.mp hclear with heq | hclear
      · cases heq
      · exact Or.inl (mem_cons_of_mem _ hclear)
    · rcases mem_cons.mp hdelete with heq | hdelete
      · cases heq
        exact Or.inl (mem_cons_self ..)
      · exact Or.inr (mem_cons_of_mem _ hdelete)
  · intro x hx
    rcases mem_cons.mp hx with heq | hx
    · cases heq
      exact (h.doomed _).mpr (Or.inr (mem_cons_self ..))
    · exact h.clears x (mem_cons_of_mem _ hx)
  · exact h.asserted

theorem sound_delete (h : Sound s (.delete o :: tasks)) :
    Sound (perform (.delete o) s).2 (.clear o :: tasks) := by
  have ho : o < s.size := h.tasks_lt _ (mem_cons_self ..)
  have hkept : o ∉ s.deleted := by
    have honce := h.once o
    rw [count_cons_self] at honce
    rw [← count_eq_zero]
    omega
  have hperm : (s.members o).reverse.reduceOption.Perm (s.handles o) :=
    (List.reverse_perm _).filterMap _
  have hreversed := sound_reorder (sound_deleted h) ho hperm
    fun hne hnil => hne (List.reverse_eq_nil_iff.mpr hnil)
  unfold perform
  dsimp only
  rw [check_of hkept]
  exact hreversed

/-- One task, one case for each kind -/
theorem sound_perform (task : Task) (tasks : List Task) (s : State)
    (h : Sound s (task :: tasks)) :
    Sound (perform task s).2 ((perform task s).1 ++ tasks) := by
  cases task with
  | release o =>
    unfold perform
    dsimp only
    rcases decRef_cases h with ⟨heq, -⟩ | ⟨hlive, hone, heq⟩ | ⟨hlive, objects, hobjects, heq⟩
    · rw [heq]
      exact sound_lower h
    · rw [heq]
      apply sound_drop (sound_lower h) (h.tasks_lt _ (mem_cons_self ..)) hlive
      change update s.ref o (s.ref o - 1) o = 0
      rw [update_self, hone]
      rfl
    · rw [heq]
      exact sound_doom h hlive hobjects
  | clear o =>
    unfold perform
    dsimp only
    split
    · rename_i hnil
      exact sound_clear_nil h hnil
    · rename_i members hnone
      exact sound_clear_none h hnone
    · rename_i m members hsome
      exact sound_clear_some h hsome
  | delete o => exact sound_delete h

/-- What the tasks ask for, and what the objects may ask for -/
def weights (tasks : List Task) : Nat := (tasks.map Task.weight).sum

theorem weights_append (tasks tasks' : List Task) :
    weights (tasks ++ tasks') = weights tasks + weights tasks' := by
  unfold weights
  rw [List.map_append, List.sum_append]

theorem weights_collecting (objects : List Nat) :
    weights (objects.map .clear ++ objects.map .delete) = 3 * objects.length := by
  have hclears : weights (objects.map .clear) = objects.length := by
    unfold weights
    rw [map_map]
    change (objects.map fun _ => 1).sum = _
    rw [List.map_const', List.sum_replicate_nat, Nat.mul_one]
  have hdeletes : weights (objects.map .delete) = 2 * objects.length := by
    unfold weights
    rw [map_map]
    change (objects.map fun _ => 2).sum = _
    rw [List.map_const', List.sum_replicate_nat, Nat.mul_comm]
  rw [weights_append, hclears, hdeletes]
  omega

/-- What objects that are not deleted may still ask for -/
def alive (s : State) : Nat := Lib.remaining s.size (fun _ => 4) s.noDelete

theorem alive_drop (ho : o < s.size) (hlive : s.noDelete o = false) :
    alive { s with noDelete := update s.noDelete o true } + 4 = alive s :=
  Lib.remaining_update ho hlive

theorem alive_doom (hlt : ∀ p ∈ objects, p < s.size) (hlive : ∀ p ∈ objects, s.noDelete p = false)
    (hnodup : objects.Nodup) : alive (s.doom objects) + 4 * objects.length = alive s := by
  induction objects generalizing s with
  | nil =>
    unfold alive doom
    simp
  | cons o objects ih =>
    rw [List.nodup_cons] at hnodup
    have hdrop := alive_drop (hlt o (mem_cons_self ..)) (hlive o (mem_cons_self ..))
    have hrest := @ih { s with noDelete := update s.noDelete o true }
      (fun p hp => hlt p (mem_cons_of_mem o hp))
      (fun p hp => by
        dsimp only
        rw [update_of_ne]
        · exact hlive p (mem_cons_of_mem o hp)
        · rintro rfl
          exact hnodup.1 hp)
      hnodup.2
    have heq : (s.doom (o :: objects)).noDelete = (doom
        { s with noDelete := update s.noDelete o true } objects).noDelete := by
      funext x
      unfold doom
      dsimp only
      rw [List.contains_cons]
      by_cases hxo : x = o
      · rw [hxo, update_self, beq_self_eq_true, Bool.true_or, Bool.or_true]
      · rw [update_of_ne hxo, beq_eq_false_iff_ne.mpr hxo, Bool.false_or]
    have hsame : alive (s.doom (o :: objects)) =
        alive (doom { s with noDelete := update s.noDelete o true } objects) := by
      unfold alive
      rw [heq]
      rfl
    rw [hsame, length_cons]
    omega

/-- What the members may ask for -/
def slots (s : State) : Nat := ∑ o ∈ Finset.range s.size, 2 * (s.members o).length

theorem slots_setMembers (ho : o < s.size) (members : List (Option Nat)) :
    slots (s.setMembers o members) + 2 * (s.members o).length = slots s + 2 * members.length :=
  Lib.sum_update (fun _ l => 2 * List.length l) s.members members ho

theorem effort_eq (s : State) (tasks : List Task) :
    s.effort tasks = weights tasks + slots s + alive s := rfl

/-- Each task lowers the effort. -/
theorem effort_perform (task : Task) (tasks : List Task) (s : State)
    (h : Sound s (task :: tasks)) :
    (perform task s).2.effort ((perform task s).1 ++ tasks) <
      s.effort (task :: tasks) := by
  have hcons : weights (task :: tasks) = task.weight + weights tasks := rfl
  have ho : task.object < s.size := h.tasks_lt _ (mem_cons_self ..)
  rw [effort_eq, effort_eq, weights_append, hcons]
  cases task with
  | release o =>
    unfold perform
    dsimp only
    rcases decRef_cases h with ⟨heq, -⟩ | ⟨hlive, hone, heq⟩ | ⟨hlive, objects, hobjects, heq⟩
    · rw [heq]
      change 0 + weights tasks + slots s + alive s < 1 + weights tasks + slots s + alive s
      omega
    · have hdrop := alive_drop ho hlive
      rw [heq]
      change 2 + weights tasks + slots s + alive (s.drop o) <
        1 + weights tasks + slots s + alive s
      change alive (s.drop o) + 4 = _ at hdrop
      omega
    · have hdoom := alive_doom hobjects.lt
        (fun p hp => leads_live h.live hlive (hobjects.leads p hp)) hobjects.nodup
      rw [heq]
      dsimp only
      rw [weights_collecting]
      change _ + slots s + _ < 1 + _ + slots s + _
      have hpos := List.length_pos_of_mem hobjects.mem
      omega
  | clear o =>
    change o < s.size at ho
    unfold perform
    dsimp only
    split
    · change 0 + weights tasks + slots s + alive s < 1 + weights tasks + slots s + alive s
      omega
    · rename_i members hnone
      have hslots := slots_setMembers ho members
      change 1 + weights tasks + slots (s.setMembers o members) + alive s <
        1 + weights tasks + slots s + alive s
      rw [hnone, length_cons] at hslots
      omega
    · rename_i m members hsome
      have hslots := slots_setMembers ho members
      change 2 + weights tasks + slots (s.setMembers o members) + alive s <
        1 + weights tasks + slots s + alive s
      rw [hsome, length_cons] at hslots
      omega
  | delete o =>
    change o < s.size at ho
    have hslots := slots_setMembers ho (s.members o).reverse
    rw [List.length_reverse] at hslots
    change 1 + weights tasks + slots (s.setMembers o (s.members o).reverse) + alive s <
      2 + weights tasks + slots s + alive s
    omega

theorem sound_settle (h : Sound s tasks) : Sound (s.settle tasks) [] :=
  Lib.traverse_spec (I := fun tasks s => Sound s tasks) (μ := fun tasks s => s.effort tasks) h
    sound_perform effort_perform (Nat.le_refl _)

/-- What releasing handles does not change -/
structure Kept (s t : State) : Prop where
  size : t.size = s.size
  outside : t.outside = s.outside
  live : ∀ o, t.noDelete o = false → s.noDelete o = false ∧
    t.collectable o = s.collectable o ∧ t.cycleMember o = s.cycleMember o
  handles : ∀ p, ∀ o ∈ t.handles p, o ∈ s.handles p

theorem Kept.refl (s : State) : Kept s s :=
  ⟨rfl, rfl, fun _ hlive => ⟨hlive, rfl, rfl⟩, fun _ _ hmem => hmem⟩

theorem Kept.trans {u : State} (hst : Kept s t) (htu : Kept t u) : Kept s u := by
  constructor
  · exact htu.size.trans hst.size
  · exact htu.outside.trans hst.outside
  · intro o hlive
    obtain ⟨hlive, hcollectable, hcycle⟩ := htu.live o hlive
    obtain ⟨hlive, hcollectable', hcycle'⟩ := hst.live o hlive
    exact ⟨hlive, hcollectable.trans hcollectable', hcycle.trans hcycle'⟩
  · exact fun p o hmem => hst.handles p o (htu.handles p o hmem)

theorem kept_setMembers (hmembers : ∀ x ∈ members.reduceOption, x ∈ s.handles o) :
    Kept s (s.setMembers o members) := by
  constructor
  · rfl
  · rfl
  · exact fun _ hlive => ⟨hlive, rfl, rfl⟩
  · exact fun p x hx => mem_handles_setMembers hmembers hx

/-- A task only takes handles away. -/
theorem kept_perform (task : Task) (tasks : List Task) (s : State)
    (h : Sound s (task :: tasks)) : Kept s (perform task s).2 := by
  cases task with
  | release o =>
    unfold perform
    dsimp only
    rcases decRef_cases h with ⟨heq, -⟩ | ⟨-, -, heq⟩ | ⟨-, objects, -, heq⟩
    · rw [heq]
      exact ⟨rfl, rfl, fun _ hlive => ⟨hlive, rfl, rfl⟩, fun _ _ hmem => hmem⟩
    · rw [heq]
      constructor
      · rfl
      · rfl
      · intro x hx
        change update s.noDelete o true x = false at hx
        by_cases hxo : x = o
        · rw [hxo, update_self] at hx
          cases hx
        · rw [update_of_ne hxo] at hx
          exact ⟨hx, rfl, rfl⟩
      · exact fun _ _ hmem => hmem
    · rw [heq]
      constructor
      · rfl
      · rfl
      · intro x hx
        change (s.noDelete x || objects.contains x) = false at hx
        rw [Bool.or_eq_false_iff] at hx
        refine ⟨hx.1, rfl, ?_⟩
        change (s.cycleMember x && !objects.contains x) = _
        rw [hx.2, Bool.not_false, Bool.and_true]
      · exact fun _ _ hmem => hmem
  | clear o =>
    unfold perform
    dsimp only
    split
    · exact .refl s
    · rename_i members hnone
      apply kept_setMembers
      intro x hx
      unfold State.handles
      rwa [hnone, List.reduceOption_cons_of_none]
    · rename_i m members hsome
      apply kept_setMembers
      intro x hx
      unfold State.handles
      rw [hsome, List.reduceOption_cons_of_some]
      exact mem_cons_of_mem m hx
  | delete o =>
    constructor
    · rfl
    · rfl
    · exact fun _ hlive => ⟨hlive, rfl, rfl⟩
    · intro p x hx
      apply mem_handles_setMembers _ hx
      intro x hx
      exact ((List.reverse_perm (s.members o)).filterMap _).mem_iff.mp hx

theorem kept_settle (h : Sound s tasks) : Kept s (s.settle tasks) := by
  have hend := Lib.traverse_invariant (I := fun tasks t => Sound t tasks ∧ Kept s t)
    (s.effort tasks) ⟨h, .refl s⟩ fun task tasks t ht =>
      ⟨sound_perform task tasks t ht.1, ht.2.trans (kept_perform task tasks t ht.1)⟩
  exact hend.2

end Ice.GC
