import Ice.GC.Completeness

/-!
# Collection over whole runs

No program loses an object that it can still reach, and no object is deleted twice. A graph that
was marked as a whole is deleted when it is no longer reachable, except for what an object outside
of it refers to.
-/

namespace Ice.GC

variable {s₀ s t u : State} {a : Action} {o p q r : Nat} {value : Option Nat}

/-- Every count is the number of the handles from outside and of the members. -/
structure Counted (s : State) : Prop where
  bounded : ∀ p, ∀ o ∈ s.handles p, o < s.size
  empty : ∀ p, s.size ≤ p → s.members p = []
  outside : ∀ o, 0 < s.outside o → o < s.size
  counts : ∀ o, o < s.size → s.ref o = s.outside o + indegree s o
  flags : ∀ o, s.cycleMember o = s.collectable o
  noDelete : ∀ o, s.noDelete o = false
  deleted : s.deleted = []
  failed : s.failed = false

theorem Counted.resting (h : Counted s) : Resting s := by
  have hexact (x : Nat) (hx : x < s.size) :
      s.ref x = s.outside x + indegree s x + ([] : List Task).count (.release x) := by
    rw [h.counts x hx]
    exact (add_zero _).symm
  constructor
  · constructor
    · exact h.bounded
    · exact h.empty
    · exact fun task htask => nomatch htask
    · rw [h.deleted]
      exact fun x hx => nomatch hx
    · exact fun x hx _ => (hexact x hx).ge
    · exact fun x hx _ => hexact x hx
    · rw [h.deleted]
      exact fun x hx => nomatch hx
    · intro x
      rw [h.noDelete, h.deleted]
      simp
    · intro x
      rw [h.deleted]
      exact Nat.zero_le _
    · exact fun x hx => ⟨h.outside x hx, h.noDelete x⟩
    · exact fun p _ x _ => h.noDelete x
    · intro x hx
      rw [h.noDelete] at hx
      cases hx
    · trivial
    · intro x hx
      rw [h.noDelete] at hx
      cases hx
    · exact fun x hx => nomatch hx
    · exact h.failed
  · intro o _ hflag
    rw [h.flags, hflag]

theorem counted_empty : Counted {} := by
  constructor
  · exact fun p o ho => nomatch ho
  · exact fun p _ => rfl
  · exact fun o ho => absurd ho (Nat.lt_irrefl 0)
  · exact fun o ho => absurd ho (Nat.not_lt_zero o)
  · exact fun o => rfl
  · exact fun o => rfl
  · rfl
  · rfl

theorem resting_reach (h₀ : Counted s₀) (hs : Lib.Reach step Proper s₀ s) : Resting s := by
  apply hs.invariant h₀.resting
  intro s a t h ha ht
  cases Option.some.inj ht
  exact resting_act h ha

/-- The flag of the object is left from an earlier call. -/
def Stale (s : State) (r o : Nat) : Prop := s.collectable o = true ∧ ¬Cleared s r o

/-- The call comes to the object. -/
def Found (s : State) (r o : Nat) : Prop :=
  Relation.ReflTransGen (fun p q => q ∈ s.handles p ∧ ¬Stale s r q) r o

theorem not_stale_self (s : State) (r : Nat) : ¬Stale s r r := fun h => h.2 ⟨h.1, .refl⟩

/-- The state after the call has the old members. -/
theorem collectable_frame (h : Resting s) (hr : r < s.size) :
    ∃ collectable cycleMember : Nat → Bool, s.act (.collectable r true) =
      { s with collectable := collectable, cycleMember := cycleMember } ∧
      ∀ o, s.noDelete o = false → Stale s r o ∨ Found s r o →
        collectable o = true ∧ cycleMember o = true := by
  obtain ⟨collectable, cycleMember, heq, hflags⟩ := clearCollectable_spec h.sound.bounded hr
  have hstale (x : Nat) : collectable x = true ↔ Stale s r x := by
    by_cases hx : Cleared s r x
    · rw [((hflags x).1 hx).1]
      exact iff_of_false Bool.false_ne_true fun hstale => hstale.2 hx
    · rw [((hflags x).2 hx).1]
      exact (and_iff_left hx).symm
  have hbounded : ∀ p, ∀ o ∈ (s.clearCollectable r).handles p,
      o < (s.clearCollectable r).size := by
    rw [heq]
    exact h.sound.bounded
  have hr' : r < (s.clearCollectable r).size := by
    rw [heq]
    exact hr
  obtain ⟨collectable', cycleMember', heq', hflags'⟩ := markCollectable_spec hbounded hr'
  refine ⟨collectable', cycleMember', ?_, ?_⟩
  · change (s.clearCollectable r).markCollectable r = _
    rw [heq', heq]
  · intro o hlive ho
    have hmarked {x : Nat} (hfound : Found s r x) : Marked (s.clearCollectable r) r x := by
      rw [heq]
      constructor
      · exact Bool.not_eq_true _ ▸ (hstale r).not.mpr (not_stale_self s r)
      · induction hfound with
        | refl => exact .refl
        | tail _ hedge ih =>
          exact ih.tail ⟨hedge.1, Bool.not_eq_true _ ▸ (hstale _).not.mpr hedge.2⟩
    rcases ho with ho | ho
    · have hflag := (hstale o).mpr ho
      have hnot : ¬Marked (s.clearCollectable r) r o := by
        intro hmarked
        have hfree := hmarked.collectable
        rw [heq] at hfree
        dsimp only at hfree
        rw [hflag] at hfree
        cases hfree
      obtain ⟨hcollectable, hcycle⟩ := (hflags' o).2 hnot
      rw [hcollectable, hcycle, heq]
      refine ⟨hflag, ?_⟩
      dsimp only
      rw [((hflags o).2 ho.2).2]
      exact h.flagged o hlive ho.1
    · exact (hflags' o).1 (hmarked ho)

theorem complete_collectable (h : Resting s) (hr : Reachable s r)
    (hfound : ∀ o, Leads s r o → Stale s r o ∨ Found s r o) :
    Complete (Leads s r) (s.act (.collectable r true)) [] := by
  obtain ⟨hlt, hlive⟩ := h.sound.reachable hr
  obtain ⟨collectable, cycleMember, heq, hflags⟩ := collectable_frame h hlt
  rw [heq]
  constructor
  · exact fun p hp o ho => hp.tail ho
  · exact fun o ho hlive => hflags o hlive (hfound o ho)
  · intro o ho _
    obtain ⟨x, hx, hleads⟩ := hr
    have hbacked : Backed (Leads s r) s [] o := Backed.leads (.outside hx) (hleads.trans ho)
    apply Backed.congr _ _ _ hbacked
    · rfl
    · rfl
    · rfl

/-- While the graph is not changed, it stays complete. -/
theorem complete_reach {graph : Nat → Prop} (ht : Resting t) (hlt : ∀ o, graph o → o < t.size)
    (h : Complete graph t []) (hu : Lib.Reach step Quiet t u) :
    Resting u ∧ Complete graph u [] ∧ t.size ≤ u.size := by
  apply hu.invariant ⟨ht, h, Nat.le_refl _⟩
  rintro s a s' ⟨hs, hcomplete, hsize⟩ ha heq
  cases Option.some.inj heq
  refine ⟨resting_act hs ha.1,
    complete_act hs ha (fun o ho => (hlt o ho).trans_le hsize) hcomplete, hsize.trans ?_⟩
  obtain ⟨ha, hquiet⟩ := ha
  cases a with
  | new members => exact Nat.le_succ _
  | acquire o => exact Nat.le_refl _
  | release o => exact (kept_settle (sound_release hs.sound ha)).size.ge
  | assign o member value => exact hquiet.elim
  | collectable o enable => exact hquiet.elim

/-- What is reachable is never deleted, nothing is deleted twice, and the assertions hold. A graph
to all of which the call came is deleted, as far as neither a handle from outside nor an object
that is not part of it leads to it. -/
theorem collected_of_found (h₀ : Counted s₀) (hs : Lib.Reach step Proper s₀ s) :
    ((∀ o, Reachable s o → o ∉ s.deleted) ∧ s.deleted.Nodup ∧ s.failed = false) ∧
    ∀ r, Reachable s r → (∀ o, Leads s r o → Stale s r o ∨ Found s r o) →
      ∀ u, Lib.Reach step Quiet (s.act (.collectable r true)) u →
        ∀ o, Leads s r o → o ∈ u.deleted ∨ Reachable u o ∨
          ∃ x, ¬Leads s r x ∧ x ∉ u.deleted ∧ Leads u x o := by
  have h := resting_reach h₀ hs
  refine ⟨⟨?_, ?_, h.sound.asserted⟩, ?_⟩
  · intro o ho hdeleted
    rw [h.sound.deleted_iff, (h.sound.reachable ho).2] at hdeleted
    cases hdeleted
  · rw [List.nodup_iff_count_le_one]
    exact h.sound.once
  · intro r hr hfound u hu o ho
    obtain ⟨hrlt, hrlive⟩ := h.sound.reachable hr
    obtain ⟨collectable, cycleMember, heq, -⟩ := collectable_frame h hrlt
    have ht : Resting (s.act (.collectable r true)) := resting_act h hr
    have hlt : ∀ o, Leads s r o → o < (s.act (.collectable r true)).size := by
      intro o ho
      rw [heq]
      exact h.sound.leads_lt hrlt ho
    obtain ⟨hrest, hcomplete, -⟩ := complete_reach ht hlt (complete_collectable h hr hfound) hu
    by_cases hdeleted : o ∈ u.deleted
    · exact Or.inl hdeleted
    · right
      rw [hrest.sound.deleted_iff, Bool.not_eq_true] at hdeleted
      rcases (hcomplete.backed o ho hdeleted).cases_resting hrest.sound with
        hreach | ⟨x, hx, hlive, hleads⟩
      · exact Or.inl hreach
      · refine Or.inr ⟨x, hx, ?_, hleads⟩
        rw [hrest.sound.deleted_iff, hlive]
        exact Bool.false_ne_true

/-- A program that only uses objects to which it has handles -/
def direct (s : State) : Action → Bool
  | .new _ => true
  | .acquire o => decide (0 < s.outside o)
  | .release o => decide (0 < s.outside o)
  | .assign o member value =>
    decide (0 < s.outside o) && decide (member < (s.members o).length) &&
      value.all fun q => decide (0 < s.outside q)
  | .collectable o _ => decide (0 < s.outside o)

theorem proper_of_direct (h : direct s a = true) : Proper s a := by
  have hreachable {o : Nat} (ho : decide (0 < s.outside o) = true) : Reachable s o :=
    ⟨o, of_decide_eq_true ho, .refl⟩
  cases a with
  | new members => trivial
  | acquire o => exact hreachable h
  | release o =>
    have hpos : 0 < s.outside o := of_decide_eq_true h
    exact hpos
  | assign o member value =>
    unfold direct at h
    rw [Bool.and_eq_true, Bool.and_eq_true, decide_eq_true_iff, decide_eq_true_iff] at h
    refine ⟨⟨o, h.1.1, .refl⟩, h.1.2, ?_⟩
    intro q hq
    rw [hq] at h
    exact hreachable h.2
  | collectable o enable => exact hreachable h

def directly (s : State) : List Action → Bool
  | [] => true
  | a :: program => direct s a && directly (s.act a) program

def State.acts (s : State) (program : List Action) : State := program.foldl State.act s

variable {program : List Action}

theorem reach_of_directly {P : State → Action → Prop}
    (hs : Lib.Reach step P s₀ s) (hP : ∀ a ∈ program, ∀ s, direct s a = true → P s a)
    (h : directly s program = true) : Lib.Reach step P s₀ (s.acts program) := by
  induction program generalizing s with
  | nil => exact hs
  | cons a program ih =>
    unfold directly at h
    rw [Bool.and_eq_true] at h
    apply ih
    · exact hs.tail (hP a (List.mem_cons_self ..) s h.1) rfl
    · exact fun b hb => hP b (List.mem_cons_of_mem a hb)
    · exact h.2

theorem quiet_of_releases {program : List Nat} (h : directly t (program.map .release) = true) :
    Lib.Reach step Quiet t (t.acts (program.map .release)) := by
  apply reach_of_directly .refl _ h
  intro a ha s hdirect
  obtain ⟨o, -, rfl⟩ := List.mem_map.mp ha
  exact ⟨proper_of_direct hdirect, trivial⟩

theorem resting_quiet (ht : Resting t) (hu : Lib.Reach step Quiet t u) : Resting u := by
  apply hu.invariant ht
  intro s a s' h ha heq
  cases Option.some.inj heq
  exact resting_act h ha.1

theorem not_reachable_of_outside (h : Resting s) (hout : ∀ x < s.size, s.outside x = 0) :
    ¬Reachable s o := by
  rintro ⟨x, hx, -⟩
  have hzero := hout x (h.sound.outside x hx).1
  omega

/-- The graph of an object is marked, and handles are released. -/
def State.marked (s : State) (r : Nat) (released : List Nat) : State :=
  (s.act (.collectable r true)).acts (released.map .release)

/-- Where nothing is marked yet, a call comes to the whole graph. -/
theorem found_of_unmarked (h : ∀ p, ∀ q ∈ s.handles p, s.collectable q = false)
    (ho : Leads s r o) : Found s r o := by
  refine Relation.ReflTransGen.mono (fun p q hq => ?_) _ _ ho
  refine ⟨hq, fun hstale => ?_⟩
  exact Bool.false_ne_true ((h p q hq).symm.trans hstale.1)

/-- Three objects in a cycle -/
def cycle : List Action :=
  [.new 1, .new 1, .new 1, .assign 0 0 (some 1), .assign 1 0 (some 2), .assign 2 0 (some 0)]

theorem collected_of_found_cycle :
    [0, 1, 2] ⊆ ((State.acts {} cycle).marked 0 [0, 1, 2]).deleted := by
  have hs : Lib.Reach step Proper {} (State.acts {} cycle) :=
    reach_of_directly .refl (fun _ _ _ => proper_of_direct) (by decide +kernel)
  have hr : Reachable (State.acts {} cycle) 0 := ⟨0, by decide +kernel, .refl⟩
  have hresting := resting_reach counted_empty hs
  have hsize : (State.acts {} cycle).size = 3 := by decide +kernel
  have hunmarked : ∀ p < 3, ∀ q ∈ (State.acts {} cycle).handles p,
      (State.acts {} cycle).collectable q = false := by decide +kernel
  have hfound (o : Nat) (ho : Leads (State.acts {} cycle) 0 o) :=
    found_of_unmarked (fun p q hq =>
      hunmarked p (hsize ▸ lt_of_mem_handles hresting.sound.handles_nil hq) q hq) ho
  have hall : ∀ x < 3, Leads (State.acts {} cycle) 0 x := by
    have hone : 1 ∈ (State.acts {} cycle).handles 0 := by decide +kernel
    have htwo : 2 ∈ (State.acts {} cycle).handles 1 := by decide +kernel
    intro x hx
    obtain rfl | rfl | rfl : x = 0 ∨ x = 1 ∨ x = 2 := by omega
    · exact .refl
    · exact .single hone
    · exact .tail (.single hone) htwo
  have hu : Lib.Reach step Quiet ((State.acts {} cycle).act (.collectable 0 true))
      ((State.acts {} cycle).marked 0 [0, 1, 2]) := quiet_of_releases (by decide +kernel)
  have hrest := resting_quiet (resting_act (a := .collectable 0 true) hresting hr) hu
  intro o hmem
  have ho : o < 3 := by
    simp only [List.mem_cons, List.not_mem_nil, or_false] at hmem
    omega
  rcases (collected_of_found counted_empty hs).2 0 hr (fun o ho => .inr (hfound o ho)) _ hu o
    (hall o ho) with hdeleted | hreachable | ⟨x, hx, -, hleads⟩
  · exact hdeleted
  · exact absurd hreachable (not_reachable_of_outside hrest (by decide +kernel))
  · rcases Relation.ReflTransGen.cases_head hleads with rfl | ⟨y, hedge, -⟩
    · exact absurd (hall x ho) hx
    · have hlt := lt_of_mem_handles hrest.sound.handles_nil hedge
      have hsize : ((State.acts {} cycle).marked 0 [0, 1, 2]).size = 3 := by decide +kernel
      exact absurd (hall x (hsize ▸ hlt)) hx

/-- The call was made on an object, which is neither reachable nor deleted later. -/
structure Leaked (s u : State) (r : Nat) : Prop where
  reach : Lib.Reach step Proper {} s
  reachable : Reachable s r
  quiet : Lib.Reach step Quiet (s.act (.collectable r true)) u
  unreachable : ¬Reachable u r
  kept : r ∉ u.deleted

theorem leaked_of_directly {released : List Nat}
    (hprogram : directly {} program = true) (hr : 0 < (State.acts {} program).outside r)
    (hreleased : directly ((State.acts {} program).act (.collectable r true))
      (released.map .release) = true)
    (hout : ∀ x < ((State.acts {} program).marked r released).size,
      ((State.acts {} program).marked r released).outside x = 0)
    (hkept : r ∉ ((State.acts {} program).marked r released).deleted) :
    Leaked (State.acts {} program) ((State.acts {} program).marked r released) r := by
  have hs : Lib.Reach step Proper {} (State.acts {} program) :=
    reach_of_directly .refl (fun _ _ _ => proper_of_direct) hprogram
  have hreach : Reachable (State.acts {} program) r := ⟨r, hr, .refl⟩
  have hquiet : Lib.Reach step Quiet ((State.acts {} program).act (.collectable r true))
      ((State.acts {} program).marked r released) := quiet_of_releases hreleased
  have hmarked : Resting ((State.acts {} program).act (.collectable r true)) :=
    resting_act (a := .collectable r true) (resting_reach counted_empty hs) hreach
  constructor
  · exact hs
  · exact hreach
  · exact hquiet
  · exact not_reachable_of_outside (resting_quiet hmarked hquiet) hout
  · exact hkept

/-- The object is a member of another one that refers to itself and is not marked. -/
def referred : List Action :=
  [.new 1, .new 2, .assign 1 0 (some 1), .assign 1 1 (some 0), .assign 0 0 (some 0)]

/-- A cycle of three objects is built after the second one was marked. -/
def extended : List Action :=
  [.new 1, .new 1, .new 1, .collectable 1 true, .assign 1 0 (some 2), .assign 2 0 (some 0),
    .assign 0 0 (some 1)]

/-- An unmarked object that is not part of the graph keeps it, and a flag that is left from an
earlier call hides what comes behind it. -/
theorem leaked_referred_extended :
    Leaked (State.acts {} referred) ((State.acts {} referred).marked 0 [1, 0]) 0 ∧
      Leaked (State.acts {} extended) ((State.acts {} extended).marked 0 [2, 1, 0]) 0 := by
  constructor
  all_goals
    apply leaked_of_directly
    all_goals decide +kernel

end Ice.GC
