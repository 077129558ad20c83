import Ice.IceStormElection.NodeI
import Ice.Lib.Transition

/-!
# Stuck nodes

A node that is in an election or reorganizing for its own group leaves that state only
through the calls of `merge`, `mergeContinue` and `invitation`. The invariant tells
the three phases of a node apart: no group is being formed, an invitation is between
its two critical sections, or the node forms a group of its own.
-/

namespace Ice.IceStormElection

open Lib
open List (filter_cons mem_filter)
open Invitation (isOpen)
open Bool (or_eq_false_iff or_true)
open Option (ite_none_right_eq_some some.inj some.injEq)

/-- The second critical section is the next thing that the call does. -/
def Invitation.isForwarding (i : Invitation) : Bool :=
  match i.stage with
  | .forwarding .. => true
  | _ => false

namespace TimerThread

/-- `merge` is past its test of the state. -/
def isInviting : TimerThread → Bool
  | .mergeWaiting _ | .inviting .. => true
  | _ => false

def isContinuing : TimerThread → Bool
  | .continuing .. => true
  | _ => false

end TimerThread

namespace NodeI

/-- A call of `merge`, `mergeContinue` or `invitation` is in progress or scheduled. -/
def busy (s : NodeI) : Bool :=
  s.mergeTask.isSome || s.mergeContinueTask || s.timer.isInviting || s.timer.isContinuing ||
    !s.invitations.isEmpty

/-- The node is not stuck, and the two assertions hold when they are reached. -/
structure Unstuck (s : NodeI) : Prop where
  busy : s.electing = true → s.coord = s.id → s.busy = true
  invitation : ∀ i ∈ s.invitations, i.isForwarding = true → s.state = .election
  mergeContinue : s.timer = .idle → s.mergeContinueTask = true → s.state = .election

/-- The invitations with a second critical section to come. -/
def opened (s : NodeI) : List Invitation := s.invitations.filter isOpen

/-- `merge` has entered, and `mergeContinue` has not. -/
def merging (s : NodeI) : Bool := s.mergeContinueTask || s.timer.isInviting

/-- The calls that start or end in the wrong phase. A recovery must not start in an election,
and one that has waited must not go on while an invitation is forwarded or while the node
reorganizes under another coordinator; no node may be invited to a group of its own;
`mergeContinue` must not end in another election, and must learn its own log update as
long as it reorganizes its own group. -/
def Undisturbed (s : NodeI) : Event → Prop
  | .invitation j _ => j ≠ s.id
  | .recovery generation _ => generation = -1 ∨ generation = s.generation → s.state ≠ .election
  | .accepted _ ok _ | .sync ok _ | .initMaster ok _ | .calledReady ok _ =>
    ok = false → s.state ≠ .election
  | .timedOut failed _ => failed = true → s.state ≠ .election
  | .resumeRecovery _ =>
    (∀ i ∈ s.invitations, i.isForwarding = false) ∧ (s.state = .reorganization → s.coord = s.id)
  | .resumeTimer _ =>
    s.timer = .recovering →
      (∀ i ∈ s.invitations, i.isForwarding = false) ∧ (s.state = .reorganization → s.coord = s.id)
  | .lastLogUpdate llu => llu = none → s.state = .reorganization → s.coord ≠ s.id
  | .commence => s.state ≠ .election
  | _ => True

/-- The phases of a node. -/
inductive Phase (s : NodeI) : Prop
  | quiet (hopened : s.opened = []) (hmerging : s.merging = false) (hstate : s.state ≠ .election)
      (hcoord : s.state = .reorganization → s.timer.isContinuing = true ∨ s.coord ≠ s.id)
  | invited (i : Invitation) (hopened : s.opened = [i]) (hmerging : s.merging = false)
      (hstate : s.state = .election) (hother : i.coord ≠ s.id)
      (hcoord : i.isForwarding = true → s.coord = i.coord)
  | merging (hopened : s.opened = []) (hmerging : s.merging = true) (hstate : s.state = .election)
      (htimer : s.timer.isContinuing = false)

variable {s t : NodeI}

theorem phase_started (id : Int) (nodes : List Int) (group : String) :
    Phase (started id nodes group) :=
  .quiet rfl rfl NodeState.noConfusion nofun

section

variable (h : s.Phase)

include h

/-- Every phase avoids the stuck states. -/
theorem Phase.unstuck : s.Unstuck := by
  have hforwarding : ∀ i ∈ s.invitations, i.isForwarding = true → i ∈ s.opened := by
    intro i hi hf
    apply mem_filter.mpr ⟨hi, ?_⟩
    unfold Invitation.isForwarding at hf
    unfold isOpen
    split at hf <;> simp_all
  cases h with
  | quiet hopened hmerging hstate hcoord =>
    constructor
    · intro he hself
      have hr : s.state = .reorganization := by simpa [electing, hstate] using he
      have hc := (hcoord hr).resolve_right (not_not.mpr hself)
      simp [busy, hc]
    · intro i hi hf
      have := hforwarding i hi hf
      simp [hopened] at this
    · intro _ hm
      simp [NodeI.merging, hm] at hmerging
  | invited i hopened hmerging hstate =>
    constructor
    · intro _ _
      have hi : i ∈ s.invitations := (mem_filter.mp (hopened ▸ List.mem_singleton_self i)).1
      simp [busy, List.ne_nil_of_mem hi]
    · exact fun _ _ _ => hstate
    · exact fun _ _ => hstate
  | merging hopened hmerging hstate =>
    constructor
    · intro _ _
      rcases Bool.or_eq_true_iff.mp hmerging with h | h <;> simp [busy, h]
    · exact fun _ _ _ => hstate
    · exact fun _ _ => hstate

/-- Nothing happens to the election. -/
theorem Phase.congr (hid : t.id = s.id) (hstate : t.state = s.state)
    (hcoord : t.coord = s.coord) (hopened : t.opened = s.opened)
    (hmerging : t.merging = s.merging) (htimer : t.timer.isContinuing = s.timer.isContinuing) :
    t.Phase := by
  cases h with
  | quiet h₁ h₂ h₃ h₄ =>
    exact .quiet (hopened.trans h₁) (hmerging.trans h₂) (hstate ▸ h₃)
      (by rwa [hstate, htimer, hcoord, hid])
  | invited i h₁ h₂ h₃ h₄ h₅ =>
    exact .invited i (hopened.trans h₁) (hmerging.trans h₂) (hstate.trans h₃) (hid ▸ h₄)
      (by rwa [hcoord])
  | merging h₁ h₂ h₃ h₄ =>
    exact .merging (hopened.trans h₁) (hmerging.trans h₂) (hstate.trans h₃) (htimer.trans h₄)

/-- Only the timer goes on, and neither starts nor ends the election. -/
theorem Phase.timed {timer : TimerThread} (ht : s.timer = timer)
    (hid : t.id = s.id) (hstate : t.state = s.state) (hcoord : t.coord = s.coord)
    (hopened : t.opened = s.opened) (htask : t.mergeContinueTask = s.mergeContinueTask)
    (hinviting : t.timer.isInviting = timer.isInviting)
    (hcontinuing : t.timer.isContinuing = timer.isContinuing) : t.Phase := by
  subst ht
  refine h.congr hid hstate hcoord hopened ?_ hcontinuing
  rw [NodeI.merging, NodeI.merging, htask, hinviting]

theorem Phase.opened_eq_nil (hstate : s.state ≠ .election) : s.opened = [] := by
  cases h with
  | quiet hopened => exact hopened
  | invited _ _ _ he => exact absurd he hstate
  | merging _ _ he => exact absurd he hstate

theorem Phase.merging_eq_false (hstate : s.state ≠ .election) :
    s.merging = false := by
  cases h with
  | quiet _ hmerging => exact hmerging
  | invited _ _ _ he => exact absurd he hstate
  | merging _ _ he => exact absurd he hstate

end

theorem phase_recover (hopened : s.opened = []) (hmerging : s.merging = false) (group : String) :
    (s.recover group).Phase := by
  simp only [recover]
  split
  all_goals exact .quiet hopened hmerging NodeState.noConfusion nofun

theorem phase_recoverOnTimer (hopened : s.opened = []) (htask : s.mergeContinueTask = false)
    (group : String) : (s.recoverOnTimer group).Phase := by
  simp only [recoverOnTimer]
  split
  · exact .quiet hopened (by simp [NodeI.merging, htask, TimerThread.isInviting])
      NodeState.noConfusion nofun
  · exact .quiet hopened
      (by simp [NodeI.merging, finishRecovery, htask, TimerThread.isInviting])
      NodeState.noConfusion nofun

theorem Phase.recover (h : s.Phase) (hstate : s.state ≠ .election) (group : String) :
    (s.recover group).Phase :=
  phase_recover (h.opened_eq_nil hstate) (h.merging_eq_false hstate) group

theorem Phase.recoverOnTimer (h : s.Phase) (hstate : s.state ≠ .election) (group : String) :
    (s.recoverOnTimer group).Phase := by
  have hmerging := h.merging_eq_false hstate
  exact phase_recoverOnTimer (h.opened_eq_nil hstate)
    (or_eq_false_iff.mp hmerging).1 group

/-- The end of a recovery that has waited. -/
theorem Phase.finishRecovery (h : s.Phase)
    (hforwarding : ∀ i ∈ s.invitations, i.isForwarding = false)
    (hself : s.state = .reorganization → s.coord = s.id) (group : String) :
    (s.finishRecovery group).Phase := by
  cases h with
  | quiet hopened hmerging hstate hcoord =>
    refine .quiet hopened hmerging hstate ?_
    intro hr
    exact Or.inl ((hcoord hr).resolve_right (not_not.mpr (hself hr)))
  | invited i hopened hmerging hstate hother =>
    refine .invited i hopened hmerging hstate hother ?_
    intro hf
    have hi : i ∈ s.invitations := (mem_filter.mp (hopened ▸ List.mem_singleton_self i)).1
    rw [hforwarding i hi] at hf
    contradiction
  | merging hopened hmerging hstate htimer => exact .merging hopened hmerging hstate htimer

theorem state_ne_of_not_electing (h : ¬s.electing = true) :
    s.state ≠ .election ∧ s.state ≠ .reorganization := by
  simpa [electing] using h

theorem Phase.invitation (h : s.Phase) {j : Int} (hj : j ≠ s.id) (gn : String) :
    (s.invitation j gn).Phase := by
  unfold NodeI.invitation
  split
  · exact h
  · split
    · exact h
    next he =>
      split
      · exact h
      · obtain ⟨hne, -⟩ := state_ne_of_not_electing he
        have hopened : s.invitations.filter isOpen = [] := h.opened_eq_nil hne
        have hmerging := h.merging_eq_false hne
        simp only
        split
        · refine .invited ⟨j, gn, .waiting⟩ ?_ hmerging rfl hj nofun
          simp [opened, hopened, isOpen]
        · refine .invited ⟨j, gn, (s.join j gn).2⟩ ?_ hmerging rfl hj fun _ => rfl
          rw [opened, List.filter_append]
          exact congrArg (· ++ _) hopened

variable {k : Nat} {i : Invitation} {α : Type*}

/-- The invitation at an index is replaced, and it is the only open one. -/
theorem filter_set_of_filter {p : α → Bool} {l : List α} {a b c : α}
    (hk : l[k]? = some a) (ha : p a = true) (h : l.filter p = [c]) :
    a = c ∧ (l.set k b).filter p = if p b then [b] else [] := by
  induction l generalizing k with
  | nil => simp at h
  | cons x xs ih =>
    cases k with
    | zero =>
      obtain rfl : x = a := by simpa using hk
      obtain ⟨rfl, hxs⟩ : x = c ∧ xs.filter p = [] := by simpa [filter_cons, ha] using h
      rw [List.set_cons_zero, filter_cons, hxs]
      simp
    | succ k =>
      have hmem : a ∈ xs.filter p := mem_filter.mpr ⟨List.mem_of_getElem? hk, ha⟩
      rw [filter_cons] at h
      split at h
      · simp [(List.cons.inj h).2] at hmem
      next hx =>
        obtain ⟨hac, hset⟩ := ih (by simpa using hk) h
        rw [List.set_cons_succ, filter_cons, if_neg hx]
        exact ⟨hac, hset⟩

theorem filter_eraseIdx_of_not {p : α → Bool} {l : List α} {a : α}
    (hk : l[k]? = some a) (ha : p a = false) : (l.eraseIdx k).filter p = l.filter p := by
  induction l generalizing k with
  | nil => rfl
  | cons x xs ih =>
    cases k with
    | zero =>
      obtain rfl : x = a := by simpa using hk
      simp [ha]
    | succ k => simp [filter_cons, ih (by simpa using hk)]

/-- An open invitation is the one of the phase. -/
theorem Phase.of_open (h : s.Phase) (hk : s.invitations[k]? = some i) (hi : i.isOpen = true) :
    s.opened = [i] ∧ s.merging = false ∧ s.state = .election ∧ i.coord ≠ s.id ∧
      (i.isForwarding = true → s.coord = i.coord) := by
  have hmem : i ∈ s.opened := mem_filter.mpr ⟨List.mem_of_getElem? hk, hi⟩
  cases h with
  | quiet hopened => simp [hopened] at hmem
  | invited i' hopened hmerging hstate hother hcoord =>
    obtain rfl : i = i' := by simpa [hopened] using hmem
    exact ⟨hopened, hmerging, hstate, hother, hcoord⟩
  | merging hopened => simp [hopened] at hmem

theorem Phase.resumeInvitation (h : s.Phase) {j : Int} {gn : String}
    (hk : s.invitations[k]? = some ⟨j, gn, .waiting⟩) :
    Phase { (s.join j gn).1 with
      invitations := (s.join j gn).1.invitations.set k ⟨j, gn, (s.join j gn).2⟩ } := by
  obtain ⟨hopened, hmerging, hstate, hother, -⟩ := h.of_open hk rfl
  refine .invited ⟨j, gn, (s.join j gn).2⟩ ?_ hmerging hstate hother fun _ => rfl
  exact (filter_set_of_filter hk rfl hopened).2

theorem Phase.reorganize (h : s.Phase) (hk : s.invitations[k]? = some i)
    (hi : i.isForwarding = true) (hopen : i.isOpen = true) (max : Nat) :
    (s.reorganize k i max).Phase := by
  obtain ⟨hopened, hmerging, -, hother, hcoord⟩ := h.of_open hk hopen
  refine .quiet ?_ hmerging NodeState.noConfusion fun _ => Or.inr ?_
  · exact (filter_set_of_filter hk hopen hopened).2
  · exact hcoord hi ▸ hother

variable {coordinators : List Int}

section

variable (h : s.Phase)

include h

theorem Phase.merge
    (ht : s.timer = .merging coordinators) (group : String) :
    (s.merge coordinators group).Phase := by
  simp only [NodeI.merge]
  split
  · exact h.timed ht rfl rfl rfl rfl rfl rfl rfl
  next he =>
    obtain ⟨hne, -⟩ := state_ne_of_not_electing he
    have hopened := h.opened_eq_nil hne
    split
    all_goals exact .merging hopened (or_true _) rfl rfl

theorem Phase.resumeMerge
    (ht : s.timer = .mergeWaiting coordinators) (group : String) :
    (s.invite coordinators group).Phase := by
  have hmerging : s.merging = true := by simp [NodeI.merging, ht, TimerThread.isInviting]
  cases h with
  | quiet _ hm => simp [hm] at hmerging
  | invited _ _ hm => simp [hm] at hmerging
  | merging hopened _ hstate => exact .merging hopened (or_true _) hstate rfl

theorem Phase.invitedAll (ht : s.timer.isInviting = true) :
    Phase { s with mergeContinueTask := true, timer := .idle } := by
  have hmerging : s.merging = true := by simp [NodeI.merging, ht]
  cases h with
  | quiet _ hm => simp [hm] at hmerging
  | invited _ _ hm => simp [hm] at hmerging
  | merging hopened _ hstate => exact .merging hopened rfl hstate rfl

theorem Phase.mergeContinue (htask : s.mergeContinueTask = true) (group : String) :
    (s.mergeContinue group).Phase := by
  have hmerging : s.merging = true := by simp [NodeI.merging, htask]
  cases h with
  | quiet _ hm => simp [hm] at hmerging
  | invited _ _ hm => simp [hm] at hmerging
  | merging hopened =>
    simp only [NodeI.mergeContinue]
    split
    · refine phase_recoverOnTimer ?_ ?_ group
      · exact hopened
      · rfl
    · exact .quiet hopened rfl NodeState.noConfusion fun _ => Or.inl rfl

theorem Phase.check (ht : s.timer = .idle) (dead : List Int) (group : String) :
    (s.check dead group).Phase := by
  simp only [NodeI.check]
  split
  · exact h
  next he =>
    have hne : s.state ≠ .election := fun hs => he (Or.inl (by simp [electing, hs]))
    split
    · refine phase_recoverOnTimer ?_ ?_ group
      · exact h.opened_eq_nil hne
      · exact (or_eq_false_iff.mp (h.merging_eq_false hne)).1
    · exact h.timed ht rfl rfl rfl rfl rfl rfl rfl

/-- `mergeContinue` goes on. -/
theorem Phase.continued {gp gp' : String} {members members' : List GroupNodeInfo}
    {stage stage' : MergeStage} (ht : s.timer = .continuing gp members stage) (max : Nat) :
    Phase { s with max := max, timer := .continuing gp' members' stage' } :=
  h.timed ht rfl rfl rfl rfl rfl rfl rfl

/-- `mergeContinue` ends with an exception. -/
theorem Phase.abandoned {gp : String} {members : List GroupNodeInfo}
    {stage : MergeStage} (ht : s.timer = .continuing gp members stage)
    (hother : s.state = .reorganization → s.coord ≠ s.id) : Phase { s with timer := .idle } := by
  cases h with
  | quiet hopened hmerging hstate hcoord =>
    refine .quiet hopened ?_ hstate fun hr => Or.inr (hother hr)
    exact or_eq_false_iff.mpr ⟨(or_eq_false_iff.mp hmerging).1, rfl⟩
  | invited i hopened hmerging hstate hi hcoord =>
    refine .invited i hopened ?_ hstate hi hcoord
    exact or_eq_false_iff.mpr ⟨(or_eq_false_iff.mp hmerging).1, rfl⟩
  | merging _ _ _ htimer => simp [ht, TimerThread.isContinuing] at htimer

theorem Phase.commence (hstate : s.state ≠ .election)
    (members : List GroupNodeInfo) : (s.commence members).Phase := by
  have hmerging := or_eq_false_iff.mp (h.merging_eq_false hstate)
  exact .quiet (h.opened_eq_nil hstate) (or_eq_false_iff.mpr ⟨hmerging.1, rfl⟩)
    NodeState.noConfusion nofun

theorem Phase.ready (j : Int) (gn : String) (max : Nat) (generation : Int) :
    (s.ready j gn max generation).Phase := by
  unfold NodeI.ready
  split
  next hready =>
    have hstate : s.state ≠ .election := by simp [hready.1]
    exact .quiet (h.opened_eq_nil hstate) (h.merging_eq_false hstate) NodeState.noConfusion nofun
  · exact h

/-- A call of `accept` has returned or failed. -/
theorem Phase.accepted (hk : s.invitations[k]? = some i) (hi : i.isOpen = false) :
    Phase { s with invitations := s.invitations.eraseIdx k } :=
  h.congr rfl rfl rfl (filter_eraseIdx_of_not hk hi) rfl rfl

theorem Phase.step {e : Event} (he : s.Undisturbed e) (hs : s.step e = some t) :
    t.Phase := by
  cases e with
  | startUpdate | finishUpdate =>
    simp only [NodeI.step, ite_none_right_eq_some, some.injEq] at hs
    exact hs.2 ▸ h.congr rfl rfl rfl rfl rfl rfl
  | invitation j gn => exact some.inj hs ▸ h.invitation he gn
  | resumeInvitation k =>
    simp only [NodeI.step] at hs
    split at hs
    next j gn hk =>
      simp only [ite_none_right_eq_some, some.injEq] at hs
      exact hs.2 ▸ h.resumeInvitation hk
    · contradiction
  | forwarded k =>
    simp only [NodeI.step] at hs
    split at hs
    next j gn members max hk => exact some.inj hs ▸ h.reorganize hk rfl rfl max
    · contradiction
  | accepted k ok group =>
    simp only [NodeI.step] at hs
    split at hs
    next hk =>
      have ha := h.accepted hk rfl
      cases ok with
      | true => exact some.inj hs ▸ ha
      | false => exact some.inj hs ▸ ha.recover (he rfl) group
    · contradiction
  | accept j gn llu max =>
    obtain rfl := some.inj hs
    unfold NodeI.accept
    split
    · exact h.congr rfl rfl rfl rfl rfl rfl
    · exact h
  | ready j gn max generation => exact some.inj hs ▸ h.ready j gn max generation
  | recovery generation group =>
    obtain rfl := some.inj hs
    unfold NodeI.recovery
    split
    · exact h
    next hg => exact h.recover (he (by tauto)) group
  | resumeRecovery group =>
    simp only [NodeI.step, ite_none_right_eq_some, some.injEq] at hs
    exact hs.2 ▸ (h.finishRecovery he.1 he.2 group).congr rfl rfl rfl rfl rfl rfl
  | resumeTimer group =>
    simp only [NodeI.step] at hs
    split at hs
    · split at hs
      next ht =>
        obtain ⟨hf, hself⟩ := he ht
        obtain rfl := some.inj hs
        exact (h.finishRecovery hf hself group).timed ht rfl rfl rfl rfl rfl rfl rfl
      next ht => exact some.inj hs ▸ h.resumeMerge ht group
      · contradiction
    · contradiction
  | check dead group =>
    simp only [NodeI.step, ite_none_right_eq_some, some.injEq] at hs
    exact hs.2 ▸ h.check hs.1.1 dead group
  | checked coordinators =>
    simp only [NodeI.step, ite_none_right_eq_some, some.injEq] at hs
    obtain ⟨ht, rfl⟩ := hs
    have hidle : Phase { s with timer := .idle } := h.timed ht rfl rfl rfl rfl rfl rfl rfl
    simp only [NodeI.checked]
    split
    · exact hidle.congr rfl rfl rfl rfl rfl rfl
    · split
      · exact hidle
      · exact hidle.congr rfl rfl rfl rfl rfl rfl
  | timeout =>
    simp only [NodeI.step, ite_none_right_eq_some, some.injEq] at hs
    obtain ⟨⟨ht, -⟩, rfl⟩ := hs
    unfold NodeI.timeout
    split
    · exact h
    · exact h.timed ht rfl rfl rfl rfl rfl rfl rfl
  | timedOut failed group =>
    simp only [NodeI.step, ite_none_right_eq_some, some.injEq] at hs
    obtain ⟨ht, rfl⟩ := hs
    cases failed with
    | true => exact h.recoverOnTimer (he rfl) group
    | false =>
      exact h.timed ht rfl rfl rfl rfl rfl rfl rfl
  | fireMerge =>
    simp only [NodeI.step] at hs
    split at hs
    next ht _ =>
      obtain rfl := some.inj hs
      exact h.timed ht rfl rfl rfl rfl rfl rfl rfl
    · contradiction
  | merge group =>
    simp only [NodeI.step] at hs
    split at hs
    next ht => exact some.inj hs ▸ h.merge ht group
    · contradiction
  | invited =>
    simp only [NodeI.step] at hs
    split at hs
    next ht => exact some.inj hs ▸ h.invitedAll (ht ▸ rfl)
    · contradiction
  | mergeContinue group =>
    simp only [NodeI.step, ite_none_right_eq_some, some.injEq] at hs
    exact hs.2 ▸ h.mergeContinue hs.1.2 group
  | lastLogUpdate llu =>
    simp only [NodeI.step] at hs
    split at hs
    next ht =>
      cases llu with
      | none => exact some.inj hs ▸ h.abandoned ht (he rfl)
      | some llu =>
        simp only at hs
        split at hs
        all_goals exact some.inj hs ▸ h.continued ht s.max
    · contradiction
  | sync ok group | initMaster ok group | calledReady ok group =>
    simp only [NodeI.step] at hs
    split at hs
    next ht =>
      cases ok with
      | true => exact some.inj hs ▸ h.continued ht s.max
      | false => exact some.inj hs ▸ h.recoverOnTimer (he rfl) group
    · contradiction
  | startInitMaster =>
    simp only [NodeI.step] at hs
    split at hs
    next members ht => exact some.inj hs ▸ h.continued ht (Nat.max s.max (members.length + 1))
    · contradiction
  | commence =>
    simp only [NodeI.step] at hs
    split at hs
    next members ht => exact some.inj hs ▸ h.commence he members
    · contradiction

end

/-- A node that no call disturbs is never stuck. -/
theorem unstuck_of_undisturbed {id : Int} {nodes : List Int} {group : String}
    (h : Reach NodeI.step Undisturbed (started id nodes group) s) : s.Unstuck := by
  apply Phase.unstuck
  apply h.invariant (phase_started id nodes group)
  intro _ _ _ hphase
  exact hphase.step

/-- A node becomes a slave. -/
def joining : List Event :=
  [.invitation 2 "2:a", .forwarded 0, .accepted 0 true "", .ready 2 "2:a" 3 1]

theorem unstuck_joining :
    ∃ s, run NodeI.step (started 1 [1, 2, 3] "1:a") joining = some s ∧ s.Unstuck := by
  refine ⟨_, rfl, @unstuck_of_undisturbed _ 1 [1, 2, 3] "1:a" ?_⟩
  have hstart : Reach NodeI.step Undisturbed (started 1 [1, 2, 3] "1:a") _ := .refl
  have hinvitation := hstart.tail (l := .invitation 2 "2:a") (by simp [Undisturbed, started]) rfl
  have hforwarded := hinvitation.tail (l := .forwarded 0) (by trivial) rfl
  have haccepted := hforwarded.tail (l := .accepted 0 true "") (by nofun) rfl
  exact haccepted.tail (l := .ready 2 "2:a" 3 1) (by trivial) rfl

/-- The slave loses its coordinator while another node invites it: the recovery falls
between the two critical sections of `invitation`. -/
theorem exists_stuck :
    ∃ s, Reach NodeI.step Any (started 1 [1, 2, 3] "1:a") s ∧ ¬s.Unstuck := by
  have hrun : (run NodeI.step (started 1 [1, 2, 3] "1:a") (joining ++
      [.timeout, .invitation 3 "3:b", .timedOut true "1:b", .forwarded 0, .accepted 0 true ""])).any
      (fun s => s.electing && s.coord == s.id && !s.busy) = true := by
    decide +kernel
  obtain ⟨s, hreach, hs⟩ := Reach.exists_of_run hrun
  simp only [Bool.and_eq_true, beq_iff_eq, Bool.not_eq_true'] at hs
  obtain ⟨⟨helecting, hself⟩, hbusy⟩ := hs
  refine ⟨s, hreach, ?_⟩
  intro h
  exact Bool.false_ne_true (hbusy.symm.trans (h.busy helecting hself))

end NodeI

end Ice.IceStormElection
