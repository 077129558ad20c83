import Ice.IceUtil.Timer

/-!
# Tokens and tasks

What a step can do is said once, as a sequence of changes. The tokens agree with the tasks after
each of them.
-/

namespace Ice.IceUtil

open Lib Timer
open Token (key)
open Function (update_of_ne update_self update)

/-- The changes that steps are made of, in runs that meet the condition -/
inductive Change (s : Timer) : Timer → Prop
  | elapse (time : Nat) : Change s (s.elapse time)
  | add (task : Nat) (delay period : Int) (hrunning : s.destroyed = false)
      (hnone : s.tasks task = none) (hrepeats : s.phase.repeats task = false) :
      Change s { s with
        tasks := update s.tasks task (some (s.now + delay))
        tokens := insertBy key ⟨s.now + delay, period, task⟩ s.tokens
        log := s.log ++ [.scheduled task delay period] }
  | cancel (task : Nat) (time : Int) (hsome : s.tasks task = some time)
      (htakes : s.phase.takes task = false) :
      Change s { s with
        tokens := eraseBy key (toLex (time, task)) s.tokens
        tasks := update s.tasks task none
        log := s.log ++ [.cancelled task] }
  | destroy : Change s { s with destroyed := true, tasks := fun _ => none, tokens := [] }
  | idle (phase : Phase) (hphase : phase.token = none) (hidle : ∀ token, s.phase ≠ .taken token)
      (hrepeats : ∀ task, s.phase.repeats task = true → s.tasks task = none) :
      Change s { s with phase }
  | reschedule (token : Token) (hrunning : s.destroyed = false)
      (hphase : s.phase = .locking (some token)) (hdelay : token.delay ≠ 0)
      (hsome : (s.tasks token.task).isSome = true) :
      Change s { s with
        tasks := update s.tasks token.task (some (s.now + token.delay))
        tokens := insertBy key { token with scheduledTime := s.now + token.delay } s.tokens
        log := s.log ++ [.rescheduled token.task token.delay]
        phase := .waiting }
  | take (first : Token) (rest : List Token) (hphase : s.phase.token = none)
      (htokens : s.tokens = first :: rest) (hdue : first.scheduledTime ≤ s.now) :
      Change s { s with
        tokens := rest
        tasks := if first.delay = 0 then update s.tasks first.task none else s.tasks
        phase := .taken first
        log := s.log ++ [.taken first.task first.scheduledTime] }
  | start (token : Token) (hphase : s.phase = .taken token) :
      Change s { s with phase := .running token, log := s.log ++ [.started token.task] }
  | finish (token : Token) (hphase : s.phase = .running token) :
      Change s { s with phase := .locking (if token.delay = 0 then none else some token) }

abbrev Changes : Timer → Timer → Prop := Relation.ReflTransGen Change

section changes

variable {s t : Timer} {task : Nat} {delay period : Int} {a : Action} {phase : Phase}

theorem repeats_of_token_eq_none (h : phase.token = none) :
    phase.repeats task = false := by
  rw [Phase.repeats, h]
  rfl

theorem idle_of_token_eq_none (h : s.phase.token = none) (task : Nat)
    (hrepeats : s.phase.repeats task = true) : s.tasks task = none := by
  rw [repeats_of_token_eq_none h] at hrepeats
  cases hrepeats

theorem not_taken_of_token_eq_none (h : phase.token = none) (token : Token) :
    phase ≠ .taken token := by
  rintro rfl
  cases h

theorem changes_ofCall_add (hcareful : s.phase.repeats task = true → (s.tasks task).isSome = true) :
    Changes s (s.ofCall (s.add task delay period)) := by
  rw [Timer.add]
  split
  · exact .refl
  · rename_i hrunning
    split
    · exact .refl
    · split
      · exact .refl
      · rename_i hnone
        have hnone : s.tasks task = none := by simpa using hnone
        apply Relation.ReflTransGen.single
        apply Change.add task delay period (by simpa using hrunning) hnone
        cases hrepeats : s.phase.repeats task with
        | false => rfl
        | true =>
          have hsome := hcareful hrepeats
          rw [hnone] at hsome
          cases hsome

theorem changes_cancel (hcareful : s.phase.takes task = true → s.tasks task = none) :
    Changes s (s.cancel task).2 := by
  rw [Timer.cancel]
  split
  · exact .refl
  · cases hsome : s.tasks task with
    | none => exact .refl
    | some time =>
      apply Relation.ReflTransGen.single
      apply Change.cancel task time hsome
      cases htakes : s.phase.takes task with
      | false => rfl
      | true =>
        rw [hcareful htakes] at hsome
        cases hsome

theorem changes_destroy : Changes s s.destroy := by
  rw [Timer.destroy]
  split
  · exact .refl
  · exact .single .destroy

theorem changes_next (hphase : s.phase.token = none) : Changes s s.next := by
  have hrepeats := idle_of_token_eq_none hphase
  have hidle := not_taken_of_token_eq_none hphase
  rw [Timer.next]
  split
  · exact .single (.idle .ended rfl hidle hrepeats)
  · split
    · exact .single (.idle (.locking none) rfl hidle hrepeats)
    · rename_i first rest htokens
      split
      · exact .single (.take first rest hphase htokens ‹_›)
      · exact .single (.idle .timedWaiting rfl hidle hrepeats)

/-- The phase is not read before it is set. -/
theorem next_phase (phase : Phase) : ({ s with phase } : Timer).next = s.next := by
  rw [Timer.next, Timer.next]

theorem changes_reschedule {token : Option Token} (hrunning : s.destroyed = false)
    (hphase : s.phase = .locking token) :
    Changes s { s.reschedule token with phase := .waiting } := by
  have hrepeats : ∀ task, s.phase.repeats task = true →
      ∃ t, token = some t ∧ t.delay ≠ 0 ∧ t.task = task := by
    intro task h
    rw [Phase.repeats, hphase] at h
    cases token with
    | none => cases h
    | some t => exact ⟨t, rfl, of_decide_eq_true h⟩
  have hidle : ∀ t, s.phase ≠ .taken t := by
    intro t
    rw [hphase]
    exact nofun
  cases token with
  | none =>
    apply Relation.ReflTransGen.single
    apply Change.idle .waiting rfl hidle
    intro task h
    obtain ⟨t, ht, -⟩ := hrepeats task h
    cases ht
  | some token =>
    rw [Timer.reschedule]
    split
    · rename_i hsome
      exact .single (.reschedule token hrunning hphase hsome.1 hsome.2)
    · rename_i hnone
      apply Relation.ReflTransGen.single
      apply Change.idle .waiting rfl hidle
      intro task h
      obtain ⟨t, ht, hdelay, rfl⟩ := hrepeats task h
      cases ht
      simpa using not_and.mp hnone hdelay

theorem changes_enter {token : Option Token} {time : Nat} (hphase : s.phase = .locking token)
    (hdestroyed : s.destroyed = true → ∀ task, s.tasks task = none) :
    Changes s (s.enter token time) := by
  rw [Timer.enter]
  split
  · rename_i hd
    apply Relation.ReflTransGen.single
    apply Change.idle .ended rfl
    · intro t
      rw [hphase]
      exact nofun
    · exact fun task _ => hdestroyed hd task
  · rename_i hrunning
    let t : Timer := { (s.reschedule token).elapse time with phase := .waiting }
    have ht : Changes s t :=
      (changes_reschedule (by simpa using hrunning) hphase).tail (.elapse time)
    dsimp only
    split
    · exact ht
    · rw [← next_phase .waiting]
      exact ht.trans (changes_next rfl)

/-- Steps that meet the condition are made of changes. -/
theorem changes_step (h : s.step a = some t) (hcareful : s.Careful a)
    (hdestroyed : s.destroyed = true → ∀ task, s.tasks task = none) : Changes s t := by
  cases a with
  | elapse time =>
    cases h
    exact .single (.elapse time)
  | schedule task delay | scheduleRepeated task delay =>
    cases h
    exact changes_ofCall_add hcareful
  | cancel task =>
    cases h
    exact changes_cancel hcareful
  | destroy =>
    cases h
    exact changes_destroy
  | enter time =>
    rw [Timer.step] at h
    split at h
    · cases h
      exact changes_enter ‹_› hdestroyed
    · cases h
  | wake =>
    rw [Timer.step] at h
    split at h
    · cases h
      apply changes_next
      rw [‹s.phase = _›]
      rfl
    · cases h
      apply changes_next
      rw [‹s.phase = _›]
      rfl
    · cases h
  | start =>
    rw [Timer.step] at h
    split at h
    · cases h
      exact .single (.start _ ‹_›)
    · cases h
  | finish =>
    rw [Timer.step] at h
    split at h
    · cases h
      exact .single (.finish _ ‹_›)
    · cases h

end changes

/-- The tokens are ordered and agree with the tasks. -/
structure Sound (s : Timer) : Prop where
  sorted : SortedBy key s.tokens
  tokens : ∀ token ∈ s.tokens, s.tasks token.task = some token.scheduledTime
  tasks : ∀ task, (s.tasks task).isSome = true → s.phase.repeats task = false →
    ∃ token ∈ s.tokens, token.task = task
  repeats : ∀ task, s.phase.repeats task = true → ∀ token ∈ s.tokens, token.task ≠ task
  destroyed : s.destroyed = true → ∀ task, s.tasks task = none

section sound

variable {s t : Timer} {task : Nat} {token token' : Token}

theorem key_eq (ht : token.task = token'.task) (hs : token.scheduledTime = token'.scheduledTime) :
    token.key = token'.key := by
  rw [key, key, ht, hs]

theorem task_of_key (h : token.key = token'.key) : token.task = token'.task :=
  congrArg (fun k => (ofLex k).2) h

section

variable (h : Sound s)

include h

/-- A task that is not scheduled has no token. -/
theorem Sound.ne_of_none (hnone : s.tasks task = none) {token : Token}
    (ht : token ∈ s.tokens) : token.task ≠ task := by
  rintro rfl
  rw [h.tokens token ht] at hnone
  cases hnone

/-- A task has one token. -/
theorem Sound.eq_of_task (ht : token ∈ s.tokens) (ht' : token' ∈ s.tokens)
    (htask : token.task = token'.task) : token = token' := by
  apply h.sorted.eq_of_key ht ht'
  apply key_eq htask
  have htime := h.tokens token ht
  rw [htask, h.tokens token' ht'] at htime
  exact (Option.some.inj htime).symm

/-- A token is put into the set for a task that has none. -/
theorem Sound.insert (token : Token) (hrunning : s.destroyed = false)
    (hnew : ∀ t ∈ s.tokens, t.task ≠ token.task) {phase : Phase} {log : List Event}
    (hrepeats : ∀ task, phase.repeats task = true →
      s.phase.repeats task = true ∧ task ≠ token.task)
    (hother : ∀ task, s.phase.repeats task = true → task ≠ token.task →
      phase.repeats task = true) :
    Sound { s with
      tasks := update s.tasks token.task (some token.scheduledTime)
      tokens := insertBy key token s.tokens
      phase
      log } := by
  have hmem : ∀ t, t ∈ insertBy key token s.tokens ↔ t = token ∨ t ∈ s.tokens := fun t =>
    mem_insertBy fun t' ht' hkey => hnew t' ht' (task_of_key hkey)
  constructor
  · exact h.sorted.insertBy
  · intro t ht
    rcases (hmem t).mp ht with rfl | ht
    · exact update_self ..
    · exact (update_of_ne (hnew t ht) ..).trans (h.tokens t ht)
  · intro task hsome hrep
    by_cases heq : task = token.task
    · exact ⟨token, (hmem token).mpr (.inl rfl), heq.symm⟩
    · dsimp only at hsome
      rw [update_of_ne heq] at hsome
      have hrep' : s.phase.repeats task = false := by
        cases hr : s.phase.repeats task with
        | false => rfl
        | true =>
          have htrue := hother task hr heq
          rw [show phase.repeats task = false from hrep] at htrue
          cases htrue
      obtain ⟨t, ht, htask⟩ := h.tasks task hsome hrep'
      exact ⟨t, (hmem t).mpr (.inr ht), htask⟩
  · intro task hrep t ht
    obtain ⟨hrep', hne⟩ := hrepeats task hrep
    rcases (hmem t).mp ht with rfl | ht
    · exact hne.symm
    · exact h.repeats task hrep' t ht
  · intro hdestroyed
    rw [hrunning] at hdestroyed
    cases hdestroyed

/-- The same task is being run. -/
theorem Sound.phase {phase : Phase} {log : List Event}
    (hrepeats : ∀ task, phase.repeats task = s.phase.repeats task) :
    Sound { s with phase, log } := by
  refine { h with tasks := ?_, repeats := ?_ }
  · intro task hsome hrep
    exact h.tasks task hsome ((hrepeats task).symm.trans hrep)
  · intro task hrep
    exact h.repeats task ((hrepeats task).symm.trans hrep)

theorem Sound.change (hchange : Change s t) : Sound t := by
  cases hchange with
  | elapse time => exact ⟨h.sorted, h.tokens, h.tasks, h.repeats, h.destroyed⟩
  | add task delay period hrunning hnone hrepeats =>
    apply h.insert ⟨s.now + delay, period, task⟩ hrunning
    · exact fun t ht => h.ne_of_none hnone ht
    · intro task' hrep
      refine ⟨hrep, ?_⟩
      rintro rfl
      exact absurd hrep (by simpa using hrepeats)
    · exact fun _ hrep _ => hrep
  | cancel task time hsome htakes =>
    have hmem : ∀ t, t ∈ eraseBy key (toLex (time, task)) s.tokens ↔
        t ∈ s.tokens ∧ t.task ≠ task := by
      intro t
      rw [mem_eraseBy]
      constructor
      · rintro ⟨ht, hkey⟩
        refine ⟨ht, ?_⟩
        rintro rfl
        have htime := (h.tokens t ht).symm.trans hsome
        apply hkey
        rw [key, Option.some.inj htime]
      · rintro ⟨ht, hne⟩
        exact ⟨ht, fun hkey => hne (congrArg (fun k => (ofLex k).2) hkey)⟩
    constructor
    · exact h.sorted.eraseBy
    · intro t ht
      obtain ⟨ht, hne⟩ := (hmem t).mp ht
      exact (update_of_ne hne ..).trans (h.tokens t ht)
    · intro task' hs hrep
      by_cases heq : task' = task
      · subst heq
        dsimp only at hs
        rw [update_self] at hs
        cases hs
      · dsimp only at hs
        rw [update_of_ne heq] at hs
        obtain ⟨t, ht, htask⟩ := h.tasks task' hs hrep
        exact ⟨t, (hmem t).mpr ⟨ht, fun hne => heq (htask ▸ hne)⟩, htask⟩
    · intro task' hrep t ht
      exact h.repeats task' hrep t ((hmem t).mp ht).1
    · intro hdestroyed
      rw [h.destroyed hdestroyed task] at hsome
      cases hsome
  | destroy =>
    exact ⟨List.Pairwise.nil, nofun, nofun, fun _ _ _ => nofun, fun _ _ => rfl⟩
  | idle phase hphase hidle hrepeats =>
    refine { h with tasks := ?_, repeats := ?_ }
    · intro task hsome _
      apply h.tasks task hsome
      cases hrep : s.phase.repeats task with
      | false => rfl
      | true =>
        rw [hrepeats task hrep] at hsome
        cases hsome
    · intro task hrep
      rw [repeats_of_token_eq_none hphase] at hrep
      cases hrep
  | reschedule token hrunning hphase hdelay hsome =>
    have hrepeats : ∀ task, s.phase.repeats task = true ↔ token.task = task := by
      intro task
      simp [Phase.repeats, Phase.token, hphase, hdelay]
    apply h.insert { token with scheduledTime := s.now + token.delay } hrunning
    · exact h.repeats token.task ((hrepeats _).mpr rfl)
    · intro _ hrep
      cases hrep
    · intro task hrep hne
      exact absurd ((hrepeats task).mp hrep).symm hne
  | take first rest hphase htokens hdue =>
    have hsub : ∀ t ∈ rest, t ∈ s.tokens := by
      intro t ht
      rw [htokens]
      exact List.mem_cons_of_mem _ ht
    have hfirst : first ∈ s.tokens := by
      rw [htokens]
      exact List.mem_cons_self
    have hsorted := h.sorted
    rw [htokens] at hsorted
    obtain ⟨hlt, hrest⟩ := List.pairwise_cons.mp hsorted
    have hother : ∀ t ∈ rest, t.task ≠ first.task := by
      intro t ht htask
      have heq := h.eq_of_task (hsub t ht) hfirst htask
      exact absurd (hlt t ht) (by rw [heq]; exact lt_irrefl _)
    have hrepeats : ∀ task, (Phase.taken first).repeats task = true ↔
        first.delay ≠ 0 ∧ first.task = task := fun task => decide_eq_true_iff
    constructor
    · exact hrest
    · intro t ht
      dsimp only
      split
      · exact (update_of_ne (hother t ht) ..).trans (h.tokens t (hsub t ht))
      · exact h.tokens t (hsub t ht)
    · intro task hsome hrep
      have hne : task ≠ first.task := by
        rintro rfl
        dsimp only at hsome
        split at hsome
        · rw [update_self] at hsome
          cases hsome
        · rename_i hdelay
          have htrue := (hrepeats first.task).mpr ⟨hdelay, rfl⟩
          rw [show (Phase.taken first).repeats first.task = false from hrep] at htrue
          cases htrue
      have hsome' : (s.tasks task).isSome = true := by
        dsimp only at hsome
        split at hsome
        · rwa [update_of_ne hne] at hsome
        · exact hsome
      obtain ⟨t, ht, htask⟩ := h.tasks task hsome' (repeats_of_token_eq_none hphase)
      rw [htokens] at ht
      rcases List.mem_cons.mp ht with rfl | ht
      · exact absurd htask.symm hne
      · exact ⟨t, ht, htask⟩
    · intro task hrep t ht
      obtain ⟨-, rfl⟩ := (hrepeats task).mp hrep
      exact hother t ht
    · intro hdestroyed task
      have hnone := h.destroyed hdestroyed first.task
      rw [h.tokens first hfirst] at hnone
      cases hnone
  | start token hphase =>
    apply h.phase
    intro task
    rw [hphase]
    rfl
  | finish token hphase =>
    apply h.phase
    intro task
    rw [hphase]
    split
    · rename_i hdelay
      simp [Phase.repeats, Phase.token, hdelay]
    · rfl

end

end sound

end Ice.IceUtil
