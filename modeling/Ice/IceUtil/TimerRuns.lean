import Mathlib.Data.List.Nodup
import Ice.IceUtil.TimerTokens
import Ice.Lib.Lists

/-!
# Runs of the timer

What the tokens and the tasks say about the history: a task that was scheduled once has not been
taken yet or is no more scheduled, one that was cancelled has no token, and no token is earlier
than a task that was taken.
-/

namespace Ice.IceUtil

open Lib Timer
open List (append_inj' mem_append_left mem_cons_self singleton_inj)
open Function (update_of_ne update_self update)

section log

variable {log pre mid : List Event} {e x : Event}

/-- Where an event stands when another one is added. -/
theorem split_concat (h : log ++ [e] = pre ++ x :: mid) :
    pre = log ∧ e = x ∧ mid = [] ∨ ∃ mid', mid = mid' ++ [e] ∧ log = pre ++ x :: mid' := by
  rcases List.eq_nil_or_concat mid with rfl | ⟨mid', y, rfl⟩
  · obtain ⟨hpre, he⟩ := append_inj' h rfl
    exact .inl ⟨hpre.symm, singleton_inj.mp he, rfl⟩
  · right
    rw [List.concat_eq_append, ← List.cons_append, ← List.append_assoc] at h
    obtain ⟨hpre, he⟩ := append_inj' h rfl
    refine ⟨mid', ?_, hpre⟩
    rw [List.concat_eq_append, singleton_inj.mp he]

/-- The event that is added is another one, and what is said of the later events is said of it. -/
theorem split_later {P : Event → Prop} (h : log ++ [e] = pre ++ x :: mid) (hne : e ≠ x)
    (hmid : ∀ y ∈ mid, P y) :
    ∃ mid', mid = mid' ++ [e] ∧ log = pre ++ x :: mid' ∧ (∀ y ∈ mid', P y) ∧ P e := by
  rcases split_concat h with ⟨-, he, -⟩ | ⟨mid', rfl, hlog⟩
  · exact absurd he hne
  · rw [List.forall_mem_append, List.forall_mem_singleton] at hmid
    exact ⟨mid', rfl, hlog, hmid⟩

/-- Something that is said of the end of the history, and was true at each time before. -/
def Always (P : List Event → Prop) (log : List Event) : Prop := ∀ l, l <+: log → P l

theorem Always.concat {P : List Event → Prop} (h : Always P log) (hlast : P (log ++ [e])) :
    Always P (log ++ [e]) := by
  intro l hl
  rcases List.prefix_concat_iff.mp hl with rfl | hl
  · exact hlast
  · exact h l hl

theorem countP_concat {task : Nat} (h : e.takes task = false) :
    (log ++ [e]).countP (·.takes task) = log.countP (·.takes task) := by
  rw [List.countP_append, List.countP_singleton, h]
  rfl

end log

/-- A task that was scheduled once, and not again, is not repeated, and its token is there or was
taken. -/
def Once (s : Timer) : Prop :=
  ∀ task delay pre mid, s.log = pre ++ .scheduled task delay 0 :: mid →
    (∀ e ∈ mid, e.schedules task = false) →
      s.phase.repeats task = false ∧ (∀ t ∈ s.tokens, t.task = task → t.delay = 0) ∧
        (mid.countP (·.takes task) = 0 ∨ mid.countP (·.takes task) = 1 ∧ s.tasks task = none)

/-- A task that was cancelled, and not scheduled again, is not scheduled. -/
def Cancelled (s : Timer) : Prop :=
  ∀ task pre mid, s.log = pre ++ .cancelled task :: mid → (∀ e ∈ mid, e.schedules task = false) →
    s.tasks task = none ∧ s.phase.takes task = false

/-- No token is earlier than a task that was taken, unless it was put before the present. -/
def Ordered (s : Timer) : Prop :=
  ∀ task time pre mid, s.log = pre ++ .taken task time :: mid → time ≤ s.now ∧
    ∀ t ∈ s.tokens, (∀ e ∈ mid, e.predates t.task = false) → time ≤ t.scheduledTime

/-- The task that was taken, and is not called yet -/
def Phase.pending : Phase → List Nat
  | .taken token => [token.task]
  | _ => []

def Started (s : Timer) : Prop := takenTasks s.log = startedTasks s.log ++ s.phase.pending

section history

variable {s t : Timer}

theorem Once.change (h : Once s) (hs : Sound s) (hchange : Change s t) : Once t := by
  intro task delay pre mid hlog hmid
  cases hchange with
  | elapse time => exact h task delay pre mid hlog hmid
  | add task' delay' period hrunning hnone hrepeats =>
    rcases split_concat hlog with ⟨-, he, rfl⟩ | ⟨mid', rfl, hlog'⟩
    · cases he
      refine ⟨hrepeats, ?_, ?_⟩
      · intro t ht htask
        rcases mem_or_eq_of_mem_insertBy ht with rfl | ht
        · rfl
        · exact absurd htask (hs.ne_of_none hnone ht)
      · exact .inl rfl
    · rw [List.forall_mem_append, List.forall_mem_singleton] at hmid
      have hne : task ≠ task' := by
        rintro rfl
        have hself := hmid.2
        simp [Event.schedules] at hself
      obtain ⟨hrep, htokens, hcount⟩ := h task delay pre mid' hlog' hmid.1
      refine ⟨hrep, ?_, ?_⟩
      · intro t ht htask
        rcases mem_or_eq_of_mem_insertBy ht with rfl | ht
        · exact absurd htask.symm hne
        · exact htokens t ht htask
      · dsimp only
        rw [countP_concat rfl, update_of_ne hne]
        exact hcount
  | cancel task' time hsome htakes =>
    obtain ⟨mid', rfl, hlog', hmid, -⟩ := split_later hlog Event.noConfusion hmid
    obtain ⟨hrep, htokens, hcount⟩ := h task delay pre mid' hlog' hmid
    refine ⟨hrep, ?_, ?_⟩
    · exact fun t ht => htokens t (mem_eraseBy.mp ht).1
    · dsimp only
      rw [countP_concat rfl]
      by_cases heq : task = task'
      · subst heq
        rw [update_self]
        exact hcount.imp id fun hone => ⟨hone.1, rfl⟩
      · rw [update_of_ne heq]
        exact hcount
  | destroy =>
    obtain ⟨hrep, -, hcount⟩ := h task delay pre mid hlog hmid
    exact ⟨hrep, nofun, hcount.imp id fun hone => ⟨hone.1, rfl⟩⟩
  | idle phase hphase hidle hrepeats =>
    obtain ⟨-, htokens, hcount⟩ := h task delay pre mid hlog hmid
    exact ⟨repeats_of_token_eq_none hphase, htokens, hcount⟩
  | reschedule token hrunning hphase hdelay hsome =>
    obtain ⟨mid', rfl, hlog', hmid, -⟩ := split_later hlog Event.noConfusion hmid
    obtain ⟨hrep, htokens, hcount⟩ := h task delay pre mid' hlog' hmid
    have hne : task ≠ token.task := by
      rintro rfl
      simp [Phase.repeats, Phase.token, hphase, hdelay] at hrep
    refine ⟨rfl, ?_, ?_⟩
    · intro t ht htask
      rcases mem_or_eq_of_mem_insertBy ht with rfl | ht
      · exact absurd htask.symm hne
      · exact htokens t ht htask
    · dsimp only
      rw [countP_concat rfl, update_of_ne hne]
      exact hcount
  | take first rest hphase htokens hdue =>
    obtain ⟨mid', rfl, hlog', hmid, -⟩ := split_later hlog Event.noConfusion hmid
    obtain ⟨-, hdelay, hcount⟩ := h task delay pre mid' hlog' hmid
    have hfirst : first ∈ s.tokens := by
      rw [htokens]
      exact mem_cons_self
    have hrest : ∀ t ∈ rest, t.task = task → t.delay = 0 := by
      intro t ht
      apply hdelay
      rw [htokens]
      exact List.mem_cons_of_mem _ ht
    by_cases heq : first.task = task
    · have hzero : first.delay = 0 := hdelay first hfirst heq
      have hnone : mid'.countP (·.takes task) = 0 := by
        rcases hcount with hzero | ⟨-, hnone⟩
        · exact hzero
        · exact absurd heq (hs.ne_of_none hnone hfirst)
      refine ⟨by simp [Phase.repeats, Phase.token, hzero], hrest, ?_⟩
      have htaken : (mid' ++ [Event.taken first.task first.scheduledTime]).countP
          (·.takes task) = mid'.countP (·.takes task) + 1 := by
        rw [List.countP_append, List.countP_singleton, if_pos (by exact decide_eq_true heq)]
      dsimp only
      rw [htaken, hnone, if_pos hzero, heq, update_self]
      exact .inr ⟨rfl, rfl⟩
    · refine ⟨by simp [Phase.repeats, Phase.token, heq], hrest, ?_⟩
      have hsame : (if first.delay = 0 then update s.tasks first.task none
          else s.tasks) task = s.tasks task := by
        split
        · exact update_of_ne (Ne.symm heq) ..
        · rfl
      dsimp only
      rw [countP_concat (by exact decide_eq_false heq), hsame]
      exact hcount
  | start token hphase =>
    obtain ⟨mid', rfl, hlog', hmid, -⟩ := split_later hlog Event.noConfusion hmid
    obtain ⟨hrep, htokens, hcount⟩ := h task delay pre mid' hlog' hmid
    rw [hphase] at hrep
    refine ⟨hrep, htokens, ?_⟩
    rw [countP_concat rfl]
    exact hcount
  | finish token hphase =>
    obtain ⟨hrep, htokens, hcount⟩ := h task delay pre mid hlog hmid
    refine ⟨?_, htokens, hcount⟩
    rw [hphase] at hrep
    split
    · rfl
    · exact hrep

theorem Cancelled.change (h : Cancelled s) (hs : Sound s) (hchange : Change s t) :
    Cancelled t := by
  intro task pre mid hlog hmid
  cases hchange with
  | elapse time => exact h task pre mid hlog hmid
  | add task' delay period hrunning hnone hrepeats =>
    obtain ⟨mid', rfl, hlog', hmid, hlast⟩ := split_later hlog Event.noConfusion hmid
    have hne : task ≠ task' := by
      rintro rfl
      have hself := hlast
      simp [Event.schedules] at hself
    obtain ⟨hnone', htakes⟩ := h task pre mid' hlog' hmid
    exact ⟨(update_of_ne hne ..).trans hnone', htakes⟩
  | cancel task' time hsome htakes =>
    rcases split_concat hlog with ⟨-, he, -⟩ | ⟨mid', rfl, hlog'⟩
    · cases he
      exact ⟨update_self .., htakes⟩
    · obtain ⟨hnone, htakes'⟩ := h task pre mid' hlog'
        fun e he => hmid e (mem_append_left _ he)
      refine ⟨?_, htakes'⟩
      by_cases heq : task = task'
      · subst heq
        exact update_self ..
      · exact (update_of_ne heq ..).trans hnone
  | destroy => exact ⟨rfl, (h task pre mid hlog hmid).2⟩
  | idle phase hphase hidle hrepeats =>
    refine ⟨(h task pre mid hlog hmid).1, ?_⟩
    cases phase with
    | taken token => cases hphase
    | _ => rfl
  | reschedule token hrunning hphase hdelay hsome =>
    obtain ⟨mid', rfl, hlog', hmid, -⟩ := split_later hlog Event.noConfusion hmid
    obtain ⟨hnone, -⟩ := h task pre mid' hlog' hmid
    have hne : task ≠ token.task := by
      rintro rfl
      rw [hnone] at hsome
      cases hsome
    exact ⟨(update_of_ne hne ..).trans hnone, rfl⟩
  | take first rest hphase htokens hdue =>
    obtain ⟨mid', rfl, hlog', hmid, -⟩ := split_later hlog Event.noConfusion hmid
    obtain ⟨hnone, -⟩ := h task pre mid' hlog' hmid
    have hne : first.task ≠ task := by
      apply hs.ne_of_none hnone
      rw [htokens]
      exact mem_cons_self
    refine ⟨?_, decide_eq_false hne⟩
    dsimp only
    split
    · exact (update_of_ne hne.symm ..).trans hnone
    · exact hnone
  | start token hphase =>
    obtain ⟨mid', rfl, hlog', hmid, -⟩ := split_later hlog Event.noConfusion hmid
    exact ⟨(h task pre mid' hlog' hmid).1, rfl⟩
  | finish token hphase => exact ⟨(h task pre mid hlog hmid).1, rfl⟩

section

variable (h : Ordered s)

include h

/-- A token that is put into the set is not earlier than what was taken, unless it is put before
the present. -/
theorem Ordered.insert {token : Token} {delay : Int} {e : Event}
    {tasks : Nat → Option Int} {phase : Phase} (htime : token.scheduledTime = s.now + delay)
    (hputs : delay < 0 → e.predates token.task = true) (he : ∀ task time, e ≠ .taken task time) :
    Ordered { s with
      tasks
      tokens := insertBy Token.key token s.tokens
      phase
      log := s.log ++ [e] } := by
  intro task time pre mid hlog
  rcases split_concat hlog with ⟨-, rfl, -⟩ | ⟨mid', rfl, hlog'⟩
  · exact absurd rfl (he task time)
  · obtain ⟨hnow, htokens⟩ := h task time pre mid' hlog'
    refine ⟨hnow, ?_⟩
    intro t ht hmid
    rw [List.forall_mem_append, List.forall_mem_singleton] at hmid
    rcases mem_or_eq_of_mem_insertBy ht with rfl | ht
    · have hnonneg : 0 ≤ delay := by
        by_contra hneg
        rw [hputs (not_le.mp hneg)] at hmid
        cases hmid.2
      omega
    · exact htokens t ht hmid.1

/-- Tokens go, and time passes. -/
theorem Ordered.mono {t : Timer} (hlog : t.log = s.log) (hnow : s.now ≤ t.now)
    (htokens : t.tokens ⊆ s.tokens) : Ordered t := by
  intro task time pre mid heq
  obtain ⟨hle, hall⟩ := h task time pre mid (hlog.symm.trans heq)
  exact ⟨hle.trans hnow, fun t ht => hall t (htokens ht)⟩

/-- Something happens, and nothing is taken. -/
theorem Ordered.tell {e : Event} (he : ∀ task time, e ≠ .taken task time) :
    Ordered { s with log := s.log ++ [e] } := by
  intro task time pre mid heq
  rcases split_concat heq with ⟨-, rfl, -⟩ | ⟨mid', rfl, hlog⟩
  · exact absurd rfl (he task time)
  · obtain ⟨hle, hall⟩ := h task time pre mid' hlog
    exact ⟨hle, fun t ht hmid => hall t ht fun e he => hmid e (mem_append_left _ he)⟩

theorem Ordered.change (hs : Sound s) (hchange : Change s t) : Ordered t := by
  cases hchange with
  | elapse time =>
    apply Ordered.mono h
    · rfl
    · exact Int.le_add_of_nonneg_right (Int.natCast_nonneg time)
    · exact List.Subset.refl _
  | add task delay period hrunning hnone hrepeats | reschedule token hrunning hphase hdelay hsome =>
    exact h.insert rfl (fun hneg => decide_eq_true ⟨rfl, hneg⟩) nofun
  | cancel task time hsome htakes =>
    have htell : Ordered { s with log := s.log ++ [.cancelled task] } := h.tell nofun
    apply Ordered.mono htell
    · rfl
    · exact le_refl _
    · exact fun t ht => (mem_eraseBy.mp ht).1
  | destroy =>
    apply Ordered.mono h
    · rfl
    · exact le_refl _
    · exact List.nil_subset _
  | idle phase hphase hidle hrepeats => exact h
  | take first rest hphase htokens hdue =>
    intro task time pre mid hlog
    rcases split_concat hlog with ⟨-, he, rfl⟩ | ⟨mid', rfl, hlog'⟩
    · cases he
      refine ⟨hdue, ?_⟩
      intro t ht _
      have hsorted := hs.sorted
      rw [htokens] at hsorted
      have hlt := (List.pairwise_cons.mp hsorted).1 t ht
      exact Prod.Lex.monotone_fst _ _ hlt.le
    · obtain ⟨hnow, hall⟩ := h task time pre mid' hlog'
      refine ⟨hnow, fun t ht hmid => hall t ?_ fun e he => hmid e (mem_append_left _ he)⟩
      rw [htokens]
      exact List.mem_cons_of_mem _ ht
  | start token hphase =>
    have htell : Ordered { s with log := s.log ++ [.started token.task] } := h.tell nofun
    exact htell
  | finish token hphase => exact h

end

theorem Started.change (h : Started s) (hchange : Change s t) : Started t := by
  rw [Started] at h
  cases hchange with
  | elapse time => exact h
  | add task delay period hrunning hnone hrepeats | cancel task time hsome htakes =>
    simpa [Started, takenTasks, startedTasks] using h
  | destroy => exact h
  | idle phase hphase hidle hrepeats =>
    have hbefore : s.phase.pending = [] := by
      cases hs : s.phase with
      | taken token => exact absurd hs (hidle token)
      | _ => rfl
    have hafter : phase.pending = [] := by
      cases phase with
      | taken token => cases hphase
      | _ => rfl
    rw [hbefore] at h
    rw [Started, hafter]
    exact h
  | reschedule token hrunning hphase hdelay hsome | start token hphase | finish token hphase =>
    simpa [Started, takenTasks, startedTasks, hphase, Phase.pending] using h
  | take first rest hphase htokens hdue =>
    have hbefore : s.phase.pending = [] := by
      cases hs : s.phase with
      | taken token => exact absurd hs (not_taken_of_token_eq_none hphase token)
      | _ => rfl
    rw [hbefore, List.append_nil] at h
    simpa [Started, takenTasks, startedTasks, Phase.pending] using h

end history

/-- What holds at each time of the history -/
structure History (log : List Event) : Prop where
  once : ∀ task delay pre mid, log = pre ++ .scheduled task delay 0 :: mid →
    (∀ e ∈ mid, e.schedules task = false) → mid.countP (·.takes task) ≤ 1
  cancelled : ∀ task pre mid, log = pre ++ .cancelled task :: (mid ++ [.started task]) →
    ∃ e ∈ mid, e.schedules task = true
  ordered : ∀ task task' time time' pre mid,
    log = pre ++ .taken task time :: (mid ++ [.taken task' time']) →
      (∀ e ∈ mid, e.predates task' = false) → time ≤ time'

/-- The invariant of a timer -/
structure Consistent (s : Timer) : Prop where
  sound : Sound s
  once : Once s
  cancelled : Cancelled s
  ordered : Ordered s
  started : Started s
  history : Always History s.log

section runs

variable {s t : Timer} {e : Event}

theorem last_concat {log pre mid : List Event} {x y : Event}
    (h : log ++ [e] = pre ++ x :: (mid ++ [y])) : e = y ∧ log = pre ++ x :: mid := by
  rw [← List.cons_append, ← List.append_assoc] at h
  obtain ⟨hlog, he⟩ := append_inj' h rfl
  exact ⟨singleton_inj.mp he, hlog⟩

/-- An event is told: a start does not follow a cancellation, and what is taken is not earlier. -/
theorem Consistent.tell (h : Consistent s) (honce : Once t) (hlog : t.log = s.log ++ [e])
    (hcancelled : ∀ task pre mid, e = .started task → s.log = pre ++ .cancelled task :: mid →
      ∃ e ∈ mid, e.schedules task = true)
    (hordered : ∀ task task' time time' pre mid, e = .taken task' time' →
      s.log = pre ++ .taken task time :: mid → (∀ e ∈ mid, e.predates task' = false) →
        time ≤ time') : Always History t.log := by
  have hlast : History (s.log ++ [e]) := by
    constructor
    · intro task delay pre mid heq hmid
      obtain ⟨-, -, hcount⟩ := honce task delay pre mid (hlog.trans heq) hmid
      omega
    · intro task pre mid heq
      obtain ⟨he, heq'⟩ := last_concat heq
      exact hcancelled task pre mid he heq'
    · intro task task' time time' pre mid heq
      obtain ⟨he, heq'⟩ := last_concat heq
      exact hordered task task' time time' pre mid he heq'
  rw [hlog]
  exact h.history.concat hlast

theorem Consistent.change (h : Consistent s) (hchange : Change s t) : Consistent t := by
  have honce : Once t := h.once.change h.sound hchange
  refine ⟨h.sound.change hchange, honce, h.cancelled.change h.sound hchange,
    h.ordered.change h.sound hchange, h.started.change hchange, ?_⟩
  cases hchange with
  | elapse time => exact h.history
  | add task delay period hrunning hnone hrepeats | cancel task time hsome htakes
  | reschedule token hrunning hphase hdelay hsome => exact h.tell honce rfl nofun nofun
  | destroy => exact h.history
  | idle phase hphase hidle hrepeats => exact h.history
  | take first rest hphase htokens hdue =>
    apply h.tell honce rfl nofun
    intro task task' time time' pre mid he hlog hmid
    cases he
    obtain ⟨-, hall⟩ := h.ordered task time pre mid hlog
    apply hall first _ hmid
    rw [htokens]
    exact mem_cons_self
  | start token hphase =>
    apply h.tell honce rfl _ nofun
    intro task pre mid he hlog
    cases he
    by_contra hnone
    have hmid : ∀ e ∈ mid, e.schedules token.task = false := by
      intro e hmem
      exact Bool.eq_false_iff.mpr fun hs => hnone ⟨e, hmem, hs⟩
    have htakes := (h.cancelled token.task pre mid hlog hmid).2
    rw [hphase] at htakes
    simp [Phase.takes] at htakes
  | finish token hphase => exact h.history

theorem Consistent.changes (h : Consistent s) (hchanges : Changes s t) : Consistent t := by
  induction hchanges with
  | refl => exact h
  | tail _ hchange ih => exact ih.change hchange

/-- A timer whose thread has just been started -/
def Timer.initial (now : Int) : Timer := { now }

theorem consistent_initial (now : Int) : Consistent (Timer.initial now) := by
  have hnil : ∀ {l : List Event} {x : Event} {mid : List Event}, [] ≠ l ++ x :: mid := by simp
  have hhistory : History [] :=
    ⟨fun _ _ _ _ h => absurd h hnil, fun _ _ _ h => absurd h hnil,
      fun _ _ _ _ _ _ h => absurd h hnil⟩
  constructor
  · exact ⟨List.Pairwise.nil, nofun, nofun, nofun, fun _ _ => rfl⟩
  · exact fun _ _ _ _ h => absurd h hnil
  · exact fun _ _ _ h => absurd h hnil
  · exact fun _ _ _ _ h => absurd h hnil
  · rfl
  · intro l hl
    rw [List.prefix_nil.mp hl]
    exact hhistory

theorem consistent_of_reach {now : Int}
    (h : Reach Timer.step Timer.Careful (Timer.initial now) s) : Consistent s := by
  apply h.invariant (consistent_initial now)
  intro s a t hs hcareful hstep
  exact hs.changes (changes_step hstep hcareful hs.sound.destroyed)

/-- The tokens of a task in an ordered set without two tokens for one task -/
theorem Sound.countP (h : Sound s) {task : Nat} (hsome : (s.tasks task).isSome = true) :
    s.tokens.countP (·.task = task) = if s.phase.repeats task then 0 else 1 := by
  split
  · rename_i hrep
    apply List.countP_eq_zero.mpr
    intro t ht
    simpa using h.repeats task hrep t ht
  · rename_i hrep
    obtain ⟨t, ht, rfl⟩ := h.tasks task hsome (by simpa using hrep)
    have hnodup : s.tokens.Nodup :=
      h.sorted.imp fun hlt heq => absurd (congrArg Token.key heq) hlt.ne
    rw [← List.count_eq_one_of_mem hnodup ht, List.count]
    apply List.countP_congr
    intro u hu
    simp only [decide_eq_true_eq, beq_iff_eq]
    constructor
    · exact h.eq_of_task hu ht
    · exact congrArg Token.task

/-- In a run in which a repeated task is not scheduled anew while it is being run, and a task is
not cancelled between being taken and being called, the timer is right at each time. -/
theorem timely_of_careful (now : Int) (s : Timer)
    (h : Reach Timer.step Timer.Careful (Timer.initial now) s) : Timely s := by
  have hc := consistent_of_reach h
  constructor
  · exact hc.sound.tokens
  · exact fun task hsome => hc.sound.countP hsome
  · intro task delay pre mid post hlog hmid
    have hprefix : pre ++ .scheduled task delay 0 :: mid <+: s.log := by
      rw [hlog]
      exact ⟨post, by simp⟩
    exact (hc.history _ hprefix).once task delay pre mid rfl hmid
  · intro task pre mid post hlog
    have hprefix : pre ++ .cancelled task :: (mid ++ [.started task]) <+: s.log := by
      rw [hlog]
      exact ⟨post, by simp⟩
    exact (hc.history _ hprefix).cancelled task pre mid rfl
  · intro task task' time time' pre mid post hlog
    have hprefix : pre ++ .taken task time :: (mid ++ [.taken task' time']) <+: s.log := by
      rw [hlog]
      exact ⟨post, by simp⟩
    exact (hc.history _ hprefix).ordered task task' time time' pre mid rfl
  · rw [hc.started]
    exact List.prefix_append _ _

end runs

/-- A repeated task is run. While it runs it is cancelled, and it may be scheduled again. -/
def cancelledInRun (again : List Action) : List Action :=
  [.scheduleRepeated 7 10, .enter 0, .elapse 10, .wake, .start, .cancel 7] ++ again ++
    [.finish, .enter 0]

theorem timely_of_cancelledInRun : ∃ s : Timer,
    Reach Timer.step Timer.Careful (Timer.initial 1) s ∧ s.log.length = 4 ∧ Timely s := by
  have hrun : (run (fun s a => if decide (s.Careful a) then Timer.step s a else none)
      (Timer.initial 1) (cancelledInRun [])).any
      (fun s => decide (s.log.length = 4)) = true := by decide +kernel
  obtain ⟨s, h, hs⟩ := Reach.exists_of_runWhere (fun _ _ => of_decide_eq_true) hrun
  exact ⟨s, h, of_decide_eq_true hs, timely_of_careful 1 s h⟩

/-- The thread finds the task that was scheduled again, and puts its own token back, too. -/
theorem not_timely_of_cancelledInRun : ¬∀ (now : Int) (s : Timer),
    Reach Timer.step Any (Timer.initial now) s → Timely s := by
  intro h
  have hrun : (run Timer.step (Timer.initial 1) (cancelledInRun [.schedule 7 100])).any
      (fun s => decide (s.tasks 7 = some 21 ∧
        s.tokens = [⟨21, 10, 7⟩, ⟨111, 0, 7⟩])) = true := by decide +kernel
  obtain ⟨s, hreach, hs⟩ := Reach.exists_of_run hrun
  obtain ⟨htasks, htokens⟩ := of_decide_eq_true hs
  have htime := (h 1 s hreach).tokens ⟨111, 0, 7⟩ (by rw [htokens]; simp)
  rw [htasks] at htime
  cases htime

end Ice.IceUtil
