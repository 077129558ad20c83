import Mathlib.Data.Prod.Lex
import Ice.Lib.KeyedSet
import Ice.Lib.Transition

/-!
# The timer

A timer keeps what is scheduled twice: the tasks with their times, and tokens in the order of
their times. Its thread takes the first token once it is due, runs the task, and puts the token
of a repeated task back afterwards.

What is done with the monitor locked is one action. A wait may end at any time, so `_wakeUpTime`
and the notifications are left out. Tasks are numbers, which stand for their addresses, and times
do not overflow.
-/

namespace Ice.IceUtil

open Lib

structure Token where
  scheduledTime : Int
  delay : Int
  task : Nat
  deriving DecidableEq, Repr

/-- What `operator<` compares -/
def Token.key (token : Token) : Int ×ₗ Nat := toLex (token.scheduledTime, token.task)

/-- Where the timer thread is, with its own copy of the token of a task that it took. -/
inductive Phase
  /-- It is about to lock the monitor. -/
  | locking (token : Option Token)
  /-- It waits for a token, or for the first token to be due. -/
  | waiting
  | timedWaiting
  /-- It has unlocked the monitor, and will call the task. -/
  | taken (token : Token)
  | running (token : Token)
  | ended
  deriving DecidableEq, Repr

/-- The history of a run; a token is put into the set when its task is scheduled, and when it is
scheduled again after it was run. -/
inductive Event
  | scheduled (task : Nat) (delay period : Int)
  | rescheduled (task : Nat) (delay : Int)
  | cancelled (task : Nat)
  | taken (task : Nat) (time : Int)
  | started (task : Nat)
  deriving DecidableEq, Repr

/-- A timer with its thread, the clock, and the history, which no code reads. -/
structure Timer where
  now : Int
  destroyed : Bool := false
  tokens : List Token := []
  tasks : Nat → Option Int := fun _ => none
  phase : Phase := .locking none
  log : List Event := []

namespace Timer

/-- What `schedule` and `scheduleRepeated` have in common: an exception is thrown with its text. -/
def add (task : Nat) (delay period : Int) (s : Timer) : Except String Timer :=
  if s.destroyed then .error "timer destroyed"
  else if 0 < delay ∧ s.now + delay < s.now then .error "invalid delay"
  else if (s.tasks task).isSome then .error "task is already scheduled"
  else .ok { s with
    tasks := Function.update s.tasks task (some (s.now + delay))
    tokens := insertBy Token.key ⟨s.now + delay, period, task⟩ s.tokens
    log := s.log ++ [.scheduled task delay period] }

def schedule (task : Nat) (delay : Int) : Timer → Except String Timer := add task delay 0

def scheduleRepeated (task : Nat) (delay : Int) : Timer → Except String Timer :=
  add task delay delay

def cancel (task : Nat) (s : Timer) : Bool × Timer :=
  if s.destroyed then (false, s)
  else
    match s.tasks task with
    | none => (false, s)
    | some time =>
      (true, { s with
        tokens := eraseBy Token.key (toLex (time, task)) s.tokens
        tasks := Function.update s.tasks task none
        log := s.log ++ [.cancelled task] })

def destroy (s : Timer) : Timer :=
  if s.destroyed then s
  else { s with destroyed := true, tasks := fun _ => none, tokens := [] }

/-- If the task that was run is a repeated one, it is scheduled again if it was not cancelled. -/
def reschedule (token : Option Token) (s : Timer) : Timer :=
  match token with
  | none => s
  | some token =>
    if token.delay ≠ 0 ∧ (s.tasks token.task).isSome then
      { s with
        tasks := Function.update s.tasks token.task (some (s.now + token.delay))
        tokens := insertBy Token.key { token with scheduledTime := s.now + token.delay } s.tokens
        log := s.log ++ [.rescheduled token.task token.delay] }
    else s

/-- The inner loop of `run`, until the monitor is unlocked: the first token is taken if it is
due, or waited for. -/
def next (s : Timer) : Timer :=
  if s.destroyed then { s with phase := .ended }
  else
    match s.tokens with
    | [] => { s with phase := .locking none }
    | first :: rest =>
      if first.scheduledTime ≤ s.now then
        { s with
          tokens := rest
          tasks := if first.delay = 0 then Function.update s.tasks first.task none else s.tasks
          phase := .taken first
          log := s.log ++ [.taken first.task first.scheduledTime] }
      else { s with phase := .timedWaiting }

/-- Time passes. -/
def elapse (time : Nat) (s : Timer) : Timer := { s with now := s.now + time }

/-- The thread locks the monitor. Time may pass between its two looks at the clock. -/
def enter (token : Option Token) (time : Nat) (s : Timer) : Timer :=
  if s.destroyed then { s with phase := .ended }
  else
    let t := (s.reschedule token).elapse time
    if t.tokens = [] then { t with phase := .waiting } else t.next

end Timer

/-- Calls of other threads and of the task that runs, and what the timer thread does -/
inductive Action
  | elapse (time : Nat)
  | schedule (task : Nat) (delay : Int)
  | scheduleRepeated (task : Nat) (delay : Int)
  | cancel (task : Nat)
  | destroy
  | enter (time : Nat)
  | wake
  | start
  | finish
  deriving DecidableEq, Repr

/-- A member that throws leaves the timer as it is. -/
def Timer.ofCall (s : Timer) : Except String Timer → Timer
  | .ok t => t
  | .error _ => s

def Timer.step (s : Timer) : Action → Option Timer
  | .elapse time => some (s.elapse time)
  | .schedule task delay => some (s.ofCall (s.schedule task delay))
  | .scheduleRepeated task delay => some (s.ofCall (s.scheduleRepeated task delay))
  | .cancel task => some (s.cancel task).2
  | .destroy => some s.destroy
  | .enter time =>
    match s.phase with
    | .locking token => some (s.enter token time)
    | _ => none
  | .wake =>
    match s.phase with
    | .waiting => some s.next
    | .timedWaiting => some s.next
    | _ => none
  | .start =>
    match s.phase with
    | .taken token =>
      some { s with phase := .running token, log := s.log ++ [.started token.task] }
    | _ => none
  | .finish =>
    match s.phase with
    | .running token =>
      some { s with phase := .locking (if token.delay = 0 then none else some token) }
    | _ => none

/-- The token of the task that the thread has taken -/
def Phase.token : Phase → Option Token
  | .locking token => token
  | .taken token => some token
  | .running token => some token
  | _ => none

/-- The task is a repeated one, and it is being run. -/
def Phase.repeats (phase : Phase) (task : Nat) : Bool :=
  phase.token.any fun token => token.delay ≠ 0 ∧ token.task = task

/-- The thread has taken the task, and has not called it yet. -/
def Phase.takes (task : Nat) : Phase → Bool
  | .taken token => token.task = task
  | _ => false

def Event.schedules (task : Nat) : Event → Bool
  | .scheduled task' _ _ => task' = task
  | _ => false

def Event.takes (task : Nat) : Event → Bool
  | .taken task' _ => task' = task
  | _ => false

/-- The token of the task is put before the present time. -/
def Event.predates (task : Nat) : Event → Bool
  | .scheduled task' delay _ => task' = task ∧ delay < 0
  | .rescheduled task' delay => task' = task ∧ delay < 0
  | _ => false

def takenTasks (log : List Event) : List Nat :=
  log.filterMap fun
    | .taken task _ => some task
    | _ => none

def startedTasks (log : List Event) : List Nat :=
  log.filterMap fun
    | .started task => some task
    | _ => none

/-- The tokens agree with the tasks: a task that is scheduled has one token, except for the
repeated one that is being run. A task that is scheduled once is taken once at most, and is not
started after it was cancelled. Tasks are taken in the order of their times, unless a negative
delay puts one before the present, and are started as they were taken. -/
structure Timely (s : Timer) : Prop where
  tokens : ∀ token ∈ s.tokens, s.tasks token.task = some token.scheduledTime
  tasks : ∀ task, (s.tasks task).isSome = true →
    s.tokens.countP (·.task = task) = if s.phase.repeats task then 0 else 1
  once : ∀ task delay pre mid post, s.log = pre ++ .scheduled task delay 0 :: (mid ++ post) →
    (∀ e ∈ mid, e.schedules task = false) → mid.countP (·.takes task) ≤ 1
  cancelled :
    ∀ task pre mid post, s.log = pre ++ .cancelled task :: (mid ++ .started task :: post) →
    ∃ e ∈ mid, e.schedules task = true
  ordered : ∀ task task' time time' pre mid post,
    s.log = pre ++ .taken task time :: (mid ++ .taken task' time' :: post) →
      (∀ e ∈ mid, e.predates task' = false) → time ≤ time'
  started : startedTasks s.log <+: takenTasks s.log

/-- The condition on the steps of a run: a repeated task that is being run is not scheduled anew,
and a task is not cancelled between being taken and being called. -/
def Timer.Careful (s : Timer) : Action → Prop
  | .schedule task _ => s.phase.repeats task = true → (s.tasks task).isSome = true
  | .scheduleRepeated task _ => s.phase.repeats task = true → (s.tasks task).isSome = true
  | .cancel task => s.phase.takes task = true → s.tasks task = none
  | _ => True

instance (s : Timer) (a : Action) : Decidable (s.Careful a) :=
  match a with
  | .schedule task _ => inferInstanceAs (Decidable (s.phase.repeats task = true → _))
  | .scheduleRepeated task _ => inferInstanceAs (Decidable (s.phase.repeats task = true → _))
  | .cancel task => inferInstanceAs (Decidable (s.phase.takes task = true → _))
  | .elapse _ => isTrue trivial
  | .destroy => isTrue trivial
  | .enter _ => isTrue trivial
  | .wake => isTrue trivial
  | .start => isTrue trivial
  | .finish => isTrue trivial

end Ice.IceUtil
