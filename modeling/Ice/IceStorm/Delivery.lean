import Ice.IceStorm.SubscriberQueue

/-!
# What becomes of the queued events

A `Delivery` is a subscriber that keeps the order of events (an ordered twoway
subscriber or a link) with the history of its queue: every event given to `queue`,
every event that left the queue and why, and what the proxy was given. The thread in
`shutdown` and the assertions on `_outstanding` are part of it. Without the history the
functions are those of `Subscriber`.
-/

namespace Ice.IceStorm

/-- The subscribers that have at most one send outstanding and wait for its answer. -/
def SubscriberKind.Ordered (k : SubscriberKind) : Prop := k = .twoway true ∨ k = .link

theorem SubscriberKind.Ordered.maxOutstanding {k : SubscriberKind} (h : k.Ordered) :
    k.maxOutstanding = 1 := by
  rcases h with rfl | rfl <;> rfl

/-- How an event left the queue. -/
inductive Fate
  | handed
  /-- Removed by `DropEvents`; `waiting` events were in the queue. -/
  | full (waiting : Nat)
  /-- Discarded by a subscriber in that state. -/
  | lost (state : SubscriberState)
  /-- Held back by the cost of the link. -/
  | cost
  deriving DecidableEq, Repr

/-- The thread in `shutdown`. -/
inductive Waiter
  | outside | waiting | notified | returned
  deriving DecidableEq, Repr

/-- A subscriber with the history of its queue. -/
structure Delivery where
  sub : Subscriber
  /-- The events given to `queue`; `true` for those the forwarding rule excludes. -/
  queued : List (EventData × Bool)
  /-- The events that left the queue, in that order. -/
  past : List (EventData × Fate)
  /-- The events of each `begin_` call. -/
  handed : List (List EventData)
  waiter : Waiter
  /-- An assertion on `_outstanding` failed. -/
  broken : Bool
  /-- `pop_front` was called on an empty queue. -/
  undefined : Bool
  deriving DecidableEq, Repr

namespace Delivery

/-- A new subscriber. -/
def new (record : SubscriberRecord) (kind : SubscriberKind) (retryCount : Int) : Delivery where
  sub := .new record kind retryCount
  queued := []
  past := []
  handed := []
  waiter := .outside
  broken := false
  undefined := false

/-- `_lock.notify()`. -/
def notify (d : Delivery) : Delivery :=
  { d with waiter := if d.waiter = .waiting then .notified else d.waiter }

/-- `--_outstanding` and its assertion. -/
def countDown (d : Delivery) : Delivery :=
  let n := d.sub.outstanding - 1
  { d with
    sub := { d.sub with outstanding := n }
    broken := d.broken || !(decide (0 ≤ n) && decide (n < d.sub.kind.maxOutstanding)) }

/-- Events that a subscriber in state `st` discards. -/
def lose (st : SubscriberState) (events : List EventData) (d : Delivery) : Delivery :=
  { d with past := d.past ++ events.map fun e => (e, .lost st) }

/-- The retry branch of `error`. -/
def goOffline (inst : Instance) (now : Int) (d : Delivery) : Delivery :=
  { d.lose .offline d.sub.events with
    sub :=
      { d.sub with
        next := now + inst.discardInterval
        currentRetry := d.sub.currentRetry + 1
        events := []
        state := .offline } }

/-- The other branch of `error`. -/
def errorOut (d : Delivery) : Delivery :=
  { d.lose .error d.sub.events with sub := { d.sub with events := [], state := .error } }

/-- `Subscriber::error`. -/
def error (inst : Instance) (now : Int) (dec : Bool) (e : SendException) (d : Delivery) :
    Delivery :=
  let d := if dec then d.countDown else d
  if d.sub.state.errored then
    if d.sub.shutdown then d.notify else d
  else if !e.hardError && d.sub.state == .offline && decide (now < d.sub.next) then d
  else
    let d := if !e.hardError && d.sub.mayRetry then d.goOffline inst now else d.errorOut
    if d.sub.shutdown && d.sub.events.isEmpty then d.notify else d

/-- The events `v` are given to the proxy: `fates` says what became of those taken from
the queue, `rest` stays. -/
def hand (fates : List (EventData × Fate)) (v rest : List EventData) (d : Delivery) : Delivery :=
  { d with
    sub := { d.sub with events := rest, outstanding := d.sub.outstanding + 1 }
    past := d.past ++ fates
    handed := d.handed ++ [v] }

/-- The run time holds the events `v` until it calls back. -/
def begun (v : List EventData) (d : Delivery) : Delivery :=
  { d with sub := { d.sub with sends := d.sub.sends ++ [v] } }

/-- The loop of `SubscriberTwoway::flush`. -/
def sendLoop (inst : Instance) (now : Int) :
    List EventData → List SendOutcome → Delivery → Delivery
  | [], _, d => d
  | e :: rest, outcomes, d =>
    if d.sub.outstanding < d.sub.kind.maxOutstanding then
      match outcomes.headD .sentAsynchronously with
      | .failed x => (d.hand [(e, .handed)] [e] rest).error inst now true x
      | _ => sendLoop inst now rest outcomes.tail ((d.hand [(e, .handed)] [e] rest).begun [e])
    else d

/-- What the cost rule of the link does with an event. -/
def costFate (s : Subscriber) (e : EventData) : EventData × Fate :=
  (e, if s.forwards e then .handed else .cost)

/-- `SubscriberLink::flush` of an online link without outstanding send. -/
def forward (inst : Instance) (now : Int) (outcome : SendOutcome) (d : Delivery) : Delivery :=
  let v := d.sub.events.filter d.sub.forwards
  let fates := d.sub.events.map (costFate d.sub)
  if v.isEmpty then { d with sub := { d.sub with events := [] }, past := d.past ++ fates }
  else
    match outcome with
    | .failed x => (d.hand fates v []).error inst now true x
    | _ => (d.hand fates v []).begun v

/-- `flush` of the two subclasses. -/
def flush (inst : Instance) (now : Int) (outcomes : List SendOutcome) (d : Delivery) : Delivery :=
  match d.sub.kind with
  | .link =>
    if d.sub.state != .online || decide (0 < d.sub.outstanding) then d
    else d.forward inst now (outcomes.headD .sentAsynchronously)
  | _ =>
    if d.sub.state != .online || d.sub.events.isEmpty then d
    else sendLoop inst now d.sub.events outcomes d

/-- `_events.pop_front()` of a full queue, then `_events.push_back(e)`. -/
def replace (e : EventData) (d : Delivery) : Delivery :=
  { d with
    sub := { d.sub with events := d.sub.events.tail ++ [e] }
    past := d.past ++ (d.sub.events.take 1).map fun x => (x, .full d.sub.events.length)
    undefined := d.undefined || d.sub.events.isEmpty }

/-- The loop of `queue` over the events; the events that are left over when the full
queue removes the subscriber. -/
def push (inst : Instance) : List EventData → Delivery → Delivery × List EventData
  | [], d => (d, [])
  | e :: rest, d =>
    if (d.sub.events.length : Int) = inst.sendQueueSizeMax then
      match inst.sendQueueSizeMaxPolicy with
      | .removeSubscriber => (d, e :: rest)
      | .dropEvents => push inst rest (d.replace e)
    else push inst rest { d with sub := { d.sub with events := d.sub.events ++ [e] } }

/-- The branch of the online state. -/
def enqueue (inst : Instance) (now : Int) (events : List EventData) (outcomes : List SendOutcome)
    (d : Delivery) : Delivery :=
  match d.push inst events with
  | (d, []) => d.flush inst now outcomes
  | (d, rest) => (d.error inst now false .sendQueueSizeMaxReached).lose .error rest

/-- The events of a call of `queue` are written down. -/
def logged (events : List (EventData × Bool)) (d : Delivery) : Delivery :=
  { d with queued := d.queued ++ events }

/-- The branches of `queue` by the state of the subscriber. -/
def accept (inst : Instance) (now : Int) (events : List EventData) (outcomes : List SendOutcome)
    (d : Delivery) : Delivery :=
  match d.sub.state with
  | .offline =>
    if now < d.sub.next then d.lose .offline events
    else { d with sub := { d.sub with state := .online } }.enqueue inst now events outcomes
  | .online => d.enqueue inst now events outcomes
  | .error => d.lose .error events
  | .reaped => d.lose .reaped events

/-- `Subscriber::queue`. -/
def queue (inst : Instance) (now : Int) (forwarded : Bool) (events : List EventData)
    (outcomes : List SendOutcome) (d : Delivery) : Delivery :=
  if forwarded && d.sub.record.link then d.logged (events.map fun e => (e, true))
  else (d.logged (events.map fun e => (e, false))).accept inst now events outcomes

/-- `Subscriber::completed` for a reply without exception. -/
def completed (inst : Instance) (now : Int) (outcomes : List SendOutcome) (d : Delivery) :
    Delivery :=
  let d := d.countDown
  let d := { d with sub := { d.sub with currentRetry := 0 } }
  if d.sub.events.isEmpty && d.sub.outstanding == 0 && d.sub.shutdown then d.notify
  else d.flush inst now outcomes

/-- The test of the loop in `shutdown`: the thread waits or goes on. -/
def await (d : Delivery) : Delivery :=
  { d with
    waiter :=
      if 0 < d.sub.outstanding ∧ d.sub.events ≠ [] then .waiting else .returned }

/-- What can happen to the subscriber; `wake` is the thread in `shutdown` that has been
notified, or wakes up by itself. -/
inductive Call
  | queue (now : Int) (forwarded : Bool) (events : List EventData) (outcomes : List SendOutcome)
  | completed (k : Nat) (now : Int) (outcomes : List SendOutcome)
  | exception (k : Nat) (now : Int) (e : SendException)
  | reap
  | resetIfReaped
  | shutdown
  | wake
  deriving DecidableEq, Repr

/-- The run time forgets a send once it has called back. -/
def called (k : Nat) (d : Delivery) : Delivery := { d with sub := d.sub.called k }

/-- One call. The service is stopped by one thread. -/
def step (inst : Instance) (d : Delivery) : Call → Option Delivery
  | .queue now forwarded events outcomes => some (d.queue inst now forwarded events outcomes)
  | .completed k now outcomes =>
    if k < d.sub.sends.length then some ((d.called k).completed inst now outcomes) else none
  | .exception k now e =>
    if k < d.sub.sends.length then some ((d.called k).error inst now true e) else none
  | .reap => some { d with sub := d.sub.reap.1 }
  | .resetIfReaped => some { d with sub := d.sub.resetIfReaped }
  | .shutdown =>
    if d.waiter = .outside then
      some { d with sub := { d.sub with shutdown := true } }.await
    else none
  | .wake => if d.waiter = .waiting ∨ d.waiter = .notified then some d.await else none

@[simp] theorem notify_sub (d : Delivery) : d.notify.sub = d.sub := rfl

@[simp] theorem logged_sub (events : List (EventData × Bool)) (d : Delivery) :
    (d.logged events).sub = d.sub := rfl

@[simp] theorem lose_sub (st : SubscriberState) (events : List EventData) (d : Delivery) :
    (d.lose st events).sub = d.sub := rfl

variable {inst : Instance} {now : Int} {outcomes : List SendOutcome} {events : List EventData}
  {d : Delivery}

theorem error_sub (dec : Bool) (e : SendException) :
    (d.error inst now dec e).sub = d.sub.error inst now dec e := by
  cases dec <;> simp only [error, Subscriber.error, countDown, goOffline, errorOut, lose,
    Bool.false_eq_true, if_true, if_false] <;> split_ifs <;> rfl

theorem sendLoop_sub :
    ∀ (outcomes : List SendOutcome) (d : Delivery),
      (sendLoop inst now events outcomes d).sub =
        Subscriber.sendLoop (Subscriber.invokeTwoway inst now) events outcomes d.sub := by
  induction events with
  | nil =>
    intro outcomes d
    rfl
  | cons e rest ih =>
    intro outcomes d
    rw [sendLoop, Subscriber.sendLoop]
    split_ifs with hlt
    · cases outcomes.headD .sentAsynchronously with
      | failed x =>
        simp only [error_sub, hand, Subscriber.invokeTwoway]
      | sentSynchronously | sentAsynchronously =>
        simp only [ih, hand, begun, Subscriber.invokeTwoway]
    · rfl

theorem flush_sub (hk : d.sub.kind.Ordered) :
    (d.flush inst now outcomes).sub = d.sub.flush inst now outcomes := by
  rcases hk with hk | hk
  · simp only [flush, Subscriber.flush, hk]
    split_ifs
    · rfl
    · exact sendLoop_sub outcomes d
  · simp only [flush, Subscriber.flush, hk]
    split_ifs with hidle hnone
    · rfl
    · simp only [forward, if_pos hnone, hk]
    · simp only [forward, if_neg hnone]
      cases outcomes.headD .sentAsynchronously <;> simp only [error_sub, hand, begun, hk]

/-- Only the queue of the subscriber changes in the loop of `queue`. -/
theorem push_sub (inst : Instance) (events : List EventData) :
    ∀ d : Delivery, (d.push inst events).1.sub =
      { d.sub with events := (d.push inst events).1.sub.events } := by
  induction events with
  | nil => exact fun d => rfl
  | cons e rest ih =>
    intro d
    rw [push]
    split_ifs
    · cases inst.sendQueueSizeMaxPolicy with
      | removeSubscriber => rfl
      | dropEvents => exact ih (d.replace e)
    · exact ih _

theorem push_events (inst : Instance) (events : List EventData) :
    ∀ d : Delivery, Subscriber.push inst d.sub.events events =
      if (d.push inst events).2 = [] then some (d.push inst events).1.sub.events else none := by
  induction events with
  | nil => exact fun d => rfl
  | cons e rest ih =>
    intro d
    rw [push, Subscriber.push]
    by_cases hfull : (d.sub.events.length : Int) = inst.sendQueueSizeMax
    · rw [if_pos hfull, if_pos hfull]
      cases inst.sendQueueSizeMaxPolicy with
      | removeSubscriber => rfl
      | dropEvents => exact ih (d.replace e)
    · rw [if_neg hfull, if_neg hfull]
      exact ih { d with sub := { d.sub with events := d.sub.events ++ [e] } }

/-- A full queue puts an online subscriber in error whatever was in the queue. -/
theorem error_full {s : Subscriber} (hon : s.state = .online) :
    ({ s with events := events }).error inst now false .sendQueueSizeMaxReached =
      s.error inst now false .sendQueueSizeMaxReached := by
  simp [Subscriber.error, hon, SubscriberState.errored, SendException.hardError]

theorem enqueue_sub (hk : d.sub.kind.Ordered) (hon : d.sub.state = .online) :
    (d.enqueue inst now events outcomes).sub =
      (Subscriber.queue.enqueue inst now events outcomes d.sub).1 := by
  have hsub := d.push_sub inst events
  have hev := d.push_events inst events
  unfold enqueue Subscriber.queue.enqueue
  rw [hev]
  rcases hp : d.push inst events with ⟨t, rest⟩
  rw [hp] at hsub
  cases rest with
  | nil =>
    simp only [if_true]
    rw [flush_sub (by rw [hsub]; exact hk)]
    exact congrArg _ hsub
  | cons e rest =>
    simp only [reduceCtorEq, if_false, lose_sub, error_sub]
    rw [hsub, error_full hon]

theorem accept_sub (hk : d.sub.kind.Ordered) :
    (d.accept inst now events outcomes).sub = (d.sub.queue inst now false events outcomes).1 := by
  rw [accept, Subscriber.queue]
  cases hs : d.sub.state
  case online => exact enqueue_sub hk hs
  case offline =>
    simp only [Bool.false_and, Bool.false_eq_true, if_false]
    split_ifs with hnext
    · rfl
    · exact enqueue_sub (d := { d with sub := { d.sub with state := .online } }) hk rfl
  case error | reaped => rfl

theorem queue_sub (forwarded : Bool) (hk : d.sub.kind.Ordered) :
    (d.queue inst now forwarded events outcomes).sub =
      (d.sub.queue inst now forwarded events outcomes).1 := by
  rw [queue]
  split_ifs with hlink
  · simp only [Subscriber.queue, if_pos hlink, logged_sub]
  · rw [accept_sub (d := d.logged _) hk]
    simp only [Subscriber.queue, if_neg hlink, Bool.false_and, Bool.false_eq_true, if_false,
      logged_sub]
    rfl

theorem completed_sub (hk : d.sub.kind.Ordered) :
    (d.completed inst now outcomes).sub = d.sub.completed inst now outcomes := by
  simp only [completed, Subscriber.completed]
  split_ifs with h h' h'
  · rfl
  · exact absurd h h'
  · exact absurd h' h
  · exact flush_sub hk

/-- The call of the subscriber; a thread that wakes up changes nothing. -/
def Call.subscriberCall : Call → Option SubscriberCall
  | .queue now forwarded events outcomes => some (.queue now forwarded events outcomes)
  | .completed k now outcomes => some (.completed k now outcomes)
  | .exception k now e => some (.exception k now e)
  | .reap => some .reap
  | .resetIfReaped => some .resetIfReaped
  | .shutdown => some .shutdown
  | .wake => none

/-- Every step is the call of the subscriber itself, with the history written down. -/
theorem step_sub {t : Delivery} {c : Call} (hk : d.sub.kind.Ordered)
    (h : d.step inst c = some t) :
    some t.sub = match c.subscriberCall with
      | some call => d.sub.step inst call
      | none => some d.sub := by
  have hback : ¬(d.sub.kind = .batch ∨ d.sub.kind = .oneway) := by
    rcases hk with hk | hk <;> simp [hk]
  have hbatch : (d.sub.kind != .batch) = true := by
    rcases hk with hk | hk <;> simp [hk]
  cases c with
  | queue now forwarded events outcomes =>
    cases h
    exact congrArg some (queue_sub forwarded hk)
  | completed k now outcomes =>
    simp only [step, Option.ite_none_right_eq_some, Option.some.injEq] at h
    obtain ⟨hlt, rfl⟩ := h
    simp only [Call.subscriberCall, Subscriber.step, if_pos (And.intro hback hlt)]
    exact congrArg some (completed_sub (d := d.called k) hk)
  | exception k now e =>
    simp only [step, Option.ite_none_right_eq_some, Option.some.injEq] at h
    obtain ⟨hlt, rfl⟩ := h
    simp only [Call.subscriberCall, Subscriber.step, if_pos hlt, error_sub, called,
      Subscriber.exception, Subscriber.called, hbatch]
  | reap | resetIfReaped =>
    cases h
    rfl
  | shutdown | wake =>
    simp only [step, Option.ite_none_right_eq_some, Option.some.injEq] at h
    obtain ⟨_, rfl⟩ := h
    rfl

end Delivery

end Ice.IceStorm
