import Ice.IceStorm.Records

/-!
# Subscribers

The state of one `Subscriber` object with what the run time and the batch timer
still hold for it: the asynchronous sends whose callback is to come, and the
flush tasks that are scheduled. Every method holds `_lock` from its first to its
last access, so each is one function. The result of a send is an argument: it may
be sent at once, be sent later, or fail before anything is queued. Metrics
observers and the wake-up of a waiting `shutdown` are left out.
-/

namespace Ice.IceStorm

/-- The data of a published event. -/
structure EventData where
  op : String
  mode : Nat
  data : List UInt8
  context : List (String × String)
  deriving DecidableEq, Repr

/-- `Instance::SendQueueSizeMaxPolicy`. -/
inductive SendQueueSizeMaxPolicy
  | removeSubscriber | dropEvents
  deriving DecidableEq, Repr

/-- The settings of the service that subscribers and topics read. -/
structure Instance where
  instanceName : String
  discardInterval : Int
  sendTimeout : Int
  sendQueueSizeMax : Int
  sendQueueSizeMaxPolicy : SendQueueSizeMaxPolicy
  /-- An empty property counts as unset and has a default. -/
  named : instanceName ≠ ""
  deriving DecidableEq, Repr

/-- The default properties. -/
def Instance.defaults : Instance := ⟨"IceStorm", 60, 60000, -1, .removeSubscriber, by decide⟩

/-- The exceptions of a send, as far as `error` tells them apart. -/
inductive SendException
  | objectNotExist | notRegistered | sendQueueSizeMaxReached | other
  deriving DecidableEq, Repr

/-- A hard error is an ObjectNotExistException, a NotRegisteredException or the
full queue. -/
def SendException.hardError : SendException → Bool
  | .other => false
  | _ => true

/-- What becomes of a `begin_` call. -/
inductive SendOutcome
  | sentSynchronously
  | sentAsynchronously
  | failed (e : SendException)
  deriving DecidableEq, Repr

/-- The subclasses of `Subscriber`; an ordered subscriber is a `SubscriberTwoway`
with one outstanding event. -/
inductive SubscriberKind
  | batch
  | oneway
  | twoway (ordered : Bool)
  | link
  deriving DecidableEq, Repr

/-- `_maxOutstanding`, which each constructor passes to the base class. -/
def SubscriberKind.maxOutstanding : SubscriberKind → Int
  | .batch => 1
  | .oneway => 5
  | .twoway true => 1
  | .twoway false => 5
  | .link => 1

theorem SubscriberKind.maxOutstanding_pos (k : SubscriberKind) : 0 < k.maxOutstanding := by
  rcases k with _ | _ | (_ | _) | _ <;> decide

/-- `Subscriber::SubscriberState`. -/
inductive SubscriberState
  | online | offline | error | reaped
  deriving DecidableEq, Repr

/-- `_state >= SubscriberStateError`. -/
def SubscriberState.errored : SubscriberState → Bool
  | .error | .reaped => true
  | .online | .offline => false

/-- One subscriber with its outstanding sends and its scheduled flush tasks. -/
structure Subscriber where
  record : SubscriberRecord
  kind : SubscriberKind
  retryCount : Int
  shutdown : Bool
  state : SubscriberState
  outstanding : Int
  events : List EventData
  next : Int
  currentRetry : Int
  /-- The sends whose `sent`, `completed` or `exception` callback is to come. -/
  sends : List (List EventData)
  /-- The `FlushTimerTask`s that the batch timer has not run yet. -/
  flushTasks : Nat
  deriving DecidableEq, Repr

namespace Subscriber

/-- The base class constructor. -/
def new (record : SubscriberRecord) (kind : SubscriberKind) (retryCount : Int) : Subscriber where
  record := record
  kind := kind
  retryCount := retryCount
  shutdown := false
  state := .online
  outstanding := 0
  events := []
  next := 0
  currentRetry := 0
  sends := []
  flushTasks := 0

/-- Callbacks and flush tasks that are still to come. -/
def pending (s : Subscriber) : Nat := s.sends.length + s.flushTasks

/-- `Subscriber::id`. -/
def id (s : Subscriber) : Identity := s.record.id

/-- `Subscriber::errored`. -/
def errored (s : Subscriber) : Bool := s.state.errored

/-- The retry test of `error`. -/
def mayRetry (s : Subscriber) : Bool :=
  s.retryCount == -1 || decide (s.currentRetry < s.retryCount)

/-- `Subscriber::error`. -/
def error (inst : Instance) (now : Int) (dec : Bool) (e : SendException) (s : Subscriber) :
    Subscriber :=
  let s := if dec then { s with outstanding := s.outstanding - 1 } else s
  if s.state.errored then s
  else if !e.hardError && s.state == .offline && decide (now < s.next) then s
  else if !e.hardError && s.mayRetry then
    { s with
      next := now + inst.discardInterval
      currentRetry := s.currentRetry + 1
      events := []
      state := .offline }
  else { s with events := [], state := .error }

/-- The loop of the oneway and twoway `flush`: while fewer than `_maxOutstanding`
sends are outstanding the head of the queue is sent, and a send that fails ends it. -/
def sendLoop (invoke : EventData → SendOutcome → Subscriber → Subscriber × Bool) :
    List EventData → List SendOutcome → Subscriber → Subscriber
  | [], _, s => s
  | e :: rest, outcomes, s =>
    if s.outstanding < s.kind.maxOutstanding then
      match invoke e (outcomes.headD .sentAsynchronously) { s with events := rest } with
      | (s, true) => sendLoop invoke rest outcomes.tail s
      | (s, false) => s
    else s

/-- The body of the loop of `SubscriberOneway::flush`. -/
def invokeOneway (inst : Instance) (now : Int) (e : EventData) (outcome : SendOutcome)
    (s : Subscriber) : Subscriber × Bool :=
  match outcome with
  | .sentSynchronously => (s, true)
  | .sentAsynchronously =>
    ({ s with outstanding := s.outstanding + 1, sends := s.sends ++ [[e]] }, true)
  | .failed x => (s.error inst now true x, false)

/-- The body of the loop of `SubscriberTwoway::flush`. -/
def invokeTwoway (inst : Instance) (now : Int) (e : EventData) (outcome : SendOutcome)
    (s : Subscriber) : Subscriber × Bool :=
  let s := { s with outstanding := s.outstanding + 1 }
  match outcome with
  | .failed x => (s.error inst now true x, false)
  | _ => ({ s with sends := s.sends ++ [[e]] }, true)

/-- `atoi` on a decimal number, which is what costs are written as. -/
def atoi (text : String) : Int :=
  let digits (cs : List Char) : Nat :=
    (cs.takeWhile Char.isDigit).foldl (fun n c => 10 * n + (c.toNat - '0'.toNat)) 0
  match text.toList.dropWhile Char.isWhitespace with
  | '-' :: cs => -(digits cs : Int)
  | '+' :: cs => digits cs
  | cs => digits cs

/-- The cost test of `SubscriberLink::flush`: events that have cost too much to
get here are not forwarded. -/
def forwards (s : Subscriber) (e : EventData) : Bool :=
  s.record.cost == 0 ||
    decide (((e.context.lookup "cost").map atoi).getD 0 ≤ s.record.cost)

/-- `flush` of the four subclasses. -/
def flush (inst : Instance) (now : Int) (outcomes : List SendOutcome) (s : Subscriber) :
    Subscriber :=
  match s.kind with
  | .batch =>
    if s.state != .online || s.events.isEmpty then s
    else if s.outstanding = 0 then
      { s with outstanding := s.outstanding + 1, flushTasks := s.flushTasks + 1 }
    else s
  | .oneway =>
    if s.state != .online || s.events.isEmpty then s
    else sendLoop (invokeOneway inst now) s.events outcomes s
  | .twoway _ =>
    if s.state != .online || s.events.isEmpty then s
    else sendLoop (invokeTwoway inst now) s.events outcomes s
  | .link =>
    if s.state != .online || decide (0 < s.outstanding) then s
    else
      let v := s.events.filter s.forwards
      let s := { s with events := [] }
      if v.isEmpty then s
      else
        let s := { s with outstanding := s.outstanding + 1 }
        match outcomes.headD .sentAsynchronously with
        | .failed x => s.error inst now true x
        | _ => { s with sends := s.sends ++ [v] }

/-- `SubscriberBatch::doFlush`; `outcome` is what becomes of the batched
invocations and of the flush of the batch. -/
def doFlush (inst : Instance) (now : Int) (outcome : SendOutcome) (s : Subscriber) : Subscriber :=
  if s.state != .online then s
  else
    let v := s.events
    let s := { s with events := [] }
    match outcome with
    | .sentSynchronously => { s with outstanding := s.outstanding - 1 }
    | .sentAsynchronously => { s with sends := s.sends ++ [v] }
    | .failed x => s.error inst now false x

/-- The `sent` callback of a send that was not sent synchronously. Only a
`SubscriberOneway` waits for the other outstanding sends before it flushes. -/
def sent (inst : Instance) (now : Int) (outcomes : List SendOutcome) (s : Subscriber) :
    Subscriber :=
  let s := { s with outstanding := s.outstanding - 1 }
  match s.kind with
  | .oneway =>
    if decide (s.outstanding ≤ 0) && !s.events.isEmpty then s.flush inst now outcomes else s
  | _ => if !s.events.isEmpty then s.flush inst now outcomes else s

/-- `Subscriber::completed` for a reply without exception. -/
def completed (inst : Instance) (now : Int) (outcomes : List SendOutcome) (s : Subscriber) :
    Subscriber :=
  let s := { s with outstanding := s.outstanding - 1, currentRetry := 0 }
  if s.events.isEmpty && s.outstanding == 0 && s.shutdown then s else s.flush inst now outcomes

/-- The exception callback of each subclass: `SubscriberBatch` calls `error`
without counting the send down. -/
def exception (inst : Instance) (now : Int) (e : SendException) (s : Subscriber) : Subscriber :=
  s.error inst now (s.kind != .batch) e

/-- The loop of `queue` over the events; `none` when the full queue removes the
subscriber. -/
def push (inst : Instance) : List EventData → List EventData → Option (List EventData)
  | queued, [] => some queued
  | queued, e :: rest =>
    if (queued.length : Int) = inst.sendQueueSizeMax then
      match inst.sendQueueSizeMaxPolicy with
      | .removeSubscriber => none
      | .dropEvents => push inst (queued.tail ++ [e]) rest
    else push inst (queued ++ [e]) rest

/-- `Subscriber::queue`; `false` says that the subscriber should be reaped. -/
def queue (inst : Instance) (now : Int) (forwarded : Bool) (events : List EventData)
    (outcomes : List SendOutcome) (s : Subscriber) : Subscriber × Bool :=
  if forwarded && s.record.link then (s, true)
  else
    match s.state with
    | .offline => if now < s.next then (s, true) else enqueue { s with state := .online }
    | .online => enqueue s
    | .error => (s, false)
    | .reaped => (s, true)
where
  /-- The branch of the online state. -/
  enqueue (s : Subscriber) : Subscriber × Bool :=
    match push inst s.events events with
    | none => (s.error inst now false .sendQueueSizeMaxReached, false)
    | some queued => (({ s with events := queued }).flush inst now outcomes, true)

/-- `Subscriber::reap`. -/
def reap (s : Subscriber) : Subscriber × Bool :=
  if s.state == .error then ({ s with state := .reaped }, true) else (s, false)

/-- `Subscriber::resetIfReaped`. -/
def resetIfReaped (s : Subscriber) : Subscriber :=
  if s.state == .reaped then { s with state := .error } else s

end Subscriber

end Ice.IceStorm
