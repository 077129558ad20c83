import Mathlib
import Ice.Connection.ConnectionRun
import Ice.Lib.Concurrent

/-!
# Dispatching requests

What a thread does with the requests that `message` has counted, and how a request is completed:
`dispatch`, `invokeAll`, `Incoming` and `IncomingAsync`. A member of a connection has the
connection locked and is one action; `checkResponseSent` is one, too. What servants, locators
and interceptors do is left open. The observers are left out.
-/

namespace Ice.Protocol.Dispatching

open Lib
open Connection (SocketOperation)
open ConnectionI (DispatchCall Reading)

/-- A request for which `Incoming` was created. It is one of those that were counted. -/
structure Incoming where
  request : Nat
  /-- What the reply is sent for, and whether one is sent -/
  reply : ConnectionI.Incoming
  /-- `_locator` is set. -/
  locator : Bool := false
  inAsync : Option Nat := none
  deriving DecidableEq, Repr

structure IncomingAsync where
  incoming : Incoming
  responseSent : Bool := false
  /-- A completion that no interceptor keeps back was made, or `kill` was. -/
  completed : Bool := false
  deriving DecidableEq, Repr

/-- A connection with the requests that are dispatched. The rest is the history of a run and read
by no code: how often the connection was reaped, the requests that were counted, how often each
of them was released, and the callbacks that were counted and have not returned. -/
structure State where
  connection : ConnectionI
  incomings : List Incoming := []
  asyncs : List IncomingAsync := []
  reaps : Nat := 0
  counted : Nat := 0
  released : Nat → Nat := fun _ => 0
  callbacks : Int := 0

/-- What is thrown; `responseSent` is `ResponseSentException`, `std` stands for all that is no
local exception, and an assertion that fails ends the thread. -/
inductive Failure
  | localException (ex : LocalException)
  | responseSent
  | std
  | assertion
  deriving DecidableEq, Repr

/-- What a callback of an interceptor does. -/
inductive Intercepted
  | goOn
  | stop
  | throws
  deriving DecidableEq, Repr

/-- The actions that conditions on runs speak about. -/
inductive Point
  | internal
  | message (operation : SocketOperation) (reading : Reading)
  | iceException (callbacks : List Intercepted)
  /-- A text is logged for a request whose response another thread has sent. -/
  | warning

abbrev Task := Program State Point Failure

/-- One action that computes a result and a new state. -/
def perform {α : Type} (f : State → α × State) : Task α :=
  .act .internal fun s => [(.ok (f s).1, (f s).2)]

def modify (f : State → State) : Task Unit := perform fun s => ((), f s)

/-- One of some things happens. -/
def choose {α : Type} (l : List α) : Task α := .act .internal fun s => l.map fun x => (.ok x, s)

/-- A statement that reads or writes a stream. -/
def mayThrow : Task Unit :=
  .act .internal fun s =>
    [(.ok (), s), (.error (.localException .marshal), s), (.error (.localException .protocol), s)]

/-- `try { ... } catch(const LocalException&) { ... }` -/
def catchLocal {α : Type} (body : Task α) (handler : LocalException → Task α) : Task α :=
  tryCatch body fun
    | .localException ex => handler ex
    | e => throw e

/-- `try { ... } catch(...) { ... }` -/
def catchAll {α : Type} (body handler : Task α) : Task α :=
  tryCatch body fun
    | .assertion => throw .assertion
    | _ => handler

/-- A member of the connection that decreases the count: if nothing is left to be dispatched and
the connection is finished, it is reaped. -/
def State.lower (s : State) (n : Int) (member : ConnectionI.M Unit) : State :=
  { s with
    connection := final member s.connection
    reaps :=
      if s.connection.state = .finished ∧ Streams.toInt (s.connection.dispatchCount - n) = 0 then
        s.reaps + 1
      else s.reaps }

/-- Some requests are released, one after the other from the first one. -/
def State.release (s : State) (first n : Nat) : State :=
  { s with
    released := fun request =>
      s.released request + if first ≤ request ∧ request < first + n then 1 else 0 }

def sendResponse (incoming : Incoming) : Task Unit :=
  modify fun s =>
    (s.lower 1 (ConnectionI.sendResponse incoming.reply)).release incoming.request 1

def sendNoResponse (incoming : Incoming) : Task Unit :=
  modify fun s => (s.lower 1 ConnectionI.sendNoResponse).release incoming.request 1

/-- `invokeException` for a request and those behind it -/
def invokeException (first n : Nat) (ex : LocalException) : Task Unit :=
  .act .internal fun s =>
    if s.connection.dispatchCount < n then [(.error .assertion, s)]
    else [(.ok (), (s.lower n (ConnectionI.invokeException ex n)).release first n)]

/-- The response handler is told the end of a request. -/
def respond (incoming : Incoming) : Task Unit :=
  if incoming.reply.response then sendResponse incoming else sendNoResponse incoming

/-- `warning` with a text, which asks the connection for its information: a connection that is
closed throws its exception then. -/
def warning (point : Point) : Task Unit :=
  .act point fun s =>
    if .closed ≤ s.connection.state then
      [(.error (.localException (s.connection.exception.getD .other)), s)]
    else [(.ok (), s)]

/-- A warning of an exception: a text is logged for one that is not from Ice, if warnings are. -/
def warn (point : Point) : Task Unit := do
  if ← choose [true, false] then warning point else pure ()

/-- `handleException`; writing the exception to the reply may throw. -/
def handleException (incoming : Incoming) : Task Unit := do
  warn .internal
  if incoming.reply.response then do
    mayThrow
    sendResponse incoming
  else sendNoResponse incoming

/-- `servantLocatorFinished`; what the locator throws is sent. -/
def servantLocatorFinished (incoming : Incoming) : Task Bool := do
  if ← choose [true, false] then return true
  else
    handleException incoming
    return false

/-- What `response` and `exception` have in common. -/
def finishWith (incoming : Incoming) (finish : Task Unit) : Task Unit :=
  catchLocal
    (do
      let finished ← if incoming.locator then servantLocatorFinished incoming else pure true
      if finished then finish else pure ())
    (invokeException incoming.request 1)

/-- `IncomingBase::response` -/
def response (incoming : Incoming) : Task Unit := finishWith incoming (respond incoming)

/-- `IncomingBase::exception` -/
def exception (incoming : Incoming) : Task Unit := finishWith incoming (handleException incoming)

/-- `checkResponseSent` -/
def checkResponseSent (a : Nat) : Task Unit :=
  .act .internal fun s =>
    match s.asyncs[a]? with
    | none => [(.error .assertion, s)]
    | some async =>
      if async.responseSent then [(.error .responseSent, s)]
      else
        [(.ok (), { s with
          asyncs := s.asyncs.set a { async with responseSent := true, completed := true } })]

/-- `kill` -/
def kill (a : Nat) : Task Unit := checkResponseSent a

/-- `completed()`: what a callback of an interceptor throws is ignored. -/
def completed (a : Nat) (incoming : Incoming) (callbacks : List Intercepted) : Task Unit :=
  if callbacks.contains .stop then pure ()
  else do
    checkResponseSent a
    response incoming

/-- `completed(exception_ptr)` of the C++11 mapping -/
def completedWith (a : Nat) (incoming : Incoming) (callbacks : List Intercepted) : Task Unit :=
  if callbacks.contains .stop then pure ()
  else do
    checkResponseSent a
    exception incoming

/-- `ice_exception` of the C++98 mapping: it returns if a callback of an interceptor throws. -/
def iceException (a : Nat) (incoming : Incoming) (callbacks : List Intercepted) : Task Unit := do
  .act (.iceException callbacks) fun s => [(.ok (), s)]
  match callbacks.find? (· ≠ .goOn) with
  | some .stop => pure ()
  | some .throws =>
    modify fun s => { s with
      asyncs := s.asyncs.modify a fun async => { async with completed := true } }
  | _ =>
    checkResponseSent a
    exception incoming

/-- `Incoming` is created. -/
def create (incoming : Incoming) : Task Nat :=
  perform fun s => (s.incomings.length, { s with incomings := s.incomings ++ [incoming] })

def setInAsync (i : Nat) (inAsync : Option Nat) : Task Unit :=
  modify fun s => { s with
    incomings := s.incomings.modify i fun incoming => { incoming with inAsync := inAsync } }

def getInAsync (i : Nat) : Task (Option Nat) :=
  perform fun s => ((s.incomings[i]?.bind (·.inAsync)), s)

/-- An AMD dispatch creates an `IncomingAsync`, where there is none. -/
def createAsync (i : Nat) : Task Unit :=
  modify fun s =>
    match s.incomings[i]? with
    | none => s
    | some incoming =>
      if incoming.inAsync.isSome then s
      else
        { s with
          asyncs := s.asyncs ++ [{ incoming }]
          incomings := s.incomings.set i { incoming with inAsync := some s.asyncs.length } }

/-- `startOver` -/
def startOver (i : Nat) : Task Unit := do
  match ← getInAsync i with
  | none => pure ()
  | some a =>
    kill a
    setInAsync i none

/-- What a servant or an interceptor does in `_iceDispatch`. -/
inductive Choice
  | createAsync
  | iceDispatch
  | return
  | throw
  deriving DecidableEq, Repr

/-- `_servant->_iceDispatch`: the request may be dispatched asynchronously, and an interceptor may
dispatch it again and again. Where that throws, the interceptor goes on or comes to its end. -/
def serve (i : Nat) : Task Unit :=
  .loop do
    match ← choose [Choice.createAsync, .iceDispatch, .return, .throw] with
    | .createAsync => do
      createAsync i
      return none
    | .iceDispatch =>
      catchAll
        (do
          startOver i
          return none)
        (choose [none, some ()])
    | .return => return some ()
    | .throw => throw .std

/-- `kill`, where the response was not sent. -/
def killed (a : Nat) : Task Bool :=
  tryCatch
    (do
      kill a
      return true)
    fun
    | .responseSent => return false
    | e => throw e

/-- The part of `Incoming::invoke` that has a servant -/
def dispatchTo (i : Nat) (incoming : Incoming) : Task Unit :=
  catchAll
    (do
      serve i
      match ← getInAsync i with
      | some _ => pure ()
      | none => response incoming)
    (do
      match ← getInAsync i with
      | some a => do
        if ← killed a then exception incoming else warn .warning
      | none => exception incoming)

/-- How a servant is found. -/
inductive Lookup
  | servant
  | locator
  | locateFails
  | notFound
  deriving DecidableEq, Repr

/-- `Incoming::invoke` -/
def Incoming.invoke (incoming : Incoming) : Task Unit := do
  -- reading the current, which is fatal where it throws
  mayThrow
  match ← choose [Lookup.servant, .locator, .locateFails, .notFound] with
  | .servant => do
    let i ← create incoming
    dispatchTo i incoming
  | .locator => do
    let i ← create { incoming with locator := true }
    dispatchTo i { incoming with locator := true }
  | _ => do
    -- `skipReadParams`
    mayThrow
    handleException incoming

/-- `invokeAll` for the requests from the first one on -/
def invokeAll (reply : ConnectionI.Incoming) (first : Nat) : Nat → Task Unit
  | 0 => pure ()
  | n + 1 => do
    let failure ←
      catchLocal
        (do
          Incoming.invoke { request := first, reply }
          return none)
        fun ex => return some ex
    match failure with
    | none => invokeAll reply (first + 1) n
    | some ex => invokeException first (n + 1) ex

/-- `dispatch`; the callbacks return. -/
def dispatch (call : DispatchCall) (first : Nat) : Task Unit := do
  let datagram ← perform fun s => (s.connection.datagram, s)
  invokeAll ⟨call.request, call.requestId, !datagram && call.requestId ≠ 0⟩ first
    call.invokeNum.toNat
  if 0 < call.dispatchedCount then
    modify fun s => { s.lower call.dispatchedCount (ConnectionI.dispatched call) with
      callbacks := s.callbacks - call.dispatchedCount }
  else pure ()

/-- What a call of `message` hands to `dispatch`, and the connection after it. -/
def State.received (s : State) (operation : SocketOperation) (reading : Reading) :
    Option DispatchCall × ConnectionI :=
  let t := final (ConnectionI.message operation reading) { s.connection with calls := [] }
  (t.calls.head?, { t with calls := [] })

/-- `message`, with the call of `dispatch` -/
def message (operation : SocketOperation) (reading : Reading) : Task Unit := do
  let received ← .act (.message operation reading) fun s =>
    match s.received operation reading with
    | (none, connection) => [(.ok none, { s with connection })]
    | (some call, connection) =>
      [(.ok (some (call, s.counted)), { s with
        connection
        counted := s.counted + call.invokeNum.toNat
        callbacks := s.callbacks + call.dispatchedCount })]
  match received with
  | none => pure ()
  | some (call, first) => dispatch call first

/-- `finish`, which is called when the connection is closed -/
def finish : Task Unit :=
  modify fun s =>
    if s.connection.state = .closed then
      { s with
        connection := final ConnectionI.finish s.connection
        reaps := if s.connection.dispatchCount = 0 then s.reaps + 1 else s.reaps }
    else s

/-- The members that have nothing to do with requests that were received. -/
inductive Call
  | start (callback : Bool)
  | activate
  | hold
  | close (mode : ConnectionI.ConnectionClose)
  | destroy (reason : ConnectionI.DestructionReason)
  | monitor (acm : ConnectionI.Inactivity)
  | timedOut
  | exception (ex : LocalException)
  | setHeartbeatCallback (callback : Bool)
  | sendAsyncRequest (response : Bool) (refused : Option LocalException)
  | asyncRequestCanceled (out : Nat) (ex : LocalException)

def Call.member : Call → ConnectionI.M Unit
  | .start callback => ConnectionI.start callback
  | .activate => ConnectionI.activate
  | .hold => ConnectionI.hold
  | .close mode => ConnectionI.close mode
  | .destroy reason => ConnectionI.destroy reason
  | .monitor acm => ConnectionI.monitor acm
  | .timedOut => ConnectionI.timedOut
  | .exception ex => ConnectionI.failed ex
  | .setHeartbeatCallback callback => ConnectionI.setHeartbeatCallback callback
  | .sendAsyncRequest response refused => do
    let _ ← ConnectionI.sendAsyncRequest response refused
  | .asyncRequestCanceled out ex => ConnectionI.asyncRequestCanceled out ex

/-- How an asynchronous dispatch is completed. -/
inductive Completion
  | completed
  | completedWith
  | iceException
  deriving DecidableEq, Repr

/-- What happens: a call, a message, the end of the connection, a completion by a user thread, or
it is settled what the transceiver and the callbacks come back with from now on. -/
inductive Operation
  | call (call : Call)
  | message (operation : SocketOperation) (reading : Reading)
  | finish
  | complete (a : Nat) (completion : Completion) (callbacks : List Intercepted)
  | script (answers : List ConnectionI.Answer) (invokes : List Bool)

/-- A user completes an asynchronous dispatch. -/
def complete (a : Nat) (completion : Completion) (callbacks : List Intercepted) : Task Unit := do
  match ← perform fun s => (s.asyncs[a]?, s) with
  | none => pure ()
  | some async =>
    match completion with
    | .completed => Dispatching.completed a async.incoming callbacks
    | .completedWith => Dispatching.completedWith a async.incoming callbacks
    | .iceException => Dispatching.iceException a async.incoming callbacks

/-- The program of an operation -/
def Operation.run : Operation → Task Unit
  | .call c => modify fun s => { s with connection := final c.member s.connection }
  | .message operation reading => Dispatching.message operation reading
  | .finish => Dispatching.finish
  | .complete a completion callbacks => Dispatching.complete a completion callbacks
  | .script answers invokes =>
    modify fun s => { s with connection := { s.connection with answers, invokes } }

/-- A connection, and the threads that work for it -/
abbrev Machine := Lib.Machine State Point Failure Operation

def Machine.fresh (datagram : Bool) : Machine := ⟨{ connection := { datagram } }, []⟩

def Machine.move : Machine → Move Operation → Option Machine := Lib.Machine.move Operation.run

/-- The requests that were counted and are not released -/
def State.unreleased (s : State) : Int := s.counted - ((List.range s.counted).map s.released).sum

/-- The dispatch accounting: no request is released twice, and none is missing once nothing runs
any more and the asynchronous dispatches are completed; the count is that of the callbacks and
requests that are not released, and an `int` holds it; the connection is reaped once, when it is
finished and nothing is left; and no assertion fails. -/
structure Accounted (m : Machine) : Prop where
  once : ∀ request, m.shared.released request ≤ if request < m.shared.counted then 1 else 0
  released : m.quiescent = true → (∀ async ∈ m.shared.asyncs, async.completed = true) →
    m.shared.callbacks = 0 ∧ ∀ request < m.shared.counted, m.shared.released request = 1
  count : m.shared.connection.dispatchCount = m.shared.callbacks + m.shared.unreleased
  range : 0 ≤ m.shared.connection.dispatchCount ∧ m.shared.connection.dispatchCount < 2 ^ 31
  reaped : m.shared.reaps =
    if m.shared.connection.state = .finished ∧ m.shared.connection.dispatchCount = 0 then 1 else 0
  asserted : ∀ t ∈ m.threads, t.2.value? ≠ some (.error .assertion)

/-- What a call of `message` brings: a request, the requests of a batch, a callback -/
def State.arriving (s : State) (operation : SocketOperation) (reading : Reading) : Int :=
  match (s.received operation reading).1 with
  | none => 0
  | some call => call.dispatchedCount + call.invokeNum

/-- The condition on the steps of a run: an `int` can hold the count, no callback of an interceptor
makes `ice_exception` return by an exception, and the connection is not closed when a text is logged
for a request whose response was sent. -/
def Bounded (s : State) : Point → Prop
  | .internal => True
  | .message operation reading =>
    s.connection.dispatchCount + s.arriving operation reading < 2 ^ 31
  | .iceException callbacks => callbacks.find? (· ≠ .goOn) ≠ some .throws
  | .warning => ¬.closed ≤ s.connection.state

instance (s : State) (l : Point) : Decidable (Bounded s l) :=
  match l with
  | .internal => isTrue trivial
  | .message operation reading => inferInstanceAs
    (Decidable (s.connection.dispatchCount + s.arriving operation reading < 2 ^ 31))
  | .iceException callbacks => inferInstanceAs
    (Decidable (callbacks.find? (· ≠ .goOn) ≠ some .throws))
  | .warning => inferInstanceAs (Decidable (¬.closed ≤ s.connection.state))

end Ice.Protocol.Dispatching
