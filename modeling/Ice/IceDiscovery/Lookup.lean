import Mathlib.Data.Finset.Sort
import Mathlib.Data.Prod.Lex
import Mathlib.Data.List.Lex
import Ice.Lib.Transition

/-!
# Lookups of IceDiscovery

A request asks all lookup proxies at once, again when its timer expires, and is answered by a
reply, by its timer, or when the invocations have failed. Every member of `LookupI` runs under the
mutex, so it is a step of its own.
-/

namespace Ice.IceDiscovery

/-- A proxy: what it is without its endpoints, and these. -/
abbrev Prx (τ ε : Type*) := τ ×ₗ List ε

namespace Prx

variable {τ ε : Type*}

def endpoints (p : Prx τ ε) : List ε := (ofLex p).2

/-- `ice_endpoints` -/
def iceEndpoints (p : Prx τ ε) (endpoints : List ε) : Prx τ ε := toLex ((ofLex p).1, endpoints)

end Prx

/-- What a request looks for, as the key of `_objectRequests` or of `_adapterRequests`. -/
inductive Key (ι : Type*)
  | object (id : ι)
  | adapter (adapterId : String)
  deriving DecidableEq, Repr

def Key.isObject {ι : Type*} : Key ι → Bool
  | .object _ => true
  | .adapter _ => false

/-- A request as the timer and the invocations know it. -/
structure Handle (ι : Type*) where
  key : Key ι
  requestId : Nat
  deriving DecidableEq, Repr

/-- `ObjectRequest` and `AdapterRequest`, which alone has the last members. Nil is in `_proxies`
besides `proxies` if `hasNil` is set. -/
structure Request (ι τ ε : Type*) extends Handle ι where
  retryCount : Int
  lookupCount : Nat
  failureCount : Nat
  callbacks : List Nat
  start : Int
  latency : Int
  proxies : Finset (Prx τ ε)
  hasNil : Bool := false

/-- An invocation on a lookup proxy, made in the given attempt of its request. -/
structure Invocation (ι : Type*) where
  request : Handle ι
  attempt : Nat
  lookup : Nat
  deriving DecidableEq, Repr

/-- Why a request is answered. -/
inductive Cause
  | reply
  | timeout
  | failure
  | shutdown
  deriving DecidableEq, Repr

/-- What the log of a lookup holds -/
inductive Event (ι τ ε : Type*)
  | invoked (request : Handle ι)
  | replied (request : Handle ι) (proxy : Option (Prx τ ε))
  | failed (invocation : Invocation ι)
  | expired (request : Handle ι)
  | shutdown
  | answered (callback : Nat) (request : Handle ι) (proxy : Option (Prx τ ε)) (cause : Cause)

/-- What the constructor of `LookupI` reads. There is a lookup proxy for each endpoint. -/
structure Config where
  lookups : Nat
  timeout : Int
  retryCount : Int
  latencyMultiplier : Int

/-- `LookupI`, its tasks in the timer, the task that the timer thread has taken, and the
invocations that are neither done nor failed. An exception that is none of a call of Ice escapes
from the member that throws it. -/
structure State (ι τ ε : Type*) where
  requests : List (Request ι τ ε) := []
  tasks : Handle ι → Option Int := fun _ => none
  taken : Option (Handle ι) := none
  invocations : List (Invocation ι) := []
  nextId : Nat := 0
  calls : Nat := 0
  escaped : Bool := false
  log : List (Event ι τ ε) := []

variable {ι τ ε : Type*}

/-- The handle an event is about -/
def Event.request? : Event ι τ ε → Option (Handle ι)
  | .invoked request => some request
  | .replied request _ => some request
  | .failed invocation => some invocation.request
  | .expired request => some request
  | .shutdown => none
  | .answered _ _ _ _ => none

/-- What the event tells the caller of a lookup -/
def Event.callback? : Event ι τ ε → Option Nat
  | .answered callback _ _ _ => some callback
  | _ => none

/-- An expiry of the timer of the request -/
def Event.expires [DecidableEq ι] (h : Handle ι) : Event ι τ ε → Bool
  | .expired request => request = h
  | _ => false

/-- An attempt of the request -/
def Event.invokes [DecidableEq ι] (h : Handle ι) : Event ι τ ε → Bool
  | .invoked request => request = h
  | _ => false

section

variable [DecidableEq ι]

/-- How often the request was invoked. -/
def attempts (log : List (Event ι τ ε)) (h : Handle ι) : Nat := log.countP (Event.invokes h)

/-- How often the timer of the request has expired. -/
def expiries (log : List (Event ι τ ε)) (h : Handle ι) : Nat := log.countP (Event.expires h)

end

namespace Request

/-- `retry` of `Request`, and of `AdapterRequest` -/
def retry [LinearOrder τ] [LinearOrder ε] (r : Request ι τ ε) : Bool × Request ι τ ε :=
  match r.key with
  | .object _ => (0 ≤ r.retryCount - 1, { r with retryCount := r.retryCount - 1 })
  | .adapter _ =>
    if r.proxies = ∅ ∧ r.hasNil = false then
      (0 ≤ r.retryCount - 1, { r with retryCount := r.retryCount - 1 })
    else (false, r)

/-- What the members of a replica group are merged to -/
def merged [LinearOrder τ] [LinearOrder ε] (r : Request ι τ ε) : Option (Prx τ ε) :=
  match r.proxies.sort (· ≤ ·) with
  | [] => none
  | [p] => some p
  | p :: l => some (p.iceEndpoints ((p :: l).flatMap Prx.endpoints))

/-- The proxy that `finished` gives to the callbacks; where nil is among several members of a
replica group it throws, as it asks each for its endpoints. -/
def result [LinearOrder τ] [LinearOrder ε] (r : Request ι τ ε) (proxy : Option (Prx τ ε)) :
    Option (Option (Prx τ ε)) :=
  match proxy with
  | some p => some (some p)
  | none => if r.hasNil ∧ r.proxies ≠ ∅ then none else some r.merged

/-- `_proxies.insert` -/
def insert [LinearOrder τ] [LinearOrder ε] (r : Request ι τ ε) (proxy : Option (Prx τ ε)) :
    Request ι τ ε :=
  match proxy with
  | some p => { r with proxies := Insert.insert p r.proxies }
  | none => { r with hasNil := true }

end Request

namespace State

variable [DecidableEq ι] [LinearOrder τ] [LinearOrder ε] (c : Config) (s : State ι τ ε)

def lookUp (key : Key ι) : Option (Request ι τ ε) := s.requests.find? fun r => r.key = key

/-- The request in the map becomes `r`. -/
def store (r : Request ι τ ε) : State ι τ ε :=
  { s with requests := r :: s.requests.filter fun q => q.key ≠ r.key }

def erase (key : Key ι) : State ι τ ε :=
  { s with requests := s.requests.filter fun q => q.key ≠ key }

/-- `Timer::cancel` -/
def cancel (h : Handle ι) : State ι τ ε := { s with tasks := Function.update s.tasks h none }

/-- `Timer::schedule`, which throws if the task is already scheduled. -/
def schedule (h : Handle ι) (delay : Int) : State ι τ ε :=
  match s.tasks h with
  | none => { s with tasks := Function.update s.tasks h (some delay) }
  | some _ => { s with escaped := true }

/-- The callbacks are called. -/
def finished (r : Request ι τ ε) (proxy : Option (Prx τ ε)) (cause : Cause) : State ι τ ε :=
  { s with log := s.log ++ r.callbacks.map fun cb => .answered cb r.toHandle proxy cause }

/-- `finished`, and the rest of a member, which is left out if it throws -/
def finish (r : Request ι τ ε) (proxy : Option (Prx τ ε)) (cause : Cause)
    (rest : State ι τ ε → State ι τ ε) : State ι τ ε :=
  match r.result proxy with
  | none => { s.store r with escaped := true }
  | some p => rest (s.finished r p cause)

/-- `Request::invoke`, which throws when the communicator is destroyed before all is sent. -/
def invoke (r : Request ι τ ε) (sent : Nat) : State ι τ ε :=
  let attempt := attempts s.log r.toHandle + 1
  { s.store { r with lookupCount := c.lookups, failureCount := 0 } with
    invocations := s.invocations ++
      (List.range (min sent c.lookups)).map fun i => ⟨r.toHandle, attempt, i⟩
    log := s.log ++ .invoked r.toHandle :: if sent < c.lookups then [.shutdown] else [] }

/-- The request for the key, or a new one -/
def request (key : Key ι) (now : Int) : Request ι τ ε :=
  (s.lookUp key).getD
    { key
      requestId := s.nextId
      retryCount := c.retryCount
      lookupCount := 0
      failureCount := 0
      callbacks := []
      start := now
      latency := 0
      proxies := ∅ }

/-- `findObject` and `findAdapter` -/
def find (key : Key ι) (now : Int) (sent : Nat) : State ι τ ε :=
  let r := s.request c key now
  let r := { r with callbacks := r.callbacks ++ [s.calls] }
  let s := { s with
    nextId := if (s.lookUp key).isSome then s.nextId else s.nextId + 1
    calls := s.calls + 1 }
  if r.callbacks.length = 1 then
    let t := s.invoke c r sent
    if sent < c.lookups then t.finish r none .shutdown (·.erase key)
    else t.schedule r.toHandle c.timeout
  else s.store r

/-- `foundObject` -/
def foundObject (id : ι) (requestId : Nat) (proxy : Option (Prx τ ε)) : State ι τ ε :=
  match s.lookUp (.object id) with
  | none => s
  | some r =>
    if r.requestId = requestId then
      s.finish r proxy .reply fun t => (t.cancel r.toHandle).erase r.key
    else s

/-- `AdapterRequest::response` of a member of a replica group -/
def replica (r : Request ι τ ε) (proxy : Option (Prx τ ε)) (now : Int) : State ι τ ε :=
  let latency := (now - r.start) * c.latencyMultiplier
  let t :=
    if r.latency = 0 then
      ((s.store ({ r with latency }.insert proxy)).cancel r.toHandle).schedule r.toHandle latency
    else s.store (r.insert proxy)
  { t with log := t.log ++ [.replied r.toHandle proxy] }

/-- `foundAdapter` -/
def foundAdapter (adapterId : String) (requestId : Nat) (proxy : Option (Prx τ ε))
    (isReplicaGroup : Bool) (now : Int) : State ι τ ε :=
  match s.lookUp (.adapter adapterId) with
  | none => s
  | some r =>
    if r.requestId = requestId then
      if isReplicaGroup then s.replica c r proxy now
      else s.finish r proxy .reply fun t => (t.cancel r.toHandle).erase r.key
    else s

/-- `objectRequestTimedOut` and `adapterRequestTimedOut` -/
def requestTimedOut (h : Handle ι) (sent : Nat) : State ι τ ε :=
  match s.lookUp h.key with
  | none => s
  | some r =>
    if r.toHandle = h then
      let s : State ι τ ε := { s with log := s.log ++ [.expired h] }
      if r.retry.1 then
        let t := s.invoke c r.retry.2 sent
        if sent < c.lookups then
          t.finish r.retry.2 none .shutdown fun t => (t.erase h.key).cancel h
        else t.schedule h c.timeout
      else s.finish r.retry.2 none .timeout fun t => (t.erase h.key).cancel h
    else s

/-- `objectRequestException` and `adapterRequestException` -/
def requestException (h : Handle ι) : State ι τ ε :=
  match s.lookUp h.key with
  | none => s
  | some r =>
    if r.toHandle = h then
      let r := { r with failureCount := r.failureCount + 1 }
      if r.failureCount = r.lookupCount then
        s.finish r none .failure fun t => (t.cancel h).erase h.key
      else s.store r
    else s

/-- A loop of `destroy`, and what comes behind it -/
def finishAll (s : State ι τ ε) (rest : State ι τ ε → State ι τ ε) :
    List (Request ι τ ε) → State ι τ ε
  | [] => rest s
  | r :: requests =>
    s.finish r none .shutdown fun t => (t.cancel r.toHandle).finishAll rest requests

/-- `destroy` -/
def destroy : State ι τ ε :=
  let adapters := s.requests.filter (!·.key.isObject)
  let s : State ι τ ε := { s with log := s.log ++ [.shutdown] }
  s.finishAll (fun t => { t with requests := adapters }.finishAll
    (fun t => { t with requests := [] }) adapters) (s.requests.filter (·.key.isObject))

end State

/-- Calls of the members, what the timer thread does, and the end of an invocation. Where a member
invokes, `sent` invocations are made before the communicator is destroyed. -/
inductive Action (ι τ ε : Type*)
  | findObject (id : ι) (now : Int) (sent : Nat)
  | findAdapter (adapterId : String) (now : Int) (sent : Nat)
  | foundObject (id : ι) (requestId : Nat) (proxy : Option (Prx τ ε))
  | foundAdapter (adapterId : String) (requestId : Nat) (proxy : Option (Prx τ ε))
      (isReplicaGroup : Bool) (now : Int)
  | take (h : Handle ι)
  | runTimerTask (sent : Nat)
  | completed (i : Invocation ι)
  | exception (i : Invocation ι)
  | destroy

variable [DecidableEq ι] [LinearOrder τ] [LinearOrder ε]

def step (c : Config) (s : State ι τ ε) : Action ι τ ε → Option (State ι τ ε)
  | .findObject id now sent => some (s.find c (.object id) now sent)
  | .findAdapter adapterId now sent => some (s.find c (.adapter adapterId) now sent)
  | .foundObject id requestId proxy => some (s.foundObject id requestId proxy)
  | .foundAdapter adapterId requestId proxy isReplicaGroup now =>
    some (s.foundAdapter c adapterId requestId proxy isReplicaGroup now)
  | .take h =>
    if s.taken = none ∧ (s.tasks h).isSome then some { s.cancel h with taken := some h } else none
  | .runTimerTask sent =>
    match s.taken with
    | none => none
    | some h => some (State.requestTimedOut c { s with taken := none } h sent)
  | .completed i =>
    if i ∈ s.invocations then some { s with invocations := s.invocations.erase i } else none
  | .exception i =>
    if i ∈ s.invocations then
      some (State.requestException
        { s with invocations := s.invocations.erase i, log := s.log ++ [.failed i] } i.request)
    else none
  | .destroy => some s.destroy

/-- When a request may be answered, and with what: as soon as a member of the replica group has
replied, with the endpoints of all that have; with nothing only when no retry is left. -/
structure Due (c : Config) (before : List (Event ι τ ε)) (h : Handle ι) (proxy : Option (Prx τ ε))
    (cause : Cause) : Prop where
  included : ∀ p, .replied h (some p) ∈ before →
    ∃ q, proxy = some q ∧ p.endpoints ⊆ q.endpoints
  reply : cause = .reply → proxy ≠ none
  timeout : cause = .timeout → proxy = none →
    0 < expiries before h ∧ c.retryCount < expiries before h
  failure : cause = .failure → ∀ i < c.lookups, .failed ⟨h, attempts before h, i⟩ ∈ before
  shutdown : cause = .shutdown → .shutdown ∈ before

/-- Every answer was due when it was given. -/
def Told (c : Config) (log : List (Event ι τ ε)) : Prop :=
  ∀ before after cb h proxy cause,
    log = before ++ .answered cb h proxy cause :: after → Due c before h proxy cause

/-- A callback that was not called waits for the timer, which expires so often at the most. -/
structure Waits (c : Config) (s : State ι τ ε) (cb : Nat) : Prop where
  unanswered : cb ∉ s.log.filterMap Event.callback?
  pending : ∃ r ∈ s.requests, cb ∈ r.callbacks ∧
    ((s.tasks r.toHandle).isSome ∨ s.taken = some r.toHandle) ∧
    expiries s.log r.toHandle ≤ c.retryCount.toNat

/-- Every callback waits or was called once, and with what the replies say. -/
structure Kept (c : Config) (s : State ι τ ε) : Prop where
  once : ∀ cb < s.calls, (s.log.filterMap Event.callback?).count cb = 1 ∨ Waits c s cb
  told : Told c s.log
  escaped : s.escaped = false

/-- No failure of an earlier attempt arrives while the request waits in a later one, no reply to a
request is nil, and no adapter replies where members of a replica group have replied. -/
def Careful (s : State ι τ ε) : Action ι τ ε → Prop
  | .exception i =>
    ∀ r ∈ s.requests, r.toHandle = i.request → i.attempt = attempts s.log i.request
  | .foundObject id requestId proxy =>
    ∀ r ∈ s.requests, r.toHandle = ⟨.object id, requestId⟩ → proxy.isSome
  | .foundAdapter adapterId requestId proxy isReplicaGroup _ =>
    ∀ r ∈ s.requests, r.toHandle = ⟨.adapter adapterId, requestId⟩ →
      proxy.isSome ∧ (isReplicaGroup = false → r.proxies = ∅)
  | _ => True

instance (s : State ι τ ε) (a : Action ι τ ε) : Decidable (Careful s a) :=
  match a with
  | .exception i => inferInstanceAs (Decidable (∀ r ∈ s.requests,
    r.toHandle = i.request → i.attempt = attempts s.log i.request))
  | .foundObject id requestId proxy => inferInstanceAs (Decidable (∀ r ∈ s.requests,
    r.toHandle = ⟨.object id, requestId⟩ → proxy.isSome))
  | .foundAdapter adapterId requestId proxy isReplicaGroup _ =>
    inferInstanceAs (Decidable (∀ r ∈ s.requests, r.toHandle = ⟨.adapter adapterId, requestId⟩ →
      proxy.isSome ∧ (isReplicaGroup = false → r.proxies = ∅)))
  | .findObject _ _ _ => isTrue trivial
  | .findAdapter _ _ _ => isTrue trivial
  | .take _ => isTrue trivial
  | .runTimerTask _ => isTrue trivial
  | .completed _ => isTrue trivial
  | .destroy => isTrue trivial

end Ice.IceDiscovery
