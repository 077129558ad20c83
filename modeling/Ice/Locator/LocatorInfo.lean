import Ice.Lib.Concurrent
import Ice.References.Marshaling

/-!
# Resolving references with a locator

`LocatorInfo` with its table and the requests it shares. A member of `LocatorTable` takes
the lock of the table and is one action, and so are the members that look up and create
requests. `Request::response` holds the monitor of the request from its first statement
until the answer is stored, and a thread that adds a callback waits for it. Traces are
left out.
-/

namespace Ice.References.RoutableReference

/-- `RoutableReference::isIndirect` -/
def isIndirect (r : RoutableReference) : Bool := r.endpoints.isEmpty

/-- `RoutableReference::isWellKnown` -/
def isWellKnown (r : RoutableReference) : Bool := r.endpoints.isEmpty && r.adapterId.isEmpty

end Ice.References.RoutableReference

namespace Ice.Locator

open Ice.Lib Streams References

abbrev Reference := RoutableReference

/-- What identifies a request: the key of the map it is in. -/
inductive Key
  | adapter (id : Str)
  | object (id : References.Identity)
  deriving DecidableEq

def key (ref : Reference) : Key :=
  if ref.isWellKnown then .object ref.identity else .adapter ref.adapterId

inductive LocalException
  | notRegistered (kindOfObject id : Str)
  | other (what : Str)
  deriving DecidableEq

/-- What a call of the locator ends with where it does not return. -/
inductive Exception
  | adapterNotFound
  | objectNotFound
  | localException (ex : LocalException)
  deriving DecidableEq

/-- What a request is answered with. -/
inductive Reply
  | response (proxy : Option Reference)
  | exception (ex : Exception)

/-- What a callback of `getEndpoints` is called with. -/
inductive Result
  | endpoints (endpoints : List EndpointI)
  | exception (ex : LocalException)
  deriving DecidableEq

/-- `RequestCallback`; a callback of `getEndpoints` is the number of the call. -/
structure RequestCallback where
  reference : Reference
  ttl : Int
  callback : Option Nat

structure Request where
  reference : Reference
  callbacks : List RequestCallback := []
  wellKnownRefs : List Reference := []
  sent : Bool := false
  reply : Option Reply := none
  locked : Bool := false

/-- A call of the callback of the call number `call`. -/
structure Answer where
  call : Nat
  result : Result
  cached : Bool
  deriving DecidableEq

/-- A `LocatorInfo` with its `LocatorTable`. The rest is the history of a run and read by no
code: the references that `getEndpoints` was called for, the replies that were received and the
calls of callbacks. -/
structure State where
  adapterEndpointsMap : Str → Option (Int × List EndpointI) := fun _ => none
  objectMap : References.Identity → Option (Int × Reference) := fun _ => none
  pending : Key → Option Nat := fun _ => none
  requests : List Request := []
  now : Int := 0
  calls : List Reference := []
  replies : List (Key × Reply) := []
  answers : List Answer := []

/-- An assertion that fails, an index of no request, and a recursion that is too deep. -/
inductive Fault
  | assertion (expression : String)
  | noRequest
  | unfinished
  deriving DecidableEq

/-- The actions that conditions on runs speak about. -/
inductive Point
  | internal
  | getObjectReference (ref : Reference) (ttl : Int)

abbrev Task := Program State Point Fault

/-- One action that computes a result and a new state. -/
def perform {α : Type} (f : State → α × State) : Task α :=
  .act .internal fun s => [(.ok (f s).1, (f s).2)]

def modify (f : State → State) : Task Unit := perform fun s => ((), f s)

def assert (condition : Bool) (expression : String) : Task Unit :=
  if condition then pure () else throw (.assertion expression)

/-- The map with one key changed. -/
def update {κ α : Type} [DecidableEq κ] (map : κ → Option α) (k : κ) (x : Option α) :
    κ → Option α :=
  fun k' => if k' = k then x else map k'

namespace LocatorTable

/-- `checkTTL`; the time is counted in microseconds. -/
def checkTTL (now time ttl : Int) : Bool :=
  if ttl < 0 then true else now - time ≤ ttl * 1000000

/-- What an entry of the table yields: nothing, or a value and whether it is fresh. -/
def find {α : Type} (entry : Option (Int × α)) (now ttl : Int) : Option (Bool × α) :=
  if ttl = 0 then none else entry.map fun p => (checkTTL now p.1 ttl, p.2)

def getAdapterEndpoints (adapter : Str) (ttl : Int) : Task (Option (Bool × List EndpointI)) :=
  perform fun s => (find (s.adapterEndpointsMap adapter) s.now ttl, s)

def addAdapterEndpoints (adapter : Str) (endpoints : List EndpointI) : Task Unit :=
  modify fun s => { s with
    adapterEndpointsMap := update s.adapterEndpointsMap adapter (some (s.now, endpoints)) }

def removeAdapterEndpoints (adapter : Str) : Task Unit :=
  modify fun s => { s with adapterEndpointsMap := update s.adapterEndpointsMap adapter none }

/-- `getObjectReference` for the identity of `ref` -/
def getObjectReference (ref : Reference) (ttl : Int) : Task (Option (Bool × Reference)) :=
  .act (.getObjectReference ref ttl) fun s =>
    [(.ok (find (s.objectMap ref.identity) s.now ttl), s)]

def addObjectReference (id : References.Identity) (ref : Reference) : Task Unit :=
  modify fun s => { s with objectMap := update s.objectMap id (some (s.now, ref)) }

def removeObjectReference (id : References.Identity) : Task (Option Reference) :=
  perform fun s => ((s.objectMap id).map (·.2), { s with objectMap := update s.objectMap id none })

def clear : Task Unit :=
  modify fun s => { s with adapterEndpointsMap := fun _ => none, objectMap := fun _ => none }

end LocatorTable

open LocatorTable

/-- The properties `_background` and `toStringMode`, the latter by what it is used for. -/
structure LocatorInfo where
  background : Bool
  identityToString : References.Identity → Str

/-- The call of a callback, if there is one. -/
def call (callback : Option Nat) (result : Result) (cached : Bool) : Task Unit :=
  match callback with
  | none => pure ()
  | some id => modify fun s => { s with answers := s.answers ++ [⟨id, result, cached⟩] }

/-- What `getEndpointsException` throws. -/
def LocatorInfo.getEndpointsException (info : LocatorInfo) (ref : Reference) :
    Exception → LocalException
  | .adapterNotFound => .notRegistered "object adapter".toUTF8.toList ref.adapterId
  | .objectNotFound => .notRegistered "object".toUTF8.toList (info.identityToString ref.identity)
  | .localException ex => ex

/-- What `RequestCallback::response` comes to: the callback is called, or what was found has to
be resolved itself. -/
inductive Outcome
  | call (result : Result)
  | getEndpoints (ref : Reference)

/-- The branches of `RequestCallback::response` -/
def responseOutcome (ref : Reference) (proxy : Option Reference) : Outcome :=
  match proxy with
  | none => .call (.endpoints [])
  | some r =>
    if ref.isWellKnown && !isSupported ref.encoding r.encoding then .call (.endpoints [])
    else if !r.isIndirect then .call (.endpoints r.endpoints)
    else if ref.isWellKnown && !r.isWellKnown then .getEndpoints r
    else .call (.endpoints [])

/-- `getEndpoints` with the reference, the well-known one it was found for, the time to live
and the callback -/
abbrev GetEndpoints := Reference → Option Reference → Int → Option Nat → Task Unit

/-- `RequestCallback::response` and `RequestCallback::exception` -/
def RequestCallback.answer (info : LocatorInfo) (getEndpoints : GetEndpoints)
    (cb : RequestCallback) : Reply → Task Unit
  | .response proxy =>
    match responseOutcome cb.reference proxy with
    | .call result => call cb.callback result false
    | .getEndpoints r => getEndpoints r (some cb.reference) cb.ttl cb.callback
  | .exception ex => do
    assert cb.reference.isIndirect "ref->isIndirect()"
    call cb.callback (.exception (info.getEndpointsException cb.reference ex)) false

/-- `Request::addCallback` up to where it releases the monitor: the answer, if there is one
already. The call of the locator that follows `sent` is a step of its own. -/
def Request.pushCallback (n : Nat) (cb : RequestCallback) (wellKnownRef : Option Reference) :
    Task (Option Reply) :=
  .act .internal fun s =>
    match s.requests[n]? with
    | none => [(.error .noRequest, s)]
    | some q =>
      if q.locked then []
      else
        match q.reply with
        | some reply => [(.ok (some reply), s)]
        | none =>
          [(.ok none, { s with requests := s.requests.set n { q with
              callbacks := q.callbacks ++ [cb]
              wellKnownRefs := q.wellKnownRefs ++ wellKnownRef.toList
              sent := true } })]

/-- `Request::addCallback` -/
def Request.addCallback (info : LocatorInfo) (getEndpoints : GetEndpoints) (n : Nat)
    (cb : RequestCallback) (wellKnownRef : Option Reference) : Task Unit := do
  match ← pushCallback n cb wellKnownRef with
  | none => pure ()
  | some reply => cb.answer info getEndpoints reply

/-- `getAdapterRequest` and `getObjectRequest` -/
def getRequest (ref : Reference) : Task Nat :=
  perform fun s =>
    match s.pending (key ref) with
    | some n => (n, s)
    | none =>
      (s.requests.length, { s with
        pending := update s.pending (key ref) (some s.requests.length)
        requests := s.requests ++ [{ reference := ref }] })

/-- The end of `finishRequest`, which takes the request out of its map. -/
def eraseRequest (ref : Reference) : Task Unit :=
  .act .internal fun s =>
    match s.pending (key ref) with
    | none => [(.error (.assertion "_requests.find(key) != _requests.end()"), s)]
    | some _ => [(.ok (), { s with pending := update s.pending (key ref) none })]

/-- The first part of `finishRequest`: the references of the well-known objects that led to a
request without endpoints are forgotten. -/
def removeWellKnownRefs (wellKnownRefs : List Reference) (proxy : Option Reference) : Task Unit :=
  if proxy.all (·.isIndirect) then
    wellKnownRefs.forM fun q => do let _ ← removeObjectReference q.identity
  else pure ()

/-- The second part: what was found is put into the table, and what is not registered any more
is taken out of it. -/
def cacheProxy (ref : Reference) (proxy : Option Reference) (notRegistered : Bool) : Task Unit :=
  if !ref.isWellKnown then
    match proxy.filter (!·.isIndirect) with
    | some r => addAdapterEndpoints ref.adapterId r.endpoints
    | none => if notRegistered then removeAdapterEndpoints ref.adapterId else pure ()
  else
    match proxy.filter (!·.isWellKnown) with
    | some r => addObjectReference ref.identity r
    | none => if notRegistered then do let _ ← removeObjectReference ref.identity
      else pure ()

/-- `finishRequest(ref, wellKnownRefs, proxy, notRegistered)` -/
def finishRequest (ref : Reference) (wellKnownRefs : List Reference) (proxy : Option Reference)
    (notRegistered : Bool) : Task Unit := do
  removeWellKnownRefs wellKnownRefs proxy
  cacheProxy ref proxy notRegistered
  eraseRequest ref

/-- The proxy of an answer -/
def Reply.proxy : Reply → Option Reference
  | .response proxy => proxy
  | .exception _ => none

/-- The answer is a user exception. -/
def Reply.notRegistered : Reply → Bool
  | .exception .adapterNotFound => true
  | .exception .objectNotFound => true
  | _ => false

/-- The answer to a request arrives: its monitor is locked. A request that is not sent or that
is answered already gets none. -/
def Request.receive (n : Nat) (reply : Reply) : Task (Option Request) :=
  perform fun s =>
    match s.requests[n]? with
    | none => (none, s)
    | some q =>
      if q.sent && !q.locked && q.reply.isNone then
        (some q, { s with
          requests := s.requests.set n { q with locked := true }
          replies := s.replies ++ [(key q.reference, reply)] })
      else (none, s)

/-- The answer is stored and the monitor released; the callbacks are called without it. -/
def Request.store (n : Nat) (reply : Reply) : Task (List RequestCallback) :=
  .act .internal fun s =>
    match s.requests[n]? with
    | none => [(.error .noRequest, s)]
    | some q =>
      [(.ok q.callbacks, { s with
        requests := s.requests.set n { q with reply := some reply, locked := false } })]

/-- `Request::response` and `Request::exception` -/
def Request.answer (info : LocatorInfo) (getEndpoints : GetEndpoints) (n : Nat) (reply : Reply) :
    Task Unit := do
  match ← receive n reply with
  | none => pure ()
  | some q =>
    finishRequest q.reference q.wellKnownRefs reply.proxy reply.notRegistered
    let callbacks ← store n reply
    callbacks.forM fun cb => cb.answer info getEndpoints reply

namespace LocatorInfo

/-- An entry of the table is used where it is fresh. Where it is not, it is requested, and used
nevertheless if entries are brought up to date in the background. -/
def useOrRequest {α : Type} (info : LocatorInfo) (entry : Option (Bool × α))
    (usable : α → Bool) (callback : Option Nat) (request : Option Nat → Task Unit)
    (use : α → Task Unit) : Task Unit :=
  match entry with
  | some (true, x) => use x
  | some (false, x) =>
    if info.background && usable x then do
      request none
      use x
    else request callback
  | none => request callback

/-- The end of `getEndpoints` -/
def serve (endpoints : List EndpointI) (callback : Option Nat) : Task Unit := do
  assert (!endpoints.isEmpty) "!endpoints.empty()"
  call callback (.endpoints endpoints) true

/-- `getEndpoints(ref, wellKnownRef, ttl, callback)` with the depth of its recursion -/
def getEndpointsWithin (info : LocatorInfo) : Nat → GetEndpoints
  | 0, _, _, _, _ => throw .unfinished
  | depth + 1, ref, wellKnownRef, ttl, callback => do
    assert ref.isIndirect "ref->isIndirect()"
    if !ref.isWellKnown then
      let entry ← getAdapterEndpoints ref.adapterId ttl
      info.useOrRequest entry (!·.isEmpty) callback
        (fun callback => do
          let n ← getRequest ref
          Request.addCallback info (info.getEndpointsWithin depth) n ⟨ref, ttl, callback⟩
            wellKnownRef)
        (serve · callback)
    else
      let entry ← getObjectReference ref ttl
      info.useOrRequest entry (fun _ => true) callback
        (fun callback => do
          let n ← getRequest ref
          Request.addCallback info (info.getEndpointsWithin depth) n ⟨ref, ttl, callback⟩ none)
        fun r =>
          if !r.isIndirect then serve r.endpoints callback
          else if !r.isWellKnown then
            info.getEndpointsWithin depth r (some ref) ttl callback
          else serve [] callback

/-- A well-known object leads to an adapter, and an adapter to endpoints. -/
def getEndpoints (info : LocatorInfo) : GetEndpoints := info.getEndpointsWithin 2

/-- `clearCache(ref)` with the depth of its recursion -/
def clearCacheWithin : Nat → Reference → Task Unit
  | 0, _ => throw .unfinished
  | depth + 1, ref => do
    assert ref.isIndirect "ref->isIndirect()"
    if !ref.isWellKnown then
      removeAdapterEndpoints ref.adapterId
    else
      match ← removeObjectReference ref.identity with
      | none => pure ()
      | some r => if r.isIndirect && !r.isWellKnown then clearCacheWithin depth r

/-- `clearCache(ref)` -/
def clearCache : Reference → Task Unit := clearCacheWithin 2

end LocatorInfo

/-- Callers pass references without endpoints only. -/
abbrev IndirectReference := { ref : Reference // ref.isIndirect = true }

/-- What callers, the locator and the clock do. -/
inductive Operation
  | getEndpoints (ref : IndirectReference) (ttl : Int)
  | clearCache (ref : IndirectReference)
  | destroy
  | answer (request : Nat) (reply : Reply)
  | tick (time : Nat)

/-- A call of `getEndpoints` gets the next number. -/
def register (ref : Reference) : Task Nat :=
  perform fun s => (s.calls.length, { s with calls := s.calls ++ [ref] })

/-- The program of an operation -/
def LocatorInfo.run (info : LocatorInfo) : Operation → Task Unit
  | .getEndpoints ref ttl => do
    let id ← register ref.1
    info.getEndpoints ref.1 none ttl (some id)
  | .clearCache ref => LocatorInfo.clearCache ref.1
  | .destroy => clear
  | .answer n reply => Request.answer info info.getEndpoints n reply
  | .tick time => modify fun s => { s with now := s.now + time }

/-- A state, and the operations that run on it -/
abbrev Machine := Lib.Machine State Point Fault Operation

def LocatorInfo.move (info : LocatorInfo) : Machine → Move Operation → Option Machine :=
  Lib.Machine.move info.run

end Ice.Locator
