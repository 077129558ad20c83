import Ice.Lib.HintedMap
import Ice.Lib.Transition

/-!
# The session table

A client that wants a session is authorized by a permissions verifier, and a session manager then
makes the session. Both calls are asynchronous. Meanwhile the connection is pending, and requests
on it are queued; when the creation is finished, these are started again.

What is done with the mutex of the session router is one action, and so is each call that a thread
makes without it. Connections are those that requests come over. Session control objects, routing
tables and traces are left out; which sessions have expired is left open.
-/

namespace Ice.Glacier2.Sessions

open Std Lib

/-- How the router is configured -/
structure Instance where
  serverObjectAdapter : Bool
  sessionManager : Bool
  sslSessionManager : Bool
  deriving DecidableEq, Repr

/-- A router is named by the creation it comes from. -/
structure RouterI where
  category : String
  session : Bool
  deriving DecidableEq, Repr

/-- What comes next for a creation: it waits for another one, `authorize` is to be called, the
verifier or the session manager is to reply, `sessionCreated` is to be called, or the requests
that waited are to be started again. -/
inductive Phase
  | queued
  | authorize
  | verifying
  | creating
  | sessionCreated (session : Bool)
  | restarting (callbacks : List Nat)
  | ended
  deriving DecidableEq, Repr

/-- The creation has started and is not finished. -/
def Phase.inProgress : Phase → Bool
  | .authorize => true
  | .verifying => true
  | .creating => true
  | .sessionCreated _ => true
  | _ => false

/-- A creation, with those that wait for it -/
structure CreateSession where
  connection : Nat
  ssl : Bool
  pendingCallbacks : List Nat := []
  phase : Phase := .queued
  router : Option RouterI := none
  deriving DecidableEq, Repr

/-- A thread that destroys routers which are no longer in the table: it has a callback of its own
or takes that of the session router. -/
structure Destruction where
  routers : List Nat
  destroyCallback : Bool
  deriving DecidableEq, Repr

/-- The session router, with the creations that were started and the threads that destroy routers.
The rest is history: the requests that were answered, the creations that the session manager
returned a session for, and those whose session was sent `destroy`. -/
structure State where
  inst : Instance
  routersByConnection : HintedMap Nat Nat := {}
  routersByCategory : HintedMap String Nat := {}
  pending : ExtTreeMap Nat Nat compare := ∅
  destroyed : Bool := false
  sessionDestroyCallback : Bool := true
  creations : List CreateSession := []
  destructions : List Destruction := []
  answers : List Nat := []
  returned : List Nat := []
  destroyedSessions : List Nat := []

namespace State

def setCreation (s : State) (i : Nat) (c : CreateSession) : State :=
  { s with creations := s.creations.set i c }

def addCreation (s : State) (c : CreateSession) : State :=
  { s with creations := s.creations ++ [c] }

/-- `finished`: the request is answered, with a session or an exception. -/
def finished (s : State) (i : Nat) : State := { s with answers := s.answers ++ [i] }

def phase? (s : State) (i : Nat) : Option Phase := s.creations[i]?.map (·.phase)

/-- The router of a creation -/
def router? (s : State) (i : Nat) : Option RouterI := s.creations[i]?.bind (·.router)

/-- What `startCreateSession` does with a request -/
inductive Started
  | throws
  | queued (owner : Nat)
  | started
  deriving DecidableEq, Repr

/-- `startCreateSession` -/
def startCreateSession (s : State) (connection : Nat) : Started :=
  if s.destroyed then .throws
  else if connection ∈ s.routersByConnection.entries then .throws
  else
    match s.pending[connection]? with
    | some owner => .queued owner
    | none => .started

/-- `addPendingCallback` of the creation that the connection is pending for -/
def addPendingCallback (s : State) (owner i : Nat) : State :=
  match s.creations[owner]? with
  | none => s
  | some c => s.setCreation owner { c with pendingCallbacks := c.pendingCallbacks ++ [i] }

/-- `create`, up to the call of `authorize` -/
def create (s : State) (i : Nat) (c : CreateSession) : State :=
  match s.startCreateSession c.connection with
  | .throws => (s.setCreation i { c with phase := .ended }).finished i
  | .queued owner => (s.setCreation i { c with phase := .queued }).addPendingCallback owner i
  | .started =>
    { s.setCreation i { c with phase := .authorize } with
      pending := s.pending.insertIfNew c.connection i }

/-- The end of a creation: the connection is not pending, the request is answered, and those that
waited are started again. -/
def finish (s : State) (i : Nat) (c : CreateSession) : State :=
  ({ s with pending := s.pending.erase c.connection }.setCreation i
    { c with phase := .restarting c.pendingCallbacks }).finished i

/-- `authorized`; where it throws, the exception is that of a callback, and nothing is done. -/
def authorized (s : State) (i : Nat) (c : CreateSession) (throws : Bool) : State :=
  let sessionManager := if c.ssl then s.inst.sslSessionManager else s.inst.sessionManager
  if throws then s.setCreation i { c with phase := .ended }
  else if sessionManager then s.setCreation i { c with phase := .creating }
  else s.setCreation i { c with phase := .sessionCreated false }

/-- `destroy` of a router: the session is sent `destroy`, unless that throws. -/
def destroyRouter (s : State) (i : Nat) (destroyCallback throws : Bool) : State × Bool :=
  match s.router? i with
  | some ⟨_, true⟩ =>
    if !destroyCallback || throws then (s, true)
    else ({ s with destroyedSessions := s.destroyedSessions ++ [i] }, false)
  | _ => (s, false)

/-- A router is put into the tables. -/
def insertRouter (s : State) (i connection : Nat) (category : String) : State :=
  { s with
    routersByConnection := s.routersByConnection.insert connection i
    routersByCategory :=
      if s.inst.serverObjectAdapter then s.routersByCategory.insert category i
      else s.routersByCategory }

/-- `finishCreateSession` with a router, which is destroyed where the session router is. -/
def finishCreateSession (s : State) (i connection : Nat) (category : String) (throws : Bool) :
    State :=
  if s.destroyed then (s.destroyRouter i s.sessionDestroyCallback throws).1
  else s.insertRouter i connection category

/-- `sessionCreated`: the router object is constructed with a random category, or that throws; then
the session is sent `destroy`, and where this throws as well nothing more is done. -/
def sessionCreated (s : State) (i : Nat) (c : CreateSession) (session : Bool)
    (category : Option String) (throws : Bool) : State :=
  match category with
  | none =>
    if session then
      if throws then s.setCreation i { c with phase := .ended }
      else { s with destroyedSessions := s.destroyedSessions ++ [i] }.finish i c
    else s.finish i c
  | some category =>
    let c := { c with router := some ⟨category, session⟩ }
    (s.finish i c).finishCreateSession i c.connection category throws

/-- A router is taken out of both tables. -/
def removeRouter (s : State) (connection i : Nat) : State :=
  { s with
    routersByConnection := s.routersByConnection.eraseNext connection
    routersByCategory :=
      if s.inst.serverObjectAdapter then
        match s.router? i with
        | some router => s.routersByCategory.eraseEnd router.category
        | none => s.routersByCategory
      else s.routersByCategory }

/-- `destroySession`, called for a request, for a session that is gone, or for a connection that
was closed -/
def destroySession (s : State) (connection : Nat) : State :=
  if s.destroyed then s
  else
    match s.routersByConnection.entries[connection]? with
    | none => s
    | some i =>
      let s := s.removeRouter connection i
      { s with destructions := s.destructions ++ [⟨[i], false⟩] }

/-- The loop of `expireSessions` -/
def expire (expired : Nat → Bool) : List (Nat × Nat) → State → State × List Nat
  | [], s => (s, [])
  | (connection, i) :: rest, s =>
    if expired i then
      let (s, routers) := expire expired rest (s.removeRouter connection i)
      (s, i :: routers)
    else expire expired rest s

def expireSessions (s : State) (expired : Nat → Bool) : State :=
  if s.destroyed then s
  else
    let (s, routers) := expire expired s.routersByConnection.entries.toList s
    { s with destructions := s.destructions ++ [⟨routers, false⟩] }

/-- `destroy` of the session router -/
def destroy (s : State) : State :=
  { s with
    destroyed := true
    routersByConnection := {}
    routersByCategory := {}
    sessionDestroyCallback := false
    destructions := s.destructions ++
      [⟨s.routersByConnection.entries.toList.map (·.2), s.sessionDestroyCallback⟩] }

end State

/-- Requests are dispatched, the verifier and the session manager reply, threads go on, and
sessions are looked up, destroyed and expire. -/
inductive Action
  | createSession (connection : Nat) (ssl refused : Bool)
  | authorize (creation : Nat) (throws : Bool)
  | verified (creation : Nat) (ok throws : Bool)
  | managed (creation : Nat) (session : Option Bool)
  | sessionCreated (creation : Nat) (category : Option String) (throws : Bool)
  | restart (creation : Nat)
  | getRouter (connection : Nat)
  | getServerBlobject (category : String)
  | destroySession (connection : Nat)
  | expireSessions (expired : Nat → Bool)
  | destroy
  | destroyRouter (destruction : Nat) (throws : Bool)

def step (s : State) : Action → Option State
  | .createSession connection ssl refused =>
    let i := s.creations.length
    let c : CreateSession := { connection, ssl }
    -- There is no verifier, or the connection is not a secure one.
    if refused then some ((s.addCreation { c with phase := .ended }).finished i)
    else some ((s.addCreation c).create i c)
  | .authorize i throws => do
    let c ← s.creations[i]?
    if c.phase = .authorize then
      if throws then some ((s.setCreation i { c with phase := .ended }).finished i)
      else some (s.setCreation i { c with phase := .verifying })
    else none
  | .verified i ok throws => do
    let c ← s.creations[i]?
    if c.phase = .verifying then
      if ok then some (s.authorized i c throws) else some (s.finish i c)
    else none
  | .managed i session => do
    let c ← s.creations[i]?
    if c.phase = .creating then
      match session with
      | none => some (s.finish i c)
      | some session =>
        let s := s.setCreation i { c with phase := .sessionCreated session }
        some { s with returned := if session then s.returned ++ [i] else s.returned }
    else none
  | .sessionCreated i category throws => do
    let c ← s.creations[i]?
    match c.phase with
    | .sessionCreated session => some (s.sessionCreated i c session category throws)
    | _ => none
  | .restart i => do
    let c ← s.creations[i]?
    match c.phase with
    | .restarting [] => some (s.setCreation i { c with phase := .ended })
    | .restarting (j :: callbacks) => do
      let s := s.setCreation i { c with phase := .restarting callbacks }
      let callback ← s.creations[j]?
      some (s.create j callback)
    | _ => none
  | .getRouter connection =>
    if s.destroyed then some s
    else some { s with routersByConnection := s.routersByConnection.lookup connection }
  | .getServerBlobject category =>
    if s.destroyed then some s
    else some { s with routersByCategory := s.routersByCategory.lookup category }
  | .destroySession connection => some (s.destroySession connection)
  | .expireSessions expired => some (s.expireSessions expired)
  | .destroy => if s.destroyed then none else some s.destroy
  | .destroyRouter k throws => do
    let d ← s.destructions[k]?
    match d.routers with
    | [] => none
    | i :: routers =>
      match s.destroyRouter i (d.destroyCallback || s.sessionDestroyCallback) throws with
      | (s, false) =>
        some { s with destructions := s.destructions.set k { d with routers } }
      -- The exception ends the thread or its loop.
      | (s, true) =>
        some { s with destructions := s.destructions.set k { d with routers := [] } }

def State.initial (inst : Instance) : State := { inst }

/-- Something comes next for the creation. -/
def State.InProgress (s : State) (i : Nat) : Prop :=
  ∃ c, s.creations[i]? = some c ∧ c.phase.inProgress = true

/-- The creation waits for one that is in progress, or for one that starts it again. -/
def State.Queued (s : State) (i : Nat) : Prop :=
  ∃ c, s.creations[i]? = some c ∧ c.phase = .queued ∧
    ∃ (j : Nat) (d : CreateSession), s.creations[j]? = some d ∧
      (d.phase.inProgress = true ∧ i ∈ d.pendingCallbacks ∨
        ∃ callbacks, d.phase = .restarting callbacks ∧ i ∈ callbacks)

/-- A thread has the session: it is to call `sessionCreated`, or it destroys the router. -/
def State.Underway (s : State) (i : Nat) : Prop :=
  (∃ c, s.creations[i]? = some c ∧ c.phase = .sessionCreated true) ∨
    ∃ d ∈ s.destructions, i ∈ d.routers

/-- Each request is answered once, or its creation goes on; a connection in the table has one
router, that of a creation on it, and is not pending; both tables have the same routers; the
pending connections are those of the creations in progress; and a session that was returned is
held by a router in the table, or is sent `destroy` by the thread that has it. -/
structure Kept (s : State) : Prop where
  answered : ∀ i < s.creations.length, s.answers.count i ≤ 1 ∧
    (s.answers.count i = 0 → s.InProgress i ∨ s.Queued i)
  single : ∀ connection i, s.routersByConnection.entries[connection]? = some i →
    connection ∉ s.pending ∧ ∃ c, s.creations[i]? = some c ∧ c.connection = connection
  same : s.inst.serverObjectAdapter = true → ∀ i,
    (∃ connection : Nat, s.routersByConnection.entries[connection]? = some i) ↔
      ∃ category : String, s.routersByCategory.entries[category]? = some i
  pending : ∀ connection, connection ∈ s.pending ↔
    ∃ (i : Nat) (c : CreateSession), s.creations[i]? = some c ∧ c.connection = connection ∧
      c.phase.inProgress = true
  hints : s.routersByConnection.Valid ∧ s.routersByCategory.Valid
  sessions : ∀ i ∈ s.returned,
    (∃ (connection : Nat) (category : String),
      s.routersByConnection.entries[connection]? = some i ∧ s.router? i = some ⟨category, true⟩) ∨
      i ∈ s.destroyedSessions ∨ s.Underway i

/-- The condition on the steps of a run: no call throws between the start and the finish of a
creation, and none that sends `destroy`; when a session comes back or a router is destroyed, the
session router still has its callback; the random category of a router is not in use. -/
def Careful (s : State) : Action → Prop
  | .authorize _ throws => throws = false
  | .verified _ ok throws => ok = true → throws = false
  | .sessionCreated i category throws =>
    match category with
    | none => s.phase? i = some (.sessionCreated true) → throws = false
    | some category =>
      if s.destroyed then s.phase? i ≠ some (.sessionCreated true)
      else s.inst.serverObjectAdapter = true → category ∉ s.routersByCategory.entries
  | .destroyRouter k throws =>
    ∀ d ∈ s.destructions[k]?, ∀ i ∈ d.routers.head?, (s.router? i).any (·.session) = true →
      throws = false ∧ (d.destroyCallback || s.sessionDestroyCallback) = true
  | _ => True

instance (s : State) (a : Action) : Decidable (Careful s a) :=
  match a with
  | .authorize _ throws => inferInstanceAs (Decidable (throws = false))
  | .verified _ ok throws => inferInstanceAs (Decidable (ok = true → throws = false))
  | .sessionCreated i none throws =>
    inferInstanceAs (Decidable (s.phase? i = some (.sessionCreated true) → throws = false))
  | .sessionCreated i (some category) _ =>
    inferInstanceAs (Decidable (if s.destroyed then s.phase? i ≠ some (.sessionCreated true)
      else s.inst.serverObjectAdapter = true → category ∉ s.routersByCategory.entries))
  | .destroyRouter k throws =>
    inferInstanceAs (Decidable (∀ d ∈ s.destructions[k]?, ∀ i ∈ d.routers.head?,
      (s.router? i).any (·.session) = true →
        throws = false ∧ (d.destroyCallback || s.sessionDestroyCallback) = true))
  | .createSession _ _ _ => isTrue trivial
  | .managed _ _ => isTrue trivial
  | .restart _ => isTrue trivial
  | .getRouter _ => isTrue trivial
  | .getServerBlobject _ => isTrue trivial
  | .destroySession _ => isTrue trivial
  | .expireSessions _ => isTrue trivial
  | .destroy => isTrue trivial

end Ice.Glacier2.Sessions
