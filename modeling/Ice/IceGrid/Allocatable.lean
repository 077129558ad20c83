import Ice.Lib.Concurrent

/-!
# Allocatables, allocation requests and sessions

The state that the allocation code of the registry shares between its threads, and
the members of `AllocationRequest`, `Allocatable` and `SessionI`. Each allocatable
has its own monitor, which is part of the state; a member of a request or of a
session runs under its own mutex from its first to its last statement and is one
action here. Tracing, the Glacier2 filters and the load of a server on its node
do not touch this state and are left out.
-/

namespace Ice.IceGrid

open Ice.Lib

structure Identity where
  name : String
  category : String
  deriving DecidableEq, Repr

/-- The order of the generated `operator<`: names first. -/
def Identity.less (lhs rhs : Identity) : Bool :=
  if lhs.name = rhs.name then lhs.category < rhs.category else lhs.name < rhs.name

structure ObjectInfo where
  id : Identity
  type : String
  deriving DecidableEq, Repr

/-- A pointer to a `ServerEntry`. Only an update of the server changes `_allocatable`. -/
structure ServerEntry where
  address : Nat
  allocatable : Bool
  deriving DecidableEq, Repr

/-- A pointer to an `AllocatableObjectEntry` with its constant members. -/
structure AllocatableObjectEntry where
  address : Nat
  info : ObjectInfo
  server : ServerEntry
  deriving DecidableEq, Repr

inductive AllocatablePtr
  | server (entry : ServerEntry)
  | object (entry : AllocatableObjectEntry)
  deriving DecidableEq, Repr

/-- The `_parent` of an object: its server, if that is allocatable. -/
def AllocatableObjectEntry.parent (e : AllocatableObjectEntry) : Option ServerEntry :=
  if e.server.allocatable then some e.server else none

/-- A server has no parent (`Allocatable(false, 0)`). -/
def AllocatablePtr.parent : AllocatablePtr → Option ServerEntry
  | .server _ => none
  | .object e => e.parent

abbrev SessionPtr := Nat

/-- A pointer to an `AllocationRequest` with its constant members. -/
structure RequestPtr where
  address : Nat
  session : SessionPtr
  timeout : Int
  deriving DecidableEq, Repr

inductive Exception
  | allocationException (reason : String)
  | allocationTimeoutException
  | objectNotRegisteredException (id : Identity)
  | sessionDestroyedException
  | objectNotExistException
  | nullHandleException
  deriving DecidableEq, Repr

/-- `catch(const AllocationException&)` -/
def Exception.isAllocationException : Exception → Bool
  | .allocationException _ => true
  | .allocationTimeoutException => true
  | _ => false

/-- `catch(const Ice::UserException&)` -/
def Exception.isUserException : Exception → Bool
  | .allocationException _ => true
  | .allocationTimeoutException => true
  | .objectNotRegisteredException _ => true
  | _ => false

structure Allocatable where
  requests : List (AllocatablePtr × Option RequestPtr) := []
  session : Option SessionPtr := none
  count : Int := 0
  releasing : Bool := false
  /-- `AllocatableObjectEntry::_destroyed` -/
  destroyed : Bool := false
  /-- A thread is in the monitor. -/
  locked : Bool := false
  deriving DecidableEq, Repr

inductive RequestState
  | initial
  | pending
  | canceled
  | allocated
  deriving DecidableEq, Repr

/-- What a request answers to its client. -/
inductive Answer
  | response (proxy : AllocatablePtr)
  | exception (ex : Exception)
  deriving DecidableEq, Repr

structure AllocationRequest where
  state : RequestState := .initial
  /-- The timer holds the request as a task. -/
  scheduled : Bool := false
  answers : List Answer := []
  deriving DecidableEq, Repr

structure Session where
  destroyed : Bool := false
  allocationTimeout : Int := -1
  requests : List RequestPtr := []
  allocations : List AllocatablePtr := []
  deriving DecidableEq, Repr

/-- The objects and the waiting requests of one type. -/
structure TypeEntry where
  objects : List AllocatableObjectEntry := []
  requests : List RequestPtr := []
  deriving DecidableEq, Repr

/-- What the threads share; `entries`, `types` and `cacheLocked` are the object cache. -/
structure State where
  allocatables : AllocatablePtr → Allocatable := fun _ => {}
  requests : RequestPtr → AllocationRequest := fun _ => {}
  sessions : SessionPtr → Session := fun _ => {}
  entries : List AllocatableObjectEntry := []
  types : List (String × TypeEntry) := []
  cacheLocked : Bool := false
  enabled : ServerEntry → Bool
  nextAddress : Nat := 0

namespace State

def setAllocatable (s : State) (a : AllocatablePtr) (f : Allocatable → Allocatable) : State :=
  { s with allocatables := Function.update s.allocatables a (f (s.allocatables a)) }

def setRequest (s : State) (r : RequestPtr) (f : AllocationRequest → AllocationRequest) : State :=
  { s with requests := Function.update s.requests r (f (s.requests r)) }

def setSession (s : State) (n : SessionPtr) (f : Session → Session) : State :=
  { s with sessions := Function.update s.sessions n (f (s.sessions n)) }

variable {s : State} {a b : AllocatablePtr} {f : Allocatable → Allocatable} {m n : SessionPtr}
  {r : RequestPtr} {g : Session → Session}

@[simp] theorem setAllocatable_self :
    (s.setAllocatable a f).allocatables a = f (s.allocatables a) := by
  simp [setAllocatable]

theorem setAllocatable_of_ne (h : b ≠ a) :
    (s.setAllocatable a f).allocatables b = s.allocatables b := by
  simp [setAllocatable, h]

@[simp] theorem setSession_allocatables : (s.setSession n g).allocatables = s.allocatables := rfl

@[simp] theorem setSession_self : (s.setSession n g).sessions n = g (s.sessions n) := by
  simp [setSession]

theorem setSession_of_ne (h : m ≠ n) : (s.setSession n g).sessions m = s.sessions m := by
  simp [setSession, h]

end State

/-- The actions that conditions on runs speak about. -/
inductive Point
  | internal
  | checkAllocatable (e : AllocatableObjectEntry) (tryAllocate fromRelease : Bool)
  deriving DecidableEq, Repr

/-- What a thread of the registry runs. -/
abbrev Task := Program State Point Exception

/-- One action that computes a result and a new state. -/
def perform {α : Type} (f : State → α × State) : Task α :=
  .act .internal fun s => [(.ok (f s).1, (f s).2)]

def read {α : Type} (f : State → α) : Task α := perform fun s => (f s, s)

def modify (f : State → State) : Task Unit := perform fun s => ((), f s)

/-- `Lock sync(*this)` on an allocatable: the mutex is not recursive. -/
def lock (a : AllocatablePtr) : Task Unit :=
  .act .internal fun s =>
    if (s.allocatables a).locked then []
    else [(.ok (), s.setAllocatable a fun x => { x with locked := true })]

/-- `Lock sync(*this)` and `while(_releasing) wait()`. -/
def lockWhenReleased (a : AllocatablePtr) : Task Unit :=
  .act .internal fun s =>
    if (s.allocatables a).locked || (s.allocatables a).releasing then []
    else [(.ok (), s.setAllocatable a fun x => { x with locked := true })]

def unlock (a : AllocatablePtr) : Task Unit :=
  modify fun s => s.setAllocatable a fun x => { x with locked := false }

/-- A block under the monitor of an allocatable. -/
def withLock {α : Type} (a : AllocatablePtr) (body : Task α) : Task α := do
  lock a
  body.ensuring (unlock a)

/-- `try { ... } catch(const SessionDestroyedException&) { ... }` -/
def catchSessionDestroyed {α : Type} (body handler : Task α) : Task α :=
  tryCatch body fun ex => if ex = .sessionDestroyedException then handler else throw ex

/-- `try { ... } catch(const AllocationException&) { ... }` -/
def catchAllocation {α : Type} (body handler : Task α) : Task α :=
  tryCatch body fun ex => if ex.isAllocationException then handler else throw ex

namespace SessionI

/-- `SessionI::addAllocationRequest` -/
def addAllocationRequest (r : RequestPtr) (s : State) : Bool × State :=
  if (s.sessions r.session).destroyed then (false, s)
  else (true, s.setSession r.session fun x => { x with requests := x.requests.insert r })

/-- `SessionI::removeAllocationRequest` -/
def removeAllocationRequest (r : RequestPtr) (s : State) : State :=
  if (s.sessions r.session).destroyed then s
  else s.setSession r.session fun x => { x with requests := x.requests.erase r }

/-- `SessionI::addAllocation` -/
def addAllocation (n : SessionPtr) (a : AllocatablePtr) : Task Unit :=
  .act .internal fun s =>
    if (s.sessions n).destroyed then [(.error .sessionDestroyedException, s)]
    else [(.ok (), s.setSession n fun x => { x with allocations := x.allocations.insert a })]

/-- `SessionI::removeAllocation` -/
def removeAllocation (n : SessionPtr) (a : AllocatablePtr) : Task Unit :=
  modify fun s =>
    if (s.sessions n).destroyed then s
    else s.setSession n fun x => { x with allocations := x.allocations.filter (· ≠ a) }

end SessionI

namespace AllocationRequest

/-- Answer the client. -/
def answer (r : RequestPtr) (x : Answer) (s : State) : State :=
  s.setRequest r fun q => { q with answers := q.answers ++ [x] }

/-- `_state = Canceled; canceled(ex);` -/
def cancelWith (r : RequestPtr) (ex : Exception) (s : State) : State :=
  answer r (.exception ex) (s.setRequest r fun q => { q with state := .canceled })

/-- Take a pending request from the timer and from its session. -/
def unregister (r : RequestPtr) (s : State) : State :=
  SessionI.removeAllocationRequest r (s.setRequest r fun q => { q with scheduled := false })

/-- `AllocationRequest::pending` -/
def pending (r : RequestPtr) : Task Bool := perform fun s =>
  if r.timeout = 0 then (false, cancelWith r .allocationTimeoutException s)
  else
    match SessionI.addAllocationRequest r s with
    | (false, s) => (false, cancelWith r (.allocationException "session destroyed") s)
    | (true, s) =>
      (true, s.setRequest r fun q =>
        { q with scheduled := q.scheduled || decide (0 < r.timeout), state := .pending })

/-- The end of `AllocationRequest::allocate`: the session may hold the allocatable already. -/
def settle (r : RequestPtr) (session : Option SessionPtr) (s : State) : Bool × State :=
  if session = some r.session then
    (false, cancelWith r (.allocationException "already allocated by the session") s)
  else (true, s.setRequest r fun q => { q with state := .allocated })

/-- `AllocationRequest::allocate` -/
def allocate (r : RequestPtr) (session : Option SessionPtr) : Task Bool := perform fun s =>
  match (s.requests r).state with
  | .initial => settle r session s
  | .canceled => (false, s)
  | .pending => settle r session (unregister r s)
  | .allocated => settle r session s

/-- `AllocationRequest::cancel` -/
def cancel (r : RequestPtr) (ex : Exception) : Task Unit := modify fun s =>
  match (s.requests r).state with
  | .initial => cancelWith r ex s
  | .canceled => s
  | .allocated => s
  | .pending => cancelWith r ex (unregister r s)

/-- The timer runs a request it holds: `AllocationRequest::runTimerTask` -/
def runTimerTask (r : RequestPtr) : Task Unit := modify fun s =>
  if (s.requests r).scheduled then
    let s := s.setRequest r fun q => { q with scheduled := false }
    match (s.requests r).state with
    | .pending =>
      cancelWith r .allocationTimeoutException (SessionI.removeAllocationRequest r s)
    | _ => s
  else s

/-- `AllocationRequest::isCanceled` -/
def isCanceled (r : RequestPtr) : Task Bool :=
  read fun s => (s.requests r).state = .canceled

/-- `AllocationRequest::canceled` -/
def canceled (r : RequestPtr) (ex : Exception) : Task Unit := modify (answer r (.exception ex))

/-- `AllocationRequest::allocated` -/
def allocated (r : RequestPtr) (a : AllocatablePtr) : Task Unit := modify (answer r (.response a))

end AllocationRequest

namespace Allocatable

/-- `Allocatable::getSession` -/
def getSession (a : AllocatablePtr) : Task (Option SessionPtr) :=
  withLock a (read fun s => (s.allocatables a).session)

/-- `checkAllocatable` of a server and of an object; an object is always allocatable. -/
def checkAllocatable (a : AllocatablePtr) (tryAllocate fromRelease : Bool) : Task Unit :=
  match a with
  | .server e =>
    if e.allocatable then pure () else throw (.allocationException "not allocatable")
  | .object e => .act (.checkAllocatable e tryAllocate fromRelease) fun s =>
    if (s.allocatables a).destroyed then [(.error (.objectNotRegisteredException e.info.id), s)]
    else [(.ok (), s)]

/-- The virtual `allocated`: an object is entered in the books of the session. -/
def allocated (a : AllocatablePtr) (session : SessionPtr) : Task Unit :=
  match a with
  | .server _ => pure ()
  | .object _ => SessionI.addAllocation session a

/-- The virtual `released` -/
def released (a : AllocatablePtr) (session : SessionPtr) : Task Unit :=
  match a with
  | .server _ => pure ()
  | .object _ => SessionI.removeAllocation session a

/-- `Allocatable::queueAllocationAttempt`, under the monitor of `root`. -/
def queueAllocationAttempt (root a : AllocatablePtr) (request : RequestPtr)
    (tryAllocate : Bool) : Task Unit := do
  if !tryAllocate then
    if ← AllocationRequest.pending request then
      modify fun s => s.setAllocatable root fun x =>
        { x with requests := x.requests ++ [(a, some request)] }
  else
    modify fun s => s.setAllocatable root fun x =>
      { x with requests := x.requests ++ [(a, none)] }

/-- `Allocatable::queueAllocationAttemptFromChild` on the parent. -/
def queueAllocationAttemptFromChild (p : ServerEntry) (a : AllocatablePtr) : Task Unit :=
  withLock (.server p) <| modify fun s => s.setAllocatable (.server p) fun x =>
    { x with requests := x.requests ++ [(a, none)] }

/-- `Allocatable::allocateFromChild` on the parent. -/
def allocateFromChild (p : ServerEntry) (request : RequestPtr) (child : AllocatablePtr)
    (tryAllocate fromRelease : Bool) : Task Bool := do
  let allocationCount ← withLock (.server p) do
    let self ← read fun s => s.allocatables (.server p)
    if (self.session = none || self.session = some request.session) &&
        (fromRelease || !self.releasing) then
      if self.session = none then
        catchSessionDestroyed (allocated (.server p) request.session) (pure ())
      perform fun s =>
        (self.count + 1, s.setAllocatable (.server p) fun x =>
          { x with session := some request.session, count := self.count + 1 })
    else
      queueAllocationAttempt (.server p) child request tryAllocate
      pure 0
  return 0 < allocationCount

/-- What `Allocatable::release` does under its monitor: is the allocatable released, and are
requests waiting for it? -/
def releaseBody (a : AllocatablePtr) (session : SessionPtr) (fromRelease : Bool) :
    Task (Bool × Bool) := do
  let self ← read fun s => s.allocatables a
  if self.session = some session then
    if self.count - 1 = 0 then
      modify fun s => s.setAllocatable a fun x => { x with session := none, count := 0 }
      released a session
      if !fromRelease && !self.requests.isEmpty then
        modify fun s => s.setAllocatable a fun x => { x with releasing := true }
        pure (true, true)
      else pure (true, false)
    else
      modify fun s => s.setAllocatable a fun x => { x with count := self.count - 1 }
      pure (false, false)
  else throw (.allocationException "can't release object which is not allocated")

/-- The locked block of `Allocatable::release` -/
def releaseLocked (a : AllocatablePtr) (session : SessionPtr) (fromRelease : Bool) :
    Task (Bool × Bool) := do
  if fromRelease then lock a else lockWhenReleased a
  (releaseBody a session fromRelease).ensuring (unlock a)

/-- `Allocatable::release` of one allocatable; `parent` is what `_parent->release` does and
`offer` what follows where there is no parent. -/
def releaseLevel (offer : AllocatablePtr → Bool → Bool → Task Unit) (a : AllocatablePtr)
    (session : SessionPtr) (fromRelease : Bool) (parent : Option (Task Unit)) : Task Unit := do
  let (isReleased, hasRequests) ← releaseLocked a session fromRelease
  match parent with
  | some release => release
  | none => if !fromRelease then offer a isReleased hasRequests

/-- `Allocatable::release`, given what offers a released allocatable to those that wait. -/
def releaseWith (offer : AllocatablePtr → Bool → Bool → Task Unit) (a : AllocatablePtr)
    (session : SessionPtr) (fromRelease : Bool) : Task Unit :=
  releaseLevel offer a session fromRelease
    (a.parent.map fun p => releaseLevel offer (.server p) session fromRelease none)

/-- `Allocatable::release` with `fromRelease` set, as the release loop calls it: nothing is
offered again. -/
def releaseQuietly (a : AllocatablePtr) (session : SessionPtr) (_ : Bool) : Task Unit :=
  releaseWith (fun _ _ _ => pure ()) a session true

/-- The locked block of the private `Allocatable::allocate`: how often the allocatable is
allocated now (0 if it is not), and whether the parent queues the attempt. -/
def allocateLocked (a : AllocatablePtr) (request : RequestPtr) (tryAllocate fromRelease : Bool) :
    Task (Int × Bool) := do
  checkAllocatable a tryAllocate fromRelease
  let self ← read fun s => s.allocatables a
  if self.session = none && (fromRelease || !self.releasing) then
    if ← AllocationRequest.allocate request none then
      tryCatch (allocated a request.session) fun ex => do
        if ex = .sessionDestroyedException then
          AllocationRequest.canceled request (.allocationException "session destroyed")
        throw ex
      modify fun s => s.setAllocatable a fun x =>
        { x with session := some request.session, count := self.count + 1 }
      AllocationRequest.allocated request a
      pure (self.count + 1, false)
    else pure (0, false)
  else if self.session = some request.session then
    if !tryAllocate then
      if ← AllocationRequest.allocate request self.session then
        modify fun s => s.setAllocatable a fun x => { x with count := self.count + 1 }
        AllocationRequest.allocated request a
        pure (self.count + 1, false)
      else pure (0, false)
    else pure (0, true)
  else
    queueAllocationAttempt a a request tryAllocate
    pure (0, false)

/-- The private `Allocatable::allocate`; `release` is what `_parent->release` does. -/
def allocateWith (release : AllocatablePtr → SessionPtr → Bool → Task Unit) (a : AllocatablePtr)
    (request : RequestPtr) (tryAllocate fromRelease : Bool) : Task Bool :=
  match a.parent with
  | none => do
    let (allocationCount, _) ← withLock a (allocateLocked a request tryAllocate fromRelease)
    return 0 < allocationCount
  | some p => do
    if !(← allocateFromChild p request a tryAllocate fromRelease) then
      return false
    let (allocationCount, queueWithParent) ←
      tryCatch (withLock a (allocateLocked a request tryAllocate fromRelease)) fun ex => do
        release (.server p) request.session fromRelease
        throw ex
    if allocationCount = 0 then
      if queueWithParent then
        queueAllocationAttemptFromChild p a
      release (.server p) request.session fromRelease
    return 0 < allocationCount

/-- The public `Allocatable::allocate` -/
def allocate (release : AllocatablePtr → SessionPtr → Bool → Task Unit) (a : AllocatablePtr)
    (request : RequestPtr) (fromRelease : Bool) : Task Bool :=
  catchSessionDestroyed (allocateWith release a request false fromRelease) (pure false)

/-- The public `Allocatable::tryAllocate` -/
def tryAllocate (release : AllocatablePtr → SessionPtr → Bool → Task Unit) (a : AllocatablePtr)
    (request : RequestPtr) (fromRelease : Bool) : Task Bool :=
  catchAllocation (allocateWith release a request true fromRelease) (pure false)

end Allocatable

end Ice.IceGrid
