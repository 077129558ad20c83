import Ice.IceGrid.Allocatable

/-!
# The object cache, the release loop and the operations

`AllocatableObjectCache` finds objects by identity and by type and keeps the requests
that wait for any object of a type. A release offers what it released to those that
wait, and an offer allocates with `fromRelease` set, so that the release it may end in
offers nothing: the loop is defined from `releaseQuietly`, and `release` from the loop.
-/

namespace Ice.IceGrid

open Ice.Lib
open AllocationRequest (cancel)

/-- A block under the mutex of the cache, which is not recursive. -/
def withCache {α : Type} (body : Task α) : Task α := do
  .act .internal fun s =>
    if s.cacheLocked then [] else [(.ok (), { s with cacheLocked := true })]
  body.ensuring (modify fun s => { s with cacheLocked := false })

namespace State

/-- `Cache::getImpl` -/
def getImpl (s : State) (id : Identity) : Option AllocatableObjectEntry :=
  s.entries.find? fun e => e.info.id = id

/-- `_types.find` -/
def findType (s : State) (type : String) : Option TypeEntry :=
  (s.types.find? fun t => t.1 = type).map Prod.snd

def setType (s : State) (type : String) (f : TypeEntry → TypeEntry) : State :=
  { s with types := s.types.map fun t => if t.1 = type then (t.1, f t.2) else t }

/-- The requests that wait for a type. -/
def waiting (s : State) (type : String) : List RequestPtr :=
  ((s.findType type).getD {}).requests

end State

namespace TypeEntry

/-- What comes of offering an object to one request. -/
inductive Offer
  | erased
  | taken
  | held
  | kept

/-- One round of the loop of `TypeEntry::canTryAllocate`. -/
def offer (release : AllocatablePtr → SessionPtr → Bool → Task Unit)
    (entry : AllocatableObjectEntry) (request : RequestPtr) (fromRelease : Bool) : Task Offer :=
  catchSessionDestroyed
    (do
      if ← AllocationRequest.isCanceled request then return .erased
      if ← Allocatable.tryAllocate release (.object entry) request fromRelease then return .taken
      if (← Allocatable.getSession (.object entry)).isSome then return .held
      return .kept)
    (pure .erased)

/-- `TypeEntry::canTryAllocate` from an iterator on: `kept` is before it, the last argument
from it on. -/
def canTryAllocate (release : AllocatablePtr → SessionPtr → Bool → Task Unit)
    (entry : AllocatableObjectEntry) (fromRelease : Bool) :
    List RequestPtr → List RequestPtr → Task Bool
  | _, [] => pure false
  | kept, request :: rest => do
    let erase := modify fun s => s.setType entry.info.type fun t =>
      { t with requests := kept ++ rest }
    match ← offer release entry request fromRelease with
    | .erased => do
      erase
      canTryAllocate release entry fromRelease kept rest
    | .taken => do
      erase
      return true
    | .held => return false
    | .kept => canTryAllocate release entry fromRelease (kept ++ [request]) rest

/-- The place of an object among those of its type, as `lower_bound` finds it. -/
def insertObject (e : AllocatableObjectEntry) (objects : List AllocatableObjectEntry) :
    List AllocatableObjectEntry :=
  objects.takeWhile (fun x => x.info.id.less e.info.id) ++
    e :: objects.dropWhile fun x => x.info.id.less e.info.id

/-- `TypeEntry::add` -/
def add (release : AllocatablePtr → SessionPtr → Bool → Task Unit)
    (entry : AllocatableObjectEntry) : Task Unit := do
  modify fun s => s.setType entry.info.type fun t =>
    { t with objects := insertObject entry t.objects }
  let requests ← read fun s => s.waiting entry.info.type
  if !requests.isEmpty then
    let _ ← canTryAllocate release entry false [] requests

/-- `TypeEntry::remove`: is the last object of the type gone? -/
def remove (entry : AllocatableObjectEntry) : Task Bool := do
  modify fun s => s.setType entry.info.type fun t => { t with objects := t.objects.erase entry }
  let t ← read fun s => (s.findType entry.info.type).getD {}
  if t.objects.isEmpty then
    t.requests.forM fun r => cancel r
      (.allocationException s!"no allocatable objects with type `{entry.info.type}' registered")
  return t.objects.isEmpty

/-- `TypeEntry::addAllocationRequest` -/
def addAllocationRequest (type : String) (request : RequestPtr) : Task Unit := do
  if ← AllocationRequest.pending request then
    modify fun s => s.setType type fun t => { t with requests := t.requests ++ [request] }

end TypeEntry

namespace AllocatableObjectCache

/-- `AllocatableObjectCache::canTryAllocate` -/
def canTryAllocate (release : AllocatablePtr → SessionPtr → Bool → Task Unit)
    (entry : AllocatableObjectEntry) : Task Bool :=
  withCache do
    match ← read fun s => s.findType entry.info.type with
    | none => pure false
    | some t => TypeEntry.canTryAllocate release entry true [] t.requests

end AllocatableObjectCache

namespace Allocatable

/-- The virtual `canTryAllocate` -/
def canTryAllocate : AllocatablePtr → Task Bool
  | .server _ => pure false
  | .object e => AllocatableObjectCache.canTryAllocate releaseQuietly e

/-- The next request in the queue of `a`; where there is none, `a` is no longer releasing. -/
def dequeue (a : AllocatablePtr) : Task (Option (AllocatablePtr × Option RequestPtr)) :=
  withLock a <| perform fun s =>
    match (s.allocatables a).requests with
    | [] => (none, s.setAllocatable a fun x => { x with releasing := false })
    | q :: rest => (some q, s.setAllocatable a fun x => { x with requests := rest })

/-- An entry of a queue with a request of a session. -/
def isOf (session : Option SessionPtr) (q : AllocatablePtr × Option RequestPtr) : Bool :=
  q.2.any fun r => session = some r.session

/-- The next request of the session that holds `a` in the queue of `a`. -/
def dequeueOfSession (a : AllocatablePtr) : Task (Option (AllocatablePtr × RequestPtr)) :=
  withLock a <| perform fun s =>
    let self := s.allocatables a
    match self.requests.find? (isOf self.session) with
    | some (b, some r) =>
      (some (b, r), s.setAllocatable a fun x =>
        { x with requests := x.requests.eraseP (isOf self.session) })
    | _ => (none, s.setAllocatable a fun x => { x with releasing := false })

/-- The inner loop of `Allocatable::release`: more requests of the session that got `a`. -/
def allocateMore (a : AllocatablePtr) : Task Unit :=
  .loop do
    match ← dequeueOfSession a with
    | none => return some ()
    | some (b, request) => do
      tryCatch (do let _ ← allocate releaseQuietly b request true) fun ex => do
        if ex.isUserException then cancel request ex else throw ex
      return none

/-- What `release` does where there is no parent: offer `a` to the requests in its queue, or
tell the cache that it can be allocated again. -/
def offer (a : AllocatablePtr) (isReleased hasRequests : Bool) : Task Unit := do
  if hasRequests then
    .loop do
      match ← dequeue a with
      | none => return some ()
      | some (b, request) =>
        tryCatch
          (do
            let allocated ← match request with
              | some request => allocate releaseQuietly b request true
              | none => canTryAllocate b
            if allocated then do
              allocateMore a
              return some ()
            return none)
          fun ex => do
            if ex.isUserException then
              match request with
              | some request => cancel request ex
              | none => throw .nullHandleException
              return none
            else throw ex
  else if isReleased then
    let _ ← canTryAllocate a

/-- `Allocatable::release` -/
def release : AllocatablePtr → SessionPtr → Bool → Task Unit := releaseWith offer

end Allocatable

namespace AllocatableObjectEntry

/-- `AllocatableObjectEntry::destroy` -/
def destroy (e : AllocatableObjectEntry) : Task Unit := do
  let session ← withLock (.object e) <| perform fun s =>
    ((s.allocatables (.object e)).session,
      s.setAllocatable (.object e) fun x => { x with destroyed := true })
  match session with
  | some session => catchAllocation (Allocatable.release (.object e) session false) (pure ())
  | none => pure ()

end AllocatableObjectEntry

namespace AllocatableObjectCache

/-- `AllocatableObjectCache::add`: a duplicate is only logged. -/
def add (info : ObjectInfo) (parent : ServerEntry) : Task Unit :=
  withCache do
    match ← read fun s => s.getImpl info.id with
    | some _ => pure ()
    | none =>
      let entry ← perform fun s =>
        let entry := ⟨s.nextAddress, info, parent⟩
        (entry, { s with nextAddress := s.nextAddress + 1, entries := s.entries ++ [entry] })
      if (← read fun s => s.findType info.type).isNone then
        modify fun s => { s with types := s.types ++ [(info.type, {})] }
      TypeEntry.add Allocatable.release entry

/-- `AllocatableObjectCache::get` -/
def get (id : Identity) : Task AllocatableObjectEntry :=
  withCache do
    match ← read fun s => s.getImpl id with
    | some entry => pure entry
    | none => throw (.objectNotRegisteredException id)

/-- `AllocatableObjectCache::remove`; an entry that is not there is logged and dereferenced. -/
def remove (id : Identity) : Task Unit := do
  let entry ← withCache do
    match ← read fun s => s.getImpl id with
    | none => throw .nullHandleException
    | some entry =>
      modify fun s => { s with entries := s.entries.erase entry }
      if ← TypeEntry.remove entry then
        modify fun s => { s with types := s.types.eraseP fun t => t.1 = entry.info.type }
      pure entry
  entry.destroy

/-- The loop of `allocateByType`: how many objects are enabled, or `none` where one of them
is allocated. -/
def tryObjects (request : RequestPtr) : List AllocatableObjectEntry → Nat → Task (Option Nat)
  | [], allocatable => pure (some allocatable)
  | q :: objects, allocatable => do
    if ← read fun s => s.enabled q.server then
      if ← Allocatable.tryAllocate Allocatable.release (.object q) request false then
        return none
      tryObjects request objects (allocatable + 1)
    else
      tryObjects request objects allocatable

/-- `AllocatableObjectCache::allocateByType`; `shuffle` may return any order. -/
def allocateByType (type : String) (request : RequestPtr) : Task Unit :=
  withCache do
    match ← read fun s => s.findType type with
    | none =>
      throw (.allocationException s!"no allocatable objects with type `{type}' registered")
    | some t =>
      let objects ← .act .internal fun s => t.objects.permutations.map fun l => (.ok l, s)
      catchSessionDestroyed
        (do
          match ← tryObjects request objects 0 with
          | none => pure ()
          | some 0 =>
            throw (.allocationException s!"no allocatable objects with type `{type}' enabled")
          | some _ => TypeEntry.addAllocationRequest type request)
        (pure ())

end AllocatableObjectCache

namespace SessionI

/-- `new ObjectAllocationRequest(session)` -/
def newRequest (session : SessionPtr) : Task RequestPtr := perform fun s =>
  (⟨s.nextAddress, session, (s.sessions session).allocationTimeout⟩,
    { s with nextAddress := s.nextAddress + 1 })

/-- `SessionI::allocateObjectById` -/
def allocateObjectById (session : SessionPtr) (id : Identity) : Task Unit := do
  let entry ← AllocatableObjectCache.get id
  let request ← newRequest session
  let _ ← Allocatable.allocate Allocatable.release (.object entry) request false

/-- `Allocatable::tryAllocate` of the object with an identity. -/
def tryAllocateObject (session : SessionPtr) (id : Identity) : Task Unit := do
  let entry ← AllocatableObjectCache.get id
  let request ← newRequest session
  let _ ← Allocatable.tryAllocate Allocatable.release (.object entry) request false

/-- `SessionI::allocateObjectByType` -/
def allocateObjectByType (session : SessionPtr) (type : String) : Task Unit := do
  let request ← newRequest session
  AllocatableObjectCache.allocateByType type request

/-- `SessionI::releaseObject` -/
def releaseObject (session : SessionPtr) (id : Identity) : Task Unit := do
  let entry ← AllocatableObjectCache.get id
  Allocatable.release (.object entry) session false

/-- `SessionI::destroyImpl`. The requests and allocations of a destroyed session no longer
change; sets of pointers may iterate in any order. -/
def destroyImpl (session : SessionPtr) : Task Unit := do
  .act .internal fun s =>
    if (s.sessions session).destroyed then [(.error .objectNotExistException, s)]
    else [(.ok (), s.setSession session fun x => { x with destroyed := true })]
  let requests ← .act .internal fun s =>
    (s.sessions session).requests.permutations.map fun l => (.ok l, s)
  requests.forM fun r => cancel r (.allocationException "session destroyed")
  modify fun s => s.setSession session fun x => { x with requests := [] }
  let allocations ← .act .internal fun s =>
    (s.sessions session).allocations.permutations.map fun l => (.ok l, s)
  allocations.forM fun a => catchAllocation (Allocatable.release a session false) (pure ())
  modify fun s => s.setSession session fun x => { x with allocations := [] }

end SessionI

/-- What clients, the registry and the timer do. -/
inductive Operation
  | allocateObjectById (session : SessionPtr) (id : Identity)
  | tryAllocateObject (session : SessionPtr) (id : Identity)
  | allocateObjectByType (session : SessionPtr) (type : String)
  | releaseObject (session : SessionPtr) (id : Identity)
  | setAllocationTimeout (session : SessionPtr) (timeout : Int)
  | destroy (session : SessionPtr)
  | add (info : ObjectInfo) (server : ServerEntry)
  | remove (id : Identity)
  | enable (server : ServerEntry) (enabled : Bool)
  | runTimerTask (request : RequestPtr)
  deriving DecidableEq

/-- The program of an operation. -/
def Operation.run : Operation → Task Unit
  | .allocateObjectById session id => SessionI.allocateObjectById session id
  | .tryAllocateObject session id => SessionI.tryAllocateObject session id
  | .allocateObjectByType session type => SessionI.allocateObjectByType session type
  | .releaseObject session id => SessionI.releaseObject session id
  | .setAllocationTimeout session timeout => modify fun s =>
    s.setSession session fun x => { x with allocationTimeout := timeout }
  | .destroy session => SessionI.destroyImpl session
  | .add info server => AllocatableObjectCache.add info server
  | .remove id => AllocatableObjectCache.remove id
  | .enable server enabled => modify fun s =>
    { s with enabled := Function.update s.enabled server enabled }
  | .runTimerTask request => AllocationRequest.runTimerTask request

/-- The registry: the operations that are running and what they share. -/
abbrev Registry := Machine State Point Exception Operation

/-- A registry before the first object is added. -/
def Registry.fresh (enabled : ServerEntry → Bool) : Registry := ⟨{ enabled }, []⟩

/-- One move: an operation starts, or one of those that run goes on. -/
def Registry.move : Registry → Move Operation → Option Registry := Machine.move Operation.run

end Ice.IceGrid
