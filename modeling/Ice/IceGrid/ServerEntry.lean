import Ice.Lib.Transition

/-!
# Server entries of the registry

`ServerEntry` keeps the descriptor of a server on its node up to date. A server that is to be
loaded is in `_load`, one that was loaded as it is in `_loaded`, and one that is to be removed
from its node in `_destroy`. Each method does its work under the lock of the entry and then
calls a node at most once; the node answers later through `loadCallback`, `destroyCallback` or
`exception`.
-/

namespace Ice.IceGrid.Synchronization

structure ServerDescriptor where
  activation : String
  allocatable : Bool
  deriving DecidableEq, Repr

/-- A descriptor is never null here: a `ServerInfo` without one stands for no server. -/
structure ServerInfo where
  uuid : String
  revision : Nat
  node : String
  descriptor : ServerDescriptor
  sessionId : String := ""
  deriving DecidableEq, Repr

structure Session where
  id : String
  deriving DecidableEq, Repr

/-- The exceptions that a node answers with, or that stand for its not answering. -/
inductive Exception
  | deploymentException (reason : String)
  | nodeUnreachableException (name reason : String)
  deriving DecidableEq, Repr

/-- What the code rules out by an assertion, or would crash on. -/
inductive Fault
  | assertion
  | nullPointer
  deriving DecidableEq, Repr

/-- What a node says of a server that it loaded. -/
structure Loaded where
  proxy : String
  adapters : List (String × String)
  activationTimeout : Int
  deactivationTimeout : Int
  deriving DecidableEq, Repr

structure ServerEntry where
  load : Option ServerInfo := none
  loaded : Option ServerInfo := none
  destroy : Option ServerInfo := none
  proxy : Option String := none
  adapters : List (String × String) := []
  activationTimeout : Int := -1
  deactivationTimeout : Int := -1
  synchronizing : Bool := false
  updated : Bool := false
  noRestart : Bool := false
  allocatable : Bool := false
  exception : Option Exception := none
  allocationSession : Option Session := none
  deriving DecidableEq, Repr

/-- A call of a node. -/
inductive Call
  | loadServer (load : ServerInfo) (session : Option Session) (timeout : Int) (noRestart : Bool)
  | destroyServer (destroy : ServerInfo) (timeout : Int) (noRestart : Bool)
  deriving DecidableEq, Repr

/-- The node that is called. -/
def Call.node : Call → String
  | .loadServer load _ _ _ => load.node
  | .destroyServer destroy _ _ => destroy.node

namespace ServerEntry

/-- What a method leaves, and the call of a node that it makes then. -/
abbrev Result := Except Fault (ServerEntry × Option Call)

/-- `_loaded ? *_loaded : *_load`, where there is one of them. -/
def current (e : ServerEntry) : Option ServerInfo := e.loaded <|> e.load

/-- Nothing is known of the server on its node. -/
def forget (e : ServerEntry) : ServerEntry :=
  { e with proxy := none, adapters := [], activationTimeout := -1, deactivationTimeout := -1 }

/-- `_load.reset(_loaded.release())` -/
def reload (e : ServerEntry) : ServerEntry := { e with load := e.loaded, loaded := none }

/-- `ServerEntry::unsync` -/
def unsync (e : ServerEntry) : ServerEntry :=
  (if e.loaded.isSome then e.reload else e).forget

/-- A server that is on another node than the new one is to be destroyed there. -/
def moveAway (node : String) (e : ServerEntry) : ServerEntry :=
  if e.destroy.isSome then e
  else
    match e.loaded, e.load with
    | some loaded, load =>
      if node ≠ loaded.node then { e with destroy := some loaded, loaded := none }
      else
        match load with
        | some load => if node ≠ load.node then { e with destroy := some load, load := none } else e
        | none => e
    | none, some load =>
      if node ≠ load.node then { e with destroy := some load, load := none } else e
    | none, none => e

/-- The session id that a server with the session activation mode is loaded with. -/
def sessionId (e : ServerEntry) : String := (e.allocationSession.map (·.id)).getD ""

/-- `ServerEntry::update` -/
def update (info : ServerInfo) (noRestart : Bool) (e : ServerEntry) : ServerEntry :=
  let session : Bool := info.descriptor.activation = "session"
  { e.moveAway info.node with
    updated := true
    load := some (if session then { info with sessionId := e.sessionId } else info)
    noRestart
    loaded := none
    allocatable := info.descriptor.allocatable || session }

/-- `ServerEntry::destroy` -/
def destroyIt (noRestart : Bool) (e : ServerEntry) : Except Fault ServerEntry :=
  if e.current.isNone then .error .assertion
  else
    .ok { e with
      updated := true
      destroy := e.destroy <|> e.loaded <|> e.load
      noRestart
      load := none
      loaded := none
      allocatable := false }

/-- The call to make for what is pending: a server is destroyed on its node first. -/
def pendingCall (destroyTimeout : Int) (e : ServerEntry) : Option Call :=
  match e.destroy, e.load with
  | some destroy, _ => some (.destroyServer destroy destroyTimeout e.noRestart)
  | none, some load =>
    some (.loadServer load e.allocationSession e.deactivationTimeout e.noRestart)
  | none, none => none

/-- The last part of `syncImpl`: call a node, if something is pending. -/
def callPending (e : ServerEntry) : ServerEntry × Option Call :=
  match e.pendingCall e.deactivationTimeout with
  | none => (e, none)
  | some call => ({ e with synchronizing := true }, some call)

/-- `ServerEntry::syncImpl` -/
def syncImpl (e : ServerEntry) : ServerEntry × Option Call :=
  if e.synchronizing then (e, none)
  else
    let e := if e.load.isNone && e.destroy.isNone then e.reload else e
    { e with updated := false, exception := none }.callPending

/-- `ServerEntry::loadCallback` -/
def loadCallback (reply : Loaded) (e : ServerEntry) : Result :=
  if !e.updated then
    match e.load, e.destroy with
    | none, _ => .error .assertion
    | some _, some _ => .error .assertion
    | some load, none =>
      .ok ({ e with
        load := none
        loaded := some load
        proxy := some reply.proxy
        adapters := reply.adapters
        activationTimeout := reply.activationTimeout
        deactivationTimeout := reply.deactivationTimeout
        synchronizing := false }, none)
  else
    let e := { e with updated := false }
    match e.pendingCall (-1) with
    | none => .error .assertion
    | some call => .ok (e, some call)

/-- `ServerEntry::destroyCallback` -/
def destroyCallback (e : ServerEntry) : Result :=
  let e := { e with destroy := none }.forget
  match e.load with
  | none =>
    if e.loaded.isSome then .error .assertion
    else .ok ({ e with synchronizing := false }, none)
  | some load =>
    .ok ({ e with updated := false },
      some (.loadServer load e.allocationSession (-1) e.noRestart))

/-- `ServerEntry::exception` -/
def exceptionReply (ex : Exception) (e : ServerEntry) : Result :=
  if (e.destroy.isSome && e.load.isNone) || (e.destroy.isNone && !e.updated) then
    .ok ({ e with
      destroy := none
      exception := some ex
      synchronizing := false }.forget, none)
  else
    match e.load with
    | none => .error .nullPointer
    | some load =>
      .ok ({ e with destroy := none, updated := false },
        some (.loadServer load e.allocationSession e.deactivationTimeout e.noRestart))

/-- The server is there with the session activation mode, so that an allocation or a release of it
is noticed. -/
def notices (e : ServerEntry) : Bool := e.current.any (·.descriptor.activation = "session")

/-- A server with the session activation mode is to be loaded again for another session. -/
def setSession (session : Option Session) (e : ServerEntry) : Except Fault ServerEntry :=
  match e.current with
  | none => .ok e
  | some info =>
    if info.descriptor.activation = "session" then
      let e := if e.load.isNone then e.reload else e
      match e.load with
      | none => .error .nullPointer
      | some load =>
        let e := { e with updated := true, allocationSession := session }
        .ok { e with load := some { load with sessionId := e.sessionId } }
    else .ok e

/-- `ServerEntry::allocated` -/
def allocated (session : Session) (e : ServerEntry) : Except Fault ServerEntry :=
  e.setSession (some session)

/-- `ServerEntry::released` -/
def released (e : ServerEntry) : Except Fault ServerEntry := e.setSession none

/-- Whether `allocatedNoSync` and `releasedNoSync` synchronize the server. -/
def syncsSession (e : ServerEntry) : Bool :=
  let other (info : ServerInfo) : Bool := info.descriptor.activation ≠ "session"
  e.updated && !e.loaded.any other && !e.load.any other

/-- What a thread in `waitImpl` finds. -/
inductive Waited
  | synchronized
  | synchronizationException
  | failed (ex : Exception)
  deriving DecidableEq, Repr

/-- `ServerEntry::waitImpl`, when the thread looks at the entry; it may go on waiting. -/
def waitImpl (timeout : Int) (expired : Bool) (e : ServerEntry) : Option Waited :=
  if timeout ≠ 0 ∧ e.synchronizing ∧ ¬ (0 < timeout ∧ expired) then none
  else if e.synchronizing then some .synchronizationException
  else some ((e.exception.map .failed).getD .synchronized)

/-- `ServerEntry::waitForSyncNoThrow` -/
def waitForSyncNoThrow (timeout : Int) (expired : Bool) (e : ServerEntry) : Except Fault Unit :=
  match e.waitImpl timeout expired with
  | some .synchronizationException => if 0 ≤ timeout then .ok () else .error .assertion
  | _ => .ok ()

/-- What `getProxy` finds: the proxy and the node of the server, or that there is no server, or
it has to synchronize first. -/
inductive Lookup
  | found (proxy : Option String) (node : String)
  | serverNotExistException
  | synchronizes
  deriving DecidableEq, Repr

/-- `ServerEntry::getProxy`, each time it looks at the entry. -/
def getProxy (upToDate : Bool) (e : ServerEntry) : Except Fault Lookup :=
  if e.loaded.isSome || (e.proxy.isSome && e.synchronizing && !upToDate) then
    match e.loaded <|> e.load <|> e.destroy with
    | none => .error .assertion
    | some info => .ok (.found e.proxy info.node)
  else if e.load.isNone && e.destroy.isNone then .ok .serverNotExistException
  else .ok .synchronizes

end ServerEntry

/-- A server entry and the nodes, with what has happened to the entry. -/
structure Deployment where
  entry : ServerEntry := {}
  /-- The calls of nodes that were not answered yet. -/
  calls : List Call := []
  /-- The descriptor of the latest update, unless `destroy` came after it. -/
  latest : Option ServerInfo := none
  /-- The session that the server is allocated by, and whether the entry noticed the latest
  allocation or release, if there was one. -/
  allocation : Option Session := none
  noticed : Bool := true
  /-- The server on each node, and whether the latest answer of the node was an exception. -/
  placed : String → Option ServerInfo := fun _ => none
  failed : String → Bool := fun _ => false
  fault : Option Fault := none

/-- What happens to a server entry. -/
inductive Event
  | update (info : ServerInfo) (noRestart : Bool)
  /-- `ServerCache::remove`, which looks for the server before it destroys it. -/
  | remove (noRestart : Bool)
  | unsync
  | sync
  | allocated (session : Session)
  | released
  /-- `allocatedNoSync` and `releasedNoSync` -/
  | noSync
  | waitForSyncNoThrow (timeout : Int) (expired : Bool)
  | getProxy (upToDate : Bool)
  /-- A node loaded the server. -/
  | loadCallback (k : Nat) (reply : Loaded)
  /-- A node has the server no more. -/
  | destroyCallback (k : Nat)
  /-- A node answers with an exception or is not there; it may have done what it was asked to. -/
  | exception (k : Nat) (ex : Exception) (done : Bool)

namespace Deployment

/-- A method came to its end. -/
def finish (d : Deployment) : ServerEntry.Result → Deployment
  | .error fault => { d with fault := some fault }
  | .ok (entry, call) => { d with entry, calls := d.calls ++ call.toList }

/-- A method came to its end that calls no node. -/
def finishQuietly (d : Deployment) (r : Except Fault ServerEntry) : Deployment :=
  d.finish (r.map fun e => (e, none))

/-- A check came to its end. -/
def check {α : Type} (d : Deployment) (r : Except Fault α) : Deployment :=
  d.finish (r.map fun _ => (d.entry, none))

/-- A call is answered: the node has done what it was asked to, or not. -/
def answered (k : Nat) (call : Call) (done failed : Bool) (d : Deployment) : Deployment :=
  let has := match call with
    | .loadServer load _ _ _ => some load
    | .destroyServer _ _ _ => none
  { d with
    calls := d.calls.eraseIdx k
    placed := fun n => if n = call.node && done then has else d.placed n
    failed := fun n => if n = call.node then failed else d.failed n }

/-- What may happen until an assertion fails. -/
def step (d : Deployment) (e : Event) : Option Deployment :=
  if d.fault.isSome then none
  else
    match e with
    | .update info noRestart =>
      some { d with entry := d.entry.update info noRestart, latest := some info }
    | .remove noRestart =>
      if d.entry.current.isNone then none
      else some { d.finishQuietly (d.entry.destroyIt noRestart) with latest := none }
    | .unsync => some { d with entry := d.entry.unsync }
    | .sync => some (d.finish (.ok d.entry.syncImpl))
    | .allocated session =>
      some { d.finishQuietly (d.entry.allocated session) with
        allocation := some session
        noticed := d.entry.notices }
    | .released =>
      some { d.finishQuietly d.entry.released with
        allocation := none
        noticed := d.entry.notices }
    | .noSync => if d.entry.syncsSession then some (d.finish (.ok d.entry.syncImpl)) else some d
    | .waitForSyncNoThrow timeout expired =>
      some (d.check (d.entry.waitForSyncNoThrow timeout expired))
    | .getProxy upToDate => some (d.check (d.entry.getProxy upToDate))
    | .loadCallback k reply =>
      match d.calls[k]? with
      | some (.loadServer load session timeout noRestart) =>
        some ((d.answered k (.loadServer load session timeout noRestart) true false).finish
          (d.entry.loadCallback reply))
      | _ => none
    | .destroyCallback k =>
      match d.calls[k]? with
      | some (.destroyServer destroy timeout noRestart) =>
        some ((d.answered k (.destroyServer destroy timeout noRestart) true false).finish
          d.entry.destroyCallback)
      | _ => none
    | .exception k ex done =>
      (d.calls[k]?).map fun call =>
        (d.answered k call done true).finish (d.entry.exceptionReply ex)

end Deployment

end Ice.IceGrid.Synchronization
