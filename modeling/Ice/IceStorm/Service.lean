import Ice.Lib.Exceptional
import Ice.IceStorm.Database

/-!
# The state of one IceStorm replica

The database, the object adapters, the topic reaper and the topic objects, which
requests reach by their address: a request that was dispatched keeps its object
when the topic manager forgets it. Operations are programs that throw; which of
their database transactions fail, and whether too few observers confirm an update,
is an argument. Tracing and metrics are left out.
-/

namespace Ice.IceStorm

/-- The exceptions of the operations. -/
inductive StormException
  /-- An LMDBException, which a client sees as an UnknownException. -/
  | database
  /-- The UnknownException of `Observers::wait`. -/
  | replication
  | topicExists (name : String)
  | noSuchTopic (name : String)
  | invalidSubscriber (reason : String)
  | alreadySubscribed
  | badQoS (reason : String)
  | linkExists (name : String)
  | noSuchLink (name : String)
  | objectNotExist
  | observerInconsistency (reason : String)
  | alreadyRegistered (id : Identity)
  | illegalIdentity (id : Identity)
  | illegalArgument (reason : String)
  | nullHandle
  deriving DecidableEq, Repr

/-- Where an operation fails. -/
structure Faults where
  /-- Its database transaction throws. -/
  database : Bool
  /-- `Observers::wait` finds no majority. -/
  replication : Bool
  /-- The topics whose own transaction throws when `observerInit` destroys them. -/
  destroys : List Identity
  deriving DecidableEq, Repr

/-- No failure. -/
def Faults.none : Faults := ⟨false, false, []⟩

/-- A topic object. -/
structure TopicImpl where
  name : String
  id : Identity
  destroyed : Bool
  subscribers : List Subscriber
  deriving DecidableEq, Repr

/-- The topic manager with the `PersistentInstance` it works on. -/
structure TopicManagerImpl where
  inst : Instance
  db : Database
  /-- The identities that have a servant in the publish adapter. -/
  publishAdapter : List Identity
  /-- The topic objects by the identities of their servants. -/
  topicAdapter : Std.ExtTreeMap Identity Nat
  /-- The names that wait in the `TopicReaper`. -/
  topicReaper : List String
  /-- All topic objects that were made, by address. -/
  objects : List TopicImpl
  /-- `_topics`. -/
  topics : Std.ExtTreeMap String Nat

/-- A program of the service. -/
abbrev StormM := EStateM StormException TopicManagerImpl

/-- `if(c) throw e;` -/
def throwIf (c : Prop) [Decidable c] (e : StormException) : StormM Unit :=
  if c then throw e else pure ()

/-- A read-write transaction: it is committed as a whole or not at all. -/
def transaction {α : Type} (fails : Bool) (body : Database → α × Database) : StormM α := do
  throwIf fails .database
  let m ← get
  set { m with db := (body m.db).2 }
  return (body m.db).1

/-- A call on the observers, after which `Observers::wait` asks for a majority. -/
def replicate (fails : Bool) : StormM Unit := throwIf fails .replication

/-- `_instance->publishAdapter()->add(servant, id)`. -/
def addPublisher (id : Identity) : StormM Unit := do
  throwIf (id.name = "") (.illegalIdentity id)
  let m ← get
  throwIf (id ∈ m.publishAdapter) (.alreadyRegistered id)
  set { m with publishAdapter := id :: m.publishAdapter }

/-- `_instance->publishAdapter()->remove(id)`; what a topic or a subscriber has
registered stays registered until it removes it here. -/
def removePublisher (id : Identity) : StormM Unit :=
  modify fun m => { m with publishAdapter := m.publishAdapter.erase id }

/-- The topic object at an address. -/
def getTopic (a : Nat) : StormM TopicImpl := do
  match (← get).objects[a]? with
  | some t => return t
  | none => throw .objectNotExist

/-- Write to the topic object at an address. -/
def modifyTopic (a : Nat) (f : TopicImpl → TopicImpl) : StormM Unit :=
  modify fun m => { m with objects := m.objects.modify a f }

end Ice.IceStorm
