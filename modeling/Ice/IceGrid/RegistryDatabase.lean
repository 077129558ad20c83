import Ice.IceStorm.Database
import Ice.Lib.SecondaryIndex
import Ice.Lib.Transition

/-!
# The tables of a registry

A registry keeps the adapters and objects that are registered dynamically in LMDB tables, with
indexes by replica group and by type, and tells its observer topics what it changes. An operation
has the mutex of the database; its transaction leaves no trace if an exception is thrown.

The adapters and objects of applications are known by the applications that they belong to. What
the topics publish is left out, and whom the operations wait for.
-/

namespace Ice.IceGrid.Persistence

open Std

structure AdapterInfo where
  id : String := ""
  proxy : Option Ice.ObjectPrx := none
  replicaGroupId : String := ""
  deriving DecidableEq, Repr, Inhabited

structure ObjectInfo where
  proxy : Option Ice.ObjectPrx := none
  type : String := ""
  deriving DecidableEq, Repr, Inhabited

inductive Exception
  | adapterExists (id : String)
  | adapterNotExist (id : String)
  | objectExists (id : Ice.Identity)
  | objectNotRegistered (id : Ice.Identity)
  | deployment (reason : String)
  | keyTooLong
  | lmdb
  | nullHandle
  deriving DecidableEq, Repr

/-- The identity of the proxy, which is not nil where it is used -/
def ObjectInfo.identity (info : ObjectInfo) : Ice.Identity :=
  (info.proxy.map (·.identity)).getD .empty

/-- `info.proxy->ice_getIdentity()` -/
def ObjectInfo.getIdentity (info : ObjectInfo) : Except Exception Ice.Identity :=
  if info.proxy = none then .error .nullHandle else .ok info.identity

def maxKeySize : Nat := 511

/-- The size of a string in the encoding of Ice -/
def stringSize (s : String) : Nat := (if s.utf8ByteSize < 255 then 1 else 5) + s.utf8ByteSize

def stringFits (s : String) : Bool := stringSize s ≤ maxKeySize

def identitySize (id : Ice.Identity) : Nat := stringSize id.name + stringSize id.category

def identityFits (id : Ice.Identity) : Bool := identitySize id ≤ maxKeySize

/-- Objects, and the pairs of their types and identities -/
structure ObjectTables where
  objects : ExtTreeMap Ice.Identity ObjectInfo := ∅
  objectsByType : Lib.Pairs String Ice.Identity := ∅

structure Tables where
  adapters : ExtTreeMap String AdapterInfo := ∅
  adaptersByGroupId : Lib.Pairs String String := ∅
  registered : ObjectTables := {}
  internal : ObjectTables := {}
  serials : ExtTreeMap String Int := ∅

def adaptersDbName : String := "adapters"

def objectsDbName : String := "objects"

namespace Tables

def getSerial (t : Tables) (dbName : String) : Int := t.serials[dbName]?.getD 1

/-- The serial of a master, or the next one if there is none; masters of old versions send -1. -/
def updateSerial (t : Tables) (dbName : String) (serial : Int) : Int × Tables :=
  if serial = -1 then (-1, t)
  else
    let serial := if 0 < serial then serial else t.getSerial dbName + 1
    (serial, { t with serials := t.serials.insert dbName serial })

def addAdapter (t : Tables) (info : AdapterInfo) : Except Exception Tables :=
  if stringFits info.id && stringFits info.replicaGroupId then
    .ok { t with
      adapters := t.adapters.insert info.id info
      adaptersByGroupId := t.adaptersByGroupId.insert (info.replicaGroupId, info.id) }
  else .error .keyTooLong

def deleteAdapter (t : Tables) (info : AdapterInfo) : Tables :=
  { t with
    adapters := t.adapters.erase info.id
    adaptersByGroupId := t.adaptersByGroupId.erase (info.replicaGroupId, info.id) }

def findByReplicaGroupId (t : Tables) (name : String) : List AdapterInfo :=
  Lib.readGroup t.adapters name default (t.adaptersByGroupId.cursor name)

def objectTables (t : Tables) (internal : Bool) : ObjectTables :=
  if internal then t.internal else t.registered

def setObjectTables (t : Tables) (internal : Bool) (o : ObjectTables) : Tables :=
  if internal then { t with internal := o } else { t with registered := o }

end Tables

namespace ObjectTables

def put (o : ObjectTables) (info : ObjectInfo) : ObjectTables where
  objects := o.objects.insert info.identity info
  objectsByType := o.objectsByType.insert (info.type, info.identity)

/-- The pair of an object is removed, not the object. -/
def delType (o : ObjectTables) (type : String) (id : Ice.Identity) : ObjectTables :=
  { o with objectsByType := o.objectsByType.erase (type, id) }

def del (o : ObjectTables) (info : ObjectInfo) : ObjectTables where
  objects := o.objects.erase info.identity
  objectsByType := o.objectsByType.erase (info.type, info.identity)

def findByType (o : ObjectTables) (type : String) : List ObjectInfo :=
  Lib.readGroup o.objects type default (o.objectsByType.cursor type)

end ObjectTables

/-- `what()` of the exception for a key of this size, without the file and the line -/
def keyTooLongText (size : Nat) : String :=
  "::IceDB::KeyTooLongException: " ++
    (if 0 < size then "Key size = " ++ toString size ++ ", " else "") ++
    "Max size = " ++ toString maxKeySize

/-- What a key of the object tables that is too long is reported as -/
def keyTooLong (internal : Bool) (key : String) (size : Nat) : Exception :=
  if internal then .keyTooLong
  else .deployment (key ++ "' is too long: " ++ keyTooLongText size)

def Tables.addObject (t : Tables) (info : ObjectInfo) (internal : Bool) :
    Except Exception Tables := do
  let id ← info.getIdentity
  if !identityFits id then
    .error (keyTooLong internal ("object identity `" ++ Ice.identityToString id) (identitySize id))
  else if !stringFits info.type then
    .error (keyTooLong internal ("object type `" ++ info.type) (stringSize info.type))
  else .ok (t.setObjectTables internal ((t.objectTables internal).put info))

def Tables.deleteObject (t : Tables) (info : ObjectInfo) (internal : Bool) : Tables :=
  t.setObjectTables internal ((t.objectTables internal).del info)

/-- What a topic keeps for the observers that subscribe to it; it is not destroyed. -/
structure ObserverTopic (κ ν : Type) [Ord κ] where
  serial : Int := 0
  dbSerial : Int
  records : ExtTreeMap κ ν

namespace ObserverTopic

variable {κ ν : Type} [Ord κ] [TransOrd κ]

def updateSerial (topic : ObserverTopic κ ν) (dbSerial : Int) : ObserverTopic κ ν :=
  { topic with
    serial := topic.serial + 1
    dbSerial := if 0 < dbSerial then dbSerial else topic.dbSerial }

/-- `adapterInit`, `objectInit` -/
def init (topic : ObserverTopic κ ν) (dbSerial : Int) (key : ν → κ) (infos : List ν) :
    ObserverTopic κ ν :=
  { topic.updateSerial dbSerial with
    records := infos.foldl (fun records info => records.insertIfNew (key info) info) ∅ }

/-- `adapterAdded`, `objectAdded` -/
def added (topic : ObserverTopic κ ν) (dbSerial : Int) (k : κ) (info : ν) : ObserverTopic κ ν :=
  { topic.updateSerial dbSerial with records := topic.records.insertIfNew k info }

/-- `adapterUpdated`, `objectUpdated` -/
def updated (topic : ObserverTopic κ ν) (dbSerial : Int) (k : κ) (info : ν) : ObserverTopic κ ν :=
  { topic.updateSerial dbSerial with records := topic.records.insert k info }

/-- `adapterRemoved`, `objectRemoved` -/
def removed (topic : ObserverTopic κ ν) (dbSerial : Int) (k : κ) : ObserverTopic κ ν :=
  { topic.updateSerial dbSerial with records := topic.records.erase k }

end ObserverTopic

abbrev AdapterObserverTopic := ObserverTopic String AdapterInfo

abbrev ObjectObserverTopic := ObserverTopic Ice.Identity ObjectInfo

namespace ObjectObserverTopic

/-- Both branches of the loop put the object. -/
def wellKnownObjectsAddedOrUpdated (topic : ObjectObserverTopic) (infos : List ObjectInfo) :
    ObjectObserverTopic :=
  infos.foldl (fun topic info =>
    if topic.records.contains info.identity then topic.updated 0 info.identity info
    else topic.added 0 info.identity info) topic

def wellKnownObjectsRemoved (topic : ObjectObserverTopic) (infos : List ObjectInfo) :
    ObjectObserverTopic :=
  infos.foldl (fun topic info => topic.removed 0 info.identity) topic

end ObjectObserverTopic

/-- The caches know the applications that adapters, replica groups and objects belong to. -/
structure Database where
  tables : Tables
  adapterCache : String → Option String
  objectCache : Ice.Identity → Option String
  adapterObserverTopic : AdapterObserverTopic
  objectObserverTopic : ObjectObserverTopic

/-- A transaction, which an error of LMDB may end. -/
def transaction {α : Type} (fails : Bool) (body : Except Exception α) : Except Exception α := do
  let a ← body
  if fails then .error .lmdb else .ok a

namespace Database

/-- With a proxy, an adapter is added or updated; without one, it is removed. -/
def setAdapterDirectProxy (db : Database) (adapterId replicaGroupId : String)
    (proxy : Option Ice.ObjectPrx) (dbSerial : Int) (fails : Bool) : Except Exception Database :=
  if (db.adapterCache adapterId).isSome then .error (.adapterExists adapterId)
  else if (db.adapterCache replicaGroupId).isSome then
    .error (.deployment ("registering adapter `" ++ adapterId ++ "' with the replica group `" ++
      replicaGroupId ++ "' is not allowed:\nthe replica group was added with an application " ++
      "descriptor and only adapters specified in an application descriptor can be member of " ++
      "this replica group"))
  else
    let info : AdapterInfo := { id := adapterId, proxy, replicaGroupId }
    let found := db.tables.adapters[adapterId]?
    let oldInfo := found.getD {}
    if proxy.isSome then do
      let (dbSerial, tables) ← transaction fails do
        let tables := if replicaGroupId ≠ oldInfo.replicaGroupId then
            { db.tables with adaptersByGroupId :=
              db.tables.adaptersByGroupId.erase (oldInfo.replicaGroupId, adapterId) }
          else db.tables
        let tables ← tables.addAdapter info
        .ok (tables.updateSerial adaptersDbName dbSerial)
      let topic := if found.isSome then db.adapterObserverTopic.updated dbSerial adapterId info
        else db.adapterObserverTopic.added dbSerial adapterId info
      .ok { db with tables, adapterObserverTopic := topic }
    else if found.isNone then .ok db
    else do
      let (dbSerial, tables) ← transaction fails
        (.ok ((db.tables.deleteAdapter oldInfo).updateSerial adaptersDbName dbSerial))
      .ok { db with
        tables
        adapterObserverTopic := db.adapterObserverTopic.removed dbSerial adapterId }

/-- An adapter of a replica group is put without its group. -/
def ungroup (t : Tables) (info : AdapterInfo) : Except Exception Tables :=
  { t with
      adaptersByGroupId := t.adaptersByGroupId.erase (info.replicaGroupId, info.id) }.addAdapter
    { info with replicaGroupId := "" }

/-- An adapter is removed, or a replica group, whose adapters stay. -/
def removeAdapter (db : Database) (adapterId : String) (fails : Bool) :
    Except Exception Database :=
  match db.adapterCache adapterId with
  | some application => .error (.deployment ("removing adapter `" ++ adapterId ++
    "' is not allowed:\nthe adapter was added with the application descriptor `" ++
    application ++ "'"))
  | none =>
    match db.tables.adapters[adapterId]? with
    | some info => do
      let (dbSerial, tables) ← transaction fails
        (.ok ((db.tables.deleteAdapter info).updateSerial adaptersDbName 0))
      .ok { db with
        tables
        adapterObserverTopic := db.adapterObserverTopic.removed dbSerial adapterId }
    | none =>
      let infos := db.tables.findByReplicaGroupId adapterId
      if infos.isEmpty then .error (.adapterNotExist adapterId)
      else do
        let (dbSerial, tables) ← transaction fails do
          let tables ← infos.foldlM ungroup db.tables
          .ok (tables.updateSerial adaptersDbName 0)
        let topic := infos.foldl (fun (topic : AdapterObserverTopic) info =>
          topic.updated dbSerial info.id { info with replicaGroupId := "" })
          db.adapterObserverTopic
        .ok { db with tables, adapterObserverTopic := topic }

def syncAdapters (db : Database) (adapters : List AdapterInfo) (dbSerial : Int) (fails : Bool) :
    Except Exception Database := do
  let (dbSerial, tables) ← transaction fails do
    let tables ← adapters.foldlM Tables.addAdapter
      { db.tables with adapters := ∅, adaptersByGroupId := ∅ }
    .ok (tables.updateSerial adaptersDbName dbSerial)
  .ok { db with
    tables
    adapterObserverTopic := db.adapterObserverTopic.init dbSerial AdapterInfo.id adapters }

def addObject (db : Database) (info : ObjectInfo) (fails : Bool) : Except Exception Database := do
  let id ← info.getIdentity
  if (db.objectCache id).isSome then .error (.objectExists id)
  else
    let (dbSerial, tables) ← transaction fails do
      if db.tables.registered.objects.contains id then .error (.objectExists id)
      else
        let tables ← db.tables.addObject info false
        .ok (tables.updateSerial objectsDbName 0)
    .ok { db with
      tables
      objectObserverTopic := db.objectObserverTopic.added dbSerial id info }

/-- The record is looked up with an identity that was not set. -/
def addOrUpdateObject (db : Database) (info : ObjectInfo) (dbSerial : Int) (fails : Bool) :
    Except Exception Database := do
  let id ← info.getIdentity
  if (db.objectCache id).isSome then .error (.objectExists id)
  else
    let k : Ice.Identity := .empty
    let v := db.tables.registered.objects[k]?
    let (dbSerial, tables) ← transaction fails do
      let registered := match v with
        | some v => db.tables.registered.delType v.type v.identity
        | none => db.tables.registered
      let tables ← { db.tables with registered }.addObject info false
      .ok (tables.updateSerial objectsDbName dbSerial)
    let topic := if v.isSome then db.objectObserverTopic.updated dbSerial id info
      else db.objectObserverTopic.added dbSerial id info
    .ok { db with tables, objectObserverTopic := topic }

def removeObject (db : Database) (id : Ice.Identity) (dbSerial : Int) (fails : Bool) :
    Except Exception Database :=
  match db.objectCache id with
  | some application => .error (.deployment ("removing object `" ++ Ice.identityToString id ++
    "' is not allowed:\nthe object was added with the application descriptor `" ++ application))
  | none =>
    match db.tables.registered.objects[id]? with
    | none => .error (.objectNotRegistered id)
    | some info => do
      let (dbSerial, tables) ← transaction fails
        (.ok ((db.tables.deleteObject info false).updateSerial objectsDbName dbSerial))
      .ok { db with
        tables
        objectObserverTopic := db.objectObserverTopic.removed dbSerial id }

def updateObject (db : Database) (proxy : Option Ice.ObjectPrx) (fails : Bool) :
    Except Exception Database := do
  let id ← ({ proxy } : ObjectInfo).getIdentity
  match db.objectCache id with
  | some application => .error (.deployment ("updating object `" ++ Ice.identityToString id ++
    "' is not allowed:\nthe object was added with the application descriptor `" ++
    application ++ "'"))
  | none =>
    match db.tables.registered.objects[id]? with
    | none => .error (.objectNotRegistered id)
    | some info =>
      let info := { info with proxy }
      let (dbSerial, tables) ← transaction fails do
        let tables ← db.tables.addObject info false
        .ok (tables.updateSerial objectsDbName 0)
      .ok { db with
        tables
        objectObserverTopic := db.objectObserverTopic.updated dbSerial id info }

/-- One round of `addOrUpdateRegistryWellKnownObjects` -/
def addOrUpdateWellKnownObject (t : Tables) (p : ObjectInfo) : Except Exception Tables := do
  let id ← p.getIdentity
  match t.registered.objects[id]? with
  | some info =>
    ({ t with registered := t.registered.delType info.type id } : Tables).addObject p false
  | none => t.addObject p false

def addOrUpdateRegistryWellKnownObjects (db : Database) (objects : List ObjectInfo)
    (fails : Bool) : Except Exception Database := do
  let tables ← transaction fails (objects.foldlM addOrUpdateWellKnownObject db.tables)
  .ok { db with
    tables
    objectObserverTopic := db.objectObserverTopic.wellKnownObjectsAddedOrUpdated objects }

/-- One round of `removeRegistryWellKnownObjects` -/
def removeWellKnownObject (t : Tables) (p : ObjectInfo) : Except Exception Tables := do
  let id ← p.getIdentity
  match t.registered.objects[id]? with
  | some info => .ok (t.deleteObject info false)
  | none => .ok t

def removeRegistryWellKnownObjects (db : Database) (objects : List ObjectInfo) (fails : Bool) :
    Except Exception Database := do
  let tables ← transaction fails (objects.foldlM removeWellKnownObject db.tables)
  .ok { db with
    tables
    objectObserverTopic := db.objectObserverTopic.wellKnownObjectsRemoved objects }

def syncObjects (db : Database) (objects : List ObjectInfo) (dbSerial : Int) (fails : Bool) :
    Except Exception Database := do
  let (dbSerial, tables) ← transaction fails do
    let tables ← objects.foldlM (fun t info => t.addObject info false)
      { db.tables with registered := {} }
    .ok (tables.updateSerial objectsDbName dbSerial)
  .ok { db with
    tables
    objectObserverTopic := db.objectObserverTopic.init dbSerial ObjectInfo.identity objects }

def addInternalObject (db : Database) (info : ObjectInfo) (replace fails : Bool) :
    Except Exception Database := do
  let id ← info.getIdentity
  let tables ← transaction fails
    (match db.tables.internal.objects[id]? with
    | some oldInfo =>
      if !replace then .error (.objectExists id)
      else
        ({ db.tables with
          internal := db.tables.internal.delType oldInfo.type id } : Tables).addObject info true
    | none => db.tables.addObject info true)
  .ok { db with tables }

def removeInternalObject (db : Database) (id : Ice.Identity) (fails : Bool) :
    Except Exception Database := do
  match db.tables.internal.objects[id]? with
  | none => .error (.objectNotRegistered id)
  | some info =>
    let tables ← transaction fails (.ok (db.tables.deleteObject info true))
    .ok { db with tables }

/-- A registry that was never started has empty tables. -/
def initial : Database where
  tables.serials := ((∅ : ExtTreeMap String Int).insert adaptersDbName 1).insert objectsDbName 1
  adapterCache _ := none
  objectCache _ := none
  adapterObserverTopic := { dbSerial := 1, records := ∅ }
  objectObserverTopic := { dbSerial := 1, records := ∅ }

/-- The constructor reads the tables. -/
def restart (db : Database) : Database :=
  { db with
    adapterObserverTopic :=
      { dbSerial := db.tables.getSerial adaptersDbName, records := db.tables.adapters }
    objectObserverTopic :=
      { dbSerial := db.tables.getSerial objectsDbName, records := db.tables.registered.objects } }

end Database

/-- An operation; the applications change the caches. -/
inductive Operation
  | setAdapterDirectProxy (adapterId replicaGroupId : String) (proxy : Option Ice.ObjectPrx)
      (dbSerial : Int)
  | removeAdapter (adapterId : String)
  | syncAdapters (adapters : List AdapterInfo) (dbSerial : Int)
  | addObject (info : ObjectInfo)
  | addOrUpdateObject (info : ObjectInfo) (dbSerial : Int)
  | removeObject (id : Ice.Identity) (dbSerial : Int)
  | updateObject (proxy : Option Ice.ObjectPrx)
  | addOrUpdateRegistryWellKnownObjects (objects : List ObjectInfo)
  | removeRegistryWellKnownObjects (objects : List ObjectInfo)
  | syncObjects (objects : List ObjectInfo) (dbSerial : Int)
  | addInternalObject (info : ObjectInfo) (replace : Bool)
  | removeInternalObject (id : Ice.Identity)
  | applications (adapterCache : String → Option String)
      (objectCache : Ice.Identity → Option String)
  | restart

def Database.perform (db : Database) (fails : Bool) : Operation → Except Exception Database
  | .setAdapterDirectProxy adapterId replicaGroupId proxy dbSerial =>
    db.setAdapterDirectProxy adapterId replicaGroupId proxy dbSerial fails
  | .removeAdapter adapterId => db.removeAdapter adapterId fails
  | .syncAdapters adapters dbSerial => db.syncAdapters adapters dbSerial fails
  | .addObject info => db.addObject info fails
  | .addOrUpdateObject info dbSerial => db.addOrUpdateObject info dbSerial fails
  | .removeObject id dbSerial => db.removeObject id dbSerial fails
  | .updateObject proxy => db.updateObject proxy fails
  | .addOrUpdateRegistryWellKnownObjects objects =>
    db.addOrUpdateRegistryWellKnownObjects objects fails
  | .removeRegistryWellKnownObjects objects => db.removeRegistryWellKnownObjects objects fails
  | .syncObjects objects dbSerial => db.syncObjects objects dbSerial fails
  | .addInternalObject info replace => db.addInternalObject info replace fails
  | .removeInternalObject id => db.removeInternalObject id fails
  | .applications adapterCache objectCache => .ok { db with adapterCache, objectCache }
  | .restart => .ok db.restart

/-- One operation, which may meet an error of LMDB; an exception leaves the database as it is. -/
def Database.step (db : Database) : Operation × Bool → Option Database
  | (operation, fails) =>
    match db.perform fails operation with
    | .ok db => some db
    | .error _ => some db

end Ice.IceGrid.Persistence
