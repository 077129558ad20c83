import Mathlib
import Ice.IceStorm.Service

/-!
# Topics

`Subscriber::create` and the operations of `TopicImpl`. Each operation holds
`_subscribersMutex` from its first look at the topic to its last, so that it is one
step; only `publish` queues the events without the mutex. Topic and publisher
proxies are given by their identities.
-/

namespace Ice.IceStorm

open IceStormElection

namespace Subscriber

/-- `istream >> int` on a whole trimmed text. -/
def parseInt (text : String) : Option Int :=
  let delim (c : Char) : Bool := c ∈ [' ', '\t', '\r', '\n']
  let blank (c : Char) : Bool := delim c || c.toNat = 11 || c.toNat = 12
  let trimmed := ((text.toList.dropWhile delim).reverse.dropWhile delim).reverse
  let digits (cs : List Char) : Option Nat :=
    if cs.isEmpty || !cs.all Char.isDigit then none
    else some (cs.foldl (fun n c => 10 * n + (c.toNat - '0'.toNat)) 0)
  let value : Option Int :=
    match trimmed.dropWhile blank with
    | '-' :: cs => (digits cs).map fun n => -(n : Int)
    | '+' :: cs => (digits cs).map Nat.cast
    | cs => (digits cs).map Nat.cast
  value.filter fun n => decide (-2 ^ 31 ≤ n) && decide (n < 2 ^ 31)

/-- `ice_timeout`. -/
def checkTimeout (newTimeout : Int) : Except StormException Unit :=
  if newTimeout < 1 ∧ newTimeout ≠ -1 then
    .error (.illegalArgument s!"invalid value passed to ice_timeout: {newTimeout}")
  else .ok ()

/-- `ice_locatorCacheTimeout`. -/
def checkLocatorCacheTimeout (newTimeout : Int) : Except StormException Unit :=
  if newTimeout < -1 then
    .error (.illegalArgument s!"invalid value passed to ice_locatorCacheTimeout: {newTimeout}")
  else .ok ()

/-- The QoS `locatorCacheTimeout`. -/
def checkLocatorCacheTimeoutQoS (qos : QoS) : Except StormException Unit :=
  match qos.find "locatorCacheTimeout" with
  | none => .ok ()
  | some text =>
    match parseInt text with
    | none => .error (.badQoS
      ("invalid locator cache timeout (numeric value required): " ++ text))
    | some n => checkLocatorCacheTimeout n

/-- The QoS `connectionCached`. -/
def checkConnectionCachedQoS (qos : QoS) : Except StormException Unit :=
  match qos.find "connectionCached" with
  | none => .ok ()
  | some text =>
    match parseInt text with
    | none => .error (.badQoS
      ("invalid connection cached setting (numeric value required): " ++ text))
    | some _ => .ok ()

/-- The QoS `reliability`. -/
def checkReliability (reliability : String) : Except StormException Unit :=
  if reliability ≠ "" ∧ reliability ≠ "ordered" then
    .error (.badQoS ("invalid reliability: " ++ reliability))
  else .ok ()

/-- The subclass of the subscriber that is made. -/
def chooseKind (reliability : String) (obj : ObjectPrx) : Except StormException SubscriberKind :=
  if reliability = "ordered" then
    if obj.mode ≠ .twoway then .error (.badQoS "ordered reliability requires a twoway proxy")
    else .ok (.twoway true)
  else
    match obj.mode with
    | .oneway | .datagram => .ok .oneway
    | .batchOneway | .batchDatagram => .ok .batch
    | .twoway => .ok (.twoway false)

/-- The `try` block of `create`: the checks on the QoS and the new subscriber. -/
def configure (inst : Instance) (rec : SubscriberRecord) (obj : ObjectPrx) :
    Except StormException Subscriber := do
  let retryCount := ((rec.theQoS.find "retryCount").map atoi).getD 0
  let reliability := (rec.theQoS.find "reliability").getD ""
  checkReliability reliability
  checkTimeout inst.sendTimeout
  checkLocatorCacheTimeoutQoS rec.theQoS
  checkConnectionCachedQoS rec.theQoS
  let kind ← chooseKind reliability obj
  return new rec kind retryCount

/-- The identity of a subscriber's own publisher. -/
def perId (inst : Instance) (rec : SubscriberRecord) (obj : ObjectPrx) : Identity :=
  ⟨"topic." ++ rec.topicName ++ ".publish." ++ identityToString obj.identity, inst.instanceName⟩

/-- `_proxy`, which links do not have. -/
def proxy (inst : Instance) (s : Subscriber) : Option Identity :=
  if s.record.link then none else s.record.obj.map (perId inst s.record)

/-- `Subscriber::create`. -/
def create (rec : SubscriberRecord) : StormM Subscriber := do
  let inst := (← get).inst
  match rec.obj with
  | none => throw .nullHandle
  | some obj =>
    if rec.link then
      match checkTimeout inst.sendTimeout with
      | .error e => throw e
      | .ok () => return new rec .link (-1)
    else
      addPublisher (perId inst rec obj)
      match configure inst rec obj with
      | .error e =>
        removePublisher (perId inst rec obj)
        throw e
      | .ok subscriber => return subscriber

/-- `Subscriber::destroy`; a publisher that is gone already is no error. -/
def destroy (s : Subscriber) : StormM Unit := do
  match s.proxy (← get).inst with
  | none => return
  | some id => removePublisher id

end Subscriber

namespace TopicImpl

/-- `find(_subscribers.begin(), _subscribers.end(), id)`. -/
def findSubscriber (id : Identity) (t : TopicImpl) : Option Subscriber :=
  t.subscribers.find? fun s => s.id = id

/-- `_subscribers.push_back`. -/
def push (s : Subscriber) (t : TopicImpl) : TopicImpl :=
  { t with subscribers := t.subscribers ++ [s] }

/-- `_subscribers.erase(p)` for the subscriber that `find` finds. -/
def eraseSubscriber (id : Identity) (t : TopicImpl) : TopicImpl :=
  { t with subscribers := t.subscribers.eraseP fun s => s.id = id }

/-- `pubid` and `linkid`: the compatible form has the topic's name as category. -/
def publisherIds (name : String) (id : Identity) : Identity × Identity :=
  if id.category = "" then (⟨"publish", name⟩, ⟨"link", name⟩)
  else (⟨name ++ ".publish", id.category⟩, ⟨name ++ ".link", id.category⟩)

/-- The loop of the constructor: a subscriber that cannot be made is skipped with a
warning, but its proxy is looked at before. -/
def recreate : List SubscriberRecord → StormM (List Subscriber)
  | [] => return []
  | rec :: rest => do
    throwIf (rec.obj = none) .nullHandle
    let s ← tryCatch (do return [← Subscriber.create rec]) fun _ => return []
    return s ++ (← recreate rest)

/-- The constructor. -/
def new (name : String) (id : Identity) (subscribers : List SubscriberRecord) :
    StormM TopicImpl := do
  addPublisher (publisherIds name id).1
  addPublisher (publisherIds name id).2
  let subscribers ← recreate subscribers
  return { name, id, destroyed := false, subscribers }

/-- The loop over the subscribers that are to be removed. -/
def eraseAll (a : Nat) : List Identity → StormM Unit
  | [] => return
  | id :: ids => do
    match (← getTopic a).findSubscriber id with
    | none => pure ()
    | some s =>
      s.destroy
      modifyTopic a (eraseSubscriber id)
    eraseAll a ids

/-- `removeSubscribers`: the transaction is rolled back when no record is found. -/
def removeSubscribers (a : Nat) (f : Faults) (ids : List Identity) : StormM Unit := do
  let t ← getTopic a
  let llu ← transaction f.database fun db =>
    if ids.any fun id => db.find ⟨t.id, id⟩ then
      let (llu, db) := (db.delSubscribers t.id ids).getIncrementedLLU
      (some llu, db)
    else (none, db)
  match llu with
  | none => return
  | some _ =>
    eraseAll a ids
    replicate f.replication

/-- The record, the transaction and the new subscriber of `subscribeAndGetPublisher`
and of `link`. -/
def addSubscriber (a : Nat) (f : Faults) (rec : SubscriberRecord) (key : Identity) :
    StormM Subscriber := do
  let t ← getTopic a
  let subscriber ← Subscriber.create rec
  let _ ← transaction f.database fun db => (db.put ⟨t.id, key⟩ rec).getIncrementedLLU
  modifyTopic a (push subscriber)
  replicate f.replication
  return subscriber

/-- `subscribeAndGetPublisher`. -/
def subscribeAndGetPublisher (a : Nat) (f : Faults) (qos : QoS) (obj : Option ObjectPrx) :
    StormM (Option Identity) := do
  match obj with
  | none => throw (.invalidSubscriber "subscriber is a null proxy")
  | some obj =>
    let t ← getTopic a
    let record : SubscriberRecord :=
      { topicName := t.name, id := obj.identity, link := false, obj := some obj,
        theQoS := qos, cost := 0, theTopic := none }
    throwIf (t.findSubscriber record.id).isSome .alreadySubscribed
    let subscriber ← addSubscriber a f record record.id
    return subscriber.proxy (← get).inst

/-- `unsubscribe`. -/
def unsubscribe (a : Nat) (f : Faults) (subscriber : Option ObjectPrx) : StormM Unit := do
  match subscriber with
  | none => throw (.invalidSubscriber "subscriber is a null proxy")
  | some subscriber => removeSubscribers a f [subscriber.identity]

/-- `link`; `link` is what the other topic answers to `getLinkProxy`. -/
def link (a : Nat) (f : Faults) (topic link : Option ObjectPrx) (cost : Int) : StormM Unit := do
  match topic with
  | none => throw .nullHandle
  | some topic =>
    let t ← getTopic a
    let id := topic.identity
    let record : SubscriberRecord :=
      { topicName := t.name, id := id, link := true, obj := link, theQoS := [], cost := cost,
        theTopic := some topic }
    throwIf (t.findSubscriber record.id).isSome (.linkExists (identityToTopicName id))
    let _ ← addSubscriber a f record id

/-- `unlink`. -/
def unlink (a : Nat) (f : Faults) (topic : Option ObjectPrx) : StormM Unit := do
  let t ← getTopic a
  throwIf t.destroyed .objectNotExist
  match topic with
  | none => throw .nullHandle
  | some topic =>
    throwIf (t.findSubscriber topic.identity).isNone
      (.noSuchLink (identityToTopicName topic.identity))
    removeSubscribers a f [topic.identity]

/-- `reap`. -/
def reap (a : Nat) (f : Faults) (ids : List Identity) : StormM Unit := removeSubscribers a f ids

/-- `destroyInternal`; `none` asks for a log update of its own, as the master does. -/
def destroyInternal (a : Nat) (fails : Bool) (origLLU : Option LogUpdate) : StormM Unit := do
  let t ← getTopic a
  let _ ← transaction fails fun db =>
    match origLLU with
    | none => (db.delTopic t.id).getIncrementedLLU
    | some llu => (llu, (db.delTopic t.id).putLLU llu)
  removePublisher (publisherIds t.name t.id).2
  removePublisher (publisherIds t.name t.id).1
  modify fun m => { m with topicReaper := m.topicReaper ++ [t.name] }
  t.subscribers.forM Subscriber.destroy
  modify fun m => { m with topicAdapter := m.topicAdapter.erase t.id }
  modifyTopic a fun t => { t with subscribers := [] }

/-- `destroy`. -/
def destroy (a : Nat) (f : Faults) : StormM Unit := do
  let t ← getTopic a
  throwIf t.destroyed .objectNotExist
  modifyTopic a fun t => { t with destroyed := true }
  destroyInternal a f.database none
  replicate f.replication

/-- `observerDestroyTopic`. -/
def observerDestroyTopic (a : Nat) (fails : Bool) (llu : LogUpdate) : StormM Unit := do
  let t ← getTopic a
  if t.destroyed then return
  else
    modifyTopic a fun t => { t with destroyed := true }
    destroyInternal a fails (some llu)

/-- `observerAddSubscriber`. -/
def observerAddSubscriber (a : Nat) (f : Faults) (llu : LogUpdate) (rec : SubscriberRecord) :
    StormM Unit := do
  let t ← getTopic a
  if (t.findSubscriber rec.id).isSome then return
  else
    let subscriber ← Subscriber.create rec
    transaction f.database fun db => ((), (db.put ⟨t.id, subscriber.id⟩ rec).putLLU llu)
    modifyTopic a (push subscriber)

/-- `observerRemoveSubscriber`. -/
def observerRemoveSubscriber (a : Nat) (f : Faults) (llu : LogUpdate) (ids : List Identity) :
    StormM Unit := do
  let t ← getTopic a
  transaction f.database fun db => ((), (db.delSubscribers t.id ids).putLLU llu)
  eraseAll a ids

/-- The first scan of `update`: subscribers that are not in the records go, the
others are no longer reaped. -/
def updateRemove (a : Nat) (records : List SubscriberRecord) : StormM Unit := do
  let t ← getTopic a
  let keep (s : Subscriber) : Bool := records.any fun r => s.id = r.id
  (t.subscribers.filter fun s => !keep s).forM Subscriber.destroy
  modifyTopic a fun t =>
    { t with subscribers := (t.subscribers.filter keep).map Subscriber.resetIfReaped }

/-- The second scan of `update`: subscribers that do not exist are made. -/
def updateAdd (a : Nat) (rec : SubscriberRecord) : StormM Unit := do
  let t ← getTopic a
  if (t.findSubscriber rec.id).isNone then
    let subscriber ← Subscriber.create rec
    modifyTopic a (push subscriber)

/-- `update`. -/
def update (a : Nat) (records : List SubscriberRecord) : StormM Unit := do
  updateRemove a records
  records.forM (updateAdd a)

/-- `getContent`, without the identity: subscribers in error are left out. -/
def getContent (t : TopicImpl) : List SubscriberRecord :=
  (t.subscribers.filter fun s => !s.errored).map Subscriber.record

end TopicImpl

end Ice.IceStorm
