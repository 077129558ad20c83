import Ice.IceStorm.Topic

/-!
# The topic manager

The operations of `TopicManagerImpl`, which hold its mutex, and `TopicImpl::publish`,
which asks the node whether there is another master. The constructor reads the
topics that the database holds; the first record of a topic counts as its
placeholder.
-/

namespace Ice.IceStorm

open IceStormElection

/-- The content of a topic as it goes to another replica. -/
structure TopicContent where
  id : Identity
  records : List SubscriberRecord
  deriving DecidableEq, Repr

namespace Database

/-- The transaction of `observerInit` for one topic. -/
def putContent (q : TopicContent) (db : Database) : Database :=
  q.records.foldl (fun db r => db.put ⟨q.id, r.id⟩ r) (db.putTopic q.id)

/-- The transaction of `observerInit`. -/
def initContent (llu : LogUpdate) (content : List TopicContent) (db : Database) : Database :=
  content.foldl (fun db q => db.putContent q) (db.putLLU llu).clear

variable {k : SubscriberRecordKey}

theorem mem_putContent {q : TopicContent} {db : Database} :
    k ∈ (db.putContent q).subscriberMap ↔
      k ∈ db.subscriberMap ∨ k = .placeholder q.id ∨ ∃ r ∈ q.records, k = ⟨q.id, r.id⟩ := by
  have hrecords : ∀ (records : List SubscriberRecord) (db : Database),
      k ∈ (records.foldl (fun db r => db.put ⟨q.id, r.id⟩ r) db).subscriberMap ↔
        k ∈ db.subscriberMap ∨ ∃ r ∈ records, k = ⟨q.id, r.id⟩ := by
    intro records
    induction records with
    | nil => simp
    | cons r records ih =>
      intro db
      rw [List.foldl_cons, ih, mem_put]
      simp only [List.mem_cons, exists_eq_or_imp]
      tauto
  rw [putContent, hrecords, putTopic, mem_put]
  tauto

theorem mem_initContent {llu : LogUpdate} {content : List TopicContent} {db : Database} :
    k ∈ (db.initContent llu content).subscriberMap ↔
      ∃ q ∈ content, k = .placeholder q.id ∨ ∃ r ∈ q.records, k = ⟨q.id, r.id⟩ := by
  have hcontent : ∀ (content : List TopicContent) (db : Database),
      k ∈ (content.foldl (fun db q => db.putContent q) db).subscriberMap ↔
        k ∈ db.subscriberMap ∨
          ∃ q ∈ content, k = .placeholder q.id ∨ ∃ r ∈ q.records, k = ⟨q.id, r.id⟩ := by
    intro content
    induction content with
    | nil => simp
    | cons q content ih =>
      intro db
      rw [List.foldl_cons, ih, mem_putContent]
      simp only [List.mem_cons, exists_eq_or_imp, or_assoc]
  rw [initContent, hcontent]
  simp [clear]

theorem placeholder_mem_initContent {llu : LogUpdate} {content : List TopicContent}
    {db : Database} {id : Identity} : SubscriberRecordKey.placeholder id ∈
      (db.initContent llu content).subscriberMap ↔ ∃ q ∈ content, q.id = id := by
  rw [mem_initContent]
  constructor
  · rintro ⟨q, hq, hk | ⟨r, _, hk⟩⟩
    all_goals exact ⟨q, hq, (congrArg SubscriberRecordKey.topic hk).symm⟩
  · rintro ⟨q, hq, rfl⟩
    exact ⟨q, hq, .inl rfl⟩

/-- What the cursor of the constructor reads: the records in the order of their
keys, cut where the topic changes. -/
def cutTopics (records : List (SubscriberRecordKey × SubscriberRecord)) :
    List (List (SubscriberRecordKey × SubscriberRecord)) :=
  records.splitBy fun x y => x.1.topic = y.1.topic

/-- The topics that the constructor recreates. The first record of a topic has to be
its placeholder; only an assertion looks. -/
def loadTopics (db : Database) : List TopicContent :=
  (cutTopics db.subscriberMap.toList).filterMap fun g =>
    match g with
    | [] => none
    | (k, _) :: rest => some ⟨k.topic, rest.map Prod.snd⟩

end Database

namespace TopicManagerImpl

/-- The state before the constructor runs: no topic objects and no servants. -/
def stopped (inst : Instance) (db : Database) : TopicManagerImpl where
  inst := inst
  db := db
  publishAdapter := []
  topicAdapter := ∅
  topicReaper := []
  objects := []
  topics := ∅

/-- The loop of `reap` at one name. -/
def reapOne (objects : List TopicImpl) (topics : Std.ExtTreeMap String Nat) (name : String) :
    Std.ExtTreeMap String Nat :=
  match topics[name]? with
  | none => topics
  | some a => if objects[a]?.any TopicImpl.destroyed then topics.erase name else topics

/-- `reap`. -/
def reap : StormM Unit :=
  modify fun m =>
    { m with topics := m.topicReaper.foldl (reapOne m.objects) m.topics, topicReaper := [] }

/-- `installTopic`; `insert` does not replace a topic of the same name. -/
def installTopic (name : String) (id : Identity) (subscribers : List SubscriberRecord) :
    StormM Identity := do
  let t ← TopicImpl.new name id subscribers
  modify fun m =>
    { m with
      objects := m.objects ++ [t]
      topics := m.topics.insertIfNew name m.objects.length }
  throwIf (id.name = "") (.illegalIdentity id)
  let m ← get
  throwIf (id ∈ m.topicAdapter) (.alreadyRegistered id)
  set { m with topicAdapter := m.topicAdapter.insert id (m.objects.length - 1) }
  return id

/-- The constructor: one transaction that writes the log update and reads the
topics; it is aborted when a topic cannot be installed. -/
def construct (f : Faults) : StormM Unit := do
  let db := (← get).db
  tryCatch
    (do
      modify fun m => { m with db := m.db.putLLU emptyLU }
      db.loadTopics.forM fun q => do
        let _ ← installTopic (identityToTopicName q.id) q.id q.records
      throwIf f.database .database)
    fun e => do
      modify fun m => { m with db := db }
      throw e

/-- `create`. -/
def create (f : Faults) (name : String) : StormM Identity := do
  reap
  let m ← get
  throwIf (name ∈ m.topics) (.topicExists name)
  let id := nameToIdentity m.inst name
  let _ ← transaction f.database fun db => (db.putTopic id).getIncrementedLLU
  replicate f.replication
  installTopic name id []

/-- `retrieve`. -/
def retrieve (name : String) : StormM Identity := do
  reap
  let m ← get
  match m.topics[name]? with
  | none => throw (.noSuchTopic name)
  | some a => return (← getTopic a).id

/-- `retrieveAll`. -/
def retrieveAll : StormM (List (String × Identity)) := do
  reap
  let m ← get
  return m.topics.toList.filterMap fun (name, a) => m.objects[a]?.map fun t => (name, t.id)

/-- The first scan of `observerInit` at one topic. -/
def initRemove (f : Faults) (llu : LogUpdate) (content : List TopicContent)
    (entry : String × Nat) : StormM Unit := do
  let t ← getTopic entry.2
  if !content.any fun q => q.id = t.id then
    TopicImpl.observerDestroyTopic entry.2 (t.id ∈ f.destroys) llu
    modify fun m => { m with topics := m.topics.erase entry.1 }

/-- The second scan of `observerInit` at one topic. -/
def initInstall (q : TopicContent) : StormM Unit := do
  let name := identityToTopicName q.id
  match (← get).topics[name]? with
  | none => let _ ← installTopic name q.id q.records
  | some a => TopicImpl.update a q.records

/-- `observerInit`. -/
def observerInit (f : Faults) (llu : LogUpdate) (content : List TopicContent) : StormM Unit := do
  transaction f.database fun db => ((), db.initContent llu content)
  (← get).topics.toList.forM (initRemove f llu content)
  content.forM initInstall

/-- `observerCreateTopic`. -/
def observerCreateTopic (f : Faults) (llu : LogUpdate) (name : String) : StormM Unit := do
  let m ← get
  let id := nameToIdentity m.inst name
  throwIf f.database .database
  throwIf (m.db.find (.placeholder id)) (.observerInconsistency ("topic exists: " ++ name))
  transaction false fun db => ((), (db.putTopic id).putLLU llu)
  let _ ← installTopic name id []

/-- `_topics.find(name)` of the observer updates. -/
def findTopic (name : String) : StormM Nat := do
  match (← get).topics[name]? with
  | none => throw (.observerInconsistency ("no topic: " ++ name))
  | some a => return a

/-- `observerDestroyTopic`. -/
def observerDestroyTopic (f : Faults) (llu : LogUpdate) (name : String) : StormM Unit := do
  let a ← findTopic name
  TopicImpl.observerDestroyTopic a f.database llu
  modify fun m => { m with topics := m.topics.erase name }

/-- `observerAddSubscriber`. -/
def observerAddSubscriber (f : Faults) (llu : LogUpdate) (name : String)
    (record : SubscriberRecord) : StormM Unit := do
  let a ← findTopic name
  TopicImpl.observerAddSubscriber a f llu record

/-- `observerRemoveSubscriber`. -/
def observerRemoveSubscriber (f : Faults) (llu : LogUpdate) (name : String)
    (ids : List Identity) : StormM Unit := do
  let a ← findTopic name
  TopicImpl.observerRemoveSubscriber a f llu ids

/-- The content of the topics in memory. -/
def topicContents (m : TopicManagerImpl) : List TopicContent :=
  m.topics.toList.filterMap fun (_, a) =>
    m.objects[a]?.map fun t => ⟨t.id, t.getContent⟩

/-- `getContent`. -/
def getContent (f : Faults) : StormM (LogUpdate × List TopicContent) := do
  reap
  throwIf f.database .database
  let m ← get
  return (m.db.getLLU, m.topicContents)

/-- `getLastLogUpdate`. -/
def getLastLogUpdate (f : Faults) : StormM LogUpdate := do
  throwIf f.database .database
  return (← get).db.getLLU

/-- `initMaster`; `f.replication` says that an observer could not be initialised.
The answer is the content that each observer was sent. -/
def initMaster (f : Faults) (llu : LogUpdate) : StormM (List TopicContent) := do
  reap
  let content := (← get).topicContents
  transaction f.database fun db => ((), db.putLLU llu)
  replicate f.replication
  return content

end TopicManagerImpl

namespace TopicImpl

/-- The loop of `publish` at one subscriber: queue the events, and reap the
subscriber if that finds it in error. -/
def queueOne (inst : Instance) (now : Int) (forwarded : Bool) (events : List EventData)
    (outcomes : List SendOutcome) (s : Subscriber) : Subscriber × Option Identity :=
  match s.queue inst now forwarded events outcomes with
  | (s, true) => (s, none)
  | (s, false) =>
    match s.reap with
    | (s, true) => (s, some s.id)
    | (s, false) => (s, none)

/-- `publish`; the answer is what the master is asked to reap. `outcomes` gives the
results of the sends of each subscriber. -/
def publish (a : Nat) (f : Faults) (master : Bool) (now : Int) (forwarded : Bool)
    (events : List EventData) (outcomes : List (List SendOutcome)) :
    StormM (List Identity) := do
  let m ← get
  let t ← getTopic a
  let queued := (t.subscribers.zip (outcomes ++ List.replicate t.subscribers.length [])).map
    fun (s, o) => queueOne m.inst now forwarded events o s
  modifyTopic a fun t => { t with subscribers := queued.map Prod.fst }
  let ids := queued.filterMap Prod.snd
  if ids.isEmpty then return []
  else if master then
    removeSubscribers a f ids
    return []
  else return ids

end TopicImpl

end Ice.IceStorm
