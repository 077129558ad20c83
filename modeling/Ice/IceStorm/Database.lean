import Ice.IceStorm.Subscriber

/-!
# The persistent store

The two LMDB maps of the service with the operations that its transactions use, and
the utilities that name topics. `put` replaces the value of a key, `del` reports
whether the key was there, and a cursor visits the keys in order.
-/

namespace Ice

/-- `IceUtilInternal::escapeString` with `ToStringMode::Unicode`. -/
def escapeString (s special : String) : String :=
  String.ofList (s.toList.flatMap escape)
where
  /-- The escape of one character. -/
  escape (c : Char) : List Char :=
    if c = '\\' then ['\\', '\\']
    else if c = '\'' then ['\\', '\'']
    else if c = '"' then ['\\', '"']
    else if c.toNat = 7 then ['\\', 'a']
    else if c.toNat = 8 then ['\\', 'b']
    else if c.toNat = 12 then ['\\', 'f']
    else if c = '\n' then ['\\', 'n']
    else if c = '\r' then ['\\', 'r']
    else if c = '\t' then ['\\', 't']
    else if c.toNat = 11 then ['\\', 'v']
    else if c ∈ special.toList then ['\\', c]
    else if c.toNat < 32 ∨ c.toNat = 127 then
      ['\\', 'u', '0', '0', Nat.digitChar (c.toNat / 16), Nat.digitChar (c.toNat % 16)]
    else [c]

/-- `Ice::identityToString`. -/
def identityToString (ident : Identity) : String :=
  if ident.category = "" then escapeString ident.name "/"
  else escapeString ident.category "/" ++ "/" ++ escapeString ident.name "/"

end Ice

namespace Ice.IceStorm

open IceStormElection
open Std.ExtTreeMap (contains_iff_mem mem_iff_isSome_getElem?)
open SubscriberRecordKey (placeholder)

/-- `identityToTopicName`: a topic without category was made by an old version. -/
def identityToTopicName (id : Identity) : String :=
  if id.category = "" then id.name else String.ofList (id.name.toList.drop 6)

/-- `nameToIdentity`. -/
def nameToIdentity (inst : Instance) (name : String) : Identity :=
  ⟨"topic." ++ name, inst.instanceName⟩

@[simp] theorem identityToTopicName_nameToIdentity (inst : Instance) (name : String) :
    identityToTopicName (nameToIdentity inst name) = name := by
  have hprefix : "topic.".toList.length = 6 := by decide
  simp [identityToTopicName, nameToIdentity, inst.named, String.toList_append, ← hprefix]

/-- `lluDbKey`. -/
def lluDbKey : String := "_manager"

/-- The log update map and the subscriber map. -/
structure Database where
  lluMap : Std.ExtTreeMap String LogUpdate
  subscriberMap : Std.ExtTreeMap SubscriberRecordKey SubscriberRecord

namespace Database

/-- A database that was just created. -/
def empty : Database := ⟨∅, ∅⟩

/-- `_lluMap.get(txn, lluDbKey, llu)`. -/
def getLLU (db : Database) : LogUpdate := (db.lluMap[lluDbKey]?).getD emptyLU

/-- `_lluMap.put(txn, lluDbKey, llu)`. -/
def putLLU (llu : LogUpdate) (db : Database) : Database :=
  { db with lluMap := db.lluMap.insert lluDbKey llu }

/-- `getIncrementedLLU`. -/
def getIncrementedLLU (db : Database) : LogUpdate × Database :=
  let llu := { db.getLLU with iteration := db.getLLU.iteration + 1 }
  (llu, db.putLLU llu)

/-- `_subscriberMap.put(txn, key, record)`. -/
def put (key : SubscriberRecordKey) (record : SubscriberRecord) (db : Database) : Database :=
  { db with subscriberMap := db.subscriberMap.insert key record }

/-- `_subscriberMap.del(txn, key)`, without the answer. -/
def del (key : SubscriberRecordKey) (db : Database) : Database :=
  { db with subscriberMap := db.subscriberMap.erase key }

/-- `_subscriberMap.find(txn, key)`. -/
def find (key : SubscriberRecordKey) (db : Database) : Bool := db.subscriberMap.contains key

/-- `_subscriberMap.clear(txn)`. -/
def clear (db : Database) : Database := { db with subscriberMap := ∅ }

/-- Put the placeholder of a topic. -/
def putTopic (topic : Identity) (db : Database) : Database :=
  db.put (.placeholder topic) .placeholder

/-- The cursor loop of `destroyInternal`: all keys of the topic go, if its
placeholder is found. -/
def delTopic (topic : Identity) (db : Database) : Database :=
  if db.find (.placeholder topic) then
    { db with subscriberMap := db.subscriberMap.filter fun key _ => key.topic ≠ topic }
  else db

/-- Delete the keys of several subscribers. -/
def delSubscribers (topic : Identity) (ids : List Identity) (db : Database) : Database :=
  ids.foldl (fun db id => db.del ⟨topic, id⟩) db

@[simp] theorem getLLU_putLLU (llu : LogUpdate) (db : Database) : (db.putLLU llu).getLLU = llu := by
  simp [getLLU, putLLU]

@[simp] theorem subscriberMap_putLLU (llu : LogUpdate) (db : Database) :
    (db.putLLU llu).subscriberMap = db.subscriberMap := rfl

theorem getElem?_put (key k : SubscriberRecordKey) (r : SubscriberRecord) (db : Database) :
    (db.put key r).subscriberMap[k]? = if k = key then some r else db.subscriberMap[k]? := by
  by_cases h : k = key
  · subst h
    simp [put]
  · rw [put, Std.ExtTreeMap.getElem?_insert, if_neg (by simpa using Ne.symm h), if_neg h]

theorem getElem?_del (key k : SubscriberRecordKey) (db : Database) :
    (db.del key).subscriberMap[k]? = if k = key then none else db.subscriberMap[k]? := by
  by_cases h : k = key
  · subst h
    simp [del]
  · rw [del, Std.ExtTreeMap.getElem?_erase, if_neg (by simpa using Ne.symm h), if_neg h]

theorem getElem?_delSubscribers (topic : Identity) (ids : List Identity)
    (k : SubscriberRecordKey) (db : Database) :
    (db.delSubscribers topic ids).subscriberMap[k]? =
      if k.topic = topic ∧ k.id ∈ ids then none else db.subscriberMap[k]? := by
  induction ids generalizing db with
  | nil => simp [delSubscribers]
  | cons id ids ih =>
    rw [delSubscribers, List.foldl_cons, ← delSubscribers, ih, getElem?_del]
    have hkey : k = ⟨topic, id⟩ ↔ k.topic = topic ∧ k.id = id := by
      cases k
      simp
    by_cases ht : k.topic = topic <;> by_cases hi : k.id = id <;> simp [hkey, ht, hi]

variable {db : Database} {topic : Identity} {k : SubscriberRecordKey}

theorem getElem?_delTopic (topic : Identity) (k : SubscriberRecordKey)
    (h : placeholder topic ∈ db.subscriberMap) :
    (db.delTopic topic).subscriberMap[k]? =
      if k.topic = topic then none else db.subscriberMap[k]? := by
  have hfind : db.find (.placeholder topic) = true := contains_iff_mem.mpr h
  rw [delTopic, if_pos hfind]
  simp only [Std.ExtTreeMap.getElem?_filter']
  by_cases ht : k.topic = topic
  all_goals cases db.subscriberMap[k]? <;> simp [ht, Option.filter]

/-- Without a placeholder nothing of the topic is deleted. -/
theorem delTopic_of_notMem (h : placeholder topic ∉ db.subscriberMap) :
    db.delTopic topic = db := by
  have hfind : ¬db.find (.placeholder topic) = true :=
    fun hc => h (contains_iff_mem.mp hc)
  rw [delTopic, if_neg hfind]

theorem mem_put {key : SubscriberRecordKey} {r : SubscriberRecord} :
    k ∈ (db.put key r).subscriberMap ↔ k = key ∨ k ∈ db.subscriberMap := by
  simp only [mem_iff_isSome_getElem?, getElem?_put]
  by_cases h : k = key <;> simp [h]

theorem mem_delSubscribers {ids : List Identity} : k ∈ (db.delSubscribers topic ids).subscriberMap ↔
      k ∈ db.subscriberMap ∧ ¬(k.topic = topic ∧ k.id ∈ ids) := by
  simp only [mem_iff_isSome_getElem?, getElem?_delSubscribers]
  by_cases h : k.topic = topic ∧ k.id ∈ ids <;> simp [h]

theorem mem_delTopic (h : placeholder topic ∈ db.subscriberMap) :
    k ∈ (db.delTopic topic).subscriberMap ↔ k ∈ db.subscriberMap ∧ k.topic ≠ topic := by
  simp only [mem_iff_isSome_getElem?, getElem?_delTopic topic k h]
  by_cases ht : k.topic = topic <;> simp [ht]

end Database

end Ice.IceStorm
