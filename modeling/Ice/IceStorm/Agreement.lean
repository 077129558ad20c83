import Ice.Lib.Transition
import Ice.IceStorm.Registry

/-!
# Memory and database agree

Between two operations the topics that the topic manager knows are the topics with a
placeholder record, and the subscribers of each are the records stored under it. The
operations that commit before they touch the memory have to finish: a topic whose
creation is committed but not confirmed by the observers is stored and not known.
-/

namespace Ice.IceStorm

open Ice.Lib IceStormElection
open Std.ExtTreeMap (mem_iff_isSome_getElem?)
open Database (getElem?_put mem_put subscriberMap_putLLU)
open Option (map_eq_map map_id' some.inj)

/-- The subscribers of a topic object are the records stored under it. -/
structure Agrees (db : Database) (t : TopicImpl) : Prop where
  records : ∀ (id : Identity) (r : SubscriberRecord),
    (∃ s ∈ t.subscribers, s.id = id ∧ s.record = r) ↔
      id ≠ .empty ∧ db.subscriberMap[(⟨t.id, id⟩ : SubscriberRecordKey)]? = some r
  nodup : (t.subscribers.map Subscriber.id).Nodup

/-- Memory and database hold the same topics with the same subscribers. -/
structure TopicManagerImpl.MemoryAgrees (m : TopicManagerImpl) : Prop where
  topics : ∀ id, (∃ name t, m.known name = some t ∧ t.id = id) ↔
    SubscriberRecordKey.placeholder id ∈ m.db.subscriberMap
  subscribers : ∀ name t, m.known name = some t → ∀ (id : Identity) (r : SubscriberRecord),
    (∃ s ∈ t.subscribers, s.id = id ∧ s.record = r) ↔
      id ≠ .empty ∧ m.db.subscriberMap[(⟨t.id, id⟩ : SubscriberRecordKey)]? = some r

/-- What holds between two operations. -/
structure Synced (m : TopicManagerImpl) : Prop extends Registry m where
  placeholder : ∀ id, SubscriberRecordKey.placeholder id ∈ m.db.subscriberMap ↔
    id ∈ m.topicAdapter
  topic : ∀ k ∈ m.db.subscriberMap, k.topic ∈ m.topicAdapter
  agrees : ∀ (id : Identity) (a : Nat) (t : TopicImpl), m.topicAdapter[id]? = some a →
    m.objects[a]? = some t → Agrees m.db t

variable {m m' : TopicManagerImpl} {a : Nat} {t : TopicImpl} {db db' : Database}

variable {id : Identity}

theorem mem_topicAdapter_iff : id ∈ m.topicAdapter ↔ ∃ a : Nat, m.topicAdapter[id]? = some a := by
  rw [mem_iff_isSome_getElem?, Option.isSome_iff_exists]

theorem Synced.memoryAgrees (h : Synced m) : m.MemoryAgrees := by
  constructor
  · intro id
    rw [h.placeholder, mem_topicAdapter_iff]
    constructor
    · rintro ⟨name, t, hknown, rfl⟩
      obtain ⟨_, a, ha, _⟩ := h.known_eq_some.mp hknown
      exact ⟨a, ha⟩
    · rintro ⟨a, ha⟩
      obtain ⟨t, ht, rfl, _⟩ := h.servant id a ha
      exact ⟨t.name, t, h.known_eq_some.mpr ⟨rfl, a, ha, ht⟩, rfl⟩
  · intro name t hknown
    obtain ⟨_, a, ha, ht⟩ := h.known_eq_some.mp hknown
    exact (h.agrees _ a t ha ht).records

theorem Agrees.congr (h : Agrees db t) (hdb : ∀ id,
    db'.subscriberMap[(⟨t.id, id⟩ : SubscriberRecordKey)]? =
      db.subscriberMap[(⟨t.id, id⟩ : SubscriberRecordKey)]?) : Agrees db' t := by
  refine ⟨fun id r => ?_, h.nodup⟩
  rw [hdb]
  exact h.records id r

theorem findSubscriber_eq_none : t.findSubscriber id = none ↔ ∀ s ∈ t.subscribers, s.id ≠ id := by
  simp [TopicImpl.findSubscriber]

/-- A subscriber and its record are added. -/
theorem Agrees.add (h : Agrees db t) {s : Subscriber} (hnew : t.findSubscriber s.id = none)
    (hid : s.id ≠ .empty) : Agrees (db.put ⟨t.id, s.id⟩ s.record) (t.push s) := by
  have hfresh := findSubscriber_eq_none.mp hnew
  refine ⟨fun id r => ?_, ?_⟩
  · change (∃ x ∈ t.subscribers ++ [s], x.id = id ∧ x.record = r) ↔ id ≠ .empty ∧
      (db.put ⟨t.id, s.id⟩ s.record).subscriberMap[(⟨t.id, id⟩ : SubscriberRecordKey)]? = some r
    rw [getElem?_put]
    simp only [List.mem_append, List.mem_singleton]
    by_cases hs : id = s.id
    · subst hs
      rw [if_pos rfl]
      constructor
      · rintro ⟨x, hx | rfl, hxid, rfl⟩
        · exact absurd hxid (hfresh x hx)
        · exact ⟨hid, rfl⟩
      · rintro ⟨_, hr⟩
        exact ⟨s, .inr rfl, rfl, some.inj hr⟩
    · have hkey : (⟨t.id, id⟩ : SubscriberRecordKey) ≠ ⟨t.id, s.id⟩ := by simpa using hs
      rw [if_neg hkey, ← h.records id r]
      constructor
      · rintro ⟨x, hx | rfl, hxid, hxr⟩
        · exact ⟨x, hx, hxid, hxr⟩
        · exact absurd hxid.symm hs
      · rintro ⟨x, hx, hxid, hxr⟩
        exact ⟨x, .inl hx, hxid, hxr⟩
  · simp only [TopicImpl.push, List.map_append, List.map_singleton]
    refine List.nodup_append.mpr ⟨h.nodup, by simp, ?_⟩
    intro x hx y hy hxy
    obtain ⟨z, hz, rfl⟩ := List.mem_map.mp hx
    exact hfresh z hz (hxy.trans (List.mem_singleton.mp hy))

private theorem eraseP_eq_filter :
    ∀ {l : List Subscriber}, (l.map Subscriber.id).Nodup →
      (l.eraseP fun s => s.id = id) = l.filter fun s => s.id ≠ id
  | [], _ => rfl
  | s :: l, h => by
    obtain ⟨hs, hl⟩ := List.nodup_cons.mp h
    by_cases heq : s.id = id
    · have hall : ∀ x ∈ l, decide (x.id ≠ id) = true := by
        intro x hx
        have hne : x.id ≠ s.id := fun hxs => hs (hxs ▸ List.mem_map_of_mem hx)
        simpa [heq] using hne
      rw [List.eraseP_cons_of_pos (by simpa using heq),
        List.filter_cons_of_neg (by simpa using heq),
        List.filter_eq_self.mpr hall]
    · rw [List.eraseP_cons_of_neg (by simpa using heq),
        List.filter_cons_of_pos (by simpa using heq),
        eraseP_eq_filter hl]

variable (ids : List Identity)

/-- Where identities are distinct, erasing by identity is a filter. -/
theorem eraseSubscribers_subscribers
    (h : (t.subscribers.map Subscriber.id).Nodup) :
    (t.eraseSubscribers ids).subscribers = t.subscribers.filter fun s => s.id ∉ ids := by
  induction ids generalizing t with
  | nil => simp [TopicImpl.eraseSubscribers]
  | cons id ids ih =>
    have hone : (t.eraseSubscriber id).subscribers = t.subscribers.filter fun s => s.id ≠ id :=
      eraseP_eq_filter h
    have hnodup : ((t.eraseSubscriber id).subscribers.map Subscriber.id).Nodup := by
      rw [hone]
      exact h.sublist (List.filter_sublist.map _)
    rw [TopicImpl.eraseSubscribers, List.foldl_cons, ← TopicImpl.eraseSubscribers, ih hnodup,
      hone, List.filter_filter]
    refine List.filter_congr fun s _ => ?_
    simp [Bool.and_comm]

@[simp] theorem eraseSubscribers_id (t : TopicImpl) :
    (t.eraseSubscribers ids).id = t.id := by
  induction ids generalizing t with
  | nil => rfl
  | cons id ids ih => exact ih (t.eraseSubscriber id)

@[simp] theorem eraseSubscribers_name (t : TopicImpl) :
    (t.eraseSubscribers ids).name = t.name := by
  induction ids generalizing t with
  | nil => rfl
  | cons id ids ih => exact ih (t.eraseSubscriber id)

@[simp] theorem eraseSubscribers_destroyed (t : TopicImpl) :
    (t.eraseSubscribers ids).destroyed = t.destroyed := by
  induction ids generalizing t with
  | nil => rfl
  | cons id ids ih => exact ih (t.eraseSubscriber id)

/-- Subscribers and their records are removed. -/
theorem Agrees.remove (h : Agrees db t) (ids : List Identity) :
    Agrees (db.delSubscribers t.id ids) (t.eraseSubscribers ids) := by
  have hsub := eraseSubscribers_subscribers ids h.nodup
  refine ⟨fun id r => ?_, ?_⟩
  · rw [eraseSubscribers_id, Database.getElem?_delSubscribers, hsub]
    by_cases hid : id ∈ ids
    · rw [if_pos ⟨rfl, hid⟩]
      refine iff_of_false ?_ (by simp)
      rintro ⟨s, hs, rfl, _⟩
      exact absurd hid (by simpa using (List.mem_filter.mp hs).2)
    · rw [if_neg fun hc => hid hc.2, ← h.records id r]
      constructor
      · rintro ⟨s, hs, hsid, hsr⟩
        exact ⟨s, (List.mem_filter.mp hs).1, hsid, hsr⟩
      · rintro ⟨s, hs, rfl, hsr⟩
        exact ⟨s, List.mem_filter.mpr ⟨hs, by simpa using hid⟩, rfl, hsr⟩
  · rw [hsub]
    exact h.nodup.sublist (List.filter_sublist.map _)

namespace Synced

variable {pa : List Identity} {g : TopicImpl → TopicImpl}

section

variable (h : Synced m)

include h

/-- The object and the records of one served topic change together. -/
theorem modify (ha : m.topicAdapter[t.id]? = some a) (ht : m.objects[a]? = some t)
    (hname : ∀ t, (g t).name = t.name) (hid : ∀ t, (g t).id = t.id)
    (hd : t.name ∈ m.topicReaper → (g t).destroyed = t.destroyed)
    (hother : ∀ k : SubscriberRecordKey, k.topic ≠ t.id →
      db'.subscriberMap[k]? = m.db.subscriberMap[k]?)
    (hplace : SubscriberRecordKey.placeholder t.id ∈ db'.subscriberMap) (hag : Agrees db' (g t)) :
    Synced { m with db := db', objects := m.objects.modify a g, publishAdapter := pa } := by
  have hmem : t.id ∈ m.topicAdapter := mem_topicAdapter_iff.mpr ⟨a, ha⟩
  have hkey : ∀ k : SubscriberRecordKey, k.topic ≠ t.id →
      (k ∈ db'.subscriberMap ↔ k ∈ m.db.subscriberMap) := by
    intro k hk
    rw [mem_iff_isSome_getElem?, mem_iff_isSome_getElem?, hother k hk]
  have hregistry := (h.toRegistry.modify (a := a) hname hid (by
    intro t' ht'
    obtain rfl : t = t' := some.inj (ht.symm.trans ht')
    exact hd)).adapter db' pa
  refine ⟨hregistry, fun id => ?_, fun k hk => ?_, fun id i t' hi ht' => ?_⟩
  · by_cases heq : id = t.id
    · subst heq
      exact iff_of_true hplace hmem
    · exact (hkey _ heq).trans (h.placeholder id)
  · by_cases heq : k.topic = t.id
    · exact heq ▸ hmem
    · exact h.topic k ((hkey k heq).mp hk)
  · rw [List.getElem?_modify] at ht'
    by_cases hia : a = i
    · subst hia
      simp only [ht, map_eq_map, Option.map_some, if_true, Option.some.injEq] at ht'
      exact ht' ▸ hag
    · simp only [hia, if_false, map_eq_map, map_id'] at ht'
      obtain ⟨t'', ht'', hid', _⟩ := h.servant id i hi
      obtain rfl : t' = t'' := some.inj (ht'.symm.trans ht'')
      have hne : t'.id ≠ t.id := by
        intro heq
        rw [← hid', heq] at hi
        exact hia (some.inj (ha.symm.trans hi))
      exact (h.agrees id i t' hi ht').congr fun sid => hother _ hne

/-- A request on a served topic keeps memory and database together. -/
theorem topicEffect {op : TopicOperation} (ha : m.topicAdapter[t.id]? = some a)
    (ht : m.objects[a]? = some t) (hmark : op.destroyFails = true → t.name ∉ m.topicReaper)
    (he : TopicEffect op a t m m') : Synced m' := by
  have hag := h.agrees _ a t ha ht
  have hplace := (h.placeholder t.id).mpr (mem_topicAdapter_iff.mpr ⟨a, ha⟩)
  cases he with
  | idle pa => exact ⟨h.toRegistry.adapter m.db pa, h.placeholder, h.topic, h.agrees⟩
  | add s llu pa hop hnew hid =>
    refine h.modify ha ht (fun _ => rfl) (fun _ => rfl) (fun _ => rfl) (fun k hk => ?_) ?_ ?_
    · rw [subscriberMap_putLLU, getElem?_put, if_neg]
      rintro rfl
      exact hk rfl
    · exact mem_put.mpr (.inr hplace)
    · exact (hag.add hnew hid).congr fun _ => rfl
  | remove ids llu pa hop hids =>
    refine h.modify ha ht (by simp) (by simp) (by simp) (fun k hk => ?_) ?_ ?_
    · rw [subscriberMap_putLLU, Database.getElem?_delSubscribers,
        if_neg fun hc => hk hc.1]
    · exact Database.mem_delSubscribers.mpr ⟨hplace, fun hc => hids hc.2⟩
    · exact (hag.remove ids).congr fun _ => rfl
  | mark hop hd =>
    exact h.modify ha ht (fun _ => rfl) (fun _ => rfl)
      (fun hc => absurd hc (hmark hop)) (fun _ _ => rfl) hplace ⟨hag.records, hag.nodup⟩
  | destroy llu pa hd =>
    have hlookup : ∀ k : SubscriberRecordKey,
        (m.destroyTopic a t llu pa).db.subscriberMap[k]? =
          if k.topic = t.id then none else m.db.subscriberMap[k]? :=
      fun k => Database.getElem?_delTopic t.id k hplace
    have hkey : ∀ k : SubscriberRecordKey, k ∈ (m.destroyTopic a t llu pa).db.subscriberMap ↔
        k ∈ m.db.subscriberMap ∧ k.topic ≠ t.id := fun k => Database.mem_delTopic hplace
    have hadapter : ∀ id, id ∈ (m.destroyTopic a t llu pa).topicAdapter ↔
        id ∈ m.topicAdapter ∧ id ≠ t.id := by
      intro id
      simp only [TopicManagerImpl.destroyTopic, Std.ExtTreeMap.mem_erase, ne_eq,
        Std.compare_eq_iff_eq]
      rw [and_comm, eq_comm]
    refine ⟨h.toRegistry.destroyTopic ha ht llu pa, fun id => ?_, fun k hk => ?_,
      fun id i t' hi ht' => ?_⟩
    · rw [hkey, hadapter, h.placeholder]
      rfl
    · rw [hadapter]
      obtain ⟨hk, hne⟩ := (hkey k).mp hk
      exact ⟨h.topic k hk, hne⟩
    · simp only [TopicManagerImpl.destroyTopic] at hi ht'
      rw [Std.ExtTreeMap.getElem?_erase] at hi
      split_ifs at hi with heq
      obtain ⟨t'', ht'', hid', _⟩ := h.servant id i hi
      have hia : a ≠ i := by
        rintro rfl
        obtain rfl : t = t'' := some.inj (ht.symm.trans ht'')
        simp [hid'] at heq
      simp only [List.getElem?_modify, hia, if_false, map_eq_map, map_id'] at ht'
      obtain rfl : t' = t'' := some.inj (ht'.symm.trans ht'')
      refine (h.agrees id i t' hi ht').congr fun sid => ?_
      rw [hlookup, if_neg]
      exact fun hc => heq (Std.compare_eq_iff_eq.mpr (hc.symm.trans hid'))

/-- An object that has no servant changes, and the store does not. -/
theorem unserved (ht : m.objects[a]? = some t)
    (hno : m.topicAdapter[t.id]? ≠ some a)
    (hname : ∀ t, (g t).name = t.name) (hid : ∀ t, (g t).id = t.id)
    (hd : (g t).destroyed = t.destroyed)
    (hdb : ∀ k : SubscriberRecordKey, db'.subscriberMap[k]? = m.db.subscriberMap[k]?) :
    Synced { m with db := db', objects := m.objects.modify a g, publishAdapter := pa } := by
  have hkey : ∀ k, k ∈ db'.subscriberMap ↔ k ∈ m.db.subscriberMap := by
    intro k
    rw [mem_iff_isSome_getElem?, mem_iff_isSome_getElem?, hdb]
  have hregistry := (h.toRegistry.modify (a := a) hname hid (by
    intro t' ht' _
    obtain rfl : t = t' := some.inj (ht.symm.trans ht')
    exact hd)).adapter db' pa
  refine ⟨hregistry, fun id => (hkey _).trans (h.placeholder id),
    fun k hk => h.topic k ((hkey k).mp hk), fun id i t' hi ht' => ?_⟩
  have hia : a ≠ i := by
    rintro rfl
    obtain ⟨t'', ht'', rfl, _⟩ := h.servant id a hi
    obtain rfl : t = t'' := some.inj (ht.symm.trans ht'')
    exact hno hi
  simp only [List.getElem?_modify, hia, if_false, map_eq_map, map_id'] at ht'
  exact (h.agrees id i t' hi ht').congr fun _ => hdb _

/-- A topic without subscribers is stored and installed. -/
theorem install {name : String} {id : Identity} {llu : LogUpdate}
    (hname : identityToTopicName id = name) (hfree : name ∉ m.topics) (hid : id ∉ m.topicAdapter) :
    Synced { m.install ⟨name, id, false, []⟩ with
      db := (m.db.putTopic id).putLLU llu
      topicAdapter := m.topicAdapter.insert id m.objects.length
      publishAdapter := pa } := by
  have hlookup : ∀ k : SubscriberRecordKey, k ≠ .placeholder id →
      ((m.db.putTopic id).putLLU llu).subscriberMap[k]? = m.db.subscriberMap[k]? := by
    intro k hk
    rw [subscriberMap_putLLU, Database.putTopic, getElem?_put, if_neg hk]
  have hadapter : ∀ id', id' ∈ m.topicAdapter.insert id m.objects.length ↔
      id' = id ∨ id' ∈ m.topicAdapter := by
    intro id'
    rw [Std.ExtTreeMap.mem_insert, Std.compare_eq_iff_eq, eq_comm]
  have hkeys : ∀ k, k ∈ ((m.db.putTopic id).putLLU llu).subscriberMap ↔
      k = .placeholder id ∨ k ∈ m.db.subscriberMap := fun k => mem_put
  have hregistry : Registry { m.install ⟨name, id, false, []⟩ with
      topicAdapter := m.topicAdapter.insert id m.objects.length, publishAdapter := pa } :=
    h.toRegistry.install hname hfree hid
  refine ⟨hregistry.adapter _ pa, fun id' => ?_, fun k hk => ?_,
    fun id' i t hi ht => ?_⟩
  · rw [hkeys, hadapter, h.placeholder]
    refine or_congr_left ⟨fun heq => congrArg SubscriberRecordKey.topic heq, ?_⟩
    rintro rfl
    rfl
  · rw [hadapter]
    rcases (hkeys k).mp hk with rfl | hk
    · exact .inl rfl
    · exact .inr (h.topic k hk)
  · simp only [TopicManagerImpl.install] at hi ht
    rw [Std.ExtTreeMap.getElem?_insert] at hi
    split_ifs at hi with heq
    · obtain rfl := Std.compare_eq_iff_eq.mp heq
      obtain rfl := some.inj hi
      obtain rfl : ⟨name, id, false, []⟩ = t := by simpa using ht
      refine ⟨fun sid r => iff_of_false (by simp) ?_, List.nodup_nil⟩
      -- there was no record of the topic before
      rintro ⟨hsid, hr⟩
      rw [hlookup _ fun hk => hsid (congrArg SubscriberRecordKey.id hk)] at hr
      exact hid (h.topic ⟨id, sid⟩ (mem_iff_isSome_getElem?.mpr (by simp [hr])))
    · obtain ⟨t', ht', hid', _⟩ := h.servant id' i hi
      rw [List.getElem?_append_left (List.getElem?_eq_some_iff.mp ht').1] at ht
      refine (h.agrees id' i t hi ht).congr fun sid => hlookup _ fun hk => heq ?_
      obtain rfl : t = t' := some.inj (ht.symm.trans ht')
      have htopic : t.id = id := congrArg SubscriberRecordKey.topic hk
      rw [← htopic, hid']
      exact Std.ReflCmp.compare_self

theorem reap : Synced { m with
    topics := m.topicReaper.foldl (TopicManagerImpl.reapOne m.objects) m.topics
    topicReaper := [] } := ⟨h.toRegistry.reap, h.placeholder, h.topic, h.agrees⟩

theorem eraseEntry {name : String}
    (hnot : ∀ a t, m.topics[name]? = some a → m.objects[a]? = some t →
      m.topicAdapter[t.id]? ≠ some a) :
    Synced { m with topics := m.topics.erase name } :=
  ⟨h.toRegistry.eraseEntry hnot, h.placeholder, h.topic, h.agrees⟩

theorem putLLU (llu : LogUpdate) : Synced { m with db := m.db.putLLU llu } :=
  ⟨h.toRegistry.adapter _ m.publishAdapter, h.placeholder, h.topic,
    fun id a t ha ht => (h.agrees id a t ha ht).congr fun _ => rfl⟩

end

end Synced

end Ice.IceStorm
