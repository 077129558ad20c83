import Mathlib.Data.List.Nodup
import Ice.IceStorm.Agreement
import Ice.IceStorm.Installation

/-!
# `observerInit`

The transaction replaces the store by the content of the master. Then one scan destroys
the topics that the content leaves out, and a second one makes or updates the topics of
the content. Where no topic and no subscriber fails to be destroyed or made, memory
and database hold the content at the end.
-/

namespace Ice.IceStorm

open Ice.Lib IceStormElection
open Std.ExtTreeMap (getElem?_erase getElem?_insertIfNew mem_iff_isSome_getElem? nodup_keys)
open Option (some.inj)
open TopicManagerImpl (destroyTopic initInstall install)
open List (flatMap_cons map_append map_map mem_cons mem_cons_of_mem mem_cons_self mem_filter mem_map
  mem_map_of_mem nodup_cons)

/-- Content as a topic manager holds it: one entry for each name, one record for each
subscriber, and no empty identity among them. -/
structure WellFormed (content : List TopicContent) : Prop where
  names : (content.map fun q => identityToTopicName q.id).Nodup
  records : ∀ q ∈ content, (q.records.map SubscriberRecord.id).Nodup
  subscribers : ∀ q ∈ content, ∀ r ∈ q.records, r.id ≠ .empty

variable {content : List TopicContent} {q : TopicContent}

theorem WellFormed.eq_of_name (h : WellFormed content) {q' : TopicContent} (hq : q ∈ content)
    (hq' : q' ∈ content) (hname : identityToTopicName q.id = identityToTopicName q'.id) : q = q' :=
  List.inj_on_of_nodup_map h.names hq hq' hname

/-- The key and the value are one of those that are put for the topic. -/
def TopicContent.Stores (q : TopicContent) (k : SubscriberRecordKey) (v : SubscriberRecord) :
    Prop :=
  (∃ r ∈ q.records, k = ⟨q.id, r.id⟩ ∧ v = r) ∨ k = .placeholder q.id ∧ v = .placeholder

/-- The value that the transaction leaves under a key: a record whose identity is empty takes the
place of the placeholder. -/
def TopicContent.Leaves (q : TopicContent) (k : SubscriberRecordKey) (v : SubscriberRecord) :
    Prop :=
  (∃ r ∈ q.records, k = ⟨q.id, r.id⟩ ∧ v = r) ∨
    k = .placeholder q.id ∧ v = .placeholder ∧ ∀ r ∈ q.records, r.id ≠ .empty

namespace Database

variable {db : Database} {k : SubscriberRecordKey} {v : SubscriberRecord}

private theorem getElem?_foldl_put {topic : Identity} {records : List SubscriberRecord}
    (hnodup : (records.map SubscriberRecord.id).Nodup) :
    (records.foldl (fun db r => db.put ⟨topic, r.id⟩ r) db).subscriberMap[k]? = some v ↔
      (∃ r ∈ records, k = ⟨topic, r.id⟩ ∧ v = r) ∨
        (∀ r ∈ records, k ≠ ⟨topic, r.id⟩) ∧ db.subscriberMap[k]? = some v := by
  induction records generalizing db with
  | nil => simp
  | cons r rest ih =>
    obtain ⟨hr, hrest⟩ := nodup_cons.mp hnodup
    rw [List.foldl_cons, ih hrest, getElem?_put]
    by_cases hk : k = ⟨topic, r.id⟩
    · have hother : ∀ r' ∈ rest, k ≠ ⟨topic, r'.id⟩ := by
        intro r' hr' heq
        have hid : r.id = r'.id := congrArg SubscriberRecordKey.id (hk.symm.trans heq)
        exact hr (hid ▸ mem_map_of_mem hr')
      rw [if_pos hk]
      constructor
      · rintro (⟨r', hr', heq, _⟩ | ⟨_, hv⟩)
        · exact absurd heq (hother r' hr')
        · exact .inl ⟨r, mem_cons_self .., hk, (some.inj hv).symm⟩
      · rintro (⟨r', hr', heq, rfl⟩ | ⟨hnot, _⟩)
        · rcases mem_cons.mp hr' with rfl | hr'
          · exact .inr ⟨hother, rfl⟩
          · exact absurd heq (hother v hr')
        · exact absurd hk (hnot r (mem_cons_self ..))
    · rw [if_neg hk]
      simp only [mem_cons, exists_eq_or_imp, forall_eq_or_imp, hk, false_and, false_or,
        ne_eq, not_false_eq_true, true_and]

private theorem getElem?_putContent_iff {q : TopicContent}
    (hrecords : (q.records.map SubscriberRecord.id).Nodup)
    (hnew : k.topic = q.id → db.subscriberMap[k]? ≠ some v) :
    (db.putContent q).subscriberMap[k]? = some v ↔
      q.Leaves k v ∨ db.subscriberMap[k]? = some v := by
  have hplaceholder (r : SubscriberRecord) :
      SubscriberRecordKey.placeholder q.id ≠ ⟨q.id, r.id⟩ ↔ r.id ≠ .empty := by
    rw [SubscriberRecordKey.placeholder, Ne, SubscriberRecordKey.mk.injEq]
    simp [eq_comm]
  rw [putContent, getElem?_foldl_put hrecords, putTopic, getElem?_put]
  unfold TopicContent.Leaves
  by_cases hk : k = .placeholder q.id
  · have hold : db.subscriberMap[k]? ≠ some v := hnew (by rw [hk]; rfl)
    have hrecords : (∀ r ∈ q.records, k ≠ ⟨q.id, r.id⟩) ↔ ∀ r ∈ q.records, r.id ≠ .empty := by
      rw [hk]
      exact forall₂_congr fun r _ => hplaceholder r
    rw [if_pos hk, hrecords, Option.some.injEq, or_iff_left hold]
    apply or_congr_right
    constructor
    · rintro ⟨hempty, rfl⟩
      exact ⟨hk, rfl, hempty⟩
    · rintro ⟨_, rfl, hempty⟩
      exact ⟨hempty, rfl⟩
  · rw [if_neg hk, and_iff_right_of_imp, or_assoc]
    · simp [hk]
    · intro hv r _ heq
      exact hnew (by rw [heq]) hv

/-- The store after the transaction of `observerInit`. -/
theorem getElem?_initContent_iff {llu : LogUpdate} {content : List TopicContent}
    (hids : (content.map TopicContent.id).Nodup)
    (hrecords : ∀ q ∈ content, (q.records.map SubscriberRecord.id).Nodup) :
    (db.initContent llu content).subscriberMap[k]? = some v ↔ ∃ q ∈ content, q.Leaves k v := by
  have hcontent : ∀ (content : List TopicContent) (db : Database),
      (content.map TopicContent.id).Nodup →
      (∀ q ∈ content, (q.records.map SubscriberRecord.id).Nodup) →
      (∀ q ∈ content, k.topic = q.id → db.subscriberMap[k]? = none) →
      ((content.foldl (fun db q => db.putContent q) db).subscriberMap[k]? = some v ↔
        (∃ q ∈ content, q.Leaves k v) ∨ db.subscriberMap[k]? = some v) := by
    intro content
    induction content with
    | nil => simp
    | cons q rest ih =>
      intro db hids hrecords hnew
      obtain ⟨hq, hrest⟩ := nodup_cons.mp hids
      have hnone := hnew q (mem_cons_self ..)
      rw [List.foldl_cons, ih (db.putContent q) hrest
        (fun q' hq' => hrecords q' (mem_cons_of_mem q hq')),
        getElem?_putContent_iff (hrecords q (mem_cons_self ..))]
      · simp only [mem_cons, exists_eq_or_imp]
        rw [or_left_comm, or_assoc]
      · intro ht
        rw [hnone ht]
        simp
      · intro q' hq' ht
        have hold := hnew q' (mem_cons_of_mem q hq') ht
        rw [Option.eq_none_iff_forall_ne_some]
        intro w hw
        have hmem : k ∈ (db.putContent q).subscriberMap :=
          mem_iff_isSome_getElem?.mpr (by simp [hw])
        have hne : k.topic ≠ q.id := by
          intro heq
          exact hq (mem_map.mpr ⟨q', hq', ht.symm.trans heq⟩)
        rcases mem_putContent.mp hmem with hin | rfl | ⟨r, _, rfl⟩
        · rw [mem_iff_isSome_getElem?, hold] at hin
          cases hin
        · exact hne rfl
        · exact hne rfl
  rw [initContent, hcontent content _ hids hrecords]
  · simp [clear]
  · simp [clear]

/-- In well-formed content no record takes the place of a placeholder. -/
theorem getElem?_initContent {llu : LogUpdate} {content : List TopicContent}
    (h : WellFormed content) : (db.initContent llu content).subscriberMap[k]? = some v ↔
      ∃ q ∈ content, q.Stores k v := by
  have hids : (content.map TopicContent.id).Nodup := by
    apply List.Nodup.of_map identityToTopicName
    rw [map_map]
    exact h.names
  rw [getElem?_initContent_iff hids h.records]
  apply exists_congr
  intro q
  apply and_congr_right
  intro hq
  have hnone : ∀ r ∈ q.records, r.id ≠ .empty := h.subscribers q hq
  simp only [TopicContent.Leaves, TopicContent.Stores, and_iff_left hnone]

end Database

/-- A topic object whose subscribers have the records of the content. -/
structure Holds (t : TopicImpl) (q : TopicContent) : Prop where
  id : t.id = q.id
  records : ∀ r, r ∈ t.subscribers.map Subscriber.record ↔ r ∈ q.records
  nodup : (t.subscribers.map Subscriber.id).Nodup

/-- An object that holds the content agrees with the store that was made from it. -/
theorem Holds.agrees {t : TopicImpl} {db db' : Database} {llu : LogUpdate} (h : Holds t q)
    (hc : WellFormed content) (hq : q ∈ content)
    (hdb : db'.subscriberMap = (db.initContent llu content).subscriberMap) : Agrees db' t := by
  refine ⟨fun id r => ?_, h.nodup⟩
  rw [hdb, Database.getElem?_initContent hc, h.id]
  constructor
  · rintro ⟨s, hs, rfl, rfl⟩
    have hr := (h.records s.record).mp (mem_map_of_mem hs)
    exact ⟨hc.subscribers q hq _ hr, q, hq, .inl ⟨s.record, hr, rfl, rfl⟩⟩
  · rintro ⟨hid, q', hq', ⟨r', hr', heq, rfl⟩ | ⟨heq, _⟩⟩
    · obtain ⟨htopic, rfl⟩ := SubscriberRecordKey.mk.inj heq
      obtain rfl := hc.eq_of_name hq hq' (by rw [htopic])
      obtain ⟨s, hs, rfl⟩ := mem_map.mp ((h.records r).mpr hr')
      exact ⟨s, hs, rfl, rfl⟩
    · exact absurd (congrArg SubscriberRecordKey.id heq) hid

/-- The topic object that `observerInit` updates with the content of a topic. -/
def TopicManagerImpl.kept (m : TopicManagerImpl) (q : TopicContent) : Option TopicImpl :=
  (m.topics[identityToTopicName q.id]?.bind fun a => m.objects[a]?).filter fun t => t.id = q.id

/-- The records for which `observerInit` makes a subscriber. -/
def TopicManagerImpl.newRecords (m : TopicManagerImpl) (q : TopicContent) :
    List SubscriberRecord :=
  match m.kept q with
  | none => q.records
  | some t => t.missing q.records

/-- The publishers that `observerInit` registers. -/
def TopicManagerImpl.wanted (m : TopicManagerImpl) (q : TopicContent) : List Identity :=
  match m.kept q with
  | none => TopicImpl.wanted m.inst (identityToTopicName q.id) q.id q.records
  | some t => (t.missing q.records).flatMap (Subscriber.wanted m.inst)

/-- Every topic that the content leaves out can be destroyed, and every topic and every
subscriber of the content is there with the same record or can be made. -/
structure Initializable (m : TopicManagerImpl) (f : Faults) (content : List TopicContent) :
    Prop where
  wellFormed : WellFormed content
  named : ∀ q ∈ content, q.id.name ≠ ""
  leftOut : ∀ (id : Identity) (a : Nat) (t : TopicImpl), m.topicAdapter[id]? = some a →
    m.objects[a]? = some t → (∀ q ∈ content, q.id ≠ id) → t.destroyed = false ∧ id ∉ f.destroys
  waiting : ∀ q ∈ content, ∀ t, m.kept q = some t →
    ¬(t.destroyed = true ∧ t.name ∈ m.topicReaper)
  same : ∀ q ∈ content, ∀ t, m.kept q = some t → ∀ s ∈ t.subscribers, ∀ r ∈ q.records,
    s.id = r.id → s.record = r
  creatable : ∀ q ∈ content, ∀ r ∈ m.newRecords q, Subscriber.creatable m.inst r = true
  free : Free m.publishAdapter (content.flatMap m.wanted)

theorem TopicManagerImpl.kept_eq_some {m : TopicManagerImpl} {t : TopicImpl} :
    m.kept q = some t ↔
      (∃ a, m.topics[identityToTopicName q.id]? = some a ∧ m.objects[a]? = some t) ∧
        t.id = q.id := by
  unfold kept
  rw [Option.filter_eq_some_iff, Option.bind_eq_some_iff, decide_eq_true_eq]

/-- Between two visits of the first scan, which started from `m₀`. -/
private structure Scanned (m₀ : TopicManagerImpl) (f : Faults) (content : List TopicContent)
    (rest : List (String × Nat)) (m : TopicManagerImpl) : Prop extends Registry m where
  inst : m.inst = m₀.inst
  stored : m.db.subscriberMap = m₀.db.subscriberMap
  publishers : m.publishAdapter ⊆ m₀.publishAdapter
  distinct : (rest.map Prod.fst).Nodup
  visit : ∀ e ∈ rest, m.topics[e.1]? = some e.2
  /-- What is still to be destroyed is still to be visited. -/
  pending : ∀ (name : String) (a : Nat) (t : TopicImpl), m.topics[name]? = some a →
    m.objects[a]? = some t → (∀ q ∈ content, q.id ≠ t.id) → (name, a) ∈ rest
  leftOut : ∀ (id : Identity) (a : Nat) (t : TopicImpl), m.topicAdapter[id]? = some a →
    m.objects[a]? = some t → (∀ q ∈ content, q.id ≠ id) → t.destroyed = false ∧ id ∉ f.destroys
  kept : ∀ q ∈ content, m.kept q = m₀.kept q
  served : ∀ q ∈ content, (m₀.kept q).isSome → q.id ∈ m.topicAdapter

section FirstScan

variable {m₀ m : TopicManagerImpl} {f : Faults} {llu : LogUpdate} {content : List TopicContent}
  {e : String × Nat} {rest : List (String × Nat)} {t : TopicImpl}

/-- A topic of the content stays as it is. -/
private theorem Scanned.skip (h : Scanned m₀ f content (e :: rest) m)
    (ht : m.objects[e.2]? = some t) (hin : ∃ q ∈ content, q.id = t.id) :
    Scanned m₀ f content rest m := by
  refine { h with
    distinct := (nodup_cons.mp h.distinct).2
    visit := fun e' he' => h.visit e' (mem_cons_of_mem e he')
    pending := fun name a t' ha ht' hout => ?_ }
  refine (mem_cons.mp (h.pending name a t' ha ht' hout)).resolve_left ?_
  rintro rfl
  obtain rfl : t = t' := some.inj (ht.symm.trans ht')
  obtain ⟨q, hq, hid⟩ := hin
  exact hout q hq hid

/-- A topic that the content leaves out goes; what happened to its own object no longer
matters. -/
private theorem Scanned.drop {m' : TopicManagerImpl} (h : Scanned m₀ f content (e :: rest) m)
    (ht : m.objects[e.2]? = some t) (hout : ∀ q ∈ content, q.id ≠ t.id)
    (hregistry : Registry { m' with topics := m.topics.erase e.1 }) (hinst : m'.inst = m.inst)
    (hdb : m'.db.subscriberMap = m.db.subscriberMap) (hpa : m'.publishAdapter ⊆ m.publishAdapter)
    (hobjects : ∀ i, i ≠ e.2 → m'.objects[i]? = m.objects[i]?)
    (hadapter : ∀ (id : Identity) (i : Nat),
      m'.topicAdapter[id]? = some i ↔ m.topicAdapter[id]? = some i ∧ id ≠ t.id) :
    Scanned m₀ f content rest { m' with topics := m.topics.erase e.1 } := by
  have hself := h.visit e (mem_cons_self ..)
  obtain ⟨hnot, hdistinct⟩ := nodup_cons.mp h.distinct
  have hlookup : ∀ (name : String) (i : Nat), (m.topics.erase e.1)[name]? = some i ↔
      m.topics[name]? = some i ∧ name ≠ e.1 := by
    intro name i
    rw [getElem?_erase]
    by_cases hn : name = e.1
    · simp [hn]
    · rw [if_neg (by simpa using Ne.symm hn)]
      simp [hn]
  -- other entries lead to other objects
  have hother : ∀ (name : String) (i : Nat), (m.topics.erase e.1)[name]? = some i →
      m.topics[name]? = some i ∧ m'.objects[i]? = m.objects[i]? := by
    intro name i hi
    obtain ⟨hi, hn⟩ := (hlookup name i).mp hi
    refine ⟨hi, hobjects i fun heq => hn ?_⟩
    exact h.toRegistry.entry_injective hi (heq ▸ hself)
  refine ⟨hregistry, hinst.trans h.inst, hdb.trans h.stored, List.Subset.trans hpa h.publishers,
    hdistinct, fun e' he' => ?_, fun name i t' hi ht' hout' => ?_, fun id i t' hi ht' hout' => ?_,
    fun q hq => ?_, fun q hq hkept => ?_⟩
  · refine (hlookup e'.1 e'.2).mpr ⟨h.visit e' (mem_cons_of_mem e he'), fun heq => hnot ?_⟩
    exact heq ▸ mem_map_of_mem he'
  · obtain ⟨hi', hsame⟩ := hother name i hi
    refine (mem_cons.mp (h.pending name i t' hi' (hsame ▸ ht') hout')).resolve_left ?_
    rintro rfl
    exact ((hlookup _ _).mp hi).2 rfl
  · obtain ⟨hi', hne⟩ := (hadapter id i).mp hi
    obtain ⟨t'', ht'', hid, _⟩ := h.toRegistry.servant id i hi'
    refine h.leftOut id i t' hi' ?_ hout'
    rw [← hobjects i, ht']
    rintro rfl
    obtain rfl : t = t'' := some.inj (ht.symm.trans ht'')
    exact hne hid.symm
  · rw [← h.kept q hq]
    refine Option.ext fun t' => ?_
    rw [TopicManagerImpl.kept_eq_some, TopicManagerImpl.kept_eq_some]
    refine and_congr_left fun hid => ⟨?_, ?_⟩
    · rintro ⟨i, hi, ht'⟩
      obtain ⟨hi', hsame⟩ := hother _ i hi
      exact ⟨i, hi', hsame ▸ ht'⟩
    · rintro ⟨i, hi, ht'⟩
      have hi' := (hlookup (identityToTopicName q.id) i).mpr ⟨hi, ?_⟩
      · exact ⟨i, hi', (hother _ i hi').2 ▸ ht'⟩
      · intro hn
        obtain rfl : e.2 = i := some.inj (hself.symm.trans (hn ▸ hi))
        obtain rfl : t = t' := some.inj (ht.symm.trans ht')
        exact hout q hq hid.symm
  · obtain ⟨i, hi⟩ := mem_topicAdapter_iff.mp (h.served q hq hkept)
    exact mem_topicAdapter_iff.mpr ⟨i, (hadapter q.id i).mpr ⟨hi, hout q hq⟩⟩

/-- The first scan at one topic. -/
private theorem scanned_initRemove (llu : LogUpdate)
    (hdb : ∀ id, SubscriberRecordKey.placeholder id ∈ m₀.db.subscriberMap ↔
      ∃ q ∈ content, q.id = id) (e : String × Nat) (rest : List (String × Nat)) :
    Spec (Scanned m₀ f content (e :: rest)) (TopicManagerImpl.initRemove f llu content e)
      (fun _ => Scanned m₀ f content rest) (fun _ _ => False) := by
  refine Spec.of_forall fun m h => ?_
  have hself := h.visit e (mem_cons_self ..)
  obtain ⟨t, ht, hname, _, hserved⟩ := h.toRegistry.entry _ _ hself
  have hlive (hin : ¬∃ q ∈ content, q.id = t.id) (ha : m.topicAdapter[t.id]? = some e.2) :
      t.destroyed = false ∧ t.id ∉ f.destroys :=
    h.leftOut t.id e.2 t ha ht (by simpa using hin)
  apply initRemove_spec ht
  · exact fun hin => h.skip ht hin
  · -- a topic that was destroyed before waits to be reaped
    intro hin hd
    have hout : ∀ q ∈ content, q.id ≠ t.id := by simpa using hin
    have hgone : m.topicAdapter[t.id]? ≠ some e.2 := by
      intro ha
      rw [(hlive hin ha).1] at hd
      cases hd
    refine h.drop ht hout (h.toRegistry.eraseEntry fun a t' ha ht' => ?_) rfl rfl
      (List.Subset.refl _) (fun _ _ => rfl) fun id i => ⟨fun hi => ⟨hi, ?_⟩, And.left⟩
    · obtain rfl : e.2 = a := some.inj (hself.symm.trans ha)
      obtain rfl : t = t' := some.inj (ht.symm.trans ht')
      exact hgone
    · rintro rfl
      exact hgone (h.toRegistry.adapter_eq hself ht hi ▸ hi)
  · intro hin hf hd
    obtain ⟨_, hnot⟩ := hlive hin (hserved.resolve_right fun hw => by rw [hd] at hw; cases hw.1)
    exact hnot hf
  · intro hin pa hpa hd
    have hout : ∀ q ∈ content, q.id ≠ t.id := by simpa using hin
    have ha := hserved.resolve_right fun hw => by rw [hd] at hw; cases hw.1
    have hregistry := h.toRegistry.destroyTopic ha ht llu pa
    have herased : (m.destroyTopic e.2 t llu pa).topicAdapter = m.topicAdapter.erase t.id := rfl
    refine h.drop ht hout (hregistry.eraseEntry fun a t' ha' ht' => ?_) rfl ?_ hpa ?_ ?_
    · obtain rfl : e.2 = a := some.inj (hself.symm.trans ha')
      obtain rfl : t.emptied = t' := by
        simpa [destroyTopic, ht] using ht'
      rw [herased]
      simp [TopicImpl.emptied]
    · have hnp : SubscriberRecordKey.placeholder t.id ∉ m.db.subscriberMap := by
        rw [h.stored, hdb]
        exact hin
      change (m.db.delTopic t.id).subscriberMap = _
      rw [Database.delTopic_of_notMem hnp]
    · intro i hi
      simp [destroyTopic, Ne.symm hi]
    · intro id i
      rw [herased, getElem?_erase]
      by_cases hid : id = t.id
      · simp [hid]
      · rw [if_neg (by simpa using Ne.symm hid)]
        simp [hid]

end FirstScan

/-- Between two visits of the second scan. -/
private structure Filling (m₀ : TopicManagerImpl) (content rest : List TopicContent)
    (m : TopicManagerImpl) : Prop extends Registry m where
  inst : m.inst = m₀.inst
  stored : m.db.subscriberMap = m₀.db.subscriberMap
  suffix : ∃ before, content = before ++ rest
  /-- Only topics of the content are left. -/
  topic : ∀ (name : String) (a : Nat) (t : TopicImpl), m.topics[name]? = some a →
    m.objects[a]? = some t → ∃ q ∈ content, q.id = t.id
  free : Free m.publishAdapter (rest.flatMap m₀.wanted)
  kept : ∀ q ∈ rest, m.kept q = m₀.kept q
  served : ∀ q ∈ rest, (m₀.kept q).isSome → q.id ∈ m.topicAdapter
  done : ∀ q ∈ content, q ∈ rest ∨
    ∃ (a : Nat) (t : TopicImpl), m.topicAdapter[q.id]? = some a ∧ m.objects[a]? = some t ∧ Holds t q

section SecondScan

variable {m₀ m : TopicManagerImpl} {f : Faults} {content rest : List TopicContent}
  {q : TopicContent} {t : TopicImpl} {a : Nat}

/-- Only the topic `q` and its object change. -/
private theorem Filling.fill {m' : TopicManagerImpl} {t' : TopicImpl}
    (hw : WellFormed content) (h : Filling m₀ content (q :: rest) m) (hregistry : Registry m')
    (hinst : m'.inst = m.inst) (hdb : m'.db = m.db)
    (hpa : m'.publishAdapter ⊆ m₀.wanted q ++ m.publishAdapter)
    (hother : ∀ name, name ≠ identityToTopicName q.id → m'.topics[name]? = m.topics[name]?)
    (hobjects : ∀ (name : String) (i : Nat), name ≠ identityToTopicName q.id →
      m.topics[name]? = some i → m'.objects[i]? = m.objects[i]?)
    (hadapter : ∀ id ∈ m.topicAdapter, m'.topicAdapter[id]? = m.topicAdapter[id]?)
    (hself : m'.topics[identityToTopicName q.id]? = some a) (ha : m'.topicAdapter[q.id]? = some a)
    (ht : m'.objects[a]? = some t') (hholds : Holds t' q) : Filling m₀ content rest m' := by
  obtain ⟨before, hbefore⟩ := h.suffix
  have hq : q ∈ content := by simp [hbefore]
  have hne : ∀ q' ∈ rest, identityToTopicName q'.id ≠ identityToTopicName q.id := by
    intro q' hq' heq
    have hnames := hw.names
    rw [hbefore, map_append, List.map_cons] at hnames
    have htail := (List.nodup_append.mp hnames).2.1
    exact (nodup_cons.mp htail).1 (mem_map.mpr ⟨q', hq', heq⟩)
  -- an entry of another name leads to the same object as before
  have hentry : ∀ (name : String) (i : Nat), name ≠ identityToTopicName q.id →
      m'.topics[name]? = some i → m.topics[name]? = some i ∧ m'.objects[i]? = m.objects[i]? := by
    intro name i hn hi
    rw [hother name hn] at hi
    exact ⟨hi, hobjects name i hn hi⟩
  refine ⟨hregistry, hinst.trans h.inst, hdb ▸ h.stored, ⟨before ++ [q], by simp [hbefore]⟩,
    fun name i t'' hi ht'' => ?_, ?_, fun q' hq' => ?_, fun q' hq' hkept => ?_, fun q' hq' => ?_⟩
  · by_cases hn : name = identityToTopicName q.id
    · subst hn
      obtain rfl := some.inj (hself.symm.trans hi)
      obtain rfl := some.inj (ht.symm.trans ht'')
      exact ⟨q, hq, hholds.id.symm⟩
    · obtain ⟨hi, hsame⟩ := hentry name i hn hi
      exact h.topic name i t'' hi (hsame ▸ ht'')
  · exact (flatMap_cons ▸ h.free).right hpa
  · rw [← h.kept q' (mem_cons_of_mem q hq')]
    unfold TopicManagerImpl.kept
    rw [hother _ (hne q' hq')]
    cases hi : m.topics[identityToTopicName q'.id]? with
    | none => rfl
    | some i => rw [Option.bind_some, Option.bind_some, hobjects _ i (hne q' hq') hi]
  · have hold := h.served q' (mem_cons_of_mem q hq') hkept
    rw [mem_iff_isSome_getElem?, hadapter _ hold,
      ← mem_iff_isSome_getElem?]
    exact hold
  · by_cases heq : q' = q
    · exact .inr ⟨a, t', heq ▸ ha, ht, heq ▸ hholds⟩
    rcases h.done q' hq' with hrest | ⟨i, t'', hi, ht'', hdone⟩
    · exact .inl ((mem_cons.mp hrest).resolve_left heq)
    · have hmem : q'.id ∈ m.topicAdapter := mem_topicAdapter_iff.mpr ⟨i, hi⟩
      obtain ⟨t₃, ht₃, _, hentry₃, _⟩ := h.toRegistry.servant q'.id i hi
      obtain rfl : t'' = t₃ := some.inj (ht''.symm.trans ht₃)
      refine .inr ⟨i, t'', (hadapter _ hmem).trans hi, ?_, hdone⟩
      rw [hobjects t''.name i ?_ hentry₃, ht'']
      intro hn
      refine heq (hw.eq_of_name hq' hq ?_)
      have hname := h.toRegistry.name_eq (t := t'') (hdone.id ▸ hi) ht''
      rw [← hdone.id, ← hname, hn]

/-- A topic of the content that `_topics` does not have is made. -/
private theorem filling_install (hw : WellFormed content) (hnamed : q.id.name ≠ "")
    (hc : ∀ r ∈ m₀.newRecords q, Subscriber.creatable m₀.inst r = true)
    (h : Filling m₀ content (q :: rest) m) (hfree : m.topics[identityToTopicName q.id]? = none) :
    Spec (· = m) (do
      let _ ← TopicManagerImpl.installTopic (identityToTopicName q.id) q.id q.records)
      (fun _ => Filling m₀ content rest) (fun _ _ => False) := by
  obtain ⟨before, hbefore⟩ := h.suffix
  have hq : q ∈ content := by simp [hbefore]
  have hkept : m₀.kept q = none := by
    rw [← h.kept q (mem_cons_self ..), TopicManagerImpl.kept, hfree]
    rfl
  have hnotTopic : identityToTopicName q.id ∉ m.topics := by
    rw [mem_iff_isSome_getElem?, hfree]
    simp
  have hnotServed : q.id ∉ m.topicAdapter := by
    intro hmem
    obtain ⟨a, ha⟩ := mem_topicAdapter_iff.mp hmem
    obtain ⟨t, ht, hid, hentry, _⟩ := h.toRegistry.servant q.id a ha
    rw [h.toRegistry.name_eq (hid ▸ ha) ht, hid, hfree] at hentry
    cases hentry
  have hwanted : m₀.wanted q =
      TopicImpl.wanted m.inst (identityToTopicName q.id) q.id q.records := by
    rw [TopicManagerImpl.wanted, hkept, h.inst]
  rw [TopicManagerImpl.newRecords, hkept, ← h.inst] at hc
  refine installTopic_ok_bind hnamed hnotServed hc ?_ fun subscribers hsub pa hpa => ?_
  · exact hwanted ▸ (flatMap_cons ▸ h.free).left
  have hids : subscribers.map Subscriber.id = q.records.map SubscriberRecord.id := by
    rw [← hsub, map_map]
    rfl
  have hholds : Holds ⟨identityToTopicName q.id, q.id, false, subscribers⟩ q :=
    ⟨rfl, fun r => by rw [hsub], hids ▸ hw.records q hq⟩
  refine Spec.pure ?_
  rintro s rfl
  refine h.fill hw (h.toRegistry.install rfl hnotTopic hnotServed) rfl rfl (hwanted ▸ hpa) ?_ ?_ ?_
    (a := m.objects.length) ?_ (by simp) (by simp [install]) hholds
  · intro name hn
    simp only [install]
    rw [getElem?_insertIfNew, if_neg]
    rintro ⟨heq, _⟩
    exact hn (Std.compare_eq_iff_eq.mp heq).symm
  · intro name i _ hi
    exact List.getElem?_append_left (h.toRegistry.entriesExist name i hi)
  · intro id hid
    rw [Std.ExtTreeMap.getElem?_insert, if_neg]
    intro heq
    exact hnotServed (Std.compare_eq_iff_eq.mp heq ▸ hid)
  · simp only [install]
    rw [getElem?_insertIfNew, if_pos ⟨by simp, hnotTopic⟩]

/-- The object of a topic after `update`. -/
private theorem holds_update {added : List Subscriber} (hid : t.id = q.id)
    (hnodup : (t.subscribers.map Subscriber.id).Nodup)
    (hrecords : (q.records.map SubscriberRecord.id).Nodup)
    (hsame : ∀ s ∈ t.subscribers, ∀ r ∈ q.records, s.id = r.id → s.record = r)
    (hadded : added.map Subscriber.record = t.missing q.records) :
    Holds ((t.keep q.records).append added) q := by
  have hkeep : ∀ s, s ∈ (t.keep q.records).subscribers → ∃ x ∈ t.subscribers,
      x.id = s.id ∧ x.record = s.record ∧ ∃ r ∈ q.records, x.id = r.id := by
    intro s hs
    obtain ⟨x, hx, rfl⟩ := mem_map.mp hs
    obtain ⟨hx, hany⟩ := mem_filter.mp hx
    obtain ⟨r, hr, hxr⟩ := List.any_eq_true.mp hany
    exact ⟨x, hx, by simp, by simp, r, hr, of_decide_eq_true hxr⟩
  have hids : added.map Subscriber.id = (t.missing q.records).map SubscriberRecord.id := by
    rw [← hadded, map_map]
    rfl
  refine ⟨hid, fun r => ?_, ?_⟩
  · simp only [TopicImpl.append, map_append, List.mem_append, hadded]
    constructor
    · rintro (hr | hr)
      · obtain ⟨s, hs, rfl⟩ := mem_map.mp hr
        obtain ⟨x, hx, _, hrecord, r, hr, hxr⟩ := hkeep s hs
        rw [← hrecord, hsame x hx r hr hxr]
        exact hr
      · exact (mem_filter.mp hr).1
    · intro hr
      by_cases hnew : (t.findSubscriber r.id).isNone = true
      · exact .inr (mem_filter.mpr ⟨hr, hnew⟩)
      · obtain ⟨x, hx⟩ := Option.ne_none_iff_exists'.mp
          fun hn => hnew (Option.isNone_iff_eq_none.mpr hn)
        have hmem := List.mem_of_find?_eq_some hx
        have hxr : x.id = r.id := by simpa using List.find?_some hx
        refine .inl (mem_map.mpr ⟨x.resetIfReaped, ?_, ?_⟩)
        · refine mem_map_of_mem (mem_filter.mpr ⟨hmem, ?_⟩)
          exact List.any_eq_true.mpr ⟨r, hr, by simpa using hxr⟩
        · rw [Subscriber.resetIfReaped_record]
          exact hsame x hmem r hr hxr
  · simp only [TopicImpl.append, map_append, hids]
    refine List.nodup_append.mpr ⟨?_, hrecords.sublist (List.filter_sublist.map _), ?_⟩
    · have hmap : (t.keep q.records).subscribers.map Subscriber.id =
          (t.subscribers.filter fun s => q.records.any fun r => s.id = r.id).map Subscriber.id := by
        simp only [TopicImpl.keep, map_map]
        exact List.map_congr_left fun s _ => s.resetIfReaped_id
      rw [hmap]
      exact hnodup.sublist (List.filter_sublist.map _)
    · intro x hx y hy hxy
      obtain ⟨s, hs, rfl⟩ := mem_map.mp hx
      obtain ⟨r, hr, rfl⟩ := mem_map.mp hy
      obtain ⟨z, hz, hzid, _⟩ := hkeep s hs
      have hnone := Option.isNone_iff_eq_none.mp (mem_filter.mp hr).2
      exact findSubscriber_eq_none.mp hnone z hz (hzid.trans hxy)

/-- A topic of the content that `_topics` has is updated. -/
private theorem filling_update (hw : WellFormed content)
    (hc : ∀ r ∈ m₀.newRecords q, Subscriber.creatable m₀.inst r = true)
    (hsame : ∀ t, m₀.kept q = some t → ∀ s ∈ t.subscribers, ∀ r ∈ q.records,
      s.id = r.id → s.record = r)
    (hnodup : ∀ t, m₀.kept q = some t → (t.subscribers.map Subscriber.id).Nodup)
    (h : Filling m₀ content (q :: rest) m)
    (hentry : m.topics[identityToTopicName q.id]? = some a) :
    Spec (· = m) (TopicImpl.update a q.records)
      (fun _ => Filling m₀ content rest) (fun _ _ => False) := by
  obtain ⟨before, hbefore⟩ := h.suffix
  have hq : q ∈ content := by simp [hbefore]
  obtain ⟨t, ht, hname, htopic, _⟩ := h.toRegistry.entry _ a hentry
  have hid : t.id = q.id := by
    obtain ⟨q', hq', hid'⟩ := h.topic _ a t hentry ht
    rw [← hid', hw.eq_of_name hq' hq (by rw [hid', htopic])]
  have hkept : m₀.kept q = some t := by
    rw [← h.kept q (mem_cons_self ..)]
    exact TopicManagerImpl.kept_eq_some.mpr ⟨⟨a, hentry, ht⟩, hid⟩
  have ha : m.topicAdapter[q.id]? = some a := by
    obtain ⟨i, hi⟩ := mem_topicAdapter_iff.mp (h.served q (mem_cons_self ..) (by simp [hkept]))
    exact h.toRegistry.adapter_eq hentry ht (hid ▸ hi) ▸ hi
  have hwanted : m₀.wanted q = (t.missing q.records).flatMap (Subscriber.wanted m.inst) := by
    rw [TopicManagerImpl.wanted, hkept, h.inst]
  rw [TopicManagerImpl.newRecords, hkept, ← h.inst] at hc
  rw [← bind_pure (TopicImpl.update a q.records)]
  refine update_ok_bind ht (hw.records q hq) hc ?_ fun added hadded pa hpa => Spec.pure ?_
  · exact hwanted ▸ (flatMap_cons ▸ h.free).left
  rintro s rfl
  have hregistry := h.toRegistry.modify (a := a)
    (g := TopicImpl.append added ∘ TopicImpl.keep q.records) (fun _ => rfl) (fun _ => rfl)
    fun _ _ _ => rfl
  have hholds := holds_update hid (hnodup t hkept) (hw.records q hq) (hsame t hkept) hadded
  refine h.fill hw (hregistry.adapter m.db pa) rfl rfl (hwanted ▸ hpa) (fun _ _ => rfl) ?_
    (fun _ _ => rfl) hentry ha (by simp [ht]) hholds
  intro name i hn hi
  have hne : a ≠ i := by
    rintro rfl
    exact hn (h.toRegistry.entry_injective hi hentry)
  simp [hne]

/-- The second scan at one topic. -/
private theorem filling_initInstall (hok : Initializable m₀ f content)
    (hnodup : ∀ q ∈ content, ∀ t, m₀.kept q = some t →
      (t.subscribers.map Subscriber.id).Nodup) (q : TopicContent) (rest : List TopicContent) :
    Spec (Filling m₀ content (q :: rest)) (initInstall q)
      (fun _ => Filling m₀ content rest) (fun _ _ => False) := by
  refine Spec.of_forall fun m h => ?_
  obtain ⟨before, hbefore⟩ := h.suffix
  have hq : q ∈ content := by simp [hbefore]
  unfold initInstall
  refine get_bind ?_
  cases hentry : m.topics[identityToTopicName q.id]? with
  | none => exact filling_install hok.wellFormed (hok.named q hq) (hok.creatable q hq) h hentry
  | some a =>
    exact filling_update hok.wellFormed (hok.creatable q hq) (hok.same q hq) (hnodup q hq) h
      hentry

/-- After the second scan memory and database hold the content. -/
private theorem Filling.synced {llu : LogUpdate} {db : Database} (hw : WellFormed content)
    (h : Filling m₀ content [] m)
    (hdb : m₀.db.subscriberMap = (db.initContent llu content).subscriberMap) : Synced m := by
  have hstored := h.stored.trans hdb
  have hdone : ∀ q ∈ content, ∃ (a : Nat) (t : TopicImpl),
      m.topicAdapter[q.id]? = some a ∧ m.objects[a]? = some t ∧ Holds t q :=
    fun q hq => (h.done q hq).resolve_left (by simp)
  have hserved : ∀ id, id ∈ m.topicAdapter ↔ ∃ q ∈ content, q.id = id := by
    intro id
    constructor
    · intro hid
      obtain ⟨a, ha⟩ := mem_topicAdapter_iff.mp hid
      obtain ⟨t, ht, rfl, hentry, _⟩ := h.toRegistry.servant id a ha
      exact h.topic _ a t hentry ht
    · rintro ⟨q, hq, rfl⟩
      obtain ⟨a, _, ha, _⟩ := hdone q hq
      exact mem_topicAdapter_iff.mpr ⟨a, ha⟩
  refine ⟨h.toRegistry, fun id => ?_, fun k hk => ?_, fun id a t ha ht => ?_⟩
  · rw [hstored, Database.placeholder_mem_initContent, hserved]
  · rw [hserved]
    rw [hstored] at hk
    obtain ⟨q, hq, rfl | ⟨r, _, rfl⟩⟩ := Database.mem_initContent.mp hk
    · exact ⟨q, hq, rfl⟩
    · exact ⟨q, hq, rfl⟩
  · obtain ⟨q, hq, rfl⟩ := (hserved id).mp (mem_topicAdapter_iff.mpr ⟨a, ha⟩)
    obtain ⟨a', t', ha', ht', hholds⟩ := hdone q hq
    obtain rfl := some.inj (ha.symm.trans ha')
    obtain rfl := some.inj (ht.symm.trans ht')
    exact hholds.agrees hw hq hstored

end SecondScan

/-- `observerInit` keeps memory and database together. -/
theorem Synced.observerInit {m : TopicManagerImpl} {f : Faults} {llu : LogUpdate} (h : Synced m)
    (hok : f.database = false → Initializable m f content) :
    Synced (final (TopicManagerImpl.observerInit f llu content) m) := by
  refine Spec.final (P := (· = m)) ?_ rfl
  unfold TopicManagerImpl.observerInit
  refine transaction_bind (fun _ => h) fun hf => get_bind ?_
  have hok := hok hf
  let m₀ : TopicManagerImpl := { m with db := m.db.initContent llu content }
  -- a topic of the content that is in `_topics` has its servant
  have hkept : ∀ q t, m.kept q = some t → q ∈ content →
      ∃ a, m.topicAdapter[t.id]? = some a ∧ m.objects[a]? = some t := by
    intro q t hkept hq
    obtain ⟨⟨a, ha, ht⟩, hid⟩ := TopicManagerImpl.kept_eq_some.mp hkept
    obtain ⟨t', ht', hname, _, hserved⟩ := h.entry _ a ha
    obtain rfl : t = t' := some.inj (ht.symm.trans ht')
    exact ⟨a, hserved.resolve_right fun hw => hok.waiting q hq t hkept (hname ▸ hw), ht⟩
  have hstart : Scanned m₀ f content m.topics.toList m₀ := by
    refine ⟨h.toRegistry.adapter _ _, rfl, rfl, List.Subset.refl _, ?_, fun e he => ?_,
      fun name a t ha _ _ => ?_, hok.leftOut, fun _ _ => rfl, fun q hq hsome => ?_⟩
    · rw [Std.ExtTreeMap.map_fst_toList_eq_keys]
      exact nodup_keys
    · exact Std.ExtTreeMap.mem_toList_iff_getElem?_eq_some.mp he
    · exact Std.ExtTreeMap.mem_toList_iff_getElem?_eq_some.mpr ha
    · obtain ⟨t, ht⟩ := Option.isSome_iff_exists.mp hsome
      obtain ⟨a, ha, _⟩ := hkept q t ht hq
      exact mem_topicAdapter_iff.mpr ⟨a, (TopicManagerImpl.kept_eq_some.mp ht).2 ▸ ha⟩
  have hdb : ∀ id, SubscriberRecordKey.placeholder id ∈ m₀.db.subscriberMap ↔
      ∃ q ∈ content, q.id = id := fun _ => Database.placeholder_mem_initContent
  have hscan := Spec.forM m.topics.toList (scanned_initRemove (f := f) llu hdb)
  refine Spec.bind (hscan.conseq (fun s hs => hs ▸ hstart) (fun _ _ hs => hs)
    fun _ _ hs => hs.elim) fun _ => ?_
  have hnodup : ∀ q ∈ content, ∀ t, m₀.kept q = some t →
      (t.subscribers.map Subscriber.id).Nodup := by
    intro q hq t ht
    obtain ⟨a, ha, hta⟩ := hkept q t ht hq
    exact (h.agrees _ a t ha hta).nodup
  have hok₀ : Initializable m₀ f content := ⟨hok.wellFormed, hok.named, hok.leftOut, hok.waiting,
    hok.same, hok.creatable, hok.free⟩
  have hfill := Spec.forM content (filling_initInstall hok₀ hnodup)
  refine hfill.conseq (fun s hs => ?_) (fun _ s hs => hs.synced hok.wellFormed rfl)
    fun _ _ hs => hs.elim
  refine ⟨hs.toRegistry, hs.inst, hs.stored, ⟨[], rfl⟩, fun name a t ha ht => ?_,
    hok.free.mono hs.publishers, hs.kept, hs.served, fun _ hq => .inl hq⟩
  by_contra hout
  have hpending := hs.pending name a t ha ht (by simpa using hout)
  cases hpending

end Ice.IceStorm
