import Ice.IceStorm.Sequential

/-!
# Becoming master

A new master sends its content to the slaves and leaves out the subscribers that are in
error or reaped, so that no one has to remove them again over there. Its own store and
lists keep them. Those in error go with the next publish of the master on their topic.
-/

namespace Ice.IceStorm

open Ice.Lib IceStormElection
open Std.ExtTreeMap (contains_iff_mem mem_iff_isSome_getElem? nodup_keys)
open TopicImpl (publish updateAdd updateRemove)
open TopicManagerImpl (initInstall initMaster initRemove observerInit topicContents)
open SubscriberRecordKey (placeholder)

section

variable {inst : Instance} {now : Int} {forwarded : Bool} {events : List EventData}
  {outcomes : List SendOutcome} {s : Subscriber}

namespace Subscriber

@[simp] theorem error_record (dec : Bool) (e : SendException) :
    (s.error inst now dec e).record = s.record := by
  simp only [error]
  split_ifs <;> rfl

/-- A loop of sends keeps what every send keeps. -/
private theorem sendLoop_record {invoke : EventData → SendOutcome → Subscriber → Subscriber × Bool}
    (h : ∀ e o s, (invoke e o s).1.record = s.record) :
    ∀ (events : List EventData) (outcomes : List SendOutcome) (s : Subscriber),
      (sendLoop invoke events outcomes s).record = s.record := by
  intro events
  induction events with
  | nil =>
    intro outcomes s
    rfl
  | cons e rest ih =>
    intro outcomes s
    unfold sendLoop
    have hstep := h e (outcomes.headD .sentAsynchronously) { s with events := rest }
    split_ifs
    · split
      · rename_i s' hs'
        rw [ih, ← hstep, hs']
      · rename_i s' hs'
        rw [← hstep, hs']
    · rfl

@[simp] theorem flush_record : (s.flush inst now outcomes).record = s.record := by
  have honeway : ∀ e o s, (invokeOneway inst now e o s).1.record = s.record := by
    intro e o s
    cases o with
    | sentSynchronously => rfl
    | sentAsynchronously => rfl
    | failed x => exact error_record ..
  have htwoway : ∀ e o s, (invokeTwoway inst now e o s).1.record = s.record := by
    intro e o s
    cases o with
    | sentSynchronously => rfl
    | sentAsynchronously => rfl
    | failed x => exact error_record ..
  unfold flush
  cases s.kind with
  | batch => split_ifs <;> rfl
  | oneway =>
    dsimp only
    split_ifs
    · rfl
    · exact sendLoop_record honeway ..
  | twoway ordered =>
    dsimp only
    split_ifs
    · rfl
    · exact sendLoop_record htwoway ..
  | link =>
    dsimp only
    split_ifs
    · rfl
    · rfl
    · cases outcomes.headD .sentAsynchronously with
      | sentSynchronously => rfl
      | sentAsynchronously => rfl
      | failed x => exact error_record ..

theorem enqueue_record : (queue.enqueue inst now events outcomes s).1.record = s.record := by
  unfold queue.enqueue
  cases push inst s.events events with
  | none => exact error_record ..
  | some queued => exact flush_record

theorem queue_record :
    (s.queue inst now forwarded events outcomes).1.record = s.record := by
  unfold queue
  by_cases hf : (forwarded && s.record.link) = true
  · rw [if_pos hf]
  · rw [if_neg hf]
    cases s.state with
    | offline =>
      dsimp only
      split_ifs
      · rfl
      · exact enqueue_record
    | online => exact enqueue_record
    | error => rfl
    | reaped => rfl

end Subscriber

theorem TopicImpl.queueOne_record :
    (queueOne inst now forwarded events outcomes s).1.record = s.record := by
  have hqueue := @Subscriber.queue_record inst now forwarded events outcomes s
  unfold queueOne
  split
  · rename_i s' hs'
    rw [← hqueue, hs']
  · rename_i s' hs'
    have hreap : s'.reap.1.record = s'.record := by
      unfold Subscriber.reap
      split_ifs <;> rfl
    rw [← hqueue, hs', ← hreap]
    split
    · rename_i s'' hs''
      rw [hs'']
    · rename_i s'' hs''
      rw [hs'']

/-- An event that was not forwarded reaps a subscriber in error. -/
theorem TopicImpl.queueOne_error (h : s.state = .error) :
    (queueOne inst now false events outcomes s).2 = some s.id := by
  have hqueue : s.queue inst now false events outcomes = (s, false) := by
    unfold Subscriber.queue
    rw [h]
    rfl
  have hreap : s.reap = ({ s with state := .reaped }, true) := by
    unfold Subscriber.reap
    rw [h]
    rfl
  unfold queueOne
  rw [hqueue]
  dsimp only
  rw [hreap]
  rfl

end

/-- The topics that the topic manager knows when it has reaped. -/
def TopicManagerImpl.reaped (m : TopicManagerImpl) : TopicManagerImpl :=
  { m with
    topics := m.topicReaper.foldl (TopicManagerImpl.reapOne m.objects) m.topics
    topicReaper := [] }

/-- The master has a subscriber of this identity that is in error or reaped. -/
def TopicManagerImpl.Errored (m : TopicManagerImpl) (topic id : Identity) : Prop :=
  ∃ (a : Nat) (t : TopicImpl), m.topicAdapter[topic]? = some a ∧ m.objects[a]? = some t ∧
    ∃ s ∈ t.subscribers, s.id = id ∧ s.errored = true

section

variable {m m' : TopicManagerImpl} {a : Nat} {t : TopicImpl} {f : Faults} {llu : LogUpdate}
  {content : List TopicContent}

theorem initMaster_ok (h : initMaster f llu m = .ok content m') :
    content = m.reaped.topicContents ∧ m' = { m.reaped with db := m.db.putLLU llu } := by
  have hspec : Spec (· = m) (initMaster f llu)
      (fun content m' => content = m.reaped.topicContents ∧
        m' = { m.reaped with db := m.db.putLLU llu }) fun _ _ => True := by
    unfold initMaster TopicManagerImpl.reap
    apply modify_bind
    apply get_bind
    apply transaction_bind
    · intro _
      trivial
    intro _
    apply replicate_bind
    · intro _
      trivial
    intro _
    apply Spec.pure
    intro s hs
    exact ⟨rfl, hs⟩
  exact hspec.of_ok rfl h

theorem mem_topicContents {q : TopicContent} : q ∈ m.topicContents ↔
    ∃ (name : String) (a : Nat) (t : TopicImpl), m.topics[name]? = some a ∧
      m.objects[a]? = some t ∧ q = ⟨t.id, t.getContent⟩ := by
  simp only [topicContents, List.mem_filterMap, Prod.exists,
    Std.ExtTreeMap.mem_toList_iff_getElem?_eq_some, Option.map_eq_some_iff]
  constructor
  · rintro ⟨name, a, ha, t, ht, rfl⟩
    exact ⟨name, a, t, ha, ht, rfl⟩
  · rintro ⟨name, a, t, ha, ht, rfl⟩
    exact ⟨name, a, ha, t, ht, rfl⟩

theorem TopicImpl.mem_getContent {r : SubscriberRecord} :
    r ∈ t.getContent ↔ ∃ s ∈ t.subscribers, s.errored = false ∧ s.record = r := by
  simp [getContent, and_assoc]

/-- The topics of the content have the names of `_topics`. -/
theorem Registry.names_topicContents (h : Registry m) :
    (m.topicContents.map fun q => identityToTopicName q.id) = m.topics.toList.map Prod.fst := by
  have hentries : ∀ e ∈ m.topics.toList, ∃ t : TopicImpl, m.objects[e.2]? = some t ∧
      identityToTopicName t.id = e.1 := by
    intro e he
    have hentry := Std.ExtTreeMap.mem_toList_iff_getElem?_eq_some.mp he
    obtain ⟨t, ht, _, hname, _⟩ := h.entry e.1 e.2 hentry
    exact ⟨t, ht, hname⟩
  unfold topicContents
  generalize m.topics.toList = entries at hentries ⊢
  induction entries with
  | nil => rfl
  | cons e rest ih =>
    obtain ⟨name, a⟩ := e
    obtain ⟨t, ht, hname⟩ := hentries _ (List.mem_cons_self ..)
    have hrest := ih fun e' he' => hentries e' (List.mem_cons_of_mem _ he')
    simp only at ht hname
    rw [List.filterMap_cons_some (b := ⟨t.id, t.getContent⟩) (by simp [ht]), List.map_cons,
      List.map_cons, hrest, hname]

/-- A topic that the manager knows has its servant, when none waits to be reaped. -/
theorem Registry.served (h : Registry m) (hreaper : m.topicReaper = []) {name : String}
    (ha : m.topics[name]? = some a) (ht : m.objects[a]? = some t) :
    m.topicAdapter[t.id]? = some a := by
  obtain ⟨t', ht', _, _, hserved⟩ := h.entry name a ha
  obtain rfl : t = t' := Option.some.inj (ht.symm.trans ht')
  apply hserved.resolve_right
  rintro ⟨_, hmem⟩
  rw [hreaper] at hmem
  cases hmem

/-- Where memory and database agree the content that is sent is well-formed. -/
theorem Synced.wellFormed_topicContents (h : Synced m) (hreaper : m.topicReaper = []) :
    WellFormed m.topicContents := by
  have hagrees : ∀ q ∈ m.topicContents, ∃ t, Agrees m.db t ∧ q = ⟨t.id, t.getContent⟩ := by
    intro q hq
    obtain ⟨name, a, t, ha, ht, rfl⟩ := mem_topicContents.mp hq
    exact ⟨t, h.agrees _ a t (h.toRegistry.served hreaper ha ht) ht, rfl⟩
  constructor
  · rw [h.toRegistry.names_topicContents, Std.ExtTreeMap.map_fst_toList_eq_keys]
    exact nodup_keys
  · intro q hq
    obtain ⟨t, ht, rfl⟩ := hagrees q hq
    have hids : t.getContent.map SubscriberRecord.id =
        (t.subscribers.filter fun s => !s.errored).map Subscriber.id := by
      rw [TopicImpl.getContent, List.map_map]
      rfl
    rw [hids]
    exact ht.nodup.sublist (List.filter_sublist.map _)
  · intro q hq r hr
    obtain ⟨t, ht, rfl⟩ := hagrees q hq
    obtain ⟨s, hs, _, rfl⟩ := TopicImpl.mem_getContent.mp hr
    exact ((ht.records s.id s.record).mp ⟨s, hs, rfl, rfl⟩).1

/-- A store holds what the master does, but for its subscribers in error. -/
structure TopicManagerImpl.Mirrors (m : TopicManagerImpl) (db : Database) : Prop where
  llu : db.getLLU = m.db.getLLU
  topics : ∀ id, placeholder id ∈ db.subscriberMap ↔
    placeholder id ∈ m.db.subscriberMap
  records : ∀ (topic id : Identity) (r : SubscriberRecord), id ≠ .empty →
    (db.subscriberMap[(⟨topic, id⟩ : SubscriberRecordKey)]? = some r ↔
      m.db.subscriberMap[(⟨topic, id⟩ : SubscriberRecordKey)]? = some r ∧ ¬m.Errored topic id)

/-- The store that is made from the content of a master. -/
theorem Synced.mirrors (h : Synced m) (hreaper : m.topicReaper = []) {db : Database}
    (hllu : db.getLLU = m.db.getLLU) (hdb : db.subscriberMap =
      (Database.empty.initContent llu m.topicContents).subscriberMap) : m.Mirrors db := by
  constructor
  · exact hllu
  · intro id
    rw [hdb, Database.placeholder_mem_initContent, h.placeholder, mem_topicAdapter_iff]
    constructor
    · rintro ⟨q, hq, rfl⟩
      obtain ⟨name, a, t, ha, ht, rfl⟩ := mem_topicContents.mp hq
      exact ⟨a, h.toRegistry.served hreaper ha ht⟩
    · rintro ⟨a, ha⟩
      obtain ⟨t, ht, rfl, hentry, _⟩ := h.servant id a ha
      exact ⟨_, mem_topicContents.mpr ⟨t.name, a, t, hentry, ht, rfl⟩, rfl⟩
  · intro topic id r hid
    rw [hdb, Database.getElem?_initContent (h.wellFormed_topicContents hreaper)]
    constructor
    · rintro ⟨q, hq, ⟨r', hr, hkey, rfl⟩ | ⟨hkey, _⟩⟩
      · obtain ⟨name, a, t, ha, ht, rfl⟩ := mem_topicContents.mp hq
        obtain ⟨rfl, rfl⟩ := SubscriberRecordKey.mk.inj hkey
        obtain ⟨s, hs, hok, rfl⟩ := TopicImpl.mem_getContent.mp hr
        have hserved := h.toRegistry.served hreaper ha ht
        have hagrees := h.agrees _ a t hserved ht
        have hstored := (hagrees.records s.id s.record).mp ⟨s, hs, rfl, rfl⟩
        refine ⟨hstored.2, ?_⟩
        -- the subscriber of this identity is not in error
        rintro ⟨a', t', ha', ht', s', hs', hid', herr⟩
        obtain rfl := Option.some.inj (hserved.symm.trans ha')
        obtain rfl := Option.some.inj (ht.symm.trans ht')
        have hsame : s' = s := List.inj_on_of_nodup_map hagrees.nodup hs' hs hid'
        rw [hsame, hok] at herr
        cases herr
      · exact absurd (congrArg SubscriberRecordKey.id hkey) hid
    · rintro ⟨hr, hok⟩
      have hmem : topic ∈ m.topicAdapter :=
        h.topic ⟨topic, id⟩ (mem_iff_isSome_getElem?.mpr (by simp [hr]))
      obtain ⟨a, ha⟩ := mem_topicAdapter_iff.mp hmem
      obtain ⟨t, ht, rfl, hentry, _⟩ := h.servant topic a ha
      obtain ⟨s, hs, rfl, rfl⟩ := ((h.agrees _ a t ha ht).records id r).mpr ⟨hid, hr⟩
      have hsok : s.errored = false := by
        rw [← Bool.not_eq_true]
        intro herr
        exact hok ⟨a, t, ha, ht, s, hs, rfl, herr⟩
      have hsent : s.record ∈ t.getContent := TopicImpl.mem_getContent.mpr ⟨s, hs, hsok, rfl⟩
      exact ⟨_, mem_topicContents.mpr ⟨t.name, a, t, hentry, ht, rfl⟩,
        .inl ⟨s.record, hsent, rfl, rfl⟩⟩

end

theorem Database.getLLU_initContent (llu : LogUpdate) (content : List TopicContent)
    (db : Database) : (db.initContent llu content).getLLU = llu := by
  have hput : ∀ (q : TopicContent) (db : Database), (db.putContent q).getLLU = db.getLLU := by
    intro q db
    have hrecords : ∀ (records : List SubscriberRecord) (db : Database),
        (records.foldl (fun db r => db.put ⟨q.id, r.id⟩ r) db).getLLU = db.getLLU := by
      intro records
      induction records with
      | nil =>
        intro db
        rfl
      | cons r records ih =>
        intro db
        exact ih _
    exact hrecords q.records _
  have hfold : ∀ (content : List TopicContent) (db : Database),
      (content.foldl (fun db q => db.putContent q) db).getLLU = db.getLLU := by
    intro content
    induction content with
    | nil =>
      intro db
      rfl
    | cons q content ih =>
      intro db
      exact (ih _).trans (hput q db)
  rw [initContent, hfold]
  exact getLLU_putLLU llu db

/-- The content of the store does not depend on what it held before. -/
theorem Database.initContent_subscriberMap (llu : LogUpdate) (content : List TopicContent)
    (db : Database) : (db.initContent llu content).subscriberMap =
      (Database.empty.initContent llu content).subscriberMap := by
  have hput : ∀ (q : TopicContent) (db db' : Database), db.subscriberMap = db'.subscriberMap →
      (db.putContent q).subscriberMap = (db'.putContent q).subscriberMap := by
    intro q db db' h
    have hrecords : ∀ (records : List SubscriberRecord) (db db' : Database),
        db.subscriberMap = db'.subscriberMap →
          (records.foldl (fun db r => db.put ⟨q.id, r.id⟩ r) db).subscriberMap =
            (records.foldl (fun db r => db.put ⟨q.id, r.id⟩ r) db').subscriberMap := by
      intro records
      induction records with
      | nil =>
        intro db db' h
        exact h
      | cons r records ih =>
        intro db db' h
        apply ih
        simp only [put, h]
    apply hrecords
    simp only [putTopic, put, h]
  have hfold : ∀ (content : List TopicContent) (db db' : Database),
      db.subscriberMap = db'.subscriberMap →
        (content.foldl (fun db q => db.putContent q) db).subscriberMap =
          (content.foldl (fun db q => db.putContent q) db').subscriberMap := by
    intro content
    induction content with
    | nil =>
      intro db db' h
      exact h
    | cons q content ih =>
      intro db db' h
      exact ih _ _ (hput q db db' h)
  exact hfold content _ _ rfl

section

variable {m m' : TopicManagerImpl} {a : Nat} {t : TopicImpl} {f : Faults} {llu : LogUpdate}
  {content : List TopicContent}

/-- Programs that leave the database as it is. -/
private theorem keeps_getTopic {α : Type} {db : Database} {k : TopicImpl → StormM α}
    (hk : ∀ t, Keeps (fun m : TopicManagerImpl => m.db = db) (k t)) :
    Keeps (fun m : TopicManagerImpl => m.db = db) (getTopic a >>= k) := by
  refine Keeps.bind (Keeps.get.bind fun m => ?_) hk
  split
  · exact Keeps.pure
  · exact Keeps.throw

private theorem keeps_update {db : Database} {records : List SubscriberRecord} :
    Keeps (fun m : TopicManagerImpl => m.db = db) (TopicImpl.update a records) := by
  have hadd : ∀ record, Keeps (fun m : TopicManagerImpl => m.db = db)
      (updateAdd a record) := by
    intro record
    unfold updateAdd
    refine keeps_getTopic fun t => Keeps.ite (Spec.of_forall fun m hm => ?_) Keeps.pure
    exact create_bind (fun _ _ => hm) fun s pa _ _ => modifyTopic_spec hm
  have hremove : Keeps (fun m : TopicManagerImpl => m.db = db)
      (updateRemove a records) := by
    unfold updateRemove
    refine keeps_getTopic fun t => Spec.of_forall fun m hm => ?_
    exact destroyAll_bind fun _ _ => modifyTopic_spec hm
  exact hremove.bind fun _ => Keeps.forM fun record _ => hadd record

private theorem keeps_initInstall {db : Database} {q : TopicContent} :
    Keeps (fun m : TopicManagerImpl => m.db = db) (initInstall q) := by
  unfold initInstall
  refine Spec.of_forall fun m hm => get_bind ?_
  cases m.topics[identityToTopicName q.id]? with
  | none =>
    apply installTopic_bind (fun _ _ => hm) fun _ _ _ _ => hm
    intro pa subscribers _ _
    apply Spec.pure
    rintro s rfl
    exact hm
  | some a =>
    have hupdate : Keeps (fun s : TopicManagerImpl => s.db = m.db)
        (TopicImpl.update a q.records) := keeps_update
    exact hupdate.conseq (fun _ hs => hs ▸ rfl) (fun _ _ hs => hs.trans hm)
      fun _ _ hs => hs.trans hm

/-- The first scan deletes no record: the topics that it destroys are not stored. -/
private theorem stores_initRemove {db : Database}
    (hdb : ∀ id, placeholder id ∈ db.subscriberMap ↔
      ∃ q ∈ content, q.id = id) (e : String × Nat) :
    Spec (fun m : TopicManagerImpl => m.db.subscriberMap = db.subscriberMap ∧ m.db.getLLU = llu)
      (initRemove f llu content e)
      (fun _ m => m.db.subscriberMap = db.subscriberMap ∧ m.db.getLLU = llu)
      (fun _ _ => True) := by
  refine Spec.of_forall fun m hm => ?_
  cases ht : m.objects[e.2]? with
  | none =>
    unfold initRemove getTopic
    rw [bind_assoc]
    refine get_bind ?_
    rw [ht]
    intro s _
    trivial
  | some t =>
    apply initRemove_spec ht
    · exact fun _ => hm
    · exact fun _ _ => hm
    · exact fun _ _ _ => trivial
    · intro hin pa _ _
      have hnp : placeholder t.id ∉ m.db.subscriberMap := by
        rw [hm.1, hdb]
        exact hin
      refine ⟨?_, Database.getLLU_putLLU ..⟩
      change (m.db.delTopic t.id).subscriberMap = _
      rw [Database.delTopic_of_notMem hnp, hm.1]

/-- A slave whose `observerInit` returns has stored what it was sent, whatever it held. -/
theorem observerInit_ok {s s' : TopicManagerImpl}
    (h : observerInit f llu content s = .ok () s') :
    s'.db.subscriberMap = (Database.empty.initContent llu content).subscriberMap ∧
      s'.db.getLLU = llu := by
  let db := s.db.initContent llu content
  have hdb : ∀ id, placeholder id ∈ db.subscriberMap ↔
      ∃ q ∈ content, q.id = id := fun _ => Database.placeholder_mem_initContent
  let I (m : TopicManagerImpl) : Prop := m.db.subscriberMap = db.subscriberMap ∧ m.db.getLLU = llu
  have hspec : Spec (· = s) (observerInit f llu content)
      (fun _ => I) fun _ _ => True := by
    unfold observerInit
    refine transaction_bind (fun _ => trivial) fun _ => get_bind ?_
    have hscan := Spec.forM (I := fun _ => I) s.topics.toList
      fun e _ => stores_initRemove (f := f) hdb e
    have hstart : I { s with db := db } := ⟨rfl, Database.getLLU_initContent ..⟩
    refine Spec.bind (hscan.conseq (fun m hm => hm ▸ hstart) (fun _ _ hm => hm)
      fun _ _ _ => trivial) fun _ => Spec.of_forall fun m hm => ?_
    have hfill : Keeps (fun x : TopicManagerImpl => x.db = m.db)
        (content.forM initInstall) := Keeps.forM fun q _ => keeps_initInstall
    refine hfill.conseq (fun x hx => hx ▸ rfl) (fun _ x hx => ?_) fun _ _ _ => trivial
    change x.db.subscriberMap = _ ∧ x.db.getLLU = llu
    rw [hx]
    exact hm
  obtain ⟨hmap, hllu⟩ := hspec.of_ok rfl h
  exact ⟨hmap.trans (Database.initContent_subscriberMap ..), hllu⟩

/-- A publish of the master removes the subscribers in error with their records. -/
theorem Synced.publish_removes (h : Synced m) (ha : m.topicAdapter[t.id]? = some a)
    (ht : m.objects[a]? = some t) {x : Subscriber} (hx : x ∈ t.subscribers)
    (herr : x.state = .error) (hf : f.database = false) (now : Int) (events : List EventData)
    (outcomes : List (List SendOutcome)) :
    let m' := final (publish a f true now false events outcomes) m
    (⟨t.id, x.id⟩ : SubscriberRecordKey) ∉ m'.db.subscriberMap ∧
      ∃ t', m'.objects[a]? = some t' ∧ t'.findSubscriber x.id = none := by
  have hagrees := h.agrees _ a t ha ht
  let pairs := t.subscribers.zip (outcomes ++ List.replicate t.subscribers.length [])
  let queued := pairs.map fun p => TopicImpl.queueOne m.inst now false events p.2 p.1
  let ids := queued.filterMap Prod.snd
  let t₁ : TopicImpl := { t with subscribers := queued.map Prod.fst }
  have hpairs : pairs.map Prod.fst = t.subscribers := by
    apply List.map_fst_zip
    simp
  have hids : t₁.subscribers.map Subscriber.id = t.subscribers.map Subscriber.id := by
    rw [← hpairs]
    simp only [t₁, queued, List.map_map]
    apply List.map_congr_left
    intro p _
    exact congrArg SubscriberRecord.id TopicImpl.queueOne_record
  have hmem : x.id ∈ ids := by
    obtain ⟨p, hp, rfl⟩ := List.mem_map.mp (hpairs ▸ hx)
    apply List.mem_filterMap.mpr
    exact ⟨_, List.mem_map_of_mem hp, TopicImpl.queueOne_error herr⟩
  have hstored : (ids.any fun id => m.db.find ⟨t.id, id⟩) = true := by
    have hrecord := ((hagrees.records x.id x.record).mp ⟨x, hx, rfl, rfl⟩).2
    refine List.any_eq_true.mpr ⟨x.id, hmem, contains_iff_mem.mpr ?_⟩
    exact mem_iff_isSome_getElem?.mpr (by simp [hrecord])
  let P (s : TopicManagerImpl) : Prop :=
    (⟨t.id, x.id⟩ : SubscriberRecordKey) ∉ s.db.subscriberMap ∧
      ∃ t', s.objects[a]? = some t' ∧ t'.findSubscriber x.id = none
  have hspec : Spec (· = m) (publish a f true now false events outcomes)
      (fun _ => P) fun _ => P := by
    have hne : ids.isEmpty = false := by
      rw [List.isEmpty_eq_false_iff]
      exact List.ne_nil_of_mem hmem
    unfold publish
    apply get_bind
    apply getTopic_bind ht
    apply modifyTopic_bind
    change Spec _ (if ids.isEmpty = true then _ else _) _ _
    rw [hne]
    simp only [Bool.false_eq_true, if_false, if_true]
    -- too few observers do not bring the subscriber back
    have hremoved : ∀ pa llu, P { m with
        db := (m.db.delSubscribers t.id ids).putLLU llu
        objects := (m.objects.modify a fun t =>
          { t with subscribers := queued.map Prod.fst }).modify a (TopicImpl.eraseSubscribers ids)
        publishAdapter := pa } := by
      intro pa llu
      constructor
      · intro hin
        exact (Database.mem_delSubscribers.mp hin).2 ⟨rfl, hmem⟩
      · refine ⟨t₁.eraseSubscribers ids, by simp [ht, t₁], ?_⟩
        rw [findSubscriber_eq_none, eraseSubscribers_subscribers ids (hids ▸ hagrees.nodup)]
        intro s hs heq
        have hnot := (List.mem_filter.mp hs).2
        rw [heq] at hnot
        simp [hmem] at hnot
    apply removeSubscribers_bind (t := t₁) (by simp [ht, t₁, queued, pairs])
    · intro hf'
      rw [hf] at hf'
      cases hf'
    · intro hnone
      rw [hstored] at hnone
      cases hnone
    · exact hremoved
    · intro pa llu
      apply Spec.pure
      rintro s rfl
      exact hremoved pa llu
  exact hspec.final rfl

/-- After `initMaster` the slaves store what the master does, but for its subscribers in
error, and a publish of the master on their topic removes those in the error state. -/
theorem initMaster_mirrors (h : Synced m)
    (hinit : initMaster f llu m = .ok content m') :
    Synced m' ∧
      (∀ (s s' : TopicManagerImpl) (f' : Faults),
        observerInit f' llu content s = .ok () s' →
          m'.Mirrors s'.db ∧ (Synced s → Initializable s f' content → s'.MemoryAgrees)) ∧
      ∀ (m₂ : TopicManagerImpl) (a : Nat) (t : TopicImpl) (x : Subscriber), Synced m₂ →
        m₂.topicAdapter[t.id]? = some a → m₂.objects[a]? = some t → x ∈ t.subscribers →
          x.state = .error → ∀ (f' : Faults) (now : Int) (events : List EventData)
            (outcomes : List (List SendOutcome)), f'.database = false →
              let m₃ := final (publish a f' true now false events outcomes) m₂
              (⟨t.id, x.id⟩ : SubscriberRecordKey) ∉ m₃.db.subscriberMap ∧
                ∃ t', m₃.objects[a]? = some t' ∧ t'.findSubscriber x.id = none := by
  obtain ⟨rfl, rfl⟩ := initMaster_ok hinit
  have hreaped : Synced { m.reaped with db := m.db.putLLU llu } := h.reap.putLLU llu
  refine ⟨hreaped, fun s s' f' hslave => ⟨?_, fun hs hok => ?_⟩, ?_⟩
  · obtain ⟨hmap, hllu⟩ := observerInit_ok hslave
    exact hreaped.mirrors rfl (hllu.trans (Database.getLLU_putLLU llu m.db).symm) hmap
  · have hsynced : Synced (final (observerInit f' llu _) s) :=
      hs.observerInit fun _ => hok
    have hfinal : final (observerInit f' llu m.reaped.topicContents) s = s' := by
      unfold Lib.final
      rw [hslave]
    exact (hfinal ▸ hsynced).memoryAgrees
  · intro m₂ a t x hm₂ ha ht hx herr f' now events outcomes hf
    exact hm₂.publish_removes ha ht hx herr hf now events outcomes

end

/-- A master with one subscriber initialises a slave without topics. -/
theorem initMaster_mirrors_subscribed :
    ∃ m' s' : TopicManagerImpl, m'.db.subscriberMap.size = 2 ∧ m'.Mirrors s'.db := by
  let m' := final (initMaster .none ⟨1, 0⟩) subscribedExample
  have hm : returns (initMaster .none ⟨1, 0⟩) subscribedExample = true := by decide
  obtain ⟨content, hinit⟩ := eq_ok_of_returns hm
  let s' := final (observerInit .none ⟨1, 0⟩ subscribedExample.topicContents)
    (.started .defaults)
  have hs : returns (observerInit .none ⟨1, 0⟩ subscribedExample.topicContents)
      (.started .defaults) = true := by decide +kernel
  obtain ⟨_, hslave⟩ := eq_ok_of_returns hs
  have hcontent : content = subscribedExample.topicContents := (initMaster_ok hinit).1
  refine ⟨m', s', by decide, ?_⟩
  have hsynced := synced_of_reach .defaults reach_subscribedExample
  exact ((initMaster_mirrors hsynced hinit).2.1 (.started .defaults) s' .none (hcontent ▸ hslave)).1

/-- The record of a subscriber in error is stored by the master and not by the slaves. -/
theorem exists_unmirrored :
    ¬ ∀ (m m' s s' : TopicManagerImpl) (f f' : Faults) (llu : LogUpdate)
        (content : List TopicContent), initMaster f llu m = .ok content m' →
      observerInit f' llu content s = .ok () s' →
        ∀ k : SubscriberRecordKey, s'.db.subscriberMap[k]? = m'.db.subscriberMap[k]? := by
  intro h
  let topic : Identity := ⟨"topic.t", "IceStorm"⟩
  -- the first event finds that the subscriber is gone
  let m := final (publish 0 .none true 0 false [⟨"tick", 0, [], []⟩]
    [[.failed .objectNotExist]]) subscribedExample
  let m' := final (initMaster .none ⟨1, 0⟩) m
  have hm : initMaster .none ⟨1, 0⟩ m = .ok [⟨topic, []⟩] m' := by
    have hreturns : returns (initMaster .none ⟨1, 0⟩) m = true := by decide
    obtain ⟨content, hinit⟩ := eq_ok_of_returns hreturns
    have hsent : m.reaped.topicContents = [⟨topic, []⟩] := by decide
    rw [hinit, (initMaster_ok hinit).1, hsent]
  let s' := final (observerInit .none ⟨1, 0⟩ [⟨topic, []⟩]) (.started .defaults)
  have hreturns : returns (observerInit .none ⟨1, 0⟩ [⟨topic, []⟩])
      (.started .defaults) = true := by decide +kernel
  obtain ⟨_, hs⟩ := eq_ok_of_returns hreturns
  have hsame := h m m' (.started .defaults) s' .none .none ⟨1, 0⟩ [⟨topic, []⟩] hm hs
    ⟨topic, ⟨"s", ""⟩⟩
  have hmaster : m'.db.find ⟨topic, ⟨"s", ""⟩⟩ = true := by decide
  have hslave : s'.db.find ⟨topic, ⟨"s", ""⟩⟩ = false := by decide +kernel
  have hmem := mem_iff_isSome_getElem?.mp (contains_iff_mem.mp hmaster)
  rw [← hsame, ← mem_iff_isSome_getElem?, ← contains_iff_mem] at hmem
  rw [Database.find, hmem] at hslave
  cases hslave

end Ice.IceStorm
