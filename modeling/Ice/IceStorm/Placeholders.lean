import Ice.Lib.Segments
import Ice.IceStorm.Restart

/-!
# Placeholder records

Requests run on topic objects in any order, also on objects that were destroyed since
the request was dispatched. `unlink` and `destroy` look at `_destroyed`, but a
subscription does not: it stores a record under a topic whose placeholder is gone.
Where additions run on topics that still have a servant, every record belongs to a
topic with a placeholder.
-/

namespace Ice.IceStorm

open Ice.Lib IceStormElection
open Std.ExtTreeMap (contains_iff_mem getElem?_erase mem_iff_isSome_getElem?
  mem_toList_iff_getElem?_eq_some)
open TopicOperation (adds)
open Spec (of_forall)
open Option (some.inj)
open TopicManagerImpl (destroyTopic findTopic initInstall)
open Database (delTopic_of_notMem mem_delTopic mem_initContent mem_put)

/-- Every record belongs to a stored topic, and a restart reads it as such. -/
structure Database.NoOrphans (db : Database) : Prop where
  /-- The topic of each key has its placeholder. -/
  placeholder : ∀ k ∈ db.subscriberMap,
    SubscriberRecordKey.placeholder k.topic ∈ db.subscriberMap
  /-- The record read first for a topic is the placeholder. -/
  first : ∀ g ∈ Database.cutTopics db.subscriberMap.toList,
    ∃ topic v, g.head? = some (.placeholder topic, v)
  /-- A topic that is recreated has not been destroyed. -/
  recreated : ∀ q ∈ db.loadTopics, SubscriberRecordKey.placeholder q.id ∈ db.subscriberMap

/-- The topic is the major part of the key. -/
theorem convex_topic : Convex
    (fun x y : SubscriberRecordKey × SubscriberRecord => compare x.1 y.1 = .lt)
    fun x => x.1.topic := by
  intro x y z hxy hyz hxz
  change x.1.topic = z.1.topic at hxz
  rcases SubscriberRecordKey.compare_eq_lt.mp hxy with h | ⟨h, _⟩
  · rcases SubscriberRecordKey.compare_eq_lt.mp hyz with h' | ⟨h', _⟩
    · have htrans : compare x.1.topic z.1.topic = .lt := Std.TransCmp.lt_trans h h'
      rw [hxz] at htrans
      exact absurd htrans (by simp)
    · exact hxz.trans h'.symm
  · exact h

/-- Where every topic has its placeholder, the first record of a topic is that. -/
theorem Database.noOrphans_of_placeholder {db : Database}
    (h : ∀ k ∈ db.subscriberMap, SubscriberRecordKey.placeholder k.topic ∈ db.subscriberMap) :
    db.NoOrphans := by
  have hmem : ∀ x ∈ db.subscriberMap.toList, x.1 ∈ db.subscriberMap := by
    intro x hx
    refine mem_iff_isSome_getElem?.mpr ?_
    rw [mem_toList_iff_getElem?_eq_some.mp hx]
    rfl
  have hin : ∀ g ∈ cutTopics db.subscriberMap.toList, ∀ x ∈ g, x ∈ db.subscriberMap.toList := by
    intro g hg x hx
    rw [← List.flatten_splitBy (fun x y => decide (x.1.topic = y.1.topic))
      db.subscriberMap.toList]
    exact List.mem_flatten.mpr ⟨g, hg, hx⟩
  refine ⟨h, fun g hg => ?_, fun q hq => ?_⟩
  · cases hg' : g with
    | nil => exact absurd hg' (List.ne_nil_of_mem_splitBy hg)
    | cons x rest =>
      have hx : x ∈ db.subscriberMap.toList := hin g hg x (by simp [hg'])
      have hp := h x.1 (hmem x hx)
      obtain ⟨v, hv⟩ := Option.isSome_iff_exists.mp
        (mem_iff_isSome_getElem?.mp hp)
      have hpmem := mem_toList_iff_getElem?_eq_some.mpr hv
      rcases head_splitBy_least Std.ExtTreeMap.ordered_keys_toList convex_topic hg
        (z := x) (by simp [hg']) hpmem rfl with heq | hlt
      · exact ⟨x.1.topic, v, by rw [← heq]; rfl⟩
      · exact absurd hlt SubscriberRecordKey.not_lt_placeholder
  · obtain ⟨g, hg, hq⟩ := List.mem_filterMap.mp hq
    cases g with
    | nil => cases hq
    | cons x rest =>
      obtain rfl := some.inj hq
      exact h x.1 (hmem x (hin _ hg x (List.mem_cons_self ..)))

/-- Every record and every servant belongs to a stored topic. -/
structure Rooted (m : TopicManagerImpl) : Prop where
  placeholder : ∀ k ∈ m.db.subscriberMap,
    SubscriberRecordKey.placeholder k.topic ∈ m.db.subscriberMap
  servant : ∀ id ∈ m.topicAdapter, SubscriberRecordKey.placeholder id ∈ m.db.subscriberMap
  entry : m.EntriesExist

/-- Some topic in `_topics` has the identity, and no one has tried to destroy it. -/
def TopicManagerImpl.Destroyable (m : TopicManagerImpl) (id : Identity) : Prop :=
  ∃ (name : String) (a : Nat) (t : TopicImpl), m.topics[name]? = some a ∧ m.objects[a]? = some t ∧
    t.id = id ∧ t.destroyed = false

/-- Where the placeholders stay with their records: removals name no empty identity,
additions run on a topic that still has a servant, and `observerInit` can destroy
the topics that the content leaves out. -/
def KeepsPlaceholders (m : TopicManagerImpl) : Request → Prop
  | .topic a op =>
    op.Proper ∧ (op.adds = true → ∀ t, m.objects[a]? = some t → t.id ∈ m.topicAdapter)
  | .manager (.observerAddSubscriber _ _ name record) =>
    record.id ≠ .empty ∧ ∀ (a : Nat) (t : TopicImpl), m.topics[name]? = some a →
      m.objects[a]? = some t → t.id ∈ m.topicAdapter
  | .manager (.observerRemoveSubscriber _ _ _ ids) => Identity.empty ∉ ids
  | .manager (.observerInit f _ content) =>
    f.database = false → (∀ id ∈ f.destroys, ∃ q ∈ content, q.id = id) ∧
      ∀ id ∈ m.topicAdapter, (∃ q ∈ content, q.id = id) ∨ m.Destroyable id
  | _ => True

section Steps

variable {m m' : TopicManagerImpl} {a : Nat} {t : TopicImpl} {op : TopicOperation}

theorem Rooted.topicEffect (h : Rooted m)
    (hadd : op.adds = true → t.id ∈ m.topicAdapter) (he : TopicEffect op a t m m') :
    Rooted m' := by
  cases he with
  | idle pa => exact ⟨h.placeholder, h.servant, h.entry⟩
  | add s llu pa hop hnew hid =>
    have ht := h.servant _ (hadd hop)
    refine ⟨fun k hk => ?_, fun id hid => ?_, ?_⟩
    · rcases mem_put.mp hk with rfl | hk
      · exact mem_put.mpr (.inr ht)
      · exact mem_put.mpr (.inr (h.placeholder k hk))
    · exact mem_put.mpr (.inr (h.servant id hid))
    · simpa [TopicManagerImpl.EntriesExist] using h.entry
  | remove ids llu pa hop hids =>
    have hkeep : ∀ id, SubscriberRecordKey.placeholder id ∈ m.db.subscriberMap →
        SubscriberRecordKey.placeholder id ∈ (m.db.delSubscribers t.id ids).subscriberMap :=
      fun id hid => Database.mem_delSubscribers.mpr ⟨hid, fun hdel => hids hdel.2⟩
    refine ⟨fun k hk => ?_, fun id hid => hkeep id (h.servant id hid),
      by simpa [TopicManagerImpl.EntriesExist] using h.entry⟩
    exact hkeep _ (h.placeholder k (Database.mem_delSubscribers.mp hk).1)
  | mark hop hd =>
    exact ⟨h.placeholder, h.servant, by simpa [TopicManagerImpl.EntriesExist] using h.entry⟩
  | destroy llu pa hd =>
    have hentry : (m.destroyTopic a t llu pa).EntriesExist := by
      simpa [destroyTopic, TopicManagerImpl.EntriesExist] using h.entry
    by_cases hp : SubscriberRecordKey.placeholder t.id ∈ m.db.subscriberMap
    · refine ⟨fun k hk => ?_, fun id hid => ?_, hentry⟩
      · obtain ⟨hk, hne⟩ := (mem_delTopic hp).mp hk
        exact (mem_delTopic hp).mpr ⟨h.placeholder k hk, hne⟩
      · obtain ⟨hne, hid⟩ := Std.ExtTreeMap.mem_erase.mp hid
        refine (mem_delTopic hp).mpr ⟨h.servant id hid, fun heq => ?_⟩
        exact hne (Std.compare_eq_iff_eq.mpr heq.symm)
    · refine ⟨?_, ?_, hentry⟩
      · simpa only [destroyTopic, Database.subscriberMap_putLLU,
          delTopic_of_notMem hp]
          using h.placeholder
      · intro id hid
        simpa only [destroyTopic, Database.subscriberMap_putLLU,
          delTopic_of_notMem hp]
          using h.servant id (Std.ExtTreeMap.mem_erase.mp hid).2

/-- The invariant over a database that stays as it is. -/
private def RootedOver (db : Database) (m : TopicManagerImpl) : Prop := Rooted m ∧ m.db = db

variable {db : Database} {id : Identity} {name : String} {records : List SubscriberRecord}
  {f : Faults} {llu : LogUpdate}

private theorem RootedOver.adapter (h : RootedOver db m) (pa : List Identity) :
    RootedOver db { m with publishAdapter := pa } :=
  ⟨⟨h.1.placeholder, h.1.servant, h.1.entry⟩, h.2⟩

private theorem RootedOver.install (h : RootedOver db m) (t : TopicImpl) (pa : List Identity) :
    RootedOver db { m.install t with publishAdapter := pa } := by
  exact ⟨⟨h.1.placeholder, h.1.servant, h.1.entry.install t⟩, h.2⟩

/-- A topic whose placeholder is stored may be installed. -/
private theorem rootedOver_installTopic
    (hp : SubscriberRecordKey.placeholder id ∈ db.subscriberMap) :
    Keeps (RootedOver db) (TopicManagerImpl.installTopic name id records) := by
  refine of_forall fun m hm => ?_
  rw [← bind_pure (TopicManagerImpl.installTopic name id records)]
  refine installTopic_bind (fun _ pa => hm.adapter pa) (fun _ pa _ _ => hm.install _ pa)
    fun pa subscribers _ _ => Spec.pure ?_
  rintro s rfl
  have hentry := hm.install ⟨name, id, false, subscribers⟩ pa
  refine ⟨⟨hentry.1.placeholder, fun id' hid => ?_, hentry.1.entry⟩, hentry.2⟩
  rcases Std.ExtTreeMap.mem_insert.mp hid with hid | hid
  · rw [← Std.compare_eq_iff_eq.mp hid]
    exact hm.2 ▸ hp
  · exact hm.1.servant id' hid

private theorem Rooted.installTopic (h : Rooted m)
    (hp : SubscriberRecordKey.placeholder id ∈ m.db.subscriberMap) :
    Spec (· = m) (TopicManagerImpl.installTopic name id records) (fun _ => Rooted)
      fun _ => Rooted := by
  refine (rootedOver_installTopic hp).conseq ?_ (fun _ _ hs => hs.1) fun _ _ hs => hs.1
  rintro s rfl
  exact ⟨h, rfl⟩

/-- `update` of a topic object leaves the store as it is. -/
private theorem rootedOver_update : Keeps (RootedOver db) (TopicImpl.update a records) := by
  have hmodify : ∀ (m : TopicManagerImpl) (g : TopicImpl → TopicImpl), RootedOver db m →
      RootedOver db { m with objects := m.objects.modify a g } :=
    fun m g h => ⟨⟨h.1.placeholder, h.1.servant,
      by simpa [TopicManagerImpl.EntriesExist] using h.1.entry⟩, h.2⟩
  have hget : ∀ {α : Type} (k : TopicImpl → StormM α),
      (∀ t, Keeps (RootedOver db) (k t)) → Keeps (RootedOver db) (getTopic a >>= k) := by
    intro α k hk
    refine Keeps.bind (Keeps.bind Keeps.get fun m => ?_) hk
    split
    · exact Keeps.pure
    · exact Keeps.throw
  have hadd : ∀ record, Keeps (RootedOver db) (TopicImpl.updateAdd a record) := by
    intro record
    unfold TopicImpl.updateAdd
    refine hget _ fun t => Keeps.ite (of_forall fun m hm => ?_) Keeps.pure
    refine create_bind (fun _ pa => hm.adapter pa) fun s pa _ _ => modifyTopic_spec ?_
    exact hmodify _ _ (hm.adapter pa)
  have hremove : Keeps (RootedOver db) (TopicImpl.updateRemove a records) := by
    unfold TopicImpl.updateRemove
    refine hget _ fun t => of_forall fun m hm => ?_
    refine destroyAll_bind fun pa _ => modifyTopic_spec ?_
    exact hmodify _ _ (hm.adapter pa)
  exact hremove.bind fun _ => Keeps.forM fun record _ => hadd record

/-- What the first scan keeps: a servant has its placeholder, or a topic that is still
to be visited goes with it. -/
private structure Scanning (db : Database) (rest : List (String × Nat))
    (m : TopicManagerImpl) : Prop where
  stored : m.db.subscriberMap = db.subscriberMap
  servant : ∀ id ∈ m.topicAdapter, SubscriberRecordKey.placeholder id ∈ db.subscriberMap ∨
    ∃ e ∈ rest, ∃ t : TopicImpl, m.objects[e.2]? = some t ∧ t.id = id ∧ t.destroyed = false
  visit : ∀ e ∈ rest, e.2 < m.objects.length
  entry : m.EntriesExist

variable {content : List TopicContent}

/-- The first scan at one topic, over a database that was made from `content`. -/
private theorem scanning_initRemove (llu : LogUpdate)
    (hdb : ∀ id, SubscriberRecordKey.placeholder id ∈ db.subscriberMap ↔ ∃ q ∈ content, q.id = id)
    (hf : ∀ id ∈ f.destroys, ∃ q ∈ content, q.id = id) (e : String × Nat)
    (rest : List (String × Nat)) :
    Spec (Scanning db (e :: rest)) (TopicManagerImpl.initRemove f llu content e)
      (fun _ => Scanning db rest) (fun _ _ => False) := by
  refine of_forall fun m hm => ?_
  obtain ⟨t, ht⟩ : ∃ t, m.objects[e.2]? = some t :=
    ⟨_, List.getElem?_eq_getElem (hm.visit e (List.mem_cons_self ..))⟩
  apply initRemove_spec ht
  · intro hin
    refine ⟨hm.stored, fun id hid => ?_, fun e' he' => hm.visit e' (List.mem_cons_of_mem e he'),
      hm.entry⟩
    rcases hm.servant id hid with hp | ⟨e', he', t', ht', hid', hd'⟩
    · exact .inl hp
    · rcases List.mem_cons.mp he' with rfl | he'
      · obtain rfl : t = t' := some.inj (ht.symm.trans ht')
        exact .inl ((hdb id).mpr (hid' ▸ hin))
      · exact .inr ⟨e', he', t', ht', hid', hd'⟩
  · intro _ hd
    refine ⟨hm.stored, fun id hid => ?_, fun e' he' => hm.visit e' (List.mem_cons_of_mem e he'),
      fun name a ha => ?_⟩
    · rcases hm.servant id hid with hp | ⟨e', he', t', ht', hid', hd'⟩
      · exact .inl hp
      · rcases List.mem_cons.mp he' with rfl | he'
        · obtain rfl : t = t' := some.inj (ht.symm.trans ht')
          rw [hd] at hd'
          cases hd'
        · exact .inr ⟨e', he', t', ht', hid', hd'⟩
    · rw [getElem?_erase] at ha
      split_ifs at ha
      exact hm.entry name a ha
  · exact fun hin hc _ => hin (hf _ hc)
  · intro hin pa _ hd
    have hnp : SubscriberRecordKey.placeholder t.id ∉ m.db.subscriberMap := by
      rw [hm.stored]
      exact fun hc => hin ((hdb _).mp hc)
    refine ⟨?_, fun id hid => ?_, fun e' he' => ?_, fun name a ha => ?_⟩
    · change (m.db.delTopic t.id).subscriberMap = _
      rw [delTopic_of_notMem hnp, hm.stored]
    · obtain ⟨hne, hid⟩ := Std.ExtTreeMap.mem_erase.mp hid
      rcases hm.servant id hid with hp | ⟨e', he', t', ht', hid', hd'⟩
      · exact .inl hp
      · have hother : e.2 ≠ e'.2 := by
          intro heq
          rw [← heq, ht] at ht'
          obtain rfl := some.inj ht'
          exact hne (Std.compare_eq_iff_eq.mpr hid')
        have he' : e' ∈ rest := (List.mem_cons.mp he').resolve_left fun h => hother (h ▸ rfl)
        refine .inr ⟨e', he', t', ?_, hid', hd'⟩
        simpa [destroyTopic, List.getElem?_modify, hother] using ht'
    · simpa [destroyTopic] using hm.visit e' (List.mem_cons_of_mem e he')
    · rw [getElem?_erase] at ha
      split_ifs at ha
      simpa [destroyTopic] using hm.entry name a ha

/-- The second scan at one topic. -/
private theorem rootedOver_initInstall {q : TopicContent}
    (hq : SubscriberRecordKey.placeholder q.id ∈ db.subscriberMap) :
    Keeps (RootedOver db) (initInstall q) := by
  unfold initInstall
  refine Keeps.get.bind fun m => ?_
  cases m.topics[identityToTopicName q.id]? with
  | none => exact (rootedOver_installTopic hq).bind fun _ => Keeps.pure
  | some a => exact rootedOver_update

private theorem rooted_observerInit (h : Rooted m)
    (hok : KeepsPlaceholders m (.manager (.observerInit f llu content))) :
    Rooted (final (TopicManagerImpl.observerInit f llu content) m) := by
  refine Spec.final (P := (· = m)) ?_ rfl
  unfold TopicManagerImpl.observerInit
  refine transaction_bind (fun _ => h) fun hfails => get_bind ?_
  obtain ⟨hf, hleft⟩ := hok hfails
  have hdb : ∀ id, SubscriberRecordKey.placeholder id ∈
      (m.db.initContent llu content).subscriberMap ↔ ∃ q ∈ content, q.id = id :=
    fun _ => Database.placeholder_mem_initContent
  have hstart : Scanning (m.db.initContent llu content) m.topics.toList
      { m with db := m.db.initContent llu content } := by
    refine ⟨rfl, fun id hid => ?_, fun e he => ?_, h.entry⟩
    · rcases hleft id hid with hin | ⟨name, a, t, hname, ha, hid, hd⟩
      · exact .inl ((hdb id).mpr hin)
      · refine .inr ⟨(name, a), ?_, t, ha, hid, hd⟩
        exact mem_toList_iff_getElem?_eq_some.mpr hname
    · exact h.entry e.1 e.2 (mem_toList_iff_getElem?_eq_some.mp he)
  have hscan := Spec.forM m.topics.toList (scanning_initRemove llu hdb hf)
  refine Spec.bind (hscan.conseq (fun s hs => hs ▸ hstart) (fun _ _ hs => hs)
    fun _ _ hs => hs.elim) fun _ => of_forall fun s hs => ?_
  have hplaceholder : ∀ k ∈ s.db.subscriberMap,
      SubscriberRecordKey.placeholder k.topic ∈ s.db.subscriberMap := by
    intro k hk
    rw [hs.stored] at hk ⊢
    obtain ⟨q, hq, rfl | ⟨r, _, rfl⟩⟩ := mem_initContent.mp hk
    · exact (hdb _).mpr ⟨q, hq, rfl⟩
    · exact (hdb _).mpr ⟨q, hq, rfl⟩
  have hrooted : RootedOver s.db s := by
    refine ⟨⟨hplaceholder, fun id hid => ?_, hs.entry⟩, rfl⟩
    rcases hs.servant id hid with hp | ⟨e, he, _⟩
    · exact hs.stored ▸ hp
    · cases he
  have hloop : Keeps (RootedOver s.db) (content.forM initInstall) :=
    Keeps.forM fun q hq => rootedOver_initInstall (hs.stored ▸ (hdb q.id).mpr ⟨q, hq, rfl⟩)
  exact hloop.conseq (fun _ ht => ht ▸ hrooted) (fun _ _ ht => ht.1) fun _ _ ht => ht.1

private theorem rooted_reap : Keeps Rooted TopicManagerImpl.reap := by
  refine Keeps.modify fun m h => ⟨h.placeholder, h.servant, fun name a ha => ?_⟩
  rw [TopicManagerImpl.getElem?_reap] at ha
  split_ifs at ha
  exact h.entry name a ha

/-- Putting a placeholder roots more. -/
private theorem Rooted.putTopic (h : Rooted m) (llu : LogUpdate) :
    Rooted { m with db := (m.db.putTopic id).putLLU llu } := by
  have hkeep : ∀ k ∈ m.db.subscriberMap, k ∈ (m.db.putTopic id).subscriberMap :=
    fun k hk => mem_put.mpr (.inr hk)
  refine ⟨fun k hk => ?_, fun id' hid => hkeep _ (h.servant id' hid), h.entry⟩
  rcases mem_put.mp hk with rfl | hk
  · exact mem_put.mpr (.inl rfl)
  · exact hkeep _ (h.placeholder k hk)

private theorem rooted_create : Keeps Rooted (TopicManagerImpl.create f name) := by
  unfold TopicManagerImpl.create
  refine rooted_reap.bind fun _ => of_forall fun m h => get_bind ?_
  refine throwIf_bind (fun _ => h) fun _ => transaction_bind (fun _ => h) fun _ => ?_
  have hput : Rooted { m with db := (m.db.putTopic (nameToIdentity m.inst name)).putLLU _ } :=
    h.putTopic (m.db.putTopic (nameToIdentity m.inst name)).getIncrementedLLU.1
  refine replicate_bind (fun _ => hput) fun _ => ?_
  exact hput.installTopic (mem_put.mpr (.inl rfl))

private theorem rooted_observerCreateTopic :
    Keeps Rooted (TopicManagerImpl.observerCreateTopic f llu name) := by
  unfold TopicManagerImpl.observerCreateTopic
  refine of_forall fun m h => get_bind ?_
  refine throwIf_bind (fun _ => h) fun _ => throwIf_bind (fun _ => h) fun _ => ?_
  refine transaction_bind (fun _ => h) fun _ => ?_
  exact Spec.bind ((h.putTopic llu).installTopic (mem_put.mpr (.inl rfl)))
    fun _ => Spec.pure fun _ hs => hs

/-- An observer update looks the topic up and goes on with the object. -/
private theorem rooted_findTopic {k : Nat → StormM Unit} (h : Rooted m)
    (hk : ∀ a t, m.topics[name]? = some a → m.objects[a]? = some t →
      Spec (· = m) (k a) (fun _ => Rooted) fun _ => Rooted) :
    Spec (· = m) (findTopic name >>= k) (fun _ => Rooted) fun _ => Rooted := by
  unfold findTopic
  rw [bind_assoc]
  refine get_bind ?_
  cases ha : m.topics[name]? with
  | none => exact Spec.throw fun s hs => hs ▸ h
  | some a => exact hk a _ ha (List.getElem?_eq_getElem (h.entry name a ha))

private theorem rooted_observerDestroyTopic (h : Rooted m) :
    Spec (· = m) (TopicManagerImpl.observerDestroyTopic f llu name)
      (fun _ => Rooted) fun _ => Rooted := by
  have herase : ∀ s, Rooted s → Rooted { s with topics := s.topics.erase name } := by
    intro s hs
    refine ⟨hs.placeholder, hs.servant, fun name' a ha => ?_⟩
    rw [getElem?_erase] at ha
    split_ifs at ha
    exact hs.entry name' a ha
  refine rooted_findTopic h fun a t _ ht => ?_
  have heffect := program_effect (.observerDestroyTopic f llu) ht trivial
  refine Spec.bind
    (heffect.conseq (fun _ hs => hs) (fun _ s hs => h.topicEffect (by simp [adds]) hs)
    fun _ s hs => h.topicEffect (by simp [adds]) hs) fun _ => Keeps.modify herase

/-- Every operation of the topic manager keeps the invariant. -/
theorem Rooted.manager {op : Operation} (h : Rooted m)
    (hok : KeepsPlaceholders m (.manager op)) : Rooted (final op.program m) := by
  cases op with
  | create f name => exact (rooted_create.bind fun _ => Keeps.pure).final h
  | retrieve name =>
    refine Keeps.final (Keeps.bind (Keeps.bind rooted_reap fun _ => ?_) fun _ => Keeps.pure) h
    refine Keeps.get.bind fun m => ?_
    cases m.topics[name]? with
    | none => exact Keeps.throw
    | some a =>
      refine Keeps.bind (Keeps.get.bind fun m => ?_) fun _ => Keeps.pure
      split
      · exact Keeps.pure
      · exact Keeps.throw
  | retrieveAll =>
    refine Keeps.final (Keeps.bind (Keeps.bind rooted_reap fun _ => ?_) fun _ => Keeps.pure) h
    exact Keeps.get.bind fun m => Keeps.pure
  | observerInit f llu content => exact rooted_observerInit h hok
  | observerCreateTopic f llu name => exact rooted_observerCreateTopic.final h
  | observerDestroyTopic f llu name => exact (rooted_observerDestroyTopic h).final rfl
  | observerAddSubscriber f llu name record =>
    refine Spec.final (P := (· = m)) (rooted_findTopic h fun a t ha ht => ?_) rfl
    exact (program_effect (.observerAddSubscriber f llu record) ht hok.1).conseq
      (fun _ hs => hs) (fun _ s hs => h.topicEffect (fun _ => hok.2 a t ha ht) hs)
      fun _ s hs => h.topicEffect (fun _ => hok.2 a t ha ht) hs
  | observerRemoveSubscriber f llu name ids =>
    refine Spec.final (P := (· = m)) (rooted_findTopic h fun a t ha ht => ?_) rfl
    exact (program_effect (.observerRemoveSubscriber f llu ids) ht hok).conseq
      (fun _ hs => hs) (fun _ s hs => h.topicEffect (by simp [adds]) hs)
      fun _ s hs => h.topicEffect (by simp [adds]) hs
  | getContent f =>
    refine Keeps.final (Keeps.bind (Keeps.bind rooted_reap fun _ => ?_) fun _ => Keeps.pure) h
    refine of_forall fun m hm => throwIf_bind (fun _ => hm) fun _ => get_bind ?_
    exact Spec.pure fun s hs => hs ▸ hm
  | initMaster f llu =>
    refine Keeps.final (Keeps.bind (Keeps.bind rooted_reap fun _ => ?_) fun _ => Keeps.pure) h
    refine of_forall fun m hm => get_bind (transaction_bind (fun _ => hm) fun _ => ?_)
    have hput : Rooted { m with db := m.db.putLLU llu } :=
      ⟨hm.placeholder, hm.servant, hm.entry⟩
    exact replicate_bind (fun _ => hput) fun _ => Spec.pure fun s hs => hs ▸ hput

/-- A restart over a database without orphans. -/
theorem rooted_restart
    (h : ∀ k ∈ m.db.subscriberMap, SubscriberRecordKey.placeholder k.topic ∈ m.db.subscriberMap)
    (hs : m.restart f = some m') : Rooted m' := by
  obtain ⟨hdb, hservant, hentry⟩ := TopicManagerImpl.restart_spec hs
  refine ⟨?_, fun id hid => ?_, hentry⟩
  · rw [hdb]
    exact h
  · obtain ⟨q, hq, rfl⟩ := hservant id hid
    rw [hdb]
    exact (Database.noOrphans_of_placeholder h).recreated q hq

/-- Every step keeps the invariant. -/
theorem Rooted.step {r : Request} (h : Rooted m) (hok : KeepsPlaceholders m r)
    (hs : m.step r = some m') : Rooted m' := by
  cases r with
  | topic a op =>
    simp only [TopicManagerImpl.step, Option.ite_none_right_eq_some, Option.some.injEq] at hs
    obtain ⟨ha, rfl⟩ := hs
    obtain ⟨hproper, hadd⟩ := hok
    have ht := List.getElem?_eq_getElem ha
    refine Spec.final ((program_effect op ht hproper).conseq (fun _ hs => hs) ?_ ?_) rfl
    all_goals exact fun _ s hs => h.topicEffect (fun hop => hadd hop _ ht) hs
  | manager op =>
    cases hs
    exact h.manager hok
  | restart f => exact rooted_restart h.placeholder hs

end Steps

/-- In every run that keeps the placeholders with their records, every record belongs to
a topic with its placeholder, and a restart reads that first. -/
theorem noOrphans_of_keepsPlaceholders (inst : Instance) {m : TopicManagerImpl}
    (h : Reach TopicManagerImpl.step KeepsPlaceholders (.started inst) m) : m.db.NoOrphans := by
  have hstart : Rooted (.started inst) := by
    refine rooted_restart (m := .stopped inst .empty) (f := .none) ?_ rfl
    exact fun k hk => absurd hk (by simp [TopicManagerImpl.stopped, Database.empty])
  have hrooted : Rooted m := h.invariant hstart fun _ _ _ hm hok hs => hm.step hok hs
  exact Database.noOrphans_of_placeholder hrooted.placeholder

/-- A topic is created and a subscription comes while the topic is served. -/
theorem noOrphans_of_keepsPlaceholders_subscribe :
    ∃ m : TopicManagerImpl, m.db.subscriberMap.size = 2 ∧ m.db.NoOrphans := by
  let m₁ := final (Operation.create .none "t").program (.started .defaults)
  let subscribe : TopicOperation := .subscribeAndGetPublisher .none [] (some .sample)
  have hserved : KeepsPlaceholders m₁ (.topic 0 subscribe) := by
    refine ⟨trivial, fun _ t ht => ?_⟩
    obtain rfl : ⟨"t", ⟨"topic.t", "IceStorm"⟩, false, []⟩ = t :=
      some.inj ((by decide : m₁.objects[0]? = _).symm.trans ht)
    decide
  refine ⟨final (subscribe.program 0) m₁, by decide, ?_⟩
  exact noOrphans_of_keepsPlaceholders .defaults (.tail (l := .topic 0 subscribe)
    (.tail (l := .manager (.create .none "t")) .refl trivial rfl) hserved rfl)

/-- A subscription that was dispatched before its topic was destroyed stores an orphan. -/
theorem exists_orphan :
    ¬ ∀ (inst : Instance) (m : TopicManagerImpl),
      Reach TopicManagerImpl.step Any (.started inst) m → m.db.NoOrphans := by
  intro h
  let topic : Identity := ⟨"topic.t", "IceStorm"⟩
  have hrun : (run TopicManagerImpl.step (.started .defaults)
      [.manager (.create .none "t"), .topic 0 (.destroy .none),
        .topic 0 (.subscribeAndGetPublisher .none [] (some .sample))]).any
      (fun m => m.db.find ⟨topic, ⟨"s", ""⟩⟩ && !m.db.find (.placeholder topic)) = true := by
    decide +kernel
  obtain ⟨m, hm, horphan⟩ := Reach.exists_of_run hrun
  rw [Bool.and_eq_true, Bool.not_eq_true'] at horphan
  have hp := (h _ m hm).placeholder _ (contains_iff_mem.mp horphan.1)
  have hfound : m.db.find (.placeholder topic) = true := contains_iff_mem.mpr hp
  rw [horphan.2] at hfound
  cases hfound

end Ice.IceStorm
