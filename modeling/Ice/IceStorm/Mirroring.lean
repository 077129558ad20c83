import Ice.IceStorm.Mastership

/-!
# What a replica holds after `observerInit`

The transaction stores the content that the master sent. The memory is merged: a topic that is
there keeps those of its subscribers that the content names, each with the record that it had, and a
topic that is made anew lacks the subscribers that could not be made.
-/

namespace Ice.IceStorm

open Ice.Lib IceStormElection
open Std.ExtTreeMap (getElem?_insertIfNew mem_iff_isSome_getElem? nodup_keys)
open Option (some.inj)
open TopicManagerImpl (destroyTopic installTopic kept_eq_some observerInit started)
open TopicImpl (keep publisherIds recreate updateAdd updateRemove)
open Subscriber (creatable create resetIfReaped_record wanted)
open List (cons.inj map_append map_cons map_map mem_cons mem_cons_of_mem mem_cons_self mem_filter
  mem_map nodup_cons)

section Returns

variable {m : TopicManagerImpl}

/-- Nothing is said of a program that throws. -/
private abbrev Thrown (_ : StormException) (_ : TopicManagerImpl) : Prop := True

/-- The publishers of a subscriber that has been made were free. -/
private theorem create_returns (record : SubscriberRecord) :
    Spec (· = m) (create record)
      (fun s m' => s.record = record ∧ creatable m.inst record = true ∧
        Free m.publishAdapter (wanted m.inst record) ∧
        m' = { m with publishAdapter := wanted m.inst record ++ m.publishAdapter })
      (fun _ m' => ∃ pa, m' = { m with publishAdapter := pa }) := by
  unfold create creatable wanted
  apply get_bind
  cases hobj : record.obj with
  | none => exact Spec.throw fun s hs => ⟨m.publishAdapter, hs⟩
  | some obj =>
    simp only [Option.any_some, Option.map_some, Option.toList_some]
    by_cases hlink : record.link = true
    · simp only [hlink, if_true, List.nil_append]
      cases Subscriber.checkTimeout m.inst.sendTimeout with
      | error e => exact Spec.throw fun s hs => ⟨m.publishAdapter, hs⟩
      | ok _ => exact Spec.pure fun s hs => ⟨rfl, rfl, .nil, hs⟩
    · simp only [hlink, Bool.false_eq_true, if_false, List.singleton_append]
      apply addPublisher_bind (fun e _ => ⟨m.publishAdapter, rfl⟩)
      intro _ hfree
      cases hc : Subscriber.configure m.inst record obj with
      | error e =>
        apply removePublisher_bind
        intro pa _
        exact Spec.throw fun s hs => ⟨pa, hs⟩
      | ok s =>
        apply Spec.pure
        rintro _ rfl
        refine ⟨(configure_eq hc).1, rfl, ⟨List.nodup_singleton _, ?_⟩, rfl⟩
        intro id hid
        rw [List.mem_singleton.mp hid]
        exact hfree

/-- The constructor makes all subscribers if each can be made and their publishers are free. -/
def Subscriber.AllMade (inst : Instance) (publishers : List Identity)
    (records : List SubscriberRecord) : Prop :=
  (∀ r ∈ records, creatable inst r = true) ∧
    Free publishers (records.flatMap (wanted inst))

private theorem recreate_returns (records : List SubscriberRecord) :
    Spec (· = m) (recreate records)
      (fun subscribers m' => (subscribers.map Subscriber.record).Sublist records ∧
        (subscribers.map Subscriber.record = records →
          Subscriber.AllMade m.inst m.publishAdapter records) ∧
        ∃ pa, m' = { m with publishAdapter := pa }) Thrown := by
  induction records generalizing m with
  | nil =>
    apply Spec.pure
    rintro _ rfl
    refine ⟨.slnil, fun _ => ⟨?_, .nil⟩, _, rfl⟩
    intro r hr
    cases hr
  | cons record rest ih =>
    unfold recreate
    apply throwIf_bind (fun _ => trivial)
    intro _
    -- what is left of the first record, and the adapter after it
    apply Spec.bind (Q := fun before m' => ∃ pa, m' = { m with publishAdapter := pa } ∧
      (before = [] ∨ ∃ x : Subscriber, x.record = record ∧ before = [x] ∧
        creatable m.inst record = true ∧
        Free m.publishAdapter (wanted m.inst record) ∧
        pa = wanted m.inst record ++ m.publishAdapter))
    · apply Spec.tryCatch (T := fun _ m' => ∃ pa, m' = { m with publishAdapter := pa })
      · apply Spec.bind (create_returns record)
        intro x
        apply Spec.pure
        rintro _ ⟨hx, hc, hfree, rfl⟩
        exact ⟨_, rfl, .inr ⟨x, hx, rfl, hc, hfree, rfl⟩⟩
      · intro e
        apply Spec.pure
        rintro _ ⟨pa, rfl⟩
        exact ⟨pa, rfl, .inl rfl⟩
    intro before
    apply Spec.of_forall
    rintro _ ⟨pa, rfl, hbefore⟩
    apply Spec.bind ih
    intro after
    apply Spec.pure
    rintro _ ⟨hsub, hall, pa', rfl⟩
    rcases hbefore with rfl | ⟨x, hx, rfl, hc, hfree, rfl⟩
    · refine ⟨hsub.cons record, ?_, pa', rfl⟩
      intro heq
      have hlength := hsub.length_le
      rw [List.nil_append] at heq
      rw [heq, List.length_cons] at hlength
      omega
    · rw [List.singleton_append, map_cons, hx]
      refine ⟨hsub.cons_cons record, ?_, pa', rfl⟩
      intro heq
      obtain ⟨hcreatable, hrest⟩ := hall (cons.inj heq).2
      constructor
      · intro r hr
        rcases mem_cons.mp hr with rfl | hr
        · exact hc
        · exact hcreatable r hr
      · rw [List.flatMap_cons]
        refine ⟨hfree.nodup.append hrest.nodup ?_, ?_⟩
        · intro id hid hid'
          exact hrest.unused id hid' (List.mem_append_left _ hid)
        · intro id hid
          rcases List.mem_append.mp hid with hid | hid
          · exact hfree.unused id hid
          · intro hin
            exact hrest.unused id hid (List.mem_append_right _ hin)

private theorem recreate_returns_iff (records : List SubscriberRecord) :
    Spec (· = m) (recreate records)
      (fun subscribers m' => (subscribers.map Subscriber.record).Sublist records ∧
        (subscribers.map Subscriber.record = records ↔
          Subscriber.AllMade m.inst m.publishAdapter records) ∧
        ∃ pa, m' = { m with publishAdapter := pa }) Thrown := by
  rintro s rfl
  have hreturns := recreate_returns (m := s) records s rfl
  cases hrun : recreate records s with
  | error e t => trivial
  | ok subscribers t =>
    rw [hrun] at hreturns
    obtain ⟨hsub, hall, hpa⟩ := hreturns
    refine ⟨hsub, ⟨hall, ?_⟩, hpa⟩
    rintro ⟨hc, hfree⟩
    have hok : Spec (· = s) (recreate records >>= pure)
        (fun subscribers _ => subscribers.map Subscriber.record = records) Thrown :=
      recreate_ok_bind hc hfree fun _ hrecords _ _ => Spec.pure fun _ _ => hrecords
    rw [bind_pure] at hok
    exact hok.of_ok rfl hrun

/-- A topic can be installed with a subscriber for each record. -/
def TopicManagerImpl.Fits (m : TopicManagerImpl) (q : TopicContent) : Prop :=
  (∀ r ∈ q.records, creatable m.inst r = true) ∧
    Free m.publishAdapter
      (TopicImpl.wanted m.inst (identityToTopicName q.id) q.id q.records)

/-- The publishers of the topic itself are registered before those of its subscribers. -/
private theorem allMade_iff_fits {q : TopicContent}
    (hpublish : (publisherIds (identityToTopicName q.id) q.id).1 ∉ m.publishAdapter)
    (hlink : (publisherIds (identityToTopicName q.id) q.id).2 ∉
      (publisherIds (identityToTopicName q.id) q.id).1 :: m.publishAdapter) :
    Subscriber.AllMade m.inst ((publisherIds (identityToTopicName q.id) q.id).2 ::
      (publisherIds (identityToTopicName q.id) q.id).1 :: m.publishAdapter) q.records ↔
      m.Fits q := by
  unfold Subscriber.AllMade TopicManagerImpl.Fits TopicImpl.wanted
  apply and_congr_right
  intro _
  constructor
  · intro hfree
    constructor
    · refine nodup_cons.mpr ⟨?_, nodup_cons.mpr ⟨?_, hfree.nodup⟩⟩
      · intro hin
        rcases mem_cons.mp hin with heq | hin
        · exact hlink (heq ▸ mem_cons_self ..)
        · exact hfree.unused _ hin (mem_cons_of_mem _ (mem_cons_self ..))
      · intro hin
        exact hfree.unused _ hin (mem_cons_self ..)
    · intro id hid hold
      rcases mem_cons.mp hid with rfl | hid
      · exact hpublish hold
      · rcases mem_cons.mp hid with rfl | hid
        · exact hlink (mem_cons_of_mem _ hold)
        · exact hfree.unused id hid (mem_cons_of_mem _ (mem_cons_of_mem _ hold))
  · intro hfree
    constructor
    · exact (nodup_cons.mp (nodup_cons.mp hfree.nodup).2).2
    · intro id hid hin
      obtain ⟨hfirst, hrest⟩ := nodup_cons.mp hfree.nodup
      rcases mem_cons.mp hin with rfl | hin
      · exact (nodup_cons.mp hrest).1 hid
      · rcases mem_cons.mp hin with rfl | hin
        · exact hfirst (mem_cons_of_mem _ hid)
        · exact hfree.unused id (mem_cons_of_mem _ (mem_cons_of_mem _ hid)) hin

private theorem installTopic_returns (q : TopicContent) :
    Spec (· = m) (installTopic (identityToTopicName q.id) q.id q.records)
      (fun _ m' => ∃ subscribers ta pa,
        (subscribers.map Subscriber.record).Sublist q.records ∧
        (subscribers.map Subscriber.record = q.records ↔ m.Fits q) ∧
        m' = { m.install ⟨identityToTopicName q.id, q.id, false, subscribers⟩ with
          topicAdapter := ta
          publishAdapter := pa }) Thrown := by
  unfold installTopic TopicImpl.new
  simp only [bind_assoc, pure_bind]
  apply addPublisher_bind (fun _ _ => trivial)
  intro _ hpublish
  apply addPublisher_bind (fun _ _ => trivial)
  intro _ hlink
  apply Spec.bind (recreate_returns_iff q.records)
  intro subscribers
  apply Spec.of_forall
  rintro _ ⟨hsub, hall, pa, rfl⟩
  apply modify_bind
  apply throwIf_bind (fun _ => trivial)
  intro _
  apply get_bind
  apply throwIf_bind (fun _ => trivial)
  intro _
  apply set_bind
  apply Spec.pure
  rintro _ rfl
  exact ⟨subscribers, _, pa, hsub, hall.trans (allMade_iff_fits hpublish hlink), rfl⟩

variable {records : List SubscriberRecord}

/-- The second scan of `update` makes the subscribers that are missing. -/
private theorem updateAdd_returns {a : Nat}
    (hnodup : (records.map SubscriberRecord.id).Nodup) {t : TopicImpl}
    (ha : m.objects[a]? = some t) :
    Spec (· = m) (records.forM (updateAdd a))
      (fun _ m' => ∃ added pa, added.map Subscriber.record = t.missing records ∧
        m' = { m with
          objects := m.objects.modify a (TopicImpl.append added)
          publishAdapter := pa }) Thrown := by
  induction records generalizing m t with
  | nil =>
    apply Spec.pure
    rintro s rfl
    have hsame : TopicImpl.append [] = id := by
      funext t
      simp [TopicImpl.append]
    refine ⟨[], s.publishAdapter, rfl, ?_⟩
    rw [hsame, List.modify_id]
  | cons r rest ih =>
    obtain ⟨hr, hrest⟩ := nodup_cons.mp hnodup
    change Spec _ (updateAdd a r >>= fun _ => rest.forM (updateAdd a)) _ _
    unfold updateAdd
    rw [bind_assoc]
    apply getTopic_bind ha
    by_cases hnew : (t.findSubscriber r.id).isNone = true
    · rw [if_pos hnew, bind_assoc]
      apply create_bind (fun _ _ => trivial)
      intro s pa hs _
      apply modifyTopic_bind
      -- the new subscriber is not one of those that are still missing
      have hpush : (t.push s).missing rest = t.missing rest := by
        apply List.filter_congr
        intro r' hr'
        have hne : s.id ≠ r'.id := by
          intro heq
          rw [Subscriber.id, hs] at heq
          exact hr (heq ▸ List.mem_map_of_mem hr')
        simp [TopicImpl.findSubscriber, TopicImpl.push, hne]
      have hcompose (added : List Subscriber) :
          TopicImpl.append added ∘ TopicImpl.push s = TopicImpl.append (s :: added) := by
        funext t
        simp [TopicImpl.append, TopicImpl.push]
      apply (ih hrest (t := t.push s) (by simp [ha])).conseq (fun _ h => h)
      · rintro _ _ ⟨added, pa', hadded, rfl⟩
        refine ⟨s :: added, pa', ?_, ?_⟩
        · rw [map_cons, hs, hadded, hpush]
          simp [TopicImpl.missing, hnew]
        · rw [List.modify_modify_eq, hcompose]
      · exact fun _ _ h => h
    · rw [if_neg hnew]
      have hmissing : t.missing (r :: rest) = t.missing rest := by
        simp [TopicImpl.missing, hnew]
      rw [hmissing]
      exact ih hrest ha

private theorem update_returns {a : Nat}
    (hnodup : (records.map SubscriberRecord.id).Nodup) {t : TopicImpl}
    (ha : m.objects[a]? = some t) :
    Spec (· = m) (TopicImpl.update a records)
      (fun _ m' => ∃ added pa, added.map Subscriber.record = t.missing records ∧
        m' = { m with
          objects := m.objects.modify a (TopicImpl.append added ∘ keep records)
          publishAdapter := pa }) Thrown := by
  unfold TopicImpl.update updateRemove
  rw [bind_assoc]
  apply getTopic_bind ha
  rw [bind_assoc]
  apply destroyAll_bind
  intro pa hpa
  apply modifyTopic_bind
  have hkept : (m.objects.modify a (keep records))[a]? = some (t.keep records) := by
    simp [ha]
  apply (updateAdd_returns hnodup (t := t.keep records) hkept).conseq (fun _ h => h)
  · rintro _ _ ⟨added, pa', hadded, rfl⟩
    refine ⟨added, pa', ?_, ?_⟩
    · rw [hadded, TopicImpl.missing_keep]
    · rw [List.modify_modify_eq]
      rfl
  · exact fun _ _ h => h

/-- What `observerInit` does when the turn of a topic comes. -/
inductive Turn (m : TopicManagerImpl) (q : TopicContent) : TopicManagerImpl → Prop
  | install (hfree : m.topics[identityToTopicName q.id]? = none)
      (subscribers : List Subscriber) (ta : Std.ExtTreeMap Identity Nat) (pa : List Identity)
      (hsub : (subscribers.map Subscriber.record).Sublist q.records)
      (hall : subscribers.map Subscriber.record = q.records ↔ m.Fits q) :
      Turn m q { m.install ⟨identityToTopicName q.id, q.id, false, subscribers⟩ with
        topicAdapter := ta
        publishAdapter := pa }
  | update (a : Nat) (t : TopicImpl) (ha : m.topics[identityToTopicName q.id]? = some a)
      (ht : m.objects[a]? = some t) (added : List Subscriber) (pa : List Identity)
      (hadded : added.map Subscriber.record = t.missing q.records) :
      Turn m q { m with
        objects := m.objects.modify a (TopicImpl.append added ∘ keep q.records)
        publishAdapter := pa }

private theorem initInstall_returns {q : TopicContent}
    (hnodup : (q.records.map SubscriberRecord.id).Nodup) :
    Spec (· = m) (TopicManagerImpl.initInstall q) (fun _ => Turn m q) Thrown := by
  unfold TopicManagerImpl.initInstall
  apply get_bind
  cases ha : m.topics[identityToTopicName q.id]? with
  | none =>
    apply Spec.bind (installTopic_returns q)
    intro _
    apply Spec.pure
    rintro _ ⟨subscribers, ta, pa, hsub, hall, rfl⟩
    exact .install ha subscribers ta pa hsub hall
  | some a =>
    cases ht : m.objects[a]? with
    | none =>
      have hthrow : TopicImpl.update a q.records m = .error .objectNotExist m := by
        unfold TopicImpl.update updateRemove
        rw [bind_assoc]
        exact bind_of_error (getTopic_of_none ht) _
      have hspec : Spec (· = m) (TopicImpl.update a q.records) (fun _ => Turn m q) Thrown := by
        rintro s rfl
        rw [hthrow]
        trivial
      exact hspec
    | some t =>
      apply (update_returns hnodup ht).conseq (fun _ h => h)
      · rintro _ _ ⟨added, pa, hadded, rfl⟩
        exact .update a t ha ht added pa hadded
      · exact fun _ _ h => h

end Returns

/-- The topic object that `_topics` leads to. -/
def TopicManagerImpl.entry (m : TopicManagerImpl) (name : String) : Option TopicImpl :=
  m.topics[name]?.bind fun a => m.objects[a]?

/-- A topic object that is not destroyed and whose subscribers hold the records, one each. -/
structure Shows (t : TopicImpl) (q : TopicContent) : Prop where
  id : t.id = q.id
  live : t.destroyed = false
  records : (t.subscribers.map Subscriber.record).Perm q.records

/-- The subscribers of the records can stay: each has its record, and no other has its identity. -/
structure Unchanged (t : TopicImpl) (q : TopicContent) : Prop where
  live : t.destroyed = false
  same : ∀ s ∈ t.subscribers, ∀ r ∈ q.records, s.id = r.id → s.record = r
  distinct : ((t.keep q.records).subscribers.map Subscriber.id).Nodup

/-- The subscribers that `update` leaves. -/
private theorem mem_keep {t : TopicImpl} {records : List SubscriberRecord} {s : Subscriber} :
    s ∈ (t.keep records).subscribers ↔
      ∃ x ∈ t.subscribers, (∃ r ∈ records, x.id = r.id) ∧ x.resetIfReaped = s := by
  unfold keep
  simp [and_assoc]

/-- A topic that was updated holds the records if its subscribers could stay. -/
private theorem shows_update_iff {t : TopicImpl} {q : TopicContent} {added : List Subscriber}
    (hid : t.id = q.id) (hnodup : (q.records.map SubscriberRecord.id).Nodup)
    (hadded : added.map Subscriber.record = t.missing q.records) :
    Shows ((t.keep q.records).append added) q ↔ Unchanged t q := by
  have hrecords : ((t.keep q.records).append added).subscribers.map Subscriber.record =
      (t.keep q.records).subscribers.map Subscriber.record ++ t.missing q.records := by
    rw [← hadded]
    exact map_append
  have hid_record : SubscriberRecord.id ∘ Subscriber.record = Subscriber.id := rfl
  constructor
  · intro h
    have hperm := h.records
    rw [hrecords] at hperm
    refine ⟨h.live, ?_, ?_⟩
    · intro s hs r hr hsr
      have hkept : s.resetIfReaped ∈ (t.keep q.records).subscribers :=
        mem_keep.mpr ⟨s, hs, ⟨r, hr, hsr⟩, rfl⟩
      have hmem := hperm.subset (List.mem_append_left _ (List.mem_map_of_mem hkept))
      rw [resetIfReaped_record] at hmem
      exact List.inj_on_of_nodup_map hnodup hmem hr hsr
    · have hids := (hperm.map SubscriberRecord.id).nodup_iff.mpr hnodup
      rw [map_append, map_map, hid_record] at hids
      exact (List.nodup_append.mp hids).1
  · intro h
    refine ⟨hid, h.live, ?_⟩
    rw [hrecords]
    apply (List.perm_ext_iff_of_nodup ?_ (List.Nodup.of_map _ hnodup)).mpr
    · intro r
      rw [List.mem_append]
      constructor
      · rintro (hr | hr)
        · obtain ⟨s, hs, rfl⟩ := mem_map.mp hr
          obtain ⟨x, hx, ⟨r, hrecord, hxr⟩, rfl⟩ := mem_keep.mp hs
          rw [resetIfReaped_record, h.same x hx r hrecord hxr]
          exact hrecord
        · exact (mem_filter.mp hr).1
      · intro hr
        cases hfind : t.findSubscriber r.id with
        | none => exact .inr (mem_filter.mpr ⟨hr, by rw [hfind]; rfl⟩)
        | some x =>
          have hx := List.mem_of_find?_eq_some hfind
          have hxr : x.id = r.id := by simpa using List.find?_some hfind
          refine .inl (mem_map.mpr ⟨x.resetIfReaped, ?_, ?_⟩)
          · exact mem_keep.mpr ⟨x, hx, ⟨r, hr, hxr⟩, rfl⟩
          · rw [resetIfReaped_record]
            exact h.same x hx r hr hxr
    · apply List.Nodup.of_map SubscriberRecord.id
      rw [map_append, map_map, hid_record]
      apply h.distinct.append
      · exact hnodup.sublist (List.filter_sublist.map _)
      · intro id hid hid'
        obtain ⟨s, hs, rfl⟩ := mem_map.mp hid
        obtain ⟨x, hx, -, rfl⟩ := mem_keep.mp hs
        obtain ⟨r, hr, hrx⟩ := mem_map.mp hid'
        have hnone := Option.isNone_iff_eq_none.mp (mem_filter.mp hr).2
        rw [Subscriber.resetIfReaped_id] at hrx
        exact findSubscriber_eq_none.mp hnone x hx hrx.symm

/-- Two names never lead to one topic object, and every name leads to one. -/
private structure Apart (m : TopicManagerImpl) : Prop where
  exist : m.EntriesExist
  injective : ∀ (name name' : String) (a : Nat), m.topics[name]? = some a →
    m.topics[name']? = some a → name = name'

section Turns

variable {m m' : TopicManagerImpl} {q : TopicContent}

/-- Addresses and identities stay what they are. -/
private structure Persists (m m' : TopicManagerImpl) : Prop where
  topics : ∀ (name : String) (a : Nat), m.topics[name]? = some a → m'.topics[name]? = some a
  objects : ∀ (a : Nat) (t : TopicImpl), m.objects[a]? = some t →
    ∃ t', m'.objects[a]? = some t' ∧ t'.id = t.id

private theorem Turn.persists (h : Turn m q m') : Persists m m' := by
  cases h with
  | install hfree subscribers ta pa hsub hall =>
    constructor
    · intro name a ha
      simp only [TopicManagerImpl.install]
      rw [getElem?_insertIfNew, if_neg, ha]
      rintro ⟨heq, -⟩
      rw [← Std.compare_eq_iff_eq.mp heq, hfree] at ha
      cases ha
    · intro a t ht
      refine ⟨t, ?_, rfl⟩
      simp only [TopicManagerImpl.install]
      rw [List.getElem?_append_left (List.getElem?_eq_some_iff.mp ht).1, ht]
  | update a t ha ht added pa hadded =>
    constructor
    · exact fun _ _ h => h
    · intro i t' ht'
      by_cases hi : a = i
      · subst hi
        exact ⟨(t'.keep q.records).append added, by simp [ht'], rfl⟩
      · exact ⟨t', by simp [hi, ht'], rfl⟩

private theorem entry_eq_some {name : String} {t : TopicImpl} :
    m.entry name = some t ↔ ∃ a, m.topics[name]? = some a ∧ m.objects[a]? = some t := by
  unfold TopicManagerImpl.entry
  exact Option.bind_eq_some_iff

/-- The turn of a topic changes the entry of its name alone. -/
private theorem Turn.apart (h : Turn m q m') (hm : Apart m) :
    Apart m' ∧ ∀ name, name ≠ identityToTopicName q.id → m'.entry name = m.entry name := by
  cases h with
  | install hfree subscribers ta pa hsub hall =>
    have hlookup (name : String) (hname : name ≠ identityToTopicName q.id) :
        (m.topics.insertIfNew (identityToTopicName q.id) m.objects.length)[name]? =
          m.topics[name]? := by
      rw [getElem?_insertIfNew, if_neg]
      rintro ⟨heq, -⟩
      exact hname (Std.compare_eq_iff_eq.mp heq).symm
    have hself : (m.topics.insertIfNew (identityToTopicName q.id)
        m.objects.length)[identityToTopicName q.id]? = some m.objects.length := by
      rw [getElem?_insertIfNew, if_pos]
      refine ⟨by simp, ?_⟩
      rw [mem_iff_isSome_getElem?, hfree]
      simp
    refine ⟨⟨hm.exist.install _, ?_⟩, ?_⟩
    · intro name name' a ha ha'
      simp only [TopicManagerImpl.install] at ha ha'
      by_cases hn : name = identityToTopicName q.id
      · by_cases hn' : name' = identityToTopicName q.id
        · rw [hn, hn']
        · rw [hn, hself] at ha
          rw [hlookup name' hn', ← some.inj ha] at ha'
          exact absurd (hm.exist name' _ ha') (Nat.lt_irrefl _)
      · by_cases hn' : name' = identityToTopicName q.id
        · rw [hn', hself] at ha'
          rw [hlookup name hn, ← some.inj ha'] at ha
          exact absurd (hm.exist name _ ha) (Nat.lt_irrefl _)
        · rw [hlookup name hn] at ha
          rw [hlookup name' hn'] at ha'
          exact hm.injective name name' a ha ha'
    · intro name hname
      unfold TopicManagerImpl.entry
      simp only [TopicManagerImpl.install]
      rw [hlookup name hname]
      cases ha : m.topics[name]? with
      | none => rfl
      | some a =>
        exact List.getElem?_append_left (hm.exist name a ha)
  | update a t ha ht added pa hadded =>
    refine ⟨⟨?_, hm.injective⟩, ?_⟩
    · intro name i hi
      have hold := hm.exist name i hi
      simpa using hold
    · intro name hname
      unfold TopicManagerImpl.entry
      dsimp only
      cases hi : m.topics[name]? with
      | none => rfl
      | some i =>
        have hne : a ≠ i := by
          rintro rfl
          exact hname (hm.injective name _ a hi ha)
        simp [hne]

/-- The topic after its turn -/
private theorem Turn.shows_iff (h : Turn m q m')
    (hnodup : (q.records.map SubscriberRecord.id).Nodup)
    (hid : ∀ t, m.entry (identityToTopicName q.id) = some t → t.id = q.id) :
    ∃ t', m'.entry (identityToTopicName q.id) = some t' ∧
      ((∃ t, m.entry (identityToTopicName q.id) = some t ∧ (Shows t' q ↔ Unchanged t q)) ∨
        m.entry (identityToTopicName q.id) = none ∧ (Shows t' q ↔ m.Fits q)) := by
  cases h with
  | install hfree subscribers ta pa hsub hall =>
    refine ⟨⟨identityToTopicName q.id, q.id, false, subscribers⟩, ?_, .inr ⟨?_, ?_⟩⟩
    · rw [entry_eq_some]
      refine ⟨m.objects.length, ?_, ?_⟩
      · simp only [TopicManagerImpl.install]
        rw [getElem?_insertIfNew, if_pos]
        refine ⟨by simp, ?_⟩
        rw [mem_iff_isSome_getElem?, hfree]
        simp
      · simp [TopicManagerImpl.install]
    · unfold TopicManagerImpl.entry
      rw [hfree]
      rfl
    · rw [← hall]
      constructor
      · intro h
        exact hsub.eq_of_length h.records.length_eq
      · intro heq
        refine ⟨rfl, rfl, ?_⟩
        rw [heq]
  | update a t ha ht added pa hadded =>
    have hentry : m.entry (identityToTopicName q.id) = some t := entry_eq_some.mpr ⟨a, ha, ht⟩
    refine ⟨(t.keep q.records).append added, ?_, .inl ⟨t, hentry, ?_⟩⟩
    · rw [entry_eq_some]
      exact ⟨a, ha, by simp [ht]⟩
    · exact shows_update_iff (hid t hentry) hnodup hadded

end Turns

section Scan

variable {m s : TopicManagerImpl} {f : Faults} {llu : LogUpdate} {content : List TopicContent}
  {e : String × Nat} {rest : List (String × Nat)}

/-- Between two visits of the first scan, which started from `m`. -/
private structure Cleared (m : TopicManagerImpl) (content : List TopicContent)
    (rest : List (String × Nat)) (s : TopicManagerImpl) : Prop where
  length : s.objects.length = m.objects.length
  objects : ∀ (a : Nat) (t : TopicImpl), s.objects[a]? = some t →
    ∃ t₀, m.objects[a]? = some t₀ ∧ t₀.id = t.id ∧ ((∃ q ∈ content, q.id = t.id) → t = t₀)
  visit : ∀ e ∈ rest, m.topics[e.1]? = some e.2
  distinct : (rest.map Prod.fst).Nodup
  topics : ∀ (name : String) (a : Nat), s.topics[name]? = some a ↔
    m.topics[name]? = some a ∧
      ((name, a) ∈ rest ∨ ∃ t, m.objects[a]? = some t ∧ ∃ q ∈ content, q.id = t.id)

/-- A topic of the content stays. -/
private theorem Cleared.skip (h : Cleared m content (e :: rest) s) {t : TopicImpl}
    (ht : s.objects[e.2]? = some t) (hin : ∃ q ∈ content, q.id = t.id) :
    Cleared m content rest s where
  length := h.length
  objects := h.objects
  visit := fun e' he' => h.visit e' (mem_cons_of_mem e he')
  distinct := (nodup_cons.mp h.distinct).2
  topics := by
    intro name a
    rw [h.topics]
    apply and_congr_right
    intro _
    constructor
    · rintro (hrest | hkept)
      · rcases mem_cons.mp hrest with rfl | hrest
        · obtain ⟨t₀, ht₀, hid, -⟩ := h.objects a t ht
          exact .inr ⟨t₀, ht₀, hid ▸ hin⟩
        · exact .inl hrest
      · exact .inr hkept
    · rintro (hrest | hkept)
      · exact .inl (mem_cons_of_mem e hrest)
      · exact .inr hkept

/-- A topic that the content leaves out goes. -/
private theorem Cleared.drop (h : Cleared m content (e :: rest) s) {t : TopicImpl}
    (ht : s.objects[e.2]? = some t) (hout : ¬∃ q ∈ content, q.id = t.id) {s' : TopicManagerImpl}
    (hlength : s'.objects.length = s.objects.length)
    (hobjects : ∀ (a : Nat) (t' : TopicImpl), s'.objects[a]? = some t' →
      s.objects[a]? = some t' ∨ a = e.2 ∧ t'.id = t.id) :
    Cleared m content rest { s' with topics := s.topics.erase e.1 } where
  length := hlength.trans h.length
  objects := by
    intro a t' ht'
    rcases hobjects a t' ht' with hsame | ⟨rfl, hid⟩
    · exact h.objects a t' hsame
    · obtain ⟨t₀, ht₀, hid₀, -⟩ := h.objects e.2 t ht
      refine ⟨t₀, ht₀, hid₀.trans hid.symm, ?_⟩
      intro hin
      rw [hid] at hin
      exact absurd hin hout
  visit := fun e' he' => h.visit e' (mem_cons_of_mem e he')
  distinct := (nodup_cons.mp h.distinct).2
  topics := by
    intro name a
    have hself := h.visit e (mem_cons_self ..)
    obtain ⟨hnot, -⟩ := nodup_cons.mp h.distinct
    have herase : (s.topics.erase e.1)[name]? = some a ↔ s.topics[name]? = some a ∧ name ≠ e.1 := by
      rw [Std.ExtTreeMap.getElem?_erase]
      by_cases hn : name = e.1
      · simp [hn]
      · rw [if_neg (by simpa using Ne.symm hn)]
        simp [hn]
    rw [herase, h.topics]
    constructor
    · rintro ⟨⟨ha, hrest | hkept⟩, hne⟩
      · rcases mem_cons.mp hrest with rfl | hrest
        · exact absurd rfl hne
        · exact ⟨ha, .inl hrest⟩
      · exact ⟨ha, .inr hkept⟩
    · rintro ⟨ha, hrest | ⟨t₁, ht₁, hin⟩⟩
      · refine ⟨⟨ha, .inl (mem_cons_of_mem e hrest)⟩, ?_⟩
        intro hname
        exact hnot (hname ▸ List.mem_map_of_mem (f := Prod.fst) hrest)
      · refine ⟨⟨ha, .inr ⟨t₁, ht₁, hin⟩⟩, ?_⟩
        rintro rfl
        obtain rfl : a = e.2 := some.inj (ha.symm.trans hself)
        obtain ⟨t₀, ht₀, hid, -⟩ := h.objects e.2 t ht
        obtain rfl : t₀ = t₁ := some.inj (ht₀.symm.trans ht₁)
        rw [hid] at hin
        exact hout hin

private theorem initRemove_returns (e : String × Nat) (rest : List (String × Nat)) :
    Spec (Cleared m content (e :: rest)) (TopicManagerImpl.initRemove f llu content e)
      (fun _ => Cleared m content rest) Thrown := by
  apply Spec.of_forall
  intro s h
  cases ht : s.objects[e.2]? with
  | none =>
    rintro _ rfl
    unfold TopicManagerImpl.initRemove
    rw [bind_of_error (getTopic_of_none ht)]
    trivial
  | some t =>
    apply initRemove_spec ht
    · exact fun hin => h.skip ht hin
    · exact fun hin _ => h.drop ht hin rfl fun a t' ht' => .inl ht'
    · exact fun _ _ _ => trivial
    · intro hin pa _ _
      apply h.drop ht hin
      · simp [destroyTopic]
      · intro a t' ht'
        by_cases ha : e.2 = a
        · subst ha
          right
          simp only [destroyTopic, List.getElem?_modify, ht] at ht'
          simp at ht'
          exact ⟨rfl, by rw [← ht']; rfl⟩
        · left
          simpa [destroyTopic, ha] using ht'

/-- The topics of the content stay as they are, the others go. -/
private theorem Cleared.entry_eq_some (h : Cleared m content [] s) {name : String}
    {t : TopicImpl} :
    s.entry name = some t ↔ m.entry name = some t ∧ ∃ q ∈ content, q.id = t.id := by
  rw [Ice.IceStorm.entry_eq_some, Ice.IceStorm.entry_eq_some]
  constructor
  · rintro ⟨a, ha, ht⟩
    obtain ⟨ha, hrest | ⟨t₁, ht₁, hin⟩⟩ := (h.topics name a).mp ha
    · cases hrest
    · obtain ⟨t₀, ht₀, hid, hsame⟩ := h.objects a t ht
      obtain rfl : t₀ = t₁ := some.inj (ht₀.symm.trans ht₁)
      rw [hid] at hin
      obtain rfl := hsame hin
      exact ⟨⟨a, ha, ht₀⟩, hin⟩
  · rintro ⟨⟨a, ha, ht⟩, hin⟩
    refine ⟨a, (h.topics name a).mpr ⟨ha, .inr ⟨t, ht, hin⟩⟩, ?_⟩
    have hlt : a < s.objects.length := by
      rw [h.length]
      exact (List.getElem?_eq_some_iff.mp ht).1
    obtain ⟨t₀, ht₀, hid, hsame⟩ := h.objects a _ (List.getElem?_eq_getElem hlt)
    obtain rfl : t = t₀ := some.inj (ht.symm.trans ht₀)
    rw [List.getElem?_eq_getElem hlt, hsame (hid ▸ hin)]

private theorem Cleared.apart (h : Cleared m content [] s)
    (hplaced : ∀ name t, m.entry name = some t → (∃ q ∈ content, q.id = t.id) →
      identityToTopicName t.id = name) : Apart s where
  exist := by
    intro name a ha
    obtain ⟨-, hrest | ⟨t, ht, -⟩⟩ := (h.topics name a).mp ha
    · cases hrest
    · rw [h.length]
      exact (List.getElem?_eq_some_iff.mp ht).1
  injective := by
    intro name name' a ha ha'
    obtain ⟨hm, hrest | ⟨t, ht, hin⟩⟩ := (h.topics name a).mp ha
    · cases hrest
    · obtain ⟨hm', -⟩ := (h.topics name' a).mp ha'
      rw [← hplaced name t (Ice.IceStorm.entry_eq_some.mpr ⟨a, hm, ht⟩) hin]
      exact hplaced name' t (Ice.IceStorm.entry_eq_some.mpr ⟨a, hm', ht⟩) hin

end Scan

section Loop

variable {s s' : TopicManagerImpl} {content : List TopicContent}

private theorem persists_of_forM {s : TopicManagerImpl}
    (hrecords : ∀ q ∈ content, (q.records.map SubscriberRecord.id).Nodup)
    (h : content.forM TopicManagerImpl.initInstall s = .ok () s') : Persists s s' := by
  induction content generalizing s with
  | nil =>
    cases h
    exact ⟨fun _ _ h => h, fun _ t ht => ⟨t, ht, rfl⟩⟩
  | cons q rest ih =>
    obtain ⟨_, s₁, hq, hrest⟩ := ok_of_bind h
    have hspec := initInstall_returns (m := s) (hrecords q (mem_cons_self ..))
    have hturn := (hspec.of_ok rfl hq).persists
    have hlater := ih (fun q' hq' => hrecords q' (mem_cons_of_mem q hq')) hrest
    constructor
    · exact fun name a ha => hlater.topics name a (hturn.topics name a ha)
    · intro a t ht
      obtain ⟨t₁, ht₁, hid₁⟩ := hturn.objects a t ht
      obtain ⟨t₂, ht₂, hid₂⟩ := hlater.objects a t₁ ht₁
      exact ⟨t₂, ht₂, hid₂.trans hid₁⟩

/-- Each topic is made or updated in its own turn. -/
private theorem shows_of_forM {s : TopicManagerImpl} (hs : Apart s)
    (hrecords : ∀ q ∈ content, (q.records.map SubscriberRecord.id).Nodup)
    (hnames : (content.map fun q => identityToTopicName q.id).Nodup)
    (hids : ∀ q ∈ content, ∀ t, s.entry (identityToTopicName q.id) = some t → t.id = q.id)
    (h : content.forM TopicManagerImpl.initInstall s = .ok () s') :
    (∀ name, (∀ q ∈ content, identityToTopicName q.id ≠ name) → s'.entry name = s.entry name) ∧
      ∀ before q after, content = before ++ q :: after →
        ∃ t', s'.entry (identityToTopicName q.id) = some t' ∧
          ((∃ t, s.entry (identityToTopicName q.id) = some t ∧ (Shows t' q ↔ Unchanged t q)) ∨
            s.entry (identityToTopicName q.id) = none ∧
              (Shows t' q ↔ (final (before.forM TopicManagerImpl.initInstall) s).Fits q)) := by
  induction content generalizing s with
  | nil =>
    cases h
    refine ⟨fun _ _ => rfl, ?_⟩
    intro before q after hsplit
    simp at hsplit
  | cons x rest ih =>
    obtain ⟨hx, hrest⟩ := nodup_cons.mp hnames
    obtain ⟨_, s₁, hfirst, hlater⟩ := ok_of_bind h
    have hturn := (initInstall_returns (hrecords x (mem_cons_self ..))).of_ok rfl hfirst
    obtain ⟨hapart, hframe⟩ := hturn.apart hs
    have hother : ∀ q ∈ rest, identityToTopicName q.id ≠ identityToTopicName x.id := by
      intro q hq heq
      exact hx (mem_map.mpr ⟨q, hq, heq⟩)
    obtain ⟨hsame, hall⟩ := ih hapart (fun q hq => hrecords q (mem_cons_of_mem x hq)) hrest
      (fun q hq t ht => hids q (mem_cons_of_mem x hq) t (hframe _ (hother q hq) ▸ ht)) hlater
    constructor
    · intro name hname
      rw [hsame name fun q hq => hname q (mem_cons_of_mem x hq)]
      exact hframe name (hname x (mem_cons_self ..)).symm
    · intro before q after hsplit
      cases before with
      | nil =>
        obtain ⟨rfl, rfl⟩ := cons.inj hsplit
        obtain ⟨t', ht', hcases⟩ := hturn.shows_iff (hrecords x (mem_cons_self ..))
          (hids x (mem_cons_self ..))
        refine ⟨t', ?_, hcases⟩
        rw [hsame _ hother, ht']
      | cons y before =>
        obtain ⟨rfl, hat⟩ := cons.inj hsplit
        change rest = before ++ q :: after at hat
        have hq : q ∈ rest := by
          rw [hat]
          simp
        have hrun : final ((x :: before).forM TopicManagerImpl.initInstall) s =
            final (before.forM TopicManagerImpl.initInstall) s₁ := final_bind hfirst _
        rw [hrun, ← hframe _ (hother q hq)]
        exact hall before q after hat

end Loop

/-- The memory and the database are the content. -/
structure TopicManagerImpl.Replicated (m : TopicManagerImpl) (llu : LogUpdate)
    (content : List TopicContent) : Prop where
  every : ∀ q ∈ content, ∃ t, m.entry (identityToTopicName q.id) = some t ∧ Shows t q
  only : ∀ name t, m.entry name = some t →
    ∃ q ∈ content, identityToTopicName q.id = name ∧ Shows t q
  stored : ∀ k v, m.db.subscriberMap[k]? = some v ↔ ∃ q ∈ content, q.Leaves k v
  llu : m.db.getLLU = llu

/-- The state in which the second scan comes to a topic. -/
def TopicManagerImpl.turn (m : TopicManagerImpl) (f : Faults) (llu : LogUpdate)
    (content before : List TopicContent) : TopicManagerImpl :=
  final (do
    transaction f.database fun db => ((), db.initContent llu content)
    (← get).topics.toList.forM (initRemove f llu content)
    before.forM initInstall) m

/-- No two topics of the content have one name, a topic that is there can stay with its subscribers,
and a topic that is not can be installed with all of its own when its turn comes. -/
structure Mirrorable (m : TopicManagerImpl) (f : Faults) (llu : LogUpdate)
    (content : List TopicContent) : Prop where
  names : (content.map fun q => identityToTopicName q.id).Nodup
  placed : ∀ name t, m.entry name = some t → (∃ q ∈ content, q.id = t.id) →
    identityToTopicName t.id = name
  unchanged : ∀ q ∈ content, ∀ t, m.kept q = some t → Unchanged t q
  fits : ∀ before q after, content = before ++ q :: after → m.kept q = none →
    (m.turn f llu content before).Fits q

/-- The three parts of an `observerInit` that returns -/
private theorem observerInit_parts {m m' : TopicManagerImpl} {f : Faults} {llu : LogUpdate}
    {content : List TopicContent} (h : observerInit f llu content m = .ok () m') :
    ∃ s, Cleared m content [] s ∧
      (∀ before, m.turn f llu content before =
        final (before.forM TopicManagerImpl.initInstall) s) ∧
      content.forM TopicManagerImpl.initInstall s = .ok () m' := by
  obtain ⟨_, s₀, htxn, hafter⟩ := ok_of_bind h
  obtain ⟨_, _, hget, hafter⟩ := ok_of_bind hafter
  cases hget
  obtain ⟨_, s₁, hscan, hloop⟩ := ok_of_bind hafter
  have hs₀ : s₀ = { m with db := m.db.initContent llu content } := by
    have hspec : Spec (· = m)
        ((transaction f.database fun db => ((), db.initContent llu content)) >>= pure)
        (fun _ s => s = { m with db := m.db.initContent llu content }) Thrown :=
      transaction_bind (fun _ => trivial) fun _ => Spec.pure fun s hs => hs
    rw [bind_pure] at hspec
    exact hspec.of_ok rfl htxn
  subst hs₀
  refine ⟨s₁, ?_, ?_, hloop⟩
  · have hstart : Cleared m content m.topics.toList
        { m with db := m.db.initContent llu content } := by
      refine ⟨rfl, fun a t ht => ⟨t, ht, rfl, fun _ => rfl⟩, ?_, ?_, ?_⟩
      · intro e he
        exact Std.ExtTreeMap.mem_toList_iff_getElem?_eq_some.mp he
      · rw [Std.ExtTreeMap.map_fst_toList_eq_keys]
        exact nodup_keys
      · intro name a
        rw [Std.ExtTreeMap.mem_toList_iff_getElem?_eq_some]
        tauto
    exact (Spec.forM m.topics.toList initRemove_returns).of_ok hstart hscan
  · intro before
    unfold TopicManagerImpl.turn
    rw [final_bind htxn]
    exact final_bind hscan _

/-- Where `observerInit` returns the replica holds the content if and only if nothing of what it had
stands in the way. -/
theorem observerInit_replicated_iff {m m' : TopicManagerImpl} {f : Faults} {llu : LogUpdate}
    {content : List TopicContent} (hids : (content.map TopicContent.id).Nodup)
    (hrecords : ∀ q ∈ content, (q.records.map SubscriberRecord.id).Nodup)
    (h : observerInit f llu content m = .ok () m') :
    m'.Replicated llu content ↔ Mirrorable m f llu content := by
  obtain ⟨hmap, hllu⟩ := observerInit_ok h
  have hstored (k : SubscriberRecordKey) (v : SubscriberRecord) :
      m'.db.subscriberMap[k]? = some v ↔ ∃ q ∈ content, q.Leaves k v := by
    rw [hmap]
    exact Database.getElem?_initContent_iff hids hrecords
  obtain ⟨s₁, hcleared, hturn, hloop⟩ := observerInit_parts h
  have hentry (name : String) (t : TopicImpl) :
      s₁.entry name = some t ↔ m.entry name = some t ∧ ∃ q ∈ content, q.id = t.id :=
    hcleared.entry_eq_some
  have hpersists := persists_of_forM hrecords hloop
  -- where the replica holds the content, names are distinct and lead to their topics
  have hdistinct (hrep : m'.Replicated llu content) :
      (content.map fun q => identityToTopicName q.id).Nodup := by
    apply (List.nodup_map_iff_inj_on (List.Nodup.of_map _ hids)).mpr
    intro q hq q' hq' hname
    obtain ⟨t, ht, hshows⟩ := hrep.every q hq
    obtain ⟨t', ht', hshows'⟩ := hrep.every q' hq'
    rw [hname, ht'] at ht
    obtain rfl := some.inj ht
    exact List.inj_on_of_nodup_map hids hq hq' (hshows.id.symm.trans hshows'.id)
  have hplaced (hrep : m'.Replicated llu content) : ∀ name t, m.entry name = some t →
      (∃ q ∈ content, q.id = t.id) → identityToTopicName t.id = name := by
    intro name t ht hin
    obtain ⟨a, ha, ht₁⟩ := entry_eq_some.mp ((hentry name t).mpr ⟨ht, hin⟩)
    obtain ⟨t', ht', hid⟩ := hpersists.objects a t ht₁
    obtain ⟨q, -, hname, hshows⟩ := hrep.only name t'
      (entry_eq_some.mpr ⟨a, hpersists.topics name a ha, ht'⟩)
    rw [← hid, hshows.id, hname]
  -- with such names each topic has a turn of its own
  have hsplit (hnames : (content.map fun q => identityToTopicName q.id).Nodup)
      (hplaced : ∀ name t, m.entry name = some t → (∃ q ∈ content, q.id = t.id) →
        identityToTopicName t.id = name) :
      m'.Replicated llu content ↔ (∀ q ∈ content, ∀ t, m.kept q = some t → Unchanged t q) ∧
        ∀ before q after, content = before ++ q :: after → m.kept q = none →
          (m.turn f llu content before).Fits q := by
    have hkept : ∀ q ∈ content, s₁.entry (identityToTopicName q.id) = m.kept q := by
      intro q hq
      ext t
      rw [hentry, kept_eq_some, ← entry_eq_some]
      apply and_congr_right
      intro ht
      constructor
      · rintro ⟨q', hq', hid⟩
        have hname := hplaced _ t ht ⟨q', hq', hid⟩
        rw [← hid] at hname
        rw [← hid, List.inj_on_of_nodup_map hnames hq' hq hname]
      · intro hid
        exact ⟨q, hq, hid.symm⟩
    have hown : ∀ q ∈ content, ∀ t, s₁.entry (identityToTopicName q.id) = some t →
        t.id = q.id := by
      intro q hq t ht
      rw [hkept q hq] at ht
      exact (kept_eq_some.mp ht).2
    obtain ⟨hframe, hturns⟩ := shows_of_forM (hcleared.apart hplaced) hrecords hnames hown hloop
    constructor
    · intro hrep
      have hshown (q : TopicContent) (hq : q ∈ content) (t : TopicImpl)
          (ht : m'.entry (identityToTopicName q.id) = some t) : Shows t q := by
        obtain ⟨t', ht', hshows⟩ := hrep.every q hq
        rw [ht'] at ht
        exact some.inj ht ▸ hshows
      constructor
      · intro q hq t ht
        obtain ⟨before, after, hat⟩ := List.append_of_mem hq
        obtain ⟨t', ht', ⟨t₁, ht₁, hiff⟩ | ⟨hnone, -⟩⟩ := hturns before q after hat
        · rw [hkept q hq, ht] at ht₁
          rw [some.inj ht₁]
          exact hiff.mp (hshown q hq t' ht')
        · rw [hkept q hq, ht] at hnone
          cases hnone
      · intro before q after hat hnone
        have hq : q ∈ content := by
          rw [hat]
          simp
        obtain ⟨t', ht', ⟨t₁, ht₁, -⟩ | ⟨-, hiff⟩⟩ := hturns before q after hat
        · rw [hkept q hq, hnone] at ht₁
          cases ht₁
        · rw [hturn]
          exact hiff.mp (hshown q hq t' ht')
    · rintro ⟨hunchanged, hfits⟩
      have hevery : ∀ q ∈ content, ∃ t, m'.entry (identityToTopicName q.id) = some t ∧
          Shows t q := by
        intro q hq
        obtain ⟨before, after, hat⟩ := List.append_of_mem hq
        obtain ⟨t', ht', ⟨t₁, ht₁, hiff⟩ | ⟨hnone, hiff⟩⟩ := hturns before q after hat
        · rw [hkept q hq] at ht₁
          exact ⟨t', ht', hiff.mpr (hunchanged q hq t₁ ht₁)⟩
        · rw [hkept q hq] at hnone
          have hfit := hfits before q after hat hnone
          rw [hturn] at hfit
          exact ⟨t', ht', hiff.mpr hfit⟩
      refine ⟨hevery, ?_, hstored, hllu⟩
      intro name t ht
      by_cases hname : ∃ q ∈ content, identityToTopicName q.id = name
      · obtain ⟨q, hq, rfl⟩ := hname
        obtain ⟨t', ht', hshows⟩ := hevery q hq
        rw [ht] at ht'
        exact ⟨q, hq, rfl, some.inj ht' ▸ hshows⟩
      · rw [hframe name fun q hq heq => hname ⟨q, hq, heq⟩, hentry] at ht
        obtain ⟨ht, q, hq, hid⟩ := ht
        have := hplaced name t ht ⟨q, hq, hid⟩
        exact absurd ⟨q, hq, hid ▸ this⟩ hname
  constructor
  · intro hrep
    obtain ⟨hunchanged, hfits⟩ := (hsplit (hdistinct hrep) (hplaced hrep)).mp hrep
    exact ⟨hdistinct hrep, hplaced hrep, hunchanged, hfits⟩
  · intro hm
    exact (hsplit hm.names hm.placed).mpr ⟨hm.unchanged, hm.fits⟩

/-- A record of the proxy of the example -/
private def sampleRecord (qos : QoS) : SubscriberRecord where
  topicName := "t"
  id := ⟨"s", ""⟩
  link := false
  obj := some .sample
  theQoS := qos
  cost := 0
  theTopic := none

/-- A topic with one subscriber -/
private def sampleContent (qos : QoS) : List TopicContent :=
  [⟨⟨"topic.t", "IceStorm"⟩, [sampleRecord qos]⟩]

/-- The topic of the example with its subscriber, and two topics without any -/
private def threeTopics : TopicManagerImpl :=
  final (Operation.create .none "k").program
    (final (Operation.create .none "x").program subscribedExample)

/-- One topic stays, one has another subscriber, one is new, and one is left out. -/
private def changedContent : List TopicContent :=
  [⟨⟨"topic.k", "IceStorm"⟩, []⟩,
    ⟨⟨"topic.t", "IceStorm"⟩, [{ sampleRecord [] with id := ⟨"r", ""⟩ }]⟩,
    ⟨⟨"topic.u", "IceStorm"⟩, [{ sampleRecord [] with topicName := "u" }]⟩]

theorem observerInit_replicated_sample :
    (final (observerInit .none ⟨2, 0⟩ changedContent) threeTopics).Replicated ⟨2, 0⟩
      changedContent := by
  have hreturns : returns (observerInit .none ⟨2, 0⟩ changedContent) threeTopics = true := by
    decide +kernel
  obtain ⟨_, hok⟩ := eq_ok_of_returns hreturns
  apply (observerInit_replicated_iff (by decide) (by decide) hok).mpr
  have hkept : ∀ q ∈ changedContent.take 2, (threeTopics.kept q).isSome = true := by decide +kernel
  refine ⟨by decide, ?_, ?_, ?_⟩
  · have hplaced : ∀ e ∈ threeTopics.topics.toList, (threeTopics.objects[e.2]?).all
        (fun t => identityToTopicName t.id = e.1) = true := by decide +kernel
    intro name t ht _
    obtain ⟨a, ha, hobject⟩ := entry_eq_some.mp ht
    have hname := hplaced (name, a) (Std.ExtTreeMap.mem_toList_iff_getElem?_eq_some.mpr ha)
    rw [hobject] at hname
    exact of_decide_eq_true hname
  · have hunchanged : ∀ q ∈ changedContent, (threeTopics.kept q).all (fun t =>
        t.destroyed = false ∧ (∀ s ∈ t.subscribers, ∀ r ∈ q.records, s.id = r.id → s.record = r) ∧
        ((t.keep q.records).subscribers.map Subscriber.id).Nodup) = true := by decide +kernel
    intro q hq t ht
    have hall := hunchanged q hq
    rw [ht] at hall
    obtain ⟨hlive, hsame, hdistinct⟩ := of_decide_eq_true hall
    exact ⟨hlive, hsame, hdistinct⟩
  · intro before q after hsplit hnone
    have hbefore : before = changedContent.take before.length := by
      rw [hsplit, List.take_left' rfl]
    have hq : changedContent[before.length]? = some q := by
      rw [hsplit, List.getElem?_append_right (Nat.le_refl _), Nat.sub_self, List.getElem?_cons_zero]
    have hlength : before.length < 3 := (List.getElem?_eq_some_iff.mp hq).1
    have htwo : ¬before.length < 2 := by
      intro hlt
      have hsome := hkept q (List.mem_of_getElem? ((List.getElem?_take_of_lt hlt).trans hq))
      rw [hnone] at hsome
      cases hsome
    obtain hn : before.length = 2 := by omega
    rw [hn] at hbefore hq
    rw [hbefore]
    cases hq
    exact ⟨by decide +kernel, by decide +kernel, by decide +kernel⟩

/-- The subscriber of a topic has been subscribed again with another QoS at the master. -/
theorem exists_not_replicated :
    ¬ ∀ (inst : Instance) (m m' : TopicManagerImpl) (f : Faults) (llu : LogUpdate)
        (content : List TopicContent), Reach TopicManagerImpl.step Any (.started inst) m →
      (content.map TopicContent.id).Nodup →
      (∀ q ∈ content, (q.records.map SubscriberRecord.id).Nodup) →
      observerInit f llu content m = .ok () m' → m'.Replicated llu content := by
  intro h
  let content := sampleContent [("reliability", "ordered")]
  let m' := final (observerInit .none ⟨1, 0⟩ content) subscribedExample
  have hreturns : returns (observerInit .none ⟨1, 0⟩ content)
      subscribedExample = true := by decide +kernel
  obtain ⟨_, hok⟩ := eq_ok_of_returns hreturns
  have hreach := reach_subscribedExample.mono fun _ _ _ => trivial
  have hrep := h .defaults subscribedExample m' .none ⟨1, 0⟩ content hreach (by decide) (by decide)
    hok
  obtain ⟨t, ht, hshows⟩ := hrep.every _ (mem_cons_self ..)
  -- the subscriber has kept its record
  have hold : (m'.entry "t").map (fun t => t.subscribers.map Subscriber.record) =
      some [sampleRecord []] := by decide +kernel
  have hname : identityToTopicName ⟨"topic.t", "IceStorm"⟩ = "t" := by decide
  rw [hname] at ht
  rw [ht, Option.map_some, Option.some.injEq] at hold
  have hperm := hshows.records
  rw [hold, List.perm_singleton] at hperm
  exact absurd hperm (by decide)

end Ice.IceStorm
