import Ice.IceStorm.Operations

/-!
# Programs that finish

A topic is installed, and a subscriber is made, when the identities of the publishers
that it registers are free and its record passes the checks. These lemmas run the
programs of `TopicImpl` where nothing stands in their way.
-/

namespace Ice.IceStorm

open Ice.Lib IceStormElection
open TopicImpl (findSubscriber recreate updateAdd)

/-- A record that passes the checks of `Subscriber::create`. -/
def Subscriber.creatable (inst : Instance) (rec : SubscriberRecord) : Bool :=
  rec.obj.any fun obj =>
    if rec.link then (checkTimeout inst.sendTimeout).isOk else (configure inst rec obj).isOk

/-- The publishers that `Subscriber::create` registers. -/
def Subscriber.wanted (inst : Instance) (rec : SubscriberRecord) : List Identity :=
  if rec.link then [] else (rec.obj.map (perId inst rec)).toList

/-- The publishers that the constructor of a topic registers. -/
def TopicImpl.wanted (inst : Instance) (name : String) (id : Identity)
    (records : List SubscriberRecord) : List Identity :=
  (publisherIds name id).1 :: (publisherIds name id).2 ::
    records.flatMap (Subscriber.wanted inst)

/-- The records that have no subscriber yet. -/
def TopicImpl.missing (records : List SubscriberRecord) (t : TopicImpl) :
    List SubscriberRecord :=
  records.filter fun r => (t.findSubscriber r.id).isNone

/-- Several subscribers are added. -/
def TopicImpl.append (added : List Subscriber) (t : TopicImpl) : TopicImpl :=
  { t with subscribers := t.subscribers ++ added }

/-- The first scan of `update`. -/
def TopicImpl.keep (records : List SubscriberRecord) (t : TopicImpl) : TopicImpl :=
  { t with
    subscribers :=
      (t.subscribers.filter fun s => records.any fun r => s.id = r.id).map
        Subscriber.resetIfReaped }

@[simp] theorem Subscriber.resetIfReaped_record (s : Subscriber) :
    s.resetIfReaped.record = s.record := by
  unfold resetIfReaped
  split_ifs <;> rfl

@[simp] theorem Subscriber.resetIfReaped_id (s : Subscriber) : s.resetIfReaped.id = s.id := by
  rw [id, id, resetIfReaped_record]

/-- The first scan of `update` leaves no subscriber of the records out. -/
theorem TopicImpl.missing_keep (t : TopicImpl) (records : List SubscriberRecord) :
    (t.keep records).missing records = t.missing records := by
  refine List.filter_congr fun r hr => ?_
  rw [Bool.eq_iff_iff, Option.isNone_iff_eq_none, Option.isNone_iff_eq_none]
  simp only [findSubscriber, TopicImpl.keep, List.find?_eq_none, List.mem_map,
    List.mem_filter, decide_eq_true_eq, forall_exists_index, and_imp]
  constructor
  · intro h s hs hid
    exact h s.resetIfReaped s hs (List.any_eq_true.mpr ⟨r, hr, by simpa using hid⟩) rfl
      (by simpa using hid)
  · rintro h _ s hs _ rfl hid
    exact h s hs (by simpa using hid)

/-- Identities that can be registered one after the other. -/
structure Free (pa ids : List Identity) : Prop where
  nodup : ids.Nodup
  unused : ∀ id ∈ ids, id ∉ pa

namespace Free

variable {pa pa' ids ids' : List Identity}

theorem nil : Free pa [] := ⟨List.nodup_nil, by simp⟩

theorem left (h : Free pa (ids ++ ids')) : Free pa ids :=
  ⟨(List.nodup_append.mp h.nodup).1, fun id hid => h.unused id (List.mem_append_left _ hid)⟩

/-- After the first identities were registered the others are still free. -/
theorem right (h : Free pa (ids ++ ids')) (hpa : pa' ⊆ ids ++ pa) : Free pa' ids' := by
  obtain ⟨_, hright, hcross⟩ := List.nodup_append.mp h.nodup
  refine ⟨hright, fun id hid hmem => ?_⟩
  rcases List.mem_append.mp (hpa hmem) with hleft | hold
  · exact hcross id hleft id hid rfl
  · exact h.unused id (List.mem_append_right _ hid) hold

theorem mono (h : Free pa ids) (hpa : pa' ⊆ pa) : Free pa' ids :=
  ⟨h.nodup, fun id hid hmem => h.unused id hid (hpa hmem)⟩

end Free

/-- Registrations in two rounds. -/
theorem subset_append_of_subset {pa pa₁ pa₂ ids ids' : List Identity} (h₁ : pa₁ ⊆ ids ++ pa)
    (h₂ : pa₂ ⊆ ids' ++ pa₁) : pa₂ ⊆ (ids ++ ids') ++ pa := by
  intro id hid
  have hin := h₂ hid
  have hone := @h₁ id
  simp only [List.mem_append] at hin hone ⊢
  tauto

theorem TopicImpl.publisherIds_name (name : String) (id : Identity) :
    (publisherIds name id).1.name ≠ "" ∧ (publisherIds name id).2.name ≠ "" := by
  have hlength : ∀ s : String, s ≠ "" → name ++ s ≠ "" := by
    intro s hs h
    have hlist := congrArg String.toList h
    rw [String.toList_append] at hlist
    exact hs (String.toList_injective (List.append_eq_nil_iff.mp hlist).2)
  unfold publisherIds
  by_cases hc : id.category = ""
  · rw [if_pos hc]
    exact ⟨show "publish" ≠ "" by decide, show "link" ≠ "" by decide⟩
  · rw [if_neg hc]
    exact ⟨hlength ".publish" (by decide), hlength ".link" (by decide)⟩

section Steps

variable {α : Type} {m : TopicManagerImpl} {a : Nat} {t : TopicImpl}
  {Q : α → TopicManagerImpl → Prop} {R : StormException → TopicManagerImpl → Prop}
  {k : Unit → StormM α} {id : Identity}

theorem addPublisher_ok_bind (hname : id.name ≠ "")
    (hfree : id ∉ m.publishAdapter)
    (hok : Spec (· = { m with publishAdapter := id :: m.publishAdapter }) (k ()) Q R) :
    Spec (· = m) (addPublisher id >>= k) Q R := by
  refine addPublisher_bind (fun e he => ?_) fun _ _ => hok
  exact absurd he (not_or.mpr ⟨hname, hfree⟩)

theorem create_ok_bind {record : SubscriberRecord} {k : Subscriber → StormM α}
    (hc : Subscriber.creatable m.inst record = true)
    (hfree : Free m.publishAdapter (Subscriber.wanted m.inst record))
    (hok : ∀ s, s.record = record →
      Spec (· = { m with
        publishAdapter := Subscriber.wanted m.inst record ++ m.publishAdapter }) (k s) Q R) :
    Spec (· = m) (Subscriber.create record >>= k) Q R := by
  unfold Subscriber.create
  rw [bind_assoc]
  refine get_bind ?_
  unfold Subscriber.creatable at hc
  unfold Subscriber.wanted at hfree hok
  cases hobj : record.obj with
  | none => simp [hobj] at hc
  | some obj =>
    simp only [hobj, Option.any_some, Option.map_some, Option.toList_some] at hc hfree hok
    dsimp only
    by_cases hlink : record.link = true
    · simp only [hlink, if_true, List.nil_append] at hc hok ⊢
      cases ht : Subscriber.checkTimeout m.inst.sendTimeout with
      | error e => simp [ht, Except.isOk, Except.toBool] at hc
      | ok _ => exact hok _ rfl
    · simp only [hlink, Bool.false_eq_true, if_false, List.singleton_append] at hc hfree hok ⊢
      rw [bind_assoc]
      refine addPublisher_ok_bind ?_ (hfree.unused _ (by simp)) ?_
      · intro h
        have hlist := congrArg String.toList h
        simp [Subscriber.perId] at hlist
      · cases hs : Subscriber.configure m.inst record obj with
        | error e => simp [hs, Except.isOk, Except.toBool] at hc
        | ok s => exact hok s (configure_eq hs).1

/-- All subscribers of the records are made. -/
theorem recreate_ok_bind {k : List Subscriber → StormM α} :
    ∀ {m : TopicManagerImpl} {records : List SubscriberRecord},
      (∀ r ∈ records, Subscriber.creatable m.inst r = true) →
      Free m.publishAdapter (records.flatMap (Subscriber.wanted m.inst)) →
      (∀ subscribers, subscribers.map Subscriber.record = records →
        ∀ pa ⊆ records.flatMap (Subscriber.wanted m.inst) ++ m.publishAdapter,
          Spec (· = { m with publishAdapter := pa }) (k subscribers) Q R) →
        Spec (· = m) (recreate records >>= k) Q R
  | m, [], _, _, hok => hok [] rfl m.publishAdapter (List.Subset.refl _)
  | m, record :: rest, hc, hfree, hok => by
    have hrecord := hc record (List.mem_cons_self ..)
    rw [List.flatMap_cons] at hfree
    unfold recreate
    rw [bind_assoc]
    refine throwIf_bind (fun h => ?_) fun _ => ?_
    · simp [Subscriber.creatable, h] at hrecord
    simp only [bind_assoc, pure_bind]
    -- the subscriber of the first record is made
    refine Spec.bind (Q := fun before s => ∃ x : Subscriber, x.record = record ∧ before = [x] ∧
      s = { m with publishAdapter := Subscriber.wanted m.inst record ++ m.publishAdapter })
      (Spec.tryCatch (T := fun _ _ => False) ?_ fun e s hs => hs.elim) fun before => ?_
    · exact create_ok_bind hrecord hfree.left fun x hx => Spec.pure fun s hs => ⟨x, hx, rfl, hs⟩
    rintro _ ⟨x, hx, rfl, rfl⟩
    let m' : TopicManagerImpl :=
      { m with publishAdapter := Subscriber.wanted m.inst record ++ m.publishAdapter }
    refine recreate_ok_bind (m := m') (fun r hr => hc r (List.mem_cons_of_mem record hr))
      (hfree.right (List.Subset.refl _)) (fun after hafter pa hpa => ?_) m' rfl
    refine hok ([x] ++ after) (by simp [hx, hafter]) pa ?_
    exact List.flatMap_cons ▸ subset_append_of_subset (List.Subset.refl _) hpa

variable {records : List SubscriberRecord}

theorem installTopic_ok_bind {name : String}
    {k : Identity → StormM α} (hname : id.name ≠ "") (hid : id ∉ m.topicAdapter)
    (hc : ∀ r ∈ records, Subscriber.creatable m.inst r = true)
    (hfree : Free m.publishAdapter (TopicImpl.wanted m.inst name id records))
    (hok : ∀ subscribers, subscribers.map Subscriber.record = records →
      ∀ pa ⊆ TopicImpl.wanted m.inst name id records ++ m.publishAdapter,
        Spec (· = { m.install ⟨name, id, false, subscribers⟩ with
          topicAdapter := m.topicAdapter.insert id m.objects.length
          publishAdapter := pa }) (k id) Q R) :
    Spec (· = m) (TopicManagerImpl.installTopic name id records >>= k) Q R := by
  obtain ⟨hpublish, hlink⟩ := TopicImpl.publisherIds_name name id
  have hrest : Free m.publishAdapter ([(TopicImpl.publisherIds name id).1,
      (TopicImpl.publisherIds name id).2] ++ records.flatMap (Subscriber.wanted m.inst)) := hfree
  have htwo := List.nodup_cons.mp hrest.left.nodup
  unfold TopicManagerImpl.installTopic TopicImpl.new
  simp only [bind_assoc, pure_bind]
  refine addPublisher_ok_bind hpublish (hrest.left.unused _ (by simp)) ?_
  refine addPublisher_ok_bind hlink ?_ ?_
  · intro h
    rcases List.mem_cons.mp h with heq | hold
    · exact htwo.1 (by simp [heq])
    · exact hrest.left.unused _ (by simp) hold
  refine recreate_ok_bind hc (hrest.right ?_) fun subscribers hsub pa hpa => modify_bind ?_
  · intro x hx
    simp only [List.mem_cons, List.mem_append] at hx ⊢
    tauto
  refine throwIf_bind (fun h => absurd h hname) fun _ => get_bind ?_
  refine throwIf_bind (fun h => absurd h hid) fun _ => set_bind ?_
  simp only [List.length_append, List.length_singleton, Nat.add_sub_cancel]
  refine hok subscribers hsub pa fun x hx => ?_
  have hin := hpa hx
  simp only [TopicImpl.wanted, List.mem_cons, List.mem_append] at hin ⊢
  tauto

/-- The second scan of `update` makes the subscribers that do not exist. -/
theorem updateAdd_ok_bind :
    ∀ {m : TopicManagerImpl} {t : TopicImpl} {records : List SubscriberRecord},
      m.objects[a]? = some t → (records.map SubscriberRecord.id).Nodup →
      (∀ r ∈ t.missing records, Subscriber.creatable m.inst r = true) →
      Free m.publishAdapter ((t.missing records).flatMap (Subscriber.wanted m.inst)) →
      (∀ added : List Subscriber, added.map Subscriber.record = t.missing records →
        ∀ pa ⊆ (t.missing records).flatMap (Subscriber.wanted m.inst) ++ m.publishAdapter,
          Spec (· = { m with
            objects := m.objects.modify a (TopicImpl.append added)
            publishAdapter := pa }) (k ()) Q R) →
        Spec (· = m) (records.forM (updateAdd a) >>= k) Q R
  | m, t, [], ha, _, _, _, hok => by
    have hsame : m.objects.modify a (TopicImpl.append []) = m.objects := by
      have hid : TopicImpl.append [] = id := by
        funext t
        simp [TopicImpl.append]
      rw [hid, List.modify_id]
    have hk := hok [] rfl m.publishAdapter (List.Subset.refl _)
    rw [hsame] at hk
    exact hk
  | m, t, r :: rest, ha, hnodup, hc, hfree, hok => by
    obtain ⟨hr, hrest⟩ := List.nodup_cons.mp hnodup
    change Spec _ ((updateAdd a r >>= fun _ => rest.forM (updateAdd a))
      >>= k) Q R
    unfold updateAdd
    simp only [bind_assoc]
    refine getTopic_bind ha ?_
    by_cases hnew : (t.findSubscriber r.id).isNone = true
    · have hmissing : t.missing (r :: rest) = r :: t.missing rest := by
        simp [TopicImpl.missing, hnew]
      rw [hmissing, List.flatMap_cons] at hfree hok
      rw [hmissing] at hc
      rw [if_pos hnew, bind_assoc]
      refine create_ok_bind (hc r (List.mem_cons_self ..)) hfree.left fun s hs => ?_
      refine modifyTopic_bind ?_
      -- the new subscriber is not one of those that are still missing
      have hpush : (t.push s).missing rest = t.missing rest := by
        refine List.filter_congr fun r' hr' => ?_
        have hne : s.id ≠ r'.id := by
          intro heq
          rw [Subscriber.id, hs] at heq
          exact hr (heq ▸ List.mem_map_of_mem hr')
        simp [findSubscriber, TopicImpl.push, hne]
      refine updateAdd_ok_bind (t := t.push s) (by simp [ha]) hrest ?_ ?_
        fun added hadded pa hpa => ?_
      · rw [hpush]
        exact fun r' hr' => hc r' (List.mem_cons_of_mem r hr')
      · rw [hpush]
        exact hfree.right (List.Subset.refl _)
      · rw [hpush] at hadded hpa
        have hcompose : TopicImpl.append added ∘ TopicImpl.push s =
            TopicImpl.append (s :: added) := by
          funext t
          simp [TopicImpl.append, TopicImpl.push]
        rw [List.modify_modify_eq, hcompose]
        exact hok (s :: added) (by simp [hs, hadded]) pa
          (subset_append_of_subset (List.Subset.refl _) hpa)
    · have hmissing : t.missing (r :: rest) = t.missing rest := by
        simp [TopicImpl.missing, hnew]
      rw [hmissing] at hc hfree hok
      rw [if_neg hnew, pure_bind]
      exact updateAdd_ok_bind ha hrest hc hfree hok

theorem update_ok_bind
    (ha : m.objects[a]? = some t) (hnodup : (records.map SubscriberRecord.id).Nodup)
    (hc : ∀ r ∈ t.missing records, Subscriber.creatable m.inst r = true)
    (hfree : Free m.publishAdapter ((t.missing records).flatMap (Subscriber.wanted m.inst)))
    (hok : ∀ added : List Subscriber, added.map Subscriber.record = t.missing records →
      ∀ pa ⊆ (t.missing records).flatMap (Subscriber.wanted m.inst) ++ m.publishAdapter,
        Spec (· = { m with
          objects := m.objects.modify a (TopicImpl.append added ∘ TopicImpl.keep records)
          publishAdapter := pa }) (k ()) Q R) :
    Spec (· = m) (TopicImpl.update a records >>= k) Q R := by
  unfold TopicImpl.update TopicImpl.updateRemove
  simp only [bind_assoc]
  refine getTopic_bind ha (destroyAll_bind fun pa hpa => modifyTopic_bind ?_)
  refine updateAdd_ok_bind (t := t.keep records) (by simp [ha, TopicImpl.keep]) hnodup ?_ ?_
    fun added hadded pa' hpa' => ?_
  · rw [TopicImpl.missing_keep]
    exact hc
  · rw [TopicImpl.missing_keep]
    exact hfree.mono hpa
  · rw [TopicImpl.missing_keep] at hadded hpa'
    have hk := hok added hadded pa' fun id hid => ?_
    · rw [List.modify_modify_eq]
      exact hk
    · rcases List.mem_append.mp (hpa' hid) with hin | hin
      · exact List.mem_append_left _ hin
      · exact List.mem_append_right _ (hpa hin)

end Steps

end Ice.IceStorm
