import Ice.IceStorm.Initialization

/-!
# Operations one after the other

While no operation is running, requests reach the topic objects that have a servant.
Memory and database stay together as long as every operation that has committed also
finishes in memory. `create` does not when the observers do not confirm the topic: its
placeholder is stored and no topic object is made.
-/

namespace Ice.IceStorm

open Ice.Lib IceStormElection
open TopicManagerImpl (findTopic installTopic known reap started)

/-- The requests that are dispatched while no operation is running. -/
def Dispatched (m : TopicManagerImpl) : Request → Prop
  | .topic a _ => ∃ id : Identity, m.topicAdapter[id]? = some a
  | .manager _ => True
  | .restart _ => False

/-- The publishers of a topic without subscribers are free. -/
def TopicManagerImpl.CanInstall (m : TopicManagerImpl) (name : String) : Prop :=
  Free m.publishAdapter (TopicImpl.wanted m.inst name (nameToIdentity m.inst name) [])

/-- Where an operation that commits also finishes in memory. -/
def KeepsAgreement (m : TopicManagerImpl) : Request → Prop
  | .topic a op =>
    op.Proper ∧
      (op.destroyFails = true → ∀ t, m.objects[a]? = some t → t.name ∉ m.topicReaper)
  | .manager (.create f name) =>
    m.known name = none → f.database = false → f.replication = false ∧ m.CanInstall name
  | .manager (.observerCreateTopic f _ name) =>
    f.database = false →
      SubscriberRecordKey.placeholder (nameToIdentity m.inst name) ∉ m.db.subscriberMap →
        name ∉ m.topics ∧ m.CanInstall name
  | .manager (.observerDestroyTopic f _ name) =>
    ∀ (a : Nat) (t : TopicImpl), m.topics[name]? = some a → m.objects[a]? = some t →
      (t.destroyed = true → name ∈ m.topicReaper) ∧
        (f.database = true → t.destroyed = false → name ∉ m.topicReaper)
  | .manager (.observerAddSubscriber _ _ name record) =>
    record.id ≠ .empty ∧
      ∀ (a : Nat) (t : TopicImpl), m.topics[name]? = some a → m.objects[a]? = some t →
        ¬(t.destroyed = true ∧ name ∈ m.topicReaper)
  | .manager (.observerRemoveSubscriber _ _ _ ids) => Identity.empty ∉ ids
  | .manager (.observerInit f _ content) => f.database = false → Initializable m f content
  | _ => True

section Steps

variable {m m' : TopicManagerImpl} {a : Nat} {t : TopicImpl}

variable {name : String} {f : Faults} {llu : LogUpdate}

/-- The identity of a free name has no servant. -/
theorem Registry.nameToIdentity_notMem (h : Registry m) (hfree : name ∉ m.topics) :
    nameToIdentity m.inst name ∉ m.topicAdapter := by
  intro hmem
  obtain ⟨a, ha⟩ := mem_topicAdapter_iff.mp hmem
  obtain ⟨t, ht, hid, hentry, _⟩ := h.servant _ a ha
  rw [h.name_eq (hid ▸ ha) ht, hid, identityToTopicName_nameToIdentity] at hentry
  exact hfree (Std.ExtTreeMap.mem_iff_isSome_getElem?.mpr (by simp [hentry]))

/-- A topic is installed after its placeholder was stored. -/
private theorem synced_install (llu : LogUpdate) (h : Synced m) (hfree : name ∉ m.topics)
    (hcan : m.CanInstall name) :
    Spec (· = { m with db := (m.db.putTopic (nameToIdentity m.inst name)).putLLU llu })
      (installTopic name (nameToIdentity m.inst name) [])
      (fun _ => Synced) fun _ _ => False := by
  have hname : (nameToIdentity m.inst name).name ≠ "" := by
    intro hempty
    have hlist := congrArg String.toList hempty
    simp [nameToIdentity] at hlist
  have hid := h.toRegistry.nameToIdentity_notMem hfree
  rw [← bind_pure (installTopic name (nameToIdentity m.inst name) [])]
  refine installTopic_ok_bind hname hid (fun r hr => by cases hr) hcan
    fun subscribers hsub pa _ => Spec.pure ?_
  rintro s rfl
  obtain rfl := List.map_eq_nil_iff.mp hsub
  exact h.install (identityToTopicName_nameToIdentity m.inst name) hfree hid

/-- A request runs on a topic that has its servant. -/
theorem Synced.program (h : Synced m) (op : TopicOperation)
    (ha : m.topicAdapter[t.id]? = some a) (ht : m.objects[a]? = some t) (hop : op.Proper)
    (hmark : op.destroyFails = true → t.name ∉ m.topicReaper) :
    Spec (· = m) (op.program a) (fun _ => Synced) fun _ => Synced :=
  (program_effect op ht hop).conseq (fun _ hs => hs)
    (fun _ _ he => h.topicEffect ha ht hmark he) fun _ _ he => h.topicEffect ha ht hmark he

private theorem synced_reap : Keeps Synced reap := Keeps.modify fun _ h => h.reap

private theorem synced_create (h : Synced m) (hok : KeepsAgreement m (.manager (.create f name))) :
    Spec (· = m) (TopicManagerImpl.create f name) (fun _ => Synced) fun _ => Synced := by
  unfold TopicManagerImpl.create reap
  refine modify_bind (get_bind (throwIf_bind (fun _ => h.reap) fun hfree => ?_))
  refine transaction_bind (fun _ => h.reap) fun hf => ?_
  have hknown : m.known name = none := by
    rw [known, Std.ExtTreeMap.getElem?_eq_none hfree]
    rfl
  obtain ⟨hr, hcan⟩ := hok hknown hf
  refine replicate_bind (fun hr' => by rw [hr] at hr'; cases hr') fun _ => ?_
  exact (synced_install _ h.reap hfree hcan).conseq (fun _ hs => hs) (fun _ _ hs => hs)
    fun _ _ hs => hs.elim

private theorem synced_observerCreateTopic (h : Synced m)
    (hok : KeepsAgreement m (.manager (.observerCreateTopic f llu name))) :
    Spec (· = m) (TopicManagerImpl.observerCreateTopic f llu name) (fun _ => Synced)
      fun _ => Synced := by
  unfold TopicManagerImpl.observerCreateTopic
  refine get_bind (throwIf_bind (fun _ => h) fun hf => throwIf_bind (fun _ => h) fun hnew => ?_)
  refine transaction_bind (fun _ => h) fun _ => ?_
  obtain ⟨hfree, hcan⟩ := hok (by simpa using hf)
    fun hmem => hnew (Std.ExtTreeMap.contains_iff_mem.mpr hmem)
  refine Spec.bind ((synced_install llu h hfree hcan).conseq (fun _ hs => hs)
    (fun _ _ hs => hs) fun _ _ hs => hs.elim) fun _ => Spec.pure fun _ hs => hs

/-- An observer update looks the topic up and goes on with the object, which has its
servant or waits to be reaped. -/
private theorem synced_findTopic {k : Nat → StormM Unit} (h : Synced m)
    (hserved : ∀ a t, m.topics[name]? = some a → m.objects[a]? = some t →
      m.topicAdapter[t.id]? = some a → t.name = name →
        Spec (· = m) (k a) (fun _ => Synced) fun _ => Synced)
    (hwaiting : ∀ a t, m.topics[name]? = some a → m.objects[a]? = some t →
      m.topicAdapter[t.id]? ≠ some a → t.destroyed = true → name ∈ m.topicReaper →
        Spec (· = m) (k a) (fun _ => Synced) fun _ => Synced) :
    Spec (· = m) (findTopic name >>= k) (fun _ => Synced) fun _ => Synced := by
  unfold findTopic
  rw [bind_assoc]
  refine get_bind ?_
  cases ha : m.topics[name]? with
  | none => exact Spec.throw fun s hs => hs ▸ h
  | some a =>
    obtain ⟨t, ht, hname, _, hcase⟩ := h.entry name a ha
    by_cases hs : m.topicAdapter[t.id]? = some a
    · exact hserved a t ha ht hs hname
    · obtain ⟨hd, hmem⟩ := hcase.resolve_left hs
      exact hwaiting a t ha ht hs hd hmem

private theorem synced_observerDestroyTopic (h : Synced m)
    (hok : KeepsAgreement m (.manager (.observerDestroyTopic f llu name))) :
    Spec (· = m) (TopicManagerImpl.observerDestroyTopic f llu name) (fun _ => Synced)
      fun _ => Synced := by
  refine synced_findTopic h (fun a t ha ht hs hname => ?_) fun a t ha ht hs hd _ => ?_
  · obtain ⟨hgone, hmark⟩ := hok a t ha ht
    obtain ⟨_, _, _, _, hnot⟩ := h.servant _ a hs
    refine observerDestroyTopic_bind ht (fun hd => ?_) (fun hf hd => ?_)
      fun pa _ hd => Spec.modify ?_
    · obtain ⟨t', ht', _, _, hnot⟩ := h.servant _ a hs
      obtain rfl : t = t' := Option.some.inj (ht.symm.trans ht')
      exact absurd ⟨hd, hname ▸ hgone hd⟩ hnot
    · have hmarked : TopicEffect (.destroy f) a t m _ := .mark hf hd
      exact h.topicEffect hs ht (fun _ => hname ▸ hmark hf hd) hmarked
    · rintro s rfl
      have heffect : TopicEffect (.destroy .none) a t m (m.destroyTopic a t llu pa) :=
        .destroy llu pa hd
      have hdestroyed := h.topicEffect hs ht (fun hc => by cases hc) heffect
      refine hdestroyed.eraseEntry fun a' t' ha' ht' => ?_
      obtain rfl := Option.some.inj (ha.symm.trans ha')
      obtain rfl : t.emptied = t' := by simpa [TopicManagerImpl.destroyTopic, ht] using ht'
      have herased : (m.destroyTopic a t llu pa).topicAdapter = m.topicAdapter.erase t.id := rfl
      rw [herased]
      simp [TopicImpl.emptied]
  · refine observerDestroyTopic_bind ht (fun _ => Spec.modify ?_) (fun _ hd' => ?_)
      fun _ _ hd' => ?_
    · rintro s rfl
      refine h.eraseEntry fun a' t' ha' ht' => ?_
      obtain rfl := Option.some.inj (ha.symm.trans ha')
      obtain rfl := Option.some.inj (ht.symm.trans ht')
      exact hs
    · rw [hd] at hd'
      cases hd'
    · rw [hd] at hd'
      cases hd'

private theorem synced_observerAddSubscriber {record : SubscriberRecord} (h : Synced m)
    (hok : KeepsAgreement m (.manager (.observerAddSubscriber f llu name record))) :
    Spec (· = m) (TopicManagerImpl.observerAddSubscriber f llu name record) (fun _ => Synced)
      fun _ => Synced := by
  refine synced_findTopic h (fun a t ha ht hs _ => ?_) fun a t ha ht _ hd hmem => ?_
  · exact h.program (.observerAddSubscriber f llu record) hs ht hok.1 fun hc => by cases hc
  · exact absurd ⟨hd, hmem⟩ (hok.2 a t ha ht)

private theorem synced_observerRemoveSubscriber {ids : List Identity} (h : Synced m)
    (hok : Identity.empty ∉ ids) :
    Spec (· = m) (TopicManagerImpl.observerRemoveSubscriber f llu name ids) (fun _ => Synced)
      fun _ => Synced := by
  refine synced_findTopic h (fun a t ha ht hs _ => ?_) fun a t ha ht hs _ _ => ?_
  · exact h.program (.observerRemoveSubscriber f llu ids) hs ht hok fun hc => by cases hc
  · -- the store has no record of a topic that waits to be reaped
    unfold TopicImpl.observerRemoveSubscriber
    refine getTopic_bind ht (transaction_bind (fun _ => h) fun _ => ?_)
    rw [← bind_pure (TopicImpl.eraseAll a ids)]
    refine eraseAll_bind ht fun pa => Spec.pure ?_
    rintro s rfl
    refine h.unserved ht hs (by simp) (by simp) (by simp) fun k => ?_
    rw [Database.subscriberMap_putLLU, Database.getElem?_delSubscribers]
    split_ifs with hk
    · rw [eq_comm, Std.ExtTreeMap.getElem?_eq_none]
      intro hmem
      obtain ⟨i, hi⟩ := mem_topicAdapter_iff.mp (h.topic k hmem)
      rw [hk.1] at hi
      exact hs (h.toRegistry.adapter_eq ha ht hi ▸ hi)
    · rfl

/-- Every operation of the topic manager keeps memory and database together. -/
theorem Synced.manager {op : Operation} (h : Synced m)
    (hok : KeepsAgreement m (.manager op)) : Synced (final op.program m) := by
  cases op with
  | create f name =>
    refine Spec.final (P := (· = m)) ?_ rfl
    exact Spec.bind (synced_create h hok) fun _ => Spec.pure fun _ hs => hs
  | retrieve name =>
    refine Keeps.final (Keeps.bind (Keeps.bind synced_reap fun _ => ?_) fun _ => Keeps.pure) h
    refine Keeps.get.bind fun m => ?_
    cases m.topics[name]? with
    | none => exact Keeps.throw
    | some a =>
      refine Keeps.bind (Keeps.get.bind fun m => ?_) fun _ => Keeps.pure
      split
      · exact Keeps.pure
      · exact Keeps.throw
  | retrieveAll =>
    refine Keeps.final (Keeps.bind (Keeps.bind synced_reap fun _ => ?_) fun _ => Keeps.pure) h
    exact Keeps.get.bind fun m => Keeps.pure
  | observerInit f llu content => exact h.observerInit hok
  | observerCreateTopic f llu name => exact (synced_observerCreateTopic h hok).final rfl
  | observerDestroyTopic f llu name => exact (synced_observerDestroyTopic h hok).final rfl
  | observerAddSubscriber f llu name record =>
    exact (synced_observerAddSubscriber h hok).final rfl
  | observerRemoveSubscriber f llu name ids =>
    exact (synced_observerRemoveSubscriber h hok).final rfl
  | getContent f =>
    refine Keeps.final (Keeps.bind (Keeps.bind synced_reap fun _ => ?_) fun _ => Keeps.pure) h
    refine Spec.of_forall fun m hm => throwIf_bind (fun _ => hm) fun _ => get_bind ?_
    exact Spec.pure fun s hs => hs ▸ hm
  | initMaster f llu =>
    refine Keeps.final (Keeps.bind (Keeps.bind synced_reap fun _ => ?_) fun _ => Keeps.pure) h
    refine Spec.of_forall fun m hm => get_bind (transaction_bind (fun _ => hm) fun _ => ?_)
    exact replicate_bind (fun _ => hm.putLLU llu) fun _ => Spec.pure fun s hs => hs ▸ hm.putLLU llu

/-- Every step keeps memory and database together. -/
theorem Synced.step {r : Request} (h : Synced m) (hd : Dispatched m r) (hok : KeepsAgreement m r)
    (hs : m.step r = some m') : Synced m' := by
  cases r with
  | topic a op =>
    simp only [TopicManagerImpl.step, Option.ite_none_right_eq_some, Option.some.injEq] at hs
    obtain ⟨_, rfl⟩ := hs
    obtain ⟨id, ha⟩ := hd
    obtain ⟨t, ht, rfl, _⟩ := h.servant id a ha
    exact (h.program op ha ht hok.1 fun hf => hok.2 hf t ht).final rfl
  | manager op =>
    cases hs
    exact h.manager hok
  | restart f => exact hd.elim

/-- The service when it runs for the first time has no topics. -/
theorem synced_started (inst : Instance) : Synced (.started inst) := by
  have hempty : (started inst).topics = ∅ ∧
      (started inst).topicAdapter = ∅ ∧
      (started inst).db.subscriberMap = ∅ := ⟨rfl, rfl, rfl⟩
  obtain ⟨htopics, hadapter, hdb⟩ := hempty
  refine ⟨⟨fun name a ha => ?_, fun id a ha => ?_⟩, fun id => ?_, fun k hk => ?_,
    fun id a t ha => ?_⟩
  · simp [htopics] at ha
  · simp [hadapter] at ha
  · simp [hadapter, hdb]
  · simp [hdb] at hk
  · simp [hadapter] at ha

/-- A run whose operations finish in memory. -/
theorem synced_of_reach (inst : Instance)
    (h : Reach TopicManagerImpl.step (fun m r => Dispatched m r ∧ KeepsAgreement m r)
      (.started inst) m) : Synced m :=
  h.invariant (synced_started inst) fun _ _ _ hm hok hs => hm.step hok.1 hok.2 hs

end Steps

/-- Memory and database agree in every run whose operations finish in memory. -/
theorem memoryAgrees_of_keepsAgreement (inst : Instance) {m : TopicManagerImpl}
    (h : Reach TopicManagerImpl.step (fun m r => Dispatched m r ∧ KeepsAgreement m r)
      (.started inst) m) : m.MemoryAgrees :=
  (synced_of_reach inst h).memoryAgrees

/-- A topic is created and subscribed to. -/
def subscribedExample : TopicManagerImpl :=
  final (TopicOperation.program 0 (.subscribeAndGetPublisher .none [] (some .sample)))
    (final (Operation.create .none "t").program (.started .defaults))

theorem reach_subscribedExample :
    Reach TopicManagerImpl.step (fun m r => Dispatched m r ∧ KeepsAgreement m r)
      (.started .defaults) subscribedExample := by
  let m₀ : TopicManagerImpl := .started .defaults
  let m₁ := final (Operation.create .none "t").program m₀
  let subscribe : TopicOperation := .subscribeAndGetPublisher .none [] (some .sample)
  have hcreate : KeepsAgreement m₀ (.manager (.create .none "t")) := by
    intro _ _
    exact ⟨rfl, by decide, by decide⟩
  have hserved : Dispatched m₁ (.topic 0 subscribe) := ⟨⟨"topic.t", "IceStorm"⟩, by decide⟩
  have hsubscribe : KeepsAgreement m₁ (.topic 0 subscribe) := by
    refine ⟨trivial, fun hf => ?_⟩
    cases hf
  exact .tail (l := .topic 0 subscribe)
    (.tail (l := .manager (.create .none "t")) .refl ⟨trivial, hcreate⟩ rfl)
    ⟨hserved, hsubscribe⟩ rfl

theorem memoryAgrees_of_keepsAgreement_subscribe :
    subscribedExample.db.subscriberMap.size = 2 ∧ subscribedExample.MemoryAgrees :=
  ⟨by decide, memoryAgrees_of_keepsAgreement .defaults reach_subscribedExample⟩

/-- A topic whose creation the observers do not confirm is stored and not known. -/
theorem exists_disagreement :
    ¬ ∀ (inst : Instance) (m : TopicManagerImpl),
      Reach TopicManagerImpl.step Dispatched (.started inst) m → m.MemoryAgrees := by
  intro h
  let create : Operation := .create { Faults.none with replication := true } "t"
  let m := final create.program (.started .defaults)
  have hagrees := h .defaults m (.tail (l := .manager create) .refl trivial rfl)
  have hstored : SubscriberRecordKey.placeholder ⟨"topic.t", "IceStorm"⟩ ∈ m.db.subscriberMap := by
    decide
  obtain ⟨name, t, hknown, _⟩ := (hagrees.topics _).mpr hstored
  have hnone : m.topics = ∅ ∧ m.topicReaper = [] := ⟨rfl, rfl⟩
  rw [known, hnone.1, hnone.2] at hknown
  simp at hknown

end Ice.IceStorm
