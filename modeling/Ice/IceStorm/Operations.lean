import Ice.IceStorm.TopicManager

/-!
# What the operations do

The requests that reach a topic object and the topic manager, and one lemma for each
kind of step of their programs. `TopicEffect` lists all that a request does to the
state when it runs on a topic object: the publish adapter aside it does nothing, adds
one subscriber, removes some, marks the object as destroyed, or destroys it.
-/

namespace Ice.IceStorm

open Ice.Lib IceStormElection
open TopicManagerImpl (initRemove installTopic)
open TopicImpl (addSubscriber destroyInternal eraseAll publisherIds recreate removeSubscribers)

/-- The methods of a topic object that change the store. -/
inductive TopicOperation
  | subscribeAndGetPublisher (f : Faults) (qos : QoS) (obj : Option ObjectPrx)
  | unsubscribe (f : Faults) (subscriber : Option ObjectPrx)
  | link (f : Faults) (topic proxy : Option ObjectPrx) (cost : Int)
  | unlink (f : Faults) (topic : Option ObjectPrx)
  | reap (f : Faults) (ids : List Identity)
  | destroy (f : Faults)
  | observerAddSubscriber (f : Faults) (llu : LogUpdate) (record : SubscriberRecord)
  | observerRemoveSubscriber (f : Faults) (llu : LogUpdate) (ids : List Identity)
  | observerDestroyTopic (f : Faults) (llu : LogUpdate)
  deriving DecidableEq, Repr

/-- The program of a topic operation. -/
def TopicOperation.program (a : Nat) : TopicOperation → StormM Unit
  | .subscribeAndGetPublisher f qos obj => do
    let _ ← TopicImpl.subscribeAndGetPublisher a f qos obj
  | .unsubscribe f subscriber => TopicImpl.unsubscribe a f subscriber
  | .link f topic proxy cost => TopicImpl.link a f topic proxy cost
  | .unlink f topic => TopicImpl.unlink a f topic
  | .reap f ids => TopicImpl.reap a f ids
  | .destroy f => TopicImpl.destroy a f
  | .observerAddSubscriber f llu record => TopicImpl.observerAddSubscriber a f llu record
  | .observerRemoveSubscriber f llu ids => TopicImpl.observerRemoveSubscriber a f llu ids
  | .observerDestroyTopic f llu => TopicImpl.observerDestroyTopic a f.database llu

/-- The methods of the topic manager. -/
inductive Operation
  | create (f : Faults) (name : String)
  | retrieve (name : String)
  | retrieveAll
  | observerInit (f : Faults) (llu : LogUpdate) (content : List TopicContent)
  | observerCreateTopic (f : Faults) (llu : LogUpdate) (name : String)
  | observerDestroyTopic (f : Faults) (llu : LogUpdate) (name : String)
  | observerAddSubscriber (f : Faults) (llu : LogUpdate) (name : String)
      (record : SubscriberRecord)
  | observerRemoveSubscriber (f : Faults) (llu : LogUpdate) (name : String)
      (ids : List Identity)
  | getContent (f : Faults)
  | initMaster (f : Faults) (llu : LogUpdate)
  deriving DecidableEq, Repr

/-- The program of an operation of the topic manager. -/
def Operation.program : Operation → StormM Unit
  | .create f name => do let _ ← TopicManagerImpl.create f name
  | .retrieve name => do let _ ← TopicManagerImpl.retrieve name
  | .retrieveAll => do let _ ← TopicManagerImpl.retrieveAll
  | .observerInit f llu content => TopicManagerImpl.observerInit f llu content
  | .observerCreateTopic f llu name => TopicManagerImpl.observerCreateTopic f llu name
  | .observerDestroyTopic f llu name => TopicManagerImpl.observerDestroyTopic f llu name
  | .observerAddSubscriber f llu name record =>
    TopicManagerImpl.observerAddSubscriber f llu name record
  | .observerRemoveSubscriber f llu name ids =>
    TopicManagerImpl.observerRemoveSubscriber f llu name ids
  | .getContent f => do let _ ← TopicManagerImpl.getContent f
  | .initMaster f llu => do let _ ← TopicManagerImpl.initMaster f llu

namespace TopicManagerImpl

/-- The service is stopped and started again over its database; a constructor that
throws does not start it. -/
def restart (f : Faults) (m : TopicManagerImpl) : Option TopicManagerImpl :=
  match construct f (.stopped m.inst m.db) with
  | .ok _ m => some m
  | .error _ _ => none

/-- The service when it runs for the first time. -/
def started (inst : Instance) : TopicManagerImpl :=
  final (construct .none) (.stopped inst .empty)

end TopicManagerImpl

/-- What happens to one replica: a request runs on the topic object at an address, an
operation of the topic manager runs, or the service is restarted. -/
inductive Request
  | topic (a : Nat) (op : TopicOperation)
  | manager (op : Operation)
  | restart (f : Faults)
  deriving DecidableEq, Repr

/-- One step of a replica. -/
def TopicManagerImpl.step (m : TopicManagerImpl) : Request → Option TopicManagerImpl
  | .topic a op => if a < m.objects.length then some (final (op.program a) m) else none
  | .manager op => some (final op.program m)
  | .restart f => m.restart f

/-! ## Steps of a program

Each lemma runs one step and leaves the rest of the program to be run from the
state that the step ends in. -/

section Steps

variable {α β : Type} {m : TopicManagerImpl} {Q : α → TopicManagerImpl → Prop}
  {R : StormException → TopicManagerImpl → Prop}

variable {k : Unit → StormM α} {fails : Bool} {a : Nat} {id : Identity}

theorem throwIf_bind {c : Prop} [Decidable c] {e : StormException} (herr : c → R e m)
    (hok : ¬c → Spec (· = m) (k ()) Q R) : Spec (· = m) (throwIf c e >>= k) Q R := by
  unfold throwIf
  by_cases hc : c
  · rw [if_pos hc]
    rintro s rfl
    exact herr hc
  · rw [if_neg hc]
    exact hok hc

/-- With or without a majority of observers the state is the same. -/
theorem replicate_spec {P : TopicManagerImpl → Prop} :
    Spec P (replicate fails) (fun _ => P) (fun _ => P) := by
  intro s hs
  unfold replicate throwIf
  cases fails <;> exact hs

theorem replicate_bind (herr : fails = true → R .replication m)
    (hok : fails = false → Spec (· = m) (k ()) Q R) : Spec (· = m) (replicate fails >>= k) Q R := by
  refine throwIf_bind (fun h => herr h) fun h => hok (by simpa using h)

theorem get_bind {k : TopicManagerImpl → StormM α} (hok : Spec (· = m) (k m) Q R) :
    Spec (· = m) (get >>= k) Q R := by
  rintro s rfl
  exact hok s rfl

theorem set_bind {m' : TopicManagerImpl} {k : PUnit → StormM α}
    (hok : Spec (· = m') (k ⟨⟩) Q R) : Spec (· = m) (set m' >>= k) Q R := by
  rintro s rfl
  exact hok m' rfl

theorem modify_bind {g : TopicManagerImpl → TopicManagerImpl} {k : PUnit → StormM α}
    (hok : Spec (· = g m) (k ⟨⟩) Q R) : Spec (· = m) (modify g >>= k) Q R := by
  rintro s rfl
  exact hok (g s) rfl

theorem transaction_bind {body : Database → β × Database} {k : β → StormM α}
    (herr : fails = true → R .database m)
    (hok : fails = false → Spec (· = { m with db := (body m.db).2 }) (k (body m.db).1) Q R) :
    Spec (· = m) (transaction fails body >>= k) Q R := by
  unfold transaction
  rw [bind_assoc]
  refine throwIf_bind herr fun hf => ?_
  rw [bind_assoc]
  refine get_bind ?_
  rw [bind_assoc]
  refine set_bind ?_
  rw [pure_bind]
  exact hok (by simpa using hf)

theorem getTopic_bind {t : TopicImpl} {k : TopicImpl → StormM α} (ha : m.objects[a]? = some t)
    (hok : Spec (· = m) (k t) Q R) : Spec (· = m) (getTopic a >>= k) Q R := by
  unfold getTopic
  rw [bind_assoc]
  refine get_bind ?_
  rw [ha]
  exact hok

theorem getTopic_of_none (ha : m.objects[a]? = none) : getTopic a m = .error .objectNotExist m := by
  unfold getTopic
  simp only [bind, EStateM.bind, get, getThe, MonadStateOf.get, EStateM.get, ha]
  rfl

theorem modifyTopic_bind {f : TopicImpl → TopicImpl} {k : PUnit → StormM α}
    (hok : Spec (· = { m with objects := m.objects.modify a f }) (k ⟨⟩) Q R) :
    Spec (· = m) (modifyTopic a f >>= k) Q R := modify_bind hok

theorem modifyTopic_spec {f : TopicImpl → TopicImpl} {Q : Unit → TopicManagerImpl → Prop}
    (hok : Q ⟨⟩ { m with objects := m.objects.modify a f }) :
    Spec (· = m) (modifyTopic a f) Q R := by
  rintro s rfl
  exact hok

/-- Removing a servant registers none. -/
theorem removePublisher_bind {k : PUnit → StormM α}
    (hok : ∀ pa ⊆ m.publishAdapter, Spec (· = { m with publishAdapter := pa }) (k ⟨⟩) Q R) :
    Spec (· = m) (removePublisher id >>= k) Q R :=
  modify_bind (hok _ (List.erase_subset ..))

/-- A servant is added when its identity is free. -/
theorem addPublisher_bind (herr : ∀ e, (id.name = "" ∨ id ∈ m.publishAdapter) → R e m)
    (hok : id.name ≠ "" → id ∉ m.publishAdapter →
      Spec (· = { m with publishAdapter := id :: m.publishAdapter }) (k ()) Q R) :
    Spec (· = m) (addPublisher id >>= k) Q R := by
  unfold addPublisher
  rw [bind_assoc]
  refine throwIf_bind (fun h => herr _ (.inl h)) fun hname => ?_
  rw [bind_assoc]
  refine get_bind ?_
  rw [bind_assoc]
  refine throwIf_bind (fun h => herr _ (.inr h)) fun hfree => ?_
  exact set_bind (hok hname hfree)

variable {record : SubscriberRecord}

/-- A subscriber starts online with its record. -/
theorem configure_eq {inst : Instance} {obj : ObjectPrx}
    {s : Subscriber} (h : Subscriber.configure inst record obj = .ok s) :
    s.record = record ∧ s.state = .online := by
  simp only [Subscriber.configure, bind, Except.bind] at h
  repeat' split at h
  all_goals cases h
  exact ⟨rfl, rfl⟩

/-- `Subscriber::create` changes the publish adapter at most. -/
theorem create_bind {k : Subscriber → StormM α}
    (herr : ∀ e pa, R e { m with publishAdapter := pa })
    (hok : ∀ s pa, s.record = record → s.state = .online →
      Spec (· = { m with publishAdapter := pa }) (k s) Q R) :
    Spec (· = m) (Subscriber.create record >>= k) Q R := by
  unfold Subscriber.create
  rw [bind_assoc]
  refine get_bind ?_
  cases hobj : record.obj with
  | none =>
    rintro s rfl
    exact herr _ _
  | some obj =>
    dsimp only
    by_cases hlink : record.link = true
    · rw [if_pos hlink]
      cases Subscriber.checkTimeout m.inst.sendTimeout with
      | error e =>
        rintro s rfl
        exact herr e _
      | ok _ => exact hok _ _ rfl rfl
    · rw [if_neg hlink, bind_assoc]
      refine addPublisher_bind (fun e _ => herr e _) fun _ _ => ?_
      cases hc : Subscriber.configure m.inst record obj with
      | error e =>
        rw [bind_assoc]
        refine removePublisher_bind fun pa _ => ?_
        rintro s rfl
        exact herr e pa
      | ok subscriber => exact hok _ _ (configure_eq hc).1 (configure_eq hc).2

theorem destroy_bind {s : Subscriber}
    (hok : ∀ pa ⊆ m.publishAdapter, Spec (· = { m with publishAdapter := pa }) (k ()) Q R) :
    Spec (· = m) (s.destroy >>= k) Q R := by
  unfold Subscriber.destroy
  rw [bind_assoc]
  refine get_bind ?_
  cases s.proxy m.inst with
  | none => exact hok _ (List.Subset.refl _)
  | some id => exact removePublisher_bind hok

theorem destroyAll_bind :
    ∀ {m : TopicManagerImpl} {subscribers : List Subscriber},
      (∀ pa ⊆ m.publishAdapter, Spec (· = { m with publishAdapter := pa }) (k ()) Q R) →
        Spec (· = m) (subscribers.forM Subscriber.destroy >>= k) Q R
  | m, [], hok => hok m.publishAdapter (List.Subset.refl _)
  | m, s :: rest, hok => by
    change Spec _ ((s.destroy >>= fun _ => rest.forM Subscriber.destroy) >>= k) Q R
    rw [bind_assoc]
    exact destroy_bind fun _ hsub => destroyAll_bind fun pa hpa =>
      hok pa (List.Subset.trans hpa hsub)

/-- The constructor skips the subscribers that cannot be made. -/
theorem recreate_bind {k : List Subscriber → StormM α} :
    ∀ {m : TopicManagerImpl} {records : List SubscriberRecord},
      (∀ e pa, R e { m with publishAdapter := pa }) →
      (∀ subscribers pa, (subscribers.map Subscriber.record).Sublist records →
        Spec (· = { m with publishAdapter := pa }) (k subscribers) Q R) →
        Spec (· = m) (recreate records >>= k) Q R
  | m, [], _, hok => hok [] m.publishAdapter (.refl _)
  | m, record :: rest, herr, hok => by
    have hskip : ∀ (before : List Subscriber) (pa : List Identity),
        (∀ after, (after.map Subscriber.record).Sublist rest →
          ((before ++ after).map Subscriber.record).Sublist (record :: rest)) →
        Spec (· = { m with publishAdapter := pa })
          (recreate rest >>= fun after => k (before ++ after)) Q R := by
      intro before pa hsub
      refine recreate_bind herr fun after pa' hafter => ?_
      exact hok (before ++ after) pa' (hsub after hafter)
    unfold recreate
    rw [bind_assoc]
    refine throwIf_bind (fun _ => herr _ m.publishAdapter) fun _ => ?_
    simp only [bind_assoc, pure_bind]
    refine Spec.bind (Q := fun before s => ∃ pa, s = { m with publishAdapter := pa } ∧
      (before = [] ∨ ∃ x : Subscriber, x.record = record ∧ before = [x])) ?_ fun before => ?_
    · refine Spec.tryCatch (T := fun _ s => ∃ pa, s = { m with publishAdapter := pa }) ?_
        fun e => Spec.pure fun s ⟨pa, hs⟩ => ⟨pa, hs, .inl rfl⟩
      refine create_bind (fun _ pa => ⟨pa, rfl⟩) fun x pa hx _ => Spec.pure fun s hs => ?_
      exact ⟨pa, hs, .inr ⟨x, hx, rfl⟩⟩
    · rintro s ⟨pa, rfl, rfl | ⟨x, hx, rfl⟩⟩
      · exact hskip [] pa (fun after h => h.cons record) _ rfl
      · refine hskip [x] pa (fun after h => ?_) _ rfl
        rw [List.map_append, List.map_singleton, hx]
        exact h.cons_cons record

/-- The state after a topic object was made and entered in `_topics`. -/
def TopicManagerImpl.install (m : TopicManagerImpl) (t : TopicImpl) : TopicManagerImpl :=
  { m with
    objects := m.objects ++ [t]
    topics := m.topics.insertIfNew t.name m.objects.length }

/-- Names lead to addresses of topic objects. -/
def TopicManagerImpl.EntriesExist (m : TopicManagerImpl) : Prop :=
  ∀ (name : String) (a : Nat), m.topics[name]? = some a → a < m.objects.length

theorem TopicManagerImpl.EntriesExist.install (h : m.EntriesExist) (t : TopicImpl) :
    (m.install t).EntriesExist := by
  intro name a ha
  simp only [TopicManagerImpl.install, List.length_append, List.length_singleton] at ha ⊢
  rw [Std.ExtTreeMap.getElem?_insertIfNew] at ha
  split_ifs at ha with hc
  · have := Option.some.inj ha
    omega
  · have := h name a ha
    omega

theorem installTopic_bind {name : String} {records : List SubscriberRecord}
    {k : Identity → StormM α} (herr : ∀ e pa, R e { m with publishAdapter := pa })
    (hlate : ∀ e pa subscribers, id.name = "" ∨ id ∈ m.topicAdapter →
      R e { m.install ⟨name, id, false, subscribers⟩ with publishAdapter := pa })
    (hok : ∀ pa subscribers, (subscribers.map Subscriber.record).Sublist records →
      id ∉ m.topicAdapter →
      Spec (· = { m.install ⟨name, id, false, subscribers⟩ with
        topicAdapter := m.topicAdapter.insert id m.objects.length
        publishAdapter := pa }) (k id) Q R) :
    Spec (· = m) (installTopic name id records >>= k) Q R := by
  unfold installTopic TopicImpl.new
  simp only [bind_assoc, pure_bind]
  refine addPublisher_bind (fun e _ => herr e _) fun _ _ => ?_
  refine addPublisher_bind (fun e _ => herr e _) fun _ _ => ?_
  refine recreate_bind herr fun subscribers pa hsub => modify_bind ?_
  refine throwIf_bind (fun h => hlate _ pa subscribers (.inl h)) fun _ => get_bind ?_
  refine throwIf_bind (fun h => hlate _ pa subscribers (.inr h)) fun hfree => set_bind ?_
  simp only [List.length_append, List.length_singleton, Nat.add_sub_cancel]
  exact hok pa subscribers hsub hfree

end Steps

namespace TopicManagerImpl

/-- The topic of this name was destroyed. -/
def isDestroyed (objects : List TopicImpl) (topics : Std.ExtTreeMap String Nat)
    (name : String) : Bool :=
  (topics[name]?.bind fun a => objects[a]?).any TopicImpl.destroyed

variable (objects : List TopicImpl)

theorem getElem?_reapOne (topics : Std.ExtTreeMap String Nat)
    (name n : String) : (reapOne objects topics name)[n]? =
      if n = name ∧ isDestroyed objects topics n then none else topics[n]? := by
  unfold reapOne isDestroyed
  cases hname : topics[name]? with
  | none =>
    by_cases hn : n = name
    · subst hn
      simp [hname]
    · simp [hn]
  | some a =>
    dsimp only
    by_cases hd : objects[a]?.any TopicImpl.destroyed = true
    · rw [if_pos hd, Std.ExtTreeMap.getElem?_erase]
      by_cases hn : n = name
      · subst hn
        simp [hname, hd]
      · rw [if_neg (by simpa using Ne.symm hn), if_neg (fun h => hn h.1)]
    · rw [if_neg hd]
      by_cases hn : n = name
      · subst hn
        simp [hname, hd]
      · simp [hn]

/-- `reap` forgets the names that wait in the reaper and were destroyed. -/
theorem getElem?_reap (names : List String)
    (topics : Std.ExtTreeMap String Nat) (n : String) :
    (names.foldl (reapOne objects) topics)[n]? =
      if n ∈ names ∧ isDestroyed objects topics n then none else topics[n]? := by
  induction names generalizing topics with
  | nil => simp
  | cons name names ih =>
    rw [List.foldl_cons, ih]
    by_cases hgone : n = name ∧ isDestroyed objects topics n = true
    · obtain ⟨rfl, hd⟩ := hgone
      simp [getElem?_reapOne, hd]
    · have hsame : (reapOne objects topics name)[n]? = topics[n]? := by
        rw [getElem?_reapOne, if_neg hgone]
      have hd : isDestroyed objects (reapOne objects topics name) n =
          isDestroyed objects topics n := by
        unfold isDestroyed
        rw [hsame]
      rw [hsame, hd]
      by_cases hn : n = name
      · have hfalse : isDestroyed objects topics n = false := by
          simpa [hn] using hgone
        simp [hfalse]
      · simp [hn]

end TopicManagerImpl

namespace TopicImpl

/-- The subscribers of several identities are erased, one after the other. -/
def eraseSubscribers (ids : List Identity) (t : TopicImpl) : TopicImpl :=
  ids.foldl (fun t id => t.eraseSubscriber id) t

/-- `_destroyed = true`. -/
def markDestroyed (t : TopicImpl) : TopicImpl := { t with destroyed := true }

/-- The object that `destroyInternal` leaves. -/
def emptied (t : TopicImpl) : TopicImpl := { t with destroyed := true, subscribers := [] }

theorem eraseSubscriber_of_findSubscriber {id : Identity} {t : TopicImpl}
    (h : t.findSubscriber id = none) : t.eraseSubscriber id = t := by
  have hno : ∀ s ∈ t.subscribers, ¬(decide (s.id = id)) = true := by
    simpa [findSubscriber] using h
  unfold eraseSubscriber
  rw [List.eraseP_of_forall_not hno]

end TopicImpl

/-- What the removals and additions of a request may name: an empty identity is the
placeholder's. The proxies that clients send always have a name. -/
def TopicOperation.Proper : TopicOperation → Prop
  | .reap _ ids | .observerRemoveSubscriber _ _ ids => Identity.empty ∉ ids
  | .observerAddSubscriber _ _ record => record.id ≠ .empty
  | _ => True

/-- The requests that add a subscriber. -/
def TopicOperation.adds : TopicOperation → Bool
  | .subscribeAndGetPublisher .. | .link .. | .observerAddSubscriber .. => true
  | _ => false

/-- The requests that remove subscribers. -/
def TopicOperation.removes : TopicOperation → Bool
  | .unsubscribe .. | .unlink .. | .reap .. | .observerRemoveSubscriber .. => true
  | _ => false

/-- The requests that destroy the topic and fail at the database. -/
def TopicOperation.destroyFails : TopicOperation → Bool
  | .destroy f | .observerDestroyTopic f _ => f.database
  | _ => false

/-- The state after the topic object `t` at `a` was destroyed. -/
def TopicManagerImpl.destroyTopic (m : TopicManagerImpl) (a : Nat) (t : TopicImpl)
    (llu : LogUpdate) (pa : List Identity) : TopicManagerImpl :=
  { m with
    db := (m.db.delTopic t.id).putLLU llu
    objects := m.objects.modify a TopicImpl.emptied
    topicAdapter := m.topicAdapter.erase t.id
    topicReaper := m.topicReaper ++ [t.name]
    publishAdapter := pa }

/-- The log update that `destroyInternal` writes. -/
def Database.destroyLLU (db : Database) (topic : Identity) (origLLU : Option LogUpdate) :
    LogUpdate := origLLU.getD (db.delTopic topic).getIncrementedLLU.1

/-- All that a request does when it runs on the topic object `t` at `a`. -/
inductive TopicEffect (op : TopicOperation) (a : Nat) (t : TopicImpl) (m : TopicManagerImpl) :
    TopicManagerImpl → Prop
  | idle (pa : List Identity) : TopicEffect op a t m { m with publishAdapter := pa }
  | add (s : Subscriber) (llu : LogUpdate) (pa : List Identity) (hop : op.adds = true)
      (hnew : t.findSubscriber s.id = none) (hid : s.id ≠ .empty) :
      TopicEffect op a t m
        { m with
          db := (m.db.put ⟨t.id, s.id⟩ s.record).putLLU llu
          objects := m.objects.modify a (TopicImpl.push s)
          publishAdapter := pa }
  | remove (ids : List Identity) (llu : LogUpdate) (pa : List Identity)
      (hop : op.removes = true) (hids : Identity.empty ∉ ids) :
      TopicEffect op a t m
        { m with
          db := (m.db.delSubscribers t.id ids).putLLU llu
          objects := m.objects.modify a (TopicImpl.eraseSubscribers ids)
          publishAdapter := pa }
  | mark (hop : op.destroyFails = true) (h : t.destroyed = false) :
      TopicEffect op a t m
        { m with objects := m.objects.modify a TopicImpl.markDestroyed }
  | destroy (llu : LogUpdate) (pa : List Identity) (h : t.destroyed = false) :
      TopicEffect op a t m (m.destroyTopic a t llu pa)

section Effects

variable {α : Type} {m : TopicManagerImpl} {a : Nat} {t : TopicImpl} {f : Faults}
  {op : TopicOperation} {Q : α → TopicManagerImpl → Prop}
  {R : StormException → TopicManagerImpl → Prop}

variable {k : Unit → StormM α} {fails : Bool}

theorem eraseAll_bind :
    ∀ {ids : List Identity} {m : TopicManagerImpl} {t : TopicImpl}, m.objects[a]? = some t →
      (∀ pa, Spec (· = { m with
          objects := m.objects.modify a (TopicImpl.eraseSubscribers ids)
          publishAdapter := pa }) (k ()) Q R) →
        Spec (· = m) (eraseAll a ids >>= k) Q R
  | [], m, t, ha, hok => by
    have hsame : m.objects.modify a (TopicImpl.eraseSubscribers []) = m.objects :=
      List.modify_id a m.objects
    have hk := hok m.publishAdapter
    rw [hsame] at hk
    exact hk
  | id :: ids, m, t, ha, hok => by
    have hfold : TopicImpl.eraseSubscribers (id :: ids) =
        TopicImpl.eraseSubscribers ids ∘ TopicImpl.eraseSubscriber id := rfl
    unfold eraseAll
    rw [bind_assoc]
    refine getTopic_bind ha ?_
    cases hf : t.findSubscriber id with
    | none =>
      refine eraseAll_bind ha fun pa => ?_
      have hsame : m.objects.modify a (TopicImpl.eraseSubscribers (id :: ids)) =
          m.objects.modify a (TopicImpl.eraseSubscribers ids) := by
        refine List.ext_getElem? fun i => ?_
        rw [hfold, List.getElem?_modify, List.getElem?_modify]
        by_cases hi : a = i
        · subst hi
          simp [ha, TopicImpl.eraseSubscriber_of_findSubscriber hf]
        · simp [hi]
      simpa only [hsame] using hok pa
    | some s =>
      dsimp only
      rw [bind_assoc, bind_assoc]
      refine destroy_bind fun pa _ => ?_
      refine modifyTopic_bind ?_
      refine eraseAll_bind (t := t.eraseSubscriber id) (by simp [ha]) fun pa => ?_
      rw [List.modify_modify_eq, ← hfold]
      exact hok pa

variable {ids : List Identity}

section

variable (ha : m.objects[a]? = some t)

include ha

/-- The transaction is rolled back when it finds none of the records. -/
theorem removeSubscribers_bind
    (herr : f.database = true → R .database m)
    (hnone : (ids.any fun id => m.db.find ⟨t.id, id⟩) = false → Spec (· = m) (k ()) Q R)
    (hlost : ∀ pa llu, R .replication { m with
      db := (m.db.delSubscribers t.id ids).putLLU llu
      objects := m.objects.modify a (TopicImpl.eraseSubscribers ids)
      publishAdapter := pa })
    (hok : ∀ pa llu, Spec (· = { m with
      db := (m.db.delSubscribers t.id ids).putLLU llu
      objects := m.objects.modify a (TopicImpl.eraseSubscribers ids)
      publishAdapter := pa }) (k ()) Q R) :
    Spec (· = m) (removeSubscribers a f ids >>= k) Q R := by
  unfold removeSubscribers
  rw [bind_assoc]
  refine getTopic_bind ha ?_
  rw [bind_assoc]
  refine transaction_bind herr fun _ => ?_
  cases hfound : ids.any fun id => m.db.find ⟨t.id, id⟩ with
  | true =>
    simp only [if_true, bind_assoc]
    refine eraseAll_bind ha fun pa => ?_
    exact replicate_bind (fun _ => hlost pa _) fun _ => hok pa _
  | false =>
    simp only [Bool.false_eq_true, if_false, pure_bind]
    exact hnone hfound

theorem removeSubscribers_effect
    (hop : op.removes = true) (hids : Identity.empty ∉ ids) :
    Spec (· = m) (removeSubscribers a f ids) (fun _ => TopicEffect op a t m)
      (fun _ => TopicEffect op a t m) := by
  have hidle : TopicEffect op a t m m := .idle m.publishAdapter
  rw [← bind_pure (removeSubscribers a f ids)]
  refine removeSubscribers_bind ha (fun _ => hidle) (fun _ => Spec.pure fun s hs => hs ▸ hidle)
    (fun pa llu => .remove ids llu pa hop hids) fun pa llu => Spec.pure ?_
  rintro s rfl
  exact .remove ids llu pa hop hids

/-- The common part of the requests that add a subscriber. -/
theorem addSubscriber_effect {record : SubscriberRecord}
    (hop : op.adds = true) (hnew : t.findSubscriber record.id = none)
    (hid : record.id ≠ .empty) :
    Spec (· = m) (addSubscriber a f record record.id) (fun _ => TopicEffect op a t m)
      (fun _ => TopicEffect op a t m) := by
  unfold addSubscriber
  refine getTopic_bind ha ?_
  refine create_bind (fun _ pa => .idle pa) fun s pa hrecord _ => ?_
  subst hrecord
  refine transaction_bind (fun _ => .idle pa) fun _ => modifyTopic_bind ?_
  have heffect : TopicEffect op a t m
      { m with
        db := (m.db.put ⟨t.id, s.id⟩ s.record).getIncrementedLLU.2
        objects := m.objects.modify a (TopicImpl.push s)
        publishAdapter := pa } := .add s _ pa hop hnew hid
  refine replicate_bind (fun _ => heffect) fun _ => ?_
  exact Spec.pure fun s hs => hs ▸ heffect

end

variable {origLLU : Option LogUpdate}

section

variable (ha : m.objects[a]? = some t)

include ha

theorem destroyInternal_bind
    (herr : fails = true → R .database m)
    (hok : ∀ pa ⊆ m.publishAdapter, Spec (· = { m with
        db := (m.db.delTopic t.id).putLLU (m.db.destroyLLU t.id origLLU)
        objects := m.objects.modify a fun t => { t with subscribers := [] }
        topicAdapter := m.topicAdapter.erase t.id
        topicReaper := m.topicReaper ++ [t.name]
        publishAdapter := pa }) (k ()) Q R) :
    Spec (· = m) (destroyInternal a fails origLLU >>= k) Q R := by
  have hrest :
      Spec (· = { m with db := (m.db.delTopic t.id).putLLU (m.db.destroyLLU t.id origLLU) })
      ((do
        removePublisher (publisherIds t.name t.id).2
        removePublisher (publisherIds t.name t.id).1
        modify fun m => { m with topicReaper := m.topicReaper ++ [t.name] }
        t.subscribers.forM Subscriber.destroy
        modify fun m => { m with topicAdapter := m.topicAdapter.erase t.id }
        modifyTopic a fun t => { t with subscribers := [] }) >>= k) Q R := by
    simp only [bind_assoc]
    refine removePublisher_bind fun _ h₁ => removePublisher_bind fun _ h₂ => modify_bind ?_
    refine destroyAll_bind fun pa h₃ => modify_bind (modifyTopic_bind ?_)
    exact hok pa (List.Subset.trans h₃ (List.Subset.trans h₂ h₁))
  unfold destroyInternal
  rw [bind_assoc]
  refine getTopic_bind ha ?_
  rw [bind_assoc]
  refine transaction_bind herr fun _ => ?_
  cases origLLU with
  | none => exact hrest
  | some llu => exact hrest

/-- Destruction, after the test of `_destroyed`. -/
theorem markAndDestroy_bind
    (herr : fails = true →
      R .database { m with objects := m.objects.modify a TopicImpl.markDestroyed })
    (hok : ∀ pa ⊆ m.publishAdapter,
      Spec (· = m.destroyTopic a t (m.db.destroyLLU t.id origLLU) pa) (k ()) Q R) :
    Spec (· = m) (modifyTopic a (fun t => { t with destroyed := true }) >>= fun _ =>
      destroyInternal a fails origLLU >>= k) Q R := by
  refine modifyTopic_bind ?_
  refine destroyInternal_bind (t := t.markDestroyed) (by simp [ha, TopicImpl.markDestroyed])
    herr fun pa hpa => ?_
  rw [List.modify_modify_eq]
  exact hok pa hpa

theorem observerDestroyTopic_bind {llu : LogUpdate}
    (hdone : t.destroyed = true → Spec (· = m) (k ()) Q R)
    (herr : fails = true → t.destroyed = false →
      R .database { m with objects := m.objects.modify a TopicImpl.markDestroyed })
    (hok : ∀ pa ⊆ m.publishAdapter, t.destroyed = false →
      Spec (· = m.destroyTopic a t llu pa) (k ()) Q R) :
    Spec (· = m) (TopicImpl.observerDestroyTopic a fails llu >>= k) Q R := by
  unfold TopicImpl.observerDestroyTopic
  rw [bind_assoc]
  refine getTopic_bind ha ?_
  by_cases hd : t.destroyed = true
  · rw [if_pos hd]
    exact hdone hd
  · rw [if_neg hd, bind_assoc]
    have hd : t.destroyed = false := by simpa using hd
    exact markAndDestroy_bind ha (fun hf => herr hf hd) fun pa hpa => hok pa hpa hd

end

/-- The first scan of `observerInit` leaves a topic of the content as it is. -/
theorem initRemove_spec {e : String × Nat} {content : List TopicContent} {llu : LogUpdate}
    {Q : Unit → TopicManagerImpl → Prop} {R : StormException → TopicManagerImpl → Prop}
    (ht : m.objects[e.2]? = some t) (hkeep : (∃ q ∈ content, q.id = t.id) → Q () m)
    (hgone : (¬∃ q ∈ content, q.id = t.id) → t.destroyed = true →
      Q () { m with topics := m.topics.erase e.1 })
    (herr : (¬∃ q ∈ content, q.id = t.id) → t.id ∈ f.destroys → t.destroyed = false →
      R .database { m with objects := m.objects.modify e.2 TopicImpl.markDestroyed })
    (hdrop : (¬∃ q ∈ content, q.id = t.id) → ∀ pa ⊆ m.publishAdapter, t.destroyed = false →
      Q () { m.destroyTopic e.2 t llu pa with topics := m.topics.erase e.1 }) :
    Spec (· = m) (initRemove f llu content e) Q R := by
  unfold initRemove
  apply getTopic_bind ht
  by_cases hin : ∃ q ∈ content, q.id = t.id
  · have hany : (!content.any fun q => decide (q.id = t.id)) = false := by simpa using hin
    simp only [hany, Bool.false_eq_true, if_false]
    exact Spec.pure fun s hs => hs ▸ hkeep hin
  · have hany : (!content.any fun q => decide (q.id = t.id)) = true := by simpa using hin
    simp only [hany, if_true]
    apply observerDestroyTopic_bind ht
    · exact fun hd => Spec.modify fun s hs => hs ▸ hgone hin hd
    · exact fun hf => herr hin (by simpa using hf)
    · exact fun pa hpa hd => Spec.modify fun s hs => hs ▸ hdrop hin pa hpa hd

/-- What each request does. -/
theorem program_effect (op : TopicOperation) (ha : m.objects[a]? = some t) (hop : op.Proper) :
    Spec (· = m) (op.program a) (fun _ => TopicEffect op a t m)
      (fun _ => TopicEffect op a t m) := by
  have hidle : TopicEffect op a t m m := .idle m.publishAdapter
  cases op with
  | subscribeAndGetPublisher f qos obj =>
    cases obj with
    | none => exact Spec.throw fun s hs => hs ▸ hidle
    | some obj =>
      unfold TopicOperation.program TopicImpl.subscribeAndGetPublisher
      simp only [bind_assoc]
      refine getTopic_bind ha (throwIf_bind (fun _ => hidle) fun hnew => ?_)
      refine Spec.bind (addSubscriber_effect ha rfl (by simpa using hnew) ?_) fun s => ?_
      · exact fun h => obj.named (congrArg Identity.name h)
      · exact Spec.get_bind fun m' hm' => Spec.pure fun s hs => hs ▸ hm'
  | unsubscribe f subscriber =>
    cases subscriber with
    | none => exact Spec.throw fun s hs => hs ▸ hidle
    | some subscriber =>
      refine removeSubscribers_effect ha rfl ?_
      simpa using fun h => subscriber.named (congrArg Identity.name h).symm
  | link f topic proxy cost =>
    cases topic with
    | none => exact Spec.throw fun s hs => hs ▸ hidle
    | some topic =>
      unfold TopicOperation.program TopicImpl.link
      refine getTopic_bind ha (throwIf_bind (fun _ => hidle) fun hnew => ?_)
      refine Spec.bind (addSubscriber_effect ha rfl (by simpa using hnew) ?_) fun s => ?_
      · exact fun h => topic.named (congrArg Identity.name h)
      · exact Spec.pure fun _ h => h
  | unlink f topic =>
    unfold TopicOperation.program TopicImpl.unlink
    refine getTopic_bind ha (throwIf_bind (fun _ => hidle) fun _ => ?_)
    cases topic with
    | none => exact Spec.throw fun s hs => hs ▸ hidle
    | some topic =>
      refine throwIf_bind (fun _ => hidle) fun _ => removeSubscribers_effect ha rfl ?_
      simpa using fun h => topic.named (congrArg Identity.name h).symm
  | reap f ids => exact removeSubscribers_effect ha rfl hop
  | destroy f =>
    unfold TopicOperation.program TopicImpl.destroy
    refine getTopic_bind ha (throwIf_bind (fun _ => hidle) fun hd => ?_)
    have hd : t.destroyed = false := by simpa using hd
    refine markAndDestroy_bind ha (fun hf => .mark hf hd) fun pa _ => ?_
    have heffect : TopicEffect (.destroy f) a t m
        (m.destroyTopic a t (m.db.destroyLLU t.id none) pa) := .destroy _ pa hd
    exact replicate_spec.conseq (fun s hs => hs) (fun _ s hs => hs ▸ heffect)
      fun _ s hs => hs ▸ heffect
  | observerAddSubscriber f llu record =>
    unfold TopicOperation.program TopicImpl.observerAddSubscriber
    refine getTopic_bind ha ?_
    by_cases hold : (t.findSubscriber record.id).isSome = true
    · rw [if_pos hold]
      exact Spec.pure fun s hs => hs ▸ hidle
    · rw [if_neg hold]
      refine create_bind (fun _ pa => .idle pa) fun s pa hrecord _ => ?_
      subst hrecord
      refine transaction_bind (fun _ => .idle pa) fun _ => modifyTopic_spec ?_
      exact .add s llu pa rfl (by simpa [Subscriber.id] using hold) hop
  | observerRemoveSubscriber f llu ids =>
    unfold TopicOperation.program TopicImpl.observerRemoveSubscriber
    refine getTopic_bind ha (transaction_bind (fun _ => hidle) fun _ => ?_)
    rw [← bind_pure (eraseAll a ids)]
    refine eraseAll_bind ha fun pa => Spec.pure ?_
    rintro s rfl
    exact .remove ids llu pa rfl hop
  | observerDestroyTopic f llu =>
    change Spec _ (TopicImpl.observerDestroyTopic a f.database llu) _ _
    rw [← bind_pure (TopicImpl.observerDestroyTopic a f.database llu)]
    refine observerDestroyTopic_bind ha (fun _ => Spec.pure fun s hs => hs ▸ hidle)
      (fun hf hd => .mark hf hd) fun pa _ hd => Spec.pure ?_
    rintro s rfl
    exact .destroy llu pa hd

end Effects

end Ice.IceStorm
