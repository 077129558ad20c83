import Ice.IceStorm.Operations

/-!
# Topics in memory

The topic manager knows its topics by name, the topic adapter by identity. Between two
operations both lead to the same objects, but for the topics that were destroyed and
wait to be reaped.
-/

namespace Ice.IceStorm

open Ice.Lib IceStormElection
open Std.ExtTreeMap (getElem?_erase getElem?_insert getElem?_insertIfNew mem_iff_isSome_getElem?)
open Option (some.inj)
open TopicManagerImpl (getElem?_reap isDestroyed reapOne)

/-- The topic that `retrieve` finds under a name, which reaps first. -/
def TopicManagerImpl.known (m : TopicManagerImpl) (name : String) : Option TopicImpl :=
  (m.topicReaper.foldl (reapOne m.objects) m.topics)[name]?.bind
    fun a => m.objects[a]?

/-- Names and servants lead to the same topic objects. -/
structure Registry (m : TopicManagerImpl) : Prop where
  /-- A name leads to the object of that name, which has a servant or waits to be reaped. -/
  entry : ∀ (name : String) (a : Nat), m.topics[name]? = some a →
    ∃ t, m.objects[a]? = some t ∧ t.name = name ∧ identityToTopicName t.id = name ∧
      (m.topicAdapter[t.id]? = some a ∨ t.destroyed = true ∧ name ∈ m.topicReaper)
  /-- A servant belongs to an object that the topic manager knows. -/
  servant : ∀ (id : Identity) (a : Nat), m.topicAdapter[id]? = some a →
    ∃ t, m.objects[a]? = some t ∧ t.id = id ∧ m.topics[t.name]? = some a ∧
      ¬(t.destroyed = true ∧ t.name ∈ m.topicReaper)

namespace Registry

variable {m : TopicManagerImpl} {a : Nat} {t : TopicImpl} {name : String}

section

variable (h : Registry m)

include h

/-- What is known under a name is what has a servant. -/
theorem known_eq_some :
    m.known name = some t ↔
      t.name = name ∧ ∃ a, m.topicAdapter[t.id]? = some a ∧ m.objects[a]? = some t := by
  unfold TopicManagerImpl.known
  rw [getElem?_reap, Option.bind_eq_some_iff]
  constructor
  · rintro ⟨a, ha, ht⟩
    split_ifs at ha with hgone
    obtain ⟨t', ht', hname, _, hserved⟩ := h.entry name a ha
    obtain rfl : t = t' := some.inj (ht.symm.trans ht')
    refine ⟨hname, a, hserved.resolve_right fun hw => hgone ⟨hw.2, ?_⟩, ht⟩
    simp [isDestroyed, ha, ht, hw.1]
  · rintro ⟨rfl, a, ha, ht⟩
    obtain ⟨t', ht', _, hentry, hnot⟩ := h.servant _ a ha
    obtain rfl : t = t' := some.inj (ht.symm.trans ht')
    refine ⟨a, ?_, ht⟩
    rw [if_neg, hentry]
    rintro ⟨hmem, hd⟩
    exact hnot ⟨by simpa [isDestroyed, hentry, ht] using hd, hmem⟩

/-- The object of a name that has a servant. -/
theorem name_eq (ha : m.topicAdapter[t.id]? = some a)
    (ht : m.objects[a]? = some t) : t.name = identityToTopicName t.id := by
  obtain ⟨t', ht', _, hentry, _⟩ := h.servant _ a ha
  obtain rfl : t = t' := some.inj (ht.symm.trans ht')
  obtain ⟨t', ht', _, hname, _⟩ := h.entry _ a hentry
  obtain rfl : t = t' := some.inj (ht.symm.trans ht')
  exact hname.symm

/-- Two entries of `_topics` lead to two objects. -/
theorem entry_injective {name name' : String} (ha : m.topics[name]? = some a)
    (ha' : m.topics[name']? = some a) : name = name' := by
  obtain ⟨t, ht, hname, _⟩ := h.entry name a ha
  obtain ⟨t', ht', hname', _⟩ := h.entry name' a ha'
  obtain rfl : t = t' := some.inj (ht.symm.trans ht')
  exact hname.symm.trans hname'

/-- Only the object of its name can serve the identity of a topic. -/
theorem adapter_eq (ha : m.topics[name]? = some a)
    (ht : m.objects[a]? = some t) {a' : Nat} (ha' : m.topicAdapter[t.id]? = some a') : a = a' := by
  obtain ⟨t', ht', hid, hentry, _⟩ := h.servant _ a' ha'
  obtain ⟨t'', ht'', _, hname, _⟩ := h.entry _ a' hentry
  obtain rfl : t' = t'' := some.inj (ht'.symm.trans ht'')
  obtain ⟨t'', ht'', _, hname', _⟩ := h.entry _ a ha
  obtain rfl : t = t'' := some.inj (ht.symm.trans ht'')
  rw [hid, hname'] at hname
  rw [← hname, ha] at hentry
  exact some.inj hentry

theorem entriesExist : m.EntriesExist := by
  intro name a ha
  obtain ⟨t, ht, _⟩ := h.entry name a ha
  exact (List.getElem?_eq_some_iff.mp ht).1

theorem adapter (db : Database) (pa : List Identity) :
    Registry { m with db := db, publishAdapter := pa } := ⟨h.entry, h.servant⟩

/-- An object changes; one that waits to be reaped stays destroyed, one that does not is
not destroyed now. -/
theorem modify {g : TopicImpl → TopicImpl} (hname : ∀ t, (g t).name = t.name)
    (hid : ∀ t, (g t).id = t.id)
    (hd : ∀ t, m.objects[a]? = some t → t.name ∈ m.topicReaper →
      (g t).destroyed = t.destroyed) :
    Registry { m with objects := m.objects.modify a g } := by
  have hobject : ∀ (i : Nat) (t : TopicImpl), m.objects[i]? = some t →
      ∃ t', (m.objects.modify a g)[i]? = some t' ∧ t'.name = t.name ∧ t'.id = t.id ∧
        (t.name ∈ m.topicReaper → t'.destroyed = t.destroyed) := by
    intro i t ht
    rw [List.getElem?_modify, ht]
    by_cases hi : a = i
    · subst hi
      exact ⟨g t, by simp, hname t, hid t, hd t ht⟩
    · exact ⟨t, by simp [hi], rfl, rfl, fun _ => rfl⟩
  refine ⟨fun name i hi => ?_, fun id i hi => ?_⟩
  · obtain ⟨t, ht, rfl, htopic, hserved⟩ := h.entry name i hi
    obtain ⟨t', ht', hname', hid', hd'⟩ := hobject i t ht
    refine ⟨t', ht', hname', by rw [hid', htopic], ?_⟩
    rw [hid']
    exact hserved.imp_right fun hw => ⟨(hd' hw.2).trans hw.1, hw.2⟩
  · obtain ⟨t, ht, hid'', hentry, hnot⟩ := h.servant id i hi
    obtain ⟨t', ht', hname', hid', hd'⟩ := hobject i t ht
    refine ⟨t', ht', hid'.trans hid'', hname' ▸ hentry, ?_⟩
    rintro ⟨hdestroyed, hmem⟩
    rw [hname'] at hmem
    exact hnot ⟨(hd' hmem).symm.trans hdestroyed, hmem⟩

/-- A topic that is destroyed waits to be reaped. -/
theorem destroyTopic (ha : m.topicAdapter[t.id]? = some a)
    (ht : m.objects[a]? = some t) (llu : LogUpdate) (pa : List Identity) :
    Registry (m.destroyTopic a t llu pa) := by
  obtain ⟨t', ht', _, hself, _⟩ := h.servant _ a ha
  obtain rfl : t = t' := some.inj (ht.symm.trans ht')
  refine ⟨fun name i hi => ?_, fun id i hi => ?_⟩
  · obtain ⟨t', ht', hname, htopic, hserved⟩ := h.entry name i hi
    by_cases hia : a = i
    · subst hia
      obtain rfl : t = t' := some.inj (ht.symm.trans ht')
      refine ⟨t.emptied, by simp [TopicManagerImpl.destroyTopic, ht], hname, htopic, .inr ⟨rfl, ?_⟩⟩
      simp [TopicManagerImpl.destroyTopic, hname]
    · refine ⟨t', by simp [TopicManagerImpl.destroyTopic, hia, ht'], hname,
        htopic, ?_⟩
      refine hserved.imp (fun hs => ?_) fun hw => ⟨hw.1, ?_⟩
      · have hne : t.id ≠ t'.id := fun heq => hia (some.inj (ha.symm.trans (heq ▸ hs)))
        simp only [TopicManagerImpl.destroyTopic]
        rw [getElem?_erase, if_neg (by simpa using hne)]
        exact hs
      · simp [TopicManagerImpl.destroyTopic, hw.2]
  · simp only [TopicManagerImpl.destroyTopic] at hi ⊢
    rw [getElem?_erase] at hi
    split_ifs at hi with heq
    obtain ⟨t', ht', rfl, hentry, hnot⟩ := h.servant id i hi
    have hia : a ≠ i := by
      rintro rfl
      obtain rfl : t = t' := some.inj (ht.symm.trans ht')
      simp at heq
    refine ⟨t', by simp [hia, ht'], rfl, hentry, ?_⟩
    rintro ⟨hd, hmem⟩
    rcases List.mem_append.mp hmem with hmem | hmem
    · exact hnot ⟨hd, hmem⟩
    · rw [List.mem_singleton.mp hmem, hself] at hentry
      exact hia (some.inj hentry)

/-- A name that has no servant behind it is forgotten. -/
theorem eraseEntry
    (hnot : ∀ a t, m.topics[name]? = some a → m.objects[a]? = some t →
      m.topicAdapter[t.id]? ≠ some a) :
    Registry { m with topics := m.topics.erase name } := by
  refine ⟨fun name' i hi => ?_, fun id i hi => ?_⟩
  · rw [getElem?_erase] at hi
    split_ifs at hi
    exact h.entry name' i hi
  · obtain ⟨t, ht, rfl, hentry, hw⟩ := h.servant id i hi
    refine ⟨t, ht, rfl, ?_, hw⟩
    rw [getElem?_erase, if_neg, hentry]
    intro heq
    obtain rfl := Std.compare_eq_iff_eq.mp heq
    exact hnot i t hentry ht hi

/-- A new topic is installed under a free name. -/
theorem install {id : Identity} {subscribers : List Subscriber}
    {pa : List Identity} (hname : identityToTopicName id = name) (hfree : name ∉ m.topics)
    (hid : id ∉ m.topicAdapter) :
    Registry { m.install ⟨name, id, false, subscribers⟩ with
      topicAdapter := m.topicAdapter.insert id m.objects.length
      publishAdapter := pa } := by
  have hold : ∀ (i : Nat) (t : TopicImpl), m.objects[i]? = some t →
      (m.objects ++ [⟨name, id, false, subscribers⟩])[i]? = some t := by
    intro i t ht
    rw [List.getElem?_append_left (List.getElem?_eq_some_iff.mp ht).1, ht]
  have hnew : (m.objects ++ [⟨name, id, false, subscribers⟩])[m.objects.length]? =
      some ⟨name, id, false, subscribers⟩ := by simp
  refine ⟨fun name' i hi => ?_, fun id' i hi => ?_⟩
  · simp only [TopicManagerImpl.install] at hi ⊢
    rw [getElem?_insertIfNew] at hi
    split_ifs at hi with hc
    · obtain rfl := some.inj hi
      have hn : name = name' := Std.compare_eq_iff_eq.mp hc.1
      exact ⟨_, hnew, hn, hname.trans hn, .inl (by simp)⟩
    · obtain ⟨t, ht, hn, htopic, hserved⟩ := h.entry name' i hi
      refine ⟨t, hold i t ht, hn, htopic, hserved.imp_left fun hs => ?_⟩
      rw [getElem?_insert, if_neg, hs]
      intro heq
      obtain rfl := Std.compare_eq_iff_eq.mp heq
      exact hid (mem_iff_isSome_getElem?.mpr (by simp [hs]))
  · simp only [TopicManagerImpl.install] at hi ⊢
    rw [getElem?_insert] at hi
    split_ifs at hi with heq
    · obtain rfl := some.inj hi
      refine ⟨_, hnew, Std.compare_eq_iff_eq.mp heq, ?_, by simp⟩
      rw [getElem?_insertIfNew, if_pos]
      exact ⟨by simp, hfree⟩
    · obtain ⟨t, ht, hid', hentry, hw⟩ := h.servant id' i hi
      refine ⟨t, hold i t ht, hid', ?_, hw⟩
      rw [getElem?_insertIfNew, if_neg, hentry]
      rintro ⟨heq', _⟩
      obtain rfl := Std.compare_eq_iff_eq.mp heq'
      exact hfree (mem_iff_isSome_getElem?.mpr (by simp [hentry]))

/-- `reap` forgets the topics that wait. -/
theorem reap : Registry { m with
    topics := m.topicReaper.foldl (reapOne m.objects) m.topics
    topicReaper := [] } := by
  refine ⟨fun name i hi => ?_, fun id i hi => ?_⟩
  · rw [getElem?_reap] at hi
    split_ifs at hi with hgone
    obtain ⟨t, ht, hname, htopic, hserved⟩ := h.entry name i hi
    refine ⟨t, ht, hname, htopic, .inl (hserved.resolve_right fun hw => hgone ⟨hw.2, ?_⟩)⟩
    simp [isDestroyed, hi, ht, hw.1]
  · obtain ⟨t, ht, hid, hentry, hw⟩ := h.servant id i hi
    refine ⟨t, ht, hid, ?_, by simp⟩
    rw [getElem?_reap, if_neg, hentry]
    rintro ⟨hmem, hd⟩
    exact hw ⟨by simpa [isDestroyed, hentry, ht] using hd, hmem⟩

end

end Registry

end Ice.IceStorm
