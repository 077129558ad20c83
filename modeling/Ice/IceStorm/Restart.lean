import Ice.Lib.Transition
import Ice.IceStorm.Operations

/-!
# Starting over an existing database

The constructor installs the topics it reads from the database and writes the log
update `{0, 0}`, whatever was there: a replica that is restarted has forgotten which
updates it has seen, unless it had seen none.
-/

namespace Ice.IceStorm.TopicManagerImpl

open Ice.Lib IceStormElection

/-- What the constructor keeps: the database, where only the log update is new, and
servants for topics it has read. -/
private def Loading (db : Database) (m : TopicManagerImpl) : Prop :=
  m.db = db.putLLU emptyLU ∧ (∀ id ∈ m.topicAdapter, ∃ q ∈ db.loadTopics, q.id = id) ∧
    m.EntriesExist

private theorem loading_installTopic {db : Database} {q : TopicContent}
    (hq : q ∈ db.loadTopics) (name : String) :
    Spec (Loading db) (installTopic name q.id q.records) (fun _ => Loading db)
      (fun _ => Loading db) := by
  refine Spec.of_forall fun m hm => ?_
  rw [← bind_pure (installTopic name q.id q.records)]
  refine installTopic_bind (fun _ _ => hm) (fun _ _ _ _ => ⟨hm.1, hm.2.1, hm.2.2.install _⟩)
    fun pa _ _ _ => Spec.pure ?_
  rintro s rfl
  refine ⟨hm.1, fun id hid => ?_, hm.2.2.install _⟩
  rcases Std.ExtTreeMap.mem_insert.mp hid with hid | hid
  · exact ⟨q, hq, Std.compare_eq_iff_eq.mp hid⟩
  · exact hm.2.1 id hid

variable {m m' : TopicManagerImpl}

/-- A restart keeps the subscriber map and makes servants for stored topics only. -/
theorem restart_spec {f : Faults} (h : m.restart f = some m') :
    m'.db = m.db.putLLU emptyLU ∧
      (∀ id ∈ m'.topicAdapter, ∃ q ∈ m.db.loadTopics, q.id = id) ∧ m'.EntriesExist := by
  have hspec : Spec (· = stopped m.inst m.db) (construct f) (fun _ => Loading m.db)
      fun _ _ => True := by
    unfold construct
    refine get_bind ?_
    refine Spec.tryCatch (T := fun _ _ => True) ?_ fun e => ?_
    · refine modify_bind ?_
      have hstart : Loading m.db { stopped m.inst m.db with db := m.db.putLLU emptyLU } :=
        ⟨rfl, fun id hid => absurd hid (by simp [stopped]), fun name a ha => by
          simp [stopped] at ha⟩
      have hloop : Keeps (Loading m.db) (m.db.loadTopics.forM fun q => do
          let _ ← installTopic (identityToTopicName q.id) q.id q.records) :=
        Keeps.forM fun q hq => (loading_installTopic hq _).bind fun _ => Keeps.pure
      refine Spec.bind (hloop.conseq (fun s hs => hs ▸ hstart) (fun _ _ hs => hs)
        fun _ _ _ => trivial) fun _ => Spec.of_forall fun s hs => ?_
      rw [← bind_pure (throwIf _ _)]
      exact throwIf_bind (fun _ => trivial) fun _ => Spec.pure fun t ht => ht ▸ hs
    · exact fun _ _ => trivial
  unfold restart at h
  have hend := hspec _ rfl
  cases hc : construct f (stopped m.inst m.db) with
  | ok _ t =>
    rw [hc] at h hend
    exact Option.some.inj h ▸ hend
  | error _ _ =>
    rw [hc] at h
    cases h

/-- Every start begins with the first log update. -/
theorem getLastLogUpdate_of_restart {f : Faults}
    (h : m.restart f = some m') : getLastLogUpdate .none m' = .ok emptyLU m' := by
  have hrun : getLastLogUpdate .none m' = .ok m'.db.getLLU m' := rfl
  rw [hrun, (restart_spec h).1, Database.getLLU_putLLU]

/-- In every state, so in every state of a run with any number of restarts: after a
restart the log update is the one committed last if and only if that was the first
one. -/
theorem getLastLogUpdate_restart_iff {f : Faults} {m m' : TopicManagerImpl}
    (h : m.restart f = some m') :
    getLastLogUpdate .none m' = .ok m.db.getLLU m' ↔ m.db.getLLU = emptyLU := by
  rw [getLastLogUpdate_of_restart h]
  constructor
  · intro hok
    injection hok with hok _
    exact hok.symm
  · intro heq
    rw [heq]

/-- A topic is created and the service is restarted. -/
theorem exists_llu_lost :
    ¬ ∀ (inst : Instance) (m m' : TopicManagerImpl) (f : Faults),
      Reach step Any (started inst) m → m.restart f = some m' →
        getLastLogUpdate .none m' = .ok m.db.getLLU m' := by
  intro h
  have hreach : Reach step Any (started .defaults)
      (final (Operation.create .none "t").program (started .defaults)) :=
    .tail (l := .manager (.create .none "t")) .refl trivial rfl
  obtain ⟨m', hm'⟩ : ∃ m',
      (final (Operation.create .none "t").program (started .defaults)).restart .none = some m' :=
    Option.isSome_iff_exists.mp (by decide +kernel)
  have hllu := (getLastLogUpdate_of_restart hm').symm.trans (h _ _ _ _ hreach hm')
  injection hllu with hllu _
  exact absurd hllu (by decide)

/-- The first restart loses the update of a topic, the second one has nothing to lose. -/
theorem getLastLogUpdate_restart_twice :
    ∃ m m₁ m₂, final (Operation.create .none "t").program (started .defaults) = m ∧
      m.restart .none = some m₁ ∧ m₁.restart .none = some m₂ ∧
      getLastLogUpdate .none m₁ ≠ .ok m.db.getLLU m₁ ∧
      getLastLogUpdate .none m₂ = .ok m₁.db.getLLU m₂ := by
  obtain ⟨m₂, htwice⟩ : ∃ m₂, ((final (Operation.create .none "t").program
      (started .defaults)).restart .none).bind (restart .none) = some m₂ :=
    Option.isSome_iff_exists.mp (by decide +kernel)
  obtain ⟨m₁, hm₁, hm₂⟩ := Option.bind_eq_some_iff.mp htwice
  have hllu : m₁.db.getLLU = emptyLU := by
    rw [(restart_spec hm₁).1, Database.getLLU_putLLU]
  exact ⟨_, m₁, m₂, rfl, hm₁, hm₂, mt (getLastLogUpdate_restart_iff hm₁).mp (by decide),
    (getLastLogUpdate_restart_iff hm₂).mpr hllu⟩

end Ice.IceStorm.TopicManagerImpl
