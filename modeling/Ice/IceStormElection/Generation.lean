import Ice.IceStorm.Operations
import Ice.IceStormElection.NodeI

/-!
# The log update of a new master

`mergeContinue` looks for the latest log update among the members of its group, compares it with
that of the coordinator, and has the replica install one of the next generation. A generation is a
`long`, which wraps around.
-/

namespace Ice.IceStormElection

open Ice.Lib IceStorm
open TopicManagerImpl (initMaster)

/-- `maxllu.generation++` -/
def nextGeneration (generation : Int) : Int := (generation + 1).bmod (2 ^ 64)

/-- The log update that `mergeContinue` passes to `initMaster`, if it gets there; `synced` says
whether the database of the node with the latest one was fetched. -/
def chooseLLU (members : List GroupNodeInfo) (myLlu : LogUpdate) (synced : Bool) :
    Option LogUpdate :=
  let maxllu := (highest members).2
  if myLlu < maxllu ∧ synced = false then none else some ⟨nextGeneration maxllu.generation, 0⟩

/-- The log update is later than what every member has reported and than the coordinator's. -/
def LaterThanAll (members : List GroupNodeInfo) (myLlu llu : LogUpdate) : Prop :=
  (∀ p ∈ members, p.llu < llu) ∧ myLlu < llu

namespace LogUpdate

variable {x y z : LogUpdate}

theorem lt_iff : x < y ↔
    x.generation < y.generation ∨ x.generation = y.generation ∧ x.iteration < y.iteration := Iff.rfl

theorem not_lt_trans (hxy : ¬x < y) (hyz : ¬y < z) : ¬x < z := by
  rw [lt_iff] at *
  omega

/-- A log update comes before the first one of the next generation. -/
theorem lt_next (h : ¬y < x) : x < ⟨y.generation + 1, 0⟩ := by
  rw [lt_iff] at *
  dsimp only at *
  omega

end LogUpdate

/-- The turn of the loop of `mergeContinue` for a member -/
def later (best : Int × LogUpdate) (p : GroupNodeInfo) : Int × LogUpdate :=
  if best.2 < p.llu then (p.id, p.llu) else best

theorem highest_eq (members : List GroupNodeInfo) :
    highest members = members.foldl later (-1, ⟨-1, 0⟩) := rfl

variable {members : List GroupNodeInfo} {best : Int × LogUpdate} {myLlu : LogUpdate}

theorem not_later_lt (p : GroupNodeInfo) :
    ¬(later best p).2 < best.2 ∧ ¬(later best p).2 < p.llu := by
  unfold later
  split
  · rename_i h
    simp only [LogUpdate.lt_iff] at *
    omega
  · rename_i h
    refine ⟨?_, h⟩
    simp only [LogUpdate.lt_iff]
    omega

/-- The loop ends with the latest log update. -/
theorem not_foldl_later_lt : ¬(members.foldl later best).2 < best.2 ∧
    ∀ p ∈ members, ¬(members.foldl later best).2 < p.llu := by
  induction members generalizing best with
  | nil =>
    constructor
    · rw [List.foldl_nil, LogUpdate.lt_iff]
      omega
    · intro p hp
      cases hp
  | cons p members ih =>
    obtain ⟨hbest, hmembers⟩ := @ih (later best p)
    obtain ⟨hold, hp⟩ := @not_later_lt best p
    constructor
    · exact LogUpdate.not_lt_trans hbest hold
    · intro q hq
      rcases List.mem_cons.mp hq with rfl | hq
      · exact LogUpdate.not_lt_trans hbest hp
      · exact hmembers q hq

/-- What the loop ends with is what it began with or what a member has reported. -/
theorem foldl_later_mem : (members.foldl later best).2 = best.2 ∨
    ∃ p ∈ members, p.llu = (members.foldl later best).2 := by
  induction members generalizing best with
  | nil => exact .inl rfl
  | cons p members ih =>
    rw [List.foldl_cons]
    rcases @ih (later best p) with h | ⟨q, hq, h⟩
    · rw [h]
      unfold later
      split
      · exact .inr ⟨p, List.mem_cons_self .., rfl⟩
      · exact .inl rfl
    · exact .inr ⟨q, List.mem_cons_of_mem p hq, h⟩

/-- `mergeContinue` from the answer of its replica up to `initMaster`; `synced` says how the
fetching of the database ends, where it is needed. -/
def fetch (myLlu : LogUpdate) (synced : Bool) (group : String) (s : NodeI) : Option NodeI := do
  let s ← s.step (.lastLogUpdate (some myLlu))
  match s.timer with
  | .continuing _ _ (.syncing _) => s.step (.sync synced group)
  | _ => return s

theorem recoverOnTimer_ne_continuing (s : NodeI) (group group' : String)
    (stage : MergeStage) : (s.recoverOnTimer group).timer ≠ .continuing group' members stage := by
  unfold NodeI.recoverOnTimer
  dsimp only
  split
  · exact TimerThread.noConfusion
  · exact TimerThread.noConfusion

/-- The node gets to `initMaster` with the members exactly if there is a log update to install. -/
theorem reaches_initMaster_iff {s : NodeI} {gp group : String} {synced : Bool}
    (h : s.timer = .continuing gp members .started) :
    (∃ t, fetch myLlu synced group s = some t ∧ t.timer = .continuing gp members .synced) ↔
      ∃ llu, chooseLLU members myLlu synced = some llu := by
  unfold fetch chooseLLU NodeI.step
  rw [h]
  by_cases hlt : myLlu < (highest members).2
  · cases synced with
    | false =>
      simp only [hlt, if_true, Option.bind_eq_bind, Option.bind_some, and_self]
      constructor
      · rintro ⟨t, ht, hsynced⟩
        cases ht
        exact (recoverOnTimer_ne_continuing _ _ _ _ hsynced).elim
      · rintro ⟨llu, hllu⟩
        cases hllu
    | true => simp [hlt]
  · simp [hlt]

theorem not_highest_lt {p : GroupNodeInfo} (hp : p ∈ members) : ¬(highest members).2 < p.llu :=
  not_foldl_later_lt.2 p hp

theorem neg_one_le_highest : -1 ≤ (highest members).2.generation := by
  have h := (@not_foldl_later_lt members (-1, ⟨-1, 0⟩)).1
  rw [← highest_eq, LogUpdate.lt_iff] at h
  dsimp only at h
  omega

theorem highest_mem : (highest members).2 = ⟨-1, 0⟩ ∨ ∃ p ∈ members, p.llu = (highest members).2 :=
  foldl_later_mem

theorem chooseLLU_eq {llu : LogUpdate} {synced : Bool}
    (h : chooseLLU members myLlu synced = some llu) :
    llu = ⟨nextGeneration (highest members).2.generation, 0⟩ := by
  unfold chooseLLU at h
  dsimp only at h
  split at h
  · contradiction
  · exact (Option.some.inj h).symm

/-- `initMaster` stores the log update, whether or not the observers could be initialised. -/
theorem getLLU_initMaster {f : Faults} (hf : f.database = false) (llu : LogUpdate)
    (m : TopicManagerImpl) :
    (final (initMaster f llu) m).db.getLLU = llu := by
  have hspec : Spec (· = m) (initMaster f llu)
      (fun _ s => s.db.getLLU = llu) fun _ s => s.db.getLLU = llu := by
    unfold initMaster TopicManagerImpl.reap
    apply modify_bind
    apply get_bind
    apply transaction_bind
    · intro hfails
      rw [hf] at hfails
      contradiction
    · intro _
      apply replicate_bind
      · intro _
        exact Database.getLLU_putLLU llu _
      · intro _
        apply Spec.pure
        rintro s rfl
        exact Database.getLLU_putLLU llu _
  exact hspec.final rfl

/-- The coordinator's own last log update comes before the generation after that of a member, or
after the one that the search begins with. -/
def Followed (members : List GroupNodeInfo) (myLlu : LogUpdate) : Prop :=
  myLlu < ⟨0, 0⟩ ∨ ∃ p ∈ members, myLlu < ⟨p.llu.generation + 1, 0⟩

theorem followed_iff :
    Followed members myLlu ↔ myLlu < ⟨(highest members).2.generation + 1, 0⟩ := by
  unfold Followed
  constructor
  · rintro (h | ⟨p, hp, h⟩)
    · have hgeneration := @neg_one_le_highest members
      simp only [LogUpdate.lt_iff] at *
      omega
    · have hhighest := not_highest_lt hp
      simp only [LogUpdate.lt_iff] at *
      omega
  · intro h
    rcases @highest_mem members with heq | ⟨p, hp, heq⟩
    · left
      rw [heq] at h
      exact h
    · right
      refine ⟨p, hp, ?_⟩
      simpa only [heq] using h

/-- What the new master installs is later than all log updates before if and only if the next
generation is later than the coordinator's own last log update and is a `long`. -/
theorem laterThanAll_iff {synced : Bool} {llu : LogUpdate} {f : Faults}
    (hlong : ∀ p ∈ members, p.llu.generation < 2 ^ 63)
    (hllu : chooseLLU members myLlu synced = some llu) (hf : f.database = false)
    (m : TopicManagerImpl) :
    LaterThanAll members myLlu (final (initMaster f llu) m).db.getLLU ↔
      Followed members myLlu ∧ ∀ p ∈ members, p.llu.generation ≠ 2 ^ 63 - 1 := by
  rw [getLLU_initMaster hf]
  have hgeneration := @neg_one_le_highest members
  have hnew := chooseLLU_eq hllu
  have hle : ∀ p ∈ members, p.llu.generation ≤ (highest members).2.generation := by
    intro p hp
    have h := not_highest_lt hp
    rw [LogUpdate.lt_iff] at h
    omega
  rw [followed_iff]
  by_cases hmax : (highest members).2.generation = 2 ^ 63 - 1
  · -- the generation of the latest log update cannot be incremented
    rcases @highest_mem members with heq | ⟨p, hp, heq⟩
    · rw [heq] at hmax
      contradiction
    · constructor
      · intro h
        have hlt := h.1 p hp
        rw [heq, hnew, hmax, LogUpdate.lt_iff, hmax] at hlt
        have hwrap : nextGeneration (2 ^ 63 - 1) = -2 ^ 63 := by decide
        rw [hwrap] at hlt
        dsimp only at hlt
        omega
      · intro h
        exact absurd (by rw [heq, hmax]) (h.2 p hp)
  · have hbelow : (highest members).2.generation < 2 ^ 63 - 1 := by
      rcases @highest_mem members with heq | ⟨p, hp, heq⟩
      · rw [heq]
        decide
      · have := hlong p hp
        rw [heq] at this
        omega
    have hnext : nextGeneration (highest members).2.generation =
        (highest members).2.generation + 1 := by
      apply Int.bmod_eq_of_le
      · omega
      · omega
    rw [hnew, hnext]
    constructor
    · intro h
      refine ⟨h.2, ?_⟩
      intro p hp
      have := hle p hp
      omega
    · intro h
      refine ⟨?_, h.1⟩
      intro p hp
      exact LogUpdate.lt_next (not_highest_lt hp)

theorem laterThanAll_iff_behind :
    LaterThanAll [⟨1, ⟨3, 4⟩⟩] ⟨3, 2⟩
        (final (initMaster .none ⟨4, 0⟩) (.started .defaults)).db.getLLU ↔
      Followed [⟨1, ⟨3, 4⟩⟩] ⟨3, 2⟩ ∧
        ∀ p ∈ [(⟨1, ⟨3, 4⟩⟩ : GroupNodeInfo)], p.llu.generation ≠ 2 ^ 63 - 1 :=
  @laterThanAll_iff [⟨1, ⟨3, 4⟩⟩] ⟨3, 2⟩ true ⟨4, 0⟩ .none (by decide) (by decide) rfl
    (.started .defaults)

/-- A coordinator that is two generations ahead of its group installs an earlier log update than its
own. -/
theorem exists_earlier_installed :
    ¬ ∀ (members : List GroupNodeInfo) (myLlu llu : LogUpdate) (synced : Bool) (f : Faults)
      (m : TopicManagerImpl), (∀ p ∈ members, p.llu.generation < 2 ^ 63) →
        chooseLLU members myLlu synced = some llu → f.database = false →
          LaterThanAll members myLlu (final (initMaster f llu) m).db.getLLU := by
  intro h
  have hall := h [⟨1, ⟨1, 5⟩⟩] ⟨3, 2⟩ ⟨2, 0⟩ false .none (.started .defaults) (by decide)
    (by decide)
    rfl
  rw [getLLU_initMaster rfl] at hall
  exact absurd hall.2 (by decide)

end Ice.IceStormElection
