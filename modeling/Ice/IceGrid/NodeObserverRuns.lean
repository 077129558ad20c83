import Mathlib.Data.List.Nodup
import Mathlib.Order.Nat
import Ice.IceGrid.NodeObservers

/-!
# What the observers of a node are told

Until one of its sends fails, an observer is sent everything that was queued since it was added, in
this order, and one update after the other. What it knows from all of it is what the node has now.
-/

namespace Ice.IceGrid.NodeObservers

open Function (update_of_ne update_self)
open Option (some.inj)
open List (append_nil map_append map_cons mem_append mem_cons mem_cons_self mem_map mem_singleton
  nodup_cons nodup_singleton not_mem_nil)

namespace Channel

variable {Id Proxy NodeInfo : Type} {c : Channel Id Proxy NodeInfo} {fresh id : Nat}
  {update first : Update Id Proxy NodeInfo} {success send : Bool}
  {rest : List (Nat × Update Id Proxy NodeInfo)}

/-- Nothing waits, and what is on its way is of a session before. -/
structure Idle (c : Channel Id Proxy NodeInfo) : Prop where
  updates : c.updates = none
  old : ∀ id ∈ c.outstanding, id < c.since
  history : c.failed = false → c.sent = c.queued

/-- The first update of the queue is on its way, and no other of the session. -/
structure Busy (fresh : Nat) (c : Channel Id Proxy NodeInfo) (id : Nat)
    (first : Update Id Proxy NodeInfo) (rest : List (Nat × Update Id Proxy NodeInfo)) : Prop where
  updates : c.updates = some ((id, first) :: rest)
  outstanding : id ∈ c.outstanding
  old : ∀ id' ∈ c.outstanding, id' = id ∨ id' < c.since
  range : ∀ id' ∈ id :: rest.map Prod.fst, c.since ≤ id' ∧ id' < fresh
  distinct : (id :: rest.map Prod.fst).Nodup
  history : c.failed = false → c.sent ++ rest.map Prod.snd = c.queued

/-- Addresses below `fresh` are in use. -/
structure Valid (fresh : Nat) (c : Channel Id Proxy NodeInfo) : Prop where
  since_le : c.since ≤ fresh
  below : ∀ id ∈ c.outstanding, id < fresh
  nodup : c.outstanding.Nodup
  queue : c.Idle ∨ ∃ id first rest, c.Busy fresh id first rest

theorem Valid.mono {later : Nat} (h : c.Valid fresh) (hle : fresh ≤ later) : c.Valid later where
  since_le := Nat.le_trans h.since_le hle
  below id hid := Nat.lt_of_lt_of_le (h.below id hid) hle
  nodup := h.nodup
  queue := by
    rcases h.queue with hidle | ⟨id, first, rest, hbusy⟩
    · exact .inl hidle
    · refine .inr ⟨id, first, rest, { hbusy with range := ?_ }⟩
      intro id' hid
      obtain ⟨hsince, hlt⟩ := hbusy.range id' hid
      exact ⟨hsince, Nat.lt_of_lt_of_le hlt hle⟩

theorem valid_restart (h : c.Valid fresh) : (c.restart fresh).Valid fresh where
  since_le := Nat.le_refl _
  below := h.below
  nodup := h.nodup
  queue := .inl ⟨rfl, h.below, fun _ => rfl⟩

/-- An update is sent where no queue is, and waits behind the others where one is. -/
theorem valid_queueUpdate (h : c.Valid fresh) :
    (c.queueUpdate fresh update send).Valid (fresh + 1) := by
  have hbelow : ∀ id ∈ c.outstanding ++ [fresh], id < fresh + 1 := by
    intro id hid
    rcases mem_append.mp hid with hid | hid
    · exact Nat.lt_succ_of_lt (h.below id hid)
    · rw [mem_singleton.mp hid]
      exact Nat.lt_succ_self fresh
  have hnodup : (c.outstanding ++ [fresh]).Nodup := by
    apply List.Nodup.append h.nodup (nodup_singleton fresh)
    intro id hid hfresh
    rw [mem_singleton.mp hfresh] at hid
    exact absurd (h.below fresh hid) (Nat.lt_irrefl fresh)
  have hsince := h.since_le
  rcases h.queue with hidle | ⟨id, first, rest, hbusy⟩
  · unfold queueUpdate
    simp only [hidle.updates]
    cases send with
    | true =>
      refine ⟨Nat.le_succ_of_le hsince, hbelow, hnodup, .inr ⟨fresh, update, [], ?_⟩⟩
      refine ⟨rfl, by simp, ?_, ?_, nodup_singleton fresh, ?_⟩
      · intro id hid
        rcases mem_append.mp hid with hid | hid
        · exact .inr (hidle.old id hid)
        · exact .inl (mem_singleton.mp hid)
      · intro id hid
        rw [mem_singleton.mp hid]
        exact ⟨hsince, Nat.lt_succ_self fresh⟩
      · intro hfailed
        exact (append_nil _).trans (congrArg (· ++ [update]) (hidle.history hfailed))
    | false =>
      refine ⟨Nat.le_succ_of_le hsince, (h.mono (Nat.le_succ fresh)).below, h.nodup, .inl ?_⟩
      rw [if_neg (by decide)]
      refine ⟨rfl, hidle.old, ?_⟩
      intro hfailed
      cases hfailed
  · unfold queueUpdate
    simp only [hbusy.updates]
    refine ⟨Nat.le_succ_of_le hsince, (h.mono (Nat.le_succ fresh)).below, h.nodup,
      .inr ⟨id, first, rest ++ [(fresh, update)], rfl, hbusy.outstanding, hbusy.old, ?_, ?_, ?_⟩⟩
    · intro id' hid
      rw [map_append, ← List.cons_append] at hid
      rcases mem_append.mp hid with hid | hid
      · obtain ⟨hle, hlt⟩ := hbusy.range id' hid
        exact ⟨hle, Nat.lt_succ_of_lt hlt⟩
      · rw [mem_singleton.mp hid]
        exact ⟨hsince, Nat.lt_succ_self fresh⟩
    · rw [map_append, ← List.cons_append]
      apply List.Nodup.append hbusy.distinct (nodup_singleton _)
      intro id' hid hfresh
      rw [mem_singleton.mp hfresh] at hid
      exact absurd (hbusy.range _ hid).2 (Nat.lt_irrefl fresh)
    · intro hfailed
      rw [map_append, ← List.append_assoc, hbusy.history hfailed]
      rfl

theorem queueUpdate_queued : (c.queueUpdate id update send).queued = c.queued ++ [update] := by
  unfold queueUpdate
  dsimp only
  split
  · split
    · rfl
    · rfl
  · rfl

theorem mem_erase_old (hnodup : c.outstanding.Nodup)
    (hold : ∀ id' ∈ c.outstanding, id' = id ∨ id' < c.since) :
    ∀ id' ∈ c.outstanding.erase id, id' < c.since := by
  intro id' hid
  obtain ⟨hne, hmem⟩ := hnodup.mem_erase_iff.mp hid
  exact (hold id' hmem).resolve_left hne

/-- The update that is on its way fails. -/
theorem finished_failure (hbusy : c.Busy fresh id first rest) :
    c.finished id false send =
      { c with updates := none, outstanding := c.outstanding.erase id, failed := true } := by
  have hle : c.since ≤ id := (hbusy.range id mem_cons_self).1
  unfold finished dequeueUpdate
  simp only [hbusy.updates]
  rw [if_neg (by simp)]
  simp [hle]

/-- The update that is on its way is the last one of the queue. -/
theorem finished_last (hbusy : c.Busy fresh id first []) :
    c.finished id true send =
      { c with updates := none, outstanding := c.outstanding.erase id } := by
  unfold finished dequeueUpdate
  simp only [hbusy.updates]
  rw [if_neg (by simp)]
  simp

/-- Another update waits behind the one that is on its way. -/
theorem finished_next {next : Nat} (hbusy : c.Busy fresh id first ((next, update) :: rest)) :
    c.finished id true send =
      if send then
        { c with
          updates := some ((next, update) :: rest)
          outstanding := c.outstanding.erase id ++ [next]
          sent := c.sent ++ [update] }
      else
        { c with updates := none, outstanding := c.outstanding.erase id, failed := true } := by
  unfold finished dequeueUpdate
  simp only [hbusy.updates]
  rw [if_neg (by simp)]
  simp

/-- A completion of a session before changes nothing else. -/
theorem finished_old (hid : id < c.since)
    (h : ∀ id' first rest, c.updates = some ((id', first) :: rest) → id' ≠ id) :
    c.finished id success send = { c with outstanding := c.outstanding.erase id } := by
  have hnle : ¬ c.since ≤ id := Nat.not_le.mpr hid
  unfold finished dequeueUpdate
  simp only [hnle, decide_false, Bool.and_false, Bool.or_false]
  split
  · rfl
  · rfl
  next id' first rest hupdates => rw [if_pos (h id' first rest hupdates)]

theorem valid_finished (h : c.Valid fresh) (hid : id ∈ c.outstanding) :
    (c.finished id success send).Valid fresh := by
  have hbelow : ∀ id' ∈ c.outstanding.erase id, id' < fresh := fun id' hid' =>
    h.below id' (List.mem_of_mem_erase hid')
  have hnodup := h.nodup.erase id
  rcases h.queue with hidle | ⟨front, first, rest, hbusy⟩
  · have hlt := hidle.old id hid
    rw [finished_old hlt (by simp [hidle.updates])]
    exact ⟨h.since_le, hbelow, hnodup, .inl ⟨hidle.updates, fun id' hid' =>
      hidle.old id' (List.mem_of_mem_erase hid'), hidle.history⟩⟩
  · rcases hbusy.old id hid with rfl | hlt
    · have hold := mem_erase_old h.nodup hbusy.old
      cases success with
      | false =>
        rw [finished_failure hbusy]
        refine ⟨h.since_le, hbelow, hnodup, .inl ⟨rfl, hold, ?_⟩⟩
        intro hfailed
        cases hfailed
      | true =>
        cases rest with
        | nil =>
          rw [finished_last hbusy]
          refine ⟨h.since_le, hbelow, hnodup, .inl ⟨rfl, hold, ?_⟩⟩
          intro hfailed
          exact (append_nil _).symm.trans (hbusy.history hfailed)
        | cons e rest =>
          obtain ⟨next, update⟩ := e
          have hdistinct := nodup_cons.mp hbusy.distinct
          have hrange := hbusy.range next (by simp)
          have hnext : next ∉ c.outstanding.erase id := fun hmem =>
            absurd (hold next hmem) (Nat.not_lt.mpr hrange.1)
          rw [finished_next hbusy]
          cases send with
          | false =>
            rw [if_neg (by decide)]
            refine ⟨h.since_le, hbelow, hnodup, .inl ⟨rfl, hold, ?_⟩⟩
            intro hfailed
            cases hfailed
          | true =>
            rw [if_pos rfl]
            refine ⟨h.since_le, ?_, ?_,
              .inr ⟨next, update, rest, rfl, by simp, ?_, ?_, ?_, ?_⟩⟩
            · intro id' hid'
              rcases mem_append.mp hid' with hid' | hid'
              · exact hbelow id' hid'
              · rw [mem_singleton.mp hid']
                exact hrange.2
            · apply List.Nodup.append hnodup (nodup_singleton next)
              intro id' hid' hnext'
              rw [mem_singleton.mp hnext'] at hid'
              exact hnext hid'
            · intro id' hid'
              rcases mem_append.mp hid' with hid' | hid'
              · exact .inr (hold id' hid')
              · exact .inl (mem_singleton.mp hid')
            · intro id' hid'
              exact hbusy.range id' (List.mem_cons_of_mem _ hid')
            · exact hdistinct.2
            · intro hfailed
              rw [← hbusy.history hfailed, map_cons, List.append_assoc]
              rfl
    · have hne : front ≠ id := by
        rintro rfl
        exact absurd (hbusy.range front mem_cons_self).1 (Nat.not_le.mpr hlt)
      have hfront : ∀ id' first rest, c.updates = some ((id', first) :: rest) → id' ≠ id := by
        intro id' first rest heq
        rw [hbusy.updates] at heq
        cases heq
        exact hne
      rw [finished_old hlt hfront]
      refine ⟨h.since_le, hbelow, hnodup, .inr ⟨front, first, rest, hbusy.updates, ?_, ?_,
        hbusy.range, hbusy.distinct, hbusy.history⟩⟩
      · exact (List.mem_erase_of_ne hne).mpr hbusy.outstanding
      · exact fun id' hid' => hbusy.old id' (List.mem_of_mem_erase hid')

theorem finished_queued : (c.finished id success send).queued = c.queued := by
  unfold finished dequeueUpdate
  dsimp only
  split
  · rfl
  · rfl
  · split
    · rfl
    · split
      · rfl
      · split
        · rfl
        · split
          · rfl
          · rfl

theorem waiting_of_idle (h : c.Idle) : c.waiting = [] := by
  unfold waiting
  rw [h.updates]

theorem waiting_of_busy (h : c.Busy fresh id first rest) : c.waiting = rest.map Prod.snd := by
  unfold waiting
  rw [h.updates]
  rfl

/-- What was sent is followed by what waits. -/
theorem sent_append_waiting (h : c.Valid fresh) (hfailed : c.failed = false) :
    c.sent ++ c.waiting = c.queued := by
  rcases h.queue with hidle | ⟨id, first, rest, hbusy⟩
  · rw [waiting_of_idle hidle, append_nil, hidle.history hfailed]
  · rw [waiting_of_busy hbusy, hbusy.history hfailed]

/-- Two updates of a session are never on their way together. -/
theorem current_unique (h : c.Valid fresh) {id' : Nat} (hid : id ∈ c.outstanding)
    (hle : c.since ≤ id) (hid' : id' ∈ c.outstanding) (hle' : c.since ≤ id') : id' = id := by
  rcases h.queue with hidle | ⟨front, first, rest, hbusy⟩
  · exact absurd (hidle.old id hid) (Nat.not_lt.mpr hle)
  · have hfront := (hbusy.old id hid).resolve_right (Nat.not_lt.mpr hle)
    have hfront' := (hbusy.old id' hid').resolve_right (Nat.not_lt.mpr hle')
    rw [hfront, hfront']

/-- Where updates wait, one is on its way, and the next one is sent when it has arrived. -/
theorem waiting_sent (h : c.Valid fresh) (hwaiting : c.waiting ≠ []) :
    ∃ id ∈ c.outstanding, c.since ≤ id ∧
      (c.finished id true true).sent ++ (c.finished id true true).waiting = c.sent ++ c.waiting ∧
      (c.finished id true true).sent.length = c.sent.length + 1 ∧
      (c.finished id true true).failed = c.failed := by
  rcases h.queue with hidle | ⟨id, first, rest, hbusy⟩
  · exact absurd (waiting_of_idle hidle) hwaiting
  · rw [waiting_of_busy hbusy] at hwaiting ⊢
    cases rest with
    | nil => exact absurd rfl hwaiting
    | cons e rest =>
      obtain ⟨next, update⟩ := e
      refine ⟨id, hbusy.outstanding, (hbusy.range id mem_cons_self).1, ?_⟩
      rw [finished_next hbusy, if_pos rfl]
      simp [waiting]

end Channel

section

variable {Id α : Type} [LinearOrder Id] {key : α → Id} {shown : α → Bool} {info x : α}
  {l m : List α}

/-- The same information, for one identity each -/
structure Agree (key : α → Id) (l m : List α) : Prop where
  same : ∀ x, x ∈ l ↔ x ∈ m
  nodup : (l.map key).Nodup
  sorted : Lib.SortedBy key m

theorem nodup_of_sorted (h : Lib.SortedBy key m) : (m.map key).Nodup :=
  (List.pairwise_map.mpr h).imp ne_of_lt

theorem agree_self (h : Lib.SortedBy key m) : Agree key m m :=
  ⟨fun _ => Iff.rfl, nodup_of_sorted h, h⟩

theorem mem_assign : x ∈ assign key shown info m ↔
    x = info ∧ shown info = true ∨ x ∈ m ∧ key x ≠ key info := by
  unfold assign
  by_cases hshown : shown info = true
  · rw [if_pos hshown, Lib.mem_insertBy (fun y hy => (Lib.mem_eraseBy.mp hy).2), Lib.mem_eraseBy]
    simp [hshown]
  · rw [if_neg hshown, Lib.mem_eraseBy]
    simp [hshown]

theorem sorted_assign (h : Lib.SortedBy key m) : Lib.SortedBy key (assign key shown info m) := by
  unfold assign
  split
  · exact h.eraseBy.insertBy
  · exact h.eraseBy

theorem told_spec (h : (l.map key).Nodup) : ((told key shown info l).map key).Nodup ∧
    ∀ x, x ∈ told key shown info l ↔ x = info ∧ shown info = true ∨ x ∈ l ∧ key x ≠ key info := by
  induction l with
  | nil =>
    unfold told
    by_cases hshown : shown info = true
    · simp [hshown]
    · simp [hshown]
  | cons y l ih =>
    rw [map_cons, nodup_cons] at h
    obtain ⟨hnodup, hmem⟩ := ih h.2
    unfold told
    by_cases hkey : key y = key info
    · have hother : ∀ x ∈ l, key x ≠ key info := by
        intro x hx heq
        exact h.1 (mem_map.mpr ⟨x, hx, heq.trans hkey.symm⟩)
      rw [if_pos hkey]
      by_cases hshown : shown info = true
      · rw [if_pos hshown]
        constructor
        · rw [map_cons, ← hkey]
          exact nodup_cons.mpr h
        · intro x
          rw [mem_cons, mem_cons]
          constructor
          · rintro (rfl | hx)
            · exact .inl ⟨rfl, hshown⟩
            · exact .inr ⟨.inr hx, hother x hx⟩
          · rintro (⟨rfl, _⟩ | ⟨rfl | hx, hne⟩)
            · exact .inl rfl
            · exact absurd hkey hne
            · exact .inr hx
      · rw [if_neg hshown]
        refine ⟨h.2, ?_⟩
        intro x
        rw [mem_cons]
        constructor
        · intro hx
          exact .inr ⟨.inr hx, hother x hx⟩
        · rintro (⟨_, hshown'⟩ | ⟨rfl | hx, hne⟩)
          · exact absurd hshown' hshown
          · exact absurd hkey hne
          · exact hx
    · rw [if_neg hkey]
      constructor
      · rw [map_cons, nodup_cons]
        refine ⟨?_, hnodup⟩
        intro hy
        obtain ⟨x, hx, heq⟩ := mem_map.mp hy
        rcases (hmem x).mp hx with ⟨rfl, _⟩ | ⟨hx, _⟩
        · exact hkey heq.symm
        · exact h.1 (mem_map.mpr ⟨x, hx, heq⟩)
      · intro x
        rw [mem_cons, hmem, mem_cons]
        constructor
        · rintro (rfl | hx | ⟨hx, hne⟩)
          · exact .inr ⟨.inl rfl, hkey⟩
          · exact .inl hx
          · exact .inr ⟨.inr hx, hne⟩
        · rintro (hx | ⟨rfl | hx, hne⟩)
          · exact .inr (.inl hx)
          · exact .inl rfl
          · exact .inr (.inr ⟨hx, hne⟩)

/-- An observer that has the information of the node has it after an update. -/
theorem Agree.told (h : Agree key l m) :
    Agree key (told key shown info l) (assign key shown info m) := by
  obtain ⟨hnodup, hmem⟩ := @told_spec _ _ _ _ shown info _ h.nodup
  refine ⟨?_, hnodup, sorted_assign h.sorted⟩
  intro x
  rw [hmem, mem_assign, h.same]

end

section

variable {Session Observer Id Proxy NodeInfo : Type} [LinearOrder Session] [DecidableEq Observer]
  [LinearOrder Id] {s s' : State Session Observer Id Proxy NodeInfo}

omit [LinearOrder Session] [LinearOrder Id] in
/-- The loop over the observers tells each of them once. -/
theorem queueAll_spec (update : Update Id Proxy NodeInfo) (send : Observer → Bool)
    (l : List (Session × Observer)) : ∀ (told : List Observer)
      (s : State Session Observer Id Proxy NodeInfo),
    (∀ o, (s.channel o).Valid s.fresh) →
    let s' := State.queueAll update send l told s
    s'.observers = s.observers ∧ s'.serversDynamicInfo = s.serversDynamicInfo ∧
      s'.adaptersDynamicInfo = s.adaptersDynamicInfo ∧ (∀ o, (s'.channel o).Valid s'.fresh) ∧
      ∀ o, (s'.channel o).queued = (s.channel o).queued ++
        if o ∈ l.map Prod.snd ∧ o ∉ told then [update] else [] := by
  induction l with
  | nil =>
    intro told s hvalid
    refine ⟨rfl, rfl, rfl, hvalid, ?_⟩
    intro o
    rw [if_neg (by simp)]
    exact (append_nil _).symm
  | cons e l ih =>
    intro told s hvalid
    obtain ⟨session, observer⟩ := e
    unfold State.queueAll
    by_cases htold : observer ∈ told
    · rw [if_pos htold]
      obtain ⟨hobservers, hservers, hadapters, hvalid', hqueued⟩ := ih told s hvalid
      refine ⟨hobservers, hservers, hadapters, hvalid', ?_⟩
      intro o
      rw [hqueued]
      congr 1
      apply if_congr ?_ rfl rfl
      rw [map_cons, mem_cons]
      constructor
      · exact fun h => ⟨.inr h.1, h.2⟩
      · rintro ⟨rfl | h, hnot⟩
        · exact absurd htold hnot
        · exact ⟨h, hnot⟩
    · rw [if_neg htold]
      have hnext : ∀ o, ((s.queueUpdate observer update (send observer)).channel o).Valid
          (s.queueUpdate observer update (send observer)).fresh := by
        intro o
        unfold State.queueUpdate
        dsimp only
        by_cases ho : o = observer
        · subst ho
          rw [update_self]
          exact Channel.valid_queueUpdate (hvalid o)
        · rw [update_of_ne ho]
          exact (hvalid o).mono (Nat.le_succ _)
      obtain ⟨hobservers, hservers, hadapters, hvalid', hqueued⟩ :=
        ih (observer :: told) (s.queueUpdate observer update (send observer)) hnext
      refine ⟨hobservers, hservers, hadapters, hvalid', ?_⟩
      intro o
      rw [hqueued]
      unfold State.queueUpdate
      dsimp only
      by_cases ho : o = observer
      · subst ho
        rw [update_self, Channel.queueUpdate_queued]
        simp [htold]
      · rw [update_of_ne ho]
        congr 1
        apply if_congr ?_ rfl rfl
        rw [map_cons, mem_cons, mem_cons, not_or]
        constructor
        · exact fun h => ⟨.inr h.1, h.2.2⟩
        · exact fun h => ⟨h.1.resolve_left ho, ho, h.2⟩

/-- Everything was told since the observer was added, and it makes up what the node has. -/
def Informed (s : State Session Observer Id Proxy NodeInfo)
    (queued : List (Update Id Proxy NodeInfo)) : Prop :=
  ∃ info servers adapters later, queued = .nodeUp info servers adapters :: later ∧
    (∀ update ∈ later, ∀ info servers adapters, update ≠ .nodeUp info servers adapters) ∧
    Agree ServerDynamicInfo.id (queued.foldl know ([], [])).1 s.serversDynamicInfo ∧
    Agree AdapterDynamicInfo.id (queued.foldl know ([], [])).2 s.adaptersDynamicInfo

/-- What every step of the topic keeps -/
structure Good (s : State Session Observer Id Proxy NodeInfo) : Prop where
  valid : ∀ o, (s.channel o).Valid s.fresh
  serversSorted : Lib.SortedBy ServerDynamicInfo.id s.serversDynamicInfo
  adaptersSorted : Lib.SortedBy AdapterDynamicInfo.id s.adaptersDynamicInfo
  serversShown : ∀ info ∈ s.serversDynamicInfo, info.shown = true
  adaptersShown : ∀ info ∈ s.adaptersDynamicInfo, info.shown = true
  informed : ∀ o ∈ s.observers.map Prod.snd, Informed s (s.channel o).queued

omit [LinearOrder Session] [DecidableEq Observer] in
theorem good_init : Good (init : State Session Observer Id Proxy NodeInfo) where
  valid _ := ⟨Nat.le_refl _, by simp [init], List.nodup_nil,
    .inl ⟨rfl, by simp [init], fun _ => rfl⟩⟩
  serversSorted := List.Pairwise.nil
  adaptersSorted := List.Pairwise.nil
  serversShown _ h := by cases h
  adaptersShown _ h := by cases h
  informed _ h := by cases h

omit [LinearOrder Session] in
/-- An update is told to the observers that are there, and the maps change with it. -/
theorem good_queueAll (h : Good s) {update : Update Id Proxy NodeInfo} {send : Observer → Bool}
    {servers : List (ServerDynamicInfo Id)} {adapters : List (AdapterDynamicInfo Id Proxy)}
    (hservers : Lib.SortedBy ServerDynamicInfo.id servers)
    (hadapters : Lib.SortedBy AdapterDynamicInfo.id adapters)
    (hserversShown : ∀ info ∈ servers, info.shown = true)
    (hadaptersShown : ∀ info ∈ adapters, info.shown = true)
    (hupdate : ∀ info servers adapters, update ≠ .nodeUp info servers adapters)
    (hknow : ∀ known : List (ServerDynamicInfo Id) × List (AdapterDynamicInfo Id Proxy),
      Agree ServerDynamicInfo.id known.1 s.serversDynamicInfo →
      Agree AdapterDynamicInfo.id known.2 s.adaptersDynamicInfo →
      Agree ServerDynamicInfo.id (know known update).1 servers ∧
        Agree AdapterDynamicInfo.id (know known update).2 adapters) :
    Good (State.queueAll update send s.observers []
      { s with serversDynamicInfo := servers, adaptersDynamicInfo := adapters }) := by
  obtain ⟨hobservers, hservers', hadapters', hvalid, hqueued⟩ := queueAll_spec update send
    s.observers [] { s with serversDynamicInfo := servers, adaptersDynamicInfo := adapters } h.valid
  refine ⟨hvalid, ?_, ?_, ?_, ?_, ?_⟩
  · rw [hservers']
    exact hservers
  · rw [hadapters']
    exact hadapters
  · rw [hservers']
    exact hserversShown
  · rw [hadapters']
    exact hadaptersShown
  · intro o ho
    rw [hobservers] at ho
    obtain ⟨info, sv, ad, later, heq, hlater, hs, ha⟩ := h.informed o ho
    have hnow := hqueued o
    rw [if_pos ⟨ho, not_mem_nil⟩] at hnow
    obtain ⟨hs, ha⟩ := hknow _ hs ha
    refine ⟨info, sv, ad, later ++ [update], ?_, ?_, ?_, ?_⟩
    · rw [hnow]
      exact congrArg (· ++ [update]) heq
    · intro u hu
      rcases mem_append.mp hu with hu | hu
      · exact hlater u hu
      · rw [mem_singleton.mp hu]
        exact hupdate
    · rw [hnow, hservers', List.foldl_append]
      exact hs
    · rw [hnow, hadapters', List.foldl_append]
      exact ha

theorem shown_assign {α : Type} {key : α → Id} {shown : α → Bool} {info : α} {m : List α}
    (h : ∀ x ∈ m, shown x = true) : ∀ x ∈ assign key shown info m, shown x = true := by
  intro x hx
  rcases mem_assign.mp hx with ⟨rfl, hshown⟩ | ⟨hx, _⟩
  · exact hshown
  · exact h x hx

theorem good_addObserver (h : Good s) {session : Session} {observer : Observer} {info : NodeInfo}
    {send : Bool} : Good (s.addObserver session observer info send) := by
  have hvalid : ∀ o,
      ((s.addObserver session observer info send).channel o).Valid (s.fresh + 1) := by
    intro o
    unfold State.addObserver State.queueUpdate
    dsimp only
    by_cases ho : o = observer
    · subst ho
      rw [update_self, update_self]
      exact Channel.valid_queueUpdate (Channel.valid_restart (h.valid o))
    · rw [update_of_ne ho, update_of_ne ho]
      exact (h.valid o).mono (Nat.le_succ _)
  refine ⟨hvalid, h.serversSorted, h.adaptersSorted, h.serversShown, h.adaptersShown, ?_⟩
  intro o ho
  by_cases heq : o = observer
  · subst heq
    have hqueued : ((s.addObserver session o info send).channel o).queued =
        [.nodeUp info s.serversDynamicInfo s.adaptersDynamicInfo] := by
      unfold State.addObserver State.queueUpdate
      dsimp only
      rw [update_self, update_self, Channel.queueUpdate_queued]
      rfl
    refine ⟨info, s.serversDynamicInfo, s.adaptersDynamicInfo, [], hqueued, by simp, ?_, ?_⟩
    · rw [hqueued]
      exact agree_self h.serversSorted
    · rw [hqueued]
      exact agree_self h.adaptersSorted
  · have hsame : ((s.addObserver session observer info send).channel o) = s.channel o := by
      unfold State.addObserver State.queueUpdate
      dsimp only
      rw [update_of_ne heq, update_of_ne heq]
    rw [hsame]
    apply h.informed
    obtain ⟨e, he, rfl⟩ := mem_map.mp ho
    rcases Lib.mem_or_eq_of_mem_insertBy he with rfl | he
    · exact absurd rfl heq
    · exact List.mem_map_of_mem he

/-- What is queued for an observer, after something has happened: `nodeUp` when it is added, and
every update while it is there. -/
def queuedAfter (s : State Session Observer Id Proxy NodeInfo) (o : Observer) :
    Label Session Observer Id Proxy NodeInfo → List (Update Id Proxy NodeInfo)
  | .addObserver _ observer info _ =>
    if o = observer then [.nodeUp info s.serversDynamicInfo s.adaptersDynamicInfo]
    else (s.channel o).queued
  | .observerUpdateServer info _ =>
    (s.channel o).queued ++ if o ∈ s.observers.map Prod.snd then [.updateServer info] else []
  | .observerUpdateAdapter info _ =>
    (s.channel o).queued ++ if o ∈ s.observers.map Prod.snd then [.updateAdapter info] else []
  | .removeObserver _ => (s.channel o).queued
  | .finished _ _ _ _ => (s.channel o).queued

theorem step_queued (h : Good s) {l : Label Session Observer Id Proxy NodeInfo}
    (hs : step s l = some s') (o : Observer) : (s'.channel o).queued = queuedAfter s o l := by
  cases l with
  | addObserver session observer info send =>
    simp only [step] at hs
    split at hs
    · cases hs
    · obtain rfl := some.inj hs
      unfold State.addObserver State.queueUpdate queuedAfter
      dsimp only
      by_cases ho : o = observer
      · subst ho
        rw [update_self, update_self, Channel.queueUpdate_queued, if_pos rfl]
        rfl
      · rw [update_of_ne ho, update_of_ne ho, if_neg ho]
  | removeObserver session =>
    obtain rfl := some.inj hs
    rfl
  | observerUpdateServer info send =>
    obtain rfl := some.inj hs
    obtain ⟨_, _, _, _, hqueued⟩ := queueAll_spec (.updateServer info) send s.observers []
      { s with
        serversDynamicInfo :=
          assign ServerDynamicInfo.id ServerDynamicInfo.shown info s.serversDynamicInfo } h.valid
    apply (hqueued o).trans
    simp only [not_mem_nil, not_false_eq_true, and_true]
    rfl
  | observerUpdateAdapter info send =>
    obtain rfl := some.inj hs
    obtain ⟨_, _, _, _, hqueued⟩ := queueAll_spec (.updateAdapter info) send s.observers []
      { s with
        adaptersDynamicInfo :=
          assign AdapterDynamicInfo.id AdapterDynamicInfo.shown info s.adaptersDynamicInfo }
      h.valid
    apply (hqueued o).trans
    simp only [not_mem_nil, not_false_eq_true, and_true]
    rfl
  | finished observer id success send =>
    simp only [step] at hs
    split at hs
    · obtain rfl := some.inj hs
      dsimp only [queuedAfter]
      by_cases ho : o = observer
      · subst ho
        rw [update_self, Channel.finished_queued]
      · rw [update_of_ne ho]
    · cases hs

theorem good_step (h : Good s) {l : Label Session Observer Id Proxy NodeInfo}
    (hs : step s l = some s') : Good s' := by
  cases l with
  | addObserver session observer info send =>
    simp only [step] at hs
    split at hs
    · cases hs
    · obtain rfl := some.inj hs
      exact good_addObserver h
  | removeObserver session =>
    obtain rfl := some.inj hs
    refine ⟨h.valid, h.serversSorted, h.adaptersSorted, h.serversShown, h.adaptersShown, ?_⟩
    intro o ho
    obtain ⟨e, he, rfl⟩ := mem_map.mp ho
    exact h.informed e.2 (List.mem_map_of_mem (Lib.mem_eraseBy.mp he).1)
  | observerUpdateServer info send =>
    obtain rfl := some.inj hs
    apply good_queueAll h (sorted_assign h.serversSorted) h.adaptersSorted
      (shown_assign h.serversShown) h.adaptersShown
    · intro info' servers adapters heq
      cases heq
    · exact fun known hservers hadapters => ⟨hservers.told, hadapters⟩
  | observerUpdateAdapter info send =>
    obtain rfl := some.inj hs
    apply good_queueAll h h.serversSorted (sorted_assign h.adaptersSorted) h.serversShown
      (shown_assign h.adaptersShown)
    · intro info' servers adapters heq
      cases heq
    · exact fun known hservers hadapters => ⟨hservers, hadapters.told⟩
  | finished observer id success send =>
    simp only [step] at hs
    split at hs
    next hid =>
      have hqueued := step_queued h (l := .finished observer id success send)
        (show step s _ = some s' from (if_pos hid).trans hs)
      obtain rfl := some.inj hs
      refine ⟨?_, h.serversSorted, h.adaptersSorted, h.serversShown, h.adaptersShown, ?_⟩
      · intro o
        by_cases ho : o = observer
        · subst ho
          dsimp only
          rw [update_self]
          exact Channel.valid_finished (h.valid o) hid
        · dsimp only
          rw [update_of_ne ho]
          exact h.valid o
      · intro o ho
        rw [hqueued]
        exact h.informed o ho
    · cases hs

theorem good_of_reach (h : Lib.Reach step Lib.Any init s) : Good s :=
  h.invariant good_init fun _ _ _ hgood _ hs => good_step hgood hs

/-- In every state: until a send to an observer fails, what was sent to it is what was queued, as
far as it does not wait behind the one update that is on its way, and what waits is sent one after
the other. Every update is queued for the observers that are there, behind the `nodeUp` of the last
time they were added, and what was queued makes up what the node has. The assertions of
`addObserver` hold. -/
theorem observer_informed (h : Lib.Reach step Lib.Any init s) (o : Observer) :
    let c := s.channel o
    (∀ id ∈ c.outstanding, ∀ id' ∈ c.outstanding, c.since ≤ id → c.since ≤ id' → id' = id) ∧
      c.outstanding.Nodup ∧
      (c.failed = false → c.sent ++ c.waiting = c.queued) ∧
      (c.waiting ≠ [] → ∃ id ∈ c.outstanding, c.since ≤ id ∧
        ∃ s', step s (.finished o id true true) = some s' ∧
          (s'.channel o).sent ++ (s'.channel o).waiting = c.sent ++ c.waiting ∧
          (s'.channel o).sent.length = c.sent.length + 1 ∧ (s'.channel o).failed = c.failed) ∧
      (∀ l s', step s l = some s' → (s'.channel o).queued = queuedAfter s o l) ∧
      (o ∈ s.observers.map Prod.snd → Informed s c.queued) ∧
      (∀ info ∈ s.serversDynamicInfo, info.shown = true) ∧
      ∀ info ∈ s.adaptersDynamicInfo, info.shown = true := by
  intro c
  have hgood := good_of_reach h
  have hvalid := hgood.valid o
  refine ⟨?_, hvalid.nodup, Channel.sent_append_waiting hvalid, ?_,
    fun l s' hs => step_queued hgood hs o, hgood.informed o, hgood.serversShown,
    hgood.adaptersShown⟩
  · intro id hid id' hid' hle hle'
    exact Channel.current_unique hvalid hid hle hid' hle'
  · intro hwaiting
    obtain ⟨id, hid, hle, hsent⟩ := Channel.waiting_sent hvalid hwaiting
    refine ⟨id, hid, hle, _, if_pos hid, ?_⟩
    dsimp only
    rw [update_self]
    exact hsent

/-- An observer that is added and told about a server while `nodeUp` is on its way -/
theorem observer_informed_server :
    let labels : List (Label Nat Nat Nat Nat Unit) :=
      [.addObserver 1 7 () true, .observerUpdateServer ⟨3, .active, 12, true⟩ fun _ => true]
    ∃ s, Lib.run step init labels = some s ∧
      (s.channel 7).failed = false ∧ (s.channel 7).waiting ≠ [] ∧
      (s.channel 7).sent ++ (s.channel 7).waiting = (s.channel 7).queued := by
  intro labels
  have hrun : Lib.run step init labels = some _ := rfl
  refine ⟨_, hrun, rfl, List.cons_ne_nil _ _, ?_⟩
  exact (observer_informed (Lib.Reach.of_run .refl hrun) 7).2.2.1 rfl

end

end Ice.IceGrid.NodeObservers
