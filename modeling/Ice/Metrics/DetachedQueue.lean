import Mathlib.Data.List.Nodup
import Mathlib.Data.List.Pairwise
import Ice.Metrics.MetricsMap

/-!
# The queue of detached entries

What holds of the entries of a metrics map that has not been destroyed, and how each operation of
the map keeps it.
-/

namespace Ice.Metrics

open List (map_append map_cons mem_append mem_cons mem_cons_self mem_filter mem_map mem_map_of_mem
  mem_singleton nodup_singleton)
open Function (update_of_ne)
open Option (some.inj)

variable {Key : Type} {s : State Key} {e : Nat} {x : Option Nat}

/-- The state of the map, but for an entry `x` that is being detached -/
structure Live (x : Option Nat) (s : State Key) : Prop where
  own : ∀ k e, s.objects k = some e → e < s.freshEntry ∧ (s.entries e).id = k
  attached : ∀ e, (s.entries e).current ≠ 0 → s.objects (s.entries e).id = some e
  place : ∀ k e, s.objects k = some e → (s.entries e).detachedPos = none ∨
    ∃ node, (s.entries e).detachedPos = some node ∧ (node, e) ∈ s.detachedQueue
  queued : ∀ p ∈ s.detachedQueue, (s.entries p.2).detachedPos = some p.1 ∧
    s.objects (s.entries p.2).id = some p.2 ∧ p.1 < s.freshNode
  nodes : (s.detachedQueue.map Prod.fst).Nodup
  nodup : (s.detachedQueue.map Prod.snd).Nodup
  length : s.detachedQueue.length ≤ s.retain
  detached : s.retain ≠ 0 → ∀ k e, s.objects k = some e → (s.entries e).current = 0 → some e ≠ x →
    e ∈ s.detachedQueue.map Prod.snd
  kept : s.retain = 0 → ∀ e < s.freshEntry, s.objects (s.entries e).id = some e
  sorted : (s.detachedQueue.map Prod.snd).Pairwise fun e f =>
    some e ≠ x → some f ≠ x → s.detachedAt e < s.detachedAt f
  past : ∀ e, s.detachedAt e < s.clock
  evicted : ∀ e < s.freshEntry, s.objects (s.entries e).id ≠ some e →
    ∀ f ∈ s.detachedQueue.map Prod.snd, s.detachedAt e < s.detachedAt f

namespace Live

section

variable (h : Live x s)

include h

theorem mem_queue (he : e ∈ s.detachedQueue.map Prod.snd) :
    ∃ node, (s.entries e).detachedPos = some node ∧ (node, e) ∈ s.detachedQueue := by
  obtain ⟨⟨node, f⟩, hp, rfl⟩ := mem_map.mp he
  exact ⟨node, (h.queued _ hp).1, hp⟩

theorem not_mem_queue (hpos : (s.entries e).detachedPos = none) :
    e ∉ s.detachedQueue.map Prod.snd := by
  intro he
  obtain ⟨node, hnode, _⟩ := h.mem_queue he
  rw [hpos] at hnode
  cases hnode

/-- A change of an entry that leaves its place, and detaches it in no case -/
theorem modify {f : Entry Key → Entry Key}
    (hid : (f (s.entries e)).id = (s.entries e).id)
    (hpos : (f (s.entries e)).detachedPos = (s.entries e).detachedPos)
    (hattached : (f (s.entries e)).current ≠ 0 → s.objects (s.entries e).id = some e)
    (hdetached : (f (s.entries e)).current = 0 → (s.entries e).current = 0 ∨ some e = x) :
    Live x (s.modify e f) := by
  have hids : ∀ e', ((s.modify e f).entries e').id = (s.entries e').id := by
    intro e'
    unfold State.modify
    by_cases he : e' = e
    · subst he
      simp [hid]
    · simp [he]
  have hposs : ∀ e', ((s.modify e f).entries e').detachedPos = (s.entries e').detachedPos := by
    intro e'
    unfold State.modify
    by_cases he : e' = e
    · subst he
      simp [hpos]
    · simp [he]
  refine ⟨?_, ?_, ?_, ?_, h.nodes, h.nodup, h.length, ?_, ?_, h.sorted, h.past, ?_⟩
  · intro k e' he
    rw [hids]
    exact h.own k e' he
  · intro e' he
    rw [hids]
    by_cases heq : e' = e
    · subst heq
      apply hattached
      simpa [State.modify] using he
    · apply h.attached
      simpa [State.modify, heq] using he
  · intro k e' he
    rw [hposs]
    exact h.place k e' he
  · intro p hp
    rw [hids, hposs]
    exact h.queued p hp
  · intro hretain k e' he hcurrent hx
    by_cases heq : e' = e
    · subst heq
      rcases hdetached (by simpa [State.modify] using hcurrent) with hzero | hx'
      · exact h.detached hretain k e' he hzero hx
      · exact absurd hx' hx
    · exact h.detached hretain k e' he (by simpa [State.modify, heq] using hcurrent) hx
  · intro hretain e' he
    rw [hids]
    exact h.kept hretain e' he
  · intro e' he hnot
    rw [hids] at hnot
    exact h.evicted e' he hnot

theorem attach {k : Key} (he : s.objects k = some e) : Live x (s.attach e) := by
  apply h.modify rfl rfl
  · intro _
    rw [(h.own k e he).2]
    exact he
  · intro hzero
    cases hzero

end

/-- A new entry has an observer at once. -/
theorem insert [DecidableEq Key] (h : Live x s) {k : Key} (hk : s.objects k = none) :
    Live x ((s.insert k).attach s.freshEntry) := by
  have hentry : ∀ e, e ≠ s.freshEntry →
      ((s.insert k).attach s.freshEntry).entries e = s.entries e := by
    intro e he
    simp [State.attach, State.modify, State.insert, he]
  have hnew : ((s.insert k).attach s.freshEntry).entries s.freshEntry =
      ⟨k, 1, 1, 0, 0, fun _ => 0, none⟩ := by
    simp [State.attach, State.modify, State.insert]
  have hobject : ∀ k', k' ≠ k → ((s.insert k).attach s.freshEntry).objects k' = s.objects k' := by
    intro k' hne
    simp [State.attach, State.modify, State.insert, hne]
  have hself : ((s.insert k).attach s.freshEntry).objects k = some s.freshEntry := by
    simp [State.attach, State.modify, State.insert]
  have hold : ∀ k' e, s.objects k' = some e → e ≠ s.freshEntry ∧ k' ≠ k := by
    intro k' e he
    constructor
    · exact Nat.ne_of_lt (h.own k' e he).1
    · rintro rfl
      rw [hk] at he
      cases he
  have hcases : ∀ k' e, ((s.insert k).attach s.freshEntry).objects k' = some e →
      k' = k ∧ e = s.freshEntry ∨ s.objects k' = some e := by
    intro k' e he
    by_cases hne : k' = k
    · subst hne
      rw [hself] at he
      exact .inl ⟨rfl, (some.inj he).symm⟩
    · rw [hobject k' hne] at he
      exact .inr he
  refine ⟨?_, ?_, ?_, ?_, h.nodes, h.nodup, h.length, ?_, ?_, h.sorted, h.past, ?_⟩
  · intro k' e he
    rcases hcases k' e he with ⟨rfl, rfl⟩ | he
    · exact ⟨Nat.lt_succ_self _, by rw [hnew]⟩
    · rw [hentry e (hold k' e he).1]
      exact ⟨Nat.lt_succ_of_lt (h.own k' e he).1, (h.own k' e he).2⟩
  · intro e he
    by_cases heq : e = s.freshEntry
    · rw [heq, hnew]
      exact hself
    · rw [hentry e heq] at he ⊢
      have hat := h.attached e he
      rw [hobject _ (hold _ _ hat).2, hat]
  · intro k' e he
    rcases hcases k' e he with ⟨rfl, rfl⟩ | he
    · exact .inl (by rw [hnew])
    · rw [hentry e (hold k' e he).1]
      exact h.place k' e he
  · intro p hp
    obtain ⟨hpos, hobj, hlt⟩ := h.queued p hp
    rw [hentry p.2 (hold _ _ hobj).1, hobject _ (hold _ _ hobj).2]
    exact ⟨hpos, hobj, hlt⟩
  · intro hretain k' e he hcurrent hx
    rcases hcases k' e he with ⟨rfl, rfl⟩ | he
    · rw [hnew] at hcurrent
      cases hcurrent
    · rw [hentry e (hold k' e he).1] at hcurrent
      exact h.detached hretain k' e he hcurrent hx
  · intro hretain e he
    by_cases heq : e = s.freshEntry
    · rw [heq, hnew]
      exact hself
    · have hat := h.kept hretain e (Nat.lt_of_le_of_ne (Nat.le_of_lt_succ he) heq)
      rw [hentry e heq, hobject _ (hold _ _ hat).2, hat]
  · intro e he hnot
    by_cases heq : e = s.freshEntry
    · rw [heq, hnew] at hnot
      exact absurd hself hnot
    · rw [hentry e heq] at hnot
      apply h.evicted e (Nat.lt_of_le_of_ne (Nat.le_of_lt_succ he) heq)
      intro hat
      apply hnot
      rw [hobject _ (hold _ _ hat).2, hat]

/-- What is removed by compressing the queue has an observer again. -/
theorem compress (h : Live x s) : Live x s.compress := by
  have hsub : (s.detachedQueue.filter fun p => (s.entries p.2).current = 0).Sublist
      s.detachedQueue := List.filter_sublist
  have hid : ∀ e, (s.compress.entries e).id = (s.entries e).id ∧
      (s.compress.entries e).current = (s.entries e).current := by
    intro e
    unfold State.compress
    dsimp only
    split
    · exact ⟨rfl, rfl⟩
    · exact ⟨rfl, rfl⟩
  have hpos : ∀ e, e ∉ s.detachedQueue.map Prod.snd ∨ (s.entries e).current = 0 →
      (s.compress.entries e).detachedPos = (s.entries e).detachedPos := by
    intro e he
    unfold State.compress
    dsimp only
    rw [if_neg]
    rintro ⟨hmem, hcurrent⟩
    exact he.elim (fun h => h hmem) hcurrent
  refine ⟨?_, ?_, ?_, ?_, h.nodes.sublist (hsub.map _), h.nodup.sublist (hsub.map _),
    Nat.le_trans hsub.length_le h.length, ?_, ?_, h.sorted.sublist (hsub.map _), h.past, ?_⟩
  · intro k e he
    rw [(hid e).1]
    exact h.own k e he
  · intro e he
    rw [(hid e).1]
    rw [(hid e).2] at he
    exact h.attached e he
  · intro k e he
    by_cases hcurrent : (s.entries e).current = 0
    · rw [hpos e (.inr hcurrent)]
      rcases h.place k e he with hnone | ⟨node, hnode, hmem⟩
      · exact .inl hnone
      · exact .inr ⟨node, hnode, mem_filter.mpr ⟨hmem, decide_eq_true hcurrent⟩⟩
    · by_cases hmem : e ∈ s.detachedQueue.map Prod.snd
      · left
        unfold State.compress
        dsimp only
        rw [if_pos ⟨hmem, hcurrent⟩]
      · rw [hpos e (.inl hmem)]
        rcases h.place k e he with hnone | ⟨node, _, hin⟩
        · exact .inl hnone
        · exact absurd (mem_map_of_mem hin) hmem
  · intro p hp
    obtain ⟨hmem, hcurrent⟩ := mem_filter.mp hp
    rw [hpos p.2 (.inr (of_decide_eq_true hcurrent)), (hid p.2).1]
    exact h.queued p hmem
  · intro hretain k e he hcurrent hx
    rw [(hid e).2] at hcurrent
    obtain ⟨p, hp, rfl⟩ := mem_map.mp (h.detached hretain k e he hcurrent hx)
    exact mem_map_of_mem (mem_filter.mpr ⟨hp, decide_eq_true hcurrent⟩)
  · intro hretain e he
    rw [(hid e).1]
    exact h.kept hretain e he
  · intro e he hnot f hf
    rw [(hid e).1] at hnot
    exact h.evicted e he hnot f ((hsub.map _).mem hf)

/-- The oldest entry is removed where all of the queue are detached. -/
theorem evict [DecidableEq Key] (h : Live x s) (hx : ∀ e ∈ s.detachedQueue.map Prod.snd, some e ≠ x)
    (hzero : ∀ e ∈ s.detachedQueue.map Prod.snd, (s.entries e).current = 0)
    (hretain : s.retain ≠ 0) : Live x s.evict ∧ s.evict.detachedQueue = s.detachedQueue.tail := by
  cases hqueue : s.detachedQueue with
  | nil =>
    have hself : s.evict = s := by
      unfold State.evict
      rw [hqueue]
    rw [hself]
    exact ⟨h, hqueue⟩
  | cons p q =>
    obtain ⟨node, front⟩ := p
    have hfront := h.queued (node, front) (by rw [hqueue]; exact mem_cons_self)
    have hnodes := h.nodes
    have hnodup := h.nodup
    have hsorted := h.sorted
    have hlength := h.length
    rw [hqueue] at hnodes hnodup hsorted hlength hx hzero
    rw [map_cons, List.nodup_cons] at hnodes hnodup
    rw [map_cons, List.pairwise_cons] at hsorted
    have heq : s.evict = { s with
        objects := Function.update s.objects (s.entries front).id none
        detachedQueue := q } := by
      unfold State.evict
      rw [hqueue]
    have hmem : ∀ p ∈ q, p ∈ s.detachedQueue := by
      intro p hp
      rw [hqueue]
      exact List.mem_cons_of_mem _ hp
    have hother : ∀ e, e ≠ front → s.objects (s.entries e).id = some e →
        (s.entries e).id ≠ (s.entries front).id := by
      intro e hne he hid
      rw [hid, hfront.2.1] at he
      exact hne (some.inj he).symm
    have hobjects : ∀ k e, Function.update s.objects (s.entries front).id none k = some e →
        s.objects k = some e ∧ e ≠ front := by
      intro k e he
      by_cases hk : k = (s.entries front).id
      · rw [hk, Function.update_self] at he
        cases he
      · rw [update_of_ne hk] at he
        refine ⟨he, ?_⟩
        rintro rfl
        exact hk (h.own k e he).2.symm
    have hzero' := hzero front mem_cons_self
    rw [heq]
    refine ⟨⟨?_, ?_, ?_, ?_, hnodes.2, hnodup.2, ?_, ?_, ?_, hsorted.2, h.past, ?_⟩, rfl⟩
    · intro k e he
      exact h.own k e (hobjects k e he).1
    · intro e he
      have hat := h.attached e he
      have hne : e ≠ front := by
        rintro rfl
        exact he hzero'
      dsimp only
      rw [update_of_ne (hother e hne hat), hat]
    · intro k e he
      obtain ⟨hobj, hne⟩ := hobjects k e he
      rcases h.place k e hobj with hnone | ⟨node', hnode, hin⟩
      · exact .inl hnone
      · right
        refine ⟨node', hnode, ?_⟩
        rw [hqueue] at hin
        rcases mem_cons.mp hin with hin | hin
        · exact absurd (Prod.mk.inj hin).2 hne
        · exact hin
    · intro p hp
      obtain ⟨hpos, hobj, hlt⟩ := h.queued p (hmem p hp)
      have hne : p.2 ≠ front := by
        intro heq
        exact hnodup.1 (mem_map.mpr ⟨p, hp, heq⟩)
      dsimp only
      rw [update_of_ne (hother p.2 hne hobj)]
      exact ⟨hpos, hobj, hlt⟩
    · exact Nat.le_trans (Nat.le_succ _) hlength
    · intro _ k e he hcurrent hxe
      obtain ⟨hobj, hne⟩ := hobjects k e he
      have hin := h.detached hretain k e hobj hcurrent hxe
      rw [hqueue, map_cons] at hin
      exact (mem_cons.mp hin).resolve_left hne
    · intro hzero
      exact absurd hzero hretain
    · intro e he hnot f hf
      by_cases hat : s.objects (s.entries e).id = some e
      · by_cases hne : e = front
        · rw [hne]
          exact hsorted.1 f hf (hx front mem_cons_self) (hx f (List.mem_cons_of_mem _ hf))
        · dsimp only at hnot
          rw [update_of_ne (hother e hne hat)] at hnot
          exact absurd hat hnot
      · apply h.evicted e he hat f
        rw [hqueue]
        exact List.mem_cons_of_mem _ hf

variable {node : Nat}

/-- The entry that is being detached stands behind the rest of the queue. -/
theorem toBack {q : List (Nat × Nat)} {fresh : Nat} (h : Live (some e) s)
    (hobj : s.objects (s.entries e).id = some e) (hsub : q.Sublist s.detachedQueue)
    (hrest : ∀ p ∈ s.detachedQueue, p ∈ q ∨ p.2 = e) (hin : e ∉ q.map Prod.snd)
    (hnode : node ∉ q.map Prod.fst) (hfresh : s.freshNode ≤ fresh) (hlt : node < fresh)
    (hlength : q.length < s.retain) (hlast : ∀ f, f ≠ e → s.detachedAt f < s.detachedAt e) :
    Live none { s with
      entries := Function.update s.entries e { s.entries e with detachedPos := some node }
      detachedQueue := q ++ [(node, e)]
      freshNode := fresh } := by
  generalize hentries : Function.update s.entries e { s.entries e with detachedPos := some node } =
    entries
  have hentry : ∀ f, (entries f).id = (s.entries f).id ∧
      (entries f).current = (s.entries f).current := by
    intro f
    by_cases hf : f = e
    · subst hf
      simp [← hentries]
    · simp [← hentries, hf]
  have hpos : ∀ f, f ≠ e → (entries f).detachedPos = (s.entries f).detachedPos := by
    intro f hf
    simp [← hentries, hf]
  have hself : (entries e).detachedPos = some node := by
    simp [← hentries]
  have hne : ∀ f ∈ q.map Prod.snd, f ≠ e := by
    rintro f hf rfl
    exact hin hf
  refine ⟨?_, ?_, ?_, ?_, ?_, ?_, ?_, ?_, ?_, ?_, h.past, ?_⟩
  · intro k f hf
    rw [(hentry f).1]
    exact h.own k f hf
  · intro f hf
    rw [(hentry f).1]
    rw [(hentry f).2] at hf
    exact h.attached f hf
  · intro k f hf
    by_cases hfe : f = e
    · subst hfe
      exact .inr ⟨node, hself, by simp⟩
    · rw [hpos f hfe]
      rcases h.place k f hf with hnone | ⟨node', hnode', hmem⟩
      · exact .inl hnone
      · exact .inr ⟨node', hnode', List.mem_append_left _ ((hrest _ hmem).resolve_right hfe)⟩
  · intro p hp
    rcases mem_append.mp hp with hp | hp
    · obtain ⟨hp1, hp2, hp3⟩ := h.queued p (hsub.mem hp)
      rw [hpos p.2 (hne p.2 (mem_map_of_mem hp)), (hentry p.2).1]
      exact ⟨hp1, hp2, Nat.lt_of_lt_of_le hp3 hfresh⟩
    · obtain rfl := mem_singleton.mp hp
      rw [(hentry e).1]
      exact ⟨hself, hobj, hlt⟩
  · rw [map_append]
    apply List.Nodup.append (h.nodes.sublist (hsub.map _)) (nodup_singleton _)
    intro node' hnode' heq
    obtain rfl : node' = node := mem_singleton.mp heq
    exact hnode hnode'
  · rw [map_append]
    apply List.Nodup.append (h.nodup.sublist (hsub.map _)) (nodup_singleton _)
    intro f hf hfe
    exact hne f hf (mem_singleton.mp hfe)
  · rw [List.length_append]
    exact hlength
  · intro hretain k f hf hcurrent _
    rw [map_append]
    by_cases hfe : f = e
    · subst hfe
      simp
    · rw [(hentry f).2] at hcurrent
      obtain ⟨p, hp, rfl⟩ := mem_map.mp (h.detached hretain k f hf hcurrent (by simpa using hfe))
      exact List.mem_append_left _ (mem_map_of_mem ((hrest p hp).resolve_right hfe))
  · intro hretain f hf
    rw [(hentry f).1]
    exact h.kept hretain f hf
  · rw [map_append, List.pairwise_append]
    refine ⟨?_, List.pairwise_singleton _ _, ?_⟩
    · apply (h.sorted.sublist (hsub.map _)).imp_of_mem
      intro f g hf hg hlt _ _
      exact hlt (by simpa using hne f hf) (by simpa using hne g hg)
    · intro f hf g hg _ _
      rw [mem_singleton.mp hg]
      exact hlast f (hne f hf)
  · intro f hf hnot g hg
    rw [(hentry f).1] at hnot
    rw [map_append] at hg
    rcases mem_append.mp hg with hg | hg
    · exact h.evicted f hf hnot g ((hsub.map _).mem hg)
    · rw [mem_singleton.mp hg]
      apply hlast
      rintro rfl
      exact hnot hobj

/-- The entry that is being detached goes to the back of the queue. -/
theorem pushBack (h : Live (some e) s) (hin : e ∉ s.detachedQueue.map Prod.snd)
    (hobj : s.objects (s.entries e).id = some e) (hlength : s.detachedQueue.length < s.retain)
    (hlast : ∀ f, f ≠ e → s.detachedAt f < s.detachedAt e) : Live none (s.pushBack e) := by
  apply h.toBack hobj (.refl _) (fun _ hp => .inl hp) hin _ (Nat.le_succ _) (Nat.lt_succ_self _)
    hlength hlast
  intro hnode
  obtain ⟨p, hp, hfresh⟩ := mem_map.mp hnode
  exact absurd hfresh (Nat.ne_of_lt (h.queued p hp).2.2)

theorem filter_node {l : List (Nat × Nat)} (hnodup : (l.map Prod.fst).Nodup)
    (hmem : (node, e) ∈ l) : l.filter (fun p => p.1 = node) = [(node, e)] := by
  induction l with
  | nil => cases hmem
  | cons p l ih =>
    rw [map_cons, List.nodup_cons] at hnodup
    by_cases hp : p.1 = node
    · have hnone : l.filter (fun p => p.1 = node) = [] := by
        rw [List.filter_eq_nil_iff]
        intro q hq hnode
        apply hnodup.1
        rw [hp, ← of_decide_eq_true hnode]
        exact mem_map_of_mem hq
      rw [List.filter_cons_of_pos (by simpa using hp), hnone]
      rcases mem_cons.mp hmem with rfl | hmem
      · rfl
      · exact absurd (by rw [hp]; exact mem_map_of_mem (f := Prod.fst) hmem) hnodup.1
    · rw [List.filter_cons_of_neg (by simpa using hp)]
      apply ih hnodup.2
      rcases mem_cons.mp hmem with rfl | hmem
      · exact absurd rfl hp
      · exact hmem

/-- The entry that is being detached is moved to the back of the queue. -/
theorem requeue (h : Live (some e) s) (hobj : s.objects (s.entries e).id = some e)
    (hmem : (node, e) ∈ s.detachedQueue) (hlast : ∀ f, f ≠ e → s.detachedAt f < s.detachedAt e) :
    Live none { s with
      detachedQueue := s.detachedQueue.filter (fun p => p.1 ≠ node) ++ [(node, e)] } := by
  obtain ⟨hpos, -, hlt⟩ := h.queued _ hmem
  have hentry : { s.entries e with detachedPos := some node } = s.entries e := by
    rw [← hpos]
  have hback := @toBack _ s e node (s.detachedQueue.filter fun p => p.1 ≠ node) s.freshNode h hobj
    List.filter_sublist
  rw [hentry, Function.update_eq_self] at hback
  apply hback _ _ _ (Nat.le_refl _) hlt _ hlast
  · intro p hp
    by_cases hnode : p.1 = node
    · have hin : p ∈ s.detachedQueue.filter (fun p => p.1 = node) :=
        mem_filter.mpr ⟨hp, decide_eq_true hnode⟩
      rw [filter_node h.nodes hmem, mem_singleton] at hin
      exact .inr (congrArg Prod.snd hin)
    · exact .inl (mem_filter.mpr ⟨hp, decide_eq_true hnode⟩)
  · intro hin
    obtain ⟨⟨node', f⟩, hp, hf⟩ := mem_map.mp hin
    obtain ⟨hp, hne⟩ := mem_filter.mp hp
    obtain rfl : f = e := hf
    exact of_decide_eq_true hne (some.inj ((h.queued _ hp).1.symm.trans hpos))
  · intro hin
    obtain ⟨p, hp, heq⟩ := mem_map.mp hin
    exact of_decide_eq_true (mem_filter.mp hp).2 heq
  · have hless : (s.detachedQueue.filter fun p => p.1 ≠ node).length < s.detachedQueue.length :=
      List.length_filter_lt_length_iff_exists.mpr ⟨(node, e), hmem, by simp⟩
    exact Nat.lt_of_lt_of_le hless h.length

/-- Where a node is the last one of the queue, there is nothing to be moved. -/
theorem filter_last (h : Live x s) (hmem : (node, e) ∈ s.detachedQueue)
    (hlast : s.detachedQueue.getLast?.map Prod.fst = some node) :
    s.detachedQueue.filter (fun p => p.1 ≠ node) ++ [(node, e)] = s.detachedQueue := by
  obtain ⟨⟨node', f⟩, hgetLast, hnode⟩ := Option.map_eq_some_iff.mp hlast
  obtain rfl : node' = node := hnode
  obtain ⟨l, hl⟩ := List.getLast?_eq_some_iff.mp hgetLast
  have hnodes := h.nodes
  have hpos := (h.queued _ hmem).1
  have hfilter := filter_node h.nodes hmem
  rw [hl] at hnodes hfilter ⊢
  rw [map_append, List.nodup_append] at hnodes
  have hl' : ∀ p ∈ l, p.1 ≠ node' := by
    intro p hp
    exact hnodes.2.2 p.1 (mem_map_of_mem hp) node' (by simp)
  have hkeep : l.filter (fun p => p.1 ≠ node') = l :=
    List.filter_eq_self.mpr fun p hp => decide_eq_true (hl' p hp)
  have hdrop : l.filter (fun p => p.1 = node') = [] :=
    List.filter_eq_nil_iff.mpr fun p hp hp' => hl' p hp (of_decide_eq_true hp')
  rw [List.filter_append, hdrop, List.nil_append, List.filter_cons_of_pos (by simp)] at hfilter
  rw [List.filter_append, hkeep, List.filter_cons_of_neg (by simp), List.filter_nil,
    List.append_nil, (List.cons.inj hfilter).1]

/-- Room for an entry that is not in the queue -/
theorem makeRoom [DecidableEq Key] (h : Live (some e) s) (hretain : s.retain ≠ 0)
    (hin : e ∉ s.detachedQueue.map Prod.snd) (hobj : s.objects (s.entries e).id = some e) :
    let s₁ := if s.detachedQueue.length = s.retain then s.compress else s
    let s₂ := if s₁.detachedQueue.length = s₁.retain then s₁.evict else s₁
    Live (some e) s₂ ∧ e ∉ s₂.detachedQueue.map Prod.snd ∧ s₂.objects (s₂.entries e).id = some e ∧
      s₂.detachedQueue.length < s₂.retain ∧ s₂.detachedAt = s.detachedAt := by
  intro s₁ s₂
  have hfirst : Live (some e) s₁ ∧ e ∉ s₁.detachedQueue.map Prod.snd ∧
      s₁.objects (s₁.entries e).id = some e ∧ s₁.retain ≠ 0 ∧ s₁.detachedAt = s.detachedAt ∧
      (s₁.detachedQueue.length = s₁.retain →
        ∀ f ∈ s₁.detachedQueue.map Prod.snd, (s₁.entries f).current = 0) := by
    by_cases hfull : s.detachedQueue.length = s.retain
    · have hs₁ : s₁ = s.compress := if_pos hfull
      have hsub : (s.detachedQueue.filter fun p => (s.entries p.2).current = 0).Sublist
          s.detachedQueue := List.filter_sublist
      have hentries : s.compress.entries e = s.entries e := by
        unfold State.compress
        dsimp only
        rw [if_neg fun h => hin h.1]
      rw [hs₁]
      refine ⟨h.compress, fun h => hin ((hsub.map _).mem h), ?_, hretain, rfl, ?_⟩
      · rw [hentries]
        exact hobj
      · intro _ f hf
        obtain ⟨p, hp, rfl⟩ := mem_map.mp hf
        have hzero := of_decide_eq_true (mem_filter.mp hp).2
        unfold State.compress
        dsimp only
        rw [if_neg fun h => h.2 hzero]
        exact hzero
    · have hs₁ : s₁ = s := if_neg hfull
      rw [hs₁]
      exact ⟨h, hin, hobj, hretain, rfl, fun hfull' => absurd hfull' hfull⟩
  obtain ⟨hlive, hin, hobj, hretain, htimes, hzero⟩ := hfirst
  by_cases hfull : s₁.detachedQueue.length = s₁.retain
  · have hs₂ : s₂ = s₁.evict := if_pos hfull
    have hx : ∀ f ∈ s₁.detachedQueue.map Prod.snd, some f ≠ some e := by
      intro f hf heq
      rw [some.inj heq] at hf
      exact hin hf
    obtain ⟨hevict, hqueue⟩ := hlive.evict hx (hzero hfull) hretain
    have hsame : s₁.evict.entries = s₁.entries ∧ s₁.evict.retain = s₁.retain ∧
        s₁.evict.detachedAt = s₁.detachedAt ∧ s₁.evict.objects (s₁.entries e).id = some e := by
      unfold State.evict
      split
      · exact ⟨rfl, rfl, rfl, hobj⟩
      next node front q hq =>
        refine ⟨rfl, rfl, rfl, ?_⟩
        have hfront := (hlive.queued (node, front) (by rw [hq]; exact mem_cons_self)).2.1
        dsimp only
        rw [update_of_ne, hobj]
        intro hid
        rw [hid, hfront] at hobj
        apply hx front _ hobj
        rw [hq]
        exact mem_cons_self
    rw [hs₂]
    refine ⟨hevict, ?_, ?_, ?_, hsame.2.2.1.trans htimes⟩
    · rw [hqueue]
      intro hmem
      exact hin (((List.tail_sublist _).map _).mem hmem)
    · rw [hsame.1]
      exact hsame.2.2.2
    · rw [hqueue, hsame.2.1, List.length_tail, hfull]
      exact Nat.sub_lt (Nat.pos_of_ne_zero hretain) Nat.one_pos
  · have hs₂ : s₂ = s₁ := if_neg hfull
    rw [hs₂]
    exact ⟨hlive, hin, hobj, Nat.lt_of_le_of_ne hlive.length hfull, htimes⟩

/-- What `detached` leaves, when an entry in the map has lost its last observer -/
theorem detachedEntry [DecidableEq Key] (h : Live (some e) s) (hretain : s.retain ≠ 0)
    (hdestroyed : s.destroyed = false) (hobj : s.objects (s.entries e).id = some e)
    (hlast : ∀ f, f ≠ e → s.detachedAt f < s.detachedAt e) : Live none (s.detached e) := by
  have hassert : s.assert (decide (s.detachedQueue.length ≤ s.retain)) = s := by
    unfold State.assert
    rw [decide_eq_true h.length]
    simp
  unfold State.detached
  rw [if_neg (by simp [hretain, hdestroyed]), hassert]
  dsimp only
  cases hpos : (s.entries e).detachedPos with
  | some node =>
    dsimp only
    rcases h.place _ e hobj with hnone | ⟨node', hnode', hmem⟩
    · rw [hpos] at hnone
      cases hnone
    · rw [hpos] at hnode'
      obtain rfl := some.inj hnode'
      have hrequeue := h.requeue hobj hmem hlast
      split
      · have hsplice : s.splice node = { s with
            detachedQueue := s.detachedQueue.filter (fun p => p.1 ≠ node) ++ [(node, e)] } := by
          unfold State.splice
          rw [filter_node h.nodes hmem]
        have hentry : { s.entries e with detachedPos := some node } = s.entries e := by
          rw [← hpos]
        rw [hsplice]
        unfold State.modify
        dsimp only
        rw [List.getLast?_concat, Option.map_some, hentry, Function.update_eq_self]
        exact hrequeue
      next hnot =>
        rw [h.filter_last hmem (not_not.mp hnot)] at hrequeue
        exact hrequeue
  | none =>
    dsimp only
    obtain ⟨hlive, hin, hobj, hroom, htimes⟩ :=
      h.makeRoom hretain (h.not_mem_queue hpos) hobj
    apply hlive.pushBack hin hobj hroom
    rw [htimes]
    exact hlast

end Live

end Ice.Metrics
