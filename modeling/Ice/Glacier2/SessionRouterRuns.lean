import Ice.Glacier2.SessionRouterBooks

/-!
# Runs of the session router

Each step of a run that meets the condition keeps the books, so what they say of the requests, the
tables and the sessions holds in every state.
-/

namespace Ice.Glacier2.Sessions

open Std Lib State
open List (mem_append_left mem_append_right mem_map mem_of_getElem? mem_singleton_self)
open Option (bind_eq_some_iff isSome_iff_exists some.inj)
open HintedMap (entries_lookup getElem?_erase getElem?_insert valid_empty valid_insert)

variable {s t : State} {i j : Nat} {c c' : CreateSession}

theorem State.Owned.weaken (h : s.Owned none) (k : Option Nat) : s.Owned k :=
  fun j hj _ => h j hj nofun

/-- A creation in progress goes on, maybe with a session that was returned. -/
theorem Consistent.advance {p : Phase} {returned : List Nat} (h : Consistent s)
    (hc : s.creations[i]? = some c) (hfrom : c.phase.inProgress = true)
    (hne : c.phase ≠ .sessionCreated true) (hto : p.inProgress = true)
    (hreturned : ∀ j ∈ returned, j ∈ s.returned ∨ j = i ∧ p = .sessionCreated true) :
    Consistent { s.setCreation i { c with phase := p } with returned } := by
  have hopen := not_settled_of_inProgress hfrom
  have hopen' := not_settled_of_inProgress hto
  have hne' : c.phase ≠ .queued := ne_queued_of_inProgress hfrom
  constructor
  · exact h.answered.set hc rfl rfl (hopen'.trans hopen.symm)
  · have hwaiting : ({ c with phase := p } : CreateSession).waiting = c.waiting := by
      rw [waiting_of_inProgress hfrom, waiting_of_inProgress hto]
    exact h.waits.set hc rfl hwaiting (ne_queued_of_inProgress hto) fun hq => absurd hq hne'
  · exact h.pending.set hc rfl rfl rfl (hto.trans hfrom.symm)
  · refine h.tables.set hc rfl (fun _ hmem => .inl hmem) rfl rfl rfl ?_ ?_
    · intro hsettled
      rw [hopen] at hsettled
      cases hsettled
    · exact fun _ => ⟨hopen, rfl⟩
  · refine h.owned.set hc rfl ?_ (fun _ hj => hj) (fun _ hj => hj) ?_
    · intro j hj
      exact (hreturned j hj).imp id fun hj => hj.1
    · intro hi _
      rcases hreturned i hi with hi | ⟨-, rfl⟩
      · exact .inr ⟨hi, hne, rfl⟩
      · exact .inl rfl

/-- The books when a creation is finished, but for its session -/
structure Finished (s : State) (i : Nat) : Prop where
  answered : s.Answered
  waits : s.Waits none
  pending : s.Pending
  tables : s.Tables
  owned : s.Owned (some i)

theorem Finished.consistent (h : Finished s i)
    (hi : i ∈ s.returned → s.phase? i = some (.sessionCreated true) ∨ i ∈ s.destroyedSessions ∨
      (∃ category, s.router? i = some ⟨category, true⟩) ∧ s.Held i) : Consistent s := by
  refine ⟨h.answered, h.waits, h.pending, h.tables, fun j hj _ => ?_⟩
  by_cases hji : i = j
  · exact hji ▸ hi (hji ▸ hj)
  · exact h.owned j hj (by simpa using hji)

/-- A creation is finished; its router may be set. -/
theorem Consistent.finish (c' : CreateSession) (h : Consistent s) (hc : s.creations[i]? = some c)
    (hphase : c.phase.inProgress = true)
    (hconnection : c'.connection = c.connection)
    (hcallbacks : c'.pendingCallbacks = c.pendingCallbacks) : Finished (s.finish i c') i := by
  have hopen := not_settled_of_inProgress hphase
  constructor
  · exact h.answered.finished hc rfl rfl hopen rfl
  · apply h.waits.set hc rfl
    · rw [waiting_of_inProgress hphase, ← hcallbacks]
      rfl
    · exact nofun
    · exact fun hq => absurd hq (ne_queued_of_inProgress hphase)
  · apply h.pending.erase hc rfl _ hphase rfl
    rw [← hconnection]
    rfl
  · refine h.tables.set hc rfl ?_ rfl rfl rfl ?_ ?_
    · intro connection hmem
      left
      exact ExtTreeMap.mem_of_mem_erase hmem
    · intro hsettled
      rw [hopen] at hsettled
      cases hsettled
    · exact nofun
  · exact (h.owned.weaken (some i)).set hc rfl (fun _ hj => .inl hj) (fun _ hj => hj)
      (fun _ hj => hj) fun _ hi => absurd rfl hi

/-- While a creation is in progress, its session is still to be given to a router, or is gone. -/
theorem Consistent.returned_inProgress (h : Consistent s) (hc : s.creations[i]? = some c)
    (hphase : c.phase.inProgress = true) (hi : i ∈ s.returned) :
    c.phase = .sessionCreated true ∨ i ∈ s.destroyedSessions := by
  rcases h.owned i hi nofun with hp | hd | ⟨⟨category, hr⟩, -⟩
  · rw [phase?_eq hc] at hp
    exact .inl (some.inj hp)
  · exact .inr hd
  · rw [router?_eq hc, h.tables.unrouted c (mem_of_getElem? hc)
      (not_settled_of_inProgress hphase)] at hr
    cases hr

/-- A creation is finished with an exception. -/
theorem Consistent.finishWith (h : Consistent s) (hc : s.creations[i]? = some c)
    (hphase : c.phase.inProgress = true)
    (hsession : c.phase = .sessionCreated true → i ∈ s.destroyedSessions) :
    Consistent (s.finish i c) := by
  apply (h.finish c hc hphase rfl rfl).consistent
  intro hi
  right
  left
  exact (h.returned_inProgress hc hphase hi).elim hsession id

/-- The books when a creation is about to be started -/
structure Starting (s : State) (i : Nat) : Prop where
  answered : s.Answered
  waits : s.Waits (some i)
  pending : s.Pending
  tables : s.Tables
  owned : s.Owned none

theorem setCreation_self (hc : s.creations[i]? = some c) : s.setCreation i c = s := by
  obtain ⟨hi, rfl⟩ := List.getElem?_eq_some_iff.mp hc
  rw [setCreation, List.set_getElem_self]

theorem waiting_addPendingCallback {p : List Nat} (hphase : c.phase.inProgress = true) :
    ({ c with pendingCallbacks := p } : CreateSession).waiting = p :=
  waiting_of_inProgress (c := { c with pendingCallbacks := p }) hphase

theorem Starting.queued (h : Starting s i) (hc : s.creations[i]? = some c)
    (hqueued : c.phase = .queued) {owner : Nat} (howner : s.pending[c.connection]? = some owner) :
    Consistent (s.addPendingCallback owner i) := by
  obtain ⟨d, hd, -, hphase⟩ := (h.pending c.connection owner).mp howner
  rw [addPendingCallback, hd]
  dsimp only
  constructor
  · exact h.answered.set hd rfl rfl rfl
  · constructor
    · intro j
      rw [waiting_set hd rfl, waiting_of_inProgress hphase, waiting_addPendingCallback hphase,
        List.count_append, h.waits.queued j]
      have hsame : (s.setCreation owner { d with
          pendingCallbacks := d.pendingCallbacks ++ [i] }).phase? j = s.phase? j := by
        by_cases hj : j = owner
        · subst hj
          rw [phase?_set_self hd rfl, phase?_eq hd]
        · exact phase?_set_ne rfl hj
      rw [hsame]
      by_cases hj : j = i
      · subst hj
        rw [phase?_eq hc, hqueued, List.count_singleton_self]
        simp
      · have hcount : [i].count j = 0 := List.count_eq_zero.mpr (by simpa using hj)
        rw [hcount]
        simp [Ne.symm hj]
    · intro e he hq
      rcases List.mem_or_eq_of_mem_set he with he | rfl
      · exact h.waits.alone e he hq
      · exact absurd hq (ne_queued_of_inProgress hphase)
  · exact h.pending.set hd rfl rfl rfl rfl
  · refine h.tables.set hd rfl (fun _ hmem => .inl hmem) rfl rfl rfl ?_ ?_
    · exact fun hsettled => ⟨hsettled, rfl, rfl⟩
    · exact fun hsettled => ⟨hsettled, rfl⟩
  · refine h.owned.set hd rfl (fun _ hj => .inl hj) (fun _ hj => hj) (fun _ hj => hj) ?_
    intro hi _
    by_cases hsession : d.phase = .sessionCreated true
    · exact .inl hsession
    · exact .inr ⟨hi, hsession, rfl⟩

theorem Starting.create (h : Starting s i) (hc : s.creations[i]? = some c)
    (hqueued : c.phase = .queued) : Consistent (s.create i c) := by
  have halone := h.waits.alone c (mem_of_getElem? hc) hqueued
  have hwaiting : c.waiting = [] := by
    rw [CreateSession.waiting, hqueued]
    exact halone
  have hnone : (if some i = some i then none else some i : Option Nat) = none := if_pos rfl
  have hself : { c with phase := Phase.queued } = c := by rw [← hqueued]
  rw [State.create]
  split
  · -- the request is answered with an exception
    constructor
    · exact h.answered.finished hc rfl rfl (by rw [hqueued]; rfl) rfl
    · rw [← hnone]
      refine h.waits.set hc rfl ?_ (by rintro ⟨⟩) fun _ => rfl
      exact hwaiting.symm
    · exact h.pending.set hc rfl rfl rfl (by rw [hqueued]; rfl)
    · refine h.tables.set hc rfl (fun _ hmem => .inl hmem) rfl rfl rfl ?_ ?_
      · intro hsettled
        rw [hqueued] at hsettled
        cases hsettled
      · rintro ⟨⟩
    · refine h.owned.set hc rfl (fun _ hj => .inl hj) (fun _ hj => hj) (fun _ hj => hj) ?_
      intro hi _
      exact .inr ⟨hi, by rw [hqueued]; rintro ⟨⟩, rfl⟩
  · rename_i owner hstart
    rw [hself, setCreation_self hc]
    apply h.queued hc hqueued
    rw [startCreateSession] at hstart
    split at hstart
    · cases hstart
    · split at hstart
      · cases hstart
      · split at hstart
        · rename_i hpending
          cases hstart
          exact hpending
        · cases hstart
  · rename_i hstart
    obtain ⟨hfree, hpending⟩ : c.connection ∉ s.routersByConnection.entries ∧
        s.pending[c.connection]? = none := by
      rw [startCreateSession] at hstart
      split at hstart
      · cases hstart
      · split at hstart
        · cases hstart
        · split at hstart
          · cases hstart
          · exact ⟨‹_›, ‹_›⟩
    constructor
    · exact h.answered.set hc rfl rfl (by rw [hqueued]; rfl)
    · rw [← hnone]
      refine h.waits.set hc rfl ?_ (by rintro ⟨⟩) fun _ => rfl
      rw [hwaiting]
      exact halone
    · exact h.pending.insert hc rfl rfl hpending rfl rfl
    · refine h.tables.set hc rfl ?_ rfl rfl rfl ?_ ?_
      · intro connection hmem
        rcases ExtTreeMap.mem_insertIfNew.mp hmem with heq | hmem
        · obtain rfl := LawfulEqCmp.compare_eq_iff_eq.mp heq
          exact .inr hfree
        · exact .inl hmem
      · intro hsettled
        rw [hqueued] at hsettled
        cases hsettled
      · exact fun _ => ⟨by rw [hqueued]; rfl, rfl⟩
    · refine h.owned.set hc rfl (fun _ hj => .inl hj) (fun _ hj => hj) (fun _ hj => hj) ?_
      intro hi _
      exact .inr ⟨hi, by rw [hqueued]; rintro ⟨⟩, rfl⟩

section

variable (h : Consistent s)

include h

/-- A new request starts a creation, or it is refused. -/
theorem Consistent.createSession (hphase : c.phase = .queued)
    (hcallbacks : c.pendingCallbacks = []) (hrouter : c.router = none) :
    Consistent ((s.addCreation c).create s.creations.length c) := by
  refine Starting.create ?_ List.getElem?_concat_length hphase
  constructor
  · refine h.answered.append rfl ?_
    rw [hphase]
    exact (List.append_nil _).symm
  · refine h.waits.append rfl ?_ hcallbacks
    rw [CreateSession.waiting, hphase]
    exact hcallbacks
  · exact h.pending.append rfl rfl (by rw [hphase]; rfl)
  · exact h.tables.append rfl rfl rfl rfl rfl hrouter
  · exact h.owned.append rfl rfl rfl fun _ hj => hj

theorem Consistent.refused (hphase : c.phase = .ended)
    (hcallbacks : c.pendingCallbacks = []) (hrouter : c.router = none) :
    Consistent ((s.addCreation c).finished s.creations.length) := by
  have happend : ((s.addCreation c).finished s.creations.length).creations =
      s.creations ++ [c] := rfl
  constructor
  · refine h.answered.append rfl ?_
    rw [hphase]
    rfl
  · have hwaits := h.waits.append happend (by rw [CreateSession.waiting, hphase]) hcallbacks
    constructor
    · intro j
      rw [hwaits.queued j]
      by_cases hj : j = s.creations.length
      · subst hj
        rw [phase?_length happend, hphase]
        simp
      · simp [Ne.symm hj]
    · exact hwaits.alone
  · exact h.pending.append rfl rfl (by rw [hphase]; rfl)
  · exact h.tables.append rfl rfl rfl rfl rfl hrouter
  · exact h.owned.append rfl rfl rfl fun _ hj => hj

/-- What is left to start again: the creation ends, or one that waited is taken out. -/
theorem Consistent.restarted (hc : s.creations[i]? = some c)
    (hphase : c.phase = .restarting []) :
    Consistent (s.setCreation i { c with phase := .ended }) := by
  constructor
  · exact h.answered.set hc rfl rfl (by rw [hphase]; rfl)
  · refine h.waits.set hc rfl ?_ (by rintro ⟨⟩) ?_
    · rw [CreateSession.waiting, CreateSession.waiting, hphase]
    · rw [hphase]
      rintro ⟨⟩
  · exact h.pending.set hc rfl rfl rfl (by rw [hphase]; rfl)
  · refine h.tables.set hc rfl (fun _ hmem => .inl hmem) rfl rfl rfl ?_ (by rintro ⟨⟩)
    exact fun _ => ⟨rfl, rfl, rfl⟩
  · refine h.owned.set hc rfl (fun _ hj => .inl hj) (fun _ hj => hj) (fun _ hj => hj) ?_
    exact fun hi _ => .inr ⟨hi, by rw [hphase]; rintro ⟨⟩, rfl⟩

theorem Consistent.take {callbacks : List Nat}
    (hc : s.creations[i]? = some c) (hphase : c.phase = .restarting (j :: callbacks)) :
    Starting (s.setCreation i { c with phase := .restarting callbacks }) j ∧
      ∃ d, (s.setCreation i { c with phase := .restarting callbacks }).creations[j]? = some d ∧
        d.phase = .queued := by
  have hwaiting : c.waiting = j :: callbacks := by rw [CreateSession.waiting, hphase]
  have hne : c.phase ≠ .queued := by
    rw [hphase]
    rintro ⟨⟩
  have hqueued : s.phase? j = some .queued := by
    by_contra hnot
    have hzero : s.waiting j = 0 := by
      rw [h.waits.queued j, if_neg fun hq => hnot hq.1]
    have hle : (c.waiting.count j : Int) ≤ s.waiting j :=
      le_sum_map _ (fun _ _ => Int.natCast_nonneg _) (mem_of_getElem? hc)
    rw [hwaiting, List.count_cons_self] at hle
    omega
  have hji : j ≠ i := by
    rintro rfl
    rw [phase?_eq hc] at hqueued
    exact hne (some.inj hqueued)
  have hset : (s.setCreation i { c with phase := .restarting callbacks }).creations =
      s.creations.set i { c with phase := .restarting callbacks } := rfl
  constructor
  · constructor
    · exact h.answered.set hc rfl rfl (by rw [hphase]; rfl)
    · constructor
      · intro k
        have hself : ({ c with phase := .restarting callbacks } : CreateSession).waiting =
            callbacks := rfl
        rw [waiting_set hc rfl, hwaiting, hself, h.waits.queued k, List.count_cons]
        by_cases hk : k = i
        · subst hk
          rw [phase?_set_self hc hset, phase?_eq hc]
          simp [hne, hji]
        · rw [phase?_set_ne hset hk]
          by_cases hkj : k = j
          · subst hkj
            rw [hqueued]
            simp
          · simp [Ne.symm hkj]
      · intro d hd hq
        rcases List.mem_or_eq_of_mem_set hd with hd | rfl
        · exact h.waits.alone d hd hq
        · cases hq
    · exact h.pending.set hc rfl rfl rfl (by rw [hphase]; rfl)
    · refine h.tables.set hc rfl (fun _ hmem => .inl hmem) rfl rfl rfl ?_ (by rintro ⟨⟩)
      exact fun _ => ⟨rfl, rfl, rfl⟩
    · refine h.owned.set hc rfl (fun _ hj => .inl hj) (fun _ hj => hj) (fun _ hj => hj) ?_
      exact fun hi _ => .inr ⟨hi, by rw [hphase]; rintro ⟨⟩, rfl⟩
  · obtain ⟨d, hd, hdphase⟩ := Option.map_eq_some_iff.mp hqueued
    exact ⟨d, by rw [getElem?_set_ne hset hji, hd], hdphase⟩

end

/-- The creations, the books of the requests and those of the sessions stay, but for who has
them. -/
structure Alike (s t : State) : Prop where
  creations : t.creations = s.creations
  pending : t.pending = s.pending
  answers : t.answers = s.answers
  returned : t.returned = s.returned

theorem Alike.router? (h : Alike s t) : t.router? i = s.router? i := by
  rw [State.router?, State.router?, h.creations]

theorem Alike.phase? (h : Alike s t) : t.phase? i = s.phase? i := by
  rw [State.phase?, State.phase?, h.creations]

theorem Alike.trans {u : State} (h : Alike s t) (h' : Alike t u) : Alike s u :=
  ⟨h'.creations.trans h.creations, h'.pending.trans h.pending, h'.answers.trans h.answers,
    h'.returned.trans h.returned⟩

theorem Consistent.alike (h : Consistent s) (ha : Alike s t) (htables : t.Tables)
    (hheld : ∀ i category, s.router? i = some ⟨category, true⟩ → s.Held i →
      i ∈ t.destroyedSessions ∨ t.Held i)
    (hdestroyed : ∀ i ∈ s.destroyedSessions, i ∈ t.destroyedSessions) : Consistent t := by
  refine ⟨⟨?_, ?_⟩, ⟨?_, ?_⟩, ?_, htables, ?_⟩
  · rw [ha.answers, ha.creations]
    exact h.answered.known
  · rw [ha.answers, ha.creations]
    exact h.answered.once
  · intro j
    rw [ha.phase?, ← h.waits.queued j, State.waiting, ha.creations]
    rfl
  · rw [ha.creations]
    exact h.waits.alone
  · intro connection j
    rw [ha.pending, ha.creations]
    exact h.pending connection j
  · intro j hj hk
    rw [ha.returned] at hj
    rw [ha.phase?, ha.router?]
    rcases h.owned j hj hk with hp | hd | ⟨⟨category, hr⟩, hh⟩
    · exact .inl hp
    · exact .inr (.inl (hdestroyed j hd))
    · rcases hheld j category hr hh with hd | hh
      · exact .inr (.inl hd)
      · exact .inr (.inr ⟨⟨category, hr⟩, hh⟩)

/-- The tables stay as they are, but for the iterators. -/
theorem State.Tables.alike (h : s.Tables) (ha : Alike s t) (hinst : t.inst = s.inst)
    (hconnection : t.routersByConnection.entries = s.routersByConnection.entries)
    (hcategory : t.routersByCategory.entries = s.routersByCategory.entries)
    (hvalid : t.routersByConnection.Valid) (hvalid' : t.routersByCategory.Valid) : t.Tables := by
  refine ⟨?_, ?_, ?_, hvalid, hvalid'⟩
  · intro connection j hj
    rw [ha.pending, ha.creations]
    exact h.single connection j (hconnection ▸ hj)
  · rw [ha.creations]
    exact h.unrouted
  · intro category j
    rw [hcategory, hconnection, hinst, ha.router?]
    exact h.same category j

theorem Consistent.getRouter (h : Consistent s) (connection : Nat) :
    Consistent { s with routersByConnection := s.routersByConnection.lookup connection } := by
  have ha : Alike s { s with routersByConnection := s.routersByConnection.lookup connection } :=
    ⟨rfl, rfl, rfl, rfl⟩
  apply h.alike ha
  · exact h.tables.alike ha rfl entries_lookup rfl h.tables.byConnection.lookup
      h.tables.byCategory
  · intro i _ _ hh
    right
    refine hh.imp ?_ id
    rintro ⟨connection', hi⟩
    refine ⟨connection', ?_⟩
    rw [entries_lookup]
    exact hi
  · exact fun _ hi => hi

theorem Consistent.getServerBlobject (h : Consistent s) (category : String) :
    Consistent { s with routersByCategory := s.routersByCategory.lookup category } := by
  have ha : Alike s { s with routersByCategory := s.routersByCategory.lookup category } :=
    ⟨rfl, rfl, rfl, rfl⟩
  apply h.alike ha
  · exact h.tables.alike ha rfl rfl entries_lookup h.tables.byConnection
      h.tables.byCategory.lookup
  · exact fun _ _ _ hh => .inr hh
  · exact fun _ hi => hi

/-- A router has one connection. -/
theorem State.Tables.eq_of_getElem? (h : s.Tables) {connection connection' : Nat}
    (hi : s.routersByConnection.entries[connection]? = some i)
    (hi' : s.routersByConnection.entries[connection']? = some i) : connection' = connection := by
  obtain ⟨-, c, hc, hconnection, -⟩ := h.single connection i hi
  obtain ⟨-, c', hc', hconnection', -⟩ := h.single connection' i hi'
  cases hc.symm.trans hc'
  exact hconnection'.symm.trans hconnection

theorem Alike.removeRouter {connection : Nat} : Alike s (s.removeRouter connection i) :=
  ⟨rfl, rfl, rfl, rfl⟩

theorem State.Tables.removeRouter (h : s.Tables) {connection : Nat}
    (hi : s.routersByConnection.entries[connection]? = some i) :
    (s.removeRouter connection i).Tables := by
  obtain ⟨-, c, hc, -, -, hrouter⟩ := h.single connection i hi
  obtain ⟨router, hrouter⟩ := isSome_iff_exists.mp hrouter
  have hrouter? : s.router? i = some router := (router?_eq hc).trans hrouter
  have hconnection : ∀ (connection' j : Nat),
      (s.removeRouter connection i).routersByConnection.entries[connection']? = some j ↔
        connection' ≠ connection ∧ s.routersByConnection.entries[connection']? = some j :=
    fun _ _ => getElem?_erase
  have hother : ∀ j, (∃ connection' : Nat,
      (s.removeRouter connection i).routersByConnection.entries[connection']? = some j) ↔
        j ≠ i ∧ ∃ connection' : Nat, s.routersByConnection.entries[connection']? = some j := by
    intro j
    constructor
    · rintro ⟨connection', hj⟩
      obtain ⟨hne, hj'⟩ := (hconnection connection' j).mp hj
      refine ⟨?_, connection', hj'⟩
      rintro rfl
      exact hne (h.eq_of_getElem? hi hj')
    · rintro ⟨hne, connection', hj⟩
      refine ⟨connection', (hconnection connection' j).mpr ⟨?_, hj⟩⟩
      rintro rfl
      exact hne (some.inj (hj.symm.trans hi))
  constructor
  · intro connection' j hj
    exact h.single connection' j ((hconnection connection' j).mp hj).2
  · exact h.unrouted
  · intro category j
    rw [hother]
    change (if s.inst.serverObjectAdapter then _ else s.routersByCategory).entries[category]? =
      some j ↔ s.inst.serverObjectAdapter = true ∧ _ ∧ ∃ r, s.router? j = some r ∧ _
    split
    · rename_i hadapter
      rw [hrouter?]
      change (s.routersByCategory.entries.erase router.category)[category]? = some j ↔ _
      rw [getElem?_erase, h.same category j]
      constructor
      · rintro ⟨hne, -, hj, r, hr, rfl⟩
        refine ⟨hadapter, ⟨?_, hj⟩, r, hr, rfl⟩
        rintro rfl
        cases hrouter?.symm.trans hr
        exact hne rfl
      · rintro ⟨-, ⟨hne, hj⟩, r, hr, rfl⟩
        refine ⟨?_, hadapter, hj, r, hr, rfl⟩
        intro heq
        have hi' := (h.same r.category i).mpr
          ⟨hadapter, ⟨connection, hi⟩, router, hrouter?, heq.symm⟩
        have hj' := (h.same r.category j).mpr ⟨hadapter, hj, r, hr, rfl⟩
        exact hne (some.inj (hj'.symm.trans hi'))
    · rename_i hadapter
      rw [h.same category j]
      simp [hadapter]
  · exact HintedMap.valid_eraseNext
  · change (if s.inst.serverObjectAdapter then _ else s.routersByCategory).Valid
    rw [hrouter?]
    split
    · exact HintedMap.valid_eraseEnd
    · exact h.byCategory

/-- Threads that destroy routers are added. -/
theorem State.Tables.setDestructions (h : s.Tables) (destructions : List Destruction) :
    ({ s with destructions } : State).Tables :=
  ⟨h.single, h.unrouted, h.same, h.byConnection, h.byCategory⟩

theorem Consistent.destroySession (h : Consistent s) (connection : Nat) :
    Consistent (s.destroySession connection) := by
  rw [State.destroySession]
  split
  · exact h
  · split
    · exact h
    · rename_i i hi
      refine h.alike ⟨rfl, rfl, rfl, rfl⟩ ((h.tables.removeRouter hi).setDestructions _) ?_ ?_
      · intro j _ _ hh
        right
        rcases hh with ⟨connection', hj⟩ | ⟨d, hd, hj⟩
        · by_cases hji : j = i
          · subst hji
            exact .inr ⟨_, mem_append_right _ (mem_singleton_self _),
              mem_singleton_self _⟩
          · refine .inl ⟨connection', getElem?_erase.mpr ⟨?_, hj⟩⟩
            rintro rfl
            exact hji (some.inj (hj.symm.trans hi))
        · exact .inr ⟨d, mem_append_left _ hd, hj⟩
      · exact fun _ hj => hj

/-- The loop takes routers out of the table and loses none. -/
theorem expire_spec (expired : Nat → Bool) {l : List (Nat × Nat)} (h : s.Tables)
    (hl : ∀ p ∈ l, s.routersByConnection.entries[p.1]? = some p.2)
    (hkeys : l.Pairwise fun p q => p.1 ≠ q.1) :
    (expire expired l s).1.Tables ∧ Alike s (expire expired l s).1 ∧
      (expire expired l s).1.destructions = s.destructions ∧
      (expire expired l s).1.destroyedSessions = s.destroyedSessions ∧
      ∀ (connection i : Nat), s.routersByConnection.entries[connection]? = some i →
        i ∈ (expire expired l s).2 ∨
          (expire expired l s).1.routersByConnection.entries[connection]? = some i := by
  induction l generalizing s with
  | nil => exact ⟨h, ⟨rfl, rfl, rfl, rfl⟩, rfl, rfl, fun _ _ hi => .inr hi⟩
  | cons p rest ih =>
    obtain ⟨connection, i⟩ := p
    obtain ⟨hne, hkeys⟩ := List.pairwise_cons.mp hkeys
    rw [List.forall_mem_cons] at hl
    rw [expire]
    split
    · have hrest : ∀ q ∈ rest,
          (s.removeRouter connection i).routersByConnection.entries[q.1]? = some q.2 :=
        fun q hq => getElem?_erase.mpr ⟨Ne.symm (hne q hq), hl.2 q hq⟩
      obtain ⟨htables, halike, hdestructions, hdestroyed, hkept⟩ :=
        ih (h.removeRouter hl.1) hrest hkeys
      refine ⟨htables, Alike.removeRouter.trans halike, hdestructions, hdestroyed, ?_⟩
      intro connection' j hj
      by_cases hji : connection' = connection
      · subst hji
        cases hl.1.symm.trans hj
        exact .inl List.mem_cons_self
      · exact (hkept connection' j (getElem?_erase.mpr ⟨hji, hj⟩)).imp
          (List.mem_cons_of_mem _) id
    · exact ih h hl.2 hkeys

theorem Consistent.expireSessions (h : Consistent s) (expired : Nat → Bool) :
    Consistent (s.expireSessions expired) := by
  rw [State.expireSessions]
  split
  · exact h
  · have hl : ∀ p ∈ s.routersByConnection.entries.toList,
        s.routersByConnection.entries[p.1]? = some p.2 :=
      fun p hp => ExtTreeMap.mem_toList_iff_getElem?_eq_some.mp hp
    have hkeys : s.routersByConnection.entries.toList.Pairwise fun p q => p.1 ≠ q.1 := by
      refine ExtTreeMap.distinct_keys_toList.imp ?_
      intro p q hpq heq
      exact hpq (by rw [heq]; exact ReflCmp.compare_self)
    obtain ⟨htables, halike, hdestructions, hdestroyed, hkept⟩ :=
      expire_spec expired h.tables hl hkeys
    refine h.alike ⟨halike.creations, halike.pending, halike.answers, halike.returned⟩
      (htables.setDestructions _) ?_ fun i hi => hdestroyed ▸ hi
    intro i _ _ hh
    right
    rcases hh with ⟨connection, hi⟩ | ⟨d, hd, hi⟩
    · rcases hkept connection i hi with hi | hi
      · exact .inr ⟨_, mem_append_right _ (mem_singleton_self _), hi⟩
      · exact .inl ⟨connection, hi⟩
    · exact .inr ⟨d, mem_append_left _ (hdestructions ▸ hd), hi⟩

theorem Consistent.destroy (h : Consistent s) : Consistent s.destroy := by
  refine h.alike ⟨rfl, rfl, rfl, rfl⟩ ?_ ?_ ?_
  · refine ⟨?_, h.tables.unrouted, ?_, valid_empty, valid_empty⟩
    · intro connection i hi
      simp [State.destroy] at hi
    · intro category i
      simp [State.destroy]
  · intro i _ _ hh
    right
    right
    rcases hh with ⟨connection, hi⟩ | ⟨d, hd, hi⟩
    · refine ⟨_, mem_append_right _ (mem_singleton_self _), ?_⟩
      exact mem_map.mpr
        ⟨(connection, i), ExtTreeMap.mem_toList_iff_getElem?_eq_some.mpr hi, rfl⟩
    · exact ⟨d, mem_append_left _ hd, hi⟩
  · exact fun _ hi => hi

/-- The session is sent `destroy`, if there is one. -/
theorem destroyRouter_spec {destroyCallback throws : Bool}
    (hsend : (s.router? i).any (·.session) = true → throws = false ∧ destroyCallback = true) :
    ∃ sessions, s.destroyRouter i destroyCallback throws =
        ({ s with destroyedSessions := sessions }, false) ∧
      (∀ j ∈ s.destroyedSessions, j ∈ sessions) ∧
      ∀ category, s.router? i = some ⟨category, true⟩ → i ∈ sessions := by
  rw [State.destroyRouter]
  split
  · rename_i category hrouter
    obtain ⟨hthrows, hcallback⟩ := hsend (by rw [hrouter]; rfl)
    rw [hthrows, hcallback, if_neg (by decide)]
    refine ⟨_, rfl, fun j hj => mem_append_left _ hj, fun _ _ => ?_⟩
    exact mem_append_right _ (mem_singleton_self _)
  · rename_i hnone
    refine ⟨s.destroyedSessions, rfl, fun _ hj => hj, ?_⟩
    intro category hrouter
    exact absurd hrouter (hnone category)

theorem Consistent.destroyRouter {k : Nat} {d : Destruction} {routers sessions : List Nat}
    (h : Consistent s) (hk : s.destructions[k]? = some d) (hd : d.routers = i :: routers)
    (hkept : ∀ j ∈ s.destroyedSessions, j ∈ sessions)
    (hsent : ∀ category, s.router? i = some ⟨category, true⟩ → i ∈ sessions) :
    Consistent { s with
      destroyedSessions := sessions
      destructions := s.destructions.set k { d with routers } } := by
  refine h.alike ⟨rfl, rfl, rfl, rfl⟩ ?_ ?_ hkept
  · exact ⟨h.tables.single, h.tables.unrouted, h.tables.same, h.tables.byConnection,
      h.tables.byCategory⟩
  · intro j category hrouter hh
    rcases hh with hj | ⟨e, he, hj⟩
    · exact .inr (.inl hj)
    · by_cases hji : j = i
      · subst hji
        exact .inl (hsent category hrouter)
      · right
        right
        obtain ⟨k', hk'⟩ := List.getElem?_of_mem he
        by_cases hkk : k' = k
        · subst hkk
          cases hk.symm.trans hk'
          rw [hd] at hj
          refine ⟨{ d with routers }, ?_, (List.mem_cons.mp hj).resolve_left hji⟩
          exact List.mem_set (List.getElem?_eq_some_iff.mp hk).1 _
        · refine ⟨e, ?_, hj⟩
          apply mem_of_getElem? (i := k')
          rw [List.getElem?_set_ne (Ne.symm hkk), hk']

theorem State.Tables.insertRouter (h : s.Tables) {router : RouterI}
    (hc : s.creations[i]? = some c) (hsettled : c.phase.settled = true)
    (hrouter : c.router = some router) (hpending : c.connection ∉ s.pending)
    (hfree : c.connection ∉ s.routersByConnection.entries)
    (hcategory : s.inst.serverObjectAdapter = true →
      router.category ∉ s.routersByCategory.entries) :
    (s.insertRouter i c.connection router.category).Tables := by
  have hrouter? : s.router? i = some router := (router?_eq hc).trans hrouter
  have hconnection : ∀ (connection j : Nat),
      (s.insertRouter i c.connection router.category).routersByConnection.entries[connection]? =
        some j ↔ connection = c.connection ∧ j = i ∨
          s.routersByConnection.entries[connection]? = some j :=
    fun _ _ => getElem?_insert hfree
  constructor
  · intro connection j hj
    rcases (hconnection connection j).mp hj with ⟨rfl, rfl⟩ | hj
    · exact ⟨hpending, c, hc, rfl, hsettled, by rw [hrouter]; rfl⟩
    · exact h.single connection j hj
  · exact h.unrouted
  · intro category j
    change (if s.inst.serverObjectAdapter then _ else s.routersByCategory).entries[category]? =
      some j ↔ s.inst.serverObjectAdapter = true ∧ _ ∧ ∃ r, s.router? j = some r ∧ _
    simp only [hconnection]
    split
    · rename_i hadapter
      rw [getElem?_insert (hcategory hadapter), h.same category j]
      constructor
      · rintro (⟨rfl, rfl⟩ | ⟨-, ⟨connection, hj⟩, hr⟩)
        · exact ⟨hadapter, ⟨c.connection, .inl ⟨rfl, rfl⟩⟩, router, hrouter?, rfl⟩
        · exact ⟨hadapter, ⟨connection, .inr hj⟩, hr⟩
      · rintro ⟨-, ⟨connection, ⟨rfl, rfl⟩ | hj⟩, r, hr, rfl⟩
        · cases hrouter?.symm.trans hr
          exact .inl ⟨rfl, rfl⟩
        · exact .inr ⟨hadapter, ⟨connection, hj⟩, r, hr, rfl⟩
    · rename_i hadapter
      rw [h.same category j]
      simp [hadapter]
  · exact valid_insert
  · change (if s.inst.serverObjectAdapter then _ else s.routersByCategory).Valid
    split
    · exact valid_insert
    · exact h.byCategory

/-- A router is put into the table for the creation that it comes from. -/
theorem Finished.insertRouter (h : Finished s i) {category : String}
    (htables : (s.insertRouter i c.connection category).Tables)
    (hi : i ∈ s.returned → i ∈ s.destroyedSessions ∨ s.router? i = some ⟨category, true⟩)
    (hentry : c.connection ∉ s.routersByConnection.entries) :
    Consistent (s.insertRouter i c.connection category) := by
  have hself : (s.insertRouter i c.connection category).routersByConnection.entries[c.connection]? =
      some i := (getElem?_insert hentry).mpr (.inl ⟨rfl, rfl⟩)
  apply Finished.consistent (i := i)
  · refine ⟨⟨h.answered.known, h.answered.once⟩, ⟨h.waits.queued, h.waits.alone⟩, h.pending,
      htables, ?_⟩
    intro j hj hk
    rcases h.owned j hj hk with hp | hd | ⟨hr, hh⟩
    · exact .inl hp
    · exact .inr (.inl hd)
    · refine .inr (.inr ⟨hr, hh.imp ?_ id⟩)
      rintro ⟨connection, hj⟩
      exact ⟨connection, (getElem?_insert hentry).mpr (.inr hj)⟩
  · intro hr
    rcases hi hr with hd | hrouter
    · exact .inr (.inl hd)
    · exact .inr (.inr ⟨⟨category, hrouter⟩, .inl ⟨c.connection, hself⟩⟩)

section

variable (h : Consistent s)

include h

section

variable (hc : s.creations[i]? = some c)

include hc

/-- The reply of the session manager is turned into a router, or the session is given up. -/
theorem Consistent.sessionCreated {session throws : Bool} {category : Option String}
    (hphase : c.phase = .sessionCreated session)
    (ha : Careful s (.sessionCreated i category throws)) :
    Consistent (s.sessionCreated i c session category throws) := by
  have hprogress : c.phase.inProgress = true := by
    rw [hphase]
    rfl
  have hgone : session = false → i ∈ s.returned → i ∈ s.destroyedSessions := by
    rintro rfl hi
    apply (h.returned_inProgress hc hprogress hi).resolve_left
    rw [hphase]
    exact nofun
  cases category with
  | none =>
    rw [State.sessionCreated]
    cases session with
    | false =>
      apply h.finishWith hc hprogress
      rw [hphase]
      exact nofun
    | true =>
      have hthrows : throws = false := ha (by rw [phase?_eq hc, hphase])
      rw [hthrows, if_pos rfl, if_neg Bool.false_ne_true]
      have hsent : Consistent { s with destroyedSessions := s.destroyedSessions ++ [i] } := by
        refine h.alike ⟨rfl, rfl, rfl, rfl⟩ (h.tables.alike ⟨rfl, rfl, rfl, rfl⟩ rfl rfl rfl
          h.tables.byConnection h.tables.byCategory) (fun _ _ _ hh => .inr hh) ?_
        exact fun j hj => mem_append_left _ hj
      refine hsent.finishWith hc hprogress fun _ => ?_
      exact mem_append_right _ (mem_singleton_self _)
  | some category =>
    have hfinished := h.finish { c with router := some ⟨category, session⟩ } hc hprogress rfl
      rfl
    have hset := getElem?_set_self (t := s.finish i { c with router := some ⟨category, session⟩ })
      hc rfl
    have hrouter := router?_eq hset
    have hsame : (s.finish i { c with router := some ⟨category, session⟩ }).destroyed =
        s.destroyed := rfl
    have hpending : s.pending[c.connection]? = some i :=
      (h.pending c.connection i).mpr ⟨c, hc, rfl, hprogress⟩
    have hfree : c.connection ∉ s.routersByConnection.entries := by
      intro hmem
      obtain ⟨j, hj⟩ := isSome_iff_exists.mp
        (ExtTreeMap.mem_iff_isSome_getElem?.mp hmem)
      apply (h.tables.single c.connection j hj).1
      rw [ExtTreeMap.mem_iff_isSome_getElem?, hpending]
      rfl
    rw [State.sessionCreated]
    dsimp only
    rw [State.finishCreateSession, hsame]
    by_cases hdestroyed : s.destroyed = true
    · have hfalse : session = false := by
        have hne : s.phase? i ≠ some (.sessionCreated true) :=
          (if_pos hdestroyed : (if s.destroyed then _ else _ : Prop) = _).mp ha
        rw [phase?_eq hc, hphase] at hne
        cases session with
        | false => rfl
        | true => exact absurd rfl hne
      subst hfalse
      rw [if_pos hdestroyed, State.destroyRouter, hrouter]
      exact hfinished.consistent fun hi => .inr (.inl (hgone rfl hi))
    · have hcategory : s.inst.serverObjectAdapter = true →
          category ∉ s.routersByCategory.entries :=
        (if_neg hdestroyed : (if s.destroyed then _ else _ : Prop) = _).mp ha
      have herased : c.connection ∉
          (s.finish i { c with router := some ⟨category, session⟩ }).pending := by
        intro hmem
        exact (ExtTreeMap.mem_erase.mp hmem).1 ReflCmp.compare_self
      rw [if_neg hdestroyed]
      refine hfinished.insertRouter (hfinished.tables.insertRouter hset rfl rfl herased hfree
        hcategory) ?_ hfree
      intro hi
      cases session with
      | false => exact .inl (hgone rfl hi)
      | true => exact .inr hrouter

theorem Consistent.authorize {throws : Bool}
    (hphase : c.phase = .authorize) (hthrows : throws = false)
    (ht : (if throws then some ((s.setCreation i { c with phase := .ended }).finished i)
      else some (s.setCreation i { c with phase := .verifying })) = some t) : Consistent t := by
  rw [hthrows, if_neg Bool.false_ne_true] at ht
  cases ht
  apply h.advance hc (by rw [hphase]; rfl) (by rw [hphase]; exact nofun) rfl
  exact fun j hj => .inl hj

theorem Consistent.authorized {throws : Bool}
    (hphase : c.phase = .verifying) (hthrows : throws = false) :
    Consistent (s.authorized i c throws) := by
  rw [State.authorized, hthrows, if_neg Bool.false_ne_true]
  have hadvance : ∀ p : Phase, p.inProgress = true →
      Consistent (s.setCreation i { c with phase := p }) := by
    intro p hp
    exact h.advance hc (by rw [hphase]; rfl) (by rw [hphase]; exact nofun) hp
      fun j hj => .inl hj
  cases (if c.ssl then s.inst.sslSessionManager else s.inst.sessionManager) with
  | true => exact hadvance .creating rfl
  | false => exact hadvance (.sessionCreated false) rfl

theorem Consistent.managed {session : Bool}
    (hphase : c.phase = .creating) :
    Consistent { s.setCreation i { c with phase := .sessionCreated session } with
      returned := if session then s.returned ++ [i] else s.returned } := by
  apply h.advance hc (by rw [hphase]; rfl) (by rw [hphase]; exact nofun) rfl
  intro j hj
  cases session with
  | false => exact .inl hj
  | true =>
    rw [if_pos rfl, List.mem_append, List.mem_singleton] at hj
    exact hj.imp id fun hj => ⟨hj, rfl⟩

end

theorem Consistent.step {a : Action} (ha : Careful s a)
    (ht : step s a = some t) : Consistent t := by
  cases a with
  | createSession connection ssl refused =>
    rw [Sessions.step] at ht
    dsimp only at ht
    split at ht
    · cases ht
      exact h.refused rfl rfl rfl
    · cases ht
      exact h.createSession rfl rfl rfl
  | authorize i throws =>
    obtain ⟨c, hc, ht⟩ := bind_eq_some_iff.mp ht
    split at ht
    · exact h.authorize hc ‹_› ha ht
    · cases ht
  | verified i ok throws =>
    obtain ⟨c, hc, ht⟩ := bind_eq_some_iff.mp ht
    split at ht
    · rename_i hphase
      split at ht
      · rename_i hok
        cases ht
        exact h.authorized hc hphase (ha hok)
      · cases ht
        exact h.finishWith hc (by rw [hphase]; rfl) (by rw [hphase]; exact nofun)
    · cases ht
  | managed i session =>
    obtain ⟨c, hc, ht⟩ := bind_eq_some_iff.mp ht
    split at ht
    · rename_i hphase
      cases session with
      | none =>
        cases ht
        exact h.finishWith hc (by rw [hphase]; rfl) (by rw [hphase]; exact nofun)
      | some session =>
        cases ht
        exact h.managed hc hphase
    · cases ht
  | sessionCreated i category throws =>
    obtain ⟨c, hc, ht⟩ := bind_eq_some_iff.mp ht
    split at ht
    · cases ht
      exact h.sessionCreated hc ‹_› ha
    · cases ht
  | restart i =>
    obtain ⟨c, hc, ht⟩ := bind_eq_some_iff.mp ht
    split at ht
    · cases ht
      exact h.restarted hc ‹_›
    · rename_i j callbacks hphase
      obtain ⟨hstarting, d, hd, hqueued⟩ := h.take hc hphase
      obtain ⟨d', hd', ht⟩ := bind_eq_some_iff.mp ht
      cases ht
      cases hd.symm.trans hd'
      exact hstarting.create hd hqueued
    · cases ht
  | getRouter connection =>
    rw [Sessions.step] at ht
    split at ht
    · cases ht
      exact h
    · cases ht
      exact h.getRouter connection
  | getServerBlobject category =>
    rw [Sessions.step] at ht
    split at ht
    · cases ht
      exact h
    · cases ht
      exact h.getServerBlobject category
  | destroySession connection =>
    cases ht
    exact h.destroySession connection
  | expireSessions expired =>
    cases ht
    exact h.expireSessions expired
  | destroy =>
    rw [Sessions.step] at ht
    split at ht
    · cases ht
    · cases ht
      exact h.destroy
  | destroyRouter k throws =>
    obtain ⟨d, hk, ht⟩ := bind_eq_some_iff.mp ht
    split at ht
    · cases ht
    · rename_i i routers hd
      have hsend := ha d hk i (by rw [hd]; rfl)
      obtain ⟨sessions, hspec, hkept, hsent⟩ := destroyRouter_spec hsend
      rw [hspec] at ht
      cases ht
      exact h.destroyRouter hk hd hkept hsent

end

theorem Consistent.initial (inst : Instance) : Consistent (State.initial inst) := by
  refine ⟨⟨nofun, nofun⟩, ⟨?_, nofun⟩, ?_, ⟨?_, nofun, ?_, valid_empty,
    valid_empty⟩, nofun⟩
  · intro j
    rw [if_neg]
    · rfl
    · rintro ⟨hq, -⟩
      cases hq
  · intro connection i
    simp [State.initial]
  · intro connection i hi
    simp [State.initial] at hi
  · intro category i
    simp [State.initial]

/-- A creation that is queued is in the list of one that is in progress or restarts it. -/
theorem Consistent.queued (h : Consistent s) (hc : s.creations[i]? = some c)
    (hqueued : c.phase = .queued) : s.Queued i := by
  have hone : s.waiting i = 1 := by
    rw [h.waits.queued i, phase?_eq hc, hqueued]
    simp
  obtain ⟨d, hd, hi⟩ : ∃ d ∈ s.creations, i ∈ d.waiting := by
    by_contra hnone
    push Not at hnone
    have hzero : s.waiting i = 0 := by
      apply List.sum_eq_zero
      intro x hx
      obtain ⟨d, hd, rfl⟩ := mem_map.mp hx
      rw [List.count_eq_zero.mpr (hnone d hd)]
      rfl
    omega
  obtain ⟨j, hj⟩ := List.getElem?_of_mem hd
  refine ⟨c, hc, hqueued, j, d, hj, ?_⟩
  cases hphase : d.phase with
  | restarting callbacks =>
    rw [CreateSession.waiting, hphase] at hi
    exact .inr ⟨callbacks, rfl, hi⟩
  | ended =>
    rw [CreateSession.waiting, hphase] at hi
    cases hi
  | queued =>
    rw [CreateSession.waiting, hphase] at hi
    rw [h.waits.alone d hd hphase] at hi
    cases hi
  | authorize | verifying | creating | sessionCreated session =>
    rw [CreateSession.waiting, hphase] at hi
    exact .inl ⟨rfl, hi⟩

theorem Consistent.kept (h : Consistent s) : Kept s := by
  constructor
  · intro i hi
    have hc : s.creations[i]? = some s.creations[i] := List.getElem?_eq_getElem hi
    have honce := h.answered.once i _ hc
    constructor
    · rw [honce]
      split <;> decide
    · intro hzero
      have hopen : s.creations[i].phase.settled = false := by
        by_contra hsettled
        rw [if_pos (by simpa using hsettled)] at honce
        omega
      by_cases hqueued : s.creations[i].phase = .queued
      · exact .inr (h.queued hc hqueued)
      · refine .inl ⟨_, hc, ?_⟩
        cases hphase : s.creations[i].phase with
        | queued => exact absurd hphase hqueued
        | restarting callbacks | ended =>
          rw [hphase] at hopen
          cases hopen
        | authorize => rfl
        | verifying => rfl
        | creating => rfl
        | sessionCreated session => rfl
  · intro connection i hi
    obtain ⟨hfree, c, hc, hconnection, -⟩ := h.tables.single connection i hi
    exact ⟨hfree, c, hc, hconnection⟩
  · intro hadapter i
    constructor
    · rintro ⟨connection, hi⟩
      obtain ⟨-, c, hc, -, -, hrouter⟩ := h.tables.single connection i hi
      obtain ⟨router, hrouter⟩ := isSome_iff_exists.mp hrouter
      exact ⟨router.category, (h.tables.same _ i).mpr
        ⟨hadapter, ⟨connection, hi⟩, router, (router?_eq hc).trans hrouter, rfl⟩⟩
    · rintro ⟨category, hi⟩
      exact ((h.tables.same category i).mp hi).2.1
  · intro connection
    rw [ExtTreeMap.mem_iff_isSome_getElem?, isSome_iff_exists]
    constructor
    · rintro ⟨i, hi⟩
      exact ⟨i, (h.pending connection i).mp hi⟩
    · rintro ⟨i, hi⟩
      exact ⟨i, (h.pending connection i).mpr hi⟩
  · exact ⟨h.tables.byConnection, h.tables.byCategory⟩
  · intro i hi
    rcases h.owned i hi nofun with hp | hd | ⟨⟨category, hr⟩, ⟨connection, hh⟩ | hh⟩
    · obtain ⟨c, hc, hphase⟩ := Option.map_eq_some_iff.mp hp
      exact .inr (.inr (.inl ⟨c, hc, hphase⟩))
    · exact .inr (.inl hd)
    · exact .inl ⟨connection, category, hh, hr⟩
    · exact .inr (.inr (.inr hh))

/-- In a run in which the calls of a creation do not throw and sessions can be sent `destroy`, the
tables, the pending connections, the requests and the sessions are as promised. -/
theorem kept_of_careful (inst : Instance) (s : State)
    (h : Reach step Careful (State.initial inst) s) : Kept s :=
  (h.invariant (Consistent.initial inst) fun _ _ _ hs ha ht => hs.step ha ht).kept

def ordinary : Instance := ⟨true, true, false⟩

/-- Another request waits for the creation, and the session is destroyed later. -/
theorem kept_of_destroySession : ∃ s : State,
    Reach step Careful (State.initial ordinary) s ∧ s.answers = [0, 1] ∧
      s.destroyedSessions = [0] ∧ Kept s := by
  have hrun : (Lib.run (fun s a => if decide (Careful s a) then step s a else none)
      (State.initial ordinary) [.createSession 7 false false, .authorize 0 false,
        .createSession 7 false false, .verified 0 true false, .managed 0 (some true),
        .sessionCreated 0 (some "!random") false, .restart 0, .destroySession 7,
        .destroyRouter 0 false]).any
      (fun s => decide (s.answers = [0, 1] ∧ s.destroyedSessions = [0])) = true := by
    decide +kernel
  obtain ⟨s, h, hs⟩ := Reach.exists_of_runWhere (fun _ _ => of_decide_eq_true) hrun
  obtain ⟨hanswers, hsessions⟩ := of_decide_eq_true hs
  exact ⟨s, h, hanswers, hsessions, kept_of_careful ordinary s h⟩

/-- The call of the verifier throws, so the connection stays pending. -/
theorem not_kept_of_throws : ¬∀ (inst : Instance) (s : State),
    Reach step Lib.Any (State.initial inst) s → Kept s := by
  intro h
  have hrun : (Lib.run step (State.initial ordinary)
      [.createSession 7 false false, .authorize 0 true]).any
      (fun s => decide (7 ∈ s.pending ∧ s.creations.all (!·.phase.inProgress) = true)) = true := by
    decide +kernel
  obtain ⟨s, hreach, hs⟩ := Reach.exists_of_run hrun
  obtain ⟨hpending, hended⟩ := of_decide_eq_true hs
  obtain ⟨i, c, hc, -, hphase⟩ := ((h ordinary s hreach).pending 7).mp hpending
  have hnot := List.all_eq_true.mp hended c (mem_of_getElem? hc)
  rw [hphase] at hnot
  cases hnot

end Ice.Glacier2.Sessions
