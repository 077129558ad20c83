import Ice.Glacier2.SessionRouter
import Ice.Lib.Lists

/-!
# The books of the session router

Which requests were answered, which creations wait for others, which connections are pending, what
the tables hold, and where the sessions are.
-/

namespace Ice.Glacier2.Sessions

open Std Lib
open State (phase? router?)
open Option (some.inj)

/-- The request was answered. -/
def Phase.settled : Phase → Bool
  | .restarting _ => true
  | .ended => true
  | _ => false

/-- The creations that wait for this one -/
def CreateSession.waiting (c : CreateSession) : List Nat :=
  match c.phase with
  | .restarting callbacks => callbacks
  | .ended => []
  | _ => c.pendingCallbacks

namespace State

def waiting (s : State) (i : Nat) : Int := (s.creations.map fun c => (c.waiting.count i : Int)).sum

/-- A request is answered as its creation is finished. -/
structure Answered (s : State) : Prop where
  known : ∀ i ∈ s.answers, i < s.creations.length
  once : ∀ i c, s.creations[i]? = some c → s.answers.count i = if c.phase.settled then 1 else 0

/-- A creation that is queued waits for one other, except for `i`, which is taken out. -/
structure Waits (s : State) (i : Option Nat) : Prop where
  queued : ∀ j, s.waiting j =
    if s.phase? j = some .queued ∧ i ≠ some j then 1 else 0
  alone : ∀ c ∈ s.creations, c.phase = .queued → c.pendingCallbacks = []

/-- A connection is pending for the creation in progress. -/
def Pending (s : State) : Prop := ∀ (connection i : Nat), s.pending[connection]? = some i ↔
  ∃ c : CreateSession, s.creations[i]? = some c ∧ c.connection = connection ∧
    c.phase.inProgress = true

/-- The tables have the same routers, which come from creations that are finished. -/
structure Tables (s : State) : Prop where
  single : ∀ connection i, s.routersByConnection.entries[connection]? = some i →
    connection ∉ s.pending ∧ ∃ c, s.creations[i]? = some c ∧ c.connection = connection ∧
      c.phase.settled = true ∧ c.router.isSome = true
  unrouted : ∀ c ∈ s.creations, c.phase.settled = false → c.router = none
  same : ∀ category i, s.routersByCategory.entries[category]? = some i ↔
    s.inst.serverObjectAdapter = true ∧
      (∃ connection : Nat, s.routersByConnection.entries[connection]? = some i) ∧
      ∃ router, s.router? i = some router ∧ router.category = category
  byConnection : s.routersByConnection.Valid
  byCategory : s.routersByCategory.Valid

/-- The router that holds the session is in the table or in the hands of a thread. -/
def Held (s : State) (i : Nat) : Prop :=
  (∃ connection : Nat, s.routersByConnection.entries[connection]? = some i) ∨
    ∃ d ∈ s.destructions, i ∈ d.routers

/-- A session is to become one of a router, or is held by one, or was sent `destroy`; nothing is
said of `i`. -/
def Owned (s : State) (i : Option Nat) : Prop := ∀ j ∈ s.returned, i ≠ some j →
  s.phase? j = some (.sessionCreated true) ∨ j ∈ s.destroyedSessions ∨
    (∃ category, s.router? j = some ⟨category, true⟩) ∧ s.Held j

end State

/-- What every step of the session router keeps -/
structure Consistent (s : State) : Prop where
  answered : s.Answered
  waits : s.Waits none
  pending : s.Pending
  tables : s.Tables
  owned : s.Owned none

section phases

variable {s : State} {i : Nat} {c : CreateSession} {p : Phase}

theorem not_settled_of_inProgress (h : p.inProgress = true) : p.settled = false := by
  cases p with
  | queued => cases h
  | restarting callbacks => cases h
  | ended => cases h
  | authorize => rfl
  | verifying => rfl
  | creating => rfl
  | sessionCreated session => rfl

theorem ne_queued_of_inProgress (h : p.inProgress = true) : p ≠ .queued := by
  rintro rfl
  cases h

theorem phase?_eq (hc : s.creations[i]? = some c) : s.phase? i = some c.phase := by
  rw [phase?, hc]
  rfl

theorem router?_eq (hc : s.creations[i]? = some c) : s.router? i = c.router := by
  rw [router?, hc]
  rfl

theorem waiting_of_inProgress (h : c.phase.inProgress = true) : c.waiting = c.pendingCallbacks := by
  rw [CreateSession.waiting]
  split
  · rename_i hphase
    rw [hphase] at h
    cases h
  · rename_i hphase
    rw [hphase] at h
    cases h
  · rfl

end phases

section set

variable {s t : State} {i j : Nat} {c c' d : CreateSession}

theorem getElem?_set_ne (hset : t.creations = s.creations.set i c') (hj : j ≠ i) :
    t.creations[j]? = s.creations[j]? := by
  rw [hset, List.getElem?_set_ne (Ne.symm hj)]

theorem phase?_set_ne (hset : t.creations = s.creations.set i c') (hj : j ≠ i) :
    t.phase? j = s.phase? j := by
  rw [phase?, phase?, getElem?_set_ne hset hj]

theorem router?_set_ne (hset : t.creations = s.creations.set i c') (hj : j ≠ i) :
    t.router? j = s.router? j := by
  rw [router?, router?, getElem?_set_ne hset hj]

theorem State.Pending.eq_of_connection (h : s.Pending) (hc : s.creations[i]? = some c)
    (hd : s.creations[j]? = some d) (hconnection : d.connection = c.connection)
    (hphase : c.phase.inProgress = true) (hphase' : d.phase.inProgress = true) : j = i := by
  have hi := (h c.connection i).mpr ⟨c, hc, rfl, hphase⟩
  have hj := (h c.connection j).mpr ⟨d, hd, hconnection, hphase'⟩
  exact some.inj (hj.symm.trans hi)

variable (hc : s.creations[i]? = some c) (hset : t.creations = s.creations.set i c')

include hc hset

theorem getElem?_set_self : t.creations[i]? = some c' := by
  obtain ⟨hi, -⟩ := List.getElem?_eq_some_iff.mp hc
  rw [hset, List.getElem?_set_self hi]

/-- A creation is the one that was set, or it was there. -/
theorem eq_or_getElem? (hd : t.creations[j]? = some d) :
    j = i ∧ d = c' ∨ j ≠ i ∧ s.creations[j]? = some d := by
  by_cases hj : j = i
  · subst hj
    rw [getElem?_set_self hc hset] at hd
    exact .inl ⟨rfl, (some.inj hd).symm⟩
  · rw [getElem?_set_ne hset hj] at hd
    exact .inr ⟨hj, hd⟩

theorem phase?_set_self : t.phase? i = some c'.phase :=
  phase?_eq (getElem?_set_self hc hset)

theorem waiting_set :
    t.waiting j = s.waiting j - c.waiting.count j + c'.waiting.count j := by
  rw [State.waiting, hset]
  exact sum_map_set _ _ hc

theorem State.Answered.set (h : s.Answered) (hanswers : t.answers = s.answers)
    (hsettled : c'.phase.settled = c.phase.settled) : t.Answered := by
  constructor
  · intro j hj
    rw [hset, List.length_set]
    exact h.known j (hanswers ▸ hj)
  · intro j d hd
    rw [hanswers]
    rcases eq_or_getElem? hc hset hd with ⟨rfl, rfl⟩ | ⟨-, hd⟩
    · rw [hsettled]
      exact h.once _ c hc
    · exact h.once j d hd

/-- A creation that ends has its one answer. -/
theorem State.Answered.finished (h : s.Answered) (hanswers : t.answers = s.answers ++ [i])
    (hopen : c.phase.settled = false) (hsettled : c'.phase.settled = true) : t.Answered := by
  constructor
  · intro j hj
    rw [hset, List.length_set]
    rw [hanswers] at hj
    rcases List.mem_append.mp hj with hj | hj
    · exact h.known j hj
    · cases List.mem_singleton.mp hj
      exact (List.getElem?_eq_some_iff.mp hc).1
  · intro j d hd
    rw [hanswers, List.count_append]
    rcases eq_or_getElem? hc hset hd with ⟨rfl, rfl⟩ | ⟨hj, hd⟩
    · rw [h.once _ c hc, hopen, hsettled, List.count_singleton_self]
      rfl
    · rw [h.once j d hd, List.count_eq_zero.mpr (by simpa using hj), Nat.add_zero]

theorem State.Waits.set {k : Option Nat} (h : s.Waits k) (hwaiting : c'.waiting = c.waiting)
    (hphase : c'.phase ≠ .queued) (hqueued : c.phase = .queued → k = some i) :
    t.Waits (if k = some i then none else k) := by
  constructor
  · intro j
    rw [waiting_set hc hset, hwaiting, h.queued j]
    by_cases hj : j = i
    · subst hj
      have hnot : ¬(s.phase? j = some .queued ∧ k ≠ some j) := by
        rintro ⟨hq, hk⟩
        rw [phase?_eq hc] at hq
        exact hk (hqueued (some.inj hq))
      rw [if_neg hnot, phase?_set_self hc hset, if_neg]
      · omega
      · rintro ⟨hq, -⟩
        exact hphase (some.inj hq)
    · rw [phase?_set_ne hset hj]
      have hk : (if k = some i then none else k) ≠ some j ↔ k ≠ some j := by
        split
        · rename_i hk
          subst hk
          simp [Ne.symm hj]
        · exact Iff.rfl
      simp only [hk]
      omega
  · intro d hd hq
    rw [hset] at hd
    rcases List.mem_or_eq_of_mem_set hd with hd | rfl
    · exact h.alone d hd hq
    · exact absurd hq hphase

section

variable (h : s.Pending)

include h

theorem State.Pending.set (hpending : t.pending = s.pending)
    (hconnection : c'.connection = c.connection)
    (hphase : c'.phase.inProgress = c.phase.inProgress) : t.Pending := by
  intro connection j
  rw [hpending, h connection j]
  by_cases hj : j = i
  · subst hj
    rw [getElem?_set_self hc hset, hc]
    simp [hconnection, hphase]
  · rw [getElem?_set_ne hset hj]

/-- A creation that is finished is not pending any more. -/
theorem State.Pending.erase
    (hpending : t.pending = s.pending.erase c.connection)
    (hphase : c.phase.inProgress = true) (hphase' : c'.phase.inProgress = false) : t.Pending := by
  intro connection j
  rw [hpending, HintedMap.getElem?_erase, h connection j]
  constructor
  · rintro ⟨hne, d, hd, rfl, hdphase⟩
    refine ⟨d, ?_, rfl, hdphase⟩
    rw [getElem?_set_ne hset, hd]
    rintro rfl
    cases hc.symm.trans hd
    exact hne rfl
  · rintro ⟨d, hd, rfl, hdphase⟩
    rcases eq_or_getElem? hc hset hd with ⟨rfl, rfl⟩ | ⟨hj, hd⟩
    · rw [hphase'] at hdphase
      cases hdphase
    · refine ⟨fun heq => hj ?_, d, hd, rfl, hdphase⟩
      exact h.eq_of_connection hc hd heq hphase hdphase

/-- A creation that starts is pending for its connection. -/
theorem State.Pending.insert
    (hpending : t.pending = s.pending.insertIfNew c.connection i)
    (hfree : s.pending[c.connection]? = none) (hconnection : c'.connection = c.connection)
    (hphase : c'.phase.inProgress = true) : t.Pending := by
  have hnew : c.connection ∉ s.pending := by
    rw [ExtTreeMap.mem_iff_isSome_getElem?, hfree]
    exact Bool.false_ne_true
  intro connection j
  have hinsert : t.pending[connection]? = some j ↔
      connection = c.connection ∧ j = i ∨ s.pending[connection]? = some j := by
    rw [hpending]
    exact HintedMap.getElem?_insert (m := ⟨s.pending, none⟩) hnew
  rw [hinsert, h connection j]
  constructor
  · rintro (⟨rfl, rfl⟩ | ⟨d, hd, rfl, hdphase⟩)
    · exact ⟨c', getElem?_set_self hc hset, hconnection, hphase⟩
    · by_cases hj : j = i
      · subst hj
        cases hc.symm.trans hd
        exact ⟨c', getElem?_set_self hc hset, hconnection, hphase⟩
      · exact ⟨d, by rw [getElem?_set_ne hset hj, hd], rfl, hdphase⟩
  · rintro ⟨d, hd, rfl, hdphase⟩
    rcases eq_or_getElem? hc hset hd with ⟨rfl, rfl⟩ | ⟨-, hd⟩
    · exact .inl ⟨hconnection, rfl⟩
    · exact .inr ⟨d, hd, rfl, hdphase⟩

end

/-- A creation of a router in the table is finished. -/
theorem State.Tables.set (h : s.Tables)
    (hpending : ∀ connection : Nat, connection ∈ t.pending →
      connection ∈ s.pending ∨ connection ∉ s.routersByConnection.entries)
    (hconnection : t.routersByConnection = s.routersByConnection)
    (hcategory : t.routersByCategory = s.routersByCategory) (hinst : t.inst = s.inst)
    (hsame : c.phase.settled = true → c'.phase.settled = true ∧ c'.connection = c.connection ∧
      c'.router = c.router)
    (hunrouted : c'.phase.settled = false → c.phase.settled = false ∧ c'.router = c.router) :
    t.Tables := by
  have hsettled : ∀ connection : Nat, s.routersByConnection.entries[connection]? = some i →
      c.phase.settled = true := by
    intro connection hi
    obtain ⟨-, d, hd, -, hphase, -⟩ := h.single connection i hi
    cases hc.symm.trans hd
    exact hphase
  constructor
  · intro connection j hj
    rw [hconnection] at hj
    obtain ⟨hfree, d, hd, hdc, hphase, hrouter⟩ := h.single connection j hj
    constructor
    · intro hmem
      rcases hpending connection hmem with hmem | hmem
      · exact hfree hmem
      · exact hmem (ExtTreeMap.mem_iff_isSome_getElem?.mpr (by rw [hj]; rfl))
    · by_cases hji : j = i
      · subst hji
        cases hc.symm.trans hd
        obtain ⟨hphase', hconnection', hrouter'⟩ := hsame hphase
        exact ⟨c', getElem?_set_self hc hset, hconnection'.trans hdc, hphase',
          by rw [hrouter', hrouter]⟩
      · exact ⟨d, by rw [getElem?_set_ne hset hji, hd], hdc, hphase, hrouter⟩
  · intro d hd hphase
    rw [hset] at hd
    rcases List.mem_or_eq_of_mem_set hd with hd | rfl
    · exact h.unrouted d hd hphase
    · obtain ⟨hphase, hrouter⟩ := hunrouted hphase
      exact hrouter.trans (h.unrouted c (List.mem_of_getElem? hc) hphase)
  · intro category j
    rw [hcategory, hconnection, hinst, h.same category j]
    apply and_congr_right
    intro _
    apply and_congr_right
    rintro ⟨connection, hj⟩
    by_cases hji : j = i
    · subst hji
      rw [router?_eq hc, router?_eq (getElem?_set_self hc hset),
        (hsame (hsettled connection hj)).2.2]
    · rw [router?_set_ne hset hji]
  · rw [hconnection]
    exact h.byConnection
  · rw [hcategory]
    exact h.byCategory

theorem State.Owned.set {k : Option Nat} (h : s.Owned k)
    (hreturned : ∀ j ∈ t.returned, j ∈ s.returned ∨
      j = i)
    (hdestroyed : ∀ j ∈ s.destroyedSessions, j ∈ t.destroyedSessions)
    (hheld : ∀ j, s.Held j → t.Held j)
    (hself : i ∈ t.returned → k ≠ some i → c'.phase = .sessionCreated true ∨
      i ∈ s.returned ∧ c.phase ≠ .sessionCreated true ∧ c'.router = c.router) : t.Owned k := by
  intro j hj hk
  by_cases hji : j = i
  · subst hji
    rcases hself hj hk with hphase | ⟨hr, hphase, hrouter⟩
    · exact .inl (by rw [phase?_set_self hc hset, hphase])
    · rw [router?_eq (getElem?_set_self hc hset), hrouter, ← router?_eq hc]
      rcases h j hr hk with hp | hd | ⟨hcat, hh⟩
      · rw [phase?_eq hc] at hp
        exact absurd (some.inj hp) hphase
      · exact .inr (.inl (hdestroyed j hd))
      · exact .inr (.inr ⟨hcat, hheld j hh⟩)
  · rw [phase?_set_ne hset hji, router?_set_ne hset hji]
    have hr : j ∈ s.returned := (hreturned j hj).resolve_right hji
    rcases h j hr hk with hp | hd | ⟨hcat, hh⟩
    · exact .inl hp
    · exact .inr (.inl (hdestroyed j hd))
    · exact .inr (.inr ⟨hcat, hheld j hh⟩)

end set

section append

variable {s t : State} {c d : CreateSession} {j : Nat}

theorem phase?_ne_none (h : s.phase? j ≠ none) : j ≠ s.creations.length := by
  rintro rfl
  exact h (by rw [phase?, List.getElem?_eq_none (Nat.le_refl _)]; rfl)

variable (happend : t.creations = s.creations ++ [c])

include happend

theorem phase?_append (hj : j ≠ s.creations.length) : t.phase? j = s.phase? j := by
  rw [phase?, phase?, happend]
  by_cases hlt : j < s.creations.length
  · rw [List.getElem?_append_left hlt]
  · have hgt : s.creations.length < j := by omega
    rw [List.getElem?_eq_none (Nat.le_of_lt hgt), List.getElem?_eq_none]
    rw [List.length_append, List.length_singleton]
    exact hgt

theorem phase?_length : t.phase? s.creations.length = some c.phase := by
  rw [phase?, happend, List.getElem?_concat_length]
  rfl

/-- A creation is the new one, or it was there. -/
theorem eq_or_getElem?_append (hd : t.creations[j]? = some d) :
    j = s.creations.length ∧ d = c ∨ j < s.creations.length ∧ s.creations[j]? = some d := by
  rw [happend] at hd
  by_cases hlt : j < s.creations.length
  · rw [List.getElem?_append_left hlt] at hd
    exact .inr ⟨hlt, hd⟩
  · obtain ⟨hle, -⟩ := List.getElem?_eq_some_iff.mp hd
    rw [List.length_append, List.length_singleton] at hle
    obtain rfl : j = s.creations.length := by omega
    rw [List.getElem?_concat_length] at hd
    exact .inl ⟨rfl, (some.inj hd).symm⟩

theorem getElem?_append_of_some (hd : s.creations[j]? = some d) : t.creations[j]? = some d := by
  rw [happend, List.getElem?_append_left (List.getElem?_eq_some_iff.mp hd).1, hd]

/-- A request is answered at once, or not yet. -/
theorem State.Answered.append (h : s.Answered)
    (hanswers : t.answers = s.answers ++ if c.phase.settled then [s.creations.length] else []) :
    t.Answered := by
  constructor
  · intro j hj
    rw [happend, List.length_append, List.length_singleton]
    rw [hanswers] at hj
    rcases List.mem_append.mp hj with hj | hj
    · exact Nat.lt_succ_of_lt (h.known j hj)
    · split at hj
      · cases List.mem_singleton.mp hj
        exact Nat.lt_succ_self _
      · cases hj
  · intro j d hd
    rw [hanswers, List.count_append]
    rcases eq_or_getElem?_append happend hd with ⟨rfl, rfl⟩ | ⟨hlt, hd⟩
    · have hnew : s.answers.count s.creations.length = 0 := by
        apply List.count_eq_zero.mpr
        intro hmem
        exact Nat.lt_irrefl _ (h.known _ hmem)
      rw [hnew]
      split <;> simp
    · have hnew : (if c.phase.settled then [s.creations.length] else []).count j = 0 := by
        apply List.count_eq_zero.mpr
        split
        · simpa using Nat.ne_of_lt hlt
        · exact List.not_mem_nil
      rw [h.once j d hd, hnew, Nat.add_zero]

theorem State.Waits.append (h : s.Waits none)
    (hwaiting : c.waiting = []) (hcallbacks : c.pendingCallbacks = []) :
    t.Waits (some s.creations.length) := by
  have hsame : ∀ j, t.waiting j = s.waiting j := by
    intro j
    rw [State.waiting, State.waiting, happend, List.map_append, List.sum_append]
    simp [hwaiting]
  constructor
  · intro j
    rw [hsame, h.queued j]
    by_cases hj : j = s.creations.length
    · subst hj
      rw [if_neg, if_neg]
      · exact fun hk => hk.2 rfl
      · rintro ⟨hq, -⟩
        exact phase?_ne_none (hq ▸ Option.some_ne_none _) rfl
    · rw [phase?_append happend hj]
      simp [Ne.symm hj]
  · intro d hd hq
    rw [happend] at hd
    rcases List.mem_append.mp hd with hd | hd
    · exact h.alone d hd hq
    · cases List.mem_singleton.mp hd
      exact hcallbacks

theorem State.Pending.append (h : s.Pending)
    (hpending : t.pending = s.pending) (hphase : c.phase.inProgress = false) : t.Pending := by
  intro connection j
  rw [hpending, h connection j]
  constructor
  · rintro ⟨d, hd, hdc, hdphase⟩
    exact ⟨d, getElem?_append_of_some happend hd, hdc, hdphase⟩
  · rintro ⟨d, hd, hdc, hdphase⟩
    rcases eq_or_getElem?_append happend hd with ⟨-, rfl⟩ | ⟨-, hd⟩
    · rw [hphase] at hdphase
      cases hdphase
    · exact ⟨d, hd, hdc, hdphase⟩

theorem State.Tables.append (h : s.Tables)
    (hpending : t.pending = s.pending) (hconnection : t.routersByConnection = s.routersByConnection)
    (hcategory : t.routersByCategory = s.routersByCategory) (hinst : t.inst = s.inst)
    (hrouter : c.router = none) : t.Tables := by
  constructor
  · intro connection j hj
    rw [hconnection] at hj
    obtain ⟨hfree, d, hd, hrest⟩ := h.single connection j hj
    exact ⟨hpending ▸ hfree, d, getElem?_append_of_some happend hd, hrest⟩
  · intro d hd hphase
    rw [happend] at hd
    rcases List.mem_append.mp hd with hd | hd
    · exact h.unrouted d hd hphase
    · cases List.mem_singleton.mp hd
      exact hrouter
  · intro category j
    rw [hcategory, hconnection, hinst, h.same category j]
    apply and_congr_right
    intro _
    apply and_congr_right
    rintro ⟨connection, hj⟩
    obtain ⟨-, d, hd, -⟩ := h.single connection j hj
    rw [router?_eq hd, router?_eq (getElem?_append_of_some happend hd)]
  · rw [hconnection]
    exact h.byConnection
  · rw [hcategory]
    exact h.byCategory

/-- A new creation owns no session yet. -/
theorem State.Owned.append (h : s.Owned none)
    (hreturned : t.returned = s.returned) (hdestroyed : t.destroyedSessions = s.destroyedSessions)
    (hheld : ∀ j, s.Held j → t.Held j) : t.Owned none := by
  intro j hj hk
  rw [hreturned] at hj
  rcases h j hj hk with hp | hd | ⟨⟨category, hr⟩, hh⟩
  · left
    rw [phase?_append happend (phase?_ne_none (hp ▸ Option.some_ne_none _)), hp]
  · right
    left
    rwa [hdestroyed]
  · right
    right
    refine ⟨⟨category, ?_⟩, hheld j hh⟩
    obtain ⟨d, hd, hdr⟩ := Option.bind_eq_some_iff.mp hr
    rw [router?_eq (getElem?_append_of_some happend hd), hdr]

end append

end Ice.Glacier2.Sessions
