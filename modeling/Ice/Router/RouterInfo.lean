import Ice.Glacier2.RoutingTable
import Ice.Lib.Transition
import Mathlib

/-!
# The mirror of a router's table

A client keeps the identities that are in the routing table of its router, by the answers of
`addProxies`. The answers are handled in any order; an identity that is evicted before it is known
to be in the table is remembered.
-/

namespace Ice.Router

open Lib References Glacier2 Glacier2.RoutingTable
open Finset (mem_insert mem_sdiff)

/-- `RouterInfo` -/
structure RouterInfo where
  hasRoutingTable : Bool := true
  identities : Finset References.Identity := ∅
  evictedIdentities : Multiset References.Identity := 0

namespace RouterInfo

/-- Whether `addProxy` returns without a call of `addProxies` -/
def addProxy (info : RouterInfo) (proxy : Reference) : Bool :=
  !info.hasRoutingTable || identityOf proxy ∈ info.identities

/-- A proxy was added to the router: it is added to the local map unless a concurrent call evicted
it. -/
def insertProxy (info : RouterInfo) (proxy : Reference) : RouterInfo :=
  if identityOf proxy ∈ info.evictedIdentities then
    { info with evictedIdentities := info.evictedIdentities.erase (identityOf proxy) }
  else { info with identities := insert (identityOf proxy) info.identities }

/-- A proxy was evicted by the router. -/
def evictProxy (info : RouterInfo) (proxy : Reference) : RouterInfo :=
  if identityOf proxy ∈ info.identities then
    { info with identities := info.identities.erase (identityOf proxy) }
  else { info with evictedIdentities := identityOf proxy ::ₘ info.evictedIdentities }

def addAndEvictProxies (info : RouterInfo) (proxy : Reference) (evictedProxies : List Reference) :
    RouterInfo :=
  evictedProxies.foldl evictProxy (info.insertProxy proxy)

def clearCache (info : RouterInfo) (ref : Reference) : RouterInfo :=
  { info with identities := info.identities.erase (identityOf ref) }

end RouterInfo

/-- A client and its router, which has a table. The calls of `addProxies` are sent until the router
serves them, and served until the client handles the answer, which has the evicted proxies. -/
structure Client where
  info : RouterInfo := {}
  table : Finset References.Identity := ∅
  sent : List Reference := []
  served : List (Reference × List Reference) := []

/-- The calls, what becomes of them, and `clearCache` -/
inductive Event
  | addProxy (proxy : Reference)
  | serve (call : Nat) (evicted : List Reference)
  | addProxyResponse (call : Nat)
  /-- A call fails that the router has not served. -/
  | addProxyException (call : Nat)
  | clearCache (ref : Reference)

/-- What a router can do with the call: it adds the identity if it does not have it, and evicts any
identities it has then. -/
def Serves (table : Finset References.Identity) (proxy : Reference)
    (evicted : List Reference) : Prop :=
  (evicted.map identityOf).Nodup ∧
    ∀ id ∈ evicted.map identityOf, id ∈ insert (identityOf proxy) table

instance (table : Finset References.Identity) (proxy : Reference) (evicted : List Reference) :
    Decidable (Serves table proxy evicted) := inferInstanceAs (Decidable (_ ∧ _))

/-- The table behind the call -/
def tableBehind (table : Finset References.Identity) (proxy : Reference)
    (evicted : List Reference) : Finset References.Identity :=
  insert (identityOf proxy) table \ (evicted.map identityOf).toFinset

/-- A Glacier2 router is one that serves the calls. -/
theorem serves_add {t : RoutingTable} (h : t.Valid) {verify : Reference → Bool} {proxy : Reference}
    (hproxy : verify proxy = true) :
    ∃ evicted, (t.add verify [some proxy]).2 = some evicted ∧
      Serves t.ids.toFinset proxy evicted ∧
      (t.add verify [some proxy]).1.ids.toFinset = tableBehind t.ids.toFinset proxy evicted := by
  have hall : (present [some proxy]).all verify := by
    simp [present, hproxy]
  have hone : t.addAll [defaultForm proxy] = t.addOne (defaultForm proxy) := by
    simp [addAll]
  obtain ⟨_, _, hids, hevicted⟩ := addOne_spec h (defaultForm proxy)
  have hnodup := nodup_used h.nodup_ids (identityOf proxy)
  rw [identityOf_defaultForm] at hids hevicted
  rw [← rdrop_append_rtake (used t.ids (identityOf proxy)) t.maxSize, ← hids, ← hevicted] at hnodup
  have hmem (id : References.Identity) : id ∈ (t.addOne (defaultForm proxy)).2.map identityOf ∨
      id ∈ (t.addOne (defaultForm proxy)).1.ids ↔ id = identityOf proxy ∨ id ∈ t.ids := by
    rw [hevicted, hids, ← List.mem_append, rdrop_append_rtake, mem_used, or_comm]
  rw [add_accepted hall]
  have hpresent : (present [some proxy]).map defaultForm = [defaultForm proxy] := rfl
  rw [hpresent, hone]
  refine ⟨_, rfl, ⟨hnodup.of_append_left, ?_⟩, ?_⟩
  · intro id hid
    rw [mem_insert, List.mem_toFinset]
    exact (hmem id).mp (.inl hid)
  · ext id
    unfold tableBehind
    rw [mem_sdiff, mem_insert, List.mem_toFinset, List.mem_toFinset,
      List.mem_toFinset, ← hmem]
    have hdisjoint := List.disjoint_of_nodup_append hnodup
    constructor
    · intro hin
      exact ⟨.inr hin, fun hout => hdisjoint hout hin⟩
    · rintro ⟨hin, hout⟩
      exact hin.resolve_left hout

namespace Client

def step (s : Client) : Event → Option Client
  | .addProxy proxy =>
    if s.info.addProxy proxy then some s else some { s with sent := s.sent ++ [proxy] }
  | .serve call evicted =>
    s.sent[call]?.bind fun proxy =>
      if Serves s.table proxy evicted then
        some { s with
          table := tableBehind s.table proxy evicted
          sent := s.sent.eraseIdx call
          served := s.served ++ [(proxy, evicted)] }
      else none
  | .addProxyResponse call =>
    s.served[call]?.map fun answer =>
      { s with
        info := s.info.addAndEvictProxies answer.1 answer.2
        served := s.served.eraseIdx call }
  | .addProxyException call =>
    s.sent[call]?.map fun _ => { s with sent := s.sent.eraseIdx call }
  | .clearCache ref => some { s with info := s.info.clearCache ref }

/-- No call of `addProxies` is outstanding. -/
def Idle (s : Client) : Prop := s.sent = [] ∧ s.served = []

/-- Every identity in the local map is in the table of the router, and no eviction is left. -/
def Mirrors (s : Client) : Prop :=
  s.info.identities ⊆ s.table ∧ s.info.evictedIdentities = 0

/-- The router serves a call for an identity that it has. -/
def again (id : References.Identity) (s : Client) : Event → Bool
  | .serve call _ => s.sent[call]?.any (identityOf · = id) && id ∈ s.table
  | _ => false

/-- The answer of a call for an identity is handled that is in the local map, or the identity is
taken out of the local map. -/
def forgotten (id : References.Identity) (s : Client) : Event → Bool
  | .addProxyResponse call =>
    s.served[call]?.any (identityOf ·.1 = id) && id ∈ s.info.identities
  | .clearCache ref => identityOf ref = id && id ∈ s.info.identities
  | _ => false

/-- By how much an answer changes the number of times that an identity is known to be in the
table -/
def worth (id : References.Identity) (answer : Reference × List Reference) : Int :=
  (decide (identityOf answer.1 = id)).toNat - (answer.2.map identityOf).count id

/-- The number of times that an identity is known to be in the table; less than nothing if it was
evicted and is not known to be added -/
def known (id : References.Identity) (info : RouterInfo) : Int :=
  (decide (id ∈ info.identities)).toNat - info.evictedIdentities.count id

/-- What is known behind all answers, against the table -/
def surplus (id : References.Identity) (s : Client) : Int :=
  known id s.info + (s.served.map (worth id)).sum - (decide (id ∈ s.table)).toNat

/-- No identity in the local map is remembered as evicted. -/
def Apart (info : RouterInfo) : Prop :=
  ∀ id ∈ info.identities, id ∉ info.evictedIdentities

section

variable {info : RouterInfo} {id : References.Identity} {proxy : Reference}

theorem Apart.insertProxy (h : Apart info) (proxy : Reference) :
    Apart (info.insertProxy proxy) := by
  intro x hx hevicted
  unfold RouterInfo.insertProxy at hx hevicted
  split at hx
  · rename_i hmem
    rw [if_pos hmem] at hevicted
    exact h x hx (Multiset.mem_of_mem_erase hevicted)
  · rename_i hmem
    rw [if_neg hmem] at hevicted
    rcases mem_insert.mp hx with rfl | hold
    · exact hmem hevicted
    · exact h x hold hevicted

/-- An added identity is known once more, unless it was in the local map. -/
theorem known_insertProxy (h : Apart info) :
    known id (info.insertProxy proxy) = known id info +
      (decide (identityOf proxy = id)).toNat -
        (decide (identityOf proxy = id) && decide (id ∈ info.identities)).toNat := by
  unfold known RouterInfo.insertProxy
  by_cases hid : identityOf proxy = id
  · subst hid
    by_cases hmem : identityOf proxy ∈ info.evictedIdentities
    · have hnot : identityOf proxy ∉ info.identities := fun hin => h _ hin hmem
      have hcount := Multiset.count_pos.mpr hmem
      rw [if_pos hmem, Multiset.count_erase_self]
      simp only [hnot, decide_false, decide_true, Bool.and_false, Bool.toNat_false,
        Bool.toNat_true]
      omega
    · rw [if_neg hmem]
      by_cases hin : identityOf proxy ∈ info.identities
      · simp [hin]
      · simp [hin]
        omega
  · have hne : id ≠ identityOf proxy := fun heq => hid heq.symm
    by_cases hmem : identityOf proxy ∈ info.evictedIdentities
    · rw [if_pos hmem, Multiset.count_erase_of_ne hne]
      simp [hid]
    · rw [if_neg hmem]
      simp [hid, hne]

theorem Apart.evictProxy (h : Apart info) (proxy : Reference) : Apart (info.evictProxy proxy) := by
  intro x hx hevicted
  unfold RouterInfo.evictProxy at hx hevicted
  split at hx
  · rename_i hmem
    rw [if_pos hmem] at hevicted
    exact h x (Finset.mem_of_mem_erase hx) hevicted
  · rename_i hmem
    rw [if_neg hmem] at hevicted
    rcases Multiset.mem_cons.mp hevicted with rfl | hold
    · exact hmem hx
    · exact h x hx hold

/-- An evicted identity is known once less. -/
theorem known_evictProxy :
    known id (info.evictProxy proxy) =
      known id info - (decide (identityOf proxy = id)).toNat := by
  unfold known RouterInfo.evictProxy
  by_cases hid : identityOf proxy = id
  · subst hid
    by_cases hin : identityOf proxy ∈ info.identities
    · rw [if_pos hin]
      simp [hin]
    · rw [if_neg hin]
      simp [hin]
      omega
  · have hne : id ≠ identityOf proxy := fun heq => hid heq.symm
    by_cases hin : identityOf proxy ∈ info.identities
    · rw [if_pos hin]
      simp [hid, hne]
    · rw [if_neg hin, Multiset.count_cons_of_ne hne]
      simp [hid]

theorem known_evictProxies (h : Apart info) (evictedProxies : List Reference) :
    Apart (evictedProxies.foldl RouterInfo.evictProxy info) ∧
      known id (evictedProxies.foldl RouterInfo.evictProxy info) =
        known id info - (evictedProxies.map identityOf).count id := by
  induction evictedProxies generalizing info with
  | nil =>
    refine ⟨h, ?_⟩
    simp
  | cons proxy evictedProxies ih =>
    obtain ⟨hapart, heq⟩ := ih (h.evictProxy proxy)
    refine ⟨hapart, ?_⟩
    rw [List.foldl_cons, heq, known_evictProxy, List.map_cons, List.count_cons]
    by_cases hid : identityOf proxy = id
    · simp [hid]
      omega
    · simp [hid]

/-- An answer changes what is known by what it is worth, unless the identity was known before. -/
theorem known_addAndEvictProxies (h : Apart info) (answer : Reference × List Reference) :
    Apart (info.addAndEvictProxies answer.1 answer.2) ∧
      known id (info.addAndEvictProxies answer.1 answer.2) = known id info + worth id answer -
        (decide (identityOf answer.1 = id) && decide (id ∈ info.identities)).toNat := by
  obtain ⟨hapart, heq⟩ := @known_evictProxies _ id (h.insertProxy answer.1) answer.2
  refine ⟨hapart, ?_⟩
  unfold RouterInfo.addAndEvictProxies
  rw [heq, known_insertProxy h]
  unfold worth
  omega

theorem Apart.clearCache (h : Apart info) (ref : Reference) : Apart (info.clearCache ref) := by
  intro x hx
  exact h x (Finset.mem_of_mem_erase hx)

theorem known_clearCache (ref : Reference) :
    known id (info.clearCache ref) = known id info -
      (decide (identityOf ref = id) && decide (id ∈ info.identities)).toNat := by
  unfold known RouterInfo.clearCache
  by_cases hid : identityOf ref = id
  · subst hid
    by_cases hin : identityOf ref ∈ info.identities
    · simp [hin]
    · simp [hin]
  · have hne : id ≠ identityOf ref := fun heq => hid heq.symm
    simp [hid, hne]

end

/-- What an answer is worth is what the router did, unless it had the identity. -/
theorem worth_serve {table : Finset References.Identity} {proxy : Reference}
    {evicted : List Reference}
    (h : Serves table proxy evicted) (id : References.Identity) :
    worth id (proxy, evicted) =
      (decide (id ∈ tableBehind table proxy evicted)).toNat - (decide (id ∈ table)).toNat +
        ((decide (identityOf proxy = id) && decide (id ∈ table)).toNat : Int) := by
  obtain ⟨hnodup, hsub⟩ := h
  unfold worth tableBehind
  simp only [mem_sdiff, List.mem_toFinset, mem_insert]
  by_cases hevicted : id ∈ evicted.map identityOf
  · have hone := List.count_eq_one_of_mem hnodup hevicted
    have hin := mem_insert.mp (hsub id hevicted)
    rw [hone]
    by_cases hid : identityOf proxy = id
    · by_cases htable : id ∈ table
      · simp [hid, htable, hevicted]
      · simp [hid, htable, hevicted]
    · have htable : id ∈ table := hin.resolve_left (fun heq => hid heq.symm)
      simp [hid, htable, hevicted]
  · have hzero := List.count_eq_zero_of_not_mem hevicted
    rw [hzero]
    by_cases hid : identityOf proxy = id
    · by_cases htable : id ∈ table
      · simp [hid, htable, hevicted]
      · simp [hid, htable, hevicted]
    · have hne : id ≠ identityOf proxy := fun heq => hid heq.symm
      simp [hid, hne, hevicted]

theorem coe_map_eraseIdx {α β : Type*} (f : α → β) {l : List α} {i : Nat} {a : α}
    (h : l[i]? = some a) : (l.map f : Multiset β) = f a ::ₘ (l.eraseIdx i).map f := by
  obtain ⟨hi, rfl⟩ := List.getElem?_eq_some_iff.mp h
  exact (Multiset.coe_eq_coe.mpr ((List.getElem_cons_eraseIdx_perm hi).map f)).symm

theorem coe_map_append {α β : Type*} (f : α → β) (l : List α) (a : α) :
    ((l ++ [a]).map f : Multiset β) = f a ::ₘ l.map f :=
  Multiset.coe_eq_coe.mpr ((List.perm_append_singleton a l).map f)

theorem sum_eraseIdx {α : Type*} (f : α → Int) {l : List α} {i : Nat} {a : α}
    (h : l[i]? = some a) :
    ((l.eraseIdx i).map f).sum = (l.map f).sum - f a := by
  have hsum := congrArg Multiset.sum (coe_map_eraseIdx f h)
  rw [Multiset.sum_cons, Multiset.sum_coe, Multiset.sum_coe] at hsum
  omega

variable {e : Event} {s : Client} {id : References.Identity}

/-- What is known behind all answers grows where the router serves a call for what it has, and
shrinks where something is forgotten. -/
theorem surplus_step {s' : Client} (hapart : Apart s.info) (h : s.step e = some s')
    (id : References.Identity) :
    Apart s'.info ∧
      surplus id s' = surplus id s + (again id s e).toNat - (forgotten id s e).toNat := by
  cases e with
  | addProxy proxy =>
    unfold step at h
    dsimp only at h
    split at h
    · cases Option.some.inj h
      exact ⟨hapart, by simp [again, forgotten]⟩
    · cases Option.some.inj h
      exact ⟨hapart, by simp [surplus, again, forgotten]⟩
  | serve call evicted =>
    obtain ⟨proxy, hproxy, hserve⟩ := Option.bind_eq_some_iff.mp h
    split at hserve
    · rename_i hserves
      cases Option.some.inj hserve
      refine ⟨hapart, ?_⟩
      have hworth := worth_serve hserves id
      unfold surplus again forgotten
      dsimp only
      rw [hproxy, List.map_append, List.sum_append]
      simp only [List.map_cons, List.map_nil, List.sum_cons, List.sum_nil, Option.any_some,
        Bool.toNat_false]
      rw [hworth]
      omega
    · cases hserve
  | addProxyResponse call =>
    obtain ⟨answer, hanswer, rfl⟩ := Option.map_eq_some_iff.mp h
    obtain ⟨hapart', hknown⟩ := @known_addAndEvictProxies _ id hapart answer
    refine ⟨hapart', ?_⟩
    unfold surplus again forgotten
    dsimp only
    rw [hknown, sum_eraseIdx _ hanswer, hanswer]
    simp only [Option.any_some, Bool.toNat_false]
    omega
  | addProxyException call =>
    obtain ⟨_, _, rfl⟩ := Option.map_eq_some_iff.mp h
    exact ⟨hapart, by simp [surplus, again, forgotten]⟩
  | clearCache ref =>
    cases Option.some.inj h
    refine ⟨hapart.clearCache ref, ?_⟩
    unfold surplus again forgotten
    dsimp only
    rw [known_clearCache]
    simp only [Bool.toNat_false]
    omega

/-- No call was made yet; a router may have no table. -/
def initial (hasRoutingTable : Bool) : Client := { info := { hasRoutingTable } }

/-- Behind any run. -/
theorem surplus_run {hasRoutingTable : Bool} {events : List Event}
    (h : run step (initial hasRoutingTable) events = some s) (id : References.Identity) :
    Apart s.info ∧ surplus id s =
      occurrences step (again id) (initial hasRoutingTable) events -
        occurrences step (forgotten id) (initial hasRoutingTable) events := by
  have hbalance := run_balance (I := fun s => Apart s.info) (v := surplus id) h
    (fun x hx => absurd hx (Finset.notMem_empty x)) (fun s e s' hs he => surplus_step hs he id)
  have hzero : surplus id (initial hasRoutingTable) = 0 := by
    simp [surplus, known, initial]
  rw [hzero, zero_add] at hbalance
  exact hbalance

/-- Where no call is outstanding, an identity is known rightly unless more or less is known than
the router did. -/
theorem mirrored_iff (hidle : s.Idle) (hapart : Apart s.info) (id : References.Identity) :
    ((id ∈ s.info.identities → id ∈ s.table) ∧ id ∉ s.info.evictedIdentities) ↔
      surplus id s = 0 ∨ (surplus id s = -1 ∧ id ∈ s.table) := by
  unfold surplus known
  rw [hidle.2, List.map_nil, List.sum_nil]
  by_cases hin : id ∈ s.info.identities
  · have hnot := hapart id hin
    by_cases htable : id ∈ s.table
    · simp [hin, hnot, htable]
    · simp [hin, hnot, htable]
  · by_cases hevicted : id ∈ s.info.evictedIdentities
    · have hcount := Multiset.count_pos.mpr hevicted
      by_cases htable : id ∈ s.table
      · simp only [hin, hevicted, htable, decide_true, decide_false, Bool.toNat_true,
          Bool.toNat_false]
        constructor
        · intro h
          exact absurd trivial h.2
        · intro h
          omega
      · simp only [hin, hevicted, htable, decide_false, Bool.toNat_false]
        constructor
        · intro h
          exact absurd trivial h.2
        · rintro (hzero | ⟨_, hfalse⟩)
          · omega
          · exact hfalse.elim
    · by_cases htable : id ∈ s.table
      · simp [hin, hevicted, htable]
      · simp [hin, hevicted, htable]

/-- Where no call is outstanding, the local map mirrors the table if every identity was forgotten
as often as the router was asked to add it again, or once more while the router has it. -/
theorem mirrors_iff {hasRoutingTable : Bool} {events : List Event} {s : Client}
    (h : run step (initial hasRoutingTable) events = some s) (hidle : s.Idle) :
    s.Mirrors ↔ ∀ id,
      occurrences step (forgotten id) (initial hasRoutingTable) events =
          occurrences step (again id) (initial hasRoutingTable) events ∨
        occurrences step (forgotten id) (initial hasRoutingTable) events =
            occurrences step (again id) (initial hasRoutingTable) events + 1 ∧ id ∈ s.table := by
  have hall : s.Mirrors ↔
      ∀ id, (id ∈ s.info.identities → id ∈ s.table) ∧ id ∉ s.info.evictedIdentities := by
    unfold Mirrors
    rw [forall_and, Multiset.eq_zero_iff_forall_notMem]
    rfl
  rw [hall]
  apply forall_congr'
  intro id
  obtain ⟨hapart, heq⟩ := surplus_run h id
  rw [mirrored_iff hidle hapart, heq]
  constructor
  all_goals
    rintro (hzero | ⟨hone, htable⟩)
    · left
      omega
    · right
      exact ⟨by omega, htable⟩

/-- The identities for which a call of `addProxies` is outstanding -/
def outstanding (s : Client) : Multiset References.Identity :=
  s.sent.map identityOf + s.served.map (identityOf ·.1)

/-- No call is made for an identity while one for it is outstanding, and nothing is cleared. -/
def Alone (s : Client) : Event → Prop
  | .addProxy proxy => identityOf proxy ∉ s.outstanding
  | .clearCache _ => False
  | _ => True

/-- One call at most is outstanding for an identity, and only for what is not known. -/
structure Single (s : Client) : Prop where
  nodup : s.outstanding.Nodup
  unknown : ∀ id ∈ s.outstanding, known id s.info ≤ 0
  apart : Apart s.info
  balanced : ∀ id, surplus id s = 0

theorem Apart.notMem {info : RouterInfo} (h : Apart info) (hknown : known id info ≤ 0) :
    id ∉ info.identities := by
  intro hin
  simp [known, hin, Multiset.count_eq_zero.mpr (h id hin)] at hknown

theorem worth_nonpos {answer : Reference × List Reference} (h : identityOf answer.1 ≠ id) :
    worth id answer ≤ 0 := by
  simp [worth, h]

theorem Single.balance {s' : Client} (hs : Single s) (h : s.step e = some s')
    (hagain : ∀ id, again id s e = false) (hforgotten : ∀ id, forgotten id s e = false) :
    Apart s'.info ∧ ∀ id, surplus id s' = 0 := by
  refine ⟨(surplus_step hs.apart h ⟨[], []⟩).1, fun id => ?_⟩
  rw [(surplus_step hs.apart h id).2, hs.balanced, hagain, hforgotten]
  rfl

theorem Single.step {s' : Client} (hs : Single s) (halone : s.Alone e)
    (h : s.step e = some s') : Single s' := by
  have hbalance := hs.balance h
  cases e with
  | addProxy proxy =>
    obtain ⟨hapart, hbalanced⟩ := hbalance (fun _ => rfl) (fun _ => rfl)
    unfold Client.step RouterInfo.addProxy at h
    dsimp only at h
    split at h
    · cases Option.some.inj h
      exact hs
    · rename_i hnot
      cases Option.some.inj h
      have hmore : outstanding { s with sent := s.sent ++ [proxy] } =
          identityOf proxy ::ₘ s.outstanding := by
        unfold outstanding
        rw [coe_map_append, Multiset.cons_add]
      refine ⟨?_, ?_, hapart, hbalanced⟩
      · rw [hmore]
        exact Multiset.nodup_cons.mpr ⟨halone, hs.nodup⟩
      · rw [hmore, Multiset.forall_mem_cons]
        refine ⟨?_, hs.unknown⟩
        have hout : identityOf proxy ∉ s.info.identities := fun hin => hnot (by simp [hin])
        simp [known, hout]
  | serve call evicted =>
    obtain ⟨proxy, hproxy, hserve⟩ := Option.bind_eq_some_iff.mp h
    have hcons := coe_map_eraseIdx identityOf hproxy
    split at hserve
    · cases Option.some.inj hserve
      have hsame : outstanding { s with
          table := tableBehind s.table proxy evicted
          sent := s.sent.eraseIdx call
          served := s.served ++ [(proxy, evicted)] } = s.outstanding := by
        unfold outstanding
        rw [hcons, coe_map_append, Multiset.cons_add, Multiset.add_cons]
      -- the router does not have what it is asked to add
      have hagain (id : References.Identity) : again id s (.serve call evicted) = false := by
        unfold again
        dsimp only
        rw [hproxy, Option.any_some, Bool.and_eq_false_imp, decide_eq_true_eq]
        rintro rfl
        have hunknown := hs.unknown (identityOf proxy)
        have hnodup := hs.nodup
        unfold outstanding at hunknown hnodup
        rw [hcons, Multiset.cons_add] at hunknown hnodup
        have hnone : identityOf proxy ∉ s.served.map (identityOf ·.1) := fun hin =>
          (Multiset.nodup_cons.mp hnodup).1 (Multiset.mem_add.mpr (.inr hin))
        have hworth : (s.served.map (worth (identityOf proxy))).sum ≤ 0 := by
          refine (List.sum_le_card_nsmul _ 0 fun w hw => ?_).trans_eq (smul_zero _)
          obtain ⟨answer, hanswer, rfl⟩ := List.mem_map.mp hw
          exact worth_nonpos fun heq => hnone (List.mem_map.mpr ⟨answer, hanswer, heq⟩)
        have hknown := hunknown (Multiset.mem_cons_self ..)
        have hzero := hs.balanced (identityOf proxy)
        unfold surplus at hzero
        cases htable : decide (identityOf proxy ∈ s.table)
        · rfl
        · rw [htable, Bool.toNat_true] at hzero
          omega
      obtain ⟨hapart, hbalanced⟩ := hbalance hagain (fun _ => rfl)
      exact ⟨hsame ▸ hs.nodup, hsame ▸ hs.unknown, hapart, hbalanced⟩
    · cases hserve
  | addProxyResponse call =>
    obtain ⟨answer, hanswer, rfl⟩ := Option.map_eq_some_iff.mp h
    have hless : s.outstanding = identityOf answer.1 ::ₘ outstanding { s with
        info := s.info.addAndEvictProxies answer.1 answer.2
        served := s.served.eraseIdx call } := by
      unfold outstanding
      rw [coe_map_eraseIdx _ hanswer, Multiset.add_cons]
    have hunknown := hs.unknown
    have hnodup := hs.nodup
    rw [hless, Multiset.forall_mem_cons] at hunknown
    rw [hless, Multiset.nodup_cons] at hnodup
    have hforgotten (id : References.Identity) :
        forgotten id s (.addProxyResponse call) = false := by
      unfold forgotten
      dsimp only
      rw [hanswer, Option.any_some, Bool.and_eq_false_imp, decide_eq_true_eq]
      rintro rfl
      simp [hs.apart.notMem hunknown.1]
    obtain ⟨hapart, hbalanced⟩ := hbalance (fun _ => rfl) hforgotten
    refine ⟨hnodup.2, fun id hid => ?_, hapart, hbalanced⟩
    have hne : identityOf answer.1 ≠ id := fun heq => hnodup.1 (heq ▸ hid)
    have hbefore := hunknown.2 id hid
    have hworth := worth_nonpos hne
    dsimp only
    rw [(known_addAndEvictProxies hs.apart answer).2]
    omega
  | addProxyException call =>
    obtain ⟨proxy, hproxy, rfl⟩ := Option.map_eq_some_iff.mp h
    have hless : s.outstanding =
        identityOf proxy ::ₘ outstanding { s with sent := s.sent.eraseIdx call } := by
      unfold outstanding
      rw [coe_map_eraseIdx _ hproxy, Multiset.cons_add]
    have hunknown := hs.unknown
    rw [hless, Multiset.forall_mem_cons] at hunknown
    obtain ⟨hapart, hbalanced⟩ := hbalance (fun _ => rfl) (fun _ => rfl)
    exact ⟨(Multiset.nodup_cons.mp (hless ▸ hs.nodup)).2, hunknown.2, hapart, hbalanced⟩
  | clearCache ref => exact halone.elim

/-- If no call is made for an identity while one for it is outstanding, the local map mirrors the
table as soon as no call is outstanding. -/
theorem mirrors_alone {hasRoutingTable : Bool} {s : Client}
    (h : Reach step Alone (initial hasRoutingTable) s) (hidle : s.Idle) : s.Mirrors := by
  have hs : Single s := h.invariant
    ⟨Multiset.nodup_zero, fun id hid => absurd hid (Multiset.notMem_zero id),
      fun id hid => absurd hid (Finset.notMem_empty id),
      fun id => by simp [surplus, known, initial]⟩
    fun _ _ _ hs halone hstep => hs.step halone hstep
  have hmirrored (id : References.Identity) :=
    (mirrored_iff hidle hs.apart id).mpr (.inl (hs.balanced id))
  exact ⟨fun id => (hmirrored id).1, Multiset.eq_zero_of_forall_notMem fun id => (hmirrored id).2⟩

/-- Two threads add two proxies. For the second one the router evicts the first one, and this is
handled before the first one is known to be added. -/
def evictedEarly : List Event :=
  [.addProxy (proxyOf [97]), .addProxy (proxyOf [98]), .serve 0 [], .serve 0 [proxyOf [97]],
    .addProxyResponse 1, .addProxyResponse 0]

theorem mirrors_evictedEarly :
    ∃ s, run step (initial true) evictedEarly = some s ∧ s.Idle ∧ s.Mirrors := by
  refine ⟨_, rfl, ⟨rfl, rfl⟩, (@mirrors_iff true evictedEarly _ rfl ⟨rfl, rfl⟩).mpr ?_⟩
  intro id
  left
  by_cases hfirst : (⟨[97], []⟩ : References.Identity) = id
  · subst hfirst
    decide
  · by_cases hsecond : (⟨[98], []⟩ : References.Identity) = id
    · subst hsecond
      decide
    · have hagain : occurrences step (again id) (initial true) evictedEarly = 0 := by
        simp [occurrences, evictedEarly, again, step, initial, RouterInfo.addProxy, Serves,
          tableBehind, identityOf, proxyOf, Reference.base, hfirst, hsecond]
      have hforgotten : occurrences step (forgotten id) (initial true) evictedEarly = 0 := by
        simp [occurrences, evictedEarly, forgotten, step, initial, RouterInfo.addProxy, Serves,
          tableBehind, identityOf, proxyOf, Reference.base, hfirst]
      rw [hagain, hforgotten]

/-- Two threads add the same proxy, and a third one another one, for which the router evicts the
first one. This is handled before the first one is known to be added. -/
def addedTwice : List Event :=
  [.addProxy (proxyOf [97]), .addProxy (proxyOf [97]), .addProxy (proxyOf [98]), .serve 0 [],
    .serve 0 [], .serve 0 [proxyOf [97]], .addProxyResponse 2, .addProxyResponse 0,
    .addProxyResponse 0]

/-- The first of the two answers is taken back, and the second one is not. -/
theorem not_mirrors_addedTwice :
    ¬ ∀ (hasRoutingTable : Bool) (events : List Event) (s : Client),
      run step (initial hasRoutingTable) events = some s → s.Idle → s.Mirrors := by
  intro h
  have hmirrors := h true addedTwice _ rfl ⟨rfl, rfl⟩
  have hin := hmirrors.1
  revert hin
  decide

end Client

/-- A client of a Glacier2 router, and the table of the router -/
structure Session where
  client : Client
  router : RoutingTable

/-- What happens to both: a step of the client alone, a call of `addProxies` that the router serves,
and a request for which it looks up an identity. A call that the router rejects fails at the
client. -/
inductive SessionEvent
  | client (event : Event)
  | serve (call : Nat)
  | lookUp (ident : References.Identity)

namespace Session

def initial (hasRoutingTable : Bool) (maxSize : Nat) : Session :=
  ⟨.initial hasRoutingTable, { maxSize }⟩

def step (verify : Reference → Bool) (s : Session) : SessionEvent → Option Session
  | .client (.serve _ _) => none
  | .client event => (s.client.step event).map fun client => { s with client }
  | .serve call =>
    s.client.sent[call]?.bind fun proxy =>
      match s.router.add verify [some proxy] with
      | (_, none) => none
      | (router, some evicted) =>
        some
          { client :=
              { s.client with
                table := router.ids.toFinset
                sent := s.client.sent.eraseIdx call
                served := s.client.served ++ [(proxy, evicted)] }
            router }
  | .lookUp ident => some { s with router := (s.router.get ident).1 }

/-- The call of its table that a router makes for an event -/
def calls (s : Session) : SessionEvent → List RoutingTable.Call
  | .client _ => []
  | .serve call => (s.client.sent[call]?.map fun proxy => .add [some proxy]).toList
  | .lookUp ident => [.get ident]

/-- The runs, with the calls that the router makes in them -/
inductive Runs (verify : Reference → Bool) (s₀ : Session) : List RoutingTable.Call → Session → Prop
  | refl : Runs verify s₀ [] s₀
  | tail {calls : List RoutingTable.Call} {s s' : Session} (event : SessionEvent) :
      Runs verify s₀ calls s → s.step verify event = some s' →
      Runs verify s₀ (calls ++ s.calls event) s'

/-- A request changes the order of the table, and nothing else. -/
theorem toFinset_get {t : RoutingTable} (h : t.Valid) (ident : References.Identity) :
    (t.get ident).1.ids.toFinset = t.ids.toFinset := by
  unfold RoutingTable.get
  split
  · rfl
  · split
    · rfl
    · rename_i entry hfound
      have hmem : ident ∈ t.ids := h.linked.mem_ids.mpr ⟨entry, h.linked.lookup_iff.mp hfound⟩
      ext id
      rw [List.mem_toFinset, (h.requeue hfound).2, mem_used, List.mem_toFinset]
      constructor
      · rintro (hid | rfl)
        · exact hid
        · exact hmem
      · exact .inl

/-- The two together do what each of them does alone, and what the client takes for the table of
its router is that table. -/
theorem components_of_runs {verify : Reference → Bool} {hasRoutingTable : Bool} {maxSize : Nat}
    {called : List RoutingTable.Call} {s : Session}
    (h : Runs verify (initial hasRoutingTable maxSize) called s) :
    Reach Client.step Any (.initial hasRoutingTable) s.client ∧
      s.router = RoutingTable.run verify maxSize called ∧
      s.client.table = s.router.ids.toFinset := by
  induction h with
  | refl => exact ⟨.refl, rfl, rfl⟩
  | @tail called s s' event _ hs ih =>
    obtain ⟨hreach, hrun, htable⟩ := ih
    have hvalid := (recent_run verify maxSize called).valid
    rw [← hrun] at hvalid
    have hcalls (c : RoutingTable.Call) :
        s.router.step verify c = RoutingTable.run verify maxSize (called ++ [c]) := by
      simp [hrun, RoutingTable.run]
    cases event with
    | client event =>
      cases event with
      | serve => cases hs
      | _ =>
        simp only [step, Option.map_eq_some_iff] at hs
        obtain ⟨client, hclient, rfl⟩ := hs
        refine ⟨hreach.tail trivial hclient, by simpa [calls] using hrun, ?_⟩
        rw [← htable]
        revert hclient
        simp only [Client.step, Option.map_eq_some_iff]
        grind
    | serve call =>
      obtain ⟨proxy, hproxy, hserve⟩ := Option.bind_eq_some_iff.mp hs
      have hcalled : s.calls (.serve call) = [.add [some proxy]] := by
        unfold calls
        dsimp only
        rw [hproxy]
        rfl
      rcases hadd : s.router.add verify [some proxy] with ⟨router, _ | evicted⟩
      · rw [hadd] at hserve
        cases hserve
      · rw [hadd] at hserve
        cases Option.some.inj hserve
        have hverify : verify proxy = true := by
          by_contra hnot
          have hrejected := rejected_of_mem (List.mem_singleton_self _)
            (Bool.eq_false_of_not_eq_true hnot)
          have hnone := add_rejected hrejected s.router
          rw [hadd] at hnone
          cases hnone
        obtain ⟨_, heq, hserves, hbehind⟩ := serves_add hvalid hverify
        have hadded := hcalls (.add [some proxy])
        unfold RoutingTable.step at hadded
        dsimp only at hadded
        rw [hadd] at heq hbehind hadded
        cases heq
        refine ⟨hreach.tail (l := .serve call evicted) trivial ?_,
          by rw [hcalled]; exact hadded, rfl⟩
        unfold Client.step
        dsimp only
        rw [hproxy, hbehind, ← htable]
        exact if_pos (htable ▸ hserves)
    | lookUp ident =>
      cases Option.some.inj hs
      exact ⟨hreach, hcalls (.get ident), htable.trans (toFinset_get hvalid ident).symm⟩

/-- A router of one entry evicts the first proxy of a client for the second one. -/
theorem components_of_runs_evicted : ∃ s : Session, s.client.info.evictedIdentities ≠ 0 ∧
    Reach Client.step Any (.initial true) s.client ∧
    s.router = RoutingTable.run (fun _ => true) 1
      [.add [some (proxyOf [97])], .add [some (proxyOf [98])]] ∧
    s.client.table = s.router.ids.toFinset := by
  have hruns : ∃ s : Session, s.client.info.evictedIdentities ≠ 0 ∧ Runs (fun _ => true)
      (initial true 1) [.add [some (proxyOf [97])], .add [some (proxyOf [98])]] s := by
    have hadded : Runs (fun _ => true) (initial true 1) [] _ :=
      Runs.tail (.client (.addProxy (proxyOf [97]))) .refl rfl
    have hadded := Runs.tail (.client (.addProxy (proxyOf [98]))) hadded rfl
    have hserved := Runs.tail (.serve 0) hadded rfl
    have hserved := Runs.tail (.serve 0) hserved rfl
    have hanswered := Runs.tail (.client (.addProxyResponse 1)) hserved rfl
    exact ⟨_, by decide, hanswered⟩
  obtain ⟨s, hevicted, hs⟩ := hruns
  exact ⟨s, hevicted, components_of_runs hs⟩

end Session

end Ice.Router
