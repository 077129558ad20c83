import Ice.Lib.Recency
import Ice.Glacier2.Lists

/-!
# The routing table of a router

The table holds the proxies that were used last. The map from identities to entries and the queue
of the evictor hold iterators into each other: an iterator of the map is the identity of the entry,
one of the queue is a number that no other element of the queue has or had.
-/

namespace Ice.Glacier2

open Lib References
open List (length_cons length_map map_append map_cons map_map mem_append mem_cons mem_filter mem_map
  mem_singleton nodup_cons)

structure EvictorEntry where
  proxy : Reference
  pos : Nat

/-- `RoutingTable`; the order of the map is not looked at. -/
structure RoutingTable where
  maxSize : Nat
  map : List (Identity × EvictorEntry) := []
  queue : List (Nat × Identity) := []
  /-- The number of the next element of the queue -/
  next : Nat := 0

/-- `ice_twoway()->ice_secure(false)->ice_facet("")` -/
def defaultForm : Reference → Reference
  | .fixed base connection =>
    .fixed { base with mode := .twoway, secure := false, facet := [] } connection
  | .routable base routing router locator =>
    .routable { base with mode := .twoway, secure := false, facet := [] } routing router locator

/-- `ice_getIdentity` -/
def identityOf (proxy : Reference) : Identity := proxy.base.identity

@[simp]
theorem identityOf_defaultForm (proxy : Reference) :
    identityOf (defaultForm proxy) = identityOf proxy := by
  cases proxy <;> rfl

namespace RoutingTable

/-- The first loop of `add`: null proxies are ignored, the others are put in default form; nothing
if the verifier rejects one. -/
def prescan (verify : Reference → Bool) : List (Option Reference) → Option (List Reference)
  | [] => some []
  | none :: unfiltered => prescan verify unfiltered
  | some proxy :: unfiltered =>
    if verify proxy then (prescan verify unfiltered).map (defaultForm proxy :: ·) else none

/-- A new entry is put at the end of the queue. -/
def insert (t : RoutingTable) (proxy : Reference) : RoutingTable :=
  { t with
    map := (identityOf proxy, ⟨proxy, t.next⟩) :: t.map
    queue := t.queue ++ [(t.next, identityOf proxy)]
    next := t.next + 1 }

/-- The entry of an identity gets another iterator. -/
def setPos (id : Identity) (pos : Nat) (p : Identity × EvictorEntry) : Identity × EvictorEntry :=
  if p.1 = id then (p.1, { p.2 with pos := pos }) else p

/-- The element of the queue of an entry is erased, and a new one is put at the end. -/
def requeue (t : RoutingTable) (id : Identity) (entry : EvictorEntry) : RoutingTable :=
  { t with
    map := t.map.map (setPos id t.next)
    queue := t.queue.filter (·.1 ≠ entry.pos) ++ [(t.next, id)]
    next := t.next + 1 }

/-- The inner loop of `add`, for what is left of the queue -/
def evict (maxSize : Nat) : List (Nat × Identity) → List (Identity × EvictorEntry) →
    List (Nat × Identity) × List (Identity × EvictorEntry) × List Reference
  | [], map => ([], map, [])
  | (pos, id) :: queue, map =>
    if maxSize < map.length then
      let (queue, map', evicted) := evict maxSize queue (map.filter (·.1 ≠ id))
      (queue, map', ((map.lookup id).map (·.proxy)).toList ++ evicted)
    else ((pos, id) :: queue, map, [])

/-- The second loop of `add` for one proxy -/
def addOne (t : RoutingTable) (proxy : Reference) : RoutingTable × List Reference :=
  let t :=
    match t.map.lookup (identityOf proxy) with
    | none => t.insert proxy
    | some entry => t.requeue (identityOf proxy) entry
  let (queue, map, evicted) := evict t.maxSize t.queue t.map
  ({ t with queue := queue, map := map }, evicted)

/-- The second loop of `add` -/
def addAll (t : RoutingTable) : List Reference → RoutingTable × List Reference
  | [] => (t, [])
  | proxy :: proxies =>
    let (t, evicted) := t.addOne proxy
    let (t, more) := t.addAll proxies
    (t, evicted ++ more)

/-- `add`; there is no result where `ObjectNotExistException` is thrown. -/
def add (verify : Reference → Bool) (t : RoutingTable) (unfiltered : List (Option Reference)) :
    RoutingTable × Option (List Reference) :=
  match prescan verify unfiltered with
  | none => (t, none)
  | some proxies =>
    let (t, evicted) := t.addAll proxies
    (t, some evicted)

/-- `get`; a null proxy is no result. -/
def get (t : RoutingTable) (ident : Identity) : RoutingTable × Option Reference :=
  if ident.name = [] then (t, none)
  else
    match t.map.lookup ident with
    | none => (t, none)
    | some entry => (t.requeue ident entry, some entry.proxy)

/-- What a table is asked for. -/
inductive Call
  | add (unfiltered : List (Option Reference))
  | get (ident : Identity)

def step (verify : Reference → Bool) (t : RoutingTable) : Call → RoutingTable
  | .add unfiltered => (t.add verify unfiltered).1
  | .get ident => (t.get ident).1

/-- The identities in the table, in the order of the queue -/
def ids (t : RoutingTable) : List Identity := t.queue.map (·.2)

/-- The map and the queue hold the same entries exactly once, each entry with the iterator of its
element of the queue. -/
structure Linked (map : List (Identity × EvictorEntry)) (queue : List (Nat × Identity)) : Prop where
  keys : (map.map (·.1)).Nodup
  positions : (queue.map (·.1)).Nodup
  linked : ∀ pos id, (pos, id) ∈ queue ↔ ∃ entry, (id, entry) ∈ map ∧ entry.pos = pos
  named : ∀ p ∈ map, identityOf p.2.proxy = p.1

section

variable {map : List (Identity × EvictorEntry)} {queue : List (Nat × Identity)} {id : Identity}
  {entry : EvictorEntry} {pos : Nat}

section

variable (h : Linked map queue)

include h

theorem Linked.lookup_iff :
    map.lookup id = some entry ↔ (id, entry) ∈ map := by
  have hkeys := h.keys
  clear h
  induction map with
  | nil => simp
  | cons p map ih =>
    obtain ⟨key, value⟩ := p
    rw [map_cons, nodup_cons] at hkeys
    rw [List.lookup_cons]
    by_cases hid : id = key
    · rw [hid, beq_self_eq_true]
      dsimp only
      rw [mem_cons]
      constructor
      · intro heq
        rw [Option.some.inj heq]
        exact .inl rfl
      · rintro (heq | hmem)
        · rw [(Prod.mk.inj heq).2]
        · exact absurd (List.mem_map_of_mem hmem) hkeys.1
    · rw [beq_false_of_ne hid]
      dsimp only
      rw [mem_cons]
      refine (ih hkeys.2).trans ?_
      constructor
      · exact .inr
      · rintro (heq | hmem)
        · exact absurd (Prod.mk.inj heq).1 hid
        · exact hmem

theorem Linked.entry_eq {entry' : EvictorEntry} (hentry : (id, entry) ∈ map)
    (hentry' : (id, entry') ∈ map) : entry = entry' := by
  rw [← h.lookup_iff] at hentry hentry'
  exact Option.some.inj (hentry.symm.trans hentry')

theorem Linked.mem_ids :
    id ∈ queue.map (·.2) ↔ ∃ entry, (id, entry) ∈ map := by
  constructor
  · intro hid
    obtain ⟨⟨pos, _⟩, hmem, rfl⟩ := mem_map.mp hid
    obtain ⟨entry, hentry, _⟩ := (h.linked _ _).mp hmem
    exact ⟨entry, hentry⟩
  · rintro ⟨entry, hentry⟩
    exact List.mem_map_of_mem ((h.linked entry.pos id).mpr ⟨entry, hentry, rfl⟩)

theorem Linked.nodup_ids : (queue.map (·.2)).Nodup := by
  apply List.Nodup.map_on _ (List.Nodup.of_map _ h.positions)
  rintro ⟨pos, id⟩ hp ⟨pos', id'⟩ hp' heq
  cases (show id = id' from heq)
  obtain ⟨entry, hentry, rfl⟩ := (h.linked _ _).mp hp
  obtain ⟨entry', hentry', rfl⟩ := (h.linked _ _).mp hp'
  rw [h.entry_eq hentry hentry']

theorem Linked.length_eq : map.length = queue.length := by
  have hperm : (map.map (·.1)).Perm (queue.map (·.2)) := by
    rw [List.perm_ext_iff_of_nodup h.keys h.nodup_ids]
    intro id
    rw [h.mem_ids]
    simp
  have hlength := hperm.length_eq
  rwa [length_map, length_map] at hlength

/-- An element of the queue is that of an entry if it has the iterator of the entry. -/
theorem Linked.pos_iff (hentry : (id, entry) ∈ map) {p : Nat × Identity}
    (hp : p ∈ queue) : p.1 = entry.pos ↔ p.2 = id := by
  obtain ⟨pos, id'⟩ := p
  constructor
  · rintro rfl
    have hmem := (h.linked _ _).mpr ⟨entry, hentry, rfl⟩
    have heq := List.inj_on_of_nodup_map h.positions hp hmem rfl
    exact congrArg Prod.snd heq
  · rintro rfl
    obtain ⟨entry', hentry', hpos⟩ := (h.linked _ _).mp hp
    rw [← hpos, h.entry_eq hentry' hentry]

theorem Linked.insert {proxy : Reference}
    (hnew : map.lookup (identityOf proxy) = none) (hfresh : ∀ p ∈ queue, p.1 < pos) :
    Linked ((identityOf proxy, ⟨proxy, pos⟩) :: map) (queue ++ [(pos, identityOf proxy)]) := by
  have hnot (entry : EvictorEntry) : (identityOf proxy, entry) ∉ map := by
    intro hmem
    rw [← h.lookup_iff, hnew] at hmem
    cases hmem
  refine ⟨?_, ?_, ?_, ?_⟩
  · rw [map_cons, nodup_cons]
    refine ⟨?_, h.keys⟩
    intro hmem
    obtain ⟨⟨_, entry⟩, hp, rfl⟩ := mem_map.mp hmem
    exact hnot entry hp
  · rw [map_append]
    apply List.Nodup.append h.positions (List.nodup_singleton _)
    intro n hn hpos
    obtain ⟨p, hp, rfl⟩ := mem_map.mp hn
    have hlt := hfresh p hp
    have heq := mem_singleton.mp hpos
    dsimp only at heq
    omega
  · intro n id
    rw [mem_append, h.linked, mem_singleton]
    constructor
    · rintro (⟨entry, hentry, rfl⟩ | heq)
      · exact ⟨entry, List.mem_cons_of_mem _ hentry, rfl⟩
      · obtain ⟨rfl, rfl⟩ := Prod.mk.inj heq
        exact ⟨_, List.mem_cons_self, rfl⟩
    · rintro ⟨entry, hentry, rfl⟩
      rcases mem_cons.mp hentry with heq | hmem
      · obtain ⟨rfl, rfl⟩ := Prod.mk.inj heq
        exact .inr rfl
      · exact .inl ⟨entry, hmem, rfl⟩
  · intro p hp
    rcases mem_cons.mp hp with rfl | hmem
    · rfl
    · exact h.named p hmem

end

theorem setPos_fst (p : Identity × EvictorEntry) : (setPos id pos p).1 = p.1 := by
  unfold setPos
  split <;> rfl

section

variable (h : Linked map queue)

include h

theorem Linked.requeue (hentry : (id, entry) ∈ map)
    (hfresh : ∀ p ∈ queue, p.1 < pos) :
    Linked (map.map (setPos id pos)) (queue.filter (·.1 ≠ entry.pos) ++ [(pos, id)]) := by
  refine ⟨?_, ?_, ?_, ?_⟩
  · rw [map_map]
    have hfst : (·.1) ∘ setPos id pos = (·.1) := funext setPos_fst
    rw [hfst]
    exact h.keys
  · rw [map_append]
    apply List.Nodup.append
    · exact h.positions.sublist (List.filter_sublist.map _)
    · exact List.nodup_singleton _
    · intro n hn hpos
      obtain ⟨p, hp, rfl⟩ := mem_map.mp hn
      have hlt := hfresh p (List.mem_of_mem_filter hp)
      have heq := mem_singleton.mp hpos
      dsimp only at heq
      omega
  · intro n id'
    rw [mem_append, mem_filter, mem_singleton]
    constructor
    · rintro (⟨hmem, hne⟩ | heq)
      · have hne' : n ≠ entry.pos := by simpa using hne
        have hid : id' ≠ id := fun hid => hne' ((h.pos_iff hentry hmem).mpr hid)
        obtain ⟨entry', hentry', hpos⟩ := (h.linked _ _).mp hmem
        refine ⟨entry', ?_, hpos⟩
        rw [mem_map]
        exact ⟨_, hentry', if_neg hid⟩
      · obtain ⟨rfl, rfl⟩ := Prod.mk.inj heq
        refine ⟨{ entry with pos := n }, ?_, rfl⟩
        rw [mem_map]
        exact ⟨_, hentry, if_pos rfl⟩
    · rintro ⟨entry', hentry', hpos⟩
      obtain ⟨⟨id'', entry''⟩, hp, heq⟩ := mem_map.mp hentry'
      unfold setPos at heq
      split at heq
      · rename_i hid
        obtain ⟨rfl, rfl⟩ := Prod.mk.inj heq
        right
        rw [← hpos]
        exact Prod.ext rfl hid
      · rename_i hid
        obtain ⟨rfl, rfl⟩ := Prod.mk.inj heq
        left
        have hmem := (h.linked n _).mpr ⟨_, hp, hpos⟩
        refine ⟨hmem, ?_⟩
        have hne : n ≠ entry.pos := fun hn => hid ((h.pos_iff hentry hmem).mp hn)
        simpa using hne
  · intro p hp
    obtain ⟨q, hq, rfl⟩ := mem_map.mp hp
    rw [setPos_fst]
    unfold setPos
    split
    · exact h.named q hq
    · exact h.named q hq

theorem ids_requeue (hentry : (id, entry) ∈ map) :
    (queue.filter (·.1 ≠ entry.pos) ++ [(pos, id)]).map (·.2) = used (queue.map (·.2)) id := by
  unfold used
  rw [map_append, List.filter_map]
  congr 2
  apply List.filter_congr
  intro p hp
  have hiff := h.pos_iff hentry hp
  simp [hiff]

theorem ids_insert (hnew : map.lookup id = none) :
    (queue ++ [(pos, id)]).map (·.2) = used (queue.map (·.2)) id := by
  unfold used
  rw [map_append, List.filter_eq_self.mpr]
  · rfl
  · intro x hx
    have hne : x ≠ id := by
      rintro rfl
      obtain ⟨entry, hentry⟩ := h.mem_ids.mp hx
      rw [← h.lookup_iff, hnew] at hentry
      cases hentry
    simpa using hne

end

/-- The entry at the front of the queue is taken out of both. -/
theorem Linked.tail (h : Linked map ((pos, id) :: queue)) :
    Linked (map.filter (·.1 ≠ id)) queue := by
  have hpositions := h.positions
  rw [map_cons, nodup_cons] at hpositions
  have hids := h.nodup_ids
  rw [map_cons, nodup_cons] at hids
  refine ⟨?_, hpositions.2, ?_, ?_⟩
  · exact h.keys.sublist (List.filter_sublist.map _)
  · intro n x
    have hlinked := h.linked n x
    rw [mem_cons] at hlinked
    constructor
    · intro hmem
      obtain ⟨entry, hentry, hpos⟩ := hlinked.mp (.inr hmem)
      refine ⟨entry, ?_, hpos⟩
      rw [mem_filter]
      have hne : x ≠ id := by
        rintro rfl
        exact hids.1 (mem_map.mpr ⟨_, hmem, rfl⟩)
      exact ⟨hentry, by simpa using hne⟩
    · rintro ⟨entry, hentry, hpos⟩
      obtain ⟨hmem, hne⟩ := mem_filter.mp hentry
      rcases hlinked.mpr ⟨entry, hmem, hpos⟩ with heq | hqueue
      · rw [(Prod.mk.inj heq).2] at hne
        simp at hne
      · exact hqueue
  · intro p hp
    exact h.named p (List.mem_of_mem_filter hp)

/-- The entries used last are kept, the proxies of the others are returned. -/
theorem evict_spec (maxSize : Nat) (h : Linked map queue) :
    Linked (evict maxSize queue map).2.1 (evict maxSize queue map).1 ∧
      (evict maxSize queue map).1.map (·.2) = (queue.map (·.2)).rtake maxSize ∧
      (evict maxSize queue map).2.2.map identityOf = (queue.map (·.2)).rdrop maxSize ∧
      ∀ p ∈ (evict maxSize queue map).1, p ∈ queue := by
  induction queue generalizing map with
  | nil =>
    refine ⟨h, ?_, ?_, ?_⟩
    · simp [evict, List.rtake]
    · simp [evict, List.rdrop]
    · exact fun p hp => hp
  | cons p queue ih =>
    obtain ⟨pos, id⟩ := p
    have hlength := h.length_eq
    rw [length_cons] at hlength
    unfold evict
    by_cases hmax : maxSize < map.length
    · rw [if_pos hmax]
      obtain ⟨hlinked, hkept, hevicted, hsub⟩ := ih h.tail
      obtain ⟨entry, hentry, _⟩ := (h.linked pos id).mp List.mem_cons_self
      have hfound := h.lookup_iff.mpr hentry
      have hname : identityOf entry.proxy = id := h.named _ hentry
      have hle : maxSize ≤ (queue.map (·.2)).length := by
        rw [length_map]
        omega
      refine ⟨hlinked, ?_, ?_, ?_⟩
      · rw [hkept, map_cons]
        exact (rtake_append_of_le (a := [id]) hle).symm
      · have hcount : (id :: queue.map (·.2)).length - maxSize =
            (queue.map (·.2)).length - maxSize + 1 := by
          rw [length_cons]
          omega
        dsimp only
        rw [map_append, hevicted, hfound, map_cons, List.rdrop, List.rdrop, hcount,
          List.take_succ_cons, ← hname]
        rfl
      · intro p hp
        exact List.mem_cons_of_mem _ (hsub p hp)
    · rw [if_neg hmax]
      have hle : (((pos, id) :: queue).map (·.2)).length ≤ maxSize := by
        rw [length_map, length_cons]
        omega
      refine ⟨h, ?_, ?_, ?_⟩
      · rw [rtake_of_length_le hle]
      · rw [List.rdrop, Nat.sub_eq_zero_of_le hle, List.take_zero]
        rfl
      · exact fun p hp => hp

end

/-- The map and the queue hold the same entries, and the next number is not in use. -/
structure Valid (t : RoutingTable) : Prop where
  linked : Linked t.map t.queue
  fresh : ∀ p ∈ t.queue, p.1 < t.next

variable {t : RoutingTable} {unfiltered : List (Option Reference)} {verify : Reference → Bool}

section

variable (h : t.Valid)

include h

theorem Valid.nodup_ids : t.ids.Nodup :=
  h.linked.nodup_ids

theorem Valid.length_eq : t.map.length = t.ids.length := by
  unfold ids
  rw [length_map]
  exact h.linked.length_eq

theorem Valid.lookup_none {id : Identity} (hnone : t.map.lookup id = none) :
    id ∉ t.ids := by
  intro hid
  obtain ⟨entry, hentry⟩ := h.linked.mem_ids.mp hid
  rw [← h.linked.lookup_iff, hnone] at hentry
  cases hentry

theorem Valid.insert {proxy : Reference}
    (hnew : t.map.lookup (identityOf proxy) = none) : (t.insert proxy).Valid := by
  constructor
  · exact h.linked.insert hnew h.fresh
  · intro p hp
    rcases mem_append.mp hp with hold | hnew
    · exact Nat.lt_succ_of_lt (h.fresh p hold)
    · rw [mem_singleton.mp hnew]
      exact Nat.lt_succ_self _

theorem Valid.requeue {id : Identity} {entry : EvictorEntry}
    (hfound : t.map.lookup id = some entry) :
    (t.requeue id entry).Valid ∧ (t.requeue id entry).ids = used t.ids id := by
  have hentry := h.linked.lookup_iff.mp hfound
  refine ⟨⟨h.linked.requeue hentry h.fresh, ?_⟩, ids_requeue h.linked hentry⟩
  intro p hp
  rcases mem_append.mp hp with hold | hnew
  · exact Nat.lt_succ_of_lt (h.fresh p (List.mem_of_mem_filter hold))
  · rw [mem_singleton.mp hnew]
    exact Nat.lt_succ_self _

/-- The identity of the proxy is used, and what was used before the last ones is returned. -/
theorem addOne_spec (proxy : Reference) :
    (t.addOne proxy).1.Valid ∧ (t.addOne proxy).1.maxSize = t.maxSize ∧
      (t.addOne proxy).1.ids = (used t.ids (identityOf proxy)).rtake t.maxSize ∧
      (t.addOne proxy).2.map identityOf = (used t.ids (identityOf proxy)).rdrop t.maxSize := by
  have hevict {t' : RoutingTable} (hvalid : t'.Valid) := evict_spec t.maxSize hvalid.linked
  unfold addOne
  cases hfound : t.map.lookup (identityOf proxy) with
  | none =>
    have hvalid := h.insert hfound
    have hids : (t.insert proxy).ids = used t.ids (identityOf proxy) :=
      ids_insert h.linked hfound
    obtain ⟨hlinked, hkept, hevicted, hsub⟩ := hevict hvalid
    rw [← hids]
    exact ⟨⟨hlinked, fun p hp => hvalid.fresh p (hsub p hp)⟩, rfl, hkept, hevicted⟩
  | some entry =>
    obtain ⟨hvalid, hids⟩ := h.requeue hfound
    obtain ⟨hlinked, hkept, hevicted, hsub⟩ := hevict hvalid
    rw [← hids]
    exact ⟨⟨hlinked, fun p hp => hvalid.fresh p (hsub p hp)⟩, rfl, hkept, hevicted⟩

theorem addAll_spec {l : List Identity} (hids : t.ids = recent t.maxSize l)
    (proxies : List Reference) :
    (t.addAll proxies).1.Valid ∧ (t.addAll proxies).1.maxSize = t.maxSize ∧
      (t.addAll proxies).1.ids = recent t.maxSize (l ++ proxies.map identityOf) ∧
      (t.addAll proxies).2.map identityOf =
        dropped t.maxSize t.ids (proxies.map identityOf) := by
  induction proxies generalizing t l with
  | nil =>
    refine ⟨h, rfl, ?_, rfl⟩
    rw [List.map_nil, List.append_nil]
    exact hids
  | cons proxy proxies ih =>
    obtain ⟨hvalid, hmax, hone, hevicted⟩ := addOne_spec h proxy
    have hrecent : (t.addOne proxy).1.ids =
        recent (t.addOne proxy).1.maxSize (l ++ [identityOf proxy]) := by
      rw [hmax, recent_snoc, ← hids, hone]
    obtain ⟨hvalid', hmax', hall, hmore⟩ := ih hvalid hrecent
    unfold addAll
    refine ⟨hvalid', hmax'.trans hmax, ?_, ?_⟩
    · rw [hmax, List.append_assoc] at hall
      exact hall
    · rw [hmax, hone] at hmore
      rw [map_append, hevicted, hmore]
      rfl

end

/-- The proxies of a list that are not null -/
def present (unfiltered : List (Option Reference)) : List Reference := unfiltered.filterMap id

theorem prescan_eq (verify : Reference → Bool) (unfiltered : List (Option Reference)) :
    prescan verify unfiltered =
      if (present unfiltered).all verify then some ((present unfiltered).map defaultForm)
      else none := by
  induction unfiltered with
  | nil => rfl
  | cons proxy unfiltered ih =>
    cases proxy with
    | none => exact ih
    | some proxy =>
      have hcons : present (some proxy :: unfiltered) = proxy :: present unfiltered := rfl
      rw [prescan, ih, hcons, List.all_cons]
      by_cases hproxy : verify proxy
      · by_cases hall : (present unfiltered).all verify
        · simp [hproxy, hall]
        · simp [hproxy, hall]
      · simp [hproxy]

/-- The identities that are named by a list that is added -/
def named (unfiltered : List (Option Reference)) : List Identity :=
  (present unfiltered).map identityOf

/-- The table behind the calls that were made -/
def run (verify : Reference → Bool) (maxSize : Nat) (calls : List Call) : RoutingTable :=
  calls.foldl (step verify) { maxSize := maxSize }

/-- The identities that are used by one more call: all that are added if none is rejected, and the
one that is asked for if it is among those used last. -/
def use (verify : Reference → Bool) (maxSize : Nat) (uses : List Identity) : Call → List Identity
  | .add unfiltered =>
    if (present unfiltered).all verify then uses ++ named unfiltered else uses
  | .get ident =>
    if ident.name ≠ [] ∧ ident ∈ recent maxSize uses then uses ++ [ident] else uses

/-- The identities that were used by the calls, one after the other -/
def history (verify : Reference → Bool) (maxSize : Nat) (calls : List Call) : List Identity :=
  calls.foldl (use verify maxSize) []

/-- The table holds the identities that were used last. -/
structure Recent (t : RoutingTable) (maxSize : Nat) (uses : List Identity) : Prop where
  valid : t.Valid
  size : t.maxSize = maxSize
  ids : t.ids = recent maxSize uses

theorem add_accepted (h : (present unfiltered).all verify) (t : RoutingTable) :
    t.add verify unfiltered =
      ((t.addAll ((present unfiltered).map defaultForm)).1,
        some (t.addAll ((present unfiltered).map defaultForm)).2) := by
  unfold add
  rw [prescan_eq, if_pos h]

theorem add_rejected (h : ¬ (present unfiltered).all verify) (t : RoutingTable) :
    t.add verify unfiltered = (t, none) := by
  unfold add
  rw [prescan_eq, if_neg h]

theorem named_eq (unfiltered : List (Option Reference)) :
    ((present unfiltered).map defaultForm).map identityOf = named unfiltered := by
  unfold named
  rw [map_map]
  congr 1
  exact funext identityOf_defaultForm

section

variable {verify : Reference → Bool} {maxSize : Nat} {uses : List Identity} {t : RoutingTable}

section

variable (h : t.Recent maxSize uses)

include h

theorem Recent.add {unfiltered : List (Option Reference)}
    (hall : (present unfiltered).all verify) :
    (t.add verify unfiltered).1.Recent maxSize (uses ++ named unfiltered) ∧
      ∃ evicted, (t.add verify unfiltered).2 = some evicted ∧
        evicted.map identityOf = dropped maxSize t.ids (named unfiltered) := by
  obtain ⟨hvalid, rfl, hids⟩ := h
  have hspec := addAll_spec hvalid hids ((present unfiltered).map defaultForm)
  rw [named_eq] at hspec
  obtain ⟨hvalid', hsize', hids', hevicted⟩ := hspec
  rw [add_accepted hall]
  exact ⟨⟨hvalid', hsize', hids'⟩, _, rfl, hevicted⟩

/-- An identity that is asked for is used where it is found, and none is lost. -/
theorem Recent.get (ident : Identity) :
    (t.get ident).1.Recent maxSize (use verify maxSize uses (.get ident)) := by
  unfold RoutingTable.get use
  dsimp only
  by_cases hname : ident.name = []
  · rw [if_pos hname, if_neg (fun hand => hand.1 hname)]
    exact h
  · rw [if_neg hname]
    cases hfound : t.map.lookup ident with
    | none =>
      have hnot := h.valid.lookup_none hfound
      rw [h.ids] at hnot
      rw [if_neg (fun hand => hnot hand.2)]
      exact h
    | some entry =>
      have hmem : ident ∈ t.ids :=
        h.valid.linked.mem_ids.mpr ⟨entry, h.valid.linked.lookup_iff.mp hfound⟩
      obtain ⟨hvalid, hids⟩ := h.valid.requeue hfound
      have hused := length_used_of_mem h.valid.nodup_ids hmem
      have hlength := length_recent_le maxSize uses
      rw [← h.ids] at hlength
      rw [h.ids] at hmem
      rw [if_pos ⟨hname, hmem⟩]
      refine ⟨hvalid, h.size, ?_⟩
      rw [recent_snoc, ← h.ids, hids, rtake_of_length_le]
      omega

theorem Recent.step (call : Call) :
    (t.step verify call).Recent maxSize (use verify maxSize uses call) := by
  cases call with
  | add unfiltered =>
    unfold RoutingTable.step use
    dsimp only
    by_cases hall : (present unfiltered).all verify
    · rw [if_pos hall]
      exact (h.add hall).1
    · rw [if_neg hall, add_rejected hall]
      exact h
  | get ident => exact h.get ident

end

end

theorem recent_foldl {maxSize : Nat} {uses : List Identity} (h : t.Recent maxSize uses)
    (calls : List Call) :
    (calls.foldl (step verify) t).Recent maxSize (calls.foldl (use verify maxSize) uses) := by
  induction calls generalizing t uses with
  | nil => exact h
  | cons call calls ih => exact ih (h.step call)

/-- The table behind any calls holds the identities that were used last. -/
theorem recent_run (verify : Reference → Bool) (maxSize : Nat) (calls : List Call) :
    (run verify maxSize calls).Recent maxSize (history verify maxSize calls) := by
  apply recent_foldl
  have hlinked : Linked [] [] := ⟨List.nodup_nil, List.nodup_nil, by simp, by simp⟩
  refine ⟨⟨hlinked, ?_⟩, rfl, ?_⟩
  · intro p hp
    cases hp
  · simp [ids, recent, List.rtake]

/-- The table behind some calls: the map and the queue hold the same entries, which are those used
last and not too many. Behind a list that is added then: the table is as it was if a proxy is
rejected, and otherwise the identities that are returned are those of the table and of the list
that are not in the table any more. -/
structure Faithful (verify : Reference → Bool) (maxSize : Nat) (calls : List Call)
    (unfiltered : List (Option Reference)) : Prop where
  linked : Linked (run verify maxSize calls).map (run verify maxSize calls).queue
  used : (run verify maxSize calls).ids = recent maxSize (history verify maxSize calls)
  bounded : (run verify maxSize calls).map.length ≤ maxSize
  rejected : ∀ proxy, some proxy ∈ unfiltered → verify proxy = false →
    (run verify maxSize calls).add verify unfiltered = (run verify maxSize calls, none)
  returned : ∀ evicted, ((run verify maxSize calls).add verify unfiltered).2 = some evicted →
    ∀ id, id ∈ evicted.map identityOf ↔
      (id ∈ (run verify maxSize calls).ids ∨ id ∈ named unfiltered) ∧
        id ∉ (run verify maxSize (calls ++ [.add unfiltered])).ids

theorem run_add (verify : Reference → Bool) (maxSize : Nat) (calls : List Call)
    (unfiltered : List (Option Reference)) :
    run verify maxSize (calls ++ [.add unfiltered]) =
      ((run verify maxSize calls).add verify unfiltered).1 := by
  unfold run
  rw [List.foldl_append]
  rfl

theorem rejected_of_mem {proxy : Reference} (hmem : some proxy ∈ unfiltered)
    (hproxy : verify proxy = false) : ¬ (present unfiltered).all verify := by
  intro hall
  have hpresent : proxy ∈ present unfiltered :=
    List.mem_filterMap.mpr ⟨some proxy, hmem, rfl⟩
  have htrue := List.all_eq_true.mp hall proxy hpresent
  rw [hproxy] at htrue
  cases htrue

/-- What is returned by an add is exactly what is not in the table any more, unless a proxy that
is evicted in the course of the add is added again later on in the list and kept. -/
theorem faithful_iff {maxSize : Nat} (hmax : 0 < maxSize) (verify : Reference → Bool)
    (calls : List Call) (unfiltered : List (Option Reference)) :
    Faithful verify maxSize calls unfiltered ↔
      ((present unfiltered).all verify →
        ∀ id, Displaced maxSize ((run verify maxSize calls).ids ++ named unfiltered) id →
          id ∉ recent maxSize ((run verify maxSize calls).ids ++ named unfiltered)) := by
  have hrun := recent_run verify maxSize calls
  have hlength : (run verify maxSize calls).ids.length ≤ maxSize := by
    rw [hrun.ids]
    exact length_recent_le _ _
  have hexact := dropped_exact_iff hmax hrun.valid.nodup_ids hlength (named unfiltered)
  have hreturned : (present unfiltered).all verify → ∃ evicted,
      ((run verify maxSize calls).add verify unfiltered).2 = some evicted ∧
        evicted.map identityOf =
          dropped maxSize (run verify maxSize calls).ids (named unfiltered) ∧
        (run verify maxSize (calls ++ [.add unfiltered])).ids =
          recent maxSize ((run verify maxSize calls).ids ++ named unfiltered) := by
    intro hall
    obtain ⟨hadded, evicted, heq, hevicted⟩ := hrun.add hall
    refine ⟨evicted, heq, hevicted, ?_⟩
    rw [run_add, hadded.ids, hrun.ids, recent_append]
  constructor
  · intro h hall
    obtain ⟨evicted, heq, hevicted, hids⟩ := hreturned hall
    rw [← hexact, ← hevicted, ← hids]
    exact h.returned evicted heq
  · intro h
    refine ⟨hrun.valid.linked, hrun.ids, ?_, ?_, ?_⟩
    · rw [hrun.valid.length_eq]
      exact hlength
    · intro proxy hmem hproxy
      exact add_rejected (rejected_of_mem hmem hproxy) _
    · intro evicted heq
      by_cases hall : (present unfiltered).all verify
      · obtain ⟨evicted', heq', hevicted, hids⟩ := hreturned hall
        cases Option.some.inj (heq.symm.trans heq')
        rw [hevicted, hids]
        exact hexact.mpr (h hall)
      · rw [add_rejected hall] at heq
        cases heq

/-- A proxy of the identity with this name -/
def proxyOf (name : Str) : Reference :=
  .fixed
    { mode := .twoway, secure := false, identity := ⟨name, []⟩, context := [], facet := []
      protocol := ⟨1, 0⟩, encoding := ⟨1, 1⟩, invocationTimeout := -1, overrideCompress := none } 0

/-- A table of two entries gets a third one. -/
theorem faithful_third :
    0 < 2 ∧ Faithful (fun _ => true) 2 [.add [some (proxyOf [97]), none, some (proxyOf [98])]]
      [some (proxyOf [99])] := by
  refine ⟨by decide, (faithful_iff (by decide) _ _ _).mpr ?_⟩
  intro _
  have hids : (run (fun _ => true) 2
      [.add [some (proxyOf [97]), none, some (proxyOf [98])]]).ids ++
        named [some (proxyOf [99])] = [⟨[97], []⟩, ⟨[98], []⟩, ⟨[99], []⟩] := by
    decide
  rw [hids]
  rintro id ⟨a, m, b, heq, hm, hcount⟩ hrecent
  have hlast : id = ⟨[98], []⟩ ∨ id = ⟨[99], []⟩ := by
    have hkept : recent 2 [⟨[97], []⟩, ⟨[98], []⟩, ⟨[99], []⟩] =
        [(⟨[98], []⟩ : Identity), ⟨[99], []⟩] := by
      decide
    rw [hkept] at hrecent
    simpa using hrecent
  have hlength := congrArg List.length heq
  have hmany := hcount.trans (List.dedup_sublist m).length_le
  simp only [List.length_append, length_cons, List.length_nil] at hlength
  have hnil : a = [] := by
    apply List.eq_nil_of_length_eq_zero
    omega
  rw [hnil] at heq
  have hfirst := (List.cons.inj heq).1
  rcases hlast with rfl | rfl
  · cases hfirst
  · cases hfirst

/-- A table of one entry gets another one and then the first one again: the first one is returned,
and it is in the table. -/
theorem not_faithful_again :
    ¬ Faithful (fun _ => true) 1 [.add [some (proxyOf [97])]]
      [some (proxyOf [98]), some (proxyOf [97])] := by
  intro h
  have hreturned := (h.returned _ rfl ⟨[97], []⟩).mp
  revert hreturned
  decide

end RoutingTable

end Ice.Glacier2
