import Mathlib.Algebra.BigOperators.Group.Multiset.Basic
import Mathlib.Algebra.Order.BigOperators.Group.Multiset
import Ice.Lib.Lists
import Ice.Locator.Resolution

/-!
# What is owed to the callers of `getEndpoints`

A callback that is still to be called is owed by a thread, or it waits in a request that is not
answered. Besides, threads hold facts that stay true: a reply that was received, a request that
exists. The thread that answers a request holds its monitor.
-/

namespace Ice.Locator

open Ice.Lib Streams References
open List (mem_append mem_of_getElem?)
open Int (zero_add)
open Multiset (map_add mem_add mem_map mem_singleton singleton_add sum_add sum_nonneg)

/-- What a thread owns. -/
inductive Token
  | owes (call : Nat) (ref : Reference)
  | replied (key : Key) (reply : Reply)
  | requested (n : Nat) (key : Key)
  | closing (n : Nat) (ref : Reference)
  | erased (n : Nat)

abbrev Resource := Multiset Token

namespace Token

/-- What a token says about the state. A callback is owed an answer for a reference that the
replies lead to from the one its caller gave. -/
def Holds (s : State) : Token → Prop
  | owes call ref => ∃ origin, s.calls[call]? = some origin ∧
    Relation.ReflTransGen (Leads s.replies) origin ref
  | replied key reply => (key, reply) ∈ s.replies
  | requested n k => ∃ q, s.requests[n]? = some q ∧ key q.reference = k
  | closing n ref => ∃ q, s.requests[n]? = some q ∧ q.reference = ref
  | erased _ => True

/-- Is the callback of the call owed? -/
def weight (call : Nat) : Token → Int
  | owes call' _ => if call' = call then 1 else 0
  | _ => 0

/-- Is the monitor of the request held? -/
def locks (n : Nat) : Token → Int
  | closing n' _ => if n' = n then 1 else 0
  | erased n' => if n' = n then 1 else 0
  | _ => 0

/-- Tokens that say something and stand for nothing -/
def isFact : Token → Bool
  | replied _ _ => true
  | requested _ _ => true
  | _ => false

end Token

/-- How often a thread owes the callback of a call. -/
def owing (call : Nat) (R : Resource) : Int := (R.map (Token.weight call)).sum

/-- How often the monitor of a request is held. -/
def locking (n : Nat) (R : Resource) : Int := (R.map (Token.locks n)).sum

/-- A callback that may be missing is owed. -/
def owed (callback : Option Nat) (ref : Reference) : Resource :=
  callback.elim 0 fun call => {.owes call ref}

def owedAll (callbacks : List RequestCallback) : Resource :=
  (callbacks.map fun cb => owed cb.callback cb.reference).sum

/-- How often the callback of a call waits in a request. -/
def Request.waiting (call : Nat) (q : Request) : Int :=
  if q.reply.isNone then ((q.callbacks.filterMap (·.callback)).count call : Nat) else 0

def State.waiting (s : State) (call : Nat) : Int := (s.requests.map (Request.waiting call)).sum

/-- How often the callback of a call was called. -/
def State.answered (s : State) (call : Nat) : Nat := (s.answers.map (·.call)).count call

/-- A callback of a request for the key -/
structure RequestCallback.Good (s : State) (k : Key) (cb : RequestCallback) : Prop where
  key : key cb.reference = k
  isIndirect : cb.reference.isIndirect = true
  callback : ∀ call ∈ cb.callback, Token.Holds s (.owes call cb.reference)

/-- The callbacks and the reply of a request are those of its key. -/
structure Request.Good (s : State) (q : Request) : Prop where
  callbacks : ∀ cb ∈ q.callbacks, cb.Good s (key q.reference)
  reply : ∀ reply, q.reply = some reply → (key q.reference, reply) ∈ s.replies

/-- What the table, the requests and the answers hold comes from replies. -/
structure Sound (info : LocatorInfo) (s : State) (R : Resource) : Prop where
  adapters : ∀ id p, s.adapterEndpointsMap id = some p → p.2 ≠ [] ∧
    ∃ r : Reference, r.endpoints = p.2 ∧ (.adapter id, .response (some r)) ∈ s.replies
  objects : ∀ id p, s.objectMap id = some p → p.2.isWellKnown = false ∧
    (.object id, .response (some p.2)) ∈ s.replies
  pending : ∀ k n, s.pending k = some n → Token.Holds s (.requested n k)
  requests : ∀ q ∈ s.requests, q.Good s
  answers : ∀ a ∈ s.answers, ∃ origin, s.calls[a.call]? = some origin ∧
    Resolved info s.replies origin a.result
  tokens : ∀ t ∈ R, t.Holds s

/-- Every callback is in one place, and every request that is not answered is in its map, except
while it is being answered. -/
structure Counted (s : State) (R : Resource) : Prop where
  unanswered : ∀ n q, s.requests[n]? = some q → q.reply = none →
    s.pending (key q.reference) = some n ∨ .erased n ∈ R
  sent : ∀ q ∈ s.requests, q.sent = false → q.callbacks = []
  locked : ∀ q ∈ s.requests, q.locked = true → q.reply = none
  locks : ∀ n, locking n R = if s.requests[n]?.any (·.locked) then 1 else 0
  calls : ∀ call, owing call R + s.waiting call + s.answered call =
    if call < s.calls.length then 1 else 0

/-- What is held comes from replies, and every callback is counted once. -/
structure Consistent (info : LocatorInfo) (s : State) (R : Resource) : Prop where
  sound : Sound info s R
  counted : Counted s R

section tokens

variable {call n : Nat} {t : Token} {R F : Resource} {ref : Reference} {callback : Option Nat}

@[simp] theorem owing_add : owing call (R + F) = owing call R + owing call F := by
  rw [owing, map_add, sum_add]
  rfl

@[simp] theorem owing_singleton : owing call {t} = t.weight call := by
  simp [owing]

@[simp] theorem owing_zero : owing call 0 = 0 := by
  simp [owing]

@[simp] theorem locking_add : locking n (R + F) = locking n R + locking n F := by
  rw [locking, map_add, sum_add]
  rfl

@[simp] theorem locking_singleton : locking n {t} = t.locks n := by
  simp [locking]

@[simp] theorem locking_zero : locking n 0 = 0 := by
  simp [locking]

theorem Token.weight_nonneg : 0 ≤ t.weight call := by
  cases t <;> simp only [Token.weight] <;> try split
  all_goals omega

theorem Token.locks_nonneg : 0 ≤ t.locks n := by
  cases t <;> simp only [Token.locks] <;> try split
  all_goals omega

theorem owing_nonneg : 0 ≤ owing call R := by
  apply sum_nonneg
  intro x hx
  obtain ⟨t, -, rfl⟩ := mem_map.mp hx
  exact Token.weight_nonneg

theorem locking_nonneg : 0 ≤ locking n R := by
  apply sum_nonneg
  intro x hx
  obtain ⟨t, -, rfl⟩ := mem_map.mp hx
  exact Token.locks_nonneg

theorem Request.waiting_nonneg {q : Request} : 0 ≤ q.waiting call := by
  simp only [Request.waiting]
  split <;> omega

theorem State.waiting_nonneg {s : State} : 0 ≤ s.waiting call :=
  sum_map_nonneg _ fun _ _ => Request.waiting_nonneg

theorem Token.weight_fact (h : t.isFact = true) : t.weight call = 0 := by
  cases t with
  | replied k reply => rfl
  | requested n k => rfl
  | owes call' ref => cases h
  | closing n ref => cases h
  | erased n => cases h

theorem Token.locks_fact (h : t.isFact = true) : t.locks n = 0 := by
  cases t with
  | replied k reply => rfl
  | requested n k => rfl
  | owes call' ref => cases h
  | closing n ref => cases h
  | erased n => cases h

@[simp] theorem locking_owed : locking n (owed callback ref) = 0 := by
  cases callback with
  | none => simp [owed]
  | some call => simp [owed, Token.locks]

@[simp] theorem owing_owed :
    owing call (owed callback ref) = if callback = some call then 1 else 0 := by
  cases callback with
  | none => simp [owed]
  | some call' => simp [owed, Token.weight]

theorem mem_owed (h : t ∈ owed callback ref) : ∃ call, callback = some call ∧
    t = .owes call ref := by
  cases callback with
  | none => simp [owed] at h
  | some call => exact ⟨call, rfl, by simpa [owed] using h⟩

variable {callbacks : List RequestCallback}

theorem owedAll_cons {cb : RequestCallback} :
    owedAll (cb :: callbacks) = owed cb.callback cb.reference + owedAll callbacks := rfl

theorem locking_owedAll : locking n (owedAll callbacks) = 0 := by
  induction callbacks with
  | nil => simp [owedAll]
  | cons cb callbacks ih => simp [owedAll_cons, ih]

theorem owing_owedAll :
    owing call (owedAll callbacks) = ((callbacks.filterMap (·.callback)).count call : Nat) := by
  induction callbacks with
  | nil => simp [owedAll]
  | cons cb callbacks ih =>
    rw [owedAll_cons, owing_add, ih, owing_owed]
    cases hcb : cb.callback with
    | none => simp [hcb]
    | some call' =>
      simp only [hcb, List.filterMap_cons, List.count_cons, Option.some.injEq, beq_iff_eq]
      split <;> omega

theorem mem_owedAll (h : t ∈ owedAll callbacks) :
    ∃ cb ∈ callbacks, t ∈ owed cb.callback cb.reference := by
  induction callbacks with
  | nil => simp [owedAll] at h
  | cons cb callbacks ih =>
    rw [owedAll_cons, mem_add] at h
    rcases h with h | h
    · exact ⟨cb, List.mem_cons_self, h⟩
    · obtain ⟨cb', hcb', ht⟩ := ih h
      exact ⟨cb', List.mem_cons_of_mem _ hcb', ht⟩

theorem erased_mem_of_add_owed (h : .erased n ∈ owed callback ref + F) : .erased n ∈ F := by
  rcases mem_add.mp h with h | h
  · obtain ⟨call, -, ht⟩ := mem_owed h
    cases ht
  · exact h

end tokens

/-- The history of the second state is a continuation of that of the first. -/
structure Grows (s s' : State) : Prop where
  calls : ∀ (call : Nat) (ref : Reference), s.calls[call]? = some ref → s'.calls[call]? = some ref
  replies : s.replies ⊆ s'.replies
  requests : ∀ (n : Nat) (q : Request), s.requests[n]? = some q →
    ∃ q', s'.requests[n]? = some q' ∧ q'.reference = q.reference

section grows

variable {info : LocatorInfo} {s s' : State} {R F : Resource} {n : Nat} {q q' : Request}

theorem Token.Holds.grows {t : Token} (h : t.Holds s) (hs : Grows s s') : t.Holds s' := by
  cases t with
  | owes call ref =>
    obtain ⟨origin, hcall, hleads⟩ := h
    exact ⟨origin, hs.calls call origin hcall, leads_mono hleads hs.replies⟩
  | replied k reply => exact hs.replies h
  | requested n k | closing n ref =>
    obtain ⟨q, hq, hk⟩ := h
    obtain ⟨q', hq', href⟩ := hs.requests n q hq
    exact ⟨q', hq', by rw [href, hk]⟩
  | erased n => trivial

theorem RequestCallback.Good.grows {k : Key} {cb : RequestCallback} (h : cb.Good s k)
    (hs : Grows s s') : cb.Good s' k :=
  ⟨h.key, h.isIndirect, fun call hcall => (h.callback call hcall).grows hs⟩

theorem Request.Good.grows (h : q.Good s) (hs : Grows s s') : q.Good s' :=
  ⟨fun cb hcb => (h.callbacks cb hcb).grows hs, fun reply hr => hs.replies (h.reply reply hr)⟩

/-- What is sound stays sound, apart from what the step has changed. -/
theorem Sound.grows (h : Sound info s R) (hs : Grows s s')
    (hadapters : s'.adapterEndpointsMap = s.adapterEndpointsMap)
    (hobjects : s'.objectMap = s.objectMap)
    (hpending : ∀ k n, s'.pending k = some n → Token.Holds s' (.requested n k))
    (hrequests : ∀ q ∈ s'.requests, q.Good s')
    (hanswers : s'.answers = s.answers) : Sound info s' R := by
  constructor
  · intro id p hp
    rw [hadapters] at hp
    obtain ⟨hne, r, hr, hmem⟩ := h.adapters id p hp
    exact ⟨hne, r, hr, hs.replies hmem⟩
  · intro id p hp
    rw [hobjects] at hp
    obtain ⟨hw, hmem⟩ := h.objects id p hp
    exact ⟨hw, hs.replies hmem⟩
  · exact hpending
  · exact hrequests
  · intro a ha
    rw [hanswers] at ha
    obtain ⟨origin, hcall, hr⟩ := h.answers a ha
    exact ⟨origin, hs.calls _ _ hcall, hr.mono hs.replies⟩
  · intro t ht
    exact (h.tokens t ht).grows hs

/-- A request keeps its reference. -/
theorem grows_set (hq : s.requests[n]? = some q) (href : q'.reference = q.reference)
    {replies : List (Key × Reply)} (hsub : s.replies ⊆ replies) :
    Grows s { s with requests := s.requests.set n q', replies := replies } := by
  constructor
  · intro call ref hcall
    exact hcall
  · exact hsub
  · intro m p hp
    by_cases hm : n = m
    · subst hm
      obtain ⟨hn, -⟩ := List.getElem?_eq_some_iff.mp hq
      refine ⟨q', by simp [hn], ?_⟩
      rw [href, Option.some.inj (hq.symm.trans hp)]
    · exact ⟨p, by rw [List.getElem?_set_ne hm]; exact hp, rfl⟩

theorem grows_register {ref : Reference} : Grows s { s with calls := s.calls ++ [ref] } := by
  constructor
  · intro call ref' hcall
    obtain ⟨hlt, -⟩ := List.getElem?_eq_some_iff.mp hcall
    rw [List.getElem?_append_left hlt]
    exact hcall
  · exact List.Subset.refl _
  · intro n q hq
    exact ⟨q, hq, rfl⟩

theorem grows_push {pending : Key → Option Nat} :
    Grows s { s with pending := pending, requests := s.requests ++ [q] } := by
  constructor
  · intro call ref hcall
    exact hcall
  · exact List.Subset.refl _
  · intro n q hq
    obtain ⟨hlt, -⟩ := List.getElem?_eq_some_iff.mp hq
    refine ⟨q, ?_, rfl⟩
    rw [List.getElem?_append_left hlt]
    exact hq

theorem Sound.mono (h : Sound info s R) (hF : ∀ t ∈ F, t.Holds s) : Sound info s F :=
  ⟨h.adapters, h.objects, h.pending, h.requests, h.answers, hF⟩

end grows

section facts

variable {info : LocatorInfo} {s : State} {t : Token} {R F : Resource} {ref r : Reference}
  {callback : Option Nat} {call : Nat}

theorem Consistent.holds (h : Consistent info s ({t} + F)) : t.Holds s :=
  h.sound.tokens t (mem_add.mpr (.inl (Multiset.mem_singleton_self t)))

theorem Counted.of_eq {F' : Resource} (h : Counted s F) (howing : ∀ c, owing c F' = owing c F)
    (hlocking : ∀ n, locking n F' = locking n F)
    (herased : ∀ n, .erased n ∈ F → .erased n ∈ F') : Counted s F' := by
  constructor
  · intro n q hq hreply
    exact (h.unanswered n q hq hreply).imp id (herased n)
  · exact h.sent
  · exact h.locked
  · intro n
    rw [hlocking]
    exact h.locks n
  · intro call
    rw [howing]
    exact h.calls call

/-- A fact may be added, -/
theorem Consistent.add (h : Consistent info s F) (hfact : t.isFact = true) (ht : t.Holds s) :
    Consistent info s ({t} + F) := by
  constructor
  · apply h.sound.mono
    intro t' ht'
    rcases mem_add.mp ht' with ht' | ht'
    · rw [mem_singleton.mp ht']
      exact ht
    · exact h.sound.tokens t' ht'
  · apply h.counted.of_eq
    · intro call
      rw [owing_add, owing_singleton, Token.weight_fact hfact, zero_add]
    · intro n
      rw [locking_add, locking_singleton, Token.locks_fact hfact, zero_add]
    · intro n hn
      exact mem_add.mpr (.inr hn)

/-- and it may be dropped. -/
theorem Consistent.drop (h : Consistent info s ({t} + F)) (hfact : t.isFact = true) :
    Consistent info s F := by
  constructor
  · apply h.sound.mono
    intro t' ht'
    exact h.sound.tokens t' (mem_add.mpr (.inr ht'))
  · apply h.counted.of_eq
    · intro call
      rw [owing_add, owing_singleton, Token.weight_fact hfact, zero_add]
    · intro n
      rw [locking_add, locking_singleton, Token.locks_fact hfact, zero_add]
    · intro n hn
      rcases mem_add.mp hn with hn | hn
      · rw [← mem_singleton.mp hn] at hfact
        cases hfact
      · exact hn

/-- An answer is owed for the reference that a reply leads to. -/
theorem Consistent.lead (h : Consistent info s (owed callback ref + F))
    (hleads : Leads s.replies ref r) : Consistent info s (owed callback r + F) := by
  constructor
  · apply h.sound.mono
    intro t ht
    rcases mem_add.mp ht with ht | ht
    · obtain ⟨call, rfl, rfl⟩ := mem_owed ht
      obtain ⟨origin, hcall, horigin⟩ := h.sound.tokens (.owes call ref)
        (mem_add.mpr (.inl (by simp [owed])))
      exact ⟨origin, hcall, horigin.tail hleads⟩
    · exact h.sound.tokens t (mem_add.mpr (.inr ht))
  · apply h.counted.of_eq
    · simp
    · simp
    · intro n hn
      exact mem_add.mpr (.inr (erased_mem_of_add_owed hn))

/-- A callback that is owed is called with what the replies settle. -/
theorem Consistent.answer {result : Result} {cached : Bool}
    (h : Consistent info s (owed (some call) ref + F))
    (hsettles : Settles info s.replies ref result) :
    Consistent info { s with answers := s.answers ++ [⟨call, result, cached⟩] } F := by
  obtain ⟨origin, hcall, hleads⟩ := h.holds
  obtain ⟨hsound, hcounted⟩ := h
  constructor
  · refine ⟨hsound.adapters, hsound.objects, hsound.pending, ?_, ?_, ?_⟩
    · intro q hq
      obtain ⟨hcallbacks, hreply⟩ := hsound.requests q hq
      exact ⟨fun cb hcb => ⟨(hcallbacks cb hcb).key, (hcallbacks cb hcb).isIndirect,
        (hcallbacks cb hcb).callback⟩, hreply⟩
    · intro a ha
      rcases mem_append.mp ha with ha | ha
      · exact hsound.answers a ha
      · rw [List.mem_singleton.mp ha]
        exact ⟨origin, hcall, ref, hleads, hsettles⟩
    · intro t ht
      exact hsound.tokens t (mem_add.mpr (.inr ht))
  · refine ⟨?_, hcounted.sent, hcounted.locked, ?_, ?_⟩
    · intro n q hq hreply
      exact (hcounted.unanswered n q hq hreply).imp id erased_mem_of_add_owed
    · intro n
      have hn := hcounted.locks n
      rw [locking_add, locking_owed, zero_add] at hn
      exact hn
    · intro call'
      have hc := hcounted.calls call'
      rw [owing_add, owing_owed] at hc
      simp only [State.answered, State.waiting, List.map_append, List.map_singleton,
        List.count_append, List.count_singleton, Option.some.injEq, beq_iff_eq] at hc ⊢
      split at hc
      · simp_all
        omega
      · simp_all

end facts

section steps

variable {info : LocatorInfo} {s : State} {F : Resource} {n : Nat} {q : Request}
  {ref : Reference}

/-- A call of `getEndpoints` is owed its callback. -/
theorem Consistent.register (h : Consistent info s F) :
    Consistent info { s with calls := s.calls ++ [ref] }
      (owed (some s.calls.length) ref + F) := by
  obtain ⟨hsound, hcounted⟩ := h
  have hgrows : Grows s { s with calls := s.calls ++ [ref] } := grows_register
  constructor
  · refine (hsound.grows hgrows rfl rfl ?_ ?_ rfl).mono ?_
    · intro k n hn
      exact (hsound.pending k n hn).grows hgrows
    · intro q hq
      exact (hsound.requests q hq).grows hgrows
    · intro t ht
      rcases mem_add.mp ht with ht | ht
      · obtain ⟨call, hcall, rfl⟩ := mem_owed ht
        cases hcall
        exact ⟨ref, by simp, .refl⟩
      · exact (hsound.tokens t ht).grows hgrows
  · refine ⟨?_, hcounted.sent, hcounted.locked, ?_, ?_⟩
    · intro n q hq hreply
      exact (hcounted.unanswered n q hq hreply).imp id
        fun herased => mem_add.mpr (.inr herased)
    · intro n
      rw [locking_add, locking_owed, zero_add]
      exact hcounted.locks n
    · intro call
      have hc := hcounted.calls call
      rw [owing_add, owing_owed, List.length_append, List.length_singleton]
      change _ + s.waiting call + s.answered call = _
      by_cases heq : s.calls.length = call
      · rw [if_neg (by omega)] at hc
        rw [if_pos (by rw [heq]), if_pos (by omega)]
        omega
      · rw [if_neg (by simpa using heq)]
        split at hc
        · rw [if_pos (by omega)]
          omega
        · rw [if_neg (by omega)]
          omega

/-- The table may be changed: what is in it comes from replies. -/
theorem Consistent.table (h : Consistent info s F)
    {adapters : Str → Option (Int × List EndpointI)}
    {objects : References.Identity → Option (Int × Reference)}
    (hadapters : ∀ id p, adapters id = some p → p.2 ≠ [] ∧
      ∃ r : Reference, r.endpoints = p.2 ∧ (.adapter id, .response (some r)) ∈ s.replies)
    (hobjects : ∀ id p, objects id = some p → p.2.isWellKnown = false ∧
      (.object id, .response (some p.2)) ∈ s.replies) :
    Consistent info { s with adapterEndpointsMap := adapters, objectMap := objects } F := by
  obtain ⟨⟨-, -, hpending, hrequests, hanswers, htokens⟩, hcounted⟩ := h
  have hgrows : Grows s { s with adapterEndpointsMap := adapters, objectMap := objects } :=
    ⟨fun _ _ hcall => hcall, List.Subset.refl _, fun _ q hq => ⟨q, hq, rfl⟩⟩
  constructor
  · refine ⟨hadapters, hobjects, ?_, ?_, hanswers, ?_⟩
    · intro k n hn
      exact (hpending k n hn).grows hgrows
    · intro q hq
      exact (hrequests q hq).grows hgrows
    · intro t ht
      exact (htokens t ht).grows hgrows
  · exact ⟨hcounted.unanswered, hcounted.sent, hcounted.locked, hcounted.locks, hcounted.calls⟩

theorem of_update_eq_some {κ α : Type} [DecidableEq κ] {map : κ → Option α} {k k' : κ}
    {x : Option α} {y : α} (h : update map k x k' = some y) :
    k' = k ∧ x = some y ∨ map k' = some y := by
  simp only [update] at h
  split at h
  · exact .inl ⟨‹_›, h⟩
  · exact .inr h

section

variable (h : Consistent info s F)

include h

theorem Consistent.removeAdapter (id : Str) :
    Consistent info { s with adapterEndpointsMap := update s.adapterEndpointsMap id none } F := by
  refine h.table ?_ h.sound.objects
  intro id' p hp
  rcases of_update_eq_some hp with ⟨-, hnone⟩ | hp
  · cases hnone
  · exact h.sound.adapters id' p hp

theorem Consistent.removeObject (id : References.Identity) :
    Consistent info { s with objectMap := update s.objectMap id none } F := by
  refine h.table h.sound.adapters ?_
  intro id' p hp
  rcases of_update_eq_some hp with ⟨-, hnone⟩ | hp
  · cases hnone
  · exact h.sound.objects id' p hp

theorem Consistent.addAdapter {id : Str} {r : Reference}
    (hdirect : r.isIndirect = false) (hreply : (.adapter id, .response (some r)) ∈ s.replies) :
    Consistent info { s with
      adapterEndpointsMap := update s.adapterEndpointsMap id (some (s.now, r.endpoints)) } F := by
  refine h.table ?_ h.sound.objects
  intro id' p hp
  rcases of_update_eq_some hp with ⟨rfl, hsome⟩ | hp
  · cases hsome
    refine ⟨?_, r, rfl, hreply⟩
    simpa [RoutableReference.isIndirect] using hdirect
  · exact h.sound.adapters id' p hp

theorem Consistent.addObject {id : References.Identity} {r : Reference}
    (hw : r.isWellKnown = false) (hreply : (.object id, .response (some r)) ∈ s.replies) :
    Consistent info { s with objectMap := update s.objectMap id (some (s.now, r)) } F := by
  refine h.table h.sound.adapters ?_
  intro id' p hp
  rcases of_update_eq_some hp with ⟨rfl, hsome⟩ | hp
  · cases hsome
    exact ⟨hw, hreply⟩
  · exact h.sound.objects id' p hp

/-- A request for a key that has none is put into the map. -/
theorem Consistent.push (hnone : s.pending (key ref) = none) :
    Consistent info { s with
      pending := update s.pending (key ref) (some s.requests.length)
      requests := s.requests ++ [{ reference := ref }] } F := by
  obtain ⟨hsound, hcounted⟩ := h
  have hgrows : Grows s { s with
      pending := update s.pending (key ref) (some s.requests.length)
      requests := s.requests ++ [{ reference := ref }] } := grows_push
  constructor
  · refine hsound.grows hgrows rfl rfl ?_ ?_ rfl
    · intro k n hn
      rcases of_update_eq_some hn with ⟨rfl, hsome⟩ | hn
      · cases hsome
        exact ⟨{ reference := ref }, by simp, rfl⟩
      · exact (hsound.pending k n hn).grows hgrows
    · intro q hq
      rcases mem_append.mp hq with hq | hq
      · exact (hsound.requests q hq).grows hgrows
      · rw [List.mem_singleton.mp hq]
        exact ⟨nofun, nofun⟩
  · constructor
    · intro n q hq hreply
      dsimp only at hq ⊢
      rw [List.getElem?_append] at hq
      split at hq
      · rcases hcounted.unanswered n q hq hreply with hp | herased
        · left
          rw [update, if_neg]
          · exact hp
          · intro hk
            rw [hk, hnone] at hp
            cases hp
        · exact .inr herased
      · obtain ⟨hn, hq⟩ := List.getElem?_eq_some_iff.mp hq
        simp only [List.length_singleton] at hn
        simp only [List.getElem_singleton] at hq
        subst hq
        left
        rw [update, if_pos rfl]
        congr 1
        omega
    · intro q hq
      rcases mem_append.mp hq with hq | hq
      · exact hcounted.sent q hq
      · rw [List.mem_singleton.mp hq]
        intro _
        rfl
    · intro q hq
      rcases mem_append.mp hq with hq | hq
      · exact hcounted.locked q hq
      · rw [List.mem_singleton.mp hq]
        exact nofun
    · intro n
      rw [hcounted.locks n, List.getElem?_append]
      congr 1
      split
      · rfl
      · rw [List.getElem?_eq_none (by omega)]
        rcases Nat.eq_zero_or_pos (n - s.requests.length) with h0 | hpos
        · rw [h0]
          rfl
        · rw [List.getElem?_eq_none (by simp only [List.length_singleton]; omega)]
    · intro call
      have hc := hcounted.calls call
      rw [← hc]
      simp [State.waiting, State.answered, Request.waiting]

end

/-- One request is changed. -/
theorem Sound.set {R : Resource} {q' : Request} {replies : List (Key × Reply)}
    (h : Sound info s R) (hq : s.requests[n]? = some q) (href : q'.reference = q.reference)
    (hsub : s.replies ⊆ replies)
    (hgood : ∀ s', Grows s s' → s'.replies = replies → q'.Good s') :
    Sound info { s with requests := s.requests.set n q', replies := replies } R := by
  have hgrows : Grows s { s with requests := s.requests.set n q', replies := replies } :=
    grows_set hq href hsub
  refine h.grows hgrows rfl rfl ?_ ?_ rfl
  · intro k m hm
    exact (h.pending k m hm).grows hgrows
  · apply forall_mem_set
    · intro p hp
      exact (h.requests p hp).grows hgrows
    · exact hgood _ hgrows rfl

/-- One request is changed, and what waited in it is owed. -/
theorem Counted.set {R : Resource} {q' : Request} {replies : List (Key × Reply)}
    (h : Counted s R) (hq : s.requests[n]? = some q) (href : q'.reference = q.reference)
    (hreply : q'.reply = none → q.reply = none)
    (hsent : q'.sent = false → q'.callbacks = [])
    (hlocked : q'.locked = true → q'.reply = none)
    (herased : ∀ m, .erased m ∈ R → .erased m ∈ F ∨ m = n ∧ q'.reply ≠ none)
    (hother : ∀ m, m ≠ n → locking m F = locking m R)
    (hlocks : locking n F = if q'.locked then 1 else 0)
    (hcalls : ∀ call, owing call F + q'.waiting call = owing call R + q.waiting call) :
    Counted { s with requests := s.requests.set n q', replies := replies } F := by
  obtain ⟨hn, -⟩ := List.getElem?_eq_some_iff.mp hq
  constructor
  · intro m p hm hp
    dsimp only at hm
    by_cases hmn : n = m
    · subst hmn
      rw [List.getElem?_set_self hn] at hm
      cases hm
      rw [href]
      refine (h.unanswered n q hq (hreply hp)).imp id fun hmem => ?_
      rcases herased n hmem with hF | ⟨-, hsome⟩
      · exact hF
      · exact absurd hp hsome
    · rw [List.getElem?_set_ne hmn] at hm
      refine (h.unanswered m p hm hp).imp id fun hmem => ?_
      rcases herased m hmem with hF | ⟨heq, -⟩
      · exact hF
      · exact absurd heq.symm hmn
  · exact forall_mem_set h.sent hsent
  · exact forall_mem_set h.locked hlocked
  · intro m
    dsimp only
    by_cases hmn : n = m
    · subst hmn
      rw [List.getElem?_set_self hn, hlocks]
      rfl
    · rw [List.getElem?_set_ne hmn, hother m (Ne.symm hmn)]
      exact h.locks m
  · intro call
    rw [← h.calls call]
    have hc := hcalls call
    simp only [State.waiting, State.answered, sum_map_set _ _ hq]
    omega

/-- A callback waits in a request that is not answered. -/
theorem Consistent.wait {cb : RequestCallback} (wellKnownRef : Option Reference)
    (h : Consistent info s
      ({.requested n (key cb.reference)} + (owed cb.callback cb.reference + F)))
    (hindirect : cb.reference.isIndirect = true) (hq : s.requests[n]? = some q)
    (hreply : q.reply = none) :
    Consistent info { s with requests := s.requests.set n { q with
        callbacks := q.callbacks ++ [cb]
        wellKnownRefs := q.wellKnownRefs ++ wellKnownRef.toList
        sent := true } } F := by
  obtain ⟨p, hp, hkey⟩ := h.holds
  cases hq.symm.trans hp
  obtain ⟨hsound, hcounted⟩ := h.drop rfl
  obtain ⟨hcallbacks, -⟩ := hsound.requests q (mem_of_getElem? hq)
  constructor
  · apply Sound.set (hsound.mono fun t ht => hsound.tokens t (mem_add.mpr (.inr ht))) hq
    · rfl
    · exact List.Subset.refl _
    · intro s' hgrows hreplies
      constructor
      · intro cb' hcb'
        rcases mem_append.mp hcb' with hcb' | hcb'
        · exact (hcallbacks cb' hcb').grows hgrows
        · rw [List.mem_singleton.mp hcb']
          refine ⟨hkey.symm, hindirect, ?_⟩
          intro call hcall
          have howes : Token.Holds s (.owes call cb.reference) := by
            apply hsound.tokens
            rw [Option.mem_def.mp hcall]
            simp [owed]
          exact howes.grows hgrows
      · intro reply hr
        dsimp only at hr
        rw [hreply] at hr
        cases hr
  · apply hcounted.set hq
    · rfl
    · exact id
    · exact nofun
    · intro _
      exact hreply
    · intro m hm
      exact .inl (erased_mem_of_add_owed hm)
    · intro m hm
      rw [locking_add, locking_owed, zero_add]
    · have hn := hcounted.locks n
      rw [locking_add, locking_owed, zero_add, hq] at hn
      exact hn
    · intro call
      rw [owing_add, owing_owed]
      simp only [Request.waiting, hreply, Option.isNone_none, if_true, List.filterMap_append,
        List.count_append]
      cases hcb : cb.callback with
      | none => simp [hcb]
      | some call' =>
        simp only [List.filterMap_cons, hcb, List.filterMap_nil, List.count_singleton,
          Option.some.injEq, beq_iff_eq]
        split <;> omega

/-- The answer to a request arrives. -/
theorem Consistent.receive (h : Consistent info s F) {reply : Reply}
    (hq : s.requests[n]? = some q) (hsent : q.sent = true) (hlocked : q.locked = false)
    (hreply : q.reply = none) :
    Consistent info { s with
        requests := s.requests.set n { q with locked := true }
        replies := s.replies ++ [(key q.reference, reply)] }
      ({.replied (key q.reference) reply} + ({.closing n q.reference} + F)) := by
  obtain ⟨hsound, hcounted⟩ := h
  obtain ⟨hn, -⟩ := List.getElem?_eq_some_iff.mp hq
  obtain ⟨hcallbacks, -⟩ := hsound.requests q (mem_of_getElem? hq)
  apply Consistent.add _ rfl
  · simp [Token.Holds]
  constructor
  · apply Sound.mono (R := F)
    · apply hsound.set hq
      · rfl
      · exact List.subset_append_left _ _
      · intro s' hgrows hreplies
        constructor
        · intro cb hcb
          exact (hcallbacks cb hcb).grows hgrows
        · intro reply' hr
          dsimp only at hr
          rw [hreply] at hr
          cases hr
    · intro t ht
      rcases mem_add.mp ht with ht | ht
      · rw [mem_singleton.mp ht]
        exact ⟨{ q with locked := true }, by simp [hn], rfl⟩
      · apply (hsound.tokens t ht).grows
        apply grows_set hq
        · rfl
        · exact List.subset_append_left _ _
  · apply hcounted.set hq
    · rfl
    · exact id
    · intro hfalse
      rw [hsent] at hfalse
      cases hfalse
    · intro _
      exact hreply
    · intro m hm
      exact .inl (mem_add.mpr (.inr hm))
    · intro m hm
      rw [locking_add, locking_singleton, Token.locks, if_neg (Ne.symm hm), zero_add]
    · have hlocks := hcounted.locks n
      rw [hq, Option.any_some, hlocked] at hlocks
      rw [locking_add, locking_singleton, Token.locks, hlocks, if_pos rfl]
      rfl
    · intro call
      simp only [owing_add, owing_singleton, Token.weight, zero_add, Request.waiting]

section

variable (h : Consistent info s ({.closing n ref} + F))

include h

/-- The thread that closes a request is the only one, and the request is in its map. -/
theorem Consistent.pending_of_closing :
    s.pending (key ref) = some n := by
  obtain ⟨q, hq, href⟩ := h.holds
  have hlocks := h.counted.locks n
  rw [hq, Option.any_some, locking_add, locking_singleton, Token.locks, if_pos rfl] at hlocks
  have hF : .erased n ∉ F := by
    intro hmem
    obtain ⟨G, rfl⟩ := Multiset.exists_cons_of_mem hmem
    rw [← singleton_add, locking_add, locking_singleton, Token.locks, if_pos rfl]
      at hlocks
    have hG : 0 ≤ locking n G := locking_nonneg
    split at hlocks <;> omega
  have hlocked : q.locked = true := by
    have hnonneg : 0 ≤ locking n F := locking_nonneg
    split at hlocks
    · assumption
    · omega
  rcases h.counted.unanswered n q hq (h.counted.locked q (mem_of_getElem? hq) hlocked) with
    hp | hmem
  · rw [← href]
    exact hp
  · rcases mem_add.mp hmem with hmem | hmem
    · cases mem_singleton.mp hmem
    · exact absurd hmem hF

/-- The request is taken out of its map. -/
theorem Consistent.erase :
    Consistent info { s with pending := update s.pending (key ref) none }
      ({.requested n (key ref)} + ({.erased n} + F)) := by
  have hpending := h.pending_of_closing
  obtain ⟨q, hq, href⟩ := h.holds
  obtain ⟨hsound, hcounted⟩ := h
  have hgrows : Grows s { s with pending := update s.pending (key ref) none } :=
    ⟨fun _ _ hcall => hcall, List.Subset.refl _, fun _ q hq => ⟨q, hq, rfl⟩⟩
  have hrequested : Token.Holds { s with pending := update s.pending (key ref) none }
      (.requested n (key ref)) := ⟨q, hq, by rw [href]⟩
  refine Consistent.add ?_ rfl hrequested
  constructor
  · refine (hsound.grows hgrows rfl rfl ?_ ?_ rfl).mono ?_
    · intro k m hm
      rcases of_update_eq_some hm with ⟨-, hnone⟩ | hm
      · cases hnone
      · exact (hsound.pending k m hm).grows hgrows
    · intro q hq
      exact (hsound.requests q hq).grows hgrows
    · intro t ht
      rcases mem_add.mp ht with ht | ht
      · rw [mem_singleton.mp ht]
        trivial
      · exact (hsound.tokens t (mem_add.mpr (.inr ht))).grows hgrows
  · refine ⟨?_, hcounted.sent, hcounted.locked, ?_, ?_⟩
    · intro m p hp hreply
      rcases hcounted.unanswered m p hp hreply with hm | hmem
      · by_cases hk : key p.reference = key ref
        · rw [hk, hpending] at hm
          cases hm
          exact .inr (mem_add.mpr (.inl (Multiset.mem_singleton_self _)))
        · left
          simp only [update, if_neg hk]
          exact hm
      · right
        rcases mem_add.mp hmem with hmem | hmem
        · cases mem_singleton.mp hmem
        · exact mem_add.mpr (.inr hmem)
    · intro m
      have hm := hcounted.locks m
      rw [locking_add, locking_singleton] at hm ⊢
      exact hm
    · intro call
      have hc := hcounted.calls call
      rw [owing_add, owing_singleton] at hc ⊢
      exact hc

end

/-- The answer is stored, and the callbacks that waited for it are owed. -/
theorem Consistent.store {k : Key} {reply : Reply}
    (h : Consistent info s ({.requested n k} + ({.replied k reply} + ({.erased n} + F))))
    (hq : s.requests[n]? = some q) :
    Consistent info
      { s with requests := s.requests.set n { q with reply := some reply, locked := false } }
      (owedAll q.callbacks + F) := by
  obtain ⟨p, hp, rfl⟩ := h.holds
  cases hq.symm.trans hp
  have hreplied := h.drop rfl
  have hmem : (key q.reference, reply) ∈ s.replies := hreplied.holds
  obtain ⟨hsound, hcounted⟩ := hreplied.drop rfl
  obtain ⟨hcallbacks, -⟩ := hsound.requests q (mem_of_getElem? hq)
  have hlocks := hcounted.locks n
  rw [hq, Option.any_some, locking_add, locking_singleton, Token.locks, if_pos rfl] at hlocks
  have hnonneg : 0 ≤ locking n F := locking_nonneg
  have hlocked : q.locked = true := by
    split at hlocks
    · assumption
    · omega
  constructor
  · apply Sound.mono (R := {.erased n} + F)
    · apply hsound.set hq
      · rfl
      · exact List.Subset.refl _
      · intro s' hgrows hreplies
        constructor
        · intro cb hcb
          exact (hcallbacks cb hcb).grows hgrows
        · intro reply' hr
          cases hr
          exact hgrows.replies hmem
    · have hgrows : Grows s { s with
          requests := s.requests.set n { q with reply := some reply, locked := false } } := by
        apply grows_set hq
        · rfl
        · exact List.Subset.refl _
      intro t ht
      rcases mem_add.mp ht with ht | ht
      · obtain ⟨cb, hcb, ht⟩ := mem_owedAll ht
        obtain ⟨call, hcall, rfl⟩ := mem_owed ht
        exact ((hcallbacks cb hcb).callback call hcall).grows hgrows
      · exact (hsound.tokens t (mem_add.mpr (.inr ht))).grows hgrows
  · apply hcounted.set hq
    · rfl
    · exact nofun
    · exact hcounted.sent q (mem_of_getElem? hq)
    · exact nofun
    · intro m hm
      rcases mem_add.mp hm with hm | hm
      · cases mem_singleton.mp hm
        exact .inr ⟨rfl, nofun⟩
      · exact .inl (mem_add.mpr (.inr hm))
    · intro m hm
      rw [locking_add, locking_owedAll, locking_add, locking_singleton, Token.locks,
        if_neg (Ne.symm hm)]
    · rw [hlocked, if_pos rfl] at hlocks
      rw [locking_add, locking_owedAll, if_neg nofun]
      omega
    · intro call
      have hnone := hcounted.locked q (mem_of_getElem? hq) hlocked
      simp only [owing_add, owing_owedAll, owing_singleton, Token.weight, Request.waiting, hnone,
        Option.isNone_none, Option.isNone_some, if_true, Bool.false_eq_true, if_false]
      omega

/-- The request that is being answered is there. -/
theorem Consistent.request_of_erased (h : Consistent info s ({.erased n} + F)) :
    ∃ q, s.requests[n]? = some q := by
  have hlocks := h.counted.locks n
  rw [locking_add, locking_singleton, Token.locks, if_pos rfl] at hlocks
  have hnonneg : 0 ≤ locking n F := locking_nonneg
  cases hq : s.requests[n]? with
  | none =>
    rw [hq, Option.any_none, if_neg nofun] at hlocks
    omega
  | some q => exact ⟨q, rfl⟩

end steps

end Ice.Locator
