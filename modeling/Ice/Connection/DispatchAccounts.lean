import Mathlib.Algebra.BigOperators.Group.Multiset.Basic
import Mathlib.Algebra.Order.BigOperators.Group.Multiset
import Ice.Connection.DispatchCount
import Ice.Connection.DispatchFrames
import Ice.Connection.Dispatching

/-!
# Who releases a request

A request that was counted and is not released is in one place: a thread has to release it, or
an asynchronous dispatch has, until its response is sent. A thread that dispatches a request
owns its `Incoming`, and with it the request as long as that has no asynchronous dispatch.
-/

namespace Ice.Protocol.Dispatching

open Lib
open Int (zero_add)
open Multiset (map_add mem_add mem_map mem_singleton singleton_add sum_add sum_nonneg)
open Streams (toInt toInt_of_lt)

/-- What a thread owns: requests it has to release, callbacks that have not returned, and the
`Incoming` it works with. The last one says which request an asynchronous dispatch has. -/
inductive Token
  | requests (first n : Nat)
  | callbacks (n : Int)
  | handle (i : Nat) (incoming : Incoming)
  | async (a request : Nat)

abbrev Resource := Multiset Token

/-- The asynchronous dispatch is one of a request. -/
def State.AsyncOf (s : State) (a request : Nat) : Prop :=
  ∃ async, s.asyncs[a]? = some async ∧ async.incoming.request = request

namespace Token

def Holds (s : State) : Token → Prop
  | requests _ _ => True
  | callbacks n => 0 ≤ n
  | handle i incoming => s.incomings[i]? = some incoming ∧
    ∀ a, incoming.inAsync = some a → s.AsyncOf a incoming.request
  | async a request => s.AsyncOf a request

/-- Is it the owner who has to release the request? -/
def weight (request : Nat) : Token → Int
  | requests first n => if first ≤ request ∧ request < first + n then 1 else 0
  | handle _ incoming => if incoming.inAsync = none ∧ incoming.request = request then 1 else 0
  | _ => 0

def calls : Token → Int
  | callbacks n => n
  | _ => 0

def handles (i : Nat) : Token → Int
  | handle i' _ => if i' = i then 1 else 0
  | _ => 0

end Token

def owning (request : Nat) (R : Resource) : Int := (R.map (Token.weight request)).sum

def calling (R : Resource) : Int := (R.map Token.calls).sum

def handling (i : Nat) (R : Resource) : Int := (R.map (Token.handles i)).sum

/-- The request waits for its asynchronous dispatch to be completed. -/
def IncomingAsync.waits (request : Nat) (async : IncomingAsync) : Int :=
  if async.responseSent = false ∧ async.incoming.request = request then 1 else 0

def State.waiting (s : State) (request : Nat) : Int :=
  (s.asyncs.map (IncomingAsync.waits request)).sum

/-- The requests, the callbacks and the count agree with what the threads own. -/
structure Consistent (s : State) (R : Resource) : Prop where
  requests : ∀ request, owning request R + s.waiting request + s.released request =
    if request < s.counted then 1 else 0
  callbacks : calling R = s.callbacks
  handles : ∀ i, handling i R ≤ 1
  tokens : ∀ t ∈ R, t.Holds s
  completed : ∀ async ∈ s.asyncs, async.completed = true → async.responseSent = true
  count : s.connection.dispatchCount = s.callbacks + s.unreleased
  range : s.connection.dispatchCount < 2 ^ 31
  reaped : s.reaps =
    if s.connection.state = .finished ∧ s.connection.dispatchCount = 0 then 1 else 0

section tokens

variable {request i : Nat} {t : Token} {R F : Resource} {s : State}

@[simp] theorem owning_add : owning request (R + F) = owning request R + owning request F := by
  rw [owning, map_add, sum_add]
  rfl

@[simp] theorem owning_singleton : owning request {t} = t.weight request := by
  simp [owning]

@[simp] theorem calling_add : calling (R + F) = calling R + calling F := by
  rw [calling, map_add, sum_add]
  rfl

@[simp] theorem calling_singleton : calling {t} = t.calls := by
  simp [calling]

@[simp] theorem handling_add : handling i (R + F) = handling i R + handling i F := by
  rw [handling, map_add, sum_add]
  rfl

@[simp] theorem handling_singleton : handling i {t} = t.handles i := by
  simp [handling]

@[simp] theorem owning_cons : owning request (t ::ₘ R) = t.weight request + owning request R := by
  rw [← singleton_add, owning_add, owning_singleton]

@[simp] theorem calling_cons : calling (t ::ₘ R) = t.calls + calling R := by
  rw [← singleton_add, calling_add, calling_singleton]

@[simp] theorem handling_cons : handling i (t ::ₘ R) = t.handles i + handling i R := by
  rw [← singleton_add, handling_add, handling_singleton]

@[simp] theorem Token.weight_callbacks {n : Int} : (callbacks n).weight request = 0 := rfl

variable {a r : Nat}

@[simp] theorem Token.weight_async : (async a r).weight request = 0 := rfl

@[simp] theorem Token.calls_requests {first n : Nat} : (requests first n).calls = 0 := rfl

@[simp] theorem Token.calls_handle {incoming : Incoming} : (handle i incoming).calls = 0 := rfl

@[simp] theorem Token.calls_async : (async a r).calls = 0 := rfl

@[simp] theorem Token.handles_requests {first n : Nat} : (requests first n).handles i = 0 := rfl

@[simp] theorem Token.handles_callbacks {n : Int} : (callbacks n).handles i = 0 := rfl

@[simp] theorem Token.handles_async : (async a r).handles i = 0 := rfl

theorem Token.weight_nonneg : 0 ≤ t.weight request := by
  cases t <;> simp only [Token.weight] <;> try split
  all_goals omega

theorem Token.handles_nonneg : 0 ≤ t.handles i := by
  cases t <;> simp only [Token.handles] <;> try split
  all_goals omega

theorem owning_nonneg : 0 ≤ owning request R := by
  apply sum_nonneg
  intro x hx
  obtain ⟨t, -, rfl⟩ := mem_map.mp hx
  exact Token.weight_nonneg

theorem calling_nonneg (h : ∀ t ∈ R, t.Holds s) : 0 ≤ calling R := by
  apply sum_nonneg
  intro x hx
  obtain ⟨t, ht, rfl⟩ := mem_map.mp hx
  cases t with
  | callbacks n => exact h _ ht
  | _ => exact Int.le_refl 0

theorem State.waiting_nonneg : 0 ≤ s.waiting request := by
  apply sum_map_nonneg
  intro async _
  simp only [IncomingAsync.waits]
  split <;> omega

end tokens

section unreleased

variable {s : State} {R F : Resource} {first n : Nat}

theorem Consistent.released_le (h : Consistent s R) (request : Nat) :
    s.released request ≤ if request < s.counted then 1 else 0 := by
  have hr := h.requests request
  have howning : 0 ≤ owning request R := owning_nonneg
  have hwaiting : 0 ≤ s.waiting request := State.waiting_nonneg
  split at hr
  · rw [if_pos ‹_›]
    omega
  · rw [if_neg ‹_›]
    omega

theorem Consistent.unreleased_nonneg (h : Consistent s R) : 0 ≤ s.unreleased := by
  have hle : ((List.range s.counted).map s.released).sum ≤ s.counted := by
    apply sum_map_range_le
    intro request
    have hr := h.released_le request
    split at hr <;> omega
  rw [State.unreleased]
  omega


section

variable (h : Consistent s ({.requests first n} + F))

include h

/-- Requests that somebody has to release are not released. -/
theorem Consistent.released_requests {request : Nat}
    (hfirst : first ≤ request) (hlast : request < first + n) :
    request < s.counted ∧ s.released request = 0 := by
  have hr := h.requests request
  have howning : 0 ≤ owning request F := owning_nonneg
  have hwaiting : 0 ≤ s.waiting request := State.waiting_nonneg
  rw [owning_add, owning_singleton, Token.weight, if_pos ⟨hfirst, hlast⟩] at hr
  split at hr <;> omega

/-- The requests that were counted with those that somebody releases now -/
theorem Consistent.unreleased_release :
    (s.release first n).unreleased = s.unreleased - n := by
  have hle : n = 0 ∨ first + n ≤ s.counted := by
    rcases Nat.eq_zero_or_pos n with hn | hn
    · exact .inl hn
    · have hlast : first + n - 1 < s.counted :=
        (h.released_requests (by omega) (by omega)).1
      omega
  simp only [State.unreleased, State.release, List.sum_map_add, sum_map_range_interval]
  omega

/-- Somebody who has to release requests knows that they are counted. -/
theorem Consistent.le_dispatchCount :
    n ≤ s.connection.dispatchCount := by
  have hcalls : 0 ≤ s.callbacks := h.callbacks ▸ calling_nonneg h.tokens
  have hsum : ((List.range s.counted).map (s.release first n).released).sum ≤ s.counted := by
    apply sum_map_range_le
    intro request
    simp only [State.release]
    have hr := h.released_le request
    split
    · rename_i hmem
      have hzero := (h.released_requests hmem.1 hmem.2).2
      omega
    · split at hr <;> omega
  have hunreleased : 0 ≤ (s.release first n).unreleased := by
    rw [State.unreleased]
    simp only [State.release] at hsum ⊢
    omega
  have hcount := h.count
  rw [h.unreleased_release] at hunreleased
  omega

end

end unreleased

section steps

variable {s : State} {F R : Resource} {i a request first n : Nat} {incoming : Incoming}
  {async : IncomingAsync} {connection : ConnectionI} {member : ConnectionI.M Unit}

variable {t : Token} {s' : State}

/-- Incomings of others may change, and asynchronous dispatches keep their requests. -/
theorem Token.Holds.mono (h : t.Holds s)
    (hincomings : ∀ i x, t.handles i = 1 → s.incomings[i]? = some x → s'.incomings[i]? = some x)
    (hasyncs : ∀ a request, s.AsyncOf a request → s'.AsyncOf a request) : t.Holds s' := by
  cases t with
  | requests first n => trivial
  | callbacks n => exact h
  | handle i incoming =>
    obtain ⟨hi, ha⟩ := h
    constructor
    · exact hincomings i _ (if_pos rfl) hi
    · intro a hasync
      exact hasyncs a _ (ha a hasync)
  | async a request => exact hasyncs a request h

theorem Token.Holds.congr (h : t.Holds s) (hincomings : s'.incomings = s.incomings)
    (hasyncs : s'.asyncs = s.asyncs) : t.Holds s' := by
  apply h.mono
  · intro i x _ hi
    rw [hincomings]
    exact hi
  · intro a request ha
    rw [State.AsyncOf, hasyncs]
    exact ha

theorem Consistent.holds (h : Consistent s ({t} + F)) : t.Holds s :=
  h.tokens t (mem_add.mpr (.inl (Multiset.mem_singleton_self t)))

theorem Consistent.rest (h : Consistent s ({t} + F)) : ∀ t ∈ F, t.Holds s :=
  fun t ht => h.tokens t (mem_add.mpr (.inr ht))

theorem holds_add (ht : t.Holds s) (hF : ∀ u ∈ F, Token.Holds s u) :
    ∀ u ∈ {t} + F, Token.Holds s u := by
  intro u hu
  rcases mem_add.mp hu with hu | hu
  · rwa [mem_singleton.mp hu]
  · exact hF u hu

/-- The resource may be exchanged for one that has the same weights. -/
theorem Consistent.exchange {R' : Resource} (h : Consistent s R)
    (howning : ∀ request, owning request R' = owning request R) (hcalling : calling R' = calling R)
    (hhandling : ∀ i, handling i R' ≤ handling i R) (htokens : ∀ t ∈ R', t.Holds s) :
    Consistent s R' := by
  refine { h with requests := ?_, callbacks := ?_, handles := ?_, tokens := htokens }
  · intro request
    rw [howning]
    exact h.requests request
  · rw [hcalling]
    exact h.callbacks
  · intro i
    exact (hhandling i).trans (h.handles i)

/-- The connection does something else. -/
theorem Consistent.frame (h : Consistent s R)
    (hcount : connection.dispatchCount = s.connection.dispatchCount)
    (hfinished : connection.state = .finished ↔ s.connection.state = .finished) :
    Consistent { s with connection } R := by
  refine { h with tokens := ?_, count := ?_, range := ?_, reaped := ?_ }
  · intro t ht
    exact (h.tokens t ht).congr rfl rfl
  · exact hcount.trans h.count
  · rw [hcount]
    exact h.range
  · rw [h.reaped]
    simp only [hcount, hfinished]

/-- The count goes down by what was part of it, and the connection is reaped with the last part. -/
theorem Consistent.lower {n : Int} (h : Consistent s R) (hpos : 0 < n)
    (hle : n ≤ s.connection.dispatchCount)
    (hlowers : ConnectionI.Lowers n s.connection (final member s.connection)) :
    (s.lower n member).connection.dispatchCount = s.connection.dispatchCount - n ∧
      (s.lower n member).reaps = if (s.lower n member).connection.state = .finished ∧
        (s.lower n member).connection.dispatchCount = 0 then 1 else 0 := by
  have hcount : toInt (s.connection.dispatchCount - n) = s.connection.dispatchCount - n := by
    have hrange := h.range
    exact toInt_of_lt (by omega) (by omega)
  have hdispatchCount := hlowers.dispatchCount
  have hreaps : s.reaps = 0 := by
    rw [h.reaped, if_neg]
    omega
  refine ⟨hdispatchCount.trans hcount, ?_⟩
  simp only [State.lower, hdispatchCount, hlowers.finished, hreaps, Nat.zero_add]

/-- Requests are released by who has to. -/
theorem Consistent.release (h : Consistent s ({.requests first n} + F)) (hpos : 0 < n)
    (hlowers : ConnectionI.Lowers n s.connection (final member s.connection)) :
    Consistent ((s.lower n member).release first n) F := by
  obtain ⟨hcount, hreaped⟩ := h.lower (Int.natCast_pos.mpr hpos) h.le_dispatchCount hlowers
  have hunreleased := h.unreleased_release
  have hbefore := h.count
  constructor
  · intro request
    have hr := h.requests request
    rw [owning_add, owning_singleton, Token.weight] at hr
    change _ + s.waiting request + ((s.released request + ite _ _ _ : Nat) : Int) =
      if request < s.counted then 1 else 0
    rw [← hr]
    split <;> omega
  · have hcalls := h.callbacks
    rw [calling_add, calling_singleton, Token.calls_requests, zero_add] at hcalls
    exact hcalls
  · intro i
    have hi := h.handles i
    rw [handling_add, handling_singleton, Token.handles_requests, zero_add] at hi
    exact hi
  · intro t ht
    exact (h.rest t ht).congr rfl rfl
  · exact h.completed
  · change (s.lower n member).connection.dispatchCount =
      s.callbacks + (s.release first n).unreleased
    omega
  · change (s.lower n member).connection.dispatchCount < _
    have hrange := h.range
    omega
  · exact hreaped

/-- Callbacks have returned. -/
theorem Consistent.dispatched {n : Int} (h : Consistent s ({.callbacks n} + F)) (hpos : 0 < n)
    (hlowers : ConnectionI.Lowers n s.connection (final member s.connection)) :
    Consistent { s.lower n member with callbacks := s.callbacks - n } F := by
  have hcalls := h.callbacks
  rw [calling_add, calling_singleton, Token.calls] at hcalls
  have hrest : 0 ≤ calling F := calling_nonneg h.rest
  have hbefore := h.count
  have hunreleased := h.unreleased_nonneg
  obtain ⟨hcount, hreaped⟩ := h.lower hpos (by omega) hlowers
  constructor
  · intro request
    have hr := h.requests request
    rw [owning_add, owning_singleton, Token.weight_callbacks, zero_add] at hr
    exact hr
  · change _ = s.callbacks - n
    omega
  · intro i
    have hi := h.handles i
    rw [handling_add, handling_singleton, Token.handles_callbacks, zero_add] at hi
    exact hi
  · intro t ht
    exact (h.rest t ht).congr rfl rfl
  · exact h.completed
  · change (s.lower n member).connection.dispatchCount = s.callbacks - n + s.unreleased
    omega
  · change (s.lower n member).connection.dispatchCount < _
    have hrange := h.range
    omega
  · exact hreaped

/-- A connection that is closed is finished. -/
theorem Consistent.finish (h : Consistent s R) (hclosed : s.connection.state = .closed) :
    Consistent { s with
      connection := final ConnectionI.finish s.connection
      reaps := if s.connection.dispatchCount = 0 then s.reaps + 1 else s.reaps } R := by
  obtain ⟨hstate, hcount⟩ := ConnectionI.finished_finish hclosed
  have hreaps : s.reaps = 0 := by
    rw [h.reaped, if_neg]
    rw [hclosed]
    exact fun hfinished => nomatch hfinished.1
  refine { h with tokens := ?_, count := ?_, range := ?_, reaped := ?_ }
  · intro t ht
    exact (h.tokens t ht).congr rfl rfl
  · rw [hcount]
    exact h.count
  · rw [hcount]
    exact h.range
  · simp only [hstate, hcount, hreaps, true_and, Nat.zero_add]

/-- What a message brings is counted, and has to be dispatched. -/
theorem Consistent.receive (h : Consistent s F) {call : ConnectionI.DispatchCall}
    (hcall : call.Fair) (hcount : connection.dispatchCount =
      toInt (s.connection.dispatchCount + (call.dispatchedCount + call.invokeNum)))
    (hbound : s.connection.dispatchCount + (call.dispatchedCount + call.invokeNum) < 2 ^ 31)
    (hs : s.connection.state ≠ .finished) (ht : connection.state ≠ .finished) :
    Consistent { s with
        connection
        counted := s.counted + call.invokeNum.toNat
        callbacks := s.callbacks + call.dispatchedCount }
      ({.requests s.counted call.invokeNum.toNat} + ({.callbacks call.dispatchedCount} + F)) := by
  have hcalls : 0 ≤ s.callbacks := h.callbacks ▸ calling_nonneg h.tokens
  have hunreleased := h.unreleased_nonneg
  have hnonneg := hcall.nonneg
  have hdispatched := call.dispatchedCount_nonneg
  have hbefore := h.count
  rw [toInt_of_lt (by omega) hbound] at hcount
  constructor
  · intro request
    have hr := h.requests request
    rw [owning_add, owning_singleton, owning_add, owning_singleton, Token.weight,
      Token.weight_callbacks, zero_add]
    change _ + s.waiting request + s.released request =
      if request < s.counted + call.invokeNum.toNat then 1 else 0
    split <;> split at hr <;> split <;> omega
  · rw [calling_add, calling_singleton, calling_add, calling_singleton, Token.calls_requests,
      Token.calls, h.callbacks]
    dsimp only
    omega
  · intro i
    rw [handling_add, handling_singleton, handling_add, handling_singleton,
      Token.handles_requests, Token.handles_callbacks, zero_add, zero_add]
    exact h.handles i
  · exact holds_add trivial (holds_add hdispatched fun t ht => (h.tokens t ht).congr rfl rfl)
  · exact h.completed
  · have hzero : ∀ request, s.counted ≤ request → s.released request = 0 := by
      intro request hrequest
      have hr := h.released_le request
      rw [if_neg (by omega)] at hr
      omega
    simp only [State.unreleased] at hbefore ⊢
    rw [hcount, sum_map_range_add hzero]
    omega
  · dsimp only
    omega
  · have hreaps := h.reaped
    rw [if_neg fun hfinished => hs hfinished.1] at hreaps
    dsimp only
    rw [hreaps, if_neg fun hfinished => ht hfinished.1]

theorem Token.handles_le (ht : t ∈ R) : t.handles i ≤ handling i R := by
  apply Multiset.single_le_sum
  · intro x hx
    obtain ⟨t', -, rfl⟩ := mem_map.mp hx
    exact Token.handles_nonneg
  · exact Multiset.mem_map_of_mem _ ht

/-- Nobody has an `Incoming` that does not exist. -/
theorem handling_length (h : ∀ t ∈ R, t.Holds s) : handling s.incomings.length R = 0 := by
  apply Multiset.sum_eq_zero
  intro x hx
  obtain ⟨t, ht, rfl⟩ := mem_map.mp hx
  cases t with
  | handle i incoming =>
    obtain ⟨hi, -⟩ := (List.getElem?_eq_some_iff.mp (h _ ht).1)
    rw [Token.handles, if_neg (Nat.ne_of_lt hi)]
  | requests first n => rfl
  | callbacks n => rfl
  | async a request => rfl

/-- Nobody else has the same `Incoming`. -/
theorem Consistent.others (h : Consistent s ({.handle i incoming} + F)) (ht : t ∈ F) :
    t.handles i ≠ 1 := by
  have hi := h.handles i
  rw [handling_add, handling_singleton, Token.handles, if_pos rfl] at hi
  have hle := Token.handles_le (i := i) ht
  omega

/-- Requests are released one after the other. -/
theorem Consistent.split (h : Consistent s ({.requests first (n + 1)} + F)) :
    Consistent s ({.requests first 1} + ({.requests (first + 1) n} + F)) := by
  apply h.exchange
  · intro request
    simp only [owning_add, owning_singleton, Token.weight]
    split <;> split <;> split <;> omega
  · simp
  · intro i
    simp
  · exact holds_add trivial (holds_add trivial h.rest)

/-- A request that was not released is released together with those behind it. -/
theorem Consistent.join
    (h : Consistent s ({.requests first 1} + ({.requests (first + 1) n} + F))) :
    Consistent s ({.requests first (n + 1)} + F) := by
  apply h.exchange
  · intro request
    simp only [owning_add, owning_singleton, Token.weight]
    split <;> split <;> split <;> omega
  · simp
  · intro i
    simp
  · exact holds_add trivial fun t ht => h.rest t (mem_add.mpr (.inr ht))

theorem Consistent.nothing (h : Consistent s ({.requests first 0} + F)) : Consistent s F := by
  apply h.exchange
  · intro request
    rw [owning_add, owning_singleton, Token.weight, if_neg (by omega), zero_add]
  · simp
  · intro i
    simp
  · exact h.rest

theorem Consistent.noCallbacks (h : Consistent s ({.callbacks 0} + F)) : Consistent s F := by
  apply h.exchange
  · intro request
    simp
  · simp [Token.calls]
  · intro i
    simp
  · exact h.rest

section

variable (h : Consistent s ({.handle i incoming} + F))

include h

/-- The request of an `Incoming` that was not dispatched asynchronously -/
theorem Consistent.giveUp
    (hnone : incoming.inAsync = none) : Consistent s ({.requests incoming.request 1} + F) := by
  apply h.exchange
  · intro request
    simp only [owning_add, owning_singleton, Token.weight, hnone, true_and]
    split <;> split <;> omega
  · simp
  · intro j
    simp only [handling_add, handling_singleton, Token.handles_requests]
    have hj : 0 ≤ (Token.handle i incoming).handles j := Token.handles_nonneg
    omega
  · exact holds_add trivial h.rest

/-- An `Incoming` that leaves its request to an asynchronous dispatch -/
theorem Consistent.leave {a : Nat}
    (hasync : incoming.inAsync = some a) : Consistent s F := by
  apply h.exchange
  · intro request
    simp [Token.weight, hasync]
  · simp
  · intro j
    rw [handling_add, handling_singleton]
    have hj : 0 ≤ (Token.handle i incoming).handles j := Token.handles_nonneg
    omega
  · exact h.rest

end

/-- It is known which request an asynchronous dispatch has. -/
theorem Consistent.knows (h : Consistent s F) (ha : s.AsyncOf a request) :
    Consistent s ({.async a request} + F) := by
  apply h.exchange
  · intro request
    simp
  · simp
  · intro j
    simp
  · exact holds_add ha h.tokens

theorem Consistent.forget (h : Consistent s ({.async a request} + F)) : Consistent s F := by
  apply h.exchange
  · intro request
    simp
  · simp
  · intro j
    simp
  · exact h.rest

theorem Consistent.asyncOf (h : Consistent s ({.handle i incoming} + F))
    (hasync : incoming.inAsync = some a) : s.AsyncOf a incoming.request := h.holds.2 a hasync

/-- The response of an asynchronous dispatch is sent by who asked first. -/
theorem Consistent.send (h : Consistent s ({.async a request} + F)) (ha : s.asyncs[a]? = some async)
    (hsent : async.responseSent = false) :
    Consistent { s with
        asyncs := s.asyncs.set a { async with responseSent := true, completed := true } }
      ({.requests request 1} + F) := by
  obtain ⟨async', ha', hrequest⟩ := h.holds
  cases ha.symm.trans ha'
  obtain ⟨halt, -⟩ := List.getElem?_eq_some_iff.mp ha
  constructor
  · intro r
    have hr := h.requests r
    rw [owning_add, owning_singleton, Token.weight_async, zero_add] at hr
    rw [owning_add, owning_singleton, Token.weight, ← hr]
    simp only [State.waiting, sum_map_set _ _ ha, IncomingAsync.waits, hsent, hrequest]
    split <;> split <;> simp at * <;> omega
  · have hcalls := h.callbacks
    simpa using hcalls
  · intro i
    have hi := h.handles i
    simpa using hi
  · refine holds_add trivial fun t ht => ?_
    apply (h.rest t ht).mono
    · intro _ _ _ hi
      exact hi
    · rintro b r ⟨async', hb, hr⟩
      by_cases hab : a = b
      · subst hab
        cases ha.symm.trans hb
        exact ⟨_, List.getElem?_set_self halt, hr⟩
      · exact ⟨async', by rw [List.getElem?_set_ne hab]; exact hb, hr⟩
  · apply forall_mem_set h.completed
    intro _
    rfl
  · exact h.count
  · exact h.range
  · exact h.reaped

/-- `Incoming` is created for a request. -/
theorem Consistent.create (h : Consistent s ({.requests incoming.request 1} + F))
    (hnone : incoming.inAsync = none) :
    Consistent { s with incomings := s.incomings ++ [incoming] }
      ({.handle s.incomings.length incoming} + F) := by
  have hlength : handling s.incomings.length F = 0 := handling_length h.rest
  constructor
  · intro request
    have hr := h.requests request
    rw [← hr]
    simp only [owning_add, owning_singleton, Token.weight, hnone, true_and]
    change _ + s.waiting request + _ = _
    split <;> split <;> omega
  · have hcalls := h.callbacks
    simpa using hcalls
  · intro i
    have hi := h.handles i
    rw [handling_add, handling_singleton, Token.handles_requests, zero_add] at hi
    rw [handling_add, handling_singleton, Token.handles]
    split
    · rename_i heq
      rw [← heq, hlength]
      exact Int.le_refl 1
    · omega
  · apply holds_add
    · constructor
      · simp
      · intro a ha
        rw [hnone] at ha
        cases ha
    · intro t ht
      apply (h.rest t ht).mono
      · intro i x _ hi
        obtain ⟨hlt, -⟩ := List.getElem?_eq_some_iff.mp hi
        rw [List.getElem?_append_left hlt]
        exact hi
      · intro _ _ ha
        exact ha
  · exact h.completed
  · exact h.count
  · exact h.range
  · exact h.reaped

section

variable (h : Consistent s ({.handle i incoming} + F))

include h

/-- An `Incoming` is changed by the thread that has it. -/
theorem Consistent.others_set {incoming' : Incoming}
    {asyncs : List IncomingAsync}
    (hasyncs : ∀ (a : Nat) (async : IncomingAsync), s.asyncs[a]? = some async →
      asyncs[a]? = some async) :
    ∀ t ∈ F, t.Holds { s with incomings := s.incomings.set i incoming', asyncs } := by
  intro t ht
  apply (h.rest t ht).mono
  · intro j x hj hx
    have hne : i ≠ j := by
      intro heq
      exact h.others ht (heq ▸ hj)
    rw [List.getElem?_set_ne hne]
    exact hx
  · rintro a r ⟨async, ha, hr⟩
    exact ⟨async, hasyncs a async ha, hr⟩

/-- An asynchronous dispatch takes the request over. -/
theorem Consistent.createAsync
    (hnone : incoming.inAsync = none) :
    Consistent { s with
        asyncs := s.asyncs ++ [{ incoming }]
        incomings := s.incomings.set i { incoming with inAsync := some s.asyncs.length } }
      ({.handle i { incoming with inAsync := some s.asyncs.length }} + F) := by
  obtain ⟨hlt, -⟩ := List.getElem?_eq_some_iff.mp h.holds.1
  constructor
  · intro request
    have hr := h.requests request
    rw [← hr]
    simp only [owning_add, owning_singleton, Token.weight, hnone, true_and, State.waiting,
      List.map_append, List.sum_append, List.map_singleton, List.sum_singleton,
      IncomingAsync.waits, reduceCtorEq, false_and, if_false]
    omega
  · have hcalls := h.callbacks
    simpa using hcalls
  · intro j
    have hj := h.handles j
    simpa [Token.handles] using hj
  · apply holds_add
    · constructor
      · exact List.getElem?_set_self hlt
      · intro a ha
        cases ha
        exact ⟨{ incoming }, by simp, rfl⟩
    · apply h.others_set
      intro a async ha
      obtain ⟨ha', -⟩ := List.getElem?_eq_some_iff.mp ha
      rw [List.getElem?_append_left ha']
      exact ha
  · intro async hasync
    rcases List.mem_append.mp hasync with hasync | hasync
    · exact h.completed async hasync
    · rw [List.mem_singleton.mp hasync]
      exact fun hcompleted => hcompleted
  · exact h.count
  · exact h.range
  · exact h.reaped

end

/-- The request of an asynchronous dispatch that was killed is dispatched again. -/
theorem Consistent.startOver
    (h : Consistent s ({.handle i incoming} + ({.requests incoming.request 1} + F)))
    (hasync : incoming.inAsync = some a) :
    Consistent { s with incomings := s.incomings.set i { incoming with inAsync := none } }
      ({.handle i { incoming with inAsync := none }} + F) := by
  obtain ⟨hlt, -⟩ := List.getElem?_eq_some_iff.mp h.holds.1
  constructor
  · intro request
    have hr := h.requests request
    rw [← hr]
    simp only [owning_add, owning_singleton, Token.weight, hasync, true_and, reduceCtorEq,
      false_and, if_false]
    change _ + s.waiting request + _ = _
    split <;> split <;> omega
  · have hcalls := h.callbacks
    simpa using hcalls
  · intro j
    have hj := h.handles j
    simpa [Token.handles] using hj
  · refine holds_add ⟨List.getElem?_set_self hlt, nofun⟩ fun t ht =>
      h.others_set ?_ t (mem_add.mpr (.inr ht))
    intro _ _ ha
    exact ha
  · exact h.completed
  · exact h.count
  · exact h.range
  · exact h.reaped

end steps

end Ice.Protocol.Dispatching
