import Ice.Glacier2.RequestQueue
import Ice.Lib.Lists

/-!
# The books of the request queues

What a queue has written down about its requests, which AMD callbacks are still to be called, and
who attends to a queue with requests.
-/

namespace Ice.Glacier2.Buffered

open Lib
open State (isTwoway)
open List (count_append count_pos_iff count_singleton length_append length_singleton map_append
  map_cons mem_append mem_map sum_cons)

section flushLoop

variable {s : State} {outcome : Nat → Outcome} {requests : List Nat} {r : Nat}

theorem flushLoop_append : (s.flushLoop outcome requests).invoked ++
    (s.flushLoop outcome requests).rest = requests := by
  induction requests with
  | nil => rfl
  | cons r rest ih =>
    rw [State.flushLoop]
    split
    · exact congrArg (r :: ·) ih
    · split
      · rfl
      · exact congrArg (r :: ·) ih

/-- The loop stops at a request that is not sent, or goes to the end. -/
theorem flushLoop_pending (s : State) (outcome : Nat → Outcome) (requests : List Nat) :
    ((s.flushLoop outcome requests).pending = none ∧ (s.flushLoop outcome requests).rest = []) ∨
      ∃ r ∈ (s.flushLoop outcome requests).invoked,
        (s.flushLoop outcome requests).pending = some r ∧ s.isBatch r = false ∧
          outcome r = .pending := by
  induction requests with
  | nil => exact .inl ⟨rfl, rfl⟩
  | cons r rest ih =>
    have hgo : ∀ f : State.Flushed, f = s.flushLoop outcome rest →
        (f.pending = none ∧ f.rest = []) ∨ ∃ r' ∈ r :: f.invoked,
          f.pending = some r' ∧ s.isBatch r' = false ∧ outcome r' = .pending := by
      rintro f rfl
      refine ih.imp id ?_
      rintro ⟨r', hr', h⟩
      exact ⟨r', List.mem_cons_of_mem _ hr', h⟩
    rw [State.flushLoop]
    split
    · exact hgo _ rfl
    · rename_i hbatch
      split
      · rename_i hpending
        exact .inr ⟨r, List.mem_cons_self, rfl, by simpa using hbatch, hpending⟩
      · exact hgo _ rfl

end flushLoop

/-- A queue names each request once: it has a place, or it was replaced. -/
structure Books (requests : List Request) (q : RequestQueue) : Prop where
  places : q.invoked ++ q.requests = q.places
  accounts : ∀ r, q.places.count r + (q.replaced.map (·.1)).count r = q.accepted.count r
  accepted : ∀ r, q.accepted.count r ≤ if r < requests.length then 1 else 0
  replaced : ∀ p ∈ q.replaced, p.1 < p.2 ∧ ∃ old new : Request,
    requests[p.1]? = some old ∧ requests[p.2]? = some new ∧ new.overrides old = true
  callback : q.destroyed = false → q.callback = true
  asserted : q.requests ≠ [] → q.callback = true

section books

variable {requests : List Request} {request : Request} {q : RequestQueue} {r : Nat} {s : State}

section

variable (h : Books requests q)

include h

theorem Books.append (request : Request) :
    Books (requests ++ [request]) q := by
  refine { h with accepted := ?_, replaced := ?_ }
  · intro r
    have hr := h.accepted r
    rw [length_append, length_singleton]
    split at hr
    · rw [if_pos (by omega)]
      exact hr
    · exact hr.trans (Nat.zero_le _)
  · intro p hp
    obtain ⟨hlt, old, new, hold, hnew, hover⟩ := h.replaced p hp
    obtain ⟨hold', -⟩ := List.getElem?_eq_some_iff.mp hold
    obtain ⟨hnew', -⟩ := List.getElem?_eq_some_iff.mp hnew
    refine ⟨hlt, old, new, ?_, ?_, hover⟩
    · rw [List.getElem?_append_left hold']
      exact hold
    · rw [List.getElem?_append_left hnew']
      exact hnew

theorem Books.lt (hr : r ∈ q.accepted) : r < requests.length := by
  have hcount := h.accepted r
  have hpos : 0 < q.accepted.count r := count_pos_iff.mpr hr
  split at hcount <;> omega

theorem Books.mem_accepted (hr : r ∈ q.requests) : r ∈ q.accepted := by
  apply count_pos_iff.mp
  have hpos : 0 < q.requests.count r := count_pos_iff.mpr hr
  have haccounts := h.accounts r
  rw [← h.places, count_append] at haccounts
  omega

/-- A request that was accepted waits, was invoked or was replaced. -/
theorem Books.once (hr : r ∈ q.accepted) :
    q.invoked.count r + q.requests.count r + (q.replaced.map (·.1)).count r = 1 := by
  have hpos : 0 < q.accepted.count r := count_pos_iff.mpr hr
  have haccounts := h.accounts r
  have haccepted := h.accepted r
  rw [← h.places, count_append] at haccounts
  rw [if_pos (h.lt hr)] at haccepted
  omega

end

/-- The next number is new in a list of smaller ones. -/
theorem count_append_le {l : List Nat} {n : Nat} (h : ∀ r, l.count r ≤ if r < n then 1 else 0)
    (r : Nat) : (l ++ [n]).count r ≤ if r < n + 1 then 1 else 0 := by
  have hr := h r
  rw [count_append, count_singleton]
  rcases Nat.lt_trichotomy r n with hlt | rfl | hlt
  · rw [if_pos hlt] at hr
    rw [if_neg (by simp; omega), if_pos (Nat.lt_succ_of_lt hlt)]
    exact hr
  · rw [if_neg (Nat.lt_irrefl r)] at hr
    rw [if_pos (beq_self_eq_true r), if_pos (Nat.lt_succ_self r)]
    omega
  · rw [if_neg (by omega)] at hr
    rw [if_neg (by simp; omega)]
    exact hr.trans (Nat.zero_le _)

section

variable (h : Books requests q)

include h

/-- A request is put behind the others. -/
theorem Books.push (request : Request) (hdestroyed : q.destroyed = false) :
    Books (requests ++ [request]) { q with
      requests := q.requests ++ [requests.length]
      accepted := q.accepted ++ [requests.length]
      places := q.places ++ [requests.length] } := by
  have happend := h.append request
  refine { happend with places := ?_, accounts := ?_, accepted := ?_, asserted := ?_ }
  · dsimp only
    rw [← h.places, List.append_assoc]
  · intro r
    have hr := h.accounts r
    simp only [count_append]
    omega
  · intro r
    rw [length_append, length_singleton]
    exact count_append_le h.accepted r
  · intro _
    exact h.callback hdestroyed

/-- A request takes the place of another one. -/
theorem Books.replace {k old : Nat} {oldRequest : Request}
    (hold : q.requests[k]? = some old) (holdRequest : requests[old]? = some oldRequest)
    (hover : request.overrides oldRequest = true) (hdestroyed : q.destroyed = false) :
    Books (requests ++ [request]) { q with
      requests := q.requests.set k requests.length
      accepted := q.accepted ++ [requests.length]
      places := q.places.set (q.invoked.length + k) requests.length
      replaced := q.replaced ++ [(old, requests.length)] } := by
  have happend := h.append request
  obtain ⟨hk, hget⟩ := List.getElem?_eq_some_iff.mp hold
  obtain ⟨holdlt, -⟩ := List.getElem?_eq_some_iff.mp holdRequest
  have hplaces : q.invoked ++ q.requests.set k requests.length =
      q.places.set (q.invoked.length + k) requests.length := by
    rw [← h.places, List.set_append_right _ _ (Nat.le_add_right _ _), Nat.add_sub_cancel_left]
  refine { happend with
    places := hplaces, accounts := ?_, accepted := ?_, replaced := ?_, asserted := ?_ }
  · intro r
    have hr := h.accounts r
    rw [← h.places, count_append] at hr
    dsimp only
    rw [← hplaces]
    simp only [count_append, map_append, List.map_singleton, count_singleton]
    rw [List.count_set hk, hget]
    have hcount : (if old = r then 1 else 0) ≤ q.requests.count r := by
      split
      · rename_i heq
        rw [← heq, ← hget]
        exact count_pos_iff.mpr (List.getElem_mem hk)
      · exact Nat.zero_le _
    simp only [beq_iff_eq]
    omega
  · intro r
    rw [length_append, length_singleton]
    exact count_append_le h.accepted r
  · intro p hp
    rcases mem_append.mp hp with hp | hp
    · exact happend.replaced p hp
    · rw [List.mem_singleton.mp hp]
      refine ⟨holdlt, oldRequest, request, ?_, ?_, hover⟩
      · rw [List.getElem?_append_left holdlt]
        exact holdRequest
      · exact List.getElem?_concat_length
  · intro _
    exact h.callback hdestroyed

/-- Requests are invoked in their order. -/
theorem Books.invoke {invoked rest : List Nat}
    (hsplit : invoked ++ rest = q.requests) {batchProxies : List ObjectPrx} {pendingSend : Bool}
    {pendingSendRequest : Option Nat} :
    Books requests { q with
      requests := rest
      batchProxies
      pendingSend
      pendingSendRequest
      invoked := q.invoked ++ invoked } := by
  refine { h with places := ?_, asserted := ?_ }
  · dsimp only
    rw [List.append_assoc, hsplit]
    exact h.places
  · intro hrest
    apply h.asserted
    rw [← hsplit]
    simp [hrest]

theorem Books.destroyIfEmpty :
    Books requests { q with destroyed := true }.destroyIfEmpty := by
  rw [RequestQueue.destroyIfEmpty]
  split
  · rename_i hempty
    refine { h with callback := nofun, asserted := ?_ }
    intro hrequests
    exact absurd (List.isEmpty_iff.mp hempty) hrequests
  · exact { h with callback := nofun }

end

end books

/-- How often a request waits in a queue -/
def State.waiting (s : State) (r : Nat) : Int :=
  (s.queues.map fun q => (q.requests.count r : Int)).sum

/-- Will the send complete, for the request? -/
def Send.completing (r : Nat) (send : Send) : Int :=
  if send.request = some r ∧ send.completes = true then 1 else 0

def State.completing (s : State) (r : Nat) : Int := (s.sends.map (Send.completing r)).sum

/-- Each request has one AMD callback, which was called or, for a twoway request, is to be called
for a request that waits or for a send that will complete. -/
structure Answered (s : State) : Prop where
  owed : ∀ r, (s.answers.count r : Int) +
    (if s.isTwoway r then s.waiting r + s.completing r else 0) =
      if r < s.requests.length then 1 else 0
  sends : ∀ send ∈ s.sends, ∀ r, send.request = some r → r < s.requests.length

section answered

variable {s t : State} {i r : Nat} {q q' : RequestQueue} {request : Request} {send : Send}

theorem waiting_nonneg : 0 ≤ s.waiting r :=
  sum_map_nonneg _ fun _ _ => Int.natCast_nonneg _

theorem completing_nonneg : 0 ≤ s.completing r := by
  apply sum_map_nonneg
  intro send _
  rw [Send.completing]
  split <;> omega

theorem waiting_set (hq : s.queues[i]? = some q) : (s.setQueue i q').waiting r =
    s.waiting r - q.requests.count r + q'.requests.count r :=
  sum_map_set _ _ hq

theorem isTwoway_append (hr : r < s.requests.length) :
    ({ s with requests := s.requests ++ [request] } : State).isTwoway r = s.isTwoway r := by
  rw [isTwoway, isTwoway, List.getElem?_append_left hr]

theorem isTwoway_length : ({ s with requests := s.requests ++ [request] } : State).isTwoway
    s.requests.length = request.proxy.isTwoway := by
  rw [isTwoway, List.getElem?_concat_length]
  rfl

theorem isTwoway_lt (h : s.isTwoway r = true) : r < s.requests.length := by
  by_contra hge
  rw [isTwoway, List.getElem?_eq_none (Nat.not_lt.mp hge)] at h
  cases h

/-- Nothing is owed for a request that is not there yet. -/
theorem Answered.count_of_le (h : Answered s) (hr : s.requests.length ≤ r) :
    s.answers.count r = 0 := by
  have howed := h.owed r
  have htwoway : s.isTwoway r = false := by
    rw [isTwoway, List.getElem?_eq_none hr]
    rfl
  rw [htwoway, if_neg nofun, if_neg (Nat.not_lt.mpr hr)] at howed
  omega

theorem Answered.completing_of_le (h : Answered s) (hr : s.requests.length ≤ r) :
    s.completing r = 0 := by
  apply List.sum_eq_zero
  intro x hx
  obtain ⟨send, hsend, rfl⟩ := mem_map.mp hx
  rw [Send.completing, if_neg]
  rintro ⟨hrequest, -⟩
  exact absurd (h.sends send hsend r hrequest) (Nat.not_lt.mpr hr)

/-- A request is dispatched: it is answered, or it waits in a queue. -/
theorem Answered.dispatch (h : Answered s) (hrequests : t.requests = s.requests ++ [request])
    (hsends : t.sends = s.sends)
    (hwaiting : ∀ r < s.requests.length, s.isTwoway r = true → t.waiting r = s.waiting r)
    (hnew : t.answers = s.answers ∧ request.proxy.isTwoway = true ∧
        t.waiting s.requests.length = 1 ∨
      t.answers = s.answers ++ [s.requests.length] ∧
        (request.proxy.isTwoway = true → t.waiting s.requests.length = 0)) : Answered t := by
  have htwoway : ∀ r, t.isTwoway r =
      ({ s with requests := s.requests ++ [request] } : State).isTwoway r := by
    intro r
    rw [isTwoway, isTwoway, hrequests]
  have hcompleting : ∀ r, t.completing r = s.completing r := by
    intro r
    rw [State.completing, State.completing, hsends]
  constructor
  · intro r
    have howed := h.owed r
    rw [hrequests, length_append, length_singleton, htwoway, hcompleting]
    rcases Nat.lt_trichotomy r s.requests.length with hlt | rfl | hlt
    · have hanswers : t.answers.count r = s.answers.count r := by
        rcases hnew with ⟨heq, -⟩ | ⟨heq, -⟩
        · rw [heq]
        · rw [heq, count_append, count_singleton, if_neg (by simp; omega),
            Nat.add_zero]
      rw [if_pos hlt] at howed
      rw [isTwoway_append hlt, hanswers, if_pos (Nat.lt_succ_of_lt hlt), ← howed]
      split
      · rw [hwaiting r hlt ‹_›]
      · rfl
    · have hzero := h.count_of_le (Nat.le_refl _)
      have hnone := h.completing_of_le (Nat.le_refl _)
      rw [isTwoway_length, hnone, if_pos (Nat.lt_succ_self _)]
      rcases hnew with ⟨heq, htwo, hone⟩ | ⟨heq, hwait⟩
      · rw [heq, hzero, htwo, hone]
        rfl
      · rw [heq, count_append, hzero, count_singleton, if_pos (beq_self_eq_true _)]
        split
        · rw [hwait ‹_›]
          rfl
        · rfl
    · have htwo : ({ s with requests := s.requests ++ [request] } : State).isTwoway r = false := by
        rw [isTwoway, List.getElem?_eq_none (by simp; omega)]
        rfl
      have hzero := h.count_of_le (Nat.le_of_lt hlt)
      have hanswers : t.answers.count r = 0 := by
        rcases hnew with ⟨heq, -⟩ | ⟨heq, -⟩
        · rw [heq, hzero]
        · rw [heq, count_append, count_singleton, if_neg (by simp; omega), hzero]
      rw [htwo, if_neg (by simp), hanswers, if_neg (by omega)]
      rfl
  · intro send hsend r hr
    rw [hsends] at hsend
    rw [hrequests, length_append]
    exact Nat.lt_add_right _ (h.sends send hsend r hr)

theorem Outcome.send_request {outcome : Outcome} {r : Option Nat} {twoway : Bool}
    (h : outcome.send i r twoway = some send) : send.request = r := by
  cases outcome <;> cases h <;> rfl

variable {invoked : List Nat} {outcome : Nat → Outcome}

/-- Where no invocation of a twoway request throws, each of them will complete. -/
theorem completing_sendsOf (hreturns : outcome r ≠ .throws) (htwoway : s.isTwoway r = true) :
    ((s.sendsOf i outcome invoked).map (Send.completing r)).sum = invoked.count r := by
  induction invoked with
  | nil => rfl
  | cons r' invoked ih =>
    rw [State.sendsOf] at ih ⊢
    rw [List.count_cons]
    by_cases heq : r' = r
    · subst heq
      have hbatch : s.isBatch r' = false := by
        rw [isTwoway, Option.any_eq_true] at htwoway
        obtain ⟨request, hrequest, htwo⟩ := htwoway
        have hmode : request.proxy.mode = .twoway := of_decide_eq_true htwo
        rw [State.isBatch, hrequest, Option.any_some, ObjectPrx.isBatch, hmode]
        rfl
      obtain ⟨send, hsend, hone⟩ : ∃ send, (outcome r').send i (some r') (s.isTwoway r') =
          some send ∧ send.completing r' = 1 := by
        rw [htwoway]
        cases hr : outcome r' with
        | sentSynchronously | pending => exact ⟨_, rfl, if_pos ⟨rfl, rfl⟩⟩
        | completed failed => exact ⟨_, rfl, if_pos ⟨rfl, Bool.or_true failed⟩⟩
        | throws => exact absurd hr hreturns
      rw [List.filterMap_cons_some (by rw [hbatch, if_neg nofun]; exact hsend), map_cons,
        sum_cons, ih, hone, if_pos (beq_self_eq_true r')]
      omega
    · rw [if_neg (by simpa using heq), Nat.add_zero, ← ih]
      cases hsend : (if s.isBatch r' then none
          else (outcome r').send i (some r') (s.isTwoway r')) with
      | none => simp only [List.filterMap_cons, hsend]
      | some send =>
        have hother : send.completing r = 0 := by
          have hrequest : send.request = some r' := by
            split at hsend
            · cases hsend
            · exact Outcome.send_request hsend
          rw [Send.completing, hrequest, if_neg]
          rintro ⟨hsome, -⟩
          exact heq (Option.some.inj hsome)
        simp only [List.filterMap_cons, hsend, map_cons, sum_cons, hother,
          Int.zero_add]

theorem mem_sendsOf (h : send ∈ s.sendsOf i outcome invoked) :
    ∃ r ∈ invoked, send.request = some r := by
  obtain ⟨r, hr, hsend⟩ := List.mem_filterMap.mp h
  refine ⟨r, hr, ?_⟩
  split at hsend
  · cases hsend
  · exact Outcome.send_request hsend

/-- Requests that waited are invoked. -/
theorem Answered.invoke (h : Answered s) (hq : s.queues[i]? = some q) (flushed : List Send)
    (q' : RequestQueue) (hsplit : invoked ++ q'.requests = q.requests)
    (hlt : ∀ r ∈ q.requests, r < s.requests.length)
    (hflushed : ∀ send ∈ flushed, send.request = none)
    (hreturns : ∀ r < s.requests.length, s.isTwoway r = true → outcome r ≠ .throws) :
    Answered ({ s with
      sends := s.sends ++ s.sendsOf i outcome invoked ++ flushed }.setQueue i q') := by
  constructor
  · intro r
    apply Eq.trans _ (h.owed r)
    change _ + (if s.isTwoway r then _ else _) = _ + (if s.isTwoway r then _ else _)
    split
    · rename_i htwoway
      have hwaiting : ({ s with
          sends := s.sends ++ s.sendsOf i outcome invoked ++ flushed }.setQueue i q').waiting r =
            s.waiting r - q.requests.count r + q'.requests.count r := waiting_set hq
      have hnone : (flushed.map (Send.completing r)).sum = 0 := by
        apply List.sum_eq_zero
        intro x hx
        obtain ⟨send, hsend, rfl⟩ := mem_map.mp hx
        rw [Send.completing, hflushed send hsend, if_neg]
        exact fun hsome => nomatch hsome.1
      have hcompleting : ({ s with
          sends := s.sends ++ s.sendsOf i outcome invoked ++ flushed }.setQueue i q').completing r =
            s.completing r + invoked.count r := by
        change ((s.sends ++ s.sendsOf i outcome invoked ++ flushed).map _).sum = _
        rw [map_append, map_append, List.sum_append, List.sum_append, hnone,
          completing_sendsOf (hreturns r (isTwoway_lt htwoway) htwoway) htwoway]
        exact Int.add_zero _
      rw [hwaiting, hcompleting, ← hsplit, count_append]
      change (s.answers.count r : Int) + _ = _
      omega
    · rfl
  · intro send hsend r hr
    rcases mem_append.mp hsend with hsend | hsend
    · rcases mem_append.mp hsend with hsend | hsend
      · exact h.sends send hsend r hr
      · obtain ⟨r', hr', hrequest⟩ := mem_sendsOf hsend
        cases hr.symm.trans hrequest
        apply hlt r
        rw [← hsplit]
        exact List.mem_append_left _ hr'
    · rw [hflushed send hsend] at hr
      cases hr

/-- A send changes, and the request that it is for is answered with it. -/
theorem Answered.set (h : Answered s) (answers : List Nat) {k : Nat} {done : Send}
    (hsend : s.sends[k]? = some send) (hrequest : done.request = send.request)
    (hanswers : ∀ r, s.isTwoway r = true →
      (answers.count r : Int) + done.completing r = s.answers.count r + send.completing r)
    (hother : ∀ r, s.isTwoway r = false → answers.count r = s.answers.count r) :
    Answered { s with sends := s.sends.set k done, answers } := by
  constructor
  · intro r
    apply Eq.trans _ (h.owed r)
    change _ + (if s.isTwoway r then _ else _) = _ + (if s.isTwoway r then _ else _)
    have hcompleting : ({ s with sends := s.sends.set k done, answers } : State).completing r =
        s.completing r - send.completing r + done.completing r := sum_map_set _ _ hsend
    have hwaiting : ({ s with sends := s.sends.set k done, answers } : State).waiting r =
        s.waiting r := rfl
    cases htwoway : s.isTwoway r with
    | true =>
      have hr := hanswers r htwoway
      rw [hcompleting, hwaiting, if_pos rfl, if_pos rfl]
      dsimp only
      omega
    | false =>
      rw [if_neg nofun, if_neg nofun]
      dsimp only
      rw [hother r htwoway]
  · apply forall_mem_set h.sends
    intro r hr
    exact h.sends send (List.mem_of_getElem? hsend) r (hrequest.symm.trans hr)

end answered

/-- Somebody will call the callback that the queue waits for. -/
def Awaits (s : State) (i : Nat) (q : RequestQueue) : Prop :=
  ∃ send ∈ s.sends, send.queue = i ∧ send.request = q.pendingSendRequest ∧ send.outstanding = true

def RequestQueueThread.Has (thread : RequestQueueThread) (i : Nat) : Prop :=
  i ∈ thread.queues ∨ i ∈ thread.flushing

/-- A queue with requests awaits its connection, or the thread knows it. -/
structure Attention (s : State) : Prop where
  pending : ∀ i q, s.queues[i]? = some q → q.pendingSend = true →
    q.connection = true ∧ Awaits s i q
  registered : ∀ i q, s.queues[i]? = some q → q.requests ≠ [] → q.pendingSend = false →
    s.thread.Has i

section attention

variable {s t : State} {i j k : Nat} {q q' : RequestQueue} {send done : Send}
  {outcome : Nat → Outcome} {batch : Outcome}

theorem Awaits.mono (h : Awaits s i q) (hsends : s.sends ⊆ t.sends) : Awaits t i q := by
  obtain ⟨send, hsend, h⟩ := h
  exact ⟨send, hsends hsend, h⟩

/-- A queue changes, and somebody attends to it; the others are attended to as before. -/
theorem Attention.setQueue (h : Attention s) (hqueues : t.queues = s.queues.set i q')
    (hawaits : ∀ j q, j ≠ i → s.queues[j]? = some q → q.pendingSend = true → Awaits s j q →
      Awaits t j q)
    (hthread : ∀ j, j ≠ i → s.thread.Has j → t.thread.Has j)
    (hpending : q'.pendingSend = true → q'.connection = true ∧ Awaits t i q')
    (hregistered : q'.requests ≠ [] → q'.pendingSend = false → t.thread.Has i) : Attention t := by
  constructor
  · intro j q hq hp
    rw [hqueues] at hq
    by_cases hij : i = j
    · subst hij
      obtain ⟨hlt, -⟩ := List.getElem?_eq_some_iff.mp hq
      rw [List.length_set] at hlt
      rw [List.getElem?_set_self hlt] at hq
      cases hq
      exact hpending hp
    · rw [List.getElem?_set_ne hij] at hq
      obtain ⟨hconnection, ha⟩ := h.pending j q hq hp
      exact ⟨hconnection, hawaits j q (Ne.symm hij) hq hp ha⟩
  · intro j q hq hr hp
    rw [hqueues] at hq
    by_cases hij : i = j
    · subst hij
      obtain ⟨hlt, -⟩ := List.getElem?_eq_some_iff.mp hq
      rw [List.length_set] at hlt
      rw [List.getElem?_set_self hlt] at hq
      cases hq
      exact hregistered hr hp
    · rw [List.getElem?_set_ne hij] at hq
      exact hthread j (Ne.symm hij) (h.registered j q hq hr hp)

/-- Nothing but the thread and the sends changes. -/
theorem Attention.sameQueues (h : Attention s) (hqueues : t.queues = s.queues)
    (hawaits : ∀ j q, s.queues[j]? = some q → q.pendingSend = true → Awaits s j q → Awaits t j q)
    (hthread : ∀ j q, s.queues[j]? = some q → q.pendingSend = false → s.thread.Has j →
      t.thread.Has j) : Attention t := by
  constructor
  · intro j q hq hp
    rw [hqueues] at hq
    obtain ⟨hconnection, ha⟩ := h.pending j q hq hp
    exact ⟨hconnection, hawaits j q hq hp ha⟩
  · intro j q hq hr hp
    rw [hqueues] at hq
    exact hthread j q hq hp (h.registered j q hq hr hp)

/-- A callback is called: who waits for another one still waits. -/
theorem Awaits.set (h : Awaits s j q) (hsend : s.sends[k]? = some send)
    (hother : done.outstanding = send.outstanding ∧ done.queue = send.queue ∧
        done.request = send.request ∨
      ¬(send.queue = j ∧ send.request = q.pendingSendRequest))
    {answers : List Nat} : Awaits { s with sends := s.sends.set k done, answers } j q := by
  obtain ⟨send', hmem, hqueue, hrequest, houtstanding⟩ := h
  obtain ⟨m, hm⟩ := List.getElem?_of_mem hmem
  obtain ⟨hk, -⟩ := List.getElem?_eq_some_iff.mp hsend
  by_cases hkm : k = m
  · subst hkm
    cases hsend.symm.trans hm
    rcases hother with ⟨ho, hq, hr⟩ | hne
    · exact ⟨done, List.mem_set hk _, hq.trans hqueue, hr.trans hrequest, ho.trans houtstanding⟩
    · exact absurd ⟨hqueue, hrequest⟩ hne
  · refine ⟨send', ?_, hqueue, hrequest, houtstanding⟩
    apply List.mem_of_getElem?
    rw [List.getElem?_set_ne hkm]
    exact hm

/-- After `flush`, the queue is empty or waits for a send. -/
theorem flush_attended (s : State) (i : Nat) (outcome : Nat → Outcome) (batch : Outcome)
    (hconnection : q.connection = true) :
    ∃ q', (s.flush i q outcome batch).1.queues = s.queues.set i q' ∧
      (q'.requests ≠ [] → q'.pendingSend = true) ∧
      (q'.pendingSend = true → q'.connection = true ∧
        Awaits (s.flush i q outcome batch).1 i q') := by
  have hpending := flushLoop_pending s outcome q.requests
  refine ⟨_, rfl, ?_, ?_⟩
  · intro hrest
    dsimp only at hrest ⊢
    rcases hpending with ⟨-, hnil⟩ | ⟨r, -, hsome, -⟩
    · exact absurd hnil hrest
    · rw [hsome]
      exact Bool.or_true _
  · intro hwaits
    refine ⟨hconnection, ?_⟩
    by_cases hwait : ((s.flushLoop outcome q.requests).flushBatchRequests &&
        decide (batch = .pending)) = true
    · obtain ⟨hflush, hbatch⟩ := Bool.and_eq_true_iff.mp hwait
      have hbatch : batch = .pending := of_decide_eq_true hbatch
      refine ⟨⟨i, none, true, true, true⟩, ?_, rfl, ?_, rfl⟩
      · apply List.mem_append_right
        rw [if_pos hflush, hbatch]
        exact List.mem_singleton_self _
      · dsimp only
        rw [if_pos hwait]
    · dsimp only at hwaits
      rw [Bool.eq_false_of_not_eq_true hwait, Bool.false_or] at hwaits
      rcases hpending with ⟨hnone, -⟩ | ⟨r, hr, hsome, hbatch, houtcome⟩
      · rw [hnone] at hwaits
        cases hwaits
      · refine ⟨⟨i, some r, true, true, true⟩, ?_, rfl, ?_, rfl⟩
        · apply List.mem_append_left
          apply List.mem_append_right
          apply List.mem_filterMap.mpr
          refine ⟨r, hr, ?_⟩
          rw [hbatch, if_neg nofun, houtcome]
          rfl
        · dsimp only
          rw [if_neg hwait, hsome]

end attention

end Ice.Glacier2.Buffered
