import Ice.Glacier2.RequestQueueBooks

/-!
# Runs of the request queues

Each step of a run that meets the condition keeps what the queues have written down, what is owed
to the callers and who attends to a queue.
-/

namespace Ice.Glacier2.Buffered

open Lib
open State (answerSend flushLoop isTwoway)
open List (append_nil count_append mem_append_left mem_map sum_eq_zero)

/-- What every step of the queues and their thread keeps -/
structure Consistent (s : State) : Prop where
  books : ∀ q ∈ s.queues, Books s.requests q
  answered : Answered s
  attention : Attention s

section steps

variable {s t : State} {i j k r : Nat} {q q' : RequestQueue} {request : Request}
  {send done : Send} {outcome : Nat → Outcome} {batch : Outcome}

section

variable (h : Consistent s)

include h

section

variable (hq : s.queues[i]? = some q)

include hq

theorem Consistent.booksAt :
    Books s.requests q :=
  h.books q (List.mem_of_getElem? hq)

theorem Consistent.lt (hr : r ∈ q.requests) :
    r < s.requests.length :=
  (h.booksAt hq).lt ((h.booksAt hq).mem_accepted hr)

/-- A request that is not there yet does not wait. -/
theorem Consistent.count_length :
    q.requests.count s.requests.length = 0 := by
  apply List.count_eq_zero.mpr
  intro hr
  exact Nat.lt_irrefl _ (h.lt hq hr)

end

theorem Consistent.waiting_length : s.waiting s.requests.length = 0 := by
  apply sum_eq_zero
  intro x hx
  obtain ⟨q, hq, rfl⟩ := mem_map.mp hx
  obtain ⟨i, hi⟩ := List.getElem?_of_mem hq
  rw [h.count_length hi]
  rfl

end

/-- A queue changes in nothing that the others look at. -/
theorem Attention.setAlike (h : Attention s) (hq : s.queues[i]? = some q)
    (hqueues : t.queues = s.queues.set i q') (hsends : t.sends = s.sends)
    (hthread : ∀ j, s.thread.Has j → t.thread.Has j)
    (hconnection : q'.connection = q.connection) (hpending : q'.pendingSend = q.pendingSend)
    (hrequest : q'.pendingSendRequest = q.pendingSendRequest)
    (hregistered : q'.requests ≠ [] → q'.pendingSend = false → t.thread.Has i) :
    Attention t := by
  apply h.setQueue hqueues
  · intro j q _ _ _ ha
    exact ha.mono fun _ hsend => hsends ▸ hsend
  · intro j _ hj
    exact hthread j hj
  · intro hp
    rw [hpending] at hp
    obtain ⟨hc, send, hsend, hqueue, hr, ho⟩ := h.pending i q hq hp
    exact ⟨hconnection.trans hc, send, hsends ▸ hsend, hqueue, hr.trans hrequest.symm, ho⟩
  · exact hregistered

theorem Consistent.destroyQueue (h : Consistent s) (hq : s.queues[i]? = some q) :
    Consistent (s.destroyQueue i q) := by
  obtain ⟨hrequests, hconnection, hpending, hrequest⟩ :
      { q with destroyed := true }.destroyIfEmpty.requests = q.requests ∧
      { q with destroyed := true }.destroyIfEmpty.connection = q.connection ∧
      { q with destroyed := true }.destroyIfEmpty.pendingSend = q.pendingSend ∧
      { q with destroyed := true }.destroyIfEmpty.pendingSendRequest = q.pendingSendRequest := by
    rw [RequestQueue.destroyIfEmpty]
    split <;> exact ⟨rfl, rfl, rfl, rfl⟩
  constructor
  · exact forall_mem_set h.books (h.booksAt hq).destroyIfEmpty
  · constructor
    · intro r
      have hwaiting : (s.destroyQueue i q).waiting r = s.waiting r := by
        rw [State.destroyQueue, waiting_set hq, hrequests]
        omega
      apply Eq.trans _ (h.answered.owed r)
      rw [hwaiting]
      rfl
    · exact h.answered.sends
  · apply h.attention.setAlike (t := s.destroyQueue i q) hq rfl rfl (fun _ hj => hj) hconnection
      hpending hrequest
    intro hr hp
    exact h.attention.registered i q hq (hrequests ▸ hr) (hpending ▸ hp)

/-- The queue is empty or waits for a send. -/
def Served (s : State) (i : Nat) : Prop :=
  ∀ q, s.queues[i]? = some q → q.requests ≠ [] → q.pendingSend = true

theorem Consistent.finishDestroy (h : Consistent s) (hserved : Served s i) :
    Consistent (s.finishDestroy i) ∧ Served (s.finishDestroy i) i ∧
      (s.finishDestroy i).thread = s.thread := by
  rw [State.finishDestroy]
  split
  · exact ⟨h, hserved, rfl⟩
  · rename_i q hq
    split
    · rename_i hdestroyed
      have hsame : q = { q with destroyed := true } := by rw [← hdestroyed]
      have hconsistent := h.destroyQueue hq
      rw [State.destroyQueue, ← hsame] at hconsistent
      refine ⟨hconsistent, ?_, rfl⟩
      intro q' hq'
      obtain ⟨hlt, -⟩ := List.getElem?_eq_some_iff.mp hq
      cases (List.getElem?_set_self hlt).symm.trans hq'
      rw [RequestQueue.destroyIfEmpty]
      split
      · exact hserved q hq
      · exact hserved q hq
    · exact ⟨h, hserved, rfl⟩

/-- The thread is done with a queue. -/
theorem Consistent.flushed (h : Consistent s) (hserved : Served s i) {rest : List Nat}
    (hflushing : s.thread.flushing = i :: rest) :
    Consistent { s with thread := { s.thread with flushing := rest } } := by
  refine { h with answered := ⟨h.answered.owed, h.answered.sends⟩, attention := ?_ }
  constructor
  · exact h.attention.pending
  · intro j q hq hr hp
    rcases h.attention.registered j q hq hr hp with hj | hj
    · exact .inl hj
    · rw [hflushing] at hj
      rcases List.mem_cons.mp hj with rfl | hj
      · rw [hserved q hq hr] at hp
        cases hp
      · exact .inr hj

theorem Consistent.forward (h : Consistent s) (hq : s.queues[i]? = some q)
    (hconnection : q.connection = false) (hreturns : Returns s outcome batch) :
    Consistent (s.forward i q outcome batch).1 ∧ Served (s.forward i q outcome batch).1 i := by
  have hpending : q.pendingSend = false := by
    apply Bool.eq_false_of_not_eq_true
    intro hp
    rw [(h.attention.pending i q hq hp).1] at hconnection
    cases hconnection
  constructor
  · constructor
    · apply forall_mem_set h.books
      exact (h.booksAt hq).invoke (append_nil _)
    · have hinvoke := h.answered.invoke hq [] { q with
          requests := []
          batchProxies := if !q.batchProxies.isEmpty && batch = .throws then q.batchProxies else []
          invoked := q.invoked ++ q.requests } (append_nil _) (fun _ hr => h.lt hq hr) nofun
          hreturns.2
      rw [append_nil] at hinvoke
      exact hinvoke
    · apply h.attention.setQueue (t := (s.forward i q outcome batch).1) rfl
      · intro j q _ _ _ ha
        exact ha.mono fun _ hsend => mem_append_left _ hsend
      · exact fun _ _ hj => hj
      · intro hp
        exact absurd (hpending.symm.trans hp) nofun
      · intro hr
        exact absurd rfl hr
  · intro q' hq'
    obtain ⟨hlt, -⟩ := List.getElem?_eq_some_iff.mp hq
    cases (List.getElem?_set_self hlt).symm.trans hq'
    intro hr
    exact absurd rfl hr

variable {answers : List Nat}

/-- A callback has changed a send and answered a request, and the queue of the send is flushed. -/
theorem Consistent.flush (h : Consistent s) (hq : s.queues[i]? = some q)
    (hconnection : q.connection = true) (hreturns : Returns s outcome batch)
    {sends : List Send} (hanswered : Answered { s with sends, answers })
    (hawaits : ∀ j q, j ≠ i → s.queues[j]? = some q → Awaits s j q →
      Awaits { s with sends, answers } j q) :
    Consistent ({ s with sends, answers }.flush i q outcome batch).1 ∧
      Served ({ s with sends, answers }.flush i q outcome batch).1 i := by
  obtain ⟨q', hqueues, hpending, hawait⟩ :=
    flush_attended { s with sends, answers } i outcome batch hconnection
  constructor
  · constructor
    · apply forall_mem_set h.books
      exact (h.booksAt hq).invoke flushLoop_append
    · apply hanswered.invoke (s := { s with sends, answers }) hq _ _ flushLoop_append
        (fun _ hr => h.lt hq hr) _ hreturns.2
      intro send hsend
      split at hsend
      · exact Outcome.send_request (Option.mem_toList.mp hsend)
      · cases hsend
    · apply h.attention.setQueue hqueues
      · intro j q hj hq' _ ha
        apply (hawaits j q hj hq' ha).mono
        intro send hsend
        exact mem_append_left _ (mem_append_left _ hsend)
      · exact fun _ _ hj => hj
      · exact hawait
      · intro hr hp
        rw [hpending hr] at hp
        cases hp
  · intro q'' hq''
    obtain ⟨hlt, -⟩ := List.getElem?_eq_some_iff.mp hq
    rw [hqueues, List.getElem?_set_self hlt] at hq''
    cases hq''
    exact hpending

theorem flush_snd (hbatch : batch ≠ .throws) : (s.flush i q outcome batch).2 = false := by
  rw [State.flush]
  dsimp only
  rw [decide_eq_false hbatch, Bool.and_false]

theorem forward_snd (hbatch : batch ≠ .throws) : (s.forward i q outcome batch).2 = false := by
  rw [State.forward]
  dsimp only
  rw [decide_eq_false hbatch, Bool.and_false]

/-- What `flushRequests` leaves behind for the thread. -/
theorem Consistent.flushRequests (h : Consistent s) (hq : s.queues[i]? = some q)
    (hreturns : Returns s outcome batch) :
    Consistent (s.flushRequests i q outcome batch).1 ∧
      Served (s.flushRequests i q outcome batch).1 i ∧
      (s.flushRequests i q outcome batch).1.thread = s.thread ∧
      (s.flushRequests i q outcome batch).2 = false := by
  rw [State.flushRequests]
  split
  · rename_i hpending
    refine ⟨h, ?_, rfl, rfl⟩
    intro q' hq' _
    cases hq.symm.trans hq'
    exact (Bool.and_eq_true_iff.mp hpending).2
  · dsimp only
    split
    · rename_i hconnection
      obtain ⟨hconsistent, hserved⟩ := h.flush hq hconnection hreturns
        ⟨h.answered.owed, h.answered.sends⟩ fun _ _ _ _ ha => ha
      obtain ⟨hfinish, hserved, hthread⟩ := hconsistent.finishDestroy hserved
      rw [flush_snd hreturns.1, if_neg nofun]
      exact ⟨hfinish, hserved, hthread, rfl⟩
    · rename_i hconnection
      obtain ⟨hconsistent, hserved⟩ :=
        h.forward hq (Bool.eq_false_of_not_eq_true hconnection) hreturns
      obtain ⟨hfinish, hserved, hthread⟩ := hconsistent.finishDestroy hserved
      rw [forward_snd hreturns.1, if_neg nofun]
      exact ⟨hfinish, hserved, hthread, rfl⟩

/-- A callback is called for a send, which may answer the request of the send, and flushes the
queue if the queue has waited for it. -/
theorem Consistent.resume (h : Consistent s) (hsend : s.sends[k]? = some send)
    (hreturns : Returns s outcome batch)
    (hanswered : Answered { s with sends := s.sends.set k done, answers }) :
    Consistent ({ s with sends := s.sends.set k done, answers }.resume send outcome batch).1 := by
  rw [State.resume]
  have hkeep : ∀ j q, s.queues[j]? = some q →
      ¬(send.queue = j ∧ send.request = q.pendingSendRequest) → Awaits s j q →
        Awaits { s with sends := s.sends.set k done, answers } j q :=
    fun j q _ hne ha => ha.set hsend (.inr hne)
  have hsame (hne : ∀ j q, s.queues[j]? = some q → q.connection = true →
      ¬(send.queue = j ∧ send.request = q.pendingSendRequest)) :
      Consistent { s with sends := s.sends.set k done, answers } := by
    constructor
    · exact h.books
    · exact hanswered
    · apply h.attention.sameQueues (t := { s with sends := s.sends.set k done, answers }) rfl
      · intro j q hq hp ha
        exact hkeep j q hq (hne j q hq (h.attention.pending j q hq hp).1) ha
      · exact fun _ _ _ _ hj => hj
  split
  · rename_i hnone
    apply hsame
    rintro j q hq _ ⟨rfl, -⟩
    cases hnone.symm.trans hq
  · rename_i q hq
    split
    · rename_i hpending
      apply (h.flush hq hpending.1 hreturns hanswered _).1
      intro j q' hj hq' ha
      exact hkeep j q' hq' (fun heq => hj heq.1.symm) ha
    · rename_i hpending
      apply hsame
      rintro j q' hq' hconnection ⟨rfl, heq⟩
      cases hq.symm.trans hq'
      exact hpending ⟨hconnection, heq⟩

theorem resume_snd (s : State) (send : Send) (outcome : Nat → Outcome) (hbatch : batch ≠ .throws) :
    (s.resume send outcome batch).2 = false := by
  rw [State.resume]
  split
  · rfl
  · split
    · exact flush_snd hbatch
    · rfl

theorem resume_requests : (s.resume send outcome batch).1.requests = s.requests := by
  rw [State.resume]
  split
  · rfl
  · split <;> rfl

theorem flushLoop_answer {requests : List Nat} :
    (s.answer r).flushLoop outcome requests = s.flushLoop outcome requests := by
  induction requests with
  | nil => rfl
  | cons r' rest ih =>
    have hbatch : (s.answer r).isBatch r' = s.isBatch r' := rfl
    rw [flushLoop, flushLoop, ih, hbatch]

/-- A request is answered after the queue is flushed, or before. -/
theorem resume_answer : (s.resume send outcome batch).1.answer r =
    ((s.answer r).resume send outcome batch).1 := by
  rw [State.resume, State.resume]
  cases hq : s.queues[send.queue]? with
  | none =>
    have hq' : (s.answer r).queues[send.queue]? = none := hq
    rw [hq']
  | some q =>
    have hq' : (s.answer r).queues[send.queue]? = some q := hq
    rw [hq']
    dsimp only
    split
    · rw [State.flush, State.flush, flushLoop_answer]
      rfl
    · rfl

theorem answerSend_resume : (s.resume send outcome batch).1.answerSend send =
    ((s.answerSend send).resume send outcome batch).1 := by
  rw [answerSend, answerSend]
  cases send.request with
  | none => rfl
  | some r =>
    have htwoway : (s.resume send outcome batch).1.isTwoway r = s.isTwoway r := by
      rw [isTwoway, isTwoway, resume_requests]
    dsimp only
    rw [htwoway]
    split
    · exact resume_answer
    · rfl

theorem answerSend_eq (s : State) (send : Send) :
    ∃ answers, s.answerSend send = { s with answers } := by
  rw [answerSend]
  split
  · exact ⟨s.answers, rfl⟩
  · split
    · exact ⟨_, rfl⟩
    · exact ⟨s.answers, rfl⟩

/-- A send completes, and the request that it is for is answered. -/
theorem Answered.finish (h : Answered s) (done : Send) (hsend : s.sends[k]? = some send)
    (hcompletes : send.completes = true) (hrequest : done.request = send.request)
    (hdone : done.completes = false) :
    Answered ({ s with sends := s.sends.set k done }.answerSend send) := by
  have hzero : ∀ r, done.completing r = 0 := by
    intro r
    rw [Send.completing, hdone, if_neg]
    rintro ⟨-, ⟨⟩⟩
  have hkeep (hne : ∀ r, send.request = some r → s.isTwoway r = false) :
      Answered { s with sends := s.sends.set k done } := by
    apply h.set s.answers hsend hrequest
    · intro r htwoway
      rw [hzero, Send.completing, if_neg]
      rintro ⟨hr, -⟩
      rw [hne r hr] at htwoway
      cases htwoway
    · exact fun _ _ => rfl
  rw [answerSend]
  split
  · rename_i hnone
    apply hkeep
    intro r hr
    cases hnone.symm.trans hr
  · rename_i r hr
    split
    · rename_i htwoway
      apply h.set (s.answers ++ [r]) hsend hrequest
      · intro r' _
        rw [hzero, Send.completing, hr, hcompletes, count_append, List.count_singleton]
        by_cases heq : r = r'
        · rw [heq, if_pos (beq_self_eq_true r'), if_pos ⟨rfl, rfl⟩]
          omega
        · rw [if_neg (by simpa using heq), if_neg (by simpa using heq)]
          omega
      · intro r' hother
        rw [count_append, List.count_singleton, if_neg]
        · rfl
        · rw [beq_iff_eq]
          rintro rfl
          cases hother.symm.trans htwoway
    · rename_i htwoway
      apply hkeep
      intro r' hr'
      cases hr.symm.trans hr'
      exact Bool.eq_false_of_not_eq_true htwoway

theorem isTwoway_of_overrides {old new : Request} (h : new.overrides old = true) :
    new.proxy.isTwoway = false ∧ old.proxy.isTwoway = false := by
  rw [Request.overrides] at h
  split at h
  · cases h
  · split at h
    · cases h
    · rename_i htwoway
      rw [Bool.or_eq_true, not_or] at htwoway
      exact ⟨Bool.eq_false_of_not_eq_true htwoway.1, Bool.eq_false_of_not_eq_true htwoway.2⟩

/-- A request is dispatched to a queue: it is answered, or it waits there. -/
theorem Consistent.dispatch (h : Consistent s) (hq : s.queues[i]? = some q)
    (hqueues : t.queues = s.queues.set i q') (hrequests : t.requests = s.requests ++ [request])
    (hsends : t.sends = s.sends) (hthread : ∀ j, s.thread.Has j → t.thread.Has j)
    (hbooks : Books (s.requests ++ [request]) q') (hconnection : q'.connection = q.connection)
    (hpending : q'.pendingSend = q.pendingSend)
    (hrequest : q'.pendingSendRequest = q.pendingSendRequest)
    (hregistered : q'.requests ≠ [] → q'.pendingSend = false → t.thread.Has i)
    (hcount : ∀ r < s.requests.length, s.isTwoway r = true →
      q'.requests.count r = q.requests.count r)
    (hnew : t.answers = s.answers ∧ request.proxy.isTwoway = true ∧
        q'.requests.count s.requests.length = 1 ∨
      t.answers = s.answers ++ [s.requests.length] ∧
        (request.proxy.isTwoway = true → q'.requests.count s.requests.length = 0)) :
    Consistent t := by
  have hwaiting : ∀ r, t.waiting r = s.waiting r - q.requests.count r + q'.requests.count r := by
    intro r
    rw [State.waiting, hqueues]
    exact waiting_set hq
  constructor
  · rw [hqueues, hrequests]
    exact forall_mem_set (fun q hq => (h.books q hq).append request) hbooks
  · apply h.answered.dispatch hrequests hsends
    · intro r hr htwoway
      rw [hwaiting, hcount r hr htwoway]
      omega
    · rw [hwaiting, h.waiting_length, h.count_length hq]
      rcases hnew with ⟨hanswers, htwoway, hone⟩ | ⟨hanswers, hzero⟩
      · rw [hone]
        exact .inl ⟨hanswers, htwoway, rfl⟩
      · refine .inr ⟨hanswers, ?_⟩
        intro htwoway
        rw [hzero htwoway]
        rfl
  · exact h.attention.setAlike hq hqueues hsends hthread hconnection hpending hrequest hregistered

/-- `queued` answers a request that is not twoway. -/
theorem queued_eq (hrequests : s.requests = t.requests ++ [request]) :
    s.queued t.requests.length = { s with answers :=
      if request.proxy.isTwoway then s.answers else s.answers ++ [t.requests.length] } := by
  have htwoway : s.isTwoway t.requests.length = request.proxy.isTwoway := by
    rw [isTwoway, hrequests, List.getElem?_concat_length]
    rfl
  rw [State.queued, htwoway]
  cases request.proxy.isTwoway <;> rfl

/-- A request that is refused leaves the queue as it is, but for the batch proxies. -/
theorem Consistent.refuse (h : Consistent s) (hq : s.queues[i]? = some q)
    {batchProxies : List ObjectPrx} (hqueues : t.queues = s.queues.set i { q with batchProxies })
    (hrequests : t.requests = s.requests ++ [request]) (hsends : t.sends = s.sends)
    (hthread : t.thread = s.thread) (hanswers : t.answers = s.answers ++ [s.requests.length]) :
    Consistent t := by
  apply h.dispatch hq hqueues hrequests hsends
  · intro j hj
    rw [hthread]
    exact hj
  · exact { (h.booksAt hq).append request with }
  · rfl
  · rfl
  · rfl
  · intro hr hp
    rw [hthread]
    exact h.attention.registered i q hq hr hp
  · exact fun _ _ _ => rfl
  · right
    constructor
    · exact hanswers
    · intro _
      change q.requests.count s.requests.length = 0
      exact h.count_length hq

theorem overridden_some (h : s.overridden q request = some k) : ∃ old oldRequest,
    q.requests[k]? = some old ∧ s.requests[old]? = some oldRequest ∧
      request.overrides oldRequest = true := by
  rw [State.overridden] at h
  split at h
  · obtain ⟨hk, hover, -⟩ := List.findIdx?_eq_some_iff_getElem.mp h
    obtain ⟨oldRequest, hold, hover⟩ := (Option.any_eq_true _ _).mp hover
    exact ⟨_, oldRequest, List.getElem?_eq_getElem hk, hold, hover⟩
  · cases h

theorem Consistent.addRequest (h : Consistent s) (hq : s.queues[i]? = some q) :
    Consistent (s.addRequest i q request) := by
  have hself : s.queues = s.queues.set i q := by
    obtain ⟨hlt, rfl⟩ := List.getElem?_eq_some_iff.mp hq
    exact (List.set_getElem_self hlt).symm
  rw [State.addRequest]
  dsimp only
  split
  · exact h.refuse hq hself rfl rfl rfl rfl
  · rename_i hdestroyed
    have hdestroyed : q.destroyed = false := Bool.eq_false_of_not_eq_true hdestroyed
    split
    · rename_i k hoverridden
      obtain ⟨old, oldRequest, hold, holdRequest, hover⟩ := overridden_some hoverridden
      obtain ⟨hnew, hnever⟩ := isTwoway_of_overrides hover
      obtain ⟨hk, hget⟩ := List.getElem?_eq_some_iff.mp hold
      rw [queued_eq rfl, hnew, hold]
      refine h.dispatch hq rfl rfl rfl (fun _ hj => hj)
        ((h.booksAt hq).replace hold holdRequest hover hdestroyed) rfl rfl rfl ?_ ?_ ?_
      · intro _ hp
        apply h.attention.registered i q hq _ hp
        exact List.ne_nil_of_length_pos (Nat.zero_lt_of_lt hk)
      · intro r hr htwoway
        dsimp only
        rw [List.count_set hk, hget]
        have hne : old ≠ r := by
          rintro rfl
          rw [isTwoway, holdRequest, Option.any_some, hnever] at htwoway
          cases htwoway
        rw [if_neg (by simpa using hne), if_neg (by simp; omega)]
        rfl
      · right
        constructor
        · rfl
        · rw [hnew]
          rintro ⟨⟩
    · split
      · exact h.refuse hq rfl rfl rfl rfl rfl
      · rename_i hidle
        generalize (if q.connection then (request, q.batchProxies)
          else request.addBatchProxy q.batchProxies) = added
        have hidle : (q.requests.isEmpty && (!q.connection || !q.pendingSend)) = false →
            q.requests = [] → q.pendingSend = true := by
          intro hidle hnil
          rw [hnil] at hidle
          by_contra hp
          rw [Bool.eq_false_of_not_eq_true hp] at hidle
          simp at hidle
        rw [queued_eq rfl]
        refine h.dispatch hq rfl rfl rfl ?_ { (h.booksAt hq).push added.1 hdestroyed with }
          rfl rfl rfl ?_ ?_ ?_
        · intro j hj
          dsimp only
          split
          · exact hj.imp_left (mem_append_left _)
          · exact hj
        · intro _ hp
          dsimp only
          split
          · exact .inl (List.mem_append_right _ (List.mem_singleton_self _))
          · rename_i hbusy
            apply h.attention.registered i q hq _ hp
            intro hnil
            rw [hidle (Bool.eq_false_of_not_eq_true hbusy) hnil] at hp
            cases hp
        · intro r hr _
          dsimp only
          rw [count_append, List.count_singleton, if_neg (by simp; omega)]
          rfl
        · dsimp only
          rw [count_append, h.count_length hq, List.count_singleton_self]
          cases added.1.proxy.isTwoway
          · exact .inr ⟨rfl, by simp⟩
          · exact .inl ⟨rfl, rfl, rfl⟩

theorem Consistent.step (h : Consistent s) {sleepTime : Bool} {a : Action} (ha : Careful s a)
    (hs : step sleepTime s a = some t) : Consistent t := by
  cases a with
  | addRequest i request =>
    obtain ⟨q, hq, rfl⟩ := Option.map_eq_some_iff.mp hs
    exact h.addRequest hq
  | destroyQueue i =>
    obtain ⟨q, hq, rfl⟩ := Option.map_eq_some_iff.mp hs
    exact h.destroyQueue hq
  | destroyThread | wakeUp =>
    cases hs
    exact ⟨h.books, ⟨h.answered.owed, h.answered.sends⟩,
      h.attention.pending, h.attention.registered⟩
  | take =>
    rw [Buffered.step] at hs
    split at hs
    · cases hs
    · rename_i hready
      rw [not_or, not_not] at hready
      split at hs
      · cases hs
        exact ⟨h.books, ⟨h.answered.owed, h.answered.sends⟩,
          h.attention.pending, h.attention.registered⟩
      · split at hs
        · cases hs
        · cases hs
          refine ⟨h.books, ⟨h.answered.owed, h.answered.sends⟩, h.attention.pending, ?_⟩
          intro i q hq hr hp
          rcases h.attention.registered i q hq hr hp with hi | hi
          · exact .inr hi
          · rw [hready.2] at hi
            cases hi
  | flushRequests outcome batch =>
    rw [Buffered.step] at hs
    cases hflushing : s.thread.flushing with
    | nil =>
      rw [hflushing] at hs
      cases hs
    | cons i rest =>
      rw [hflushing] at hs
      obtain ⟨q, hq, hs⟩ := Option.bind_eq_some_iff.mp hs
      obtain ⟨hconsistent, hserved, hthread, hthrew⟩ := h.flushRequests hq ha
      cases hresult : s.flushRequests i q outcome batch with
      | mk t' threw =>
        rw [hresult] at hs hconsistent hserved hthread hthrew
        cases hthrew
        cases hs
        apply hconsistent.flushed hserved
        exact (congrArg _ hthread).trans hflushing
  | sent k outcome batch =>
    obtain ⟨send, hsend, hs⟩ := Option.bind_eq_some_iff.mp hs
    dsimp only at hs
    split at hs
    · cases hs
      apply h.resume hsend ha
      refine h.answered.set s.answers hsend rfl ?_ ?_
      · intro r htwoway
        rw [Send.completing, Send.completing]
        by_cases hr : send.request = some r
        · have hexpects : s.expectsResponse send = true := by
            rw [State.expectsResponse, hr]
            exact htwoway
          rw [hexpects, Bool.and_true]
        · rw [if_neg fun hand => hr hand.1, if_neg fun hand => hr hand.1]
      · exact fun _ _ => rfl
    · cases hs
  | response k =>
    obtain ⟨send, hsend, hs⟩ := Option.bind_eq_some_iff.mp hs
    split at hs
    · rename_i hcompletes
      cases hs
      have hanswered := h.answered.finish { send with completes := false } hsend
        hcompletes.1 rfl rfl
      obtain ⟨answers, heq⟩ :=
        answerSend_eq { s with sends := s.sends.set k { send with completes := false } } send
      rw [heq] at hanswered ⊢
      refine ⟨h.books, hanswered, ?_⟩
      apply h.attention.sameQueues
        (t := { s with sends := s.sends.set k { send with completes := false }, answers }) rfl
      · intro j q _ _ hawaits
        refine hawaits.set hsend (.inl ?_)
        exact ⟨rfl, rfl, rfl⟩
      · exact fun _ _ _ _ hj => hj
    · cases hs
  | exception k outcome batch =>
    obtain ⟨send, hsend, hs⟩ := Option.bind_eq_some_iff.mp hs
    split at hs
    · rename_i hcompletes
      have hanswered := h.answered.finish
        { send with outstanding := false, completes := false } hsend hcompletes rfl rfl
      obtain ⟨answers, heq⟩ := answerSend_eq { s with
        sends := s.sends.set k { send with outstanding := false, completes := false } } send
      rw [heq] at hanswered
      have hconsistent := h.resume hsend ha hanswered
      rw [← heq, ← answerSend_resume] at hconsistent
      have hthrew := resume_snd { s with
        sends := s.sends.set k { send with outstanding := false, completes := false } } send
        outcome ha.1
      cases hresult : { s with
          sends := s.sends.set k { send with outstanding := false, completes := false }
        }.resume send outcome batch with
      | mk t' threw =>
        dsimp only at hs
        rw [hresult] at hs hconsistent hthrew
        cases hthrew
        cases hs
        exact hconsistent
    · cases hs

end steps

theorem Consistent.initial (connections : List Bool) : Consistent (State.initial connections) := by
  have hmem : ∀ q ∈ (State.initial connections).queues, ∃ connection, q = { connection } := by
    intro q hq
    obtain ⟨connection, -, rfl⟩ := mem_map.mp hq
    exact ⟨connection, rfl⟩
  constructor
  · intro q hq
    obtain ⟨connection, rfl⟩ := hmem q hq
    exact ⟨rfl, fun _ => rfl, fun _ => Nat.zero_le _, nofun, fun _ => rfl, fun _ => rfl⟩
  · exact ⟨fun _ => rfl, nofun⟩
  · constructor
    · intro i q hq hp
      obtain ⟨connection, rfl⟩ := hmem q (List.mem_of_getElem? hq)
      cases hp
    · intro i q hq hr
      obtain ⟨connection, rfl⟩ := hmem q (List.mem_of_getElem? hq)
      exact absurd rfl hr

section forwarded

variable {s : State} {r : Nat}

theorem mem_of_waiting (h : s.waiting r ≠ 0) : ∃ q ∈ s.queues, r ∈ q.requests := by
  by_contra hnone
  apply h
  apply sum_eq_zero
  intro x hx
  obtain ⟨q, hq, rfl⟩ := mem_map.mp hx
  rw [List.count_eq_zero.mpr fun hr => hnone ⟨q, hq, hr⟩]
  rfl

theorem mem_of_completing (h : s.completing r ≠ 0) :
    ∃ send ∈ s.sends, send.request = some r ∧ send.completes = true := by
  by_contra hnone
  apply h
  apply sum_eq_zero
  intro x hx
  obtain ⟨send, hsend, rfl⟩ := mem_map.mp hx
  rw [Send.completing, if_neg fun hand => hnone ⟨send, hsend, hand⟩]

theorem Answered.answered (h : Answered s) (hr : r < s.requests.length) :
    s.answers.count r ≤ 1 ∧ (s.answers.count r = 0 → s.isTwoway r = true ∧
      ((∃ q ∈ s.queues, r ∈ q.requests) ∨
        ∃ send ∈ s.sends, send.request = some r ∧ send.completes = true)) := by
  have howed := h.owed r
  rw [if_pos hr] at howed
  cases htwoway : s.isTwoway r with
  | false =>
    rw [htwoway, if_neg nofun] at howed
    exact ⟨by omega, fun hzero => by omega⟩
  | true =>
    have hwaiting : 0 ≤ s.waiting r := waiting_nonneg
    have hcompleting : 0 ≤ s.completing r := completing_nonneg
    rw [htwoway, if_pos rfl] at howed
    refine ⟨by omega, ?_⟩
    intro hzero
    refine ⟨rfl, ?_⟩
    by_cases hw : s.waiting r = 0
    · right
      apply mem_of_completing
      omega
    · exact .inl (mem_of_waiting hw)

theorem Consistent.forwarded (h : Consistent s) : Forwarded s where
  ordered q hq := (h.books q hq).places
  once q hq _ hr := (h.books q hq).once hr
  replaced q hq := (h.books q hq).replaced
  answered _ hr := h.answered.answered hr
  attended i q hq hr := by
    cases hpending : q.pendingSend with
    | false => exact or_assoc.mp (.inl (h.attention.registered i q hq hr hpending))
    | true =>
      obtain ⟨hconnection, hawaits⟩ := h.attention.pending i q hq hpending
      exact .inr (.inr ⟨hconnection, hpending, hawaits⟩)
  asserted q hq := (h.books q hq).asserted

end forwarded

/-- Requests are forwarded in every run in which the invocations of twoway requests and the flushes
of batch requests do not throw. -/
theorem forwarded_of_careful (sleepTime : Bool) (connections : List Bool) (s : State)
    (h : Reach (step sleepTime) Careful (State.initial connections) s) : Forwarded s :=
  (h.invariant (Consistent.initial connections) fun _ _ _ hs ha ht => hs.step ha ht).forwarded

/-- A twoway request is added to a queue towards a client, and the thread flushes the queue. The
request is not sent at once. -/
def addedAndFlushed : List Action :=
  [.addRequest 0 ⟨⟨1, .twoway, 1⟩, ""⟩, .take, .flushRequests (fun _ => .pending) .pending]

/-- The request is not sent at once, and completes later. -/
theorem forwarded_of_pending : ∃ s : State,
    Reach (step false) Careful (State.initial [true, false]) s ∧ s.answers = [0] ∧
      Forwarded s := by
  have hrun : (run (fun s a => if decide (Careful s a) then step false s a else none)
      (State.initial [true, false])
      (addedAndFlushed ++ [.sent 0 (fun _ => .pending) .pending, .response 0])).any
      (fun s => decide (s.answers = [0])) = true := by decide +kernel
  obtain ⟨s, h, hs⟩ := Reach.exists_of_runWhere (fun _ _ => of_decide_eq_true) hrun
  exact ⟨s, h, of_decide_eq_true hs, forwarded_of_careful false [true, false] s h⟩

end Ice.Glacier2.Buffered
