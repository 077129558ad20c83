import Ice.Connection.DispatchCount

/-!
# Graceful closure

`CloseConnection` is sent when nothing is being dispatched. What was read before is answered by
then or is not dispatched any more, and nothing is sent behind it, as long as the dispatch count
has not wrapped around: a client that claims batches of 2 ^ 31 requests makes it 0 while servants
are still at work, and their replies follow `CloseConnection`.
-/

namespace Ice.Protocol.ConnectionI

open Lib
open List (append_assoc append_nil cons_append map_nil mem_append mem_append_left mem_cons
  mem_of_getElem? mem_singleton nil_sublist)
open Streams (toInt toInt_toInt_add toInt_add_toInt)

/-- No message is put, no request received and no servant called. -/
def Event.quiet : Event → Bool
  | .put _ => false
  | .received _ _ => false
  | .dispatched _ => false
  | _ => true

section

variable {s t : ConnectionI}

/-- What an act adds to the log. -/
inductive Told (s t : ConnectionI) : List Event → Prop
  | quiet {events : List Event} : (∀ event ∈ events, event.quiet = true) → Told s t events
  | put {message : OutgoingMessage} {s₁ : ConnectionI} {events : List Event} :
      Admits s message s₁ → (∀ event ∈ events, event.quiet = true) →
      (message.content = .closeConnection → t.shutdownInitiated = true) →
      Told s t (.put message.content :: events)
  | received (requestId : Int) : Told s t [.received s.log.length requestId]
  | dispatched (index : Nat) (call : DispatchCall) :
      s.calls[index]? = some call → 0 < call.invokeNum →
      { request := call.request
        requestId := call.requestId
        response := !s.datagram && call.requestId ≠ 0 : Incoming } ∈ t.incomings →
      Told s t [.dispatched call.request]

theorem quiet_told (message : OutgoingMessage) (taken : Taken) :
    ∀ event ∈ message.told taken, event.quiet = true := by
  intro event h
  unfold OutgoingMessage.told at h
  split at h
  · cases mem_singleton.mp h
    rfl
  · cases h

theorem quiet_sentEvents (s : ConnectionI) (message : OutgoingMessage) :
    ∀ event ∈ s.sentEvents message, event.quiet = true := by
  intro event h
  unfold sentEvents at h
  split at h
  · cases h
  · split at h
    · cases mem_singleton.mp h
      rfl
    · cases h

theorem quiet_append {xs ys : List Event} (hx : ∀ event ∈ xs, event.quiet = true)
    (hy : ∀ event ∈ ys, event.quiet = true) : ∀ event ∈ xs ++ ys, event.quiet = true := by
  intro event h
  rcases mem_append.mp h with h | h
  · exact hx event h
  · exact hy event h

variable {message : OutgoingMessage}

theorem Sends.told {status : AsyncStatus} (h : Sends s message status t) :
    ∃ events, t.log = s.log ++ .put message.content :: events ∧
      ∀ event ∈ events, event.quiet = true := by
  cases h with
  | queued _ => exact ⟨[], rfl, by simp⟩
  | sent answers invokes _ =>
    refine ⟨_, append_assoc .., quiet_append (quiet_told message .everything) ?_⟩
    exact quiet_sentEvents _ message
  | blocked taken answers _ => exact ⟨_, rfl, quiet_told message taken⟩

theorem Admits.log_eq (ha : Admits s message t) : t.log = s.log := by
  cases ha <;> rfl

/-- The shutdown is initiated when `CloseConnection` is sent. -/
theorem Admits.shutdownInitiated (ha : Admits s message t)
    (hc : message.content = .closeConnection) : t.shutdownInitiated = true := by
  cases ha with
  | closeConnection _ _ _ _ => rfl
  | _ => cases hc

theorem Act.told (h : Act s t) : ∃ events, t.log = s.log ++ events ∧ Told s t events := by
  cases h with
  | send ha _ hsends =>
    obtain ⟨events, hlog, hquiet⟩ := hsends.told
    rw [ha.log_eq] at hlog
    refine ⟨_, hlog, .put ha hquiet fun hc => ?_⟩
    rw [hsends.sameDispatch.shutdownInitiated]
    exact ha.shutdownInitiated hc
  | request response ha hsends =>
    obtain ⟨events, hlog, hquiet⟩ := hsends.told
    rw [ha.log_eq] at hlog
    refine ⟨.put (s.requestMessage response).content :: (events ++ [.accepted s.outs.length
      (s.requestIdFor response)]), ?_, .put ha ?_ fun hc => by cases hc⟩
    · rw [settle_log, hlog, append_assoc, cons_append]
    · exact quiet_append hquiet (by simp [Event.quiet])
  | sendFailed taken answers ex ha _ =>
    rename_i message s₁ _
    refine ⟨.put message.content :: message.told taken, ?_,
      .put ha (quiet_told _ taken) fun hc => ?_⟩
    · rw [shut_log, ← ha.log_eq]
      rfl
    · rw [(sameDispatch_shut _ ex).shutdownInitiated]
      exact ha.shutdownInitiated hc
  | take taken _ _ => exact ⟨_, rfl, .quiet (quiet_told _ taken)⟩
  | pop sentCBs invokes _ => exact ⟨_, rfl, .quiet (quiet_sentEvents _ _)⟩
  | cancelQueued out index ex _ _ | cancelSent out requestId hint ex _ _ =>
    exact ⟨_, rfl, .quiet (by simp [Event.quiet])⟩
  | timeoutQueued out index _ _ _ => exact ⟨[], by simp, .quiet (by simp)⟩
  | received requestId => exact ⟨_, rfl, .received requestId⟩
  | invoke index call hcall hpos =>
    refine ⟨_, rfl, .dispatched index call hcall hpos ?_⟩
    exact List.mem_append_right _ (List.mem_singleton_self _)
  | finish _ =>
    refine ⟨_, rfl, .quiet ?_⟩
    intro event h
    obtain ⟨out, _, rfl⟩ := List.mem_map.mp h
    rfl
  | _ => exact ⟨[], (append_nil _).symm, .quiet (by simp)⟩

/-- A connection that closes has an exception. -/
def Thrown (s : ConnectionI) : Prop := State.closing ≤ s.state → s.exception.isSome = true

theorem Admits.exception_eq (ha : Admits s message t) : t.exception = s.exception := by
  cases ha <;> rfl

theorem isSome_orElse (x : Option LocalException) (ex : LocalException) :
    (x <|> some ex).isSome = true := by
  cases x <;> rfl

theorem Thrown.shut (h : Thrown s) (ex : LocalException) : Thrown (s.shut ex) := by
  unfold ConnectionI.shut
  split
  · exact h
  · exact fun _ => isSome_orElse s.exception ex

theorem Act.thrown (hact : Act s t) (h : Thrown s) : Thrown t := by
  cases hact with
  | exception ex => exact fun _ => isSome_orElse s.exception ex
  | switch state _ _ hx =>
    intro hs
    rcases hx hs with hs | hs
    · exact h hs
    · exact hs
  | send ha _ hsends =>
    unfold Thrown
    rw [hsends.state_eq, ha.state_eq, hsends.exception_eq, ha.exception_eq]
    exact h
  | request response ha hsends =>
    have hthrown : Thrown _ := fun hs => by
      rw [hsends.exception_eq, ha.exception_eq]
      rw [hsends.state_eq, ha.state_eq] at hs
      exact h hs
    unfold settle
    split <;> exact hthrown
  | sendFailed taken answers ex ha _ =>
    apply Thrown.shut
    unfold Thrown
    intro hs
    have hs' := ha.state_eq ▸ hs
    exact ha.exception_eq ▸ h hs'
  | timeoutQueued _ _ _ _ _ =>
    apply Thrown.shut
    exact h
  | finish hs =>
    intro _
    apply h
    rw [hs]
    decide
  | _ => exact h

end

section

variable {s t : ConnectionI}

/-- The shutdown is initiated only when nothing is counted as being dispatched. -/
theorem Act.shutdown_cases (h : Act s t) :
    t.shutdownInitiated = s.shutdownInitiated ∨
      (t.shutdownInitiated = true ∧ s.state = .closing ∧ s.dispatchCount = 0) := by
  have hadmits : ∀ {message s₁}, Admits s message s₁ → SameDispatch s₁ t →
      t.shutdownInitiated = s.shutdownInitiated ∨
        (t.shutdownInitiated = true ∧ s.state = .closing ∧ s.dispatchCount = 0) := by
    intro message s₁ ha hst
    cases ha with
    | closeConnection hs hcount _ _ => exact .inr ⟨hst.shutdownInitiated, hs, hcount⟩
    | _ => exact .inl hst.shutdownInitiated
  cases h with
  | send ha _ hsends => exact hadmits ha hsends.sameDispatch
  | request response ha hsends =>
    exact hadmits ha (hsends.sameDispatch.trans (sameDispatch_settle ..))
  | sendFailed taken answers ex ha _ =>
    apply hadmits ha
    apply SameDispatch.shut
    exact ⟨rfl, rfl, rfl, rfl, rfl⟩
  | initiated hs hcount _ => exact .inr ⟨rfl, hs, hcount⟩
  | timeoutQueued _ _ _ _ _ =>
    rw [(sameDispatch_shut ..).shutdownInitiated]
    exact .inl rfl
  | _ => exact .inl rfl

theorem Act.closing (hact : Act s t) (h : s.Closing) : t.Closing := by
  intro hi
  apply hact.closing_le
  rcases hact.shutdown_cases with hs | ⟨_, hs, _⟩
  · exact h (hs ▸ hi)
  · rw [hs]
    decide

/-- What the calls of `dispatch` still have to do was counted before. -/
theorem Act.mem_calls (h : Act s t) :
    ∀ call ∈ t.calls, ∃ old ∈ s.calls, call.request = old.request ∧
      call.requestId = old.requestId ∧ (0 < call.invokeNum → 0 < old.invokeNum) := by
  have hsame : t.calls = s.calls → ∀ call ∈ t.calls, ∃ old ∈ s.calls,
      call.request = old.request ∧ call.requestId = old.requestId ∧
        (0 < call.invokeNum → 0 < old.invokeNum) := by
    intro hst call hcall
    exact ⟨call, hst ▸ hcall, rfl, rfl, id⟩
  have hadmits : ∀ {message s₁}, Admits s message s₁ → s₁.calls = s.calls := by
    intro message s₁ ha
    cases ha <;> rfl
  cases h with
  | send ha _ hsends => exact hsame (hsends.sameDispatch.calls.trans (hadmits ha))
  | request response ha hsends =>
    exact hsame ((sameDispatch_settle ..).calls.trans
      (hsends.sameDispatch.calls.trans (hadmits ha)))
  | sendFailed taken answers ex ha _ =>
    have hcalls := hadmits ha
    exact hsame ((sameDispatch_shut ..).calls.trans hcalls)
  | timeoutQueued _ _ _ _ _ => exact hsame (sameDispatch_shut ..).calls
  | invoke index call hcall hpos =>
    intro new hnew
    rcases List.mem_or_eq_of_mem_set hnew with hnew | rfl
    · exact ⟨new, hnew, rfl, rfl, id⟩
    · exact ⟨call, mem_of_getElem? hcall, rfl, rfl, fun _ => hpos⟩
  | abandon index call hcall _ =>
    intro new hnew
    rcases List.mem_or_eq_of_mem_set hnew with hnew | rfl
    · exact ⟨new, hnew, rfl, rfl, id⟩
    · exact ⟨call, mem_of_getElem? hcall, rfl, rfl,
        fun h => absurd h (Int.lt_irrefl 0)⟩
  | endDispatch index call _ _ =>
    intro new hnew
    exact ⟨new, List.mem_of_mem_eraseIdx hnew, rfl, rfl, id⟩
  | _ => exact hsame rfl

/-- A servant that is not completed any more has answered, or its reply is not wanted. -/
def Completes (s t : ConnectionI) : Prop :=
  ∀ incoming ∈ s.incomings, incoming ∈ t.incomings ∨ incoming.response = false ∨
    State.closed ≤ s.state ∨ .put (.reply incoming.request incoming.requestId) ∈ t.log

theorem Completes.of_incomings (h : t.incomings = s.incomings) : Completes s t :=
  fun _ hi => .inl (h ▸ hi)

theorem Admits.completes {message : OutgoingMessage} {s₁ : ConnectionI}
    (ha : Admits s message s₁) (hst : SameDispatch s₁ t) (hput : .put message.content ∈ t.log) :
    Completes s t := by
  cases ha with
  | reply index incoming hincoming _ _ =>
    intro other hother
    rcases mem_eraseIdx_or_eq hincoming hother with h | rfl
    · left
      rw [hst.incomings]
      exact h
    · exact .inr (.inr (.inr hput))
  | _ => exact .of_incomings hst.incomings

theorem Act.completes (h : Act s t) : Completes s t := by
  cases h with
  | send ha _ hsends =>
    obtain ⟨events, hlog, _⟩ := hsends.told
    exact ha.completes hsends.sameDispatch (by simp [hlog])
  | request response ha hsends =>
    apply Completes.of_incomings
    rw [(sameDispatch_settle ..).incomings, hsends.sameDispatch.incomings]
    rfl
  | sendFailed taken answers ex ha _ =>
    apply ha.completes
    · apply SameDispatch.shut
      exact ⟨rfl, rfl, rfl, rfl, rfl⟩
    · rw [shut_log]
      simp [ConnectionI.sendFailed]
  | timeoutQueued _ _ _ _ _ => exact .of_incomings (sameDispatch_shut ..).incomings
  | invoke index call _ _ => exact fun incoming hi => .inl (mem_append_left _ hi)
  | drop index incoming hincoming hdrop =>
    intro other hother
    rcases mem_eraseIdx_or_eq hincoming hother with h | rfl
    · exact .inl h
    · rcases hdrop with hs | hs
      · exact .inr (.inr (.inl hs))
      · exact .inr (.inl hs)
  | _ => exact .of_incomings rfl

/-- A servant is called for a request of a call of `dispatch`. -/
theorem Act.mem_incomings (h : Act s t) :
    ∀ incoming ∈ t.incomings, incoming ∈ s.incomings ∨ ∃ call ∈ s.calls, 0 < call.invokeNum := by
  have hsame : t.incomings = s.incomings → ∀ incoming ∈ t.incomings,
      incoming ∈ s.incomings ∨ ∃ call ∈ s.calls, 0 < call.invokeNum :=
    fun hst incoming hi => .inl (hst ▸ hi)
  have hadmits : ∀ {message s₁}, Admits s message s₁ → SameDispatch s₁ t →
      ∀ incoming ∈ t.incomings, incoming ∈ s.incomings ∨ ∃ call ∈ s.calls, 0 < call.invokeNum := by
    intro message s₁ ha hst incoming hi
    rw [hst.incomings] at hi
    cases ha with
    | reply index old _ _ _ => exact .inl (List.mem_of_mem_eraseIdx hi)
    | _ => exact .inl hi
  cases h with
  | send ha _ hsends => exact hadmits ha hsends.sameDispatch
  | request response ha hsends =>
    exact hadmits ha (hsends.sameDispatch.trans (sameDispatch_settle ..))
  | sendFailed taken answers ex ha _ =>
    apply hadmits ha
    apply SameDispatch.shut
    exact ⟨rfl, rfl, rfl, rfl, rfl⟩
  | timeoutQueued _ _ _ _ _ => exact hsame (sameDispatch_shut ..).incomings
  | invoke index call hcall hpos =>
    intro incoming _
    exact .inr ⟨call, mem_of_getElem? hcall, hpos⟩
  | drop index incoming _ _ => exact fun other hi => .inl (List.mem_of_mem_eraseIdx hi)
  | _ => exact hsame rfl

/-- No request is dispatched and none will be. -/
def Idle (s : ConnectionI) : Prop := s.incomings = [] ∧ ∀ call ∈ s.calls, ¬0 < call.invokeNum

theorem Idle.act (hact : Act s t) (h : Idle s) : Idle t := by
  constructor
  · rw [List.eq_nil_iff_forall_not_mem]
    intro incoming hi
    rcases hact.mem_incomings incoming hi with hi | ⟨call, hcall, hpos⟩
    · rw [h.1] at hi
      cases hi
    · exact h.2 call hcall hpos
  · intro call hcall hpos
    obtain ⟨old, hold, _, _, hnum⟩ := hact.mem_calls call hcall
    exact h.2 old hold (hnum hpos)

theorem Counted.idle (h : Counted s) (hbound : s.pending < 2 ^ 32) (hzero : s.dispatchCount = 0) :
    Idle s := by
  obtain ⟨hincomings, hcalls⟩ := h.eq_zero hbound hzero
  refine ⟨hincomings, fun call hcall hpos => ?_⟩
  rw [hcalls call hcall] at hpos
  exact Int.lt_irrefl 0 hpos

theorem Act.idle (hact : Act s t) (hc : Counted s) (hbound : s.pending < 2 ^ 32)
    (h : s.shutdownInitiated = true → Idle s) (ht : t.shutdownInitiated = true) : Idle t := by
  rcases hact.shutdown_cases with hs | ⟨_, _, hzero⟩
  · exact Idle.act hact (h (hs ▸ ht))
  · exact Idle.act hact (hc.idle hbound hzero)

end

section

variable {s t : ConnectionI}

/-- A request is named by its place in the log. -/
structure Named (s : ConnectionI) : Prop where
  received : ∀ request requestId, .received request requestId ∈ s.log →
    s.log[request]? = some (.received request requestId)
  dispatched : ∀ request, .dispatched request ∈ s.log →
    ∃ requestId, .received request requestId ∈ s.log
  calls : ∀ call ∈ s.calls, 0 < call.invokeNum →
    .received call.request call.requestId ∈ s.log

namespace Named

theorem requestId_eq (h : Named s) {request : Nat} {a b : Int}
    (ha : .received request a ∈ s.log) (hb : .received request b ∈ s.log) : a = b := by
  have heq := (h.received _ _ ha).symm.trans (h.received _ _ hb)
  injection heq with heq
  injection heq

/-- The place where the log ends is no name yet. -/
theorem not_dispatched (h : Named s) : .dispatched s.log.length ∉ s.log := by
  intro hd
  obtain ⟨requestId, hr⟩ := h.dispatched _ hd
  have hlt := (List.getElem?_eq_some_iff.mp (h.received _ _ hr)).1
  exact Nat.lt_irrefl _ hlt

theorem of_log (h : Named s) (hcalls : ∀ call ∈ t.calls, ∃ old ∈ s.calls,
      call.request = old.request ∧ call.requestId = old.requestId ∧
        (0 < call.invokeNum → 0 < old.invokeNum)) {events : List Event}
    (hlog : t.log = s.log ++ events)
    (hreceived : ∀ request requestId, .received request requestId ∈ events →
      request = s.log.length ∧ events = [.received request requestId])
    (hdispatched : ∀ request, .dispatched request ∈ events →
      ∃ requestId, .received request requestId ∈ s.log) : Named t where
  received := by
    intro request requestId hr
    rw [hlog] at hr ⊢
    rcases mem_append.mp hr with hr | hr
    · have hold := h.received _ _ hr
      rw [List.getElem?_append_left (List.getElem?_eq_some_iff.mp hold).1]
      exact hold
    · obtain ⟨rfl, hevents⟩ := hreceived _ _ hr
      rw [hevents]
      simp
  dispatched := by
    intro request hd
    rw [hlog] at hd ⊢
    have hold : ∃ requestId, .received request requestId ∈ s.log := by
      rcases mem_append.mp hd with hd | hd
      · exact h.dispatched _ hd
      · exact hdispatched _ hd
    obtain ⟨requestId, hr⟩ := hold
    exact ⟨requestId, mem_append_left _ hr⟩
  calls := by
    intro call hcall hpos
    obtain ⟨old, hold, hr, hid, hnum⟩ := hcalls call hcall
    rw [hlog, hr, hid]
    exact mem_append_left _ (h.calls old hold (hnum hpos))

end Named

variable {events log : List Event} {event : Event}

theorem not_mem_of_quiet (h : ∀ event ∈ events, event.quiet = true)
    (he : event.quiet = false) : event ∉ events := by
  intro hmem
  rw [h event hmem] at he
  cases he

theorem Act.named (hact : Act s t) (h : Named s) : Named t := by
  obtain ⟨events, hlog, htold⟩ := hact.told
  apply h.of_log hact.mem_calls hlog
  · intro request requestId hr
    cases htold with
    | quiet hq => exact absurd hr (not_mem_of_quiet hq rfl)
    | put _ hq _ =>
      rcases mem_cons.mp hr with hr | hr
      · cases hr
      · exact absurd hr (not_mem_of_quiet hq rfl)
    | received requestId =>
      cases mem_singleton.mp hr
      exact ⟨rfl, rfl⟩
    | dispatched index call _ _ => cases mem_singleton.mp hr
  · intro request hd
    cases htold with
    | quiet hq => exact absurd hd (not_mem_of_quiet hq rfl)
    | put _ hq _ =>
      rcases mem_cons.mp hd with hd | hd
      · cases hd
      · exact absurd hd (not_mem_of_quiet hq rfl)
    | received requestId => cases mem_singleton.mp hd
    | dispatched index call hcall hpos =>
      cases mem_singleton.mp hd
      exact ⟨call.requestId, h.calls call (mem_of_getElem? hcall) hpos⟩

/-- The request that a servant is called for is answered, or the servant is not completed. -/
def Owed (s : ConnectionI) : Prop :=
  ∀ request requestId, .dispatched request ∈ s.log → .received request requestId ∈ s.log →
    requestId ≠ 0 → .put (.reply request requestId) ∈ s.log ∨
      ∃ incoming ∈ s.incomings, incoming.request = request ∧ incoming.requestId = requestId ∧
        incoming.response = true

theorem Act.datagram_eq (h : Act s t) : t.datagram = s.datagram := by
  have hadmits : ∀ {message s₁}, Admits s message s₁ → s₁.datagram = s.datagram := by
    intro message s₁ ha
    cases ha <;> rfl
  cases h with
  | send ha _ hsends => exact hsends.sameDispatch.datagram.trans (hadmits ha)
  | request response ha hsends =>
    exact (sameDispatch_settle ..).datagram.trans
      (hsends.sameDispatch.datagram.trans (hadmits ha))
  | sendFailed taken answers ex ha _ =>
    have hdatagram := hadmits ha
    exact (sameDispatch_shut ..).datagram.trans hdatagram
  | timeoutQueued _ _ _ _ _ => exact (sameDispatch_shut ..).datagram
  | _ => rfl

theorem mem_log_of_append (hlog : t.log = s.log ++ events) (h : event ∈ s.log) :
    event ∈ t.log := by
  rw [hlog]
  exact mem_append_left _ h

theorem Owed.of_log (h : Owed s) (hcompletes : Completes s t) (hopen : ¬State.closed ≤ s.state)
    (hlog : t.log = s.log ++ events)
    (hnew : ∀ request requestId, .dispatched request ∈ t.log → .received request requestId ∈ t.log →
      requestId ≠ 0 → (.dispatched request ∈ s.log ∧ .received request requestId ∈ s.log) ∨
        ∃ incoming ∈ t.incomings, incoming.request = request ∧ incoming.requestId = requestId ∧
          incoming.response = true) : Owed t := by
  intro request requestId hd hr hid
  rcases hnew _ _ hd hr hid with ⟨hd, hr⟩ | hi
  · rcases h _ _ hd hr hid with hput | ⟨incoming, hi, rfl, rfl, hresponse⟩
    · exact .inl (mem_log_of_append hlog hput)
    · rcases hcompletes incoming hi with hi | hno | hs | hput
      · exact .inr ⟨incoming, hi, rfl, rfl, hresponse⟩
      · rw [hno] at hresponse
        cases hresponse
      · exact absurd hs hopen
      · exact .inl hput
  · exact .inr hi

theorem Act.owed (hact : Act s t) (hn : Named s) (hdatagram : s.datagram = false)
    (h : ¬State.closed ≤ s.state → Owed s) (ht : ¬State.closed ≤ t.state) : Owed t := by
  have hopen : ¬State.closed ≤ s.state := fun hs => ht (hact.closed_le hs)
  obtain ⟨events, hlog, htold⟩ := hact.told
  apply (h hopen).of_log hact.completes hopen hlog
  have hold : (∀ request, .dispatched request ∉ events) →
      (∀ request requestId, .received request requestId ∉ events) →
      ∀ request requestId, .dispatched request ∈ t.log → .received request requestId ∈ t.log →
        .dispatched request ∈ s.log ∧ .received request requestId ∈ s.log := by
    intro hd hr request requestId hd' hr'
    rw [hlog] at hd' hr'
    exact ⟨(mem_append.mp hd').resolve_right (hd _),
      (mem_append.mp hr').resolve_right (hr _ _)⟩
  intro request requestId hd hr hid
  cases htold with
  | quiet hq =>
    left
    apply hold _ _ _ _ hd hr
    · exact fun _ => not_mem_of_quiet hq rfl
    · exact fun _ _ => not_mem_of_quiet hq rfl
  | put _ hq _ =>
    left
    apply hold _ _ _ _ hd hr
    · intro request hmem
      rcases mem_cons.mp hmem with hmem | hmem
      · cases hmem
      · exact not_mem_of_quiet hq rfl hmem
    · intro request requestId hmem
      rcases mem_cons.mp hmem with hmem | hmem
      · cases hmem
      · exact not_mem_of_quiet hq rfl hmem
  | received newId =>
    left
    rw [hlog] at hd hr
    have hd' : .dispatched request ∈ s.log :=
      (mem_append.mp hd).resolve_right (by simp)
    refine ⟨hd', (mem_append.mp hr).resolve_right fun hnew => ?_⟩
    cases mem_singleton.mp hnew
    exact hn.not_dispatched hd'
  | dispatched index call hcall hpos hincoming =>
    rw [hlog] at hd hr
    have hr' : .received request requestId ∈ s.log :=
      (mem_append.mp hr).resolve_right (by simp)
    rcases mem_append.mp hd with hd | hd
    · exact .inl ⟨hd, hr'⟩
    · cases mem_singleton.mp hd
      have heq : call.requestId = requestId :=
        hn.requestId_eq (hn.calls call (mem_of_getElem? hcall) hpos) hr'
      refine .inr ⟨_, hincoming, rfl, heq, ?_⟩
      simp [hdatagram, heq, hid]

/-- What `CloseConnection` promises of the messages behind it and the requests before it. -/
structure Answered (log : List Event) : Prop where
  answered : ∀ before after, log = before ++ .put .closeConnection :: after →
    ∀ request requestId, .received request requestId ∈ before → requestId ≠ 0 →
      .dispatched request ∉ log ∨ .put (.reply request requestId) ∈ before
  last : ∀ before after, log = before ++ .put .closeConnection :: after →
    (∀ content, .put content ∉ after) ∧ ∀ request, .dispatched request ∉ after

theorem Answered.of_not_mem (h : .put .closeConnection ∉ log) : Answered log := by
  have hno : ∀ before after, log ≠ before ++ .put .closeConnection :: after := by
    intro before after hlog
    apply h
    simp [hlog]
  exact ⟨fun before after hlog => absurd hlog (hno before after),
    fun before after hlog => absurd hlog (hno before after)⟩

theorem Answered.append (h : Answered log) (hput : ∀ content, .put content ∉ events)
    (hdispatched : ∀ request, .dispatched request ∉ events) :
    Answered (log ++ events) where
  answered := by
    intro before after hlog request requestId hr hid
    obtain ⟨rest, hlog', _⟩ := split_of_append hlog (hput _)
    rcases h.answered _ _ hlog' _ _ hr hid with hd | hreply
    · left
      intro hmem
      rcases mem_append.mp hmem with hmem | hmem
      · exact hd hmem
      · exact hdispatched _ hmem
    · exact .inr hreply
  last := by
    intro before after hlog
    obtain ⟨rest, hlog', rfl⟩ := split_of_append hlog (hput _)
    obtain ⟨hputs, hds⟩ := h.last _ _ hlog'
    constructor
    · intro content hmem
      rcases mem_append.mp hmem with hmem | hmem
      · exact hputs _ hmem
      · exact hput _ hmem
    · intro request hmem
      rcases mem_append.mp hmem with hmem | hmem
      · exact hds _ hmem
      · exact hdispatched _ hmem

/-- `CloseConnection` is put behind the replies. -/
theorem Answered.close (h : .put .closeConnection ∉ log)
    (hreplied : ∀ request requestId, .dispatched request ∈ log →
      .received request requestId ∈ log → requestId ≠ 0 → .put (.reply request requestId) ∈ log)
    (hquiet : ∀ event ∈ events, event.quiet = true) :
    Answered (log ++ .put .closeConnection :: events) := by
  have hsplit : ∀ before after,
      log ++ .put .closeConnection :: events = before ++ .put .closeConnection :: after →
      before = log ∧ after = events := by
    intro before after heq
    exact split_of_not_mem heq h (not_mem_of_quiet hquiet rfl)
  constructor
  · intro before after heq request requestId hr hid
    obtain ⟨rfl, rfl⟩ := hsplit before after heq
    by_cases hd : .dispatched request ∈ before
    · exact .inr (hreplied _ _ hd hr hid)
    · left
      intro hmem
      rcases mem_append.mp hmem with hmem | hmem
      · exact hd hmem
      · rcases mem_cons.mp hmem with hmem | hmem
        · cases hmem
        · exact not_mem_of_quiet hquiet rfl hmem
  · intro before after heq
    obtain ⟨rfl, rfl⟩ := hsplit before after heq
    exact ⟨fun _ => not_mem_of_quiet hquiet rfl, fun _ => not_mem_of_quiet hquiet rfl⟩

end

section

variable {s t : ConnectionI}

/-- The messages that were put into the order and are still to be written. -/
def unwritten (s : ConnectionI) : List Content :=
  match s.sendStreams with
  | [] => []
  | message :: rest =>
    (if s.writing ∧ message.i = .finish then [] else [message.content]) ++ rest.map (·.content)

/-- The messages are written in their order. -/
def Ordered (s : ConnectionI) : Prop := (wrotes s.log ++ s.unwritten).Sublist (puts s.log)

theorem puts_append (xs ys : List Event) : puts (xs ++ ys) = puts xs ++ puts ys :=
  List.filterMap_append

theorem wrotes_append (xs ys : List Event) : wrotes (xs ++ ys) = wrotes xs ++ wrotes ys :=
  List.filterMap_append

/-- What is written was to be written, or was just put behind the others. -/
theorem Ordered.of_log (h : Ordered s) {events : List Event} (hlog : t.log = s.log ++ events)
    (hsub : (wrotes events ++ t.unwritten).Sublist (s.unwritten ++ puts events)) : Ordered t := by
  unfold Ordered
  rw [hlog, wrotes_append, puts_append, append_assoc]
  apply (List.Sublist.append_left hsub _).trans
  rw [← append_assoc]
  exact List.Sublist.append_right h _

theorem Ordered.of_sublist (h : Ordered s) {events : List Event} (hlog : t.log = s.log ++ events)
    (hputs : puts events = []) (hwrotes : wrotes events = [])
    (hsub : t.unwritten.Sublist s.unwritten) : Ordered t := by
  apply h.of_log hlog
  rw [hputs, hwrotes, append_nil]
  exact hsub

theorem Ordered.of_log_eq (h : Ordered s) (hlog : t.log = s.log)
    (hsub : t.unwritten.Sublist s.unwritten) : Ordered t :=
  h.of_sublist (hlog.trans (append_nil _).symm) rfl rfl hsub

theorem unwritten_of_eq (hsend : t.sendStreams = s.sendStreams) (hwriting : t.writing = s.writing) :
    t.unwritten = s.unwritten := by
  unfold unwritten
  rw [hsend, hwriting]

theorem puts_told (message : OutgoingMessage) (taken : Taken) :
    puts (message.told taken) = [] := by
  unfold OutgoingMessage.told
  split <;> rfl

theorem wrotes_told (message : OutgoingMessage) (taken : Taken) :
    wrotes (message.told taken) =
      if message.i ≠ .finish ∧ taken = .everything then [message.content] else [] := by
  unfold OutgoingMessage.told
  split <;> rfl

theorem puts_sentEvents (s : ConnectionI) (message : OutgoingMessage) :
    puts (s.sentEvents message) = [] := by
  unfold sentEvents
  split
  · rfl
  · split <;> rfl

theorem wrotes_sentEvents (s : ConnectionI) (message : OutgoingMessage) :
    wrotes (s.sentEvents message) = [] := by
  unfold sentEvents
  split
  · rfl
  · split <;> rfl

theorem taken_content (message : OutgoingMessage) (taken : Taken) :
    (message.taken taken).content = message.content := by
  unfold OutgoingMessage.taken
  split
  · rfl
  · split <;> rfl
  · rfl

/-- What is taken of a message is not to be written any more. -/
theorem wrotes_told_append (message : OutgoingMessage) (taken : Taken) :
    wrotes (message.told taken) ++
        (if (message.taken taken).i = .finish then [] else [message.content]) =
      if message.i = .finish then [] else [message.content] := by
  rw [wrotes_told]
  cases taken with
  | nothing | everything =>
    by_cases hi : message.i = .finish
    all_goals simp [OutgoingMessage.taken, hi]
  | part =>
    cases hi : message.i with
    | start | middle | finish => simp [OutgoingMessage.taken, hi]

theorem Sends.ordered {message : OutgoingMessage} {status : AsyncStatus}
    (h : Sends s message status t) (hi : message.i = .start) (ho : Ordered s) : Ordered t := by
  cases h with
  | queued hne =>
    apply ho.of_log rfl
    obtain ⟨head, rest, hs⟩ := List.exists_cons_of_ne_nil hne
    simp [unwritten, hs, puts, wrotes]
  | sent answers invokes hnil =>
    apply ho.of_log (append_assoc ..)
    have hun : s.unwritten = [] := by
      unfold unwritten
      rw [hnil]
    simp only [cons_append, puts, wrotes, List.filterMap_cons, List.filterMap_append]
    change (wrotes (message.told .everything) ++ wrotes (sentEvents _ message) ++ _).Sublist
      (_ ++ message.content :: (puts (message.told .everything) ++ puts (sentEvents _ message)))
    rw [wrotes_told, wrotes_sentEvents, puts_told, puts_sentEvents, hun]
    simp [hi, unwritten, hnil, markSent]
  | blocked taken answers hnil =>
    apply ho.of_log rfl
    have hun : s.unwritten = [] := by
      unfold unwritten
      rw [hnil]
    have hwrote := wrotes_told_append message taken
    rw [hi] at hwrote
    simp only [puts, wrotes, List.filterMap_cons]
    change (wrotes (message.told taken) ++ _).Sublist
      (_ ++ message.content :: puts (message.told taken))
    rw [puts_told, hun]
    simp only [unwritten, taken_content, map_nil, append_nil, true_and, List.nil_append]
    rw [hwrote]
    exact List.Sublist.refl _

theorem Admits.ordered {message : OutgoingMessage} (ha : Admits s message t) (ho : Ordered s) :
    message.i = .start ∧ Ordered t := by
  cases ha <;> exact ⟨rfl, ho⟩

theorem Ordered.settle (ho : Ordered s) (response : Bool) (out : Nat) (requestId : Int) :
    Ordered (s.settle response out requestId) := by
  apply ho.of_sublist (settle_log ..) rfl rfl
  rw [unwritten_of_eq]
  all_goals
    unfold ConnectionI.settle
    split <;> rfl

theorem unwritten_shut (s : ConnectionI) (ex : LocalException) :
    (s.shut ex).unwritten = s.unwritten := by
  apply unwritten_of_eq
  · unfold shut
    split <;> rfl
  · unfold shut
    split <;> rfl

/-- A message that is taken out of the queue need not be written. -/
theorem unwritten_eraseIdx (s : ConnectionI) {index : Nat} (hindex : index ≠ 0) :
    ({ s with sendStreams := s.sendStreams.eraseIdx index }).unwritten.Sublist s.unwritten := by
  cases hs : s.sendStreams with
  | nil => simp [unwritten, hs]
  | cons message rest =>
    cases index with
    | zero => exact absurd rfl hindex
    | succ n =>
      simp only [unwritten, hs, List.eraseIdx_cons_succ]
      exact List.Sublist.append_left ((List.eraseIdx_sublist rest n).map _) _

theorem Act.ordered (hact : Act s t) (ho : Ordered s) : Ordered t := by
  cases hact with
  | send ha _ hsends =>
    obtain ⟨hi, ho'⟩ := ha.ordered ho
    exact hsends.ordered hi ho'
  | request response ha hsends =>
    obtain ⟨hi, ho'⟩ := ha.ordered ho
    exact (hsends.ordered hi ho').settle ..
  | sendFailed taken answers ex ha hnil =>
    rename_i message s₁
    obtain ⟨hi, ho'⟩ := ha.ordered ho
    apply ho'.of_log (shut_log ..)
    rw [unwritten_shut]
    have hun : s₁.unwritten = [] := by
      unfold unwritten
      rw [hnil]
    have hun' : (s₁.sendFailed message taken answers).unwritten = [] := hun
    change (wrotes (message.told taken) ++ _).Sublist
      (_ ++ message.content :: puts (message.told taken))
    rw [hun, hun', puts_told, wrotes_told, append_nil, List.nil_append]
    split
    · exact List.Sublist.refl _
    · exact nil_sublist _
  | take taken hs hwriting =>
    apply ho.of_log rfl
    rw [puts_told, append_nil]
    simp only [unwritten, hs, hwriting, true_and, taken_content]
    rw [← append_assoc, wrotes_told_append]
  | pop sentCBs invokes hs =>
    apply ho.of_sublist rfl (puts_sentEvents ..) (wrotes_sentEvents ..)
    rename_i message rest
    simp only [unwritten, hs, markSent]
    apply List.Sublist.trans _ (List.sublist_append_right _ _)
    cases rest with
    | nil => exact nil_sublist _
    | cons next others => simp
  | load hs hwriting =>
    apply Ordered.of_log_eq ho
    · rfl
    · simp [unwritten, hs, hwriting]
  | swap hs _ hswap =>
    apply Ordered.of_log_eq ho
    · rfl
    rcases hswap with hwriting | hi
    · simp only [unwritten, hs, hwriting]
      apply List.Sublist.append_right
      split
      · exact nil_sublist _
      · simp
    · simp [unwritten, hs, hi]
  | cancelQueued out index ex hfind hget =>
    apply ho.of_sublist rfl rfl rfl
    by_cases hindex : index = 0
    · simp only [unwritten, ConnectionI.completed, hindex, if_true]
      cases hs : s.sendStreams with
      | nil => exact List.Sublist.refl _
      | cons message rest => simp
    · simp only [ConnectionI.completed, hindex, if_false]
      exact unwritten_eraseIdx s hindex
  | timeoutQueued out index _ _ _ =>
    apply Ordered.of_log_eq ho
    · rw [shut_log]
    · rw [unwritten_shut]
      exact List.Sublist.refl _
  | cancelSent _ _ _ _ _ _ | received requestId | invoke index call _ _ =>
    exact ho.of_sublist rfl rfl rfl (List.Sublist.refl _)
  | finish _ =>
    apply ho.of_sublist rfl
    · simp [puts]
    · simp [wrotes]
    · exact nil_sublist _
  | _ => exact ho

end

section

variable {s t : ConnectionI}

/-- What holds of a connection on the server side as long as the count has not wrapped. -/
structure Gracious (s : ConnectionI) : Prop where
  counted : Counted s
  named : Named s
  thrown : Thrown s
  closing : s.Closing
  idle : s.shutdownInitiated = true → Idle s
  owed : s.datagram = false → ¬State.closed ≤ s.state → Owed s
  closed : .put .closeConnection ∈ s.log → s.shutdownInitiated = true
  answered : Answered s.log
  ordered : Ordered s

section

variable (h : Gracious s)

include h

/-- No message is sent once the shutdown is initiated. -/
theorem Gracious.not_admits {message : OutgoingMessage} {s₁ : ConnectionI}
    (hs : s.shutdownInitiated = true) : ¬Admits s message s₁ := by
  intro ha
  have hclosing := h.closing hs
  cases ha with
  | closeConnection _ _ hno _ =>
    rw [hs] at hno
    cases hno
  | validateConnection hactive =>
    rw [hactive] at hclosing
    exact absurd hclosing (by decide)
  | request response hno =>
    have hex := h.thrown hclosing
    rw [hno] at hex
    cases hex
  | reply index incoming hincoming _ _ =>
    rw [(h.idle hs).1] at hincoming
    cases hincoming

theorem Gracious.closed_act (hact : Act s t)
    (hput : .put .closeConnection ∈ t.log) : t.shutdownInitiated = true := by
  obtain ⟨events, hlog, htold⟩ := hact.told
  rw [hlog] at hput
  rcases mem_append.mp hput with hput | hput
  · have hs := h.closed hput
    rcases hact.shutdown_cases with ht | ⟨ht, _⟩
    · exact ht.trans hs
    · exact ht
  · cases htold with
    | quiet hq => exact absurd hput (not_mem_of_quiet hq rfl)
    | put _ hq hclose =>
      rcases mem_cons.mp hput with hput | hput
      · injection hput with hput
        exact hclose hput.symm
      · exact absurd hput (not_mem_of_quiet hq rfl)
    | received _ | dispatched _ _ _ _ _ => cases mem_singleton.mp hput

section

variable (hbound : s.pending < 2 ^ 32)

include hbound

/-- When `CloseConnection` is put, all that servants were called for is answered. -/
theorem Gracious.replied (hs : s.state = .closing)
    (hzero : s.dispatchCount = 0) (hdatagram : s.datagram = false) {request : Nat}
    {requestId : Int} (hd : .dispatched request ∈ s.log)
    (hr : .received request requestId ∈ s.log) (hid : requestId ≠ 0) :
    .put (.reply request requestId) ∈ s.log := by
  have hopen : ¬State.closed ≤ s.state := by
    rw [hs]
    decide
  rcases h.owed hdatagram hopen _ _ hd hr hid with hput | ⟨incoming, hi, _⟩
  · exact hput
  · rw [(h.counted.idle hbound hzero).1] at hi
    cases hi

theorem Gracious.answered_act (hact : Act s t) :
    Answered t.log := by
  obtain ⟨events, hlog, htold⟩ := hact.told
  rw [hlog]
  by_cases hput : .put .closeConnection ∈ s.log
  · have hs := h.closed hput
    cases htold with
    | quiet hq =>
      exact h.answered.append (fun _ => not_mem_of_quiet hq rfl) fun _ => not_mem_of_quiet hq rfl
    | put ha _ _ => exact absurd ha (h.not_admits hs)
    | received requestId => exact h.answered.append (by simp) (by simp)
    | dispatched index call hcall hpos _ =>
      exact absurd hpos ((h.idle hs).2 call (mem_of_getElem? hcall))
  · have hno : .put .closeConnection ∉ events → Answered (s.log ++ events) := by
      intro hevents
      apply Answered.of_not_mem
      intro hmem
      rcases mem_append.mp hmem with hmem | hmem
      · exact hput hmem
      · exact hevents hmem
    cases htold with
    | quiet hq => exact hno (not_mem_of_quiet hq rfl)
    | put ha hq _ =>
      cases ha with
      | closeConnection hs hzero _ hdatagram =>
        exact Answered.close hput (fun _ _ => h.replied hbound hs hzero hdatagram) hq
      | _ =>
        apply hno
        intro hmem
        rcases mem_cons.mp hmem with hmem | hmem
        · cases hmem
        · exact not_mem_of_quiet hq rfl hmem
    | received requestId => exact hno (by simp)
    | dispatched index call _ _ _ => exact hno (by simp)

theorem Gracious.act (hact : Act s t) :
    Gracious t where
  counted := (hact.counted h.counted).1
  named := hact.named h.named
  thrown := hact.thrown h.thrown
  closing := hact.closing h.closing
  idle := hact.idle h.counted hbound h.idle
  owed hdatagram :=
    have hs := hact.datagram_eq ▸ hdatagram
    hact.owed h.named hs (h.owed hs)
  closed := h.closed_act hact
  answered := h.answered_act hbound hact
  ordered := hact.ordered h.ordered

theorem Gracious.acts (hacts : Acts s t) :
    Gracious t ∧ t.pending ≤ s.pending := by
  induction hacts with
  | refl => exact ⟨h, Int.le_refl _⟩
  | tail _ hact ih =>
    obtain ⟨hu, hle⟩ := ih
    have hcounted := (hact.counted hu.counted).2
    exact ⟨hu.act (by omega) hact, by omega⟩

end

/-- A reply that arrives changes nothing of this. -/
theorem Gracious.replies (hr : Replies s t) :
    Gracious t ∧ t.pending ≤ s.pending := by
  obtain ⟨out, requestId, is, _⟩ := hr
  have hquiet : ∀ event ∈ [Event.completed out (.response requestId is) (s.isSent out)],
      event.quiet = true := by
    intro event he
    cases mem_singleton.mp he
    rfl
  have hold : ∀ event : Event, event.quiet = false →
      event ∈ s.log ++ [.completed out (.response requestId is) (s.isSent out)] →
      event ∈ s.log := fun event he hmem =>
    (mem_append.mp hmem).resolve_right (not_mem_of_quiet hquiet he)
  refine ⟨⟨⟨h.counted.counted, h.counted.nonneg⟩, ?_, h.thrown, h.closing, h.idle, ?_, ?_, ?_, ?_⟩,
    Int.le_refl _⟩
  · apply Named.of_log h.named
    · exact fun call hcall => ⟨call, hcall, rfl, rfl, id⟩
    · rfl
    · exact fun _ _ hmem => absurd hmem (not_mem_of_quiet hquiet rfl)
    · exact fun _ hmem => absurd hmem (not_mem_of_quiet hquiet rfl)
  · intro hdatagram hopen
    apply Owed.of_log (h.owed hdatagram hopen)
    · exact Completes.of_incomings rfl
    · exact hopen
    · rfl
    · exact fun _ _ hd hr _ => .inl ⟨hold _ rfl hd, hold _ rfl hr⟩
  · exact fun hput => h.closed (hold _ rfl hput)
  · exact h.answered.append (fun _ => not_mem_of_quiet hquiet rfl)
      fun _ => not_mem_of_quiet hquiet rfl
  · exact h.ordered.of_sublist rfl rfl rfl (List.Sublist.refl _)

theorem Gracious.answers (hbound : s.pending < 2 ^ 32) (ha : Answers s t) :
    Gracious t ∧ t.pending ≤ s.pending := by
  obtain ⟨u, v, hsu, huv, hvt⟩ := ha
  obtain ⟨hu, hle⟩ := h.acts hbound hsu
  have hv : Gracious v ∧ v.pending ≤ u.pending := by
    rcases huv with rfl | hr
    · exact ⟨hu, Int.le_refl _⟩
    · exact hu.replies hr
  obtain ⟨ht, hle'⟩ := hv.1.acts (by omega) hvt
  exact ⟨ht, by omega⟩

/-- What is counted is what was read. -/
theorem Gracious.enqueues (he : Enqueues s t) : Gracious t := by
  obtain ⟨call, dispatchCount, hcount, hnonneg, hnew⟩ := he
  refine ⟨⟨?_, ?_⟩, ⟨h.named.received, h.named.dispatched, ?_⟩, h.thrown, h.closing, ?_, h.owed,
    h.closed, h.answered, h.ordered⟩
  · have hpending : pending { s with
          dispatchCount := toInt (s.dispatchCount + dispatchCount)
          calls := s.calls ++ [call] } =
        s.pending + (call.dispatchedCount + call.invokeNum) := by
      simp only [pending, List.map_append, List.sum_append, List.map_cons, map_nil,
        List.sum_cons, List.sum_nil, DispatchCall.pending]
      omega
    rw [hpending]
    change toInt (s.dispatchCount + dispatchCount) = _
    rw [h.counted.counted, toInt_toInt_add, ← toInt_add_toInt, hcount, toInt_add_toInt]
  · intro other hother
    rcases mem_append.mp hother with hother | hother
    · exact h.counted.nonneg other hother
    · cases mem_singleton.mp hother
      exact hnonneg
  · intro other hother hpos
    rcases mem_append.mp hother with hother | hother
    · exact h.named.calls other hother hpos
    · cases mem_singleton.mp hother
      exact mem_of_getElem? (hnew hpos).2
  · intro hs
    refine ⟨(h.idle hs).1, fun other hother hpos => ?_⟩
    rcases mem_append.mp hother with hother | hother
    · exact (h.idle hs).2 other hother hpos
    · cases mem_singleton.mp hother
      have hno := (hnew hpos).1
      rw [show s.shutdownInitiated = true from hs] at hno
      cases hno

theorem Gracious.step {turn : Turn} (hbound : s.pending < 2 ^ 32)
    (hstep : step s turn = some t) : Gracious t := by
  obtain ⟨u, hsu, rfl | hut⟩ := receives_of_step hstep h.closing
  · exact (h.answers hbound hsu).1
  · exact (h.answers hbound hsu).1.enqueues hut

end

/-- A new connection -/
def initial (datagram : Bool) : ConnectionI := { datagram := datagram }

theorem gracious_initial (datagram : Bool) : Gracious (initial datagram) where
  counted := ⟨by simp [initial, pending, toInt], by simp [initial]⟩
  named := ⟨by simp [initial], by simp [initial], by simp [initial]⟩
  thrown h := by
    revert h
    cases datagram <;> decide
  closing := by simp [Closing, initial]
  idle := by simp [initial]
  owed _ _ := by simp [Owed, initial]
  closed := by simp [initial]
  answered := .of_not_mem (by simp [initial])
  ordered := List.Sublist.refl _

variable {log : List Event} {content : Content}

theorem mem_puts : content ∈ puts log ↔ .put content ∈ log := by
  induction log with
  | nil => simp [puts]
  | cons event rest ih => cases event <;> simp_all [puts]

theorem mem_wrotes : content ∈ wrotes log ↔ .wrote content ∈ log := by
  induction log with
  | nil => simp [wrotes]
  | cons event rest ih => cases event <;> simp_all [wrotes]

/-- `CloseConnection` is put once, behind all other messages. -/
theorem Answered.puts_eq (h : Answered log) (hput : .put .closeConnection ∈ log) :
    ∃ xs, puts log = xs ++ [.closeConnection] ∧ .closeConnection ∉ xs := by
  obtain ⟨before, after, hlog⟩ := List.append_of_mem hput
  have hafter : puts after = [] := by
    rw [List.eq_nil_iff_forall_not_mem]
    exact fun content hmem => (h.last _ _ hlog).1 content (mem_puts.mp hmem)
  refine ⟨puts before, ?_, fun hmem => ?_⟩
  · rw [hlog, puts_append]
    change _ ++ .closeConnection :: puts after = _
    rw [hafter]
  · obtain ⟨first, second, hbefore⟩ := List.append_of_mem (mem_puts.mp hmem)
    have hlog' : log = first ++ .put .closeConnection ::
        (second ++ .put .closeConnection :: after) := by
      rw [hlog, hbefore, append_assoc, cons_append]
    exact (h.last _ _ hlog').1 .closeConnection (by simp)

theorem Gracious.truthful (h : Gracious s) : Truthful s.log where
  answered := h.answered.answered
  last := h.answered.last
  ordered := (List.sublist_append_left _ _).trans h.ordered
  silent := by
    intro before after hlog content hmem
    have hsub : (wrotes s.log).Sublist (puts s.log) :=
      (List.sublist_append_left _ _).trans h.ordered
    have hwrotes : wrotes s.log = wrotes before ++ .closeConnection :: wrotes after := by
      rw [hlog, wrotes_append]
      rfl
    rw [hwrotes] at hsub
    have hput : .put .closeConnection ∈ s.log := by
      apply mem_puts.mp
      apply hsub.subset
      simp
    obtain ⟨xs, hputs, hxs⟩ := h.answered.puts_eq hput
    rw [hputs] at hsub
    have hnil := eq_nil_of_sublist hsub hxs
    have hcontent := mem_wrotes.mpr hmem
    rw [hnil] at hcontent
    cases hcontent

/-- A connection tells the truth when it is closed gracefully, in every run in which fewer than
2 ^ 32 requests and callbacks are counted at any time. -/
theorem truthful_of_reach {datagram : Bool}
    (h : Reach step (fun s _ => s.pending < 2 ^ 32) (initial datagram) s) : Truthful s.log := by
  have hgracious : Gracious s := by
    apply h.invariant (gracious_initial datagram)
    intro s turn t hs hbound hstep
    exact hs.step hbound hstep
  exact hgracious.truthful

/-- A message whose body starts with a number -/
def messageOf (messageType : UInt8) (number : List UInt8) : Turn :=
  { call := .message .onRead (.complete { messageType := messageType, body := .ok number } false) }

theorem onWrite_ne_none : Connection.SocketOperation.onWrite ≠ .none := by decide

/-- A request is answered after `close`, and `CloseConnection` is sent behind the reply. -/
def answeredThenClosed : List Turn :=
  [{ call := .start false, answers := [.done, .done] },
    { call := .activate },
    messageOf requestMsg [1, 0, 0, 0],
    { call := .invoke 0 none },
    { call := .dispatched 0 },
    { call := .close .gracefully },
    { call := .respond 0, answers := [.done, .wait ⟨.onWrite, onWrite_ne_none⟩ .nothing] }]

theorem truthful_answeredThenClosed :
    ∃ s : ConnectionI, Truthful s.log ∧ puts s.log = [.reply 0 1, .closeConnection] := by
  have htest : ∀ (s : ConnectionI) (_ : Turn), decide (s.pending < 2 ^ 32) = true →
      s.pending < 2 ^ 32 := fun _ _ => of_decide_eq_true
  have hrun : (run (fun (s : ConnectionI) turn =>
        if decide (s.pending < 2 ^ 32) then step s turn else none)
      (initial false) answeredThenClosed).any
      (fun s => puts s.log = [.reply 0 1, .closeConnection]) = true := by decide +kernel
  obtain ⟨s, hr, hs⟩ := Reach.exists_of_runWhere htest hrun
  exact ⟨s, truthful_of_reach hr, of_decide_eq_true hs⟩

/-- Two batches claim as many requests as an `int` can count, and two requests wait for their
replies: the count is 0 when the connection is closed, and a servant answers after it. -/
def overflow : List Turn :=
  [{ call := .start false, answers := [.done, .done] },
    { call := .activate },
    messageOf requestBatchMsg [255, 255, 255, 127],
    messageOf requestBatchMsg [255, 255, 255, 127],
    messageOf requestMsg [1, 0, 0, 0],
    messageOf requestMsg [2, 0, 0, 0],
    { call := .invoke 2 none },
    { call := .close .gracefully, answers := [.wait ⟨.onWrite, onWrite_ne_none⟩ .nothing] },
    { call := .respond 0 }]

theorem not_truthful_overflow :
    ¬∀ (datagram : Bool) (s : ConnectionI), Reach step Any (initial datagram) s →
      Truthful s.log := by
  intro h
  have hrun : (run step (initial false) overflow).any
      (fun s => puts s.log = [.closeConnection, .reply 2 1]) = true := by decide +kernel
  obtain ⟨s, hr, hs⟩ := Reach.exists_of_run hrun
  have hputs : puts s.log = [.closeConnection, .reply 2 1] := of_decide_eq_true hs
  have htruth := h false s hr
  have hanswered : Answered s.log := ⟨htruth.answered, htruth.last⟩
  have hclose : .put .closeConnection ∈ s.log := by
    apply mem_puts.mp
    simp [hputs]
  obtain ⟨xs, hxs, _⟩ := hanswered.puts_eq hclose
  have hlast := congrArg List.getLast? (hputs.symm.trans hxs)
  simp at hlast

end

end Ice.Protocol.ConnectionI
