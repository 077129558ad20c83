import Ice.Connection.DispatchFrames
import Ice.Connection.GracefulClosure

/-!
# Closing with wait

`close(GracefullyWithWait)` waits until `_asyncRequests` is empty. A thread that waits is woken
where `notifyAll` is called, and tests the condition of its loop again once it has locked the
connection. A cancellation takes a request out of the map without a notification, so a thread
that waits for that request only is forgotten; apart from that no thread is.
-/

namespace Ice.Protocol.ConnectionI

open Lib
open State (closed)
open Keeps (get_bind tryCatch)
open Option (map_eq_some_iff some.inj)
open Connection (SocketOperation)

/-- A connection, and the threads that are in the loop of `close(GracefullyWithWait)`. -/
structure Waiting where
  connection : ConnectionI
  /-- The threads in `wait` that were not notified -/
  blocked : Nat := 0
  /-- The threads that were notified and have not locked the connection again -/
  woken : Nat := 0

/-- The events of a connection whose closing is waited for -/
inductive WaitEvent
  /-- Any call but `close(GracefullyWithWait)` -/
  | turn (turn : Turn)
  /-- A thread calls `close(GracefullyWithWait)`. -/
  | close (answers : List Answer) (invokes : List Bool)
  /-- A thread that was notified tests the condition of its loop again. -/
  | resume (answers : List Answer) (invokes : List Bool)

/-- Whether a call that leads from `s` to `t` calls `notifyAll`: `setState` does it when the
state is switched, `parseMessage` when a request is answered, and the ends of the dispatches
when the last one is completed. -/
def notifies (call : Call) (s t : ConnectionI) : Bool :=
  s.state ≠ t.state ||
    match call with
    | .message _ _ => s.asyncRequests ≠ t.asyncRequests
    | .invoke _ _ | .dispatched _ | .respond _ | .fail _ _ =>
      s.dispatchCount ≠ t.dispatchCount && t.dispatchCount = 0
    | _ => false

namespace Waiting

/-- After a call: the notifications are done when the connection is unlocked. -/
def after (w : Waiting) (call : Call) (t : ConnectionI) : Waiting :=
  if notifies call w.connection t then
    { connection := t, blocked := 0, woken := w.woken + w.blocked }
  else { w with connection := t }

/-- The loop of `close(GracefullyWithWait)`: a thread waits as long as there is a request, and
closes the connection if there is none. -/
def test (w : Waiting) (answers : List Answer) (invokes : List Bool) : Waiting :=
  if w.connection.asyncRequests ≠ [] then { w with blocked := w.blocked + 1 }
  else
    w.after (.close .gracefullyWithWait)
      (final (ConnectionI.close .gracefullyWithWait)
        { w.connection with answers := answers, invokes := invokes })

def step (w : Waiting) : WaitEvent → Option Waiting
  | .turn turn =>
    match turn.call with
    | .close .gracefullyWithWait => none
    | call => (w.connection.step turn).map (w.after call)
  | .close answers invokes => some (w.test answers invokes)
  | .resume answers invokes =>
    if w.woken = 0 then none else some ({ w with woken := w.woken - 1 }.test answers invokes)

/-- No thread is blocked without a notification while there is no outstanding request. -/
def NoneForgotten (w : Waiting) : Prop := w.connection.asyncRequests = [] → w.blocked = 0

end Waiting

/-- There is no other key in the map than that of an invocation, or of its queued message. -/
def IsLast (s : ConnectionI) (out : Nat) : Prop :=
  ∃ requestId, (∀ p ∈ s.asyncRequests, p.1 = requestId) ∧
    ((requestId, out) ∈ s.asyncRequests ∨
      ∃ m ∈ s.sendStreams, m.outAsync = some out ∧ m.requestId = requestId)

/-- The only outstanding request is cancelled while a thread waits, and the connection is not
closed with it. -/
def Strands (w : Waiting) : WaitEvent → Prop
  | .turn turn =>
    match turn.call with
    | .asyncRequestCanceled out ex =>
      ex ≠ .connectionTimeout ∧ ¬ .closed ≤ w.connection.state ∧ 0 < w.blocked ∧
        w.connection.IsLast out
    | _ => False
  | _ => False

/-- There is an outstanding request. -/
def Busy (s : ConnectionI) : Prop := s.asyncRequests ≠ []

theorem busy_tell (events : List Event) : Keeps Busy (tell events) := .modify fun _ hs => hs

theorem busy_nextAnswer : Keeps Busy nextAnswer := .modifyGet fun _ hs => hs

theorem busy_nextInvoke : Keeps Busy nextInvoke := .modifyGet fun _ hs => hs

theorem busy_whenever {p : Prop} [Decidable p] {x : M Unit} (hx : Keeps Busy x) :
    Keeps Busy (whenever p x) := .ite hx .pure

variable (message : OutgoingMessage)

theorem busy_sent : Keeps Busy message.sent := by
  unfold OutgoingMessage.sent
  split
  · refine Keeps.bind (.modify fun _ hs => hs) fun _ => ?_
    apply get_bind
    intro s _
    exact Keeps.bind (busy_whenever (.modify fun _ hs => hs)) fun _ => busy_nextInvoke
  · exact .pure

theorem busy_result (answer : Answer) : Keeps Busy answer.result := by
  cases answer with
  | done => exact .pure
  | wait op taken => exact .pure
  | throws ex taken => exact .throw

variable (state : State)

theorem busy_switchState : Keeps Busy (switchState state) := by
  apply get_bind
  intro s hs
  exact .ite .pure (Keeps.bind (.set hs) fun _ => .pure)

theorem busy_setStateClosed (ex : LocalException) : Keeps Busy (setStateClosed .closed ex) := by
  apply get_bind
  intro s hs
  exact .ite (Keeps.bind (.set hs) fun _ => (busy_switchState .closed).bind fun _ => .pure) .pure

theorem busy_sendMessage : Keeps Busy (sendMessage message) := by
  apply (busy_tell _).bind
  intro _
  apply get_bind
  intro s hs
  apply Keeps.ite
  · exact Keeps.bind (.set hs) fun _ => .pure
  · apply busy_nextAnswer.bind
    intro answer
    apply (busy_tell _).bind
    intro _
    apply (busy_result answer).bind
    intro op
    apply Keeps.ite
    · exact (busy_sent message).bind fun _ => .pure
    · exact Keeps.bind (.modify fun _ hs => hs) fun _ => .pure

theorem busy_closing : Keeps Busy closing := busy_nextAnswer.bind busy_result

theorem busy_initiateShutdown : Keeps Busy initiateShutdown := by
  apply get_bind
  intro s hs
  refine .ite (Keeps.bind (.set hs) fun _ => .ite ?_ .pure) .pure
  apply (busy_sendMessage _).bind
  intro status
  refine .ite ?_ .pure
  exact (busy_switchState _).bind fun _ => busy_closing.bind fun _ => .pure

theorem busy_setState : Keeps Busy (setState state) := by
  apply (busy_switchState state).bind
  intro switched
  refine .ite ?_ .pure
  apply get_bind
  intro s _
  exact .ite (busy_initiateShutdown.tryCatch busy_setStateClosed) .pure

theorem busy_setStateWith (ex : LocalException) :
    Keeps Busy (setStateWith state ex) := by
  apply get_bind
  intro s hs
  exact .ite (Keeps.bind (.set hs) fun _ => busy_setState state) .pure

theorem busy_sendHeartbeatNow : Keeps Busy sendHeartbeatNow := by
  apply get_bind
  intro s _
  refine .ite (.tryCatch ?_ busy_setStateClosed) .pure
  exact (busy_sendMessage _).bind fun _ => .pure

theorem busy_establish : Keeps Busy establish := by
  have hinitialization : Keeps Busy initialization := by
    apply busy_nextAnswer.bind
    intro answer
    apply (busy_result answer).bind
    intro op
    exact .ite ((busy_switchState _).bind fun _ => .pure) .pure
  have hvalidate : Keeps Busy validate := by
    apply get_bind
    intro s _
    exact .ite .pure (busy_nextAnswer.bind fun answer => (busy_result answer).bind fun _ => .pure)
  apply get_bind
  intro s _
  split
  · exact hinitialization.bind fun _ => .ite hvalidate .pure
  · exact Keeps.bind .pure fun _ => .ite hvalidate .pure

theorem busy_start (callback : Bool) : Keeps Busy (start callback) := by
  refine tryCatch (.get_bind fun _ _ => .ite .throw ?_) busy_setStateClosed
  exact busy_establish.bind fun _ => .ite (busy_setState _) (.modify fun _ hs => hs)

theorem busy_monitor (acm : Inactivity) : Keeps Busy (monitor acm) := by
  have hheartbeat : Keeps Busy (monitorHeartbeat acm) :=
    .get_bind fun _ _ => .ite (.ite busy_sendHeartbeatNow .pure) .pure
  have hclose : Keeps Busy (monitorClose acm) :=
    .get_bind fun _ _ => .ite (.ite (busy_setStateClosed _) (.ite (busy_setStateWith _ _) .pure))
      .pure
  exact .get_bind fun _ _ => .ite (hheartbeat.bind fun _ => hclose) .pure

theorem busy_timedOut : Keeps Busy timedOut :=
  .get_bind fun _ _ => .ite (busy_setStateClosed _)
    (.ite (busy_setStateClosed _) (.ite (busy_setStateClosed _) .pure))

theorem busy_close (mode : ConnectionClose) : Keeps Busy (close mode) := by
  cases mode with
  | forcefully => exact busy_setStateClosed _
  | gracefully => exact busy_setStateWith _ _
  | gracefullyWithWait => exact .get_bind fun _ _ => .ite (busy_setStateWith _ _) .pure

theorem busy_destroy (reason : DestructionReason) : Keeps Busy (destroy reason) := by
  cases reason with
  | objectAdapterDeactivated | communicatorDestroyed => exact busy_setStateWith _ _

theorem busy_shutdownIfIdle : Keeps Busy shutdownIfIdle :=
  .get_bind fun _ _ => .ite busy_initiateShutdown .pure

theorem busy_decrease (n : Int) : Keeps Busy (decrease n) := .modify fun _ hs => hs

variable (index : Nat)

theorem busy_respond (incoming : Incoming) : Keeps Busy (respond index incoming) := by
  refine Keeps.bind (.modify fun _ hs => hs) fun _ => ?_
  apply Keeps.ite
  · apply (busy_decrease 1).bind
    intro _
    refine .tryCatch (.get_bind fun _ _ => .ite .throw ?_) busy_setStateClosed
    exact (busy_sendMessage _).bind fun _ => busy_shutdownIfIdle
  · apply (busy_decrease 1).bind
    intro _
    exact .tryCatch (.get_bind fun _ _ => .ite .throw busy_shutdownIfIdle) busy_setStateClosed

theorem busy_invokeException (ex : LocalException) (n : Int) : Keeps Busy (invokeException ex n) :=
  (busy_setStateClosed ex).bind fun _ => busy_decrease n

theorem busy_invoke (call : DispatchCall) (failure : Option LocalException) :
    Keeps Busy (invoke index call failure) := by
  cases failure with
  | none => exact .modify fun _ hs => hs
  | some ex => exact Keeps.bind (.modify fun _ hs => hs) fun _ => busy_invokeException ex _

theorem busy_endDispatch (call : DispatchCall) :
    Keeps Busy (endDispatch index call) := by
  refine Keeps.bind (.modify fun _ hs => hs) fun _ => ?_
  apply (busy_decrease _).bind
  intro _
  exact .ite (busy_shutdownIfIdle.tryCatch busy_setStateClosed) .pure

theorem insertRequest_ne_nil (requestId : Int) (out : Nat) (requests : List (Int × Nat)) :
    insertRequest requestId out requests ≠ [] := by
  cases requests with
  | nil => simp [insertRequest]
  | cons p rest =>
    obtain ⟨key, value⟩ := p
    unfold insertRequest
    split
    · simp
    · split <;> simp

theorem busy_sendAsyncRequest (response : Bool) (refused : Option LocalException) :
    Keeps Busy (sendAsyncRequest response refused) := by
  apply get_bind
  intro s _
  split
  · exact .pure
  · exact .throw
  · refine Keeps.bind (.modifyGet fun _ hs => hs) fun message => ?_
    apply Keeps.bind
    · apply tryCatch (busy_sendMessage message)
      intro ex
      apply (busy_setStateClosed ex).bind
      intro _
      exact .get_bind fun _ _ => .throw
    · intro status
      apply Keeps.bind
      · apply busy_whenever
        apply Keeps.modify
        intro t _
        exact insertRequest_ne_nil _ _ _
      · intro _
        exact (busy_tell _).bind fun _ => .pure

theorem key_of_eraseRequest {requestId : Int} {requests : List (Int × Nat)}
    (h : eraseRequest requestId requests = []) : ∀ p ∈ requests, p.1 = requestId := by
  intro p hp
  have hnot := List.filter_eq_nil_iff.mp h p hp
  simpa using hnot

variable {s : ConnectionI}

variable {out : Nat} {ex : LocalException}

theorem isLast_of_erased {requestId : Int} (h : eraseRequest requestId s.asyncRequests = [])
    (hout : (requestId, out) ∈ s.asyncRequests ∨
      ∃ m ∈ s.sendStreams, m.outAsync = some out ∧ m.requestId = requestId) : s.IsLast out :=
  ⟨requestId, key_of_eraseRequest h, hout⟩

/-- What a cancellation does to a connection with an outstanding request that is not closed yet:
one is left, or the state is switched, or the last one is taken out. -/
def CancelEnd (s : ConnectionI) (out : Nat) (ex : LocalException) (t : ConnectionI) : Prop :=
  t.asyncRequests = [] → s.state ≠ t.state ∨ ex ≠ .connectionTimeout ∧ s.IsLast out

theorem cancelEnd_shut {t : ConnectionI} (hopen : ¬ closed ≤ s.state) :
    CancelEnd s out ex (t.shut ex) := by
  intro _
  apply Or.inl
  intro heq
  apply hopen
  rw [heq]
  exact closed_le_shut ex

theorem cancelEnd_cancelUnsent {index : Nat} {message : OutgoingMessage} (hbusy : s.Busy)
    (hopen : ¬ closed ≤ s.state)
    (hfind : s.sendStreams.findIdx? (fun m => m.outAsync = some out) = some index)
    (hmessage : s.sendStreams[index]? = some message) :
    wp (cancelUnsent out ex index message) (fun _ => CancelEnd s out ex)
      (fun _ => CancelEnd s out ex) s := by
  have hout : message.outAsync = some out := by
    obtain ⟨hlt, hp, _⟩ := List.findIdx?_eq_some_iff_getElem.mp hfind
    rw [List.getElem?_eq_getElem hlt] at hmessage
    rw [← some.inj hmessage]
    exact of_decide_eq_true hp
  have hmem : message ∈ s.sendStreams := List.mem_of_getElem? hmessage
  simp only [cancelUnsent, cancelQueued, asyncException, complete, wp_bind, wp_whenever,
    eraseQueued, wp_modify, wp_ite, wp_setStateClosed]
  constructor
  · intro _
    split
    · rename_i hhint
      refine ⟨fun _ => cancelEnd_shut hopen, fun hex hnil => .inr ⟨hex, ?_⟩⟩
      exact isLast_of_erased hnil (.inl (mem_of_hintIs hhint))
    · refine ⟨fun _ => cancelEnd_shut hopen, fun hex hnil => .inr ⟨hex, ?_⟩⟩
      exact isLast_of_erased hnil (.inr ⟨message, hmem, hout, rfl⟩)
  · intro _
    exact ⟨fun _ => cancelEnd_shut hopen, fun _ hnil => absurd hnil hbusy⟩

theorem cancelEnd_cancelSent (hbusy : s.Busy) (hopen : ¬ closed ≤ s.state) :
    wp (cancelSent out ex) (fun _ => CancelEnd s out ex) (fun _ => CancelEnd s out ex) s := by
  simp only [cancelSent, asyncException, complete, wp_bind, wp_get, wp_ite]
  constructor
  · intro hhint
    simp only [wp_setStateClosed, wp_set, wp_modify]
    refine ⟨fun _ => cancelEnd_shut hopen, fun hex hnil => .inr ⟨hex, ?_⟩⟩
    exact isLast_of_erased hnil (.inl (mem_of_hintIs hhint))
  · intro _
    cases hp : s.asyncRequests.find? fun p => p.2 = out with
    | none => exact fun hnil => absurd hnil hbusy
    | some p =>
      have hmem : (p.1, out) ∈ s.asyncRequests := by
        have hout : p.2 = out := by simpa using List.find?_some hp
        rw [← hout]
        exact List.mem_of_find?_eq_some hp
      simp only [wp_ite, wp_setStateClosed, wp_bind, wp_set, wp_modify]
      refine ⟨fun _ => cancelEnd_shut hopen, fun hex hnil => .inr ⟨hex, ?_⟩⟩
      exact isLast_of_erased hnil (.inl hmem)

theorem cancelEnd_asyncRequestCanceled (out : Nat) (ex : LocalException) (hbusy : s.Busy)
    (hopen : ¬ closed ≤ s.state) :
    CancelEnd s out ex (final (asyncRequestCanceled out ex) s) := by
  apply wp_final (P := CancelEnd s out ex)
  simp only [asyncRequestCanceled, wp_bind, wp_get, wp_ite]
  refine ⟨fun hclosed => absurd hclosed hopen, fun _ => ?_⟩
  cases hfind : s.sendStreams.findIdx? fun m => m.outAsync = some out with
  | none => exact cancelEnd_cancelSent hbusy hopen
  | some index =>
    dsimp only
    cases hmessage : s.sendStreams[index]? with
    | none => exact fun hnil => absurd hnil hbusy
    | some message => exact cancelEnd_cancelUnsent hbusy hopen hfind hmessage

/-- A closed connection does not look at a cancellation. -/
theorem asyncRequestCanceled_closed (out : Nat) (ex : LocalException)
    (hclosed : closed ≤ s.state) : final (asyncRequestCanceled out ex) s = s := by
  apply wp_final (P := fun t => t = s)
  simp only [asyncRequestCanceled, wp_bind, wp_get, wp_ite]
  exact ⟨fun _ => rfl, fun hopen => absurd hclosed hopen⟩

namespace Waiting

variable {w w' : Waiting}

variable {t : ConnectionI} {call : Call}

theorem noneForgotten_after
    (h : t.asyncRequests = [] → w.blocked = 0 ∨ notifies call w.connection t = true) :
    (w.after call t).NoneForgotten := by
  unfold after NoneForgotten
  split
  · intro _
    rfl
  · rename_i hnot
    intro hnil
    exact (h hnil).resolve_right hnot

theorem noneForgotten_test (hw : w.NoneForgotten) (answers : List Answer) (invokes : List Bool) :
    (w.test answers invokes).NoneForgotten := by
  unfold test
  split
  · rename_i hbusy
    intro hnil
    exact absurd hnil hbusy
  · rename_i hidle
    apply noneForgotten_after
    intro _
    exact .inl (hw (not_not.mp hidle))

theorem notifies_of_state {s : ConnectionI} (h : s.state ≠ t.state) :
    notifies call s t = true := by
  simp [notifies, h]

/-- A call that takes away the last outstanding request notifies the threads that wait, apart
from a cancellation that strands them. -/
theorem notifies_of_program {turn : Turn} {x : M Unit} {s : ConnectionI}
    (hx : s.program turn.call = some x) (hbusy : s.Busy)
    (hcancel : ∀ out ex, turn.call = .asyncRequestCanceled out ex → ex ≠ .connectionTimeout →
      ¬ closed ≤ s.state → ¬ s.IsLast out)
    (hnil : (final x { s with answers := turn.answers, invokes := turn.invokes }).asyncRequests =
      []) :
    notifies turn.call s (final x { s with answers := turn.answers, invokes := turn.invokes }) =
      true := by
  obtain ⟨call, answers, invokes⟩ := turn
  dsimp only at hx hnil hcancel ⊢
  generalize hs' : { s with answers := answers, invokes := invokes } = s' at hnil ⊢
  have hbusy' : Busy s' := by
    rw [← hs']
    exact hbusy
  have hstate : s'.state = s.state := by
    rw [← hs']
  have hkept (hkeeps : Keeps Busy x) : False := hkeeps.final hbusy' hnil
  cases call with
  | start callback => exact (hkept (some.inj hx ▸ busy_start callback)).elim
  | activate | hold =>
    apply (hkept (some.inj hx ▸ ?_)).elim
    exact .get_bind fun _ _ => .ite .pure (busy_setState _)
  | close mode => exact (hkept (some.inj hx ▸ busy_close mode)).elim
  | destroy reason => exact (hkept (some.inj hx ▸ busy_destroy reason)).elim
  | monitor acm => exact (hkept (some.inj hx ▸ busy_monitor acm)).elim
  | timedOut => exact (hkept (some.inj hx ▸ busy_timedOut)).elim
  | exception ex => exact (hkept (some.inj hx ▸ busy_setStateClosed ex)).elim
  | setHeartbeatCallback callback =>
    apply (hkept (some.inj hx ▸ ?_)).elim
    apply Keeps.modify
    intro t ht
    split
    · exact ht
    · exact ht
  | sendAsyncRequest response refused =>
    apply (hkept (some.inj hx ▸ ?_)).elim
    exact (busy_sendAsyncRequest response refused).bind fun _ => .pure
  | asyncRequestCanceled out ex =>
    cases some.inj hx
    by_cases hclosed : closed ≤ s'.state
    · rw [asyncRequestCanceled_closed out ex hclosed] at hnil
      exact absurd hnil hbusy'
    · have hend := cancelEnd_asyncRequestCanceled out ex hbusy' hclosed hnil
      rcases hend with hswitched | ⟨hex, hlast⟩
      · rw [hstate] at hswitched
        exact notifies_of_state hswitched
      · have hlast' : s.IsLast out := by
          rw [← hs'] at hlast
          exact hlast
        rw [hstate] at hclosed
        exact absurd hlast' (hcancel out ex rfl hex hclosed)
  | message operation reading =>
    have hne : s.asyncRequests ≠ (final x s').asyncRequests := by
      rw [hnil]
      exact hbusy
    simp [notifies, hne]
  | invoke index failure =>
    dsimp only [program] at hx
    split at hx
    · split at hx
      · exact (hkept (some.inj hx ▸ busy_invoke _ _ _)).elim
      · cases hx
    · cases hx
  | dispatched index =>
    dsimp only [program] at hx
    split at hx
    · split at hx
      · cases hx
      · exact (hkept (some.inj hx ▸ busy_endDispatch _ _)).elim
    · cases hx
  | respond index =>
    obtain ⟨incoming, _, rfl⟩ := map_eq_some_iff.mp hx
    exact (hkept (busy_respond index incoming)).elim
  | fail index ex =>
    obtain ⟨incoming, _, rfl⟩ := map_eq_some_iff.mp hx
    apply (hkept _).elim
    exact Keeps.bind (.modify fun _ hs => hs) fun _ => busy_invokeException ex 1
  | finish =>
    dsimp only [program] at hx
    split at hx
    · rename_i hclosed
      cases some.inj hx
      apply notifies_of_state
      have hfinished := (finished_finish (s := s') (hstate.trans hclosed)).1
      rw [hfinished, hclosed]
      decide
    · cases hx

theorem noneForgotten_turn {turn : Turn} (hw : w.NoneForgotten)
    (hcancel : ∀ out ex, turn.call = .asyncRequestCanceled out ex → ex ≠ .connectionTimeout →
      ¬ closed ≤ w.connection.state → 0 < w.blocked → ¬ w.connection.IsLast out)
    (ht : w.connection.step turn = some t) : (w.after turn.call t).NoneForgotten := by
  obtain ⟨x, hx, rfl⟩ := map_eq_some_iff.mp ht
  apply noneForgotten_after
  intro hnil
  by_cases hblocked : w.blocked = 0
  · exact .inl hblocked
  · have hbusy : w.connection.Busy := fun hidle => hblocked (hw hidle)
    apply Or.inr
    apply notifies_of_program hx hbusy _ hnil
    intro out ex hcall hex hopen
    exact hcancel out ex hcall hex hopen (Nat.pos_of_ne_zero hblocked)

/-- Only a cancellation that takes away the last outstanding request forgets a thread. -/
theorem noneForgotten_step {e : WaitEvent} (hw : w.NoneForgotten) (he : ¬ Strands w e)
    (h : w.step e = some w') : w'.NoneForgotten := by
  cases e with
  | turn turn =>
    have hcancel : ∀ out ex, turn.call = .asyncRequestCanceled out ex →
        ex ≠ .connectionTimeout → ¬ closed ≤ w.connection.state → 0 < w.blocked →
        ¬ w.connection.IsLast out := by
      intro out ex hcall hex hopen hblocked hlast
      apply he
      simp only [Strands, hcall]
      exact ⟨hex, hopen, hblocked, hlast⟩
    dsimp only [step] at h
    split at h
    · cases h
    · obtain ⟨t, ht, rfl⟩ := map_eq_some_iff.mp h
      exact noneForgotten_turn hw hcancel ht
  | close answers invokes =>
    cases some.inj h
    exact noneForgotten_test hw answers invokes
  | resume answers invokes =>
    dsimp only [step] at h
    split at h
    · cases h
    · cases some.inj h
      exact noneForgotten_test (w := { w with woken := w.woken - 1 }) hw answers invokes

/-- In no run without such a cancellation is a thread forgotten in `close(GracefullyWithWait)`. -/
theorem noneForgotten_of_reach (datagram : Bool)
    (h : Reach step (fun w e => ¬ Strands w e) { connection := initial datagram } w) :
    w.NoneForgotten := by
  apply h.invariant
  · intro _
    rfl
  · intro w e w' hw he hstep
    exact noneForgotten_step hw he hstep

/-- A request is sent on a connection that is active. -/
def requested : List WaitEvent :=
  [.turn { call := .start false, answers := [.done, .done] },
    .turn { call := .activate },
    .turn { call := .sendAsyncRequest true none, answers := [.done] }]

/-- A thread waits for the reply, and is woken when it is received. -/
def replied : List WaitEvent :=
  requested ++ [.close [] [], .turn (messageOf replyMsg [1, 0, 0, 0])]

theorem noneForgotten_replied :
    ∃ w : Waiting, w.NoneForgotten ∧ w.connection.asyncRequests = [] ∧ w.woken = 1 := by
  have hpass : ∀ (w : Waiting) (e : WaitEvent),
      (match e with
        | .turn { call := .asyncRequestCanceled _ _, .. } => false
        | _ => true) = true → ¬ Strands w e := by
    intro w e hpass hstrands
    cases e with
    | turn turn =>
      obtain ⟨call, answers, invokes⟩ := turn
      cases call
      case asyncRequestCanceled => cases hpass
      all_goals exact hstrands
    | close => exact hstrands
    | resume => exact hstrands
  have hrun : (run (fun w e => if (match e with
        | .turn { call := .asyncRequestCanceled _ _, .. } => false
        | _ => true) then step w e else none) { connection := initial false } replied).any
      (fun w => w.connection.asyncRequests = [] && w.woken = 1) = true := by decide +kernel
  obtain ⟨w, hr, hw⟩ := Reach.exists_of_runWhere hpass hrun
  simp only [Bool.and_eq_true, decide_eq_true_eq] at hw
  exact ⟨w, noneForgotten_of_reach false hr, hw⟩

/-- A thread waits for the reply, and the request is cancelled. -/
def canceled : List WaitEvent :=
  requested ++ [.close [] [], .turn { call := .asyncRequestCanceled 0 .invocationCanceled }]

/-- The thread is not woken. -/
theorem not_noneForgotten_canceled :
    ¬ ∀ (datagram : Bool) (w : Waiting), Reach step Any { connection := initial datagram } w →
      w.NoneForgotten := by
  intro h
  have hrun : (run step { connection := initial false } canceled).any
      (fun w => w.connection.asyncRequests = [] && w.blocked = 1 && w.woken = 0) = true := by
    decide +kernel
  obtain ⟨w, hr, hw⟩ := Reach.exists_of_run hrun
  simp only [Bool.and_eq_true, decide_eq_true_eq] at hw
  have hnone := h false w hr hw.1.1
  omega

end Waiting

end Ice.Protocol.ConnectionI
