import Ice.Connection.ConnectionRun
import Ice.Streams.SequenceSize

/-!
# What a connection does

The functions of a connection are cut into acts: a change of the state, a message that is sent,
a message that is written, an invocation that comes to its end. An act says what it needs of the
state before it. What every act keeps is kept by every call.
-/

namespace Ice.Protocol.ConnectionI

open Connection (SocketOperation)

open Lib Relation
open Streams (toInt toInt_toInt_add toInt_add_toInt)

/-- The connection after it is closed because of an exception. -/
def shut (s : ConnectionI) (ex : LocalException) : ConnectionI :=
  if s.state = .closed then s
  else
    { s with
      exception := s.exception <|> some ex
      state := if s.state = .finished then .finished else .closed }

/-- The event of a message that is sent, if its invocation waits for no response. -/
def sentEvents (s : ConnectionI) (message : OutgoingMessage) : List Event :=
  match message.outAsync with
  | none => []
  | some out => if s.outs[out]?.map (·.twoway) = some false then [.completed out .sent true] else []

/-- A message is sent: its invocation is notified. -/
def markSent (s : ConnectionI) (message : OutgoingMessage) : ConnectionI :=
  { s with
    outs :=
      match message.outAsync with
      | none => s.outs
      | some out => s.outs.modify out fun r => { r with sent := true }
    log := s.log ++ s.sentEvents message }

/-- A new invocation is noted. -/
def withRequest (s : ConnectionI) (response : Bool) : ConnectionI :=
  { s with
    nextRequestId := if response then toInt (s.requestIdFor response + 1) else s.nextRequestId
    outs := s.outs ++ [{ twoway := response, requestId := s.requestIdFor response }] }

/-- The message of a new invocation. -/
def requestMessage (s : ConnectionI) (response : Bool) : OutgoingMessage :=
  { content := .request s.outs.length
    outAsync := some s.outs.length
    requestId := s.requestIdFor response }

/-- What `sendAsyncRequest` does once the message is sent or queued. -/
def settle (s : ConnectionI) (response : Bool) (out : Nat) (requestId : Int) : ConnectionI :=
  let s :=
    if response then
      { s with
        asyncRequests := insertRequest requestId out s.asyncRequests
        asyncRequestsHint := some requestId }
    else s
  { s with log := s.log ++ [.accepted out requestId] }

theorem settle_log (s : ConnectionI) (response : Bool) (out : Nat) (requestId : Int) :
    (s.settle response out requestId).log = s.log ++ [.accepted out requestId] := by
  unfold settle
  split <;> rfl

/-- A servant is completed. -/
def withoutIncoming (s : ConnectionI) (index : Nat) : ConnectionI :=
  { s with
    incomings := s.incomings.eraseIdx index
    dispatchCount := toInt (s.dispatchCount - 1) }

/-- An invocation comes to its end. -/
def completed (s : ConnectionI) (out : Nat) (how : Completion) : ConnectionI :=
  { s with log := s.log ++ [.completed out how (s.isSent out)] }

/-- The invocations of `_sendStreams` and then those of `_asyncRequests` come to their end. -/
def finishedOuts (s : ConnectionI) : List Nat :=
  s.sendStreams.filterMap (·.outAsync) ++
    (s.sendStreams.foldl (fun requests (m : OutgoingMessage) =>
      if m.requestId ≠ 0 then eraseRequest m.requestId requests else requests)
      s.asyncRequests).map (·.2)

/-- The connection after `finish`. -/
def finishAll (s : ConnectionI) : ConnectionI :=
  { s with
    log := s.log ++ s.finishedOuts.map fun out =>
      .completed out (.exception (s.exception.getD .other)) (s.isSent out)
    asyncRequests := []
    sendStreams := []
    writing := false
    startCallback := false
    readStream := none
    heartbeatCallback := false
    state := .finished }

/-- A message that may be sent, and the connection when `sendMessage` is called. -/
inductive Admits (s : ConnectionI) : OutgoingMessage → ConnectionI → Prop
  | closeConnection :
      s.state = .closing → s.dispatchCount = 0 → s.shutdownInitiated = false →
      s.datagram = false →
      Admits s { content := .closeConnection } { s with shutdownInitiated := true }
  | validateConnection :
      s.state = .active → Admits s { content := .validateConnection } s
  | request (response : Bool) :
      s.exception = none → Admits s (s.requestMessage response) (s.withRequest response)
  | reply (index : Nat) (incoming : Incoming) :
      s.incomings[index]? = some incoming → incoming.response = true →
      ¬State.closed ≤ s.state →
      Admits s { content := .reply incoming.request incoming.requestId } (s.withoutIncoming index)

/-- The ways in which `sendMessage` returns. -/
inductive Sends (s : ConnectionI) (message : OutgoingMessage) : AsyncStatus → ConnectionI → Prop
  | queued :
      s.sendStreams ≠ [] →
      Sends s message .queued
        { s with
          sendStreams := s.sendStreams ++ [message]
          log := s.log ++ [.put message.content] }
  | sent (answers : List Answer) (invokes : List Bool) :
      s.sendStreams = [] →
      Sends s message .sent
        { { s with
              log := s.log ++ Event.put message.content ::
                message.told .everything }.markSent message with
          answers := answers
          invokes := invokes }
  | blocked (taken : Taken) (answers : List Answer) :
      s.sendStreams = [] →
      Sends s message .queued
        { s with
          sendStreams := [message.taken taken]
          writing := true
          log := s.log ++ .put message.content :: message.told taken
          answers := answers }

/-- `sendMessage` throws. -/
def sendFailed (s : ConnectionI) (message : OutgoingMessage) (taken : Taken)
    (answers : List Answer) : ConnectionI :=
  { s with
    log := s.log ++ .put message.content :: message.told taken
    answers := answers }

/-- The changes that the programs of a connection are made of -/
inductive Act (s : ConnectionI) : ConnectionI → Prop
  /-- What no result speaks of. -/
  | unseen (startCallback heartbeatCallback : Bool) (readStream : Option IncomingMessage)
      (sentCBs : List Nat) (answers : List Answer) (invokes : List Bool) :
      Act s
        { s with
          startCallback := startCallback
          heartbeatCallback := heartbeatCallback
          readStream := readStream
          sentCBs := sentCBs
          answers := answers
          invokes := invokes }
  | exception (ex : LocalException) : Act s { s with exception := s.exception <|> some ex }
  | switch (state : State) :
      s.state.canSwitch state = true → state ≠ .finished →
      (State.closing ≤ state → State.closing ≤ s.state ∨ s.exception.isSome = true) →
      Act s { s with state := state }
  | initiated :
      s.state = .closing → s.dispatchCount = 0 → s.datagram = true →
      Act s { s with shutdownInitiated := true }
  | send {message : OutgoingMessage} {s₁ t : ConnectionI} {status : AsyncStatus} :
      Admits s message s₁ → message.outAsync = none → Sends s₁ message status t → Act s t
  | request {t : ConnectionI} {status : AsyncStatus} (response : Bool) :
      Admits s (s.requestMessage response) (s.withRequest response) →
      Sends (s.withRequest response) (s.requestMessage response) status t →
      Act s (t.settle response s.outs.length (s.requestIdFor response))
  | sendFailed {message : OutgoingMessage} {s₁ : ConnectionI} (taken : Taken)
      (answers : List Answer) (ex : LocalException) :
      Admits s message s₁ → s₁.sendStreams = [] →
      Act s ((s₁.sendFailed message taken answers).shut ex)
  | take {message : OutgoingMessage} {rest : List OutgoingMessage} (taken : Taken) :
      s.sendStreams = message :: rest → s.writing = true →
      Act s
        { s with
          sendStreams := message.taken taken :: rest
          log := s.log ++ message.told taken }
  | pop {message : OutgoingMessage} {rest : List OutgoingMessage} (sentCBs : List Nat)
      (invokes : List Bool) :
      s.sendStreams = message :: rest →
      Act s
        { { s with writing := false }.markSent message with
          sentCBs := sentCBs
          invokes := invokes
          sendStreams := rest }
  | load {message : OutgoingMessage} {rest : List OutgoingMessage} :
      s.sendStreams = message :: rest → s.writing = false →
      Act s { s with sendStreams := { message with i := .start } :: rest, writing := true }
  | swap {message : OutgoingMessage} {rest : List OutgoingMessage} :
      s.sendStreams = message :: rest → State.closingPending ≤ s.state →
      (s.writing = false ∨ message.i = .start) → Act s { s with writing := !s.writing }
  | cancelQueued {message : OutgoingMessage} (out index : Nat) (ex : LocalException) :
      s.sendStreams.findIdx? (fun m => m.outAsync = some out) = some index →
      s.sendStreams[index]? = some message →
      Act s
        (({ s with
            asyncRequests :=
              if message.requestId = 0 then s.asyncRequests
              else if s.hintIs out then
                eraseRequest (s.asyncRequestsHint.getD 0) s.asyncRequests
              else eraseRequest message.requestId s.asyncRequests
            asyncRequestsHint :=
              if message.requestId = 0 then s.asyncRequestsHint
              else if s.hintIs out then none else s.asyncRequestsHint
            sendStreams :=
              if index = 0 then s.sendStreams.modify 0 fun m => { m with outAsync := none }
              else s.sendStreams.eraseIdx index }).completed out (.exception ex))
  /-- A timeout closes the connection; the request is completed with it. -/
  | timeoutQueued {message : OutgoingMessage} (out index : Nat) :
      s.sendStreams.findIdx? (fun m => m.outAsync = some out) = some index →
      s.sendStreams[index]? = some message →
      ¬State.closed ≤ s.state →
      Act s
        (({ s with
            asyncRequests :=
              if message.requestId = 0 then s.asyncRequests
              else if s.hintIs out then
                eraseRequest (s.asyncRequestsHint.getD 0) s.asyncRequests
              else eraseRequest message.requestId s.asyncRequests
            asyncRequestsHint :=
              if message.requestId = 0 then s.asyncRequestsHint
              else if s.hintIs out then none else s.asyncRequestsHint }).shut
          .connectionTimeout)
  | cancelSent (out : Nat) (requestId : Int) (hint : Option Int) (ex : LocalException) :
      s.sendStreams.findIdx? (fun m => m.outAsync = some out) = none →
      (requestId, out) ∈ s.asyncRequests →
      Act s
        (({ s with
            asyncRequests := eraseRequest requestId s.asyncRequests
            asyncRequestsHint := hint }).completed out (.exception ex))
  | received (requestId : Int) :
      Act s { s with log := s.log ++ [.received s.log.length requestId] }
  | invoke (index : Nat) (call : DispatchCall) :
      s.calls[index]? = some call → 0 < call.invokeNum →
      Act s
        { s with
          calls := s.calls.set index { call with invokeNum := call.invokeNum - 1 }
          incomings :=
            s.incomings ++
              [{ request := call.request
                 requestId := call.requestId
                 response := !s.datagram && call.requestId ≠ 0 }]
          log := s.log ++ [.dispatched call.request] }
  | abandon (index : Nat) (call : DispatchCall) :
      s.calls[index]? = some call → State.closed ≤ s.state →
      Act s
        { s with
          calls := s.calls.set index { call with invokeNum := 0 }
          dispatchCount := toInt (s.dispatchCount - call.invokeNum) }
  | endDispatch (index : Nat) (call : DispatchCall) :
      s.calls[index]? = some call → call.invokeNum ≤ 0 →
      Act s
        { s with
          calls := s.calls.eraseIdx index
          dispatchCount := toInt (s.dispatchCount - call.dispatchedCount) }
  /-- A servant is completed without a reply. -/
  | drop (index : Nat) (incoming : Incoming) :
      s.incomings[index]? = some incoming →
      (State.closed ≤ s.state ∨ incoming.response = false) →
      Act s (s.withoutIncoming index)
  | finish : s.state = .closed → Act s s.finishAll

/-- What a series of acts leads to. -/
abbrev Acts : ConnectionI → ConnectionI → Prop := ReflTransGen Act

/-- A reply completes an invocation. -/
inductive Replies (s : ConnectionI) : ConnectionI → Prop
  | mk (out : Nat) (requestId : Int) (is : List UInt8) :
      s.asyncRequests.lookup requestId = some out →
      Replies s ((s.eraseReplied requestId).completed out (.response requestId is))

/-- A message is read, and what is to be dispatched for it is counted. -/
inductive Enqueues (s : ConnectionI) : ConnectionI → Prop
  | mk (call : DispatchCall) (dispatchCount : Int) :
      toInt dispatchCount = toInt (call.dispatchedCount + call.invokeNum) →
      0 ≤ call.invokeNum →
      (0 < call.invokeNum → s.shutdownInitiated = false ∧
        s.log[call.request]? = some (.received call.request call.requestId)) →
      Enqueues s
        { s with
          dispatchCount := toInt (s.dispatchCount + dispatchCount)
          calls := s.calls ++ [call] }

section

variable {α : Type} {Q : α → ConnectionI → Prop} {R : LocalException → ConnectionI → Prop}
  {s : ConnectionI}

theorem wp_switchState {Q : Bool → ConnectionI → Prop} {state : State} :
    wp (switchState state) Q R s ↔
      (s.state = s.target state ∨ s.state.canSwitch (s.target state) = false → Q false s) ∧
      (s.state ≠ s.target state → s.state.canSwitch (s.target state) = true →
        Q true { s with state := s.target state }) := by
  simp only [switchState, wp_bind, wp_get, wp_ite, wp_pure, wp_set]
  simp

theorem target_of_ne {state : State} (h : state ≠ .closing) : s.target state = state := by
  simp [target, h]

theorem target_cases (s : ConnectionI) (state : State) :
    s.target state = state ∨ s.target state = .closed := by
  by_cases hc : state = .closing
  · by_cases hd : s.datagram = true
    · simp [target, hc, hd]
    · by_cases hv : s.state ≤ .notValidated
      · simp [target, hc, hd, hv]
      · simp [target, hc, hd, hv]
  · exact .inl (target_of_ne hc)

theorem wp_setStateClosed {Q : Unit → ConnectionI → Prop} {ex : LocalException} :
    wp (setStateClosed .closed ex) Q R s ↔ Q () (s.shut ex) := by
  simp only [setStateClosed, wp_bind, wp_get, wp_ite, wp_pure, wp_set, wp_switchState]
  by_cases hc : s.state = .closed
  · simp [hc, shut]
  · by_cases hf : s.state = .finished
    · simp [hf, shut, State.canSwitch, target_of_ne]
    · simp [hf, hc, shut, State.canSwitch, target_of_ne]

theorem wp_nextAnswer {Q : Answer → ConnectionI → Prop} :
    wp nextAnswer Q R s ↔
      Q (s.answers.headD (.wait ⟨.onWrite, by decide⟩ .nothing))
        { s with answers := s.answers.tail } := Iff.rfl

theorem wp_nextInvoke {Q : Bool → ConnectionI → Prop} :
    wp nextInvoke Q R s ↔ Q (s.invokes.headD true) { s with invokes := s.invokes.tail } := Iff.rfl

theorem wp_tell {Q : Unit → ConnectionI → Prop} {events : List Event} :
    wp (tell events) Q R s ↔ Q () { s with log := s.log ++ events } := Iff.rfl

theorem wp_whenever {Q : Unit → ConnectionI → Prop} {p : Prop} [Decidable p] {x : M Unit} :
    wp (whenever p x) Q R s ↔ (p → wp x Q R s) ∧ (¬p → Q () s) := by
  unfold whenever
  rw [wp_ite]
  rfl

/-- An answer is an operation to wait for, or an exception. -/
theorem wp_result {Q : SocketOperation → ConnectionI → Prop} {answer : Answer}
    (hdone : answer.taken = .everything → Q .none s) (hwait : ∀ op, op ≠ .none → Q op s)
    (hthrow : ∀ ex, R ex s) : wp answer.result Q R s := by
  cases answer with
  | done => exact hdone rfl
  | wait op taken => exact hwait op.1 op.2
  | throws ex taken => exact hthrow ex

/-- A message that was sent: the invocation is notified, and only the script is read besides. -/
theorem wp_sent {Q : Bool → ConnectionI → Prop} {message : OutgoingMessage}
    (h : ∀ b invokes, Q b { s.markSent message with invokes := invokes }) :
    wp message.sent Q R s := by
  unfold OutgoingMessage.sent
  cases hm : message.outAsync with
  | none =>
    have hq := h false s.invokes
    simp only [markSent, sentEvents, hm, List.append_nil] at hq
    exact hq
  | some out =>
    have hq := h (s.invokes.headD true) s.invokes.tail
    simp only [markSent, sentEvents, hm] at hq
    have htwoway :
        (s.outs.modify out fun r => { r with sent := true })[out]?.map (·.twoway) =
          s.outs[out]?.map (·.twoway) := by
      rw [List.getElem?_modify_eq]
      cases s.outs[out]? <;> rfl
    simp only [asyncSent, complete, wp_bind, wp_modify, wp_get, wp_whenever, wp_nextInvoke,
      htwoway]
    constructor
    · intro hp
      have hsent :
          isSent { s with outs := s.outs.modify out fun r => { r with sent := true } } out =
            true := by
        unfold isSent
        rw [List.getElem?_modify_eq]
        cases hout : s.outs[out]? with
        | none => simp [hout] at hp
        | some r => rfl
      rw [if_pos hp] at hq
      rw [hsent]
      exact hq
    · intro hp
      rw [if_neg hp, List.append_nil] at hq
      exact hq

end

section

/-- An act that does not initiate the shutdown. -/
def Move (s t : ConnectionI) : Prop := Act s t ∧ t.shutdownInitiated = s.shutdownInitiated

abbrev Moves : ConnectionI → ConnectionI → Prop := ReflTransGen Move

variable {s t u : ConnectionI}

theorem Moves.acts (h : Moves s t) : Acts s t := ReflTransGen.mono (fun _ _ h => h.1) s t h

theorem Moves.shutdownInitiated_eq (h : Moves s t) :
    t.shutdownInitiated = s.shutdownInitiated := by
  induction h with
  | refl => rfl
  | tail _ hm ih => exact hm.2.trans ih

theorem moves_unseen (startCallback heartbeatCallback : Bool) (readStream : Option IncomingMessage)
    (sentCBs : List Nat) (answers : List Answer) (invokes : List Bool) :
    Moves s
      { s with
        startCallback := startCallback
        heartbeatCallback := heartbeatCallback
        readStream := readStream
        sentCBs := sentCBs
        answers := answers
        invokes := invokes } :=
  .single ⟨.unseen .., rfl⟩

theorem moves_answers (answers : List Answer) : Moves s { s with answers := answers } :=
  moves_unseen s.startCallback s.heartbeatCallback s.readStream s.sentCBs answers s.invokes

theorem moves_readStream (readStream : Option IncomingMessage) :
    Moves s { s with readStream := readStream } :=
  moves_unseen s.startCallback s.heartbeatCallback readStream s.sentCBs s.answers s.invokes

theorem moves_shut (s : ConnectionI) (ex : LocalException) : Moves s (s.shut ex) := by
  unfold shut
  split
  · exact .refl
  · have hex : Moves s { s with exception := s.exception <|> some ex } :=
      .single ⟨.exception ex, rfl⟩
    split
    · rename_i hf
      simpa only [← hf] using hex
    · rename_i hf
      refine hex.tail ⟨.switch .closed ?_ (by decide) ?_, rfl⟩
      · simp [State.canSwitch, hf]
      · intro _
        right
        cases s.exception <;> rfl

theorem acts_shut (s : ConnectionI) (ex : LocalException) : Acts s (s.shut ex) :=
  (moves_shut s ex).acts

variable {A : ConnectionI → ConnectionI → Prop} {α : Type} {x : M α}

/-- A program does only acts, also when it throws. -/
def Does (A : ConnectionI → ConnectionI → Prop) (s : ConnectionI) (x : M α) : Prop :=
  wp x (fun _ t => ReflTransGen A s t) (fun _ t => ReflTransGen A s t) s

/-- A program does only acts if the connection is closed after an exception. -/
def Closes (A : ConnectionI → ConnectionI → Prop) (s : ConnectionI) (x : M α) : Prop :=
  wp x (fun _ t => ReflTransGen A s t) (fun ex t => ReflTransGen A s (t.shut ex)) s

theorem Does.acts (h : Does Move s x) : Does Act s x :=
  wp_mono h (fun _ _ h => Moves.acts h) fun _ _ h => Moves.acts h

theorem Does.closes (h : Does Act s x) : Closes Act s x :=
  wp_mono h (fun _ _ h => h) fun ex t h => h.trans (acts_shut t ex)

theorem Does.wp_of_acts (hs : ReflTransGen A s t) (h : Does A t x) :
    wp x (fun _ u => ReflTransGen A s u) (fun _ u => ReflTransGen A s u) t :=
  wp_mono h (fun _ _ h => hs.trans h) fun _ _ h => hs.trans h

theorem Closes.wp_of_acts (hs : ReflTransGen A s t) (h : Closes A t x) :
    wp x (fun _ u => ReflTransGen A s u) (fun ex u => ReflTransGen A s (u.shut ex)) t :=
  wp_mono h (fun _ _ h => hs.trans h) fun _ _ h => hs.trans h

/-- The handler that closes the connection. -/
theorem Closes.handled {x : M Unit} (h : Closes A s x) :
    Does A s (tryCatch x (setStateClosed .closed)) := by
  unfold Does
  rw [wp_tryCatch]
  apply wp_mono h
  · exact fun _ _ h => h
  · intro ex t h
    rw [wp_setStateClosed]
    exact h

end

section

variable {s t : ConnectionI} {R : LocalException → ConnectionI → Prop}

variable {message : OutgoingMessage} {state : State}

/-- `sendMessage` queues the message, sends it or begins to, or throws. -/
theorem wp_sendMessage {Q : AsyncStatus → ConnectionI → Prop}
    (hsends : ∀ status t, Sends s message status t → Q status t)
    (hfailed : s.sendStreams = [] → ∀ taken answers ex, R ex (s.sendFailed message taken answers)) :
    wp (sendMessage message) Q R s := by
  simp only [sendMessage, wp_bind, wp_tell, wp_get, wp_ite, wp_set, wp_pure, wp_nextAnswer]
  constructor
  · intro hqueue
    exact hsends _ _ (.queued hqueue)
  · intro hempty
    have hnil : s.sendStreams = [] := Classical.not_not.mp hempty
    generalize s.answers.headD (.wait ⟨.onWrite, by decide⟩ .nothing) = answer
    simp only [List.append_assoc, List.singleton_append]
    apply wp_result
    · intro htaken
      rw [htaken]
      constructor
      · intro _
        apply wp_sent
        intro _ invokes
        exact hsends _ _ (.sent s.answers.tail invokes hnil)
      · intro hne
        exact absurd rfl hne
    · intro op hop
      constructor
      · intro hnone
        exact absurd hnone hop
      · intro _
        exact hsends _ _ (.blocked answer.taken s.answers.tail hnil)
    · intro ex
      exact hfailed hnil answer.taken s.answers.tail ex

variable {status : AsyncStatus}

/-- The state of a connection is not touched when a message is sent. -/
theorem Sends.state_eq (h : Sends s message status t) :
    t.state = s.state := by
  cases h <;> rfl

theorem Sends.exception_eq (h : Sends s message status t) :
    t.exception = s.exception := by
  cases h <;> rfl

theorem Admits.state_eq (h : Admits s message t) : t.state = s.state := by
  cases h <;> rfl

/-- A message that no invocation waits for is sent, or the connection is closed. -/
theorem closes_sendMessage {s₁ : ConnectionI} (ha : Admits s message s₁)
    (hout : message.outAsync = none) :
    wp (sendMessage message)
      (fun status t => Acts s t ∧ Sends s₁ message status t)
      (fun ex t => Acts s (t.shut ex)) s₁ := by
  apply wp_sendMessage
  · intro status t hs
    exact ⟨.single (.send ha hout hs), hs⟩
  · intro hnil taken answers ex
    exact .single (.sendFailed taken answers ex ha hnil)

/-- `closing` only reads what the transceiver comes back with. -/
theorem wp_closing {Q : SocketOperation → ConnectionI → Prop}
    (h : ∀ op answers, Q op { s with answers := answers })
    (hthrow : ∀ ex answers, R ex { s with answers := answers }) : wp closing Q R s := by
  simp only [closing, wp_bind, wp_nextAnswer]
  apply wp_result
  · exact fun _ => h .none _
  · exact fun op _ => h op _
  · exact fun ex => hthrow ex _

theorem does_closing : Does Move s closing := by
  apply wp_closing
  all_goals exact fun _ answers => moves_answers answers

/-- The state is switched where that needs no exception to be set. -/
theorem moves_switchState (hf : state ≠ .finished)
    (hx : State.closing ≤ s.target state → State.closing ≤ s.state ∨ s.exception.isSome = true) :
    wp (switchState state) (fun _ t => Moves s t) R s := by
  rw [wp_switchState]
  constructor
  · exact fun _ => .refl
  · intro _ hc
    refine .single ⟨.switch _ hc ?_ hx, rfl⟩
    rcases target_cases s state with h | h
    · rwa [h]
    · rw [h]
      decide

theorem closes_initiateShutdown (hstate : s.state = .closing) (hcount : s.dispatchCount = 0) :
    Closes Act s initiateShutdown := by
  unfold Closes
  simp only [initiateShutdown, wp_bind, wp_get, wp_ite, wp_set, wp_pure]
  refine ⟨fun hno => ⟨fun hdatagram => ?_, fun hdatagram => ?_⟩, fun _ => .refl⟩
  · have ha : Admits s { content := .closeConnection } { s with shutdownInitiated := true } :=
      .closeConnection hstate hcount (by simpa using hno) (by simpa using hdatagram)
    apply wp_mono (closes_sendMessage ha rfl)
    · rintro status t ⟨hacts, hsends⟩
      refine ⟨fun _ => ?_, fun _ => hacts⟩
      have hclosing : State.closing ≤ t.state := by
        rw [hsends.state_eq, ha.state_eq, hstate]
        decide
      apply wp_mono (moves_switchState (by decide) fun _ => .inl hclosing)
      · intro _ u hu
        apply wp_mono (does_closing.acts.closes.wp_of_acts (hacts.trans hu.acts))
        · exact fun _ _ h => h
        · exact fun _ _ h => h
      · exact fun _ _ h => h
    · exact fun _ _ h => h
  · exact .single (.initiated hstate hcount (by simpa using hdatagram))

/-- A state is set, where one that closes needs an exception. -/
theorem does_setState (hf : state ≠ .finished)
    (hx : State.closing ≤ s.target state → State.closing ≤ s.state ∨ s.exception.isSome = true) :
    Does Act s (setState state) := by
  unfold Does
  simp only [setState, wp_bind]
  apply wp_mono (moves_switchState (R := fun _ t => Moves s t) hf hx)
  · intro b t hmoves
    have ht : Acts s t := hmoves.acts
    simp only [wp_ite, wp_bind, wp_get, wp_pure]
    refine ⟨fun _ => ⟨fun hs => ?_, fun _ => ht⟩, fun _ => ht⟩
    exact (closes_initiateShutdown hs.1 hs.2).handled.wp_of_acts ht
  · exact fun _ _ h => Moves.acts h

theorem does_setStateWith (hf : state ≠ .finished) (ex : LocalException) :
    Does Act s (setStateWith state ex) := by
  unfold Does
  simp only [setStateWith, wp_bind, wp_get, wp_ite, wp_set, wp_pure]
  refine ⟨fun _ => ?_, fun _ => .refl⟩
  have hex : Acts s { s with exception := s.exception <|> some ex } := .single (.exception ex)
  apply (does_setState hf _).wp_of_acts hex
  intro _
  right
  cases s.exception <;> rfl

theorem does_setStateClosed (ex : LocalException) : Does Move s (setStateClosed .closed ex) := by
  unfold Does
  rw [wp_setStateClosed]
  exact moves_shut s ex

end

end Ice.Protocol.ConnectionI
