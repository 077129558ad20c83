import Ice.Connection.ConnectionActs

/-!
# The calls of a connection are acts

For every function, from those that send to those that read and dispatch, the acts that it is
made of. What a call leads to is in `receives_of_step`.
-/

namespace Ice.Protocol.ConnectionI

open Connection (SocketOperation)
open Moves (acts)
open List (append_assoc append_nil map_cons map_nil prefix_append)

open Lib Relation
open Streams (toInt toInt_toInt_add toInt_add_toInt)

section

variable {s t : ConnectionI} {R : LocalException → ConnectionI → Prop}

@[simp]
theorem taken_outAsync (message : OutgoingMessage) (taken : Taken) :
    (message.taken taken).outAsync = message.outAsync := by
  unfold OutgoingMessage.taken
  split
  · rfl
  · split <;> rfl
  · rfl

/-- A heartbeat is sent by an active connection only. -/
theorem does_sendHeartbeatNow (hactive : s.state = .active) : Does Act s sendHeartbeatNow := by
  unfold Does
  simp only [sendHeartbeatNow, wp_bind, wp_get, wp_ite, wp_pure]
  refine ⟨fun _ => ?_, fun _ => .refl⟩
  apply Closes.handled
  unfold Closes
  simp only [wp_bind, wp_pure]
  apply wp_mono (closes_sendMessage (.validateConnection hactive) rfl)
  · exact fun _ _ h => h.1
  · exact fun _ _ h => h

/-- The message at the front goes on, and stays that of its invocation. -/
theorem wp_takeNext {Q : Unit → ConnectionI → Prop} {taken : Taken}
    (h : ∀ t, Moves s t → t.state = s.state →
      (∀ message rest, s.sendStreams = message :: rest →
        ∃ head, t.sendStreams = head :: rest ∧ head.outAsync = message.outAsync) → Q () t) :
    wp (takeNext taken) Q R s := by
  simp only [takeNext, wp_bind, wp_get]
  cases hs : s.sendStreams with
  | nil =>
    apply h _ .refl rfl
    intro message rest hcons
    rw [hs] at hcons
    contradiction
  | cons message rest =>
    simp only [wp_ite, wp_set, wp_pure]
    constructor
    · intro hw
      apply h _ (.single ⟨.take taken hs hw, rfl⟩) rfl
      intro m r hcons
      rw [hs] at hcons
      cases hcons
      exact ⟨_, rfl, taken_outAsync message taken⟩
    · intro _
      apply h _ .refl rfl
      intro m r hcons
      exact ⟨m, hcons, rfl⟩

/-- The message at the front is written, as far as the transceiver takes it. -/
theorem wp_writeNext {Q : SocketOperation → ConnectionI → Prop}
    (h : ∀ op t, Moves s t → t.state = s.state →
      (∀ message rest, s.sendStreams = message :: rest →
        ∃ head, t.sendStreams = head :: rest ∧ head.outAsync = message.outAsync) → Q op t)
    (hthrow : ∀ ex t, Moves s t → R ex t) : wp writeNext Q R s := by
  simp only [writeNext, wp_bind, wp_nextAnswer]
  apply wp_takeNext
  intro t ht hstate hhead
  have hacts : Moves s t := (moves_answers s.answers.tail).trans ht
  apply wp_result
  · exact fun _ => h .none t hacts hstate hhead
  · exact fun op _ => h op t hacts hstate hhead
  · exact fun ex => hthrow ex t hacts

theorem does_writeNext : Does Move s writeNext :=
  wp_writeNext (fun _ _ h _ _ => h) fun _ _ h => h

variable {message : OutgoingMessage} {rest : List OutgoingMessage}

/-- A message at the front is removed when it was sent. -/
theorem wp_popSent {Q : Unit → ConnectionI → Prop}
    (h : ∀ sentCBs invokes,
      Q () { { s with writing := false }.markSent message with
        sentCBs := sentCBs, invokes := invokes, sendStreams := rest }) :
    wp (popSent message rest) Q R s := by
  simp only [popSent, wp_bind, wp_modify]
  apply wp_sent
  intro b invokes
  exact h _ invokes

/-- With nothing left to send a pending closure goes on. -/
theorem closes_allSent : Closes Move s allSent := by
  unfold Closes
  simp only [allSent, wp_bind, wp_get, wp_ite, wp_pure]
  refine ⟨fun hs => ?_, fun _ => .refl⟩
  have hclosing : State.closing ≤ s.state := by
    rw [hs.1]
    decide
  apply wp_mono (moves_switchState (by decide) fun _ => .inl hclosing)
  · intro _ t ht
    apply wp_mono (does_closing.wp_of_acts ht)
    · exact fun _ _ h => h
    · exact fun ex u h => h.trans (moves_shut u ex)
  · exact fun _ _ h => h

theorem Moves.pop (sentCBs : List Nat) (invokes : List Bool) (h : s.sendStreams = message :: rest) :
    Moves s
      { { s with writing := false }.markSent message with
        sentCBs := sentCBs
        invokes := invokes
        sendStreams := rest } :=
  .single ⟨.pop sentCBs invokes h, rfl⟩

/-- The loop that sends, when the message at the front was sent. -/
theorem closes_sendLoop {head : OutgoingMessage} (hs : s.sendStreams = head :: rest)
    (hout : head.outAsync = message.outAsync) : Closes Move s (sendLoop (message :: rest)) := by
  induction rest generalizing s message head with
  | nil =>
    unfold Closes
    rw [sendLoop]
    simp only [wp_bind]
    apply wp_popSent
    intro sentCBs invokes
    apply closes_allSent.wp_of_acts
    have hpop := Moves.pop sentCBs invokes hs
    simpa only [markSent, sentEvents, hout] using hpop
  | cons next others ih =>
    unfold Closes
    rw [sendLoop]
    simp only [wp_bind]
    apply wp_popSent
    intro sentCBs invokes
    have hpop := Moves.pop sentCBs invokes hs
    simp only [markSent, sentEvents, hout] at hpop
    simp only [wp_get, wp_ite, wp_pure, wp_set, wp_bind]
    refine ⟨fun _ => hpop, fun _ => ?_⟩
    have hload := hpop.tail ⟨.load rfl rfl, rfl⟩
    apply wp_writeNext
    · intro op t ht _ hhead
      obtain ⟨head', ht', hout'⟩ := hhead _ _ rfl
      refine ⟨fun _ => ?_, fun _ => hload.trans ht⟩
      exact (ih ht' hout').wp_of_acts (hload.trans ht)
    · intro ex t ht
      exact (hload.trans ht).trans (moves_shut t ex)

/-- Messages are sent, or left while a closure is pending. -/
theorem does_sendNextMessage : Does Move s sendNextMessage := by
  unfold Does
  simp only [sendNextMessage, wp_bind, wp_get]
  cases hs : s.sendStreams with
  | nil => exact .refl
  | cons message rest =>
    simp only [wp_ite, wp_set]
    constructor
    · intro hp
      have hclosing : State.closingPending ≤ s.state := by
        rw [hp.1]
        decide
      have hswap : Act s { s with writing := !s.writing } := .swap hs hclosing hp.2
      simp only [hs] at hswap
      exact .single ⟨hswap, rfl⟩
    · intro _
      exact (closes_sendLoop hs rfl).handled

/-- `sendAsyncRequest` accepts an invocation, or the connection is closed. -/
theorem does_sendAsyncRequest (response : Bool) (refused : Option LocalException) :
    Does Act s (sendAsyncRequest response refused) := by
  unfold Does
  simp only [sendAsyncRequest, wp_bind, wp_get]
  cases hex : s.exception with
  | some ex => exact .refl
  | none =>
    cases refused with
    | some ex => exact .refl
    | none =>
      have ha : Admits s (s.requestMessage response) (s.withRequest response) :=
        .request response hex
      simp only [newRequest, sendRequest, wp_bind, wp_modifyGet, wp_tryCatch]
      apply wp_sendMessage
      · intro status t hsends
        simp only [wp_whenever, addRequest, wp_modify, wp_tell, wp_pure]
        have hact := Act.request response ha hsends
        constructor
        · intro hr
          subst hr
          exact .single hact
        · intro hr
          have hr' : response = false := by simpa using hr
          subst hr'
          exact .single hact
      · intro hnil taken answers ex
        simp only [wp_setStateClosed, wp_get, wp_throw]
        exact .single (.sendFailed taken answers ex ha hnil)

end

section

variable {s t : ConnectionI} {R : LocalException → ConnectionI → Prop}

variable {out : Nat} {ex : LocalException} {body : List UInt8} {u : ConnectionI}

theorem mem_of_lookup {requests : List (Int × Nat)} {requestId : Int}
    (h : requests.lookup requestId = some out) : (requestId, out) ∈ requests := by
  induction requests with
  | nil => cases h
  | cons p rest ih =>
    obtain ⟨key, value⟩ := p
    rw [List.lookup_cons] at h
    by_cases hk : requestId = key
    · simp only [hk, beq_self_eq_true, Option.some.injEq] at h
      rw [hk, h]
      exact List.mem_cons_self ..
    · rw [beq_false_of_ne hk] at h
      exact List.mem_cons_of_mem _ (ih h)

theorem mem_of_hintIs (h : s.hintIs out = true) :
    (s.asyncRequestsHint.getD 0, out) ∈ s.asyncRequests := by
  unfold hintIs at h
  cases hk : s.asyncRequestsHint with
  | none => simp [hk] at h
  | some key =>
    simp only [hk, Option.bind_some, decide_eq_true_eq] at h
    exact mem_of_lookup h

/-- An invocation is given up before its message is sent. -/
theorem does_cancelUnsent {index : Nat} {message : OutgoingMessage}
    (hstate : ¬State.closed ≤ s.state)
    (hfind : s.sendStreams.findIdx? (fun m => m.outAsync = some out) = some index)
    (hmessage : s.sendStreams[index]? = some message) :
    Does Act s (cancelUnsent out ex index message) := by
  unfold Does
  have htimeout := Act.timeoutQueued out index hfind hmessage hstate
  have hcancel := Act.cancelQueued out index ex hfind hmessage
  simp only [cancelUnsent, eraseQueued, cancelQueued, asyncException, complete, wp_bind,
    wp_whenever, wp_modify, wp_ite, wp_setStateClosed]
  by_cases hid : message.requestId = 0
  · simp only [hid, if_true] at htimeout hcancel
    refine ⟨fun h => absurd hid h, fun _ => ⟨fun _ => ?_, fun _ => .single hcancel⟩⟩
    rename_i hex
    subst hex
    exact .single htimeout
  · simp only [hid, if_false] at htimeout hcancel
    refine ⟨fun _ => ?_, fun h => absurd hid h⟩
    by_cases hhint : s.hintIs out = true
    · simp only [hhint, if_true] at htimeout hcancel ⊢
      refine ⟨fun hex => ?_, fun _ => .single hcancel⟩
      subst hex
      exact .single htimeout
    · simp only [hhint] at htimeout hcancel ⊢
      refine ⟨fun hex => ?_, fun _ => .single hcancel⟩
      subst hex
      exact .single htimeout

/-- An invocation is given up that waits for its reply. -/
theorem does_cancelSent (hfind : s.sendStreams.findIdx? (fun m => m.outAsync = some out) = none) :
    Does Act s (cancelSent out ex) := by
  unfold Does
  simp only [cancelSent, asyncException, complete, wp_bind, wp_get, wp_ite]
  constructor
  · intro hhint
    simp only [wp_setStateClosed, wp_set, wp_modify]
    constructor
    · exact fun _ => acts_shut s ex
    · intro _
      exact .single (.cancelSent out _ none ex hfind (mem_of_hintIs hhint))
  · intro _
    cases hp : s.asyncRequests.find? fun p => p.2 = out with
    | none => exact .refl
    | some p =>
      have hmem : (p.1, out) ∈ s.asyncRequests := by
        have hout : p.2 = out := by simpa using List.find?_some hp
        rw [← hout]
        exact List.mem_of_find?_eq_some hp
      simp only [wp_ite, wp_setStateClosed, wp_bind, wp_set, wp_modify]
      constructor
      · exact fun _ => acts_shut s ex
      · intro _
        exact .single (.cancelSent out p.1 s.asyncRequestsHint ex hfind hmem)

theorem does_asyncRequestCanceled (out : Nat) (ex : LocalException) :
    Does Act s (asyncRequestCanceled out ex) := by
  unfold Does
  simp only [asyncRequestCanceled, wp_bind, wp_get, wp_ite]
  refine ⟨fun _ => .refl, fun hstate => ?_⟩
  cases hfind : s.sendStreams.findIdx? fun m => m.outAsync = some out with
  | none => exact does_cancelSent hfind
  | some index =>
    simp only
    cases hmessage : s.sendStreams[index]? with
    | none => exact .refl
    | some message => exact does_cancelUnsent hstate hfind hmessage

/-- What `parseMessage` gives to `message` when it starts in `s` and ends in `t`. -/
structure Parsed.Sound (s t : ConnectionI) (parsed : Parsed) : Prop where
  counted : parsed.dispatchCount = parsed.call.dispatchedCount + parsed.call.invokeNum
  nonneg : 0 ≤ parsed.call.invokeNum
  sentCBs : parsed.call.sentCBs = []
  named : 0 < parsed.call.invokeNum → ¬State.closing ≤ s.state ∧
    t.log[parsed.call.request]? = some (.received parsed.call.request parsed.call.requestId)

theorem Parsed.sound_default : ({} : Parsed).Sound s t :=
  ⟨rfl, Int.le_refl 0, rfl, fun h => absurd h (by decide)⟩

theorem acts_received (requestId : Int) :
    Moves s { s with log := s.log ++ [.received s.log.length requestId] } :=
  .single ⟨.received requestId, rfl⟩

/-- Then the connection is in this state or has an exception. -/
theorem wp_setStateClosingPending {Q : Unit → ConnectionI → Prop}
    (h : ∀ t, Moves s t → (t.state = .closingPending ∨ t.exception.isSome = true) → Q () t) :
    wp (setStateClosed .closingPending ex) Q R s := by
  simp only [setStateClosed, wp_bind, wp_get, wp_ite, wp_pure, wp_set]
  constructor
  · intro _
    have hex : Moves s { s with exception := s.exception <|> some ex } :=
      .single ⟨.exception ex, rfl⟩
    have hsome : (s.exception <|> some ex).isSome = true := by
      cases s.exception <;> rfl
    rw [wp_switchState]
    constructor
    · exact fun _ => h _ hex (.inr hsome)
    · intro _ hc
      apply h _ _ (.inr hsome)
      rw [target_of_ne (by decide)] at hc ⊢
      exact hex.tail ⟨.switch .closingPending hc (by decide) fun _ => .inr hsome, rfl⟩
  · intro hsame
    exact h s .refl (.inl (by simpa using hsame))

/-- The peer closes the connection. -/
theorem does_closeReceived : Does Move s closeReceived := by
  unfold Does
  simp only [closeReceived, wp_bind]
  apply wp_setStateClosingPending
  intro t ht hx
  apply wp_closing
  · intro op answers
    have hanswers := ht.trans (moves_answers answers)
    simp only [wp_whenever, wp_bind, wp_pure]
    constructor
    · intro _
      apply wp_mono (moves_switchState (R := fun _ _ => False) (by decide) fun _ => ?_)
      · exact fun _ u hu => hanswers.trans hu
      · exact fun _ _ h => h.elim
      · rcases hx with hx | hx
        · left
          simp only [hx]
          decide
        · exact .inr hx
    · exact fun _ => hanswers
  · exact fun _ answers => ht.trans (moves_answers answers)

theorem wp_parseCloseConnection :
    wp parseCloseConnection (fun parsed t => Moves s t ∧ parsed.Sound s t)
      (fun _ t => Moves s t) s := by
  simp only [parseCloseConnection, wp_bind, wp_get, wp_whenever, wp_pure]
  constructor
  · intro _
    apply wp_mono does_closeReceived
    · exact fun _ _ h => ⟨h, Parsed.sound_default⟩
    · exact fun _ _ h => h
  · exact fun _ => ⟨.refl, Parsed.sound_default⟩

/-- A request is read before the shutdown, or it is left out. -/
theorem wp_parseRequest :
    wp (parseRequest body) (fun parsed t => Moves s t ∧ parsed.Sound s t)
      (fun _ t => Moves s t) s := by
  simp only [parseRequest, wp_bind, wp_get]
  cases readInt body with
  | error ex =>
    simp only [wp_ite, wp_pure, wp_throw]
    exact ⟨fun _ => ⟨.refl, Parsed.sound_default⟩, fun _ => .refl⟩
  | ok p =>
    obtain ⟨requestId, rest⟩ := p
    simp only [wp_bind, wp_tell, wp_ite, wp_pure]
    refine ⟨fun _ => ⟨acts_received requestId, Parsed.sound_default⟩,
      fun hstate => ⟨acts_received requestId, rfl, Int.one_nonneg, rfl, fun _ => ⟨hstate, ?_⟩⟩⟩
    simp

/-- A batch is noted as one request without an id. -/
theorem wp_parseRequestBatch :
    wp (parseRequestBatch body) (fun parsed t => Moves s t ∧ parsed.Sound s t)
      (fun _ t => Moves s t) s := by
  simp only [parseRequestBatch, wp_bind, wp_get, wp_ite, wp_pure]
  refine ⟨fun _ => ⟨.refl, Parsed.sound_default⟩, fun hstate => ?_⟩
  cases readInt body with
  | error ex => exact .refl
  | ok p =>
    obtain ⟨invokeNum, rest⟩ := p
    simp only [wp_ite, wp_throw, wp_bind, wp_tell, wp_pure]
    refine ⟨fun _ => .refl, fun hneg => ⟨acts_received 0, ?_, Int.not_lt.mp hneg, rfl,
      fun _ => ⟨hstate, by simp⟩⟩⟩
    simp [DispatchCall.dispatchedCount]

theorem wp_parseValidateConnection :
    wp parseValidateConnection (fun parsed t => Moves s t ∧ parsed.Sound s t)
      (fun _ t => Moves s t) s := by
  simp only [parseValidateConnection, wp_bind, wp_get, wp_ite, wp_pure]
  exact ⟨fun _ => ⟨.refl, rfl, by decide, rfl, fun h => absurd h (by decide)⟩,
    fun _ => ⟨.refl, Parsed.sound_default⟩⟩

/-- What reading a message leads to: acts, and at most one invocation is completed by it. -/
def Reads (s t : ConnectionI) : Prop :=
  Moves s t ∨ ∃ u v, Moves s u ∧ Replies u v ∧ Moves v t

theorem Reads.before (h : Moves s t) (hr : Reads t u) : Reads s u := by
  rcases hr with hr | ⟨v, w, hv, hw, hu⟩
  · exact .inl (h.trans hr)
  · exact .inr ⟨v, w, h.trans hv, hw, hu⟩

theorem Reads.after (hr : Reads s t) (h : Moves t u) : Reads s u := by
  rcases hr with hr | ⟨v, w, hv, hw, hu⟩
  · exact .inl (hr.trans h)
  · exact .inr ⟨v, w, hv, hw, hu.trans h⟩

/-- A reply completes the invocation it is for, if that still waits. -/
theorem wp_parseReply :
    wp (parseReply body) (fun parsed t => Reads s t ∧ parsed.Sound s t)
      (fun _ t => Moves s t) s := by
  simp only [parseReply]
  cases readInt body with
  | error ex => exact .refl
  | ok p =>
    obtain ⟨requestId, is⟩ := p
    simp only [wp_bind, wp_get]
    cases hout : s.asyncRequests.lookup requestId with
    | none => exact ⟨.inl .refl, Parsed.sound_default⟩
    | some out =>
      have hreply := Replies.mk out requestId is hout
      simp only [asyncResponse, complete, wp_bind, wp_modify, wp_nextInvoke, wp_ite, wp_pure]
      have hreads : Reads s
          { (s.eraseReplied requestId).completed out (.response requestId is) with
            invokes := s.invokes.tail } :=
        .inr ⟨s, _, .refl, hreply, moves_unseen _ _ _ _ _ _⟩
      exact ⟨fun _ => ⟨hreads, rfl, Int.le_refl 0, rfl, fun h => absurd h (Int.lt_irrefl 0)⟩,
        fun _ => ⟨hreads, Parsed.sound_default⟩⟩

theorem wp_parse {message : IncomingMessage} :
    wp (parse message) (fun parsed t => Reads s t ∧ parsed.Sound s t)
      (fun _ t => Moves s t) s := by
  unfold parse
  cases message.body with
  | error ex => exact .refl
  | ok body =>
    have hmoves : ∀ {x : M Parsed},
        wp x (fun parsed t => Moves s t ∧ parsed.Sound s t) (fun _ t => Moves s t) s →
        wp x (fun parsed t => Reads s t ∧ parsed.Sound s t) (fun _ t => Moves s t) s :=
      fun h => wp_mono h (fun _ _ h => ⟨.inl h.1, h.2⟩) fun _ _ h => h
    simp only [wp_ite, wp_throw]
    exact ⟨fun _ => hmoves wp_parseCloseConnection, fun _ => ⟨fun _ => hmoves wp_parseRequest,
      fun _ => ⟨fun _ => hmoves wp_parseRequestBatch, fun _ => ⟨fun _ => wp_parseReply,
        fun _ => ⟨fun _ => hmoves wp_parseValidateConnection, fun _ => .refl⟩⟩⟩⟩⟩

theorem Parsed.Sound.of_state {parsed : Parsed} (h : parsed.Sound t u) (hs : t.state = s.state) :
    parsed.Sound s u :=
  ⟨h.counted, h.nonneg, h.sentCBs, hs ▸ h.named⟩

theorem wp_parseMessage {message : IncomingMessage} :
    wp (parseMessage message) (fun parsed t => Reads s t ∧ parsed.Sound s t) R s := by
  simp only [parseMessage, wp_bind, wp_modify, wp_tryCatch, wp_get, wp_ite, wp_pure]
  have hread : Moves s { s with readStream := none } := moves_readStream none
  apply wp_mono wp_parse
  · exact fun parsed t h => ⟨h.1.before hread, h.2.of_state rfl⟩
  · intro ex t h
    have ht : Moves s t := hread.trans h
    refine ⟨fun _ => ⟨.inl ht, Parsed.sound_default⟩, fun _ => ?_⟩
    rw [wp_setStateClosed]
    exact ⟨.inl (ht.trans (moves_shut t ex)), Parsed.sound_default⟩

theorem does_receive (reading : Reading) : Does Move s (receive reading) := by
  cases reading with
  | wait op => exact .refl
  | complete message onWrite => exact moves_readStream _
  | throws ex => exact .refl

theorem does_initialization : Does Move s initialization := by
  unfold Does
  simp only [initialization, wp_bind, wp_nextAnswer]
  have hanswers : Moves s { s with answers := s.answers.tail } := moves_answers _
  have hswitch : wp (switchState .notValidated) (fun _ t => Moves s t) (fun _ t => Moves s t)
      { s with answers := s.answers.tail } := by
    apply wp_mono (moves_switchState (R := fun _ _ => False) (by decide) fun h => ?_)
    · exact fun _ _ ht => hanswers.trans ht
    · exact fun _ _ h => h.elim
    · rw [target_of_ne (by decide)] at h
      exact absurd h (by decide)
  simp only [wp_ite, wp_bind, wp_pure]
  apply wp_result
  · exact fun _ => ⟨fun _ => hswitch, fun _ => hanswers⟩
  · exact fun op _ => ⟨fun _ => hswitch, fun _ => hanswers⟩
  · exact fun _ => hanswers

theorem does_validate : Does Move s validate := by
  unfold Does
  simp only [validate, wp_bind, wp_get, wp_ite, wp_pure, wp_nextAnswer]
  refine ⟨fun _ => .refl, fun _ => ?_⟩
  apply wp_result
  · exact fun _ => moves_answers _
  · exact fun _ _ => moves_answers _
  · exact fun _ => moves_answers _

theorem does_establish : Does Move s establish := by
  unfold Does
  have hrest : ∀ ready t, Moves s t →
      (ready = true → wp validate (fun _ t => Moves s t) (fun _ t => Moves s t) t) ∧
        (¬ready = true → Moves s t) :=
    fun _ t ht => ⟨fun _ => does_validate.wp_of_acts ht, fun _ => ht⟩
  simp only [establish, wp_bind, wp_get, wp_ite, wp_pure]
  constructor
  · intro _
    apply wp_mono does_initialization
    · exact fun ready t ht => hrest ready t ht
    · exact fun _ _ h => h
  · exact fun _ => by simpa using hrest true s .refl

theorem does_setHolding : Does Act s (setState .holding) := by
  apply does_setState (by decide)
  intro h
  rw [target_of_ne (by decide)] at h
  exact absurd h (by decide)

theorem does_setActive : Does Act s (setState .active) := by
  apply does_setState (by decide)
  intro h
  rw [target_of_ne (by decide)] at h
  exact absurd h (by decide)

theorem does_start (callback : Bool) : Does Act s (start callback) := by
  apply Closes.handled
  unfold Closes
  simp only [wp_bind, wp_get, wp_ite, wp_throw, wp_modify]
  refine ⟨fun _ => acts_shut s _, fun _ => ?_⟩
  apply wp_mono does_establish
  · intro ready t ht
    refine ⟨fun _ => does_setHolding.closes.wp_of_acts (acts ht), fun _ => ?_⟩
    exact (acts ht).trans (acts (moves_unseen _ _ _ _ _ _))
  · exact fun ex t h => (acts h).trans (acts_shut t ex)

/-- The first call establishes the connection; nothing is dispatched. -/
theorem wp_startMessage :
    wp startMessage (fun parsed t => Acts s t ∧ parsed.Sound s t ∧ parsed.call.invokeNum = 0)
      (fun _ t => Acts s t) s := by
  simp only [startMessage, wp_bind]
  apply wp_mono does_establish
  · intro ready t ht
    have hacts : Acts s t := acts ht
    simp only [wp_ite, wp_bind, wp_get, wp_set, wp_pure]
    refine ⟨fun _ => ?_, fun _ => ⟨hacts, Parsed.sound_default, trivial⟩⟩
    apply wp_mono (does_setHolding.wp_of_acts hacts)
    · intro _ u hu
      have hcallback := hu.trans
        (acts (moves_unseen false u.heartbeatCallback u.readStream u.sentCBs u.answers
          u.invokes))
      exact ⟨fun _ =>
          ⟨hcallback, ⟨rfl, Int.le_refl 0, rfl, fun h => absurd h (Int.lt_irrefl 0)⟩, trivial⟩,
        fun _ => ⟨hcallback, Parsed.sound_default, trivial⟩⟩
    · exact fun _ _ h => h
  · exact fun _ _ h => acts h

theorem does_transfer (operation : SocketOperation) (reading : Reading) :
    Does Move s (transfer operation reading) := by
  unfold Does
  simp only [transfer, wp_bind, wp_ite, wp_pure]
  have hread : ∀ t, Moves s t →
      (operation.read = true →
        wp (receive reading) (fun _ t => Moves s t) (fun _ t => Moves s t) t) ∧
        (¬operation.read = true → Moves s t) :=
    fun t ht => ⟨fun _ => (does_receive reading).wp_of_acts ht, fun _ => ht⟩
  refine ⟨fun _ => ?_, fun _ => hread s .refl⟩
  apply wp_mono does_writeNext
  · exact fun _ t ht => hread t ht
  · exact fun _ _ h => h

end

section

variable {s t u : ConnectionI} {R : LocalException → ConnectionI → Prop}

theorem State.le_of_canSwitch {old new : State} (h : old.canSwitch new = true)
    (ho : State.closing ≤ old) : old ≤ new := by
  revert h ho
  cases old <;> cases new <;> decide

theorem State.le_trans {a b c : State} (h : a ≤ b) (h' : b ≤ c) : a ≤ c := Nat.le_trans h h'

/-- A connection that is closed goes on to no state but the last. -/
theorem state_le_shut {state : State} (ex : LocalException) (hs : s.state = state) :
    state ≤ (s.shut ex).state := by
  subst hs
  unfold shut
  split
  · exact Nat.le_refl _
  · have hmono : ∀ old : State,
        old ≤ if old = .finished then State.finished else State.closed := by
      intro old
      cases old <;> decide
    exact hmono s.state

/-- A connection that closes goes forward through the states. -/
theorem Act.state_le (h : Act s t) (hs : State.closing ≤ s.state) : s.state ≤ t.state := by
  cases h with
  | switch state hc _ _ => exact State.le_of_canSwitch hc hs
  | send ha _ hsends =>
    rw [hsends.state_eq, ha.state_eq]
    exact Nat.le_refl _
  | request response ha hsends =>
    have hstate := hsends.state_eq.trans ha.state_eq
    unfold settle
    split <;> exact Nat.le_of_eq (congrArg State.toNat hstate.symm)
  | sendFailed taken answers ex ha _ => exact state_le_shut ex ha.state_eq
  | timeoutQueued _ _ _ _ _ => exact state_le_shut _ rfl
  | finish hclosed =>
    rw [hclosed]
    change State.closed ≤ State.finished
    decide
  | _ => exact Nat.le_refl _

theorem Act.closing_le (h : Act s t) (hs : State.closing ≤ s.state) : State.closing ≤ t.state :=
  State.le_trans hs (h.state_le hs)

theorem Act.closed_le (h : Act s t) (hs : State.closed ≤ s.state) : State.closed ≤ t.state :=
  State.le_trans hs (h.state_le (State.le_trans (by decide) hs))

theorem Acts.closing_le (h : Acts s t) (hs : State.closing ≤ s.state) :
    State.closing ≤ t.state := by
  induction h with
  | refl => exact hs
  | tail _ ha ih => exact ha.closing_le ih

/-- The log only grows. -/
theorem Act.log_prefix (h : Act s t) : s.log <+: t.log := by
  have hshut : ∀ (u : ConnectionI) ex, (u.shut ex).log = u.log := by
    intro u ex
    unfold shut
    split <;> rfl
  have hsends : ∀ {s₁ u : ConnectionI} {message status}, Sends s₁ message status u →
      s₁.log <+: u.log := by
    intro s₁ u message status hs
    cases hs with
    | queued _ => exact prefix_append _ _
    | sent answers invokes _ =>
      exact (prefix_append _ _).trans (prefix_append _ _)
    | blocked taken answers _ => exact prefix_append _ _
  have hadmits : ∀ {message s₁}, Admits s message s₁ → s₁.log = s.log := by
    intro message s₁ ha
    cases ha <;> rfl
  cases h with
  | send ha _ hs => exact hadmits ha ▸ hsends hs
  | request response _ hs =>
    apply (hsends hs).trans
    rw [settle_log]
    exact prefix_append _ _
  | sendFailed taken answers ex ha _ =>
    rw [hshut]
    exact hadmits ha ▸ prefix_append _ _
  | pop _ _ _ => exact prefix_append _ _
  | take _ _ _ => exact prefix_append _ _
  | cancelQueued _ _ _ _ _ => exact prefix_append _ _
  | timeoutQueued _ _ _ _ _ =>
    refine ⟨[], ?_⟩
    rw [hshut, append_nil]
  | cancelSent _ _ _ _ _ _ => exact prefix_append _ _
  | received _ => exact prefix_append _ _
  | invoke _ _ _ _ => exact prefix_append _ _
  | finish _ => exact prefix_append _ _
  | _ => exact List.prefix_rfl

theorem Acts.log_prefix (h : Acts s t) : s.log <+: t.log := by
  induction h with
  | refl => exact List.prefix_rfl
  | tail _ ha ih => exact ih.trans ha.log_prefix

/-- What is in the log stays where it is. -/
theorem Acts.log_getElem? (h : Acts s t) {n : Nat} {event : Event}
    (hn : s.log[n]? = some event) : t.log[n]? = some event := by
  obtain ⟨events, hlog⟩ := Acts.log_prefix h
  rw [← hlog, List.getElem?_append_left]
  · exact hn
  · exact (List.getElem?_eq_some_iff.mp hn).1

/-- Acts, among which an invocation may be completed by a reply. -/
def Answers (s t : ConnectionI) : Prop :=
  ∃ u v, Acts s u ∧ (v = u ∨ Replies u v) ∧ Acts v t

/-- What `message` does: at the end what is to be dispatched is counted. -/
def Receives (s t : ConnectionI) : Prop :=
  ∃ w, Answers s w ∧ (t = w ∨ Enqueues w t)

theorem Acts.answers (h : Acts s t) : Answers s t := ⟨t, t, h, .inl rfl, .refl⟩

theorem Answers.receives (h : Answers s t) : Receives s t := ⟨t, h, .inl rfl⟩

theorem Answers.before (h : Acts s t) (ha : Answers t u) : Answers s u := by
  obtain ⟨v, w, hv, hw, hu⟩ := ha
  exact ⟨v, w, h.trans hv, hw, hu⟩

theorem Answers.after (ha : Answers s t) (h : Acts t u) : Answers s u := by
  obtain ⟨v, w, hv, hw, ht⟩ := ha
  exact ⟨v, w, hv, hw, ht.trans h⟩

theorem Receives.before (h : Acts s t) (hr : Receives t u) : Receives s u := by
  obtain ⟨w, hw, hu⟩ := hr
  exact ⟨w, hw.before h, hu⟩

theorem Reads.answers (h : Reads s t) : Answers s t := by
  rcases h with h | ⟨u, v, hu, hv, ht⟩
  · exact (acts h).answers
  · exact ⟨u, v, acts hu, .inr hv, acts ht⟩

theorem Reads.shutdownInitiated_eq (h : Reads s t) :
    t.shutdownInitiated = s.shutdownInitiated := by
  rcases h with h | ⟨u, v, hu, hreply, ht⟩
  · exact Moves.shutdownInitiated_eq h
  · have huv : v.shutdownInitiated = u.shutdownInitiated := by
      cases hreply
      rfl
    rw [Moves.shutdownInitiated_eq ht, huv, Moves.shutdownInitiated_eq hu]

variable {parsed : Parsed}

/-- What is to be dispatched is counted, or there is nothing. -/
theorem wp_count {Q : Unit → ConnectionI → Prop}
    (h : ∀ t, (t = s ∨ t = { s with
      dispatchCount := toInt (s.dispatchCount + parsed.dispatchCount)
      calls := s.calls ++ [parsed.call] }) → Q () t) : wp (count parsed) Q R s := by
  simp only [count, wp_modify]
  split
  · exact h _ (.inl rfl)
  · exact h _ (.inr rfl)

/-- What is to be dispatched was counted, and a request of it was read before the shutdown. -/
structure Parsed.Ready (t : ConnectionI) (parsed : Parsed) : Prop where
  counted : toInt parsed.dispatchCount = toInt (parsed.call.dispatchedCount + parsed.call.invokeNum)
  nonneg : 0 ≤ parsed.call.invokeNum
  named : 0 < parsed.call.invokeNum → t.shutdownInitiated = false ∧
    t.log[parsed.call.request]? = some (.received parsed.call.request parsed.call.requestId)

theorem Parsed.Ready.enqueues (h : parsed.Ready t) :
    Enqueues t { t with
      dispatchCount := toInt (t.dispatchCount + parsed.dispatchCount)
      calls := t.calls ++ [parsed.call] } :=
  .mk parsed.call parsed.dispatchCount h.counted h.nonneg h.named

variable {readyOp : SocketOperation}

theorem wp_parseReady :
    wp (parseReady readyOp) (fun parsed t => Reads s t ∧ parsed.Sound s t) R s := by
  simp only [parseReady, wp_bind, wp_get]
  cases hm : s.readStream with
  | none => exact ⟨.inl .refl, Parsed.sound_default⟩
  | some message =>
    simp only [wp_ite, wp_pure]
    exact ⟨fun _ => wp_parseMessage, fun _ => ⟨.inl .refl, Parsed.sound_default⟩⟩

theorem Parsed.Sound.ready (h : parsed.Sound s t)
    (hs : s.shutdownInitiated = true → State.closing ≤ s.state) (hread : Reads s t)
    (hu : Moves t u) : parsed.Ready u := by
  constructor
  · rw [h.counted]
  · exact h.nonneg
  · intro hpos
    obtain ⟨hstate, hlog⟩ := h.named hpos
    constructor
    · rw [Moves.shutdownInitiated_eq hu, hread.shutdownInitiated_eq]
      cases hi : s.shutdownInitiated with
      | false => rfl
      | true => exact absurd (hs hi) hstate
    · exact (acts hu).log_getElem? hlog

theorem toInt_toInt (x : Int) : toInt (toInt x) = toInt x := by
  simpa only [Int.add_zero] using toInt_toInt_add x 0

theorem dispatchedCount_sentCBs {call : DispatchCall} {sentCBs : List Nat}
    (h : call.sentCBs = []) (hs : sentCBs ≠ []) :
    { call with sentCBs := sentCBs }.dispatchedCount = call.dispatchedCount + 1 := by
  simp only [DispatchCall.dispatchedCount, h, hs, ne_eq, not_false_eq_true, if_true, not_true,
    if_false]
  omega

/-- What was read is parsed, and messages go on. -/
theorem wp_process
    (hs : s.shutdownInitiated = true → State.closing ≤ s.state) :
    wp (process readyOp) (fun parsed t => Reads s t ∧ parsed.Ready t) (fun _ t => Answers s t)
      s := by
  simp only [process, wp_bind]
  apply wp_mono wp_parseReady
  · intro parsed t ht
    have hend : ∀ u, Moves t u →
        (u.sentCBs ≠ [] → Reads s u ∧
          Parsed.Ready u { call := { parsed.call with sentCBs := u.sentCBs }
                           dispatchCount := toInt (parsed.dispatchCount + 1) }) ∧
        (¬u.sentCBs ≠ [] → Reads s u ∧ parsed.Ready u) := by
      intro u hu
      have hready := ht.2.ready hs ht.1 hu
      refine ⟨fun hsent => ⟨ht.1.after hu, ?_, hready.nonneg, hready.named⟩,
        fun _ => ⟨ht.1.after hu, hready⟩⟩
      have hcount := dispatchedCount_sentCBs ht.2.sentCBs hsent
      have hsum : parsed.dispatchCount + 1 =
          { parsed.call with sentCBs := u.sentCBs }.dispatchedCount + parsed.call.invokeNum := by
        rw [hcount, ht.2.counted]
        omega
      change toInt (toInt (parsed.dispatchCount + 1)) = _
      rw [toInt_toInt, hsum]
    simp only [wp_whenever, wp_get, wp_ite, wp_pure]
    refine ⟨fun _ => ?_, fun _ => hend t .refl⟩
    apply wp_mono does_sendNextMessage
    · exact fun _ u hu => hend u hu
    · exact fun _ u hu => (ht.1.after hu).answers
  · exact fun _ _ h => h

/-- What is counted at the end of `message`. -/
theorem wp_count_of_answers (h : Answers s t) (hready : parsed.Ready t) :
    wp (count parsed) (fun _ t => Receives s t) R t := by
  apply wp_count
  rintro u (hsame | hcounted)
  · exact ⟨t, h, .inl hsame⟩
  · exact ⟨t, h, .inr (hcounted ▸ hready.enqueues)⟩

theorem Parsed.Ready.of_sound (h : parsed.Sound s t) (hidle : parsed.call.invokeNum = 0) :
    parsed.Ready t :=
  ⟨by rw [h.counted], h.nonneg, fun hpos => absurd hpos (by rw [hidle]; decide)⟩

variable {operation : SocketOperation} {reading : Reading}

section

variable (hs : s.shutdownInitiated = true → State.closing ≤ s.state)

include hs

/-- `message`, when the connection is not closed. -/
theorem wp_messageReady :
    wp (messageReady operation reading) (fun _ t => Receives s t) (fun _ t => Answers s t) s := by
  simp only [messageReady, wp_bind]
  apply wp_mono (does_transfer operation reading)
  · intro newOp t ht
    have hacts : Acts s t := acts ht
    have hclosing : t.shutdownInitiated = true → State.closing ≤ t.state := by
      intro hi
      rw [Moves.shutdownInitiated_eq ht] at hi
      exact Acts.closing_le hacts (hs hi)
    simp only [wp_get, wp_ite, wp_bind, wp_pure]
    refine ⟨fun _ => ⟨fun _ => ?_, fun _ => hacts.answers.receives⟩, fun _ => ?_⟩
    · apply wp_mono wp_startMessage
      · intro parsed u hu
        exact wp_count_of_answers (Acts.answers (hacts.trans hu.1)) (.of_sound hu.2.1 hu.2.2)
      · exact fun _ _ h => Acts.answers (hacts.trans h)
    · apply wp_mono (wp_process hclosing)
      · rintro parsed u ⟨hread, hready⟩
        exact wp_count_of_answers (hread.answers.before hacts) hready
      · exact fun _ _ h => h.before hacts
  · exact fun _ _ h => (acts h).answers

theorem wp_message :
    wp (message operation reading) (fun _ t => Receives s t) (fun _ t => Receives s t) s := by
  simp only [message, wp_bind, wp_get, wp_ite, wp_pure, wp_set, wp_tryCatch]
  refine ⟨fun _ => (Acts.answers .refl).receives, fun _ => ?_⟩
  have hclear : Acts s { s with sentCBs := [] } :=
    acts (moves_unseen s.startCallback s.heartbeatCallback s.readStream [] s.answers
      s.invokes)
  apply wp_mono (wp_messageReady (s := { s with sentCBs := [] }) hs)
  · exact fun _ _ h => h.before hclear
  · intro ex t h
    simp only [messageFailed, wp_bind, wp_get, wp_ite, wp_set, wp_setStateClosed]
    exact ⟨fun _ => ((h.before hclear).after (acts (moves_readStream none))).receives,
      fun _ => ((h.before hclear).after (acts_shut t ex)).receives⟩

end

end

section

variable {s t : ConnectionI} {R : LocalException → ConnectionI → Prop}

theorem closes_shutdownIfIdle : Closes Act s shutdownIfIdle := by
  unfold Closes
  simp only [shutdownIfIdle, wp_bind, wp_get, wp_ite, wp_pure]
  exact ⟨fun h => closes_initiateShutdown h.1 h.2, fun _ => .refl⟩

variable {index : Nat} {Q : Unit → ConnectionI → Prop} {ex : LocalException} {incoming : Incoming}

/-- A servant is completed, and its reply is sent if one is expected. -/
theorem does_respond (hincoming : s.incomings[index]? = some incoming) :
    Does Act s (respond index incoming) := by
  unfold Does
  simp only [respond, wp_bind, wp_modify, wp_ite]
  -- In either case the servant is taken out and the count decreased first.
  have hclosed : State.closed ≤ s.state → Acts s (s.withoutIncoming index) :=
    fun hs => .single (.drop index incoming hincoming (.inl hs))
  constructor
  · intro hresponse
    simp only [sendResponse, decrease, wp_bind, wp_modify, wp_tryCatch, wp_get, wp_ite, wp_throw,
      wp_setStateClosed]
    constructor
    · intro hs
      exact (hclosed hs).trans (acts_shut _ _)
    · intro hs
      have ha := Admits.reply index incoming hincoming hresponse hs
      apply wp_mono (closes_sendMessage ha rfl)
      · rintro status t ⟨hacts, _⟩
        exact closes_shutdownIfIdle.wp_of_acts hacts
      · exact fun _ _ h => h
  · intro hresponse
    simp only [sendNoResponse, decrease, wp_bind, wp_modify, wp_tryCatch, wp_get, wp_ite,
      wp_throw, wp_setStateClosed]
    have hdrop : Acts s (s.withoutIncoming index) :=
      .single (.drop index incoming hincoming (.inr (by simpa using hresponse)))
    constructor
    · exact fun _ => hdrop.trans (acts_shut _ _)
    · exact fun _ => closes_shutdownIfIdle.wp_of_acts hdrop

/-- A closed connection stays closed. -/
theorem closed_le_shut (ex : LocalException) : State.closed ≤ (s.shut ex).state := by
  unfold shut
  split
  · rename_i hc
    rw [hc]
    decide
  · dsimp only
    split <;> decide

/-- A dispatch that throws closes the connection. -/
theorem does_fail (ex : LocalException)
    (hincoming : s.incomings[index]? = some incoming) : Does Act s (fail index ex) := by
  unfold Does
  simp only [fail, invokeException, decrease, wp_bind, wp_modify, wp_setStateClosed]
  have hdrop : Act (s.shut ex) ((s.shut ex).withoutIncoming index) := by
    apply Act.drop index incoming
    · unfold shut
      split <;> exact hincoming
    · exact .inl (closed_le_shut ex)
  have hresult := (acts_shut s ex).tail hdrop
  by_cases hc : s.state = .closed
  · simpa only [shut, withoutIncoming, hc, if_true] using hresult
  · simpa only [shut, withoutIncoming, hc, if_false] using hresult

/-- A servant is called, or the rest of the call is given up. -/
theorem does_invoke {call : DispatchCall} (failure : Option LocalException)
    (hcall : s.calls[index]? = some call) (hpos : 0 < call.invokeNum) :
    Does Act s (invoke index call failure) := by
  unfold Does
  cases failure with
  | none => exact .single (.invoke index call hcall hpos)
  | some ex =>
    simp only [invoke, invokeException, decrease, wp_bind, wp_modify, wp_setStateClosed]
    have habandon : Act (s.shut ex)
        { s.shut ex with
          calls := (s.shut ex).calls.set index { call with invokeNum := 0 }
          dispatchCount := toInt ((s.shut ex).dispatchCount - call.invokeNum) } := by
      apply Act.abandon index call
      · unfold shut
        split <;> exact hcall
      · exact closed_le_shut ex
    have hresult := (acts_shut s ex).tail habandon
    by_cases hc : s.state = .closed
    · simpa only [shut, hc, if_true] using hresult
    · simpa only [shut, hc, if_false] using hresult

theorem does_endDispatch {call : DispatchCall} (hcall : s.calls[index]? = some call)
    (hidle : call.invokeNum ≤ 0) : Does Act s (endDispatch index call) := by
  unfold Does
  simp only [endDispatch, dispatched, decrease, wp_bind, wp_modify, wp_ite, wp_pure]
  have hend := ReflTransGen.single (Act.endDispatch index call hcall hidle)
  exact ⟨fun _ => closes_shutdownIfIdle.handled.wp_of_acts hend, fun _ => hend⟩

theorem wp_finishMessage {message : OutgoingMessage}
    (h : Q () { s with
      log := s.log ++ message.outAsync.toList.map fun out =>
        .completed out (.exception ex) (s.isSent out)
      asyncRequests :=
        if message.requestId ≠ 0 then eraseRequest message.requestId s.asyncRequests
        else s.asyncRequests }) : wp (finishMessage ex message) Q R s := by
  simp only [finishMessage, OutgoingMessage.completed, asyncException, complete, wp_bind, wp_ite,
    wp_modify, wp_pure]
  cases hout : message.outAsync with
  | none =>
    simp only [hout, Option.toList_none, map_nil, append_nil] at h
    by_cases hid : message.requestId ≠ 0
    · rw [if_pos hid] at h
      exact ⟨fun _ => h, fun hn => absurd hid hn⟩
    · rw [if_neg hid] at h
      exact ⟨fun hp => absurd hp hid, fun _ => h⟩
  | some out =>
    simp only [hout, Option.toList_some, map_cons, map_nil] at h
    by_cases hid : message.requestId ≠ 0
    · rw [if_pos hid] at h
      exact ⟨fun _ => h, fun hn => absurd hid hn⟩
    · rw [if_neg hid] at h
      exact ⟨fun hp => absurd hp hid, fun _ => h⟩

/-- The messages of `_sendStreams` are completed one after the other. -/
theorem wp_finishMessages (messages : List OutgoingMessage)
    (h : Q () { s with
      log := s.log ++ (messages.filterMap (·.outAsync)).map fun out =>
        .completed out (.exception ex) (s.isSent out)
      asyncRequests := messages.foldl (fun requests (m : OutgoingMessage) =>
        if m.requestId ≠ 0 then eraseRequest m.requestId requests else requests)
        s.asyncRequests }) : wp (messages.forM (finishMessage ex)) Q R s := by
  induction messages generalizing s with
  | nil =>
    simp only [List.filterMap_nil, map_nil, append_nil, List.foldl_nil] at h
    exact h
  | cons message rest ih =>
    change wp (finishMessage ex message >>= fun _ => rest.forM (finishMessage ex)) Q R s
    rw [wp_bind]
    apply wp_finishMessage
    apply ih
    cases hout : message.outAsync with
    | none =>
      simp only [List.filterMap_cons, hout] at h
      simp only [Option.toList_none, map_nil, append_nil]
      exact h
    | some out =>
      simp only [List.filterMap_cons, hout] at h
      simp only [Option.toList_some, map_cons, map_nil, append_assoc,
        List.singleton_append]
      exact h

/-- The invocations of `_asyncRequests` are completed one after the other. -/
theorem wp_finishRequests (requests : List (Int × Nat))
    (h : Q () { s with
      log := s.log ++ (requests.map (·.2)).map fun out =>
        .completed out (.exception ex) (s.isSent out) }) :
    wp (requests.forM fun p => asyncException p.2 ex) Q R s := by
  induction requests generalizing s with
  | nil =>
    simp only [map_nil, append_nil] at h
    exact h
  | cons p rest ih =>
    change wp (asyncException p.2 ex >>= fun _ => rest.forM fun p => asyncException p.2 ex) Q R s
    simp only [asyncException, complete, wp_bind, wp_modify]
    apply ih
    simp only [append_assoc, List.singleton_append]
    exact h

theorem wp_switchFinished {Q : Bool → ConnectionI → Prop} (hs : s.state = .closed)
    (h : Q true { s with state := .finished }) : wp (switchState .finished) Q R s := by
  rw [wp_switchState, target_of_ne (by decide)]
  constructor
  · intro hfalse
    simp [hs, State.canSwitch] at hfalse
  · exact fun _ _ => h

/-- The last call of a closed connection. -/
theorem does_finish (hs : s.state = .closed) : Does Act s finish := by
  unfold Does
  simp only [finish, wp_bind, wp_modify, wp_get]
  apply wp_finishMessages
  dsimp only
  apply wp_finishRequests
  dsimp only
  apply wp_switchFinished
  · exact hs
  have hfinish := ReflTransGen.single (Act.finish hs)
  simp only [finishAll, finishedOuts, List.map_append, ← append_assoc, isSent] at hfinish
  simp only [isSent, wp_pure]
  exact hfinish

theorem does_close (mode : ConnectionClose) : Does Act s (close mode) := by
  cases mode with
  | forcefully => exact (does_setStateClosed _).acts
  | gracefully => exact does_setStateWith (by decide) _
  | gracefullyWithWait =>
    unfold Does
    simp only [close, wp_bind, wp_get, wp_ite, wp_pure]
    exact ⟨fun _ => does_setStateWith (by decide) _, fun _ => .refl⟩

theorem does_destroy (reason : DestructionReason) : Does Act s (destroy reason) := by
  cases reason with
  | objectAdapterDeactivated | communicatorDestroyed => exact does_setStateWith (by decide) _

theorem does_timedOut : Does Act s timedOut := by
  unfold Does
  simp only [timedOut, wp_bind, wp_get, wp_ite, wp_pure, wp_setStateClosed]
  exact ⟨fun _ => acts_shut s _, fun _ => ⟨fun _ => acts_shut s _, fun _ => ⟨fun _ => acts_shut s _,
    fun _ => .refl⟩⟩⟩

theorem does_activate : Does Act s activate := by
  unfold Does
  simp only [activate, wp_bind, wp_get, wp_ite, wp_pure]
  exact ⟨fun _ => .refl, fun _ => does_setActive⟩

theorem does_hold : Does Act s hold := by
  unfold Does
  simp only [hold, wp_bind, wp_get, wp_ite, wp_pure]
  exact ⟨fun _ => .refl, fun _ => does_setHolding⟩

theorem does_setHeartbeatCallback (callback : Bool) :
    Does Act s (setHeartbeatCallback callback) := by
  unfold Does
  simp only [setHeartbeatCallback, wp_modify]
  split
  · exact .refl
  · exact acts (moves_unseen s.startCallback callback s.readStream s.sentCBs s.answers s.invokes)

theorem does_monitorHeartbeat {acm : Inactivity} (hs : s.state = .active) :
    Does Act s (monitorHeartbeat acm) := by
  unfold Does
  simp only [monitorHeartbeat, wp_bind, wp_get, wp_ite, wp_pure]
  exact ⟨fun _ => ⟨fun _ => does_sendHeartbeatNow hs, fun _ => .refl⟩, fun _ => .refl⟩

theorem does_monitorClose {acm : Inactivity} : Does Act s (monitorClose acm) := by
  unfold Does
  simp only [monitorClose, wp_bind, wp_get, wp_ite, wp_pure, wp_setStateClosed]
  exact ⟨fun _ => ⟨fun _ => acts_shut s _, fun _ => ⟨fun _ => does_setStateWith (by decide) _,
    fun _ => .refl⟩⟩, fun _ => .refl⟩

theorem does_monitor (acm : Inactivity) : Does Act s (monitor acm) := by
  unfold Does
  simp only [monitor, wp_bind, wp_get, wp_ite, wp_pure]
  refine ⟨fun hs => ?_, fun _ => .refl⟩
  apply wp_mono (does_monitorHeartbeat hs)
  · exact fun _ _ ht => does_monitorClose.wp_of_acts ht
  · exact fun _ _ h => h

/-- A call other than `message` does only acts. -/
theorem does_program {call : Call} {x : M Unit} (h : s.program call = some x)
    (hmessage : ∀ operation reading, call ≠ .message operation reading) : Does Act s x := by
  cases call with
  | message operation reading => exact absurd rfl (hmessage operation reading)
  | start callback => cases h; exact does_start callback
  | activate => cases h; exact does_activate
  | hold => cases h; exact does_hold
  | close mode => cases h; exact does_close mode
  | destroy reason => cases h; exact does_destroy reason
  | monitor acm => cases h; exact does_monitor acm
  | timedOut => cases h; exact does_timedOut
  | exception ex => cases h; exact (does_setStateClosed ex).acts
  | setHeartbeatCallback callback => cases h; exact does_setHeartbeatCallback callback
  | sendAsyncRequest response refused =>
    cases h
    unfold Does
    rw [wp_bind]
    exact does_sendAsyncRequest response refused
  | asyncRequestCanceled out ex => cases h; exact does_asyncRequestCanceled out ex
  | invoke index failure =>
    unfold program at h
    cases hcall : s.calls[index]? with
    | none => simp [hcall] at h
    | some call =>
      by_cases hpos : 0 < call.invokeNum
      · simp only [hcall, hpos, if_true] at h
        cases h
        exact does_invoke failure hcall hpos
      · simp [hcall, hpos] at h
  | dispatched index =>
    unfold program at h
    cases hcall : s.calls[index]? with
    | none => simp [hcall] at h
    | some call =>
      by_cases hpos : 0 < call.invokeNum
      · simp [hcall, hpos] at h
      · simp only [hcall, hpos, if_false] at h
        cases h
        exact does_endDispatch hcall (Int.not_lt.mp hpos)
  | respond index =>
    obtain ⟨incoming, hincoming, rfl⟩ := Option.map_eq_some_iff.mp h
    exact does_respond hincoming
  | fail index ex =>
    obtain ⟨incoming, hincoming, rfl⟩ := Option.map_eq_some_iff.mp h
    exact does_fail ex hincoming
  | finish =>
    unfold program at h
    by_cases hs : s.state = .closed
    · simp only [hs, if_true] at h
      cases h
      exact does_finish hs
    · simp [hs] at h

/-- The shutdown is initiated only by a connection that closes. -/
def Closing (s : ConnectionI) : Prop := s.shutdownInitiated = true → State.closing ≤ s.state

/-- What a call leads to. -/
theorem receives_of_step {turn : Turn} (h : step s turn = some t) (hs : s.Closing) :
    Receives s t := by
  obtain ⟨x, hx, rfl⟩ := Option.map_eq_some_iff.mp h
  have hscript : Acts s { s with answers := turn.answers, invokes := turn.invokes } :=
    acts (moves_unseen s.startCallback s.heartbeatCallback s.readStream s.sentCBs
      turn.answers turn.invokes)
  by_cases hmessage : ∃ operation reading, turn.call = .message operation reading
  · obtain ⟨operation, reading, hcall⟩ := hmessage
    rw [hcall] at hx
    cases hx
    exact Receives.before hscript (wp_final (wp_message hs))
  · have hcall : ∀ operation reading, turn.call ≠ .message operation reading :=
      fun operation reading h => hmessage ⟨operation, reading, h⟩
    have hx' : program { s with answers := turn.answers, invokes := turn.invokes } turn.call =
        some x := hx
    have hacts := hscript.trans (wp_final (does_program hx' hcall))
    exact (Acts.answers hacts).receives

end

end Ice.Protocol.ConnectionI
