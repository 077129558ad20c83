import Ice.Connection.ConnectionCalls

/-!
# What does not change the dispatch count

Apart from `message`, the ends of dispatches and `finish`, no member of a connection changes the
dispatch count or ends the connection, whether it returns or throws.
-/

namespace Ice.Protocol.ConnectionI

open Lib
open Connection (SocketOperation)
open Streams (toInt toInt_toInt_add)

/-- The dispatch count and the calls of `dispatch` are the same, and the connection is finished
in both states or in none. -/
structure SameCount (s t : ConnectionI) : Prop where
  dispatchCount : t.dispatchCount = s.dispatchCount
  calls : t.calls = s.calls
  finished : t.state = .finished ↔ s.state = .finished

variable {s t u : ConnectionI} {α β : Type} {x y : M α} {f : α → M β}

theorem SameCount.refl : SameCount s s := ⟨rfl, rfl, Iff.rfl⟩

theorem SameCount.trans (h : SameCount s t) (h' : SameCount t u) : SameCount s u where
  dispatchCount := h'.dispatchCount.trans h.dispatchCount
  calls := h'.calls.trans h.calls
  finished := h'.finished.trans h.finished

/-- A program that ends in a state with the same count. -/
def FrameAt (s : ConnectionI) (x : M α) : Prop :=
  wp x (fun _ t => SameCount s t) (fun _ t => SameCount s t) s

/-- It keeps the count wherever it starts. -/
def Frame (x : M α) : Prop := ∀ s, FrameAt s x

theorem Frame.pure {a : α} : Frame (pure a : M α) := fun _ => SameCount.refl

variable {ex : LocalException}

theorem Frame.throw : Frame (throw ex : M α) := fun _ => SameCount.refl

theorem FrameAt.bind (hx : FrameAt s x) (hf : ∀ a, Frame (f a)) : FrameAt s (x >>= f) := by
  rw [FrameAt, wp_bind]
  apply wp_mono hx
  · intro a t hst
    apply wp_mono (hf a t)
    all_goals
      intro _ u htu
      exact hst.trans htu
  · intro _ t hst
    exact hst

theorem Frame.bind (hx : Frame x) (hf : ∀ a, Frame (f a)) : Frame (x >>= f) :=
  fun s => (hx s).bind hf

/-- What follows may depend on the state that is read. -/
theorem Frame.get_bind {f : ConnectionI → M β} (h : ∀ s, FrameAt s (f s)) : Frame (get >>= f) := by
  intro s
  rw [FrameAt, wp_bind, wp_get]
  exact h s

/-- A state is put that has the same count. -/
theorem FrameAt.set_bind {f : PUnit → M β} (hst : SameCount s t) (hf : Frame (f ⟨⟩)) :
    FrameAt s (set t >>= f) := by
  rw [FrameAt, wp_bind, wp_set]
  apply wp_mono (hf t)
  · intro _ u htu
    exact hst.trans htu
  · intro _ u htu
    exact hst.trans htu

theorem FrameAt.set (hst : SameCount s t) : FrameAt s (set t : M PUnit) := hst

theorem Frame.modify {g : ConnectionI → ConnectionI} (h : ∀ s, SameCount s (g s)) :
    Frame (modify g : M PUnit) := fun s => h s

theorem Frame.modifyGet {g : ConnectionI → α × ConnectionI} (h : ∀ s, SameCount s (g s).2) :
    Frame (modifyGet g : M α) := fun s => h s

variable {p : Prop}

theorem FrameAt.ite [Decidable p] (hx : p → FrameAt s x) (hy : ¬p → FrameAt s y) :
    FrameAt s (if p then x else y) := by
  split
  · exact hx ‹_›
  · exact hy ‹_›

theorem Frame.ite [Decidable p] (hx : Frame x) (hy : Frame y) :
    Frame (if p then x else y) := fun s => .ite (fun _ => hx s) fun _ => hy s

variable {h : LocalException → M α}

/-- The handler starts where the exception was thrown. -/
theorem FrameAt.tryCatch (hx : FrameAt s x) (hh : ∀ ex, Frame (h ex)) :
    FrameAt s (tryCatch x h) := by
  rw [FrameAt, wp_tryCatch]
  apply wp_mono hx
  · intro _ t hst
    exact hst
  · intro ex t hst
    apply wp_mono (hh ex t)
    all_goals
      intro _ u htu
      exact hst.trans htu

theorem Frame.tryCatch (hx : Frame x) (hh : ∀ ex, Frame (h ex)) :
    Frame (tryCatch x h) := fun s => (hx s).tryCatch hh

theorem Frame.whenever [Decidable p] {x : M Unit} (hx : Frame x) :
    Frame (whenever p x) := .ite hx .pure

/-- Where such a program ends. -/
theorem Frame.final (h : Frame x) : SameCount s (Lib.final x s) :=
  wp_final (P := fun t => SameCount s t) (h s)

theorem frame_tell (events : List Event) : Frame (tell events) :=
  .modify fun _ => ⟨rfl, rfl, Iff.rfl⟩

theorem frame_nextAnswer : Frame nextAnswer := .modifyGet fun _ => ⟨rfl, rfl, Iff.rfl⟩

theorem frame_nextInvoke : Frame nextInvoke := .modifyGet fun _ => ⟨rfl, rfl, Iff.rfl⟩

variable (out : Nat)

theorem frame_complete (how : Completion) : Frame (complete out how) :=
  .modify fun _ => ⟨rfl, rfl, Iff.rfl⟩

theorem frame_asyncSent : Frame (asyncSent out) := by
  refine Frame.bind (.modify fun _ => ⟨rfl, rfl, Iff.rfl⟩) fun _ => ?_
  refine .get_bind fun s => ?_
  exact (Frame.whenever (frame_complete out .sent) s).bind fun _ => frame_nextInvoke

theorem frame_sent (message : OutgoingMessage) : Frame message.sent := by
  unfold OutgoingMessage.sent
  split
  · exact frame_asyncSent _
  · exact .pure

theorem frame_result (answer : Answer) : Frame answer.result := by
  cases answer with
  | done => exact .pure
  | wait op taken => exact .pure
  | throws ex taken => exact .throw

variable {state : State}

/-- No state but `finished` leads there, and none leads from there. -/
theorem frame_switchState (h : state ≠ .finished) : Frame (switchState state) := by
  refine .get_bind fun s => .ite (fun _ => Frame.pure s) fun hc => ?_
  have htarget : s.target state ≠ .finished := by
    unfold target
    dsimp only
    repeat' split
    all_goals first | decide | exact h
  refine .set_bind ⟨rfl, rfl, ?_⟩ .pure
  constructor
  · intro hfinished
    exact absurd hfinished htarget
  · intro hfinished
    rw [not_or, Classical.not_not, hfinished] at hc
    obtain ⟨-, hswitch⟩ := hc
    cases hnew : s.target state with
    | finished => exact absurd hnew htarget
    | _ =>
      rw [hnew] at hswitch
      cases hswitch

/-- Any state may be set but the last one. -/
theorem frame_setStateClosed (h : state ≠ .finished) (ex : LocalException) :
    Frame (setStateClosed state ex) := by
  refine .get_bind fun s => .ite (fun _ => ?_) fun _ => Frame.pure s
  exact .set_bind ⟨rfl, rfl, Iff.rfl⟩ ((frame_switchState h).bind fun _ => .pure)

theorem frame_shut (ex : LocalException) : Frame (setStateClosed .closed ex) :=
  frame_setStateClosed (by decide) ex

theorem frame_sendMessage (message : OutgoingMessage) : Frame (sendMessage message) := by
  refine (frame_tell _).bind fun _ => .get_bind fun s => .ite (fun _ => ?_) fun _ => ?_
  · exact .set_bind ⟨rfl, rfl, Iff.rfl⟩ .pure
  · refine (frame_nextAnswer s).bind fun answer => ?_
    refine (frame_tell _).bind fun _ => (frame_result answer).bind fun op => ?_
    refine .ite ((frame_sent message).bind fun _ => .pure) ?_
    refine Frame.bind ?_ fun _ => .pure
    exact .modify fun _ => ⟨rfl, rfl, Iff.rfl⟩

theorem frame_closing : Frame closing := frame_nextAnswer.bind frame_result

/-- Closing the transceiver once the message is sent. -/
theorem frame_close : Frame (do
    let _ ← switchState .closingPending
    let _ ← closing) :=
  (frame_switchState (by decide)).bind fun _ => frame_closing.bind fun _ => .pure

theorem frame_initiateShutdown : Frame initiateShutdown := by
  refine .get_bind fun s => .ite (fun _ => ?_) fun _ => Frame.pure s
  refine .set_bind ⟨rfl, rfl, Iff.rfl⟩ (.ite ?_ .pure)
  exact (frame_sendMessage _).bind fun status => .ite frame_close .pure

theorem frame_setState (h : state ≠ .finished) : Frame (setState state) := by
  refine (frame_switchState h).bind fun switched => .ite ?_ .pure
  refine .get_bind fun s => .ite (fun _ => ?_) fun _ => Frame.pure s
  exact (frame_initiateShutdown s).tryCatch frame_shut

theorem frame_setStateWith (h : state ≠ .finished) (ex : LocalException) :
    Frame (setStateWith state ex) := by
  refine .get_bind fun s => .ite (fun _ => ?_) fun _ => Frame.pure s
  exact .set_bind ⟨rfl, rfl, Iff.rfl⟩ (frame_setState h)

theorem frame_sendHeartbeatNow : Frame sendHeartbeatNow := by
  refine .get_bind fun s => .ite (fun _ => ?_) fun _ => Frame.pure s
  exact ((frame_sendMessage _).bind fun _ => .pure).tryCatch frame_shut s

theorem frame_takeNext (taken : Taken) : Frame (takeNext taken) := by
  refine .get_bind fun s => ?_
  split
  · exact .ite (fun _ => .set ⟨rfl, rfl, Iff.rfl⟩) fun _ => Frame.pure s
  · exact Frame.pure s

theorem frame_writeNext : Frame writeNext :=
  frame_nextAnswer.bind fun answer => (frame_takeNext _).bind fun _ => frame_result answer

theorem frame_popSent (message : OutgoingMessage) (rest : List OutgoingMessage) :
    Frame (popSent message rest) := by
  refine Frame.bind (.modify fun _ => ⟨rfl, rfl, Iff.rfl⟩) fun _ => ?_
  exact (frame_sent message).bind fun _ => .modify fun _ => ⟨rfl, rfl, Iff.rfl⟩

theorem frame_allSent : Frame allSent :=
  .get_bind fun s => .ite (fun _ => frame_close s) fun _ => Frame.pure s

/-- Messages of any number are sent without a dispatch. -/
theorem frame_sendLoop (messages : List OutgoingMessage) : Frame (sendLoop messages) := by
  induction messages with
  | nil => exact .pure
  | cons message rest ih =>
    refine (frame_popSent message rest).bind fun _ => ?_
    cases rest with
    | nil => exact frame_allSent
    | cons next others =>
      refine .get_bind fun s => .ite (fun _ => Frame.pure s) fun _ => ?_
      refine .set_bind ⟨rfl, rfl, Iff.rfl⟩ (frame_writeNext.bind fun op => ?_)
      exact .ite ih .pure

theorem frame_sendNextMessage : Frame sendNextMessage := by
  refine .get_bind fun s => ?_
  split
  · exact Frame.pure s
  · refine .ite (fun _ => .set ⟨rfl, rfl, Iff.rfl⟩) fun _ => ?_
    exact (frame_sendLoop _ s).tryCatch frame_shut

/-- An invocation is no dispatch, whether it is accepted or refused. -/
theorem frame_sendAsyncRequest (response : Bool) (refused : Option LocalException) :
    Frame (sendAsyncRequest response refused) := by
  refine .get_bind fun s => ?_
  split
  · exact Frame.pure s
  · exact Frame.throw s
  · refine FrameAt.bind (Frame.modifyGet (fun _ => ⟨rfl, rfl, Iff.rfl⟩) s) fun message => ?_
    refine Frame.bind ?_ fun status => ?_
    · refine (frame_sendMessage message).tryCatch fun ex => ?_
      exact (frame_shut ex).bind fun _ => .get_bind fun t => Frame.throw t
    · refine Frame.bind (.whenever (.modify fun _ => ⟨rfl, rfl, Iff.rfl⟩)) fun _ => ?_
      exact (frame_tell _).bind fun _ => .pure

theorem frame_cancelUnsent (ex : LocalException) (index : Nat)
    (message : OutgoingMessage) : Frame (cancelUnsent out ex index message) := by
  have herase : Frame (eraseQueued out message.requestId) := by
    refine .modify fun s => ?_
    split <;> exact ⟨rfl, rfl, Iff.rfl⟩
  refine (Frame.whenever herase).bind fun _ => .ite (frame_shut ex) ?_
  exact Frame.bind (.modify fun _ => ⟨rfl, rfl, Iff.rfl⟩) fun _ => frame_complete _ _

theorem frame_cancelSent (ex : LocalException) : Frame (cancelSent out ex) := by
  refine .get_bind fun s => .ite (fun _ => .ite (fun _ => frame_shut ex s) fun _ => ?_) fun _ => ?_
  · exact .set_bind ⟨rfl, rfl, Iff.rfl⟩ (frame_complete _ _)
  · split
    · refine .ite (fun _ => frame_shut ex s) fun _ => ?_
      exact .set_bind ⟨rfl, rfl, Iff.rfl⟩ (frame_complete _ _)
    · exact Frame.pure s

/-- Nor is the end of an invocation that is given up. -/
theorem frame_asyncRequestCanceled (ex : LocalException) :
    Frame (asyncRequestCanceled out ex) := by
  refine .get_bind fun s => .ite (fun _ => Frame.pure s) fun _ => ?_
  split
  · split
    · exact frame_cancelUnsent _ _ _ _ s
    · exact Frame.pure s
  · exact frame_cancelSent out ex s

theorem frame_initialization : Frame initialization := by
  refine frame_nextAnswer.bind fun answer => (frame_result answer).bind fun op => .ite ?_ .pure
  exact (frame_switchState (by decide)).bind fun _ => .pure

theorem frame_validate : Frame validate := by
  refine .get_bind fun s => .ite (fun _ => Frame.pure s) fun _ => ?_
  exact (frame_nextAnswer s).bind fun answer => (frame_result answer).bind fun _ => .pure

/-- A connection is validated before it dispatches. -/
theorem frame_establish : Frame establish := by
  refine .get_bind fun s => ?_
  split
  · exact (frame_initialization s).bind fun ready => .ite frame_validate .pure
  · exact (Frame.pure s).bind fun ready => .ite frame_validate .pure

theorem frame_start (callback : Bool) : Frame (start callback) := by
  refine Frame.tryCatch (.get_bind fun s => .ite (fun _ => Frame.throw s) fun _ => ?_) frame_shut
  refine (frame_establish s).bind fun ready => .ite (frame_setState (by decide)) ?_
  exact .modify fun _ => ⟨rfl, rfl, Iff.rfl⟩

theorem frame_timedOut : Frame timedOut :=
  .get_bind fun s => .ite (fun _ => frame_shut _ s) fun _ =>
    .ite (fun _ => frame_shut _ s) fun _ => .ite (fun _ => frame_shut _ s) fun _ => Frame.pure s

theorem frame_closeMode (mode : ConnectionClose) : Frame (close mode) := by
  cases mode with
  | forcefully => exact frame_shut _
  | gracefully => exact frame_setStateWith (by decide) _
  | gracefullyWithWait =>
    exact .get_bind fun s => .ite (fun _ => frame_setStateWith (by decide) _ s) fun _ =>
      Frame.pure s

theorem frame_destroy (reason : DestructionReason) : Frame (destroy reason) := by
  cases reason with
  | objectAdapterDeactivated | communicatorDestroyed => exact frame_setStateWith (by decide) _

theorem frame_activate : Frame activate :=
  .get_bind fun s => .ite (fun _ => Frame.pure s) fun _ => frame_setState (by decide) s

theorem frame_hold : Frame hold :=
  .get_bind fun s => .ite (fun _ => Frame.pure s) fun _ => frame_setState (by decide) s

theorem frame_setHeartbeatCallback (callback : Bool) : Frame (setHeartbeatCallback callback) := by
  refine .modify fun s => ?_
  split <;> exact ⟨rfl, rfl, Iff.rfl⟩

/-- Heartbeats and the end of an idle connection do not count. -/
theorem frame_monitor (acm : Inactivity) : Frame (monitor acm) := by
  refine .get_bind fun s => .ite (fun _ => ?_) fun _ => Frame.pure s
  have hheartbeat : Frame (monitorHeartbeat acm) :=
    .get_bind fun s => .ite (fun _ => .ite (fun _ => frame_sendHeartbeatNow s)
      fun _ => Frame.pure s) fun _ => Frame.pure s
  refine (hheartbeat s).bind fun _ => .get_bind fun s => ?_
  refine .ite (fun _ => .ite (fun _ => frame_shut _ s) fun _ => .ite (fun _ => ?_)
    fun _ => Frame.pure s) fun _ => Frame.pure s
  exact frame_setStateWith (by decide) _ s

/-- A program that keeps the count and returns something that meets `Q`. -/
def YieldsAt (s : ConnectionI) (x : M α) (Q : α → Prop) : Prop :=
  wp x (fun a t => SameCount s t ∧ Q a) (fun _ t => SameCount s t) s

/-- It yields this wherever it starts. -/
def Yields (x : M α) (Q : α → Prop) : Prop := ∀ s, YieldsAt s x Q

section yields

variable {Q : α → Prop} {T : β → Prop}

theorem Yields.pure {a : α} (h : Q a) : Yields (pure a : M α) Q := fun _ => ⟨.refl, h⟩

theorem Yields.throw : Yields (throw ex : M α) Q := fun _ => SameCount.refl

/-- What is known of a result holds for what follows. -/
theorem YieldsAt.bind (hx : YieldsAt s x Q) (hf : ∀ a, Q a → Yields (f a) T) :
    YieldsAt s (x >>= f) T := by
  rw [YieldsAt, wp_bind]
  apply wp_mono hx
  · intro a t ha
    apply wp_mono (hf a ha.2 t)
    · intro _ u hu
      exact ⟨ha.1.trans hu.1, hu.2⟩
    · intro _ u htu
      exact ha.1.trans htu
  · intro _ t hst
    exact hst

/-- Of any result nothing is asked. -/
theorem FrameAt.yields (h : FrameAt s x) : YieldsAt s x fun _ => True := by
  apply wp_mono h
  · intro _ t hst
    exact ⟨hst, trivial⟩
  · intro _ t hst
    exact hst

theorem FrameAt.bind_yields (hx : FrameAt s x) (hf : ∀ a, Yields (f a) T) :
    YieldsAt s (x >>= f) T := hx.yields.bind fun a _ => hf a

theorem Yields.get_bind {f : ConnectionI → M β} (h : ∀ s, YieldsAt s (f s) T) :
    Yields (get >>= f) T := by
  intro s
  rw [YieldsAt, wp_bind, wp_get]
  exact h s

theorem YieldsAt.ite [Decidable p] (hx : p → YieldsAt s x Q) (hy : ¬p → YieldsAt s y Q) :
    YieldsAt s (if p then x else y) Q := by
  split
  · exact hx ‹_›
  · exact hy ‹_›

theorem Yields.ite [Decidable p] (hx : Yields x Q) (hy : Yields y Q) :
    Yields (if p then x else y) Q := fun s => .ite (fun _ => hx s) fun _ => hy s

theorem Yields.tryCatch (hx : Yields x Q) (hh : ∀ ex, Yields (h ex) Q) :
    Yields (tryCatch x h) Q := by
  intro s
  rw [YieldsAt, wp_tryCatch]
  apply wp_mono (hx s)
  · intro _ t hst
    exact hst
  · intro ex t hst
    apply wp_mono (hh ex t)
    · intro _ u hu
      exact ⟨hst.trans hu.1, hu.2⟩
    · intro _ u htu
      exact hst.trans htu

end yields

/-- A call of `dispatch` for a number of requests; only a single one has an id. -/
structure DispatchCall.Fair (call : DispatchCall) : Prop where
  nonneg : 0 ≤ call.invokeNum
  single : call.requestId ≠ 0 → call.invokeNum = 1

/-- What was parsed brings what is counted for it. -/
structure Parsed.Fair (parsed : Parsed) : Prop where
  call : parsed.call.Fair
  counted : parsed.dispatchCount = parsed.call.dispatchedCount + parsed.call.invokeNum
  sentCBs : parsed.call.sentCBs = []

theorem DispatchCall.fair_idle {call : DispatchCall} (h : call.requestId = 0)
    (hidle : call.invokeNum = 0) : call.Fair :=
  ⟨Int.le_of_eq hidle.symm, fun hid => absurd h hid⟩

theorem Parsed.fair_default : ({} : Parsed).Fair :=
  ⟨DispatchCall.fair_idle rfl rfl, rfl, rfl⟩

variable (body : List UInt8)

/-- A request is counted once. -/
theorem yields_parseRequest : Yields (parseRequest body) Parsed.Fair := by
  refine .get_bind fun s => ?_
  split
  · exact .ite (fun _ => Yields.pure Parsed.fair_default s) fun _ => Yields.throw s
  · refine (frame_tell _ s).bind_yields fun _ => .ite (.pure Parsed.fair_default) (.pure ?_)
    exact ⟨⟨Int.zero_le_ofNat 1, fun _ => rfl⟩, rfl, rfl⟩

/-- A batch is counted with all its requests. -/
theorem yields_parseRequestBatch :
    Yields (parseRequestBatch body) Parsed.Fair := by
  refine .get_bind fun s => .ite (fun _ => Yields.pure Parsed.fair_default s) fun _ => ?_
  split
  · exact Yields.throw s
  · refine .ite (fun _ => Yields.throw s) fun hnonneg => ?_
    refine (frame_tell _ s).bind_yields fun _ => .pure ?_
    refine ⟨⟨Int.not_lt.mp hnonneg, fun h => absurd rfl h⟩, ?_, rfl⟩
    simp [DispatchCall.dispatchedCount]

theorem yields_parseReply : Yields (parseReply body) Parsed.Fair := by
  unfold parseReply
  split
  · exact .throw
  · refine .get_bind fun s => ?_
    split
    · exact Yields.pure Parsed.fair_default s
    · have herase : ∀ id, Frame (modify (eraseReplied id)) :=
        fun _ => .modify fun _ => ⟨rfl, rfl, Iff.rfl⟩
      refine (herase _ s).bind_yields fun _ t => ?_
      refine FrameAt.bind_yields ?_ fun _ => .ite (.pure ?_) (.pure Parsed.fair_default)
      · exact (frame_complete _ _).bind (fun _ => frame_nextInvoke) t
      · exact ⟨DispatchCall.fair_idle rfl rfl, rfl, rfl⟩

theorem yields_parseValidateConnection : Yields parseValidateConnection Parsed.Fair := by
  refine .get_bind fun s => .ite (fun _ => Yields.pure ?_ s) fun _ =>
    Yields.pure Parsed.fair_default s
  exact ⟨DispatchCall.fair_idle rfl rfl, rfl, rfl⟩

theorem frame_closeReceived : Frame closeReceived := by
  refine (frame_setStateClosed (by decide) _).bind fun _ => frame_closing.bind fun _ => ?_
  exact .whenever ((frame_switchState (by decide)).bind fun _ => .pure)

/-- A message that cannot be read is not counted. -/
theorem yields_parseMessage (message : IncomingMessage) :
    Yields (parseMessage message) Parsed.Fair := by
  have hread : Frame (modify fun s => { s with readStream := none }) :=
    .modify fun _ => ⟨rfl, rfl, Iff.rfl⟩
  refine fun s => (hread s).bind_yields fun _ => .tryCatch ?_ fun ex => ?_
  · unfold parse
    split
    · exact .throw
    · refine .ite ?_ (.ite (yields_parseRequest _) (.ite (yields_parseRequestBatch _)
        (.ite (yields_parseReply _) (.ite yields_parseValidateConnection .throw))))
      refine .get_bind fun s => ?_
      exact (Frame.whenever frame_closeReceived s).bind_yields fun _ => .pure Parsed.fair_default
  · refine .get_bind fun s => .ite (fun _ => Yields.pure Parsed.fair_default s) fun _ => ?_
    exact (frame_shut ex s).bind_yields fun _ => .pure Parsed.fair_default

/-- What `message` has ready to be counted. -/
structure Parsed.Ample (parsed : Parsed) : Prop where
  call : parsed.call.Fair
  counted : toInt parsed.dispatchCount =
    toInt (parsed.call.dispatchedCount + parsed.call.invokeNum)

theorem Parsed.Fair.ample {parsed : Parsed} (h : parsed.Fair) : parsed.Ample :=
  ⟨h.call, by rw [h.counted]⟩

variable (readyOp : SocketOperation)

theorem yields_parseReady :
    Yields (parseReady readyOp) Parsed.Fair := by
  refine .get_bind fun s => ?_
  split
  · exact .ite (fun _ => yields_parseMessage _ s) fun _ => Yields.pure Parsed.fair_default s
  · exact Yields.pure Parsed.fair_default s

/-- A callback of a message that was sent adds one to the count. -/
theorem yields_process : Yields (process readyOp) Parsed.Ample := by
  intro s
  refine (yields_parseReady readyOp s).bind fun parsed hparsed t => ?_
  refine (Frame.whenever frame_sendNextMessage t).bind_yields fun _ => .get_bind fun u => ?_
  refine .ite (fun hsent => Yields.pure ⟨⟨hparsed.call.nonneg, hparsed.call.single⟩, ?_⟩ u)
    fun _ => Yields.pure hparsed.ample u
  have hsum : parsed.dispatchCount + 1 =
      { parsed.call with sentCBs := u.sentCBs }.dispatchedCount + parsed.call.invokeNum := by
    rw [dispatchedCount_sentCBs hparsed.sentCBs hsent, hparsed.counted]
    omega
  change toInt (toInt (parsed.dispatchCount + 1)) = _
  rw [toInt_toInt, hsum]

theorem yields_startMessage : Yields startMessage Parsed.Ample := by
  intro s
  refine (frame_establish s).bind_yields fun ready => .ite ?_ (.pure Parsed.fair_default.ample)
  intro t
  refine (frame_setState (by decide) t).bind_yields fun _ => .get_bind fun u => ?_
  have hset : FrameAt u (set { u with startCallback := false } : M PUnit) :=
    .set ⟨rfl, rfl, Iff.rfl⟩
  refine hset.bind_yields fun _ => .ite (.pure ?_) (.pure Parsed.fair_default.ample)
  exact ⟨DispatchCall.fair_idle rfl rfl, rfl⟩

theorem frame_transfer (operation : SocketOperation) (reading : Reading) :
    Frame (transfer operation reading) := by
  have hreceive : Frame (receive reading) := by
    unfold receive
    split
    · exact .pure
    · refine Frame.bind ?_ fun _ => .pure
      exact .modify fun _ => ⟨rfl, rfl, Iff.rfl⟩
    · exact .throw
  have hread : ∀ writeOp : SocketOperation, Frame (do
      let readOp ← if operation.read then receive reading else pure SocketOperation.none
      return (⟨readOp.read || writeOp.read, readOp.write || writeOp.write⟩ : SocketOperation)) := by
    intro writeOp
    split
    · exact hreceive.bind fun _ => .pure
    · exact Frame.pure.bind fun _ => .pure
  have hwrite : Frame (if operation.write then writeNext >>= fun writeOp => (do
        let readOp ← if operation.read then receive reading else pure SocketOperation.none
        return (⟨readOp.read || writeOp.read, readOp.write || writeOp.write⟩ : SocketOperation))
      else pure SocketOperation.none >>= fun writeOp => (do
        let readOp ← if operation.read then receive reading else pure SocketOperation.none
        return (⟨readOp.read || writeOp.read, readOp.write || writeOp.write⟩ : SocketOperation))) :=
    .ite (frame_writeNext.bind hread) (Frame.pure.bind hread)
  exact hwrite

/-- What a call of `message` does to the count: nothing, or it counts what it hands to
`dispatch`. -/
inductive Brings (s t : ConnectionI) : Prop
  | nothing (h : SameCount s t)
  | call (call : DispatchCall) (hcall : call.Fair) (hcalls : t.calls = s.calls ++ [call])
      (hcount : t.dispatchCount =
        toInt (s.dispatchCount + (call.dispatchedCount + call.invokeNum)))
      (hs : s.state ≠ .finished) (ht : t.state ≠ .finished)

/-- The call is appended as it is counted. -/
theorem brings_count {parsed : Parsed} {R : LocalException → ConnectionI → Prop}
    (h : SameCount s t) (hparsed : parsed.Ample) (hs : s.state ≠ .finished) :
    wp (count parsed) (fun _ u => Brings s u) R t := by
  rw [count, wp_modify]
  split
  · exact .nothing h
  · have ht : t.state ≠ .finished := fun hfinished => hs (h.finished.mp hfinished)
    refine .call parsed.call hparsed.call ?_ ?_ hs ht
    · dsimp only
      rw [h.calls]
    · dsimp only
      rw [h.dispatchCount, Int.add_comm, ← toInt_toInt_add, hparsed.counted, toInt_toInt_add,
        Int.add_comm]

theorem brings_message (s : ConnectionI) (operation : SocketOperation) (reading : Reading) :
    Brings s (final (message operation reading) s) := by
  apply wp_final (P := fun t => Brings s t)
  rw [message, wp_bind, wp_get, wp_ite]
  refine ⟨fun _ => .nothing .refl, fun hopen => ?_⟩
  have hs : s.state ≠ .finished := by
    intro hfinished
    rw [hfinished] at hopen
    exact hopen (by decide)
  rw [wp_bind, wp_set, wp_tryCatch]
  have hempty : SameCount s { s with sentCBs := [] } := ⟨rfl, rfl, Iff.rfl⟩
  have hfailed : ∀ ex t, SameCount s t → wp (messageFailed ex) (fun _ u => Brings s u)
      (fun _ u => Brings s u) t := by
    intro ex t hst
    have hframe : Frame (messageFailed ex) :=
      .get_bind fun t => .ite (fun _ => .set ⟨rfl, rfl, Iff.rfl⟩) fun _ => frame_shut ex t
    apply wp_mono (hframe t)
    all_goals
      intro _ u htu
      exact .nothing (hst.trans htu)
  have hcounted : ∀ {x : M Parsed} {t : ConnectionI}, SameCount s t → Yields x Parsed.Ample →
      wp (x >>= count) (fun _ u => Brings s u)
        (fun ex u => wp (messageFailed ex) (fun _ v => Brings s v) (fun _ v => Brings s v) u)
        t := by
    intro x t hst hx
    rw [wp_bind]
    apply wp_mono (hx t)
    · intro parsed u hu
      exact brings_count (hst.trans hu.1) hu.2 hs
    · intro ex u htu
      exact hfailed ex u (hst.trans htu)
  rw [messageReady, wp_bind]
  apply wp_mono (frame_transfer operation reading _)
  · intro newOp t hst
    rw [wp_bind, wp_get, wp_ite]
    refine ⟨fun _ => ?_, fun _ => ?_⟩
    · rw [wp_ite]
      exact ⟨fun _ => hcounted (hempty.trans hst) yields_startMessage,
        fun _ => .nothing (hempty.trans hst)⟩
    · exact hcounted (hempty.trans hst) (yields_process _)
  · intro ex t hst
    exact hfailed ex t (hempty.trans hst)

/-- The count goes down. -/
structure Lowers (n : Int) (s t : ConnectionI) : Prop where
  dispatchCount : t.dispatchCount = toInt (s.dispatchCount - n)
  finished : t.state = .finished ↔ s.state = .finished

/-- What comes after the decrease keeps the count. -/
theorem lowers_decrease {n : Int} {x : M Unit} (hx : Frame x) :
    Lowers n s (final (do decrease n; x) s) := by
  apply wp_final (P := fun t => Lowers n s t)
  rw [wp_bind, decrease, wp_modify]
  apply wp_mono (hx _)
  all_goals
    intro _ t hst
    exact ⟨hst.dispatchCount, hst.finished⟩

theorem frame_shutdownIfIdle : Frame shutdownIfIdle :=
  .get_bind fun s => .ite (fun _ => frame_initiateShutdown s) fun _ => Frame.pure s

theorem lowers_sendResponse (incoming : Incoming) :
    Lowers 1 s (final (sendResponse incoming) s) := by
  apply lowers_decrease
  refine .tryCatch (.get_bind fun t => .ite (fun _ => Frame.throw t) fun _ => ?_) frame_shut
  exact (frame_sendMessage _ t).bind fun _ => frame_shutdownIfIdle

theorem lowers_sendNoResponse : Lowers 1 s (final sendNoResponse s) := by
  apply lowers_decrease
  refine .tryCatch (.get_bind fun t => .ite (fun _ => Frame.throw t) fun _ => ?_) frame_shut
  exact frame_shutdownIfIdle t

/-- The requests of a call that fails are taken back together. -/
theorem lowers_invokeException (ex : LocalException) (n : Int) :
    Lowers n s (final (invokeException ex n) s) := by
  have hshut : SameCount s (s.shut ex) := by
    have hframe := frame_shut ex s
    rw [FrameAt, wp_setStateClosed] at hframe
    exact hframe
  apply wp_final (P := fun t => Lowers n s t)
  rw [invokeException, wp_bind, wp_setStateClosed, decrease, wp_modify]
  exact ⟨congrArg (fun c => toInt (c - n)) hshut.dispatchCount, hshut.finished⟩

theorem lowers_dispatched (call : DispatchCall) :
    Lowers call.dispatchedCount s (final (dispatched call) s) := by
  apply lowers_decrease
  exact .ite (.tryCatch frame_shutdownIfIdle frame_shut) .pure

/-- `finish` ends a connection that is closed, and counts nothing. -/
theorem finished_finish (hs : s.state = .closed) :
    (final finish s).state = .finished ∧ (final finish s).dispatchCount = s.dispatchCount := by
  let P (t : ConnectionI) : Prop := t.state = .finished ∧ t.dispatchCount = s.dispatchCount
  have hfinish : wp finish (fun _ => P) (fun _ => P) s := by
    simp only [finish, wp_bind, wp_modify, wp_get]
    apply wp_finishMessages
    apply wp_finishRequests
    apply wp_switchFinished
    · exact hs
    · exact ⟨rfl, rfl⟩
  exact wp_final hfinish

end Ice.Protocol.ConnectionI
