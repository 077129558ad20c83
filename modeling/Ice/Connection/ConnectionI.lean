import Ice.Connection.WSTransceiver
import Ice.Streams.InputStream

/-!
# Connections

`ConnectionI`, in the build that does not use I/O completion ports. Every function here runs
with the connection locked; it throws a local exception and keeps what it has done before.
What the transceiver comes back with, and whether a callback wants to be called, is read from
two scripts.

`_writeStream` is swapped with the stream of the message at the front of `_sendStreams` when
that message is written and swapped back when it is sent, so all there is to it is whether it
holds that stream; the position is kept with the message.
-/

namespace Ice.Protocol

open Streams (toInt leNat)
open Connection (SocketOperation)

/-- The exceptions that are told apart; the last ones stand for all others of their kind. -/
inductive LocalException
  | closeConnection
  | connectionManuallyClosed (graceful : Bool)
  | communicatorDestroyed
  | objectAdapterDeactivated
  | connectTimeout
  | timeout
  | closeTimeout
  | connectionTimeout
  | invocationTimeout
  | invocationCanceled
  | datagramLimit
  | objectNotExist
  | requestFailed
  | marshal
  | unknown
  | socket
  | protocol
  | other
  deriving DecidableEq, Repr

namespace ConnectionI

inductive State
  | notInitialized
  | notValidated
  | active
  | holding
  | closing
  | closingPending
  | closed
  | finished
  deriving DecidableEq, Repr

/-- The place of a state in the enumeration. -/
def State.toNat : State → Nat
  | .notInitialized => 0
  | .notValidated => 1
  | .active => 2
  | .holding => 3
  | .closing => 4
  | .closingPending => 5
  | .closed => 6
  | .finished => 7

instance : LE State := ⟨fun a b => a.toNat ≤ b.toNat⟩

instance : DecidableLE State := fun a b => inferInstanceAs (Decidable (a.toNat ≤ b.toNat))

/-- What a message is. A request names the invocation, a reply the request it answers. -/
inductive Content
  | request (out : Nat)
  | reply (request : Nat) (requestId : Int)
  | closeConnection
  | validateConnection
  deriving DecidableEq, Repr

/-- Where the iterator of a stream that is written stands. -/
inductive Position
  | start
  | middle
  | finish
  deriving DecidableEq, Repr

structure OutgoingMessage where
  content : Content
  i : Position := .start
  outAsync : Option Nat := none
  requestId : Int := 0
  deriving DecidableEq, Repr

/-- How much of a stream a call of `write` takes. -/
inductive Taken
  | nothing
  | part
  | everything
  deriving DecidableEq, Repr

/-- What a call of the transceiver comes back with. -/
inductive Answer
  /-- `SocketOperationNone`: all is done. -/
  | done
  | wait (op : { op : SocketOperation // op ≠ .none }) (taken : Taken)
  | throws (ex : LocalException) (taken : Taken)
  deriving DecidableEq, Repr

/-- A message that was read: its type, and what follows the header after `doUncompress`. -/
structure IncomingMessage where
  messageType : UInt8
  body : Except LocalException (List UInt8)

/-- What the loop of `message` that reads ends with. -/
inductive Reading
  | wait (op : { op : SocketOperation // op.read = true })
  /-- A message is complete; `read` may have asked to be called when writing is possible. -/
  | complete (message : IncomingMessage) (onWrite : Bool)
  | throws (ex : LocalException)

/-- How an invocation comes to its end. -/
inductive Completion
  | response (requestId : Int) (is : List UInt8)
  | exception (ex : LocalException)
  | sent
  deriving DecidableEq, Repr

/-- What the results speak of. -/
inductive Event
  /-- A request was read; it is named by the length of the log. -/
  | received (request : Nat) (requestId : Int)
  /-- A servant is called for a request. -/
  | dispatched (request : Nat)
  /-- A message is given its place in the order in which messages are sent. -/
  | put (content : Content)
  /-- The transceiver took the last byte of a message. -/
  | wrote (content : Content)
  | accepted (out : Nat) (requestId : Int)
  /-- `sent` is what `_sent` of the invocation was. -/
  | completed (out : Nat) (how : Completion) (sent : Bool)
  deriving DecidableEq, Repr

/-- An invocation that `sendAsyncRequest` was called with. -/
structure OutgoingAsync where
  twoway : Bool
  requestId : Int
  sent : Bool := false
  deriving DecidableEq, Repr

/-- What `message` passes to `dispatch`. -/
structure DispatchCall where
  startCB : Bool := false
  sentCBs : List Nat := []
  outAsync : Option Nat := none
  heartbeatCallback : Bool := false
  request : Nat := 0
  requestId : Int := 0
  invokeNum : Int := 0
  deriving DecidableEq, Repr

/-- A request for which a servant was called and that is not completed. -/
structure Incoming where
  request : Nat
  requestId : Int
  response : Bool
  deriving DecidableEq, Repr

inductive AsyncStatus
  | queued
  | sent
  deriving DecidableEq, Repr

end ConnectionI

open ConnectionI

/-- A connection, with the calls of `dispatch` and the servants that are under way. -/
structure ConnectionI where
  /-- `_endpoint->datagram()` -/
  datagram : Bool
  state : State := .notInitialized
  exception : Option LocalException := none
  startCallback : Bool := false
  heartbeatCallback : Bool := false
  nextRequestId : Int := 1
  /-- The map, in the order of its keys. -/
  asyncRequests : List (Int × Nat) := []
  /-- The key of the entry that the iterator points to. -/
  asyncRequestsHint : Option Int := none
  sendStreams : List OutgoingMessage := []
  /-- `_writeStream` holds the stream of the message at the front. -/
  writing : Bool := false
  /-- A message that was read to its end and is still to be parsed. -/
  readStream : Option IncomingMessage := none
  dispatchCount : Int := 0
  shutdownInitiated : Bool := false
  /-- The callbacks that `sendNextMessage` collects. -/
  sentCBs : List Nat := []
  calls : List DispatchCall := []
  incomings : List Incoming := []
  outs : List OutgoingAsync := []
  answers : List Answer := []
  invokes : List Bool := []
  log : List Event := []

namespace ConnectionI

abbrev M := EStateM LocalException ConnectionI

def whenever (p : Prop) [Decidable p] (x : M Unit) : M Unit := if p then x else pure ()

def tell (events : List Event) : M Unit := modify fun s => { s with log := s.log ++ events }

/-- What the transceiver comes back with; it would block if the script is at its end. -/
def nextAnswer : M Answer :=
  modifyGet fun s =>
    (s.answers.headD (.wait ⟨.onWrite, by decide⟩ .nothing), { s with answers := s.answers.tail })

/-- Whether a callback is to be called. -/
def nextInvoke : M Bool :=
  modifyGet fun s => (s.invokes.headD true, { s with invokes := s.invokes.tail })

/-- Whether `_sent` of an invocation is set. -/
def isSent (s : ConnectionI) (out : Nat) : Bool := (s.outs[out]?.map (·.sent)).getD false

/-- An invocation comes to its end. -/
def complete (out : Nat) (how : Completion) : M Unit :=
  modify fun s => { s with log := s.log ++ [.completed out how (s.isSent out)] }

/-- `OutgoingAsync::sent`: an invocation that waits for no response is done. -/
def asyncSent (out : Nat) : M Bool := do
  modify fun s => { s with outs := s.outs.modify out fun r => { r with sent := true } }
  let s ← get
  whenever (s.outs[out]?.map (·.twoway) = some false) (complete out .sent)
  nextInvoke

/-- `OutgoingAsync::exception` -/
def asyncException (out : Nat) (ex : LocalException) : M Unit := complete out (.exception ex)

/-- `OutgoingAsync::response`; true if the callback is to be called. -/
def asyncResponse (out : Nat) (requestId : Int) (is : List UInt8) : M Bool := do
  complete out (.response requestId is)
  nextInvoke

namespace OutgoingMessage

/-- `sent` -/
def sent (message : OutgoingMessage) : M Bool :=
  match message.outAsync with
  | some out => asyncSent out
  | none => pure false

/-- `completed` -/
def completed (message : OutgoingMessage) (ex : LocalException) : M Unit :=
  match message.outAsync with
  | some out => asyncException out ex
  | none => pure ()

/-- The message after so much of it was taken. -/
def taken (message : OutgoingMessage) : Taken → OutgoingMessage
  | .nothing => message
  | .part => if message.i = .start then { message with i := .middle } else message
  | .everything => { message with i := .finish }

/-- What is to be told of a message of which so much was taken. -/
def told (message : OutgoingMessage) (taken : Taken) : List Event :=
  if message.i ≠ .finish ∧ taken = .everything then [.wrote message.content] else []

end OutgoingMessage

def Answer.taken : Answer → Taken
  | .done => .everything
  | .wait _ taken => taken
  | .throws _ taken => taken

/-- The operations to wait for, or the exception. -/
def Answer.result : Answer → M SocketOperation
  | .done => pure .none
  | .wait op _ => pure op
  | .throws ex _ => throw ex

/-- The test of the switch statement of `setState`. -/
def State.canSwitch : State → State → Bool
  | _, .notInitialized => false
  | old, .notValidated => old = .notInitialized
  | old, .active => old = .holding || old = .notValidated
  | old, .holding => old = .active || old = .notValidated
  | old, .closing => old.toNat < State.closingPending.toNat
  | old, .closingPending => old.toNat < State.closingPending.toNat
  | old, .closed => old ≠ .finished
  | _, .finished => true

/-- The state that `setState` goes to when it is asked for `state`. -/
def target (s : ConnectionI) (state : State) : State :=
  let state := if s.datagram ∧ state = .closing then .closed else state
  if s.state ≤ .notValidated ∧ state = .closing then .closed else state

/-- `setState(State)` up to the initiation of the shutdown; true if the state was switched. -/
def switchState (state : State) : M Bool := do
  let s ← get
  if s.state = s.target state ∨ ¬s.state.canSwitch (s.target state) then return false
  else
    set { s with state := s.target state }
    return true

/-- `setState(State, const LocalException&)` for a state after which no shutdown is initiated. -/
def setStateClosed (state : State) (ex : LocalException) : M Unit := do
  let s ← get
  if s.state ≠ state then
    set { s with exception := s.exception <|> some ex }
    let _ ← switchState state

/-- `sendMessage` -/
def sendMessage (message : OutgoingMessage) : M AsyncStatus := do
  tell [.put message.content]
  let s ← get
  if s.sendStreams ≠ [] then
    set { s with sendStreams := s.sendStreams ++ [message] }
    return .queued
  else
    let answer ← nextAnswer
    tell (message.told answer.taken)
    let op ← answer.result
    if op = .none then
      let _ ← message.sent
      return .sent
    else
      modify fun s => { s with sendStreams := [message.taken answer.taken], writing := true }
      return .queued

/-- `_transceiver->closing` -/
def closing : M SocketOperation := do
  let answer ← nextAnswer
  answer.result

/-- `initiateShutdown` -/
def initiateShutdown : M Unit := do
  let s ← get
  if ¬s.shutdownInitiated then
    set { s with shutdownInitiated := true }
    if ¬s.datagram then
      let status ← sendMessage { content := .closeConnection }
      if status = .sent then
        let _ ← switchState .closingPending
        let _ ← closing

/-- `setState(State)` -/
def setState (state : State) : M Unit := do
  if ← switchState state then
    let s ← get
    if s.state = .closing ∧ s.dispatchCount = 0 then
      tryCatch initiateShutdown (setStateClosed .closed)

/-- `setState(State, const LocalException&)` -/
def setStateWith (state : State) (ex : LocalException) : M Unit := do
  let s ← get
  if s.state ≠ state then
    set { s with exception := s.exception <|> some ex }
    setState state

/-- `sendHeartbeatNow` -/
def sendHeartbeatNow : M Unit := do
  let s ← get
  if ¬s.datagram then
    tryCatch (do let _ ← sendMessage { content := .validateConnection }) (setStateClosed .closed)

/-- So much of `_writeStream` was taken. -/
def takeNext (taken : Taken) : M Unit := do
  let s ← get
  match s.sendStreams with
  | message :: rest =>
    if s.writing then
      set { s with
            sendStreams := message.taken taken :: rest
            log := s.log ++ message.told taken }
  | [] => pure ()

/-- `write(_writeStream)` -/
def writeNext : M SocketOperation := do
  let answer ← nextAnswer
  takeNext answer.taken
  answer.result

/-- The message at the front was sent: it is notified and removed. -/
def popSent (message : OutgoingMessage) (rest : List OutgoingMessage) : M Unit := do
  modify fun s => { s with writing := false }
  let invoke ← message.sent
  modify fun s =>
    { s with
      sentCBs := if invoke then s.sentCBs ++ message.outAsync.toList else s.sentCBs
      sendStreams := rest }

/-- All the messages were sent. -/
def allSent : M Unit := do
  let s ← get
  if s.state = .closing ∧ s.shutdownInitiated then
    let _ ← switchState .closingPending
    let _ ← closing

/-- The loop of `sendNextMessage`, for the messages in `_sendStreams`. -/
def sendLoop : List OutgoingMessage → M Unit
  | [] => pure ()
  | message :: rest => do
    popSent message rest
    match rest with
    | [] => allSent
    | next :: others =>
      let s ← get
      if .closingPending ≤ s.state then pure ()
      else
        set { s with sendStreams := { next with i := .start } :: others, writing := true }
        let op ← writeNext
        if op = .none then sendLoop rest

/-- `sendNextMessage`; the callbacks are collected in the state. -/
def sendNextMessage : M Unit := do
  let s ← get
  match s.sendStreams with
  | [] => pure ()
  | message :: _ =>
    -- A message of which nothing was written is taken out of `_writeStream`.
    if s.state = .closingPending ∧ (s.writing = false ∨ message.i = .start) then
      set { s with writing := !s.writing }
    else tryCatch (sendLoop s.sendStreams) (setStateClosed .closed)

/-- The request id of the next request. -/
def requestIdFor (s : ConnectionI) (response : Bool) : Int :=
  if response then if s.nextRequestId ≤ 0 then 1 else s.nextRequestId else 0

/-- `map::insert`: an entry that is there is kept. -/
def insertRequest (requestId : Int) (out : Nat) : List (Int × Nat) → List (Int × Nat)
  | [] => [(requestId, out)]
  | (key, value) :: rest =>
    if requestId < key then (requestId, out) :: (key, value) :: rest
    else if requestId = key then (key, value) :: rest
    else (key, value) :: insertRequest requestId out rest

/-- `map::erase` -/
def eraseRequest (requestId : Int) (requests : List (Int × Nat)) : List (Int × Nat) :=
  requests.filter fun p => p.1 ≠ requestId

/-- A request is added to `_asyncRequests`. -/
def addRequest (requestId : Int) (out : Nat) : M Unit :=
  modify fun s =>
    { s with
      asyncRequests := insertRequest requestId out s.asyncRequests
      asyncRequestsHint := some requestId }

/-- The message of a new invocation, with a new request id if it waits for a response. -/
def newRequest (response : Bool) : M OutgoingMessage :=
  modifyGet fun s =>
    let out := s.outs.length
    let requestId := s.requestIdFor response
    ({ content := .request out, outAsync := some out, requestId := requestId },
      { s with
        nextRequestId := if response then toInt (requestId + 1) else s.nextRequestId
        outs := s.outs ++ [{ twoway := response, requestId := requestId }] })

/-- An exception of `sendMessage` closes the connection, and that of the connection is thrown. -/
def sendRequest (message : OutgoingMessage) : M AsyncStatus :=
  tryCatch (sendMessage message) fun ex => do
    setStateClosed .closed ex
    let s ← get
    throw (s.exception.getD ex)

/-- `sendAsyncRequest`; nothing is returned when it throws `RetryException`. `refused` is what
`checkSendSize` or `cancelable` throws. -/
def sendAsyncRequest (response : Bool) (refused : Option LocalException) :
    M (Option AsyncStatus) := do
  let s ← get
  match s.exception, refused with
  | some _, _ => pure none
  | none, some ex => throw ex
  | none, none =>
    let message ← newRequest response
    let status ← sendRequest message
    whenever response (addRequest message.requestId s.outs.length)
    tell [.accepted s.outs.length message.requestId]
    return some status

/-- The entry that `_asyncRequestsHint` points to is that of an invocation. -/
def hintIs (s : ConnectionI) (out : Nat) : Bool :=
  (s.asyncRequestsHint.bind fun key => s.asyncRequests.lookup key) = some out

/-- The request of a message of `_sendStreams` is erased from `_asyncRequests`. -/
def eraseQueued (out : Nat) (requestId : Int) : M Unit :=
  modify fun s =>
    if s.hintIs out then
      { s with
        asyncRequests := eraseRequest (s.asyncRequestsHint.getD 0) s.asyncRequests
        asyncRequestsHint := none }
    else { s with asyncRequests := eraseRequest requestId s.asyncRequests }

/-- `canceled` for the message at a position: at the front it stays without the invocation. -/
def cancelQueued (index : Nat) : M Unit :=
  modify fun s =>
    { s with
      sendStreams :=
        if index = 0 then s.sendStreams.modify 0 fun m => { m with outAsync := none }
        else s.sendStreams.eraseIdx index }

/-- `asyncRequestCanceled`, when the message is in `_sendStreams`. -/
def cancelUnsent (out : Nat) (ex : LocalException) (index : Nat) (message : OutgoingMessage) :
    M Unit := do
  whenever (message.requestId ≠ 0) (eraseQueued out message.requestId)
  if ex = .connectionTimeout then setStateClosed .closed ex
  else
    cancelQueued index
    asyncException out ex

/-- `asyncRequestCanceled`, when the message was sent. -/
def cancelSent (out : Nat) (ex : LocalException) : M Unit := do
  let s ← get
  if s.hintIs out then
    if ex = .connectionTimeout then setStateClosed .closed ex
    else
      set { s with
            asyncRequests := eraseRequest (s.asyncRequestsHint.getD 0) s.asyncRequests
            asyncRequestsHint := none }
      asyncException out ex
  else
    match s.asyncRequests.find? fun p => p.2 = out with
    | some p =>
      if ex = .connectionTimeout then setStateClosed .closed ex
      else
        set { s with asyncRequests := eraseRequest p.1 s.asyncRequests }
        asyncException out ex
    | none => pure ()

/-- `asyncRequestCanceled` -/
def asyncRequestCanceled (out : Nat) (ex : LocalException) : M Unit := do
  let s ← get
  if .closed ≤ s.state then pure ()
  else
    match s.sendStreams.findIdx? fun m => m.outAsync = some out with
    | some index =>
      match s.sendStreams[index]? with
      | some message => cancelUnsent out ex index message
      | none => pure ()
    | none => cancelSent out ex

def requestMsg : UInt8 := 0

def requestBatchMsg : UInt8 := 1

def replyMsg : UInt8 := 2

def validateConnectionMsg : UInt8 := 3

def closeConnectionMsg : UInt8 := 4

/-- `read(Int&)` -/
def readInt : List UInt8 → Except LocalException (Int × List UInt8)
  | a :: b :: c :: d :: rest => .ok (toInt (leNat [a, b, c, d]), rest)
  | _ => .error .marshal

/-- What `parseMessage` gives to `message`. -/
structure Parsed where
  call : DispatchCall := {}
  dispatchCount : Int := 0

/-- The peer closes the connection: it is closed once the transceiver has nothing more to do. -/
def closeReceived : M Unit := do
  setStateClosed .closingPending .closeConnection
  let op ← closing
  whenever (op = .none) do
    let _ ← switchState .closed

/-- The case of `closeConnectionMsg` -/
def parseCloseConnection : M Parsed := do
  let s ← get
  whenever (¬s.datagram) closeReceived
  return {}

/-- The case of `requestMsg` -/
def parseRequest (body : List UInt8) : M Parsed := do
  let s ← get
  match readInt body with
  | .error ex => if .closing ≤ s.state then pure {} else throw ex
  | .ok (requestId, _) =>
    tell [.received s.log.length requestId]
    if .closing ≤ s.state then return {}
    else
      return {
        call := { request := s.log.length, requestId := requestId, invokeNum := 1 }
        dispatchCount := 1 }

/-- The case of `requestBatchMsg` -/
def parseRequestBatch (body : List UInt8) : M Parsed := do
  let s ← get
  if .closing ≤ s.state then return {}
  else
    match readInt body with
    | .error ex => throw ex
    | .ok (invokeNum, _) =>
      if invokeNum < 0 then throw .marshal
      else
        tell [.received s.log.length 0]
        return {
          call := { request := s.log.length, invokeNum := invokeNum }
          dispatchCount := invokeNum }

/-- The entry of a request is erased, and the iterator that pointed to it goes on to the next. -/
def eraseReplied (requestId : Int) (s : ConnectionI) : ConnectionI :=
  let rest := eraseRequest requestId s.asyncRequests
  { s with
    asyncRequests := rest
    asyncRequestsHint :=
      if s.asyncRequestsHint = some requestId then
        (rest.find? fun p => requestId < p.1).map (·.1)
      else s.asyncRequestsHint }

/-- The case of `replyMsg` -/
def parseReply (body : List UInt8) : M Parsed := do
  match readInt body with
  | .error ex => throw ex
  | .ok (requestId, is) =>
    let s ← get
    match s.asyncRequests.lookup requestId with
    | none => return {}
    | some out =>
      modify (eraseReplied requestId)
      if ← asyncResponse out requestId is then
        return { call := { outAsync := some out }, dispatchCount := 1 }
      else return {}

/-- The case of `validateConnectionMsg` -/
def parseValidateConnection : M Parsed := do
  let s ← get
  if s.heartbeatCallback then
    return { call := { heartbeatCallback := true }, dispatchCount := 1 }
  else return {}

/-- The switch statement of `parseMessage` -/
def parse (message : IncomingMessage) : M Parsed :=
  match message.body with
  | .error ex => throw ex
  | .ok body =>
    if message.messageType = closeConnectionMsg then parseCloseConnection
    else if message.messageType = requestMsg then parseRequest body
    else if message.messageType = requestBatchMsg then parseRequestBatch body
    else if message.messageType = replyMsg then parseReply body
    else if message.messageType = validateConnectionMsg then parseValidateConnection
    else throw .protocol

/-- `parseMessage` -/
def parseMessage (message : IncomingMessage) : M Parsed := do
  modify fun s => { s with readStream := none }
  tryCatch (parse message) fun ex => do
    let s ← get
    if s.datagram then return {}
    else
      setStateClosed .closed ex
      return {}

/-- The loop of `message` that reads: a complete message waits in `_readStream`. -/
def receive (reading : Reading) : M SocketOperation :=
  match reading with
  | .wait op => pure op
  | .complete message onWrite => do
    modify fun s => { s with readStream := s.readStream <|> some message }
    return ⟨false, onWrite⟩
  | .throws ex => throw ex

/-- `initialize()` -/
def initialization : M Bool := do
  let answer ← nextAnswer
  let op ← answer.result
  if op = .none then
    let _ ← switchState .notValidated
    return true
  else return false

/-- `validate`, with the exceptions that a bad header causes among the answers. -/
def validate : M Bool := do
  let s ← get
  if s.datagram then return true
  else
    let answer ← nextAnswer
    let op ← answer.result
    return op = .none

/-- `initialize()` if that was not done, then `validate()`. -/
def establish : M Bool := do
  let s ← get
  let ready ← if s.state = .notInitialized then initialization else pure true
  if ready then validate else pure false

/-- `start` -/
def start (callback : Bool) : M Unit :=
  tryCatch
    (do
      let s ← get
      if .closed ≤ s.state then throw (s.exception.getD .other)
      else if ← establish then setState .holding
      else modify fun s => { s with startCallback := callback })
    (setStateClosed .closed)

/-- The part of `message` before the connection is validated. -/
def startMessage : M Parsed := do
  if ← establish then
    setState .holding
    let s ← get
    set { s with startCallback := false }
    if s.startCallback then return { call := { startCB := true }, dispatchCount := 1 }
    else return {}
  else return {}

/-- The operations of `a` that are not in `b`. -/
def without (a b : SocketOperation) : SocketOperation := ⟨a.read && !b.read, a.write && !b.write⟩

/-- Writing, then reading; the operations to wait for. -/
def transfer (operation : SocketOperation) (reading : Reading) : M SocketOperation := do
  let writeOp ← if operation.write then writeNext else pure .none
  let readOp ← if operation.read then receive reading else pure .none
  return ⟨readOp.read || writeOp.read, readOp.write || writeOp.write⟩

/-- What was read is parsed. -/
def parseReady (readyOp : SocketOperation) : M Parsed := do
  let s ← get
  match s.readStream with
  | some message => if readyOp.read then parseMessage message else return {}
  | none => return {}

/-- What was read is parsed, then what can be written is sent. -/
def process (readyOp : SocketOperation) : M Parsed := do
  let parsed ← parseReady readyOp
  whenever readyOp.write sendNextMessage
  let s ← get
  if s.sentCBs ≠ [] then
    return {
      call := { parsed.call with sentCBs := s.sentCBs }
      dispatchCount := toInt (parsed.dispatchCount + 1) }
  else return parsed

/-- What is to be dispatched is counted. -/
def count (parsed : Parsed) : M Unit :=
  modify fun s =>
    if parsed.dispatchCount = 0 then s
    else
      { s with
        dispatchCount := toInt (s.dispatchCount + parsed.dispatchCount)
        calls := s.calls ++ [parsed.call] }

/-- The handlers of `message` -/
def messageFailed (ex : LocalException) : M Unit := do
  let s ← get
  if ex = .datagramLimit ∨ (s.datagram ∧ ex ≠ .socket) then set { s with readStream := none }
  else setStateClosed .closed ex

/-- The block of `message` that throws. -/
def messageReady (operation : SocketOperation) (reading : Reading) : M Unit := do
  let newOp ← transfer operation reading
  let s ← get
  if s.state ≤ .notValidated then
    if newOp = .none then
      let parsed ← startMessage
      count parsed
  else
    let parsed ← process (without operation newOp)
    count parsed

/-- `message`, up to the call of `dispatch` -/
def message (operation : SocketOperation) (reading : Reading) : M Unit := do
  let s ← get
  if .closed ≤ s.state then pure ()
  else
    set { s with sentCBs := [] }
    tryCatch (messageReady operation reading) messageFailed

/-- The callbacks of a call of `dispatch` -/
def DispatchCall.dispatchedCount (call : DispatchCall) : Int :=
  (if call.startCB then 1 else 0) + (if call.sentCBs ≠ [] then 1 else 0) +
    (if call.outAsync.isSome then 1 else 0) + (if call.heartbeatCallback then 1 else 0)

/-- `_dispatchCount -= n` -/
def decrease (n : Int) : M Unit :=
  modify fun s => { s with dispatchCount := toInt (s.dispatchCount - n) }

/-- The shutdown is initiated when the last dispatch is completed. -/
def shutdownIfIdle : M Unit := do
  let s ← get
  if s.state = .closing ∧ s.dispatchCount = 0 then initiateShutdown

/-- `sendResponse` -/
def sendResponse (incoming : Incoming) : M Unit := do
  decrease 1
  tryCatch
    (do
      let s ← get
      if .closed ≤ s.state then throw (s.exception.getD .other)
      else
        let _ ← sendMessage { content := .reply incoming.request incoming.requestId }
        shutdownIfIdle)
    (setStateClosed .closed)

/-- `sendNoResponse` -/
def sendNoResponse : M Unit := do
  decrease 1
  tryCatch
    (do
      let s ← get
      if .closed ≤ s.state then throw (s.exception.getD .other)
      else shutdownIfIdle)
    (setStateClosed .closed)

/-- `invokeException` -/
def invokeException (ex : LocalException) (invokeNum : Int) : M Unit := do
  setStateClosed .closed ex
  decrease invokeNum

/-- The end of `dispatch` -/
def dispatched (call : DispatchCall) : M Unit := do
  decrease call.dispatchedCount
  if 0 < call.dispatchedCount then tryCatch shutdownIfIdle (setStateClosed .closed)

/-- A message of `_sendStreams` is completed when the connection is finished. -/
def finishMessage (ex : LocalException) (message : OutgoingMessage) : M Unit := do
  message.completed ex
  if message.requestId ≠ 0 then
    modify fun s => { s with asyncRequests := eraseRequest message.requestId s.asyncRequests }

/-- `finish` -/
def finish : M Unit := do
  modify fun s => { s with startCallback := false }
  let s ← get
  let ex := s.exception.getD .other
  s.sendStreams.forM (finishMessage ex)
  modify fun s => { s with sendStreams := [], writing := false }
  let s ← get
  s.asyncRequests.forM fun p => asyncException p.2 ex
  modify fun s => { s with asyncRequests := [], readStream := none, heartbeatCallback := false }
  let _ ← switchState .finished

/-- `timedOut` -/
def timedOut : M Unit := do
  let s ← get
  if s.state ≤ .notValidated then setStateClosed .closed .connectTimeout
  else if s.state.toNat < State.closing.toNat then setStateClosed .closed .timeout
  else if s.state.toNat < State.closed.toNat then setStateClosed .closed .closeTimeout

inductive ConnectionClose
  | forcefully
  | gracefully
  | gracefullyWithWait
  deriving DecidableEq, Repr

/-- `close`; the last mode is taken up when `_asyncRequests` is empty. -/
def close (mode : ConnectionClose) : M Unit :=
  match mode with
  | .forcefully => setStateClosed .closed (.connectionManuallyClosed false)
  | .gracefully => setStateWith .closing (.connectionManuallyClosed true)
  | .gracefullyWithWait => do
    let s ← get
    if s.asyncRequests = [] then setStateWith .closing (.connectionManuallyClosed true)

inductive DestructionReason
  | objectAdapterDeactivated
  | communicatorDestroyed
  deriving DecidableEq, Repr

/-- `destroy` -/
def destroy (reason : DestructionReason) : M Unit :=
  match reason with
  | .objectAdapterDeactivated => setStateWith .closing .objectAdapterDeactivated
  | .communicatorDestroyed => setStateWith .closing .communicatorDestroyed

/-- `activate` -/
def activate : M Unit := do
  let s ← get
  if s.state ≤ .notValidated then pure () else setState .active

/-- `hold` -/
def hold : M Unit := do
  let s ← get
  if s.state ≤ .notValidated then pure () else setState .holding

/-- `exception` -/
def failed (ex : LocalException) : M Unit := setStateClosed .closed ex

/-- `setHeartbeatCallback` -/
def setHeartbeatCallback (callback : Bool) : M Unit :=
  modify fun s =>
    if .closed ≤ s.state then s else { s with heartbeatCallback := callback }

inductive ACMHeartbeat
  | off
  | onDispatch
  | onIdle
  | always
  deriving DecidableEq, Repr

inductive ACMClose
  | off
  | onIdle
  | onInvocation
  | onInvocationAndIdle
  | onIdleForceful
  deriving DecidableEq, Repr

/-- What `monitor` looks at besides the state: the configuration, whether there was no activity
for a quarter of the timeout and for all of it, whether a message is being read and whether the
batch request queue is empty. -/
structure Inactivity where
  heartbeat : ACMHeartbeat
  close : ACMClose
  quarter : Bool
  timeout : Bool
  reading : Bool
  batchEmpty : Bool
  deriving DecidableEq, Repr

/-- The heartbeat of `monitor` -/
def monitorHeartbeat (acm : Inactivity) : M Unit := do
  let s ← get
  if acm.heartbeat = .always ∨ (acm.heartbeat ≠ .off ∧ s.writing = false ∧ acm.quarter) then
    if acm.heartbeat ≠ .onDispatch ∨ 0 < s.dispatchCount then sendHeartbeatNow

/-- The closure of `monitor` -/
def monitorClose (acm : Inactivity) : M Unit := do
  let s ← get
  if ¬acm.reading ∧ s.writing = false ∧ acm.close ≠ .off ∧ acm.timeout then
    if acm.close = .onIdleForceful ∨ (acm.close ≠ .onIdle ∧ s.asyncRequests ≠ []) then
      setStateClosed .closed .connectionTimeout
    else if acm.close ≠ .onInvocation ∧ s.dispatchCount = 0 ∧ acm.batchEmpty ∧
        s.asyncRequests = [] then
      setStateWith .closing .connectionTimeout

/-- `monitor` -/
def monitor (acm : Inactivity) : M Unit := do
  let s ← get
  if s.state = .active then
    monitorHeartbeat acm
    monitorClose acm

end ConnectionI

end Ice.Protocol
