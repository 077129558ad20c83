import Ice.Connection.ConnectionI
import Ice.Lib.Transition

/-!
# Runs of a connection

Every function of a connection locks it, so a run takes one call after the other, in any order,
with the steps of the threads that dispatch and of the servants in between. A servant that
answers at once is one that is completed before anything else happens.
-/

namespace Ice.Protocol

open Connection (SocketOperation)

open Lib

namespace ConnectionI

/-- What happens to a connection. -/
inductive Call
  | start (callback : Bool)
  | activate
  | hold
  | close (mode : ConnectionClose)
  | destroy (reason : DestructionReason)
  | monitor (acm : Inactivity)
  | timedOut
  | exception (ex : LocalException)
  | setHeartbeatCallback (callback : Bool)
  | sendAsyncRequest (response : Bool) (refused : Option LocalException)
  | asyncRequestCanceled (out : Nat) (ex : LocalException)
  | message (operation : SocketOperation) (reading : Reading)
  /-- One turn of the loop of `invokeAll` for a call of `dispatch`; `failure` is the exception
  that reading the request throws. -/
  | invoke (index : Nat) (failure : Option LocalException)
  /-- The end of a call of `dispatch`. -/
  | dispatched (index : Nat)
  /-- A servant is completed, with a result or an exception that is sent. -/
  | respond (index : Nat)
  /-- A servant is completed with an exception that is fatal. -/
  | fail (index : Nat) (ex : LocalException)
  | finish

/-- A call, what the transceiver comes back with and which callbacks want to be called. -/
structure Turn where
  call : Call
  answers : List Answer := []
  invokes : List Bool := []

/-- One turn of the loop of `invokeAll` -/
def invoke (index : Nat) (call : DispatchCall) (failure : Option LocalException) : M Unit :=
  match failure with
  | some ex => do
    modify fun s => { s with calls := s.calls.set index { call with invokeNum := 0 } }
    invokeException ex call.invokeNum
  | none =>
    modify fun s =>
      { s with
        calls := s.calls.set index { call with invokeNum := call.invokeNum - 1 }
        incomings :=
          s.incomings ++
            [{ request := call.request
               requestId := call.requestId
               response := !s.datagram && call.requestId ≠ 0 }]
        log := s.log ++ [.dispatched call.request] }

def endDispatch (index : Nat) (call : DispatchCall) : M Unit := do
  modify fun s => { s with calls := s.calls.eraseIdx index }
  dispatched call

/-- `response` or `exception` of a request for which a servant was called -/
def respond (index : Nat) (incoming : Incoming) : M Unit := do
  modify fun s => { s with incomings := s.incomings.eraseIdx index }
  if incoming.response then sendResponse incoming else sendNoResponse

def fail (index : Nat) (ex : LocalException) : M Unit := do
  modify fun s => { s with incomings := s.incomings.eraseIdx index }
  invokeException ex 1

/-- What a call does, if it can be made. -/
def program (s : ConnectionI) : Call → Option (M Unit)
  | .start callback => some (start callback)
  | .activate => some activate
  | .hold => some hold
  | .close mode => some (close mode)
  | .destroy reason => some (destroy reason)
  | .monitor acm => some (monitor acm)
  | .timedOut => some timedOut
  | .exception ex => some (failed ex)
  | .setHeartbeatCallback callback => some (setHeartbeatCallback callback)
  | .sendAsyncRequest response refused =>
    some do
      let _ ← sendAsyncRequest response refused
  | .asyncRequestCanceled out ex => some (asyncRequestCanceled out ex)
  | .message operation reading => some (message operation reading)
  | .invoke index failure =>
    match s.calls[index]? with
    | some call => if 0 < call.invokeNum then some (invoke index call failure) else none
    | none => none
  | .dispatched index =>
    match s.calls[index]? with
    | some call => if 0 < call.invokeNum then none else some (endDispatch index call)
    | none => none
  | .respond index => s.incomings[index]?.map (respond index)
  | .fail index ex => s.incomings[index]?.map fun _ => fail index ex
  | .finish => if s.state = .closed then some finish else none

/-- The state after a turn. -/
def step (s : ConnectionI) (turn : Turn) : Option ConnectionI :=
  (s.program turn.call).map fun x =>
    final x { s with answers := turn.answers, invokes := turn.invokes }

/-- The messages of a log in the order in which they are sent. -/
def puts (log : List Event) : List Content :=
  log.filterMap fun
    | .put content => some content
    | _ => none

/-- The messages of a log that were written. -/
def wrotes (log : List Event) : List Content :=
  log.filterMap fun
    | .wrote content => some content
    | _ => none

/-- What closing a connection gracefully promises: the requests that were read before
`CloseConnection` is put into the order of the messages are answered before it or no servant is
called for them; no message is put behind it or written after it, and no servant is called. -/
structure Truthful (log : List Event) : Prop where
  answered : ∀ before after, log = before ++ .put .closeConnection :: after →
    ∀ request requestId, .received request requestId ∈ before → requestId ≠ 0 →
      .dispatched request ∉ log ∨ .put (.reply request requestId) ∈ before
  last : ∀ before after, log = before ++ .put .closeConnection :: after →
    (∀ content, .put content ∉ after) ∧ ∀ request, .dispatched request ∉ after
  ordered : (wrotes log).Sublist (puts log)
  silent : ∀ before after, log = before ++ .wrote .closeConnection :: after →
    ∀ content, .wrote content ∉ after

end ConnectionI

end Ice.Protocol
