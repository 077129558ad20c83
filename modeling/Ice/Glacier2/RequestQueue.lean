import Ice.Lib.Transition

/-!
# Buffered forwarding

A router in buffered mode queues the requests that it forwards, and a thread of its own flushes
the queues. A queue towards servers is flushed at once. A queue towards a client stops at the
first request that is not sent, and goes on when the callbacks of that send are called.

A call has the mutex of the queue and is one action. What the requests carry is left out, and so
are the observers, and the batch queues of the proxies.
-/

namespace Ice.Glacier2.Buffered

inductive Mode
  | twoway
  | oneway
  | datagram
  | batchOneway
  | batchDatagram
  deriving DecidableEq, Repr

/-- What `operator==` compares is the reference with its mode; the address is that of the object. -/
structure ObjectPrx where
  reference : Nat
  mode : Mode
  address : Nat
  deriving DecidableEq, Repr

def ObjectPrx.isTwoway (p : ObjectPrx) : Bool := p.mode = .twoway

def ObjectPrx.isBatch (p : ObjectPrx) : Bool := p.mode = .batchOneway ∨ p.mode = .batchDatagram

def ObjectPrx.eq (p q : ObjectPrx) : Bool := p.reference = q.reference ∧ p.mode = q.mode

structure Request where
  proxy : ObjectPrx
  override : String
  deriving DecidableEq, Repr

def Request.hasOverride (request : Request) : Bool := !request.override.isEmpty

/-- `override`: twoway requests are never replaced, as each of them expects a response. -/
def Request.overrides (request other : Request) : Bool :=
  if request.override.isEmpty || other.override.isEmpty then false
  else if request.proxy.isTwoway || other.proxy.isTwoway then false
  else if request.override ≠ other.override then false
  else request.proxy.eq other.proxy

/-- `addBatchProxy`: requests for equal proxies are queued with one proxy object. -/
def Request.addBatchProxy (request : Request) (batchProxies : List ObjectPrx) :
    Request × List ObjectPrx :=
  match batchProxies.find? (·.eq request.proxy) with
  | none => (request, batchProxies ++ [request.proxy])
  | some p => ({ request with proxy := p }, batchProxies)

/-- A queue, which has a connection if it is one towards a client. Requests are named by their
numbers. The rest is history: which requests were accepted, which held the places of the queue,
in their order, which were invoked, and which were replaced by which. -/
structure RequestQueue where
  connection : Bool
  callback : Bool := true
  requests : List Nat := []
  batchProxies : List ObjectPrx := []
  pendingSend : Bool := false
  pendingSendRequest : Option Nat := none
  destroyed : Bool := false
  accepted : List Nat := []
  places : List Nat := []
  invoked : List Nat := []
  replaced : List (Nat × Nat) := []
  deriving Repr

/-- The thread has a list of queues for itself while it flushes them. -/
structure RequestQueueThread where
  destroyed : Bool := false
  sleep : Bool := false
  queues : List Nat := []
  flushing : List Nat := []
  ended : Bool := false
  deriving Repr

/-- A request that was invoked, or a flush of batch requests. It is outstanding until it was sent
or has failed; it completes with a response or an exception. -/
structure Send where
  queue : Nat
  request : Option Nat
  sentDue : Bool
  outstanding : Bool
  completes : Bool
  deriving DecidableEq, Repr

/-- The queues of a router, all requests that were dispatched, what was invoked, and the requests
whose AMD callbacks were called. -/
structure State where
  queues : List RequestQueue
  thread : RequestQueueThread := {}
  requests : List Request := []
  sends : List Send := []
  answers : List Nat := []

/-- How an asynchronous invocation begins: it is sent at once, its callbacks are under way, it is
not sent yet, or it throws. -/
inductive Outcome
  | sentSynchronously
  | completed (failed : Bool)
  | pending
  | throws
  deriving DecidableEq, Repr

/-- What callbacks are to come for an invocation -/
def Outcome.send (queue : Nat) (request : Option Nat) (twoway : Bool) : Outcome → Option Send
  | .sentSynchronously => some ⟨queue, request, false, false, twoway⟩
  | .completed failed => some ⟨queue, request, !failed, true, failed || twoway⟩
  | .pending => some ⟨queue, request, true, true, true⟩
  | .throws => none

namespace State

def isTwoway (s : State) (r : Nat) : Bool := s.requests[r]?.any (·.proxy.isTwoway)

def isBatch (s : State) (r : Nat) : Bool := s.requests[r]?.any (·.proxy.isBatch)

def setQueue (s : State) (i : Nat) (q : RequestQueue) : State :=
  { s with queues := s.queues.set i q }

/-- The AMD callback of a request is called. -/
def answer (s : State) (r : Nat) : State := { s with answers := s.answers ++ [r] }

/-- `queued`: a request that is not twoway is answered when it is queued. -/
def queued (s : State) (r : Nat) : State := if s.isTwoway r then s else s.answer r

/-- The place of the first request that is overridden by another one -/
def overridden (s : State) (q : RequestQueue) (request : Request) : Option Nat :=
  if request.hasOverride then
    q.requests.findIdx? fun r => s.requests[r]?.any request.overrides
  else none

/-- `addRequest`, called with a request that gets the next number. Where it throws, the AMD
callback is called with the exception. -/
def addRequest (s : State) (i : Nat) (q : RequestQueue) (request : Request) : State :=
  let r := s.requests.length
  let refused (request : Request) := { s with requests := s.requests ++ [request] }.answer r
  if q.destroyed then refused request
  else
    match s.overridden q request with
    | some k =>
      let old := q.requests[k]?.getD 0
      let s := { s with requests := s.requests ++ [request] }.queued r
      s.setQueue i { q with
        requests := q.requests.set k r
        accepted := q.accepted ++ [r]
        places := q.places.set (q.invoked.length + k) r
        replaced := q.replaced ++ [(old, r)] }
    | none =>
      let added := if q.connection then (request, q.batchProxies)
        else request.addBatchProxy q.batchProxies
      let idle := q.requests.isEmpty && (!q.connection || !q.pendingSend)
      let q := { q with batchProxies := added.2 }
      -- `flushRequestQueue` throws if the thread is destroyed.
      if idle && s.thread.destroyed then (refused added.1).setQueue i q
      else
        let thread := if idle then { s.thread with queues := s.thread.queues ++ [i] }
          else s.thread
        let s := { s with thread, requests := s.requests ++ [added.1] }.queued r
        s.setQueue i { q with
          requests := q.requests ++ [r]
          accepted := q.accepted ++ [r]
          places := q.places ++ [r] }

/-- What a loop of `flush` has done: it stops at a request that is not sent. -/
structure Flushed where
  invoked : List Nat
  rest : List Nat
  pending : Option Nat
  flushBatchRequests : Bool

/-- The loop of `flush`; an exception is ignored. -/
def flushLoop (s : State) (outcome : Nat → Outcome) : List Nat → Flushed
  | [] => ⟨[], [], none, false⟩
  | r :: rest =>
    if s.isBatch r then
      let f := flushLoop s outcome rest
      { f with
        invoked := r :: f.invoked
        flushBatchRequests := outcome r ≠ .throws || f.flushBatchRequests }
    else if outcome r = .pending then ⟨[r], rest, some r, false⟩
    else
      let f := flushLoop s outcome rest
      { f with invoked := r :: f.invoked }

/-- The asynchronous invocations of some requests; batch requests are invoked synchronously. -/
def sendsOf (s : State) (i : Nat) (outcome : Nat → Outcome) (invoked : List Nat) : List Send :=
  invoked.filterMap fun r =>
    if s.isBatch r then none else (outcome r).send i (some r) (s.isTwoway r)

/-- `flush` of a queue towards a client; flushing the batch requests may throw. -/
def flush (s : State) (i : Nat) (q : RequestQueue) (outcome : Nat → Outcome) (batch : Outcome) :
    State × Bool :=
  let f := s.flushLoop outcome q.requests
  let flushed := if f.flushBatchRequests then (batch.send i none false).toList else []
  let waits := f.flushBatchRequests && batch = .pending
  ({ s with sends := s.sends ++ s.sendsOf i outcome f.invoked ++ flushed }.setQueue i { q with
      requests := f.rest
      pendingSend := waits || f.pending.isSome
      pendingSendRequest := if waits then none else f.pending
      invoked := q.invoked ++ f.invoked },
    f.flushBatchRequests && batch = .throws)

/-- All requests of a queue towards servers are invoked, and the batch proxies are flushed, which
may throw. -/
def forward (s : State) (i : Nat) (q : RequestQueue) (outcome : Nat → Outcome) (batch : Outcome) :
    State × Bool :=
  let throws := !q.batchProxies.isEmpty && batch = .throws
  ({ s with sends := s.sends ++ s.sendsOf i outcome q.requests }.setQueue i { q with
      requests := []
      batchProxies := if throws then q.batchProxies else []
      invoked := q.invoked ++ q.requests },
    throws)

end State

/-- `destroyInternal`, unless there are requests -/
def RequestQueue.destroyIfEmpty (q : RequestQueue) : RequestQueue :=
  if q.requests.isEmpty then { q with callback := false } else q

namespace State

/-- The end of `flushRequests` -/
def finishDestroy (s : State) (i : Nat) : State :=
  match s.queues[i]? with
  | none => s
  | some q => if q.destroyed then s.setQueue i q.destroyIfEmpty else s

def flushRequests (s : State) (i : Nat) (q : RequestQueue) (outcome : Nat → Outcome)
    (batch : Outcome) : State × Bool :=
  if q.connection && q.pendingSend then (s, false)
  else
    let flushed := if q.connection then s.flush i q outcome batch else s.forward i q outcome batch
    if flushed.2 then flushed else (flushed.1.finishDestroy i, false)

/-- `destroy` of a queue -/
def destroyQueue (s : State) (i : Nat) (q : RequestQueue) : State :=
  s.setQueue i { q with destroyed := true }.destroyIfEmpty

/-- What a callback of a send does first: if the send was the one the queue waits for, the queue
is flushed. -/
def resume (s : State) (send : Send) (outcome : Nat → Outcome) (batch : Outcome) : State × Bool :=
  match s.queues[send.queue]? with
  | none => (s, false)
  | some q =>
    if q.connection ∧ send.request = q.pendingSendRequest then s.flush send.queue q outcome batch
    else (s, false)

/-- Is the send one of a twoway request? -/
def expectsResponse (s : State) (send : Send) : Bool := send.request.any s.isTwoway

/-- The request of a send is answered, if it is twoway. -/
def answerSend (s : State) (send : Send) : State :=
  match send.request with
  | none => s
  | some r => if s.isTwoway r then s.answer r else s

end State

/-- A request is dispatched, a queue or the thread is destroyed, the thread takes the queues that
are registered and flushes them one after the other, and callbacks are called. -/
inductive Action
  | addRequest (queue : Nat) (request : Request)
  | destroyQueue (queue : Nat)
  | destroyThread
  | wakeUp
  | take
  | flushRequests (outcome : Nat → Outcome) (batch : Outcome)
  | sent (send : Nat) (outcome : Nat → Outcome) (batch : Outcome)
  | response (send : Nat)
  | exception (send : Nat) (outcome : Nat → Outcome) (batch : Outcome)

/-- One step; `sleepTime` says whether the thread sleeps between two rounds. -/
def step (sleepTime : Bool) (s : State) : Action → Option State
  | .addRequest i request => s.queues[i]?.map fun q => s.addRequest i q request
  | .destroyQueue i => s.queues[i]?.map (s.destroyQueue i)
  | .destroyThread => some { s with thread := { s.thread with destroyed := true, sleep := false } }
  | .wakeUp => some { s with thread := { s.thread with sleep := false } }
  | .take =>
    if s.thread.ended ∨ s.thread.flushing ≠ [] then none
    else if s.thread.destroyed ∧ s.thread.queues = [] then
      some { s with thread := { s.thread with ended := true } }
    else if s.thread.destroyed = false ∧ (s.thread.queues = [] ∨ s.thread.sleep = true) then none
    else
      some { s with thread := { s.thread with
        flushing := s.thread.queues
        queues := []
        sleep := sleepTime } }
  | .flushRequests outcome batch =>
    match s.thread.flushing with
    | [] => none
    | i :: rest => do
      let q ← s.queues[i]?
      match s.flushRequests i q outcome batch with
      | (s, false) => some { s with thread := { s.thread with flushing := rest } }
      -- The exception ends the thread.
      | (s, true) => some { s with thread := { s.thread with flushing := [], ended := true } }
  | .sent k outcome batch => do
    let send ← s.sends[k]?
    if send.sentDue then
      let completes := send.completes && s.expectsResponse send
      let done := { send with sentDue := false, outstanding := false, completes }
      some ({ s with sends := s.sends.set k done }.resume send outcome batch).1
    else none
  | .response k => do
    let send ← s.sends[k]?
    if send.completes ∧ s.expectsResponse send then
      some ({ s with sends := s.sends.set k { send with completes := false } }.answerSend send)
    else none
  | .exception k outcome batch => do
    let send ← s.sends[k]?
    if send.completes then
      let done := { send with outstanding := false, completes := false }
      match { s with sends := s.sends.set k done }.resume send outcome batch with
      | (s, false) => some (s.answerSend send)
      | (s, true) => some s
    else none

/-- Queues towards clients and servers, without requests -/
def State.initial (connections : List Bool) : State :=
  { queues := connections.map fun connection => { connection } }

/-- The queue will be flushed: it is registered, the thread has it, or a callback is to come for
the send it waits for. -/
def State.Attended (s : State) (i : Nat) (q : RequestQueue) : Prop :=
  i ∈ s.thread.queues ∨ i ∈ s.thread.flushing ∨
    q.connection = true ∧ q.pendingSend = true ∧
      ∃ send ∈ s.sends, send.queue = i ∧ send.request = q.pendingSendRequest ∧
        send.outstanding = true

/-- Requests are invoked in the order of their places; each that was accepted waits, was invoked
or was replaced, and only one of these; it is replaced by a later one that overrides it. The AMD
callback of a request is called once: at once, or, for a twoway request, when what was invoked
for it completes. A queue with requests is attended to. -/
structure Forwarded (s : State) : Prop where
  ordered : ∀ q ∈ s.queues, q.invoked ++ q.requests = q.places
  once : ∀ q ∈ s.queues, ∀ r ∈ q.accepted,
    q.invoked.count r + q.requests.count r + (q.replaced.map (·.1)).count r = 1
  replaced : ∀ q ∈ s.queues, ∀ p ∈ q.replaced, p.1 < p.2 ∧ ∃ old new : Request,
    s.requests[p.1]? = some old ∧ s.requests[p.2]? = some new ∧ new.overrides old = true
  answered : ∀ r < s.requests.length, s.answers.count r ≤ 1 ∧
    (s.answers.count r = 0 → s.isTwoway r = true ∧
      ((∃ q ∈ s.queues, r ∈ q.requests) ∨
        ∃ send ∈ s.sends, send.request = some r ∧ send.completes = true))
  attended : ∀ i q, s.queues[i]? = some q → q.requests ≠ [] → s.Attended i q
  asserted : ∀ q ∈ s.queues, q.requests ≠ [] → q.callback = true

/-- What the queues rely on: an asynchronous invocation of a twoway request does not throw, nor does
an asynchronous flush of batch requests. They hand their exceptions to the callback, and the thread
of the queues is joined before the communicator is destroyed. -/
def Returns (s : State) (outcome : Nat → Outcome) (batch : Outcome) : Prop :=
  batch ≠ .throws ∧ ∀ r < s.requests.length, s.isTwoway r = true → outcome r ≠ .throws

instance (s : State) (outcome : Nat → Outcome) (batch : Outcome) :
    Decidable (Returns s outcome batch) :=
  inferInstanceAs (Decidable (batch ≠ .throws ∧
    ∀ r < s.requests.length, s.isTwoway r = true → outcome r ≠ .throws))

/-- What a step relies on -/
def Careful (s : State) : Action → Prop
  | .flushRequests outcome batch => Returns s outcome batch
  | .sent _ outcome batch => Returns s outcome batch
  | .exception _ outcome batch => Returns s outcome batch
  | _ => True

instance (s : State) (a : Action) : Decidable (Careful s a) :=
  match a with
  | .flushRequests outcome batch => inferInstanceAs (Decidable (Returns s outcome batch))
  | .sent _ outcome batch => inferInstanceAs (Decidable (Returns s outcome batch))
  | .exception _ outcome batch => inferInstanceAs (Decidable (Returns s outcome batch))
  | .addRequest _ _ => isTrue trivial
  | .destroyQueue _ => isTrue trivial
  | .destroyThread => isTrue trivial
  | .wakeUp => isTrue trivial
  | .take => isTrue trivial
  | .response _ => isTrue trivial

end Ice.Glacier2.Buffered
