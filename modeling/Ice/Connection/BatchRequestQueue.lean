import Ice.Lib.Concurrent

/-!
# The queue of batch requests

`BatchRequestQueue` and the calls that proxies make to it. A member that takes the lock
is a sequence of actions between locking and unlocking; `finishBatchRequest` works on
the queue without the lock, and each of its statements is an action. So is each
statement of `swap`, which another thread may run in the middle of it.
-/

namespace Ice.Connection

open Ice.Lib

/-- `magic`, the versions, the message type and the places for compression, size and number. -/
def requestBatchHdr : List UInt8 :=
  [0x49, 0x63, 0x65, 0x50, 1, 0, 1, 0, 1, 0, 0, 0, 0, 0, 0, 0, 0, 0]

/-- What is marshaled for a request, and the compression its proxy asks for. -/
structure Request where
  bytes : List UInt8
  compressOverride : Option Bool
  deriving DecidableEq, Repr

inductive Exception
  | ice
  | std
  deriving DecidableEq, Repr

structure BatchRequestQueue where
  interceptor : Bool
  maxSize : Nat
  batchStream : List UInt8 := requestBatchHdr
  batchStreamInUse : Bool := false
  batchStreamCanFlush : Bool := false
  batchCompress : Bool := false
  batchRequestNum : Nat := 0
  batchMarker : Nat := requestBatchHdr.length
  exception : Option Exception := none
  deriving DecidableEq, Repr

/-- `BatchRequestQueue::BatchRequestQueue`; `udpSndSize` is the property `Ice.UDP.SndSize`. -/
def BatchRequestQueue.new (interceptor : Bool) (batchAutoFlushSize : Nat) (datagram : Bool)
    (udpSndSize : Int) : BatchRequestQueue :=
  { interceptor
    maxSize :=
      -- the cast to `size_t` makes a negative size a large one
      if 0 < batchAutoFlushSize ∧ datagram ∧ 0 ≤ udpSndSize ∧ udpSndSize < batchAutoFlushSize then
        udpSndSize.toNat
      else batchAutoFlushSize }

/-- What a call of `swap` hands out. -/
structure Batch where
  stream : List UInt8
  compress : Bool
  requestNum : Nat
  deriving DecidableEq, Repr

/-- A queue with its mutex. The rest is the history of a run and read by no code: the requests
in the order in which they were counted, the batches in the order in which they were handed
out, and whether some thread is between the first and the last statement that counts a request
or takes a batch. -/
structure State where
  queue : BatchRequestQueue
  locked : Bool := false
  editing : Bool := false
  finished : List Request := []
  batches : List Batch := []
  deriving DecidableEq, Repr

/-- The actions that conditions on runs speak about. -/
inductive Point
  | internal
  | swap
  | count
  | abort (owner : Bool)
  deriving DecidableEq, Repr

abbrev Task := Program State Point Exception

/-- One action that computes a result and a new state. -/
def perform {α : Type} (f : State → α × State) : Task α :=
  .act .internal fun s => [(.ok (f s).1, (f s).2)]

def read {α : Type} (f : BatchRequestQueue → α) : Task α := perform fun s => (f s.queue, s)

def modify (f : BatchRequestQueue → BatchRequestQueue) : Task Unit :=
  perform fun s => ((), { s with queue := f s.queue })

/-- One of two things happens. -/
def choose : Task Bool := .act .internal fun s => [(.ok true, s), (.ok false, s)]

/-- A statement that may throw before it has done anything. -/
def mayThrow : Task Unit :=
  .act .internal fun s => [(.ok (), s), (.error .ice, s), (.error .std, s)]

/-- `try { ... } catch(const Ice::Exception&) { ... }` -/
def catchIce {α : Type} (body handler : Task α) : Task α :=
  tryCatch body fun ex => if ex = .ice then handler else throw ex

/-- The mutex is not recursive. -/
def lock : Task Unit :=
  .act .internal fun s => if s.locked then [] else [(.ok (), { s with locked := true })]

def unlock : Task Unit := perform fun s => ((), { s with locked := false })

/-- `Lock sync(*this)` -/
def withLock {α : Type} (body : Task α) : Task α := do
  lock
  body.ensuring unlock

/-- `vector::resize`; what new bytes hold is not specified. -/
def resize (n : Nat) (b : List UInt8) : List UInt8 := b.take n ++ List.replicate (n - b.length) 0

namespace BatchRequestQueue

/-- The condition of the loop in `waitStreamInUse`. -/
def busy (flush : Bool) (q : BatchRequestQueue) : Bool :=
  q.batchStreamInUse && !(flush && q.batchStreamCanFlush)

/-- `waitStreamInUse(flush)` and, in the same action, what follows it. A thread that waits may
wake at any time and looks at the condition again. -/
def waitStreamInUse {α : Type} (flush : Bool) (l : Point) (f : State → α × State) : Task α :=
  .loop do
    match ← .act l fun s =>
        if s.queue.busy flush then [(.ok none, s)] else [(.ok (some (f s).1), (f s).2)] with
    | some a => return some a
    | none => do
      unlock
      lock
      return none

/-- `prepareBatchRequest(os)` with an empty stream: what is in the stream then. -/
def prepareBatchRequest : Task (List UInt8) :=
  withLock do
    match ← read fun q => q.exception with
    | some ex => throw ex
    | none =>
      waitStreamInUse false .internal fun s => (s.queue.batchStream,
        { s with queue := { s.queue with batchStreamInUse := true, batchStream := [] } })

/-- Cut off what follows the marker: a request that is not counted yet. -/
def takeLastRequest : Task (List UInt8) := do
  if ← read fun q => decide (q.batchMarker < q.batchStream.length) then
    let lastRequest ← read fun q => q.batchStream.drop q.batchMarker
    modify fun q => { q with batchStream := resize q.batchMarker q.batchStream }
    return lastRequest
  else return []

/-- What `swap` does to the queue after its wait, and the batch it hands out. -/
def takeBatch : Task Nat := do
  let lastRequest ← takeLastRequest
  let requestNum ← read fun q => q.batchRequestNum
  let os ← perform fun s =>
    (s.queue.batchStream, { s with queue := { s.queue with batchStream := [] } })
  let compress ← read fun q => q.batchCompress
  modify fun q => { q with batchRequestNum := 0 }
  modify fun q => { q with batchCompress := false }
  modify fun q => { q with batchStream := q.batchStream ++ requestBatchHdr }
  modify fun q => { q with batchMarker := q.batchStream.length }
  perform fun s => (requestNum,
    { s with
      queue := { s.queue with batchStream := s.queue.batchStream ++ lastRequest }
      editing := false
      batches := s.batches ++ [⟨os, compress, requestNum⟩] })

/-- `swap(os, compress)` with an empty stream -/
def swap : Task Nat :=
  withLock do
    if (← read fun q => q.batchRequestNum) = 0 then
      return 0
    waitStreamInUse true .swap fun s => ((), { s with editing := true })
    takeBatch

/-- `enqueueBatchRequest`, and what `finishBatchRequest` does where there is no interceptor. -/
def enqueueBatchRequest (request : Request) : Task Unit := do
  .act .count fun s => [(.ok (), { s with
    queue := { s.queue with
      batchCompress := s.queue.batchCompress || request.compressOverride = some true }
    editing := true })]
  modify fun q => { q with batchMarker := q.batchStream.length }
  perform fun s => ((), { s with
    queue := { s.queue with batchRequestNum := s.queue.batchRequestNum + 1 }
    editing := false
    finished := s.finished ++ [request] })

/-- `ice_flushBatchRequests` of a proxy of this queue; sending the batch may throw. -/
def flushBatchRequests : Task Unit :=
  catchIce
    (do
      mayThrow
      let _ ← swap
      mayThrow)
    mayThrow

/-- An interceptor may flush as often as it wants. -/
def flushSome : Task Unit :=
  .loop do
    if ← choose then
      flushBatchRequests
      return none
    else return some ()

/-- An interceptor may enqueue the request, once, and flush again. -/
def enqueueOrNot (request : Request) : Task Unit := do
  if ← choose then
    enqueueBatchRequest request
    flushSome

/-- What an interceptor does with a request; it may throw at any time. -/
def intercept (request : Request) : Task Unit := do
  flushSome
  enqueueOrNot request
  mayThrow

/-- The automatic flush of a batch that has reached its maximum size. -/
def flushFull : Task Unit := do
  if ← read fun q => 0 < q.maxSize && q.maxSize ≤ q.batchStream.length then
    flushBatchRequests

/-- The request is handed to the interceptor, or counted. -/
def deliver (request : Request) : Task Unit := do
  if ← read fun q => q.interceptor then
    intercept request
  else enqueueBatchRequest request

/-- The end of `finishBatchRequest`, with and without an exception. -/
def endUse : Task Unit :=
  withLock <| modify fun q => { q with
    batchStream := resize q.batchMarker q.batchStream
    batchStreamInUse := false
    batchStreamCanFlush := false }

/-- `finishBatchRequest(os, proxy, operation)` -/
def finishBatchRequest (os : List UInt8) (request : Request) : Task Unit := do
  modify fun q => { q with batchStream := os }
  tryCatch
    (do
      modify fun q => { q with batchStreamCanFlush := true }
      flushFull
      deliver request
      endUse)
    fun ex => do
      endUse
      throw ex

/-- `abortBatchRequest(os)`; `owner` says whether the caller has the stream in use. -/
def abortBatchRequest (owner : Bool) (os : List UInt8) : Task Unit :=
  withLock <| .act (.abort owner) fun s => [(.ok (),
    if s.queue.batchStreamInUse then { s with
      queue := { s.queue with
        batchStream := resize s.queue.batchMarker os
        batchStreamInUse := false } }
    else s)]

/-- `destroy(ex)` -/
def destroy (ex : Exception) : Task Unit :=
  withLock <| modify fun q => { q with exception := some ex }

/-- `isEmpty()` -/
def isEmpty : Task Bool :=
  withLock <| read fun q => q.batchStream.length = requestBatchHdr.length

end BatchRequestQueue

/-- What proxies, connections and their users do with a queue. -/
inductive Operation
  | invoke (request : Request)
  | abandon (request : Request)
  | flush
  | destroy (ex : Exception)
  | isEmpty
  deriving DecidableEq

open BatchRequestQueue

/-- A batch invocation of `OutgoingAsync`; `marshals` is false where marshaling throws after it
has written the bytes of the request. The handler of `Ice::Exception` aborts the request, also
where the stream was not prepared or is finished already. -/
def OutgoingAsync.invoke (request : Request) (marshals : Bool) : Task Unit := do
  let prepared ←
    catchIce
      (do
        mayThrow
        let os ← prepareBatchRequest
        return some os)
      (do
        abortBatchRequest false []
        return none)
  match prepared with
  | none => pure ()
  | some os =>
    if marshals then
      catchIce (finishBatchRequest (os ++ request.bytes) request) (abortBatchRequest false [])
    else abortBatchRequest true (os ++ request.bytes)

/-- The program of an operation. -/
def Operation.run : Operation → Task Unit
  | .invoke request => OutgoingAsync.invoke request true
  | .abandon request => OutgoingAsync.invoke request false
  | .flush => flushBatchRequests
  | .destroy ex => BatchRequestQueue.destroy ex
  | .isEmpty => do let _ ← BatchRequestQueue.isEmpty

/-- A queue, what was done with it, and the operations that run on it. -/
abbrev Queue := Machine State Point Exception Operation

def Queue.fresh (queue : BatchRequestQueue) : Queue := ⟨{ queue }, []⟩

def Queue.move : Queue → Move Operation → Option Queue := Machine.move Operation.run

end Ice.Connection
