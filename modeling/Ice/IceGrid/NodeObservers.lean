import Mathlib.Data.Prod.Basic
import Ice.Lib.KeyedSet
import Ice.Lib.Transition

/-!
# Updates that a node sends to its observers

A node tells its observers about its servers and adapters: everything when an observer is added, and
every change from then on. One update of an observer is on its way at a time, the others wait behind
it. Sends are asynchronous, and those made before an observer was added again may still complete.
-/

namespace Ice.IceGrid.NodeObservers

inductive ServerState
  | inactive | activating | activationTimedOut | active | deactivating | destroying | destroyed
  deriving DecidableEq, Repr

structure ServerDynamicInfo (Id : Type) where
  id : Id
  state : ServerState
  pid : Int
  enabled : Bool
  deriving DecidableEq, Repr

/-- There is nothing to tell about a server that is destroyed, or that is inactive and may be
activated. -/
def ServerDynamicInfo.shown {Id : Type} (info : ServerDynamicInfo Id) : Bool :=
  !(info.state = .destroyed || (info.state = .inactive && info.enabled))

structure AdapterDynamicInfo (Id Proxy : Type) where
  id : Id
  proxy : Option Proxy
  deriving DecidableEq, Repr

def AdapterDynamicInfo.shown {Id Proxy : Type} (info : AdapterDynamicInfo Id Proxy) : Bool :=
  info.proxy.isSome

/-- What is sent to an observer -/
inductive Update (Id Proxy NodeInfo : Type)
  | nodeUp (info : NodeInfo) (servers : List (ServerDynamicInfo Id))
      (adapters : List (AdapterDynamicInfo Id Proxy))
  | updateServer (info : ServerDynamicInfo Id)
  | updateAdapter (info : AdapterDynamicInfo Id Proxy)

/-- `updates` is the queue of the observer, if there is one: updates with their addresses, the first
of which has been sent. The last fields are the history since the observer was added: where the
addresses began, which updates were queued and sent, and whether a send failed. -/
structure Channel (Id Proxy NodeInfo : Type) where
  updates : Option (List (Nat × Update Id Proxy NodeInfo))
  outstanding : List Nat
  since : Nat
  queued : List (Update Id Proxy NodeInfo)
  sent : List (Update Id Proxy NodeInfo)
  failed : Bool

namespace Channel

variable {Id Proxy NodeInfo : Type} (c : Channel Id Proxy NodeInfo)

/-- No updates, not even of a session before -/
def restart (fresh : Nat) : Channel Id Proxy NodeInfo :=
  { c with updates := none, since := fresh, queued := [], sent := [], failed := false }

/-- `queueUpdate` of an update at an address, where a send throws or does not -/
def queueUpdate (id : Nat) (update : Update Id Proxy NodeInfo) (send : Bool) :
    Channel Id Proxy NodeInfo :=
  let c := { c with queued := c.queued ++ [update] }
  match c.updates with
  | none =>
    if send then
      { c with
        updates := some [(id, update)]
        outstanding := c.outstanding ++ [id]
        sent := c.sent ++ [update] }
    else { c with failed := true }
  | some q => { c with updates := some (q ++ [(id, update)]) }

/-- `dequeueUpdate`, where the send of the next update throws or does not -/
def dequeueUpdate (id : Nat) (all send : Bool) : Channel Id Proxy NodeInfo :=
  match c.updates with
  | none => c
  | some [] => c
  | some ((front, _) :: q) =>
    if front ≠ id then c
    else if all then { c with updates := none }
    else
      match q with
      | [] => { c with updates := none }
      | (next, update) :: _ =>
        if send then
          { c with
            updates := some q
            outstanding := c.outstanding ++ [next]
            sent := c.sent ++ [update] }
        else { c with updates := none, failed := true }

/-- `Update::finished`, when a send completes -/
def finished (id : Nat) (success send : Bool) : Channel Id Proxy NodeInfo :=
  { c with
    outstanding := c.outstanding.erase id
    failed := c.failed || (!success && c.since ≤ id) }.dequeueUpdate id (!success) send

/-- Updates that are queued and not sent -/
def waiting : List (Update Id Proxy NodeInfo) :=
  match c.updates with
  | none => []
  | some q => q.tail.map Prod.snd

end Channel

structure State (Session Observer Id Proxy NodeInfo : Type) where
  observers : List (Session × Observer)
  serversDynamicInfo : List (ServerDynamicInfo Id)
  adaptersDynamicInfo : List (AdapterDynamicInfo Id Proxy)
  channel : Observer → Channel Id Proxy NodeInfo
  /-- The address of the next update -/
  fresh : Nat

/-- What happens: every call holds the mutex of the observers. `send` tells whose sends do not
throw. -/
inductive Label (Session Observer Id Proxy NodeInfo : Type)
  | addObserver (session : Session) (observer : Observer) (info : NodeInfo) (send : Bool)
  | removeObserver (session : Session)
  | observerUpdateServer (info : ServerDynamicInfo Id) (send : Observer → Bool)
  | observerUpdateAdapter (info : AdapterDynamicInfo Id Proxy) (send : Observer → Bool)
  | finished (observer : Observer) (id : Nat) (success send : Bool)

section

variable {Session Observer Id Proxy NodeInfo : Type} [LinearOrder Session] [DecidableEq Observer]
  [LinearOrder Id]

/-- A map of information by identity, when something is told: it is replaced, or removed. -/
def assign {α : Type} (key : α → Id) (shown : α → Bool) (info : α) (l : List α) : List α :=
  if shown info then Lib.insertBy key info (Lib.eraseBy key (key info) l)
  else Lib.eraseBy key (key info) l

def init : State Session Observer Id Proxy NodeInfo where
  observers := []
  serversDynamicInfo := []
  adaptersDynamicInfo := []
  channel _ := ⟨none, [], 0, [], [], false⟩
  fresh := 0

namespace State

variable (s : State Session Observer Id Proxy NodeInfo)

def queueUpdate (observer : Observer) (update : Update Id Proxy NodeInfo) (send : Bool) :
    State Session Observer Id Proxy NodeInfo :=
  { s with
    channel := Function.update s.channel observer
      ((s.channel observer).queueUpdate s.fresh update send)
    fresh := s.fresh + 1 }

/-- The loop over the observers; an observer with two sessions is told once. -/
def queueAll (update : Update Id Proxy NodeInfo) (send : Observer → Bool) :
    List (Session × Observer) → List Observer → State Session Observer Id Proxy NodeInfo →
      State Session Observer Id Proxy NodeInfo
  | [], _, s => s
  | (_, observer) :: rest, sent, s =>
    if observer ∈ sent then queueAll update send rest sent s
    else
      queueAll update send rest (observer :: sent) (s.queueUpdate observer update (send observer))

def addObserver (session : Session) (observer : Observer) (info : NodeInfo) (send : Bool) :
    State Session Observer Id Proxy NodeInfo :=
  { s with
    observers := Lib.insertBy Prod.fst (session, observer) s.observers
    channel := Function.update s.channel observer ((s.channel observer).restart s.fresh)
    }.queueUpdate observer (.nodeUp info s.serversDynamicInfo s.adaptersDynamicInfo) send

def observerUpdateServer (info : ServerDynamicInfo Id) (send : Observer → Bool) :
    State Session Observer Id Proxy NodeInfo :=
  queueAll (.updateServer info) send s.observers []
    { s with
      serversDynamicInfo :=
        assign ServerDynamicInfo.id ServerDynamicInfo.shown info s.serversDynamicInfo }

def observerUpdateAdapter (info : AdapterDynamicInfo Id Proxy) (send : Observer → Bool) :
    State Session Observer Id Proxy NodeInfo :=
  queueAll (.updateAdapter info) send s.observers []
    { s with
      adaptersDynamicInfo :=
        assign AdapterDynamicInfo.id AdapterDynamicInfo.shown info s.adaptersDynamicInfo }

end State

/-- An observer is added with a session that has none, which `addObserver` asserts, and what
completes is a send that has not completed yet. -/
def step (s : State Session Observer Id Proxy NodeInfo) :
    Label Session Observer Id Proxy NodeInfo → Option (State Session Observer Id Proxy NodeInfo)
  | .addObserver session observer info send =>
    if session ∈ s.observers.map Prod.fst then none
    else some (s.addObserver session observer info send)
  | .removeObserver session =>
    some { s with observers := Lib.eraseBy Prod.fst session s.observers }
  | .observerUpdateServer info send => some (s.observerUpdateServer info send)
  | .observerUpdateAdapter info send => some (s.observerUpdateAdapter info send)
  | .finished observer id success send =>
    if id ∈ (s.channel observer).outstanding then
      some { s with
        channel := Function.update s.channel observer
          ((s.channel observer).finished id success send) }
    else none

end

/-- What an observer makes of information in a sequence that it has -/
def told {Id α : Type} [DecidableEq Id] (key : α → Id) (shown : α → Bool) (info : α) :
    List α → List α
  | [] => if shown info then [info] else []
  | x :: l =>
    if key x = key info then if shown info then info :: l else l
    else x :: told key shown info l

/-- The servers and adapters after an update -/
def know {Id Proxy NodeInfo : Type} [DecidableEq Id]
    (known : List (ServerDynamicInfo Id) × List (AdapterDynamicInfo Id Proxy)) :
    Update Id Proxy NodeInfo →
      List (ServerDynamicInfo Id) × List (AdapterDynamicInfo Id Proxy)
  | .nodeUp _ servers adapters => (servers, adapters)
  | .updateServer info =>
    (told ServerDynamicInfo.id ServerDynamicInfo.shown info known.1, known.2)
  | .updateAdapter info =>
    (known.1, told AdapterDynamicInfo.id AdapterDynamicInfo.shown info known.2)

end Ice.IceGrid.NodeObservers
