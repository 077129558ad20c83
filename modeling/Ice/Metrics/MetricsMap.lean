import Mathlib.Logic.Function.Basic
import Ice.Lib.Transition

/-!
# Metrics maps

A metrics map has an entry for each key that its observers are grouped by. An entry without
observers is detached; as many of them as the map retains are kept in a queue. An entry stands for
its address here, and a position in the queue for the node of the list.
-/

namespace Ice.Metrics

/-- `EntryT` with its metrics object -/
structure Entry (Key : Type) where
  id : Key
  current : Nat
  total : Nat
  totalLifetime : Int
  failures : Nat
  failuresByName : String → Nat
  /-- No node is the end of the queue. -/
  detachedPos : Option Nat

/-- `MetricsMapT`. Memory for entries and nodes is in use below `freshEntry` and `freshNode`. An
entry of `observers` is attached to an observer that has not been detached, one of `leaving` to an
observer that is being replaced; `broken` tells that an assertion failed. The last fields are the
history: which entries were attached, and when each was detached. -/
structure State (Key : Type) where
  retain : Nat
  destroyed : Bool
  entries : Nat → Entry Key
  freshEntry : Nat
  objects : Key → Option Nat
  detachedQueue : List (Nat × Nat)
  freshNode : Nat
  observers : List Nat
  leaving : List Nat
  broken : Bool
  attachments : List Nat
  detachedAt : Nat → Nat
  clock : Nat

namespace State

variable {Key : Type} (s : State Key)

/-- Changes an entry. -/
def modify (e : Nat) (f : Entry Key → Entry Key) : State Key :=
  { s with entries := Function.update s.entries e (f (s.entries e)) }

/-- `assert` -/
def assert (p : Bool) : State Key := { s with broken := s.broken || !p }

/-- `EntryT::attach` -/
def attach (e : Nat) : State Key :=
  s.modify e fun entry => { entry with total := entry.total + 1, current := entry.current + 1 }

section

variable [DecidableEq Key]

/-- A new entry for a key -/
def insert (key : Key) : State Key :=
  { s with
    entries := Function.update s.entries s.freshEntry ⟨key, 0, 0, 0, 0, fun _ => 0, none⟩
    freshEntry := s.freshEntry + 1
    objects := Function.update s.objects key (some s.freshEntry) }

/-- `getMatching`. There is no key where the filters reject the helper, or an attribute fails. -/
def getMatching (key : Option Key) (previous : Option Nat) : State Key × Option Nat :=
  match key with
  | none => (s, none)
  | some key =>
    if s.destroyed then (s, none)
    else if previous.any fun e => (s.entries e).id = key then
      (s.assert (s.objects key = previous), previous)
    else
      match s.objects key with
      | some e => (s.attach e, some e)
      | none => ((s.insert key).attach s.freshEntry, some s.freshEntry)

/-- Removes the entries from the queue that are no longer detached. -/
def compress : State Key :=
  { s with
    entries := fun e =>
      if e ∈ s.detachedQueue.map Prod.snd ∧ (s.entries e).current ≠ 0 then
        { s.entries e with detachedPos := none }
      else s.entries e
    detachedQueue := s.detachedQueue.filter fun p => (s.entries p.2).current = 0 }

/-- Removes the oldest entry. -/
def evict : State Key :=
  match s.detachedQueue with
  | [] => s
  | (_, front) :: q =>
    { s with
      objects := Function.update s.objects (s.entries front).id none
      detachedQueue := q }

/-- Adds an entry at the back of the queue. -/
def pushBack (e : Nat) : State Key :=
  { s.modify e fun entry => { entry with detachedPos := some s.freshNode } with
    detachedQueue := s.detachedQueue ++ [(s.freshNode, e)]
    freshNode := s.freshNode + 1 }

/-- Moves a node to the back of the queue. -/
def splice (node : Nat) : State Key :=
  { s with
    detachedQueue :=
      s.detachedQueue.filter (fun p => p.1 ≠ node) ++ s.detachedQueue.filter fun p => p.1 = node }

/-- `detached` -/
def detached (e : Nat) : State Key :=
  if s.retain = 0 ∨ s.destroyed then s
  else
    let s := s.assert (s.detachedQueue.length ≤ s.retain)
    match (s.entries e).detachedPos with
    | some node =>
      if s.detachedQueue.getLast?.map Prod.fst ≠ some node then
        let s := s.splice node
        s.modify e fun entry =>
          { entry with detachedPos := s.detachedQueue.getLast?.map Prod.fst }
      else s
    | none =>
      let s := if s.detachedQueue.length = s.retain then s.compress else s
      let s := if s.detachedQueue.length = s.retain then s.evict else s
      s.pushBack e

/-- `EntryT::detach` -/
def detach (e : Nat) (lifetime : Int) : State Key :=
  let s := s.modify e fun entry =>
    { entry with totalLifetime := entry.totalLifetime + lifetime, current := entry.current - 1 }
  if (s.entries e).current = 0 then
    { s with
      detachedAt := Function.update s.detachedAt e s.clock
      clock := s.clock + 1 }.detached e
  else s

/-- `EntryT::failed` -/
def failed (e : Nat) (exceptionName : String) : State Key :=
  s.modify e fun entry =>
    { entry with
      failures := entry.failures + 1
      failuresByName := Function.update entry.failuresByName exceptionName
        (entry.failuresByName exceptionName + 1) }

/-- `MetricsMapT::destroy` -/
def destroy : State Key :=
  { s with destroyed := true, objects := fun _ => none, detachedQueue := [] }

end

end State

/-- An empty map that retains `n` entries -/
def init {Key : Type} [Inhabited Key] (n : Nat) : State Key where
  retain := n
  destroyed := false
  entries _ := ⟨default, 0, 0, 0, 0, fun _ => 0, none⟩
  freshEntry := 0
  objects _ := none
  detachedQueue := []
  freshNode := 0
  observers := []
  leaving := []
  broken := false
  attachments := []
  detachedAt _ := 0
  clock := 1

/-- What happens to a map. An observer that is replaced by another one has two steps: the new one is
made, and `init` detaches an entry of the old one that the new one does not have. -/
inductive Label (Key : Type)
  | create (key : Option Key)
  | update (e : Nat) (key : Option Key)
  | release (e : Nat) (previousDelay : Int)
  | detach (e : Nat) (lifetime : Int)
  | failed (e : Nat) (exceptionName : String)
  | destroy

variable {Key : Type} [DecidableEq Key]

def step (s : State Key) : Label Key → Option (State Key)
  | .create key =>
    match s.getMatching key none with
    | (s, none) => some s
    | (s, some e) =>
      some { s with observers := e :: s.observers, attachments := e :: s.attachments }
  | .update e key =>
    if e ∈ s.observers then
      match s.getMatching key (some e) with
      | (s, none) => some { s with observers := s.observers.erase e, leaving := e :: s.leaving }
      | (s, some e') =>
        if e' = e then some s
        else
          some { s with
            observers := e' :: s.observers.erase e
            leaving := e :: s.leaving
            attachments := e' :: s.attachments }
    else none
  | .release e previousDelay =>
    if e ∈ s.leaving then
      some { s.detach e previousDelay with leaving := s.leaving.erase e }
    else none
  | .detach e lifetime =>
    if e ∈ s.observers then
      some { s.detach e lifetime with observers := s.observers.erase e }
    else none
  | .failed e exceptionName =>
    if e ∈ s.observers then some (s.failed e exceptionName) else none
  | .destroy => some s.destroy

end Ice.Metrics
