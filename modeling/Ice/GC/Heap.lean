import Mathlib.Data.List.ReduceOption
import Ice.Lib.Traversal
import Ice.Lib.Transition

/-!
# Objects that can be collected

The heap of `GCObject` instances, with their reference counts, flags and members, the visitors that
follow the members, and what happens when a handle is released. All visitors are loops over the
visits that are still to be made.
-/

namespace Ice.GC

open Function (update)

/-- The objects are numbered; `outside` counts the handles to an object that are no members. -/
structure State where
  size : Nat := 0
  ref : Nat → Int := fun _ => 0
  collectable : Nat → Bool := fun _ => false
  cycleMember : Nat → Bool := fun _ => false
  noDelete : Nat → Bool := fun _ => false
  members : Nat → List (Option Nat) := fun _ => []
  outside : Nat → Nat := fun _ => 0
  deleted : List Nat := []
  failed : Bool := false

namespace State

variable (s : State)

/-- The members that `_iceGcVisitMembers` visits -/
def handles (o : Nat) : List Nat := (s.members o).reduceOption

/-- So many members there are. -/
def total : Nat := ∑ o ∈ Finset.range s.size, (s.handles o).length

/-- `assert` -/
def check (p : Prop) [Decidable p] : State := { s with failed := s.failed || !decide p }

end State

theorem check_of {s : State} {P : Prop} [Decidable P] (h : P) : s.check P = s := by
  unfold State.check
  rw [decide_eq_true h, Bool.not_true, Bool.or_false]

/-- `GCCountMap` -/
abbrev Counts := Nat → Option Int

/-- `DecreaseRefCounts::visit` -/
def decreaseRefCount (s : State) (obj : Nat) (counts : Counts) : List Nat × Counts :=
  match counts obj with
  | none =>
    (if s.collectable obj then s.handles obj else [],
      update counts obj (some (s.ref obj - 1)))
  | some n => ([], update counts obj (some (n - 1)))

/-- `RestoreRefCountsIfReachable::visit`, with `_reachable` as it is when the visit is made -/
def restoreRefCount (s : State) (visit : Nat × Bool) (counts : Counts) :
    List (Nat × Bool) × Counts :=
  match counts visit.1 with
  | none => ([], counts)
  | some n =>
    if visit.2 then
      ((s.handles visit.1).map (·, true), update counts visit.1 none)
    else if n = 0 then
      ((s.handles visit.1).map (·, false), update counts visit.1 (some (-1)))
    else if 0 < n then
      ((s.handles visit.1).map (·, true), update counts visit.1 none)
    else ([], counts)

namespace State

variable (s : State)

def decreaseRefCounts (obj : Nat) : Counts :=
  (Lib.traverse (decreaseRefCount s) (1 + s.total) [obj] fun _ => none).2

def restoreRefCounts (obj : Nat) (counts : Counts) : Counts :=
  (Lib.traverse (restoreRefCount s) (1 + 2 * s.total) [(obj, false)] counts).2

/-- The objects that are still in the map -/
def keys (counts : Counts) : List Nat := (List.range s.size).filter fun o => (counts o).isSome

/-- `collect`, up to where the lock is released: the objects that are to be deleted, if there are
any, and whether the assertions hold. -/
def collect (obj : Nat) : Option (List Nat) × Bool :=
  let counts := s.decreaseRefCounts obj
  match counts obj with
  | none => (none, false)
  | some n =>
    if 0 < n then (none, true)
    else
      let counts := s.restoreRefCounts obj counts
      if s.keys counts = [] then (none, true)
      else (some (s.keys counts), (counts obj).isSome)

end State

/-- What the thread that releases a handle has still to do: to release another one, to clear the
members of an object, or to delete it. -/
inductive Task
  | release (o : Nat)
  | clear (o : Nat)
  | delete (o : Nat)
  deriving DecidableEq, Repr

/-- What a task may ask for at the most -/
def Task.weight : Task → Nat
  | .release _ => 1
  | .clear _ => 1
  | .delete _ => 2

namespace State

/-- What all tasks may ask for together -/
def effort (s : State) (tasks : List Task) : Nat :=
  (tasks.map Task.weight).sum + ∑ o ∈ Finset.range s.size, 2 * (s.members o).length +
    ∑ o ∈ Finset.range s.size, if s.noDelete o then 0 else 4

/-- The count is decremented, and what is no longer referred to is deleted. -/
def decrement (s : State) (o : Nat) : List Task × State :=
  let s := { s with ref := update s.ref o (s.ref o - 1) }
  if s.ref o = 0 then
    (if s.noDelete o then [] else [.delete o],
      { s with noDelete := update s.noDelete o true })
  else ([], s)

/-- The objects are marked as non-deletable, and are no longer collected. -/
def doom (s : State) (objects : List Nat) : State :=
  { s with
    noDelete := fun o => s.noDelete o || objects.contains o
    cycleMember := fun o => s.cycleMember o && !objects.contains o }

/-- `__decRef`, of an object that is not deleted -/
def decRef (s : State) (o : Nat) : List Task × State :=
  let s := s.check (0 < s.ref o ∧ o ∉ s.deleted)
  if 1 < s.ref o ∧ s.cycleMember o then
    let (objects, asserted) := s.collect o
    let s := s.check asserted
    match objects with
    | some objects => (objects.map .clear ++ objects.map .delete, s.doom objects)
    | none => s.decrement o
  else s.decrement o

/-- One step of a task. `ClearMembers` goes through the members in their order; a destructor
releases them in reverse order. -/
def perform (task : Task) (s : State) : List Task × State :=
  match task with
  | .release o => s.decRef o
  | .clear o =>
    match s.members o with
    | [] => ([], s)
    | none :: members =>
      ([.clear o], { s with members := update s.members o members })
    | some m :: members =>
      ([.release m, .clear o], { s with members := update s.members o members })
  | .delete o =>
    ([.clear o],
      { s.check (o ∉ s.deleted) with
        deleted := s.deleted ++ [o]
        members := update s.members o (s.members o).reverse })

/-- Everything is done that the tasks ask for. -/
def settle (s : State) (tasks : List Task) : State :=
  (Lib.traverse perform (s.effort tasks) tasks s).2

end State

/-- `ClearCollectable::visit` -/
def clearCollectable (obj : Nat) (s : State) : List Nat × State :=
  if s.collectable obj then
    (s.handles obj,
      { s with
        collectable := update s.collectable obj false
        cycleMember := update s.cycleMember obj false })
  else ([], s)

/-- The members of `MarkCollectable`, whose stacks have their top in front, and the heap -/
structure Marking where
  heap : State
  counter : Nat := 0
  numbers : Nat → Option Nat := fun _ => none
  p : List Nat := []
  s : List Nat := []

/-- The visits that are still to be made, and what `visit` does after those of the members -/
inductive Mark
  | visit (obj : Nat)
  | visitNeighbor (obj : Nat)
  | finish (obj : Nat)
  deriving DecidableEq, Repr

namespace Marking

variable (m : Marking)

/-- `_numbers[obj]` -/
def number (obj : Nat) : Nat := (m.numbers obj).getD 0

/-- `MarkCollectable::visit`, up to the visits of the members -/
def visit (obj : Nat) : List Mark × Marking :=
  if m.heap.collectable obj then ([], m)
  else
    ((m.heap.handles obj).map .visitNeighbor ++ [.finish obj],
      { m with
        heap := { m.heap with collectable := update m.heap.collectable obj true }
        counter := m.counter + 1
        numbers := update m.numbers obj (some (m.counter + 1))
        p := obj :: m.p
        s := obj :: m.s })

/-- `MarkCollectable::visitNeighbor` -/
def visitNeighbor (obj : Nat) : List Mark × Marking :=
  match m.numbers obj with
  | none => ([.visit obj], m)
  | some n =>
    if m.heap.cycleMember obj then ([], m)
    else
      let p := m.p.dropWhile fun o => n < m.number o
      ([], { m with p, heap := m.heap.check (p ≠ []) })

/-- The rest of `MarkCollectable::visit` -/
def finish (obj : Nat) : List Mark × Marking :=
  let m := { m with heap := m.heap.check (m.p ≠ []) }
  if m.p.head? = some obj then
    let m := { m with heap := m.heap.check (obj ∈ m.s) }
    let component := m.s.takeWhile (· ≠ obj) ++ [obj]
    ([], { m with
      heap := { m.heap with
        cycleMember := fun o => m.heap.cycleMember o || component.contains o }
      p := m.p.tail
      s := (m.s.dropWhile (· ≠ obj)).tail })
  else ([], m)

end Marking

def markCollectable : Mark → Marking → List Mark × Marking
  | .visit obj, m => m.visit obj
  | .visitNeighbor obj, m => m.visitNeighbor obj
  | .finish obj, m => m.finish obj

namespace State

def clearCollectable (s : State) (obj : Nat) : State :=
  (Lib.traverse GC.clearCollectable (1 + s.total) [obj] s).2

def markCollectable (s : State) (obj : Nat) : State :=
  (Lib.traverse GC.markCollectable (2 + 2 * s.total + s.size) [.visit obj] { heap := s }).2.heap

/-- `ice_collectable` -/
def iceCollectable (s : State) (obj : Nat) (enable : Bool) : State :=
  if enable then (s.clearCollectable obj).markCollectable obj else s.clearCollectable obj

end State

/-- A new object with so many members, which are null; a handle is copied, released or assigned to
a member of an object; `ice_collectable` -/
inductive Action
  | new (members : Nat)
  | acquire (o : Nat)
  | release (o : Nat)
  | assign (o : Nat) (member : Nat) (value : Option Nat)
  | collectable (o : Nat) (enable : Bool)
  deriving DecidableEq, Repr

namespace State

/-- `__incRef`, by a handle if it is not null -/
def incRef (s : State) : Option Nat → State
  | none => s
  | some o => { s with ref := update s.ref o (s.ref o + 1) }

/-- The assignment of a handle to a member. -/
def assign (s : State) (o member : Nat) (value : Option Nat) : State :=
  let old := ((s.members o)[member]?).join
  if value = old then s
  else
    let t := s.incRef value
    let t := { t with members := update t.members o ((t.members o).set member value) }
    match old with
    | none => t
    | some q => t.settle [.release q]

def act (s : State) : Action → State
  | .new members =>
    { s with
      size := s.size + 1
      ref := update s.ref s.size 1
      collectable := update s.collectable s.size false
      cycleMember := update s.cycleMember s.size false
      noDelete := update s.noDelete s.size false
      members := update s.members s.size (List.replicate members none)
      outside := update s.outside s.size 1 }
  | .acquire o =>
    { s.incRef (some o) with outside := update s.outside o (s.outside o + 1) }
  | .release o =>
    settle { s with outside := update s.outside o (s.outside o - 1) } [.release o]
  | .assign o member value => s.assign o member value
  | .collectable o enable => s.iceCollectable o enable

end State

def step (s : State) (a : Action) : Option State := some (s.act a)

/-- One object has the other as a member. -/
def Edge (s : State) (o m : Nat) : Prop := m ∈ s.handles o

/-- The object is in the graph of the other one. -/
def Leads (s : State) : Nat → Nat → Prop := Relation.ReflTransGen (Edge s)

/-- The object is in the graph of one that a handle from outside refers to. -/
def Reachable (s : State) (o : Nat) : Prop := ∃ r, 0 < s.outside r ∧ Leads s r o

/-- A program can do only to reachable objects what it does, and it releases its own handles. -/
def Proper (s : State) : Action → Prop
  | .new _ => True
  | .acquire o => Reachable s o
  | .release o => 0 < s.outside o
  | .assign o member value =>
    Reachable s o ∧ member < (s.members o).length ∧ ∀ q, value = some q → Reachable s q
  | .collectable o _ => Reachable s o

end Ice.GC
