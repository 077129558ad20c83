import Mathlib
import Ice.Lib.Transition

/-!
# Replica groups

`ReplicaGroupEntry` and the calls of `getLocatorAdapterInfo` that run on it. What a
call does under the monitor of the entry, up to a wait or to the end of the block, is
one step; each question to a replica is asked without the lock and is a step of its
own. A remainder by zero or an index out of range ends the process.
-/

namespace Ice.IceGrid

open Ice.Lib
open Option (bind_eq_some_iff)

inductive LoadSample
  | loadSample1
  | loadSample5
  | loadSample15
  deriving DecidableEq, Repr

/-- The classes of load balancing policies. -/
inductive PolicyKind
  | base
  | adaptive (loadSample : String)
  | roundRobin
  | ordered
  | random
  deriving DecidableEq, Repr

structure LoadBalancingPolicy where
  kind : PolicyKind
  nReplicas : String
  deriving DecidableEq, Repr

/-- The members of a `ServerAdapterEntry` that a replica group reads. -/
structure ServerAdapterEntry where
  id : String
  priority : Int
  deriving DecidableEq, Repr

structure LocatorAdapterInfo where
  id : String
  proxy : String
  activationTimeout : Int
  deactivationTimeout : Int
  deriving DecidableEq, Repr

structure ReplicaGroupEntry where
  application : String
  loadBalancing : LoadBalancingPolicy
  filter : String
  loadBalancingNReplicas : Int := 0
  loadSample : LoadSample := .loadSample1
  replicas : List ServerAdapterEntry := []
  lastReplica : Nat := 0
  requestInProgress : Bool := false
  deriving DecidableEq, Repr

/-- What `std::isspace` accepts. -/
def isSpace (c : Char) : Bool := c = ' ' || (9 ≤ c.toNat && c.toNat ≤ 13)

/-- `is >> n` for an `int`: 0 where there is no number, the nearest `int` where it does not
fit. -/
def readInt (s : String) : Int :=
  let digits (cs : List Char) : Int :=
    (cs.takeWhile Char.isDigit).foldl (fun n c => 10 * n + (c.toNat - '0'.toNat)) 0
  match s.toList.dropWhile isSpace with
  | '-' :: cs => max (-2 ^ 31) (-digits cs)
  | '+' :: cs => min (2 ^ 31 - 1) (digits cs)
  | cs => min (2 ^ 31 - 1) (digits cs)

/-- What the process dies of. -/
inductive Fault
  | divisionByZero
  | outOfRange
  deriving DecidableEq, Repr

/-- `a % n` -/
def remainder (a n : Nat) : Except Fault Nat :=
  if n = 0 then .error .divisionByZero else .ok (a % n)

/-- `v[k]` -/
def element {α : Type} (v : List α) (k : Nat) : Except Fault α :=
  match v[k]? with
  | none => .error .outOfRange
  | some x => .ok x

namespace ReplicaGroupEntry

/-- `ReplicaGroupEntry::update` -/
def update (application : String) (policy : LoadBalancingPolicy) (filter : String)
    (e : ReplicaGroupEntry) : ReplicaGroupEntry :=
  let nReplicas := readInt policy.nReplicas
  { e with
    application
    loadBalancing := policy
    filter
    loadBalancingNReplicas := if nReplicas < 0 then 1 else nReplicas
    loadSample :=
      match policy.kind with
      | .adaptive "1" => .loadSample1
      | .adaptive "5" => .loadSample5
      | .adaptive "15" => .loadSample15
      | .adaptive _ => .loadSample1
      | _ => e.loadSample }

/-- `ReplicaGroupEntry::ReplicaGroupEntry` -/
def new (application : String) (policy : LoadBalancingPolicy) (filter : String) :
    ReplicaGroupEntry :=
  update application policy filter { application, loadBalancing := policy, filter }

/-- `ReplicaGroupEntry::addReplica` -/
def addReplica (adapter : ServerAdapterEntry) (e : ReplicaGroupEntry) : ReplicaGroupEntry :=
  { e with replicas := e.replicas ++ [adapter] }

/-- `ReplicaGroupEntry::removeReplica`: may the group be removed? -/
def removeReplica (replicaId : String) (e : ReplicaGroupEntry) : Bool × ReplicaGroupEntry :=
  let e :=
    if e.replicas.any fun p => replicaId = p.id then
      let replicas := e.replicas.eraseP fun p => replicaId = p.id
      { e with
        replicas
        lastReplica := if replicas.isEmpty then 0 else e.lastReplica % replicas.length }
    else e
  (e.replicas.isEmpty && e.application = "", e)

/-- A round-robin call has its turn: the replicas from `_lastReplica` on. -/
def takeTurn (e : ReplicaGroupEntry) : Except Fault (List ServerAdapterEntry × ReplicaGroupEntry) :=
  do
    let replicas ← (List.range e.replicas.length).mapM fun i => do
      let k ← remainder (e.lastReplica + i) e.replicas.length
      element e.replicas k
    let lastReplica ← remainder (e.lastReplica + 1) e.replicas.length
    return (replicas, { e with requestInProgress := true, lastReplica })

/-- A round-robin call that asked all replicas ends its turn. -/
def endTurn (unreachable : Nat) (e : ReplicaGroupEntry) : Except Fault ReplicaGroupEntry :=
  let e := { e with requestInProgress := false }
  if 0 < unreachable then do
    let lastReplica ← remainder (e.lastReplica + unreachable) e.replicas.length
    return { e with lastReplica }
  else .ok e

end ReplicaGroupEntry

/-- What `getLocatorAdapterInfo` of one replica comes to. -/
inductive Outcome
  | reachable (proxy : String) (activationTimeout deactivationTimeout : Int)
  | synchronizing
  | unreachable
  | failed (ex : String)
  deriving DecidableEq, Repr

/-- What a call of `getLocatorAdapterInfo` throws. -/
inductive LocatorException
  | synchronizationException
  | other (ex : String)
  deriving DecidableEq, Repr

/-- How far a call has come. -/
inductive Phase
  | waiting (notified : Bool)
  | ranking (replicas : List ServerAdapterEntry)
  | asking (replicas : List ServerAdapterEntry)
  | failing (ex : String)
  | returned
  | threw (ex : LocatorException)
  deriving DecidableEq, Repr

/-- A call of `getLocatorAdapterInfo` with its arguments, results and local variables. -/
structure Call where
  adapters : List LocatorAdapterInfo
  nReplicas : Int
  replicaGroup : Bool := true
  roundRobin : Bool := false
  filter : String
  excludes : List String
  unreachable : Nat := 0
  synchronizing : Bool := false
  firstUnreachable : Bool := true
  phase : Phase
  deriving DecidableEq, Repr

namespace Call

/-- A call in the wait set of the monitor, or notified and about to leave it. -/
def waits (c : Call) : Bool :=
  match c.phase with
  | .waiting _ => true
  | _ => false

/-- A round-robin call between the two blocks under the monitor. -/
def inTurn (c : Call) : Bool :=
  c.roundRobin &&
    match c.phase with
    | .ranking _ => true
    | .asking _ => true
    | .failing _ => true
    | _ => false

/-- What a call makes of the answer of the replica `r`. -/
def answered (r : ServerAdapterEntry) (rest : List ServerAdapterEntry) (outcome : Outcome)
    (c : Call) : Call :=
  match outcome with
  | .reachable proxy activationTimeout deactivationTimeout =>
    { c with
      adapters := c.adapters ++ [⟨r.id, proxy, activationTimeout, deactivationTimeout⟩]
      firstUnreachable := false
      phase := .asking rest }
  | .synchronizing => { c with synchronizing := true, phase := .asking rest }
  | .unreachable =>
    { c with
      unreachable := if c.firstUnreachable then c.unreachable + 1 else c.unreachable
      phase := .asking rest }
  | .failed ex => { c with phase := .failing ex }

/-- The end of a call that asked all replicas. -/
def ended (c : Call) : Call :=
  { c with
    phase :=
      if c.adapters.isEmpty && c.synchronizing then .threw .synchronizationException
      else .returned }

end Call

/-- An entry, the calls that were made on it, and what the process died of. -/
structure ReplicaGroup where
  entry : ReplicaGroupEntry
  calls : List Call := []
  fault : Option Fault := none
  deriving DecidableEq, Repr

/-- What happens to a replica group. `order` is what a shuffle or a sort made of the replicas;
a notification wakes one of the calls that wait, and a call may wake without one. -/
inductive Event
  | call (adapters : List LocatorAdapterInfo) (excludes : List String)
      (order : List ServerAdapterEntry)
  | wake (call : Nat)
  | resume (call : Nat)
  | rank (call : Nat) (order : List ServerAdapterEntry)
  | ask (call : Nat) (outcome : Outcome)
  | finish (call : Nat) (woken : Option Nat)
  | abort (call : Nat) (woken : Option Nat)
  | addReplica (adapter : ServerAdapterEntry)
  | removeReplica (replicaId : String)
  | update (application : String) (policy : LoadBalancingPolicy) (filter : String)
  deriving DecidableEq, Repr

namespace ReplicaGroup

/-- A group that was just created. -/
def fresh (application : String) (policy : LoadBalancingPolicy) (filter : String) : ReplicaGroup :=
  { entry := .new application policy filter }

/-- `while(_requestInProgress) wait();` and what follows under the lock. -/
def proceed (m : ReplicaGroup) (i : Nat) (c : Call) : ReplicaGroup :=
  if m.entry.requestInProgress then
    { m with calls := m.calls.set i { c with phase := .waiting false } }
  else
    match m.entry.takeTurn with
    | .error f => { m with fault := some f }
    | .ok (replicas, entry) =>
      { m with
        entry
        calls := m.calls.set i { c with roundRobin := true, phase := .asking replicas } }

/-- A call enters the monitor. -/
def enter (m : ReplicaGroup) (adapters : List LocatorAdapterInfo) (excludes : List String)
    (order : List ServerAdapterEntry) : Option ReplicaGroup :=
  let e := m.entry
  let c (phase : Phase) : Call :=
    { adapters
      nReplicas := if 0 < e.loadBalancingNReplicas then e.loadBalancingNReplicas
        else e.replicas.length
      filter := e.filter
      excludes
      phase }
  let add (phase : Phase) : ReplicaGroup := { m with calls := m.calls ++ [c phase] }
  if e.replicas.isEmpty then some (add .returned)
  else
    match e.loadBalancing.kind with
    | .roundRobin => some ((add (.waiting true)).proceed m.calls.length (c (.waiting true)))
    | .adaptive _ => if order.isPerm e.replicas then some (add (.ranking order)) else none
    | .ordered =>
      if order.isPerm e.replicas ∧ order.Pairwise (fun p q => p.priority ≤ q.priority) then
        some (add (.asking order))
      else none
    | .random => if order.isPerm e.replicas then some (add (.asking order)) else none
    | .base => some (add (.asking []))

/-- `notify()`: one of the calls that wait is woken, if there is one. -/
def notify (calls : List Call) : Option Nat → Option (List Call)
  | none => if calls.any fun c => c.phase = .waiting false then none else some calls
  | some j => do
    let c ← calls[j]?
    if c.phase = .waiting false then some (calls.set j { c with phase := .waiting true })
    else none


/-- One step, where the process has not died. -/
def take (m : ReplicaGroup) : Event → Option ReplicaGroup
  | .call adapters excludes order => m.enter adapters excludes order
  | .wake i => do
    let c ← m.calls[i]?
    match c.phase with
    | .waiting _ => some { m with calls := m.calls.set i { c with phase := .waiting true } }
    | _ => none
  | .resume i => do
    let c ← m.calls[i]?
    match c.phase with
    | .waiting true => some (m.proceed i c)
    | _ => none
  | .rank i order => do
    let c ← m.calls[i]?
    match c.phase with
    | .ranking replicas =>
      if order.isPerm replicas then
        some { m with calls := m.calls.set i { c with phase := .asking order } }
      else none
    | _ => none
  | .ask i outcome => do
    let c ← m.calls[i]?
    match c.phase with
    | .asking (r :: rest) =>
      some { m with
        calls := m.calls.set i
          (if c.roundRobin && c.excludes.contains r.id then { c with phase := .asking rest }
          else c.answered r rest outcome) }
    | _ => none
  | .finish i woken => do
    let c ← m.calls[i]?
    match c.phase with
    | .asking [] =>
      if c.roundRobin then
        match m.entry.endTurn c.unreachable with
        | .error f => some { m with fault := some f }
        | .ok entry => do
          let calls ← notify (m.calls.set i c.ended) woken
          some { m with entry, calls }
      else some { m with calls := m.calls.set i c.ended }
    | _ => none
  | .abort i woken => do
    let c ← m.calls[i]?
    match c.phase with
    | .failing ex =>
      let ended := { c with phase := .threw (.other ex) }
      if c.roundRobin then do
        let calls ← notify (m.calls.set i ended) woken
        some { m with entry := { m.entry with requestInProgress := false }, calls }
      else some { m with calls := m.calls.set i ended }
    | _ => none
  | .addReplica adapter => some { m with entry := m.entry.addReplica adapter }
  | .removeReplica replicaId => some { m with entry := (m.entry.removeReplica replicaId).2 }
  | .update application policy filter =>
    some { m with entry := m.entry.update application policy filter }

/-- One step of a replica group. -/
def step (m : ReplicaGroup) (l : Event) : Option ReplicaGroup :=
  if m.fault.isSome then none else m.take l

end ReplicaGroup

section turns

variable {e : ReplicaGroupEntry}

theorem remainder_of_pos {a n : Nat} (h : 0 < n) : remainder a n = .ok (a % n) :=
  if_neg (Nat.ne_of_gt h)

theorem mapM_eq_ok {α β ε : Type} {f : α → Except ε β} {g : α → β} {l : List α}
    (h : ∀ x ∈ l, f x = .ok (g x)) : l.mapM f = .ok (l.map g) := by
  induction l with
  | nil => rfl
  | cons x l ih =>
    rw [List.forall_mem_cons] at h
    rw [List.mapM_cons, h.1, ih h.2]
    rfl

/-- A call whose turn it is asks the replicas from `_lastReplica` on, each once. -/
theorem ReplicaGroupEntry.takeTurn_eq (h : e.replicas ≠ []) :
    e.takeTurn = .ok (e.replicas.rotate e.lastReplica,
      { e with
        requestInProgress := true
        lastReplica := (e.lastReplica + 1) % e.replicas.length }) := by
  have hpos : 0 < e.replicas.length := List.length_pos_iff.mpr h
  have hlt (k : Nat) : k % e.replicas.length < e.replicas.length := Nat.mod_lt _ hpos
  have hask : ∀ i ∈ List.range e.replicas.length, (do
      let k ← remainder (e.lastReplica + i) e.replicas.length
      element e.replicas k) =
        .ok (e.replicas.get ⟨(e.lastReplica + i) % e.replicas.length, hlt _⟩) := by
    intro i _
    rw [remainder_of_pos hpos]
    change element e.replicas _ = _
    rw [element, List.getElem?_eq_getElem (hlt _)]
    rfl
  have hrotate : (List.range e.replicas.length).map
      (fun i => e.replicas.get ⟨(e.lastReplica + i) % e.replicas.length, hlt _⟩) =
      e.replicas.rotate e.lastReplica := by
    apply List.ext_getElem
    · simp
    · intro i hi hi'
      simp [List.getElem_rotate, Nat.add_comm]
  rw [takeTurn, mapM_eq_ok hask, remainder_of_pos hpos, hrotate]
  rfl

/-- Without a replica there is nothing to divide by. -/
theorem ReplicaGroupEntry.takeTurn_nil (h : e.replicas = []) :
    e.takeTurn = .error .divisionByZero := by
  rw [takeTurn, h]
  rfl

variable {unreachable : Nat}

theorem ReplicaGroupEntry.endTurn_eq
    (h : 0 < unreachable → e.replicas ≠ []) : e.endTurn unreachable = .ok { e with
      requestInProgress := false
      lastReplica := if 0 < unreachable then (e.lastReplica + unreachable) % e.replicas.length
        else e.lastReplica } := by
  by_cases hu : 0 < unreachable
  · have hpos : 0 < e.replicas.length := List.length_pos_iff.mpr (h hu)
    simp only [endTurn, if_pos hu, remainder_of_pos hpos]
    rfl
  · simp only [endTurn, if_neg hu]

theorem ReplicaGroupEntry.endTurn_nil (hu : 0 < unreachable)
    (h : e.replicas = []) : e.endTurn unreachable = .error .divisionByZero := by
  simp only [endTurn, if_pos hu, h]
  rfl

end turns

/-- The calls go one by one: one call has its turn exactly if a request is in progress, and
otherwise the calls that wait have one among them that was notified. -/
structure Orderly (requestInProgress : Bool) (calls : List Call) : Prop where
  turn : calls.countP (·.inTurn) = if requestInProgress then 1 else 0
  proceeds : requestInProgress = false → ∀ c ∈ calls, c.waits = true →
    ∃ c' ∈ calls, c'.phase = .waiting true

namespace Orderly

variable {b : Bool} {calls : List Call} {c c' : Call} {i : Nat}

theorem mem_set_of_ne {d : Call} (hd : d ∈ calls) (hc : calls[i]? = some c) (hne : d ≠ c) :
    d ∈ calls.set i c' := by
  obtain ⟨j, hj⟩ := List.mem_iff_getElem?.mp hd
  have hij : i ≠ j := by
    rintro rfl
    rw [hc] at hj
    exact hne (Option.some.inj hj).symm
  exact List.mem_iff_getElem?.mpr ⟨j, by rw [List.getElem?_set_ne hij, hj]⟩

theorem countP_set (hc : calls[i]? = some c) (c' : Call) :
    (calls.set i c').countP (·.inTurn) + (if c.inTurn then 1 else 0) =
      calls.countP (·.inTurn) + if c'.inTurn then 1 else 0 := by
  obtain ⟨hi, rfl⟩ := List.getElem?_eq_some_iff.mp hc
  rw [List.countP_set hi]
  by_cases hturn : calls[i].inTurn = true
  · have hpos : 0 < calls.countP (·.inTurn) :=
      List.countP_pos_iff.mpr ⟨_, List.getElem_mem hi, hturn⟩
    rw [if_pos hturn]
    omega
  · rw [if_neg hturn]
    rfl

/-- A new call that neither waits nor has its turn. -/
theorem append (h : Orderly b calls) (hturn : c.inTurn = false) (hwaits : c.waits = false) :
    Orderly b (calls ++ [c]) where
  turn := by simp [hturn, h.turn]
  proceeds := by
    intro hb d hd hw
    rcases List.mem_append.mp hd with hd | hd
    · obtain ⟨d', hd', hn⟩ := h.proceeds hb d hd hw
      exact ⟨d', List.mem_append_left _ hd', hn⟩
    · cases List.mem_singleton.mp hd
      rw [hwaits] at hw
      cases hw

/-- A new call that will look at once whether it has to wait. -/
theorem append_notified (h : Orderly b calls) (hphase : c.phase = .waiting true) :
    Orderly b (calls ++ [c]) where
  turn := by simp [Call.inTurn, hphase, ← h.turn]
  proceeds := fun _ _ _ _ => ⟨c, by simp, hphase⟩

/-- A call that waits is woken, and one that does not wait goes on without waiting. -/
theorem set (h : Orderly b calls) (hc : calls[i]? = some c) (hturn : c'.inTurn = c.inTurn)
    (hwaits : c'.waits = c.waits) (hwoken : c'.waits = true → c'.phase = .waiting true) :
    Orderly b (calls.set i c') where
  turn := by
    have hcount := countP_set hc c'
    rw [hturn] at hcount
    rw [Nat.add_right_cancel hcount, h.turn]
  proceeds := by
    intro hb d hd hw
    obtain ⟨hi, rfl⟩ := List.getElem?_eq_some_iff.mp hc
    by_cases hw' : c'.waits = true
    · exact ⟨c', List.mem_set hi c', hwoken hw'⟩
    · rcases List.mem_or_eq_of_mem_set hd with hd | rfl
      · obtain ⟨d', hd', hn⟩ := h.proceeds hb d hd hw
        refine ⟨d', mem_set_of_ne hd' hc ?_, hn⟩
        rintro rfl
        rw [hwaits, Call.waits, hn] at hw'
        exact hw' rfl
      · exact absurd hw hw'

/-- A call gets its turn where no request is in progress. -/
theorem begin (h : Orderly false calls) (hc : calls[i]? = some c) (hturn : c.inTurn = false)
    (hturn' : c'.inTurn = true) : Orderly true (calls.set i c') where
  turn := by
    have hcount := countP_set hc c'
    rw [hturn, hturn', h.turn] at hcount
    simpa using hcount
  proceeds := by
    intro hb
    cases hb

/-- A call waits while a request is in progress. -/
theorem block (h : Orderly true calls) (hc : calls[i]? = some c) (hturn : c'.inTurn = c.inTurn) :
    Orderly true (calls.set i c') where
  turn := by
    have hcount := countP_set hc c'
    rw [hturn] at hcount
    rw [Nat.add_right_cancel hcount, h.turn]
  proceeds := by
    intro hb
    cases hb

/-- The turn of a call ends, and a call that waits is notified. -/
theorem release {calls' : List Call} {woken : Option Nat} (h : Orderly b calls)
    (hc : calls[i]? = some c) (hturn : c.inTurn = true) (hturn' : c'.inTurn = false)
    (hnotify : ReplicaGroup.notify (calls.set i c') woken = some calls') :
    Orderly false calls' := by
  have hin : b = true := by
    by_contra hb
    have hzero := h.turn
    rw [if_neg hb] at hzero
    exact List.countP_eq_zero.mp hzero c (List.mem_of_getElem? hc) hturn
  have hcount : (calls.set i c').countP (·.inTurn) = 0 := by
    have hcount := countP_set hc c'
    rw [hturn, hturn', h.turn, hin] at hcount
    simpa using hcount
  cases woken with
  | none =>
    rw [ReplicaGroup.notify] at hnotify
    split at hnotify
    · cases hnotify
    · rename_i hnone
      cases hnotify
      refine ⟨hcount, fun _ d hd hw => ⟨d, hd, ?_⟩⟩
      -- nobody sleeps, so that who waits was notified before
      have hd' : d.phase ≠ .waiting false := fun hp =>
        hnone (List.any_eq_true.mpr ⟨d, hd, by simpa using hp⟩)
      cases hp : d.phase with
      | waiting notified =>
        cases notified with
        | true => rfl
        | false => exact absurd hp hd'
      | ranking replicas | asking replicas | failing ex | returned | threw ex =>
        simp [Call.waits, hp] at hw
  | some j =>
    obtain ⟨d, hd, hnotify⟩ := bind_eq_some_iff.mp hnotify
    split at hnotify
    · rename_i hp
      cases hnotify
      obtain ⟨hj, -⟩ := List.getElem?_eq_some_iff.mp hd
      constructor
      · have hold : d.inTurn = false := by simp [Call.inTurn, hp]
        have hset := countP_set hd { d with phase := .waiting true }
        have hnew : ({ d with phase := .waiting true } : Call).inTurn = false := by
          simp [Call.inTurn]
        rw [hold, hnew, hcount] at hset
        simpa using hset
      · exact fun _ _ _ _ => ⟨_, List.mem_set hj _, rfl⟩
    · cases hnotify

end Orderly

namespace ReplicaGroup

/-- What a replica group promises after every step. -/
structure Safe (m : ReplicaGroup) : Prop where
  fault : m.fault = none
  lastReplica : m.entry.replicas ≠ [] → m.entry.lastReplica < m.entry.replicas.length
  noReplica : m.entry.replicas = [] → m.entry.lastReplica = 0
  orderly : Orderly m.entry.requestInProgress m.calls

/-- The condition that there is a replica left where a call goes on after it waited, and where
a call ends that found replicas unreachable. -/
def ReplicasLeft (m : ReplicaGroup) : Event → Prop
  | .resume _ => m.entry.requestInProgress = false → m.entry.replicas ≠ []
  | .finish i _ => ∀ c ∈ m.calls[i]?, c.roundRobin = true → 0 < c.unreachable →
    m.entry.replicas ≠ []
  | _ => True

section safety

variable {m m' : ReplicaGroup} {i : Nat} {c : Call}

/-- A step that leaves the entry alone. -/
theorem Safe.setCalls {calls : List Call} (h : m.Safe)
    (hcalls : Orderly m.entry.requestInProgress calls) : Safe { m with calls } :=
  ⟨h.fault, h.lastReplica, h.noReplica, hcalls⟩

/-- A call that is not in its turn goes on where the loop of waits does. -/
theorem Safe.proceed (h : m.Safe) (hc : m.calls[i]? = some c) (hturn : c.inTurn = false) :
    (m.proceed i c).Safe ↔ (m.entry.requestInProgress = false → m.entry.replicas ≠ []) := by
  have horderly := h.orderly
  cases hb : m.entry.requestInProgress with
  | true =>
    rw [hb] at horderly
    have hset : Safe { m with calls := m.calls.set i { c with phase := .waiting false } } := by
      apply h.setCalls
      rw [hb]
      exact horderly.block hc (by rw [hturn]; simp [Call.inTurn])
    simpa [ReplicaGroup.proceed, hb] using hset
  | false =>
    rw [hb] at horderly
    by_cases hr : m.entry.replicas = []
    · constructor
      · intro hs
        have hfault := hs.fault
        simp [ReplicaGroup.proceed, hb, ReplicaGroupEntry.takeTurn_nil hr] at hfault
      · intro hne
        exact absurd hr (hne rfl)
    · refine ⟨fun _ _ => hr, fun _ => ?_⟩
      have hpos : 0 < m.entry.replicas.length := List.length_pos_iff.mpr hr
      simp only [ReplicaGroup.proceed, hb, ReplicaGroupEntry.takeTurn_eq hr]
      exact ⟨h.fault, fun _ => Nat.mod_lt _ hpos, fun hr' => absurd hr' hr,
        horderly.begin hc hturn (by simp [Call.inTurn])⟩

theorem Safe.enter {adapters : List LocatorAdapterInfo} {excludes : List String}
    {order : List ServerAdapterEntry} (h : m.Safe)
    (hm : m.enter adapters excludes order = some m') : m'.Safe := by
  simp only [ReplicaGroup.enter] at hm
  split at hm
  · cases hm
    exact h.setCalls (h.orderly.append rfl rfl)
  · rename_i hne
    rw [List.isEmpty_iff] at hne
    split at hm
    · cases hm
      rename_i hkind
      refine (Safe.proceed (h.setCalls (h.orderly.append_notified rfl)) ?_ rfl).mpr fun _ => hne
      exact List.getElem?_concat_length
    · split at hm
      · cases hm
        exact h.setCalls (h.orderly.append rfl rfl)
      · cases hm
    · split at hm
      · cases hm
        exact h.setCalls (h.orderly.append rfl rfl)
      · cases hm
    · split at hm
      · cases hm
        exact h.setCalls (h.orderly.append rfl rfl)
      · cases hm
    · cases hm
      exact h.setCalls (h.orderly.append rfl rfl)

/-- A call that is not a round-robin call, or goes on in its turn. -/
theorem Safe.set {c' : Call} (h : m.Safe) (hc : m.calls[i]? = some c)
    (hturn : c'.inTurn = c.inTurn) (hwaits : c.waits = false) (hwaits' : c'.waits = false) :
    Safe { m with calls := m.calls.set i c' } := by
  apply h.setCalls
  apply h.orderly.set hc hturn
  · rw [hwaits, hwaits']
  · intro hw
    rw [hwaits'] at hw
    cases hw

/-- An answer of a replica leaves a call in its turn. -/
theorem inTurn_answered {r : ServerAdapterEntry} {rest : List ServerAdapterEntry} {o : Outcome}
    (hphase : c.phase = .asking (r :: rest)) :
    (c.answered r rest o).inTurn = c.inTurn ∧ (c.answered r rest o).waits = false := by
  cases o with
  | reachable proxy activationTimeout deactivationTimeout | synchronizing | unreachable
  | failed ex =>
    simp [Call.answered, Call.inTurn, Call.waits, hphase]

theorem ended_phase : c.ended.inTurn = false ∧ c.ended.waits = false := by
  simp only [Call.ended]
  split
  · simp [Call.inTurn, Call.waits]
  · simp [Call.inTurn, Call.waits]

theorem Safe.finish {woken : Option Nat} (h : m.Safe)
    (hm : m.take (.finish i woken) = some m') :
    m'.Safe ↔ m.ReplicasLeft (.finish i woken) := by
  obtain ⟨c, hc, hm⟩ := bind_eq_some_iff.mp hm
  have hleft : m.ReplicasLeft (.finish i woken) ↔
      (c.roundRobin = true → 0 < c.unreachable → m.entry.replicas ≠ []) := by
    simp [ReplicasLeft, hc]
  rw [hleft]
  split at hm
  · rename_i hphase
    split at hm
    · rename_i hrobin
      have hturn : c.inTurn = true := by simp [Call.inTurn, hrobin, hphase]
      by_cases hr : 0 < c.unreachable → m.entry.replicas ≠ []
      · refine ⟨fun _ _ => hr, fun _ => ?_⟩
        rw [ReplicaGroupEntry.endTurn_eq hr] at hm
        obtain ⟨calls, hcalls, hm⟩ := bind_eq_some_iff.mp hm
        cases hm
        refine ⟨h.fault, fun hne => ?_, fun hnil => ?_,
          h.orderly.release hc hturn ended_phase.1 hcalls⟩
        · dsimp only at hne ⊢
          split
          · exact Nat.mod_lt _ (List.length_pos_iff.mpr hne)
          · exact h.lastReplica hne
        · dsimp only at hnil ⊢
          rw [if_neg fun hu => hr hu hnil]
          exact h.noReplica hnil
      · simp only [Classical.not_imp, not_not] at hr
        rw [ReplicaGroupEntry.endTurn_nil hr.1 hr.2] at hm
        cases hm
        constructor
        · intro hs
          cases hs.fault
        · intro hne
          exact absurd hr.2 (hne hrobin hr.1)
    · rename_i hrobin
      cases hm
      refine ⟨fun _ ht => absurd ht hrobin, fun _ => ?_⟩
      refine h.set hc ?_ (by simp [Call.waits, hphase]) ended_phase.2
      rw [ended_phase.1]
      simp [Call.inTurn, hrobin]
  · cases hm

theorem Safe.removeReplica {replicaId : String} (h : m.Safe) :
    Safe { m with entry := (m.entry.removeReplica replicaId).2 } := by
  have hother : (m.entry.removeReplica replicaId).2.requestInProgress =
      m.entry.requestInProgress := by
    simp only [ReplicaGroupEntry.removeReplica]
    split
    · rfl
    · rfl
  refine ⟨h.fault, fun hne => ?_, fun hnil => ?_, by rw [hother]; exact h.orderly⟩
  · simp only [ReplicaGroupEntry.removeReplica] at hne ⊢
    split at hne
    · rename_i hany
      rw [if_pos hany, if_neg (by simpa using hne)]
      exact Nat.mod_lt _ (List.length_pos_iff.mpr hne)
    · rename_i hany
      rw [if_neg hany]
      exact h.lastReplica hne
  · simp only [ReplicaGroupEntry.removeReplica] at hnil ⊢
    split at hnil
    · rename_i hany
      rw [if_pos hany, if_pos (by simpa using hnil)]
    · rename_i hany
      rw [if_neg hany]
      exact h.noReplica hnil

/-- After a step from a state that keeps the promise, the promise is kept exactly if the step
finds a replica where it divides by their number. -/
theorem Safe.step_iff {l : Event} (h : m.Safe) (hm : m.step l = some m') :
    m'.Safe ↔ m.ReplicasLeft l := by
  have htake : m.take l = some m' := by
    simpa [ReplicaGroup.step, h.fault] using hm
  have hall (hs : m'.Safe) (hleft : m.ReplicasLeft l) : m'.Safe ↔ m.ReplicasLeft l :=
    ⟨fun _ => hleft, fun _ => hs⟩
  cases l with
  | call adapters excludes order => exact hall (h.enter htake) trivial
  | wake i =>
    obtain ⟨c, hc, htake⟩ := bind_eq_some_iff.mp htake
    split at htake
    · rename_i hphase
      cases htake
      refine hall (h.setCalls (h.orderly.set hc ?_ ?_ fun _ => rfl)) trivial
      · simp [Call.inTurn, hphase]
      · simp [Call.waits, hphase]
    · cases htake
  | resume i =>
    obtain ⟨c, hc, htake⟩ := bind_eq_some_iff.mp htake
    split at htake
    · rename_i hphase
      cases htake
      exact h.proceed hc (by simp [Call.inTurn, hphase])
    · cases htake
  | rank i order =>
    obtain ⟨c, hc, htake⟩ := bind_eq_some_iff.mp htake
    split at htake
    · rename_i hphase
      split at htake
      · cases htake
        refine hall (h.set hc ?_ (by simp [Call.waits, hphase]) rfl) trivial
        simp [Call.inTurn, hphase]
      · cases htake
    · cases htake
  | ask i outcome =>
    obtain ⟨c, hc, htake⟩ := bind_eq_some_iff.mp htake
    split at htake
    · rename_i r rest hphase
      cases htake
      have hwaits : c.waits = false := by simp [Call.waits, hphase]
      refine hall ?_ trivial
      split
      · exact h.set hc (by simp [Call.inTurn, hphase]) hwaits rfl
      · exact h.set hc (inTurn_answered hphase).1 hwaits (inTurn_answered hphase).2
    · cases htake
  | finish i woken => exact h.finish htake
  | abort i woken =>
    obtain ⟨c, hc, htake⟩ := bind_eq_some_iff.mp htake
    split at htake
    · rename_i ex hphase
      refine hall ?_ trivial
      split at htake
      · rename_i hrobin
        obtain ⟨calls, hcalls, htake⟩ := bind_eq_some_iff.mp htake
        cases htake
        refine ⟨h.fault, h.lastReplica, h.noReplica, h.orderly.release hc ?_ ?_ hcalls⟩
        · simp [Call.inTurn, hrobin, hphase]
        · simp [Call.inTurn]
      · rename_i hrobin
        cases htake
        exact h.set hc (by simp [Call.inTurn, hrobin]) (by simp [Call.waits, hphase]) rfl
    · cases htake
  | addReplica adapter =>
    cases htake
    refine hall ⟨h.fault, fun _ => ?_, fun hnil => ?_, h.orderly⟩ trivial
    · simp only [ReplicaGroupEntry.addReplica, List.length_append, List.length_singleton]
      by_cases hr : m.entry.replicas = []
      · rw [h.noReplica hr]
        omega
      · have hlt := h.lastReplica hr
        omega
    · simp [ReplicaGroupEntry.addReplica] at hnil
  | removeReplica replicaId =>
    cases htake
    exact hall h.removeReplica trivial
  | update application policy filter =>
    cases htake
    exact hall ⟨h.fault, h.lastReplica, h.noReplica, h.orderly⟩ trivial

/-- A new group has no replica and no calls. -/
theorem safe_fresh (application : String) (policy : LoadBalancingPolicy) (filter : String) :
    (fresh application policy filter).Safe := by
  refine ⟨rfl, fun hne => absurd rfl hne, fun _ => rfl, rfl, fun _ c hc => ?_⟩
  cases hc

end safety

/-- In every run in which the calls that divide by the number of replicas find one, the replica
group keeps its promise, up to the step that first breaks the condition. -/
theorem safe_of_replicasLeft (application : String) (policy : LoadBalancingPolicy)
    (filter : String) (m : ReplicaGroup)
    (h : Reach step ReplicasLeft (fresh application policy filter) m) :
    m.Safe ∧ ∀ l m', m.step l = some m' → (m'.Safe ↔ m.ReplicasLeft l) := by
  have hsafe : m.Safe := by
    apply h.invariant (safe_fresh application policy filter)
    intro m l m' hm hl hstep
    exact (hm.step_iff hstep).mpr hl
  exact ⟨hsafe, fun l m' => hsafe.step_iff⟩

instance (m : ReplicaGroup) (l : Event) : Decidable (m.ReplicasLeft l) :=
  match l with
  | .resume _ => inferInstanceAs (Decidable
    (m.entry.requestInProgress = false → m.entry.replicas ≠ []))
  | .finish i _ => inferInstanceAs (Decidable (∀ c ∈ m.calls[i]?,
    c.roundRobin = true → 0 < c.unreachable → m.entry.replicas ≠ []))
  | .call _ _ _ => isTrue trivial
  | .wake _ => isTrue trivial
  | .rank _ _ => isTrue trivial
  | .ask _ _ => isTrue trivial
  | .abort _ _ => isTrue trivial
  | .addReplica _ => isTrue trivial
  | .removeReplica _ => isTrue trivial
  | .update _ _ _ => isTrue trivial

/-- Two round-robin calls, the second of which waits for the first one. -/
def twoCalls : List Event :=
  [.addReplica ⟨"r", 0⟩, .call [] [] [], .call [] [] [], .ask 0 .unreachable, .finish 0 (some 1),
    .resume 1]

theorem safe_of_twoCalls : ∃ m : ReplicaGroup,
    Reach step ReplicasLeft (fresh "app" ⟨.roundRobin, "1"⟩ "") m ∧
    m.Safe ∧ ∀ l m', m.step l = some m' → (m'.Safe ↔ m.ReplicasLeft l) := by
  let test (m : ReplicaGroup) (l : Event) : Bool := decide (m.ReplicasLeft l)
  have hrun : (run (fun m l => if test m l then step m l else none)
      (fresh "app" ⟨.roundRobin, "1"⟩ "") twoCalls).any (fun m => m.calls.length = 2) = true := by
    decide +kernel
  obtain ⟨m, h, -⟩ := Reach.exists_of_runWhere (fun _ _ => of_decide_eq_true) hrun
  exact ⟨m, h, safe_of_replicasLeft _ _ _ m h⟩

/-- The only replica is removed while a call asks it and finds it unreachable. -/
theorem not_safe_of_removed : ¬ ∀ (application : String) (policy : LoadBalancingPolicy)
    (filter : String) (m : ReplicaGroup),
    Reach step Any (fresh application policy filter) m → m.Safe := by
  intro h
  have hrun : (run step (fresh "app" ⟨.roundRobin, "1"⟩ "")
      [.addReplica ⟨"r", 0⟩, .call [] [] [], .ask 0 .unreachable, .removeReplica "r",
        .finish 0 none]).any (fun m => m.fault = some .divisionByZero) = true := by
    decide +kernel
  obtain ⟨m, hreach, hm⟩ := Reach.exists_of_run hrun
  have hfault := (h _ _ _ m hreach).fault
  rw [of_decide_eq_true hm] at hfault
  cases hfault

/-- The step gives a call its turn. -/
def turns (m : ReplicaGroup) (l : Event) : Bool :=
  !m.entry.requestInProgress && (m.step l).any (·.entry.requestInProgress)

variable {m m' : ReplicaGroup} {l : Event} {i : Nat} {c : Call}

end ReplicaGroup

end Ice.IceGrid
