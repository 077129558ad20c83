import Ice.IceStorm.Records

/-!
# Election nodes

One `NodeI` with the calls that are in progress on it. The monitor is free between two
critical sections and during a `wait` for the running updates; an event is what happens
from one such boundary to the next. All timer tasks run on one thread, the other calls
on dispatch threads. What an event depends on besides the node (the answers of other
nodes and of the replica, the name of a new group) is an argument. Delays are left out,
and with them the issued and accepted invitations, which only shorten one; so is the
destruction of the node.
-/

namespace Ice.IceStormElection

/-- Slice structures compare member by member. -/
instance : LT LogUpdate :=
  ⟨fun x y => x.generation < y.generation ∨ x.generation = y.generation ∧ x.iteration < y.iteration⟩

instance (x y : LogUpdate) : Decidable (x < y) :=
  inferInstanceAs (Decidable (_ < _ ∨ _ = _ ∧ _ < _))

/-- `NodeState`. -/
inductive NodeState
  | inactive | election | reorganization | normal
  deriving DecidableEq, Repr

/-- A member of a group with the log update that it reported. -/
structure GroupNodeInfo where
  id : Int
  llu : LogUpdate
  deriving DecidableEq, Repr

/-- How far a call of `invitation` has got. -/
inductive InvitationStage
  /-- It waits for the running updates. -/
  | waiting
  /-- It forwards the invitation to the old members, and then enters its second
  critical section. -/
  | forwarding (members : List Int) (max : Nat)
  /-- It calls `accept` on the new coordinator. -/
  | accepting (max : Nat)
  deriving DecidableEq, Repr

/-- A call of `invitation` that was not ignored. -/
structure Invitation where
  coord : Int
  group : String
  stage : InvitationStage
  deriving DecidableEq, Repr

/-- The second critical section is still to come. -/
def Invitation.isOpen (i : Invitation) : Bool :=
  match i.stage with
  | .waiting | .forwarding .. => true
  | .accepting _ => false

/-- How far `mergeContinue` has got after its first critical section. -/
inductive MergeStage
  /-- It asks its replica for the last log update. -/
  | started
  /-- It fetches the database of the node with the latest one. -/
  | syncing (maxid : Int)
  /-- It makes its replica the master. -/
  | synced
  /-- `initMaster` initialises the observers. -/
  | initializing
  /-- It calls `ready` on these nodes. -/
  | readying (rest : List Int)
  deriving DecidableEq, Repr

/-- What the timer thread does. -/
inductive TimerThread
  | idle
  /-- `check` asks the other nodes whether they are coordinators. -/
  | checking
  /-- `timeout` asks the coordinator whether it is there. -/
  | timingOut
  /-- The merge task has fired; `merge` has not entered its first critical section. -/
  | merging (coordinators : List Int)
  /-- `merge` waits for the running updates. -/
  | mergeWaiting (coordinators : List Int)
  /-- `merge` invites these nodes. -/
  | inviting (group : String) (invited : List Int)
  | continuing (group : String) (members : List GroupNodeInfo) (stage : MergeStage)
  /-- A call of `recovery` waits for the running updates. -/
  | recovering
  deriving DecidableEq, Repr

/-- The node. -/
structure NodeI where
  id : Int
  /-- The identities of all nodes. -/
  nodes : List Int
  state : NodeState
  updateCounter : Nat
  coord : Int
  group : String
  /-- `_up`, which keeps its first entry for an identity. -/
  up : Std.ExtTreeMap Int LogUpdate
  max : Nat
  generation : Int
  /-- `_coordinatorProxy` is not null. -/
  coordinatorProxy : Bool
  /-- The merge task is scheduled, or has fired and `merge` has not entered. -/
  mergeTask : Option (List Int)
  timeoutTask : Bool
  checkTask : Bool
  mergeContinueTask : Bool
  timer : TimerThread
  invitations : List Invitation
  /-- The calls of `recovery` on dispatch threads that wait for the running updates. -/
  recoveries : Nat

/-- What happens on a node. -/
inductive Event
  /-- An update of a client or of the coordinator, or the publishing of events, starts. -/
  | startUpdate
  | finishUpdate
  | invitation (j : Int) (gn : String)
  /-- The waiting invitation at this index goes on. -/
  | resumeInvitation (k : Nat)
  | forwarded (k : Nat)
  /-- The call of `accept` has returned, or it has failed. -/
  | accepted (k : Nat) (ok : Bool) (group : String)
  | accept (j : Int) (gn : String) (llu : LogUpdate) (max : Nat)
  | ready (j : Int) (gn : String) (max : Nat) (generation : Int)
  /-- A client request, an observer call or a callback calls `recovery`. -/
  | recovery (generation : Int) (group : String)
  /-- A waiting call of `recovery` on a dispatch thread goes on. -/
  | resumeRecovery (group : String)
  /-- The call on the timer thread that waits goes on. -/
  | resumeTimer (group : String)
  | check (dead : List Int) (group : String)
  | checked (coordinators : List Int)
  | timeout
  | timedOut (failed : Bool) (group : String)
  | fireMerge
  | merge (group : String)
  | invited
  | mergeContinue (group : String)
  /-- The answer of `getLastLogUpdate`, or nothing when it throws. -/
  | lastLogUpdate (llu : Option LogUpdate)
  | sync (ok : Bool) (group : String)
  | startInitMaster
  | initMaster (ok : Bool) (group : String)
  | calledReady (ok : Bool) (group : String)
  | commence
  deriving DecidableEq, Repr

namespace NodeI

/-- The node after `start`. -/
def started (id : Int) (nodes : List Int) (group : String) : NodeI where
  id := id
  nodes := nodes
  state := .inactive
  updateCounter := 0
  coord := id
  group := group
  up := ∅
  max := 0
  generation := -1
  coordinatorProxy := false
  mergeTask := none
  timeoutTask := false
  checkTask := true
  mergeContinueTask := false
  timer := .idle
  invitations := []
  recoveries := 0

/-- The node is in an election or reorganizing. -/
def electing (s : NodeI) : Bool := s.state == .election || s.state == .reorganization

/-- The members of the group as `mergeContinue` copies them. -/
def members (s : NodeI) : List GroupNodeInfo := s.up.toList.map fun p => ⟨p.1, p.2⟩

/-- `recovery` after its wait. -/
def finishRecovery (group : String) (s : NodeI) : NodeI :=
  { s with
    group := group
    generation := -1
    coord := s.id
    up := ∅
    mergeTask := none
    timeoutTask := false
    checkTask := true }

/-- A call of `recovery` on a dispatch thread that is not ignored. -/
def recover (group : String) (s : NodeI) : NodeI :=
  let s := { s with state := .inactive }
  if 0 < s.updateCounter then { s with recoveries := s.recoveries + 1 } else s.finishRecovery group

/-- A call of `recovery` on the timer thread. -/
def recoverOnTimer (group : String) (s : NodeI) : NodeI :=
  let s := { s with state := .inactive }
  if 0 < s.updateCounter then { s with timer := .recovering }
  else { s.finishRecovery group with timer := .idle }

/-- `recovery(generation)`. -/
def recovery (generation : Int) (group : String) (s : NodeI) : NodeI :=
  if generation ≠ -1 ∧ generation ≠ s.generation then s else s.recover group

/-- `invitation` after its wait. The invitation is forwarded by a coordinator. -/
def join (j : Int) (gn : String) (s : NodeI) : NodeI × InvitationStage :=
  ({ s with coord := j, group := gn },
    .forwarding (if s.coord = s.id then s.members.map GroupNodeInfo.id else []) s.max)

/-- `invitation` up to its wait or to the end of its first critical section. -/
def invitation (j : Int) (gn : String) (s : NodeI) : NodeI :=
  if j ∉ s.nodes then s
  else if s.electing then s
  -- a merge task that has fired cannot be cancelled
  else if ∃ coordinators ∈ s.mergeTask, s.timer = .merging coordinators then s
  else
    let s := { s with mergeTask := none, state := .election }
    if 0 < s.updateCounter then { s with invitations := s.invitations ++ [⟨j, gn, .waiting⟩] }
    else
      let (s, stage) := s.join j gn
      { s with invitations := s.invitations ++ [⟨j, gn, stage⟩] }

/-- The second critical section of `invitation`, which asserts that the node is in the
election state. -/
def reorganize (k : Nat) (i : Invitation) (max : Nat) (s : NodeI) : NodeI :=
  { s with
    state := .reorganization
    timeoutTask := true
    invitations := s.invitations.set k { i with stage := .accepting max } }

/-- `accept`. -/
def accept (j : Int) (gn : String) (llu : LogUpdate) (max : Nat) (s : NodeI) : NodeI :=
  if j ∈ s.nodes ∧ s.state = .election ∧ s.group = gn ∧ s.coord = s.id then
    { s with up := s.up.insertIfNew j llu, max := Nat.max s.max max }
  else s

/-- `ready`. -/
def ready (j : Int) (gn : String) (max : Nat) (generation : Int) (s : NodeI) : NodeI :=
  if s.state = .reorganization ∧ s.group = gn ∧ s.coord = j then
    { s with
      max := Nat.max s.max max
      generation := generation
      state := .normal
      coordinatorProxy := true
      checkTask := true }
  else s

/-- `check` up to the calls on the other nodes; `dead` are the slaves that the observers
could not reach. -/
def check (dead : List Int) (group : String) (s : NodeI) : NodeI :=
  if s.electing ∨ s.coord ≠ s.id then s
  else
    let s := { s with up := s.up.eraseMany dead }
    if dead ≠ [] ∧ s.up.size < s.nodes.length / 2 then
      { s with checkTask := false }.recoverOnTimer group
    else { s with timer := .checking }

/-- `check` after the calls. -/
def checked (coordinators : List Int) (s : NodeI) : NodeI :=
  let s := { s with timer := .idle }
  if s.electing ∨ s.coord ≠ s.id then { s with checkTask := false }
  else if coordinators = [] then s
  else { s with checkTask := false, mergeTask := some coordinators }

/-- `timeout` up to the call on the coordinator. -/
def timeout (s : NodeI) : NodeI := if s.coord = s.id then s else { s with timer := .timingOut }

/-- `merge` after its wait. -/
def invite (coordinators : List Int) (group : String) (s : NodeI) : NodeI :=
  { s with
    group := group
    coord := s.id
    up := ∅
    timer := .inviting group (coordinators ++ s.members.map GroupNodeInfo.id).dedup }

/-- `merge` up to its wait or to the end of its first critical section. -/
def merge (coordinators : List Int) (group : String) (s : NodeI) : NodeI :=
  let s := { s with mergeTask := none }
  if s.electing then { s with timer := .idle }
  else
    let s := { s with state := .election }
    if 0 < s.updateCounter then { s with timer := .mergeWaiting coordinators }
    else s.invite coordinators group

/-- Fewer nodes take part than are needed: all of them for the first election, a
majority for later ones. -/
def notEnough (s : NodeI) : Bool :=
  s.max != s.nodes.length && s.up.size != s.nodes.length - 1 || s.up.size < s.nodes.length / 2

/-- The first critical section of `mergeContinue`, which asserts that the node is in the
election state. -/
def mergeContinue (group : String) (s : NodeI) : NodeI :=
  let s := { s with mergeContinueTask := false, state := .reorganization }
  if s.notEnough then s.recoverOnTimer group
  else { s with timer := .continuing s.group s.members .started }

end NodeI

/-- `maxid` and `maxllu`: the first member with the latest log update. -/
def highest (members : List GroupNodeInfo) : Int × LogUpdate :=
  members.foldl (fun best p => if best.2 < p.llu then (p.id, p.llu) else best) (-1, ⟨-1, 0⟩)

/-- The log update of the new master. -/
def nextLLU (members : List GroupNodeInfo) : LogUpdate := ⟨(highest members).2.generation + 1, 0⟩

namespace NodeI

/-- The last critical section of `mergeContinue`. -/
def commence (members : List GroupNodeInfo) (s : NodeI) : NodeI :=
  { s with
    state := .normal
    coordinatorProxy := false
    generation := (nextLLU members).generation
    checkTask := true
    timer := .idle }

/-- One event. -/
def step (s : NodeI) : Event → Option NodeI
  | .startUpdate =>
    if s.state = .normal then some { s with updateCounter := s.updateCounter + 1 } else none
  | .finishUpdate =>
    if 0 < s.updateCounter then some { s with updateCounter := s.updateCounter - 1 } else none
  | .invitation j gn => some (s.invitation j gn)
  | .resumeInvitation k =>
    match s.invitations[k]? with
    | some ⟨j, gn, .waiting⟩ =>
      if s.updateCounter = 0 then
        let (s, stage) := s.join j gn
        some { s with invitations := s.invitations.set k ⟨j, gn, stage⟩ }
      else none
    | _ => none
  | .forwarded k =>
    match s.invitations[k]? with
    | some ⟨j, gn, .forwarding members max⟩ =>
      some (s.reorganize k ⟨j, gn, .forwarding members max⟩ max)
    | _ => none
  | .accepted k ok group =>
    match s.invitations[k]? with
    | some ⟨_, _, .accepting _⟩ =>
      let s := { s with invitations := s.invitations.eraseIdx k }
      some (if ok then s else s.recover group)
    | _ => none
  | .accept j gn llu max => some (s.accept j gn llu max)
  | .ready j gn max generation => some (s.ready j gn max generation)
  | .recovery generation group => some (s.recovery generation group)
  | .resumeRecovery group =>
    if 0 < s.recoveries ∧ s.updateCounter = 0 then
      some { s.finishRecovery group with recoveries := s.recoveries - 1 }
    else none
  | .resumeTimer group =>
    if s.updateCounter = 0 then
      match s.timer with
      | .recovering => some { s.finishRecovery group with timer := .idle }
      | .mergeWaiting coordinators => some (s.invite coordinators group)
      | _ => none
    else none
  | .check dead group =>
    if s.timer = .idle ∧ s.checkTask then some (s.check dead group) else none
  | .checked coordinators => if s.timer = .checking then some (s.checked coordinators) else none
  | .timeout => if s.timer = .idle ∧ s.timeoutTask then some s.timeout else none
  | .timedOut failed group =>
    if s.timer = .timingOut then
      some (if failed then s.recoverOnTimer group else { s with timer := .idle })
    else none
  | .fireMerge =>
    match s.timer, s.mergeTask with
    | .idle, some coordinators => some { s with timer := .merging coordinators }
    | _, _ => none
  | .merge group =>
    match s.timer with
    | .merging coordinators => some (s.merge coordinators group)
    | _ => none
  | .invited =>
    match s.timer with
    | .inviting _ _ => some { s with mergeContinueTask := true, timer := .idle }
    | _ => none
  | .mergeContinue group =>
    if s.timer = .idle ∧ s.mergeContinueTask then some (s.mergeContinue group) else none
  | .lastLogUpdate llu =>
    match s.timer with
    | .continuing gp members .started =>
      match llu with
      -- the timer catches what no one else does
      | none => some { s with timer := .idle }
      | some myLlu =>
        if myLlu < (highest members).2 then
          some { s with timer := .continuing gp members (.syncing (highest members).1) }
        else some { s with timer := .continuing gp members .synced }
    | _ => none
  | .sync ok group =>
    match s.timer with
    | .continuing gp members (.syncing _) =>
      if ok then some { s with timer := .continuing gp members .synced }
      else some (s.recoverOnTimer group)
    | _ => none
  | .startInitMaster =>
    match s.timer with
    | .continuing gp members .synced =>
      some { s with
        max := Nat.max s.max (members.length + 1)
        timer := .continuing gp members .initializing }
    | _ => none
  | .initMaster ok group =>
    match s.timer with
    | .continuing gp members .initializing =>
      if ok then
        some { s with timer := .continuing gp members (.readying (members.map GroupNodeInfo.id)) }
      else some (s.recoverOnTimer group)
    | _ => none
  | .calledReady ok group =>
    match s.timer with
    | .continuing gp members (.readying (_ :: rest)) =>
      if ok then some { s with timer := .continuing gp members (.readying rest) }
      else some (s.recoverOnTimer group)
    | _ => none
  | .commence =>
    match s.timer with
    | .continuing _ members (.readying []) => some (s.commence members)
    | _ => none

end NodeI

end Ice.IceStormElection
