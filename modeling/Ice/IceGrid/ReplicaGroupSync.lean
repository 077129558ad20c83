import Ice.IceGrid.ReplicaGroupEntry

/-!
# Waiting for the replicas of a group

`ReplicaGroupEntry::addSyncCallback` asks each replica, and the replicas that are synchronizing
notify the `ReplicaGroupSyncCallback` later, from other threads. Each function of the callback runs
under its mutex and is one step, with the call of the caller's callback that it makes at its end.
-/

namespace Ice.IceGrid.ReplicaSync

open Ice.Lib

/-- Which of the functions of a `SynchronizationCallback` is called -/
inductive Notification (ε : Type)
  | synchronized
  | failed (ex : ε)
  deriving DecidableEq, Repr

def Notification.isSynchronized {ε : Type} : Notification ε → Bool
  | .synchronized => true
  | .failed _ => false

structure ReplicaGroupSyncCallback (ε : Type) where
  /-- Whether `_callback` is set -/
  callback : Bool := true
  responseCalled : Bool := false
  synchronizeCount : Int
  synchronizedCount : Int := 0
  nReplicas : Int
  exception : Option ε := none
  deriving DecidableEq, Repr

namespace ReplicaGroupSyncCallback

variable {ε : Type} (cb : ReplicaGroupSyncCallback ε)

/-- `ReplicaGroupSyncCallback::ReplicaGroupSyncCallback` -/
def new (count nReplicas : Int) : ReplicaGroupSyncCallback ε :=
  { synchronizeCount := count, nReplicas := if count < nReplicas then count else nReplicas }

/-- `ReplicaGroupSyncCallback::response` -/
def response : Except ε Bool × ReplicaGroupSyncCallback ε :=
  let cb := { cb with responseCalled := true }
  if cb.nReplicas ≤ cb.synchronizedCount then (.ok false, { cb with callback := false })
  else if cb.synchronizeCount = 0 then
    match if cb.synchronizedCount = 0 then cb.exception else none with
    | some ex => (.error ex, cb)
    | none => (.ok false, { cb with callback := false })
  else (.ok true, cb)

/-- `ReplicaGroupSyncCallback::synchronized`, with what it calls of `_callback` -/
def synchronized : ReplicaGroupSyncCallback ε × Option (Notification ε) :=
  let cb :=
    { cb with
      synchronizedCount := cb.synchronizedCount + 1
      synchronizeCount := cb.synchronizeCount - 1 }
  if cb.responseCalled = false then (cb, none)
  else if cb.synchronizedCount < cb.nReplicas ∧ 0 < cb.synchronizeCount then (cb, none)
  else ({ cb with callback := false }, if cb.callback then some .synchronized else none)

/-- `ReplicaGroupSyncCallback::synchronized` with an exception -/
def failed (ex : ε) : ReplicaGroupSyncCallback ε × Option (Notification ε) :=
  let cb :=
    { cb with
      exception := cb.exception.or (some ex)
      synchronizeCount := cb.synchronizeCount - 1 }
  if cb.responseCalled = false then (cb, none)
  else if 0 < cb.synchronizeCount then (cb, none)
  else ({ cb with callback := false }, if cb.callback then some (.failed ex) else none)

def notify : Notification ε → ReplicaGroupSyncCallback ε × Option (Notification ε)
  | .synchronized => cb.synchronized
  | .failed ex => cb.failed ex

end ReplicaGroupSyncCallback

/-- What `addSyncCallback` of a replica comes to -/
inductive Answer (ε : Type)
  /-- `true`: the callback is going to be notified. -/
  | synchronizing
  | notSynchronizing
  | throws (ex : ε)
  deriving DecidableEq, Repr

/-- A call of `ReplicaGroupEntry::addSyncCallback` -/
structure SyncCall (ε : Type) where
  cb : ReplicaGroupSyncCallback ε
  /-- The replicas that the loop still has to ask -/
  toAsk : List ServerAdapterEntry
  /-- The replicas that are going to notify -/
  pending : List ServerAdapterEntry := []
  outcome : Option (Except ε Bool) := none
  /-- The calls of the caller's callback -/
  reports : List (Notification ε) := []
  deriving DecidableEq, Repr

inductive Event (ε : Type)
  | ask (answer : Answer ε)
  | notify (p : ServerAdapterEntry) (n : Notification ε)
  | response
  deriving DecidableEq, Repr

variable {ε : Type}

/-- `ReplicaGroupEntry::addSyncCallback`, up to the loop; without a replica it returns `false`. -/
def addSyncCallback (e : ReplicaGroupEntry) (excludes : List String) : SyncCall ε :=
  let nReplicas : Int :=
    if 0 < e.loadBalancingNReplicas then e.loadBalancingNReplicas else e.replicas.length
  let replicas :=
    if e.loadBalancing.kind = .roundRobin then e.replicas.filter fun p => p.id ∉ excludes
    else e.replicas
  { cb := .new replicas.length nReplicas
    toAsk := replicas
    outcome := if replicas = [] then some (.ok false) else none }

namespace SyncCall

variable (s : SyncCall ε)

def notify (n : Notification ε) : SyncCall ε :=
  let (cb, report) := s.cb.notify n
  { s with cb, reports := s.reports ++ report.toList }

def step (s : SyncCall ε) : Event ε → Option (SyncCall ε)
  | .ask answer =>
    match s.toAsk with
    | [] => none
    | p :: rest =>
      match answer with
      | .synchronizing => some { s with toAsk := rest, pending := p :: s.pending }
      | .notSynchronizing => some ({ s with toAsk := rest }.notify .synchronized)
      | .throws ex => some ({ s with toAsk := rest }.notify (.failed ex))
  | .notify p n =>
    if p ∈ s.pending then some ({ s with pending := s.pending.erase p }.notify n) else none
  | .response =>
    if s.toAsk = [] ∧ s.outcome = none then
      let (outcome, cb) := s.cb.response
      some { s with cb, outcome := some outcome }
    else none

/-- The loop has ended and no replica is going to notify any more. -/
def Finished : Prop := s.outcome ≠ none ∧ s.pending = []

end SyncCall

/-- The notification that an event is -/
def Event.notification? : Event ε → Option (Notification ε)
  | .ask .synchronizing => none
  | .ask .notSynchronizing => some .synchronized
  | .ask (.throws ex) => some (.failed ex)
  | .notify _ n => some n
  | .response => none

def notifications (es : List (Event ε)) : List (Notification ε) :=
  es.filterMap Event.notification?

/-- How many replicas synchronized -/
def successes (es : List (Event ε)) : Nat :=
  (notifications es).countP Notification.isSynchronized

/-- The latest event is a failure of a replica that was synchronizing. -/
def EndsFailing (es : List (Event ε)) : Prop :=
  ∃ before p ex, es = before ++ [.notify p (.failed ex)]

/-- The last of all replicas to notify does so after `response` and with an exception, when others
synchronized, but not as many as are waited for. -/
def LastFails (s₀ : SyncCall ε) (es : List (Event ε)) : Prop :=
  EndsFailing es ∧ .response ∈ es ∧ (notifications es).length = s₀.toAsk.length ∧
    0 < successes es ∧ successes es < s₀.cb.nReplicas

/-- The caller's callback is called as promised. -/
structure Answered (es : List (Event ε)) (s : SyncCall ε) : Prop where
  atMostOnce : s.reports.length ≤ 1
  never : s.outcome ≠ some (.ok true) → s.reports = []
  once : s.outcome = some (.ok true) → s.Finished → s.reports.length = 1
  /-- Which function is called depends on whether at least one replica synchronized. -/
  which : ∀ report ∈ s.reports, report.isSynchronized = true ↔ 0 < successes es

/-- How far the call has come, when `n` replicas are waited for and `t` of `m` have notified -/
inductive Stage (m n : Int) (es : List (Event ε)) (t : Int) (s : SyncCall ε) : Prop
  | asking (houtcome : s.outcome = none) (hcallback : s.cb.callback = true)
      (hreports : s.reports = [])
      (hno : .response ∉ es)
  /-- `response` returned `false` or threw. -/
  | refused (r : Except ε Bool) (houtcome : s.outcome = some r) (hr : r ≠ .ok true)
      (hreports : s.reports = [])
      (hwhy : (s.cb.callback = false ∧ n ≤ successes es) ∨ (t = m ∧ ¬EndsFailing es))
  | waiting (houtcome : s.outcome = some (.ok true)) (hcallback : s.cb.callback = true)
      (hreports : s.reports = []) (hyes : .response ∈ es) (hlt : successes es < n) (hmore : t < m)
  | synchronized (houtcome : s.outcome = some (.ok true)) (hcallback : s.cb.callback = false)
      (hreports : s.reports = [.synchronized]) (hpos : 0 < successes es)
      (hwhy : n ≤ successes es ∨ (t = m ∧ ¬EndsFailing es))
  | failed (ex : ε) (houtcome : s.outcome = some (.ok true)) (hcallback : s.cb.callback = false)
      (hreports : s.reports = [.failed ex]) (hyes : .response ∈ es) (hlt : successes es < n)
      (hall : t = m) (hends : EndsFailing es)

/-- What every event keeps -/
structure Counted (m : Nat) (n : Int) (es : List (Event ε)) (s : SyncCall ε) : Prop where
  total : s.toAsk.length + s.pending.length + (notifications es).length = m
  synchronizeCount : s.cb.synchronizeCount = m - (notifications es).length
  synchronizedCount : s.cb.synchronizedCount = successes es
  nReplicas : s.cb.nReplicas = n
  responseCalled : 0 < m → s.cb.responseCalled = s.outcome.isSome
  loop : s.outcome ≠ none → s.toAsk = []
  stage : Stage m n es (notifications es).length s

theorem Stage.of_none {m n t : Int} {es : List (Event ε)} {s : SyncCall ε}
    (h : Stage m n es t s) (hnone : s.outcome = none) :
    s.cb.callback = true ∧ s.reports = [] ∧ .response ∉ es := by
  cases h with
  | asking _ hcallback hreports hno => exact ⟨hcallback, hreports, hno⟩
  | refused r hout | waiting hout | synchronized hout | failed ex hout =>
    exact absurd (hnone.symm.trans hout) (by simp)

theorem notifications_concat (es : List (Event ε)) (e : Event ε) :
    notifications (es ++ [e]) = notifications es ++ e.notification?.toList := by
  unfold notifications
  rw [List.filterMap_append]
  cases h : e.notification? with
  | none => rw [List.filterMap_cons_none h, List.filterMap_nil, Option.toList_none]
  | some n => rw [List.filterMap_cons_some h, List.filterMap_nil, Option.toList_some]

theorem endsFailing_concat {es : List (Event ε)} {e : Event ε} :
    EndsFailing (es ++ [e]) ↔ ∃ p ex, e = .notify p (.failed ex) := by
  constructor
  · rintro ⟨before, p, ex, heq⟩
    obtain ⟨-, hlast⟩ := List.append_inj' heq rfl
    exact ⟨p, ex, List.cons_eq_cons.mp hlast |>.1⟩
  · rintro ⟨p, ex, rfl⟩
    exact ⟨es, p, ex, rfl⟩

theorem successes_concat (es : List (Event ε)) {e : Event ε} {n : Notification ε}
    (h : e.notification? = some n) :
    successes (es ++ [e]) = successes es + if n.isSynchronized then 1 else 0 := by
  unfold successes
  rw [notifications_concat, h, Option.toList_some, List.countP_append, List.countP_singleton]

theorem length_notifications_concat (es : List (Event ε)) {e : Event ε} {n : Notification ε}
    (h : e.notification? = some n) :
    (notifications (es ++ [e])).length = (notifications es).length + 1 := by
  rw [notifications_concat, h, Option.toList_some, List.length_append, List.length_singleton]

namespace ReplicaGroupSyncCallback

variable {cb : ReplicaGroupSyncCallback ε}

/-- After `response`, the callback goes on waiting. -/
def WaitsAfter (cb : ReplicaGroupSyncCallback ε) : Notification ε → Prop
  | .synchronized => cb.synchronizedCount + 1 < cb.nReplicas ∧ 0 < cb.synchronizeCount - 1
  | .failed _ => 0 < cb.synchronizeCount - 1

/-- The members that count change in the same way whatever has happened before. -/
theorem notify_counts (cb : ReplicaGroupSyncCallback ε) (n : Notification ε) :
    (cb.notify n).1.synchronizeCount = cb.synchronizeCount - 1 ∧
      (cb.notify n).1.synchronizedCount =
        cb.synchronizedCount + (if n.isSynchronized then 1 else 0 : Nat) ∧
      (cb.notify n).1.nReplicas = cb.nReplicas ∧
      (cb.notify n).1.responseCalled = cb.responseCalled := by
  cases n with
  | synchronized =>
    unfold notify synchronized
    dsimp only
    split
    · exact ⟨rfl, rfl, rfl, rfl⟩
    · split
      · exact ⟨rfl, rfl, rfl, rfl⟩
      · exact ⟨rfl, rfl, rfl, rfl⟩
  | failed ex =>
    unfold notify failed
    dsimp only
    split
    · exact ⟨rfl, (Int.add_zero _).symm, rfl, rfl⟩
    · split
      all_goals exact ⟨rfl, (Int.add_zero _).symm, rfl, rfl⟩

/-- Nothing is called before `response`. -/
theorem notify_before (n : Notification ε) (h : cb.responseCalled = false) :
    (cb.notify n).1.callback = cb.callback ∧ (cb.notify n).2 = none := by
  cases n with
  | synchronized =>
    unfold notify synchronized
    dsimp only
    rw [if_pos h]
    exact ⟨rfl, rfl⟩
  | failed ex =>
    unfold notify failed
    dsimp only
    rw [if_pos h]
    exact ⟨rfl, rfl⟩

/-- A notification that still leaves the callback waiting -/
theorem notify_waits {n : Notification ε} (h : cb.WaitsAfter n) :
    (cb.notify n).1.callback = cb.callback ∧ (cb.notify n).2 = none := by
  cases n with
  | synchronized =>
    dsimp only [WaitsAfter] at h
    unfold notify synchronized
    dsimp only
    split
    · exact ⟨rfl, rfl⟩
    · exact ⟨rfl, rfl⟩
  | failed ex =>
    dsimp only [WaitsAfter] at h
    unfold notify failed
    dsimp only
    split
    · exact ⟨rfl, rfl⟩
    · exact ⟨rfl, rfl⟩

/-- A notification after which there is nothing to wait for -/
theorem notify_calls {n : Notification ε} (hresponse : cb.responseCalled = true)
    (h : ¬cb.WaitsAfter n) :
    (cb.notify n).1.callback = false ∧
      (cb.notify n).2 = if cb.callback then some n else none := by
  have hcalled : ¬cb.responseCalled = false := by
    rw [hresponse]
    exact Bool.noConfusion
  cases n with
  | synchronized =>
    dsimp only [WaitsAfter] at h
    unfold notify synchronized
    dsimp only
    rw [if_neg hcalled, if_neg h]
    exact ⟨rfl, rfl⟩
  | failed ex =>
    dsimp only [WaitsAfter] at h
    unfold notify failed
    dsimp only
    rw [if_neg hcalled, if_neg h]
    exact ⟨rfl, rfl⟩

/-- A callback that was called is not called again. -/
theorem notify_cleared (n : Notification ε) (h : cb.callback = false) :
    (cb.notify n).1.callback = false ∧ (cb.notify n).2 = none := by
  by_cases hwaits : cb.WaitsAfter n
  · obtain ⟨hcallback, hreport⟩ := notify_waits hwaits
    exact ⟨hcallback.trans h, hreport⟩
  · cases hresponse : cb.responseCalled with
    | false =>
      obtain ⟨hcallback, hreport⟩ := notify_before n hresponse
      exact ⟨hcallback.trans h, hreport⟩
    | true =>
      obtain ⟨hcallback, hreport⟩ := notify_calls hresponse hwaits
      rw [h] at hreport
      exact ⟨hcallback, hreport⟩

end ReplicaGroupSyncCallback

theorem SyncCall.notify_eq (s : SyncCall ε) (x : Notification ε) :
    s.notify x =
      { s with cb := (s.cb.notify x).1, reports := s.reports ++ (s.cb.notify x).2.toList } :=
  rfl

namespace Counted

variable {m : Nat} {n : Int} {es : List (Event ε)} {s s₁ : SyncCall ε} {e : Event ε}
  {x : Notification ε}

theorem stage_notify (h : Counted m n es s) (he : e.notification? = some x)
    (hcb : s₁.cb = s.cb) (houtcome : s₁.outcome = s.outcome) (hreports : s₁.reports = s.reports)
    (hcount : s₁.toAsk.length + s₁.pending.length + 1 = s.toAsk.length + s.pending.length)
    (hnotify : s.outcome ≠ none → ∃ p, e = .notify p x) :
    Stage m n (es ++ [e]) ((notifications es).length + 1) (s₁.notify x) := by
  have htotal := h.total
  have hfewer : ((notifications es).length : Int) ≠ m := by omega
  have hsuccesses := successes_concat es he
  have hresponse : .response ∈ es ++ [e] ↔ .response ∈ es := by
    rw [List.mem_append, List.mem_singleton]
    constructor
    · rintro (hmem | rfl)
      · exact hmem
      · cases he
    · exact Or.inl
  have hnone (hreport : (s.cb.notify x).2 = none) : (s₁.notify x).reports = s.reports := by
    rw [SyncCall.notify_eq, hcb, hreport, hreports]
    exact List.append_nil _
  have hset : (s₁.notify x).cb = (s.cb.notify x).1 := by
    rw [SyncCall.notify_eq, hcb]
  have hkept : (s₁.notify x).outcome = s.outcome := houtcome
  cases h.stage with
  | asking hout hcallback hnoReports hno =>
    have hcalled : s.cb.responseCalled = false := by
      rw [h.responseCalled (by omega), hout]
      rfl
    obtain ⟨hsame, hreport⟩ := ReplicaGroupSyncCallback.notify_before x hcalled
    apply Stage.asking
    · rw [hkept, hout]
    · rw [hset, hsame, hcallback]
    · rw [hnone hreport, hnoReports]
    · rwa [hresponse]
  | refused r hout hr hnoReports hwhy =>
    rcases hwhy with ⟨hcleared, hle⟩ | ⟨heq, -⟩
    · obtain ⟨hsame, hreport⟩ := ReplicaGroupSyncCallback.notify_cleared x hcleared
      apply Stage.refused r
      · rw [hkept, hout]
      · exact hr
      · rw [hnone hreport, hnoReports]
      · left
        rw [hset, hsame, hsuccesses]
        refine ⟨rfl, ?_⟩
        push_cast
        omega
    · exact absurd heq hfewer
  | waiting hout hcallback hnoReports hyes hlt hmore =>
    have hcalled : s.cb.responseCalled = true := by
      rw [h.responseCalled (by omega), hout]
      rfl
    obtain ⟨p, rfl⟩ := hnotify (by rw [hout]; exact Option.some_ne_none _)
    by_cases hwaits : s.cb.WaitsAfter x
    · obtain ⟨hsame, hreport⟩ := ReplicaGroupSyncCallback.notify_waits hwaits
      apply Stage.waiting
      · rw [hkept, hout]
      · rw [hset, hsame, hcallback]
      · rw [hnone hreport, hnoReports]
      · rwa [hresponse]
      · rw [hsuccesses]
        cases x with
        | synchronized =>
          have hlt' := hwaits.1
          rw [h.synchronizedCount, h.nReplicas] at hlt'
          exact hlt'
        | failed ex => exact hlt
      · have hpos : 0 < s.cb.synchronizeCount - 1 := by
          cases x with
          | synchronized => exact hwaits.2
          | failed ex => exact hwaits
        rw [h.synchronizeCount] at hpos
        omega
    · obtain ⟨hsame, hreport⟩ := ReplicaGroupSyncCallback.notify_calls hcalled hwaits
      have hreports' : (s₁.notify x).reports = [x] := by
        rw [SyncCall.notify_eq, hcb, hreport, hcallback, hreports, hnoReports]
        rfl
      cases x with
      | synchronized =>
        apply Stage.synchronized
        · rw [hkept, hout]
        · rw [hset, hsame]
        · exact hreports'
        · rw [hsuccesses]
          exact Nat.succ_pos _
        · have hstops : ¬(s.cb.synchronizedCount + 1 < s.cb.nReplicas ∧
              0 < s.cb.synchronizeCount - 1) := hwaits
          rw [h.synchronizedCount, h.nReplicas, h.synchronizeCount] at hstops
          rw [hsuccesses, endsFailing_concat]
          by_cases hle : n ≤ successes es + 1
          · exact Or.inl hle
          · refine Or.inr ⟨by omega, ?_⟩
            rintro ⟨q, ex, heq⟩
            cases heq
      | failed ex =>
        apply Stage.failed ex
        · rw [hkept, hout]
        · rw [hset, hsame]
        · exact hreports'
        · rwa [hresponse]
        · rw [hsuccesses]
          exact hlt
        · have hstops : ¬0 < s.cb.synchronizeCount - 1 := hwaits
          rw [h.synchronizeCount] at hstops
          omega
        · exact endsFailing_concat.mpr ⟨p, ex, rfl⟩
  | synchronized hout hcallback hreported hpos hwhy =>
    rcases hwhy with hle | ⟨heq, -⟩
    · obtain ⟨hsame, hreport⟩ := ReplicaGroupSyncCallback.notify_cleared x hcallback
      apply Stage.synchronized
      · rw [hkept, hout]
      · rw [hset, hsame]
      · rw [hnone hreport, hreported]
      · omega
      · left
        rw [hsuccesses]
        push_cast
        omega
    · exact absurd heq hfewer
  | failed ex hout hcallback hreported hyes hlt hall hends => exact absurd hall hfewer

theorem notify (h : Counted m n es s) (he : e.notification? = some x)
    (hcb : s₁.cb = s.cb) (houtcome : s₁.outcome = s.outcome) (hreports : s₁.reports = s.reports)
    (hcount : s₁.toAsk.length + s₁.pending.length + 1 = s.toAsk.length + s.pending.length)
    (hloop : s₁.outcome ≠ none → s₁.toAsk = [])
    (hnotify : s.outcome ≠ none → ∃ p, e = .notify p x) :
    Counted m n (es ++ [e]) (s₁.notify x) := by
  have htotal := h.total
  have hlength := length_notifications_concat es he
  have hstage := h.stage_notify he hcb houtcome hreports hcount hnotify
  obtain ⟨hsync, hsynced, hn, hcalled⟩ := ReplicaGroupSyncCallback.notify_counts s.cb x
  constructor
  · rw [hlength]
    change s₁.toAsk.length + s₁.pending.length + _ = m
    omega
  · rw [SyncCall.notify_eq, hcb, hlength, hsync, h.synchronizeCount]
    push_cast
    omega
  · rw [SyncCall.notify_eq, hcb, successes_concat es he, hsynced, h.synchronizedCount]
    push_cast
    rfl
  · rw [SyncCall.notify_eq, hcb, hn, h.nReplicas]
  · intro hpos
    rw [SyncCall.notify_eq, hcb, hcalled, h.responseCalled hpos, houtcome]
  · exact hloop
  · rw [hlength]
    exact hstage

/-- An event that is no notification leaves the counts. -/
theorem counts_quiet (es : List (Event ε)) (he : e.notification? = none) :
    notifications (es ++ [e]) = notifications es ∧ successes (es ++ [e]) = successes es := by
  have hsame : notifications (es ++ [e]) = notifications es := by
    rw [notifications_concat, he, Option.toList_none, List.append_nil]
  refine ⟨hsame, ?_⟩
  unfold successes
  rw [hsame]

section

variable (h : Counted m n es s)

include h

theorem outcome_eq_none {p : ServerAdapterEntry} {rest : List ServerAdapterEntry}
    (htoAsk : s.toAsk = p :: rest) : s.outcome = none := by
  by_contra hsome
  rw [h.loop hsome] at htoAsk
  cases htoAsk

/-- A replica that is synchronizing is only counted as pending. -/
theorem ask {p : ServerAdapterEntry} {rest : List ServerAdapterEntry}
    (htoAsk : s.toAsk = p :: rest) :
    Counted m n (es ++ [.ask .synchronizing])
      { s with toAsk := rest, pending := p :: s.pending } := by
  obtain ⟨hsame, hsuccesses⟩ := @counts_quiet ε (.ask .synchronizing) es rfl
  have hnone := h.outcome_eq_none htoAsk
  have htotal := h.total
  rw [htoAsk, List.length_cons] at htotal
  constructor
  · rw [hsame]
    dsimp only
    rw [List.length_cons]
    omega
  · rw [hsame]
    exact h.synchronizeCount
  · rw [hsuccesses]
    exact h.synchronizedCount
  · exact h.nReplicas
  · exact h.responseCalled
  · intro hsome
    exact absurd hnone hsome
  · have hno : .response ∉ es ++ [.ask .synchronizing] ↔ .response ∉ es := by
      rw [List.mem_append, List.mem_singleton]
      simp
    obtain ⟨hcallback, hreports, hresponse⟩ := h.stage.of_none hnone
    exact Stage.asking hnone hcallback hreports (hno.mpr hresponse)

/-- The loop ends with `response`. -/
theorem response (htoAsk : s.toAsk = []) (hnone : s.outcome = none) :
    Counted m n (es ++ [.response])
      { s with cb := s.cb.response.2, outcome := some s.cb.response.1 } := by
  obtain ⟨hsame, hsuccesses⟩ := @counts_quiet ε .response es rfl
  have htotal := h.total
  have hkept : s.cb.response.2.synchronizeCount = s.cb.synchronizeCount ∧
      s.cb.response.2.synchronizedCount = s.cb.synchronizedCount ∧
      s.cb.response.2.nReplicas = s.cb.nReplicas ∧ s.cb.response.2.responseCalled = true := by
    unfold ReplicaGroupSyncCallback.response
    dsimp only
    split
    · exact ⟨rfl, rfl, rfl, rfl⟩
    · split
      · split
        · exact ⟨rfl, rfl, rfl, rfl⟩
        · exact ⟨rfl, rfl, rfl, rfl⟩
      · exact ⟨rfl, rfl, rfl, rfl⟩
  obtain ⟨hsync, hsynced, hn, hcalled⟩ := hkept
  have hnotEnds : ¬EndsFailing (es ++ [.response]) := by
    rw [endsFailing_concat]
    rintro ⟨p, ex, heq⟩
    cases heq
  constructor
  · rw [hsame]
    exact htotal
  · rw [hsame]
    exact hsync.trans h.synchronizeCount
  · rw [hsuccesses]
    exact hsynced.trans h.synchronizedCount
  · exact hn.trans h.nReplicas
  · exact fun _ => hcalled
  · exact fun _ => htoAsk
  · rw [hsame]
    obtain ⟨hcallback, hreports, -⟩ := h.stage.of_none hnone
    have hcount := h.synchronizeCount
    by_cases henough : n ≤ successes es
    · have hresponse : s.cb.response =
          (.ok false, { s.cb with responseCalled := true, callback := false }) := by
        unfold ReplicaGroupSyncCallback.response
        dsimp only
        rw [h.nReplicas, h.synchronizedCount, if_pos henough]
      apply Stage.refused (.ok false)
      · rw [hresponse]
      · exact fun heq => nomatch heq
      · exact hreports
      · left
        rw [hresponse, hsuccesses]
        exact ⟨rfl, henough⟩
    · have hmore : ¬s.cb.nReplicas ≤ s.cb.synchronizedCount := by
        rw [h.nReplicas, h.synchronizedCount]
        exact henough
      by_cases hall : s.cb.synchronizeCount = 0
      · have hrefused : s.cb.response.1 ≠ .ok true := by
          unfold ReplicaGroupSyncCallback.response
          dsimp only
          rw [if_neg hmore, if_pos hall]
          split
          all_goals exact fun heq => nomatch heq
        apply Stage.refused s.cb.response.1
        · rfl
        · exact hrefused
        · exact hreports
        · exact Or.inr ⟨by omega, hnotEnds⟩
      · have hresponse : s.cb.response = (.ok true, { s.cb with responseCalled := true }) := by
          unfold ReplicaGroupSyncCallback.response
          dsimp only
          rw [if_neg hmore, if_neg hall]
        apply Stage.waiting
        · rw [hresponse]
        · rw [hresponse]
          exact hcallback
        · exact hreports
        · exact List.mem_append_right _ (List.mem_singleton_self _)
        · rw [hsuccesses]
          omega
        · omega

/-- The step lemma -/
theorem step (hs : s.step e = some s₁) : Counted m n (es ++ [e]) s₁ := by
  cases e with
  | ask answer =>
    unfold SyncCall.step at hs
    cases htoAsk : s.toAsk with
    | nil =>
      rw [htoAsk] at hs
      cases hs
    | cons p rest =>
      rw [htoAsk] at hs
      have hnone := h.outcome_eq_none htoAsk
      have hcount : rest.length + s.pending.length + 1 = s.toAsk.length + s.pending.length := by
        rw [htoAsk, List.length_cons]
        omega
      cases answer with
      | synchronizing =>
        cases hs
        exact h.ask htoAsk
      | notSynchronizing | throws ex =>
        cases hs
        apply h.notify
        · rfl
        · rfl
        · rfl
        · rfl
        · exact hcount
        all_goals exact fun hsome => absurd hnone hsome
  | notify p x =>
    unfold SyncCall.step at hs
    dsimp only at hs
    split at hs
    · rename_i hmem
      cases hs
      apply h.notify
      · rfl
      · rfl
      · rfl
      · rfl
      · dsimp only
        have hpos := List.length_pos_of_mem hmem
        rw [List.length_erase_of_mem hmem]
        omega
      · exact h.loop
      · exact fun _ => ⟨p, rfl⟩
    · cases hs
  | response =>
    unfold SyncCall.step at hs
    dsimp only at hs
    split at hs
    · rename_i hready
      cases hs
      exact h.response hready.1 hready.2
    · cases hs

/-- The callback is called as promised unless the last replica fails. -/
theorem answered_iff :
    Answered es s ↔ ¬(EndsFailing es ∧ .response ∈ es ∧ (notifications es).length = m ∧
      0 < successes es ∧ successes es < n) := by
  have htotal := h.total
  cases h.stage with
  | asking hout hcallback hreports hno =>
    apply iff_of_true
    · constructor
      · rw [hreports]
        exact Nat.zero_le _
      · exact fun _ => hreports
      · intro hreturned
        rw [hout] at hreturned
        cases hreturned
      · intro report hmem
        rw [hreports] at hmem
        cases hmem
    · exact fun hlast => hno hlast.2.1
  | refused r hout hr hreports hwhy =>
    apply iff_of_true
    · constructor
      · rw [hreports]
        exact Nat.zero_le _
      · exact fun _ => hreports
      · intro hreturned
        rw [hout] at hreturned
        exact absurd (Option.some.inj hreturned) hr
      · intro report hmem
        rw [hreports] at hmem
        cases hmem
    · rintro ⟨hends, -, -, -, hlt⟩
      rcases hwhy with ⟨-, hle⟩ | ⟨-, hnot⟩
      · omega
      · exact hnot hends
  | waiting hout hcallback hreports hyes hlt hmore =>
    apply iff_of_true
    · constructor
      · rw [hreports]
        exact Nat.zero_le _
      · exact fun _ => hreports
      · rintro - ⟨hsome, hpending⟩
        rw [hpending, h.loop hsome, List.length_nil] at htotal
        omega
      · intro report hmem
        rw [hreports] at hmem
        cases hmem
    · rintro ⟨-, -, hall, -⟩
      omega
  | synchronized hout hcallback hreports hpos hwhy =>
    apply iff_of_true
    · constructor
      · rw [hreports, List.length_singleton]
      · exact fun hnot => absurd hout hnot
      · exact fun _ _ => by rw [hreports, List.length_singleton]
      · intro report hmem
        rw [hreports, List.mem_singleton] at hmem
        subst hmem
        exact iff_of_true rfl hpos
    · rintro ⟨hends, -, -, -, hlt⟩
      rcases hwhy with hle | ⟨-, hnot⟩
      · omega
      · exact hnot hends
  | failed ex hout hcallback hreports hyes hlt hall hends =>
    constructor
    · rintro hanswered ⟨-, -, -, hpos, -⟩
      have hwhich := hanswered.which (.failed ex)
        (by rw [hreports]; exact List.mem_singleton_self _)
      cases hwhich.mpr hpos
    · intro hnot
      have hzero : ¬0 < successes es := fun hpos => hnot ⟨hends, hyes, by omega, hpos, hlt⟩
      constructor
      · rw [hreports, List.length_singleton]
      · exact fun hother => absurd hout hother
      · exact fun _ _ => by rw [hreports, List.length_singleton]
      · intro report hmem
        rw [hreports, List.mem_singleton] at hmem
        subst hmem
        exact iff_of_false Bool.false_ne_true hzero

end

end Counted

theorem counted_addSyncCallback (e : ReplicaGroupEntry) (excludes : List String) :
    Counted (addSyncCallback (ε := ε) e excludes).toAsk.length
      (addSyncCallback (ε := ε) e excludes).cb.nReplicas []
      (addSyncCallback (ε := ε) e excludes) := by
  unfold addSyncCallback
  dsimp only
  generalize (if e.loadBalancing.kind = .roundRobin then
    e.replicas.filter fun p => p.id ∉ excludes else e.replicas) = replicas
  have hnever : ¬EndsFailing ([] : List (Event ε)) := by
    rintro ⟨before, p, ex, heq⟩
    exact absurd heq.symm (List.append_ne_nil_of_right_ne_nil _ (List.cons_ne_nil _ _))
  by_cases hnil : replicas = []
  · subst hnil
    constructor
    · rfl
    · rfl
    · rfl
    · rfl
    · exact fun hpos => absurd hpos (Nat.lt_irrefl 0)
    · exact fun _ => rfl
    · exact Stage.refused (.ok false) rfl (fun heq => nomatch heq) rfl (Or.inr ⟨rfl, hnever⟩)
  · rw [if_neg hnil]
    constructor
    · exact Nat.add_zero _
    · exact (Int.sub_zero _).symm
    · rfl
    · rfl
    · exact fun _ => rfl
    · exact fun hsome => absurd rfl hsome
    · exact Stage.asking rfl rfl rfl List.not_mem_nil

/-- In a run of `addSyncCallback` the caller's callback is called as promised, if and only if it is
not the last replica to notify that fails after `response`, while others synchronized, but not as
many as are waited for. -/
theorem answered_iff_not_lastFails (e : ReplicaGroupEntry) (excludes : List String)
    (es : List (Event ε)) (s : SyncCall ε)
    (h : run SyncCall.step (addSyncCallback e excludes) es = some s) :
    Answered es s ↔ ¬LastFails (addSyncCallback (ε := ε) e excludes) es := by
  have hcounted := run_induction h (counted_addSyncCallback e excludes)
    fun _ _ _ _ hcounted hs => hcounted.step hs
  exact hcounted.answered_iff

/-- A group of two replicas, both of which are waited for -/
def sampleGroup : ReplicaGroupEntry :=
  let e := ReplicaGroupEntry.new "app" ⟨.base, "0"⟩ ""
  (e.addReplica ⟨"r1", 0⟩).addReplica ⟨"r2", 0⟩

/-- The first replica fails and then the second synchronizes. -/
def sampleEvents : List (Event String) :=
  [.ask .synchronizing, .ask .synchronizing, .response,
    .notify ⟨"r1", 0⟩ (.failed "ServerNotExistException"), .notify ⟨"r2", 0⟩ .synchronized]

theorem answered_sampleEvents :
    ∃ s, run SyncCall.step (addSyncCallback sampleGroup []) sampleEvents = some s ∧
      s.reports = [.synchronized] ∧ Answered sampleEvents s := by
  have hrun : run SyncCall.step (addSyncCallback sampleGroup []) sampleEvents =
      some { cb := ⟨false, true, 0, 1, 2, some "ServerNotExistException"⟩
             toAsk := []
             outcome := some (.ok true)
             reports := [.synchronized] } := by decide +kernel
  refine ⟨_, hrun, rfl, (answered_iff_not_lastFails sampleGroup [] sampleEvents _ hrun).mpr ?_⟩
  rintro ⟨⟨before, p, ex, heq⟩, -⟩
  have hlast := congrArg List.getLast? heq
  rw [List.getLast?_append] at hlast
  cases hlast

/-- The other way round the callback is told of the exception, although a replica synchronized. -/
theorem not_answered_swapped :
    ∃ s, run SyncCall.step (addSyncCallback sampleGroup [])
        [.ask .synchronizing, .ask .synchronizing, .response,
          .notify ⟨"r2", 0⟩ .synchronized,
          .notify ⟨"r1", 0⟩ (.failed "ServerNotExistException")] = some s ∧
      s.outcome = some (.ok true) ∧ s.Finished ∧
      s.reports = [.failed "ServerNotExistException"] := by
  have hrun : run SyncCall.step (addSyncCallback sampleGroup [])
      [.ask .synchronizing, .ask .synchronizing, .response,
        .notify ⟨"r2", 0⟩ .synchronized,
        .notify ⟨"r1", 0⟩ (.failed "ServerNotExistException")] =
      some { cb := ⟨false, true, 0, 1, 2, some "ServerNotExistException"⟩
             toAsk := []
             outcome := some (.ok true)
             reports := [.failed "ServerNotExistException"] } := by decide +kernel
  exact ⟨_, hrun, rfl, ⟨Option.some_ne_none _, rfl⟩, rfl⟩

end Ice.IceGrid.ReplicaSync
