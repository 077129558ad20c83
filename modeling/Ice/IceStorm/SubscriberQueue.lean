import Ice.Lib.Transition
import Ice.IceStorm.Subscriber

/-!
# The event queue of a subscriber is never forgotten

Every method of a subscriber is one step of a transition system; the callbacks of
outstanding sends and the scheduled flush tasks come in any order. Wherever a
failure is final, `_outstanding` counts exactly the callbacks and flush tasks to
come and an online subscriber with queued events has one. A batch flush that
fails while retries are left breaks this: `exception` and `doFlush` leave
`_outstanding` at one, so no flush is ever scheduled again.
-/

namespace Ice.IceStorm

open Ice.Lib

/-- The calls a subscriber receives. `k` selects the outstanding send whose
callback comes. -/
inductive SubscriberCall
  | queue (now : Int) (forwarded : Bool) (events : List EventData)
      (outcomes : List SendOutcome)
  | runTimerTask (now : Int) (outcome : SendOutcome)
  | sent (k : Nat) (now : Int) (outcomes : List SendOutcome)
  | completed (k : Nat) (now : Int) (outcomes : List SendOutcome)
  | exception (k : Nat) (now : Int) (e : SendException)
  | reap
  | resetIfReaped
  | shutdown
  deriving DecidableEq, Repr

namespace Subscriber

/-- The run time forgets a send once it has called back. -/
def called (k : Nat) (s : Subscriber) : Subscriber := { s with sends := s.sends.eraseIdx k }

/-- One call. Sends are reported by `sent` to batch and oneway subscribers and by
`completed` to the others; only `SubscriberBatch` schedules timer tasks. -/
def step (inst : Instance) (s : Subscriber) : SubscriberCall → Option Subscriber
  | .queue now forwarded events outcomes => some (s.queue inst now forwarded events outcomes).1
  | .runTimerTask now outcome =>
    if s.kind = .batch ∧ 0 < s.flushTasks then
      some (({ s with flushTasks := s.flushTasks - 1 }).doFlush inst now outcome)
    else none
  | .sent k now outcomes =>
    if (s.kind = .batch ∨ s.kind = .oneway) ∧ k < s.sends.length then
      some ((s.called k).sent inst now outcomes)
    else none
  | .completed k now outcomes =>
    if ¬(s.kind = .batch ∨ s.kind = .oneway) ∧ k < s.sends.length then
      some ((s.called k).completed inst now outcomes)
    else none
  | .exception k now e =>
    if k < s.sends.length then some ((s.called k).exception inst now e) else none
  | .reap => some s.reap.1
  | .resetIfReaped => some s.resetIfReaped
  | .shutdown => some { s with shutdown := true }

/-- `error` moves an online subscriber to the error state, not offline. -/
def ErrorsOut (s : Subscriber) (e : SendException) : Prop :=
  e.hardError = true ∨ s.mayRetry = false

/-- Where the failures that are not counted rightly are final: a batch flush that
fails, and an invocation of a oneway subscriber that fails at once. -/
def FailsForGood (s : Subscriber) : SubscriberCall → Prop
  | .runTimerTask _ (.failed e) => s.state = .online → s.ErrorsOut e
  | .exception _ _ e => s.kind = .batch → s.errored = false → s.ErrorsOut e
  | .queue _ _ _ outcomes | .sent _ _ outcomes =>
    s.kind = .oneway → ∀ e, .failed e ∈ outcomes → s.ErrorsOut e
  | _ => True

/-- What is dropped from the full queue is in it: with a limit of 0 nothing is. -/
def DropsQueued (inst : Instance) (s : Subscriber) : SubscriberCall → Prop
  | .queue now forwarded events _ =>
    (forwarded && s.record.link) = false → s.state = .online ∨ s.state = .offline ∧ s.next ≤ now →
      inst.sendQueueSizeMaxPolicy = .dropEvents → events ≠ [] → inst.sendQueueSizeMax ≠ 0
  | _ => True

/-- The queue of an online subscriber is looked at again, and `_outstanding` is
the number of sends and flushes that do so. -/
def Attended (s : Subscriber) : Prop :=
  s.state = .online → s.events ≠ [] → 0 < s.pending ∧ s.outstanding = s.pending

/-- `_outstanding` is right, but events may be queued that nobody looks at. -/
structure Tallied (s : Subscriber) : Prop where
  /-- Only batch subscribers have flush tasks. -/
  tasks : s.kind ≠ .batch → s.flushTasks = 0
  /-- A batch subscriber is not offline: its failures are final. -/
  batch : s.kind = .batch → s.state ≠ .offline
  /-- Until a subscriber is in error its sends and flushes are counted. -/
  count : s.errored = false → s.outstanding = s.pending

/-- What every call keeps. -/
structure Counted (s : Subscriber) : Prop extends Tallied s where
  /-- An online subscriber with queued events waits for a callback. -/
  waits : s.state = .online → s.events ≠ [] → 0 < s.pending

variable {s : Subscriber} {dec : Bool} {e : SendException} {inst : Instance} {now : Int}
  {outcomes : List SendOutcome} {k : Nat}

theorem Counted.attended (h : s.Counted) : s.Attended := by
  intro hon hev
  exact ⟨h.waits hon hev, h.count (by simp [errored, hon, SubscriberState.errored])⟩

theorem counted_new (record : SubscriberRecord) (kind : SubscriberKind) (retryCount : Int) :
    (new record kind retryCount).Counted where
  tasks _ := rfl
  batch _ := by simp [new]
  count _ := rfl
  waits _ h := absurd rfl h

@[simp] theorem error_kind : (s.error inst now dec e).kind = s.kind := by
  simp only [error]
  split_ifs <;> rfl

@[simp] theorem error_pending : (s.error inst now dec e).pending = s.pending := by
  simp only [error]
  split_ifs <;> rfl

@[simp] theorem error_flushTasks : (s.error inst now dec e).flushTasks = s.flushTasks := by
  simp only [error]
  split_ifs <;> rfl

theorem error_outstanding : (s.error inst now dec e).outstanding =
    if dec then s.outstanding - 1 else s.outstanding := by
  simp only [error]
  split_ifs <;> rfl

/-- After an error the subscriber is never online with anything queued. -/
theorem error_not_online : (s.error inst now dec e).state ≠ .online := by
  cases hs : s.state <;> simp only [error] <;> split_ifs <;>
    simp_all [SubscriberState.errored]

/-- Before and after, being in error is left only for being in error. -/
theorem error_errored_of_errored (h : (s.error inst now dec e).errored = false) :
    s.errored = false := by
  cases hs : s.state
  case online | offline => simp [errored, hs, SubscriberState.errored]
  case error | reaped =>
    exfalso
    simp only [error] at h
    split_ifs at h <;> simp_all [errored, SubscriberState.errored]

/-- A failure that is final leaves an online subscriber in error. -/
theorem error_of_errorsOut (hs : s.state ≠ .offline) (he : s.ErrorsOut e) :
    (s.error inst now dec e).errored = true := by
  have hretry : ∀ n, ({ s with outstanding := n } : Subscriber).mayRetry = s.mayRetry :=
    fun _ => rfl
  cases hst : s.state <;> rcases he with he | he <;> simp only [error] <;> split_ifs <;>
    simp_all [errored, SubscriberState.errored]

/-- The rule of the send loop: `I` is kept by an invocation that goes on, one that
ends the loop gives `S`. The loop stops by itself on an empty queue or when enough
sends are outstanding. -/
theorem sendLoop_rule (invoke : EventData → SendOutcome → Subscriber → Subscriber × Bool)
    (I S : Subscriber → Prop) (ok : SendOutcome → Prop) (hasync : ok .sentAsynchronously)
    (hdrop : ∀ s events, I s → I { s with events := events })
    (hinvoke : ∀ e o s, I s → ok o →
      if (invoke e o s).2 then I (invoke e o s).1 ∧ (invoke e o s).1.events = s.events
      else S (invoke e o s).1) :
    ∀ (events : List EventData) (outcomes : List SendOutcome) (s : Subscriber), I s →
      s.events = events → (∀ o ∈ outcomes, ok o) →
      S (sendLoop invoke events outcomes s) ∨
        I (sendLoop invoke events outcomes s) ∧
          ((sendLoop invoke events outcomes s).events = [] ∨
            (sendLoop invoke events outcomes s).kind.maxOutstanding ≤
              (sendLoop invoke events outcomes s).outstanding) := by
  intro events
  induction events with
  | nil => exact fun _ s hI he _ => .inr ⟨hI, .inl he⟩
  | cons e rest ih =>
    intro outcomes s hI he hok
    have hhead : ok (outcomes.headD .sentAsynchronously) := by
      cases outcomes with
      | nil => exact hasync
      | cons o _ => exact hok o (List.mem_cons_self ..)
    have htail : ∀ o ∈ outcomes.tail, ok o := fun o ho => hok o (List.mem_of_mem_tail ho)
    rw [sendLoop]
    split_ifs with hlt
    · have hstep := hinvoke e _ _ (hdrop s rest hI) hhead
      rcases hr : invoke e (outcomes.headD .sentAsynchronously) { s with events := rest }
        with ⟨t, goOn⟩
      rw [hr] at hstep
      cases goOn with
      | true => exact ih outcomes.tail t hstep.1 hstep.2 htail
      | false => exact .inl hstep
    · exact .inr ⟨hI, .inr (not_lt.mp hlt)⟩

/-- What the loop of an online subscriber without flush tasks keeps. -/
private def Sending (kind : SubscriberKind) (retry : Bool) (s : Subscriber) : Prop :=
  s.kind = kind ∧ s.state = .online ∧ s.flushTasks = 0 ∧ s.outstanding = s.pending ∧
    s.mayRetry = retry

variable {kind : SubscriberKind}

private theorem Sending.counted {retry : Bool} (hk : kind ≠ .batch)
    (h : Sending kind retry s) (hstop : s.events = [] ∨ s.kind.maxOutstanding ≤ s.outstanding) :
    s.Counted := by
  obtain ⟨rfl, hon, htasks, hcount, _⟩ := h
  have hpos := s.kind.maxOutstanding_pos
  exact {
    tasks := fun _ => htasks
    batch := fun hb => absurd hb hk
    count := fun _ => hcount
    waits := fun _ hev => by
      rcases hstop with hstop | hstop
      · exact absurd hstop hev
      · omega }

private theorem Sending.push {retry : Bool} (h : Sending kind retry s)
    (e : EventData) :
    Sending kind retry { s with outstanding := s.outstanding + 1, sends := s.sends ++ [[e]] } := by
  obtain ⟨hk, hon, htasks, hcount, hr⟩ := h
  refine ⟨hk, hon, htasks, ?_, hr⟩
  simp only [pending, List.length_append, List.length_singleton] at hcount ⊢
  omega

/-- The oneway loop, when what fails at once fails for good. -/
theorem counted_sendLoop_oneway (hk : s.kind = .oneway)
    (hon : s.state = .online) (hc : s.Tallied) (hok : ∀ e, .failed e ∈ outcomes → s.ErrorsOut e) :
    (sendLoop (invokeOneway inst now) s.events outcomes s).Counted := by
  have hcount := hc.count (by simp [errored, hon, SubscriberState.errored])
  have hI : Sending .oneway s.mayRetry s := ⟨hk, hon, hc.tasks (by simp [hk]), hcount, rfl⟩
  have hinvoke : ∀ e o t, Sending .oneway s.mayRetry t → (∀ e, o = .failed e → s.ErrorsOut e) →
      if (invokeOneway inst now e o t).2 then
        Sending .oneway s.mayRetry (invokeOneway inst now e o t).1 ∧
          (invokeOneway inst now e o t).1.events = t.events
      else (invokeOneway inst now e o t).1.kind = .oneway ∧
        (invokeOneway inst now e o t).1.flushTasks = 0 ∧
          (invokeOneway inst now e o t).1.errored = true := by
    intro e o t ht ho
    cases o with
    | sentSynchronously => exact ⟨ht, rfl⟩
    | sentAsynchronously => exact ⟨ht.push e, rfl⟩
    | failed x =>
      obtain ⟨htk, hton, htasks, _, htr⟩ := ht
      have hx : t.ErrorsOut x := by
        rcases ho x rfl with hx | hx
        · exact .inl hx
        · exact .inr (htr.trans hx)
      refine ⟨by simpa [invokeOneway] using htk, by simpa [invokeOneway] using htasks, ?_⟩
      exact error_of_errorsOut (by simp [hton]) hx
  rcases sendLoop_rule _ _ (fun r => r.kind = .oneway ∧ r.flushTasks = 0 ∧ r.errored = true)
    (fun o => ∀ e, o = .failed e → s.ErrorsOut e) (by simp) (fun _ _ h => h) hinvoke
    s.events outcomes s hI rfl (fun o ho e he => hok e (he ▸ ho))
    with ⟨hk', htasks, herr⟩ | ⟨hI', hstop⟩
  · exact {
      tasks := fun _ => htasks
      batch := fun hb => by simp [hk'] at hb
      count := fun h => by simp [h] at herr
      waits := fun h => by simp [errored, h, SubscriberState.errored] at herr }
  · exact hI'.counted (by simp) hstop

/-- The twoway loop: a send that fails at once was counted before. -/
theorem counted_sendLoop_twoway (outcomes : List SendOutcome)
    {ordered : Bool} (hk : s.kind = .twoway ordered) (hon : s.state = .online) (hc : s.Tallied) :
    (sendLoop (invokeTwoway inst now) s.events outcomes s).Counted := by
  have hcount := hc.count (by simp [errored, hon, SubscriberState.errored])
  have hI : Sending (.twoway ordered) s.mayRetry s :=
    ⟨hk, hon, hc.tasks (by simp [hk]), hcount, rfl⟩
  have hinvoke : ∀ e o t, Sending (.twoway ordered) s.mayRetry t → True →
      if (invokeTwoway inst now e o t).2 then
        Sending (.twoway ordered) s.mayRetry (invokeTwoway inst now e o t).1 ∧
          (invokeTwoway inst now e o t).1.events = t.events
      else (invokeTwoway inst now e o t).1.kind = .twoway ordered ∧
        (invokeTwoway inst now e o t).1.flushTasks = 0 ∧
          (invokeTwoway inst now e o t).1.outstanding = (invokeTwoway inst now e o t).1.pending ∧
            (invokeTwoway inst now e o t).1.state ≠ .online := by
    intro e o t ht _
    cases o with
    | sentSynchronously | sentAsynchronously => exact ⟨ht.push e, rfl⟩
    | failed x =>
      obtain ⟨htk, hton, htasks, htc, _⟩ := ht
      refine ⟨by simpa [invokeTwoway] using htk, by simpa [invokeTwoway] using htasks, ?_, ?_⟩
      · simp only [invokeTwoway, error_outstanding, error_pending, if_true]
        simp only [pending] at htc ⊢
        omega
      · simpa only [invokeTwoway] using @error_not_online _ true x inst now
  rcases sendLoop_rule _ _ (fun r => r.kind = .twoway ordered ∧ r.flushTasks = 0 ∧
      r.outstanding = r.pending ∧ r.state ≠ .online)
    (fun _ => True) trivial (fun _ _ h => h) hinvoke s.events outcomes s hI rfl
    (fun _ _ => trivial) with ⟨hk', htasks, hcount', hoff⟩ | ⟨hI', hstop⟩
  · exact {
      tasks := fun _ => htasks
      batch := fun hb => by simp [hk'] at hb
      count := fun _ => hcount'
      waits := fun h => absurd h hoff }
  · exact hI'.counted (by simp) hstop

/-- An error that counts down what was counted, of a subscriber other than batch. -/
theorem counted_error (e : SendException) (hk : s.kind ≠ .batch)
    (htasks : s.flushTasks = 0)
    (hcount : s.errored = false → (if dec then s.outstanding - 1 else s.outstanding) = s.pending) :
    (s.error inst now dec e).Counted where
  tasks _ := by rw [error_flushTasks, htasks]
  batch hb := absurd (by simpa using hb) hk
  count h := by
    rw [error_outstanding, error_pending]
    exact hcount (error_errored_of_errored h)
  waits h := absurd h (error_not_online)

/-- An error that is final, of any subscriber that is not offline. -/
theorem counted_error_of_errorsOut (htasks : s.kind ≠ .batch → s.flushTasks = 0)
    (hs : s.state ≠ .offline) (he : s.ErrorsOut e) :
    (s.error inst now dec e).Counted where
  tasks hb := by rw [error_flushTasks, htasks (by simpa using hb)]
  batch _ hoff := by
    have herr : (s.error inst now dec e).errored = true := error_of_errorsOut hs he
    simp [errored, hoff, SubscriberState.errored] at herr
  count h := by simp [error_of_errorsOut hs he] at h
  waits h := absurd h (error_not_online)

/-- `flush` attends to whatever is queued. -/
theorem Tallied.counted_flush (h : s.Tallied)
    (hok : s.kind = .oneway → ∀ e, .failed e ∈ outcomes → s.ErrorsOut e) :
    (s.flush inst now outcomes).Counted := by
  have hidle (hi : s.state ≠ .online ∨ s.events = []) : s.Counted :=
    { h with waits := fun hon hev => by simp_all }
  have hon_events {p : Prop} (hi : ¬(s.state ≠ .online ∨ s.events = []) → p)
      (hj : s.state ≠ .online ∨ s.events = [] → p) : p := by
    by_cases hc : s.state ≠ .online ∨ s.events = []
    · exact hj hc
    · exact hi hc
  have hguard : (s.state != .online || s.events.isEmpty) = true ↔
      s.state ≠ .online ∨ s.events = [] := by simp
  rcases hk : s.kind with _ | _ | ordered | _ <;> simp only [flush, hk, hguard]
  case batch =>
    split_ifs with hi hzero
    · exact hidle hi
    · obtain ⟨hon, _⟩ := not_or.mp hi
      have hcount := h.count (by simp_all [errored, SubscriberState.errored])
      exact {
        tasks := fun hb => absurd rfl hb
        batch := fun _ => h.batch hk
        count := fun _ => by simp only [pending] at hcount ⊢; push_cast; omega
        waits := fun _ _ => by simp only [pending]; omega }
    · obtain ⟨hon, _⟩ := not_or.mp hi
      have hcount := h.count (by simp_all [errored, SubscriberState.errored])
      exact { h with waits := fun _ _ => by omega }
  case oneway =>
    split_ifs with hi
    · exact hidle hi
    · exact counted_sendLoop_oneway hk (by simp_all) h (hok hk)
  case twoway =>
    split_ifs with hi
    · exact hidle hi
    · exact counted_sendLoop_twoway outcomes hk (by simp_all) h
  case link =>
    split_ifs with hi hempty
    · refine { h with waits := fun hon _ => ?_ }
      have hcount := h.count (by simp_all [errored, SubscriberState.errored])
      simp only [hon, bne_self_eq_false, Bool.false_or, decide_eq_true_eq] at hi
      omega
    · exact {
        tasks := fun _ => h.tasks (by simp [hk])
        batch := fun hb => by simp at hb
        count := fun hne => h.count hne
        waits := fun _ hev => absurd rfl hev }
    · simp only [Bool.or_eq_true, bne_iff_ne, ne_eq, decide_eq_true_eq, not_or, not_not] at hi
      have hcount := h.count (by simp_all [errored, SubscriberState.errored])
      have htasks := h.tasks (by simp [hk])
      cases outcomes.headD .sentAsynchronously with
      | failed x =>
        refine counted_error x (by simp) htasks fun _ => ?_
        simp only [pending, if_true] at hcount ⊢
        omega
      | sentSynchronously | sentAsynchronously =>
        exact {
          tasks := fun _ => htasks
          batch := fun hb => by simp at hb
          count := fun _ => by
            simp only [pending, List.length_append, List.length_singleton] at hcount ⊢
            omega
          waits := fun _ hev => absurd rfl hev }

variable {events : List EventData}

/-- The queue branch of the online state. -/
theorem Tallied.counted_enqueue (h : s.Tallied) (hon : s.state = .online)
    (hok : s.kind = .oneway → ∀ e, .failed e ∈ outcomes → s.ErrorsOut e) :
    (queue.enqueue inst now events outcomes s).1.Counted := by
  unfold queue.enqueue
  cases push inst s.events events with
  | none =>
    exact counted_error_of_errorsOut h.tasks (by simp [hon]) (.inl rfl)
  | some queued =>
    refine Tallied.counted_flush ?_ hok
    exact ⟨h.tasks, h.batch, h.count⟩

theorem Counted.counted_queue {forwarded : Bool} (h : s.Counted)
    (hok : s.kind = .oneway → ∀ e, .failed e ∈ outcomes → s.ErrorsOut e) :
    (s.queue inst now forwarded events outcomes).1.Counted := by
  rw [queue]
  by_cases hf : (forwarded && s.record.link) = true
  · rw [if_pos hf]
    exact h
  · rw [if_neg hf]
    rcases hs : s.state with _ | _ | _ | _
    case online => exact h.counted_enqueue hs hok
    case offline =>
      by_cases hnext : now < s.next
      · simpa only [if_pos hnext] using h
      · simp only [if_neg hnext]
        refine Tallied.counted_enqueue ⟨h.tasks, fun _ => by simp, ?_⟩ rfl hok
        exact fun _ => h.count (by simp [errored, hs, SubscriberState.errored])
    case error => exact h
    case reaped => exact h

/-- A flush task takes the queue, whatever the state it finds. -/
theorem Counted.counted_doFlush {outcome : SendOutcome}
    (h : s.Counted) (hk : s.kind = .batch) (htask : 0 < s.flushTasks)
    (hok : ∀ e, outcome = .failed e → s.state = .online → s.ErrorsOut e) :
    (({ s with flushTasks := s.flushTasks - 1 }).doFlush inst now outcome).Counted := by
  have hoff := h.batch hk
  simp only [doFlush]
  by_cases hon : s.state = .online
  · have hcount := h.count (by simp [errored, hon, SubscriberState.errored])
    simp only [hon, bne_self_eq_false, Bool.false_eq_true, if_false]
    cases outcome with
    | failed e =>
      exact counted_error_of_errorsOut (fun hb => absurd hk hb) (by simp)
        (hok e rfl hon)
    | sentSynchronously | sentAsynchronously =>
      exact {
        tasks := fun hb => absurd hk hb
        batch := fun _ => by simp
        count := fun _ => by simp only [pending, List.length_append, List.length_singleton]
                               at hcount ⊢; omega
        waits := fun _ hev => absurd rfl hev }
  · have hne : (s.state != .online) = true := by simpa using hon
    simp only [hne, if_true]
    exact {
      tasks := fun hb => absurd hk hb
      batch := h.batch
      count := fun herr => by
        rcases hs : s.state <;> simp_all [errored, SubscriberState.errored]
      waits := fun h => absurd h hon }

/-- The bookkeeping that a callback starts with. -/
theorem Counted.tallied_called (h : s.Counted) (hlt : k < s.sends.length) (retry : Int) :
    Tallied { s.called k with outstanding := s.outstanding - 1, currentRetry := retry } := by
  refine ⟨h.tasks, h.batch, fun herr => ?_⟩
  have hcount := h.count herr
  simp only [pending, called, List.length_eraseIdx_of_lt hlt] at hcount ⊢
  omega

theorem Counted.counted_sent (h : s.Counted)
    (hlt : k < s.sends.length)
    (hok : s.kind = .oneway → ∀ e, .failed e ∈ outcomes → s.ErrorsOut e) :
    ((s.called k).sent inst now outcomes).Counted := by
  have ht := h.tallied_called hlt s.currentRetry
  have hidle (hev : s.events = []) :
      Counted { s.called k with outstanding := s.outstanding - 1 } :=
    { ht with waits := fun _ hne => absurd hev hne }
  have hflush := @Tallied.counted_flush _ inst now _ ht hok
  simp only [sent]
  split
  · split_ifs with hc
    · exact hflush
    · by_cases hev : s.events = []
      · exact hidle hev
      · -- a oneway subscriber leaves the queue to the sends that are still outstanding
        refine { ht with waits := fun hon _ => ?_ }
        have hstate : s.state = .online := hon
        have hcount : s.outstanding - 1 = ((s.called k).pending : Int) :=
          ht.count (by simp [errored, called, hstate, SubscriberState.errored])
        have hpos : 0 < s.outstanding - 1 := by
          by_contra hle
          exact hc (Bool.and_eq_true_iff.mpr
            ⟨decide_eq_true (not_lt.mp hle), by simpa [called] using hev⟩)
        change 0 < (s.called k).pending
        omega
  · split_ifs with hc
    · exact hflush
    · exact hidle (by simpa [called] using hc)

theorem Counted.counted_completed (h : s.Counted)
    (hlt : k < s.sends.length) (hok : s.kind ≠ .oneway) :
    ((s.called k).completed inst now outcomes).Counted := by
  have ht := h.tallied_called hlt 0
  simp only [completed]
  split_ifs with hc
  · simp only [Bool.and_eq_true, List.isEmpty_iff] at hc
    exact { ht with waits := fun _ hne => absurd hc.1.1 hne }
  · exact ht.counted_flush fun hk => absurd hk hok

/-- A subscriber in error stays as it is when a batch fails. -/
theorem Counted.counted_error_errored (e : SendException)
    (h : s.Counted) (herr : s.errored = true) : ((s.called k).error inst now false e).Counted := by
  have hsame : (s.called k).error inst now false e = s.called k := by
    have hst : (s.called k).state.errored = true := herr
    simp [error, hst]
  rw [hsame]
  refine ⟨⟨h.tasks, h.batch, fun hne => ?_⟩, fun hon => ?_⟩
  · exact absurd (herr.symm.trans hne) (by decide)
  · exact absurd herr (by simp [errored, show s.state = .online from hon, SubscriberState.errored])

theorem Counted.counted_exception (h : s.Counted)
    (hlt : k < s.sends.length) (hok : s.kind = .batch → s.errored = false → s.ErrorsOut e) :
    ((s.called k).exception inst now e).Counted := by
  unfold exception
  by_cases hk : s.kind = .batch
  · by_cases herr : s.errored = true
    · have hne : ((s.called k).kind != .batch) = false := by simpa [called] using hk
      rw [hne]
      exact h.counted_error_errored e herr
    · exact counted_error_of_errorsOut (fun hb => absurd hk hb) (h.batch hk)
        (hok hk (by simpa using herr))
  · have hne : ((s.called k).kind != .batch) = true := by simpa [called] using hk
    rw [hne]
    refine counted_error e hk (h.tasks hk) fun herr => ?_
    have hcount := (h.tallied_called hlt s.currentRetry).count herr
    simpa [pending, called] using hcount

/-- Every call keeps the count where failures are final as `FailsForGood` asks. -/
theorem Counted.counted_step {t : Subscriber} {call : SubscriberCall} (h : s.Counted)
    (hok : s.FailsForGood call) (hs : s.step inst call = some t) : t.Counted := by
  cases call with
  | queue now forwarded events outcomes =>
    cases hs
    exact h.counted_queue hok
  | runTimerTask now outcome =>
    simp only [step, Option.ite_none_right_eq_some, Option.some.injEq] at hs
    obtain ⟨⟨hk, htask⟩, rfl⟩ := hs
    refine h.counted_doFlush hk htask fun e he => ?_
    subst he
    exact hok
  | sent k now outcomes =>
    simp only [step, Option.ite_none_right_eq_some, Option.some.injEq] at hs
    obtain ⟨⟨_, hlt⟩, rfl⟩ := hs
    exact h.counted_sent hlt hok
  | completed k now outcomes =>
    simp only [step, Option.ite_none_right_eq_some, Option.some.injEq] at hs
    obtain ⟨⟨hk, hlt⟩, rfl⟩ := hs
    exact h.counted_completed hlt fun ho => hk (.inr ho)
  | exception k now e =>
    simp only [step, Option.ite_none_right_eq_some, Option.some.injEq] at hs
    obtain ⟨hlt, rfl⟩ := hs
    exact h.counted_exception hlt hok
  | reap =>
    cases hs
    unfold reap
    split_ifs with he
    · exact ⟨⟨h.tasks, fun _ => by simp, by simp [errored, SubscriberState.errored]⟩, by simp⟩
    · exact h
  | resetIfReaped =>
    cases hs
    unfold resetIfReaped
    split_ifs with he
    · exact ⟨⟨h.tasks, fun _ => by simp, by simp [errored, SubscriberState.errored]⟩, by simp⟩
    · exact h
  | shutdown =>
    cases hs
    exact ⟨⟨h.tasks, h.batch, h.count⟩, h.waits⟩

theorem kind_sendLoop {invoke : EventData → SendOutcome → Subscriber → Subscriber × Bool}
    (hinvoke : ∀ e outcome s, (invoke e outcome s).1.kind = s.kind) (events : List EventData)
    (outcomes : List SendOutcome) (s : Subscriber) :
    (sendLoop invoke events outcomes s).kind = s.kind := by
  induction events generalizing outcomes s with
  | nil => rfl
  | cons e rest ih =>
    have hk := hinvoke e (outcomes.headD .sentAsynchronously) { s with events := rest }
    rw [sendLoop]
    split
    · split
      · rename_i heq
        rw [heq] at hk
        exact (ih _ _).trans hk
      · rename_i heq
        rw [heq] at hk
        exact hk
    · rfl

theorem kind_flush (inst : Instance) (now : Int) (outcomes : List SendOutcome) (s : Subscriber) :
    (s.flush inst now outcomes).kind = s.kind := by
  unfold flush
  split
  · split_ifs <;> rfl
  · split_ifs
    · rfl
    · apply kind_sendLoop
      intro e outcome s
      cases outcome <;> simp [invokeOneway]
  · split_ifs
    · rfl
    · apply kind_sendLoop
      intro e outcome s
      cases outcome <;> simp [invokeTwoway]
  · dsimp only
    split_ifs
    · rfl
    · rfl
    · split <;> simp

theorem kind_step {call : SubscriberCall} (hs : s.step inst call = some t) : t.kind = s.kind := by
  have henqueue (now : Int) (events : List EventData) (outcomes : List SendOutcome)
      (s : Subscriber) : (queue.enqueue inst now events outcomes s).1.kind = s.kind := by
    unfold queue.enqueue
    split
    · exact error_kind ..
    · exact kind_flush ..
  cases call <;> simp only [step, Option.ite_none_right_eq_some, Option.some.injEq] at hs
  case queue =>
    subst hs
    unfold queue
    split
    · rfl
    · split
      · split
        · rfl
        · exact henqueue ..
      · exact henqueue ..
      · rfl
      · rfl
  case runTimerTask now outcome =>
    obtain ⟨-, rfl⟩ := hs
    unfold doFlush
    split
    · rfl
    · cases outcome <;> simp
  case sent =>
    obtain ⟨-, rfl⟩ := hs
    unfold sent
    dsimp only
    split <;> split_ifs <;> first | rfl | exact kind_flush ..
  case completed =>
    obtain ⟨-, rfl⟩ := hs
    unfold completed
    dsimp only
    split_ifs
    · rfl
    · exact kind_flush ..
  case exception =>
    obtain ⟨-, rfl⟩ := hs
    exact error_kind ..
  case reap =>
    subst hs
    unfold reap
    split_ifs <;> rfl
  case resetIfReaped =>
    subst hs
    unfold resetIfReaped
    split_ifs <;> rfl
  case shutdown =>
    subst hs
    rfl

/-- In every run whose uncounted failures are final, the queue of an online
subscriber is attended to in every state. -/
theorem attended_of_failsForGood (inst : Instance) (record : SubscriberRecord)
    (kind : SubscriberKind) (retryCount : Int) {s : Subscriber}
    (h : Reach (step inst) (fun s c => s.FailsForGood c ∧ s.DropsQueued inst c)
      (new record kind retryCount) s) : s.Attended :=
  (h.invariant (counted_new record kind retryCount) fun _ _ _ hc hok hs =>
    hc.counted_step hok.1 hs).attended

/-- A batch subscription that may be retried once. -/
def batchExample : Subscriber :=
  new ⟨"t", ⟨"s", ""⟩, false, some { ObjectPrx.sample with mode := .batchOneway },
    [("retryCount", "1")], 0, none⟩
    .batch 1

/-- An event without a context. -/
def eventExample : EventData := ⟨"ping", 0, [], []⟩

/-- A batch flush fails; when the subscriber is back online its queue is stranded:
`_outstanding` is one and nothing is outstanding. -/
theorem exists_unattended :
    ¬ ∀ (inst : Instance) (record : SubscriberRecord) (kind : SubscriberKind) (retryCount : Int)
      (s : Subscriber), Reach (step inst) Any (new record kind retryCount) s → s.Attended := by
  intro h
  have hrun : run (step Instance.defaults) batchExample
      [.queue 0 false [eventExample] [], .runTimerTask 1 (.failed .other),
        .queue 61 false [eventExample] []] =
      some { batchExample with
        outstanding := 1, events := [eventExample], next := 61, currentRetry := 1 } := by decide
  have hbad := h .defaults _ _ _ _ (Reach.of_run .refl hrun) rfl (by decide)
  exact absurd hbad.1 (by decide)

/-- An ordered subscriber with one event on its way and one in the queue. -/
theorem attended_of_failsForGood_ordered :
    ∃ s : Subscriber, s.events = [eventExample] ∧ s.Attended :=
  ⟨_, rfl, attended_of_failsForGood .defaults batchExample.record (.twoway true) 0
    (.tail (l := .queue 0 false [eventExample, eventExample] [.sentAsynchronously]) .refl
      ⟨(fun h => by cases h), fun _ _ h => by cases h⟩ rfl)⟩

end Subscriber

end Ice.IceStorm
