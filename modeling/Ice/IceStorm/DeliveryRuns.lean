import Ice.IceStorm.Delivery

/-!
# Ordered delivery

A subscriber that keeps the order hands its events on in the order in which they were
queued, each at most once and one send at a time, and what it leaves out it had a reason
to leave out. The thread in `shutdown` is notified when the last send completes, except by
a link whose cost rule then holds back every event of the queue: its `flush` sends
nothing and nobody notifies. A queue of size zero that drops events takes one from an
empty queue.
-/

namespace Ice.IceStorm

open Ice.Lib

open Subscriber (FailsForGood)

namespace Delivery

/-- The events that the forwarding rule lets into the queue. -/
def wanted (queued : List (EventData × Bool)) : List EventData :=
  (queued.filter fun p => !p.2).map Prod.fst

/-- The events that went to the proxy. -/
def given (past : List (EventData × Fate)) : List EventData :=
  (past.filter fun p => p.2 = .handed).map Prod.fst

@[simp] theorem wanted_append (l m : List (EventData × Bool)) :
    wanted (l ++ m) = wanted l ++ wanted m := by simp [wanted]

@[simp] theorem given_append (l m : List (EventData × Fate)) :
    given (l ++ m) = given l ++ given m := by simp [given]

theorem wanted_excluded (events : List EventData) :
    wanted (events.map fun e => (e, true)) = [] := by
  simp [wanted, List.filter_eq_nil_iff]

theorem wanted_included (events : List EventData) :
    wanted (events.map fun e => (e, false)) = events := by
  induction events with
  | nil => rfl
  | cons e rest ih =>
    simpa [wanted] using ih

/-- What did not go to the proxy contributes nothing. -/
theorem given_map_of_ne {f : Fate} (hf : f ≠ .handed) (events : List EventData) :
    given (events.map fun e => (e, f)) = [] := by
  simp [given, hf]

theorem given_costFate (s : Subscriber) (events : List EventData) :
    given (events.map (costFate s)) = events.filter s.forwards := by
  induction events with
  | nil => rfl
  | cons e rest ih =>
    simp only [given] at ih
    cases hf : s.forwards e <;> simp [given, costFate, hf, ih]

theorem wanted_sublist (queued : List (EventData × Bool)) :
    (wanted queued).Sublist (queued.map Prod.fst) :=
  List.filter_sublist.map _

theorem given_sublist (past : List (EventData × Fate)) :
    (given past).Sublist (past.map Prod.fst) :=
  List.filter_sublist.map _

/-- The reasons for which an event may be left out. -/
def Justified (inst : Instance) (s : Subscriber) (p : EventData × Fate) : Prop :=
  match p.2 with
  | .handed => True
  | .full waiting => (waiting : Int) = inst.sendQueueSizeMax
  | .lost state => state ≠ .online
  | .cost => s.kind = .link ∧ s.forwards p.1 = false

/-- The cost rule holds back every waiting event, and there are some. -/
def HoldsBack (d : Delivery) : Prop :=
  d.sub.kind = .link ∧ d.sub.events ≠ [] ∧ ∀ e ∈ d.sub.events, d.sub.forwards e = false

instance (d : Delivery) : Decidable d.HoldsBack := inferInstanceAs (Decidable (_ ∧ _ ∧ _))

/-- The subscriber is online when `queue` gets to the events. -/
def Admits (now : Int) (d : Delivery) : Prop :=
  d.sub.state = .online ∨ d.sub.state = .offline ∧ d.sub.next ≤ now

/-- No event is dropped from an empty queue, and no successful send comes back to a link
that then holds back whatever a thread in `shutdown` waits for. -/
def Within (inst : Instance) (d : Delivery) : Call → Prop
  | .queue now forwarded events _ =>
    (forwarded && d.sub.record.link) = false → d.Admits now →
      inst.sendQueueSizeMaxPolicy = .dropEvents → events ≠ [] → inst.sendQueueSizeMax ≠ 0
  | .completed .. => d.waiter = .waiting → ¬d.HoldsBack
  | _ => True

/-- What a subscriber that keeps the order promises. -/
structure Delivers (inst : Instance) (d : Delivery) : Prop where
  /-- In the order in which they were queued, each at most once. -/
  order : d.handed.flatten.Sublist (d.queued.map Prod.fst)
  /-- Whatever the forwarding rule admits left the queue, once, or still waits in it. -/
  accounted : wanted d.queued = d.past.map Prod.fst ++ d.sub.events
  /-- What left the queue went to the proxy or was left out. -/
  handed : d.handed.flatten = given d.past
  /-- The forwarding rule is that of links. -/
  excluded : ∀ p ∈ d.queued, p.2 = true → d.sub.record.link = true
  justified : ∀ p ∈ d.past, Justified inst d.sub p
  /-- Only the last send can be on its way. -/
  last : d.sub.sends = [] ∨ ∃ l v, d.handed = l ++ [v] ∧ d.sub.sends = [v]
  unbroken : d.broken = false
  defined : d.undefined = false
  /-- Once every send has completed nobody is left waiting. -/
  woken : d.waiter = .waiting → d.sub.sends ≠ []

/-- Everything but the thread in `shutdown`; `left` are the events that the call in
progress has not yet looked at. -/
structure Settled (inst : Instance) (left : List EventData) (d : Delivery) : Prop where
  ordered : d.sub.kind.Ordered
  accounted : wanted d.queued = d.past.map Prod.fst ++ d.sub.events ++ left
  handed : d.handed.flatten = given d.past
  excluded : ∀ p ∈ d.queued, p.2 = true → d.sub.record.link = true
  justified : ∀ p ∈ d.past, Justified inst d.sub p
  last : d.sub.sends = [] ∨ ∃ l v, d.handed = l ++ [v] ∧ d.sub.sends = [v]
  count : d.sub.outstanding = d.sub.sends.length
  unbroken : d.broken = false
  defined : d.undefined = false
  /-- Only an online subscriber has a queue. -/
  idle : d.sub.state ≠ .online → d.sub.events = []
  /-- A subscriber that is offline waits for nothing. -/
  away : d.sub.state = .offline → d.sub.sends = []
  stopping : d.waiter ≠ .outside → d.sub.shutdown = true

/-- What every call keeps. -/
structure Sound (inst : Instance) (d : Delivery) : Prop extends Settled inst [] d where
  woken : d.waiter = .waiting → d.sub.sends ≠ []

theorem Sound.delivers {inst : Instance} {d : Delivery} (h : d.Sound inst) : d.Delivers inst where
  order := by
    rw [h.handed]
    apply (given_sublist d.past).trans
    apply List.Sublist.trans _ (wanted_sublist d.queued)
    rw [h.accounted, List.append_nil]
    exact List.sublist_append_left ..
  accounted := by simpa using h.accounted
  handed := h.handed
  excluded := h.excluded
  justified := h.justified
  last := h.last
  unbroken := h.unbroken
  defined := h.defined
  woken := h.woken

theorem sound_new (inst : Instance) (record : SubscriberRecord) {kind : SubscriberKind}
    (hk : kind.Ordered) (retryCount : Int) : (new record kind retryCount).Sound inst where
  ordered := hk
  accounted := rfl
  handed := rfl
  excluded := by simp [new]
  justified := by simp [new]
  last := .inl rfl
  count := rfl
  unbroken := rfl
  defined := rfl
  idle _ := rfl
  away _ := rfl
  stopping := by simp [new]
  woken := by simp [new]

section Steps

variable {inst : Instance} {left : List EventData} {d : Delivery}

theorem Settled.length_sends (h : d.Settled inst left) : d.sub.sends.length ≤ 1 := by
  rcases h.last with hs | ⟨_, _, _, hs⟩ <;> simp [hs]

variable {fates : List (EventData × Fate)} {k : Nat} {rest events : List EventData}

theorem Settled.justified_append (h : d.Settled inst left)
    (hf : ∀ p ∈ fates, Justified inst d.sub p) : ∀ p ∈ d.past ++ fates, Justified inst d.sub p := by
  intro p hp
  rcases List.mem_append.mp hp with hp | hp
  · exact h.justified p hp
  · exact hf p hp

/-- Notifying the thread in `shutdown` changes nothing else. -/
theorem Settled.notify (h : d.Settled inst left) :
    d.notify.Settled inst left where
  __ := h
  stopping hw := h.stopping fun hout => by simp [Delivery.notify, hout] at hw

theorem notify_waiter (d : Delivery) : d.notify.waiter ≠ .waiting := by
  simp only [notify]
  split_ifs with hw
  · simp
  · exact hw

section

variable (h : d.Settled inst left)

include h

/-- Events that nobody has looked at are discarded by a subscriber without queue. -/
theorem Settled.lose {st : SubscriberState} (hst : st ≠ .online)
    (hev : d.sub.events = []) (hleft : left = events ++ rest) :
    (d.lose st events).Settled inst rest where
  __ := h
  accounted := by
    have hid : (Prod.fst ∘ fun e : EventData => (e, Fate.lost st)) = id := rfl
    have hacc := h.accounted
    rw [hev, hleft] at hacc
    simpa [Delivery.lose, hev, hid] using hacc
  handed := by
    simp only [Delivery.lose, given_append, h.handed]
    rw [given_map_of_ne (by simp), List.append_nil]
  justified := by
    apply h.justified_append
    intro p hp
    obtain ⟨e, _, rfl⟩ := List.mem_map.mp hp
    exact hst

theorem Settled.goOffline (hs : d.sub.sends = []) (now : Int) :
    (d.goOffline inst now).Settled inst left := by
  have hcleared : { d with sub := (d.goOffline inst now).sub }.Settled inst
      (d.sub.events ++ left) :=
    { h with
      accounted := by simpa [Delivery.goOffline] using h.accounted
      idle := fun _ => rfl
      away := fun _ => hs }
  exact hcleared.lose (show .offline ≠ SubscriberState.online by simp) rfl rfl

theorem Settled.errorOut : d.errorOut.Settled inst left := by
  have hcleared : { d with sub := d.errorOut.sub }.Settled inst (d.sub.events ++ left) :=
    { h with
      accounted := by simpa [Delivery.errorOut] using h.accounted
      idle := fun _ => rfl
      away := fun hst => by cases hst }
  exact hcleared.lose (show .error ≠ SubscriberState.online by simp) rfl rfl

/-- A thread in `shutdown` is notified wherever the flag it has set is looked at. -/
theorem Settled.notifyIf {c : Bool} (hc : c = d.sub.shutdown) :
    (if c then d.notify else d).Settled inst left ∧
      (if c then d.notify else d).waiter ≠ .waiting := by
  split_ifs with hs
  · exact ⟨h.notify, notify_waiter d⟩
  · refine ⟨h, fun hw => hs ?_⟩
    rw [hc, h.stopping (by simp [hw])]

/-- After `error` nobody waits, nothing is queued and nothing will be. -/
theorem Settled.error (hon : d.sub.state ≠ .offline) (now : Int)
    {e : SendException} (he : e.hardError = true ∨ d.sub.sends = []) :
    (d.error inst now false e).Settled inst left ∧
      (d.error inst now false e).waiter ≠ .waiting := by
  rw [Delivery.error]
  simp only [Bool.false_eq_true, if_false]
  have hoff : (!e.hardError && d.sub.state == .offline && decide (now < d.sub.next)) = false := by
    simp [hon]
  rw [hoff]
  by_cases herr : d.sub.state.errored = true
  · rw [if_pos herr]
    exact h.notifyIf rfl
  · rw [if_neg herr]
    simp only [Bool.false_eq_true, if_false]
    by_cases hretry : (!e.hardError && d.sub.mayRetry) = true
    · have hsends : d.sub.sends = [] := by
        rcases he with he | hs
        · simp [he] at hretry
        · exact hs
      rw [if_pos hretry]
      exact (h.goOffline hsends now).notifyIf (Bool.and_true _)
    · rw [if_neg hretry]
      exact h.errorOut.notifyIf (Bool.and_true _)

end

/-- A send has called back: it is no longer outstanding. -/
theorem Sound.countDown (h : d.Sound inst) (hk : k < d.sub.sends.length) :
    (d.called k).countDown.Settled inst [] ∧ (d.called k).countDown.sub.sends = [] ∧
      d.sub.state ≠ .offline := by
  have hlen := h.length_sends
  have hcount := h.count
  have hempty : d.sub.sends.eraseIdx k = [] := by
    rw [← List.length_eq_zero_iff, List.length_eraseIdx_of_lt hk]
    omega
  have hmax := h.ordered.maxOutstanding
  refine ⟨{ h.toSettled with
    last := .inl hempty
    count := ?_
    unbroken := ?_
    away := fun _ => hempty }, hempty, fun hoff => ?_⟩
  · simp only [Delivery.countDown, called, Subscriber.called, hempty, List.length_nil]
    omega
  · have hone : d.sub.outstanding = 1 := by omega
    simp [Delivery.countDown, called, Subscriber.called, h.unbroken, hone, hmax]
  · rw [h.away hoff] at hk
    exact absurd hk (Nat.not_lt_zero k)

variable {v : List EventData}

section

variable (h : d.Settled inst left)

include h

section

variable (hon : d.sub.state = .online)

include hon

section

variable (hs : d.sub.sends = [])

include hs

/-- Events are given to the proxy and the run time holds them. -/
theorem Settled.begun (hfst : d.sub.events = fates.map Prod.fst ++ rest)
    (hv : given fates = v) (hj : ∀ p ∈ fates, Justified inst d.sub p) :
    ((d.hand fates v rest).begun v).Settled inst left where
  ordered := h.ordered
  accounted := by
    simp [Delivery.begun, hand, h.accounted, hfst]
  handed := by
    simp [Delivery.begun, hand, h.handed, hv]
  excluded := h.excluded
  justified := h.justified_append hj
  last := by
    right
    exact ⟨d.handed, v, rfl, by simp [Delivery.begun, hand, hs]⟩
  count := by
    have hcount := h.count
    simp only [hs, List.length_nil] at hcount
    simp [Delivery.begun, hand, hs, hcount]
  unbroken := h.unbroken
  defined := h.defined
  idle hne := absurd hon hne
  away hoff := by simp [Delivery.begun, hand, hon] at hoff
  stopping := h.stopping

/-- Events are given to the proxy, which throws. -/
theorem Settled.failed
    (hfst : d.sub.events = fates.map Prod.fst ++ rest) (hv : given fates = v)
    (hj : ∀ p ∈ fates, Justified inst d.sub p) (now : Int) (e : SendException) :
    ((d.hand fates v rest).error inst now true e).Settled inst left ∧
      ((d.hand fates v rest).error inst now true e).waiter ≠ .waiting := by
  have hcount := h.count
  simp only [hs, List.length_nil] at hcount
  have hdown : (d.hand fates v rest).countDown.Settled inst left :=
    { ordered := h.ordered
      accounted := by simp [Delivery.countDown, hand, h.accounted, hfst]
      handed := by simp [Delivery.countDown, hand, h.handed, hv]
      excluded := h.excluded
      justified := h.justified_append hj
      last := .inl hs
      count := by simp [Delivery.countDown, hand, hs, hcount]
      unbroken := by
        simp [Delivery.countDown, hand, hcount, h.unbroken, h.ordered.maxOutstanding]
      defined := h.defined
      idle := fun hne => absurd hon hne
      away := fun _ => hs
      stopping := h.stopping }
  have hne : (d.hand fates v rest).countDown.sub.state ≠ .offline := by
    simp [Delivery.countDown, hand, hon]
  exact hdown.error hne now (.inr hs)

/-- The loop of an ordered subscriber sends one event. -/
theorem Settled.sendLoop (hev : d.sub.events ≠ []) (now : Int) (outcomes : List SendOutcome) :
    (Delivery.sendLoop inst now d.sub.events outcomes d).Settled inst left ∧
      ((Delivery.sendLoop inst now d.sub.events outcomes d).waiter ≠ .waiting ∨
        (Delivery.sendLoop inst now d.sub.events outcomes d).sub.sends ≠ []) := by
  have hcount := h.count
  have hmax := h.ordered.maxOutstanding
  simp only [hs, List.length_nil] at hcount
  obtain ⟨e, rest, he⟩ := List.exists_cons_of_ne_nil hev
  have hlt : d.sub.outstanding < d.sub.kind.maxOutstanding := by omega
  have hfst : d.sub.events = [(e, Fate.handed)].map Prod.fst ++ rest := he
  have hj : ∀ p ∈ [(e, Fate.handed)], Justified inst d.sub p := by simp [Justified]
  have hbegun := h.begun hon hs hfst rfl hj
  -- the send that has begun is the only one that may be outstanding
  have hstop (outcomes : List SendOutcome) :
      Delivery.sendLoop inst now rest outcomes ((d.hand [(e, .handed)] [e] rest).begun [e]) =
        (d.hand [(e, .handed)] [e] rest).begun [e] := by
    cases rest with
    | nil => rfl
    | cons e' rest =>
      rw [Delivery.sendLoop, if_neg]
      simp only [hand, Delivery.begun]
      omega
  rw [he, Delivery.sendLoop, if_pos hlt]
  cases outcomes.headD .sentAsynchronously with
  | failed x =>
    have hfail := h.failed hon hs hfst rfl hj now x
    exact ⟨hfail.1, .inl hfail.2⟩
  | sentSynchronously | sentAsynchronously =>
    rw [hstop]
    exact ⟨hbegun, .inr (by simp [Delivery.begun])⟩

end

end

/-- A link without outstanding send empties its queue. -/
theorem Settled.forward (hk : d.sub.kind = .link)
    (hon : d.sub.state = .online) (hs : d.sub.sends = []) (now : Int) (outcome : SendOutcome)
    (hw : d.waiter = .waiting → d.sub.events ≠ [] ∧ ¬d.HoldsBack) :
    (d.forward inst now outcome).Settled inst left ∧
      ((d.forward inst now outcome).waiter ≠ .waiting ∨
        (d.forward inst now outcome).sub.sends ≠ []) := by
  have hfst : d.sub.events = (d.sub.events.map (costFate d.sub)).map Prod.fst ++ [] := by
    simp [costFate, Function.comp_def]
  have hgiven := given_costFate d.sub d.sub.events
  have hj : ∀ p ∈ d.sub.events.map (costFate d.sub), Justified inst d.sub p := by
    intro p hp
    obtain ⟨e, _, rfl⟩ := List.mem_map.mp hp
    cases hf : d.sub.forwards e <;> simp [Justified, costFate, hf, hk]
  by_cases hnone : (d.sub.events.filter d.sub.forwards).isEmpty = true
  · simp only [Delivery.forward, if_pos hnone]
    rw [List.isEmpty_iff, List.filter_eq_nil_iff] at hnone
    refine ⟨{ h with
      accounted := ?_
      handed := ?_
      justified := h.justified_append hj
      idle := fun _ => rfl }, .inl fun hwait => ?_⟩
    · simpa [costFate, Function.comp_def] using h.accounted
    · rw [given_append, hgiven, List.filter_eq_nil_iff.mpr hnone, h.handed, List.append_nil]
    · obtain ⟨hev, hback⟩ := hw hwait
      exact hback ⟨hk, hev, fun e he => by simpa using hnone e he⟩
  · simp only [Delivery.forward, if_neg hnone]
    cases outcome with
    | failed x =>
      have hfail := h.failed hon hs hfst hgiven hj now x
      exact ⟨hfail.1, .inl hfail.2⟩
    | sentSynchronously | sentAsynchronously =>
      exact ⟨h.begun hon hs hfst hgiven hj, .inr (by simp [Delivery.begun])⟩

end

theorem Settled.sound_of (h : d.Settled inst []) (hw : d.waiter ≠ .waiting ∨ d.sub.sends ≠ []) :
    d.Sound inst where
  __ := h
  woken hwait := hw.resolve_left fun hne => hne hwait

/-- `flush` sends when nothing is outstanding; only the cost rule can leave a waiting thread
without a send. -/
theorem Settled.flush (h : d.Settled inst []) (now : Int) (outcomes : List SendOutcome)
    (hw : d.waiter = .waiting → d.sub.sends ≠ [] ∨ d.sub.events ≠ [] ∧ ¬d.HoldsBack) :
    (d.flush inst now outcomes).Sound inst := by
  have hcount := h.count
  -- without a queue, or while a send is outstanding, nothing happens
  have hidle (hi : d.sub.events = [] ∨ d.sub.sends ≠ []) : d.Sound inst := by
    refine { h with woken := fun hwait => ?_ }
    rcases hi with hev | hs
    · exact (hw hwait).resolve_right fun hne => hne.1 hev
    · exact hs
  rcases h.ordered with hk | hk
  · simp only [Delivery.flush, hk]
    split_ifs with hquiet
    · refine hidle (.inl ?_)
      rcases Bool.or_eq_true_iff.mp hquiet with hne | hev
      · exact h.idle (by simpa using hne)
      · exact List.isEmpty_iff.mp hev
    · simp only [Bool.or_eq_true, bne_iff_ne, ne_eq, List.isEmpty_iff, not_or, not_not] at hquiet
      by_cases hs : d.sub.sends = []
      · have hsent := h.sendLoop hquiet.1 hs hquiet.2 now outcomes
        exact hsent.1.sound_of hsent.2
      · obtain ⟨e, rest, he⟩ := List.exists_cons_of_ne_nil hquiet.2
        have hmax := h.ordered.maxOutstanding
        have hpos := List.length_pos_iff.mpr hs
        rw [he, Delivery.sendLoop, if_neg (by omega)]
        exact hidle (.inr hs)
  · simp only [Delivery.flush, hk]
    split_ifs with hquiet
    · apply hidle
      rcases Bool.or_eq_true_iff.mp hquiet with hne | hpos
      · exact .inl (h.idle (by simpa using hne))
      · right
        intro hs
        simp [hcount, hs] at hpos
    · simp only [Bool.or_eq_true, bne_iff_ne, ne_eq, decide_eq_true_eq, not_or, not_not] at hquiet
      have hs : d.sub.sends = [] := by
        rw [← List.length_eq_zero_iff]
        omega
      have hsent := h.forward hk hquiet.1 hs now (outcomes.headD .sentAsynchronously)
        fun hwait => (hw hwait).resolve_left fun hne => hne hs
      exact hsent.1.sound_of hsent.2

/-- One event takes its place in the queue. -/
theorem Settled.append {e : EventData} (h : d.Settled inst (e :: rest))
    (hon : d.sub.state = .online) :
    { d with sub := { d.sub with events := d.sub.events ++ [e] } }.Settled inst rest where
  __ := h
  accounted := by simp [h.accounted]
  idle hne := absurd hon hne

/-- The first event makes room for a new one. -/
theorem Settled.replace {e : EventData} (h : d.Settled inst (e :: rest))
    (hon : d.sub.state = .online) (hfull : (d.sub.events.length : Int) = inst.sendQueueSizeMax)
    (hmax : inst.sendQueueSizeMax ≠ 0) : (d.replace e).Settled inst rest := by
  have hev : d.sub.events ≠ [] := by
    intro hev
    simp only [hev, List.length_nil] at hfull
    exact hmax hfull.symm
  obtain ⟨x, events, he⟩ := List.exists_cons_of_ne_nil hev
  refine { h with
    accounted := ?_
    handed := ?_
    justified := ?_
    defined := ?_
    idle := fun hne => absurd hon hne }
  · simp [Delivery.replace, h.accounted, he]
  · simp only [Delivery.replace, given_append, h.handed]
    rw [given_map_of_ne (by simp), List.append_nil]
  · apply h.justified_append
    intro p hp
    obtain ⟨y, _, rfl⟩ := List.mem_map.mp hp
    exact hfull
  · simp [Delivery.replace, h.defined, he]

/-- The loop of `queue` takes the events one after the other, `left` is what it leaves. -/
theorem Settled.push (h : d.Settled inst events) (hon : d.sub.state = .online)
    (hmax : inst.sendQueueSizeMaxPolicy = .dropEvents → events ≠ [] → inst.sendQueueSizeMax ≠ 0) :
    (d.push inst events).1.Settled inst (d.push inst events).2 := by
  induction events generalizing d with
  | nil => exact h
  | cons e rest ih =>
    rw [Delivery.push]
    split_ifs with hfull
    · cases hp : inst.sendQueueSizeMaxPolicy with
      | removeSubscriber => exact h
      | dropEvents =>
        have hne := hmax hp (by simp)
        exact ih (h.replace hon hfull hne) hon fun _ _ => hne
    · exact ih (h.append hon) hon fun hp _ => hmax hp (by simp)

/-- The loop of `queue` touches neither the sends nor the thread in `shutdown`. -/
theorem push_waiter (inst : Instance) (events : List EventData) (d : Delivery) :
    (d.push inst events).1.waiter = d.waiter := by
  induction events generalizing d with
  | nil => rfl
  | cons e rest ih =>
    rw [Delivery.push]
    split_ifs
    · cases inst.sendQueueSizeMaxPolicy with
      | removeSubscriber => rfl
      | dropEvents => exact ih (d.replace e)
    · exact ih _

/-- The branch of the online state. -/
theorem Settled.enqueue (h : d.Settled inst events) (hon : d.sub.state = .online)
    (hw : d.waiter = .waiting → d.sub.sends ≠ []) (now : Int) (outcomes : List SendOutcome)
    (hmax : inst.sendQueueSizeMaxPolicy = .dropEvents → events ≠ [] → inst.sendQueueSizeMax ≠ 0) :
    (d.enqueue inst now events outcomes).Sound inst := by
  have hpush := h.push hon hmax
  have hsub := d.push_sub inst events
  have hwaiter := d.push_waiter inst events
  rw [Delivery.enqueue]
  rcases hp : d.push inst events with ⟨t, rest⟩
  rw [hp] at hpush hsub hwaiter
  have hton : t.sub.state = .online := by rw [hsub]; exact hon
  cases rest with
  | nil =>
    refine hpush.flush now outcomes fun hwait => .inl ?_
    rw [hsub]
    exact hw (hwaiter ▸ hwait)
  | cons e rest =>
    have herr := hpush.error (by simp [hton]) now (e := .sendQueueSizeMaxReached) (.inl rfl)
    have hev := herr.1.idle (by rw [error_sub]; exact Subscriber.error_not_online)
    exact (herr.1.lose (by simp) hev (List.append_nil _).symm).sound_of (.inl herr.2)

theorem Settled.accept (h : d.Settled inst events) (hw : d.waiter = .waiting → d.sub.sends ≠ [])
    (now : Int) (outcomes : List SendOutcome)
    (hmax : d.Admits now → inst.sendQueueSizeMaxPolicy = .dropEvents → events ≠ [] →
      inst.sendQueueSizeMax ≠ 0) : (d.accept inst now events outcomes).Sound inst := by
  rw [Delivery.accept]
  cases hs : d.sub.state
  case online => exact h.enqueue hs hw now outcomes (hmax (.inl hs))
  case offline =>
    have hev := h.idle (by simp [hs])
    dsimp only
    split_ifs with hnext
    · exact { h.lose (by simp) hev (List.append_nil _).symm with woken := hw }
    · have honline : { d with sub := { d.sub with state := .online } }.Settled inst events :=
        { h with
          idle := fun hne => absurd rfl hne
          away := by simp }
      exact honline.enqueue rfl hw now outcomes (hmax (.inr ⟨hs, not_lt.mp hnext⟩))
  case error | reaped =>
    have hev := h.idle (by simp [hs])
    exact { h.lose (by simp) hev (List.append_nil _).symm with woken := hw }

section

variable (h : d.Sound inst)

include h

theorem Sound.queue (now : Int) (forwarded : Bool) (events : List EventData)
    (outcomes : List SendOutcome)
    (hok : d.Within inst (.queue now forwarded events outcomes)) :
    (d.queue inst now forwarded events outcomes).Sound inst := by
  rw [Delivery.queue]
  split_ifs with hlink
  · refine { h with accounted := ?_, excluded := ?_ }
    · simp [logged, wanted_excluded, h.accounted]
    · intro p hp hex
      rcases List.mem_append.mp hp with hp | hp
      · exact h.excluded p hp hex
      · exact (Bool.and_eq_true_iff.mp hlink).2
  · have hlogged : (d.logged (events.map fun e => (e, false))).Settled inst events :=
      { h.toSettled with
        accounted := by simp [logged, wanted_included, h.accounted]
        excluded := by
          intro p hp hex
          rcases List.mem_append.mp hp with hp | hp
          · exact h.excluded p hp hex
          · obtain ⟨e, _, rfl⟩ := List.mem_map.mp hp
            exact absurd hex (by simp) }
    exact hlogged.accept h.woken now outcomes (hok (by simpa using hlink))

theorem Sound.completed (hk : k < d.sub.sends.length) (now : Int)
    (outcomes : List SendOutcome) (hok : d.Within inst (.completed k now outcomes)) :
    ((d.called k).completed inst now outcomes).Sound inst := by
  obtain ⟨hdown, hs, _⟩ := h.countDown hk
  have hcount := hdown.count
  rw [hs] at hcount
  simp only [Delivery.completed]
  have hretry : { (d.called k).countDown with
      sub := { (d.called k).countDown.sub with currentRetry := 0 } }.Settled inst [] :=
    { hdown with }
  split_ifs with hdone
  · exact hretry.notify.sound_of (.inl (notify_waiter _))
  · refine hretry.flush now outcomes fun hwait => .inr ⟨fun hev => ?_, hok hwait⟩
    -- an empty queue would have been reported
    have hstop := hdown.stopping (hwait ▸ by simp)
    apply hdone
    simp [hcount, hstop, List.isEmpty_iff.mpr hev]

theorem Sound.exception (hk : k < d.sub.sends.length) (now : Int)
    (e : SendException) : ((d.called k).error inst now true e).Sound inst := by
  obtain ⟨hdown, hs, hoff⟩ := h.countDown hk
  have herr := hdown.error hoff now (e := e) (.inr hs)
  exact herr.1.sound_of (.inl herr.2)

/-- The thread in `shutdown` waits only while a send is outstanding. -/
theorem Sound.await (hstop : d.sub.shutdown = true) : d.await.Sound inst := by
  have hcount := h.count
  refine { h with stopping := fun _ => hstop, woken := fun hwait => ?_ }
  simp only [Delivery.await] at hwait
  split_ifs at hwait with hc
  intro hs
  have hpos := hc.1
  have hnone : d.sub.sends = [] := hs
  simp [hcount, hnone] at hpos

/-- Every call that meets the condition keeps what the subscriber promises. -/
theorem Sound.step {t : Delivery} {c : Call} (hok : d.Within inst c)
    (hs : d.step inst c = some t) : t.Sound inst := by
  cases c with
  | queue now forwarded events outcomes =>
    cases hs
    exact h.queue now forwarded events outcomes hok
  | completed k now outcomes =>
    simp only [Delivery.step, Option.ite_none_right_eq_some, Option.some.injEq] at hs
    obtain ⟨hk, rfl⟩ := hs
    exact h.completed hk now outcomes hok
  | exception k now e =>
    simp only [Delivery.step, Option.ite_none_right_eq_some, Option.some.injEq] at hs
    obtain ⟨hk, rfl⟩ := hs
    exact h.exception hk now e
  | reap =>
    cases hs
    simp only [Subscriber.reap]
    split_ifs with herr
    · have hev := h.idle (by simpa using fun ho => by simp [ho] at herr)
      exact { h with idle := fun _ => hev, away := by simp }
    · exact h
  | resetIfReaped =>
    cases hs
    simp only [Subscriber.resetIfReaped]
    split_ifs with hreaped
    · have hev := h.idle (by simpa using fun ho => by simp [ho] at hreaped)
      exact { h with idle := fun _ => hev, away := by simp }
    · exact h
  | shutdown =>
    simp only [Delivery.step, Option.ite_none_right_eq_some, Option.some.injEq] at hs
    obtain ⟨_, rfl⟩ := hs
    have hstop : { d with sub := { d.sub with shutdown := true } }.Sound inst :=
      { h with stopping := fun _ => rfl }
    exact hstop.await rfl
  | wake =>
    simp only [Delivery.step, Option.ite_none_right_eq_some, Option.some.injEq] at hs
    obtain ⟨hwait, rfl⟩ := hs
    exact h.await (h.stopping (by rcases hwait with hwait | hwait <;> simp [hwait]))

end

end Steps

/-- In every run whose calls meet the condition, events are delivered in order and the thread
in `shutdown` is woken. -/
theorem delivers_of_within (inst : Instance) (record : SubscriberRecord) {kind : SubscriberKind}
    (hk : kind.Ordered) (retryCount : Int) {d : Delivery}
    (h : Reach (step inst) (Within inst) (new record kind retryCount) d) : d.Delivers inst :=
  (h.invariant (sound_new inst record hk retryCount) fun _ _ _ hd hok hs =>
    hd.step hok hs).delivers

/-- A link of cost one. -/
def linkExample : SubscriberRecord :=
  ⟨"t", ⟨"other", "topic"⟩, true, some ⟨⟨"other", "link"⟩, .twoway, "", by decide⟩, [], 1, none⟩

/-- An event that has come a long way. -/
def costlyExample : EventData := { Subscriber.eventExample with context := [("cost", "5")] }

/-- One event is on its way and one that costs too much waits when the service stops: the
answer comes and the thread in `shutdown` is left waiting for nothing. -/
theorem exists_not_delivers :
    ¬ ∀ (inst : Instance) (record : SubscriberRecord) (kind : SubscriberKind) (retryCount : Int)
      (d : Delivery), kind.Ordered → Reach (step inst) Any (new record kind retryCount) d →
        d.Delivers inst := by
  intro h
  have hrun : run (step Instance.defaults) (new linkExample .link (-1))
      [.queue 0 false [Subscriber.eventExample] [], .queue 1 false [costlyExample] [], .shutdown,
        .completed 0 2 []] =
      some { new linkExample .link (-1) with
        sub := { Subscriber.new linkExample .link (-1) with shutdown := true }
        queued := [(Subscriber.eventExample, false), (costlyExample, false)]
        past := [(Subscriber.eventExample, .handed), (costlyExample, .cost)]
        handed := [[Subscriber.eventExample]]
        waiter := .waiting } := by decide +kernel
  have hbad := (h .defaults _ _ _ _ (.inr rfl) (Reach.of_run .refl hrun)).woken rfl
  exact hbad rfl

/-- The same link when the service stops while the event on its way is not answered yet. -/
theorem delivers_of_within_link :
    ∃ d : Delivery, d.waiter = .waiting ∧ d.sub.sends ≠ [] ∧ d.Delivers .defaults :=
  ⟨_, rfl, by decide, delivers_of_within .defaults linkExample (.inr rfl) (-1)
    (.tail (l := .shutdown)
      (.tail (l := .queue 1 false [costlyExample] [])
        (.tail (l := .queue 0 false [Subscriber.eventExample] []) .refl
          (fun _ _ hp => by cases hp) rfl)
        (fun _ _ hp => by cases hp) rfl)
      trivial rfl)⟩

/-- An event that stays in the queue of an ordered subscriber or a link is waited for in every run:
the subscriber runs as in `Subscriber.step`, and whatever fails is counted rightly there. -/
theorem attended_of_reach (inst : Instance) (record : SubscriberRecord) {kind : SubscriberKind}
    (hk : kind.Ordered) (retryCount : Int) {d : Delivery}
    (h : Reach (step inst) (fun d c => ∀ call ∈ c.subscriberCall, d.sub.DropsQueued inst call)
      (new record kind retryCount) d) :
    Reach (Subscriber.step inst) (fun s call => s.FailsForGood call ∧ s.DropsQueued inst call)
      (.new record kind retryCount) d.sub ∧ d.sub.Attended := by
  suffices hall : d.sub.kind.Ordered ∧ d.sub.Counted ∧ Reach (Subscriber.step inst)
      (fun s call => s.FailsForGood call ∧ s.DropsQueued inst call)
      (.new record kind retryCount) d.sub from ⟨hall.2.2, hall.2.1.attended⟩
  apply h.invariant
  · exact ⟨hk, Subscriber.counted_new record kind retryCount, .refl⟩
  · rintro d c t ⟨hk, hcounted, hreach⟩ hdrops hs
    have hstep := step_sub hk hs
    split at hstep
    · rename_i call hcall
      have hgood : d.sub.FailsForGood call := by
        have hne : d.sub.kind ≠ .oneway ∧ d.sub.kind ≠ .batch := by
          rcases hk with hk | hk <;> simp [hk]
        cases c <;> cases hcall
        case queue => exact fun honeway => absurd honeway hne.1
        case exception => exact fun hbatch => absurd hbatch hne.2
        all_goals trivial
      refine ⟨?_, hcounted.counted_step hgood hstep.symm,
        hreach.tail ⟨hgood, hdrops call hcall⟩ hstep.symm⟩
      rw [Subscriber.kind_step hstep.symm]
      exact hk
    · rw [Option.some.inj hstep]
      exact ⟨hk, hcounted, hreach⟩

/-- A link with an event on its way and one in the queue -/
theorem attended_of_reach_link : ∃ d : Delivery, d.sub.events ≠ [] ∧ d.sub.Attended := by
  have hdrops (now : Int) (e : EventData) (d : Delivery) :
      ∀ call ∈ (Call.queue now false [e] []).subscriberCall, d.sub.DropsQueued .defaults call := by
    rintro call ⟨⟩ _ _ hpolicy
    cases hpolicy
  exact ⟨_, by decide, (attended_of_reach .defaults linkExample (.inr rfl) (-1)
    (.tail (l := .queue 1 false [costlyExample] [])
      (.tail (l := .queue 0 false [Subscriber.eventExample] []) .refl (hdrops 0 _ _) rfl)
      (hdrops 1 _ _) rfl)).2⟩

end Delivery

end Ice.IceStorm
