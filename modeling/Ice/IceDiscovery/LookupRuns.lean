import Ice.IceDiscovery.LookupHand

/-!
# Runs of the lookups

Every callback is called once, with nothing only when it is due, as long as no failure of an
earlier attempt arrives, no reply is nil, and an id is not that of an adapter and of a replica
group.
-/

namespace Ice.IceDiscovery

open Option (some.inj)

variable {ι τ ε : Type*} [DecidableEq ι] {c : Config} {s : State ι τ ε} {r : Request ι τ ε}
  {h : Handle ι} {key : Key ι} {sent : Nat}

theorem lookUp_eq_some (hr : s.lookUp key = some r) : r ∈ s.requests ∧ r.key = key := by
  unfold State.lookUp at hr
  have hkey := List.find?_some hr
  exact ⟨List.mem_of_find?_eq_some hr, of_decide_eq_true hkey⟩

theorem lookUp_eq_none (hnone : s.lookUp key = none) {q : Request ι τ ε} (hq : q ∈ s.requests) :
    q.key ≠ key := by
  intro hkey
  exact List.find?_eq_none.mp hnone q hq (decide_eq_true hkey)

variable {log : List (Event ι τ ε)}

theorem expiries_expired :
    expiries (log ++ [.expired h]) h = expiries log h + 1 := by
  unfold expiries
  rw [List.countP_append, List.countP_singleton]
  simp [Event.expires]

omit [DecidableEq ι] in
theorem mem_expired {p : Prx τ ε} :
    .replied h (some p) ∈ log ++ [.expired h] ↔ .replied h (some p) ∈ log := by
  rw [List.mem_append, or_iff_left]
  intro hp
  cases List.mem_singleton.mp hp

/-- The request in hand is invoked. -/
theorem Without.invoked {callbacks : List Nat} (hs : Without c s r.toHandle callbacks)
    (hid : r.requestId < s.nextId) (n : Nat) :
    Without c { s with
      log := s.log ++ [.invoked r.toHandle]
      invocations := s.invocations ++ (List.range n).map
        fun i => ⟨r.toHandle, attempts s.log r.toHandle + 1, i⟩ } r.toHandle callbacks := by
  have hevent : Without c { s with log := s.log ++ [.invoked r.toHandle] } r.toHandle
      callbacks := by
    apply Books.event hs
    · intro q hq heq
      exact ne_of_mem_others hq (some.inj heq).symm
    · intro g hg
      cases hg
      exact hid
    · rfl
    · exact fun _ => nofun
  apply Books.issue hevent
  · intro q hq i hi
    obtain ⟨j, -, rfl⟩ := List.mem_map.mp hi
    exact (ne_of_mem_others hq).symm
  · intro i hi
    obtain ⟨j, -, rfl⟩ := List.mem_map.mp hi
    refine ⟨hid, ?_⟩
    unfold attempts
    rw [List.countP_append, List.countP_singleton]
    simp [Event.invokes]

/-- All invocations of the request in hand are made, and its task is scheduled. -/
theorem Without.start (hs : Without c s r.toHandle r.callbacks) (hid : r.requestId < s.nextId)
    (hcallbacks : r.callbacks ≠ [])
    (hretries : expiries s.log r.toHandle + r.retryCount = c.retryCount)
    (hagain : expiries s.log r.toHandle = 0 ∨ 0 ≤ r.retryCount)
    (hmembers : ∀ p, .replied r.toHandle (some p) ∈ s.log → p ∈ r.proxies)
    (hnil : r.hasNil = false) (hplain : r.key.isObject = true → r.proxies = ∅)
    (hnone : s.tasks r.toHandle = none)
    (htaken : s.taken ≠ some r.toHandle) (hsent : ¬ sent < c.lookups) :
    Consistent c ((s.invoke c r sent).schedule r.toHandle c.timeout) := by
  have hstanding := @standing_invoked _ _ _ _ c r s.log s.invocations hretries hagain hmembers
    hnil hplain (fun i hi => (hs.issued i hi).2) hs.reported
  have hstate : (s.invoke c r sent).schedule r.toHandle c.timeout =
      ({ s with
        log := s.log ++ [.invoked r.toHandle]
        invocations := s.invocations ++ (List.range c.lookups).map
          fun i => ⟨r.toHandle, attempts s.log r.toHandle + 1, i⟩
        tasks := Function.update s.tasks r.toHandle (some c.timeout) } : State ι τ ε).store
          { r with lookupCount := c.lookups, failureCount := 0 } := by
    unfold State.schedule State.invoke
    dsimp only [State.store]
    rw [hnone, if_neg hsent, Nat.min_eq_right (Nat.le_of_not_lt hsent)]
  rw [hstate]
  apply Without.store (r := { r with lookupCount := c.lookups, failureCount := 0 })
    ((hs.invoked hid c.lookups).schedule c.timeout) hstanding hcallbacks hid
  · left
    dsimp only
    rw [Function.update_self]
    rfl
  · intro _ heq
    exact absurd heq htaken

section

variable (hs : Consistent c s)

include hs

/-- A new request is taken in hand. -/
theorem Consistent.enter (hkey : ∀ q ∈ s.requests, q.key ≠ key) :
    Without c { s with nextId := s.nextId + 1 } ⟨key, s.nextId⟩ [] := by
  have hothers : s.others key = s.requests := by
    apply List.filter_eq_self.mpr
    intro q hq
    exact decide_eq_true (hkey q hq)
  unfold Without State.others
  dsimp only
  rw [show (s.requests.filter fun q => q.key ≠ key) = s.requests from hothers]
  exact { hs with
    scheduled := fun g hg => Or.inr ((hs.scheduled g hg).resolve_left id)
    fresh := fun q hq => Nat.lt_succ_of_lt (hs.fresh q hq)
    taken := fun g hg => Nat.lt_succ_of_lt (hs.taken g hg)
    unborn := fun e he g hg => Nat.lt_succ_of_lt (hs.unborn e he g hg)
    issued := fun i hi => ⟨Nat.lt_succ_of_lt (hs.issued i hi).1, (hs.issued i hi).2⟩ }

/-- A task is scheduled while the timer thread has taken it only for a replica group. -/
theorem Consistent.rescheduled (hr : r ∈ s.requests)
    (htask : (s.tasks r.toHandle).isSome) (htaken : s.taken = some r.toHandle) :
    r.proxies ≠ ∅ := by
  rcases hs.scheduled _ htask with hfalse | ⟨q, hq, hhandle, hproxies⟩
  · exact hfalse.elim
  · cases eq_of_key hs.distinct hq hr (congrArg Handle.key hhandle)
    exact hproxies htaken

/-- The timer thread has let go of a task that no pending request waits for. -/
theorem Consistent.release (htaken : s.taken = some h)
    (hh : ∀ q ∈ s.requests, q.toHandle ≠ h) : Consistent c { s with taken := none } := by
  refine { hs with waiting := ?_, scheduled := ?_, taken := fun g => nofun }
  · intro q hq
    refine ⟨(hs.waiting q hq).1, Or.inl ?_⟩
    rcases (hs.waiting q hq).2 with htask | heq
    · exact htask
    · rw [htaken] at heq
      exact absurd (some.inj heq).symm (hh q hq)
  · intro g hg
    rcases hs.scheduled g hg with hfalse | ⟨q, hq, hhandle, -⟩
    · exact hfalse.elim
    · exact Or.inr ⟨q, hq, hhandle, nofun⟩

/-- The timer thread takes a task. -/
theorem Consistent.takeTask (hnone : s.taken = none)
    (htask : (s.tasks h).isSome) : Consistent c { s.cancel h with taken := some h } := by
  have htasks (g : Handle ι) (hg : g ≠ h) : (s.cancel h).tasks g = s.tasks g := by
    unfold State.cancel
    exact Function.update_of_ne hg _ _
  refine { hs with waiting := ?_, scheduled := ?_, taken := ?_ }
  · intro q hq
    refine ⟨(hs.waiting q hq).1, ?_⟩
    by_cases hqh : q.toHandle = h
    · exact Or.inr (congrArg some hqh.symm)
    · rcases (hs.waiting q hq).2 with hsome | heq
      · left
        dsimp only
        rwa [htasks q.toHandle hqh]
      · rw [hnone] at heq
        cases heq
  · intro g hg
    by_cases hgh : g = h
    · dsimp only at hg
      rw [hgh, cancel_tasks] at hg
      cases hg
    · dsimp only at hg
      rw [htasks g hgh] at hg
      rcases hs.scheduled g hg with hfalse | ⟨q, hq, hhandle, -⟩
      · exact hfalse.elim
      · exact Or.inr ⟨q, hq, hhandle, fun heq => absurd (some.inj heq).symm hgh⟩
  · intro g hg
    cases hg
    rcases hs.scheduled h htask with hfalse | ⟨q, hq, rfl, -⟩
    · exact hfalse.elim
    · exact hs.fresh q hq

/-- The timer of the request in hand has expired. -/
theorem Consistent.expire (hr : r ∈ s.requests)
    (htaken : s.taken = some r.toHandle) :
    Without c { s with taken := none, log := s.log ++ [.expired r.toHandle] } r.toHandle
      r.callbacks := by
  have htake : Without c { s with taken := none } r.toHandle r.callbacks := by
    refine { hs.take hr with waiting := ?_, scheduled := ?_, taken := fun g => nofun }
    · intro q hq
      have hmem : q ∈ s.others r.key := hq
      refine ⟨(hs.waiting q (mem_others.mp hmem).1).1, Or.inl ?_⟩
      rcases (hs.waiting q (mem_others.mp hmem).1).2 with htask | heq
      · exact htask
      · rw [htaken] at heq
        exact absurd (some.inj heq).symm (ne_of_mem_others (h := r.toHandle) hmem)
    · intro g hg
      rcases (hs.take hr).scheduled g hg with heq | ⟨q, hq, hhandle, -⟩
      · exact Or.inl heq
      · exact Or.inr ⟨q, hq, hhandle, nofun⟩
  apply Books.event htake
  · intro q hq heq
    exact ne_of_mem_others (h := r.toHandle) hq (some.inj heq).symm
  · intro g hg
    cases hg
    exact hs.fresh r hr
  · rfl
  · exact fun _ => nofun

end

theorem cancel_of_none (hnone : s.tasks h = none) : s.cancel h = s := by
  unfold State.cancel
  rw [Function.update_eq_self_iff.mpr hnone.symm]

section

variable [LinearOrder τ] [LinearOrder ε]

section finish

variable {proxy : Option (Prx τ ε)} {cause : Cause} {rest : State ι τ ε → State ι τ ε}
  {requests : List (Request ι τ ε)}

omit [DecidableEq ι] in
theorem result_none (hnil : r.hasNil = false) : r.result none = some r.merged := by
  unfold Request.result
  rw [hnil]
  exact if_neg fun h => absurd h.1 Bool.false_ne_true

theorem finish_some (p : Prx τ ε) :
    s.finish r (some p) cause rest = rest (s.finished r (some p) cause) := rfl

/-- No exception escapes from `finished` where no member of a replica group has replied with nil. -/
theorem finish_none (hnil : r.hasNil = false) :
    s.finish r none cause rest = rest (s.finished r r.merged cause) := by
  unfold State.finish
  rw [result_none hnil]

theorem finishAll_eq (hnil : ∀ r ∈ requests, r.hasNil = false) :
    s.finishAll rest requests = rest (requests.foldl
      (fun s r => (s.finished r r.merged .shutdown).cancel r.toHandle) s) := by
  induction requests generalizing s with
  | nil => rfl
  | cons r requests ih =>
    rw [State.finishAll, finish_none (hnil r List.mem_cons_self),
      ih fun q hq => hnil q (List.mem_cons_of_mem r hq), List.foldl_cons]

end finish

/-- What `invoke` leaves when it throws -/
theorem erase_invoke (hsent : sent < c.lookups) :
    ((s.invoke c r sent).finished r r.merged .shutdown).erase r.key =
      (({ s with
        log := s.log ++ [.invoked r.toHandle] ++ [.shutdown]
        invocations := s.invocations ++ (List.range (min sent c.lookups)).map
          fun i => ⟨r.toHandle, attempts s.log r.toHandle + 1, i⟩ } : State ι τ ε).finished r
            r.merged .shutdown).erase r.key := by
  have hrequests := congrArg State.requests (erase_store s { r with
    lookupCount := c.lookups
    failureCount := 0 })
  unfold State.erase at hrequests
  unfold State.invoke State.finished State.erase
  dsimp only at hrequests ⊢
  rw [hrequests, if_pos hsent,
    List.append_assoc s.log [Event.invoked r.toHandle] [Event.shutdown]]
  rfl

/-- The communicator is destroyed while the request in hand is invoked. -/
theorem Without.stop (hs : Without c s r.toHandle r.callbacks) (hid : r.requestId < s.nextId)
    (hmembers : ∀ p, .replied r.toHandle (some p) ∈ s.log → p ∈ r.proxies)
    (hsent : sent < c.lookups) :
    Consistent c ((((s.invoke c r sent).finished r r.merged .shutdown).erase r.key).cancel
      r.toHandle) := by
  rw [erase_invoke hsent]
  apply Without.end (Books.shutdown (hs.invoked hid (min sent c.lookups)))
  apply due_none
  · intro p hp
    apply hmembers p
    rcases List.mem_append.mp hp with hp | hp
    · rcases List.mem_append.mp hp with hp | hp
      · exact hp
      · cases List.mem_singleton.mp hp
    · cases List.mem_singleton.mp hp
  · exact nofun
  · exact nofun
  · exact nofun
  · intro _
    exact List.mem_append_right _ (List.mem_singleton.mpr rfl)

section

variable (hs : Consistent c s)

include hs

theorem Consistent.find (key : Key ι) (now : Int) (sent : Nat) :
    Consistent c (s.find c key now sent) := by
  unfold State.find State.request
  cases hlook : s.lookUp key with
  | none =>
    have hnew : ∀ e ∈ s.log, e.request? ≠ some (⟨key, s.nextId⟩ : Handle ι) := by
      intro e he heq
      exact Nat.lt_irrefl _ (hs.unborn e he _ heq)
    have hnone : s.tasks ⟨key, s.nextId⟩ = none := by
      cases htask : s.tasks ⟨key, s.nextId⟩ with
      | none => rfl
      | some delay =>
        have hsome : (s.tasks ⟨key, s.nextId⟩).isSome := by rw [htask]; rfl
        rcases hs.scheduled ⟨key, s.nextId⟩ hsome with hfalse | ⟨q, hq, hhandle, -⟩
        · exact hfalse.elim
        · have hlt := hs.fresh q hq
          rw [hhandle] at hlt
          exact absurd hlt (Nat.lt_irrefl _)
    have hhand := (hs.enter fun q hq => lookUp_eq_none hlook hq).call
    have hexpiries : expiries ([] ++ s.log) (⟨key, s.nextId⟩ : Handle ι) = 0 :=
      expiries_append hnew
    rw [List.nil_append] at hexpiries
    have hmembers (p : Prx τ ε) : .replied ⟨key, s.nextId⟩ (some p) ∉ s.log :=
      fun hp => hnew _ hp rfl
    let r : Request ι τ ε :=
      { key
        requestId := s.nextId
        retryCount := c.retryCount
        lookupCount := 0
        failureCount := 0
        callbacks := [s.calls]
        start := now
        latency := 0
        proxies := ∅ }
    change Consistent c (if sent < c.lookups then
      (State.invoke c { s with nextId := s.nextId + 1, calls := s.calls + 1 } r sent).finish r none
        .shutdown (·.erase key)
      else (State.invoke c { s with nextId := s.nextId + 1, calls := s.calls + 1 } r
        sent).schedule r.toHandle c.timeout)
    rw [finish_none rfl]
    split
    · rename_i hsent
      have hstop := Without.stop (r := r) hhand (Nat.lt_succ_self _)
        (fun p hp => absurd hp (hmembers p)) hsent
      have hcancel (t : State ι τ ε) (ht : t.tasks = s.tasks)
          (hcancelled : Consistent c (t.cancel r.toHandle)) : Consistent c t := by
        rwa [cancel_of_none (by rw [ht]; exact hnone)] at hcancelled
      exact hcancel _ rfl hstop
    · rename_i hsent
      apply Without.start (r := r) hhand (Nat.lt_succ_self _)
      · exact List.cons_ne_nil _ _
      · change expiries s.log _ + c.retryCount = c.retryCount
        rw [hexpiries]
        exact Int.zero_add c.retryCount
      · exact Or.inl hexpiries
      · exact fun p hp => absurd hp (hmembers p)
      · rfl
      · exact fun _ => rfl
      · exact hnone
      · intro htaken
        exact absurd (hs.taken _ htaken) (Nat.lt_irrefl _)
      · exact hsent
  | some r =>
    obtain ⟨hr, hkey⟩ := lookUp_eq_some hlook
    obtain ⟨hcallbacks, hwaiting⟩ := hs.waiting r hr
    have hlength : (r.callbacks ++ [s.calls]).length ≠ 1 := by
      rw [List.length_append, List.length_singleton]
      have hpos := List.length_pos_iff.mpr hcallbacks
      omega
    dsimp only [Option.getD_some, Option.isSome_some]
    rw [if_neg hlength, if_pos rfl]
    apply Without.store (r := { r with callbacks := r.callbacks ++ [s.calls] })
      (hs.take hr).call { hs.standing r hr with }
    · exact List.append_ne_nil_of_right_ne_nil _ (List.cons_ne_nil _ _)
    · exact hs.fresh r hr
    · exact hwaiting
    · exact fun htask htaken => hs.rescheduled (r := r) hr htask htaken

/-- A proxy is given to the callbacks at once, unless members of a replica group have replied. -/
theorem Consistent.reply (hr : r ∈ s.requests) (hproxies : r.proxies = ∅)
    (p : Prx τ ε) :
    Consistent c (((s.finished r (some p) .reply).cancel r.toHandle).erase r.key) := by
  apply (hs.take hr).end
  constructor
  · intro q hq
    have hmem := (hs.standing r hr).members q hq
    rw [hproxies] at hmem
    exact absurd hmem (Finset.notMem_empty q)
  · exact fun _ => Option.some_ne_none p
  · exact nofun
  · exact nofun
  · exact nofun

theorem Consistent.foundObject (id : ι) (requestId : Nat) (proxy : Option (Prx τ ε))
    (hcareful : Careful s (.foundObject id requestId proxy)) :
    Consistent c (s.foundObject id requestId proxy) := by
  unfold State.foundObject
  split
  · exact hs
  · rename_i r hlook
    obtain ⟨hr, hkey⟩ := lookUp_eq_some hlook
    split
    · rename_i hid
      obtain ⟨p, rfl⟩ := Option.isSome_iff_exists.mp (hcareful r hr (by rw [← hkey, ← hid]))
      rw [finish_some]
      apply hs.reply hr
      apply (hs.standing r hr).plain
      rw [hkey]
      rfl
    · exact hs

/-- A member of the replica group is added to the others. -/
theorem Consistent.replica (hr : r ∈ s.requests)
    (hobject : r.key.isObject = false) (p : Prx τ ε) (now : Int) :
    Consistent c (s.replica c r (some p) now) := by
  have hstanding (latency : Int) := (hs.standing r hr).replied hobject p latency
  have hevent : Without c { s with log := s.log ++ [.replied r.toHandle (some p)] } r.toHandle
      r.callbacks := by
    apply Books.event (hs.take hr)
    · intro q hq heq
      exact ne_of_mem_others hq (some.inj heq).symm
    · intro g hg
      cases hg
      exact hs.fresh r hr
    · rfl
    · exact fun _ => nofun
  have hproxies : insert p r.proxies ≠ ∅ := Finset.insert_ne_empty p r.proxies
  unfold State.replica Request.insert
  dsimp only
  split
  · have hstate : (((s.store { r with
          latency := (now - r.start) * c.latencyMultiplier
          proxies := insert p r.proxies }).cancel r.toHandle).schedule r.toHandle
            ((now - r.start) * c.latencyMultiplier)) =
        { s.store { r with
            latency := (now - r.start) * c.latencyMultiplier
            proxies := insert p r.proxies } with
          tasks := Function.update (Function.update s.tasks r.toHandle none) r.toHandle
            (some ((now - r.start) * c.latencyMultiplier)) } := by
      unfold State.schedule State.cancel State.store
      dsimp only
      rw [Function.update_self]
    rw [hstate]
    apply Without.store (r := { r with
      latency := (now - r.start) * c.latencyMultiplier
      proxies := insert p r.proxies }) (hevent.cancel.schedule _) (hstanding _)
    · exact (hs.waiting r hr).1
    · exact hs.fresh r hr
    · left
      dsimp only
      rw [Function.update_self]
      rfl
    · exact fun _ _ => hproxies
  · apply Without.store (r := { r with proxies := insert p r.proxies }) hevent (hstanding _)
    · exact (hs.waiting r hr).1
    · exact hs.fresh r hr
    · exact (hs.waiting r hr).2
    · exact fun _ _ => hproxies

theorem Consistent.foundAdapter (adapterId : String) (requestId : Nat)
    (proxy : Option (Prx τ ε)) (isReplicaGroup : Bool) (now : Int)
    (hcareful : Careful s (.foundAdapter adapterId requestId proxy isReplicaGroup now)) :
    Consistent c (s.foundAdapter c adapterId requestId proxy isReplicaGroup now) := by
  unfold State.foundAdapter
  split
  · exact hs
  · rename_i r hlook
    obtain ⟨hr, hkey⟩ := lookUp_eq_some hlook
    split
    · rename_i hid
      obtain ⟨hsome, hplain⟩ := hcareful r hr (by rw [← hkey, ← hid])
      obtain ⟨p, rfl⟩ := Option.isSome_iff_exists.mp hsome
      split
      · apply hs.replica hr
        rw [hkey]
        rfl
      · rename_i hgroup
        rw [Bool.not_eq_true] at hgroup
        rw [finish_some]
        exact hs.reply hr (hplain hgroup) p
    · exact hs

/-- The request in hand is retried. -/
theorem Consistent.retry (hr : r ∈ s.requests)
    (htaken : s.taken = some r.toHandle) (hcount : 0 ≤ r.retryCount - 1) (hproxies : r.proxies = ∅)
    (sent : Nat) :
    let s' : State ι τ ε := { s with taken := none, log := s.log ++ [.expired r.toHandle] }
    let t := s'.invoke c { r with retryCount := r.retryCount - 1 } sent
    Consistent c (if sent < c.lookups then
      t.finish { r with retryCount := r.retryCount - 1 } none .shutdown fun t =>
        (t.erase r.key).cancel r.toHandle
      else t.schedule r.toHandle c.timeout) := by
  intro s' t
  have hstanding := hs.standing r hr
  have hhand := hs.expire hr htaken
  have hnil : { r with retryCount := r.retryCount - 1 }.hasNil = false := hstanding.nonNil
  rw [finish_none hnil]
  split
  · rename_i hsent
    exact Without.stop (r := { r with retryCount := r.retryCount - 1 }) hhand (hs.fresh r hr)
      (fun p hp => hstanding.members p (mem_expired.mp hp)) hsent
  · rename_i hsent
    apply Without.start (r := { r with retryCount := r.retryCount - 1 }) hhand
    · exact hs.fresh r hr
    · exact (hs.waiting r hr).1
    · have hretries := hstanding.retries
      dsimp only [s']
      rw [expiries_expired]
      push_cast
      omega
    · exact Or.inr hcount
    · exact fun p hp => hstanding.members p (mem_expired.mp hp)
    · exact hnil
    · exact hstanding.plain
    · cases htask : s.tasks r.toHandle with
      | none => rfl
      | some delay => exact absurd hproxies (hs.rescheduled hr (by rw [htask]; rfl) htaken)
    · exact nofun
    · exact hsent

/-- A request is answered when its timer has expired and no retry is left. -/
theorem Consistent.giveUp (hr : r ∈ s.requests)
    (htaken : s.taken = some r.toHandle) {r' : Request ι τ ε} (hsame : r'.toHandle = r.toHandle)
    (hcallbacks : r'.callbacks = r.callbacks) (hproxies : r'.proxies = r.proxies)
    (hnil : r'.hasNil = false) (hcount : r.proxies = ∅ → r.retryCount - 1 < 0) :
    let s' : State ι τ ε := { s with taken := none, log := s.log ++ [.expired r.toHandle] }
    Consistent c (s'.finish r' none .timeout fun t => (t.erase r.key).cancel r.toHandle) := by
  intro s'
  rw [finish_none hnil]
  have hstanding := hs.standing r hr
  have hhand : Without c s' r'.toHandle r'.callbacks := by
    rw [hsame, hcallbacks]
    exact hs.expire hr htaken
  have hdue : Due c s'.log r'.toHandle r'.merged .timeout := by
    apply due_none
    · intro p hp
      rw [hsame] at hp
      rw [hproxies]
      exact hstanding.members p (mem_expired.mp hp)
    · exact nofun
    · intro _ hempty
      have hretries := hstanding.retries
      have hlast := hcount (hproxies.symm.trans hempty)
      dsimp only [s']
      rw [hsame, expiries_expired]
      push_cast
      omega
    · exact nofun
    · exact nofun
  have hend := hhand.end hdue
  rw [hsame] at hend
  exact hend

theorem Consistent.requestTimedOut (htaken : s.taken = some h) (sent : Nat) :
    Consistent c (State.requestTimedOut c { s with taken := none } h sent) := by
  unfold State.requestTimedOut
  cases hlook : State.lookUp { s with taken := none } h.key with
  | none =>
    apply hs.release htaken
    rintro q hq rfl
    exact lookUp_eq_none hlook hq rfl
  | some r =>
    obtain ⟨hmem, hkey⟩ := lookUp_eq_some hlook
    have hr : r ∈ s.requests := hmem
    dsimp only
    split
    · rename_i hhandle
      subst hhandle
      rcases retry_cases (hs.standing r hr).plain (hs.standing r hr).nonNil with
        ⟨hretry, hcount, hproxies⟩ | ⟨hretry, hsame, hcallbacks, hproxies, hnil, hcount⟩
      · rw [hretry, if_pos rfl]
        exact hs.retry hr htaken hcount hproxies sent
      · rw [hretry, if_neg Bool.false_ne_true]
        exact hs.giveUp hr htaken hsame hcallbacks hproxies hnil hcount
    · rename_i hhandle
      apply hs.release htaken
      rintro q hq rfl
      exact hhandle (congrArg Request.toHandle (eq_of_key hs.distinct hr hq hkey))

theorem Consistent.exception {i : Invocation ι} (hi : i ∈ s.invocations)
    (hcareful : Careful s (.exception i)) :
    Consistent c (State.requestException
      { s with invocations := s.invocations.erase i, log := s.log ++ [.failed i] } i.request) := by
  have hborn (g : Handle ι) (hg : (Event.failed i : Event ι τ ε).request? = some g) :
      g.requestId < s.nextId := by
    cases hg
    exact (hs.issued i hi).1
  have hfailed (j : Invocation ι) (hj : (Event.failed i : Event ι τ ε) = .failed j) :
      j.attempt ≤ attempts s.log j.request := by
    cases hj
    exact (hs.issued i hi).2
  have hignored (hnot : ∀ q ∈ s.requests, q.toHandle ≠ i.request) : Consistent c
      { s with invocations := s.invocations.erase i, log := s.log ++ [.failed i] } :=
    Books.event (Books.erase hs i) (fun q hq heq => hnot q hq (some.inj heq).symm) hborn rfl
      hfailed
  unfold State.requestException
  cases hlook : State.lookUp
      { s with invocations := s.invocations.erase i, log := s.log ++ [.failed i] }
      i.request.key with
  | none =>
    apply hignored
    intro q hq heq
    exact lookUp_eq_none hlook hq (congrArg Handle.key heq)
  | some r =>
    obtain ⟨hmem, hkey⟩ := lookUp_eq_some hlook
    have hr : r ∈ s.requests := hmem
    dsimp only
    split
    · rename_i hhandle
      have hattempt := hcareful r hr hhandle
      rw [← hhandle] at hattempt
      have hstanding := (hs.standing r hr).failed hi hhandle.symm hattempt
      have hhand : Without c
          { s with invocations := s.invocations.erase i, log := s.log ++ [.failed i] }
          r.toHandle r.callbacks := by
        apply Books.event (Books.erase (hs.take hr) i) _ hborn rfl hfailed
        intro q hq heq
        apply ne_of_mem_others (h := r.toHandle) hq
        exact (hhandle.trans (some.inj heq)).symm
      rw [← hhandle, finish_none hstanding.nonNil]
      split
      · rename_i hcount
        apply Without.end (r := { r with failureCount := r.failureCount + 1 }) hhand
        apply due_none
        · exact hstanding.members
        · exact nofun
        · exact nofun
        · intro _ j hj
          exact hstanding.all_failed hcount hj
        · exact nofun
      · apply Without.store (r := { r with failureCount := r.failureCount + 1 }) hhand hstanding
        · exact (hs.waiting r hr).1
        · exact hs.fresh r hr
        · exact (hs.waiting r hr).2
        · exact fun htask htaken => hs.rescheduled (r := r) hr htask htaken
    · rename_i hhandle
      apply hignored
      intro q hq heq
      have hqr := eq_of_key hs.distinct hr hq (hkey.trans (congrArg Handle.key heq).symm)
      exact hhandle (by rw [hqr, heq])

end

variable {requests : List (Request ι τ ε)}

/-- All given requests are answered after the end of the communicator. -/
theorem Consistent.endAll (hs : Consistent c s)
    (hrequests : ∀ r ∈ requests, r ∈ s.requests)
    (hdistinct : requests.Pairwise fun a b => a.key ≠ b.key) (hshutdown : .shutdown ∈ s.log) :
    let t := requests.foldl
      (fun s r => ((s.finished r r.merged .shutdown).cancel r.toHandle).erase r.key) s
    Consistent c t ∧ ∀ q ∈ t.requests, q ∈ s.requests ∧ q ∉ requests := by
  induction requests generalizing s with
  | nil => exact ⟨hs, fun q hq => ⟨hq, List.not_mem_nil⟩⟩
  | cons r requests ih =>
    obtain ⟨hfirst, hrest⟩ := List.pairwise_cons.mp hdistinct
    have hr := hrequests r (List.mem_cons_self ..)
    have hdue : Due c s.log r.toHandle r.merged .shutdown :=
      due_none (hs.standing r hr).members nofun nofun nofun fun _ => hshutdown
    have hkeep (q : Request ι τ ε) (hq : q ∈ requests) : q ∈ s.others r.key :=
      mem_others.mpr ⟨hrequests q (List.mem_cons_of_mem r hq), (hfirst q hq).symm⟩
    obtain ⟨hall, hleft⟩ := ih ((hs.take hr).end hdue) hkeep hrest
      (List.mem_append_left _ hshutdown)
    refine ⟨hall, ?_⟩
    intro q hq
    obtain ⟨hother, hnot⟩ := hleft q hq
    have hmem := mem_others.mp (show q ∈ s.others r.key from hother)
    refine ⟨hmem.1, ?_⟩
    intro hcons
    rcases List.mem_cons.mp hcons with rfl | hcons
    · exact hmem.2 rfl
    · exact hnot hcons

variable {t : State ι τ ε}

/-- The maps are not read while the requests are answered. -/
theorem foldl_finished
    (hst : { s with requests := [] } = { t with requests := [] }) :
    { requests.foldl (fun s r => (s.finished r r.merged .shutdown).cancel r.toHandle) s with
        requests := [] } =
      { requests.foldl
          (fun s r => ((s.finished r r.merged .shutdown).cancel r.toHandle).erase r.key) t with
        requests := [] } := by
  induction requests generalizing s t with
  | nil => exact hst
  | cons r requests ih =>
    apply ih
    exact congrArg (fun u => (State.finished u r r.merged .shutdown).cancel r.toHandle) hst

theorem Consistent.destroy (hs : Consistent c s) : Consistent c s.destroy := by
  have hnil (p : Request ι τ ε → Bool) : ∀ r ∈ s.requests.filter p, r.hasNil = false :=
    fun r hr => (hs.standing r (List.mem_of_mem_filter hr)).nonNil
  let adapters := s.requests.filter (!·.key.isObject)
  let objects := s.requests.filter (·.key.isObject)
  let after : State ι τ ε := { s with log := s.log ++ [.shutdown] }
  have hdestroy : s.destroy =
      { (objects ++ adapters).foldl
          (fun s r => ((s.finished r r.merged .shutdown).cancel r.toHandle).erase r.key) after with
        requests := [] } := by
    rw [List.foldl_append]
    unfold State.destroy
    rw [finishAll_eq (hnil _), finishAll_eq (hnil _)]
    exact foldl_finished (foldl_finished (s := after) (t := after) rfl)
  rw [hdestroy]
  have hperm := List.filter_append_perm (fun r : Request ι τ ε => r.key.isObject) s.requests
  have hdistinct := hs.distinct.perm hperm.symm fun {a b} hab => hab.symm
  obtain ⟨hall, hleft⟩ := Consistent.endAll (Books.shutdown hs) (fun r hr => hperm.mem_iff.mp hr)
    hdistinct (List.mem_append_right _ (List.mem_singleton.mpr rfl))
  have hempty := List.eq_nil_iff_forall_not_mem.mpr fun q hq =>
    (hleft q hq).2 (hperm.mem_iff.mpr (hleft q hq).1)
  rw [← hempty]
  exact hall

theorem Consistent.step (hs : Consistent c s) {a : Action ι τ ε}
    (hcareful : Careful s a) (hstep : step c s a = some t) : Consistent c t := by
  unfold IceDiscovery.step at hstep
  cases a with
  | findObject id now sent =>
    cases hstep
    exact hs.find (.object id) now sent
  | findAdapter adapterId now sent =>
    cases hstep
    exact hs.find (.adapter adapterId) now sent
  | foundObject id requestId p =>
    cases hstep
    exact hs.foundObject id requestId p hcareful
  | foundAdapter adapterId requestId p isReplicaGroup now =>
    cases hstep
    exact hs.foundAdapter adapterId requestId p isReplicaGroup now hcareful
  | take h =>
    dsimp only at hstep
    split at hstep
    · rename_i hdue
      cases hstep
      exact hs.takeTask hdue.1 hdue.2
    · cases hstep
  | runTimerTask sent =>
    dsimp only at hstep
    split at hstep
    · cases hstep
    · rename_i h htaken
      cases hstep
      exact hs.requestTimedOut htaken sent
  | completed i =>
    dsimp only at hstep
    split at hstep
    · cases hstep
      exact Books.erase hs i
    · cases hstep
  | exception i =>
    dsimp only at hstep
    split at hstep
    · rename_i hi
      cases hstep
      exact hs.exception hi hcareful
    · cases hstep
  | destroy =>
    cases hstep
    exact hs.destroy

end

theorem Consistent.initial (c : Config) : Consistent c ({} : State ι τ ε) where
  distinct := .nil
  standing _ := nofun
  waiting _ := nofun
  scheduled _ := nofun
  fresh _ := nofun
  taken _ := nofun
  unborn _ := nofun
  issued _ := nofun
  reported _ := nofun
  called := .nil
  told before after cb h proxy cause hlog := by
    cases before
    all_goals cases hlog
  escaped := rfl

theorem Consistent.kept (hs : Consistent c s) : Kept c s := by
  refine ⟨?_, hs.told, hs.escaped⟩
  intro cb hcb
  have hcount := hs.called.count_eq cb
  rw [List.append_nil, List.count_append,
    List.count_eq_one_of_mem List.nodup_range (List.mem_range.mpr hcb)] at hcount
  by_cases hpending : cb ∈ s.requests.flatMap Request.callbacks
  · right
    have hpos := List.count_pos_iff.mpr hpending
    obtain ⟨r, hr, hmem⟩ := List.mem_flatMap.mp hpending
    refine ⟨List.count_eq_zero.mp (by omega), r, hr, hmem, (hs.waiting r hr).2, ?_⟩
    have hretries := (hs.standing r hr).retries
    rcases (hs.standing r hr).again with hagain | hagain
    all_goals omega
  · left
    rw [List.count_eq_zero.mpr hpending] at hcount
    exact hcount

section

variable [LinearOrder τ] [LinearOrder ε]

/-- In a run in which no failure of an earlier attempt arrives, no reply to a request is nil, and no
adapter replies where members of a replica group have replied, the callbacks are called as
promised. -/
theorem answered_of_careful (c : Config) (s : State ι τ ε) (h : Lib.Reach (step c) Careful {} s) :
    Kept c s :=
  (h.invariant (Consistent.initial c) fun _ _ _ hs ha ht => hs.step ha ht).kept

end

def twoProxies : Config := ⟨2, 300, 3, 1⟩

abbrev Sample := State Nat Nat Nat

/-- One of the invocations fails, and two members of a replica group reply in the second attempt. -/
theorem answered_replicas : ∃ s : Sample, Lib.Reach (step twoProxies) Careful {} s ∧
    s.log.filterMap Event.callback? = [0, 1] ∧ Kept twoProxies s := by
  have hrun : (Lib.run (fun s a => if decide (Careful s a) then step twoProxies s a else none)
      ({} : Sample)
      [.findAdapter "a" 0 2, .exception ⟨⟨.adapter "a", 0⟩, 1, 0⟩, .take ⟨.adapter "a", 0⟩,
        .runTimerTask 2, .findAdapter "a" 0 2,
        .foundAdapter "a" 0 (some (toLex (1, [10]))) true 20,
        .foundAdapter "a" 0 (some (toLex (2, [11]))) true 21, .take ⟨.adapter "a", 0⟩,
        .runTimerTask 2]).any
      (fun s => decide (s.log.filterMap Event.callback? = [0, 1])) = true := by
    decide +kernel
  obtain ⟨s, h, hs⟩ := Lib.Reach.exists_of_runWhere (fun _ _ => of_decide_eq_true) hrun
  exact ⟨s, h, of_decide_eq_true hs, answered_of_careful twoProxies s h⟩

/-- The failures of one lookup proxy, in the first attempt and in the second, end the lookup. -/
def endedEarly (s : Sample) : Bool :=
  match s.log.getLast? with
  | some (.answered _ h none .failure) =>
    attempts s.log.dropLast h = 2 ∧ s.log.dropLast.filterMap (Event.failure? h 2) = [0]
  | _ => false

/-- The failure of an earlier attempt is counted, so that the other invocation of the second attempt
can no longer be answered. -/
theorem not_answered_of_lateFailure : ¬∀ (c : Config) (s : Sample),
    Lib.Reach (step c) Lib.Any {} s → Kept c s := by
  intro h
  have hrun : (Lib.run (step twoProxies) ({} : Sample)
      [.findObject 7 0 2, .take ⟨.object 7, 0⟩, .runTimerTask 2,
        .exception ⟨⟨.object 7, 0⟩, 1, 0⟩, .exception ⟨⟨.object 7, 0⟩, 2, 0⟩]).any
      endedEarly = true := by
    decide +kernel
  obtain ⟨s, hreach, hs⟩ := Lib.Reach.exists_of_run hrun
  unfold endedEarly at hs
  split at hs
  · rename_i cb g hlast
    obtain ⟨hattempts, hfailures⟩ := of_decide_eq_true hs
    have hlog := (List.dropLast_append_getLast? _ hlast).symm
    have hfailed := ((h twoProxies s hreach).told _ [] cb g none .failure hlog).failure rfl 1
      (by decide)
    rw [hattempts] at hfailed
    have hmem : 1 ∈ s.log.dropLast.filterMap (Event.failure? g 2) :=
      List.mem_filterMap.mpr ⟨_, hfailed, if_pos ⟨rfl, rfl⟩⟩
    rw [hfailures] at hmem
    exact absurd hmem (by decide)
  · cases hs

end Ice.IceDiscovery
