import Ice.IceDiscovery.LookupBooks

/-!
# A request in hand

A member takes a request out of its map, and puts it back or calls its callbacks. What holds of the
other requests in the meantime is what holds of all of them between two steps.
-/

namespace Ice.IceDiscovery

open List (append_assoc append_nil filterMap_append mem_append mem_cons mem_singleton nil_append)

variable {ι τ ε : Type*} [DecidableEq ι] {c : Config} {s : State ι τ ε} {r : Request ι τ ε}
  {h : Handle ι} {key : Key ι} {callbacks : List Nat}

/-- The requests of other keys -/
def State.others (s : State ι τ ε) (key : Key ι) : List (Request ι τ ε) :=
  s.requests.filter fun q => q.key ≠ key

variable {q : Request ι τ ε}

theorem mem_others :
    q ∈ s.others key ↔ q ∈ s.requests ∧ q.key ≠ key := by
  unfold State.others
  rw [List.mem_filter, decide_eq_true_eq]

theorem ne_of_mem_others (hq : q ∈ s.others h.key) : q.toHandle ≠ h := by
  rintro rfl
  exact (mem_others.mp hq).2 rfl

section

variable (hdistinct : s.requests.Pairwise fun a b => a.key ≠ b.key)

include hdistinct

/-- The request for its key is the only one. -/
theorem perm_others
    (hr : r ∈ s.requests) : s.requests.Perm (r :: s.others r.key) := by
  obtain ⟨before, after, hsplit⟩ := List.append_of_mem hr
  unfold State.others
  rw [hsplit] at hdistinct ⊢
  obtain ⟨-, hafter, hbefore⟩ := List.pairwise_append.mp hdistinct
  have hkeep : (before ++ r :: after).filter (fun q => q.key ≠ r.key) = before ++ after := by
    rw [List.filter_append, List.filter_cons_of_neg (by simp)]
    congr 1
    · apply List.filter_eq_self.mpr
      intro q hq
      exact decide_eq_true (hbefore q hq r (List.mem_cons_self ..))
    · apply List.filter_eq_self.mpr
      intro q hq
      exact decide_eq_true ((List.pairwise_cons.mp hafter).1 q hq).symm
  rw [hkeep]
  exact List.perm_middle

/-- No two requests have a key in common. -/
theorem eq_of_key (hq : q ∈ s.requests)
    (hr : r ∈ s.requests) (hkey : q.key = r.key) : q = r := by
  rcases mem_cons.mp ((perm_others hdistinct hr).mem_iff.mp hq) with heq | hother
  · exact heq
  · exact absurd hkey (mem_others.mp hother).2

end

/-- What holds of the given requests, when only `free` tasks may be scheduled besides theirs, and
the given callbacks are still to be called. -/
structure Books (c : Config) (s : State ι τ ε) (requests : List (Request ι τ ε))
    (free : Handle ι → Prop) (callbacks : List Nat) : Prop where
  distinct : requests.Pairwise fun a b => a.key ≠ b.key
  standing : ∀ q ∈ requests, Standing c s.log s.invocations q
  waiting : ∀ q ∈ requests,
    q.callbacks ≠ [] ∧ ((s.tasks q.toHandle).isSome ∨ s.taken = some q.toHandle)
  scheduled : ∀ g, (s.tasks g).isSome →
    free g ∨ ∃ q ∈ requests, q.toHandle = g ∧ (s.taken = some g → q.proxies ≠ ∅)
  fresh : ∀ q ∈ requests, q.requestId < s.nextId
  taken : ∀ g, s.taken = some g → g.requestId < s.nextId
  unborn : ∀ e ∈ s.log, ∀ g, e.request? = some g → g.requestId < s.nextId
  issued : ∀ i ∈ s.invocations,
    i.request.requestId < s.nextId ∧ i.attempt ≤ attempts s.log i.request
  reported : ∀ i, .failed i ∈ s.log → i.attempt ≤ attempts s.log i.request
  called : (s.log.filterMap Event.callback? ++ callbacks ++
    requests.flatMap Request.callbacks).Perm (List.range s.calls)
  told : Told c s.log
  escaped : s.escaped = false

/-- What holds between two steps -/
def Consistent (c : Config) (s : State ι τ ε) : Prop :=
  Books c s s.requests (fun _ => False) []

/-- What holds while a member has a request in hand -/
def Without (c : Config) (s : State ι τ ε) (h : Handle ι) (callbacks : List Nat) : Prop :=
  Books c s (s.others h.key) (· = h) callbacks

variable {requests : List (Request ι τ ε)} {free : Handle ι → Prop}

/-- A pending request is taken in hand. -/
theorem Consistent.take (hs : Consistent c s) (hr : r ∈ s.requests) :
    Without c s r.toHandle r.callbacks := by
  have hperm := perm_others hs.distinct hr
  have hsub (q : Request ι τ ε) (hq : q ∈ s.others r.key) : q ∈ s.requests := (mem_others.mp hq).1
  refine { hs with
    distinct := hs.distinct.filter _
    standing := fun q hq => hs.standing q (hsub q hq)
    waiting := fun q hq => hs.waiting q (hsub q hq)
    fresh := fun q hq => hs.fresh q (hsub q hq)
    scheduled := ?_
    called := ?_ }
  · intro g hg
    rcases hs.scheduled g hg with hfalse | ⟨q, hq, hhandle, htaken⟩
    · exact hfalse.elim
    · rcases mem_cons.mp (hperm.mem_iff.mp hq) with rfl | hother
      · exact Or.inl hhandle.symm
      · exact Or.inr ⟨q, hother, hhandle, htaken⟩
  · have hcallbacks := (hperm.flatMap_right Request.callbacks).append_left
      (s.log.filterMap Event.callback?)
    rw [List.flatMap_cons, ← append_assoc] at hcallbacks
    have hcalled := hs.called
    rw [append_nil] at hcalled
    exact hcallbacks.symm.trans hcalled

/-- The request is put back into its map. -/
theorem Without.store (hs : Without c s r.toHandle r.callbacks)
    (hstanding : Standing c s.log s.invocations r) (hcallbacks : r.callbacks ≠ [])
    (hfresh : r.requestId < s.nextId)
    (hwaiting : (s.tasks r.toHandle).isSome ∨ s.taken = some r.toHandle)
    (hproxies : (s.tasks r.toHandle).isSome → s.taken = some r.toHandle → r.proxies ≠ ∅) :
    Consistent c (s.store r) := by
  have hmem (q : Request ι τ ε) (hq : q ∈ (s.store r).requests) :
      q = r ∨ q ∈ s.others r.key := mem_cons.mp hq
  refine { hs with
    distinct := List.pairwise_cons.mpr ⟨fun q hq => (mem_others.mp hq).2.symm, hs.distinct⟩
    standing := ?_
    waiting := ?_
    scheduled := ?_
    fresh := ?_
    called := ?_ }
  · intro q hq
    rcases hmem q hq with rfl | hq
    · exact hstanding
    · exact hs.standing q hq
  · intro q hq
    rcases hmem q hq with rfl | hq
    · exact ⟨hcallbacks, hwaiting⟩
    · exact hs.waiting q hq
  · intro g hg
    right
    rcases hs.scheduled g hg with rfl | ⟨q, hq, hother⟩
    · exact ⟨r, List.mem_cons_self .., rfl, hproxies hg⟩
    · exact ⟨q, List.mem_cons_of_mem r hq, hother⟩
  · intro q hq
    rcases hmem q hq with rfl | hq
    · exact hfresh
    · exact hs.fresh q hq
  · have hcalled := hs.called
    rw [append_assoc] at hcalled
    rw [append_nil]
    exact hcalled

section

variable (hs : Books c s requests free callbacks)

include hs

/-- An event that is about none of the requests -/
theorem Books.event {e : Event ι τ ε}
    (hrequests : ∀ q ∈ requests, e.request? ≠ some q.toHandle)
    (hborn : ∀ g, e.request? = some g → g.requestId < s.nextId) (hcallback : e.callback? = none)
    (hfailed : ∀ i, e = .failed i → i.attempt ≤ attempts s.log i.request) :
    Books c { s with log := s.log ++ [e] } requests free callbacks := by
  have hle (g : Handle ι) : attempts s.log g ≤ attempts (s.log ++ [e]) g := by
    unfold attempts
    rw [List.countP_append]
    exact Nat.le_add_right _ _
  refine { hs with
    standing := ?_
    unborn := ?_
    issued := fun i hi => ⟨(hs.issued i hi).1, (hs.issued i hi).2.trans (hle _)⟩
    reported := ?_
    called := ?_
    told := hs.told.append_of_not hcallback }
  · intro q hq
    apply (hs.standing q hq).append
    intro e' he'
    rw [mem_singleton.mp he']
    exact hrequests q hq
  · intro e' he' g hg
    rcases mem_append.mp he' with hmem | hmem
    · exact hs.unborn e' hmem g hg
    · rw [mem_singleton.mp hmem] at hg
      exact hborn g hg
  · intro i hi
    rcases mem_append.mp hi with hmem | hmem
    · exact (hs.reported i hmem).trans (hle _)
    · exact (hfailed i (mem_singleton.mp hmem).symm).trans (hle _)
  · have hnone : [e].filterMap Event.callback? = [] := by
      rw [List.filterMap_cons, hcallback, List.filterMap_nil]
    rw [filterMap_append, hnone, append_nil]
    exact hs.called

theorem Books.shutdown :
    Books c { s with log := s.log ++ [.shutdown] } requests free callbacks :=
  hs.event (fun _ _ => nofun) (fun _ => nofun) rfl (fun _ => nofun)

/-- An invocation has ended. -/
theorem Books.erase (i : Invocation ι) :
    Books c { s with invocations := s.invocations.erase i } requests free callbacks :=
  { hs with
    standing := fun q hq => (hs.standing q hq).erase i
    issued := fun j hj => hs.issued j (List.erase_subset hj) }

/-- Invocations are made for a request in hand. -/
theorem Books.issue {new : List (Invocation ι)}
    (hrequests : ∀ q ∈ requests, ∀ i ∈ new, i.request ≠ q.toHandle)
    (hnew : ∀ i ∈ new, i.request.requestId < s.nextId ∧ i.attempt ≤ attempts s.log i.request) :
    Books c { s with invocations := s.invocations ++ new } requests free callbacks := by
  refine { hs with
    standing := fun q hq => (hs.standing q hq).invoke (hrequests q hq)
    issued := ?_ }
  intro i hi
  rcases mem_append.mp hi with hi | hi
  · exact hs.issued i hi
  · exact hnew i hi

/-- A callback is added. -/
theorem Books.call :
    Books c { s with calls := s.calls + 1 } requests free (callbacks ++ [s.calls]) := by
  refine { hs with called := ?_ }
  rw [List.range_succ, ← append_assoc, append_assoc _ [s.calls]]
  refine ((@List.perm_append_comm _ [s.calls] _).append_left _).trans ?_
  rw [← append_assoc]
  exact hs.called.append_right _

end

/-- The timer no longer holds the task of a request in hand. -/
theorem Without.cancel (hs : Without c s h callbacks) : Without c (s.cancel h) h callbacks := by
  have htasks (g : Handle ι) (hg : g ≠ h) : (s.cancel h).tasks g = s.tasks g := by
    unfold State.cancel
    exact Function.update_of_ne hg _ _
  refine { hs with waiting := ?_, scheduled := ?_ }
  · intro q hq
    rw [htasks q.toHandle (ne_of_mem_others hq)]
    exact hs.waiting q hq
  · intro g hg
    by_cases hgh : g = h
    · exact Or.inl hgh
    · rw [htasks g hgh] at hg
      exact hs.scheduled g hg

theorem cancel_tasks (s : State ι τ ε) (h : Handle ι) : (s.cancel h).tasks h = none := by
  unfold State.cancel
  exact Function.update_self h _ _

/-- The task of a request in hand is scheduled. -/
theorem Without.schedule (hs : Without c s h callbacks) (delay : Int) :
    Without c { s with tasks := Function.update s.tasks h (some delay) } h callbacks := by
  refine { hs with waiting := ?_, scheduled := ?_ }
  · intro q hq
    dsimp only
    rw [Function.update_of_ne (ne_of_mem_others hq)]
    exact hs.waiting q hq
  · intro g hg
    by_cases hgh : g = h
    · exact Or.inl hgh
    · dsimp only at hg
      rw [Function.update_of_ne hgh] at hg
      exact hs.scheduled g hg

section

variable {proxy : Option (Prx τ ε)} {cause : Cause}
  {log : List (Event ι τ ε)}

/-- A request is answered with what the members of the replica group have replied. -/
theorem due_none [LinearOrder τ] [LinearOrder ε]
    (hmembers : ∀ p, .replied r.toHandle (some p) ∈ log → p ∈ r.proxies) (hreply : cause ≠ .reply)
    (htimeout : cause = .timeout → r.proxies = ∅ →
      0 < expiries log r.toHandle ∧ c.retryCount < expiries log r.toHandle)
    (hfailure : cause = .failure → ∀ i < c.lookups,
      .failed ⟨r.toHandle, attempts log r.toHandle, i⟩ ∈ log)
    (hshutdown : cause = .shutdown → .shutdown ∈ log) :
    Due c log r.toHandle r.merged cause := by
  constructor
  · intro p hp
    exact merged_eq_some (hmembers p hp)
  · intro hcause
    exact absurd hcause hreply
  · intro hcause hresult
    apply htimeout hcause
    rw [Finset.eq_empty_iff_forall_notMem]
    intro p hp
    obtain ⟨q, hq, -⟩ := merged_eq_some hp
    rw [hresult] at hq
    cases hq
  · exact hfailure
  · exact hshutdown

/-- The callbacks of the request in hand are called. -/
theorem Without.finish (hs : Without c s r.toHandle r.callbacks)
    (hnone : s.tasks r.toHandle = none)
    (hdue : Due c s.log r.toHandle proxy cause) :
    Consistent c ((s.finished r proxy cause).erase r.key) := by
  let answers : List (Event ι τ ε) :=
    r.callbacks.map fun cb => .answered cb r.toHandle proxy cause
  have hanswers : ∀ e ∈ answers, e.request? = none := by
    intro e he
    obtain ⟨cb, -, rfl⟩ := List.mem_map.mp he
    rfl
  have hother (g : Handle ι) : ∀ e ∈ answers, e.request? ≠ some g := by
    intro e he
    rw [hanswers e he]
    exact nofun
  refine { hs with
    standing := fun q hq => (hs.standing q hq).append (hother _)
    scheduled := ?_
    unborn := ?_
    issued := ?_
    reported := ?_
    called := ?_
    told := hs.told.append_answers hdue r.callbacks }
  · intro g hg
    rcases hs.scheduled g hg with rfl | hq
    · have hsome : (s.tasks r.toHandle).isSome = true := hg
      rw [hnone] at hsome
      cases hsome
    · exact Or.inr hq
  · intro e he g hg
    rcases mem_append.mp he with he | he
    · exact hs.unborn e he g hg
    · exact absurd hg (hother g e he)
  · intro i hi
    have hattempts : attempts (s.log ++ answers) i.request = attempts s.log i.request :=
      attempts_append (hother i.request)
    exact ⟨(hs.issued i hi).1, (hs.issued i hi).2.trans hattempts.ge⟩
  · intro i hi
    have hattempts : attempts (s.log ++ answers) i.request = attempts s.log i.request :=
      attempts_append (hother i.request)
    rcases mem_append.mp hi with hi | hi
    · exact (hs.reported i hi).trans hattempts.ge
    · cases hanswers _ hi
  · have hcallbacks : answers.filterMap Event.callback? = r.callbacks := by
      rw [List.filterMap_map]
      exact List.filterMap_some
    have hcalled := hs.called
    rw [← hcallbacks, ← filterMap_append] at hcalled
    rw [append_nil]
    exact hcalled

/-- The request in hand is answered, and its task is cancelled. -/
theorem Without.end (hs : Without c s r.toHandle r.callbacks)
    (hdue : Due c s.log r.toHandle proxy cause) :
    Consistent c (((s.finished r proxy cause).cancel r.toHandle).erase r.key) :=
  hs.cancel.finish (cancel_tasks s r.toHandle) hdue

theorem erase_store (s : State ι τ ε) (r : Request ι τ ε) :
    (s.store r).erase r.key = s.erase r.key := by
  unfold State.store State.erase
  dsimp only
  rw [List.filter_cons_of_neg (by simp), List.filter_filter]
  simp only [Bool.and_self]

/-- All invocations of a new attempt are in flight. -/
theorem standing_invoked {invocations : List (Invocation ι)}
    (hretries : expiries log r.toHandle + r.retryCount = c.retryCount)
    (hagain : expiries log r.toHandle = 0 ∨ 0 ≤ r.retryCount)
    (hmembers : ∀ p, .replied r.toHandle (some p) ∈ log → p ∈ r.proxies)
    (hnil : r.hasNil = false) (hplain : r.key.isObject = true → r.proxies = ∅)
    (hissued : ∀ i ∈ invocations, i.attempt ≤ attempts log i.request)
    (hreported : ∀ i, .failed i ∈ log → i.attempt ≤ attempts log i.request) :
    Standing c (log ++ [.invoked r.toHandle])
      (invocations ++ (List.range c.lookups).map
        fun i => ⟨r.toHandle, attempts log r.toHandle + 1, i⟩)
      { r with lookupCount := c.lookups, failureCount := 0 } := by
  have hattempts : attempts (log ++ [Event.invoked r.toHandle]) r.toHandle =
      attempts log r.toHandle + 1 := by
    unfold attempts
    rw [List.countP_append, List.countP_singleton]
    simp [Event.invokes]
  have hexpiries : expiries (log ++ [Event.invoked r.toHandle]) r.toHandle =
      expiries log r.toHandle := countP_append_of_not (by simp [Event.expires])
  have hfailures : (log ++ [Event.invoked r.toHandle]).filterMap
      (Event.failure? r.toHandle (attempts log r.toHandle + 1)) = [] := by
    apply List.filterMap_eq_nil_iff.mpr
    intro e he
    rcases mem_append.mp he with he | he
    · cases e with
      | failed i =>
        apply if_neg
        rintro ⟨hrequest, hattempt⟩
        have hle := hreported i he
        rw [hrequest] at hle
        omega
      | _ => rfl
    · rw [mem_singleton.mp he]
      rfl
  have hold : invocations.filterMap
      (Invocation.lookup? r.toHandle (attempts log r.toHandle + 1)) = [] := by
    apply List.filterMap_eq_nil_iff.mpr
    intro i hi
    apply if_neg
    rintro ⟨hrequest, hattempt⟩
    have hle := hissued i hi
    rw [hrequest] at hle
    omega
  have hnew : ((List.range c.lookups).map fun i =>
      (⟨r.toHandle, attempts log r.toHandle + 1, i⟩ : Invocation ι)).filterMap
        (Invocation.lookup? r.toHandle (attempts log r.toHandle + 1)) = List.range c.lookups := by
    rw [List.filterMap_map]
    have hsome : (Invocation.lookup? r.toHandle (attempts log r.toHandle + 1) ∘ fun i =>
        (⟨r.toHandle, attempts log r.toHandle + 1, i⟩ : Invocation ι)) = some := by
      funext i
      exact if_pos ⟨rfl, rfl⟩
    rw [hsome]
    exact List.filterMap_some
  constructor
  · rw [hexpiries]
    exact hretries
  · rw [hexpiries]
    exact hagain
  · intro p hp
    apply hmembers p
    rcases mem_append.mp hp with hp | hp
    · exact hp
    · cases mem_singleton.mp hp
  · exact hnil
  · exact hplain
  · rfl
  · dsimp only
    rw [hattempts, hfailures]
    rfl
  · dsimp only
    rw [hattempts, hfailures, filterMap_append, hold, hnew, nil_append, append_nil]
    exact List.nodup_range
  · dsimp only
    rw [hattempts, hfailures, filterMap_append, hold, hnew, nil_append, nil_append]
    intro i hi
    exact List.mem_range.mp hi

end

end Ice.IceDiscovery
