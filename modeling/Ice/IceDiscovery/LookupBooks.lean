import Ice.IceDiscovery.Lookup

/-!
# The books of a lookup

What holds of every pending request between two steps, and what is left of it while a member has
taken a request out of its map.
-/

namespace Ice.IceDiscovery

open List (append_assoc append_nil filterMap_append mem_append mem_append_left mem_singleton)

variable {ι τ ε : Type*} {c : Config}

/-- The lookup of an invocation made in the attempt -/
def Invocation.lookup? [DecidableEq ι] (h : Handle ι) (attempt : Nat) (i : Invocation ι) :
    Option Nat :=
  if i.request = h ∧ i.attempt = attempt then some i.lookup else none

/-- The lookup that has failed in the attempt -/
def Event.failure? [DecidableEq ι] (h : Handle ι) (attempt : Nat) : Event ι τ ε → Option Nat
  | .failed i => i.lookup? h attempt
  | _ => none

section

variable [DecidableEq ι] {log : List (Event ι τ ε)} {es : List (Event ι τ ε)} {e : Event ι τ ε}
  {h : Handle ι} {proxy : Option (Prx τ ε)} {cause : Cause}

omit [DecidableEq ι] in
theorem countP_append_of_not {p : Event ι τ ε → Bool} (hes : ∀ e ∈ es, p e = false) :
    (log ++ es).countP p = log.countP p := by
  have hnone : es.countP p = 0 := by
    apply List.countP_eq_zero.mpr
    intro e he
    rw [hes e he]
    exact Bool.false_ne_true
  rw [List.countP_append, hnone, Nat.add_zero]

section

variable (hes : ∀ e ∈ es, e.request? ≠ some h)

include hes

theorem attempts_append :
    attempts (log ++ es) h = attempts log h := by
  apply countP_append_of_not
  intro e he
  have hother := hes e he
  cases e with
  | invoked request =>
    exact decide_eq_false fun heq => hother (congrArg some heq)
  | _ => rfl

theorem expiries_append :
    expiries (log ++ es) h = expiries log h := by
  apply countP_append_of_not
  intro e he
  have hother := hes e he
  cases e with
  | expired request =>
    exact decide_eq_false fun heq => hother (congrArg some heq)
  | _ => rfl

theorem failures_append {attempt : Nat} :
    (log ++ es).filterMap (Event.failure? h attempt) =
      log.filterMap (Event.failure? h attempt) := by
  have hnone : es.filterMap (Event.failure? h attempt) = [] := by
    apply List.filterMap_eq_nil_iff.mpr
    intro e he
    have hother := hes e he
    cases e with
    | failed i => exact if_neg fun heq => hother (congrArg some heq.1)
    | _ => rfl
  rw [filterMap_append, hnone, append_nil]

end

omit [DecidableEq ι] in
theorem mem_append_of_request (he : e.request? = some h) (hes : ∀ e ∈ es, e.request? ≠ some h) :
    e ∈ log ++ es ↔ e ∈ log := by
  rw [mem_append, or_iff_left]
  intro hmem
  exact hes e hmem he

/-- Events that are about no request change nothing of what is due. -/
theorem Due.append (hdue : Due c log h proxy cause) (hes : ∀ e ∈ es, e.request? = none) :
    Due c (log ++ es) h proxy cause := by
  have hother : ∀ e ∈ es, e.request? ≠ some h := by
    intro e he
    rw [hes e he]
    exact nofun
  constructor
  · intro p hp
    exact hdue.included p ((mem_append_of_request rfl hother).mp hp)
  · exact hdue.reply
  · intro hcause hproxy
    rw [expiries_append hother]
    exact hdue.timeout hcause hproxy
  · intro hcause i hi
    rw [attempts_append hother]
    exact mem_append_left _ (hdue.failure hcause i hi)
  · intro hcause
    exact mem_append_left _ (hdue.shutdown hcause)

omit [DecidableEq ι] in
/-- What is found in a log to which an event was added is that event, or was there before. -/
theorem split_concat {before after : List (Event ι τ ε)} {last : Event ι τ ε}
    (hlog : log ++ [last] = before ++ e :: after) :
    (before = log ∧ e = last) ∨ ∃ rest, log = before ++ e :: rest := by
  rcases List.eq_nil_or_concat after with rfl | ⟨rest, x, rfl⟩
  · obtain ⟨hinit, hlast⟩ := List.append_inj' hlog rfl
    exact Or.inl ⟨hinit.symm, (List.singleton_injective hlast).symm⟩
  · rw [List.concat_eq_append, ← List.cons_append, ← append_assoc] at hlog
    exact Or.inr ⟨rest, (List.append_inj' hlog rfl).1⟩

theorem Told.append_of_not (htold : Told c log) (he : e.callback? = none) :
    Told c (log ++ [e]) := by
  intro before after cb g proxy cause hlog
  rcases split_concat hlog with ⟨-, rfl⟩ | ⟨rest, hrest⟩
  · cases he
  · exact htold before rest cb g proxy cause hrest

theorem Told.append_answer {cb : Nat} (htold : Told c log) (hdue : Due c log h proxy cause) :
    Told c (log ++ [.answered cb h proxy cause]) := by
  intro before after cb' g proxy' cause' hlog
  rcases split_concat hlog with ⟨rfl, heq⟩ | ⟨rest, hrest⟩
  · cases heq
    exact hdue
  · exact htold before rest cb' g proxy' cause' hrest

/-- All callbacks are called with what is due. -/
theorem Told.append_answers (htold : Told c log) (hdue : Due c log h proxy cause)
    (callbacks : List Nat) :
    Told c (log ++ callbacks.map fun cb => .answered cb h proxy cause) := by
  induction callbacks generalizing log with
  | nil => rwa [List.map_nil, append_nil]
  | cons cb callbacks ih =>
    rw [List.map_cons, ← List.singleton_append, ← append_assoc]
    apply ih (htold.append_answer hdue)
    apply hdue.append
    intro e he
    rw [mem_singleton.mp he]
    rfl

end

section

variable [LinearOrder τ] [LinearOrder ε] {r : Request ι τ ε} {p : Prx τ ε}

/-- The proxies of a replica group are all in the answer. -/
theorem merged_eq_some (hp : p ∈ r.proxies) :
    ∃ q, r.merged = some q ∧ p.endpoints ⊆ q.endpoints := by
  have hmem : p ∈ r.proxies.sort (· ≤ ·) := (Finset.mem_sort _).mpr hp
  unfold Request.merged
  match hsort : r.proxies.sort (· ≤ ·) with
  | [] =>
    rw [hsort] at hmem
    cases hmem
  | [q] =>
    rw [hsort] at hmem
    cases mem_singleton.mp hmem
    exact ⟨p, rfl, List.Subset.refl _⟩
  | q :: q' :: l =>
    rw [hsort] at hmem
    refine ⟨_, rfl, ?_⟩
    intro e he
    exact List.mem_flatMap.mpr ⟨p, hmem, he⟩

theorem retry_cases (hplain : r.key.isObject = true → r.proxies = ∅) (hnil : r.hasNil = false) :
    (r.retry = (true, { r with retryCount := r.retryCount - 1 }) ∧ 0 ≤ r.retryCount - 1 ∧
        r.proxies = ∅) ∨
      (r.retry.1 = false ∧ r.retry.2.toHandle = r.toHandle ∧ r.retry.2.callbacks = r.callbacks ∧
        r.retry.2.proxies = r.proxies ∧ r.retry.2.hasNil = false ∧
        (r.proxies = ∅ → r.retryCount - 1 < 0)) := by
  unfold Request.retry
  cases hkey : r.key with
  | object id =>
    by_cases hcount : 0 ≤ r.retryCount - 1
    · left
      exact ⟨by rw [decide_eq_true hcount], hcount, hplain (by rw [hkey]; rfl)⟩
    · right
      exact ⟨by simpa using hcount, rfl, rfl, rfl, hnil, fun _ => by omega⟩
  | adapter id =>
    by_cases hproxies : r.proxies = ∅
    · by_cases hcount : 0 ≤ r.retryCount - 1
      · left
        dsimp only
        rw [if_pos ⟨hproxies, hnil⟩]
        exact ⟨by rw [decide_eq_true hcount], hcount, hproxies⟩
      · right
        dsimp only
        rw [if_pos ⟨hproxies, hnil⟩]
        exact ⟨by simpa using hcount, rfl, rfl, rfl, hnil, fun _ => by omega⟩
    · right
      dsimp only
      rw [if_neg fun hempty => hproxies hempty.1]
      exact ⟨rfl, rfl, rfl, rfl, hnil, fun hempty => absurd hempty hproxies⟩

end

section

variable [DecidableEq ι]

/-- What the log and the invocations tell of a pending request -/
structure Standing (c : Config) (log : List (Event ι τ ε)) (invocations : List (Invocation ι))
    (r : Request ι τ ε) : Prop where
  retries : expiries log r.toHandle + r.retryCount = c.retryCount
  again : expiries log r.toHandle = 0 ∨ 0 ≤ r.retryCount
  members : ∀ p, .replied r.toHandle (some p) ∈ log → p ∈ r.proxies
  nonNil : r.hasNil = false
  plain : r.key.isObject = true → r.proxies = ∅
  lookups : r.lookupCount = c.lookups
  failures : r.failureCount =
    (log.filterMap (Event.failure? r.toHandle (attempts log r.toHandle))).length
  single : (invocations.filterMap (Invocation.lookup? r.toHandle (attempts log r.toHandle)) ++
    log.filterMap (Event.failure? r.toHandle (attempts log r.toHandle))).Nodup
  bounded : ∀ i ∈ log.filterMap (Event.failure? r.toHandle (attempts log r.toHandle)) ++
    invocations.filterMap (Invocation.lookup? r.toHandle (attempts log r.toHandle)), i < c.lookups

variable {log es : List (Event ι τ ε)} {invocations : List (Invocation ι)} {r : Request ι τ ε}

/-- Events of other requests leave it as it is. -/
theorem Standing.append (hr : Standing c log invocations r)
    (hes : ∀ e ∈ es, e.request? ≠ some r.toHandle) : Standing c (log ++ es) invocations r := by
  constructor
  · rw [expiries_append hes]
    exact hr.retries
  · rw [expiries_append hes]
    exact hr.again
  · intro p hp
    exact hr.members p ((mem_append_of_request rfl hes).mp hp)
  · exact hr.nonNil
  · exact hr.plain
  · exact hr.lookups
  · rw [attempts_append hes, failures_append hes]
    exact hr.failures
  · rw [attempts_append hes, failures_append hes]
    exact hr.single
  · rw [attempts_append hes, failures_append hes]
    exact hr.bounded

/-- A member of the replica group has replied. -/
theorem Standing.replied [LinearOrder τ] [LinearOrder ε] (hr : Standing c log invocations r)
    (hobject : r.key.isObject = false) (p : Prx τ ε) (latency : Int) :
    Standing c (log ++ [.replied r.toHandle (some p)]) invocations
      { r with latency, proxies := insert p r.proxies } := by
  have hattempts : attempts (log ++ [Event.replied r.toHandle (some p)]) r.toHandle =
      attempts log r.toHandle := countP_append_of_not (by simp [Event.invokes])
  have hexpiries : expiries (log ++ [Event.replied r.toHandle (some p)]) r.toHandle =
      expiries log r.toHandle := countP_append_of_not (by simp [Event.expires])
  have hfailures (attempt : Nat) :
      (log ++ [Event.replied r.toHandle (some p)]).filterMap (Event.failure? r.toHandle attempt) =
        log.filterMap (Event.failure? r.toHandle attempt) := by
    rw [filterMap_append]
    exact append_nil _
  constructor
  · rw [hexpiries]
    exact hr.retries
  · rw [hexpiries]
    exact hr.again
  · intro q hq
    rcases mem_append.mp hq with hq | hq
    · exact Finset.mem_insert_of_mem (hr.members q hq)
    · cases mem_singleton.mp hq
      exact Finset.mem_insert_self p r.proxies
  · exact hr.nonNil
  · intro hkey
    rw [hobject] at hkey
    cases hkey
  · exact hr.lookups
  · dsimp only
    rw [hattempts, hfailures]
    exact hr.failures
  · dsimp only
    rw [hattempts, hfailures]
    exact hr.single
  · dsimp only
    rw [hattempts, hfailures]
    exact hr.bounded

section

variable (hr : Standing c log invocations r)

include hr

/-- An invocation that has ended is no longer in flight. -/
theorem Standing.erase (i : Invocation ι) :
    Standing c log (invocations.erase i) r := by
  have hsub := (List.erase_sublist (a := i) (l := invocations)).filterMap
    (Invocation.lookup? r.toHandle (attempts log r.toHandle))
  exact { hr with
    single := hr.single.sublist (hsub.append_right _)
    bounded := fun j hj => hr.bounded j ((hsub.append_left _).subset hj) }

/-- An invocation of the current attempt has failed. -/
theorem Standing.failed {i : Invocation ι}
    (hi : i ∈ invocations) (hrequest : i.request = r.toHandle)
    (hattempt : i.attempt = attempts log r.toHandle) :
    Standing c (log ++ [.failed i]) (invocations.erase i)
      { r with failureCount := r.failureCount + 1 } := by
  have hattempts : attempts (log ++ [Event.failed i]) r.toHandle = attempts log r.toHandle :=
    countP_append_of_not (by simp [Event.invokes])
  have hexpiries : expiries (log ++ [Event.failed i]) r.toHandle = expiries log r.toHandle :=
    countP_append_of_not (by simp [Event.expires])
  have hlookup : i.lookup? r.toHandle (attempts log r.toHandle) = some i.lookup :=
    if_pos ⟨hrequest, hattempt⟩
  have hfailures : (log ++ [Event.failed i]).filterMap
      (Event.failure? r.toHandle (attempts log r.toHandle)) =
        log.filterMap (Event.failure? r.toHandle (attempts log r.toHandle)) ++ [i.lookup] := by
    have hlast : Event.failure? r.toHandle (attempts log r.toHandle)
        (Event.failed i : Event ι τ ε) = some i.lookup := hlookup
    rw [filterMap_append, List.filterMap_cons, hlast, List.filterMap_nil]
  have hperm := (List.perm_cons_erase hi).filterMap
    (Invocation.lookup? r.toHandle (attempts log r.toHandle))
  rw [List.filterMap_cons, hlookup] at hperm
  constructor
  · rw [hexpiries]
    exact hr.retries
  · rw [hexpiries]
    exact hr.again
  · intro p hp
    apply hr.members p
    rcases mem_append.mp hp with hp | hp
    · exact hp
    · cases mem_singleton.mp hp
  · exact hr.nonNil
  · exact hr.plain
  · exact hr.lookups
  · dsimp only
    rw [hattempts, hfailures, List.length_append, List.length_singleton, ← hr.failures]
  · dsimp only
    rw [hattempts, hfailures, ← append_assoc]
    have hall := (hperm.append_right _).nodup_iff.mp hr.single
    exact (List.perm_append_singleton _ _).nodup_iff.mpr hall
  · dsimp only
    rw [hattempts, hfailures]
    intro j hj
    apply hr.bounded j
    rcases mem_append.mp hj with hj | hj
    · rcases mem_append.mp hj with hj | hj
      · exact mem_append_left _ hj
      · rw [mem_singleton.mp hj]
        exact List.mem_append_right _ (hperm.mem_iff.mpr (List.mem_cons_self ..))
    · exact List.mem_append_right _ (hperm.mem_iff.mpr (List.mem_cons_of_mem _ hj))

/-- When so many invocations have failed as there are lookup proxies, all have. -/
theorem Standing.all_failed
    (hcount : r.failureCount = r.lookupCount) {i : Nat} (hi : i < c.lookups) :
    .failed ⟨r.toHandle, attempts log r.toHandle, i⟩ ∈ log := by
  have hnodup := (List.nodup_append.mp hr.single).2.1
  have hsub : (log.filterMap (Event.failure? r.toHandle (attempts log r.toHandle))).Subperm
      (List.range c.lookups) := by
    apply hnodup.subperm
    intro j hj
    exact List.mem_range.mpr (hr.bounded j (mem_append_left _ hj))
  have hlength : (List.range c.lookups).length ≤
      (log.filterMap (Event.failure? r.toHandle (attempts log r.toHandle))).length := by
    rw [List.length_range, ← hr.failures, hcount, hr.lookups]
  have hmem := (hsub.perm_of_length_le hlength).mem_iff.mpr (List.mem_range.mpr hi)
  obtain ⟨e, he, hsome⟩ := List.mem_filterMap.mp hmem
  cases e with
  | failed j =>
    obtain ⟨⟨hrequest, hattempt⟩, hlookup⟩ := Option.ite_none_right_eq_some.mp hsome
    rw [← hrequest, ← Option.some.inj hlookup]
    rw [← hrequest] at hattempt
    rwa [← hattempt]
  | _ => cases hsome

/-- New invocations of other requests -/
theorem Standing.invoke {new : List (Invocation ι)}
    (hnew : ∀ i ∈ new, i.request ≠ r.toHandle) : Standing c log (invocations ++ new) r := by
  have hnone : new.filterMap (Invocation.lookup? r.toHandle (attempts log r.toHandle)) = [] := by
    apply List.filterMap_eq_nil_iff.mpr
    intro i hi
    exact if_neg fun heq => hnew i hi heq.1
  have hall : (invocations ++ new).filterMap
      (Invocation.lookup? r.toHandle (attempts log r.toHandle)) =
        invocations.filterMap (Invocation.lookup? r.toHandle (attempts log r.toHandle)) := by
    rw [filterMap_append, hnone, append_nil]
  exact { hr with
    single := by rw [hall]; exact hr.single
    bounded := by rw [hall]; exact hr.bounded }

end

end

end Ice.IceDiscovery
