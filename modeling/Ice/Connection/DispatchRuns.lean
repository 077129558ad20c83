import Ice.Connection.DispatchAccounts

/-!
# Every request is released once

What a thread does with the requests that it has to release. A run keeps the accounts in which an
`int` can hold the dispatch count, no callback of an interceptor throws out of `ice_exception`, and
a late warning finds the connection open.
-/

namespace Ice.Protocol.Dispatching

open Lib
open Program (Triple Returns)
open Connection (SocketOperation)
open ConnectionI (DispatchCall Reading requestMsg requestBatchMsg)

/-- A program that returns and keeps the accounts -/
abbrev Keeps {α : Type} := @Returns State Point Failure α Resource _ Consistent Bounded

/-- A program that may throw, and keeps the accounts -/
abbrev Takes {α : Type} := @Triple State Point Failure α Resource _ Consistent Bounded

/-- The request was released, or a local exception is thrown and it was not. -/
def Ends (request : Nat) (x : Except Failure Unit) (R : Resource) : Prop :=
  x = .ok () ∧ R = 0 ∨
    ∃ ex, x = .error (.localException ex) ∧ R = ({.requests request 1} : Resource)

section members

variable {α : Type} {R : Resource} {request first i a : Nat} {incoming : Incoming}

theorem keeps_perform {f : State → α × State} {Q : α → Resource → Prop}
    (h : ∀ s F, Consistent s (R + F) → ∃ R', Consistent (f s).2 (R' + F) ∧ Q (f s).1 R') :
    Keeps R (perform f) Q := by
  apply Returns.act
  intro s F hJ _
  exact h s F hJ

theorem keeps_modify {f : State → State} {R' : Resource}
    (h : ∀ s F, Consistent s (R + F) → Consistent (f s) (R' + F)) :
    Keeps R (modify f) fun _ R'' => R'' = R' :=
  keeps_perform fun s F hJ => ⟨R', h s F hJ, rfl⟩

theorem keeps_choose {l : List α} : Keeps R (choose l) fun x R' => x ∈ l ∧ R' = R := by
  apply Triple.act
  intro s F hJ _ o ho
  obtain ⟨x, hx, rfl⟩ := List.mem_map.mp ho
  exact ⟨R, hJ, x, rfl, hx, rfl⟩

theorem takes_mayThrow : Takes R mayThrow fun x R' =>
    (x = .ok () ∨ ∃ ex, x = .error (.localException ex)) ∧ R' = R := by
  apply Triple.act
  intro s F hJ _ o ho
  simp only [List.mem_cons, List.not_mem_nil, or_false] at ho
  rcases ho with rfl | rfl | rfl
  · exact ⟨R, hJ, .inl rfl, rfl⟩
  all_goals exact ⟨R, hJ, .inr ⟨_, rfl⟩, rfl⟩

theorem takes_warn : Takes R (warn .internal) fun x R' =>
    (x = .ok () ∨ ∃ ex, x = .error (.localException ex)) ∧ R' = R := by
  apply Returns.bind_triple keeps_choose
  rintro text R' ⟨-, rfl⟩
  cases text with
  | false => exact Triple.pure ⟨.inl rfl, rfl⟩
  | true =>
    apply Triple.act
    intro s F hJ _ o ho
    split at ho
    · rw [List.mem_singleton.mp ho]
      exact ⟨_, hJ, .inr ⟨_, rfl⟩, rfl⟩
    · rw [List.mem_singleton.mp ho]
      exact ⟨_, hJ, .inl rfl, rfl⟩

/-- A text is logged, as the connection is not closed. -/
theorem keeps_warn : Keeps R (warn .warning) fun _ R' => R' = R := by
  apply Returns.bind keeps_choose
  rintro text R' ⟨-, rfl⟩
  cases text with
  | false => exact Returns.pure rfl
  | true =>
    apply Triple.act
    intro s F hJ hopen o ho
    rw [if_neg hopen] at ho
    rw [List.mem_singleton.mp ho]
    exact ⟨_, hJ, (), rfl, rfl⟩

/-- What is caught is no assertion. -/
theorem takes_catchAll {body handler : Task α} {Q T : Except Failure α → Resource → Prop}
    (hbody : Takes R body Q) (hok : ∀ a R', Q (.ok a) R' → T (.ok a) R')
    (herror : ∀ e R', Q (.error e) R' → e ≠ .assertion ∧ Takes R' handler T) :
    Takes R (catchAll body handler) T := by
  apply Triple.tryCatch hbody hok
  intro e R' hQ
  obtain ⟨he, hhandler⟩ := herror e R' hQ
  cases e with
  | assertion => exact absurd rfl he
  | localException ex => exact hhandler
  | responseSent => exact hhandler
  | std => exact hhandler

theorem keeps_sendResponse (hrequest : incoming.request = request) :
    Keeps {.requests request 1} (sendResponse incoming) fun _ R' => R' = 0 := by
  subst hrequest
  apply keeps_modify
  intro s F hJ
  rw [zero_add]
  exact hJ.release Nat.one_pos (ConnectionI.lowers_sendResponse incoming.reply)

theorem keeps_sendNoResponse (hrequest : incoming.request = request) :
    Keeps {.requests request 1} (sendNoResponse incoming) fun _ R' => R' = 0 := by
  subst hrequest
  apply keeps_modify
  intro s F hJ
  rw [zero_add]
  exact hJ.release Nat.one_pos ConnectionI.lowers_sendNoResponse

/-- The assertion of `invokeException` holds. -/
theorem keeps_invokeException {n : Nat} (hpos : 0 < n) (ex : LocalException) :
    Keeps {.requests first n} (invokeException first n ex) fun _ R' => R' = 0 := by
  apply Triple.act
  intro s F hJ _ o ho
  rw [if_neg (Int.not_lt.mpr hJ.le_dispatchCount), List.mem_singleton] at ho
  subst ho
  refine ⟨0, ?_, (), rfl, rfl⟩
  rw [zero_add]
  exact hJ.release hpos (ConnectionI.lowers_invokeException ex n)

theorem keeps_respond (hrequest : incoming.request = request) :
    Keeps {.requests request 1} (respond incoming) fun _ R' => R' = 0 := by
  rw [respond]
  split
  · exact keeps_sendResponse hrequest
  · exact keeps_sendNoResponse hrequest

variable {p : Task Unit}

theorem ends_of_keeps (h : Keeps {.requests request 1} p fun _ R' => R' = 0) :
    Takes {.requests request 1} p (Ends request) := by
  apply Triple.conseq h
  rintro x R' ⟨-, rfl, rfl⟩
  exact .inl ⟨rfl, rfl⟩

/-- What is thrown before a request was released -/
theorem ends_bind {q : Task Unit}
    (hq : Takes {.requests request 1} q fun x R' =>
      (x = .ok () ∨ ∃ ex, x = .error (.localException ex)) ∧ R' = {.requests request 1})
    (h : Takes {.requests request 1} p (Ends request)) :
    Takes {.requests request 1} (do q; p) (Ends request) := by
  apply Triple.bind hq
  · rintro - R' ⟨-, rfl⟩
    exact h
  · rintro e R' ⟨hx | ⟨ex, hx⟩, rfl⟩
    · cases hx
    · exact .inr ⟨ex, hx, rfl⟩

section

variable (hrequest : incoming.request = request)

include hrequest

theorem ends_handleException :
    Takes {.requests request 1} (handleException incoming) (Ends request) := by
  apply ends_bind takes_warn
  split
  · exact ends_bind takes_mayThrow (ends_of_keeps (keeps_sendResponse hrequest))
  · exact ends_of_keeps (keeps_sendNoResponse hrequest)

/-- The locator is done with a request that is still to be released, or that was released. -/
theorem takes_servantLocatorFinished :
    Takes {.requests request 1} (servantLocatorFinished incoming) fun x R' =>
      x = .ok true ∧ R' = {.requests request 1} ∨ x = .ok false ∧ R' = 0 ∨
        ∃ ex, x = .error (.localException ex) ∧ R' = {.requests request 1} := by
  apply Returns.bind_triple keeps_choose
  rintro finished R' ⟨-, rfl⟩
  cases finished with
  | true => exact Triple.pure (.inl ⟨rfl, rfl⟩)
  | false =>
    apply Triple.bind (ends_handleException hrequest)
    · rintro _ R' (⟨-, rfl⟩ | ⟨ex, hx, -⟩)
      · exact Triple.pure (.inr (.inl ⟨rfl, rfl⟩))
      · cases hx
    · rintro e R' (⟨hx, -⟩ | ⟨ex, hx, rfl⟩)
      · cases hx
      · cases hx
        exact .inr (.inr ⟨ex, rfl, rfl⟩)

/-- Whatever is thrown, the request is released. -/
theorem keeps_finishWith {finish : Task Unit}
    (hfinish : Takes {.requests request 1} finish (Ends request)) :
    Keeps {.requests request 1} (finishWith incoming finish) fun _ R' => R' = 0 := by
  have hfinished : ∀ finished : Bool, finished = true →
      Takes {.requests request 1} (if finished then finish else pure ()) (Ends request) := by
    rintro _ rfl
    exact hfinish
  have hbody : Takes {.requests request 1} (do
      let finished ← if incoming.locator then servantLocatorFinished incoming else pure true
      if finished then finish else pure ()) (Ends request) := by
    split
    · apply Triple.bind (takes_servantLocatorFinished hrequest)
      · rintro finished R' (⟨hx, rfl⟩ | ⟨hx, rfl⟩ | ⟨ex, hx, -⟩)
        · cases hx
          exact hfinished true rfl
        · cases hx
          exact Triple.pure (.inl ⟨rfl, rfl⟩)
        · cases hx
      · rintro e R' (⟨hx, -⟩ | ⟨hx, -⟩ | ⟨ex, hx, rfl⟩)
        · cases hx
        · cases hx
        · cases hx
          exact .inr ⟨ex, rfl, rfl⟩
    · exact hfinished true rfl
  apply Triple.tryCatch hbody
  · rintro _ R' (⟨hx, rfl⟩ | ⟨ex, hx, -⟩)
    · exact ⟨_, hx, rfl⟩
    · cases hx
  · rintro e R' (⟨hx, -⟩ | ⟨ex, hx, rfl⟩)
    · cases hx
    · cases hx
      rw [hrequest]
      exact keeps_invokeException Nat.one_pos ex

theorem keeps_response :
    Keeps {.requests request 1} (response incoming) fun _ R' => R' = 0 :=
  keeps_finishWith hrequest (ends_of_keeps (keeps_respond hrequest))

theorem keeps_exception :
    Keeps {.requests request 1} (exception incoming) fun _ R' => R' = 0 :=
  keeps_finishWith hrequest (ends_handleException hrequest)

end

/-- Who asks first sends the response, or kills the dispatch. -/
theorem takes_checkResponseSent :
    Takes {.async a request} (checkResponseSent a) fun x R' =>
      x = .ok () ∧ R' = {.requests request 1} ∨ x = .error .responseSent ∧ R' = 0 := by
  apply Triple.act
  intro s F hJ _ o ho
  obtain ⟨async, ha, -⟩ := hJ.holds
  rw [ha] at ho
  dsimp only at ho
  split at ho
  · rw [List.mem_singleton.mp ho]
    refine ⟨0, ?_, .inr ⟨rfl, rfl⟩⟩
    rw [zero_add]
    exact hJ.forget
  · rename_i hsent
    rw [List.mem_singleton.mp ho]
    exact ⟨_, hJ.send ha (by simpa using hsent), .inl ⟨rfl, rfl⟩⟩

/-- The thread that dispatches a request kills its asynchronous dispatch. -/
theorem takes_kill (hasync : incoming.inAsync = some a) :
    Takes {.handle i incoming} (kill a) fun x R' =>
      x = .ok () ∧ R' = {.requests incoming.request 1} + {.handle i incoming} ∨
        x = .error .responseSent ∧ R' = {.handle i incoming} := by
  apply Triple.update
  intro s F hJ
  refine ⟨{.async a incoming.request} + {.handle i incoming}, ?_, ?_⟩
  · rw [add_assoc]
    exact hJ.knows (hJ.asyncOf hasync)
  · apply Triple.conseq (Triple.frame takes_checkResponseSent _)
    rintro x R' ⟨R₁, rfl, ⟨hx, rfl⟩ | ⟨hx, rfl⟩⟩
    · exact .inl ⟨hx, rfl⟩
    · exact .inr ⟨hx, zero_add _⟩

theorem keeps_getInAsync :
    Keeps {.handle i incoming} (getInAsync i) fun x R' =>
      x = incoming.inAsync ∧ R' = {.handle i incoming} := by
  apply keeps_perform
  intro s F hJ
  refine ⟨_, hJ, ?_, rfl⟩
  rw [hJ.holds.1]
  rfl

theorem modify_of_getElem? {l : List α} {x : α} (f : α → α) (h : l[i]? = some x) :
    l.modify i f = l.set i (f x) := by
  apply List.ext_getElem?
  intro j
  rw [List.getElem?_modify, List.getElem?_set]
  by_cases hij : i = j
  · subst hij
    obtain ⟨hlt, rfl⟩ := List.getElem?_eq_some_iff.mp h
    simp [hlt]
  · simp [hij]

/-- The thread that dispatches a request still has its `Incoming`. -/
def Serving (i : Nat) (incoming : Incoming) (R : Resource) : Prop :=
  ∃ inAsync, R = ({.handle i { incoming with inAsync }} : Resource)

theorem keeps_setInAsync (hasync : incoming.inAsync = some a) :
    Keeps ({.handle i incoming} + {.requests incoming.request 1}) (setInAsync i none)
      fun _ R' => R' = {.handle i { incoming with inAsync := none }} := by
  apply keeps_modify
  intro s F hJ
  rw [add_assoc] at hJ
  rw [modify_of_getElem? _ hJ.holds.1]
  exact hJ.startOver hasync

theorem takes_startOver :
    Takes {.handle i incoming} (startOver i) fun x R' =>
      x ≠ .error .assertion ∧ Serving i incoming R' := by
  apply Returns.bind_triple keeps_getInAsync
  rintro inAsync R' ⟨rfl, rfl⟩
  split
  · exact Triple.pure ⟨by simp, _, rfl⟩
  · rename_i a hasync
    apply Triple.bind (takes_kill hasync)
    · rintro _ R' (⟨-, rfl⟩ | ⟨hx, -⟩)
      · rw [add_comm]
        apply Triple.conseq (keeps_setInAsync hasync)
        rintro x R' ⟨_, rfl, rfl⟩
        exact ⟨by simp, none, rfl⟩
      · cases hx
    · rintro e R' (⟨hx, -⟩ | ⟨hx, rfl⟩)
      · cases hx
      · cases hx
        exact ⟨by simp, _, rfl⟩

theorem keeps_createAsync :
    Keeps {.handle i incoming} (createAsync i) fun _ R' => Serving i incoming R' := by
  apply keeps_perform
  intro s F hJ
  dsimp only
  rw [hJ.holds.1]
  dsimp only
  cases hasync : incoming.inAsync with
  | none => exact ⟨_, hJ.createAsync hasync, _, rfl⟩
  | some a => exact ⟨_, hJ, _, rfl⟩

/-- A servant and the interceptors do what they like, and the thread keeps the `Incoming`. -/
theorem takes_serve :
    Takes {.handle i incoming} (serve i) fun x R' =>
      x ≠ .error .assertion ∧ Serving i incoming R' := by
  apply Triple.loop (I := Serving i incoming) ⟨_, rfl⟩
  rintro _ ⟨inAsync, rfl⟩
  apply Returns.bind_triple keeps_choose
  rintro choice R' ⟨-, rfl⟩
  cases choice with
  | createAsync =>
    apply Returns.bind_triple keeps_createAsync
    intro _ R' hR'
    exact Triple.pure hR'
  | iceDispatch =>
    apply takes_catchAll (Q := fun x R' =>
      x ≠ .error .assertion ∧ (∀ o, x = .ok o → o = none) ∧ Serving i incoming R')
    · apply Triple.bind takes_startOver
      · rintro _ R' ⟨-, hR'⟩
        exact Triple.pure ⟨nofun, by rintro _ ⟨⟩; rfl, hR'⟩
      · rintro e R' ⟨he, hR'⟩
        exact ⟨by rintro ⟨⟩; exact he rfl, nofun, hR'⟩
    · rintro o R' ⟨-, ho, hR'⟩
      rw [ho o rfl]
      exact hR'
    · rintro e R' ⟨he, -, hR'⟩
      refine ⟨fun heq => he (congrArg _ heq), ?_⟩
      apply Triple.conseq keeps_choose
      rintro x R'' ⟨o, rfl, -, rfl⟩
      cases o with
      | none => exact hR'
      | some _ => exact ⟨nofun, hR'⟩
  | «return» => exact Triple.pure ⟨by simp, _, rfl⟩
  | throw => exact Triple.throw ⟨by simp, _, rfl⟩

theorem keeps_killed (hasync : incoming.inAsync = some a) :
    Keeps {.handle i incoming} (killed a) fun x R' =>
      R' = bif x then {.requests incoming.request 1} + {.handle i incoming}
        else {.handle i incoming} := by
  have hbody : Takes {.handle i incoming} (do kill a; return true) fun x R' =>
      x = .ok true ∧ R' = {.requests incoming.request 1} + {.handle i incoming} ∨
        x = .error .responseSent ∧ R' = {.handle i incoming} := by
    apply Triple.bind (takes_kill hasync)
    · rintro _ R' (⟨-, rfl⟩ | ⟨hx, -⟩)
      · exact Triple.pure (.inl ⟨rfl, rfl⟩)
      · cases hx
    · rintro e R' (⟨hx, -⟩ | ⟨hx, rfl⟩)
      · cases hx
      · cases hx
        exact .inr ⟨rfl, rfl⟩
  apply Triple.tryCatch hbody
  · rintro killed R' (⟨hx, rfl⟩ | ⟨hx, -⟩)
    · exact ⟨_, hx, rfl⟩
    · cases hx
  · rintro e R' (⟨hx, -⟩ | ⟨hx, rfl⟩)
    · cases hx
    · cases hx
      exact Returns.pure rfl

variable {Q : Unit → Resource → Prop}

/-- An `Incoming` that leaves its request behind -/
theorem keeps_leave (hasync : incoming.inAsync = some a)
    (hp : Keeps 0 p Q) : Keeps {.handle i incoming} p Q := by
  apply Returns.update _ hp
  intro s F hJ
  rw [zero_add]
  exact hJ.leave hasync

theorem keeps_giveUp (hnone : incoming.inAsync = none)
    (hp : Keeps {.requests incoming.request 1} p Q) : Keeps {.handle i incoming} p Q :=
  Returns.update (fun _ _ hJ => hJ.giveUp hnone) hp

theorem keeps_dispatched (inAsync : Option Nat) :
    Keeps {.handle i { incoming with inAsync }} (do
      match ← getInAsync i with
      | some _ => pure ()
      | none => response incoming) fun _ R' => R' = 0 := by
  apply Returns.bind keeps_getInAsync
  rintro x R' ⟨hx, rfl⟩
  subst hx
  cases x with
  | some a => exact keeps_leave rfl (Returns.pure rfl)
  | none => exact keeps_giveUp rfl (keeps_response rfl)

/-- A request is released, or its asynchronous dispatch has to release it. -/
theorem keeps_dispatchTo :
    Keeps {.handle i incoming} (dispatchTo i incoming) fun _ R' => R' = 0 := by
  apply takes_catchAll (Q := fun x R' =>
    x = .ok () ∧ R' = 0 ∨ (∃ e, e ≠ .assertion ∧ x = .error e) ∧ Serving i incoming R')
  · apply Triple.bind takes_serve
    · rintro _ R' ⟨-, inAsync, rfl⟩
      apply Triple.conseq (keeps_dispatched inAsync)
      rintro x R' ⟨_, rfl, rfl⟩
      exact .inl ⟨rfl, rfl⟩
    · rintro e R' ⟨he, hR'⟩
      exact .inr ⟨⟨e, fun heq => he (congrArg _ heq), rfl⟩, hR'⟩
  · rintro _ R' (⟨hx, rfl⟩ | ⟨⟨e, -, hx⟩, -⟩)
    · exact ⟨_, hx, rfl⟩
    · cases hx
  · rintro e R' (⟨hx, -⟩ | ⟨⟨e', he, hx⟩, inAsync, rfl⟩)
    · cases hx
    · cases hx
      refine ⟨he, ?_⟩
      apply Returns.bind keeps_getInAsync
      rintro x R' ⟨hx, rfl⟩
      subst hx
      cases x with
      | none => exact keeps_giveUp rfl (keeps_exception rfl)
      | some a =>
        apply Returns.bind (keeps_killed rfl)
        rintro killed R' rfl
        cases killed with
        | false => exact keeps_leave rfl keeps_warn
        | true =>
          have hexception : Keeps {.requests incoming.request 1} (exception incoming)
              fun _ R' => R' = 0 := keeps_exception rfl
          rw [cond_true, add_comm]
          apply Returns.update _ hexception
          intro s F hJ
          rw [add_assoc] at hJ
          exact hJ.leave rfl

theorem keeps_create (hnone : incoming.inAsync = none) :
    Keeps {.requests incoming.request 1} (create incoming)
      fun i R' => R' = {.handle i incoming} :=
  keeps_perform fun _ _ hJ => ⟨_, hJ.create hnone, rfl⟩

theorem ends_invoke (incoming : Incoming) (hnone : incoming.inAsync = none) :
    Takes {.requests incoming.request 1} (Incoming.invoke incoming) (Ends incoming.request) := by
  apply ends_bind takes_mayThrow
  have hdispatch : ∀ incoming : Incoming, incoming.inAsync = none →
      Keeps {.requests incoming.request 1} (do
        let i ← create incoming
        dispatchTo i incoming) fun _ R' => R' = 0 := by
    intro incoming hnone
    apply Returns.bind (keeps_create hnone)
    rintro i R' rfl
    exact keeps_dispatchTo
  apply Returns.bind_triple keeps_choose
  rintro lookup R' ⟨-, rfl⟩
  cases lookup with
  | servant => exact ends_of_keeps (hdispatch incoming hnone)
  | locator => exact ends_of_keeps (hdispatch { incoming with locator := true } hnone)
  | locateFails | notFound => exact ends_bind takes_mayThrow (ends_handleException rfl)

/-- By induction on the number of requests: what is thrown for one releases those behind it. -/
theorem keeps_invokeAll {reply : ConnectionI.Incoming} {n : Nat} :
    Keeps {.requests first n} (invokeAll reply first n) fun _ R' => R' = 0 := by
  induction n generalizing first with
  | zero =>
    have hnothing : Keeps 0 (invokeAll reply first 0) fun _ R' => R' = 0 :=
      Returns.pure rfl
    apply Returns.update _ hnothing
    intro s F hJ
    rw [zero_add]
    exact hJ.nothing
  | succ n ih =>
    have hinvoke : Takes {.requests first 1} (do
        Incoming.invoke { request := first, reply }
        return (none : Option LocalException)) fun x R' => x = .ok none ∧ R' = 0 ∨
          ∃ ex, x = .error (.localException ex) ∧ R' = {.requests first 1} := by
      apply Triple.bind (ends_invoke { request := first, reply } rfl)
      · rintro _ R' (⟨-, rfl⟩ | ⟨ex, hx, -⟩)
        · exact Triple.pure (.inl ⟨rfl, rfl⟩)
        · cases hx
      · rintro e R' (⟨hx, -⟩ | ⟨ex, hx, rfl⟩)
        · cases hx
        · cases hx
          exact .inr ⟨ex, rfl, rfl⟩
    have hcaught : Keeps {.requests first 1} (catchLocal (do
        Incoming.invoke { request := first, reply }
        return (none : Option LocalException)) fun ex => return some ex) fun failure R' =>
          R' = if failure.isNone then 0 else {.requests first 1} := by
      apply Triple.tryCatch hinvoke
      · rintro failure R' (⟨hx, rfl⟩ | ⟨ex, hx, -⟩)
        · cases hx
          exact ⟨none, rfl, rfl⟩
        · cases hx
      · rintro e R' (⟨hx, -⟩ | ⟨ex, hx, rfl⟩)
        · cases hx
        · cases hx
          exact Returns.pure rfl
    have hrest : Keeps ({.requests first 1} + {.requests (first + 1) n})
        (invokeAll reply first (n + 1)) fun _ R' => R' = 0 := by
      apply Returns.bind (hcaught.frame _)
      rintro failure _ ⟨R', rfl, rfl⟩
      cases failure with
      | none =>
        rw [Option.isNone_none, if_pos rfl, zero_add]
        exact ih
      | some ex =>
        apply Returns.update _ (keeps_invokeException (Nat.succ_pos n) ex)
        intro s F hJ
        rw [Option.isNone_some, if_neg Bool.false_ne_true, add_assoc] at hJ
        exact hJ.join
    apply Returns.update _ hrest
    intro s F hJ
    rw [add_assoc]
    exact hJ.split

/-- What a message has brought is dispatched. -/
theorem keeps_dispatch {call : DispatchCall} :
    Keeps ({.requests first call.invokeNum.toNat} + {.callbacks call.dispatchedCount})
      (dispatch call first) fun _ R' => R' = 0 := by
  have hread : Keeps ({.requests first call.invokeNum.toNat} + {.callbacks call.dispatchedCount})
      (perform fun s => (s.connection.datagram, s)) fun _ R' =>
        R' = {.requests first call.invokeNum.toNat} + {.callbacks call.dispatchedCount} :=
    keeps_perform fun s F hJ => ⟨_, hJ, rfl⟩
  apply Returns.bind hread
  rintro datagram _ rfl
  apply Returns.bind (keeps_invokeAll.frame _)
  rintro _ _ ⟨_, rfl, rfl⟩
  rw [zero_add]
  split
  · rename_i hpos
    apply keeps_modify
    intro s F hJ
    rw [zero_add]
    exact hJ.dispatched hpos (ConnectionI.lowers_dispatched call)
  · rename_i hpos
    have hnothing : Keeps 0 (pure () : Task Unit) fun _ R' => R' = 0 := Returns.pure rfl
    apply Returns.update _ hnothing
    intro s F hJ
    have hzero : call.dispatchedCount = 0 := by
      have hnonneg := call.dispatchedCount_nonneg
      omega
    rw [hzero] at hJ
    rw [zero_add]
    exact hJ.noCallbacks

/-- What arrives is counted where an `int` can hold the count. -/
theorem keeps_message {operation : SocketOperation} {reading : Reading} :
    Keeps 0 (message operation reading) fun _ R' => R' = 0 := by
  unfold message
  apply Returns.bind (Q := fun x R' => x.elim (R' = 0) fun (received : DispatchCall × Nat) =>
    R' = {.requests received.2 received.1.invokeNum.toNat} +
      {.callbacks received.1.dispatchedCount})
  · apply Triple.act
    intro s F hJ hbound o ho
    rw [zero_add] at hJ
    rw [Bounded, State.arriving] at hbound
    rw [State.received] at ho hbound
    cases ConnectionI.brings_message { s.connection with calls := [] } operation reading with
    | nothing hsame =>
      rw [hsame.calls, List.head?_nil, List.mem_singleton] at ho
      subst ho
      refine ⟨0, ?_, none, rfl, rfl⟩
      rw [zero_add]
      exact hJ.frame hsame.dispatchCount hsame.finished
    | call call hcall hcalls hcount hs ht =>
      rw [hcalls, List.nil_append, List.head?_cons] at ho hbound
      rw [List.mem_singleton.mp ho]
      refine ⟨_, ?_, _, rfl, rfl⟩
      rw [add_assoc]
      exact hJ.receive hcall hcount hbound hs ht
  · intro x R' hR'
    cases x with
    | none => exact Returns.pure hR'
    | some received =>
      rw [Option.elim_some] at hR'
      subst hR'
      exact keeps_dispatch

theorem keeps_finish : Keeps 0 finish fun _ R' => R' = 0 := by
  apply keeps_modify
  intro s F hJ
  rw [zero_add] at hJ ⊢
  split
  · exact hJ.finish ‹_›
  · exact hJ

/-- A completion ends with nothing left to do; what it throws is not an assertion. -/
theorem takes_completion
    (hp : Keeps {.requests request 1} p fun _ R' => R' = 0) :
    Takes {.async a request} (do checkResponseSent a; p)
      fun x R' => R' = 0 ∧ x ≠ .error .assertion := by
  apply Triple.bind takes_checkResponseSent
  · rintro _ R' (⟨-, rfl⟩ | ⟨hx, -⟩)
    · apply Triple.conseq hp
      rintro x R' ⟨_, rfl, rfl⟩
      exact ⟨rfl, nofun⟩
    · cases hx
  · rintro e R' (⟨hx, -⟩ | ⟨hx, rfl⟩)
    · cases hx
    · cases hx
      exact ⟨rfl, nofun⟩

theorem takes_nothing :
    Takes {.async a request} (pure () : Task Unit) fun x R' => R' = 0 ∧ x ≠ .error .assertion := by
  apply Triple.update
  intro s F hJ
  refine ⟨0, ?_, Triple.pure ⟨rfl, nofun⟩⟩
  rw [zero_add]
  exact hJ.forget

variable {callbacks : List Intercepted}

/-- No callback makes `ice_exception` return by an exception. -/
theorem takes_iceException (hrequest : incoming.request = request) :
    Takes {.async a request} (iceException a incoming callbacks)
      fun x R' => R' = 0 ∧ x ≠ .error .assertion := by
  have hcallbacks : Keeps {.async a request} (.act (.iceException callbacks) fun s => [(.ok (), s)])
      fun _ R' => R' = {.async a request} ∧ callbacks.find? (· ≠ .goOn) ≠ some .throws := by
    apply Triple.act
    intro s F hJ hA o ho
    rw [List.mem_singleton.mp ho]
    exact ⟨_, hJ, (), rfl, rfl, hA⟩
  apply Returns.bind_triple hcallbacks
  rintro _ R' ⟨rfl, hthrows⟩
  split
  · exact takes_nothing
  · exact absurd ‹_› hthrows
  · exact takes_completion (keeps_exception hrequest)

theorem takes_complete {completion : Completion} :
    Takes 0 (complete a completion callbacks) fun x R' => R' = 0 ∧ x ≠ .error .assertion := by
  have hread : Keeps 0 (perform fun s => (s.asyncs[a]?, s)) fun x R' =>
      R' = x.elim 0 fun async => {.async a async.incoming.request} := by
    apply keeps_perform
    intro s F hJ
    rw [zero_add] at hJ
    cases ha : s.asyncs[a]? with
    | none => exact ⟨0, by rwa [zero_add], rfl⟩
    | some async => exact ⟨_, hJ.knows ⟨async, ha, rfl⟩, rfl⟩
  apply Returns.bind_triple hread
  intro x R' hR'
  cases x with
  | none => exact Triple.pure ⟨hR', by simp⟩
  | some async =>
    rw [Option.elim_some] at hR'
    subst hR'
    cases completion with
    | completed =>
      dsimp only
      rw [Dispatching.completed]
      split
      · exact takes_nothing
      · exact takes_completion (keeps_response rfl)
    | completedWith =>
      dsimp only
      rw [Dispatching.completedWith]
      split
      · exact takes_nothing
      · exact takes_completion (keeps_exception rfl)
    | iceException => exact takes_iceException rfl

end members

section runs

variable {s : State} {R : Resource} {request : Nat}

theorem Call.frame (call : Call) : ConnectionI.Frame call.member := by
  cases call with
  | start callback => exact ConnectionI.frame_start callback
  | activate => exact ConnectionI.frame_activate
  | hold => exact ConnectionI.frame_hold
  | close mode => exact ConnectionI.frame_closeMode mode
  | destroy reason => exact ConnectionI.frame_destroy reason
  | monitor acm => exact ConnectionI.frame_monitor acm
  | timedOut => exact ConnectionI.frame_timedOut
  | exception ex => exact ConnectionI.frame_shut ex
  | setHeartbeatCallback callback => exact ConnectionI.frame_setHeartbeatCallback callback
  | sendAsyncRequest response refused =>
    exact (ConnectionI.frame_sendAsyncRequest response refused).bind fun _ => .pure
  | asyncRequestCanceled out ex => exact ConnectionI.frame_asyncRequestCanceled out ex

/-- An operation owns nothing when it ends, and no assertion fails in it. -/
theorem takes_run (o : Operation) :
    Takes 0 o.run fun x R => R = 0 ∧ x ≠ .error .assertion := by
  have hreturns : ∀ {p : Task Unit}, Keeps 0 p (fun _ R => R = 0) →
      Takes 0 p fun x R => R = 0 ∧ x ≠ .error .assertion := by
    intro p hp
    apply Triple.conseq hp
    rintro x R ⟨_, rfl, hR⟩
    exact ⟨hR, nofun⟩
  cases o with
  | call c =>
    apply hreturns
    apply keeps_modify
    intro s F hJ
    exact hJ.frame c.frame.final.dispatchCount c.frame.final.finished
  | message operation reading => exact hreturns keeps_message
  | finish => exact hreturns keeps_finish
  | complete a completion callbacks => exact takes_complete
  | script answers invokes =>
    apply hreturns
    apply keeps_modify
    intro s F hJ
    exact hJ.frame rfl Iff.rfl

theorem consistent_fresh (datagram : Bool) : Consistent (Machine.fresh datagram).shared 0 := by
  constructor
  · intro request
    rfl
  · rfl
  · intro i
    exact Int.zero_le_ofNat 1
  · intro t ht
    cases ht
  · intro async hasync
    cases hasync
  · rfl
  · change (0 : Int) < 2 ^ 31
    omega
  · rfl

/-- Where nobody has a request and every asynchronous dispatch is completed, nothing is left. -/
theorem Consistent.released_eq (h : Consistent s 0)
    (hcompleted : ∀ async ∈ s.asyncs, async.completed = true) (hrequest : request < s.counted) :
    s.released request = 1 := by
  have hwaiting : s.waiting request = 0 := by
    apply List.sum_eq_zero
    intro x hx
    obtain ⟨async, hasync, rfl⟩ := List.mem_map.mp hx
    rw [IncomingAsync.waits, h.completed async hasync (hcompleted async hasync), if_neg (by simp)]
  have hr := h.requests request
  rw [hwaiting, if_pos hrequest] at hr
  have howning : owning request 0 = 0 := rfl
  omega

end runs

/-- In a run in which an `int` can hold the count of what arrives, no callback of an interceptor
throws out of `ice_exception`, and no text is logged for a request whose response was sent while the
connection is closed, the accounts are right in every state. -/
theorem accounted_of_bounded (datagram : Bool) (m : Machine)
    (h : Reach Machine.move (Lib.Machine.Allows Bounded) (Machine.fresh datagram) m) :
    Accounted m := by
  have hfresh := consistent_fresh datagram
  obtain ⟨rs, hJ, -⟩ := Lib.Machine.Owned.of_reach takes_run hfresh h 0
  have hcalls : 0 ≤ m.shared.callbacks := hJ.callbacks ▸ calling_nonneg hJ.tokens
  constructor
  · intro request
    have hr := hJ.released_le request
    split at hr
    · rw [if_pos ‹_›]
      omega
    · rw [if_neg ‹_›]
      omega
  · intro hquiescent hcompleted
    have hJ := Lib.Machine.invariant_of_quiescent takes_run hfresh h hquiescent
    exact ⟨hJ.callbacks.symm, fun request hrequest => hJ.released_eq hcompleted hrequest⟩
  · exact hJ.count
  · have hunreleased := hJ.unreleased_nonneg
    have hcount := hJ.count
    exact ⟨by omega, hJ.range⟩
  · exact hJ.reaped
  · intro t ht hx
    exact Lib.Machine.promise_of_reach takes_run hfresh h ht hx rfl

/-- A message is received. -/
def messageOf (messageType : UInt8) (number : List UInt8) : Operation :=
  .message .onRead (.complete { messageType := messageType, body := .ok number } false)

/-- A connection is started and activated, then it receives messages. -/
def received (messages : List (Move Operation)) : List (Move Operation) :=
  [.start (.script [.done, .done] []), .step 0 0, .start (.call (.start false)), .step 1 0,
    .start (.call .activate), .step 2 0] ++ messages

/-- A request is dispatched asynchronously, and completed by another thread. -/
def completedLater : List (Move Operation) :=
  received (.start (messageOf requestMsg [1, 0, 0, 0]) ::
    [0, 0, 0, 0, 0, 0, 0, 0, 0, 2, 0].map (.step 3) ++
      .start (.complete 0 .completed []) :: List.replicate 3 (.step 4 0))

/-- A request is received, and then a batch that claims to have 2^31 - 1 requests. -/
def requestAndBatch : List (Move Operation) :=
  received [.start (messageOf requestMsg [1, 0, 0, 0]), .step 3 0,
    .start (messageOf requestBatchMsg [255, 255, 255, 127]), .step 4 0]

theorem accounted_of_completedLater : ∃ m : Machine,
    Reach Machine.move (Lib.Machine.Allows Bounded) (Machine.fresh false) m ∧
      m.shared.released 0 = 1 ∧ Accounted m := by
  let test (m : Machine) (l : Move Operation) : Bool := decide (m.Allows Bounded l)
  have hrun : (run (fun m l => if test m l then Machine.move m l else none)
      (Machine.fresh false) completedLater).any
      (fun m => decide (m.shared.released 0 = 1)) = true := by decide +kernel
  obtain ⟨m, h, hm⟩ := Reach.exists_of_runWhere (fun _ _ => of_decide_eq_true) hrun
  exact ⟨m, h, of_decide_eq_true hm, accounted_of_bounded false m h⟩

/-- The count of a request and a batch is more than an `int` can hold. -/
theorem not_accounted_of_requestAndBatch : ¬∀ (datagram : Bool) (m : Machine),
    Reach Machine.move Any (Machine.fresh datagram) m → Accounted m := by
  intro h
  have hrun : (run Machine.move (Machine.fresh false) requestAndBatch).any
      (fun m => decide (m.shared.connection.dispatchCount < 0)) = true := by decide +kernel
  obtain ⟨m, hreach, hm⟩ := Reach.exists_of_run hrun
  have hnonneg : 0 ≤ m.shared.connection.dispatchCount := (h false m hreach).range.1
  have hneg : m.shared.connection.dispatchCount < 0 := of_decide_eq_true hm
  omega

end Ice.Protocol.Dispatching
