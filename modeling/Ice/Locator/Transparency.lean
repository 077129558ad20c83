import Ice.Locator.Accounts

/-!
# The cache of a locator is transparent

Every program gives each callback it owes to one place: it calls it, or leaves it waiting in
a request. What is found in the table goes back to a reply, so that a callback that is called
with it is called with what an uncached resolution answers, provided the encoding of what is
found for a well-known object is supported.
-/

namespace Ice.Locator

open Ice.Lib Streams References
open LocatorTable (find removeObjectReference)
open Program (Triple Returns)

/-- A program that returns, and what it owns then -/
abbrev Keeps (info : LocatorInfo) {α : Type} (R : Resource) (p : Task α)
    (Q : α → Resource → Prop) : Prop :=
  Returns (Consistent info) info.Careful R p Q

/-- A program that owns nothing in the end. -/
abbrev Settled {α : Type} (_ : α) (R : Resource) : Prop := R = 0

section rules

variable {info : LocatorInfo} {α : Type} {R : Resource} {p : Task α} {Q : α → Resource → Prop}

/-- A fact that is not needed any more. -/
theorem Keeps.drop {t : Token} (hfact : t.isFact = true) (hp : Keeps info R p Q) :
    Keeps info ({t} + R) p Q := by
  apply Returns.update _ hp
  intro s F hJ
  rw [add_assoc] at hJ
  exact hJ.drop hfact

theorem Keeps.perform {g : State → α × State}
    (h : ∀ s F, Consistent info s (R + F) →
      ∃ R', Consistent info (g s).2 (R' + F) ∧ Q (g s).1 R') :
    Keeps info R (perform g) Q := Returns.act fun s F hJ _ => h s F hJ

theorem keeps_assert {condition : Bool} {expression : String} (h : condition = true) :
    Keeps info R (assert condition expression) fun _ R' => R' = R := by
  rw [assert, if_pos h]
  exact Returns.pure rfl

end rules

section table

variable {info : LocatorInfo} {R : Resource} {reply : Reply} {ref r : Reference} {id : Str}

theorem keeps_removeAdapterEndpoints :
    Keeps info R (LocatorTable.removeAdapterEndpoints id) fun _ R' => R' = R :=
  Keeps.perform fun _ _ hJ => ⟨R, hJ.removeAdapter id, rfl⟩

theorem keeps_removeObjectReference {id : References.Identity} :
    Keeps info R (removeObjectReference id) fun _ R' => R' = R :=
  Keeps.perform fun _ _ hJ => ⟨R, hJ.removeObject id, rfl⟩

theorem keeps_clear : Keeps info R LocatorTable.clear fun _ R' => R' = R :=
  Keeps.perform fun _ _ hJ => ⟨R, hJ.table nofun nofun, rfl⟩

/-- What is found for an adapter was once the reply for it. -/
theorem keeps_getAdapterEndpoints {ttl : Int} :
    Keeps info R (LocatorTable.getAdapterEndpoints id ttl) fun entry R' =>
      match entry with
      | none => R' = R
      | some p => ∃ r : Reference, r.isIndirect = false ∧ r.endpoints = p.2 ∧
        R' = {.replied (.adapter id) (.response (some r))} + R := by
  apply Keeps.perform
  intro s F hJ
  dsimp only
  cases hentry : find (s.adapterEndpointsMap id) s.now ttl with
  | none => exact ⟨R, hJ, rfl⟩
  | some p =>
    simp only [find] at hentry
    split at hentry
    · cases hentry
    · obtain ⟨q, hq, rfl⟩ := Option.map_eq_some_iff.mp hentry
      obtain ⟨hne, r, hr, hreply⟩ := hJ.sound.adapters id q hq
      refine ⟨_, ?_, r, ?_, hr, rfl⟩
      · rw [add_assoc]
        exact hJ.add rfl hreply
      · simpa [RoutableReference.isIndirect, hr] using hne

/-- What is found for a well-known object was once the reply for it, and if it is used, its
encoding is supported. -/
theorem keeps_getObjectReference {ttl : Int} :
    Keeps info R (LocatorTable.getObjectReference ref ttl) fun entry R' =>
      match entry with
      | none => R' = R
      | some p => p.2.isWellKnown = false ∧
        (p.1 = true ∨ info.background = true →
          isSupported ref.encoding p.2.encoding = true) ∧
        R' = {.replied (.object ref.identity) (.response (some p.2))} + R := by
  apply Triple.act
  intro s F hJ hcareful o ho
  rw [List.mem_singleton.mp ho]
  dsimp only
  cases hentry : find (s.objectMap ref.identity) s.now ttl with
  | none => exact ⟨R, hJ, none, rfl, rfl⟩
  | some p =>
    have huse : p.1 = true ∨ info.background = true →
        isSupported ref.encoding p.2.encoding = true := by
      intro hp
      exact hcareful p.2 ⟨p.1, hentry, hp⟩
    simp only [find] at hentry
    split at hentry
    · cases hentry
    · obtain ⟨q, hq, rfl⟩ := Option.map_eq_some_iff.mp hentry
      obtain ⟨hw, hreply⟩ := hJ.sound.objects ref.identity q hq
      refine ⟨_, ?_, _, rfl, hw, huse, rfl⟩
      rw [add_assoc]
      exact hJ.add rfl hreply

theorem keeps_removeWellKnownRefs {wellKnownRefs : List Reference} {proxy : Option Reference} :
    Keeps info R (removeWellKnownRefs wellKnownRefs proxy) fun _ R' => R' = R := by
  rw [removeWellKnownRefs]
  split
  · have hforM : Keeps info (wellKnownRefs.map fun _ => (0 : Resource)).sum
        (wellKnownRefs.forM fun q => do
          let _ ← removeObjectReference q.identity) Settled := by
      apply Returns.forM
      intro q _
      apply Returns.bind keeps_removeObjectReference
      rintro _ R' rfl
      exact Returns.pure rfl
    have hzero : (wellKnownRefs.map fun _ => (0 : Resource)).sum = 0 := by simp
    rw [hzero] at hforM
    have hframe := hforM.frame R
    rw [zero_add] at hframe
    apply hframe.conseq
    rintro _ R' ⟨R₁, rfl, rfl⟩
    rw [zero_add]
  · exact Returns.pure rfl

theorem keeps_cacheProxy {notRegistered : Bool} :
    Keeps info ({.replied (key ref) reply} + R) (cacheProxy ref reply.proxy notRegistered)
      fun _ R' => R' = {.replied (key ref) reply} + R := by
  rw [cacheProxy]
  split
  · rename_i hw
    have hkey : key ref = .adapter ref.adapterId := key_of_adapter (by simpa using hw)
    cases hproxy : reply.proxy.filter (!·.isIndirect) with
    | none =>
      dsimp only
      split
      · exact keeps_removeAdapterEndpoints
      · exact Returns.pure rfl
    | some r =>
      obtain ⟨hr, hdirect⟩ := Option.filter_eq_some_iff.mp hproxy
      apply Keeps.perform
      intro s F hJ
      refine ⟨_, ?_, rfl⟩
      have hreply : (key ref, reply) ∈ s.replies := by
        rw [add_assoc] at hJ
        exact hJ.holds
      cases reply with
      | exception ex => cases hr
      | response proxy =>
        cases hr
        rw [hkey] at hreply
        exact hJ.addAdapter (by simpa using hdirect) hreply
  · rename_i hw
    have hkey : key ref = .object ref.identity := key_of_object (by simpa using hw)
    cases hproxy : reply.proxy.filter (!·.isWellKnown) with
    | none =>
      dsimp only
      split
      · apply Returns.bind keeps_removeObjectReference
        rintro _ R' rfl
        exact Returns.pure rfl
      · exact Returns.pure rfl
    | some r =>
      obtain ⟨hr, hknown⟩ := Option.filter_eq_some_iff.mp hproxy
      apply Keeps.perform
      intro s F hJ
      refine ⟨_, ?_, rfl⟩
      have hreply : (key ref, reply) ∈ s.replies := by
        rw [add_assoc] at hJ
        exact hJ.holds
      cases reply with
      | exception ex => cases hr
      | response proxy =>
        cases hr
        rw [hkey] at hreply
        exact hJ.addObject (by simpa using hknown) hreply

end table

section members

variable {info : LocatorInfo} {R : Resource} {ref r : Reference} {reply : Reply} {n : Nat}
  {cb : RequestCallback} {callback : Option Nat} {result : Result} {cached : Bool}
  {getEndpoints : GetEndpoints}

/-- A callback is called with what a reply settles. -/
theorem keeps_call
    (hsettles : ∀ replies, (key ref, reply) ∈ replies → Settles info replies ref result) :
    Keeps info ({.replied (key ref) reply} + owed callback ref) (call callback result cached)
      Settled := by
  cases callback with
  | none =>
    apply Keeps.drop rfl
    exact Returns.pure rfl
  | some id =>
    apply Keeps.perform
    intro s F hJ
    rw [add_assoc] at hJ
    refine ⟨0, ?_, rfl⟩
    rw [zero_add]
    exact (hJ.drop rfl).answer (hsettles _ hJ.holds)

/-- `getEndpoints` where it is called for a well-known object: the reference has an adapter. -/
def Resolves (info : LocatorInfo) (getEndpoints : GetEndpoints) : Prop :=
  ∀ (r : Reference) (wellKnownRef : Option Reference) (ttl : Int) (callback : Option Nat),
    r.isIndirect = true → r.isWellKnown = false →
    Keeps info (owed callback r) (getEndpoints r wellKnownRef ttl callback) Settled

/-- An answer is owed for the reference that a reply leads to. -/
theorem keeps_lead {α : Type} {p : Task α} {Q : α → Resource → Prop} {proxy : Option Reference}
    (hr : responseOutcome ref proxy = .getEndpoints r) (hp : Keeps info (owed callback r) p Q) :
    Keeps info ({.replied (key ref) (.response proxy)} + owed callback ref) p Q := by
  apply Returns.update _ hp
  intro s F hJ
  rw [add_assoc] at hJ
  exact (hJ.drop rfl).lead ⟨proxy, hJ.holds, hr⟩

theorem keeps_answer (hindirect : cb.reference.isIndirect = true)
    (hget : cb.reference.isWellKnown = true → Resolves info getEndpoints) :
    Keeps info ({.replied (key cb.reference) reply} + owed cb.callback cb.reference)
      (cb.answer info getEndpoints reply) Settled := by
  cases reply with
  | response proxy =>
    rw [RequestCallback.answer]
    cases hr : responseOutcome cb.reference proxy with
    | call result => exact keeps_call fun replies hmem => settles_of_response hmem hr
    | getEndpoints r =>
      obtain ⟨hw, hri, hrw⟩ := of_responseOutcome_getEndpoints hr
      exact keeps_lead hr (hget hw r _ _ _ hri hrw)
  | exception ex =>
    apply Returns.bind (keeps_assert hindirect)
    rintro _ R' rfl
    exact keeps_call fun replies hmem => ⟨ex, hmem, rfl⟩

variable (wellKnownRef : Option Reference)

/-- The callback waits, or the answer is there already. -/
theorem keeps_pushCallback
    (hindirect : cb.reference.isIndirect = true) :
    Keeps info ({.requested n (key cb.reference)} + owed cb.callback cb.reference)
      (Request.pushCallback n cb wellKnownRef) fun x R' =>
        match x with
        | none => R' = 0
        | some reply =>
          R' = {.replied (key cb.reference) reply} + owed cb.callback cb.reference := by
  apply Triple.act
  intro s F hJ _ o ho
  rw [add_assoc] at hJ
  obtain ⟨q, hq, hkey⟩ := hJ.holds
  rw [hq] at ho
  dsimp only at ho
  split at ho
  · simp at ho
  · cases hreply : q.reply with
    | some reply =>
      rw [hreply, List.mem_singleton] at ho
      subst ho
      refine ⟨_, ?_, _, rfl, rfl⟩
      rw [add_assoc]
      apply (hJ.drop rfl).add rfl
      rw [← hkey]
      exact (hJ.sound.requests q (List.mem_of_getElem? hq)).reply reply hreply
    | none =>
      rw [hreply, List.mem_singleton] at ho
      subst ho
      refine ⟨0, ?_, _, rfl, rfl⟩
      rw [zero_add]
      rw [← hreply]
      exact hJ.wait wellKnownRef hindirect hq hreply

theorem keeps_addCallback
    (hindirect : cb.reference.isIndirect = true)
    (hget : cb.reference.isWellKnown = true → Resolves info getEndpoints) :
    Keeps info ({.requested n (key cb.reference)} + owed cb.callback cb.reference)
      (Request.addCallback info getEndpoints n cb wellKnownRef) Settled := by
  apply Returns.bind (keeps_pushCallback wellKnownRef hindirect)
  intro x R' hR'
  cases x with
  | none => exact Returns.pure hR'
  | some reply =>
    subst hR'
    exact keeps_answer hindirect hget

/-- There is a request for the key, now if not before. -/
theorem keeps_getRequest :
    Keeps info R (getRequest ref) fun n R' => R' = {.requested n (key ref)} + R := by
  apply Keeps.perform
  intro s F hJ
  refine ⟨_, ?_, rfl⟩
  rw [add_assoc]
  cases hpending : s.pending (key ref) with
  | some n => exact hJ.add rfl (hJ.sound.pending _ n hpending)
  | none =>
    have hpush := hJ.push hpending
    apply hpush.add rfl
    exact ⟨{ reference := ref }, by simp, rfl⟩

/-- A callback that is handed to the request for its reference. -/
theorem keeps_request {ttl : Int}
    (hindirect : ref.isIndirect = true)
    (hget : ref.isWellKnown = true → Resolves info getEndpoints) :
    Keeps info (owed callback ref)
      (do
        let n ← getRequest ref
        Request.addCallback info getEndpoints n ⟨ref, ttl, callback⟩ wellKnownRef)
      Settled := by
  apply Returns.bind keeps_getRequest
  rintro n R' rfl
  exact @keeps_addCallback info n ⟨ref, ttl, callback⟩ getEndpoints wellKnownRef hindirect hget

/-- An entry of the table is used, or requested. -/
theorem keeps_useOrRequest {α : Type} {t : Token} {p : Bool × α} {usable : α → Bool}
    {request : Option Nat → Task Unit} {use : α → Task Unit} (hfact : t.isFact = true)
    (hrequest : ∀ callback, Keeps info (owed callback ref) (request callback) Settled)
    (huse : p.1 = true ∨ info.background = true →
      Keeps info ({t} + owed callback ref) (use p.2) Settled) :
    Keeps info ({t} + owed callback ref)
      (info.useOrRequest (some p) usable callback request use) Settled := by
  obtain ⟨fresh, x⟩ := p
  cases fresh with
  | true => exact huse (.inl rfl)
  | false =>
    rw [LocatorInfo.useOrRequest]
    split
    · rename_i hbackground
      rw [Bool.and_eq_true] at hbackground
      have hframe := (hrequest none).frame ({t} + owed callback ref)
      rw [show owed none ref = 0 from rfl, zero_add] at hframe
      apply hframe.bind
      rintro _ R' ⟨R₁, rfl, rfl⟩
      rw [zero_add]
      exact huse (.inr hbackground.1)
    · apply Keeps.drop hfact
      exact hrequest callback

/-- Endpoints from the table are those of a reply. -/
theorem keeps_serve (hr : r.isIndirect = false)
    (hsupported : ref.isWellKnown = true → isSupported ref.encoding r.encoding = true) :
    Keeps info ({.replied (key ref) (.response (some r))} + owed callback ref)
      (LocatorInfo.serve r.endpoints callback) Settled := by
  apply Returns.bind (keeps_assert (by simpa [RoutableReference.isIndirect] using hr))
  rintro _ R' rfl
  exact keeps_call fun replies hmem =>
    settles_of_response hmem (responseOutcome_direct hr hsupported)

/-- The resolution of an adapter -/
theorem resolves_getEndpointsWithin (depth : Nat) :
    Resolves info (info.getEndpointsWithin (depth + 1)) := by
  intro r wellKnownRef ttl callback hindirect hw
  rw [LocatorInfo.getEndpointsWithin]
  apply Returns.bind (keeps_assert hindirect)
  rintro _ R' rfl
  rw [if_pos (by simpa using hw)]
  have hrequest : ∀ callback, Keeps info (owed callback r) (do
      let n ← getRequest r
      Request.addCallback info (info.getEndpointsWithin depth) n ⟨r, ttl, callback⟩ wellKnownRef)
      Settled := fun callback => keeps_request wellKnownRef hindirect fun hfalse => by
    rw [hw] at hfalse
    cases hfalse
  apply Returns.bind keeps_getAdapterEndpoints
  intro entry R' hR'
  cases entry with
  | none =>
    subst hR'
    exact hrequest callback
  | some p =>
    obtain ⟨r', hdirect, hendpoints, rfl⟩ := hR'
    rw [← key_of_adapter hw]
    apply keeps_useOrRequest rfl hrequest
    intro _
    rw [← hendpoints]
    apply keeps_serve hdirect
    intro hfalse
    rw [hw] at hfalse
    cases hfalse

/-- The resolution of a reference -/
theorem keeps_getEndpoints {wellKnownRef : Option Reference} {ttl : Int}
    (hindirect : ref.isIndirect = true) :
    Keeps info (owed callback ref) (info.getEndpoints ref wellKnownRef ttl callback) Settled := by
  cases hw : ref.isWellKnown with
  | false => exact resolves_getEndpointsWithin 1 ref wellKnownRef ttl callback hindirect hw
  | true =>
    rw [LocatorInfo.getEndpoints, LocatorInfo.getEndpointsWithin]
    apply Returns.bind (keeps_assert hindirect)
    rintro _ R' rfl
    rw [if_neg (by simp [hw])]
    have hrequest : ∀ callback, Keeps info (owed callback ref) (do
        let n ← getRequest ref
        Request.addCallback info (info.getEndpointsWithin 1) n ⟨ref, ttl, callback⟩ none)
        Settled := fun callback =>
      keeps_request none hindirect fun _ => resolves_getEndpointsWithin 0
    apply Returns.bind keeps_getObjectReference
    intro entry R' hR'
    cases entry with
    | none =>
      subst hR'
      exact hrequest callback
    | some p =>
      obtain ⟨hknown, hsupported, rfl⟩ := hR'
      rw [← key_of_object hw]
      apply keeps_useOrRequest rfl hrequest
      intro hused
      split
      · rename_i hdirect
        exact keeps_serve (by simpa using hdirect) fun _ => hsupported hused
      · rename_i hdirect
        rw [if_pos (by simpa using hknown)]
        have hri : p.2.isIndirect = true := by simpa using hdirect
        apply keeps_lead (responseOutcome_indirect hw hri hknown (hsupported hused))
        exact resolves_getEndpointsWithin 0 p.2 _ _ _ hri hknown

theorem keeps_eraseRequest : Keeps info ({.closing n ref} + R) (eraseRequest ref) fun _ R' =>
    R' = {.requested n (key ref)} + ({.erased n} + R) := by
  apply Triple.act
  intro s F hJ _ o ho
  rw [add_assoc] at hJ
  rw [hJ.pending_of_closing, List.mem_singleton] at ho
  subst ho
  refine ⟨_, ?_, (), rfl, rfl⟩
  rw [add_assoc, add_assoc]
  exact hJ.erase

theorem keeps_finishRequest {wellKnownRefs : List Reference} :
    Keeps info ({.replied (key ref) reply} + {.closing n ref})
      (finishRequest ref wellKnownRefs reply.proxy reply.notRegistered) fun _ R' =>
        R' = {.requested n (key ref)} + ({.erased n} + {.replied (key ref) reply}) := by
  apply Returns.bind keeps_removeWellKnownRefs
  rintro _ R' rfl
  apply Returns.bind keeps_cacheProxy
  rintro _ R' rfl
  rw [add_comm]
  exact keeps_eraseRequest

/-- An answer that is awaited arrives. -/
theorem keeps_receive : Keeps info 0 (Request.receive n reply) fun x R' =>
    match x with
    | none => R' = 0
    | some q => R' = {.replied (key q.reference) reply} + {.closing n q.reference} := by
  apply Keeps.perform
  intro s F hJ
  rw [zero_add] at hJ
  cases hq : s.requests[n]? with
  | none =>
    refine ⟨0, ?_, rfl⟩
    rw [zero_add]
    exact hJ
  | some q =>
    dsimp only
    split
    · rename_i hawaited
      simp only [Bool.and_eq_true, Bool.not_eq_true', Option.isNone_iff_eq_none] at hawaited
      obtain ⟨⟨hsent, hlocked⟩, hreply⟩ := hawaited
      refine ⟨_, ?_, rfl⟩
      rw [add_assoc]
      exact hJ.receive hq hsent hlocked hreply
    · refine ⟨0, ?_, rfl⟩
      rw [zero_add]
      exact hJ

/-- The callbacks of a request, each with the answer -/
def answered (callbacks : List RequestCallback) (reply : Reply) : Resource :=
  (callbacks.map fun cb =>
    ({.replied (key cb.reference) reply} : Resource) + owed cb.callback cb.reference).sum

/-- The answer is known to every callback that waited for it. -/
theorem Consistent.answered_of_owedAll {s : State} {F : Resource} {callbacks : List RequestCallback}
    (h : Consistent info s (owedAll callbacks + F))
    (hreply : ∀ cb ∈ callbacks, (key cb.reference, reply) ∈ s.replies) :
    Consistent info s (answered callbacks reply + F) := by
  induction callbacks generalizing F with
  | nil => exact h
  | cons cb callbacks ih =>
    rw [answered, List.map_cons, List.sum_cons, ← answered, add_assoc, add_assoc]
    have hholds : Token.Holds s (.replied (key cb.reference) reply) :=
      hreply cb List.mem_cons_self
    apply Consistent.add _ rfl hholds
    rw [← add_assoc, add_comm (owed _ _), add_assoc]
    apply ih
    · rw [owedAll_cons, add_comm (owed _ _), add_assoc] at h
      exact h
    · intro cb' hcb'
      exact hreply cb' (List.mem_cons_of_mem _ hcb')

theorem keeps_store {k : Key} :
    Keeps info ({.requested n k} + ({.erased n} + {.replied k reply})) (Request.store n reply)
      fun callbacks R' => (∀ cb ∈ callbacks, cb.reference.isIndirect = true) ∧
        R' = answered callbacks reply := by
  apply Triple.act
  intro s F hJ _ o ho
  rw [add_comm ({.erased n} : Resource), add_assoc, add_assoc] at hJ
  have herased : Consistent info s ({.erased n} + F) := (hJ.drop rfl).drop rfl
  obtain ⟨q, hq⟩ := herased.request_of_erased
  rw [hq, List.mem_singleton] at ho
  subst ho
  obtain ⟨hcallbacks, -⟩ := hJ.sound.requests q (List.mem_of_getElem? hq)
  have hkey : key q.reference = k := by
    obtain ⟨p, hp, hk⟩ := hJ.holds
    cases hq.symm.trans hp
    exact hk
  have hreply : (k, reply) ∈ s.replies := (hJ.drop rfl).holds
  refine ⟨_, ?_, q.callbacks, rfl, ?_, rfl⟩
  · apply (hJ.store hq).answered_of_owedAll
    intro cb hcb
    rw [(hcallbacks cb hcb).key, hkey]
    exact hreply
  · intro cb hcb
    exact (hcallbacks cb hcb).isIndirect

theorem keeps_requestAnswer :
    Keeps info 0 (Request.answer info info.getEndpoints n reply) Settled := by
  apply Returns.bind keeps_receive
  intro x R' hR'
  cases x with
  | none => exact Returns.pure hR'
  | some q =>
    subst hR'
    apply Returns.bind keeps_finishRequest
    rintro _ R' rfl
    apply Returns.bind keeps_store
    rintro callbacks R' ⟨hindirect, rfl⟩
    apply Returns.forM
    intro cb hcb
    apply keeps_answer (hindirect cb hcb)
    intro _
    exact resolves_getEndpointsWithin 1

/-- A reference without endpoints is cleared from the table. -/
theorem keeps_clearCache (hindirect : ref.isIndirect = true) :
    Keeps info R (LocatorInfo.clearCache ref) fun _ R' => R' = R := by
  rw [LocatorInfo.clearCache, LocatorInfo.clearCacheWithin]
  apply Returns.bind (keeps_assert hindirect)
  rintro _ R' rfl
  split
  · exact keeps_removeAdapterEndpoints
  · apply Returns.bind keeps_removeObjectReference
    rintro r R' rfl
    cases r with
    | none => exact Returns.pure rfl
    | some r =>
      dsimp only
      split
      · rename_i hr
        rw [Bool.and_eq_true] at hr
        rw [LocatorInfo.clearCacheWithin]
        apply Returns.bind (keeps_assert hr.1)
        rintro _ R' rfl
        rw [if_pos hr.2]
        exact keeps_removeAdapterEndpoints
      · exact Returns.pure rfl

/-- Every operation gives back what it takes, and ends without a fault. -/
theorem keeps_run (o : Operation) : Keeps info 0 (info.run o) Settled := by
  cases o with
  | getEndpoints ref ttl =>
    have hregister : Keeps info 0 (register ref.1) fun id R' => R' = owed (some id) ref.1 := by
      apply Keeps.perform
      intro s F hJ
      rw [zero_add] at hJ
      exact ⟨_, hJ.register, rfl⟩
    apply Returns.bind hregister
    rintro id R' rfl
    exact keeps_getEndpoints ref.2
  | clearCache ref => exact keeps_clearCache ref.2
  | destroy => exact keeps_clear
  | answer n reply => exact keeps_requestAnswer
  | tick time =>
    apply Keeps.perform
    intro s F hJ
    refine ⟨0, ?_, rfl⟩
    obtain ⟨hsound, hcounted⟩ := hJ
    have hgrows : Grows s { s with now := s.now + time } :=
      ⟨fun _ _ hcall => hcall, List.Subset.refl _, fun _ q hq => ⟨q, hq, rfl⟩⟩
    constructor
    · apply hsound.grows hgrows rfl rfl _ _ rfl
      · intro k m hm
        exact (hsound.pending k m hm).grows hgrows
      · intro q hq
        exact (hsound.requests q hq).grows hgrows
    · exact ⟨hcounted.unanswered, hcounted.sent, hcounted.locked, hcounted.locks,
        hcounted.calls⟩

end members

/-- What a `LocatorInfo` promises in every state: no callback is called twice, and none is
missing once the requests are answered and nothing runs any more; a callback is called with
what an uncached resolution answers when it receives the same replies; and no operation ends
with a fault. -/
structure Transparent (info : LocatorInfo) (m : Machine) : Prop where
  once : ∀ call, m.shared.answered call ≤ if call < m.shared.calls.length then 1 else 0
  answered : m.quiescent = true → (∀ q ∈ m.shared.requests, q.sent = true → q.reply ≠ none) →
    ∀ call < m.shared.calls.length, m.shared.answered call = 1
  resolved : ∀ a ∈ m.shared.answers, ∃ ref, m.shared.calls[a.call]? = some ref ∧
    Resolved info m.shared.replies ref a.result
  unfailing : ∀ t ∈ m.threads, ∀ x, t.2.value? = some x → x = .ok ()

section runs

variable {info : LocatorInfo} {s : State} {R : Resource} {call : Nat}

theorem consistent_initial : Consistent info {} 0 := by
  constructor
  · constructor <;> simp
  · constructor
    · simp
    · simp
    · simp
    · simp
    · simp [State.waiting, State.answered]

theorem Counted.answered_le (h : Counted s R) :
    s.answered call ≤ if call < s.calls.length then 1 else 0 := by
  have hc := h.calls call
  have howing : 0 ≤ owing call R := owing_nonneg
  have hwaiting : 0 ≤ s.waiting call := State.waiting_nonneg
  split at hc
  · rw [if_pos ‹_›]
    omega
  · rw [if_neg ‹_›]
    omega

/-- Where nothing is owed and every request is answered, no callback waits. -/
theorem Counted.answered_eq (h : Counted s 0)
    (hreplies : ∀ q ∈ s.requests, q.sent = true → q.reply ≠ none) (hcall : call < s.calls.length) :
    s.answered call = 1 := by
  have hwaiting : s.waiting call = 0 := by
    apply List.sum_eq_zero
    intro x hx
    obtain ⟨q, hq, rfl⟩ := List.mem_map.mp hx
    cases hsent : q.sent with
    | false => simp [Request.waiting, h.sent q hq hsent]
    | true =>
      rw [Request.waiting, if_neg]
      rw [Option.isNone_iff_eq_none]
      exact hreplies q hq hsent
  have hc := h.calls call
  rw [owing_zero, hwaiting, if_pos hcall] at hc
  omega

end runs

/-- In a run that uses an entry of the cache for a well-known object only where its encoding is
supported, the cache is transparent in every state. -/
theorem transparent_of_careful (info : LocatorInfo) (m : Machine)
    (h : Reach info.move (Lib.Machine.Allows info.Careful) ⟨{}, []⟩ m) : Transparent info m := by
  have hrun : ∀ o : Operation, Triple (Consistent info) info.Careful 0 (info.run o)
      fun x R => R = 0 ∧ x = .ok () := by
    intro o
    apply Triple.conseq (keeps_run o)
    rintro x R ⟨a, rfl, hR⟩
    exact ⟨hR, rfl⟩
  constructor
  · obtain ⟨rs, hJ, -⟩ := Lib.Machine.Owned.of_reach hrun consistent_initial h 0
    exact fun call => hJ.counted.answered_le
  · intro hquiescent hreplies call hcall
    have hJ := Lib.Machine.invariant_of_quiescent hrun consistent_initial h hquiescent
    exact hJ.counted.answered_eq hreplies hcall
  · obtain ⟨rs, hJ, -⟩ := Lib.Machine.Owned.of_reach hrun consistent_initial h 0
    exact hJ.sound.answers
  · intro t ht x hx
    exact Lib.Machine.promise_of_reach hrun consistent_initial h ht hx

deriving instance DecidableEq for RoutableReference, Reply

/-- A well-known object, or with endpoints what the locator knows about it. -/
theorem direct_default (endpoints : List EndpointI) : endpoints = [] ∨ (default : Str) = [] :=
  .inr rfl

def sample (encoding : Version) (endpoints : List EndpointI) : Reference where
  identity := ⟨[7], []⟩
  facet := []
  mode := .twoway
  secure := false
  protocol := Protocol_1_0
  encoding
  endpoints
  adapterId := []
  named := by decide
  direct := direct_default endpoints

/-- The object is looked up, the locator answers with a proxy of some encoding, and the object
is looked up again. -/
def twoCalls (encoding : Version) : List (Move Operation) :=
  let getEndpoints : Operation := .getEndpoints ⟨sample ⟨1, 1⟩ [], rfl⟩ (-1)
  let proxy := sample encoding [.opaqueEndpoint 9 encoding []]
  .start getEndpoints :: List.replicate 4 (.step 0 0) ++
    .start (.answer 0 (.response (some proxy))) :: List.replicate 5 (.step 1 0) ++
      .start getEndpoints :: List.replicate 3 (.step 2 0)

def sampleInfo : LocatorInfo where
  background := false
  identityToString id := id.name

/-- A proxy with a supported encoding. -/
theorem transparent_of_twoCalls : ∃ m : Machine,
    Reach sampleInfo.move (Lib.Machine.Allows sampleInfo.Careful) ⟨{}, []⟩ m ∧
      m.shared.answers.length = 2 ∧ Transparent sampleInfo m := by
  let test (m : Machine) (l : Move Operation) : Bool := decide (m.Allows sampleInfo.Careful l)
  have hrun : (run (fun m l => if test m l then sampleInfo.move m l else none)
      ⟨{}, []⟩ (twoCalls ⟨1, 1⟩)).any
      (fun m => decide (m.shared.answers.length = 2)) = true := by decide +kernel
  obtain ⟨m, h, hm⟩ := Reach.exists_of_runWhere (fun _ _ => of_decide_eq_true) hrun
  exact ⟨m, h, of_decide_eq_true hm, transparent_of_careful sampleInfo m h⟩

/-- The first call finds that the encoding is not supported and answers without endpoints. The
second call is answered from the cache with the endpoints of the same proxy. -/
theorem not_transparent_of_twoCalls : ¬ ∀ (info : LocatorInfo) (m : Machine),
    Reach info.move Any ⟨{}, []⟩ m → Transparent info m := by
  intro h
  let proxy := sample ⟨1, 0⟩ [.opaqueEndpoint 9 ⟨1, 0⟩ []]
  have hrun : (run sampleInfo.move ⟨{}, []⟩ (twoCalls ⟨1, 0⟩)).any (fun m => decide
      (m.shared.calls = [sample ⟨1, 1⟩ [], sample ⟨1, 1⟩ []] ∧
        m.shared.replies = [(.object ⟨[7], []⟩, .response (some proxy))] ∧
        m.shared.answers = [⟨0, .endpoints [], false⟩,
          ⟨1, .endpoints [.opaqueEndpoint 9 ⟨1, 0⟩ []], true⟩])) = true := by decide +kernel
  obtain ⟨m, hreach, hm⟩ := Reach.exists_of_run hrun
  obtain ⟨hcalls, hreplies, hanswers⟩ := of_decide_eq_true hm
  obtain ⟨ref, href, r, hleads, proxy', hmem, hcall⟩ :=
    (h sampleInfo m hreach).resolved ⟨1, .endpoints [.opaqueEndpoint 9 ⟨1, 0⟩ []], true⟩
      (by rw [hanswers]; simp)
  rw [hcalls] at href
  cases href
  rw [hreplies] at hleads hmem
  cases hleads.cases_head with
  | inl heq =>
    subst heq
    cases List.mem_singleton.mp hmem
    cases hcall
  | inr hstep =>
    obtain ⟨r', ⟨proxy'', hmem', hr'⟩, -⟩ := hstep
    cases List.mem_singleton.mp hmem'
    cases hr'

end Ice.Locator
