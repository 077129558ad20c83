import Ice.Locator.LocatorInfo

/-!
# Resolution without a cache

What a resolution that asks the locator for everything answers, given the replies of the
locator. A reply leads from a well-known object to the adapter its proxy names, or it
settles what the callback is called with.
-/

namespace Ice.Locator

open Ice.Lib Streams References

variable {info : LocatorInfo} {replies replies' : List (Key × Reply)} {ref r : Reference}
  {result : Result}

/-- The locator has answered with a proxy that has to be resolved itself. -/
def Leads (replies : List (Key × Reply)) (ref r : Reference) : Prop :=
  ∃ proxy, (key ref, .response proxy) ∈ replies ∧ responseOutcome ref proxy = .getEndpoints r

/-- The locator has answered, and this is what a callback makes of it. -/
def Settles (info : LocatorInfo) (replies : List (Key × Reply)) (ref : Reference) :
    Result → Prop
  | .endpoints endpoints => ∃ proxy, (key ref, .response proxy) ∈ replies ∧
    responseOutcome ref proxy = .call (.endpoints endpoints)
  | .exception ex => ∃ e, (key ref, .exception e) ∈ replies ∧
    info.getEndpointsException ref e = ex

/-- An uncached resolution of the reference answers this when it receives these replies. -/
def Resolved (info : LocatorInfo) (replies : List (Key × Reply)) (ref : Reference)
    (result : Result) : Prop :=
  ∃ r, Relation.ReflTransGen (Leads replies) ref r ∧ Settles info replies r result

theorem Leads.mono (h : Leads replies ref r) (hsub : replies ⊆ replies') :
    Leads replies' ref r := by
  obtain ⟨proxy, hmem, hr⟩ := h
  exact ⟨proxy, hsub hmem, hr⟩

theorem Settles.mono (h : Settles info replies ref result) (hsub : replies ⊆ replies') :
    Settles info replies' ref result := by
  cases result with
  | endpoints endpoints =>
    obtain ⟨proxy, hmem, hr⟩ := h
    exact ⟨proxy, hsub hmem, hr⟩
  | exception ex =>
    obtain ⟨e, hmem, hr⟩ := h
    exact ⟨e, hsub hmem, hr⟩

theorem leads_mono (h : Relation.ReflTransGen (Leads replies) ref r) (hsub : replies ⊆ replies') :
    Relation.ReflTransGen (Leads replies') ref r :=
  h.lift id fun _ _ hl => hl.mono hsub

/-- More replies take nothing away. -/
theorem Resolved.mono (h : Resolved info replies ref result) (hsub : replies ⊆ replies') :
    Resolved info replies' ref result := by
  obtain ⟨r, hr, hsettles⟩ := h
  exact ⟨r, leads_mono hr hsub, hsettles.mono hsub⟩

theorem key_of_adapter (h : ref.isWellKnown = false) : key ref = .adapter ref.adapterId := by
  simp [key, h]

theorem key_of_object (h : ref.isWellKnown = true) : key ref = .object ref.identity := by
  simp [key, h]

/-- A proxy with endpoints of a supported encoding settles a reference. -/
theorem responseOutcome_direct (hr : r.isIndirect = false)
    (hsupported : ref.isWellKnown = true → isSupported ref.encoding r.encoding = true) :
    responseOutcome ref (some r) = .call (.endpoints r.endpoints) := by
  cases hw : ref.isWellKnown with
  | false => simp [responseOutcome, hr, hw]
  | true => simp [responseOutcome, hr, hw, hsupported hw]

/-- A proxy with an adapter and a supported encoding leads from a well-known object to it. -/
theorem responseOutcome_indirect (hw : ref.isWellKnown = true) (hr : r.isIndirect = true)
    (hwr : r.isWellKnown = false) (hsupported : isSupported ref.encoding r.encoding = true) :
    responseOutcome ref (some r) = .getEndpoints r := by
  simp [responseOutcome, hw, hr, hwr, hsupported]

variable {proxy : Option Reference}

/-- Only well-known objects lead to something else, and that is not well-known. -/
theorem of_responseOutcome_getEndpoints
    (h : responseOutcome ref proxy = .getEndpoints r) :
    ref.isWellKnown = true ∧ r.isIndirect = true ∧ r.isWellKnown = false := by
  cases proxy with
  | none => cases h
  | some p =>
    simp only [responseOutcome] at h
    split at h
    · cases h
    · split at h
      · cases h
      · rename_i hindirect
        split at h
        · rename_i hw
          cases h
          simp only [Bool.not_eq_true', Bool.not_eq_false] at hindirect
          simp only [Bool.and_eq_true, Bool.not_eq_true'] at hw
          exact ⟨hw.1, hindirect, hw.2⟩
        · cases h

/-- What a response calls a callback with are endpoints. -/
theorem of_responseOutcome_call
    (h : responseOutcome ref proxy = .call result) :
    ∃ endpoints, result = .endpoints endpoints := by
  cases proxy with
  | none =>
    cases h
    exact ⟨_, rfl⟩
  | some p =>
    simp only [responseOutcome] at h
    split at h
    · cases h
      exact ⟨_, rfl⟩
    · split at h
      · cases h
        exact ⟨_, rfl⟩
      · split at h
        · cases h
        · cases h
          exact ⟨_, rfl⟩

/-- A reply that a callback turns into a call settles the reference. -/
theorem settles_of_response (hmem : (key ref, .response proxy) ∈ replies)
    (h : responseOutcome ref proxy = .call result) : Settles info replies ref result := by
  obtain ⟨endpoints, rfl⟩ := of_responseOutcome_call h
  exact ⟨proxy, hmem, h⟩

/-- What is found in the cache for a well-known object, and used. -/
def LocatorInfo.Uses (info : LocatorInfo) (s : State) (ref r : Reference) (ttl : Int) : Prop :=
  ∃ fresh, LocatorTable.find (s.objectMap ref.identity) s.now ttl = some (fresh, r) ∧
    (fresh = true ∨ info.background = true)

/-- The condition on the steps of a run: the encoding of a reference that is found in the cache
for a well-known object and used is one that the object's reference supports. -/
def LocatorInfo.Careful (info : LocatorInfo) (s : State) : Point → Prop
  | .internal => True
  | .getObjectReference ref ttl =>
    ∀ r, info.Uses s ref r ttl → isSupported ref.encoding r.encoding = true

instance (s : State) (l : Point) : Decidable (info.Careful s l) :=
  match l with
  | .internal => isTrue trivial
  | .getObjectReference ref ttl =>
    match h : LocatorTable.find (s.objectMap ref.identity) s.now ttl with
    | none => isTrue (by simp [LocatorInfo.Careful, LocatorInfo.Uses, h])
    | some (fresh, r) =>
      decidable_of_iff
        (fresh = true ∨ info.background = true → isSupported ref.encoding r.encoding = true) <| by
          constructor
          · rintro hused r' ⟨fresh', hr', hfresh⟩
            cases h.symm.trans hr'
            exact hused hfresh
          · intro hall hfresh
            exact hall r ⟨fresh, h, hfresh⟩

end Ice.Locator
