import Ice.References.Order

/-!
# The values of references

What a reference is apart from the addresses of its endpoints. References that are equal have the
same value.
-/

namespace Ice.References

open Lib
open Bool (and_eq_true)

theorem compareThen_eq_zero {β : Type} [LT β] [DecidableLT β] [DecidableEq β] [Rankable β] {a b : β}
    {rest : Int} (h : compareThen a b rest = 0) : a = b ∧ rest = 0 := by
  unfold compareThen at h
  rcases lt_cases a b with ⟨hl, hg, he⟩ | ⟨hl, hg, he⟩ | ⟨hl, hg, he⟩
  · simp [hl] at h
  · simp only [hl, hg, if_false] at h
    exact ⟨he, h⟩
  · simp [hl, hg] at h

/-- Addresses that compare as equal are equal. -/
theorem eq_of_compareAddress {a b : Address} (h : compareAddress a b = 0) : a = b := by
  obtain ⟨hfamily, hrest⟩ := compareThen_eq_zero h
  cases a <;> cases b <;> try cases hfamily
  · rfl
  all_goals
    obtain ⟨rfl, haddr⟩ := compareThen_eq_zero hrest
    obtain ⟨rfl, _⟩ := compareThen_eq_zero haddr
    rfl

theorem IPEndpointI.eq_of_eq {l r : IPEndpointI} (htype : l.type = r.type) (h : l.eq r = true) :
    l = r := by
  obtain ⟨⟩ := l
  obtain ⟨⟩ := r
  simp only [IPEndpointI.eq, and_eq_true, decide_eq_true_eq] at h
  obtain ⟨⟨⟨hhost, hport⟩, hid⟩, haddress⟩ := h
  rw [IPEndpointI.mk.injEq]
  exact ⟨htype, hhost, hport, eq_of_compareAddress haddress, hid⟩

variable {l r : EndpointI} {f : Factories}

theorem EndpointI.form_of_eq (h : l.eq r = true) : l.form = r.form := by
  induction l generalizing r with
  | ws delegate resource ih =>
    cases r <;> simp [eq] at h
    exact congrArg Form.ws (ih h.1)
  | ssl delegate ih =>
    cases r <;> simp [eq] at h
    exact congrArg Form.ssl (ih h)
  | _ => cases r <;> first | rfl | simp [eq] at h

/-- Endpoints of one type that are equal to the code are equal. -/
theorem EndpointI.eq_of_eq (htype : l.type = r.type) (h : l.eq r = true) : l = r := by
  induction l generalizing r with
  | tcp ip timeout compress =>
    cases r <;> simp [eq] at h
    obtain ⟨⟨hip, rfl⟩, rfl⟩ := h
    rw [IPEndpointI.eq_of_eq htype hip]
  | udp ip interface ttl connect compress =>
    cases r <;> simp [eq] at h
    obtain ⟨⟨⟨⟨hip, rfl⟩, rfl⟩, rfl⟩, rfl⟩ := h
    rw [IPEndpointI.eq_of_eq htype hip]
  | ws delegate resource ih =>
    cases r with
    | ws delegate' resource' =>
      simp only [eq, and_eq_true, decide_eq_true_eq] at h
      have hdelegates : delegate.type = delegate'.type := htype
      rw [ih hdelegates h.1, h.2]
    | _ => simp [eq] at h
  | ssl delegate ih =>
    cases r with
    | ssl delegate' =>
      have hdelegates : delegate.type = delegate'.type := htype
      rw [ssl_eq] at h
      rw [ih hdelegates h]
    | _ => simp [eq] at h
  | opaqueEndpoint type encoding bytes =>
    cases r <;> simp [eq] at h
    obtain ⟨⟨rfl, rfl⟩, rfl⟩ := h
    rfl
  | bt type addr uuid id channel timeout compress =>
    cases r <;> simp [eq] at h
    obtain ⟨⟨⟨⟨⟨rfl, rfl⟩, rfl⟩, rfl⟩, rfl⟩, rfl⟩ := h
    cases htype
    rfl
  | iap type manufacturer model name protocol timeout id compress =>
    cases r <;> simp [eq] at h
    obtain ⟨⟨⟨⟨⟨⟨rfl, rfl⟩, rfl⟩, rfl⟩, rfl⟩, rfl⟩, rfl⟩ := h
    cases htype
    rfl

/-- Equal endpoints are the same value. -/
theorem Factories.Makes.eq_of_eq (hl : f.Makes l) (hr : f.Makes r) (h : l.eq r = true) : l = r := by
  apply EndpointI.eq_of_eq _ h
  by_contra htype
  have hform := EndpointI.form_of_eq h
  have hopaque := EndpointI.opaqueEndpoint_of_form hl hr hform htype
  have htests := EndpointI.opaqueEndpoint_tests hopaque (hform ▸ hopaque) htype
  rw [htests.1.2] at h
  cases h

/-- What stands at the addresses -/
def Routing.targets (r : Routing) : List EndpointI := r.endpoints.map EndpointIPtr.target

/-- The members apart from the addresses -/
def Routing.value (r : Routing) : Routing :=
  { r with endpoints := r.endpoints.map fun p => { p with address := 0 } }

mutual

/-- What is compared of a reference -/
def Reference.value : Reference → Reference
  | .fixed base connection => .fixed base connection
  | .routable base routing router locator =>
    .routable base routing.value (infoValue router) (infoValue locator)

def Reference.infoValue : Option Reference → Option Reference
  | none => none
  | some r => some r.value

end

theorem targets_of_listEqual {l r : Routing} (hl : f.MakesAll l) (hr : f.MakesAll r)
    (h : listEqual (fun p q => p.target.eq q.target) l.endpoints r.endpoints = true) :
    l.targets = r.targets := by
  unfold Factories.MakesAll at hl hr
  unfold Routing.targets
  generalize l.endpoints = ps at *
  generalize r.endpoints = qs at *
  induction ps generalizing qs with
  | nil =>
    cases qs with
    | nil => rfl
    | cons q qs => simp [listEqual] at h
  | cons p ps ih =>
    cases qs with
    | nil => simp [listEqual] at h
    | cons q qs =>
      rw [listEqual, and_eq_true] at h
      rw [List.forall_mem_cons] at hl hr
      rw [List.map_cons, List.map_cons, ih hl.2 qs hr.2 h.2, hl.1.eq_of_eq hr.1 h.1]

theorem Routing.value_eq {l r : Routing} (htargets : l.targets = r.targets)
    (h : { l with endpoints := [] } = { r with endpoints := [] }) : l.value = r.value := by
  have hmap : ∀ ps : List EndpointIPtr, ps.map (fun p => { p with address := 0 }) =
      (ps.map EndpointIPtr.target).map fun e => (⟨0, e⟩ : EndpointIPtr) := by
    intro ps
    rw [List.map_map]
    rfl
  unfold Routing.value
  unfold Routing.targets at htargets
  rw [hmap, hmap, htargets]
  simp only [Routing.mk.injEq] at h ⊢
  exact ⟨trivial, h.2⟩

theorem Routing.targets_value (r : Routing) : r.value.targets = r.targets := by
  simp [Routing.value, Routing.targets]

theorem Routing.value_of_eq {l r : Routing} (hl : f.MakesAll l) (hr : f.MakesAll r)
    (h : l.eq r = true) : l.value = r.value := by
  simp only [Routing.eq, and_eq_true, decide_eq_true_eq] at h
  apply Routing.value_eq (targets_of_listEqual hl hr h.1.1.2)
  rw [Routing.mk.injEq]
  grind

namespace Reference

/-- Routers and locators are compared as references. -/
theorem infoValue_eq_of_infoEq {l r : Option Reference}
    (h : ∀ x ∈ l, ∀ y ∈ r, x.eq y = true → x.value = y.value) (hinfo : infoEq l r = true) :
    infoValue l = infoValue r := by
  cases l with
  | none =>
    cases r with
    | none => rfl
    | some y => simp [infoEq] at hinfo
  | some x =>
    cases r with
    | none => simp [infoEq] at hinfo
    | some y =>
      rw [infoEq] at hinfo
      rw [infoValue, infoValue, h x rfl y rfl hinfo]

/-- Equal references are the same but for addresses. -/
theorem value_eq_of_eq {f : Factories} {l r : Reference} (hl : f.Serves l) (hr : f.Serves r)
    (h : l.eq r = true) : l.value = r.value := by
  induction hl generalizing r with
  | fixed base connection =>
    cases hr with
    | fixed base' connection' =>
      simp only [eq, and_eq_true, decide_eq_true_eq] at h
      rw [Base.eq_iff.mp h.1, h.2]
    | routable => simp [eq] at h
  | @routable base routing router locator hmakes _ _ hrouter hlocator =>
    cases hr with
    | fixed base' connection => simp [eq] at h
    | @routable base' routing' router' locator' hmakes' hrouter' hlocator' =>
      simp only [eq, and_eq_true] at h
      obtain ⟨⟨⟨hbase, hrouting⟩, hrouters⟩, hlocators⟩ := h
      rw [value, value, Base.eq_iff.mp hbase, Routing.value_of_eq hmakes hmakes' hrouting,
        infoValue_eq_of_infoEq (fun x hx y hy => hrouter x hx (hrouter' y hy)) hrouters,
        infoValue_eq_of_infoEq (fun x hx y hy => hlocator x hx (hlocator' y hy)) hlocators]

end Reference

end Ice.References
