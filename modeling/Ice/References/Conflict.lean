import Ice.References.Value

/-!
# References that are no order in C++11

The comparison of C++11 differs from that of C++98 only where all members before the endpoints are
equal. Two references conflict if the test on the addresses of their endpoints, or the timeouts
behind a test that it skips, then decides differently; where no comparison comes to such a pair,
the two are the same.
-/

namespace Ice.References

open Lib

/-- The endpoints of one side are less while their addresses are not, and its timeout is greater. -/
def Routing.Crosses (l r : Routing) : Prop :=
  endpointsLess l.endpoints r.endpoints = true ∧ addressesLess l.endpoints r.endpoints = false ∧
    r.locatorCacheTimeout < l.locatorCacheTimeout

/-- The endpoints are equal, the addresses of the other side are less, and its timeout is
greater. -/
def Routing.Hides (l r : Routing) : Prop :=
  l.targets = r.targets ∧ addressesLess r.endpoints l.endpoints = true ∧
    l.locatorCacheTimeout < r.locatorCacheTimeout

def Routing.Clashes (l r : Routing) : Prop := l.Crosses r ∨ l.Hides r

theorem listLess_map {α β : Type*} (g : α → β) (lt : β → β → Bool) (as bs : List α) :
    listLess lt (as.map g) (bs.map g) = listLess (fun a b => lt (g a) (g b)) as bs := by
  induction as generalizing bs with
  | nil => cases bs <;> rfl
  | cons a as ih =>
    cases bs with
    | nil => rfl
    | cons b bs =>
      rw [List.map_cons, List.map_cons, listLess, listLess, ih]

variable {f : Factories} {l r : Routing} {m : Mapping} {S : Set Reference}

theorem endpointsLess_of_targets (hl : f.MakesAll l) (h : l.targets = r.targets) :
    endpointsLess l.endpoints r.endpoints = false := by
  have hself := (ranked_endpoints hl hl l.not_mismatched_self l.not_mismatched_self).not_lt_self
  have hmap : ∀ ps qs : List EndpointIPtr, endpointsLess ps qs =
      listLess EndpointI.lt (ps.map EndpointIPtr.target) (qs.map EndpointIPtr.target) := by
    intro ps qs
    rw [listLess_map]
    rfl
  unfold Routing.targets at h
  rw [hmap, ← h, ← hmap, hself]

section

variable {β : Type} [LT β] [DecidableLT β] [DecidableEq β] [Rankable β]

theorem chainOverride_congr (l r : Option β) {rest rest' : Bool} (h : l = r → rest = rest') :
    chainOverride l r rest = chainOverride l r rest' := by
  unfold chainOverride
  apply chainOf_congr
  intro hflags
  cases l <;> cases r <;> try cases hflags
  · exact h rfl
  · exact chainOf_congr _ _ fun hvalues => h (congrArg some hvalues)

theorem chainOverride_self (o : Option β) (rest : Bool) : chainOverride o o rest = rest := by
  unfold chainOverride
  rw [chainOf_self]
  cases o with
  | none => rfl
  | some a => exact chainOf_self a rest

end

theorem Routing.chainBefore_self (h : l.before = r.before) (rest : Bool) :
    l.chainBefore r rest = rest := by
  simp only [Routing.before, Routing.mk.injEq] at h
  obtain ⟨-, -, hcollocation, hcache, hsecure, hselection, -, hoverride, hid⟩ := h
  unfold Routing.chainBefore
  rw [hsecure, hcollocation, hcache, hselection, hid, hoverride, chainOf_self, chainOf_self,
    chainOf_self, chainOf_self, chainOf_self, chainOverride_self]

theorem Routing.chainAfter_self (h : l.others = r.others) :
    l.chainAfter m r = chain (endpointsLess l.endpoints r.endpoints)
      (m.endpointsGreater l.endpoints r.endpoints)
      (chainOf l.locatorCacheTimeout r.locatorCacheTimeout false) := by
  simp only [Routing.others, Routing.mk.injEq] at h
  unfold Routing.chainAfter
  rw [h.2.1, chainOf_self]

/-- With equal members before it, the rest decides. -/
theorem Routing.chainBefore_congr {rest rest' : Bool}
    (h : l.before = r.before → rest = rest') :
    l.chainBefore r rest = l.chainBefore r rest' := by
  unfold Routing.chainBefore
  apply chainOf_congr
  intro hsecure
  apply chainOf_congr
  intro hcollocation
  apply chainOf_congr
  intro hcache
  apply chainOf_congr
  intro hselection
  apply chainOf_congr
  intro hid
  apply chainOverride_congr
  intro hoverride
  apply h
  rw [Routing.before, Routing.before, hsecure, hcollocation, hcache,
    EndpointSelectionType.toNat_inj.mp hselection, hid, hoverride]

/-- Without a clash, the test on addresses does no harm. -/
theorem Routing.chainAfter_congr (hl : f.MakesAll l) (hr : f.MakesAll r)
    (h : l.adapterId = r.adapterId →
      (¬l.Mismatched r ∧ ¬r.Mismatched l) ∧ ¬l.Clashes r ∧ ¬r.Clashes l) :
    l.chainAfter .cpp11 r = l.chainAfter .cpp98 r := by
  unfold Routing.chainAfter
  apply chainOf_congr
  intro hid
  obtain ⟨⟨hmismatched, hmismatched'⟩, hlr, hrl⟩ := h hid
  have hranked := ranked_endpoints hl hr hmismatched hmismatched'
  have hcpp11 : Mapping.cpp11.endpointsGreater l.endpoints r.endpoints =
      addressesLess r.endpoints l.endpoints := rfl
  have hcpp98 : Mapping.cpp98.endpointsGreater l.endpoints r.endpoints =
      endpointsLess r.endpoints l.endpoints := rfl
  rw [hcpp11, hcpp98]
  unfold chain
  by_cases hless : endpointsLess l.endpoints r.endpoints = true
  · rw [if_pos hless, if_pos hless]
  · rw [if_neg hless, if_neg hless]
    by_cases hgreater : endpointsLess r.endpoints l.endpoints = true
    · -- the operand is greater, and no smaller timeout may contradict that
      rw [if_pos hgreater]
      split
      · rfl
      · rename_i haddresses
        have htimeout : ¬l.locatorCacheTimeout < r.locatorCacheTimeout := fun ht =>
          hrl (.inl ⟨hgreater, eq_false_of_ne_true haddresses, ht⟩)
        simp [chainOf, chain, htimeout]
    · -- the endpoints are equal, and the timeouts decide
      rw [if_neg hgreater]
      split
      · rename_i haddresses
        have htargets := targets_of_listEqual hl hr (hranked.eq_of_not_lt hless hgreater)
        have htimeout : ¬l.locatorCacheTimeout < r.locatorCacheTimeout := fun ht =>
          hlr (.inr ⟨htargets, haddresses, ht⟩)
        simp [chainOf, chain, htimeout]
      · rfl

theorem Routing.chainAfter_of_value (hl : f.MakesAll l) (h : l.value = r.value) :
    l.chainAfter m r = false := by
  have htargets : l.targets = r.targets := by
    rw [← l.targets_value, h, r.targets_value]
  have hless := endpointsLess_of_targets hl htargets
  simp only [Routing.value, Routing.mk.injEq] at h
  obtain ⟨-, hid, -, -, -, -, htimeout, -⟩ := h
  unfold Routing.chainAfter
  rw [hid, htimeout, chainOf_self, chainOf_self, hless]
  simp [chain]

theorem Routing.others_of_value (h : l.value = r.value) : l.others = r.others := by
  simp only [Routing.value, Routing.others, Routing.mk.injEq] at h ⊢
  grind

namespace Reference

variable {m : Mapping}

/-- What is the same value is not less. -/
theorem infoLt_of_value_eq {l r : Option Reference}
    (h : ∀ x ∈ l, ∀ y ∈ r, x.value = y.value → lt m x y = false ∧ lt m y x = false)
    (hinfo : infoValue l = infoValue r) : infoLt m l r = false ∧ infoLt m r l = false := by
  cases l with
  | none =>
    cases r with
    | none => simp only [infoLt, and_self]
    | some y => simp [infoValue] at hinfo
  | some x =>
    cases r with
    | none => simp [infoValue] at hinfo
    | some y =>
      rw [infoValue, infoValue, Option.some.injEq] at hinfo
      rw [infoLt, infoLt]
      exact h x rfl y rfl hinfo

/-- With equal members before it, the router is compared. -/
theorem lt_of_before {base : Base} {routing routing' : Routing}
    {router router' locator locator' : Option Reference} (h : routing.before = routing'.before) :
    lt m (.routable base routing router locator) (.routable base routing' router' locator') =
      chain (infoLt m router router') (infoLt m router' router)
        (chain (infoLt m locator locator') (infoLt m locator' locator)
          (routing.chainAfter m routing')) := by
  have hbase := (ranked_base base base).not_lt_self
  have hself : base.eq base = true := Base.eq_iff.mpr rfl
  rw [lt, hbase, hself, Routing.chainBefore_self h]
  simp

/-- With equal members before it, the rest of the members decides. -/
theorem lt_of_others {base : Base} {routing routing' : Routing}
    {router router' locator locator' : Option Reference} (h : routing.others = routing'.others)
    (hrouter : infoLt m router router' = false ∧ infoLt m router' router = false)
    (hlocator : infoLt m locator locator' = false ∧ infoLt m locator' locator = false) :
    lt m (.routable base routing router locator) (.routable base routing' router' locator') =
      routing.chainAfter m routing' := by
  rw [lt_of_before (Routing.others_eq_iff.mp h).1]
  simp [chain, hrouter, hlocator]

theorem lt_of_value_eq {f : Factories} {l r : Reference} (hl : f.Serves l) (hr : f.Serves r)
    (h : l.value = r.value) : lt m l r = false ∧ lt m r l = false := by
  induction hl generalizing r with
  | fixed base connection =>
    cases hr with
    | fixed base' connection' =>
      rw [value, value, Reference.fixed.injEq] at h
      obtain ⟨rfl, rfl⟩ := h
      have hbase := (ranked_base base base).not_lt_self
      simp [lt, hbase]
    | routable => simp [value] at h
  | @routable base routing router locator hmakes _ _ hrouter hlocator =>
    cases hr with
    | fixed base' connection => simp [value] at h
    | @routable base' routing' router' locator' hmakes' hrouter' hlocator' =>
      rw [value, value, Reference.routable.injEq] at h
      obtain ⟨rfl, hrouting, hrouters, hlocators⟩ := h
      have hothers := Routing.others_of_value hrouting
      have hltRouters :=
        infoLt_of_value_eq (fun x hx y hy => hrouter x hx (hrouter' y hy)) hrouters
      have hltLocators :=
        infoLt_of_value_eq (fun x hx y hy => hlocator x hx (hlocator' y hy)) hlocators
      constructor
      · rw [lt_of_others hothers hltRouters hltLocators]
        exact Routing.chainAfter_of_value hmakes hrouting
      · rw [lt_of_others hothers.symm hltRouters.symm hltLocators.symm]
        exact Routing.chainAfter_of_value hmakes' hrouting.symm

theorem infoLt_of_infoEq {f : Factories} {l r : Option Reference} (hl : ∀ x ∈ l, f.Serves x)
    (hr : ∀ y ∈ r, f.Serves y) (h : infoEq l r = true) :
    infoLt m l r = false ∧ infoLt m r l = false :=
  infoLt_of_value_eq (fun x hx y hy => lt_of_value_eq (hl x hx) (hr y hy))
    (infoValue_eq_of_infoEq (fun x hx y hy => value_eq_of_eq (hl x hx) (hr y hy)) h)

section

variable {f : Factories} {l r x y : Reference}

theorem Tied.or (h : Tied Routing.Clashes l r) :
    Tied Routing.Crosses l r ∨ Tied Routing.Hides l r := by
  cases l <;> cases r <;> try exact h.elim
  obtain ⟨hbase, hothers, hrouter, hlocator, hcross | hhide⟩ := h
  · exact .inl ⟨hbase, hothers, hrouter, hlocator, hcross⟩
  · exact .inr ⟨hbase, hothers, hrouter, hlocator, hhide⟩

/-- Each of two references is less than the other one. -/
def BothLess (l r : Reference) : Prop := lt .cpp11 l r = true ∧ lt .cpp11 r l = true

theorem Tied.bothLess (h : Tied Routing.Crosses l r) (hl : f.Serves l) (hr : f.Serves r) :
    BothLess l r := by
  obtain ⟨_, _⟩ | ⟨_, hrouter, hlocator⟩ := hl
  · exact h.elim
  obtain ⟨_, _⟩ | ⟨_, hrouter', hlocator'⟩ := hr
  · exact h.elim
  obtain ⟨rfl, hothers, hrouters, hlocators, hless, haddresses, htimeout⟩ := h
  have hltRouters : infoLt .cpp11 _ _ = false ∧ _ := infoLt_of_infoEq hrouter hrouter' hrouters
  have hltLocators : infoLt .cpp11 _ _ = false ∧ _ :=
    infoLt_of_infoEq hlocator hlocator' hlocators
  unfold BothLess
  rw [lt_of_others hothers hltRouters hltLocators,
    lt_of_others hothers.symm hltRouters.symm hltLocators.symm, Routing.chainAfter_self hothers,
    Routing.chainAfter_self hothers.symm]
  constructor
  · simp [chain, hless]
  · simp [chain, chainOf, Mapping.endpointsGreater, haddresses, htimeout]

/-- What the comparison comes to makes both references less. -/
theorem Compares.bothLess (h : l.Compares r x y) (hl : f.Serves l) (hr : f.Serves r)
    (hxy : f.Serves x → f.Serves y → BothLess x y) : BothLess l r := by
  induction h with
  | self l r => exact hxy hl hr
  | router hbefore _ ih =>
    obtain ⟨_, _⟩ | ⟨_, hrouter, _⟩ := hl
    obtain ⟨_, _⟩ | ⟨_, hrouter', _⟩ := hr
    obtain ⟨hlt, hgt⟩ := ih (hrouter _ rfl) (hrouter' _ rfl) hxy
    unfold BothLess
    rw [lt_of_before hbefore, lt_of_before hbefore.symm]
    simp [infoLt, chain, hlt, hgt]
  | locator hbefore heq _ ih =>
    obtain ⟨_, _⟩ | ⟨_, hrouter, hlocator⟩ := hl
    obtain ⟨_, _⟩ | ⟨_, hrouter', hlocator'⟩ := hr
    obtain ⟨hlt, hgt⟩ := ih (hlocator _ rfl) (hlocator' _ rfl) hxy
    have hrouters : infoLt .cpp11 _ _ = false ∧ _ := infoLt_of_infoEq hrouter hrouter' heq
    unfold BothLess
    rw [lt_of_before hbefore, lt_of_before hbefore.symm]
    simp [infoLt, chain, hrouters, hlt, hgt]

/-- Neither is less, but the timeouts differ. -/
theorem Tied.not_strictWeak {S : Set Reference} (h : Tied Routing.Hides l r) (hl : f.Serves l)
    (hr : f.Serves r) (hlS : l ∈ S) (hrS : r ∈ S) : ¬StrictWeak S (lt .cpp11) eq := by
  intro hweak
  obtain ⟨_, _⟩ | @⟨base, routing, router, locator, hmakes, hrouter, hlocator⟩ := hl
  · exact h
  obtain ⟨_, _⟩ | @⟨base', routing', router', locator', hmakes', hrouter', hlocator'⟩ := hr
  · exact h
  obtain ⟨rfl, hothers, hrouters, hlocators, htargets, haddresses, htimeout⟩ := h
  have hltRouters : infoLt .cpp11 _ _ = false ∧ _ := infoLt_of_infoEq hrouter hrouter' hrouters
  have hltLocators : infoLt .cpp11 _ _ = false ∧ _ :=
    infoLt_of_infoEq hlocator hlocator' hlocators
  have hlt : lt .cpp11 (.routable base routing router locator) _ = _ :=
    lt_of_others hothers hltRouters hltLocators
  have hgt : lt .cpp11 (.routable base routing' router' locator') _ = _ :=
    lt_of_others hothers.symm hltRouters.symm hltLocators.symm
  rw [Routing.chainAfter_self hothers] at hlt
  rw [Routing.chainAfter_self hothers.symm] at hgt
  have hless := endpointsLess_of_targets hmakes htargets
  have hgreater := endpointsLess_of_targets hmakes' htargets.symm
  simp [chain, Mapping.endpointsGreater, hless, haddresses] at hlt
  simp [chain, chainOf, Mapping.endpointsGreater, hgreater, htimeout.not_gt] at hgt
  have heq := (hweak.eq_iff _ hlS _ hrS).mpr ⟨hlt, hgt⟩
  simp only [eq, Routing.eq, Bool.and_eq_true, decide_eq_true_eq] at heq
  omega

end

theorem infoLt_congr {l r : Option Reference}
    (h : ∀ x ∈ l, ∀ y ∈ r, lt .cpp11 x y = lt .cpp98 x y) :
    infoLt .cpp11 l r = infoLt .cpp98 l r := by
  cases l <;> cases r <;> try simp only [infoLt]
  exact h _ rfl _ rfl

/-- Routers or locators that are ranked in C++98 and compared likewise in C++11 -/
structure Settled (l r : Option Reference) : Prop where
  ranked : Ranked (infoLt .cpp98) infoEq infoRank l r
  less : infoLt .cpp11 l r = infoLt .cpp98 l r
  greater : infoLt .cpp11 r l = infoLt .cpp98 r l

theorem Settled.symm {l r : Option Reference} (h : Settled l r) : Settled r l :=
  ⟨h.ranked.symm, h.greater, h.less⟩

theorem Settled.of_forall {l r : Option Reference} (h : ∀ x ∈ l, ∀ y ∈ r,
    Ranked (lt .cpp98) eq rank x y ∧ lt .cpp11 x y = lt .cpp98 x y ∧
      lt .cpp11 y x = lt .cpp98 y x) : Settled l r := by
  constructor
  · rw [infoLt_eq, infoEq_eq, infoRank_eq]
    exact ranked_handle fun x hx y hy => (h x hx y hy).1
  · exact infoLt_congr fun x hx y hy => (h x hx y hy).2.1
  · exact infoLt_congr fun y hy x hx => (h x hx y hy).2.2

/-- The comparison of two references comes to no mismatch and to no clash, either way. -/
structure Undisturbed (l r : Reference) : Prop where
  mismatched : Clear Routing.Mismatched l r
  mismatched' : Clear Routing.Mismatched r l
  clashes : Clear Routing.Clashes l r
  clashes' : Clear Routing.Clashes r l

section

variable {f : Factories} {base base' : Base} {routing routing' : Routing}
  {router router' locator locator' : Option Reference}

/-- The mappings agree if they do on what the comparison comes to. -/
theorem lt_cpp11_routable (hl : f.MakesAll routing) (hr : f.MakesAll routing')
    (hrouter : base = base' → routing.before = routing'.before → Settled router router')
    (hlocator : base = base' → routing.before = routing'.before → infoEq router router' = true →
      Settled locator locator')
    (hendpoints : base = base' → routing.others = routing'.others →
      infoEq router router' = true → infoEq locator locator' = true →
      (¬routing.Mismatched routing' ∧ ¬routing'.Mismatched routing) ∧
        ¬routing.Clashes routing' ∧ ¬routing'.Clashes routing) :
    lt .cpp11 (.routable base routing router locator) (.routable base' routing' router' locator') =
      lt .cpp98 (.routable base routing router locator)
        (.routable base' routing' router' locator') := by
  rw [lt, lt, (ranked_base base base').chain_test, (ranked_base base base').chain_test]
  apply (ranked_base base base').chain_congr
  intro hbase
  have hsame := Base.eq_iff.mp hbase
  apply Routing.chainBefore_congr
  intro hbefore
  have hrouters := hrouter hsame hbefore
  rw [hrouters.less, hrouters.greater]
  apply hrouters.ranked.chain_congr
  intro hrouterEq
  have hlocators := hlocator hsame hbefore hrouterEq
  rw [hlocators.less, hlocators.greater]
  apply hlocators.ranked.chain_congr
  intro hlocatorEq
  apply Routing.chainAfter_congr hl hr
  intro hid
  exact hendpoints hsame (Routing.others_eq_iff.mpr ⟨hbefore, hid⟩) hrouterEq hlocatorEq

end

/-- Where nothing disturbs the comparison, the mappings agree. -/
theorem lt_cpp11_eq {f : Factories} {l r : Reference} (hl : f.Serves l) (hr : f.Serves r)
    (h : Undisturbed l r) : lt .cpp11 l r = lt .cpp98 l r ∧ lt .cpp11 r l = lt .cpp98 r l := by
  induction hl generalizing r with
  | fixed base connection => cases r <;> simp only [lt, and_self]
  | @routable base routing router locator hmakes hserves hserves' hrouter hlocator =>
    obtain ⟨_, _⟩ | @⟨base', routing', router', locator', hmakes', hrouter', hlocator'⟩ := hr
    · simp only [lt, and_self]
    have hrouters : base = base' → routing.before = routing'.before → Settled router router' := by
      rintro rfl hbefore
      apply Settled.of_forall
      intro x hx y hy
      cases hx
      cases hy
      have hinner : Undisturbed x y := ⟨h.mismatched.router hbefore,
        h.mismatched'.router hbefore.symm, h.clashes.router hbefore, h.clashes'.router hbefore.symm⟩
      exact ⟨ranked_serves (hserves _ rfl) (hrouter' _ rfl) hinner.mismatched hinner.mismatched',
        hrouter _ rfl (hrouter' _ rfl) hinner⟩
    have hlocators : base = base' → routing.before = routing'.before →
        infoEq router router' = true → Settled locator locator' := by
      rintro rfl hbefore heq
      have heq' := (hrouters rfl hbefore).ranked.eq_symm heq
      apply Settled.of_forall
      intro x hx y hy
      cases hx
      cases hy
      have hinner : Undisturbed x y := ⟨h.mismatched.locator hbefore heq,
        h.mismatched'.locator hbefore.symm heq', h.clashes.locator hbefore heq,
        h.clashes'.locator hbefore.symm heq'⟩
      exact ⟨ranked_serves (hserves' _ rfl) (hlocator' _ rfl) hinner.mismatched
        hinner.mismatched', hlocator _ rfl (hlocator' _ rfl) hinner⟩
    have hendpoints : base = base' → routing.others = routing'.others →
        infoEq router router' = true → infoEq locator locator' = true →
        (¬routing.Mismatched routing' ∧ ¬routing'.Mismatched routing) ∧
          ¬routing.Clashes routing' ∧ ¬routing'.Clashes routing := by
      rintro rfl hothers hr hl
      obtain ⟨hbefore, -⟩ := Routing.others_eq_iff.mp hothers
      have hr' := (hrouters rfl hbefore).ranked.eq_symm hr
      have hl' := (hlocators rfl hbefore hr).ranked.eq_symm hl
      exact ⟨⟨fun hm => h.mismatched _ _ (.self ..) ⟨rfl, hothers, hr, hl, hm⟩,
        fun hm => h.mismatched' _ _ (.self ..) ⟨rfl, hothers.symm, hr', hl', hm⟩⟩,
        fun hc => h.clashes _ _ (.self ..) ⟨rfl, hothers, hr, hl, hc⟩,
        fun hc => h.clashes' _ _ (.self ..) ⟨rfl, hothers.symm, hr', hl', hc⟩⟩
    constructor
    · exact lt_cpp11_routable hmakes hmakes' hrouters hlocators hendpoints
    · apply lt_cpp11_routable hmakes' hmakes
      · intro hbase hbefore
        exact (hrouters hbase.symm hbefore.symm).symm
      · intro hbase hbefore hr
        have hr' := (hrouters hbase.symm hbefore.symm).ranked.symm.eq_symm hr
        exact (hlocators hbase.symm hbefore.symm hr').symm
      · intro hbase hothers hr hl
        obtain ⟨hbefore, -⟩ := Routing.others_eq_iff.mp hothers
        have hr' := (hrouters hbase.symm hbefore.symm).ranked.symm.eq_symm hr
        have hl' := (hlocators hbase.symm hbefore.symm hr').ranked.symm.eq_symm hl
        obtain ⟨hmismatched, hclashes⟩ := hendpoints hbase.symm hothers.symm hr' hl'
        exact ⟨hmismatched.symm, hclashes.symm⟩

/-- References that are equal have equal hashes. -/
theorem hashInit_of_eq {l r : Reference} (h : l.eq r = true) : l.hashInit = r.hashInit := by
  cases l with
  | fixed base connection =>
    cases r with
    | fixed base' connection' =>
      simp only [eq, Bool.and_eq_true] at h
      rw [hashInit, hashInit, Base.eq_iff.mp h.1]
    | routable => simp [eq] at h
  | routable base routing router locator =>
    cases r with
    | fixed base' connection' => simp [eq] at h
    | routable base' routing' router' locator' =>
      simp only [eq, Routing.eq, Bool.and_eq_true, decide_eq_true_eq] at h
      have hadapter : routing.adapterId = routing'.adapterId := h.1.1.2.1.2
      rw [hashInit, hashInit, Base.eq_iff.mp h.1.1.1, hadapter]

end Reference

/-- The comparison of the references of a set is an order, and equal ones have equal hashes. -/
structure Ordered (m : Mapping) (S : Set Reference) : Prop where
  order : StrictWeak S (Reference.lt m) Reference.eq
  hash : ∀ l ∈ S, ∀ r ∈ S, l.eq r = true → l.hashInit = r.hashInit

theorem Ordered.of_order (h : StrictWeak S (Reference.lt m) Reference.eq) : Ordered m S :=
  ⟨h, fun _ _ _ _ => Reference.hashInit_of_eq⟩

open Reference

theorem ordered_cpp98 (hS : ∀ r ∈ S, f.Serves r)
    (h : ∀ l ∈ S, ∀ r ∈ S, Clear Routing.Mismatched l r) :
    StrictWeak S (Reference.lt .cpp98) Reference.eq := by
  have hranked : ∀ l ∈ S, ∀ r ∈ S, Ranked (Reference.lt .cpp98) Reference.eq Reference.rank l r :=
    fun l hl r hr => ranked_serves (hS l hl) (hS r hr) (h l hl r hr) (h r hr l hl)
  apply StrictWeak.of_key fun r => Reference.rank r []
  · intro l hl r hr
    exact (hranked l hl r hr).lt_iff
  · intro l hl r hr
    exact (hranked l hl r hr).eq_iff

/-- The comparison is an order in C++98 if it comes to no two endpoints that are mismatched, and in
C++11 if it comes to no clash either. In C++11 two members that clash are enough for it to be none,
and so are routers or locators of which each is less than the other. -/
theorem ordered_of_clear {f : Factories} {S : Set Reference} (hS : ∀ r ∈ S, f.Serves r)
    (m : Mapping) :
    ((∀ l ∈ S, ∀ r ∈ S, Clear Routing.Mismatched l r) ∧
      (m = .cpp98 ∨ ∀ l ∈ S, ∀ r ∈ S, Clear Routing.Clashes l r) → Ordered m S) ∧
    (Ordered .cpp11 S → ∀ l ∈ S, ∀ r ∈ S, ¬Tied Routing.Clashes l r ∧
      Clear Routing.Crosses l r) := by
  constructor
  · rintro ⟨hmismatched, hclashes⟩
    have h98 := ordered_cpp98 hS hmismatched
    cases m with
    | cpp98 => exact .of_order h98
    | cpp11 =>
      have hclear := hclashes.resolve_left (by decide)
      apply Ordered.of_order
      apply h98.congr
      intro l hl r hr
      exact (lt_cpp11_eq (hS l hl) (hS r hr) ⟨hmismatched l hl r hr, hmismatched r hr l hl,
        hclear l hl r hr, hclear r hr l hl⟩).1
  · intro h l hl r hr
    have hcrosses : Clear Routing.Crosses l r := by
      intro x y hxy htied
      obtain ⟨hlt, hgt⟩ := hxy.bothLess (hS l hl) (hS r hr) htied.bothLess
      rw [h.order.asymm l hl r hr hlt] at hgt
      cases hgt
    refine ⟨fun htied => ?_, hcrosses⟩
    rcases htied.or with hcross | hhide
    · exact hcrosses l r (.self ..) hcross
    · exact hhide.not_strictWeak (hS l hl) (hS r hr) hl hr h.order

/-- The factory for `tcp` alone -/
def tcpFactory : Factories where
  form t := if t = 1 then .tcp else .opaqueEndpoint
  injective t t' h hne := by
    split at h <;> split at h <;> simp_all

/-- A proxy of an object behind a port; its endpoint has an address. -/
def proxyAt (address : Nat) (port locatorCacheTimeout : Int) : Reference :=
  .routable
    ⟨.twoway, false, ⟨[97], []⟩, [], [], ⟨1, 0⟩, ⟨1, 1⟩, -1, none⟩
    ⟨[⟨address, .tcp ⟨1, [], port, .unspec, []⟩ (-1) false⟩], [], true, true, false, .random,
      locatorCacheTimeout, none, []⟩
    none none

theorem proxyAt_serves (address : Nat) (port timeout : Int) :
    tcpFactory.Serves (proxyAt address port timeout) := by
  apply Factories.Serves.routable
  · intro p hp
    rw [List.mem_singleton] at hp
    rw [hp]
    exact .inr rfl
  · intro r hr
    cases hr
  · intro r hr
    cases hr

/-- The endpoint of the first proxy has the smaller port and the greater address, and its timeout
is greater. -/
theorem not_ordered_cpp11 : ¬∀ (f : Factories) (S : Set Reference), (∀ r ∈ S, f.Serves r) →
    ∀ m, Ordered m S := by
  intro h
  have hserves : ∀ r ∈ ({proxyAt 2 10000 60, proxyAt 1 10001 30} : Set Reference),
      tcpFactory.Serves r := by
    intro r hr
    rcases hr with rfl | rfl
    · exact proxyAt_serves ..
    · exact proxyAt_serves ..
  have hports : EndpointI.lt (.tcp ⟨1, [], 10000, .unspec, []⟩ (-1) false)
      (.tcp ⟨1, [], 10001, .unspec, []⟩ (-1) false) = true := by
    rw [EndpointI.lt]
    decide
  have hless : endpointsLess [⟨2, .tcp ⟨1, [], 10000, .unspec, []⟩ (-1) false⟩]
      [⟨1, .tcp ⟨1, [], 10001, .unspec, []⟩ (-1) false⟩] = true := by
    simp [endpointsLess, listLess, chain, hports]
  have hcrosses : Tied Routing.Crosses (proxyAt 2 10000 60) (proxyAt 1 10001 30) :=
    ⟨rfl, rfl, rfl, rfl, hless, by decide, by decide⟩
  obtain ⟨hlt, hgt⟩ := hcrosses.bothLess (proxyAt_serves 2 10000 60) (proxyAt_serves 1 10001 30)
  rw [(h tcpFactory _ hserves .cpp11).order.asymm _ (.inl rfl) _ (.inr rfl) hlt] at hgt
  cases hgt

theorem not_mismatched_proxyAt (address address' : Nat) (port port' timeout timeout' : Int) :
    ¬Tied Routing.Mismatched (proxyAt address port timeout) (proxyAt address' port' timeout') := by
  rintro ⟨-, -, -, -, p, q, hpq, -, hform⟩
  obtain ⟨hp, hq⟩ := hpq.mem
  rw [List.mem_singleton] at hp hq
  rw [hp, hq] at hform
  exact hform rfl

/-- Without different timeouts, such proxies are in order. -/
theorem ordered_proxies : Ordered .cpp11 {proxyAt 2 10000 60, proxyAt 1 10001 60} := by
  have hserves : ∀ r ∈ ({proxyAt 2 10000 60, proxyAt 1 10001 60} : Set Reference),
      tcpFactory.Serves r := by
    intro r hr
    rcases hr with rfl | rfl
    · exact proxyAt_serves ..
    · exact proxyAt_serves ..
  have hself : ∀ l ∈ ({proxyAt 2 10000 60, proxyAt 1 10001 60} : Set Reference),
      ∀ r ∈ ({proxyAt 2 10000 60, proxyAt 1 10001 60} : Set Reference), ∀ x y,
      l.Compares r x y → x = l ∧ y = r := by
    intro l hl r hr x y hxy
    rcases hl with rfl | rfl <;> rcases hr with rfl | rfl <;> cases hxy <;> exact ⟨rfl, rfl⟩
  apply (ordered_of_clear hserves .cpp11).1
  constructor
  · intro l hl r hr x y hxy
    obtain ⟨rfl, rfl⟩ := hself l hl r hr x y hxy
    rcases hl with rfl | rfl <;> rcases hr with rfl | rfl <;> apply not_mismatched_proxyAt
  · right
    intro l hl r hr x y hxy htied
    obtain ⟨rfl, rfl⟩ := hself l hl r hr x y hxy
    have htimeouts : (60 : Int) < 60 := by
      rcases hl with rfl | rfl <;> rcases hr with rfl | rfl <;>
        obtain ⟨-, -, -, -, ⟨-, -, h⟩ | ⟨-, -, h⟩⟩ := htied <;> exact h
    exact absurd htimeouts (lt_irrefl _)

end Ice.References
