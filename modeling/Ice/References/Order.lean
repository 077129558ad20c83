import Ice.References.EndpointOrder

/-!
# The order of references

In C++98 the comparison of references is ranked, so it is a strict weak order, unless it comes to
two endpoints of one type, of which one is opaque. In C++11 the test whether the endpoints of the
other operand are less looks at addresses; no comparison may run into this test and into different
timeouts behind it.
-/

namespace Ice.References

open Lib

theorem ranked_pair (l r : Str × Str) :
    Ranked pairLess (fun l r => decide (l = r)) (fun p s => Rankable.rank p.1 (Rankable.rank p.2 s))
      l r := by
  have hat : ∀ l r : Str × Str, RanksAt (pairLess l r) (decide (l = r))
      (fun s => Rankable.rank l.1 (Rankable.rank l.2 s))
      (fun s => Rankable.rank r.1 (Rankable.rank r.2 s)) := by
    intro l r
    apply (ranksAt_chainOf l.1 r.1 fun _ => (Rankable.ranked l.2 r.2).at_left).congr rfl
    simp [Prod.ext_iff]
  exact ⟨hat l r, hat r l⟩

section

variable {β : Type} [LT β] [DecidableLT β] [DecidableEq β] [Rankable β]

/-- The rank of a flag and of a value that counts only if the flag is set -/
def rankOverride (o : Option β) (s : List Int) : List Int :=
  Rankable.rank o.isSome <|
    match o with
    | some a => Rankable.rank a s
    | none => s

theorem ranksAt_chainOverride {less equal : Bool} {ra rb : List Int → List Int} (l r : Option β)
    (h : l = r → RanksAt less equal ra rb) :
    RanksAt (chainOverride l r less) (decide (l = r) && equal) (fun s => rankOverride l (ra s))
      (fun s => rankOverride r (rb s)) := by
  cases l with
  | none =>
    cases r with
    | none =>
      apply (ranksAt_chainOf false false fun _ => h rfl).congr rfl
      simp
    | some b =>
      have hrest : false = true → RanksAt less equal ra fun s => Rankable.rank b (rb s) :=
        fun hflags => by cases hflags
      apply (ranksAt_chainOf false true hrest).congr rfl
      simp
  | some a =>
    cases r with
    | none =>
      have hrest : true = false → RanksAt less equal (fun s => Rankable.rank a (ra s)) rb :=
        fun hflags => by cases hflags
      apply (ranksAt_chainOf true false hrest).congr rfl
      simp
    | some b =>
      have hvalue := ranksAt_chainOf a b fun hab => h (congrArg some hab)
      apply (ranksAt_chainOf true true fun _ => hvalue).congr rfl
      simp

end

/-- The rank of the members of class `Reference` -/
def Base.rank (b : Base) (s : List Int) : List Int :=
  Rankable.rank b.mode.toNat <| Rankable.rank b.identity.name <|
    Rankable.rank b.identity.category <|
    rankList (fun p s => Rankable.rank p.1 (Rankable.rank p.2 s)) b.context <|
    Rankable.rank b.facet <| rankOverride b.overrideCompress <| Rankable.rank b.secure <|
    Rankable.rank b.protocol.major <| Rankable.rank b.protocol.minor <|
    Rankable.rank b.encoding.major <| Rankable.rank b.encoding.minor <|
    Rankable.rank b.invocationTimeout s

theorem Mode.toNat_inj {l r : Mode} : l.toNat = r.toNat ↔ l = r := by
  cases l <;> cases r <;> decide

theorem ranked_base (l r : Base) : Ranked Base.lt Base.eq Base.rank l r := by
  have hat : ∀ l r : Base, RanksAt (l.lt r) (l.eq r) l.rank r.rank := by
    intro l r
    have hcontext := @ranked_list _ _ _ _ l.context r.context (fun p q _ => ranked_pair p q)
      fun p q _ => ranked_pair p q
    have hranks := ranksAt_chainOf l.mode.toNat r.mode.toNat fun _ =>
      ranksAt_chainOf l.identity.name r.identity.name fun _ =>
      ranksAt_chainOf l.identity.category r.identity.category fun _ =>
      hcontext.chain fun _ => ranksAt_chainOf l.facet r.facet fun _ =>
      ranksAt_chainOverride l.overrideCompress r.overrideCompress fun _ =>
      ranksAt_chainOf l.secure r.secure fun _ =>
      ranksAt_chainOf l.protocol.major r.protocol.major fun _ =>
      ranksAt_chainOf l.protocol.minor r.protocol.minor fun _ =>
      ranksAt_chainOf l.encoding.major r.encoding.major fun _ =>
      ranksAt_chainOf l.encoding.minor r.encoding.minor fun _ =>
      ranksAt_chainOf l.invocationTimeout r.invocationTimeout fun _ => RanksAt.nil
    apply hranks.congr rfl
    rw [listEqual_eq, Bool.eq_iff_iff]
    obtain ⟨⟩ := l
    obtain ⟨⟩ := r
    simp only [Base.eq, Bool.and_eq_true, decide_eq_true_eq, Mode.toNat_inj, Bool.and_true]
    grind [Identity, Version]
  exact ⟨hat l r, hat r l⟩

/-- The rank of the members of a routable reference that are compared before its router -/
def Routing.rankBefore (r : Routing) (s : List Int) : List Int :=
  Rankable.rank r.preferSecure <| Rankable.rank r.collocationOptimized <|
    Rankable.rank r.cacheConnection <| Rankable.rank r.endpointSelection.toNat <|
    Rankable.rank r.connectionId <| rankOverride r.overrideTimeout s

/-- Those that are compared after its locator -/
def Routing.rankAfter (r : Routing) (s : List Int) : List Int :=
  Rankable.rank r.adapterId <|
    rankList (fun p => p.target.rank) r.endpoints <| Rankable.rank r.locatorCacheTimeout s

theorem EndpointSelectionType.toNat_inj {l r : EndpointSelectionType} :
    l.toNat = r.toNat ↔ l = r := by
  cases l <;> cases r <;> decide

theorem Base.eq_iff {l r : Base} : l.eq r = true ↔ l = r := by
  obtain ⟨⟩ := l
  obtain ⟨⟩ := r
  simp only [Base.eq, Bool.and_eq_true, decide_eq_true_eq]
  grind

/-- The endpoints of a routable reference are made by the factories. -/
def Factories.MakesAll (f : Factories) (r : Routing) : Prop :=
  ∀ p ∈ r.endpoints, f.Makes p.target

namespace Routing

/-- The comparison of the endpoints comes to two that are mismatched. -/
def Mismatched (l r : Routing) : Prop :=
  ∃ p q, Reached (fun p q => p.target.eq q.target) l.endpoints r.endpoints p q ∧
    p.target.Mismatched q.target

/-- The members that are compared before the router -/
def before (r : Routing) : Routing :=
  { r with endpoints := [], adapterId := [], locatorCacheTimeout := 0 }

/-- The members that are compared before the endpoints -/
def others (r : Routing) : Routing := { r with endpoints := [], locatorCacheTimeout := 0 }

theorem others_eq_iff {l r : Routing} :
    l.others = r.others ↔ l.before = r.before ∧ l.adapterId = r.adapterId := by
  simp only [others, before, mk.injEq]
  grind

theorem not_mismatched_self (r : Routing) : ¬r.Mismatched r := by
  rintro ⟨p, q, hpq, -, hform⟩
  rw [hpq.eq_of_self] at hform
  exact hform rfl

end Routing

theorem ranked_endpoints {f : Factories} {l r : Routing} (hl : f.MakesAll l) (hr : f.MakesAll r)
    (h : ¬l.Mismatched r) (h' : ¬r.Mismatched l) :
    Ranked endpointsLess (listEqual fun p q => p.target.eq q.target)
      (rankList fun p => p.target.rank) l.endpoints r.endpoints := by
  have hreached : ∀ {l r : Routing}, f.MakesAll l → f.MakesAll r → ¬l.Mismatched r → ∀ p q,
      Reached (fun p q => p.target.eq q.target) l.endpoints r.endpoints p q →
      Ranked (fun p q => p.target.lt q.target) (fun p q => p.target.eq q.target)
        (fun p => p.target.rank) p q := by
    intro l r hl hr h p q hpq
    have hranked := EndpointI.ranked_makes (hl p hpq.mem.1) (hr q hpq.mem.2)
      fun hmismatched => h ⟨p, q, hpq, hmismatched⟩
    exact ⟨hranked.at_left, hranked.at_right⟩
  exact ranked_list (hreached hl hr h) (hreached hr hl h')

mutual

/-- The rank of a reference -/
def Reference.rank : Reference → List Int → List Int
  | .fixed base connection, s => base.rank (1 :: Rankable.rank connection s)
  | .routable base routing router locator, s =>
    base.rank <| 0 :: routing.rankBefore (infoRank router (infoRank locator (routing.rankAfter s)))

/-- The rank of a router or a locator -/
def Reference.infoRank : Option Reference → List Int → List Int
  | none, s => 0 :: s
  | some r, s => 1 :: Reference.rank r s

end

/-- The endpoints of a reference, and those of its router and its locator, are made by the
factories or opaque. -/
inductive Factories.Serves (f : Factories) : Reference → Prop
  | fixed (base : Base) (connection : Nat) : f.Serves (.fixed base connection)
  | routable {base : Base} {routing : Routing} {router locator : Option Reference}
      (makes : f.MakesAll routing) (ofRouter : ∀ r ∈ router, f.Serves r)
      (ofLocator : ∀ r ∈ locator, f.Serves r) : f.Serves (.routable base routing router locator)

namespace Reference

/-- The comparisons that the comparison of two references comes to -/
inductive Compares : Reference → Reference → Reference → Reference → Prop
  | self (l r : Reference) : Compares l r l r
  | router {base : Base} {routing routing' : Routing} {l r x y : Reference}
      {locator locator' : Option Reference} (h : routing.before = routing'.before)
      (hxy : Compares l r x y) :
      Compares (.routable base routing (some l) locator) (.routable base routing' (some r) locator')
        x y
  | locator {base : Base} {routing routing' : Routing} {l r x y : Reference}
      {router router' : Option Reference} (h : routing.before = routing'.before)
      (hrouter : infoEq router router' = true) (hxy : Compares l r x y) :
      Compares (.routable base routing router (some l)) (.routable base routing' router' (some r))
        x y

/-- Routable references whose comparison comes to the endpoints, and what holds of these and of
the timeouts behind them -/
def Tied (p : Routing → Routing → Prop) : Reference → Reference → Prop
  | .routable base routing router locator, .routable base' routing' router' locator' =>
    base = base' ∧ routing.others = routing'.others ∧ infoEq router router' = true ∧
      infoEq locator locator' = true ∧ p routing routing'
  | _, _ => False

/-- The comparison of two references comes to none of which that holds. -/
def Clear (p : Routing → Routing → Prop) (l r : Reference) : Prop :=
  ∀ x y, Compares l r x y → ¬Tied p x y

section

variable {p : Routing → Routing → Prop} {base : Base} {routing routing' : Routing} {l r : Reference}

theorem Clear.router {locator locator' : Option Reference}
    (h : Clear p (.routable base routing (some l) locator)
      (.routable base routing' (some r) locator'))
    (hbefore : routing.before = routing'.before) : Clear p l r :=
  fun x y hxy => h x y (.router hbefore hxy)

theorem Clear.locator {router router' : Option Reference}
    (h : Clear p (.routable base routing router (some l))
      (.routable base routing' router' (some r)))
    (hbefore : routing.before = routing'.before) (hrouter : infoEq router router' = true) :
    Clear p l r :=
  fun x y hxy => h x y (.locator hbefore hrouter hxy)

end

theorem infoLt_eq (m : Mapping) : infoLt m = handleLess (lt m) := by
  funext l r
  cases l <;> cases r <;> simp only [infoLt, handleLess]

theorem infoEq_eq : infoEq = handleEqual eq := by
  funext l r
  cases l <;> cases r <;> simp only [infoEq, handleEqual]

theorem infoRank_eq : infoRank = rankHandle rank := by
  funext o s
  cases o <;> simp only [infoRank, rankHandle]

section

variable {f : Factories} {base base' : Base} {routing routing' : Routing}
  {router router' locator locator' : Option Reference}

/-- The tests of the members after those of the router and the locator -/
theorem ranksAt_after (hl : f.MakesAll routing) (hr : f.MakesAll routing')
    (h : routing.adapterId = routing'.adapterId →
      ¬routing.Mismatched routing' ∧ ¬routing'.Mismatched routing) :
    RanksAt (routing.chainAfter .cpp98 routing')
      (routing.adapterId = routing'.adapterId &&
        (listEqual (fun p q => p.target.eq q.target) routing.endpoints routing'.endpoints &&
          (routing.locatorCacheTimeout = routing'.locatorCacheTimeout && true)))
      routing.rankAfter routing'.rankAfter :=
  ranksAt_chainOf _ _ fun hid => (ranked_endpoints hl hr (h hid).1 (h hid).2).chain fun _ =>
    ranksAt_chainOf _ _ fun _ => RanksAt.nil

theorem ranksAt_before (routing routing' : Routing) {less equal : Bool}
    {ra rb : List Int → List Int}
    (h : routing.before = routing'.before → RanksAt less equal ra rb) :
    RanksAt (routing.chainBefore routing' less)
      (routing.preferSecure = routing'.preferSecure &&
        (routing.collocationOptimized = routing'.collocationOptimized &&
        (routing.cacheConnection = routing'.cacheConnection &&
        (routing.endpointSelection.toNat = routing'.endpointSelection.toNat &&
        (routing.connectionId = routing'.connectionId &&
        (routing.overrideTimeout = routing'.overrideTimeout && equal))))))
      (fun s => routing.rankBefore (ra s)) (fun s => routing'.rankBefore (rb s)) := by
  refine ranksAt_chainOf _ _ fun hsecure => ranksAt_chainOf _ _ fun hcollocation =>
    ranksAt_chainOf _ _ fun hcache => ranksAt_chainOf _ _ fun hselection =>
    ranksAt_chainOf _ _ fun hid => ranksAt_chainOverride _ _ fun hoverride => h ?_
  rw [Routing.before, Routing.before, hsecure, hcollocation, hcache,
    EndpointSelectionType.toNat_inj.mp hselection, hid, hoverride]

/-- What is compared later is ranked if the comparison comes to it. -/
theorem ranksAt_routable (hl : f.MakesAll routing) (hr : f.MakesAll routing')
    (hrouter : base = base' → routing.before = routing'.before →
      Ranked (infoLt .cpp98) infoEq infoRank router router')
    (hlocator : base = base' → routing.before = routing'.before → infoEq router router' = true →
      Ranked (infoLt .cpp98) infoEq infoRank locator locator')
    (hendpoints : base = base' → routing.others = routing'.others →
      infoEq router router' = true → infoEq locator locator' = true →
      ¬routing.Mismatched routing' ∧ ¬routing'.Mismatched routing) :
    RanksAt (lt .cpp98 (.routable base routing router locator)
        (.routable base' routing' router' locator'))
      (eq (.routable base routing router locator) (.routable base' routing' router' locator'))
      (rank (.routable base routing router locator))
      (rank (.routable base' routing' router' locator')) := by
  have hranks := (ranked_base base base').chain fun hbase => ranksAt_chainOf (0 : Int) 0 fun _ =>
    ranksAt_before routing routing' fun hbefore =>
    (hrouter (Base.eq_iff.mp hbase) hbefore).chain fun hrouters =>
    (hlocator (Base.eq_iff.mp hbase) hbefore hrouters).chain fun hlocators =>
    ranksAt_after hl hr fun hid => hendpoints (Base.eq_iff.mp hbase)
      (Routing.others_eq_iff.mpr ⟨hbefore, hid⟩) hrouters hlocators
  apply hranks.congr
  · rw [lt, (ranked_base base base').chain_test]
    rfl
  · simp only [eq, Routing.eq, EndpointSelectionType.toNat_inj, Bool.and_true, decide_true,
      Bool.true_and]
    ac_rfl

theorem ranksAt_fixed (connection connection' : Nat) :
    RanksAt (lt .cpp98 (.fixed base connection) (.fixed base' connection'))
      (eq (.fixed base connection) (.fixed base' connection'))
      (rank (.fixed base connection)) (rank (.fixed base' connection')) := by
  have hclass := ranksAt_chainOf (1 : Int) 1 fun _ =>
    ranksAt_chainOf connection connection' fun _ => RanksAt.nil
  apply ((ranked_base base base').chain fun _ => hclass).congr
  · rw [lt, (ranked_base base base').chain_test]
    simp [chainOf, chain]
  · simp [eq]

/-- A routable reference is less than a fixed one. -/
theorem ranked_routable_fixed (connection : Nat) :
    Ranked (lt .cpp98) eq rank (.routable base routing router locator)
      (.fixed base' connection) := by
  have hless : (0 : Int) = 1 → RanksAt false true
      (fun s => routing.rankBefore (infoRank router (infoRank locator (routing.rankAfter s))))
      (Rankable.rank connection) := fun h => absurd h Int.zero_ne_one
  have hgreater : (1 : Int) = 0 → RanksAt false true (Rankable.rank connection)
      fun s => routing.rankBefore (infoRank router (infoRank locator (routing.rankAfter s))) :=
    fun h => absurd h Int.one_ne_zero
  constructor
  · have hclass := ranksAt_chainOf (0 : Int) 1 hless
    apply ((ranked_base base base').chain fun _ => hclass).congr
    · rw [lt, (ranked_base base base').chain_test]
      rfl
    · simp [eq]
  · have hclass := ranksAt_chainOf (1 : Int) 0 hgreater
    apply ((ranked_base base' base).chain fun _ => hclass).congr
    · rw [lt]
      simp [chainOf, chain]
    · simp [eq]

/-- In C++98, references are ranked whose endpoints are not mismatched. -/
theorem ranked_serves {l r : Reference} (hl : f.Serves l) (hr : f.Serves r)
    (h : Clear Routing.Mismatched l r) (h' : Clear Routing.Mismatched r l) :
    Ranked (lt .cpp98) eq rank l r := by
  induction hl generalizing r with
  | fixed base connection =>
    cases hr with
    | fixed base' connection' => exact ⟨ranksAt_fixed _ _, ranksAt_fixed _ _⟩
    | routable => exact (ranked_routable_fixed connection).symm
  | @routable base routing router locator hmakes _ _ hrouter hlocator =>
    cases hr with
    | fixed base' connection => exact ranked_routable_fixed connection
    | @routable base' routing' router' locator' hmakes' hrouter' hlocator' =>
      have hrouters : base = base' → routing.before = routing'.before →
          Ranked (infoLt .cpp98) infoEq infoRank router router' := by
        rintro rfl hbefore
        rw [infoLt_eq, infoEq_eq, infoRank_eq]
        apply ranked_handle
        intro x hx y hy
        cases hx
        cases hy
        exact hrouter _ rfl (hrouter' _ rfl) (h.router hbefore) (h'.router hbefore.symm)
      have hlocators : base = base' → routing.before = routing'.before →
          infoEq router router' = true →
          Ranked (infoLt .cpp98) infoEq infoRank locator locator' := by
        rintro rfl hbefore heq
        have heq' := (hrouters rfl hbefore).eq_symm heq
        rw [infoLt_eq, infoEq_eq, infoRank_eq]
        apply ranked_handle
        intro x hx y hy
        cases hx
        cases hy
        exact hlocator _ rfl (hlocator' _ rfl) (h.locator hbefore heq)
          (h'.locator hbefore.symm heq')
      have hendpoints : base = base' → routing.others = routing'.others →
          infoEq router router' = true → infoEq locator locator' = true →
          ¬routing.Mismatched routing' ∧ ¬routing'.Mismatched routing := by
        rintro rfl hothers hr hl
        obtain ⟨hbefore, -⟩ := Routing.others_eq_iff.mp hothers
        have hr' := (hrouters rfl hbefore).eq_symm hr
        have hl' := (hlocators rfl hbefore hr).eq_symm hl
        exact ⟨fun hm => h _ _ (.self ..) ⟨rfl, hothers, hr, hl, hm⟩,
          fun hm => h' _ _ (.self ..) ⟨rfl, hothers.symm, hr', hl', hm⟩⟩
      refine ⟨ranksAt_routable hmakes hmakes' hrouters hlocators hendpoints,
        ranksAt_routable hmakes' hmakes ?_ ?_ ?_⟩
      · intro hbase hbefore
        exact (hrouters hbase.symm hbefore.symm).symm
      · intro hbase hbefore hr
        have hr' := (hrouters hbase.symm hbefore.symm).symm.eq_symm hr
        exact (hlocators hbase.symm hbefore.symm hr').symm
      · intro hbase hothers hr hl
        obtain ⟨hbefore, -⟩ := Routing.others_eq_iff.mp hothers
        have hr' := (hrouters hbase.symm hbefore.symm).symm.eq_symm hr
        have hl' := (hlocators hbase.symm hbefore.symm hr').symm.eq_symm hl
        exact (hendpoints hbase.symm hothers.symm hr' hl').symm

end

end Reference

end Ice.References
