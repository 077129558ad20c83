import Ice.Glacier2.Filter
import Ice.Glacier2.ListReading
import Mathlib.Data.Prod.Lex

/-!
# The requests that a router forwards

The filters are filled from properties and changed by their clients; a request is forwarded unless
the filters that apply reject it. The sequence that the categories were read into is used again for
the adapter ids, so that each category is let through as an adapter id as well.
-/

namespace Ice.Glacier2

open References
open FilterT (elements_ofSeq empty_iff isMatch_iff ofSeq)

instance linearOrderByte : LinearOrder UInt8 where
  le_refl _ := UInt8.le_refl _
  le_trans _ _ _ := UInt8.le_trans
  lt_iff_le_not_ge a b := by
    rw [UInt8.lt_iff_toNat_lt, UInt8.le_iff_toNat_le, UInt8.le_iff_toNat_le]
    omega
  le_antisymm _ _ := UInt8.le_antisymm
  le_total := UInt8.le_total
  toDecidableLE := inferInstance

/-- Identities are compared by their names and then by their categories. -/
instance : LinearOrder Identity :=
  LinearOrder.lift' (fun id => toLex (id.name, id.category)) fun a b h => by
    cases a
    cases b
    simpa using h

structure FilterManager where
  categories : FilterT Str
  adapterIds : FilterT Str
  identities : FilterT Identity

/-- The properties under `Glacier2.Filter.`; `categoryAcceptUser` is none if it is empty. -/
structure Properties where
  categoryAccept : Str
  categoryAcceptUser : Option Int
  adapterIdAccept : Str
  identityAccept : Str

/-- What is added to the accepted categories for a user: the user id, or `_` and the user id -/
def userEntry (props : Properties) (userId : Str) (allowAddUser : Bool) : List Str :=
  if allowAddUser then
    let addUserMode := props.categoryAcceptUser.getD 0
    if 0 < addUserMode ∧ userId ≠ [] then
      if addUserMode = 1 then [userId] else if addUserMode = 2 then [95 :: userId] else []
    else []
  else []

/-- `FilterManager::create`; `none` where `stringToIdentity` throws. -/
def FilterManager.create (stringToIdentity : Str → Option Identity) (props : Properties)
    (userId : Str) (allowAddUser : Bool) : Option FilterManager :=
  let allowSeq := stringToSeq props.categoryAccept []
  let allowSeq := allowSeq ++ userEntry props userId allowAddUser
  let categoryFilter := ofSeq allowSeq
  let allowSeq := stringToSeq props.adapterIdAccept allowSeq
  let adapterIdFilter := ofSeq allowSeq
  match stringToIdentities stringToIdentity props.identityAccept [] with
  | none => none
  | some allowIdSeq => some ⟨categoryFilter, adapterIdFilter, ofSeq allowIdSeq⟩

/-- A call on a set -/
inductive Edit (T : Type)
  | add (additions : List T)
  | remove (deletions : List T)

/-- The elements that a call mentions -/
def Edit.words {T : Type} : Edit T → List T
  | .add additions => additions
  | .remove deletions => deletions

def Edit.apply {T : Type} [LinearOrder T] (f : FilterT T) : Edit T → FilterT T
  | .add additions => f.add additions
  | .remove deletions => f.remove deletions

/-- A call on one of the three sets -/
inductive Call
  | categories (e : Edit Str)
  | adapterIds (e : Edit Str)
  | identities (e : Edit Identity)

def FilterManager.call (m : FilterManager) : Call → FilterManager
  | .categories e => { m with categories := e.apply m.categories }
  | .adapterIds e => { m with adapterIds := e.apply m.adapterIds }
  | .identities e => { m with identities := e.apply m.identities }

def FilterManager.run (m : FilterManager) (calls : List Call) : FilterManager :=
  calls.foldl FilterManager.call m

/-- The variables of `ClientBlobject::ice_invoke_async` -/
structure Verdict where
  matched : Bool
  hasFilters : Bool
  rejectedFilters : String

/-- The test of one filter. A filter that rejects is noted for the trace. -/
def Verdict.consider (v : Verdict) (rejectTraceLevel : Int) (applies isMatch : Bool)
    (name : String) : Verdict :=
  if !applies then v
  else if isMatch then { v with hasFilters := true, matched := true }
  else if 1 ≤ rejectTraceLevel then
    { v with hasFilters := true
             rejectedFilters :=
              (if v.rejectedFilters ≠ "" then v.rejectedFilters ++ ", " else v.rejectedFilters) ++
                name }
  else { v with hasFilters := true }

/-- What becomes of a request -/
inductive Outcome
  | forwarded
  /-- `ObjectNotExistException` with an operation, and what is traced -/
  | objectNotExist (operation : String) (trace : Option String)
  deriving DecidableEq

/-- `ClientBlobject::ice_invoke_async`; the routing table has the adapter ids of its proxies. -/
def FilterManager.iceInvokeAsync (filters : FilterManager) (rejectTraceLevel : Int)
    (routingTable : Identity → Option Str) (id : Identity) : Outcome :=
  let v : Verdict := ⟨false, false, ""⟩
  let v := v.consider rejectTraceLevel (!filters.categories.empty)
    (filters.categories.isMatch id.category) "category filter"
  let v := v.consider rejectTraceLevel (!filters.identities.empty)
    (filters.identities.isMatch id) "identity filter"
  match routingTable id with
  | none => .objectNotExist "ice_add_proxy" none
  | some adapterId =>
    let v := v.consider rejectTraceLevel (adapterId ≠ [] && !filters.adapterIds.empty)
      (filters.adapterIds.isMatch adapterId) "adapter id filter"
    if v.hasFilters && !v.matched then
      .objectNotExist ""
        (if 1 ≤ rejectTraceLevel then some ("rejecting request: " ++ v.rejectedFilters) else none)
    else .forwarded

/-- A configuration, with the properties as lists -/
structure Config (stringToIdentity : Str → Option Identity) where
  categories : Setting Word
  acceptUser : Option Int
  adapterIds : Setting Word
  identities : Setting (IdentityWord stringToIdentity)
  userId : Str
  allowAddUser : Bool

variable {stringToIdentity : Str → Option Identity}

namespace Config

def props (c : Config stringToIdentity) : Properties :=
  ⟨c.categories.text Word.text, c.acceptUser, c.adapterIds.text Word.text,
    c.identities.text IdentityWord.text⟩

/-- The list of the categories, with the entry of the user -/
def categoryList (c : Config stringToIdentity) : List Str :=
  c.categories.values.map Word.value ++ userEntry c.props c.userId c.allowAddUser

def adapterIdList (c : Config stringToIdentity) : List Str := c.adapterIds.values.map Word.value

def identityList (c : Config stringToIdentity) : List Identity :=
  c.identities.values.map IdentityWord.value

end Config

def Edit.of {T : Type} (S : Set T) : Edit T → Set T
  | .add additions => S ∪ {x | x ∈ additions}
  | .remove deletions => S \ {x | x ∈ deletions}

/-- A set after additions and removals -/
def edited {T : Type} (S : Set T) (edits : List (Edit T)) : Set T := edits.foldl Edit.of S

def Call.category? : Call → Option (Edit Str)
  | .categories e => some e
  | _ => none

def Call.adapterId? : Call → Option (Edit Str)
  | .adapterIds e => some e
  | _ => none

def Call.identity? : Call → Option (Edit Identity)
  | .identities e => some e
  | _ => none

/-- The three sets that the rule is about -/
structure Accepted where
  categories : Set Str
  adapterIds : Set Str
  identities : Set Identity

/-- Each set is the list of its property after the additions and removals. -/
def Config.accepted (c : Config stringToIdentity) (calls : List Call) : Accepted where
  categories := edited {x | x ∈ c.categoryList} (calls.filterMap Call.category?)
  adapterIds := edited {x | x ∈ c.adapterIdList} (calls.filterMap Call.adapterId?)
  identities := edited {x | x ∈ c.identityList} (calls.filterMap Call.identity?)

/-- No set that applies has elements, or one that applies has the element in question. -/
def Accepted.Lets (s : Accepted) (id : Identity) (adapterId : Str) : Prop :=
  (s.categories = ∅ ∧ s.identities = ∅ ∧ (adapterId ≠ [] → s.adapterIds = ∅)) ∨
    id.category ∈ s.categories ∨ id ∈ s.identities ∨ (adapterId ≠ [] ∧ adapterId ∈ s.adapterIds)

/-- The elements of the filters -/
def FilterManager.accepted (m : FilterManager) : Accepted :=
  ⟨m.categories.elements, m.adapterIds.elements, m.identities.elements⟩

theorem Verdict.consider_hasFilters (v : Verdict) (level : Int) (applies isMatch : Bool)
    (name : String) :
    (v.consider level applies isMatch name).hasFilters = (v.hasFilters || applies) := by
  unfold Verdict.consider
  cases applies <;> cases isMatch <;> simp
  split <;> rfl

theorem Verdict.consider_matched (v : Verdict) (level : Int) (applies isMatch : Bool)
    (name : String) :
    (v.consider level applies isMatch name).matched = (v.matched || (applies && isMatch)) := by
  unfold Verdict.consider
  cases applies <;> cases isMatch <;> simp
  split <;> rfl

theorem isMatch_of_nonempty {T : Type} [LinearOrder T] (f : FilterT T) (x : T) :
    (!f.empty && f.isMatch x) = true ↔ x ∈ f.elements := by
  rw [Bool.and_eq_true, Bool.not_eq_true', ← Bool.not_eq_true, empty_iff]
  constructor
  · intro h
    exact (isMatch_iff h.1).mp h.2
  · intro h
    have hne : f.elements ≠ ∅ := Set.nonempty_iff_ne_empty.mp ⟨x, h⟩
    exact ⟨hne, (isMatch_iff hne).mpr h⟩

/-- The request is forwarded exactly if the elements of the filters let it through. -/
theorem FilterManager.forwarded_iff (m : FilterManager) (level : Int)
    {routingTable : Identity → Option Str} {id : Identity} {adapterId : Str}
    (h : routingTable id = some adapterId) :
    m.iceInvokeAsync level routingTable id = .forwarded ↔ m.accepted.Lets id adapterId := by
  have hcategory := isMatch_of_nonempty m.categories id.category
  have hidentity := isMatch_of_nonempty m.identities id
  have hadapterId := isMatch_of_nonempty m.adapterIds adapterId
  have hempty := @empty_iff Str _ m.categories
  have hempty' := @empty_iff Identity _ m.identities
  have hempty'' := @empty_iff Str _ m.adapterIds
  unfold iceInvokeAsync Accepted.Lets accepted
  rw [h]
  simp only [Verdict.consider_hasFilters, Verdict.consider_matched, Bool.false_or, ← hcategory,
    ← hidentity, ← hadapterId, ← hempty, ← hempty', ← hempty'']
  grind

theorem elements_apply {T : Type} [LinearOrder T] (f : FilterT T) (e : Edit T) :
    (e.apply f).elements = e.of f.elements := by
  cases e with
  | add additions => exact FilterT.elements_add additions
  | remove deletions => exact FilterT.elements_remove deletions

/-- The calls do to the elements of the filters what they say. -/
theorem FilterManager.accepted_run (m : FilterManager) (calls : List Call) :
    (m.run calls).accepted =
      ⟨edited m.accepted.categories (calls.filterMap Call.category?),
        edited m.accepted.adapterIds (calls.filterMap Call.adapterId?),
        edited m.accepted.identities (calls.filterMap Call.identity?)⟩ := by
  induction calls generalizing m with
  | nil => rfl
  | cons c calls ih =>
    have hrun : m.run (c :: calls) = (m.call c).run calls := rfl
    rw [hrun, ih]
    cases c <;>
      simp [call, accepted, edited, elements_apply, List.filterMap_cons, Call.category?,
        Call.adapterId?, Call.identity?]

section

variable {T : Type} {S S' : Set T} {edits : List (Edit T)} {x : T}

theorem Edit.mem_of {e : Edit T} (h : x ∉ e.words) : x ∈ e.of S ↔ x ∈ S := by
  cases e with
  | add additions =>
    have hx : x ∉ additions := h
    simp [Edit.of, hx]
  | remove deletions =>
    have hx : x ∉ deletions := h
    simp [Edit.of, hx]

/-- An element that no edit mentions stays in or out. -/
theorem mem_edited (h : ∀ e ∈ edits, x ∉ e.words) : x ∈ edited S edits ↔ x ∈ S := by
  induction edits generalizing S with
  | nil => rfl
  | cons e edits ih =>
    rw [List.forall_mem_cons] at h
    exact (ih h.2).trans (Edit.mem_of h.1)

/-- An element that an edit mentions is in or out whatever the set was. -/
theorem mem_edited_congr (h : ∃ e ∈ edits, x ∈ e.words) :
    x ∈ edited S edits ↔ x ∈ edited S' edits := by
  induction edits generalizing S S' with
  | nil =>
    obtain ⟨e, he, _⟩ := h
    cases he
  | cons e edits ih =>
    by_cases hlater : ∃ e ∈ edits, x ∈ e.words
    · exact ih hlater
    · -- the last edit that mentions the element
      have hx : x ∈ e.words := by
        obtain ⟨e', he', hx⟩ := h
        rcases List.mem_cons.mp he' with rfl | he'
        · exact hx
        · exact absurd ⟨e', he', hx⟩ hlater
      have hnone : ∀ e ∈ edits, x ∉ e.words := fun e he hx => hlater ⟨e, he, hx⟩
      have hedit : x ∈ e.of S ↔ x ∈ e.of S' := by
        cases e with
        | add additions => exact ⟨fun _ => .inr hx, fun _ => .inr hx⟩
        | remove deletions => exact ⟨fun hS => absurd hx hS.2, fun hS => absurd hx hS.2⟩
      exact (mem_edited hnone).trans (hedit.trans (mem_edited hnone).symm)

/-- Elements in excess do no harm exactly if an edit mentions them. -/
theorem edited_union_eq_iff (S R : Set T) (edits : List (Edit T)) :
    edited (R ∪ S) edits = edited S edits ↔ ∀ x ∈ R, x ∈ S ∨ ∃ e ∈ edits, x ∈ e.words := by
  constructor
  · intro h x hx
    by_cases hmentioned : ∃ e ∈ edits, x ∈ e.words
    · exact .inr hmentioned
    · have hnone : ∀ e ∈ edits, x ∉ e.words := fun e he hx => hmentioned ⟨e, he, hx⟩
      left
      rw [← mem_edited hnone, ← h, mem_edited hnone]
      exact .inl hx
  · intro h
    ext x
    by_cases hmentioned : ∃ e ∈ edits, x ∈ e.words
    · exact mem_edited_congr hmentioned
    · have hnone : ∀ e ∈ edits, x ∉ e.words := fun e he hx => hmentioned ⟨e, he, hx⟩
      rw [mem_edited hnone, mem_edited hnone, Set.mem_union, or_iff_right_of_imp]
      intro hx
      exact (h x hx).resolve_right hmentioned

end

variable (c : Config stringToIdentity)

/-- The filters that the code makes of a configuration -/
theorem Config.create_eq :
    FilterManager.create stringToIdentity c.props c.userId c.allowAddUser =
      some ⟨.ofSeq c.categoryList, .ofSeq (c.categoryList ++ c.adapterIdList),
        .ofSeq c.identityList⟩ := by
  have hcategories : stringToSeq c.props.categoryAccept [] = c.categories.values.map Word.value :=
    stringToSeq_text c.categories []
  have hadapterIds : ∀ seq, stringToSeq c.props.adapterIdAccept seq = seq ++ c.adapterIdList :=
    stringToSeq_text c.adapterIds
  have hidentities : stringToIdentities stringToIdentity c.props.identityAccept [] =
      some c.identityList := stringToIdentities_text c.identities []
  rw [FilterManager.create, hidentities, hcategories, hadapterIds]
  rfl

/-- After the calls, the filters have the elements that are configured, and the requests that these
let through are forwarded. -/
def Config.Filters (c : Config stringToIdentity) (calls : List Call) : Prop :=
  ∃ m, FilterManager.create stringToIdentity c.props c.userId c.allowAddUser = some m ∧
    (m.run calls).accepted = c.accepted calls ∧
    ∀ (level : Int) (routingTable : Identity → Option Str) (id : Identity) (adapterId : Str),
      routingTable id = some adapterId →
      ((m.run calls).iceInvokeAsync level routingTable id = .forwarded ↔
        (c.accepted calls).Lets id adapterId)

theorem Call.mentions_iff (calls : List Call) (x : Str) :
    (∃ e ∈ calls.filterMap Call.adapterId?, x ∈ e.words) ↔
      ∃ e, Call.adapterIds e ∈ calls ∧ x ∈ e.words := by
  have hcall : ∀ (c : Call) e, c.adapterId? = some e ↔ c = .adapterIds e := by
    intro c e
    cases c <;> simp [Call.adapterId?]
  simp only [List.mem_filterMap, hcall]
  constructor
  · rintro ⟨e, ⟨_, he, rfl⟩, hx⟩
    exact ⟨e, he, hx⟩
  · rintro ⟨e, he, hx⟩
    exact ⟨e, ⟨_, he, rfl⟩, hx⟩

/-- The set of adapter ids is as configured exactly if the categories do no harm. -/
theorem Config.adapterIds_iff (calls : List Call) :
    edited (ofSeq (c.categoryList ++ c.adapterIdList)).elements
        (calls.filterMap Call.adapterId?) = (c.accepted calls).adapterIds ↔
      ∀ x ∈ c.categoryList, x ∈ c.adapterIdList ∨
        ∃ e, Call.adapterIds e ∈ calls ∧ x ∈ e.words := by
  have helements : {x | x ∈ c.categoryList ++ c.adapterIdList} =
      {x | x ∈ c.categoryList} ∪ {x | x ∈ c.adapterIdList} := by
    ext x
    exact List.mem_append
  rw [elements_ofSeq, helements, Config.accepted, edited_union_eq_iff]
  simp only [Set.mem_ofPred_eq, Call.mentions_iff]

theorem Config.Filters.shared {c : Config stringToIdentity} {calls : List Call}
    (h : c.Filters calls) : ∀ x ∈ c.categoryList, x ∈ c.adapterIdList ∨
      ∃ e, Call.adapterIds e ∈ calls ∧ x ∈ e.words := by
  obtain ⟨m, hm, haccepted, _⟩ := h
  rw [c.create_eq, Option.some.injEq] at hm
  rw [← hm, FilterManager.accepted_run] at haccepted
  exact (c.adapterIds_iff calls).mp (congrArg Accepted.adapterIds haccepted)

/-- The filters are as configured exactly if each accepted category is an accepted adapter id too,
or was mentioned by a call on the set of adapter ids. -/
theorem filters_iff (c : Config stringToIdentity) (calls : List Call) :
    c.Filters calls ↔ ∀ x ∈ c.categoryList, x ∈ c.adapterIdList ∨
      ∃ e, Call.adapterIds e ∈ calls ∧ x ∈ e.words := by
  constructor
  · exact Config.Filters.shared
  · intro h
    have hadapterIds := (c.adapterIds_iff calls).mpr h
    obtain ⟨m, hm⟩ : ∃ m, m = FilterManager.mk (.ofSeq c.categoryList)
        (.ofSeq (c.categoryList ++ c.adapterIdList)) (.ofSeq c.identityList) := ⟨_, rfl⟩
    have haccepted : (m.run calls).accepted = c.accepted calls := by
      have hcategories := elements_ofSeq c.categoryList
      have hidentities := elements_ofSeq c.identityList
      rw [FilterManager.accepted_run, hm]
      dsimp only [FilterManager.accepted]
      rw [hcategories, hadapterIds, hidentities]
      rfl
    refine ⟨m, hm ▸ c.create_eq, haccepted, ?_⟩
    intro level routingTable id adapterId hid
    rw [FilterManager.forwarded_iff _ level hid, haccepted]

/-- An unquoted word of one character -/
def letter (c : UInt8) (hblank : isBlank c = false) : Word where
  quote := none
  value := [c]
  nonempty := List.cons_ne_nil c []
  isQuote := by simp
  unquoted := by simpa using hblank
  quoted := by simp

/-- A property of one word -/
def Setting.one {α : Type} (a : α) : Setting α := ⟨[([], a)], [], by simp, by simp, by simp⟩

/-- The category `a` and the adapter id `b` are accepted. -/
def categoryAndAdapterId : Config fun str => some ⟨str, []⟩ where
  categories := .one (letter 97 rfl)
  acceptUser := none
  adapterIds := .one (letter 98 rfl)
  identities := ⟨[], [], by simp, by simp, by simp⟩
  userId := []
  allowAddUser := true

/-- The adapter id `a` is let through. -/
theorem not_filters : ¬∀ (stringToIdentity : Str → Option Identity)
    (c : Config stringToIdentity) (calls : List Call), c.Filters calls := by
  intro h
  have hshared := (h _ categoryAndAdapterId []).shared [97] (by decide)
  rcases hshared with hlist | ⟨e, he, _⟩
  · exact absurd hlist (by decide)
  · cases he

end Ice.Glacier2
