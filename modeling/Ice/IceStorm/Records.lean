import Std.Data.ExtTreeMap
import Mathlib.Data.String.Basic

/-!
# Identities, proxies and the records IceStorm keeps

The Slice structures of the persistent store: `Ice::Identity`,
`IceStorm::SubscriberRecord`, its key, and `IceStormElection::LogUpdate`. The key
order is the one `compareSubscriberRecordKey` gives the subscriber map: by topic,
then by subscriber, where identities compare by name and then by category. A proxy
keeps what the store looks at, its identity and invocation mode, and an opaque
rest that only equality sees.
-/

namespace Ice

/-- `Ice::Identity`. -/
structure Identity where
  name : String
  category : String
  deriving DecidableEq, Repr

/-- Slice structures compare member by member, in the order of their declaration. -/
instance : Ord Identity := ⟨compareLex (compareOn Identity.name) (compareOn Identity.category)⟩

instance : Std.TransOrd Identity :=
  inferInstanceAs (Std.TransCmp (compareLex (compareOn Identity.name)
    (compareOn Identity.category)))

instance : Std.LawfulEqOrd Identity where
  compare_self {a} := by
    change compareLex (compareOn Identity.name) (compareOn Identity.category) a a = .eq
    exact Std.ReflCmp.compare_self
  eq_of_compare {a b} h := by
    obtain ⟨hn, hc⟩ := Ordering.then_eq_eq.mp h
    have hname : a.name = b.name := Std.compare_eq_iff_eq.mp hn
    have hcategory : a.category = b.category := Std.compare_eq_iff_eq.mp hc
    cases a
    cases b
    simp_all

/-- The identity of a placeholder key. -/
def Identity.empty : Identity := ⟨"", ""⟩

/-- No identity comes before the empty one. -/
theorem Identity.not_lt_empty (id : Identity) : compare id .empty ≠ .lt := by
  intro h
  have hstring : ∀ s : String, compare s "" ≠ .lt := by
    intro s hs
    have hlt : s < "" := by
      by_contra hn
      change (if s < "" then Ordering.lt else _) = Ordering.lt at hs
      rw [if_neg hn] at hs
      split_ifs at hs
    exact absurd (String.lt_iff_toList_lt.mp hlt) (by simp)
  rcases Ordering.then_eq_lt.mp h with h | ⟨_, h⟩
  · exact hstring _ h
  · exact hstring _ h

/-- How a proxy invokes: `ice_isTwoway`, `ice_isOneway` and so on. -/
inductive InvocationMode
  | twoway | oneway | batchOneway | datagram | batchDatagram
  deriving DecidableEq, Repr

/-- A non-nil proxy. -/
structure ObjectPrx where
  identity : Identity
  mode : InvocationMode
  /-- Endpoints, facet and the other attributes. -/
  address : String
  /-- A proxy without a name is read and written as nil. -/
  named : identity.name ≠ ""
  deriving DecidableEq, Repr

/-- The proxy of the runs on fixed inputs. -/
def ObjectPrx.sample : ObjectPrx := ⟨⟨"s", ""⟩, .twoway, "", by decide⟩

end Ice

namespace Ice.IceStormElection

/-- A mark of the last update that a database has seen. -/
structure LogUpdate where
  generation : Int
  iteration : Int
  deriving DecidableEq, Repr

/-- `emptyLU`, and the value that the topic manager writes when it starts. -/
def emptyLU : LogUpdate := ⟨0, 0⟩

end Ice.IceStormElection

namespace Ice.IceStorm

/-- The QoS dictionary of a subscription. -/
abbrev QoS := List (String × String)

/-- `find` on the dictionary. -/
def QoS.find (qos : QoS) (key : String) : Option String := qos.lookup key

/-- The persistent record of a subscriber or of a link. -/
structure SubscriberRecord where
  topicName : String
  id : Identity
  link : Bool
  obj : Option ObjectPrx
  theQoS : QoS
  cost : Int
  theTopic : Option ObjectPrx
  deriving DecidableEq, Repr

/-- The value stored with a topic's placeholder key. -/
def SubscriberRecord.placeholder : SubscriberRecord where
  topicName := ""
  id := .empty
  link := false
  obj := none
  theQoS := []
  cost := 0
  theTopic := none

/-- The key of a subscriber record; an empty `id` marks a topic's placeholder. -/
structure SubscriberRecordKey where
  topic : Identity
  id : Identity
  deriving DecidableEq, Repr

/-- `compareSubscriberRecordKey`. -/
instance : Ord SubscriberRecordKey :=
  ⟨compareLex (compareOn SubscriberRecordKey.topic) (compareOn SubscriberRecordKey.id)⟩

instance : Std.TransOrd SubscriberRecordKey :=
  inferInstanceAs (Std.TransCmp (compareLex (compareOn SubscriberRecordKey.topic)
    (compareOn SubscriberRecordKey.id)))

instance : Std.LawfulEqOrd SubscriberRecordKey where
  compare_self {a} := by
    change compareLex (compareOn SubscriberRecordKey.topic) (compareOn SubscriberRecordKey.id) a a
      = .eq
    exact Std.ReflCmp.compare_self
  eq_of_compare {a b} h := by
    obtain ⟨ht, hi⟩ := Ordering.then_eq_eq.mp h
    have htopic : a.topic = b.topic := Std.compare_eq_iff_eq.mp ht
    have hid : a.id = b.id := Std.compare_eq_iff_eq.mp hi
    cases a
    cases b
    simp_all

namespace SubscriberRecordKey

/-- The placeholder key of a topic. -/
def placeholder (topic : Identity) : SubscriberRecordKey := ⟨topic, .empty⟩

theorem compare_eq_lt {k k' : SubscriberRecordKey} :
    compare k k' = .lt ↔ compare k.topic k'.topic = .lt ∨
      k.topic = k'.topic ∧ compare k.id k'.id = .lt := by
  refine Ordering.then_eq_lt.trans (or_congr Iff.rfl (and_congr ?_ Iff.rfl))
  exact Std.compare_eq_iff_eq

/-- The placeholder is the first key of its topic. -/
theorem not_lt_placeholder {k : SubscriberRecordKey} :
    compare k (placeholder k.topic) ≠ .lt := by
  intro h
  rcases compare_eq_lt.mp h with h | ⟨_, h⟩
  · exact absurd h (by simp [placeholder])
  · exact k.id.not_lt_empty h

end SubscriberRecordKey

end Ice.IceStorm
