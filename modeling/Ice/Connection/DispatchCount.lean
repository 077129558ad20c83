import Ice.Connection.ConnectionCalls
import Ice.Lib.Lists

/-!
# The dispatch count

`_dispatchCount` is the number of the requests and callbacks that were counted and are not
completed, as far as an `int` can hold it. So a count of 0 tells that nothing is being dispatched
only while fewer than 2 ^ 32 are counted: the size of a batch is what the peer claims it is.
-/

namespace Ice.Protocol.ConnectionI

open Lib
open Streams (toInt toInt_toInt_add)
section

variable {s t : ConnectionI}

/-- What is dispatched and what was decided about the shutdown is the same. -/
structure SameDispatch (s t : ConnectionI) : Prop where
  calls : t.calls = s.calls
  incomings : t.incomings = s.incomings
  dispatchCount : t.dispatchCount = s.dispatchCount
  shutdownInitiated : t.shutdownInitiated = s.shutdownInitiated
  datagram : t.datagram = s.datagram

theorem SameDispatch.trans {u : ConnectionI} (h : SameDispatch s t) (h' : SameDispatch t u) :
    SameDispatch s u where
  calls := h'.calls.trans h.calls
  incomings := h'.incomings.trans h.incomings
  dispatchCount := h'.dispatchCount.trans h.dispatchCount
  shutdownInitiated := h'.shutdownInitiated.trans h.shutdownInitiated
  datagram := h'.datagram.trans h.datagram

theorem sameDispatch_shut (s : ConnectionI) (ex : LocalException) : SameDispatch s (s.shut ex) := by
  unfold shut
  split <;> exact ⟨rfl, rfl, rfl, rfl, rfl⟩

theorem SameDispatch.shut (h : SameDispatch s t) (ex : LocalException) :
    SameDispatch s (t.shut ex) :=
  h.trans (sameDispatch_shut t ex)

theorem Sends.sameDispatch {message : OutgoingMessage} {status : AsyncStatus}
    (h : Sends s message status t) : SameDispatch s t := by
  cases h <;> exact ⟨rfl, rfl, rfl, rfl, rfl⟩

theorem sameDispatch_settle (s : ConnectionI) (response : Bool) (out : Nat) (requestId : Int) :
    SameDispatch s (s.settle response out requestId) := by
  unfold settle
  split <;> exact ⟨rfl, rfl, rfl, rfl, rfl⟩

@[simp]
theorem shut_log (s : ConnectionI) (ex : LocalException) : (s.shut ex).log = s.log := by
  unfold shut
  split <;> rfl

end

theorem eq_zero_of_toInt {x : Int} (h : toInt x = 0) (h₀ : 0 ≤ x) (hx : x < 2 ^ 32) : x = 0 := by
  unfold toInt at h
  have hmod : x.emod (2 ^ 32) = x := Int.emod_eq_of_lt h₀ hx
  rw [Int.bmod_def] at h
  split at h <;> omega

section

variable {s t : ConnectionI}

/-- What a call of `dispatch` has still to complete. -/
def DispatchCall.pending (call : DispatchCall) : Int := call.dispatchedCount + call.invokeNum

/-- The requests and callbacks that were counted and are not completed. -/
def pending (s : ConnectionI) : Int :=
  (s.calls.map DispatchCall.pending).sum + s.incomings.length

theorem DispatchCall.dispatchedCount_nonneg (call : DispatchCall) : 0 ≤ call.dispatchedCount := by
  unfold dispatchedCount
  have h : ∀ (p : Prop) [Decidable p], (0 : Int) ≤ if p then 1 else 0 := by
    intro p _
    split <;> decide
  exact Int.add_nonneg (Int.add_nonneg (Int.add_nonneg (h _) (h _)) (h _)) (h _)

/-- `_dispatchCount` counts what is pending, as far as an `int` can. -/
structure Counted (s : ConnectionI) : Prop where
  counted : s.dispatchCount = toInt s.pending
  nonneg : ∀ call ∈ s.calls, 0 ≤ call.invokeNum

namespace Counted

section

variable (h : Counted s)

include h

theorem pending_nonneg : ∀ call ∈ s.calls, 0 ≤ call.pending := by
  intro call hcall
  exact Int.add_nonneg call.dispatchedCount_nonneg (h.nonneg call hcall)

theorem of_same (hst : SameDispatch s t) : Counted t ∧ t.pending ≤ s.pending := by
  refine ⟨⟨?_, ?_⟩, ?_⟩
  · rw [hst.dispatchCount, h.counted, pending, pending, hst.calls, hst.incomings]
  · rw [hst.calls]
    exact h.nonneg
  · apply Int.le_of_eq
    rw [pending, pending, hst.calls, hst.incomings]

theorem withoutIncoming {index : Nat} {incoming : Incoming}
    (hincoming : s.incomings[index]? = some incoming) :
    Counted (s.withoutIncoming index) ∧ (s.withoutIncoming index).pending ≤ s.pending := by
  have hlt : index < s.incomings.length := (List.getElem?_eq_some_iff.mp hincoming).1
  have hpending : (s.withoutIncoming index).pending = s.pending - 1 := by
    simp only [ConnectionI.withoutIncoming, pending, List.length_eraseIdx, hlt, if_true]
    omega
  refine ⟨⟨?_, h.nonneg⟩, by omega⟩
  rw [hpending]
  change toInt (s.dispatchCount - 1) = toInt (s.pending - 1)
  rw [h.counted, Int.sub_eq_add_neg, toInt_toInt_add, Int.sub_eq_add_neg]

/-- Nothing is pending when the count is 0, unless so much is that the count has wrapped. -/
theorem eq_zero (hbound : s.pending < 2 ^ 32) (hzero : s.dispatchCount = 0) :
    s.incomings = [] ∧ ∀ call ∈ s.calls, call.invokeNum = 0 := by
  have hsum := sum_map_nonneg DispatchCall.pending h.pending_nonneg
  have hpending : s.pending = 0 := by
    have htoInt := h.counted.symm.trans hzero
    apply eq_zero_of_toInt htoInt _ hbound
    exact Int.add_nonneg hsum (Int.natCast_nonneg _)
  unfold pending at hpending
  constructor
  · apply List.eq_nil_of_length_eq_zero
    omega
  · intro call hcall
    have hle := le_sum_map DispatchCall.pending h.pending_nonneg hcall
    have hcount := call.dispatchedCount_nonneg
    have hnum := h.nonneg call hcall
    have heq : call.pending = call.dispatchedCount + call.invokeNum := rfl
    omega

end

end Counted

theorem Admits.counted {message : OutgoingMessage} (ha : Admits s message t) (h : Counted s) :
    Counted t ∧ t.pending ≤ s.pending := by
  cases ha with
  | closeConnection _ _ _ _ | request response _ => exact ⟨⟨h.counted, h.nonneg⟩, Int.le_refl _⟩
  | validateConnection _ => exact ⟨h, Int.le_refl _⟩
  | reply index incoming hincoming _ _ => exact h.withoutIncoming hincoming

/-- The count goes down with what is pending in a call of `dispatch`. -/
theorem Counted.of_calls {calls : List DispatchCall} {n : Int} (h : Counted s)
    (hsum : (calls.map DispatchCall.pending).sum = (s.calls.map DispatchCall.pending).sum - n)
    (hcalls : ∀ call ∈ calls, 0 ≤ call.invokeNum) (hn : 0 ≤ n)
    (ht : t.calls = calls ∧ t.incomings = s.incomings ∧
      t.dispatchCount = toInt (s.dispatchCount - n)) :
    Counted t ∧ t.pending ≤ s.pending := by
  obtain ⟨hc, hi, hd⟩ := ht
  have hpending : t.pending = s.pending - n := by
    rw [pending, pending, hc, hi, hsum]
    omega
  refine ⟨⟨?_, hc ▸ hcalls⟩, by omega⟩
  rw [hd, hpending, h.counted, Int.sub_eq_add_neg, toInt_toInt_add, Int.sub_eq_add_neg]

/-- No act adds to what is pending. -/
theorem Act.counted (hact : Act s t) (h : Counted s) : Counted t ∧ t.pending ≤ s.pending := by
  have hthen : ∀ {u v : ConnectionI}, Counted u ∧ u.pending ≤ s.pending → SameDispatch u v →
      Counted v ∧ v.pending ≤ s.pending := by
    intro u v hu huv
    obtain ⟨hv, hle⟩ := hu.1.of_same huv
    exact ⟨hv, Int.le_trans hle hu.2⟩
  cases hact with
  | send ha _ hsends => exact hthen (ha.counted h) hsends.sameDispatch
  | request response ha hsends =>
    exact hthen (ha.counted h) (hsends.sameDispatch.trans (sameDispatch_settle _ _ _ _))
  | sendFailed taken answers ex ha _ =>
    apply hthen (ha.counted h)
    apply SameDispatch.shut
    exact ⟨rfl, rfl, rfl, rfl, rfl⟩
  | timeoutQueued out index _ _ _ =>
    apply h.of_same
    apply SameDispatch.shut
    exact ⟨rfl, rfl, rfl, rfl, rfl⟩
  | invoke index call hcall hpos =>
    have hsum := sum_map_set DispatchCall.pending
      { call with invokeNum := call.invokeNum - 1 } hcall
    have hpending : { call with invokeNum := call.invokeNum - 1 }.pending = call.pending - 1 :=
      (Int.add_sub_assoc ..).symm
    have hsame : ∀ t : ConnectionI,
        t.calls = s.calls.set index { call with invokeNum := call.invokeNum - 1 } →
        t.incomings.length = s.incomings.length + 1 → t.pending = s.pending := by
      intro t hc hi
      rw [pending, pending, hc, hi, hsum, hpending]
      omega
    rw [hsame _ rfl (by simp)]
    refine ⟨⟨?_, forall_mem_set h.nonneg (Int.le_sub_one_of_lt hpos)⟩, Int.le_refl _⟩
    rw [hsame _ rfl (by simp)]
    exact h.counted
  | abandon index call hcall hs =>
    have hsum := sum_map_set DispatchCall.pending { call with invokeNum := 0 } hcall
    have hpending : { call with invokeNum := 0 }.pending = call.pending - call.invokeNum := by
      change call.dispatchedCount + 0 = call.dispatchedCount + call.invokeNum - call.invokeNum
      omega
    rw [hpending] at hsum
    exact h.of_calls (by omega) (forall_mem_set h.nonneg (Int.le_refl 0))
      (h.nonneg call (List.mem_of_getElem? hcall)) ⟨rfl, rfl, rfl⟩
  | endDispatch index call hcall hidle =>
    have hsum := sum_map_eraseIdx DispatchCall.pending hcall
    have hnum := h.nonneg call (List.mem_of_getElem? hcall)
    have hpending : call.pending = call.dispatchedCount := by
      rw [DispatchCall.pending, Int.le_antisymm hidle hnum, Int.add_zero]
    rw [hpending] at hsum
    exact h.of_calls hsum (fun c hc => h.nonneg c (List.mem_of_mem_eraseIdx hc))
      call.dispatchedCount_nonneg ⟨rfl, rfl, rfl⟩
  | drop index incoming hincoming hs => exact h.withoutIncoming hincoming
  | _ => exact ⟨⟨h.counted, h.nonneg⟩, Int.le_refl _⟩

end

end Ice.Protocol.ConnectionI
