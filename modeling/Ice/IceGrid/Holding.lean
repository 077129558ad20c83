import Mathlib.Data.List.Permutation
import Ice.IceGrid.Accounts

/-!
# Every operation keeps the accounts

One triple for each member of the source says which tokens it needs and which it
leaves, whether it returns or throws. `Quiet` programs leave the tokens they find.
A release returns or throws `AllocationException` as long as no removed object is
offered to a waiting request, so that the destruction of a session reaches all its
allocations.
-/

namespace Ice.IceGrid

open Ice.Lib
open List (mem_map mem_singleton)
open AllocationRequest (settle)
open Allocatable (allocateLocked allocateMore allocateWith isOf queueAllocationAttempt)
open Registry (fresh move)
open Program (Triple)
open Multiset (cons_add cons_swap mem_cons mem_cons_self singleton_add)

/-- The condition on a step of a run: a request that waits for a type is not offered an
object that was removed. -/
def OffersRegistered (s : State) : Point → Prop
  | .checkAllocatable e true true => (s.allocatables (.object e)).destroyed = false
  | _ => True

abbrev Keeps {α : Type} (R : Multiset Token) (p : Task α)
    (Q : Except Exception α → Multiset Token → Prop) : Prop :=
  Triple Accounts OffersRegistered R p Q

/-- A program that leaves the tokens it finds. -/
abbrev Quiet {α : Type} (p : Task α) (φ : Except Exception α → Prop) : Prop :=
  Program.Quiet Accounts OffersRegistered p φ

/-- The program returns. -/
def Returned {α : Type} (x : Except Exception α) : Prop := ∃ a, x = .ok a

/-- The same allocatables and the same books. -/
def Same (s s' : State) : Prop :=
  s'.allocatables = s.allocatables ∧ ∀ n,
    (s'.sessions n).destroyed = (s.sessions n).destroyed ∧
    (s'.sessions n).allocations = (s.sessions n).allocations

theorem Same.refl (s : State) : Same s s := ⟨rfl, fun _ => ⟨rfl, rfl⟩⟩

theorem Same.trans {s s' s'' : State} (h : Same s s') (h' : Same s' s'') : Same s s'' :=
  ⟨h'.1.trans h.1, fun n => ⟨(h'.2 n).1.trans (h.2 n).1, (h'.2 n).2.trans (h.2 n).2⟩⟩

section rules

variable {α β : Type} {R : Multiset Token} {p : Task α}
    {Q : Except Exception α → Multiset Token → Prop}
  {φ : Except Exception α → Prop} {ψ : Except Exception β → Prop}

/-- What the invariant says of the tokens may be used before the program goes on. -/
theorem Keeps.of_facts {P : Prop} (hP : ∀ s G, Accounts s (R + G) → P) (h : P → Keeps R p Q) :
    Keeps R p Q :=
  Triple.update fun s G hJ => ⟨R, hJ, h (hP s G hJ)⟩

theorem Keeps.perform {f : State → α × State}
    (h : ∀ s G, Accounts s (R + G) → ∃ R', Accounts (f s).2 (R' + G) ∧ Q (.ok (f s).1) R') :
    Keeps R (perform f) Q := by
  refine Triple.act fun s G hJ _ o ho => ?_
  rw [mem_singleton.mp ho]
  exact h s G hJ

theorem Keeps.of_quiet (h : Quiet p φ) (hQ : ∀ x, φ x → Q x R) : Keeps R p Q := by
  refine (h R).conseq ?_
  rintro x R' ⟨rfl, hx⟩
  exact hQ x hx

variable {T : Except Exception β → Multiset Token → Prop}

theorem Keeps.bindQuiet {f : α → Task β}
    (hp : Quiet p φ) (hok : ∀ a, φ (.ok a) → Keeps R (f a) T)
    (herror : ∀ ex, φ (.error ex) → T (.error ex) R) : Keeps R (p >>= f) T := by
  refine (hp R).bind ?_ ?_
  · rintro a R' ⟨rfl, ha⟩
    exact hok a ha
  · rintro ex R' ⟨rfl, hex⟩
    exact herror ex hex

theorem not_returned_error {ex : Exception} : ¬Returned (.error ex : Except Exception α) := by
  rintro ⟨a, ha⟩
  cases ha

namespace Quiet

theorem forM {l : List β} {f : β → Task Unit} (h : ∀ b ∈ l, Quiet (f b) Returned) :
    Quiet (l.forM f) Returned := by
  induction l with
  | nil => exact Program.Quiet.pure ⟨(), rfl⟩
  | cons b l ih =>
    rw [List.forall_mem_cons] at h
    refine h.1.bind (fun _ _ => ih h.2) ?_
    rintro ex ⟨a, ha⟩
    cases ha

/-- An action that only touches requests, the cache and the queues of sessions. -/
theorem perform {f : State → α × State}
    (hf : ∀ s, Same s (f s).2) (hφ : ∀ s, φ (.ok (f s).1)) : Quiet (perform f) φ :=
  fun _ => Keeps.perform fun s _ hJ => ⟨_, hJ.congr (hf s).1 (hf s).2, rfl, hφ s⟩

theorem read {f : State → α} (hφ : ∀ s, φ (.ok (f s))) : Quiet (IceGrid.read f) φ :=
  perform Same.refl hφ

variable {f : α → Task β}

/-- A first part that returns leaves no exception to deal with. -/
theorem bindReturned (hp : Quiet p Returned) (hf : ∀ a, Quiet (f a) ψ) : Quiet (p >>= f) ψ :=
  hp.bind (fun a _ => hf a) fun _ hex => absurd hex not_returned_error

theorem bindRead {g : State → α} (hf : ∀ a, Quiet (f a) ψ) : Quiet (IceGrid.read g >>= f) ψ :=
  bindReturned (read fun _ => ⟨_, rfl⟩) hf

/-- Nothing is said of the end. -/
theorem bindAny (hp : Quiet p φ) (hf : ∀ a, Quiet (f a) fun _ => True) :
    Quiet (p >>= f) fun _ => True :=
  hp.bind (fun a _ => hf a) fun _ _ => trivial

end Quiet

theorem Keeps.bindReturned {f : α → Task β}
    (hp : Quiet p Returned) (hf : ∀ a, Keeps R (f a) T) : Keeps R (p >>= f) T :=
  Keeps.bindQuiet hp (fun a _ => hf a) fun _ hex => absurd hex not_returned_error

/-- A first part that returns nothing of interest. -/
theorem Keeps.next {p : Task Unit} {f : Unit → Task β} {P : Multiset Token → Prop}
    (hp : Keeps R p fun x R' => x = .ok () ∧ P R') (hf : ∀ R', P R' → Keeps R' (f ()) T) :
    Keeps R (p >>= f) T := by
  refine hp.bind ?_ ?_
  · rintro _ R' ⟨-, hP⟩
    exact hf R' hP
  · rintro ex R' ⟨hx, -⟩
    cases hx

end rules

section actions

variable {α : Type} {R G : Multiset Token} {a : AllocatablePtr} {self : Allocatable} {b : Book}
  {p : ServerEntry} {e : AllocatableObjectEntry} {n : SessionPtr} {r : RequestPtr}
  {s : State} {Q : Except Exception α → Multiset Token → Prop}

/-- Entering a monitor, whatever else the thread waits for. -/
theorem Keeps.acquire {c : State → Bool} (hc : ∀ s, c s = false →
      (s.allocatables a).locked = false) :
    Keeps R (.act .internal fun s => if c s then []
      else [(.ok (), s.setAllocatable a fun x => { x with locked := true })]) fun x R' =>
        x = .ok () ∧ ∃ self, R' = .monitor a self .settled ::ₘ R := by
  refine Triple.act fun s G hJ _ o ho => ?_
  by_cases hl : c s = true
  · rw [if_pos hl] at ho
    cases ho
  · rw [if_neg hl, mem_singleton] at ho
    subst ho
    refine ⟨.monitor a { s.allocatables a with locked := true } .settled ::ₘ R, ?_, rfl, _, rfl⟩
    rw [cons_add]
    exact hJ.lock (hc s (by simpa using hl))

variable {body : Task α} {tryAllocate fromRelease : Bool}

/-- A block that leaves its monitor has to settle the books. -/
theorem Keeps.inMonitor
    (h : Keeps (.monitor a self .settled ::ₘ R) body fun x R' =>
      ∃ self' R'', R' = .monitor a self' .settled ::ₘ R'' ∧ Q x R'') :
    Keeps (.monitor a self .settled ::ₘ R) (body.ensuring (unlock a)) Q := by
  refine h.ensuring ?_
  rintro x R' ⟨self', R'', rfl, hQ⟩
  refine Keeps.perform fun s G hJ => ⟨R'', ?_, hQ⟩
  rw [cons_add] at hJ
  exact hJ.unlock

/-- A block under a monitor starts with what is there and settles the books. -/
theorem Keeps.withLock
    (h : ∀ self, Keeps (.monitor a self .settled ::ₘ R) body fun x R' =>
      ∃ self' R'', R' = .monitor a self' .settled ::ₘ R'' ∧ Q x R'') :
    Keeps R (withLock a body) Q := by
  refine Keeps.next (Keeps.acquire (a := a) fun s => id) ?_
  rintro R' ⟨self, rfl⟩
  exact Keeps.inMonitor (h self)

/-- What a thread reads in the monitor it owns. -/
theorem Keeps.readSelf {Q : Except Exception Allocatable → Multiset Token → Prop}
    (h : Q (.ok self) (.monitor a self b ::ₘ R)) :
    Keeps (.monitor a self b ::ₘ R) (read fun s => s.allocatables a) Q := by
  refine Keeps.perform fun s G hJ => ⟨_, hJ, ?_⟩
  rw [cons_add] at hJ
  change Q (.ok (s.allocatables a)) _
  rwa [hJ.eq_self]

/-- A thread goes on with what it reads in its monitor. -/
theorem Keeps.bindSelf {f : Allocatable → Task α} (h : Keeps (.monitor a self b ::ₘ R) (f self) Q) :
    Keeps (.monitor a self b ::ₘ R) ((read fun s => s.allocatables a) >>= f) Q := by
  refine Triple.bind (Keeps.readSelf (Q := fun x R' => x = .ok self ∧
    R' = .monitor a self b ::ₘ R) ⟨rfl, rfl⟩) ?_ ?_
  · rintro x R' ⟨hx, rfl⟩
    cases hx
    exact h
  · rintro ex R' ⟨hx, -⟩
    cases hx

/-- A change inside a monitor that the accounts do not notice. -/
theorem Keeps.set {Q : Except Exception Unit → Multiset Token → Prop}
    {f : Allocatable → Allocatable} (hf : ∀ x, (f x).session = x.session ∧
      (f x).count = x.count ∧ (f x).locked = x.locked)
    (hqueued : ∀ x, (∀ q ∈ x.requests, ∃ e, q.1 = AllocatablePtr.object e) →
      ∀ q ∈ (f x).requests, ∃ e, q.1 = AllocatablePtr.object e)
    (h : Q (.ok ()) (.monitor a (f self) b ::ₘ R)) :
    Keeps (.monitor a self b ::ₘ R) (modify fun s => s.setAllocatable a f) Q := by
  refine Keeps.perform fun s G hJ => ⟨_, ?_, h⟩
  rw [cons_add] at hJ ⊢
  have hself := hJ.eq_self
  refine hJ.set (hf self).1 (hf self).2.1 ?_ (hqueued self ?_)
  · rw [(hf self).2.2]
    exact (hJ.monitor a self b (mem_cons_self _ _)).2
  · rw [← hself]
    exact hJ.queued a

/-- What does not touch allocatables or the books of a session. -/
def Neutral (f : State → State) : Prop := ∀ s, Same s (f s)

theorem Neutral.comp {f g : State → State} (hf : Neutral f) (hg : Neutral g) :
    Neutral fun s => g (f s) := fun s => (hf s).trans (hg _)

theorem neutral_setRequest (f : AllocationRequest → AllocationRequest) :
    Neutral fun s => s.setRequest r f := fun _ => ⟨rfl, fun _ => ⟨rfl, rfl⟩⟩

theorem neutral_setType {type : String} (f : TypeEntry → TypeEntry) :
    Neutral fun s => s.setType type f := fun _ => ⟨rfl, fun _ => ⟨rfl, rfl⟩⟩

theorem same_setSession {f : Session → Session} (hd : ∀ x, (f x).destroyed = x.destroyed)
    (ha : ∀ x, (f x).allocations = x.allocations) : Same s (s.setSession n f) := by
  refine ⟨rfl, fun m => ?_⟩
  by_cases hm : m = n
  · subst hm
    simp [hd, ha]
  · rw [State.setSession_of_ne hm]
    exact ⟨rfl, rfl⟩

theorem neutral_cancelWith (ex : Exception) : Neutral (AllocationRequest.cancelWith r ex) :=
  (neutral_setRequest _).comp (neutral_setRequest _)

theorem neutral_removeAllocationRequest : Neutral (SessionI.removeAllocationRequest r) := by
  intro s
  unfold SessionI.removeAllocationRequest
  split
  · exact Same.refl s
  · exact same_setSession (fun _ => rfl) (fun _ => rfl)

theorem neutral_unregister : Neutral (AllocationRequest.unregister r) :=
  (neutral_setRequest _).comp neutral_removeAllocationRequest

theorem neutral_addAllocationRequest : Neutral fun s => (SessionI.addAllocationRequest r s).2 := by
  intro s
  unfold SessionI.addAllocationRequest
  dsimp only
  split
  · exact Same.refl s
  · exact same_setSession (fun _ => rfl) (fun _ => rfl)

variable (session : Option SessionPtr)

theorem neutral_settle :
    Neutral fun s => (settle r session s).2 := by
  intro s
  unfold settle
  dsimp only
  split
  · exact neutral_cancelWith _ s
  · exact neutral_setRequest _ s

/-- A request is never allocated to the session that holds the allocatable. -/
theorem settle_self : (settle r (some r.session) s).1 = false := by
  simp [settle]

theorem quiet_pending : Quiet (AllocationRequest.pending r) Returned := by
  refine Quiet.perform (fun s => ?_) fun s => ⟨_, rfl⟩
  split
  · exact neutral_cancelWith _ s
  · have hadd := neutral_addAllocationRequest (r := r) s
    split
    · rename_i heq
      simp only [heq] at hadd
      exact hadd.trans (neutral_cancelWith _ _)
    · rename_i heq
      simp only [heq] at hadd
      exact hadd.trans (neutral_setRequest _ _)

theorem quiet_requestAllocate :
    Quiet (AllocationRequest.allocate r session) fun x =>
      ∃ b, x = .ok b ∧ (session = some r.session → b = false) := by
  refine Quiet.perform (fun s => ?_) fun s => ⟨_, rfl, ?_⟩
  · split
    · exact neutral_settle session s
    · exact Same.refl s
    · exact neutral_unregister.comp (neutral_settle session) s
    · exact neutral_settle session s
  · rintro rfl
    split
    · exact settle_self
    · rfl
    · exact settle_self
    · exact settle_self

theorem quiet_modify {f : State → State} (hf : Neutral f) : Quiet (modify f) Returned :=
  Quiet.perform hf fun _ => ⟨(), rfl⟩

theorem quiet_cancel (ex : Exception) : Quiet (AllocationRequest.cancel r ex) Returned := by
  refine quiet_modify fun s => ?_
  split
  · exact neutral_cancelWith ex s
  · exact Same.refl s
  · exact Same.refl s
  · exact neutral_unregister.comp (neutral_cancelWith ex) s

theorem quiet_runTimerTask : Quiet (AllocationRequest.runTimerTask r) Returned := by
  refine quiet_modify fun s => ?_
  split
  · dsimp only
    split
    · exact ((neutral_setRequest _).comp neutral_removeAllocationRequest).comp
        (neutral_cancelWith _) s
    · exact neutral_setRequest _ s
  · exact Same.refl s

theorem quiet_getSession : Quiet (Allocatable.getSession a) Returned := by
  intro R
  refine Keeps.withLock fun self => Keeps.perform fun s G hJ => ⟨_, hJ, self, R, rfl, rfl, _, rfl⟩

theorem quiet_queueFromChild : Quiet (Allocatable.queueAllocationAttemptFromChild p (.object e))
    Returned := by
  intro R
  refine Keeps.withLock fun self => Keeps.set (fun x => ⟨rfl, rfl, rfl⟩) (fun x hx q hq => ?_)
    ⟨_, R, rfl, rfl, (), rfl⟩
  rcases List.mem_append.mp hq with hq | hq
  · exact hx q hq
  · rw [mem_singleton.mp hq]
    exact ⟨e, rfl⟩

theorem keeps_queueAllocationAttempt {root : AllocatablePtr} :
    Keeps (.monitor root self b ::ₘ R)
      (queueAllocationAttempt root (.object e) r tryAllocate) fun x R' =>
        x = .ok () ∧ ∃ self', R' = .monitor root self' b ::ₘ R := by
  have happend : ∀ o : Option RequestPtr, ∀ x : Allocatable,
      (∀ q ∈ x.requests, ∃ e, q.1 = AllocatablePtr.object e) →
      ∀ q ∈ x.requests ++ [(AllocatablePtr.object e, o)], ∃ e, q.1 = AllocatablePtr.object e := by
    intro o x hx q hq
    rcases List.mem_append.mp hq with hq | hq
    · exact hx q hq
    · rw [mem_singleton.mp hq]
      exact ⟨e, rfl⟩
  unfold queueAllocationAttempt
  cases tryAllocate with
  | true => exact Keeps.set (fun _ => ⟨rfl, rfl, rfl⟩) (happend none) ⟨rfl, _, rfl⟩
  | false =>
    refine Keeps.bindReturned quiet_pending fun queued => ?_
    cases queued with
    | false => exact Triple.pure ⟨rfl, self, rfl⟩
    | true => exact Keeps.set (fun _ => ⟨rfl, rfl, rfl⟩) (happend (some r)) ⟨rfl, _, rfl⟩

/-- A child that asks its server gets the server for its session, or is queued there. -/
theorem keeps_allocateFromChild :
    Keeps R (Allocatable.allocateFromChild p r (.object e) tryAllocate fromRelease) fun x R' =>
      (x = .ok true ∧ R' = .owes p r.session ::ₘ R) ∨ (x = .ok false ∧ R' = R) := by
  refine Triple.bind (Q := fun x R' =>
    (∃ k : Int, x = .ok k ∧ 0 < k ∧ R' = .owes p r.session ::ₘ R) ∨ (x = .ok 0 ∧ R' = R)) ?_ ?_ ?_
  · refine Keeps.withLock fun self => Keeps.bindSelf ?_
    by_cases hc : ((self.session = none || self.session = some r.session) &&
        (fromRelease || !self.releasing)) = true
    · rw [if_pos hc]
      have hs : self.session = none ∨ self.session = some r.session := by
        simpa using (Bool.and_eq_true_iff.mp hc).1
      have hlend : Keeps (.monitor (.server p) self .settled ::ₘ R) (perform fun s =>
          (self.count + 1, s.setAllocatable (.server p) fun x =>
            { x with session := some r.session, count := self.count + 1 })) fun x R' =>
          ∃ self' R'', R' = .monitor (.server p) self' .settled ::ₘ R'' ∧
            ((∃ k : Int, x = .ok k ∧ 0 < k ∧ R'' = .owes p r.session ::ₘ R) ∨
              (x = .ok 0 ∧ R'' = R)) := by
        refine Keeps.perform fun s G hJ => ⟨.monitor (.server p)
          { self with session := some r.session, count := self.count + 1 } .settled ::ₘ
            .owes p r.session ::ₘ R, ?_, _, _, rfl, .inl ⟨self.count + 1, rfl, ?_, rfl⟩⟩
        · rw [cons_add] at hJ
          rw [cons_add, cons_add]
          exact hJ.lend
            (f := fun x => { x with session := some r.session, count := self.count + 1 })
            hs (hJ.monitor _ _ _ (mem_cons_self _ _)).2 rfl rfl rfl
        · rw [cons_add] at hJ
          have hcount := hJ.count p
          rw [hJ.eq_self] at hcount
          omega
      dsimp only
      split
      · exact hlend
      · exact hlend
    · rw [if_neg hc]
      refine Keeps.next (keeps_queueAllocationAttempt) ?_
      rintro R' ⟨self', rfl⟩
      exact Triple.pure ⟨self', R, rfl, .inr ⟨rfl, rfl⟩⟩
  · rintro k R' (⟨k', hk, hpos, rfl⟩ | ⟨hk, rfl⟩)
    · cases hk
      exact Triple.pure (.inl ⟨by simpa using hpos, rfl⟩)
    · cases hk
      exact Triple.pure (.inr ⟨rfl, rfl⟩)
  · rintro ex R' (⟨k, hk, -⟩ | ⟨hk, -⟩)
    · cases hk
    · cases hk

/-- The locked block of `release` is entered like any other, perhaps later. -/
theorem Keeps.releaseLocked {Q : Except Exception (Bool × Bool) → Multiset Token → Prop}
    (h : ∀ self, Keeps (.monitor a self .settled ::ₘ R) (Allocatable.releaseBody a n fromRelease)
      fun x R' => ∃ self' R'', R' = .monitor a self' .settled ::ₘ R'' ∧ Q x R'') :
    Keeps R (Allocatable.releaseLocked a n fromRelease) Q := by
  unfold Allocatable.releaseLocked
  cases fromRelease with
  | true => exact Keeps.withLock h
  | false =>
    refine Keeps.next (Keeps.acquire (a := a) fun s hs => (Bool.or_eq_false_iff.mp hs).1) ?_
    rintro R' ⟨self, rfl⟩
    exact Keeps.inMonitor (h self)

/-- The end of the block: a release that left requests behind is marked. -/
theorem keeps_mark {waiting : Bool} :
    Keeps (.monitor a self b ::ₘ R)
      (if !fromRelease && waiting then do
        modify fun s => s.setAllocatable a fun x => { x with releasing := true }
        pure (true, true)
      else pure (true, false) : Task (Bool × Bool)) fun x R' =>
        (∃ c, x = .ok (true, c)) ∧ ∃ self', R' = .monitor a self' b ::ₘ R := by
  split
  · exact Keeps.next (Keeps.set (Q := fun x R' => x = .ok () ∧ ∃ self',
      R' = .monitor a self' b ::ₘ R) (fun _ => ⟨rfl, rfl, rfl⟩) (fun _ hx => hx) ⟨rfl, _, rfl⟩)
      fun R' hR => Triple.pure ⟨⟨true, rfl⟩, hR⟩
  · exact Triple.pure ⟨⟨false, rfl⟩, self, rfl⟩

/-- A server gets back a release it is owed. -/
theorem keeps_releaseServer :
    Keeps (.owes p n ::ₘ R) (Allocatable.releaseLocked (.server p) n fromRelease) fun x R' =>
      Returned x ∧ R' = R := by
  refine Keeps.releaseLocked fun self => Keeps.of_facts
    (P := self.session = some n ∧ self.locked = true) (fun s G hJ => ?_) ?_
  · rw [cons_add] at hJ
    refine ⟨?_, (hJ.monitor _ _ _ (mem_cons_self _ _)).2⟩
    rw [← hJ.eq_self]
    exact hJ.owes p n (by simp)
  · rintro ⟨hs, hl⟩
    refine Keeps.bindSelf ?_
    rw [if_pos hs]
    have hgive : ∀ f : Allocatable → Allocatable, (f self).locked = self.locked →
        (f self).requests = self.requests → (f self).count = self.count - 1 →
        (f self).session = (if self.count - 1 = 0 then none else self.session) →
        Keeps (.monitor (.server p) self .settled ::ₘ .owes p n ::ₘ R)
          (modify fun s => s.setAllocatable (.server p) f) fun x R' =>
            x = .ok () ∧ ∃ self', R' = .monitor (.server p) self' .settled ::ₘ R := by
      intro f hfl hfr hfc hfs
      refine Keeps.perform fun s G hJ =>
        ⟨.monitor (.server p) (f self) .settled ::ₘ R, ?_, rfl, _, rfl⟩
      rw [cons_add, cons_add] at hJ
      rw [cons_add]
      exact hJ.giveBack (hfl.trans hl) hfr hfc hfs
    by_cases hc : self.count - 1 = 0
    · rw [if_pos hc]
      refine Keeps.next (hgive _ rfl rfl hc.symm (by rw [if_pos hc])) ?_
      rintro R' ⟨self', rfl⟩
      refine keeps_mark.conseq ?_
      rintro x R' ⟨⟨c, rfl⟩, self'', rfl⟩
      exact ⟨self'', R, rfl, ⟨_, rfl⟩, rfl⟩
    · rw [if_neg hc]
      refine Keeps.next (hgive _ rfl rfl rfl (by rw [if_neg hc])) ?_
      rintro R' ⟨self', rfl⟩
      exact Triple.pure ⟨self', R, rfl, ⟨_, rfl⟩, rfl⟩

/-- What may be done with tokens once a session has no claim on an object. -/
def Unclaimed (e : AllocatableObjectEntry) (n : SessionPtr) (R R' : Multiset Token) : Prop :=
  ∀ s G self b, Accounts s (.monitor (.object e) self b ::ₘ (R + G)) → self.session ≠ some n →
    b ≠ .adding n → Accounts s (.monitor (.object e) self b ::ₘ (R' + G))

variable {R' : Multiset Token}

/-- An object is released by the session that holds it, and by no other. -/
theorem keeps_releaseObject (hR : Unclaimed e n R R') :
    Keeps R (Allocatable.releaseLocked (.object e) n fromRelease) fun x R'' =>
      (∃ c, x = .ok (true, c) ∧ R'' = dues e n + R') ∨
      (∃ reason, x = .error (.allocationException reason) ∧ R'' = R') := by
  refine Keeps.releaseLocked fun self => Keeps.of_facts
    (P := self.locked = true ∧ self.count = if self.session = none then 0 else 1)
    (fun s G hJ => ?_) ?_
  · rw [cons_add] at hJ
    refine ⟨(hJ.monitor _ _ _ (mem_cons_self _ _)).2, ?_⟩
    rw [← hJ.eq_self]
    exact hJ.object e
  · rintro ⟨hl, hcount⟩
    refine Keeps.bindSelf ?_
    by_cases hs : self.session = some n
    · have hone : self.count = 1 := by rw [hcount, hs]; rfl
      rw [if_pos hs, if_pos (by omega)]
      refine Keeps.next (P := fun R'' => ∃ self', self'.session = none ∧
        R'' = .monitor (.object e) self' (.removing n) ::ₘ (dues e n + R)) ?_ ?_
      · refine Keeps.perform fun s G hJ => ⟨.monitor (.object e)
          { self with session := none, count := 0 } (.removing n) ::ₘ (dues e n + R), ?_, rfl, _,
          rfl, rfl⟩
        rw [cons_add] at hJ
        rw [cons_add, add_assoc]
        exact hJ.giveUp (f := fun x => { x with session := none, count := 0 }) hs hl rfl rfl rfl
      · rintro R'' ⟨self', hs', rfl⟩
        refine Keeps.next (P := fun R'' =>
          R'' = .monitor (.object e) self' .settled ::ₘ (dues e n + R')) ?_ ?_
        · refine Keeps.perform fun s G hJ =>
            ⟨.monitor (.object e) self' .settled ::ₘ (dues e n + R'), ?_, rfl, rfl⟩
          have hne : self'.session ≠ some n := by simp [hs']
          rw [cons_add, add_assoc, add_left_comm] at hJ
          have hJ' := hR s _ self' _ hJ hne (by simp)
          rw [add_left_comm, ← add_assoc] at hJ'
          rw [cons_add]
          exact hJ'.leave hne
        · rintro R'' rfl
          refine keeps_mark.conseq ?_
          rintro x R'' ⟨⟨c, rfl⟩, self'', rfl⟩
          exact ⟨self'', _, rfl, .inl ⟨c, rfl, rfl⟩⟩
    · rw [if_neg hs]
      refine Triple.update fun s G hJ =>
        ⟨.monitor (.object e) self .settled ::ₘ R', ?_, Triple.throw ?_⟩
      · rw [cons_add] at hJ ⊢
        exact hR s G self .settled hJ hs (by simp)
      · exact ⟨self, R', rfl, .inr ⟨_, rfl, rfl⟩⟩

/-- What an allocation may throw; an offer to a request that waits for a type does not find
the object removed. -/
def AllocateThrows (tryAllocate fromRelease : Bool) (ex : Exception) : Prop :=
  ex = .sessionDestroyedException ∨
    (∃ id, ex = .objectNotRegisteredException id) ∧ (tryAllocate && fromRelease) = false

theorem quiet_checkAllocatable :
    Quiet (Allocatable.checkAllocatable (.object e) tryAllocate fromRelease) fun x =>
      x = .ok () ∨ ∃ ex, x = .error ex ∧ AllocateThrows tryAllocate fromRelease ex := by
  intro R
  refine Triple.act fun s G hJ hA o ho => ?_
  by_cases hd : (s.allocatables (.object e)).destroyed = true
  · rw [if_pos hd, mem_singleton] at ho
    subst ho
    refine ⟨R, hJ, rfl, .inr ⟨_, rfl, .inr ⟨⟨_, rfl⟩, ?_⟩⟩⟩
    cases tryAllocate with
    | false => rfl
    | true =>
      cases fromRelease with
      | false => rfl
      | true =>
        have hA : (s.allocatables (.object e)).destroyed = false := hA
        rw [hd] at hA
        cases hA
  · rw [if_neg hd, mem_singleton] at ho
    subst ho
    exact ⟨R, hJ, rfl, .inl rfl⟩

/-- `allocated` of an object enters it in the books, unless the session is destroyed. -/
theorem keeps_allocated (hfree : self.session = none) :
    Keeps (.monitor (.object e) self .settled ::ₘ R) (Allocatable.allocated (.object e) n)
      fun x R' => (x = .ok () ∧ R' = .monitor (.object e) self (.adding n) ::ₘ R) ∨
        (x = .error .sessionDestroyedException ∧
          R' = .monitor (.object e) self .settled ::ₘ R) := by
  refine Triple.act fun s G hJ _ o ho => ?_
  by_cases hd : (s.sessions n).destroyed = true
  · rw [if_pos hd, mem_singleton] at ho
    subst ho
    exact ⟨_, hJ, .inr ⟨rfl, rfl⟩⟩
  · rw [if_neg hd, mem_singleton] at ho
    subst ho
    refine ⟨.monitor (.object e) self (.adding n) ::ₘ R, ?_, .inl ⟨rfl, rfl⟩⟩
    rw [cons_add] at hJ ⊢
    exact hJ.enter hfree (by simpa using hd)

/-- What `allocateLocked` leaves: the object is held, or the server is still owed. -/
def AllocateLocked (e : AllocatableObjectEntry) (n : SessionPtr) (R : Multiset Token)
    (tryAllocate fromRelease : Bool) (x : Except Exception (Int × Bool)) (R' : Multiset Token) :
    Prop :=
  (∃ k q, x = .ok (k, q) ∧ 0 < k ∧ R' = R) ∨ (∃ q, x = .ok (0, q) ∧ R' = dues e n + R) ∨
    ∃ ex, x = .error ex ∧ AllocateThrows tryAllocate fromRelease ex ∧ R' = dues e n + R

theorem keeps_allocateLocked :
    Keeps (.monitor (.object e) self .settled ::ₘ (dues e r.session + R))
      (allocateLocked (.object e) r tryAllocate fromRelease) fun x R' =>
        ∃ self' R'', R' = .monitor (.object e) self' .settled ::ₘ R'' ∧
          AllocateLocked e r.session R tryAllocate fromRelease x R'' := by
  refine Keeps.of_facts (P := self.locked = true ∧
    self.count = if self.session = none then 0 else 1) (fun s G hJ => ?_) ?_
  · rw [cons_add] at hJ
    refine ⟨(hJ.monitor _ _ _ (mem_cons_self _ _)).2, ?_⟩
    rw [← hJ.eq_self]
    exact hJ.object e
  rintro ⟨hl, hcount⟩
  refine Keeps.bindQuiet quiet_checkAllocatable (fun _ _ => ?_) fun ex hex => ?_
  swap
  · rcases hex with hex | ⟨ex', hex, ht⟩
    · cases hex
    · cases hex
      exact ⟨self, _, rfl, .inr (.inr ⟨ex, rfl, ht, rfl⟩)⟩
  refine Keeps.bindSelf ?_
  have hnot : Keeps (.monitor (.object e) self .settled ::ₘ (dues e r.session + R))
      (pure (0, false) : Task (Int × Bool)) fun x R' =>
        ∃ self' R'', R' = .monitor (.object e) self' .settled ::ₘ R'' ∧
          AllocateLocked e r.session R tryAllocate fromRelease x R'' :=
    Triple.pure ⟨self, _, rfl, .inr (.inl ⟨false, rfl, rfl⟩)⟩
  by_cases hfree : ((self.session = none : Bool) && (fromRelease || !self.releasing)) = true
  · rw [if_pos hfree]
    have hs : self.session = none := by simpa using (Bool.and_eq_true_iff.mp hfree).1
    have hzero : self.count = 0 := by rw [hcount, if_pos hs]
    refine Keeps.bindQuiet (quiet_requestAllocate none) (fun c _ => ?_) fun ex hex => ?_
    · cases c with
      | false => exact hnot
      | true =>
        refine Triple.bind (Q := fun x R' =>
          (x = .ok () ∧ R' = .monitor (.object e) self (.adding r.session) ::ₘ
            (dues e r.session + R)) ∨
          (x = .error .sessionDestroyedException ∧
            R' = .monitor (.object e) self .settled ::ₘ (dues e r.session + R))) ?_ ?_ ?_
        · refine (keeps_allocated hs).tryCatch (fun _ _ h => h) ?_
          rintro ex R' (⟨hx, -⟩ | ⟨hx, rfl⟩)
          · cases hx
          · cases hx
            rw [if_pos rfl]
            refine Keeps.bindReturned (quiet_modify (neutral_setRequest _)) fun _ => ?_
            exact Triple.throw (.inr ⟨rfl, rfl⟩)
        · rintro _ R' (⟨-, rfl⟩ | ⟨hx, -⟩)
          · refine Keeps.next
              (P := fun R' => ∃ self', R' = .monitor (.object e) self' .settled ::ₘ R) ?_ ?_
            · refine Keeps.perform fun s G hJ => ⟨.monitor (.object e)
                { self with session := some r.session, count := self.count + 1 } .settled ::ₘ R,
                ?_, rfl, _, rfl⟩
              rw [cons_add, add_assoc] at hJ
              rw [cons_add]
              exact hJ.take (f := fun x =>
                { x with session := some r.session, count := self.count + 1 }) hs hl rfl rfl rfl
            · rintro R' ⟨self', rfl⟩
              refine Keeps.bindReturned (quiet_modify (neutral_setRequest _)) fun _ => ?_
              exact Triple.pure ⟨self', R, rfl, .inl ⟨_, false, rfl, by omega, rfl⟩⟩
          · cases hx
        · rintro ex R' (⟨hx, -⟩ | ⟨hx, rfl⟩)
          · cases hx
          · cases hx
            exact ⟨self, _, rfl, .inr (.inr ⟨_, rfl, .inl rfl, rfl⟩)⟩
    · obtain ⟨c, hc, -⟩ := hex
      cases hc
  · rw [if_neg hfree]
    by_cases hs : self.session = some r.session
    · rw [if_pos hs]
      cases tryAllocate with
      | true => exact Triple.pure ⟨self, _, rfl, .inr (.inl ⟨true, rfl, rfl⟩)⟩
      | false =>
        refine Keeps.bindQuiet (quiet_requestAllocate self.session) (fun c hc => ?_)
          fun ex hex => ?_
        · obtain ⟨c', hc', hfalse⟩ := hc
          cases hc'
          rw [hfalse hs]
          exact hnot
        · obtain ⟨c, hc, -⟩ := hex
          cases hc
    · rw [if_neg hs]
      refine Keeps.next keeps_queueAllocationAttempt ?_
      rintro R' ⟨self', rfl⟩
      exact Triple.pure ⟨self', _, rfl, .inr (.inl ⟨false, rfl, rfl⟩)⟩

/-- `_parent->release` gives a server back what it is owed. -/
def ReleasesServer (release : AllocatablePtr → SessionPtr → Bool → Task Unit) : Prop :=
  ∀ p n fromRelease R, Keeps (.owes p n ::ₘ R) (release (.server p) n fromRelease) fun x R' =>
    x = .ok () ∧ R' = R

variable {release : AllocatablePtr → SessionPtr → Bool → Task Unit}

section

variable (hrelease : ReleasesServer release)

include hrelease

/-- The private `allocate` leaves the tokens it finds, also where it fails halfway. -/
theorem quiet_allocateWith :
    Quiet (allocateWith release (.object e) r tryAllocate fromRelease) fun x =>
      Returned x ∨ ∃ ex, x = .error ex ∧ AllocateThrows tryAllocate fromRelease ex := by
  intro R
  have hlocked : Keeps (dues e r.session + R) (withLock (.object e)
      (allocateLocked (.object e) r tryAllocate fromRelease))
      (AllocateLocked e r.session R tryAllocate fromRelease) :=
    Keeps.withLock fun self => keeps_allocateLocked
  unfold allocateWith
  cases hp : (AllocatablePtr.object e).parent with
  | none =>
    have hdues : dues e r.session = 0 := by
      unfold dues
      rw [show e.parent = none from hp]
    simp only [hdues, zero_add] at hlocked
    refine hlocked.bind ?_ ?_
    · rintro ⟨k, q⟩ R' (⟨k', q', hx, -, rfl⟩ | ⟨q', hx, rfl⟩ | ⟨ex, hx, -⟩)
      · exact Triple.pure ⟨rfl, .inl ⟨_, rfl⟩⟩
      · exact Triple.pure ⟨by rw [hdues, zero_add], .inl ⟨_, rfl⟩⟩
      · cases hx
    · rintro ex R' (⟨k', q', hx, -⟩ | ⟨q', hx, -⟩ | ⟨ex', hx, ht, rfl⟩)
      · cases hx
      · cases hx
      · cases hx
        exact ⟨by rw [hdues, zero_add], .inr ⟨ex, rfl, ht⟩⟩
  | some p =>
    have hdues : dues e r.session + R = .owes p r.session ::ₘ R := by
      unfold dues
      rw [show e.parent = some p from hp, singleton_add]
    refine keeps_allocateFromChild.bind ?_ ?_
    · rintro c R' (⟨hc, rfl⟩ | ⟨hc, rfl⟩)
      · cases hc
        rw [← hdues]
        refine Triple.bind (Q := fun x R' =>
          (∃ k q, x = .ok (k, q) ∧ 0 < k ∧ R' = R) ∨
          (∃ q, x = .ok (0, q) ∧ R' = dues e r.session + R) ∨
          ∃ ex, x = .error ex ∧ AllocateThrows tryAllocate fromRelease ex ∧ R' = R) ?_ ?_ ?_
        · refine hlocked.tryCatch ?_ ?_
          · rintro ⟨k, q⟩ R' (h | h | ⟨ex, hx, -⟩)
            · exact .inl h
            · exact .inr (.inl h)
            · cases hx
          · rintro ex R' (⟨k', q', hx, -⟩ | ⟨q', hx, -⟩ | ⟨ex', hx, ht, rfl⟩)
            · cases hx
            · cases hx
            · cases hx
              rw [hdues]
              refine (hrelease p r.session fromRelease R).bind ?_ ?_
              · rintro _ R' ⟨-, rfl⟩
                exact Triple.throw (.inr (.inr ⟨ex, rfl, ht, rfl⟩))
              · rintro ex' R' ⟨hx, -⟩
                cases hx
        · rintro ⟨k, q⟩ R' (⟨k', q', hx, hpos, rfl⟩ | ⟨q', hx, rfl⟩ | ⟨ex, hx, -⟩)
          · cases hx
            dsimp only
            rw [if_neg (by omega)]
            exact Triple.pure ⟨rfl, .inl ⟨_, rfl⟩⟩
          · cases hx
            dsimp only
            rw [if_pos rfl, hdues]
            have hgive : Keeps (.owes p r.session ::ₘ R) (do
                release (.server p) r.session fromRelease
                return decide ((0 : Int) < 0)) fun x R' => R' = R ∧ (Returned x ∨
                  ∃ ex, x = .error ex ∧ AllocateThrows tryAllocate fromRelease ex) := by
              refine (hrelease p r.session fromRelease R).bind ?_ ?_
              · rintro _ R' ⟨-, rfl⟩
                exact Triple.pure ⟨rfl, .inl ⟨_, rfl⟩⟩
              · rintro ex' R' ⟨hx, -⟩
                cases hx
            split
            · exact Keeps.bindReturned quiet_queueFromChild fun _ => hgive
            · exact hgive
          · cases hx
        · rintro ex R' (⟨k', q', hx, -⟩ | ⟨q', hx, -⟩ | ⟨ex', hx, ht, rfl⟩)
          · cases hx
          · cases hx
          · cases hx
            exact ⟨rfl, .inr ⟨ex, rfl, ht⟩⟩
      · cases hc
        exact Triple.pure ⟨rfl, .inl ⟨_, rfl⟩⟩
    · rintro ex R' (⟨hx, -⟩ | ⟨hx, -⟩)
      · cases hx
      · cases hx

/-- The public `allocate` throws nothing but that the object is removed. -/
theorem quiet_allocate :
    Quiet (Allocatable.allocate release (.object e) r fromRelease) fun x =>
      Returned x ∨ ∃ id, x = .error (.objectNotRegisteredException id) := by
  refine (quiet_allocateWith hrelease).tryCatch (fun a _ => .inl ⟨a, rfl⟩) ?_
  rintro ex (⟨a, ha⟩ | ⟨ex', hx, ht⟩)
  · cases ha
  · cases hx
    rcases ht with rfl | ⟨⟨id, rfl⟩, -⟩
    · rw [if_pos rfl]
      exact Program.Quiet.pure (.inl ⟨_, rfl⟩)
    · rw [if_neg (by simp)]
      exact Program.Quiet.throw (.inr ⟨id, rfl⟩)

/-- The public `tryAllocate` -/
theorem quiet_tryAllocate :
    Quiet (Allocatable.tryAllocate release (.object e) r fromRelease) fun x =>
      Returned x ∨ ∃ ex, x = .error ex ∧ AllocateThrows true fromRelease ex := by
  refine (quiet_allocateWith hrelease).tryCatch (fun a _ => .inl ⟨a, rfl⟩) ?_
  rintro ex (⟨a, ha⟩ | ⟨ex', hx, ht⟩)
  · cases ha
  · cases hx
    split
    · exact Program.Quiet.pure (.inl ⟨_, rfl⟩)
    · exact Program.Quiet.throw (.inr ⟨ex, rfl, ht⟩)

end

theorem quiet_withCache {φ : Except Exception α → Prop} (h : Quiet body φ) :
    Quiet (withCache body) φ := by
  refine Quiet.bindReturned (fun R => ?_) fun _ => h.ensuring ?_
  · refine Triple.act fun s G hJ _ o ho => ?_
    by_cases hl : s.cacheLocked = true
    · rw [if_pos hl] at ho
      cases ho
    · rw [if_neg hl, mem_singleton] at ho
      subst ho
      exact ⟨R, hJ.congr rfl fun _ => ⟨rfl, rfl⟩, rfl, (), rfl⟩
  · exact (quiet_modify (f := fun s => { s with cacheLocked := false })
      fun s => ⟨rfl, fun _ => ⟨rfl, rfl⟩⟩).mono fun _ _ => trivial

section

variable (hrelease : ReleasesServer release)

include hrelease

/-- A request that waits for a type is offered an object. -/
theorem quiet_offer :
    Quiet (TypeEntry.offer release e r fromRelease) fun x => Returned x ∨
      (∃ id, x = .error (.objectNotRegisteredException id)) ∧ fromRelease = false := by
  refine Program.Quiet.tryCatch (φ := fun x => Returned x ∨
      ∃ ex, x = .error ex ∧ AllocateThrows true fromRelease ex) ?_
    (fun a _ => .inl ⟨a, rfl⟩) ?_
  · refine Quiet.bindRead fun canceled => ?_
    cases canceled with
    | true => exact Program.Quiet.pure (.inl ⟨_, rfl⟩)
    | false =>
      refine (quiet_tryAllocate hrelease).bind (fun taken _ => ?_) ?_
      · cases taken with
        | true => exact Program.Quiet.pure (.inl ⟨_, rfl⟩)
        | false =>
          refine quiet_getSession.bindReturned fun session => ?_
          split
          all_goals exact Program.Quiet.pure (.inl ⟨_, rfl⟩)
      · rintro ex (hex | ⟨ex', hx, ht⟩)
        · exact absurd hex not_returned_error
        · cases hx
          exact .inr ⟨ex, rfl, ht⟩
  · rintro ex (hex | ⟨ex', hx, ht⟩)
    · exact absurd hex not_returned_error
    · cases hx
      rcases ht with rfl | ⟨⟨id, rfl⟩, hf⟩
      · rw [if_pos rfl]
        exact Program.Quiet.pure (.inl ⟨_, rfl⟩)
      · rw [if_neg (by simp)]
        exact Program.Quiet.throw (.inr ⟨⟨id, rfl⟩, hf⟩)

theorem quiet_typeEntry_canTryAllocate
    (kept requests : List RequestPtr) :
    Quiet (TypeEntry.canTryAllocate release e fromRelease kept requests) fun x => Returned x ∨
      (∃ id, x = .error (.objectNotRegisteredException id)) ∧ fromRelease = false := by
  induction requests generalizing kept with
  | nil => exact Program.Quiet.pure (.inl ⟨_, rfl⟩)
  | cons request rest ih =>
    refine (quiet_offer hrelease).bind (fun o _ => ?_) ?_
    · have herase : Quiet (modify fun s => s.setType e.info.type fun t =>
          { t with requests := kept ++ rest }) Returned :=
        quiet_modify fun s => ⟨rfl, fun _ => ⟨rfl, rfl⟩⟩
      cases o with
      | erased =>
        exact herase.bindReturned fun _ => ih kept
      | taken =>
        exact herase.bindReturned fun _ => Program.Quiet.pure (.inl ⟨_, rfl⟩)
      | held => exact Program.Quiet.pure (.inl ⟨_, rfl⟩)
      | kept => exact ih _
    · rintro ex (hex | ⟨⟨id, hx⟩, hf⟩)
      · exact absurd hex not_returned_error
      · cases hx
        exact .inr ⟨⟨id, rfl⟩, hf⟩

/-- An object that was released is offered to the requests that wait for its type. -/
theorem quiet_canTryAllocate :
    Quiet (AllocatableObjectCache.canTryAllocate release e) Returned := by
  refine quiet_withCache (Quiet.bindRead fun t => ?_)
  cases t with
  | none => exact Program.Quiet.pure ⟨_, rfl⟩
  | some t =>
    refine (quiet_typeEntry_canTryAllocate hrelease [] t.requests).mono ?_
    rintro x (hx | ⟨-, hf⟩)
    · exact hx
    · cases hf

end

/-- A release of a server, given that what it offers leaves the tokens alone. -/
theorem releasesServer_releaseWith {offer : AllocatablePtr → Bool → Bool → Task Unit}
    (hoffer : ∀ a c d, Quiet (offer a c d) Returned) :
    ReleasesServer (Allocatable.releaseWith offer) := by
  intro p n fromRelease R
  refine keeps_releaseServer.bind ?_ ?_
  · rintro ⟨c, d⟩ R' ⟨-, rfl⟩
    cases fromRelease with
    | true => exact Triple.pure ⟨rfl, rfl⟩
    | false =>
      refine Keeps.of_quiet (hoffer _ _ _) ?_
      rintro _ ⟨⟨⟩, rfl⟩
      exact ⟨rfl, rfl⟩
  · rintro ex R' ⟨hex, -⟩
    exact absurd hex not_returned_error

theorem releasesServer_releaseQuietly : ReleasesServer Allocatable.releaseQuietly :=
  fun p n _ => releasesServer_releaseWith (fun _ _ _ => Program.Quiet.pure ⟨_, rfl⟩) p n true

theorem quiet_canTryAllocate_object :
    Quiet (Allocatable.canTryAllocate (.object e)) Returned :=
  quiet_canTryAllocate releasesServer_releaseQuietly

/-- What comes out of a queue was queued by an object. -/
theorem quiet_dequeue : Quiet (Allocatable.dequeue a) fun x =>
    ∃ q, x = .ok q ∧ ∀ b o, q = some (b, o) → ∃ e, b = .object e := by
  intro R
  refine Keeps.withLock fun self => Keeps.perform fun s G hJ => ?_
  rw [cons_add] at hJ
  have hself := hJ.eq_self
  have hl := (hJ.monitor a self _ (mem_cons_self _ _)).2
  have hqueued := hJ.queued a
  rw [hself] at hqueued ⊢
  cases hr : self.requests with
  | nil =>
    refine ⟨.monitor a { self with releasing := false } .settled ::ₘ R, ?_, _, R, rfl, rfl,
      none, rfl, by simp⟩
    rw [cons_add]
    exact hJ.set (f := fun x => { x with releasing := false }) rfl rfl hl hqueued
  | cons q rest =>
    refine ⟨.monitor a { self with requests := rest } .settled ::ₘ R, ?_, _, R, rfl, rfl,
      some q, rfl, ?_⟩
    · rw [cons_add]
      refine hJ.set (f := fun x => { x with requests := rest }) rfl rfl hl fun q' hq' => ?_
      exact hqueued q' (by rw [hr]; exact List.mem_cons_of_mem q hq')
    · rintro b o hq
      cases hq
      exact hqueued (b, o) (by rw [hr]; exact List.mem_cons_self)

theorem quiet_dequeueOfSession : Quiet (Allocatable.dequeueOfSession a) fun x =>
    ∃ q, x = .ok q ∧ ∀ b o, q = some (b, o) → ∃ e, b = .object e := by
  intro R
  refine Keeps.withLock fun self => Keeps.perform fun s G hJ => ?_
  rw [cons_add] at hJ
  have hself := hJ.eq_self
  have hl := (hJ.monitor a self _ (mem_cons_self _ _)).2
  have hqueued := hJ.queued a
  rw [hself] at hqueued ⊢
  dsimp only
  split
  · rename_i b o hfind
    refine ⟨.monitor a { self with
      requests := self.requests.eraseP (isOf self.session) } .settled ::ₘ R, ?_, _, R, rfl, rfl,
        some (b, o), rfl, ?_⟩
    · rw [cons_add]
      refine hJ.set (f := fun x => { x with
        requests := x.requests.eraseP (isOf self.session) }) rfl rfl hl ?_
      exact fun q hq => hqueued q (List.mem_of_mem_eraseP hq)
    · rintro b' o' hq
      cases hq
      exact hqueued _ (List.mem_of_find?_eq_some hfind)
  · refine ⟨.monitor a { self with releasing := false } .settled ::ₘ R, ?_, _, R, rfl, rfl,
      none, rfl, by simp⟩
    rw [cons_add]
    exact hJ.set (f := fun x => { x with releasing := false }) rfl rfl hl hqueued

/-- The inner loop of a release -/
theorem quiet_allocateMore : Quiet (allocateMore a) Returned := by
  refine Program.Quiet.loop (quiet_dequeueOfSession.bind ?_ ?_)
  · rintro q ⟨q', hx, hq⟩
    cases hx
    cases q with
    | none => exact Program.Quiet.pure ⟨(), rfl⟩
    | some q =>
      obtain ⟨b, request⟩ := q
      obtain ⟨e, rfl⟩ := hq b request rfl
      refine Quiet.bindReturned (Program.Quiet.tryCatch (φ := fun x => Returned x ∨
        ∃ id, x = .error (.objectNotRegisteredException id)) ?_ (fun a _ => ⟨a, rfl⟩) ?_) fun _ =>
          Program.Quiet.pure trivial
      · refine (quiet_allocate releasesServer_releaseQuietly).bind
          (fun _ _ => Program.Quiet.pure (.inl ⟨_, rfl⟩)) ?_
        rintro ex (hex | ⟨id, hx⟩)
        · exact absurd hex not_returned_error
        · cases hx
          exact .inr ⟨id, rfl⟩
      · rintro ex (hex | ⟨id, hx⟩)
        · exact absurd hex not_returned_error
        · cases hx
          exact quiet_cancel _
  · rintro ex ⟨q, hx, -⟩
    cases hx

/-- What follows a release always comes to its end. -/
theorem quiet_offerReleased (he : a = .object e ∨ ∃ p, a = .server p) (c d : Bool) :
    Quiet (Allocatable.offer a c d) Returned := by
  unfold Allocatable.offer
  cases d with
  | true =>
    refine Program.Quiet.loop (quiet_dequeue.bind ?_ ?_)
    · rintro q ⟨q', hx, hq⟩
      cases hx
      cases q with
      | none => exact Program.Quiet.pure ⟨(), rfl⟩
      | some q =>
        obtain ⟨b, request⟩ := q
        obtain ⟨e', rfl⟩ := hq b request rfl
        refine Program.Quiet.tryCatch (φ := fun x => Returned x ∨ request.isSome = true ∧
          ∃ id, x = .error (.objectNotRegisteredException id)) ?_ ?_ ?_
        · have hrest : ∀ allocated : Bool, Quiet (if allocated = true then do
                allocateMore a
                pure (some ())
              else pure none) fun x => Returned x ∨ request.isSome = true ∧
                ∃ id, x = .error (.objectNotRegisteredException id) := by
            intro allocated
            cases allocated with
            | false => exact Program.Quiet.pure (.inl ⟨none, rfl⟩)
            | true =>
              exact quiet_allocateMore.bindReturned fun _ =>
                Program.Quiet.pure (.inl ⟨some (), rfl⟩)
          cases request with
          | none =>
            exact quiet_canTryAllocate_object.bindReturned fun c => hrest c
          | some request =>
            refine (quiet_allocate releasesServer_releaseQuietly).bind (fun c _ => hrest c) ?_
            rintro ex (hex | ⟨id, hx⟩)
            · exact absurd hex not_returned_error
            · cases hx
              exact .inr ⟨rfl, id, rfl⟩
        · rintro o (⟨o', ho⟩ | ⟨-, id, hx⟩)
          · cases o with
            | none => trivial
            | some u => exact ⟨u, rfl⟩
          · cases hx
        · rintro ex (hex | ⟨hr, id, hx⟩)
          · exact absurd hex not_returned_error
          · cases hx
            cases request with
            | none => cases hr
            | some request =>
              exact (quiet_cancel _).bindReturned fun _ => Program.Quiet.pure trivial
    · rintro ex ⟨q, hx, -⟩
      cases hx
  | false =>
    cases c with
    | false => exact Program.Quiet.pure ⟨(), rfl⟩
    | true =>
      rcases he with rfl | ⟨p, rfl⟩
      · exact quiet_canTryAllocate_object.bindReturned fun _ => Program.Quiet.pure ⟨(), rfl⟩
      · exact Quiet.bindReturned (Program.Quiet.pure ⟨_, rfl⟩) fun _ => Program.Quiet.pure ⟨(), rfl⟩

theorem quiet_offerAny (a : AllocatablePtr) (c d : Bool) :
    Quiet (Allocatable.offer a c d) Returned := by
  cases a with
  | server p => exact quiet_offerReleased (e := ⟨0, ⟨⟨"", ""⟩, ""⟩, p⟩) (.inr ⟨p, rfl⟩) c d
  | object e => exact quiet_offerReleased (.inl rfl) c d

theorem releasesServer_release : ReleasesServer Allocatable.release :=
  releasesServer_releaseWith quiet_offerAny

/-- A release of an object returns, or throws `AllocationException` where the session does
not hold it. -/
theorem keeps_release (hR : Unclaimed e n R R') :
    Keeps R (Allocatable.release (.object e) n false) fun x R'' => R'' = R' ∧
      (x = .ok () ∨ ∃ reason, x = .error (.allocationException reason)) := by
  refine (keeps_releaseObject hR).bind ?_ ?_
  · rintro ⟨c, d⟩ R'' (⟨c', hx, rfl⟩ | ⟨reason, hx, -⟩)
    · cases hp : e.parent with
      | none =>
        have hdues : dues e n + R' = R' := by
          unfold dues
          rw [hp, zero_add]
        simp only [AllocatablePtr.parent, hp, hdues, Option.map_none]
        refine Keeps.of_quiet (quiet_offerAny _ _ _) ?_
        rintro _ ⟨⟨⟩, rfl⟩
        exact ⟨rfl, .inl rfl⟩
      | some p =>
        have hdues : dues e n + R' = .owes p n ::ₘ R' := by
          unfold dues
          rw [hp, singleton_add]
        simp only [AllocatablePtr.parent, hp, hdues, Option.map_some]
        refine (releasesServer_release p n false R').conseq ?_
        rintro x R'' ⟨rfl, rfl⟩
        exact ⟨rfl, .inl rfl⟩
    · cases hx
  · rintro ex R'' (⟨c', hx, -⟩ | ⟨reason, hx, rfl⟩)
    · cases hx
    · cases hx
      exact ⟨rfl, .inr ⟨reason, rfl⟩⟩

theorem unclaimed_self : Unclaimed e n R R := fun _ _ _ _ h _ _ => h

theorem quiet_release : Quiet (Allocatable.release (.object e) n false) fun x =>
    x = .ok () ∨ ∃ reason, x = .error (.allocationException reason) :=
  fun _ => keeps_release unclaimed_self

theorem quiet_add {info : ObjectInfo} :
    Quiet (AllocatableObjectCache.add info p) fun _ => True := by
  refine quiet_withCache (Quiet.bindRead fun found => ?_)
  cases found with
  | some _ => exact Program.Quiet.pure trivial
  | none =>
    refine Quiet.bindAny (Quiet.perform (φ := Returned) (fun _ => .refl _) fun _ => ⟨_, rfl⟩)
      fun entry => ?_
    refine Quiet.bindRead fun t => ?_
    have hadd : Quiet (TypeEntry.add Allocatable.release entry) fun _ => True := by
      refine Quiet.bindAny (quiet_modify fun s => ⟨rfl, fun _ => ⟨rfl, rfl⟩⟩) fun _ => ?_
      refine Quiet.bindRead fun requests => ?_
      split
      · exact (quiet_typeEntry_canTryAllocate releasesServer_release [] requests).bindAny fun _ =>
          Program.Quiet.pure trivial
      · exact Program.Quiet.pure trivial
    split
    · exact Quiet.bindAny (quiet_modify fun s => ⟨rfl, fun _ => ⟨rfl, rfl⟩⟩) fun _ => hadd
    · exact hadd

theorem quiet_get {id : Identity} : Quiet (AllocatableObjectCache.get id) fun _ => True := by
  refine quiet_withCache (Quiet.bindRead fun found => ?_)
  cases found with
  | some _ => exact Program.Quiet.pure trivial
  | none => exact Program.Quiet.throw trivial

theorem quiet_remove {id : Identity} : Quiet (AllocatableObjectCache.remove id) fun _ => True := by
  refine Quiet.bindAny (φ := fun _ => True) (quiet_withCache (Quiet.bindRead fun found => ?_))
    fun entry => ?_
  · cases found with
    | none => exact Program.Quiet.throw trivial
    | some entry =>
      refine Quiet.bindAny (quiet_modify fun s => ⟨rfl, fun _ => ⟨rfl, rfl⟩⟩) fun _ => ?_
      refine Program.Quiet.bind (φ := fun _ => True) ?_ (fun last _ => ?_) fun _ _ => trivial
      · refine Quiet.bindAny (quiet_modify fun s => ⟨rfl, fun _ => ⟨rfl, rfl⟩⟩) fun _ => ?_
        refine Quiet.bindRead fun t => ?_
        split
        · exact (Quiet.forM fun r _ => quiet_cancel _).bindAny fun _ => Program.Quiet.pure trivial
        · exact Program.Quiet.pure trivial
      · split
        · exact Quiet.bindAny (quiet_modify fun s => ⟨rfl, fun _ => ⟨rfl, rfl⟩⟩) fun _ =>
            Program.Quiet.pure trivial
        · exact Program.Quiet.pure trivial
  · intro R
    refine Triple.bind (Q := fun x R' => R' = R) ?_ ?_ fun _ _ hR => ⟨hR, trivial⟩
    · refine Keeps.withLock fun self => Keeps.perform fun s G hJ =>
        ⟨.monitor (.object entry) { self with destroyed := true } .settled ::ₘ R, ?_, _, R,
          rfl, rfl⟩
      rw [cons_add] at hJ ⊢
      have hqueued := hJ.queued (.object entry)
      rw [hJ.eq_self] at hqueued
      exact hJ.set (f := fun x => { x with destroyed := true }) rfl rfl
        (hJ.monitor _ self _ (mem_cons_self _ _)).2 hqueued
    · rintro session R' rfl
      cases session with
      | none => exact Triple.pure ⟨rfl, trivial⟩
      | some session =>
        refine (quiet_release R').tryCatch (fun _ _ h => ⟨h.1, trivial⟩) ?_
        rintro ex R'' ⟨rfl, -⟩
        split
        · exact Triple.pure ⟨rfl, trivial⟩
        · exact Triple.throw ⟨rfl, trivial⟩

theorem quiet_tryObjects (objects : List AllocatableObjectEntry) (k : Nat) :
    Quiet (AllocatableObjectCache.tryObjects r objects k) fun _ => True := by
  induction objects generalizing k with
  | nil => exact Program.Quiet.pure trivial
  | cons q objects ih =>
    refine Quiet.bindRead fun c => ?_
    split
    · refine (quiet_tryAllocate releasesServer_release).bindAny fun taken => ?_
      split
      · exact Program.Quiet.pure trivial
      · exact ih _
    · exact ih _

theorem quiet_choice {f : State → List α} :
    Quiet (.act .internal fun s => (f s).map fun l => (.ok l, s)) Returned := by
  intro R
  refine Triple.act fun s G hJ _ o ho => ?_
  obtain ⟨l, -, rfl⟩ := mem_map.mp ho
  exact ⟨R, hJ, rfl, l, rfl⟩

theorem quiet_allocateByType {type : String} :
    Quiet (AllocatableObjectCache.allocateByType type r) fun _ => True := by
  refine quiet_withCache (Quiet.bindRead fun found => ?_)
  cases found with
  | none => exact Program.Quiet.throw trivial
  | some t =>
    refine Program.Quiet.bind (quiet_choice (f := fun _ => t.objects.permutations))
      (fun objects _ => ?_) fun _ _ => trivial
    refine Program.Quiet.tryCatch (φ := fun _ => True) ?_ (fun _ _ => trivial) fun ex _ => ?_
    · refine (quiet_tryObjects objects 0).bindAny fun k => ?_
      split
      · exact Program.Quiet.pure trivial
      · exact Program.Quiet.throw trivial
      · refine quiet_pending.bindAny fun c => ?_
        split
        · exact (quiet_modify (neutral_setType _)).mono fun _ _ => trivial
        · exact Program.Quiet.pure trivial
    · split
      · exact Program.Quiet.pure trivial
      · exact Program.Quiet.throw trivial

/-- Once it is flagged as destroyed, a session releases all it holds. -/
theorem keeps_releaseAll {l : List AllocatablePtr} (hl : ∀ a ∈ l, ∃ e, a = .object e) :
    Keeps (.destroying n l ::ₘ R) (l.forM fun a =>
      catchAllocation (Allocatable.release a n false) (pure ())) fun x R' =>
        x = .ok () ∧ R' = .destroying n [] ::ₘ R := by
  induction l with
  | nil => exact Triple.pure ⟨rfl, rfl⟩
  | cons a l ih =>
    rw [List.forall_mem_cons] at hl
    obtain ⟨e, rfl⟩ := hl.1
    have hunclaimed : Unclaimed e n (.destroying n (.object e :: l) ::ₘ R)
        (.destroying n l ::ₘ R) := by
      intro s G self b hJ hs hb
      rw [cons_add, cons_swap] at hJ ⊢
      have hself : s.allocatables (.object e) = self := by
        rw [cons_swap] at hJ
        exact hJ.eq_self
      refine hJ.forget (fun a ha => ?_) fun e' hc he' => ?_
      · exact (hJ.destroying n _ (mem_cons_self _ _)).2.2 (List.mem_cons_of_mem _ ha)
      · rcases List.mem_cons.mp he' with he | he'
        · cases he
          rcases hc with hc | ⟨x, hm⟩
          · exact absurd (hself ▸ hc) hs
          · rw [cons_swap] at hm hJ
            rcases mem_cons.mp hm with hx | hm
            · cases hx
              exact absurd rfl hb
            · exact absurd hm (hJ.not_monitor _ _)
        · exact he'
    refine Keeps.next (P := fun R' => R' = .destroying n l ::ₘ R) ?_ ?_
    · refine (keeps_release hunclaimed).tryCatch (fun _ _ h => ⟨rfl, h.1⟩) ?_
      rintro ex R' ⟨rfl, hx | ⟨reason, hx⟩⟩
      · cases hx
      · cases hx
        exact Triple.pure ⟨rfl, rfl⟩
    · rintro R' rfl
      exact ih hl.2

theorem quiet_destroyImpl : Quiet (SessionI.destroyImpl n) fun _ => True := by
  intro R
  refine Triple.bind (Q := fun x R' => (∃ l, x = .ok () ∧ R' = .destroying n l ::ₘ R) ∨
    (∃ ex, x = .error ex ∧ R' = R)) ?_ ?_ ?_
  · refine Triple.act fun s G hJ _ o ho => ?_
    by_cases hd : (s.sessions n).destroyed = true
    · rw [if_pos hd, mem_singleton] at ho
      subst ho
      exact ⟨R, hJ, .inr ⟨_, rfl, rfl⟩⟩
    · rw [if_neg hd, mem_singleton] at ho
      subst ho
      refine ⟨.destroying n (s.sessions n).allocations ::ₘ R, ?_, .inl ⟨_, rfl, rfl⟩⟩
      rw [cons_add]
      exact hJ.destroy (by simpa using hd)
  · rintro _ R' (⟨l, -, rfl⟩ | ⟨ex, hx, -⟩)
    · refine Keeps.bindReturned (quiet_choice (f := fun s => (s.sessions n).requests.permutations))
        fun requests => ?_
      refine Keeps.bindReturned (Quiet.forM fun r _ => quiet_cancel _) fun _ => ?_
      refine Keeps.bindReturned (quiet_modify fun s => same_setSession (fun _ => rfl) fun _ => rfl)
        fun _ => ?_
      refine Triple.bind (Q := fun x R' => ∃ l', x = .ok l' ∧
        R' = .destroying n l' ::ₘ R ∧ ∀ a ∈ l', ∃ e, a = .object e) ?_ ?_ ?_
      · refine Triple.act fun s G hJ _ o ho => ?_
        obtain ⟨l', hl', rfl⟩ := mem_map.mp ho
        have hperm := List.mem_permutations.mp hl'
        rw [cons_add] at hJ
        obtain ⟨-, hobject, hsub⟩ := hJ.destroying n l (mem_cons_self _ _)
        refine ⟨.destroying n l' ::ₘ R, ?_, l', rfl, rfl, fun a ha => hobject a (hperm.subset ha)⟩
        rw [cons_add]
        exact hJ.forget hperm.subset fun e _ he => hperm.symm.subset (hsub he)
      · rintro l' R' ⟨l'', hx, rfl, hobject⟩
        cases hx
        refine Keeps.next (keeps_releaseAll hobject) ?_
        rintro R' rfl
        refine Keeps.perform fun s G hJ => ⟨R, ?_, rfl, trivial⟩
        rw [cons_add] at hJ
        exact hJ.finish
      · rintro ex R' ⟨l', hx, -⟩
        cases hx
    · cases hx
  · rintro ex R' (⟨l, hx, -⟩ | ⟨ex', -, rfl⟩)
    · cases hx
    · exact ⟨rfl, trivial⟩

/-- Every operation leaves the tokens it finds: at its start and its end it owns none. -/
theorem quiet_run (o : Operation) : Quiet o.run fun _ => True := by
  have hbyId : ∀ {f : AllocatableObjectEntry → RequestPtr → Task Unit} {session id},
      (∀ entry request, Quiet (f entry request) fun _ => True) →
      Quiet (do
        let entry ← AllocatableObjectCache.get id
        let request ← SessionI.newRequest session
        f entry request) fun _ => True := by
    intro f session id hf
    refine quiet_get.bindAny fun entry => ?_
    exact Quiet.bindAny (Quiet.perform (φ := Returned) (fun _ => .refl _) fun _ => ⟨_, rfl⟩)
      fun request => hf entry request
  cases o with
  | allocateObjectById session id =>
    exact hbyId fun entry request => (quiet_allocate releasesServer_release).bindAny fun _ =>
      Program.Quiet.pure trivial
  | tryAllocateObject session id =>
    exact hbyId fun entry request => (quiet_tryAllocate releasesServer_release).bindAny fun _ =>
      Program.Quiet.pure trivial
  | allocateObjectByType session type =>
    exact Quiet.bindAny (Quiet.perform (φ := Returned) (fun _ => .refl _) fun _ => ⟨_, rfl⟩)
      fun request => quiet_allocateByType
  | releaseObject session id =>
    exact quiet_get.bindAny fun entry => quiet_release.mono fun _ _ => trivial
  | setAllocationTimeout session timeout =>
    refine Program.Quiet.mono (φ := Returned) (quiet_modify fun s => ?_) fun _ _ => trivial
    exact same_setSession (fun _ => rfl) fun _ => rfl
  | destroy session => exact quiet_destroyImpl
  | add info server => exact quiet_add
  | remove id => exact quiet_remove
  | enable server enabled =>
    exact (quiet_modify (f := fun s => { s with
      enabled := Function.update s.enabled server enabled })
      fun s => ⟨rfl, fun _ => ⟨rfl, rfl⟩⟩).mono fun _ _ => trivial
  | runTimerTask request => exact quiet_runTimerTask.mono fun _ _ => trivial

end actions

/-- What the registry promises while no operation is running. A session that is not destroyed
lists exactly what it holds, so that no allocatable is in the books of two of them. -/
structure Exclusive (s : State) : Prop where
  holder : ∀ a n, (s.sessions n).destroyed = false →
    a ∈ (s.sessions n).allocations → (s.allocatables a).session = some n
  listed : ∀ e n, (s.allocatables (.object e)).session = some n →
    .object e ∈ (s.sessions n).allocations
  server : ∀ e n, e.server.allocatable = true → (s.allocatables (.object e)).session = some n →
    (s.allocatables (.server e.server)).session = some n
  count : ∀ p : ServerEntry, p.allocatable = true → (s.held p).Finite ∧
    (s.allocatables (.server p)).count = (s.held p).ncard
  destroyed : ∀ a n, (s.allocatables a).session = some n → (s.sessions n).destroyed = false

theorem Accounts.exclusive {s : State} (h : Accounts s 0) : Exclusive s := by
  have hobject : ∀ e n, (s.allocatables (.object e)).session = some n →
      (s.sessions n).destroyed = false := by
    intro e n hs
    by_contra hd
    obtain ⟨l, hl, -⟩ := (h.booked e n (.inl hs)).2 (by simpa using hd)
    cases hl
  constructor
  · intro a n hd ha
    obtain ⟨-, hs | ⟨x, c, hm, -⟩⟩ := h.listed a n hd ha
    · exact hs
    · cases hm
  · exact fun e n hs => (h.booked e n (.inl hs)).1 (hobject e n hs)
  · intro e n hallocatable hs
    exact h.child e e.server n (if_pos hallocatable) hs
  · intro p _
    refine ⟨h.finite p, ?_⟩
    have hp := h.count p
    rw [owed_zero] at hp
    simpa using hp
  · intro a n hs
    cases a with
    | object e => exact hobject e n hs
    | server p =>
      -- a server that is held has a held object, which is held by the same session
      have hcount := h.count p
      have hfree := h.free p
      rw [owed_zero] at hcount
      have hpos : (s.held p).ncard ≠ 0 := by
        intro hzero
        rw [hzero] at hcount
        rw [hfree hcount] at hs
        cases hs
      obtain ⟨e, hp, he⟩ := Set.nonempty_of_ncard_ne_zero hpos
      obtain ⟨m, hm⟩ := Option.ne_none_iff_exists'.mp he
      have hsame := h.child e p m hp hm
      rw [hs] at hsame
      cases hsame
      exact hobject e n hm

/-- In a run where no removed object is offered to a request that waits for its type, the
registry keeps its promise whenever no operation is running. -/
theorem exclusive_of_offersRegistered (enabled : ServerEntry → Bool) (m : Registry)
    (h : Reach move (Machine.Allows OffersRegistered) (fresh enabled) m)
    (hq : m.quiescent = true) : Exclusive m.shared := by
  have hrun : ∀ o : Operation, Keeps 0 o.run fun _ R => R = 0 ∧ True :=
    fun o => (quiet_run o 0).conseq fun _ _ hR => ⟨hR.1, trivial⟩
  exact (Machine.invariant_of_quiescent hrun (Accounts.fresh enabled) h hq).exclusive

instance (s : State) (l : Point) : Decidable (OffersRegistered s l) :=
  match l with
  | .internal => isTrue trivial
  | .checkAllocatable e true true =>
    inferInstanceAs (Decidable ((s.allocatables (.object e)).destroyed = false))
  | .checkAllocatable _ false _ => isTrue trivial
  | .checkAllocatable _ true false => isTrue trivial

/-- Operations that run one after the other, each with the number of its steps. -/
def oneByOne (l : List (Operation × Nat)) : List (Move Operation) :=
  l.zipIdx.flatMap fun o => .start o.1.1 :: List.replicate o.1.2 (.step o.2 0)

/-- Two sessions ask for the same object; the first one is destroyed and the second gets it. -/
def handOver : List (Move Operation) :=
  let a : ObjectInfo := ⟨⟨"a", ""⟩, "t"⟩
  oneByOne [(.add a ⟨0, true⟩, 8), (.allocateObjectById 1 a.id, 16),
    (.allocateObjectById 2 a.id, 9), (.destroy 1, 35)]

theorem exclusive_of_handOver : ∃ m : Registry,
    Reach move (Machine.Allows OffersRegistered) (fresh fun _ => true) m ∧
    m.quiescent = true ∧ Exclusive m.shared := by
  let test (m : Registry) (l : Move Operation) : Bool := decide (m.Allows OffersRegistered l)
  have hrun : (run (fun m l => if test m l then move m l else none)
      (fresh fun _ => true) handOver).any (fun m => m.quiescent) = true := by
    decide +kernel
  obtain ⟨m, h, hq⟩ := Reach.exists_of_runWhere (fun _ _ => of_decide_eq_true) hrun
  exact ⟨m, h, hq, exclusive_of_offersRegistered _ m h hq⟩

/-- Session 1 holds an object of server 0 and one of server 1. Session 2 waits for the type of
an object of server 0 that is removed; then session 1 is destroyed. -/
def removedWhileQueued : List (Move Operation) :=
  let a : ObjectInfo := ⟨⟨"a", ""⟩, "t1"⟩
  let b : ObjectInfo := ⟨⟨"b", ""⟩, "t2"⟩
  let c : ObjectInfo := ⟨⟨"c", ""⟩, "t3"⟩
  let d : ObjectInfo := ⟨⟨"d", ""⟩, "t3"⟩
  oneByOne [(.add a ⟨0, true⟩, 8), (.add b ⟨1, true⟩, 8), (.add c ⟨0, true⟩, 8),
    (.add d ⟨1, true⟩, 7), (.allocateObjectById 1 b.id, 16), (.allocateObjectById 1 a.id, 16),
    (.allocateObjectByType 2 "t3", 17), (.remove c.id, 9), (.destroy 1, 33)]

/-- The release of the server meets the removed object, whose attempt was queued without a
request, and the rest of what the session holds is never released. -/
theorem not_exclusive_of_removedWhileQueued : ¬ ∀ (enabled : ServerEntry → Bool) (m : Registry),
    Reach move Any (fresh enabled) m → m.quiescent = true →
    Exclusive m.shared := by
  intro h
  let held : AllocatablePtr := .object ⟨1, ⟨⟨"b", ""⟩, "t2"⟩, ⟨1, true⟩⟩
  have hrun : (run move (fresh fun _ => true) removedWhileQueued).any
      (fun m => m.quiescent && (m.shared.allocatables held).session = some 1 &&
        (m.shared.sessions 1).destroyed) = true := by decide +kernel
  obtain ⟨m, hreach, hm⟩ := Reach.exists_of_run hrun
  simp only [Bool.and_eq_true, decide_eq_true_eq] at hm
  obtain ⟨⟨hq, hs⟩, hd⟩ := hm
  have hfalse := (h _ m hreach hq).destroyed held 1 hs
  rw [hd] at hfalse
  cases hfalse

end Ice.IceGrid
