import Mathlib.Data.Set.Card
import Ice.IceGrid.AllocatableObjectCache

/-!
# Who holds what, and who still has to give back

A thread between two actions owns tokens: the monitor it is in, with what it has read
there; each release it owes a server; and the allocations that are left to release of
the session it destroys. `Accounts` relates the shared state to all tokens: a server
counts its held objects and what is owed to it, a held object is in the books of its
session, and what a destroyed session still holds is left to release.
-/

namespace Ice.IceGrid

open Multiset (countP_cons_of_neg countP_eq_zero mem_add mem_cons mem_cons_of_mem mem_cons_self
  singleton_add)
open State (setAllocatable_of_ne setAllocatable_self setSession_of_ne)

/-- Where the books of a session may differ from `_session` of a locked object. -/
inductive Book
  | settled
  | adding (session : SessionPtr)
  | removing (session : SessionPtr)
  deriving DecidableEq

/-- What a thread owns. -/
inductive Token
  | monitor (a : AllocatablePtr) (self : Allocatable) (book : Book)
  | owes (p : ServerEntry) (session : SessionPtr)
  | destroying (session : SessionPtr) (left : List AllocatablePtr)
  deriving DecidableEq

namespace Token

/-- A monitor has one thread in it and a session is destroyed once. -/
def key : Token → Option (AllocatablePtr ⊕ SessionPtr)
  | monitor a _ _ => some (.inl a)
  | owes _ _ => none
  | destroying n _ => some (.inr n)

/-- A release owed to the server `p`. -/
def isOwedTo (p : ServerEntry) : Token → Bool
  | owes q _ => q = p
  | _ => false

end Token

/-- How many releases are owed to a server. -/
def owed (R : Multiset Token) (p : ServerEntry) : Nat := R.countP fun t => t.isOwedTo p

/-- No two tokens have the same key. -/
def Unique (R : Multiset Token) : Prop := ∀ k, R.countP (fun t => t.key = some k) ≤ 1

section tokens

variable {G : Multiset Token} {t : Token} {k : AllocatablePtr ⊕ SessionPtr}
  {a : AllocatablePtr} {self : Allocatable} {b : Book} {p q : ServerEntry} {n : SessionPtr}
  {l : List AllocatablePtr}

@[simp] theorem owed_zero : owed 0 p = 0 := Multiset.countP_zero _

@[simp] theorem owed_monitor : owed (.monitor a self b ::ₘ G) p = owed G p :=
  countP_cons_of_neg (p := fun t : Token => t.isOwedTo p) G (by simp [Token.isOwedTo])

@[simp] theorem owed_destroying : owed (.destroying n l ::ₘ G) p = owed G p :=
  countP_cons_of_neg (p := fun t : Token => t.isOwedTo p) G (by simp [Token.isOwedTo])

@[simp] theorem owed_owes_self : owed (.owes p n ::ₘ G) p = owed G p + 1 :=
  Multiset.countP_cons_of_pos (p := fun t : Token => t.isOwedTo p) G (by simp [Token.isOwedTo])

theorem owed_owes_of_ne (h : q ≠ p) : owed (.owes q n ::ₘ G) p = owed G p :=
  countP_cons_of_neg (p := fun t : Token => t.isOwedTo p) G
    (by simpa [Token.isOwedTo] using h)

theorem mem_monitor (h : t.key ≠ some (.inl a)) : t ∈ Token.monitor a self b ::ₘ G ↔ t ∈ G := by
  rw [mem_cons, or_iff_right]
  rintro rfl
  exact h rfl

theorem mem_cons_unsettled {self' : Allocatable} (hb : b = .adding n ∨ b = .removing n) :
    Token.monitor a self b ∈ Token.monitor a self' .settled ::ₘ G ↔ .monitor a self b ∈ G := by
  rw [mem_cons, or_iff_right]
  rintro he
  cases he
  rcases hb with hb | hb <;> cases hb

theorem unique_zero : Unique 0 := fun _ => by simp

/-- A token with a key is the only one with that key. -/
theorem unique_cons (hk : t.key = some k) :
    Unique (t ::ₘ G) ↔ Unique G ∧ ∀ t' ∈ G, t'.key ≠ some k := by
  have hcount : ∀ k', (t ::ₘ G).countP (fun t => t.key = some k') =
      G.countP (fun t => t.key = some k') + if k' = k then 1 else 0 := by
    intro k'
    rw [Multiset.countP_cons, hk]
    simp only [Option.some.injEq, eq_comm]
  constructor
  · intro h
    have hzero : G.countP (fun t => t.key = some k) = 0 := by
      have hle := h k
      rw [hcount, if_pos rfl] at hle
      omega
    refine ⟨fun k' => ?_, countP_eq_zero.mp hzero⟩
    exact (Multiset.countP_le_of_le _ (Multiset.le_cons_self _ _)).trans (h k')
  · rintro ⟨h, hne⟩ k'
    rw [hcount]
    by_cases he : k' = k
    · subst he
      rw [countP_eq_zero.mpr hne, if_pos rfl]
    · rw [if_neg he]
      exact h k'

@[simp] theorem unique_owes : Unique (.owes p n ::ₘ G) ↔ Unique G := by
  unfold Unique
  have hcount : ∀ k, (Token.owes p n ::ₘ G).countP (fun t => t.key = some k) =
      G.countP fun t => t.key = some k := fun k =>
    countP_cons_of_neg (p := fun t : Token => t.key = some k) G (by simp [Token.key])
  simp only [hcount]

end tokens

/-- The objects of a server that are held. -/
def State.held (s : State) (p : ServerEntry) : Set AllocatableObjectEntry :=
  {e | e.parent = some p ∧ (s.allocatables (.object e)).session ≠ none}

/-- A session holds an object, or is about to. -/
def Claims (s : State) (R : Multiset Token) (e : AllocatableObjectEntry) (n : SessionPtr) : Prop :=
  (s.allocatables (.object e)).session = some n ∨
    ∃ self, Token.monitor (.object e) self (.adding n) ∈ R

/-- What a claim of a session rests on: its books, or the thread that destroys it. -/
def Booked (s : State) (R : Multiset Token) (e : AllocatableObjectEntry) (n : SessionPtr) : Prop :=
  ((s.sessions n).destroyed = false → .object e ∈ (s.sessions n).allocations) ∧
    ((s.sessions n).destroyed = true → ∃ l, Token.destroying n l ∈ R ∧ .object e ∈ l)

theorem Booked.mono {s s' : State} {R R' : Multiset Token} {e : AllocatableObjectEntry}
    {n : SessionPtr} (h : Booked s R e n)
    (hd : (s'.sessions n).destroyed = (s.sessions n).destroyed)
    (ha : (s.sessions n).allocations ⊆ (s'.sessions n).allocations)
    (hm : ∀ l, Token.destroying n l ∈ R → Token.destroying n l ∈ R') : Booked s' R' e n := by
  unfold Booked
  rw [hd]
  refine ⟨fun hf => ha (h.1 hf), fun ht => ?_⟩
  obtain ⟨l, hl, he⟩ := h.2 ht
  exact ⟨l, hm l hl, he⟩

/-- The invariant that ties the shared state to the tokens of all threads. -/
structure Accounts (s : State) (R : Multiset Token) : Prop where
  monitor : ∀ a self b, .monitor a self b ∈ R → s.allocatables a = self ∧ self.locked = true
  unique : Unique R
  finite : ∀ p, (s.held p).Finite
  count : ∀ p, (s.allocatables (.server p)).count =
    (s.held p).ncard + owed R p
  owes : ∀ p n, .owes p n ∈ R → (s.allocatables (.server p)).session = some n
  child : ∀ e p n, e.parent = some p → (s.allocatables (.object e)).session = some n →
    (s.allocatables (.server p)).session = some n
  free : ∀ p, (s.allocatables (.server p)).count = 0 →
    (s.allocatables (.server p)).session = none
  object : ∀ e, (s.allocatables (.object e)).count =
    if (s.allocatables (.object e)).session = none then 0 else 1
  booked : ∀ e n, Claims s R e n → Booked s R e n
  listed : ∀ a n, (s.sessions n).destroyed = false → a ∈ (s.sessions n).allocations →
    (∃ e, a = .object e) ∧ ((s.allocatables a).session = some n ∨
      ∃ self b, Token.monitor a self b ∈ R ∧ (b = .adding n ∨ b = .removing n))
  destroying : ∀ n l, .destroying n l ∈ R → (s.sessions n).destroyed = true ∧
    (∀ a ∈ (s.sessions n).allocations, ∃ e, a = .object e) ∧ l ⊆ (s.sessions n).allocations
  queued : ∀ a, ∀ q ∈ (s.allocatables a).requests, ∃ e, q.1 = .object e

namespace Accounts

variable {s s' : State} {R G : Multiset Token} {a : AllocatablePtr} {self : Allocatable}
  {b : Book} {e : AllocatableObjectEntry} {p : ServerEntry} {n : SessionPtr}

/-- A fresh registry has nothing to account for. -/
theorem fresh (enabled : ServerEntry → Bool) : Accounts { enabled } 0 where
  monitor := by intro a self b h; cases h
  unique := unique_zero
  finite := by intro p; simp [State.held]
  count := by intro p; simp [State.held]
  owes := by intro p n h; cases h
  child := by intro e p n _ h; cases h
  free := by intro p _; rfl
  object := by intro e; rfl
  booked := by
    intro e n h
    rcases h with h | ⟨self, h⟩
    · cases h
    · cases h
  listed := by intro a n _ h; cases h
  destroying := by intro n l h; cases h
  queued := by intro a q h; cases h

section

variable (h : Accounts s (.monitor a self b ::ₘ G))

include h

/-- What the monitor's owner has read is what is there. -/
theorem eq_self : s.allocatables a = self :=
  (h.monitor a self b (mem_cons_self _ _)).1

/-- No other token speaks of a monitor that is owned. -/
theorem not_monitor (self' : Allocatable) (b' : Book) :
    Token.monitor a self' b' ∉ G :=
  fun hm => ((unique_cons rfl).mp h.unique).2 _ hm rfl

end

/-- Sessions and counts stay what they are: only the monitors need a look. -/
theorem of_same {R' : Multiset Token} (h : Accounts s R)
    (hsame : ∀ a, (s'.allocatables a).session = (s.allocatables a).session ∧
      (s'.allocatables a).count = (s.allocatables a).count)
    (hsessions : ∀ n, (s'.sessions n).destroyed = (s.sessions n).destroyed ∧
      (s'.sessions n).allocations = (s.sessions n).allocations)
    (hmonitor : ∀ a self b, .monitor a self b ∈ R' →
      s'.allocatables a = self ∧ self.locked = true)
    (hunique : Unique R')
    (howed : ∀ p, owed R' p = owed R p)
    (howes : ∀ p n, .owes p n ∈ R' → .owes p n ∈ R)
    (hdestroying : ∀ n l, .destroying n l ∈ R' ↔ .destroying n l ∈ R)
    (hadding : ∀ a n self, .monitor a self (.adding n) ∈ R' →
      ∃ self, .monitor a self (.adding n) ∈ R)
    (hnamed : ∀ a n self b, .monitor a self b ∈ R → (b = .adding n ∨ b = .removing n) →
      ∃ self, .monitor a self b ∈ R')
    (hqueued : ∀ a, ∀ q ∈ (s'.allocatables a).requests, ∃ e, q.1 = .object e) :
    Accounts s' R' := by
  have hheld : s'.held = s.held := by
    funext p
    ext e
    simp only [State.held, Set.mem_ofPred_eq, (hsame _).1]
  constructor
  · exact hmonitor
  · exact hunique
  · intro p
    rw [hheld]
    exact h.finite p
  · intro p
    rw [(hsame _).2, hheld, howed]
    exact h.count p
  · intro p n hm
    rw [(hsame _).1]
    exact h.owes p n (howes p n hm)
  · intro e p n hp hs
    rw [(hsame _).1] at hs ⊢
    exact h.child e p n hp hs
  · intro p hp
    rw [(hsame _).2] at hp
    rw [(hsame _).1]
    exact h.free p hp
  · intro e
    rw [(hsame _).2, (hsame _).1]
    exact h.object e
  · intro e n hc
    have hc' : Claims s R e n := by
      rcases hc with hs | ⟨self, hm⟩
      · exact .inl (by rwa [(hsame _).1] at hs)
      · exact .inr (hadding _ n self hm)
    refine (h.booked e n hc').mono (hsessions n).1 ?_ fun l => (hdestroying n l).mpr
    rw [(hsessions n).2]
    exact List.Subset.refl _
  · intro a n hd ha
    rw [(hsessions n).1] at hd
    rw [(hsessions n).2] at ha
    obtain ⟨hobj, hs | ⟨self, b, hm, hb⟩⟩ := h.listed a n hd ha
    · exact ⟨hobj, .inl (by rwa [(hsame _).1])⟩
    · obtain ⟨self', hm'⟩ := hnamed a n self b hm hb
      exact ⟨hobj, .inr ⟨self', b, hm', hb⟩⟩
  · intro n l hm
    rw [(hsessions n).1, (hsessions n).2]
    exact h.destroying n l ((hdestroying n l).mp hm)
  · exact hqueued

/-- What is not an allocatable or the books of a session does not matter. -/
theorem congr (h : Accounts s R) (ha : s'.allocatables = s.allocatables)
    (hs : ∀ n, (s'.sessions n).destroyed = (s.sessions n).destroyed ∧
      (s'.sessions n).allocations = (s.sessions n).allocations) : Accounts s' R := by
  refine h.of_same (fun a => ?_) hs (fun a self b hm => ?_) h.unique (fun _ => rfl)
    (fun _ _ => id) (fun _ _ => Iff.rfl) (fun _ _ self hm => ⟨self, hm⟩)
    (fun _ _ self _ hm _ => ⟨self, hm⟩) (fun a q hq => ?_)
  · rw [ha]
    exact ⟨rfl, rfl⟩
  · rw [ha]
    exact h.monitor a self b hm
  · rw [ha] at hq
    exact h.queued a q hq

variable {f : Allocatable → Allocatable}

/-- Only the monitor of one allocatable is entered, left or changed. -/
theorem of_monitor {R' : Multiset Token} (h : Accounts s R)
    (hsession : (f (s.allocatables a)).session = (s.allocatables a).session)
    (hcount : (f (s.allocatables a)).count = (s.allocatables a).count)
    (hqueued : ∀ q ∈ (f (s.allocatables a)).requests, ∃ e, q.1 = .object e)
    (hmine : ∀ self b, .monitor a self b ∈ R' → f (s.allocatables a) = self ∧ self.locked = true)
    (hunique : Unique R') (howed : ∀ p, owed R' p = owed R p)
    (hothers : ∀ t : Token, t.key ≠ some (.inl a) → (t ∈ R' ↔ t ∈ R))
    (hbook : ∀ n b, b = .adding n ∨ b = .removing n →
      ((∃ self, .monitor a self b ∈ R') ↔ ∃ self, .monitor a self b ∈ R)) :
    Accounts (s.setAllocatable a f) R' := by
  have hother {a' : AllocatablePtr} (he : a' ≠ a) (self : Allocatable) (b : Book) :
      Token.monitor a' self b ∈ R' ↔ Token.monitor a' self b ∈ R :=
    hothers _ (by simpa [Token.key] using he)
  refine h.of_same (fun a' => ?_) (fun _ => ⟨rfl, rfl⟩) (fun a' self b hm => ?_) hunique howed
    (fun p n => (hothers _ (by simp [Token.key])).mp) (fun n l => hothers _ (by simp [Token.key]))
    (fun a' n self hm => ?_) (fun a' n self b hm hb => ?_) (fun a' q hq => ?_)
  all_goals by_cases he : a' = a
  · subst he
    simp [hsession, hcount]
  · simp [setAllocatable_of_ne he]
  · subst he
    simpa using hmine self b hm
  · rw [setAllocatable_of_ne he]
    exact h.monitor a' self b ((hother he ..).mp hm)
  · subst he
    exact (hbook n _ (.inl rfl)).mp ⟨self, hm⟩
  · exact ⟨self, (hother he ..).mp hm⟩
  · subst he
    exact (hbook n b hb).mpr ⟨self, hm⟩
  · exact ⟨self, (hother he ..).mpr hm⟩
  · subst he
    exact hqueued q (by simpa using hq)
  · exact h.queued a' q (by simpa [setAllocatable_of_ne he] using hq)

/-- Entering a monitor. -/
theorem lock (h : Accounts s G) (ha : (s.allocatables a).locked = false) :
    Accounts (s.setAllocatable a fun x => { x with locked := true })
      (.monitor a { s.allocatables a with locked := true } .settled ::ₘ G) := by
  have hfree (self : Allocatable) (b : Book) : Token.monitor a self b ∉ G := by
    intro hm
    obtain ⟨hs, hl⟩ := h.monitor a self b hm
    rw [hs, hl] at ha
    contradiction
  refine h.of_monitor rfl rfl (h.queued a) (fun self b hm => ?_) ?_ (fun p => owed_monitor)
    (fun t ht => mem_monitor ht) (fun n b hb => ?_)
  · rcases mem_cons.mp hm with he | hm
    · cases he
      exact ⟨rfl, rfl⟩
    · exact absurd hm (hfree self b)
  · refine (unique_cons rfl).mpr ⟨h.unique, fun t ht hkey => ?_⟩
    cases t with
    | monitor a' self b =>
      cases hkey
      exact hfree self b ht
    | owes p n => cases hkey
    | destroying n l => cases hkey
  · exact exists_congr fun self => mem_cons_unsettled hb

/-- Inside a monitor the fields other than `_session` and `_count` may change. -/
theorem set (h : Accounts s (.monitor a self b ::ₘ G))
    (hsession : (f self).session = self.session) (hcount : (f self).count = self.count)
    (hlocked : (f self).locked = true) (hqueued : ∀ q ∈ (f self).requests, ∃ e, q.1 = .object e) :
    Accounts (s.setAllocatable a f) (.monitor a (f self) b ::ₘ G) := by
  have hself := h.eq_self
  refine h.of_monitor (by rw [hself, hsession]) (by rw [hself, hcount]) (by rwa [hself])
    (fun x c hm => ?_) ((unique_cons rfl).mpr ((unique_cons rfl).mp h.unique))
    (fun p => owed_monitor.trans owed_monitor.symm)
    (fun t ht => (mem_monitor ht).trans (mem_monitor ht).symm) (fun n c _ => ?_)
  · rcases mem_cons.mp hm with he | hm
    · cases he
      exact ⟨congrArg f hself, hlocked⟩
    · exact absurd hm (h.not_monitor x c)
  · simp [h.not_monitor]

/-- Leaving a monitor, once the books are settled. -/
theorem unlock (h : Accounts s (.monitor a self .settled ::ₘ G)) :
    Accounts (s.setAllocatable a fun x => { x with locked := false }) G :=
  h.of_monitor rfl rfl (h.queued a) (fun x c hm => absurd hm (h.not_monitor x c))
    ((unique_cons rfl).mp h.unique).1 (fun _ => owed_monitor.symm)
    (fun _ ht => (mem_monitor ht).symm)
    (fun _ _ hb => exists_congr fun _ => (mem_cons_unsettled hb).symm)

/-- A server with no session has no held objects. -/
theorem held_eq_empty (h : Accounts s R) (hs : (s.allocatables (.server p)).session = none) :
    s.held p = ∅ := by
  rw [Set.eq_empty_iff_forall_notMem]
  rintro e ⟨hp, he⟩
  obtain ⟨n, hn⟩ := Option.ne_none_iff_exists'.mp he
  rw [h.child e p n hp hn] at hs
  contradiction

variable {T T' : Multiset Token}

/-- The holder of a server changes together with what is owed to it. -/
theorem setServer (h : Accounts s (.monitor (.server p) self b ::ₘ T))
    (hlocked : (f self).locked = true) (hrequests : (f self).requests = self.requests)
    (hunique : Unique T' ↔ Unique T) (hkeys : ∀ t, (∀ n, t ≠ .owes p n) → (t ∈ T' ↔ t ∈ T))
    (hothers : ∀ q ≠ p, owed T' q = owed T q)
    (hcount : (f self).count + owed T p = self.count + owed T' p)
    (howes : ∀ n, .owes p n ∈ T' → (f self).session = some n)
    (hchild : (f self).session = self.session ∨ s.held p = ∅)
    (hfree : (f self).count = 0 → (f self).session = none) :
    Accounts (s.setAllocatable (.server p) f) (.monitor (.server p) (f self) b ::ₘ T') := by
  have hself := h.eq_self
  have hmem : ∀ t, t.key ≠ some (.inl (.server p)) → (∀ n, t ≠ .owes p n) →
      (t ∈ Token.monitor (.server p) (f self) b ::ₘ T' ↔
        t ∈ Token.monitor (.server p) self b ::ₘ T) := fun t hk ho => by
    rw [mem_monitor hk, mem_monitor hk, hkeys t ho]
  have hobject : ∀ e, (s.setAllocatable (.server p) f).allocatables (.object e) =
      s.allocatables (.object e) := fun e => setAllocatable_of_ne (by simp)
  have hserver : ∀ q ≠ p, (s.setAllocatable (.server p) f).allocatables (.server q) =
      s.allocatables (.server q) := fun q hq => setAllocatable_of_ne (by simpa using hq)
  have hheld : (s.setAllocatable (.server p) f).held = s.held := by
    funext q
    ext e
    simp only [State.held, Set.mem_ofPred_eq, hobject]
  constructor
  · intro a x c hm
    by_cases ha : a = .server p
    · subst ha
      rcases mem_cons.mp hm with he | hm
      · cases he
        exact ⟨by simp [hself], hlocked⟩
      · exact absurd ((hkeys _ (by simp)).mp hm) (h.not_monitor x c)
    · rw [setAllocatable_of_ne ha]
      refine h.monitor a x c ((hmem _ ?_ (by simp)).mp hm)
      simpa [Token.key] using ha
  · have hu := (unique_cons rfl).mp h.unique
    refine (unique_cons rfl).mpr ⟨hunique.mpr hu.1, fun t ht hk => ?_⟩
    cases t with
    | owes q n => cases hk
    | monitor a x c => exact hu.2 _ ((hkeys _ (by simp)).mp ht) hk
    | destroying n l => cases hk
  · intro q
    rw [hheld]
    exact h.finite q
  · intro q
    rw [hheld, owed_monitor]
    have hq := h.count q
    rw [owed_monitor] at hq
    by_cases he : q = p
    · subst he
      rw [hself] at hq
      simp only [setAllocatable_self, hself]
      omega
    · rw [hserver q he, hothers q he]
      exact hq
  · intro q n hm
    have hm' : Token.owes q n ∈ T' := by simpa using hm
    by_cases he : q = p
    · subst he
      simp only [setAllocatable_self, hself]
      exact howes n hm'
    · rw [hserver q he]
      refine h.owes q n (mem_cons_of_mem ((hkeys _ fun m hc => ?_).mp hm'))
      cases hc
      exact he rfl
  · intro e q n hq hs
    rw [hobject] at hs
    by_cases he : q = p
    · subst he
      simp only [setAllocatable_self, hself]
      have hold := h.child e q n hq hs
      rcases hchild with hc | hc
      · rw [hc, ← hself]
        exact hold
      · have hmem : e ∈ s.held q := ⟨hq, by simp [hs]⟩
        rw [hc] at hmem
        cases hmem
    · rw [hserver q he]
      exact h.child e q n hq hs
  · intro q hq
    by_cases he : q = p
    · subst he
      simp only [setAllocatable_self, hself] at hq ⊢
      exact hfree hq
    · rw [hserver q he] at hq ⊢
      exact h.free q hq
  · intro e
    rw [hobject]
    exact h.object e
  · intro e n hc
    have hb := h.booked e n (by
      rcases hc with hs | ⟨x, hm⟩
      · exact .inl (by rwa [hobject] at hs)
      · exact .inr ⟨x, (hmem _ (by simp [Token.key]) (by simp)).mp hm⟩)
    exact hb.mono rfl (List.Subset.refl _) fun l hm =>
      (hmem _ (by simp [Token.key]) (by simp)).mpr hm
  · intro a n hd ha
    obtain ⟨⟨e, rfl⟩, hs⟩ := h.listed a n hd ha
    refine ⟨⟨e, rfl⟩, ?_⟩
    rw [hobject]
    refine hs.imp_right ?_
    rintro ⟨x, c, hm, hc⟩
    exact ⟨x, c, (hmem _ (by simp [Token.key]) (by simp)).mpr hm, hc⟩
  · intro n l hm
    exact h.destroying n l ((hmem _ (by simp [Token.key]) (by simp)).mp hm)
  · intro a q hq
    by_cases ha : a = .server p
    · subst ha
      simp only [setAllocatable_self, hself, hrequests] at hq
      exact h.queued (.server p) q (by rwa [hself])
    · rw [setAllocatable_of_ne ha] at hq
      exact h.queued a q hq

/-- A server that is free, or held by the same session, is held once more. -/
theorem lend (h : Accounts s (.monitor (.server p) self b ::ₘ G))
    (hs : self.session = none ∨ self.session = some n) (hlocked : (f self).locked = true)
    (hrequests : (f self).requests = self.requests) (hsession : (f self).session = some n)
    (hcount : (f self).count = self.count + 1) :
    Accounts (s.setAllocatable (.server p) f)
      (.monitor (.server p) (f self) b ::ₘ .owes p n ::ₘ G) := by
  have hself := h.eq_self
  have hpos := h.count p
  rw [hself, owed_monitor] at hpos
  refine h.setServer hlocked hrequests unique_owes (fun t ht => ?_) (fun q hq => ?_) ?_
    (fun m hm => ?_) ?_ (fun hzero => ?_)
  · simp [ht n]
  · exact owed_owes_of_ne (Ne.symm hq)
  · rw [owed_owes_self, hcount]
    omega
  · rcases mem_cons.mp hm with he | hm
    · cases he
      exact hsession
    · have hm' := h.owes p m (mem_cons_of_mem hm)
      rw [hself] at hm'
      rcases hs with hs | hs
      · rw [hs] at hm'
        cases hm'
      · rw [hsession, ← hs, hm']
  · rcases hs with hs | hs
    · exact .inr (h.held_eq_empty (by rw [hself, hs]))
    · exact .inl (by rw [hsession, hs])
  · omega

/-- One release of a server: it is free when its count comes down to 0. -/
theorem giveBack (h : Accounts s (.monitor (.server p) self b ::ₘ .owes p n ::ₘ G))
    (hlocked : (f self).locked = true) (hrequests : (f self).requests = self.requests)
    (hcount : (f self).count = self.count - 1)
    (hsession : (f self).session = if self.count - 1 = 0 then none else self.session) :
    Accounts (s.setAllocatable (.server p) f) (.monitor (.server p) (f self) b ::ₘ G) := by
  have hself := h.eq_self
  have hpos := h.count p
  rw [hself, owed_monitor, owed_owes_self] at hpos
  have hlast : self.count - 1 = 0 → owed G p = 0 ∧ s.held p = ∅ := by
    intro hzero
    have hcard : (s.held p).ncard = 0 := by omega
    exact ⟨by omega, (Set.ncard_eq_zero (h.finite p)).mp hcard⟩
  refine h.setServer hlocked hrequests unique_owes.symm (fun t ht => ?_) (fun q hq => ?_) ?_
    (fun m hm => ?_) ?_ (fun hzero => ?_)
  · simp [ht n]
  · exact (owed_owes_of_ne (Ne.symm hq)).symm
  · rw [owed_owes_self, hcount]
    omega
  · have hm' := h.owes p m (mem_cons_of_mem (mem_cons_of_mem hm))
    rw [hself] at hm'
    rw [hsession, if_neg, hm']
    intro hzero
    have hnone := countP_eq_zero.mp (hlast hzero).1 _ hm
    simp [Token.isOwedTo] at hnone
  · by_cases hzero : self.count - 1 = 0
    · exact .inr (hlast hzero).2
    · exact .inl (by rw [hsession, if_neg hzero])
  · rw [hsession, if_pos (by omega)]

/-- The holder of an object changes together with what its server is owed. -/
theorem setObject {b' : Book}
    (h : Accounts s (.monitor (.object e) self b ::ₘ T)) (hlocked : (f self).locked = true)
    (hrequests : (f self).requests = self.requests) (hunique : Unique T' ↔ Unique T)
    (hkeys : ∀ t, (∀ q m, t ≠ .owes q m) → (t ∈ T' ↔ t ∈ T))
    (howes : ∀ q m, .owes q m ∈ T' → (s.allocatables (.server q)).session = some m)
    (hheld : ∀ q, ((s.setAllocatable (.object e) f).held q).Finite ∧
      ((s.setAllocatable (.object e) f).held q).ncard + owed T' q = (s.held q).ncard + owed T q)
    (hparent : ∀ p n, e.parent = some p → (f self).session = some n →
      (s.allocatables (.server p)).session = some n)
    (hcount : (f self).count = if (f self).session = none then 0 else 1)
    (hclaim : ∀ n, (f self).session = some n ∨ b' = .adding n →
      self.session = some n ∨ b = .adding n)
    (hlisted : ∀ n, self.session = some n ∨ b = .adding n ∨ b = .removing n →
      (f self).session = some n ∨ b' = .adding n ∨ b' = .removing n) :
    Accounts (s.setAllocatable (.object e) f) (.monitor (.object e) (f self) b' ::ₘ T') := by
  have hself := h.eq_self
  have hmem : ∀ t, t.key ≠ some (.inl (.object e)) → (∀ q m, t ≠ .owes q m) →
      (t ∈ Token.monitor (.object e) (f self) b' ::ₘ T' ↔
        t ∈ Token.monitor (.object e) self b ::ₘ T) := fun t hk ho => by
    rw [mem_monitor hk, mem_monitor hk, hkeys t ho]
  have hmine : ∀ x c, Token.monitor (.object e) x c ∉ T' := fun x c hm =>
    h.not_monitor x c ((hkeys _ (by simp)).mp hm)
  have hserver : ∀ q, (s.setAllocatable (.object e) f).allocatables (.server q) =
      s.allocatables (.server q) := fun q => setAllocatable_of_ne (by simp)
  have hother : ∀ e' ≠ e, (s.setAllocatable (.object e) f).allocatables (.object e') =
      s.allocatables (.object e') := fun e' he => setAllocatable_of_ne (by simpa using he)
  constructor
  · intro a x c hm
    by_cases ha : a = .object e
    · subst ha
      rcases mem_cons.mp hm with he | hm
      · cases he
        exact ⟨by simp [hself], hlocked⟩
      · exact absurd hm (hmine x c)
    · rw [setAllocatable_of_ne ha]
      refine h.monitor a x c ((hmem _ ?_ (by simp)).mp hm)
      simpa [Token.key] using ha
  · have hu := (unique_cons rfl).mp h.unique
    refine (unique_cons rfl).mpr ⟨hunique.mpr hu.1, fun t ht hk => ?_⟩
    cases t with
    | owes q n => cases hk
    | monitor a x c => exact hu.2 _ ((hkeys _ (by simp)).mp ht) hk
    | destroying n l => cases hk
  · exact fun q => (hheld q).1
  · intro q
    have hq := h.count q
    have hq' := (hheld q).2
    rw [hserver]
    rw [owed_monitor] at hq ⊢
    omega
  · intro q m hm
    rw [hserver]
    exact howes q m (by simpa using hm)
  · intro e' q m hq hs
    rw [hserver]
    by_cases he : e' = e
    · subst he
      simp only [setAllocatable_self, hself] at hs
      exact hparent q m hq hs
    · rw [hother e' he] at hs
      exact h.child e' q m hq hs
  · intro q hq
    rw [hserver] at hq ⊢
    exact h.free q hq
  · intro e'
    by_cases he : e' = e
    · subst he
      simpa only [setAllocatable_self, hself] using hcount
    · rw [hother e' he]
      exact h.object e'
  · intro e' n hc
    have hold : Claims s (.monitor (.object e) self b ::ₘ T) e' n := by
      by_cases he : e' = e
      · subst he
        have hnew : (f self).session = some n ∨ b' = .adding n := by
          rcases hc with hs | ⟨x, hm⟩
          · exact .inl (by simpa only [setAllocatable_self, hself] using hs)
          · rcases mem_cons.mp hm with hx | hm
            · cases hx
              exact .inr rfl
            · exact absurd hm (hmine _ _)
        rcases hclaim n hnew with hs | rfl
        · exact .inl (by rwa [hself])
        · exact .inr ⟨self, mem_cons_self _ _⟩
      · rcases hc with hs | ⟨x, hm⟩
        · exact .inl (by rwa [hother e' he] at hs)
        · exact .inr ⟨x, (hmem _ (by simpa [Token.key] using he) (by simp)).mp hm⟩
    exact (h.booked e' n hold).mono rfl (List.Subset.refl _) fun l hm =>
      (hmem _ (by simp [Token.key]) (by simp)).mpr hm
  · intro a n hd ha
    obtain ⟨⟨e', rfl⟩, hs⟩ := h.listed a n hd ha
    refine ⟨⟨e', rfl⟩, ?_⟩
    by_cases he : e' = e
    · subst he
      have hnew : self.session = some n ∨ b = .adding n ∨ b = .removing n := by
        rcases hs with hs | ⟨x, c, hm, hc⟩
        · exact .inl (by rwa [hself] at hs)
        · rcases mem_cons.mp hm with hx | hm
          · cases hx
            exact .inr hc
          · exact absurd hm (h.not_monitor _ _)
      rcases hlisted n hnew with hs | hb
      · exact .inl (by simpa only [setAllocatable_self, hself] using hs)
      · exact .inr ⟨f self, b', mem_cons_self _ _, hb⟩
    · rw [hother e' he]
      refine hs.imp_right ?_
      rintro ⟨x, c, hm, hc⟩
      exact ⟨x, c, (hmem _ (by simpa [Token.key] using he) (by simp)).mpr hm, hc⟩
  · intro n l hm
    exact h.destroying n l ((hmem _ (by simp [Token.key]) (by simp)).mp hm)
  · intro a q hq
    by_cases ha : a = .object e
    · subst ha
      simp only [setAllocatable_self, hself, hrequests] at hq
      exact h.queued (.object e) q (by rwa [hself])
    · rw [setAllocatable_of_ne ha] at hq
      exact h.queued a q hq

end Accounts

/-- What a session that holds an object owes to the server of the object. -/
def dues (e : AllocatableObjectEntry) (n : SessionPtr) : Multiset Token :=
  match e.parent with
  | some p => {.owes p n}
  | none => 0

section dues

variable {s : State} {e : AllocatableObjectEntry} {n : SessionPtr} {G : Multiset Token}
  {p q : ServerEntry} {f : Allocatable → Allocatable}

theorem mem_dues_add {t : Token} (ht : ∀ q m, t ≠ .owes q m) : t ∈ dues e n + G ↔ t ∈ G := by
  unfold dues
  cases e.parent with
  | none => simp
  | some p => simp [ht p n]

theorem unique_dues_add : Unique (dues e n + G) ↔ Unique G := by
  unfold dues
  cases e.parent with
  | none => simp
  | some p => simp

theorem owed_dues_add_of_ne (h : e.parent ≠ some q) : owed (dues e n + G) q = owed G q := by
  unfold dues
  cases hp : e.parent with
  | none => simp
  | some p =>
    rw [hp] at h
    simpa using owed_owes_of_ne fun he => h (congrArg some he)

theorem owed_dues_add (h : e.parent = some p) : owed (dues e n + G) p = owed G p + 1 := by
  unfold dues
  simp [h]

theorem owes_mem_dues (h : e.parent = some p) : Token.owes p n ∈ dues e n + G := by
  unfold dues
  simp [h]

theorem owes_of_mem_dues_add {m : SessionPtr} (h : Token.owes q m ∈ dues e n + G) :
    (e.parent = some q ∧ m = n) ∨ Token.owes q m ∈ G := by
  unfold dues at h
  cases hp : e.parent with
  | none => simpa [hp] using h
  | some p =>
    simp only [hp, singleton_add, mem_cons] at h
    rcases h with h | h
    · cases h
      exact .inl ⟨rfl, rfl⟩
    · exact .inr h

theorem held_setObject_of_ne (h : e.parent ≠ some q) :
    (s.setAllocatable (.object e) f).held q = s.held q := by
  ext e'
  by_cases he : e' = e
  · subst he
    simp [State.held, h]
  · simp [State.held, setAllocatable_of_ne (a := .object e) (b := .object e') (by simpa using he)]

theorem held_setObject_of_some (h : e.parent = some p)
    (hf : (f (s.allocatables (.object e))).session ≠ none) :
    (s.setAllocatable (.object e) f).held p = insert e (s.held p) := by
  ext e'
  by_cases he : e' = e
  · subst he
    simp [State.held, h, hf]
  · simp [State.held, he,
      setAllocatable_of_ne (a := .object e) (b := .object e') (by simpa using he)]

theorem held_setObject_of_none (hf : (f (s.allocatables (.object e))).session = none) :
    (s.setAllocatable (.object e) f).held p = s.held p \ {e} := by
  ext e'
  by_cases he : e' = e
  · subst he
    simp [State.held, hf]
  · simp [State.held, he,
      setAllocatable_of_ne (a := .object e) (b := .object e') (by simpa using he)]

end dues

namespace Accounts

variable {s : State} {G : Multiset Token} {self : Allocatable} {b : Book}
  {e : AllocatableObjectEntry} {n : SessionPtr} {f : Allocatable → Allocatable}

/-- What the server was owed for a free object becomes the object's being held. -/
theorem take (h : Accounts s (.monitor (.object e) self (.adding n) ::ₘ (dues e n + G)))
    (hfree : self.session = none) (hlocked : (f self).locked = true)
    (hrequests : (f self).requests = self.requests) (hsession : (f self).session = some n)
    (hcount : (f self).count = self.count + 1) :
    Accounts (s.setAllocatable (.object e) f) (.monitor (.object e) (f self) .settled ::ₘ G) := by
  have hself := h.eq_self
  have hzero := h.object e
  rw [hself, if_pos hfree] at hzero
  refine h.setObject hlocked hrequests unique_dues_add.symm
    (fun t ht => (mem_dues_add ht).symm) (fun q m hm => ?_) (fun q => ?_) (fun p m hp hm => ?_)
    ?_ (fun m hm => ?_) (fun m hm => ?_)
  · exact h.owes q m (mem_cons_of_mem (mem_add.mpr (.inr hm)))
  · by_cases hq : e.parent = some q
    · have hmem : e ∉ s.held q := fun hm => hm.2 (by rw [hself, hfree])
      rw [held_setObject_of_some hq (by rw [hself, hsession]; simp), owed_dues_add hq,
        Set.ncard_insert_of_notMem hmem (h.finite q)]
      exact ⟨(h.finite q).insert e, by omega⟩
    · rw [held_setObject_of_ne hq, owed_dues_add_of_ne hq]
      exact ⟨h.finite q, rfl⟩
  · rw [hsession] at hm
    cases hm
    exact h.owes p n (mem_cons_of_mem (owes_mem_dues hp))
  · rw [hcount, hzero, hsession]
    rfl
  · rcases hm with hm | hm
    · rw [hsession] at hm
      exact .inr (congrArg Book.adding (Option.some.inj hm))
    · cases hm
  · rcases hm with hm | hm | hm
    · rw [hfree] at hm
      cases hm
    · cases hm
      exact .inl hsession
    · cases hm

/-- A held object becomes free and its server is owed a release. -/
theorem giveUp (h : Accounts s (.monitor (.object e) self .settled ::ₘ G))
    (hheld : self.session = some n) (hlocked : (f self).locked = true)
    (hrequests : (f self).requests = self.requests) (hsession : (f self).session = none)
    (hcount : (f self).count = 0) :
    Accounts (s.setAllocatable (.object e) f)
      (.monitor (.object e) (f self) (.removing n) ::ₘ (dues e n + G)) := by
  have hself := h.eq_self
  refine h.setObject hlocked hrequests unique_dues_add (fun t ht => mem_dues_add ht)
    (fun q m hm => ?_) (fun q => ?_) (fun p m hp hm => ?_) ?_ (fun m hm => ?_) (fun m hm => ?_)
  · rcases owes_of_mem_dues_add hm with ⟨hp, rfl⟩ | hm
    · exact h.child e q m hp (by rw [hself, hheld])
    · exact h.owes q m (mem_cons_of_mem hm)
  · rw [held_setObject_of_none (by rw [hself, hsession])]
    refine ⟨(h.finite q).sdiff, ?_⟩
    by_cases hq : e.parent = some q
    · have hmem : e ∈ s.held q := ⟨hq, by simp [hself, hheld]⟩
      have hcard := Set.ncard_sdiff_singleton_add_one hmem (h.finite q)
      rw [owed_dues_add hq]
      omega
    · have hmem : e ∉ s.held q := fun hm => hq hm.1
      rw [owed_dues_add_of_ne hq, Set.sdiff_singleton_eq_self hmem]
  · rw [hsession] at hm
    cases hm
  · rw [hcount, hsession]
    rfl
  · rcases hm with hm | hm
    · rw [hsession] at hm
      cases hm
    · cases hm
  · rcases hm with hm | hm | hm
    · rw [hheld] at hm
      cases hm
      exact .inr (.inr rfl)
    · cases hm
    · cases hm

/-- The books of some session change, and with them the book of one monitor. -/
theorem setBook {b' : Book} {g : Session → Session}
    (h : Accounts s (.monitor (.object e) self b ::ₘ G))
    (hdestroyed : (g (s.sessions n)).destroyed = (s.sessions n).destroyed)
    (hothers : ∀ a ≠ AllocatablePtr.object e,
      a ∈ (g (s.sessions n)).allocations ↔ a ∈ (s.sessions n).allocations)
    (hkeep : (s.sessions n).destroyed = true →
      (g (s.sessions n)).allocations = (s.sessions n).allocations)
    (hclaim : ∀ m, self.session = some m ∨ b' = .adding m →
      (self.session = some m ∨ b = .adding m) ∧ m ≠ n ∨
      m = n ∧ (s.sessions n).destroyed = false ∧ .object e ∈ (g (s.sessions n)).allocations)
    (hlisted : ∀ m, (s.sessions m).destroyed = false →
      .object e ∈ ((s.setSession n g).sessions m).allocations →
      self.session = some m ∨ b' = .adding m ∨ b' = .removing m) :
    Accounts (s.setSession n g) (.monitor (.object e) self b' ::ₘ G) := by
  have hself := h.eq_self
  have hdest : ∀ m, ((s.setSession n g).sessions m).destroyed = (s.sessions m).destroyed := by
    intro m
    by_cases hm : m = n
    · subst hm
      simpa using hdestroyed
    · rw [setSession_of_ne hm]
  have hmem : ∀ t, t.key ≠ some (.inl (.object e)) →
      (t ∈ Token.monitor (.object e) self b' ::ₘ G ↔
        t ∈ Token.monitor (.object e) self b ::ₘ G) := by
    intro t hk
    have hne : ∀ c, t ≠ Token.monitor (.object e) self c := by
      rintro c rfl
      exact hk rfl
    simp [hne]
  have hsub : ∀ m, (s.sessions m).destroyed = true →
      ((s.setSession n g).sessions m).allocations = (s.sessions m).allocations := by
    intro m hd
    by_cases hm : m = n
    · subst hm
      simpa using hkeep hd
    · rw [setSession_of_ne hm]
  have hbooks : ∀ a ≠ AllocatablePtr.object e, ∀ m,
      a ∈ ((s.setSession n g).sessions m).allocations ↔ a ∈ (s.sessions m).allocations := by
    intro a ha m
    by_cases hm : m = n
    · subst hm
      simpa using hothers a ha
    · rw [setSession_of_ne hm]
  have hbooked : ∀ e' m, Booked s (.monitor (.object e) self b ::ₘ G) e' m → (e' = e → m ≠ n) →
      Booked (s.setSession n g) (.monitor (.object e) self b' ::ₘ G) e' m := by
    intro e' m hb he
    unfold Booked
    rw [hdest]
    constructor
    · intro hd
      by_cases hm : m = n
      · have hne : AllocatablePtr.object e' ≠ .object e := by
          simpa using fun hee => he hee hm
        exact (hbooks _ hne m).mpr (hb.1 hd)
      · rw [setSession_of_ne hm]
        exact hb.1 hd
    · intro hd
      obtain ⟨l, hl, hmem'⟩ := hb.2 hd
      exact ⟨l, (hmem _ (by simp [Token.key])).mpr hl, hmem'⟩
  constructor
  · intro a x c hm
    rcases mem_cons.mp hm with he | hm
    · cases he
      exact h.monitor _ self b (mem_cons_self _ _)
    · exact h.monitor a x c (mem_cons_of_mem hm)
  · exact (unique_cons rfl).mpr ((unique_cons rfl).mp h.unique)
  · exact h.finite
  · intro p
    have hp := h.count p
    rw [owed_monitor] at hp ⊢
    exact hp
  · intro p m hm
    exact h.owes p m ((hmem _ (by simp [Token.key])).mp hm)
  · exact h.child
  · exact h.free
  · exact h.object
  · intro e' m hc
    by_cases he : e' = e
    · subst he
      have hnew : self.session = some m ∨ b' = .adding m := by
        rcases hc with hs | ⟨x, hm⟩
        · exact .inl (by rwa [← hself])
        · rcases mem_cons.mp hm with hx | hm
          · cases hx
            exact .inr rfl
          · exact absurd hm (h.not_monitor _ _)
      rcases hclaim m hnew with ⟨hold, hne⟩ | ⟨rfl, hd, hin⟩
      · refine hbooked e' m (h.booked e' m ?_) fun _ => hne
        rcases hold with hs | rfl
        · exact .inl (by rwa [hself])
        · exact .inr ⟨self, mem_cons_self _ _⟩
      · refine ⟨fun _ => by simpa using hin, fun hd' => ?_⟩
        rw [hdest, hd] at hd'
        cases hd'
    · refine hbooked e' m (h.booked e' m ?_) fun hee => absurd hee he
      rcases hc with hs | ⟨x, hm⟩
      · exact .inl hs
      · exact .inr ⟨x, (hmem _ (by simpa [Token.key] using he)).mp hm⟩
  · intro a m hd ha
    rw [hdest] at hd
    by_cases hae : a = .object e
    · subst hae
      refine ⟨⟨e, rfl⟩, ?_⟩
      rcases hlisted m hd ha with hs | hb
      · exact .inl (by rw [State.setSession_allocatables, hself, hs])
      · exact .inr ⟨self, b', mem_cons_self _ _, hb⟩
    · obtain ⟨hobj, hs⟩ := h.listed a m hd ((hbooks a hae m).mp ha)
      refine ⟨hobj, hs.imp_right ?_⟩
      rintro ⟨x, c, hm, hc⟩
      exact ⟨x, c, (hmem _ (by simpa [Token.key] using hae)).mpr hm, hc⟩
  · intro m l hm
    obtain ⟨hd, hobj, hl⟩ := h.destroying m l ((hmem _ (by simp [Token.key])).mp hm)
    rw [hdest, hsub m hd]
    exact ⟨hd, hobj, hl⟩
  · exact h.queued

/-- `addAllocation` of a session that is not destroyed. -/
theorem enter (h : Accounts s (.monitor (.object e) self .settled ::ₘ G))
    (hfree : self.session = none) (hd : (s.sessions n).destroyed = false) :
    Accounts (s.setSession n fun x => { x with allocations := x.allocations.insert (.object e) })
      (.monitor (.object e) self (.adding n) ::ₘ G) := by
  refine h.setBook rfl (fun a ha => ?_) (fun hd' => ?_) (fun m hm => ?_) (fun m hdm hm => ?_)
  · simp [ha]
  · rw [hd] at hd'
    cases hd'
  · rcases hm with hm | hm
    · rw [hfree] at hm
      cases hm
    · cases hm
      exact .inr ⟨rfl, hd, by simp⟩
  · by_cases he : m = n
    · exact .inr (.inl (congrArg Book.adding he.symm))
    · rw [setSession_of_ne he] at hm
      obtain ⟨-, hs | ⟨x, c, hx, hc⟩⟩ := h.listed _ m hdm hm
      · exact .inl (by rwa [h.eq_self] at hs)
      · rcases mem_cons.mp hx with hx | hx
        · cases hx
          rcases hc with hc | hc
          · cases hc
          · cases hc
        · exact absurd hx (h.not_monitor _ _)

/-- `removeAllocation` by the session that no longer holds the object. -/
theorem leave (h : Accounts s (.monitor (.object e) self (.removing n) ::ₘ G))
    (hheld : self.session ≠ some n) :
    Accounts (if (s.sessions n).destroyed then s else s.setSession n fun x =>
        { x with allocations := x.allocations.filter (· ≠ .object e) })
      (.monitor (.object e) self .settled ::ₘ G) := by
  have hold : ∀ m, m ≠ n → (s.sessions m).destroyed = false →
      .object e ∈ (s.sessions m).allocations → self.session = some m := by
    intro m hne hdm hm
    obtain ⟨-, hs | ⟨x, c, hx, hc⟩⟩ := h.listed _ m hdm hm
    · rwa [h.eq_self] at hs
    · rcases mem_cons.mp hx with hx | hx
      · cases hx
        rcases hc with hc | hc
        · cases hc
        · cases hc
          exact absurd rfl hne
      · exact absurd hx (h.not_monitor _ _)
  by_cases hd : (s.sessions n).destroyed = true
  · rw [if_pos hd]
    have hset : Accounts (s.setSession n id) (.monitor (.object e) self .settled ::ₘ G) := by
      refine h.setBook rfl (fun a _ => Iff.rfl) (fun _ => rfl) (fun m hm => ?_)
        (fun m hdm hm => ?_)
      · rcases hm with hm | hm
        · refine .inl ⟨.inl hm, ?_⟩
          rintro rfl
          exact hheld hm
        · cases hm
      · by_cases he : m = n
        · subst he
          rw [hd] at hdm
          cases hdm
        · rw [setSession_of_ne he] at hm
          exact .inl (hold m he hdm hm)
    refine hset.congr (by simp) fun m => ?_
    by_cases hm : m = n
    · subst hm
      simp
    · rw [setSession_of_ne hm]
      exact ⟨rfl, rfl⟩
  · rw [if_neg hd]
    refine h.setBook rfl (fun a ha => ?_) (fun hd' => absurd hd' hd) (fun m hm => ?_)
      (fun m hdm hm => ?_)
    · simp [ha]
    · rcases hm with hm | hm
      · refine .inl ⟨.inl hm, ?_⟩
        rintro rfl
        exact hheld hm
      · cases hm
    · by_cases he : m = n
      · subst he
        simp at hm
      · rw [setSession_of_ne he] at hm
        exact .inl (hold m he hdm hm)

/-- A session is destroyed: what it holds is left to release. -/
theorem destroy (h : Accounts s G) (hd : (s.sessions n).destroyed = false) :
    Accounts (s.setSession n fun x => { x with destroyed := true })
      (.destroying n (s.sessions n).allocations ::ₘ G) := by
  have hnone : ∀ l, Token.destroying n l ∉ G := by
    intro l hm
    rw [(h.destroying n l hm).1] at hd
    cases hd
  have hmonitor : ∀ a x c, Token.monitor a x c ∈
      Token.destroying n (s.sessions n).allocations ::ₘ G ↔ Token.monitor a x c ∈ G := by
    intro a x c
    simp
  constructor
  · exact fun a x c hm => h.monitor a x c ((hmonitor a x c).mp hm)
  · refine (unique_cons rfl).mpr ⟨h.unique, fun t ht hk => ?_⟩
    cases t with
    | monitor a x c => cases hk
    | owes p m => cases hk
    | destroying m l =>
      cases hk
      exact hnone l ht
  · exact h.finite
  · intro p
    have hp := h.count p
    rw [owed_destroying]
    exact hp
  · intro p m hm
    exact h.owes p m (by simpa using hm)
  · exact h.child
  · exact h.free
  · exact h.object
  · intro e m hc
    have hb := h.booked e m (hc.imp_right fun ⟨x, hm⟩ => ⟨x, (hmonitor _ _ _).mp hm⟩)
    by_cases hm : m = n
    · subst hm
      refine ⟨fun hf => by simp at hf, fun _ => ?_⟩
      exact ⟨_, mem_cons_self _ _, hb.1 hd⟩
    · refine hb.mono (by rw [setSession_of_ne hm]) (fun a ha => ?_) fun l hl =>
        mem_cons_of_mem hl
      rwa [setSession_of_ne hm]
  · intro a m hdm ha
    have hm : m ≠ n := by
      rintro rfl
      simp at hdm
    rw [setSession_of_ne hm] at hdm ha
    obtain ⟨hobj, hs⟩ := h.listed a m hdm ha
    exact ⟨hobj, hs.imp_right fun ⟨x, c, hx, hc⟩ => ⟨x, c, (hmonitor _ _ _).mpr hx, hc⟩⟩
  · intro m l hm
    rcases mem_cons.mp hm with he | hm
    · cases he
      rw [State.setSession_self]
      exact ⟨rfl, fun a ha => (h.listed a n hd ha).1, List.Subset.refl _⟩
    · have hne : m ≠ n := fun he => hnone l (he ▸ hm)
      rw [setSession_of_ne hne]
      exact h.destroying m l hm
  · exact h.queued

/-- What is left to release may shrink by what the session does not claim. -/
theorem forget {l l' : List AllocatablePtr} (h : Accounts s (.destroying n l ::ₘ G))
    (hsub : l' ⊆ (s.sessions n).allocations)
    (hclaims : ∀ e, Claims s (.destroying n l ::ₘ G) e n → .object e ∈ l → .object e ∈ l') :
    Accounts s (.destroying n l' ::ₘ G) := by
  have hmem : ∀ t, (∀ l, t ≠ Token.destroying n l) →
      (t ∈ Token.destroying n l' ::ₘ G ↔ t ∈ Token.destroying n l ::ₘ G) := by
    intro t ht
    simp [ht l, ht l']
  constructor
  · exact fun a x c hm => h.monitor a x c ((hmem _ (by simp)).mp hm)
  · exact (unique_cons rfl).mpr ((unique_cons rfl).mp h.unique)
  · exact h.finite
  · intro p
    have hp := h.count p
    rw [owed_destroying] at hp ⊢
    exact hp
  · exact fun p m hm => h.owes p m ((hmem _ (by simp)).mp hm)
  · exact h.child
  · exact h.free
  · exact h.object
  · intro e m hc
    have hc' : Claims s (.destroying n l ::ₘ G) e m :=
      hc.imp_right fun ⟨x, hm⟩ => ⟨x, (hmem _ (by simp)).mp hm⟩
    refine ⟨(h.booked e m hc').1, fun hd => ?_⟩
    obtain ⟨l'', hl, he⟩ := (h.booked e m hc').2 hd
    rcases mem_cons.mp hl with heq | hl
    · cases heq
      exact ⟨l', mem_cons_self _ _, hclaims e hc' he⟩
    · exact ⟨l'', mem_cons_of_mem hl, he⟩
  · intro a m hdm ha
    obtain ⟨hobj, hs⟩ := h.listed a m hdm ha
    exact ⟨hobj, hs.imp_right fun ⟨x, c, hx, hc⟩ => ⟨x, c, (hmem _ (by simp)).mpr hx, hc⟩⟩
  · intro m l'' hm
    rcases mem_cons.mp hm with heq | hm
    · cases heq
      obtain ⟨hd, hobject, -⟩ := h.destroying n l (mem_cons_self _ _)
      exact ⟨hd, hobject, hsub⟩
    · exact h.destroying m l'' (mem_cons_of_mem hm)
  · exact h.queued

/-- Nothing is left to release: the session is done. -/
theorem finish (h : Accounts s (.destroying n [] ::ₘ G)) :
    Accounts (s.setSession n fun x => { x with allocations := [] }) G := by
  have hdn : (s.sessions n).destroyed = true :=
    (h.destroying n [] (mem_cons_self _ _)).1
  have hdest : ∀ m, ((s.setSession n fun x => { x with allocations := [] }).sessions m).destroyed =
      (s.sessions m).destroyed := by
    intro m
    by_cases hm : m = n
    · subst hm
      simp
    · rw [setSession_of_ne hm]
  have hnone : ∀ l, Token.destroying n l ∉ G := fun l hm =>
    ((unique_cons rfl).mp h.unique).2 _ hm rfl
  constructor
  · exact fun a x c hm => h.monitor a x c (mem_cons_of_mem hm)
  · exact ((unique_cons rfl).mp h.unique).1
  · exact h.finite
  · intro p
    have hp := h.count p
    rw [owed_destroying] at hp
    exact hp
  · exact fun p m hm => h.owes p m (mem_cons_of_mem hm)
  · exact h.child
  · exact h.free
  · exact h.object
  · intro e m hc
    have hb := h.booked e m (hc.imp_right fun ⟨x, hm⟩ => ⟨x, mem_cons_of_mem hm⟩)
    have hne : m ≠ n := by
      rintro rfl
      obtain ⟨l, hl, he⟩ := hb.2 hdn
      rcases mem_cons.mp hl with heq | hl
      · cases heq
        cases he
      · exact hnone l hl
    refine ⟨fun hd => ?_, fun hd => ?_⟩
    · rw [setSession_of_ne hne] at hd ⊢
      exact hb.1 hd
    · rw [hdest] at hd
      obtain ⟨l, hl, he⟩ := hb.2 hd
      rcases mem_cons.mp hl with heq | hl
      · cases heq
        exact absurd rfl hne
      · exact ⟨l, hl, he⟩
  · intro a m hdm ha
    have hne : m ≠ n := by
      rintro rfl
      rw [hdest, hdn] at hdm
      cases hdm
    rw [setSession_of_ne hne] at hdm ha
    obtain ⟨hobj, hs⟩ := h.listed a m hdm ha
    refine ⟨hobj, hs.imp_right ?_⟩
    rintro ⟨x, c, hx, hc⟩
    exact ⟨x, c, by simpa using hx, hc⟩
  · intro m l hm
    have hne : m ≠ n := by
      rintro rfl
      exact hnone l hm
    rw [setSession_of_ne hne]
    exact h.destroying m l (mem_cons_of_mem hm)
  · exact h.queued

end Accounts

end Ice.IceGrid
