import Mathlib.Algebra.BigOperators.Group.List.Basic
import Ice.Lib.Transition

/-!
# Threads that share a state

A thread runs a `Program`: atomic actions on a shared state, put together by
sequencing and by loops. An action lists its outcomes; an empty list blocks the
thread, several outcomes leave the choice open. A `Machine` is a shared state with
its threads, and one move starts an operation or lets one thread take one step.

Programs are reasoned about one thread at a time. A thread owns a resource, an
element of a commutative monoid, and the invariant `J` relates the shared state to
the sum of what all threads own. `Triple J A r p Q` says that `p`, started with the
resource `r`, keeps the invariant at every step whatever the others own, and ends
with a resource that meets `Q`; `A` is the condition under which steps are taken.
-/

namespace Ice.Lib

/-- What a thread still has to do: actions carry a label for conditions on runs. -/
inductive Program (σ ℓ ε : Type) : Type → Type 1
  | ret {α : Type} (x : Except ε α) : Program σ ℓ ε α
  | act {α : Type} (label : ℓ) (outcomes : σ → List (Except ε α × σ)) : Program σ ℓ ε α
  | seq {α β : Type} (p : Program σ ℓ ε β) (f : Except ε β → Program σ ℓ ε α) :
      Program σ ℓ ε α
  | loop {α : Type} (body : Program σ ℓ ε (Option α)) : Program σ ℓ ε α

namespace Program

variable {σ ℓ ε α β : Type}

/-- How a finished program ended. -/
def value? : Program σ ℓ ε α → Option (Except ε α)
  | ret x => some x
  | _ => none

/-- Go on with the result of the first part, returned or thrown. -/
def andThen (p : Program σ ℓ ε β) (f : Except ε β → Program σ ℓ ε α) : Program σ ℓ ε α :=
  match p with
  | ret x => f x
  | p => seq p f

/-- One more round of a loop, or its end. -/
def again (body : Program σ ℓ ε (Option α)) : Except ε (Option α) → Program σ ℓ ε α
  | .ok (some a) => ret (.ok a)
  | .ok none => loop body
  | .error e => ret (.error e)

/-- The steps a program can take from a shared state. -/
def next : {α : Type} → Program σ ℓ ε α → σ → List (Program σ ℓ ε α × σ)
  | _, ret _, _ => []
  | _, act _ outcomes, s => (outcomes s).map fun o => (ret o.1, o.2)
  | _, seq p f, s =>
    match p.value? with
    | some x => [(f x, s)]
    | none => (next p s).map fun t => (t.1.andThen f, t.2)
  | _, loop body, s => [(body.andThen (again body), s)]

/-- The label of the action a program takes next. -/
def label? : {α : Type} → Program σ ℓ ε α → Option ℓ
  | _, ret _ => none
  | _, act l _ => some l
  | _, seq p _ => p.label?
  | _, loop _ => none

instance : Monad (Program σ ℓ ε) where
  pure a := ret (.ok a)
  bind p f := p.andThen fun
    | .ok a => f a
    | .error e => ret (.error e)

instance : MonadExcept ε (Program σ ℓ ε) where
  throw e := ret (.error e)
  tryCatch p h := p.andThen fun
    | .ok a => ret (.ok a)
    | .error e => h e

/-- Run the second part however the first one ends. -/
def ensuring (p : Program σ ℓ ε α) (q : Program σ ℓ ε Unit) : Program σ ℓ ε α :=
  p.andThen fun x => q.andThen fun _ => ret x

/-- A property of a thread's next `n` steps: the invariant is kept, and at the end the
resource can be turned into one that meets the postcondition. -/
def Safe {R : Type} [Add R] (J : σ → R → Prop) (A : σ → ℓ → Prop) :
    Nat → R → Program σ ℓ ε α → (Except ε α → R → Prop) → Prop
  | 0, _, _, _ => True
  | n + 1, r, p, Q =>
    (∀ x, p.value? = some x → ∀ s F, J s (r + F) → ∃ r', J s (r' + F) ∧ Q x r') ∧
    ∀ s F, J s (r + F) → (∀ l, p.label? = some l → A s l) → ∀ t ∈ p.next s,
      ∃ r', J t.2 (r' + F) ∧ Safe J A n r' t.1 Q

/-- A program keeps the invariant for as long as it runs. -/
def Triple {R : Type} [Add R] (J : σ → R → Prop) (A : σ → ℓ → Prop) (r : R)
    (p : Program σ ℓ ε α) (Q : Except ε α → R → Prop) : Prop :=
  ∀ n, Safe J A n r p Q

section rules

variable {R : Type} {J : σ → R → Prop} {A : σ → ℓ → Prop} {r : R}
  {p : Program σ ℓ ε β} {f : Except ε β → Program σ ℓ ε α}
  {Q : Except ε β → R → Prop} {T : Except ε α → R → Prop} {x : Except ε α}

theorem value?_eq_some {p : Program σ ℓ ε α} (h : p.value? = some x) :
    p = ret x := by
  cases p with
  | ret y => rw [Option.some.inj h]
  | act l o => cases h
  | seq p f => cases h
  | loop b => cases h

variable [Add R] {n : Nat}

/-- The resource may be exchanged for another one that the invariant also allows. -/
theorem Safe.update {p : Program σ ℓ ε α}
    (h : ∀ s F, J s (r + F) → ∃ r', J s (r' + F) ∧ Safe J A n r' p T) :
    Safe J A n r p T := by
  cases n with
  | zero => trivial
  | succ n =>
    constructor
    · intro x hx s F hJ
      obtain ⟨r', hJ', hp⟩ := h s F hJ
      exact hp.1 x hx s F hJ'
    · intro s F hJ hA t ht
      obtain ⟨r', hJ', hp⟩ := h s F hJ
      exact hp.2 s F hJ' hA t ht

theorem Safe.mono {Q' : Except ε β → R → Prop} (hp : Safe J A n r p Q)
    (hQ : ∀ x r', Q x r' → Q' x r') : Safe J A n r p Q' := by
  induction n generalizing r p with
  | zero => trivial
  | succ n ih =>
    constructor
    · intro x hx s F hJ
      obtain ⟨r', hJ', hq⟩ := hp.1 x hx s F hJ
      exact ⟨r', hJ', hQ x r' hq⟩
    · intro s F hJ hA t ht
      obtain ⟨r', hJ', hp'⟩ := hp.2 s F hJ hA t ht
      exact ⟨r', hJ', ih hp'⟩

theorem Safe.of_succ (hp : Safe J A (n + 1) r p Q) : Safe J A n r p Q := by
  induction n generalizing r p with
  | zero => trivial
  | succ n ih =>
    constructor
    · exact hp.1
    · intro s F hJ hA t ht
      obtain ⟨r', hJ', hp'⟩ := hp.2 s F hJ hA t ht
      exact ⟨r', hJ', ih hp'⟩

theorem Safe.andThen (hp : Safe J A n r p Q)
    (hf : ∀ x r', Q x r' → ∀ m ≤ n, Safe J A m r' (f x) T) :
    Safe J A n r (p.andThen f) T := by
  induction n generalizing r p with
  | zero => trivial
  | succ n ih =>
    cases hv : p.value? with
    | some x =>
      cases value?_eq_some hv
      refine Safe.update fun s F hJ => ?_
      obtain ⟨r', hJ', hq⟩ := hp.1 x rfl s F hJ
      exact ⟨r', hJ', hf x r' hq _ (Nat.le_refl _)⟩
    | none =>
      have hseq : p.andThen f = seq p f := by
        cases p with
        | ret x => cases hv
        | act l o => rfl
        | seq p g => rfl
        | loop b => rfl
      rw [hseq]
      constructor
      · intro x hx
        cases hx
      · intro s F hJ hA t ht
        simp only [next, hv, List.mem_map] at ht
        obtain ⟨u, hu, rfl⟩ := ht
        obtain ⟨r', hJ', hp'⟩ := hp.2 s F hJ hA u hu
        exact ⟨r', hJ', ih hp' fun x r' hq m hm => hf x r' hq m (Nat.le_succ_of_le hm)⟩

namespace Triple

/-- The resource may be exchanged before the program goes on. -/
theorem update {p : Program σ ℓ ε α}
    (h : ∀ s F, J s (r + F) → ∃ r', J s (r' + F) ∧ Triple J A r' p T) : Triple J A r p T := by
  intro n
  refine Safe.update fun s F hJ => ?_
  obtain ⟨r', hJ', hp⟩ := h s F hJ
  exact ⟨r', hJ', hp n⟩

theorem ret (h : T x r) : Triple J A r (Program.ret x) T := by
  intro n
  cases n with
  | zero => trivial
  | succ n =>
    constructor
    · intro y hy s F hJ
      cases hy
      exact ⟨r, hJ, h⟩
    · intro s F _ _ t ht
      cases ht

theorem pure {a : α} (h : T (.ok a) r) :
    Triple J A r (Pure.pure a : Program σ ℓ ε α) T := ret h

theorem throw {e : ε} (h : T (.error e) r) :
    Triple J A r (MonadExcept.throw e : Program σ ℓ ε α) T := ret h

/-- An action: every outcome keeps the invariant. -/
theorem act {l : ℓ} {outcomes : σ → List (Except ε α × σ)}
    (h : ∀ s F, J s (r + F) → A s l → ∀ o ∈ outcomes s,
      ∃ r', J o.2 (r' + F) ∧ T o.1 r') :
    Triple J A r (Program.act l outcomes) T := by
  intro n
  cases n with
  | zero => trivial
  | succ n =>
    constructor
    · intro x hx
      cases hx
    · intro s F hJ hA t ht
      obtain ⟨o, ho, rfl⟩ := List.mem_map.mp ht
      obtain ⟨r', hJ', hT⟩ := h s F hJ (hA l rfl) o ho
      exact ⟨r', hJ', ret hT n⟩

theorem conseq {Q' : Except ε β → R → Prop} (h : Triple J A r p Q)
    (hQ : ∀ x r', Q x r' → Q' x r') : Triple J A r p Q' := fun n => (h n).mono hQ

theorem andThen (hp : Triple J A r p Q) (hf : ∀ x r', Q x r' → Triple J A r' (f x) T) :
    Triple J A r (p.andThen f) T :=
  fun n => (hp n).andThen fun x r' hq m _ => hf x r' hq m

/-- Sequencing: what the first part throws, the whole throws. -/
theorem bind {f : β → Program σ ℓ ε α} (hp : Triple J A r p Q)
    (hok : ∀ b r', Q (.ok b) r' → Triple J A r' (f b) T)
    (herror : ∀ e r', Q (.error e) r' → T (.error e) r') :
    Triple J A r (p >>= f) T := by
  refine hp.andThen fun x r' hq => ?_
  cases x with
  | ok b => exact hok b r' hq
  | error e => exact ret (herror e r' hq)

/-- Catching: what the first part returns, the whole returns. -/
theorem tryCatch {Q : Except ε α → R → Prop} {p : Program σ ℓ ε α}
    {h : ε → Program σ ℓ ε α} (hp : Triple J A r p Q)
    (hok : ∀ a r', Q (.ok a) r' → T (.ok a) r')
    (herror : ∀ e r', Q (.error e) r' → Triple J A r' (h e) T) :
    Triple J A r (MonadExcept.tryCatch p h) T := by
  refine hp.andThen fun x r' hq => ?_
  cases x with
  | ok a => exact ret (hok a r' hq)
  | error e => exact herror e r' hq

theorem ensuring {Q : Except ε α → R → Prop} {p : Program σ ℓ ε α}
    {q : Program σ ℓ ε Unit} (hp : Triple J A r p Q)
    (hq : ∀ x r', Q x r' → Triple J A r' q fun _ => T x) :
    Triple J A r (p.ensuring q) T :=
  hp.andThen fun x r' h => (hq x r' h).andThen fun _ _ hT => ret hT

/-- The rule for loops: the body keeps `I` for as long as it goes round. -/
theorem loop {body : Program σ ℓ ε (Option α)} {I : R → Prop} (hr : I r)
    (hbody : ∀ r, I r → Triple J A r body fun x r' =>
      match x with
      | .ok none => I r'
      | .ok (some a) => T (.ok a) r'
      | .error e => T (.error e) r') :
    Triple J A r (Program.loop body) T := by
  intro n
  induction n using Nat.strongRecOn generalizing r with
  | _ n ih =>
    cases n with
    | zero => trivial
    | succ n =>
      constructor
      · intro x hx
        cases hx
      · intro s F hJ _ t ht
        simp only [next, List.mem_singleton] at ht
        subst ht
        refine ⟨r, hJ, (hbody r hr n).andThen fun x r' hx m hm => ?_⟩
        cases x with
        | error e => exact ret hx m
        | ok o =>
          cases o with
          | some a => exact ret hx m
          | none => exact ih m (Nat.lt_succ_of_le hm) hx

end Triple

end rules

/-- A thread keeps what it does not use. -/
theorem Safe.frame {R : Type} [AddCommMonoid R] {J : σ → R → Prop} {A : σ → ℓ → Prop} {r : R}
    {p : Program σ ℓ ε β} {Q : Except ε β → R → Prop} {n : Nat} (h : Safe J A n r p Q) (F : R) :
    Safe J A n (r + F) p fun x r' => ∃ r₁, r' = r₁ + F ∧ Q x r₁ := by
  induction n generalizing r p with
  | zero => trivial
  | succ n ih =>
    constructor
    · intro x hx s G hJ
      rw [add_assoc] at hJ
      obtain ⟨r', hJ', hq⟩ := h.1 x hx s _ hJ
      exact ⟨r' + F, by rwa [add_assoc], r', rfl, hq⟩
    · intro s G hJ hA t ht
      rw [add_assoc] at hJ
      obtain ⟨r', hJ', hp⟩ := h.2 s _ hJ hA t ht
      exact ⟨r' + F, by rwa [add_assoc], ih hp⟩

theorem Triple.frame {R : Type} [AddCommMonoid R] {J : σ → R → Prop} {A : σ → ℓ → Prop} {r : R}
    {p : Program σ ℓ ε β} {Q : Except ε β → R → Prop} (h : Triple J A r p Q) (F : R) :
    Triple J A (r + F) p fun x r' => ∃ r₁, r' = r₁ + F ∧ Q x r₁ :=
  fun n => (h n).frame F

/-- A program that returns: what it owns then goes with the value. -/
def Returns {R : Type} [Add R] (J : σ → R → Prop) (A : σ → ℓ → Prop) (r : R)
    (p : Program σ ℓ ε α) (Q : α → R → Prop) : Prop :=
  Triple J A r p fun x r' => ∃ a, x = .ok a ∧ Q a r'

namespace Returns

variable {R : Type} {J : σ → R → Prop} {A : σ → ℓ → Prop} {p : Program σ ℓ ε α}
  {f : α → Program σ ℓ ε β} {Q Q' : α → R → Prop} {T : β → R → Prop}

section

variable [Add R] {r r' : R}

theorem pure {a : α} (h : Q a r) : Returns J A r (Pure.pure a : Program σ ℓ ε α) Q :=
  Triple.pure ⟨a, rfl, h⟩

section

variable (hp : Returns J A r p Q)

include hp

theorem bind (hf : ∀ a r', Q a r' → Returns J A r' (f a) T) :
    Returns J A r (p >>= f) T := by
  apply Triple.bind hp
  · rintro a r' ⟨a', ha, hQ⟩
    cases ha
    exact hf a r' hQ
  · rintro e r' ⟨a, ha, -⟩
    cases ha

/-- Going on with a program that may throw. -/
theorem bind_triple {T : Except ε β → R → Prop}
    (hf : ∀ a r', Q a r' → Triple J A r' (f a) T) : Triple J A r (p >>= f) T := by
  apply Triple.bind hp
  · rintro a r' ⟨a', ha, hQ⟩
    cases ha
    exact hf a r' hQ
  · rintro e r' ⟨a, ha, -⟩
    cases ha

theorem conseq (h : ∀ a r', Q a r' → Q' a r') :
    Returns J A r p Q' := by
  apply Triple.conseq hp
  rintro x r' ⟨a, hx, hQ⟩
  exact ⟨a, hx, h a r' hQ⟩

end

/-- The resource may be exchanged before the program goes on. -/
theorem update (h : ∀ s F, J s (r + F) → J s (r' + F)) (hp : Returns J A r' p Q) :
    Returns J A r p Q :=
  Triple.update fun s F hJ => ⟨r', h s F hJ, hp⟩

/-- An action with one outcome, which is a value. -/
theorem act {l : ℓ} {g : σ → α × σ} (h : ∀ s F, J s (r + F) → A s l →
    ∃ r', J (g s).2 (r' + F) ∧ Q (g s).1 r') :
    Returns J A r (Program.act l fun s => [(.ok (g s).1, (g s).2)] : Program σ ℓ ε α) Q := by
  apply Triple.act
  intro s F hJ hA o ho
  rw [List.mem_singleton.mp ho]
  obtain ⟨r', hJ', hQ⟩ := h s F hJ hA
  exact ⟨r', hJ', (g s).1, rfl, hQ⟩

end

variable [AddCommMonoid R] {r : R}

/-- A program does not touch what it does not use. -/
theorem frame (hp : Returns J A r p Q) (F : R) :
    Returns J A (r + F) p fun a r' => ∃ r₁, r' = r₁ + F ∧ Q a r₁ := by
  apply Triple.conseq (Triple.frame hp F)
  rintro x r' ⟨r₁, rfl, a, hx, hQ⟩
  exact ⟨a, hx, r₁, rfl, hQ⟩

/-- What is done for each element of a list uses up what is there for it. -/
theorem forM {l : List α} {r : α → R} {g : α → Program σ ℓ ε PUnit}
    (h : ∀ a ∈ l, Returns J A (r a) (g a) fun _ r' => r' = 0) :
    Returns J A (l.map r).sum (l.forM g) fun _ r' => r' = 0 := by
  induction l with
  | nil => exact Returns.pure rfl
  | cons a l ih =>
    rw [List.map_cons, List.sum_cons]
    change Returns J A _ (g a >>= fun _ => l.forM g) _
    apply Returns.bind ((h a List.mem_cons_self).frame _)
    rintro _ R' ⟨R₁, rfl, rfl⟩
    rw [zero_add]
    exact ih fun b hb => h b (List.mem_cons_of_mem _ hb)

end Returns

/-- A program that gives back what it finds, whatever that is. -/
def Quiet {R : Type} [Add R] (J : σ → R → Prop) (A : σ → ℓ → Prop) (p : Program σ ℓ ε α)
    (φ : Except ε α → Prop) : Prop :=
  ∀ r, Triple J A r p fun x r' => r' = r ∧ φ x

namespace Quiet

variable {R : Type} [Add R] {J : σ → R → Prop} {A : σ → ℓ → Prop} {p : Program σ ℓ ε α}
  {φ φ' : Except ε α → Prop} {ψ : Except ε β → Prop}

theorem pure {a : α} (h : φ (.ok a)) : Quiet J A (Pure.pure a : Program σ ℓ ε α) φ :=
  fun _ => Triple.pure ⟨rfl, h⟩

theorem throw {e : ε} (h : φ (.error e)) :
    Quiet J A (MonadExcept.throw e : Program σ ℓ ε α) φ := fun _ => Triple.throw ⟨rfl, h⟩

/-- An action that keeps the invariant whatever the threads own. -/
theorem act {l : ℓ} {outcomes : σ → List (Except ε α × σ)}
    (h : ∀ s, A s l → ∀ o ∈ outcomes s, (∀ r, J s r → J o.2 r) ∧ φ o.1) :
    Quiet J A (.act l outcomes) φ :=
  fun r => Triple.act fun s _ hJ hA o ho => ⟨r, (h s hA o ho).1 _ hJ, rfl, (h s hA o ho).2⟩

theorem mono (h : Quiet J A p φ) (hφ : ∀ x, φ x → φ' x) : Quiet J A p φ' :=
  fun r => (h r).conseq fun _ _ hx => ⟨hx.1, hφ _ hx.2⟩

theorem bind {f : α → Program σ ℓ ε β} (hp : Quiet J A p φ)
    (hok : ∀ a, φ (.ok a) → Quiet J A (f a) ψ) (herror : ∀ e, φ (.error e) → ψ (.error e)) :
    Quiet J A (p >>= f) ψ := by
  intro r
  refine (hp r).bind ?_ ?_
  · rintro a r' ⟨rfl, ha⟩
    exact hok a ha r'
  · rintro e r' ⟨rfl, he⟩
    exact ⟨rfl, herror e he⟩

theorem tryCatch {h : ε → Program σ ℓ ε α} (hp : Quiet J A p φ)
    (hok : ∀ a, φ (.ok a) → φ' (.ok a)) (herror : ∀ e, φ (.error e) → Quiet J A (h e) φ') :
    Quiet J A (MonadExcept.tryCatch p h) φ' := by
  intro r
  refine (hp r).tryCatch ?_ ?_
  · rintro a r' ⟨rfl, ha⟩
    exact ⟨rfl, hok a ha⟩
  · rintro e r' ⟨rfl, he⟩
    exact herror e he r'

theorem ensuring {q : Program σ ℓ ε Unit} (hp : Quiet J A p φ)
    (hq : Quiet J A q fun _ => True) : Quiet J A (p.ensuring q) φ := by
  intro r
  refine (hp r).ensuring ?_
  rintro x r' ⟨rfl, hx⟩
  refine (hq r').conseq ?_
  rintro _ r'' ⟨rfl, -⟩
  exact ⟨rfl, hx⟩

theorem loop {body : Program σ ℓ ε (Option α)} (h : Quiet J A body fun x =>
      match x with
      | .ok none => True
      | .ok (some a) => φ (.ok a)
      | .error e => φ (.error e)) :
    Quiet J A (Program.loop body) φ := by
  intro r
  refine Triple.loop (I := fun r' => r' = r) rfl fun r' hr => ?_
  subst hr
  refine (h r').conseq ?_
  rintro x r'' ⟨rfl, hx⟩
  cases x with
  | error e => exact ⟨rfl, hx⟩
  | ok o =>
    cases o with
    | none => rfl
    | some a => exact ⟨rfl, hx⟩

end Quiet

end Program

open Program

/-- A shared state with the operations that were started on it and what they still have to
do. -/
structure Machine (σ ℓ ε ω : Type) : Type 1 where
  shared : σ
  threads : List (ω × Program σ ℓ ε Unit)

/-- Start an operation, or let a thread take the step of its choice. -/
inductive Move (ω : Type)
  | start (operation : ω)
  | step (thread choice : Nat)
  deriving DecidableEq

namespace Machine

variable {σ ℓ ε ω : Type}

/-- One move of the machine; `run` gives each operation its program. -/
def move (run : ω → Program σ ℓ ε Unit) (m : Machine σ ℓ ε ω) :
    Move ω → Option (Machine σ ℓ ε ω)
  | .start o => some { m with threads := m.threads ++ [(o, run o)] }
  | .step i c => do
    let p ← m.threads[i]?
    let t ← (p.2.next m.shared)[c]?
    some { shared := t.2, threads := m.threads.set i (p.1, t.1) }

/-- The condition on a run that every action taken meets `A` where it is taken. -/
def Allows (A : σ → ℓ → Prop) (m : Machine σ ℓ ε ω) : Move ω → Prop
  | .start _ => True
  | .step i _ => ∀ p ∈ m.threads[i]?, ∀ l ∈ p.2.label?, A m.shared l

instance (A : σ → ℓ → Prop) [∀ s l, Decidable (A s l)] (m : Machine σ ℓ ε ω) (l : Move ω) :
    Decidable (m.Allows A l) :=
  match l with
  | .start _ => isTrue trivial
  | .step i _ =>
    match hp : m.threads[i]? with
    | none => isTrue (by simp [Allows, hp])
    | some p =>
      match hl : p.2.label? with
      | none => isTrue (by simp [Allows, hp, hl])
      | some l => decidable_of_iff (A m.shared l) (by simp [Allows, hp, hl])

/-- No operation is running. -/
def quiescent (m : Machine σ ℓ ε ω) : Bool := m.threads.all fun p => p.2.value?.isSome

section sound

variable {R : Type} [AddCommMonoid R] {J : σ → R → Prop} {A : σ → ℓ → Prop}
  {φ : ω → Except ε Unit → Prop} {run : ω → Program σ ℓ ε Unit} {s₀ : σ}
  {m : Machine σ ℓ ε ω}

/-- A thread that is safe for `n` steps, gives back all it owns, and ends as its operation
promises. -/
def Promised (J : σ → R → Prop) (A : σ → ℓ → Prop) (φ : ω → Except ε Unit → Prop) (n : Nat)
    (t : ω × Program σ ℓ ε Unit) (r : R) : Prop :=
  Safe J A n r t.2 fun x r' => r' = 0 ∧ φ t.1 x

/-- Each thread owns a resource, and the invariant holds of the sum of the resources. -/
def Owned (J : σ → R → Prop) (A : σ → ℓ → Prop) (φ : ω → Except ε Unit → Prop) (n : Nat)
    (m : Machine σ ℓ ε ω) : Prop :=
  ∃ rs : List R, J m.shared rs.sum ∧ List.Forall₂ (Promised J A φ n) m.threads rs

theorem sum_eq_getElem_add (rs : List R) {i : Nat} (hi : i < rs.length) :
    rs.sum = rs[i] + ((rs.take i).sum + (rs.drop (i + 1)).sum) := by
  conv_lhs => rw [← List.take_append_drop i rs, List.drop_eq_getElem_cons hi]
  rw [List.sum_append, List.sum_cons, add_left_comm]

theorem sum_set (rs : List R) {i : Nat} (hi : i < rs.length) (r : R) :
    (rs.set i r).sum = r + ((rs.take i).sum + (rs.drop (i + 1)).sum) := by
  rw [List.set_eq_take_append_cons_drop, if_pos hi, List.sum_append, List.sum_cons,
    add_left_comm]

section

variable (hrun : ∀ o, Triple J A 0 (run o) fun x r => r = 0 ∧ φ o x)

include hrun

theorem Owned.move {l : Move ω}
    {m' : Machine σ ℓ ε ω} {n : Nat} (h : Owned J A φ (n + 1) m) (hA : m.Allows A l)
    (hm : m.move run l = some m') : Owned J A φ n m' := by
  obtain ⟨rs, hJ, hrs⟩ := h
  cases l with
  | start o =>
    cases hm
    refine ⟨rs ++ [0], by simpa using hJ, List.rel_append ?_ (.cons (hrun o n) .nil)⟩
    exact hrs.imp fun p r hp => hp.of_succ
  | step i c =>
    obtain ⟨p, hp, hm⟩ := Option.bind_eq_some_iff.mp hm
    obtain ⟨t, ht, hm⟩ := Option.bind_eq_some_iff.mp hm
    cases hm
    obtain ⟨hi, rfl⟩ := List.getElem?_eq_some_iff.mp hp
    have hi' : i < rs.length := hrs.length_eq ▸ hi
    rw [sum_eq_getElem_add rs hi'] at hJ
    obtain ⟨r', hJ', ht'⟩ := (hrs.get hi hi').2 _ _ hJ (fun l hl => hA _ hp l hl) t
      (List.mem_of_getElem? ht)
    refine ⟨rs.set i r', by rwa [sum_set rs hi'], ?_⟩
    rw [List.set_eq_take_append_cons_drop, List.set_eq_take_append_cons_drop, if_pos hi,
      if_pos hi']
    have hle : List.Forall₂ (Promised J A φ n) m.threads rs :=
      hrs.imp fun p r hp => hp.of_succ
    exact List.rel_append (List.forall₂_take i hle) (.cons ht' (List.forall₂_drop (i + 1) hle))

/-- However the threads interleave, the invariant holds of what they own together. -/
theorem Owned.of_reach
    (hJ : J s₀ 0) (h : Reach (Machine.move run) (Allows A) ⟨s₀, []⟩ m) (n : Nat) :
    Owned J A φ n m := by
  induction h generalizing n with
  | refl => exact ⟨[], hJ, .nil⟩
  | tail _ hA hm ih => exact (ih (n + 1)).move hrun hA hm

end

/-- Threads that have all ended own nothing. -/
theorem invariant_of_ended {s : σ} {ps : List (ω × Program σ ℓ ε Unit)} {rs : List R} {F : R}
    (hrs : List.Forall₂ (Promised J A φ 1) ps rs)
    (hends : ∀ p ∈ ps, p.2.value?.isSome = true) (hJ : J s (rs.sum + F)) : J s F := by
  induction hrs generalizing F with
  | nil => simpa using hJ
  | @cons p r ps rs hp hrest ih =>
    rw [List.forall_mem_cons] at hends
    obtain ⟨x, hx⟩ := Option.isSome_iff_exists.mp hends.1
    rw [List.sum_cons, add_assoc] at hJ
    obtain ⟨r', hJ', rfl, -⟩ := hp.1 x hx _ _ hJ
    exact ih hends.2 (by rwa [zero_add] at hJ')

section

variable (hrun : ∀ o, Triple J A 0 (run o) fun x r => r = 0 ∧ φ o x)

include hrun

/-- Where no operation is running, nothing is owned and the invariant holds. -/
theorem invariant_of_quiescent
    (hJ : J s₀ 0) (h : Reach (Machine.move run) (Allows A) ⟨s₀, []⟩ m)
    (hq : m.quiescent = true) : J m.shared 0 := by
  obtain ⟨rs, hJ', hrs⟩ := Owned.of_reach hrun hJ h 1
  rw [← add_zero rs.sum] at hJ'
  exact invariant_of_ended hrs (List.all_eq_true.mp hq) hJ'

/-- Every operation that has ended has ended as it promises. -/
theorem promise_of_reach
    (hJ : J s₀ 0) (h : Reach (Machine.move run) (Allows A) ⟨s₀, []⟩ m)
    {t : ω × Program σ ℓ ε Unit} (ht : t ∈ m.threads) {x : Except ε Unit}
    (hx : t.2.value? = some x) : φ t.1 x := by
  obtain ⟨rs, hJ', hrs⟩ := Owned.of_reach hrun hJ h 1
  obtain ⟨i, hi, rfl⟩ := List.getElem_of_mem ht
  have hi' : i < rs.length := hrs.length_eq ▸ hi
  rw [sum_eq_getElem_add rs hi'] at hJ'
  obtain ⟨-, -, -, hφ⟩ := (hrs.get hi hi').1 x hx _ _ hJ'
  exact hφ

end

end sound

end Machine

end Ice.Lib
