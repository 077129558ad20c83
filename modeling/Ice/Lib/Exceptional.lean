import Mathlib.Init

/-!
# Programs that throw and keep what they have done

A program of the state monad `EStateM` may throw, and what it has written before
stays written. `Spec P x Q R` says where a program ends when it starts in a state
that meets `P`: in `Q` with the value it returns, or in `R` with the exception it
throws. There is one rule for each way of building a program; a loop has the usual
invariant rule.
-/

namespace Ice.Lib

variable {ε σ α β : Type} {P P' : σ → Prop} {Q Q' : α → σ → Prop} {R R' : ε → σ → Prop}

/-- The state a program ends in, whether it returns or throws. -/
def final (x : EStateM ε σ α) (s : σ) : σ :=
  match x s with
  | .ok _ t => t
  | .error _ t => t

/-- The program returns. -/
def returns (x : EStateM ε σ α) (s : σ) : Bool :=
  match x s with
  | .ok _ _ => true
  | .error _ _ => false

variable {s t : σ} {x : EStateM ε σ α}

theorem eq_ok_of_returns (h : returns x s = true) : ∃ a, x s = .ok a (final x s) := by
  unfold returns final at *
  cases hx : x s with
  | ok a t => exact ⟨a, rfl⟩
  | error e t => simp [hx] at h

variable {a : α}

/-- A program goes on where its first part returns. -/
theorem bind_of_ok (h : x s = .ok a t) (f : α → EStateM ε σ β) : (x >>= f) s = f a t := by
  change EStateM.bind x f s = f a t
  unfold EStateM.bind
  rw [h]

variable {e : ε}

theorem bind_of_error (h : x s = .error e t) (f : α → EStateM ε σ β) :
    (x >>= f) s = .error e t := by
  change EStateM.bind x f s = .error e t
  unfold EStateM.bind
  rw [h]

theorem final_bind (h : x s = .ok a t) (f : α → EStateM ε σ β) :
    final (x >>= f) s = final (f a) t := by
  unfold final
  rw [bind_of_ok h]

variable {f : α → EStateM ε σ β}

/-- What runs to an end has run its first part to an end. -/
theorem ok_of_bind {u : σ} {b : β} (h : (x >>= f) s = .ok b u) :
    ∃ a t, x s = .ok a t ∧ f a t = .ok b u := by
  cases hx : x s with
  | ok a t =>
    rw [bind_of_ok hx] at h
    exact ⟨a, t, rfl, h⟩
  | error e t =>
    rw [bind_of_error hx] at h
    contradiction

/-- What holds where a program ends. -/
def Spec (P : σ → Prop) (x : EStateM ε σ α) (Q : α → σ → Prop) (R : ε → σ → Prop) : Prop :=
  ∀ s, P s →
    match x s with
    | .ok a t => Q a t
    | .error e t => R e t

/-- A program keeps an invariant, whether it returns or throws. -/
def Keeps (I : σ → Prop) (x : EStateM ε σ α) : Prop := Spec I x (fun _ => I) (fun _ => I)

namespace Spec

variable {x : EStateM ε σ α}

/-- What holds however a program ends holds of its final state. -/
theorem final {I : σ → Prop} {s : σ} (h : Spec P x (fun _ => I) (fun _ => I)) (hs : P s) :
    I (Lib.final x s) := by
  have hx := h s hs
  unfold Lib.final
  cases hr : x s with
  | ok a t | error e t => simpa only [hr] using hx

/-- What holds where a program returns. -/
theorem of_ok {s t : σ} (h : Spec P x Q R) (hs : P s) (hx : x s = .ok a t) : Q a t := by
  have hq := h s hs
  rw [hx] at hq
  exact hq

/-- The rule of consequence. -/
theorem conseq (h : Spec P x Q R) (hP : ∀ s, P' s → P s) (hQ : ∀ a s, Q a s → Q' a s)
    (hR : ∀ e s, R e s → R' e s) : Spec P' x Q' R' := by
  intro s hs
  have hx := h s (hP s hs)
  cases hr : x s with
  | ok a t => exact hQ a t (by simpa only [hr] using hx)
  | error e t => exact hR e t (by simpa only [hr] using hx)

/-- A precondition may be split into its states. -/
theorem of_forall (h : ∀ s, P s → Spec (· = s) x Q R) : Spec P x Q R :=
  fun s hs => h s hs s rfl

theorem pure (h : ∀ s, P s → Q a s) :
    Spec P (Pure.pure a : EStateM ε σ α) Q R := fun s hs => h s hs

theorem throw (h : ∀ s, P s → R e s) :
    Spec P (MonadExcept.throw e : EStateM ε σ α) Q R := fun s hs => h s hs

variable {T : β → σ → Prop}

theorem bind (hx : Spec P x Q R)
    (hf : ∀ a, Spec (Q a) (f a) T R) : Spec P (x >>= f) T R := by
  intro s hs
  have hq := hx s hs
  change match EStateM.bind x f s with | .ok a t => T a t | .error e t => R e t
  unfold EStateM.bind
  cases hr : x s with
  | ok a t =>
    rw [hr] at hq
    exact hf a t hq
  | error e t =>
    rw [hr] at hq
    exact hq

/-- Reading the state binds the very state that is met. -/
theorem get_bind {f : σ → EStateM ε σ β}
    (hf : ∀ s, P s → Spec (· = s) (f s) T R) : Spec P (MonadState.get >>= f) T R :=
  fun s hs => hf s hs s rfl

theorem modify {Q : PUnit → σ → Prop} {g : σ → σ} (h : ∀ s, P s → Q ⟨⟩ (g s)) :
    Spec P (modify g : EStateM ε σ PUnit) Q R := fun s hs => h s hs

theorem ite {c : Prop} [Decidable c] {y : EStateM ε σ α} (hx : c → Spec P x Q R)
    (hy : ¬c → Spec P y Q R) : Spec P (if c then x else y) Q R := by
  by_cases hc : c
  · rw [if_pos hc]
    exact hx hc
  · rw [if_neg hc]
    exact hy hc

/-- A handler runs in the state the exception left. -/
theorem tryCatch {h : ε → EStateM ε σ α} {T : ε → σ → Prop} (hx : Spec P x Q T)
    (hh : ∀ e, Spec (T e) (h e) Q R) : Spec P (MonadExcept.tryCatch x h) Q R := by
  intro s hs
  have hq := hx s hs
  change match EStateM.tryCatch x h s with | .ok a t => Q a t | .error e t => R e t
  unfold EStateM.tryCatch
  cases hr : x s with
  | ok a t =>
    rw [hr] at hq
    exact hq
  | error e t =>
    rw [hr] at hq
    exact hh e t hq

/-- The rule of a loop over a list: `I` is indexed by what is still to be visited. -/
theorem forM {I : List α → σ → Prop} {f : α → EStateM ε σ PUnit} :
    ∀ xs : List α, (∀ x rest, Spec (I (x :: rest)) (f x) (fun _ => I rest) R) →
      Spec (I xs) (xs.forM f) (fun _ => I []) R
  | [], _ => pure fun _ h => h
  | x :: rest, hf => bind (hf x rest) fun _ => forM rest hf

end Spec

/-- The states from which a program ends in `Q` or throws in `R`. -/
def wp (x : EStateM ε σ α) (Q : α → σ → Prop) (R : ε → σ → Prop) (s : σ) : Prop :=
  match x s with
  | .ok a t => Q a t
  | .error e t => R e t

theorem spec_iff_wp : Spec P x Q R ↔ ∀ s, P s → wp x Q R s := Iff.rfl

theorem Spec.wp (h : Spec P x Q R) (hs : P s) : wp x Q R s := h s hs

section

variable {s : σ} {x y : EStateM ε σ α}

@[simp]
theorem wp_pure : wp (pure a : EStateM ε σ α) Q R s ↔ Q a s := Iff.rfl

@[simp]
theorem wp_throw : wp (throw e : EStateM ε σ α) Q R s ↔ R e s := Iff.rfl

@[simp]
theorem wp_get {Q : σ → σ → Prop} : wp (get : EStateM ε σ σ) Q R s ↔ Q s s := Iff.rfl

@[simp]
theorem wp_modify {Q : PUnit → σ → Prop} {f : σ → σ} :
    wp (modify f : EStateM ε σ PUnit) Q R s ↔ Q ⟨⟩ (f s) := Iff.rfl

variable {t : σ}

@[simp]
theorem wp_set {Q : PUnit → σ → Prop} :
    wp (set t : EStateM ε σ PUnit) Q R s ↔ Q ⟨⟩ t := Iff.rfl

@[simp]
theorem wp_modifyGet {f : σ → α × σ} :
    wp (modifyGet f : EStateM ε σ α) Q R s ↔ Q (f s).1 (f s).2 := Iff.rfl

/-- A handler goes on from where the exception was thrown. -/
@[simp]
theorem wp_tryCatch {h : ε → EStateM ε σ α} :
    wp (tryCatch x h) Q R s ↔ wp x Q (fun e t => wp (h e) Q R t) s := by
  change wp (EStateM.tryCatch x h) Q R s ↔ _
  unfold wp EStateM.tryCatch
  cases hx : x s with
  | ok a t => rfl
  | error e t => rfl

@[simp]
theorem wp_bind {Q : β → σ → Prop} :
    wp (x >>= f) Q R s ↔ wp x (fun a t => wp (f a) Q R t) R s := by
  unfold wp
  cases h : x s with
  | ok a t => rw [bind_of_ok h]
  | error e t => rw [bind_of_error h]

theorem wp_ite {c : Prop} [Decidable c] :
    wp (if c then x else y) Q R s ↔ (c → wp x Q R s) ∧ (¬c → wp y Q R s) := by
  by_cases h : c
  · simp [h]
  · simp [h]

theorem wp_of_ok (h : x s = .ok a t) : wp x Q R s ↔ Q a t := by
  unfold wp
  rw [h]

theorem wp_of_error (h : x s = .error e t) : wp x Q R s ↔ R e t := by
  unfold wp
  rw [h]

/-- What a program guarantees holds of its final state. -/
theorem wp_final {P : σ → Prop} (h : wp x (fun _ => P) (fun _ => P) s) : P (final x s) := by
  unfold wp final at *
  cases hx : x s with
  | ok a t => rwa [hx] at h
  | error e t => rwa [hx] at h

theorem wp_mono (h : wp x Q R s) (hQ : ∀ a t, Q a t → Q' a t) (hR : ∀ e t, R e t → R' e t) :
    wp x Q' R' s := by
  unfold wp at *
  cases hx : x s with
  | ok a t =>
    rw [hx] at h
    exact hQ a t h
  | error e t =>
    rw [hx] at h
    exact hR e t h

end

namespace Keeps

variable {I : σ → Prop} {x : EStateM ε σ α}

theorem pure : Keeps I (Pure.pure a : EStateM ε σ α) := fun _ hs => hs

theorem throw : Keeps I (MonadExcept.throw e : EStateM ε σ α) := fun _ hs => hs

theorem get : Keeps I (MonadState.get : EStateM ε σ σ) := fun _ hs => hs

theorem bind (hx : Keeps I x) (hf : ∀ a, Keeps I (f a)) :
    Keeps I (x >>= f) := Spec.bind hx hf

theorem modify {g : σ → σ} (h : ∀ s, I s → I (g s)) :
    Keeps I (modify g : EStateM ε σ PUnit) := Spec.modify h

theorem modifyGet {g : σ → α × σ} (h : ∀ s, I s → I (g s).2) :
    Keeps I (modifyGet g : EStateM ε σ α) := h

/-- What is read meets the invariant. -/
theorem get_bind {f : σ → EStateM ε σ β} (h : ∀ s, I s → Keeps I (f s)) :
    Keeps I (MonadState.get >>= f) := fun s hs => h s hs s hs

theorem set {t : σ} (h : I t) : Keeps I (MonadStateOf.set t : EStateM ε σ PUnit) := fun _ _ => h

theorem ite {c : Prop} [Decidable c] {y : EStateM ε σ α} (hx : Keeps I x) (hy : Keeps I y) :
    Keeps I (if c then x else y) := Spec.ite (fun _ => hx) fun _ => hy

theorem tryCatch {h : ε → EStateM ε σ α} (hx : Keeps I x) (hh : ∀ e, Keeps I (h e)) :
    Keeps I (MonadExcept.tryCatch x h) := Spec.tryCatch hx hh

theorem forM {f : α → EStateM ε σ PUnit} :
    ∀ {xs : List α}, (∀ x ∈ xs, Keeps I (f x)) → Keeps I (xs.forM f)
  | [], _ => pure
  | x :: _, h => bind (h x (List.mem_cons_self ..)) fun _ =>
    forM fun y hy => h y (List.mem_cons_of_mem x hy)

/-- An invariant that is kept holds of the final state. -/
theorem final {s : σ} (h : Keeps I x) (hs : I s) : I (Lib.final x s) := Spec.final h hs

end Keeps

end Ice.Lib
