import Mathlib.Init

/-!
# Labelled transition systems with computed steps

A step is a partial function of a state and a label, so that every run can be
evaluated and all nondeterminism sits in the labels. `Reach step P s₀` collects
the states reached from `s₀` when every label taken meets the condition `P` in
the state it is taken from; `Reach.invariant` is the induction rule.
-/

namespace Ice.Lib

variable {σ ℓ : Type*} {step : σ → ℓ → Option σ} {P Q : σ → ℓ → Prop} {s₀ s s' : σ}

/-- States reached from `s₀` by steps that all meet `P`. -/
inductive Reach (step : σ → ℓ → Option σ) (P : σ → ℓ → Prop) (s₀ : σ) : σ → Prop
  | refl : Reach step P s₀ s₀
  | tail {s s' : σ} {l : ℓ} :
      Reach step P s₀ s → P s l → step s l = some s' → Reach step P s₀ s'

/-- The condition every label meets. -/
def Any (_ : σ) (_ : ℓ) : Prop := True

variable {I : σ → Prop} {ls : List ℓ}

section

variable (h : Reach step P s₀ s)

include h

/-- A predicate that holds initially and is kept by every step that meets the
condition holds of every reached state. -/
theorem Reach.invariant (hinit : I s₀)
    (hstep : ∀ s l s', I s → P s l → step s l = some s' → I s') : I s := by
  induction h with
  | refl => exact hinit
  | tail _ hp hs ih => exact hstep _ _ _ ih hp hs

/-- A weaker condition on the steps reaches more states. -/
theorem Reach.mono (hPQ : ∀ s l, P s l → Q s l) :
    Reach step Q s₀ s := by
  induction h with
  | refl => exact .refl
  | tail _ hp hs ih => exact .tail ih (hPQ _ _ hp) hs

end

/-- The state after taking the labels one after the other. -/
def run (step : σ → ℓ → Option σ) : σ → List ℓ → Option σ
  | s, [] => some s
  | s, l :: ls => (step s l).bind fun s' => run step s' ls

/-- The induction rule for an invariant that depends on the labels taken. -/
theorem run_induction {I : List ℓ → σ → Prop} (h : run step s₀ ls = some s) (hinit : I [] s₀)
    (hstep : ∀ ls s l s', I ls s → step s l = some s' → I (ls ++ [l]) s') : I ls s := by
  induction ls generalizing s₀ I with
  | nil => exact Option.some.inj h ▸ hinit
  | cons l ls ih =>
    obtain ⟨t, ht, hrun⟩ := Option.bind_eq_some_iff.mp h
    apply @ih t (fun ls s => I (l :: ls) s) hrun
    · exact hstep [] s₀ l t hinit ht
    · intro ls s l' s' hI hs
      exact hstep (l :: ls) s l' s' hI hs

/-- How many labels of a run meet a test where they are taken -/
def occurrences (step : σ → ℓ → Option σ) (p : σ → ℓ → Bool) : σ → List ℓ → Nat
  | _, [] => 0
  | s, l :: ls => (p s l).toNat + ((step s l).map fun s' => occurrences step p s' ls).getD 0

/-- A value that goes up with the labels of one test and down with those of another tells how much
more often the one was met. -/
theorem run_balance {v : σ → Int} {up down : σ → ℓ → Bool} (h : run step s₀ ls = some s)
    (hinit : I s₀)
    (hstep : ∀ s l s', I s → step s l = some s' →
      I s' ∧ v s' = v s + (up s l).toNat - (down s l).toNat) :
    I s ∧ v s = v s₀ + occurrences step up s₀ ls - occurrences step down s₀ ls := by
  induction ls generalizing s₀ with
  | nil =>
    cases Option.some.inj h
    refine ⟨hinit, ?_⟩
    simp [occurrences]
  | cons l ls ih =>
    obtain ⟨t, ht, hrun⟩ := Option.bind_eq_some_iff.mp h
    obtain ⟨hI, hv⟩ := hstep _ _ _ hinit ht
    obtain ⟨hlast, heq⟩ := ih hrun hI
    refine ⟨hlast, ?_⟩
    rw [heq, hv, occurrences, occurrences, ht]
    simp only [Option.map_some, Option.getD_some]
    omega

/-- An evaluated run witnesses a reached state. -/
theorem Reach.of_run (hr : Reach step Any s₀ s) (h : run step s ls = some s') :
    Reach step Any s₀ s' := by
  induction ls generalizing s with
  | nil => exact Option.some.inj h ▸ hr
  | cons l ls ih =>
    obtain ⟨t, ht, hrun⟩ := Option.bind_eq_some_iff.mp h
    exact ih (hr.tail trivial ht) hrun

variable {p : σ → ℓ → Bool}

/-- An evaluated run whose labels pass a test where they are taken. -/
theorem Reach.of_runWhere (hp : ∀ s l, p s l = true → P s l)
    (hr : Reach step P s₀ s)
    (h : run (fun s l => if p s l then step s l else none) s ls = some s') :
    Reach step P s₀ s' := by
  induction ls generalizing s with
  | nil => exact Option.some.inj h ▸ hr
  | cons l ls ih =>
    obtain ⟨t, ht, hrun⟩ := Option.bind_eq_some_iff.mp h
    dsimp only at ht
    split at ht
    · rename_i hl
      exact ih (hr.tail (hp s l hl) ht) hrun
    · cases ht

/-- A test that succeeds after a run holds of a reached state. -/
theorem Reach.exists_of_run {p : σ → Bool} (h : (run step s₀ ls).any p = true) :
    ∃ s, Reach step Any s₀ s ∧ p s = true := by
  cases hr : run step s₀ ls with
  | none => simp [hr] at h
  | some s => exact ⟨s, .of_run .refl hr, by simpa [hr] using h⟩

/-- A test that succeeds after a run whose labels pass a test where they are taken. -/
theorem Reach.exists_of_runWhere {q : σ → Bool}
    (hp : ∀ s l, p s l = true → P s l)
    (h : (run (fun s l => if p s l then step s l else none) s₀ ls).any q = true) :
    ∃ s, Reach step P s₀ s ∧ q s = true := by
  cases hr : run (fun s l => if p s l then step s l else none) s₀ ls with
  | none => simp [hr] at h
  | some s => exact ⟨s, .of_runWhere hp .refl hr, by simpa [hr] using h⟩

end Ice.Lib
