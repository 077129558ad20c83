import Mathlib.Computability.Language

/-!
# Languages of words over a set of letters

Words whose letters all meet a condition, and how words grow by a letter at their end: a machine
that reads a word letter by letter goes from one language to the next.
-/

namespace Ice.Lib

open scoped Computability
open Language (append_mem_mul join_mem_kstar mem_kstar mem_mul)

variable {α : Type*} {A B B' : Language α} {P Q : α → Prop} {l b : List α} {a : α}

/-- The words whose letters all meet a condition -/
def wordsOver (P : α → Prop) : Language α := {l | ∀ a ∈ l, P a}

/-- Those that are not empty -/
def someOver (P : α → Prop) : Language α := {l | l ≠ [] ∧ ∀ a ∈ l, P a}

theorem mem_over : l ∈ wordsOver P ↔ ∀ a ∈ l, P a := Iff.rfl

/-- A closed word is checked by evaluation. -/
theorem forall_of_all [DecidablePred P] (h : l.all (fun a => decide (P a)) = true) :
    ∀ a ∈ l, P a := by
  intro a ha
  exact of_decide_eq_true (List.all_eq_true.mp h a ha)

theorem nil_mem_over (P : α → Prop) : [] ∈ wordsOver P := by
  simp [mem_over]

theorem over_snoc (h : l ∈ wordsOver P) (ha : P a) : l ++ [a] ∈ wordsOver P := by
  intro x hx
  rcases List.mem_append.mp hx with hx | hx
  · exact h x hx
  · rw [List.mem_singleton.mp hx]
    exact ha

theorem someOver_snoc (h : l ∈ wordsOver P) (ha : P a) : l ++ [a] ∈ someOver P :=
  ⟨by simp, over_snoc h ha⟩

theorem singleton_mem_someOver (ha : P a) : [a] ∈ someOver P :=
  someOver_snoc (nil_mem_over P) ha

theorem over_of_someOver (h : l ∈ someOver P) : l ∈ wordsOver P := h.2

/-- A letter is put behind the second part of a word. -/
theorem mul_snoc (h : l ∈ A * B) (hB : ∀ b ∈ B, b ++ [a] ∈ B') : l ++ [a] ∈ A * B' := by
  obtain ⟨u, hu, v, hv, rfl⟩ := mem_mul.mp h
  rw [List.append_assoc]
  exact append_mem_mul hu (hB v hv)

/-- A letter begins the next part of a word. -/
theorem mul_begin (h : l ∈ A) (hB : [a] ∈ B) : l ++ [a] ∈ A * B :=
  append_mem_mul h hB

/-- A part that may be empty was not begun. -/
theorem mul_nil (h : l ∈ A) (hB : [] ∈ B) : l ∈ A * B := by
  rw [← List.append_nil l]
  exact append_mem_mul h hB

theorem mul_mono_right (h : l ∈ A * B) (hB : ∀ b ∈ B, b ∈ B') : l ∈ A * B' := by
  obtain ⟨u, hu, v, hv, rfl⟩ := mem_mul.mp h
  exact append_mem_mul hu (hB v hv)

theorem kstar_append (h : l ∈ A∗) (hb : b ∈ A) : l ++ b ∈ A∗ := by
  obtain ⟨words, rfl, hwords⟩ := mem_kstar.mp h
  rw [mem_kstar]
  refine ⟨words ++ [b], by simp, ?_⟩
  intro w hw
  rcases List.mem_append.mp hw with hw | hw
  · exact hwords w hw
  · rw [List.mem_singleton.mp hw]
    exact hb

/-- The induction rule for words that grow by a part at their end -/
theorem kstar_induction {I : List α → Prop} (h : l ∈ A∗) (hnil : I [])
    (happend : ∀ u ∈ A∗, ∀ b ∈ A, I u → I (u ++ b)) : I l := by
  obtain ⟨words, rfl, hwords⟩ := mem_kstar.mp h
  induction words using List.reverseRecOn with
  | nil => exact hnil
  | append_singleton words b ih =>
    rw [List.flatten_append, List.flatten_singleton]
    have hinit : ∀ w ∈ words, w ∈ A := fun w hw => hwords w (List.mem_append_left _ hw)
    apply happend
    · exact join_mem_kstar hinit
    · exact hwords b (List.mem_append_right _ (List.mem_singleton_self b))
    · exact ih hinit (join_mem_kstar hinit)

/-- The words whose last letter meets a condition -/
def endsIn (P : α → Prop) : Language α := {l | ∃ u a, l = u ++ [a] ∧ P a}

/-- The words whose first letter meets a condition -/
def startsIn (P : α → Prop) : Language α := {l | ∃ a u, l = a :: u ∧ P a}

theorem mem_endsIn_snoc : l ++ [a] ∈ endsIn P ↔ P a := by
  constructor
  · rintro ⟨u, b, heq, hb⟩
    rw [(List.append_inj' heq rfl).2 |> List.singleton_inj.mp]
    exact hb
  · intro ha
    exact ⟨l, a, rfl, ha⟩

theorem endsIn_append (hb : b ∈ endsIn P) : l ++ b ∈ endsIn P := by
  obtain ⟨u, a, rfl, ha⟩ := hb
  exact ⟨l ++ u, a, (List.append_assoc l u [a]).symm, ha⟩

theorem endsIn_mono (h : l ∈ endsIn P) (hPQ : ∀ a, P a → Q a) : l ∈ endsIn Q := by
  obtain ⟨u, a, heq, ha⟩ := h
  exact ⟨u, a, heq, hPQ a ha⟩

theorem not_endsIn (h : l ∈ endsIn P) (hPQ : ∀ a, P a → ¬ Q a) : l ∉ endsIn Q := by
  intro hQ
  obtain ⟨u, a, rfl, ha⟩ := h
  exact hPQ a ha (mem_endsIn_snoc.mp hQ)

theorem endsIn_of_mul (h : l ∈ A * B) (hB : ∀ b ∈ B, b ∈ endsIn P) : l ∈ endsIn P := by
  obtain ⟨u, _, v, hv, rfl⟩ := mem_mul.mp h
  exact endsIn_append (hB v hv)

theorem endsIn_of_someOver (h : l ∈ someOver P) : l ∈ endsIn P := by
  obtain ⟨hne, hall⟩ := h
  refine ⟨l.dropLast, l.getLast hne, (List.dropLast_append_getLast hne).symm, ?_⟩
  exact hall _ (List.getLast_mem hne)

/-- A last part that may be empty ends as what is before it, if it meets the same condition. -/
theorem endsIn_of_mul_over (h : l ∈ A * wordsOver P) (hA : ∀ u ∈ A, u ∈ endsIn P) :
    l ∈ endsIn P := by
  obtain ⟨u, hu, v, hv, rfl⟩ := mem_mul.mp h
  by_cases hnil : v = []
  · rw [hnil, List.append_nil]
    exact hA u hu
  · exact endsIn_append (endsIn_of_someOver ⟨hnil, hv⟩)

theorem startsIn_of_mul (h : l ∈ A * B) (hA : ∀ u ∈ A, u ∈ startsIn P) : l ∈ startsIn P := by
  obtain ⟨u, hu, v, _, rfl⟩ := mem_mul.mp h
  obtain ⟨a, u, rfl, ha⟩ := hA u hu
  exact ⟨a, u ++ v, rfl, ha⟩

theorem startsIn_of_someOver (h : l ∈ someOver P) : l ∈ startsIn P := by
  obtain ⟨hne, hall⟩ := h
  cases l with
  | nil => exact absurd rfl hne
  | cons a u => exact ⟨a, u, rfl, hall a List.mem_cons_self⟩

end Ice.Lib
