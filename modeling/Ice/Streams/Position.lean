import Ice.Streams.InputStream

/-!
# Reads that stay in the buffer

The primitives of the stream move its position on, leave the rest of it alone, and
fail with exceptions only.
-/

namespace Ice.Streams

open Lib

variable {δ α β : Type} {s t u : InputStream δ}

namespace InputStream

/-- `t` is `s` further on in the same buffer. -/
structure Before (s t : InputStream δ) : Prop where
  b : t.b = s.b
  encaps : t.encaps = s.encaps
  decoder : t.decoder = s.decoder
  notes : t.notes = s.notes
  le : s.i ≤ t.i
  inside : t.i ≤ t.b.length

theorem Before.refl (h : s.i ≤ s.b.length) : s.Before s := ⟨rfl, rfl, rfl, rfl, le_rfl, h⟩

theorem Before.trans (h₁ : s.Before t) (h₂ : t.Before u) : s.Before u :=
  ⟨h₂.b.trans h₁.b, h₂.encaps.trans h₁.encaps, h₂.decoder.trans h₁.decoder,
    h₂.notes.trans h₁.notes, h₁.le.trans h₂.le, h₂.inside⟩

/-- An advance inside the buffer. -/
theorem before_advance {n : Nat} (hs : s.i ≤ s.b.length) (h : ¬s.left < n) :
    s.Before (s.advance n) := by
  refine ⟨rfl, rfl, rfl, rfl, Nat.le_add_right .., ?_⟩
  unfold left at h
  change s.i + n ≤ s.b.length
  omega

end InputStream

/-- A read that moves on in the buffer, and fails with an exception only. -/
def Advances (x : Read δ α) : Prop :=
  ∀ s : InputStream δ, s.i ≤ s.b.length →
    match x s with
    | .ok _ t => s.Before t
    | .error e t => s.Before t ∧ ∃ ex, e = .exception ex

namespace Advances

theorem pure (a : α) : Advances (Pure.pure a : Read δ α) := fun _ hs => .refl hs

theorem throwException (e : IceException) : Advances (throwException e : Read δ α) :=
  fun _ hs => ⟨.refl hs, e, rfl⟩

/-- The second read starts where the first one ends. -/
theorem bind {x : Read δ α} {f : α → Read δ β} (hx : Advances x) (hf : ∀ a, Advances (f a)) :
    Advances (x >>= f) := by
  intro s hs
  have hstep := hx s hs
  cases hr : x s with
  | error e t =>
    rw [bind_of_error hr]
    rwa [hr] at hstep
  | ok a t =>
    rw [hr] at hstep
    rw [bind_of_ok hr]
    have hnext := hf a t hstep.inside
    cases hr' : f a t with
    | ok c u =>
      rw [hr'] at hnext
      exact hstep.trans hnext
    | error e u =>
      rw [hr'] at hnext
      exact ⟨hstep.trans hnext.1, hnext.2⟩

theorem ite {p : Prop} [Decidable p] {x y : Read δ α} (hx : Advances x) (hy : Advances y) :
    Advances (if p then x else y) := by
  split
  · exact hx
  · exact hy

/-- The rule for invariants of the stream that no move breaks. -/
theorem spec {x : Read δ α} {I : InputStream δ → Prop} (hx : Advances x)
    (hinside : ∀ s, I s → s.i ≤ s.b.length) (hI : ∀ s t, I s → s.Before t → I t) :
    Spec I x (fun _ => I) (fun e s => I s ∧ ∃ ex, e = .exception ex) := by
  intro s hs
  have h := hx s (hinside s hs)
  cases hr : x s with
  | ok a t =>
    rw [hr] at h
    exact hI s t hs h
  | error e t =>
    rw [hr] at h
    exact ⟨hI s t hs h.1, h.2⟩

end Advances

/-- The bytes are there, or an exception is thrown where the read began. -/
theorem advances_readBytes (n : Nat) : Advances (readBytes n : Read δ (List Byte)) := by
  intro s hs
  by_cases h : s.left < n
  · simp only [readBytes, h, if_true]
    exact ⟨.refl hs, _, rfl⟩
  · simp only [readBytes, h, if_false]
    exact InputStream.before_advance hs h

theorem advances_skip (n : Nat) : Advances (skip n : Read δ Unit) := by
  intro s hs
  by_cases h : s.left < n
  · simp only [skip, h, if_true]
    exact ⟨.refl hs, _, rfl⟩
  · simp only [skip, h, if_false]
    exact InputStream.before_advance hs h

/-- What is not at its end has a byte left. -/
theorem InputStream.one_le_left {x : Byte} {tail : List Byte} (h : s.rest = x :: tail) :
    1 ≤ s.left := by
  have hlength := congrArg List.length h
  simp only [InputStream.rest, List.length_drop, List.length_cons] at hlength
  unfold InputStream.left
  omega

theorem advances_readByte : Advances (readByte : Read δ Byte) := by
  intro s hs
  cases h : s.rest with
  | nil =>
    simp only [readByte, h]
    exact ⟨.refl hs, _, rfl⟩
  | cons x tail =>
    simp only [readByte, h]
    have := InputStream.one_le_left h
    exact InputStream.before_advance hs (by omega)

theorem advances_readInt : Advances (readInt : Read δ Int) :=
  (advances_readBytes 4).bind fun _ => .pure _

theorem advances_readSize : Advances (readSize : Read δ Nat) :=
  advances_readByte.bind fun _ =>
    .ite (advances_readInt.bind fun _ => .ite (.throwException _) (.pure _)) (.pure _)

theorem advances_skipSize : Advances (skipSize : Read δ Unit) :=
  advances_readByte.bind fun _ => .ite (advances_skip 4) (.pure _)

theorem advances_readString : Advances (readString : Read δ (List Byte)) :=
  advances_readSize.bind fun sz => advances_readBytes sz

theorem advances_readScalar (n : Nat) : Advances (readScalar n : Read δ (Scalar n)) :=
  (advances_readBytes n).bind fun _ => .pure _

/-- The check of a size reads nothing but the size. -/
theorem advances_checkSeqSize (sz minSize : Nat) :
    Advances (modify (InputStream.checkSeqSize sz minSize) : Read δ PUnit) := by
  intro s hs
  change s.Before (s.checkSeqSize sz minSize)
  unfold InputStream.checkSeqSize
  split
  all_goals exact ⟨rfl, rfl, rfl, rfl, le_rfl, hs⟩

theorem advances_get : Advances (get : Read δ (InputStream δ)) := fun _ hs => .refl hs

theorem advances_readAndCheckSeqSize (minSize : Nat) :
    Advances (readAndCheckSeqSize minSize : Read δ Nat) :=
  advances_readSize.bind fun sz => .ite (.pure _) <|
    (advances_checkSeqSize sz minSize).bind fun _ => advances_get.bind fun _ =>
      .ite ((Advances.throwException _).bind fun _ => .pure _) (.pure _)

end Ice.Streams
