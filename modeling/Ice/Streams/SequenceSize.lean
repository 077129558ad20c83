import Ice.Streams.Position

/-!
# The check of sequence sizes

The check adds up what the elements of nested sequences need at least, in 32-bit
arithmetic. A size that it accepts is right exactly when the sum, so reduced, still
tells that the elements do not fit.
-/

namespace Ice.Streams

open Lib

variable {δ : Type}

theorem toInt_toInt_add (x y : Int) : toInt (toInt x + y) = toInt (x + y) := by
  unfold toInt
  exact Int.bmod_add_bmod ..

theorem toInt_add_toInt (x y : Int) : toInt (x + toInt y) = toInt (x + y) := by
  unfold toInt
  exact Int.add_bmod_bmod ..

namespace InputStream

/-- The end of what the enclosing sequences need at least, or else the position. -/
def owedEnd (s : InputStream δ) : Int :=
  if s.startSeq = -1 ∨ s.startSeq + s.minSeqSize < s.i then s.i else s.startSeq + s.minSeqSize

/-- The number that the check compares with the size of the buffer. -/
theorem toInt_checkSeqSize (s : InputStream δ) (sz minSize : Nat) :
    toInt ((s.checkSeqSize sz minSize).startSeq + (s.checkSeqSize sz minSize).minSeqSize) =
      toInt (s.owedEnd + sz * minSize) := by
  unfold checkSeqSize owedEnd
  split
  · simp only
    rw [toInt_toInt_add, toInt_add_toInt]
  · simp only
    rw [toInt_add_toInt, ← Int.add_assoc, toInt_add_toInt]

@[simp]
theorem checkSeqSize_b (s : InputStream δ) (sz minSize : Nat) :
    (s.checkSeqSize sz minSize).b = s.b := by
  unfold checkSeqSize
  split <;> rfl

@[simp]
theorem checkSeqSize_i (s : InputStream δ) (sz minSize : Nat) :
    (s.checkSeqSize sz minSize).i = s.i := by
  unfold checkSeqSize
  split <;> rfl

@[simp]
theorem checkSeqSize_encaps (s : InputStream δ) (sz minSize : Nat) :
    (s.checkSeqSize sz minSize).encaps = s.encaps := by
  unfold checkSeqSize
  split <;> rfl

@[simp]
theorem checkSeqSize_decoder (s : InputStream δ) (sz minSize : Nat) :
    (s.checkSeqSize sz minSize).decoder = s.decoder := by
  unfold checkSeqSize
  split <;> rfl

end InputStream

variable {s : InputStream δ}

/-- What the check does after it has read a size. -/
theorem readAndCheckSeqSize_eq {s' : InputStream δ} {sz : Nat} (minSize : Nat)
    (h : readSize s = .ok sz s') :
    readAndCheckSeqSize minSize s =
      if sz = 0 then .ok 0 s'
      else if toInt s'.b.length < toInt (s'.owedEnd + sz * minSize) then
        .error (.exception .unmarshalOutOfBounds) (s'.checkSeqSize sz minSize)
      else .ok sz (s'.checkSeqSize sz minSize) := by
  unfold readAndCheckSeqSize
  rw [bind_of_ok h]
  by_cases hz : sz = 0
  · rw [if_pos hz, if_pos hz]
    rfl
  · have hmodify : (modify (InputStream.checkSeqSize sz minSize) : Read δ PUnit) s' =
        .ok ⟨⟩ (s'.checkSeqSize sz minSize) := rfl
    have hget (t : InputStream δ) : (get : Read δ (InputStream δ)) t = .ok t t := rfl
    rw [if_neg hz, if_neg hz, bind_of_ok hmodify, bind_of_ok (hget _),
      ← InputStream.toInt_checkSeqSize, InputStream.checkSeqSize_b]
    split
    · rfl
    · rfl

/-- Whatever size the check accepts, the elements fit in the rest of the buffer. -/
def SizeSound (minSize : Nat) (s : InputStream δ) : Prop :=
  ∀ sz s', readAndCheckSeqSize minSize s = .ok sz s' → sz * minSize ≤ s'.left

/-- The announced elements fit in the rest of the buffer, or their end, counted from what is
owed already and reduced to an `int`, is past the end of the buffer. -/
def SizeHonest (minSize : Nat) (s : InputStream δ) : Prop :=
  ∀ sz s', readSize s = .ok sz s' →
    sz * minSize ≤ s'.left ∨ toInt s'.b.length < toInt (s'.owedEnd + sz * minSize)

theorem SizeHonest.sound {minSize : Nat} (h : SizeHonest minSize s) : SizeSound minSize s := by
  intro sz t ht
  cases hr : readSize s with
  | error e u =>
    unfold readAndCheckSeqSize at ht
    rw [bind_of_error hr] at ht
    contradiction
  | ok n u =>
    rw [readAndCheckSeqSize_eq minSize hr] at ht
    split at ht
    · obtain ⟨rfl, rfl⟩ := EStateM.Result.ok.inj ht
      simp
    · split at ht
      · contradiction
      next hlt =>
        obtain ⟨rfl, rfl⟩ := EStateM.Result.ok.inj ht
        have hfit := (h n u hr).resolve_right hlt
        simpa [InputStream.left] using hfit

theorem SizeSound.honest {minSize : Nat} (h : SizeSound minSize s) : SizeHonest minSize s := by
  intro sz u hr
  by_cases hz : sz = 0
  · simp [hz]
  by_cases hlt : toInt u.b.length < toInt (u.owedEnd + sz * minSize)
  · exact Or.inr hlt
  · have hok := readAndCheckSeqSize_eq minSize hr
    rw [if_neg hz, if_neg hlt] at hok
    have hfit := h sz _ hok
    exact Or.inl (by simpa [InputStream.left] using hfit)

/-- The readers of scalars trust the check. -/
theorem copyScalars_of_le {n sz : Nat} (hlength : s.b.length < 2 ^ 31) (hfit : sz * n ≤ s.left) :
    copyScalars n sz s = .ok (scalars n sz (s.rest.take (sz * n))) (s.advance (sz * n)) := by
  have hleft : s.left ≤ s.b.length := Nat.sub_le ..
  have hint : toInt ((sz : Int) * n) = ((sz * n : Nat) : Int) := by
    rw [← Int.natCast_mul]
    apply toInt_of_lt <;> omega
  have hover : ¬s.Overlong n sz := by
    unfold InputStream.Overlong
    rw [hint]
    omega
  rw [copyScalars_eq, bind_of_ok (watch_of_not hover)]
  unfold copyRange
  simp only [hint]
  rw [if_neg (by omega), if_neg (by omega)]
  rfl

theorem length_scalars (n sz : Nat) (bytes : List Byte) : (scalars n sz bytes).length = sz := by
  induction sz generalizing bytes with
  | zero => rfl
  | succ sz ih => rw [scalars, List.length_cons, ih]

/-- A reader of scalars keeps inside the buffer, and makes no more elements than it holds. -/
def ScalarsSound (n : Nat) (s : InputStream δ) : Prop :=
  match readScalars n s with
  | .ok v s' => v.length * n ≤ s.left ∧ s'.i ≤ s'.b.length
  | .error e _ => ∀ f, e ≠ .fault f

/-- Where the check is sound, so are the readers of scalars. -/
theorem SizeSound.scalars {n : Nat} (h : SizeSound n s) (hs : s.i ≤ s.b.length)
    (hlength : s.b.length < 2 ^ 31) : ScalarsSound n s := by
  have hmove := advances_readAndCheckSeqSize n s hs
  unfold ScalarsSound readScalars
  cases hr : readAndCheckSeqSize n s with
  | error e t =>
    rw [hr] at hmove
    obtain ⟨-, ex, rfl⟩ := hmove
    rw [bind_of_error hr]
    intro f
    simp
  | ok sz t =>
    rw [hr] at hmove
    have hfit := h sz t hr
    have hlt : t.b.length < 2 ^ 31 := hmove.b ▸ hlength
    rw [bind_of_ok hr, copyScalars_of_le hlt hfit]
    have hi := hmove.le
    have hb := hmove.b
    unfold InputStream.left at hfit ⊢
    constructor
    · rw [length_scalars]
      rw [hb] at hfit
      omega
    · have hinside := hmove.inside
      change t.i + sz * n ≤ t.b.length
      omega

/-- The check is sound exactly on honest sizes, and then the readers of scalars are. -/
theorem sizeSound_iff (minSize : Nat) (s : InputStream δ) :
    (SizeSound minSize s ↔ SizeHonest minSize s) ∧
      (s.i ≤ s.b.length → s.b.length < 2 ^ 31 → SizeHonest minSize s → ScalarsSound minSize s) :=
  ⟨⟨SizeSound.honest, SizeHonest.sound⟩,
    fun hs hlength h => h.sound.scalars hs hlength⟩

/-- One element of 8 bytes. -/
theorem scalarsSound_one : ScalarsSound 8 (.ofBytes (1 :: List.replicate 8 0) ()) := by
  apply (sizeSound_iff 8 _).2 (by decide) (by decide)
  intro sz t h
  have hread : readSize (.ofBytes (1 :: List.replicate 8 0) ()) =
      .ok 1 (InputStream.advance 1 (.ofBytes (1 :: List.replicate 8 0) ())) := rfl
  obtain ⟨rfl, rfl⟩ := EStateM.Result.ok.inj (hread.symm.trans h)
  exact Or.inl (by decide)

/-- The header of 536870913 elements of 8 bytes, of which one follows: eight times the
number is 8 modulo `2 ^ 32`. -/
def overflowing : InputStream Unit :=
  .ofBytes ([255, 1, 0, 0, 32] ++ List.replicate 8 0) ()

theorem not_sizeSound_overflowing : ¬SizeSound 8 overflowing := by
  intro h
  have hread : (match readAndCheckSeqSize 8 overflowing with
      | .ok sz t => decide (t.left < sz * 8)
      | .error .. => false) = true := by
    decide +kernel
  split at hread
  next sz t hr =>
    have hfit := h sz t hr
    have hlt := of_decide_eq_true hread
    omega
  · contradiction

end Ice.Streams
