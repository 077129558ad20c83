import Ice.Streams.InputStream

/-!
# Output streams

The primitives of `Ice::OutputStream`. The encoder of the current encapsulation is a
parameter. A size from `2 ^ 31` on, which no `int` holds, fails the assertion of
`writeSize`.
-/

namespace Ice.Streams

structure OutputStream (ε : Type) where
  b : List Byte
  encoder : ε

/-- A write to a stream with an encoder. -/
abbrev Write (ε α : Type) := EStateM Failure (OutputStream ε) α

variable {ε : Type}

def append (bytes : List Byte) : Write ε Unit := modify fun s => { s with b := s.b ++ bytes }

/-- The lowest `n` bytes of a number, the lowest first. -/
def leBytes : Nat → Nat → List Byte
  | 0, _ => []
  | n + 1, x => UInt8.ofNat x :: leBytes n (x / 256)

/-- The bytes of an `int`. -/
def intBytes (v : Int) : List Byte := leBytes 4 (v.emod (2 ^ 32)).toNat

/-- `write(Int)` -/
def writeInt (v : Int) : Write ε Unit := append (intBytes v)

/-- The bytes of a size. -/
def sizeBytes (v : Nat) : List Byte := if 254 < v then 255 :: intBytes v else [UInt8.ofNat v]

/-- `writeSize` -/
def writeSize (v : Nat) : Write ε Unit := do
  assert (v < 2 ^ 31) "v >= 0"
  append (sizeBytes v)

/-- `write(const string&, bool)` -/
def writeString (v : List Byte) : Write ε Unit := do
  writeSize v.length
  append v

/-- `rewrite(Int, size_type)` -/
def rewrite (v : Int) (position : Nat) : Write ε Unit :=
  modify fun s => { s with b := s.b.take position ++ intBytes v ++ s.b.drop (position + 4) }

/-- `startSize` -/
def startSize : Write ε Nat := do
  let s ← get
  writeInt 0
  return s.b.length

/-- `endSize` -/
def endSize (position : Nat) : Write ε Unit := do
  let s ← get
  rewrite (toInt (s.b.length - position : Nat) - 4) position

theorem length_leBytes (n x : Nat) : (leBytes n x).length = n := by
  induction n generalizing x with
  | zero => rfl
  | succ n ih => rw [leBytes, List.length_cons, ih]

theorem leNat_leBytes (n x : Nat) : leNat (leBytes n x) = x % 256 ^ n := by
  induction n generalizing x with
  | zero => simp [leBytes, leNat, Nat.mod_one]
  | succ n ih =>
    have hbyte : (UInt8.ofNat x).toNat = x % 256 := rfl
    rw [leBytes, leNat, ih, hbyte, Nat.pow_succ', Nat.mod_mul]

theorem length_intBytes (v : Int) : (intBytes v).length = 4 := length_leBytes ..

/-- Reading takes back what writing an `int` makes of it. -/
theorem toInt_leNat_intBytes (v : Int) : toInt (leNat (intBytes v)) = toInt v := by
  have hnonneg : 0 ≤ v.emod (2 ^ 32) := Int.emod_nonneg _ (by decide)
  have hlt : v.emod (2 ^ 32) < 2 ^ 32 := Int.emod_lt_of_pos _ (by decide)
  have hnat : ((v.emod (2 ^ 32)).toNat : Int) = v.emod (2 ^ 32) := Int.toNat_of_nonneg hnonneg
  rw [intBytes, leNat_leBytes, Nat.mod_eq_of_lt (by omega), hnat]
  unfold toInt
  exact Int.emod_bmod ..

theorem sizeBytes_ne_nil (v : Nat) : 1 ≤ (sizeBytes v).length := by
  unfold sizeBytes
  split
  · simp
  · simp

theorem append_eq (bytes : List Byte) (s : OutputStream ε) :
    append bytes s = .ok () { s with b := s.b ++ bytes } := rfl

variable {v : Nat} {bytes tail : List Byte} {s : InputStream δ}

theorem writeSize_eq (h : v < 2 ^ 31) (s : OutputStream ε) :
    writeSize v s = .ok () { s with b := s.b ++ sizeBytes v } := by
  unfold writeSize assert
  rw [if_pos h]
  rfl

/-- A size that was written is an `int`. -/
theorem lt_of_writeSize {s s' : OutputStream ε} (h : writeSize v s = .ok () s') :
    v < 2 ^ 31 ∧ s' = { s with b := s.b ++ sizeBytes v } := by
  by_cases hv : v < 2 ^ 31
  · rw [writeSize_eq hv] at h
    exact ⟨hv, (EStateM.Result.ok.inj h).2.symm⟩
  · unfold writeSize assert at h
    rw [if_neg hv] at h
    contradiction

variable {δ : Type}

section

variable (h : s.rest = bytes ++ tail)

include h

theorem InputStream.rest_advance :
    (s.advance bytes.length).rest = tail := by
  unfold rest advance at *
  rw [← List.drop_drop, h, List.drop_left]

theorem InputStream.length_le_left :
    bytes.length + tail.length = s.left := by
  have hlength := congrArg List.length h
  simpa [InputStream.rest, InputStream.left] using hlength.symm

theorem readBytes_of_rest :
    readBytes bytes.length s = .ok bytes (s.advance bytes.length) := by
  have hleft := InputStream.length_le_left h
  unfold readBytes
  rw [if_neg (by omega), h, List.take_left]

end

theorem readByte_of_rest {x : Byte} (h : s.rest = x :: tail) :
    readByte s = .ok x (s.advance 1) := by
  unfold readByte
  rw [h]

theorem readInt_of_rest {v : Int} (h : s.rest = intBytes v ++ tail) :
    readInt s = .ok (toInt v) (s.advance 4) := by
  have hread := readBytes_of_rest h
  rw [length_intBytes] at hread
  unfold readInt
  rw [Lib.bind_of_ok hread, toInt_leNat_intBytes]
  rfl

theorem InputStream.advance_advance (s : InputStream δ) (m n : Nat) :
    (s.advance m).advance n = s.advance (m + n) := by
  simp [advance, Nat.add_assoc]

theorem readSize_of_rest (hv : v < 2 ^ 31) (h : s.rest = sizeBytes v ++ tail) :
    readSize s = .ok v (s.advance (sizeBytes v).length) := by
  unfold sizeBytes at h ⊢
  by_cases hlarge : 254 < v
  · rw [if_pos hlarge] at h ⊢
    have hbyte := readByte_of_rest h
    have hint : readInt (s.advance 1) = .ok (toInt v) ((s.advance 1).advance 4) :=
      readInt_of_rest
        (InputStream.rest_advance (show s.rest = [255] ++ (intBytes v ++ tail) from h))
    have hv' : toInt (v : Int) = v := toInt_of_lt (by omega) (by omega)
    unfold readSize
    rw [Lib.bind_of_ok hbyte, if_pos rfl, Lib.bind_of_ok hint, hv', if_neg (by omega),
      InputStream.advance_advance, List.length_cons, length_intBytes]
    rfl
  · rw [if_neg hlarge] at h ⊢
    have hbyte := readByte_of_rest h
    have hne : UInt8.ofNat v ≠ 255 := by
      intro heq
      have := congrArg UInt8.toNat heq
      simp at this
      omega
    have hnat : (UInt8.ofNat v).toNat = v := by
      simp
      omega
    unfold readSize
    rw [Lib.bind_of_ok hbyte, if_neg hne, hnat]
    rfl

end Ice.Streams
