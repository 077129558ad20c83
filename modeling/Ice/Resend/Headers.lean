import Ice.Resend.OutgoingMessage

/-!
# Headers of offered messages

What the header of a message says after it is prepared for a transceiver.
-/

namespace Ice.Resend

open Streams (Byte intBytes toInt leNat)
open List (append_assoc length_append length_set length_take)
open Option (some.inj)

/-- The `int` in the size field -/
def sizeField (bytes : List Byte) : Int := toInt (leNat ((bytes.drop 10).take 4))

/-- The size field is the number of bytes, and the status is 2 exactly if they are compressed. -/
structure Consistent (compressed : Bool) (bytes : List Byte) : Prop where
  size : sizeField bytes = bytes.length
  status : bytes[9]? = some 2 ↔ compressed = true

theorem length_overwrite {b bytes : List Byte} {k : Nat} (h : k + bytes.length ≤ b.length) :
    (overwrite b k bytes).length = b.length := by
  simp only [overwrite, length_append, length_take, List.length_drop]
  omega

theorem getElem?_overwrite {b bytes : List Byte} {j k : Nat} (hj : j < k) (hk : k ≤ b.length) :
    (overwrite b k bytes)[j]? = b[j]? := by
  rw [overwrite, append_assoc, List.getElem?_append_left (by simp; omega),
    List.getElem?_take_of_lt hj]

/-- The size that was filled in is read back. -/
theorem sizeField_overwrite {b : List Byte} {n : Nat} (hb : 14 ≤ b.length) (hn : n < 2 ^ 31)
    (tail : List Byte) : sizeField ((overwrite b 10 (intBytes n)).take 14 ++ tail) = n := by
  have hint := Streams.length_intBytes (n : Int)
  have hlength : (b.take 10).length = 10 := by
    rw [length_take]
    omega
  have htake : (overwrite b 10 (intBytes n)).take 14 = b.take 10 ++ intBytes n := by
    rw [overwrite, List.take_append_of_le_length (by simp [hlength, hint]),
      List.take_of_length_le (by simp [hlength, hint])]
  have hfield : (((overwrite b 10 (intBytes n)).take 14 ++ tail).drop 10).take 4 = intBytes n := by
    rw [htake, append_assoc, List.drop_append_of_le_length (by omega),
      List.drop_of_length_le (by omega), List.nil_append, List.take_append_of_le_length (by omega),
      List.take_of_length_le (by omega)]
  rw [sizeField, hfield, Streams.toInt_leNat_intBytes]
  exact Streams.toInt_of_lt (by omega) (by omega)

theorem sizeField_overwrite' {b : List Byte} (hb : 14 ≤ b.length) (hn : b.length < 2 ^ 31) :
    sizeField (overwrite b 10 (intBytes b.length)) = b.length := by
  have h := sizeField_overwrite hb hn ((overwrite b 10 (intBytes b.length)).drop 14)
  rw [List.take_append_drop] at h
  exact h

section

variable {bz : List Byte → Option (List Byte)} {compress : Bool} {b bytes : List Byte}

section

variable (hb : headerSize ≤ b.length)

include hb

theorem length_doCompress : (doCompress bz b).1.length = b.length := by
  have hheader : 14 ≤ b.length := hb
  unfold doCompress
  split
  · rfl
  · apply length_overwrite
    rw [Streams.length_intBytes]
    exact hheader

theorem length_prepare :
    (prepare bz compress b).stream.length = b.length := by
  have hheader : 14 ≤ b.length := hb
  unfold prepare
  split
  · rw [length_doCompress] <;> rw [length_set]
    exact hb
  · dsimp only
    rw [length_overwrite]
    · split
      · exact length_set ..
      · rfl
    · rw [Streams.length_intBytes]
      split
      · rw [length_set]
        exact hheader
      · exact hheader

/-- What the compressor made is headed by its size and the status 2. -/
theorem consistent_doCompress (hstatus : b[9]? = some 2)
    (hbytes : (doCompress bz b).2 = some bytes) (hlength : bytes.length < 2 ^ 31) :
    Consistent true bytes := by
  have hheader : 14 ≤ b.length := hb
  have hint : ∀ v, (intBytes v).length = 4 := Streams.length_intBytes
  unfold doCompress at hbytes
  split at hbytes
  · cases hbytes
  · rename_i body _
    have hsize :
        (overwrite b 10 (intBytes (headerSize + 4 + body.length : Nat))).length = b.length :=
      length_overwrite (by rw [hint]; exact hheader)
    have htotal : bytes.length = headerSize + 4 + body.length := by
      rw [← some.inj hbytes]
      simp only [length_append, length_take, hint, hsize]
      omega
    constructor
    · rw [htotal] at hlength ⊢
      rw [← some.inj hbytes, append_assoc]
      exact sizeField_overwrite hheader hlength _
    · have hnine : bytes[9]? = b[9]? := by
        rw [← some.inj hbytes, append_assoc, List.getElem?_append_left,
          List.getElem?_take_of_lt (by decide), getElem?_overwrite (by decide) (by omega)]
        rw [length_take, hsize]
        have hmin : 9 < min headerSize b.length := Nat.lt_min.mpr ⟨by decide, by omega⟩
        exact hmin
      rw [hnine, hstatus]
      simp

/-- What is not compressed is headed by its size, and by the status that its stream had. -/
theorem consistent_plain (hlength : b.length < 2 ^ 31)
    (hstatus : b[9]? ≠ some 2) : Consistent false (overwrite b 10 (intBytes b.length)) := by
  have hheader : 14 ≤ b.length := hb
  have htotal : (overwrite b 10 (intBytes b.length)).length = b.length :=
    length_overwrite (by rw [Streams.length_intBytes]; exact hheader)
  constructor
  · rw [htotal]
    exact sizeField_overwrite' hheader hlength
  · rw [getElem?_overwrite (by decide) (by omega)]
    simp [hstatus]

end

end

/-- The message has a size that the header can hold, and if the connection does not compress then
the status does not say that an attempt before compressed it. -/
structure Sendable (bz : List Byte → Option (List Byte)) (compress : Bool) (b : List Byte) :
    Prop where
  compressed : compress = true → 100 ≤ b.length → ∀ body, bz (b.drop headerSize) = some body →
    headerSize + 4 + body.length < 2 ^ 31
  plain : ¬(compress = true ∧ 100 ≤ b.length) → b.length < 2 ^ 31
  status : compress = false → b[9]? ≠ some 2

section

variable {bz : List Byte → Option (List Byte)} {compress : Bool} {b bytes : List Byte} {id : Nat}

section

variable (hb : headerSize ≤ b.length)

include hb

theorem length_compressed (h : (doCompress bz b).2 = some bytes) :
    ∃ body, bz (b.drop headerSize) = some body ∧ bytes.length = headerSize + 4 + body.length := by
  have hlength : (doCompress bz b).1.length = b.length := length_doCompress hb
  unfold doCompress at h hlength
  split at h
  · cases h
  · rename_i body hbody
    rw [hbody] at hlength
    refine ⟨body, hbody, ?_⟩
    rw [← some.inj h]
    simp only [length_append, length_take, Streams.length_intBytes, hlength]
    omega

theorem length_bytes (h : (prepare bz compress b).bytes = some bytes) :
    headerSize ≤ bytes.length := by
  have hheader : 14 ≤ b.length := hb
  unfold prepare at h
  split at h
  · obtain ⟨body, _, hbytes⟩ := length_compressed (by rw [length_set]; exact hb) h
    omega
  · have hset : ∀ b' : List Byte, b'.length = b.length →
        headerSize ≤ (overwrite b' 10 (intBytes b'.length)).length := by
      intro b' hb'
      rw [length_overwrite (by rw [Streams.length_intBytes]; omega)]
      omega
    rw [← some.inj h]
    apply hset
    split
    · exact length_set ..
    · rfl

theorem consistent_plain_set (hlength : b.length < 2 ^ 31) :
    Consistent false (overwrite (b.set 9 1) 10 (intBytes (b.set 9 1).length)) := by
  have hheader : 14 ≤ b.length := hb
  apply consistent_plain
  · rw [length_set]
    exact hb
  · rw [length_set]
    exact hlength
  · rw [List.getElem?_set_self (by omega)]
    intro hone
    cases hone

/-- The first offer of a message that may be sent has a consistent header. -/
theorem consistent_prepare (h : Sendable bz compress b)
    (hbytes : (prepare bz compress b).bytes = some bytes) :
    Consistent (prepare bz compress b).compressed bytes := by
  have hheader : 14 ≤ b.length := hb
  unfold prepare at hbytes ⊢
  split at hbytes
  · rename_i hcompress
    rw [if_pos hcompress]
    rw [Bool.and_eq_true, decide_eq_true_eq] at hcompress
    have hset : headerSize ≤ (b.set 9 2).length := by
      rw [length_set]
      exact hb
    apply consistent_doCompress hset (List.getElem?_set_self (by omega)) hbytes
    obtain ⟨body, hbody, htotal⟩ := length_compressed hset hbytes
    have hdrop : (b.set 9 2).drop headerSize = b.drop headerSize := List.drop_set_of_lt (by decide)
    rw [hdrop] at hbody
    rw [htotal]
    exact h.compressed hcompress.1 hcompress.2 body hbody
  · rename_i hplain
    rw [if_neg hplain]
    rw [Bool.and_eq_true, decide_eq_true_eq] at hplain
    have hlength := h.plain hplain
    rw [← some.inj hbytes]
    cases hc : compress with
    | false => exact consistent_plain hb hlength (h.status hc)
    | true => exact consistent_plain_set hb hlength

end

end

end Ice.Resend
