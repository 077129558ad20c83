import Ice.Streams.Encoder

/-!
# Headers of optional values

An optional value has its tag and its format in front of it. A reader that is at such a header
finds out both, and a size that it does not need is skipped.
-/

namespace Ice.Streams

open Lib

variable {ε δ : Type}

/-- A piece of writing that appends `n` bytes. -/
def Adds (n : Nat) (w : Write ε Unit) : Prop :=
  ∀ s s', w s = .ok () s' → s'.b.length = s.b.length + n

namespace Adds

variable {m n : Nat} {w w' : Write ε Unit}

theorem append {bytes : List Byte} (h : bytes.length = n) :
    Adds n (append bytes : Write ε Unit) := by
  intro s s' hw
  obtain ⟨-, rfl⟩ := EStateM.Result.ok.inj hw
  rw [← h]
  exact List.length_append

theorem seq (h : Adds m w) (h' : Adds n w') : Adds (m + n) (w >>= fun _ => w') := by
  intro s s'' hw
  obtain ⟨_, s', hfirst, hsecond⟩ := ok_of_bind hw
  rw [h' s' s'' hsecond, h s s' hfirst, Nat.add_assoc]

end Adds

variable {t : InputStream δ} {tail : List Byte}

theorem skip_of_rest {bytes : List Byte} (h : t.rest = bytes ++ tail) :
    skip bytes.length t = .ok () (t.advance bytes.length) := by
  have hleft := InputStream.length_le_left h
  unfold skip
  exact if_neg (by omega)

theorem skipSize_of_rest {v : Nat} (h : t.rest = sizeBytes v ++ tail) :
    skipSize t = .ok () (t.advance (sizeBytes v).length) := by
  unfold sizeBytes at h ⊢
  by_cases hlarge : 254 < v
  · rw [if_pos hlarge] at h ⊢
    have h' : t.rest = [255] ++ (intBytes v ++ tail) := h
    have hskip := skip_of_rest (InputStream.rest_advance h')
    rw [length_intBytes] at hskip
    unfold skipSize
    rw [bind_of_ok (readByte_of_rest h), if_pos rfl]
    change skip 4 (t.advance 1) = _
    rw [List.length_cons, length_intBytes]
    exact hskip
  · rw [if_neg hlarge] at h ⊢
    have hne : UInt8.ofNat v ≠ 255 := by
      intro heq
      have := congrArg UInt8.toNat heq
      simp at this
      omega
    unfold skipSize
    rw [bind_of_ok (readByte_of_rest h), if_neg hne]
    rfl

theorem get_eq (t : InputStream δ) : (get : Read δ (InputStream δ)) t = .ok t t := rfl

theorem rewind_advance (t : InputStream δ) (n : Nat) : rewind n (t.advance n) = .ok () t := by
  cases t
  simp [rewind_eq, InputStream.advance]

/-- The header of an optional value. -/
def optionalHeader (tag : Nat) (format : OptionalFormat) : List Byte :=
  if tag < 30 then [UInt8.ofNat (format.toNat + 8 * tag)]
  else UInt8.ofNat (format.toNat + 8 * 30) :: sizeBytes tag

namespace OptionalFormat

theorem toNat_lt (format : OptionalFormat) : format.toNat < 8 := by
  cases format with
  | f1 | f2 | f4 | f8 | size | vSize | fSize | ofClass => decide

theorem ofByte_eq {v : Byte} {format : OptionalFormat} (h : v.toNat % 8 = format.toNat) :
    ofByte v = format := by
  unfold ofByte
  rw [h]
  cases format with
  | f1 | f2 | f4 | f8 | size | vSize | fSize | ofClass => rfl

end OptionalFormat

/-- The stream is at the header of an optional value, whose first byte is `v`. -/
structure AtHeader (tag : Nat) (format : OptionalFormat) (t : InputStream δ) (v : Byte) :
    Prop where
  byte : readByte t = .ok v (t.advance 1)
  ne : v ≠ OPTIONAL_END_MARKER
  reads : readTag v (t.advance 1) = .ok tag (t.advance (optionalHeader tag format).length)
  skips : (if v.toNat / 8 = 30 then skipSize else pure ()) (t.advance 1) =
    .ok () (t.advance (optionalHeader tag format).length)
  ofByte : OptionalFormat.ofByte v = format
  length : (optionalHeader tag format).length = if tag < 30 then 1 else if tag < 255 then 2 else 6

theorem atHeader_of_rest {tag : Nat} {format : OptionalFormat} (htag : tag < 2 ^ 31)
    (h : t.rest = optionalHeader tag format ++ tail) : ∃ v, AtHeader tag format t v := by
  have hformat := format.toNat_lt
  by_cases hsmall : tag < 30
  · have hheader : optionalHeader tag format = [UInt8.ofNat (format.toNat + 8 * tag)] :=
      if_pos hsmall
    have hv : (UInt8.ofNat (format.toNat + 8 * tag)).toNat = format.toNat + 8 * tag :=
      Nat.mod_eq_of_lt (by omega)
    have hdiv : (UInt8.ofNat (format.toNat + 8 * tag)).toNat / 8 = tag := by omega
    rw [hheader] at h
    refine ⟨UInt8.ofNat (format.toNat + 8 * tag), readByte_of_rest h, ?_, ?_, ?_, ?_, ?_⟩
    · intro heq
      have := congrArg UInt8.toNat heq
      change _ = 255 at this
      omega
    · unfold readTag
      rw [if_neg (by omega), hdiv, hheader]
      rfl
    · rw [if_neg (by omega), hheader]
      rfl
    · exact OptionalFormat.ofByte_eq (by omega)
    · rw [hheader, if_pos hsmall]
      rfl
  · have hheader : optionalHeader tag format =
        UInt8.ofNat (format.toNat + 8 * 30) :: sizeBytes tag := if_neg hsmall
    have hv : (UInt8.ofNat (format.toNat + 8 * 30)).toNat = format.toNat + 8 * 30 :=
      Nat.mod_eq_of_lt (by omega)
    have hdiv : (UInt8.ofNat (format.toNat + 8 * 30)).toNat / 8 = 30 := by omega
    rw [hheader] at h
    have hsplit : t.rest = [UInt8.ofNat (format.toNat + 8 * 30)] ++ (sizeBytes tag ++ tail) := h
    have hrest : (t.advance 1).rest = sizeBytes tag ++ tail := InputStream.rest_advance hsplit
    have hlength : (optionalHeader tag format).length = 1 + (sizeBytes tag).length := by
      rw [hheader, List.length_cons, Nat.add_comm]
    refine ⟨UInt8.ofNat (format.toNat + 8 * 30), readByte_of_rest h, ?_, ?_, ?_, ?_, ?_⟩
    · intro heq
      have := congrArg UInt8.toNat heq
      change _ = 255 at this
      omega
    · unfold readTag
      rw [if_pos hdiv, hlength, ← InputStream.advance_advance]
      exact readSize_of_rest htag hrest
    · rw [if_pos hdiv, hlength, ← InputStream.advance_advance]
      exact skipSize_of_rest hrest
    · exact OptionalFormat.ofByte_eq (by omega)
    · rw [hlength, if_neg hsmall]
      unfold sizeBytes
      by_cases hlarge : tag < 255
      · rw [if_neg (by omega), if_pos hlarge]
        rfl
      · rw [if_pos (by omega), if_neg hlarge, List.length_cons, length_intBytes]

end Ice.Streams
