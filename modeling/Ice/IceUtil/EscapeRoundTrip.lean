import Ice.IceUtil.UniversalName

/-!
# Escaping and unescaping piece by piece

The loops of `escapeString` and `unescapeString` on a string in pieces.
-/

namespace Ice.IceUtil

def rawOf (ps : List Piece) : Str := ps.flatMap Piece.raw

def outOf (ps : List Piece) : Str := ps.flatMap Piece.out

section

variable {special : Str} {toStringMode : ToStringMode} {ps : List Piece} {p : Piece}

theorem rawOf_cons (p : Piece) (ps : List Piece) : rawOf (p :: ps) = p.raw ++ rawOf ps := rfl

theorem outOf_cons (p : Piece) (ps : List Piece) : outOf (p :: ps) = p.out ++ outOf ps := rfl

theorem escapeLoop_pieces (h : ∀ p ∈ ps, p.Ok special toStringMode) {n : Nat}
    (hn : (rawOf ps).length ≤ n) :
    escapeLoop special toStringMode n (rawOf ps) = some (outOf ps) := by
  induction ps generalizing n with
  | nil => cases n <;> rfl
  | cons p ps ih =>
    obtain ⟨c, cs, hraw, hescape⟩ := (h p List.mem_cons_self).escapes
    rw [rawOf_cons, hraw, List.cons_append] at hn ⊢
    rw [List.length_cons, List.length_append] at hn
    cases n with
    | zero => omega
    | succ n =>
      have hrest := @ih (fun q hq => h q (List.mem_cons_of_mem _ hq)) n (by omega)
      rw [escapeLoop, hescape]
      dsimp only [Option.bind_eq_bind, Option.bind_some]
      rw [hrest]
      rfl

theorem readHex_length (n val : Nat) (s : Str) : (readHex n val s).2.2.length ≤ s.length := by
  induction n generalizing val s with
  | zero => exact Nat.le_refl _
  | succ n ih =>
    cases s with
    | nil => exact Nat.le_refl _
    | cons c s =>
      unfold readHex
      split
      · exact (ih _ s).trans (Nat.le_succ _)
      · exact Nat.le_refl _

theorem readOctal_length (n val : Nat) (s : Str) : (readOctal n val s).2.length ≤ s.length := by
  induction n generalizing val s with
  | zero => exact Nat.le_refl _
  | succ n ih =>
    cases s with
    | nil => exact Nat.le_refl _
    | cons c s =>
      unfold readOctal
      split
      · exact (ih _ s).trans (Nat.le_succ _)
      · exact Nat.le_refl _

theorem appendUTF8_ne {codePoint : Nat} {out : Str} (h : appendUTF8 codePoint = some out) :
    out ≠ [] := by
  unfold appendUTF8 at h
  rintro rfl
  split at h
  · cases h
  · split at h
    · cases h
    · split at h
      · cases h
      · split at h
        · cases h
        · split at h
          · cases h
          · cases h

theorem decodeEscape_shrinks {c : UInt8} {s out rest : Str} {decoded : Bool}
    (h : decodeEscape special c s = some (decoded, out, rest)) :
    out ≠ [] ∧ rest.length ≤ s.length := by
  unfold decodeEscape at h
  split at h
  · cases h
    exact ⟨by simp, Nat.le_refl _⟩
  · split at h
    · cases h
      exact ⟨by simp, Nat.le_refl _⟩
    · split at h
      · generalize (if c = ch 'u' then 4 else 8) = size at h
        dsimp only at h
        split at h
        · cases h
        · obtain ⟨raw, hraw, heq⟩ := Option.map_eq_some_iff.mp h
          cases heq
          exact ⟨appendUTF8_ne hraw, readHex_length _ _ s⟩
      · split at h
        · rename_i hdigit
          dsimp only at h
          rw [readOctal, if_pos hdigit] at h
          split at h
          · cases h
          · cases h
            exact ⟨by simp, readOctal_length _ _ s⟩
        · split at h
          · dsimp only at h
            split at h
            · cases h
            · cases h
              exact ⟨by simp, readHex_length _ _ s⟩
          · obtain ⟨d, _, heq⟩ := Option.map_eq_some_iff.mp h
            cases heq
            refine ⟨?_, Nat.le_refl _⟩
            split
            · simp
            · simp

/-- Every turn of the loop appends something, and takes something from the string. -/
theorem decodeChar_shrinks {c : UInt8} {s out rest : Str} {decoded : Bool}
    (h : decodeChar special c s = some (decoded, out, rest)) :
    out ≠ [] ∧ rest.length ≤ s.length := by
  unfold decodeChar at h
  split at h
  · obtain ⟨d, _, heq⟩ := Option.map_eq_some_iff.mp h
    cases heq
    exact ⟨by simp, Nat.le_refl _⟩
  · split at h
    · cases h
      exact ⟨by simp, Nat.le_refl _⟩
    · obtain ⟨hne, hle⟩ := decodeEscape_shrinks h
      exact ⟨hne, hle.trans (Nat.le_succ _)⟩

/-- More turns than characters make no difference. -/
theorem decodeLoop_enough {n m : Nat} {s : Str} (hn : s.length ≤ n) (hm : s.length ≤ m) :
    decodeLoop special n s = decodeLoop special m s := by
  induction n generalizing m s with
  | zero =>
    rw [List.eq_nil_of_length_eq_zero (Nat.le_zero.mp hn)]
    cases m <;> rfl
  | succ n ih =>
    cases s with
    | nil => cases m <;> rfl
    | cons c s =>
      rw [List.length_cons] at hn hm
      cases m with
      | zero => omega
      | succ m =>
        rw [decodeLoop, decodeLoop]
        cases hdecode : decodeChar special c s with
        | none => rfl
        | some r =>
          obtain ⟨decoded, out, rest⟩ := r
          obtain ⟨_, hle⟩ := decodeChar_shrinks hdecode
          have hrest := @ih m rest (by omega) (by omega)
          dsimp only [Option.bind_eq_bind, Option.bind_some]
          rw [hrest]

theorem decodeLoop_ne {n : Nat} {s result : Str} {pure : Bool} (hs : s ≠ [])
    (h : decodeLoop special n s = some (pure, result)) : result ≠ [] := by
  cases s with
  | nil => exact absurd rfl hs
  | cons c s =>
    cases n with
    | zero => cases h
    | succ n =>
      rw [decodeLoop] at h
      obtain ⟨⟨decoded, out, rest⟩, hdecode, h⟩ := Option.bind_eq_some_iff.mp h
      obtain ⟨⟨ascii, more⟩, _, h⟩ := Option.bind_eq_some_iff.mp h
      obtain ⟨hne, _⟩ := decodeChar_shrinks hdecode
      cases h
      simp [hne]

section

variable (h : ∀ p ∈ ps, p.Ok special toStringMode)

include h

/-- The pieces are decoded one after the other, and then what is behind them. -/
theorem decodeLoop_pieces (t : Str) {n : Nat}
    (hn : (outOf ps ++ t).length ≤ n) : decodeLoop special n (outOf ps ++ t) =
      (decodeLoop special t.length t).map fun r =>
        (if ps.any Piece.decoded then false else r.1, rawOf ps ++ r.2) := by
  induction ps generalizing n with
  | nil =>
    have hnil : outOf [] ++ t = t := rfl
    rw [hnil] at hn ⊢
    rw [decodeLoop_enough hn (Nat.le_refl _)]
    simp [rawOf]
  | cons p ps ih =>
    obtain ⟨c, cs, hout, hdecode⟩ := (h p List.mem_cons_self).decodes
    rw [outOf_cons, hout, List.append_assoc, List.cons_append] at hn ⊢
    rw [List.length_cons, List.length_append] at hn
    cases n with
    | zero => omega
    | succ n =>
      have hrest := @ih (fun q hq => h q (List.mem_cons_of_mem _ hq)) n (by omega)
      rw [decodeLoop, hdecode]
      dsimp only [Option.bind_eq_bind, Option.bind_some]
      rw [hrest, rawOf_cons]
      cases decodeLoop special t.length t with
      | none => rfl
      | some r =>
        cases hp : p.decoded
        · simp [hp]
        · simp [hp]

/-- Something is written with a backslash if something is escaped. -/
theorem mem_outOf :
    ch '\\' ∈ outOf ps ↔ ∃ c ∈ rawOf ps, IsEscaped special toStringMode c := by
  constructor
  · intro hmem
    obtain ⟨p, hp, hout⟩ := List.mem_flatMap.mp hmem
    rcases (h p hp).kept with ⟨hkept, _⟩ | ⟨_, _, c, hc, hescaped⟩
    · rw [hkept] at hout
      exact ⟨_, List.mem_flatMap.mpr ⟨p, hp, hout⟩, .inl rfl⟩
    · exact ⟨c, List.mem_flatMap.mpr ⟨p, hp, hc⟩, hescaped⟩
  · rintro ⟨c, hmem, hescaped⟩
    obtain ⟨p, hp, hc⟩ := List.mem_flatMap.mp hmem
    rcases (h p hp).kept with ⟨_, hkept⟩ | ⟨hout, _⟩
    · exact absurd hescaped (hkept c hc)
    · exact List.mem_flatMap.mpr ⟨p, hp, hout⟩

theorem outOf_kept
    (hkept : ∀ c ∈ rawOf ps, ¬ IsEscaped special toStringMode c) : outOf ps = rawOf ps := by
  induction ps with
  | nil => rfl
  | cons p ps ih =>
    rw [rawOf_cons] at hkept ⊢
    rw [outOf_cons, ih (fun q hq => h q (List.mem_cons_of_mem _ hq))
      (fun c hc => hkept c (List.mem_append_right _ hc))]
    rcases (h p List.mem_cons_self).kept with ⟨heq, _⟩ | ⟨_, _, c, hc, hescaped⟩
    · rw [heq]
    · exact absurd hescaped (hkept c (List.mem_append_left _ hc))

theorem isASCII_outOf
    (hmode : toStringMode = .unicode → IsASCII (rawOf ps)) : IsASCII (outOf ps) := by
  intro c hmem
  obtain ⟨p, hp, hout⟩ := List.mem_flatMap.mp hmem
  rcases (h p hp).kept with ⟨heq, hkept⟩ | ⟨_, hascii, _⟩
  · rw [heq] at hout
    by_cases hunicode : toStringMode = .unicode
    · exact hmode hunicode c (List.mem_flatMap.mpr ⟨p, hp, hout⟩)
    · refine UInt8.not_lt.mp fun hlt => hkept c hout ?_
      exact .inr (.inr (.inr (.inr (.inr (.inr ⟨hlt, hunicode⟩)))))
  · exact hascii c hout

/-- Nothing but bytes above ASCII is decoded without the result being marked. -/
theorem any_decoded :
    ps.any Piece.decoded = false ↔ ∀ c ∈ rawOf ps, toStringMode ≠ .unicode ∧ 127 < c := by
  rw [List.any_eq_false]
  constructor
  · intro hall c hmem
    obtain ⟨p, hp, hc⟩ := List.mem_flatMap.mp hmem
    obtain ⟨hmode, hhigh⟩ := (h p hp).flag.mp (Bool.eq_false_iff.mpr (hall p hp))
    exact ⟨hmode, hhigh c hc⟩
  · intro hall p hp
    obtain ⟨c, cs, hraw, _⟩ := (h p hp).escapes
    have hmem (d : UInt8) (hd : d ∈ p.raw) : d ∈ rawOf ps := List.mem_flatMap.mpr ⟨p, hp, hd⟩
    have hmode := (hall c (hmem c (hraw ▸ List.mem_cons_self))).1
    exact Bool.eq_false_iff.mp ((h p hp).flag.mpr ⟨hmode, fun d hd => (hall d (hmem d hd)).2⟩)

end

end

end Ice.IceUtil
