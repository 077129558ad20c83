import Ice.Streams.Encapsulations
import Ice.Streams.OptionalHeaders

/-!
# Optional values that are not read

Where a reader stops that asks for a tag: before the end marker, or before an optional value with a
greater tag. It is to leave the stream there, and it computes from the tag how far it has to go
back.
-/

namespace Ice.Streams

open Lib
open InputStream (advance_advance i)

variable {δ : Type} {skipClass : Read δ Unit} {tag found n m : Nat} {format : OptionalFormat}
  {s t u : InputStream δ} {v : Byte} {b : Bool}

/-- The two forms in which a size arrives -/
theorem readSize_cases (h : readSize s = .ok n t) :
    (∃ x tail, s.rest = x :: tail ∧ x ≠ 255 ∧ x.toNat = n ∧ t = s.advance 1) ∨
      ∃ tail, s.rest = 255 :: (intBytes n ++ tail) ∧ n < 2 ^ 31 ∧ t = s.advance 5 := by
  unfold readSize at h
  obtain ⟨x, s₁, hbyte, h⟩ := ok_of_bind h
  obtain ⟨hrest, rfl⟩ := readByte_ok hbyte
  by_cases hx : x = 255
  · right
    rw [if_pos hx] at h
    obtain ⟨v, s₂, hint, h⟩ := ok_of_bind h
    obtain ⟨hrest₁, rfl, hlt⟩ := readInt_ok hint
    split at h
    · cases h
    · cases h
      have hnat : ((v.toNat : Nat) : Int) = v := Int.toNat_of_nonneg (by omega)
      refine ⟨((s.advance 1).advance 4).rest, ?_, by omega, advance_advance ..⟩
      rw [hrest, hx, hnat, hrest₁]
  · left
    rw [if_neg hx] at h
    cases h
    exact ⟨x, _, hrest, hx, rfl, rfl⟩

/-- The stream is at an optional value, after the header of which it is `t`. -/
structure ReadsHeader (s : InputStream δ) (v : Byte) (found : Nat) (t : InputStream δ) : Prop where
  inside : s.atEnd = false
  byte : readByte s = .ok v (s.advance 1)
  ne : v ≠ OPTIONAL_END_MARKER
  tag : readTag v (s.advance 1) = .ok found t

/-- The bytes that are gone back before an optional value with this tag -/
def headerLength (found : Nat) : Nat := if found < 30 then 1 else if found < 255 then 2 else 6

/-- What begins here is the end marker, or a header as `writeOptImpl` writes it. -/
def AsWritten (s : InputStream δ) : Prop :=
  readByte s = .ok OPTIONAL_END_MARKER (s.advance 1) ∨
    ∃ found format tail, found < 2 ^ 31 ∧ s.rest = optionalHeader found format ++ tail

theorem length_optionalHeader (found : Nat) (format : OptionalFormat) :
    (optionalHeader found format).length = headerLength found := by
  unfold optionalHeader headerLength
  split
  · rfl
  · unfold sizeBytes
    split
    · rw [if_neg (by omega), List.length_cons, List.length_cons, length_intBytes]
    · rw [if_pos (by omega)]
      rfl

namespace OptionalFormat

theorem toNat_ofByte (v : Byte) : (ofByte v).toNat = v.toNat % 8 := by
  have hlt : v.toNat % 8 < 8 := Nat.mod_lt _ (by decide)
  unfold ofByte
  generalize v.toNat % 8 = k at hlt
  match k, hlt with
  | 0, _ | 1, _ | 2, _ | 3, _ | 4, _ | 5, _ | 6, _ | 7, _ => rfl

end OptionalFormat

/-- The first byte of a header, from the format and the part of the tag in it -/
theorem firstByte (v : Byte) :
    UInt8.ofNat ((OptionalFormat.ofByte v).toNat + 8 * (v.toNat / 8)) = v := by
  have hv := v.toNat_lt
  apply UInt8.toNat_inj.mp
  rw [UInt8.toNat_ofNat', OptionalFormat.toNat_ofByte]
  omega

/-- The tag tells how long the header is where it is as it is written. -/
theorem ReadsHeader.length (h : ReadsHeader s v found t) :
    ∃ k, t = s.advance k ∧ (headerLength found = k ↔ AsWritten s) := by
  obtain ⟨hrest, -⟩ := readByte_ok h.byte
  -- a header as it is written has this tag
  have hwritten (k : Nat) (hk : t = s.advance k) : AsWritten s → headerLength found = k := by
    rintro (hmarker | ⟨found', format, tail, hlt, heq⟩)
    · rw [h.byte] at hmarker
      cases hmarker
      exact absurd rfl h.ne
    · obtain ⟨v', hat⟩ := atHeader_of_rest hlt heq
      have hbyte := hat.byte
      rw [h.byte] at hbyte
      cases hbyte
      have hreads := hat.reads
      rw [h.tag, hk] at hreads
      obtain ⟨rfl, hadvance⟩ := EStateM.Result.ok.inj hreads
      have hi := congrArg i hadvance
      change s.i + k = s.i + _ at hi
      rw [length_optionalHeader] at hi
      omega
  have htag := h.tag
  unfold readTag at htag
  by_cases h30 : v.toNat / 8 = 30
  · have hfirst := firstByte v
    rw [h30] at hfirst
    rw [if_pos h30] at htag
    rcases readSize_cases htag with ⟨x, tail, hsize, hx, rfl, rfl⟩ | ⟨tail, hsize, hlt, rfl⟩
    · rw [advance_advance]
      refine ⟨2, rfl, ?_, hwritten 2 (advance_advance ..)⟩
      intro hlength
      right
      have hlt : x.toNat < 256 := x.toNat_lt
      have h255 : x.toNat ≠ 255 := by
        intro heq
        exact hx (UInt8.toNat_inj.mp heq)
      refine ⟨x.toNat, .ofByte v, tail, by omega, ?_⟩
      unfold headerLength at hlength
      unfold optionalHeader sizeBytes
      rw [if_neg, if_neg (by omega), hfirst, UInt8.ofNat_toNat, hrest, hsize]
      · rfl
      · intro hsmall
        rw [if_pos hsmall] at hlength
        omega
    · rw [advance_advance]
      refine ⟨6, rfl, ?_, hwritten 6 (advance_advance ..)⟩
      intro hlength
      right
      refine ⟨found, .ofByte v, tail, hlt, ?_⟩
      unfold headerLength at hlength
      unfold optionalHeader sizeBytes
      have hlarge : 254 < found := by
        split at hlength
        · omega
        · split at hlength
          · omega
          · omega
      rw [if_neg (by omega), if_pos hlarge, hfirst, hrest, hsize]
      rfl
  · rw [if_neg h30] at htag
    cases htag
    refine ⟨1, rfl, ?_, hwritten 1 rfl⟩
    intro hlength
    right
    have hv := v.toNat_lt
    have hfirst := firstByte v
    refine ⟨v.toNat / 8, .ofByte v, (s.advance 1).rest, by omega, ?_⟩
    unfold headerLength at hlength
    unfold optionalHeader
    have hsmall : v.toNat / 8 < 30 := by
      by_contra hlarge
      rw [if_neg hlarge] at hlength
      split at hlength
      · omega
      · omega
    rw [if_pos hsmall, hfirst, hrest]
    rfl

/-- At the end marker, or at an optional value with a greater tag -/
inductive Unread (tag : Nat) (s : InputStream δ) : Prop
  | marker (hinside : s.atEnd = false)
      (hbyte : readByte s = .ok OPTIONAL_END_MARKER (s.advance 1))
  | greater {t : InputStream δ} {v : Byte} {found : Nat} (hheader : ReadsHeader s v found t)
      (hlt : tag < found)

/-- The optional values with smaller tags are skipped up to `u`, where reading stops. -/
inductive StopsBefore (skipClass : Read δ Unit) (tag : Nat) :
    InputStream δ → InputStream δ → Prop
  | here {s : InputStream δ} (hunread : Unread tag s) : StopsBefore skipClass tag s s
  | skip {s t t' u : InputStream δ} {v : Byte} {found : Nat} (hheader : ReadsHeader s v found t)
      (hlt : found < tag) (hskip : skipOptional skipClass (.ofByte v) t = .ok () t')
      (hrest : StopsBefore skipClass tag t' u) : StopsBefore skipClass tag s u

theorem StopsBefore.unread (h : StopsBefore skipClass tag s u) : Unread tag u := by
  induction h with
  | here hunread => exact hunread
  | skip hheader hlt hskip hrest ih => exact ih

/-- The loop of `readOptImpl`, which has no bound in the source, returns `false` at `u`. -/
def LeavesAt (skipClass : Read δ Unit) (tag : Nat) (format : OptionalFormat)
    (s u : InputStream δ) : Prop :=
  ∃ n, ∀ m, n ≤ m → readOptLoop skipClass tag format m s = .ok false u

theorem readOptLoop_of_marker (hinside : s.atEnd = false)
    (hbyte : readByte s = .ok OPTIONAL_END_MARKER (s.advance 1)) :
    readOptLoop skipClass tag format (n + 1) s = .ok false s := by
  rw [readOptLoop, bind_of_ok (get_eq s), hinside, if_neg Bool.false_ne_true, bind_of_ok hbyte,
    if_pos rfl, bind_of_ok (rewind_advance s 1)]
  rfl

/-- A turn of the loop at an optional value -/
theorem readOptLoop_of_header (h : ReadsHeader s v found t) :
    readOptLoop skipClass tag format (n + 1) s =
      (if tag < found then (rewind (headerLength found) >>= fun _ => pure false : Read δ Bool) t
      else if found < tag then
        (skipOptional skipClass (.ofByte v) >>= fun _ => readOptLoop skipClass tag format n) t
      else if OptionalFormat.ofByte v ≠ format then
        (throwException (.marshal
          ("invalid optional data member `" ++ toString found ++ "': unexpected format")) :
          Read δ Bool) t
      else .ok true t) := by
  rw [readOptLoop, bind_of_ok (get_eq s), h.inside, if_neg Bool.false_ne_true, bind_of_ok h.byte,
    if_neg h.ne, bind_of_ok h.tag]
  unfold headerLength
  split
  · rfl
  · split
    · rfl
    · split
      · rfl
      · rfl

/-- Going back ends where it began if it goes as far as reading went. -/
theorem rewind_eq_iff (s : InputStream δ) (k r : Nat) :
    (rewind r >>= fun _ => pure false : Read δ Bool) (s.advance k) = .ok false s ↔ r = k := by
  constructor
  · intro h
    obtain ⟨_, s', hrewind, hs⟩ := ok_of_bind h
    cases hs
    rw [rewind_eq] at hrewind
    split at hrewind
    · cases hrewind
    · rename_i hle
      have hi := congrArg i (EStateM.Result.ok.inj hrewind).2
      change s.i + k - r = s.i at hi
      change ¬s.i + k < r at hle
      omega
  · rintro rfl
    rw [bind_of_ok (rewind_advance s r)]
    rfl

theorem Unread.readOptLoop_eq_iff (skipClass : Read δ Unit) (format : OptionalFormat)
    (h : Unread tag u) (n : Nat) :
    readOptLoop skipClass tag format (n + 1) u = .ok false u ↔ AsWritten u := by
  cases h with
  | marker hinside hbyte => exact iff_of_true (readOptLoop_of_marker hinside hbyte) (Or.inl hbyte)
  | greater hheader hlt =>
    obtain ⟨k, rfl, hlength⟩ := hheader.length
    rw [readOptLoop_of_header hheader, if_pos hlt, rewind_eq_iff]
    exact hlength

/-- What is skipped takes turns of the loop. -/
theorem StopsBefore.turns (format : OptionalFormat) (h : StopsBefore skipClass tag s u) :
    ∃ k, ∀ m, readOptLoop skipClass tag format
      (k + m) s = readOptLoop skipClass tag format m u := by
  induction h with
  | here hunread => exact ⟨0, fun m => by rw [Nat.zero_add]⟩
  | skip hheader hlt hskip hrest ih =>
    obtain ⟨k, ih⟩ := ih
    refine ⟨k + 1, fun m => ?_⟩
    rw [Nat.add_right_comm, readOptLoop_of_header hheader, if_neg (by omega), if_pos hlt,
      bind_of_ok hskip]
    exact ih m

theorem StopsBefore.leavesAt_iff (h : StopsBefore skipClass tag s u) :
    LeavesAt skipClass tag format s u ↔ AsWritten u := by
  obtain ⟨k, hturns⟩ := h.turns format
  constructor
  · rintro ⟨n, hleaves⟩
    have hlast := hleaves (k + (n + 1)) (by omega)
    rw [hturns, h.unread.readOptLoop_eq_iff] at hlast
    exact hlast
  · intro hwritten
    refine ⟨k + 1, fun m hm => ?_⟩
    obtain ⟨j, rfl⟩ := Nat.exists_eq_add_of_le hm
    have hlast := (h.unread.readOptLoop_eq_iff skipClass format j).mpr
      hwritten
    rw [Nat.add_assoc, hturns, Nat.add_comm]
    exact hlast

/-- Where the loop returns `false`: at the end of the encapsulation, or where it stopped if what
stands there is as it is written. -/
theorem stopsBefore_of_readOptLoop (h : readOptLoop skipClass tag format n s = .ok false t) :
    t.atEnd = true ∨ ∃ u, StopsBefore skipClass tag s u ∧ (t = u ↔ AsWritten u) := by
  induction n generalizing s with
  | zero => cases h
  | succ n ih =>
    by_cases hinside : s.atEnd = true
    · left
      rw [readOptLoop, bind_of_ok (get_eq s), if_pos hinside] at h
      cases h
      exact hinside
    rw [Bool.not_eq_true] at hinside
    have hturn := h
    rw [readOptLoop, bind_of_ok (get_eq s), hinside, if_neg Bool.false_ne_true] at hturn
    obtain ⟨v, s₁, hbyte, hturn⟩ := ok_of_bind hturn
    obtain ⟨-, rfl⟩ := readByte_ok hbyte
    by_cases hmarker : v = OPTIONAL_END_MARKER
    · right
      subst hmarker
      rw [readOptLoop_of_marker hinside hbyte] at h
      obtain ⟨-, rfl⟩ := EStateM.Result.ok.inj h
      exact ⟨s, .here (.marker hinside hbyte), iff_of_true rfl (Or.inl hbyte)⟩
    rw [if_neg hmarker] at hturn
    obtain ⟨found, t₁, htag, -⟩ := ok_of_bind hturn
    have hheader : ReadsHeader s v found t₁ := ⟨hinside, hbyte, hmarker, htag⟩
    have hloop := h
    rw [readOptLoop_of_header hheader] at hloop
    split at hloop
    · right
      rename_i hlt
      have hunread : Unread tag s := .greater hheader hlt
      refine ⟨s, .here hunread, ?_⟩
      rw [← hunread.readOptLoop_eq_iff skipClass format n, h]
      constructor
      · rintro rfl
        rfl
      · intro heq
        exact (EStateM.Result.ok.inj heq).2
    · split at hloop
      · rename_i hlt
        obtain ⟨_, t', hskip, hloop⟩ := ok_of_bind hloop
        rcases ih hloop with hend | ⟨u, hstops, hu⟩
        · exact Or.inl hend
        · exact Or.inr ⟨u, .skip hheader hlt hskip hstops, hu⟩
      · split at hloop
        · cases hloop
        · cases hloop

/-- An optional value that is not read is left in the stream if and only if its header, or that of
the end, is as it is written. -/
theorem untouched_iff (skipClass : Read δ Unit) (tag : Nat) (format : OptionalFormat)
    (s : InputStream δ) :
    ((∀ u, StopsBefore skipClass tag s u → LeavesAt skipClass tag format s u) ↔
      ∀ u, StopsBefore skipClass tag s u → AsWritten u) ∧
    ∀ t, readOptImpl skipClass tag format s = .ok false t →
      t.atEnd = true ∨ ∃ u, StopsBefore skipClass tag s u ∧ (t = u ↔ AsWritten u) := by
  constructor
  · exact forall₂_congr fun u hstops => hstops.leavesAt_iff
  · intro t h
    unfold readOptImpl at h
    rw [bind_of_ok (get_eq s)] at h
    exact stopsBefore_of_readOptLoop h

/-- The tag 5 in the form for tags from 30 on -/
def longTag : InputStream Unit := .ofBytes [240, 5, 7] ()

/-- The stream is left at the second byte of the header. -/
theorem not_untouched_longTag : StopsBefore (pure ()) 3 longTag longTag ∧
    readOptImpl (pure ()) 3 .f1 longTag = .ok false (longTag.advance 1) ∧
    ¬LeavesAt (pure ()) 3 .f1 longTag longTag := by
  have hheader : ReadsHeader longTag 240 5 (longTag.advance 2) := by
    constructor
    · rfl
    · rfl
    · decide
    · rfl
  have hstops : StopsBefore (pure ()) 3 longTag longTag := .here (.greater hheader (by decide))
  refine ⟨hstops, rfl, ?_⟩
  rw [hstops.leavesAt_iff]
  have hunread : Unread 3 longTag := .greater hheader (by decide)
  rw [← hunread.readOptLoop_eq_iff (pure ()) .f1 0]
  intro heq
  have hi := congrArg i (EStateM.Result.ok.inj heq).2
  cases hi

end Ice.Streams
