import Ice.Streams.Optionals

/-!
# Invariants that reading keeps

A stable invariant holds however far the position goes on in the buffer. The readers of
values and of optional values keep every stable invariant that the reads of references
keep. `Ends` says which failures may end a read.
-/

namespace Ice.Streams

open Lib
open InputStream (before_advance one_le_left)

variable {δ α β : Type}

/-- An invariant that moves in the buffer keep, and what holds where reading fails. -/
structure Stable (I : InputStream δ → Prop) (Ends : Failure → InputStream δ → Prop) : Prop where
  inside : ∀ s, I s → s.i ≤ s.b.length
  before : ∀ s t, I s → s.Before t → I t
  exception : ∀ e s, I s → Ends (.exception e) s
  overlong : ∀ f s, I s → Ends (.fault f) (s.addNote .overlong)

/-- A read keeps an invariant and ends as it may. -/
abbrev Reads (I : InputStream δ → Prop) (Ends : Failure → InputStream δ → Prop) (x : Read δ α) :
    Prop :=
  Spec I x (fun _ => I) Ends

namespace Reads

variable {I : InputStream δ → Prop} {Ends : Failure → InputStream δ → Prop}

theorem pure (a : α) : Reads I Ends (Pure.pure a : Read δ α) := Spec.pure fun _ h => h

theorem throwException (h : Stable I Ends) (e : IceException) :
    Reads I Ends (throwException e : Read δ α) := Spec.throw fun s hs => h.exception e s hs

theorem bind {x : Read δ α} {f : α → Read δ β} (hx : Reads I Ends x)
    (hf : ∀ a, Reads I Ends (f a)) :
    Reads I Ends (x >>= f) := Spec.bind hx hf

theorem ite {p : Prop} [Decidable p] {x y : Read δ α} (hx : Reads I Ends x) (hy : Reads I Ends y) :
    Reads I Ends (if p then x else y) := Spec.ite (fun _ => hx) fun _ => hy

theorem map {x : Read δ α} (f : α → β) (hx : Reads I Ends x) : Reads I Ends (f <$> x) := by
  rw [map_eq_pure_bind]
  exact hx.bind fun _ => pure _

theorem get_bind {f : InputStream δ → Read δ β} (hf : ∀ s, Reads I Ends (f s)) :
    Reads I Ends (MonadState.get >>= f) :=
  Spec.get_bind fun s hs => (hf s).conseq (fun _ h => h ▸ hs) (fun _ _ h => h) fun _ _ h => h

end Reads

/-- Scalars are copied from what is left, or the copy leaves the buffer. -/
theorem copyScalars_cases (n sz : Nat) (s : InputStream δ) :
    (∃ f, copyScalars n sz s = .error (.fault f) (s.addNote .overlong)) ∨
      ∃ a k, ¬s.left < k ∧ copyScalars n sz s = .ok a (s.advance k) := by
  rw [copyScalars_eq]
  by_cases hover : s.Overlong n sz
  · left
    rw [bind_of_ok (watch_of hover)]
    unfold copyRange
    rcases hover with hneg | hleft
    · exact ⟨_, if_pos hneg⟩
    · exact ⟨_, (if_neg (by omega)).trans (if_pos hleft)⟩
  · right
    rw [bind_of_ok (watch_of_not hover)]
    unfold InputStream.Overlong at hover
    exact ⟨_, (toInt (sz * n)).toNat, by omega, (if_neg (by omega)).trans (if_neg (by omega))⟩

namespace Stable

variable {I : InputStream δ → Prop} {Ends : Failure → InputStream δ → Prop}

section

variable (h : Stable I Ends)

include h

theorem of_advances {x : Read δ α} (hx : Advances x) : Reads I Ends x := by
  apply (hx.spec h.inside h.before).conseq (fun _ hs => hs) (fun _ _ hs => hs)
  rintro e s ⟨hs, ex, rfl⟩
  exact h.exception ex s hs

/-- Less is left after more has been read. -/
theorem and_left_le (k : Nat) :
    Stable (fun s => I s ∧ s.left ≤ k) Ends where
  inside s hs := h.inside s hs.1
  before s t hs ht := by
    refine ⟨h.before s t hs.1 ht, ?_⟩
    have hb := congrArg List.length ht.b
    have hle := ht.le
    have hleft := hs.2
    unfold InputStream.left at *
    omega
  exception e s hs := h.exception e s hs.1
  overlong f s hs := h.overlong f s hs.1

theorem copyScalars (n sz : Nat) :
    Reads I Ends (copyScalars n sz : Read δ (List (Scalar n))) := by
  intro s hs
  rcases copyScalars_cases n sz s with ⟨f, hf⟩ | ⟨a, k, hk, ha⟩
  · rw [hf]
    exact h.overlong f s hs
  · rw [ha]
    exact h.before s _ hs (before_advance (h.inside s hs) hk)

theorem readScalars (n : Nat) :
    Reads I Ends (readScalars n : Read δ (List (Scalar n))) :=
  Spec.bind (h.of_advances (advances_readAndCheckSeqSize n))
    fun sz => h.copyScalars n sz

end

theorem readTimes {x : Read δ α} (hx : Reads I Ends x) (n : Nat) :
    Reads I Ends (readTimes n x) := by
  induction n with
  | zero => exact .pure _
  | succ n ih => exact hx.bind fun _ => ih.bind fun _ => .pure _

/-- What holds of each value that is read holds of all. -/
theorem forall_readTimes {x : Read δ α} {p : α → Prop}
    (hx : Spec I x (fun a s => p a ∧ I s) Ends) (n : Nat) :
    Spec I (Streams.readTimes n x) (fun l s => (∀ a ∈ l, p a) ∧ I s) Ends := by
  induction n with
  | zero =>
    apply Spec.pure
    intro s hs
    exact ⟨fun a ha => absurd ha List.not_mem_nil, hs⟩
  | succ n ih =>
    apply Spec.bind hx
    intro a
    apply Spec.of_forall
    rintro s ⟨ha, hs⟩ t rfl
    have hrest : Spec I (Streams.readTimes n x >>= fun l => pure (a :: l))
        (fun l s => (∀ a ∈ l, p a) ∧ I s) Ends := by
      apply Spec.bind ih
      intro l
      apply Spec.pure
      rintro s ⟨hl, hs⟩
      exact ⟨List.forall_mem_cons.mpr ⟨ha, hl⟩, hs⟩
    exact hrest t hs

theorem readEntries {κ ν : Type} [DecidableEq κ] {rk : Read δ κ} {rx : Read δ ν}
    (hk : Reads I Ends rk) (hx : Reads I Ends rx) (n : Nat) (d : Dict κ ν) :
    Reads I Ends (readEntries rk rx n d) := by
  induction n generalizing d with
  | zero => exact .pure _
  | succ n ih => exact hk.bind fun k => hx.bind fun x => ih (d.insert k x)

section

variable (h : Stable I Ends)

include h

theorem readKey (t : KeyType) : Reads I Ends (t.read : Read δ t.Data) := by
  induction t with
  | scalar w => exact h.of_advances (advances_readScalar w.bytes)
  | string => exact h.of_advances advances_readString
  | struct t u iht ihu => exact iht.bind fun _ => ihu.bind fun _ => .pure _

/-- A value is read as far as its references are. -/
theorem read {S : Type} {rd : Read δ S} (hrd : Reads I Ends rd) (t : WireType) :
    Reads I Ends (t.read rd) := by
  induction t with
  | scalar w => exact h.of_advances (advances_readScalar w.bytes)
  | string => exact h.of_advances advances_readString
  | value => exact hrd
  | struct t u iht ihu => exact iht.bind fun _ => ihu.bind fun _ => .pure _
  | sequence t ih =>
    have hsequence : Reads I Ends
        (readAndCheckSeqSize t.minWireSize >>= fun sz => Streams.readTimes sz (t.read rd)) :=
      (h.of_advances (advances_readAndCheckSeqSize _)).bind fun sz => readTimes ih sz
    cases t with
    | scalar w => exact h.readScalars w.bytes
    | _ => exact hsequence
  | dictionary k t ih =>
    exact (h.of_advances advances_readSize).bind fun sz => readEntries (h.readKey k) ih sz .empty

theorem readContainer {r : Read δ α} (hr : Reads I Ends r)
    (fixedLength : Bool) (sz : Nat) : Reads I Ends (readContainer fixedLength sz r) :=
  .ite (.ite hr ((h.of_advances advances_skipSize).bind fun _ => hr))
    ((h.of_advances (advances_skip 4)).bind fun _ => hr)

theorem readOptionalValue {S : Type} {rd : Read δ S} (hrd : Reads I Ends rd)
    (t : WireType) : Reads I Ends (t.readOptionalValue rd) := by
  have hread (t : WireType) := h.read hrd t
  cases t with
  | struct t u =>
    exact .ite ((h.of_advances advances_skipSize).bind fun _ => hread (.struct t u))
      ((h.of_advances (advances_skip 4)).bind fun _ => hread (.struct t u))
  | sequence t => exact h.readContainer (hread (.sequence t)) _ _
  | dictionary k t => exact h.readContainer (hread (.dictionary k t)) _ _
  | scalar w => exact hread (.scalar w)
  | string => exact hread .string
  | value => exact hread .value

theorem skipOptional {skipClass : Read δ Unit} (hskip : Reads I Ends skipClass)
    (format : OptionalFormat) : Reads I Ends (skipOptional skipClass format) := by
  cases format with
  | f1 => exact h.of_advances (advances_skip 1)
  | f2 => exact h.of_advances (advances_skip 2)
  | f4 => exact h.of_advances (advances_skip 4)
  | f8 => exact h.of_advances (advances_skip 8)
  | size => exact h.of_advances advances_skipSize
  | vSize => exact (h.of_advances advances_readSize).bind fun sz => h.of_advances (advances_skip sz)
  | fSize =>
    exact (h.of_advances advances_readInt).bind fun sz =>
      .ite ((Reads.throwException h _).bind fun _ => h.of_advances (advances_skip _))
        (h.of_advances (advances_skip _))
  | ofClass => exact hskip

end

end Stable

section

variable {Q : Unit → InputStream δ → Prop} {R : Failure → InputStream δ → Prop} {s : InputStream δ}

theorem wp_readByte {Q : Byte → InputStream δ → Prop}
    (hend : R (.exception .unmarshalOutOfBounds) s)
    (hbyte : ∀ v tail, s.rest = v :: tail → Q v (s.advance 1)) : wp readByte Q R s := by
  unfold wp readByte
  cases h : s.rest with
  | nil => exact hend
  | cons v tail => exact hbyte v tail h

theorem wp_rewind {n : Nat} (hout : s.i < n → R (.fault .outside) (s.addNote .rewound))
    (hback : n ≤ s.i → Q () { s with i := s.i - n }) : wp (rewind n) Q R s := by
  unfold wp
  rw [rewind_eq]
  by_cases h : s.i < n
  · rw [if_pos h]
    exact hout h
  · rw [if_neg h]
    exact hback (not_lt.mp h)

theorem readInt_cases (s : InputStream δ) :
    readInt s = .error (.exception .unmarshalOutOfBounds) s ∨
      ¬s.left < 4 ∧ ∃ v, readInt s = .ok v (s.advance 4) := by
  unfold readInt
  by_cases h : s.left < 4
  · left
    apply bind_of_error
    unfold readBytes
    rw [if_pos h]
  · right
    have hread : readBytes 4 s = .ok (s.rest.take 4) (s.advance 4) := by
      unfold readBytes
      rw [if_neg h]
    exact ⟨h, _, bind_of_ok hread _⟩

theorem readInt_range {s t : InputStream δ} {v : Int} (h : readInt s = .ok v t) :
    -2 ^ 31 ≤ v ∧ v < 2 ^ 31 := by
  unfold readInt at h
  cases hread : readBytes 4 s with
  | error e u =>
    rw [bind_of_error hread] at h
    contradiction
  | ok bytes u =>
    rw [bind_of_ok hread] at h
    obtain ⟨rfl, -⟩ := EStateM.Result.ok.inj h
    exact toInt_range _

/-- A size has five bytes when it is at least 255. -/
theorem wp_readSize {Q : Nat → InputStream δ → Prop} (hs : s.i ≤ s.b.length)
    (hend : ∀ e t, s.Before t → R (.exception e) t)
    (hsize : ∀ v k, 1 ≤ k → k ≤ s.left → (255 ≤ v → k = 5) → Q v (s.advance k)) :
    wp readSize Q R s := by
  unfold readSize
  rw [wp_bind]
  apply wp_readByte
  · exact hend _ s (.refl hs)
  intro v tail hv
  have hone := one_le_left hv
  have hbefore : s.Before (s.advance 1) := before_advance hs (not_lt.mpr hone)
  rw [wp_ite]
  constructor
  · intro _
    rw [wp_bind]
    rcases readInt_cases (s.advance 1) with hread | ⟨hfour, v, hread⟩
    · rw [wp_of_error hread]
      exact hend _ _ hbefore
    · rw [wp_of_ok hread, wp_ite]
      constructor
      · intro _
        exact hend _ _ (hbefore.trans (before_advance hbefore.inside hfour))
      · intro _
        have hleft : (s.advance 1).left = s.left - 1 := by
          change s.b.length - (s.i + 1) = s.b.length - s.i - 1
          omega
        exact hsize _ 5 (by omega) (by omega) fun _ => rfl
  · intro hne
    apply hsize _ 1 le_rfl hone
    intro hle
    have hlt := v.toNat_lt
    have hv : v.toNat = (255 : UInt8).toNat := by
      change v.toNat = 255
      omega
    exact absurd (UInt8.toNat_inj.mp hv) hne

end

/-- What is kept when the position goes back by one byte more than a header has: the header
is a byte with the tag 31. -/
structure Rewinds (I : InputStream δ → Prop) (Ends : Failure → InputStream δ → Prop) : Prop where
  back : ∀ s v tail, I s → s.rest = v :: tail → v.toNat / 8 = 31 → v ≠ OPTIONAL_END_MARKER →
    1 ≤ s.i → I { s with i := s.i - 1 }
  outside : ∀ s v tail, I s → s.rest = v :: tail → v.toNat / 8 = 31 → v ≠ OPTIONAL_END_MARKER →
    s.i = 0 → Ends (.fault .outside) ((s.advance 1).addNote .rewound)

namespace Stable

variable {I : InputStream δ → Prop} {Ends : Failure → InputStream δ → Prop}
  {skipClass : Read δ Unit}

section

variable (h : Stable I Ends)

include h

theorem rewind_of_le {s : InputStream δ} {m n : Nat} (hs : I s)
    (hm : m ≤ s.left) (hn : n ≤ m) :
    wp (rewind n : Read δ Unit) (fun _ => I) Ends (s.advance m) := by
  have hinside := h.inside s hs
  apply wp_rewind
  · intro hlt
    change s.i + m < n at hlt
    omega
  · intro _
    apply h.before s _ hs
    refine ⟨rfl, rfl, rfl, rfl, ?_, ?_⟩
    · change s.i ≤ s.i + m - n
      omega
    · change s.i + m - n ≤ s.b.length
      unfold InputStream.left at hm
      omega

/-- The bytes that the tag of a header takes, with its first byte. -/
theorem readTag {s : InputStream δ} {v : Byte} {tail : List Byte} (hs : I s)
    (hv : s.rest = v :: tail) :
    wp (readTag v) (fun tag t => ∃ m, t = s.advance m ∧ 1 ≤ m ∧ m ≤ s.left ∧
      (30 ≤ tag → 2 ≤ m ∧ (255 ≤ tag → 6 ≤ m) ∨ m = 1 ∧ v.toNat / 8 = 31 ∧ tag = 31))
      Ends (s.advance 1) := by
  have hone := one_le_left hv
  have hlt := v.toNat_lt
  have hbefore : s.Before (s.advance 1) :=
    before_advance (h.inside s hs) (not_lt.mpr hone)
  unfold Streams.readTag
  rw [wp_ite]
  constructor
  · intro _
    apply wp_readSize hbefore.inside
    · intro e t ht
      exact h.exception e t (h.before _ t (h.before s _ hs hbefore) ht)
    · intro tag m hm hmleft h255
      have hleft : (s.advance 1).left = s.left - 1 := by
        change s.b.length - (s.i + 1) = s.b.length - s.i - 1
        omega
      have hsum : (s.advance 1).advance m = s.advance (1 + m) := by
        unfold InputStream.advance
        simp only [Nat.add_assoc]
      exact ⟨1 + m, hsum, by omega, by omega, fun _ => Or.inl ⟨by omega, by omega⟩⟩
  · intro _
    exact ⟨1, rfl, le_rfl, hone, fun _ => Or.inr ⟨rfl, by omega, by omega⟩⟩

/-- The loop of `readOptImpl` keeps what going back keeps. -/
theorem readOptLoop (hr : Rewinds I Ends)
    (hskip : ∀ k, Reads (fun s => I s ∧ s.left ≤ k) Ends skipClass) (tag : Nat)
    (format : OptionalFormat) (n k : Nat) (hk : k < n) :
    Spec (fun s => I s ∧ s.left ≤ k) (readOptLoop skipClass tag format n) (fun _ => I) Ends := by
  induction n generalizing k with
  | zero => omega
  | succ n ih =>
    rw [spec_iff_wp]
    rintro s ⟨hs, hleft⟩
    rw [Streams.readOptLoop, wp_bind, wp_get, wp_ite]
    refine ⟨fun _ => hs, fun _ => ?_⟩
    rw [wp_bind]
    apply wp_readByte (h.exception _ s hs)
    intro v tail hv
    have hone := one_le_left hv
    rw [wp_ite]
    constructor
    · intro _
      rw [wp_bind]
      exact wp_mono (h.rewind_of_le hs hone le_rfl) (fun _ _ ht => ht) fun _ _ ht => ht
    intro hend
    rw [wp_bind]
    apply wp_mono (h.readTag hs hv) _ fun _ _ ht => ht
    rintro found _ ⟨m, rfl, hm, hmleft, hext⟩
    have ht := h.before s _ hs (before_advance (h.inside s hs) (not_lt.mpr hmleft))
    rw [wp_ite]
    constructor
    · intro _
      rw [wp_bind]
      by_cases hshort : (if found < 30 then 1 else if found < 255 then 2 else 6) ≤ m
      · exact wp_mono (h.rewind_of_le hs hmleft hshort) (fun _ _ ht => ht) fun _ _ ht => ht
      · -- the tag 31 in a single byte
        obtain ⟨rfl, h31, rfl⟩ : m = 1 ∧ v.toNat / 8 = 31 ∧ found = 31 := by
          split at hshort
          · omega
          · rcases hext (by omega) with ⟨htwo, hsix⟩ | hcase
            · split at hshort
              · omega
              · have := hsix (by omega)
                omega
            · exact hcase
        apply wp_rewind
        · intro hlt
          change s.i + 1 < 2 at hlt
          exact hr.outside s v tail hs hv h31 hend (by omega)
        · intro hle
          change 2 ≤ s.i + 1 at hle
          exact hr.back s v tail hs hv h31 hend (by omega)
    · intro _
      rw [wp_ite]
      constructor
      · intro _
        have hleft' : (s.advance m).left ≤ k - 1 := by
          change s.b.length - (s.i + m) ≤ k - 1
          unfold InputStream.left at hmleft hleft
          omega
        have hstep := (h.and_left_le (k - 1)).skipOptional (hskip (k - 1)) (.ofByte v)
        have hrest := Spec.bind hstep fun _ => ih (k - 1) (by omega)
        exact hrest _ ⟨ht, hleft'⟩
      · intro _
        rw [wp_ite]
        exact ⟨fun _ => h.exception _ _ ht, fun _ => ht⟩

theorem readOptImpl (hr : Rewinds I Ends)
    (hskip : ∀ k, Reads (fun s => I s ∧ s.left ≤ k) Ends skipClass) (tag : Nat)
    (format : OptionalFormat) : Reads I Ends (readOptImpl skipClass tag format) := by
  apply Spec.get_bind
  intro s hs t ht
  subst ht
  exact h.readOptLoop hr hskip tag format _ _ (Nat.lt_succ_self _) t ⟨hs, le_rfl⟩

section

variable (hskip : ∀ k, Reads (fun s => I s ∧ s.left ≤ k) Ends skipClass)

include hskip

/-- The loop of `skipOptionals` never goes back. -/
theorem skipOptionalsLoop (n k : Nat) (hk : k < n) :
    Reads (fun s => I s ∧ s.left ≤ k) Ends (skipOptionalsLoop skipClass n) := by
  induction n generalizing k with
  | zero => omega
  | succ n ih =>
    rw [Reads, spec_iff_wp]
    rintro s ⟨hs, hleft⟩
    rw [Streams.skipOptionalsLoop, wp_bind, wp_get, wp_ite]
    refine ⟨fun _ => ⟨hs, hleft⟩, fun _ => ?_⟩
    rw [wp_bind]
    apply wp_readByte (h.exception _ s hs)
    intro v tail hv
    have hone := one_le_left hv
    have ht : I (s.advance 1) ∧ (s.advance 1).left ≤ k - 1 := by
      constructor
      · exact h.before s _ hs (before_advance (h.inside s hs) (not_lt.mpr hone))
      · change s.b.length - (s.i + 1) ≤ k - 1
        unfold InputStream.left at hleft
        omega
    rw [wp_ite]
    constructor
    · intro _
      exact ⟨ht.1, by omega⟩
    · intro _
      have hk' := h.and_left_le (k - 1)
      have hstep := hk'.skipOptional (hskip (k - 1)) (.ofByte v)
      have hmore := hstep.bind fun _ => ih (k - 1) (by omega)
      have hall := (hk'.of_advances advances_skipSize).bind fun _ => hmore
      rw [wp_ite]
      have hweak (t : InputStream δ) (hq : I t ∧ t.left ≤ k - 1) : I t ∧ t.left ≤ k :=
        ⟨hq.1, by omega⟩
      exact ⟨fun _ => wp_mono (hall _ ht) (fun _ => hweak) fun _ _ he => he,
        fun _ => wp_mono (hmore _ ht) (fun _ => hweak) fun _ _ he => he⟩

theorem skipOptionals :
    Reads I Ends (skipOptionals skipClass) := by
  apply Spec.get_bind
  intro s hs t ht
  subst ht
  have hall := h.skipOptionalsLoop hskip _ _ (Nat.lt_succ_self t.left) t ⟨hs, le_rfl⟩
  exact wp_mono hall (fun _ u hu => hu.1) fun _ _ he => he

end

end

end Stable

end Ice.Streams
