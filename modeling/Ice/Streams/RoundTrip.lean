import Ice.Streams.OutputStream
import Ice.Streams.SequenceSize

/-!
# Reading what was written

`RoundTrip` relates a piece of writing to a piece of reading. Encoder and decoder are
tied by an invariant that a ghost value indexes, which only grows, and the piece says
what holds of the value that is read. Some of what the reader meets is decided by the
writer later only (flags that it patches in): the condition `Later` speaks of the
encoder after the piece, and passes backwards. The bytes that the enclosing sequences
still need are accounted for by `Owes`.
-/

namespace Ice.Streams

open Lib
open List (append_assoc length_append)

variable {ε δ γ α β ξ : Type}

namespace InputStream

/-- The check of sequence sizes counts on at most `n` more bytes. -/
def Owes (n : Nat) (s : InputStream δ) : Prop :=
  s.startSeq = -1 ∨ 0 ≤ s.startSeq ∧ s.startSeq ≤ s.b.length ∧ s.startSeq + s.minSeqSize ≤ s.i + n

variable {s : InputStream δ}

theorem Owes.mono {m n : Nat} (h : s.Owes m) (hle : m ≤ n) : s.Owes n := by
  rcases h with h | ⟨h₀, h₁, h₂⟩
  · exact Or.inl h
  · exact Or.inr ⟨h₀, h₁, by omega⟩

theorem Owes.advance {m n : Nat} (h : s.Owes (m + n)) {k : Nat} (hle : m ≤ k) :
    (s.advance k).Owes n := by
  rcases h with h | ⟨h₀, h₁, h₂⟩
  · exact Or.inl h
  · refine Or.inr ⟨h₀, h₁, ?_⟩
    simp only [InputStream.advance]
    omega

/-- A sequence that fits passes the check and owes its elements. -/
theorem Owes.checkSeqSize {n sz minSize : Nat} (h : s.Owes n) (hi : s.i ≤ s.b.length)
    (hfit : sz * minSize + n ≤ s.left) (hlength : s.b.length < 2 ^ 31) :
    toInt (s.owedEnd + sz * minSize) ≤ toInt s.b.length ∧
      (s.checkSeqSize sz minSize).Owes (sz * minSize + n) := by
  unfold left at hfit
  have hint : toInt (sz * minSize) = sz * minSize := toInt_of_lt (by omega) (by omega)
  have hb : toInt s.b.length = s.b.length := toInt_of_lt (by omega) (by omega)
  have hposition : toInt s.i = s.i := toInt_of_lt (by omega) (by omega)
  unfold owedEnd InputStream.checkSeqSize
  by_cases hclosed : s.startSeq = -1 ∨ s.startSeq + s.minSeqSize < s.i
  · rw [if_pos hclosed, if_pos hclosed, hb, toInt_of_lt (by omega) (by omega)]
    refine ⟨by omega, Or.inr ⟨?_, ?_, ?_⟩⟩
    · simp only [hposition]
      omega
    · simp only [hposition]
      omega
    · simp only [hposition, hint]
      omega
  · rw [if_neg hclosed, if_neg hclosed, hb]
    obtain ⟨hne, hle⟩ := not_or.mp hclosed
    obtain ⟨h₀, h₁, h₂⟩ := h.resolve_left hne
    rw [toInt_of_lt (by omega) (by omega)]
    have hsum : toInt (s.minSeqSize + toInt (sz * minSize)) = s.minSeqSize + sz * minSize := by
      rw [hint]
      apply toInt_of_lt <;> omega
    refine ⟨by omega, Or.inr ⟨h₀, h₁, ?_⟩⟩
    simp only [hsum]
    omega

end InputStream

/-- What ties the encoder to the decoder. -/
structure Link (γ ε δ : Type) where
  Inv : γ → ε → δ → Prop
  /-- What the reader has been told of the encoder. -/
  Later : ε → Prop
  /-- What is read lies in the encapsulation. -/
  inside : Prop
  /-- How reading may fail. -/
  fails : Failure → Prop

/-- A piece of writing that appends at least `minSize` bytes. -/
def Writes (L : Link γ ε δ) (minSize : Nat) (w : Write ε Unit) : Prop :=
  ∀ s s', w s = .ok () s' → ∃ bytes, s'.b = s.b ++ bytes ∧ minSize ≤ bytes.length ∧
    (L.Later s'.encoder → L.Later s.encoder)

/-- The stream is at bytes that took the encoder from `e` to `e'`. -/
structure Ready (L : Link γ ε δ) (minSize : Nat) (g : γ) (e e' : ε) (t : InputStream δ)
    (bytes tail : List Byte) (n : Nat) : Prop where
  later : L.Later e'
  inv : L.Inv g e t.decoder
  rest : t.rest = bytes ++ tail
  length : t.b.length < 2 ^ 31
  tail : n ≤ tail.length
  owes : t.Owes (minSize + n)
  inside : L.inside → t.i + bytes.length ≤ t.encaps.start + t.encaps.sz

/-- The stream is at what a piece of writing appended. -/
structure At (L : Link γ ε δ) (minSize : Nat) (w : Write ε Unit) (s s' : OutputStream ε) (g : γ)
    (t : InputStream δ) (bytes tail : List Byte) (n : Nat) : Prop where
  run : w s = .ok () s'
  b : s'.b = s.b ++ bytes
  ready : Ready L minSize g s.encoder s'.encoder t bytes tail n

variable {L : Link γ ε δ} {m n : Nat} {w w' : Write ε Unit} {r : Read δ α}

variable {bytes tail : List Byte} {g : γ} {k : Nat} {t : InputStream δ}

theorem Ready.mono {e e' : ε} (h : Ready L n g e e' t bytes tail k) (hle : n ≤ m) :
    Ready L m g e e' t bytes tail k :=
  { h with owes := h.owes.mono (by omega) }

theorem At.mono {s s' : OutputStream ε} (h : At L n w s s' g t bytes tail k) (hle : n ≤ m) :
    At L m w s s' g t bytes tail k :=
  ⟨h.run, h.b, h.ready.mono hle⟩

namespace Writes

theorem pure : Writes L 0 (Pure.pure ()) := by
  intro s s' h
  obtain ⟨-, rfl⟩ := EStateM.Result.ok.inj h
  exact ⟨[], (List.append_nil _).symm, le_rfl, id⟩

theorem mono (h : Writes L m w) (hle : n ≤ m) : Writes L n w := by
  intro s s' hw
  obtain ⟨bytes, hb, hmin, hlater⟩ := h s s' hw
  exact ⟨bytes, hb, hle.trans hmin, hlater⟩

theorem seq (h : Writes L m w) (h' : Writes L n w') : Writes L (m + n) (w >>= fun _ => w') := by
  intro s s'' hwrite
  obtain ⟨_, s', hfirst, hsecond⟩ := ok_of_bind hwrite
  obtain ⟨bytes, hb, hmin, hlater⟩ := h s s' hfirst
  obtain ⟨bytes', hb', hmin', hlater'⟩ := h' s' s'' hsecond
  refine ⟨bytes ++ bytes', ?_, ?_, hlater ∘ hlater'⟩
  · rw [hb', hb, append_assoc]
  · rw [length_append]
    omega

theorem append {bytes : List Byte} (hmin : m ≤ bytes.length) : Writes L m (append bytes) := by
  intro s s' hw
  obtain ⟨-, rfl⟩ := EStateM.Result.ok.inj hw
  exact ⟨bytes, rfl, hmin, id⟩

theorem writeSize (v : Nat) : Writes L 1 (writeSize v) := by
  intro s s' hw
  obtain ⟨hv, rfl⟩ := lt_of_writeSize hw
  exact ⟨sizeBytes v, rfl, sizeBytes_ne_nil v, id⟩

theorem forM {w : α → Write ε Unit} {xs : List α} (h : ∀ x ∈ xs, Writes L m (w x)) :
    Writes L (xs.length * m) (xs.forM w) := by
  induction xs with
  | nil =>
    rw [List.length_nil, Nat.zero_mul]
    exact pure
  | cons x xs ih =>
    rw [List.length_cons, Nat.succ_mul, Nat.add_comm]
    exact (h x (List.mem_cons_self ..)).seq (ih fun y hy => h y (List.mem_cons_of_mem _ hy))

end Writes

variable [Preorder γ]

/-- `k` bytes have been read. What holds of their value goes on to hold. -/
structure Arrived (L : Link γ ε δ) (P : γ → β → Prop) (g g' : γ) (e' : ε) (t t' : InputStream δ)
    (y : β) (k n : Nat) : Prop where
  le : g ≤ g'
  post : ∀ g'', g' ≤ g'' → P g'' y
  b : t'.b = t.b
  i : t'.i = t.i + k
  encaps : t'.encaps = t.encaps
  owes : t'.Owes n
  inv : L.Inv g' e' t'.decoder

/-- How reading ends. -/
inductive Outcome (L : Link γ ε δ) (P : γ → β → Prop) (r : Read δ β) (g : γ) (e' : ε)
    (t : InputStream δ) (k n : Nat) : Prop
  | arrives {y g' t'} (hr : r t = .ok y t') (ha : Arrived L P g g' e' t t' y k n)
  | fails {f t'} (hr : r t = .error f t') (hf : L.fails f)

/-- A piece of reading takes a piece of writing back. -/
def ReadsBack (L : Link γ ε δ) (minSize : Nat) (w : Write ε Unit) (r : Read δ β)
    (P : γ → β → Prop) : Prop :=
  ∀ s s' g t bytes tail n, At L minSize w s s' g t bytes tail n →
    Outcome L P r g s'.encoder t bytes.length n

structure RoundTrip (L : Link γ ε δ) (minSize : Nat) (w : Write ε Unit) (r : Read δ β)
    (P : γ → β → Prop) : Prop where
  writes : Writes L minSize w
  reads : ReadsBack L minSize w r P

variable {P : γ → α → Prop} {Q : α → γ → β → Prop}

theorem InputStream.rest_of_i {t' : InputStream δ} (h : t.rest = bytes ++ tail) (hb : t'.b = t.b)
    (hi : t'.i = t.i + bytes.length) : t'.rest = tail := by
  have := InputStream.rest_advance h
  unfold InputStream.rest at *
  rw [hb, hi]
  exact this

/-- What two pieces appended comes in two parts, one after the other. -/
theorem At.split {s s'' : OutputStream ε}
    (h : At L (m + n) (w >>= fun _ => w') s s'' g t bytes tail k) (hw : Writes L m w)
    (hw' : Writes L n w') :
    ∃ s' bytes₁ bytes₂, bytes = bytes₁ ++ bytes₂ ∧
      At L m w s s' g t bytes₁ (bytes₂ ++ tail) (n + k) ∧
      ∀ {β : Type} {P : γ → β → Prop} {y g' t'},
        Arrived L P g g' s'.encoder t t' y bytes₁.length (n + k) →
          At L n w' s' s'' g' t' bytes₂ tail k := by
  obtain ⟨hwrite, hbytes, hready⟩ := h
  obtain ⟨_, s', hfirst, hsecond⟩ := ok_of_bind hwrite
  obtain ⟨bytes₁, hb₁, hmin₁, -⟩ := hw s s' hfirst
  obtain ⟨bytes₂, hb₂, hmin₂, hlater⟩ := hw' s' s'' hsecond
  obtain rfl : bytes = bytes₁ ++ bytes₂ := by
    rw [hb₂, hb₁, append_assoc] at hbytes
    exact (List.append_cancel_left hbytes).symm
  have hrest := hready.rest
  have hinside := hready.inside
  rw [append_assoc] at hrest
  rw [length_append] at hinside
  refine ⟨s', bytes₁, bytes₂, rfl, ⟨hfirst, hb₁, ?_⟩, ?_⟩
  · refine ⟨hlater hready.later, hready.inv, hrest, hready.length, ?_, ?_, ?_⟩
    · have := hready.tail
      rw [length_append]
      omega
    · exact hready.owes.mono (by omega)
    · intro h
      have := hinside h
      omega
  · intro β P y g' t' ha
    refine ⟨hsecond, hb₂, hready.later, ha.inv, InputStream.rest_of_i hrest ha.b ha.i,
      ha.b ▸ hready.length, hready.tail, ha.owes, ?_⟩
    intro h
    have := hinside h
    rw [ha.encaps, ha.i]
    omega

namespace ReadsBack

theorem pure {P : γ → β → Prop} {y : β} (hP : ∀ g, P g y) :
    ReadsBack L 0 (Pure.pure ()) (Pure.pure y) P := by
  rintro s s' g t bytes tail n ⟨hw, hb, hready⟩
  obtain ⟨-, rfl⟩ := EStateM.Result.ok.inj hw
  obtain rfl : bytes = [] := by simpa using hb
  apply Outcome.arrives rfl
  exact ⟨le_rfl, fun g' _ => hP g', rfl, rfl, rfl, hready.owes.mono (by omega), hready.inv⟩

/-- A piece that needs more may be used where less is asked for. -/
theorem mono (h : ReadsBack L m w r P) (hle : n ≤ m) : ReadsBack L n w r P :=
  fun s s' g t bytes tail k hat => h s s' g t bytes tail k (hat.mono hle)

theorem conseq {P' : γ → α → Prop} (h : ReadsBack L m w r P) (hP : ∀ g y, P g y → P' g y) :
    ReadsBack L m w r P' := by
  intro s s' g t bytes tail k hat
  cases h s s' g t bytes tail k hat with
  | arrives hr ha => exact .arrives hr { ha with post := fun g'' hg => hP g'' _ (ha.post g'' hg) }
  | fails hr hf => exact .fails hr hf

/-- One piece after the other. -/
theorem bind (hw : Writes L m w) (h : ReadsBack L m w r P) (hw' : Writes L n w')
    {f : α → Read δ β} (h' : ∀ y, (∃ g, P g y) → ReadsBack L n w' (f y) (Q y)) :
    ReadsBack L (m + n) (w >>= fun _ => w') (r >>= f) fun g z => ∃ y, P g y ∧ Q y g z := by
  intro s s'' g t bytes tail k hat
  obtain ⟨s', bytes₁, bytes₂, rfl, hat₁, hnext⟩ := hat.split hw hw'
  cases h s s' g t bytes₁ _ _ hat₁ with
  | fails hr hf => exact .fails (bind_of_error hr f) hf
  | @arrives y g' t' hr ha =>
    cases h' y ⟨g', ha.post g' le_rfl⟩ s' s'' g' t' bytes₂ tail k (hnext ha) with
    | fails hr' hf => exact .fails ((bind_of_ok hr f).trans hr') hf
    | arrives hr' ha' =>
      apply Outcome.arrives ((bind_of_ok hr f).trans hr')
      refine ⟨ha.le.trans ha'.le, ?_, ha'.b.trans ha.b, ?_, ha'.encaps.trans ha.encaps, ha'.owes,
        ha'.inv⟩
      · intro gz hg
        exact ⟨y, ha.post gz (ha'.le.trans hg), ha'.post gz hg⟩
      · rw [ha'.i, ha.i, length_append, Nat.add_assoc]

/-- The reader goes on with what it has read. -/
theorem map {P' : γ → β → Prop} (h : ReadsBack L m w r P) (f : α → β)
    (hP : ∀ g y, P g y → P' g (f y)) :
    ReadsBack L m w (r >>= fun y => Pure.pure (f y)) P' := by
  intro s s' g t bytes tail k hat
  cases h s s' g t bytes tail k hat with
  | fails hr hf => exact .fails (bind_of_error hr fun y => Pure.pure (f y)) hf
  | arrives hr ha =>
    apply Outcome.arrives (bind_of_ok hr fun y => Pure.pure (f y))
    exact { ha with post := fun g'' hg => hP g'' _ (ha.post g'' hg) }

/-- Bytes that a primitive reads back. -/
theorem of_append {bytes : List Byte} {y : α} (hmin : m ≤ bytes.length) (hP : ∀ g, P g y)
    (hr : ∀ (t : InputStream δ) tail, t.rest = bytes ++ tail → t.b.length < 2 ^ 31 →
      r t = .ok y (t.advance bytes.length)) :
    ReadsBack L m (append bytes) r P := by
  rintro s s' g t bytes' tail k ⟨hw, hb, hready⟩
  obtain ⟨-, rfl⟩ := EStateM.Result.ok.inj hw
  obtain rfl : bytes = bytes' := List.append_cancel_left hb
  apply Outcome.arrives (hr t tail hready.rest hready.length)
  exact ⟨le_rfl, fun g' _ => hP g', rfl, rfl, rfl, hready.owes.advance hmin, hready.inv⟩

theorem writeSize (v : Nat) :
    ReadsBack L 1 (writeSize v) readSize fun _ y => y = v := by
  rintro s s' g t bytes tail k ⟨hw, hb, hready⟩
  obtain ⟨hv, rfl⟩ := lt_of_writeSize hw
  have hbytes : ReadsBack L 1 (Streams.append (sizeBytes v)) readSize fun _ y => y = v :=
    of_append (sizeBytes_ne_nil v) (fun _ => rfl) fun t tail hrest _ => readSize_of_rest hv hrest
  exact hbytes s _ g t bytes tail k ⟨append_eq .., hb, hready⟩

/-- A size that is checked, and the elements, which it accounts for. -/
theorem checked {sz minSize : Nat} {f : Nat → Read δ β} {P' : γ → β → Prop}
    (hw' : Writes L (sz * minSize) w') (h : ReadsBack L (sz * minSize) w' (f sz) P') :
    ReadsBack L 1 (Streams.writeSize sz >>= fun _ => w')
      (readAndCheckSeqSize minSize >>= f) P' := by
  rintro s s'' g t bytes tail k ⟨hwrite, hbytes, hready⟩
  obtain ⟨_, s', hfirst, hsecond⟩ := ok_of_bind hwrite
  obtain ⟨hsz, rfl⟩ := lt_of_writeSize hfirst
  obtain ⟨bytes', hb', hmin, hlater⟩ := hw' _ s'' hsecond
  obtain rfl : bytes = sizeBytes sz ++ bytes' := by
    rw [hb', append_assoc] at hbytes
    exact (List.append_cancel_left hbytes).symm
  have hrest := hready.rest
  have hinside := hready.inside
  rw [append_assoc] at hrest
  rw [length_append] at hinside
  have hpos := sizeBytes_ne_nil sz
  have hsize := readSize_of_rest hsz hrest
  have hcheck := readAndCheckSeqSize_eq minSize hsize
  have hrest₁ := InputStream.rest_advance hrest
  have howes₁ : (t.advance (sizeBytes sz).length).Owes k := hready.owes.advance hpos
  have hleft := InputStream.length_le_left hrest₁
  have htail := hready.tail
  -- the elements are read from the stream after the check, which owes them
  have hafter (t₁ : InputStream δ) (hr : readAndCheckSeqSize minSize t = .ok sz t₁)
      (hb₁ : t₁.b = t.b) (hi₁ : t₁.i = t.i + (sizeBytes sz).length)
      (he₁ : t₁.encaps = t.encaps) (hd₁ : t₁.decoder = t.decoder)
      (ho₁ : t₁.Owes (sz * minSize + k)) :
      Outcome L P' (readAndCheckSeqSize minSize >>= f) g s''.encoder t
        (sizeBytes sz ++ bytes').length k := by
    have hready' : Ready L (sz * minSize) g s.encoder s''.encoder t₁ bytes' tail k := by
      refine ⟨hready.later, hd₁ ▸ hready.inv, InputStream.rest_of_i hrest hb₁ hi₁,
        hb₁ ▸ hready.length, htail, ho₁, ?_⟩
      intro h
      have := hinside h
      rw [he₁, hi₁]
      omega
    cases h _ s'' g t₁ bytes' tail k ⟨hsecond, hb', hready'⟩ with
    | fails hr' hf => exact .fails ((bind_of_ok hr f).trans hr') hf
    | arrives hr' ha =>
      apply Outcome.arrives ((bind_of_ok hr f).trans hr')
      refine ⟨ha.le, ha.post, ha.b.trans hb₁, ?_, ha.encaps.trans he₁, ha.owes, ha.inv⟩
      rw [ha.i, hi₁, length_append, Nat.add_assoc]
  by_cases hz : sz = 0
  · rw [if_pos hz] at hcheck
    exact hafter (t.advance (sizeBytes sz).length) (hcheck.trans (by rw [hz])) rfl rfl rfl
      rfl (howes₁.mono (by omega))
  · have hinside' : (t.advance (sizeBytes sz).length).i ≤ t.b.length := by
      have hleft₀ := InputStream.length_le_left hrest
      unfold InputStream.left at hleft₀
      change t.i + (sizeBytes sz).length ≤ t.b.length
      omega
    have hfit : sz * minSize + k ≤ (t.advance (sizeBytes sz).length).left := by
      rw [← hleft]
      omega
    obtain ⟨hle, howes₂⟩ := howes₁.checkSeqSize hinside' hfit hready.length
    rw [if_neg hz, if_neg (not_lt.mpr hle)] at hcheck
    exact hafter _ hcheck (InputStream.checkSeqSize_b ..) (InputStream.checkSeqSize_i ..)
      (InputStream.checkSeqSize_encaps ..) (InputStream.checkSeqSize_decoder ..) howes₂

end ReadsBack

namespace RoundTrip

variable {P' : γ → β → Prop}

theorem pure {y : β} (hP : ∀ g, P' g y) : RoundTrip L 0 (Pure.pure ()) (Pure.pure y) P' :=
  ⟨.pure, .pure hP⟩

section

variable (h : RoundTrip L m w r P)

include h

theorem mono (hle : n ≤ m) : RoundTrip L n w r P :=
  ⟨h.writes.mono hle, h.reads.mono hle⟩

theorem conseq {P' : γ → α → Prop} (hP : ∀ g y, P g y → P' g y) :
    RoundTrip L m w r P' :=
  ⟨h.writes, h.reads.conseq hP⟩

theorem bind (hw' : Writes L n w') {f : α → Read δ β}
    (h' : ∀ y, (∃ g, P g y) → ReadsBack L n w' (f y) (Q y)) :
    RoundTrip L (m + n) (w >>= fun _ => w') (r >>= f) fun g z => ∃ y, P g y ∧ Q y g z :=
  ⟨h.writes.seq hw', .bind h.writes h.reads hw' h'⟩

theorem map (f : α → β) (hP : ∀ g y, P g y → P' g (f y)) :
    RoundTrip L m w (r >>= fun y => Pure.pure (f y)) P' :=
  ⟨h.writes, h.reads.map f hP⟩

end

theorem of_append {bytes : List Byte} {y : α} (hmin : m ≤ bytes.length) (hP : ∀ g, P g y)
    (hr : ∀ (t : InputStream δ) tail, t.rest = bytes ++ tail → t.b.length < 2 ^ 31 →
      r t = .ok y (t.advance bytes.length)) :
    RoundTrip L m (append bytes) r P :=
  ⟨.append hmin, .of_append hmin hP hr⟩

theorem writeSize (v : Nat) : RoundTrip L 1 (writeSize v) readSize fun _ y => y = v :=
  ⟨.writeSize v, .writeSize v⟩

theorem checked {sz minSize : Nat} {f : Nat → Read δ β}
    (h : RoundTrip L (sz * minSize) w' (f sz) P') :
    RoundTrip L 1 (Streams.writeSize sz >>= fun _ => w') (readAndCheckSeqSize minSize >>= f) P' :=
  ⟨((Writes.writeSize sz).seq h.writes).mono (Nat.le_add_right ..), .checked h.writes h.reads⟩

end RoundTrip

end Ice.Streams
