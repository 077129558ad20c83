import Ice.References.MarshaledProxies
import Ice.Slice.Growth

/-!
# Minimum wire sizes

Whatever a stream writes for a value takes at least the bytes that the compiler has
estimated for the type, and exactly those where the type has a fixed length. So the check
of a sequence size never refuses elements that are there, and a reader skips an optional
value of fixed length to its end. The estimate is added up modulo the range of `size_t`,
which the size of a buffer does not reach.
-/

namespace Ice.Slice

open Lib Streams
open References (RoutableReference Version)

mutual

/-- The estimate without the wrap of `size_t` -/
def DataType.leastBytes : DataType → Nat
  | .builtin kind => kind.minWireSize
  | .proxy => 2
  | .struct members => members.leastBytes
  | .enum _ | .classDecl | .sequence _ | .dictionary _ _ => 1

def Members.leastBytes : Members → Nat
  | .last type => type.leastBytes
  | .cons type members => type.leastBytes + members.leastBytes

end

theorem Kind.minWireSize_pos (kind : Kind) : 1 ≤ kind.minWireSize := by
  cases kind <;> decide

mutual

/-- There is no empty struct, so every value takes a byte. -/
theorem DataType.leastBytes_pos : ∀ type : DataType, 1 ≤ type.leastBytes
  | .builtin kind => kind.minWireSize_pos
  | .proxy => by decide
  | .struct members => members.leastBytes_pos
  | .enum _ | .classDecl | .sequence _ | .dictionary _ _ => Nat.le_refl 1

theorem Members.leastBytes_pos : ∀ members : Members, 1 ≤ members.leastBytes
  | .last type => type.leastBytes_pos
  | .cons type _ => Nat.le_add_right_of_le type.leastBytes_pos

end

mutual

theorem DataType.minWireSize_eq : ∀ type : DataType, type.minWireSize = type.leastBytes % sizeMax
  | .builtin kind => by cases kind <;> rfl
  | .struct members => by
    have hloop := members.addSizes_eq 0
    rwa [Nat.zero_add] at hloop
  | .proxy | .enum _ | .classDecl | .sequence _ | .dictionary _ _ => rfl

/-- The loop of the compiler -/
theorem Members.addSizes_eq (sz : Nat) :
    ∀ members : Members, members.addSizes sz = (sz + members.leastBytes) % sizeMax
  | .last type => by
    rw [Members.addSizes, Members.leastBytes, type.minWireSize_eq, Nat.add_mod_mod]
  | .cons type members => by
    rw [Members.addSizes, Members.leastBytes, members.addSizes_eq, type.minWireSize_eq,
      Nat.add_mod_mod, Nat.mod_add_mod, Nat.add_assoc]

end

/-- The estimate never exceeds the sum. -/
theorem DataType.minWireSize_le (type : DataType) : type.minWireSize ≤ type.leastBytes := by
  rw [type.minWireSize_eq]
  exact Nat.mod_le ..

section Writing

variable {ε R P : Type} {w : Writers ε R P}

theorem addsFrom_writeEnum (encoding : Encoding) (v maxValue : Nat) :
    AddsFrom 1 (writeEnum encoding v maxValue : Write ε Unit) := by
  cases encoding with
  | e10 =>
    refine .ite (.append (by simp)) (.ite (.append ?_) ((AddsFrom.writeInt _).mono (by decide)))
    rw [shortBytes, length_leBytes]
    decide
  | e11 => exact .writeSize v

/-- References and proxies take what the compiler expects. -/
structure Writers.Grow (w : Writers ε R P) : Prop where
  value : ∀ r, AddsFrom 1 (w.value r)
  proxy : ∀ p, AddsFrom 2 (w.proxy p)

theorem Kind.addsFrom_write (h : w.Grow) (kind : Kind) (x : kind.Data R P) :
    AddsFrom kind.minWireSize (kind.write w x) := by
  cases kind
  case bool => exact .append (Nat.le_refl 1)
  case string => exact .writeString x
  case object | value => exact h.value x
  case objectProxy => exact h.proxy x
  all_goals exact .append (List.Vector.toList_length x).ge

mutual

/-- A value takes at least the bytes of the estimate. -/
theorem DataType.addsFrom_write (h : w.Grow) : ∀ (type : DataType) (x : type.Data R P),
    AddsFrom type.leastBytes (type.write w x)
  | .builtin kind, x => kind.addsFrom_write h x
  | .enum _, _ => addsFrom_writeEnum _ _ _
  | .proxy, x => h.proxy x
  | .classDecl, x => h.value x
  | .struct members, x => members.addsFrom_write h x
  | .sequence type, _ =>
    (AddsFrom.writeSize _).first fun _ => AddsFrom.forM_zero fun y _ =>
      (type.addsFrom_write h y).mono (Nat.zero_le _)
  | .dictionary keyType valueType, _ =>
    (AddsFrom.writeSize _).first fun _ => AddsFrom.forM_zero fun entry _ =>
      ((keyType.addsFrom_write h entry.1).mono (Nat.zero_le _)).first fun _ =>
        (valueType.addsFrom_write h entry.2).mono (Nat.zero_le _)

theorem Members.addsFrom_write (h : w.Grow) : ∀ (members : Members) (x : members.Data R P),
    AddsFrom members.leastBytes (members.write w x)
  | .last type, x => type.addsFrom_write h x
  | .cons type members, x =>
    (type.addsFrom_write h x.1).bind fun _ => members.addsFrom_write h x.2

end

/-- The elements of a sequence take at least the bytes that the reader checks for. -/
theorem DataType.addsFrom_elements (h : w.Grow) (type : DataType) (xs : List (type.Data R P)) :
    AddsFrom (xs.length * type.leastBytes) (xs.forM (type.write w)) :=
  .forM fun y _ => type.addsFrom_write h y

theorem Kind.fixed_write (kind : Kind) (hk : kind.isVariableLength = false) (x : kind.Data R P) :
    Adds kind.minWireSize (kind.write w x) ∧ Appends (kind.write w x) := by
  cases kind
  case string | object | value | objectProxy => contradiction
  case bool => exact ⟨.append rfl, .append _⟩
  all_goals exact ⟨.append (List.Vector.toList_length x), .append _⟩

mutual

/-- A value of fixed length takes exactly the bytes of the estimate, and only appends them. -/
theorem DataType.fixed_write : ∀ (type : DataType) (_ : type.isVariableLength = false)
    (x : type.Data R P), Adds type.leastBytes (type.write w x) ∧ Appends (type.write w x)
  | .builtin kind, ht, x => kind.fixed_write ht x
  | .struct members, ht, x => members.fixed_write ht x
  | .enum _, ht, _ | .proxy, ht, _ | .classDecl, ht, _ | .sequence _, ht, _
  | .dictionary _ _, ht, _ => by contradiction

theorem Members.fixed_write : ∀ (members : Members) (_ : members.isVariableLength = false)
    (x : members.Data R P),
      Adds members.leastBytes (members.write w x) ∧ Appends (members.write w x)
  | .last type, ht, x => type.fixed_write ht x
  | .cons type members, ht, x => by
    obtain ⟨htype, hmembers⟩ := Bool.or_eq_false_iff.mp ht
    obtain ⟨hadds, happends⟩ := type.fixed_write htype x.1
    obtain ⟨hadds', happends'⟩ := members.fixed_write hmembers x.2
    exact ⟨hadds.seq hadds', happends.seq happends'⟩

end

variable {s s' : OutputStream ε}

/-- What is written of a value of fixed length. -/
theorem DataType.bytes_of_fixed (type : DataType) (ht : type.isVariableLength = false)
    (x : type.Data R P) (h : type.write w x s = .ok () s') :
    ∃ bytes, s'.b = s.b ++ bytes ∧ bytes.length = type.leastBytes := by
  obtain ⟨hadds, happends⟩ := type.fixed_write ht x
  obtain ⟨bytes, rfl⟩ := happends s s' h
  have hlength := hadds s _ h
  rw [List.length_append] at hlength
  exact ⟨bytes, rfl, by omega⟩

/-- A buffer that holds a value of the type does not let the estimate wrap. -/
theorem DataType.minWireSize_of_lt {type : DataType} (h : type.leastBytes < sizeMax) :
    type.minWireSize = type.leastBytes := by
  rw [type.minWireSize_eq, Nat.mod_eq_of_lt h]

/-- The bytes of an optional value of fixed length are skipped by its format. -/
theorem DataType.skip_optional {δ : Type} (skipClass : Read δ Unit) (type : DataType)
    (ht : type.isVariableLength = false) (x : type.Data R P)
    (h : type.writeOptionalValue w x s = .ok () s') (hlength : s'.b.length < sizeMax) :
    ∃ bytes, s'.b = s.b ++ bytes ∧ ∀ (r : InputStream δ) (tail : List Byte),
      r.rest = bytes ++ tail →
        skipOptional skipClass type.optionalFormat r = .ok () (r.advance bytes.length) := by
  cases type with
  | builtin kind =>
    cases kind
    case string | object | value | objectProxy => contradiction
    all_goals
      obtain ⟨bytes, hb, hn⟩ := bytes_of_fixed _ ht x h
      refine ⟨bytes, hb, fun r tail hr => ?_⟩
      have hskip := skip_of_rest hr
      rw [hn] at hskip ⊢
      exact hskip
  | struct members =>
    have hm : members.isVariableLength = false := ht
    simp only [writeOptionalValue, hm, Bool.false_eq_true, if_false] at h
    obtain ⟨_, u, hsize, hvalue⟩ := ok_of_bind h
    obtain ⟨hv, rfl⟩ := lt_of_writeSize hsize
    obtain ⟨content, hb, hn⟩ := bytes_of_fixed (.struct members) ht x hvalue
    have hwrap : (DataType.struct members).minWireSize = content.length := by
      rw [hb, List.length_append] at hlength
      rw [hn, minWireSize_of_lt (by omega)]
    rw [hwrap] at hv hb
    refine ⟨sizeBytes content.length ++ content, by rw [hb, List.append_assoc], ?_⟩
    intro r tail hr
    rw [List.append_assoc] at hr
    have hformat : (DataType.struct members).optionalFormat = .vSize := by
      simp [optionalFormat, containerFormat, hm]
    rw [hformat]
    simp only [skipOptional]
    rw [bind_of_ok (readSize_of_rest hv hr), skip_of_rest (InputStream.rest_advance hr),
      InputStream.advance_advance, List.length_append]
  | enum _ | proxy | classDecl | sequence _ | dictionary _ _ => contradiction

end Writing

theorem AddsFrom.of_appends {ε : Type} {w : Write ε Unit} (h : Appends w) : AddsFrom 0 w := by
  intro s a s' hw
  obtain ⟨bytes, rfl⟩ := h s s' hw
  simp

theorem addsFrom_inEncapsulation {ε : Type} {n : Nat} {w : Write WriteEncaps Unit}
    (h : AddsFrom n w) (encaps : WriteEncaps) :
    AddsFrom n (inEncapsulation encaps w : Write ε Unit) := by
  intro s a s' hw
  unfold inEncapsulation at hw
  split at hw
  next b t ht =>
    obtain ⟨-, rfl⟩ := EStateM.Result.ok.inj hw
    exact h _ b t ht
  · contradiction

/-- The nil proxy is the shortest. -/
theorem addsFrom_writeProxy (r : Option RoutableReference) : AddsFrom 2 (writeProxy r) := by
  have hidentity (id : References.Identity) : AddsFrom 2 (writeIdentity id) :=
    (AddsFrom.writeString _).bind fun _ => .writeString _
  cases r with
  | none => exact hidentity _
  | some r => exact (hidentity _).first fun _ => .of_appends r.appends_streamWrite

/-- The calls of both encodings take what the compiler expects. -/
theorem Encoding.grow_writers {ν : Type} [DecidableEq ν] (format : FormatType) (graph : Graph ν)
    (depth start : Nat) (previous : List (Nat × Version)) (e : Encoding) :
    (e.writers format graph depth start previous).Grow where
  value r := by
    cases e with
    | e10 => exact addsFrom_writeValue10 r
    | e11 => exact Encoder11.addsFrom_write (Encoder11.addsFrom_writeInstance graph depth) r
  proxy p := addsFrom_inEncapsulation (addsFrom_writeProxy p) _

/-- A write returns, in a buffer that has room for it: its size is a `size_t`. -/
def Completes {ε : Type} (w : Write ε Unit) (s s' : OutputStream ε) : Prop :=
  w s = .ok () s' ∧ s'.b.length < sizeMax

/-- A sequence whose elements are there passes the check of its size. -/
theorem readAndCheckSeqSize_of_fits {δ : Type} {r : InputStream δ} {n count minSize : Nat}
    {content tail : List Byte} (hcount : count < 2 ^ 31)
    (hrest : r.rest = sizeBytes count ++ (content ++ tail)) (hi : r.i ≤ r.b.length)
    (hlength : r.b.length < 2 ^ 31) (howes : r.Owes (1 + n)) (hn : n ≤ tail.length)
    (hfit : count * minSize ≤ content.length) :
    ∃ r', readAndCheckSeqSize minSize r = .ok count r' := by
  have hread := readSize_of_rest hcount hrest
  have hleft := InputStream.length_le_left hrest
  have hafter := InputStream.length_le_left (InputStream.rest_advance hrest)
  rw [readAndCheckSeqSize_eq minSize hread]
  by_cases hzero : count = 0
  · rw [if_pos hzero, hzero]
    exact ⟨_, rfl⟩
  · have hadvanced : (r.advance (sizeBytes count).length).Owes n :=
      howes.advance (sizeBytes_ne_nil count)
    have hinside : (r.advance (sizeBytes count).length).i ≤ r.b.length := by
      simp only [InputStream.advance, InputStream.left] at hleft ⊢
      omega
    have hroom : count * minSize + n ≤ (r.advance (sizeBytes count).length).left := by omega
    have hcheck := (hadvanced.checkSeqSize hinside hroom hlength).1
    rw [if_neg hzero, if_neg (not_lt.mpr hcheck)]
    exact ⟨_, rfl⟩

/-- For every type and every value, with both encodings: what is written takes at least
`minWireSize`, which is at least one, and exactly so much where the length is fixed; so a
sequence passes the check of its size, and an optional value of fixed length is skipped. -/
theorem wireSizes_sound {ν δ : Type} [DecidableEq ν] (format : FormatType) (graph : Graph ν)
    (depth start : Nat) (previous : List (Nat × Version)) (skipClass : Read δ Unit)
    (e : Encoding) (type : DataType) :
    let w := e.writers format graph depth start previous
    (∀ x s s', Completes (type.write w x) s s' →
      1 ≤ type.minWireSize ∧ s.b.length + type.minWireSize ≤ s'.b.length ∧
        (type.isVariableLength = false → s'.b.length = s.b.length + type.minWireSize)) ∧
    (∀ xs s s', Completes ((DataType.sequence type).write w xs) s s' →
      s.b.length + (sizeBytes (List.length xs)).length + List.length xs * type.minWireSize ≤
        s'.b.length ∧
      ∀ (r : InputStream δ) (content tail : List Byte) (n : Nat),
        s.b.length + (sizeBytes (List.length xs)).length + content.length = s'.b.length →
        r.rest = sizeBytes (List.length xs) ++ (content ++ tail) → r.i ≤ r.b.length →
        r.b.length < 2 ^ 31 → r.Owes (1 + n) → n ≤ tail.length →
          ∃ r', readAndCheckSeqSize type.minWireSize r = .ok (List.length xs) r') ∧
    (type.isVariableLength = false → ∀ x s s', Completes (type.writeOptionalValue w x) s s' →
      ∃ bytes, s'.b = s.b ++ bytes ∧ ∀ (r : InputStream δ) (tail : List Byte),
        r.rest = bytes ++ tail →
          skipOptional skipClass type.optionalFormat r = .ok () (r.advance bytes.length)) := by
  intro w
  have hgrow : w.Grow := e.grow_writers format graph depth start previous
  refine ⟨?_, ?_, ?_⟩
  · intro x s s' h
    have hleast := type.addsFrom_write hgrow x s () s' h.1
    have hlength := h.2
    have hwrap : type.minWireSize = type.leastBytes := DataType.minWireSize_of_lt (by omega)
    rw [hwrap]
    refine ⟨type.leastBytes_pos, hleast, fun ht => ?_⟩
    exact (type.fixed_write ht x).1 s s' h.1
  · intro xs s s' h
    obtain ⟨_, u, hsize, hloop⟩ := ok_of_bind h.1
    obtain ⟨hcount, rfl⟩ := lt_of_writeSize hsize
    have helements := type.addsFrom_elements hgrow xs _ _ s' hloop
    rw [List.length_append] at helements
    have hleast := Nat.mul_le_mul_left (List.length xs) type.minWireSize_le
    refine ⟨by omega, fun r content tail n hcontent hrest hi hlength howes hn => ?_⟩
    exact readAndCheckSeqSize_of_fits hcount hrest hi hlength howes hn (by omega)
  · intro ht x s s' h
    exact type.skip_optional skipClass ht x h.1 h.2

/-- A struct of a `short` and a `long` in the encoding 1.1. -/
def structExample : DataType := .struct (.cons (.builtin .short) (.last (.builtin .long)))

def structValue : structExample.Data (Option Unit) (Option RoutableReference) :=
  (List.Vector.replicate 2 0, List.Vector.replicate 8 0)

/-- There are no class instances to write. -/
def plainWriters : Writers (Encoding.e11.Encoder Unit) (Option Unit) (Option RoutableReference) :=
  Encoding.e11.writers .compact (fun _ : Unit => ⟨[], [], none⟩) 0 0 []

/-- It takes ten bytes, is accepted twice in a sequence, and skipped behind its size. -/
theorem wireSizes_sound_struct :
    (∃ s', structExample.write plainWriters structValue ⟨[], Encoder11.start⟩ = .ok () s' ∧
      s'.b.length = 10) ∧
    (∃ r', readAndCheckSeqSize structExample.minWireSize
      (.ofBytes (2 :: List.replicate 20 0) () : InputStream Unit) = .ok 2 r') ∧
    ∃ bytes, bytes.length = 11 ∧
      let r : InputStream Unit := .ofBytes (bytes ++ [7]) ()
      skipOptional (pure ()) structExample.optionalFormat r = .ok () (r.advance bytes.length) := by
  obtain ⟨hvalue, hsequence, hoptional⟩ := wireSizes_sound (δ := Unit) .compact
    (fun _ : Unit => ⟨[], [], none⟩) 0 0 [] (pure ()) .e11 structExample
  refine ⟨⟨_, rfl, (hvalue structValue ⟨[], Encoder11.start⟩ _ ⟨rfl, by decide⟩).2.2 rfl⟩, ?_, ?_⟩
  · have hread := (hsequence [structValue, structValue] ⟨[], Encoder11.start⟩ _ ⟨rfl, by decide⟩).2
    exact hread (.ofBytes (2 :: List.replicate 20 0) ()) (List.replicate 20 0) [] 0 rfl rfl
      (by decide)
      (by decide) (Or.inl rfl) (by decide)
  · obtain ⟨bytes, hbytes, hskip⟩ :=
      hoptional rfl structValue ⟨[], Encoder11.start⟩ _ ⟨rfl, by decide⟩
    refine ⟨bytes, ?_, hskip _ [7] rfl⟩
    exact (congrArg List.length hbytes).symm

end Ice.Slice
