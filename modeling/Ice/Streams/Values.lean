import Ice.Streams.RoundTrip

/-!
# Values of Slice types

The types that data members have, their values, and how `StreamHelper` writes and reads
them. References to class instances are a parameter of the values: a writer has
instances there, a reader has the addresses that are patched. Proxies and enumerators
are left out. A dictionary lists its entries, which have different keys; entries that
arrive with new keys are appended.
-/

namespace Ice.Streams

open Lib
open List (append_assoc append_nil map_id map_map)

/-- The sizes of the built-in scalar types. -/
inductive Width
  | one | two | four | eight
  deriving DecidableEq, Repr

def Width.bytes : Width → Nat
  | .one => 1
  | .two => 2
  | .four => 4
  | .eight => 8

/-- The types that dictionaries may have as keys. -/
inductive KeyType
  | scalar (w : Width)
  | string
  | struct (t u : KeyType)
  deriving DecidableEq, Repr

/-- The types of data members. -/
inductive WireType
  | scalar (w : Width)
  | string
  /-- A class. -/
  | value
  /-- A struct; more than two members are nested. -/
  | struct (t u : WireType)
  | sequence (t : WireType)
  | dictionary (k : KeyType) (t : WireType)
  deriving DecidableEq, Repr

/-- Entries with different keys. -/
structure Dict (κ ν : Type) where
  entries : List (κ × ν)
  nodup : (entries.map Prod.fst).Nodup

def KeyType.Data : KeyType → Type
  | .scalar w => Scalar w.bytes
  | .string => List Byte
  | .struct t u => t.Data × u.Data

/-- The values of a type with references from `R`. -/
def WireType.Data (R : Type) : WireType → Type
  | .scalar w => Scalar w.bytes
  | .string => List Byte
  | .value => R
  | .struct t u => t.Data R × u.Data R
  | .sequence t => List (t.Data R)
  | .dictionary k t => Dict k.Data (t.Data R)

instance KeyType.decidableEqData : (t : KeyType) → DecidableEq t.Data
  | .scalar w => inferInstanceAs (DecidableEq (Scalar w.bytes))
  | .string => inferInstanceAs (DecidableEq (List Byte))
  | .struct t u =>
    have := decidableEqData t
    have := decidableEqData u
    inferInstanceAs (DecidableEq (t.Data × u.Data))

namespace Dict

variable {κ ν μ : Type}

@[ext]
theorem ext {d d' : Dict κ ν} (h : d.entries = d'.entries) : d = d' := by
  cases d
  cases d'
  congr

def empty : Dict κ ν := ⟨[], List.nodup_nil⟩

theorem keys_replace [DecidableEq κ] (entries : List (κ × ν)) (k : κ) (x : ν) :
    (entries.map fun p => if p.1 = k then (k, x) else p).map Prod.fst = entries.map Prod.fst := by
  rw [map_map]
  apply List.map_congr_left
  intro p _
  by_cases hp : p.1 = k
  · simp [hp]
  · simp [hp]

/-- The value of a key is replaced, or an entry is added. -/
def insert [DecidableEq κ] (d : Dict κ ν) (k : κ) (x : ν) : Dict κ ν :=
  if h : k ∈ d.entries.map Prod.fst then
    ⟨d.entries.map fun p => if p.1 = k then (k, x) else p, by
      rw [keys_replace]
      exact d.nodup⟩
  else
    ⟨d.entries ++ [(k, x)], by
      rw [List.map_append]
      exact d.nodup.append (List.nodup_singleton _) (List.disjoint_singleton.mpr h)⟩

theorem entries_insert_of_not_mem [DecidableEq κ] (d : Dict κ ν) {k : κ} (x : ν)
    (h : k ∉ d.entries.map Prod.fst) : (d.insert k x).entries = d.entries ++ [(k, x)] := by
  rw [insert, dif_neg h]

/-- The values of the entries change, in order. -/
def transform (d : Dict κ ν) (f : List (κ × ν) → List (κ × μ))
    (h : ∀ l, (f l).map Prod.fst = l.map Prod.fst) : Dict κ μ :=
  ⟨f d.entries, by
    rw [h]
    exact d.nodup⟩

end Dict

namespace WireType

/-- `StreamableTraits<T>::minWireSize` -/
def minWireSize : WireType → Nat
  | .scalar w => w.bytes
  | .struct t u => t.minWireSize + u.minWireSize
  | _ => 1

/-- `StreamableTraits<T>::fixedLength` -/
def fixedLength : WireType → Bool
  | .scalar _ => true
  | .struct t u => t.fixedLength && u.fixedLength
  | _ => false

/-- The type has no class in it. -/
def plain : WireType → Bool
  | .scalar _ | .string => true
  | .value => false
  | .struct t u => t.plain && u.plain
  | .sequence t | .dictionary _ t => t.plain

end WireType

def KeyType.write {ε : Type} : (t : KeyType) → t.Data → Write ε Unit
  | .scalar _, x => append (List.Vector.toList x)
  | .string, x => writeString x
  | .struct t u, x => do
    t.write x.1
    u.write x.2

def KeyType.read {δ : Type} : (t : KeyType) → Read δ t.Data
  | .scalar w => readScalar w.bytes
  | .string => readString
  | .struct t u => do
    let x ← t.read
    let y ← u.read
    return (x, y)

def writeEntry {ε κ ν : Type} (wk : κ → Write ε Unit) (w : ν → Write ε Unit) (p : κ × ν) :
    Write ε Unit := do
  wk p.1
  w p.2

/-- The same read `n` times. -/
def readTimes {δ α : Type} : Nat → Read δ α → Read δ (List α)
  | 0, _ => return []
  | n + 1, r => do
    let x ← r
    let xs ← readTimes n r
    return x :: xs

/-- The loop that reads the entries of a dictionary. -/
def readEntries {δ κ ν : Type} [DecidableEq κ] (rk : Read δ κ) (rx : Read δ ν) :
    Nat → Dict κ ν → Read δ (Dict κ ν)
  | 0, d => return d
  | n + 1, d => do
    let k ← rk
    let x ← rx
    readEntries rk rx n (d.insert k x)

namespace WireType

variable {ε δ R S : Type}

/-- `write`; `wr` writes a reference to an instance. -/
def write (wr : R → Write ε Unit) : (t : WireType) → t.Data R → Write ε Unit
  | .scalar _, x => append (List.Vector.toList x)
  | .string, x => writeString x
  | .value, x => wr x
  | .struct t u, x => do
    t.write wr x.1
    u.write wr x.2
  | .sequence t, x => do
    writeSize (List.length x)
    List.forM x (t.write wr)
  | .dictionary k t, x => do
    writeSize x.entries.length
    x.entries.forM (writeEntry k.write (t.write wr))

/-- `read`; `rd` reads a reference to an instance. Sequences of scalars are copied. -/
def read (rd : Read δ S) : (t : WireType) → Read δ (t.Data S)
  | .scalar w => readScalar w.bytes
  | .string => readString
  | .value => rd
  | .struct t u => do
    let x ← t.read rd
    let y ← u.read rd
    return (x, y)
  | .sequence (.scalar w) => readScalars w.bytes
  | .sequence t => do
    let sz ← readAndCheckSeqSize t.minWireSize
    readTimes sz (t.read rd)
  | .dictionary k t => do
    let sz ← readSize
    readEntries k.read (t.read rd) sz .empty

variable {R S : Type}

/-- The references of a value are replaced. -/
def map (f : R → S) : (t : WireType) → t.Data R → t.Data S
  | .scalar _, x => x
  | .string, x => x
  | .value, x => f x
  | .struct t u, x => (t.map f x.1, u.map f x.2)
  | .sequence t, x => List.map (t.map f) x
  | .dictionary _ t, x =>
    x.transform (List.map fun p => (p.1, t.map f p.2)) fun l => by
      rw [map_map]
      rfl

/-- Values that agree but for their references, which are related. -/
def Matches (P : R → S → Prop) : (t : WireType) → t.Data R → t.Data S → Prop
  | .scalar w, x, y => (show Scalar w.bytes from x) = y
  | .string, x, y => (show List Byte from x) = y
  | .value, x, y => P x y
  | .struct t u, x, y => t.Matches P x.1 y.1 ∧ u.Matches P x.2 y.2
  | .sequence t, x, y => List.Forall₂ (t.Matches P) x y
  | .dictionary _ t, x, y =>
    List.Forall₂ (fun p q => p.1 = q.1 ∧ t.Matches P p.2 q.2) x.entries y.entries

end WireType

theorem map_of_forall₂ {α β : Type} {P : α → β → Prop} {f : β → α} {xs : List α} {ys : List β}
    (h : List.Forall₂ P xs ys) (hf : ∀ x y, P x y → f y = x) : ys.map f = xs := by
  induction h with
  | nil => rfl
  | cons hxy _ ih => rw [List.map_cons, hf _ _ hxy, ih]

/-- Looking the references up again gives the value back. -/
theorem WireType.map_of_matches {R S : Type} {P : R → S → Prop} {f : S → R}
    (hf : ∀ r a, P r a → f a = r) (t : WireType) {x : t.Data R} {y : t.Data S}
    (h : t.Matches P x y) : t.map f y = x := by
  induction t with
  | scalar w => exact Eq.symm h
  | string => exact Eq.symm h
  | value => exact hf _ _ h
  | struct t u iht ihu => exact Prod.ext (iht h.1) (ihu h.2)
  | sequence t ih => exact map_of_forall₂ h fun _ _ => ih
  | dictionary k t ih =>
    apply Dict.ext
    exact map_of_forall₂ h fun p q hpq => Prod.ext hpq.1.symm (ih hpq.2)

variable {n : Nat}

theorem Scalar.ofBytes_toList_append (x : Scalar n) (tail : List Byte) :
    Scalar.ofBytes n (x.toList ++ tail) = x := by
  apply List.Vector.eq
  change ((x.toList ++ tail) ++ List.replicate n 0).take n = x.toList
  rw [append_assoc, List.take_append_of_le_length (by simp), List.take_of_length_le (by simp)]

theorem readScalar_of_rest {δ : Type} {t : InputStream δ} {x : Scalar n} {tail : List Byte}
    (h : t.rest = x.toList ++ tail) : readScalar n t = .ok x (t.advance x.toList.length) := by
  have hread := readBytes_of_rest h
  have hlength : x.toList.length = n := by simp
  unfold readScalar
  rw [hlength] at hread ⊢
  rw [bind_of_ok hread]
  have hx := Scalar.ofBytes_toList_append x []
  rw [append_nil] at hx
  rw [hx]
  rfl

theorem scalars_flatMap (xs : List (Scalar n)) (tail : List Byte) :
    scalars n xs.length (xs.flatMap List.Vector.toList ++ tail) = xs := by
  induction xs with
  | nil => rfl
  | cons x xs ih =>
    rw [List.length_cons, scalars, List.flatMap_cons, append_assoc,
      Scalar.ofBytes_toList_append, List.drop_left' (by simp), ih]

namespace RoundTrip

variable {ε δ γ α β κ ν : Type} [Preorder γ] {L : Link γ ε δ} {m : Nat}

theorem string (x : List Byte) :
    RoundTrip L 1 (writeString x) readString fun _ y => y = x := by
  have hpos := sizeBytes_ne_nil x.length
  have hbytes : x.length < 2 ^ 31 → RoundTrip L 1 (append (sizeBytes x.length ++ x)) readString
      fun _ y => y = x := by
    intro hv
    apply of_append
    · rw [List.length_append]
      omega
    · exact fun _ => rfl
    · intro t tail hrest _
      rw [append_assoc] at hrest
      unfold readString
      rw [bind_of_ok (readSize_of_rest hv hrest),
        readBytes_of_rest (InputStream.rest_advance hrest), InputStream.advance_advance,
        List.length_append]
  have hwrite (s s' : OutputStream ε) (h : writeString x s = .ok () s') :
      x.length < 2 ^ 31 ∧ append (sizeBytes x.length ++ x) s = .ok () s' := by
    unfold writeString at h
    obtain ⟨_, u, hfirst, hsecond⟩ := ok_of_bind h
    obtain ⟨hv, rfl⟩ := lt_of_writeSize hfirst
    refine ⟨hv, ?_⟩
    rw [← hsecond, append_eq, append_eq, append_assoc]
  constructor
  · intro s s' h
    obtain ⟨hv, h'⟩ := hwrite s s' h
    exact (hbytes hv).writes s s' h'
  · intro s s' g t bytes tail n hat
    obtain ⟨hv, h'⟩ := hwrite s s' hat.run
    exact (hbytes hv).reads s s' g t bytes tail n { hat with run := h' }

variable {M : γ → α → β → Prop} {r : Read δ β} {w : α → Write ε Unit}

/-- A loop that reads the same number of times. -/
theorem times (xs : List α) (h : ∀ x ∈ xs, RoundTrip L m (w x) r fun g => M g x) :
    RoundTrip L (xs.length * m) (xs.forM w) (readTimes xs.length r)
      fun g => List.Forall₂ (M g) xs := by
  induction xs with
  | nil =>
    rw [List.length_nil, Nat.zero_mul]
    exact .pure fun _ => .nil
  | cons x xs ih =>
    rw [List.forall_mem_cons] at h
    obtain ⟨hx, hxs⟩ := h
    have hrest (y : β) : ReadsBack L (xs.length * m) (xs.forM w)
        (readTimes xs.length r >>= fun ys => Pure.pure (y :: ys))
        fun g zs => ∃ ys, zs = y :: ys ∧ List.Forall₂ (M g) xs ys :=
      (ih hxs).reads.map (y :: ·) fun g ys hys => ⟨ys, rfl, hys⟩
    rw [List.length_cons, Nat.succ_mul, Nat.add_comm]
    apply (hx.bind (ih hxs).writes fun y _ => hrest y).conseq
    rintro g zs ⟨y, hy, ys, rfl, hys⟩
    exact .cons hy hys

theorem key (t : KeyType) (x : t.Data) :
    RoundTrip L 0 (t.write x) t.read fun _ y => y = x := by
  induction t with
  | scalar w =>
    exact of_append (Nat.zero_le _) (fun _ => rfl) fun t tail hrest _ => readScalar_of_rest hrest
  | string => exact (string x).mono (Nat.zero_le _)
  | struct t u iht ihu =>
    have hu (y : t.Data) : ReadsBack L 0 (u.write x.2) (u.read >>= fun z => Pure.pure (y, z))
        fun _ z => z = (y, x.2) := by
      apply (ihu x.2).reads.map
      rintro g z rfl
      rfl
    apply ((iht x.1).bind (ihu x.2).writes fun y _ => hu y).conseq
    rintro g z ⟨y, rfl, rfl⟩
    rfl

variable {wk : κ → Write ε Unit}

theorem entry {rk : Read δ κ}
    (hk : ∀ k, RoundTrip L 0 (wk k) rk fun _ k' => k' = k)
    (h : ∀ x, RoundTrip L 0 (w x) r fun g => M g x) (p : κ × α) :
    RoundTrip L 0 (writeEntry wk w p) (rk >>= fun k => r >>= fun y => Pure.pure (k, y))
      fun g q => p.1 = q.1 ∧ M g p.2 q.2 := by
  have hvalue (k : κ) : ReadsBack L 0 (w p.2) (r >>= fun y => Pure.pure (k, y))
      fun g q => q.1 = k ∧ M g p.2 q.2 := (h p.2).reads.map (k, ·) fun g y hy => ⟨rfl, hy⟩
  apply ((hk p.1).bind (h p.2).writes fun k _ => hvalue k).conseq
  rintro g q ⟨k, rfl, hkey, hq⟩
  exact ⟨hkey.symm, hq⟩

/-- The entries of a dictionary, after those that have been read. -/
theorem entries [DecidableEq κ] {rk : Read δ κ}
    (hk : ∀ k, RoundTrip L 0 (wk k) rk fun _ k' => k' = k)
    (h : ∀ x, RoundTrip L 0 (w x) r fun g => M g x) (xs : List (κ × α)) (d : Dict κ β)
    (hd : (d.entries.map Prod.fst ++ xs.map Prod.fst).Nodup) :
    RoundTrip L 0 (xs.forM (writeEntry wk w)) (readEntries rk r xs.length d) fun g d' =>
      ∃ l, d'.entries = d.entries ++ l ∧
        List.Forall₂ (fun p q => p.1 = q.1 ∧ M g p.2 q.2) xs l := by
  induction xs generalizing d with
  | nil => exact .pure fun _ => ⟨[], (append_nil _).symm, .nil⟩
  | cons p xs ih =>
    have hnew : p.1 ∉ d.entries.map Prod.fst := by
      intro hmem
      rw [List.nodup_append] at hd
      exact hd.2.2 _ hmem _ (List.mem_cons_self ..) rfl
    have hd' (q : κ × β) (hq : p.1 = q.1) :
        ((d.insert q.1 q.2).entries.map Prod.fst ++ xs.map Prod.fst).Nodup := by
      rw [← hq, Dict.entries_insert_of_not_mem d q.2 hnew, List.map_append, append_assoc]
      exact hd
    have hwrites : Writes L 0 (xs.forM (writeEntry wk w)) :=
      (Writes.forM fun x _ => (entry hk h x).writes).mono (Nat.zero_le _)
    have hfirst := (entry hk h p).bind hwrites
      (f := fun q => readEntries rk r xs.length (d.insert q.1 q.2))
      fun q hq => (ih _ (hd' q hq.choose_spec.1)).reads
    have hread : (rk >>= fun k => r >>= fun y => Pure.pure (k, y)) >>=
        (fun q => readEntries rk r xs.length (d.insert q.1 q.2)) =
        readEntries rk r (p :: xs).length d := by
      simp only [bind_assoc, pure_bind]
      rfl
    rw [hread] at hfirst
    apply hfirst.conseq
    rintro g d' ⟨q, hq, l, hentries, hl⟩
    rw [← hq.1, Dict.entries_insert_of_not_mem d q.2 hnew, append_assoc] at hentries
    refine ⟨(p.1, q.2) :: l, hentries, .cons ⟨rfl, hq.2⟩ hl⟩

theorem forM_append {n : Nat} (xs : List (Scalar n)) :
    (xs.forM fun x => (append (List.Vector.toList x) : Write ε Unit)) =
      append (xs.flatMap List.Vector.toList) := by
  induction xs with
  | nil =>
    funext s
    simp [append_eq]
    rfl
  | cons x xs ih =>
    funext s
    change (append x.toList >>= fun _ => xs.forM _) s = _
    rw [ih, bind_of_ok (append_eq ..), append_eq, append_eq, List.flatMap_cons, append_assoc]

/-- Sequences of scalars are copied. -/
theorem scalars {n : Nat} (xs : List (Scalar n)) :
    RoundTrip L 1
      (Streams.writeSize xs.length >>= fun _ => xs.forM fun x => append (List.Vector.toList x))
      (readScalars n) fun _ ys => ys = xs := by
  rw [forM_append]
  have hlength : (xs.flatMap List.Vector.toList).length = xs.length * n := by
    rw [List.length_flatMap]
    simp
  apply checked
  apply of_append (y := xs) (P := fun _ ys => ys = xs) (le_of_eq hlength.symm) fun _ => rfl
  intro t tail hrest hlt
  have hleft := InputStream.length_le_left hrest
  rw [copyScalars_of_le hlt (by omega), hrest, ← hlength, List.take_left]
  have hxs := scalars_flatMap xs []
  rw [append_nil] at hxs
  rw [hxs]

end RoundTrip

namespace WireType

variable {ε δ γ R S : Type} [Preorder γ] {L : Link γ ε δ} {M : γ → R → S → Prop}

theorem matches_scalars {P : R → S → Prop} {w : Width} (xs : List (Scalar w.bytes)) :
    (sequence (.scalar w)).Matches P xs xs := by
  change List.Forall₂ (fun x y : Scalar w.bytes => x = y) xs xs
  rw [List.forall₂_eq_eq_eq]

/-- A value is read back with the references of its references, when the references are. -/
theorem roundTrip {wr : R → Write ε Unit} {rd : Read δ S} (t : WireType)
    (h : t.plain = true ∨ ∀ r, RoundTrip L 1 (wr r) rd fun g => M g r) (x : t.Data R) :
    RoundTrip L t.minWireSize (t.write wr x) (t.read rd) fun g => t.Matches (M g) x := by
  induction t with
  | scalar w =>
    exact .of_append (le_of_eq (List.Vector.toList_length _).symm) (fun _ => rfl)
      fun t tail hrest _ => readScalar_of_rest hrest
  | string => exact (RoundTrip.string x).conseq fun _ _ hy => Eq.symm hy
  | value =>
    have hrefs := h.resolve_left Bool.false_ne_true
    exact hrefs x
  | struct t u iht ihu =>
    have ht : t.plain = true ∨ ∀ r, RoundTrip L 1 (wr r) rd fun g => M g r := by
      apply h.imp_left
      intro hp
      exact (Bool.and_eq_true_iff.mp hp).1
    have hu : u.plain = true ∨ ∀ r, RoundTrip L 1 (wr r) rd fun g => M g r := by
      apply h.imp_left
      intro hp
      exact (Bool.and_eq_true_iff.mp hp).2
    have hsecond (y : t.Data S) : ReadsBack L u.minWireSize (u.write wr x.2)
        (u.read rd >>= fun z => Pure.pure (y, z))
        fun g q => q.1 = y ∧ u.Matches (M g) x.2 q.2 :=
      (ihu hu x.2).reads.map (y, ·) fun g z hz => ⟨rfl, hz⟩
    apply ((iht ht x.1).bind (ihu hu x.2).writes fun y _ => hsecond y).conseq
    rintro g q ⟨y, hy, rfl, hz⟩
    exact ⟨hy, hz⟩
  | sequence t ih =>
    by_cases hscalar : ∃ w, t = .scalar w
    · obtain ⟨w, rfl⟩ := hscalar
      apply (RoundTrip.scalars x).conseq
      rintro g ys rfl
      exact matches_scalars ys
    · have hread : (sequence t).read rd =
          readAndCheckSeqSize t.minWireSize >>= fun sz => readTimes sz (t.read rd) := by
        cases t with
        | scalar w => exact absurd ⟨w, rfl⟩ hscalar
        | _ => rfl
      rw [hread]
      exact (RoundTrip.times x fun y _ => ih h y).checked
  | dictionary k t ih =>
    have hvalue (y : t.Data R) := (ih h y).mono (Nat.zero_le _)
    have hentries := RoundTrip.entries (RoundTrip.key k) hvalue x.entries .empty x.nodup
    have hread (sz : Nat) (hsz : ∃ _ : γ, sz = x.entries.length) :
        ReadsBack L 0 (x.entries.forM (writeEntry k.write (t.write wr)))
          (readEntries k.read (t.read rd) sz .empty) fun g => (dictionary k t).Matches (M g) x := by
      obtain ⟨-, rfl⟩ := hsz
      apply hentries.reads.conseq
      rintro g d ⟨l, hd, hl⟩
      change List.Forall₂ _ x.entries d.entries
      rw [hd]
      exact hl
    apply ((RoundTrip.writeSize x.entries.length).bind hentries.writes hread).conseq
    rintro g d ⟨-, -, hd⟩
    exact hd

theorem map_unit (t : WireType) (x : t.Data Unit) : t.map id x = x := by
  induction t with
  | scalar w => rfl
  | string => rfl
  | value => rfl
  | struct t u iht ihu => exact Prod.ext (iht x.1) (ihu x.2)
  | sequence t ih =>
    change List.map (t.map id) x = x
    rw [funext ih]
    exact map_id x
  | dictionary k t ih =>
    apply Dict.ext
    change List.map (fun p : k.Data × t.Data Unit => (p.1, t.map id p.2)) x.entries = x.entries
    rw [funext ih]
    exact map_id x.entries

/-- A value without classes is read back exactly, wherever it stands in a buffer, as long as
the sequences around it count on no more than it and what comes after it. -/
theorem read_write {t : WireType} (ht : t.plain = true) (x : t.Data Unit) {wr : Unit → Write ε Unit}
    {rd : Read δ Unit} {e : ε} {s : OutputStream ε} (hw : t.write wr x ⟨[], e⟩ = .ok () s)
    {before after : List Byte} {u : InputStream δ} (hb : u.b = before ++ s.b ++ after)
    (hi : u.i = before.length) (hlength : u.b.length < 2 ^ 31)
    (howes : u.Owes (t.minWireSize + after.length)) :
    ∃ u', t.read rd u = .ok x u' ∧ u'.b = u.b ∧ u'.i = before.length + s.b.length := by
  let L : Link Unit ε δ := ⟨fun _ _ _ => True, fun _ => True, False, fun _ => False⟩
  have hround : RoundTrip L t.minWireSize (t.write wr x) (t.read rd)
      fun _ => t.Matches (fun _ _ => True) x :=
    roundTrip (M := fun _ _ _ => True) t (Or.inl ht) x
  have hrest : u.rest = s.b ++ after := by
    rw [InputStream.rest, hb, hi, append_assoc, List.drop_left]
  have hready : Ready L t.minWireSize () e s.encoder u s.b after after.length :=
    ⟨trivial, trivial, hrest, hlength, le_rfl, howes, False.elim⟩
  cases hround.reads ⟨[], e⟩ s () u s.b after _ ⟨hw, rfl, hready⟩ with
  | fails _ hf => exact False.elim hf
  | @arrives y _ u' hr ha =>
    refine ⟨u', ?_, ha.b, hi ▸ ha.i⟩
    have hy := map_of_matches (f := id) (fun _ _ _ => Subsingleton.elim ..) t (ha.post () le_rfl)
    rw [hr, ← hy, map_unit]

/-- Two short strings in a sequence, after one byte and before another. -/
theorem read_write_strings : ∃ u' : InputStream Unit,
    (sequence string).read (pure ()) (InputStream.advance 1
        (.ofBytes ([7] ++ [2, 1, 65, 0] ++ [9]) ())) =
      .ok (show (sequence string).Data Unit from [[65], []]) u' ∧
      u'.b = [7] ++ [2, 1, 65, 0] ++ [9] ∧ u'.i = 1 + 4 := by
  have hw : (sequence string).write (fun _ => pure ()) (show (sequence string).Data Unit from
      [[65], []]) (⟨[], ()⟩ : OutputStream Unit) = .ok () ⟨[2, 1, 65, 0], ()⟩ := rfl
  have hb : (InputStream.advance 1 (.ofBytes ([7] ++ [2, 1, 65, 0] ++ [9]) ())).b =
      [7] ++ (⟨[2, 1, 65, 0], ()⟩ : OutputStream Unit).b ++ [9] := rfl
  exact read_write rfl _ hw hb rfl (by decide) (Or.inl rfl)

end WireType

end Ice.Streams
