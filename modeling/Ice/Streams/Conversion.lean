import Ice.Lib.Memory
import Ice.Streams.OutputStream

/-!
# Strings that are converted

The buffer of an output stream with the memory behind it, and how a string is written that goes
through a string converter: its size is guessed, the converter asks the buffer for space and fills
it, and then the size is put right, for which the bytes may have to be moved.
-/

namespace Ice.Streams.Conversion

open Lib

/-- `Buffer::Container`: what is behind the size may be anything. -/
structure Container where
  mem : Nat → Byte
  size : Nat

/-- The bytes of the buffer -/
def Container.bytes (c : Container) : List Byte := slice c.mem 0 c.size

/-- What `reserve` leaves in the memory for another size: the bytes that are in the buffer before
and after -/
structure Allocator where
  resized : (Nat → Byte) → Nat → Nat → Nat → Byte
  keeps : ∀ mem size n i, i < size → i < n → resized mem size n i = mem i

/-- How writing ends other than by returning. -/
inductive Stopped
  | assertion (condition : String)
  /-- The buffer is written or read behind its end. -/
  | outside
  | illegalConversion (reason : String)
  | stringConversion (reason : String)
  deriving DecidableEq, Repr

abbrev Fill (α : Type) := EStateM Stopped Container α

def require (p : Prop) [Decidable p] (stopped : Stopped) : Fill Unit :=
  if p then pure () else throw stopped

section

variable (alloc : Allocator)

/-- `resize` -/
def resize (n : Nat) : Fill Unit :=
  modify fun c => { mem := alloc.resized c.mem c.size n, size := n }

/-- Bytes are stored at an index. -/
def store (i : Nat) (xs : List Byte) : Fill Unit := do
  let c ← get
  require (i + xs.length ≤ c.size) .outside
  set { c with mem := poke c.mem i xs }

/-- `memmove`, by indexes -/
def memmove (dst src n : Nat) : Fill Unit := do
  let c ← get
  require (src + n ≤ c.size) .outside
  store dst (slice c.mem src n)

/-- `write(Byte)`, `write(Int)` and `memcpy` to the end -/
def append (xs : List Byte) : Fill Unit := do
  let c ← get
  resize alloc (c.size + xs.length)
  store c.size xs

/-- `writeSize` -/
def writeSize (v : Int) : Fill Unit := do
  require (0 ≤ v) (.assertion "v >= 0")
  if 254 < v then
    append alloc [255]
    append alloc (intBytes v)
  else append alloc [UInt8.ofNat v.toNat]

/-- `rewriteSize` -/
def rewriteSize (v : Int) (dest : Nat) : Fill Unit := do
  require (0 ≤ v) (.assertion "v >= 0")
  if 254 < v then
    store dest [255]
    store (dest + 1) (intBytes v)
  else store dest [UInt8.ofNat v.toNat]

/-- The unused bytes are returned. -/
def returnUnused : Option Nat → Fill Unit
  | none => pure ()
  | some i => resize alloc i

/-- `StreamUTF8BufferI::getMoreBytes`: the index of the space -/
def getMoreBytes (howMany : Nat) (firstUnused : Option Nat) : Fill Nat := do
  require (0 < howMany) (.assertion "howMany > 0")
  returnUnused alloc firstUnused
  let c ← get
  resize alloc (c.size + howMany)
  require (c.size < c.size + howMany) (.assertion "n < _size")
  return c.size

/-- What a converter does -/
inductive ConverterStep
  | getMoreBytes (howMany : Nat) (firstUnused : Option Nat)
  | write (i : Nat) (x : Byte)
  deriving DecidableEq, Repr

/-- A call of `toUTF8`: what the converter does, and the index behind the last byte or the reason
why there is no conversion -/
structure ToUTF8 where
  steps : List ConverterStep
  result : Except String Nat

/-- A step of a converter, which keeps to the space that it was given from `firstIndex` on -/
def performStep (firstIndex : Nat) : ConverterStep → Fill Unit
  | .getMoreBytes howMany firstUnused => do
    let c ← get
    require (∀ i ∈ firstUnused, firstIndex ≤ i ∧ i ≤ c.size) .outside
    let _ ← getMoreBytes alloc howMany firstUnused
  | .write i x => do
    require (firstIndex ≤ i) .outside
    store i [x]

def performSteps (firstIndex : Nat) : List ConverterStep → Fill Unit
  | [] => pure ()
  | step :: steps => do
    performStep alloc firstIndex step
    performSteps firstIndex steps

/-- How the converter ends -/
def conclude (firstIndex : Nat) : Except String Nat → Fill Nat
  | .error reason => throw (.illegalConversion reason)
  | .ok lastByte => do
    let c ← get
    require (firstIndex ≤ lastByte ∧ lastByte ≤ c.size) .outside
    return lastByte

/-- `toUTF8` -/
def toUTF8 (firstIndex : Nat) (converter : ToUTF8) : Fill Nat := do
  performSteps alloc firstIndex converter.steps
  conclude firstIndex converter.result

/-- The bytes behind the last one are given back. -/
def shrink (lastByte : Nat) : Fill Unit := do
  let c ← get
  if lastByte ≠ c.size then resize alloc lastByte

/-- The bytes make room for a longer size, or close up to a shorter one. -/
def moveBytes (guessedSize actualSize : Int) (firstIndex : Nat) : Fill Unit :=
  if guessedSize ≤ 254 ∧ 254 < actualSize then do
    let c ← get
    resize alloc (c.size + 4)
    memmove (firstIndex + 4) firstIndex (actualSize.emod (2 ^ 64)).toNat
  else if 254 < guessedSize ∧ actualSize ≤ 254 then do
    memmove (firstIndex - 4) firstIndex (actualSize.emod (2 ^ 64)).toNat
    let c ← get
    resize alloc (c.size - 4)
  else pure ()

/-- The check against the guess -/
def correctSize (guessedSize actualSize : Int) (firstIndex : Nat) : Fill Unit :=
  if guessedSize ≠ actualSize then do
    moveBytes alloc guessedSize actualSize firstIndex
    rewriteSize actualSize (if guessedSize ≤ 254 then firstIndex - 1 else firstIndex - 1 - 4)
  else pure ()

/-- The part that `writeConverted` and `write(const wstring&)` share: a string of `vsize` characters
is written through a converter. -/
def writeThrough (vsize : Nat) (converter : ToUTF8) : Fill Unit :=
  tryCatch (do
    let guessedSize := toInt vsize
    writeSize alloc guessedSize
    let c ← get
    let firstIndex := c.size
    let lastByte ← toUTF8 alloc firstIndex converter
    shrink alloc lastByte
    let c ← get
    correctSize alloc guessedSize (toInt (c.size - firstIndex : Nat)) firstIndex)
  fun
    | .illegalConversion reason => throw (.stringConversion reason)
    | stopped => throw stopped

/-- `writeConverted`, with what the string converter does, if there is one -/
def writeConverted (vdata : List Byte) : Option ToUTF8 → Fill Unit
  | some converter => writeThrough alloc vdata.length converter
  | none => do
    writeSize alloc (toInt vdata.length)
    append alloc vdata

/-- `write(const wstring&)` -/
def writeWstring {α : Type} (v : List α) (converter : ToUTF8) : Fill Unit :=
  if v = [] then writeSize alloc 0 else writeThrough alloc v.length converter

end

variable {alloc : Allocator} {c c' : Container} {i n p : Nat} {v guess : Int} {xs : List Byte}
  {a m firstIndex lastByte : Nat} {converter : ToUTF8}

theorem get_eq (c : Container) : (get : Fill Container) c = .ok c c := rfl

theorem require_of {q : Prop} [Decidable q] (h : q) (stopped : Stopped) (c : Container) :
    require q stopped c = .ok () c := by
  unfold require
  rw [if_pos h]
  rfl

theorem resize_eq (n : Nat) (c : Container) :
    resize alloc n c = .ok () { mem := alloc.resized c.mem c.size n, size := n } := rfl

/-- The bytes that were in the buffer are, as far as they still fit in. -/
theorem slice_resized (hsize : a + m ≤ c.size) (hn : a + m ≤ n) :
    slice (alloc.resized c.mem c.size n) a m = slice c.mem a m :=
  slice_eq_self fun i _ hlt => alloc.keeps c.mem c.size n i (by omega) (by omega)

theorem store_eq (h : i + xs.length ≤ c.size) :
    store i xs c = .ok () { c with mem := poke c.mem i xs } := by
  unfold store
  rw [bind_of_ok (get_eq c), bind_of_ok (require_of h ..)]
  rfl

theorem memmove_eq {dst src : Nat} (hsrc : src + n ≤ c.size) (hdst : dst + n ≤ c.size) :
    memmove dst src n c = .ok () { c with mem := poke c.mem dst (slice c.mem src n) } := by
  unfold memmove
  rw [bind_of_ok (get_eq c), bind_of_ok (require_of hsrc ..)]
  exact store_eq (by rwa [length_slice])

/-- Bytes are added to the end. -/
structure Appended (c : Container) (xs : List Byte) (c' : Container) : Prop where
  size : c'.size = c.size + xs.length
  stored : slice c'.mem c.size xs.length = xs
  kept : ∀ i, i < c.size → c'.mem i = c.mem i

theorem append_appended (alloc : Allocator) (xs : List Byte) (c : Container) :
    ∃ c', append alloc xs c = .ok () c' ∧ Appended c xs c' := by
  refine ⟨{ mem := poke (alloc.resized c.mem c.size (c.size + xs.length)) c.size xs
            size := c.size + xs.length }, ?_, ?_⟩
  · unfold append
    rw [bind_of_ok (get_eq c), bind_of_ok (resize_eq ..)]
    exact store_eq (le_refl _)
  · constructor
    · rfl
    · exact slice_poke ..
    · intro i hi
      dsimp only
      rw [poke_of_lt hi]
      exact alloc.keeps _ _ _ _ hi (by omega)

theorem Appended.slice_eq (h : Appended c xs c') (hle : a + m ≤ c.size) :
    slice c'.mem a m = slice c.mem a m :=
  slice_eq_self fun i _ hlt => h.kept i (by omega)

theorem Appended.trans {ys : List Byte} {c'' : Container} (h : Appended c xs c')
    (h' : Appended c' ys c'') : Appended c (xs ++ ys) c'' := by
  constructor
  · rw [h'.size, h.size, List.length_append, Nat.add_assoc]
  · rw [List.length_append, slice_add, h'.slice_eq (by rw [h.size]), h.stored, ← h.size, h'.stored]
  · intro i hi
    rw [h'.kept i (by rw [h.size]; omega), h.kept i hi]

theorem sizeBytes_toNat (hlt : 254 < v) (h : 0 ≤ v) : sizeBytes v.toNat = 255 :: intBytes v := by
  unfold sizeBytes
  rw [if_pos (by omega), Int.toNat_of_nonneg h]

theorem sizeBytes_small (hle : v ≤ 254) : sizeBytes v.toNat = [UInt8.ofNat v.toNat] := by
  unfold sizeBytes
  rw [if_neg (by omega)]

theorem writeSize_appended (alloc : Allocator) (h : 0 ≤ v) (c : Container) :
    ∃ c', writeSize alloc v c = .ok () c' ∧ Appended c (sizeBytes v.toNat) c' := by
  unfold writeSize
  rw [bind_of_ok (require_of h ..)]
  by_cases hlt : 254 < v
  · rw [if_pos hlt, sizeBytes_toNat hlt h]
    obtain ⟨c₁, hfirst, happended₁⟩ := append_appended alloc [255] c
    obtain ⟨c₂, hsecond, happended₂⟩ := append_appended alloc (intBytes v) c₁
    refine ⟨c₂, ?_, happended₁.trans happended₂⟩
    rw [bind_of_ok hfirst]
    exact hsecond
  · rw [if_neg hlt, sizeBytes_small (by omega)]
    exact append_appended ..

theorem rewriteSize_eq (h : 0 ≤ v) (hsize : i + (sizeBytes v.toNat).length ≤ c.size) :
    rewriteSize v i c = .ok () { c with mem := poke c.mem i (sizeBytes v.toNat) } := by
  unfold rewriteSize
  rw [bind_of_ok (require_of h ..)]
  by_cases hlt : 254 < v
  · rw [if_pos hlt]
    rw [sizeBytes_toNat hlt h] at hsize ⊢
    rw [List.length_cons] at hsize
    rw [bind_of_ok (@store_eq c i [255] (by rw [List.length_singleton]; omega)),
      store_eq (by dsimp only; omega)]
    dsimp only
    rw [poke_cons]
  · rw [if_neg hlt]
    rw [sizeBytes_small (by omega)] at hsize ⊢
    exact store_eq hsize

theorem length_sizeBytes (n : Nat) : (sizeBytes n).length = if 254 < n then 5 else 1 := by
  unfold sizeBytes
  split
  · rw [List.length_cons, length_intBytes]
  · rfl

/-- A converter writes behind the first index only. -/
def Filled (firstIndex : Nat) (c c' : Container) : Prop :=
  firstIndex ≤ c'.size ∧ ∀ i, i < firstIndex → c'.mem i = c.mem i

variable {stopped : Stopped}

theorem require_ok {q : Prop} [Decidable q] (h : require q stopped c = .ok () c') :
    q ∧ c' = c := by
  unfold require at h
  split at h
  · rename_i hq
    cases h
    exact ⟨hq, rfl⟩
  · cases h

theorem filled_resize (hle : firstIndex ≤ n) (hsize : firstIndex ≤ c.size) :
    Filled firstIndex c { mem := alloc.resized c.mem c.size n, size := n } :=
  ⟨hle, fun j hj => alloc.keeps _ _ _ _ (by omega) (by omega)⟩

theorem Filled.trans {c'' : Container} (h : Filled firstIndex c c')
    (h' : Filled firstIndex c' c'') : Filled firstIndex c c'' :=
  ⟨h'.1, fun j hj => (h'.2 j hj).trans (h.2 j hj)⟩

variable {firstUnused : Option Nat}

/-- The space is at the end of what is used. -/
theorem getMoreBytes_eq (alloc : Allocator) {howMany : Nat} {c₁ : Container}
    (h : 0 < howMany) (hunused : returnUnused alloc firstUnused c = .ok () c₁) :
    getMoreBytes alloc howMany firstUnused c = .ok c₁.size
      { mem := alloc.resized c₁.mem c₁.size (c₁.size + howMany), size := c₁.size + howMany } := by
  unfold getMoreBytes
  rw [bind_of_ok (require_of h ..), bind_of_ok hunused, bind_of_ok (get_eq c₁),
    bind_of_ok (resize_eq ..), bind_of_ok (require_of (by omega) ..)]
  rfl

section

variable (hsize : firstIndex ≤ c.size)

include hsize

theorem filled_getMoreBytes {howMany k : Nat}
    (hunused : ∀ i ∈ firstUnused, firstIndex ≤ i ∧ i ≤ c.size)
    (h : getMoreBytes alloc howMany firstUnused c = .ok k c') : Filled firstIndex c c' := by
  have hpositive : 0 < howMany := by
    unfold getMoreBytes at h
    obtain ⟨_, c₁, hrequire, -⟩ := ok_of_bind h
    exact (require_ok hrequire).1
  cases firstUnused with
  | none =>
    have hnone : returnUnused alloc none c = .ok () c := rfl
    rw [getMoreBytes_eq alloc hpositive hnone] at h
    cases h
    exact filled_resize (by omega) hsize
  | some i =>
    obtain ⟨hle, -⟩ := hunused i rfl
    have hsome : returnUnused alloc (some i) c =
        .ok () { mem := alloc.resized c.mem c.size i, size := i } := rfl
    rw [getMoreBytes_eq alloc hpositive hsome] at h
    cases h
    exact (filled_resize hle hsize).trans (filled_resize (by dsimp only; omega) hle)

theorem filled_performStep {step : ConverterStep}
    (h : performStep alloc firstIndex step c = .ok () c') : Filled firstIndex c c' := by
  cases step with
  | getMoreBytes howMany firstUnused =>
    unfold performStep at h
    dsimp only at h
    rw [bind_of_ok (get_eq c)] at h
    obtain ⟨_, c₁, hrequire, hmore⟩ := ok_of_bind h
    obtain ⟨hunused, rfl⟩ := require_ok hrequire
    obtain ⟨k, c₂, hmore, hend⟩ := ok_of_bind hmore
    cases hend
    exact filled_getMoreBytes hsize hunused hmore
  | write i x =>
    unfold performStep at h
    dsimp only at h
    obtain ⟨_, c₁, hrequire, hstore⟩ := ok_of_bind h
    obtain ⟨hle, rfl⟩ := require_ok hrequire
    unfold store at hstore
    rw [bind_of_ok (get_eq _)] at hstore
    obtain ⟨_, c₂, hinside, hset⟩ := ok_of_bind hstore
    obtain ⟨-, rfl⟩ := require_ok hinside
    cases hset
    exact ⟨hsize, fun j hj => poke_of_lt (by omega)⟩

theorem filled_performSteps {steps : List ConverterStep}
    (h : performSteps alloc firstIndex steps c = .ok () c') : Filled firstIndex c c' := by
  induction steps generalizing c with
  | nil =>
    cases h
    exact ⟨hsize, fun _ _ => rfl⟩
  | cons step steps ih =>
    obtain ⟨_, c₁, hstep, hrest⟩ := ok_of_bind h
    have hfilled := filled_performStep hsize hstep
    exact hfilled.trans (ih hfilled.1 hrest)

/-- What the converter has done when it returns: nothing is written before the first index, and the
last byte is in the buffer. -/
theorem filled_toUTF8
    (h : toUTF8 alloc firstIndex converter c = .ok lastByte c') :
    Filled firstIndex c c' ∧ firstIndex ≤ lastByte ∧ lastByte ≤ c'.size := by
  unfold toUTF8 at h
  obtain ⟨_, c₁, hsteps, hend⟩ := ok_of_bind h
  have hfilled := filled_performSteps hsize hsteps
  cases hresult : converter.result with
  | error reason =>
    rw [hresult] at hend
    cases hend
  | ok last =>
    rw [hresult] at hend
    unfold conclude at hend
    dsimp only at hend
    rw [bind_of_ok (get_eq c₁)] at hend
    obtain ⟨_, c₂, hrequire, hreturn⟩ := ok_of_bind hend
    obtain ⟨hlast, rfl⟩ := require_ok hrequire
    cases hreturn
    exact ⟨hfilled, hlast⟩

end

/-- A size from `p` on, and behind it as many bytes as it says -/
structure Sized (c : Container) (p n : Nat) (xs : List Byte) : Prop where
  length : xs.length = n
  size : c.size = p + (sizeBytes n).length + n
  sized : slice c.mem p (sizeBytes n).length = sizeBytes n
  stored : slice c.mem (p + (sizeBytes n).length) n = xs

/-- The size is put before the bytes that are in their place. -/
theorem rewriteSize_sized (hsize : c.size = p + (sizeBytes n).length + n) :
    ∃ c', rewriteSize n p c = .ok () c' ∧
      Sized c' p n (slice c.mem (p + (sizeBytes n).length) n) ∧
      ∀ i, i < p → c'.mem i = c.mem i := by
  refine ⟨_, rewriteSize_eq (Int.natCast_nonneg n) ?_, ?_, ?_⟩
  · rw [Int.toNat_natCast]
    omega
  · rw [Int.toNat_natCast]
    constructor
    · exact length_slice ..
    · exact hsize
    · exact slice_poke ..
    · exact slice_poke_of_disjoint (Or.inr (le_refl _))
  · intro i hi
    exact poke_of_lt hi

/-- The bytes that the converter made are put behind where their size will be. -/
theorem moveBytes_eq (alloc : Allocator)
    (hsize : c.size = p + (sizeBytes guess.toNat).length + n) (hguess : 0 ≤ guess)
    (hn : n < 2 ^ 31) :
    ∃ c', moveBytes alloc guess n (p + (sizeBytes guess.toNat).length) c = .ok () c' ∧
      c'.size = p + (sizeBytes n).length + n ∧
      slice c'.mem (p + (sizeBytes n).length) n =
        slice c.mem (p + (sizeBytes guess.toNat).length) n ∧
      ∀ i, i < p → c'.mem i = c.mem i := by
  have hcount : ((n : Int).emod (2 ^ 64)).toNat = n := by
    have hmod : (n : Int).emod (2 ^ 64) = n := Int.emod_eq_of_lt (by omega) (by omega)
    rw [hmod, Int.toNat_natCast]
  unfold moveBytes
  rw [hcount]
  by_cases hup : guess ≤ 254 ∧ 254 < (n : Int)
  · -- four bytes further
    have hshort : (sizeBytes guess.toNat).length = 1 := by
      rw [length_sizeBytes, if_neg (by omega)]
    have hlong : (sizeBytes n).length = 5 := by
      rw [length_sizeBytes, if_pos (by omega)]
    rw [if_pos hup, hshort, hlong]
    rw [hshort] at hsize
    rw [bind_of_ok (get_eq c), bind_of_ok (resize_eq ..), memmove_eq (by dsimp only; omega)
      (by dsimp only; omega)]
    refine ⟨_, rfl, by dsimp only; omega, ?_, ?_⟩
    · dsimp only
      have hstored := slice_poke (alloc.resized c.mem c.size (c.size + 4)) (p + 1 + 4)
        (slice (alloc.resized c.mem c.size (c.size + 4)) (p + 1) n)
      rw [length_slice] at hstored
      rw [Nat.add_assoc] at hstored ⊢
      rw [hstored]
      exact slice_resized (by omega) (by omega)
    · intro i hi
      dsimp only
      rw [poke_of_lt (by omega)]
      exact alloc.keeps _ _ _ _ (by omega) (by omega)
  · rw [if_neg hup]
    by_cases hdown : 254 < guess ∧ (n : Int) ≤ 254
    · -- four bytes back
      have hlong : (sizeBytes guess.toNat).length = 5 := by
        rw [length_sizeBytes, if_pos (by omega)]
      have hshort : (sizeBytes n).length = 1 := by
        rw [length_sizeBytes, if_neg (by omega)]
      rw [if_pos hdown, hshort, hlong]
      rw [hlong] at hsize
      rw [bind_of_ok (memmove_eq (by omega) (by omega)), bind_of_ok (get_eq _), resize_eq]
      refine ⟨_, rfl, by dsimp only; omega, ?_, ?_⟩
      · dsimp only
        have hstored := slice_poke c.mem (p + 5 - 4) (slice c.mem (p + 5) n)
        rw [length_slice] at hstored
        have hp : p + 5 - 4 = p + 1 := by omega
        rw [hp] at hstored ⊢
        rw [slice_eq_self fun i _ hlt => alloc.keeps _ _ _ i (by omega) (by omega)]
        exact hstored
      · intro i hi
        dsimp only
        rw [alloc.keeps _ _ _ _ (by omega) (by omega)]
        exact poke_of_lt (by omega)
    · -- the size keeps its length
      have hsame : (sizeBytes n).length = (sizeBytes guess.toNat).length := by
        rw [length_sizeBytes, length_sizeBytes]
        split
        · rw [if_pos (by omega)]
        · rw [if_neg (by omega)]
      rw [if_neg hdown, hsame]
      exact ⟨c, rfl, hsize, rfl, fun _ _ => rfl⟩

/-- The bytes that the converter made get their size. -/
theorem correctSize_sized (alloc : Allocator) (hguess : 0 ≤ guess)
    (hsize : c.size = p + (sizeBytes guess.toNat).length + n)
    (hsized : slice c.mem p (sizeBytes guess.toNat).length = sizeBytes guess.toNat)
    (hn : n < 2 ^ 31) :
    ∃ c', correctSize alloc guess n (p + (sizeBytes guess.toNat).length) c = .ok () c' ∧
      Sized c' p n (slice c.mem (p + (sizeBytes guess.toNat).length) n) ∧
      ∀ i, i < p → c'.mem i = c.mem i := by
  unfold correctSize
  by_cases heq : guess = n
  · rw [if_neg (not_not.mpr heq)]
    rw [heq, Int.toNat_natCast] at hsize hsized ⊢
    exact ⟨c, rfl, ⟨length_slice .., hsize, hsized, rfl⟩, fun _ _ => rfl⟩
  · rw [if_pos heq]
    obtain ⟨c₁, hmove, hsize₁, hslice, hkept⟩ := moveBytes_eq alloc hsize hguess hn
    obtain ⟨c₂, hrewrite, hsized₂, hkept₂⟩ := rewriteSize_sized hsize₁
    refine ⟨c₂, ?_, ?_, fun i hi => (hkept₂ i hi).trans (hkept i hi)⟩
    · rw [bind_of_ok hmove]
      have hdest : (if guess ≤ 254 then p + (sizeBytes guess.toNat).length - 1
          else p + (sizeBytes guess.toNat).length - 1 - 4) = p := by
        rw [length_sizeBytes]
        split
        · rw [if_neg (by omega)]
          omega
        · rw [if_pos (by omega)]
          omega
      rw [hdest]
      exact hrewrite
    · rwa [← hslice]

theorem Sized.bytes (h : Sized c' p n xs) (hp : p = c.size)
    (hkept : ∀ i, i < p → c'.mem i = c.mem i) :
    c'.bytes = c.bytes ++ sizeBytes n ++ xs := by
  unfold Container.bytes
  rw [h.size, slice_add, slice_add, Nat.zero_add, Nat.zero_add, h.sized, h.stored, ← hp]
  congr 2
  exact slice_eq_self fun i _ hlt => hkept i (by omega)

theorem shrink_eq (alloc : Allocator) (h : lastByte ≤ c.size) :
    ∃ c', shrink alloc lastByte c = .ok () c' ∧ c'.size = lastByte ∧
      ∀ i, i < lastByte → c'.mem i = c.mem i := by
  unfold shrink
  rw [bind_of_ok (get_eq c)]
  by_cases heq : lastByte = c.size
  · rw [if_neg (not_not.mpr heq)]
    exact ⟨c, rfl, heq.symm, fun _ _ => rfl⟩
  · rw [if_pos heq, resize_eq]
    exact ⟨_, rfl, rfl, fun i hi => alloc.keeps _ _ _ _ (by omega) hi⟩

/-- The steps that store a chunk -/
def chunkWrites (pos : Nat) : List Byte → List ConverterStep
  | [] => []
  | x :: xs => .write pos x :: chunkWrites (pos + 1) xs

/-- A converter that asks for space again and again, fills it from the beginning and returns what it
does not use -/
def chunkSteps (pos : Nat) : List (Nat × List Byte) → List ConverterStep
  | [] => []
  | (howMany, chunk) :: chunks => .getMoreBytes howMany (some pos) :: chunkWrites pos chunk ++
    chunkSteps (pos + chunk.length) chunks

def chunkConverter (pos : Nat) (chunks : List (Nat × List Byte)) : ToUTF8 where
  steps := chunkSteps pos chunks
  result := .ok (pos + (chunks.flatMap (·.2)).length)

/-- Called after the guessed size is written, the converter leaves these bytes in the buffer. -/
def Produces (alloc : Allocator) (c : Container) (vsize : Nat) (converter : ToUTF8)
    (xs : List Byte) : Prop :=
  ∃ c₁ c₂ lastByte, writeSize alloc (toInt vsize) c = .ok () c₁ ∧
    toUTF8 alloc c₁.size converter c₁ = .ok lastByte c₂ ∧
    xs = slice c₂.mem c₁.size (lastByte - c₁.size)

theorem performSteps_append {steps : List ConverterStep}
    (h : performSteps alloc firstIndex steps c = .ok () c') (rest : List ConverterStep) :
    performSteps alloc firstIndex (steps ++ rest) c = performSteps alloc firstIndex rest c' := by
  induction steps generalizing c with
  | nil =>
    cases h
    rfl
  | cons step steps ih =>
    obtain ⟨_, c₁, hstep, hsteps⟩ := ok_of_bind h
    exact (bind_of_ok hstep _).trans (ih hsteps)

theorem performSteps_chunkWrites (hfirst : firstIndex ≤ p) (hspace : p + xs.length ≤ c.size) :
    performSteps alloc firstIndex (chunkWrites p xs) c =
      .ok () { c with mem := poke c.mem p xs } := by
  induction xs generalizing c p with
  | nil => rw [poke_nil]; rfl
  | cons x xs ih =>
    rw [List.length_cons] at hspace
    have hwrite : performStep alloc firstIndex (.write p x) c =
        .ok () { c with mem := poke c.mem p [x] } :=
      (bind_of_ok (require_of hfirst ..) _).trans (store_eq (by rw [List.length_singleton]; omega))
    rw [← poke_cons]
    exact (bind_of_ok hwrite _).trans (ih (by omega) (by dsimp only; omega))

/-- The chunks stand one behind the other, however the space was asked for. -/
theorem performSteps_chunkSteps (alloc : Allocator) {chunks : List (Nat × List Byte)}
    (hfit : ∀ chunk ∈ chunks, 0 < chunk.1 ∧ chunk.2.length ≤ chunk.1) (hfirst : firstIndex ≤ p)
    (hp : p ≤ c.size) :
    ∃ c', performSteps alloc firstIndex (chunkSteps p chunks) c = .ok () c' ∧ Filled p c c' ∧
      p + (chunks.flatMap (·.2)).length ≤ c'.size ∧
      slice c'.mem p (chunks.flatMap (·.2)).length = chunks.flatMap (·.2) := by
  induction chunks generalizing c p with
  | nil => exact ⟨c, rfl, ⟨hp, fun _ _ => rfl⟩, hp, rfl⟩
  | cons chunk chunks ih =>
    obtain ⟨howMany, xs⟩ := chunk
    obtain ⟨⟨hpositive, hle⟩, hfit⟩ := List.forall_mem_cons.mp hfit
    dsimp only at hpositive hle
    have hspace : ∃ c₁, performStep alloc firstIndex (.getMoreBytes howMany (some p)) c =
        .ok () c₁ ∧ c₁.size = p + howMany ∧ Filled p c c₁ := by
      have hunused : ∀ i ∈ some p, firstIndex ≤ i ∧ i ≤ c.size := by simp [hfirst, hp]
      refine ⟨_, (bind_of_ok (get_eq c) _).trans ((bind_of_ok (require_of hunused ..) _).trans
        (bind_of_ok (getMoreBytes_eq alloc hpositive rfl) _)), rfl, ?_⟩
      exact (filled_resize (le_refl _) hp).trans (filled_resize (Nat.le_add_right ..) (le_refl _))
    obtain ⟨c₁, hstep, hsize₁, hfilled₁⟩ := hspace
    have hwrites : performSteps alloc firstIndex (chunkWrites p xs) c₁ =
        .ok () { c₁ with mem := poke c₁.mem p xs } :=
      performSteps_chunkWrites hfirst (by omega)
    obtain ⟨c', hrest, hfilled, hend, hslice⟩ := ih (p := p + xs.length)
      (c := { c₁ with mem := poke c₁.mem p xs }) hfit (by omega) (by dsimp only; omega)
    refine ⟨c', (bind_of_ok hstep _).trans ((performSteps_append hwrites _).trans hrest),
      ?_, ?_, ?_⟩
    · refine hfilled₁.trans ⟨by omega, fun i hi => ?_⟩
      rw [hfilled.2 i (by omega)]
      exact poke_of_lt hi
    · rw [List.flatMap_cons, List.length_append]
      dsimp only
      omega
    · have hchunk : slice c'.mem p xs.length = xs :=
        (slice_eq_self fun i _ hlt => hfilled.2 i hlt).trans (slice_poke ..)
      rw [List.flatMap_cons, List.length_append, slice_add]
      dsimp only
      rw [hchunk, hslice]

/-- Such a converter makes its chunks. -/
theorem produces_chunks (alloc : Allocator) (c : Container) {vsize : Nat}
    (hguess : 0 ≤ toInt vsize) {chunks : List (Nat × List Byte)}
    (hfit : ∀ chunk ∈ chunks, 0 < chunk.1 ∧ chunk.2.length ≤ chunk.1) :
    Produces alloc c vsize (chunkConverter (c.size + (sizeBytes (toInt vsize).toNat).length) chunks)
      (chunks.flatMap (·.2)) := by
  obtain ⟨c₁, hsize, happended⟩ := writeSize_appended alloc hguess c
  rw [← happended.size]
  obtain ⟨c₂, hsteps, -, hend, hslice⟩ := performSteps_chunkSteps alloc hfit
    (le_refl c₁.size) (le_refl c₁.size)
  refine ⟨c₁, c₂, c₁.size + (chunks.flatMap (·.2)).length, hsize,
    (bind_of_ok hsteps _).trans ?_, ?_⟩
  · exact (bind_of_ok (get_eq c₂) _).trans
      (bind_of_ok (require_of ⟨Nat.le_add_right .., hend⟩ ..) _)
  · rw [Nat.add_sub_cancel_left, hslice]

theorem tryCatch_of_ok {β : Type} {x : Fill β} {handle : Stopped → Fill β} {b : β}
    (h : x c = .ok b c') : tryCatch x handle c = .ok b c' := by
  change EStateM.tryCatch x handle c = _
  unfold EStateM.tryCatch
  rw [h]

theorem tryCatch_of_error {β : Type} {x : Fill β} {handle : Stopped → Fill β}
    (h : x c = .error stopped c') : tryCatch x handle c = handle stopped c' := by
  change EStateM.tryCatch x handle c = _
  unfold EStateM.tryCatch
  rw [h]
  rfl

theorem nonneg_of_writeSize (h : writeSize alloc v c = .ok () c') : 0 ≤ v := by
  unfold writeSize at h
  obtain ⟨_, c₁, hrequire, -⟩ := ok_of_bind h
  exact (require_ok hrequire).1

theorem writeThrough_bytes {vsize : Nat} (h : Produces alloc c vsize converter xs)
    (hn : xs.length < 2 ^ 31) :
    ∃ c', writeThrough alloc vsize converter c = .ok () c' ∧
      c'.bytes = c.bytes ++ sizeBytes xs.length ++ xs := by
  obtain ⟨c₁, c₂, lastByte, hsize, hconvert, rfl⟩ := h
  rw [length_slice] at hn ⊢
  have hguess := nonneg_of_writeSize hsize
  obtain ⟨c₁', hsize', happended⟩ := writeSize_appended alloc hguess c
  rw [hsize] at hsize'
  cases hsize'
  obtain ⟨hfilled, hfirst, hlast⟩ := filled_toUTF8 (le_refl _) hconvert
  obtain ⟨c₃, hshrink, hsize₃, hkept₃⟩ := shrink_eq alloc hlast
  -- what is before the first index is what was written before the conversion
  have hbefore (i : Nat) (hi : i < c₁.size) : c₃.mem i = c₁.mem i :=
    (hkept₃ i (by omega)).trans (hfilled.2 i hi)
  have hstored : slice c₃.mem c₁.size (lastByte - c₁.size) =
      slice c₂.mem c₁.size (lastByte - c₁.size) :=
    slice_eq_self fun i _ hlt => hkept₃ i (by omega)
  rw [happended.size] at *
  obtain ⟨c₄, hcorrect, hsized, hkept₄⟩ := correctSize_sized alloc (c := c₃)
    (n := lastByte - (c.size + (sizeBytes (toInt vsize).toNat).length)) hguess
    (by rw [hsize₃]; omega)
    ((slice_eq_self fun i _ hlt => hbefore i hlt).trans happended.stored) hn
  refine ⟨c₄, ?_, ?_⟩
  · apply tryCatch_of_ok
    have hint : toInt ((lastByte - (c.size + (sizeBytes (toInt vsize).toNat).length) : Nat) : Int) =
        (lastByte - (c.size + (sizeBytes (toInt vsize).toNat).length) : Nat) :=
      toInt_of_lt (by omega) (by omega)
    rw [bind_of_ok hsize, bind_of_ok (get_eq c₁), happended.size, bind_of_ok hconvert,
      bind_of_ok hshrink, bind_of_ok (get_eq c₃), hsize₃, hint]
    exact hcorrect
  · rw [hstored] at hsized
    apply hsized.bytes rfl
    intro i hi
    rw [hkept₄ i hi, hbefore i (by omega), happended.kept i hi]

/-- Behind what is in the buffer stand the size of the converted bytes and the bytes, for a narrow
and for a wide string. -/
theorem converted_written {α : Type} (alloc : Allocator) (c : Container) (converter : ToUTF8)
    (xs : List Byte) (hn : xs.length < 2 ^ 31) :
    (∀ vdata : List Byte, vdata ≠ [] → Produces alloc c vdata.length converter xs →
      ∃ c', writeConverted alloc vdata (some converter) c = .ok () c' ∧
        c'.bytes = c.bytes ++ sizeBytes xs.length ++ xs) ∧
    ∀ v : List α, v ≠ [] → Produces alloc c v.length converter xs →
      ∃ c', writeWstring alloc v converter c = .ok () c' ∧
        c'.bytes = c.bytes ++ sizeBytes xs.length ++ xs := by
  constructor
  · exact fun vdata _ h => writeThrough_bytes h hn
  · intro v hv h
    unfold writeWstring
    rw [if_neg hv]
    exact writeThrough_bytes h hn

/-- Memory that stays as it is -/
def roomy : Allocator where
  resized mem _ _ := mem
  keeps _ _ _ _ _ _ := rfl

/-- A buffer that holds one byte -/
def oneByte : Container where
  mem _ := 7
  size := 1

/-- Asked for space twice, the converter makes 300 bytes of two characters. -/
def twoChunks : List (Nat × List Byte) :=
  [(200, List.replicate 200 195), (200, List.replicate 100 169)]

/-- The size that is guessed takes one byte, the size that is written five. -/
theorem converted_written_twoChunks :
    (∃ c', writeConverted roomy [1, 2] (some (chunkConverter 2 twoChunks)) oneByte = .ok () c' ∧
      c'.bytes = [7, 255, 44, 1, 0, 0] ++ List.replicate 200 195 ++ List.replicate 100 169) ∧
    ∃ c', writeWstring roomy ['a', 'b'] (chunkConverter 2 twoChunks) oneByte = .ok () c' ∧
      c'.bytes = [7, 255, 44, 1, 0, 0] ++ List.replicate 200 195 ++ List.replicate 100 169 := by
  have hguess : toInt ((2 : Nat) : Int) = 2 := toInt_of_lt (by decide) (by decide)
  have hfit : ∀ chunk ∈ twoChunks, 0 < chunk.1 ∧ chunk.2.length ≤ chunk.1 := by
    intro chunk hchunk
    obtain rfl | rfl : chunk = _ ∨ chunk = _ := by
      simpa only [twoChunks, List.mem_pair] using hchunk
    · exact ⟨by decide, le_of_eq (List.length_replicate ..)⟩
    · exact ⟨by decide, (List.length_replicate ..).trans_le (by decide)⟩
  have hbytes : twoChunks.flatMap (·.2) = List.replicate 200 195 ++ List.replicate 100 169 := by
    simp only [twoChunks, List.flatMap_cons, List.flatMap_nil, List.append_nil]
  have hlength : (twoChunks.flatMap (·.2)).length = 300 := by
    rw [hbytes, List.length_append, List.length_replicate, List.length_replicate]
  have hproduces := produces_chunks roomy oneByte (hguess ▸ Int.zero_le_ofNat 2) hfit
  have hwritten := converted_written (α := Char) roomy oneByte (chunkConverter 2 twoChunks)
    (twoChunks.flatMap (·.2)) (hlength ▸ by decide)
  rw [hguess] at hproduces
  rw [hlength] at hwritten
  obtain ⟨c₁, hwrite₁, hbytes₁⟩ := hwritten.1 [1, 2] (List.cons_ne_nil _ _) hproduces
  obtain ⟨c₂, hwrite₂, hbytes₂⟩ := hwritten.2 ['a', 'b'] (List.cons_ne_nil _ _) hproduces
  have hsize : oneByte.bytes ++ sizeBytes 300 = [7, 255, 44, 1, 0, 0] := by decide
  rw [hbytes, hsize, ← List.append_assoc] at hbytes₁ hbytes₂
  exact ⟨⟨c₁, hwrite₁, hbytes₁⟩, c₂, hwrite₂, hbytes₂⟩

theorem writeConverted_of_overflow {vdata : List Byte} (h : ¬0 ≤ toInt vdata.length) :
    writeConverted alloc vdata (some converter) c = .error (.assertion "v >= 0") c := by
  have hsize : writeSize alloc (toInt vdata.length) c = .error (.assertion "v >= 0") c := by
    unfold writeSize require
    rw [if_neg h]
    rfl
  unfold writeConverted writeThrough
  dsimp only
  rw [tryCatch_of_error (bind_of_error hsize _)]
  rfl

theorem toInt_overflow : ¬0 ≤ toInt ((2 ^ 31 : Nat) : Int) := by
  unfold toInt
  rw [Int.bmod_def]
  split
  · omega
  · omega

theorem exists_string (n : Nat) : ∃ vdata : List Byte, vdata.length = n :=
  ⟨List.replicate n 65, List.length_replicate⟩

/-- The size of a string of `2 ^ 31` bytes is no `int`, whatever the converter makes of it. -/
theorem not_written_huge : ∃ vdata : List Byte, vdata ≠ [] ∧ ∀ converter,
    writeConverted roomy vdata (some converter) oneByte =
      .error (.assertion "v >= 0") oneByte := by
  obtain ⟨vdata, hlength⟩ := exists_string (2 ^ 31)
  have hoverflow := toInt_overflow
  rw [← hlength] at hoverflow
  exact ⟨vdata, List.ne_nil_of_length_pos (by omega),
    fun converter => writeConverted_of_overflow hoverflow⟩

end Ice.Streams.Conversion
