import Ice.Streams.OutputStream

/-!
# Compressed messages

The body of a message is compressed with bzip2 and sent behind the header and the size of the whole
message. A peer announces a size of its own choice; the library writes what it finds into a buffer
of this size. A cell of the buffer is empty until it is written.
-/

namespace Ice.Connection.Compression

open Streams
open List (append_assoc drop_left' length_append length_drop length_take replicate take_left')

def headerSize : Nat := 14

/-- The size of a buffer that any content fits in once it is compressed -/
def compressedCapacity (n : Nat) : Nat := n * 101 / 100 + 600

/-- `BZ2_bzBuffToBuffCompress` and `BZ2_bzBuffToBuffDecompress`, as they are documented: they get
the size of a buffer, and return what they wrote into it. -/
structure BZip2 where
  compress : List Byte → Nat → Option (List Byte)
  decompress : List Byte → Nat → Option (List Byte)
  compress_fits : ∀ src, ∃ out, compress src (compressedCapacity src.length) = some out
  decompress_le : ∀ {src n out}, decompress src n = some out → out.length ≤ n
  decompress_compress : ∀ {src n out}, compress src n = some out →
    ∀ n', src.length ≤ n' → decompress out n' = some src

/-- The exceptions of sending and receiving compressed messages -/
inductive Failure
  | compression
  | unmarshalOutOfBounds
  | illegalMessageSize
  | memoryLimit
  deriving DecidableEq, Repr

/-- What the constructor of `Instance` makes of the property `Ice.MessageSizeMax` -/
def messageSizeMax (num : Int) : Nat :=
  if num < 1 ∨ 0x7fffffff / 1024 < num then 0x7fffffff else num.toNat * 1024

/-- `doCompress`: the message with its new size, and the compressed message -/
def doCompress (bz : BZip2) (uncompressed : List Byte) : Except Failure (List Byte × List Byte) :=
  let uncompressedLen := (uncompressed.length - headerSize) % 2 ^ 32
  match bz.compress ((uncompressed.drop headerSize).take uncompressedLen)
      (compressedCapacity uncompressedLen) with
  | none => .error .compression
  | some out =>
    let compressedSize := headerSize + 4 + out.length
    let uncompressed :=
      uncompressed.take 10 ++ intBytes compressedSize ++ uncompressed.drop headerSize
    .ok (uncompressed, uncompressed.take headerSize ++ intBytes uncompressed.length ++ out)

/-- Writes bytes into the cells from a position on. -/
def write (cells : List (Option Byte)) (pos : Nat) (bytes : List Byte) : List (Option Byte) :=
  cells.take pos ++ bytes.map some ++ cells.drop (pos + bytes.length)

/-- The size that is announced behind a header -/
def announcedSize (compressed : List Byte) : Int :=
  toInt (leNat ((compressed.drop headerSize).take 4))

/-- `doUncompress` of a message that has a header -/
def doUncompress (bz : BZip2) (num : Int) (compressed : List Byte) :
    Except Failure (List (Option Byte)) :=
  if compressed.length < headerSize + 4 then .error .unmarshalOutOfBounds
  else
    let uncompressedSize := announcedSize compressed
    if uncompressedSize ≤ headerSize then .error .illegalMessageSize
    else if (messageSizeMax num : Int) < uncompressedSize then .error .memoryLimit
    else
      let cells := replicate uncompressedSize.toNat none
      match bz.decompress (compressed.drop (headerSize + 4))
          (uncompressedSize.toNat - headerSize) with
      | none => .error .compression
      | some out => .ok (write (write cells headerSize out) 0 (compressed.take headerSize))

/-- A message is received as it was sent, under the header that was received. -/
def RoundTrip (bz : BZip2) (num : Int) (m : List Byte) : Prop :=
  ∃ sent compressed, doCompress bz m = .ok (sent, compressed) ∧
    doUncompress bz num compressed =
      .ok ((compressed.take headerSize ++ m.drop headerSize).map some)

/-- What is received is the header, and what the library produced. -/
def Produced (bz : BZip2) (num : Int) (received : List Byte) : Prop :=
  ∀ cells, doUncompress bz num received = .ok cells → ∃ out,
    bz.decompress (received.drop (headerSize + 4)) ((announcedSize received).toNat - headerSize) =
      some out ∧ cells = (received.take headerSize ++ out).map some

/-- A message that is accepted has as much content as it announces. -/
def Announced (bz : BZip2) (num : Int) (received : List Byte) : Prop :=
  headerSize + 4 ≤ received.length → headerSize < announcedSize received →
    announcedSize received ≤ messageSizeMax num → ∀ out,
      bz.decompress (received.drop (headerSize + 4))
        ((announcedSize received).toNat - headerSize) = some out →
      headerSize + out.length = (announcedSize received).toNat

section

variable {bz : BZip2} {num : Int} {m received out : List Byte} {n : Nat}

theorem messageSizeMax_le (num : Int) : messageSizeMax num ≤ 0x7fffffff := by
  unfold messageSizeMax
  split
  · exact Nat.le_refl _
  · omega

variable {header : List Byte}

/-- The buffer, when the header and the content have been written -/
theorem write_write (hheader : header.length = headerSize)
    (hout : headerSize + out.length ≤ n) :
    write (write (replicate n none) headerSize out) 0 header =
      (header ++ out).map some ++ replicate (n - (headerSize + out.length)) none := by
  have htake : (replicate n (none : Option Byte)).take headerSize =
      replicate headerSize none := by
    rw [List.take_replicate, Nat.min_eq_left (by omega)]
  unfold write
  rw [htake, List.take_zero, List.nil_append, Nat.zero_add, hheader, append_assoc,
    drop_left' List.length_replicate, List.drop_replicate, List.map_append,
    append_assoc]

theorem doUncompress_ok (hlength : headerSize ≤ received.length) {cells : List (Option Byte)} :
    doUncompress bz num received = .ok cells ↔
      headerSize + 4 ≤ received.length ∧ (headerSize : Int) < announcedSize received ∧
        announcedSize received ≤ messageSizeMax num ∧ ∃ out,
          bz.decompress (received.drop (headerSize + 4))
            ((announcedSize received).toNat - headerSize) = some out ∧
          cells = (received.take headerSize ++ out).map some ++
            replicate ((announcedSize received).toNat - (headerSize + out.length)) none := by
  have hheader : (received.take headerSize).length = headerSize := by
    rw [length_take, Nat.min_eq_left hlength]
  unfold doUncompress
  dsimp only
  split_ifs with hshort hsmall hlarge
  · constructor
    · intro h
      cases h
    · rintro ⟨hle, _⟩
      exact absurd hle (Nat.not_le.mpr hshort)
  · constructor
    · intro h
      cases h
    · rintro ⟨_, hlt, _⟩
      exact absurd hlt (Int.not_lt.mpr hsmall)
  · constructor
    · intro h
      cases h
    · rintro ⟨_, _, hle, _⟩
      exact absurd hle (Int.not_le.mpr hlarge)
  · cases hout : bz.decompress (received.drop (headerSize + 4))
      ((announcedSize received).toNat - headerSize) with
    | none => simp
    | some out =>
      have hle := bz.decompress_le hout
      have hfits : headerSize + out.length ≤ (announcedSize received).toNat := by omega
      dsimp only
      rw [write_write hheader hfits]
      simp only [Except.ok.injEq, Option.some.injEq, exists_eq_left']
      constructor
      · intro h
        exact ⟨Nat.le_of_not_lt hshort, Int.not_le.mp hsmall, Int.not_lt.mp hlarge, h.symm⟩
      · rintro ⟨_, _, _, h⟩
        exact h.symm

/-- Nothing is left unwritten exactly if there is as much content as is announced. -/
theorem produced_iff (hlength : headerSize ≤ received.length) :
    Produced bz num received ↔ Announced bz num received := by
  constructor
  · intro hproduced hle hlt hmax out hout
    have hok := (doUncompress_ok hlength).mpr ⟨hle, hlt, hmax, out, hout, rfl⟩
    obtain ⟨out', hout', hcells⟩ := hproduced _ hok
    obtain rfl : out = out' := Option.some.inj (hout.symm.trans hout')
    have hnil := List.append_right_eq_self.mp hcells
    have hzero := congrArg List.length hnil
    rw [List.length_replicate, List.length_nil] at hzero
    have hle' := bz.decompress_le hout
    omega
  · intro hannounced cells hok
    obtain ⟨hle, hlt, hmax, out, hout, rfl⟩ := (doUncompress_ok hlength).mp hok
    refine ⟨out, hout, ?_⟩
    rw [← hannounced hle hlt hmax out hout, Nat.sub_self, List.replicate_zero, List.append_nil]

theorem doCompress_ok (hm : headerSize < m.length) : ∃ out,
    bz.compress ((m.drop headerSize).take ((m.length - headerSize) % 2 ^ 32))
        (compressedCapacity ((m.length - headerSize) % 2 ^ 32)) = some out ∧
      ∃ header : List Byte, header.length = headerSize ∧
        doCompress bz m =
          .ok (header ++ m.drop headerSize, header ++ intBytes m.length ++ out) := by
  have hlength : ((m.drop headerSize).take ((m.length - headerSize) % 2 ^ 32)).length =
      (m.length - headerSize) % 2 ^ 32 := by
    rw [length_take, length_drop, Nat.min_eq_left (Nat.mod_le _ _)]
  obtain ⟨out, hout⟩ := bz.compress_fits
    ((m.drop headerSize).take ((m.length - headerSize) % 2 ^ 32))
  rw [hlength] at hout
  have hheader :
      (m.take 10 ++ intBytes (headerSize + 4 + out.length : Nat)).length = headerSize := by
    rw [length_append, length_intBytes, length_take]
    unfold headerSize at hm ⊢
    omega
  refine ⟨out, hout, _, hheader, ?_⟩
  have hall : ((m.take 10 ++ intBytes (headerSize + 4 + out.length : Nat)) ++
      m.drop headerSize).length = m.length := by
    rw [length_append, hheader, length_drop]
    omega
  unfold doCompress
  dsimp only
  rw [hout]
  dsimp only
  rw [hall, take_left' hheader]

theorem announcedSize_append (hheader : header.length = headerSize)
    (v : Int) : announcedSize (header ++ intBytes v ++ out) = toInt v := by
  unfold announcedSize
  rw [append_assoc, drop_left' hheader, take_left' (length_intBytes v),
    toInt_leNat_intBytes]

theorem le_of_count {h i j k : Nat} (hlt : h < k) (hle : i ≤ j - h)
    (hcount : h + i + (j - (h + i)) = h + (k - h)) : k ≤ j := by
  omega

/-- A message is received as it was sent exactly if it is no longer than is allowed. -/
theorem roundTrip_iff (hm : headerSize < m.length) :
    RoundTrip bz num m ↔ m.length ≤ messageSizeMax num := by
  obtain ⟨out, hout, header, hheader, hcompress⟩ := @doCompress_ok bz m hm
  have hlength : headerSize ≤ (header ++ intBytes m.length ++ out).length := by
    rw [length_append, length_append, hheader]
    omega
  have htake : (header ++ intBytes m.length ++ out).take headerSize = header := by
    rw [append_assoc, take_left' hheader]
  have hdrop : (header ++ intBytes m.length ++ out).drop (headerSize + 4) = out := by
    apply drop_left'
    rw [length_append, hheader, length_intBytes]
  have hannounced := @announcedSize_append out header hheader m.length
  have hmax := messageSizeMax_le num
  constructor
  · rintro ⟨sent, compressed, hsent, hreceived⟩
    rw [hcompress] at hsent
    obtain ⟨_, rfl⟩ := Prod.mk.inj (Except.ok.inj hsent)
    obtain ⟨_, _, hle, out', hout', hcells⟩ := (doUncompress_ok hlength).mp hreceived
    rw [htake, hannounced] at hcells
    rw [hannounced] at hle hout'
    have hle' := bz.decompress_le hout'
    have hcount := congrArg List.length hcells
    simp only [List.length_map, length_append, List.length_replicate, hheader,
      length_drop] at hcount
    exact Nat.le_trans (le_of_count hm hle' hcount.symm) (Int.toNat_le.mpr hle)
  · intro hle
    have hsize : toInt m.length = m.length := toInt_of_lt (by omega) (by omega)
    have hmod : (m.length - headerSize) % 2 ^ 32 = m.length - headerSize :=
      Nat.mod_eq_of_lt (by omega)
    have hbody : (m.drop headerSize).take (m.length - headerSize) = m.drop headerSize := by
      rw [← length_drop, List.take_length]
    rw [hmod, hbody] at hout
    refine ⟨_, _, hcompress, ?_⟩
    rw [doUncompress_ok hlength, htake, hdrop, hannounced, hsize]
    refine ⟨?_, by omega, by omega, m.drop headerSize, ?_, ?_⟩
    · rw [length_append, length_append, hheader, length_intBytes]
      omega
    · apply bz.decompress_compress hout
      rw [length_drop]
      omega
    · rw [length_drop, Int.toNat_natCast, Nat.add_sub_cancel' (Nat.le_of_lt hm), Nat.sub_self,
        List.replicate_zero, List.append_nil]

/-- Messages are received as they were sent up to the size that is allowed, and what is received is
the header and what the library produced exactly if there is as much of it as the peer announced. -/
theorem compression_iff (bz : BZip2) (num : Int) {m received : List Byte}
    (hm : headerSize < m.length) (hreceived : headerSize ≤ received.length) :
    (RoundTrip bz num m ↔ m.length ≤ messageSizeMax num) ∧
      (Produced bz num received ↔ Announced bz num received) :=
  ⟨roundTrip_iff hm, produced_iff hreceived⟩

end

/-- What bzip2 makes of the letter `a` -/
def letter : List Byte :=
  [66, 90, 104, 49, 49, 65, 89, 38, 83, 89, 25, 147, 155, 107, 0, 0, 0, 1, 0, 32, 0, 32, 0, 33, 24,
    70, 130, 238, 72, 167, 10, 18, 3, 50, 115, 109, 96]

/-- What a library does with the letter `a` is what bzip2 does; it puts a zero before anything
else. -/
def compressLetter (src : List Byte) (n : Nat) : Option (List Byte) :=
  if src = [97] then some letter else if src.length < n then some (0 :: src) else none

def decompressLetter (src : List Byte) (n : Nat) : Option (List Byte) :=
  if src = letter then if 1 ≤ n then some [97] else none
  else
    match src with
    | 0 :: src => if src.length ≤ n then some src else none
    | _ => none

theorem compressLetter_fits (src : List Byte) :
    ∃ out, compressLetter src (compressedCapacity src.length) = some out := by
  unfold compressLetter
  split
  · exact ⟨_, rfl⟩
  · rw [if_pos (by unfold compressedCapacity; omega)]
    exact ⟨_, rfl⟩

theorem length_decompressLetter {src out : List Byte} {n : Nat}
    (h : decompressLetter src n = some out) : out.length ≤ n := by
  unfold decompressLetter at h
  split at h
  · split at h
    · cases h
      assumption
    · cases h
  · split at h
    · split at h
      · cases h
        assumption
      · cases h
    · cases h

theorem decompressLetter_compressLetter {src out : List Byte} {n : Nat}
    (h : compressLetter src n = some out) (n' : Nat) (hle : src.length ≤ n') :
    decompressLetter out n' = some src := by
  unfold compressLetter at h
  unfold decompressLetter
  split at h
  next hsrc =>
    cases h
    rw [hsrc] at hle
    rw [if_pos rfl, hsrc]
    exact if_pos hle
  next hsrc =>
    split at h
    · cases h
      rw [if_neg (by simp [letter])]
      exact if_pos hle
    · cases h

def letterBZip2 : BZip2 :=
  ⟨compressLetter, decompressLetter, compressLetter_fits, length_decompressLetter,
    decompressLetter_compressLetter⟩

/-- A message with the letter `a` that announces 20 bytes: 5 of them are never written. -/
def overstated : List Byte :=
  [73, 99, 101, 80, 1, 0, 1, 0, 3, 2, 55, 0, 0, 0] ++ intBytes 20 ++ letter

theorem announcedSize_overstated : announcedSize overstated = 20 :=
  (announcedSize_append rfl 20).trans (toInt_of_lt (by decide) (by decide))

theorem overstated_unwritten :
    doUncompress letterBZip2 1024 overstated =
      .ok ([73, 99, 101, 80, 1, 0, 1, 0, 3, 2, 55, 0, 0, 0, 97].map some ++
        replicate 5 none) ∧
      ¬ Produced letterBZip2 1024 overstated := by
  have hout : letterBZip2.decompress (overstated.drop (headerSize + 4))
      ((announcedSize overstated).toNat - headerSize) = some [97] := by
    rw [announcedSize_overstated]
    rfl
  have hmax : announcedSize overstated ≤ messageSizeMax 1024 := by
    rw [announcedSize_overstated]
    decide
  have hlt : (headerSize : Int) < announcedSize overstated := by
    rw [announcedSize_overstated]
    decide
  constructor
  · rw [doUncompress_ok (by decide)]
    refine ⟨by decide, hlt, hmax, [97], hout, ?_⟩
    rw [announcedSize_overstated]
    rfl
  · rw [produced_iff (by decide)]
    intro h
    have hlength := h (by decide) hlt hmax [97] hout
    rw [announcedSize_overstated] at hlength
    exact absurd hlength (by decide)

/-- The same message with its size -/
def announced : List Byte :=
  [73, 99, 101, 80, 1, 0, 1, 0, 3, 2, 55, 0, 0, 0] ++ intBytes 15 ++ letter

theorem announcedSize_announced : announcedSize announced = 15 :=
  (announcedSize_append rfl 15).trans (toInt_of_lt (by decide) (by decide))

/-- The letter `a` is sent, and received. -/
theorem compression_letter :
    RoundTrip letterBZip2 1024 (replicate 14 0 ++ [97]) ∧ Produced letterBZip2 1024 announced := by
  have hm : headerSize < (replicate 14 (0 : Byte) ++ [97]).length := by decide
  have hreceived : headerSize ≤ announced.length := by decide
  have hiff := compression_iff letterBZip2 1024 hm hreceived
  refine ⟨hiff.1.mpr (by decide), hiff.2.mpr ?_⟩
  intro _ _ _ out hout
  rw [announcedSize_announced] at hout ⊢
  cases hout
  rfl

end Ice.Connection.Compression
