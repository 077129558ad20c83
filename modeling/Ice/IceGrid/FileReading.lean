import Ice.IceGrid.FileCache

/-!
# Reading a file in parts loses nothing

The lines of one call, joined with newlines, are the bytes between the two offsets, wherever the
call stops.
-/

namespace Ice.IceGrid.FileCache

open Ice.Lib
open List (append_assoc append_nil cons_ne_nil drop_drop length_append length_cons length_drop)

/-- Lines, joined with newlines -/
def joined : List (List UInt8) → List UInt8
  | [] => []
  | [line] => line
  | line :: lines => line ++ newline :: joined lines

/-- `read` is repeated from the offset of the previous call, with how many calls are made at most,
and what the calls return is put together. -/
def readAll (messageSizeMax : Int) (file : Option (List UInt8)) (size : Int) :
    Nat → Nat → Option (Except FileNotAvailable (List UInt8))
  | 0, _ => none
  | n + 1, offset =>
    match read messageSizeMax file offset size with
    | .error e => some (.error e)
    | .ok r =>
      if r.endOfFile then some (.ok (joined r.lines))
      else
        match readAll messageSizeMax file size n r.newOffset with
        | some (.ok rest) => some (.ok (joined r.lines ++ rest))
        | other => other

variable {size totalSize : Int} {is : Ifstream} {offset : Nat} {lines : List (List UInt8)}
  {line content : List UInt8}

theorem joined_cons (line : List UInt8) (h : lines ≠ []) :
    joined (line :: lines) = line ++ newline :: joined lines := by
  cases lines with
  | nil => exact absurd rfl h
  | cons line' lines => rfl

/-- What a call adds to the lines that it has read -/
structure Reads (content : List UInt8) (offset : Nat) (lines : List (List UInt8))
    (r : ReadResult) : Prop where
  more : ∃ more, more ≠ [] ∧ r.lines = lines ++ more ∧
    content.drop offset = joined more ++ content.drop r.newOffset ∧
    r.newOffset = offset + (joined more).length
  endOfFile : r.endOfFile = true → content.drop r.newOffset = []

/-- A line that does not fit ends the call. -/
theorem reads_readPart (size totalSize : Int) (lines : List (List UInt8)) {rest : List UInt8}
    (h : content.drop offset = line ++ rest) :
    Reads content offset lines (readPart size totalSize offset lines line) := by
  unfold readPart
  split
  · dsimp only
    generalize toSize (toInt (toInt (size - totalSize) - 5)) = room
    constructor
    · refine ⟨[line.take room], cons_ne_nil _ _, rfl, ?_, rfl⟩
      have hsplit : line ++ rest = line.take room ++ (line.drop room ++ rest) := by
        rw [← append_assoc, List.take_append_drop]
      rw [joined, ← drop_drop, h, hsplit, List.drop_left]
    · exact fun heq => nomatch heq
  · constructor
    · exact ⟨[[]], cons_ne_nil _ _, rfl, rfl, rfl⟩
    · exact fun heq => nomatch heq

variable {r : ReadResult}

/-- The loop goes on behind a line. -/
theorem Reads.cons {y : List UInt8}
    (h : Reads content (offset + line.length + 1) (lines ++ [line]) r)
    (hline : content.drop offset = line ++ newline :: y) : Reads content offset lines r := by
  obtain ⟨more, hne, hlines, hdrop, hoffset⟩ := h.more
  have hrest : content.drop (offset + line.length + 1) = y := by
    rw [Nat.add_assoc, ← drop_drop, hline, ← drop_drop, List.drop_left]
    rfl
  constructor
  · refine ⟨line :: more, cons_ne_nil _ _, ?_, ?_, ?_⟩
    · rw [hlines, append_assoc, List.singleton_append]
    · rw [joined_cons line hne, hline, append_assoc, List.cons_append, ← hdrop, hrest]
    · rw [hoffset, joined_cons line hne, length_append, length_cons]
      omega
  · exact h.endOfFile

theorem readLoop_not_good (h : is.good = false) :
    readLoop size is totalSize offset lines =
      { endOfFile := is.eof, newOffset := offset, lines } := by
  rw [readLoop, dif_neg (by rw [h]; exact Bool.false_ne_true)]

/-- Behind a line with its newline, `tellg` tells the offset. -/
theorem offsetBehind_line (hgood : is.good = true) (n : Nat) :
    offsetBehind { is with pos := is.pos + line.length + 1 } n line = is.pos + line.length + 1 := by
  have hfail : ¬is.fail = true := by
    intro hfail
    unfold Ifstream.good at hgood
    rw [hfail, Bool.not_true, Bool.and_false] at hgood
    cases hgood
  have hgood' : ({ is with pos := is.pos + line.length + 1 } : Ifstream).good = true := hgood
  unfold offsetBehind
  rw [if_pos hgood']
  unfold Ifstream.tellg
  rw [if_neg hfail]
  exact Int.toNat_natCast _

/-- What the loop reads is what stands in the file. -/
theorem reads_readLoop (hgood : is.good = true) (hpos : is.pos ≤ is.content.length) :
    Reads is.content is.pos lines (readLoop size is totalSize is.pos lines) := by
  induction hn : is.content.length - is.pos using Nat.strongRecOn
    generalizing is totalSize lines with
  | ind n ih =>
    rw [readLoop, dif_pos hgood]
    rcases file_cases (is.content.drop is.pos) with hnil | ⟨hne, hmem⟩ | ⟨line, y, hline, heq⟩
    · rw [Ifstream.getline_nil hnil]
      dsimp only
      split
      · apply reads_readPart
        rw [hnil]
        rfl
      · rw [readLoop_not_good rfl]
        constructor
        · exact ⟨[[]], cons_ne_nil _ _, rfl, rfl, rfl⟩
        · exact fun _ => hnil
    · rw [Ifstream.getline_last hne hmem]
      dsimp only
      split
      · apply reads_readPart
        exact (append_nil _).symm
      · rw [readLoop_not_good rfl]
        have hend : is.content.drop (is.pos + (is.content.drop is.pos).length) = [] := by
          rw [List.drop_eq_nil_iff, length_drop]
          omega
        constructor
        · refine ⟨[is.content.drop is.pos], cons_ne_nil _ _, rfl, ?_, rfl⟩
          change _ = _ ++ is.content.drop (is.pos + (is.content.drop is.pos).length)
          rw [hend, append_nil]
          rfl
        · exact fun _ => hend
    · rw [Ifstream.getline_line hline heq]
      dsimp only
      split
      · exact reads_readPart _ _ _ heq
      · have hlength := congrArg List.length heq
        rw [length_drop, length_append, length_cons] at hlength
        rw [offsetBehind_line hgood]
        apply Reads.cons _ heq
        exact @ih (n - line.length - 1) (by omega) _ { is with pos := is.pos + line.length + 1 } _
          hgood (by dsimp only; omega) (by dsimp only; omega)

theorem toInt_of_lt {x : Int} (h₀ : -2 ^ 31 ≤ x) (h : x < 2 ^ 31) : toInt x = x := by
  unfold toInt
  apply Int.bmod_eq_of_le
  · omega
  · omega

theorem lineSize_nil : lineSize [] = 5 := by
  unfold lineSize
  rw [List.length_nil, @toInt_of_lt ((0 : Nat) : Int) (by omega) (by omega)]
  exact toInt_of_lt (by omega) (by omega)

/-- There is room for a part of the first line. -/
theorem readPart_first (hsize : 6 ≤ size) (hint : size < 2 ^ 31) :
    readPart size 0 offset lines line =
      { endOfFile := false
        newOffset := offset + (line.take (size - 5).toNat).length
        lines := lines ++ [line.take (size - 5).toNat] } := by
  have hroom : toSize (toInt (toInt (size - 0) - 5)) = (size - 5).toNat := by
    rw [Int.sub_zero, toInt_of_lt (by omega) hint, toInt_of_lt (by omega) (by omega)]
    unfold toSize
    have hmod : (size - 5).emod (2 ^ 64) = size - 5 := Int.emod_eq_of_lt (by omega) (by omega)
    rw [hmod]
  have hfits : toInt (0 + 5) < size := by
    rw [toInt_of_lt (by omega) (by omega)]
    omega
  unfold readPart
  rw [if_pos hfits, hroom]

theorem not_exceeds_nil (h : 5 ≤ size) : exceeds size 0 [] = false := by
  unfold exceeds
  rw [lineSize_nil, Int.add_zero, toInt_of_lt (by omega) (by omega)]
  exact decide_eq_false (by omega)

/-- The first line of a call brings the offset forward. -/
theorem readLoop_lt (hgood : is.good = true)
    (hpos : is.pos < is.content.length) (hsize : 6 ≤ size) (hint : size < 2 ^ 31)
    (h : readLoop size is 0 is.pos [] = r) (hmore : r.endOfFile = false) :
    is.pos < r.newOffset := by
  rw [readLoop, dif_pos hgood] at h
  dsimp only at h
  split at h
  · rename_i hexceeds
    have hline : is.getline.1 ≠ [] := by
      intro hnil
      rw [hnil, not_exceeds_nil (by omega)] at hexceeds
      cases hexceeds
    have hlength := List.length_pos_iff.mpr hline
    rw [readPart_first hsize hint] at h
    rw [← h]
    dsimp only
    rw [List.length_take]
    omega
  · rcases file_cases (is.content.drop is.pos) with hnil | ⟨hne, hmem⟩ | ⟨line, y, hline, heq⟩
    · have hlength := congrArg List.length hnil
      rw [length_drop, List.length_nil] at hlength
      omega
    · rw [Ifstream.getline_last hne hmem, readLoop_not_good rfl] at h
      rw [← h] at hmore
      cases hmore
    · rw [Ifstream.getline_line hline heq] at h
      dsimp only at h
      rw [offsetBehind_line hgood] at h
      have hlength := congrArg List.length heq
      rw [length_drop, length_append, length_cons] at hlength
      obtain ⟨more, -, -, -, hoffset⟩ := (@reads_readLoop size
        (toInt (0 + lineSize line)) { is with pos := is.pos + line.length + 1 } ([] ++ [line])
        hgood (by dsimp only; omega)).more
      dsimp only at hoffset
      rw [h] at hoffset
      omega

variable {messageSizeMax : Int}

/-- A call of `read` -/
theorem read_spec (hint : size < 2 ^ 31)
    (h : read messageSizeMax (some content) offset size = .ok r) :
    content.drop offset = joined r.lines ++ content.drop r.newOffset ∧
      r.newOffset ≤ content.length ∧ (r.endOfFile = true → content.drop r.newOffset = []) ∧
      (r.endOfFile = false → offset < content.length ∧ offset < r.newOffset) := by
  unfold read at h
  dsimp only at h
  generalize hleast : (if messageSizeMax < size then messageSizeMax else size) = least at h
  have hint' : least < 2 ^ 31 := by
    split at hleast
    · omega
    · omega
  have htellg : (({ content } : Ifstream).seekEnd).tellg = content.length := rfl
  rw [htellg] at h
  split at h
  · cases h
  rename_i hleast'
  split at h
  · rename_i hle
    cases h
    have hend : content.drop offset = [] := List.drop_eq_nil_iff.mpr (by omega)
    refine ⟨?_, Nat.le_of_eq (Int.toNat_natCast _), ?_, ?_⟩
    · rw [hend, Int.toNat_natCast, List.drop_length]
      rfl
    · intro _
      dsimp only
      rw [Int.toNat_natCast, List.drop_length]
    · exact fun heq => nomatch heq
  · rename_i hlt
    cases h
    have hpos : offset < content.length := by omega
    have hreads : Reads content offset []
        (readLoop least ((({ content } : Ifstream).seekEnd).seekg offset) 0 offset []) :=
      @reads_readLoop least 0 ((({ content } : Ifstream).seekEnd).seekg offset) [] rfl
        (Nat.le_of_lt hpos)
    obtain ⟨more, -, hlines, hdrop, hoffset⟩ := hreads.more
    rw [List.nil_append] at hlines
    refine ⟨?_, ?_, hreads.endOfFile, ?_⟩
    · rw [hlines]
      exact hdrop
    · have hlength := congrArg List.length hdrop
      rw [length_append, length_drop] at hlength
      omega
    · exact fun hmore => ⟨hpos, readLoop_lt rfl hpos (by omega) hint' rfl hmore⟩

end Ice.IceGrid.FileCache
