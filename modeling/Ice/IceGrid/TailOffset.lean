import Ice.IceGrid.FileCache

/-!
# Where the last lines of a file begin

`getOffsetFromEnd` scans a file backwards in blocks. A block counts the lines that begin behind its
own beginning, up to the beginning of the block that was read before it, so each line is counted in
one block, wherever the borders are.
-/

namespace Ice.IceGrid.FileCache

open Ice.Lib
open List (append_assoc append_nil cons_append cons_eq_cons cons_ne_nil flatten_append length_append
  length_cons length_drop length_map length_nil map_nil nil_append tail_cons)

/-- Where lines begin -/
def starts (pos : Nat) : List (List UInt8) → List Int
  | [] => []
  | l :: ls => pos :: starts (pos + l.length) ls

/-- The stream is at the beginning of a line, or at the end of the file. -/
structure At (content : List UInt8) (before after : List (List UInt8)) (is : Ifstream) : Prop where
  file : is.content = content
  lines : rawLines content = before ++ after
  pos : is.pos = before.flatten.length
  fail : is.fail = false
  eof : is.eof = true → after = []

/-- All lines begin at an offset or before it. -/
def UpTo (offset : Nat) (before mid : List (List UInt8)) : Prop :=
  ∀ a l b, mid = a ++ l :: b → (before ++ a).flatten.length ≤ offset

variable {content line y : List UInt8} {before mid after front back : List (List UInt8)}
  {is : Ifstream} {l : List UInt8} {pos limit count k : Nat} {totalCount : Int}
  {lines : List (Int × List UInt8)}

@[simp] theorem length_starts (pos : Nat) (ls : List (List UInt8)) :
    (starts pos ls).length = ls.length := by
  induction ls generalizing pos with
  | nil => rfl
  | cons l ls ih => rw [starts, length_cons, length_cons, ih]

theorem drop_starts (pos k : Nat) (ls : List (List UInt8)) :
    (starts pos ls).drop k = starts (pos + (ls.take k).flatten.length) (ls.drop k) := by
  induction ls generalizing pos k with
  | nil => simp [starts]
  | cons l ls ih =>
    cases k with
    | zero => rfl
    | succ k =>
      rw [starts, List.drop_succ_cons, ih, List.take_succ_cons, List.flatten_cons,
        length_append, List.drop_succ_cons, Nat.add_assoc]

theorem rtake_eq_self {α : Type} {xs : List α} (h : xs.length ≤ k) : xs.rtake k = xs := by
  rw [List.rtake, Nat.sub_eq_zero_of_le h, List.drop_zero]

/-- Dropping the first entry of too many does not change the last ones. -/
theorem rtake_tail_append {α : Type} {xs : List α} (h : xs.length = k + 1) (ys : List α) :
    (xs.tail ++ ys).rtake k = (xs ++ ys).rtake k := by
  cases xs with
  | nil => cases h
  | cons x xs =>
    rw [length_cons] at h
    have hsub : (x :: xs ++ ys).length - k = ((xs ++ ys).length - k) + 1 := by
      rw [cons_append, length_cons, length_append]
      omega
    rw [tail_cons, List.rtake, List.rtake, hsub, cons_append, List.drop_succ_cons]

/-- The lines behind the first are those of what stands behind the first. -/
theorem rawLines_flatten_tail {x : List UInt8} (h : rawLines x = l :: after) :
    rawLines after.flatten = after := by
  rcases file_cases x with rfl | ⟨hne, hmem⟩ | ⟨line, y, hline, rfl⟩
  · cases h
  · rw [rawLines_last hmem hne] at h
    cases h
    rfl
  · rw [rawLines_append hline] at h
    cases h
    rw [flatten_rawLines]

theorem rawLines_flatten {x : List UInt8} (h : rawLines x = before ++ after) :
    rawLines after.flatten = after := by
  induction before generalizing x with
  | nil => rw [← nil_append after, ← h, flatten_rawLines, h, nil_append]
  | cons l before ih => exact ih (rawLines_flatten_tail h)

theorem At.drop (h : At content before after is) :
    is.content.drop is.pos = after.flatten ∧ rawLines after.flatten = after := by
  refine ⟨?_, rawLines_flatten h.lines⟩
  have hcontent := flatten_rawLines content
  rw [h.lines, flatten_append] at hcontent
  rw [h.file, h.pos, ← hcontent, List.drop_left]

/-- `getline` reads the next line. -/
theorem At.getline (h : At content before (l :: after) is) :
    At content (before ++ [l]) after is.getline.2 ∧
      ¬(is.getline.2.eof = true ∧ is.getline.1 = []) := by
  obtain ⟨hdrop, hlines⟩ := h.drop
  have heof : is.eof = false := by
    cases heq : is.eof with
    | false => rfl
    | true => cases h.eof heq
  have hsplit : rawLines content = before ++ [l] ++ after := by
    rw [h.lines, append_assoc, List.singleton_append]
  rcases file_cases (is.content.drop is.pos) with hnil | ⟨hne, hmem⟩ | ⟨line, y, hline, heq⟩
  · rw [hdrop] at hnil
    rw [hnil] at hlines
    cases hlines
  · rw [Ifstream.getline_last hne hmem]
    rw [hdrop] at hne hmem
    rw [rawLines_last hmem hne] at hlines
    obtain ⟨hl, hafter⟩ := cons_eq_cons.mp hlines
    constructor
    · constructor
      · exact h.file
      · exact hsplit
      · dsimp only
        rw [h.file, ← flatten_rawLines content, hsplit, ← hafter, append_nil]
      · rfl
      · exact fun _ => hafter.symm
    · rw [hdrop]
      exact fun hempty => hne hempty.2
  · rw [Ifstream.getline_line hline heq]
    rw [hdrop] at heq
    rw [heq, rawLines_append hline] at hlines
    obtain ⟨hl, hafter⟩ := cons_eq_cons.mp hlines
    constructor
    · constructor
      · exact h.file
      · exact hsplit
      · dsimp only
        rw [h.pos, flatten_append, length_append, List.flatten_singleton, ← hl,
          length_append, List.length_singleton, Nat.add_assoc]
      · exact h.fail
      · intro heof'
        rw [heof] at heof'
        cases heof'
    · rintro ⟨heof', -⟩
      rw [heof] at heof'
      cases heof'

theorem At.good (h : At content before (l :: after) is) : is.good = true := by
  have heof : is.eof = false := by
    cases heq : is.eof with
    | false => rfl
    | true => cases h.eof heq
  unfold Ifstream.good
  rw [heof, h.fail]
  rfl

theorem At.tellg (h : At content before after is) : is.tellg = before.flatten.length := by
  unfold Ifstream.tellg
  rw [h.fail, if_neg Bool.false_ne_true, h.pos]

theorem readBlock_stop {count : Int} (h : ¬(is.good = true ∧ is.tellg ≤ limit)) :
    readBlock limit count is totalCount lines = (totalCount, lines) := by
  rw [readBlock, dif_neg h]

/-- A block keeps the last lines that it reads. -/
theorem At.readBlock (h : At content before (mid ++ after) is) (hmid : UpTo limit before mid)
    (hafter : after ≠ [] → limit < (before ++ mid).flatten.length)
    (hlines : lines.length ≤ count) :
    ∃ lines', FileCache.readBlock limit count is totalCount lines =
        (totalCount + lines'.length - lines.length, lines') ∧
      lines'.map Prod.fst =
        (lines.map Prod.fst ++ starts before.flatten.length mid).rtake count := by
  induction mid generalizing before is totalCount lines with
  | nil =>
    rw [nil_append] at h
    have hkept : (lines.map Prod.fst ++ starts before.flatten.length []).rtake count =
        lines.map Prod.fst := by
      rw [starts, append_nil]
      exact rtake_eq_self (by rw [length_map]; exact hlines)
    have hstop : FileCache.readBlock limit count is totalCount lines = (totalCount, lines) := by
      by_cases hgo : is.good = true ∧ is.tellg ≤ limit
      · by_cases hnil : after = []
        · have hdrop := h.drop.1
          rw [hnil, List.flatten_nil] at hdrop
          rw [FileCache.readBlock, dif_pos hgo, Ifstream.getline_nil hdrop, if_pos ⟨rfl, rfl⟩]
          exact readBlock_stop fun hgo' => nomatch hgo'.1
        · have hlt := hafter hnil
          have hle := hgo.2
          rw [append_nil] at hlt
          rw [h.tellg] at hle
          omega
      · exact readBlock_stop hgo
    refine ⟨lines, ?_, hkept.symm⟩
    rw [hstop]
    congr 1
    omega
  | cons l mid ih =>
    rw [cons_append] at h
    obtain ⟨hnext, hread⟩ := h.getline
    have htellg : is.tellg ≤ limit := by
      have hle := hmid [] l mid rfl
      rw [append_nil] at hle
      rw [h.tellg]
      omega
    have hmid' : UpTo limit (before ++ [l]) mid := by
      intro a l' b heq
      rw [append_assoc]
      exact hmid (l :: a) l' b (by rw [heq]; rfl)
    have hafter' : after ≠ [] → limit < (before ++ [l] ++ mid).flatten.length := by
      rw [append_assoc]
      exact hafter
    have hpos : (before ++ [l]).flatten.length = before.flatten.length + l.length := by
      rw [flatten_append, length_append, List.flatten_singleton]
    rw [FileCache.readBlock, dif_pos ⟨h.good, htellg⟩]
    dsimp only
    rw [if_neg hread, h.tellg]
    have hpushed : (lines ++ [((before.flatten.length : Int), is.getline.1)]).length =
        lines.length + 1 := by
      rw [length_append, List.length_singleton]
    have hmap : (lines ++ [((before.flatten.length : Int), is.getline.1)]).map Prod.fst ++
        starts (before.flatten.length + l.length) mid =
        lines.map Prod.fst ++ starts before.flatten.length (l :: mid) := by
      rw [List.map_append, append_assoc, starts]
      rfl
    generalize lines ++ [((before.flatten.length : Int), is.getline.1)] = pushed at hpushed hmap
    by_cases hfull : (pushed.length : Int) = count + 1
    · rw [if_pos hfull]
      obtain ⟨lines', hresult, hkept⟩ := @ih _ _ totalCount pushed.tail hnext hmid' hafter'
        (by rw [List.length_tail]; omega)
      refine ⟨lines', ?_, ?_⟩
      · rw [hresult, List.length_tail, hpushed, Nat.add_sub_cancel]
      · rw [hkept, hpos, ← hmap, List.map_tail]
        apply rtake_tail_append
        rw [length_map]
        omega
    · rw [if_neg hfull]
      obtain ⟨lines', hresult, hkept⟩ := @ih _ _ (totalCount + 1) pushed hnext hmid' hafter'
        (by omega)
      refine ⟨lines', ?_, ?_⟩
      · rw [hresult, hpushed]
        congr 1
        push_cast
        omega
      · rw [hkept, hpos, ← hmap]

theorem seekBlock_beginning (h : is.content = content) {blockSize : Nat} (hle : limit ≤ blockSize) :
    At content [] (rawLines content) (seekBlock is limit blockSize) := by
  unfold seekBlock
  rw [if_neg (by omega)]
  exact ⟨h, rfl, rfl, rfl, fun heq => nomatch heq⟩

/-- A block begins with the first line that begins behind its beginning. -/
theorem seekBlock_inside (h : is.content = content) {blockSize : Nat} (hpos : 0 < blockSize)
    (hlt : blockSize < limit) (hlimit : limit ≤ content.length) :
    ∃ before after, At content before after (seekBlock is limit blockSize) ∧
      UpTo (limit - blockSize) [] before ∧ limit - blockSize < before.flatten.length := by
  generalize hbeg : limit - blockSize = beg
  have hbeg' : beg < content.length := by omega
  have hsplit := List.take_append_drop beg content
  have hne : content.drop beg ≠ [] := by
    rw [Ne, List.drop_eq_nil_iff]
    omega
  have hlength : (content.take beg).length = beg := List.length_take_of_le (by omega)
  obtain ⟨before, hbefore, hlines, hdropLast⟩ := rawLines_drop hne (content.take beg)
  rw [hsplit] at hlines
  rw [hlength] at hdropLast
  have htotal : before.flatten.length + (rawLines (content.drop beg)).tail.flatten.length =
      content.length := by
    have hflatten := congrArg List.length (flatten_rawLines content)
    rw [hlines, flatten_append, length_append] at hflatten
    exact hflatten
  have hup : UpTo beg [] before := by
    intro a l b heq
    have hdropped : before.dropLast = a ++ (l :: b).dropLast := by
      rw [heq, List.dropLast_append_of_ne_nil (cons_ne_nil _ _)]
    rw [hdropped, flatten_append, length_append] at hdropLast
    rw [nil_append]
    omega
  have hdrop : (is.clear.seekg beg).content.drop (is.clear.seekg beg).pos = content.drop beg := by
    change is.content.drop beg = _
    rw [h]
  refine ⟨before, (rawLines (content.drop beg)).tail, ?_, hup, ?_⟩
  · unfold seekBlock
    rw [if_pos hlt, hbeg]
    rcases file_cases (content.drop beg) with hnil | ⟨-, hmem⟩ | ⟨line, y, hline, heq⟩
    · exact absurd hnil hne
    · rw [Ifstream.getline_last (by rw [hdrop]; exact hne) (by rw [hdrop]; exact hmem)]
      rw [rawLines_last hmem hne, tail_cons] at hlines htotal ⊢
      rw [List.flatten_nil, length_nil, Nat.add_zero] at htotal
      constructor
      · exact h
      · exact hlines
      · change is.content.length = _
        rw [h, htotal]
      · rfl
      · exact fun _ => rfl
    · rw [Ifstream.getline_line hline (by rw [hdrop]; exact heq)]
      rw [heq, rawLines_append hline, tail_cons] at hlines htotal ⊢
      rw [flatten_rawLines] at htotal
      have hrest := congrArg List.length heq
      rw [length_drop, length_append, length_cons] at hrest
      constructor
      · exact h
      · exact hlines
      · change beg + line.length + 1 = _
        omega
      · rfl
      · exact fun heof => nomatch heof
  · have hfirst :
        0 < (content.drop beg).length - (rawLines (content.drop beg)).tail.flatten.length := by
      cases hraw : rawLines (content.drop beg) with
      | nil => exact absurd (rawLines_eq_nil.mp hraw) hne
      | cons l ls =>
        have hl : l ≠ [] := ne_nil_of_mem_rawLines (by rw [hraw]; exact List.mem_cons_self ..)
        have hflatten := congrArg List.length (flatten_rawLines (content.drop beg))
        rw [hraw, List.flatten_cons, length_append] at hflatten
        have hpositive := List.length_pos_iff.mpr hl
        rw [tail_cons]
        omega
    rw [length_drop] at hfirst
    omega

/-- The lines that begin behind an offset have been counted, and more are asked for. -/
structure Counted (content : List UInt8) (limit : Nat) (front back : List (List UInt8)) : Prop where
  lines : rawLines content = front ++ back
  upTo : UpTo limit [] front
  behind : back ≠ [] → limit < front.flatten.length

theorem firstOffset_eq (lines : List (Int × List UInt8)) :
    firstOffset lines = (lines.map Prod.fst).headD 0 := by
  cases lines with
  | nil => rfl
  | cons e lines => rfl

/-- What a block has counted when it began behind `before` -/
theorem Counted.block {n : Nat} (h : Counted content limit (before ++ mid) back)
    (hat : At content before (mid ++ back) is) (hlt : back.length < n) :
    ∃ lines, FileCache.readBlock limit (n - back.length : Int) is back.length [] =
        (((back.length + min (n - back.length) mid.length : Nat) : Int), lines) ∧
      (n ≤ back.length + mid.length → firstOffset lines =
        ((rawLines content).take ((rawLines content).length - n)).flatten.length) ∧
      (before = [] → back.length + mid.length < n → firstOffset lines = 0) := by
  have hmid : UpTo limit before mid := by
    intro a l b heq
    have hle := h.upTo (before ++ a) l b (by rw [heq, append_assoc])
    rwa [nil_append] at hle
  obtain ⟨lines, hresult, hkept⟩ := @At.readBlock content before mid back is limit
    (n - back.length) back.length [] hat hmid h.behind (Nat.zero_le _)
  rw [map_nil, nil_append] at hkept
  have hlength : lines.length = min (n - back.length) mid.length := by
    have hlengths := congrArg List.length hkept
    rw [length_map, List.rtake, length_drop, length_starts] at hlengths
    omega
  have hcount : ((n - back.length : Nat) : Int) = n - back.length := by omega
  rw [hcount] at hresult
  refine ⟨lines, ?_, ?_, ?_⟩
  · rw [hresult, hlength, length_nil, Int.natCast_zero, Int.sub_zero, ← Int.natCast_add]
  · intro hle
    have hlines : (rawLines content).length = before.length + mid.length + back.length := by
      rw [h.lines, length_append, length_append]
    have htake : (rawLines content).take ((rawLines content).length - n) =
        before ++ mid.take (mid.length - (n - back.length)) := by
      rw [hlines, h.lines, append_assoc, List.take_append, List.take_of_length_le (by omega),
        List.take_append_of_le_length (by omega)]
      congr 2
      omega
    rw [firstOffset_eq, hkept, List.rtake, length_starts, drop_starts, htake, flatten_append,
      length_append]
    cases hdrop : mid.drop (mid.length - (n - back.length)) with
    | nil =>
      rw [List.drop_eq_nil_iff] at hdrop
      omega
    | cons l rest => rfl
  · rintro rfl hfew
    rw [firstOffset_eq, hkept, rtake_eq_self (by rw [length_starts]; omega)]
    cases mid with
    | nil => rfl
    | cons l mid => rfl

variable {n blockSize : Nat}

/-- Of a block at the beginning of the file that only looks for the first line, that line is the
first. -/
theorem blockLoop_zero (h : is.content = content) (hpos : 0 < blockSize)
    (hlt : (rawLines content).length < n) :
    blockLoop n is 0 blockSize hpos (rawLines content).length = 0 := by
  obtain ⟨first, rest, hsplit, hone, hfirst, hnil⟩ : ∃ first rest,
      rawLines content = first ++ rest ∧ first.length ≤ 1 ∧
      UpTo 0 [] first ∧ (rest ≠ [] → 0 < first.flatten.length) := by
    cases hraw : rawLines content with
    | nil =>
      refine ⟨[], [], rfl, Nat.zero_le _, ?_, fun hne => absurd rfl hne⟩
      intro a l b heq
      exact absurd heq.symm (List.append_ne_nil_of_right_ne_nil a (cons_ne_nil l b))
    | cons l ls =>
      have hl : l ≠ [] := ne_nil_of_mem_rawLines (by rw [hraw]; exact List.mem_cons_self ..)
      refine ⟨[l], ls, rfl, le_refl _, ?_, ?_⟩
      · intro a l' b heq
        cases a with
        | nil => exact le_refl _
        | cons l'' a =>
          obtain ⟨-, hnil⟩ := cons_eq_cons.mp heq
          exact absurd hnil.symm
            (List.append_ne_nil_of_right_ne_nil a (cons_ne_nil l' b))
      · intro _
        rw [List.flatten_singleton]
        exact List.length_pos_iff.mpr hl
  have hat := @seekBlock_beginning content is 0 h blockSize (Nat.zero_le _)
  rw [hsplit] at hat
  obtain ⟨lines, hresult, hkept⟩ := @At.readBlock content [] first rest
    (seekBlock is 0 blockSize) 0 (n - (rawLines content).length) (rawLines content).length [] hat
    hfirst hnil (Nat.zero_le _)
  have hcount : ((n - (rawLines content).length : Nat) : Int) = n - (rawLines content).length := by
    omega
  rw [hcount] at hresult
  rw [map_nil, nil_append, rtake_eq_self (by rw [length_starts]; omega)] at hkept
  rw [blockLoop, hresult]
  dsimp only
  rw [dif_pos hpos, firstOffset_eq, hkept]
  cases first with
  | nil => rfl
  | cons l first => rfl

/-- The blocks find where the last lines begin. -/
theorem blockLoop_eq (h : is.content = content) (hpos : 0 < blockSize)
    (hlimit : limit ≤ content.length) (hcounted : Counted content limit front back)
    (hlt : back.length < n) :
    blockLoop n is limit blockSize hpos back.length =
      ((rawLines content).take ((rawLines content).length - n)).flatten.length := by
  induction hm : limit using Nat.strongRecOn generalizing limit blockSize front back with
  | ind m ih =>
    subst hm
    by_cases hinside : blockSize < limit
    · obtain ⟨before, after, hat, hup, hbehind⟩ := seekBlock_inside h hpos hinside hlimit
      -- the lines of this block are the ones in front that begin behind its beginning
      obtain ⟨mid, rfl, rfl⟩ : ∃ mid, front = before ++ mid ∧ after = mid ++ back := by
        have happend := hat.lines.symm.trans hcounted.lines
        rcases List.append_eq_append_iff.mp happend with
          ⟨mid, hfront, hafter⟩ | ⟨mid, hbefore, hback⟩
        · exact ⟨mid, hfront, hafter⟩
        · cases mid with
          | nil =>
            rw [append_nil] at hbefore
            rw [nil_append] at hback
            exact ⟨[], by rw [append_nil, hbefore], by rw [nil_append, hback]⟩
          | cons l mid =>
            have hle := hup front l mid hbefore
            have hgreater := hcounted.behind (by rw [hback]; exact cons_ne_nil _ _)
            rw [nil_append] at hle
            omega
      obtain ⟨lines, hresult, henough, -⟩ := hcounted.block hat hlt
      rw [blockLoop, hresult]
      dsimp only
      rw [dif_neg (by omega)]
      by_cases hmore : back.length + mid.length < n
      · have hmin : back.length + min (n - back.length) mid.length = (mid ++ back).length := by
          rw [length_append]
          omega
        rw [hmin, if_pos (by rw [length_append]; omega)]
        have hcounted' : Counted content (limit - blockSize) before (mid ++ back) :=
          ⟨by rw [hcounted.lines, append_assoc], hup, fun _ => hbehind⟩
        exact @ih (limit - blockSize) (by omega) before (mid ++ back) (limit - blockSize)
          (blockSize * 2) _ (by omega) hcounted' (by rw [length_append]; omega) rfl
      · rw [if_neg (by omega)]
        exact henough (by omega)
    · have hat := @seekBlock_beginning content is limit h blockSize (by omega)
      rw [hcounted.lines] at hat
      obtain ⟨lines, hresult, henough, hfew⟩ := Counted.block hcounted hat hlt
      have hlines : (rawLines content).length = back.length + front.length := by
        rw [hcounted.lines, length_append, Nat.add_comm]
      have hwhole (hmore : back.length + front.length < n) :
          (rawLines content).take ((rawLines content).length - n) = [] := by
        rw [Nat.sub_eq_zero_of_le (by omega), List.take_zero]
      rw [blockLoop, hresult]
      dsimp only
      by_cases hbeg : limit < blockSize
      · rw [dif_pos hbeg]
        by_cases hmore : back.length + front.length < n
        · rw [hfew rfl hmore, hwhole hmore]
          rfl
        · exact henough (by omega)
      · rw [dif_neg hbeg]
        by_cases hmore : back.length + front.length < n
        · -- the block began at the beginning of the file, and another one looks there
          have hmin : back.length + min (n - back.length) front.length =
              (rawLines content).length := by omega
          have hzero : limit - blockSize = 0 := by omega
          rw [hmin, if_pos (by omega), hwhole hmore]
          simp only [hzero]
          exact blockLoop_zero h _ (by omega)
        · rw [if_neg (by omega)]
          exact henough (by omega)

/-- `getOffsetFromEnd` returns where the last lines of the file begin. -/
theorem getOffsetFromEnd_eq (content : List UInt8) (n : Nat) (h : 1 ≤ n) :
    getOffsetFromEnd (some content) n =
      .ok (((rawLines content).take ((rawLines content).length -
        min n (rawLines content).length)).flatten.length) := by
  have hmin : (rawLines content).length - min n (rawLines content).length =
      (rawLines content).length - n := by omega
  have hcounted : Counted content content.length (rawLines content) [] := by
    constructor
    · exact (append_nil _).symm
    · intro a l b heq
      have hlength := congrArg List.length (flatten_rawLines content)
      rw [heq, flatten_append, length_append] at hlength
      rw [nil_append]
      omega
    · exact fun hne => absurd rfl hne
  have htellg : (({ content } : Ifstream).seekEnd).tellg.toNat = content.length :=
    Int.toNat_natCast _
  unfold getOffsetFromEnd
  dsimp only
  rw [if_neg (by omega), if_neg (by omega), hmin, htellg]
  exact congrArg Except.ok
    (@blockLoop_eq content (rawLines content) [] (({ content } : Ifstream).seekEnd) content.length n
      (16 * 1024) rfl (by omega) (le_refl _) hcounted (by rw [length_nil]; omega))

/-- The last two lines of three, the last of which is not complete -/
theorem getOffsetFromEnd_sample :
    getOffsetFromEnd (some [97, 10, 98, 10, 99]) 2 = .ok 2 :=
  getOffsetFromEnd_eq [97, 10, 98, 10, 99] 2 (by decide)

end Ice.IceGrid.FileCache
