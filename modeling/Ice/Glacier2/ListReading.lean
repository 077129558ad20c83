import Ice.Glacier2.Lists

/-!
# Written lists are read

Each parser finds the elements that were written, in their order.
-/

namespace Ice.Glacier2

open References
open List (append_nil cons_append flatMap_nil forall_mem_cons nil_append)
open Setting (textOf values)
open IdentityWord (text)

theorem isQuote_of_isBlank {c : UInt8} (h : isBlank c = true) : isQuote c = false := by
  simp only [isBlank, Bool.or_eq_true, decide_eq_true_eq] at h
  rcases h with rfl | rfl <;> rfl

theorem mem_blanks {c : UInt8} : c ∈ [space, tab] ↔ isBlank c = true := by
  simp [isBlank]

theorem isQuote_backslash : isQuote backslash = false := rfl

section

variable {elt value rest : Str} {result : List Str} {q : UInt8} {quoteChar : Option UInt8}

/-- A character that is no quote, escapes nothing and is no blank outside of quotes is taken. -/
theorem splitLoop_take {c : UInt8}
    (hquote : quoteChar = none → isQuote c = false ∧ isBlank c = false) (hend : quoteChar ≠ some c)
    (hescapes : escapes quoteChar c rest = false) :
    splitLoop [space, tab] quoteChar elt result (c :: rest) =
      splitLoop [space, tab] quoteChar (elt ++ [c]) result rest := by
  have hopens : ¬(quoteChar = none ∧ isQuote c = true) := fun h => by
    rw [(hquote h.1).1] at h
    cases h.2
  have hdelim : ¬(c ∈ [space, tab] ∧ quoteChar = none) := fun h => by
    have hblank := mem_blanks.mp h.1
    rw [(hquote h.2).2] at hblank
    cases hblank
  have hescape : ¬escapes quoteChar c rest = true := by
    rw [hescapes]
    exact Bool.false_ne_true
  rw [splitLoop, if_neg hopens, if_neg hescape, if_neg hend, if_neg hdelim]

/-- An escaped quote is taken. -/
theorem splitLoop_escaped {c : UInt8}
    (h : escapes quoteChar backslash (c :: rest) = true) :
    splitLoop [space, tab] quoteChar elt result (backslash :: c :: rest) =
      splitLoop [space, tab] quoteChar (elt ++ [c]) result rest := by
  rw [splitLoop]
  simp [isQuote_backslash, h]

theorem head?_escaped {special : UInt8 → Bool} {d : UInt8}
    (h : (escaped special value ++ rest).head? = some d) :
    (special d = false ∨ d = backslash) ∨ (value = [] ∧ rest.head? = some d) := by
  cases value with
  | nil => exact .inr ⟨rfl, h⟩
  | cons c value =>
    left
    rw [escaped, List.flatMap_cons] at h
    by_cases hc : special c = true
    · rw [if_pos hc] at h
      exact .inr (Option.some.inj h).symm
    · rw [if_neg hc] at h
      have hcd : c = d := Option.some.inj h
      exact .inl (hcd ▸ eq_false_of_ne_true hc)

/-- What is written without quotes -/
theorem splitLoop_unquoted (hvalue : ∀ c ∈ value, isBlank c = false)
    (hrest : ∀ c ∈ rest.head?, isQuote c = false) :
    splitLoop [space, tab] none elt result (escaped isQuote value ++ rest) =
      splitLoop [space, tab] none (elt ++ value) result rest := by
  induction value generalizing elt with
  | nil => rw [append_nil]; rfl
  | cons c value ih =>
    rw [forall_mem_cons] at hvalue
    rw [List.append_cons elt, ← ih hvalue.2]
    by_cases hc : isQuote c = true
    · have htext : escaped isQuote (c :: value) ++ rest =
          backslash :: c :: (escaped isQuote value ++ rest) := by
        simp [escaped, hc]
      rw [htext]
      apply splitLoop_escaped
      simp [escapes, hc]
    · have htext : escaped isQuote (c :: value) ++ rest =
          c :: (escaped isQuote value ++ rest) := by
        simp [escaped, hc]
      rw [htext]
      apply splitLoop_take
      · intro _
        exact ⟨eq_false_of_ne_true hc, hvalue.1⟩
      · simp
      · -- what follows is no quote
        unfold escapes
        rw [Bool.and_eq_false_iff]
        right
        split
        · rfl
        · rename_i d hd
          rcases head?_escaped hd with (h | rfl) | ⟨_, h⟩
          · exact h
          · rfl
          · exact hrest d h

/-- What is written within quotes -/
theorem splitLoop_quoted (hq : isQuote q = true) (hvalue : value.getLast? ≠ some backslash) :
    splitLoop [space, tab] (some q) elt result (escaped (· = q) value ++ q :: rest) =
      splitLoop [space, tab] none (elt ++ value) result rest := by
  have hqb : q ≠ backslash := by
    rintro rfl
    cases hq
  induction value generalizing elt with
  | nil =>
    have hnone : escapes (some q) q rest = false := by simp [escapes, hqb]
    rw [escaped, flatMap_nil, nil_append, append_nil, splitLoop]
    simp [hnone]
  | cons c value ih =>
    have hlast : value.getLast? ≠ some backslash := by
      cases value with
      | nil => simp
      | cons d value => simpa using hvalue
    rw [List.append_cons elt, ← ih hlast]
    by_cases hc : c = q
    · have htext : escaped (· = q) (c :: value) ++ q :: rest =
          backslash :: c :: (escaped (· = q) value ++ q :: rest) := by
        simp [escaped, hc]
      rw [htext]
      apply splitLoop_escaped
      simp [escapes, hc]
    · have htext : escaped (· = q) (c :: value) ++ q :: rest =
          c :: (escaped (· = q) value ++ q :: rest) := by
        simp [escaped, hc]
      rw [htext]
      apply splitLoop_take
      · intro h
        cases h
      · simpa using Ne.symm hc
      · -- a backslash does not stand before a quote, as it is not the last character
        unfold escapes
        by_cases hcb : c = backslash
        · rw [Bool.and_eq_false_iff]
          right
          split
          · rfl
          · rename_i d hd
            rcases head?_escaped hd with (h | rfl) | ⟨rfl, _⟩
            · exact h
            · simpa using hqb.symm
            · exact absurd (by simp [hcb]) hvalue
        · simp [hcb]

theorem splitLoop_word (w : Word) (hrest : ∀ c ∈ rest.head?, isQuote c = false) :
    splitLoop [space, tab] none [] result (w.text ++ rest) =
      splitLoop [space, tab] none w.value result rest := by
  obtain ⟨quote, value, hnonempty, hisQuote, hunquoted, hquoted⟩ := w
  cases quote with
  | none => exact splitLoop_unquoted (hunquoted rfl) hrest
  | some q =>
    have hq := hisQuote q rfl
    have htext : Word.text ⟨some q, value, hnonempty, hisQuote, hunquoted, hquoted⟩ ++ rest =
        q :: (escaped (· = q) value ++ q :: rest) := by
      simp [Word.text]
    rw [htext, splitLoop, if_pos ⟨rfl, hq⟩]
    exact splitLoop_quoted hq (hquoted (by simp))

/-- Blanks end an element. -/
theorem splitLoop_blanks {blanks : Str} (hblanks : ∀ c ∈ blanks, isBlank c = true)
    (helt : blanks = [] → elt = []) :
    splitLoop [space, tab] none elt result (blanks ++ rest) =
      splitLoop [space, tab] none [] (pushed result elt) rest := by
  have hstep : ∀ {elt result rest} {c : UInt8}, isBlank c = true →
      splitLoop [space, tab] none elt result (c :: rest) =
        splitLoop [space, tab] none [] (pushed result elt) rest := by
    intro elt result rest c hc
    have hcb : c ≠ backslash := by
      rintro rfl
      cases hc
    rw [splitLoop]
    simp [isQuote_of_isBlank hc, escapes, hcb, mem_blanks.mpr hc]
  induction blanks generalizing elt result with
  | nil => simp [helt rfl, pushed]
  | cons c blanks ih =>
    rw [forall_mem_cons] at hblanks
    rw [cons_append, hstep hblanks.1, ih hblanks.2 fun _ => rfl]
    simp [pushed]

theorem head?_textOf {α : Type} {written : α → Str} {items : List (Str × α)} {trailing : Str}
    (hitems : ∀ p ∈ items, p.1 ≠ [] ∧ ∀ c ∈ p.1, isBlank c = true)
    (htrailing : ∀ c ∈ trailing, isBlank c = true) :
    ∀ c ∈ (textOf written items trailing).head?, isBlank c = true := by
  intro c hc
  cases items with
  | nil =>
    rw [textOf, flatMap_nil, nil_append] at hc
    exact htrailing c (List.mem_of_mem_head? hc)
  | cons p items =>
    obtain ⟨hne, hblanks⟩ := hitems p (List.mem_cons_self ..)
    cases hbefore : p.1 with
    | nil => exact absurd hbefore hne
    | cons d before =>
      rw [textOf, List.flatMap_cons, hbefore] at hc
      have hd : d = c := Option.some.inj hc
      exact hblanks c (by rw [hbefore, hd]; exact List.mem_cons_self ..)

theorem splitLoop_textOf {items : List (Str × Word)} {trailing : Str}
    (hitems : ∀ p ∈ items, p.1 ≠ [] ∧ ∀ c ∈ p.1, isBlank c = true)
    (htrailing : ∀ c ∈ trailing, isBlank c = true) :
    splitLoop [space, tab] none elt result (textOf Word.text items trailing) =
      (pushed result elt ++ items.map fun p => p.2.value, true) := by
  induction items generalizing elt result with
  | nil =>
    rw [textOf, flatMap_nil, nil_append, List.map_nil, append_nil]
    by_cases hempty : trailing = []
    · rw [hempty, splitLoop]
      rfl
    · rw [← append_nil trailing, splitLoop_blanks htrailing fun h => absurd h hempty, splitLoop]
      rfl
  | cons p items ih =>
    rw [forall_mem_cons] at hitems
    have htext : textOf Word.text (p :: items) trailing =
        p.1 ++ (p.2.text ++ textOf Word.text items trailing) := by
      simp [textOf]
    have hrest : ∀ c ∈ (textOf Word.text items trailing).head?, isQuote c = false :=
      fun c hc => isQuote_of_isBlank (head?_textOf hitems.2 htrailing c hc)
    rw [htext, splitLoop_blanks hitems.1.2 fun h => absurd h hitems.1.1, splitLoop_word _ hrest,
      ih hitems.2]
    simp [pushed, p.2.nonempty]

end

/-- The words of a property are added to the sequence. -/
theorem splitString_text (s : Setting Word) (result : List Str) :
    splitString (s.text Word.text) [space, tab] result =
      (result ++ s.values.map Word.value, true) := by
  obtain ⟨items, trailing, hblanks, htrailing, hseparated⟩ := s
  unfold splitString Setting.text values
  cases items with
  | nil =>
    rw [splitLoop_textOf (by simp) htrailing]
    simp [pushed]
  | cons p items =>
    rw [forall_mem_cons] at hblanks
    have hitems : ∀ p ∈ items, p.1 ≠ [] ∧ ∀ c ∈ p.1, isBlank c = true :=
      fun p hp => ⟨hseparated p hp, hblanks.2 p hp⟩
    have htext : textOf Word.text (p :: items) trailing =
        p.1 ++ (p.2.text ++ textOf Word.text items trailing) := by
      simp [textOf]
    have hrest : ∀ c ∈ (textOf Word.text items trailing).head?, isQuote c = false :=
      fun c hc => isQuote_of_isBlank (head?_textOf hitems htrailing c hc)
    rw [htext, splitLoop_blanks hblanks.1 fun _ => rfl, splitLoop_word _ hrest,
      splitLoop_textOf hitems htrailing]
    simp [pushed, p.2.nonempty]

theorem stringToSeq_text (s : Setting Word) (seq : List Str) :
    stringToSeq (s.text Word.text) seq = seq ++ s.values.map Word.value := by
  rw [stringToSeq, splitString_text]

/-- Between the units of a written identity, no backslash waits for its character. -/
def Balanced (seen : Str) : Prop := (seen.takeWhile (· = backslash)).length % 2 = 0

theorem Balanced.cons {seen : Str} {c : UInt8} (hc : c ≠ backslash) : Balanced (c :: seen) := by
  simp [Balanced, hc]

theorem Balanced.unit {seen : Str} (h : Balanced seen) (d : UInt8) :
    Balanced (d :: backslash :: seen) := by
  unfold Balanced at *
  by_cases hd : d = backslash
  · simpa [hd, Nat.add_assoc] using h
  · simp [hd]

theorem closing_pass {q c : UInt8} {seen rest : Str} (h : c = q → ¬Balanced seen) :
    closing q seen (c :: rest) = closing q (c :: seen) rest := by
  rw [closing, if_neg fun hc => h hc.1 hc.2]

/-- An element within quotes ends where it was meant to. -/
theorem closing_regular {q : UInt8} (hq : q ≠ backslash) {raw rest seen : Str}
    (hraw : Regular q raw) (hseen : Balanced seen) :
    closing q seen (raw ++ q :: rest) = some (seen.reverse ++ raw, rest) := by
  fun_induction Regular q raw generalizing seen with
  | case1 => rw [nil_append, closing, if_pos ⟨rfl, hseen⟩, append_nil]
  | case2 c =>
    rw [List.singleton_append, closing_pass fun h => absurd h hraw.2, closing,
      if_pos ⟨rfl, Balanced.cons hraw.1⟩, List.reverse_cons]
  | case3 d rest' ih =>
    have hwaits : ¬Balanced (backslash :: seen) := by
      unfold Balanced at *
      simp
      omega
    rw [cons_append, cons_append, closing_pass fun h => absurd h.symm hq,
      closing_pass fun _ => hwaits, ih hraw (hseen.unit d)]
    simp
  | case4 c d rest' hne ih =>
    rw [cons_append, closing_pass fun h => absurd h hraw.1, ih hraw.2 (Balanced.cons hne)]
    simp

section

variable {f : Str → Option Identity} {str rest : Str} {seq : List Identity} {c : UInt8}
  {id : Identity}

theorem stringToIdentities_nil (h : str.dropWhile isBlank = []) :
    stringToIdentities f str seq = some seq := by
  rw [stringToIdentities]
  split
  · rfl
  · rename_i hcons
    rw [h] at hcons
    cases hcons

theorem stringToIdentities_unquoted (h : str.dropWhile isBlank = c :: rest)
    (hc : isQuote c = false) (hid : f (c :: rest.takeWhile (!isBlank ·)) = some id) :
    stringToIdentities f str seq =
      stringToIdentities f (rest.dropWhile (!isBlank ·)) (seq ++ [id]) := by
  rw [stringToIdentities]
  split
  · rename_i hnil
    rw [h] at hnil
    cases hnil
  · rename_i hcons
    rw [h] at hcons
    cases hcons
    simp [hc, hid]

theorem stringToIdentities_quoted {inside after : Str} (h : str.dropWhile isBlank = c :: rest)
    (hc : isQuote c = true) (hclosing : closing c [] rest = some (inside, after))
    (hid : f inside = some id) :
    stringToIdentities f str seq = stringToIdentities f after (seq ++ [id]) := by
  rw [stringToIdentities]
  split
  · rename_i hnil
    rw [h] at hnil
    cases hnil
  · rename_i hcons
    rw [h] at hcons
    cases hcons
    rw [if_pos hc]
    split
    · rename_i hnone
      rw [hclosing] at hnone
      cases hnone
    · rename_i hsome
      rw [hclosing] at hsome
      cases hsome
      simp [hid]

theorem dropWhile_blanks {blanks : Str} (hblanks : ∀ c ∈ blanks, isBlank c = true)
    (hc : isBlank c = false) : (blanks ++ c :: rest).dropWhile isBlank = c :: rest := by
  rw [List.dropWhile_append_of_pos hblanks, List.dropWhile_cons_of_neg (by simp [hc])]

/-- An identity with blanks before it -/
theorem stringToIdentities_word (w : IdentityWord f) {blanks : Str}
    (hblanks : ∀ c ∈ blanks, isBlank c = true) (hrest : ∀ c ∈ rest.head?, isBlank c = true) :
    stringToIdentities f (blanks ++ (w.text ++ rest)) seq =
      stringToIdentities f rest (seq ++ [w.value]) := by
  obtain ⟨quote, raw, value, hparses, hisQuote, hunquoted, hquoted⟩ := w
  cases quote with
  | none =>
    obtain ⟨hne, hraw, hhead⟩ := hunquoted rfl
    cases raw with
    | nil => exact absurd rfl hne
    | cons c raw =>
      rw [forall_mem_cons] at hraw
      have htake : (raw ++ rest).takeWhile (!isBlank ·) = raw := by
        rw [List.takeWhile_append_of_pos (by simpa using hraw.2)]
        cases rest with
        | nil => simp
        | cons d rest => simp [hrest d rfl]
      have hdrop : (raw ++ rest).dropWhile (!isBlank ·) = rest := by
        rw [List.dropWhile_append_of_pos (by simpa using hraw.2)]
        cases rest with
        | nil => rfl
        | cons d rest => simp [hrest d rfl]
      have hparse : f (c :: (raw ++ rest).takeWhile (!isBlank ·)) = some value := by
        rw [htake]
        exact hparses
      have hstart : (blanks ++ (c :: raw ++ rest)).dropWhile isBlank = c :: (raw ++ rest) :=
        dropWhile_blanks hblanks hraw.1
      apply (stringToIdentities_unquoted hstart (hhead c rfl) hparse).trans
      rw [hdrop]
  | some q =>
    have hq := hisQuote q rfl
    have hqb : q ≠ backslash := by
      rintro rfl
      cases hq
    have hnotBlank : isBlank q = false := by
      by_contra hblank
      rw [isQuote_of_isBlank (eq_true_of_ne_false hblank)] at hq
      cases hq
    have htext : text ⟨some q, raw, value, hparses, hisQuote, hunquoted, hquoted⟩ ++
        rest = q :: (raw ++ q :: rest) := by
      simp [text]
    rw [htext]
    apply stringToIdentities_quoted (dropWhile_blanks hblanks hnotBlank) hq _ hparses
    exact closing_regular hqb (hquoted q rfl) rfl

theorem stringToIdentities_textOf {items : List (Str × IdentityWord f)} {trailing : Str}
    (hblanks : ∀ p ∈ items, ∀ c ∈ p.1, isBlank c = true) (hseparated : ∀ p ∈ items.tail, p.1 ≠ [])
    (htrailing : ∀ c ∈ trailing, isBlank c = true) :
    stringToIdentities f (textOf text items trailing) seq =
      some (seq ++ items.map fun p => p.2.value) := by
  induction items generalizing seq with
  | nil =>
    rw [stringToIdentities_nil]
    · simp
    · rw [textOf, flatMap_nil, nil_append, ← append_nil trailing,
        List.dropWhile_append_of_pos htrailing]
      rfl
  | cons p items ih =>
    rw [forall_mem_cons] at hblanks
    have htext : textOf text (p :: items) trailing =
        p.1 ++ (p.2.text ++ textOf text items trailing) := by
      simp [textOf]
    have hrest : ∀ c ∈ (textOf text items trailing).head?, isBlank c = true :=
      head?_textOf (fun p hp => ⟨hseparated p hp, hblanks.2 p hp⟩) htrailing
    rw [htext, stringToIdentities_word _ hblanks.1 hrest,
      ih hblanks.2 fun p hp => hseparated p (List.mem_of_mem_tail hp)]
    simp

end

/-- The identities of a property are added to the sequence. -/
theorem stringToIdentities_text {f : Str → Option Identity} (s : Setting (IdentityWord f))
    (seq : List Identity) :
    stringToIdentities f (s.text text) seq =
      some (seq ++ s.values.map IdentityWord.value) := by
  rw [Setting.text, stringToIdentities_textOf s.blanks s.separated s.trailingBlanks, values,
    List.map_map]
  rfl

end Ice.Glacier2
