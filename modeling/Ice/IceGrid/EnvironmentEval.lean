import Mathlib.Data.List.Basic
import Mathlib.Data.List.TakeWhile

/-!
# Environment variables in the descriptors of a node

`EnvironmentEval` expands the references to variables in the value of an assignment, on systems
other than Windows. A position is a number of characters from the start of the value, which is
changed in place.
-/

namespace Ice.IceGrid.EnvironmentEval

open List (append_assoc cons_append drop_left length_append length_cons mem_cons nil_append
  take_left)

abbrev Str := List UInt8

def dollar : UInt8 := '$'.toUInt8
def openBrace : UInt8 := 123
def closeBrace : UInt8 := 125
def equals : UInt8 := '='.toUInt8

/-- The characters of a name: those of `isalnum`, and the underscore -/
def isName (c : UInt8) : Bool :=
  48 ≤ c && c ≤ 57 || 65 ≤ c && c ≤ 90 || 97 ≤ c && c ≤ 122 || c = '_'.toUInt8

/-- `find` -/
def find (c : UInt8) (s : Str) (pos : Nat) : Option Nat :=
  if c ∈ s.drop pos then some (pos + ((s.drop pos).takeWhile (· ≠ c)).length) else none

/-- The number of characters from one position to another; a number below zero wraps around, and is
then more than any string has. -/
def count (fin beg : Nat) : Option Nat := if beg ≤ fin then some (fin - beg) else none

def substr (s : Str) (pos : Nat) : Option Nat → Str
  | some n => (s.drop pos).take n
  | none => s.drop pos

def replace (s : Str) (pos : Nat) (n : Option Nat) (str : Str) : Str :=
  s.take pos ++ str ++
    match n with
    | some n => s.drop (pos + n)
    | none => []

/-- What a turn of the loop comes to. `beyond`: a number of characters was used that wrapped around.
-/
inductive Turn
  | stop
  | next (v : Str) (beg : Nat) (beyond : Bool)

section

variable (getenv : Str → Option Str)

/-- The value of a variable, or nothing. The name ends at its first NUL, as every C string. -/
def valueOf (vname : Str) : Str := (getenv (vname.takeWhile (· ≠ 0))).getD []

/-- One turn of the loop. `end` is the position of the last character that is replaced. -/
def turn (v : Str) (beg : Nat) : Turn :=
  match find dollar v beg with
  | none => .stop
  | some beg =>
    if beg < v.length - 1 then
      if (v.drop (beg + 1)).head? = some openBrace then
        match find closeBrace v 0 with
        | none => .stop
        | some fin =>
          let valstr := valueOf getenv (substr v (beg + 2) (count fin (beg + 2)))
          .next (replace v beg (count (fin + 1) beg) valstr) (beg + valstr.length)
            (count fin (beg + 2)).isNone
      else
        let fin := beg + 1 + ((v.drop (beg + 1)).takeWhile isName).length
        let valstr := valueOf getenv (substr v (beg + 1) (count fin (beg + 1)))
        .next (replace v beg (count fin beg) valstr) (beg + valstr.length) false
    else .stop

/-- The loop, for as many turns as given: the value, and whether a number wrapped around -/
def loop : Nat → Str → Nat → Option (Str × Bool)
  | 0, _, _ => none
  | n + 1, v, beg =>
    match turn getenv v beg with
    | .stop => some (v, false)
    | .next v beg beyond => (loop n v beg).map fun r => (r.1, beyond || r.2)

def environmentEval (n : Nat) (value : Str) : Option (Str × Bool) :=
  match find equals value 0 with
  | none => some (value, false)
  | some assignment =>
    if value.length - 1 ≤ assignment then some (value, false)
    else (loop getenv n (value.drop (assignment + 1)) 0).map fun r =>
      (value.take assignment ++ [equals] ++ r.1, r.2)

/-- The name of a reference and what is behind it, from what is behind a dollar sign. There is none
at the end, or if a brace is not closed. -/
def reference : Str → Option (Str × Str)
  | [] => none
  | c :: s =>
    if c = openBrace then
      if closeBrace ∈ s then
        some (s.takeWhile (· ≠ closeBrace), (s.dropWhile (· ≠ closeBrace)).drop 1)
      else none
    else some ((c :: s).takeWhile isName, (c :: s).dropWhile isName)

/-- The value with its references replaced from left to right -/
def expandN : Nat → Str → Str
  | 0, s => s
  | _ + 1, [] => []
  | n + 1, c :: s =>
    if c = dollar then
      match reference s with
      | none => c :: s
      | some (vname, rest) => valueOf getenv vname ++ expandN n rest
    else c :: expandN n s

def expand (s : Str) : Str := expandN getenv s.length s

/-- Nowhere before an opened brace is there a closing brace, `seen` or in the text before it with
its references replaced. -/
def clearN : Nat → Bool → Str → Bool
  | 0, _, _ => true
  | _ + 1, _, [] => true
  | n + 1, seen, c :: s =>
    if c = dollar then
      !(seen && s.head? = some openBrace) &&
        match reference s with
        | none => true
        | some (vname, rest) =>
          clearN n (seen || closeBrace ∈ valueOf getenv vname) rest
    else clearN n (seen || c = closeBrace) s

def clear (s : Str) : Bool := clearN getenv s.length false s

end

section

variable {getenv : Str → Option Str} {c : UInt8} {s out rest vname : Str}

theorem find_here : find c (out ++ c :: s) out.length = some out.length := by
  unfold find
  rw [drop_left, if_pos List.mem_cons_self, List.takeWhile_cons_of_neg (by simp)]
  rfl

theorem find_skip {d : UInt8} (h : d ≠ c) :
    find c (out ++ d :: s) out.length = find c ((out ++ [d]) ++ s) (out ++ [d]).length := by
  unfold find
  rw [drop_left, drop_left, List.takeWhile_cons_of_pos (by simpa using h),
    length_append, List.length_singleton, length_cons]
  simp only [mem_cons, h.symm, false_or]
  congr 2
  omega

theorem find_end : find c (out ++ []) out.length = none := by
  unfold find
  rw [drop_left, if_neg List.not_mem_nil]

/-- A character that is before a position is found before it. -/
theorem find_before (h : c ∈ out) : ∃ fin, find c (out ++ s) 0 = some fin ∧ fin < out.length := by
  have htake : ((out ++ s).takeWhile (· ≠ c)).length < out.length := by
    induction out with
    | nil => cases h
    | cons d out ih =>
      by_cases hd : d = c
      · rw [cons_append, List.takeWhile_cons_of_neg (by simpa using hd)]
        exact Nat.succ_pos _
      · have hmem := (mem_cons.mp h).resolve_left (Ne.symm hd)
        rw [cons_append, List.takeWhile_cons_of_pos (by simpa using hd), length_cons,
          length_cons]
        exact Nat.succ_lt_succ (ih hmem)
  refine ⟨_, if_pos ?_, ?_⟩
  · exact List.mem_append_left _ h
  · rw [Nat.zero_add]
    exact htake

/-- A character that is not before a position is found behind it. -/
theorem find_behind (h : c ∉ out) : find c (out ++ s) 0 =
    if c ∈ s then some (out.length + (s.takeWhile (· ≠ c)).length) else none := by
  have htake : (out ++ s).takeWhile (· ≠ c) = out ++ s.takeWhile (· ≠ c) := by
    apply List.takeWhile_append_of_pos
    intro d hd
    have hne : d ≠ c := by
      rintro rfl
      exact h hd
    simpa using hne
  unfold find
  rw [List.drop_zero, htake, length_append, Nat.zero_add]
  simp only [List.mem_append, h, false_or]

theorem takeWhile_dropWhile (h : c ∈ s) :
    s = s.takeWhile (· ≠ c) ++ c :: (s.dropWhile (· ≠ c)).drop 1 := by
  have hne : s.dropWhile (· ≠ c) ≠ [] := by
    rw [Ne, List.dropWhile_eq_nil_iff]
    intro hall
    exact absurd rfl (of_decide_eq_true (hall c h))
  have hhead : (s.dropWhile (· ≠ c)).head hne = c := by
    have hnot := List.head_dropWhile_not (· ≠ c) hne
    simpa using hnot
  calc
    s = s.takeWhile (· ≠ c) ++ s.dropWhile (· ≠ c) := (List.takeWhile_append_dropWhile ..).symm
    _ = s.takeWhile (· ≠ c) ++ c :: (s.dropWhile (· ≠ c)).drop 1 := by
      rw [List.drop_one]
      congr 1
      exact (List.cons_head_tail hne).symm.trans (congrArg (· :: _) hhead)

theorem turn_skip (h : c ≠ dollar) :
    turn getenv (out ++ c :: s) out.length = turn getenv ((out ++ [c]) ++ s)
      (out ++ [c]).length := by
  unfold turn
  rw [find_skip h, append_assoc, List.singleton_append]

theorem turn_end : turn getenv (out ++ []) out.length = .stop := by
  unfold turn
  rw [find_end]

theorem turn_last : turn getenv (out ++ [dollar]) out.length = .stop := by
  unfold turn
  rw [find_here]
  dsimp only
  rw [if_neg]
  simp

/-- A dollar sign that is not the last character -/
theorem before_last : out.length < (out ++ dollar :: c :: s).length - 1 := by
  simp

theorem head_behind : ((out ++ dollar :: c :: s).drop (out.length + 1)).head? = some c := by
  rw [List.drop_length_add_append]
  rfl

theorem turn_beyond (h : closeBrace ∈ out) : ∃ v beg,
    turn getenv (out ++ dollar :: openBrace :: s) out.length = .next v beg true := by
  obtain ⟨fin, hfin, hlt⟩ := @find_before closeBrace (dollar :: openBrace :: s) out h
  have hcount : count fin (out.length + 2) = none := if_neg (by omega)
  unfold turn
  rw [find_here]
  dsimp only
  rw [if_pos before_last, if_pos head_behind, hfin]
  dsimp only
  rw [hcount]
  exact ⟨_, _, rfl⟩

theorem turn_unclosed (hout : closeBrace ∉ out) (hs : closeBrace ∉ s) :
    turn getenv (out ++ dollar :: openBrace :: s) out.length = .stop := by
  have hnone : find closeBrace (out ++ dollar :: openBrace :: s) 0 = none := by
    rw [find_behind hout, if_neg]
    simp only [mem_cons, hs, or_false]
    decide
  unfold turn
  rw [find_here]
  dsimp only
  rw [if_pos before_last, if_pos head_behind, hnone]

/-- What the turn for a reference leaves -/
theorem replace_reference {raw : Str} {n : Nat} (hn : n = raw.length) (str : Str) :
    replace (out ++ (raw ++ rest)) out.length (some n) str = (out ++ str) ++ rest := by
  unfold replace
  dsimp only
  rw [take_left, hn, ← append_assoc out raw rest, ← length_append, drop_left]

theorem turn_braces (hout : closeBrace ∉ out) (hs : closeBrace ∈ s) :
    turn getenv (out ++ dollar :: openBrace :: s) out.length =
      .next ((out ++ valueOf getenv (s.takeWhile (· ≠ closeBrace))) ++
          (s.dropWhile (· ≠ closeBrace)).drop 1)
        (out ++ valueOf getenv (s.takeWhile (· ≠ closeBrace))).length false := by
  have hfind : find closeBrace (out ++ dollar :: openBrace :: s) 0 =
      some (out.length + 2 + (s.takeWhile (· ≠ closeBrace)).length) := by
    rw [find_behind hout, if_pos (List.mem_cons_of_mem _ (List.mem_cons_of_mem _ hs)),
      List.takeWhile_cons_of_pos (by decide), List.takeWhile_cons_of_pos (by decide),
      length_cons, length_cons]
    congr 1
    omega
  have hsplit := takeWhile_dropWhile hs
  generalize s.takeWhile (· ≠ closeBrace) = x at hsplit hfind ⊢
  generalize (s.dropWhile (· ≠ closeBrace)).drop 1 = r at hsplit ⊢
  have hname : count (out.length + 2 + x.length) (out.length + 2) = some x.length := by
    rw [count, if_pos (by omega)]
    congr 1
    omega
  have hcount : count (out.length + 2 + x.length + 1) out.length =
      some (dollar :: openBrace :: (x ++ [closeBrace])).length := by
    rw [count, if_pos (by omega)]
    congr 1
    simp only [length_cons, length_append, List.length_nil]
    omega
  have hsub : substr (out ++ dollar :: openBrace :: s) (out.length + 2) (some x.length) = x := by
    unfold substr
    dsimp only
    rw [List.drop_length_add_append, hsplit]
    exact take_left
  have hraw : out ++ dollar :: openBrace :: s =
      out ++ ((dollar :: openBrace :: (x ++ [closeBrace])) ++ r) := by
    rw [hsplit]
    simp
  unfold turn
  rw [find_here]
  dsimp only
  rw [if_pos before_last, if_pos head_behind, hfind]
  dsimp only
  rw [hname, hcount, hsub, hraw, replace_reference rfl, length_append]
  rfl

theorem turn_name (hc : c ≠ openBrace) :
    turn getenv (out ++ dollar :: c :: s) out.length =
      .next ((out ++ valueOf getenv ((c :: s).takeWhile isName)) ++ (c :: s).dropWhile isName)
        (out ++ valueOf getenv ((c :: s).takeWhile isName)).length false := by
  have hbehind : (out ++ dollar :: c :: s).drop (out.length + 1) = c :: s := by
    rw [List.drop_length_add_append]
    rfl
  have hsplit := (List.takeWhile_append_dropWhile (p := isName) (l := c :: s)).symm
  have hsub : substr (out ++ dollar :: c :: s) (out.length + 1)
      (some ((c :: s).takeWhile isName).length) = (c :: s).takeWhile isName := by
    unfold substr
    dsimp only
    rw [hbehind]
    calc
      (c :: s).take ((c :: s).takeWhile isName).length =
          ((c :: s).takeWhile isName ++ (c :: s).dropWhile isName).take
            ((c :: s).takeWhile isName).length := congrArg (List.take _) hsplit
      _ = (c :: s).takeWhile isName := take_left
  have hname : count (out.length + 1 + ((c :: s).takeWhile isName).length) (out.length + 1) =
      some ((c :: s).takeWhile isName).length := by
    rw [count, if_pos (by omega)]
    congr 1
    omega
  have hcount : count (out.length + 1 + ((c :: s).takeWhile isName).length) out.length =
      some (dollar :: (c :: s).takeWhile isName).length := by
    rw [count, if_pos (by omega), length_cons]
    congr 1
    omega
  have hraw : out ++ dollar :: c :: s =
      out ++ ((dollar :: (c :: s).takeWhile isName) ++ (c :: s).dropWhile isName) := by
    rw [cons_append, ← hsplit]
  unfold turn
  rw [find_here]
  dsimp only
  rw [if_pos before_last, hbehind, if_neg (by simpa using hc), hname, hcount, hsub]
  conv_lhs => rw [hraw]
  rw [replace_reference rfl, length_append]

theorem loop_skip (h : c ≠ dollar) (n : Nat) :
    loop getenv n (out ++ c :: s) out.length =
      loop getenv n ((out ++ [c]) ++ s) (out ++ [c]).length := by
  cases n with
  | zero => rfl
  | succ n =>
    unfold loop
    rw [turn_skip h, append_assoc, List.singleton_append]

theorem loop_stop {v : Str} {beg : Nat} (h : turn getenv v beg = .stop) (n : Nat) :
    loop getenv (n + 1) v beg = some (v, false) := by
  unfold loop
  rw [h]

theorem loop_next {v w : Str} {beg fin : Nat} {beyond : Bool}
    (h : turn getenv v beg = .next w fin beyond) (n : Nat) :
    loop getenv (n + 1) v beg = (loop getenv n w fin).map fun r => (r.1, beyond || r.2) := by
  conv_lhs => unfold loop
  rw [h]

theorem reference_none (h : reference s = none) :
    s = [] ∨ ∃ t, s = openBrace :: t ∧ closeBrace ∉ t := by
  cases s with
  | nil => exact .inl rfl
  | cons c s =>
    simp only [reference] at h
    split at h
    next hc =>
      split at h
      · cases h
      next hs => exact .inr ⟨s, by rw [hc], hs⟩
    · cases h

section

variable (hclear : ¬ (closeBrace ∈ out ∧ s.head? = some openBrace))

include hclear

/-- Where nothing is in the way, a turn replaces a reference as it is meant. -/
theorem turn_reference
    (h : reference s = some (vname, rest)) :
    turn getenv (out ++ dollar :: s) out.length =
      .next ((out ++ valueOf getenv vname) ++ rest) (out ++ valueOf getenv vname).length
        false := by
  cases s with
  | nil => cases h
  | cons c s =>
    simp only [reference] at h
    split at h
    next hc =>
      subst hc
      split at h
      next hs =>
        cases h
        exact turn_braces (fun hmem => hclear ⟨hmem, rfl⟩) hs
      · cases h
    next hc =>
      cases h
      exact turn_name hc

theorem turn_unreferenced
    (h : reference s = none) : turn getenv (out ++ dollar :: s) out.length = .stop := by
  rcases reference_none h with rfl | ⟨t, rfl, ht⟩
  · exact turn_last
  · exact turn_unclosed (fun hmem => hclear ⟨hmem, rfl⟩) ht

end

theorem reference_length (h : reference s = some (vname, rest)) : rest.length ≤ s.length := by
  cases s with
  | nil => cases h
  | cons c s =>
    simp only [reference] at h
    split at h
    · split at h
      · cases h
        rw [List.length_drop]
        have hdrop := (List.dropWhile_sublist (p := (· ≠ closeBrace)) (l := s)).length_le
        simp only [length_cons]
        omega
      · cases h
    · cases h
      exact (List.dropWhile_sublist _).length_le

theorem seen_append : decide (closeBrace ∈ out ++ s) =
    (decide (closeBrace ∈ out) || decide (closeBrace ∈ s)) := by
  rw [← Bool.decide_or]
  exact decide_eq_decide.mpr List.mem_append

theorem seen_singleton : decide (closeBrace ∈ out ++ [c]) =
    (decide (closeBrace ∈ out) || decide (c = closeBrace)) := by
  rw [seen_append]
  congr 1
  exact decide_eq_decide.mpr (List.mem_singleton.trans eq_comm)

/-- The loop, started behind text that is done with, leaves the text and the rest expanded. -/
theorem loop_expand (n : Nat) : ∀ out s : Str, s.length ≤ n →
    clearN getenv n (closeBrace ∈ out) s = true →
    ∃ m, loop getenv m (out ++ s) out.length = some (out ++ expandN getenv n s, false) := by
  induction n with
  | zero =>
    intro out s hlen _
    obtain rfl := List.length_eq_zero_iff.mp (Nat.le_zero.mp hlen)
    exact ⟨1, loop_stop turn_end 0⟩
  | succ n ih =>
    intro out s hlen hclear
    cases s with
    | nil => exact ⟨1, loop_stop turn_end 0⟩
    | cons c s =>
      have hfuel : s.length ≤ n := Nat.le_of_succ_le_succ hlen
      unfold clearN at hclear
      unfold expandN
      by_cases hc : c = dollar
      · subst hc
        rw [if_pos rfl] at hclear ⊢
        obtain ⟨hbefore, hclear⟩ := (Bool.and_eq_true _ _).mp hclear
        have hbefore : ¬ (closeBrace ∈ out ∧ s.head? = some openBrace) := by
          simpa [imp_iff_not_or] using hbefore
        cases href : reference s with
        | none => exact ⟨1, loop_stop (turn_unreferenced hbefore href) 0⟩
        | some r =>
          obtain ⟨vname, rest⟩ := r
          rw [href] at hclear
          have hrest := (reference_length href).trans hfuel
          obtain ⟨m, hm⟩ := ih (out ++ valueOf getenv vname) rest hrest
            (by rwa [seen_append])
          refine ⟨m + 1, ?_⟩
          rw [loop_next (turn_reference hbefore href), hm, append_assoc]
          rfl
      · rw [if_neg hc] at hclear ⊢
        obtain ⟨m, hm⟩ := ih (out ++ [c]) s hfuel (by rwa [seen_singleton])
        refine ⟨m, ?_⟩
        rw [loop_skip hc, hm, append_assoc]
        rfl

/-- Where a closing brace is in the way, what the loop leaves, if anything, used a number that
wrapped around. -/
theorem loop_beyond (n : Nat) : ∀ (out s : Str) (m : Nat) (r : Str × Bool),
    clearN getenv n (closeBrace ∈ out) s = false →
    loop getenv m (out ++ s) out.length = some r → r.2 = true := by
  induction n with
  | zero =>
    intro out s m r hclear
    cases hclear
  | succ n ih =>
    intro out s m r hclear hloop
    cases s with
    | nil => cases hclear
    | cons c s =>
      unfold clearN at hclear
      by_cases hc : c = dollar
      · subst hc
        rw [if_pos rfl] at hclear
        cases m with
        | zero => cases hloop
        | succ m =>
          by_cases hbefore : closeBrace ∈ out ∧ s.head? = some openBrace
          · obtain ⟨hmem, hhead⟩ := hbefore
            obtain ⟨t, rfl⟩ := List.head?_eq_some_iff.mp hhead
            obtain ⟨v, beg, hturn⟩ := @turn_beyond getenv t out hmem
            rw [loop_next hturn] at hloop
            obtain ⟨q, _, rfl⟩ := Option.map_eq_some_iff.mp hloop
            rfl
          · cases href : reference s with
            | none =>
              rw [href] at hclear
              simp only [Bool.and_true, Bool.not_eq_false', Bool.and_eq_true,
                decide_eq_true_eq] at hclear
              exact absurd hclear hbefore
            | some q =>
              obtain ⟨vname, rest⟩ := q
              rw [href] at hclear
              rw [loop_next (turn_reference hbefore href)] at hloop
              obtain ⟨q, hq, rfl⟩ := Option.map_eq_some_iff.mp hloop
              apply ih (out ++ valueOf getenv vname) rest m q _ hq
              have hnot : (decide (closeBrace ∈ out) && decide (s.head? = some openBrace)) =
                  false := by simpa using hbefore
              rw [hnot] at hclear
              rw [seen_append]
              simpa using hclear
      · rw [if_neg hc] at hclear
        rw [loop_skip hc] at hloop
        exact ih (out ++ [c]) s m r (by rwa [seen_singleton]) hloop

theorem find_equals {name : Str} (hname : equals ∉ name) (v : Str) :
    find equals (name ++ equals :: v) 0 = some name.length := by
  rw [find_behind hname, if_pos List.mem_cons_self, List.takeWhile_cons_of_neg (by decide)]
  rfl

/-- What an assignment is made of -/
theorem environmentEval_assignment {name : Str} (hname : equals ∉ name) (n : Nat) (v : Str) :
    environmentEval getenv n (name ++ equals :: v) =
      if v = [] then some (name ++ [equals], false)
      else (loop getenv n v 0).map fun r => (name ++ equals :: r.1, r.2) := by
  unfold environmentEval
  rw [find_equals hname]
  dsimp only
  rw [List.drop_length_add_append, take_left]
  by_cases hv : v = []
  · rw [if_pos hv, if_pos (by simp [hv]), hv]
  · have hpos := List.length_pos_iff.mpr hv
    rw [if_neg hv, if_neg (by simp only [length_append, length_cons]; omega)]
    simp

/-- An assignment is expanded as it is meant, and the loop ends without a number that wraps around,
exactly if no closing brace is before a reference in braces. -/
theorem environmentEval_iff {name : Str} (hname : equals ∉ name) (v : Str) :
    (∃ n, environmentEval getenv n (name ++ equals :: v) =
        some (name ++ equals :: expand getenv v, false)) ↔ clear getenv v = true := by
  constructor
  · rintro ⟨n, hn⟩
    rw [environmentEval_assignment hname] at hn
    by_contra hclear
    have hclear : clearN getenv v.length (closeBrace ∈ ([] : Str)) v = false := by
      simpa [clear] using hclear
    split at hn
    next hv =>
      subst hv
      cases hclear
    · obtain ⟨r, hr, heq⟩ := Option.map_eq_some_iff.mp hn
      have htrue := loop_beyond v.length [] v n r hclear hr
      rw [Prod.mk.injEq] at heq
      rw [heq.2] at htrue
      cases htrue
  · intro hclear
    by_cases hv : v = []
    · refine ⟨0, ?_⟩
      rw [environmentEval_assignment hname, if_pos hv, hv]
      rfl
    · obtain ⟨m, hm⟩ := loop_expand v.length [] v (Nat.le_refl _) (by simpa [clear] using hclear)
      refine ⟨m, ?_⟩
      rw [environmentEval_assignment hname, if_neg hv]
      rw [nil_append, List.length_nil] at hm
      rw [hm]
      rfl

/-- An assignment to a variable that has a value -/
theorem environmentEval_path :
    ∃ n, environmentEval (fun _ => some [47]) n ([80] ++ equals :: [36, 123, 72, 125, 46]) =
      some ([80] ++ equals :: [47, 46], false) := by
  have hexpand : expand (fun _ => some [47]) [36, 123, 72, 125, 46] = [47, 46] := by decide
  rw [← hexpand]
  exact (environmentEval_iff (by decide) _).mpr (by decide)

/-- The loop never ends for a closing brace that is followed by a reference in braces. -/
theorem environmentEval_unended : ¬∃ n result,
    environmentEval (fun _ => none) n ([65] ++ equals :: [125, 36, 123, 66, 125]) =
      some result := by
  have hloop : ∀ n, loop (fun _ => none) n [125, 36, 123, 66, 125] 1 = none := by
    intro n
    induction n with
    | zero => rfl
    | succ n ih =>
      have hturn : turn (fun _ => none) [125, 36, 123, 66, 125] 1 =
          .next [125, 36, 123, 66, 125] 1 true := rfl
      rw [loop_next hturn, ih]
      rfl
  rintro ⟨n, result, h⟩
  rw [environmentEval_assignment (by decide), if_neg (by simp)] at h
  have hskip := @loop_skip (fun _ => none) closeBrace [36, 123, 66, 125] [] (by decide) n
  rw [nil_append, nil_append] at hskip
  have hnone : loop (fun _ => none) n [125, 36, 123, 66, 125] 0 = none := hskip.trans (hloop n)
  rw [hnone] at h
  cases h

end

end Ice.IceGrid.EnvironmentEval
