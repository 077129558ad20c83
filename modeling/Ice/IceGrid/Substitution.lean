import Mathlib.Data.List.TakeWhile
import Ice.IceGrid.Resolver

/-!
# Reading a string with variables

What a string with references and escapes stands for is told token by token. `substitute` comes to
the same from left to right, as long as the `$` it leaves of one run stay apart from the next run
and the position behind an escape stays before the next reference.
-/

namespace Ice.IceGrid.Resolver

open List (append_assoc append_nil cons_append drop_left findIdx?_cons flatMap_cons
  getElem?_append_right length_append length_cons length_drop length_replicate length_singleton
  replicate replicate_succ' singleton_append)

/-- `${` stands at a position. -/
def BeginsAt (s : Str) (i : Nat) : Prop :=
  s[i]? = some '$' ∧ s[i + 1]? = some '\x7b'

/-- A part of a string -/
inductive Token
  | text (s : Str)
  /-- A run of `$`, the last of which escapes the brace behind the run. -/
  | escaped (run : Nat)
  /-- A run of `$`, the last of which begins a reference. -/
  | reference (run : Nat) (name : Str)
  /-- A reference without its end -/
  | malformed (run : Nat) (s : Str)
  deriving DecidableEq, Repr

/-- How many `$` are in front -/
def dollars (s : Str) : Nat :=
  (s.takeWhile (· = '$')).length

/-- The parts of a string, from left to right -/
def tokens (s : Str) : List Token :=
  match _hrest : s.drop (dollars s) with
  | [] => [.text s]
  | c :: rest =>
    if c = '\x7b' ∧ 0 < dollars s then
      if dollars s % 2 = 0 then .escaped (dollars s) :: tokens rest
      else
        match rest.findIdx? (· = '\x7d') with
        | none => [.malformed (dollars s) rest]
        | some j => .reference (dollars s) (rest.take j) :: tokens (rest.drop (j + 1))
    else .text (replicate (dollars s) '$' ++ [c]) :: tokens rest
termination_by s.length
decreasing_by
  all_goals
    have hlength := congrArg List.length _hrest
    rw [length_drop, length_cons] at hlength
    try rw [length_drop]
    omega

/-- A token as it stands in the string -/
def Token.written : Token → Str
  | .text s => s
  | .escaped run => replicate run '$' ++ ['\x7b']
  | .reference run name => replicate run '$' ++ '\x7b' :: name ++ ['\x7d']
  | .malformed run s => replicate run '$' ++ '\x7b' :: s

/-- What a token stands for -/
def translateToken (resolver : Resolver) (useParams useIgnored : Bool) : Token → Option Str
  | .text s => some s
  | .escaped run =>
    some (replicate (if resolver.escape then run / 2 else run) '$' ++ ['\x7b'])
  | .reference run name =>
    if name ∈ resolver.ignore then
      if useIgnored then some (replicate (run / 2) '$' ++ "$\x7b".toList ++ name ++ ['\x7d'])
      else none
    else
      match resolver.getVariable name useParams with
      | .error _ => none
      | .ok (val, _) => some (replicate (run / 2) '$' ++ val)
  | .malformed _ _ => none

/-- What tokens stand for -/
def translateTokens (resolver : Resolver) (useParams useIgnored : Bool) : List Token → Option Str
  | [] => some []
  | t :: ts => do
    let first ← resolver.translateToken useParams useIgnored t
    let rest ← resolver.translateTokens useParams useIgnored ts
    return first ++ rest

/-- Whether the `$` that a reference leaves in front of a token do not change it -/
def Token.Apart (resolver : Resolver) (left : Nat) : Token → Prop
  | .text _ => True
  | .escaped _ => resolver.escape = false ∧ left % 2 = 0
  | .reference _ _ => False
  | .malformed _ _ => False

/-- The tokens do not disturb each other, up to the first that stands for nothing. -/
structure Undisturbed (resolver : Resolver) (useParams useIgnored : Bool) (ts : List Token) :
    Prop where
  /-- No reference and no escape begins in the part that the position skips behind an escape. -/
  skipped : ∀ before after run w, ts = before ++ .escaped run :: after →
    resolver.translateTokens useParams useIgnored before = some w → resolver.escape = true →
    ∀ i, BeginsAt (after.flatMap Token.written) i → run / 2 ≤ i + 1
  /-- Behind an empty value, what is left of the run does not run into the next. -/
  merged : ∀ before after run name param next w,
    ts = before ++ .reference run name :: next :: after →
    resolver.translateTokens useParams useIgnored before = some w → 2 ≤ run →
    name ∉ resolver.ignore → resolver.getVariable name useParams = .ok ([], param) →
    next.Apart resolver (run / 2)

variable {resolver : Resolver} {useParams useIgnored : Bool} {s out rest value : Str}
  {beg beg' i k skip : Nat} {c : Char}

theorem dollars_append (hc : c ≠ '$') : dollars (replicate k '$' ++ c :: rest) = k := by
  unfold dollars
  rw [List.takeWhile_append_of_pos, List.takeWhile_cons_of_neg, append_nil,
    length_replicate]
  · simpa using hc
  · intro x hx
    simpa using List.eq_of_mem_replicate hx

/-- A string is a run of `$`, or goes on behind it. -/
theorem dollars_cases (s : Str) : s = replicate (dollars s) '$' ∨
    ∃ c rest, c ≠ '$' ∧ s = replicate (dollars s) '$' ++ c :: rest := by
  have hrun : s.takeWhile (· = '$') = replicate (dollars s) '$' := by
    apply List.eq_replicate_iff.mpr
    constructor
    · rfl
    · intro x hx
      simpa using List.mem_takeWhile_imp hx
  have happend := List.takeWhile_append_dropWhile (p := (· = '$')) (l := s)
  rw [hrun] at happend
  cases hdrop : s.dropWhile (· = '$') with
  | nil =>
    rw [hdrop, append_nil] at happend
    exact Or.inl happend.symm
  | cons c rest =>
    rw [hdrop] at happend
    refine Or.inr ⟨c, rest, ?_, happend.symm⟩
    rintro rfl
    have hhead := List.head?_dropWhile_not (fun c => decide (c = '$')) s
    rw [hdrop] at hhead
    simp at hhead

theorem tokens_replicate (k : Nat) : tokens (replicate k '$') = [.text (replicate k '$')] := by
  have hdollars : dollars (replicate k '$') = k := by
    unfold dollars
    rw [List.takeWhile_replicate]
    simp
  rw [tokens]
  split
  · rfl
  · rename_i heq
    rw [hdollars, List.drop_replicate, Nat.sub_self] at heq
    cases heq

theorem tokens_append (hc : c ≠ '$') : tokens (replicate k '$' ++ c :: rest) =
    if c = '\x7b' ∧ 0 < k then
      if k % 2 = 0 then .escaped k :: tokens rest
      else
        match rest.findIdx? (· = '\x7d') with
        | none => [.malformed k rest]
        | some j => .reference k (rest.take j) :: tokens (rest.drop (j + 1))
    else .text (replicate k '$' ++ [c]) :: tokens rest := by
  have hdrop : (replicate k '$' ++ c :: rest).drop k = c :: rest :=
    List.drop_left' length_replicate
  rw [tokens]
  split
  · rename_i heq
    rw [dollars_append hc, hdrop] at heq
    cases heq
  · rename_i heq
    rw [dollars_append hc, hdrop] at heq
    cases heq
    rw [dollars_append hc]

/-- A reference ends at the first closing brace. -/
theorem split_brace (h : rest.findIdx? (· = '\x7d') = some i) :
    rest.take i ++ '\x7d' :: rest.drop (i + 1) = rest ∧ '\x7d' ∉ rest.take i := by
  obtain ⟨hi, hend, hbefore⟩ := List.findIdx?_eq_some_iff_getElem.mp h
  constructor
  · have hclose : rest[i] = '\x7d' := of_decide_eq_true hend
    rw [← hclose, ← List.drop_eq_getElem_cons hi, List.take_append_drop]
  · intro hmem
    obtain ⟨j, hj, heq⟩ := List.mem_take_iff_getElem.mp hmem
    exact hbefore j (by omega) (decide_eq_true heq)

theorem written_tokens (s : Str) : (tokens s).flatMap Token.written = s := by
  induction hn : s.length using Nat.strongRecOn generalizing s with
  | ind n ih =>
    rcases dollars_cases s with heq | ⟨c, rest, hc, heq⟩
    · rw [heq, tokens_replicate]
      exact append_nil _
    · generalize dollars s = k at heq
      subst heq
      rw [length_append, length_replicate, length_cons] at hn
      rw [tokens_append hc]
      split
      · rename_i hbrace
        rw [hbrace.1]
        split
        · rw [flatMap_cons, ih _ (by omega) rest rfl, Token.written, append_assoc]
          rfl
        · split
          · exact append_nil _
          · rename_i j hfind
            obtain ⟨hsplit, -⟩ := split_brace hfind
            have hlength : (rest.drop (j + 1)).length < n := by
              rw [length_drop]
              omega
            rw [flatMap_cons, ih _ hlength _ rfl, Token.written]
            rw [append_assoc, append_assoc, cons_append, singleton_append, hsplit]
      · rw [flatMap_cons, ih _ (by omega) rest rfl, Token.written, append_assoc]
        rfl

/-- Where the next reference or escape begins -/
def position (value : Str) (beg : Nat) : Option Nat :=
  (findReference (value.drop beg)).map (beg + ·)

theorem position_of_beginsAt (h : BeginsAt value beg) : position value beg = some beg := by
  obtain ⟨hdollar, hbrace⟩ := h
  obtain ⟨hlt, hget⟩ := List.getElem?_eq_some_iff.mp hdollar
  unfold position
  rw [List.drop_eq_getElem_cons hlt, hget, findReference, List.head?_drop, hbrace,
    if_pos ⟨rfl, rfl⟩]
  rfl

theorem position_succ (h : ¬BeginsAt value beg) :
    position value beg = position value (beg + 1) := by
  unfold position
  by_cases hlt : beg < value.length
  · have hnot : ¬(value[beg] = '$' ∧ value[beg + 1]? = some '\x7b') := by
      rintro ⟨hdollar, hbrace⟩
      exact h ⟨by rw [List.getElem?_eq_getElem hlt, hdollar], hbrace⟩
    rw [List.drop_eq_getElem_cons hlt, findReference, List.head?_drop, if_neg hnot, Option.map_map]
    congr 1
    ext i
    dsimp only [Function.comp_apply]
    omega
  · rw [List.drop_of_length_le (by omega), List.drop_of_length_le (by omega)]
    rfl

/-- The next reference is not before the first one. -/
theorem position_eq (hle : beg ≤ beg') (h : ∀ q, beg ≤ q → q < beg' → ¬BeginsAt value q) :
    position value beg = position value beg' := by
  induction beg', hle using Nat.le_induction with
  | base => rfl
  | succ beg' hle ih =>
    rw [ih fun q hq hlt => h q hq (by omega)]
    exact position_succ (h beg' hle (by omega))

section

variable (h : position value beg = position value beg')

include h

theorem turn_congr :
    resolver.turn useParams useIgnored value beg =
      resolver.turn useParams useIgnored value beg' := by
  unfold position at h
  unfold turn
  cases hfind : findReference (value.drop beg) with
  | none =>
    rw [hfind] at h
    rw [Option.map_eq_none_iff.mp h.symm]
  | some i =>
    rw [hfind] at h
    obtain ⟨i', hi', heq⟩ := Option.map_eq_some_iff.mp h.symm
    dsimp only at heq
    rw [hi']
    dsimp only
    rw [heq]

theorem substituteLoop_congr {nested : Str → Except SubstituteError Str} :
    resolver.substituteLoop useParams useIgnored nested value beg =
      resolver.substituteLoop useParams useIgnored nested value beg' := by
  rw [substituteLoop_eq, turn_congr h, ← substituteLoop_eq]

end

theorem dollars_replicate_append (k : Nat) (s : Str) :
    dollars (replicate k '$' ++ s) = k + dollars s := by
  induction k with
  | zero => rw [Nat.zero_add, List.replicate_zero, List.nil_append]
  | succ k ih =>
    unfold dollars at ih ⊢
    rw [List.replicate_succ, cons_append, List.takeWhile_cons_of_pos rfl, length_cons]
    omega

theorem dollarsBefore_append (out : Str) (k : Nat) (s : Str) :
    dollarsBefore (out ++ (replicate k '$' ++ s)) (out.length + k) = dollars out.reverse + k := by
  have htake : (out ++ (replicate k '$' ++ s)).take (out.length + k) =
      out ++ replicate k '$' := by
    rw [← append_assoc]
    apply List.take_left'
    rw [length_append, length_replicate]
  unfold dollarsBefore
  rw [htake, List.reverse_append, List.reverse_replicate]
  exact (dollars_replicate_append k out.reverse).trans (Nat.add_comm ..)

theorem replace_append {xs ys zs new : Str} {start n : Nat} (hstart : start = xs.length)
    (hn : n = ys.length) : replace (xs ++ (ys ++ zs)) start n new = xs ++ (new ++ zs) := by
  unfold replace
  rw [hstart, hn, List.take_left, ← List.drop_drop, drop_left, drop_left,
    append_assoc]

theorem beginsAt_append (out s : Str) (i : Nat) :
    BeginsAt (out ++ s) (out.length + i) ↔ BeginsAt s i := by
  unfold BeginsAt
  rw [getElem?_append_right (by omega), getElem?_append_right (by omega),
    Nat.add_sub_cancel_left, Nat.add_assoc, Nat.add_sub_cancel_left]

theorem beginsAt_run (k : Nat) (rest : Str) :
    BeginsAt (replicate (k + 1) '$' ++ '\x7b' :: rest) k := by
  constructor
  · rw [List.getElem?_append_left (by rw [length_replicate]; omega),
      List.getElem?_replicate_of_lt (by omega)]
  · rw [getElem?_append_right (by rw [length_replicate]), length_replicate,
      Nat.sub_self]
    rfl

/-- The loop at the end of a run of `$` -/
theorem turn_run (out : Str) (k : Nat) (rest : Str) :
    let value := out ++ (replicate (k + 1) '$' ++ '\x7b' :: rest)
    let run := dollars out.reverse + k
    let halved := replace value (out.length + k - run) run (replicate (run / 2) '$')
    resolver.turn useParams useIgnored value (out.length + k) =
      if run % 2 = 1 then
        .next (if resolver.escape then halved else value) (out.length + k + 1)
      else resolver.reference useParams useIgnored halved (out.length + k - run / 2) := by
  intro value run halved
  have hbegins : BeginsAt value (out.length + k) := (beginsAt_append ..).mpr (beginsAt_run k rest)
  have hfind := position_of_beginsAt hbegins
  unfold position at hfind
  obtain ⟨i, hi, heq⟩ := Option.map_eq_some_iff.mp hfind
  have hzero : i = 0 := by omega
  have hrun : dollarsBefore value (out.length + k) = run := by
    have hvalue : value = out ++ (replicate k '$' ++ '$' :: '\x7b' :: rest) := by
      dsimp only [value]
      rw [replicate_succ', append_assoc, singleton_append]
    rw [hvalue]
    exact dollarsBefore_append ..
  unfold turn
  rw [hi, hzero]
  dsimp only
  rw [Nat.add_zero, hrun]

/-- The run of an escape -/
theorem turn_escaped (hodd : k % 2 = 1) (hleft : dollars out.reverse = 0) :
    resolver.turn useParams useIgnored (out ++ (replicate (k + 1) '$' ++ '\x7b' :: rest))
      (out.length + k) =
      .next (out ++ (replicate (if resolver.escape then k / 2 + 1 else k + 1) '$' ++
        '\x7b' :: rest)) (out.length + k + 1) := by
  rw [turn_run, hleft, Nat.zero_add, if_pos hodd]
  split
  · rename_i hescape
    rw [replicate_succ', append_assoc, replace_append (by omega)
      (by rw [length_replicate]), ← append_assoc (replicate (k / 2) '$'),
      ← replicate_succ']
  · rfl

/-- The run of an escape that is kept -/
theorem turn_kept (hodd : k % 2 = 1) (hescape : resolver.escape = false)
    (hleft : dollars out.reverse % 2 = 0) :
    resolver.turn useParams useIgnored (out ++ (replicate (k + 1) '$' ++ '\x7b' :: rest))
      (out.length + k) =
      .next (out ++ (replicate (k + 1) '$' ++ '\x7b' :: rest)) (out.length + k + 1) := by
  rw [turn_run, if_pos (by omega), hescape]
  rfl

/-- The run of a reference -/
theorem turn_reference (heven : k % 2 = 0) (hleft : dollars out.reverse = 0) :
    resolver.turn useParams useIgnored (out ++ (replicate (k + 1) '$' ++ '\x7b' :: rest))
      (out.length + k) =
      resolver.reference useParams useIgnored
        ((out ++ replicate (k / 2) '$') ++ '$' :: '\x7b' :: rest)
        (out ++ replicate (k / 2) '$').length := by
  have hposition : out.length + k - k / 2 = (out ++ replicate (k / 2) '$').length := by
    rw [length_append, length_replicate]
    omega
  rw [turn_run, hleft, Nat.zero_add, if_neg (by omega), hposition, replicate_succ',
    append_assoc, replace_append (by omega) (by rw [length_replicate]),
    append_assoc, singleton_append]

theorem findIdx?_brace (rest : Str) : ('$' :: '\x7b' :: rest).findIdx? (· = '\x7d') =
    (rest.findIdx? (· = '\x7d')).map (· + 2) := by
  rw [findIdx?_cons, if_neg (by decide), findIdx?_cons, if_neg (by decide),
    Option.map_map]
  rfl

/-- The reference behind what is before it -/
theorem reference_eq (pre name rest : Str) (hname : '\x7d' ∉ name) :
    resolver.reference useParams useIgnored (pre ++ '$' :: '\x7b' :: (name ++ '\x7d' :: rest))
      pre.length =
      if name ∈ resolver.ignore then
        if useIgnored then
          .next (pre ++ '$' :: '\x7b' :: (name ++ '\x7d' :: rest)) (pre.length + 1)
        else
          .throws ("use of the `".toList ++ name ++ "' variable is now allowed here".toList)
      else
        match resolver.getVariable name useParams with
        | .error what => .throws what
        | .ok (val, true) => .next (pre ++ (val ++ rest)) (pre.length + val.length)
        | .ok (val, false) =>
          .resolve name val (pre ++ '$' :: '\x7b' :: (name ++ '\x7d' :: rest)) pre.length
            (pre.length + (name.length + 2)) := by
  have hfind : (name ++ '\x7d' :: rest).findIdx? (· = '\x7d') = some name.length := by
    rw [List.findIdx?_append, List.findIdx?_eq_none_iff.mpr, Option.none_or, findIdx?_cons,
      if_pos (by decide)]
    · simp
    · intro c hc
      simp only [decide_eq_false_iff_not]
      rintro rfl
      exact hname hc
  unfold reference
  rw [drop_left, findIdx?_brace, hfind]
  dsimp only [Option.map_some]
  have htake : ((pre ++ '$' :: '\x7b' :: (name ++ '\x7d' :: rest)).drop (pre.length + 2)).take
      (pre.length + (name.length + 2) - pre.length - 2) = name := by
    rw [← List.drop_drop, drop_left, Nat.add_sub_cancel_left, Nat.add_sub_cancel]
    exact List.take_left
  have hreplace (val : Str) : replace (pre ++ '$' :: '\x7b' :: (name ++ '\x7d' :: rest)) pre.length
      (pre.length + (name.length + 2) - pre.length + 1) val = pre ++ (val ++ rest) := by
    have hsplit : '$' :: '\x7b' :: (name ++ '\x7d' :: rest) =
        ('$' :: '\x7b' :: name ++ ['\x7d']) ++ rest := by simp
    rw [hsplit]
    apply replace_append rfl
    simp
  rw [htake]
  split
  · rfl
  · cases hval : resolver.getVariable name useParams with
    | error what => rfl
    | ok found =>
      obtain ⟨val, param⟩ := found
      cases param with
      | false => rfl
      | true =>
        dsimp only
        rw [hreplace]

theorem reference_malformed (pre rest : Str) (h : rest.findIdx? (· = '\x7d') = none) :
    ∃ what, resolver.reference useParams useIgnored (pre ++ '$' :: '\x7b' :: rest) pre.length =
      .throws what := by
  unfold reference
  rw [drop_left, findIdx?_brace, h]
  exact ⟨_, rfl⟩

/-- Nothing is left to replace. -/
theorem substituteLoop_done {nested : Str → Except SubstituteError Str}
    (h : ∀ q, beg ≤ q → ¬BeginsAt value q) :
    resolver.substituteLoop useParams useIgnored nested value beg = .ok value := by
  have hposition : position value beg = none := by
    rw [position_eq (Nat.le_add_right beg value.length) fun q hq _ => h q hq, position,
      List.drop_of_length_le (by omega)]
    rfl
  have hfind : findReference (value.drop beg) = none := Option.map_eq_none_iff.mp hposition
  rw [substituteLoop_eq]
  unfold turn
  rw [hfind]

variable {x : Str}

theorem not_beginsAt_of_get (h : ∀ c, x[i]? = some c → c ≠ '$') : ¬BeginsAt x i :=
  fun hbegins => h _ hbegins.1 rfl

/-- No reference begins in a part without `$`. -/
theorem not_beginsAt_of_notMem {x y : Str} (h : '$' ∉ x) (hi : i < x.length) :
    ¬BeginsAt (x ++ y) i := by
  rintro ⟨hdollar, -⟩
  rw [List.getElem?_append_left hi] at hdollar
  exact h (List.mem_of_getElem? hdollar)

/-- No reference begins before the end of a run. -/
theorem not_beginsAt_run (hi : i < k) (y : Str) :
    ¬BeginsAt (replicate (k + 1) '$' ++ y) i := by
  rintro ⟨-, hbrace⟩
  rw [List.getElem?_append_left (by rw [length_replicate]; omega),
    List.getElem?_replicate_of_lt (by omega)] at hbrace
  cases hbrace

variable {t : Token} {ts : List Token}

theorem translateTokens_cons {x r : Str}
    (ht : resolver.translateToken useParams useIgnored t = some x)
    (hts : ∃ w, resolver.translateTokens useParams useIgnored ts = some w ∧ r = out ++ x ++ w) :
    ∃ w, resolver.translateTokens useParams useIgnored (t :: ts) = some w ∧ r = out ++ w := by
  obtain ⟨w, hw, rfl⟩ := hts
  refine ⟨x ++ w, ?_, append_assoc ..⟩
  rw [translateTokens, ht, hw]
  rfl

/-- What the loop relies on at the beginning of tokens; the position is `skip` behind that. -/
structure Ready (resolver : Resolver) (useParams useIgnored : Bool) (out rest : Str) (skip : Nat) :
    Prop where
  values : ∀ run name val param, .reference run name ∈ tokens rest →
    resolver.getVariable name useParams = .ok (val, param) → '$' ∉ val
  undisturbed : Undisturbed resolver useParams useIgnored (tokens rest)
  skipped : ∀ i, BeginsAt rest i → skip ≤ i
  left : dollars out.reverse = 0 ∨
    ∀ next after, tokens rest = next :: after → next.Apart resolver (dollars out.reverse)

theorem Undisturbed.tail {x : Str} (h : Undisturbed resolver useParams useIgnored (t :: ts))
    (hx : resolver.translateToken useParams useIgnored t = some x) :
    Undisturbed resolver useParams useIgnored ts := by
  have hcons {before : List Token} {w : Str}
      (hw : resolver.translateTokens useParams useIgnored before = some w) :
      resolver.translateTokens useParams useIgnored (t :: before) = some (x ++ w) := by
    rw [translateTokens, hx, hw]
    rfl
  constructor
  · intro before after run w heq hw
    exact h.skipped (t :: before) after run _ (by rw [heq, cons_append]) (hcons hw)
  · intro before after run name param next w heq hw
    exact h.merged (t :: before) after run name param next _ (by rw [heq, cons_append]) (hcons hw)

theorem Ready.next {out' rest' : Str} {skip' : Nat} {x : Str}
    (h : Ready resolver useParams useIgnored out rest skip) (ht : tokens rest = t :: tokens rest')
    (hx : resolver.translateToken useParams useIgnored t = some x)
    (hskip : ∀ i, BeginsAt rest' i → skip' ≤ i)
    (hleft : dollars out'.reverse = 0 ∨
      ∀ next after, tokens rest' = next :: after → next.Apart resolver (dollars out'.reverse)) :
    Ready resolver useParams useIgnored out' rest' skip' := by
  constructor
  · intro run name val param hmem
    exact h.values run name val param (by rw [ht]; exact List.mem_cons_of_mem _ hmem)
  · have hundisturbed := h.undisturbed
    rw [ht] at hundisturbed
    exact hundisturbed.tail hx
  · exact hskip
  · exact hleft

theorem dollars_of_getLast (hc : c ≠ '$') : dollars (x ++ [c]).reverse = 0 := by
  rw [List.reverse_append, List.reverse_singleton, singleton_append, dollars,
    List.takeWhile_cons_of_neg (by simpa using hc), List.length_nil]

variable {nested : Str → Except SubstituteError Str} {r : Str}

/-- The loop comes from a run of `$` before a brace to its last `$`. -/
theorem Ready.loop_run (h : Ready resolver useParams useIgnored out
      (replicate (k + 1) '$' ++ '\x7b' :: rest) skip) :
    resolver.substituteLoop useParams useIgnored nested
      (out ++ (replicate (k + 1) '$' ++ '\x7b' :: rest)) (out.length + skip) =
    resolver.substituteLoop useParams useIgnored nested
      (out ++ (replicate (k + 1) '$' ++ '\x7b' :: rest)) (out.length + k) := by
  have hskip : skip ≤ k := h.skipped k (beginsAt_run k rest)
  apply substituteLoop_congr
  apply position_eq (by omega)
  intro q hq hlt
  obtain ⟨j, rfl⟩ := Nat.exists_eq_add_of_le (show out.length ≤ q by omega)
  rw [beginsAt_append]
  exact not_beginsAt_run (by omega) _

/-- The position behind a brace that is kept is as good as the one before it. -/
theorem substituteLoop_brace (hbeg : beg + 1 = (x ++ ['\x7b']).length) :
    resolver.substituteLoop useParams useIgnored nested (x ++ ['\x7b'] ++ rest) beg =
      resolver.substituteLoop useParams useIgnored nested (x ++ ['\x7b'] ++ rest)
        ((x ++ ['\x7b']).length + 0) := by
  rw [length_append, length_singleton] at hbeg
  apply substituteLoop_congr
  apply position_eq (by rw [length_append, length_singleton]; omega)
  intro q hq hlt
  rw [length_append, length_singleton] at hlt
  have heq : q = x.length + 0 := by omega
  rw [heq, append_assoc, beginsAt_append]
  apply not_beginsAt_of_get
  intro c hc
  cases hc
  decide

variable (ih : ∀ out' skip', Ready resolver useParams useIgnored out' rest skip' →
  resolver.substituteLoop useParams useIgnored nested (out' ++ rest) (out'.length + skip') = .ok r →
  ∃ w, resolver.translateTokens useParams useIgnored (tokens rest) = some w ∧ r = out' ++ w)

include ih in
/-- An escape is read as one. -/
theorem Ready.escaped (h : Ready resolver useParams useIgnored out
      (replicate (k + 1) '$' ++ '\x7b' :: rest) skip) (hodd : k % 2 = 1)
    (hloop : resolver.substituteLoop useParams useIgnored nested
      (out ++ (replicate (k + 1) '$' ++ '\x7b' :: rest)) (out.length + skip) = .ok r) :
    ∃ w, resolver.translateTokens useParams useIgnored (.escaped (k + 1) :: tokens rest) = some w ∧
      r = out ++ w := by
  have htokens : tokens (replicate (k + 1) '$' ++ '\x7b' :: rest) =
      .escaped (k + 1) :: tokens rest := by
    rw [tokens_append (by decide), if_pos ⟨rfl, by omega⟩, if_pos (by omega)]
  have hkept (m : Nat) : out ++ (replicate m '$' ++ '\x7b' :: rest) =
      out ++ replicate m '$' ++ ['\x7b'] ++ rest := by simp
  rw [h.loop_run, substituteLoop_eq] at hloop
  cases hescape : resolver.escape with
  | true =>
    have hzero : dollars out.reverse = 0 := by
      rcases h.left with hzero | hapart
      · exact hzero
      · have hnot := (hapart _ _ htokens).1
        rw [hescape] at hnot
        cases hnot
    rw [turn_escaped hodd hzero, hescape, if_pos rfl] at hloop
    dsimp only at hloop
    rw [hkept] at hloop
    have hposition : out.length + k + 1 =
        (out ++ replicate (k / 2 + 1) '$' ++ ['\x7b']).length + k / 2 := by
      rw [length_append, length_append, length_replicate, length_singleton]
      omega
    rw [hposition] at hloop
    have hx : resolver.translateToken useParams useIgnored (.escaped (k + 1)) =
        some (replicate (if true = true then (k + 1) / 2 else k + 1) '$' ++ ['\x7b']) := by
      rw [translateToken, hescape]
    apply translateTokens_cons hx
    · have hready : Ready resolver useParams useIgnored
          (out ++ replicate (k / 2 + 1) '$' ++ ['\x7b']) rest (k / 2) := by
        apply h.next htokens hx
        · intro i hi
          have hskipped := h.undisturbed.skipped [] (tokens rest) (k + 1) [] htokens rfl hescape i
            (by rwa [written_tokens])
          omega
        · exact Or.inl (dollars_of_getLast (by decide))
      obtain ⟨w, hw, hr⟩ := ih _ _ hready hloop
      refine ⟨w, hw, ?_⟩
      rw [hr, if_pos rfl, append_assoc out, show (k + 1) / 2 = k / 2 + 1 by omega]
  | false =>
    have hturn : resolver.turn useParams useIgnored
        (out ++ (replicate (k + 1) '$' ++ '\x7b' :: rest)) (out.length + k) =
        .next (out ++ (replicate (k + 1) '$' ++ '\x7b' :: rest)) (out.length + k + 1) := by
      apply turn_kept hodd hescape
      rcases h.left with hzero | hapart
      · rw [hzero]
      · exact (hapart _ _ htokens).2
    rw [hturn] at hloop
    dsimp only at hloop
    rw [hkept, substituteLoop_brace] at hloop
    · have hx : resolver.translateToken useParams useIgnored (.escaped (k + 1)) =
          some (replicate (if false = true then (k + 1) / 2 else k + 1) '$' ++ ['\x7b']) := by
        rw [translateToken, hescape]
      apply translateTokens_cons hx
      · have hready : Ready resolver useParams useIgnored
            (out ++ replicate (k + 1) '$' ++ ['\x7b']) rest 0 := by
          apply h.next htokens hx
          · exact fun i _ => Nat.zero_le i
          · exact Or.inl (dollars_of_getLast (by decide))
        obtain ⟨w, hw, hr⟩ := ih _ _ hready hloop
        refine ⟨w, hw, ?_⟩
        rw [hr, if_neg Bool.false_ne_true, append_assoc out]
    · rw [length_append, length_append, length_replicate, length_singleton]
      omega

include ih in
/-- Text is left as it is. -/
theorem Ready.text (h : Ready resolver useParams useIgnored out (replicate k '$' ++ c :: rest) skip)
    (hc : c ≠ '$') (hbrace : ¬(c = '\x7b' ∧ 0 < k))
    (hloop : resolver.substituteLoop useParams useIgnored nested
      (out ++ (replicate k '$' ++ c :: rest)) (out.length + skip) = .ok r) :
    ∃ w, resolver.translateTokens useParams useIgnored
        (.text (replicate k '$' ++ [c]) :: tokens rest) = some w ∧ r = out ++ w := by
  have htokens : tokens (replicate k '$' ++ c :: rest) =
      .text (replicate k '$' ++ [c]) :: tokens rest := by
    rw [tokens_append hc, if_neg hbrace]
  have hsplit : replicate k '$' ++ c :: rest = replicate k '$' ++ [c] ++ rest := by simp
  have hlength : (replicate k '$' ++ [c]).length = k + 1 := by simp
  have hnot (i : Nat) (hi : i < k + 1) : ¬BeginsAt (replicate k '$' ++ c :: rest) i := by
    rintro ⟨hdollar, hopen⟩
    by_cases hik : i = k
    · rw [hik, getElem?_append_right (by simp), length_replicate, Nat.sub_self] at hdollar
      exact hc (Option.some.inj hdollar)
    · by_cases hlast : i + 1 = k
      · rw [hlast, getElem?_append_right (by simp), length_replicate, Nat.sub_self] at hopen
        exact hbrace ⟨Option.some.inj hopen, by omega⟩
      · rw [List.getElem?_append_left (by simp; omega), List.getElem?_replicate_of_lt (by omega)]
          at hopen
        cases hopen
  have hready : Ready resolver useParams useIgnored (out ++ (replicate k '$' ++ [c])) rest
      (skip - (k + 1)) := by
    apply h.next htokens rfl
    · intro i hi
      have hle := h.skipped ((k + 1) + i) (by
        rw [hsplit, ← hlength, beginsAt_append]
        exact hi)
      omega
    · left
      rw [← append_assoc]
      exact dollars_of_getLast hc
  apply translateTokens_cons
  · rfl
  · apply ih _ _ hready
    rw [← hloop, append_assoc, ← hsplit]
    symm
    apply substituteLoop_congr
    rw [length_append, hlength]
    by_cases hle : skip ≤ k + 1
    · apply position_eq (by omega)
      intro q hq hlt
      obtain ⟨j, rfl⟩ := Nat.exists_eq_add_of_le (show out.length ≤ q by omega)
      rw [beginsAt_append]
      exact hnot j (by omega)
    · rw [show out.length + (k + 1) + (skip - (k + 1)) = out.length + skip by omega]

/-- What a value without `$` leaves in front of what comes next -/
theorem dollars_value {pre val : Str} (hval : '$' ∉ val) :
    (val ≠ [] → dollars (pre ++ val).reverse = 0) ∧
      (val = [] → dollars (pre ++ val).reverse = dollars pre.reverse) := by
  constructor
  · intro hne
    rw [← List.dropLast_append_getLast hne, ← append_assoc]
    apply dollars_of_getLast
    intro heq
    apply hval
    rw [← heq]
    exact List.getLast_mem hne
  · rintro rfl
    rw [append_nil]

include ih in
/-- A reference is read as one. -/
theorem Ready.reference {name : Str}
    (h : Ready resolver useParams useIgnored out
      (replicate (k + 1) '$' ++ '\x7b' :: (name ++ '\x7d' :: rest)) skip)
    (heven : k % 2 = 0) (hname : '\x7d' ∉ name)
    (hignore : ∀ ignored ∈ resolver.ignore, '$' ∉ ignored)
    (hnested : ∀ val x, '$' ∉ val → nested val = .ok x → x = val)
    (hloop : resolver.substituteLoop useParams useIgnored nested
      (out ++ (replicate (k + 1) '$' ++ '\x7b' :: (name ++ '\x7d' :: rest)))
      (out.length + skip) = .ok r)
    (htokens : tokens (replicate (k + 1) '$' ++ '\x7b' :: (name ++ '\x7d' :: rest)) =
      .reference (k + 1) name :: tokens rest) :
    ∃ w, resolver.translateTokens useParams useIgnored (.reference (k + 1) name :: tokens rest) =
      some w ∧ r = out ++ w := by
  have hzero : dollars out.reverse = 0 := by
    rcases h.left with hzero | hapart
    · exact hzero
    · exact (hapart _ _ htokens).elim
  have hhalf : (k + 1) / 2 = k / 2 := by omega
  rw [h.loop_run, substituteLoop_eq, turn_reference heven hzero, reference_eq _ _ _ hname] at hloop
  by_cases hmem : name ∈ resolver.ignore
  · rw [if_pos hmem] at hloop
    cases useIgnored with
    | false => cases hloop
    | true =>
      rw [if_pos rfl] at hloop
      dsimp only at hloop
      generalize hpre : out ++ replicate (k / 2) '$' = pre at hloop
      have hsplit : pre ++ '$' :: '\x7b' :: (name ++ '\x7d' :: rest) =
          pre ++ ['$'] ++ ('\x7b' :: name ++ ['\x7d'] ++ rest) := by simp
      have hout : pre ++ ("$\x7b".toList ++ name ++ ['\x7d']) =
          pre ++ ['$'] ++ '\x7b' :: name ++ ['\x7d'] := by simp
      have hx : resolver.translateToken useParams true (.reference (k + 1) name) =
          some (replicate (k / 2) '$' ++ "$\x7b".toList ++ name ++ ['\x7d']) := by
        rw [translateToken, if_pos hmem, if_pos rfl, hhalf]
      have hready : Ready resolver useParams true
          (pre ++ ("$\x7b".toList ++ name ++ ['\x7d'])) rest 0 := by
        apply h.next htokens hx
        · exact fun i _ => Nat.zero_le i
        · left
          rw [hout]
          exact dollars_of_getLast (by decide)
      rw [append_assoc, append_assoc] at hx
      apply translateTokens_cons hx
      · rw [← append_assoc out, hpre, ← append_assoc "$\x7b".toList]
        apply ih _ _ hready
        rw [← hloop, hsplit]
        symm
        rw [hout]
        have hnot : '$' ∉ '\x7b' :: name ++ ['\x7d'] := by
          simp only [cons_append, List.mem_cons, List.mem_append, List.mem_nil_iff, or_false,
            not_or]
          exact ⟨by decide, hignore name hmem, by decide⟩
        rw [append_assoc (pre ++ ['$']), append_assoc (pre ++ ['$'])]
        apply substituteLoop_congr
        apply position_eq
        · simp
        · intro q hq hlt
          have hlength : (pre ++ ['$']).length = pre.length + 1 := by simp
          obtain ⟨j, rfl⟩ := Nat.exists_eq_add_of_le hq
          rw [← hlength, beginsAt_append]
          apply not_beginsAt_of_notMem hnot
          simp at hlt ⊢
          omega
  · rw [if_neg hmem] at hloop
    cases hfound : resolver.getVariable name useParams with
    | error what =>
      rw [hfound] at hloop
      cases hloop
    | ok found =>
      obtain ⟨val, param⟩ := found
      have hval : '$' ∉ val := h.values (k + 1) name val param
        (by rw [htokens]; exact List.mem_cons_self ..) hfound
      have hx : resolver.translateToken useParams useIgnored (.reference (k + 1) name) =
          some (replicate (k / 2) '$' ++ val) := by
        rw [translateToken, if_neg hmem, hfound, hhalf]
      have hready : Ready resolver useParams useIgnored
          (out ++ replicate (k / 2) '$' ++ val) rest 0 := by
        apply h.next htokens hx
        · exact fun i _ => Nat.zero_le i
        · obtain ⟨hsome, hnone⟩ := @dollars_value (out ++ replicate (k / 2) '$') val hval
          by_cases hempty : val = []
          · have hleft : dollars (out ++ replicate (k / 2) '$').reverse = k / 2 := by
              rw [List.reverse_append, List.reverse_replicate, dollars_replicate_append, hzero]
              rfl
            rw [hnone hempty, hleft]
            by_cases hk : k / 2 = 0
            · exact Or.inl hk
            · right
              intro next after hafter
              rw [← hhalf]
              apply h.undisturbed.merged [] after (k + 1) name param next []
              · rw [htokens, hafter]
                rfl
              · rfl
              · omega
              · exact hmem
              · rw [hfound, hempty]
          · exact Or.inl (hsome hempty)
      have hlength : (out ++ replicate (k / 2) '$').length + val.length =
          (out ++ replicate (k / 2) '$' ++ val).length + 0 := by
        rw [Nat.add_zero, @length_append _ (out ++ replicate (k / 2) '$')]
      apply translateTokens_cons hx
      · rw [← append_assoc]
        apply ih _ _ hready
        rw [hfound] at hloop
        cases param with
        | true =>
          dsimp only at hloop
          rwa [hlength, ← append_assoc] at hloop
        | false =>
          dsimp only at hloop
          cases hinner : nested val with
          | error e =>
            rw [hinner] at hloop
            cases hloop
          | ok x =>
            rw [hinner] at hloop
            dsimp only at hloop
            rw [hnested val x hval hinner] at hloop
            have hinsert : insertValue ((out ++ replicate (k / 2) '$') ++
                '$' :: '\x7b' :: (name ++ '\x7d' :: rest))
                (out ++ replicate (k / 2) '$').length
                ((out ++ replicate (k / 2) '$').length + (name.length + 2)) val =
                (out ++ replicate (k / 2) '$' ++ val ++ rest,
                  (out ++ replicate (k / 2) '$' ++ val).length + 0) := by
              have hsplit : '$' :: '\x7b' :: (name ++ '\x7d' :: rest) =
                  ('$' :: '\x7b' :: name ++ ['\x7d']) ++ rest := by simp
              unfold insertValue
              rw [hsplit, replace_append rfl (by simp), hlength, ← append_assoc]
            rw [hinsert] at hloop
            exact hloop

/-- The loop reads the tokens from left to right. -/
theorem Ready.translates (h : Ready resolver useParams useIgnored out rest skip)
    (hignore : ∀ ignored ∈ resolver.ignore, '$' ∉ ignored)
    (hnested : ∀ val x, '$' ∉ val → nested val = .ok x → x = val)
    (hloop : resolver.substituteLoop useParams useIgnored nested (out ++ rest) (out.length + skip) =
      .ok r) :
    ∃ w, resolver.translateTokens useParams useIgnored (tokens rest) = some w ∧ r = out ++ w := by
  induction hn : rest.length using Nat.strongRecOn generalizing out rest skip with
  | ind n ih =>
    rcases dollars_cases rest with heq | ⟨c, rest', hc, heq⟩
    · have hend : ∀ q, out.length + skip ≤ q → ¬BeginsAt (out ++ rest) q := by
        intro q hq
        obtain ⟨j, rfl⟩ := Nat.exists_eq_add_of_le (show out.length ≤ q by omega)
        rw [beginsAt_append, heq]
        rintro ⟨-, hbrace⟩
        rw [List.getElem?_replicate] at hbrace
        split at hbrace
        · cases hbrace
        · cases hbrace
      rw [substituteLoop_done hend] at hloop
      cases hloop
      rw [heq, tokens_replicate]
      exact ⟨_, rfl, by simp⟩
    · generalize dollars rest = k at heq
      subst heq
      rw [length_append, length_replicate, length_cons] at hn
      by_cases hbrace : c = '\x7b' ∧ 0 < k
      · obtain ⟨rfl, hk⟩ := hbrace
        obtain ⟨k, rfl⟩ : ∃ j, k = j + 1 := ⟨k - 1, by omega⟩
        rw [tokens_append hc, if_pos ⟨rfl, hk⟩]
        by_cases hodd : k % 2 = 1
        · rw [if_pos (by omega)]
          apply h.escaped _ hodd hloop
          intro out' skip' hready hrest
          exact ih _ (by omega) hready hrest rfl
        · rw [if_neg (by omega)]
          cases hfind : rest'.findIdx? (· = '\x7d') with
          | none =>
            have htokens : tokens (replicate (k + 1) '$' ++ '\x7b' :: rest') =
                [.malformed (k + 1) rest'] := by
              rw [tokens_append hc, if_pos ⟨rfl, hk⟩, if_neg (by omega), hfind]
            have hzero : dollars out.reverse = 0 := by
              rcases h.left with hzero | hapart
              · exact hzero
              · exact (hapart _ _ htokens).elim
            obtain ⟨what, hthrows⟩ := @reference_malformed resolver useParams useIgnored
              (out ++ replicate (k / 2) '$') rest' hfind
            rw [h.loop_run, substituteLoop_eq, turn_reference (by omega) hzero, hthrows] at hloop
            cases hloop
          | some j =>
            obtain ⟨hsplit, hname⟩ := split_brace hfind
            have htokens : tokens (replicate (k + 1) '$' ++ '\x7b' :: rest') =
                .reference (k + 1) (rest'.take j) :: tokens (rest'.drop (j + 1)) := by
              rw [tokens_append hc, if_pos ⟨rfl, hk⟩, if_neg (by omega), hfind]
            dsimp only
            generalize rest'.take j = name at *
            generalize rest'.drop (j + 1) = rest at *
            subst hsplit
            rw [length_append, length_cons] at hn
            apply h.reference _ (by omega) hname hignore hnested hloop htokens
            intro out' skip' hready hrest
            exact ih _ (by omega) hready hrest rfl
      · rw [tokens_append hc, if_neg hbrace]
        apply h.text _ hc hbrace hloop
        intro out' skip' hready hrest
        exact ih _ (by omega) hready hrest rfl

/-- A value without `$` is substituted by itself. -/
theorem substitute_plain {n : Nat} {val x : Str} (hval : '$' ∉ val)
    (h : resolver.substitute useIgnored n useParams val = .ok x) : x = val := by
  cases n with
  | zero => cases h
  | succ n =>
    have hnot : ∀ q, 0 ≤ q → ¬BeginsAt val q :=
      fun q _ hbegins => hval (List.mem_of_getElem? hbegins.1)
    rw [substitute, substituteLoop_done hnot] at h
    cases h
    rfl

/-- What `substitute` returns is what the tokens stand for, if the values of the variables are
without `$` and the tokens do not disturb each other, as far as it reads them. The names that are
ignored are constants. -/
theorem substitute_translates {n : Nat} {v : Str}
    (hignore : ∀ ignored ∈ resolver.ignore, '$' ∉ ignored)
    (hvalues : ∀ run name val param, .reference run name ∈ tokens v →
      resolver.getVariable name useParams = .ok (val, param) → '$' ∉ val)
    (hundisturbed : Undisturbed resolver useParams useIgnored (tokens v))
    (h : resolver.substitute useIgnored n useParams v = .ok r) :
    resolver.translateTokens useParams useIgnored (tokens v) = some r := by
  cases n with
  | zero => cases h
  | succ n =>
    have hready : Ready resolver useParams useIgnored [] v 0 :=
      ⟨hvalues, hundisturbed, fun i _ => Nat.zero_le i, Or.inl rfl⟩
    have hnested (val x : Str) (hval : '$' ∉ val)
        (hx : resolver.substitute useIgnored n false val = .ok x) : x = val :=
      substitute_plain hval hx
    obtain ⟨w, hw, rfl⟩ := hready.translates hignore hnested h
    exact hw

/-- `Resolver::Resolver` for a node -/
def ofNode (name os hostname release version machine dataDir : Str) : Resolver :=
  let reserved := setReserved getReserved "node".toList name
  let reserved := setReserved reserved "node.os".toList os
  let reserved := setReserved reserved "node.hostname".toList hostname
  let reserved := setReserved reserved "node.release".toList release
  let reserved := setReserved reserved "node.version".toList version
  let reserved := setReserved reserved "node.machine".toList machine
  let reserved := setReserved reserved "node.datadir".toList dataDir
  { escape := true
    vars := []
    parameters := []
    reserved := setReserved reserved "node.data".toList dataDir
    ignore := [] }

/-- The resolver of the node `n1` -/
def sampleNode : Resolver :=
  ofNode "n1".toList "Linux".toList "host".toList "5".toList "1".toList "x86_64".toList
    "/var/n1".toList

theorem tokens_sample : tokens "$$$\x7bnode\x7d/$$\x7bx\x7d".toList =
    [.reference 3 "node".toList, .text "/".toList, .escaped 2, .text "x".toList,
      .text "\x7d".toList, .text []] := by
  decide +kernel

/-- A reference and an escape that are both read as such -/
theorem substitute_translates_sample :
    sampleNode.translateTokens true true (tokens "$$$\x7bnode\x7d/$$\x7bx\x7d".toList) =
      some "$n1/$\x7bx\x7d".toList := by
  apply @substitute_translates sampleNode true true _ 2
  · intro ignored hmem
    cases hmem
  · intro run name val param hmem hfound
    rw [tokens_sample] at hmem
    obtain ⟨-, rfl⟩ : run = 3 ∧ name = "node".toList := by simpa using hmem
    have hnode : sampleNode.getVariable "node".toList true = .ok ("n1".toList, false) := by decide
    rw [hnode] at hfound
    cases hfound
    decide
  · rw [tokens_sample]
    constructor
    · intro before after run w heq _ _ i hbegins
      have hmem : Token.escaped run ∈ before ++ .escaped run :: after := by simp
      rw [← heq] at hmem
      have hrun : run = 2 := by simpa using hmem
      omega
    · intro before after run name param next w heq _ hrun hnot hfound
      have hmem :
          Token.reference run name ∈ before ++ .reference run name :: next :: after := by simp
      rw [← heq] at hmem
      obtain ⟨-, rfl⟩ : run = 3 ∧ name = "node".toList := by simpa using hmem
      have hnode : sampleNode.getVariable "node".toList true = .ok ("n1".toList, false) := by decide
      rw [hnode] at hfound
      cases hfound
  · decide +kernel

/-- Behind an escape of four `$` a reference is skipped. -/
theorem not_translates_skipped :
    sampleNode.substitute true 2 true "$$$$\x7b$\x7bnode\x7d".toList =
        .ok "$$\x7b$\x7bnode\x7d".toList ∧
      tokens "$$$$\x7b$\x7bnode\x7d".toList =
        [.escaped 4, .reference 1 "node".toList, .text []] ∧
      sampleNode.getVariable "node".toList true = .ok ("n1".toList, false) ∧
      sampleNode.translateTokens true true (tokens "$$$$\x7b$\x7bnode\x7d".toList) =
        some "$$\x7bn1".toList := by
  decide +kernel

/-- Behind an empty value, what is left of a run escapes the next reference. -/
example : (ofApplication "app".toList [("a".toList, []), ("b".toList, "x".toList)]).map
    (fun resolver => (resolver.substitute true 2 true "$$$\x7ba\x7d$\x7bb\x7d".toList,
      resolver.translateTokens true true (tokens "$$$\x7ba\x7d$\x7bb\x7d".toList))) =
    some (.ok "$$\x7bb\x7d".toList, some "$x".toList) := by
  decide +kernel

end Ice.IceGrid.Resolver
