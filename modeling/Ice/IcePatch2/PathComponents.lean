import Mathlib.Data.List.DropRight
import Ice.IcePatch2.FileInfo

/-!
# The components of a path

What `simplify` leaves of a path is written out from its components: the empty ones and `.` are
left out, and so is `..` at the root.
-/

namespace Ice.IcePatch2

open List (append_nil cons.inj cons_append cons_ne_nil filter_cons_of_neg filter_cons_of_pos
  filter_nil mem_cons mem_cons_of_mem mem_cons_self mem_of_getLast? mem_of_mem_head? nil_append)

def dotdot : Path := [dot, dot]

/-- What stands between the slashes of a path -/
def parts (path : Path) : List Path := path.splitOn slash

/-- Components that are neither empty nor `.` -/
def isNamed (c : Path) : Bool := c ≠ [] ∧ c ≠ [dot]

def names (path : Path) : List Path := (parts path).filter isNamed

def join (cs : List Path) : Path := [slash].intercalate cs

/-- The components of a path, without `..` at the root -/
def components (path : Path) : List Path :=
  if path.head? = some slash then (names path).dropWhile (· = dotdot) else names path

/-- What is behind the last slash -/
def lastPart (path : Path) : Path := (parts path).getLast (List.splitOn_ne_nil slash path)

/-- What is left of names and the last part, where no slash is at the beginning: without a name it
is the last part, and a drive may keep a slash behind it. -/
def relativeForm (cs : List Path) (z : Path) : Path :=
  match cs with
  | [] => z
  | [c] => if Simplify.isDrive c [] ∧ z ≠ c then c ++ [slash] else c
  | cs => join cs

/-- A path in normal form -/
def normalForm (path : Path) : Path :=
  if path.head? = some slash then slash :: join (components path)
  else relativeForm (names path) (lastPart path)

namespace Simplify

variable {c n x z X : Path} {cs ns ms : List Path} {l path : Path}

/-- Components, each with a slash before it -/
def body (cs : List Path) : Path := cs.flatMap (slash :: ·)

@[simp] theorem body_nil : body [] = [] := rfl

@[simp] theorem body_cons : body (c :: cs) = slash :: (c ++ body cs) := by
  simp [body]

@[simp] theorem body_append : body (ns ++ ms) = body ns ++ body ms := by
  simp [body]

theorem join_cons : join (c :: cs) = c ++ body cs := by
  induction cs generalizing c with
  | nil => simp [join, body]
  | cons d cs ih =>
    rw [body_cons, ← ih]
    simp [join]

theorem slash_notMem_parts (hc : c ∈ parts path) : slash ∉ c := by
  induction path generalizing c with
  | nil =>
    obtain rfl : c = [] := by simpa [parts] using hc
    exact List.not_mem_nil
  | cons a path ih =>
    rw [parts, List.splitOn_cons_eq_if_modifyHead] at hc
    split at hc
    · rcases mem_cons.mp hc with rfl | hc
      · exact List.not_mem_nil
      · exact ih hc
    next ha =>
      cases hparts : path.splitOn slash with
      | nil => exact absurd hparts (List.splitOn_ne_nil slash path)
      | cons d ds =>
        rw [hparts, List.modifyHead_cons] at hc
        have hne : a ≠ slash := by simpa using ha
        rcases mem_cons.mp hc with rfl | hc
        · intro hmem
          rcases mem_cons.mp hmem with heq | hmem
          · exact hne heq.symm
          · exact ih (by rw [parts, hparts]; exact mem_cons_self) hmem
        · exact ih (by rw [parts, hparts]; exact mem_cons_of_mem _ hc)

theorem join_parts (path : Path) : join (parts path) = path := List.intercalate_splitOn slash

theorem parts_join (hcs : ∀ c ∈ cs, slash ∉ c) (hne : cs ≠ []) : parts (join cs) = cs :=
  List.splitOn_intercalate slash hcs hne

theorem parts_append (hz : slash ∉ z) : parts (X ++ slash :: z) = parts X ++ [z] := by
  rw [parts, List.splitOn_append_cons_self, List.splitOn_eq_singleton hz, parts]

theorem head_body : (body (ms ++ [z])).head? = some slash := by
  cases ms with
  | nil => rfl
  | cons m ms => rfl

/-- Nothing is left out before the first slash. -/
theorem slashes_append (hc : slash ∉ c) : slashes (c ++ l) = c ++ slashes l := by
  induction c with
  | nil => rfl
  | cons a c ih =>
    have hne : a ≠ slash := Ne.symm (List.ne_of_not_mem_cons hc)
    rw [cons_append, slashes, if_neg (fun h => hne h.1),
      ih (List.not_mem_of_not_mem_cons hc), cons_append]

/-- Empty components are left out. -/
theorem slashes_body (hms : ∀ m ∈ ms, slash ∉ m) (hz : slash ∉ z) :
    slashes (body (ms ++ [z])) = body (ms.filter (· ≠ []) ++ [z]) := by
  induction ms with
  | nil =>
    have hz' : slashes z = z := by
      rw [← append_nil z, slashes_append hz, slashes]
    have hhead : z.head? ≠ some slash := fun h => hz (mem_of_mem_head? h)
    simp only [nil_append, filter_nil, body_cons, body_nil, append_nil]
    rw [slashes, if_neg (fun h => hhead h.2), hz']
  | cons m ms ih =>
    have hih := ih fun m' hm' => hms m' (mem_cons_of_mem _ hm')
    have hm := hms m mem_cons_self
    rw [cons_append, body_cons, slashes]
    cases m with
    | nil =>
      rw [nil_append, if_pos ⟨rfl, head_body⟩, hih, filter_cons_of_neg (by simp)]
    | cons a m =>
      have hne : a ≠ slash := Ne.symm (List.ne_of_not_mem_cons hm)
      rw [if_neg (by simpa using hne), slashes_append hm, hih,
        filter_cons_of_pos (by simp)]
      rfl

theorem dots_append (hc : slash ∉ c) : dots (c ++ l) = c ++ dots l := by
  induction c with
  | nil => rfl
  | cons a c ih =>
    have hne : a ≠ slash := Ne.symm (List.ne_of_not_mem_cons hc)
    rw [cons_append, dots, if_neg (fun h => hne h.1),
      ih (List.not_mem_of_not_mem_cons hc), cons_append]

theorem dots_nil : dots [] = [] := by
  rw [dots]

/-- A name with the slash behind it is a component of its own. -/
theorem take_name {w : Path} (hw : slash ∉ w) (hc : slash ∉ c) (hl : l.head? = some slash) :
    (c ++ l).take (w.length + 1) = w ++ [slash] ↔ c = w := by
  obtain ⟨l, rfl⟩ := List.head?_eq_some_iff.mp hl
  induction w generalizing c with
  | nil =>
    cases c with
    | nil => exact iff_of_true rfl rfl
    | cons a c =>
      refine iff_of_false (fun h => ?_) (List.cons_ne_nil a c)
      exact List.ne_of_not_mem_cons hc (cons.inj h).1.symm
  | cons b w ih =>
    cases c with
    | nil =>
      refine iff_of_false (fun h => ?_) (List.cons_ne_nil b w).symm
      exact List.ne_of_not_mem_cons hw (cons.inj h).1
    | cons a c =>
      have hih := ih (List.not_mem_of_not_mem_cons hw) (List.not_mem_of_not_mem_cons hc)
      rw [cons_append, cons_append, List.length_cons, List.take_succ_cons, List.cons.injEq,
        List.cons.injEq, hih]

theorem take_two (hc : slash ∉ c) (hl : l.head? = some slash) :
    (c ++ l).take 2 = [dot, slash] ↔ c = [dot] :=
  take_name (w := [dot]) (by decide) hc hl

/-- Components `.` are left out. -/
theorem dots_body (hms : ∀ m ∈ ms, slash ∉ m) (hz : slash ∉ z) :
    dots (body (ms ++ [z])) = body (ms.filter (· ≠ [dot]) ++ [z]) := by
  induction ms with
  | nil =>
    have hz' : dots z = z := by
      rw [← append_nil z, dots_append hz, dots_nil]
    have htake : z.take 2 ≠ [dot, slash] := by
      intro h
      exact hz (List.mem_of_mem_take (i := 2) (by rw [h]; simp))
    simp only [nil_append, filter_nil, body_cons, body_nil, append_nil]
    rw [dots, if_neg (fun h => htake h.2), hz']
  | cons m ms ih =>
    have hih := ih fun m' hm' => hms m' (mem_cons_of_mem _ hm')
    have hm := hms m mem_cons_self
    rw [cons_append, body_cons, dots]
    by_cases hdot : m = [dot]
    · rw [if_pos ⟨rfl, (take_two hm head_body).mpr hdot⟩, filter_cons_of_neg (by simpa),
        hdot, ← hih]
      rfl
    · rw [if_neg (fun h => hdot ((take_two hm head_body).mp h.2)), dots_append hm, hih,
        filter_cons_of_pos (by simpa), cons_append, body_cons]

/-- A leading `/../` is a component of its own. -/
theorem take_four (hc : slash ∉ c) (hl : l.head? = some slash) :
    (slash :: (c ++ l)).take 4 = [slash, dot, dot, slash] ↔ c = dotdot :=
  (List.cons_inj_right slash).trans (take_name (w := dotdot) (by decide) hc hl)

/-- Leading components `..` are left out. -/
theorem parents_body (hms : ∀ m ∈ ms, slash ∉ m) (hz : slash ∉ z) :
    parents (body (ms ++ [z])) = body (ms.dropWhile (· = dotdot) ++ [z]) := by
  induction ms with
  | nil =>
    have htake : (slash :: z).take 4 ≠ [slash, dot, dot, slash] := by
      intro h
      have hmem : slash ∈ z.take 3 := by
        rw [show z.take 3 = [dot, dot, slash] from (cons.inj h).2]
        simp
      exact hz (List.mem_of_mem_take hmem)
    simp only [nil_append, List.dropWhile_nil, body_cons, body_nil, append_nil]
    rw [parents, if_neg htake]
  | cons m ms ih =>
    have hm := hms m mem_cons_self
    rw [cons_append, body_cons, parents]
    by_cases hdot : m = dotdot
    · rw [if_pos ((take_four hm head_body).mpr hdot), List.dropWhile_cons_of_pos (by simpa),
        ← ih fun m' hm' => hms m' (mem_cons_of_mem _ hm'), hdot]
      rfl
    · rw [if_neg (fun h => hdot ((take_four hm head_body).mp h)),
        List.dropWhile_cons_of_neg (by simpa), cons_append, body_cons]

theorem parents_relative (h : path.head? ≠ some slash) : parents path = path := by
  rw [parents, if_neg]
  intro htake
  apply h
  cases path with
  | nil => cases htake
  | cons a path => exact congrArg some (cons.inj htake).1

/-- What `simplify` does with the ends, when the loops are done -/
def ends (result : Path) : Path :=
  if result = [slash, dot] ∨ isDrive result [slash, dot] then result.dropLast
  else
    let result := last result
    if result = [slash] ∨ isDrive result [slash] then result
    else
      let result := trailing result
      if result = [slash, dot, dot] then [slash] else result

theorem simplify_eq (path : Path) :
    simplify path = ends (current (parents (dots (slashes path)))) := rfl

variable {rest : Path}

theorem isDrive_iff :
    isDrive path rest = true ↔ ∃ a, isAlpha a = true ∧ path = a :: 58 :: rest := by
  unfold isDrive
  split
  next a b l =>
    simp only [decide_eq_true_eq, List.cons.injEq]
    constructor
    · rintro ⟨ha, hb, hl⟩
      exact ⟨a, ha, rfl, hb, hl⟩
    · rintro ⟨a', ha, rfl, hb, hl⟩
      exact ⟨ha, hb, hl⟩
  next h =>
    simp only [Bool.false_eq_true, false_iff, not_exists, not_and]
    rintro a ha rfl
    exact h a 58 rest rfl

theorem isDrive_append : isDrive (X ++ rest) rest = isDrive X [] := by
  rw [Bool.eq_iff_iff, isDrive_iff, isDrive_iff]
  apply exists_congr
  intro a
  apply and_congr_right
  intro _
  rw [show a :: 58 :: rest = [a, 58] ++ rest from rfl, List.append_left_inj]

theorem not_isDrive (h : path.head? = some slash) : isDrive path rest = false := by
  rw [Bool.eq_false_iff]
  intro hdrive
  obtain ⟨a, ha, rfl⟩ := isDrive_iff.mp hdrive
  obtain rfl : a = slash := Option.some.inj h
  exact absurd ha (by decide)

/-- What is behind the last slash, and what is before it -/
theorem append_slash_inj (hz : slash ∉ z) (hx : slash ∉ x) :
    X ++ slash :: z = l ++ slash :: x ↔ X = l ∧ z = x := by
  constructor
  · intro h
    have hparts := congrArg parts h
    rw [parts_append hz, parts_append hx] at hparts
    obtain rfl : z = x := List.singleton_inj.mp (List.append_inj_right' hparts rfl)
    exact ⟨List.append_cancel_right h, rfl⟩
  · rintro ⟨rfl, rfl⟩
    rfl

theorem last_append : last (X ++ [slash, dot]) = X := by
  unfold last
  rw [List.length_append, List.length_cons, List.length_singleton, Nat.add_sub_cancel,
    List.drop_left, if_pos rfl, List.take_left]

theorem last_eq_self (h : ∀ X, path ≠ X ++ [slash, dot]) : last path = path := by
  unfold last
  rw [if_neg]
  intro hdrop
  apply h (path.take (path.length - 2))
  rw [← hdrop, List.take_append_drop]

theorem trailing_append : trailing (X ++ [slash]) = X := by
  unfold trailing
  rw [List.getLast?_concat, if_pos rfl, List.dropLast_concat]

theorem trailing_eq_self (h : path.getLast? ≠ some slash) : trailing path = path := if_neg h

/-- A path without slashes stays as it is. -/
theorem ends_single (hz : slash ∉ z) : ends z = z := by
  have hdrive : ∀ rest, slash ∈ rest → isDrive z rest = false := by
    intro rest hrest
    rw [Bool.eq_false_iff]
    intro h
    obtain ⟨a, _, rfl⟩ := isDrive_iff.mp h
    exact hz (mem_cons_of_mem _ (mem_cons_of_mem _ hrest))
  have hlast : last z = z := by
    apply last_eq_self
    rintro X rfl
    simp at hz
  have htrailing : trailing z = z :=
    trailing_eq_self fun h => hz (mem_of_getLast? h)
  have hne : ∀ rest, slash ∈ rest → z ≠ rest := by
    rintro rest hrest rfl
    exact hz hrest
  unfold ends
  rw [hdrive _ (by simp), if_neg (by simpa using hne [slash, dot] (by simp)), hlast]
  dsimp only
  rw [hdrive _ (by simp), if_neg (by simpa using hne [slash] (by simp)), htrailing,
    if_neg (hne _ (by simp))]

/-- What is left of a single component at the root -/
theorem ends_root (hz : slash ∉ z) : ends (slash :: z) =
    if z = [] ∨ z = [dot] ∨ z = dotdot then [slash] else slash :: z := by
  split
  next h =>
    rcases h with rfl | rfl | rfl
    · decide
    · decide
    · decide
  next h =>
    rw [not_or, not_or] at h
    obtain ⟨hnil, hdot, hdotdot⟩ := h
    have hlast : last (slash :: z) = slash :: z := by
      apply last_eq_self
      intro X heq
      exact hdot ((append_slash_inj hz (by decide : slash ∉ [dot])).mp
        ((nil_append _).trans heq)).2
    have htrailing : trailing (slash :: z) = slash :: z := by
      apply trailing_eq_self
      intro h
      rw [List.getLast?_cons_of_ne_nil hnil] at h
      exact hz (mem_of_getLast? h)
    unfold ends
    rw [not_isDrive rfl, if_neg (by simpa using hdot), hlast]
    dsimp only
    rw [not_isDrive rfl, if_neg (by simpa using hnil), htrailing, if_neg]
    exact fun heq => hdotdot (cons.inj heq).2

/-- What is left of the last component behind others -/
theorem ends_behind (hX : X ≠ []) (hlast : X.getLast? ≠ some slash)
    (hdotdot : X ≠ slash :: dotdot) (hz : slash ∉ z) : ends (X ++ slash :: z) =
    if z = [] ∨ z = [dot] then if isDrive X [] then X ++ [slash] else X else X ++ slash :: z := by
  have hroot : ∀ x, slash ∉ x → X ++ slash :: z ≠ slash :: x := by
    intro x hx heq
    exact hX ((append_slash_inj hz hx).mp (heq.trans (nil_append _).symm)).1
  have hdrive : ∀ x, slash ∉ x → isDrive (X ++ slash :: z) (slash :: x) =
      (isDrive X [] && decide (z = x)) := by
    intro x hx
    by_cases hzx : z = x
    · rw [hzx, isDrive_append, decide_eq_true rfl, Bool.and_true]
    · rw [decide_eq_false hzx, Bool.and_false, Bool.eq_false_iff]
      intro h
      obtain ⟨a, _, heq⟩ := isDrive_iff.mp h
      exact hzx ((append_slash_inj hz hx (l := [a, 58])).mp heq).2
  have hX' : isDrive X [slash] = false := by
    rw [Bool.eq_false_iff]
    intro h
    obtain ⟨a, _, rfl⟩ := isDrive_iff.mp h
    exact hlast rfl
  have hslash : X ≠ [slash] := by
    rintro rfl
    exact hlast rfl
  by_cases hdot : z = [dot]
  · subst hdot
    rw [if_pos (Or.inr rfl)]
    unfold ends
    rw [hdrive _ hz, decide_eq_true rfl, Bool.and_true]
    by_cases h : isDrive X [] = true
    · rw [if_pos (Or.inr h), if_pos h]
      simp [List.dropLast_append_of_ne_nil]
    · rw [if_neg (not_or.mpr ⟨hroot _ hz, h⟩), if_neg h, last_append]
      dsimp only
      rw [hX', if_neg (by simpa using hslash), trailing_eq_self hlast]
      exact if_neg hdotdot
  · have hlast' : last (X ++ slash :: z) = X ++ slash :: z := by
      apply last_eq_self
      intro Y heq
      exact hdot ((append_slash_inj hz (by decide : slash ∉ [dot])).mp heq).2
    have hfirst : ¬ (X ++ slash :: z = [slash, dot] ∨
        isDrive (X ++ slash :: z) [slash, dot] = true) := by
      rw [hdrive _ (by decide), decide_eq_false hdot, Bool.and_false]
      simpa using hroot [dot] (by decide)
    unfold ends
    rw [if_neg hfirst, hlast']
    dsimp only
    rw [hdrive _ List.not_mem_nil]
    by_cases hnil : z = []
    · subst hnil
      rw [if_pos (Or.inl rfl), decide_eq_true rfl, Bool.and_true]
      by_cases h : isDrive X [] = true
      · rw [if_pos (Or.inr h), if_pos h]
      · rw [if_neg (not_or.mpr ⟨hroot _ List.not_mem_nil, h⟩), if_neg h, trailing_append]
        exact if_neg hdotdot
    · have htrailing : trailing (X ++ slash :: z) = X ++ slash :: z := by
        apply trailing_eq_self
        intro h
        rw [List.getLast?_append_of_ne_nil _ (cons_ne_nil _ _),
          List.getLast?_cons_of_ne_nil hnil] at h
        exact hz (mem_of_getLast? h)
      rw [decide_eq_false hnil, Bool.and_false,
        if_neg (by simpa using hroot [] List.not_mem_nil), htrailing,
        if_neg (not_or.mpr ⟨hnil, hdot⟩)]
      exact if_neg (hroot dotdot (by decide))

theorem body_eq (h : ns ≠ []) : body ns = slash :: join ns := by
  cases ns with
  | nil => exact absurd rfl h
  | cons n ns => rw [join_cons, body_cons]

theorem join_append (h : ns ≠ []) : join (ns ++ [z]) = join ns ++ slash :: z := by
  cases ns with
  | nil => exact absurd rfl h
  | cons n ns => simp [join_cons]

theorem isNamed_ne (h : isNamed n = true) : n ≠ [] ∧ n ≠ [dot] := of_decide_eq_true h

section

variable (hns : ∀ n ∈ ns, isNamed n = true)

include hns

theorem getLast_body (hslash : ∀ n ∈ ns, slash ∉ n) :
    (body ns).getLast? ≠ some slash := by
  induction ns using List.reverseRec with
  | nil => simp
  | append_singleton ns n _ =>
    have hnil := (isNamed_ne (hns n (by simp))).1
    intro h
    rw [body_append, body_cons, body_nil, append_nil,
      List.getLast?_append_of_ne_nil _ (cons_ne_nil _ _),
      List.getLast?_cons_of_ne_nil hnil] at h
    exact hslash n (by simp) (mem_of_getLast? h)

theorem getLast_join (hslash : ∀ n ∈ ns, slash ∉ n) :
    (join ns).getLast? ≠ some slash := by
  by_cases hne : ns = []
  · rw [hne]
    simp [join]
  · by_cases hjoin : join ns = []
    · rw [hjoin]
      simp
    · rw [← List.getLast?_cons_of_ne_nil (x := slash) hjoin, ← body_eq hne]
      exact getLast_body hns hslash

theorem join_ne_nil (hne : ns ≠ []) : join ns ≠ [] := by
  cases ns with
  | nil => exact absurd rfl hne
  | cons n ns =>
    rw [join_cons]
    exact List.append_ne_nil_of_left_ne_nil (isNamed_ne (hns n mem_cons_self)).1 _

theorem head_join (hslash : ∀ n ∈ ns, slash ∉ n) :
    (join ns).head? ≠ some slash := by
  cases ns with
  | nil => simp [join]
  | cons n ns =>
    rw [join_cons, List.head?_append_of_ne_nil _ (isNamed_ne (hns n mem_cons_self)).1]
    exact fun h => hslash n mem_cons_self (mem_of_mem_head? h)

end

/-- More than one component is no drive. -/
theorem isDrive_join (n m : Path) : isDrive (join (n :: m :: ns)) [] = false := by
  rw [Bool.eq_false_iff]
  intro h
  obtain ⟨a, ha, heq⟩ := isDrive_iff.mp h
  have hmem : slash ∈ join (n :: m :: ns) := by simp [join_cons]
  rw [heq] at hmem
  rcases mem_cons.mp hmem with rfl | hmem
  · exact absurd ha (by decide)
  · exact absurd hmem (by decide)

/-- The name that a last part is, if it is one -/
def lastName (z : Path) : List Path := [z].filter isNamed

theorem lastName_eq (z : Path) : lastName z = if z = [] ∨ z = [dot] then [] else [z] := by
  by_cases h : z = [] ∨ z = [dot]
  · rw [if_pos h]
    rcases h with rfl | rfl
    · rfl
    · rfl
  · rw [if_neg h]
    rw [not_or] at h
    exact filter_cons_of_pos (decide_eq_true h)

theorem ends_relative (hns : ∀ n ∈ ns, isNamed n = true) (hslash : ∀ n ∈ ns, slash ∉ n)
    (hz : slash ∉ z) : ends (join (ns ++ [z])) = relativeForm (ns ++ lastName z) z := by
  cases ns with
  | nil =>
    rw [nil_append, nil_append, lastName_eq, join_cons, body_nil, append_nil,
      ends_single hz]
    split
    · rfl
    · simp [relativeForm]
  | cons n ns =>
    have hne := cons_ne_nil n ns
    have hhead := head_join hns hslash
    have hdotdot : join (n :: ns) ≠ slash :: dotdot := by
      intro h
      rw [h] at hhead
      exact hhead rfl
    rw [join_append hne, ends_behind (join_ne_nil hns hne) (getLast_join hns hslash) hdotdot hz,
      lastName_eq]
    by_cases hlast : z = [] ∨ z = [dot]
    · rw [if_pos hlast, if_pos hlast, append_nil]
      cases ns with
      | nil =>
        have hzn : z ≠ n := by
          rintro rfl
          obtain ⟨hnil, hdot⟩ := isNamed_ne (hns z mem_cons_self)
          exact hlast.elim hnil hdot
        simp [relativeForm, join_cons, hzn]
      | cons m ns =>
        rw [isDrive_join]
        rfl
    · rw [if_neg hlast, if_neg hlast, ← join_append hne]
      cases ns with
      | nil => rfl
      | cons m ns => rfl

theorem ends_absolute (hns : ∀ n ∈ ns, isNamed n = true) (hslash : ∀ n ∈ ns, slash ∉ n)
    (hhead : ns.head? ≠ some dotdot) (hz : slash ∉ z) :
    ends (body (ns ++ [z])) = slash ::
      join (if ns = [] then (lastName z).dropWhile (· = dotdot) else ns ++ lastName z) := by
  rw [lastName_eq]
  cases ns with
  | nil =>
    rw [nil_append, body_cons, body_nil, append_nil, ends_root hz, if_pos rfl]
    by_cases hlast : z = [] ∨ z = [dot]
    · rw [if_pos hlast, if_pos (by tauto)]
      rfl
    · rw [if_neg hlast]
      by_cases hdotdot : z = dotdot
      · rw [if_pos (.inr (.inr hdotdot)), List.dropWhile_cons_of_pos (by simpa)]
        rfl
      · rw [if_neg (by tauto), List.dropWhile_cons_of_neg (by simpa), join_cons, body_nil,
          append_nil]
  | cons n ns =>
    have hbody : body (n :: ns) ≠ slash :: dotdot := by
      intro h
      rw [body_cons, List.cons.injEq] at h
      cases ns with
      | nil =>
        rw [body_nil, append_nil] at h
        exact hhead (congrArg some h.2)
      | cons m ns =>
        have hmem : slash ∈ dotdot := by
          rw [← h.2, body_cons]
          simp
        exact absurd hmem (by decide)
    rw [body_append, body_cons (c := z), body_nil, append_nil,
      ends_behind (by simp) (getLast_body hns hslash) hbody hz, not_isDrive rfl,
      if_neg (cons_ne_nil n ns)]
    split
    · rw [append_nil]
      exact body_eq (cons_ne_nil n ns)
    · rw [join_append (cons_ne_nil n ns), body_eq (cons_ne_nil n ns), cons_append]

theorem parts_cases (path : Path) : slash ∉ path ∧ parts path = [path] ∨
    ∃ c ms z, path = c ++ body (ms ++ [z]) ∧ parts path = c :: (ms ++ [z]) := by
  have hjoin := join_parts path
  cases hparts : parts path with
  | nil => exact absurd hparts (List.splitOn_ne_nil slash path)
  | cons c cs =>
    rw [hparts, join_cons] at hjoin
    rcases List.eq_nil_or_concat cs with rfl | ⟨ms, z, rfl⟩
    · rw [body_nil, append_nil] at hjoin
      subst hjoin
      exact .inl ⟨slash_notMem_parts (by rw [hparts]; exact mem_cons_self), rfl⟩
    · rw [List.concat_eq_append] at hjoin ⊢
      exact .inr ⟨c, ms, z, hjoin.symm, rfl⟩

theorem current_of_ne (h : path.take 2 ≠ [dot, slash]) : current path = path := if_neg h

theorem filter_filter_isNamed :
    (ms.filter (· ≠ [])).filter (· ≠ [dot]) = ms.filter isNamed := by
  rw [List.filter_filter]
  apply List.filter_congr
  intro m _
  simp [isNamed, Bool.and_comm]

end Simplify

open Simplify

/-- What `simplify` leaves, from the components of the path -/
theorem simplify_eq_normalForm (path : Path) : simplify path = normalForm path := by
  rw [simplify_eq]
  rcases parts_cases path with ⟨hslash, hparts⟩ | ⟨c, ms, z, hpath, hparts⟩
  · have hhead : path.head? ≠ some slash := fun h => hslash (mem_of_mem_head? h)
    have htake : path.take 2 ≠ [dot, slash] := by
      intro h
      exact hslash (List.mem_of_mem_take (i := 2) (by rw [h]; simp))
    have hslashes : slashes path = path := by
      rw [← append_nil path, slashes_append hslash, slashes]
    have hdots : dots path = path := by
      rw [← append_nil path, dots_append hslash, dots_nil]
    rw [hslashes, hdots, parents_relative hhead, current_of_ne htake, normalForm, if_neg hhead]
    have hends := @ends_relative path [] (by simp) (by simp) hslash
    rw [nil_append, nil_append, join_cons, body_nil, append_nil] at hends
    rw [hends]
    simp only [names, lastPart, hparts, lastName, List.getLast_singleton]
  · have hfree : ∀ x ∈ c :: (ms ++ [z]), slash ∉ x := by
      intro x hx
      rw [← hparts] at hx
      exact slash_notMem_parts hx
    have hc := hfree c mem_cons_self
    have hz := hfree z (by simp)
    have hms : ∀ m ∈ ms, slash ∉ m := fun m hm => hfree m (by simp [hm])
    have hmid : ∀ m ∈ ms.filter (· ≠ []), slash ∉ m := fun m hm =>
      hms m (List.mem_of_mem_filter hm)
    have hns : ∀ n ∈ ms.filter isNamed, slash ∉ n := fun n hn => hms n (List.mem_of_mem_filter hn)
    have hnamed : ∀ n ∈ ms.filter isNamed, isNamed n = true := fun n hn => List.of_mem_filter hn
    have hloops : dots (slashes path) = c ++ body (ms.filter isNamed ++ [z]) := by
      rw [hpath, slashes_append hc, slashes_body hms hz, dots_append hc, dots_body hmid hz,
        filter_filter_isNamed]
    have hnames : names path = [c].filter isNamed ++ (ms.filter isNamed ++ lastName z) := by
      rw [names, hparts, lastName, ← List.filter_append, ← List.filter_append]
      rfl
    have hlast : lastPart path = z := by
      unfold lastPart
      simp only [hparts]
      simp
    rw [hloops]
    by_cases hnil : c = []
    · subst hnil
      have habs : path.head? = some slash := by
        rw [hpath, nil_append, head_body]
      have htake : ∀ ds : List Path, (body (ds ++ [z])).take 2 ≠ [dot, slash] := by
        intro ds h
        obtain ⟨l, hl⟩ := List.head?_eq_some_iff.mp ((@head_body z ds))
        rw [hl] at h
        exact absurd (cons.inj h).1 (by decide)
      have hsub := List.dropWhile_sublist (fun d => decide (d = dotdot)) (l := ms.filter isNamed)
      have hhead : ((ms.filter isNamed).dropWhile (· = dotdot)).head? ≠ some dotdot := by
        intro h
        have hnot := List.head?_dropWhile_not (· = dotdot) (ms.filter isNamed)
        rw [h] at hnot
        simp at hnot
      rw [nil_append, parents_body hns hz, current_of_ne (htake _),
        ends_absolute (fun n hn => hnamed n (hsub.mem hn)) (fun n hn => hns n (hsub.mem hn)) hhead
          hz, normalForm, if_pos habs, components, if_pos habs, hnames,
        filter_cons_of_neg (by decide), filter_nil, nil_append,
        List.dropWhile_append]
      simp only [List.isEmpty_iff]
    · have hhead : path.head? ≠ some slash := by
        rw [hpath, List.head?_append_of_ne_nil _ hnil]
        exact fun h => hc (mem_of_mem_head? h)
      have hhead' : (c ++ body (ms.filter isNamed ++ [z])).head? ≠ some slash := by
        rw [List.head?_append_of_ne_nil _ hnil]
        exact fun h => hc (mem_of_mem_head? h)
      rw [parents_relative hhead', normalForm, if_neg hhead, hnames, hlast]
      by_cases hdot : c = [dot]
      · have hcurrent : current (c ++ body (ms.filter isNamed ++ [z])) =
            join (ms.filter isNamed ++ [z]) := by
          unfold current
          rw [if_pos ((take_two hc head_body).mpr hdot), hdot,
            body_eq (List.append_ne_nil_of_right_ne_nil _ (cons_ne_nil z []))]
          rfl
        rw [hcurrent, ends_relative hnamed hns hz, hdot]
        rfl
      · have hcurrent : current (c ++ body (ms.filter isNamed ++ [z])) =
            join ((c :: ms.filter isNamed) ++ [z]) := by
          rw [current_of_ne (fun h => hdot ((take_two hc head_body).mp h)), cons_append,
            join_cons]
        have hnamedc : isNamed c = true := decide_eq_true ⟨hnil, hdot⟩
        rw [hcurrent, ends_relative (List.forall_mem_cons.mpr ⟨hnamedc, hnamed⟩)
          (List.forall_mem_cons.mpr ⟨hc, hns⟩) hz, filter_cons_of_pos hnamedc]
        rfl

section

variable {path : Path} {cs : List Path}

theorem names_spec (path : Path) : ∀ c ∈ names path, isNamed c = true ∧ slash ∉ c := by
  intro c hc
  exact ⟨List.of_mem_filter hc, slash_notMem_parts (List.mem_of_mem_filter hc)⟩

theorem names_join (hcs : ∀ c ∈ cs, isNamed c = true ∧ slash ∉ c) : names (join cs) = cs := by
  by_cases hne : cs = []
  · subst hne
    rfl
  · rw [names, parts_join (fun c hc => (hcs c hc).2) hne]
    exact List.filter_eq_self.mpr fun c hc => (hcs c hc).1

theorem lastPart_spec (path : Path) (h : names path = []) :
    lastPart path = [] ∨ lastPart path = [dot] := by
  by_contra hnot
  have hmem : lastPart path ∈ names path := by
    apply List.mem_filter.mpr
    exact ⟨List.getLast_mem _, by simpa [isNamed] using hnot⟩
  rw [h] at hmem
  cases hmem

theorem parts_cons (path : Path) : parts (slash :: path) = [] :: parts path := by
  rw [parts, List.splitOn_cons_eq_if_modifyHead, if_pos (by simp)]
  rfl

theorem names_cons (path : Path) : names (slash :: path) = names path := by
  rw [names, parts_cons, filter_cons_of_neg (by decide), names]

/-- A relative path in normal form: it has the names, and is its own normal form. -/
theorem relativeForm_spec {z : Path} (hcs : ∀ c ∈ cs, isNamed c = true ∧ slash ∉ c)
    (hz : cs = [] → z = [] ∨ z = [dot]) :
    (relativeForm cs z).head? ≠ some slash ∧ names (relativeForm cs z) = cs ∧
      relativeForm cs (lastPart (relativeForm cs z)) = relativeForm cs z := by
  match cs, hcs, hz with
  | [], _, hz =>
    rcases hz rfl with rfl | rfl
    · exact ⟨by decide, rfl, rfl⟩
    · exact ⟨by decide, rfl, rfl⟩
  | [c], hcs, _ =>
    obtain ⟨hnamed, hslash⟩ := hcs c mem_cons_self
    have hnil := (isNamed_ne hnamed).1
    have hparts : parts c = [c] := List.splitOn_eq_singleton hslash
    have hhead : c.head? ≠ some slash := fun h => hslash (mem_of_mem_head? h)
    by_cases hdrive : isDrive c [] = true ∧ z ≠ c
    · have hform : relativeForm [c] z = c ++ [slash] := if_pos hdrive
      have hbehind : parts (c ++ [slash]) = [c, []] := by
        rw [parts_append List.not_mem_nil, hparts]
        rfl
      have hlast : lastPart (c ++ [slash]) = [] := by
        unfold lastPart
        simp only [hbehind]
        rfl
      rw [hform, hlast]
      refine ⟨?_, ?_, if_pos ⟨hdrive.1, hnil.symm⟩⟩
      · rw [List.head?_append_of_ne_nil _ hnil]
        exact hhead
      · rw [names, hbehind, filter_cons_of_pos hnamed]
        rfl
    · have hform : relativeForm [c] z = c := if_neg hdrive
      have hlast : lastPart c = c := by
        unfold lastPart
        simp only [hparts]
        rfl
      rw [hform, hlast]
      refine ⟨hhead, ?_, if_neg fun h => h.2 rfl⟩
      rw [names, hparts, filter_cons_of_pos hnamed]
      rfl
  | c :: d :: cs, hcs, _ =>
    refine ⟨?_, names_join hcs, rfl⟩
    exact head_join (fun c hc => (hcs c hc).1) (fun c hc => (hcs c hc).2)

/-- The normal form has the names that belong to it, is absolute if the path is, and is its own
normal form. -/
theorem simplify_spec (path : Path) :
    ((simplify path).head? = some slash ↔ path.head? = some slash) ∧
      names (simplify path) = components path ∧ components (simplify path) = components path ∧
        simplify (simplify path) = simplify path := by
  have hspec := names_spec path
  rw [simplify_eq_normalForm (simplify path), simplify_eq_normalForm path]
  by_cases habs : path.head? = some slash
  · have hform : normalForm path = slash :: join (components path) := if_pos habs
    have hcomponents : components path = (names path).dropWhile (· = dotdot) := if_pos habs
    have hcs : ∀ c ∈ components path, isNamed c = true ∧ slash ∉ c := by
      rw [hcomponents]
      exact fun c hc => hspec c ((List.dropWhile_sublist _).mem hc)
    have hnames : names (normalForm path) = components path := by
      rw [hform, names_cons, names_join hcs]
    have hagain : components (normalForm path) = components path := by
      rw [components, hnames, hform, List.head?_cons, if_pos rfl, hcomponents]
      exact List.dropWhile_idempotent _ _
    refine ⟨by simp [hform, habs], hnames, hagain, ?_⟩
    rw [normalForm, hagain, hform]
    rfl
  · have hform : normalForm path = relativeForm (names path) (lastPart path) := if_neg habs
    have hcomponents : components path = names path := if_neg habs
    obtain ⟨hhead, hnames, hself⟩ := relativeForm_spec hspec (lastPart_spec path)
    rw [← hform] at hhead hnames
    have hagain : components (normalForm path) = names (normalForm path) := if_neg hhead
    refine ⟨by simp [hhead, habs], hnames.trans hcomponents.symm, ?_, ?_⟩
    · rw [hagain, hnames, hcomponents]
    · rw [normalForm, if_neg hhead, hnames, hform, hself]

end

end Ice.IcePatch2
