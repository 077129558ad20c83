import Mathlib.Data.List.Duplicate
import Mathlib.Data.List.Perm.Subperm

/-!
# Variables in descriptors

`Resolver::substitute` edits a string in place: it replaces the references `${name}` from left to
right, and substitutes what is in the values of variables in the same way. The calls that this
nests are numbered from the outermost down.
-/

namespace Ice.IceGrid

/-- A `string` -/
abbrev Str := List Char

namespace Resolver

/-- How substituting fails -/
inductive SubstituteError
  | invalidArgument (what : Str)
  /-- More calls are nested than were allowed for. -/
  | unfinished
  deriving DecidableEq, Repr

end Resolver

open Resolver

/-- What a `Resolver` knows of variables -/
structure Resolver where
  escape : Bool
  /-- `_variables` -/
  vars : List (Str × Str)
  parameters : List (Str × Str)
  reserved : List (Str × Str)
  ignore : List Str

namespace Resolver

scoped instance lawfulBEqStr : LawfulBEq Str := inferInstance

/-- `getReserved` -/
def getReserved : List (Str × Str) :=
  [("application".toList, []),
    ("node".toList, []),
    ("node.os".toList, []),
    ("node.hostname".toList, []),
    ("node.release".toList, []),
    ("node.version".toList, []),
    ("node.machine".toList, []),
    ("node.datadir".toList, []),
    ("node.data".toList, []),
    ("session.id".toList, []),
    ("application.distrib".toList, "$\x7bnode.data\x7d/distrib/$\x7bapplication\x7d".toList),
    ("server.distrib".toList, "$\x7bnode.data\x7d/servers/$\x7bserver\x7d/distrib".toList),
    ("server".toList, []),
    ("server.data".toList, "$\x7bnode.data\x7d/servers/$\x7bserver\x7d/data".toList),
    ("service".toList, []),
    ("service.data".toList,
      "$\x7bnode.data\x7d/servers/$\x7bserver\x7d/data_$\x7bservice\x7d".toList)]

/-- What `Resolver::Resolver` ignores for an application -/
def applicationIgnore : List Str :=
  ["node.os", "node.hostname", "node.release", "node.version", "node.machine", "node.datadir",
    "node.data"].map String.toList

/-- `setReserved` -/
def setReserved (reserved : List (Str × Str)) (name value : Str) : List (Str × Str) :=
  (name, value) :: reserved.filter fun e => e.1 ≠ name

/-- `Resolver::Resolver` for an application, as far as its variables go -/
def ofApplication (name : Str) (vars : List (Str × Str)) : Option Resolver :=
  if (vars.any fun e => (getReserved.lookup e.1).isSome) ∨ vars.any fun e => e.1 = [] then
    none
  else
    some
      { escape := false
        vars
        parameters := []
        reserved := setReserved getReserved "application".toList name
        ignore := applicationIgnore }

/-- `value.replace(start, n, new)` -/
def replace (value : Str) (start n : Nat) (new : Str) : Str :=
  value.take start ++ new ++ value.drop (start + n)

/-- `value.find` for the beginning of a reference -/
def findReference : Str → Option Nat
  | [] => none
  | c :: s => if c = '$' ∧ s.head? = some '\x7b' then some 0 else (findReference s).map (· + 1)

/-- How many `$` are directly before a position -/
def dollarsBefore (value : Str) (beg : Nat) : Nat :=
  ((value.take beg).reverse.takeWhile (· = '$')).length

variable (resolver : Resolver)

/-- `getVariable`, with whether it is a parameter -/
def getVariable (name : Str) (checkParams : Bool) : Except Str (Str × Bool) :=
  match resolver.reserved.lookup name with
  | some value =>
    if value = [] then .error ("undefined variable `".toList ++ name ++ "'".toList)
    else .ok (value, false)
  | none =>
    match if checkParams then resolver.parameters.lookup name else none with
    | some value => .ok (value, true)
    | none =>
      match resolver.vars.lookup name with
      | some value => .ok (value, false)
      | none => .error ("undefined variable `".toList ++ name ++ "'".toList)

/-- What a turn of the loop of `substitute` comes to -/
inductive Turn
  | done
  | throws (what : Str)
  /-- The loop goes on with another string or position. -/
  | next (value : Str) (beg : Nat)
  /-- The reference from `beg` to `fin` is to be replaced by `val`, the value of the variable
  `name`, when that is substituted. -/
  | resolve (name val value : Str) (beg fin : Nat)
  deriving DecidableEq, Repr

/-- The reference at a position -/
def reference (useParams useIgnored : Bool) (value : Str) (beg : Nat) : Turn :=
  match (value.drop beg).findIdx? (· = '\x7d') with
  | none => .throws ("malformed variable name `".toList ++ value ++ "'".toList)
  | some j =>
    let fin := beg + j
    let name := (value.drop (beg + 2)).take (fin - beg - 2)
    if name ∈ resolver.ignore then
      if useIgnored then .next value (beg + 1)
      else
        .throws ("use of the `".toList ++ name ++ "' variable is now allowed here".toList)
    else
      match resolver.getVariable name useParams with
      | .error what => .throws what
      | .ok (val, true) => .next (replace value beg (fin - beg + 1) val) (beg + val.length)
      | .ok (val, false) => .resolve name val value beg fin

/-- A turn of the loop of `substitute` -/
def turn (useParams useIgnored : Bool) (value : Str) (beg : Nat) : Turn :=
  match findReference (value.drop beg) with
  | none => .done
  | some i =>
    let beg := beg + i
    let run := dollarsBefore value beg
    let halved := replace value (beg - run) run (List.replicate (run / 2) '$')
    if run % 2 = 1 then .next (if resolver.escape then halved else value) (beg + 1)
    else resolver.reference useParams useIgnored halved (beg - run / 2)

variable {resolver}

variable {useParams useIgnored : Bool} {value value' name val v w : Str} {beg beg' fin n m i : Nat}

theorem length_of_findReference {s : Str} (h : findReference s = some i) : i + 1 < s.length := by
  induction s generalizing i with
  | nil => cases h
  | cons c s ih =>
    rw [findReference] at h
    split at h
    · rename_i hc
      cases h
      obtain ⟨-, hhead⟩ := hc
      cases s with
      | nil => cases hhead
      | cons d s =>
        rw [List.length_cons, List.length_cons]
        omega
    · obtain ⟨j, hj, rfl⟩ := Option.map_eq_some_iff.mp h
      have hlt := ih hj
      rw [List.length_cons]
      omega

theorem dollarsBefore_le (value : Str) (beg : Nat) :
    dollarsBefore value beg ≤ beg ∧ dollarsBefore value beg ≤ value.length := by
  have hlength : dollarsBefore value beg ≤ (value.take beg).length := by
    rw [← List.length_reverse]
    exact List.IsPrefix.length_le (List.takeWhile_prefix _)
  rw [List.length_take] at hlength
  omega

theorem length_replace {start : Nat} {new : Str} (h : start + n ≤ value.length) :
    (replace value start n new).length = value.length - n + new.length := by
  unfold replace
  rw [List.length_append, List.length_append, List.length_take, List.length_drop]
  omega

/-- A reference is left behind. -/
theorem reference_lt (hbeg : beg + 1 < value.length) :
    (∀ value' beg', resolver.reference useParams useIgnored value beg = .next value' beg' →
      value'.length - beg' < value.length - beg) ∧
    ∀ name val value' beg' fin,
      resolver.reference useParams useIgnored value beg = .resolve name val value' beg' fin →
      value' = value ∧ beg' = beg ∧ beg ≤ fin ∧ fin < value.length := by
  unfold reference
  cases hfind : (value.drop beg).findIdx? (· = '\x7d') with
  | none =>
    constructor
    · rintro value' beg' h
      cases h
    · rintro name val value' beg' fin h
      cases h
  | some j =>
    have hj : j < (value.drop beg).length := (List.findIdx?_eq_some_iff_getElem.mp hfind).1
    rw [List.length_drop] at hj
    dsimp only
    constructor
    · intro value' beg' h
      split at h
      · split at h
        · cases h
          omega
        · cases h
      · split at h
        · cases h
        · cases h
          rw [length_replace (by omega)]
          omega
        · cases h
    · intro name val value' beg' fin h
      split at h
      · split at h
        · cases h
        · cases h
      · split at h
        · cases h
        · cases h
        · cases h
          exact ⟨rfl, rfl, by omega, by omega⟩

/-- Each turn leaves less of the string behind the position. -/
theorem turn_lt :
    (∀ value' beg', resolver.turn useParams useIgnored value beg = .next value' beg' →
      value'.length - beg' < value.length - beg) ∧
    ∀ name val value' beg' fin,
      resolver.turn useParams useIgnored value beg = .resolve name val value' beg' fin →
      beg' ≤ fin ∧ fin < value'.length ∧ value'.length - beg' ≤ value.length - beg := by
  unfold turn
  cases hfind : findReference (value.drop beg) with
  | none =>
    constructor
    · rintro value' beg' h
      cases h
    · rintro name val value' beg' fin h
      cases h
  | some i =>
    have hi := length_of_findReference hfind
    rw [List.length_drop] at hi
    obtain ⟨hrun, -⟩ := dollarsBefore_le value (beg + i)
    dsimp only
    generalize dollarsBefore value (beg + i) = run at hrun
    have hhalved : (replace value (beg + i - run) run (List.replicate (run / 2) '$')).length =
        value.length - run + run / 2 := by
      rw [length_replace (by omega), List.length_replicate]
    by_cases hodd : run % 2 = 1
    · rw [if_pos hodd]
      constructor
      · intro value' beg' h
        cases h
        split
        · omega
        · omega
      · intro name val value' beg' fin h
        cases h
    · rw [if_neg hodd]
      obtain ⟨hnext, hresolve⟩ := @reference_lt resolver useParams useIgnored
        (replace value (beg + i - run) run (List.replicate (run / 2) '$'))
        (beg + i - run / 2) (by omega)
      constructor
      · intro value' beg' h
        have hlt := hnext value' beg' h
        omega
      · intro name val value' beg' fin h
        obtain ⟨rfl, rfl, hle, hlt⟩ := hresolve name val value' beg' fin h
        exact ⟨hle, hlt, by omega⟩

variable (resolver) (useParams useIgnored)

/-- What replaces a reference when the value of its variable is substituted, with the position
behind it -/
def insertValue (value : Str) (beg fin : Nat) (r : Str) : Str × Nat :=
  (replace value beg (fin - beg + 1) r, beg + r.length)

theorem insertValue_lt {r : Str} (hle : beg ≤ fin) (hlt : fin < value.length) :
    (insertValue value beg fin r).1.length - (insertValue value beg fin r).2 <
      value.length - beg := by
  unfold insertValue
  rw [length_replace (by omega)]
  omega

/-- The loop of `substitute`; `nested` is the nested call for the value of a variable. -/
def substituteLoop (nested : Str → Except SubstituteError Str) (value : Str) (beg : Nat) :
    Except SubstituteError Str :=
  match _hturn : resolver.turn useParams useIgnored value beg with
  | .done => .ok value
  | .throws what => .error (.invalidArgument what)
  | .next value' beg' => substituteLoop nested value' beg'
  | .resolve _ val value' beg' fin =>
    match nested val with
    | .error e => .error e
    | .ok r =>
      substituteLoop nested (insertValue value' beg' fin r).1 (insertValue value' beg' fin r).2
termination_by value.length - beg
decreasing_by
  · exact turn_lt.1 _ _ _hturn
  · obtain ⟨hle, hlt, hbefore⟩ := turn_lt.2 _ _ _ _ _ _hturn
    exact Nat.lt_of_lt_of_le (insertValue_lt hle hlt) hbefore

/-- `substitute`, with how many calls may be nested -/
def substitute : Nat → Bool → Str → Except SubstituteError Str
  | 0, _, _ => .error .unfinished
  | n + 1, useParams, v =>
    resolver.substituteLoop useParams useIgnored (substitute n false) v 0

variable {resolver} {useParams useIgnored} {nested nested' : Str → Except SubstituteError Str}
  {r : Str} {l : List Str}

theorem substituteLoop_eq : resolver.substituteLoop useParams useIgnored nested value beg =
    match resolver.turn useParams useIgnored value beg with
    | .done => .ok value
    | .throws what => .error (.invalidArgument what)
    | .next value' beg' => resolver.substituteLoop useParams useIgnored nested value' beg'
    | .resolve _ val value' beg' fin =>
      match nested val with
      | .error e => .error e
      | .ok r => resolver.substituteLoop useParams useIgnored nested
        (insertValue value' beg' fin r).1 (insertValue value' beg' fin r).2 := by
  rw [substituteLoop]
  split
  all_goals
    rename_i h
    rw [h]

/-- The induction along the loop -/
theorem turn_induction (resolver : Resolver) (useParams useIgnored : Bool)
    {motive : Str → Nat → Prop}
    (done : ∀ value beg, resolver.turn useParams useIgnored value beg = .done → motive value beg)
    (throws : ∀ value beg what,
      resolver.turn useParams useIgnored value beg = .throws what → motive value beg)
    (next : ∀ value beg value' beg',
      resolver.turn useParams useIgnored value beg = .next value' beg' →
      motive value' beg' → motive value beg)
    (resolve : ∀ value beg name val value' beg' fin,
      resolver.turn useParams useIgnored value beg = .resolve name val value' beg' fin →
      (∀ r, motive (insertValue value' beg' fin r).1 (insertValue value' beg' fin r).2) →
      motive value beg) (value : Str) (beg : Nat) : motive value beg := by
  induction hn : value.length - beg using Nat.strongRecOn generalizing value beg with
  | ind n ih =>
    cases h : resolver.turn useParams useIgnored value beg with
    | done => exact done value beg h
    | throws what => exact throws value beg what h
    | next value' beg' =>
      have hlt := turn_lt.1 _ _ h
      exact next value beg value' beg' h (ih _ (by omega) value' beg' rfl)
    | resolve name val value' beg' fin =>
      obtain ⟨hle, hfin, hbefore⟩ := turn_lt.2 _ _ _ _ _ h
      refine resolve value beg name val value' beg' fin h fun r => ?_
      have hlt := insertValue_lt (r := r) hle hfin
      exact ih _ (by omega) _ _ rfl

/-- `nested'` does what `nested` does where that comes to an end. -/
def Agrees (nested' nested : Str → Except SubstituteError Str) : Prop :=
  ∀ v, nested v ≠ .error .unfinished → nested' v = nested v

theorem substituteLoop_agrees (hagrees : Agrees nested' nested) (value : Str) (beg : Nat)
    (h : resolver.substituteLoop useParams useIgnored nested value beg ≠ .error .unfinished) :
    resolver.substituteLoop useParams useIgnored nested' value beg =
      resolver.substituteLoop useParams useIgnored nested value beg := by
  induction value, beg using turn_induction resolver useParams useIgnored with
  | done value beg hturn | throws value beg what hturn =>
    rw [substituteLoop_eq, hturn, substituteLoop_eq, hturn]
  | next value beg value' beg' hturn ih =>
    rw [substituteLoop_eq, hturn] at h ⊢
    rw [substituteLoop_eq, hturn]
    exact ih h
  | resolve value beg name val value' beg' fin hturn ih =>
    rw [substituteLoop_eq, hturn] at h ⊢
    rw [substituteLoop_eq, hturn]
    dsimp only at h ⊢
    have hends : nested val ≠ .error .unfinished := by
      intro heq
      rw [heq] at h
      exact h rfl
    rw [hagrees val hends]
    cases hval : nested val with
    | error e => rfl
    | ok r =>
      rw [hval] at h
      exact ih r h

/-- More calls may be nested than are. -/
theorem substitute_mono (n k : Nat) {v : Str}
    (h : resolver.substitute useIgnored n useParams v ≠ .error .unfinished) :
    resolver.substitute useIgnored (n + k) useParams v =
      resolver.substitute useIgnored n useParams v := by
  induction n generalizing useParams v with
  | zero => exact absurd rfl h
  | succ n ih =>
    rw [Nat.add_right_comm]
    exact substituteLoop_agrees (fun w hw => ih hw) v 0 h

variable (resolver) (useIgnored)

/-- The value that is substituted for a variable -/
def valueOf (name : Str) : Option Str :=
  (resolver.reserved.lookup name).or (resolver.vars.lookup name)

/-- The names of the variables that have a value -/
def names : List Str := (resolver.reserved ++ resolver.vars).map Prod.fst

/-- A call comes to an end. -/
def Ends (n : Nat) (useParams : Bool) (v : Str) : Prop :=
  resolver.substitute useIgnored n useParams v ≠ .error .unfinished

/-- The loop comes from a string and position to a reference to a variable with a value. The
references before it have been replaced by what their values come to. -/
inductive ComesTo (useParams : Bool) : Str → Nat → Str → Str → Prop
  | here {value value' name val : Str} {beg beg' fin : Nat}
      (hturn : resolver.turn useParams useIgnored value beg = .resolve name val value' beg' fin) :
      ComesTo useParams value beg name val
  | next {value value' name val : Str} {beg beg' : Nat}
      (hturn : resolver.turn useParams useIgnored value beg = .next value' beg')
      (hrest : ComesTo useParams value' beg' name val) : ComesTo useParams value beg name val
  | after {value value' name val first firstVal r : Str} {beg beg' fin n : Nat}
      (hturn : resolver.turn useParams useIgnored value beg =
        .resolve first firstVal value' beg' fin)
      (hfirst : resolver.substitute useIgnored n false firstVal = .ok r)
      (hrest : ComesTo useParams (insertValue value' beg' fin r).1 (insertValue value' beg' fin r).2
        name val) : ComesTo useParams value beg name val

/-- The variables that nested calls are made for, each from within the value of the one before -/
inductive Chain : Bool → Str → List Str → Prop
  | nil {useParams : Bool} {v : Str} : Chain useParams v []
  | cons {useParams : Bool} {v name val : Str} {l : List Str}
      (hcomes : ComesTo resolver useIgnored useParams v 0 name val) (hrest : Chain false val l) :
      Chain useParams v (name :: l)

variable {resolver} {useIgnored}

theorem valueOf_of_getVariable (h : resolver.getVariable name useParams = .ok (val, false)) :
    resolver.valueOf name = some val := by
  unfold getVariable at h
  unfold valueOf
  cases hreserved : resolver.reserved.lookup name with
  | some value =>
    rw [hreserved] at h
    dsimp only at h
    split at h
    · cases h
    · cases h
      rfl
  | none =>
    rw [hreserved] at h
    dsimp only at h
    split at h
    · cases h
    · cases hvar : resolver.vars.lookup name with
      | none =>
        rw [hvar] at h
        cases h
      | some value =>
        rw [hvar] at h
        cases h
        rfl

theorem mem_names (h : resolver.valueOf name = some val) : name ∈ resolver.names := by
  unfold valueOf at h
  unfold names
  rw [List.map_append, List.mem_append]
  have hmem {l : List (Str × Str)} (hl : l.lookup name = some val) : name ∈ l.map Prod.fst := by
    obtain ⟨l₁, l₂, rfl, -⟩ := List.lookup_eq_some_iff.mp hl
    exact List.mem_map_of_mem (List.mem_append_right l₁ (List.mem_cons_self ..))
  rcases Option.or_eq_some_iff.mp h with h | ⟨-, h⟩
  · exact Or.inl (hmem h)
  · exact Or.inr (hmem h)

theorem valueOf_of_turn
    (h : resolver.turn useParams useIgnored value beg = .resolve name val value' beg' fin) :
    resolver.valueOf name = some val := by
  unfold turn at h
  split at h
  · cases h
  · dsimp only at h
    split at h
    · cases h
    · unfold reference at h
      split at h
      · cases h
      · dsimp only at h
        split at h
        · split at h
          · cases h
          · cases h
        · split at h
          · cases h
          · cases h
          · rename_i hvariable
            cases h
            exact valueOf_of_getVariable hvariable

section

variable (h : ComesTo resolver useIgnored useParams value beg name val)

include h

theorem ComesTo.valueOf :
    resolver.valueOf name = some val := by
  induction h with
  | here hturn => exact valueOf_of_turn hturn
  | next hturn hrest ih => exact ih
  | after hturn hfirst hrest ih => exact ih

/-- What a call comes to ends with it. -/
theorem ComesTo.ends_loop
    (hends : resolver.substituteLoop useParams useIgnored
      (resolver.substitute useIgnored n false) value beg ≠ .error .unfinished) :
    resolver.Ends useIgnored n false val := by
  induction h with
  | here hturn =>
    rw [substituteLoop_eq, hturn] at hends
    dsimp only at hends
    intro hunfinished
    rw [hunfinished] at hends
    exact hends rfl
  | next hturn hrest ih =>
    rw [substituteLoop_eq, hturn] at hends
    exact ih hends
  | after hturn hfirst hrest ih =>
    rename_i value value' name val first firstVal r beg beg' fin m
    rw [substituteLoop_eq, hturn] at hends
    dsimp only at hends
    have hfirstEnds : resolver.substitute useIgnored n false firstVal ≠ .error .unfinished := by
      intro hunfinished
      rw [hunfinished] at hends
      exact hends rfl
    -- both ways to number the nested calls are enough
    have hmono := substitute_mono n m hfirstEnds
    have hmono' := @substitute_mono resolver false useIgnored m n firstVal
      (by rw [hfirst]; exact fun heq => nomatch heq)
    rw [Nat.add_comm, hmono', hfirst] at hmono
    rw [← hmono] at hends
    exact ih hends

end

theorem ComesTo.ends (h : ComesTo resolver useIgnored useParams v 0 name val)
    (hends : resolver.Ends useIgnored (n + 1) useParams v) : resolver.Ends useIgnored n false val :=
  h.ends_loop hends

/-- A call ends if the calls end that it comes to. -/
theorem ends_of_forall (h : ∀ name val, ComesTo resolver useIgnored useParams v 0 name val →
    resolver.Ends useIgnored n false val) : resolver.Ends useIgnored (n + 1) useParams v := by
  have hloop (value : Str) (beg : Nat)
      (h : ∀ name val, ComesTo resolver useIgnored useParams value beg name val →
        resolver.Ends useIgnored n false val) :
      resolver.substituteLoop useParams useIgnored (resolver.substitute useIgnored n false)
        value beg ≠ .error .unfinished := by
    induction value, beg using turn_induction resolver useParams useIgnored with
    | done value beg hturn | throws value beg what hturn =>
      rw [substituteLoop_eq, hturn]
      exact fun heq => nomatch heq
    | next value beg value' beg' hturn ih =>
      rw [substituteLoop_eq, hturn]
      exact ih fun name val hcomes => h name val (.next hturn hcomes)
    | resolve value beg name val value' beg' fin hturn ih =>
      rw [substituteLoop_eq, hturn]
      dsimp only
      have hval := h name val (.here hturn)
      cases hresult : resolver.substitute useIgnored n false val with
      | error e =>
        intro heq
        cases heq
        exact hval hresult
      | ok r => exact ih r fun name' val' hcomes => h name' val' (.after hturn hresult hcomes)
  exact hloop v 0 h

section

variable (h : Chain resolver useIgnored useParams v l)

include h

theorem Chain.mem_names (hname : name ∈ l) :
    name ∈ resolver.names := by
  induction h with
  | nil => cases hname
  | cons hcomes hrest ih =>
    rcases List.mem_cons.mp hname with rfl | hname
    · exact Resolver.mem_names hcomes.valueOf
    · exact ih hname

/-- A call that is nested more deeply ends with fewer calls. -/
theorem Chain.ends (hname : name ∈ l)
    (hends : resolver.Ends useIgnored n useParams v) :
    ∃ m val, m < n ∧ resolver.valueOf name = some val ∧ resolver.Ends useIgnored m false val := by
  induction h generalizing n with
  | nil => cases hname
  | cons hcomes hrest ih =>
    cases n with
    | zero => exact absurd rfl hends
    | succ n =>
      have hval := hcomes.ends hends
      rcases List.mem_cons.mp hname with rfl | hname
      · exact ⟨n, _, Nat.lt_succ_self n, hcomes.valueOf, hval⟩
      · obtain ⟨m, val, hlt, hvalue, hm⟩ := ih hname hval
        exact ⟨m, val, Nat.lt_succ_of_lt hlt, hvalue, hm⟩

/-- Where a call ends, no call for a variable is nested in another for it. -/
theorem Chain.nodup
    (hends : resolver.Ends useIgnored n useParams v) : l.Nodup := by
  induction h generalizing n with
  | nil => exact List.nodup_nil
  | cons hcomes hrest ih =>
    rename_i name val l
    cases n with
    | zero => exact absurd rfl hends
    | succ n =>
      have hval := hcomes.ends hends
      refine List.nodup_cons.mpr ⟨fun hmem => ?_, ih hval⟩
      -- the least number of calls that is enough for the value would not be the least
      have hnever (m : Nat) : ¬resolver.Ends useIgnored m false val := by
        induction m using Nat.strongRecOn with
        | ind m ihm =>
          intro hm
          obtain ⟨k, val', hlt, hvalue, hk⟩ := hrest.ends hmem hm
          rw [hcomes.valueOf] at hvalue
          cases hvalue
          exact ihm k hlt hk
      exact hnever n hval

end

theorem ends_of_length (d : Nat)
    (h : ∀ l, Chain resolver useIgnored useParams v l → l.length ≤ d) :
    resolver.Ends useIgnored (d + 1) useParams v := by
  induction d generalizing useParams v with
  | zero =>
    apply ends_of_forall
    intro name val hcomes
    have hlength := h [name] (.cons hcomes .nil)
    cases hlength
  | succ d ih =>
    apply ends_of_forall
    intro name val hcomes
    apply ih
    intro l hl
    exact Nat.le_of_succ_le_succ (h (name :: l) (.cons hcomes hl))

/-- `substitute` ends if and only if it never comes to a variable from within its own value, and
then no more calls are nested than there are variables. -/
theorem substitute_ends_iff (resolver : Resolver) (useParams useIgnored : Bool) (v : Str) :
    ((∃ n, resolver.Ends useIgnored n useParams v) ↔
      ∀ l, Chain resolver useIgnored useParams v l → l.Nodup) ∧
    ((∀ l, Chain resolver useIgnored useParams v l → l.Nodup) →
      resolver.Ends useIgnored (resolver.names.length + 1) useParams v) := by
  have hbound (h : ∀ l, Chain resolver useIgnored useParams v l → l.Nodup) :
      resolver.Ends useIgnored (resolver.names.length + 1) useParams v := by
    apply ends_of_length
    intro l hl
    have hsub : l ⊆ resolver.names := fun name hname => hl.mem_names hname
    exact ((h l hl).subperm hsub).length_le
  refine ⟨⟨?_, fun h => ⟨_, hbound h⟩⟩, hbound⟩
  rintro ⟨n, hends⟩ l hl
  exact hl.nodup hends

/-- The application with the variable `a`, the value of which refers to it -/
def selfReferring : Resolver where
  escape := false
  vars := [("a".toList, "$\x7ba\x7d".toList)]
  parameters := []
  reserved := setReserved getReserved "application".toList "app".toList
  ignore := applicationIgnore

/-- The registry accepts the application, and `substitute` does not end. -/
theorem not_ends_selfReferring :
    ofApplication "app".toList [("a".toList, "$\x7ba\x7d".toList)] = some selfReferring ∧
      ∀ n, ¬selfReferring.Ends true n true "$\x7ba\x7d".toList := by
  constructor
  · rfl
  · have hturn (useParams : Bool) : selfReferring.turn useParams true "$\x7ba\x7d".toList 0 =
        .resolve "a".toList "$\x7ba\x7d".toList "$\x7ba\x7d".toList 0 3 := by
      cases useParams with
      | false => rfl
      | true => rfl
    intro n hends
    have hchain : Chain selfReferring true true "$\x7ba\x7d".toList ["a".toList, "a".toList] :=
      .cons (.here (hturn true)) (.cons (.here (hturn false)) .nil)
    have hnodup := hchain.nodup hends
    exact absurd hnodup (by decide)

end Resolver

end Ice.IceGrid
