import Ice.Connection.HttpAccepting

/-!
# Where HTTP messages end

`isCompleteMessage` looks for two ends of lines with nothing between them but CR characters, and
`parse` takes a line of spaces for the end of a message, too. What is behind such a line up to
the position that `isCompleteMessage` returns is dropped; every other message that is not
rejected is read up to that position.
-/

namespace Ice.Connection

open Ice.Lib
open List (append_assoc append_nil cons_append length_append length_cons mem_cons mem_cons_self)
open Language (append_mem_mul mem_mul)
open scoped Computability

namespace Http

variable {l text : List UInt8} {c : UInt8}

/-- Two ends of lines, with nothing between them but CR characters -/
def twoEnds : Language UInt8 := endsIn (· = lf) * wordsOver (· = cr) * {[lf]}

/-- A line that is not empty is at its end. -/
def lineEnd : Language UInt8 := endsIn (fun c => ¬ Ends c) * eol

theorem endsIn_lf_of_eol (h : l ∈ eol) : l ∈ endsIn (· = lf) := by
  rcases h with rfl | rfl
  · exact ⟨[], lf, rfl, rfl⟩
  · exact ⟨[cr], lf, rfl, rfl⟩

theorem not_lineEnd_of_twoEnds (h : l ∈ twoEnds) : l ∉ lineEnd := by
  intro hline
  obtain ⟨u, hu, v, rfl, rfl⟩ := mem_mul.mp h
  have hends : ∀ w ∈ endsIn (· = lf) * wordsOver (· = cr), w ∈ endsIn Ends := by
    intro w hw
    apply endsIn_of_mul_over (A := endsIn (· = lf)) (mul_mono_right hw fun b hb a ha =>
      .inl (hb a ha))
    exact fun v hv => endsIn_mono hv fun a ha => .inr ha
  obtain ⟨x, hx, e, he, heq⟩ := mem_mul.mp hline
  rcases he with rfl | rfl
  · have hxu : x = u := List.append_cancel_right heq
    rw [hxu] at hx
    exact not_endsIn (hends u hu) (fun a ha => not_not.mpr ha) hx
  · have hxu : x ++ [cr] = u := by
      apply @List.append_cancel_right _ _ [lf]
      rw [append_assoc]
      exact heq
    obtain ⟨y, hy, w, hw, hyw⟩ := mem_mul.mp hu
    rw [← hxu] at hyw
    rcases List.eq_nil_or_concat w with hnil | ⟨w', a, hsnoc⟩
    · rw [hnil, append_nil] at hyw
      rw [hyw] at hy
      exact absurd (mem_endsIn_snoc.mp hy) (by decide)
    · rw [List.concat_eq_append] at hsnoc
      rw [hsnoc, ← append_assoc] at hyw
      have hx' : x = y ++ w' := (List.append_inj' hyw rfl).1.symm
      have hw' : w' ∈ wordsOver (· = cr) := by
        intro b hb
        apply hw b
        rw [hsnoc]
        exact List.mem_append_left _ hb
      rw [hx'] at hx
      exact not_endsIn (hends _ (append_mem_mul hy hw')) (fun a ha => not_not.mpr ha) hx

theorem isDigit_not_ends (h : isDigit c = true) : ¬ Ends c := by
  rintro (rfl | rfl)
  · exact absurd h (by decide)
  · exact absurd h (by decide)

theorem endsIn_number (h : l ∈ number) : l ∈ endsIn (fun c => ¬ Ends c) := by
  apply endsIn_of_someOver
  constructor
  · rintro rfl
    exact h.2 rfl
  · intro c hc
    exact isDigit_not_ends (h.1 c hc)

theorem space_not_ends (h : c = space) : ¬ Ends c := by
  rw [h]
  decide

theorem endsIn_gap (h : l ∈ gap) : l ∈ endsIn (fun c => ¬ Ends c) :=
  endsIn_mono (endsIn_of_someOver h) fun _ ha => space_not_ends ha

variable {A : Language UInt8} {e u : List UInt8} {p : Nat}

/-- Each line of a message is not empty. -/
theorem lineEnd_of_mul {B : Language UInt8} (h : l ∈ A * (B * eol))
    (hB : ∀ b ∈ B, b ∈ endsIn (fun c => ¬ Ends c)) : l ∈ lineEnd := by
  rw [← mul_assoc] at h
  obtain ⟨u, hu, e, he, rfl⟩ := mem_mul.mp h
  exact append_mem_mul (endsIn_of_mul hu hB) he

theorem endsIn_version (h : l ∈ version) : l ∈ endsIn (fun c => ¬ Ends c) :=
  endsIn_of_mul h fun _ hb => endsIn_number hb

theorem endsIn_responseStatus (h : l ∈ responseStatus) : l ∈ endsIn (fun c => ¬ Ends c) :=
  endsIn_of_mul h fun _ hb => endsIn_number hb

theorem endsIn_value {x : UInt8} (hx : ¬ Ends x) (h : l ∈ A * {[x]} * plain) :
    l ∈ endsIn (fun c => ¬ Ends c) := by
  apply endsIn_of_mul_over h
  intro u hu
  apply endsIn_of_mul hu
  rintro b rfl
  exact ⟨[], x, rfl, hx⟩

theorem lineEnd_heading (h : l ∈ heading) : l ∈ lineEnd := by
  obtain ⟨u, hu, v, hv, rfl⟩ := mem_mul.mp h
  rcases hv with hv | hv | hv
  · exact lineEnd_of_mul (append_mem_mul hu hv) fun _ hb =>
      endsIn_of_mul hb fun _ hd => endsIn_version hd
  · exact lineEnd_of_mul (append_mem_mul hu hv) fun _ hb => endsIn_responseStatus hb
  · exact lineEnd_of_mul (append_mem_mul hu hv) fun _ hb => endsIn_value (by decide) hb

theorem lineEnd_append (h : l ∈ lineEnd) (u : List UInt8) : u ++ l ∈ lineEnd := by
  obtain ⟨x, hx, e, he, rfl⟩ := mem_mul.mp h
  rw [← append_assoc]
  exact append_mem_mul (endsIn_append hx) he

theorem lineEnd_field (h : l ∈ field) : l ∈ lineEnd := by
  obtain ⟨x, hx, e, he, rfl⟩ := mem_mul.mp h
  exact append_mem_mul (endsIn_value (by decide) hx) he

theorem lineEnd_continuation (h : l ∈ continuation) : l ∈ lineEnd := by
  obtain ⟨x, hx, e, he, rfl⟩ := mem_mul.mp h
  apply append_mem_mul _ he
  exact endsIn_of_mul hx fun b hb => endsIn_of_someOver hb.1

theorem lineEnd_lines {named : Bool} (h : l ∈ lines named) : l ∈ lineEnd := by
  cases named
  · exact lineEnd_heading h
  · obtain ⟨u, hu, v, hv, rfl⟩ := mem_mul.mp
      (show l ∈ heading * field * (field + continuation)∗ from h)
    apply kstar_induction (I := fun v => u ++ v ∈ lineEnd) hv
    · rw [append_nil]
      obtain ⟨x, _, f, hf, rfl⟩ := mem_mul.mp hu
      exact lineEnd_append (lineEnd_field hf) x
    · intro w _ b hb _
      rw [← append_assoc]
      rcases hb with hb | hb
      · exact lineEnd_append (lineEnd_field hb) _
      · exact lineEnd_append (lineEnd_continuation hb) _

theorem lineEnd_head (h : l ∈ head) : l ∈ lineEnd := by
  rcases h with h | h
  · exact lineEnd_lines h
  · exact lineEnd_lines h

open HttpParser (Scan)

variable {s : Scan}

theorem not_twoEnds_of_endsIn (h : l ∈ endsIn (fun c => ¬ Ends c)) : l ∉ twoEnds := by
  intro htwo
  have hlf : l ∈ endsIn (· = lf) := by
    apply endsIn_of_mul htwo
    rintro b rfl
    exact ⟨[], lf, rfl, rfl⟩
  exact not_endsIn hlf (fun a ha => not_not.mpr (.inr ha)) h

theorem not_twoEnds_snoc_cr (l : List UInt8) : l ++ [cr] ∉ twoEnds := by
  intro htwo
  have hlf : l ++ [cr] ∈ endsIn (· = lf) := by
    apply endsIn_of_mul htwo
    rintro b rfl
    exact ⟨[], lf, rfl, rfl⟩
  exact absurd (mem_endsIn_snoc.mp hlf) (by decide)

/-- What is before the end of a line, if the last character of that is still to come -/
theorem eq_of_eol (he : e ∈ eol) (heq : u ++ e = l ++ [lf]) : l = u ∨ l = u ++ [cr] := by
  rcases he with rfl | rfl
  · exact .inl (List.append_cancel_right heq).symm
  · apply Or.inr
    apply @List.append_cancel_right _ _ [lf]
    rw [append_assoc]
    exact heq.symm

theorem endsIn_singleton (hc : ¬ Ends c) : ∀ b ∈ ({[c]} : Language UInt8),
    b ∈ endsIn (fun c => ¬ Ends c) := by
  rintro b rfl
  exact ⟨[], c, rfl, hc⟩

theorem endsIn_take_http {b : List UInt8} {k : Nat} (hk : b = http.take (k + 1)) :
    b ∈ endsIn (fun c => ¬ Ends c) := by
  apply endsIn_of_someOver
  have hall : ∀ c ∈ http, ¬ Ends c := forall_of_all (by decide)
  constructor
  · simp [hk, http]
  · intro c hc
    rw [hk] at hc
    exact hall c (List.mem_of_mem_take hc)

theorem endsIn_word (h : l ∈ word) : l ∈ endsIn (fun c => ¬ Ends c) :=
  endsIn_mono (endsIn_of_someOver h) fun _ ha => ha.2

theorem endsIn_someMethod (h : l ∈ someMethod) : l ∈ endsIn (fun c => ¬ Ends c) :=
  endsIn_mono (endsIn_of_someOver ⟨h.2, h.1.1⟩) fun _ ha => ha.2

/-- The digits of a number that was begun -/
theorem endsIn_digits {n : Int} (h : l ∈ A * digits n)
    (hA : ∀ u ∈ A, u ∈ endsIn (fun c => ¬ Ends c)) : l ∈ endsIn (fun c => ¬ Ends c) := by
  apply endsIn_of_mul_over _ hA
  exact mul_mono_right h fun b hb c hc => isDigit_not_ends (hb.1 c hc)

theorem not_twoEnds_start (h : SeenStart text 0 s) (hplain : text ∉ leading) : text ∉ twoEnds := by
  have hzero : ¬ ((0 : UInt8) = space ∨ Ends 0) := by
    decide
  have hmethod (hin : InMethod text 0) : text ∉ twoEnds := by
    rcases hin with hin | ⟨hin, _⟩
    · exact not_twoEnds_of_endsIn (endsIn_of_mul hin fun _ hb => endsIn_someMethod hb)
    · exact absurd hin hplain
  have hgap {A B : Language UInt8} (hin : text ∈ A * (B * gap)) : text ∉ twoEnds :=
    not_twoEnds_of_endsIn (endsIn_of_mul hin fun _ hb => endsIn_of_mul hb fun _ hd => endsIn_gap hd)
  have hhttp {A : Language UInt8} (k : Nat) (hin : text ∈ A * {http.take (k + 1)}) :
      text ∉ twoEnds :=
    not_twoEnds_of_endsIn (endsIn_of_mul hin fun _ hb => endsIn_take_http hb)
  unfold SeenStart at h
  split at h
  case h_1 => exact absurd h hplain
  case h_2 => exact not_twoEnds_of_endsIn (endsIn_of_mul h (endsIn_singleton (by decide)))
  case h_3 => exact hmethod h
  case h_4 => exact hmethod h.2
  case h_5 => exact hgap (h.2.resolve_left fun h => hzero h.2)
  case h_6 =>
    rcases h.2 with ⟨h, _⟩ | h
    · exact hgap h
    · exact not_twoEnds_of_endsIn (endsIn_of_mul h fun _ hb =>
        endsIn_of_mul hb fun _ hd => endsIn_word hd)
  case h_7 => exact hgap (h.2.resolve_left fun h => hzero h.2)
  case h_8 => exact hgap h.2
  case h_9 => exact hhttp 0 h
  case h_10 => exact hhttp 1 h
  case h_11 => exact hhttp 2 h
  case h_12 => exact hhttp 3 h
  case h_13 => exact hhttp 1 h
  case h_14 => exact h.elim

/-- What is before the end of a line does not end in another one. -/
theorem not_twoEnds_of_lineEnd_snoc (h : l ++ [lf] ∈ lineEnd) : l ∉ twoEnds := by
  obtain ⟨x, hx, e, he, heq⟩ := mem_mul.mp h
  rcases eq_of_eol he heq with rfl | rfl
  · exact not_twoEnds_of_endsIn hx
  · exact not_twoEnds_snoc_cr x

theorem not_twoEnds_version (h : SeenVersion text s) (hplain : text ∉ leading) :
    text ∉ twoEnds := by
  have hdot {A B : Language UInt8} {n : Int} (hin : text ∈ A * (B * {[byte '.']} * digits n)) :
      text ∉ twoEnds :=
    not_twoEnds_of_endsIn (endsIn_of_mul hin fun _ hb =>
      endsIn_digits hb fun _ hd => endsIn_of_mul hd (endsIn_singleton (by decide)))
  have hvalue {A B : Language UInt8} (hin : text ∈ A * (B * {[space]} * plain)) :
      text ∉ twoEnds :=
    not_twoEnds_of_endsIn (endsIn_of_mul hin fun _ hb => endsIn_value (by decide) hb)
  unfold SeenVersion at h
  split at h
  case h_1 =>
    rw [h] at hplain
    exact absurd (nil_mem_over Ends) hplain
  case h_2 =>
    exact not_twoEnds_of_endsIn (endsIn_of_mul h.2.2 fun _ hb =>
      endsIn_digits hb fun _ hd => endsIn_take_http (k := 4) hd)
  case h_3 => exact hdot h.2
  case h_4 => exact not_twoEnds_of_lineEnd_snoc (lineEnd_heading h)
  case h_5 =>
    exact not_twoEnds_of_endsIn (endsIn_of_mul h.2 fun _ hb =>
      endsIn_of_mul hb fun _ hd => endsIn_gap hd)
  case h_6 =>
    exact not_twoEnds_of_endsIn (endsIn_of_mul h fun _ hb =>
      endsIn_digits hb fun _ hd => endsIn_of_mul hd fun _ hg => endsIn_gap hg)
  case h_7 => exact hvalue h
  case h_8 => exact hvalue h.2
  case h_9 => exact not_twoEnds_of_lineEnd_snoc (lineEnd_heading h)
  case h_10 => exact h.elim

theorem endsIn_folded (h : l ∈ folded) : l ∈ endsIn (fun c => ¬ Ends c) := endsIn_of_someOver h.1

theorem endsIn_fieldName (h : l ∈ fieldName) : l ∈ endsIn (fun c => ¬ Ends c) :=
  endsIn_mono (endsIn_of_someOver h) fun _ ha => ha.2.2

theorem not_twoEnds_header (h : SeenHeader text 0 s) (hs : s.state ≠ .complete) :
    text ∉ twoEnds := by
  have hline {l : List UInt8} (hin : l ∈ lineEnd) : l ∉ twoEnds :=
    fun htwo => not_lineEnd_of_twoEnds htwo hin
  have hvalue {A B : Language UInt8} (hin : text ∈ A * (B * {[byte ':']} * plain)) :
      text ∉ twoEnds :=
    not_twoEnds_of_endsIn (endsIn_of_mul hin fun _ hb => endsIn_value (by decide) hb)
  unfold SeenHeader at h
  split at h
  case h_1 => exact hline (lineEnd_lines h.2)
  case h_2 => exact not_twoEnds_of_endsIn (endsIn_of_mul h.2 fun _ hb => endsIn_gap hb)
  case h_3 =>
    obtain ⟨_, u, hu, v, heq, _, hv⟩ := h
    rw [heq]
    rcases hv with ⟨rfl, _⟩ | hv
    · rw [append_nil]
      exact not_twoEnds_of_endsIn (endsIn_of_mul hu fun _ hb => endsIn_gap hb)
    · exact not_twoEnds_of_endsIn (endsIn_append (endsIn_folded hv))
  case h_4 => exact hline (lineEnd_head h.1)
  case h_5 =>
    obtain ⟨_, u, hu, v, heq, _, hv⟩ := h
    rw [heq]
    rcases hv with ⟨rfl, _⟩ | hv
    · rw [append_nil]
      exact hline (lineEnd_head hu)
    · exact not_twoEnds_of_endsIn (endsIn_append (endsIn_fieldName hv))
  case h_6 =>
    obtain ⟨u, hu, v, sp, heq, _, hsp, hv⟩ := h
    have hname : v ∈ fieldName := by
      rcases hv with ⟨_, _, hv⟩ | ⟨_, hv⟩
      · apply hv.resolve_left
        rintro ⟨_, hcolon⟩
        exact absurd hcolon (by decide)
      · exact hv
    rw [heq]
    apply not_twoEnds_of_endsIn
    rw [append_assoc]
    apply endsIn_append
    apply endsIn_of_mul_over (A := fieldName) _ fun _ hb => endsIn_fieldName hb
    exact append_mem_mul hname fun c hc => space_not_ends (hsp c hc)
  case h_7 => exact hvalue h.2
  case h_8 => exact hvalue h.2.2
  case h_9 => exact absurd h.2.2.1 (by decide)
  case h_10 => exact not_twoEnds_of_lineEnd_snoc (lineEnd_lines h.2)
  case h_11 =>
    obtain ⟨u, hu, v, hv, heq⟩ := mem_mul.mp h
    rcases hv with hv | hv
    · rcases eq_of_eol hv heq with rfl | rfl
      · exact hline (lineEnd_head hu)
      · exact not_twoEnds_snoc_cr u
    · obtain ⟨g, hg, e, he, rfl⟩ := mem_mul.mp hv
      rw [← append_assoc] at heq
      rcases eq_of_eol he heq with rfl | rfl
      · exact not_twoEnds_of_endsIn (endsIn_append (endsIn_gap hg))
      · exact not_twoEnds_snoc_cr (u ++ g)
  case h_12 hcomplete => exact absurd hcomplete hs
  case h_13 => exact h.elim

/-- A text with two ends of lines behind it is not the beginning of a message only. -/
theorem not_twoEnds_of_incomplete (hs : s.state ≠ .complete) (h : Seen text 0 s)
    (hplain : text ∉ leading) : text ∉ twoEnds := by
  rcases h with ⟨_, h⟩ | ⟨_, h⟩ | h
  · exact not_twoEnds_start h hplain
  · exact not_twoEnds_version h hplain
  · exact not_twoEnds_header h hs

open HttpParser (skipLeading findEnd isCompleteMessage)

variable (n : Nat)

theorem skipLeading_eq (lead body : List UInt8) (hlead : lead ∈ leading)
    (hbody : body ∈ startsIn fun c => ¬ Ends c) :
    skipLeading n (lead ++ body) = (n + lead.length, body) := by
  induction lead generalizing n with
  | nil =>
    obtain ⟨c, rest, rfl, hc⟩ := hbody
    rw [List.nil_append, skipLeading, if_pos (not_or.mp hc)]
    rfl
  | cons c lead ih =>
    have hc : Ends c := hlead c mem_cons_self
    rw [cons_append, skipLeading, if_neg fun h => hc.elim h.1 h.2,
      ih _ fun x hx => hlead x (List.mem_cons_of_mem c hx), length_cons]
    congr 1
    omega

theorem skipLeading_cases (text : List UInt8) :
    ∃ lead ∈ leading, text = lead ++ (skipLeading n text).2 ∧
      (skipLeading n text).1 = n + lead.length ∧
      ((skipLeading n text).2 = [] ∨ (skipLeading n text).2 ∈ startsIn fun c => ¬ Ends c) := by
  induction text generalizing n with
  | nil => exact ⟨[], nil_mem_over _, rfl, rfl, .inl rfl⟩
  | cons c text ih =>
    rw [skipLeading]
    split
    · rename_i hc
      exact ⟨[], nil_mem_over _, rfl, rfl, .inr ⟨c, text, rfl, not_or.mpr hc⟩⟩
    · rename_i hc
      have hends : Ends c := by
        unfold Ends
        tauto
      obtain ⟨lead, hlead, heq, hlength, hbody⟩ := ih (n + 1)
      refine ⟨c :: lead, ?_, ?_, ?_, hbody⟩
      · intro x hx
        rcases mem_cons.mp hx with rfl | hx
        · exact hends
        · exact hlead x hx
      · rw [cons_append, ← heq]
      · rw [hlength, length_cons]
        omega

theorem twoEnds_append (h : l ∈ twoEnds) (u : List UInt8) : u ++ l ∈ twoEnds := by
  obtain ⟨x, hx, v, hv, rfl⟩ := mem_mul.mp h
  obtain ⟨y, hy, w, hw, rfl⟩ := mem_mul.mp hx
  rw [← append_assoc, ← append_assoc]
  exact append_mem_mul (append_mem_mul (endsIn_append hy) hw) hv

theorem twoEnds_of_second (h : l ∈ wordsOver (· = cr) * {[lf]}) (hu : u ∈ endsIn (· = lf)) :
    u ++ l ∈ twoEnds := by
  unfold twoEnds
  rw [mul_assoc]
  exact append_mem_mul hu h

/-- What is found are two ends of lines, or the second of them. -/
theorem findEnd_sound {seenFirst : Bool} {n : Nat} {rest : List UInt8}
    (h : findEnd seenFirst n rest = some p) :
    ∃ a w, rest = a ++ w ∧ p = n + a.length ∧
      (a ∈ twoEnds ∨ seenFirst = true ∧ a ∈ wordsOver (· = cr) * {[lf]}) := by
  induction rest generalizing seenFirst n with
  | nil => cases h
  | cons c rest ih =>
    rw [findEnd] at h
    split at h
    · rename_i hlf
      split at h
      · rename_i hseen
        cases h
        refine ⟨[c], rest, rfl, rfl, .inr ⟨hseen, ?_⟩⟩
        rw [hlf]
        exact append_mem_mul (nil_mem_over _) rfl
      · obtain ⟨a, w, rfl, rfl, ha⟩ := ih h
        refine ⟨c :: a, w, rfl, ?_, .inl ?_⟩
        · rw [length_cons]
          omega
        · rcases ha with ha | ⟨_, ha⟩
          · exact twoEnds_append ha [c]
          · rw [hlf]
            exact twoEnds_of_second ha ⟨[], lf, rfl, rfl⟩
    · rename_i hlf
      obtain ⟨a, w, rfl, rfl, ha⟩ := ih h
      refine ⟨c :: a, w, rfl, ?_, ?_⟩
      · rw [length_cons]
        omega
      · rcases ha with ha | ⟨hflag, ha⟩
        · exact .inl (twoEnds_append ha [c])
        · split at hflag
          · cases hflag
          · rename_i hcr
            obtain ⟨x, hx, v, hv, rfl⟩ := mem_mul.mp ha
            refine .inr ⟨hflag, append_mem_mul (a := c :: x) ?_ hv⟩
            intro b hb
            rcases mem_cons.mp hb with rfl | hb
            · exact not_not.mp hcr
            · exact hx b hb

theorem findEnd_second (hu : u ∈ wordsOver (· = cr)) (w : List UInt8) :
    findEnd true n (u ++ lf :: w) = some (n + u.length + 1) := by
  induction u generalizing n with
  | nil => rfl
  | cons c u ih =>
    have hcr : c = cr := hu c mem_cons_self
    rw [cons_append, findEnd, if_neg (by rw [hcr]; decide), if_neg (not_not.mpr hcr),
      ih _ fun x hx => hu x (List.mem_cons_of_mem c hx), length_cons]
    congr 1
    omega

/-- After the end of a line the first flag is set, unless the end was found before. -/
theorem findEnd_first (seenFirst : Bool) (n : Nat) (hu : u ∈ endsIn (· = lf)) (w : List UInt8) :
    (∃ p ≤ n + u.length, findEnd seenFirst n (u ++ w) = some p) ∨
      findEnd seenFirst n (u ++ w) = findEnd true (n + u.length) w := by
  obtain ⟨v, a, rfl, rfl⟩ := hu
  induction v generalizing seenFirst n with
  | nil =>
    cases seenFirst
    · exact .inr rfl
    · exact .inl ⟨n + 1, Nat.le_refl _, rfl⟩
  | cons c v ih =>
    have hstep (flag : Bool) :
        (∃ p ≤ n + (c :: v ++ [lf]).length, findEnd flag (n + 1) (v ++ [lf] ++ w) = some p) ∨
          findEnd flag (n + 1) (v ++ [lf] ++ w) =
            findEnd true (n + (c :: v ++ [lf]).length) w := by
      have hlength : n + (c :: v ++ [lf]).length = n + 1 + (v ++ [lf]).length := by
        rw [cons_append, length_cons]
        omega
      rw [hlength]
      exact ih flag (n + 1)
    rw [cons_append, cons_append, findEnd]
    split
    · split
      · refine .inl ⟨n + 1, ?_, rfl⟩
        rw [length_cons]
        omega
      · exact hstep true
    · exact hstep _

/-- Where a message has two ends of lines, its end is found there or before. -/
theorem findEnd_complete {a : List UInt8} (ha : a ∈ twoEnds) (w : List UInt8) :
    ∃ p ≤ n + a.length, findEnd false n (a ++ w) = some p := by
  obtain ⟨x, hx, v, rfl, rfl⟩ := mem_mul.mp ha
  obtain ⟨y, hy, u, hu, rfl⟩ := mem_mul.mp hx
  rw [append_assoc, append_assoc, append_assoc]
  rcases findEnd_first false n hy (u ++ ([lf] ++ w)) with ⟨p, hp, heq⟩ | heq
  · refine ⟨p, ?_, heq⟩
    rw [length_append]
    omega
  · rw [heq, List.singleton_append, findEnd_second _ hu]
    refine ⟨_, ?_, rfl⟩
    rw [length_append, length_append, List.length_singleton]
    omega

theorem isCompleteMessage_sound (h : isCompleteMessage text = some p) :
    p ≤ text.length ∧ text.take p ∈ twoEnds ∧ text.take p ∉ leading := by
  obtain ⟨lead, hlead, heq, hlength, hbody⟩ := skipLeading_cases 0 text
  unfold isCompleteMessage at h
  generalize (skipLeading 0 text).2 = body at heq h hbody
  obtain ⟨a, w, rfl, rfl, ha⟩ := findEnd_sound h
  have ha' : a ∈ twoEnds := ha.resolve_right fun h => Bool.false_ne_true h.1
  have htake : text.take ((skipLeading 0 text).1 + a.length) = lead ++ a := by
    rw [hlength, heq, Nat.zero_add, ← append_assoc, ← length_append, List.take_left]
  rw [htake]
  refine ⟨?_, twoEnds_append ha' lead, ?_⟩
  · rw [hlength, heq]
    simp only [length_append]
    omega
  · intro hall
    have hnonempty : a ≠ [] := by
      rintro rfl
      obtain ⟨x, _, v, rfl, hnil⟩ := mem_mul.mp ha'
      exact absurd hnil (by simp)
    rcases hbody with hnil | ⟨c, u, hcons, hc⟩
    · exact hnonempty (List.append_eq_nil_iff.mp hnil).1
    · obtain ⟨x, a', rfl⟩ := List.exists_cons_of_ne_nil hnonempty
      have hx : x = c := (List.cons.inj hcons).1
      apply hc
      rw [← hx]
      exact hall x (List.mem_append_right lead mem_cons_self)

theorem isCompleteMessage_complete {lead a : List UInt8} (hlead : lead ∈ leading)
    (hbody : a ∈ startsIn fun c => ¬ Ends c) (ha : a ∈ twoEnds) (w : List UInt8) :
    ∃ p ≤ (lead ++ a).length, isCompleteMessage (lead ++ a ++ w) = some p := by
  have hskip : skipLeading 0 (lead ++ (a ++ w)) = (0 + lead.length, a ++ w) := by
    apply skipLeading_eq 0 lead (a ++ w) hlead
    obtain ⟨c, u, rfl, hc⟩ := hbody
    exact ⟨c, u ++ w, rfl, hc⟩
  unfold isCompleteMessage
  rw [append_assoc, hskip]
  obtain ⟨p, hp, heq⟩ := findEnd_complete (0 + lead.length) ha w
  refine ⟨p, ?_, heq⟩
  rw [length_append]
  omega

theorem startsIn_requestTarget (h : l ∈ requestTarget) : l ∈ startsIn fun c => ¬ Ends c := by
  apply startsIn_of_mul h
  intro u hu
  apply startsIn_of_mul hu
  intro v hv
  obtain ⟨m, hm, g, hg, rfl⟩ := mem_mul.mp hv
  by_cases hnil : m = []
  · rw [hnil, List.nil_append]
    exact startsIn_of_someOver ⟨hg.1, fun c hc => space_not_ends (hg.2 c hc)⟩
  · apply startsIn_of_mul (A := someOver fun c => ¬ Ends c) (append_mem_mul _ hg)
      fun _ hb => startsIn_of_someOver hb
    exact ⟨hnil, fun c hc => (hm.1 c hc).2⟩

theorem startsIn_version (h : l ∈ version) : l ∈ startsIn fun c => ¬ Ends c := by
  apply startsIn_of_mul h
  intro u hu
  apply startsIn_of_mul hu
  intro v hv
  apply startsIn_of_mul hv
  rintro b rfl
  exact ⟨byte 'H', _, rfl, by decide⟩

theorem startsIn_responseStatus (h : l ∈ responseStatus) : l ∈ startsIn fun c => ¬ Ends c :=
  startsIn_of_mul h fun _ hu => startsIn_of_mul hu fun _ hv => startsIn_version hv

theorem startsIn_startLine (h : l ∈ requestLine + statusLine) :
    l ∈ startsIn fun c => ¬ Ends c := by
  rcases h with h | h | h
  · exact startsIn_of_mul h fun _ hu => startsIn_of_mul hu fun _ hv => startsIn_requestTarget hv
  · exact startsIn_of_mul h fun _ hu => startsIn_responseStatus hu
  · exact startsIn_of_mul h fun _ hu => startsIn_of_mul hu fun _ hv =>
      startsIn_of_mul hv fun _ hw => startsIn_responseStatus hw

theorem head_heading (h : l ∈ head) : ∃ u ∈ heading, ∃ v, l = u ++ v := by
  rcases h with h | h
  · exact ⟨l, h, [], (append_nil l).symm⟩
  · obtain ⟨x, hx, v, _, rfl⟩ := mem_mul.mp
      (show l ∈ heading * field * (field + continuation)∗ from h)
    obtain ⟨u, hu, w, _, rfl⟩ := mem_mul.mp hx
    exact ⟨u, hu, w ++ v, append_assoc u w v⟩

/-- Behind the leading ends of lines is a line that is not empty, and a message is at the end of
a line. -/
theorem head_split (h : l ∈ head) : ∃ lead ∈ leading, ∃ body, l = lead ++ body ∧
    body ∈ startsIn (fun c => ¬ Ends c) ∧ body ∈ endsIn (· = lf) := by
  obtain ⟨u, hu, v, rfl⟩ := head_heading h
  obtain ⟨lead, hlead, line, hline, rfl⟩ := mem_mul.mp hu
  obtain ⟨c, rest, rfl, hc⟩ := startsIn_startLine hline
  refine ⟨lead, hlead, c :: rest ++ v, append_assoc _ _ _, ⟨c, rest ++ v, rfl, hc⟩, ?_⟩
  obtain ⟨x, hx, e, he, heq⟩ := mem_mul.mp (lineEnd_head h)
  obtain ⟨y, a, hlast, ha⟩ := endsIn_append (l := x) (endsIn_lf_of_eol he)
  have hne : c :: rest ++ v ≠ [] := by
    simp
  refine ⟨(c :: rest ++ v).dropLast, a, ?_, ha⟩
  have hwhole : lead ++ (c :: rest ++ v) = y ++ [a] := by
    rw [← append_assoc, ← heq]
    exact hlast
  have hsplit := (List.dropLast_append_getLast hne).symm
  rw [hsplit, ← append_assoc] at hwhole
  rw [List.singleton_inj.mp (List.append_inj' hwhole rfl).2] at hsplit
  exact hsplit

theorem crs_of_eol (he : e ∈ eol) : e ∈ wordsOver (· = cr) * {[lf]} := by
  rcases he with rfl | rfl
  · exact append_mem_mul (a := []) (nil_mem_over _) rfl
  · refine append_mem_mul (a := [cr]) ?_ rfl
    exact over_snoc (nil_mem_over _) rfl

/-- The end of a message is found where an empty line ends it, or before. -/
theorem isCompleteMessage_of_head {h : List UInt8} (hh : h ∈ head) (he : e ∈ eol) (w : List UInt8) :
    ∃ p ≤ (h ++ e).length, isCompleteMessage (h ++ e ++ w) = some p := by
  obtain ⟨lead, hlead, body, rfl, hstarts, hends⟩ := head_split hh
  rw [append_assoc lead]
  apply isCompleteMessage_complete hlead
  · obtain ⟨c, u, rfl, hc⟩ := hstarts
    exact ⟨c, u ++ e, rfl, hc⟩
  · exact twoEnds_of_second (crs_of_eol he) hends

/-- A fresh parser rejects a text with a `WebSocketException`, or takes it as complete and reads
all of it. -/
def ReadsAll (text : List UInt8) : Prop :=
  match HttpParser.parse text {} with
  | .ok (q, parser) => q = text.length ∧ parser.state = .complete
  | .error (.exception _) => True
  | .error _ => False

/-- A line of spaces only completes the message, and something is behind it. -/
def EndsEarly (text : List UInt8) : Prop :=
  ∃ u ∈ head * blankLine, ∃ w ≠ [], text = u ++ w

theorem parse_fresh (text : List UInt8) : HttpParser.parse text {} =
    (HttpParser.parseLoop text 0 { parser := {} }).map fun r => (r.1, r.2.parser) := rfl

theorem not_readsAll_of_endsEarly (h : EndsEarly text) : ¬ ReadsAll text := by
  obtain ⟨u, hu, w, hw, rfl⟩ := h
  obtain ⟨a, ha, b, hb, rfl⟩ := mem_mul.mp hu
  obtain ⟨s, hrun, _⟩ := parseLoop_message (append_mem_mul ha (.inr hb)) w
  intro hreads
  unfold ReadsAll at hreads
  rw [parse_fresh, hrun] at hreads
  have hlength : (a ++ b).length = (a ++ b ++ w).length := hreads.1
  have hpos := List.length_pos_iff.mpr hw
  simp only [length_append] at hlength
  omega

/-- A message that is complete where `parse` ends is read up to its end, unless a line of spaces
ends it before. -/
theorem length_of_complete {q : Nat} (hq : q ≤ text.length) (h : text.take q ∈ message)
    (hearly : ¬ EndsEarly text)
    (hfirst : ∀ u ∈ head * eol, ∀ w, text = u ++ w → w = []) : q = text.length := by
  obtain ⟨a, ha, b, hb, hab⟩ := mem_mul.mp h
  have hsplit : text = a ++ b ++ text.drop q := by
    rw [hab]
    exact (List.take_append_drop q text).symm
  have hdrop : text.drop q = [] := by
    rcases hb with hb | hb
    · exact hfirst (a ++ b) (append_mem_mul ha hb) _ hsplit
    · by_contra hne
      exact hearly ⟨a ++ b, append_mem_mul ha hb, _, hne, hsplit⟩
  have hle := List.drop_eq_nil_iff.mp hdrop
  omega

theorem take_isCompleteMessage (h : isCompleteMessage text = some p) {w : List UInt8}
    (hu : u ∈ head * eol) (heq : text.take p = u ++ w) : w = [] := by
  obtain ⟨a, ha, e, he, rfl⟩ := mem_mul.mp hu
  obtain ⟨q, hq, hfound⟩ := isCompleteMessage_of_head ha he (w ++ text.drop p)
  have htext : a ++ e ++ (w ++ text.drop p) = text := by
    rw [← append_assoc, ← heq]
    exact List.take_append_drop p text
  rw [htext, h] at hfound
  have hlength := congrArg List.length heq
  rw [List.length_take, Nat.min_eq_left (isCompleteMessage_sound h).1, length_append] at hlength
  have hzero : w.length = 0 := by
    have hpq := Option.some.inj hfound
    omega
  exact List.length_eq_zero_iff.mp hzero

/-- Of a message whose end is found, everything is read unless a line of spaces completes it
before that end. -/
theorem readsAll_iff_not_endsEarly {p : Nat} (h : isCompleteMessage text = some p) :
    ReadsAll (text.take p) ↔ ¬ EndsEarly (text.take p) := by
  constructor
  · intro hreads hearly
    exact not_readsAll_of_endsEarly hearly hreads
  · intro hearly
    obtain ⟨_, hends, hplain⟩ := isCompleteMessage_sound h
    have hparsed := parsed_fresh (text.take p)
    unfold ReadsAll
    rw [parse_fresh]
    generalize HttpParser.parseLoop (text.take p) 0 { parser := {} } = result at hparsed ⊢
    cases hparsed with
    | complete hq hs hmessage =>
      refine ⟨?_, hs⟩
      exact length_of_complete hq hmessage hearly
        fun u hu w heq => take_isCompleteMessage h hu heq
    | incomplete hs hseen => exact absurd hends (not_twoEnds_of_incomplete hs hseen hplain)
    | exception => trivial

/-- Whether a fresh parser takes the first `q` characters of a text for a message -/
def Accepts (text : List UInt8) (q : Nat) : Prop :=
  ∃ parser, HttpParser.parse text {} = .ok (q, parser) ∧ parser.state = .complete

/-- A fresh parser stops exactly behind the message that a text begins with, if there is one, so no
message is the beginning of another one. -/
theorem accepts_messages : (∀ text q, Accepts text q ↔ q ≤ text.length ∧ text.take q ∈ message) ∧
    ∀ u ∈ message, ∀ v ∈ message, u <+: v → u = v := by
  have haccepts (u : List UInt8) (hu : u ∈ message) (w : List UInt8) :
      Accepts (u ++ w) u.length := by
    obtain ⟨s, hrun, hs⟩ := parseLoop_message hu w
    exact ⟨s.parser, by rw [parse_fresh, hrun]; rfl, hs⟩
  constructor
  · intro text q
    constructor
    · rintro ⟨parser, hparse, hstate⟩
      have hparsed := parsed_fresh text
      rw [parse_fresh] at hparse
      generalize HttpParser.parseLoop text 0 { parser := {} } = result at hparsed hparse
      cases hparsed with
      | complete hq _ hmessage =>
        cases hparse
        exact ⟨hq, hmessage⟩
      | incomplete hs =>
        cases hparse
        exact absurd hstate hs
      | exception => cases hparse
    · rintro ⟨hq, hmessage⟩
      have h := haccepts _ hmessage (text.drop q)
      rwa [List.take_append_drop, List.length_take, Nat.min_eq_left hq] at h
  · rintro u hu v hv ⟨w, rfl⟩
    obtain ⟨_, hparse, -⟩ := haccepts u hu w
    obtain ⟨_, hwhole, -⟩ := haccepts _ hv []
    rw [append_nil, hparse] at hwhole
    have hlength : u.length = (u ++ w).length := (Prod.mk.inj (Except.ok.inj hwhole)).1
    rw [length_append] at hlength
    have hw : w = [] := List.eq_nil_of_length_eq_zero (by omega)
    rw [hw, append_nil]

/-- A request that is complete behind its start line -/
def plainRequest : List UInt8 := "GET / HTTP/1.1\n\n".toList.map byte

/-- A line of spaces only has a space in front of its end. -/
theorem infix_of_blankLine {b : List UInt8} (hb : b ∈ blankLine) :
    ∃ c, Ends c ∧ [space, c] <:+: b := by
  obtain ⟨g, ⟨hne, hall⟩, e, he, rfl⟩ := mem_mul.mp hb
  obtain ⟨g', s, rfl⟩ := (List.eq_nil_or_concat g).resolve_left hne
  obtain rfl : s = space := hall s (by simp)
  rcases he with rfl | rfl
  · exact ⟨lf, .inr rfl, g', [], by simp⟩
  · exact ⟨cr, .inl rfl, g', [lf], by simp⟩

theorem readsAll_iff_plainRequest : isCompleteMessage plainRequest = some 16 ∧
    ReadsAll (plainRequest.take 16) := by
  have hend : isCompleteMessage plainRequest = some 16 := by decide
  refine ⟨hend, (readsAll_iff_not_endsEarly hend).mpr ?_⟩
  rintro ⟨u, hu, w, -, htext⟩
  obtain ⟨a, -, b, hb, rfl⟩ := mem_mul.mp hu
  obtain ⟨c, hc, hinfix⟩ := infix_of_blankLine hb
  have hin : [space, c] <:+: plainRequest.take 16 := by
    rw [htext, List.append_assoc]
    exact hinfix.trans ⟨a, w, List.append_assoc ..⟩
  rcases hc with rfl | rfl
  · exact absurd hin (by decide)
  · exact absurd hin (by decide)

/-- A request with a line that is a space only, and a field behind that line -/
def blankLineRequest : List UInt8 := "GET / HTTP/1.1\n \nHost: x\n\n".toList.map byte

/-- The start line of these requests -/
theorem mem_heading : "GET / HTTP/1.1\n".toList.map byte ∈ heading := by
  have hmethod : "GET".toList.map byte ∈ method :=
    ⟨forall_of_all (by decide), by decide⟩
  have hgap : [space] ∈ gap := ⟨by decide, forall_of_all (by decide)⟩
  have huri : [byte '/'] ∈ word := ⟨by decide, forall_of_all (by decide)⟩
  have htarget := append_mem_mul (append_mem_mul
    (append_mem_mul hmethod hgap) huri) hgap
  have hone : [byte '1'] ∈ number := ⟨forall_of_all (by decide), by decide⟩
  have hdot : [byte '.'] ∈ ({[byte '.']} : Language UInt8) := rfl
  have hhttp : http ∈ ({http} : Language UInt8) := rfl
  have hversion := append_mem_mul (append_mem_mul
    (append_mem_mul hhttp hone) hdot) hone
  have hline := append_mem_mul (append_mem_mul htarget hversion) lf_mem_eol
  exact append_mem_mul (nil_mem_over Ends) (.inl hline)

/-- The field of this request is dropped. -/
theorem not_readsAll_blankLineRequest : isCompleteMessage blankLineRequest = some 26 ∧
    ¬ ReadsAll (blankLineRequest.take 26) := by
  constructor
  · decide
  · apply not_readsAll_of_endsEarly
    have hblank : [space] ++ [lf] ∈ blankLine :=
      append_mem_mul ⟨by decide, forall_of_all (by decide)⟩ lf_mem_eol
    have hearly := append_mem_mul (l := head) (.inl mem_heading) hblank
    exact ⟨_, hearly, "Host: x\n\n".toList.map byte, by decide, by decide⟩

end Http

end Ice.Connection
