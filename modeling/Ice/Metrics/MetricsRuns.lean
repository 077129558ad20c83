import Mathlib.Data.List.Perm.Subperm
import Ice.Metrics.DetachedQueue

/-!
# Metrics maps over whole runs

Whatever observers do, every entry counts those attached to it, and an entry with observers is in
the map. Of the entries without observers the map retains those that were detached last.
-/

namespace Ice.Metrics

open Option (some.inj)
open Function (update_of_ne update_self)

variable {Key : Type} {s s' s'' : State Key} {e f n : Nat} {lifetime : Int}

/-- The same entries, apart from their places, and the same observers -/
structure Same (s s' : State Key) : Prop where
  retain : s'.retain = s.retain
  destroyed : s'.destroyed = s.destroyed
  freshEntry : s'.freshEntry = s.freshEntry
  observers : s'.observers = s.observers
  leaving : s'.leaving = s.leaving
  attachments : s'.attachments = s.attachments
  broken : s'.broken = s.broken
  current : ∀ e, (s'.entries e).current = (s.entries e).current
  total : ∀ e, (s'.entries e).total = (s.entries e).total

namespace Same

theorem refl (s : State Key) : Same s s :=
  ⟨rfl, rfl, rfl, rfl, rfl, rfl, rfl, fun _ => rfl, fun _ => rfl⟩

theorem trans (h : Same s s') (h' : Same s' s'') : Same s s'' where
  retain := h'.retain.trans h.retain
  destroyed := h'.destroyed.trans h.destroyed
  freshEntry := h'.freshEntry.trans h.freshEntry
  observers := h'.observers.trans h.observers
  leaving := h'.leaving.trans h.leaving
  attachments := h'.attachments.trans h.attachments
  broken := h'.broken.trans h.broken
  current e := (h'.current e).trans (h.current e)
  total e := (h'.total e).trans (h.total e)

theorem modify {g : Entry Key → Entry Key}
    (hcurrent : (g (s.entries e)).current = (s.entries e).current)
    (htotal : (g (s.entries e)).total = (s.entries e).total) : Same s (s.modify e g) := by
  refine ⟨rfl, rfl, rfl, rfl, rfl, rfl, rfl, ?_, ?_⟩
  · intro f
    unfold State.modify
    by_cases hf : f = e
    · subst hf
      simp [hcurrent]
    · simp [hf]
  · intro f
    unfold State.modify
    by_cases hf : f = e
    · subst hf
      simp [htotal]
    · simp [hf]

theorem compress : Same s s.compress := by
  refine ⟨rfl, rfl, rfl, rfl, rfl, rfl, rfl, ?_, ?_⟩
  all_goals
    intro e
    unfold State.compress
    dsimp only
    split
    · rfl
    · rfl

theorem evict [DecidableEq Key] : Same s s.evict := by
  unfold State.evict
  split
  · exact refl s
  · exact ⟨rfl, rfl, rfl, rfl, rfl, rfl, rfl, fun _ => rfl, fun _ => rfl⟩

theorem pushBack : Same s (s.pushBack e) := by
  have h : Same s (s.modify e fun entry => { entry with detachedPos := some s.freshNode }) :=
    modify rfl rfl
  exact ⟨rfl, rfl, rfl, rfl, rfl, rfl, rfl, h.current, h.total⟩

theorem splice (node : Nat) : Same s (s.splice node) :=
  ⟨rfl, rfl, rfl, rfl, rfl, rfl, rfl, fun _ => rfl, fun _ => rfl⟩

theorem detached [DecidableEq Key]
    (hlength : s.detachedQueue.length ≤ s.retain ∨ s.retain = 0 ∨ s.destroyed = true) :
    Same s (s.detached e) := by
  unfold State.detached
  split
  · exact refl s
  next h =>
    have hassert : s.assert (decide (s.detachedQueue.length ≤ s.retain)) = s := by
      unfold State.assert
      rw [decide_eq_true (hlength.resolve_right h)]
      simp
    rw [hassert]
    dsimp only
    split
    · split
      · exact (splice _).trans (modify rfl rfl)
      · exact refl s
    · have hfirst : Same s (if s.detachedQueue.length = s.retain then s.compress else s) := by
        split
        · exact compress
        · exact refl s
      have hsecond : ∀ s : State Key,
          Same s (if s.detachedQueue.length = s.retain then s.evict else s) := by
        intro s
        split
        · exact evict
        · exact refl s
      exact (hfirst.trans (hsecond _)).trans pushBack

end Same

namespace Live

theorem but (h : Live none s) (e : Nat) : Live (some e) s where
  own := h.own
  attached := h.attached
  place := h.place
  queued := h.queued
  nodes := h.nodes
  nodup := h.nodup
  length := h.length
  detached hretain k f hf hzero _ := h.detached hretain k f hf hzero (by simp)
  kept := h.kept
  sorted := h.sorted.imp fun hlt _ _ => hlt (by simp) (by simp)
  past := h.past
  evicted := h.evicted

/-- An entry is detached at the present time. -/
theorem touch (h : Live (some e) s) (hobj : s.objects (s.entries e).id = some e) :
    Live (some e) { s with
      detachedAt := Function.update s.detachedAt e s.clock
      clock := s.clock + 1 } := by
  have hother : ∀ f, f ≠ e → Function.update s.detachedAt e s.clock f = s.detachedAt f :=
    fun f hf => update_of_ne hf _ _
  refine ⟨h.own, h.attached, h.place, h.queued, h.nodes, h.nodup, h.length, h.detached, h.kept,
    ?_, ?_, ?_⟩
  · apply h.sorted.imp
    intro f g hlt hf hg
    dsimp only
    rw [hother f (by simpa using hf), hother g (by simpa using hg)]
    exact hlt hf hg
  · intro f
    dsimp only
    by_cases hf : f = e
    · rw [hf, update_self]
      exact Nat.lt_succ_self _
    · rw [hother f hf]
      exact Nat.lt_succ_of_lt (h.past f)
  · intro f hf hnot g hg
    have hne : f ≠ e := by
      rintro rfl
      exact hnot hobj
    dsimp only
    rw [hother f hne]
    by_cases hge : g = e
    · rw [hge, update_self]
      exact h.past f
    · rw [hother g hge]
      exact h.evicted f hf hnot g hg

/-- Nothing is in the queue of a map that retains nothing. -/
theorem queue_nil {x : Option Nat} (h : Live x s) (hretain : s.retain = 0) :
    s.detachedQueue = [] := by
  have hlength := h.length
  rw [hretain] at hlength
  exact List.eq_nil_of_length_eq_zero (Nat.le_zero.mp hlength)

theorem of_retain_zero (h : Live (some e) s) (hretain : s.retain = 0) : Live none s := by
  have hqueue := h.queue_nil hretain
  exact ⟨h.own, h.attached, h.place, h.queued, h.nodes, h.nodup, h.length,
    fun hne => absurd hretain hne, h.kept, by simp [hqueue], h.past, h.evicted⟩

end Live

/-- One observer fewer -/
structure Lost (e : Nat) (s s' : State Key) : Prop where
  retain : s'.retain = s.retain
  destroyed : s'.destroyed = s.destroyed
  freshEntry : s'.freshEntry = s.freshEntry
  observers : s'.observers = s.observers
  leaving : s'.leaving = s.leaving
  attachments : s'.attachments = s.attachments
  broken : s'.broken = s.broken
  current : ∀ f, (s'.entries f).current + (if f = e then 1 else 0) = (s.entries f).current
  total : ∀ f, (s'.entries f).total = (s.entries f).total

structure Detached (e : Nat) (s s' : State Key) : Prop extends Lost e s s' where
  live : s'.destroyed = false → Live none s'

/-- What `detached` leaves, when an entry has lost its last observer -/
theorem Lost.detached [DecidableEq Key] (h : Lost e s s')
    (hlive : s'.destroyed = false → Live (some e) s' ∧
      s'.objects (s'.entries e).id = some e ∧ ∀ f, f ≠ e → s'.detachedAt f < s'.detachedAt e) :
    Detached e s (s'.detached e) := by
  have hsame : Same s' (s'.detached e) := by
    apply Same.detached
    by_cases hdestroyed : s'.destroyed = true
    · exact .inr (.inr hdestroyed)
    · exact .inl (hlive (Bool.eq_false_iff.mpr hdestroyed)).1.length
  refine ⟨⟨hsame.retain.trans h.retain, hsame.destroyed.trans h.destroyed,
    hsame.freshEntry.trans h.freshEntry, hsame.observers.trans h.observers,
    hsame.leaving.trans h.leaving, hsame.attachments.trans h.attachments,
    hsame.broken.trans h.broken, ?_, fun f => (hsame.total f).trans (h.total f)⟩, ?_⟩
  · intro f
    rw [hsame.current f, h.current f]
  · intro hdestroyed
    rw [hsame.destroyed] at hdestroyed
    obtain ⟨hbut, hobj, hlast⟩ := hlive hdestroyed
    by_cases hretain : s'.retain = 0
    · unfold State.detached
      rw [if_pos (.inl hretain)]
      exact hbut.of_retain_zero hretain
    · exact hbut.detachedEntry hretain hdestroyed hobj hlast

/-- An entry that has an observer loses one, and goes to the queue with the last one. -/
theorem detach_spec [DecidableEq Key] (hcurrent : (s.entries e).current ≠ 0)
    (hlive : s.destroyed = false → Live none s) : Detached e s (s.detach e lifetime) := by
  have hentries : ∀ f, ((s.modify e fun entry => { entry with
      totalLifetime := entry.totalLifetime + lifetime
      current := entry.current - 1 }).entries f).current + (if f = e then 1 else 0) =
        (s.entries f).current ∧
      ((s.modify e fun entry => { entry with
        totalLifetime := entry.totalLifetime + lifetime
        current := entry.current - 1 }).entries f).total = (s.entries f).total := by
    intro f
    unfold State.modify
    by_cases hf : f = e
    · subst hf
      simp only [update_self, if_pos]
      exact ⟨Nat.sub_add_cancel (Nat.pos_of_ne_zero hcurrent), trivial⟩
    · simp [hf]
  unfold State.detach
  dsimp only
  split
  next hzero =>
    apply Lost.detached
    · exact ⟨rfl, rfl, rfl, rfl, rfl, rfl, rfl, fun f => (hentries f).1, fun f => (hentries f).2⟩
    · intro hdestroyed
      have h := hlive hdestroyed
      have hobj := h.attached e hcurrent
      refine ⟨((h.but e).modify rfl rfl (fun _ => hobj) fun _ => .inr rfl).touch ?_, ?_, ?_⟩
      · simpa [State.modify] using hobj
      · simpa [State.modify] using hobj
      · intro f hf
        dsimp only
        rw [update_of_ne hf, update_self]
        exact h.past f
  next hne =>
    refine ⟨⟨rfl, rfl, rfl, rfl, rfl, rfl, rfl, fun f => (hentries f).1,
      fun f => (hentries f).2⟩, ?_⟩
    intro hdestroyed
    have h := hlive hdestroyed
    apply h.modify rfl rfl
    · exact fun _ => h.attached e hcurrent
    · intro hzero
      apply absurd _ hne
      simpa [State.modify] using hzero

/-- One observer more -/
structure Attached (e : Nat) (s s' : State Key) : Prop where
  live : Live none s'
  retain : s'.retain = s.retain
  destroyed : s'.destroyed = false
  freshEntry : s.freshEntry ≤ s'.freshEntry ∧ e < s'.freshEntry ∧
    ∀ f < s'.freshEntry, f < s.freshEntry ∨ f = e
  observers : s'.observers = s.observers
  leaving : s'.leaving = s.leaving
  attachments : s'.attachments = s.attachments
  broken : s'.broken = s.broken
  current : ∀ f, (s'.entries f).current = (s.entries f).current + if f = e then 1 else 0
  total : ∀ f, (s'.entries f).total = (s.entries f).total + if f = e then 1 else 0

/-- In a state that is reached from an empty map for `n` entries -/
structure Good (n : Nat) (s : State Key) : Prop where
  live : s.destroyed = false → Live none s
  retain : s.retain = n
  unbroken : s.broken = false
  current : ∀ e, (s.entries e).current = s.observers.count e + s.leaving.count e
  total : ∀ e, (s.entries e).total = s.attachments.count e
  used : ∀ e < s.freshEntry, 0 < (s.entries e).total
  fresh : ∀ e, s.freshEntry ≤ e → (s.entries e).current = 0 ∧ (s.entries e).total = 0

theorem attach_entries (s : State Key) (e : Nat) : ∀ f,
    ((s.attach e).entries f).current = (s.entries f).current + (if f = e then 1 else 0) ∧
      ((s.attach e).entries f).total = (s.entries f).total + if f = e then 1 else 0 := by
  intro f
  unfold State.attach State.modify
  by_cases hf : f = e
  · subst hf
    simp
  · simp [hf]

/-- An observer gets no entry, that of the previous observer, or one that it is then attached to. -/
theorem getMatching_spec [DecidableEq Key] (h : Good n s) (key : Option Key) (previous : Option Nat)
    (hprevious : ∀ p, previous = some p → (s.entries p).current ≠ 0) :
    s.getMatching key previous = (s, none) ∨
      (∃ p, previous = some p ∧ s.getMatching key previous = (s, some p)) ∨
      ∃ e s', s.getMatching key previous = (s', some e) ∧ previous ≠ some e ∧ Attached e s s' := by
  unfold State.getMatching
  cases key with
  | none => exact .inl rfl
  | some key =>
    dsimp only
    by_cases hdestroyed : s.destroyed = true
    · rw [if_pos hdestroyed]
      exact .inl rfl
    · rw [if_neg hdestroyed]
      have hdestroyed := Bool.eq_false_iff.mpr hdestroyed
      have hlive := h.live hdestroyed
      by_cases hany : (previous.any fun e => decide ((s.entries e).id = key)) = true
      · rw [if_pos hany]
        obtain ⟨p, rfl, hid⟩ : ∃ p, previous = some p ∧ (s.entries p).id = key := by
          cases previous with
          | none => cases hany
          | some p => exact ⟨p, rfl, by simpa using hany⟩
        right
        left
        refine ⟨p, rfl, ?_⟩
        have hobj := hlive.attached p (hprevious p rfl)
        rw [hid] at hobj
        unfold State.assert
        rw [decide_eq_true hobj]
        simp
      · rw [if_neg hany]
        right
        right
        cases hobj : s.objects key with
        | some e =>
          refine ⟨e, s.attach e, rfl, ?_, hlive.attach hobj, rfl, hdestroyed, ?_, rfl, rfl, rfl,
            rfl, fun f => (attach_entries s e f).1, fun f => (attach_entries s e f).2⟩
          · rintro rfl
            apply hany
            simpa using (hlive.own key e hobj).2
          · exact ⟨Nat.le_refl _, (hlive.own key e hobj).1, fun f hf => .inl hf⟩
        | none =>
          have hinsert : ∀ f, ((s.insert key).entries f).current = (s.entries f).current ∧
              ((s.insert key).entries f).total = (s.entries f).total := by
            intro f
            unfold State.insert
            by_cases hf : f = s.freshEntry
            · subst hf
              obtain ⟨hcurrent, htotal⟩ := h.fresh _ (Nat.le_refl _)
              simp [hcurrent, htotal]
            · simp [hf]
          refine ⟨s.freshEntry, _, rfl, ?_, hlive.insert hobj, rfl, hdestroyed, ?_, rfl, rfl,
            rfl, rfl, ?_, ?_⟩
          · intro hp
            exact hprevious _ hp (h.fresh _ (Nat.le_refl _)).1
          · refine ⟨Nat.le_succ _, Nat.lt_succ_self _, ?_⟩
            intro f hf
            exact Nat.lt_or_eq_of_le (Nat.le_of_lt_succ hf)
          · intro f
            rw [(attach_entries _ _ f).1, (hinsert f).1]
          · intro f
            rw [(attach_entries _ _ f).2, (hinsert f).2]

theorem count_erase_add {l : List Nat} (he : e ∈ l) (f : Nat) :
    (l.erase e).count f + (if f = e then 1 else 0) = l.count f := by
  by_cases hf : f = e
  · subst hf
    rw [List.count_erase_self, if_pos rfl]
    exact Nat.sub_add_cancel (List.count_pos_iff.mpr he)
  · rw [List.count_erase_of_ne hf, if_neg hf, Nat.add_zero]

theorem count_cons_add (l : List Nat) (f : Nat) :
    (e :: l).count f = l.count f + if f = e then 1 else 0 := by
  by_cases hf : f = e
  · subst hf
    rw [List.count_cons_self, if_pos rfl]
  · rw [List.count_cons_of_ne (Ne.symm hf), if_neg hf, Nat.add_zero]

section

variable (h : Good n s)

include h

theorem good_attached (ha : Attached e s s') (observers leaving : List Nat)
    (hcount : ∀ f, observers.count f + leaving.count f =
      s.observers.count f + s.leaving.count f + if f = e then 1 else 0) :
    Good n { s' with
      observers := observers
      leaving := leaving
      attachments := e :: s'.attachments } := by
  have hlive := ha.live
  obtain ⟨hle, hlt, hcases⟩ := ha.freshEntry
  refine ⟨fun _ => ⟨hlive.own, hlive.attached, hlive.place, hlive.queued, hlive.nodes, hlive.nodup,
    hlive.length, hlive.detached, hlive.kept, hlive.sorted, hlive.past, hlive.evicted⟩,
    ha.retain.trans h.retain, ha.broken.trans h.unbroken, ?_, ?_, ?_, ?_⟩
  · intro f
    dsimp only
    rw [ha.current, h.current, hcount]
  · intro f
    dsimp only
    rw [ha.total, h.total, ha.attachments, count_cons_add]
  · intro f hf
    dsimp only
    rw [ha.total]
    rcases hcases f hf with hold | rfl
    · exact Nat.lt_of_lt_of_le (h.used f hold) (Nat.le_add_right _ _)
    · rw [if_pos rfl]
      exact Nat.succ_pos _
  · intro f hf
    have hf : s'.freshEntry ≤ f := hf
    have hne : f ≠ e := by
      rintro rfl
      exact absurd hlt (Nat.not_lt.mpr hf)
    dsimp only
    rw [ha.current, ha.total, if_neg hne]
    exact h.fresh f (Nat.le_trans hle hf)

theorem good_detached (hd : Detached e s s') (observers leaving : List Nat)
    (hcount : ∀ f, observers.count f + leaving.count f + (if f = e then 1 else 0) =
      s.observers.count f + s.leaving.count f) :
    Good n { s' with observers := observers, leaving := leaving } := by
  refine ⟨?_, hd.retain.trans h.retain, hd.broken.trans h.unbroken, ?_, ?_, ?_, ?_⟩
  · intro hdestroyed
    have hlive := hd.live hdestroyed
    exact ⟨hlive.own, hlive.attached, hlive.place, hlive.queued, hlive.nodes, hlive.nodup,
      hlive.length, hlive.detached, hlive.kept, hlive.sorted, hlive.past, hlive.evicted⟩
  · intro f
    have heq := hd.current f
    rw [h.current, ← hcount] at heq
    exact Nat.add_right_cancel heq
  · intro f
    dsimp only
    rw [hd.total, h.total, hd.attachments]
  · intro f hf
    dsimp only at hf ⊢
    rw [hd.freshEntry] at hf
    rw [hd.total]
    exact h.used f hf
  · intro f hf
    dsimp only at hf ⊢
    rw [hd.freshEntry] at hf
    obtain ⟨hcurrent, htotal⟩ := h.fresh f hf
    have heq := hd.current f
    rw [hcurrent] at heq
    exact ⟨Nat.eq_zero_of_add_eq_zero_right heq, (hd.total f).trans htotal⟩

/-- An observer that is replaced stays attached until `init` detaches it. -/
theorem good_leaving {observers leaving : List Nat}
    (hcount : ∀ f, observers.count f + leaving.count f =
      s.observers.count f + s.leaving.count f) :
    Good n { s with observers := observers, leaving := leaving } := by
  refine ⟨?_, h.retain, h.unbroken, ?_, h.total, h.used, h.fresh⟩
  · intro hdestroyed
    have hlive := h.live hdestroyed
    exact ⟨hlive.own, hlive.attached, hlive.place, hlive.queued, hlive.nodes, hlive.nodup,
      hlive.length, hlive.detached, hlive.kept, hlive.sorted, hlive.past, hlive.evicted⟩
  · intro f
    dsimp only
    rw [h.current, hcount]

theorem current_ne (he : e ∈ s.observers ∨ e ∈ s.leaving) :
    (s.entries e).current ≠ 0 := by
  rw [h.current]
  rcases he with he | he
  all_goals
    have hpos := List.count_pos_iff.mpr he
    omega

end

theorem good_step [DecidableEq Key] (h : Good n s) {l : Label Key} (hs : step s l = some s') :
    Good n s' := by
  cases l with
  | create key =>
    simp only [step] at hs
    rcases getMatching_spec h key none (by simp) with
      heq | ⟨p, hp, _⟩ | ⟨e, t, heq, _, ha⟩
    · rw [heq] at hs
      obtain rfl := some.inj hs
      exact h
    · cases hp
    · rw [heq] at hs
      obtain rfl := some.inj hs
      have hgood := good_attached h ha (e :: s.observers) s.leaving (by
        intro f
        rw [count_cons_add]
        omega)
      rw [← ha.observers, ← ha.leaving] at hgood
      exact hgood
  | update e key =>
    simp only [step] at hs
    split at hs
    next he =>
      rcases getMatching_spec h key (some e)
        (by rintro p ⟨⟩; exact current_ne h (.inl he)) with
          heq | ⟨p, hp, heq⟩ | ⟨e', t, heq, hne, ha⟩
      · rw [heq] at hs
        obtain rfl := some.inj hs
        apply good_leaving h
        intro f
        rw [count_cons_add, ← count_erase_add he f]
        omega
      · obtain rfl := some.inj hp
        rw [heq] at hs
        simp only [if_true] at hs
        obtain rfl := some.inj hs
        exact h
      · rw [heq] at hs
        have hne : e' ≠ e := fun h => hne (by rw [h])
        simp only [if_neg hne] at hs
        obtain rfl := some.inj hs
        have hgood := good_attached h ha (e' :: s.observers.erase e)
          (e :: s.leaving) (by
            intro f
            rw [count_cons_add, count_cons_add, ← count_erase_add he f]
            omega)
        rw [← ha.observers, ← ha.leaving] at hgood
        exact hgood
    · cases hs
  | release e previousDelay =>
    simp only [step] at hs
    split at hs
    next he =>
      obtain rfl := some.inj hs
      have hd : Detached e s (s.detach e previousDelay) :=
        detach_spec (current_ne h (.inr he)) h.live
      have hgood := good_detached h hd s.observers (s.leaving.erase e) (by
        intro f
        rw [← count_erase_add he f]
        omega)
      rw [← hd.observers] at hgood
      exact hgood
    · cases hs
  | detach e lifetime =>
    simp only [step] at hs
    split at hs
    next he =>
      obtain rfl := some.inj hs
      have hd : Detached e s (s.detach e lifetime) :=
        detach_spec (current_ne h (.inl he)) h.live
      have hgood := good_detached h hd (s.observers.erase e) s.leaving (by
        intro f
        rw [← count_erase_add he f]
        omega)
      rw [← hd.leaving] at hgood
      exact hgood
    · cases hs
  | failed e exceptionName =>
    simp only [step] at hs
    split at hs
    next he =>
      obtain rfl := some.inj hs
      have hsame : Same s (s.failed e exceptionName) := Same.modify rfl rfl
      refine ⟨?_, h.retain, h.unbroken, ?_, ?_, ?_, ?_⟩
      · intro hdestroyed
        have hlive := h.live hdestroyed
        apply hlive.modify rfl rfl
        · exact fun _ => hlive.attached e (current_ne h (.inl he))
        · exact fun hzero => .inl hzero
      · intro f
        rw [hsame.current]
        exact h.current f
      · intro f
        rw [hsame.total]
        exact h.total f
      · intro f hf
        rw [hsame.total]
        exact h.used f hf
      · intro f hf
        rw [hsame.total, hsame.current]
        exact h.fresh f hf
    · cases hs
  | destroy =>
    obtain rfl := some.inj hs
    refine ⟨?_, h.retain, h.unbroken, h.current, h.total, h.used, h.fresh⟩
    intro hdestroyed
    cases hdestroyed

theorem good_init [Inhabited Key] (n : Nat) : Good n (init n : State Key) := by
  refine ⟨fun _ => ⟨?_, ?_, ?_, ?_, List.nodup_nil, List.nodup_nil, Nat.zero_le _, ?_, ?_,
    List.Pairwise.nil, fun _ => Nat.one_pos, ?_⟩, rfl, rfl, fun _ => rfl, fun _ => rfl, ?_,
    fun _ _ => ⟨rfl, rfl⟩⟩
  · intro k e he
    cases he
  · intro e he
    exact absurd rfl he
  · intro k e he
    cases he
  · intro p hp
    cases hp
  · intro _ k e he
    cases he
  · intro _ e he
    cases he
  · intro e he
    cases he
  · intro e he
    cases he

/-- Entries without observers that are in the map -/
def Kept (s : State Key) (ks : List Key) : Prop :=
  ks.Nodup ∧ ∀ k ∈ ks, ∃ e, s.objects k = some e ∧ (s.entries e).current = 0

theorem Live.kept_length (h : Live none s) (hretain : s.retain ≠ 0) {ks : List Key}
    (hks : Kept s ks) : ks.length ≤ s.retain := by
  have hsub : ks ⊆ s.detachedQueue.map fun p => (s.entries p.2).id := by
    intro k hk
    obtain ⟨e, hobj, hzero⟩ := hks.2 k hk
    obtain ⟨p, hp, rfl⟩ := List.mem_map.mp (h.detached hretain k e hobj hzero (by simp))
    exact List.mem_map.mpr ⟨p, hp, (h.own k p.2 hobj).2⟩
  have hlength := (List.Nodup.subperm hks.1 hsub).length_le
  rw [List.length_map] at hlength
  exact Nat.le_trans hlength h.length

/-- In every state of a map for `n` entries: no assertion has failed, and until the map is
destroyed, an entry counts the observers that are attached to it and all that were, and is in the
map under its own identity if there are any. Its place in the queue is the end or its own. If `n` is
not zero, no more than `n` entries without observers are in the map, and all others were detached
before them; otherwise nothing is ever removed. -/
theorem metrics_retained [DecidableEq Key] [Inhabited Key]
    (h : Lib.Reach step Lib.Any (init n : State Key) s) :
    s.broken = false ∧ (∀ e < s.freshEntry, 0 < (s.entries e).total) ∧
      (s.destroyed = false →
        (∀ e, (s.entries e).current = s.observers.count e + s.leaving.count e ∧
          (s.entries e).total = s.attachments.count e) ∧
        (∀ e, e ∈ s.observers ∨ e ∈ s.leaving → s.objects (s.entries e).id = some e) ∧
        (∀ k e, s.objects k = some e → (s.entries e).id = k ∧
          ((s.entries e).detachedPos = none ∨
            ∃ node, (s.entries e).detachedPos = some node ∧ (node, e) ∈ s.detachedQueue)) ∧
        (s.detachedQueue.map Prod.fst).Nodup ∧
        (n ≠ 0 → (∀ ks, Kept s ks → ks.length ≤ n) ∧
          ∀ e < s.freshEntry, s.objects (s.entries e).id ≠ some e → ∀ k f, s.objects k = some f →
            (s.entries f).current = 0 → s.detachedAt e < s.detachedAt f) ∧
        (n = 0 → ∀ e < s.freshEntry, s.objects (s.entries e).id = some e)) := by
  have hgood : Good n s := h.invariant (good_init n) fun _ _ _ hg _ hs => good_step hg hs
  refine ⟨hgood.unbroken, hgood.used, ?_⟩
  intro hdestroyed
  have hlive := hgood.live hdestroyed
  refine ⟨fun e => ⟨hgood.current e, hgood.total e⟩, ?_, ?_, hlive.nodes, ?_, ?_⟩
  · intro e he
    exact hlive.attached e (current_ne hgood he)
  · intro k e he
    exact ⟨(hlive.own k e he).2, hlive.place k e he⟩
  · intro hn
    have hretain : s.retain ≠ 0 := hgood.retain.symm ▸ hn
    constructor
    · intro ks hks
      rw [← hgood.retain]
      exact hlive.kept_length hretain hks
    · intro e he hnot k f hf hzero
      exact hlive.evicted e he hnot f (hlive.detached hretain k f hf hzero (by simp))
  · intro hn
    exact hlive.kept (hgood.retain.trans hn)

/-- Two observers of a map that retains one entry are detached. -/
theorem metrics_retained_one :
    ∃ s, Lib.run step (init 1 : State Nat)
        [.create (some 4), .create (some 5), .detach 0 3, .detach 1 2] = some s ∧
      s.broken = false ∧ (s.entries 1).total = s.attachments.count 1 ∧
      (∃ node, (node, 1) ∈ s.detachedQueue) ∧ (∀ ks, Kept s ks → ks.length ≤ 1) ∧
      s.detachedAt 0 < s.detachedAt 1 := by
  have hrun : Lib.run step (init 1 : State Nat)
      [.create (some 4), .create (some 5), .detach 0 3, .detach 1 2] = some _ := rfl
  obtain ⟨hunbroken, -, hlive⟩ := metrics_retained (n := 1) (Lib.Reach.of_run .refl hrun)
  obtain ⟨hcounts, -, hplace, -, hretained, -⟩ := hlive rfl
  obtain ⟨hkept, hevicted⟩ := hretained Nat.one_ne_zero
  refine ⟨_, hrun, hunbroken, (hcounts 1).2, ?_, hkept,
    hevicted 0 (by decide) (by decide) 5 1 (by decide) (by decide)⟩
  obtain ⟨-, hnone | ⟨node, -, hnode⟩⟩ := hplace 5 1 (by decide)
  · exact absurd hnone (by decide)
  · exact ⟨node, hnode⟩

/-- A map that retains nothing keeps an entry without observers. -/
theorem metrics_retained_none :
    ∃ s, Lib.run step (init 0 : State Nat) [.create (some 4), .detach 0 3] = some s ∧
      s.destroyed = false ∧ Kept s [4] := by
  exact ⟨_, rfl, rfl, List.nodup_singleton 4, fun k hk => ⟨0, by
    rw [List.mem_singleton.mp hk]
    decide, by decide⟩⟩

end Ice.Metrics
