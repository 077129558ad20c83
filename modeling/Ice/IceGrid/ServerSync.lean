import Ice.IceGrid.ServerEntry

/-!
# Servers are where the latest update wants them

While a call of a node is outstanding the entry remembers in `_destroy` or in `_load` on which
node the server may be, whatever updates arrive. So a reply always finds what to do next, and a
server that was moved is destroyed first.
-/

namespace Ice.IceGrid.Synchronization

open Ice.Lib
open ServerEntry (moveAway pendingCall)
open Option (isSome_iff_exists isSome_iff_ne_none map_some toList_none)

namespace ServerEntry

/-- An update, as it is sent to a node for the session of the allocation. -/
def stamp (e : ServerEntry) (info : ServerInfo) : ServerInfo :=
  if info.descriptor.activation = "session" then { info with sessionId := e.sessionId } else info

/-- The node on which the server may be. -/
def home (e : ServerEntry) : Option String :=
  (e.destroy <|> e.loaded <|> e.load).map (·.node)

/-- Nothing is pending: what was to be loaded is loaded, and what was to be destroyed is not
there any more. -/
structure Settled (e : ServerEntry) : Prop where
  synchronizing : e.synchronizing = false
  exception : e.exception = none
  load : e.load = none
  destroy : e.destroy = none

/-- The outstanding calls of an entry. -/
inductive InFlight (e : ServerEntry) : List Call → Prop
  | idle (hsync : e.synchronizing = false) : InFlight e []
  | destroying {destroy : ServerInfo} {timeout : Int} {noRestart : Bool}
      (hsync : e.synchronizing = true) (hdestroy : e.destroy = some destroy) :
      InFlight e [.destroyServer destroy timeout noRestart]
  | loading {load : ServerInfo} {session : Option Session} {timeout : Int} {noRestart : Bool}
      (hsync : e.synchronizing = true)
      (hsame : e.updated = false → e.load = some load ∧ e.destroy = none)
      (hhome : e.home = some load.node) :
      InFlight e [.loadServer load session timeout noRestart]

end ServerEntry

namespace Deployment

/-- The server is on a node that answered its latest call. -/
def Present (d : Deployment) (n : String) : Prop := d.placed n ≠ none ∧ d.failed n = false

/-- A server as it is wanted: with the session activation mode, for the session it is allocated
by -/
def wanted (d : Deployment) (info : ServerInfo) : ServerInfo :=
  if info.descriptor.activation = "session" then
    { info with sessionId := (d.allocation.map (·.id)).getD "" }
  else info

/-- The server is where the latest update wants it, or it is nowhere if `destroy` came last. -/
def Exact (d : Deployment) : Prop :=
  (∀ info ∈ d.latest, d.placed info.node = some (d.wanted info)) ∧
    (d.latest = none → ∀ n, d.placed n = none)

/-- The server is where the latest update wants it and nowhere else, or it is nowhere if
`destroy` came last. Which session it is loaded for is left open if the entry did not notice the
latest allocation or release, and what is on a node that failed is not known. -/
structure InPlace (d : Deployment) : Prop where
  there : ∀ info ∈ d.latest, ∃ sessionId, d.placed info.node = some { info with sessionId } ∧
    (info.descriptor.activation ≠ "session" ∨ d.noticed = true →
      { info with sessionId } = d.wanted info)
  nowhereElse : ∀ n, d.Present n → ∃ info ∈ d.latest, n = info.node

/-- What holds of a server entry. -/
structure Safe (d : Deployment) : Prop where
  noFault : d.fault = none
  atMostOne : d.calls.length ≤ 1
  inPlace : d.entry.Settled → d.InPlace
  /-- A server is loaded on a node only if it is on no other. -/
  moved : ∀ load session timeout noRestart,
    .loadServer load session timeout noRestart ∈ d.calls → ∀ n, d.Present n → n = load.node

/-- What every step keeps. -/
structure Consistent (d : Deployment) : Prop where
  noFault : d.fault = none
  current : d.entry.current = d.latest.map d.entry.stamp
  loaded : ∀ info ∈ d.entry.loaded, d.entry.load = none ∧ d.entry.destroy = none ∧
    d.entry.synchronizing = false ∧ d.placed info.node = some info
  home : ∀ n, d.Present n → d.entry.home = some n
  inFlight : d.entry.InFlight d.calls
  session : d.noticed = true → d.entry.allocationSession = d.allocation

@[simp] theorem stamp_node (e : ServerEntry) (info : ServerInfo) :
    (e.stamp info).node = info.node := by
  unfold ServerEntry.stamp
  split <;> rfl

variable {d : Deployment} {e : ServerEntry} {calls : List Call} {latest : Option ServerInfo}
  {session : Option Session} {noRestart : Bool} {call : Call} {timeout : Int} {k : Nat}

/-- A server that is placed as the entry has it is the one that is wanted, but for its session. -/
theorem Consistent.stamped (h : d.Consistent) {info : ServerInfo} {node : String}
    (hplaced : d.placed node = some (d.entry.stamp info)) :
    ∃ sessionId, d.placed node = some { info with sessionId } ∧
      (info.descriptor.activation ≠ "session" ∨ d.noticed = true →
        { info with sessionId } = d.wanted info) := by
  unfold ServerEntry.stamp at hplaced
  unfold wanted
  by_cases hactivation : info.descriptor.activation = "session"
  · rw [if_pos hactivation] at hplaced
    refine ⟨_, hplaced, ?_⟩
    rintro (hother | hnoticed)
    · exact absurd hactivation hother
    · rw [if_pos hactivation, ServerEntry.sessionId, h.session hnoticed]
  · rw [if_neg hactivation] at hplaced
    refine ⟨info.sessionId, hplaced, ?_⟩
    intro _
    rw [if_neg hactivation]

theorem Consistent.safe (h : d.Consistent) : d.Safe := by
  have hinFlight := h.inFlight
  generalize hcalls : d.calls = calls at hinFlight
  refine ⟨h.noFault, ?_, fun hs => ?_, ?_⟩
  · rw [hcalls]
    cases hinFlight <;> simp
  · have hloaded : d.entry.loaded = d.latest.map d.entry.stamp := by
      have hcurrent := h.current
      rw [ServerEntry.current, hs.load] at hcurrent
      rw [← hcurrent]
      cases d.entry.loaded <;> rfl
    constructor
    · intro info hinfo
      rw [Option.mem_def.mp hinfo, map_some] at hloaded
      have hplaced := (h.loaded _ hloaded).2.2.2
      rw [stamp_node] at hplaced
      exact h.stamped hplaced
    · intro n hn
      have hhome := h.home n hn
      rw [ServerEntry.home, hs.destroy, hs.load, hloaded] at hhome
      cases hlatest : d.latest with
      | none => simp [hlatest] at hhome
      | some info =>
        rw [hlatest] at hhome
        exact ⟨info, rfl, by simpa using hhome.symm⟩
  · intro load session timeout noRestart hcall n hn
    have hhome := h.home n hn
    rw [hcalls] at hcall
    cases hinFlight with
    | idle => cases hcall
    | destroying => simp at hcall
    | loading _ _ hload =>
      simp only [List.mem_singleton, Call.loadServer.injEq] at hcall
      rw [hcall.1]
      exact Option.some.inj (hhome.symm.trans hload)

/-- What of an entry and its outstanding calls does not depend on the nodes. -/
structure Kept (e : ServerEntry) (calls : List Call) (latest : Option ServerInfo)
    (session : Option Session) : Prop where
  current : e.current = latest.map e.stamp
  loaded : e.loaded.isSome → e.load = none ∧ e.destroy = none ∧ e.synchronizing = false
  inFlight : e.InFlight calls
  session : e.allocationSession = session

theorem Consistent.kept (h : d.Consistent) :
    Kept d.entry d.calls d.latest d.entry.allocationSession := by
  refine ⟨h.current, fun hs => ?_, h.inFlight, rfl⟩
  obtain ⟨info, hinfo⟩ := isSome_iff_exists.mp hs
  obtain ⟨hload, hdestroy, hsync, -⟩ := h.loaded info hinfo
  exact ⟨hload, hdestroy, hsync⟩

/-- Where a server is moved away from, it is to be destroyed. -/
theorem moveAway_destroy (node : String) (h : e.loaded.isSome → e.load = none) :
    (e.moveAway node).destroy = (e.destroy <|> e.current.filter (·.node ≠ node)) := by
  unfold moveAway ServerEntry.current
  cases hdestroy : e.destroy with
  | some _ => simp [hdestroy]
  | none =>
    cases hloaded : e.loaded with
    | some info =>
      have hload : e.load = none := h (by simp [hloaded])
      by_cases hn : node = info.node
      · simp [hload, hn, hdestroy, Option.filter]
      · simp [hn, Option.filter, Ne.symm hn]
    | none =>
      cases hload : e.load with
      | none => simp [hdestroy]
      | some info =>
        by_cases hn : node = info.node
        · simp [hn, hdestroy, Option.filter]
        · simp [hn, Option.filter, Ne.symm hn]

theorem moveAway_synchronizing (e : ServerEntry) (node : String) :
    (e.moveAway node).synchronizing = e.synchronizing := by
  unfold moveAway
  grind

theorem moveAway_allocationSession (e : ServerEntry) (node : String) :
    (e.moveAway node).allocationSession = e.allocationSession := by
  unfold moveAway
  grind

section

variable (h : Kept e calls latest session)

include h

theorem update_home (info : ServerInfo) (noRestart : Bool)
    {node : String} (hhome : e.home = some node) : (e.update info noRestart).home = some node := by
  have hdestroy := moveAway_destroy info.node fun hs => (h.loaded hs).1
  simp only [ServerEntry.home, ServerEntry.update, hdestroy] at hhome ⊢
  cases hd : e.destroy with
  | some _ => simpa [hd] using hhome
  | none =>
    cases hc : e.current with
    | none =>
      simp [ServerEntry.current] at hc
      simp [hd, hc] at hhome
    | some c =>
      have hnode : c.node = node := by
        rw [hd] at hhome
        have hcurrent : (e.loaded <|> e.load) = some c := hc
        simpa [hcurrent] using hhome
      by_cases hn : node = info.node
      · simp only [Option.filter, hnode, hn]
        simp
        split <;> rfl
      · simp [Option.filter, hnode, hn]

theorem Kept.update (info : ServerInfo) (noRestart : Bool) :
    Kept (e.update info noRestart) calls (some info) session := by
  have hsync : (e.update info noRestart).synchronizing = e.synchronizing :=
    moveAway_synchronizing e info.node
  have hsession : (e.update info noRestart).sessionId = e.sessionId := by
    simp only [ServerEntry.sessionId, ServerEntry.update, moveAway_allocationSession]
  refine ⟨?_, fun hs => ?_, ?_, (moveAway_allocationSession e info.node).trans h.session⟩
  · have hload : (e.update info noRestart).current = some (if info.descriptor.activation = "session"
        then { info with sessionId := e.sessionId } else info) := by
      simp [ServerEntry.current, ServerEntry.update]
    rw [hload, map_some, ServerEntry.stamp, hsession]
  · simp [ServerEntry.update] at hs
  · cases h.inFlight with
    | idle hs => exact .idle (hsync.trans hs)
    | destroying hs hdestroy =>
      refine .destroying (hsync.trans hs) ?_
      simp [ServerEntry.update, moveAway_destroy info.node fun hs => (h.loaded hs).1, hdestroy]
    | loading hs _ hhome =>
      exact .loading (hsync.trans hs) (fun hu => by simp [ServerEntry.update] at hu)
        (update_home h info noRestart hhome)

theorem Kept.destroyIt {e' : ServerEntry}
    (he : e.destroyIt noRestart = .ok e') :
    Kept e' calls none session ∧ e'.loaded = none ∧ e'.home = e.home := by
  unfold ServerEntry.destroyIt at he
  split at he
  · cases he
  · cases he
    have hhome : (e.destroy <|> e.loaded <|> e.load).map (·.node) = e.home := rfl
    refine ⟨⟨rfl, fun hs => by simp at hs, ?_, h.session⟩, rfl, by simp [ServerEntry.home]⟩
    cases h.inFlight with
    | idle hs => exact .idle hs
    | destroying hs hdestroy => exact .destroying hs (by simp [hdestroy])
    | loading hs _ hload =>
      refine .loading hs (fun hu => by simp at hu) ?_
      rw [← hload, ← hhome]
      simp [ServerEntry.home]

end

theorem reload_home (h : e.load = none) : e.reload.home = e.home := by
  simp [ServerEntry.home, ServerEntry.reload, h]

section

variable (h : Kept e calls latest session)

include h

theorem Kept.reload (hload : e.load = none)
    (hsync : e.synchronizing = false) : Kept e.reload calls latest session := by
  refine ⟨?_, fun hs => by simp [ServerEntry.reload] at hs, ?_, h.session⟩
  · have hcurrent : e.reload.current = e.current := by
      simp [ServerEntry.current, ServerEntry.reload, hload]
    rw [hcurrent]
    exact h.current
  · cases h.inFlight with
    | idle hs => exact .idle hs
    | destroying hs _ | loading hs _ _ => exact absurd (hs.symm.trans hsync) (by decide)

theorem Kept.forget : Kept e.forget calls latest session := by
  refine ⟨h.current, h.loaded, ?_, h.session⟩
  cases h.inFlight with
  | idle hs => exact .idle hs
  | destroying hs hdestroy => exact .destroying hs hdestroy
  | loading hs hsame hhome => exact .loading hs hsame hhome

theorem Kept.unsync :
    Kept e.unsync calls latest session ∧ e.unsync.loaded = none ∧ e.unsync.home = e.home := by
  unfold ServerEntry.unsync
  split
  · rename_i hs
    obtain ⟨hload, -, hsync⟩ := h.loaded hs
    exact ⟨(h.reload hload hsync).forget, rfl, reload_home hload⟩
  · rename_i hs
    exact ⟨h.forget, by simpa [ServerEntry.forget] using hs, rfl⟩

end

/-- The call for what is pending is the one to expect. -/
theorem inFlight_pendingCall (hsync : e.synchronizing = true) (hloaded : e.loaded = none)
    (hcall : e.pendingCall timeout = some call) : e.InFlight [call] := by
  unfold pendingCall at hcall
  split at hcall
  · rename_i hdestroy
    cases hcall
    exact .destroying hsync hdestroy
  · rename_i load hdestroy hload
    cases hcall
    exact .loading hsync (fun _ => ⟨hload, hdestroy⟩)
      (by simp [ServerEntry.home, hdestroy, hloaded, hload])
  · cases hcall

theorem InFlight.eq_nil (h : e.InFlight calls) (hsync : e.synchronizing = false) : calls = [] := by
  cases h with
  | idle => rfl
  | destroying hs _ | loading hs _ _ => exact absurd (hs.symm.trans hsync) (by decide)

theorem Kept.callPending (h : Kept e [] latest session) :
    Kept e.callPending.1 e.callPending.2.toList latest session ∧
      (∀ info ∈ e.callPending.1.loaded, info ∈ e.loaded) ∧ e.callPending.1.home = e.home := by
  unfold ServerEntry.callPending
  cases hcall : e.pendingCall e.deactivationTimeout with
  | none => exact ⟨h, fun _ hi => hi, rfl⟩
  | some call =>
    have hloaded : e.loaded = none := by
      rw [← Option.not_isSome_iff_eq_none]
      intro hs
      obtain ⟨hload, hdestroy, -⟩ := h.loaded hs
      simp [pendingCall, hload, hdestroy] at hcall
    have hcall' : pendingCall e.deactivationTimeout
        { e with synchronizing := true } = some call := hcall
    refine ⟨⟨h.current, fun hs => ?_, inFlight_pendingCall rfl hloaded hcall', h.session⟩,
      fun _ hi => hi, rfl⟩
    exact absurd hloaded (isSome_iff_ne_none.mp hs)

section

variable (h : Kept e calls latest session)

include h

/-- What a synchronization starts with. -/
theorem Kept.syncImpl :
    Kept e.syncImpl.1 (calls ++ e.syncImpl.2.toList) latest session ∧
      (∀ info ∈ e.syncImpl.1.loaded, info ∈ e.loaded) ∧ e.syncImpl.1.home = e.home := by
  unfold ServerEntry.syncImpl
  split
  · exact ⟨by simpa using h, fun _ hi => hi, rfl⟩
  · rename_i hs
    have hsync : e.synchronizing = false := by simpa using hs
    obtain rfl := InFlight.eq_nil h.inFlight hsync
    let u := if e.load.isNone && e.destroy.isNone then e.reload else e
    have hu : Kept u [] latest session ∧ (∀ info ∈ u.loaded, info ∈ e.loaded) ∧ u.home = e.home ∧
        u.synchronizing = false := by
      simp only [u]
      split
      · rename_i hnone
        simp only [Bool.and_eq_true, Option.isNone_iff_eq_none] at hnone
        exact ⟨h.reload hnone.1 hsync, fun _ hi => by simp [ServerEntry.reload] at hi,
          reload_home hnone.1, hsync⟩
      · exact ⟨h, fun _ hi => hi, rfl, hsync⟩
    obtain ⟨hk, hsub, hhome, husync⟩ := hu
    have hv : Kept { u with updated := false, exception := none } [] latest session :=
      ⟨hk.current, hk.loaded, .idle husync, hk.session⟩
    obtain ⟨hk', hsub', hhome'⟩ := hv.callPending
    exact ⟨hk', fun info hi => hsub info (hsub' info hi), hhome'.trans hhome⟩

/-- What may be loaded is in `_load` before its session id is changed. -/
theorem Kept.pulled {info : ServerInfo} (hinfo : e.current = some info) :
    ∃ u, (if e.load.isNone then e.reload else e) = u ∧ Kept u calls latest session ∧
      u.loaded = none ∧ u.load = some info ∧ u.home = e.home ∧
      u.synchronizing = e.synchronizing := by
  refine ⟨_, rfl, ?_⟩
  cases hload : e.load with
  | none =>
    have hloaded : e.loaded = some info := by
      simpa [ServerEntry.current, hload] using hinfo
    have hsync := (h.loaded (by simp [hloaded])).2.2
    exact ⟨h.reload hload hsync, rfl, hloaded, reload_home hload, rfl⟩
  | some load =>
    have hloaded : e.loaded = none := by
      rw [← Option.not_isSome_iff_eq_none]
      intro hs
      rw [(h.loaded hs).1] at hload
      cases hload
    refine ⟨h, hloaded, ?_, rfl, rfl⟩
    simpa [ServerEntry.current, hload, hloaded] using hinfo

/-- An allocation or a release keeps the descriptor but for its session, if it is noticed. -/
theorem Kept.setSession (owner : Option Session) :
    ∃ e', e.setSession owner = .ok e' ∧
      Kept e' calls latest (if e.notices then owner else session) ∧
      (∀ info ∈ e'.loaded, info ∈ e.loaded) ∧ e'.home = e.home := by
  unfold ServerEntry.setSession ServerEntry.notices
  cases hinfo : e.current with
  | none => exact ⟨e, rfl, h, fun _ hi => hi, rfl⟩
  | some info =>
    by_cases hactivation : info.descriptor.activation = "session"
    · obtain ⟨u, hu, hk, hloaded, hload, hhome, -⟩ := h.pulled hinfo
      simp only [if_pos hactivation, hu, hload, Option.any_some, decide_eq_true hactivation,
        if_true]
      let v : ServerEntry := { u with updated := true, allocationSession := owner }
      let w : ServerEntry := { v with load := some { info with sessionId := v.sessionId } }
      have hwhome : w.home = u.home := by
        cases hdestroy : u.destroy <;> simp [ServerEntry.home, w, v, hload, hloaded, hdestroy]
      refine ⟨w, rfl, ⟨?_, ?_, ?_, rfl⟩, ?_, hwhome.trans hhome⟩
      · have hcurrent : u.current = some info := by
          simp [ServerEntry.current, hloaded, hload]
        obtain ⟨i, hi, hstamp⟩ := Option.map_eq_some_iff.mp (hk.current.symm.trans hcurrent)
        have hactivation' : i.descriptor.activation = "session" := by
          rw [← hactivation, ← hstamp, ServerEntry.stamp]
          split <;> rfl
        rw [ServerEntry.stamp, if_pos hactivation'] at hstamp
        rw [hi, map_some, ServerEntry.stamp, if_pos hactivation']
        have hwcurrent : w.current = some { info with sessionId := v.sessionId } := by
          simp [ServerEntry.current, w, v, hloaded]
        rw [hwcurrent, ← hstamp]
        rfl
      · intro hs
        simp [w, v, hloaded] at hs
      · cases hk.inFlight with
        | idle hs => exact .idle hs
        | destroying hs hdestroy => exact .destroying hs hdestroy
        | loading hs _ hl =>
          exact .loading hs (fun hu => by simp [w, v] at hu) (hwhome.trans hl)
      · intro _ hi
        simp [w, v, hloaded] at hi
    · simp only [if_neg hactivation, Option.any_some, decide_eq_false hactivation]
      exact ⟨e, rfl, h, fun _ hi => hi, rfl⟩

theorem Kept.loaded_eq_none (hsync : e.synchronizing = true) :
    e.loaded = none := by
  rw [← Option.not_isSome_iff_eq_none]
  intro hs
  exact absurd (hsync.symm.trans (h.loaded hs).2.2) (by decide)

end

/-- Where a server may be on a node that was not loaded, something is pending. -/
theorem exists_pendingCall {node : String} (timeout : Int) (hloaded : e.loaded = none)
    (hhome : e.home = some node) : ∃ call, e.pendingCall timeout = some call := by
  unfold pendingCall
  cases hdestroy : e.destroy with
  | some destroy => exact ⟨_, rfl⟩
  | none =>
    cases hload : e.load with
    | some load => exact ⟨_, rfl⟩
    | none => simp [ServerEntry.home, hdestroy, hload, hloaded] at hhome

/-- A node loaded the server: it is there, whether it is to stay or not. -/
theorem Kept.loadCallback {load : ServerInfo} {owner : Option Session}
    (h : Kept e [.loadServer load owner timeout noRestart] latest session) (reply : Loaded) :
    ∃ e' call, e.loadCallback reply = .ok (e', call) ∧ Kept e' call.toList latest session ∧
      e'.home = some load.node ∧ ∀ info ∈ e'.loaded, info = load := by
  cases h.inFlight with
  | loading hsync hsame hhome =>
    have hloaded := h.loaded_eq_none hsync
    unfold ServerEntry.loadCallback
    cases hupdated : e.updated with
    | false =>
      obtain ⟨hload, hdestroy⟩ := hsame hupdated
      simp only [hload, hdestroy]
      refine ⟨_, none, rfl, ⟨?_, fun _ => ⟨rfl, rfl, rfl⟩, .idle rfl, h.session⟩, rfl,
        fun info hi => ?_⟩
      · have hcurrent : e.current = some load := by
          simp [ServerEntry.current, hload, hloaded]
        exact hcurrent.symm.trans h.current
      · exact (Option.some.inj hi).symm
    | true =>
      let u : ServerEntry := { e with updated := false }
      obtain ⟨call, hcall⟩ := exists_pendingCall (-1) hloaded hhome
      have hu : u.pendingCall (-1) = some call := hcall
      refine ⟨u, some call, ?_, ⟨h.current, h.loaded, ?_, h.session⟩, hhome, fun info hi => ?_⟩
      · simp only [Bool.not_true, Bool.false_eq_true, if_false]
        rw [show ({ e with updated := false } : ServerEntry).pendingCall (-1) = some call
          from hcall]
      · exact inFlight_pendingCall hsync hloaded hu
      · exact absurd hloaded (Option.ne_none_iff_exists'.mpr ⟨info, hi⟩)

/-- A node has the server no more. -/
theorem Kept.destroyCallback {destroy : ServerInfo}
    (h : Kept e [.destroyServer destroy timeout noRestart] latest session) :
    ∃ e' call, e.destroyCallback = .ok (e', call) ∧ Kept e' call.toList latest session ∧
      e'.loaded = none := by
  cases h.inFlight with
  | destroying hsync hdestroy =>
    have hloaded := h.loaded_eq_none hsync
    unfold ServerEntry.destroyCallback
    cases hload : e.load with
    | none =>
      refine ⟨{ e with destroy := none, synchronizing := false }.forget, none, ?_,
        ⟨h.current, fun hs => ?_, .idle rfl, h.session⟩, hloaded⟩
      · simp [ServerEntry.forget, hload, hloaded]
      · exact absurd hloaded (isSome_iff_ne_none.mp hs)
    | some load =>
      refine ⟨{ e with destroy := none, updated := false }.forget,
        some (.loadServer load e.allocationSession (-1) e.noRestart), ?_,
        ⟨h.current, fun hs => ?_, ?_, h.session⟩, hloaded⟩
      · simp [ServerEntry.forget, hload]
      · exact absurd hloaded (isSome_iff_ne_none.mp hs)
      · exact .loading hsync (fun _ => ⟨hload, rfl⟩)
          (by simp [ServerEntry.home, ServerEntry.forget, hloaded, hload])

/-- The node that is called fails. -/
theorem Kept.exceptionReply (h : Kept e [call] latest session) (ex : Exception) :
    e.home = some call.node ∧ ∃ e' next, e.exceptionReply ex = .ok (e', next) ∧
      Kept e' next.toList latest session ∧ e'.loaded = none := by
  have hcall : e.home = some call.node ∧ e.synchronizing = true := by
    cases h.inFlight with
    | destroying hsync hdestroy => exact ⟨by simp [ServerEntry.home, hdestroy, Call.node], hsync⟩
    | loading hsync _ hhome => exact ⟨hhome, hsync⟩
  obtain ⟨hhome, hsync⟩ := hcall
  have hloaded := h.loaded_eq_none hsync
  refine ⟨hhome, ?_⟩
  unfold ServerEntry.exceptionReply
  split
  · refine ⟨_, none, rfl, ⟨h.current, fun hs => ?_, .idle rfl, h.session⟩, hloaded⟩
    exact absurd hloaded (isSome_iff_ne_none.mp hs)
  · rename_i hgoes
    cases hload : e.load with
    | none =>
      cases hdestroy : e.destroy with
      | none => simp [ServerEntry.home, hdestroy, hload, hloaded] at hhome
      | some destroy => simp [hdestroy, hload] at hgoes
    | some load =>
      have hcurrent : (e.loaded <|> some load) = latest.map e.stamp := hload ▸ h.current
      refine ⟨_, _, rfl, ⟨hcurrent, fun hs => ?_, ?_, h.session⟩, hloaded⟩
      · exact absurd hloaded (isSome_iff_ne_none.mp hs)
      · exact .loading hsync (fun _ => ⟨rfl, rfl⟩) (by simp [ServerEntry.home, hloaded])

/-- A step that calls no answer in leaves the nodes alone. -/
theorem Consistent.kept_step (h : d.Consistent) (hk : Kept e calls latest session)
    {allocation : Option Session} {noticed : Bool}
    (hsession : noticed = true → session = allocation)
    (hloaded : ∀ info ∈ e.loaded, info ∈ d.entry.loaded)
    (hhome : ∀ node, d.entry.home = some node → e.home = some node) :
    Consistent { d with
      entry := e
      calls := calls
      latest := latest
      allocation := allocation
      noticed := noticed } where
  noFault := h.noFault
  current := hk.current
  loaded info hi := by
    obtain ⟨hload, hdestroy, hsync⟩ := hk.loaded (isSome_iff_exists.mpr ⟨info, hi⟩)
    exact ⟨hload, hdestroy, hsync, (h.loaded info (hloaded info hi)).2.2.2⟩
  home n hn := hhome n (h.home n hn)
  inFlight := hk.inFlight
  session hn := hk.session.trans (hsession hn)

/-- The only outstanding call is the one that is answered. -/
theorem Consistent.calls_eq (h : d.Consistent) (hcall : d.calls[k]? = some call) :
    d.calls = [call] ∧ d.calls.eraseIdx k = [] := by
  have hinFlight := h.inFlight
  generalize d.calls = calls at hcall hinFlight
  cases hinFlight with
  | idle => simp at hcall
  | destroying => cases k <;> simp_all
  | loading => cases k <;> simp_all

theorem getProxy_ok (h : e.InFlight calls) (upToDate : Bool) :
    ∃ l, e.getProxy upToDate = .ok l := by
  unfold ServerEntry.getProxy
  split
  · rename_i hfound
    cases hinfo : e.loaded <|> e.load <|> e.destroy with
    | some info => exact ⟨_, rfl⟩
    | none =>
      have hnone : e.loaded = none ∧ e.load = none ∧ e.destroy = none := by
        simpa using hinfo
      cases h with
      | idle hs => simp [hs, hnone.1] at hfound
      | destroying _ hdestroy => simp [hnone.2.2] at hdestroy
      | loading _ _ hhome =>
        simp [ServerEntry.home, hnone.1, hnone.2.1, hnone.2.2] at hhome
  · split
    · exact ⟨_, rfl⟩
    · exact ⟨_, rfl⟩

/-- A wait without a limit ends when the entry is synchronized. -/
theorem waitForSyncNoThrow_ok (e : ServerEntry) (timeout : Int) (expired : Bool) :
    e.waitForSyncNoThrow timeout expired = .ok () := by
  unfold ServerEntry.waitForSyncNoThrow
  by_cases h : 0 ≤ timeout
  · split <;> simp [h]
  · have hne : e.waitImpl timeout expired ≠ some .synchronizationException := by
      unfold ServerEntry.waitImpl
      have hneg : timeout ≠ 0 ∧ ¬ (0 < timeout) := by omega
      cases hsync : e.synchronizing <;> simp [hneg.1, hneg.2]
      cases e.exception <;> simp
    split
    · rename_i hw
      exact absurd hw hne
    · rfl

variable {done failed : Bool}

/-- An answer: nothing is outstanding but what is called then. -/
theorem Consistent.answered (h : d.Consistent) (hcall : d.calls[k]? = some call)
    {next : Option Call} (hk : Kept e next.toList d.latest d.entry.allocationSession)
    (hloaded : ∀ info ∈ e.loaded, (d.answered k call done failed).placed info.node = some info)
    (hhome : ∀ n, (d.answered k call done failed).Present n → e.home = some n) :
    ((d.answered k call done failed).finish (.ok (e, next))).Consistent where
  noFault := h.noFault
  current := hk.current
  loaded info hi := by
    obtain ⟨hload, hdestroy, hsync⟩ := hk.loaded (isSome_iff_exists.mpr ⟨info, hi⟩)
    exact ⟨hload, hdestroy, hsync, hloaded info hi⟩
  home := hhome
  inFlight := by
    simp only [finish, Deployment.answered, (h.calls_eq hcall).2, List.nil_append]
    exact hk.inFlight
  session hn := hk.session.trans (h.session hn)

/-- The server can be only where it was called, and only if that node did not fail. -/
theorem Consistent.present_answered (h : d.Consistent)
    (hhome : d.entry.home = some call.node) {n : String}
    (hn : (d.answered k call done failed).Present n) : n = call.node ∧ failed = false := by
  obtain ⟨hplaced, hfailed⟩ := hn
  have hnode : n = call.node := by
    apply Classical.byContradiction
    intro hne
    simp only [Deployment.answered, hne, if_false] at hplaced hfailed
    exact hne (Option.some.inj ((h.home n ⟨hplaced, hfailed⟩).symm.trans hhome))
  simp only [Deployment.answered, hnode, if_true] at hfailed
  exact ⟨hnode, hfailed⟩

theorem Consistent.step {d' : Deployment} {e : Event} (h : d.Consistent)
    (hstep : d.step e = some d') : d'.Consistent := by
  have hk := h.kept
  unfold Deployment.step at hstep
  rw [if_neg (by simp [h.noFault])] at hstep
  have hsync : (d.finish (.ok d.entry.syncImpl)).Consistent := by
    obtain ⟨hk', hloaded, hhome⟩ := hk.syncImpl
    exact h.kept_step hk' h.session hloaded fun _ hh => hhome ▸ hh
  have hset (owner : Option Session) :
      Consistent { d.finishQuietly (d.entry.setSession owner) with
        allocation := owner
        noticed := d.entry.notices } := by
    obtain ⟨e', he, hk', hloaded, hhome⟩ := hk.setSession owner
    rw [he, finishQuietly, Except.map, finish, toList_none, List.append_nil]
    exact h.kept_step hk' (fun hn => if_pos hn) hloaded fun _ hh => hhome ▸ hh
  have hcheck {α : Type} (a : α) : (d.check (.ok a)).Consistent := by
    rw [check, Except.map, finish, toList_none, List.append_nil]
    exact h
  cases e with
  | update info noRestart =>
    cases hstep
    exact h.kept_step (hk.update info noRestart) h.session
      (fun _ hi => by simp [ServerEntry.update] at hi)
      fun _ hh => update_home hk info noRestart hh
  | remove noRestart =>
    dsimp only at hstep
    split at hstep
    · cases hstep
    · rename_i hcurrent
      cases hstep
      cases hd : d.entry.destroyIt noRestart with
      | error _ =>
        unfold ServerEntry.destroyIt at hd
        rw [if_neg hcurrent] at hd
        cases hd
      | ok e' =>
        obtain ⟨hk', hloaded, hhome⟩ := hk.destroyIt hd
        rw [finishQuietly, Except.map, finish, toList_none, List.append_nil]
        exact h.kept_step hk' h.session (fun _ hi => by simp [hloaded] at hi) fun _ hh => hhome ▸ hh
  | unsync =>
    cases hstep
    obtain ⟨hk', hloaded, hhome⟩ := hk.unsync
    exact h.kept_step hk' h.session (fun _ hi => by simp [hloaded] at hi) fun _ hh => hhome ▸ hh
  | sync =>
    cases hstep
    exact hsync
  | allocated session =>
    cases hstep
    exact hset (some session)
  | released =>
    cases hstep
    exact hset none
  | noSync =>
    dsimp only at hstep
    split at hstep
    · cases hstep
      exact hsync
    · cases hstep
      exact h
  | waitForSyncNoThrow timeout expired =>
    cases hstep
    rw [waitForSyncNoThrow_ok]
    exact hcheck ()
  | getProxy upToDate =>
    cases hstep
    obtain ⟨l, hl⟩ := getProxy_ok h.inFlight upToDate
    rw [hl]
    exact hcheck l
  | loadCallback k reply =>
    dsimp only at hstep
    split at hstep
    · rename_i load session timeout noRestart hcall
      cases hstep
      obtain ⟨hcalls, hnone⟩ := h.calls_eq hcall
      rw [hcalls] at hk
      obtain ⟨e', next, he, hk', hhome, hloaded⟩ := hk.loadCallback reply
      rw [he]
      have hcalled : d.entry.home =
          some (Call.loadServer load session timeout noRestart).node := by
        have hinFlight := h.inFlight
        rw [hcalls] at hinFlight
        cases hinFlight with
        | loading _ _ hh => exact hh
      refine h.answered hcall hk' (fun info hi => ?_) fun n hn => ?_
      · rw [hloaded info hi]
        simp [Deployment.answered, Call.node]
      · rw [(h.present_answered hcalled hn).1]
        exact hhome
    · cases hstep
  | destroyCallback k =>
    dsimp only at hstep
    split at hstep
    · rename_i destroy timeout noRestart hcall
      cases hstep
      obtain ⟨hcalls, hnone⟩ := h.calls_eq hcall
      rw [hcalls] at hk
      obtain ⟨e', next, he, hk', hloaded⟩ := hk.destroyCallback
      rw [he]
      have hcalled : d.entry.home =
          some (Call.destroyServer destroy timeout noRestart).node := by
        have hinFlight := h.inFlight
        rw [hcalls] at hinFlight
        cases hinFlight with
        | destroying _ hdestroy => simp [ServerEntry.home, hdestroy, Call.node]
      refine h.answered hcall hk' (fun info hi => by simp [hloaded] at hi) fun n hn => ?_
      have hplaced := hn.1
      rw [(h.present_answered hcalled hn).1] at hplaced
      simp [Deployment.answered, Call.node] at hplaced
    · cases hstep
  | exception k ex done =>
    obtain ⟨call, hcall, rfl⟩ := Option.map_eq_some_iff.mp hstep
    obtain ⟨hcalls, hnone⟩ := h.calls_eq hcall
    rw [hcalls] at hk
    obtain ⟨hcalled, e', next, he, hk', hloaded⟩ := hk.exceptionReply ex
    rw [he]
    refine h.answered hcall hk' (fun info hi => by simp [hloaded] at hi) fun n hn => ?_
    exact absurd (h.present_answered hcalled hn).2 (by decide)

theorem consistent_fresh : Consistent {} where
  noFault := rfl
  current := rfl
  loaded _ hi := by cases hi
  home _ hn := absurd rfl hn.1
  inFlight := .idle rfl
  session _ := rfl

end Deployment

/-- Whatever happens to a server entry in whatever order, no assertion fails, one call at most is
outstanding, and a server is loaded on a node only if it is on no other node that did not fail.
Once nothing is pending, the server is loaded as the latest update has it, for the session of the
allocation if that was noticed; or it is on no node that did not fail if `destroy` came last. -/
theorem safe_of_reach {d : Deployment} (h : Reach Deployment.step Any {} d) : d.Safe :=
  (h.invariant Deployment.consistent_fresh fun _ _ _ hc _ hs => hc.step hs).safe

instance (e : ServerEntry) : Decidable e.Settled :=
  decidable_of_iff (e.synchronizing = false ∧ e.exception = none ∧ e.load = none ∧ e.destroy = none)
    ⟨fun h => ⟨h.1, h.2.1, h.2.2.1, h.2.2.2⟩,
      fun h => ⟨h.synchronizing, h.exception, h.load, h.destroy⟩⟩

/-- A server on the node `n1` or `n2` -/
def server (revision : Nat) (node activation : String) : ServerInfo :=
  ⟨"u", revision, node, ⟨activation, false⟩, ""⟩

def reply : Loaded := ⟨"server", [], 1, 1⟩

/-- A server is loaded on a node, moved to another node while it is loaded again, destroyed on
the first and loaded on the second for the session it is allocated by. -/
theorem safe_of_moved :
    ∃ d, Reach Deployment.step Any {} d ∧ d.entry.Settled ∧ d.Safe ∧ d.noticed = true ∧
      d.allocation = some ⟨"s"⟩ ∧ d.placed "n1" = none ∧
      d.placed "n2" = some { server 2 "n2" "session" with sessionId := "s" } := by
  have hrun : (run Deployment.step {}
      [.update (server 1 "n1" "session") false, .sync, .loadCallback 0 reply,
        .allocated ⟨"s"⟩, .noSync, .update (server 2 "n2" "session") false,
        .loadCallback 0 reply, .destroyCallback 0, .loadCallback 0 reply]).any
      (fun d => decide (d.entry.Settled ∧ d.noticed = true ∧ d.allocation = some ⟨"s"⟩ ∧
        d.placed "n1" = none ∧
        d.placed "n2" = some { server 2 "n2" "session" with sessionId := "s" })) = true := by
    decide +kernel
  obtain ⟨d, hr, hd⟩ := Reach.exists_of_run hrun
  obtain ⟨hsettled, hplaces⟩ := of_decide_eq_true hd
  exact ⟨d, hr, hsettled, safe_of_reach hr, hplaces⟩

/-- An update alone loads nothing. A server that its node did not destroy is still there after the
exception was cleared by another synchronization. And a server that is released while it has
another activation mode is loaded for the released session when it has the session mode again. -/
theorem not_exact_of_update :
    (∃ d, Reach Deployment.step Any {} d ∧ d.entry.synchronizing = false ∧
      d.entry.exception = none ∧ ¬d.Exact) ∧
    (∃ d, Reach Deployment.step Any {} d ∧ d.entry.Settled ∧ d.latest = none ∧ ¬d.Exact) ∧
    ∃ d, Reach Deployment.step Any {} d ∧ d.entry.Settled ∧ d.latest ≠ none ∧ ¬d.Exact := by
  refine ⟨?_, ?_, ?_⟩
  · have hrun : (run Deployment.step {} [.update (server 1 "n1" "manual") false]).any
        (fun d => decide (d.entry.synchronizing = false ∧ d.entry.exception = none ∧
          d.latest = some (server 1 "n1" "manual") ∧ d.placed "n1" = none)) = true := by
      decide +kernel
    obtain ⟨d, hr, hd⟩ := Reach.exists_of_run hrun
    obtain ⟨hsync, hexception, hlatest, hplaced⟩ := of_decide_eq_true hd
    refine ⟨d, hr, hsync, hexception, fun h => ?_⟩
    have hthere := h.1 _ hlatest
    rw [show (server 1 "n1" "manual").node = "n1" from rfl, hplaced] at hthere
    cases hthere
  · have hrun : (run Deployment.step {}
        [.update (server 1 "n1" "manual") false, .sync, .loadCallback 0 reply, .remove false, .sync,
          .exception 0 (.nodeUnreachableException "n1" "") false, .sync]).any
        (fun d => decide (d.entry.Settled ∧ d.latest = none ∧ d.placed "n1" ≠ none)) = true := by
      decide +kernel
    obtain ⟨d, hr, hd⟩ := Reach.exists_of_run hrun
    obtain ⟨hsettled, hlatest, hplaced⟩ := of_decide_eq_true hd
    exact ⟨d, hr, hsettled, hlatest, fun h => hplaced (h.2 hlatest "n1")⟩
  · have hrun : (run Deployment.step {}
        [.update (server 1 "n1" "session") false, .sync, .loadCallback 0 reply, .allocated ⟨"s"⟩,
          .noSync, .loadCallback 0 reply, .update (server 2 "n1" "manual") false, .sync,
          .loadCallback 0 reply, .released, .update (server 3 "n1" "session") false, .sync,
          .loadCallback 0 reply]).any
        (fun d => decide (d.entry.Settled ∧ d.latest = some (server 3 "n1" "session") ∧
          d.placed "n1" ≠ some (d.wanted (server 3 "n1" "session")))) = true := by
      decide +kernel
    obtain ⟨d, hr, hd⟩ := Reach.exists_of_run hrun
    obtain ⟨hsettled, hlatest, hplaced⟩ := of_decide_eq_true hd
    refine ⟨d, hr, hsettled, ?_, fun h => hplaced (h.1 _ hlatest)⟩
    rw [hlatest]
    exact Option.some_ne_none _

end Ice.IceGrid.Synchronization
