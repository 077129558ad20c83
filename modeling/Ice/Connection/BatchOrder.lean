import Mathlib.Algebra.Group.Prod
import Mathlib.Algebra.Order.Group.Multiset
import Ice.Connection.BatchRequestQueue

/-!
# Batch requests are neither lost nor duplicated

A thread owns the monitor while it is in it, and the use of the stream from the end of
`prepareBatchRequest` to the end of `finishBatchRequest` or `abortBatchRequest`. While
it counts a request or takes a batch, what it owns also says what the queue was before
and what it is now, so that `Consistent` speaks of a queue that nobody is changing.
-/

namespace Ice.Connection

open Ice.Lib
open List (mem_singleton)
open Program (Triple)

/-- The members of a queue that count requests. -/
structure Contents where
  stream : List UInt8
  compress : Bool
  requestNum : Nat
  marker : Nat

/-- A change under way: what was before it and what is now. -/
structure Edit where
  before : Contents
  now : Contents

/-- What the thread that uses the stream does with it: it holds the stream, it has put the
stream back with a request at its end, or it counts that request. -/
inductive Use
  | holding (os : List UInt8)
  | finishing (tail : List UInt8)
  | counting (tail : List UInt8) (edit : Edit)

/-- The monitor, perhaps with a batch being taken, and the use of the stream. -/
abbrev Resource := Multiset (Option Edit) × Multiset Use

def BatchRequestQueue.contents (q : BatchRequestQueue) : Contents :=
  ⟨q.batchStream, q.batchCompress, q.batchRequestNum, q.batchMarker⟩

/-- The bytes of a batch of requests. -/
def body (rest : List Request) : List UInt8 := requestBatchHdr ++ rest.flatMap (·.bytes)

/-- The proxy of a request asks for compression. -/
def Request.compresses (r : Request) : Bool := r.compressOverride = some true

/-- A batch that was handed out for some requests. -/
structure BatchOf (b : Batch) (requests : List Request) : Prop where
  stream : b.stream = body requests
  requestNum : b.requestNum = requests.length
  positive : 0 < b.requestNum
  compress : b.compress = requests.any (·.compresses)

/-- The finished requests are those of the batches, in their order, and then the rest. -/
def Logged (s : State) (rest : List Request) : Prop :=
  ∃ parts : List (List Request), s.finished = parts.flatten ++ rest ∧
    List.Forall₂ BatchOf s.batches parts

/-- The contents of a queue with the requests `rest`. -/
structure Fits (c : Contents) (rest : List Request) (use : Option Use) : Prop where
  marker : c.marker = (body rest).length
  requestNum : c.requestNum = rest.length
  compress : c.compress = rest.any (·.compresses)
  stream : match use with
    | none => c.stream = body rest
    | some (.holding os) => os = body rest
    | some (.finishing tail) => c.stream = body rest ++ tail
    | some (.counting tail _) => c.stream = body rest ++ tail

/-- The change that is under way. -/
def changing : Option (Option Edit) → Option Use → Option Edit
  | some (some e), _ => some e
  | _, some (.counting _ e) => some e
  | _, _ => none

/-- What a queue is like, given who is in the monitor and who uses the stream. -/
structure Consistent (s : State) (monitor : Option (Option Edit)) (use : Option Use) : Prop where
  locked : s.locked = monitor.isSome
  inUse : s.queue.batchStreamInUse = use.isSome
  editing : s.editing = (changing monitor use).isSome
  canFlush : s.queue.batchStreamCanFlush = true → use ≠ none ∧ ∀ os, use ≠ some (.holding os)
  taking : ∀ e, monitor = some (some e) → use = none ∨ ∃ tail, use = some (.finishing tail)
  contents : ∃ c rest, Logged s rest ∧ Fits c rest use ∧
    match changing monitor use with
    | none => s.queue.contents = c
    | some e => e.before = c ∧ s.queue.contents = e.now

/-- What all threads own together. -/
def owned (monitor : Option (Option Edit)) (use : Option Use) : Resource :=
  (monitor.elim 0 singleton, use.elim 0 singleton)

def Accounted (s : State) (R : Resource) : Prop :=
  ∃ monitor use, R = owned monitor use ∧ Consistent s monitor use

/-- The token of the thread in the monitor. -/
def inside (e : Option Edit) : Resource := ({e}, 0)

/-- The token of the thread that uses the stream. -/
def user (u : Use) : Resource := (0, {u})

/-- The condition on the steps of a run: no batch is taken while a request is counted, no
request is counted while a batch is taken, a `swap` that waited still finds a request, and
nobody aborts the request of another thread. -/
def Apart (s : State) : Point → Prop
  | .internal => True
  | .swap => s.queue.busy true = false → s.editing = false ∧ s.queue.batchRequestNum ≠ 0
  | .count => s.editing = false
  | .abort owner => owner = true ∨ s.queue.batchStreamInUse = false

abbrev Keeps {α : Type} (R : Resource) (p : Task α) (Q : Except Exception α → Resource → Prop) :
    Prop :=
  Triple Accounted Apart R p Q

/-- A program that leaves what it finds. -/
abbrev Quiet {α : Type} (p : Task α) (φ : Except Exception α → Prop) : Prop :=
  Program.Quiet Accounted Apart p φ

section tokens

variable {G : Resource} {e : Option Edit} {u : Use} {monitor : Option (Option Edit)}
  {use : Option Use}


theorem singleton_add_eq {α : Type} {x : α} {F : Multiset α} {o : Option α}
    (h : {x} + F = o.elim 0 singleton) : o = some x ∧ F = 0 := by
  cases o with
  | none =>
    have hcard := congrArg Multiset.card h
    simp at hcard
  | some y =>
    have hcard := congrArg Multiset.card h
    have hF : F = 0 := by simpa using hcard
    subst hF
    have hy : ({x} : Multiset α) = {y} := by simpa using h
    exact ⟨congrArg some (Multiset.singleton_inj.mp hy).symm, rfl⟩

theorem inside_add (h : inside e + G = owned monitor use) :
    monitor = some e ∧ G = owned none use := by
  obtain ⟨hm, hu⟩ := Prod.ext_iff.mp h
  obtain ⟨rfl, hG⟩ := singleton_add_eq hm
  refine ⟨rfl, Prod.ext hG ?_⟩
  simpa [inside, owned] using hu

theorem user_add (h : user u + G = owned monitor use) :
    use = some u ∧ G = owned monitor none := by
  obtain ⟨hm, hu⟩ := Prod.ext_iff.mp h
  obtain ⟨rfl, hG⟩ := singleton_add_eq hu
  refine ⟨rfl, Prod.ext ?_ hG⟩
  simpa [user, owned] using hm

theorem inside_owned : inside e + owned none use = owned (some e) use := by
  simp [inside, owned]

theorem user_owned : user u + owned monitor none = owned monitor (some u) := by
  simp [user, owned]

end tokens

section steps

variable {s : State} {G : Resource} {e : Option Edit} {u : Use}

variable {tail : List UInt8} {c n : Contents}

/-- A request is counted only while no batch is taken. -/
theorem changing_counting {monitor : Option (Option Edit)} {c : Edit}
    (h : ∀ e, monitor ≠ some (some e)) : changing monitor (some (.counting tail c)) = some c := by
  cases monitor with
  | none => rfl
  | some e =>
    cases e with
    | none => rfl
    | some e => exact absurd rfl (h e)

theorem Consistent.not_taking {monitor : Option (Option Edit)} {c : Edit}
    (h : Consistent s monitor (some (.counting tail c))) : ∀ e, monitor ≠ some (some e) := by
  rintro e rfl
  rcases h.taking e rfl with hnone | ⟨tail', hsome⟩
  · cases hnone
  · cases hsome

/-- Entering the monitor. -/
theorem Accounted.lock (h : Accounted s G) (hfree : s.locked = false) :
    Accounted { s with locked := true } (inside none + G) := by
  obtain ⟨monitor, use, rfl, hs⟩ := h
  have hmonitor : monitor = none := by
    have hlocked := hs.locked
    rw [hfree] at hlocked
    simpa using hlocked.symm
  subst hmonitor
  have hchanging : changing (some none) use = changing none use := by
    cases use with
    | none => rfl
    | some u => cases u <;> rfl
  refine ⟨some none, use, inside_owned, rfl, hs.inUse, ?_, hs.canFlush, ?_, ?_⟩
  · rw [hchanging]
    exact hs.editing
  · intro e he
    cases he
  · rw [hchanging]
    exact hs.contents

/-- Leaving the monitor. -/
theorem Accounted.unlock (h : Accounted s (inside none + G)) :
    Accounted { s with locked := false } G := by
  obtain ⟨monitor, use, heq, hs⟩ := h
  obtain ⟨rfl, rfl⟩ := inside_add heq
  have hchanging : changing none use = changing (some none) use := by
    cases use with
    | none => rfl
    | some u => cases u <;> rfl
  refine ⟨none, use, rfl, rfl, hs.inUse, ?_, hs.canFlush, ?_, ?_⟩
  · rw [hchanging]
    exact hs.editing
  · intro e he
    cases he
  · rw [hchanging]
    exact hs.contents

/-- The stream is handed to a request that is prepared. -/
theorem Accounted.prepare (h : Accounted s (inside none + G))
    (hfree : s.queue.batchStreamInUse = false) :
    Accounted
      { s with queue := { s.queue with batchStreamInUse := true, batchStream := [] } }
      (user (.holding s.queue.batchStream) + (inside none + G)) := by
  obtain ⟨monitor, use, heq, hs⟩ := h
  obtain ⟨rfl, rfl⟩ := inside_add heq
  have huse : use = none := by
    have hinUse := hs.inUse
    rw [hfree] at hinUse
    simpa using hinUse.symm
  subst huse
  obtain ⟨c, rest, hlog, hfits, hc⟩ := hs.contents
  change s.queue.contents = c at hc
  subst hc
  refine ⟨some none, some (.holding s.queue.batchStream), ?_, hs.locked, rfl, hs.editing,
    ?_, ?_, ?_⟩
  · rw [inside_owned, user_owned]
  · intro hflush
    exact absurd rfl (hs.canFlush hflush).1
  · intro e he
    cases he
  · exact ⟨{ s.queue.contents with stream := [] }, rest, hlog,
      ⟨hfits.marker, hfits.requestNum, hfits.compress, hfits.stream⟩, rfl⟩

/-- The stream comes back with a request at its end. -/
theorem Accounted.putBack {os : List UInt8} (h : Accounted s (user (.holding os) + G)) :
    Accounted { s with queue := { s.queue with batchStream := os ++ tail } }
      (user (.finishing tail) + G) := by
  obtain ⟨monitor, use, heq, hs⟩ := h
  obtain ⟨rfl, rfl⟩ := user_add heq
  have hidle : changing monitor (some (.holding os)) = none := by
    cases monitor with
    | none => rfl
    | some e =>
      cases e with
      | none => rfl
      | some e =>
        rcases hs.taking e rfl with hnone | ⟨tail, hsome⟩
        · cases hnone
        · cases hsome
  have hidle' : changing monitor (some (.finishing tail)) = none := by
    cases monitor with
    | none => rfl
    | some e =>
      cases e with
      | none => rfl
      | some e => cases hidle
  obtain ⟨c, rest, hlog, hfits, hc⟩ := hs.contents
  rw [hidle] at hc
  dsimp only at hc
  subst hc
  refine ⟨monitor, some (.finishing tail), user_owned, hs.locked, hs.inUse, ?_, ?_, ?_, ?_⟩
  · rw [hidle', ← hidle]
    exact hs.editing
  · intro _
    exact ⟨nofun, nofun⟩
  · intro e he
    exact .inr ⟨tail, rfl⟩
  · refine ⟨{ s.queue.contents with stream := os ++ tail }, rest, hlog,
      ⟨hfits.marker, hfits.requestNum, hfits.compress, ?_⟩, ?_⟩
    · rw [show os = body rest from hfits.stream]
    · rw [hidle']
      rfl

/-- From here on other threads may take the batch. -/
theorem Accounted.allowFlush (h : Accounted s (user (.finishing tail) + G)) :
    Accounted { s with queue := { s.queue with batchStreamCanFlush := true } }
      (user (.finishing tail) + G) := by
  obtain ⟨monitor, use, heq, hs⟩ := h
  obtain ⟨rfl, rfl⟩ := user_add heq
  exact ⟨monitor, some (.finishing tail), user_owned, hs.locked, hs.inUse, hs.editing,
    fun _ => ⟨nofun, nofun⟩, hs.taking, hs.contents⟩

/-- A request starts to be counted. -/
theorem Accounted.beginCount {compress : Bool} (h : Accounted s (user (.finishing tail) + G))
    (hediting : s.editing = false) :
    Accounted
      { s with
        queue := { s.queue with batchCompress := s.queue.batchCompress || compress }
        editing := true }
      (user (.counting tail ⟨s.queue.contents,
        { s.queue.contents with compress := s.queue.batchCompress || compress }⟩) + G) := by
  obtain ⟨monitor, use, heq, hs⟩ := h
  obtain ⟨rfl, rfl⟩ := user_add heq
  have hnone : changing monitor (some (.finishing tail)) = none := by
    have hsome := hs.editing
    rw [hediting] at hsome
    simpa using hsome.symm
  have hmonitor : ∀ e, monitor ≠ some (some e) := by
    rintro e rfl
    cases hnone
  obtain ⟨c, rest, hlog, hfits, hc⟩ := hs.contents
  rw [hnone] at hc
  dsimp only at hc
  subst hc
  refine ⟨monitor, some (.counting tail _), user_owned, hs.locked, hs.inUse, ?_,
    fun _ => ⟨nofun, nofun⟩, fun e he => absurd he (hmonitor e), ?_⟩
  · rw [changing_counting hmonitor]
    rfl
  · refine ⟨s.queue.contents, rest, hlog,
      ⟨hfits.marker, hfits.requestNum, hfits.compress, hfits.stream⟩, ?_⟩
    rw [changing_counting hmonitor]
    exact ⟨rfl, rfl⟩

/-- The marker moves behind the request that is counted. -/
theorem Accounted.setMarker (h : Accounted s (user (.counting tail ⟨c, n⟩) + G)) :
    Accounted { s with queue := { s.queue with batchMarker := s.queue.batchStream.length } }
      (user (.counting tail ⟨c, { n with marker := n.stream.length }⟩) + G) := by
  obtain ⟨monitor, use, heq, hs⟩ := h
  obtain ⟨rfl, rfl⟩ := user_add heq
  have hmonitor := hs.not_taking
  obtain ⟨c', rest, hlog, hfits, hc⟩ := hs.contents
  rw [changing_counting hmonitor] at hc
  obtain ⟨rfl, hn⟩ := hc
  dsimp only at hn
  subst hn
  refine ⟨monitor, some (.counting tail _), user_owned, hs.locked, hs.inUse, ?_,
    fun _ => ⟨nofun, nofun⟩, fun e he => absurd he (hmonitor e), ?_⟩
  · have hediting := hs.editing
    rw [changing_counting hmonitor] at hediting ⊢
    exact hediting
  · refine ⟨c, rest, hlog, ⟨hfits.marker, hfits.requestNum, hfits.compress, hfits.stream⟩, ?_⟩
    rw [changing_counting hmonitor]
    exact ⟨rfl, rfl⟩

/-- A request is counted: it belongs to the queue from here on. -/
theorem Accounted.endCount {r : Request} (h : Accounted s (user (.counting r.bytes ⟨c, n⟩) + G))
    (hn : n = { c with compress := c.compress || r.compresses, marker := c.stream.length }) :
    Accounted
      { s with
        queue := { s.queue with batchRequestNum := s.queue.batchRequestNum + 1 }
        editing := false
        finished := s.finished ++ [r] }
      (user (.finishing []) + G) := by
  obtain ⟨monitor, use, heq, hs⟩ := h
  obtain ⟨rfl, rfl⟩ := user_add heq
  have hmonitor := hs.not_taking
  obtain ⟨c', rest, ⟨parts, hfinished, hbatches⟩, hfits, hc⟩ := hs.contents
  rw [changing_counting hmonitor] at hc
  obtain ⟨rfl, hnow⟩ := hc
  dsimp only at hnow hfits
  rw [hn] at hnow
  have hidle : changing monitor (some (.finishing [])) = none := by
    cases monitor with
    | none => rfl
    | some e =>
      cases e with
      | none => rfl
      | some e => exact absurd rfl (hmonitor e)
  have hstream : c.stream = body (rest ++ [r]) := by
    rw [show c.stream = body rest ++ r.bytes from hfits.stream]
    simp [body]
  refine ⟨monitor, some (.finishing []), user_owned, hs.locked, hs.inUse, ?_,
    fun _ => ⟨nofun, nofun⟩, fun e he => absurd he (hmonitor e), ?_⟩
  · rw [hidle]
    rfl
  · refine ⟨{ s.queue.contents with requestNum := s.queue.batchRequestNum + 1 }, rest ++ [r],
      ⟨parts, ?_, hbatches⟩, ?_, ?_⟩
    · rw [hfinished, List.append_assoc]
    · rw [hnow]
      constructor
      · exact congrArg List.length hstream
      · have hnum : s.queue.batchRequestNum = c.requestNum := congrArg Contents.requestNum hnow
        rw [List.length_append, List.length_singleton, ← hfits.requestNum, ← hnum]
      · simp [hfits.compress]
      · simpa using hstream
    · rw [hidle]
      rfl

/-- A batch starts to be taken. -/
theorem Accounted.beginTake (h : Accounted s (inside none + G))
    (hbusy : s.queue.busy true = false) (hediting : s.editing = false) :
    Accounted { s with editing := true }
      (inside (some ⟨s.queue.contents, s.queue.contents⟩) + G) := by
  obtain ⟨monitor, use, heq, hs⟩ := h
  obtain ⟨rfl, rfl⟩ := inside_add heq
  have hnone : changing (some none) use = none := by
    have hsome := hs.editing
    rw [hediting] at hsome
    simpa using hsome.symm
  obtain ⟨c, rest, hlog, hfits, hc⟩ := hs.contents
  rw [hnone] at hc
  dsimp only at hc
  subst hc
  refine ⟨some (some _), use, inside_owned, hs.locked, hs.inUse, rfl, hs.canFlush, ?_,
    s.queue.contents, rest, hlog, hfits, rfl, rfl⟩
  intro e _
  cases use with
  | none => exact .inl rfl
  | some u =>
    cases u with
    | finishing tail => exact .inr ⟨tail, rfl⟩
    | counting tail e => cases hnone
    | holding os =>
      have hflush : s.queue.batchStreamCanFlush = true := by
        have hinUse : s.queue.batchStreamInUse = true := hs.inUse
        simpa [BatchRequestQueue.busy, hinUse] using hbusy
      exact absurd rfl ((hs.canFlush hflush).2 os)

variable {f : BatchRequestQueue → BatchRequestQueue}

/-- One statement of the thread that takes a batch. -/
theorem Accounted.edit {g : Contents → Contents}
    (h : Accounted s (inside (some ⟨c, n⟩) + G))
    (hf : ∀ q, (f q).contents = g q.contents ∧ (f q).batchStreamInUse = q.batchStreamInUse ∧
      (f q).batchStreamCanFlush = q.batchStreamCanFlush) :
    Accounted { s with queue := f s.queue } (inside (some ⟨c, g n⟩) + G) := by
  obtain ⟨monitor, use, heq, hs⟩ := h
  obtain ⟨rfl, rfl⟩ := inside_add heq
  obtain ⟨hcontents, hinUse, hcanFlush⟩ := hf s.queue
  obtain ⟨c', rest, hlog, hfits, hc, hn⟩ := hs.contents
  refine ⟨some (some _), use, inside_owned, hs.locked, hinUse.trans hs.inUse, hs.editing, ?_, ?_,
    c', rest, hlog, hfits, hc, ?_⟩
  · intro hflush
    exact hs.canFlush (hcanFlush.symm.trans hflush)
  · exact fun _ _ => hs.taking _ rfl
  · rw [hcontents, hn]

/-- What the thread that takes a batch reads is what it left there. -/
theorem Accounted.contents_eq (h : Accounted s (inside (some ⟨c, n⟩) + G)) :
    s.queue.contents = n := by
  obtain ⟨monitor, use, heq, hs⟩ := h
  obtain ⟨rfl, rfl⟩ := inside_add heq
  obtain ⟨-, -, -, -, -, hn⟩ := hs.contents
  exact hn

/-- A batch is taken: its requests are handed out, and the tail of a request that is not counted
yet is all that is left. -/
theorem Accounted.endTake
    (h : Accounted s (inside (some ⟨c, n⟩) + G)) (hpos : c.requestNum ≠ 0)
    (hf : (f s.queue).contents = ⟨requestBatchHdr ++ c.stream.drop c.marker, false, 0,
        requestBatchHdr.length⟩ ∧
      (f s.queue).batchStreamInUse = s.queue.batchStreamInUse ∧
      (f s.queue).batchStreamCanFlush = s.queue.batchStreamCanFlush) :
    Accounted
      { s with
        queue := f s.queue
        editing := false
        batches := s.batches ++ [⟨c.stream.take c.marker, c.compress, c.requestNum⟩] }
      (inside none + G) := by
  obtain ⟨monitor, use, heq, hs⟩ := h
  obtain ⟨rfl, rfl⟩ := inside_add heq
  obtain ⟨hcontents, hinUse, hcanFlush⟩ := hf
  obtain ⟨c', rest, ⟨parts, hfinished, hbatches⟩, hfits, hc, -⟩ := hs.contents
  dsimp only at hc
  subst hc
  have htail : ∃ tail, c.stream = body rest ++ tail ∧ (use = none ∧ tail = [] ∨
      use = some (.finishing tail)) := by
    have hstream := hfits.stream
    rcases hs.taking _ rfl with rfl | ⟨tail, rfl⟩
    · exact ⟨[], by simpa using hstream, .inl ⟨rfl, rfl⟩⟩
    · exact ⟨tail, hstream, .inr rfl⟩
  obtain ⟨tail, hstream, huse⟩ := htail
  have hdrop : c.stream.drop c.marker = tail := by rw [hfits.marker, hstream, List.drop_left]
  have htake : c.stream.take c.marker = body rest := by
    rw [hfits.marker, hstream, List.take_left]
  have hidle : changing (some none) use = none := by
    rcases huse with ⟨rfl, -⟩ | rfl <;> rfl
  rw [hdrop] at hcontents
  refine ⟨some none, use, inside_owned, hs.locked, hinUse.trans hs.inUse, ?_, ?_, ?_, ?_⟩
  · rw [hidle]
    rfl
  · intro hflush
    exact hs.canFlush (hcanFlush.symm.trans hflush)
  · intro e he
    cases he
  · refine ⟨⟨requestBatchHdr ++ tail, false, 0, requestBatchHdr.length⟩, [],
      ⟨parts ++ [rest], ?_, ?_⟩, ?_, ?_⟩
    · rw [hfinished]
      simp
    · refine List.rel_append hbatches (.cons ⟨htake, hfits.requestNum, ?_, hfits.compress⟩ .nil)
      exact Nat.pos_of_ne_zero hpos
    · refine ⟨by simp [body], rfl, rfl, ?_⟩
      rcases huse with ⟨rfl, rfl⟩ | rfl
      · simp [body]
      · simp [body]
    · rw [hidle]
      exact hcontents

theorem resize_append {b : List UInt8} {n : Nat} (hn : n = b.length) :
    resize n (b ++ tail) = b := by
  subst hn
  simp [resize]

/-- The use of the stream ends: what follows the marker is dropped. -/
theorem Accounted.endUse (h : Accounted s (inside none + (user (.finishing tail) + G))) :
    Accounted
      { s with queue := { s.queue with
          batchStream := resize s.queue.batchMarker s.queue.batchStream
          batchStreamInUse := false
          batchStreamCanFlush := false } }
      (inside none + G) := by
  obtain ⟨monitor, use, heq, hs⟩ := h
  obtain ⟨rfl, hG⟩ := inside_add heq
  obtain ⟨rfl, rfl⟩ := user_add hG
  obtain ⟨c, rest, hlog, hfits, hc⟩ := hs.contents
  change s.queue.contents = c at hc
  subst hc
  have hstream : s.queue.batchStream = body rest ++ tail := hfits.stream
  have hmarker : s.queue.batchMarker = (body rest).length := hfits.marker
  refine ⟨some none, none, inside_owned, hs.locked, rfl, hs.editing, nofun, ?_, ?_⟩
  · intro e he
    cases he
  · refine ⟨{ s.queue.contents with stream := body rest }, rest, hlog,
      ⟨hfits.marker, hfits.requestNum, hfits.compress, rfl⟩, ?_⟩
    change BatchRequestQueue.contents _ = _
    simp only [BatchRequestQueue.contents]
    rw [hstream, resize_append hmarker]

/-- A request is aborted by the thread that prepared it. -/
theorem Accounted.abort {os : List UInt8} (tail : List UInt8)
    (h : Accounted s (inside none + (user (.holding os) + G))) :
    s.queue.batchStreamInUse = true ∧ Accounted
      { s with queue := { s.queue with
          batchStream := resize s.queue.batchMarker (os ++ tail)
          batchStreamInUse := false } }
      (inside none + G) := by
  obtain ⟨monitor, use, heq, hs⟩ := h
  obtain ⟨rfl, hG⟩ := inside_add heq
  obtain ⟨rfl, rfl⟩ := user_add hG
  obtain ⟨c, rest, hlog, hfits, hc⟩ := hs.contents
  change s.queue.contents = c at hc
  subst hc
  have hos : os = body rest := hfits.stream
  have hmarker : s.queue.batchMarker = (body rest).length := hfits.marker
  have hflush : s.queue.batchStreamCanFlush ≠ true := fun hflush =>
    (hs.canFlush hflush).2 os rfl
  refine ⟨hs.inUse, some none, none, inside_owned, hs.locked, rfl, hs.editing,
    fun hf => absurd hf hflush, ?_, ?_⟩
  · intro e he
    cases he
  · refine ⟨{ s.queue.contents with stream := body rest }, rest, hlog,
      ⟨hfits.marker, hfits.requestNum, hfits.compress, rfl⟩, ?_⟩
    change BatchRequestQueue.contents _ = _
    simp only [BatchRequestQueue.contents]
    rw [hos, resize_append hmarker]

/-- The exception of a queue is not part of what it counts. -/
theorem Accounted.destroy {ex : Exception} (h : Accounted s G) :
    Accounted { s with queue := { s.queue with exception := some ex } } G := by
  obtain ⟨monitor, use, rfl, hs⟩ := h
  exact ⟨monitor, use, rfl, hs.locked, hs.inUse, hs.editing, hs.canFlush, hs.taking, hs.contents⟩

end steps

section rules

variable {α β : Type} {R : Resource} {body : Task α} {Q : Except Exception α → Resource → Prop}
  {φ : Except Exception α → Prop}

theorem Keeps.perform {f : State → α × State}
    (h : ∀ s G, Accounted s (R + G) → ∃ R', Accounted (f s).2 (R' + G) ∧ Q (.ok (f s).1) R') :
    Keeps R (perform f) Q := by
  refine Triple.act fun s G hJ _ o ho => ?_
  rw [mem_singleton.mp ho]
  exact h s G hJ

theorem quiet_read {f : BatchRequestQueue → α} : Quiet (read f) fun _ => True := by
  refine Program.Quiet.act fun s _ o ho => ?_
  rw [mem_singleton.mp ho]
  exact ⟨fun _ => id, trivial⟩

theorem quiet_choose : Quiet choose fun _ => True := by
  refine Program.Quiet.act fun s _ o ho => ⟨fun R hR => ?_, trivial⟩
  rcases List.mem_pair.mp ho with rfl | rfl
  · exact hR
  · exact hR

theorem quiet_mayThrow : Quiet mayThrow fun _ => True := by
  refine Program.Quiet.act fun s _ o ho => ⟨fun R hR => ?_, trivial⟩
  simp only [List.mem_cons, List.not_mem_nil, or_false] at ho
  rcases ho with rfl | rfl | rfl
  · exact hR
  · exact hR
  · exact hR

theorem keeps_lock : Keeps R lock fun x R' => x = .ok () ∧ R' = inside none + R := by
  refine Triple.act fun s G hJ _ o ho => ?_
  by_cases hl : s.locked = true
  · rw [if_pos hl] at ho
    cases ho
  · rw [if_neg hl, mem_singleton] at ho
    subst ho
    refine ⟨inside none + R, ?_, rfl, rfl⟩
    rw [add_assoc]
    exact hJ.lock (by simpa using hl)

theorem keeps_unlock :
    Keeps (inside none + R) unlock fun x R' => x = .ok () ∧ R' = R := by
  refine Keeps.perform fun s G hJ => ⟨R, ?_, rfl, rfl⟩
  rw [add_assoc] at hJ
  exact hJ.unlock

/-- A block that starts and ends in the monitor. -/
theorem Keeps.withLock (h : Keeps (inside none + R) body fun x R' =>
    ∃ R'', R' = inside none + R'' ∧ Q x R'') : Keeps R (withLock body) Q := by
  refine keeps_lock.bind ?_ ?_
  · rintro _ R' ⟨-, rfl⟩
    refine h.ensuring ?_
    rintro x R' ⟨R'', rfl, hQ⟩
    refine keeps_unlock.conseq ?_
    rintro _ R' ⟨-, rfl⟩
    exact hQ
  · rintro ex R' ⟨hx, -⟩
    cases hx

theorem quiet_withLock (h : Quiet body φ) : Quiet (withLock body) φ := by
  intro R
  refine Keeps.withLock ((h _).conseq ?_)
  rintro x R' ⟨rfl, hx⟩
  exact ⟨R, rfl, rfl, hx⟩

theorem quiet_catchIce {handler : Task α} (h : Quiet body fun _ => True)
    (h' : Quiet handler fun _ => True) : Quiet (catchIce body handler) fun _ => True := by
  refine h.tryCatch (fun _ _ => trivial) fun ex _ => ?_
  split
  · exact h'
  · exact Program.Quiet.throw trivial

/-- A wait ends with the queue free, and what follows it is done in the same action. -/
theorem Keeps.waitStreamInUse {flush : Bool} {l : Point} {f : State → α × State}
    (h : ∀ s G, Accounted s (inside none + R + G) → Apart s l → s.queue.busy flush = false →
      ∃ R', Accounted (f s).2 (R' + G) ∧ Q (.ok (f s).1) R') :
    Keeps (inside none + R) (BatchRequestQueue.waitStreamInUse flush l f) Q := by
  refine Triple.loop (I := fun R' => R' = inside none + R) rfl ?_
  rintro _ rfl
  refine Triple.bind (Q := fun x R' =>
    (x = .ok none ∧ R' = inside none + R) ∨ ∃ a, x = .ok (some a) ∧ Q (.ok a) R') ?_ ?_ ?_
  · refine Triple.act fun s G hJ hA o ho => ?_
    by_cases hb : s.queue.busy flush = true
    · rw [if_pos hb, mem_singleton] at ho
      subst ho
      exact ⟨_, hJ, .inl ⟨rfl, rfl⟩⟩
    · rw [if_neg hb, mem_singleton] at ho
      subst ho
      obtain ⟨R', hJ', hQ⟩ := h s G hJ hA (by simpa using hb)
      exact ⟨R', hJ', .inr ⟨_, rfl, hQ⟩⟩
  · rintro o R' (⟨hx, rfl⟩ | ⟨a, hx, hQ⟩)
    · cases hx
      refine keeps_unlock.bind ?_ ?_
      · rintro _ R' ⟨-, rfl⟩
        refine keeps_lock.bind ?_ ?_
        · rintro _ R'' ⟨-, rfl⟩
          exact Triple.pure rfl
        · rintro ex R'' ⟨hx, -⟩
          cases hx
      · rintro ex R' ⟨hx, -⟩
        cases hx
    · cases hx
      exact Triple.pure hQ
  · rintro ex R' (⟨hx, -⟩ | ⟨a, hx, -⟩)
    · cases hx
    · cases hx

end rules

section members

open BatchRequestQueue

variable {R : Resource} {c n : Contents} {request : Request}

/-- A statement of the thread that takes a batch, and what the queue is after it. -/
theorem keeps_edit (f : BatchRequestQueue → BatchRequestQueue) (g : Contents → Contents)
    (hf : ∀ q, (f q).contents = g q.contents ∧ (f q).batchStreamInUse = q.batchStreamInUse ∧
      (f q).batchStreamCanFlush = q.batchStreamCanFlush) :
    Keeps (inside (some ⟨c, n⟩) + R) (modify f) fun x R' =>
      x = .ok () ∧ R' = inside (some ⟨c, g n⟩) + R := by
  refine Keeps.perform fun s G hJ => ⟨_, ?_, rfl, rfl⟩
  rw [add_assoc] at hJ ⊢
  exact hJ.edit hf

/-- What the thread that takes a batch reads. -/
theorem keeps_readEdit {α : Type} {f : BatchRequestQueue → α} (g : Contents → α)
    (hf : ∀ q, f q = g q.contents) :
    Keeps (inside (some ⟨c, n⟩) + R) (read f) fun x R' =>
      x = .ok (g n) ∧ R' = inside (some ⟨c, n⟩) + R := by
  refine Keeps.perform fun s G hJ => ⟨_, hJ, ?_, rfl⟩
  rw [add_assoc] at hJ
  change Except.ok (f s.queue) = _
  rw [hf, hJ.contents_eq]

/-- With and without a tail, what is left of the stream ends at the marker. -/
theorem keeps_takeLastRequest :
    Keeps (inside (some ⟨c, c⟩) + R) takeLastRequest fun x R' =>
      x = .ok (c.stream.drop c.marker) ∧
      R' = inside (some ⟨c, { c with stream := c.stream.take c.marker }⟩) + R := by
  refine (keeps_readEdit (fun c => decide (c.marker < c.stream.length)) fun _ => rfl).bind ?_ ?_
  · rintro hasTail R' ⟨hx, rfl⟩
    cases hx
    split
    · rename_i hlt
      rw [decide_eq_true_eq] at hlt
      have hresize : resize c.marker c.stream = c.stream.take c.marker := by
        rw [resize, Nat.sub_eq_zero_of_le (Nat.le_of_lt hlt)]
        simp
      refine (keeps_readEdit (fun c => c.stream.drop c.marker) fun _ => rfl).bind ?_ nofun
      rintro lastRequest R' ⟨hx, rfl⟩
      cases hx
      refine (keeps_edit (fun q => { q with batchStream := resize q.batchMarker q.batchStream })
        (fun c => { c with stream := resize c.marker c.stream })
        fun _ => ⟨rfl, rfl, rfl⟩).bind ?_ nofun
      rintro _ R' ⟨-, rfl⟩
      rw [← hresize]
      exact Triple.pure ⟨rfl, rfl⟩
    · rename_i hlt
      rw [decide_eq_true_eq, Nat.not_lt] at hlt
      rw [List.drop_eq_nil_of_le hlt, List.take_of_length_le hlt]
      exact Triple.pure ⟨rfl, rfl⟩
  · rintro ex R' ⟨hx, -⟩
    cases hx

/-- A batch is taken as it was when the wait ended. -/
theorem keeps_takeBatch (hpos : c.requestNum ≠ 0) :
    Keeps (inside (some ⟨c, c⟩) + R) takeBatch fun _ R' => R' = inside none + R := by
  refine keeps_takeLastRequest.bind ?_ nofun
  rintro lastRequest R' ⟨hx, rfl⟩
  cases hx
  refine (keeps_readEdit (fun c => c.requestNum) fun _ => rfl).bind ?_ nofun
  rintro requestNum R' ⟨hx, rfl⟩
  cases hx
  refine Triple.bind (Q := fun x R' => x = .ok (c.stream.take c.marker) ∧
    R' = inside (some ⟨c, { c with stream := [] }⟩) + R) ?_ ?_ nofun
  · refine Keeps.perform fun s G hJ => ⟨inside (some ⟨c, { c with stream := [] }⟩) + R, ?_, ?_, rfl⟩
    · rw [add_assoc] at hJ ⊢
      exact hJ.edit (f := fun q => { q with batchStream := [] })
        (g := fun c => { c with stream := [] }) fun _ => ⟨rfl, rfl, rfl⟩
    · rw [add_assoc] at hJ
      exact congrArg (fun c => Except.ok c.stream) hJ.contents_eq
  rintro os R' ⟨hx, rfl⟩
  cases hx
  refine (keeps_readEdit (fun c => c.compress) fun _ => rfl).bind ?_ nofun
  rintro compress R' ⟨hx, rfl⟩
  cases hx
  refine (keeps_edit (fun q => { q with batchRequestNum := 0 })
    (fun c => { c with requestNum := 0 }) fun _ => ⟨rfl, rfl, rfl⟩).bind ?_ nofun
  rintro _ R' ⟨-, rfl⟩
  refine (keeps_edit (fun q => { q with batchCompress := false })
    (fun c => { c with compress := false }) fun _ => ⟨rfl, rfl, rfl⟩).bind ?_ nofun
  rintro _ R' ⟨-, rfl⟩
  refine (keeps_edit (fun q => { q with batchStream := q.batchStream ++ requestBatchHdr })
    (fun c => { c with stream := c.stream ++ requestBatchHdr }) fun _ =>
      ⟨rfl, rfl, rfl⟩).bind ?_ nofun
  rintro _ R' ⟨-, rfl⟩
  refine (keeps_edit (fun q => { q with batchMarker := q.batchStream.length })
    (fun c => { c with marker := c.stream.length }) fun _ => ⟨rfl, rfl, rfl⟩).bind ?_ nofun
  rintro _ R' ⟨-, rfl⟩
  refine Keeps.perform fun s G hJ => ⟨inside none + R, ?_, rfl⟩
  rw [add_assoc] at hJ ⊢
  have hnow := hJ.contents_eq
  refine hJ.endTake hpos (f := fun q => { q with
    batchStream := q.batchStream ++ c.stream.drop c.marker }) ⟨?_, rfl, rfl⟩
  simp only [BatchRequestQueue.contents, Contents.mk.injEq] at hnow ⊢
  obtain ⟨hstream, hcompress, hnum, hmarker⟩ := hnow
  exact ⟨by rw [hstream]; rfl, hcompress, hnum, hmarker⟩

theorem quiet_swap : Quiet swap fun _ => True := by
  intro R
  refine Keeps.withLock ((quiet_read (inside none + R)).bind ?_ ?_)
  · rintro num R' ⟨rfl, -⟩
    split
    · exact Triple.pure ⟨R, rfl, rfl, trivial⟩
    · refine Triple.bind (Q := fun x R' => ∃ c : Contents, x = .ok () ∧
        c.requestNum ≠ 0 ∧ R' = inside (some ⟨c, c⟩) + R) ?_ ?_ ?_
      · refine Keeps.waitStreamInUse fun s G hJ hA hbusy => ?_
        obtain ⟨hediting, hnum⟩ := hA hbusy
        refine ⟨inside (some ⟨s.queue.contents, s.queue.contents⟩) + R, ?_, _, rfl, hnum, rfl⟩
        rw [add_assoc] at hJ ⊢
        exact hJ.beginTake hbusy hediting
      · rintro _ R' ⟨c, -, hpos, rfl⟩
        refine (keeps_takeBatch hpos).conseq ?_
        rintro x R' rfl
        exact ⟨R, rfl, rfl, trivial⟩
      · rintro ex R' ⟨c, hx, -⟩
        cases hx
  · rintro ex R' ⟨rfl, -⟩
    exact ⟨R, rfl, rfl, trivial⟩

theorem quiet_flushBatchRequests : Quiet flushBatchRequests fun _ => True := by
  refine quiet_catchIce (quiet_mayThrow.bind (fun _ _ => ?_) fun _ _ => trivial) quiet_mayThrow
  exact quiet_swap.bind (fun _ _ => quiet_mayThrow) fun _ _ => trivial

theorem quiet_flushSome : Quiet flushSome fun _ => True := by
  refine Program.Quiet.loop (quiet_choose.bind (fun more _ => ?_) fun _ _ => trivial)
  split
  · exact quiet_flushBatchRequests.bind (fun _ _ => Program.Quiet.pure trivial) fun _ _ => trivial
  · exact Program.Quiet.pure trivial

/-- The request at the end of the stream is counted. -/
theorem keeps_enqueueBatchRequest :
    Keeps (user (.finishing request.bytes) + R) (enqueueBatchRequest request) fun x R' =>
      x = .ok () ∧ R' = user (.finishing []) + R := by
  refine Triple.bind (Q := fun x R' => ∃ c : Contents, x = .ok () ∧
    R' = user (.counting request.bytes
      ⟨c, { c with compress := c.compress || request.compresses }⟩) + R) ?_ ?_ ?_
  · refine Triple.act fun s G hJ hA o ho => ?_
    rw [mem_singleton] at ho
    subst ho
    refine ⟨_, ?_, s.queue.contents, rfl, rfl⟩
    rw [add_assoc] at hJ ⊢
    exact hJ.beginCount hA
  · rintro _ R' ⟨c, -, rfl⟩
    refine Triple.bind (Q := fun x R' => x = .ok () ∧ R' = user (.counting request.bytes
      ⟨c, { c with compress := c.compress || request.compresses, marker := c.stream.length }⟩) +
        R) ?_ ?_ ?_
    · refine Keeps.perform fun s G hJ => ⟨_, ?_, rfl, rfl⟩
      rw [add_assoc] at hJ ⊢
      exact hJ.setMarker
    · rintro _ R' ⟨-, rfl⟩
      refine Keeps.perform fun s G hJ => ⟨_, ?_, rfl, rfl⟩
      rw [add_assoc] at hJ ⊢
      exact hJ.endCount rfl
    · rintro ex R' ⟨hx, -⟩
      cases hx
  · rintro ex R' ⟨c, hx, -⟩
    cases hx

/-- The stream stays in use with some tail, whether it returns or throws. -/
def Uses (R : Resource) {α : Type} (_ : Except Exception α) (R' : Resource) : Prop :=
  ∃ tail, R' = user (.finishing tail) + R

variable {tail os : List UInt8}

theorem uses_of_quiet {α : Type} {p : Task α} (h : Quiet p fun _ => True) :
    Keeps (user (.finishing tail) + R) p (Uses R) := by
  refine (h _).conseq ?_
  rintro x R' ⟨rfl, -⟩
  exact ⟨tail, rfl⟩

theorem uses_enqueueBatchRequest :
    Keeps (user (.finishing request.bytes) + R) (enqueueBatchRequest request) (Uses R) := by
  refine keeps_enqueueBatchRequest.conseq ?_
  rintro x R' ⟨-, rfl⟩
  exact ⟨[], rfl⟩

theorem uses_intercept :
    Keeps (user (.finishing request.bytes) + R) (intercept request) (Uses R) := by
  refine (quiet_flushSome _).bind ?_ ?_
  · rintro _ R' ⟨rfl, -⟩
    refine Triple.bind (Q := Uses R) ?_ ?_ fun _ _ h => h
    · refine (quiet_choose _).bind ?_ ?_
      · rintro enqueue R' ⟨rfl, -⟩
        split
        · refine keeps_enqueueBatchRequest.bind ?_ ?_
          · rintro _ R' ⟨-, rfl⟩
            exact uses_of_quiet quiet_flushSome
          · rintro ex R' ⟨-, rfl⟩
            exact ⟨[], rfl⟩
        · exact Triple.pure ⟨_, rfl⟩
      · rintro ex R' ⟨rfl, -⟩
        exact ⟨_, rfl⟩
    · rintro _ R' ⟨tail, rfl⟩
      exact uses_of_quiet quiet_mayThrow
  · rintro ex R' ⟨rfl, -⟩
    exact ⟨_, rfl⟩

theorem uses_deliver :
    Keeps (user (.finishing request.bytes) + R) (deliver request) (Uses R) := by
  refine (quiet_read _).bind ?_ ?_
  · rintro interceptor R' ⟨rfl, -⟩
    split
    · exact uses_intercept
    · exact uses_enqueueBatchRequest
  · rintro ex R' ⟨rfl, -⟩
    exact ⟨_, rfl⟩

theorem quiet_flushFull : Quiet flushFull fun _ => True := by
  refine quiet_read.bind (fun full _ => ?_) fun _ _ => trivial
  split
  · exact quiet_flushBatchRequests
  · exact Program.Quiet.pure trivial

theorem keeps_endUse :
    Keeps (user (.finishing tail) + R) endUse fun x R' => x = .ok () ∧ R' = R := by
  refine Keeps.withLock (Keeps.perform fun s G hJ => ⟨inside none + R, ?_, R, rfl, rfl, rfl⟩)
  rw [add_assoc, add_assoc] at hJ
  rw [add_assoc]
  exact hJ.endUse

theorem keeps_finishBatchRequest :
    Keeps (user (.holding os) + R) (finishBatchRequest (os ++ request.bytes) request)
      fun _ R' => R' = R := by
  refine Triple.bind (Q := fun x R' => x = .ok () ∧
    R' = user (.finishing request.bytes) + R) ?_ ?_ ?_
  · refine Keeps.perform fun s G hJ => ⟨_, ?_, rfl, rfl⟩
    rw [add_assoc] at hJ ⊢
    exact hJ.putBack
  · rintro _ R' ⟨-, rfl⟩
    refine Triple.tryCatch (Q := fun x R' => x = .ok () ∧ R' = R ∨
      (∃ ex, x = .error ex) ∧ Uses R x R') ?_ ?_ ?_
    · refine Triple.bind (Q := fun x R' => x = .ok () ∧
        R' = user (.finishing request.bytes) + R) ?_ ?_ ?_
      · refine Keeps.perform fun s G hJ => ⟨_, ?_, rfl, rfl⟩
        rw [add_assoc] at hJ ⊢
        exact hJ.allowFlush
      · rintro _ R' ⟨-, rfl⟩
        refine (quiet_flushFull _).bind ?_ ?_
        · rintro _ R' ⟨rfl, -⟩
          refine uses_deliver.bind ?_ ?_
          · rintro _ R' ⟨tail, rfl⟩
            exact keeps_endUse.conseq fun _ _ h => .inl h
          · rintro ex R' huses
            exact .inr ⟨⟨ex, rfl⟩, huses⟩
        · rintro ex R' ⟨rfl, -⟩
          exact .inr ⟨⟨ex, rfl⟩, _, rfl⟩
      · rintro ex R' ⟨hx, -⟩
        cases hx
    · rintro _ R' (⟨-, rfl⟩ | ⟨⟨ex, hx⟩, -⟩)
      · rfl
      · cases hx
    · rintro ex R' (⟨hx, -⟩ | ⟨-, tail, rfl⟩)
      · cases hx
      · refine keeps_endUse.bind ?_ ?_
        · rintro _ R' ⟨-, rfl⟩
          exact Triple.throw rfl
        · rintro ex R' ⟨hx, -⟩
          cases hx
  · rintro ex R' ⟨hx, -⟩
    cases hx

/-- An empty stream is exchanged for the one of the queue. -/
theorem keeps_prepareBatchRequest : Keeps R prepareBatchRequest fun x R' =>
    (∃ os, x = .ok os ∧ R' = user (.holding os) + R) ∨ (∃ ex, x = .error ex) ∧ R' = R := by
  refine Keeps.withLock ((quiet_read (inside none + R)).bind ?_ ?_)
  · rintro destroyed R' ⟨rfl, -⟩
    cases destroyed with
    | some ex => exact Triple.throw ⟨R, rfl, .inr ⟨⟨ex, rfl⟩, rfl⟩⟩
    | none =>
      refine Keeps.waitStreamInUse fun s G hJ _ hbusy => ?_
      have hfree : s.queue.batchStreamInUse = false := by
        simpa [BatchRequestQueue.busy] using hbusy
      refine ⟨inside none + (user (.holding s.queue.batchStream) + R), ?_, _, rfl,
        .inl ⟨_, rfl, rfl⟩⟩
      rw [add_assoc] at hJ
      rw [add_left_comm, add_assoc, add_assoc]
      exact hJ.prepare hfree
  · rintro ex R' ⟨rfl, -⟩
    exact ⟨R, rfl, .inr ⟨⟨ex, rfl⟩, rfl⟩⟩

/-- A thread that does not use the stream aborts nothing. -/
theorem quiet_abortBatchRequest : Quiet (abortBatchRequest false os) fun _ => True := by
  refine quiet_withLock (Program.Quiet.act fun s hA o ho => ?_)
  rw [mem_singleton] at ho
  subst ho
  have hfree : s.queue.batchStreamInUse = false := hA.resolve_left nofun
  refine ⟨fun R hR => ?_, trivial⟩
  dsimp only
  rw [if_neg (by simp [hfree])]
  exact hR

theorem keeps_abortBatchRequest :
    Keeps (user (.holding os) + R) (abortBatchRequest true (os ++ tail)) fun _ R' => R' = R := by
  refine Keeps.withLock (Triple.act fun s G hJ _ o ho => ?_)
  rw [mem_singleton] at ho
  subst ho
  rw [add_assoc, add_assoc] at hJ
  obtain ⟨hinUse, hJ'⟩ := hJ.abort tail
  refine ⟨inside none + R, ?_, R, rfl, rfl⟩
  dsimp only
  rw [if_pos hinUse, add_assoc]
  exact hJ'

/-- A batch invocation gives back the stream it was given, however it ends. -/
theorem quiet_invoke {marshals : Bool} :
    Quiet (OutgoingAsync.invoke request marshals) fun _ => True := by
  intro R
  refine Triple.bind (Q := fun x R' => (∃ os, x = .ok (some os) ∧
    R' = user (.holding os) + R) ∨ (∀ os, x ≠ .ok (some os)) ∧ R' = R) ?_ ?_ ?_
  · refine Triple.tryCatch (Q := fun x R' => (∃ os, x = .ok (some os) ∧
      R' = user (.holding os) + R) ∨ (∃ ex, x = .error ex) ∧ R' = R) ?_ ?_ ?_
    · refine (quiet_mayThrow R).bind ?_ ?_
      · rintro _ R' ⟨rfl, -⟩
        refine keeps_prepareBatchRequest.bind ?_ ?_
        · rintro os R' (⟨os', hx, rfl⟩ | ⟨⟨ex, hx⟩, -⟩)
          · cases hx
            exact Triple.pure (.inl ⟨os, rfl, rfl⟩)
          · cases hx
        · rintro ex R' (⟨os', hx, -⟩ | ⟨-, rfl⟩)
          · cases hx
          · exact .inr ⟨⟨ex, rfl⟩, rfl⟩
      · rintro ex R' ⟨rfl, -⟩
        exact .inr ⟨⟨ex, rfl⟩, rfl⟩
    · rintro prepared R' (⟨os, hx, rfl⟩ | ⟨⟨ex, hx⟩, -⟩)
      · exact .inl ⟨os, hx, rfl⟩
      · cases hx
    · rintro ex R' (⟨os, hx, -⟩ | ⟨-, rfl⟩)
      · cases hx
      · split
        · refine (quiet_abortBatchRequest _).bind ?_ ?_
          · rintro _ R' ⟨rfl, -⟩
            exact Triple.pure (.inr ⟨nofun, rfl⟩)
          · rintro ex R' ⟨rfl, -⟩
            exact .inr ⟨nofun, rfl⟩
        · exact Triple.throw (.inr ⟨nofun, rfl⟩)
  · rintro prepared R' (⟨os, hx, rfl⟩ | ⟨hnone, rfl⟩)
    · cases hx
      dsimp only
      split
      · refine Triple.tryCatch keeps_finishBatchRequest ?_ ?_
        · rintro _ R' rfl
          exact ⟨rfl, trivial⟩
        · rintro ex R' rfl
          split
          · exact quiet_abortBatchRequest _
          · exact Triple.throw ⟨rfl, trivial⟩
      · exact keeps_abortBatchRequest.conseq fun _ _ h => ⟨h, trivial⟩
    · cases prepared with
      | none => exact Triple.pure ⟨rfl, trivial⟩
      | some os => exact absurd rfl (hnone os)
  · rintro ex R' (⟨os, hx, -⟩ | ⟨-, rfl⟩)
    · cases hx
    · exact ⟨rfl, trivial⟩

/-- Every operation gives back what it takes. -/
theorem quiet_run (o : Operation) : Quiet o.run fun _ => True := by
  cases o with
  | invoke request => exact quiet_invoke
  | abandon request => exact quiet_invoke
  | flush => exact quiet_flushBatchRequests
  | destroy ex =>
    refine quiet_withLock (Program.Quiet.act fun s _ o ho => ⟨fun R hR => ?_, trivial⟩)
    rw [mem_singleton.mp ho]
    exact hR.destroy
  | isEmpty =>
    exact (quiet_withLock quiet_read).bind (fun _ _ => Program.Quiet.pure trivial)
      fun _ _ => trivial

end members

/-- What a queue promises in every state: the batches that were handed out, each with its header
and the number of its requests, and what is still queued are the finished requests in their
order; and when nobody uses the stream, what is queued is what is in the stream. -/
def InOrder (s : State) : Prop :=
  ∃ (parts : List (List Request)) (rest : List Request), s.finished = parts.flatten ++ rest ∧
    List.Forall₂ BatchOf s.batches parts ∧
    (s.queue.batchStreamInUse = false → s.locked = false →
      s.queue.contents =
        ⟨body rest, rest.any (·.compresses), rest.length, (body rest).length⟩)

theorem accounted_new (interceptor : Bool) (batchAutoFlushSize : Nat) (datagram : Bool)
    (udpSndSize : Int) :
    Accounted { queue := .new interceptor batchAutoFlushSize datagram udpSndSize } 0 := by
  refine ⟨none, none, rfl, rfl, rfl, rfl, nofun, nofun, ?_⟩
  exact ⟨_, [], ⟨[], rfl, .nil⟩, ⟨rfl, rfl, rfl, rfl⟩, rfl⟩

theorem Accounted.inOrder {s : State} {R : Resource} (h : Accounted s R) : InOrder s := by
  obtain ⟨monitor, use, -, hs⟩ := h
  obtain ⟨c, rest, ⟨parts, hfinished, hbatches⟩, hfits, hc⟩ := hs.contents
  refine ⟨parts, rest, hfinished, hbatches, fun hinUse hlocked => ?_⟩
  have huse : use = none := by simpa [hinUse] using hs.inUse
  have hmonitor : monitor = none := by simpa [hlocked] using hs.locked
  subst huse hmonitor
  change s.queue.contents = c at hc
  rw [hc]
  obtain ⟨hmarker, hnum, hcompress, hstream⟩ := hfits
  cases c
  dsimp only at hmarker hnum hcompress hstream
  rw [hmarker, hnum, hcompress, hstream]

/-- In a run where no batch is taken while a request is counted, a batch that is taken has a
request in it and no thread aborts the request of another one, the queue keeps its promise in
every state. -/
theorem inOrder_of_apart (interceptor : Bool) (batchAutoFlushSize : Nat) (datagram : Bool)
    (udpSndSize : Int) (m : Queue)
    (h : Reach Queue.move (Machine.Allows Apart)
      (Queue.fresh (.new interceptor batchAutoFlushSize datagram udpSndSize)) m) :
    InOrder m.shared := by
  have hrun : ∀ o : Operation, Keeps 0 o.run fun _ R => R = 0 ∧ True := fun o => quiet_run o 0
  obtain ⟨rs, hJ, -⟩ := Machine.Owned.of_reach hrun
    (accounted_new interceptor batchAutoFlushSize datagram udpSndSize) h 0
  exact hJ.inOrder

instance (s : State) (l : Point) : Decidable (Apart s l) :=
  match l with
  | .internal => isTrue trivial
  | .swap => inferInstanceAs (Decidable
    (s.queue.busy true = false → s.editing = false ∧ s.queue.batchRequestNum ≠ 0))
  | .count => inferInstanceAs (Decidable (s.editing = false))
  | .abort owner => inferInstanceAs (Decidable
    (owner = true ∨ s.queue.batchStreamInUse = false))

/-- One batch request, and a second one that a flush of `n` steps overtakes after `k` of its own. -/
def overtaken (k n : Nat) : List (Move Operation) :=
  let steps (thread n : Nat) : List (Move Operation) := List.replicate n (.step thread 0)
  .start (.invoke ⟨[7], none⟩) :: steps 0 16 ++ .start (.invoke ⟨[8], none⟩) :: steps 1 k ++
    .start .flush :: steps 2 n ++ steps 1 (16 - k)

/-- The flush takes the first request while the second one is in the stream, where it stays. -/
theorem inOrder_of_overtaken : ∃ m : Queue,
    Reach Queue.move (Machine.Allows Apart) (Queue.fresh (.new false 0 false 0)) m ∧
    m.shared.batches = [⟨requestBatchHdr ++ [7], false, 1⟩] ∧
    m.shared.queue.batchStream = requestBatchHdr ++ [8] ∧ InOrder m.shared := by
  let test (m : Queue) (l : Move Operation) : Bool := decide (m.Allows Apart l)
  have hrun : (run (fun m l => if test m l then Queue.move m l else none)
      (Queue.fresh (.new false 0 false 0)) (overtaken 9 17)).any
      (fun m => decide (m.shared.batches = [⟨requestBatchHdr ++ [7], false, 1⟩] ∧
        m.shared.queue.batchStream = requestBatchHdr ++ [8])) = true := by decide +kernel
  obtain ⟨m, h, hm⟩ := Reach.exists_of_runWhere (fun _ _ => of_decide_eq_true) hrun
  obtain ⟨hbatches, hstream⟩ := of_decide_eq_true hm
  exact ⟨m, h, hbatches, hstream, inOrder_of_apart false 0 false 0 m h⟩

/-- A flush takes the batch between the statements that move the marker behind the second request
and that count it: the batch has two requests and the number one. -/
theorem not_inOrder_of_overtaken : ¬ ∀ (interceptor : Bool) (batchAutoFlushSize : Nat)
    (datagram : Bool) (udpSndSize : Int) (m : Queue),
    Reach Queue.move Any
      (Queue.fresh (.new interceptor batchAutoFlushSize datagram udpSndSize)) m →
    InOrder m.shared := by
  intro h
  have hrun : (run Queue.move (Queue.fresh (.new false 0 false 0)) (overtaken 12 16)).any
      (fun m => decide (m.shared.finished = [⟨[7], none⟩, ⟨[8], none⟩] ∧
        m.shared.batches = [⟨requestBatchHdr ++ [7, 8], false, 1⟩])) = true := by decide +kernel
  obtain ⟨m, hreach, hm⟩ := Reach.exists_of_run hrun
  obtain ⟨hfinished, hbatches⟩ := of_decide_eq_true hm
  obtain ⟨parts, rest, hparts, hof, -⟩ := h false 0 false 0 m hreach
  rw [hbatches] at hof
  cases hof with
  | @cons _ p _ parts hb hrest =>
    obtain ⟨hstream, hnum, -, -⟩ := hb
    obtain ⟨r, rfl⟩ := List.length_eq_one_iff.mp hnum.symm
    rw [hfinished] at hparts
    obtain ⟨rfl, -⟩ := List.cons.inj hparts
    cases hstream

end Ice.Connection
