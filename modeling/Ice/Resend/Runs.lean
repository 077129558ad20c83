import Ice.Resend.Headers

/-!
# Offers over whole runs

The streams of messages are complete wherever they are: with their callers, in a queue, or in
`_writeStream`. What a call of a connection does to them is said once, and every offer of a run
follows from it.
-/

namespace Ice.Resend

open Lib
open List (forall_mem_cons mem_append mem_singleton not_mem_nil)
open Streams (Byte intBytes)

/-- A stream without a message, or with one that has a header -/
def Held (s : Stream) : Prop := s.b = [] ∨ headerSize ≤ s.b.length

/-- A message that has its stream -/
structure Whole (m : OutgoingMessage) : Prop where
  stream : headerSize ≤ m.stream.b.length
  callers : Held m.callers

/-- A message the stream of which is in `_writeStream` -/
structure Loaded (w : Stream) (m : OutgoingMessage) : Prop where
  written : headerSize ≤ w.b.length
  stream : m.stream.b = []
  callers : Held m.callers

/-- A message that waits for the ones before it -/
structure Queued (bz : List Byte → Option (List Byte)) (m : OutgoingMessage) : Prop
    extends Whole m where
  sendable : Sendable bz m.compress m.stream.b

/-- The stream of the first message is in `_writeStream` or back in the message, the others wait. -/
def ConnectionI.Sound (bz : List Byte → Option (List Byte)) (c : ConnectionI) : Prop :=
  match c.sendStreams with
  | [] => c.writeStream.b = []
  | m :: rest =>
    ((c.writeStream.b = [] ∧ Whole m) ∨ Loaded c.writeStream m) ∧ ∀ m ∈ rest, Queued bz m

/-- What a call gives -/
structure Effect.Sound (bz : List Byte → Option (List Byte)) (e : Effect) : Prop where
  connection : e.connection.Sound bz
  returned : ∀ p ∈ e.returned, Held p.2
  offers : ∀ o ∈ e.offers, Consistent o.compressed o.bytes

section

variable {bz : List Byte → Option (List Byte)} {c : ConnectionI} {m : OutgoingMessage} {s : Stream}

@[simp]
theorem stream_setStream : (m.setStream s).stream = s := by
  unfold OutgoingMessage.setStream OutgoingMessage.stream
  cases m.adopted <;> simp

@[simp]
theorem stream_adopt : m.adopt.stream = m.stream := by
  unfold OutgoingMessage.adopt OutgoingMessage.stream
  cases h : m.adopted with
  | none => cases m.request <;> simp [h]
  | some s => simp [h]

@[simp]
theorem compress_adopt : m.adopt.compress = m.compress := by
  unfold OutgoingMessage.adopt
  split
  · rfl
  · split <;> rfl

theorem Held.adopt (h : Held m.callers) : Held m.adopt.callers := by
  unfold OutgoingMessage.adopt
  split
  · exact h
  · split
    · exact h
    · exact .inl rfl

/-- The caller's stream is what it was or what the message is given. -/
theorem Held.setStream (h : Held m.callers) (hs : Held s) : Held (m.setStream s).callers := by
  unfold OutgoingMessage.setStream
  split
  · exact h
  · exact hs

theorem Whole.adopt (h : Whole m) : Whole m.adopt :=
  ⟨by rw [stream_adopt]; exact h.stream, h.callers.adopt⟩

theorem Queued.adopt (h : Queued bz m) : Queued bz m.adopt := by
  constructor
  · exact h.toWhole.adopt
  · rw [stream_adopt, compress_adopt]
    exact h.sendable

theorem Whole.setStream (h : Whole m) (hs : headerSize ≤ s.b.length) : Whole (m.setStream s) :=
  ⟨by rw [stream_setStream]; exact hs, h.callers.setStream (.inr hs)⟩

/-- The message is given a stream of its own. -/
theorem Whole.give (h : Whole m) (hs : headerSize ≤ s.b.length) :
    Whole { m with adopted := some s } :=
  ⟨hs, h.callers⟩

/-- A message that has its stream is put into the empty `_writeStream`. -/
theorem Whole.swap (h : Whole m) (hempty : c.writeStream.b = []) :
    Loaded (c.swap m).1.writeStream (c.swap m).2 := by
  constructor
  · exact h.stream
  · rw [ConnectionI.swap, stream_setStream]
    exact hempty
  · exact h.callers.setStream (.inl hempty)

/-- The message in `_writeStream` is taken out of it. -/
theorem Loaded.swap (h : Loaded c.writeStream m) :
    (c.swap m).1.writeStream.b = [] ∧ Whole (c.swap m).2 := by
  constructor
  · exact h.stream
  · constructor
    · rw [ConnectionI.swap, stream_setStream]
      exact h.written
    · exact h.callers.setStream (.inr h.written)

/-- Only the position in `_writeStream` differs. -/
theorem Loaded.of_b {w w' : Stream} (h : Loaded w m) (hb : w'.b = w.b) : Loaded w' m :=
  ⟨by rw [hb]; exact h.written, h.stream, h.callers⟩

theorem ConnectionI.sound_nil (hqueue : c.sendStreams = []) :
    c.Sound bz ↔ c.writeStream.b = [] := by
  unfold Sound
  rw [hqueue]

variable {rest : List OutgoingMessage}

theorem ConnectionI.sound_cons (hqueue : c.sendStreams = m :: rest) :
    c.Sound bz ↔
      ((c.writeStream.b = [] ∧ Whole m) ∨ Loaded c.writeStream m) ∧ ∀ m ∈ rest, Queued bz m := by
  unfold Sound
  rw [hqueue]

theorem ConnectionI.sound_of_cons (hqueue : c.sendStreams = m :: rest)
    (hfirst : (c.writeStream.b = [] ∧ Whole m) ∨ Loaded c.writeStream m)
    (hrest : ∀ m ∈ rest, Queued bz m) : c.Sound bz :=
  (sound_cons hqueue).mpr ⟨hfirst, hrest⟩

/-- A message that goes to the end of the queue -/
theorem ConnectionI.Sound.push (hc : c.Sound bz) (hm : Queued bz m) (hqueue : c.sendStreams ≠ []) :
    ConnectionI.Sound bz { c with sendStreams := c.sendStreams ++ [m] } := by
  cases hstreams : c.sendStreams with
  | nil => exact absurd hstreams hqueue
  | cons first rest =>
    obtain ⟨hfirst, hrest⟩ := (sound_cons hstreams).mp hc
    constructor
    · exact hfirst
    · intro m' hm'
      rcases mem_append.mp hm' with h | h
      · exact hrest m' h
      · rw [mem_singleton.mp h]
        exact hm

/-- What the preparation of a message gives -/
structure Prepared.Sound (p : Prepared) : Prop where
  stream : headerSize ≤ p.stream.length
  bytes : ∀ bytes, p.bytes = some bytes → headerSize ≤ bytes.length
  offers : ∀ id, ∀ o ∈ p.offers id, Consistent o.compressed o.bytes

theorem sound_prepare {compress : Bool} {b : List Byte} (hb : headerSize ≤ b.length)
    (h : Sendable bz compress b) : (prepare bz compress b).Sound := by
  constructor
  · rw [length_prepare hb]
    exact hb
  · exact fun bytes hbytes => length_bytes hb hbytes
  · intro id o ho
    unfold Prepared.offers at ho
    split at ho
    · rename_i bytes hbytes
      rw [mem_singleton.mp ho]
      exact consistent_prepare hb h hbytes
    · cases ho

/-- What is returned when the attempt to send is over -/
theorem held_returned {p : Prepared} {bytes : List Byte} (hp : p.Sound)
    (hbytes : p.bytes = some bytes) {callers written : Stream} (hcallers : callers.b = p.stream)
    (hwritten : written.b = bytes) : Held (if p.compressed then callers else written) := by
  right
  split
  · rw [hcallers]
    exact hp.stream
  · rw [hwritten]
    exact hp.bytes bytes hbytes

theorem sound_sendMessage {answer : Answer} (hc : c.Sound bz) (hm : m.adopted = none)
    (hlength : headerSize ≤ m.callers.b.length) (h : Sendable bz m.compress m.callers.b) :
    (sendMessage bz c m answer).Sound bz := by
  unfold sendMessage
  dsimp only
  split
  · rename_i hqueue
    have hqueued : Queued bz { m with callers := { m.callers with i := none } } := by
      constructor
      · constructor
        · rw [OutgoingMessage.stream, hm]
          exact hlength
        · exact .inr hlength
      · rw [OutgoingMessage.stream, hm]
        exact h
    constructor
    · exact hc.push hqueued.adopt hqueue
    · exact fun p hp => absurd hp not_mem_nil
    · exact fun o ho => absurd ho not_mem_nil
  · rename_i hqueue
    have hnil : c.sendStreams = [] := Classical.not_not.mp hqueue
    have hempty := (ConnectionI.sound_nil hnil).mp hc
    have hp : (prepare bz m.compress m.callers.b).Sound := sound_prepare hlength h
    have hclosed : ∀ closed, ConnectionI.Sound bz { c with closed := closed } := fun _ =>
      (ConnectionI.sound_nil hnil).mpr hempty
    generalize prepare bz m.compress m.callers.b = p at *
    split
    · constructor
      · exact hclosed _
      · intro q hq
        rw [mem_singleton.mp hq]
        exact .inr hp.stream
      · exact hp.offers _
    · rename_i bytes hbytes
      split
      · constructor
        · exact hc
        · intro q hq
          rw [mem_singleton.mp hq]
          exact held_returned hp hbytes rfl rfl
        · exact hp.offers _
      · constructor
        · exact hclosed _
        · intro q hq
          rw [mem_singleton.mp hq]
          exact held_returned hp hbytes rfl rfl
        · exact hp.offers _
      · rename_i n
        have hwhole : Whole (if p.compressed then
              { m with
                callers := ⟨p.stream, some 0⟩
                adopted := some (Stream.advance ⟨bytes, some 0⟩ n) }
            else ({ m with callers := Stream.advance ⟨bytes, some 0⟩ n } : OutgoingMessage).adopt)
            := by
          split
          · exact ⟨hp.bytes bytes hbytes, .inr hp.stream⟩
          · apply Whole.adopt
            constructor
            · rw [OutgoingMessage.stream, hm]
              exact hp.bytes bytes hbytes
            · exact .inr (hp.bytes bytes hbytes)
        constructor
        · exact ⟨.inr (hwhole.swap hempty), fun m hm => absurd hm not_mem_nil⟩
        · exact fun p hp => absurd hp not_mem_nil
        · exact hp.offers _

/-- A message goes back and there are offers before a call. -/
theorem Effect.Sound.after {e : Effect} {id : Nat} {offers : List Offer} (h : e.Sound bz)
    (hs : Held s) (hoffers : ∀ o ∈ offers, Consistent o.compressed o.bytes) :
    Effect.Sound bz ⟨e.connection, (id, s) :: e.returned, offers ++ e.offers⟩ := by
  constructor
  · exact h.connection
  · rw [forall_mem_cons]
    exact ⟨hs, h.returned⟩
  · intro o ho
    rcases mem_append.mp ho with ho | ho
    · exact hoffers o ho
    · exact h.offers o ho

/-- The message that is written goes back, and the next ones are written. -/
theorem sound_sendNext {answers : List Answer} (hm : Loaded c.writeStream m)
    (hrest : ∀ m ∈ rest, Queued bz m) : (sendNext bz m rest answers c).Sound bz := by
  induction rest generalizing m answers c with
  | nil =>
    obtain ⟨hempty, hwhole⟩ := hm.swap
    constructor
    · exact hempty
    · intro p hp
      rw [mem_singleton.mp hp]
      exact hwhole.callers
    · exact fun o ho => absurd ho not_mem_nil
  | cons next rest ih =>
    obtain ⟨hempty, hwhole⟩ := hm.swap
    rw [forall_mem_cons] at hrest
    obtain ⟨hnext, hrest⟩ := hrest
    have hback : ∀ p ∈ [((c.swap m).2.id, (c.swap m).2.callers)], Held p.2 := by
      intro p hp
      rw [mem_singleton.mp hp]
      exact hwhole.callers
    unfold sendNext
    dsimp only
    split
    · constructor
      · exact ⟨.inl ⟨hempty, hnext.toWhole⟩, hrest⟩
      · exact hback
      · exact fun o ho => absurd ho not_mem_nil
    · have hp : (prepare bz next.compress next.stream.b).Sound :=
        sound_prepare hnext.stream hnext.sendable
      generalize prepare bz next.compress next.stream.b = p at *
      have hedited : Whole (next.setStream ⟨p.stream, next.stream.i⟩) :=
        hnext.toWhole.setStream hp.stream
      split
      · exact ⟨⟨.inl ⟨hempty, hedited⟩, hrest⟩, hback, hp.offers _⟩
      · rename_i bytes hbytes
        have hready : Whole (if p.compressed then
              { next.setStream ⟨p.stream, next.stream.i⟩ with adopted := some ⟨bytes, some 0⟩ }
            else next.setStream ⟨bytes, some 0⟩) := by
          split
          · exact hedited.give (hp.bytes bytes hbytes)
          · exact hnext.toWhole.setStream (hp.bytes bytes hbytes)
        have hloaded := hready.swap (c := (c.swap m).1) hempty
        split
        · apply Effect.Sound.after
          · apply ih
            · exact hloaded.of_b rfl
            · exact hrest
          · exact hwhole.callers
          · exact hp.offers _
        all_goals exact ⟨⟨.inr (hloaded.of_b rfl), hrest⟩, hback, hp.offers _⟩

/-- The first message is taken out of `_writeStream` if it is there. -/
theorem sound_finish (hc : c.Sound bz) : (finish c).Sound bz := by
  constructor
  · exact rfl
  · unfold finish
    cases hqueue : c.sendStreams with
    | nil => exact fun p hp => absurd hp not_mem_nil
    | cons m rest =>
      obtain ⟨hfirst, hrest⟩ := (ConnectionI.sound_cons hqueue).mp hc
      have hwhole : ∀ m' ∈ (if c.writeStream.b ≠ [] then (c.swap m).2 :: rest else m :: rest),
          Whole m' := by
        have hlater : ∀ m' ∈ rest, Whole m' := fun m' hm' => (hrest m' hm').toWhole
        split
        · rename_i hwritten
          rw [forall_mem_cons]
          rcases hfirst with ⟨hempty, _⟩ | hloaded
          · exact absurd hempty hwritten
          · exact ⟨hloaded.swap.2, hlater⟩
        · rename_i hempty
          rw [forall_mem_cons]
          rcases hfirst with ⟨_, hm⟩ | hloaded
          · exact ⟨hm, hlater⟩
          · have hlength := hloaded.written
            rw [Classical.not_not.mp hempty] at hlength
            exact absurd hlength (by decide)
      intro p hp
      obtain ⟨m', hm', rfl⟩ := List.mem_map.mp hp
      exact (hwhole m' hm').callers
  · exact fun o ho => absurd ho not_mem_nil

end

/-- The streams of the messages are complete, and the offers are consistent. -/
structure State.Sound (bz : List Byte → Option (List Byte)) (s : State) : Prop where
  connections : ∀ k, (s.connections k).Sound bz
  streams : ∀ id stream, s.streams id = some stream → Held stream
  log : ∀ o ∈ s.log, Consistent o.compressed o.bytes

section

variable {bz : List Byte → Option (List Byte)} {s s' : State} {k id : Nat} {c : ConnectionI}

theorem connections_setConnection {j : Nat} :
    (s.setConnection k c).connections j = if j = k then c else s.connections j := rfl

variable {stream : Option Stream}

theorem streams_setStream {j : Nat} :
    (s.setStream id stream).streams j = if j = id then stream else s.streams j := rfl

section

variable (h : s.Sound bz)

include h

theorem State.Sound.setConnection (hc : c.Sound bz) :
    (s.setConnection k c).Sound bz := by
  constructor
  · intro j
    by_cases hj : j = k
    · rw [connections_setConnection, if_pos hj]
      exact hc
    · rw [connections_setConnection, if_neg hj]
      exact h.connections j
  · exact h.streams
  · exact h.log

theorem State.Sound.setStream
    (hstream : ∀ st, stream = some st → Held st) : (s.setStream id stream).Sound bz := by
  constructor
  · exact h.connections
  · intro j st hst
    by_cases hj : j = id
    · rw [streams_setStream, if_pos hj] at hst
      exact hstream st hst
    · rw [streams_setStream, if_neg hj] at hst
      exact h.streams j st hst
  · exact h.log

theorem State.Sound.offer {offers : List Offer}
    (hoffers : ∀ o ∈ offers, Consistent o.compressed o.bytes) :
    State.Sound bz { s with log := s.log ++ offers } := by
  constructor
  · exact h.connections
  · exact h.streams
  · intro o ho
    rcases mem_append.mp ho with ho | ho
    · exact h.log o ho
    · exact hoffers o ho

/-- The streams go back one by one. -/
theorem State.Sound.returned {returned : List (Nat × Stream)}
    (hreturned : ∀ p ∈ returned, Held p.2) :
    (returned.foldl (fun s p => s.setStream p.1 (some p.2)) s).Sound bz := by
  induction returned generalizing s with
  | nil => exact h
  | cons p rest ih =>
    rw [forall_mem_cons] at hreturned
    apply ih
    · apply h.setStream
      intro st hst
      cases hst
      exact hreturned.1
    · exact hreturned.2

theorem State.Sound.apply {e : Effect} (he : e.Sound bz) :
    (s.apply k e).Sound bz := by
  apply State.Sound.returned
  · have hoffered : State.Sound bz { s with log := s.log ++ e.offers } := h.offer he.offers
    exact hoffered.setConnection he.connection
  · exact he.returned

end

/-- A message is only handed to a connection if it may be offered there. -/
def Careful (bz : List Byte → Option (List Byte)) (s : State) : Step → Prop
  | .send _ id _ compress requestId _ =>
    ∀ stream, s.streams id = some stream → Sendable bz compress (fillIn requestId stream.b)
  | _ => True

variable {requestId : Option Int}

theorem length_fillIn {b : List Byte}
    (h : requestId.isSome → headerSize + 4 ≤ b.length) :
    (fillIn requestId b).length = b.length := by
  cases requestId with
  | none => rfl
  | some v =>
    apply length_overwrite
    rw [Streams.length_intBytes]
    exact h rfl

theorem sound_send {request compress : Bool} {answer : Answer}
    (h : s.Sound bz) (hcareful : Careful bz s (.send k id request compress requestId answer))
    (hs : step bz s (.send k id request compress requestId answer) = some s') : s'.Sound bz := by
  simp only [step] at hs
  split at hs
  · cases hs
  · rename_i stream hstream
    split at hs
    · cases hs
    · rename_i hguard
      push Not at hguard
      obtain ⟨_, hmessage, hid⟩ := hguard
      cases hs
      have htaken : (s.setStream id none).Sound bz := by
        apply h.setStream
        intro st hst
        cases hst
      apply htaken.apply
      apply sound_sendMessage (h.connections k) rfl
      · rw [length_fillIn hid]
        rcases h.streams id stream hstream with hempty | hlength
        · exact absurd hempty hmessage
        · exact hlength
      · exact hcareful stream hstream

theorem sound_writable {answers : List Answer} (h : s.Sound bz)
    (hs : step bz s (.writable k answers) = some s') : s'.Sound bz := by
  simp only [step] at hs
  split at hs
  · cases hs
  · rename_i m rest hqueue
    split at hs
    · cases hs
    · rename_i hguard
      push Not at hguard
      obtain ⟨hfirst, hrest⟩ := (ConnectionI.sound_cons hqueue).mp (h.connections k)
      have hloaded : Loaded (s.connections k).writeStream m := by
        rcases hfirst with ⟨hempty, _⟩ | hloaded
        · exact absurd hempty hguard.2
        · exact hloaded
      split at hs
      · cases hs
        apply h.apply
        exact sound_sendNext (hloaded.of_b rfl) hrest
      all_goals
        cases hs
        apply h.setConnection
        apply ConnectionI.sound_of_cons
        · exact hqueue
        · exact .inr (hloaded.of_b rfl)
        · exact hrest

/-- The message that is not written any more is taken out of `_writeStream`. -/
theorem sound_withheld (h : s.Sound bz) (hs : step bz s (.withheld k) = some s') :
    s'.Sound bz := by
  simp only [step] at hs
  split at hs
  · cases hs
  · rename_i m rest hqueue
    split at hs
    · cases hs
    · rename_i hguard
      push Not at hguard
      cases hs
      obtain ⟨hfirst, hrest⟩ := (ConnectionI.sound_cons hqueue).mp (h.connections k)
      apply h.setConnection
      rcases hfirst with ⟨hempty, hwhole⟩ | hloaded
      · exact ⟨.inr (hwhole.swap hempty), hrest⟩
      · exact ⟨.inl hloaded.swap, hrest⟩

variable {m : OutgoingMessage} {index : Nat}

theorem Whole.cancel (h : Whole m) : Whole { m with request := false }.adopt :=
  Whole.adopt ⟨h.stream, h.callers⟩

theorem Loaded.cancel {w : Stream} (h : Loaded w m) :
    Loaded w { m with request := false }.adopt := by
  constructor
  · exact h.written
  · rw [stream_adopt]
    exact h.stream
  · exact Held.adopt h.callers

/-- Another message than the first leaves the queue. -/
theorem ConnectionI.Sound.erase (hc : c.Sound bz) (hindex : index ≠ 0) :
    ConnectionI.Sound bz { c with sendStreams := c.sendStreams.eraseIdx index } := by
  cases hqueue : c.sendStreams with
  | nil => exact (ConnectionI.sound_nil hqueue).mp hc
  | cons first rest =>
    obtain ⟨hfirst, hrest⟩ := (ConnectionI.sound_cons hqueue).mp hc
    obtain ⟨n, rfl⟩ := Nat.exists_eq_succ_of_ne_zero hindex
    constructor
    · exact hfirst
    · exact fun m hm => hrest m (List.mem_of_mem_eraseIdx hm)

theorem ConnectionI.Sound.callers (hc : c.Sound bz) (hm : c.sendStreams[index]? = some m) :
    Held m.callers := by
  have hmem := List.mem_of_getElem? hm
  cases hqueue : c.sendStreams with
  | nil =>
    rw [hqueue] at hmem
    cases hmem
  | cons first rest =>
    obtain ⟨hfirst, hrest⟩ := (ConnectionI.sound_cons hqueue).mp hc
    rw [hqueue] at hmem
    rcases List.mem_cons.mp hmem with rfl | hlater
    · rcases hfirst with ⟨_, hwhole⟩ | hloaded
      · exact hwhole.callers
      · exact hloaded.callers
    · exact (hrest m hlater).callers

theorem sound_cancel (h : s.Sound bz) (hs : step bz s (.cancel k index) = some s') :
    s'.Sound bz := by
  have hc := h.connections k
  simp only [step] at hs
  split at hs
  · cases hs
  · rename_i m hm
    split at hs
    · cases hs
    · split at hs
      · rename_i hzero
        cases hs
        apply h.setConnection
        cases hqueue : (s.connections k).sendStreams with
        | nil =>
          rw [hqueue] at hm
          cases hm
        | cons first rest =>
          obtain ⟨hfirst, hrest⟩ := (ConnectionI.sound_cons hqueue).mp hc
          rw [hqueue, hzero] at hm
          cases hm
          constructor
          · exact hfirst.imp (fun h => ⟨h.1, h.2.cancel⟩) fun h => h.cancel
          · exact hrest
      · rename_i hindex
        cases hs
        apply h.apply
        constructor
        · exact hc.erase hindex
        · intro p hp
          rw [mem_singleton.mp hp]
          exact hc.callers hm
        · exact fun o ho => absurd ho not_mem_nil

/-- Only the flags of a connection differ. -/
theorem ConnectionI.Sound.of_queue {c' : ConnectionI} (hc : c.Sound bz)
    (hqueue : c'.sendStreams = c.sendStreams) (hwrite : c'.writeStream = c.writeStream) :
    c'.Sound bz := by
  unfold ConnectionI.Sound
  rw [hqueue, hwrite]
  exact hc

theorem sound_step {l : Step} (h : s.Sound bz) (hcareful : Careful bz s l)
    (hs : step bz s l = some s') : s'.Sound bz := by
  cases l with
  | send => exact sound_send h hcareful hs
  | writable => exact sound_writable h hs
  | withheld => exact sound_withheld h hs
  | cancel => exact sound_cancel h hs
  | closePending k | close k =>
    cases hs
    exact h.setConnection ((h.connections k).of_queue rfl rfl)
  | finish k =>
    simp only [step] at hs
    split at hs
    · cases hs
      exact h.apply (sound_finish (h.connections k))
    · cases hs

theorem sound_initial {messages : Nat → List Byte} (h : ∀ id, headerSize ≤ (messages id).length) :
    (State.initial messages).Sound bz := by
  constructor
  · exact fun k => rfl
  · intro id stream hstream
    cases hstream
    exact .inr (h id)
  · exact fun o ho => absurd ho not_mem_nil

/-- In a run that hands messages only to connections where they may be offered, the header of each
first offer is consistent with what is offered. -/
theorem offers_consistent {messages : Nat → List Byte}
    (hmessages : ∀ id, headerSize ≤ (messages id).length)
    (h : Reach (step bz) (Careful bz) (State.initial messages) s) :
    ∀ o ∈ s.log, Consistent o.compressed o.bytes := by
  have hsound : s.Sound bz :=
    h.invariant (sound_initial hmessages) fun s l s' hs hcareful hstep =>
      sound_step hs hcareful hstep
  exact hsound.log

/-- A oneway request of 100 bytes: `op` with a sequence of zero bytes -/
def request : List Byte :=
  [73, 99, 101, 80, 1, 0, 1, 0, 0, 0, 0, 0, 0, 0] ++
    [0, 0, 0, 0, 1, 97, 0, 0, 2, 111, 112, 0, 0, 73, 0, 0, 0, 1, 1, 66] ++ List.replicate 66 0

/-- What `BZ2_bzBuffToBuffCompress` makes of the body of `request` -/
def compressRequest (body : List Byte) : Option (List Byte) :=
  if body = request.drop headerSize then
    some [66, 90, 104, 49, 49, 65, 89, 38, 83, 89, 191, 148, 130, 142, 0, 0, 0, 77, 128, 112, 0,
      0, 1, 16, 32, 32, 0, 192, 0, 32, 0, 49, 6, 76, 64, 211, 212, 6, 148, 94, 74, 90, 49, 70, 144,
      7, 63, 23, 114, 69, 56, 80, 144, 191, 148, 130, 142]
  else none

/-- The request is compressed for a connection that fails, and sent on another one. -/
def resend (compress : Bool) : List Step :=
  [.send 0 0 false true none (.failed 0), .finish 0, .send 1 0 false compress none .done]

/-- A message of at least 100 bytes is sent with compression. -/
def compressing (s : State) : Step → Bool
  | .send _ id _ compress requestId _ =>
    compress && (s.streams id).all fun st => decide (100 ≤ (fillIn requestId st.b).length)
  | _ => true

theorem careful_of_compressing {l : Step} (h : compressing s l = true) :
    Careful compressRequest s l := by
  cases l with
  | send k id response compress requestId answer =>
    intro stream hstream
    simp only [compressing, hstream, Option.all_some, Bool.and_eq_true, decide_eq_true_eq] at h
    constructor
    · intro _ _ body hbody
      unfold compressRequest at hbody
      split at hbody
      · cases hbody
        decide
      · cases hbody
    · exact fun hplain => absurd h hplain
    · intro hcompress
      rw [hcompress] at h
      cases h.1
  | _ => trivial

theorem offers_resent : ∃ s, Reach (step compressRequest) (Careful compressRequest)
    (State.initial fun _ => request) s ∧ s.log.length = 2 ∧
      ∀ o ∈ s.log, Consistent o.compressed o.bytes := by
  have hrun : (run
      (fun s l => if compressing s l then step compressRequest s l else none)
      (State.initial fun _ => request) (resend true)).any
        (fun s => decide (s.log.length = 2)) = true := by decide +kernel
  obtain ⟨s, hr, hs⟩ := Reach.exists_of_runWhere (fun _ _ h => careful_of_compressing h) hrun
  have hlength : headerSize ≤ request.length := by decide
  exact ⟨s, hr, of_decide_eq_true hs, offers_consistent (fun _ => hlength) hr⟩

/-- The status that is set for the first connection stays when the second one does not compress. -/
theorem not_offers_consistent : ¬∀ (bz : List Byte → Option (List Byte))
    (messages : Nat → List Byte) (s : State),
    (∀ id, headerSize ≤ (messages id).length ∧ (messages id)[9]? = some 0) →
    Reach (step bz) Any (State.initial messages) s →
    ∀ o ∈ s.log, Consistent o.compressed o.bytes := by
  intro h
  have hrun : (run (step compressRequest) (State.initial fun _ => request) (resend false)).any
      (fun s => s.log.any fun o => !o.compressed && o.bytes[9]? == some 2) = true := by
    decide +kernel
  obtain ⟨s, hr, hs⟩ := Reach.exists_of_run hrun
  obtain ⟨o, ho, htest⟩ := List.any_eq_true.mp hs
  rw [Bool.and_eq_true, Bool.not_eq_true', beq_iff_eq] at htest
  have hmessage : headerSize ≤ request.length ∧ request[9]? = some 0 := by decide
  have hconsistent := h compressRequest _ s (fun _ => hmessage) hr o ho
  have hpacked := hconsistent.status.mp htest.2
  rw [htest.1] at hpacked
  cases hpacked

end

end Ice.Resend
