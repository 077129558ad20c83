import Mathlib.Data.List.Basic
import Mathlib.Data.List.Induction
import Ice.Connection.WSReading

/-!
# What a pong frame carries

Rounds of the loops of `read` and `write` and calls of `closing` in any order, with the pings that
were read and the pong frames that were prepared. A pong frame carries the last payload that is
not empty of the pings read since the pong frame before, as it was on the wire: it is neither
unmasked on the way in nor masked on the way out.
-/

namespace Ice.Connection

open Ice.Lib
open List (foldl_append foldl_cons length_append mem_append_right take_left)
open WSTransceiver (Arrival Acceptance Buffered Stage Closed Answers PongDue kept)

/-- What is said of pings -/
inductive Exchange
  /-- A ping was read. -/
  | ping (f : Frame)
  /-- These bytes of a pong frame were put into the write buffer; `mask` is what
  `generateRandom` yields for it. -/
  | pong (mask : Mask) (bytes : List UInt8)

/-- A party of an opened connection and what its peer sent: `frames` are those not read yet,
`wire` is what the transport did not hand over. -/
structure Answerer where
  transceiver : WSTransceiver
  frames : List Frame
  wire : List UInt8
  history : List Exchange := []
  lost : Bool := false

/-- A round of the loop of `read` or `write`, or a call of `closing` -/
inductive Round
  | read (buf : Buffer) (a : Arrival)
  | write (buf : Buffer) (a : Acceptance)
  | closing (initiator : Bool) (reason : ClosingReason)

/-- The pings among the frames that were read -/
def heard (read : List Frame) : List Exchange := (read.filter (·.opCode = opPing)).map .ping

/-- The pings of a history -/
def pings (history : List Exchange) : List Frame :=
  history.filterMap fun
    | .ping f => some f
    | .pong _ _ => none

/-- The pings behind the last pong frame of a history -/
def unanswered (history : List Exchange) : List Frame :=
  history.foldl (fun
    | l, .ping f => l ++ [f]
    | _, .pong _ _ => []) []

/-- The pong frame that `preWrite` puts into the write buffer, if it does -/
def WSTransceiver.prepared (t u : WSTransceiver) : List Exchange :=
  if t.writeState = .header ∧ t.state = .pongPending then
    [.pong (t.random t.generated) u.writeBuffer.b]
  else []

namespace Answerer

/-- The connection was just opened. -/
def opened (incoming : Bool) (random : Nat → Mask) (consumed leftover spare upgrade : List UInt8)
    (writePayloadLength : Nat) (frames : List Frame) (wire : List UInt8) : Answerer :=
  { transceiver := .opened incoming random consumed leftover spare upgrade writePayloadLength
    frames
    wire }

/-- A round of the loop of `read` -/
def readRound (p : Answerer) (buf : Buffer) (a : Arrival) : Answerer :=
  match p.transceiver.preRead buf with
  | .error _ => { p with lost := true }
  | .ok (more, t, buf) =>
    let (t, buf, wire) := t.receive buf p.wire more a
    let (_, t, _) := t.postRead buf
    let (read, frames) := readFrames t.incoming p.frames (t.unread wire).length
    { p with
      transceiver := t
      frames
      wire
      history := p.history ++ heard read }

/-- A round of the loop of `write` -/
def writeRound (p : Answerer) (buf : Buffer) (a : Acceptance) : Answerer :=
  let (ready, t, buf) := p.transceiver.preWrite buf
  let p := { p with history := p.history ++ p.transceiver.prepared t }
  match t.offer buf ready a with
  | (_, some _, t, _) => { p with transceiver := t }
  | (_, none, t, buf) =>
    match t.postWrite buf with
    | .error _ => { p with transceiver := t, lost := true }
    | .ok (_, t, _) => { p with transceiver := t }

/-- What may happen to a connection that is not lost -/
def step (p : Answerer) (r : Round) : Option Answerer :=
  if p.lost then none
  else
    match r with
    | .read buf a => some (p.readRound buf a)
    | .write buf a => some (p.writeRound buf a)
    | .closing initiator reason =>
      some { p with transceiver := (p.transceiver.closing initiator reason).2 }

end Answerer

@[simp] theorem pings_append (l r : List Exchange) : pings (l ++ r) = pings l ++ pings r := by
  simp [pings]

@[simp] theorem pings_heard (read : List Frame) :
    pings (heard read) = read.filter (·.opCode = opPing) := by
  unfold pings heard
  rw [List.filterMap_map]
  exact List.filterMap_some

@[simp] theorem pings_pong (mask : Mask) (bytes : List UInt8) :
    pings [.pong mask bytes] = [] := rfl

@[simp] theorem unanswered_pong (history : List Exchange) (mask : Mask) (bytes : List UInt8) :
    unanswered (history ++ [.pong mask bytes]) = [] := by
  simp [unanswered]

@[simp] theorem unanswered_heard (history : List Exchange) (read : List Frame) :
    unanswered (history ++ heard read) =
      unanswered history ++ read.filter (·.opCode = opPing) := by
  unfold unanswered heard
  rw [foldl_append]
  generalize List.foldl _ [] history = l
  induction read.filter (·.opCode = opPing) generalizing l with
  | nil => simp
  | cons f fs ih =>
    rw [List.map_cons, foldl_cons, ih, List.append_assoc]
    rfl

/-- Pings that were not answered were read. -/
theorem unanswered_suffix (history : List Exchange) : unanswered history <:+ pings history := by
  induction history using List.reverseRecOn with
  | nil => exact List.suffix_refl _
  | append_singleton history e ih =>
    cases e with
    | pong mask bytes =>
      rw [unanswered_pong]
      exact List.nil_suffix
    | ping f =>
      obtain ⟨front, heq⟩ := ih
      refine ⟨front, ?_⟩
      rw [pings_append, ← heq]
      simp [unanswered, pings]

/-- What is kept of pings and of other frames is what is kept of the pings. -/
theorem foldl_kept_filter (payload : List UInt8) (read : List Frame) :
    (read.filter (·.opCode = opPing)).foldl kept payload = read.foldl kept payload := by
  induction read generalizing payload with
  | nil => rfl
  | cons f read ih =>
    rw [List.filter_cons]
    split
    · rw [foldl_cons, foldl_cons, ih]
    · rename_i hping
      have hkept : kept payload f = payload := by
        unfold kept
        rw [if_neg]
        intro h
        exact hping (decide_eq_true h.1)
      rw [foldl_cons, hkept, ih]

namespace WSTransceiver

/-- What does not read leaves the members of the reading side alone. -/
structure Speaks (t t' : WSTransceiver) : Prop where
  incoming : t'.incoming = t.incoming
  readState : t'.readState = t.readState
  readOpCode : t'.readOpCode = t.readOpCode
  readHeaderLength : t'.readHeaderLength = t.readHeaderLength
  readPayloadLength : t'.readPayloadLength = t.readPayloadLength
  readBuffer : t'.readBuffer = t.readBuffer
  readI : t'.readI = t.readI
  writeBufferSize : t'.writeBufferSize = t.writeBufferSize
  pongDue : t'.PongDue → t.PongDue

variable {t u v : WSTransceiver} {buf buf' : Buffer}

theorem Speaks.refl (t : WSTransceiver) : Speaks t t :=
  ⟨rfl, rfl, rfl, rfl, rfl, rfl, rfl, rfl, id⟩

theorem Speaks.trans (h : Speaks t u) (h' : Speaks u v) : Speaks t v where
  incoming := h'.incoming.trans h.incoming
  readState := h'.readState.trans h.readState
  readOpCode := h'.readOpCode.trans h.readOpCode
  readHeaderLength := h'.readHeaderLength.trans h.readHeaderLength
  readPayloadLength := h'.readPayloadLength.trans h.readPayloadLength
  readBuffer := h'.readBuffer.trans h.readBuffer
  readI := h'.readI.trans h.readI
  writeBufferSize := h'.writeBufferSize.trans h.writeBufferSize
  pongDue := h.pongDue ∘ h'.pongDue

theorem speaks_prepareWriteHeader (opCode n : Nat) (t : WSTransceiver) :
    Speaks t (t.prepareWriteHeader opCode n) :=
  ⟨rfl, rfl, rfl, rfl, rfl, rfl, rfl, rfl, id⟩

theorem speaks_controlFrame (payload : List UInt8) (t : WSTransceiver) :
    Speaks t (t.controlFrame payload) :=
  ⟨rfl, rfl, rfl, rfl, rfl, rfl, rfl, rfl, id⟩

/-- A frame that is not a pong leaves the payload of a ping for later. -/
theorem speaks_prepareFrame (h : t.prepareFrame buf = some u) :
    Speaks t u ∧ (t.state ≠ .pongPending → u.pingPayload = t.pingPayload) := by
  unfold prepareFrame at h
  split at h
  · split at h
    · cases h
    · cases h
      exact ⟨⟨rfl, rfl, rfl, rfl, rfl, rfl, rfl, rfl, id⟩, fun _ => rfl⟩
  · split at h
    · cases h
      exact ⟨(speaks_prepareWriteHeader opPing 0 t).trans (speaks_controlFrame [] _),
        fun _ => rfl⟩
    · split at h
      · rename_i hpong
        cases h
        exact ⟨⟨rfl, rfl, rfl, rfl, rfl, rfl, rfl, rfl, id⟩, fun hne => absurd hpong hne⟩
      · split at h
        · cases h
          exact ⟨(speaks_prepareWriteHeader opClose 2 t).trans (speaks_controlFrame _ _),
            fun _ => rfl⟩
        · cases h

theorem speaks_fillPayload (t : WSTransceiver) (buf : Buffer) :
    Speaks t (t.fillPayload buf).1 ∧ (t.fillPayload buf).1.pingPayload = t.pingPayload := by
  unfold fillPayload
  split
  · exact ⟨⟨rfl, rfl, rfl, rfl, rfl, rfl, rfl, rfl, id⟩, rfl⟩
  · split
    · exact ⟨⟨rfl, rfl, rfl, rfl, rfl, rfl, rfl, rfl, id⟩, rfl⟩
    · exact ⟨.refl t, rfl⟩

/-- A pong frame carries what was kept, and nothing is kept any more. -/
theorem preWrite_pong (hsize : 14 < t.writeBufferSize) (hheader : t.writeState = .header)
    (hpong : t.state = .pongPending) :
    ∃ f : Frame, (t.preWrite buf).2.1.writeBuffer.b = f.bytes (!t.incoming) ∧ f.opCode = opPong ∧
      f.payload = t.pingPayload ∧ (t.incoming = false → f.mask = t.random t.generated) ∧
      (t.preWrite buf).2.1.pingPayload = [] := by
  have hholds := holds_controlFrame hsize opPong t.pingPayload (by decide)
  refine ⟨⟨opPong, true, (t.prepareWriteHeader opPong t.pingPayload.length).writeMask,
    t.pingPayload⟩, ?_, rfl, rfl, ?_, ?_⟩
  · apply Eq.trans _ (congrArg Buffer.b hholds.writeBuffer)
    simp [preWrite, prepareFrame, hheader, hpong, controlFrame]
  · intro hincoming
    simp [prepareWriteHeader, hincoming]
  · simp [preWrite, prepareFrame, hheader, hpong, controlFrame]

theorem speaks_preWrite (t : WSTransceiver) (buf : Buffer) :
    Speaks t (t.preWrite buf).2.1 ∧
      (¬ (t.writeState = .header ∧ t.state = .pongPending) →
        (t.preWrite buf).2.1.pingPayload = t.pingPayload) := by
  unfold preWrite
  by_cases hheader : t.writeState = .header
  · rw [if_pos hheader]
    cases hp : t.prepareFrame buf with
    | none => exact ⟨.refl t, fun _ => rfl⟩
    | some u =>
      obtain ⟨hspeaks, hpayload⟩ := speaks_prepareFrame hp
      have hzero : Speaks u { u with writePayloadLength := 0 } :=
        ⟨rfl, rfl, rfl, rfl, rfl, rfl, rfl, rfl, id⟩
      dsimp only [Option.map_some]
      split
      · obtain ⟨hfill, hkept⟩ := speaks_fillPayload { u with writePayloadLength := 0 } buf
        exact ⟨(hspeaks.trans hzero).trans hfill,
          fun hne => hkept.trans (hpayload fun hpong => hne ⟨hheader, hpong⟩)⟩
      · exact ⟨hspeaks.trans hzero, fun hne => hpayload fun hpong => hne ⟨hheader, hpong⟩⟩
  · rw [if_neg hheader]
    dsimp only
    split
    · obtain ⟨hfill, hkept⟩ := speaks_fillPayload t buf
      exact ⟨hfill, fun _ => hkept⟩
    · exact ⟨.refl t, fun _ => rfl⟩

theorem speaks_offer (t : WSTransceiver) (buf : Buffer) (ready : Bool) (a : Acceptance) :
    Speaks t (t.offer buf ready a).2.2.1 ∧
      (t.offer buf ready a).2.2.1.pingPayload = t.pingPayload := by
  unfold offer
  split
  · exact ⟨⟨rfl, rfl, rfl, rfl, rfl, rfl, rfl, rfl, id⟩, rfl⟩
  · split
    · exact ⟨.refl t, rfl⟩
    · exact ⟨.refl t, rfl⟩

theorem speaks_endRound (t : WSTransceiver) (buf : Buffer) :
    Speaks t (t.endRound buf).2.1 ∧ (t.endRound buf).2.1.pingPayload = t.pingPayload := by
  rw [endRound_eq]
  split
  · exact ⟨⟨rfl, rfl, rfl, rfl, rfl, rfl, rfl, rfl, id⟩, rfl⟩
  · exact ⟨.refl t, rfl⟩

theorem speaks_postWrite {again : Bool} (h : t.postWrite buf = .ok (again, u, buf')) :
    Speaks t u ∧ u.pingPayload = t.pingPayload := by
  unfold postWrite at h
  split at h
  · split at h
    · split at h
      · split at h
        · cases h
          refine ⟨⟨rfl, rfl, rfl, rfl, rfl, rfl, rfl, rfl, ?_⟩, rfl⟩
          rintro (hdue | hdue)
          · cases hdue
          · exact .inr hdue
        · cases h
      · obtain ⟨hspeaks, hpayload⟩ := speaks_endRound
          { t with state := t.nextState, nextState := .opened, writeState := .header } buf
        rw [Except.ok.inj h] at hspeaks hpayload
        have hnext : Speaks t
            { t with state := t.nextState, nextState := .opened, writeState := .header } := by
          refine ⟨rfl, rfl, rfl, rfl, rfl, rfl, rfl, rfl, ?_⟩
          rintro (hdue | hdue)
          · exact .inr hdue
          · cases hdue
        exact ⟨hnext.trans hspeaks, hpayload⟩
    · cases h
      exact ⟨.refl _, rfl⟩
  · obtain ⟨hspeaks, hpayload⟩ := speaks_endRound t buf
    rw [Except.ok.inj h] at hspeaks hpayload
    exact ⟨hspeaks, hpayload⟩

theorem speaks_closing (initiator : Bool) (reason : ClosingReason) (t : WSTransceiver) :
    Speaks t (t.closing initiator reason).2 ∧
      (t.closing initiator reason).2.pingPayload = t.pingPayload := by
  rcases closing_cases initiator reason t with h | ⟨_, _, h⟩ | ⟨_, h⟩ | ⟨_, _, _, h⟩
  · rw [h]
    exact ⟨.refl t, rfl⟩
  · rw [h]
    exact ⟨⟨rfl, rfl, rfl, rfl, rfl, rfl, rfl, rfl, id⟩, rfl⟩
  · rw [h]
    refine ⟨⟨rfl, rfl, rfl, rfl, rfl, rfl, rfl, rfl, ?_⟩, rfl⟩
    rintro (hdue | hdue)
    · cases hdue
    · exact .inr hdue
  · rw [h]
    refine ⟨⟨rfl, rfl, rfl, rfl, rfl, rfl, rfl, rfl, ?_⟩, rfl⟩
    rintro (hdue | hdue)
    · exact .inl hdue
    · cases hdue

end WSTransceiver

open WSTransceiver (Speaks speaks_preWrite speaks_offer speaks_postWrite speaks_closing
  preWrite_pong took_round closed_round)

/-- The bytes are those of a pong frame that was prepared after this history. -/
def Answered (incoming : Bool) (before : List Exchange) (mask : Mask) (bytes : List UInt8) : Prop :=
  pings before ≠ [] ∧
    ∃ f : Frame, bytes = f.bytes (!incoming) ∧ f.opCode = opPong ∧
      f.payload = (unanswered before).foldl kept [] ∧ (incoming = false → f.mask = mask)

/-- Each pong frame of a history was prepared after what is before it. -/
def AllAnswered (incoming : Bool) (history : List Exchange) : Prop :=
  ∀ k mask bytes, history[k]? = some (.pong mask bytes) →
    Answered incoming (history.take k) mask bytes

variable {history : List Exchange} {wire : List UInt8}

theorem allAnswered_heard {incoming : Bool} (h : AllAnswered incoming history) (read : List Frame) :
    AllAnswered incoming (history ++ heard read) := by
  intro k mask bytes hk
  rcases Nat.lt_or_ge k history.length with hlt | hge
  · rw [List.getElem?_append_left hlt] at hk
    rw [List.take_append_of_le_length (by omega)]
    exact h k mask bytes hk
  · rw [List.getElem?_append_right hge] at hk
    have hmem := List.mem_of_getElem? hk
    simp [heard] at hmem

variable {bytes : List UInt8}

theorem allAnswered_pong {incoming : Bool} {mask : Mask}
    (h : AllAnswered incoming history) (hpong : Answered incoming history mask bytes) :
    AllAnswered incoming (history ++ [.pong mask bytes]) := by
  intro k mask' bytes' hk
  rcases Nat.lt_or_ge k history.length with hlt | hge
  · rw [List.getElem?_append_left hlt] at hk
    rw [List.take_append_of_le_length (by omega)]
    exact h k mask' bytes' hk
  · rw [List.getElem?_append_right hge] at hk
    obtain ⟨hzero, heq⟩ := List.getElem?_eq_some_iff.mp hk
    rw [List.length_singleton] at hzero
    have hlength : k = history.length := by
      omega
    subst hlength
    simp only [Nat.sub_self, List.getElem_cons_zero, Exchange.pong.injEq] at heq
    obtain ⟨rfl, rfl⟩ := heq
    rw [take_left]
    exact hpong

/-- What holds of a party whose peer sends frames -/
structure Attentive (incoming : Bool) (p : Answerer) : Prop where
  incoming_eq : p.transceiver.incoming = incoming
  size : 14 < p.transceiver.writeBufferSize
  valid : ∀ f ∈ p.frames, f.Valid
  reading : Closed p.transceiver p.frames ∨
    Buffered p.transceiver ∧ Stage p.transceiver 0 p.frames (p.transceiver.unread p.wire)
  pingPayload : p.transceiver.pingPayload = (unanswered p.history).foldl kept []
  pongDue : p.transceiver.PongDue → pings p.history ≠ []
  opCode : ∀ f ∈ pings p.history, f.opCode = opPing
  answered : AllAnswered incoming p.history

variable {incoming : Bool} {p q : Answerer} {t : WSTransceiver}

section

variable (h : Attentive incoming p)

include h

/-- What is kept of the frames that were read is told by the history. -/
theorem Attentive.heard {read left : List Frame}
    (hframes : p.frames = read ++ left) (hanswers : Answers read p.transceiver t)
    (hreading : Closed t left ∨ Buffered t ∧ Stage t 0 left (t.unread wire)) :
    Attentive incoming { p with
      transceiver := t
      frames := left
      wire := wire
      history := p.history ++ heard read } := by
  constructor
  · exact hanswers.incoming.trans h.incoming_eq
  · change 14 < t.writeBufferSize
    rw [hanswers.writeBufferSize]
    exact h.size
  · intro f hf
    apply h.valid f
    rw [hframes]
    exact mem_append_right read hf
  · exact hreading
  · dsimp only
    rw [unanswered_heard, foldl_append, foldl_kept_filter, hanswers.pingPayload,
      h.pingPayload]
  · intro hdue
    dsimp only
    rw [pings_append, pings_heard]
    rcases hanswers.pongDue hdue with hdue | ⟨f, hf, hping⟩
    · exact fun hnil => h.pongDue hdue (List.append_eq_nil_iff.mp hnil).1
    · intro hnil
      have hmem : f ∈ read.filter (·.opCode = opPing) :=
        List.mem_filter.mpr ⟨hf, decide_eq_true hping⟩
      rw [(List.append_eq_nil_iff.mp hnil).2] at hmem
      cases hmem
  · intro f hf
    dsimp only at hf
    rw [pings_append, pings_heard] at hf
    rcases List.mem_append.mp hf with hf | hf
    · exact h.opCode f hf
    · exact of_decide_eq_true (List.mem_filter.mp hf).2
  · exact allAnswered_heard h.answered read

theorem Attentive.readRound (buf : Buffer) (a : Arrival) :
    Attentive incoming (p.readRound buf a) := by
  unfold Answerer.readRound
  cases hp : p.transceiver.preRead buf with
  | error _ =>
    exact ⟨h.incoming_eq, h.size, h.valid, h.reading, h.pingPayload, h.pongDue, h.opCode,
      h.answered⟩
  | ok r =>
    obtain ⟨more, u, buf'⟩ := r
    dsimp only
    rcases hr : u.receive buf' p.wire more a with ⟨v, buf'', wire⟩
    dsimp only
    rcases hq : v.postRead buf'' with ⟨again, w, buf₃⟩
    dsimp only
    rcases h.reading with hclosed | ⟨hbuffered, hstage⟩
    · obtain ⟨hanswers, hclosed'⟩ := closed_round hclosed hp hr hq
      obtain ⟨f, rest, hframes, hclose⟩ := hclosed.first
      have hread : readFrames w.incoming p.frames (w.unread wire).length = ([], p.frames) := by
        rw [hframes, readFrames, if_neg fun hne => hne.1 hclose]
      rw [hread]
      exact h.heard rfl hanswers (.inl hclosed')
    · obtain ⟨read, left, htook⟩ := took_round hbuffered hstage h.valid hp hr hq
      rw [htook.readFrames_eq]
      apply h.heard htook.frames_eq htook.answers
      rcases htook.stage with hstage | ⟨hclosed, _⟩
      · exact .inr ⟨htook.buffered, hstage⟩
      · exact .inl hclosed

/-- What does not read leaves the state of reading as it is. -/
theorem Attentive.speaks {lost : Bool}
    (hspeaks : Speaks p.transceiver t) (hpings : pings history = pings p.history)
    (hpayload : t.pingPayload = (unanswered history).foldl kept [])
    (hanswered : AllAnswered incoming history) :
    Attentive incoming { p with transceiver := t, history := history, lost := lost } := by
  constructor
  · exact hspeaks.incoming.trans h.incoming_eq
  · change 14 < t.writeBufferSize
    rw [hspeaks.writeBufferSize]
    exact h.size
  · exact h.valid
  · rcases h.reading with hclosed | ⟨hbuffered, hstage⟩
    · exact .inl (hclosed.congr hspeaks.readState hspeaks.readOpCode)
    · have hunread : t.unread p.wire = p.transceiver.unread p.wire := by
        unfold WSTransceiver.unread
        rw [hspeaks.readBuffer, hspeaks.readI]
      apply Or.inr
      constructor
      · constructor
        · rw [hspeaks.readBuffer, hspeaks.readI]
          exact hbuffered.readI
        · rw [hspeaks.readBuffer]
          exact hbuffered.i
      · change Stage t 0 p.frames (t.unread p.wire)
        rw [hunread]
        exact hstage.congr hspeaks.incoming hspeaks.readState hspeaks.readOpCode
          hspeaks.readHeaderLength hspeaks.readPayloadLength
  · exact hpayload
  · intro hdue
    dsimp only
    rw [hpings]
    exact h.pongDue (hspeaks.pongDue hdue)
  · dsimp only
    rw [hpings]
    exact h.opCode
  · exact hanswered

/-- A pong frame that is prepared answers the pings that were read. -/
theorem Attentive.prepared (buf : Buffer) :
    let history := p.history ++ p.transceiver.prepared (p.transceiver.preWrite buf).2.1
    pings history = pings p.history ∧
      (p.transceiver.preWrite buf).2.1.pingPayload = (unanswered history).foldl kept [] ∧
      AllAnswered incoming history := by
  intro history
  by_cases hpong : p.transceiver.writeState = .header ∧ p.transceiver.state = .pongPending
  · obtain ⟨f, hbytes, hopCode, hpayload, hmask, hnone⟩ :=
      @preWrite_pong p.transceiver buf h.size hpong.1 hpong.2
    have hhistory : history = p.history ++ [.pong (p.transceiver.random p.transceiver.generated)
        (p.transceiver.preWrite buf).2.1.writeBuffer.b] := by
      simp only [history, WSTransceiver.prepared, if_pos hpong]
    rw [hhistory, pings_append, pings_pong, List.append_nil, unanswered_pong, hnone]
    refine ⟨rfl, rfl, allAnswered_pong h.answered
      ⟨h.pongDue (.inl hpong.2), f, ?_, hopCode, ?_, ?_⟩⟩
    · rw [hbytes, h.incoming_eq]
    · rw [hpayload, h.pingPayload]
    · rw [← h.incoming_eq]
      exact hmask
  · have hhistory : history = p.history := by
      simp only [history, WSTransceiver.prepared, if_neg hpong, List.append_nil]
    rw [hhistory, (speaks_preWrite p.transceiver buf).2 hpong]
    exact ⟨rfl, h.pingPayload, h.answered⟩

theorem Attentive.writeRound (buf : Buffer) (a : Acceptance) :
    Attentive incoming (p.writeRound buf a) := by
  have hprepared := h.prepared buf
  obtain ⟨hspeaks, _⟩ := speaks_preWrite p.transceiver buf
  unfold Answerer.writeRound
  rcases hw : p.transceiver.preWrite buf with ⟨ready, u, buf'⟩
  rw [hw] at hprepared hspeaks
  obtain ⟨hpings, hpayload, hanswered⟩ := hprepared
  obtain ⟨hoffer, hkept⟩ := speaks_offer u buf' ready a
  dsimp only
  rcases ho : u.offer buf' ready a with ⟨bytes, op, v, buf''⟩
  rw [ho] at hoffer hkept
  cases op with
  | some _ => exact h.speaks (hspeaks.trans hoffer) hpings (hkept.trans hpayload) hanswered
  | none =>
    dsimp only
    cases hq : v.postWrite buf'' with
    | error _ => exact h.speaks (hspeaks.trans hoffer) hpings (hkept.trans hpayload) hanswered
    | ok r =>
      obtain ⟨again, w, buf₃⟩ := r
      obtain ⟨hpost, hkept'⟩ := speaks_postWrite hq
      exact h.speaks ((hspeaks.trans hoffer).trans hpost) hpings
        (hkept'.trans (hkept.trans hpayload)) hanswered

theorem Attentive.step {r : Round} (hs : p.step r = some q) :
    Attentive incoming q := by
  unfold Answerer.step at hs
  split at hs
  · cases hs
  · cases r with
    | read buf a =>
      cases hs
      exact h.readRound buf a
    | write buf a =>
      cases hs
      exact h.writeRound buf a
    | closing initiator reason =>
      cases hs
      obtain ⟨hspeaks, hkept⟩ := speaks_closing initiator reason p.transceiver
      exact h.speaks hspeaks rfl (hkept.trans h.pingPayload) h.answered

end

variable {consumed leftover spare upgrade : List UInt8} {writePayloadLength : Nat}
  {frames : List Frame} (random : Nat → Mask)

section

variable (hwire : leftover ++ wire = wireOf incoming frames)

include hwire

theorem attentive_opened (hvalid : ∀ f ∈ frames, f.Valid) :
    Attentive incoming (.opened incoming random consumed leftover spare upgrade writePayloadLength
      frames wire) := by
  constructor
  · rfl
  · change 14 < if incoming then 1024 else 16 * 1024
    split
    · omega
    · omega
  · exact hvalid
  · apply Or.inr
    constructor
    · constructor
      · exact Nat.le_add_right _ _
      · change consumed.length + leftover.length ≤ (consumed ++ leftover ++ spare).length
        rw [length_append, length_append]
        omega
    · apply Stage.opcode rfl
      change ((consumed ++ leftover ++ spare).take (consumed.length + leftover.length)).drop
        consumed.length ++ wire = wireOf incoming frames
      rw [← length_append, take_left, List.drop_left]
      exact hwire
  · rfl
  · rintro (hdue | hdue)
    · cases hdue
    · cases hdue
  · intro f hf
    cases hf
  · intro k mask bytes hk
    simp [Answerer.opened] at hk

theorem attentive_of_reach (hvalid : ∀ f ∈ frames, f.Valid)
    (h : Reach Answerer.step Any (.opened incoming random consumed leftover spare upgrade
      writePayloadLength frames wire) p) : Attentive incoming p :=
  h.invariant (attentive_opened random hwire hvalid) fun _ _ _ hi _ hs => hi.step hs

end

/-- The mask leaves the bytes of a payload of this length as they are. -/
def Mask.Spares (mask : Mask) (n : Nat) : Prop := ∀ k : Fin 4, k.val < n → mask k = 0

theorem Mask.apply_eq_self (mask : Mask) (bytes : List UInt8) :
    mask.apply 0 bytes = bytes ↔ mask.Spares bytes.length := by
  constructor
  · intro h k hk
    have hbyte := congrArg (·[k.val]?) h
    simp only [Mask.apply, List.getElem?_mapIdx, List.getElem?_eq_getElem hk, Option.map_some,
      Nat.zero_add, Option.some.injEq] at hbyte
    have hat : mask.at k.val = mask k := by
      unfold Mask.at
      congr 1
      ext
      exact Nat.mod_eq_of_lt k.isLt
    rw [hat] at hbyte
    calc mask k = bytes[k.val] ^^^ (bytes[k.val] ^^^ mask k) := by
          rw [← UInt8.xor_assoc, UInt8.xor_self, UInt8.zero_xor]
      _ = 0 := by rw [hbyte, UInt8.xor_self]
  · intro h
    apply List.ext_getElem
    · simp
    · intro k hk hk'
      have hzero : mask.at (0 + k) = 0 := by
        apply h
        rw [Nat.zero_add]
        exact Nat.lt_of_le_of_lt (Nat.mod_le k 4) hk'
      simp only [Mask.apply, List.getElem_mapIdx, hzero, UInt8.xor_zero]

/-- The bytes of a frame tell its payload and its mask. -/
theorem Frame.bytes_inj {masked : Bool} {f g : Frame} (h : f.bytes masked = g.bytes masked) :
    f.payload = g.payload ∧ (masked = true → f.mask = g.mask) := by
  have hlength := congrArg List.length h
  rw [Frame.length_bytes_eq, Frame.length_bytes_eq] at hlength
  unfold Frame.bytes at h
  rw [Frame.header_split, Frame.header_split] at h
  simp only [List.cons_append, List.append_assoc] at h
  obtain ⟨-, h⟩ := List.cons.inj h
  obtain ⟨hcode, h⟩ := List.cons.inj h
  have hcode' : lengthCode f.payload.length = lengthCode g.payload.length := by
    have hf := Frame.lengthCode_le f.payload.length
    have hg := Frame.lengthCode_le g.payload.length
    have hnat := congrArg UInt8.toNat hcode
    rw [UInt8.toNat_ofNat', UInt8.toNat_ofNat'] at hnat
    simp only [flag] at hnat
    cases masked
    · simp only [Bool.false_eq_true, if_false] at hnat
      omega
    · simp only [if_true] at hnat
      omega
  have hextension : f.extension.length = g.extension.length := by
    rw [Frame.length_extension, Frame.length_extension, hcode']
  have hmask : (f.maskBytes masked).length = (g.maskBytes masked).length := by
    rw [Frame.length_maskBytes, Frame.length_maskBytes]
  obtain ⟨-, h⟩ := List.append_inj h hextension
  obtain ⟨hmaskBytes, hpayload⟩ := List.append_inj h hmask
  refine ⟨hpayload, fun hmasked => ?_⟩
  simp only [Frame.maskBytes, hmasked, if_true, List.cons.injEq, and_true] at hmaskBytes
  obtain ⟨h0, h1, h2, h3⟩ := hmaskBytes
  funext k
  fin_cases k
  · exact h0
  · exact h1
  · exact h2
  · exact h3

/-- The bytes are those of a pong frame whose payload, taken as that of a data frame is, is what
the ping says. -/
def Echoes (incoming : Bool) (ping : Frame) (bytes : List UInt8) : Prop :=
  ∃ f : Frame, bytes = f.bytes (!incoming) ∧ f.opCode = opPong ∧
    f.data (!incoming) = ping.data incoming

/-- The last ping says nothing and neither do the others that are due; or it is one of those that
are due, and the mask that is not applied would leave its payload as it is. -/
def Faithful (incoming : Bool) (mask : Mask) (ping : Frame) (due : List Frame) : Prop :=
  if ping.payload = [] then ∀ f ∈ due, f.payload = []
  else due ≠ [] ∧ (if incoming then ping.mask else mask).Spares ping.payload.length

theorem foldl_kept_eq_nil {due : List Frame} (h : ∀ f ∈ due, f.opCode = opPing) :
    due.foldl kept [] = [] ↔ ∀ f ∈ due, f.payload = [] := by
  induction due using List.reverseRecOn with
  | nil => simp
  | append_singleton due f ih =>
    have hrest := ih fun g hg => h g (List.mem_append_left _ hg)
    have hping := h f (mem_append_right _ (List.mem_singleton_self f))
    rw [foldl_append, foldl_cons, List.foldl_nil, kept]
    by_cases hnil : f.payload = []
    · rw [if_neg fun hp => hp.2 hnil, hrest]
      constructor
      · intro hall g hg
        rcases List.mem_append.mp hg with hg | hg
        · exact hall g hg
        · rw [List.mem_singleton.mp hg]
          exact hnil
      · intro hall g hg
        exact hall g (List.mem_append_left _ hg)
    · rw [if_pos ⟨hping, hnil⟩]
      constructor
      · intro hf
        exact absurd hf hnil
      · intro hall
        exact absurd (hall f (mem_append_right _ (List.mem_singleton_self f))) hnil

/-- What was kept is the payload of the last ping unless that is empty or was sent before. -/
theorem foldl_kept_last {due : List Frame} {ping : Frame} (h : due.getLast? = some ping)
    (hping : ping.opCode = opPing) (hne : ping.payload ≠ []) :
    due.foldl kept [] = ping.payload := by
  obtain ⟨front, rfl⟩ := List.getLast?_eq_some_iff.mp h
  rw [foldl_append, foldl_cons, List.foldl_nil, kept, if_pos ⟨hping, hne⟩]

theorem length_data (masked : Bool) (f : Frame) : (f.data masked).length = f.payload.length := by
  unfold Frame.data
  split
  · rw [Mask.length_apply]
  · rfl

theorem data_eq_nil_iff (masked : Bool) (f : Frame) : f.data masked = [] ↔ f.payload = [] := by
  rw [← List.length_eq_zero_iff, length_data, List.length_eq_zero_iff]

theorem Frame.data_congr {masked : Bool} {f g : Frame} (h : f.bytes masked = g.bytes masked) :
    f.data masked = g.data masked := by
  obtain ⟨hpayload, hmask⟩ := Frame.bytes_inj h
  unfold Frame.data
  split
  · rename_i hmasked
    rw [hmask hmasked, hpayload]
  · exact hpayload

theorem Answered.echoes_iff {before : List Exchange} {mask : Mask}
    {ping : Frame} (h : Answered incoming before mask bytes)
    (hopCode : ∀ f ∈ pings before, f.opCode = opPing)
    (hlast : (pings before).getLast? = some ping) :
    Echoes incoming ping bytes ↔ Faithful incoming mask ping (unanswered before) := by
  obtain ⟨_, f, hbytes, hpong, hpayload, hmask⟩ := h
  obtain ⟨front, hsuffix⟩ := unanswered_suffix before
  have hdue : ∀ g ∈ unanswered before, g.opCode = opPing := by
    intro g hg
    apply hopCode
    rw [← hsuffix]
    exact mem_append_right front hg
  have hechoes : Echoes incoming ping bytes ↔ f.data (!incoming) = ping.data incoming := by
    constructor
    · rintro ⟨g, hg, _, hdata⟩
      rw [← hdata]
      exact Frame.data_congr (hbytes.symm.trans hg)
    · intro hdata
      exact ⟨f, hbytes, hpong, hdata⟩
  rw [hechoes]
  unfold Faithful
  by_cases hnil : ping.payload = []
  · rw [if_pos hnil, (data_eq_nil_iff incoming ping).mpr hnil, data_eq_nil_iff, hpayload]
    exact foldl_kept_eq_nil hdue
  · rw [if_neg hnil]
    by_cases hnone : unanswered before = []
    · rw [hnone] at hpayload ⊢
      constructor
      · intro hdata
        rw [(data_eq_nil_iff (!incoming) f).mpr hpayload] at hdata
        exact absurd ((data_eq_nil_iff incoming ping).mp hdata.symm) hnil
      · intro hsome
        exact absurd rfl hsome.1
    · have hlast' : (unanswered before).getLast? = some ping := by
        rw [← hsuffix, List.getLast?_append_of_ne_nil front hnone] at hlast
        exact hlast
      have hkept : f.payload = ping.payload := by
        rw [hpayload]
        apply foldl_kept_last hlast' _ hnil
        exact hdue ping (List.mem_of_getLast? hlast')
      rw [and_iff_right hnone]
      cases incoming with
      | true =>
        change f.payload = ping.mask.apply 0 ping.payload ↔ _
        rw [hkept, eq_comm]
        exact ping.mask.apply_eq_self ping.payload
      | false =>
        change f.mask.apply 0 f.payload = ping.payload ↔ _
        rw [hkept, hmask rfl]
        exact mask.apply_eq_self ping.payload

/-- A pong frame tells the last ping what it said exactly where that ping was read behind the pong
frame before and nothing was to be masked, or where it said nothing and neither did the pings
before it. -/
theorem echoes_iff_faithful (incoming : Bool) (random : Nat → Mask)
    (consumed leftover spare upgrade : List UInt8) (writePayloadLength : Nat) (frames : List Frame)
    (wire : List UInt8) (hwire : leftover ++ wire = wireOf incoming frames)
    (hvalid : ∀ f ∈ frames, f.Valid) (p : Answerer)
    (h : Reach Answerer.step Any (.opened incoming random consumed leftover spare upgrade
      writePayloadLength frames wire) p)
    (before after : List Exchange) (mask : Mask) (bytes : List UInt8)
    (hhistory : p.history = before ++ .pong mask bytes :: after) :
    ∃ ping ∈ (pings before).getLast?,
      (Echoes incoming ping bytes ↔ Faithful incoming mask ping (unanswered before)) := by
  have hattentive := attentive_of_reach random hwire hvalid h
  have hanswered : Answered incoming before mask bytes := by
    have hk := hattentive.answered before.length mask bytes (by rw [hhistory]; simp)
    rw [hhistory, take_left] at hk
    exact hk
  have hopCode : ∀ f ∈ pings before, f.opCode = opPing := by
    intro f hf
    apply hattentive.opCode f
    rw [hhistory, pings_append]
    exact List.mem_append_left _ hf
  cases hlast : (pings before).getLast? with
  | none => exact absurd (List.getLast?_eq_none_iff.mp hlast) hanswered.1
  | some ping => exact ⟨ping, rfl, hanswered.echoes_iff hopCode hlast⟩

/-- A ping of one byte that says 6, and what it is on the wire -/
def maskedPing : Frame := ⟨opPing, true, fun k => UInt8.ofNat (k.val + 1), [7]⟩

theorem valid_maskedPing : ∀ f ∈ [maskedPing], f.Valid := by
  intro f hf
  rw [List.mem_singleton.mp hf]
  constructor
  · decide
  · decide

/-- A ping was answered with its payload as it was sent, not with its data. -/
def pongsPayload (p : Answerer) : Bool :=
  match p.history with
  | [.ping f, .pong _ bytes] => f.payload = [7] && f.data true = [6] && bytes = [138, 1, 7]
  | _ => false

/-- A server reads the ping and prepares the pong frame. -/
theorem exists_pong_maskedPing :
    ∃ p, Reach Answerer.step Any
        (.opened true (fun _ _ => 0) [] [] [] [] 0 [maskedPing] (wireOf true [maskedPing])) p ∧
      ∃ ping mask, ping.payload = [7] ∧ ping.data true = [6] ∧
        p.history = [.ping ping] ++ .pong mask [138, 1, 7] :: [] := by
  have hrun : (run Answerer.step
      (.opened true (fun _ _ => 0) [] [] [] [] 0 [maskedPing] (wireOf true [maskedPing]))
      [.read ⟨List.replicate 14 0, 0⟩ ⟨7, false⟩, .read ⟨List.replicate 14 0, 0⟩ ⟨0, false⟩,
        .write {} ⟨0, false⟩]).any pongsPayload = true := by
    decide +kernel
  obtain ⟨p, h, hp⟩ := Reach.exists_of_run hrun
  refine ⟨p, h, ?_⟩
  unfold pongsPayload at hp
  split at hp
  · rename_i f mask bytes hhistory
    simp only [Bool.and_eq_true, decide_eq_true_eq] at hp
    obtain ⟨⟨hpayload, hdata⟩, rfl⟩ := hp
    exact ⟨f, mask, hpayload, hdata, hhistory⟩
  · cases hp

theorem echoes_iff_faithful_maskedPing :
    ∃ ping, ping.payload = [7] ∧ ping.data true = [6] ∧ ¬ Echoes true ping [138, 1, 7] := by
  obtain ⟨p, h, ping, mask, hpayload, hdata, hhistory⟩ := exists_pong_maskedPing
  obtain ⟨ping', hping, hiff⟩ := echoes_iff_faithful true _ [] [] [] [] 0 _ _ rfl valid_maskedPing
    p h [.ping ping] [] mask [138, 1, 7] hhistory
  cases hping
  refine ⟨ping, hpayload, hdata, fun hechoes => ?_⟩
  have hfaithful : Faithful true mask ping [ping] := hiff.mp hechoes
  unfold Faithful at hfaithful
  rw [hpayload, if_neg (List.cons_ne_nil _ _), if_pos rfl] at hfaithful
  have hsame : ping.data true = [7] := by
    unfold Frame.data
    rw [if_pos rfl, hpayload]
    exact (ping.mask.apply_eq_self [7]).mpr hfaithful.2
  rw [hdata] at hsame
  exact absurd hsame (by decide)

/-- The server sends the byte back as it was on the wire, and the client reads 7 where it said 6. -/
theorem not_echoes_maskedPing :
    ∃ p, Reach Answerer.step Any
        (.opened true (fun _ _ => 0) [] [] [] [] 0 [maskedPing] (wireOf true [maskedPing])) p ∧
      ∃ ping mask, p.history = [.ping ping] ++ .pong mask [138, 1, 7] :: [] ∧
        ¬ Echoes true ping [138, 1, 7] := by
  obtain ⟨p, h, ping, mask, _, hdata, hhistory⟩ := exists_pong_maskedPing
  refine ⟨p, h, ping, mask, hhistory, ?_⟩
  rintro ⟨f, hbytes, _, hf⟩
  have hsent : (Frame.mk opPong true mask [7]).bytes false = [138, 1, 7] := rfl
  have hsaid : f.data false = [7] := (Frame.data_congr (hsent.trans hbytes)).symm
  change f.data false = ping.data true at hf
  rw [hsaid, hdata] at hf
  exact absurd hf (by decide)

end Ice.Connection
