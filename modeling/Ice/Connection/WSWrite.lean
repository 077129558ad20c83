import Ice.Connection.WSListening
import Ice.Connection.WSWriter

/-!
# What `write` keeps

Between two rounds of the loop of `write` the bytes on the wire, the rest of the write buffer
and the rest of the message make up whole frames. A round hands a part of that rest to the
transport, and a frame begins only where there is none. Where `write` gives up in the middle of
a message, there is a rest, and `SocketOperationNone` all the same.
-/

namespace Ice.Connection

open Ice.Lib
open List (append_assoc append_nil drop_drop length_pos_iff nil_append replicate)
open Buffer (atEnd overwrite rest_eq_nil take_overwrite)
open WSTransceiver (Acceptance Written frameHeader)

/-- Nothing of the buffer is to be sent. -/
def Buffer.finished (buf : Buffer) : Prop := buf.b = [] ∨ buf.i = buf.b.length

theorem Buffer.finished_iff (buf : Buffer) :
    (buf.b.isEmpty || buf.atEnd) = true ↔ buf.finished := by
  simp [Buffer.finished, atEnd]

namespace WSTransceiver

/-- No data frame is being sent: the current message is not begun, or its frame is complete. A
connection that is about to be lost may have a message with a position of no meaning. -/
inductive Between (t : WSTransceiver) (stale : Prop) (buf : Buffer)
    (sent written : List (List UInt8)) : Prop
  | waiting (hsent : sent = written) (hbuf : buf.b = [] ∨ buf.i = 0)
  | lost (hsent : sent = written) (hstale : stale)
  | complete (hsent : sent = written ++ [buf.b]) (hnonempty : buf.b ≠ [])
      (hend : buf.i = buf.b.length)
      (hlength : t.incoming = false →
        t.writePayloadLength = 0 ∨ t.writePayloadLength = buf.b.length)

/-- The rest is a part of the last frame, which has a property. -/
def EndsIn (masked : Bool) (p : Frame → Prop) (frames : List Frame) (rest : List UInt8) : Prop :=
  ∃ f ∈ frames.getLast?, p f ∧ rest <:+ f.bytes masked

/-- A control frame is being sent. -/
structure Control (t : WSTransceiver) (buf : Buffer) (frames : List Frame)
    (written : List (List UInt8)) : Prop where
  writeState : t.writeState = .controlFrame
  state : t.state ≠ .opened
  length : t.writePayloadLength = 0
  valid : t.writeBuffer.i ≤ t.writeBuffer.b.length
  last : EndsIn (!t.incoming) (·.opCode ≠ opData) frames t.writeBuffer.rest
  between : Between t (t.Frozen ∧ t.closingInitiator = true) buf
    (messages (!t.incoming) frames) written

/-- How many bytes of the message are on the wire or in the write buffer. -/
def sent (t : WSTransceiver) (buf : Buffer) : Nat :=
  if t.incoming then buf.i else t.writePayloadLength

/-- What of the frame of the message is to follow the write buffer. -/
def tail (t : WSTransceiver) (buf : Buffer) : List UInt8 :=
  if t.incoming then buf.rest
  else t.writeMask.apply t.writePayloadLength (buf.b.drop t.writePayloadLength)

/-- A message is being sent. -/
structure Sending (t : WSTransceiver) (buf : Buffer) (frames : List Frame)
    (written : List (List UInt8)) : Prop where
  writeState : t.writeState = .payload
  nonempty : buf.b ≠ []
  filled : t.writeBuffer.b ≠ []
  valid : t.writeBuffer.i ≤ t.writeBuffer.b.length
  begun : 0 < t.writePayloadLength
  copied : t.incoming = true → 0 < buf.i
  bound : t.sent buf ≤ buf.b.length
  last : EndsIn (!t.incoming) (·.opCode = opData) frames (t.writeBuffer.rest ++ t.tail buf)
  carried : messages (!t.incoming) frames = written ++ [buf.b]

/-- What is to follow on the wire, and what the frames on it are. -/
inductive Progress (t : WSTransceiver) (buf : Buffer) (written : List (List UInt8)) :
    List Frame → List UInt8 → Prop
  | header {frames : List Frame} (hstate : t.writeState = .header)
      (hbetween : Between t t.Frozen buf (messages (!t.incoming) frames) written) :
      Progress t buf written frames []
  | control {frames : List Frame} (hcontrol : t.Control buf frames written)
      (hend : t.writeBuffer.i < t.writeBuffer.b.length) :
      Progress t buf written frames t.writeBuffer.rest
  | sending {frames : List Frame} (hsending : t.Sending buf frames written)
      (hend : t.incoming = false → t.writeBuffer.atEnd →
        buf.i = t.writePayloadLength ∧ t.writePayloadLength < buf.b.length) :
      Progress t buf written frames (t.writeBuffer.rest ++ t.tail buf)

/-- The state of a transceiver and a wire between two rounds. -/
def Standing (t : WSTransceiver) (buf : Buffer) (wire : List UInt8)
    (written : List (List UInt8)) : Prop :=
  t.Sound ∧ ∃ frames rest, wire ++ rest = wireOf (!t.incoming) frames ∧
    t.Progress buf written frames rest

variable {buf : Buffer} {t t' : WSTransceiver} {written : List (List UInt8)} {frames : List Frame}
  {wire : List UInt8} {n : Nat}

theorem Between.hears {stale stale' : Prop} {sent : List (List UInt8)}
    (h : Between t stale buf sent written) (hincoming : t'.incoming = t.incoming)
    (hlength : t'.writePayloadLength = t.writePayloadLength) (hstale : stale → stale') :
    Between t' stale' buf sent written := by
  cases h with
  | waiting hsent hbuf => exact .waiting hsent hbuf
  | lost hsent hs => exact .lost hsent (hstale hs)
  | complete hsent hnonempty hend hl =>
    exact .complete hsent hnonempty hend (by rw [hincoming, hlength]; exact hl)

variable {rest : List UInt8}

theorem Progress.hears (h : t.Progress buf written frames rest)
    (hh : Hears t t') : t'.Progress buf written frames rest := by
  cases h with
  | header hstate hbetween =>
    apply Progress.header
    · rw [hh.writeState, hstate]
    · rw [hh.incoming]
      exact hbetween.hears hh.incoming hh.writePayloadLength hh.frozen
  | control hcontrol hend =>
    rw [← hh.writeBuffer]
    refine .control ?_ (by rw [hh.writeBuffer]; exact hend)
    constructor
    · rw [hh.writeState, hcontrol.writeState]
    · exact hh.leaves hcontrol.state
    · rw [hh.writePayloadLength, hcontrol.length]
    · rw [hh.writeBuffer]
      exact hcontrol.valid
    · rw [hh.incoming, hh.writeBuffer]
      exact hcontrol.last
    · rw [hh.incoming]
      exact hcontrol.between.hears hh.incoming hh.writePayloadLength
        fun ⟨hf, hi⟩ => ⟨hh.frozen hf, hh.due hf hi⟩
  | sending hsending hend =>
    have htail : t'.tail buf = t.tail buf := by
      simp only [tail, hh.incoming, hh.writeMask, hh.writePayloadLength]
    rw [← hh.writeBuffer, ← htail]
    apply Progress.sending
    · constructor
      · rw [hh.writeState, hsending.writeState]
      · exact hsending.nonempty
      · rw [hh.writeBuffer]
        exact hsending.filled
      · rw [hh.writeBuffer]
        exact hsending.valid
      · rw [hh.writePayloadLength]
        exact hsending.begun
      · rw [hh.incoming]
        exact hsending.copied
      · rw [sent, hh.incoming, hh.writePayloadLength]
        exact hsending.bound
      · rw [hh.incoming, hh.writeBuffer, htail]
        exact hsending.last
      · rw [hh.incoming]
        exact hsending.carried
    · rw [hh.incoming, hh.writeBuffer, hh.writePayloadLength]
      exact hend

theorem Standing.hears (h : t.Standing buf wire written) (hh : Hears t t') :
    t'.Standing buf wire written := by
  obtain ⟨hs, frames, rest, hwire, hp⟩ := h
  exact ⟨hh.sound hs, frames, rest, by rw [hh.incoming]; exact hwire, hp.hears hh⟩

/-- Where nothing is being sent, the position of an empty buffer does not matter. -/
theorem Standing.of_empty {buf' : Buffer} (h : t.Standing buf wire written) (hb : buf.b = [])
    (hb' : buf'.b = [] ∨ buf'.i = 0) : t.Standing buf' wire written := by
  obtain ⟨hs, frames, rest, hwire, hp⟩ := h
  have hbetween : ∀ {stale : Prop} {sent : List (List UInt8)},
      Between t stale buf sent written → Between t stale buf' sent written := by
    intro stale sent h
    cases h with
    | waiting hsent _ => exact .waiting hsent hb'
    | lost hsent hstale => exact .lost hsent hstale
    | complete _ hnonempty _ _ => exact absurd hb hnonempty
  refine ⟨hs, frames, rest, hwire, ?_⟩
  cases hp with
  | header hstate h => exact .header hstate (hbetween h)
  | control hcontrol hend =>
    exact .control { hcontrol with between := hbetween hcontrol.between } hend
  | sending hsending _ => exact absurd hb hsending.nonempty

theorem length_bigEndian (k n : Nat) : (bigEndian k n).length = k := by
  induction k generalizing n with
  | zero => rfl
  | succ k ih => simp [bigEndian, ih]

variable (masked : Bool)

theorem length_lengthBytes (n : Nat) :
    (lengthBytes masked n).length = if n ≤ 125 then 1 else if n ≤ 65535 then 3 else 9 := by
  simp only [lengthBytes]
  split
  · rfl
  · split <;> simp [length_bigEndian]

variable (incoming : Bool)

/-- The length of a header depends on the length of the payload only. -/
theorem length_frameHeader (opCode n : Nat) (mask : Mask) :
    (frameHeader incoming opCode n mask).length =
      (if n ≤ 125 then 2 else if n ≤ 65535 then 4 else 10) + if incoming then 0 else 4 := by
  simp only [frameHeader, List.length_cons, List.length_append, length_lengthBytes]
  by_cases h : n ≤ 125
  · cases incoming <;> simp [h]
  · by_cases h' : n ≤ 65535
    all_goals cases incoming <;> simp [h, h']

theorem header_eq (opCode : Nat) (mask : Mask) (payload : List UInt8) :
    (Frame.mk opCode true mask payload).header (!incoming) =
      frameHeader incoming opCode payload.length mask := by
  cases incoming <;> rfl

/-- What `prepareWriteHeader` leaves in the write buffer. -/
theorem prepareWriteHeader_buffer (hsize : 14 < t.writeBufferSize) (opCode n : Nat) :
    let u := t.prepareWriteHeader opCode n
    u.writeBuffer.b.take u.writeBuffer.i = frameHeader t.incoming opCode n u.writeMask ∧
      u.writeBuffer.i = (frameHeader t.incoming opCode n u.writeMask).length ∧
      u.writeBuffer.b.length = t.writeBufferSize := by
  intro u
  have hlength : (frameHeader t.incoming opCode n u.writeMask).length ≤ 14 := by
    rw [length_frameHeader]
    split <;> split <;> try split
    all_goals omega
  refine ⟨?_, rfl, ?_⟩
  · have h : (overwrite (Buffer.resized t.writeBufferSize t.writeBuffer.b) 0
        (frameHeader t.incoming opCode n u.writeMask)).take
          (0 + (frameHeader t.incoming opCode n u.writeMask).length) = _ :=
      take_overwrite (Nat.zero_le _)
    rwa [Nat.zero_add] at h
  · refine (Buffer.length_overwrite ?_).trans (Buffer.length_resized _ _)
    rw [Buffer.length_resized]
    show 0 + (frameHeader t.incoming opCode n u.writeMask).length ≤ _
    omega

/-- What the preparation of a frame leaves alone. -/
structure Prepared (t u : WSTransceiver) : Prop where
  incoming : u.incoming = t.incoming
  state : u.state = t.state
  nextState : u.nextState = t.nextState
  closingInitiator : u.closingInitiator = t.closingInitiator
  writeBufferSize : u.writeBufferSize = t.writeBufferSize

variable {u : WSTransceiver}

theorem Prepared.frozen (h : Prepared t u) : u.Frozen ↔ t.Frozen := by
  simp only [Frozen, h.state, h.nextState, h.closingInitiator]

/-- The write buffer holds a control frame. -/
structure Holds (t u : WSTransceiver) (f : Frame) : Prop extends Prepared t u where
  opCode : f.opCode ≠ opData
  writeState : u.writeState = .controlFrame
  writeBuffer : u.writeBuffer = ⟨f.bytes (!t.incoming), 0⟩

theorem holds_controlFrame (hsize : 14 < t.writeBufferSize) (opCode : Nat) (payload : List UInt8)
    (hop : opCode ≠ opData) :
    let u := t.prepareWriteHeader opCode payload.length
    Holds t (u.controlFrame payload) ⟨opCode, true, u.writeMask, payload⟩ := by
  intro u
  obtain ⟨htake, -, -⟩ := prepareWriteHeader_buffer hsize opCode payload.length
  refine ⟨⟨rfl, rfl, rfl, rfl, rfl⟩, hop, rfl, ?_⟩
  show Buffer.mk (u.writeBuffer.b.take u.writeBuffer.i ++ payload) 0 = _
  rw [htake, Frame.bytes, header_eq]

theorem length_bytes (opCode : Nat) (mask mask' : Mask) (payload : List UInt8) :
    ((Frame.mk opCode true mask payload).bytes (!incoming)).length =
      (frameHeader incoming 0 payload.length mask').length + payload.length := by
  rw [Frame.bytes, List.length_append, header_eq, length_frameHeader, length_frameHeader]

/-- Where a control frame is due, one is put into the write buffer. -/
theorem prepareFrame_control (hsize : 14 < t.writeBufferSize) (buf : Buffer)
    (hdue : t.controlDue = true) :
    ∃ u f, t.prepareFrame buf = some u ∧ Holds t u f ∧
      (f.bytes (!t.incoming)).length = t.controlLength := by
  have hopen : t.state ≠ .opened := by
    intro h
    simp [controlDue, closeDue, h] at hdue
  by_cases hping : t.state = .pingPending
  · refine ⟨(t.prepareWriteHeader opPing 0).controlFrame [], _, ?_,
      holds_controlFrame hsize opPing [] (by decide), ?_⟩
    · simp [prepareFrame, hping]
    · simp only [length_bytes t.incoming opPing _ t.writeMask, controlLength, hping, if_true,
        List.length_nil]
  · by_cases hpong : t.state = .pongPending
    · let u := (t.prepareWriteHeader opPong t.pingPayload.length).controlFrame t.pingPayload
      have h := holds_controlFrame hsize opPong t.pingPayload (by decide)
      refine ⟨{ u with pingPayload := [] }, _, ?_,
        ⟨⟨rfl, rfl, rfl, rfl, rfl⟩, h.opCode, rfl, h.writeBuffer⟩, ?_⟩
      · simp [prepareFrame, hpong, u]
      · simp [length_bytes t.incoming opPong _ t.writeMask, controlLength, hpong]
    · have hclose : t.closeDue = true := by
        simpa [controlDue, hping, hpong] using hdue
      let u := t.prepareWriteHeader opClose 2
      let reason := bigEndian 2 t.closingReason
      let payload := if t.incoming then reason else u.writeMask.apply 0 reason
      have hlength : payload.length = 2 := by
        simp only [payload]
        split <;> simp [reason, bigEndian]
      have h := holds_controlFrame hsize opClose payload (by decide)
      rw [hlength] at h
      refine ⟨_, _, ?_, h, ?_⟩
      · simp only [prepareFrame, hopen, hping, hpong, hclose, if_false, if_true]
        rfl
      · rw [length_bytes t.incoming opClose _ t.writeMask, hlength]
        simp only [controlLength, hping, hpong, if_false]

/-- A message begins: a part of it goes into the write buffer behind the header. -/
theorem fillPayload_begin {header : List UInt8}
    (htake : t.writeBuffer.b.take t.writeBuffer.i = header) (hi : t.writeBuffer.i = header.length)
    (hlt : header.length < t.writeBuffer.b.length) (hlength : t.writePayloadLength = 0)
    (hbuf : buf.i = 0) (hnonempty : buf.b ≠ []) :
    ∃ n, 0 < n ∧ n ≤ buf.b.length ∧
      t.fillPayload buf =
        ({ t with
          writePayloadLength := n
          writeBuffer := ⟨header ++ if t.incoming then buf.b.take n
            else t.writeMask.apply 0 (buf.b.take n), 0⟩ },
          if t.incoming then { buf with i := n } else buf) := by
  let bytes := buf.b.take (t.writeBuffer.b.length - t.writeBuffer.i)
  have hpos : 0 < buf.b.length := length_pos_iff.mpr hnonempty
  have hbytes : bytes.length = min (t.writeBuffer.b.length - t.writeBuffer.i) buf.b.length :=
    List.length_take
  have hi' : t.writeBuffer.i ≤ t.writeBuffer.b.length := by omega
  have hend : t.writeBuffer.atEnd = false := by
    simp [atEnd]
    omega
  have hbuf' : buf.b.take bytes.length = bytes := by
    rw [hbytes, List.take_eq_take_iff]
    omega
  refine ⟨bytes.length, by omega, by omega, ?_⟩
  have hfilled (l : List UInt8) :
      (overwrite t.writeBuffer.b t.writeBuffer.i l).take (t.writeBuffer.i + l.length) =
        header ++ l := by
    rw [take_overwrite hi', htake]
  cases hincoming : t.incoming
  · have hfilled := hfilled (t.writeMask.apply 0 bytes)
    simp only [fillPayload, hincoming, hlength, hend, hbuf, hbuf']
    simp [bytes] at hfilled ⊢
    exact hfilled
  · have hfilled := hfilled bytes
    simp only [fillPayload, hincoming, hlength, hend, hbuf, hbuf']
    simp [bytes] at hfilled ⊢
    exact hfilled

/-- The next part of a masked message goes into the write buffer. -/
theorem fillPayload_refill (hincoming : t.incoming = false) (hend : t.writeBuffer.atEnd = true) :
    let bytes := (buf.b.drop buf.i).take t.writeBuffer.b.length
    t.fillPayload buf =
      ({ t with
        writePayloadLength := buf.i + bytes.length
        writeBuffer := ⟨t.writeMask.apply buf.i bytes, 0⟩ }, buf) := by
  intro bytes
  have hfilled : (overwrite t.writeBuffer.b 0 (t.writeMask.apply buf.i bytes)).take
      (0 + (t.writeMask.apply buf.i bytes).length) = _ := take_overwrite (Nat.zero_le _)
  simp only [fillPayload, hincoming, hend]
  simpa [bytes] using hfilled

theorem fillPayload_keep (hlength : 0 < t.writePayloadLength)
    (hend : t.incoming = false → t.writeBuffer.atEnd = false) : t.fillPayload buf = (t, buf) := by
  have hne : t.writePayloadLength ≠ 0 := by omega
  cases hincoming : t.incoming
  · simp [fillPayload, hincoming, hend hincoming, hne]
  · simp [fillPayload, hincoming, hne]

/-- The state in which the transport is called, if it is called at all. If it takes `n` bytes or
more, then `write` does not give up in the middle of a message. -/
inductive Ready (t : WSTransceiver) (buf : Buffer) (wire : List UInt8)
    (written : List (List UInt8)) (n : Nat) : Bool → Prop
  | idle {frames : List Frame} (hstate : t.writeState = .header)
      (hwire : wire = wireOf (!t.incoming) frames)
      (hbetween : Between t t.Frozen buf (messages (!t.incoming) frames) written)
      (hdue : t.controlDue = false) (hgoes : buf.finished ∨ t.waits t.state = true) :
      Ready t buf wire written n false
  | control {frames : List Frame} (hcontrol : t.Control buf frames written)
      (hend : t.writeBuffer.i < t.writeBuffer.b.length)
      (hwire : wire ++ t.writeBuffer.rest = wireOf (!t.incoming) frames)
      (hgoes : buf.finished ∨ t.blocked = false ∨ n < t.writeBuffer.rest.length) :
      Ready t buf wire written n true
  | sending {frames : List Frame} (hsending : t.Sending buf frames written)
      (hend : t.incoming = false → t.writeBuffer.atEnd = false)
      (hwire : wire ++ (t.writeBuffer.rest ++ t.tail buf) = wireOf (!t.incoming) frames)
      (hgoes : t.state = .opened ∨ t.waits t.state = true ∨ t.sent buf = buf.b.length ∨
        t.writeBuffer.atEnd = true ∨ n < t.writeBuffer.rest.length) :
      Ready t buf wire written n true

theorem length_bytes_pos (f : Frame) : 0 < (f.bytes masked).length := by
  simp [Frame.bytes, Frame.header]

variable {p : Frame → Prop}

theorem endsIn_append {f : Frame} (hf : p f)
    (frames : List Frame) : EndsIn masked p (frames ++ [f]) (f.bytes masked) :=
  ⟨f, by simp, hf, List.suffix_refl _⟩

theorem not_givesUp_header (hstate : t.writeState = .header) (h : ¬ t.givesUp buf n) :
    buf.finished ∨ t.state = .opened ∨
      if t.controlDue then t.blocked = false ∨ n < t.controlLength
      else t.waits t.state = true := by
  by_cases hf : buf.finished
  · exact .inl hf
  · by_cases ho : t.state = .opened
    · exact .inr (.inl ho)
    · refine .inr (.inr ?_)
      simp only [Buffer.finished, not_or] at hf
      cases hdue : t.controlDue
      · simpa [givesUp, hstate, hf.1, hf.2, ho, hdue, atEnd] using h
      · simp [givesUp, hstate, hf.1, hf.2, ho, hdue, atEnd] at h ⊢
        cases hb : t.blocked
        · exact .inl rfl
        · exact .inr (h hb)

/-- A control frame begins. -/
theorem ready_controlFrame (hs : t.Sound) (hstate : t.writeState = .header)
    (hbetween : Between t t.Frozen buf (messages (!t.incoming) frames) written)
    (hdue : t.controlDue = true) (hgoes : buf.finished ∨ t.blocked = false ∨ n < t.controlLength) :
    ∃ u, t.preWrite buf = (true, u, buf) ∧ u.Sound ∧
      u.Ready buf (wireOf (!t.incoming) frames) written n true := by
  obtain ⟨u, f, hu, hf, hlength⟩ := prepareFrame_control hs.size buf hdue
  have hopen : t.state ≠ .opened := by
    intro h
    simp [controlDue, closeDue, h] at hdue
  have hpos := length_bytes_pos (!t.incoming) f
  have hrest : u.writeBuffer.rest = f.bytes (!t.incoming) := by
    rw [hf.writeBuffer]
    rfl
  refine ⟨{ u with writePayloadLength := 0 }, ?_, ⟨?_, fun _ _ => .inl rfl⟩, ?_⟩
  · have hend : u.writeBuffer.atEnd = false := by
      simp only [hf.writeBuffer, atEnd, decide_eq_false_iff_not]
      omega
    simp [preWrite, hstate, hu, hf.writeState, hend]
  · show 14 < u.writeBufferSize
    rw [hf.writeBufferSize]
    exact hs.size
  · have hmessages : messages (!t.incoming) (frames ++ [f]) = messages (!t.incoming) frames := by
      rw [messages_append, messages_control _ hf.opCode, append_nil]
    have hcontrol : Control { u with writePayloadLength := 0 } buf (frames ++ [f]) written := by
      refine ⟨hf.writeState, ?_, rfl, ?_, ?_, ?_⟩
      · show u.state ≠ .opened
        rw [hf.state]
        exact hopen
      · show u.writeBuffer.i ≤ u.writeBuffer.b.length
        simp [hf.writeBuffer]
      · show EndsIn (!u.incoming) _ _ u.writeBuffer.rest
        rw [hf.incoming, hrest]
        exact endsIn_append _ hf.opCode frames
      · show Between _ _ buf (messages (!u.incoming) _) written
        rw [hf.incoming, hmessages]
        cases hbetween with
        | waiting hsent hbuf => exact .waiting hsent hbuf
        | lost hsent hfrozen =>
          refine .lost hsent ⟨hf.frozen.mpr hfrozen, ?_⟩
          show u.closingInitiator = true
          rw [hf.closingInitiator]
          simpa [controlDue, closeDue, hfrozen.1] using hdue
        | complete hsent hnonempty hend _ =>
          exact .complete hsent hnonempty hend fun _ => .inl rfl
    refine .control hcontrol ?_ ?_ ?_
    · show u.writeBuffer.i < u.writeBuffer.b.length
      simp only [hf.writeBuffer]
      exact hpos
    · show _ ++ u.writeBuffer.rest = wireOf (!u.incoming) _
      rw [hf.incoming, hrest]
      simp
    · show _ ∨ WSTransceiver.blocked { u with writePayloadLength := 0 } = false ∨
        n < u.writeBuffer.rest.length
      rw [hrest, hlength]
      have hblocked : WSTransceiver.blocked { u with writePayloadLength := 0 } = t.blocked := by
        simp only [WSTransceiver.blocked, closeDue, waits, hf.state, hf.nextState,
          hf.closingInitiator]
      rw [hblocked]
      exact hgoes

/-- A data frame begins. -/
theorem ready_message (hs : t.Sound) (hstate : t.writeState = .header)
    (hsent : messages (!t.incoming) frames = written) (hopen : t.state = .opened)
    (hnonempty : buf.b ≠ []) (hbuf : buf.i = 0) :
    ∃ u buf', t.preWrite buf = (true, u, buf') ∧ u.Sound ∧ buf'.b = buf.b ∧
      u.Ready buf' (wireOf (!t.incoming) frames) written n true := by
  let u : WSTransceiver :=
    { t.prepareWriteHeader opData buf.b.length with
      writeState := .payload
      writePayloadLength := 0 }
  obtain ⟨htake, hi, hlength⟩ := prepareWriteHeader_buffer hs.size opData buf.b.length
  have hpos : 0 < buf.b.length := length_pos_iff.mpr hnonempty
  have hheader : (frameHeader t.incoming opData buf.b.length u.writeMask).length ≤ 14 := by
    rw [length_frameHeader]
    split <;> split <;> try split
    all_goals omega
  have hlt : (frameHeader t.incoming opData buf.b.length u.writeMask).length <
      u.writeBuffer.b.length := by
    show _ < (t.prepareWriteHeader opData buf.b.length).writeBuffer.b.length
    have := hs.size
    omega
  obtain ⟨k, hk, hkle, hfill⟩ : ∃ k, 0 < k ∧ k ≤ buf.b.length ∧ u.fillPayload buf = _ :=
    fillPayload_begin htake hi hlt rfl hbuf hnonempty
  let f := Frame.message (!t.incoming) u.writeMask buf.b
  let v : WSTransceiver := (u.fillPayload buf).1
  let buf' : Buffer := (u.fillPayload buf).2
  have hbuf' : buf' = if t.incoming then { buf with i := k } else buf := congrArg (·.2) hfill
  have hincoming : v.incoming = t.incoming := congrArg (·.1.incoming) hfill
  have hmask : v.writeMask = u.writeMask := congrArg (·.1.writeMask) hfill
  have hcopied : v.writePayloadLength = k := congrArg (·.1.writePayloadLength) hfill
  have hwrite : v.writeBuffer = ⟨frameHeader t.incoming opData buf.b.length u.writeMask ++
      if t.incoming then buf.b.take k else u.writeMask.apply 0 (buf.b.take k), 0⟩ :=
    congrArg (·.1.writeBuffer) hfill
  have hb : buf'.b = buf.b := by
    rw [hbuf']
    split <;> rfl
  have hsentk : v.sent buf' = k := by
    rw [sent, hincoming, hcopied, hbuf']
    cases t.incoming <;> rfl
  -- the header and the parts of the message make up the frame
  have hbytes : v.writeBuffer.rest ++ v.tail buf' = f.bytes (!t.incoming) := by
    have htail : v.tail buf' =
        if t.incoming then buf.b.drop k else u.writeMask.apply k (buf.b.drop k) := by
      rw [tail, hincoming, hmask, hcopied, hbuf']
      cases t.incoming <;> rfl
    have hpayload : f.payload.length = buf.b.length := by
      simp only [f, Frame.message]
      split <;> simp
    have hheader : f.header (!t.incoming) =
        frameHeader t.incoming opData buf.b.length u.writeMask := by
      rw [← hpayload]
      exact header_eq t.incoming opData u.writeMask f.payload
    rw [hwrite, htail, Frame.bytes, hheader, Buffer.rest, List.drop_zero, append_assoc]
    congr 1
    cases hi : t.incoming
    · have happly := u.writeMask.apply_append 0 (buf.b.take k) (buf.b.drop k)
      rw [List.take_append_drop, List.length_take, Nat.min_eq_left hkle, Nat.zero_add] at happly
      simp [f, Frame.message, hi, happly]
    · simp [f, Frame.message, hi]
  have hsending : v.Sending buf' (frames ++ [f]) written := by
    constructor
    · exact congrArg (·.1.writeState) hfill
    · rw [hb]
      exact hnonempty
    · rw [hwrite]
      simp [frameHeader]
    · rw [hwrite]
      exact Nat.zero_le _
    · rw [hcopied]
      exact hk
    · intro hi
      rw [hincoming] at hi
      rw [hbuf', hi]
      exact hk
    · rw [hsentk, hb]
      exact hkle
    · rw [hincoming, hbytes]
      apply endsIn_append
      rfl
    · rw [hincoming, messages_append, messages_message, hsent, hb]
  have hstate' : v.state = .opened := (congrArg (·.1.state) hfill).trans hopen
  refine ⟨v, buf', ?_, ⟨?_, fun h => ?_⟩, hb, .sending hsending ?_ ?_ (.inl hstate')⟩
  · have hprepare : t.prepareFrame buf = some { t.prepareWriteHeader opData buf.b.length with
        writeState := .payload } := by
      have hend : buf.i ≠ buf.b.length := by omega
      simp [prepareFrame, hopen, hnonempty, atEnd, hend]
    simp only [preWrite, hstate, hprepare, if_true, Option.map_some]
    rfl
  · exact (congrArg (·.1.writeBufferSize) hfill).symm ▸ hs.size
  · exact absurd (hstate'.symm.trans h) (by decide)
  · intro _
    rw [hwrite]
    simp [atEnd, frameHeader]
  · rw [hbytes, hincoming]
    simp

/-- More of a message follows. -/
theorem ready_sending (hs : t.Sound) (hsending : t.Sending buf frames written)
    (hend : t.incoming = false → t.writeBuffer.atEnd →
      buf.i = t.writePayloadLength ∧ t.writePayloadLength < buf.b.length)
    (hwire : wire ++ (t.writeBuffer.rest ++ t.tail buf) = wireOf (!t.incoming) frames)
    (hgoes : ¬ t.givesUp buf n) :
    ∃ u, t.preWrite buf = (true, u, buf) ∧ u.Sound ∧ u.Ready buf wire written n true := by
  have hpre : t.preWrite buf = (true, t.fillPayload buf) := by
    simp [preWrite, hsending.writeState]
  have hgoes' : t.state = .opened ∨ t.waits t.state = true ∨ buf.b.length ≤ t.copied buf ∨
      (t.incoming = true ∧ t.writeBuffer.atEnd = true) ∨
      n < if t.writeBuffer.atEnd then
          min t.writeBuffer.b.length (buf.b.length - t.writePayloadLength)
        else t.writeBuffer.rest.length := by
    simp [givesUp, hsending.writeState, hsending.nonempty] at hgoes
    grind
  by_cases hfill : t.incoming = false ∧ t.writeBuffer.atEnd = true
  · obtain ⟨hincoming, hatEnd⟩ := hfill
    obtain ⟨hi, hlt⟩ := hend hincoming hatEnd
    let bytes := (buf.b.drop buf.i).take t.writeBuffer.b.length
    have hbytes : bytes.length = min t.writeBuffer.b.length (buf.b.length - buf.i) := by
      simp [bytes]
    have hsize : 0 < t.writeBuffer.b.length := length_pos_iff.mpr hsending.filled
    let v : WSTransceiver := (t.fillPayload buf).1
    have hfill : t.fillPayload buf = _ := fillPayload_refill hincoming hatEnd
    have hincoming' : v.incoming = false := (congrArg (·.1.incoming) hfill).trans hincoming
    have hstate : v.state = t.state := congrArg (·.1.state) hfill
    have hmask : v.writeMask = t.writeMask := congrArg (·.1.writeMask) hfill
    have hcopied : v.writePayloadLength = buf.i + bytes.length :=
      congrArg (·.1.writePayloadLength) hfill
    have hwrite : v.writeBuffer = ⟨t.writeMask.apply buf.i bytes, 0⟩ :=
      congrArg (·.1.writeBuffer) hfill
    have hrest : v.writeBuffer.rest = t.writeMask.apply buf.i bytes := by
      rw [hwrite]
      rfl
    -- what was to follow is cut in two
    have hcut : v.writeBuffer.rest ++ v.tail buf = t.writeBuffer.rest ++ t.tail buf := by
      have hempty : t.writeBuffer.rest = [] :=
        (rest_eq_nil hsending.valid).mpr hatEnd
      have hparts : bytes ++ buf.b.drop (buf.i + bytes.length) = buf.b.drop buf.i := by
        rw [← drop_drop]
        exact List.prefix_iff_eq_append.mp (List.take_prefix _ _)
      rw [hempty, hrest, tail, tail, hincoming', hincoming, hmask, hcopied, ← hi,
        nil_append]
      show t.writeMask.apply buf.i bytes ++ t.writeMask.apply (buf.i + bytes.length) _ =
        t.writeMask.apply buf.i (buf.b.drop buf.i)
      rw [← Mask.apply_append, hparts]
    have hsent : v.sent buf = buf.i + bytes.length := by
      rw [sent, hincoming', hcopied]
      rfl
    have hsending' : v.Sending buf frames written := by
      constructor
      · exact (congrArg (·.1.writeState) hfill).trans hsending.writeState
      · exact hsending.nonempty
      · rw [hwrite]
        apply List.ne_nil_of_length_pos
        rw [Mask.length_apply]
        omega
      · rw [hwrite]
        exact Nat.zero_le _
      · rw [hcopied]
        omega
      · rw [hincoming']
        exact fun h => absurd h (by decide)
      · rw [hsent]
        omega
      · rw [hincoming', hcut, ← hincoming]
        exact hsending.last
      · rw [hincoming', ← hincoming]
        exact hsending.carried
    refine ⟨v, ?_, ⟨?_, ?_⟩, .sending hsending' ?_ ?_ ?_⟩
    · rw [hpre, hfill]
      exact congrArg (fun r => (true, r.1, buf)) hfill.symm
    · exact (congrArg (·.1.writeBufferSize) hfill).symm ▸ hs.size
    · intro hresponse hinit
      right
      rcases hs.settled (hstate.symm.trans hresponse)
        ((congrArg (·.1.closingInitiator) hfill).symm.trans hinit) with h | h
      · exact absurd h (Nat.pos_iff_ne_zero.mp hsending.begun)
      · exact (congrArg (·.1.nextState) hfill).trans h
    · intro _
      simp only [hwrite, atEnd, Mask.length_apply, decide_eq_false_iff_not]
      omega
    · rw [hcut, hincoming', ← hincoming]
      exact hwire
    · have hwaits : v.waits v.state = t.waits t.state :=
        congrArg (fun r => r.1.waits r.1.state) hfill
      rw [hstate, ← hstate, hwaits, hstate, hsent, hrest, Mask.length_apply, hbytes]
      simp only [copied, hincoming, hatEnd, ← hi] at hgoes'
      grind
  · have hend' : t.incoming = false → t.writeBuffer.atEnd = false := by
      intro hincoming
      simpa [hincoming] using hfill
    rw [fillPayload_keep hsending.begun hend'] at hpre
    refine ⟨t, hpre, hs, .sending hsending hend' hwire ?_⟩
    have hbound := hsending.bound
    rcases hgoes' with h | h | h | h | h
    · exact .inl h
    · exact .inr (.inl h)
    · refine .inr (.inr (.inl (Nat.le_antisymm hbound ?_)))
      rw [copied] at h
      rw [sent]
      grind
    · exact .inr (.inr (.inr (.inl h.2)))
    · cases hatEnd : t.writeBuffer.atEnd
      · rw [hatEnd] at h
        exact .inr (.inr (.inr (.inr h)))
      · exact .inr (.inr (.inr (.inl rfl)))

/-- Nothing begins where no control frame is due and no message may begin. -/
theorem prepareFrame_none (hdue : t.controlDue = false) (hgoes : t.state = .opened → buf.finished) :
    t.prepareFrame buf = none := by
  simp only [controlDue, Bool.or_eq_false_iff, decide_eq_false_iff_not] at hdue
  unfold prepareFrame
  split
  · rename_i hopen
    rw [if_pos ((Buffer.finished_iff buf).mpr (hgoes hopen))]
  · simp [hdue.1.1, hdue.1.2, hdue.2]

/-- What `preWrite` gets ready. -/
theorem preWrite_ready (h : t.Standing buf wire written) (hgoes : ¬ t.givesUp buf n) :
    ∃ ready u buf', t.preWrite buf = (ready, u, buf') ∧ u.Sound ∧ buf'.b = buf.b ∧
      u.Ready buf' wire written n ready := by
  obtain ⟨hs, frames, rest, hwire, hp⟩ := h
  cases hp with
  | header hstate hbetween =>
    rw [append_nil] at hwire
    subst hwire
    have hgoes := not_givesUp_header hstate hgoes
    cases hdue : t.controlDue
    · rw [hdue] at hgoes
      by_cases hbegins : t.state = .opened ∧ ¬ buf.finished
      · obtain ⟨hopen, hfinished⟩ := hbegins
        simp only [Buffer.finished, not_or] at hfinished
        have hwaiting : messages (!t.incoming) frames = written ∧ buf.i = 0 := by
          cases hbetween with
          | waiting hsent hbuf => exact ⟨hsent, hbuf.resolve_left hfinished.1⟩
          | lost _ hfrozen => exact absurd (hopen.symm.trans hfrozen.1) (by decide)
          | complete _ _ hend _ => exact absurd hend hfinished.2
        obtain ⟨u, buf', hu, hsu, hb, hr⟩ :=
          ready_message hs hstate hwaiting.1 hopen hfinished.1 hwaiting.2
        exact ⟨true, u, buf', hu, hsu, hb, hr⟩
      · have hopen : t.state = .opened → buf.finished := by
          intro hopen
          exact Classical.byContradiction fun hf => hbegins ⟨hopen, hf⟩
        refine ⟨false, t, buf, ?_, hs, rfl, .idle hstate rfl hbetween hdue ?_⟩
        · simp [preWrite, hstate, prepareFrame_none hdue hopen]
        · rcases hgoes with h | h | h
          · exact .inl h
          · exact .inl (hopen h)
          · exact .inr h
    · rw [hdue] at hgoes
      have hgoes : buf.finished ∨ t.blocked = false ∨ n < t.controlLength := by
        rcases hgoes with h | h | h
        · exact .inl h
        · simp [controlDue, closeDue, h] at hdue
        · exact .inr h
      obtain ⟨u, hu, hsu, hr⟩ := ready_controlFrame hs hstate hbetween hdue hgoes
      exact ⟨true, u, buf, hu, hsu, rfl, hr⟩
  | control hcontrol hend =>
    refine ⟨true, t, buf, ?_, hs, rfl, .control hcontrol hend hwire ?_⟩
    · have hatEnd : t.writeBuffer.atEnd = false := by
        simp only [atEnd, decide_eq_false_iff_not]
        omega
      simp [preWrite, hcontrol.writeState, hatEnd]
    · by_cases hf : buf.finished
      · exact .inl hf
      · right
        simp only [Buffer.finished, not_or] at hf
        simp [givesUp, hcontrol.writeState, hf.1, hf.2, atEnd] at hgoes
        cases hb : t.blocked
        · exact .inl rfl
        · exact .inr (hgoes hb)
  | sending hsending hend =>
    obtain ⟨u, hu, hsu, hr⟩ := ready_sending hs hsending hend hwire hgoes
    exact ⟨true, u, buf, hu, hsu, rfl, hr⟩

/-- How a call of `write` ends. -/
def Ending (t : WSTransceiver) (buf : Buffer) (wire : List UInt8)
    (written : List (List UInt8)) : Except WSException SocketOperation → Prop
  | .ok op =>
    if op = .none then
      (buf.b ≠ [] → buf.atEnd) ∧
        t.Standing {} wire (written ++ if buf.b = [] then [] else [buf.b])
    else t.Standing buf wire written
  | .error _ =>
    ∃ frames, wire = wireOf (!t.incoming) frames ∧
      (messages (!t.incoming) frames = written ∨
        (buf.b ≠ [] ∧ messages (!t.incoming) frames = written ++ [buf.b]))

/-- A round comes to its end. -/
def RoundEnd (buf : Buffer) (wire : List UInt8) (written : List (List UInt8)) :
    Bool × WSTransceiver × Buffer → Prop
  | (true, t, buf') =>
    buf'.b = buf.b ∧ t.Standing buf' wire written ∧ ∀ n, ¬ t.givesUp buf' n
  | (false, t, buf') => buf'.b = buf.b ∧ t.Ending buf' wire written (.ok t.writeResult)

/-- Where the last part of `postWrite` finds the message. -/
def reached (t : WSTransceiver) (buf : Buffer) : Buffer :=
  if (!t.incoming || buf.i = 0) && 0 < t.writePayloadLength && t.writeBuffer.atEnd then
    { buf with i := t.writePayloadLength }
  else buf

@[simp] theorem reached_b (t : WSTransceiver) (buf : Buffer) : (t.reached buf).b = buf.b := by
  unfold reached
  split <;> rfl

theorem endRound_eq (t : WSTransceiver) (buf : Buffer) :
    t.endRound buf =
      if (t.reached buf).b.isEmpty || (t.reached buf).atEnd then
        (t.controlDue, { t with writeState := .header }, t.reached buf)
      else (t.state = .opened, t, t.reached buf) := rfl

theorem not_givesUp_of_finished (hstate : t.writeState = .header) (h : buf.finished) (n : Nat) :
    ¬ t.givesUp buf n := by
  rcases h with h | h
  · simp [givesUp, h]
  · simp [givesUp, hstate, atEnd, h]

theorem controlDue_of_lost (hfrozen : t.Frozen) (hwaits : t.waits t.state = false) :
    t.controlDue = true := by
  simpa [controlDue, closeDue, waits, hfrozen.1] using hwaits

/-- A message is complete, or not begun: the round may end. -/
theorem Between.roundEnd {buf' : Buffer} (hs : t.Sound) (hstate : t.writeState = .header)
    (hwire : wire = wireOf (!t.incoming) frames)
    (hbetween : Between t t.Frozen buf' (messages (!t.incoming) frames) written)
    (hb : buf'.b = buf.b) (hgoes : buf'.finished ∨ t.state = .opened ∨ t.waits t.state = true) :
    RoundEnd buf wire written
      (if buf'.b.isEmpty || buf'.atEnd then (t.controlDue, { t with writeState := .header }, buf')
        else (t.state = .opened, t, buf')) := by
  have ht : { t with writeState := .header } = t := by rw [← hstate]
  have hstanding : t.Standing buf' wire written :=
    ⟨hs, frames, [], by rw [append_nil, hwire], .header hstate hbetween⟩
  rw [ht]
  split
  · rename_i hf
    rw [Buffer.finished_iff] at hf
    cases hdue : t.controlDue
    · refine ⟨hb, ?_⟩
      cases hwaits : t.waits t.state
      · simp only [Ending, writeResult, hwaits, if_true, Bool.false_eq_true, if_false]
        constructor
        · intro hnonempty
          simpa [atEnd] using hf.resolve_left hnonempty
        · refine ⟨hs, frames, [], by rw [append_nil, hwire],
            .header hstate (.waiting ?_ (.inl rfl))⟩
          cases hbetween with
          | waiting hsent hbuf =>
            have hempty : buf'.b = [] := by
              rcases hbuf with h | h
              · exact h
              · rcases hf with h' | h'
                · exact h'
                · exact List.length_eq_zero_iff.mp (h'.symm.trans h)
            rw [if_pos hempty, append_nil, hsent]
          | lost _ hfrozen =>
            rw [controlDue_of_lost hfrozen hwaits] at hdue
            cases hdue
          | complete hsent hnonempty _ _ => rw [if_neg hnonempty, hsent]
      · simp only [Ending, writeResult, hwaits, if_true]
        exact hstanding
    · exact ⟨hb, hstanding, not_givesUp_of_finished hstate hf⟩
  · rename_i hf
    rw [Buffer.finished_iff] at hf
    by_cases hopen : t.state = .opened
    · simp only [hopen, decide_true]
      refine ⟨hb, hstanding, fun n => ?_⟩
      simp [givesUp, hstate, hopen]
    · have hwaits : t.waits t.state = true := (hgoes.resolve_left hf).resolve_left hopen
      simp only [hopen, decide_false]
      refine ⟨hb, ?_⟩
      simp only [Ending, writeResult, hwaits, if_true]
      exact hstanding

/-- Where no data frame is being sent, `postWrite` does not come upon the middle of a message. -/
theorem Between.endRound {stale : Prop} (hs : t.Sound) (hstate : t.writeState = .header)
    (hwire : wire = wireOf (!t.incoming) frames)
    (hbetween : Between t stale buf (messages (!t.incoming) frames) written)
    (hstale : stale → t.Frozen ∧ t.closingInitiator = false)
    (hgoes : buf.finished ∨ (t.state = .opened ∧ t.writePayloadLength = 0) ∨
      t.waits t.state = true) : RoundEnd buf wire written (t.endRound buf) := by
  rw [endRound_eq]
  have hempty : buf.b = [] → (t.reached buf).b = [] := fun h => (reached_b t buf).trans h
  cases hbetween with
  | waiting hsent hbuf =>
    by_cases hb : buf.b = []
    · exact Between.roundEnd hs hstate hwire (.waiting hsent (.inl (hempty hb))) (reached_b t buf)
        (.inl (.inl (hempty hb)))
    · have hi : buf.i = 0 := hbuf.resolve_left hb
      have hf : ¬ buf.finished := by
        have := length_pos_iff.mpr hb
        simp only [Buffer.finished, hb, false_or]
        omega
      have hgoes := hgoes.resolve_left hf
      by_cases hlength : t.writePayloadLength = 0
      · have hreached : t.reached buf = buf := by simp [reached, hlength]
        refine Between.roundEnd hs hstate hwire ?_ (reached_b t buf) (.inr ?_)
        · rw [hreached]
          exact .waiting hsent hbuf
        · exact hgoes.imp_left (·.1)
      · have hwaits : t.waits t.state = true := hgoes.resolve_left fun h => hlength h.2
        have hw := hwaits
        simp only [waits, Bool.and_eq_true, decide_eq_true_eq, Bool.not_eq_true'] at hw
        have hnext := (hs.settled hw.1 hw.2).resolve_left hlength
        have hfrozen : t.Frozen := ⟨hw.1, by simp [hw.2, hnext]⟩
        exact Between.roundEnd hs hstate hwire (.lost hsent hfrozen) (reached_b t buf)
          (.inr (.inr hwaits))
  | lost hsent h =>
    obtain ⟨hfrozen, hinit⟩ := hstale h
    exact Between.roundEnd hs hstate hwire (.lost hsent hfrozen) (reached_b t buf)
      (.inr (.inr (by simp [waits, hfrozen.1, hinit])))
  | complete hsent hnonempty hend hlength =>
    have hi : (t.reached buf).i = (t.reached buf).b.length := by
      have := length_pos_iff.mpr hnonempty
      rw [reached_b]
      unfold reached
      split
      · rename_i h
        simp only [Bool.and_eq_true, Bool.or_eq_true, Bool.not_eq_true', decide_eq_true_eq] at h
        have hincoming : t.incoming = false := h.1.1.resolve_right (by omega)
        have := h.1.2
        exact (hlength hincoming).resolve_left (by omega)
      · exact hend
    refine Between.roundEnd hs hstate hwire (.complete ?_ ?_ hi ?_) (reached_b t buf)
      (.inl (.inr hi))
    · rw [reached_b, hsent]
    · rw [reached_b]
      exact hnonempty
    · rw [reached_b]
      exact hlength

/-- After a part of a message, the loop goes on or the message is complete. -/
theorem Sending.endRound (hs : t.Sound) (hsending : t.Sending buf frames written)
    (hend : t.writeBuffer.i = t.writeBuffer.b.length)
    (hwire : wire ++ t.tail buf = wireOf (!t.incoming) frames)
    (hgoes : t.state = .opened ∨ t.waits t.state = true ∨ t.sent buf = buf.b.length) :
    RoundEnd buf wire written (t.endRound buf) := by
  have hbegun := hsending.begun
  have hatEnd : t.writeBuffer.atEnd = true := by simp [atEnd, hend]
  have hi : (t.reached buf).i = t.sent buf := by
    cases hincoming : t.incoming
    · simp [reached, sent, hincoming, hatEnd, hbegun]
    · have := hsending.copied hincoming
      have hne : buf.i ≠ 0 := by omega
      simp [reached, sent, hincoming, hne]
  have hsent : t.sent (t.reached buf) = t.sent buf := by
    cases hincoming : t.incoming
    · simp [sent, hincoming]
    · rw [← hi, sent, hincoming, if_pos rfl]
  have htail : t.tail (t.reached buf) = t.tail buf := by
    cases hincoming : t.incoming
    · simp [tail, hincoming]
    · simp only [tail, hincoming, if_true, Buffer.rest, reached_b, hi, sent]
  rw [endRound_eq]
  by_cases hcomplete : t.sent buf = buf.b.length
  · let u : WSTransceiver := { t with writeState := .header }
    have hfinished : (t.reached buf).finished := .inr (by rw [hi, hcomplete, reached_b])
    have hwire' : wire = wireOf (!t.incoming) frames := by
      have hempty : t.tail buf = [] := by
        cases hincoming : t.incoming
        · simp only [sent, hincoming, Bool.false_eq_true, if_false] at hcomplete
          simp [tail, hincoming, hcomplete, Mask.apply]
        · simp only [sent, hincoming, if_true] at hcomplete
          simp [tail, hincoming, Buffer.rest, hcomplete]
      rwa [hempty, append_nil] at hwire
    have hbetween : Between u u.Frozen (t.reached buf) (messages (!u.incoming) frames) written := by
      refine .complete ?_ ?_ ?_ ?_
      · rw [reached_b]
        exact hsending.carried
      · rw [reached_b]
        exact hsending.nonempty
      · rw [hi, reached_b, hcomplete]
      · intro hincoming
        right
        rw [reached_b, ← hcomplete, sent]
        simp only [u] at hincoming ⊢
        rw [hincoming]
        rfl
    have hround := Between.roundEnd (t := u) ⟨hs.size, hs.settled⟩ rfl hwire' hbetween
      (reached_b t buf) (.inl hfinished)
    rw [if_pos ((Buffer.finished_iff _).mpr hfinished)] at hround ⊢
    exact hround
  · have hfinished : ¬ (t.reached buf).finished := by
      simp only [Buffer.finished, not_or, reached_b, hi]
      exact ⟨hsending.nonempty, hcomplete⟩
    rw [if_neg fun h => hfinished ((Buffer.finished_iff _).mp h)]
    have hsending' : t.Sending (t.reached buf) frames written := by
      refine ⟨hsending.writeState, ?_, hsending.filled, hsending.valid, hsending.begun, ?_, ?_, ?_,
        ?_⟩
      · rw [reached_b]
        exact hsending.nonempty
      · intro hincoming
        have := hsending.copied hincoming
        rw [hi, sent, hincoming, if_pos rfl]
        exact this
      · rw [hsent, reached_b]
        exact hsending.bound
      · rw [htail]
        exact hsending.last
      · rw [reached_b]
        exact hsending.carried
    have hstanding : t.Standing (t.reached buf) wire written := by
      have hempty : t.writeBuffer.rest = [] := (rest_eq_nil hsending.valid).mpr hatEnd
      refine ⟨hs, frames, t.writeBuffer.rest ++ t.tail (t.reached buf), ?_,
        .sending hsending' ?_⟩
      · rw [hempty, htail, nil_append, hwire]
      · intro hincoming _
        have hbound := hsending.bound
        rw [hi, reached_b]
        simp only [sent, hincoming, Bool.false_eq_true, if_false] at hcomplete hbound ⊢
        exact ⟨trivial, by omega⟩
    by_cases hopen : t.state = .opened
    · simp only [hopen, decide_true]
      refine ⟨reached_b t buf, hstanding, fun n => ?_⟩
      simp [givesUp, hsending.writeState, hopen]
    · have hwaits : t.waits t.state = true :=
        (hgoes.resolve_left hopen).resolve_right hcomplete
      simp only [hopen, decide_false]
      refine ⟨reached_b t buf, ?_⟩
      simp only [Ending, writeResult, hwaits, if_true]
      exact hstanding

/-- What a call of the transport leads to. -/
def RoundOutcome (buf : Buffer) (wire : List UInt8) (written : List (List UInt8)) :
    List UInt8 × Option SocketOperation × WSTransceiver × Buffer → Prop
  | (bytes, some op, t, buf') =>
    op ≠ .none ∧ buf'.b = buf.b ∧ t.Standing buf' (wire ++ bytes) written
  | (bytes, none, t, buf') =>
    match t.postWrite buf' with
    | .error ex => buf'.b = buf.b ∧ t.Ending buf' (wire ++ bytes) written (.error ex)
    | .ok r => RoundEnd buf (wire ++ bytes) written r

/-- The write buffer, after so many more of its bytes were taken. -/
def advance (t : WSTransceiver) (k : Nat) : WSTransceiver :=
  { t with writeBuffer := ⟨t.writeBuffer.b, t.writeBuffer.i + k⟩ }

theorem rest_advance (t : WSTransceiver) (k : Nat) :
    (t.advance k).writeBuffer.rest = t.writeBuffer.rest.drop k := by
  simp [advance, Buffer.rest, drop_drop]

theorem blocked_ne_none (a : Acceptance) : a.blocked ≠ .none := by
  unfold Acceptance.blocked
  split <;> decide

/-- The transport takes a part of the write buffer or all of it. -/
theorem offer_writeBuffer (buf : Buffer) (a : Acceptance)
    (hend : t.writeBuffer.i < t.writeBuffer.b.length) :
    t.offer buf true a =
      if a.taken < t.writeBuffer.rest.length then
        (t.writeBuffer.rest.take a.taken, some a.blocked, t.advance a.taken, buf)
      else
        (t.writeBuffer.rest, none, t.advance t.writeBuffer.rest.length, buf) := by
  have hlength : t.writeBuffer.rest.length = t.writeBuffer.b.length - t.writeBuffer.i := by
    simp [Buffer.rest]
  by_cases hlt : a.taken < t.writeBuffer.rest.length
  · have hne : ¬ t.writeBuffer.i + a.taken = t.writeBuffer.b.length := by omega
    rw [if_pos hlt]
    simp [offer, advance, atEnd, Nat.ne_of_lt hend, Nat.min_eq_left (Nat.le_of_lt hlt), hne]
  · have hle : t.writeBuffer.rest.length ≤ a.taken := by omega
    have heq : t.writeBuffer.i + t.writeBuffer.rest.length = t.writeBuffer.b.length := by omega
    rw [if_neg hlt]
    simp [offer, advance, atEnd, Nat.ne_of_lt hend, heq, List.take_of_length_le hle]

/-- A part of what is to follow in a frame is on the wire. -/
theorem EndsIn.drop {masked : Bool}
    (h : EndsIn masked p frames rest) (k : Nat) : EndsIn masked p frames (rest.drop k) := by
  obtain ⟨f, hf, hp, hsuffix⟩ := h
  exact ⟨f, hf, hp, (List.drop_suffix k rest).trans hsuffix⟩

theorem Control.advance (h : t.Control buf frames written) {k : Nat}
    (hk : k ≤ t.writeBuffer.rest.length) : (t.advance k).Control buf frames written where
  writeState := h.writeState
  state := h.state
  length := h.length
  valid := by
    have hvalid := h.valid
    simp only [Buffer.rest, List.length_drop] at hk
    simp only [WSTransceiver.advance]
    omega
  last := by
    rw [rest_advance]
    exact h.last.drop k
  between := h.between.hears rfl rfl id

theorem Sending.advance (h : t.Sending buf frames written) {k : Nat}
    (hk : k ≤ t.writeBuffer.rest.length) : (t.advance k).Sending buf frames written where
  writeState := h.writeState
  nonempty := h.nonempty
  filled := h.filled
  valid := by
    have hvalid := h.valid
    simp only [Buffer.rest, List.length_drop] at hk
    simp only [WSTransceiver.advance]
    omega
  begun := h.begun
  copied := h.copied
  bound := h.bound
  last := by
    have hlast := h.last.drop k
    rw [List.drop_append_of_le_length hk] at hlast
    rw [rest_advance]
    exact hlast
  carried := h.carried

theorem sound_advance (h : t.Sound) (k : Nat) : (t.advance k).Sound :=
  ⟨h.size, h.settled⟩

/-- What `postWrite` does at the end of a control frame. -/
theorem postWrite_control (hstate : t.state ≠ .opened) (hwrite : t.writeState = .controlFrame)
    (hend : t.writeBuffer.i = t.writeBuffer.b.length) :
    t.postWrite buf =
      if t.closeDue then
        if t.state = .closingRequestPending && !t.closingInitiator then
          .ok (false, { t with writeState := .header, state := .closingResponsePending }, buf)
        else .error .connectionLostException
      else
        .ok ({ t with
          state := t.nextState
          nextState := .opened
          writeState := .header }.endRound buf) := by
  simp [postWrite, hstate, hwrite, atEnd, hend]

/-- A control frame is complete. -/
theorem Control.postWrite (hs : t.Sound) (h : t.Control buf frames written)
    (hend : t.writeBuffer.i = t.writeBuffer.b.length) (hwire : wire = wireOf (!t.incoming) frames)
    (hgoes : buf.finished ∨ t.blocked = false) :
    match t.postWrite buf with
    | .error ex => t.Ending buf wire written (.error ex)
    | .ok r => RoundEnd buf wire written r := by
  rw [postWrite_control h.state h.writeState hend]
  cases hdue : t.closeDue
  · let u : WSTransceiver :=
      { t with state := t.nextState, nextState := .opened, writeState := .header }
    have hbetween : Between u False buf (messages (!u.incoming) frames) written :=
      h.between.hears rfl rfl fun ⟨hfrozen, hinit⟩ => by
        simp [closeDue, hfrozen.1, hinit] at hdue
    refine Between.endRound (t := u) ⟨hs.size, fun _ _ => .inl h.length⟩ rfl hwire hbetween
      False.elim ?_
    refine hgoes.imp_right fun hblocked => ?_
    by_cases hopen : t.nextState = .opened
    · exact .inl ⟨hopen, h.length⟩
    · have hwaits : t.waits t.nextState = true := by simpa [blocked, hdue, hopen] using hblocked
      exact .inr hwaits
  · have hmessages : ∀ {stale : Prop}, Between t stale buf (messages (!t.incoming) frames) written →
        messages (!t.incoming) frames = written ∨
          (buf.b ≠ [] ∧ messages (!t.incoming) frames = written ++ [buf.b]) := by
      intro stale hb
      cases hb with
      | waiting hsent _ => exact .inl hsent
      | lost hsent _ => exact .inl hsent
      | complete hsent hnonempty _ _ => exact .inr ⟨hnonempty, hsent⟩
    by_cases hrequest : t.state = .closingRequestPending ∧ t.closingInitiator = false
    · let u : WSTransceiver := { t with writeState := .header, state := .closingResponsePending }
      have hbetween : Between u u.Frozen buf (messages (!u.incoming) frames) written :=
        h.between.hears rfl rfl fun ⟨hfrozen, _⟩ =>
          absurd (hrequest.1.symm.trans hfrozen.1) (by decide)
      have hstanding : u.Standing buf wire written :=
        ⟨⟨hs.size, fun _ _ => .inl h.length⟩, frames, [],
          by rw [append_nil]; exact hwire, .header rfl hbetween⟩
      have hresult : u.writeResult = .onRead := by simp [writeResult, waits, u, hrequest.2]
      rw [if_pos rfl, if_pos (by simp [hrequest.1, hrequest.2])]
      refine ⟨rfl, ?_⟩
      show u.Ending buf wire written (.ok u.writeResult)
      rw [hresult]
      exact hstanding
    · have hother : (t.state = .closingRequestPending && !t.closingInitiator) = false := by
        simpa using hrequest
      rw [hother]
      exact ⟨frames, hwire, hmessages h.between⟩

/-- A server sends the end of a large message from the message itself. -/
theorem Sending.direct {a : Acceptance} (hs : t.Sound) (h : t.Sending buf frames written)
    (hclient : t.incoming = false → t.writeBuffer.atEnd = false)
    (hend : t.writeBuffer.i = t.writeBuffer.b.length)
    (hwire : wire ++ (t.writeBuffer.rest ++ t.tail buf) = wireOf (!t.incoming) frames) :
    RoundOutcome buf wire written (t.offer buf true a) := by
  have hatEnd : t.writeBuffer.atEnd = true := by simp [atEnd, hend]
  have hincoming : t.incoming = true := by
    cases hi : t.incoming
    · exact absurd (hclient hi) (by simp [hatEnd])
    · rfl
  have hempty : t.writeBuffer.rest = [] := (rest_eq_nil h.valid).mpr hatEnd
  have hbound : buf.i ≤ buf.b.length := by
    have := h.bound
    rwa [sent, hincoming, if_pos rfl] at this
  have htail (b : Buffer) : t.tail b = b.rest := by rw [tail, hincoming, if_pos rfl]
  let bytes := buf.rest.take a.taken
  let buf' : Buffer := { buf with i := buf.i + bytes.length }
  have hbytes : bytes.length = min a.taken (buf.b.length - buf.i) := by
    simp [bytes, Buffer.rest]
  have hoffer : t.offer buf true a =
      (bytes, if buf'.atEnd then none else some a.blocked, t, buf') := by
    simp [offer, hatEnd, hincoming, h.nonempty, h.writeState, bytes, buf']
  have hrest : bytes ++ buf'.rest = buf.rest := by
    have hparts := List.prefix_iff_eq_append.mp (List.take_prefix a.taken buf.rest)
    simpa only [buf', bytes, Buffer.rest, drop_drop] using hparts
  have hcopied := h.copied hincoming
  have hsending : t.Sending buf' frames written := by
    refine ⟨h.writeState, h.nonempty, h.filled, h.valid, h.begun, fun _ => ?_, ?_, ?_, h.carried⟩
    · show 0 < buf.i + bytes.length
      omega
    · rw [sent, hincoming, if_pos rfl]
      show buf.i + bytes.length ≤ buf.b.length
      omega
    · have hlast := h.last.drop bytes.length
      rw [hempty, htail, nil_append] at hlast ⊢
      rwa [← hrest, List.drop_left] at hlast
  have hwire' : (wire ++ bytes) ++ t.tail buf' = wireOf (!t.incoming) frames := by
    rw [hempty, htail, nil_append, ← hrest] at hwire
    rw [htail, append_assoc]
    exact hwire
  rw [hoffer]
  cases hfull : buf'.atEnd
  · refine ⟨blocked_ne_none a, rfl, hs, frames, _, ?_, .sending hsending ?_⟩
    · rw [hempty, nil_append]
      exact hwire'
    · intro hi
      exact absurd (hincoming.symm.trans hi) (by decide)
  · have hcomplete : t.sent buf' = buf'.b.length := by
      rw [sent, hincoming, if_pos rfl]
      exact of_decide_eq_true hfull
    have hpost : t.postWrite buf' = .ok (t.endRound buf') := by
      simp [postWrite, h.writeState]
    simp only [if_true, RoundOutcome, hpost]
    exact hsending.endRound hs hend hwire' (.inr (.inr hcomplete))

/-- Each call of the transport leads to something expected. -/
theorem Ready.round {a : Acceptance} {ready : Bool} (hs : t.Sound)
    (h : t.Ready buf wire written a.taken ready) :
    RoundOutcome buf wire written (t.offer buf ready a) := by
  cases h with
  | idle hstate hwire hbetween hdue hgoes =>
    have hoffer : t.offer buf false a = ([], none, t, buf) := by simp [offer]
    have hpost : t.postWrite buf = .ok (t.endRound buf) := by simp [postWrite, hstate]
    simp only [hoffer, RoundOutcome, hpost, append_nil]
    refine hbetween.endRound hs hstate hwire (fun hfrozen => ⟨hfrozen, ?_⟩) ?_
    · simpa [controlDue, closeDue, hfrozen.1] using hdue
    · exact hgoes.imp_right .inr
  | control hcontrol hend hwire hgoes =>
    rename_i frames
    have hlength : t.writeBuffer.rest.length = t.writeBuffer.b.length - t.writeBuffer.i := by
      simp [Buffer.rest]
    rw [offer_writeBuffer buf a hend]
    split
    · rename_i hlt
      refine ⟨blocked_ne_none a, rfl, sound_advance hs _, frames, _, ?_,
        .control (hcontrol.advance (Nat.le_of_lt hlt)) ?_⟩
      · rw [rest_advance, append_assoc, List.take_append_drop]
        exact hwire
      · show t.writeBuffer.i + a.taken < t.writeBuffer.b.length
        omega
    · rename_i hle
      have hcomplete := (hcontrol.advance (Nat.le_refl _)).postWrite (sound_advance hs _)
        (by simp only [advance]; omega) hwire (hgoes.imp_right fun h => h.resolve_right hle)
      simp only [RoundOutcome]
      split at hcomplete
      · exact ⟨trivial, hcomplete⟩
      · exact hcomplete
  | sending hsending hend hwire hgoes =>
    rename_i frames
    by_cases hatEnd : t.writeBuffer.i = t.writeBuffer.b.length
    · exact hsending.direct hs hend hatEnd hwire
    · have hlt : t.writeBuffer.i < t.writeBuffer.b.length :=
        Nat.lt_of_le_of_ne hsending.valid hatEnd
      have hlength : t.writeBuffer.rest.length = t.writeBuffer.b.length - t.writeBuffer.i := by
        simp [Buffer.rest]
      rw [offer_writeBuffer buf a hlt]
      split
      · rename_i htaken
        refine ⟨blocked_ne_none a, rfl, sound_advance hs _, frames, _, ?_,
          .sending (hsending.advance (Nat.le_of_lt htaken)) ?_⟩
        · rw [rest_advance, append_assoc, ← append_assoc (List.take _ _),
            List.take_append_drop]
          exact hwire
        · intro _ h
          have h : t.writeBuffer.i + a.taken = t.writeBuffer.b.length := of_decide_eq_true h
          omega
      · rename_i hle
        have hnot : t.writeBuffer.atEnd = false := by simpa [atEnd] using hatEnd
        have hgoes : t.state = .opened ∨ t.waits t.state = true ∨ t.sent buf = buf.b.length := by
          simpa [hnot, hle] using hgoes
        have hwire' : (wire ++ t.writeBuffer.rest) ++ t.tail buf = wireOf (!t.incoming) frames := by
          rw [append_assoc]
          exact hwire
        have hround := (hsending.advance (Nat.le_refl _)).endRound (sound_advance hs _)
          (by simp only [advance]; omega) hwire' hgoes
        have hpost : (t.advance t.writeBuffer.rest.length).postWrite buf =
            .ok ((t.advance t.writeBuffer.rest.length).endRound buf) := by
          simp [postWrite, advance, hsending.writeState]
        simp only [RoundOutcome, hpost]
        exact hround

/-- Each call of `write` that does not give up comes to a proper end. -/
theorem write_ending {script : List Acceptance} {r : Written} (h : t.Standing buf wire written)
    (hgoes : ∀ a ∈ script.head?, ¬ t.givesUp buf a.taken) (hr : write buf t script = some r) :
    r.buf.b = buf.b ∧ r.transceiver.Ending r.buf (wire ++ r.bytes) written r.result := by
  induction script generalizing t buf wire r with
  | nil => cases hr
  | cons a script ih =>
    obtain ⟨ready, u, buf', hpre, hs, hb, hready⟩ :=
      preWrite_ready h (hgoes a (by simp))
    have hround := hready.round hs
    rw [write, hpre] at hr
    dsimp only at hr
    rcases hoffer : u.offer buf' ready a with ⟨bytes, op, v, buf''⟩
    rw [hoffer] at hround hr
    cases op with
    | some op =>
      dsimp only at hr
      split at hr
      · cases hr
        obtain ⟨hop, hb', hstanding⟩ := hround
        refine ⟨hb'.trans hb, ?_⟩
        simp only [Ending, if_neg hop]
        exact hstanding
      · cases hr
    | none =>
      dsimp only [RoundOutcome] at hr hround
      cases hpost : v.postWrite buf'' with
      | error ex =>
        rw [hpost] at hr hround
        dsimp only at hr
        split at hr
        · cases hr
          exact ⟨hround.1.trans hb, hround.2⟩
        · cases hr
      | ok p =>
        obtain ⟨again, w, buf3⟩ := p
        rw [hpost] at hr hround
        cases again
        · dsimp only at hr
          split at hr
          · cases hr
            exact ⟨hround.1.trans hb, hround.2⟩
          · cases hr
        · obtain ⟨hb', hstanding, hgoes'⟩ := hround
          obtain ⟨q, hq, rfl⟩ := Option.map_eq_some_iff.mp hr
          obtain ⟨hqb, hending⟩ := ih hstanding (fun a _ => hgoes' a.taken) hq
          refine ⟨hqb.trans (hb'.trans hb), ?_⟩
          rw [← append_assoc]
          exact hending

end WSTransceiver

namespace Writer

open WSTransceiver

/-- The frames on the wire are complete, and the connection is lost. -/
def Closed (w : Writer) : Prop :=
  w.lost = true ∧ ∃ frames, w.wire = wireOf (!w.transceiver.incoming) frames ∧
    (messages (!w.transceiver.incoming) frames = w.written.map (·.b) ∨
      ∃ buf ∈ w.current,
        messages (!w.transceiver.incoming) frames = w.written.map (·.b) ++ [buf.b])

/-- What a party keeps. -/
structure Consistent (w : Writer) : Prop where
  written : ∀ buf ∈ w.written, buf.atEnd
  current : ∀ buf ∈ w.current, buf.b ≠ []
  standing : w.transceiver.Standing w.buffer w.wire (w.written.map (·.b)) ∨ w.Closed

variable {w : Writer}

theorem current_of_buffer (h : w.buffer.b ≠ []) : w.buffer ∈ w.current := by
  cases hc : w.current with
  | none => simp [buffer, hc] at h
  | some buf => simp [buffer, hc]

/-- What a party keeps is what it is to keep. -/
theorem Consistent.delivered (h : w.Consistent) : w.Delivered := by
  refine ⟨h.written, ?_⟩
  rcases h.standing with ⟨-, frames, rest, hwire, hp⟩ | ⟨-, frames, hwire, hmessages⟩
  · refine ⟨frames, rest, _, rfl, hwire, ?_⟩
    have hbetween {stale : Prop} (hb : Between w.transceiver stale w.buffer
          (messages (!w.transceiver.incoming) frames) (w.written.map (·.b))) :
        messages (!w.transceiver.incoming) frames = w.written.map (·.b) ∨
          ∃ buf ∈ w.current,
            messages (!w.transceiver.incoming) frames = w.written.map (·.b) ++ [buf.b] := by
      cases hb with
      | waiting hsent _ => exact .inl hsent
      | lost hsent _ => exact .inl hsent
      | complete hsent hnonempty _ _ => exact .inr ⟨_, current_of_buffer hnonempty, hsent⟩
    cases hp with
    | header _ hb => exact ⟨.inl rfl, (hbetween hb).imp_left fun h => ⟨h, .inl rfl⟩⟩
    | control hcontrol _ =>
      obtain ⟨f, hf, hop, hsuffix⟩ := hcontrol.last
      exact ⟨.inr ⟨f, hf, hsuffix⟩,
        (hbetween hcontrol.between).imp_left fun h => ⟨h, .inr ⟨f, hf, hop⟩⟩⟩
    | sending hsending _ =>
      obtain ⟨f, hf, _, hsuffix⟩ := hsending.last
      exact ⟨.inr ⟨f, hf, hsuffix⟩,
        .inr ⟨_, current_of_buffer hsending.nonempty, hsending.carried⟩⟩
  · exact ⟨frames, [], _, rfl, by rw [append_nil, hwire], .inl rfl,
      hmessages.imp_left fun h => ⟨h, .inl rfl⟩⟩

/-- A call of `write` came to an end. -/
theorem Consistent.wrote {buf : Buffer} {script : List Acceptance} {r : Written}
    (h : w.Consistent) (hstanding : w.transceiver.Standing buf w.wire (w.written.map (·.b)))
    (hgoes : ∀ a ∈ script.head?, ¬ w.transceiver.givesUp buf a.taken)
    (hr : write buf w.transceiver script = some r) : (w.wrote r).Consistent := by
  obtain ⟨hb, hending⟩ := write_ending hstanding hgoes hr
  have hmessage : ∀ b ∈ (if r.buf.b.isEmpty then none else some r.buf : Option Buffer),
      b = r.buf ∧ b.b ≠ [] := by
    intro b hb
    split at hb
    · cases hb
    · rename_i hnonempty
      cases hb
      exact ⟨rfl, by simpa using hnonempty⟩
  unfold Writer.wrote
  cases hresult : r.result with
  | error ex =>
    rw [hresult] at hending
    obtain ⟨frames, hwire, hmessages⟩ := hending
    refine ⟨h.written, fun b hb => (hmessage b hb).2, .inr ⟨rfl, frames, hwire, ?_⟩⟩
    refine hmessages.imp_right fun ⟨hnonempty, hsent⟩ => ⟨r.buf, ?_, hsent⟩
    simp [hnonempty]
  | ok op =>
    rw [hresult] at hending
    simp only [Ending] at hending
    by_cases hop : op = .none
    · rw [if_pos hop] at hending
      obtain ⟨hend, hs⟩ := hending
      refine ⟨?_, ?_, .inl ?_⟩
      · intro b hb
        simp only [if_pos hop, List.mem_append, Option.mem_toList] at hb
        rcases hb with hb | hb
        · exact h.written b hb
        · obtain ⟨rfl, hnonempty⟩ := hmessage b hb
          exact hend hnonempty
      · simp [if_pos hop]
      · simp only [if_pos hop, buffer, Option.getD_none, List.map_append]
        by_cases hempty : r.buf.b = []
        · simpa [hempty] using hs
        · simpa [hempty] using hs
    · rw [if_neg hop] at hending
      refine ⟨?_, ?_, .inl ?_⟩
      · simp only [if_neg hop]
        exact h.written
      · intro b hb
        simp only [if_neg hop] at hb
        exact (hmessage b hb).2
      · simp only [if_neg hop, buffer]
        by_cases hempty : r.buf.b = []
        · simp only [hempty, List.isEmpty_nil, if_true, Option.getD_none]
          exact hending.of_empty hempty (.inl rfl)
        · simpa [hempty] using hending

theorem Consistent.step {w' : Writer} {e : WriterEvent} (h : w.Consistent)
    (hgoes : Persevering w e) (hstep : w.step e = some w') : w'.Consistent := by
  unfold Writer.step at hstep
  split at hstep
  · cases hstep
  · rename_i hlost
    have hs := h.standing.resolve_right fun hc => hlost hc.1
    have hscript {buf : Buffer} {script : List Acceptance} (hcall : w.call e = some (buf, script)) :
        ∀ a ∈ script.head?, ¬ w.transceiver.givesUp buf a.taken := by
      intro a ha
      obtain ⟨rest, rfl⟩ := List.head?_eq_some_iff.mp ha
      exact hgoes buf a rest hcall
    split at hstep
    · rename_i message script hcurrent
      split at hstep
      · cases hstep
      · obtain ⟨r, hr, rfl⟩ := Option.map_eq_some_iff.mp hstep
        rw [buffer, hcurrent] at hs
        exact h.wrote (hs.of_empty rfl (.inr rfl)) (hscript rfl) hr
    · rename_i script buf hcurrent
      obtain ⟨r, hr, rfl⟩ := Option.map_eq_some_iff.mp hstep
      rw [buffer, hcurrent] at hs
      exact h.wrote hs (hscript (by simp [call, buffer, hcurrent])) hr
    · rename_i script hcurrent
      obtain ⟨r, hr, rfl⟩ := Option.map_eq_some_iff.mp hstep
      rw [buffer, hcurrent] at hs
      exact h.wrote hs (hscript (by simp [call, buffer, hcurrent])) hr
    · obtain ⟨r, hr, rfl⟩ := Option.map_eq_some_iff.mp hstep
      exact ⟨h.written, h.current, .inl (hs.hears (hears_read hr))⟩
    · cases hstep
      exact ⟨h.written, h.current, .inl (hs.hears (hears_closing _ _ _))⟩
    · cases hstep

theorem consistent_opened (incoming : Bool) (random : Nat → Mask)
    (consumed leftover spare upgrade : List UInt8) (writePayloadLength : Nat) :
    (opened incoming random consumed leftover spare upgrade writePayloadLength).Consistent := by
  refine ⟨by simp [opened], by simp [opened], .inl ⟨⟨?_, ?_⟩, [], [], rfl, .header rfl ?_⟩⟩
  · show 14 < if incoming then 1024 else 16 * 1024
    split <;> omega
  · intro h
    cases h
  · exact .waiting rfl (.inr rfl)

end Writer

/-- Where no call of `write` gives up in the middle of a message, `write` returns
`SocketOperationNone` for a message once its whole frame is on the wire, and all that is on the
wire is whole frames, one after the other. -/
theorem delivered_of_persevering (incoming : Bool) (random : Nat → Mask)
    (consumed leftover spare upgrade : List UInt8) (writePayloadLength : Nat) {w : Writer}
    (h : Reach Writer.step Persevering
      (.opened incoming random consumed leftover spare upgrade writePayloadLength) w) :
    w.Delivered := by
  have hinv : w.Consistent :=
    h.invariant (Writer.consistent_opened incoming random consumed leftover spare upgrade
      writePayloadLength) fun _ _ _ hi hp hs => hi.step hp hs
  exact hinv.delivered

/-- `Persevering`, as a test -/
def perseveres (w : Writer) (e : WriterEvent) : Bool :=
  match w.call e with
  | some (buf, a :: _) => !w.transceiver.givesUp buf a.taken
  | _ => true

/-- A small message is half sent, a ping comes in, and the message is sent before the pong. -/
theorem delivered_beforePong :
    ∃ w, Reach Writer.step Persevering (.opened true (fun _ _ => 0) [] [] [] [] 0) w ∧
      w.wire = [130, 5, 7, 7, 7, 7, 7, 138, 0] ∧ w.Delivered := by
  have htest (w : Writer) (e : WriterEvent) (h : perseveres w e = true) : Persevering w e := by
    intro buf a script hcall
    simpa [perseveres, hcall] using h
  have hrun : (run (fun w e => if perseveres w e then w.step e else none)
      (.opened true (fun _ _ => 0) [] [] [] [] 0)
      [.start (replicate 5 7) [⟨4, false⟩],
        .read ⟨replicate 14 0, 0⟩ [137, 128, 1, 2, 3, 4] [⟨6, false⟩, ⟨0, false⟩],
        .resume [⟨5, false⟩, ⟨5, false⟩]]).any
      (fun w => w.wire = [130, 5, 7, 7, 7, 7, 7, 138, 0]) = true := by
    decide +kernel
  obtain ⟨w, h, hw⟩ := Reach.exists_of_runWhere htest hrun
  exact ⟨w, h, of_decide_eq_true hw, delivered_of_persevering true _ [] [] [] [] 0 h⟩

/-- A large message is half sent and a ping comes in: at the end of the write buffer `write`
returns `SocketOperationNone` and the rest of the message is never sent. -/
theorem not_delivered_of_ping :
    ∃ w, Reach Writer.step Any (.opened true (fun _ _ => 0) [] [] [] [] 0) w ∧ ¬ w.Delivered := by
  have hrun : (run Writer.step (.opened true (fun _ _ => 0) [] [] [] [] 0)
      [.start (replicate 1100 7) [⟨500, false⟩],
        .read ⟨replicate 14 0, 0⟩ [137, 128, 1, 2, 3, 4] [⟨6, false⟩, ⟨0, false⟩],
        .resume [⟨524, false⟩]]).any
      (fun w => w.written.any fun buf => !buf.atEnd) = true := by
    decide +kernel
  obtain ⟨w, h, hw⟩ := Reach.exists_of_run hrun
  obtain ⟨buf, hbuf, hend⟩ := List.any_eq_true.mp hw
  refine ⟨w, h, fun hdelivered => ?_⟩
  simp [hdelivered.1 buf hbuf] at hend

end Ice.Connection
