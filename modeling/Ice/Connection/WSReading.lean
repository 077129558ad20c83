import Mathlib.Tactic.Ring
import Ice.Connection.WSWrite

/-!
# How incoming frames are read

What the peer sends is read ahead into a buffer, and a frame may be there in parts only. At any
time what is left to read are the rest of a frame, as far as the state of reading says, and the
frames behind it; so each frame is read as it was sent, however its bytes arrive.
-/

namespace Ice.Connection

open List (append_assoc drop_drop drop_zero length_append length_drop length_take mem_cons_self
  nil_append)

namespace Frame

/-- A frame that a peer can send -/
structure Valid (f : Frame) : Prop where
  opCode : f.opCode < 16
  payload : f.payload.length < 2 ^ 63

/-- The seven bits of the header that tell the length of the payload or where it stands -/
def lengthCode (n : Nat) : Nat := if n ≤ 125 then n else if n ≤ 65535 then 126 else 127

/-- The bytes of the header behind the first two, but for the mask -/
def extension (f : Frame) : List UInt8 :=
  if f.payload.length ≤ 125 then []
  else if f.payload.length ≤ 65535 then bigEndian 2 f.payload.length
  else bigEndian 8 f.payload.length

def maskBytes (masked : Bool) (f : Frame) : List UInt8 :=
  if masked then [f.mask 0, f.mask 1, f.mask 2, f.mask 3] else []

variable {f : Frame} {masked : Bool}

theorem header_split (masked : Bool) (f : Frame) : f.header masked =
    UInt8.ofNat (f.opCode + if f.final then flag else 0) ::
      UInt8.ofNat (lengthCode f.payload.length + if masked then flag else 0) ::
        (f.extension ++ f.maskBytes masked) := by
  unfold header WSTransceiver.lengthBytes lengthCode extension maskBytes
  dsimp only
  by_cases hshort : f.payload.length ≤ 125
  · rw [if_pos hshort, if_pos hshort, if_pos hshort]
    rfl
  · rw [if_neg hshort, if_neg hshort, if_neg hshort]
    by_cases hmiddle : f.payload.length ≤ 65535
    · rw [if_pos hmiddle, if_pos hmiddle, if_pos hmiddle]
      rfl
    · rw [if_neg hmiddle, if_neg hmiddle, if_neg hmiddle]
      rfl

theorem lengthCode_le (n : Nat) : lengthCode n ≤ 127 := by
  unfold lengthCode
  split
  · omega
  · split
    · omega
    · omega

theorem length_extension (f : Frame) : f.extension.length =
    if lengthCode f.payload.length < 126 then 0
    else if lengthCode f.payload.length = 126 then 2 else 8 := by
  unfold extension lengthCode
  split
  · rw [if_pos (by omega)]
    rfl
  · split
    · rw [if_neg (by omega), if_pos rfl]
      rfl
    · rw [if_neg (by omega), if_neg (by omega)]
      rfl

theorem length_maskBytes (masked : Bool) (f : Frame) :
    (f.maskBytes masked).length = if masked then 4 else 0 := by
  unfold maskBytes
  cases masked
  · rfl
  · rfl

end Frame

namespace Frame

theorem length_bytes_eq (masked : Bool) (f : Frame) : (f.bytes masked).length =
    2 + f.extension.length + (f.maskBytes masked).length + f.payload.length := by
  unfold bytes
  rw [header_split, length_append, List.length_cons, List.length_cons, length_append]
  omega

end Frame

/-- A number is told by its bytes in network order. -/
theorem ofBigEndian_bigEndian (k n : Nat) (h : n < 256 ^ k) : ofBigEndian (bigEndian k n) = n := by
  have hfold (k acc : Nat) :
      (bigEndian k n).foldl (fun n b => 256 * n + b.toNat) acc = acc * 256 ^ k + n % 256 ^ k := by
    induction k generalizing acc with
    | zero => simp [bigEndian, Nat.mod_one]
    | succ k ih =>
      have hdigit : (UInt8.ofNat (n / 256 ^ k)).toNat = n / 256 ^ k % 256 := rfl
      rw [bigEndian, List.foldl_cons, ih, hdigit, Nat.mod_pow_succ, Nat.pow_succ, Nat.add_mul]
      ring
  unfold ofBigEndian
  rw [hfold k 0, Nat.zero_mul, Nat.zero_add, Nat.mod_eq_of_lt h]

namespace WSTransceiver

/-- What is left to read: what is in the read buffer, and what is still to come -/
def unread (t : WSTransceiver) (wire : List UInt8) : List UInt8 :=
  (t.readBuffer.b.take t.readBuffer.i).drop t.readI ++ wire

/-- The positions in the read buffer are in order. -/
structure Buffered (t : WSTransceiver) : Prop where
  readI : t.readI ≤ t.readBuffer.i
  i : t.readBuffer.i ≤ t.readBuffer.b.length

/-- Only the read buffer changes. -/
structure Moved (t t' : WSTransceiver) : Prop where
  incoming : t'.incoming = t.incoming
  writeBufferSize : t'.writeBufferSize = t.writeBufferSize
  state : t'.state = t.state
  nextState : t'.nextState = t.nextState
  readState : t'.readState = t.readState
  readOpCode : t'.readOpCode = t.readOpCode
  readHeaderLength : t'.readHeaderLength = t.readHeaderLength
  readPayloadLength : t'.readPayloadLength = t.readPayloadLength
  pingPayload : t'.pingPayload = t.pingPayload

variable {t t' : WSTransceiver} {wire bytes : List UInt8} {sz k : Nat}

section

variable (h : Buffered t)

include h

theorem length_unread (wire : List UInt8) :
    (t.unread wire).length = t.readBuffer.i - t.readI + wire.length := by
  have hi := h.i
  unfold unread
  rw [length_append, length_drop, length_take, Nat.min_eq_left hi]

section

variable (hk : k ≤ t.readBuffer.i - t.readI)

include hk

/-- What is in the buffer is read first. -/
theorem buffered_eq (wire : List UInt8) :
    t.buffered k = (t.unread wire).take k := by
  have hi := h.i
  unfold buffered unread
  rw [List.take_append_of_le_length (by rw [length_drop, length_take]; omega),
    List.drop_take, List.take_take, Nat.min_eq_left hk]

/-- Bytes that were read are left behind. -/
theorem unread_advance
    (hbuffer : t'.readBuffer = t.readBuffer) (hreadI : t'.readI = t.readI + k) :
    t'.unread wire = (t.unread wire).drop k := by
  have hi := h.i
  unfold unread
  rw [hbuffer, hreadI,
    List.drop_append_of_le_length (by rw [length_drop, length_take]; omega),
    drop_drop]

theorem Buffered.advance
    (hbuffer : t'.readBuffer = t.readBuffer) (hreadI : t'.readI = t.readI + k) : Buffered t' := by
  have hle := h.readI
  constructor
  · rw [hbuffer, hreadI]
    omega
  · rw [hbuffer]
    exact h.i

end

theorem byteAt_eq (hk : k < t.readBuffer.i - t.readI) (wire : List UInt8) :
    t.byteAt (t.readI + k) = ((t.unread wire).getD k 0).toNat := by
  have hi := h.i
  unfold byteAt unread
  rw [List.getD_eq_getElem?_getD, List.getD_eq_getElem?_getD,
    List.getElem?_append_left (by rw [length_drop, length_take]; omega),
    List.getElem?_drop, List.getElem?_take_of_lt (by omega)]

/-- Moving the bytes to the beginning of the buffer does not change what is left to read. -/
theorem readBuffered_eq (sz : Nat) (wire : List UInt8) :
    Moved t (t.readBuffered sz).2 ∧ Buffered (t.readBuffered sz).2 ∧
      (t.readBuffered sz).2.unread wire = t.unread wire ∧
      ((t.readBuffered sz).1 = true →
        sz ≤ (t.readBuffered sz).2.readBuffer.i - (t.readBuffered sz).2.readI) := by
  have hreadI := h.readI
  have hi := h.i
  unfold readBuffered
  dsimp only
  split
  · rename_i hempty
    refine ⟨⟨rfl, rfl, rfl, rfl, rfl, rfl, rfl, rfl, rfl⟩, ⟨Nat.le_refl _, Nat.zero_le _⟩, ?_, ?_⟩
    · have hnone : (t.readBuffer.b.take t.readBuffer.i).drop t.readI = [] := by
        apply List.drop_of_length_le
        rw [length_take]
        omega
      change ([] : List UInt8) ++ wire = (t.readBuffer.b.take t.readBuffer.i).drop t.readI ++ wire
      rw [hnone]
    · intro hfits
      have hle := of_decide_eq_true hfits
      dsimp only at hle ⊢
      omega
  · split
    · rename_i hfew
      refine ⟨⟨rfl, rfl, rfl, rfl, rfl, rfl, rfl, rfl, rfl⟩, ⟨Nat.zero_le _, ?_⟩, ?_, ?_⟩
      · dsimp only
        rw [Buffer.length_resized]
        omega
      · have hlength : ((t.readBuffer.b.drop t.readI).take (t.readBuffer.i - t.readI)).length =
            t.readBuffer.i - t.readI := by
          rw [length_take, length_drop]
          omega
        have hmoved := @Buffer.take_overwrite t.readBuffer.b
          ((t.readBuffer.b.drop t.readI).take (t.readBuffer.i - t.readI)) 0 (Nat.zero_le _)
        rw [hlength, Nat.zero_add, List.take_zero, nil_append] at hmoved
        unfold unread
        dsimp only
        unfold Buffer.resized
        rw [drop_zero, List.take_append_of_le_length, List.take_take, Nat.min_eq_left (by omega),
          hmoved, List.drop_take]
        rw [length_take]
        unfold Buffer.overwrite
        rw [length_append, length_append, hlength]
        omega
      · intro hfits
        have hle := of_decide_eq_true hfits
        dsimp only at hle ⊢
        omega
    · rename_i hmany
      refine ⟨⟨rfl, rfl, rfl, rfl, rfl, rfl, rfl, rfl, rfl⟩, ⟨hreadI, hi⟩, rfl, ?_⟩
      intro _
      omega

theorem readBufferedIf_eq (sz : Nat) (wire : List UInt8) :
    Moved t (t.readBufferedIf sz).2 ∧ Buffered (t.readBufferedIf sz).2 ∧
      (t.readBufferedIf sz).2.unread wire = t.unread wire ∧
      ((t.readBufferedIf sz).1 = true →
        sz ≤ (t.readBufferedIf sz).2.readBuffer.i - (t.readBufferedIf sz).2.readI) ∧
      (sz = 0 → (t.readBufferedIf sz).1 = true) := by
  unfold readBufferedIf
  split
  · rename_i hpos
    obtain ⟨hmoved, hbuffered, hunread, hfits⟩ := readBuffered_eq h sz wire
    exact ⟨hmoved, hbuffered, hunread, hfits, fun hzero => absurd hzero (by omega)⟩
  · rename_i hzero
    refine ⟨⟨rfl, rfl, rfl, rfl, rfl, rfl, rfl, rfl, rfl⟩, h, rfl, fun _ => ?_, fun _ => rfl⟩
    dsimp only
    omega

end

end WSTransceiver

/-- The frames that were read when so many bytes are left, and those that were not; nothing is
read behind a close frame. -/
def readFrames (masked : Bool) : List Frame → Nat → List Frame × List Frame
  | [], _ => ([], [])
  | f :: frames, n =>
    if f.opCode ≠ opClose ∧ n ≤ (wireOf masked frames).length then
      (f :: (readFrames masked frames n).1, (readFrames masked frames n).2)
    else ([], f :: frames)

/-- So many bytes are left, and the first of the frames was not read. -/
structure Settled (masked : Bool) (frames : List Frame) (n : Nat) : Prop where
  all : n ≤ (wireOf masked frames).length
  first : ∀ f rest, frames = f :: rest → f.opCode = opClose ∨ (wireOf masked rest).length < n

theorem wireOf_cons (masked : Bool) (f : Frame) (frames : List Frame) :
    wireOf masked (f :: frames) = f.bytes masked ++ wireOf masked frames := rfl

theorem readFrames_eq {masked : Bool} {read left : List Frame} {n : Nat}
    (hread : ∀ f ∈ read, f.opCode ≠ opClose) (h : Settled masked left n) :
    readFrames masked (read ++ left) n = (read, left) := by
  induction read with
  | nil =>
    cases left with
    | nil => rfl
    | cons f rest =>
      rw [nil_append, readFrames, if_neg]
      rintro ⟨hclose, hle⟩
      rcases h.first f rest rfl with hfirst | hfirst
      · exact hclose hfirst
      · omega
  | cons f read ih =>
    have hall := h.all
    rw [List.cons_append, readFrames, if_pos, ih fun g hg => hread g (List.mem_cons_of_mem f hg)]
    refine ⟨hread f mem_cons_self, ?_⟩
    rw [wireOf_append, length_append]
    omega

theorem settled_wireOf (masked : Bool) (frames : List Frame) :
    Settled masked frames (wireOf masked frames).length := by
  constructor
  · exact Nat.le_refl _
  · rintro f rest rfl
    apply Or.inr
    rw [wireOf_cons, length_append, Frame.length_bytes_eq]
    omega

theorem settled_of_part {masked : Bool} {f : Frame} {part : List UInt8} (rest : List Frame)
    (hpos : 0 < part.length) (hle : part.length ≤ (f.bytes masked).length) :
    Settled masked (f :: rest) (part ++ wireOf masked rest).length := by
  constructor
  · rw [wireOf_cons, length_append, length_append]
    omega
  · intro g rest' heq
    apply Or.inr
    rw [length_append, ← (List.cons.inj heq).2]
    omega

namespace WSTransceiver

/-- The header of a frame tells how it goes on. -/
structure Announced (t : WSTransceiver) (f : Frame) : Prop where
  opCode : t.readOpCode = f.opCode
  payloadLength : t.readPayloadLength = Frame.lengthCode f.payload.length
  headerLength : t.readHeaderLength = f.extension.length + (f.maskBytes t.incoming).length

/-- A close frame came in: what is behind it is not read any more. -/
structure Closed (t : WSTransceiver) (frames : List Frame) : Prop where
  readState : t.readState = .header
  opCode : t.readOpCode = opClose
  first : ∃ f rest, frames = f :: rest ∧ f.opCode = opClose

/-- Where in the frames that are not read yet the bytes begin that are left; so many bytes of a
payload were copied in the round that is going on -/
inductive Stage (t : WSTransceiver) (copied : Nat) (frames : List Frame) (bytes : List UInt8) : Prop
  | opcode (hstate : t.readState = .opcode) (hbytes : bytes = wireOf t.incoming frames)
  | header (f : Frame) (rest : List Frame) (hframes : frames = f :: rest)
      (hstate : t.readState = .header) (hheader : Announced t f) (hpos : 0 < t.readHeaderLength)
      (hbytes : bytes =
        f.extension ++ f.maskBytes t.incoming ++ (f.payload ++ wireOf t.incoming rest))
  | controlFrame (f : Frame) (rest : List Frame) (hframes : frames = f :: rest)
      (hstate : t.readState = .controlFrame) (hopCode : t.readOpCode = f.opCode)
      (hclose : f.opCode ≠ opClose)
      (hlength : t.readPayloadLength = f.payload.length) (hpos : 0 < t.readPayloadLength)
      (hbytes : bytes = f.payload ++ wireOf t.incoming rest)
  | payload (f : Frame) (rest : List Frame) (hframes : frames = f :: rest)
      (hstate : t.readState = .payload) (hping : f.opCode ≠ opPing)
      (hclose : f.opCode ≠ opClose) (sent : Nat)
      (hlength : sent + t.readPayloadLength = f.payload.length)
      (hcopied : copied ≤ t.readPayloadLength) (hpos : 0 < t.readPayloadLength)
      (hbytes : bytes = f.payload.drop (sent + copied) ++ wireOf t.incoming rest)

variable {frames : List Frame}

theorem Stage.settled (h : Stage t 0 frames bytes) : Settled t.incoming frames bytes.length := by
  cases h with
  | opcode hstate hbytes =>
    rw [hbytes]
    exact settled_wireOf t.incoming frames
  | header f rest hframes hstate hheader hpos hbytes =>
    have hlength := hheader.headerLength
    rw [hbytes, hframes, ← append_assoc]
    apply settled_of_part
    · rw [length_append, length_append]
      omega
    · rw [length_append, length_append, Frame.length_bytes_eq]
      omega
  | controlFrame f rest hframes hstate hopCode hclose hlength hpos hbytes =>
    rw [hbytes, hframes]
    apply settled_of_part
    · omega
    · rw [Frame.length_bytes_eq]
      omega
  | payload f rest hframes hstate hping hclose sent hlength hcopied hpos hbytes =>
    rw [hbytes, hframes]
    apply settled_of_part
    · rw [length_drop]
      omega
    · rw [length_drop, Frame.length_bytes_eq]
      omega

/-- Where the bytes begin is told by the state of reading alone. -/
theorem Stage.congr {copied : Nat} (h : Stage t copied frames bytes)
    (hincoming : t'.incoming = t.incoming) (hstate' : t'.readState = t.readState)
    (hopCode' : t'.readOpCode = t.readOpCode)
    (hheaderLength : t'.readHeaderLength = t.readHeaderLength)
    (hpayloadLength : t'.readPayloadLength = t.readPayloadLength) :
    Stage t' copied frames bytes := by
  cases h with
  | opcode hstate hbytes =>
    rw [← hstate'] at hstate
    rw [← hincoming] at hbytes
    exact .opcode hstate hbytes
  | header f rest hframes hstate hheader hpos hbytes =>
    rw [← hstate'] at hstate
    rw [← hheaderLength] at hpos
    rw [← hincoming] at hbytes
    refine .header f rest hframes hstate ⟨?_, ?_, ?_⟩ hpos hbytes
    · rw [hopCode']
      exact hheader.opCode
    · rw [hpayloadLength]
      exact hheader.payloadLength
    · rw [hheaderLength, hincoming]
      exact hheader.headerLength
  | controlFrame f rest hframes hstate hopCode hclose hlength hpos hbytes =>
    rw [← hstate'] at hstate
    rw [← hopCode'] at hopCode
    rw [← hpayloadLength] at hlength hpos
    rw [← hincoming] at hbytes
    exact .controlFrame f rest hframes hstate hopCode hclose hlength hpos hbytes
  | payload f rest hframes hstate hping hclose sent hlength hcopied hpos hbytes =>
    rw [← hstate'] at hstate
    rw [← hpayloadLength] at hlength hcopied hpos
    rw [← hincoming] at hbytes
    exact .payload f rest hframes hstate hping hclose sent hlength hcopied hpos hbytes

theorem Closed.congr (h : Closed t frames) (hstate : t'.readState = t.readState)
    (hopCode : t'.readOpCode = t.readOpCode) : Closed t' frames :=
  ⟨hstate.trans h.readState, hopCode.trans h.opCode, h.first⟩

/-- A pong frame is to be sent. -/
def PongDue (t : WSTransceiver) : Prop := t.state = .pongPending ∨ t.nextState = .pongPending

/-- The payload that is kept once a frame was read: that of a ping, unless it is empty -/
def kept (payload : List UInt8) (f : Frame) : List UInt8 :=
  if f.opCode = opPing ∧ f.payload ≠ [] then f.payload else payload

/-- What the frames that were read leave behind for the pong frame -/
structure Answers (read : List Frame) (t t' : WSTransceiver) : Prop where
  incoming : t'.incoming = t.incoming
  writeBufferSize : t'.writeBufferSize = t.writeBufferSize
  noClose : ∀ f ∈ read, f.opCode ≠ opClose
  pingPayload : t'.pingPayload = read.foldl kept t.pingPayload
  pongDue : t'.PongDue → t.PongDue ∨ ∃ f ∈ read, f.opCode = opPing

variable {read read' : List Frame} {t'' : WSTransceiver} {copied : Nat}

theorem Answers.of_eq (hincoming : t'.incoming = t.incoming)
    (hsize : t'.writeBufferSize = t.writeBufferSize)
    (hpayload : t'.pingPayload = t.pingPayload) (hstate : t'.state = t.state)
    (hnext : t'.nextState = t.nextState) : Answers [] t t' := by
  constructor
  · exact hincoming
  · exact hsize
  · simp
  · exact hpayload
  · intro hdue
    unfold PongDue at hdue
    rw [hstate, hnext] at hdue
    exact .inl hdue

theorem Answers.refl (t : WSTransceiver) : Answers [] t t := .of_eq rfl rfl rfl rfl rfl

theorem Answers.trans (h : Answers read t t') (h' : Answers read' t' t'') :
    Answers (read ++ read') t t'' := by
  constructor
  · exact h'.incoming.trans h.incoming
  · exact h'.writeBufferSize.trans h.writeBufferSize
  · intro f hf
    rcases List.mem_append.mp hf with hf | hf
    · exact h.noClose f hf
    · exact h'.noClose f hf
  · rw [h'.pingPayload, h.pingPayload, List.foldl_append]
  · intro hdue
    rcases h'.pongDue hdue with hdue | ⟨f, hf, hping⟩
    · rcases h.pongDue hdue with hdue | ⟨f, hf, hping⟩
      · exact .inl hdue
      · exact .inr ⟨f, List.mem_append_left _ hf, hping⟩
    · exact .inr ⟨f, List.mem_append_right _ hf, hping⟩

theorem Answers.append_nil (h : Answers read t t') (h' : Answers [] t' t'') :
    Answers read t t'' := by
  have htrans := h.trans h'
  rw [List.append_nil] at htrans
  exact htrans

variable {f : Frame} {buf buf' buf'' : Buffer} {rest : List Frame} {o : Option Bool}
  {more again : Bool} {a : Arrival} {u : WSTransceiver} {wire' : List UInt8}

/-- A frame that is not a ping leaves nothing behind. -/
theorem Answers.other (h : Answers [] t t') (hping : f.opCode ≠ opPing)
    (hclose : f.opCode ≠ opClose) : Answers [f] t t' := by
  constructor
  · exact h.incoming
  · exact h.writeBufferSize
  · intro g hg
    rw [List.mem_singleton.mp hg]
    exact hclose
  · rw [h.pingPayload, List.foldl_cons, kept, if_neg fun hp => hping hp.1]
  · intro hdue
    exact .inl ((h.pongDue hdue).resolve_right (by simp))

theorem Moved.answers (h : Moved t t') : Answers [] t t' :=
  .of_eq h.incoming h.writeBufferSize h.pingPayload h.state h.nextState

/-- Some of the frames were read, and the others are left. -/
structure Took (t t' : WSTransceiver) (wire : List UInt8) (copied : Nat)
    (frames read left : List Frame) : Prop where
  frames_eq : frames = read ++ left
  answers : Answers read t t'
  buffered : Buffered t'
  stage : Stage t' copied left (t'.unread wire) ∨
    Closed t' left ∧ (t'.unread wire).length ≤ (wireOf t'.incoming left).length

variable {left : List Frame}

theorem Took.of_answers (h : Answers read t t') (h' : Took t' t'' wire copied frames read' left) :
    Took t t'' wire copied (read ++ frames) (read ++ read') left := by
  constructor
  · rw [h'.frames_eq, append_assoc]
  · exact h.trans h'.answers
  · exact h'.buffered
  · exact h'.stage

/-- The first two bytes of a frame -/
theorem readOpcode_announced (hbuffered : Buffered t) (hlength : 2 ≤ t.readBuffer.i - t.readI)
    (hbytes : t.unread wire = wireOf t.incoming frames) (hvalid : ∀ f ∈ frames, f.Valid)
    (h : t.readOpcode = .ok t') :
    ∃ f rest, frames = f :: rest ∧ Buffered t' ∧ Answers [] t t' ∧ Announced t' f ∧
      t'.readState = .header ∧
      t'.unread wire = f.extension ++ f.maskBytes t.incoming ++
        (f.payload ++ wireOf t.incoming rest) := by
  cases frames with
  | nil =>
    have hnone := length_unread hbuffered wire
    rw [hbytes] at hnone
    simp only [wireOf, List.flatMap_nil, List.length_nil] at hnone
    omega
  | cons f rest =>
    have hcode := (hvalid f mem_cons_self).opCode
    have hunread : t.unread wire =
        UInt8.ofNat (f.opCode + if f.final then flag else 0) ::
          UInt8.ofNat (Frame.lengthCode f.payload.length + if t.incoming then flag else 0) ::
            (f.extension ++ f.maskBytes t.incoming ++
              (f.payload ++ wireOf t.incoming rest)) := by
      rw [hbytes, wireOf_cons, Frame.bytes, Frame.header_split]
      simp only [List.cons_append, append_assoc]
    have hfirst := byteAt_eq hbuffered (k := 0) (by omega) wire
    have hsecond := byteAt_eq hbuffered (k := 1) (by omega) wire
    rw [hunread] at hfirst hsecond
    simp only [List.getD_cons_zero, List.getD_cons_succ, Nat.add_zero] at hfirst hsecond
    have hopCode : t.byteAt t.readI % 16 = f.opCode := by
      rw [hfirst, UInt8.toNat_ofNat']
      split
      · simp only [flag]
        omega
      · omega
    have hle := Frame.lengthCode_le f.payload.length
    have hmasked : decide (flag ≤ t.byteAt (t.readI + 1)) = t.incoming := by
      rw [hsecond, UInt8.toNat_ofNat']
      cases t.incoming
      · simp only [flag, Bool.false_eq_true, if_false]
        apply decide_eq_false
        omega
      · simp only [flag, if_true]
        apply decide_eq_true
        omega
    have hsize : t.byteAt (t.readI + 1) % flag = Frame.lengthCode f.payload.length := by
      rw [hsecond, UInt8.toNat_ofNat']
      split
      · simp only [flag]
        omega
      · simp only [flag]
        omega
    simp only [readOpcode, hmasked, hsize, hopCode] at h
    split at h
    · cases h
    · split at h
      · cases h
      · split at h
        · cases h
        · cases h
          refine ⟨f, rest, rfl, ?_, .of_eq rfl rfl rfl rfl rfl, ⟨rfl, rfl, ?_⟩, rfl, ?_⟩
          · exact hbuffered.advance hlength rfl rfl
          · rw [Frame.length_extension, Frame.length_maskBytes]
          · apply Eq.trans (b := (t.unread wire).drop 2)
            · exact unread_advance hbuffered hlength rfl rfl
            · rw [hunread]
              rfl

/-- The rest of the header changes neither the state of reading nor what is pending. -/
theorem answers_readLength (h : t.readLength = .ok t') :
    Answers [] t t' ∧ t'.readState = t.readState ∧ t'.readOpCode = t.readOpCode := by
  unfold readLength at h
  split at h
  · cases h
    exact ⟨.of_eq rfl rfl rfl rfl rfl, rfl, rfl⟩
  · split at h
    · dsimp only at h
      split at h
      · cases h
      · cases h
        exact ⟨.of_eq rfl rfl rfl rfl rfl, rfl, rfl⟩
    · cases h
      exact ⟨.refl t, rfl, rfl⟩

theorem answers_readMaskBytes (t : WSTransceiver) : Answers [] t t.readMaskBytes ∧
    t.readMaskBytes.readState = t.readState ∧ t.readMaskBytes.readOpCode = t.readOpCode := by
  unfold readMaskBytes
  split
  · exact ⟨.of_eq rfl rfl rfl rfl rfl, rfl, rfl⟩
  · exact ⟨.refl t, rfl, rfl⟩

/-- The length of the payload -/
theorem readLength_announced {rest : List UInt8} (hbuffered : Buffered t)
    (hheader : Announced t f) (hvalid : f.Valid)
    (hlength : f.extension.length + k ≤ t.readBuffer.i - t.readI)
    (hbytes : t.unread wire = f.extension ++ rest) (h : t.readLength = .ok t') :
    Buffered t' ∧ t'.readPayloadLength = f.payload.length ∧
      k ≤ t'.readBuffer.i - t'.readI ∧ t'.unread wire = rest := by
  have hpayload := hvalid.payload
  have hcode := hheader.payloadLength
  have hread (n : Nat) (hn : f.extension = bigEndian n f.payload.length) :
      t.buffered n = bigEndian n f.payload.length ∧
        unread { t with readI := t.readI + n } wire = rest := by
    have hn' : f.extension.length = n := by
      rw [hn, length_bigEndian]
    have hadvance : unread { t with readI := t.readI + n } wire = (t.unread wire).drop n :=
      unread_advance hbuffered (by omega) rfl rfl
    rw [buffered_eq hbuffered (by omega) wire, hadvance, hbytes, ← hn, ← hn']
    exact ⟨List.take_left, List.drop_left⟩
  unfold Frame.lengthCode at hcode
  unfold readLength at h
  split at hcode
  · rename_i hshort
    rw [if_neg (by omega), if_neg (by omega)] at h
    cases h
    have hnone : f.extension = [] := by
      unfold Frame.extension
      exact if_pos hshort
    rw [hnone] at hlength hbytes
    simp only [List.length_nil, Nat.zero_add] at hlength
    exact ⟨hbuffered, hcode, hlength, hbytes⟩
  · rename_i hlong
    split at hcode
    · rename_i hmiddle
      have hext : f.extension = bigEndian 2 f.payload.length := by
        unfold Frame.extension
        rw [if_neg hlong, if_pos hmiddle]
      obtain ⟨hbuf, hrest⟩ := hread 2 hext
      rw [if_pos hcode, hbuf, ofBigEndian_bigEndian 2 _ (by omega)] at h
      rw [hext, length_bigEndian] at hlength
      cases h
      refine ⟨hbuffered.advance (by omega) rfl rfl, rfl, ?_, hrest⟩
      dsimp only
      omega
    · rename_i hhuge
      have hext : f.extension = bigEndian 8 f.payload.length := by
        unfold Frame.extension
        rw [if_neg hlong, if_neg hhuge]
      obtain ⟨hbuf, hrest⟩ := hread 8 hext
      have hl : asLong f.payload.length = f.payload.length := if_pos hpayload
      rw [if_neg (by omega), if_pos hcode, hbuf, ofBigEndian_bigEndian 8 _ (by omega), hl] at h
      rw [hext, length_bigEndian] at hlength
      dsimp only at h
      split at h
      · cases h
      · cases h
        refine ⟨hbuffered.advance (by omega) rfl rfl, rfl, ?_, hrest⟩
        dsimp only
        omega

/-- The mask is behind the length of the payload. -/
theorem readMaskBytes_eq {rest : List UInt8} (hbuffered : Buffered t)
    (hlength : (f.maskBytes t.incoming).length ≤ t.readBuffer.i - t.readI)
    (hbytes : t.unread wire = f.maskBytes t.incoming ++ rest) :
    Buffered t.readMaskBytes ∧ t.readMaskBytes.readPayloadLength = t.readPayloadLength ∧
      t.readMaskBytes.unread wire = rest := by
  rw [Frame.length_maskBytes] at hlength
  unfold readMaskBytes
  split
  · rename_i hmasked
    rw [hmasked, if_pos rfl] at hlength
    refine ⟨hbuffered.advance hlength rfl rfl, rfl, ?_⟩
    apply Eq.trans (b := (t.unread wire).drop 4)
    · exact unread_advance hbuffered hlength rfl rfl
    · rw [hbytes, hmasked]
      rfl
  · rename_i hmasked
    rw [Bool.eq_false_iff.mpr hmasked] at hbytes
    exact ⟨hbuffered, rfl, hbytes⟩

/-- What the start of a frame changes -/
structure Started (t t' : WSTransceiver) (interested : Bool) : Prop where
  answers : Answers [] t t'
  readBuffer : t'.readBuffer = t.readBuffer
  readI : t'.readI = t.readI
  readOpCode : t'.readOpCode = t.readOpCode
  readPayloadLength : t'.readPayloadLength = t.readPayloadLength
  goesOn : interested = true → t.readOpCode ≠ opClose ∧
    (t'.readState = .controlFrame ∨
      t'.readState = .payload ∧ t.readOpCode ≠ opPing ∧ 0 < t.readPayloadLength)
  closes : interested = false → t.readOpCode = opClose ∧ t'.readState = t.readState

theorem started_startFrame {interested : Bool} (h : t.startFrame buf = .ok (interested, t')) :
    Started t t' interested := by
  unfold startFrame at h
  split at h
  · cases h
  · split at h
    · rename_i hdata
      split at h
      · cases h
      · rename_i hpos
        cases h
        refine ⟨.of_eq rfl rfl rfl rfl rfl, rfl, rfl, rfl, rfl, fun _ => ?_, nofun⟩
        have hne : t.readOpCode ≠ opClose ∧ t.readOpCode ≠ opPing := by
          rcases hdata with hdata | hdata
          · rw [hdata]
            decide
          · rw [hdata]
            decide
        exact ⟨hne.1, .inr ⟨rfl, hne.2, Nat.pos_of_ne_zero hpos⟩⟩
    · split at h
      · rename_i hclose
        have hpongDue {state nextState : WSState}
            (hs : state = t.state ∨ state = .closingResponsePending)
            (hn : nextState = t.nextState ∨ nextState = .closingResponsePending) :
            PongDue { t with state := state, nextState := nextState, closingInitiator := true } →
              t.PongDue := by
          unfold PongDue
          grind
        split at h
        · dsimp only at h
          split at h
          · cases h
            refine ⟨⟨rfl, rfl, by simp, rfl, fun hdue => .inl ?_⟩, rfl, rfl, rfl, rfl, nofun,
              fun _ => ⟨hclose, rfl⟩⟩
            exact hpongDue (.inr rfl) (.inl rfl) hdue
          · cases h
            refine ⟨⟨rfl, rfl, by simp, rfl, fun hdue => .inl ?_⟩, rfl, rfl, rfl, rfl, nofun,
              fun _ => ⟨hclose, rfl⟩⟩
            exact hpongDue (.inl rfl) (.inr rfl) hdue
        · cases h
      · split at h
        · rename_i hclose hcontrol
          cases h
          exact ⟨.of_eq rfl rfl rfl rfl rfl, rfl, rfl, rfl, rfl, fun _ => ⟨hclose, .inl rfl⟩, nofun⟩
        · cases h

/-- What the end of a ping or pong frame changes -/
theorem endControlFrame_eq (t : WSTransceiver) : ∃ state nextState,
    t.endControlFrame = { t with
      state := state
      nextState := nextState
      readState := .opcode
      readI := t.readI + t.readPayloadLength
      readPayloadLength := 0
      pingPayload := t.keepPayload.pingPayload } ∧
    (t.readOpCode ≠ opPing → state = t.state ∧ nextState = t.nextState) := by
  have hkeep : t.keepPayload = { t with pingPayload := t.keepPayload.pingPayload } := by
    unfold keepPayload
    split
    · rfl
    · rfl
  unfold endControlFrame
  rw [hkeep]
  dsimp only
  split
  · rename_i hping
    unfold pinged
    split
    · exact ⟨_, _, rfl, fun hne => absurd hping hne⟩
    · split
      all_goals exact ⟨_, _, rfl, fun hne => absurd hping hne⟩
  · exact ⟨_, _, rfl, fun _ => ⟨rfl, rfl⟩⟩

/-- The payload of a ping is kept as it is on the wire. -/
theorem keepPayload_eq {rest : List UInt8} (hbuffered : Buffered t)
    (hopCode : t.readOpCode = f.opCode) (hlength : t.readPayloadLength = f.payload.length)
    (hfits : t.readPayloadLength ≤ t.readBuffer.i - t.readI)
    (hbytes : t.unread wire = f.payload ++ rest) :
    t.keepPayload.pingPayload = kept t.pingPayload f := by
  unfold keepPayload kept
  by_cases hping : f.opCode = opPing ∧ f.payload ≠ []
  · rw [if_pos hping, if_pos]
    · dsimp only
      rw [buffered_eq hbuffered hfits wire, hbytes, hlength, List.take_left]
    · rw [hopCode, hlength, hping.1]
      simpa using List.length_pos_iff.mpr hping.2
  · rw [if_neg hping, if_neg]
    rw [hopCode, hlength]
    simp only [Bool.and_eq_true, decide_eq_true_eq]
    rintro ⟨hpos, hop⟩
    exact hping ⟨hop, List.length_pos_iff.mp hpos⟩

theorem took_endControlFrame (hbuffered : Buffered t) (hopCode : t.readOpCode = f.opCode)
    (hclose : f.opCode ≠ opClose) (hlength : t.readPayloadLength = f.payload.length)
    (hfits : t.readPayloadLength ≤ t.readBuffer.i - t.readI)
    (hbytes : t.unread wire = f.payload ++ wireOf t.incoming rest) :
    Took t t.endControlFrame wire copied (f :: rest) [f] rest := by
  have hkeep := keepPayload_eq hbuffered hopCode hlength hfits hbytes
  obtain ⟨state, nextState, heq, hstates⟩ := endControlFrame_eq t
  rw [heq]
  constructor
  · rfl
  · constructor
    · rfl
    · rfl
    · intro g hg
      rw [List.mem_singleton.mp hg]
      exact hclose
    · exact hkeep
    · intro hdue
      by_cases hping : f.opCode = opPing
      · exact .inr ⟨f, List.mem_singleton_self f, hping⟩
      · obtain ⟨hs, hn⟩ := hstates (hopCode ▸ hping)
        rw [hs, hn] at hdue
        exact .inl hdue
  · exact hbuffered.advance hfits rfl rfl
  · apply Or.inl
    apply Stage.opcode rfl
    apply Eq.trans (b := (t.unread wire).drop t.readPayloadLength)
    · exact unread_advance hbuffered hfits rfl rfl
    · rw [hbytes, hlength, List.drop_left]

/-- What a pass of the loop of `preRead` comes to -/
structure Passed (t t' : WSTransceiver) (wire : List UInt8) (frames : List Frame) (buf' : Buffer)
    (o : Option Bool) : Prop where
  took : ∃ read left, Took t t' wire (buf'.i - t'.readStart) frames read left
  again : o = none → t'.readState = .opcode
  drained : o = some true → t'.readState = .payload → buf'.i < buf'.b.length →
    t'.readI = t'.readBuffer.i
  start : t'.readState = .payload → t'.readStart ≤ buf'.i

theorem passed_controlFrame (hbuffered : Buffered t) (hstate : t.readState = .controlFrame)
    (hopCode : t.readOpCode = f.opCode) (hclose : f.opCode ≠ opClose)
    (hlength : t.readPayloadLength = f.payload.length)
    (hbytes : t.unread wire = f.payload ++ wireOf t.incoming rest)
    (h : t.preReadBody buf = (o, t', buf')) : Passed t t' wire (f :: rest) buf' o := by
  obtain ⟨hmoved, hbuffered', hunread, hfits, hzero⟩ :=
    readBufferedIf_eq hbuffered t.readPayloadLength wire
  unfold preReadBody at h
  rw [if_pos hstate] at h
  split at h
  · rename_i u hu
    rw [hu] at hmoved hbuffered' hunread hfits hzero
    cases h
    dsimp only at hmoved hbuffered' hunread hzero
    have hpos : 0 < t.readPayloadLength := by
      rcases Nat.eq_zero_or_pos t.readPayloadLength with h0 | hpos
      · cases hzero h0
      · exact hpos
    have hstate' : t'.readState ≠ .payload := by
      rw [hmoved.readState, hstate]
      decide
    refine ⟨⟨[], f :: rest, rfl, hmoved.answers, hbuffered', .inl ?_⟩, nofun,
      fun _ hpayload _ => absurd hpayload hstate', fun hpayload => absurd hpayload hstate'⟩
    apply Stage.controlFrame f rest rfl (hmoved.readState.trans hstate)
      (hmoved.readOpCode.trans hopCode) hclose (hmoved.readPayloadLength.trans hlength)
    · rw [hmoved.readPayloadLength]
      exact hpos
    · rw [hunread, hmoved.incoming]
      exact hbytes
  · rename_i u hu
    rw [hu] at hmoved hbuffered' hunread hfits
    cases h
    dsimp only at hmoved hbuffered' hunread hfits
    have hstate' : u.endControlFrame.readState ≠ .payload := nofun
    have htook : Took u u.endControlFrame wire (buf.i - u.endControlFrame.readStart)
        (f :: rest) [f] rest := by
      apply took_endControlFrame hbuffered' (hmoved.readOpCode.trans hopCode) hclose
        (hmoved.readPayloadLength.trans hlength)
      · rw [hmoved.readPayloadLength]
        exact hfits rfl
      · rw [hunread, hmoved.incoming]
        exact hbytes
    exact ⟨⟨[f], rest, Took.of_answers hmoved.answers htook⟩, fun _ => rfl, nofun,
      fun hpayload => absurd hpayload hstate'⟩

theorem passed_payload {k : Nat} (hbuffered : Buffered t) (hstate : t.readState = .payload)
    (hping : f.opCode ≠ opPing) (hclose : f.opCode ≠ opClose)
    (hlength : k + t.readPayloadLength = f.payload.length) (hpos : 0 < t.readPayloadLength)
    (hbytes : t.unread wire = f.payload.drop k ++ wireOf t.incoming rest)
    (h : t.preReadBody buf = (o, t', buf')) : Passed t t' wire (f :: rest) buf' o := by
  unfold preReadBody at h
  rw [if_neg (by rw [hstate]; decide)] at h
  unfold copyPayload at h
  dsimp only at h
  split at h
  · cases h
    refine ⟨⟨[], f :: rest, rfl, .of_eq rfl rfl rfl rfl rfl, ⟨hbuffered.readI, hbuffered.i⟩,
      .inl ?_⟩,
      nofun, nofun, fun _ => Nat.le_refl _⟩
    refine .payload f rest rfl hstate hping hclose k hlength ?_ hpos ?_
    · dsimp only
      omega
    · dsimp only
      rw [Nat.sub_self, Nat.add_zero]
      exact hbytes
  · rename_i hroom
    generalize hn : min (min (t.readBuffer.i - t.readI) (buf.b.length - buf.i))
      t.readPayloadLength = n at h
    cases h
    have hfits : n ≤ t.readBuffer.i - t.readI := by
      omega
    have hcopied : (buf.i + n) - buf.i = n := by
      omega
    have hbytes' : (t.buffered n).length = n := by
      have hi := hbuffered.i
      unfold buffered
      rw [length_take, length_drop]
      omega
    refine ⟨⟨[], f :: rest, rfl, .of_eq rfl rfl rfl rfl rfl, ?_, .inl ?_⟩, nofun, ?_, ?_⟩
    · exact hbuffered.advance hfits rfl rfl
    · refine .payload f rest rfl hstate hping hclose k hlength ?_ hpos ?_
      · dsimp only
        omega
      · dsimp only
        rw [hcopied]
        apply Eq.trans (b := (t.unread wire).drop n)
        · exact unread_advance hbuffered hfits rfl rfl
        · rw [hbytes, List.drop_append_of_le_length, drop_drop]
          rw [length_drop]
          omega
    · intro hmore _ hroom'
      have hless := (Bool.and_eq_true_iff.mp (Option.some.inj hmore)).2
      have hless' := of_decide_eq_true hless
      dsimp only at hroom' ⊢
      unfold Buffer.overwrite at hroom'
      rw [length_append, length_append, length_take, length_drop] at hroom'
      change buf.i + n < min buf.i buf.b.length + (t.buffered n).length +
        (buf.b.length - (buf.i + (t.buffered n).length)) at hroom'
      rw [hbytes'] at hroom'
      have hi := hbuffered.readI
      omega
    · intro _
      exact Nat.le_add_right _ _

theorem Passed.of_answers (h : Answers read t t') (h' : Passed t' t'' wire frames buf' o) :
    Passed t t'' wire (read ++ frames) buf' o := by
  obtain ⟨read', left, htook⟩ := h'.took
  exact ⟨⟨read ++ read', left, htook.of_answers h⟩, h'.again, h'.drained, h'.start⟩

/-- The rest of the header, and what follows it -/
theorem passed_header (hbuffered : Buffered t) (hstate : t.readState = .header)
    (hheader : Announced t f) (hvalid : f.Valid)
    (hbytes : t.unread wire =
      f.extension ++ f.maskBytes t.incoming ++ (f.payload ++ wireOf t.incoming rest))
    (h : t.preReadHeader buf = .ok (o, t', buf')) : Passed t t' wire (f :: rest) buf' o := by
  obtain ⟨hmoved, hbuffered', hunread, hfits, hzero⟩ :=
    readBufferedIf_eq hbuffered t.readHeaderLength wire
  unfold preReadHeader at h
  split at h
  · rename_i u hu
    rw [hu] at hmoved hbuffered' hunread hzero
    cases h
    dsimp only at hmoved hbuffered' hunread hzero
    have hpos : 0 < t.readHeaderLength := by
      rcases Nat.eq_zero_or_pos t.readHeaderLength with h0 | hpos
      · cases hzero h0
      · exact hpos
    have hstate' : t'.readState ≠ .payload := by
      rw [hmoved.readState, hstate]
      decide
    refine ⟨⟨[], f :: rest, rfl, hmoved.answers, hbuffered', .inl ?_⟩, nofun,
      fun _ hpayload _ => absurd hpayload hstate', fun hpayload => absurd hpayload hstate'⟩
    refine .header f rest rfl (hmoved.readState.trans hstate) ?_ ?_ ?_
    · constructor
      · exact hmoved.readOpCode.trans hheader.opCode
      · exact hmoved.readPayloadLength.trans hheader.payloadLength
      · rw [hmoved.readHeaderLength, hmoved.incoming]
        exact hheader.headerLength
    · rw [hmoved.readHeaderLength]
      exact hpos
    · rw [hunread, hmoved.incoming]
      exact hbytes
  · rename_i u hu
    rw [hu] at hmoved hbuffered' hunread hfits
    dsimp only at hmoved hbuffered' hunread hfits
    have hheader' : Announced u f := by
      constructor
      · exact hmoved.readOpCode.trans hheader.opCode
      · exact hmoved.readPayloadLength.trans hheader.payloadLength
      · rw [hmoved.readHeaderLength, hmoved.incoming]
        exact hheader.headerLength
    have hfits' := hfits rfl
    rw [hheader.headerLength] at hfits'
    rw [← hunread, append_assoc] at hbytes
    cases hl : u.readLength with
    | error _ => simp [hl, bind, Except.bind] at h
    | ok v =>
      obtain ⟨hanswersV, hstateV, hopCodeV⟩ := answers_readLength hl
      obtain ⟨hbufferedV, hlengthV, hfitsV, hunreadV⟩ :=
        readLength_announced hbuffered' hheader' hvalid hfits' hbytes hl
      obtain ⟨hanswersM, hstateM, hopCodeM⟩ := answers_readMaskBytes v
      have hincoming : v.incoming = t.incoming := hanswersV.incoming.trans hmoved.incoming
      rw [← hincoming] at hfitsV hunreadV
      obtain ⟨hbufferedM, hlengthM, hunreadM⟩ := readMaskBytes_eq hbufferedV hfitsV hunreadV
      have hanswers : Answers [] t v.readMaskBytes :=
        (hmoved.answers.trans hanswersV).trans hanswersM
      have hopCode : v.readMaskBytes.readOpCode = f.opCode := by
        rw [hopCodeM, hopCodeV, hheader'.opCode]
      cases hs : v.readMaskBytes.startFrame buf with
      | error _ => simp [hl, hs, bind, Except.bind] at h
      | ok r =>
        obtain ⟨interested, w⟩ := r
        have hw := started_startFrame hs
        have hbufferedW : Buffered w := by
          constructor
          · rw [hw.readBuffer, hw.readI]
            exact hbufferedM.readI
          · rw [hw.readBuffer]
            exact hbufferedM.i
        have hunreadW : w.unread wire = f.payload ++ wireOf w.incoming rest := by
          unfold unread at hunreadM ⊢
          rw [hw.readBuffer, hw.readI, hunreadM, hw.answers.incoming, hanswersM.incoming]
        have hanswersW : Answers [] t w := hanswers.trans hw.answers
        have hlengthW : w.readPayloadLength = f.payload.length :=
          hw.readPayloadLength.trans (hlengthM.trans hlengthV)
        simp only [hl, hs, bind, Except.bind] at h
        cases interested
        · cases h
          obtain ⟨hclose, hstateW⟩ := hw.closes rfl
          have hstate' : t'.readState = .header := by
            rw [hstateW, hstateM, hstateV, hmoved.readState, hstate]
          have hne : t'.readState ≠ .payload := by
            rw [hstate']
            decide
          refine ⟨⟨[], f :: rest, rfl, hanswersW, hbufferedW, .inr ⟨?_, ?_⟩⟩, nofun,
            nofun, fun hpayload => absurd hpayload hne⟩
          · exact ⟨hstate', hw.readOpCode.trans hclose, f, rest, rfl, hopCode ▸ hclose⟩
          · rw [hunreadW, wireOf_cons, Frame.bytes, append_assoc]
            simp only [length_append]
            omega
        · obtain ⟨hclose, hgoesOn⟩ := hw.goesOn rfl
          rw [hopCode] at hclose hgoesOn
          apply Passed.of_answers hanswersW
          rcases hgoesOn with hcontrol | ⟨hpayload, hping, hpos⟩
          · exact passed_controlFrame hbufferedW hcontrol (hw.readOpCode.trans hopCode) hclose
              hlengthW hunreadW (Except.ok.inj h)
          · apply passed_payload hbufferedW hpayload hping hclose (k := 0) _ _ _
              (Except.ok.inj h)
            · rw [Nat.zero_add]
              exact hlengthW
            · rw [hw.readPayloadLength]
              exact hpos
            · exact hunreadW

/-- Where the bytes begin that are left at the start of a pass -/
theorem passed_preReadPass (hbuffered : Buffered t) (hstage : Stage t 0 frames (t.unread wire))
    (hvalid : ∀ f ∈ frames, f.Valid) (h : t.preReadPass buf = .ok (o, t', buf')) :
    Passed t t' wire frames buf' o := by
  unfold preReadPass at h
  cases hstage with
  | opcode hstate hbytes =>
    obtain ⟨hmoved, hbuffered', hunread, hfits⟩ := readBuffered_eq hbuffered 2 wire
    rw [hstate] at h
    dsimp only at h
    split at h
    · rename_i u hu
      rw [hu] at hmoved hbuffered' hunread
      cases h
      dsimp only at hmoved hbuffered' hunread
      have hstate' : t'.readState ≠ .payload := by
        rw [hmoved.readState, hstate]
        decide
      refine ⟨⟨[], frames, rfl, hmoved.answers, hbuffered', .inl ?_⟩, nofun,
        fun _ hpayload _ => absurd hpayload hstate', fun hpayload => absurd hpayload hstate'⟩
      refine .opcode (hmoved.readState.trans hstate) ?_
      rw [hunread, hmoved.incoming]
      exact hbytes
    · rename_i u hu
      rw [hu] at hmoved hbuffered' hunread hfits
      dsimp only at hmoved hbuffered' hunread hfits
      rw [← hunread, ← hmoved.incoming] at hbytes
      cases ho : u.readOpcode with
      | error _ => simp [ho, bind, Except.bind] at h
      | ok v =>
        obtain ⟨f, rest, rfl, hbufferedV, hanswersV, hheaderV, hstateV, hunreadV⟩ :=
          readOpcode_announced hbuffered' (hfits rfl) hbytes hvalid ho
        simp only [ho, bind, Except.bind] at h
        rw [← hanswersV.incoming] at hunreadV
        exact Passed.of_answers (hmoved.answers.trans hanswersV)
          (passed_header hbufferedV hstateV hheaderV (hvalid f mem_cons_self) hunreadV
            h)
  | header f rest hframes hstate hheader hpos hbytes =>
    subst hframes
    rw [hstate] at h
    exact passed_header hbuffered hstate hheader (hvalid f mem_cons_self) hbytes h
  | controlFrame f rest hframes hstate hopCode hclose hlength hpos hbytes =>
    subst hframes
    rw [hstate] at h
    exact passed_controlFrame hbuffered hstate hopCode hclose hlength hbytes
      (Except.ok.inj h)
  | payload f rest hframes hstate hping hclose sent hlength hcopied hpos hbytes =>
    subst hframes
    rw [hstate] at h
    exact passed_payload hbuffered hstate hping hclose hlength hpos hbytes
      (Except.ok.inj h)

theorem Stage.of_ne_payload {copied' : Nat} (h : Stage t copied frames bytes)
    (hne : t.readState ≠ .payload) : Stage t copied' frames bytes := by
  cases h with
  | opcode hstate hbytes => exact .opcode hstate hbytes
  | header f rest hframes hstate hheader hpos hbytes =>
    exact .header f rest hframes hstate hheader hpos hbytes
  | controlFrame f rest hframes hstate hopCode hclose hlength hpos hbytes =>
    exact .controlFrame f rest hframes hstate hopCode hclose hlength hpos hbytes
  | payload f rest hframes hstate => exact absurd hstate hne

theorem passed_preReadLoop {fuel : Nat} (hbuffered : Buffered t)
    (hstage : Stage t 0 frames (t.unread wire)) (hvalid : ∀ f ∈ frames, f.Valid)
    (hfuel : fuel = 0 → t.readState ≠ .payload)
    (h : preReadLoop fuel t buf = .ok (more, t', buf')) :
    Passed t t' wire frames buf' (some more) := by
  induction fuel generalizing t frames buf with
  | zero =>
    cases h
    have hne := hfuel rfl
    refine ⟨⟨[], frames, rfl, .refl _, hbuffered, .inl (hstage.of_ne_payload hne)⟩,
      nofun, fun _ hpayload _ => absurd hpayload hne, fun hpayload => absurd hpayload hne⟩
  | succ fuel ih =>
    cases hp : t.preReadPass buf with
    | error _ => simp [preReadLoop, hp, bind, Except.bind] at h
    | ok r =>
      obtain ⟨o, u, buf''⟩ := r
      have hpassed := passed_preReadPass hbuffered hstage hvalid hp
      simp only [preReadLoop, hp, bind, Except.bind] at h
      cases o with
      | some _ =>
        cases h
        exact hpassed
      | none =>
        have hopcode := hpassed.again rfl
        have hne : u.readState ≠ .payload := by
          rw [hopcode]
          decide
        obtain ⟨read, left, htook⟩ := hpassed.took
        have hstageU : Stage u 0 left (u.unread wire) := by
          rcases htook.stage with hstage | ⟨hclosed, _⟩
          · exact hstage.of_ne_payload hne
          · have hheader := hclosed.readState
            rw [hopcode] at hheader
            cases hheader
        rw [htook.frames_eq]
        rw [htook.frames_eq] at hvalid
        apply Passed.of_answers htook.answers
        exact ih htook.buffered hstageU
          (fun f hf => hvalid f (List.mem_append_right read hf)) 
          (fun _ => hne) h

/-- What comes in is put behind what is in the read buffer. -/
theorem unread_received (h : Buffered t) (k : Nat) (wire : List UInt8) :
    unread { t with readBuffer :=
      ⟨Buffer.overwrite t.readBuffer.b t.readBuffer.i (wire.take k),
        t.readBuffer.i + (wire.take k).length⟩ } (wire.drop (wire.take k).length) =
      t.unread wire := by
  have hreadI := h.readI
  have hi := h.i
  have hwire : wire.take k ++ wire.drop (wire.take k).length = wire := by
    rw [length_take]
    rcases Nat.le_total k wire.length with hle | hle
    · rw [Nat.min_eq_left hle, List.take_append_drop]
    · rw [Nat.min_eq_right hle, List.take_of_length_le hle, List.drop_length, List.append_nil]
  unfold unread
  dsimp only
  rw [Buffer.take_overwrite hi, List.drop_append_of_le_length, append_assoc, hwire]
  rw [length_take]
  omega

theorem Passed.received {u : WSTransceiver} (h : Passed t t' wire frames buf' (some more))
    (hr : t'.receive buf' wire more a = (u, buf'', wire')) :
    (u.readState = .payload → u.readStart ≤ buf''.i) ∧
      ∃ read left, Took t u wire' (buf''.i - u.readStart) frames read left := by
  obtain ⟨read, left, htook⟩ := h.took
  unfold receive at hr
  split at hr
  · cases hr
    exact ⟨h.start, read, left, htook⟩
  · rename_i hmore
    have hmore' : more = true := by
      simpa using hmore
    split at hr
    · rename_i hpayload
      have hstart := h.start hpayload
      have hdrained := h.drained (by rw [hmore']) hpayload
      dsimp only at hr
      generalize hk : min a.count (min (buf'.b.length - buf'.i)
        (t'.readPayloadLength - (buf'.i - t'.readStart))) = k at hr
      cases hr
      have hlength : (wire.take k).length ≤ k := by
        rw [length_take]
        exact Nat.min_le_left _ _
      -- where there is room in the buffer the read buffer is used up
      have hunread : t'.unread (wire.drop (wire.take k).length) =
          (t'.unread wire).drop (wire.take k).length := by
        by_cases hroom : buf'.i < buf'.b.length
        · have hnone : (t'.readBuffer.b.take t'.readBuffer.i).drop t'.readI = [] := by
            rw [hdrained hroom]
            apply List.drop_of_length_le
            rw [length_take]
            exact Nat.min_le_left _ _
          unfold unread
          rw [hnone, nil_append, nil_append]
        · have hzero : (wire.take k).length = 0 := by
            omega
          rw [hzero, drop_zero, drop_zero]
      refine ⟨?_, read, left, htook.frames_eq, htook.answers, htook.buffered, .inl ?_⟩
      · intro _
        dsimp only
        omega
      · rcases htook.stage with hstage | ⟨hclosed, _⟩
        · cases hstage with
          | opcode hstate hbytes | header f rest hframes hstate hheader hpos hbytes
          | controlFrame f rest hframes hstate hopCode hclose hlength hpos hbytes =>
            rw [hpayload] at hstate
            cases hstate
          | payload f rest hframes hstate hping hclose sent hpayloadLength hcopied hpos hbytes =>
            refine .payload f rest hframes hstate hping hclose sent hpayloadLength ?_ hpos ?_
            · dsimp only
              omega
            · rw [hunread]
              have hcopied' : sent + (buf'.i + (wire.take k).length - t'.readStart) =
                  sent + (buf'.i - t'.readStart) + (wire.take k).length := by
                omega
              dsimp only
              rw [hcopied', ← drop_drop]
              generalize (wire.take k).length = n at hlength
              rw [hbytes, List.drop_append_of_le_length]
              rw [length_drop]
              omega
        · have hheader := hclosed.readState
          rw [hpayload] at hheader
          cases hheader
    · rename_i hne
      dsimp only at hr
      generalize hk : min a.count (t'.readBuffer.b.length - t'.readBuffer.i) = k at hr
      have hlength : (wire.take k).length ≤ k := by
        rw [length_take]
        exact Nat.min_le_left _ _
      have hunread := unread_received htook.buffered k wire
      have hreadI := htook.buffered.readI
      have hi := htook.buffered.i
      generalize hbytes : wire.take k = received at hr hlength hunread
      cases hr
      refine ⟨fun hpayload => absurd hpayload hne, read, left, htook.frames_eq,
        htook.answers.append_nil (.of_eq rfl rfl rfl rfl rfl), ⟨?_, ?_⟩, ?_⟩
      · dsimp only
        omega
      · dsimp only
        rw [Buffer.length_overwrite]
        · omega
        · omega
      · rw [hunread]
        rcases htook.stage with hstage | ⟨hclosed, hle⟩
        · exact .inl (hstage.congr rfl rfl rfl rfl rfl)
        · exact .inr ⟨hclosed.congr rfl rfl, hle⟩

/-- A frame whose payload is all there was read. -/
theorem Took.settle (h : Took t t' wire (buf.i - t'.readStart) frames read left)
    (hstart : t'.readState = .payload → t'.readStart ≤ buf.i)
    (hq : t'.postRead buf = (again, u, buf')) :
    ∃ read' left', Took t u wire 0 frames read' left' := by
  unfold postRead at hq
  split at hq
  · rename_i hne
    cases hq
    refine ⟨read, left, h.frames_eq, h.answers, h.buffered, ?_⟩
    rcases h.stage with hstage | hclosed
    · exact .inl (hstage.of_ne_payload hne)
    · exact .inr hclosed
  · rename_i hpayload
    have hpayload' : t'.readState = .payload := Classical.not_not.mp hpayload
    split at hq
    · rename_i hnone
      cases hq
      have hstage := h.stage
      rw [hnone, Nat.sub_self] at hstage
      exact ⟨read, left, h.frames_eq, h.answers, h.buffered, hstage⟩
    · rename_i hsome
      dsimp only at hq
      rcases h.stage with hstage | ⟨hclosed, _⟩
      · cases hstage with
        | opcode hstate hbytes | header f rest hframes hstate hheader hpos hbytes
        | controlFrame f rest hframes hstate hopCode hclose hlength hpos hbytes =>
          rw [hpayload'] at hstate
          cases hstate
        | payload f rest hframes hstate hping hclose sent hlength hcopied hpos hbytes =>
          cases hq
          by_cases hall : t'.readPayloadLength - (buf.i - t'.readStart) = 0
          · have hanswers : Answers [f] t' { t' with
                readPayloadLength := t'.readPayloadLength - (buf.i - t'.readStart)
                readStart := buf.i
                readState := if t'.readPayloadLength - (buf.i - t'.readStart) = 0
                  then .opcode else .payload } :=
              Answers.other (.of_eq rfl rfl rfl rfl rfl) hping hclose
            refine ⟨read ++ [f], rest, ?_, h.answers.trans hanswers,
              ⟨h.buffered.readI, h.buffered.i⟩, .inl (.opcode (if_pos hall) ?_)⟩
            · rw [h.frames_eq, hframes, append_assoc]
              rfl
            · change t'.unread wire = wireOf t'.incoming rest
              rw [hbytes, List.drop_of_length_le (by omega), nil_append]
          · refine ⟨read, left, h.frames_eq, h.answers.append_nil (.of_eq rfl rfl rfl rfl rfl),
              ⟨h.buffered.readI, h.buffered.i⟩, .inl ?_⟩
            refine .payload f rest hframes (if_neg hall) hping hclose
              (sent + (buf.i - t'.readStart)) ?_ (Nat.zero_le _) ?_ hbytes
            · dsimp only
              omega
            · dsimp only
              omega
      · have hheader := hclosed.readState
        rw [hpayload'] at hheader
        cases hheader

variable {v w : WSTransceiver} {buf₃ : Buffer}

/-- A round of the loop of `read` reads some of the frames. -/
theorem took_round (hbuffered : Buffered t)
    (hstage : Stage t 0 frames (t.unread wire)) (hvalid : ∀ f ∈ frames, f.Valid)
    (hp : t.preRead buf = .ok (more, u, buf'))
    (hr : u.receive buf' wire more a = (v, buf'', wire'))
    (hq : v.postRead buf'' = (again, w, buf₃)) :
    ∃ read left, Took t w wire' 0 frames read left := by
  have hpassed : Passed t u wire frames buf' (some more) :=
    passed_preReadLoop hbuffered hstage hvalid (fun hzero => absurd hzero (by omega)) hp
  obtain ⟨hstart, read, left, htook⟩ := hpassed.received hr
  exact htook.settle hstart hq

/-- The frames that were read are told by how many bytes are left. -/
theorem Took.readFrames_eq (h : Took t t' wire 0 frames read left) :
    readFrames t'.incoming frames (t'.unread wire).length = (read, left) := by
  rw [h.frames_eq]
  apply Ice.Connection.readFrames_eq h.answers.noClose
  rcases h.stage with hstage | ⟨hclosed, hle⟩
  · exact hstage.settled
  · obtain ⟨f, rest, rfl, hclose⟩ := hclosed.first
    constructor
    · exact hle
    · intro g rest' heq
      rw [← (List.cons.inj heq).1]
      exact .inl hclose

theorem moved_readBufferedIf (sz : Nat) (t : WSTransceiver) : Moved t (t.readBufferedIf sz).2 := by
  unfold readBufferedIf
  split
  · unfold readBuffered
    dsimp only
    split
    · exact ⟨rfl, rfl, rfl, rfl, rfl, rfl, rfl, rfl, rfl⟩
    · split
      all_goals exact ⟨rfl, rfl, rfl, rfl, rfl, rfl, rfl, rfl, rfl⟩
  · exact ⟨rfl, rfl, rfl, rfl, rfl, rfl, rfl, rfl, rfl⟩

theorem closed_preReadHeader (hclosed : Closed t frames)
    (h : t.preReadHeader buf = .ok (o, t', buf')) :
    o ≠ none ∧ Answers [] t t' ∧ Closed t' frames := by
  have hmoved := moved_readBufferedIf t.readHeaderLength t
  unfold preReadHeader at h
  split at h
  · rename_i u hu
    rw [hu] at hmoved
    cases h
    exact ⟨nofun, hmoved.answers, hclosed.congr hmoved.readState hmoved.readOpCode⟩
  · rename_i u hu
    rw [hu] at hmoved
    dsimp only at hmoved
    cases hl : u.readLength with
    | error _ => simp [hl, bind, Except.bind] at h
    | ok v =>
      obtain ⟨hanswersV, hstateV, hopCodeV⟩ := answers_readLength hl
      obtain ⟨hanswersM, hstateM, hopCodeM⟩ := answers_readMaskBytes v
      cases hs : v.readMaskBytes.startFrame buf with
      | error _ => simp [hl, hs, bind, Except.bind] at h
      | ok r =>
        obtain ⟨interested, w⟩ := r
        have hw := started_startFrame hs
        have hopCode : v.readMaskBytes.readOpCode = opClose := by
          rw [hopCodeM, hopCodeV, hmoved.readOpCode, hclosed.opCode]
        simp only [hl, hs, bind, Except.bind] at h
        cases interested
        · cases h
          obtain ⟨_, hstateW⟩ := hw.closes rfl
          refine ⟨nofun, ((hmoved.answers.append_nil hanswersV).append_nil
            hanswersM).append_nil hw.answers, ?_, hw.readOpCode.trans hopCode, hclosed.first⟩
          rw [hstateW, hstateM, hstateV, hmoved.readState, hclosed.readState]
        · exact absurd hopCode (hw.goesOn rfl).1

theorem closed_round (hclosed : Closed t frames)
    (hp : t.preRead buf = .ok (more, u, buf'))
    (hr : u.receive buf' wire more a = (v, buf'', wire'))
    (hq : v.postRead buf'' = (again, w, buf₃)) : Answers [] t w ∧ Closed w frames := by
  obtain ⟨hanswers, hclosedU⟩ : Answers [] t u ∧ Closed u frames := by
    cases hh : t.preReadHeader buf with
    | error _ =>
      simp [preRead, preReadLoop, preReadPass, hclosed.readState, hh, bind, Except.bind] at hp
    | ok r =>
      obtain ⟨o, u', buf₁⟩ := r
      obtain ⟨hsome, hanswers, hclosed'⟩ := closed_preReadHeader hclosed hh
      simp only [preRead, preReadLoop, preReadPass, hclosed.readState, hh, bind,
        Except.bind] at hp
      cases o with
      | none => exact absurd rfl hsome
      | some _ =>
        cases hp
        exact ⟨hanswers, hclosed'⟩
  have hne : u.readState ≠ .payload := by
    rw [hclosedU.readState]
    decide
  obtain ⟨hanswersV, hclosedV⟩ : Answers [] u v ∧ Closed v frames := by
    unfold receive at hr
    split at hr
    · cases hr
      exact ⟨.refl _, hclosedU⟩
    · cases hr
      exact ⟨.of_eq rfl rfl rfl rfl rfl, hclosedU.congr rfl rfl⟩
  have hneV : v.readState ≠ .payload := by
    rw [hclosedV.readState]
    decide
  unfold postRead at hq
  rw [if_pos hneV] at hq
  cases hq
  exact ⟨hanswers.append_nil hanswersV, hclosedV⟩

end WSTransceiver

end Ice.Connection
