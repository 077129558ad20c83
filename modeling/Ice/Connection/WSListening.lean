import Ice.Connection.WSTransceiver

/-!
# What `read` and `closing` do to the writing side

They leave the write buffer and its state alone. A ping or a close frame that comes in, and a
call of `closing`, change the state of the transceiver, but an opened transceiver is never left
with a control frame half sent, and nothing leads out of a connection that is being closed.
-/

namespace Ice.Connection

namespace WSTransceiver

/-- Only a close frame is still to be sent, or nothing at all. -/
def Frozen (t : WSTransceiver) : Prop :=
  t.state = .closingResponsePending ∧
    t.nextState = if t.closingInitiator then .closingResponsePending else .closingRequestPending

/-- What holds of a transceiver between two rounds, whatever is on the wire. -/
structure Sound (t : WSTransceiver) : Prop where
  size : 14 < t.writeBufferSize
  settled : t.state = .closingResponsePending → t.closingInitiator = false →
    t.writePayloadLength = 0 ∨ t.nextState = .closingRequestPending

/-- What does not send leaves the members of the writing side alone. -/
structure Hears (t t' : WSTransceiver) : Prop where
  incoming : t'.incoming = t.incoming
  writeState : t'.writeState = t.writeState
  writeBuffer : t'.writeBuffer = t.writeBuffer
  writeMask : t'.writeMask = t.writeMask
  writePayloadLength : t'.writePayloadLength = t.writePayloadLength
  sound : t.Sound → t'.Sound
  leaves : t.state ≠ .opened → t'.state ≠ .opened
  frozen : t.Frozen → t'.Frozen
  due : t.Frozen → t.closingInitiator = true → t'.closingInitiator = true

theorem Hears.refl (t : WSTransceiver) : Hears t t :=
  ⟨rfl, rfl, rfl, rfl, rfl, id, id, id, fun _ => id⟩

variable {t t' : WSTransceiver} {buf buf' : Buffer}

theorem Hears.trans {u v : WSTransceiver} (h : Hears t u) (h' : Hears u v) : Hears t v where
  incoming := h'.incoming.trans h.incoming
  writeState := h'.writeState.trans h.writeState
  writeBuffer := h'.writeBuffer.trans h.writeBuffer
  writeMask := h'.writeMask.trans h.writeMask
  writePayloadLength := h'.writePayloadLength.trans h.writePayloadLength
  sound := h'.sound ∘ h.sound
  leaves := h'.leaves ∘ h.leaves
  frozen := h'.frozen ∘ h.frozen
  due hf hi := h'.due (h.frozen hf) (h.due hf hi)

/-- The other side of the transceiver may change as it likes. -/
theorem Hears.of_eq (hincoming : t'.incoming = t.incoming)
    (hwriteState : t'.writeState = t.writeState) (hwriteBuffer : t'.writeBuffer = t.writeBuffer)
    (hwriteMask : t'.writeMask = t.writeMask)
    (hlength : t'.writePayloadLength = t.writePayloadLength)
    (hsize : t'.writeBufferSize = t.writeBufferSize) (hstate : t'.state = t.state)
    (hnext : t'.nextState = t.nextState) (hinit : t'.closingInitiator = t.closingInitiator) :
    Hears t t' where
  incoming := hincoming
  writeState := hwriteState
  writeBuffer := hwriteBuffer
  writeMask := hwriteMask
  writePayloadLength := hlength
  sound h := ⟨hsize ▸ h.size, by rw [hstate, hnext, hinit, hlength]; exact h.settled⟩
  leaves h := hstate ▸ h
  frozen h := by
    unfold Frozen
    rw [hstate, hnext, hinit]
    exact h
  due _ h := hinit ▸ h

/-- What `closing` does: nothing, or it gives up the initiative, or it has a close frame sent now
or after the control frame that is pending. -/
theorem closing_cases (initiator : Bool) (reason : ClosingReason) (t : WSTransceiver) :
    let t' := (t.closing initiator reason).2
    t' = t ∨
    (t.effectiveState = .closingRequestPending ∧ t.closingInitiator = true ∧
      t' = { t with closingInitiator := false }) ∨
    (t.state = .opened ∧ t' = { t with
        state := .closingRequestPending
        closingInitiator := initiator
        closingReason := t.reasonCode reason }) ∨
    (t.state ≠ .opened ∧ t.effectiveState ≠ .closingRequestPending ∧
      t.effectiveState ≠ .closingResponsePending ∧
      t' = { t with
        nextState := .closingRequestPending
        closingInitiator := initiator
        closingReason := t.reasonCode reason }) := by
  simp only [closing]
  split
  · rename_i h
    simp only [Bool.and_eq_true, decide_eq_true_eq] at h
    exact .inr (.inl ⟨h.1, h.2, rfl⟩)
  · split
    · exact .inl rfl
    · rename_i hlt
      split
      · rename_i hstate
        exact .inr (.inr (.inl ⟨hstate, rfl⟩))
      · rename_i hstate
        refine .inr (.inr (.inr ⟨hstate, ?_, ?_, rfl⟩))
        all_goals
          intro he
          exact hlt (by simp [he, WSState.toNat])

/-- The reason of a closing does not matter. -/
theorem hears_closing (initiator : Bool) (reason : ClosingReason) (t : WSTransceiver) :
    Hears t (t.closing initiator reason).2 := by
  rcases closing_cases initiator reason t with h | ⟨heff, hinit, h⟩ | ⟨hstate, h⟩ |
      ⟨hstate, hrequest, hresponse, h⟩
  · rw [h]
    exact .refl t
  · rw [h]
    constructor <;> try rfl
    · intro hs
      refine ⟨hs.size, fun hstate _ => .inr ?_⟩
      simp only [effectiveState] at heff
      grind
    · exact id
    all_goals
      simp only [Frozen, effectiveState] at heff ⊢
      grind
  · rw [h]
    constructor <;> try rfl
    · intro hs
      exact ⟨hs.size, by simp⟩
    · simp
    · simp [Frozen, hstate]
    · simp [Frozen, hstate]
  · rw [h]
    constructor <;> try rfl
    · intro hs
      exact ⟨hs.size, fun _ _ => .inr rfl⟩
    · exact id
    all_goals
      simp only [Frozen, effectiveState] at hrequest hresponse ⊢
      grind

theorem hears_readBuffered (sz : Nat) (t : WSTransceiver) : Hears t (t.readBuffered sz).2 := by
  let available := t.readBuffer.i - t.readI
  let moved := Buffer.overwrite t.readBuffer.b 0 ((t.readBuffer.b.drop t.readI).take available)
  let u : WSTransceiver :=
    if t.readI = t.readBuffer.i then
      { t with readBuffer := ⟨Buffer.resized t.readBufferSize t.readBuffer.b, 0⟩, readI := 0 }
    else if available < sz then
      { t with
        readBuffer := ⟨Buffer.resized (max t.readBufferSize sz) moved, available⟩
        readI := 0 }
    else t
  have hu : Hears t u := by
    simp only [u]
    split
    · exact .of_eq rfl rfl rfl rfl rfl rfl rfl rfl rfl
    · split
      · exact .of_eq rfl rfl rfl rfl rfl rfl rfl rfl rfl
      · exact .refl t
  exact hu.trans (.of_eq rfl rfl rfl rfl rfl rfl rfl rfl rfl)

theorem hears_readBufferedIf (sz : Nat) (t : WSTransceiver) : Hears t (t.readBufferedIf sz).2 := by
  unfold readBufferedIf
  split
  · exact hears_readBuffered sz t
  · exact .refl t

/-- Only members of the reading side are set. -/
theorem hears_readOpcode (h : t.readOpcode = .ok t') : Hears t t' := by
  simp only [readOpcode] at h
  split at h
  · cases h
  · split at h
    · cases h
    · split at h
      · cases h
      · cases h
        exact .of_eq rfl rfl rfl rfl rfl rfl rfl rfl rfl

theorem hears_readLength (h : t.readLength = .ok t') : Hears t t' := by
  unfold readLength at h
  split at h
  · cases h
    exact .of_eq rfl rfl rfl rfl rfl rfl rfl rfl rfl
  · split at h
    · dsimp only at h
      split at h
      · cases h
      · cases h
        exact .of_eq rfl rfl rfl rfl rfl rfl rfl rfl rfl
    · cases h
      exact .refl t

theorem hears_readMaskBytes (t : WSTransceiver) : Hears t t.readMaskBytes := by
  unfold readMaskBytes
  split
  · exact .of_eq rfl rfl rfl rfl rfl rfl rfl rfl rfl
  · exact .refl t

/-- One case for each opcode -/
theorem hears_startFrame {b : Bool} (h : t.startFrame buf = .ok (b, t')) : Hears t t' := by
  unfold startFrame at h
  split at h
  · cases h
  · split at h
    · split at h
      · cases h
      · cases h
        exact .of_eq rfl rfl rfl rfl rfl rfl rfl rfl rfl
    · split at h
      · split at h
        · rename_i heff
          dsimp only at h
          simp only [effectiveState] at heff
          split at h
          · rename_i hstate
            cases h
            constructor <;> try rfl
            · intro hs
              exact ⟨hs.size, by simp⟩
            · simp
            · simp [Frozen, hstate]
            · simp
          · rename_i hstate
            cases h
            constructor <;> try rfl
            · intro hs
              exact ⟨hs.size, by simp⟩
            · exact id
            · simp only [Frozen]
              grind
            · simp
        · cases h
      · split at h
        · cases h
          exact .of_eq rfl rfl rfl rfl rfl rfl rfl rfl rfl
        · cases h

/-- What a ping leaves to be sent -/
theorem hears_pinged (t : WSTransceiver) : Hears t t.pinged := by
  unfold pinged
  split
  · rename_i hstate
    constructor <;> try rfl
    · intro hs
      exact ⟨hs.size, by simp⟩
    · simp
    · simp [Frozen, hstate]
    · simp
  · split
    · rename_i hstate hlt
      have hrequest : t.nextState ≠ .closingRequestPending := by
        intro hn
        rw [hn] at hlt
        exact absurd hlt (by decide)
      have hresponse : t.nextState ≠ .closingResponsePending := by
        intro hn
        rw [hn] at hlt
        exact absurd hlt (by decide)
      constructor <;> try rfl
      · intro hs
        refine ⟨hs.size, fun hs' hi => .inl ?_⟩
        rcases hs.settled hs' hi with h | h
        · exact h
        · exact absurd h hrequest
      · exact id
      · simp only [Frozen]
        grind
      · simp
    · exact .refl t

theorem hears_keepPayload (t : WSTransceiver) : Hears t t.keepPayload := by
  unfold keepPayload
  split
  · exact .of_eq rfl rfl rfl rfl rfl rfl rfl rfl rfl
  · exact .refl t

theorem hears_endControlFrame (t : WSTransceiver) : Hears t t.endControlFrame := by
  unfold endControlFrame
  refine (hears_keepPayload t).trans ?_
  generalize t.keepPayload = u
  let v := { u with readI := u.readI + u.readPayloadLength, readPayloadLength := 0 }
  have hv : Hears u v := .of_eq rfl rfl rfl rfl rfl rfl rfl rfl rfl
  have hping : Hears v (if v.readOpCode = opPing then v.pinged else v) := by
    split
    · exact hears_pinged v
    · exact .refl v
  exact (hv.trans hping).trans (.of_eq rfl rfl rfl rfl rfl rfl rfl rfl rfl)

theorem hears_copyPayload (t : WSTransceiver) (buf : Buffer) :
    Hears t (t.copyPayload buf).2.1 := by
  unfold copyPayload
  dsimp only
  split
  all_goals exact .of_eq rfl rfl rfl rfl rfl rfl rfl rfl rfl

theorem hears_preReadBody (t : WSTransceiver) (buf : Buffer) :
    Hears t (t.preReadBody buf).2.1 := by
  unfold preReadBody
  split
  · have h := hears_readBufferedIf t.readPayloadLength t
    split
    · rename_i u hu
      rw [hu] at h
      exact h
    · rename_i u hu
      rw [hu] at h
      exact h.trans (hears_endControlFrame u)
  · exact hears_copyPayload t buf

theorem hears_preReadHeader {o : Option Bool} (h : t.preReadHeader buf = .ok (o, t', buf')) :
    Hears t t' := by
  unfold preReadHeader at h
  have hb := hears_readBufferedIf t.readHeaderLength t
  split at h
  · rename_i u hu
    rw [hu] at hb
    cases h
    exact hb
  · rename_i u hu
    rw [hu] at hb
    cases hl : u.readLength with
    | error _ => simp [hl, bind, Except.bind] at h
    | ok v =>
      cases hs : v.readMaskBytes.startFrame buf with
      | error _ => simp [hl, hs, bind, Except.bind] at h
      | ok r =>
        obtain ⟨interested, w⟩ := r
        have hw : Hears t w :=
          (hb.trans (hears_readLength hl)).trans
            ((hears_readMaskBytes v).trans (hears_startFrame hs))
        simp only [hl, hs, bind, Except.bind] at h
        cases interested
        · cases h
          exact hw
        · have hbody := hears_preReadBody w buf
          rw [show w.preReadBody buf = (o, t', buf') from Except.ok.inj h] at hbody
          exact hw.trans hbody

/-- One pass of the loop of `preRead` -/
theorem hears_preReadPass {o : Option Bool} (h : t.preReadPass buf = .ok (o, t', buf')) :
    Hears t t' := by
  unfold preReadPass at h
  split at h
  · have hb := hears_readBuffered 2 t
    split at h
    · rename_i u hu
      rw [hu] at hb
      cases h
      exact hb
    · rename_i u hu
      rw [hu] at hb
      cases ho : u.readOpcode with
      | error _ => simp [ho, bind, Except.bind] at h
      | ok v =>
        simp only [ho, bind, Except.bind] at h
        exact (hb.trans (hears_readOpcode ho)).trans (hears_preReadHeader h)
  · exact hears_preReadHeader h
  all_goals
    have hbody := hears_preReadBody t buf
    rw [Except.ok.inj h] at hbody
    exact hbody

/-- By induction on the passes of the loop. -/
theorem hears_preReadLoop {fuel : Nat} {more : Bool}
    (h : preReadLoop fuel t buf = .ok (more, t', buf')) : Hears t t' := by
  induction fuel generalizing t buf with
  | zero =>
    cases h
    exact .refl _
  | succ fuel ih =>
    cases hp : t.preReadPass buf with
    | error _ => simp [preReadLoop, hp, bind, Except.bind] at h
    | ok r =>
      obtain ⟨o, u, buf''⟩ := r
      have hu := hears_preReadPass hp
      simp only [preReadLoop, hp, bind, Except.bind] at h
      cases o with
      | none => exact hu.trans (ih h)
      | some _ =>
        cases h
        exact hu

theorem hears_receive (t : WSTransceiver) (buf : Buffer) (wire : List UInt8) (more : Bool)
    (a : Arrival) : Hears t (t.receive buf wire more a).1 := by
  unfold receive
  split
  · exact .refl t
  · split
    · exact .refl t
    · exact .of_eq rfl rfl rfl rfl rfl rfl rfl rfl rfl

theorem hears_postRead (t : WSTransceiver) (buf : Buffer) : Hears t (t.postRead buf).2.1 := by
  unfold postRead
  split
  · exact .refl t
  · split
    · exact .refl t
    · exact .of_eq rfl rfl rfl rfl rfl rfl rfl rfl rfl

variable {script : List Arrival} {wire : List UInt8}

/-- By induction on the reads. -/
theorem hears_readLoop {r : WSRead}
    (h : readLoop buf t wire script = some r) : Hears t r.transceiver := by
  induction script generalizing t buf wire with
  | nil => cases h
  | cons a script ih =>
    unfold readLoop at h
    split at h
    · split at h
      · cases h
        exact .refl t
      · cases h
    · rename_i more u buf' hp
      have hu : Hears t u := hears_preReadLoop hp
      have hv := hears_receive u buf' wire more a
      have hw := (hu.trans hv).trans (hears_postRead _ (u.receive buf' wire more a).2.1)
      dsimp only at h
      split at h
      · split at h
        · cases h
          exact hw
        · cases h
      · split at h
        · exact hw.trans (ih h)
        · split at h
          · cases h
            exact hw
          · cases h

/-- What `read` does to the writing side is what pings and close frames do to it. -/
theorem hears_read {r : WSRead}
    (h : read buf t wire script = some r) : Hears t r.transceiver := by
  unfold read at h
  split at h
  · split at h
    · cases h
      exact .refl t
    · cases h
  · exact hears_readLoop h

end WSTransceiver

end Ice.Connection
