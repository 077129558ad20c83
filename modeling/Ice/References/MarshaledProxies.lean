import Ice.References.Marshaling

/-!
# Reading marshaled proxies

A routable reference is read back from what was written of it, up to what is not transmitted. An
endpoint of a type for which there is no factory is passed on byte for byte.
-/

namespace Ice.References

open Streams
open RoundTrip (byte encapsulation int string times version)
open EndpointI (readOpaque readTcp readUdp streamWriteImpl)

/-- A 32-bit number -/
def IsInt (v : Int) : Prop := -2 ^ 31 ≤ v ∧ v < 2 ^ 31

/-- No factory reads endpoints of the type. -/
def Instance.Unknown (i : Instance) (type : Int) : Prop :=
  ∀ read, i.get type = some read → ∀ t, read t = .ok none t

/-- Endpoints for tcp and udp, and those of types that cannot be read; numbers in their ranges. -/
def EndpointI.Transmittable (i : Instance) : EndpointI → Prop
  | .tcp ip timeout _ => ip.type = TCPEndpointType ∧ IsInt ip.port ∧ IsInt timeout
  | .udp ip .. => ip.type = UDPEndpointType ∧ IsInt ip.port
  | .opaqueEndpoint type .. => (-2 ^ 15 ≤ type ∧ type < 2 ^ 15) ∧ i.Unknown type
  | _ => False

/-- What of an address is transmitted -/
def IPEndpointI.transmitted (ip : IPEndpointI) : IPEndpointI :=
  { type := ip.type, host := ip.host, port := ip.port }

/-- What of an endpoint is transmitted -/
def EndpointI.transmitted : EndpointI → EndpointI
  | .tcp ip timeout compress => .tcp ip.transmitted timeout compress
  | .udp ip _ _ _ compress => .udp ip.transmitted [] (-1) false compress
  | e => e

/-- What of a reference is transmitted with an encoding -/
def RoutableReference.transmitted (r : RoutableReference) (current : Version) :
    RoutableReference where
  identity := r.identity
  facet := r.facet
  mode := r.mode
  secure := r.secure
  protocol := if current ≠ Encoding_1_0 then r.protocol else Protocol_1_0
  encoding := if current ≠ Encoding_1_0 then r.encoding else Encoding_1_0
  endpoints := r.endpoints.map EndpointI.transmitted
  adapterId := r.adapterId
  named := r.named
  direct := r.direct.imp_left fun h => by rw [h, List.map_nil]

variable {w : Version → Write WriteEncaps Unit}

theorem Appends.encoding (h : ∀ v, Appends (w v)) :
    Appends (getWriteEncoding >>= w) :=
  fun s s' hw => h s.encoder.encoding s s' hw

theorem appends_ip (ip : IPEndpointI) : Appends ip.streamWriteImpl :=
  (Appends.writeString ip.host).seq (.append _)

namespace EndpointI

theorem appends_streamWriteImpl (e : EndpointI) : Appends e.streamWriteImpl := by
  induction e with
  | tcp ip timeout compress =>
    exact (appends_ip ip).seq ((Appends.append _).seq (.append _))
  | udp ip _ _ _ compress =>
    apply (appends_ip ip).seq
    apply Appends.encoding
    intro v
    split
    · exact (Appends.append _).seq ((Appends.append _).seq (.append _))
    · exact .append _
  | opaqueEndpoint =>
    intro s s' h
    contradiction
  | ws delegate resource ih => exact ih.seq (.writeString resource)
  | ssl delegate ih => exact ih
  | bt _ addr uuid =>
    exact (Appends.writeString addr).seq ((Appends.writeString uuid).seq
      ((Appends.append _).seq (.append _)))
  | iap _ manufacturer modelNumber name protocol =>
    exact (Appends.writeString manufacturer).seq ((Appends.writeString modelNumber).seq
      ((Appends.writeString name).seq ((Appends.writeString protocol).seq
        ((Appends.append _).seq (.append _)))))

theorem appends_streamWrite (e : EndpointI) : Appends e.streamWrite := by
  cases e with
  | opaqueEndpoint => exact Appends.encapsulation (.append _)
  | _ =>
    apply Appends.encoding
    exact fun v => Appends.encapsulation (appends_streamWriteImpl _)

theorem appends_write (e : EndpointI) : Appends e.write :=
  (Appends.append _).seq e.appends_streamWrite

end EndpointI

theorem appends_versions (protocol encoding : Version) :
    Appends (writeVersions protocol encoding) := by
  apply Appends.encoding
  intro v
  split
  · exact (Appends.append _).seq (.append _)
  · exact .pure

theorem appends_strings (v : List Str) : Appends (writeStrings v) :=
  (Appends.writeSize v.length).seq (.forM fun x _ => .writeString x)

namespace RoutableReference

theorem appends_writeBase (r : RoutableReference) : Appends r.writeBase := by
  apply Appends.seq
  · unfold writeFacet
    split
    · exact appends_strings _
    · exact appends_strings _
  · exact (Appends.append _).seq ((Appends.append _).seq (appends_versions _ _))

theorem appends_writeEndpoints (r : RoutableReference) : Appends r.writeEndpoints := by
  unfold writeEndpoints
  split
  · apply Appends.seq
    · intro s s' h
      unfold Streams.assert at h
      split at h
      · exact Appends.pure s s' h
      · contradiction
    · exact .forM fun x _ => x.appends_write
  · exact .writeString _

theorem appends_streamWrite (r : RoutableReference) : Appends r.streamWrite :=
  r.appends_writeBase.seq ((Appends.writeSize _).seq r.appends_writeEndpoints)

end RoutableReference

section

variable {e : WriteEncaps} {d : ReadEncaps} {β : Type} {P : Unit → β → Prop}

variable {n : Nat} {ip : IPEndpointI} {r : Read ReadEncaps β}

/-- The writer meets its encoding. -/
theorem RoundTrip.writeEncoding
    (hw : ∀ v, Appends (w v)) (h : RoundTrip (still e d) n (w e.encoding) r P) :
    RoundTrip (still e d) 0 (getWriteEncoding >>= w) r P := by
  refine ⟨(Appends.encoding hw).writes, ?_⟩
  rintro s s' g t bytes tail k ⟨hrun, hb, hready⟩
  have hwrite : w e.encoding s = .ok () s' := by
    rw [← hready.inv.1]
    exact hrun
  exact (h.mono (Nat.zero_le n)).reads s s' g t bytes tail k ⟨hwrite, hb, hready⟩

/-- Writer and reader meet the same encoding. -/
theorem RoundTrip.encoding
    {r : Version → Read ReadEncaps β} (he : d.encoding = e.encoding) (hw : ∀ v, Appends (w v))
    (h : RoundTrip (still e d) n (w e.encoding) (r e.encoding) P) :
    RoundTrip (still e d) 0 (getWriteEncoding >>= w) (getReadEncoding >>= r) P := by
  have hwrite := RoundTrip.writeEncoding hw h
  refine ⟨hwrite.writes, ?_⟩
  intro s s' g t bytes tail k hat
  have hread : (getReadEncoding >>= r) t = r e.encoding t := by
    rw [← he, ← hat.ready.inv.2]
    rfl
  cases hwrite.reads s s' g t bytes tail k hat with
  | fails _ hf => exact False.elim hf
  | arrives hr ha => exact .arrives (hread.trans hr) ha

theorem roundTrip_ip (hport : IsInt ip.port) :
    RoundTrip (still e d) 0 ip.streamWriteImpl (IPEndpointI.read ip.type)
      fun _ y => y = ip.transmitted := by
  unfold IPEndpointI.streamWriteImpl IPEndpointI.read
  apply (string ip.host).andThen
  apply (int hport.1 hport.2).map
  rintro _ _ rfl
  rfl

theorem roundTrip_tcp {timeout : Int} {compress : Bool} (htype : ip.type = TCPEndpointType)
    (hport : IsInt ip.port) (htimeout : IsInt timeout) :
    RoundTrip (still e d) 0 (streamWriteImpl (.tcp ip timeout compress))
      readTcp fun _ y => y = .tcp ip.transmitted timeout compress := by
  have hip := roundTrip_ip (e := e) (d := d) hport
  rw [htype] at hip
  unfold streamWriteImpl readTcp
  apply hip.andThen
  apply (int htimeout.1 htimeout.2).andThen
  apply (RoundTrip.bool compress).map
  rintro _ _ rfl
  rfl

/-- The versions that are not looked at -/
theorem roundTrip_skipVersions (p q : Version) :
    RoundTrip (still e d) 0 (writeVersion p >>= fun _ => writeVersion q) (readTimes 4 readByte)
      fun _ y => y = [p.major, p.minor, q.major, q.minor] := by
  have hwrite : (writeVersion p >>= fun _ => writeVersion q : Write WriteEncaps Unit) =
      [p.major, p.minor, q.major, q.minor].forM fun x => append [x] := by
    funext s
    simp only [List.forM, writeVersion, bind, EStateM.bind, append, modify, modifyGet,
      MonadStateOf.modifyGet, EStateM.modifyGet, List.append_assoc, pure, EStateM.pure,
      List.cons_append, List.nil_append]
  rw [hwrite]
  have htimes := times (L := still e d) (M := fun _ x y => x = y)
    [p.major, p.minor, q.major, q.minor]
    fun x _ => (byte x).conseq fun _ _ hy => Eq.symm hy
  apply (htimes.mono (Nat.zero_le _)).conseq
  intro _ ys hys
  rw [List.forall₂_eq_eq_eq] at hys
  exact hys.symm

theorem roundTrip_udp {interface : Str} {ttl : Int} {connect compress : Bool}
    (he : d.encoding = e.encoding) (htype : ip.type = UDPEndpointType) (hport : IsInt ip.port) :
    RoundTrip (still e d) 0 (streamWriteImpl (.udp ip interface ttl connect compress))
      readUdp fun _ y => y = .udp ip.transmitted [] (-1) false compress := by
  have hip := roundTrip_ip (e := e) (d := d) hport
  rw [htype] at hip
  have hcompress : RoundTrip (still e d) 1 (writeBool compress)
      (readBool >>= fun compress =>
        pure (EndpointI.udp ip.transmitted [] (-1) false compress))
      fun _ y => y = .udp ip.transmitted [] (-1) false compress := by
    apply (RoundTrip.bool compress).map
    rintro _ _ rfl
    rfl
  unfold streamWriteImpl readUdp
  apply hip.andThen
  apply RoundTrip.encoding he
  · intro v
    split
    · exact (Appends.append _).seq ((Appends.append _).seq (.append _))
    · exact .append _
  · by_cases hencoding : e.encoding = Encoding_1_0
    · rw [if_pos hencoding, if_pos hencoding]
      have hassoc : (do
          writeVersion Protocol_1_0
          writeVersion Encoding_1_0
          writeBool compress : Write WriteEncaps Unit) =
          (writeVersion Protocol_1_0 >>= fun _ => writeVersion Encoding_1_0) >>= fun _ =>
            writeBool compress := (bind_assoc ..).symm
      rw [hassoc]
      exact (roundTrip_skipVersions Protocol_1_0 Encoding_1_0).andThen hcompress
    · rw [if_neg hencoding, if_neg hencoding]
      exact hcompress.mono (Nat.zero_le _)

/-- The size of an encapsulation says how many bytes there are. -/
theorem fillsBack_opaque (type : Int) (encoding : Version) (bytes : List Byte) :
    FillsBack e d encoding (append bytes) (readOpaque type)
      (.opaqueEndpoint type encoding bytes) := by
  rintro start encaps s s' t bytes' tail n ⟨hrun, hb, hready⟩ hsz
  obtain ⟨-, rfl⟩ := EStateM.Result.ok.inj hrun
  obtain rfl : bytes = bytes' := List.append_cancel_left hb
  have hencoding : getReadEncoding t = .ok encoding t := by
    change EStateM.Result.ok t.decoder.encoding t = _
    rw [hready.inv.2]
    rfl
  have hsize : getEncapsulationSize t = .ok (bytes.length : Int) t := by
    change EStateM.Result.ok ((t.encaps.sz : Int) - 4 - 2) t = _
    rw [hsz]
    congr 1
    omega
  have hblob : readBlob (bytes.length : Int) t = .ok bytes (t.advance bytes.length) := by
    unfold readBlob
    by_cases hpos : (0 : Int) < bytes.length
    · rw [if_pos hpos, Int.toNat_natCast]
      exact readBytes_of_rest hready.rest
    · have hnil : bytes = [] := List.length_eq_zero_iff.mp (by omega)
      rw [if_neg hpos, hnil]
      rfl
  have hread : readOpaque type t =
      .ok (.opaqueEndpoint type encoding bytes) (t.advance bytes.length) := by
    unfold readOpaque
    rw [Lib.bind_of_ok hencoding, Lib.bind_of_ok hsize, Lib.bind_of_ok hblob]
    rfl
  apply Outcome.arrives hread
  exact ⟨le_rfl, fun _ _ => rfl, rfl, rfl, rfl, hready.owes.advance (Nat.zero_le _), hready.inv⟩

theorem FillsBack.of_roundTrip {encoding : Version} {w : Write WriteEncaps Unit} {y : β}
    (h : ∀ start encaps, RoundTrip (still (e.push start encoding) (d.push encaps encoding)) n w r
      fun _ z => z = y) : FillsBack e d encoding w r y :=
  fun start encaps s s' t bytes tail k hat _ =>
    ((h start encaps).mono (Nat.zero_le n)).reads s s' () t bytes tail k hat

end

section

variable {e : WriteEncaps} {d : ReadEncaps} {i : Instance} {encoding : Version}

theorem readContent_tcp : i.readContent TCPEndpointType = readTcp := by
  unfold Instance.readContent Instance.get
  rw [if_pos rfl]
  simp

theorem readContent_udp : i.readContent UDPEndpointType = readUdp := by
  unfold Instance.readContent Instance.get
  rw [if_neg (by decide), if_pos rfl]
  simp

theorem readContent_unknown {type : Int} (h : i.Unknown type) :
    i.readContent type = readOpaque type := by
  unfold Instance.readContent
  cases hget : i.get type with
  | none => rfl
  | some read =>
    funext t
    exact Lib.bind_of_ok (h read hget t) _

variable {x : EndpointI}

section

variable (hx : x.Transmittable i)

include hx

/-- An endpoint is read by the factory of its type, or kept as it is. -/
theorem roundTrip_streamWrite :
    RoundTrip (still e d) 0 x.streamWrite
      (readEncapsulation i.skipClass (i.readContent x.type)) fun _ y => y = x.transmitted := by
  cases x with
  | tcp ip timeout compress =>
    obtain ⟨htype, hport, htimeout⟩ := hx
    have hread : i.readContent (EndpointI.type (.tcp ip timeout compress)) = readTcp := by
      rw [EndpointI.type, htype, readContent_tcp]
    rw [hread]
    apply RoundTrip.writeEncoding
    · exact fun v => Appends.encapsulation (EndpointI.appends_streamWriteImpl _)
    · apply encapsulation _ (EndpointI.appends_streamWriteImpl _)
      apply FillsBack.of_roundTrip
      exact fun _ _ => roundTrip_tcp htype hport htimeout
  | udp ip interface ttl connect compress =>
    obtain ⟨htype, hport⟩ := hx
    have hread : i.readContent (EndpointI.type (.udp ip interface ttl connect compress)) =
        readUdp := by
      rw [EndpointI.type, htype, readContent_udp]
    rw [hread]
    apply RoundTrip.writeEncoding
    · exact fun v => Appends.encapsulation (EndpointI.appends_streamWriteImpl _)
    · apply encapsulation _ (EndpointI.appends_streamWriteImpl _)
      apply FillsBack.of_roundTrip
      exact fun _ _ => roundTrip_udp rfl htype hport
  | opaqueEndpoint type rawEncoding rawBytes =>
    have hread : i.readContent (EndpointI.type (.opaqueEndpoint type rawEncoding rawBytes)) =
        readOpaque type := readContent_unknown hx.2
    rw [hread]
    apply encapsulation _ (.append _)
    exact fillsBack_opaque type rawEncoding rawBytes
  | _ => exact False.elim hx

theorem EndpointI.Transmittable.isShort :
    -2 ^ 15 ≤ x.type ∧ x.type < 2 ^ 15 := by
  cases x with
  | tcp ip timeout compress | udp ip interface ttl connect compress =>
    rw [EndpointI.type, hx.1]
    decide
  | opaqueEndpoint type rawEncoding rawBytes => exact hx.1
  | _ => exact False.elim hx

theorem roundTrip_endpoint :
    RoundTrip (still e d) 0 x.write i.readEndpoint fun _ y => y = x.transmitted := by
  unfold EndpointI.write Instance.readEndpoint
  apply (RoundTrip.short hx.isShort.1 hx.isShort.2).andThen
  exact roundTrip_streamWrite hx

end

theorem roundTrip_endpoints {xs : List EndpointI} (h : ∀ x ∈ xs, x.Transmittable i) :
    RoundTrip (still e d) 0 (xs.forM EndpointI.write) (readTimes xs.length i.readEndpoint)
      fun _ ys => ys = xs.map EndpointI.transmitted := by
  have htimes := times (L := still e d) (M := fun _ x y => y = EndpointI.transmitted x)
    xs fun x hx => roundTrip_endpoint (h x hx)
  apply (htimes.mono (Nat.zero_le _)).conseq
  intro _ ys hys
  apply Eq.symm
  rw [← List.forall₂_eq_eq_eq, List.forall₂_map_left_iff]
  exact hys.imp fun _ _ hy => Eq.symm hy

theorem roundTrip_strings (v : List Str) :
    RoundTrip (still e d) 1 (writeStrings v) readStrings fun _ ys => ys = v := by
  have htimes := times (L := still e d) (M := fun _ x y => x = y) v
    fun x _ => (string x).conseq fun _ _ hy => Eq.symm hy
  apply htimes.checked.conseq
  intro _ ys hys
  rw [List.forall₂_eq_eq_eq] at hys
  exact hys.symm

theorem roundTrip_facet (facet : Str) :
    RoundTrip (still e d) 0 (writeFacet facet) readFacet fun _ y => y = facet := by
  unfold writeFacet readFacet
  split
  · rename_i hnil
    rw [hnil]
    apply ((roundTrip_strings []).mono (Nat.zero_le _)).finish
    rfl
  · apply ((roundTrip_strings [facet]).mono (Nat.zero_le _)).finish
    rfl

theorem Mode.ofByte_toNat (mode : Mode) : Mode.ofByte (UInt8.ofNat mode.toNat) = some mode := by
  cases mode <;> rfl

theorem roundTrip_mode (mode : Mode) :
    RoundTrip (still e d) 1 (append [UInt8.ofNat mode.toNat]) readMode fun _ y => y = mode := by
  apply (byte (UInt8.ofNat mode.toNat)).finish
  rw [Mode.ofByte_toNat]

theorem roundTrip_versions (he : d.encoding = e.encoding) (protocol encoding : Version) :
    RoundTrip (still e d) 0 (writeVersions protocol encoding) readVersions fun _ y =>
      y = if e.encoding ≠ Encoding_1_0 then (protocol, encoding)
        else (Protocol_1_0, Encoding_1_0) := by
  unfold writeVersions readVersions
  apply RoundTrip.encoding he
  · intro v
    split
    · exact (Appends.append _).seq (.append _)
    · exact .pure
  · by_cases hencoding : e.encoding ≠ Encoding_1_0
    · rw [if_pos hencoding, if_pos hencoding, if_pos hencoding]
      apply (version protocol).andThen
      apply (version encoding).map
      rintro _ _ rfl
      rfl
    · rw [if_neg hencoding, if_neg hencoding, if_neg hencoding]
      exact RoundTrip.pure fun _ => rfl

/-- The endpoints are read, or else the adapter id. -/
theorem roundTrip_writeEndpoints {β : Type} {r : RoutableReference} {y : β}
    {f : List EndpointI → β} {g : Str → β} (hr : ∀ x ∈ r.endpoints, x.Transmittable i)
    (hf : r.adapterId = [] → f (r.endpoints.map EndpointI.transmitted) = y)
    (hg : r.endpoints = [] → g r.adapterId = y) :
    RoundTrip (still e d) 0 r.writeEndpoints
      (if 0 < r.endpoints.length then
        readTimes r.endpoints.length i.readEndpoint >>= fun endpoints => pure (f endpoints)
      else readString >>= fun adapterId => pure (g adapterId)) fun _ z => z = y := by
  unfold RoutableReference.writeEndpoints
  by_cases hempty : r.endpoints = []
  · have hlength : r.endpoints.length = 0 := List.length_eq_zero_iff.mpr hempty
    rw [if_neg (by omega), if_neg (by omega)]
    apply ((string r.adapterId).mono (Nat.zero_le _)).finish
    rw [hg hempty]
  · have hlength : r.endpoints.length ≠ 0 := fun h => hempty (List.length_eq_zero_iff.mp h)
    have hadapter : r.adapterId = [] := r.direct.resolve_left hempty
    have hassert : (Streams.assert (r.adapterId = []) "_adapterId.empty()" >>= fun _ =>
        r.endpoints.forM EndpointI.write) = r.endpoints.forM EndpointI.write := by
      unfold Streams.assert
      rw [if_pos hadapter, pure_bind]
    rw [if_pos hlength, if_pos (by omega), hassert]
    apply (roundTrip_endpoints hr).finish
    rw [hf hadapter]

/-- A reference is read back up to what is not transmitted. -/
theorem roundTrip_reference (he : d.encoding = e.encoding) {r : RoutableReference}
    (hr : ∀ x ∈ r.endpoints, x.Transmittable i) :
    RoundTrip (still e d) 0 r.streamWrite (i.create r.identity)
      fun _ y => y = some (r.transmitted e.encoding) := by
  unfold RoutableReference.streamWrite RoutableReference.writeBase Instance.create
  rw [dif_neg r.named]
  simp only [bind_assoc]
  apply (roundTrip_facet r.facet).andThen
  apply (roundTrip_mode r.mode).andThen
  apply (RoundTrip.bool r.secure).andThen
  apply (roundTrip_versions he r.protocol r.encoding).andThen
  apply (RoundTrip.writeSize r.endpoints.length).andThen
  apply roundTrip_writeEndpoints hr
  · intro hadapter
    simp only [RoutableReference.transmitted, hadapter]
    split <;> rfl
  · intro hempty
    simp only [RoutableReference.transmitted, hempty, List.map_nil]
    split <;> rfl

end

section

variable {t t' : InputStream ReadEncaps}

variable {type : Int} {u : InputStream ReadEncaps}

/-- What is kept of an encapsulation is all that it holds. -/
theorem readOpaque_ok {encoding : Version} {n : Nat} {x : EndpointI}
    (h : readOpaque type (t.enter encoding (n + 6)) = .ok x u) :
    ∃ bytes, x = .opaqueEndpoint type encoding bytes ∧ bytes.length = n ∧
      (t.enter encoding (n + 6)).rest = bytes ++ u.rest ∧
      u = (t.enter encoding (n + 6)).advance n := by
  obtain ⟨v, u₁, hencoding, h⟩ := Lib.ok_of_bind h
  obtain ⟨rfl, rfl⟩ := EStateM.Result.ok.inj hencoding
  obtain ⟨sz, u₂, hsize, h⟩ := Lib.ok_of_bind h
  obtain ⟨rfl, rfl⟩ := EStateM.Result.ok.inj hsize
  obtain ⟨bytes, u₃, hblob, h⟩ := Lib.ok_of_bind h
  obtain ⟨rfl, rfl⟩ := EStateM.Result.ok.inj h
  have hsz : (((t.enter encoding (n + 6)).encaps.sz : Nat) : Int) - 4 - 2 = n := by
    change ((n + 6 : Nat) : Int) - 4 - 2 = n
    omega
  rw [hsz] at hblob
  unfold readBlob at hblob
  by_cases hpos : (0 : Int) < n
  · rw [if_pos hpos, Int.toNat_natCast] at hblob
    obtain ⟨hrest, hlength, rfl⟩ := readBytes_ok hblob
    exact ⟨bytes, rfl, hlength, hrest, rfl⟩
  · rw [if_neg hpos] at hblob
    obtain ⟨rfl, rfl⟩ := EStateM.Result.ok.inj hblob
    obtain rfl : n = 0 := by omega
    exact ⟨[], rfl, rfl, rfl, rfl⟩

theorem writeOpaque_eq {encoding : Version}
    (hsupported : isSupported encoding currentEncoding = true) (bytes : List Byte)
    (s : OutputStream WriteEncaps) :
    EndpointI.write (.opaqueEndpoint type encoding bytes) s =
      .ok () ⟨s.b ++ (shortBytes type ++ encapsulationBytes encoding bytes), s.encoder⟩ := by
  have hshort : writeShort type s = .ok () ⟨s.b ++ shortBytes type, s.encoder⟩ := rfl
  unfold EndpointI.write
  rw [EndpointI.type, Lib.bind_of_ok hshort, EndpointI.streamWrite,
    writeEncapsulation_eq hsupported (fun s => append_eq bytes s), List.append_assoc]

/-- An endpoint that no factory reads is written as it came. -/
theorem readEndpoint_unknown {i : Instance} {x : EndpointI}
    (htype : readShort t = .ok type u) (hunknown : i.Unknown type)
    (hread : i.readEndpoint t = .ok x t') :
    ∃ bytes, t.rest = bytes ++ t'.rest ∧ t'.i = t.i + bytes.length ∧
      ∀ s, x.write s = .ok () ⟨s.b ++ bytes, s.encoder⟩ := by
  unfold Instance.readEndpoint at hread
  rw [Lib.bind_of_ok htype, readContent_unknown hunknown] at hread
  obtain ⟨hfirst, rfl⟩ := readShort_ok htype
  unfold readEncapsulation at hread
  obtain ⟨_, v, hstart, hread⟩ := Lib.ok_of_bind hread
  obtain ⟨encoding, n, hsupported, _, hsecond, rfl⟩ := InputStream.startEncapsulation_ok hstart
  obtain ⟨y, v, hcontent, hread⟩ := Lib.ok_of_bind hread
  obtain ⟨bytes, rfl, hlength, hthird, rfl⟩ := readOpaque_ok hcontent
  have hclose := InputStream.endEncapsulation_of_end
    (t := ((t.advance 2).enter encoding (n + 6)).advance n) i.skipClass rfl (by
      change t.i + 2 + 6 + n = t.i + 2 + (n + 6)
      omega)
  rw [Lib.bind_of_ok hclose] at hread
  obtain ⟨rfl, rfl⟩ := EStateM.Result.ok.inj hread
  refine ⟨shortBytes type ++ encapsulationBytes encoding bytes, ?_, ?_,
    writeOpaque_eq hsupported bytes⟩
  · rw [hfirst, hsecond, hthird, ← hlength]
    simp only [encapsulationBytes, List.append_assoc]
    rfl
  · have hshort : (shortBytes type).length = 2 := length_leBytes ..
    simp only [encapsulationBytes, List.length_append, hshort, length_intBytes, List.length_cons,
      List.length_nil, hlength]
    change t.i + 2 + 6 + n = _
    omega

end

/-- A routable reference is read back wherever it stands in a buffer, as long as the sequences
around it count on no more than what comes after it, and an endpoint that no factory reads is
passed on byte for byte. -/
theorem marshaled_proxies (i : Instance) :
    (∀ (r : RoutableReference) (s s' : OutputStream WriteEncaps),
      (∀ x ∈ r.endpoints, x.Transmittable i) → r.streamWrite s = .ok () s' →
      ∃ bytes, s' = ⟨s.b ++ bytes, s.encoder⟩ ∧
        ∀ (t : InputStream ReadEncaps) (tail : List Byte), t.rest = bytes ++ tail →
          t.decoder.encoding = s.encoder.encoding → t.b.length < 2 ^ 31 → t.Owes tail.length →
          ∃ t', i.create r.identity t = .ok (some (r.transmitted s.encoder.encoding)) t' ∧
            t'.b = t.b ∧ t'.i = t.i + bytes.length ∧ t'.encaps = t.encaps ∧
            t'.decoder = t.decoder) ∧
    ∀ (type : Int) (t t' u : InputStream ReadEncaps) (x : EndpointI),
      readShort t = .ok type u → i.Unknown type → i.readEndpoint t = .ok x t' →
      ∃ bytes, t.rest = bytes ++ t'.rest ∧ t'.i = t.i + bytes.length ∧
        ∀ s, x.write s = .ok () ⟨s.b ++ bytes, s.encoder⟩ := by
  constructor
  · intro r s s' hr hwrite
    obtain ⟨bytes, rfl⟩ := r.appends_streamWrite s s' hwrite
    refine ⟨bytes, rfl, ?_⟩
    intro t tail hrest hencoding hlength howes
    have hready : Ready (still s.encoder t.decoder) 0 () s.encoder s.encoder t bytes tail
        tail.length := by
      refine ⟨trivial, ⟨rfl, rfl⟩, hrest, hlength, le_rfl, ?_, False.elim⟩
      rw [Nat.zero_add]
      exact howes
    have hround := roundTrip_reference (e := s.encoder) hencoding hr
    cases hround.reads s _ () t bytes tail _ ⟨hwrite, rfl, hready⟩ with
    | fails _ hf => exact False.elim hf
    | @arrives y _ t' hread ha =>
      obtain rfl := ha.post () le_rfl
      exact ⟨t', hread, ha.b, ha.i, ha.encaps, ha.inv.2⟩
  · intro type t t' u x htype hunknown hread
    exact readEndpoint_unknown htype hunknown hread

/-- A communicator without more factories -/
def plainInstance : Instance := ⟨fun _ => none, pure ()⟩

/-- A proxy with an endpoint of each kind -/
def sample : RoutableReference where
  identity := ⟨[97], []⟩
  facet := [102]
  mode := .oneway
  secure := true
  protocol := ⟨1, 0⟩
  encoding := ⟨1, 1⟩
  endpoints :=
    [.tcp { type := 1, host := [104], port := 4061, connectionId := [99] } (-1) false,
      .udp { type := 3, host := [104], port := 4062 } [101] 1 true true,
      .opaqueEndpoint 99 ⟨1, 0⟩ [7, 8, 9]]
  adapterId := []
  named := by decide
  direct := .inr rfl

theorem transmittable_sample : ∀ x ∈ sample.endpoints, x.Transmittable plainInstance := by
  have hunknown : plainInstance.Unknown 99 := by
    intro read hread
    cases hread
  simp only [sample, List.forall_mem_cons, EndpointI.Transmittable, IsInt]
  refine ⟨⟨rfl, by decide, by decide⟩, ⟨rfl, by decide⟩, ⟨by decide, hunknown⟩, ?_⟩
  exact fun x hx => absurd hx List.not_mem_nil

/-- The sample is written to an empty stream and read from the bytes alone. -/
def SampleRead (encoding : Version) : Prop :=
  ∃ s' t', sample.streamWrite ⟨[], ⟨0, encoding, []⟩⟩ = .ok () s' ∧
    plainInstance.create sample.identity (.ofBytes s'.b ⟨encoding, []⟩) =
      .ok (some (sample.transmitted encoding)) t' ∧ t'.i = s'.b.length

/-- An endpoint of type 99 before another byte -/
def unknownEndpoint : List Byte := [99, 0, 9, 0, 0, 0, 1, 0, 7, 8, 9, 5]

theorem marshaled_sample :
    SampleRead Encoding_1_0 ∧ SampleRead currentEncoding ∧
      ∃ x t', plainInstance.readEndpoint (.ofBytes unknownEndpoint ⟨currentEncoding, []⟩) =
        .ok x t' ∧ x.write ⟨[], ⟨0, currentEncoding, []⟩⟩ =
          .ok () ⟨unknownEndpoint.take 11, ⟨0, currentEncoding, []⟩⟩ := by
  have hround := marshaled_proxies plainInstance
  have hsample (encoding : Version)
      (hreturns : Lib.returns sample.streamWrite ⟨[], ⟨0, encoding, []⟩⟩ = true)
      (hlength : (Lib.final sample.streamWrite ⟨[], ⟨0, encoding, []⟩⟩).b.length < 2 ^ 31) :
      SampleRead encoding := by
    obtain ⟨_, hwrite⟩ := Lib.eq_ok_of_returns hreturns
    obtain ⟨bytes, hb, hread⟩ := hround.1 sample _ _ transmittable_sample hwrite
    rw [hb] at hwrite hlength
    have hrest : (InputStream.ofBytes bytes (⟨encoding, []⟩ : ReadEncaps)).rest = bytes ++ [] :=
      (List.append_nil bytes).symm
    obtain ⟨t', hcreate, _, hi, _⟩ := hread _ [] hrest rfl hlength (Or.inl rfl)
    exact ⟨_, t', hwrite, hcreate, hi.trans (Nat.zero_add _)⟩
  refine ⟨hsample _ (by decide +kernel) (by decide +kernel),
    hsample _ (by decide +kernel) (by decide +kernel), ?_⟩
  have hunknown : plainInstance.Unknown 99 := by
    intro read hread
    cases hread
  have hreturns : Lib.returns plainInstance.readEndpoint
      (.ofBytes unknownEndpoint ⟨currentEncoding, []⟩) = true := by decide +kernel
  obtain ⟨x, hread⟩ := Lib.eq_ok_of_returns hreturns
  have htype : readShort (.ofBytes unknownEndpoint (⟨currentEncoding, []⟩ : ReadEncaps)) =
      .ok 99 (InputStream.advance 2 (.ofBytes unknownEndpoint ⟨currentEncoding, []⟩)) := by
    have hshort : unknownEndpoint = shortBytes 99 ++ unknownEndpoint.drop 2 := by decide
    exact readShort_of_rest (by decide) (by decide) hshort
  obtain ⟨bytes, hrest, hi, hwrite⟩ := hround.2 99 _ _ _ x htype hunknown hread
  have hlength : (Lib.final plainInstance.readEndpoint
      (.ofBytes unknownEndpoint ⟨currentEncoding, []⟩)).i = 11 := by decide +kernel
  have hbytes : unknownEndpoint.take 11 = bytes := by
    have h : unknownEndpoint = bytes ++ _ := hrest
    rw [h]
    apply List.take_left'
    rw [hlength] at hi
    exact (hi.trans (Nat.zero_add _)).symm
  rw [hbytes]
  exact ⟨x, _, hread, hwrite _⟩

/-- A proxy with one endpoint of type 99 -/
def withOpaque (bytes : List Byte) : RoutableReference where
  identity := ⟨[97], []⟩
  facet := []
  mode := .twoway
  secure := false
  protocol := ⟨1, 0⟩
  encoding := ⟨1, 1⟩
  endpoints := [.opaqueEndpoint 99 ⟨1, 1⟩ bytes]
  adapterId := []
  named := by decide
  direct := .inr rfl

/-- What is written of such a proxy before the endpoint -/
def beforeEndpoint : List Byte := [0, 0, 0, 1, 0, 1, 1, 1]

theorem streamWrite_withOpaque (bytes : List Byte) :
    (withOpaque bytes).streamWrite ⟨[], ⟨0, currentEncoding, []⟩⟩ =
      .ok () ⟨beforeEndpoint ++ (shortBytes 99 ++ encapsulationBytes currentEncoding bytes),
        ⟨0, currentEncoding, []⟩⟩ := by
  have hbase : (withOpaque bytes).writeBase ⟨[], ⟨0, currentEncoding, []⟩⟩ =
      .ok () ⟨[0, 0, 0, 1, 0, 1, 1], ⟨0, currentEncoding, []⟩⟩ := rfl
  have hsize : writeSize (withOpaque bytes).endpoints.length
      (⟨[0, 0, 0, 1, 0, 1, 1], ⟨0, currentEncoding, []⟩⟩ : OutputStream WriteEncaps) =
      .ok () ⟨beforeEndpoint, ⟨0, currentEncoding, []⟩⟩ := rfl
  have hendpoint : EndpointI.write (.opaqueEndpoint 99 currentEncoding bytes)
      ⟨beforeEndpoint, ⟨0, currentEncoding, []⟩⟩ = .ok ()
        ⟨beforeEndpoint ++ (shortBytes 99 ++ encapsulationBytes currentEncoding bytes),
          ⟨0, currentEncoding, []⟩⟩ := writeOpaque_eq rfl bytes _
  unfold RoutableReference.streamWrite
  rw [Lib.bind_of_ok hbase, Lib.bind_of_ok hsize]
  exact Lib.bind_of_ok hendpoint fun _ => pure ()

/-- An encapsulation whose size is no `int` cannot be read. -/
theorem create_withOpaque {bytes : List Byte} (hlarge : toInt (bytes.length + 6 : Nat) < 6)
    {y : Option RoutableReference} {t' : InputStream ReadEncaps} :
    plainInstance.create ⟨[97], []⟩ (.ofBytes
      (beforeEndpoint ++ (shortBytes 99 ++ encapsulationBytes currentEncoding bytes))
      ⟨currentEncoding, []⟩) ≠ .ok y t' := by
  generalize htail : shortBytes 99 ++ encapsulationBytes currentEncoding bytes = tail
  intro h
  let t : InputStream ReadEncaps := .ofBytes (beforeEndpoint ++ tail) ⟨currentEncoding, []⟩
  have hfacet : readFacet t = .ok [] (t.advance 1) := rfl
  have hmode : readMode (t.advance 1) = .ok .twoway (t.advance 2) := rfl
  have hsecure : readBool (t.advance 2) = .ok false (t.advance 3) := rfl
  have hversions : readVersions (t.advance 3) = .ok (⟨1, 0⟩, ⟨1, 1⟩) (t.advance 7) := rfl
  have hsize : readSize (t.advance 7) = .ok 1 (t.advance 8) := rfl
  have hrest : (t.advance 8).rest = shortBytes 99 ++ encapsulationBytes currentEncoding bytes :=
    htail.symm
  unfold Instance.create at h
  rw [dif_neg (by decide), Lib.bind_of_ok hfacet, Lib.bind_of_ok hmode, Lib.bind_of_ok hsecure,
    Lib.bind_of_ok hversions] at h
  dsimp only at h
  rw [Lib.bind_of_ok hsize, if_pos Nat.one_pos] at h
  obtain ⟨_, _, hendpoints, _⟩ := Lib.ok_of_bind h
  obtain ⟨_, _, hendpoint, _⟩ := Lib.ok_of_bind hendpoints
  obtain ⟨_, _, hshort, hcontent⟩ := Lib.ok_of_bind hendpoint
  obtain ⟨_, rfl⟩ := readShort_ok hshort
  obtain ⟨_, _, hstart, _⟩ := Lib.ok_of_bind hcontent
  have hlength : (shortBytes 99).length = 2 := rfl
  have hcontent := InputStream.rest_advance hrest
  rw [hlength, encapsulationBytes, List.append_assoc] at hcontent
  obtain ⟨encoding, n, _, hrange, hbytes, _⟩ := InputStream.startEncapsulation_ok hstart
  rw [hcontent, List.append_assoc] at hbytes
  have hints : intBytes (bytes.length + 6 : Nat) = intBytes (n + 6 : Nat) := by
    apply List.append_inj_left hbytes
    rw [length_intBytes, length_intBytes]
  have hsz : toInt (bytes.length + 6 : Nat) = toInt (n + 6 : Nat) := by
    rw [← toInt_leNat_intBytes, hints, toInt_leNat_intBytes]
  rw [hsz, toInt_of_lt (by omega) (by omega)] at hlarge
  omega

/-- An encapsulation of `2 ^ 31` bytes and more is written, but it cannot be read. -/
theorem not_marshaled_proxies : ¬∀ (i : Instance) (r : RoutableReference)
    (s s' : OutputStream WriteEncaps),
    (∀ x ∈ r.endpoints, x.Transmittable i) → r.streamWrite s = .ok () s' →
    ∃ bytes, s' = ⟨s.b ++ bytes, s.encoder⟩ ∧
      ∀ (t : InputStream ReadEncaps) (tail : List Byte), t.rest = bytes ++ tail →
        t.decoder.encoding = s.encoder.encoding → t.Owes tail.length →
        ∃ t', i.create r.identity t = .ok (some (r.transmitted s.encoder.encoding)) t' := by
  intro h
  have hunknown : plainInstance.Unknown 99 := by
    intro read hread
    cases hread
  let bytes : List Byte := List.replicate (2 ^ 31) 0
  have htransmittable : ∀ x ∈ (withOpaque bytes).endpoints, x.Transmittable plainInstance := by
    intro x hx
    rw [List.mem_singleton.mp hx]
    exact ⟨by decide, hunknown⟩
  obtain ⟨written, hwritten, hread⟩ :=
    h plainInstance (withOpaque bytes) _ _ htransmittable (streamWrite_withOpaque bytes)
  have hbytes : beforeEndpoint ++ (shortBytes 99 ++ encapsulationBytes currentEncoding bytes) =
      written := congrArg OutputStream.b hwritten
  obtain ⟨t', hcreate⟩ := hread (.ofBytes written ⟨currentEncoding, []⟩) []
    (List.append_nil written).symm rfl (Or.inl rfl)
  rw [← hbytes] at hcreate
  have hlarge : toInt (bytes.length + 6 : Nat) < 6 := by
    rw [List.length_replicate]
    unfold toInt
    decide
  exact create_withOpaque hlarge hcreate

end Ice.References
