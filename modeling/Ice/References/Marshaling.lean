import Ice.Streams.Encapsulations

/-!
# Marshaled proxies

How routable references and their endpoints are written to streams and read from them. An endpoint
is written in an encapsulation after its type; of a type for which there is no factory the reader
keeps the bytes. The identity is written and read by the callers. Strings are not converted.
-/

namespace Ice.References

open Streams

def TCPEndpointType : Int := 1

def UDPEndpointType : Int := 3

def Protocol_1_0 : Version := ⟨1, 0⟩

/-- `OutputStream::getEncoding` -/
def getWriteEncoding : Write WriteEncaps Version := do
  let s ← get
  return s.encoder.encoding

/-- `InputStream::getEncoding` -/
def getReadEncoding : Read ReadEncaps Version := do
  let s ← get
  return s.decoder.encoding

/-- `IPEndpointI::streamWriteImpl` -/
def IPEndpointI.streamWriteImpl (ip : IPEndpointI) : Write WriteEncaps Unit := do
  writeString ip.host
  writeInt ip.port

/-- The constructor of `IPEndpointI` with a stream -/
def IPEndpointI.read (type : Int) : Read ReadEncaps IPEndpointI := do
  let host ← readString
  let port ← readInt
  return { type, host, port }

namespace EndpointI

/-- `streamWriteImpl` of the classes of endpoints -/
def streamWriteImpl : EndpointI → Write WriteEncaps Unit
  | .tcp ip timeout compress => do
    ip.streamWriteImpl
    writeInt timeout
    writeBool compress
  | .udp ip _ _ _ compress => do
    ip.streamWriteImpl
    let encoding ← getWriteEncoding
    if encoding = Encoding_1_0 then
      writeVersion Protocol_1_0
      writeVersion Encoding_1_0
    writeBool compress
  | .opaqueEndpoint .. => throwFault (.assertion "false")
  | .ws delegate resource => do
    delegate.streamWriteImpl
    writeString resource
  | .ssl delegate => delegate.streamWriteImpl
  | .bt _ addr uuid _ _ timeout compress => do
    writeString addr
    writeString uuid
    writeInt timeout
    writeBool compress
  | .iap _ manufacturer modelNumber name protocol timeout _ compress => do
    writeString manufacturer
    writeString modelNumber
    writeString name
    writeString protocol
    writeInt timeout
    writeBool compress

/-- `streamWrite` -/
def streamWrite : EndpointI → Write WriteEncaps Unit
  | .opaqueEndpoint _ rawEncoding rawBytes => writeEncapsulation rawEncoding (append rawBytes)
  | e => do
    let encoding ← getWriteEncoding
    writeEncapsulation encoding e.streamWriteImpl

/-- An endpoint with its type -/
def write (e : EndpointI) : Write WriteEncaps Unit := do
  writeShort e.type
  e.streamWrite

/-- The constructor of `TcpEndpointI` with a stream -/
def readTcp : Read ReadEncaps EndpointI := do
  let ip ← IPEndpointI.read TCPEndpointType
  let timeout ← readInt
  let compress ← readBool
  return .tcp ip timeout compress

/-- The constructor of `UdpEndpointI` with a stream -/
def readUdp : Read ReadEncaps EndpointI := do
  let ip ← IPEndpointI.read UDPEndpointType
  let encoding ← getReadEncoding
  if encoding = Encoding_1_0 then
    let _ ← readTimes 4 readByte
  let compress ← readBool
  return .udp ip [] (-1) false compress

/-- The constructor of `OpaqueEndpointI` with a stream -/
def readOpaque (type : Int) : Read ReadEncaps EndpointI := do
  let rawEncoding ← getReadEncoding
  let sz ← getEncapsulationSize
  let rawBytes ← readBlob sz
  return .opaqueEndpoint type rawEncoding rawBytes

end EndpointI

/-- What reading takes from the communicator -/
structure Instance where
  /-- The factories besides those of tcp and udp; one may fail to read an endpoint. -/
  factory : Int → Option (Read ReadEncaps (Option EndpointI))
  /-- It skips an optional value of a class. -/
  skipClass : Read ReadEncaps Unit

namespace Instance

/-- `EndpointFactoryManager::get`; what is returned is the `read` of the factory. -/
def get (i : Instance) (type : Int) : Option (Read ReadEncaps (Option EndpointI)) :=
  if type = TCPEndpointType then some (some <$> EndpointI.readTcp)
  else if type = UDPEndpointType then some (some <$> EndpointI.readUdp)
  else i.factory type

/-- What `EndpointFactoryManager::read` reads in the encapsulation -/
def readContent (i : Instance) (type : Int) : Read ReadEncaps EndpointI := do
  let e ← match i.get type with
    | some read => read
    | none => pure none
  match e with
  | some e => return e
  | none => EndpointI.readOpaque type

/-- `EndpointFactoryManager::read` -/
def readEndpoint (i : Instance) : Read ReadEncaps EndpointI := do
  let type ← readShort
  readEncapsulation i.skipClass (i.readContent type)

end Instance

/-- The members of a `RoutableReference` that are transmitted. Its identity is not empty, and it
has an adapter id only if it has no endpoints. -/
structure RoutableReference where
  identity : Identity
  facet : Str
  mode : Mode
  secure : Bool
  protocol : Version
  encoding : Version
  endpoints : List EndpointI
  adapterId : Str
  named : ¬(identity.name = [] ∧ identity.category = [])
  direct : endpoints = [] ∨ adapterId = []

/-- The mode that a byte stands for -/
def Mode.ofByte (b : Byte) : Option Mode :=
  match b.toNat with
  | 0 => some .twoway
  | 1 => some .oneway
  | 2 => some .batchOneway
  | 3 => some .datagram
  | 4 => some .batchDatagram
  | _ => none

/-- `write(const string*, const string*)` -/
def writeStrings (v : List Str) : Write WriteEncaps Unit := do
  writeSize v.length
  v.forM writeString

/-- `read(vector<string>&)` -/
def readStrings : Read ReadEncaps (List Str) := do
  let sz ← readAndCheckSeqSize 1
  readTimes sz readString

/-- A facet is written as a path. -/
def writeFacet (facet : Str) : Write WriteEncaps Unit :=
  if facet = [] then writeStrings [] else writeStrings [facet]

def readFacet : Read ReadEncaps Str := do
  let facetPath ← readStrings
  match facetPath with
  | [] => return []
  | [facet] => return facet
  | _ => throwException .proxyUnmarshal

def readMode : Read ReadEncaps Mode := do
  let modeAsByte ← readByte
  match Mode.ofByte modeAsByte with
  | some mode => return mode
  | none => throwException .proxyUnmarshal

/-- The versions are not transmitted with the encoding 1.0. -/
def writeVersions (protocol encoding : Version) : Write WriteEncaps Unit := do
  let current ← getWriteEncoding
  if current ≠ Encoding_1_0 then
    writeVersion protocol
    writeVersion encoding

def readVersions : Read ReadEncaps (Version × Version) := do
  let current ← getReadEncoding
  if current ≠ Encoding_1_0 then
    let protocol ← readVersion
    let encoding ← readVersion
    return (protocol, encoding)
  else return (Protocol_1_0, Encoding_1_0)

namespace RoutableReference

/-- `Reference::streamWrite` -/
def writeBase (r : RoutableReference) : Write WriteEncaps Unit := do
  writeFacet r.facet
  append [UInt8.ofNat r.mode.toNat]
  writeBool r.secure
  writeVersions r.protocol r.encoding

/-- What is written after the number of endpoints -/
def writeEndpoints (r : RoutableReference) : Write WriteEncaps Unit :=
  if r.endpoints.length ≠ 0 then do
    Streams.assert (r.adapterId = []) "_adapterId.empty()"
    r.endpoints.forM EndpointI.write
  else writeString r.adapterId

/-- `RoutableReference::streamWrite` -/
def streamWrite (r : RoutableReference) : Write WriteEncaps Unit := do
  r.writeBase
  writeSize r.endpoints.length
  r.writeEndpoints

end RoutableReference

/-- `ReferenceFactory::create(const Identity&, InputStream*)` -/
def Instance.create (i : Instance) (ident : Identity) :
    Read ReadEncaps (Option RoutableReference) :=
  if h : ident.name = [] ∧ ident.category = [] then return none
  else do
    let facet ← readFacet
    let mode ← readMode
    let secure ← readBool
    let (protocol, encoding) ← readVersions
    let sz ← readSize
    if 0 < sz then
      let endpoints ← readTimes sz i.readEndpoint
      return some ⟨ident, facet, mode, secure, protocol, encoding, endpoints, [], h, .inr rfl⟩
    else
      let adapterId ← readString
      return some ⟨ident, facet, mode, secure, protocol, encoding, [], adapterId, h, .inl rfl⟩

end Ice.References
