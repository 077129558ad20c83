import Ice.Lib.Ranking

/-!
# Proxies

The references behind proxies and the endpoints they hold, with the comparison operators of both
language mappings. A handle of an endpoint is an address and what stands there; all else that is
referred to is a value. An object that is compared with itself needs no test of its own: the
comparison of its fields gives the same.
-/

namespace Ice.References

open Lib

/-- `std::string`, of which the bytes are compared as numbers that are not negative -/
abbrev Str := List UInt8

structure Identity where
  name : Str
  category : Str
  deriving DecidableEq, Repr

/-- `ProtocolVersion` and `EncodingVersion` -/
structure Version where
  major : UInt8
  minor : UInt8
  deriving DecidableEq, Repr

/-- A network address; a number of more than one byte is as the host reads it. The bytes of an
IPv6 address are compared from the first on, like those of a number. -/
inductive Address
  | unspec
  | in4 (port : UInt16) (addr : UInt32)
  | in6 (port : UInt16) (addr : BitVec 128)
  deriving DecidableEq, Repr

/-- `ss_family` -/
def Address.family : Address → Nat
  | .unspec => 0
  | .in4 .. => 2
  | .in6 .. => 10

/-- The tests of `compareAddress` for a field -/
def compareThen {β : Type} [LT β] [DecidableLT β] (a b : β) (rest : Int) : Int :=
  if a < b then -1 else if b < a then 1 else rest

/-- `compareAddress` -/
def compareAddress (addr1 addr2 : Address) : Int :=
  compareThen addr1.family addr2.family <|
    match addr1, addr2 with
    | .in4 port addr, .in4 port' addr' => compareThen port port' (compareThen addr addr' 0)
    | .in6 port addr, .in6 port' addr' => compareThen port port' (compareThen addr addr' 0)
    | _, _ => 0

structure IPEndpointI where
  /-- `_instance->type()` -/
  type : Int
  host : Str
  port : Int
  sourceAddr : Address := .unspec
  connectionId : Str := []
  deriving DecidableEq, Repr

inductive EndpointI
  | tcp (ip : IPEndpointI) (timeout : Int) (compress : Bool)
  | udp (ip : IPEndpointI) (mcastInterface : Str) (mcastTtl : Int) (connect compress : Bool)
  | opaqueEndpoint (type : Int) (rawEncoding : Version) (rawBytes : List UInt8)
  | ws (delegate : EndpointI) (resource : Str)
  | ssl (delegate : EndpointI)
  | bt (type : Int) (addr uuid connectionId : Str) (channel timeout : Int) (compress : Bool)
  | iap (type : Int) (manufacturer modelNumber name protocol : Str) (timeout : Int)
      (connectionId : Str) (compress : Bool)
  deriving DecidableEq, Repr

namespace EndpointI

/-- `type()` -/
def type : EndpointI → Int
  | .tcp ip .. => ip.type
  | .udp ip .. => ip.type
  | .opaqueEndpoint type .. => type
  | .ws delegate _ => delegate.type
  | .ssl delegate => delegate.type
  | .bt type .. => type
  | .iap type .. => type

end EndpointI

/-- `IPEndpointI::operator==` -/
def IPEndpointI.eq (l r : IPEndpointI) : Bool :=
  l.host = r.host && l.port = r.port && l.connectionId = r.connectionId &&
    compareAddress l.sourceAddr r.sourceAddr = 0

/-- `IPEndpointI::operator<` -/
def IPEndpointI.lt (l r : IPEndpointI) : Bool :=
  chainOf l.type r.type <| chainOf l.host r.host <| chainOf l.port r.port <|
    chainOf l.connectionId r.connectionId <|
    chain (compareAddress l.sourceAddr r.sourceAddr < 0)
      (0 < compareAddress l.sourceAddr r.sourceAddr) false

namespace EndpointI

/-- `operator==` of the classes of endpoints -/
def eq : EndpointI → EndpointI → Bool
  | .tcp ip timeout compress, .tcp ip' timeout' compress' =>
    ip.eq ip' && timeout = timeout' && compress = compress'
  | .udp ip interface ttl connect compress, .udp ip' interface' ttl' connect' compress' =>
    ip.eq ip' && compress = compress' && connect = connect' && ttl = ttl' &&
      interface = interface'
  | .opaqueEndpoint type encoding bytes, .opaqueEndpoint type' encoding' bytes' =>
    type = type' && encoding = encoding' && bytes = bytes'
  | .ws delegate resource, .ws delegate' resource' => eq delegate delegate' && resource = resource'
  | .ssl delegate, .ssl delegate' => eq delegate delegate'
  | .bt _ addr uuid id channel timeout compress,
      .bt _ addr' uuid' id' channel' timeout' compress' =>
    addr = addr' && uuid = uuid' && id = id' && channel = channel' && timeout = timeout' &&
      compress = compress'
  | .iap _ manufacturer model name protocol timeout id compress,
      .iap _ manufacturer' model' name' protocol' timeout' id' compress' =>
      manufacturer = manufacturer' && model = model' && name = name' && protocol = protocol' &&
        timeout = timeout' && id = id' && compress = compress'
  | _, _ => false

/-- `operator<` of the classes of endpoints -/
def lt : EndpointI → EndpointI → Bool
  | .tcp ip timeout compress, .tcp ip' timeout' compress' =>
    chainOf timeout timeout' <| chainOf compress compress' <| ip.lt ip'
  | .udp ip interface ttl connect compress, .udp ip' interface' ttl' connect' compress' =>
    chainOf compress compress' <| chainOf connect connect' <| chainOf ttl ttl' <|
      chainOf interface interface' <| ip.lt ip'
  | .opaqueEndpoint type encoding bytes, .opaqueEndpoint type' encoding' bytes' =>
    chainOf type type' <| chainOf encoding.major encoding'.major <|
      chainOf encoding.minor encoding'.minor <| chainOf bytes bytes' false
  | .ws delegate resource, .ws delegate' resource' =>
    chain (lt delegate delegate') (lt delegate' delegate) <| chainOf resource resource' false
  | .ssl delegate, .ssl delegate' => chain (lt delegate delegate') (lt delegate' delegate) false
  | .bt type addr uuid id channel timeout compress,
      .bt type' addr' uuid' id' channel' timeout' compress' =>
      chainOf type type' <| chainOf addr addr' <| chainOf uuid uuid' <| chainOf id id' <|
        chainOf channel channel' <| chainOf timeout timeout' <| chainOf compress compress' false
  | .iap _ manufacturer model name protocol timeout id compress,
      .iap _ manufacturer' model' name' protocol' timeout' id' compress' =>
      chainOf manufacturer manufacturer' <| chainOf model model' <| chainOf name name' <|
        chainOf protocol protocol' <| chainOf timeout timeout' <| chainOf id id' <|
        chainOf compress compress' false
  | l, r => l.type < r.type
termination_by l r => sizeOf l + sizeOf r

end EndpointI

inductive Mode
  | twoway
  | oneway
  | batchOneway
  | datagram
  | batchDatagram
  deriving DecidableEq, Repr

/-- The place of a mode in the enumeration -/
def Mode.toNat : Mode → Nat
  | .twoway => 0
  | .oneway => 1
  | .batchOneway => 2
  | .datagram => 3
  | .batchDatagram => 4

inductive EndpointSelectionType
  | random
  | ordered
  deriving DecidableEq, Repr

def EndpointSelectionType.toNat : EndpointSelectionType → Nat
  | .random => 0
  | .ordered => 1

/-- The members of class `Reference`. `_compress` counts only if `_overrideCompress` is set; the
two are an option. -/
structure Base where
  mode : Mode
  secure : Bool
  identity : Identity
  /-- The map of the context, in the order of its keys -/
  context : List (Str × Str)
  facet : Str
  protocol : Version
  encoding : Version
  invocationTimeout : Int
  overrideCompress : Option Bool
  deriving DecidableEq, Repr

/-- A handle of an endpoint -/
structure EndpointIPtr where
  address : Nat
  target : EndpointI
  deriving DecidableEq, Repr

/-- The members of class `RoutableReference` besides the router and the locator. `_timeout` counts
only if `_overrideTimeout` is set. -/
structure Routing where
  endpoints : List EndpointIPtr
  adapterId : Str
  collocationOptimized : Bool
  cacheConnection : Bool
  preferSecure : Bool
  endpointSelection : EndpointSelectionType
  locatorCacheTimeout : Int
  overrideTimeout : Option Int
  connectionId : Str
  deriving DecidableEq, Repr

/-- A `RouterInfo` and a `LocatorInfo` are compared by the proxies they hold, and these by their
references. A connection is compared by its address. -/
inductive Reference
  | fixed (base : Base) (fixedConnection : Nat)
  | routable (base : Base) (routing : Routing) (routerInfo locatorInfo : Option Reference)

/-- A language mapping -/
inductive Mapping
  | cpp98
  | cpp11
  deriving DecidableEq, Repr

/-- `Reference::operator==` -/
def Base.eq (l r : Base) : Bool :=
  l.mode = r.mode && l.secure = r.secure && l.identity = r.identity && l.context = r.context &&
    l.facet = r.facet && l.overrideCompress = r.overrideCompress && l.protocol = r.protocol &&
    l.encoding = r.encoding && l.invocationTimeout = r.invocationTimeout

/-- The order of the entries of a map -/
def pairLess (l r : Str × Str) : Bool := chainOf l.1 r.1 (l.2 < r.2)

/-- The tests of a flag, and of a value that counts only if the flag is set -/
def chainOverride {β : Type} [LT β] [DecidableLT β] (l r : Option β) (rest : Bool) : Bool :=
  chainOf l.isSome r.isSome <|
    match l, r with
    | some a, some b => chainOf a b rest
    | _, _ => rest

/-- `Reference::operator<` -/
def Base.lt (l r : Base) : Bool :=
  chainOf l.mode.toNat r.mode.toNat <|
    chainOf l.identity.name r.identity.name <| chainOf l.identity.category r.identity.category <|
    chain (listLess pairLess l.context r.context) (listLess pairLess r.context l.context) <|
    chainOf l.facet r.facet <| chainOverride l.overrideCompress r.overrideCompress <|
    chainOf l.secure r.secure <|
    chainOf l.protocol.major r.protocol.major <| chainOf l.protocol.minor r.protocol.minor <|
    chainOf l.encoding.major r.encoding.major <| chainOf l.encoding.minor r.encoding.minor <|
    chainOf l.invocationTimeout r.invocationTimeout false

/-- The tests of `RoutableReference::operator==` that are not about the router and the locator -/
def Routing.eq (l r : Routing) : Bool :=
  l.preferSecure = r.preferSecure && l.collocationOptimized = r.collocationOptimized &&
    l.cacheConnection = r.cacheConnection && l.endpointSelection = r.endpointSelection &&
    l.connectionId = r.connectionId && l.overrideTimeout = r.overrideTimeout &&
    listEqual (fun p q => p.target.eq q.target) l.endpoints r.endpoints &&
    l.adapterId = r.adapterId && l.locatorCacheTimeout = r.locatorCacheTimeout

/-- The endpoints are compared by what they are. -/
def endpointsLess (l r : List EndpointIPtr) : Bool :=
  listLess (fun p q => p.target.lt q.target) l r

/-- The handles of the endpoints are compared. -/
def addressesLess (l r : List EndpointIPtr) : Bool :=
  listLess (fun p q => p.address < q.address) l r

/-- The test whether the endpoints of the other operand are less: `rhs->_endpoints < _endpoints`
compares what handles point to in C++98, where they are `IceUtil::Handle`, and the handles in
C++11, where they are `std::shared_ptr`. -/
def Mapping.endpointsGreater : Mapping → List EndpointIPtr → List EndpointIPtr → Bool
  | .cpp98, l, r => endpointsLess r l
  | .cpp11, l, r => addressesLess r l

/-- The tests of `RoutableReference::operator<` before those of the router -/
def Routing.chainBefore (l r : Routing) (rest : Bool) : Bool :=
  chainOf l.preferSecure r.preferSecure <|
    chainOf l.collocationOptimized r.collocationOptimized <|
    chainOf l.cacheConnection r.cacheConnection <|
    chainOf l.endpointSelection.toNat r.endpointSelection.toNat <|
    chainOf l.connectionId r.connectionId <| chainOverride l.overrideTimeout r.overrideTimeout rest

/-- The tests of `RoutableReference::operator<` after those of the locator -/
def Routing.chainAfter (m : Mapping) (l r : Routing) : Bool :=
  chainOf l.adapterId r.adapterId <|
    chain (endpointsLess l.endpoints r.endpoints) (m.endpointsGreater l.endpoints r.endpoints) <|
    chainOf l.locatorCacheTimeout r.locatorCacheTimeout false

namespace Reference

def base : Reference → Base
  | .fixed base _ => base
  | .routable base .. => base

mutual

/-- `operator==` of the classes of references -/
def eq : Reference → Reference → Bool
  | .fixed base connection, .fixed base' connection' => base.eq base' && connection = connection'
  | .routable base routing router locator, .routable base' routing' router' locator' =>
    base.eq base' && routing.eq routing' && infoEq router router' && infoEq locator locator'
  | _, _ => false

/-- The equality of the handles of routers and locators -/
def infoEq : Option Reference → Option Reference → Bool
  | some l, some r => eq l r
  | none, none => true
  | _, _ => false

end

mutual

/-- `operator<` of the classes of references -/
def lt (m : Mapping) : Reference → Reference → Bool
  | .fixed base connection, .fixed base' connection' =>
    if base.lt base' then true
    else if !base.eq base' then false
    else connection < connection'
  | .routable base routing router locator, .routable base' routing' router' locator' =>
    if base.lt base' then true
    else if !base.eq base' then false
    else
      routing.chainBefore routing' <|
        chain (infoLt m router router') (infoLt m router' router) <|
        chain (infoLt m locator locator') (infoLt m locator' locator) <|
        routing.chainAfter m routing'
  | .fixed base _, .routable base' .. => base.lt base'
  | .routable base .., .fixed base' _ =>
    if base.lt base' then true else if !base.eq base' then false else true
termination_by l r => sizeOf l + sizeOf r

/-- The order of the handles of routers and locators -/
def infoLt (m : Mapping) : Option Reference → Option Reference → Bool
  | some l, some r => lt m l r
  | none, some _ => true
  | _, none => false
termination_by l r => sizeOf l + sizeOf r

end

end Reference

/-- `hashAdd` with an `int` -/
def hashAdd (h : Int32) (value : Int32) : Int32 := ((h <<< 5) + h) ^^^ (-1640531535 * value)

/-- `hashAdd` with a `bool` -/
def hashAddBool (h : Int32) (value : Bool) : Int32 := ((h <<< 5) + h) ^^^ (if value then 1 else 0)

/-- `hashAdd` with a string, the bytes of which are signed -/
def hashAddStr (h : Int32) (value : Str) : Int32 :=
  value.foldl (fun h c => ((h <<< 5) + h) ^^^ c.toInt8.toInt32) h

/-- `Reference::hashInit` -/
def Base.hashInit (b : Base) : Int32 :=
  let h := hashAdd 5381 (Int32.ofNat b.mode.toNat)
  let h := hashAddBool h b.secure
  let h := hashAddStr h b.identity.name
  let h := hashAddStr h b.identity.category
  let h := b.context.foldl (fun h p => hashAddStr (hashAddStr h p.1) p.2) h
  let h := hashAddStr h b.facet
  let h := hashAddBool h b.overrideCompress.isSome
  let h := match b.overrideCompress with
    | some compress => hashAddBool h compress
    | none => h
  let h := hashAdd h (Int32.ofNat b.protocol.major.toNat)
  let h := hashAdd h (Int32.ofNat b.protocol.minor.toNat)
  let h := hashAdd h (Int32.ofNat b.encoding.major.toNat)
  let h := hashAdd h (Int32.ofNat b.encoding.minor.toNat)
  hashAdd h (Int32.ofInt b.invocationTimeout)

/-- `hashInit` of the classes of references -/
def Reference.hashInit : Reference → Int32
  | .fixed base _ => base.hashInit
  | .routable base routing _ _ => hashAddStr base.hashInit routing.adapterId

end Ice.References
