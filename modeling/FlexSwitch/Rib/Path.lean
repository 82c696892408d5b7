import FlexSwitch.Go.Map
import FlexSwitch.Packet.AttrRead

/-! Paths of the route table, the neighbors they come from, and what selection reads off them. -/

namespace FlexSwitch.Rib

open Go Packet

/-- Where a `*Path` points to. -/
abbrev PathRef := Nat

/-- Where a `*base.NeighborConf` points to. -/
abbrev NeighborRef := Nat

/--
The text of an address, as the maps have it for a key.

It is kept as the bytes it prints, which are the same for the two forms of an IPv4 address.
-/
abbrev IPText := Bytes

def v4InV6Prefix : Bytes := [0, 0, 0, 0, 0, 0, 0, 0, 0, 0, 0xff, 0xff]

/-- `net.IP.To4`, empty for an address that has no four-byte form. -/
def to4 (ip : Bytes) : Bytes :=
  if ip.length = 4 then ip
  else if ip.length = 16 ∧ ip.take 12 = v4InV6Prefix then ip.drop 12
  else []

theorem to4_cases (ip : Bytes) : to4 ip = [] ∨ ∃ a b c d, to4 ip = [a, b, c, d] := by
  rw [← List.length_eq_four, to4]
  split
  case isTrue short => exact .inr short
  case isFalse =>
    split
    case isTrue mapped => exact .inr (by rw [List.length_drop, mapped.1])
    case isFalse => exact .inl rfl

/-- `net.IP.String`. -/
def ipString (ip : Bytes) : IPText :=
  if ip.length = 16 ∧ ip.take 12 = v4InV6Prefix then ip.drop 12 else ip

/-- The text of a table key: a prefix with its length, or an address alone. -/
inductive PrefixText where
  | cidr (address : IPText) (length : UInt8)
  | address (address : IPText)
deriving DecidableEq, Repr

/-- `GetProtocolFamily`, where the shift is one of sixteen bits. -/
def getProtocolFamily (afi : UInt16) (safi : UInt8) : UInt32 :=
  (afi <<< 8).toUInt32 ||| safi.toUInt32

/-- The address family of `GetAfiSafi`. -/
def getAfi (protoFamily : UInt32) : UInt16 := (protoFamily >>> 8).toUInt16

/-- `GetAddressLengthForFamily`. -/
def getAddressLengthForFamily (protoFamily : UInt32) : Int :=
  match afiNextHopLenMap (getAfi protoFamily) with
  | some addrLen => addrLen
  | none => -1

/-- What selection uses of a neighbor's configuration. -/
structure NeighborConf where
  neighborAddress : Bytes
  localAS : UInt32
  peerAS : UInt32
  bgpId : Bytes
  routerId : Bytes
  routeReflectorClusterId : UInt32
deriving DecidableEq, Repr

namespace NeighborConf

def isInternal (conf : NeighborConf) : Bool := conf.peerAS == conf.localAS

def isExternal (conf : NeighborConf) : Bool := conf.localAS != conf.peerAS

end NeighborConf

/-- How a next hop is reached. -/
structure ReachabilityInfo where
  nextHop : IPText
  nextHopIfType : Int32
  nextHopIfIdx : Int32
  metric : Int32
deriving DecidableEq, Repr

/-- The next hop of one family, empty for nil, and how it is reached, if it is. -/
structure NHReachabilityInfo where
  nextHop : Bytes
  reachabilityInfo : Option ReachabilityInfo
deriving DecidableEq, Repr

def routeTypeAgg : UInt8 := 1

def routeTypeConnected : UInt8 := 2

def routeTypeStatic : UInt8 := 4

def routeTypeIGP : UInt8 := 8

def routeTypeEGP : UInt8 := 16

def routeSrcLocal : UInt8 := 1

def routeSrcExternal : UInt8 := 2

def routeSrcUnknown : UInt8 := 4

def getRouteSource (routeType : UInt8) : UInt8 :=
  if routeType = routeTypeAgg ∨ routeType = routeTypeConnected ∨ routeType = routeTypeStatic ∨
      routeType = routeTypeIGP then routeSrcLocal
  else if routeType = routeTypeEGP then routeSrcExternal
  else routeSrcUnknown

/-- A path to a prefix, with the neighbor it was learned from, if it was learned. -/
structure Path where
  neighborConf : Option NeighborRef
  pathAttrs : List BGPPathAttr
  pref : UInt32
  nhReachabilityInfo : GoMap UInt32 NHReachabilityInfo
  routeType : UInt8
  med : UInt32
  localPref : UInt32
  aggregatedPaths : GoMap IPText PathRef

/-- The paths and neighbors that pointers refer to. -/
structure Memory where
  paths : Heap Path
  neighbors : NeighborRef → NeighborConf

/-- Go through a pointer, which panics when it is nil. -/
def deref {α : Type} : Option α → Call α
  | some value => .ok value
  | none => .panic

theorem deref_eq_ok {α : Type} {pointer : Option α} {value : α} :
    deref pointer = .ok value ↔ pointer = some value := by
  cases pointer <;> simp [deref]

namespace Memory

def path (mem : Memory) (ref : PathRef) : Path := mem.paths.get ref

/-- Go through the pointer to the neighbor, which is nil for a path of our own. -/
def neighborOf (mem : Memory) (path : Path) : Call NeighborConf := do
  return mem.neighbors (← deref path.neighborConf)

end Memory

namespace Path

variable (path : Path) (protoFamily : UInt32)

def isLocal : Bool := getRouteSource path.routeType == routeSrcLocal

def isAggregate : Bool := path.routeType == routeTypeAgg

def isExternal (mem : Memory) (path : Path) : Bool :=
  path.neighborConf.any fun ref => (mem.neighbors ref).isExternal

def isInternal (mem : Memory) (path : Path) : Bool :=
  path.neighborConf.any fun ref => (mem.neighbors ref).isInternal

/-- The next hop of the family, empty for nil. -/
def getNextHop : Bytes :=
  match path.nhReachabilityInfo.lookup protoFamily with
  | some nhReachInfo => nhReachInfo.nextHop
  | none => []

def getReachability : Option ReachabilityInfo :=
  (path.nhReachabilityInfo.lookup protoFamily).bind (·.reachabilityInfo)

/-- Go through the pointer to the reachability information, which may be nil. -/
def reachability : Call ReachabilityInfo :=
  deref (path.getReachability protoFamily)

def isReachable : Bool :=
  path.routeType == routeTypeStatic || path.routeType == routeTypeConnected ||
    path.routeType == routeTypeIGP || (path.getReachability protoFamily).isSome

def hasASLoop (mem : Memory) (path : Path) : Call Bool :=
  match path.neighborConf with
  | none => .ok false
  | some ref => Packet.hasASLoop path.pathAttrs (mem.neighbors ref).localAS

def getNumASes (path : Path) : Call UInt32 := Packet.getNumASes path.pathAttrs

def getOrigin (path : Path) : Call UInt8 := Packet.getOrigin path.pathAttrs

def getNumClusters (path : Path) : Call UInt16 := Packet.getNumClusters path.pathAttrs

/-- The first originator id, or else the id of the neighbor, which has to be there then. -/
def getBGPId (mem : Memory) (path : Path) : Call UInt32 :=
  match getTypeFromPathAttrs path.pathAttrs attrTypeOriginatorId with
  | some attr => do uint32 (to4 (← typeAssert attr.asOriginatorId).value)
  | none => do uint32 (to4 (← mem.neighborOf path).bgpId)

/-- The AS numbers of a segment, in the width that the AS size says they have. -/
def segmentNumbers (asSize : UInt8) (seg : BGPASPathSegment) : Call (List String) := do
  if asSize = 4 then return (← typeAssert seg.asAS4).ases.map fun number => toString number.toNat
  else return (← typeAssert seg.asAS2).ases.map fun number => toString number.toNat

/-- A set is one entry of the list, a sequence an entry for each of its numbers. -/
def segmentStrings (asSize : UInt8) (seg : BGPASPathSegment) : Call (List String) := do
  let numbers ← segmentNumbers asSize seg
  if seg.getType = segmentSet then
    return ["\x7b " ++ String.intercalate ", " numbers ++ " \x7d"]
  else if seg.getType = segmentSequence then return numbers
  else return []

def getAS4ByteList : Call (List String) :=
  match getTypeFromPathAttrs path.pathAttrs attrTypeASPath with
  | none => .ok []
  | some attr => do
    let asPath ← typeAssert attr.asASPath
    asPath.value.foldlM (fun asList seg => do
      return asList ++ (← segmentStrings asPath.asSize seg)) []

end Path

end FlexSwitch.Rib
