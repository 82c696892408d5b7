import FlexSwitch.Packet.PathAttr

/-! Reading path attributes off the wire, one decoder for each dynamic type. -/

namespace FlexSwitch.Packet

open Go

namespace BGPPathAttrBase

/-- An error whose data is the attribute up to its total length. -/
def report {α : Type} (base : BGPPathAttrBase) (pkt : Bytes) (subTypeCode : UInt8)
    (message : String) : Call α := do
  let data ← slice pkt 0 base.totalLen.toNat
  .error ⟨bgpUpdateMsgError, subTypeCode, data, message⟩

variable (base : BGPPathAttrBase) (pkt : Bytes)

/-- The flag rules that do not depend on the attribute's type. -/
def checkFlags : Call Unit := do
  if base.flags &&& flagOptional = 0 ∧ base.flags &&& flagTransitive = 0 then
    base.report pkt bgpAttrFlagsError
      "Transitibe bit is not set in a well-known mandatory attribute"
  else if base.flags &&& flagPartial ≠ 0 then
    if base.flags &&& flagOptional = 0 then
      base.report pkt bgpAttrFlagsError "Partial bit is set in a well-known mandatory attribute"
    else if base.flags &&& flagOptional ≠ 0 ∧ base.flags &&& flagTransitive = 0 then
      base.report pkt bgpAttrFlagsError "Partial bit is set in a optional non-transitive attr"

/-- The flags, the code and the length an attribute starts with. -/
def readHeader : Call BGPPathAttrBase := do
  if pkt.length < 3 then
    .error ⟨bgpUpdateMsgError, bgpMalformedAttrList, [], "Not enough data to decode"⟩
  let flags ← index pkt 0
  let code ← index pkt 1
  if flags &&& flagExtendedLen ≠ 0 then
    if pkt.length < 4 then
      .error ⟨bgpUpdateMsgError, bgpMalformedAttrList, [], "Not enough data to decode"⟩
    let length ← uint16 (← slice pkt 2 4)
    return ⟨flags, code, length, 4⟩
  else
    let length ← index pkt 2
    return ⟨flags, code, length.toUInt16, 3⟩

/-- The flags the table asks for, if the code is in it. -/
def checkTypeFlags : Call Unit :=
  match attrTypeFlagsMap base.code with
  | some (flags, mask) =>
    if (flags ^^^ base.flags) &&& mask ≠ 0 then
      base.report pkt bgpAttrFlagsError "Bad Attribute Flags"
    else .ok ()
  | none => .ok ()

/-- The length the table asks for, if the code is in it. -/
def checkTypeLen : Call Unit :=
  match attrTypeLenMap base.code with
  | some length =>
    if length ≠ base.length then base.report pkt bgpAttrLenError "Bad Attribute Length"
    else .ok ()
  | none => .ok ()

/-- The checks a header passes before the attribute's own decoder reads its value. -/
def checkHeader : Call Unit := do
  -- The sum is taken in sixteen bits, so lengths close to the top wrap around.
  if pkt.length < (base.length + base.bgpPathAttrLen).toNat then
    .error ⟨bgpUpdateMsgError, bgpMalformedAttrList, pkt, "Not enough data to decode"⟩
  base.checkTypeFlags pkt
  base.checkFlags pkt
  base.checkTypeLen pkt
  if base.flags &&& flagOptional = 0 ∧ base.code ≥ attrTypeUnknown then
    base.report pkt bgpUnrecognizedWellKnownAttr "Unrecognized Well known attr"

def decode : Call BGPPathAttrBase := do
  let base ← readHeader pkt
  base.checkHeader pkt
  return base

end BGPPathAttrBase

variable (fuel : Nat) (base : BGPPathAttrBase) (pkt : Bytes) (peerAttrs : BGPPeerAttrs)

def BGPPathAttrOrigin.decode : Call BGPPathAttrOrigin := do
  let base ← BGPPathAttrBase.decode pkt
  let value ← index pkt base.bgpPathAttrLen.toNat
  if value ≥ originMax then
    base.report pkt bgpMalformedAttrList ("Undefined ORIGIN value " ++ toString value.toNat)
  return { toBGPPathAttrBase := base, value := value }

def BGPASPathSegmentBase.decode : Call (UInt8 × UInt8) := do
  if pkt.length ≤ 2 then
    .error ⟨bgpUpdateMsgError, bgpMalformedAttrList, [],
      "Not enough data to decode AS path segment"⟩
  let type ← index pkt 0
  let length ← index pkt 1
  return (type, length)

/-- Read consecutive numbers of one width from a position on. -/
def readNumbers {α : Type} (width : Nat) (read : Bytes → Call α) (pkt : Bytes) :
    (count position : Nat) → Call (List α)
  | 0, _ => .ok []
  | count + 1, position => do
    let number ← read (← sliceFrom pkt position)
    let rest ← readNumbers width read pkt count (position + width)
    return number :: rest

/-- A segment of AS numbers of one width, as both segment types decode it. -/
def decodeSegment {α : Type} (width : UInt8) (read : Bytes → Call α) (pkt : Bytes) :
    Call (BGPASPathSegmentBase × List α) := do
  let (type, length) ← BGPASPathSegmentBase.decode pkt
  if (pkt.length : Int) - 2 < length.toNat * width.toNat then
    .error ⟨bgpUpdateMsgError, bgpMalformedAttrList, [],
      "Not enough data to decode AS path segment"⟩
  let ases ← readNumbers width.toNat read pkt length.toNat 2
  -- The product and the sum are eight bits wide before they are widened.
  return (⟨type, length, (length * width + 2).toUInt16⟩, ases)

def BGPAS2PathSegment.decode : Call BGPAS2PathSegment := do
  let (base, ases) ← decodeSegment 2 uint16 pkt
  return { toBGPASPathSegmentBase := base, ases := ases }

def BGPAS4PathSegment.decode : Call BGPAS4PathSegment := do
  let (base, ases) ← decodeSegment 4 uint32 pkt
  return { toBGPASPathSegmentBase := base, ases := ases }

/-- The segment decoder the negotiated AS size selects. -/
def BGPASPathSegment.decode (asSize : UInt8) (pkt : Bytes) : Call BGPASPathSegment :=
  if asSize = 4 then do return .as4 (← BGPAS4PathSegment.decode pkt)
  else do return .as2 (← BGPAS2PathSegment.decode pkt)

/-- Where a segment loop stands: the cursor and the segments read so far. -/
structure SegmentCursor (σ : Type) where
  ptr : UInt32
  value : List σ
deriving DecidableEq, Repr

/--
One round of the segment loops of AS_PATH and AS4_PATH.

A segment that does not decode ends the loop with what was read before it, as `return nil` does.
-/
def segmentRound {σ : Type} (decode : Bytes → Call σ) (totalLen : σ → UInt16)
    (base : BGPPathAttrBase) (pkt : Bytes) (cursor : SegmentCursor σ) :
    Call (Round (SegmentCursor σ) (List σ)) :=
  let last := base.length.toUInt32 + base.bgpPathAttrLen.toUInt32
  let badLength : BGPMessageError :=
    ⟨bgpUpdateMsgError, bgpAttrLenError, pkt, "Bad Attribute Length"⟩
  if cursor.ptr < last then do
    match decode (← sliceFrom pkt cursor.ptr.toNat) with
    | .error _ => return .stop cursor.value
    | .panic => .panic
    | .hang => .hang
    | .ok seg =>
      let ptr := cursor.ptr + (totalLen seg).toUInt32
      if ptr > last then .error badLength
      return .next ⟨ptr, cursor.value ++ [seg]⟩
  else if cursor.ptr ≠ last then .error badLength
  else return .stop cursor.value

def BGPPathAttrASPath.decode : Call BGPPathAttrASPath := do
  let base ← BGPPathAttrBase.decode pkt
  let value ← loop (segmentRound (BGPASPathSegment.decode peerAttrs.asSize)
    BGPASPathSegment.totalLen base pkt) fuel ⟨base.bgpPathAttrLen.toUInt32, []⟩
  return { toBGPPathAttrBase := base, value := value, asSize := peerAttrs.asSize }

def BGPPathAttrAS4Path.decode : Call BGPPathAttrAS4Path := do
  let base ← BGPPathAttrBase.decode pkt
  let value ← loop (segmentRound BGPAS4PathSegment.decode
    (fun seg => seg.bgpASPathSegmentLen) base pkt) fuel
    ⟨base.bgpPathAttrLen.toUInt32, []⟩
  return { toBGPPathAttrBase := base, value := value }

/-- The bytes between the header and the end of the value, bounds in sixteen bits. -/
def BGPPathAttrBase.valueBytes : Call Bytes :=
  slice pkt base.bgpPathAttrLen.toNat (base.bgpPathAttrLen + base.length).toNat

def BGPPathAttrNextHop.decode : Call BGPPathAttrNextHop := do
  let base ← BGPPathAttrBase.decode pkt
  let value ← copyAt (zeros base.length.toNat) 0 (← base.valueBytes pkt)
  return { toBGPPathAttrBase := base, value := value }

def BGPPathAttrMultiExitDisc.decode : Call BGPPathAttrMultiExitDisc := do
  let base ← BGPPathAttrBase.decode pkt
  let value ← uint32 (← base.valueBytes pkt)
  return { toBGPPathAttrBase := base, value := value }

def BGPPathAttrLocalPref.decode : Call BGPPathAttrLocalPref := do
  let base ← BGPPathAttrBase.decode pkt
  let value ← uint32 (← base.valueBytes pkt)
  return { toBGPPathAttrBase := base, value := value }

def BGPAggregatorAS.decode (asSize : UInt8) (pkt : Bytes) : Call BGPAggregatorAS := do
  if asSize = 2 then
    if pkt.length < 2 then
      .error ⟨bgpUpdateMsgError, bgpAttrLenError, [], "Not enough data to decode 2 byte Aggregator"⟩
    return .as2 (← uint16 (← slice pkt 0 2))
  else
    return .as4 (← uint32 (← slice pkt 0 4))

def BGPPathAttrAggregator.decodeValue : Call BGPPathAttrAggregator := do
  let asSize := peerAttrs.asSize
  if base.length < (asSize + 4).toUInt16 then
    base.report pkt bgpAttrLenError "Bad Attribute Length"
  let aggAS ← BGPAggregatorAS.decode asSize (← sliceFrom pkt base.bgpPathAttrLen.toNat)
  let ip ← copyAt (zeros 4) 0 (← sliceFrom pkt (base.bgpPathAttrLen + aggAS.getLen).toNat)
  return { toBGPPathAttrBase := base, aggAS := aggAS, ip := ip }

def BGPPathAttrAggregator.decode : Call BGPPathAttrAggregator := do
  BGPPathAttrAggregator.decodeValue (← BGPPathAttrBase.decode pkt) pkt peerAttrs

def BGPPathAttrAS4Aggregator.decode : Call BGPPathAttrAS4Aggregator := do
  let base ← BGPPathAttrBase.decode pkt
  let aggAS ← uint32 (← slice (← sliceFrom pkt base.bgpPathAttrLen.toNat) 0 4)
  let ip ← copyAt (zeros 4) 0 (← sliceFrom pkt (base.bgpPathAttrLen + 4).toNat)
  return { toBGPPathAttrBase := base, aggAS := aggAS, ip := ip }

def BGPPathAttrOriginatorId.decode : Call BGPPathAttrOriginatorId := do
  let base ← BGPPathAttrBase.decode pkt
  let value ← copyAt (zeros base.length.toNat) 0 (← base.valueBytes pkt)
  return { toBGPPathAttrBase := base, value := value }

/-- The cluster identifiers from index `i` on, both slice bounds in sixteen bits. -/
def readClusters (pkt : Bytes) (bgpPathAttrLen : UInt16) :
    (count : Nat) → (i : UInt16) → Call (List UInt32)
  | 0, _ => .ok []
  | count + 1, i => do
    let low := bgpPathAttrLen + 4 * i
    let id ← uint32 (← slice pkt low.toNat (low + 4).toNat)
    let rest ← readClusters pkt bgpPathAttrLen count (i + 1)
    return id :: rest

def BGPPathAttrClusterList.decode : Call BGPPathAttrClusterList := do
  let base ← BGPPathAttrBase.decode pkt
  let value ← readClusters pkt base.bgpPathAttrLen (base.length / 4).toNat 0
  return { toBGPPathAttrBase := base, value := value }

def BGPPathAttrUnknown.decode : Call BGPPathAttrUnknown := do
  let base ← BGPPathAttrBase.decode pkt
  let value ← copyAt (zeros base.length.toNat) 0 (← base.valueBytes pkt)
  return { toBGPPathAttrBase := base, value := value }

/-- The sixteen-byte form of an IPv4 address. -/
def netIPv4 (a b c d : UInt8) : Bytes :=
  zeros 10 ++ [0xff, 0xff, a, b, c, d]

/-- A wrong length is reported after the length field has been set, and nothing else is. -/
def MPNextHopIP.decode : Call (MPNextHop × Option String) := do
  let length ← index pkt 0
  if length ≠ 4 ∧ length ≠ 16 ∧ length ≠ 32 then
    return (.ip length [], some ("Wrong Next hop len " ++ toString length.toNat))
  else if length = 16 ∨ length = 32 then
    let value ← copyAt (zeros 16) 0 (← sliceFrom pkt 1)
    return (.ip length value, none)
  else
    let value := netIPv4 (← index pkt 1) (← index pkt 2) (← index pkt 3) (← index pkt 4)
    return (.ip length value, none)

def MPNextHopUnknown.decode : Call (MPNextHop × Option String) := do
  let length ← index pkt 0
  let value ← copyAt (zeros length.toNat) 0 (← sliceFrom pkt 1)
  return (.unknown length value, none)

/--
`BGPGetMPNextHop` and the decoder of the type it makes.

The IPv6 prototype makes plain IP next hops too, so both families share one decoder.
-/
def MPNextHop.decode (afi : UInt16) (pkt : Bytes) : Call (MPNextHop × Option String) :=
  if afi = afiIP ∨ afi = afiIP6 then MPNextHopIP.decode pkt else MPNextHopUnknown.decode pkt

def BGPPathAttrMPReachNLRI.decodeValue : Call BGPPathAttrMPReachNLRI := do
  let idx := base.bgpPathAttrLen.toNat
  let afi ← uint16 (← slice pkt idx (idx + 2))
  let safi ← index pkt (idx + 2)
  let idx := idx + 3
  -- The error of the next hop's decoder is dropped.
  let (nextHop, _) ← MPNextHop.decode afi (← sliceFrom pkt idx)
  let idx := idx + nextHop.len.toNat
  let reserved ← index pkt idx
  let idx := idx + 1
  let length := base.length.toUInt32 - 4 - nextHop.len.toUInt32
  let (nlri, _) ← decodeNLRI fuel (← sliceFrom pkt idx) length afi peerAttrs
  return { toBGPPathAttrBase := base, afi := afi, safi := safi, nextHop := nextHop,
           reserved := reserved, nlri := nlri }

def BGPPathAttrMPReachNLRI.decode : Call BGPPathAttrMPReachNLRI := do
  BGPPathAttrMPReachNLRI.decodeValue fuel (← BGPPathAttrBase.decode pkt) pkt peerAttrs

def BGPPathAttrMPUnreachNLRI.decodeValue : Call BGPPathAttrMPUnreachNLRI := do
  let idx := base.bgpPathAttrLen.toNat
  let afi ← uint16 (← slice pkt idx (idx + 2))
  let safi ← index pkt (idx + 2)
  let idx := idx + 3
  let length := base.length.toUInt32 - 3
  let (nlri, _) ← decodeNLRI fuel (← sliceFrom pkt idx) length afi peerAttrs
  return { toBGPPathAttrBase := base, afi := afi, safi := safi, nlri := nlri }

def BGPPathAttrMPUnreachNLRI.decode : Call BGPPathAttrMPUnreachNLRI := do
  BGPPathAttrMPUnreachNLRI.decodeValue fuel (← BGPPathAttrBase.decode pkt) pkt peerAttrs

/-- `BGPGetPathAttr` and the decoder of the type it makes. -/
def BGPPathAttr.decode : Call BGPPathAttr := do
  let code ← index pkt 1
  if code = attrTypeOrigin then return .origin (← BGPPathAttrOrigin.decode pkt)
  else if code = attrTypeASPath then
    return .asPath (← BGPPathAttrASPath.decode fuel pkt peerAttrs)
  else if code = attrTypeNextHop then return .nextHop (← BGPPathAttrNextHop.decode pkt)
  else if code = attrTypeMultiExitDisc then
    return .multiExitDisc (← BGPPathAttrMultiExitDisc.decode pkt)
  else if code = attrTypeLocalPref then return .localPref (← BGPPathAttrLocalPref.decode pkt)
  else if code = attrTypeAtomicAggregate then
    return .atomicAggregate (← BGPPathAttrBase.decode pkt)
  else if code = attrTypeAggregator then
    return .aggregator (← BGPPathAttrAggregator.decode pkt peerAttrs)
  else if code = attrTypeOriginatorId then
    return .originatorId (← BGPPathAttrOriginatorId.decode pkt)
  else if code = attrTypeClusterList then
    return .clusterList (← BGPPathAttrClusterList.decode pkt)
  else if code = attrTypeMPReachNLRI then
    return .mpReachNLRI (← BGPPathAttrMPReachNLRI.decode fuel pkt peerAttrs)
  else if code = attrTypeMPUnreachNLRI then
    return .mpUnreachNLRI (← BGPPathAttrMPUnreachNLRI.decode fuel pkt peerAttrs)
  else if code = attrTypeAS4Path then return .as4Path (← BGPPathAttrAS4Path.decode fuel pkt)
  else if code = attrTypeAS4Aggregator then
    return .as4Aggregator (← BGPPathAttrAS4Aggregator.decode pkt)
  else return .unknown (← BGPPathAttrUnknown.decode pkt)

end FlexSwitch.Packet
