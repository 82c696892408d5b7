import FlexSwitch.Packet.Nlri

/-! The path attributes of an UPDATE message, with the flag and length tables decoding consults. -/

namespace FlexSwitch.Packet

open Go

/-- Attribute flag bits. -/
def flagExtendedLen : UInt8 := 0x10

def flagPartial : UInt8 := 0x20

def flagTransitive : UInt8 := 0x40

def flagOptional : UInt8 := 0x80

def flagAllMinusExtendedLen : UInt8 := 0xE0

/-- Attribute type codes. -/
def attrTypeOrigin : UInt8 := 1

def attrTypeASPath : UInt8 := 2

def attrTypeNextHop : UInt8 := 3

def attrTypeMultiExitDisc : UInt8 := 4

def attrTypeLocalPref : UInt8 := 5

def attrTypeAtomicAggregate : UInt8 := 6

def attrTypeAggregator : UInt8 := 7

def attrTypeOriginatorId : UInt8 := 9

def attrTypeClusterList : UInt8 := 10

def attrTypeMPReachNLRI : UInt8 := 14

def attrTypeMPUnreachNLRI : UInt8 := 15

def attrTypeAS4Path : UInt8 := 17

def attrTypeAS4Aggregator : UInt8 := 18

def attrTypeUnknown : UInt8 := 19

def originMax : UInt8 := 3

def segmentSet : UInt8 := 1

def segmentSequence : UInt8 := 2

/-- `BGPPathAttrTypeFlagsMap`: the flags a known attribute carries and the bits compared. -/
def attrTypeFlagsMap (code : UInt8) : Option (UInt8 × UInt8) :=
  if code = attrTypeOrigin ∨ code = attrTypeASPath ∨ code = attrTypeNextHop ∨
      code = attrTypeLocalPref ∨ code = attrTypeAtomicAggregate then
    some (flagTransitive, flagAllMinusExtendedLen)
  else if code = attrTypeMultiExitDisc ∨ code = attrTypeOriginatorId ∨
      code = attrTypeClusterList ∨ code = attrTypeMPReachNLRI ∨
      code = attrTypeMPUnreachNLRI then
    some (flagOptional, flagAllMinusExtendedLen)
  else if code = attrTypeAggregator ∨ code = attrTypeAS4Path ∨ code = attrTypeAS4Aggregator then
    some (flagOptional ||| flagTransitive, flagAllMinusExtendedLen)
  else none

/-- `BGPPathAttrTypeLenMap`: the attributes of one fixed length. -/
def attrTypeLenMap (code : UInt8) : Option UInt16 :=
  if code = attrTypeOrigin then some 1
  else if code = attrTypeNextHop ∨ code = attrTypeMultiExitDisc ∨ code = attrTypeLocalPref then
    some 4
  else if code = attrTypeAtomicAggregate then some 0
  else if code = attrTypeAS4Aggregator then some 8
  else none

/-- What every attribute starts with, and the width of that header. -/
structure BGPPathAttrBase where
  flags : UInt8
  code : UInt8
  length : UInt16
  bgpPathAttrLen : UInt16
deriving DecidableEq, Repr

def BGPPathAttrBase.totalLen (base : BGPPathAttrBase) : UInt32 :=
  base.length.toUInt32 + base.bgpPathAttrLen.toUInt32

theorem BGPPathAttrBase.totalLen_toNat (base : BGPPathAttrBase) :
    base.totalLen.toNat = base.length.toNat + base.bgpPathAttrLen.toNat := by
  have length := base.length.toNat_lt
  have width := base.bgpPathAttrLen.toNat_lt
  simp only [BGPPathAttrBase.totalLen, UInt32.toNat_add, UInt16.toNat_toUInt32]
  omega

structure BGPASPathSegmentBase where
  type : UInt8
  length : UInt8
  bgpASPathSegmentLen : UInt16
deriving DecidableEq, Repr

/-- A segment of two-byte AS numbers. -/
structure BGPAS2PathSegment extends BGPASPathSegmentBase where
  ases : List UInt16
deriving DecidableEq, Repr

/-- A segment of four-byte AS numbers. -/
structure BGPAS4PathSegment extends BGPASPathSegmentBase where
  ases : List UInt32
deriving DecidableEq, Repr

/-- The dynamic type behind the segment interface. -/
inductive BGPASPathSegment where
  | as2 (seg : BGPAS2PathSegment)
  | as4 (seg : BGPAS4PathSegment)
deriving DecidableEq, Repr

namespace BGPASPathSegment

def base : BGPASPathSegment → BGPASPathSegmentBase
  | as2 seg => seg.toBGPASPathSegmentBase
  | as4 seg => seg.toBGPASPathSegmentBase

def totalLen (seg : BGPASPathSegment) : UInt16 := seg.base.bgpASPathSegmentLen

def getType (seg : BGPASPathSegment) : UInt8 := seg.base.type

def getLen (seg : BGPASPathSegment) : UInt8 := seg.base.length

/-- A set counts as one AS, a sequence as its members, cut down to eight bits. -/
def getNumASes : BGPASPathSegment → UInt8
  | as2 seg => if seg.type = segmentSet then 1 else UInt8.ofNat seg.ases.length
  | as4 seg => if seg.type = segmentSet then 1 else UInt8.ofNat seg.ases.length

end BGPASPathSegment

def newBGPAS2PathSegment (segType : UInt8) : BGPAS2PathSegment :=
  { type := segType, length := 0, bgpASPathSegmentLen := 2, ases := [] }

def newBGPAS4PathSegment (segType : UInt8) : BGPAS4PathSegment :=
  { type := segType, length := 0, bgpASPathSegmentLen := 2, ases := [] }

/-- The AS number behind the aggregator interface. -/
inductive BGPAggregatorAS where
  | as2 (number : UInt16)
  | as4 (number : UInt32)
deriving DecidableEq, Repr

def BGPAggregatorAS.getLen : BGPAggregatorAS → UInt16
  | as2 _ => 2
  | as4 _ => 4

def BGPAggregatorAS.getAS : BGPAggregatorAS → UInt32
  | as2 number => number.toUInt32
  | as4 number => number

/-- The next hop of an MP_REACH_NLRI attribute, by dynamic type. -/
inductive MPNextHop where
  | ip (length : UInt8) (value : Bytes)
  | ip6 (length : UInt8) (value : Bytes) (linkLocal : Option Bytes)
  | unknown (length : UInt8) (value : Bytes)
deriving DecidableEq, Repr

def MPNextHop.length : MPNextHop → UInt8
  | ip length _ => length
  | ip6 length _ _ => length
  | unknown length _ => length

/-- The address and its length byte, in the source's eight-bit arithmetic. -/
def MPNextHop.len (nextHop : MPNextHop) : UInt8 := nextHop.length + 1

structure BGPPathAttrOrigin extends BGPPathAttrBase where
  value : UInt8
deriving DecidableEq, Repr

structure BGPPathAttrASPath extends BGPPathAttrBase where
  value : List BGPASPathSegment
  asSize : UInt8
deriving DecidableEq, Repr

structure BGPPathAttrAS4Path extends BGPPathAttrBase where
  value : List BGPAS4PathSegment
deriving DecidableEq, Repr

structure BGPPathAttrNextHop extends BGPPathAttrBase where
  value : Bytes
deriving DecidableEq, Repr

structure BGPPathAttrMultiExitDisc extends BGPPathAttrBase where
  value : UInt32
deriving DecidableEq, Repr

structure BGPPathAttrLocalPref extends BGPPathAttrBase where
  value : UInt32
deriving DecidableEq, Repr

structure BGPPathAttrAggregator extends BGPPathAttrBase where
  aggAS : BGPAggregatorAS
  ip : Bytes
deriving DecidableEq, Repr

structure BGPPathAttrAS4Aggregator extends BGPPathAttrBase where
  aggAS : UInt32
  ip : Bytes
deriving DecidableEq, Repr

structure BGPPathAttrOriginatorId extends BGPPathAttrBase where
  value : Bytes
deriving DecidableEq, Repr

structure BGPPathAttrClusterList extends BGPPathAttrBase where
  value : List UInt32
deriving DecidableEq, Repr

structure BGPPathAttrMPReachNLRI extends BGPPathAttrBase where
  afi : UInt16
  safi : UInt8
  nextHop : MPNextHop
  reserved : UInt8
  nlri : List NLRI
deriving DecidableEq, Repr

structure BGPPathAttrMPUnreachNLRI extends BGPPathAttrBase where
  afi : UInt16
  safi : UInt8
  nlri : List NLRI
deriving DecidableEq, Repr

structure BGPPathAttrUnknown extends BGPPathAttrBase where
  value : Bytes
deriving DecidableEq, Repr

/-- The dynamic type behind the attribute interface. -/
inductive BGPPathAttr where
  | origin (attr : BGPPathAttrOrigin)
  | asPath (attr : BGPPathAttrASPath)
  | nextHop (attr : BGPPathAttrNextHop)
  | multiExitDisc (attr : BGPPathAttrMultiExitDisc)
  | localPref (attr : BGPPathAttrLocalPref)
  | atomicAggregate (base : BGPPathAttrBase)
  | aggregator (attr : BGPPathAttrAggregator)
  | originatorId (attr : BGPPathAttrOriginatorId)
  | clusterList (attr : BGPPathAttrClusterList)
  | mpReachNLRI (attr : BGPPathAttrMPReachNLRI)
  | mpUnreachNLRI (attr : BGPPathAttrMPUnreachNLRI)
  | as4Path (attr : BGPPathAttrAS4Path)
  | as4Aggregator (attr : BGPPathAttrAS4Aggregator)
  | unknown (attr : BGPPathAttrUnknown)
deriving DecidableEq, Repr

namespace BGPPathAttr

def base : BGPPathAttr → BGPPathAttrBase
  | origin attr => attr.toBGPPathAttrBase
  | asPath attr => attr.toBGPPathAttrBase
  | nextHop attr => attr.toBGPPathAttrBase
  | multiExitDisc attr => attr.toBGPPathAttrBase
  | localPref attr => attr.toBGPPathAttrBase
  | atomicAggregate base => base
  | aggregator attr => attr.toBGPPathAttrBase
  | originatorId attr => attr.toBGPPathAttrBase
  | clusterList attr => attr.toBGPPathAttrBase
  | mpReachNLRI attr => attr.toBGPPathAttrBase
  | mpUnreachNLRI attr => attr.toBGPPathAttrBase
  | as4Path attr => attr.toBGPPathAttrBase
  | as4Aggregator attr => attr.toBGPPathAttrBase
  | unknown attr => attr.toBGPPathAttrBase

def getCode (attr : BGPPathAttr) : UInt8 := attr.base.code

def totalLen (attr : BGPPathAttr) : UInt32 := attr.base.totalLen

end BGPPathAttr

/-- The body of an UPDATE message. -/
structure BGPUpdate where
  withdrawnRoutesLen : UInt16
  withdrawnRoutes : List NLRI
  totalPathAttrLen : UInt16
  pathAttributes : List BGPPathAttr
  nlri : List NLRI
deriving DecidableEq, Repr

/-- `NewBGPUpdateMessage`, whose length fields stay zero until the message is encoded. -/
def newBGPUpdateMessage (wdRoutes : List NLRI) (pa : List BGPPathAttr) (nlri : List NLRI) :
    BGPUpdate :=
  { withdrawnRoutesLen := 0, withdrawnRoutes := wdRoutes, totalPathAttrLen := 0,
    pathAttributes := pa, nlri := nlri }

def newBGPPathAttrASPath : BGPPathAttrASPath :=
  { flags := 0x50, code := attrTypeASPath, length := 0, bgpPathAttrLen := 4,
    value := [], asSize := 0 }

/-- Its code is the one of AS_PATH, as the source has it. -/
def newBGPPathAttrAS4Path : BGPPathAttrAS4Path :=
  { flags := flagOptional ||| flagTransitive, code := attrTypeASPath, length := 0,
    bgpPathAttrLen := 4, value := [] }

def BGPPathAttrASPath.appendASPathSegment (attr : BGPPathAttrASPath)
    (pathSeg : BGPASPathSegment) : BGPPathAttrASPath :=
  { attr with value := attr.value ++ [pathSeg], length := attr.length + pathSeg.totalLen }

def newBGPPathAttrMPReachNLRI (afi : UInt16) (safi : UInt8) (nextHop : MPNextHop) :
    BGPPathAttrMPReachNLRI :=
  { flags := flagOptional ||| flagExtendedLen, code := attrTypeMPReachNLRI,
    length := 4 + nextHop.len.toUInt16, bgpPathAttrLen := 4,
    afi := afi, safi := safi, nextHop := nextHop, reserved := 0, nlri := [] }

/-- The sum of a run of prefix lengths, in the attribute's sixteen bits. -/
def nlriListLen16 (nlriList : List NLRI) : UInt16 :=
  nlriList.foldl (fun total nlri => total + nlri.len.toUInt16) 0

def BGPPathAttrMPReachNLRI.setNLRIList (attr : BGPPathAttrMPReachNLRI) (nlriList : List NLRI) :
    BGPPathAttrMPReachNLRI :=
  { attr with nlri := nlriList, length := attr.length + nlriListLen16 nlriList }

def newBGPPathAttrMPUnreachNLRI (afi : UInt16) (safi : UInt8) : BGPPathAttrMPUnreachNLRI :=
  { flags := flagOptional ||| flagExtendedLen, code := attrTypeMPUnreachNLRI, length := 3,
    bgpPathAttrLen := 4, afi := afi, safi := safi, nlri := [] }

def BGPPathAttrMPUnreachNLRI.addNLRIList (attr : BGPPathAttrMPUnreachNLRI)
    (nlriList : List NLRI) : BGPPathAttrMPUnreachNLRI :=
  { attr with nlri := attr.nlri ++ nlriList, length := attr.length + nlriListLen16 nlriList }

end FlexSwitch.Packet
