import FlexSwitch.Packet.PathAttrDecode

/-! Reading the body of an UPDATE message. -/

namespace FlexSwitch.Packet

open Go

/-- Where the attribute loop stands: the cursor, the bytes left, and the attributes read so far. -/
structure AttrCursor where
  ptr : UInt32
  length : Int
  pathAttributes : List BGPPathAttr
deriving DecidableEq, Repr

/-- The error that stands for any trouble with the lengths of an UPDATE message. -/
def malformedAttributes : BGPMessageError :=
  ⟨bgpUpdateMsgError, bgpMalformedAttrList, [], "Malformed Attributes"⟩

variable (fuel : Nat) (pkt : Bytes)

/-- One round of the attribute loop in `BGPUpdate.Decode`, with the check that follows the loop. -/
def attrRound (peerAttrs : BGPPeerAttrs) (fuel : Nat) (cursor : AttrCursor) :
    Call (Round AttrCursor AttrCursor) :=
  if 0 < cursor.length then do
    let pa ← BGPPathAttr.decode fuel (← sliceFrom pkt cursor.ptr.toNat) peerAttrs
    return .next ⟨cursor.ptr + pa.totalLen, cursor.length - pa.totalLen.toNat,
      cursor.pathAttributes ++ [pa]⟩
  else if cursor.length < 0 then .error malformedAttributes
  else return .stop cursor

/-- The withdrawn routes, any failure of which is reported as malformed attributes. -/
def decodeWithdrawn (length : UInt32) (peerAttrs : BGPPeerAttrs) : Call (List NLRI × UInt32) := do
  let rest ← sliceFrom pkt 2
  (decodeNLRI fuel rest length afiIP peerAttrs).withError malformedAttributes

/-- The rest of the message, once its attributes have been read. -/
def BGPUpdate.decodeReachable (header : BGPHeader) (pkt : Bytes) (peerAttrs : BGPPeerAttrs)
    (withdrawnRoutesLen totalPathAttrLen : UInt16) (withdrawnRoutes : List NLRI)
    (cursor : AttrCursor) : Call BGPUpdate := do
  let length : Int :=
    header.len.toNat - 23 - withdrawnRoutesLen.toNat - totalPathAttrLen.toNat
  let (nlri, _) ← decodeNLRI fuel (← sliceFrom pkt cursor.ptr.toNat) (UInt32.ofInt length)
    afiIP peerAttrs
  return { withdrawnRoutesLen := withdrawnRoutesLen, withdrawnRoutes := withdrawnRoutes,
           totalPathAttrLen := totalPathAttrLen, pathAttributes := cursor.pathAttributes,
           nlri := nlri }

/-- The message from the attributes on, which start at the given position. -/
def BGPUpdate.decodeAttrs (header : BGPHeader) (pkt : Bytes) (peerAttrs : BGPPeerAttrs)
    (withdrawnRoutesLen : UInt16) (withdrawnRoutes : List NLRI) (ptr : UInt32) :
    Call BGPUpdate := do
  let totalPathAttrLen ← uint16 (← slice pkt ptr.toNat (ptr + 2).toNat)
  if totalPathAttrLen.toNat + withdrawnRoutesLen.toNat + 23 > header.len.toNat then
    .error malformedAttributes
  let cursor ← loop (attrRound pkt peerAttrs fuel) fuel ⟨ptr + 2, totalPathAttrLen.toNat, []⟩
  BGPUpdate.decodeReachable fuel header pkt peerAttrs withdrawnRoutesLen totalPathAttrLen
    withdrawnRoutes cursor

def BGPUpdate.decode (header : BGPHeader) (pkt : Bytes) (peerAttrs : BGPPeerAttrs) :
    Call BGPUpdate := do
  let withdrawnRoutesLen ← uint16 (← slice pkt 0 2)
  if withdrawnRoutesLen.toUInt32 + 23 > header.len then .error malformedAttributes
  let (withdrawnRoutes, ipLen) ← decodeWithdrawn fuel pkt withdrawnRoutesLen.toUInt32 peerAttrs
  BGPUpdate.decodeAttrs fuel header pkt peerAttrs withdrawnRoutesLen withdrawnRoutes (2 + ipLen)

end FlexSwitch.Packet
