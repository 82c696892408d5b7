import FlexSwitch.Packet.AttrList

/-! Cutting an UPDATE message that is too long into messages that are not. -/

namespace FlexSwitch.Packet

open Go

def constructMPUnreachNLRI (afi : UInt16) (safi : UInt8) (nlriList : List NLRI) :
    BGPPathAttrMPUnreachNLRI :=
  (newBGPPathAttrMPUnreachNLRI afi safi).addNLRIList nlriList

def cloneMPReachNLRIWithNewNLRI (mpReachNLRI : BGPPathAttrMPReachNLRI) (nlri : List NLRI) :
    BGPPathAttrMPReachNLRI :=
  (newBGPPathAttrMPReachNLRI mpReachNLRI.afi mpReachNLRI.safi mpReachNLRI.nextHop).setNLRIList nlri

/--
The variables of `ConstructMaxSizedUpdatePackets` that outlive its loops.

`attributes` is the slice of the message itself, which the function takes attributes out of and
puts others into.
-/
structure Assembly where
  newUpdateMsgs : List BGPUpdate
  withdrawnRoutes : List NLRI
  pathAttrs : List BGPPathAttr
  attributes : AttrSlice
  mpAttsFound : Bool
deriving DecidableEq, Repr

/-- Where a loop over prefixes stands; `chunk` is what lies between its two indices. -/
structure ChunkCursor where
  pktLen : UInt32
  lastIdx : Nat
  chunk : List NLRI
  assembly : Assembly
deriving DecidableEq, Repr

/--
One round of the loops over prefixes.

They differ in the bytes counted on top of the prefixes and in the message they put the chunk
into, which may depend on whether this is the first round.
-/
def chunkRound (baseLen : UInt32) (emit : Bool → List NLRI → Assembly → Assembly)
    (cursor : ChunkCursor) (nlri : NLRI) : ChunkCursor :=
  let nlriLen := nlri.len
  let cut : ChunkCursor :=
    if nlriLen + cursor.pktLen + baseLen > bgpMsgMaxLen then
      { cursor with
        assembly := emit (cursor.lastIdx != 0) cursor.chunk cursor.assembly
        chunk := []
        pktLen := bgpUpdateMsgMinLen }
    else cursor
  { cut with
    pktLen := cut.pktLen + nlriLen
    chunk := cut.chunk ++ [nlri]
    lastIdx := cut.lastIdx + 1 }

/-- A whole loop over prefixes. -/
def chunkLoop (baseLen : UInt32) (emit : Bool → List NLRI → Assembly → Assembly)
    (pktLen : UInt32) (assembly : Assembly) (nlriList : List NLRI) : ChunkCursor :=
  nlriList.foldl (chunkRound baseLen emit) ⟨pktLen, 0, [], assembly⟩

/-- A message of withdrawn routes only. -/
def emitWithdrawn (_ : Bool) (chunk : List NLRI) (assembly : Assembly) : Assembly :=
  { assembly with
    newUpdateMsgs := assembly.newUpdateMsgs ++ [newBGPUpdateMessage chunk [] []] }

/-- A message of unreachable prefixes, with the withdrawn routes that are still waiting. -/
def emitUnreach (mpUnreach : BGPPathAttrMPUnreachNLRI) (later : Bool) (chunk : List NLRI)
    (assembly : Assembly) : Assembly :=
  let pa : List BGPPathAttr :=
    if later then [.mpUnreachNLRI (constructMPUnreachNLRI mpUnreach.afi mpUnreach.safi chunk)]
    else []
  { assembly with
    newUpdateMsgs :=
      assembly.newUpdateMsgs ++ [newBGPUpdateMessage assembly.withdrawnRoutes pa []]
    withdrawnRoutes := [] }

/-- A message of reachable prefixes, with everything that is still waiting. -/
def emitReach (mpReach : BGPPathAttrMPReachNLRI) (otherPAs : List BGPPathAttr) (later : Bool)
    (chunk : List NLRI) (assembly : Assembly) : Assembly :=
  let pa : List BGPPathAttr :=
    if later then addMPReachNLRIToPathAttrs otherPAs (cloneMPReachNLRIWithNewNLRI mpReach chunk)
    else []
  let pa := assembly.pathAttrs.foldl addPathAttrToPathAttrs pa
  { assembly with
    newUpdateMsgs :=
      assembly.newUpdateMsgs ++ [newBGPUpdateMessage assembly.withdrawnRoutes pa []]
    withdrawnRoutes := []
    pathAttrs := [] }

/-- A message of plain prefixes, its attributes put together in the slice of the message. -/
def emitNLRI (_ : Bool) (chunk : List NLRI) (assembly : Assembly) : Assembly :=
  let (pa, view) := assembly.attributes.insertAll assembly.pathAttrs
  { assembly with
    newUpdateMsgs :=
      assembly.newUpdateMsgs ++ [newBGPUpdateMessage assembly.withdrawnRoutes pa.items chunk]
    withdrawnRoutes := []
    pathAttrs := []
    attributes := { assembly.attributes with items := view }
    mpAttsFound := false }

/-- The unreachable prefixes of a message that is too long. -/
def splitUnreach (mpUnreach : BGPPathAttrMPUnreachNLRI) (pktLen : UInt32) (assembly : Assembly) :
    UInt32 × Assembly :=
  let assembly := { assembly with
    attributes := assembly.attributes.removeType attrTypeMPUnreachNLRI }
  let mpUnreachBaseLen := mpUnreach.bgpPathAttrLen.toUInt32 + 3
  let cursor : ChunkCursor :=
    if 0 < mpUnreach.nlri.length ∧ pktLen + mpUnreach.totalLen > bgpMsgMaxLen then
      chunkLoop mpUnreachBaseLen (emitUnreach mpUnreach) pktLen assembly mpUnreach.nlri
    else ⟨pktLen, 0, [], assembly⟩
  if cursor.chunk ≠ [] then
    (cursor.pktLen + mpUnreachBaseLen, { cursor.assembly with
        pathAttrs := cursor.assembly.pathAttrs ++ [.mpUnreachNLRI
            (constructMPUnreachNLRI mpUnreach.afi mpUnreach.safi cursor.chunk)] })
  else (cursor.pktLen, cursor.assembly)

/-- The reachable prefixes of a message that is too long. -/
def splitReach (mpReach : BGPPathAttrMPReachNLRI) (pktLen : UInt32) (assembly : Assembly) :
    UInt32 × Assembly :=
  let assembly := { assembly with
    attributes := assembly.attributes.removeType attrTypeMPReachNLRI }
  let otherPAs := assembly.attributes.items
  let otherPAsLen := pathAttrsLen otherPAs
  let nextHopLen := mpReach.bgpPathAttrLen.toUInt32 + 4 + mpReach.nextHop.len.toUInt32
  let cursor : ChunkCursor :=
    if 0 < mpReach.nlri.length ∧ pktLen + otherPAsLen + mpReach.totalLen > bgpMsgMaxLen then
      chunkLoop (nextHopLen + otherPAsLen) (emitReach mpReach otherPAs) pktLen assembly mpReach.nlri
    else ⟨pktLen, 0, [], assembly⟩
  if cursor.chunk ≠ [] then
    (cursor.pktLen + nextHopLen, { cursor.assembly with
        pathAttrs := addMPReachNLRIToPathAttrs cursor.assembly.pathAttrs
          (cloneMPReachNLRIWithNewNLRI mpReach cursor.chunk) })
  else (cursor.pktLen, cursor.assembly)

/-- The multiprotocol attributes, which are taken apart when the message is too long with them. -/
def splitMPAttrs (pktLen : UInt32) (assembly : Assembly) : Call (UInt32 × Assembly) :=
  if pktLen + pathAttrsLen assembly.attributes.items > bgpMsgMaxLen then do
    let (mpReach, mpUnreach) ← getMPAttrs assembly.attributes.items
    let (pktLen, assembly) := match mpUnreach with
      | some mpUnreach => splitUnreach mpUnreach pktLen assembly
      | none => (pktLen, assembly)
    return match mpReach with
      | some mpReach => splitReach mpReach pktLen assembly
      | none => (pktLen, assembly)
  else return (pktLen, assembly)

/-- A message for what is waiting, when it does not fit with the remaining attributes. -/
def flushWaiting (pktLen paLen : UInt32) (assembly : Assembly) : UInt32 × Assembly :=
  if pktLen + paLen > bgpMsgMaxLen then
    let otherPAs : List BGPPathAttr :=
      if (getTypeFromPathAttrs assembly.pathAttrs attrTypeMPReachNLRI).isSome then
        assembly.attributes.items
      else []
    let otherPAs := assembly.pathAttrs.foldl addPathAttrToPathAttrs otherPAs
    (bgpUpdateMsgMinLen, { assembly with
        newUpdateMsgs :=
          assembly.newUpdateMsgs ++ [newBGPUpdateMessage assembly.withdrawnRoutes otherPAs []]
        withdrawnRoutes := []
        pathAttrs := [] })
  else (pktLen, assembly)

/-- The plain prefixes, and a last message when something is still waiting. -/
def splitNLRI (nlriList : List NLRI) (pktLen paLen : UInt32) (assembly : Assembly) :
    List BGPUpdate :=
  let cursor := chunkLoop paLen emitNLRI pktLen
    { assembly with mpAttsFound := hasMPAttrs assembly.attributes.items } nlriList
  if cursor.assembly.withdrawnRoutes ≠ [] ∨ cursor.chunk ≠ [] ∨
      cursor.assembly.pathAttrs ≠ [] ∨ cursor.assembly.mpAttsFound then
    (emitNLRI true cursor.chunk cursor.assembly).newUpdateMsgs
  else cursor.assembly.newUpdateMsgs

/--
Messages of at most 4096 bytes that together announce and withdraw what one message does.

`spare` is the room behind the attributes of the message in their array.
-/
def constructMaxSizedUpdatePackets (updateMsg : BGPUpdate) (spare : Nat) :
    Call (List BGPUpdate) := do
  let cursor := chunkLoop 0 emitWithdrawn bgpUpdateMsgMinLen
    ⟨[], [], [], ⟨updateMsg.pathAttributes, spare⟩, false⟩ updateMsg.withdrawnRoutes
  let (pktLen, assembly) ← splitMPAttrs cursor.pktLen
    { cursor.assembly with withdrawnRoutes := cursor.chunk }
  let paLen := pathAttrsLen assembly.attributes.items
  let (pktLen, assembly) := flushWaiting pktLen paLen assembly
  return splitNLRI updateMsg.nlri pktLen paLen assembly

end FlexSwitch.Packet
