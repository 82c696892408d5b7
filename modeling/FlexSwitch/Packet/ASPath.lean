import FlexSwitch.Packet.AttrList
import FlexSwitch.Packet.Encode
import FlexSwitch.Packet.Open
import FlexSwitch.Packet.Update

/-! AS paths of two- and four-byte numbers: converting, merging and searching them. -/

namespace FlexSwitch.Packet

open Go

/-- The attribute behind the interface, if it is an AS_PATH one. -/
def BGPPathAttr.asASPath : BGPPathAttr → Option BGPPathAttrASPath
  | .asPath attr => some attr
  | _ => none

/-- The attribute behind the interface, if it is an AS4_PATH one. -/
def BGPPathAttr.asAS4Path : BGPPathAttr → Option BGPPathAttrAS4Path
  | .as4Path attr => some attr
  | _ => none

/-- The attribute behind the interface, if it is an AGGREGATOR one. -/
def BGPPathAttr.asAggregator : BGPPathAttr → Option BGPPathAttrAggregator
  | .aggregator attr => some attr
  | _ => none

/-- The attribute behind the interface, if it is an AS4_AGGREGATOR one. -/
def BGPPathAttr.asAS4Aggregator : BGPPathAttr → Option BGPPathAttrAS4Aggregator
  | .as4Aggregator attr => some attr
  | _ => none

/-- The segment behind the interface, if it is one of two-byte numbers. -/
def BGPASPathSegment.asAS2 : BGPASPathSegment → Option BGPAS2PathSegment
  | .as2 seg => some seg
  | .as4 _ => none

/-- The segment behind the interface, if it is one of four-byte numbers. -/
def BGPASPathSegment.asAS4 : BGPASPathSegment → Option BGPAS4PathSegment
  | .as2 _ => none
  | .as4 seg => some seg

/-- The attributes with the first one of the code replaced. -/
def replaceTypeInPathAttrs (code : UInt8) (attr : BGPPathAttr) : List BGPPathAttr → List BGPPathAttr
  | [] => []
  | pa :: rest =>
    if pa.getCode == code then attr :: rest else pa :: replaceTypeInPathAttrs code attr rest

/-- A number that two bytes hold stays, and any other becomes AS_TRANS. -/
def as2Number (number : UInt32) : UInt16 :=
  if number > 65535 then bgpASTrans else number.toUInt16

/-- `CloneAsAS2PathSegment`, with whether every number could be kept. -/
def BGPAS4PathSegment.cloneAsAS2PathSegment (seg : BGPAS4PathSegment) :
    BGPAS2PathSegment × Bool :=
  -- The product is eight bits wide before it is widened.
  ({ type := seg.type, length := seg.length,
     bgpASPathSegmentLen := 2 + (seg.length * 2).toUInt16,
     ases := seg.ases.map as2Number },
   seg.ases.all fun number => number ≤ 65535)

variable (fuel : Nat) (pathAttrs : List BGPPathAttr) (found : ASAttrs) (attr : BGPPathAttrASPath)

/-- `CloneAsAS4Path`, whose header grows by four bytes a segment as the source has it. -/
def BGPPathAttrASPath.cloneAsAS4Path : Call BGPPathAttrAS4Path := do
  let value ← attr.value.mapM fun seg => typeAssert seg.asAS4
  return { newBGPPathAttrAS4Path with
    length := attr.length
    bgpPathAttrLen := newBGPPathAttrAS4Path.bgpPathAttrLen + UInt16.ofNat (attr.value.length * 4)
    value := value }

/-- The path of two-byte numbers, with whether every segment could be mapped. -/
def BGPPathAttrASPath.cloneAsAS2Path : Call (BGPPathAttrASPath × Bool) :=
  attr.value.foldlM (fun state seg => do
    let (as2Seg, mappable) := (← typeAssert seg.asAS4).cloneAsAS2PathSegment
    return (state.1.appendASPathSegment (.as2 as2Seg), state.2 && mappable))
    (newBGPPathAttrASPath, true)

def convert4ByteTo2ByteASPath : Call (List BGPPathAttr) :=
  match getTypeFromPathAttrs pathAttrs attrTypeASPath with
  | none => .ok pathAttrs
  | some pa => do
    let asPath ← typeAssert pa.asASPath
    let newAS4Path ← asPath.cloneAsAS4Path
    let (newAS2Path, mappable) ← asPath.cloneAsAS2Path
    let pathAttrs := replaceTypeInPathAttrs attrTypeASPath (.asPath newAS2Path) pathAttrs
    if mappable then return pathAttrs
    else return addPathAttrToPathAttrsByCode pathAttrs attrTypeAS4Path (.as4Path newAS4Path)

/-- The numbers are stored into a list of the announced length. -/
def BGPAS2PathSegment.widen (seg : BGPAS2PathSegment) : Call BGPAS4PathSegment :=
  if seg.ases.length ≤ seg.length.toNat then
    .ok { type := seg.type, length := seg.length,
          bgpASPathSegmentLen := 2 + seg.length.toUInt16 * 4,
          ases := seg.ases.map UInt16.toUInt32 ++
            List.replicate (seg.length.toNat - seg.ases.length) 0 }
  else .panic

/-- The path with its numbers widened, which keeps the AS size of a new path: none. -/
def BGPPathAttrASPath.widen : Call BGPPathAttrASPath :=
  attr.value.foldlM (fun path seg => do
    return path.appendASPathSegment (.as4 (← (← typeAssert seg.asAS2).widen)))
    newBGPPathAttrASPath

def convertAS2ToAS4 : Call (List BGPPathAttr) :=
  match getTypeFromPathAttrs pathAttrs attrTypeASPath with
  | none => .ok pathAttrs
  | some pa => do
    let newASPath ← (← typeAssert pa.asASPath).widen
    return replaceTypeInPathAttrs attrTypeASPath (.asPath newASPath) pathAttrs

/-- What a segment adds to the count: a set one, a sequence its length, and anything else nothing. -/
def BGPASPathSegment.countASes (seg : BGPASPathSegment) : UInt32 :=
  if seg.getType = segmentSet then 1
  else if seg.getType = segmentSequence then seg.getLen.toUInt32
  else 0

/-- The AS numbers of the AS_PATH attribute are counted for either type. -/
def getNumASesByASType (asType : UInt8) : Call UInt32 :=
  if asType ≠ attrTypeASPath ∧ asType ≠ attrTypeAS4Path then .ok 0
  else match getTypeFromPathAttrs pathAttrs attrTypeASPath with
  | none => .ok 0
  | some pa => do
    let asPath ← typeAssert pa.asASPath
    return asPath.value.foldl (fun total seg => total + seg.countASes) 0

/-- A segment with a full length field stays as it is. -/
def BGPAS4PathSegment.prependAS (seg : BGPAS4PathSegment) (number : UInt32) :
    BGPAS4PathSegment :=
  if seg.length ≥ 255 then seg
  else { seg with
    ases := number :: seg.ases
    length := seg.length + 1
    bgpASPathSegmentLen := seg.bgpASPathSegmentLen + 4 }

/-- The numbers are stored into a new segment, whose own list is empty. -/
def BGPAS2PathSegment.copySkipped (seg : BGPAS2PathSegment) : Call BGPAS4PathSegment :=
  match seg.ases with
  | [] => .ok { type := seg.type, length := seg.length,
                bgpASPathSegmentLen := 2 + seg.length.toUInt16 * 4, ases := [] }
  | _ :: _ => .panic

/-- Where the loop over the skipped segments stands. -/
structure SkipCursor where
  segIdx : Nat
  asNum : UInt16
  newASPath : BGPPathAttrASPath
deriving DecidableEq, Repr

/-- The loop over the segments that come before the skip count, from the given index on. -/
def skipSegments (skip : UInt16) :
    (segments : List BGPASPathSegment) → (idx : Nat) → (cursor : SkipCursor) → Call SkipCursor
  | [], _, cursor => .ok cursor
  | segment :: rest, idx, cursor =>
    if segment.getNumASes.toUInt16 + cursor.asNum > skip then .ok { cursor with segIdx := idx }
    else do
      let seg ← typeAssert segment.asAS2
      let newSeg ← seg.copySkipped
      skipSegments skip rest (idx + 1) ⟨idx, cursor.asNum + segment.getNumASes.toUInt16,
          cursor.newASPath.appendASPathSegment (.as4 newSeg)⟩

/-- One round of the loop that prepends numbers, in which neither side of its test changes. -/
def prependRound (ases : List UInt16) (asNum skip : UInt16) (seg4 : BGPAS4PathSegment) :
    Call (Round BGPAS4PathSegment BGPAS4PathSegment) :=
  if asNum < skip then
    match ases[(skip - asNum - 1).toNat]? with
    | some number => .ok (.next (seg4.prependAS number.toUInt32))
    | none => .panic
  else .ok (.stop seg4)

def constructASPathFromAS4Path (asPath : BGPPathAttrASPath) (as4Path : BGPPathAttrAS4Path)
    (skip : UInt16) : Call BGPPathAttrASPath := do
  let cursor ← skipSegments skip asPath.value 0 ⟨0, 0, newBGPPathAttrASPath⟩
  match as4Path.value with
  | [] => return cursor.newASPath
  | first :: rest =>
    let seg ← typeAssert (asPath.value[cursor.segIdx]?.bind BGPASPathSegment.asAS2)
    let seg4 ← loop (prependRound seg.ases cursor.asNum skip) fuel first
    return (seg4 :: rest).foldl (fun path seg4 => path.appendASPathSegment (.as4 seg4))
      cursor.newASPath

/-- The attributes `NormalizeASPath` looks for, the last of each kind. -/
structure ASAttrs where
  asPath : Option BGPPathAttrASPath
  as4Path : Option BGPPathAttrAS4Path
  asAggregator : Option BGPPathAttrAggregator
  as4Aggregator : Option BGPPathAttrAS4Aggregator
deriving DecidableEq, Repr

/-- One round of the search, which asserts the type that goes with the code. -/
def ASAttrs.record (pa : BGPPathAttr) : Call ASAttrs := do
  if pa.getCode = attrTypeASPath then
    return { found with asPath := some (← typeAssert pa.asASPath) }
  else if pa.getCode = attrTypeAS4Path then
    return { found with as4Path := some (← typeAssert pa.asAS4Path) }
  else if pa.getCode = attrTypeAggregator then
    return { found with asAggregator := some (← typeAssert pa.asAggregator) }
  else if pa.getCode = attrTypeAS4Aggregator then
    return { found with as4Aggregator := some (← typeAssert pa.asAS4Aggregator) }
  else return found

def ASAttrs.collect : Call ASAttrs :=
  pathAttrs.foldlM ASAttrs.record ⟨none, none, none, none⟩

/-- Both aggregators are there, and the old one has a number of its own. -/
def ASAttrs.aggregatorStands : Bool :=
  match found.asAggregator, found.as4Aggregator with
  | some asAggregator, some _ => asAggregator.aggAS.getAS.toUInt16 != bgpASTrans
  | _, _ => false

/-- What a message from a speaker of two-byte numbers is turned into. -/
def normalizeAS2Path (asPath : BGPPathAttrASPath) (found : ASAttrs) : Call (List BGPPathAttr) :=
  if found.aggregatorStands then
    .ok (removeTypeFromPathAttrs (removeTypeFromPathAttrs pathAttrs attrTypeAS4Aggregator)
      attrTypeAS4Path)
  else do
    let pathAttrs ← convertAS2ToAS4 pathAttrs
    match found.as4Path with
    | none => return pathAttrs
    | some as4Path =>
      let numASes ← getNumASesByASType pathAttrs attrTypeASPath
      let numAS4es ← getNumASesByASType pathAttrs attrTypeAS4Path
      if numASes ≥ numAS4es then
        let newASPath ← constructASPathFromAS4Path fuel asPath as4Path (numASes - numAS4es).toUInt16
        return addPathAttrToPathAttrsByCode
          (removeTypeFromPathAttrs (removeTypeFromPathAttrs pathAttrs attrTypeAS4Path)
            attrTypeASPath) attrTypeASPath (.asPath newASPath)
      else return pathAttrs

/-- What a message from a speaker of four-byte numbers is turned into. -/
def normalizeAS4Path : List BGPPathAttr :=
  let pathAttrs := if found.as4Aggregator.isSome then
    removeTypeFromPathAttrs pathAttrs attrTypeAS4Aggregator else pathAttrs
  if found.as4Path.isSome then removeTypeFromPathAttrs pathAttrs attrTypeAS4Path else pathAttrs

/-- `NormalizeASPath` on the attributes of a message that has some. -/
def normalizePathAttrs : Call (List BGPPathAttr) := do
  let found ← ASAttrs.collect pathAttrs
  match found.asPath with
  | none => return pathAttrs
  | some asPath =>
    if asPath.asSize = 2 then normalizeAS2Path fuel pathAttrs asPath found
    else if asPath.asSize = 4 then return normalizeAS4Path pathAttrs found
    else return pathAttrs

def normalizeASPath (body : BGPUpdate) : Call BGPUpdate :=
  if body.totalPathAttrLen = 0 then .ok body
  else do return { body with pathAttributes := ← normalizePathAttrs fuel body.pathAttributes }

/-- Whether a segment has the number, read in the width that the AS size says it has. -/
def segmentHasAS (asSize : UInt8) (localAS : UInt32) (seg : BGPASPathSegment) : Call Bool := do
  if asSize = 4 then return (← typeAssert seg.asAS4).ases.contains localAS
  else return (← typeAssert seg.asAS2).ases.contains localAS.toUInt16

/-- The search ends at the first segment that has the number. -/
def segmentsHaveAS (asSize : UInt8) (localAS : UInt32) : List BGPASPathSegment → Call Bool
  | [] => .ok false
  | seg :: rest => do
    if ← segmentHasAS asSize localAS seg then return true
    else segmentsHaveAS asSize localAS rest

def hasASLoop (localAS : UInt32) : Call Bool :=
  match getTypeFromPathAttrs pathAttrs attrTypeASPath with
  | none => .ok false
  | some attr => do
    let asPath ← typeAssert attr.asASPath
    segmentsHaveAS asPath.asSize localAS asPath.value

structure BGPNotification where
  errorCode : UInt8
  errorSubcode : UInt8
  data : Bytes
deriving DecidableEq, Repr

def BGPNotification.decode (pkt : Bytes) : Call BGPNotification := do
  return ⟨← index pkt 0, ← index pkt 1, pkt.drop 2⟩

/-- The dynamic type behind the body interface. -/
inductive BGPBody where
  | openBody (body : BGPOpen)
  | keepAliveBody
  | updateBody (body : BGPUpdate)
  | notificationBody (body : BGPNotification)
deriving DecidableEq, Repr

/-- The body by the header's type, an UPDATE normalised, and none for types that are not known. -/
def BGPMessage.decode (header : BGPHeader) (pkt : Bytes) (peerAttrs : BGPPeerAttrs) :
    Call (BGPMessage (Option BGPBody)) := do
  if header.type = bgpMsgTypeOpen then
    return ⟨header, some (.openBody (← BGPOpen.decode fuel pkt))⟩
  else if header.type = bgpMsgTypeKeepAlive then return ⟨header, some .keepAliveBody⟩
  else if header.type = bgpMsgTypeUpdate then
    let body ← BGPUpdate.decode fuel header pkt peerAttrs
    return ⟨header, some (.updateBody (← normalizeASPath fuel body))⟩
  else if header.type = bgpMsgTypeNotification then
    return ⟨header, some (.notificationBody (← BGPNotification.decode pkt))⟩
  else return ⟨header, none⟩

def BGPHeader.decode (pkt : Bytes) : Call BGPHeader := do
  return ⟨← uint16 (← slice pkt 16 18), ← index pkt 18⟩

end FlexSwitch.Packet
