import FlexSwitch.Go.Loop
import FlexSwitch.Packet.Message

/-! OPEN messages: the fixed part, its optional parameters and the capabilities inside of them. -/

namespace FlexSwitch.Packet

open Go

def optParamTypeCapability : UInt8 := 2

def capTypeMPExt : UInt8 := 1

def capTypeAS4Path : UInt8 := 65

def capTypeAddPath : UInt8 := 69

structure BGPCapabilityBase where
  type : UInt8
  len : UInt8
deriving DecidableEq, Repr

def BGPCapabilityBase.totalLen (base : BGPCapabilityBase) : UInt16 := base.len.toUInt16 + 2

structure BGPCapMPExt extends BGPCapabilityBase where
  afi : UInt16
  reserved : UInt8
  safi : UInt8
deriving DecidableEq, Repr

structure BGPCapAS4Path extends BGPCapabilityBase where
  value : UInt32
deriving DecidableEq, Repr

structure AddPathAFISAFI where
  afi : UInt16
  safi : UInt8
  flags : UInt8
deriving DecidableEq, Repr

structure BGPCapAddPath extends BGPCapabilityBase where
  value : List AddPathAFISAFI
deriving DecidableEq, Repr

structure BGPCapUnknown extends BGPCapabilityBase where
  value : Bytes
deriving DecidableEq, Repr

/-- The dynamic type behind the capability interface. -/
inductive BGPCapability where
  | mpExt (cap : BGPCapMPExt)
  | as4Path (cap : BGPCapAS4Path)
  | addPath (cap : BGPCapAddPath)
  | unknown (cap : BGPCapUnknown)
deriving DecidableEq, Repr

def BGPCapability.base : BGPCapability → BGPCapabilityBase
  | mpExt cap => cap.toBGPCapabilityBase
  | as4Path cap => cap.toBGPCapabilityBase
  | addPath cap => cap.toBGPCapabilityBase
  | unknown cap => cap.toBGPCapabilityBase

def BGPCapability.totalLen (cap : BGPCapability) : UInt16 := cap.base.totalLen

structure BGPOptParamBase where
  type : UInt8
  len : UInt8
deriving DecidableEq, Repr

/-- The length with the two bytes in front, in the source's eight-bit arithmetic. -/
def BGPOptParamBase.totalLen (base : BGPOptParamBase) : UInt8 := base.len + 2

structure BGPOptParamCapability extends BGPOptParamBase where
  value : List BGPCapability
deriving DecidableEq, Repr

structure BGPOpen where
  version : UInt8
  myAS : UInt32
  holdTime : UInt16
  bgpId : Bytes
  optParamLen : UInt8
  optParams : List BGPOptParamCapability
deriving DecidableEq, Repr

variable (fuel : Nat) (pkt : Bytes)

def BGPCapabilityBase.decode : Call BGPCapabilityBase := do
  if pkt.length < 2 then
    .error ⟨bgpOpenMsgError, bgpUnspecific, [],
      "Not enough data to decode capability type and length"⟩
  let base : BGPCapabilityBase := ⟨← index pkt 0, ← index pkt 1⟩
  if pkt.length < base.totalLen.toNat then
    .error ⟨bgpUpdateMsgError, bgpUnspecific, [], "Not enough data to decode capability data"⟩
  return base

def BGPCapMPExt.decode : Call BGPCapMPExt := do
  let base ← BGPCapabilityBase.decode pkt
  let afi ← uint16 (← sliceFrom pkt 2)
  let safi ← index pkt 5
  return { toBGPCapabilityBase := base, afi := afi, reserved := 0, safi := safi }

def BGPCapAS4Path.decode : Call BGPCapAS4Path := do
  let base ← BGPCapabilityBase.decode pkt
  let value ← uint32 (← sliceFrom pkt 2)
  return { toBGPCapabilityBase := base, value := value }

def AddPathAFISAFI.decode : Call AddPathAFISAFI := do
  if pkt.length < 4 then
    .error ⟨bgpOpenMsgError, bgpUnspecific, [], "Not enough data to decode Add path capability"⟩
  return ⟨← uint16 pkt, ← index pkt 2, ← index pkt 3⟩

def AddPathAFISAFI.len : UInt8 := 4

/-- Where the loop over families stands. -/
structure AddPathCursor where
  offset : UInt16
  value : List AddPathAFISAFI
deriving DecidableEq, Repr

/-- One round of the loop in `BGPCapAddPath.Decode`, and the check behind it. -/
def addPathRound (base : BGPCapabilityBase) (pkt : Bytes) (cursor : AddPathCursor) :
    Call (Round AddPathCursor BGPCapAddPath) :=
  if cursor.offset < base.len.toUInt16 then do
    let family ← AddPathAFISAFI.decode (← sliceFrom pkt cursor.offset.toNat)
    return .next ⟨cursor.offset + AddPathAFISAFI.len.toUInt16, cursor.value ++ [family]⟩
  else if cursor.offset > (base.len + 2).toUInt16 then
    .error ⟨bgpOpenMsgError, bgpUnspecific, [], "Not enough data to decode add path capability"⟩
  else return .stop { toBGPCapabilityBase := base, value := cursor.value }

def BGPCapAddPath.decode : Call BGPCapAddPath := do
  let base ← BGPCapabilityBase.decode pkt
  loop (addPathRound base pkt) fuel ⟨2, []⟩

/-- The bytes are copied into a slice of length zero, so none of them is kept. -/
def BGPCapUnknown.decode : Call BGPCapUnknown := do
  let base ← BGPCapabilityBase.decode pkt
  let _ ← slice pkt 2 base.totalLen.toNat
  return { toBGPCapabilityBase := base, value := [] }

/-- `GetCapParam` chooses the type of the capability, whose `Decode` is then called. -/
def BGPCapability.decode : Call BGPCapability := do
  let capParamType ← index pkt 0
  if capParamType = capTypeMPExt then return .mpExt (← BGPCapMPExt.decode pkt)
  else if capParamType = capTypeAS4Path then return .as4Path (← BGPCapAS4Path.decode pkt)
  else if capParamType = capTypeAddPath then return .addPath (← BGPCapAddPath.decode fuel pkt)
  else return .unknown (← BGPCapUnknown.decode pkt)

def BGPOptParamBase.decode : Call BGPOptParamBase := do
  if pkt.length < 2 then
    .error ⟨bgpOpenMsgError, bgpUnspecific, [],
      "Not enough data to decode Opt params type and length"⟩
  let base : BGPOptParamBase := ⟨← index pkt 0, ← index pkt 1⟩
  if pkt.length < base.totalLen.toNat then
    .error ⟨bgpUpdateMsgError, bgpUnspecific, [], "Not enough data to decode Opt params data"⟩
  return base

/-- Where the loop over capabilities stands. -/
structure CapCursor where
  offset : UInt16
  paramsLen : Int
  value : List BGPCapability
deriving DecidableEq, Repr

/-- One round of the loop in `BGPOptParamCapability.Decode`, and the check behind it. -/
def capRound (base : BGPOptParamBase) (pkt : Bytes) (cursor : CapCursor) :
    Call (Round CapCursor BGPOptParamCapability) :=
  if cursor.paramsLen > 0 then do
    let capParam ← BGPCapability.decode fuel (← sliceFrom pkt cursor.offset.toNat)
    return .next ⟨cursor.offset + capParam.totalLen,
      cursor.paramsLen - capParam.totalLen.toNat, cursor.value ++ [capParam]⟩
  else if cursor.paramsLen < 0 then
    .error ⟨bgpOpenMsgError, bgpUnspecific, [],
      "Not enough data to decode capability type and length"⟩
  else return .stop { toBGPOptParamBase := base, value := cursor.value }

def BGPOptParamCapability.decode : Call BGPOptParamCapability := do
  let base ← BGPOptParamBase.decode pkt
  loop (capRound fuel base pkt) fuel ⟨2, base.len.toNat, []⟩

/-- `GetOptParam`, which knows of capabilities only and refuses everything else. -/
def getOptParam : Call Unit := do
  let optParamType ← index pkt 0
  if optParamType ≠ optParamTypeCapability then
    .error ⟨bgpOpenMsgError, bgpUnsupportedOptionalParam, [],
      "Unknown optional parameter " ++ toString optParamType.toNat⟩
  else return ()

/-- Where the loop over optional parameters stands. -/
structure ParamCursor where
  offset : UInt8
  paramsLen : Int
  optParams : List BGPOptParamCapability
deriving DecidableEq, Repr

/-- One round of the loop in `BGPOpen.Decode`, and the check behind it. -/
def paramRound (cursor : ParamCursor) : Call (Round ParamCursor (List BGPOptParamCapability)) :=
  if cursor.paramsLen > 0 then do
    let rest ← sliceFrom pkt cursor.offset.toNat
    getOptParam rest
    let optParam ← BGPOptParamCapability.decode fuel rest
    return .next ⟨cursor.offset + optParam.totalLen,
      cursor.paramsLen - optParam.totalLen.toNat, cursor.optParams ++ [optParam]⟩
  else if cursor.paramsLen < 0 then
    .error ⟨bgpOpenMsgError, bgpUnspecific, [], "Not enough data to decode optional parameters"⟩
  else return .stop cursor.optParams

def BGPOpen.decode : Call BGPOpen := do
  let version ← index pkt 0
  let myAS ← uint16 (← slice pkt 1 3)
  let holdTime ← uint16 (← slice pkt 3 5)
  let bgpId ← slice pkt 5 9
  let optParamLen ← index pkt 9
  let optParams ← loop (paramRound fuel pkt) fuel ⟨10, optParamLen.toNat, []⟩
  return ⟨version, myAS.toUInt32, holdTime, bgpId, optParamLen, optParams⟩

end FlexSwitch.Packet
