import FlexSwitch.Rib.Path

/-! How OPEN messages are put together and written: capabilities, their parameter, the fixed part. -/

namespace FlexSwitch.Packet

open Go
open Rib (IPText getAfi to4 v4InV6Prefix)

def capAddPathRx : UInt8 := 1

def capAddPathTx : UInt8 := 2

section Encoding

def BGPCapabilityBase.encode (base : BGPCapabilityBase) : Call Bytes := do
  let pkt ← storeAt (zeros base.totalLen.toNat) 0 [base.type]
  storeAt pkt 1 [base.len]

def BGPCapMPExt.encode (mp : BGPCapMPExt) : Call Bytes := do
  let pkt ← mp.toBGPCapabilityBase.encode
  let pkt ← storeAt pkt 2 (uint16Bytes mp.afi)
  let pkt ← storeAt pkt 4 [0]
  storeAt pkt 5 [mp.safi]

def BGPCapAS4Path.encode (cap : BGPCapAS4Path) : Call Bytes := do
  let pkt ← cap.toBGPCapabilityBase.encode
  storeAt pkt 2 (uint32Bytes cap.value)

/-- The entry is written into what is left of the buffer behind the offset. -/
def AddPathAFISAFI.encode (family : AddPathAFISAFI) (pkt : Bytes) (offset : Nat) : Call Bytes := do
  let pkt ← storeAt pkt offset (uint16Bytes family.afi)
  let pkt ← storeAt pkt (offset + 2) [family.safi]
  storeAt pkt (offset + 3) [family.flags]

def BGPCapAddPath.encode (cap : BGPCapAddPath) : Call Bytes := do
  let pkt ← cap.toBGPCapabilityBase.encode
  let (pkt, _) ← cap.value.foldlM (fun (state : Bytes × UInt8) family => do
    let (pkt, offset) := state
    return (← family.encode pkt offset.toNat, offset + AddPathAFISAFI.len)) (pkt, 2)
  return pkt

def BGPCapUnknown.encode (cap : BGPCapUnknown) : Call Bytes := do
  let pkt ← cap.toBGPCapabilityBase.encode
  copyAt pkt 2 cap.value

def BGPCapability.encode : BGPCapability → Call Bytes
  | mpExt cap => cap.encode
  | as4Path cap => cap.encode
  | addPath cap => cap.encode
  | unknown cap => cap.encode

def BGPOptParamBase.encode (base : BGPOptParamBase) : Call Bytes := do
  let pkt ← storeAt (zeros 2) 0 [base.type]
  storeAt pkt 1 [base.len]

def BGPOptParamCapability.encode (param : BGPOptParamCapability) : Call Bytes := do
  let pkt ← param.toBGPOptParamBase.encode
  param.value.foldlM (fun pkt cap => do return pkt ++ (← cap.encode)) pkt

/-- The four bytes of the id are the only ones that `To4` gives, if it gives any. -/
def BGPOpen.encode (msg : BGPOpen) : Call Bytes := do
  let pkt ← storeAt (zeros 10) 0 [msg.version]
  let pkt ← storeAt pkt 1 (uint16Bytes msg.myAS.toUInt16)
  let pkt ← storeAt pkt 3 (uint16Bytes msg.holdTime)
  let pkt ← copyAt pkt 5 (to4 msg.bgpId)
  let (pkt, paramsLen) ← msg.optParams.foldlM (fun (state : Bytes × UInt8) param => do
    let (pkt, paramsLen) := state
    return (pkt ++ (← param.encode), paramsLen + param.totalLen)) (pkt, 0)
  storeAt pkt 9 [paramsLen]

end Encoding

section Building

def newBGPCapMPExt (afi : UInt16) (safi : UInt8) : BGPCapMPExt :=
  { type := capTypeMPExt, len := 4, afi := afi, reserved := 0, safi := safi }

def newBGPCap4ByteASPath (as : UInt32) : BGPCapAS4Path :=
  { type := capTypeAS4Path, len := 4, value := as }

def newAddPathAFISAFI (afi : UInt16) (safi flags : UInt8) : AddPathAFISAFI := ⟨afi, safi, flags⟩

def newBGPCapAddPath : BGPCapAddPath := { type := capTypeAddPath, len := 0, value := [] }

def BGPCapAddPath.addAddPathAFISAFI (cap : BGPCapAddPath) (family : AddPathAFISAFI) :
    BGPCapAddPath :=
  { cap with
    value := cap.value ++ [family]
    len := cap.len + AddPathAFISAFI.len }

/-- The lengths are added up in sixteen bits, and the low byte of the sum is kept. -/
def newBGPOptParamCapability (caps : List BGPCapability) : BGPOptParamCapability :=
  let paramsLen : UInt16 := caps.foldl (fun sum cap => sum + cap.totalLen) 0
  { type := optParamTypeCapability, len := paramsLen.toUInt8, value := caps }

/-- The subsequent address family of `GetAfiSafi`. -/
def getSafi (protoFamily : UInt32) : UInt8 := (protoFamily &&& 0xff).toUInt8

/-- The flags that every add-path entry of a message carries. -/
def addPathFlags (addPathsRx : Bool) (addPathsMaxTx : UInt8) : UInt8 :=
  (if addPathsRx then capAddPathRx else 0) ||| (if addPathsMaxTx > 0 then capAddPathTx else 0)

/-- One round of the loop in `ConstructOptParams`, over the families of the neighbor. -/
def advertiseFamily (flags : UInt8) (state : List BGPCapability × BGPCapAddPath)
    (protoFamily : UInt32) : List BGPCapability × BGPCapAddPath :=
  let (capParams, capAddPaths) := state
  let afi := getAfi protoFamily
  let safi := getSafi protoFamily
  (capParams ++ [.mpExt (newBGPCapMPExt afi safi)],
    capAddPaths.addAddPathAFISAFI (newAddPathAFISAFI afi safi flags))

def constructOptParams (order : MapOrder) (as : UInt32) (afiSafiMap : GoMap UInt32 Bool)
    (addPathsRx : Bool) (addPathsMaxTx : UInt8) : List BGPOptParamCapability :=
  let flags := addPathFlags addPathsRx addPathsMaxTx
  let families := (order.range "ConstructOptParams" afiSafiMap).map Prod.fst
  let (capParams, capAddPaths) := families.foldl (advertiseFamily flags)
    ([.as4Path (newBGPCap4ByteASPath as)], newBGPCapAddPath)
  let capParams := if flags ≠ 0 then capParams ++ [.addPath capAddPaths] else capParams
  [newBGPOptParamCapability capParams]

/-- `net.ParseIP`, which gives sixteen bytes, or nil for a text that is no address. -/
def parseIP (text : IPText) : Bytes :=
  if text.length = 4 then v4InV6Prefix ++ text
  else if text.length = 16 then text
  else []

/-- The body that `NewBGPOpenMessage` makes. -/
def newBGPOpenMessage (myAS : UInt32) (holdTime : UInt16) (bgpId : IPText)
    (optParams : List BGPOptParamCapability) : BGPOpen :=
  { version := 4
    myAS := if myAS > 0xffff then bgpASTrans.toUInt32 else myAS
    holdTime := holdTime
    bgpId := parseIP bgpId
    optParamLen := optParams.foldl (fun sum param => sum + param.totalLen) 0
    optParams := optParams }

end Building

end FlexSwitch.Packet
