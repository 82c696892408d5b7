import FlexSwitch.Packet.PathAttr

/-! Writing UPDATE messages: attributes into buffers of their announced size, and the whole message. -/

namespace FlexSwitch.Packet

open Go

/-- `errors.New`: an error that has a text and no codes. -/
def plainError (text : String) : BGPMessageError := ⟨0, 0, [], text⟩

/-- `value[cap(value)-count:]`, which ends where the slice does and not at its capacity. -/
def lastBytes (value spare : Bytes) (count : Nat) : Call Bytes :=
  let first := value.length + spare.length - count
  if count ≤ value.length + spare.length ∧ first ≤ value.length then .ok (value.drop first)
  else .panic

/-- Of a slice that ends at its capacity, the last bytes are taken. -/
theorem lastBytes_eq {value : Bytes} {size : Nat} (long : size ≤ value.length) :
    lastBytes value [] size = .ok (value.drop (value.length - size)) := by
  simp [lastBytes, long]

variable (base : BGPPathAttrBase)

/-- The header of an attribute, in a buffer that has room for its value. -/
def BGPPathAttrBase.encode : Call Bytes := do
  let pkt ← storeAt (zeros base.totalLen.toNat) 0 [base.flags]
  let pkt ← storeAt pkt 1 [base.code]
  if base.flags &&& flagExtendedLen ≠ 0 then storeAt pkt 2 (uint16Bytes base.length)
  else storeAt pkt 2 [base.length.toUInt8]

/-- Fields of one width written one after the other, the first of them at the position. -/
def storeEach {α : Type} (width : Nat) (bytes : α → Bytes) (pkt : Bytes) (position : Nat)
    (values : List α) : Call Bytes :=
  values.zipIdx.foldlM (fun pkt entry =>
    storeAt pkt (position + entry.2 * width) (bytes entry.1)) pkt

/-- A segment is written into the rest of the attribute's buffer. -/
def BGPASPathSegment.encode (seg : BGPASPathSegment) (pkt : Bytes) (position : Nat) :
    Call Bytes := do
  let pkt ← storeAt pkt position [seg.getType]
  let pkt ← storeAt pkt (position + 1) [seg.getLen]
  match seg with
  | .as2 seg => storeEach 2 uint16Bytes pkt (position + 2) seg.ases
  | .as4 seg => storeEach 4 uint32Bytes pkt (position + 2) seg.ases

/-- The loop over segments, its cursor in the source's sixteen bits. -/
def encodeSegments (pkt : Bytes) (length : UInt16) (value : List BGPASPathSegment) :
    Call (Bytes × UInt16) :=
  value.foldlM (fun state seg => do
    return (← seg.encode state.1 state.2.toNat, state.2 + seg.totalLen)) (pkt, length)

def BGPAggregatorAS.bytes : BGPAggregatorAS → Bytes
  | as2 number => uint16Bytes number
  | as4 number => uint32Bytes number

/-- The address of a next hop is its last four or sixteen bytes, by the length it announces. -/
def encodeNextHopIP (length : UInt8) (value spare : Bytes) (pkt : Bytes) (position : Nat) :
    Call Bytes := do
  let pkt ← storeAt pkt position [length]
  if length ≠ 4 ∧ length ≠ 16 ∧ length ≠ 32 then
    .error (plainError ("Wrong Next hop len " ++ toString length.toNat))
  let ipLen := if length = 16 ∨ length = 32 then 16 else 4
  copyAt pkt (position + 1) (← lastBytes value spare ipLen)

/-- A next hop, whose addresses have memory behind them, is written into the rest of a buffer. -/
def MPNextHop.encodeHeld (nextHop : MPNextHop) (spare linkSpare : Bytes) (pkt : Bytes)
    (position : Nat) : Call Bytes :=
  match nextHop with
  | ip length value => encodeNextHopIP length value spare pkt position
  | ip6 length value linkLocal => do
    let pkt ← encodeNextHopIP length value spare pkt position
    match linkLocal with
    | some address => copyAt pkt (position + 17) (← lastBytes address linkSpare 16)
    | none => return pkt
  | unknown length value => do
    let pkt ← storeAt pkt position [length]
    copyAt pkt (position + 1) value

/-- The prefixes of a multiprotocol attribute, one behind the other in its buffer. -/
def encodeNLRIs (afi : UInt16) (pkt : Bytes) (idx : Nat) (nlriList : List NLRI) :
    Call (Bytes × Nat) :=
  nlriList.foldlM (fun state nlri => do
    let bytes ← nlri.encode afi
    return (← copyAt state.1 state.2 bytes, state.2 + bytes.length)) (pkt, idx)

/-- The attribute, with the memory behind the addresses of its next hop. -/
def BGPPathAttrMPReachNLRI.encodeHeld (attr : BGPPathAttrMPReachNLRI) (spare linkSpare : Bytes) :
    Call Bytes := do
  let pkt ← attr.toBGPPathAttrBase.encode
  let idx := attr.bgpPathAttrLen.toNat
  let pkt ← storeAt pkt idx (uint16Bytes attr.afi)
  let pkt ← storeAt pkt (idx + 2) [attr.safi]
  let pkt ← attr.nextHop.encodeHeld spare linkSpare pkt (idx + 3)
  let idx := idx + 3 + attr.nextHop.len.toNat
  let pkt ← storeAt pkt idx [0]
  return (← encodeNLRIs attr.afi pkt (idx + 1) attr.nlri).1

/-- The attribute with addresses that end at their capacities. -/
def BGPPathAttrMPReachNLRI.encode (attr : BGPPathAttrMPReachNLRI) : Call Bytes :=
  attr.encodeHeld [] []

def BGPPathAttrMPUnreachNLRI.encode (attr : BGPPathAttrMPUnreachNLRI) : Call Bytes := do
  let pkt ← attr.toBGPPathAttrBase.encode
  let idx := attr.bgpPathAttrLen.toNat
  let pkt ← storeAt pkt idx (uint16Bytes attr.afi)
  let pkt ← storeAt pkt (idx + 2) [attr.safi]
  return (← encodeNLRIs attr.afi pkt (idx + 3) attr.nlri).1

/-- An aggregator's AS number, and its address behind it. -/
def encodeAggregator (aggAS : BGPAggregatorAS) (ip : Bytes) : Call Bytes := do
  let pkt ← base.encode
  let pkt ← storeAt pkt base.bgpPathAttrLen.toNat aggAS.bytes
  copyAt pkt (base.bgpPathAttrLen + aggAS.getLen).toNat ip

/-- The header of the attribute, followed by a value that is stored. -/
def encodeStored (value : Bytes) : Call Bytes := do
  storeAt (← base.encode) base.bgpPathAttrLen.toNat value

/-- The header of the attribute, followed by a value that is copied as far as there is room. -/
def encodeCopied (value : Bytes) : Call Bytes := do
  copyAt (← base.encode) base.bgpPathAttrLen.toNat value

def BGPPathAttrClusterList.encode (attr : BGPPathAttrClusterList) : Call Bytes := do
  let pkt ← attr.toBGPPathAttrBase.encode
  -- Both the number of entries and their positions are sixteen bits wide.
  let value := attr.value.take (UInt16.ofNat attr.value.length).toNat
  value.zipIdx.foldlM (fun pkt entry =>
    storeAt pkt (attr.bgpPathAttrLen + 4 * UInt16.ofNat entry.2).toNat (uint32Bytes entry.1)) pkt

/-- The `Encode` method behind the attribute interface. -/
def BGPPathAttr.encode : BGPPathAttr → Call Bytes
  | origin attr => encodeStored attr.toBGPPathAttrBase [attr.value]
  | asPath attr => do
    return (← encodeSegments (← attr.toBGPPathAttrBase.encode) attr.bgpPathAttrLen attr.value).1
  | nextHop attr => do
    let pkt ← attr.toBGPPathAttrBase.encode
    copyAt pkt attr.bgpPathAttrLen.toNat (← lastBytes attr.value [] attr.length.toNat)
  | multiExitDisc attr => encodeStored attr.toBGPPathAttrBase (uint32Bytes attr.value)
  | localPref attr => encodeStored attr.toBGPPathAttrBase (uint32Bytes attr.value)
  | atomicAggregate base => base.encode
  | aggregator attr => encodeAggregator attr.toBGPPathAttrBase attr.aggAS attr.ip
  | originatorId attr => encodeCopied attr.toBGPPathAttrBase attr.value
  | clusterList attr => attr.encode
  | mpReachNLRI attr => attr.encode
  | mpUnreachNLRI attr => attr.encode
  | as4Path attr => do
    return (← encodeSegments (← attr.toBGPPathAttrBase.encode) attr.bgpPathAttrLen
      (attr.value.map .as4)).1
  | as4Aggregator attr => encodeAggregator attr.toBGPPathAttrBase (.as4 attr.aggAS) attr.ip
  | unknown attr => encodeCopied attr.toBGPPathAttrBase attr.value

/-- The encodings of a list, one behind the other. -/
def encodeAll {α : Type} (encode : α → Call Bytes) (items : List α) : Call Bytes :=
  items.foldlM (fun pkt item => do return pkt ++ (← encode item)) []

def BGPUpdate.encode (msg : BGPUpdate) : Call Bytes := do
  let withdrawn ← encodeAll (fun route : NLRI => route.encode afiIP) msg.withdrawnRoutes
  let attributes ← encodeAll BGPPathAttr.encode msg.pathAttributes
  let nlri ← encodeAll (fun nlri : NLRI => nlri.encode afiIP) msg.nlri
  return uint16Bytes (UInt16.ofNat withdrawn.length) ++ withdrawn ++
    uint16Bytes (UInt16.ofNat attributes.length) ++ attributes ++ nlri

/-- A header and a body of some type. -/
structure BGPMessage (β : Type) where
  header : BGPHeader
  body : β
deriving DecidableEq, Repr

/-- A message whose header does not say how long it is gets the length of what was written. -/
def BGPMessage.encode {β : Type} (encodeBody : β → Call Bytes) (msg : BGPMessage β) :
    Call Bytes := do
  let body ← encodeBody msg.body
  if msg.header.length = 0 then
    if bgpMsgHeaderLen + body.length > bgpMsgMaxLen.toNat then
      .error ⟨0, 0, [], "BGP message is " ++ toString (bgpMsgHeaderLen + body.length) ++
        " bytes long"⟩
    else
      let header := { msg.header with length := 19 + UInt16.ofNat body.length }
      return header.encode ++ body
  else return msg.header.encode ++ body

/-- The message around the body that `NewBGPUpdateMessage` makes. -/
def updateMessage (body : BGPUpdate) : BGPMessage BGPUpdate := ⟨⟨0, bgpMsgTypeUpdate⟩, body⟩

end FlexSwitch.Packet
