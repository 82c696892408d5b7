import FlexSwitch.Go.Loop
import FlexSwitch.Packet.Message

/-! Prefixes in UPDATE messages: their sizes, their encoding, and the loop that reads a run of them. -/

namespace FlexSwitch.Packet

open Go

/-- An address prefix, as many bytes long as its family's addresses. -/
structure IPPrefix where
  length : UInt8
  prefixIP : Bytes
deriving DecidableEq, Repr

/-- A prefix with the path identifier of an add-path session. -/
structure ExtNLRI where
  ipPrefix : IPPrefix
  pathId : UInt32
deriving DecidableEq, Repr

/-- The two shapes a prefix has on the wire. -/
inductive NLRI where
  | ip (ipPrefix : IPPrefix)
  | ext (nlri : ExtNLRI)
deriving DecidableEq, Repr

variable (pkt : Bytes) (afi : UInt16)

/-- `AFINextHopLenMap`. -/
def afiNextHopLenMap : Option Nat :=
  if afi = afiIP then some 4 else if afi = afiIP6 then some 16 else none

/-- The prefix bytes an encoding carries, in the source's eight-bit arithmetic. -/
def IPPrefix.bytes (ip : IPPrefix) : UInt8 := (ip.length + 7) / 8

def IPPrefix.len (ip : IPPrefix) : UInt32 := (ip.bytes + 1).toUInt32

def ExtNLRI.len (nlri : ExtNLRI) : UInt32 := nlri.ipPrefix.len + 4

def NLRI.len : NLRI → UInt32
  | .ip plain => plain.len
  | .ext nlri => nlri.len

/-- The prefix with the memory behind the end of its address, up to the capacity. -/
def NLRI.upToCapacity (spare : Bytes) : NLRI → NLRI
  | .ip plain => .ip ⟨plain.length, plain.prefixIP ++ spare⟩
  | .ext nlri => .ext { nlri with
      ipPrefix := ⟨nlri.ipPrefix.length, nlri.ipPrefix.prefixIP ++ spare⟩ }

def NLRI.getIPPrefix : NLRI → IPPrefix
  | .ip plain => plain
  | .ext nlri => nlri.ipPrefix

/--
The encoding of a prefix, whose bytes are taken by the capacity of the address and not its length.

The address is given up to its capacity here, as the slice may reach behind its end.
-/
def IPPrefix.encode (ip : IPPrefix) (afi : UInt16) : Call Bytes := do
  let pkt ← storeAt (zeros ip.len.toNat) 0 [ip.length]
  let ipLen : Nat := if afi = afiIP6 then 16 else 4
  -- `cap` less the length, an `int` cut down to eight bits, so a short address wraps around.
  let ipBytesStart : UInt8 := UInt8.ofInt ((ip.prefixIP.length : Int) - ipLen)
  let used ← slice ip.prefixIP ipBytesStart.toNat (ipBytesStart + ip.bytes).toNat
  copyAt pkt 1 used

def ExtNLRI.encode (nlri : ExtNLRI) (afi : UInt16) : Call Bytes := do
  let ipBytes ← nlri.ipPrefix.encode afi
  return uint32Bytes nlri.pathId ++ ipBytes

def NLRI.encode (nlri : NLRI) (afi : UInt16) : Call Bytes :=
  match nlri with
  | .ip plain => plain.encode afi
  | .ext extended => extended.encode afi

/-- Clear the bits of the last prefix byte that lie past the prefix length. -/
def maskLast (length bytes : UInt8) (address : Bytes) : Call Bytes :=
  if bytes > 0 ∧ length % 8 > 0 then do
    let last := (bytes - 1).toNat
    let byte ← index address last
    storeAt address last [byte &&& ~~~((0xff : UInt8) >>> (length % 8))]
  else .ok address

def IPPrefix.decode : Call IPPrefix := do
  if pkt.length < 1 then
    .error ⟨bgpUpdateMsgError, bgpInvalidNetworkField, [], "NLRI does not contain prefix lenght"⟩
  let length ← index pkt 0
  match afiNextHopLenMap afi with
  | some expected =>
    if length > UInt8.ofNat expected * 8 then
      .error ⟨bgpUpdateMsgError, bgpInvalidNetworkField, [],
        "Prefix length is greater than expected length:" ++ toString (expected * 8) ++
          " lenght:" ++ toString length.toNat⟩
  | none => pure ()
  let bytes := (length + 7) / 8
  if pkt.length < bytes.toNat + 1 then
    .error ⟨bgpUpdateMsgError, bgpInvalidNetworkField, [], "Prefix length invalid"⟩
  let ipLen : Nat := if afi = afiIP6 ∨ bytes.toNat > 4 then 16 else 4
  let used ← slice pkt 1 (bytes + 1).toNat
  let address ← copyAt (zeros ipLen) 0 used
  let address ← maskLast length bytes address
  return ⟨length, address⟩

def ExtNLRI.decode : Call ExtNLRI := do
  if pkt.length < 5 then
    .error ⟨bgpUpdateMsgError, bgpInvalidNetworkField, [],
      "NLRI does not contain path id or prefix lenght"⟩
  let pathId ← uint32 (← slice pkt 0 4)
  let ipPrefix ← IPPrefix.decode (← sliceFrom pkt 4) afi
  return ⟨ipPrefix, pathId⟩

/-- Read one prefix in the shape the session uses. -/
def NLRI.decode (addPaths : Bool) (pkt : Bytes) (afi : UInt16) : Call NLRI :=
  if addPaths then do return .ext (← ExtNLRI.decode pkt afi)
  else do return .ip (← IPPrefix.decode pkt afi)

/-- Where the prefix loop stands: the cursor and the prefixes read so far. -/
structure NLRICursor where
  ptr : UInt32
  ipPrefix : List NLRI
deriving DecidableEq, Repr

/-- One round of the loop in `decodeNLRI`. -/
def nlriRound (length : UInt32) (afi : UInt16) (peerAttrs : BGPPeerAttrs) (cursor : NLRICursor) :
    Call (Round NLRICursor (List NLRI × UInt32)) :=
  if cursor.ptr < length then do
    let ip ← NLRI.decode peerAttrs.addPathsRxActual (← sliceFrom pkt cursor.ptr.toNat) afi
    return .next ⟨cursor.ptr + ip.len, cursor.ipPrefix ++ [ip]⟩
  else if cursor.ptr ≠ length then
    .error ⟨bgpUpdateMsgError, bgpAttrLenError, pkt, "Bad Attribute Length"⟩
  else return .stop (cursor.ipPrefix, cursor.ptr)

/-- Read prefixes until they fill the given length. -/
def decodeNLRI (fuel : Nat) (pkt : Bytes) (length : UInt32) (afi : UInt16)
    (peerAttrs : BGPPeerAttrs) : Call (List NLRI × UInt32) :=
  if length > UInt32.ofNat pkt.length then
    .error ⟨bgpUpdateMsgError, bgpMalformedAttrList, [], "Malformed Attributes"⟩
  else loop (nlriRound pkt length afi peerAttrs) fuel ⟨0, []⟩

end FlexSwitch.Packet
