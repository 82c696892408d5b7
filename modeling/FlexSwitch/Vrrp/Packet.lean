import FlexSwitch.Rib.Path

/-! VRRP packets: how they are written, read and checked, and which ones crash the reader. -/

namespace FlexSwitch.Vrrp

open Go List Outcome
open Rib (PrefixText ipString to4)

structure VrrpPktHeader where
  version : UInt8
  type : UInt8
  virtualRtrId : UInt8
  priority : UInt8
  countIPv4Addr : UInt8
  rsvd : UInt8
  maxAdverInt : UInt16
  checkSum : UInt16
  ipv4Addr : List Bytes
deriving DecidableEq, Repr

/-- The errors of `VrrpCheckHeader`. -/
inductive VrrpError where
  | incorrectVersion
  | checksumErr
  | incorrectFields
  | sameOwner
  | missingVridConfig
deriving DecidableEq, Repr

abbrev Call := Outcome VrrpError

/--
A slice of a packet, and what is behind it in the packet.

An index is checked against the length of a slice, the bounds of a part against its capacity.
-/
structure Payload where
  data : Bytes
  spare : Bytes

/-- `binary.BigEndian.Uint16(payload[low:low+2])`. -/
def Payload.uint16At (payload : Payload) (low : Nat) : Call UInt16 :=
  slice (payload.data ++ payload.spare) low (low + 2) >>= uint16

def vrrpDecodeHeader (payload : Payload) : Call VrrpPktHeader := do
  let first ← index payload.data 0
  let virtualRtrId ← index payload.data 1
  let priority ← index payload.data 2
  let countIPv4Addr ← index payload.data 3
  let rsvdAdver ← payload.uint16At 4
  let checkSum ← payload.uint16At 6
  let ipv4Addr ← (List.range countIPv4Addr.toNat).mapM fun i =>
    slice (payload.data ++ payload.spare) (8 + 4 * i) (8 + 4 * i + 4)
  return {
    version := first >>> 4, type := first &&& 0x0f, virtualRtrId, priority, countIPv4Addr,
    rsvd := (rsvdAdver >>> 13).toUInt8, maxAdverInt := rsvdAdver &&& 0x1fff, checkSum, ipv4Addr }

/-- The sum of `VrrpComputeChecksum`, which takes two bytes at a time. -/
def checksumLoop : UInt32 → Bytes → Call UInt32
  | csum, [] => .ok csum
  | _, [_] => .panic
  | csum, high :: low :: content => checksumLoop (csum + high.toUInt32 <<< 8 + low.toUInt32) content

def vrrpComputeChecksum (version : UInt8) (content : Bytes) : Call UInt16 :=
  if version = 2 then do
    let csum ← checksumLoop 0 content
    return ~~~(csum >>> 16 + csum).toUInt16
  else .ok 0

/-- What the checks read of the configuration of a virtual router. -/
structure VrrpIntf where
  vrid : Int32
  priority : Int32
  virtualIPv4Addr : Option PrefixText
  preemptMode : Bool
  advertisementInterval : Int32
deriving DecidableEq, Repr

/-- The loop of `VrrpCheckHeader` that looks for the address of the interface. -/
def checkOwner (ipAddr : PrefixText) : Nat → List Bytes → Call Unit
  | 0, _ => .ok ()
  | _ + 1, [] => .panic
  | count + 1, ip :: ips =>
    if ipAddr = .address (ipString ip) then .error .sameOwner else checkOwner ipAddr count ips

def vrrpCheckHeader (hdr : VrrpPktHeader) (payload : Payload) (intfConfig : VrrpIntf)
    (ipAddr : PrefixText) : Call Unit := do
  if hdr.version ≠ 2 ∧ hdr.version ≠ 3 then .error .incorrectVersion else
  let cleared ← storeAt (payload.data ++ payload.spare) 6 [0, 0]
  let chksum ← vrrpComputeChecksum hdr.version (cleared.take payload.data.length)
  if chksum ≠ hdr.checkSum then .error .checksumErr else
  if hdr.countIPv4Addr = 0 ∨ hdr.maxAdverInt = 0 ∨ hdr.type = 0 then .error .incorrectFields else
  if intfConfig.virtualIPv4Addr = none then
    checkOwner ipAddr hdr.countIPv4Addr.toNat hdr.ipv4Addr
  if intfConfig.vrid = 0 then .error .missingVridConfig else .ok ()

/-- The part of `VrrpCheckRcvdPkt` that looks into the payload. -/
def vrrpCheckPayload (payload : Payload) (intfConfig : VrrpIntf) (ipAddr : PrefixText) :
    Call VrrpPktHeader := do
  let vrrpHeader ← vrrpDecodeHeader payload
  vrrpCheckHeader vrrpHeader payload intfConfig ipAddr
  return vrrpHeader

/-- `VrrpEncodeHeader`, whose length is counted in eight bits. -/
def vrrpEncodeHeader (hdr : VrrpPktHeader) : Call Bytes := do
  let pktLen := max 20 (8 + hdr.countIPv4Addr * 4)
  let bytes := [hdr.version <<< 4 ||| hdr.type, hdr.virtualRtrId, hdr.priority, hdr.countIPv4Addr] ++
    uint16Bytes (hdr.rsvd.toUInt16 <<< 13 ||| hdr.maxAdverInt) ++ uint16Bytes hdr.checkSum ++
    zeros (pktLen.toNat - 8)
  let bytes ← (List.range hdr.countIPv4Addr.toNat).foldlM (fun bytes i =>
    match hdr.ipv4Addr[i]? with
    | some ip => do
      let room ← slice bytes (8 + 4 * i) (8 + 4 * i + 4)
      let room ← copyAt room 0 (to4 ip)
      storeAt bytes (8 + 4 * i) room
    | none => .panic) bytes
  let checkSum ← vrrpComputeChecksum hdr.version bytes
  storeAt bytes 6 (uint16Bytes checkSum)

variable {payload : Payload} {hdr : VrrpPktHeader}

/--
The payloads that are read and checked inside their bounds.

The addresses that the fourth byte counts are in the packet, and a version 2 payload consists of
pairs of bytes.
-/
structure Harmless (payload : Payload) : Prop where
  fixed : 4 ≤ payload.data.length
  addresses : 8 + 4 * payload.data[3].toNat ≤ payload.data.length + payload.spare.length
  pairs : payload.data[0] >>> 4 = 2 → Even payload.data.length

/-- Addresses are taken one behind the other, if all of them are inside. -/
theorem addresses_eq (bytes : Bytes) (count : Nat) (fixed : 8 ≤ bytes.length) :
    ((List.range count).mapM fun i => slice bytes (8 + 4 * i) (8 + 4 * i + 4) : Call (List Bytes)) =
      if 8 + 4 * count ≤ bytes.length then
        .ok ((List.range count).map fun i => (bytes.drop (8 + 4 * i)).take 4)
      else .panic := by
  induction count with
  | zero => simp [fixed]
  | succ count ih =>
    rw [range_succ, mapM_append, ih]
    by_cases more : 8 + 4 * (count + 1) ≤ bytes.length
    · have slice : slice bytes (8 + 4 * count) (8 + 4 * count + 4) =
          (.ok ((bytes.drop (8 + 4 * count)).take 4) : Call Bytes) := by
        rw [slice_of_le (by omega) (by omega), Nat.add_sub_cancel_left]
      simp [slice, more, show 8 + 4 * count ≤ bytes.length by omega]
    · have slice : slice bytes (8 + 4 * count) (8 + 4 * count + 4) = (.panic : Call Bytes) := by
        rw [Go.slice, if_neg (by omega)]
      by_cases inside : 8 + 4 * count ≤ bytes.length <;> simp [slice, more, inside]

/-- Two bytes are read when the capacity goes beyond them. -/
theorem uint16At_of_le {low : Nat}
    (inside : low + 2 ≤ payload.data.length + payload.spare.length) :
    ∃ value, payload.uint16At low = .ok value := by
  have two : (((payload.data ++ payload.spare).drop low).take 2).length = 2 := by
    simp
    omega
  obtain ⟨high, last, taken⟩ := length_eq_two.mp two
  simp [Payload.uint16At, slice, inside, taken, uint16]

theorem uint16At_of_lt {low : Nat}
    (outside : payload.data.length + payload.spare.length < low + 2) :
    payload.uint16At low = .panic := by
  simp [Payload.uint16At, slice, not_le.mpr outside]

/-- Pairs of bytes are summed up to the end, where an odd one is missing its second half. -/
theorem checksumLoop_returns (csum : UInt32) (content : Bytes) :
    (checksumLoop csum content).Returns ↔ Even content.length := by
  induction csum, content using checksumLoop.induct with
  | case1 | case2 => simp [checksumLoop]
  | case3 csum high low content ih =>
    rw [checksumLoop, ih]
    simp [Nat.even_add_one]

theorem checkOwner_returns (ipAddr : PrefixText) {count : Nat} {ips : List Bytes}
    (read : count ≤ ips.length) : (checkOwner ipAddr count ips).Returns := by
  induction ips generalizing count with
  | nil =>
    cases Nat.le_zero.mp read
    trivial
  | cons ip ips ih =>
    cases count with
    | zero => trivial
    | succ count => simpa [checkOwner] using fun _ => ih (Nat.le_of_succ_le_succ read)

/-- A header whose addresses were all read is checked without a panic, up to the checksum. -/
theorem vrrpCheckHeader_returns {intfConfig : VrrpIntf} {ipAddr : PrefixText}
    (fixed : 8 ≤ payload.data.length + payload.spare.length)
    (read : hdr.countIPv4Addr.toNat ≤ hdr.ipv4Addr.length) :
    (vrrpCheckHeader hdr payload intfConfig ipAddr).Returns ↔
      (hdr.version = 2 → Even payload.data.length) := by
  unfold vrrpCheckHeader
  by_cases known : hdr.version ≠ 2 ∧ hdr.version ≠ 3
  · simp [known]
  rw [if_neg known, storeAt, if_pos (by simpa using fixed), ok_bind, bind_returns]
  refine (and_iff_left fun chksum _ => ?_).trans ?_
  · -- What comes behind the checksum ends with an error or without one.
    have owner := checkOwner_returns ipAddr read
    rw [ite_error_returns, ite_error_returns]
    intro _ _
    by_cases unset : intfConfig.virtualIPv4Addr = none <;> simp [unset, bind_returns, owner]
  · unfold vrrpComputeChecksum
    by_cases two : hdr.version = 2
    · have same : ∀ cleared : Bytes, cleared.length = payload.data.length + payload.spare.length →
          (cleared.take payload.data.length).length = payload.data.length := by
        intro cleared whole
        rw [length_take]
        omega
      simp only [two, if_true, bind_returns, checksumLoop_returns]
      rw [same _ (by simp; omega)]
      simp
    · simp [two]

/-- A payload is read and checked without leaving its bounds exactly when it is harmless. -/
theorem vrrpCheckPayload_returns_iff (payload : Payload) (intfConfig : VrrpIntf)
    (ipAddr : PrefixText) :
    (vrrpCheckPayload payload intfConfig ipAddr).Returns ↔ Harmless payload := by
  obtain ⟨data, spare⟩ := payload
  rcases data with _ | ⟨first, _ | ⟨id, _ | ⟨priority, _ | ⟨count, rest⟩⟩⟩⟩
  -- One of the first four bytes is not there.
  iterate 4
    exact iff_of_false (by simp [vrrpCheckPayload, vrrpDecodeHeader, index])
      fun harmless => absurd harmless.fixed (by simp)
  let payload : Payload := ⟨first :: id :: priority :: count :: rest, spare⟩
  have addresses := addresses_eq (payload.data ++ payload.spare) count.toNat
  rw [vrrpCheckPayload, vrrpDecodeHeader]
  simp only [index, getElem?_cons_zero, getElem?_cons_succ, ok_bind]
  by_cases inside : 8 + 4 * count.toNat ≤ payload.data.length + payload.spare.length
  · obtain ⟨rsvdAdver, read⟩ := @uint16At_of_le payload 4 (by omega)
    obtain ⟨checkSum, read'⟩ := @uint16At_of_le payload 6 (by omega)
    rw [length_append, if_pos inside] at addresses
    rw [read, read', addresses (by omega)]
    simp only [ok_bind, pure_eq]
    have checked {hdr} := @vrrpCheckHeader_returns payload hdr intfConfig ipAddr (by omega)
    rw [bind_returns, checked (by simp)]
    refine ⟨?_, fun harmless => ⟨harmless.pairs, by simp⟩⟩
    rintro ⟨pairs, _⟩
    exact ⟨by simp, inside, pairs⟩
  · refine iff_of_false (fun returned => ?_) fun harmless => inside harmless.addresses
    -- The two numbers or the addresses go beyond the packet.
    rcases lt_or_ge (payload.data.length + payload.spare.length) 6 with short | four
    · rw [uint16At_of_lt short] at returned
      exact returned
    obtain ⟨_, read⟩ := uint16At_of_le four
    rw [read] at returned
    rcases lt_or_ge (payload.data.length + payload.spare.length) 8 with short | six
    · rw [uint16At_of_lt short] at returned
      exact returned
    obtain ⟨_, read'⟩ := uint16At_of_le six
    rw [length_append, if_neg inside] at addresses
    rw [read', ok_bind, ok_bind, addresses six] at returned
    exact returned

/-- One byte is not enough. -/
theorem vrrpCheckPayload_short :
    vrrpCheckPayload ⟨[0x21], []⟩ ⟨1, 100, none, true, 1⟩ (.cidr [10, 0, 0, 1] 24) = .panic := by
  decide

end FlexSwitch.Vrrp
