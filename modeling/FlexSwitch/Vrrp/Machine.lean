import FlexSwitch.NetUtils
import FlexSwitch.Vrrp.Packet

/-! The state machine of a virtual router: who stays backup, and which of two masters steps down. -/

namespace FlexSwitch.Vrrp

open Go List Outcome
open Rib (PrefixText ipString to4 to4_cases)

inductive VrrpState where
  | unintializeState
  | initializeState
  | backupState
  | masterState
deriving DecidableEq, Repr

/-- A virtual router, with the times in nanoseconds at which its timers run out. -/
structure VrrpGlobalInfo where
  intfConfig : VrrpIntf
  ipAddr : PrefixText
  stateName : VrrpState
  skewTime : Int32
  masterDownValue : Int32
  masterAdverInterval : Int32
  masterDownTimer : Option Int
  adverTimer : Option Int
  subIntf : Bool
  sent : Nat
deriving DecidableEq, Repr

/-- The configured priority as a number. -/
abbrev VrrpGlobalInfo.priority (gblInfo : VrrpGlobalInfo) : Int := gblInfo.intfConfig.priority.toInt

/-- A packet that was received, with its header as it was decoded. -/
structure Packet where
  hdr : VrrpPktHeader
  dstMAC : String
  dstIP : Bytes
  srcIP : Bytes

def virtualRouterMACAddress (vrid : Int32) : String :=
  "00-00-5E-00-01-" ++ if vrid < 10 then "0" ++ toString vrid.toInt else toString vrid.toInt

/-- `net.ParseIP`, which takes no text with a prefix length, and gives no address then. -/
def parseIP : PrefixText → Bytes
  | .cidr _ _ => []
  | .address text => (NetUtils.parseIP text).getD []

/-- The address of `net.ParseCIDR`. -/
def parseCIDR : PrefixText → Bytes
  | .cidr text _ => (NetUtils.parseIP text).getD []
  | .address _ => []

section States

variable (now : Int)

variable (gblInfo : VrrpGlobalInfo)

def vrrpHandleMasterAdverTimer : VrrpGlobalInfo :=
  { gblInfo with
    adverTimer := some (now + gblInfo.intfConfig.advertisementInterval.toInt * 10 ^ 9)
    stateName := .masterState }

def vrrpTransitionToMaster : VrrpGlobalInfo :=
  vrrpHandleMasterAdverTimer now { gblInfo with sent := gblInfo.sent + 1, subIntf := true }

/-- The timer is made or reset. -/
def vrrpHandleMasterDownTimer : VrrpGlobalInfo :=
  { gblInfo with
    masterDownTimer := some (now + gblInfo.masterDownValue.toInt * 10 ^ 9)
    stateName := .backupState }

def vrrpCalculateDownValue (interval : Int32) (gblInfo : VrrpGlobalInfo) : VrrpGlobalInfo :=
  let skewTime := if gblInfo.intfConfig.priority ≠ 0 ∧ interval ≠ 0 then
    (256 - gblInfo.intfConfig.priority) * interval / 256 else gblInfo.skewTime
  { gblInfo with
    masterAdverInterval := interval, skewTime, masterDownValue := 3 * interval + skewTime }

def vrrpTransitionToBackup (interval : Int32) (gblInfo : VrrpGlobalInfo) : VrrpGlobalInfo :=
  vrrpHandleMasterDownTimer now (vrrpCalculateDownValue interval { gblInfo with subIntf := false })

def vrrpInitState : VrrpGlobalInfo :=
  if gblInfo.intfConfig.priority = 255 then vrrpTransitionToMaster now gblInfo
  else vrrpTransitionToBackup now gblInfo.intfConfig.advertisementInterval gblInfo

def vrrpBackupState (pkt : Packet) (gblInfo : VrrpGlobalInfo) : VrrpGlobalInfo :=
  let priority := gblInfo.intfConfig.priority.toUInt32.toUInt8
  if pkt.dstMAC = virtualRouterMACAddress gblInfo.intfConfig.vrid then gblInfo
  else if .address (ipString pkt.dstIP) = gblInfo.ipAddr then gblInfo
  else if pkt.hdr.type ≠ 1 then gblInfo
  else if pkt.hdr.priority = 0 then
    vrrpHandleMasterDownTimer now { gblInfo with masterDownValue := gblInfo.skewTime }
  else if gblInfo.intfConfig.preemptMode = false then
    if priority ≤ pkt.hdr.priority then
      vrrpHandleMasterDownTimer now
        (vrrpCalculateDownValue pkt.hdr.maxAdverInt.toUInt32.toInt32 gblInfo)
    else gblInfo
  -- The timer is not armed again here.
  else if priority ≤ pkt.hdr.priority then gblInfo
  else vrrpTransitionToMaster now gblInfo

def vrrpMasterState (pkt : Packet) (gblInfo : VrrpGlobalInfo) : VrrpGlobalInfo :=
  if pkt.hdr.priority = 0 then
    vrrpHandleMasterAdverTimer now { gblInfo with sent := gblInfo.sent + 1 }
  else if gblInfo.priority < pkt.hdr.priority.toNat ∨
      pkt.hdr.priority.toNat = gblInfo.priority ∧ parseIP gblInfo.ipAddr < pkt.srcIP then
    vrrpTransitionToBackup now pkt.hdr.maxAdverInt.toUInt32.toInt32
      { gblInfo with adverTimer := none }
  else gblInfo

def vrrpFsmStart (pkt : Packet) (gblInfo : VrrpGlobalInfo) : VrrpGlobalInfo :=
  match gblInfo.stateName with
  | .initializeState => vrrpInitState now gblInfo
  | .backupState => vrrpBackupState now pkt gblInfo
  | .masterState => vrrpMasterState now pkt gblInfo
  | .unintializeState => gblInfo

/-- A packet comes in; a timer that ran out until then was handled first. -/
def receive (pkt : Packet) (gblInfo : VrrpGlobalInfo) : VrrpGlobalInfo :=
  vrrpFsmStart now pkt <| match gblInfo.masterDownTimer with
    | none => gblInfo
    | some deadline => if now < deadline then gblInfo
      else vrrpTransitionToMaster deadline { gblInfo with masterDownTimer := none }

end States

def vrrpCreateVrrpHeader (gblInfo : VrrpGlobalInfo) : Call Bytes :=
  let ip := match gblInfo.intfConfig.virtualIPv4Addr with
    | none => parseCIDR gblInfo.ipAddr
    | some text => parseIP text
  vrrpEncodeHeader {
    version := 2, type := 1, countIPv4Addr := 1, rsvd := 0, checkSum := 0, ipv4Addr := [ip]
    virtualRtrId := gblInfo.intfConfig.vrid.toUInt32.toUInt8
    priority := gblInfo.intfConfig.priority.toUInt32.toUInt8
    maxAdverInt := gblInfo.intfConfig.advertisementInterval.toUInt32.toUInt16 }

/-- An advertisement on its way, with what a receiver looks at in the headers around it. -/
structure Frame where
  dstMAC : String
  dstIP : Bytes
  srcIP : Bytes
  ttl : UInt8
  payload : Bytes
deriving DecidableEq, Repr

def vrrpCreateSendPkt (gblInfo : VrrpGlobalInfo) : Call Frame := do
  let vrrpEncHdr ← vrrpCreateVrrpHeader gblInfo
  return ⟨"01:00:5e:00:00:12", [224, 0, 0, 18], to4 (parseCIDR gblInfo.ipAddr), 255, vrrpEncHdr⟩

/-- What goes on to the state machine; a packet whose check fails is logged and dropped. -/
def vrrpCheckRcvdPkt (frame : Frame) (gblInfo : VrrpGlobalInfo) : Call (Option Packet) :=
  if gblInfo.stateName = .initializeState ∨ frame.ttl ≠ 255 then .ok none
  else match vrrpCheckPayload ⟨frame.payload, []⟩ gblInfo.intfConfig gblInfo.ipAddr with
    | .ok vrrpHeader => .ok (some ⟨vrrpHeader, frame.dstMAC, frame.dstIP, frame.srcIP⟩)
    | .error _ => .ok none
    | .panic => .panic
    | .hang => .hang

/-- A router with a priority of eight bits and an address of four bytes, in CIDR form. -/
structure Configured (address : Bytes) (gblInfo : VrrpGlobalInfo) : Prop where
  low : 1 ≤ gblInfo.priority
  high : gblInfo.priority ≤ 255
  cidr : ∃ length, gblInfo.ipAddr = .cidr address length
  four : address.length = 4

variable {gblInfo : VrrpGlobalInfo} {pkt : Packet} {address : Bytes} {now deadline : Int}

theorem Configured.priority_toNat (configured : Configured address gblInfo) :
    (gblInfo.intfConfig.priority.toUInt32.toUInt8.toNat : Int) = gblInfo.priority := by
  obtain ⟨low, high, _, _⟩ := configured
  rw [VrrpGlobalInfo.priority, Int32.toInt, BitVec.toInt] at *
  have bits : gblInfo.intfConfig.priority.toUInt32.toNat =
      gblInfo.intfConfig.priority.toBitVec.toNat := rfl
  rw [UInt32.toNat_toUInt8, bits]
  omega

section Backup

/-- An advertisement to all routers, with an interval that passes the check. -/
structure Valid (pkt : Packet) : Prop where
  type : pkt.hdr.type = 1
  mac : pkt.dstMAC = "01:00:5e:00:00:12"
  group : pkt.dstIP = [224, 0, 0, 18]
  interval : pkt.hdr.maxAdverInt ≠ 0

/-- A backup whose timer runs. -/
structure BackupUntil (deadline : Int) (gblInfo : VrrpGlobalInfo) : Prop where
  state : gblInfo.stateName = .backupState
  timer : gblInfo.masterDownTimer = some deadline

/-- An advertisement of one second. -/
def advertisement (priority : UInt8) : Packet :=
  ⟨⟨2, 1, 1, priority, 1, 0, 1, 0, []⟩, "01:00:5e:00:00:12", [224, 0, 0, 18], [10, 0, 0, 9]⟩

theorem advertisement_valid (priority : UInt8) : Valid (advertisement priority) :=
  ⟨rfl, rfl, rfl, nofun⟩

/-- `Master_Down_Interval`, in nanoseconds, for the interval that the master announces. -/
def masterDownInterval (gblInfo : VrrpGlobalInfo) (pkt : Packet) : Int :=
  let interval := pkt.hdr.maxAdverInt.toUInt32.toInt32
  (3 * interval + (256 - gblInfo.intfConfig.priority) * interval / 256).toInt * 10 ^ 9

/-- As long as advertisements come in time, each arms the timer again and the router stays backup. -/
def StaysBackup : Int → VrrpGlobalInfo → List (Int × Packet) → Prop
  | _, _, [] => True
  | deadline, gblInfo, (now, pkt) :: later => now < deadline →
    BackupUntil (now + masterDownInterval gblInfo pkt) (receive now pkt gblInfo) ∧
      StaysBackup (now + masterDownInterval gblInfo pkt) (receive now pkt gblInfo) later

theorem protocolMAC_ne (vrid : Int32) : "01:00:5e:00:00:12" ≠ virtualRouterMACAddress vrid := by
  intro same
  have chars := congrArg String.toList same
  rw [virtualRouterMACAddress, String.toList_append] at chars
  simp at chars

variable (configured : Configured address gblInfo) (backup : BackupUntil deadline gblInfo)
  (valid : Valid pkt) (early : now < deadline)

include configured backup valid early

/-- What a backup makes of an advertisement that comes in time. -/
theorem receive_backup (positive : 0 < pkt.hdr.priority) : receive now pkt gblInfo =
      if gblInfo.intfConfig.preemptMode = false then
        if gblInfo.priority ≤ pkt.hdr.priority.toNat then
          vrrpHandleMasterDownTimer now
            (vrrpCalculateDownValue pkt.hdr.maxAdverInt.toUInt32.toInt32 gblInfo)
        else gblInfo
      else if gblInfo.priority ≤ pkt.hdr.priority.toNat then gblInfo
      else vrrpTransitionToMaster now gblInfo := by
  obtain ⟨length, cidr⟩ := configured.cidr
  have same : gblInfo.intfConfig.priority.toUInt32.toUInt8 ≤ pkt.hdr.priority ↔
      gblInfo.priority ≤ pkt.hdr.priority.toNat := by
    rw [UInt8.le_iff_toNat_le, ← configured.priority_toNat, Int.ofNat_le]
  simp only [receive, backup.timer, if_pos early, vrrpFsmStart, backup.state]
  rw [vrrpBackupState, valid.mac, if_neg (protocolMAC_ne _), cidr, if_neg nofun,
    if_neg (not_not.mpr valid.type), if_neg (UInt8.pos_iff_ne_zero.mp positive)]
  simp only [same]

/-- Without preemption the timer is armed again by a master that is not below the router. -/
theorem receive_rearms (plain : gblInfo.intfConfig.preemptMode = false)
    (above : gblInfo.priority ≤ pkt.hdr.priority.toNat) :
    BackupUntil (now + masterDownInterval gblInfo pkt) (receive now pkt gblInfo) ∧
      (receive now pkt gblInfo).intfConfig = gblInfo.intfConfig ∧
      Configured address (receive now pkt gblInfo) := by
  have low := configured.low
  have positive : 0 < pkt.hdr.priority := by
    rw [UInt8.lt_iff_toNat_lt]
    simp only [UInt8.reduceToNat]
    omega
  have ranked : gblInfo.intfConfig.priority ≠ 0 := by
    intro zero
    rw [VrrpGlobalInfo.priority, zero] at low
    exact absurd low (by decide)
  have interval : pkt.hdr.maxAdverInt.toUInt32.toInt32 ≠ 0 := fun zero =>
    valid.interval (UInt16.toUInt32_inj.mp (congrArg Int32.toUInt32 zero))
  rw [receive_backup configured backup valid early positive, if_pos plain, if_pos above]
  refine ⟨⟨rfl, ?_⟩, rfl, configured.low, configured.high, configured.cidr, configured.four⟩
  simp [vrrpHandleMasterDownTimer, vrrpCalculateDownValue, masterDownInterval, ranked, interval]

omit valid early

/--
A backup that hears its master in time stays backup, and does not take over from a lower router
before its timer runs out, exactly when it does not preempt.
-/
theorem hears_master_stays_backup_iff :
    ((∀ heard : List (Int × Packet), (∀ one ∈ heard, Valid one.2 ∧
          gblInfo.priority ≤ one.2.hdr.priority.toNat) →
        StaysBackup deadline gblInfo heard) ∧
      ∀ now pkt, Valid pkt → 0 < pkt.hdr.priority →
        pkt.hdr.priority.toNat < gblInfo.priority → now < deadline →
        (receive now pkt gblInfo).stateName = .backupState) ↔
      gblInfo.intfConfig.preemptMode = false := by
  constructor
  · rintro ⟨stays, _⟩
    -- A preempting router takes no note of the highest priority, so its timer stays as it was.
    have valid := advertisement_valid 255
    have early : deadline - 1 < deadline := by omega
    have above : gblInfo.priority ≤ (advertisement 255).hdr.priority.toNat :=
      configured.high
    have rearmed := (stays [(deadline - 1, advertisement 255)] (by simpa using ⟨valid, above⟩)
      early).1.timer
    by_contra preempts
    rw [receive_backup configured backup valid early (by decide), if_neg preempts, if_pos above,
      backup.timer, Option.some.injEq, masterDownInterval] at rearmed
    omega
  · intro plain
    refine ⟨fun heard master => ?_, fun now pkt valid positive below early => ?_⟩
    · induction heard generalizing gblInfo deadline with
      | nil => trivial
      | cons one later ih =>
        intro early
        obtain ⟨⟨valid, above⟩, masters⟩ := forall_mem_cons.mp master
        obtain ⟨again, same, still⟩ := receive_rearms configured backup valid early plain above
        refine ⟨again, ih still again (same ▸ plain) ?_⟩
        rwa [VrrpGlobalInfo.priority, same]
    · rw [receive_backup configured backup valid early positive, if_pos plain,
        if_neg (Int.not_le.mpr below)]
      exact backup.state

omit configured backup

/-- A router whose timer runs out after three seconds. -/
def plainRouter (stateName : VrrpState) (priority : Int32) (preemptMode : Bool) (last : UInt8) :
    VrrpGlobalInfo :=
  ⟨⟨1, priority, none, preemptMode, 1⟩, .cidr [10, 0, 0, last] 24, stateName, 0, 3, 1,
    some (3 * 10 ^ 9), none, false, 0⟩

/-- A master is heard after two seconds and after four. -/
theorem stays_backup_plain : StaysBackup (3 * 10 ^ 9) (plainRouter .backupState 100 false 1)
    [(2 * 10 ^ 9, advertisement 200), (4 * 10 ^ 9, advertisement 200)] := by
  have configured : Configured [10, 0, 0, 1] (plainRouter .backupState 100 false 1) :=
    ⟨by decide, by decide, ⟨24, rfl⟩, rfl⟩
  exact ((hears_master_stays_backup_iff configured ⟨rfl, rfl⟩).mpr rfl).1 _
    (by simpa using ⟨advertisement_valid 200, by decide⟩)

/-- The timer is not armed again for a higher master, and a lower one is overthrown. -/
theorem preempting_ignores_master :
    (receive (10 ^ 9) (advertisement 200) (plainRouter .backupState 100 true 1)).masterDownTimer =
        some (3 * 10 ^ 9) ∧
      (receive (10 ^ 9) (advertisement 50) (plainRouter .backupState 100 true 1)).stateName =
        .masterState := by
  decide +kernel

end Backup

section Masters

/-- The smaller priority, or with the same one the smaller address. -/
def Smaller (gblInfo rival : VrrpGlobalInfo) : Prop :=
  gblInfo.priority < rival.priority ∨ gblInfo.priority = rival.priority ∧
      to4 (parseCIDR gblInfo.ipAddr) < to4 (parseCIDR rival.ipAddr)

instance (gblInfo rival : VrrpGlobalInfo) : Decidable (Smaller gblInfo rival) :=
  inferInstanceAs (Decidable (_ ∨ _))

/-- The router becomes backup by the advertisement that the other one sends. -/
def StepsDown (now : Int) (gblInfo rival : VrrpGlobalInfo) : Prop :=
  ∃ frame pkt, vrrpCreateSendPkt rival = .ok frame ∧
    vrrpCheckRcvdPkt frame gblInfo = .ok (some pkt) ∧
    (vrrpFsmStart now pkt gblInfo).stateName = .backupState

/-- The advertisements of the other router pass the check: thirteen bits of its interval are sent. -/
def Hears (gblInfo rival : VrrpGlobalInfo) : Prop :=
  gblInfo.intfConfig.vrid ≠ 0 ∧ rival.intfConfig.advertisementInterval.toInt % 8192 ≠ 0

instance (gblInfo rival : VrrpGlobalInfo) : Decidable (Hears gblInfo rival) :=
  inferInstanceAs (Decidable (_ ∧ _))

/-- An advertisement of one address as it is on the wire. -/
def advertisementBytes (vrid priority : UInt8) (interval checkSum : UInt16) (ip : Bytes) : Bytes :=
  [0x21, vrid, priority, 1] ++ uint16Bytes interval ++ uint16Bytes checkSum ++ ip ++ zeros 8

/-- The checksum of an advertisement is that of the same bytes without it. -/
theorem vrrpCreateVrrpHeader_ok (gblInfo : VrrpGlobalInfo) : ∃ checkSum ip,
    vrrpCreateVrrpHeader gblInfo = .ok (advertisementBytes
      gblInfo.intfConfig.vrid.toUInt32.toUInt8 gblInfo.intfConfig.priority.toUInt32.toUInt8
      gblInfo.intfConfig.advertisementInterval.toUInt32.toUInt16 checkSum ip) ∧
    vrrpComputeChecksum 2 (advertisementBytes
      gblInfo.intfConfig.vrid.toUInt32.toUInt8 gblInfo.intfConfig.priority.toUInt32.toUInt8
      gblInfo.intfConfig.advertisementInterval.toUInt32.toUInt16 0 ip) = .ok checkSum ∧
    ip.length = 4 := by
  obtain ⟨ip, header⟩ : ∃ ip, vrrpCreateVrrpHeader gblInfo = vrrpEncodeHeader {
      version := 2, type := 1, countIPv4Addr := 1, rsvd := 0, checkSum := 0, ipv4Addr := [ip]
      virtualRtrId := gblInfo.intfConfig.vrid.toUInt32.toUInt8
      priority := gblInfo.intfConfig.priority.toUInt32.toUInt8
      maxAdverInt := gblInfo.intfConfig.advertisementInterval.toUInt32.toUInt16 } := ⟨_, rfl⟩
  rw [header, vrrpEncodeHeader]
  generalize gblInfo.intfConfig.vrid.toUInt32.toUInt8 = vrid
  generalize gblInfo.intfConfig.priority.toUInt32.toUInt8 = priority
  generalize gblInfo.intfConfig.advertisementInterval.toUInt32.toUInt16 = interval
  have long : (max 20 (8 + 1 * 4) : UInt8).toNat = 20 := rfl
  simp only [long]
  have total (ip : Bytes) (four : ip.length = 4) : ∃ checkSum,
      vrrpComputeChecksum 2 (advertisementBytes vrid priority interval 0 ip) = .ok checkSum := by
    obtain ⟨a, b, c, d, rfl⟩ := length_eq_four.mp four
    exact ⟨_, rfl⟩
  -- The address goes where the encoder left room for it; without one the zeros stay.
  rcases to4_cases ip with none | ⟨a, b, c, d, address⟩
  · obtain ⟨checkSum, summed⟩ := total (zeros 4) rfl
    refine ⟨checkSum, zeros 4, ?_, summed, rfl⟩
    simp [none, slice, copyAt, storeAt, zeros, uint16Bytes]
    change (vrrpComputeChecksum 2 (advertisementBytes vrid priority interval 0 (zeros 4)) >>= _) = _
    rw [summed]
    rfl
  · obtain ⟨checkSum, summed⟩ := total [a, b, c, d] rfl
    refine ⟨checkSum, [a, b, c, d], ?_, summed, rfl⟩
    simp [address, slice, copyAt, storeAt, zeros, uint16Bytes]
    change (vrrpComputeChecksum 2 (advertisementBytes vrid priority interval 0 [a, b, c, d]) >>= _) =
      _
    rw [summed]
    rfl

/-- An advertisement with its checksum passes the check, unless a field of it is zero. -/
theorem vrrpCheckPayload_advertisement {vrid priority : UInt8} {interval checkSum : UInt16}
    {ip : Bytes} (summed : vrrpComputeChecksum 2
      (advertisementBytes vrid priority interval 0 ip) = .ok checkSum) (four : ip.length = 4)
    (intfConfig : VrrpIntf) (text : Rib.IPText) (length : UInt8) :
    ∃ hdr : VrrpPktHeader, hdr.priority = priority ∧
      vrrpCheckPayload ⟨advertisementBytes vrid priority interval checkSum ip, []⟩ intfConfig
          (.cidr text length) =
        if interval &&& 0x1fff = 0 then .error .incorrectFields
        else if intfConfig.vrid = 0 then .error .missingVridConfig else .ok hdr := by
  obtain ⟨a, b, c, d, rfl⟩ := length_eq_four.mp four
  have read : vrrpDecodeHeader ⟨advertisementBytes vrid priority interval checkSum [a, b, c, d],
      []⟩ = .ok ⟨2, 1, vrid, priority, 1, (interval >>> 13).toUInt8, interval &&& 0x1fff, checkSum,
        [[a, b, c, d]]⟩ := by
    have first : (uint16 (uint16Bytes interval) : Call UInt16) = _ := uint16_all interval
    have second : (uint16 (uint16Bytes checkSum) : Call UInt16) = _ := uint16_all checkSum
    simp only [uint16Bytes] at first second
    simp [vrrpDecodeHeader, advertisementBytes, index, Payload.uint16At, slice, uint16Bytes, zeros,
      first, second]
    decide
  -- The checksum is taken out before the sum is made again.
  have cleared : (storeAt (advertisementBytes vrid priority interval checkSum [a, b, c, d]) 6 [0, 0] :
      Call Bytes) = .ok (advertisementBytes vrid priority interval 0 [a, b, c, d]) := rfl
  have whole : (advertisementBytes vrid priority interval 0 [a, b, c, d]).take
      (advertisementBytes vrid priority interval checkSum [a, b, c, d]).length =
      advertisementBytes vrid priority interval 0 [a, b, c, d] := rfl
  refine ⟨⟨2, 1, vrid, priority, 1, (interval >>> 13).toUInt8, interval &&& 0x1fff, checkSum,
    [[a, b, c, d]]⟩, rfl, ?_⟩
  rw [vrrpCheckPayload, read, ok_bind, vrrpCheckHeader, if_neg (by simp)]
  simp only [append_nil, cleared, ok_bind, whole, summed]
  by_cases zero : interval &&& 0x1fff = 0
  · simp [zero]
  · by_cases unset : intfConfig.vrid = 0 <;>
      by_cases configured : intfConfig.virtualIPv4Addr = none <;>
      simp [zero, unset, configured, checkOwner]

theorem Configured.to4_eq (configured : Configured address gblInfo) :
    to4 (parseCIDR gblInfo.ipAddr) = address := by
  obtain ⟨length, cidr⟩ := configured.cidr
  simp [cidr, parseCIDR, NetUtils.parseIP, to4, Rib.v4InV6Prefix, configured.four]

theorem interval_and_eq_zero (interval : Int32) :
    interval.toUInt32.toUInt16 &&& 0x1fff = 0 ↔ interval.toInt % 8192 = 0 := by
  have bits : interval.toUInt32.toNat = interval.toBitVec.toNat := rfl
  have low : (interval.toUInt32.toUInt16 &&& 0x1fff).toNat =
      interval.toUInt32.toUInt16.toNat % 2 ^ 13 := Nat.and_two_pow_sub_one_eq_mod _ 13
  rw [← UInt16.toNat_inj, low, UInt32.toNat_toUInt16, bits, Int32.toInt, BitVec.toInt,
    UInt16.toNat_zero]
  omega

/-- An advertisement that passes the check goes on with the priority and the address of its sender. -/
theorem vrrpCheckRcvdPkt_sent (own : Configured address gblInfo)
    (master : gblInfo.stateName = .masterState) (rival : VrrpGlobalInfo) :
    ∃ frame pkt, vrrpCreateSendPkt rival = .ok frame ∧
      vrrpCheckRcvdPkt frame gblInfo = .ok (if Hears gblInfo rival then some pkt else none) ∧
      pkt.hdr.priority = rival.intfConfig.priority.toUInt32.toUInt8 ∧
      pkt.srcIP = to4 (parseCIDR rival.ipAddr) := by
  obtain ⟨checkSum, ip, header, summed, four⟩ := vrrpCreateVrrpHeader_ok rival
  obtain ⟨length, cidr⟩ := own.cidr
  obtain ⟨hdr, same, checked⟩ :=
    vrrpCheckPayload_advertisement summed four gblInfo.intfConfig address length
  have interval := interval_and_eq_zero rival.intfConfig.advertisementInterval
  refine ⟨_, ⟨hdr, "01:00:5e:00:00:12", [224, 0, 0, 18], to4 (parseCIDR rival.ipAddr)⟩,
    by rw [vrrpCreateSendPkt, header]; rfl, ?_, same, rfl⟩
  rw [vrrpCheckRcvdPkt, if_neg (by simp [master])]
  simp only [cidr, checked, Hears, interval]
  by_cases unset : gblInfo.intfConfig.vrid = 0 <;>
    by_cases zero : rival.intfConfig.advertisementInterval.toInt % 8192 = 0 <;>
    simp [unset, zero]

/-- No address is not below that of the other router, so that a tie is enough to step down. -/
theorem stepsDown_iff {rival : VrrpGlobalInfo} {other : Bytes} (own : Configured address gblInfo)
    (rivals : Configured other rival) (master : gblInfo.stateName = .masterState) :
    StepsDown now gblInfo rival ↔ Hears gblInfo rival ∧ gblInfo.priority ≤ rival.priority := by
  obtain ⟨frame, pkt, sent, received, priority, src⟩ := vrrpCheckRcvdPkt_sent own master rival
  obtain ⟨length, cidr⟩ := own.cidr
  have low := rivals.low
  rw [← rivals.priority_toNat, ← priority] at low ⊢
  have positive : pkt.hdr.priority ≠ 0 := by
    rintro zero
    simp [zero] at low
  have below : [] < pkt.srcIP := by
    obtain ⟨first, rest, cons⟩ := exists_cons_of_length_eq_add_one rivals.four
    rw [src, rivals.to4_eq, cons]
    exact nil_lt_cons _ _
  by_cases heard : Hears gblInfo rival
  · simp only [StepsDown, sent, received, heard, if_true, Outcome.ok.injEq, exists_and_left,
      exists_eq_left', Option.some.injEq, true_and, vrrpFsmStart, master, vrrpMasterState,
      if_neg positive, cidr, parseIP, below, and_true]
    split
    case isTrue higher => exact iff_of_true rfl (by omega)
    case isFalse lower => exact iff_of_false (by simp [master]) (by omega)
  · -- The advertisement is dropped before the state machine sees it.
    simp [StepsDown, sent, received, heard]

/--
Of two masters exactly the smaller one steps down if and only if it hears the other one, and with
the same priority is not heard by it.
-/
theorem one_master_steps_down_iff {left right : VrrpGlobalInfo} {leftAddress rightAddress : Bytes}
    (lefts : Configured leftAddress left) (rights : Configured rightAddress right)
    (distinct : leftAddress ≠ rightAddress)
    (leftMaster : left.stateName = .masterState) (rightMaster : right.stateName = .masterState) :
    ((StepsDown now left right ↔ Smaller left right) ∧
      (StepsDown now right left ↔ Smaller right left)) ↔
    (Smaller left right → Hears left right ∧ (left.priority = right.priority → ¬Hears right left)) ∧
      (Smaller right left → Hears right left ∧
        (left.priority = right.priority → ¬Hears left right)) := by
  rw [stepsDown_iff lefts rights leftMaster, stepsDown_iff rights lefts rightMaster, Smaller,
    Smaller, lefts.to4_eq, rights.to4_eq]
  rcases lt_trichotomy left.priority right.priority with lower | tied | higher
  · -- The one of higher priority stays master, whether it hears the other one or not.
    simp [lower, lower.le, lower.not_gt, lower.not_ge, lower.ne, lower.ne']
  · have order : leftAddress < rightAddress ∨ rightAddress < leftAddress := by
      by_contra neither
      rw [not_or, List.not_lt, List.not_lt] at neither
      exact distinct (List.le_antisymm neither.2 neither.1)
    rcases order with before | behind
    · simp [tied, before, List.lt_asymm before]
    · simp [tied, behind, List.lt_asymm behind]
      tauto
  · simp [higher, higher.le, higher.not_gt, higher.not_ge, higher.ne, higher.ne']

/-- The master of priority 100 hears the one of priority 200 and steps down, and the other stays. -/
theorem lower_master_steps_down :
    StepsDown 0 (plainRouter .masterState 100 true 1) (plainRouter .masterState 200 true 2) ∧
      ¬StepsDown 0 (plainRouter .masterState 200 true 2) (plainRouter .masterState 100 true 1) := by
  have both := (@one_master_steps_down_iff 0 (plainRouter .masterState 100 true 1)
    (plainRouter .masterState 200 true 2) _ _ ⟨by decide, by decide, ⟨24, rfl⟩, rfl⟩
    ⟨by decide, by decide, ⟨24, rfl⟩, rfl⟩ (by decide) rfl rfl).mpr (by decide)
  exact ⟨both.1.mpr (by decide), fun down => absurd (both.2.mp down) (by decide)⟩

/-- With one priority both masters step down. -/
theorem tied_masters_step_down :
    StepsDown 0 (plainRouter .masterState 100 true 1) (plainRouter .masterState 100 true 2) ∧
      StepsDown 0 (plainRouter .masterState 100 true 2) (plainRouter .masterState 100 true 1) :=
  ⟨⟨_, _, rfl, rfl, rfl⟩, ⟨_, _, rfl, rfl, rfl⟩⟩

end Masters

end FlexSwitch.Vrrp
