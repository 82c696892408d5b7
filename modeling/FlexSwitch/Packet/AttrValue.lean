import FlexSwitch.Packet.AttrHeader
import FlexSwitch.Packet.NlriScan

/-! For each attribute type, exactly when reading its value panics. -/

namespace FlexSwitch.Packet

open Go List Outcome UInt16

section Values

variable {pkt : Bytes} {base : BGPPathAttrBase}

/-- The value's bytes are sliced out exactly when the attribute lies inside the buffer. -/
theorem HeaderRead.valueBytes_returns (header : HeaderRead pkt base)
    (small : pkt.length < 65532) :
    (base.valueBytes pkt).Returns ↔ base.totalLen.toNat ≤ pkt.length := by
  have width := header.width_toNat
  have bound := base.length.toNat_lt
  have whole := base.totalLen_toNat
  -- Past the wrap the upper bound falls below the lower one.
  have sum : (base.bgpPathAttrLen + base.length).toNat =
      (base.bgpPathAttrLen.toNat + base.length.toNat) % 65536 := UInt16.toNat_add _ _
  unfold BGPPathAttrBase.valueBytes slice
  split
  · simp only [returns_ok, true_iff]
    omega
  · simp only [not_returns_panic, false_iff]
    omega

theorem HeaderRead.valueBytes_ok (header : HeaderRead pkt base) (small : pkt.length < 65532)
    (whole : base.totalLen.toNat ≤ pkt.length) :
    ∃ value, base.valueBytes pkt = .ok value ∧ value.length = base.length.toNat := by
  have width := header.width_toNat
  have total := base.totalLen_toNat
  have sum : (base.bgpPathAttrLen + base.length).toNat =
      base.bgpPathAttrLen.toNat + base.length.toNat := by
    rw [UInt16.toNat_add]
    omega
  refine ⟨_, slice_of_le (by omega) (by omega), ?_⟩
  rw [length_take, length_drop]
  omega

@[simp] theorem copyAt_zero_returns (buf data : Bytes) :
    (copyAt buf 0 data : Call Bytes).Returns := by
  rw [copyAt_zero]
  trivial

/-- A decoder that copies the value out needs the attribute inside the buffer. -/
theorem HeaderRead.copied_returns {α : Type} (header : HeaderRead pkt base)
    (small : pkt.length < 65532) (build : Bytes → α) :
    (do let value ← copyAt (zeros base.length.toNat) 0 (← base.valueBytes pkt)
        return build value : Call α).Returns ↔ base.totalLen.toNat ≤ pkt.length := by
  rw [bind_returns, header.valueBytes_returns small]
  simp [bind_returns]

/-- A decoder that reads a four-byte number out of a four-byte value always comes back. -/
theorem HeaderRead.number_returns {α : Type} (header : HeaderRead pkt base)
    (small : pkt.length < 65532) (four : base.length = 4) (build : UInt32 → α) :
    (do let value ← uint32 (← base.valueBytes pkt) return build value : Call α).Returns := by
  have whole := header.whole (by rw [four]; decide)
  obtain ⟨value, sliced, size⟩ := header.valueBytes_ok small whole
  rw [four] at size
  obtain ⟨number, read⟩ : ∃ number, (uint32 value : Call UInt32) = .ok number :=
    uint32_of_le (by rw [size]; decide)
  simp [sliced, read]

/-- While the cluster list stays below the wrap, its bounds are those of ordinary arithmetic. -/
theorem clusterBounds (hdr i : UInt16) (inside : hdr.toNat + 4 * i.toNat + 4 < 65536) :
    (hdr + 4 * i).toNat = hdr.toNat + 4 * i.toNat ∧
      (hdr + 4 * i + 4).toNat = hdr.toNat + 4 * i.toNat + 4 ∧ (i + 1).toNat = i.toNat + 1 := by
  have product : (4 * i).toNat = 4 * i.toNat := by
    rw [UInt16.toNat_mul]
    simp only [reduceToNat]
    omega
  have low : (hdr + 4 * i).toNat = hdr.toNat + 4 * i.toNat := by
    rw [UInt16.toNat_add, product]
    omega
  refine ⟨low, ?_, ?_⟩
  · rw [UInt16.toNat_add, low]
    simp only [reduceToNat]
    omega
  · rw [UInt16.toNat_add]
    simp only [reduceToNat]
    omega

theorem fourBytes_of_le {low : Nat} (room : low + 4 ≤ pkt.length) :
    ∃ buf number, (slice pkt low (low + 4) : Call Bytes) = .ok buf ∧
      (uint32 buf : Call UInt32) = .ok number := by
  have size : 4 ≤ ((pkt.drop low).take (low + 4 - low)).length := by
    rw [length_take, length_drop]
    omega
  obtain ⟨number, read⟩ : ∃ number, (uint32 ((pkt.drop low).take (low + 4 - low)) : Call UInt32) =
      .ok number := uint32_of_le size
  exact ⟨_, number, slice_of_le (by omega) room, read⟩

/-- Cluster identifiers are read when the buffer holds them all. -/
theorem readClusters_of_le {hdr : UInt16} {count : Nat} {i : UInt16}
    (small : pkt.length < 65532) (room : hdr.toNat + 4 * (i.toNat + count) ≤ pkt.length) :
    (readClusters pkt hdr count i).Returns := by
  induction count generalizing i with
  | zero => simp [readClusters]
  | succ count ih =>
    obtain ⟨low, high, next⟩ := clusterBounds hdr i (by omega)
    obtain ⟨buf, number, sliced, read⟩ := fourBytes_of_le
      (show hdr.toNat + 4 * i.toNat + 4 ≤ pkt.length by omega)
    have rest := ih (i := i + 1) (by rw [next]; omega)
    rw [readClusters, low, high, sliced, ok_bind, read, ok_bind, bind_returns]
    exact ⟨rest, fun _ _ => by simp⟩

/-- A list that runs past the buffer panics at the first identifier that is not all there. -/
theorem readClusters_panic {hdr : UInt16} {count : Nat} {i : UInt16}
    (small : pkt.length < 65532) (before : hdr.toNat + 4 * i.toNat ≤ pkt.length)
    (cut : pkt.length < hdr.toNat + 4 * (i.toNat + count)) :
    readClusters pkt hdr count i = .panic := by
  induction count generalizing i with
  | zero => omega
  | succ count ih =>
    obtain ⟨low, high, next⟩ := clusterBounds hdr i (by omega)
    rw [readClusters, low, high]
    by_cases inside : hdr.toNat + 4 * i.toNat + 4 ≤ pkt.length
    · -- This one is complete, so the cut lies further on.
      obtain ⟨buf, number, sliced, read⟩ := fourBytes_of_le inside
      have rest := ih (i := i + 1) (by rw [next]; omega) (by rw [next]; omega)
      rw [sliced, ok_bind, read, ok_bind, rest, panic_bind]
    · simp only [slice, inside, and_false, if_false, panic_bind]

/-- A cluster list is read exactly when it lies inside the buffer. -/
theorem HeaderRead.clusters_returns (header : HeaderRead pkt base) (small : pkt.length < 65532) :
    (readClusters pkt base.bgpPathAttrLen (base.length / 4).toNat 0).Returns ↔
      base.totalLen.toNat ≤ pkt.length := by
  have width := header.width_toNat
  have total := base.totalLen_toNat
  have bound := base.length.toNat_lt
  have count : (base.length / 4).toNat = base.length.toNat / 4 := by simp
  have zero : (0 : UInt16).toNat = 0 := rfl
  by_cases whole : base.totalLen.toNat ≤ pkt.length
  · simp only [whole, iff_true]
    apply readClusters_of_le small
    omega
  · -- A header that was read without its value is one whose length wrapped.
    have long : 65532 ≤ base.length.toNat := by
      by_contra short
      exact whole (header.whole (by omega))
    have opened := header.opened
    rw [readClusters_panic small (by omega) (by omega)]
    simp [whole]

/-- A two-byte aggregator number is checked for before it is read. -/
theorem aggregatorAS_decode_two (buf : Bytes) :
    (∃ fault, BGPAggregatorAS.decode 2 buf = .error fault) ∨
      2 ≤ buf.length ∧ ∃ number, BGPAggregatorAS.decode 2 buf = .ok (.as2 number) := by
  match buf with
  | [] => left; simp [BGPAggregatorAS.decode]
  | [_] => left; simp [BGPAggregatorAS.decode]
  | _ :: _ :: rest =>
    right
    have guard : ¬ rest.length + 1 + 1 < 2 := by omega
    simp [BGPAggregatorAS.decode, slice, uint16, guard]

/-- A four-byte aggregator number is read without a check. -/
theorem aggregatorAS_decode_four {asSize : UInt8} (four : asSize ≠ 2) (buf : Bytes) :
    (buf.length < 4 ∧ BGPAggregatorAS.decode asSize buf = .panic) ∨
      4 ≤ buf.length ∧ ∃ number, BGPAggregatorAS.decode asSize buf = .ok (.as4 number) := by
  by_cases room : 4 ≤ buf.length
  · right
    obtain ⟨front, number, sliced, read⟩ := fourBytes_of_le (show 0 + 4 ≤ buf.length by omega)
    exact ⟨room, number, by
      simp only [BGPAggregatorAS.decode, four, if_false, sliced, ok_bind, read, pure_eq]⟩
  · left
    refine ⟨by omega, ?_⟩
    simp only [BGPAggregatorAS.decode, four, if_false, slice, room, and_false, panic_bind]

/-- An aggregator is read when its announced length is enough, or four bytes are there for it. -/
def AggregatorSafe (base : BGPPathAttrBase) (pkt : Bytes) (asSize : UInt8) : Prop :=
  if base.length < (asSize + 4).toUInt16 then base.totalLen.toNat ≤ pkt.length
  else asSize = 2 ∨ base.bgpPathAttrLen.toNat + 4 ≤ pkt.length

/-- A four-byte AS number is read without a check that its bytes are there. -/
theorem HeaderRead.aggregator_returns (header : HeaderRead pkt base) (peerAttrs : BGPPeerAttrs) :
    (BGPPathAttrAggregator.decodeValue base pkt peerAttrs).Returns ↔
      AggregatorSafe base pkt peerAttrs.asSize := by
  have width := header.width_toNat
  have opened := header.opened
  unfold BGPPathAttrAggregator.decodeValue AggregatorSafe
  by_cases short : base.length < (peerAttrs.asSize + 4).toUInt16
  · rw [if_pos short, if_pos short, bind_returns]
    simp
  · rw [if_neg short, if_neg short, sliceFrom_of_le opened, ok_bind]
    -- Behind the number the address is copied from whatever is left.
    have behind : ∀ size : UInt16, size.toNat ≤ 4 →
        base.bgpPathAttrLen.toNat + size.toNat ≤ pkt.length →
        ∃ rest, (sliceFrom pkt (base.bgpPathAttrLen + size).toNat : Call Bytes) = .ok rest := by
      intro size little room
      have sum : (base.bgpPathAttrLen + size).toNat = base.bgpPathAttrLen.toNat + size.toNat := by
        rw [UInt16.toNat_add]
        omega
      exact ⟨_, by rw [sum]; exact sliceFrom_of_le room⟩
    by_cases two : peerAttrs.asSize = 2
    · rw [two]
      simp only [true_or, iff_true]
      rcases aggregatorAS_decode_two (pkt.drop base.bgpPathAttrLen.toNat) with
        ⟨fault, refused⟩ | ⟨long, number, decoded⟩
      · simp [refused]
      · rw [length_drop] at long
        obtain ⟨rest, sliced⟩ := behind 2 (by decide) (by simp only [reduceToNat]; omega)
        simp only [decoded, ok_bind, BGPAggregatorAS.getLen, sliced]
        simp [bind_returns]
    · simp only [two, false_or]
      rcases aggregatorAS_decode_four two (pkt.drop base.bgpPathAttrLen.toNat) with
        ⟨cut, panicked⟩ | ⟨long, number, decoded⟩
      · rw [length_drop] at cut
        simp only [panicked, panic_bind, not_returns_panic, false_iff]
        omega
      · rw [length_drop] at long
        obtain ⟨rest, sliced⟩ := behind 4 (by decide) (by simp only [reduceToNat]; omega)
        have room : base.bgpPathAttrLen.toNat + 4 ≤ pkt.length := by omega
        simp only [decoded, ok_bind, BGPAggregatorAS.getLen, sliced, room, iff_true]
        simp [bind_returns]

/-- The four-byte aggregator has a fixed length, which leaves room for all it reads. -/
theorem HeaderRead.as4Aggregator_returns {α : Type} (header : HeaderRead pkt base)
    (eight : base.length = 8) (build : UInt32 → Bytes → α) :
    (do let aggAS ← uint32 (← slice (← sliceFrom pkt base.bgpPathAttrLen.toNat) 0 4)
        let ip ← copyAt (zeros 4) 0 (← sliceFrom pkt (base.bgpPathAttrLen + 4).toNat)
        return build aggAS ip : Call α).Returns := by
  have width := header.width_toNat
  have whole := header.whole (by rw [eight]; decide)
  rw [base.totalLen_toNat, eight] at whole
  simp only [reduceToNat] at whole
  have sum : (base.bgpPathAttrLen + 4).toNat = base.bgpPathAttrLen.toNat + 4 := by
    rw [UInt16.toNat_add]
    simp only [reduceToNat]
    omega
  have room : 0 + 4 ≤ (pkt.drop base.bgpPathAttrLen.toNat).length := by
    rw [length_drop]
    omega
  obtain ⟨buf, number, sliced, read⟩ := fourBytes_of_le room
  rw [sliceFrom_of_le header.opened, ok_bind, sliced, ok_bind, read,
    ok_bind, sum, sliceFrom_of_le (by omega), ok_bind]
  simp [bind_returns]

/-- A next hop is read with the length its first byte gives, unless a short address is cut off. -/
theorem mpNextHop_decode_cases (afi : UInt16) (length : UInt8) (rest : Bytes) :
    (length = 4 ∧ rest.length < 4 ∧ MPNextHop.decode afi (length :: rest) = .panic) ∨
    ∃ nextHop fault, MPNextHop.decode afi (length :: rest) = .ok (nextHop, fault) ∧
      nextHop.length = length := by
  have tail : (sliceFrom (length :: rest) 1 : Call Bytes) = .ok rest := by simp [sliceFrom]
  have copied : ∀ size, ∃ value, (copyAt (zeros size) 0 rest : Call Bytes) = .ok value :=
    fun size => ⟨_, copyAt_zero _ _⟩
  by_cases known : afi = afiIP ∨ afi = afiIP6
  · by_cases four : length = 4
    · -- The four address bytes are read one by one.
      subst four
      rcases rest with _ | ⟨b1, _ | ⟨b2, _ | ⟨b3, _ | ⟨b4, rest⟩⟩⟩⟩
      case cons.cons.cons.cons =>
        right
        refine ⟨.ip 4 (netIPv4 b1 b2 b3 b4), none, ?_, rfl⟩
        simp [MPNextHop.decode, known, MPNextHopIP.decode, index]
      all_goals
        left
        simp [MPNextHop.decode, known, MPNextHopIP.decode, index]
    · right
      obtain ⟨value, copied⟩ := copied 16
      by_cases wide : length = 16 ∨ length = 32
      · refine ⟨.ip length value, none, ?_, rfl⟩
        rcases wide with rfl | rfl <;>
          simp [MPNextHop.decode, known, MPNextHopIP.decode, index, tail, copied]
      · refine ⟨.ip length [], some ("Wrong Next hop len " ++ toString length.toNat), ?_, rfl⟩
        rw [not_or] at wide
        simp only [MPNextHop.decode, known, if_true, MPNextHopIP.decode, index,
          getElem?_cons_zero, ok_bind, four, wide, ne_eq, not_false_eq_true, and_self,
          pure_eq]
  · right
    obtain ⟨value, copied⟩ := copied length.toNat
    refine ⟨.unknown length value, none, ?_, rfl⟩
    simp [MPNextHop.decode, known, MPNextHopUnknown.decode, index, tail, copied]

/-- The address family the first two value bytes spell. -/
def afiOf (high low : UInt8) : UInt16 := UInt16.ofNat (high.toNat * 256 + low.toNat)

/-- An MP_REACH_NLRI value has its next hop and the reserved byte, and prefixes that can be read. -/
def MPReachSafe (length : UInt16) (addPaths : Bool) (value : Bytes) : Prop :=
  ∃ high low safi nextHopLen rest, value = high :: low :: safi :: nextHopLen :: rest ∧
    (nextHopLen + 1).toNat ≤ rest.length ∧
    PrefixesSafe (rest.drop (nextHopLen + 1).toNat)
      (length.toUInt32 - 4 - (nextHopLen + 1).toUInt32).toNat (afiOf high low) addPaths

/-- An MP_UNREACH_NLRI value has its family, and prefixes that can be read. -/
def MPUnreachSafe (length : UInt16) (addPaths : Bool) (value : Bytes) : Prop :=
  ∃ high low safi rest, value = high :: low :: safi :: rest ∧
    PrefixesSafe rest (length.toUInt32 - 3).toNat (afiOf high low) addPaths

namespace HeaderRead

variable (header : HeaderRead pkt base)

include header

/-- A value too short for the next hop's length byte panics. -/
theorem mpReach_short {fuel : Nat} {peerAttrs : BGPPeerAttrs}
    (short : (pkt.drop base.bgpPathAttrLen.toNat).length < 4) :
    BGPPathAttrMPReachNLRI.decodeValue fuel base pkt peerAttrs = .panic := by
  have family : (slice pkt base.bgpPathAttrLen.toNat (base.bgpPathAttrLen.toNat + 2) :
      Call Bytes) = slice (pkt.drop base.bgpPathAttrLen.toNat) 0 2 := slice_add header.opened 0 2
  simp only [BGPPathAttrMPReachNLRI.decodeValue, add_assoc, index_add, family,
    sliceFrom_add header.opened]
  match value : pkt.drop base.bgpPathAttrLen.toNat with
  | [] => simp [slice]
  | [_] => simp [slice]
  | [_, _] => simp [slice, uint16, index]
  | [_, _, _] =>
    simp [slice, uint16, index, sliceFrom, MPNextHop.decode, MPNextHopIP.decode,
      MPNextHopUnknown.decode]
  | _ :: _ :: _ :: _ :: _ =>
    rw [value] at short
    simp only [length_cons] at short
    omega

/-- Behind a next hop and the reserved byte, what is left of the value is a run of prefixes. -/
theorem mpReach_value (fuel : Nat)
    (peerAttrs : BGPPeerAttrs) {high low safi nextHopLen : UInt8} {rest : Bytes}
    (value : pkt.drop base.bgpPathAttrLen.toNat = high :: low :: safi :: nextHopLen :: rest) :
    (rest.length < (nextHopLen + 1).toNat ∧
      BGPPathAttrMPReachNLRI.decodeValue fuel base pkt peerAttrs = .panic) ∨
    (nextHopLen + 1).toNat ≤ rest.length ∧ ∃ nextHop reserved,
      BGPPathAttrMPReachNLRI.decodeValue fuel base pkt peerAttrs = (do
        let (nlri, _) ← decodeNLRI fuel (rest.drop (nextHopLen + 1).toNat)
          (base.length.toUInt32 - 4 - (nextHopLen + 1).toUInt32) (afiOf high low) peerAttrs
        return { toBGPPathAttrBase := base, afi := afiOf high low, safi := safi,
                 nextHop := nextHop, reserved := reserved, nlri := nlri }) := by
  have family : (slice pkt base.bgpPathAttrLen.toNat (base.bgpPathAttrLen.toNat + 2) :
      Call Bytes) = slice (pkt.drop base.bgpPathAttrLen.toNat) 0 2 := slice_add header.opened 0 2
  have bytes : (slice (high :: low :: safi :: nextHopLen :: rest) 0 2 : Call Bytes) =
      .ok [high, low] := by simp [slice]
  have third : (index (high :: low :: safi :: nextHopLen :: rest) 2 : Call UInt8) = .ok safi := by
    simp [index]
  have behind : (sliceFrom (high :: low :: safi :: nextHopLen :: rest) 3 : Call Bytes) =
      .ok (nextHopLen :: rest) := by simp [sliceFrom]
  simp only [BGPPathAttrMPReachNLRI.decodeValue, add_assoc, index_add, family,
    sliceFrom_add header.opened, value, bytes, third, behind, ok_bind, uint16,
    drop_succ_cons, drop_zero]
  rw [show ofNat (high.toNat * 256 + low.toNat) = afiOf high low from rfl]
  rcases mpNextHop_decode_cases _ nextHopLen rest with
    ⟨four, cut, panicked⟩ | ⟨nextHop, fault, decoded, length⟩
  · left
    subst four
    refine ⟨?_, by rw [panicked, panic_bind]⟩
    have five : ((4 : UInt8) + 1).toNat = 5 := rfl
    omega
  · have size : nextHop.len = nextHopLen + 1 := by rw [MPNextHop.len, length]
    simp only [decoded, ok_bind, size]
    by_cases room : (nextHopLen + 1).toNat ≤ rest.length
    · -- The reserved byte is there, and the prefixes start right behind it.
      right
      have inside : (nextHopLen + 1).toNat < (nextHopLen :: rest).length := by
        simp only [length_cons]
        omega
      have last : (sliceFrom (high :: low :: safi :: nextHopLen :: rest)
          (3 + ((nextHopLen + 1).toNat + 1)) : Call Bytes) =
          .ok (rest.drop (nextHopLen + 1).toNat) := by
        rw [sliceFrom_of_le (by simp only [length_cons]; omega)]
        rw [show 3 + ((nextHopLen + 1).toNat + 1) = (nextHopLen + 1).toNat + 4 by omega]
        rfl
      refine ⟨room, nextHop, (nextHopLen :: rest)[(nextHopLen + 1).toNat], ?_⟩
      rw [index_of_lt inside, ok_bind, last, ok_bind]
    · left
      have outside : (nextHopLen :: rest).length ≤ (nextHopLen + 1).toNat := by
        simp only [length_cons]
        omega
      exact ⟨by omega, by rw [index_of_le outside, panic_bind]⟩

/-- Reading an MP_REACH_NLRI value comes back when its fixed part is there and its prefixes do. -/
theorem mpReach_returns (fuel : Nat) (peerAttrs : BGPPeerAttrs) :
    (BGPPathAttrMPReachNLRI.decodeValue fuel base pkt peerAttrs).Returns ↔
      ∃ high low safi nextHopLen rest,
        pkt.drop base.bgpPathAttrLen.toNat = high :: low :: safi :: nextHopLen :: rest ∧
        (nextHopLen + 1).toNat ≤ rest.length ∧
        (decodeNLRI fuel (rest.drop (nextHopLen + 1).toNat)
          (base.length.toUInt32 - 4 - (nextHopLen + 1).toUInt32) (afiOf high low)
          peerAttrs).Returns := by
  by_cases short : (pkt.drop base.bgpPathAttrLen.toNat).length < 4
  · rw [header.mpReach_short short]
    simp only [not_returns_panic, false_iff]
    rintro ⟨high, low, safi, nextHopLen, rest, value, _⟩
    rw [value] at short
    simp only [length_cons] at short
    omega
  · obtain ⟨high, low, safi, nextHopLen, rest, value⟩ : ∃ high low safi nextHopLen rest,
          pkt.drop base.bgpPathAttrLen.toNat = high :: low :: safi :: nextHopLen :: rest := by
      rcases value : pkt.drop base.bgpPathAttrLen.toNat with
        _ | ⟨high, _ | ⟨low, _ | ⟨safi, _ | ⟨nextHopLen, rest⟩⟩⟩⟩
      case cons.cons.cons.cons => exact ⟨_, _, _, _, _, rfl⟩
      all_goals simp [value] at short
    rcases header.mpReach_value fuel peerAttrs value with
      ⟨cut, panicked⟩ | ⟨room, nextHop, reserved, same⟩
    · rw [panicked]
      simp only [not_returns_panic, false_iff]
      rintro ⟨_, _, _, _, _, other, room, _⟩
      rw [value] at other
      cases other
      omega
    · rw [same, bind_returns]
      constructor
      · rintro ⟨returned, _⟩
        exact ⟨high, low, safi, nextHopLen, rest, value, room, returned⟩
      · rintro ⟨_, _, _, _, _, other, _, returned⟩
        rw [value] at other
        cases other
        exact ⟨returned, fun _ _ => by simp⟩

/-- Reading an MP_UNREACH_NLRI value comes back when its family is there and its prefixes do. -/
theorem mpUnreach_returns (fuel : Nat) (peerAttrs : BGPPeerAttrs) :
    (BGPPathAttrMPUnreachNLRI.decodeValue fuel base pkt peerAttrs).Returns ↔ ∃ high low safi rest,
        pkt.drop base.bgpPathAttrLen.toNat = high :: low :: safi :: rest ∧
        (decodeNLRI fuel rest (base.length.toUInt32 - 3) (afiOf high low) peerAttrs).Returns := by
  have family : (slice pkt base.bgpPathAttrLen.toNat (base.bgpPathAttrLen.toNat + 2) :
      Call Bytes) = slice (pkt.drop base.bgpPathAttrLen.toNat) 0 2 := slice_add header.opened 0 2
  simp only [BGPPathAttrMPUnreachNLRI.decodeValue, index_add, family, sliceFrom_add header.opened]
  match value : pkt.drop base.bgpPathAttrLen.toNat with
  | [] => simp [slice]
  | [_] => simp [slice]
  | [_, _] => simp [slice, uint16, index]
  | high :: low :: safi :: rest =>
    have bytes : (slice (high :: low :: safi :: rest) 0 2 : Call Bytes) = .ok [high, low] := by
      simp [slice]
    have third : (index (high :: low :: safi :: rest) 2 : Call UInt8) = .ok safi := by
      simp [index]
    have behind : (sliceFrom (high :: low :: safi :: rest) 3 : Call Bytes) = .ok rest := by
      simp [sliceFrom]
    simp only [bytes, third, behind, ok_bind, uint16]
    rw [show ofNat (high.toNat * 256 + low.toNat) = afiOf high low from rfl, bind_returns]
    constructor
    · rintro ⟨returned, _⟩
      exact ⟨high, low, safi, rest, rfl, returned⟩
    · rintro ⟨_, _, _, _, other, returned⟩
      cases other
      exact ⟨returned, fun _ _ => by simp⟩

end HeaderRead

end Values

end FlexSwitch.Packet
