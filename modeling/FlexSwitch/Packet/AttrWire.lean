import FlexSwitch.Packet.HeaderWire
import FlexSwitch.Packet.NlriWire

/-! Attributes other than AS paths on the wire, and what is read back of each of them. -/

namespace FlexSwitch.Packet

open Go List Outcome UInt16
open Rib (IPText ipString v4InV6Prefix)

section Building

def newBGPPathAttrOrigin (originType : UInt8) : BGPPathAttrOrigin :=
  { flags := 0x40, code := attrTypeOrigin, length := 1, bgpPathAttrLen := 3, value := originType }

def newBGPPathAttrNextHop : BGPPathAttrNextHop :=
  { flags := 0x40, code := attrTypeNextHop, length := 4, bgpPathAttrLen := 3, value := [] }

def newBGPPathAttrMultiExitDisc : BGPPathAttrMultiExitDisc :=
  { flags := 0x80, code := attrTypeMultiExitDisc, length := 4, bgpPathAttrLen := 3, value := 0 }

def newBGPPathAttrLocalPref : BGPPathAttrLocalPref :=
  { flags := flagTransitive, code := attrTypeLocalPref, length := 4, bgpPathAttrLen := 3,
    value := 0 }

def newBGPPathAttrAtomicAggregate : BGPPathAttrBase :=
  { flags := flagTransitive, code := attrTypeAtomicAggregate, length := 0, bgpPathAttrLen := 3 }

/-- `NewBGPPathAttrAggregator` followed by `SetBGPAggregatorAS`, which adds to the length. -/
def newBGPPathAttrAggregator (aggAS : BGPAggregatorAS) : BGPPathAttrAggregator :=
  { flags := flagTransitive ||| flagOptional, code := attrTypeAggregator,
    length := 4 + aggAS.getLen, bgpPathAttrLen := 3, aggAS := aggAS, ip := [] }

def newBGPPathAttrOriginatorId (id : Bytes) : BGPPathAttrOriginatorId :=
  { flags := flagOptional, code := attrTypeOriginatorId, length := 4, bgpPathAttrLen := 3,
    value := id }

def newBGPPathAttrClusterList : BGPPathAttrClusterList :=
  { flags := flagOptional, code := attrTypeClusterList, length := 0, bgpPathAttrLen := 3,
    value := [] }

def BGPPathAttrClusterList.prependId (attr : BGPPathAttrClusterList) (id : UInt32) :
    BGPPathAttrClusterList :=
  { attr with value := id :: attr.value, length := attr.length + 4 }

/-- The list after a call of `PrependId` for each of the ids. -/
def clusterListOf (ids : List UInt32) : BGPPathAttrClusterList :=
  ids.foldl BGPPathAttrClusterList.prependId newBGPPathAttrClusterList

/-- The attributes other than AS paths, as they are made for a session with this AS size. -/
inductive BuiltAttr (asSize : UInt8) : BGPPathAttr → Prop where
  | origin {value : UInt8} (known : value < originMax) :
      BuiltAttr asSize (.origin (newBGPPathAttrOrigin value))
  | nextHop {address : Bytes} (family : InFamily afiIP address) :
      BuiltAttr asSize (.nextHop { newBGPPathAttrNextHop with value := address })
  | multiExitDisc (value : UInt32) :
      BuiltAttr asSize (.multiExitDisc { newBGPPathAttrMultiExitDisc with value := value })
  | localPref (value : UInt32) :
      BuiltAttr asSize (.localPref { newBGPPathAttrLocalPref with value := value })
  | atomicAggregate : BuiltAttr asSize (.atomicAggregate newBGPPathAttrAtomicAggregate)
  | aggregator {aggAS : BGPAggregatorAS} {ip : Bytes}
      (sized : aggAS.getLen.toNat = asSize.toNat) (four : ip.length = 4) :
      BuiltAttr asSize (.aggregator { newBGPPathAttrAggregator aggAS with ip := ip })
  | originatorId {id : Bytes} (four : id.length = 4) :
      BuiltAttr asSize (.originatorId (newBGPPathAttrOriginatorId id))
  | clusterList (ids : List UInt32) : BuiltAttr asSize (.clusterList (clusterListOf ids))

end Building

namespace BGPPathAttr

/-- The value of an attribute on the wire. -/
def valueWire : BGPPathAttr → Bytes
  | origin attr => [attr.value]
  | nextHop attr => attr.value.drop (attr.value.length - 4)
  | multiExitDisc attr => uint32Bytes attr.value
  | localPref attr => uint32Bytes attr.value
  | aggregator attr => attr.aggAS.bytes ++ attr.ip
  | originatorId attr => attr.value
  | clusterList attr => attr.value.flatMap uint32Bytes
  | _ => []

def wire (attr : BGPPathAttr) : Bytes := attr.base.headerBytes ++ attr.valueWire

/-- What is read back, where a list of clusters is as long as the low byte of its length says. -/
def seen : BGPPathAttr → BGPPathAttr
  | nextHop attr => .nextHop { attr with value := attr.value.drop (attr.value.length - 4) }
  | clusterList attr => .clusterList
      { attr.written with value := attr.value.take (attr.value.length % 64) }
  | attr => attr

/-- The attribute with its next hop as the text of the address. -/
def stated : BGPPathAttr → BGPPathAttr
  | nextHop attr => .nextHop { attr with value := ipString attr.value }
  | attr => attr

/-- A list of clusters has a length that one byte can say. -/
def Short : BGPPathAttr → Prop
  | clusterList attr => attr.value.length ≤ 63
  | _ => True

instance : (attr : BGPPathAttr) → Decidable attr.Short
  | clusterList attr => inferInstanceAs (Decidable (attr.value.length ≤ 63))
  | origin _ | asPath _ | nextHop _ | multiExitDisc _ | localPref _ | atomicAggregate _
  | aggregator _ | originatorId _ | mpReachNLRI _ | mpUnreachNLRI _ | as4Path _
  | as4Aggregator _ | unknown _ => .isTrue trivial

end BGPPathAttr

section Headers

/-- A header of three bytes that is accepted with the length it is written with. -/
structure ShortHeader (base : BGPPathAttrBase) : Prop where
  width : base.bgpPathAttrLen = 3
  short : base.flags &&& flagExtendedLen = 0
  accepted : base.written.Accepted

variable {base : BGPPathAttrBase}

/-- The header is as it is written when one byte holds the length. -/
theorem ShortHeader.written_eq (small : base.length.toNat < 256) : base.written = base :=
  BGPPathAttrBase.written_eq fun _ => small

theorem BGPAggregatorAS.bytes_length (aggAS : BGPAggregatorAS) :
    aggAS.bytes.length = aggAS.getLen.toNat ∧ aggAS.getLen.toNat ≤ 4 := by
  cases aggAS with
  | as2 number => exact ⟨rfl, (by decide : 2 ≤ 4)⟩
  | as4 number => exact ⟨rfl, le_refl 4⟩

namespace ShortHeader

variable (header : ShortHeader base)

include header

theorem headerExact : base.HeaderExact := by
  rw [BGPPathAttrBase.HeaderExact, if_neg (not_not.mpr header.short)]
  exact header.width

theorem headerBytes_eq : base.headerBytes = [base.flags, base.code, base.length.toUInt8] := by
  rw [BGPPathAttrBase.headerBytes, if_neg (not_not.mpr header.short)]

theorem three :
    base.headerBytes.length = base.bgpPathAttrLen.toNat ∧ base.bgpPathAttrLen.toNat = 3 := by
  rw [header.headerBytes_eq, header.width]
  exact ⟨rfl, rfl⟩

/-- What is stored or copied behind the header takes the place of the room for the value. -/
theorem encode {value : Bytes} (sized : base.length.toNat = value.length) :
    encodeStored base value = .ok (base.headerBytes ++ value) ∧
      encodeCopied base value = .ok (base.headerBytes ++ value) :=
  ⟨BGPPathAttrBase.encode_fill header.headerExact (storeAt_writes value) sized.symm,
    BGPPathAttrBase.encode_fill header.headerExact (copyAt_writes value) sized.symm⟩

theorem decode {rest : Bytes} (room : base.written.length.toNat ≤ rest.length) :
    BGPPathAttrBase.decode (base.headerBytes ++ rest) = .ok base.written :=
  BGPPathAttrBase.decode_headerBytes header.headerExact header.accepted room

/-- The value is found behind the header, as far as its length goes. -/
theorem valueBytes {value : Bytes}
    (sized : base.length.toNat = value.length) (small : value.length < 256) (tail : Bytes) :
    base.valueBytes (base.headerBytes ++ (value ++ tail)) = .ok value := by
  have ends : (base.bgpPathAttrLen + base.length).toNat = base.headerBytes.length + value.length := by
    rw [UInt16.toNat_add, header.three.1, header.three.2, sized]
    omega
  rw [BGPPathAttrBase.valueBytes, ends, ← header.three.1]
  exact slice_append _ _ _

/-- A header with its value is read back: the header, the value, and a copy of the value. -/
theorem reads {value : Bytes}
    (sized : base.length.toNat = value.length) (small : value.length < 256) (tail : Bytes) :
    BGPPathAttrBase.decode (base.headerBytes ++ (value ++ tail)) = .ok base ∧
      base.valueBytes (base.headerBytes ++ (value ++ tail)) = .ok value ∧
      (copyAt (zeros base.length.toNat) 0 value : Call Bytes) = .ok value := by
  have same := @ShortHeader.written_eq base (by omega)
  refine ⟨?_, header.valueBytes sized small tail, ?_⟩
  · have read := @ShortHeader.decode _ header (value ++ tail)
      (by rw [same, sized, length_append]; omega)
    rw [read, same]
  · rw [copyAt_zero, zeros_length, sized, take_length,
      drop_of_length_le (le_of_eq (zeros_length _)), append_nil]

/-- The address of an aggregator stands behind the header and the AS number. -/
theorem behind_number (aggAS : BGPAggregatorAS) :
    (base.bgpPathAttrLen + aggAS.getLen).toNat = base.bgpPathAttrLen.toNat + aggAS.bytes.length := by
  obtain ⟨wide, small⟩ := aggAS.bytes_length
  rw [UInt16.toNat_add, header.three.2, wide]
  omega

/-- The AS number and the address of an aggregator fill the room for the value. -/
theorem encodeAggregator {aggAS : BGPAggregatorAS}
    {ip : Bytes} (sized : base.length.toNat = (aggAS.bytes ++ ip).length) :
    encodeAggregator base aggAS ip = .ok (base.headerBytes ++ (aggAS.bytes ++ ip)) := by
  rw [Packet.encodeAggregator, header.behind_number aggAS]
  exact BGPPathAttrBase.encode_fill header.headerExact
    ((storeAt_writes aggAS.bytes).seq rfl (copyAt_writes ip)) sized.symm

/-- Both parts of an aggregator are read back, the AS number in the width of the session. -/
theorem decodeAggregator {aggAS : BGPAggregatorAS}
    {ip : Bytes} {peerAttrs : BGPPeerAttrs} (four : ip.length = 4)
    (agreed : aggAS.getLen.toNat = peerAttrs.asSize.toNat)
    (sized : base.length.toNat = 4 + aggAS.getLen.toNat) (tail : Bytes) :
    BGPPathAttrAggregator.decodeValue base
        (base.headerBytes ++ (aggAS.bytes ++ ip ++ tail)) peerAttrs =
      .ok { toBGPPathAttrBase := base, aggAS := aggAS, ip := ip } := by
  have enough : ¬ base.length < (peerAttrs.asSize + 4).toUInt16 := by
    have wide := aggAS.bytes_length.2
    rw [lt_iff_toNat_lt, UInt8.toNat_toUInt16, UInt8.toNat_add, sized, ← agreed]
    show ¬ 4 + aggAS.getLen.toNat < (aggAS.getLen.toNat + 4) % 256
    omega
  have first : Behind (base.headerBytes ++ (aggAS.bytes ++ ip ++ tail)) base.bgpPathAttrLen.toNat
      (aggAS.bytes ++ (ip ++ tail)) := ⟨base.headerBytes, by rw [append_assoc], header.three.1⟩
  have second := first.skip (header.behind_number aggAS)
  have number : BGPAggregatorAS.decode peerAttrs.asSize (aggAS.bytes ++ (ip ++ tail)) =
      .ok aggAS := by
    -- The width of the AS number is the one that the session has agreed on.
    cases aggAS with
    | as2 number =>
      have two : peerAttrs.asSize = 2 := UInt8.toNat_inj.mp agreed.symm
      have long : ¬ ip.length + tail.length + 1 + 1 < 2 := by omega
      simp [BGPAggregatorAS.decode, BGPAggregatorAS.bytes, two, slice, uint16Bytes, uint16_digits,
        long]
    | as4 number =>
      have four : peerAttrs.asSize = 4 := UInt8.toNat_inj.mp agreed.symm
      simp [BGPAggregatorAS.decode, BGPAggregatorAS.bytes, four, slice, uint32Bytes, uint32_digits]
  have address : (copyAt (zeros 4) 0 (ip ++ tail) : Call Bytes) = .ok ip := by
    rw [copyAt_zero, zeros_length, take_left' four,
      drop_of_length_le (by rw [zeros_length, length_append]; omega), append_nil]
  rw [BGPPathAttrAggregator.decodeValue]
  simp only [if_neg enough, first.sliceFrom, ok_bind, number, second.sliceFrom, address, pure_eq]

end ShortHeader

/-- Flags, length and code of a header are what the tables have for a short one. -/
def BGPPathAttrBase.FitsTables (base : BGPPathAttrBase) : Prop :=
  base.bgpPathAttrLen = 3 ∧
    attrTypeFlagsMap base.code = some (base.flags, flagAllMinusExtendedLen) ∧
    (base.flags = flagTransitive ∨ base.flags = flagOptional ∨
      base.flags = flagOptional ||| flagTransitive) ∧
    base.length.toNat < 256 ∧
    (attrTypeLenMap base.code = none ∨ attrTypeLenMap base.code = some base.length) ∧
    base.code < attrTypeUnknown

instance (base : BGPPathAttrBase) : Decidable base.FitsTables :=
  inferInstanceAs (Decidable (_ ∧ _))

theorem ShortHeader.of_tables (fits : base.FitsTables) : ShortHeader base := by
  obtain ⟨width, known, plain, small, sized, low⟩ := fits
  refine ⟨width, ?_, ?_⟩
  · rcases plain with same | same | same <;> rw [same] <;> decide
  · rw [ShortHeader.written_eq small]
    refine BGPPathAttrBase.accepted_of_table known plain (.inl rfl) ?_ low
    -- A length in the table is the one that the header has.
    intro length found
    rcases sized with none | same
    · cases none.symm.trans found
    · exact Option.some.inj (found.symm.trans same)

end Headers

section Clusters

/-- The header of a list with so many clusters. -/
def clusterBase (count : Nat) : BGPPathAttrBase :=
  ⟨flagOptional, attrTypeClusterList, UInt16.ofNat (4 * count), 3⟩

/-- The last id that was put in comes first, and the length counts four bytes for each. -/
theorem clusterListOf_eq (ids : List UInt32) :
    clusterListOf ids = { clusterBase ids.length with value := ids.reverse } := by
  have general : ∀ (ids done : List UInt32),
      ids.foldl BGPPathAttrClusterList.prependId { clusterBase done.length with value := done } =
        { clusterBase (ids.length + done.length) with value := ids.reverse ++ done } := by
    intro ids
    -- Each call is the same list with one id more in front.
    induction ids with
    | nil =>
      intro done
      simp
    | cons id rest ih =>
      intro done
      have grown : BGPPathAttrClusterList.prependId
          { clusterBase done.length with value := done } id =
          { clusterBase (id :: done).length with value := id :: done } := by
        simp [BGPPathAttrClusterList.prependId, clusterBase, Nat.mul_add, ofNat_add]
      rw [foldl_cons, grown, ih]
      simp [Nat.add_right_comm, Nat.add_assoc]
  have whole := general ids []
  rw [append_nil, length_nil, Nat.add_zero] at whole
  exact whole

theorem clusterWire_length (ids : List UInt32) :
    (ids.flatMap uint32Bytes).length = 4 * ids.length := by
  simp [length_flatMap, mul_comm]

/-- A reader sees the number of clusters modulo sixty-four. -/
theorem clusterBase_written (count : Nat) :
    (clusterBase count).written = clusterBase (count % 64) := by
  have plain : ¬ (clusterBase count).flags &&& flagExtendedLen ≠ 0 :=
    not_not.mpr (by decide : flagOptional &&& flagExtendedLen = 0)
  have length : (ofNat (4 * count)).toUInt8.toUInt16 = ofNat (4 * (count % 64)) := by
    apply UInt16.toNat_inj.mp
    rw [UInt8.toNat_toUInt16, UInt16.toNat_toUInt8, UInt16.toNat_ofNat', UInt16.toNat_ofNat']
    omega
  rw [BGPPathAttrBase.written, if_neg plain, clusterBase, clusterBase, length]

/-- The header is accepted whatever the number of clusters. -/
theorem clusterBase_short (count : Nat) : ShortHeader (clusterBase count) where
  width := rfl
  short := (by decide : flagOptional &&& flagExtendedLen = 0)
  accepted := by
    have unsized : attrTypeLenMap attrTypeClusterList = none := by decide
    rw [clusterBase_written]
    refine BGPPathAttrBase.accepted_of_table ?_ (.inr (.inl rfl)) (.inl rfl) ?_
      (by decide : attrTypeClusterList < _)
    · exact (by decide : attrTypeFlagsMap attrTypeClusterList =
        some (flagOptional, flagAllMinusExtendedLen))
    · intro length found
      cases unsized.symm.trans found

/-- The clusters are written one behind the other. -/
theorem clusters_encode {ids : List UInt32} {front room : Bytes} {start : Nat}
    (here : front.length = 3 + 4 * start) (fits : 4 * ids.length ≤ room.length)
    (small : 3 + 4 * (start + ids.length) < 65536) :
    (ids.zipIdx start).foldlM (fun pkt (entry : UInt32 × Nat) =>
        storeAt pkt ((3 : UInt16) + 4 * UInt16.ofNat entry.2).toNat (uint32Bytes entry.1))
      (front ++ room) =
      (.ok (front ++ ids.flatMap uint32Bytes ++ room.drop (4 * ids.length)) : Call Bytes) := by
  induction ids generalizing front room start with
  | nil => simp
  | cons id rest ih =>
    rw [length_cons] at fits small
    have position : ((3 : UInt16) + 4 * ofNat start).toNat = front.length := by
      rw [UInt16.toNat_add, UInt16.toNat_mul, UInt16.toNat_ofNat', here]
      show (3 + 4 * (start % 65536) % 65536) % 65536 = _
      omega
    -- The first cluster takes four bytes of the room, and the others follow it.
    have stored := @storeAt_append BGPMessageError front room (uint32Bytes id)
      (by rw [uint32Bytes_length]; omega)
    have others := @ih (front ++ uint32Bytes id) (room.drop 4) (start + 1)
      (by rw [length_append, uint32Bytes_length]; omega)
      (by rw [length_drop]; omega) (by omega)
    rw [zipIdx_cons, foldlM_cons, position, stored, ok_bind, uint32Bytes_length]
    refine others.trans ?_
    rw [drop_drop, flatMap_cons, length_cons, append_assoc front,
      show 4 + 4 * rest.length = 4 * (rest.length + 1) by omega]

theorem clusterList_encode {ids : List UInt32} (small : 4 * ids.length ≤ 4096) :
    BGPPathAttrClusterList.encode { clusterBase ids.length with value := ids } =
      .ok ((clusterBase ids.length).headerBytes ++ ids.flatMap uint32Bytes) := by
  have header := clusterBase_short ids.length
  have length : (clusterBase ids.length).length.toNat = 4 * ids.length := by
    rw [clusterBase, toNat_ofNat']
    omega
  have count : ids.take (ofNat ids.length).toNat = ids := by
    rw [toNat_ofNat', Nat.mod_eq_of_lt (by omega), take_length]
  have stored := @clusters_encode ids (clusterBase ids.length).headerBytes _
    0 header.three.1 (le_of_eq (zeros_length _).symm) (by omega)
  have ended : (zeros (4 * ids.length)).drop (4 * ids.length) = [] :=
    drop_of_length_le (le_of_eq (zeros_length _))
  rw [BGPPathAttrClusterList.encode, BGPPathAttrBase.encode_header header.headerExact,
    ok_bind, length]
  rw [count]
  refine stored.trans ?_
  rw [ended, append_nil]

/-- As many clusters are read as are asked for. -/
theorem readClusters_eq {ids : List UInt32} {pkt tail : Bytes} {count : Nat} {i : UInt16}
    (behind : Behind pkt (3 + 4 * i.toNat) (ids.flatMap uint32Bytes ++ tail))
    (within : count ≤ ids.length) (small : 3 + 4 * (i.toNat + count) < 65536) :
    readClusters pkt 3 count i = .ok (ids.take count) := by
  induction count generalizing ids i with
  | zero => rfl
  | succ count ih =>
    match ids, within with
    | id :: rest, within =>
      rw [flatMap_cons, append_assoc] at behind
      have low : ((3 : UInt16) + 4 * i).toNat = 3 + 4 * i.toNat := by
        rw [UInt16.toNat_add, UInt16.toNat_mul]
        show (3 + 4 * i.toNat % 65536) % 65536 = _
        omega
      have high : ((3 : UInt16) + 4 * i + 4).toNat = 3 + 4 * i.toNat + (uint32Bytes id).length := by
        rw [UInt16.toNat_add, low]
        show (3 + 4 * i.toNat + 4) % 65536 = 3 + 4 * i.toNat + 4
        omega
      have next : (i + 1).toNat = i.toNat + 1 := by
        rw [UInt16.toNat_add]
        show (i.toNat + 1) % 65536 = _
        omega
      have others := @ih rest (i + 1) (behind.skip (by rw [next, uint32Bytes_length]; omega))
        (Nat.le_of_succ_le_succ within) (by omega)
      rw [readClusters, low, high, behind.slice, ok_bind, uint32_all, ok_bind, others]
      rfl

/-- A list is read back as far as the low byte of its length goes. -/
theorem clusterList_decode (ids : List UInt32) (tail : Bytes) : BGPPathAttrClusterList.decode
        ((clusterBase ids.length).headerBytes ++ (ids.flatMap uint32Bytes ++ tail)) =
      .ok { (clusterBase ids.length).written with value := ids.take (ids.length % 64) } := by
  have header := clusterBase_short ids.length
  have written := clusterBase_written ids.length
  have length : (clusterBase (ids.length % 64)).length.toNat = 4 * (ids.length % 64) := by
    rw [clusterBase, toNat_ofNat']
    omega
  have size := clusterWire_length ids
  have within : ids.length % 64 ≤ ids.length := Nat.mod_le _ _
  have read := @ShortHeader.decode _ header (ids.flatMap uint32Bytes ++ tail)
    (by rw [written, length, length_append, size]; omega)
  have count : ((clusterBase (ids.length % 64)).length / 4).toNat = ids.length % 64 := by
    rw [UInt16.toNat_div, length]
    show 4 * (ids.length % 64) / 4 = _
    omega
  have clusters := @readClusters_eq ids _ tail _ 0
    ⟨(clusterBase ids.length).headerBytes, rfl, header.three.1⟩ within
    (by rw [UInt16.toNat_zero]; omega)
  rw [BGPPathAttrClusterList.decode, read, ok_bind, written, count]
  refine (congrArg (· >>= _) clusters).trans ?_
  rfl

end Clusters

section Attributes

variable {peerAttrs : BGPPeerAttrs} {attr : BGPPathAttr}

/-- Each attribute is made with the flags and the length that the tables ask for. -/
theorem BuiltAttr.header (built : BuiltAttr peerAttrs.asSize attr) : ShortHeader attr.base := by
  cases built with
  | origin known =>
    exact @ShortHeader.of_tables ⟨0x40, attrTypeOrigin, 1, 3⟩ (by decide)
  | nextHop family =>
    exact @ShortHeader.of_tables ⟨0x40, attrTypeNextHop, 4, 3⟩ (by decide)
  | multiExitDisc value =>
    exact @ShortHeader.of_tables ⟨0x80, attrTypeMultiExitDisc, 4, 3⟩ (by decide)
  | localPref value =>
    exact @ShortHeader.of_tables ⟨flagTransitive, attrTypeLocalPref, 4, 3⟩ (by decide)
  | atomicAggregate => exact .of_tables (by decide)
  | @aggregator aggAS ip sized four =>
    -- The AS number has two bytes or four.
    cases aggAS with
    | as2 number =>
      exact @ShortHeader.of_tables ⟨flagTransitive ||| flagOptional, attrTypeAggregator, 4 + 2, 3⟩
        (by decide)
    | as4 number =>
      exact @ShortHeader.of_tables ⟨flagTransitive ||| flagOptional, attrTypeAggregator, 4 + 4, 3⟩
        (by decide)
  | originatorId four =>
    exact @ShortHeader.of_tables ⟨flagOptional, attrTypeOriginatorId, 4, 3⟩ (by decide)
  | clusterList ids =>
    rw [clusterListOf_eq]
    exact clusterBase_short ids.length

theorem InFamily.last_four {address : Bytes} (family : InFamily afiIP address) :
    4 ≤ address.length ∧ ipString address = address.drop (address.length - 4) := by
  rw [ipString]
  rcases family with four | ⟨sixteen, mapped⟩
  · rw [if_neg (by omega), four]
    exact ⟨le_refl 4, rfl⟩
  · rw [if_pos ⟨sixteen, mapped⟩, sixteen]
    exact ⟨by decide, rfl⟩

namespace BuiltAttr

variable (built : BuiltAttr peerAttrs.asSize attr)

include built

/-- The length of an attribute is that of its value, unless a list of clusters is too long. -/
theorem length_toNat
    (small : attr.wire.length ≤ 4096) : attr.base.length.toNat = attr.valueWire.length := by
  cases built with
  | origin known => rfl
  | @nextHop address family =>
    have long := family.last_four.1
    show 4 = (address.drop (address.length - 4)).length
    rw [length_drop]
    omega
  | multiExitDisc value => rfl
  | localPref value => rfl
  | atomicAggregate => rfl
  | @aggregator aggAS ip sized four =>
    show (4 + aggAS.getLen).toNat = (aggAS.bytes ++ ip).length
    rw [length_append, four]
    cases aggAS <;> rfl
  | @originatorId id four => exact four.symm
  | clusterList ids =>
    have size := clusterWire_length ids.reverse
    rw [length_reverse] at size
    rw [BGPPathAttr.wire, length_append] at small
    show (clusterListOf ids).length.toNat = ((clusterListOf ids).value.flatMap uint32Bytes).length
    change _ + ((clusterListOf ids).value.flatMap uint32Bytes).length ≤ 4096 at small
    rw [clusterListOf_eq] at small ⊢
    show (ofNat (4 * ids.length)).toNat = _
    rw [size] at small ⊢
    rw [toNat_ofNat']
    exact Nat.mod_eq_of_lt (by omega)

/-- Each attribute is written as its header and its value. -/
theorem encode (small : attr.wire.length ≤ 4096) : attr.encode = .ok attr.wire := by
  have header := built.header
  have sized := built.length_toNat small
  have filled := header.encode sized
  cases built with
  | origin known => exact filled.1
  | @nextHop address family =>
    -- The last four bytes of either form of the address are copied.
    have last := lastBytes_eq family.last_four.1
    refine Eq.trans ?_ filled.2
    show (BGPPathAttrBase.encode _ >>= fun pkt => lastBytes address [] 4 >>= fun value =>
      copyAt pkt 3 value) = _
    rw [last]
    rfl
  | multiExitDisc value | localPref value => exact filled.1
  | atomicAggregate => exact BGPPathAttrBase.encode_header header.headerExact
  | @aggregator aggAS ip agreed four => exact header.encodeAggregator sized
  | originatorId four => exact filled.2
  | clusterList ids =>
    have size := clusterWire_length ids.reverse
    rw [length_reverse] at size
    rw [BGPPathAttr.wire, length_append] at small
    change _ + ((clusterListOf ids).value.flatMap uint32Bytes).length ≤ 4096 at small
    rw [clusterListOf_eq] at small ⊢
    rw [size] at small
    have written := @clusterList_encode ids.reverse (by rw [length_reverse]; omega)
    rw [length_reverse] at written
    exact written

/-- Each attribute is read back from in front of whatever follows it, a long list cut short. -/
theorem decode (small : attr.wire.length ≤ 4096) (fuel : Nat) (tail : Bytes) :
    BGPPathAttr.decode fuel (attr.wire ++ tail) peerAttrs = .ok attr.seen := by
  have header := built.header
  have sized := built.length_toNat small
  rw [BGPPathAttr.wire, append_assoc]
  -- In each case the code in the header leads to the decoder of the kind.
  cases built with
  | @origin value known =>
    obtain ⟨read, _, _⟩ := header.reads sized (by decide : 1 < 256) tail
    have valid : ¬ value ≥ originMax := UInt8.not_le.mpr known
    have first : (index ((BGPPathAttr.origin (newBGPPathAttrOrigin value)).base.headerBytes ++
        ((BGPPathAttr.origin (newBGPPathAttrOrigin value)).valueWire ++ tail)) 3 : Call UInt8) =
        .ok value := by
      rw [header.headerBytes_eq]
      rfl
    show (BGPPathAttrOrigin.decode _ >>= _) = _
    rw [BGPPathAttrOrigin.decode, read, ok_bind]
    show ((index _ 3 >>= _) >>= _) = _
    rw [first]
    simp only [ok_bind, if_neg valid]
    rfl
  | @nextHop address family =>
    have four : (address.drop (address.length - 4)).length = 4 := sized.symm
    obtain ⟨read, bytes, copied⟩ := header.reads sized
      (show (address.drop (address.length - 4)).length < 256 by omega) tail
    show (BGPPathAttrNextHop.decode _ >>= _) = _
    rw [BGPPathAttrNextHop.decode, read, ok_bind, bytes, ok_bind, copied]
    rfl
  | multiExitDisc value =>
    obtain ⟨read, bytes, _⟩ := header.reads sized (by decide : 4 < 256) tail
    show (BGPPathAttrMultiExitDisc.decode _ >>= _) = _
    rw [BGPPathAttrMultiExitDisc.decode, read, ok_bind, bytes, ok_bind]
    exact congrArg (fun number => (number >>= _) >>= _) (uint32_digits value)
  | localPref value =>
    obtain ⟨read, bytes, _⟩ := header.reads sized (by decide : 4 < 256) tail
    show (BGPPathAttrLocalPref.decode _ >>= _) = _
    rw [BGPPathAttrLocalPref.decode, read, ok_bind, bytes, ok_bind]
    exact congrArg (fun number => (number >>= _) >>= _) (uint32_digits value)
  | atomicAggregate =>
    obtain ⟨read, _, _⟩ := header.reads sized (by decide : 0 < 256) tail
    have code : (index ((BGPPathAttr.atomicAggregate newBGPPathAttrAtomicAggregate).base.headerBytes
        ++ ((BGPPathAttr.atomicAggregate newBGPPathAttrAtomicAggregate).valueWire ++ tail)) 1 :
        Call UInt8) = .ok attrTypeAtomicAggregate := rfl
    rw [BGPPathAttr.decode, code, ok_bind, if_neg (by decide), if_neg (by decide),
      if_neg (by decide), if_neg (by decide), if_neg (by decide), if_pos rfl, read]
    rfl
  | @aggregator aggAS ip agreed four =>
    obtain ⟨wide, few⟩ := aggAS.bytes_length
    have whole : (aggAS.bytes ++ ip).length = 4 + aggAS.getLen.toNat := by
      rw [length_append, wide, four, add_comm]
    obtain ⟨read, _, _⟩ := header.reads sized (show (aggAS.bytes ++ ip).length < 256 by omega) tail
    have parts := header.decodeAggregator four agreed (sized.trans whole) tail
    show (BGPPathAttrAggregator.decode _ peerAttrs >>= _) = _
    rw [BGPPathAttrAggregator.decode, read, ok_bind]
    refine (congrArg (· >>= _) parts).trans ?_
    rfl
  | @originatorId id four =>
    obtain ⟨read, bytes, copied⟩ := header.reads sized (show id.length < 256 by omega) tail
    show (BGPPathAttrOriginatorId.decode _ >>= _) = _
    rw [BGPPathAttrOriginatorId.decode, read, ok_bind, bytes, ok_bind, copied]
    rfl
  | clusterList ids =>
    have list := clusterList_decode ids.reverse tail
    rw [clusterListOf_eq, ← length_reverse]
    show (BGPPathAttrClusterList.decode _ >>= _) = _
    refine (congrArg (· >>= _) list).trans ?_
    rfl

/-- What is read back says the same as what was written, just when no list is too long. -/
theorem seen_stated_iff : attr.seen.stated = attr.stated ↔ attr.Short := by
  cases built with
  | origin known => exact iff_of_true rfl trivial
  | @nextHop address family =>
    refine iff_of_true ?_ trivial
    obtain ⟨long, text⟩ := family.last_four
    have again : ipString (address.drop (address.length - 4)) =
        address.drop (address.length - 4) := by
      rw [ipString, if_neg]
      intro sixteen
      rw [length_drop] at sixteen
      omega
    show BGPPathAttr.nextHop _ = BGPPathAttr.nextHop _
    simp only [again, text]
  | multiExitDisc value | localPref value | atomicAggregate | aggregator sized four | originatorId four =>
    exact iff_of_true rfl trivial
  | clusterList ids =>
    show BGPPathAttr.clusterList { (clusterListOf ids).written with
        value := (clusterListOf ids).value.take ((clusterListOf ids).value.length % 64) } =
      BGPPathAttr.clusterList (clusterListOf ids) ↔ (clusterListOf ids).value.length ≤ 63
    rw [clusterListOf_eq, clusterBase_written, length_reverse]
    constructor
    · intro same
      have lists := congrArg (fun attr : BGPPathAttr => attr.valueWire.length) same
      change ((ids.reverse.take (ids.length % 64)).flatMap uint32Bytes).length =
        (ids.reverse.flatMap uint32Bytes).length at lists
      rw [clusterWire_length, clusterWire_length, length_take, length_reverse] at lists
      omega
    · intro few
      rw [Nat.mod_eq_of_lt (Nat.lt_succ_of_le few), take_of_length_le (le_of_eq length_reverse)]

/-- A short attribute is stepped over as a whole. -/
theorem seen_totalLen (small : attr.wire.length ≤ 4096) (short : attr.Short) :
    attr.seen.totalLen.toNat = attr.wire.length := by
  have header := built.header
  have base : attr.seen.base = attr.base := by
    cases built with
    | clusterList ids =>
      have few : (clusterListOf ids).value.length ≤ 63 := short
      show (clusterListOf ids).written = (clusterListOf ids).toBGPPathAttrBase
      rw [clusterListOf_eq] at few ⊢
      rw [length_reverse] at few
      rw [clusterBase_written, Nat.mod_eq_of_lt (Nat.lt_succ_of_le few)]
    | origin | nextHop | multiExitDisc | localPref | atomicAggregate | aggregator | originatorId =>
      rfl
  rw [BGPPathAttr.totalLen, base, BGPPathAttrBase.totalLen_toNat, built.length_toNat small,
    BGPPathAttr.wire, length_append, header.three.1, add_comm]

end BuiltAttr

end Attributes

end FlexSwitch.Packet
