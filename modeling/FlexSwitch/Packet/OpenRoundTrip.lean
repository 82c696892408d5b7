import FlexSwitch.Packet.OpenEncode
import FlexSwitch.Packet.OpenScan

/-! OPEN messages on the wire: what they are written as, and that all of it is read back. -/

namespace FlexSwitch.Packet

open Go List Outcome UInt8
open Rib (IPText getAfi ipString to4 to4_cases v4InV6Prefix)

section Wire

def AddPathAFISAFI.wire (family : AddPathAFISAFI) : Bytes :=
  uint16Bytes family.afi ++ [family.safi, family.flags]

/-- The capability with these entries, and a length that counts their bytes. -/
def addPathCapability (families : List AddPathAFISAFI) : BGPCapAddPath :=
  { type := capTypeAddPath, len := UInt8.ofNat (4 * families.length), value := families }

namespace BGPCapability

/-- The value of a capability on the wire. -/
def valueWire : BGPCapability → Bytes
  | mpExt cap => uint16Bytes cap.afi ++ [0, cap.safi]
  | as4Path cap => uint32Bytes cap.value
  | addPath cap => cap.value.flatMap AddPathAFISAFI.wire
  | unknown cap => cap.value

/-- A capability on the wire: its type, its length, and its value. -/
def wire (cap : BGPCapability) : Bytes :=
  cap.base.type :: cap.base.len :: cap.valueWire

/-- The capabilities of our own messages, with families that one byte can count the bytes of. -/
inductive Built : BGPCapability → Prop where
  | mpExt (afi : UInt16) (safi : UInt8) : Built (.mpExt (newBGPCapMPExt afi safi))
  | as4Path (as : UInt32) : Built (.as4Path (newBGPCap4ByteASPath as))
  | addPath {families : List AddPathAFISAFI} (small : 4 * families.length ≤ 252) :
      Built (.addPath (addPathCapability families))

end BGPCapability

def capsWire (caps : List BGPCapability) : Bytes :=
  caps.flatMap BGPCapability.wire

def BGPOptParamCapability.wire (param : BGPOptParamCapability) : Bytes :=
  param.type :: param.len :: capsWire param.value

/-- As many bytes as optional parameters take. -/
def optParamBytes (optParams : List BGPOptParamCapability) : Nat :=
  (optParams.flatMap BGPOptParamCapability.wire).length

end Wire

section Capabilities

variable {cap : BGPCapability} {families : List AddPathAFISAFI}

theorem addPathWire_length (families : List AddPathAFISAFI) :
    (families.flatMap AddPathAFISAFI.wire).length = 4 * families.length := by
  -- Every entry takes four bytes.
  induction families with
  | nil => rfl
  | cons family rest ih =>
    rw [flatMap_cons, length_append, ih, length_cons]
    show 4 + 4 * rest.length = _
    omega

/-- The length that a capability announces is the length of its value. -/
theorem BGPCapability.Built.len_toNat (built : cap.Built) :
    cap.base.len.toNat = cap.valueWire.length := by
  cases built with
  | mpExt afi safi => rfl
  | as4Path as => rfl
  | @addPath families small =>
    show (ofNat (4 * families.length)).toNat = (families.flatMap AddPathAFISAFI.wire).length
    rw [addPathWire_length, toNat_ofNat']
    exact Nat.mod_eq_of_lt (by omega)

theorem BGPCapability.Built.totalLen_toNat (built : cap.Built) :
    cap.totalLen.toNat = cap.wire.length := by
  rw [BGPCapability.totalLen, BGPCapabilityBase.totalLen_toNat, built.len_toNat]
  rfl

theorem BGPCapabilityBase.encode_eq (base : BGPCapabilityBase) :
    base.encode = .ok (base.type :: base.len :: zeros base.len.toNat) := by
  -- Both bytes are inside the buffer, which has two bytes more than the value.
  have total := base.totalLen_toNat
  rw [BGPCapabilityBase.encode, total]
  rfl

theorem AddPathAFISAFI.writes (family : AddPathAFISAFI) : Writes family.encode family.wire :=
  (storeAt_writes _).seq rfl
    ((storeAt_writes [family.safi]).seq rfl (storeAt_writes [family.flags]))

/-- The entries are written one behind the other, each at the offset of eight bits. -/
theorem addPathEntries_encode {front room : Bytes} {offset : UInt8}
    (here : offset.toNat = front.length) (fits : 4 * families.length ≤ room.length)
    (small : front.length + 4 * families.length < 256) :
    families.foldlM (fun (state : Bytes × UInt8) family => do
        let (pkt, offset) := state
        return (← family.encode pkt offset.toNat, offset + AddPathAFISAFI.len))
      (front ++ room, offset) =
      (.ok (front ++ families.flatMap AddPathAFISAFI.wire ++ room.drop (4 * families.length),
        offset + ofNat (4 * families.length)) : Call (Bytes × UInt8)) := by
  induction families generalizing front room offset with
  | nil => simp
  | cons family rest ih =>
    rw [length_cons] at fits small
    -- The first entry fills the next four bytes of the room.
    have written := family.writes front room (by simp [AddPathAFISAFI.wire]; omega)
    rw [← here] at written
    have moved : (offset + AddPathAFISAFI.len).toNat = (front ++ family.wire).length := by
      rw [UInt8.toNat_add, here, length_append]
      show (front.length + 4) % 256 = front.length + 4
      omega
    have wide : family.wire.length = 4 := rfl
    have others := @ih _ (room.drop 4) _ moved
      (by rw [length_drop]; omega) (by rw [length_append, wide]; omega)
    have sum : offset + AddPathAFISAFI.len + ofNat (4 * rest.length) =
        offset + ofNat (4 * (rest.length + 1)) := by
      apply UInt8.toNat_inj.mp
      rw [UInt8.toNat_add, moved, UInt8.toNat_add, here, UInt8.toNat_ofNat', UInt8.toNat_ofNat',
        length_append, wide]
      omega
    rw [foldlM_cons]
    show (family.encode (front ++ room) offset.toNat >>= _) >>= _ = _
    rw [written, ok_bind, pure_eq, ok_bind]
    refine others.trans ?_
    rw [sum, drop_drop, flatMap_cons, length_cons, append_assoc front,
      show 4 + 4 * rest.length = 4 * (rest.length + 1) by omega]

/-- Each capability is written as its type, its length and its value. -/
theorem BGPCapability.Built.encode (built : cap.Built) : cap.encode = .ok cap.wire := by
  cases built with
  | mpExt afi safi => rfl
  | as4Path as => rfl
  | @addPath families small =>
    -- The buffer behind the two bytes is exactly as long as the entries are.
    have len : (addPathCapability families).len.toNat = 4 * families.length := by
      rw [← addPathWire_length]
      exact (BGPCapability.Built.addPath small).len_toNat
    have entries := @addPathEntries_encode families
      [capTypeAddPath, ofNat (4 * families.length)] _ 2 rfl
      (le_of_eq (zeros_length _).symm)
      (by simp only [length_cons, length_nil]; omega)
    have ended : (zeros (4 * families.length)).drop (4 * families.length) = [] :=
      drop_of_length_le (le_of_eq (zeros_length _))
    show BGPCapAddPath.encode (addPathCapability families) = _
    rw [BGPCapAddPath.encode, BGPCapabilityBase.encode_eq, ok_bind, len]
    refine (congrArg (· >>= _) entries).trans ?_
    rw [ok_bind, ended, append_nil]
    rfl

theorem AddPathAFISAFI.decode_wire (family : AddPathAFISAFI) (tail : Bytes) :
    AddPathAFISAFI.decode (family.wire ++ tail) = .ok family := by
  have long : ¬ (family.wire ++ tail).length < 4 := not_lt.mpr (Nat.le_add_left 4 tail.length)
  rw [AddPathAFISAFI.decode, if_neg long, AddPathAFISAFI.wire, append_assoc, uint16_uint16Bytes]
  rfl

/-- The loop over the entries gives them back, behind what it has read so far. -/
theorem addPathLoop_reads {base : BGPCapabilityBase} {pkt tail : Bytes} {cursor : AddPathCursor}
    (behind : Behind pkt cursor.offset.toNat (families.flatMap AddPathAFISAFI.wire ++ tail))
    (ends : base.len.toNat + 2 = cursor.offset.toNat + 4 * families.length)
    (small : base.len.toNat ≤ 252) {fuel : Nat} (enough : families.length < fuel) :
    loop (addPathRound base pkt) fuel cursor =
      .ok { toBGPCapabilityBase := base, value := cursor.value ++ families } := by
  refine loop_takes (fun state left =>
    Behind pkt state.offset.toNat (left.flatMap AddPathAFISAFI.wire ++ tail) ∧
      base.len.toNat + 2 = state.offset.toNat + 4 * left.length ∧
      state.value ++ left = cursor.value ++ families) ?_ ?_ ⟨behind, ends, rfl⟩ enough
  · rintro state family rest ⟨behind, ends, all⟩
    rw [flatMap_cons, append_assoc] at behind
    rw [length_cons] at ends
    have before : state.offset < base.len.toUInt16 := by
      rw [UInt16.lt_iff_toNat_lt, toNat_toUInt16]
      omega
    have moved : (state.offset + AddPathAFISAFI.len.toUInt16).toNat = state.offset.toNat + 4 := by
      rw [UInt16.toNat_add]
      show (state.offset.toNat + 4) % 65536 = _
      omega
    -- One round reads the entry and steps over it.
    refine ⟨⟨_, state.value ++ [family]⟩, ?_, behind.skip moved, by dsimp only; omega,
      by rw [append_assoc]; exact all⟩
    rw [addPathRound, if_pos before, behind.sliceFrom, ok_bind, family.decode_wire]
    rfl
  · rintro state ⟨_, ends, all⟩
    rw [length_nil] at ends
    rw [append_nil] at all
    have behind : ¬ state.offset < base.len.toUInt16 := by
      rw [UInt16.lt_iff_toNat_lt, toNat_toUInt16]
      omega
    -- The offset is past the length by the two bytes in front, which the check allows.
    have past : ¬ state.offset > (base.len + 2).toUInt16 := by
      rw [gt_iff_lt, UInt16.lt_iff_toNat_lt, UInt8.toNat_toUInt16, UInt8.toNat_add]
      simp only [reduceToNat]
      omega
    rw [addPathRound, if_neg behind, if_neg past, all]
    rfl

/-- Each capability is read back from in front of whatever follows it. -/
theorem BGPCapability.Built.decode (built : cap.Built) (tail : Bytes) {fuel : Nat}
    (enough : 65 ≤ fuel) : BGPCapability.decode fuel (cap.wire ++ tail) = .ok cap := by
  -- The type byte leads to the decoder of the kind, and the value is there as announced.
  have taken : BGPCapabilityBase.decode (cap.wire ++ tail) = .ok cap.base := by
    have len := built.len_toNat
    show BGPCapabilityBase.decode (_ :: _ :: (cap.valueWire ++ tail)) = _
    rw [BGPCapabilityBase.decode_cons, if_pos (by rw [length_append]; omega)]
  cases built with
  | mpExt afi safi =>
    have first : (index ((BGPCapability.mpExt (newBGPCapMPExt afi safi)).wire ++ tail) 0 :
        Call UInt8) = .ok capTypeMPExt := rfl
    have value : (sliceFrom ((BGPCapability.mpExt (newBGPCapMPExt afi safi)).wire ++ tail) 2 :
        Call Bytes) = .ok (uint16Bytes afi ++ ([0, safi] ++ tail)) :=
      sliceFrom_append [capTypeMPExt, 4] _
    rw [BGPCapability.decode, first, ok_bind, if_pos rfl, BGPCapMPExt.decode, taken,
      ok_bind, value, ok_bind, uint16_uint16Bytes, ok_bind]
    rfl
  | as4Path as =>
    have first : (index ((BGPCapability.as4Path (newBGPCap4ByteASPath as)).wire ++ tail) 0 :
        Call UInt8) = .ok capTypeAS4Path := rfl
    have value : (sliceFrom ((BGPCapability.as4Path (newBGPCap4ByteASPath as)).wire ++ tail) 2 :
        Call Bytes) = .ok (uint32Bytes as ++ tail) :=
      sliceFrom_append [capTypeAS4Path, 4] _
    rw [BGPCapability.decode, first, ok_bind, if_neg (by decide), if_pos rfl,
      BGPCapAS4Path.decode, taken, ok_bind, value, ok_bind, uint32_uint32Bytes,
      ok_bind]
    rfl
  | @addPath families small =>
    have first : (index ((BGPCapability.addPath (addPathCapability families)).wire ++ tail) 0 :
        Call UInt8) = .ok capTypeAddPath := rfl
    have len := (BGPCapability.Built.addPath small).len_toNat
    have size : (BGPCapability.addPath (addPathCapability families)).valueWire.length =
        4 * families.length := addPathWire_length families
    have read := @addPathLoop_reads families
      (BGPCapability.addPath _).base _ tail ⟨2, []⟩
      ⟨[capTypeAddPath, ofNat (4 * families.length)], rfl, rfl⟩
      (by rw [len, size]; exact add_comm _ _) (by omega) fuel (by omega)
    rw [BGPCapability.decode, first, ok_bind, if_neg (by decide), if_neg (by decide),
      if_pos rfl, BGPCapAddPath.decode, taken, ok_bind]
    refine (congrArg (· >>= _) read).trans ?_
    rfl

end Capabilities

section Parameter

variable {caps : List BGPCapability}

theorem capabilities_length_le (caps : List BGPCapability) :
    caps.length ≤ (capsWire caps).length := by
  -- Each capability has at least its type and its length.
  induction caps with
  | nil => exact le_refl 0
  | cons cap rest ih =>
    rw [capsWire, flatMap_cons, length_append, length_cons]
    show rest.length + 1 ≤ cap.valueWire.length + 2 + (capsWire rest).length
    omega

variable (built : ∀ cap ∈ caps, cap.Built)

include built

/-- The loop over capabilities gives them back, behind what it has read so far. -/
theorem capLoop_reads {base : BGPOptParamBase} {pkt tail : Bytes} {cursor : CapCursor}
    (behind : Behind pkt cursor.offset.toNat (capsWire caps ++ tail))
    (left : cursor.paramsLen = (capsWire caps).length)
    (small : cursor.offset.toNat + (capsWire caps).length < 65536) {inner fuel : Nat}
    (inside : 65 ≤ inner) (enough : caps.length < fuel) :
    loop (capRound inner base pkt) fuel cursor =
      .ok { toBGPOptParamBase := base, value := cursor.value ++ caps } := by
  refine loop_takes (fun (state : CapCursor) rest =>
    Behind pkt state.offset.toNat (capsWire rest ++ tail) ∧ state.paramsLen = (capsWire rest).length ∧
      state.offset.toNat + (capsWire rest).length < 65536 ∧ (∀ cap ∈ rest, cap.Built) ∧
      state.value ++ rest = cursor.value ++ caps) ?_ ?_ ⟨behind, left, small, built, rfl⟩
    enough
  · rintro state cap rest ⟨behind, left, small, built, all⟩
    have first := built cap mem_cons_self
    have some : 2 ≤ cap.wire.length := by
      show 2 ≤ cap.valueWire.length + 2
      omega
    rw [capsWire, flatMap_cons] at behind left small
    rw [length_append] at left small
    rw [append_assoc] at behind
    have moved : (state.offset + cap.totalLen).toNat = state.offset.toNat + cap.wire.length := by
      rw [UInt16.toNat_add, first.totalLen_toNat]
      omega
    -- One round reads the capability and steps over it.
    refine ⟨⟨_, state.paramsLen - cap.totalLen.toNat, state.value ++ [cap]⟩, ?_,
      behind.skip moved, ?_, ?_, fun other member => built other (.tail _ member),
      by rw [append_assoc]; exact all⟩
    · rw [capRound, if_pos (by omega), behind.sliceFrom, ok_bind, first.decode _ inside]
      rfl
    · rw [left, first.totalLen_toNat, Nat.cast_add]
      exact add_sub_cancel_left _ _
    · rw [moved, add_assoc]
      exact small
  · rintro state ⟨_, left, _, _, all⟩
    have none : state.paramsLen = 0 := left
    rw [append_nil] at all
    rw [capRound, if_neg (by omega), if_neg (by omega), all]
    rfl

/-- The sum of the lengths is what the capabilities take up. -/
theorem capLengths_toNat {sum : UInt16}
    (small : sum.toNat + (capsWire caps).length < 65536) :
    (caps.foldl (fun sum cap => sum + cap.totalLen) sum).toNat =
      sum.toNat + (capsWire caps).length := by
  induction caps generalizing sum with
  | nil => rfl
  | cons cap rest ih =>
    have total := (built cap mem_cons_self).totalLen_toNat
    have whole : (capsWire (cap :: rest)).length = cap.wire.length + (capsWire rest).length := by
      rw [capsWire, flatMap_cons, length_append]
      rfl
    have step : (sum + cap.totalLen).toNat = sum.toNat + cap.wire.length := by
      rw [UInt16.toNat_add, total]
      omega
    rw [foldl_cons, ih (fun other member => built other (mem_cons_of_mem _ member))
      (by omega), step, whole]
    omega

/-- The parameter announces as many bytes as its capabilities take, while these fit. -/
theorem newBGPOptParamCapability_len (fits : (capsWire caps).length ≤ 255) :
    (newBGPOptParamCapability caps).len.toNat = (capsWire caps).length := by
  have sum := @capLengths_toNat caps built 0 (by rw [UInt16.toNat_zero]; omega)
  rw [UInt16.toNat_zero, zero_add] at sum
  show (UInt16.toUInt8 _).toNat = _
  rw [UInt16.toNat_toUInt8, sum]
  omega

theorem newBGPOptParamCapability_totalLen
    (fits : (newBGPOptParamCapability caps).wire.length ≤ 255) :
    (newBGPOptParamCapability caps).totalLen.toNat =
      (newBGPOptParamCapability caps).wire.length := by
  have size : (newBGPOptParamCapability caps).wire.length = (capsWire caps).length + 2 := rfl
  rw [BGPOptParamBase.totalLen, UInt8.toNat_add, newBGPOptParamCapability_len built (by omega),
    size]
  show ((capsWire caps).length + 2) % 256 = _
  omega

theorem newBGPOptParamCapability_encode : (newBGPOptParamCapability caps).encode =
      .ok (newBGPOptParamCapability caps).wire := by
  have header : (newBGPOptParamCapability caps).toBGPOptParamBase.encode =
      .ok [optParamTypeCapability, (newBGPOptParamCapability caps).len] := rfl
  rw [BGPOptParamCapability.encode, header, ok_bind]
  exact foldlM_append (fun cap member => (built cap member).encode) _

theorem newBGPOptParamCapability_decode
    (fits : (newBGPOptParamCapability caps).wire.length ≤ 255) {fuel : Nat}
    (enough : 256 ≤ fuel) :
    BGPOptParamCapability.decode fuel (newBGPOptParamCapability caps).wire =
      .ok (newBGPOptParamCapability caps) := by
  have size : (newBGPOptParamCapability caps).wire.length = (capsWire caps).length + 2 := rfl
  have len := newBGPOptParamCapability_len built (by omega)
  have total := newBGPOptParamCapability_totalLen built fits
  -- The header is read, and then the loop reads just what it announces.
  have header : BGPOptParamBase.decode (newBGPOptParamCapability caps).wire =
      .ok (newBGPOptParamCapability caps).toBGPOptParamBase := by
    rw [BGPOptParamCapability.wire, BGPOptParamBase.decode_cons]
    exact if_pos (le_of_eq total)
  have count := capabilities_length_le caps
  have behind : Behind (newBGPOptParamCapability caps).wire 2 (capsWire caps ++ []) :=
    ⟨[optParamTypeCapability, (newBGPOptParamCapability caps).len], by rw [append_nil]; rfl, rfl⟩
  rw [BGPOptParamCapability.decode, header, ok_bind]
  exact @capLoop_reads caps built (newBGPOptParamCapability caps).toBGPOptParamBase
    _ [] ⟨2, _, []⟩ behind (congrArg Int.ofNat len) (by show 2 + _ < _; omega) fuel fuel (by omega)
    (by omega)

end Parameter

section Building

variable {families : List UInt32} {flags : UInt8}

/-- The add-path entry of a family. -/
def addPathEntry (flags : UInt8) (protoFamily : UInt32) : AddPathAFISAFI :=
  newAddPathAFISAFI (getAfi protoFamily) (getSafi protoFamily) flags

/-- The loop of `ConstructOptParams` adds a capability and an entry for each family, in order. -/
theorem advertiseFamilies (families : List UInt32) (flags : UInt8) (capParams : List BGPCapability)
    (entries : List AddPathAFISAFI) :
    families.foldl (advertiseFamily flags) (capParams, addPathCapability entries) =
      (capParams ++ families.map fun protoFamily =>
          .mpExt (newBGPCapMPExt (getAfi protoFamily) (getSafi protoFamily)),
        addPathCapability (entries ++ families.map (addPathEntry flags))) := by
  induction families generalizing capParams entries with
  | nil => simp
  | cons protoFamily rest ih =>
    have grown : (addPathCapability entries).addAddPathAFISAFI (addPathEntry flags protoFamily) =
        addPathCapability (entries ++ [addPathEntry flags protoFamily]) := by
      have len : ofNat (4 * entries.length) + AddPathAFISAFI.len =
          ofNat (4 * (entries ++ [addPathEntry flags protoFamily]).length) := by
        apply UInt8.toNat_inj.mp
        rw [UInt8.toNat_add, UInt8.toNat_ofNat', UInt8.toNat_ofNat', length_append,
          length_singleton]
        show (4 * entries.length % 2 ^ 8 + 4) % 2 ^ 8 = _
        omega
      rw [BGPCapAddPath.addAddPathAFISAFI, addPathCapability, addPathCapability, len]
    have first : advertiseFamily flags (capParams, addPathCapability entries) protoFamily =
        (capParams ++ [.mpExt (newBGPCapMPExt (getAfi protoFamily) (getSafi protoFamily))],
          addPathCapability (entries ++ [addPathEntry flags protoFamily])) := by
      rw [← grown]
      rfl
    rw [foldl_cons, first, ih, append_assoc, append_assoc]
    rfl

/-- The capabilities of a message: our AS number, each family, and the entries if there are flags. -/
def ownCapabilities (as : UInt32) (families : List UInt32) (flags : UInt8) : List BGPCapability :=
  .as4Path (newBGPCap4ByteASPath as) :: (families.map fun protoFamily =>
      .mpExt (newBGPCapMPExt (getAfi protoFamily) (getSafi protoFamily))) ++
    if flags ≠ 0 then [.addPath (addPathCapability (families.map (addPathEntry flags)))] else []

theorem constructOptParams_eq (order : MapOrder) (as : UInt32) (afiSafiMap : GoMap UInt32 Bool)
    (addPathsRx : Bool) (addPathsMaxTx : UInt8) :
    constructOptParams order as afiSafiMap addPathsRx addPathsMaxTx =
      [newBGPOptParamCapability (ownCapabilities as
        ((order.range "ConstructOptParams" afiSafiMap).map Prod.fst)
        (addPathFlags addPathsRx addPathsMaxTx))] := by
  have loop := advertiseFamilies ((order.range "ConstructOptParams" afiSafiMap).map Prod.fst)
    (addPathFlags addPathsRx addPathsMaxTx) [.as4Path (newBGPCap4ByteASPath as)] []
  have start : newBGPCapAddPath = addPathCapability [] := rfl
  rw [constructOptParams]
  rw [start, loop]
  dsimp only
  rw [ownCapabilities]
  split
  · rfl
  · rw [append_nil]
    rfl

/-- While the capabilities fit one byte's count, so do the entries among them. -/
theorem ownCapabilities_built {as : UInt32}
    (fits : (capsWire (ownCapabilities as families flags)).length ≤ 255) :
    ∀ cap ∈ ownCapabilities as families flags, cap.Built := by
  intro cap member
  rcases mem_append.mp member with plain | entries
  · rcases mem_cons.mp plain with rfl | family
    · exact .as4Path as
    · obtain ⟨protoFamily, _, rfl⟩ := mem_map.mp family
      exact .mpExt _ _
  · split at entries
    · rename_i some
      rw [mem_singleton] at entries
      subst entries
      refine .addPath ?_
      -- They are the end of what fits, behind the two bytes of their own header.
      rw [ownCapabilities, if_pos some, capsWire, flatMap_append, length_append,
        flatMap_singleton] at fits
      have size := addPathWire_length (families.map (addPathEntry flags))
      have wire : (BGPCapability.addPath
          (addPathCapability (families.map (addPathEntry flags)))).wire.length =
          ((families.map (addPathEntry flags)).flatMap AddPathAFISAFI.wire).length + 2 := rfl
      omega
    · cases entries

end Building

section RoundTrip

/-- The id on the wire, which is zero for an address that has no four-byte form. -/
def idBytes (bgpId : Bytes) : Bytes := if to4 bgpId = [] then zeros 4 else to4 bgpId

/-- The fixed part of a message on the wire. -/
def BGPOpen.fixedWire (msg : BGPOpen) (paramsLen : UInt8) : Bytes :=
  msg.version :: (uint16Bytes msg.myAS.toUInt16 ++ uint16Bytes msg.holdTime ++
    idBytes msg.bgpId ++ [paramsLen])

theorem idBytes_cases (bgpId : Bytes) : ∃ a b c d, idBytes bgpId = [a, b, c, d] := by
  rw [idBytes]
  rcases to4_cases bgpId with none | ⟨a, b, c, d, four⟩
  · rw [if_pos none]
    exact ⟨0, 0, 0, 0, rfl⟩
  · rw [four, if_neg nofun]
    exact ⟨a, b, c, d, rfl⟩

/-- The id comes back just when it has a four-byte form. -/
theorem idBytes_text_iff (bgpId : Bytes) :
    ipString (idBytes bgpId) = ipString bgpId ↔ to4 bgpId ≠ [] := by
  have short : ∀ {bytes : Bytes}, bytes.length = 4 → ipString bytes = bytes := by
    intro bytes four
    rw [ipString, if_neg]
    intro long
    omega
  constructor
  · intro same none
    -- Four zeros are no text of an address that is not four bytes long.
    rw [idBytes, if_pos none, short (zeros_length 4)] at same
    have four : (ipString bgpId).length = 4 := by
      rw [← same]
      rfl
    unfold to4 at none
    split at none
    · rename_i long
      rw [none] at long
      cases long
    · rename_i other
      split at none
      · rename_i mapped
        have long := congrArg length none
        rw [length_drop, mapped.1] at long
        cases long
      · rename_i plain
        rw [ipString, if_neg plain] at four
        exact other four
  · intro some
    rw [idBytes, if_neg some]
    obtain none | ⟨a, b, c, d, four⟩ := to4_cases bgpId
    · exact absurd none some
    · rw [four, short rfl, ← four]
      unfold to4 at some ⊢
      split
      · rename_i long
        rw [short long]
      · rename_i other
        rw [if_neg other] at some
        split
        · rename_i mapped
          rw [ipString, if_pos mapped]
        · rename_i plain
          rw [if_neg plain] at some
          exact absurd rfl some

variable {msg : BGPOpen} {param : BGPOptParamCapability}

/-- A message with one parameter is written as its fixed part and the parameter. -/
theorem BGPOpen.encode_single (single : msg.optParams = [param])
    (written : param.encode = .ok param.wire) :
    msg.encode = .ok (msg.fixedWire param.totalLen ++ param.wire) := by
  -- The ten bytes are filled from the left, and the last of them once the parameter is there.
  rcases to4_cases msg.bgpId with none | ⟨a, b, c, d, four⟩
  · simp [BGPOpen.encode, BGPOpen.fixedWire, idBytes, none, single, written, storeAt, copyAt, zeros,
      uint16Bytes]
  · simp [BGPOpen.encode, BGPOpen.fixedWire, idBytes, four, single, written, storeAt, copyAt, zeros,
      uint16Bytes]

/-- The loop over the parameters takes the only one, and finds nothing left behind it. -/
theorem paramLoop_single {front : Bytes} (ten : front.length = 10) {fuel : Nat} (enough : 2 ≤ fuel)
    (known : param.type = optParamTypeCapability)
    (read : BGPOptParamCapability.decode fuel param.wire = .ok param)
    (total : param.totalLen.toNat = param.wire.length) :
    loop (paramRound fuel (front ++ param.wire)) fuel ⟨10, param.totalLen.toNat, []⟩ =
      .ok [param] := by
  have rest : (sliceFrom (front ++ param.wire) 10 : Call Bytes) = .ok param.wire := by
    rw [← ten]
    exact sliceFrom_append _ _
  have supported : getOptParam param.wire = .ok () := by
    simp [getOptParam, BGPOptParamCapability.wire, index, known]
  have some : 0 < param.totalLen.toNat := by
    rw [total]
    exact Nat.succ_pos _
  obtain ⟨rounds, rfl⟩ := Nat.exists_eq_add_of_le' enough
  simp [loop, paramRound, some, rest, supported, read]

/-- A message with one parameter is read back, its id as far as it was written. -/
theorem BGPOpen.decode_single (single : msg.optParams = [param]) {fuel : Nat}
    (enough : 2 ≤ fuel) (known : param.type = optParamTypeCapability)
    (read : BGPOptParamCapability.decode fuel param.wire = .ok param)
    (total : param.totalLen.toNat = param.wire.length) (fits : msg.myAS ≤ 0xffff)
    (announced : msg.optParamLen = param.totalLen) :
    BGPOpen.decode fuel (msg.fixedWire param.totalLen ++ param.wire) =
      .ok { msg with bgpId := idBytes msg.bgpId } := by
  have number : msg.myAS.toUInt16.toUInt32 = msg.myAS := by
    apply UInt32.toNat_inj.mp
    rw [UInt16.toNat_toUInt32, UInt32.toNat_toUInt16]
    have bound := UInt32.le_iff_toNat_le.mp fits
    exact Nat.mod_eq_of_lt (Nat.lt_succ_of_le bound)
  obtain ⟨a, b, c, d, four⟩ := idBytes_cases msg.bgpId
  have loop := @paramLoop_single param (msg.fixedWire param.totalLen)
    (by simp [BGPOpen.fixedWire, four]) fuel enough known read total
  rw [BGPOpen.fixedWire, four] at loop ⊢
  generalize msg.myAS.toUInt16 = as at loop number ⊢
  simp only [uint16Bytes, cons_append, nil_append] at loop ⊢
  simp [BGPOpen.decode, index, slice, uint16_digits, loop, number, announced, single]

/--
An OPEN message with parameters that fit their length byte is read back as it was made, with
its families in the order the map gave them. Its id is read back when it is an IPv4 address,
and as zero otherwise.
-/
theorem open_round_trip (order : MapOrder) (myAS as : UInt32) (holdTime : UInt16) (bgpId : IPText)
    (afiSafiMap : GoMap UInt32 Bool) (addPathsRx : Bool) (addPathsMaxTx : UInt8)
    (msg : BGPOpen)
    (made : msg = newBGPOpenMessage myAS holdTime bgpId
      (constructOptParams order as afiSafiMap addPathsRx addPathsMaxTx))
    (fits : optParamBytes msg.optParams ≤ 255) :
    ∃ pkt read, msg.encode = .ok pkt ∧ (∀ fuel, 256 ≤ fuel → BGPOpen.decode fuel pkt = .ok read) ∧
      read.version = msg.version ∧ read.myAS = msg.myAS ∧ read.holdTime = msg.holdTime ∧
      read.optParams = msg.optParams ∧
      (ipString read.bgpId = ipString msg.bgpId ↔ to4 msg.bgpId ≠ []) ∧
      (to4 msg.bgpId = [] → read.bgpId = [0, 0, 0, 0]) := by
  obtain ⟨caps, chosen⟩ : ∃ caps, caps = ownCapabilities as
    ((order.range "ConstructOptParams" afiSafiMap).map Prod.fst)
    (addPathFlags addPathsRx addPathsMaxTx) := ⟨_, rfl⟩
  have single : msg.optParams = [newBGPOptParamCapability caps] := by
    rw [made, chosen, ← constructOptParams_eq]
    rfl
  have size : optParamBytes msg.optParams = (newBGPOptParamCapability caps).wire.length := by
    rw [optParamBytes, single, flatMap_singleton]
  have inner : (newBGPOptParamCapability caps).wire.length = (capsWire caps).length + 2 := rfl
  have built : ∀ cap ∈ caps, cap.Built := by
    rw [chosen]
    exact ownCapabilities_built (by rw [← chosen]; omega)
  have small : msg.myAS ≤ 0xffff := by
    rw [made]
    show (if myAS > 0xffff then bgpASTrans.toUInt32 else myAS) ≤ 0xffff
    split
    · decide
    · rename_i within
      exact UInt32.not_lt.mp within
  have announced : msg.optParamLen = (newBGPOptParamCapability caps).totalLen := by
    have sum : msg.optParamLen = msg.optParams.foldl (fun sum param => sum + param.totalLen) 0 := by
      rw [made]
      rfl
    rw [sum, single, foldl_cons, foldl_nil, zero_add]
  refine ⟨_, { msg with bgpId := idBytes msg.bgpId },
    BGPOpen.encode_single single (newBGPOptParamCapability_encode built), ?_, rfl, rfl, rfl, rfl,
    idBytes_text_iff msg.bgpId, fun none => if_pos none⟩
  intro fuel enough
  exact BGPOpen.decode_single single (by omega) rfl
    (newBGPOptParamCapability_decode built (by omega) enough)
    (newBGPOptParamCapability_totalLen built (by omega)) small announced

/-- Two families with paths both ways, from a router whose AS number takes four bytes. -/
theorem open_round_trip_two_families : optParamBytes (constructOptParams .stored 70000
      ((∅ : GoMap UInt32 Bool).insert 0x101 true |>.insert 0x201 true) true 4) ≤ 255 ∧
    ∃ pkt read, (newBGPOpenMessage 70000 180 [192, 0, 2, 1] (constructOptParams .stored 70000
        ((∅ : GoMap UInt32 Bool).insert 0x101 true |>.insert 0x201 true) true 4)).encode = .ok pkt ∧
      BGPOpen.decode 256 pkt = .ok read ∧ read.myAS = 23456 ∧
      ipString read.bgpId = [192, 0, 2, 1] := by
  have fits : optParamBytes (constructOptParams .stored 70000
      ((∅ : GoMap UInt32 Bool).insert 0x101 true |>.insert 0x201 true) true 4) ≤ 255 := by
    decide
  obtain ⟨pkt, read, encoded, decoded, _, myAS, _, _, id, _⟩ := open_round_trip .stored 70000 70000
    180 [192, 0, 2, 1] _ true 4 _
    rfl fits
  exact ⟨fits, pkt, read, encoded, decoded 256 (le_refl _), myAS, id.mpr (by decide)⟩

/--
A router id that is no IPv4 address is given to `NewBGPOpenMessage` as a text that is none, and
zero is read back for it.
-/
theorem open_id_read_as_zero :
    optParamBytes (constructOptParams .stored 100 (∅ : GoMap UInt32 Bool) false 0) ≤ 255 ∧
    ∃ pkt read, (newBGPOpenMessage 100 180 [] (constructOptParams .stored 100
        (∅ : GoMap UInt32 Bool) false 0)).encode = .ok pkt ∧
      BGPOpen.decode 256 pkt = .ok read ∧
      (newBGPOpenMessage 100 180 [] (constructOptParams .stored 100
        (∅ : GoMap UInt32 Bool) false 0)).bgpId = [] ∧
      read.bgpId = [0, 0, 0, 0] :=
  ⟨by decide, _, _, rfl, rfl, rfl, rfl⟩

end RoundTrip

end FlexSwitch.Packet
