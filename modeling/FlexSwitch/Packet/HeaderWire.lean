import FlexSwitch.Packet.AttrHeader
import FlexSwitch.Packet.EncodeSize

/-! The header of an attribute as it stands on the wire, written and read back. -/

namespace FlexSwitch.Packet

open Go

namespace BGPPathAttrBase

/-- The header as a reader sees it, with the length that was written. -/
def written (base : BGPPathAttrBase) : BGPPathAttrBase :=
  if base.flags &&& flagExtendedLen ≠ 0 then base
  else { base with length := base.length.toUInt8.toUInt16 }

variable {base : BGPPathAttrBase}

section

variable (wide : base.HeaderExact)

include wide

theorem encode_header : base.encode = .ok (base.headerBytes ++ zeros base.length.toNat) := by
  have room := headerBytes_length wide
  have stored := @storeAt_append BGPMessageError [] (zeros base.totalLen.toNat) base.headerBytes
    (by rw [zeros_length, totalLen_toNat]; omega)
  rw [encode_eq]
  refine stored.trans ?_
  rw [totalLen_toNat, room, zeros, zeros, List.drop_replicate, Nat.add_sub_cancel]
  rfl

/-- A call that writes the value behind the header fills the room for it. -/
theorem encode_fill {write : Bytes → Nat → Call Bytes} {value : Bytes} (writes : Writes write value)
    (sized : value.length = base.length.toNat) :
    (base.encode >>= fun pkt => write pkt base.bgpPathAttrLen.toNat) =
      .ok (base.headerBytes ++ value) := by
  rw [encode_header wide, Outcome.ok_bind, ← headerBytes_length wide]
  exact writes.fill _ sized

/-- Reading the fields of a header gives what was written of it. -/
theorem readHeader_headerBytes (tail : Bytes) :
    readHeader (base.headerBytes ++ tail) = .ok base.written := by
  obtain ⟨flags, code, length, bgpPathAttrLen⟩ := base
  have width : bgpPathAttrLen = if flags &&& flagExtendedLen ≠ 0 then 4 else 3 := wide
  by_cases extended : flags &&& flagExtendedLen = 0
  · -- One byte holds the low byte of the length.
    simp [readHeader, headerBytes, written, extended, width, index]
  · -- Two bytes hold the whole length.
    have long : ¬ tail.length + 1 + 1 + 1 + 1 < 4 := by omega
    have longer : ¬ tail.length + 1 + 1 + 1 + 1 < 3 := by omega
    simp [readHeader, headerBytes, written, extended, width, index, slice, uint16Bytes,
      uint16_digits, long, longer]

/-- A header that the tables accept is read back from in front of whatever follows it. -/
theorem decode_headerBytes (accepted : base.written.Accepted)
    {tail : Bytes} (room : base.written.length.toNat ≤ tail.length) :
    decode (base.headerBytes ++ tail) = .ok base.written := by
  have width : base.written.bgpPathAttrLen = base.bgpPathAttrLen := by
    rw [written]
    split <;> rfl
  -- The sum of the sixteen-bit check can only wrap downwards.
  have size : (base.written.length + base.written.bgpPathAttrLen).toNat ≤
      (base.headerBytes ++ tail).length := by
    rw [List.length_append, headerBytes_length wide, UInt16.toNat_add, width]
    omega
  have passed := (base.written.checkHeader_spec _ size).passes.mpr accepted
  rw [decode, readHeader_headerBytes wide, Outcome.ok_bind, passed]
  rfl

end

theorem written_eq (small : base.flags &&& flagExtendedLen = 0 → base.length.toNat < 256) :
    base.written = base := by
  rw [written]
  split
  · rfl
  · rename_i short
    have same : base.length.toUInt8.toUInt16 = base.length := by
      apply UInt16.toNat_inj.mp
      have bound := small (not_not.mp short)
      rw [UInt8.toNat_toUInt16, UInt16.toNat_toUInt8]
      omega
    rw [same]

/-- A header with the flags that the table has for its code, and a length field of either width. -/
theorem accepted_of_table {flags : UInt8}
    (known : attrTypeFlagsMap base.code = some (flags, flagAllMinusExtendedLen))
    (plain : flags = flagTransitive ∨ flags = flagOptional ∨ flags = flagOptional ||| flagTransitive)
    (same : base.flags = flags ∨ base.flags = flags ||| flagExtendedLen)
    (sized : base.TypeLenFits) (low : base.code < attrTypeUnknown) : base.Accepted where
  typeFlags := by
    intro expected mask found
    cases known.symm.trans found
    rcases plain with rfl | rfl | rfl <;> rcases same with same | same <;> rw [same] <;> decide
  flags := by
    rw [FlagsFit]
    rcases plain with rfl | rfl | rfl <;> rcases same with same | same <;> rw [same] <;> decide
  typeLen := sized
  recognized := fun bare => absurd bare.2 (UInt8.not_le.mpr low)

section Extended

variable (extended : base.flags &&& flagExtendedLen ≠ 0) (four : base.bgpPathAttrLen = 4)

include extended four

theorem headerExact_of_extended : base.HeaderExact := by rw [HeaderExact, four, if_pos extended]

theorem decode_extended (accepted : base.Accepted) {tail : Bytes}
    (room : base.length.toNat ≤ tail.length) : decode (base.headerBytes ++ tail) = .ok base := by
  have same : base.written = base := written_eq fun short => absurd short extended
  rw [← same] at accepted room
  rw [decode_headerBytes (headerExact_of_extended extended four) accepted room, same]

end Extended

end BGPPathAttrBase

end FlexSwitch.Packet
