import FlexSwitch.Packet.AttrList
import FlexSwitch.Packet.Encode
import FlexSwitch.Packet.NlriScan

/-! How long encoded prefixes, attributes and messages are, and when encoding succeeds. -/

namespace FlexSwitch.Packet

open Go List Outcome UInt16

variable {pkt : Bytes}

/-- The width of an attribute's header is the one its flags announce. -/
def BGPPathAttrBase.HeaderExact (base : BGPPathAttrBase) : Prop :=
  base.bgpPathAttrLen = if base.flags &&& flagExtendedLen ≠ 0 then 4 else 3

variable {base : BGPPathAttrBase}

namespace BGPPathAttrBase

/-- The bytes a header is written as, where a short length field keeps the low byte only. -/
def headerBytes (base : BGPPathAttrBase) : Bytes :=
  base.flags :: base.code :: if base.flags &&& flagExtendedLen ≠ 0 then uint16Bytes base.length
    else [base.length.toUInt8]

theorem encode_eq (base : BGPPathAttrBase) :
    base.encode = storeAt (zeros base.totalLen.toNat) 0 base.headerBytes := by
  have front := @storeAt_storeAt BGPMessageError (zeros base.totalLen.toNat) 0 [base.flags] [base.code]
  rw [encode, ← bind_assoc, headerBytes]
  refine (congrArg (· >>= _) front).trans ?_
  split
  · exact storeAt_storeAt _ 0 [base.flags, base.code] _
  · exact storeAt_storeAt _ 0 [base.flags, base.code] _

theorem headerBytes_length (headerExact : base.HeaderExact) :
    base.headerBytes.length = base.bgpPathAttrLen.toNat := by
  -- The flag decides both sides.
  rw [headerExact, headerBytes]
  split <;> rfl

end BGPPathAttrBase

variable {position : Nat}

/-- All the bytes a segment is written as. -/
def BGPASPathSegment.bytes : BGPASPathSegment → Bytes
  | .as2 seg => seg.type :: seg.length :: seg.ases.flatMap uint16Bytes
  | .as4 seg => seg.type :: seg.length :: seg.ases.flatMap uint32Bytes

/-- Fields that follow what is stored are stored with it. -/
theorem storeAt_storeEach {α : Type} {width : Nat} {bytes : α → Bytes}
    (wide : ∀ value, (bytes value).length = width) (pkt : Bytes) (position : Nat) (front : Bytes)
    (values : List α) :
    (storeAt pkt position front >>= fun pkt =>
      storeEach width bytes pkt (position + front.length) values) =
      storeAt pkt position (front ++ values.flatMap bytes) := by
  induction values generalizing front with
  | nil =>
    rw [flatMap_nil, append_nil]
    exact bind_pure _
  | cons value values ih =>
    -- Behind the first field, the others are the same fields one width on.
    have first : ∀ pkt, storeEach width bytes pkt (position + front.length) (value :: values) =
        storeAt pkt (position + front.length) (bytes value) >>= fun pkt =>
          storeEach width bytes pkt (position + (front ++ bytes value).length) values := by
      intro pkt
      simp only [storeEach, zipIdx_cons', foldlM_cons, foldlM_map, Nat.zero_mul, Nat.add_zero,
        length_append, wide, Prod.map, id, Nat.add_mul, Nat.one_mul, Nat.add_assoc, Nat.add_comm,
        Nat.add_left_comm]
    simp only [first]
    rw [← Outcome.bind_assoc, storeAt_storeAt, ih, flatMap_cons, append_assoc]

namespace BGPASPathSegment

theorem encode_eq (seg : BGPASPathSegment) (pkt : Bytes) (position : Nat) :
    seg.encode pkt position = storeAt pkt position seg.bytes := by
  have front := @storeAt_storeAt BGPMessageError pkt position [seg.getType] [seg.getLen]
  rw [encode, ← bind_assoc]
  refine (congrArg (· >>= _) front).trans ?_
  cases seg with
  | as2 seg => exact storeAt_storeEach uint16Bytes_length pkt position [_, _] seg.ases
  | as4 seg => exact storeAt_storeEach uint32Bytes_length pkt position [_, _] seg.ases

end BGPASPathSegment

section Attributes

end Attributes

end FlexSwitch.Packet
