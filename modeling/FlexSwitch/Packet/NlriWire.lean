import FlexSwitch.Packet.EncodeSize
import FlexSwitch.Rib.Path

/-! Prefixes as they stand on the wire, and how a list of canonical ones is read back. -/

namespace FlexSwitch.Packet

open Go List Outcome UInt8
open Rib (IPText ipString v4InV6Prefix)

/-- As many bytes as the addresses of a family have. -/
def addressLen (afi : UInt16) : Nat := if afi = afiIP6 then 16 else 4

/-- An address of the family: an IPv4 one has four bytes, or the sixteen that `net.ParseIP` gives. -/
def InFamily (afi : UInt16) (address : Bytes) : Prop :=
  if afi = afiIP6 then address.length = 16
  else address.length = 4 ∨ address.length = 16 ∧ address.take 12 = v4InV6Prefix

/-- All bits of an address past the prefix length are zero. -/
def HostBitsZero (length : Nat) (address : Bytes) : Prop :=
  ∀ entry ∈ address.zipIdx, entry.1.toNat % 2 ^ (8 * (entry.2 + 1) - length) = 0

instance (afi : UInt16) (address : Bytes) : Decidable (InFamily afi address) :=
  inferInstanceAs (Decidable (if afi = afiIP6 then _ else _))

instance (length : Nat) (address : Bytes) : Decidable (HostBitsZero length address) :=
  inferInstanceAs (Decidable (∀ entry ∈ address.zipIdx, _))

namespace IPPrefix

/-- The address in the form of its family, which is what an encoder reads. -/
def ownBytes (ip : IPPrefix) (afi : UInt16) : Bytes :=
  ip.prefixIP.drop (ip.prefixIP.length - addressLen afi)

/-- A prefix of the family without host bits. -/
structure Canonical (ip : IPPrefix) (afi : UInt16) : Prop where
  family : InFamily afi ip.prefixIP
  short : ip.length.toNat ≤ 8 * addressLen afi
  host : HostBitsZero ip.length.toNat (ip.ownBytes afi)

/-- The prefix with its address in the form of its family. -/
def normal (ip : IPPrefix) (afi : UInt16) : IPPrefix := ⟨ip.length, ip.ownBytes afi⟩

/-- The bytes a prefix is written as. -/
def wire (ip : IPPrefix) (afi : UInt16) : Bytes :=
  ip.length :: (ip.ownBytes afi).take ip.bytes.toNat

end IPPrefix

namespace NLRI

def Canonical (nlri : NLRI) (afi : UInt16) : Prop := nlri.getIPPrefix.Canonical afi

def normal (afi : UInt16) : NLRI → NLRI
  | .ip plain => .ip (plain.normal afi)
  | .ext nlri => .ext { nlri with ipPrefix := nlri.ipPrefix.normal afi }

def wire (afi : UInt16) : NLRI → Bytes
  | .ip plain => plain.wire afi
  | .ext nlri => uint32Bytes nlri.pathId ++ nlri.ipPrefix.wire afi

/-- What a prefix says: its path id if it has one, its length, and its address. -/
def listed : NLRI → Option UInt32 × UInt8 × IPText
  | .ip plain => (none, plain.length, ipString plain.prefixIP)
  | .ext nlri => (some nlri.pathId, nlri.ipPrefix.length, ipString nlri.ipPrefix.prefixIP)

/-- Whether a prefix comes with a path id. -/
def hasPathId : NLRI → Bool
  | .ip _ => false
  | .ext _ => true

end NLRI

theorem masked_of_mod (byte : UInt8) (count : Fin 8) (low : byte.toNat % 2 ^ (8 - count.val) = 0) :
    byte &&& ~~~((0xff : UInt8) >>> UInt8.ofNat count.val) = byte := by
  -- There are two thousand pairs of a byte and a count, and each is checked.
  revert low
  cases byte with
  | ofBitVec byte =>
    cases byte with
    | ofFin byte =>
      revert byte count
      decide +kernel

/-- Behind the bytes that hold the prefix there are only zeros. -/
theorem HostBitsZero.drop_eq {length : Nat} {address : Bytes} (zero : HostBitsZero length address) :
    address.drop ((length + 7) / 8) = zeros (address.length - (length + 7) / 8) := by
  -- All eight bits of such a byte are host bits.
  refine eq_replicate_iff.mpr ⟨length_drop, ?_⟩
  intro byte member
  obtain ⟨position, inside, same⟩ := mem_iff_getElem.mp member
  rw [getElem_drop] at same
  rw [length_drop] at inside
  have found : address[(length + 7) / 8 + position]? = some byte := by
    rw [getElem?_eq_getElem (by omega), same]
  have low := zero _ (mk_mem_zipIdx_iff_getElem?.mpr found)
  have wide : 2 ^ 8 ≤ 2 ^ (8 * ((length + 7) / 8 + position + 1) - length) :=
    Nat.pow_le_pow_right (by decide) (by omega)
  have bound := byte.toNat_lt
  dsimp only at low
  rw [Nat.mod_eq_of_lt (by omega)] at low
  exact UInt8.toNat_inj.mp low

section Single

variable {ip : IPPrefix} {afi : UInt16}

theorem InFamily.long {address : Bytes} (family : InFamily afi address) :
    address.length = addressLen afi ∨ addressLen afi = 4 ∧ address.length = 16 ∧
      address.take 12 = v4InV6Prefix := by
  -- Only an IPv4 address has a second form.
  unfold InFamily at family
  unfold addressLen
  split at family
  · rename_i six
    rw [if_pos six]
    exact .inl family
  · rename_i four
    rw [if_neg four]
    rcases family with short | mapped
    · exact .inl short
    · exact .inr ⟨rfl, mapped⟩

/-- An encoder takes bytes from as far before the capacity as the addresses of the family are long. -/
theorem IPPrefix.encode_window (long : addressLen afi ≤ ip.prefixIP.length)
    (fits : ip.bytes.toNat ≤ addressLen afi)
    (bound : ip.prefixIP.length - addressLen afi + ip.bytes.toNat ≤ 255) :
    ip.encode afi = .ok (ip.wire afi) := by
  have size := ip.len_toNat
  -- The start is a small number, so it is the same in eight bits.
  have start : (ofInt ((ip.prefixIP.length : Int) - addressLen afi)).toNat =
      ip.prefixIP.length - addressLen afi := by
    rw [ofInt, toNat_ofNat']
    omega
  have stop : (ofInt ((ip.prefixIP.length : Int) - addressLen afi) + ip.bytes).toNat =
      ip.prefixIP.length - addressLen afi + ip.bytes.toNat := by
    rw [UInt8.toNat_add, start]
    omega
  have used : (slice ip.prefixIP (ofInt ((ip.prefixIP.length : Int) - addressLen afi)).toNat
      (ofInt ((ip.prefixIP.length : Int) - addressLen afi) + ip.bytes).toNat : Call Bytes) =
      .ok ((ip.ownBytes afi).take ip.bytes.toNat) := by
    rw [slice, start, stop, if_pos ⟨by omega, by omega⟩, Nat.add_sub_cancel_left]
    rfl
  have room : zeros ip.len.toNat = 0 :: zeros ip.bytes.toNat := by
    rw [size]
    rfl
  have first : (storeAt (zeros ip.len.toNat) 0 [ip.length] : Call Bytes) =
      .ok ([ip.length] ++ zeros ip.bytes.toNat) := by
    rw [room]
    simp [storeAt]
  have taken : ((ip.ownBytes afi).take ip.bytes.toNat).length = ip.bytes.toNat := by
    rw [length_take, IPPrefix.ownBytes, length_drop]
    omega
  have copied := @copyAt_append BGPMessageError [ip.length] (zeros ip.bytes.toNat)
    ((ip.ownBytes afi).take ip.bytes.toNat) (by rw [taken, zeros_length])
  rw [taken, drop_of_length_le (by rw [zeros_length])] at copied
  rw [IPPrefix.encode, first, ok_bind]
  show ((slice ip.prefixIP (ofInt ((ip.prefixIP.length : Int) - addressLen afi)).toNat
    (ofInt ((ip.prefixIP.length : Int) - addressLen afi) + ip.bytes).toNat :
    Call Bytes) >>= _) = _
  rw [used, ok_bind]
  refine copied.trans ?_
  rw [append_nil]
  rfl

namespace IPPrefix.Canonical

variable (canonical : ip.Canonical afi)

include canonical

theorem ownBytes_length : (ip.ownBytes afi).length = addressLen afi := by
  rcases canonical.family.long with same | ⟨four, sixteen, _⟩
  · rw [IPPrefix.ownBytes, length_drop, same]
    omega
  · rw [IPPrefix.ownBytes, length_drop, sixteen, four]

theorem ownBytes_text : ipString (ip.ownBytes afi) = ipString ip.prefixIP := by
  rcases canonical.family.long with same | ⟨four, sixteen, mapped⟩
  · -- Nothing is cut off an address that has the family's length.
    rw [IPPrefix.ownBytes, same, Nat.sub_self]
    rfl
  · -- The last four of sixteen bytes are how the address is printed.
    rw [IPPrefix.ownBytes, sixteen, four]
    have short : ¬ ((ip.prefixIP.drop (16 - 4)).length = 16 ∧
        (ip.prefixIP.drop (16 - 4)).take 12 = v4InV6Prefix) := by
      rw [length_drop, sixteen]
      exact fun long => absurd long.1 (by decide)
    rw [ipString, if_neg short, ipString, if_pos ⟨sixteen, mapped⟩]

/-- Rounding up to bytes does not wrap for a length within the family. -/
theorem bytes_toNat :
    ip.bytes.toNat = (ip.length.toNat + 7) / 8 ∧ ip.bytes.toNat ≤ addressLen afi := by
  have short := canonical.short
  have small : addressLen afi ≤ 16 := by
    unfold addressLen
    split <;> decide
  rw [IPPrefix.bytes_toNat]
  omega

theorem wire_length : (ip.wire afi).length = ip.len.toNat := by
  rw [IPPrefix.wire, length_cons, length_take, canonical.ownBytes_length,
    min_eq_left canonical.bytes_toNat.2, ip.len_toNat]

/-- An encoder takes the bytes of the family's form, wherever they start. -/
theorem encode : ip.encode afi = .ok (ip.wire afi) := by
  have fits := canonical.bytes_toNat.2
  have own := canonical.ownBytes_length
  have small : addressLen afi ≤ 16 := by
    unfold addressLen
    split <;> decide
  rw [IPPrefix.ownBytes, length_drop] at own
  refine IPPrefix.encode_window (by omega) fits ?_
  rcases canonical.family.long with same | ⟨_, sixteen, _⟩ <;> omega

/-- Masking changes nothing in an address without host bits. -/
theorem maskLast : maskLast ip.length ip.bytes (ip.ownBytes afi) = .ok (ip.ownBytes afi) := by
  obtain ⟨count, fits⟩ := canonical.bytes_toNat
  have own := canonical.ownBytes_length
  unfold Packet.maskLast
  split
  · rename_i masked
    have positive : 0 < ip.bytes.toNat := lt_iff_toNat_lt.mp masked.1
    have partly : 0 < ip.length.toNat % 8 := by
      have some := lt_iff_toNat_lt.mp masked.2
      rwa [UInt8.toNat_mod] at some
    have last : (ip.bytes - 1).toNat = ip.bytes.toNat - 1 := by
      have wide := ip.bytes.toNat_lt
      rw [UInt8.toNat_sub]
      simp only [reduceToNat]
      omega
    have inside : ip.bytes.toNat - 1 < (ip.ownBytes afi).length := by omega
    -- The last byte holds some of the prefix and some host bits, which are zero.
    have low := canonical.host _
      (mk_mem_zipIdx_iff_getElem?.mpr (getElem?_eq_getElem inside))
    have shift : 8 * (ip.bytes.toNat - 1 + 1) - ip.length.toNat = 8 - ip.length.toNat % 8 := by
      omega
    rw [shift] at low
    have same := masked_of_mod _ ⟨ip.length.toNat % 8, by omega⟩ low
    have amount : ofNat (ip.length.toNat % 8) = ip.length % 8 := by
      apply UInt8.toNat_inj.mp
      rw [UInt8.toNat_mod, UInt8.toNat_ofNat']
      simp only [reduceToNat]
      omega
    rw [amount] at same
    dsimp only at same ⊢
    rw [last, index_of_lt inside, ok_bind, same, storeAt, length_singleton, if_pos (by omega)]
    -- Storing a byte back where it was leaves the address as it is.
    rw [ok.injEq, append_assoc, singleton_append, getElem_cons_drop, take_append_drop]
  · rfl

/-- A canonical prefix is read back from in front of whatever follows it. -/
theorem decode (tail : Bytes) (known : afi = afiIP ∨ afi = afiIP6) :
    IPPrefix.decode (ip.wire afi ++ tail) afi = .ok (ip.normal afi) := by
  obtain ⟨count, fits⟩ := canonical.bytes_toNat
  have own := canonical.ownBytes_length
  have short := canonical.short
  have rounded := ip.bytes_toNat
  have taken : ((ip.ownBytes afi).take ip.bytes.toNat).length = ip.bytes.toNat := by
    rw [length_take, own, min_eq_left fits]
  have within : ¬ PrefixTooLong afi ip.length := by
    intro ⟨expected, found, long⟩
    have table : afiNextHopLenMap afi = some (addressLen afi) := by
      rcases known with rfl | rfl <;> decide
    rw [table] at found
    cases found
    omega
  -- The bytes that are not written are the host bytes, which are zero.
  have address : prefixAddress afi ip.length
      ((ip.ownBytes afi).take ip.bytes.toNat ++ tail) = ip.ownBytes afi := by
    have form : (if afi = afiIP6 ∨ ip.bytes.toNat > 4 then 16 else 4) = addressLen afi := by
      rw [addressLen]
      rcases known with rfl | rfl
      · have four : addressLen afiIP = 4 := rfl
        rw [if_neg (by rw [not_or]; exact ⟨by decide, by omega⟩), if_neg (by decide)]
      · rw [if_pos (.inl rfl), if_pos rfl]
    have front : ((ip.ownBytes afi).take ip.bytes.toNat ++ tail).take ip.bytes.toNat =
        (ip.ownBytes afi).take ip.bytes.toNat := take_left' taken
    have behind := canonical.host.drop_eq
    rw [← count, own] at behind
    rw [prefixAddress, ← rounded, form, front, taken,
      take_of_length_le (by rw [taken]; exact fits), ← behind,
      take_append_drop]
  show IPPrefix.decode (ip.length :: ((ip.ownBytes afi).take ip.bytes.toNat ++ tail)) afi = _
  rw [IPPrefix.decode_cons within (by rw [length_append, taken]; omega), address]
  show (Packet.maskLast ip.length ip.bytes (ip.ownBytes afi) >>= _) = _
  rw [canonical.maskLast]
  rfl

end IPPrefix.Canonical

end Single

section Shapes

variable {nlri : NLRI} {afi : UInt16}

namespace NLRI.Canonical

variable (canonical : nlri.Canonical afi)

include canonical

theorem wire_length : (nlri.wire afi).length = nlri.len.toNat := by
  cases nlri with
  | ip plain => exact IPPrefix.Canonical.wire_length canonical
  | ext extended =>
    have inner : (extended.ipPrefix.wire afi).length = extended.ipPrefix.len.toNat :=
      IPPrefix.Canonical.wire_length canonical
    have size := extended.ipPrefix.len_toNat
    rw [NLRI.wire, length_append, uint32Bytes_length, inner, NLRI.len, extended.len_toNat]
    omega

theorem encode : nlri.encode afi = .ok (nlri.wire afi) := by
  cases nlri with
  | ip plain => exact IPPrefix.Canonical.encode canonical
  | ext extended =>
    have inner : extended.ipPrefix.encode afi = .ok (extended.ipPrefix.wire afi) :=
      IPPrefix.Canonical.encode canonical
    rw [NLRI.encode, ExtNLRI.encode, inner]
    rfl

/-- A session that agrees with the shape of a prefix reads it back. -/
theorem decode (tail : Bytes) (known : afi = afiIP ∨ afi = afiIP6) :
    NLRI.decode nlri.hasPathId (nlri.wire afi ++ tail) afi = .ok (nlri.normal afi) := by
  cases nlri with
  | ip plain =>
    have read := IPPrefix.Canonical.decode canonical tail known
    show (IPPrefix.decode (plain.wire afi ++ tail) afi >>= _) = _
    rw [show IPPrefix.decode (plain.wire afi ++ tail) afi = _ from read]
    rfl
  | ext extended =>
    have read : IPPrefix.decode (extended.ipPrefix.wire afi ++ tail) afi = _ :=
      IPPrefix.Canonical.decode canonical tail known
    -- The path id takes the first four bytes, and the prefix follows it.
    have whole : NLRI.wire afi (.ext extended) ++ tail =
        uint32Bytes extended.pathId ++ (extended.ipPrefix.wire afi ++ tail) := by
      rw [NLRI.wire, append_assoc]
    have long : ¬ (uint32Bytes extended.pathId ++
        (extended.ipPrefix.wire afi ++ tail)).length < 5 := by
      rw [length_append, uint32Bytes_length, length_append, IPPrefix.wire, length_cons]
      omega
    have start := Behind.start (uint32Bytes extended.pathId ++ (extended.ipPrefix.wire afi ++ tail))
    have id : (slice _ 0 4 : Call Bytes) = _ := start.slice
    have rest : (sliceFrom _ 4 : Call Bytes) = _ := (start.skip rfl).sliceFrom
    rw [whole]
    show (ExtNLRI.decode _ afi >>= _) = _
    rw [ExtNLRI.decode]
    simp only [if_neg long, id, rest, ok_bind, uint32_all, read]
    rfl

/-- The form of the family says the same prefix. -/
theorem normal_listed : (nlri.normal afi).listed = nlri.listed := by
  cases nlri with
  | ip plain =>
    have text : ipString (plain.ownBytes afi) = _ := IPPrefix.Canonical.ownBytes_text canonical
    show (none, plain.length, ipString (plain.ownBytes afi)) = _
    rw [text]
    rfl
  | ext extended =>
    have text : ipString (extended.ipPrefix.ownBytes afi) = _ :=
      IPPrefix.Canonical.ownBytes_text canonical
    show (some extended.pathId, extended.ipPrefix.length,
      ipString (extended.ipPrefix.ownBytes afi)) = _
    rw [text]
    rfl

end NLRI.Canonical

@[simp] theorem NLRI.normal_len (nlri : NLRI) (afi : UInt16) :
    (nlri.normal afi).len = nlri.len := by
  cases nlri <;> rfl

end Shapes

section Lists

variable {afi : UInt16} {nlris : List NLRI} {peerAttrs : BGPPeerAttrs}

/-- The prefixes on the wire, one behind the other. -/
def nlrisWire (afi : UInt16) (nlriList : List NLRI) : Bytes := nlriList.flatMap (NLRI.wire afi)

/-- Canonical prefixes of the family, in the shape that the session has agreed on. -/
structure CanonicalList (peerAttrs : BGPPeerAttrs) (afi : UInt16) (nlriList : List NLRI) :
    Prop where
  canonical : ∀ nlri ∈ nlriList, nlri.Canonical afi
  shape : ∀ nlri ∈ nlriList, nlri.hasPathId = peerAttrs.addPathsRxActual

theorem CanonicalList.tail {nlri : NLRI} (list : CanonicalList peerAttrs afi (nlri :: nlris)) :
    CanonicalList peerAttrs afi nlris :=
  ⟨fun other member => list.canonical other (mem_cons_of_mem _ member),
    fun other member => list.shape other (mem_cons_of_mem _ member)⟩

namespace CanonicalList

variable (list : CanonicalList peerAttrs afi nlris)

include list

theorem wire_length : (nlrisWire afi nlris).length = nlriBytes nlris := by
  induction nlris with
  | nil => rfl
  | cons nlri rest ih =>
    have first := (list.canonical nlri mem_cons_self).wire_length
    rw [nlrisWire, flatMap_cons, length_append, first, nlriBytes_cons]
    exact congrArg _ (ih list.tail)

/-- The loop over the prefixes writes them one behind the other. -/
theorem encode (front room : Bytes) (fits : nlriBytes nlris ≤ room.length) :
    encodeNLRIs afi (front ++ room) front.length nlris =
      .ok (front ++ nlrisWire afi nlris ++ room.drop (nlriBytes nlris),
        front.length + nlriBytes nlris) := by
  induction nlris generalizing front room with
  | nil => simp [encodeNLRIs, nlrisWire]
  | cons nlri rest ih =>
    have first := list.canonical nlri mem_cons_self
    have size := first.wire_length
    rw [nlriBytes_cons] at fits
    -- The first prefix is copied, and what follows it is the same claim with a longer front.
    have copied := @copyAt_append BGPMessageError front room (nlri.wire afi) (by omega)
    have others := ih list.tail (front ++ nlri.wire afi) (room.drop (nlri.wire afi).length)
      (by rw [length_drop]; omega)
    rw [length_append, append_assoc, append_assoc] at others
    rw [encodeNLRIs, foldlM_cons, first.encode, ok_bind, copied, ok_bind,
      pure_eq, ok_bind, append_assoc]
    refine others.trans ?_
    rw [drop_drop, nlriBytes_cons, size, nlrisWire, nlrisWire, flatMap_cons]
    simp only [append_assoc, add_assoc]

theorem writes : Writes (fun pkt idx => do return (← encodeNLRIs afi pkt idx nlris).1)
    (nlrisWire afi nlris) := by
  intro front room fits
  rw [list.wire_length] at fits ⊢
  simp [list.encode front room fits]

/-- The loop of `decodeNLRI` gives canonical prefixes back, behind what it has read so far. -/
theorem loop (known : afi = afiIP ∨ afi = afiIP6) {pkt tail : Bytes} {cursor : NLRICursor}
    {length : UInt32} (behind : Behind pkt cursor.ptr.toNat (nlrisWire afi nlris ++ tail))
    (ends : length.toNat = cursor.ptr.toNat + nlriBytes nlris) {fuel : Nat}
    (enough : nlris.length < fuel) :
    loop (nlriRound pkt length afi peerAttrs) fuel cursor =
      .ok (cursor.ipPrefix ++ nlris.map (NLRI.normal afi), length) := by
  refine loop_takes (fun state left =>
    Behind pkt state.ptr.toNat (nlrisWire afi left ++ tail) ∧
      length.toNat = state.ptr.toNat + nlriBytes left ∧ CanonicalList peerAttrs afi left ∧
      state.ipPrefix ++ left.map _ =
        cursor.ipPrefix ++ nlris.map (NLRI.normal afi)) ?_ ?_ ⟨behind, ends, list, rfl⟩ enough
  · rintro state nlri rest ⟨behind, ends, list, all⟩
    have first := list.canonical nlri mem_cons_self
    have some := nlri.len_pos
    have bound := length.toNat_lt
    rw [nlriBytes_cons] at ends
    rw [nlrisWire, flatMap_cons, append_assoc] at behind
    have within : state.ptr < length := by
      rw [UInt32.lt_iff_toNat_lt]
      omega
    have read := first.decode (nlrisWire afi rest ++ tail) known
    rw [list.shape nlri mem_cons_self] at read
    have moved : (state.ptr + nlri.len).toNat = state.ptr.toNat + nlri.len.toNat := by
      rw [UInt32.toNat_add]
      omega
    -- One round reads the prefix and steps over it.
    refine ⟨⟨_, state.ipPrefix ++ [nlri.normal afi]⟩, ?_,
      behind.skip (by rw [moved, first.wire_length]), by dsimp only; omega, list.tail,
      by rw [append_assoc]; exact all⟩
    rw [nlriRound, if_pos within, behind.sliceFrom, ok_bind]
    exact (congrArg (· >>= _) read).trans (by rw [ok_bind, NLRI.normal_len]; rfl)
  · rintro state ⟨_, ends, _, all⟩
    -- The cursor stands where the length says the prefixes end.
    have same : state.ptr = length := UInt32.toNat_inj.mp ends.symm
    rw [map_nil, append_nil] at all
    simp only [nlriRound, same, all, UInt32.lt_irrefl, if_false, ne_eq, not_true_eq_false, pure_eq]

/-- A run of canonical prefixes is read back from in front of whatever follows it. -/
theorem decode (known : afi = afiIP ∨ afi = afiIP6) {tail : Bytes} {length : UInt32}
    (ends : length.toNat = nlriBytes nlris)
    (small : (nlrisWire afi nlris ++ tail).length < 2 ^ 32) {fuel : Nat}
    (enough : nlris.length < fuel) :
    decodeNLRI fuel (nlrisWire afi nlris ++ tail) length afi peerAttrs =
      .ok (nlris.map (NLRI.normal afi), length) := by
  have size := list.wire_length
  have room : ¬ length > UInt32.ofNat (nlrisWire afi nlris ++ tail).length := by
    rw [gt_iff_lt, UInt32.lt_iff_toNat_lt, UInt32.toNat_ofNat', Nat.mod_eq_of_lt small,
      length_append]
    omega
  rw [decodeNLRI, if_neg room]
  exact @CanonicalList.loop afi nlris peerAttrs list known _ tail ⟨0, []⟩ length (.start _)
    (by rw [ends]; exact (zero_add _).symm) fuel enough

theorem normal_listed :
    (nlris.map (NLRI.normal afi)).map NLRI.listed = nlris.map NLRI.listed := by
  rw [map_map]
  refine map_congr_left fun nlri member => ?_
  exact (list.canonical nlri member).normal_listed

end CanonicalList

end Lists

end FlexSwitch.Packet
