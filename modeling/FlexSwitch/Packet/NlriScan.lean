import FlexSwitch.Go.Walk
import FlexSwitch.Packet.Nlri

/-! Reading prefixes always moves forward, and it panics on one shape of prefix only. -/

namespace FlexSwitch.Packet

open Go List Outcome UInt32

variable {expected fuel : Nat} {cursor : NLRICursor}

/-- Up to 31 prefix bytes follow the length byte, the rounding done modulo 256. -/
theorem IPPrefix.bytes_toNat (ip : IPPrefix) :
    ip.bytes.toNat = (ip.length.toNat + 7) % 256 / 8 := by
  simp [IPPrefix.bytes]

theorem IPPrefix.len_toNat (ip : IPPrefix) : ip.len.toNat = ip.bytes.toNat + 1 := by
  -- The byte count stays below 32, so counting the length byte does not wrap.
  have bound : (ip.length.toNat + 7) % 256 / 8 + 1 < 256 := by omega
  simp [IPPrefix.len, IPPrefix.bytes, Nat.mod_eq_of_lt bound]

theorem ExtNLRI.len_toNat (nlri : ExtNLRI) : nlri.len.toNat = nlri.ipPrefix.bytes.toNat + 5 := by
  have small := nlri.ipPrefix.bytes_toNat
  rw [ExtNLRI.len, UInt32.toNat_add, nlri.ipPrefix.len_toNat]
  simp only [UInt32.reduceToNat]
  omega

/-- A prefix of an unknown family whose last byte, only partly used, lies past sixteen bytes. -/
def Unmaskable (afi : UInt16) : Bytes → Prop
  | [] => False
  | length :: rest =>
    afiNextHopLenMap afi = none ∧ 128 < length.toNat ∧ length.toNat < 248 ∧
      length.toNat % 8 ≠ 0 ∧ (length.toNat + 7) / 8 ≤ rest.length

/-- Clearing host bits needs the last prefix byte to lie inside the address. -/
theorem maskLast_returns (length bytes : UInt8) (address : Bytes) :
    (maskLast length bytes address).Returns ↔
      (0 < bytes.toNat → length.toNat % 8 ≠ 0 → bytes.toNat ≤ address.length) := by
  unfold maskLast
  by_cases masked : bytes > 0 ∧ length % 8 > 0
  · have positive : 0 < bytes.toNat := by simpa [UInt8.lt_iff_toNat_lt] using masked.1
    have partly : 0 < length.toNat % 8 := by simpa [UInt8.lt_iff_toNat_lt] using masked.2
    have last : (bytes - 1).toNat = bytes.toNat - 1 := by
      have bound := bytes.toNat_lt
      simp only [UInt8.toNat_sub, UInt8.toNat_one]
      omega
    rw [if_pos masked]
    -- The byte that is read is stored back, so the read alone decides.
    rcases lt_or_ge _ address.length with within | past
    · have room : bytes.toNat - 1 + 1 ≤ address.length := within
      simp only [last, index_of_lt within, ok_bind, storeAt, length_singleton,
        room, if_true, returns_ok, true_iff]
      omega
    · simp only [last, index_of_le past, panic_bind, not_returns_panic, false_iff]
      omega
  · rw [if_neg masked]
    simp only [returns_ok, true_iff]
    intro positive partly
    refine absurd ⟨?_, ?_⟩ masked
    · simpa [UInt8.lt_iff_toNat_lt] using positive
    · simp only [gt_iff_lt, UInt8.lt_iff_toNat_lt, UInt8.toNat_mod, UInt8.reduceToNat]
      omega

/-- A known family refuses prefixes longer than its addresses. -/
def PrefixTooLong (afi : UInt16) (length : UInt8) : Prop :=
  ∃ expected, afiNextHopLenMap afi = some expected ∧ expected * 8 < length.toNat

variable {afi : UInt16} {length : UInt8}

/-- The table's address lengths keep the guard inside eight bits. -/
theorem prefixTooLong_iff (known : afiNextHopLenMap afi = some expected) :
    UInt8.ofNat expected * 8 < length ↔ PrefixTooLong afi length := by
  have bits : (UInt8.ofNat expected * 8).toNat = expected * 8 := by
    unfold afiNextHopLenMap at known
    split at known
    · cases known; rfl
    · split at known
      · cases known; rfl
      · cases known
  rw [UInt8.lt_iff_toNat_lt, bits, PrefixTooLong]
  simp [known]

theorem afiNextHopLenMap_le (known : afiNextHopLenMap afi = some expected) : expected ≤ 16 := by
  unfold afiNextHopLenMap at known
  split at known
  · cases known; decide
  · split at known
    · cases known; decide
    · cases known

/-- The address a prefix is copied into, before its last byte is masked. -/
def prefixAddress (afi : UInt16) (length : UInt8) (rest : Bytes) : Bytes :=
  let bytes := (length.toNat + 7) % 256 / 8
  let ipLen := if afi = afiIP6 ∨ bytes > 4 then 16 else 4
  (rest.take bytes).take ipLen ++ zeros (ipLen - (rest.take bytes).length)

theorem prefixAddress_length (afi : UInt16) (length : UInt8) (rest : Bytes) :
    (prefixAddress afi length rest).length =
      if afi = afiIP6 ∨ (length.toNat + 7) % 256 / 8 > 4 then 16 else 4 := by
  simp only [prefixAddress, length_append, length_take, zeros_length]
  omega

namespace IPPrefix

/-- A complete prefix within its family's bounds is read, up to the masking of its last byte. -/
theorem decode_cons {rest : Bytes} (fits : ¬ PrefixTooLong afi length)
    (complete : (length.toNat + 7) % 256 / 8 ≤ rest.length) :
    decode (length :: rest) afi = (do
      let address ← maskLast length ((length + 7) / 8) (prefixAddress afi length rest)
      return ⟨length, address⟩) := by
  -- Neither guard fires, and the slice ends inside the buffer.
  have small : ((length.toNat + 7) % 256 / 8 + 1) % 256 = (length.toNat + 7) % 256 / 8 + 1 := by
    omega
  have guard : ¬ List.length rest < (length.toNat + 7) % 256 / 8 := by omega
  cases known : afiNextHopLenMap afi with
  | none =>
    simp [decode, index, slice, known, guard, small, complete, prefixAddress, copyAt, zeros]
  | some expected =>
    have within : ¬ UInt8.ofNat expected * 8 < length := by
      rw [prefixTooLong_iff known]
      exact fits
    simp [decode, index, slice, known, within, guard, small, complete, prefixAddress, copyAt, zeros]

/-- A prefix that is too long for its family, or cut short, is refused. -/
theorem decode_refused {rest : Bytes}
    (refused : PrefixTooLong afi length ∨ rest.length < (length.toNat + 7) % 256 / 8) :
    ∃ fault, decode (length :: rest) afi = .error fault := by
  cases known : afiNextHopLenMap afi with
  | none =>
    have cut : List.length rest < (length.toNat + 7) % 256 / 8 := by
      rcases refused with ⟨expected, expects, _⟩ | cut
      · rw [known] at expects
        cases expects
      · exact cut
    simp [decode, index, known, cut]
  | some expected =>
    by_cases long : UInt8.ofNat expected * 8 < length
    · simp [decode, index, known, long]
    · have cut : List.length rest < (length.toNat + 7) % 256 / 8 := by
        rw [prefixTooLong_iff known] at long
        exact refused.resolve_left long
      simp [decode, index, known, long, cut]

/-- What was read starts with its own length byte and lies inside the buffer. -/
theorem decode_ok {pkt : Bytes} {ip : IPPrefix}
    (decoded : decode pkt afi = .ok ip) :
    ∃ rest, pkt = ip.length :: rest ∧ ip.bytes.toNat ≤ rest.length := by
  match pkt with
  | [] => simp [decode] at decoded
  | length :: rest =>
    by_cases refused : PrefixTooLong afi length ∨ rest.length < (length.toNat + 7) % 256 / 8
    · obtain ⟨fault, failed⟩ := decode_refused refused
      rw [failed] at decoded
      cases decoded
    · rw [not_or] at refused
      rw [decode_cons refused.1 (by omega), bind_eq_ok] at decoded
      obtain ⟨address, _, built⟩ := decoded
      cases built
      refine ⟨rest, rfl, ?_⟩
      rw [bytes_toNat]
      show (length.toNat + 7) % 256 / 8 ≤ rest.length
      omega

/-- Reading one prefix panics exactly when its last byte cannot be masked. -/
theorem decode_returns (pkt : Bytes) (afi : UInt16) :
    (decode pkt afi).Returns ↔ ¬ Unmaskable afi pkt := by
  match pkt with
  | [] => simp [decode, Unmaskable]
  | length :: rest =>
    by_cases refused : PrefixTooLong afi length ∨ rest.length < (length.toNat + 7) % 256 / 8
    · obtain ⟨fault, failed⟩ := decode_refused refused
      simp only [failed, returns_error, true_iff, Unmaskable]
      rintro ⟨unknown, low, high, _, complete⟩
      rcases refused with ⟨expected, known, _⟩ | cut
      · rw [unknown] at known
        cases known
      · omega
    · rw [not_or] at refused
      obtain ⟨fits, complete⟩ := refused
      have bound := length.toNat_lt
      rw [decode_cons fits (by omega), bind_returns, maskLast_returns, prefixAddress_length]
      have bytes : ((length + 7) / 8).toNat = (length.toNat + 7) % 256 / 8 := by simp
      simp only [bytes, pure_eq, returns_ok, implies_true, and_true, Unmaskable]
      cases known : afiNextHopLenMap afi with
      | none =>
        simp only [true_and]
        split <;> omega
      | some expected =>
        -- A known family has already bounded the prefix by its sixteen bytes.
        have short : length.toNat ≤ expected * 8 := by
          rw [PrefixTooLong] at fits
          simpa [known] using fits
        have family := afiNextHopLenMap_le known
        simp only [reduceCtorEq, false_and, not_false_eq_true, iff_true]
        split <;> omega

end IPPrefix

/-- Behind a complete path identifier the prefix is read as usual. -/
theorem ExtNLRI.decode_behind {pkt : Bytes} (long : 5 ≤ pkt.length) (afi : UInt16) :
    ∃ pathId, ExtNLRI.decode pkt afi = (do
      let ipPrefix ← IPPrefix.decode (pkt.drop 4) afi
      return ⟨ipPrefix, pathId⟩) := by
  have four : 4 ≤ pkt.length := by omega
  have short : ¬ pkt.length < 5 := by omega
  have read : ∃ value, (uint32 ((pkt.drop 0).take (4 - 0)) : Call UInt32) = .ok value := by
    apply uint32_of_le
    rw [length_take, length_drop]
    omega
  obtain ⟨pathId, read⟩ := read
  refine ⟨pathId, ?_⟩
  simp only [ExtNLRI.decode, short, if_false, slice_of_le (Nat.zero_le 4) four, ok_bind,
    read, sliceFrom_of_le four]

@[simp] theorem maskLast_ne_hang (length bytes : UInt8) (address : Bytes) :
    maskLast length bytes address ≠ .hang := by
  unfold maskLast
  split <;> simp [bind_eq_hang]

@[simp] theorem IPPrefix.decode_ne_hang (pkt : Bytes) (afi : UInt16) :
    IPPrefix.decode pkt afi ≠ .hang := by
  unfold IPPrefix.decode
  cases afiNextHopLenMap afi <;> simp [bind_eq_hang, ite_eq_hang]

@[simp] theorem NLRI.decode_ne_hang (addPaths : Bool) (pkt : Bytes) (afi : UInt16) :
    NLRI.decode addPaths pkt afi ≠ .hang := by
  cases addPaths <;> simp [NLRI.decode, ExtNLRI.decode, bind_eq_hang, ite_eq_hang]

/-- Where the prefix proper starts in an item of the scan. -/
def prefixOffset (addPaths : Bool) : Nat := if addPaths then 4 else 0

/-- With or without a path identifier, what was read lies inside the buffer and is not empty. -/
theorem NLRI.decode_ok {addPaths : Bool} {pkt : Bytes} {nlri : NLRI}
    (decoded : NLRI.decode addPaths pkt afi = .ok nlri) :
    0 < nlri.len.toNat ∧ nlri.len.toNat ≤ pkt.length := by
  cases addPaths with
  | false =>
    simp only [NLRI.decode, Bool.false_eq_true, if_false, bind_eq_ok] at decoded
    obtain ⟨ip, read, built⟩ := decoded
    cases built
    obtain ⟨rest, rfl, inside⟩ := IPPrefix.decode_ok read
    simp only [NLRI.len, ip.len_toNat, length_cons]
    omega
  | true =>
    simp only [NLRI.decode, if_true, bind_eq_ok] at decoded
    obtain ⟨ext, read, built⟩ := decoded
    cases built
    by_cases short : pkt.length < 5
    · simp [ExtNLRI.decode, short] at read
    · -- The identifier takes four bytes, and the prefix is read behind it.
      obtain ⟨pathId, same⟩ := ExtNLRI.decode_behind (show 5 ≤ pkt.length by omega) afi
      rw [same, bind_eq_ok] at read
      obtain ⟨ip, read, built⟩ := read
      cases built
      obtain ⟨rest, behind, inside⟩ := IPPrefix.decode_ok read
      have size := congrArg length behind
      simp only [length_drop, length_cons] at size
      simp only [NLRI.len, ExtNLRI.len_toNat]
      omega

/-- Reading one item panics exactly when its prefix cannot be masked. -/
theorem NLRI.decode_returns (addPaths : Bool) (pkt : Bytes) (afi : UInt16) :
    (NLRI.decode addPaths pkt afi).Returns ↔
      ¬ Unmaskable afi (pkt.drop (prefixOffset addPaths)) := by
  cases addPaths with
  | false =>
    simp [NLRI.decode, bind_returns, IPPrefix.decode_returns, prefixOffset]
  | true =>
    by_cases short : pkt.length < 5
    · -- Too few bytes are an error, and leave no prefix behind the identifier.
      have empty : pkt.drop 4 = [] := drop_eq_nil_of_le (by omega)
      simp [NLRI.decode, ExtNLRI.decode, short, prefixOffset, empty, Unmaskable]
    · obtain ⟨pathId, same⟩ := ExtNLRI.decode_behind (show 5 ≤ pkt.length by omega) afi
      simp only [NLRI.decode, if_true, same, bind_returns, IPPrefix.decode_returns,
        pure_eq, returns_ok, implies_true, and_true, prefixOffset]

/-- The positions at which the scan of a run of prefixes reads an item. -/
def PrefixAt (pkt : Bytes) (length : Nat) (afi : UInt16) (addPaths : Bool) : Nat → Prop :=
  Walk (fun position nlri => NLRI.decode addPaths (pkt.drop position) afi = .ok nlri)
    (fun nlri => nlri.len.toNat) length 0

section Rounds

variable {pkt : Bytes} {length : UInt32} {afi : UInt16} {peerAttrs : BGPPeerAttrs}

/-- A round that goes on has read an item inside the buffer and stepped over it. -/
theorem nlriRound_next {later : NLRICursor} (small : pkt.length < 2 ^ 32)
    (advanced : nlriRound pkt length afi peerAttrs cursor = .ok (.next later)) :
    ∃ nlri, cursor.ptr.toNat < length.toNat ∧
      NLRI.decode peerAttrs.addPathsRxActual (pkt.drop cursor.ptr.toNat) afi = .ok nlri ∧
      0 < nlri.len.toNat ∧ later.ptr.toNat = cursor.ptr.toNat + nlri.len.toNat ∧
      later.ptr.toNat ≤ pkt.length ∧ later.ipPrefix = cursor.ipPrefix ++ [nlri] := by
  unfold nlriRound at advanced
  split at advanced
  · rename_i within
    simp only [bind_eq_ok] at advanced
    obtain ⟨rest, sliced, nlri, read, built⟩ := advanced
    have inside : cursor.ptr.toNat ≤ pkt.length := by
      by_contra outside
      simp [sliceFrom, outside] at sliced
    rw [sliceFrom_of_le inside] at sliced
    cases sliced
    cases built
    have bounds := NLRI.decode_ok read
    rw [length_drop] at bounds
    -- The item ends inside the buffer, so the sum stays below the wrap.
    have sum : (cursor.ptr + nlri.len).toNat = cursor.ptr.toNat + nlri.len.toNat := by
      rw [UInt32.toNat_add]
      omega
    exact ⟨nlri, within, read, bounds.1, sum, by simp only [sum]; omega, rfl⟩
  · split at advanced
    · cases advanced
    · cases advanced

theorem nlriRound_inside (small : pkt.length < 2 ^ 32)
    (reached : Reaches (nlriRound pkt length afi peerAttrs) ⟨0, []⟩ cursor) :
    cursor.ptr.toNat ≤ pkt.length := by
  -- It starts at the front, and each round ends where the item it read ends.
  refine reached.invariant (fun state => state.ptr.toNat ≤ pkt.length) ?_ ?_
  · simp
  · intro state later _ advanced
    obtain ⟨_, _, _, _, _, inside, _⟩ := nlriRound_next small advanced
    exact inside

/-- A round inside the buffer panics exactly when it meets a prefix that cannot be masked. -/
theorem nlriRound_returns (inside : cursor.ptr.toNat ≤ pkt.length) :
    (nlriRound pkt length afi peerAttrs cursor).Returns ↔ (cursor.ptr.toNat < length.toNat →
        ¬ Unmaskable afi
          (pkt.drop (cursor.ptr.toNat + prefixOffset peerAttrs.addPathsRxActual))) := by
  unfold nlriRound
  by_cases within : cursor.ptr < length
  · have below := lt_iff_toNat_lt.mp within
    simp only [within, if_true, sliceFrom_of_le inside, ok_bind, bind_returns,
      NLRI.decode_returns, drop_drop, pure_eq, returns_ok, implies_true,
      and_true, below, true_implies]
  · have past : ¬ cursor.ptr.toNat < length.toNat := by
      rw [← lt_iff_toNat_lt]
      exact within
    by_cases off : cursor.ptr = length <;> simp [off, past, within]

section

variable (small : pkt.length < 2 ^ 32)

include small

/-- The rounds of the loop move along the walk over the prefixes. -/
theorem prefixAt_of_reaches
    (reached : Reaches (nlriRound pkt length afi peerAttrs) ⟨0, []⟩ cursor) :
    PrefixAt pkt length.toNat afi peerAttrs.addPathsRxActual cursor.ptr.toNat := by
  refine reached.walk (fun state => state.ptr.toNat) ?_
  intro state later _ advanced
  obtain ⟨nlri, within, read, _, moved, _, _⟩ := nlriRound_next small advanced
  exact ⟨nlri, within, read, moved⟩

/-- Every position of the walk is the cursor of some round. -/
theorem reaches_of_prefixAt {position : Nat}
    (walked : PrefixAt pkt length.toNat afi peerAttrs.addPathsRxActual position)
    (within : position < length.toNat) :
    ∃ cursor, Reaches (nlriRound pkt length afi peerAttrs) ⟨0, []⟩ cursor ∧
      cursor.ptr.toNat = position := by
  refine Walk.reaches (fun state : NLRICursor => state.ptr.toNat) walked within ?_
  intro cursor nlri reached below read _
  have inside := nlriRound_inside small reached
  have bounds := NLRI.decode_ok read
  rw [length_drop] at bounds
  refine ⟨⟨cursor.ptr + nlri.len, cursor.ipPrefix ++ [nlri]⟩, ?_, ?_⟩
  · simp only [nlriRound, lt_iff_toNat_lt.mpr below, if_true, sliceFrom_of_le inside,
      ok_bind, read, pure_eq]
  · show (cursor.ptr + nlri.len).toNat = _
    rw [UInt32.toNat_add]
    omega

/-- Each round leaves less of the buffer in front of the cursor. -/
theorem nlriRound_shrinks {later : NLRICursor}
    (advanced : nlriRound pkt length afi peerAttrs cursor = .ok (.next later)) :
    pkt.length - later.ptr.toNat < pkt.length - cursor.ptr.toNat := by
  obtain ⟨nlri, _, _, positive, moved, inside, _⟩ := nlriRound_next small advanced
  omega

/-- With a round for every byte, a run of prefixes is read to its end. -/
theorem decodeNLRI_ne_hang (enough : pkt.length < fuel) :
    decodeNLRI fuel pkt length afi peerAttrs ≠ .hang := by
  unfold decodeNLRI
  split
  · simp
  · refine loop_ne_hang (fun cursor => pkt.length - cursor.ptr.toNat) ?_ ?_ ?_
    · intro state later _ advanced
      exact nlriRound_shrinks small advanced
    · -- No round has a loop of its own.
      intro state _
      simp [nlriRound, bind_eq_hang, ite_eq_hang]
    · simpa using enough

end

/-- The walk over the prefixes meets none that cannot be masked. -/
def PrefixesSafe (pkt : Bytes) (length : Nat) (afi : UInt16) (addPaths : Bool) : Prop :=
  length ≤ pkt.length → ∀ position, PrefixAt pkt length afi addPaths position →
    position < length → ¬ Unmaskable afi (pkt.drop (position + prefixOffset addPaths))

/-- The families with a known address length have no prefix that cannot be masked. -/
theorem prefixesSafe_of_known {addPaths : Bool} {bytes : Nat}
    (known : afiNextHopLenMap afi = some expected) : PrefixesSafe pkt bytes afi addPaths := by
  intro _ position _ _ unmaskable
  unfold Unmaskable at unmaskable
  split at unmaskable
  · exact unmaskable
  · rw [known] at unmaskable
    cases unmaskable.1

/-- Reading a run of prefixes that comes back met none that cannot be masked. -/
theorem prefixesSafe_of_returns (small : pkt.length < 2 ^ 32)
    (returned : (decodeNLRI fuel pkt length afi peerAttrs).Returns) :
    PrefixesSafe pkt length.toNat afi peerAttrs.addPathsRxActual := by
  intro fits position walked within
  -- The walk's position is a cursor of the loop, and every round entered came back.
  obtain ⟨cursor, reached, here⟩ := reaches_of_prefixAt small walked within
  have guard : ¬ length > ofNat pkt.length := by
    rw [gt_iff_lt, lt_iff_toNat_lt, toNat_ofNat_of_lt' small]
    omega
  rw [decodeNLRI, if_neg guard] at returned
  have entered := reached.round_returns returned
  rw [nlriRound_returns (nlriRound_inside small reached)] at entered
  subst here
  exact entered within

/-- With a round for every byte, that is all a run of prefixes needs to be read. -/
theorem decodeNLRI_returns (small : pkt.length < 2 ^ 32) (enough : pkt.length < fuel)
    (safe : PrefixesSafe pkt length.toNat afi peerAttrs.addPathsRxActual) :
    (decodeNLRI fuel pkt length afi peerAttrs).Returns := by
  unfold decodeNLRI
  split
  · simp
  · rename_i guard
    rw [gt_iff_lt, lt_iff_toNat_lt, toNat_ofNat_of_lt' small] at guard
    refine (loop_returns_iff (fun cursor => pkt.length - cursor.ptr.toNat) ?_ ?_).mpr ?_
    · intro state later _ advanced
      exact nlriRound_shrinks small advanced
    · simpa using enough
    · intro cursor reached
      rw [nlriRound_returns (nlriRound_inside small reached)]
      exact safe (by omega) _ (prefixAt_of_reaches small reached)

/-- A run that was read ends exactly where its length says. -/
theorem decodeNLRI_ok {nlri : List NLRI} {ptr : UInt32}
    (decoded : decodeNLRI fuel pkt length afi peerAttrs = .ok (nlri, ptr)) :
    ptr = length ∧ length.toNat ≤ (UInt32.ofNat pkt.length).toNat := by
  unfold decodeNLRI at decoded
  split at decoded
  · cases decoded
  · rename_i guard
    rw [gt_iff_lt, lt_iff_toNat_lt] at guard
    obtain ⟨last, _, stopped⟩ := loop_eq_ok decoded
    unfold nlriRound at stopped
    split at stopped
    · simp only [bind_eq_ok] at stopped
      obtain ⟨_, _, _, _, built⟩ := stopped
      cases built
    · split at stopped
      · cases stopped
      · rename_i _ consumed
        cases stopped
        exact ⟨by simpa using consumed, by omega⟩

end Rounds

/-- A prefix takes up no more than a path identifier, a length byte and 31 bytes of address. -/
theorem NLRI.len_le (nlri : NLRI) : nlri.len.toNat ≤ 36 := by
  cases nlri with
  | ip plain =>
    have size := plain.bytes_toNat
    rw [NLRI.len, plain.len_toNat]
    omega
  | ext extended =>
    have size := extended.ipPrefix.bytes_toNat
    rw [NLRI.len, extended.len_toNat]
    omega

theorem NLRI.len_pos (nlri : NLRI) : 0 < nlri.len.toNat := by
  cases nlri with
  | ip plain => rw [NLRI.len, plain.len_toNat]; omega
  | ext extended => rw [NLRI.len, extended.len_toNat]; omega

/-- The bytes of a run of prefixes. -/
def nlriBytes (nlriList : List NLRI) : Nat := (nlriList.map fun nlri => nlri.len.toNat).sum

@[simp] theorem nlriBytes_nil : nlriBytes [] = 0 := rfl

@[simp] theorem nlriBytes_cons (nlri : NLRI) (nlriList : List NLRI) :
    nlriBytes (nlri :: nlriList) = nlri.len.toNat + nlriBytes nlriList := by
  simp [nlriBytes]

end FlexSwitch.Packet
