import FlexSwitch.Packet.Open

/-! What a capability's decoder takes, refuses, and cannot cope with. -/

namespace FlexSwitch.Packet

open Go List Outcome

namespace BGPCapabilityBase

theorem totalLen_toNat (base : BGPCapabilityBase) : base.totalLen.toNat = base.len.toNat + 2 := by
  have small := base.len.toNat_lt
  rw [totalLen, UInt16.toNat_add, UInt8.toNat_toUInt16]
  simp only [UInt16.reduceToNat]
  omega

/-- Type and length are read, and the length has to be there. -/
theorem decode_cons (type len : UInt8) (body : Bytes) :
    decode (type :: len :: body) = if len.toNat ≤ body.length then .ok ⟨type, len⟩
      else .error ⟨bgpUpdateMsgError, bgpUnspecific, [],
        "Not enough data to decode capability data"⟩ := by
  have total := totalLen_toNat ⟨type, len⟩
  have enough : (type :: len :: body).length < (mk type len).totalLen.toNat ↔
      ¬ len.toNat ≤ body.length := by
    rw [total]
    simp only [length_cons]
    omega
  unfold decode
  rw [if_neg (by simp)]
  simp only [index, getElem?_cons_zero, getElem?_cons_succ, ok_bind, pure_eq, enough]
  by_cases fits : len.toNat ≤ body.length <;> simp [fits]

theorem decode_short {pkt : Bytes} (short : pkt.length < 2) :
    ∃ fault, decode pkt = .error fault := by
  unfold decode
  rw [if_pos short]
  exact ⟨_, rfl⟩

end BGPCapabilityBase

section AddPath

variable {base : BGPCapabilityBase} {pkt : Bytes}

/-- The lengths for which the loop over families ends inside the capability. -/
def AddPathFits (len : UInt8) : Prop := len < 254 ∧ len.toNat % 4 ≠ 3

/--
The loop over families reads on from any place it can come to.

The families are four bytes each from the second byte on, and the loop stops when it has passed
the length, which does not count the two bytes in front.
-/
theorem addPathLoop_result (long : base.len.toNat + 2 ≤ pkt.length) (fuel : Nat)
    (cursor : AddPathCursor) (aligned : cursor.offset.toNat % 4 = 2)
    (near : cursor.offset.toNat ≤ base.len.toNat + 3)
    (enough : base.len.toNat + 4 ≤ cursor.offset.toNat + 4 * fuel) :
    (AddPathFits base.len ∧ ∃ value, loop (addPathRound base pkt) fuel cursor =
      .ok { toBGPCapabilityBase := base, value := value }) ∨
    (¬ AddPathFits base.len ∧ ∃ fault, loop (addPathRound base pkt) fuel cursor = .error fault) := by
  have small := base.len.toNat_lt
  have fits : AddPathFits base.len ↔ base.len.toNat < 254 ∧ base.len.toNat % 4 ≠ 3 := by
    rw [AddPathFits, UInt8.lt_iff_toNat_lt]
    rfl
  induction fuel generalizing cursor with
  | zero => omega
  | succ fuel ih =>
    have before : cursor.offset < base.len.toUInt16 ↔ cursor.offset.toNat < base.len.toNat := by
      rw [UInt16.lt_iff_toNat_lt, UInt8.toNat_toUInt16]
    by_cases inside : cursor.offset.toNat < base.len.toNat
    · -- Another family is read, if its four bytes are there.
      have reading : (sliceFrom pkt cursor.offset.toNat : Call Bytes) =
          .ok (pkt.drop cursor.offset.toNat) := sliceFrom_of_le (by omega)
      have left : (pkt.drop cursor.offset.toNat).length = pkt.length - cursor.offset.toNat :=
        length_drop
      by_cases four : 4 ≤ (pkt.drop cursor.offset.toNat).length
      · obtain ⟨family, decoded⟩ : ∃ family,
            AddPathAFISAFI.decode (pkt.drop cursor.offset.toNat) = .ok family := by
          match pkt.drop cursor.offset.toNat, four with
          | b0 :: b1 :: b2 :: b3 :: rest, _ =>
            refine ⟨⟨UInt16.ofNat (b0.toNat * 256 + b1.toNat), b2, b3⟩, ?_⟩
            unfold AddPathAFISAFI.decode
            rw [if_neg (by simp)]
            rfl
        have moved : (cursor.offset + AddPathAFISAFI.len.toUInt16).toNat =
            cursor.offset.toNat + 4 := by
          rw [UInt16.toNat_add]
          show (cursor.offset.toNat + 4) % 65536 = _
          omega
        have advanced : addPathRound base pkt cursor =
            .ok (.next ⟨cursor.offset + AddPathAFISAFI.len.toUInt16,
              cursor.value ++ [family]⟩) := by
          rw [addPathRound, if_pos (before.mpr inside), reading]
          simp [decoded]
        rw [loop_next advanced]
        apply ih
        · rw [moved]
          omega
        · rw [moved]
          omega
        · rw [moved]
          omega
      · -- Then the loop stands right in front of the end, which only an odd length leads to.
        right
        refine ⟨?_, ?_⟩
        · rw [fits]
          omega
        · have refused : ∃ fault,
              AddPathAFISAFI.decode (pkt.drop cursor.offset.toNat) = .error fault := by
            unfold AddPathAFISAFI.decode
            rw [if_pos (by omega)]
            exact ⟨_, rfl⟩
          obtain ⟨fault, refused⟩ := refused
          refine ⟨fault, ?_⟩
          simp [loop, addPathRound, before, inside, reading, refused]
    · -- The length has been passed, and the check behind the loop decides.
      have wrapped : (base.len + 2).toUInt16.toNat = (base.len.toNat + 2) % 256 := by
        rw [UInt8.toNat_toUInt16, UInt8.toNat_add]
        rfl
      have past : cursor.offset > (base.len + 2).toUInt16 ↔
          (base.len.toNat + 2) % 256 < cursor.offset.toNat := by
        rw [gt_iff_lt, UInt16.lt_iff_toNat_lt, wrapped]
      by_cases beyond : (base.len.toNat + 2) % 256 < cursor.offset.toNat
      · right
        refine ⟨?_, ?_⟩
        · rw [fits]
          omega
        · simp only [loop, addPathRound, before, inside, if_false, past, beyond, if_true,
            error_bind]
          exact ⟨_, rfl⟩
      · left
        refine ⟨?_, cursor.value, ?_⟩
        · rw [fits]
          omega
        · simp only [loop, addPathRound, before, inside, if_false, past, beyond, pure_eq, ok_bind]

end AddPath

/-- The bytes start with a capability that its decoder takes. -/
structure CapTaken (pkt : Bytes) (base : BGPCapabilityBase) : Prop where
  present : ∃ body, pkt = base.type :: base.len :: body ∧ base.len.toNat ≤ body.length ∧
    (base.type = capTypeMPExt ∨ base.type = capTypeAS4Path → 4 ≤ body.length)
  families : base.type = capTypeAddPath → AddPathFits base.len

/--
Decoding a capability from the bytes stays inside of them.

There is a first byte to choose the decoder by, and the decoders that read a value of fixed size
find it, whatever length the capability announces.
-/
structure CapSafe (pkt : Bytes) : Prop where
  present : pkt ≠ []
  fixed : ∀ type len body, pkt = type :: len :: body → len.toNat ≤ body.length →
    type = capTypeMPExt ∨ type = capTypeAS4Path → 4 ≤ body.length

section Decoders

variable (type len : UInt8) (body : Bytes)

/-- A value of fixed size is read exactly when there are four bytes for it. -/
theorem BGPCapMPExt.decode_decides : (BGPCapMPExt.decode (type :: len :: body)).Decides
      (len.toNat ≤ body.length ∧ 4 ≤ body.length) (len.toNat ≤ body.length → 4 ≤ body.length)
      fun cap => cap.toBGPCapabilityBase = ⟨type, len⟩ := by
  unfold BGPCapMPExt.decode
  rw [BGPCapabilityBase.decode_cons]
  refine ⟨?_, ?_, ?_⟩
  · intro taken
    rw [if_pos taken.1]
    match body, taken.2 with
    | b0 :: b1 :: b2 :: b3 :: body, _ => exact ⟨_, rfl, rfl⟩
  · intro refused safe
    rw [if_neg (fun fits => refused ⟨fits, safe fits⟩)]
    exact ⟨_, rfl⟩
  · intro wild
    rw [Classical.not_imp, not_le] at wild
    rw [if_pos wild.1]
    -- The bytes end before the value does.
    match body, wild.2 with
    | [], _ => rfl
    | [_], _ => rfl
    | [_, _], _ => rfl
    | [_, _, _], _ => rfl

theorem BGPCapAS4Path.decode_decides : (BGPCapAS4Path.decode (type :: len :: body)).Decides
      (len.toNat ≤ body.length ∧ 4 ≤ body.length) (len.toNat ≤ body.length → 4 ≤ body.length)
      fun cap => cap.toBGPCapabilityBase = ⟨type, len⟩ := by
  unfold BGPCapAS4Path.decode
  rw [BGPCapabilityBase.decode_cons]
  refine ⟨?_, ?_, ?_⟩
  · intro taken
    rw [if_pos taken.1]
    match body, taken.2 with
    | b0 :: b1 :: b2 :: b3 :: body, _ => exact ⟨_, rfl, rfl⟩
  · intro refused safe
    rw [if_neg (fun fits => refused ⟨fits, safe fits⟩)]
    exact ⟨_, rfl⟩
  · intro wild
    rw [Classical.not_imp, not_le] at wild
    rw [if_pos wild.1]
    match body, wild.2 with
    | [], _ => rfl
    | [_], _ => rfl
    | [_, _], _ => rfl
    | [_, _, _], _ => rfl

/-- The families never lead out of range. -/
theorem BGPCapAddPath.decode_decides {fuel : Nat} (enough : 65 ≤ fuel) :
    (BGPCapAddPath.decode fuel (type :: len :: body)).Decides
      (len.toNat ≤ body.length ∧ AddPathFits len) True
      fun cap => cap.toBGPCapabilityBase = ⟨type, len⟩ := by
  have small := len.toNat_lt
  unfold BGPCapAddPath.decode
  rw [BGPCapabilityBase.decode_cons]
  by_cases fits : len.toNat ≤ body.length
  · rw [if_pos fits, ok_bind]
    have long : (BGPCapabilityBase.mk type len).len.toNat + 2 ≤ (type :: len :: body).length := by
      simp only [length_cons]
      omega
    have result := addPathLoop_result long fuel ⟨2, []⟩ rfl (by simp) (by simp; omega)
    refine ⟨?_, ?_, fun wild => absurd trivial wild⟩
    · intro taken
      rcases result with ⟨_, value, ended⟩ | ⟨beyond, _⟩
      · exact ⟨_, ended, rfl⟩
      · exact absurd taken.2 beyond
    · intro refused _
      rcases result with ⟨within, _⟩ | ⟨_, ended⟩
      · exact absurd ⟨fits, within⟩ refused
      · exact ended
  · rw [if_neg fits]
    exact ⟨fun taken => absurd taken.1 fits, fun _ _ => ⟨_, rfl⟩, fun wild => absurd trivial wild⟩

theorem BGPCapUnknown.decode_decides :
    (BGPCapUnknown.decode (type :: len :: body)).Decides (len.toNat ≤ body.length) True
      fun cap => cap.toBGPCapabilityBase = ⟨type, len⟩ := by
  unfold BGPCapUnknown.decode
  rw [BGPCapabilityBase.decode_cons]
  refine ⟨?_, ?_, fun wild => absurd trivial wild⟩
  · intro fits
    have total := BGPCapabilityBase.totalLen_toNat ⟨type, len⟩
    rw [if_pos fits, ok_bind, slice_of_le (by rw [total]; omega)
      (by rw [total]; simp only [length_cons]; omega)]
    exact ⟨_, rfl, rfl⟩
  · intro short _
    rw [if_neg short]
    exact ⟨_, rfl⟩

end Decoders

section Capability

theorem capTaken_cons {type len : UInt8} {body : Bytes} {base : BGPCapabilityBase} :
    CapTaken (type :: len :: body) base ↔ base = ⟨type, len⟩ ∧ len.toNat ≤ body.length ∧
      (type = capTypeMPExt ∨ type = capTypeAS4Path → 4 ≤ body.length) ∧
      (type = capTypeAddPath → AddPathFits len) := by
  constructor
  · intro taken
    obtain ⟨other, same, fits, fixed⟩ := taken.present
    cases same
    exact ⟨rfl, fits, fixed, taken.families⟩
  · intro shape
    obtain ⟨rfl, fits, fixed, families⟩ := shape
    exact ⟨⟨body, rfl, fits, fixed⟩, families⟩

theorem capSafe_cons {type len : UInt8} {body : Bytes} :
    CapSafe (type :: len :: body) ↔ (len.toNat ≤ body.length →
      type = capTypeMPExt ∨ type = capTypeAS4Path → 4 ≤ body.length) := by
  constructor
  · intro safe
    exact safe.fixed type len body rfl
  · intro fixed
    refine ⟨by simp, ?_⟩
    intro _ _ _ same
    cases same
    exact fixed

namespace BGPCapability

/-- Bytes that are too few for a type and a length are refused by every decoder. -/
theorem decode_single (fuel : Nat) (type : UInt8) : ∃ fault, decode fuel [type] = .error fault := by
  obtain ⟨fault, refused⟩ := BGPCapabilityBase.decode_short (show [type].length < 2 by simp)
  refine ⟨fault, ?_⟩
  simp only [decode, index, getElem?_cons_zero, ok_bind,
    BGPCapMPExt.decode, BGPCapAS4Path.decode, BGPCapAddPath.decode, BGPCapUnknown.decode, refused,
    error_bind, ite_self]

/-- A capability is decoded by the decoder of its type. -/
theorem decode_cons_decides {fuel : Nat} (enough : 65 ≤ fuel) (type len : UInt8)
    (body : Bytes) :
    (decode fuel (type :: len :: body)).Decides
      (CapTaken (type :: len :: body) ⟨type, len⟩) (CapSafe (type :: len :: body))
      fun cap => cap.base = ⟨type, len⟩ := by
  rw [capTaken_cons, capSafe_cons]
  have start : (index (type :: len :: body) 0 : Call UInt8) = .ok type := rfl
  unfold decode
  rw [start, ok_bind]
  -- One case for each decoder, in the order in which the types are compared.
  by_cases mpExt : type = capTypeMPExt
  · have notAddPath : type ≠ capTypeAddPath := by
      rw [mpExt]
      decide
    rw [if_pos mpExt]
    refine ((BGPCapMPExt.decode_decides type len body).map fun _ same => same).congr ?_ ?_
    · simp [eq_true mpExt, notAddPath]
    · simp [eq_true mpExt]
  rw [if_neg mpExt]
  by_cases as4 : type = capTypeAS4Path
  · have notAddPath : type ≠ capTypeAddPath := by
      rw [as4]
      decide
    rw [if_pos as4]
    refine ((BGPCapAS4Path.decode_decides type len body).map fun _ same => same).congr ?_ ?_
    · simp [eq_true as4, notAddPath]
    · simp [eq_true as4]
  rw [if_neg as4]
  by_cases addPath : type = capTypeAddPath
  · rw [if_pos addPath]
    refine ((BGPCapAddPath.decode_decides type len body enough).map fun _ same => same).congr ?_ ?_
    · simp [mpExt, as4, eq_true addPath]
    · simp [mpExt, as4]
  · rw [if_neg addPath]
    refine ((BGPCapUnknown.decode_decides type len body).map fun _ same => same).congr ?_ ?_
    · simp [mpExt, as4, addPath]
    · simp [mpExt, as4]

/-- Decoding a capability from any bytes. -/
theorem decode_decides {fuel : Nat} (enough : 65 ≤ fuel) (pkt : Bytes) :
    (decode fuel pkt).Decides (∃ base, CapTaken pkt base) (CapSafe pkt)
      fun cap => CapTaken pkt cap.base := by
  match pkt with
  | [] =>
    refine ⟨?_, fun _ safe => absurd rfl safe.present, fun _ => rfl⟩
    rintro ⟨base, taken⟩
    obtain ⟨body, same, _⟩ := taken.present
    cases same
  | [type] =>
    refine ⟨?_, fun _ _ => decode_single fuel type, ?_⟩
    · rintro ⟨base, taken⟩
      obtain ⟨body, same, _⟩ := taken.present
      cases same
    · intro wild
      refine absurd ⟨by simp, ?_⟩ wild
      intro _ _ _ same
      cases same
  | type :: len :: body =>
    have decides := decode_cons_decides enough type len body
    refine ⟨?_, ?_, decides.panics⟩
    · rintro ⟨base, taken⟩
      have same := (capTaken_cons.mp taken).1
      rw [same] at taken
      obtain ⟨cap, decoded, based⟩ := decides.takes taken
      exact ⟨cap, decoded, by rw [based]; exact taken⟩
    · intro refused safe
      exact decides.refuses (fun taken => refused ⟨_, taken⟩) safe

end BGPCapability

theorem CapTaken.safe {pkt : Bytes} {base : BGPCapabilityBase} (taken : CapTaken pkt base) :
    CapSafe pkt := by
  obtain ⟨body, same, fits, fixed⟩ := taken.present
  subst same
  exact capSafe_cons.mpr fun _ => fixed

end Capability

end FlexSwitch.Packet
