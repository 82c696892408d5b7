import FlexSwitch.Packet.SegmentScan

/-! What the common attribute header decoder accepts, and the one way it can panic. -/

namespace FlexSwitch.Packet

open Go Outcome

namespace BGPPathAttrBase

/-- Reading the header gives an error, or the fields the first bytes spell. -/
theorem readHeader_cases (pkt : Bytes) : (∃ fault, readHeader pkt = .error fault) ∨
    ∃ base, readHeader pkt = .ok base ∧ pkt[1]? = some base.code ∧
      (base.bgpPathAttrLen = 3 ∧ 3 ≤ pkt.length ∧ base.length.toNat < 256 ∨
        base.bgpPathAttrLen = 4 ∧ 4 ≤ pkt.length) ∧ pkt[0]? = some base.flags := by
  rcases pkt with _ | ⟨flags, _ | ⟨code, _ | ⟨low, rest⟩⟩⟩
  · left
    simp [readHeader]
  · left
    simp [readHeader]
  · left
    simp [readHeader]
  · by_cases extended : flags &&& flagExtendedLen = 0
    · right
      refine ⟨⟨flags, code, low.toUInt16, 3⟩, ?_, rfl, .inl ⟨rfl, ?_, ?_⟩, rfl⟩
      · simp [readHeader, index, extended]
      · simp
      · simpa using low.toNat_lt
    · -- An extended length takes one byte more.
      cases rest with
      | nil =>
        left
        simp [readHeader, index, extended]
      | cons next rest =>
        right
        refine ⟨⟨flags, code, UInt16.ofNat (low.toNat * 256 + next.toNat), 4⟩, ?_, rfl,
          .inr ⟨rfl, ?_⟩, rfl⟩
        · have three : ¬ rest.length + 1 + 1 + 1 + 1 < 3 := by omega
          have four : ¬ rest.length + 1 + 1 + 1 + 1 < 4 := by omega
          simp [readHeader, index, extended, slice, uint16, three, four]
        · simp

variable {α : Type} (base : BGPPathAttrBase) (pkt : Bytes) (subTypeCode : UInt8) (message : String)

/-- A report comes back exactly when the attribute it quotes lies inside the buffer. -/
@[simp] theorem report_returns :
    (base.report pkt subTypeCode message : Call α).Returns ↔ base.totalLen.toNat ≤ pkt.length := by
  by_cases whole : base.totalLen.toNat ≤ pkt.length <;> simp [report, slice, whole]

@[simp] theorem report_ne_ok (value : α) : base.report pkt subTypeCode message ≠ .ok value := by
  simp [report, bind_eq_ok]

@[simp] theorem report_ne_hang : (base.report pkt subTypeCode message : Call α) ≠ .hang := by
  simp [report, bind_eq_hang]

@[simp] theorem checkHeader_ne_hang (base : BGPPathAttrBase) (pkt : Bytes) :
    base.checkHeader pkt ≠ .hang := by
  unfold checkHeader checkTypeFlags checkFlags
    checkTypeLen
  cases attrTypeFlagsMap base.code <;> cases attrTypeLenMap base.code <;>
    simp [bind_eq_hang, ite_eq_hang]

/-- The flags that pass both the table and the general rules. -/
def TypeFlagsFit (base : BGPPathAttrBase) : Prop :=
  ∀ flags mask, attrTypeFlagsMap base.code = some (flags, mask) →
    (flags ^^^ base.flags) &&& mask = 0

def FlagsFit (base : BGPPathAttrBase) : Prop :=
  ¬ (base.flags &&& flagOptional = 0 ∧ base.flags &&& flagTransitive = 0) ∧
    (base.flags &&& flagPartial ≠ 0 →
      ¬ base.flags &&& flagOptional = 0 ∧ ¬ base.flags &&& flagTransitive = 0)

def TypeLenFits (base : BGPPathAttrBase) : Prop :=
  ∀ length, attrTypeLenMap base.code = some length → length = base.length

/-- Flags, length and code agree with what the tables and the general rules ask for. -/
structure Accepted (base : BGPPathAttrBase) : Prop where
  typeFlags : base.TypeFlagsFit
  flags : base.FlagsFit
  typeLen : base.TypeLenFits
  recognized : ¬ (base.flags &&& flagOptional = 0 ∧ base.code ≥ attrTypeUnknown)

end BGPPathAttrBase

section Checks

variable (base : BGPPathAttrBase) (pkt : Bytes)

/-- A check that reports passes exactly when its condition holds. -/
structure ReportsUnless (condition : Prop) (result : Call Unit) : Prop where
  passes : result = .ok () ↔ condition
  returns : result.Returns ↔ condition ∨ base.totalLen.toNat ≤ pkt.length

namespace BGPPathAttrBase

theorem checkTypeFlags_spec :
    ReportsUnless base pkt base.TypeFlagsFit (base.checkTypeFlags pkt) := by
  unfold checkTypeFlags TypeFlagsFit
  cases known : attrTypeFlagsMap base.code with
  | none => exact ⟨by simp, by simp⟩
  | some pair =>
    obtain ⟨flags, mask⟩ := pair
    by_cases fit : (flags ^^^ base.flags) &&& mask = 0
    · exact ⟨by simp [fit], by simp [fit]⟩
    · exact ⟨by simp [fit], by simp [fit]⟩

theorem checkTypeLen_spec : ReportsUnless base pkt base.TypeLenFits (base.checkTypeLen pkt) := by
  unfold checkTypeLen TypeLenFits
  cases known : attrTypeLenMap base.code with
  | none => exact ⟨by simp, by simp⟩
  | some length =>
    by_cases fit : length = base.length
    · exact ⟨by simp [fit], by simp [fit]⟩
    · exact ⟨by simp [fit], by simp [fit]⟩

theorem checkFlags_spec : ReportsUnless base pkt base.FlagsFit (base.checkFlags pkt) := by
  unfold checkFlags FlagsFit
  by_cases optional : base.flags &&& flagOptional = 0 <;>
    by_cases transitive : base.flags &&& flagTransitive = 0 <;>
    by_cases cut : base.flags &&& flagPartial = 0 <;>
    exact ⟨by simp [optional, transitive, cut], by simp [optional, transitive, cut]⟩

end BGPPathAttrBase

/-- Checks in a row pass exactly when each of them does. -/
theorem ReportsUnless.bind {base : BGPPathAttrBase} {pkt : Bytes} {first second : Prop}
    {check next : Call Unit} (checked : ReportsUnless base pkt first check)
    (following : ReportsUnless base pkt second next) :
    ReportsUnless base pkt (first ∧ second) (check >>= fun _ => next) where
  passes := by
    rw [bind_eq_ok, ← checked.passes, ← following.passes]
    exact ⟨fun ⟨_, passed, rest⟩ => ⟨passed, rest⟩, fun ⟨passed, rest⟩ => ⟨(), passed, rest⟩⟩
  returns := by
    rw [bind_returns, checked.returns, following.returns]
    -- The second check is only entered when the first one passed.
    constructor
    · rintro ⟨passed | whole, rest⟩
      · rcases rest () (checked.passes.mpr passed) with second | whole
        · exact .inl ⟨passed, second⟩
        · exact .inr whole
      · exact .inr whole
    · rintro (⟨passed, second⟩ | whole)
      · exact ⟨.inl passed, fun _ _ => .inl second⟩
      · exact ⟨.inr whole, fun _ _ => .inr whole⟩

theorem ReportsUnless.of_ite {base : BGPPathAttrBase} {pkt : Bytes} {wrong : Prop}
    [Decidable wrong] {subTypeCode : UInt8} {message : String} : ReportsUnless base pkt (¬ wrong)
      (if wrong then base.report pkt subTypeCode message else .ok ()) := by
  by_cases faulty : wrong
  · exact ⟨by simp [faulty], by simp [faulty]⟩
  · exact ⟨by simp [faulty], by simp [faulty]⟩

/-- A value that does not fit is refused before anything else is looked at. -/
theorem BGPPathAttrBase.checkHeader_refused
    (cut : pkt.length < (base.length + base.bgpPathAttrLen).toNat) :
    base.checkHeader pkt = .error
      ⟨bgpUpdateMsgError, bgpMalformedAttrList, pkt, "Not enough data to decode"⟩ := by
  simp only [BGPPathAttrBase.checkHeader, cut, if_true, error_bind]

/-- Behind the length check, a header passes when it is accepted and is reported otherwise. -/
theorem BGPPathAttrBase.checkHeader_spec
    (room : (base.length + base.bgpPathAttrLen).toNat ≤ pkt.length) :
    ReportsUnless base pkt base.Accepted (base.checkHeader pkt) := by
  have accepted : base.Accepted ↔ base.TypeFlagsFit ∧ base.FlagsFit ∧ base.TypeLenFits ∧
      ¬ (base.flags &&& flagOptional = 0 ∧ base.code ≥ attrTypeUnknown) :=
    ⟨fun ⟨a, b, c, d⟩ => ⟨a, b, c, d⟩, fun ⟨a, b, c, d⟩ => ⟨a, b, c, d⟩⟩
  rw [accepted, BGPPathAttrBase.checkHeader, if_neg (by omega)]
  exact (base.checkTypeFlags_spec pkt).bind
    ((base.checkFlags_spec pkt).bind ((base.checkTypeLen_spec pkt).bind .of_ite))

end Checks

/-- What is known of an attribute whose header was decoded. -/
structure HeaderRead (pkt : Bytes) (base : BGPPathAttrBase) : Prop where
  flags : pkt[0]? = some base.flags
  code : pkt[1]? = some base.code
  width : base.bgpPathAttrLen = 3 ∧ 3 ≤ pkt.length ∧ base.length.toNat < 256 ∨
    base.bgpPathAttrLen = 4 ∧ 4 ≤ pkt.length
  room : (base.length + base.bgpPathAttrLen).toNat ≤ pkt.length
  accepted : base.Accepted

namespace BGPPathAttrBase

theorem decode_ok {pkt : Bytes} {base : BGPPathAttrBase}
    (decoded : decode pkt = .ok base) : HeaderRead pkt base := by
  rcases readHeader_cases pkt with ⟨fault, refused⟩ |
    ⟨found, read, code, width, flags⟩
  · simp [decode, refused] at decoded
  · simp only [decode, read, ok_bind, bind_eq_ok] at decoded
    obtain ⟨_, passed, built⟩ := decoded
    cases built
    by_cases room : (base.length + base.bgpPathAttrLen).toNat ≤ pkt.length
    · exact ⟨flags, code, width, room, (base.checkHeader_spec pkt room).passes.mp passed⟩
    · rw [base.checkHeader_refused pkt (by omega)] at passed
      cases passed

/-- The only panic is a report that quotes more bytes than there are. -/
theorem decode_returns (pkt : Bytes) : (decode pkt).Returns ↔ ∀ base, readHeader pkt = .ok base →
        (base.length + base.bgpPathAttrLen).toNat ≤ pkt.length →
        base.Accepted ∨ base.totalLen.toNat ≤ pkt.length := by
  rcases readHeader_cases pkt with ⟨fault, refused⟩ | ⟨found, read, _, _⟩
  · simp [decode, refused]
  · simp only [decode, read, ok_bind, bind_returns,
      pure_eq, returns_ok, implies_true, and_true, ok.injEq,
      forall_eq']
    by_cases room : (found.length + found.bgpPathAttrLen).toNat ≤ pkt.length
    · simp only [room, true_implies]
      exact (found.checkHeader_spec pkt room).returns
    · rw [found.checkHeader_refused pkt (by omega)]
      simp only [returns_error, room, false_implies]

@[simp] theorem decode_ne_hang (pkt : Bytes) : decode pkt ≠ .hang := by
  rcases readHeader_cases pkt with ⟨fault, refused⟩ | ⟨found, read, _, _⟩
  · simp [decode, refused]
  · simp [decode, read, bind_eq_hang]

end BGPPathAttrBase

namespace HeaderRead

variable {pkt : Bytes} {base : BGPPathAttrBase}

theorem width_toNat (header : HeaderRead pkt base) :
    base.bgpPathAttrLen.toNat = 3 ∧ base.length.toNat < 256 ∨ base.bgpPathAttrLen.toNat = 4 := by
  rcases header.width with ⟨three, _, short⟩ | ⟨four, _⟩
  · exact .inl ⟨by rw [three]; rfl, short⟩
  · exact .inr (by rw [four]; rfl)

theorem opened (header : HeaderRead pkt base) : base.bgpPathAttrLen.toNat ≤ pkt.length := by
  rcases header.width with ⟨three, long, _⟩ | ⟨four, long⟩
  · rw [three]; exact long
  · rw [four]; exact long

theorem whole (header : HeaderRead pkt base) (short : base.length.toNat < 65532) :
    base.totalLen.toNat ≤ pkt.length := by
  have room := header.room
  have width := header.width_toNat
  rw [UInt16.toNat_add] at room
  rw [base.totalLen_toNat]
  omega

end HeaderRead

section Bases

variable {pkt : Bytes} {peerAttrs : BGPPeerAttrs} {fuel : Nat}

/-- The attribute carries the header that was decoded for it. -/
def CarriesHeader {α : Type} (pkt : Bytes) (base : α → BGPPathAttrBase) (attr : α) : Prop :=
  BGPPathAttrBase.decode pkt = .ok (base attr)

/-- Whatever attribute is decoded, it carries the header that was decoded for it. -/
theorem attrDecode_base :
    (BGPPathAttr.decode fuel pkt peerAttrs).Yields (CarriesHeader pkt BGPPathAttr.base) := by
  -- Each decoder begins with the header, and builds the attribute around it.
  have wrapped : ∀ {α : Type} (wrap : α → BGPPathAttr) (rest : BGPPathAttrBase → Call α),
      (∀ base, (rest base).Yields fun attr => (wrap attr).base = base) →
      (do return wrap (← BGPPathAttrBase.decode pkt >>= rest) : Call BGPPathAttr).Yields
        (CarriesHeader pkt BGPPathAttr.base) := by
    intro α wrap rest carried
    refine .bind fun attr decoded => .ok ?_
    obtain ⟨base, read, built⟩ := bind_eq_ok.mp decoded
    rw [CarriesHeader, carried base attr built]
    exact read
  refine .bind fun code _ => .ite ?_ (.ite ?_ (.ite ?_ (.ite ?_ (.ite ?_ (.ite ?_ (.ite ?_
    (.ite ?_ (.ite ?_ (.ite ?_ (.ite ?_ (.ite ?_ (.ite ?_ ?_))))))))))))
  · exact wrapped .origin _ fun _ => .bind fun _ _ => .ite (.bind fun _ _ => .ok rfl) (.ok rfl)
  · exact wrapped .asPath _ fun _ => .bind fun _ _ => .ok rfl
  · exact wrapped .nextHop _ fun _ => .bind fun _ _ => .bind fun _ _ => .ok rfl
  · exact wrapped .multiExitDisc _ fun _ => .bind fun _ _ => .bind fun _ _ => .ok rfl
  · exact wrapped .localPref _ fun _ => .bind fun _ _ => .bind fun _ _ => .ok rfl
  · exact .bind fun _ read => .ok read
  · refine wrapped .aggregator _ fun _ => .ite (.bind fun _ _ => ?_) ?_ <;>
      exact .bind fun _ _ => .bind fun _ _ => .bind fun _ _ => .bind fun _ _ => .ok rfl
  · exact wrapped .originatorId _ fun _ => .bind fun _ _ => .bind fun _ _ => .ok rfl
  · exact wrapped .clusterList _ fun _ => .bind fun _ _ => .ok rfl
  · exact wrapped .mpReachNLRI _ fun _ => .bind fun _ _ => .bind fun _ _ => .bind fun _ _ =>
      .bind fun _ _ => .bind fun _ _ => .bind fun _ _ => .bind fun _ _ => .bind fun _ _ => .ok rfl
  · exact wrapped .mpUnreachNLRI _ fun _ => .bind fun _ _ => .bind fun _ _ => .bind fun _ _ =>
      .bind fun _ _ => .bind fun _ _ => .ok rfl
  · exact wrapped .as4Path _ fun _ => .bind fun _ _ => .ok rfl
  · exact wrapped .as4Aggregator _ fun _ => .bind fun _ _ => .bind fun _ _ => .bind fun _ _ =>
      .bind fun _ _ => .bind fun _ _ => .ok rfl
  · exact wrapped .unknown _ fun _ => .bind fun _ _ => .bind fun _ _ => .ok rfl

end Bases

end FlexSwitch.Packet
