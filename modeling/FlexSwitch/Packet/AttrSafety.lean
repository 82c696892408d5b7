import FlexSwitch.Packet.AttrValue

/-! Exactly which attributes are read without a panic and without a loop that never ends. -/

namespace FlexSwitch.Packet

open Go List Outcome

/-- The two-byte segment loop of this AS_PATH comes to a segment that holds it in place. -/
def PathStalls (asSize : UInt8) (base : BGPPathAttrBase) (pkt : Bytes) : Prop :=
  asSize ≠ 4 ∧ ∃ position,
    SegmentAt (BGPASPathSegment.decode asSize) BGPASPathSegment.totalLen base pkt position ∧
    position < base.totalLen.toNat ∧ StallingSegment (pkt.drop position)

/-- What an attribute's own decoder needs, by type, once the header has been decoded. -/
def ValueSafe (base : BGPPathAttrBase) (pkt : Bytes) (peerAttrs : BGPPeerAttrs) : Prop :=
  if base.code = attrTypeASPath then ¬ PathStalls peerAttrs.asSize base pkt
  else if base.code = attrTypeAS4Path then True
  else if base.code = attrTypeAggregator then AggregatorSafe base pkt peerAttrs.asSize
  else if base.code = attrTypeMPReachNLRI then
    MPReachSafe base.length peerAttrs.addPathsRxActual (pkt.drop base.bgpPathAttrLen.toNat)
  else if base.code = attrTypeMPUnreachNLRI then
    MPUnreachSafe base.length peerAttrs.addPathsRxActual (pkt.drop base.bgpPathAttrLen.toNat)
  else base.totalLen.toNat ≤ pkt.length

/--
The bytes at which an attribute is decoded without a panic and without an endless loop.

The type code must be there, a header that will be refused must not announce more than the buffer
holds, and an accepted one must be followed by what its type needs.
-/
structure AttrSafe (pkt : Bytes) (peerAttrs : BGPPeerAttrs) : Prop where
  code : 2 ≤ pkt.length
  header : ∀ base, BGPPathAttrBase.readHeader pkt = .ok base →
    (base.length + base.bgpPathAttrLen).toNat ≤ pkt.length →
    base.Accepted ∨ base.totalLen.toNat ≤ pkt.length
  value : ∀ base, BGPPathAttrBase.decode pkt = .ok base → ValueSafe base pkt peerAttrs

/-- A budget of loop rounds that is enough for any one attribute. -/
def attrBudget : Nat := 131072

theorem segmentsAdvance_iff (asSize : UInt8) (base : BGPPathAttrBase) (pkt : Bytes) :
    SegmentsAdvance (BGPASPathSegment.decode asSize) BGPASPathSegment.totalLen base pkt ↔
      ¬ PathStalls asSize base pkt := by
  by_cases four : asSize = 4
  · subst four
    simp [PathStalls, asPathSegments_advance_four]
  · rw [asPathSegments_advance_iff four]
    constructor
    · rintro clear ⟨_, position, walked, within, stalling⟩
      exact clear position walked within stalling
    · intro clear position walked within stalling
      exact clear ⟨four, position, walked, within, stalling⟩

section Decoders

variable {pkt : Bytes} {peerAttrs : BGPPeerAttrs} {fuel : Nat}

theorem totalLen_lt_budget (base : BGPPathAttrBase) (enough : attrBudget ≤ fuel) :
    base.totalLen.toNat < fuel := by
  have total := base.totalLen_toNat
  have length := base.length.toNat_lt
  have width := base.bgpPathAttrLen.toNat_lt
  unfold attrBudget at enough
  omega

/-- A fixed-length attribute that was accepted lies inside the buffer. -/
theorem HeaderRead.whole_of_fixed {base : BGPPathAttrBase} {length : UInt16}
    (header : HeaderRead pkt base) (fixed : attrTypeLenMap base.code = some length)
    (little : length.toNat < 65532) : base.totalLen.toNat ≤ pkt.length := by
  apply header.whole
  rw [← header.accepted.typeLen length fixed]
  exact little

/-- An ORIGIN value is one byte, which the fixed length provides. -/
theorem origin_returns (base : BGPPathAttrBase) (header : HeaderRead pkt base)
    (code : base.code = attrTypeOrigin) :
    (do let value ← index pkt base.bgpPathAttrLen.toNat if value ≥ originMax then
          base.report pkt bgpMalformedAttrList ("Undefined ORIGIN value " ++ toString value.toNat)
        return ({ toBGPPathAttrBase := base, value := value } : BGPPathAttrOrigin) :
      Call BGPPathAttrOrigin).Returns ↔ base.totalLen.toNat ≤ pkt.length := by
  have fixed : attrTypeLenMap base.code = some 1 := by rw [code]; rfl
  have whole := header.whole_of_fixed fixed (by decide)
  have one := header.accepted.typeLen 1 fixed
  have total := base.totalLen_toNat
  rw [← one] at total
  simp only [UInt16.reduceToNat] at total
  have inside : base.bgpPathAttrLen.toNat < pkt.length := by omega
  simp only [whole, iff_true, index_of_lt inside, ok_bind]
  split <;> simp [bind_returns, whole]

/-- The segment loop of AS_PATH ends unless it stalls. -/
theorem asPath_returns (enough : attrBudget ≤ fuel) (base : BGPPathAttrBase)
    (header : HeaderRead pkt base) :
    (do let value ← loop (segmentRound (BGPASPathSegment.decode peerAttrs.asSize)
          BGPASPathSegment.totalLen base pkt) fuel ⟨base.bgpPathAttrLen.toUInt32, []⟩
        return ({ toBGPPathAttrBase := base, value := value, asSize := peerAttrs.asSize } :
          BGPPathAttrASPath) : Call BGPPathAttrASPath).Returns ↔
      ¬ PathStalls peerAttrs.asSize base pkt := by
  rw [← segmentsAdvance_iff, bind_returns]
  simp only [pure_eq, returns_ok, implies_true, and_true]
  have reader := asPathSegmentReader peerAttrs.asSize
  constructor
  · intro returned
    by_contra stalled
    rw [segmentLoop_hang reader fuel header.opened stalled] at returned
    exact returned
  · intro advance
    exact segmentLoop_returns reader header.opened advance (totalLen_lt_budget base enough)

/-- The segment loop of AS4_PATH always ends. -/
theorem as4Path_returns (enough : attrBudget ≤ fuel) (base : BGPPathAttrBase)
    (header : HeaderRead pkt base) :
    (do let value ← loop (segmentRound BGPAS4PathSegment.decode
          (fun seg => seg.bgpASPathSegmentLen) base pkt) fuel
          ⟨base.bgpPathAttrLen.toUInt32, []⟩
        return ({ toBGPPathAttrBase := base, value := value } : BGPPathAttrAS4Path) :
      Call BGPPathAttrAS4Path).Returns := by
  rw [bind_returns]
  refine ⟨segmentLoop_returns as4SegmentReader header.opened ?_
    (totalLen_lt_budget base enough), fun _ _ => by simp⟩
  intro position seg _ _ read
  exact as4Segment_advances read

section

variable (small : pkt.length < 65532)

include small

/-- Within an attribute's budget, a run of prefixes is read exactly when it is safe. -/
theorem nlri_returns {rest : Bytes} {length : UInt32} {afi : UInt16} (enough : attrBudget ≤ fuel)
    (shorter : rest.length ≤ pkt.length) :
    (decodeNLRI fuel rest length afi peerAttrs).Returns ↔
      PrefixesSafe rest length.toNat afi peerAttrs.addPathsRxActual := by
  unfold attrBudget at enough
  have little : rest.length < 2 ^ 32 := by omega
  exact ⟨prefixesSafe_of_returns little, decodeNLRI_returns little (by omega)⟩

theorem mpReach_returns (enough : attrBudget ≤ fuel)
    (base : BGPPathAttrBase) (header : HeaderRead pkt base) :
    (BGPPathAttrMPReachNLRI.decodeValue fuel base pkt peerAttrs).Returns ↔
      MPReachSafe base.length peerAttrs.addPathsRxActual (pkt.drop base.bgpPathAttrLen.toNat) := by
  rw [header.mpReach_returns fuel peerAttrs, MPReachSafe]
  refine exists₅_congr fun high low safi nextHopLen rest => and_congr_right fun value =>
    and_congr_right fun _ => nlri_returns small enough ?_
  have size := congrArg length value
  simp only [length_drop, length_cons] at size ⊢
  omega

theorem mpUnreach_returns (enough : attrBudget ≤ fuel)
    (base : BGPPathAttrBase) (header : HeaderRead pkt base) :
    (BGPPathAttrMPUnreachNLRI.decodeValue fuel base pkt peerAttrs).Returns ↔
      MPUnreachSafe base.length peerAttrs.addPathsRxActual
        (pkt.drop base.bgpPathAttrLen.toNat) := by
  rw [header.mpUnreach_returns fuel peerAttrs, MPUnreachSafe]
  refine exists₄_congr fun high low safi rest => and_congr_right fun value =>
    nlri_returns small enough ?_
  have size := congrArg length value
  simp only [length_drop, length_cons] at size
  omega

end

theorem number_returns {α : Type} (small : pkt.length < 65532) (base : BGPPathAttrBase)
    (header : HeaderRead pkt base) (fixed : attrTypeLenMap base.code = some 4)
    (build : UInt32 → α) :
    (do let value ← uint32 (← base.valueBytes pkt)
        return build value : Call α).Returns ↔ base.totalLen.toNat ≤ pkt.length := by
  have four := (header.accepted.typeLen 4 fixed).symm
  have whole := header.whole_of_fixed fixed (by decide)
  exact iff_of_true (header.number_returns small four build) whole

/-- Wrapping a decoded attribute in the interface adds nothing to what it needs. -/
theorem wrapped_returns {α β : Type} {call : Call α} (wrap : α → β) :
    (do return wrap (← call) : Call β).Returns ↔ call.Returns := by
  rw [bind_returns]
  simp

/-- A choice needs what both of its sides need, each where it is taken. -/
theorem ite_returns_iff {α : Type} {c : Prop} [Decidable c] {left right : Call α} {needs : Prop}
    (pos : c → (left.Returns ↔ needs)) (neg : ¬ c → (right.Returns ↔ needs)) :
    (if c then left else right).Returns ↔ needs := by
  split
  · exact pos ‹_›
  · exact neg ‹_›

/-- With enough budget an attribute is decoded exactly when it is safe. -/
theorem attrDecode_returns_iff (small : pkt.length < 65532) (enough : attrBudget ≤ fuel) :
    (BGPPathAttr.decode fuel pkt peerAttrs).Returns ↔ AttrSafe pkt peerAttrs := by
  by_cases long : 2 ≤ pkt.length
  · obtain ⟨code, read⟩ : ∃ code, pkt[1]? = some code := ⟨_, getElem?_eq_getElem long⟩
    have here : index pkt 1 = (.ok code : Call UInt8) := index_eq_ok.mpr read
    have split : AttrSafe pkt peerAttrs ↔ (BGPPathAttrBase.decode pkt).Returns ∧
        ∀ base, BGPPathAttrBase.decode pkt = .ok base → ValueSafe base pkt peerAttrs := by
      rw [BGPPathAttrBase.decode_returns]
      exact ⟨fun safe => ⟨safe.header, safe.value⟩, fun ⟨header, value⟩ => ⟨long, header, value⟩⟩
    -- For each code, the decoder's needs are the ones listed under that code.
    have branch : ∀ {α : Type} {known : UInt8} (wrap : α → BGPPathAttr)
        (rest : BGPPathAttrBase → Call α), code = known →
        (∀ base, HeaderRead pkt base → base.code = known →
          ((rest base).Returns ↔ ValueSafe base pkt peerAttrs)) →
        ((do return wrap (← BGPPathAttrBase.decode pkt >>= rest) : Call BGPPathAttr).Returns ↔
          AttrSafe pkt peerAttrs) := by
      rintro α known wrap rest rfl needs
      rw [wrapped_returns, split, bind_returns]
      refine and_congr_right fun _ => forall₂_congr fun base decoded => ?_
      have header := BGPPathAttrBase.decode_ok decoded
      exact needs base header (Option.some.inj (header.code.symm.trans read))
    rw [BGPPathAttr.decode, here, ok_bind]
    refine ite_returns_iff (fun origin => branch _ _ origin fun base header same => ?_)
      fun origin => ?_
    · rw [origin_returns base header same, ValueSafe, same]
      rfl
    refine ite_returns_iff (fun asPath => branch _ _ asPath fun base header same => ?_)
      fun asPath => ?_
    · rw [asPath_returns enough base header, ValueSafe, same]
      rfl
    refine ite_returns_iff (fun nextHop => branch _ _ nextHop fun base header same => ?_)
      fun nextHop => ?_
    · rw [header.copied_returns small, ValueSafe, same]
      rfl
    refine ite_returns_iff (fun med => branch _ _ med fun base header same => ?_)
      fun med => ?_
    · rw [number_returns small base header (by rw [same]; rfl), ValueSafe, same]
      rfl
    refine ite_returns_iff (fun pref => branch _ _ pref fun base header same => ?_)
      fun pref => ?_
    · rw [number_returns small base header (by rw [same]; rfl), ValueSafe, same]
      rfl
    refine ite_returns_iff (fun atomic => ?_) fun atomic => ?_
    · rw [← bind_pure (BGPPathAttrBase.decode pkt)]
      refine branch _ _ atomic fun base header same => ?_
      have whole := header.whole_of_fixed (show attrTypeLenMap base.code = some 0 by
        rw [same]; rfl) (by decide)
      rw [ValueSafe, same]
      exact iff_of_true trivial whole
    refine ite_returns_iff (fun aggregator => branch _ _ aggregator fun base header same => ?_)
      fun aggregator => ?_
    · rw [header.aggregator_returns, ValueSafe, same]
      rfl
    refine ite_returns_iff (fun originator => branch _ _ originator fun base header same => ?_)
      fun originator => ?_
    · rw [header.copied_returns small, ValueSafe, same]
      rfl
    refine ite_returns_iff (fun clusters => branch _ _ clusters fun base header same => ?_)
      fun clusters => ?_
    · rw [wrapped_returns, header.clusters_returns small, ValueSafe, same]
      rfl
    refine ite_returns_iff (fun reach => branch _ _ reach fun base header same => ?_)
      fun reach => ?_
    · rw [mpReach_returns small enough base header, ValueSafe, same]
      rfl
    refine ite_returns_iff (fun unreach => branch _ _ unreach fun base header same => ?_)
      fun unreach => ?_
    · rw [mpUnreach_returns small enough base header, ValueSafe, same]
      rfl
    refine ite_returns_iff (fun as4Path => branch _ _ as4Path fun base header same => ?_)
      fun as4Path => ?_
    · rw [ValueSafe, same]
      exact iff_of_true (as4Path_returns enough base header) trivial
    refine ite_returns_iff (fun as4Aggregator => branch _ _ as4Aggregator fun base header same => ?_)
      fun as4Aggregator => ?_
    · have fixed : attrTypeLenMap base.code = some 8 := by rw [same]; rfl
      have whole := header.whole_of_fixed fixed (by decide)
      rw [ValueSafe, same]
      exact iff_of_true
        (header.as4Aggregator_returns (header.accepted.typeLen 8 fixed).symm _) whole
    refine branch _ _ rfl fun base header same => ?_
    rw [header.copied_returns small, ValueSafe, same, if_neg asPath, if_neg as4Path,
      if_neg aggregator, if_neg reach, if_neg unreach]
  · -- Without its type code the attribute cannot even be told apart.
    have short : pkt.length ≤ 1 := by omega
    rw [BGPPathAttr.decode, index_of_le short]
    exact iff_of_false (by simp) fun safe => long safe.code

end Decoders

/-- The attribute in front is an AS_PATH whose segment loop never ends. -/
def AttrStalls (pkt : Bytes) (asSize : UInt8) : Prop :=
  ∃ base, BGPPathAttrBase.decode pkt = .ok base ∧ base.code = attrTypeASPath ∧
    PathStalls asSize base pkt

section Endings

variable {pkt : Bytes} {peerAttrs : BGPPeerAttrs} {fuel : Nat}

@[simp] theorem readClusters_ne_hang (bgpPathAttrLen : UInt16) (count : Nat) (i : UInt16) :
    readClusters pkt bgpPathAttrLen count i ≠ .hang := by
  induction count generalizing i with
  | zero => simp [readClusters]
  | succ count ih => simp [readClusters, bind_eq_hang, ih]

@[simp] theorem aggregatorAS_decode_ne_hang (asSize : UInt8) (buf : Bytes) :
    BGPAggregatorAS.decode asSize buf ≠ .hang := by
  simp [BGPAggregatorAS.decode, bind_eq_hang, ite_eq_hang]

@[simp] theorem mpNextHop_decode_ne_hang (afi : UInt16) (buf : Bytes) :
    MPNextHop.decode afi buf ≠ .hang := by
  simp [MPNextHop.decode, MPNextHopIP.decode, MPNextHopUnknown.decode, bind_eq_hang, ite_eq_hang]

/-- The prefixes behind any position are read, or refused, within the budget. -/
theorem nlri_ne_hang {position : Nat} {rest : Bytes} {length : UInt32} {afi : UInt16}
    (small : pkt.length < 2 ^ 32) (room : pkt.length < fuel)
    (sliced : (sliceFrom pkt position : Call Bytes) = .ok rest) :
    decodeNLRI fuel rest length afi peerAttrs ≠ .hang := by
  obtain ⟨_, rfl⟩ := sliceFrom_eq_ok.mp sliced
  have shorter : (pkt.drop position).length ≤ pkt.length := by simp
  exact decodeNLRI_ne_hang (by omega) (by omega)

/-- Every attribute but AS_PATH is decoded, or refused, within its budget. -/
theorem attrDecode_ne_hang (small : pkt.length < 2 ^ 32) (enough : attrBudget ≤ fuel)
    (room : pkt.length < fuel) (other : pkt[1]? ≠ some attrTypeASPath) :
    BGPPathAttr.decode fuel pkt peerAttrs ≠ .hang := by
  -- The three decoders with a loop in them come first.
  have path4 : BGPPathAttrAS4Path.decode fuel pkt ≠ .hang := by
    refine bind_ne_hang (by simp) fun base decoded => ?_
    intro stuck
    have returned := as4Path_returns enough base (BGPPathAttrBase.decode_ok decoded)
    rw [stuck] at returned
    exact returned
  have reach : BGPPathAttrMPReachNLRI.decode fuel pkt peerAttrs ≠ .hang := by
    iterate 7 refine bind_ne_hang (by simp) fun _ _ => ?_
    refine bind_ne_hang (by simp) fun _ sliced => ?_
    exact bind_ne_hang (nlri_ne_hang small room sliced) fun _ _ => by simp
  have unreach : BGPPathAttrMPUnreachNLRI.decode fuel pkt peerAttrs ≠ .hang := by
    iterate 4 refine bind_ne_hang (by simp) fun _ _ => ?_
    refine bind_ne_hang (by simp) fun _ sliced => ?_
    exact bind_ne_hang (nlri_ne_hang small room sliced) fun _ _ => by simp
  refine bind_ne_hang (by simp) fun code read => ?_
  have notPath : code ≠ attrTypeASPath := by
    rintro rfl
    exact other (index_eq_ok.mp read)
  simp [notPath, path4, reach, unreach, BGPPathAttrOrigin.decode, BGPPathAttrNextHop.decode,
    BGPPathAttrMultiExitDisc.decode, BGPPathAttrLocalPref.decode, BGPPathAttrAggregator.decode,
    BGPPathAttrAggregator.decodeValue, BGPPathAttrOriginatorId.decode,
    BGPPathAttrClusterList.decode, BGPPathAttrAS4Aggregator.decode, BGPPathAttrUnknown.decode,
    BGPPathAttrBase.valueBytes, bind_eq_hang, ite_eq_hang]

/-- Within the budget of an attribute, only a stalling AS_PATH keeps its decoder looping. -/
theorem attrDecode_hang_iff (small : pkt.length < 2 ^ 32) (enough : attrBudget ≤ fuel)
    (room : pkt.length < fuel) :
    BGPPathAttr.decode fuel pkt peerAttrs = .hang ↔ AttrStalls pkt peerAttrs.asSize := by
  by_cases path : pkt[1]? = some attrTypeASPath
  · have read : index pkt 1 = (.ok attrTypeASPath : Call UInt8) := index_eq_ok.mpr path
    have loops : ∀ base, BGPPathAttrBase.decode pkt = .ok base →
        (loop (segmentRound (BGPASPathSegment.decode peerAttrs.asSize) BGPASPathSegment.totalLen
          base pkt) fuel ⟨base.bgpPathAttrLen.toUInt32, []⟩ = .hang ↔
        PathStalls peerAttrs.asSize base pkt) := by
      intro base decoded
      have opened := (BGPPathAttrBase.decode_ok decoded).opened
      have reader := asPathSegmentReader peerAttrs.asSize
      rw [← not_iff_not, ← segmentsAdvance_iff]
      constructor
      · intro ended
        by_contra stalled
        exact ended (segmentLoop_hang reader fuel opened stalled)
      · intro advance
        have returned := segmentLoop_returns reader opened advance (totalLen_lt_budget base enough)
        exact ((returns_iff _).mp returned).2
    rw [BGPPathAttr.decode, read, ok_bind,
      if_neg (show attrTypeASPath ≠ attrTypeOrigin by decide), if_pos rfl]
    simp only [BGPPathAttrASPath.decode, bind_eq_hang, pure_eq, reduceCtorEq,
      and_false, exists_false, or_false, BGPPathAttrBase.decode_ne_hang, false_or]
    constructor
    · rintro ⟨base, decoded, stuck⟩
      refine ⟨base, decoded, ?_, (loops base decoded).mp stuck⟩
      have code := (BGPPathAttrBase.decode_ok decoded).code
      rw [path] at code
      exact (Option.some.inj code).symm
    · rintro ⟨base, decoded, _, stalls⟩
      exact ⟨base, decoded, (loops base decoded).mpr stalls⟩
  · refine iff_of_false (attrDecode_ne_hang small enough room path) ?_
    rintro ⟨base, decoded, code, _⟩
    apply path
    rw [(BGPPathAttrBase.decode_ok decoded).code, code]

end Endings

end FlexSwitch.Packet
