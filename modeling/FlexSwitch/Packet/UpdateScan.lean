import FlexSwitch.Packet.AttrSafety
import FlexSwitch.Packet.Update

/-! The attribute loop of an UPDATE message: budgets, positions, and how its rounds move. -/

namespace FlexSwitch.Packet

open Go Outcome

theorem steady_decodeNLRI (pkt : Bytes) (length : UInt32) (afi : UInt16)
    (peerAttrs : BGPPeerAttrs) :
    Steady fun fuel => decodeNLRI fuel pkt length afi peerAttrs :=
  Steady.ite (steady_const _) (steady_plainLoop _ _)

/-- More budget never changes how an attribute was decoded. -/
theorem steady_attrDecode (pkt : Bytes) (peerAttrs : BGPPeerAttrs) :
    Steady fun fuel => BGPPathAttr.decode fuel pkt peerAttrs := by
  -- Only the loops over segments and prefixes spend any of it.
  have path : Steady fun fuel => BGPPathAttrASPath.decode fuel pkt peerAttrs :=
    Steady.after fun _ => Steady.bind (steady_plainLoop _ _) fun _ => steady_const _
  have path4 : Steady fun fuel => BGPPathAttrAS4Path.decode fuel pkt :=
    Steady.after fun _ => Steady.bind (steady_plainLoop _ _) fun _ => steady_const _
  have reach : Steady fun fuel => BGPPathAttrMPReachNLRI.decode fuel pkt peerAttrs := by
    refine Steady.after fun base => ?_
    unfold BGPPathAttrMPReachNLRI.decodeValue
    refine Steady.after fun _ => Steady.after fun _ => Steady.after fun _ => Steady.after fun _ =>
      Steady.after fun _ => Steady.after fun _ => Steady.after fun _ =>
      Steady.bind (steady_decodeNLRI _ _ _ _) fun _ => steady_const _
  have unreach : Steady fun fuel => BGPPathAttrMPUnreachNLRI.decode fuel pkt peerAttrs := by
    refine Steady.after fun base => ?_
    unfold BGPPathAttrMPUnreachNLRI.decodeValue
    refine Steady.after fun _ => Steady.after fun _ => Steady.after fun _ => Steady.after fun _ =>
      Steady.bind (steady_decodeNLRI _ _ _ _) fun _ => steady_const _
  unfold BGPPathAttr.decode
  refine Steady.after fun code => ?_
  exact Steady.ite (steady_const _) <|
    Steady.ite (path.bind fun _ => steady_const _) <| Steady.ite (steady_const _) <|
    Steady.ite (steady_const _) <| Steady.ite (steady_const _) <| Steady.ite (steady_const _) <|
    Steady.ite (steady_const _) <| Steady.ite (steady_const _) <| Steady.ite (steady_const _) <|
    Steady.ite (reach.bind fun _ => steady_const _) <|
    Steady.ite (unreach.bind fun _ => steady_const _) <|
    Steady.ite (path4.bind fun _ => steady_const _) <| Steady.ite (steady_const _) (steady_const _)

/-- An attribute takes up its three or four header bytes at least. -/
theorem attrDecode_totalLen {pkt : Bytes} {peerAttrs : BGPPeerAttrs} {fuel : Nat}
    {attr : BGPPathAttr} (decoded : BGPPathAttr.decode fuel pkt peerAttrs = .ok attr) :
    3 ≤ attr.totalLen.toNat ∧ attr.totalLen.toNat ≤ 65539 := by
  have header := BGPPathAttrBase.decode_ok (attrDecode_base attr decoded)
  have total := attr.base.totalLen_toNat
  have width := header.width_toNat
  have length := attr.base.length.toNat_lt
  rw [BGPPathAttr.totalLen]
  omega

/-- The positions at which the attribute loop reads an attribute. -/
def AttrAt (pkt : Bytes) (peerAttrs : BGPPeerAttrs) (limit start : Nat) : Nat → Prop :=
  Walk (fun position attr => ∃ fuel, BGPPathAttr.decode fuel (pkt.drop position) peerAttrs =
    .ok attr) (fun attr => attr.totalLen.toNat) limit start

section AttrLoop

variable {pkt : Bytes} {peerAttrs : BGPPeerAttrs} {fuel limit : Nat}
  {origin cursor later : AttrCursor}

/-- A round that goes on has decoded an attribute and stepped over it. -/
theorem attrRound_next
    (advanced : attrRound pkt peerAttrs fuel cursor = .ok (.next later)) :
    0 < cursor.length ∧ cursor.ptr.toNat ≤ pkt.length ∧ ∃ attr,
      BGPPathAttr.decode fuel (pkt.drop cursor.ptr.toNat) peerAttrs = .ok attr ∧
      later = ⟨cursor.ptr + attr.totalLen, cursor.length - attr.totalLen.toNat,
        cursor.pathAttributes ++ [attr]⟩ := by
  unfold attrRound at advanced
  split at advanced
  · rename_i left
    simp only [bind_eq_ok, sliceFrom_eq_ok] at advanced
    obtain ⟨rest, ⟨inside, rfl⟩, attr, decoded, built⟩ := advanced
    cases built
    exact ⟨left, inside, attr, decoded, rfl⟩
  · split at advanced
    · cases advanced
    · cases advanced

/-- A round that stops has no bytes left, and hands its cursor on. -/
theorem attrRound_stop (stopped : attrRound pkt peerAttrs fuel cursor = .ok (.stop later)) :
    cursor = later ∧ cursor.length = 0 := by
  unfold attrRound at stopped
  split at stopped
  · simp only [bind_eq_ok, pure_eq, ok.injEq, reduceCtorEq, and_false, exists_false] at stopped
  · split at stopped
    · cases stopped
    · cases stopped
      exact ⟨rfl, by omega⟩

/-- Cursor and bytes left always add up to where the attributes end. -/
def AttrCursor.Placed (cursor : AttrCursor) (limit : Nat) : Prop :=
  (cursor.ptr.toNat : Int) + cursor.length = limit

theorem AttrCursor.Placed.step (placed : cursor.Placed limit) (near : limit < 2 ^ 31)
    (left : 0 < cursor.length) {attr : BGPPathAttr} (bound : attr.totalLen.toNat ≤ 65539) :
    (cursor.ptr + attr.totalLen).toNat = cursor.ptr.toNat + attr.totalLen.toNat := by
  unfold AttrCursor.Placed at placed
  rw [UInt32.toNat_add]
  omega

theorem attrRound_shrinks (advanced : attrRound pkt peerAttrs fuel cursor = .ok (.next later)) :
    later.length.toNat < cursor.length.toNat := by
  obtain ⟨left, _, attr, decoded, rfl⟩ := attrRound_next advanced
  have size := attrDecode_totalLen decoded
  show (cursor.length - attr.totalLen.toNat).toNat < cursor.length.toNat
  omega

variable (near : limit < 2 ^ 31) (begun : origin.Placed limit)

include near begun

theorem attrRound_placed
    (reached : Reaches (attrRound pkt peerAttrs fuel) origin cursor) : cursor.Placed limit := by
  refine reached.invariant (fun state => state.Placed limit) begun ?_
  intro state later placed advanced
  obtain ⟨left, _, attr, decoded, rfl⟩ := attrRound_next advanced
  have moved := placed.step near left (attrDecode_totalLen decoded).2
  -- What the cursor gains the length loses.
  unfold AttrCursor.Placed at placed ⊢
  simp only [moved]
  omega

/-- The rounds of the loop move along the walk over the attributes. -/
theorem attrAt_of_reaches (reached : Reaches (attrRound pkt peerAttrs fuel) origin cursor) :
    AttrAt pkt peerAttrs limit origin.ptr.toNat cursor.ptr.toNat := by
  refine reached.walk (fun state => state.ptr.toNat) ?_
  intro state later before advanced
  have placed := attrRound_placed near begun before
  obtain ⟨left, _, attr, decoded, rfl⟩ := attrRound_next advanced
  refine ⟨attr, ?_, ⟨fuel, decoded⟩, placed.step near left (attrDecode_totalLen decoded).2⟩
  unfold AttrCursor.Placed at placed
  show state.ptr.toNat < limit
  omega

/-- Every position of the walk is the cursor of some round, if the rounds before it all end. -/
theorem reaches_of_attrAt {position : Nat} (ended : ∀ cursor, Reaches (attrRound pkt peerAttrs fuel) origin cursor → 0 < cursor.length →
      BGPPathAttr.decode fuel (pkt.drop cursor.ptr.toNat) peerAttrs ≠ .hang)
    (walked : AttrAt pkt peerAttrs limit origin.ptr.toNat position) (within : position < limit) :
    ∃ cursor, Reaches (attrRound pkt peerAttrs fuel) origin cursor ∧
      cursor.ptr.toNat = position := by
  refine Walk.reaches (fun state : AttrCursor => state.ptr.toNat) walked within ?_
  rintro state attr reached below ⟨other, decoded⟩ _
  have placed := attrRound_placed near begun reached
  have left : 0 < state.length := by
    unfold AttrCursor.Placed at placed
    omega
  -- Both budgets gave an answer, so they gave the same one.
  have same : BGPPathAttr.decode fuel (pkt.drop state.ptr.toNat) peerAttrs = .ok attr := by
    rw [← decoded]
    refine (steady_attrDecode _ _).agree (ended state reached left) ?_
    rw [decoded]
    simp
  have inside : state.ptr.toNat ≤ pkt.length := by
    by_contra outside
    rw [List.drop_eq_nil_of_le (by omega)] at same
    simp [BGPPathAttr.decode, index] at same
  refine ⟨⟨state.ptr + attr.totalLen, state.length - attr.totalLen.toNat,
    state.pathAttributes ++ [attr]⟩, ?_, placed.step near left (attrDecode_totalLen same).2⟩
  simp only [attrRound, left, if_true, sliceFrom_of_le inside, ok_bind, same, pure_eq]

end AttrLoop

end FlexSwitch.Packet
