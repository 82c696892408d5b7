import FlexSwitch.Packet.AttrWire
import FlexSwitch.Packet.UpdateSafety

/-! UPDATE messages on the wire: when routes and attributes are read back as they were written. -/

namespace FlexSwitch.Packet

open Go List Outcome UInt16

section Wire

def attrsWire (attrs : List BGPPathAttr) : Bytes := attrs.flatMap BGPPathAttr.wire

/-- The body of a message on the wire: each region of variable length behind its length. -/
def BGPUpdate.wire (msg : BGPUpdate) : Bytes :=
  uint16Bytes (UInt16.ofNat (nlrisWire afiIP msg.withdrawnRoutes).length) ++
    nlrisWire afiIP msg.withdrawnRoutes ++
    uint16Bytes (UInt16.ofNat (attrsWire msg.pathAttributes).length) ++
    attrsWire msg.pathAttributes ++ nlrisWire afiIP msg.nlri

/-- Canonical IPv4 prefixes around attributes that are made by their constructors. -/
structure CanonicalUpdate (peerAttrs : BGPPeerAttrs) (msg : BGPUpdate) : Prop where
  withdrawn : CanonicalList peerAttrs afiIP msg.withdrawnRoutes
  attributes : ∀ attr ∈ msg.pathAttributes, BuiltAttr peerAttrs.asSize attr
  nlri : CanonicalList peerAttrs afiIP msg.nlri

/-- The header that a message of this body is sent with. -/
def updateHeader (body : Bytes) : BGPHeader :=
  ⟨19 + UInt16.ofNat body.length, bgpMsgTypeUpdate⟩

/-- A message is written, and read back with the same routes and attributes. -/
def UpdateRoundTrips (peerAttrs : BGPPeerAttrs) (msg : BGPUpdate) : Prop :=
  ∃ body fuel read, msg.encode = .ok body ∧
    (updateMessage msg).encode BGPUpdate.encode = .ok ((updateHeader body).encode ++ body) ∧
    BGPUpdate.decode fuel (updateHeader body) body peerAttrs = .ok read ∧
    read.withdrawnRoutes.map NLRI.listed = msg.withdrawnRoutes.map NLRI.listed ∧
    read.pathAttributes.map BGPPathAttr.stated = msg.pathAttributes.map BGPPathAttr.stated ∧
    read.nlri.map NLRI.listed = msg.nlri.map NLRI.listed

end Wire

section Encoding

/-- Items that are each written as their own bytes are written one behind the other. -/
theorem encodeAll_flatMap {α : Type} {encode : α → Call Bytes} {wire : α → Bytes} {items : List α}
    (each : ∀ item ∈ items, encode item = .ok (wire item)) :
    encodeAll encode items = .ok (items.flatMap wire) :=
  foldlM_append each []

theorem attrWire_le {attr : BGPPathAttr} {attrs : List BGPPathAttr} (member : attr ∈ attrs) :
    attr.wire.length ≤ (attrsWire attrs).length := by
  rw [attrsWire, length_flatMap]
  exact le_sum_of_mem (mem_map_of_mem member)

variable {peerAttrs : BGPPeerAttrs} {msg : BGPUpdate}

theorem BGPUpdate.wire_length (msg : BGPUpdate) :
    msg.wire.length = 4 + (nlrisWire afiIP msg.withdrawnRoutes).length +
      (attrsWire msg.pathAttributes).length + (nlrisWire afiIP msg.nlri).length := by
  simp only [BGPUpdate.wire, length_append, uint16Bytes_length]
  omega

theorem CanonicalUpdate.encode (canonical : CanonicalUpdate peerAttrs msg)
    (small : 19 + msg.wire.length ≤ 4096) : msg.encode = .ok msg.wire := by
  have size := msg.wire_length
  have withdrawn := encodeAll_flatMap fun nlri member =>
    (canonical.withdrawn.canonical nlri member).encode
  have attributes := encodeAll_flatMap fun attr (member : attr ∈ msg.pathAttributes) =>
    (canonical.attributes attr member).encode (le_trans (attrWire_le member) (by omega))
  have nlri := encodeAll_flatMap fun nlri member =>
    (canonical.nlri.canonical nlri member).encode
  rw [BGPUpdate.encode, withdrawn, ok_bind, attributes, ok_bind, nlri]
  rfl

end Encoding

section Attributes

variable {peerAttrs : BGPPeerAttrs} {attrs : List BGPPathAttr} {inner : Nat} {pkt tail : Bytes}

/-- One round reads the attribute that the cursor stands at, and steps over what it has seen. -/
theorem attrRound_sees {attr : BGPPathAttr} (built : BuiltAttr peerAttrs.asSize attr)
    (small : attr.wire.length ≤ 4096) {cursor : AttrCursor}
    (behind : Behind pkt cursor.ptr.toNat (attr.wire ++ tail)) (left : 0 < cursor.length) :
    attrRound pkt peerAttrs inner cursor =
      .ok (.next ⟨cursor.ptr + attr.seen.totalLen, cursor.length - attr.seen.totalLen.toNat,
        cursor.pathAttributes ++ [attr.seen]⟩) := by
  rw [attrRound, if_pos left, behind.sliceFrom, ok_bind, built.decode small inner tail]
  rfl

theorem attrWire_pos {attr : BGPPathAttr} : 0 < attr.wire.length := by
  exact Nat.succ_pos _

/-- Behind an attribute that is short, what follows it is left. -/
theorem BuiltAttr.skip {attr : BGPPathAttr} (built : BuiltAttr peerAttrs.asSize attr)
    (short : attr.Short) {ptr : UInt32} (small : ptr.toNat + attr.wire.length ≤ 4096)
    (behind : Behind pkt ptr.toNat (attr.wire ++ tail)) :
    (ptr + attr.seen.totalLen).toNat = ptr.toNat + attr.wire.length ∧
      Behind pkt (ptr + attr.seen.totalLen).toNat tail := by
  have moved : (ptr + attr.seen.totalLen).toNat = ptr.toNat + attr.wire.length := by
    rw [UInt32.toNat_add, built.seen_totalLen (by omega) short]
    omega
  exact ⟨moved, behind.skip moved⟩

/-- The loop gives short attributes back, behind what it has read so far. -/
theorem attrLoop_reads (built : ∀ attr ∈ attrs, BuiltAttr peerAttrs.asSize attr)
    (short : ∀ attr ∈ attrs, attr.Short) {cursor : AttrCursor}
    (behind : Behind pkt cursor.ptr.toNat (attrsWire attrs ++ tail))
    (left : cursor.length = (attrsWire attrs).length)
    (small : cursor.ptr.toNat + (attrsWire attrs).length ≤ 4096) {fuel : Nat}
    (enough : attrs.length < fuel) :
    ∃ last, loop (attrRound pkt peerAttrs inner) fuel cursor =
        .ok ⟨last, 0, cursor.pathAttributes ++ attrs.map BGPPathAttr.seen⟩ ∧
      last.toNat = cursor.ptr.toNat + (attrsWire attrs).length := by
  refine ⟨_, ?_, UInt32.toNat_ofNat_of_lt' (lt_of_le_of_lt small (by decide))⟩
  refine loop_takes (fun (state : AttrCursor) rest =>
    Behind pkt state.ptr.toNat (attrsWire rest ++ tail) ∧ state.length = (attrsWire rest).length ∧
      state.ptr.toNat + (attrsWire rest).length = cursor.ptr.toNat + (attrsWire attrs).length ∧
      (∀ attr ∈ rest, BuiltAttr peerAttrs.asSize attr ∧ attr.Short) ∧
      state.pathAttributes ++ rest.map BGPPathAttr.seen =
        cursor.pathAttributes ++ attrs.map BGPPathAttr.seen) ?_ ?_
    ⟨behind, left, rfl, fun attr member => ⟨built attr member, short attr member⟩, rfl⟩ enough
  · rintro state attr rest ⟨behind, left, ends, each, all⟩
    obtain ⟨built, short⟩ := each attr mem_cons_self
    have some := @attrWire_pos attr
    rw [attrsWire, flatMap_cons] at behind left ends
    rw [length_append] at left ends
    rw [append_assoc] at behind
    obtain ⟨moved, later⟩ := built.skip short (by omega) behind
    refine ⟨_, attrRound_sees built (by omega) behind (by omega), later, ?_, ?_,
      fun other member => each other (.tail _ member), by rw [append_assoc]; exact all⟩
    · rw [left, built.seen_totalLen (by omega) short, Nat.cast_add]
      exact add_sub_cancel_left _ _
    · rw [moved, add_assoc]
      exact ends
  · rintro ⟨ptr, length, done⟩ ⟨_, left, ends, _, all⟩
    have none : length = 0 := left
    rw [map_nil, append_nil] at all
    rw [← all, ← ends, none]
    show Outcome.ok (Round.stop (AttrCursor.mk ptr 0 done)) =
      .ok (.stop ⟨UInt32.ofNat ptr.toNat, 0, done⟩)
    rw [UInt32.ofNat_toNat]

theorem attrLoop_keeps {fuel : Nat} {cursor last : AttrCursor}
    (done : loop (attrRound pkt peerAttrs inner) fuel cursor = .ok last) :
    ∃ more, last.pathAttributes = cursor.pathAttributes ++ more := by
  obtain ⟨final, reached, stopped⟩ := loop_eq_ok done
  obtain ⟨same, _⟩ := attrRound_stop stopped
  subst same
  refine reached.invariant
    (fun state => ∃ more, state.pathAttributes = cursor.pathAttributes ++ more)
    ⟨[], (append_nil _).symm⟩ ?_
  intro state later kept advanced
  obtain ⟨_, _, attr, _, rfl⟩ := attrRound_next advanced
  obtain ⟨more, same⟩ := kept
  exact ⟨more ++ [attr], by rw [same, append_assoc]⟩

/-- If the loop gives back what was written, no list in it was too long. -/
theorem attrLoop_short (built : ∀ attr ∈ attrs, BuiltAttr peerAttrs.asSize attr)
    {cursor last : AttrCursor} (behind : Behind pkt cursor.ptr.toNat (attrsWire attrs ++ tail))
    (left : cursor.length = (attrsWire attrs).length)
    (small : cursor.ptr.toNat + (attrsWire attrs).length ≤ 4096) {fuel : Nat}
    (ended : loop (attrRound pkt peerAttrs inner) fuel cursor = .ok last)
    (same : last.pathAttributes.map BGPPathAttr.stated =
      cursor.pathAttributes.map BGPPathAttr.stated ++ attrs.map BGPPathAttr.stated) :
    ∀ attr ∈ attrs, attr.Short := by
  induction attrs generalizing cursor fuel with
  | nil => exact fun attr member => nomatch member
  | cons attr rest ih =>
    have first := built attr mem_cons_self
    have some := @attrWire_pos attr
    rw [attrsWire, flatMap_cons] at behind left small
    rw [length_append] at left small
    rw [append_assoc] at behind
    have advanced := @attrRound_sees peerAttrs inner _ _ attr first (by omega) cursor behind (by omega)
    match fuel with
    | 0 => cases ended
    | fuel + 1 =>
      rw [loop_next advanced] at ended
      -- What was seen of the first attribute stands where the attribute should be.
      obtain ⟨more, kept⟩ := attrLoop_keeps ended
      have stated : attr.seen.stated = attr.stated := by
        rw [kept, map_append, map_append, append_assoc] at same
        exact (cons.inj (append_cancel_left same)).1
      have short := first.seen_stated_iff.mp stated
      obtain ⟨moved, later⟩ := first.skip short (by omega) behind
      have total := first.seen_totalLen (by omega) short
      exact forall_mem_cons.mpr ⟨short, ih (fun other member => built other (.tail _ member)) later
        (show cursor.length - attr.seen.totalLen.toNat = (attrsWire rest).length by
          rw [left, total, Nat.cast_add]; exact add_sub_cancel_left _ _)
        (by rw [moved, add_assoc]; exact small) ended
        (by rw [same, map_append, append_assoc, map_cons, ← stated]; rfl)⟩

end Attributes

section Message

variable {peerAttrs : BGPPeerAttrs} {msg : BGPUpdate} {fuel : Nat}

/-- The header that goes out says how long the message is, and a longer one is refused. -/
theorem updateMessage_encode (msg : BGPUpdate) :
    (updateMessage msg).encode BGPUpdate.encode = msg.encode >>= fun body =>
      if 19 + body.length > 4096 then
        .error ⟨0, 0, [], "BGP message is " ++ toString (19 + body.length) ++ " bytes long"⟩
      else .ok ((updateHeader body).encode ++ body) := rfl

/-- A body with the bytes of its three sections, the first two behind their lengths. -/
def sections (withdrawn attributes reachable : Bytes) : Bytes :=
  uint16Bytes (UInt16.ofNat withdrawn.length) ++ withdrawn ++
    uint16Bytes (UInt16.ofNat attributes.length) ++ attributes ++ reachable

section Sections

variable {withdrawn attributes reachable : Bytes}
  (small : 19 + (sections withdrawn attributes reachable).length ≤ 4096)

@[simp] theorem sections_length : (sections withdrawn attributes reachable).length =
      4 + withdrawn.length + attributes.length + reachable.length := by
  simp only [sections, length_append, uint16Bytes_length]
  omega

/-- The attributes and what follows them stand behind the withdrawn routes and both lengths. -/
theorem sections_attributes (withdrawn attributes reachable : Bytes) :
    Behind (sections withdrawn attributes reachable) (4 + withdrawn.length)
      (attributes ++ reachable) := by
  refine ⟨uint16Bytes _ ++ withdrawn ++ uint16Bytes _, by rw [sections, append_assoc], ?_⟩
  simp only [length_append, uint16Bytes_length]
  omega

include small

theorem updateHeader_len : (updateHeader (sections withdrawn attributes reachable)).len.toNat =
      23 + withdrawn.length + attributes.length + reachable.length := by
  rw [sections_length] at small
  rw [BGPHeader.len, updateHeader, sections_length]
  simp only [UInt16.toNat_toUInt32, UInt16.toNat_add, UInt16.toNat_ofNat', UInt16.reduceToNat]
  omega

/-- Once the withdrawn routes are read, what is left is the loop over the attributes. -/
theorem decode_sections {routes : List NLRI}
    (read : decodeNLRI fuel (withdrawn ++ (uint16Bytes (UInt16.ofNat attributes.length) ++
      (attributes ++ reachable))) (UInt16.ofNat withdrawn.length).toUInt32 afiIP peerAttrs =
        .ok (routes, (UInt16.ofNat withdrawn.length).toUInt32)) :
    BGPUpdate.decode fuel (updateHeader (sections withdrawn attributes reachable))
        (sections withdrawn attributes reachable) peerAttrs =
      loop (attrRound (sections withdrawn attributes reachable) peerAttrs fuel) fuel
          ⟨UInt32.ofNat (4 + withdrawn.length), attributes.length, []⟩ >>= fun cursor =>
        BGPUpdate.decodeReachable fuel (updateHeader (sections withdrawn attributes reachable))
          (sections withdrawn attributes reachable) peerAttrs (UInt16.ofNat withdrawn.length)
          (UInt16.ofNat attributes.length) routes cursor := by
  have header := updateHeader_len small
  rw [sections_length] at small
  have start : Behind (sections withdrawn attributes reachable) 0
      (uint16Bytes (ofNat withdrawn.length) ++ (withdrawn ++
        (uint16Bytes (ofNat attributes.length) ++ (attributes ++ reachable)))) :=
    ⟨[], by simp only [sections, append_assoc, nil_append], rfl⟩
  generalize updateHeader (sections withdrawn attributes reachable) = head at header ⊢
  generalize sections withdrawn attributes reachable = body at start ⊢
  have first : (slice body 0 2 : Call Bytes) = .ok (uint16Bytes (ofNat withdrawn.length)) :=
    start.slice
  have routesBehind := start.skip rfl
  have width : (ofNat withdrawn.length).toNat = withdrawn.length := by
    rw [toNat_ofNat']
    omega
  have total : (ofNat attributes.length).toNat = attributes.length := by
    rw [toNat_ofNat']
    omega
  have within : ¬ (ofNat withdrawn.length).toUInt32 + 23 > head.len := by
    rw [gt_iff_lt, UInt32.lt_iff_toNat_lt, UInt32.toNat_add, toNat_toUInt32, width, header]
    show ¬ _ < (withdrawn.length + 23) % 4294967296
    omega
  -- The routes are read from in front of the attributes.
  have withdrawnRead : decodeWithdrawn fuel body (ofNat withdrawn.length).toUInt32
      peerAttrs = .ok (routes, (ofNat withdrawn.length).toUInt32) := by
    have behind : (sliceFrom body 2 : Call Bytes) = _ := routesBehind.sliceFrom
    rw [decodeWithdrawn, behind, ok_bind, read, ok_withError]
  -- The length of the attributes follows the routes.
  have ptr : ((2 : UInt32) + (ofNat withdrawn.length).toUInt32).toNat = 2 + withdrawn.length := by
    rw [UInt32.toNat_add, toNat_toUInt32, width]
    exact Nat.mod_eq_of_lt (by show 2 + _ < _; omega)
  have next : ((2 : UInt32) + (ofNat withdrawn.length).toUInt32 + 2).toNat =
      2 + withdrawn.length + 2 := by
    rw [UInt32.toNat_add, ptr]
    exact Nat.mod_eq_of_lt (by show _ + 2 < _; omega)
  have second : (slice body (2 + withdrawn.length) (2 + withdrawn.length + 2) : Call Bytes) =
      .ok (uint16Bytes (ofNat attributes.length)) := (routesBehind.skip rfl).slice
  have fits : ¬ (ofNat attributes.length).toNat + (ofNat withdrawn.length).toNat +
      23 > head.len.toNat := by
    omega
  have start : (2 : UInt32) + (ofNat withdrawn.length).toUInt32 + 2 =
      UInt32.ofNat (4 + withdrawn.length) := by
    apply UInt32.toNat_inj.mp
    rw [next, UInt32.toNat_ofNat']
    omega
  rw [BGPUpdate.decode, first, ok_bind, uint16_all, ok_bind]
  simp only [if_neg within, withdrawnRead, ok_bind]
  rw [BGPUpdate.decodeAttrs, ptr, next, second, ok_bind, uint16_all, ok_bind]
  simp only [if_neg fits]
  rw [start, total]

/-- What is behind the attributes is read as the reachable routes. -/
theorem decodeReachable_sections {ptr : UInt32} {routes withdrawnRoutes : List NLRI}
    {taken : UInt32} {left : Int} {attrs : List BGPPathAttr}
    (here : ptr.toNat = 4 + withdrawn.length + attributes.length)
    (read : decodeNLRI fuel reachable (UInt32.ofNat reachable.length) afiIP peerAttrs =
      .ok (routes, taken)) :
    BGPUpdate.decodeReachable fuel (updateHeader (sections withdrawn attributes reachable))
        (sections withdrawn attributes reachable) peerAttrs (UInt16.ofNat withdrawn.length)
        (UInt16.ofNat attributes.length) withdrawnRoutes ⟨ptr, left, attrs⟩ =
      .ok ⟨UInt16.ofNat withdrawn.length, withdrawnRoutes, UInt16.ofNat attributes.length, attrs,
        routes⟩ := by
  have header := updateHeader_len small
  rw [sections_length] at small
  -- The header counts what the two lengths leave for the routes.
  have count : ((updateHeader (sections withdrawn attributes reachable)).len.toNat - 23 -
      (ofNat withdrawn.length).toNat - (ofNat attributes.length).toNat : Int) =
      (reachable.length : Nat) := by
    rw [header, toNat_ofNat', toNat_ofNat']
    omega
  have behind := (sections_attributes withdrawn attributes reachable).skip here
  have size : UInt32.ofInt (reachable.length : Nat) = UInt32.ofNat reachable.length := by
    apply UInt32.toNat_inj.mp
    rw [UInt32.ofInt, UInt32.toNat_ofNat', UInt32.toNat_ofNat']
    omega
  rw [BGPUpdate.decodeReachable]
  rw [behind.sliceFrom, ok_bind, count, size, read]
  rfl

end Sections

/-- The attributes start behind the withdrawn routes and both lengths. -/
theorem attrStart_toNat (small : 19 + msg.wire.length ≤ 4096) :
    (UInt32.ofNat (4 + (nlrisWire afiIP msg.withdrawnRoutes).length)).toNat =
      4 + (nlrisWire afiIP msg.withdrawnRoutes).length := by
  have size := msg.wire_length
  rw [UInt32.toNat_ofNat']
  omega

namespace CanonicalUpdate

variable (canonical : CanonicalUpdate peerAttrs msg) (small : 19 + msg.wire.length ≤ 4096)

include canonical small

/-- The withdrawn routes are read back, and what is left is the loop over the attributes. -/
theorem decode_eq (enough : msg.withdrawnRoutes.length < fuel) :
    BGPUpdate.decode fuel (updateHeader msg.wire) msg.wire peerAttrs =
      loop (attrRound msg.wire peerAttrs fuel) fuel
          ⟨UInt32.ofNat (4 + (nlrisWire afiIP msg.withdrawnRoutes).length),
            (attrsWire msg.pathAttributes).length, []⟩ >>= fun cursor =>
        BGPUpdate.decodeReachable fuel (updateHeader msg.wire) msg.wire peerAttrs
          (UInt16.ofNat (nlrisWire afiIP msg.withdrawnRoutes).length)
          (UInt16.ofNat (attrsWire msg.pathAttributes).length)
          (msg.withdrawnRoutes.map (NLRI.normal afiIP)) cursor := by
  have size := msg.wire_length
  refine decode_sections small (canonical.withdrawn.decode (.inl rfl) ?_ ?_ enough)
  · rw [toNat_toUInt32, toNat_ofNat', ← canonical.withdrawn.wire_length]
    omega
  · simp only [length_append, uint16Bytes_length]
    omega

/-- What is behind the attributes is read back as the reachable routes. -/
theorem decodeReachable (enough : msg.nlri.length < fuel) {ptr : UInt32}
    (here : ptr.toNat = 4 + (nlrisWire afiIP msg.withdrawnRoutes).length +
      (attrsWire msg.pathAttributes).length) (attributes : List BGPPathAttr)
    (withdrawn : List NLRI) :
    ∃ read, BGPUpdate.decodeReachable fuel (updateHeader msg.wire) msg.wire peerAttrs
        (UInt16.ofNat (nlrisWire afiIP msg.withdrawnRoutes).length)
        (UInt16.ofNat (attrsWire msg.pathAttributes).length) withdrawn ⟨ptr, 0, attributes⟩ =
        .ok read ∧
      read.withdrawnRoutes = withdrawn ∧ read.pathAttributes = attributes ∧
      read.nlri = msg.nlri.map (NLRI.normal afiIP) := by
  have size := msg.wire_length
  have bounded : (nlrisWire afiIP msg.nlri ++ []).length < 2 ^ 32 := by
    rw [append_nil]
    omega
  have read := canonical.nlri.decode (.inl rfl)
    (show (UInt32.ofNat (nlrisWire afiIP msg.nlri).length).toNat = _ by
      rw [UInt32.toNat_ofNat', ← canonical.nlri.wire_length]
      omega) bounded enough
  rw [append_nil] at read
  exact ⟨_, decodeReachable_sections small here read, rfl, rfl, rfl⟩

/-- The header that goes out is the one that says how long the message is. -/
theorem encodeMessage : (updateMessage msg).encode BGPUpdate.encode =
    .ok ((updateHeader msg.wire).encode ++ msg.wire) := by
  rw [updateMessage_encode, canonical.encode small, ok_bind, if_neg (by omega)]

/-- A message that is read back has only short lists of clusters. -/
theorem short_of_round_trip (back : UpdateRoundTrips peerAttrs msg) :
    ∀ attr ∈ msg.pathAttributes, attr.Short := by
  have size := msg.wire_length
  have encoded := canonical.encode small
  obtain ⟨body, fuel, read, written, _, decoded, _, same, _⟩ := back
  cases encoded.symm.trans written
  -- With fuel to spare the loop over the attributes is reached, and has given them back.
  have ends : BGPUpdate.decode fuel (updateHeader msg.wire) msg.wire peerAttrs ≠ .hang := by
    rw [decoded]
    nofun
  have raised : BGPUpdate.decode (fuel + msg.withdrawnRoutes.length + 1) (updateHeader msg.wire)
      msg.wire peerAttrs = BGPUpdate.decode fuel (updateHeader msg.wire) msg.wire peerAttrs :=
    steady_updateDecode _ _ _ fuel _ (by omega) ends
  rw [decoded, canonical.decode_eq small (by omega)] at raised
  obtain ⟨cursor, ended, rest⟩ := bind_eq_ok.mp raised
  have attributes : read.pathAttributes = cursor.pathAttributes := by
    obtain ⟨_, _, rest⟩ := bind_eq_ok.mp rest
    obtain ⟨_, _, rest⟩ := bind_eq_ok.mp rest
    cases rest
    rfl
  rw [attributes] at same
  have start := attrStart_toNat small
  exact attrLoop_short canonical.attributes (start ▸ sections_attributes _ _ _) rfl
    (by dsimp only; omega) ended same

/-- A message with only short lists of clusters is read back. -/
theorem round_trip_of_short (short : ∀ attr ∈ msg.pathAttributes, attr.Short) :
    UpdateRoundTrips peerAttrs msg := by
  have size := msg.wire_length
  obtain ⟨fuel, enough⟩ : ∃ fuel, fuel = msg.withdrawnRoutes.length +
    msg.pathAttributes.length + msg.nlri.length + 1 := ⟨_, rfl⟩
  -- The loop ends behind the attributes, where the reachable routes are.
  have start := attrStart_toNat small
  obtain ⟨last, ended, stands⟩ := @attrLoop_reads peerAttrs msg.pathAttributes fuel _
    (nlrisWire afiIP msg.nlri) canonical.attributes short
    ⟨UInt32.ofNat _, _,
      []⟩ (start ▸ sections_attributes _ _ _) rfl (by dsimp only; omega) fuel (by omega)
  obtain ⟨read, rest, withdrawn, attributes, nlri⟩ := @CanonicalUpdate.decodeReachable peerAttrs
    msg fuel canonical small (by omega) last (by rw [stands, start])
    (msg.pathAttributes.map BGPPathAttr.seen) _
  refine ⟨msg.wire, fuel, read, canonical.encode small, canonical.encodeMessage small,
    ?_, ?_, ?_, ?_⟩
  · rw [canonical.decode_eq small (by omega)]
    exact (congrArg (· >>= _) ended).trans rest
  · rw [withdrawn]
    exact canonical.withdrawn.normal_listed
  · rw [attributes, map_map]
    refine map_congr_left fun attr member => ?_
    exact (canonical.attributes attr member).seen_stated_iff.mpr (short attr member)
  · rw [nlri]
    exact canonical.nlri.normal_listed

end CanonicalUpdate

/--
A message with canonical routes and attributes that are made by their constructors is read back
as it was written, just when no list of clusters has more than sixty-three of them.

The constructor of the list never sets the flag for a length of two bytes.
-/
theorem update_round_trip_iff (peerAttrs : BGPPeerAttrs) (msg : BGPUpdate)
    (canonical : CanonicalUpdate peerAttrs msg) (small : 19 + msg.wire.length ≤ 4096) :
    UpdateRoundTrips peerAttrs msg ↔ ∀ attr ∈ msg.pathAttributes, attr.Short :=
  ⟨canonical.short_of_round_trip small, canonical.round_trip_of_short small⟩

/-- A message with one route each way, and a list of two clusters. -/
def reflectedUpdate : BGPUpdate :=
  newBGPUpdateMessage [.ip ⟨8, [10, 0, 0, 0]⟩]
    [.origin (newBGPPathAttrOrigin 0), .nextHop { newBGPPathAttrNextHop with value := [192, 0, 2, 1] },
      .clusterList (clusterListOf [1, 2])]
    [.ip ⟨24, [192, 0, 2, 0]⟩]

/-- A reflected route comes back with its cluster list. -/
theorem update_round_trip_reflected :
    19 + reflectedUpdate.wire.length ≤ 4096 ∧ UpdateRoundTrips ⟨4, false⟩ reflectedUpdate := by
  have plain : ∀ {length : UInt8} {address : Bytes}, InFamily afiIP address →
      length.toNat ≤ 8 * addressLen afiIP →
      HostBitsZero length.toNat (IPPrefix.ownBytes ⟨length, address⟩ afiIP) →
      CanonicalList ⟨4, false⟩ afiIP [.ip ⟨length, address⟩] := fun family short host =>
    ⟨forall_mem_singleton.mpr ⟨family, short, host⟩, forall_mem_singleton.mpr rfl⟩
  have canonical : CanonicalUpdate ⟨4, false⟩ reflectedUpdate := by
    refine ⟨plain (by decide) (by decide) (by decide), ?_, plain (by decide) (by decide) (by decide)⟩
    intro attr member
    simp only [reflectedUpdate, newBGPUpdateMessage, mem_cons, not_mem_nil, or_false] at member
    rcases member with rfl | rfl | rfl
    · exact .origin (by decide)
    · exact .nextHop (by decide)
    · exact .clusterList [1, 2]
  have small : 19 + reflectedUpdate.wire.length ≤ 4096 := by decide
  exact ⟨small, (update_round_trip_iff _ _ canonical small).mpr (by decide)⟩

/-- A list of sixty-four clusters is announced with length zero, so it is read as an empty one. -/
theorem long_clusterList_misread : CanonicalUpdate ⟨4, false⟩ (newBGPUpdateMessage []
      [.clusterList (clusterListOf (List.replicate 64 1))] []) ∧
    19 + (newBGPUpdateMessage [] [.clusterList (clusterListOf (List.replicate 64 1))]
      []).wire.length ≤ 4096 ∧
    ¬ UpdateRoundTrips ⟨4, false⟩ (newBGPUpdateMessage []
      [.clusterList (clusterListOf (List.replicate 64 1))] []) := by
  have canonical : CanonicalUpdate ⟨4, false⟩ (newBGPUpdateMessage []
      [.clusterList (clusterListOf (replicate 64 1))] []) :=
    ⟨⟨nofun, nofun⟩, forall_mem_singleton.mpr (.clusterList _), ⟨nofun, nofun⟩⟩
  have small : 19 + (newBGPUpdateMessage []
      [.clusterList (clusterListOf (replicate 64 1))] []).wire.length ≤ 4096 := by
    decide +kernel
  refine ⟨canonical, small, fun back => ?_⟩
  have short := canonical.short_of_round_trip small back _ mem_cons_self
  revert short
  decide

end Message

section Accepted

variable {fuel : Nat} {header : BGPHeader} {pkt : Bytes} {peerAttrs : BGPPeerAttrs}

/-- Prefixes that were read take up just the bytes that were announced for them. -/
theorem decodeNLRI_bytes {length ptr : UInt32} {afi : UInt16} {nlri : List NLRI}
    (small : pkt.length < 2 ^ 32)
    (decoded : decodeNLRI fuel pkt length afi peerAttrs = .ok (nlri, ptr)) :
    nlriBytes nlri = length.toNat := by
  obtain ⟨rfl, -⟩ := decodeNLRI_ok decoded
  unfold decodeNLRI at decoded
  split at decoded
  · cases decoded
  · obtain ⟨last, reached, stopped⟩ := loop_eq_ok decoded
    -- Each round moves the cursor by the length of the prefix that it adds.
    have counted : nlriBytes last.ipPrefix = last.ptr.toNat := by
      refine reached.invariant (fun cursor => nlriBytes cursor.ipPrefix = cursor.ptr.toNat) rfl ?_
      intro cursor later counted advanced
      obtain ⟨item, -, -, -, moved, -, appended⟩ := nlriRound_next small advanced
      rw [appended, moved, ← counted]
      simp [nlriBytes]
    unfold nlriRound at stopped
    split at stopped
    · simp only [bind_eq_ok] at stopped
      obtain ⟨_, _, _, _, built⟩ := stopped
      cases built
    · split at stopped
      · cases stopped
      · cases stopped
        exact counted

/-- Attributes that were read take up just the bytes that were announced for them. -/
theorem attrLoop_bytes {origin cursor : AttrCursor} (empty : origin.pathAttributes = [])
    (ended : loop (attrRound pkt peerAttrs fuel) fuel origin = .ok cursor) :
    attrBytes cursor.pathAttributes = origin.length := by
  obtain ⟨last, reached, stopped⟩ := loop_eq_ok ended
  -- What a round takes off the bytes that are left is the length of its attribute.
  have counted : attrBytes last.pathAttributes + last.length = origin.length := by
    refine reached.invariant
      (fun cursor => attrBytes cursor.pathAttributes + cursor.length = origin.length)
      (by simp [empty]) ?_
    intro cursor later counted advanced
    obtain ⟨-, -, attr, -, rfl⟩ := attrRound_next advanced
    have added : attrBytes (cursor.pathAttributes ++ [attr]) =
        attrBytes cursor.pathAttributes + attr.totalLen.toNat := by simp [attrBytes]
    dsimp only
    rw [added]
    omega
  obtain ⟨rfl, done⟩ := attrRound_stop stopped
  omega

/-- The parts of an accepted UPDATE take up just the bytes announced for each, and all of them. -/
theorem update_decode_accounts {update : BGPUpdate} (small : pkt.length < 2 ^ 32)
    (decoded : BGPUpdate.decode fuel header pkt peerAttrs = .ok update) :
    nlriBytes update.withdrawnRoutes = update.withdrawnRoutesLen.toNat ∧
      attrBytes update.pathAttributes = update.totalPathAttrLen.toNat ∧
      23 + nlriBytes update.withdrawnRoutes + attrBytes update.pathAttributes +
        nlriBytes update.nlri = header.length.toNat := by
  have shorter (n : Nat) : (pkt.drop n).length ≤ pkt.length := by simp
  simp only [BGPUpdate.decode, bind_eq_ok] at decoded
  obtain ⟨_, _, wdLen, _, decoded⟩ := decoded
  split at decoded
  · cases decoded
  · obtain ⟨⟨routes, ipLen⟩, withdrawn, decoded⟩ := bind_eq_ok.mp decoded
    obtain ⟨rest, sliced, withdrawn⟩ := bind_eq_ok.mp withdrawn
    obtain ⟨-, rfl⟩ := sliceFrom_eq_ok.mp sliced
    cases read : decodeNLRI fuel (pkt.drop 2) wdLen.toUInt32 afiIP peerAttrs with
    | error | panic | hang => simp [read, withError] at withdrawn
    | ok result =>
      rw [read] at withdrawn
      cases withdrawn
      simp only [BGPUpdate.decodeAttrs, bind_eq_ok] at decoded
      obtain ⟨_, _, attrLen, _, decoded⟩ := decoded
      split at decoded
      · cases decoded
      · rename_i fits
        obtain ⟨cursor, ended, decoded⟩ := bind_eq_ok.mp decoded
        simp only [BGPUpdate.decodeReachable, bind_eq_ok, sliceFrom_eq_ok] at decoded
        obtain ⟨_, ⟨_, rfl⟩, ⟨nlri, _⟩, reachable, built⟩ := decoded
        cases built
        -- The reachable prefixes are announced by what the other two parts leave of the header.
        have first := decodeNLRI_bytes (by have := shorter 2; omega) read
        have second := attrLoop_bytes rfl ended
        have third := decodeNLRI_bytes (by have := shorter cursor.ptr.toNat; omega) reachable
        have same : header.len.toNat = header.length.toNat := UInt16.toNat_toUInt32 _
        rw [UInt16.toNat_toUInt32] at first
        rw [same] at fits third
        have bound := header.length.toNat_lt
        rw [UInt32.ofInt, UInt32.toNat_ofNat'] at third
        dsimp only at second ⊢
        omega

/-- A message that withdraws 10/8 and announces 11/8, with the origin between them. -/
theorem update_decode_accounts_short : ∃ update,
    BGPUpdate.decode 3 ⟨31, 2⟩ [0, 2, 8, 10, 0, 4, 64, 1, 1, 0, 8, 11] ⟨4, false⟩ = .ok update ∧
      23 + nlriBytes update.withdrawnRoutes + attrBytes update.pathAttributes +
        nlriBytes update.nlri = 31 := by
  obtain ⟨update, decoded⟩ : ∃ update, BGPUpdate.decode 3 ⟨31, 2⟩
    [0, 2, 8, 10, 0, 4, 64, 1, 1, 0, 8, 11] ⟨4, false⟩ = .ok update := ⟨_, rfl⟩
  exact ⟨update, decoded, (update_decode_accounts (by decide) decoded).2.2⟩

end Accepted

end FlexSwitch.Packet
