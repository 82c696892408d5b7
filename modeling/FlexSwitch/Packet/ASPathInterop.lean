import FlexSwitch.Packet.ASPathTyped
import FlexSwitch.Packet.ASPathWire
import FlexSwitch.Packet.UpdateRoundTrip

/-! A path of four-byte numbers sent to a speaker of two-byte numbers, and what arrives there. -/

namespace FlexSwitch.Packet

open Go List Outcome UInt16 BGPASPathSegment

variable {out pkt : Bytes} {count : Nat} {value : List BGPASPathSegment}

/-- The path converted and written as the only attribute of a message. -/
def sendAS2 (path : BGPPathAttrASPath) : Call Bytes := do
  let pathAttrs ← convert4ByteTo2ByteASPath [.asPath path]
  BGPMessage.encode BGPUpdate.encode (updateMessage (newBGPUpdateMessage [] pathAttrs []))

/-- A message read off the wire, its header first. -/
def receive (fuel : Nat) (peerAttrs : BGPPeerAttrs) (pkt : Bytes) :
    Call (BGPMessage (Option BGPBody)) := do
  let header ← BGPHeader.decode (← slice pkt 0 19)
  BGPMessage.decode fuel header (← sliceFrom pkt 19) peerAttrs

/-- What a segment of four-byte numbers says: its type and its numbers. -/
def BGPAS4PathSegment.content (seg : BGPAS4PathSegment) : UInt8 × List UInt32 :=
  (seg.type, seg.ases)

/-- A single AS_PATH attribute with the segments, and nothing of an AS4_PATH attribute. -/
def CarriesPath (segments : List BGPAS4PathSegment) (pathAttrs : List BGPPathAttr) : Prop :=
  (∃ (asPath : BGPPathAttrASPath) (back : List BGPAS4PathSegment),
    (pathAttrs.filter fun pa => pa.getCode == attrTypeASPath) = [.asPath asPath] ∧
    asPath.value = back.map .as4 ∧
    back.map BGPAS4PathSegment.content = segments.map BGPAS4PathSegment.content) ∧
  ∀ pa ∈ pathAttrs, pa.getCode ≠ attrTypeAS4Path ∧ pa.asAS4Path = none

/-- What was sent arrives as an UPDATE that carries the path. -/
def Lossless (peerAttrs : BGPPeerAttrs) (path : BGPPathAttrASPath)
    (segments : List BGPAS4PathSegment) : Prop :=
  ∃ fuel header update,
    (sendAS2 path >>= receive fuel peerAttrs) = .ok ⟨header, some (.updateBody update)⟩ ∧
    CarriesPath segments update.pathAttributes

/-- The segment announces the numbers it has, and is not counted as more than it takes. -/
structure AS4Segment (seg : BGPAS4PathSegment) : Prop where
  counted : seg.length.toNat = seg.ases.length
  measured : seg.bgpASPathSegmentLen.toNat ≤ 2 + 4 * seg.ases.length

/-- The path with its numbers cut down to two bytes. -/
def shortPath (segments : List BGPAS4PathSegment) : List BGPAS2PathSegment :=
  segments.map fun seg => seg.cloneAsAS2PathSegment.1

/-- Two bytes hold every number of the path. -/
def Mappable (segments : List BGPAS4PathSegment) : Prop :=
  ∀ seg ∈ segments, ∀ number ∈ seg.ases, number ≤ 65535

instance (segs : List BGPAS4PathSegment) : Decidable (Mappable segs) :=
  @List.decidableBAll BGPAS4PathSegment (fun seg => ∀ number ∈ seg.ases, number ≤ 65535)
    (fun seg => List.decidableBAll (fun number => number ≤ 65535) seg.ases) segs

section Sending

variable {path : BGPPathAttrASPath} {segs : List BGPAS4PathSegment}

theorem shortPath_cons (seg : BGPAS4PathSegment) (segs : List BGPAS4PathSegment) :
    shortPath (seg :: segs) = seg.cloneAsAS2PathSegment.1 :: shortPath segs := rfl

theorem mappable_cons (seg : BGPAS4PathSegment) (segs : List BGPAS4PathSegment) :
    Mappable (seg :: segs) ↔
      seg.cloneAsAS2PathSegment.2 = true ∧ Mappable segs := by
  simp [Mappable, BGPAS4PathSegment.cloneAsAS2PathSegment]

theorem clone_wireSegment {seg : BGPAS4PathSegment} (sound : AS4Segment seg) :
    WireSegment seg.cloneAsAS2PathSegment.1 where
  counted := by
    show seg.length.toNat = (seg.ases.map as2Number).length
    rw [length_map, sound.counted]
  measured := by
    show (2 + (seg.length * 2).toUInt16 : UInt16).toNat =
      2 + 2 * ((seg.ases.map as2Number).length % 128)
    have small := seg.length.toNat_lt
    rw [length_map, ← sound.counted]
    simp only [UInt16.toNat_add, UInt8.toNat_toUInt16, UInt8.toNat_mul, UInt8.reduceToNat,
      reduceToNat]
    omega

theorem shortPath_sound (sound : ∀ seg ∈ segs, AS4Segment seg) :
    ∀ seg ∈ shortPath segs, WireSegment seg := by
  intro seg member
  obtain ⟨original, listed, rfl⟩ := mem_map.mp member
  exact clone_wireSegment (sound original listed)

/-- The attribute that a path of two-byte numbers is sent as. -/
def as2Path (segments : List BGPAS2PathSegment) : BGPPathAttrASPath :=
  { newBGPPathAttrASPath with
    value := segments.map .as2, length := UInt16.ofNat (wire segments).length }

/-- Converting a path keeps its segments in order and says whether all of them could be mapped. -/
theorem cloneAsAS2Path_eq (made : path.value = segs.map .as4)
    (sound : ∀ seg ∈ segs, AS4Segment seg) :
    path.cloneAsAS2Path = .ok (as2Path (shortPath segs), decide (Mappable segs)) := by
  -- The path so far and whether it could be mapped stay quantified over.
  have general : ∀ (round : BGPPathAttrASPath × Bool → BGPASPathSegment →
        Call (BGPPathAttrASPath × Bool)),
      (∀ state seg, round state (.as4 seg) =
        .ok (state.1.appendASPathSegment (.as2 seg.cloneAsAS2PathSegment.1),
          state.2 && seg.cloneAsAS2PathSegment.2)) →
      ∀ (segs : List BGPAS4PathSegment) (state : BGPPathAttrASPath × Bool),
      (∀ seg ∈ segs, AS4Segment seg) →
      (segs.map as4).foldlM round state =
      .ok ({ state.1 with
          value := state.1.value ++ (shortPath segs).map .as2
          length := state.1.length + ofNat (wire (shortPath segs)).length },
        state.2 && decide (Mappable segs)) := by
    intro round step segs
    induction segs with
    | nil =>
      intro state _
      simp [shortPath, wire, Mappable]
    | cons seg segs ih =>
      intro state each
      have first := clone_wireSegment (each seg mem_cons_self)
      have size : seg.cloneAsAS2PathSegment.1.bgpASPathSegmentLen =
          ofNat (wireSize seg.cloneAsAS2PathSegment.1) := by
        rw [← first.measured, UInt16.ofNat_toNat]
      have all : (decide (Mappable (seg :: segs)) : Bool) =
          (seg.cloneAsAS2PathSegment.2 && decide (Mappable segs)) := by
        rw [Bool.eq_iff_iff, Bool.and_eq_true, decide_eq_true_iff, decide_eq_true_iff]
        exact mappable_cons seg segs
      rw [map_cons, foldlM_cons, step, ok_bind,
        ih _ fun other later => each other (mem_cons_of_mem _ later), all]
      have lengths : state.1.length + seg.cloneAsAS2PathSegment.1.bgpASPathSegmentLen +
          ofNat (wire (shortPath segs)).length =
          state.1.length + ofNat (wire (shortPath (seg :: segs))).length := by
        rw [shortPath_cons, wire_cons_length, ofNat_add, size, add_assoc]
      simp only [BGPPathAttrASPath.appendASPathSegment, BGPASPathSegment.totalLen,
        BGPASPathSegment.base, lengths, Bool.and_assoc, shortPath_cons, map_cons,
        append_assoc, singleton_append]
  rw [BGPPathAttrASPath.cloneAsAS2Path, made, general _ (fun _ _ => rfl) segs _ sound]
  simp [as2Path, newBGPPathAttrASPath]

/-- The AS4_PATH attribute made of a path. -/
def as4Path (length : UInt16) (segments : List BGPAS4PathSegment) : BGPPathAttrAS4Path :=
  { newBGPPathAttrAS4Path with
    length := length, bgpPathAttrLen := 4 + UInt16.ofNat (segments.length * 4), value := segments }

/-- The path converted to an AS4_PATH attribute keeps its segments. -/
theorem cloneAsAS4Path_eq (made : path.value = segs.map .as4) :
    path.cloneAsAS4Path = .ok (as4Path path.length segs) := by
  have general : ∀ segs : List BGPAS4PathSegment,
      ((segs.map as4).mapM fun seg => typeAssert seg.asAS4 :
        Call (List BGPAS4PathSegment)) = .ok segs := by
    intro segs
    induction segs with
    | nil => rfl
    | cons seg segs ih =>
      rw [map_cons, mapM_cons, ih]
      rfl
  rw [BGPPathAttrASPath.cloneAsAS4Path, made, general, length_map]
  rfl

/-- The attributes sent: the short path, and an AS4_PATH attribute if it has lost numbers. -/
theorem convert_eq (code : path.code = attrTypeASPath) (made : path.value = segs.map .as4)
    (sound : ∀ seg ∈ segs, AS4Segment seg) :
    convert4ByteTo2ByteASPath [.asPath path] =
      .ok (if Mappable segs then [.asPath (as2Path (shortPath segs))]
        else [.asPath (as2Path (shortPath segs)), .as4Path (as4Path path.length segs)]) := by
  have found : getTypeFromPathAttrs [.asPath path] attrTypeASPath = some (.asPath path) := by
    simp [getTypeFromPathAttrs, BGPPathAttr.getCode, BGPPathAttr.base, code]
  have replaced : replaceTypeInPathAttrs attrTypeASPath (.asPath (as2Path (shortPath segs)))
      [.asPath path] = [.asPath (as2Path (shortPath segs))] := by
    simp [replaceTypeInPathAttrs, BGPPathAttr.getCode, BGPPathAttr.base, code]
  rw [convert4ByteTo2ByteASPath, found]
  show (path.cloneAsAS4Path >>= _) = _
  rw [cloneAsAS4Path_eq made, ok_bind, cloneAsAS2Path_eq made sound, ok_bind]
  dsimp only
  rw [replaced]
  by_cases mappable : Mappable segs
  · simp [mappable]
  · -- No attribute has a code above that of AS4_PATH, so the new one goes to the end.
    simp only [mappable, decide_false, Bool.false_eq_true, if_false, pure_eq]
    rfl

end Sending

section Writing

theorem storeAt_take {data : Bytes} {position : Nat} (behind : count ≤ position)
    (stored : (storeAt pkt position data : Call Bytes) = .ok out) :
    out.take count = pkt.take count ∧ out.length = pkt.length ∧
      position + data.length ≤ pkt.length := by
  have length := storeAt_length stored
  unfold storeAt at stored
  split at stored
  · rename_i room
    cases stored
    refine ⟨?_, length, room⟩
    rw [append_assoc, take_append_of_le_length (by rw [length_take]; omega),
      take_take, min_eq_left behind]
  · cases stored

/-- A segment written behind the first bytes leaves them alone, and starts inside the buffer. -/
theorem segmentEncode_take {seg : BGPASPathSegment} {position : Nat} (behind : count ≤ position)
    (written : seg.encode pkt position = .ok out) :
    out.take count = pkt.take count ∧ out.length = pkt.length ∧ position < pkt.length := by
  rw [seg.encode_eq] at written
  obtain ⟨front, length, inside⟩ := storeAt_take behind written
  have some : 2 ≤ seg.bytes.length := by cases seg <;> exact Nat.le_add_left 2 _
  exact ⟨front, length, by omega⟩

/-- Writing into a buffer keeps its length, whatever the segments are. -/
theorem encodeSegments_length (pkt : Bytes) (offset : UInt16) (value : List BGPASPathSegment) :
    (encodeSegments pkt offset value).Yields fun state => state.1.length = pkt.length := by
  refine Outcome.Yields.foldlM rfl ?_
  intro state item _ kept
  apply Outcome.Yields.bind
  intro out written
  exact .ok ((segmentEncode_take (Nat.zero_le _) written).2.1.trans kept)

/-- A path of two-byte numbers as it is written: its header and the wire. -/
def as2Wire (segments : List BGPAS2PathSegment) : Bytes :=
  (asPathBase (wire segments).length).headerBytes ++ wire segments

@[simp] theorem as2Wire_length (segs : List BGPAS2PathSegment) :
    (as2Wire segs).length = (wire segs).length + 4 := by
  rw [as2Wire, length_append, asPathBase_headerBytes_length, add_comm]

/-- Writing starts with the header and as much room as sixteen bits of the length say. -/
theorem as2Path_encode_eq (segs : List BGPAS2PathSegment) :
    (BGPPathAttr.asPath (as2Path segs)).encode =
      encodeSegments ((asPathBase (wire segs).length).headerBytes ++
        zeros (UInt16.ofNat (wire segs).length).toNat) 4 (segs.map .as2) >>=
        fun state => .ok state.1 := by
  have header := BGPPathAttrBase.encode_header (asPathBase_headerExact (wire segs).length)
  show ((asPathBase (wire segs).length).encode >>= _) = _
  rw [header, ok_bind]
  rfl

variable {segs : List BGPAS2PathSegment}

/-- A path that fits is written as its header and the wire. -/
theorem as2Path_encode (sound : ∀ seg ∈ segs, WireSegment seg)
    (small : 4 + (wire segs).length < 65536) (fits : FitsIn (wire segs).length segs) :
    (BGPPathAttr.asPath (as2Path segs)).encode = .ok (as2Wire segs) := by
  have size : (ofNat (wire segs).length).toNat = (wire segs).length := by
    rw [toNat_ofNat']
    omega
  obtain ⟨writes, _⟩ := encodeSegments_append sound (asPathBase (wire segs).length).headerBytes
    (zeros (wire segs).length) 4 (by simp) (by simpa using small)
  rw [zeros_length] at writes
  obtain ⟨tail, last, written, counted⟩ := writes fits
  have nothing : tail = [] := length_eq_zero_iff.mp (by omega)
  rw [nothing, append_nil] at written
  rw [as2Path_encode_eq, size, written]
  rfl

/-- A path whose writing succeeds in a small buffer has fitted. -/
theorem as2Path_encode_fits (sound : ∀ seg ∈ segs, WireSegment seg) {bytes : Bytes}
    (encoded : (BGPPathAttr.asPath (as2Path segs)).encode = .ok bytes)
    (short : bytes.length < 65536) :
    FitsIn (wire segs).length segs ∧ bytes = as2Wire segs := by
  have again := encoded
  rw [as2Path_encode_eq, bind_eq_ok] at encoded
  obtain ⟨state, written, same⟩ := encoded
  cases same
  -- The buffer is as long as the header says.
  have length := encodeSegments_length _ _ _ state written
  rw [length_append, asPathBase_headerBytes_length, zeros_length] at length
  obtain ⟨_, overruns⟩ := encodeSegments_append sound
    (asPathBase (wire segs).length).headerBytes
    (zeros (ofNat (wire segs).length).toNat) 4 (by simp)
    (by rw [asPathBase_headerBytes_length, zeros_length]; omega)
  rw [zeros_length] at overruns
  have fits : FitsIn (ofNat (wire segs).length).toNat segs := by
    by_contra lacks
    rw [overruns lacks] at written
    cases written
  -- What fits is no longer than the sixteen bits say, so nothing was cut off.
  have within := fits.wire_le
  have whole : (ofNat (wire segs).length).toNat = (wire segs).length := by
    rw [toNat_ofNat'] at within ⊢
    omega
  rw [whole] at fits length
  rw [as2Path_encode sound (by omega) fits] at again
  exact ⟨fits, (ok.inj again).symm⟩

/-- A message that has attributes only is refused if it is longer than 4096 bytes. -/
theorem attrMessage_encode (pathAttrs : List BGPPathAttr) :
    BGPMessage.encode BGPUpdate.encode (updateMessage (newBGPUpdateMessage [] pathAttrs [])) =
      encodeAll BGPPathAttr.encode pathAttrs >>= fun attributes =>
        if 19 + (sections [] attributes []).length > 4096 then
          .error ⟨0, 0, [], "BGP message is " ++
            toString (19 + (sections [] attributes []).length) ++ " bytes long"⟩
        else .ok ((updateHeader (sections [] attributes [])).encode ++ sections [] attributes []) := by
  rw [updateMessage_encode]
  show ((encodeAll BGPPathAttr.encode pathAttrs >>= _) >>= _) = _
  rw [bind_assoc]
  rfl

end Writing

section Receiving

variable {fuel : Nat} {peerAttrs : BGPPeerAttrs}

theorem receive_encode (header : BGPHeader) (body : Bytes) :
    receive fuel peerAttrs (header.encode ++ body) = BGPMessage.decode fuel header body peerAttrs := by
  have length : header.encode.length = 19 := by simp [BGPHeader.encode]
  have whole := Behind.start (header.encode ++ body)
  have front : (slice (header.encode ++ body) 0 19 : Call Bytes) = .ok header.encode := whole.slice
  have behind : Behind (header.encode ++ body) 19 body := whole.skip rfl
  have read : BGPHeader.decode header.encode = .ok header := by
    have bytes : (slice header.encode 16 18 : Call Bytes) = .ok (uint16Bytes header.length) := by
      rw [slice, if_pos ⟨by omega, by omega⟩]
      rfl
    rw [BGPHeader.decode, bytes, ok_bind, uint16_all, ok_bind]
    rfl
  rw [receive, front, ok_bind, read, ok_bind, behind.sliceFrom, ok_bind]

theorem decodeNLRI_zero (pkt : Bytes) (afi : UInt16) :
    decodeNLRI (fuel + 1) pkt 0 afi peerAttrs = .ok ([], 0) := by
  have enough : ¬ (0 : UInt32) > UInt32.ofNat pkt.length := UInt32.not_lt_zero
  rw [decodeNLRI, if_neg enough]
  exact loop_stop rfl fuel

variable {segs : List BGPAS2PathSegment}

/-- The attribute read of a path of two-byte numbers, by the segments that were read. -/
def readPath (segments : List BGPAS2PathSegment) (value : List BGPASPathSegment) :
    BGPPathAttrASPath :=
  ⟨asPathBase (wire segments).length, value, 2⟩

/-- The loop over the segments of a path of two-byte numbers. -/
abbrev as2Loop (segments : List BGPAS2PathSegment) (fuel : Nat) : Call (List BGPASPathSegment) :=
  loop (as2Width.round (asPathBase (wire segments).length) (as2Wire segments)) fuel ⟨4, []⟩

/-- The attribute of a path of two-byte numbers is read segment by segment. -/
theorem as2Attr_decode (two : peerAttrs.asSize = 2) (small : (wire segs).length ≤ 65535) :
    BGPPathAttrASPath.decode fuel (as2Wire segs) peerAttrs =
      as2Loop segs fuel >>= fun value => .ok (readPath segs value) := by
  have decoded := @asPath_decode _ as2Width _ small peerAttrs two fuel
  rwa [two] at decoded

/-- What is read of a message whose only attribute is a path of two-byte numbers. -/
def as2Update (segments : List BGPAS2PathSegment) (value : List BGPASPathSegment) : BGPUpdate where
  withdrawnRoutesLen := 0
  withdrawnRoutes := []
  totalPathAttrLen := UInt16.ofNat (as2Wire segments).length
  pathAttributes := [.asPath (readPath segments value)]
  nlri := []

/-- A message whose only attribute is a path of two-byte numbers is read as that path. -/
theorem as2Body_decode (two : peerAttrs.asSize = 2) (small : (wire segs).length + 27 ≤ 4096) :
    BGPUpdate.decode (fuel + 2) (updateHeader (sections [] (as2Wire segs) []))
        (sections [] (as2Wire segs) []) peerAttrs =
      as2Loop segs (fuel + 2) >>= fun value => .ok (as2Update segs value) := by
  have fits : 19 + (sections [] (as2Wire segs) []).length ≤ 4096 := by
    simp only [sections_length, length_nil, as2Wire_length]
    omega
  have first : attrRound (sections [] (as2Wire segs) []) peerAttrs (fuel + 2)
      ⟨4, (as2Wire segs).length, []⟩ =
      BGPPathAttr.decode (fuel + 2) (as2Wire segs) peerAttrs >>= fun pa =>
        .ok (.next ⟨4 + pa.totalLen, (as2Wire segs).length - pa.totalLen.toNat, [pa]⟩) := by
    have left : (0 : Int) < (as2Wire segs).length := by
      rw [as2Wire_length]
      omega
    have behind : (sections [] (as2Wire segs) []).drop (4 : UInt32).toNat =
        as2Wire segs := by
      rw [sections, append_nil]
      rfl
    rw [attrRound_reads left, behind]
    rfl
  have chosen : BGPPathAttr.decode (fuel + 2) (as2Wire segs) peerAttrs =
      BGPPathAttrASPath.decode (fuel + 2) (as2Wire segs) peerAttrs >>=
        fun attr => .ok (.asPath attr) := rfl
  rw [decode_sections fits (decodeNLRI_zero _ _)]
  show (loop _ (fuel + 2) (AttrCursor.mk 4 (as2Wire segs).length []) >>= _) = _
  rw [loop, first, chosen, as2Attr_decode two (by omega)]
  simp only [bind_assoc, ok_bind]
  -- However reading the path ends, the message ends in the same way.
  congr 1
  funext value
  have total : (BGPPathAttr.asPath (readPath segs value)).totalLen.toNat =
      (wire segs).length + 4 := asPathBase_totalLen (by omega)
  have placed : (4 + (BGPPathAttr.asPath (readPath segs value)).totalLen).toNat =
      4 + ([] : Bytes).length + (as2Wire segs).length := by
    simp only [UInt32.toNat_add, total, as2Wire_length, UInt32.reduceToNat, length_nil]
    omega
  -- With no bytes left the loop over the attributes stops behind the path.
  have ended : ∀ cursor : AttrCursor, cursor.length = 0 →
      attrRound (sections [] (as2Wire segs) []) peerAttrs (fuel + 2) cursor =
        .ok (.stop cursor) := by
    intro cursor done
    rw [attrRound, if_neg (by omega), if_neg (by omega)]
    rfl
  rw [loop_stop (ended _ (by simp [total])), ok_bind]
  exact decodeReachable_sections fits placed (decodeNLRI_zero _ _)

/-- A message whose only attribute is a path of two-byte numbers is normalised by widening it. -/
theorem as2Update_normalize (small : (wire segs).length + 27 ≤ 4096)
    (read : ∀ seg ∈ value, SegmentRead 2 seg) :
    ∃ wide, normalizeASPath fuel (as2Update segs value) =
        .ok { as2Update segs value with pathAttributes := [.asPath wide] } ∧
      wide.code = attrTypeASPath ∧ wide.value = value.map BGPASPathSegment.widened := by
  have nonzero : (as2Update segs value).totalPathAttrLen ≠ 0 := by
    intro noBytes
    have zero := congrArg toNat noBytes
    rw [as2Update, toNat_ofNat', as2Wire_length] at zero
    change ((wire segs).length + 4) % 65536 = 0 at zero
    omega
  obtain ⟨wide, widened, code, _, same⟩ : ∃ wide, (readPath segs value).widen = .ok wide ∧ _ :=
    BGPPathAttrASPath.widen_eq (show (2 : UInt8) ≠ 4 by decide) read
  refine ⟨wide, ?_, code, same⟩
  rw [normalizeASPath, if_neg nonzero]
  show ((convertAS2ToAS4 [.asPath (readPath segs value)] >>=
    fun pathAttrs => .ok pathAttrs) >>= _) = _
  rw [convertAS2ToAS4]
  show ((((readPath segs value).widen >>= _) >>= _) >>= _) = _
  rw [widened]
  rfl

end Receiving

section Arriving

variable {segs : List BGPAS4PathSegment}

/-- A number that two bytes hold survives being cut down and widened. -/
theorem as2Number_toUInt32 {number : UInt32} (small : number ≤ 65535) :
    (as2Number number).toUInt32 = number := by
  have bound : number.toNat ≤ 65535 := UInt32.le_iff_toNat_le.mp small
  rw [as2Number, if_neg (UInt32.not_lt.mpr small)]
  apply UInt32.toNat_inj.mp
  rw [toNat_toUInt32, UInt32.toNat_toUInt16]
  omega

/-- What a segment of two-byte numbers says once it has been widened. -/
def widenContent (content : UInt8 × List UInt16) : UInt8 × List UInt32 :=
  (content.1, content.2.map UInt16.toUInt32)

theorem widenContent_injective : Function.Injective widenContent := by
  intro first second same
  have types := congrArg Prod.fst same
  have numbers := congrArg Prod.snd same
  have wider : Function.Injective toUInt32 := by
    intro left right equal
    apply UInt16.toNat_inj.mp
    rw [← UInt16.toNat_toUInt32, equal, UInt16.toNat_toUInt32]
  exact Prod.ext types (map_injective_iff.mpr wider numbers)

/-- Cutting down a path that two bytes hold and widening it gives the path back. -/
theorem shortPath_content (mappable : Mappable segs) : segs.map BGPAS4PathSegment.content =
      ((shortPath segs).map BGPAS2PathSegment.content).map widenContent := by
  rw [shortPath, map_map, map_map]
  apply map_congr_left
  intro seg member
  refine Prod.ext rfl ?_
  show seg.ases = (seg.ases.map as2Number).map toUInt32
  rw [map_map]
  have kept : seg.ases.map (toUInt32 ∘ as2Number) = seg.ases.map id := by
    apply map_congr_left
    intro number listed
    exact as2Number_toUInt32 (mappable seg member number listed)
  rw [kept, map_id]

/-- Widened segments are segments of four-byte numbers, and say the same. -/
theorem widened_content (read : ∀ seg ∈ value, SegmentRead 2 seg) :
    ∃ back : List BGPAS4PathSegment, value.map BGPASPathSegment.widened = back.map .as4 ∧
      back.map BGPAS4PathSegment.content =
        (value.map BGPASPathSegment.content).map widenContent := by
  induction value with
  | nil => exact ⟨[], rfl, rfl⟩
  | cons seg value ih =>
    obtain ⟨back, widened, content⟩ :=
      ih fun other later => read other (mem_cons_of_mem _ later)
    have first := read seg mem_cons_self
    cases seg with
    | as4 seg => exact absurd first.1 (by decide)
    | as2 seg =>
      refine ⟨{ type := seg.type, length := seg.length,
                bgpASPathSegmentLen := 2 + seg.length.toUInt16 * 4,
                ases := seg.ases.map toUInt32 } :: back, ?_, ?_⟩
      · rw [map_cons, map_cons, widened]
        rfl
      · rw [map_cons, map_cons, map_cons, content]
        rfl

/-- Of segments of two-byte numbers the content says all that is listed. -/
theorem listed_iff_content {segs : List BGPAS2PathSegment}
    (read : ∀ seg ∈ value, SegmentRead 2 seg) :
    value.map BGPASPathSegment.listed = (segs.map as2).map BGPASPathSegment.listed ↔
      value.map BGPASPathSegment.content = segs.map BGPAS2PathSegment.content := by
  have kept : value.map BGPASPathSegment.listed =
      (value.map BGPASPathSegment.content).map (Prod.map id ASNumbers.as2) := by
    rw [map_map]
    apply map_congr_left
    intro seg member
    cases seg with
    | as2 seg => rfl
    | as4 seg => exact absurd (read _ member).1 (by decide)
  have other : (segs.map as2).map BGPASPathSegment.listed =
      (segs.map BGPAS2PathSegment.content).map (Prod.map id ASNumbers.as2) := by
    simp only [map_map]
    rfl
  have injective : Function.Injective (Prod.map (id : UInt8 → UInt8) ASNumbers.as2) :=
    Function.injective_id.prodMap fun _ _ same => ASNumbers.as2.inj same
  rw [kept, other]
  exact (map_injective_iff.mpr injective).eq_iff

/-- A widened path is the one that was sent exactly when the short one came through. -/
theorem carriesPath_iff (mappable : Mappable segs) {wide : BGPPathAttrASPath}
    (read : ∀ seg ∈ value, SegmentRead 2 seg) (code : wide.code = attrTypeASPath)
    (same : wide.value = value.map BGPASPathSegment.widened) :
    CarriesPath segs [.asPath wide] ↔
      value.map BGPASPathSegment.content = (shortPath segs).map BGPAS2PathSegment.content := by
  obtain ⟨back, widened, content⟩ := widened_content read
  have coded : (BGPPathAttr.asPath wide).getCode = attrTypeASPath := code
  have single : ([BGPPathAttr.asPath wide].filter fun pa => pa.getCode == attrTypeASPath) =
      [.asPath wide] := by
    simp [coded]
  constructor
  · intro ⟨⟨asPath, original, only, made, told⟩, _⟩
    rw [single] at only
    cases only
    -- The segments behind the interface are those that widening has made.
    have inner : original = back := by
      have equal : original.map as4 = back.map .as4 := by
        rw [← made, same, widened]
      refine map_injective_iff.mpr ?_ equal
      intro left right both
      injection both
    rw [inner, content, shortPath_content mappable] at told
    exact map_injective_iff.mpr widenContent_injective told
  · intro through
    refine ⟨⟨wide, back, single, same.trans widened, ?_⟩, ?_⟩
    · rw [content, through, shortPath_content mappable]
    · intro pa member
      rw [mem_singleton.mp member]
      refine ⟨?_, rfl⟩
      rw [coded]
      decide

end Arriving

section Unmappable

/-- Segments written into a short buffer never come round to its first bytes. -/
theorem encodeSegments_take {offset : UInt16} (short : pkt.length ≤ 4096)
    (small : ∀ seg ∈ value, seg.totalLen.toNat ≤ 1022) (behind : count ≤ offset.toNat)
    (begun : offset.toNat ≤ 16384) :
    (encodeSegments pkt offset value).Yields fun state => state.1.take count = pkt.take count := by
  have kept : (encodeSegments pkt offset value).Yields fun state =>
      state.1.take count = pkt.take count ∧ state.1.length = pkt.length ∧
        count ≤ state.2.toNat ∧ state.2.toNat ≤ 16384 := by
    refine Outcome.Yields.foldlM ⟨rfl, rfl, behind, begun⟩ ?_
    intro state seg member ⟨front, length, after, low⟩
    apply Outcome.Yields.bind
    intro out written
    -- The segment began inside the buffer, so the sum is far from wrapping.
    obtain ⟨same, size, inside⟩ := segmentEncode_take after written
    have bound := small seg member
    have moved : (state.2 + seg.totalLen).toNat = state.2.toNat + seg.totalLen.toNat := by
      rw [UInt16.toNat_add]
      omega
    refine .ok ⟨same.trans front, size.trans length, ?_, ?_⟩
    · rw [moved]
      omega
    · rw [moved]
      omega
  intro state written
  exact (kept state written).1

/-- The first two bytes of a header are the flags and the code. -/
theorem baseEncode_front {base : BGPPathAttrBase} (encoded : base.encode = .ok out) :
    out.take 2 = [base.flags, base.code] := by
  rw [BGPPathAttrBase.encode_eq, storeAt] at encoded
  split at encoded
  · cases encoded
    rfl
  · cases encoded

/-- The flags of an AS4_PATH attribute are refused behind the code of AS_PATH. -/
theorem as4Path_refused {fuel : Nat} {peerAttrs : BGPPeerAttrs} {rest : Bytes} {pa : BGPPathAttr}
    (front : rest.take 2 = [flagOptional ||| flagTransitive, attrTypeASPath]) :
    BGPPathAttr.decode fuel rest peerAttrs ≠ .ok pa := by
  intro decoded
  have header := BGPPathAttrBase.decode_ok (attrDecode_base pa decoded)
  obtain ⟨tail, rfl⟩ : ∃ tail, rest = (flagOptional ||| flagTransitive) :: attrTypeASPath :: tail := by
    refine ⟨rest.drop 2, ?_⟩
    have whole := take_append_drop 2 rest
    rw [front] at whole
    exact whole.symm
  have code : pa.base.code = attrTypeASPath := (Option.some.inj header.code).symm
  have flags : pa.base.flags = flagOptional ||| flagTransitive := (Option.some.inj header.flags).symm
  have clash := header.accepted.typeFlags flagTransitive flagAllMinusExtendedLen
    (by rw [code]; decide)
  rw [flags] at clash
  exact absurd clash (by decide)

/-- A path that fits has no more segments than its bytes have room for. -/
theorem wire_count (segs : List BGPAS2PathSegment) :
    2 * segs.length ≤ (wire segs).length := by
  induction segs with
  | nil => exact Nat.zero_le _
  | cons seg segs ih =>
    rw [wire_cons_length, wireSize, length_cons]
    omega

/-- An AS4_PATH attribute that fits into a message begins with the code of AS_PATH. -/
theorem as4Path_front {segs : List BGPAS4PathSegment} {length : UInt16} {bytes : Bytes}
    (sound : ∀ seg ∈ segs, AS4Segment seg) (few : segs.length ≤ 2048)
    (encoded : (BGPPathAttr.as4Path (as4Path length segs)).encode = .ok bytes)
    (short : bytes.length ≤ 4096) :
    bytes.take 2 = [flagOptional ||| flagTransitive, attrTypeASPath] := by
  obtain ⟨pkt, header, encoded⟩ := bind_eq_ok.mp encoded
  rw [bind_eq_ok] at encoded
  obtain ⟨state, written, same⟩ := encoded
  cases same
  have size := encodeSegments_length _ _ _ state written
  have offset : (4 + ofNat (segs.length * 4)).toNat = 4 + segs.length * 4 := by
    simp only [UInt16.toNat_add, UInt16.toNat_ofNat', UInt16.reduceToNat]
    omega
  -- No segment is counted as longer than 255 numbers are.
  have small : ∀ seg ∈ segs.map as4, seg.totalLen.toNat ≤ 1022 := by
    intro seg member
    obtain ⟨inner, listed, rfl⟩ := mem_map.mp member
    obtain ⟨counted, measured⟩ := sound inner listed
    have bound := inner.length.toNat_lt
    show inner.bgpASPathSegmentLen.toNat ≤ 1022
    omega
  have kept := encodeSegments_take (by omega) small
    (show 2 ≤ (4 + ofNat (segs.length * 4)).toNat by omega) (by omega) state written
  rw [kept, baseEncode_front header]
  rfl

variable {fuel : Nat} {peerAttrs : BGPPeerAttrs}

/-- A loop over attributes that ends well has decoded an attribute where bytes were left. -/
theorem attrLoop_next {inner : Nat} {cursor last : AttrCursor} (left : 0 < cursor.length)
    (ended : loop (attrRound pkt peerAttrs inner) fuel cursor = .ok last) :
    ∃ attr rest, BGPPathAttr.decode inner (pkt.drop cursor.ptr.toNat) peerAttrs = .ok attr ∧
      loop (attrRound pkt peerAttrs inner) rest ⟨cursor.ptr + attr.totalLen,
        cursor.length - attr.totalLen.toNat, cursor.pathAttributes ++ [attr]⟩ = .ok last := by
  cases fuel with
  | zero => cases ended
  | succ fuel =>
    rw [loop, attrRound_reads left, bind_assoc, bind_eq_ok] at ended
    obtain ⟨attr, decoded, ended⟩ := ended
    exact ⟨attr, fuel, decoded, ended⟩

/-- A path of two-byte numbers with an AS4_PATH attribute behind it is not accepted. -/
theorem as4Path_spoils {segs : List BGPAS2PathSegment} {second : Bytes} {update : BGPUpdate}
    (small : 19 + (sections [] (as2Wire segs ++ second) []).length ≤ 4096)
    (front : second.take 2 = [flagOptional ||| flagTransitive, attrTypeASPath]) :
    BGPUpdate.decode fuel (updateHeader (sections [] (as2Wire segs ++ second) []))
      (sections [] (as2Wire segs ++ second) []) peerAttrs ≠ .ok update := by
  intro decoded
  have length : (as2Wire segs ++ second).length =
      (wire segs).length + 4 + second.length := by
    rw [length_append, as2Wire_length]
  have size := small
  rw [sections_length, length] at size
  have positive : 0 < second.length := by
    rw [length_pos_iff]
    rintro rfl
    cases front
  have body : (sections [] (as2Wire segs ++ second) []).drop 4 = as2Wire segs ++ second := by
    rw [sections, append_nil]
    rfl
  -- Raise the budget to one that starts the loop over the attributes.
  have raised := steady_updateDecode _
    (sections [] _ []) peerAttrs fuel (fuel + 1) (Nat.le_succ _)
    (fun hung => by cases decoded.symm.trans hung)
  simp only at raised
  rw [decoded, decode_sections small (decodeNLRI_zero _ _), bind_eq_ok] at raised
  obtain ⟨last, ended, _⟩ := raised
  -- The first attribute is the path, whatever its segments are read as.
  obtain ⟨attr, rest, first, ended⟩ := attrLoop_next
    (show (0 : Int) < (as2Wire segs ++ second).length by omega) ended
  change BGPPathAttr.decode _ ((sections [] (as2Wire segs ++ second) []).drop 4) _ = _ at first
  have carried : BGPPathAttrBase.decode _ = .ok attr.base := attrDecode_base attr first
  have room : (wire segs).length ≤ (wire segs ++ second).length := by simp
  rw [body, as2Wire, append_assoc, asPathBase_decode (by omega) room] at carried
  have total : attr.totalLen.toNat = (wire segs).length + 4 := by
    show attr.base.totalLen.toNat = _
    rw [← ok.inj carried, asPathBase_totalLen (by omega)]
  -- The second one begins behind it.
  obtain ⟨next, rest, again, ended⟩ := attrLoop_next
    (show (0 : Int) < (as2Wire segs ++ second).length - attr.totalLen.toNat by omega) ended
  have placed : ((4 : UInt32) + attr.totalLen).toNat = 4 + (as2Wire segs).length := by
    simp only [UInt32.toNat_add, total, UInt32.reduceToNat, as2Wire_length]
    omega
  change BGPPathAttr.decode _ (drop ((4 : UInt32) + attr.totalLen).toNat _) _ = _ at again
  rw [placed, ← drop_drop, body, drop_left] at again
  exact as4Path_refused front again

end Unmappable

section Interoperation

variable {fuel : Nat} {peerAttrs : BGPPeerAttrs} {path : BGPPathAttrASPath}
  {segs : List BGPAS4PathSegment}

theorem updateHeader_decode (body pkt : Bytes) :
    BGPMessage.decode fuel (updateHeader body) pkt peerAttrs =
      BGPUpdate.decode fuel (updateHeader body) pkt peerAttrs >>= fun read =>
        normalizeASPath fuel read >>= fun update =>
          .ok ⟨updateHeader body, some (.updateBody update)⟩ := rfl

/-- The segments read of a path sent in two bytes are of two-byte numbers. -/
theorem as2Loop_read {segs : List BGPAS2PathSegment} (two : peerAttrs.asSize = 2)
    (small : (wire segs).length ≤ 65535) (ended : as2Loop segs fuel = .ok value) :
    ∀ seg ∈ value, SegmentRead 2 seg := by
  have decoded : BGPPathAttrASPath.decode fuel (as2Wire segs) peerAttrs =
      .ok (readPath segs value) := by
    rw [as2Attr_decode two small, ended]
    rfl
  rw [← two]
  exact (BGPPathAttrASPath.decode_read decoded).2

/-- A short path is given back by some run of the loop exactly when it is legible. -/
theorem as2Loop_iff {segs : List BGPAS2PathSegment}
    (sound : ∀ seg ∈ segs, WireSegment seg)
    (two : peerAttrs.asSize = 2) (small : (wire segs).length ≤ 65535) :
    (∃ fuel value, as2Loop segs fuel = .ok value ∧
      value.map BGPASPathSegment.content = segs.map BGPAS2PathSegment.content) ↔
    Legible segs := by
  rw [← meets_iff_legible fun seg member => (sound seg member).counted]
  have plain : segs.map as2 =
      (segs.map fun seg => (seg.toBGPASPathSegmentBase, seg.ases)).map
        as2Width.wrap := by
    rw [map_map]
    rfl
  have loops := @asPath_loop_iff _ as2Width _ small
    (segs.map fun seg => (seg.toBGPASPathSegmentBase, seg.ases)) (by
      intro seg member
      obtain ⟨original, listed, rfl⟩ := mem_map.mp member
      exact (sound original listed).counted)
  rw [← plain] at loops
  refine Iff.trans ?_ loops
  constructor
  · rintro ⟨fuel, value, ended, same⟩
    exact ⟨fuel, value, ended, (listed_iff_content (as2Loop_read two small ended)).mpr same⟩
  · rintro ⟨fuel, value, ended, same⟩
    exact ⟨fuel, value, ended, (listed_iff_content (as2Loop_read two small ended)).mp same⟩

section

variable (code : path.code = attrTypeASPath) (made : path.value = segs.map .as4)
  (sound : ∀ seg ∈ segs, AS4Segment seg)

include code made sound

/-- What a path that two bytes hold is written as, if it fits into a message. -/
theorem sendAS2_mappable (mappable : Mappable segs) : sendAS2 path = .ok pkt ↔
      FitsIn (wire (shortPath segs)).length (shortPath segs) ∧
      (wire (shortPath segs)).length + 27 ≤ 4096 ∧
      pkt = (updateHeader (sections [] (as2Wire (shortPath segs)) [])).encode ++
        sections [] (as2Wire (shortPath segs)) [] := by
  have short := shortPath_sound sound
  have single : encodeAll BGPPathAttr.encode [.asPath (as2Path (shortPath segs))] =
      (BGPPathAttr.asPath (as2Path (shortPath segs))).encode := by
    show ((BGPPathAttr.asPath (as2Path (shortPath segs))).encode >>= fun bytes =>
      .ok ([] ++ bytes)) >>= _ = _
    cases (BGPPathAttr.asPath _).encode <;> rfl
  rw [sendAS2, convert_eq code made sound, if_pos mappable, ok_bind, attrMessage_encode, single]
  constructor
  · intro sent
    obtain ⟨attributes, encoded, sent⟩ := bind_eq_ok.mp sent
    split at sent
    · cases sent
    · rename_i fitting
      rw [sections_length] at fitting
      obtain ⟨fits, rfl⟩ := as2Path_encode_fits short encoded (by omega)
      cases sent
      simp only [length_nil, as2Wire_length] at fitting
      exact ⟨fits, by omega, rfl⟩
  · rintro ⟨fits, small, rfl⟩
    rw [as2Path_encode short (by omega) fits, ok_bind, if_neg]
    simp only [sections_length, length_nil, as2Wire_length]
    omega

/-- A path that two bytes do not hold is written with an attribute that is not accepted. -/
theorem sendAS2_unmappable (unmappable : ¬ Mappable segs) (sent : sendAS2 path = .ok pkt) :
    ∃ second : Bytes, second.take 2 = [flagOptional ||| flagTransitive, attrTypeASPath] ∧
      19 + (sections [] (as2Wire (shortPath segs) ++ second) []).length ≤ 4096 ∧
      pkt = (updateHeader (sections [] (as2Wire (shortPath segs) ++ second) [])).encode ++
        sections [] (as2Wire (shortPath segs) ++ second) [] := by
  have short := shortPath_sound sound
  rw [sendAS2, convert_eq code made sound, if_neg unmappable, ok_bind, attrMessage_encode,
    bind_eq_ok] at sent
  obtain ⟨attributes, encoded, sent⟩ := sent
  split at sent
  · cases sent
  rename_i fitting
  cases sent
  change ((BGPPathAttr.asPath (as2Path (shortPath segs))).encode >>= fun bytes =>
    .ok ([] ++ bytes)) >>= (fun first =>
      ((BGPPathAttr.as4Path (as4Path path.length segs)).encode >>= fun bytes =>
        .ok (first ++ bytes)) >>= fun both => .ok both) = _ at encoded
  simp only [bind_eq_ok, ok.injEq] at encoded
  obtain ⟨_, ⟨first, encoded, rfl⟩, _, ⟨second, encodedToo, rfl⟩, rfl⟩ := encoded
  have fitted := fitting
  rw [nil_append, sections_length, length_append] at fitted
  obtain ⟨fits, rfl⟩ := as2Path_encode_fits short encoded (by omega)
  rw [as2Wire_length] at fitted
  have few : segs.length ≤ 2048 := by
    have bound := wire_count (shortPath segs)
    rw [shortPath, length_map, ← shortPath] at bound
    omega
  exact ⟨second, as4Path_front sound few encodedToo (by omega), not_lt.mp fitting, rfl⟩

end

/-- A path arrives as it was sent exactly when two bytes hold its numbers, its segments are
    legible on the wire, and the message is not too long. -/
theorem as2_interop_lossless_iff (code : path.code = attrTypeASPath)
    (made : path.value = segments.map .as4)
    (sound : ∀ seg ∈ segments, AS4Segment seg) (two : peerAttrs.asSize = 2) :
    Lossless peerAttrs path segments ↔ Mappable segments ∧ Legible (shortPath segments) ∧
        (wire (shortPath segments)).length + 27 ≤ 4096 := by
  have short := shortPath_sound sound
  constructor
  · rintro ⟨fuel, header, update, arrived, carried⟩
    obtain ⟨pkt, sent, received⟩ := bind_eq_ok.mp arrived
    by_cases mappable : Mappable segments
    · obtain ⟨fits, small, rfl⟩ := (sendAS2_mappable code made sound mappable).mp sent
      rw [receive_encode, updateHeader_decode, bind_eq_ok] at received
      obtain ⟨body, decoded, received⟩ := received
      obtain ⟨_, normalized, same⟩ := bind_eq_ok.mp received
      cases same
      -- Raise the budget to one that is enough for the loop over the attributes.
      have raised := steady_updateDecode _ _ peerAttrs fuel (fuel + 2) (Nat.le_add_right _ 2)
        (fun hung => by cases decoded.symm.trans hung)
      simp only at raised
      rw [decoded, as2Body_decode two small, bind_eq_ok] at raised
      obtain ⟨value, ended, same⟩ := raised
      cases same
      have read := as2Loop_read two (by omega) ended
      obtain ⟨wide, widened, wideCode, wideValue⟩ := as2Update_normalize small read
      rw [widened] at normalized
      cases normalized
      have content := (carriesPath_iff mappable read wideCode wideValue).mp carried
      exact ⟨mappable, (as2Loop_iff short two (by omega)).mp ⟨_, value, ended, content⟩, small⟩
    · obtain ⟨second, front, small, rfl⟩ := sendAS2_unmappable code made sound mappable sent
      rw [receive_encode, updateHeader_decode, bind_eq_ok] at received
      obtain ⟨body, decoded, _⟩ := received
      exact absurd decoded (as4Path_spoils small front)
  · rintro ⟨mappable, legible, small⟩
    have sent := (sendAS2_mappable code made sound mappable).mpr ⟨legible.fits, small, rfl⟩
    obtain ⟨fuel, value, ended, content⟩ := (as2Loop_iff short two (by omega)).mpr legible
    have raised : as2Loop (shortPath segments) (fuel + 2) = .ok value :=
      (steady_plainLoop _ _ fuel (fuel + 2) (Nat.le_add_right _ 2)
        (fun hung => by cases ended.symm.trans hung)).trans ended
    have read := as2Loop_read two (by omega) ended
    obtain ⟨wide, widened, wideCode, wideValue⟩ := as2Update_normalize small read
    have carried := (carriesPath_iff mappable read wideCode wideValue).mpr content
    refine ⟨fuel + 2, updateHeader (sections [] (as2Wire (shortPath segments)) []),
      { as2Update (shortPath segments) value with pathAttributes := [.asPath wide] }, ?_, carried⟩
    rw [sent, ok_bind, receive_encode, updateHeader_decode, as2Body_decode two small, raised,
      ok_bind, ok_bind, widened]
    rfl

/-- A path of one sequence that has one number. -/
def singleASPath (number : UInt32) : BGPPathAttrASPath :=
  newBGPPathAttrASPath.appendASPathSegment
    (.as4 { type := 2, length := 1, bgpASPathSegmentLen := 6, ases := [number] })

/-- A session whose two ends agreed on two-byte numbers. -/
def twoByteSession : BGPPeerAttrs := ⟨2, false⟩

/-- A number of two bytes arrives, and one of four does not. -/
theorem as2_interop_single_numbers :
    Lossless twoByteSession (singleASPath 65001) [⟨⟨2, 1, 6⟩, [65001]⟩] ∧
      ¬ Lossless twoByteSession (singleASPath 70000) [⟨⟨2, 1, 6⟩, [70000]⟩] := by
  have sound : ∀ number : UInt32, ∀ seg ∈ [(⟨⟨2, 1, 6⟩, [number]⟩ : BGPAS4PathSegment)],
      AS4Segment seg := by
    intro number seg member
    rw [mem_singleton.mp member]
    exact ⟨rfl, le_refl 6⟩
  constructor
  · exact (as2_interop_lossless_iff rfl rfl (sound 65001) rfl).mpr
      ⟨by decide, ⟨by decide, trivial⟩, by decide⟩
  · intro lossless
    have ⟨mappable, _⟩ := (as2_interop_lossless_iff rfl rfl (sound 70000) rfl).mp lossless
    exact absurd mappable (by decide)

/-- The AS4_PATH attribute sent for a number of four bytes has the code of AS_PATH, and its flags
    are reported. -/
theorem as2_interop_wide_number_reported :
    (sendAS2 (singleASPath 70000) >>= receive 8 twoByteSession) =
      .error ⟨bgpUpdateMsgError, bgpAttrFlagsError, [0xc0, 2, 6, 0, 0, 0, 0, 0, 2],
        "Bad Attribute Flags"⟩ := by
  decide +kernel

end Interoperation

end FlexSwitch.Packet
