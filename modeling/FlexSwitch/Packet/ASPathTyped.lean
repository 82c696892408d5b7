import FlexSwitch.Packet.ASPath
import FlexSwitch.Packet.AttrHeader

/-! What decoding guarantees about the segments of a path, and what widening makes of them. -/

namespace FlexSwitch.Packet

open Go List Outcome

/-- A segment of the width the session uses, which has the numbers it announces. -/
def SegmentRead (asSize : UInt8) : BGPASPathSegment → Prop
  | .as2 seg => asSize ≠ 4 ∧ seg.ases.length = seg.length.toNat
  | .as4 seg => asSize = 4 ∧ seg.ases.length = seg.length.toNat

theorem readNumbers_length {α : Type} {width : Nat} {read : Bytes → Call α} {pkt : Bytes}
    {count position : Nat} {numbers : List α}
    (done : readNumbers width read pkt count position = .ok numbers) :
    numbers.length = count := by
  induction count generalizing position numbers with
  | zero =>
    cases done
    rfl
  | succ count ih =>
    simp only [readNumbers, bind_eq_ok] at done
    obtain ⟨_, _, number, _, rest, others, built⟩ := done
    cases built
    rw [length_cons, ih others]

/-- A decoded segment has as many numbers as its length byte says. -/
theorem decodeSegment_counted {α : Type} {width : UInt8} {read : Bytes → Call α} {pkt : Bytes}
    {seg : BGPASPathSegmentBase × List α}
    (decoded : decodeSegment width read pkt = .ok seg) :
    seg.2.length = seg.1.length.toNat := by
  simp only [decodeSegment, bind_eq_ok] at decoded
  obtain ⟨⟨type, length⟩, _, decoded⟩ := decoded
  dsimp only at decoded
  split at decoded
  · cases decoded
  · -- The numbers are read by the length byte, and nothing is changed behind that.
    simp only [pure_eq, bind_eq_ok] at decoded
    obtain ⟨ases, numbers, built⟩ := decoded
    cases built
    exact readNumbers_length numbers

theorem segmentDecode_read {asSize : UInt8} {pkt : Bytes} {seg : BGPASPathSegment}
    (decoded : BGPASPathSegment.decode asSize pkt = .ok seg) : SegmentRead asSize seg := by
  by_cases four : asSize = 4
  · rw [four, asPathSegment_decode_four] at decoded
    simp only [bind_eq_ok, BGPAS4PathSegment.decode] at decoded
    obtain ⟨_, ⟨inner, read, made⟩, built⟩ := decoded
    cases made
    cases built
    exact ⟨four, decodeSegment_counted read⟩
  · rw [asPathSegment_decode_two four] at decoded
    simp only [bind_eq_ok, BGPAS2PathSegment.decode] at decoded
    obtain ⟨_, ⟨inner, read, made⟩, built⟩ := decoded
    cases made
    cases built
    exact ⟨four, decodeSegment_counted read⟩

/-- Every segment of a decoded AS_PATH is of the width the session uses. -/
theorem BGPPathAttrASPath.decode_read {fuel : Nat} {pkt : Bytes} {peerAttrs : BGPPeerAttrs}
    {attr : BGPPathAttrASPath} (decoded : BGPPathAttrASPath.decode fuel pkt peerAttrs = .ok attr) :
    attr.asSize = peerAttrs.asSize ∧
      ∀ seg ∈ attr.value, SegmentRead peerAttrs.asSize seg := by
  simp only [BGPPathAttrASPath.decode, bind_eq_ok] at decoded
  obtain ⟨base, _, value, ended, built⟩ := decoded
  cases built
  refine ⟨rfl, ?_⟩
  obtain ⟨last, reached, stopped⟩ := loop_eq_ok ended
  rw [segmentRound_stop stopped]
  -- Each round adds one segment, which was decoded in this width.
  refine reached.invariant
    (fun state => ∀ seg ∈ state.value, SegmentRead peerAttrs.asSize seg)
    (forall_mem_nil _) ?_
  intro state later before advanced
  obtain ⟨seg, _, _, read, _, _, added⟩ := segmentRound_next advanced
  rw [added]
  exact forall_mem_append.mpr ⟨before, forall_mem_singleton.mpr (segmentDecode_read read)⟩

/-- A segment with its numbers widened. -/
def BGPASPathSegment.widened : BGPASPathSegment → BGPASPathSegment
  | .as2 seg => .as4 { type := seg.type, length := seg.length,
                           bgpASPathSegmentLen := 2 + seg.length.toUInt16 * 4,
                           ases := seg.ases.map UInt16.toUInt32 }
  | .as4 seg => .as4 seg

/-- A segment that has the numbers it announces is widened without padding. -/
theorem BGPAS2PathSegment.widen_eq {seg : BGPAS2PathSegment}
    (counted : seg.ases.length = seg.length.toNat) :
    ∃ wide, seg.widen = .ok wide ∧ (BGPASPathSegment.as2 seg).widened = .as4 wide := by
  refine ⟨_, ?_, rfl⟩
  rw [BGPAS2PathSegment.widen, if_pos (le_of_eq counted), counted, Nat.sub_self,
    replicate_zero, append_nil]

/-- A path of two-byte segments is widened segment by segment, and forgets its AS size. -/
theorem BGPPathAttrASPath.widen_eq {asSize : UInt8} (two : asSize ≠ 4) {attr : BGPPathAttrASPath}
    (read : ∀ seg ∈ attr.value, SegmentRead asSize seg) :
    ∃ wide, attr.widen = .ok wide ∧ wide.code = attrTypeASPath ∧ wide.asSize = 0 ∧
      wide.value = attr.value.map BGPASPathSegment.widened := by
  -- The segments are appended one by one, so the path so far stays quantified over.
  have general : ∀ (segs : List BGPASPathSegment) (path : BGPPathAttrASPath),
      (∀ seg ∈ segs, SegmentRead asSize seg) →
      ∃ wide, (segs.foldlM (fun path seg => do
          return path.appendASPathSegment (.as4 (← (← typeAssert seg.asAS2).widen)))
          path : Call BGPPathAttrASPath) = .ok wide ∧
        wide.code = path.code ∧ wide.asSize = path.asSize ∧
        wide.value = path.value ++ segs.map BGPASPathSegment.widened := by
    intro segs
    induction segs with
    | nil =>
      intro path _
      exact ⟨path, rfl, rfl, rfl, (append_nil _).symm⟩
    | cons seg segs ih =>
      intro path each
      have first := each seg mem_cons_self
      cases seg with
      | as4 seg => exact absurd first.1 two
      | as2 seg =>
        obtain ⟨wideSegment, widened, same⟩ := seg.widen_eq first.2
        obtain ⟨wide, rest, code, size, value⟩ :=
          ih (path.appendASPathSegment _)
            (fun other later => each other (mem_cons_of_mem _ later))
        refine ⟨wide, ?_, code, size, ?_⟩
        · rw [foldlM_cons]
          show ((seg.widen >>= fun wideSegment =>
            .ok (path.appendASPathSegment (.as4 wideSegment))) >>= _) = _
          rw [widened, ok_bind, ok_bind]
          exact rest
        · rw [value, map_cons, same]
          simp [BGPPathAttrASPath.appendASPathSegment]
  obtain ⟨wide, built, code, size, value⟩ := general attr.value newBGPPathAttrASPath read
  exact ⟨wide, built, code, size, value⟩

end FlexSwitch.Packet
