import FlexSwitch.Packet.ASPathRoundTrip

/-! A path of two-byte numbers as it stands on the wire, written and read back. -/

namespace FlexSwitch.Packet

open Go List

variable {segs : List BGPAS2PathSegment}

/-- All the bytes a segment is written as. -/
def segmentBytes (seg : BGPAS2PathSegment) : Bytes :=
  seg.type :: seg.length :: seg.ases.flatMap uint16Bytes

/-- The bytes a segment is counted as, whose doubled length has eight bits. -/
def wireSize (seg : BGPAS2PathSegment) : Nat := 2 + 2 * (seg.ases.length % 128)

/-- The segments on the wire, each cut where the next one is written over it. -/
def wire : List BGPAS2PathSegment → Bytes
  | [] => []
  | seg :: rest => (segmentBytes seg).take (wireSize seg) ++ wire rest

/-- The segment announces the numbers it has, and is counted as its eight bits say. -/
structure WireSegment (seg : BGPAS2PathSegment) : Prop where
  counted : seg.length.toNat = seg.ases.length
  measured : seg.bgpASPathSegmentLen.toNat = wireSize seg

/-- Every segment can be written into the room that is left where it starts. -/
def FitsIn : Nat → List BGPAS2PathSegment → Prop
  | _, [] => True
  | room, seg :: rest =>
    (segmentBytes seg).length ≤ room ∧ FitsIn (room - wireSize seg) rest

section

variable (seg : BGPAS2PathSegment) (rest : List BGPAS2PathSegment)

@[simp] theorem segmentBytes_length :
    (segmentBytes seg).length = 2 + 2 * seg.ases.length := by
  have numbers : (seg.ases.flatMap uint16Bytes).length = 2 * seg.ases.length := by
    simp [length_flatMap, mul_comm]
  simp only [segmentBytes, length_cons, numbers]
  omega

/-- No segment is counted as more bytes than it is written as. -/
theorem wireSize_le : wireSize seg ≤ (segmentBytes seg).length := by
  rw [segmentBytes_length, wireSize]
  omega

theorem wire_cons_length :
    (wire (seg :: rest)).length = wireSize seg + (wire rest).length := by
  have short := wireSize_le seg
  rw [wire, length_append, length_take, min_eq_left short]

/-- The first segment's own two bytes are always in front. -/
theorem wire_cons : ∃ body, wire (seg :: rest) = seg.type :: seg.length :: body := by
  refine ⟨(seg.ases.flatMap uint16Bytes).take (2 * (seg.ases.length % 128)) ++ wire rest,
    ?_⟩
  rw [wire, wireSize, segmentBytes, add_comm]
  rfl

end

/-- Segments that fit into some room are counted as no more than that room. -/
theorem FitsIn.wire_le {room : Nat} (fits : FitsIn room segs) :
    (wire segs).length ≤ room := by
  induction segs generalizing room with
  | nil => exact Nat.zero_le _
  | cons seg rest ih =>
    obtain ⟨first, others⟩ := fits
    have short := wireSize_le seg
    have behind := ih others
    rw [wire_cons_length]
    omega

/-- The segments are written over each other's ends, or one of them runs out of the buffer. -/
theorem encodeSegments_append (sound : ∀ seg ∈ segs, WireSegment seg)
    (front room : Bytes) (offset : UInt16) (placed : offset.toNat = front.length)
    (small : front.length + room.length < 65536) :
    (FitsIn room.length segs → ∃ tail last,
      encodeSegments (front ++ room) offset (segs.map .as2) =
        .ok (front ++ wire segs ++ tail, last) ∧
      (wire segs).length + tail.length = room.length) ∧
    (¬ FitsIn room.length segs →
      encodeSegments (front ++ room) offset (segs.map .as2) = .panic) := by
  induction segs generalizing front room offset with
  | nil =>
    refine ⟨fun _ => ⟨room, offset, ?_, ?_⟩, fun lacks => absurd trivial lacks⟩
    · rw [wire, append_nil]
      rfl
    · exact zero_add _
  | cons seg rest ih =>
    have measured := (sound seg mem_cons_self).measured
    have short := wireSize_le seg
    -- One segment is written first, and the loop goes on from its counted end.
    have unfolded : encodeSegments (front ++ room) offset ((seg :: rest).map .as2) =
        (BGPASPathSegment.as2 seg).encode (front ++ room) front.length >>= fun pkt =>
          encodeSegments pkt (offset + seg.bgpASPathSegmentLen) (rest.map .as2) := by
      rw [← placed]
      show foldlM _ _ (BGPASPathSegment.as2 seg :: rest.map .as2) = _
      rw [foldlM_cons, Outcome.bind_assoc]
      rfl
    have bytes : (BGPASPathSegment.as2 seg).bytes = segmentBytes seg := rfl
    rw [unfolded, BGPASPathSegment.encode_eq, bytes]
    by_cases first : (segmentBytes seg).length ≤ room.length
    · rw [storeAt_append front room _ first, Outcome.ok_bind]
      -- What is behind the counted end is room for the segments that follow.
      have cut : front ++ segmentBytes seg ++ room.drop (segmentBytes seg).length =
          (front ++ (segmentBytes seg).take (wireSize seg)) ++
            ((segmentBytes seg).drop (wireSize seg) ++
              room.drop (segmentBytes seg).length) := by
        simp only [append_assoc]
        rw [← append_assoc (take _ _), take_append_drop]
      have taken : ((segmentBytes seg).take (wireSize seg)).length = wireSize seg := by
        rw [length_take, min_eq_left short]
      have left : ((segmentBytes seg).drop (wireSize seg) ++
          room.drop (segmentBytes seg).length).length = room.length - wireSize seg := by
        rw [length_append, length_drop, length_drop]
        omega
      have moved : (offset + seg.bgpASPathSegmentLen).toNat =
          (front ++ (segmentBytes seg).take (wireSize seg)).length := by
        rw [length_append, taken, UInt16.toNat_add, placed, measured]
        omega
      obtain ⟨writes, overruns⟩ := ih (fun other later => sound other (mem_cons_of_mem _ later))
        (front ++ (segmentBytes seg).take _)
        ((segmentBytes seg).drop _ ++ room.drop (segmentBytes seg).length)
        (offset + seg.bgpASPathSegmentLen) moved
        (by rw [length_append, taken, left]; omega)
      rw [left] at writes overruns
      rw [cut]
      refine ⟨?_, fun lacks => overruns fun others => lacks ⟨first, others⟩⟩
      intro fits
      obtain ⟨tail, last, written, counted⟩ := writes fits.2
      refine ⟨tail, last, ?_, ?_⟩
      · rw [written, wire]
        simp only [append_assoc]
      · rw [wire_cons_length]
        omega
    · rw [storeAt, if_neg (by rw [length_append]; omega), Outcome.panic_bind]
      exact ⟨fun fits => absurd fits.1 first, fun _ => rfl⟩

/-- The bytes of every segment are whole on the wire, and reading it takes the reader behind it. -/
def Legible : List BGPAS2PathSegment → Prop
  | [] => True
  | seg :: rest =>
    (seg.ases.length ≠ 127 ∧ seg.ases.length ≠ 255 ∧
      (rest = [] → seg.ases ≠ []) ∧ segmentBytes seg <+: wire (seg :: rest)) ∧
    Legible rest

/-- What the wire keeps of a segment: its type and its numbers. -/
def BGPAS2PathSegment.content (seg : BGPAS2PathSegment) : UInt8 × List UInt16 :=
  (seg.type, seg.ases)

/-- What is whole on the wire has fitted when it was written. -/
theorem Legible.fits (legible : Legible segs) : FitsIn (wire segs).length segs := by
  induction segs with
  | nil => trivial
  | cons seg rest ih =>
    obtain ⟨⟨_, _, _, whole⟩, others⟩ := legible
    refine ⟨whole.length_le, ?_⟩
    rw [wire_cons_length, Nat.add_sub_cancel_left]
    exact ih others

/-- What the wire keeps of a segment behind the interface. -/
def BGPASPathSegment.content : BGPASPathSegment → UInt8 × List UInt16
  | as2 seg => seg.content
  | as4 seg => (seg.type, [])

section Reading

/-- The length in eight bits is that on the wire, unless it is a multiple of 256. -/
theorem stepSize {seg : BGPAS2PathSegment}
    (counted : seg.length.toNat = seg.ases.length)
    (first : seg.ases.length ≠ 127) (second : seg.ases.length ≠ 255) :
    (seg.length * 2 + 2).toNat = wireSize seg := by
  have small := seg.length.toNat_lt
  simp only [wireSize, UInt8.toNat_add, UInt8.toNat_mul, UInt8.reduceToNat]
  omega

/-- A segment of 127 or 255 numbers keeps the reader where it is, in front of a whole segment. -/
theorem not_meets_stalled {type count : UInt8} {body : Bytes} (stall : count * 2 + 2 = 0)
    (complete : SegmentComplete 2 (type :: count :: body)) (segs : List BGPAS2PathSegment) :
    ¬ Meets 2 (type :: count :: body) (segs.map .as2) := by
  induction segs with
  | nil => exact fun met => met complete
  | cons seg rest ih =>
    rintro ⟨-, stands, met⟩
    have same : seg.length = count :=
      (cons_prefix_cons.mp (cons_prefix_cons.mp stands).2).1
    rw [show (BGPASPathSegment.as2 seg).getLen = count from same, stall] at met
    exact ih met

/-- Whole on the wire, a segment is complete unless it is a last one without numbers. -/
theorem complete_iff {seg : BGPAS2PathSegment} {rest : List BGPAS2PathSegment}
    (counted : seg.length.toNat = seg.ases.length)
    (stands : segmentBytes seg <+: wire (seg :: rest)) :
    SegmentComplete 2 (wire (seg :: rest)) ↔ (rest = [] → seg.ases ≠ []) := by
  obtain ⟨body, same⟩ := wire_cons seg rest
  have size := wire_cons_length seg rest
  have long := stands.length_le
  rw [segmentBytes_length] at long
  rw [same, length_cons, length_cons, wireSize] at size
  rw [same, length_cons, length_cons] at long
  rw [same]
  show body ≠ [] ∧ seg.length.toNat * 2 ≤ body.length ↔ _
  rw [← length_pos_iff, ← length_pos_iff]
  cases rest with
  | nil =>
    simp only [wire, length_nil] at size
    simp only [forall_const]
    omega
  | cons next rest =>
    -- The header of the segment that follows is there.
    rw [wire_cons_length, wireSize] at size
    simp only [reduceCtorEq, false_implies, iff_true]
    omega

/-- A reader meets the segments one after the other exactly when they are legible. -/
theorem meets_iff_legible
    (counted : ∀ seg ∈ segs, seg.length.toNat = seg.ases.length) :
    Meets 2 (wire segs) (segs.map .as2) ↔ Legible segs := by
  induction segs with
  | nil => simp [Meets, Legible, wire, SegmentComplete]
  | cons seg rest ih =>
    have count := counted seg mem_cons_self
    have others := ih fun other later => counted other (mem_cons_of_mem _ later)
    by_cases stall : seg.ases.length = 127 ∨ seg.ases.length = 255
    · refine ⟨fun met => ?_, fun legible => ?_⟩
      · obtain ⟨body, same⟩ := wire_cons seg rest
        rw [same] at met
        refine absurd met (not_meets_stalled (UInt8.toNat_inj.mp ?_) met.1 _)
        simp only [UInt8.toNat_add, UInt8.toNat_mul, UInt8.reduceToNat]
        omega
      · obtain ⟨⟨first, second, _⟩, _⟩ := legible
        omega
    · rw [not_or] at stall
      have behind : (wire (seg :: rest)).drop
          ((BGPASPathSegment.as2 seg).getLen * 2 + 2).toNat = wire rest := by
        show (wire (seg :: rest)).drop (seg.length * 2 + 2).toNat = _
        rw [stepSize count stall.1 stall.2, wire, drop_left']
        rw [length_take, min_eq_left (wireSize_le seg)]
      rw [map_cons, Meets, behind, others, Legible]
      constructor
      · rintro ⟨complete, stands, legible⟩
        exact ⟨⟨stall.1, stall.2, (complete_iff count stands).mp complete, stands⟩, legible⟩
      · rintro ⟨⟨-, -, last, stands⟩, legible⟩
        exact ⟨(complete_iff count stands).mpr last, stands, legible⟩

end Reading

end FlexSwitch.Packet
