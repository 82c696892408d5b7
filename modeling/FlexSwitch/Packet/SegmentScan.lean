import FlexSwitch.Go.Walk
import FlexSwitch.Packet.PathAttrDecode

/-! The segment loops of AS_PATH and AS4_PATH, and the two-byte segments that stop their progress. -/

namespace FlexSwitch.Packet

open Go List Outcome

section Segments

variable {α : Type} {width : UInt8} {read : Bytes → Call α}

/-- Consecutive numbers are read when the buffer holds them all, each from its own bytes. -/
theorem readNumbers_of_le {size : Nat} {pkt : Bytes} {count position : Nat}
    (reads : ∀ buf, size ≤ buf.length → ∃ number, read buf = .ok number)
    (room : position + count * size ≤ pkt.length) :
    ∃ numbers, readNumbers size read pkt count position = .ok numbers ∧ numbers.length = count ∧
      ∀ bytes : α → Bytes, (∀ buf number, size ≤ buf.length → read buf = .ok number →
          bytes number = buf.take size) →
        numbers.flatMap bytes = (pkt.drop position).take (count * size) := by
  induction count generalizing position with
  | zero => exact ⟨[], rfl, rfl, by simp⟩
  | succ count ih =>
    -- The first number fits, and what follows it is the same claim one number on.
    rw [Nat.succ_mul] at room
    have long : size ≤ (pkt.drop position).length := by
      rw [length_drop]
      omega
    obtain ⟨number, first⟩ := reads (pkt.drop position) long
    obtain ⟨rest, others, counted, behind⟩ :=
      ih (show position + size + count * size ≤ pkt.length by omega)
    refine ⟨number :: rest, ?_, by rw [length_cons, counted], fun bytes each => ?_⟩
    · simp only [readNumbers, sliceFrom_of_le (show position ≤ pkt.length by omega),
        ok_bind, first, others, pure_eq]
    · rw [flatMap_cons, each _ _ long first, behind bytes each, Nat.succ_mul,
        add_comm (count * _), take_add, drop_drop]

/-- More than a segment header, and all the numbers it announces. -/
def SegmentComplete (width : Nat) : Bytes → Prop
  | _ :: count :: rest => rest ≠ [] ∧ count.toNat * width ≤ rest.length
  | _ => False

/-- A segment is refused, or all its numbers are there and its length is taken modulo 256. -/
theorem decodeSegment_cases (pkt : Bytes)
    (reads : ∀ buf, width.toNat ≤ buf.length → ∃ number, read buf = .ok number) :
    (¬ SegmentComplete width.toNat pkt ∧ ∃ fault, decodeSegment width read pkt = .error fault) ∨
    ∃ type count rest ases, pkt = type :: count :: rest ∧ count.toNat * width.toNat ≤ rest.length ∧
      decodeSegment width read pkt = .ok (⟨type, count, (count * width + 2).toUInt16⟩, ases) ∧
      SegmentComplete width.toNat pkt ∧
      readNumbers width.toNat read pkt count.toNat 2 = .ok ases := by
  match pkt with
  | [] => left; simp [decodeSegment, BGPASPathSegmentBase.decode, SegmentComplete]
  | [_] => left; simp [decodeSegment, BGPASPathSegmentBase.decode, SegmentComplete]
  | [_, _] => left; simp [decodeSegment, BGPASPathSegmentBase.decode, SegmentComplete]
  | type :: count :: first :: rest =>
    have base : BGPASPathSegmentBase.decode (type :: count :: first :: rest) =
        .ok (type, count) := by
      simp [BGPASPathSegmentBase.decode, index]
    by_cases room : count.toNat * width.toNat ≤ (first :: rest).length
    · -- All the numbers are there, so the guard passes and each of them is read.
      right
      have guard : ¬ ((type :: count :: first :: rest).length : Int) - 2 <
          count.toNat * width.toNat := by
        simp only [length_cons] at room ⊢
        omega
      obtain ⟨ases, numbers, -⟩ := @readNumbers_of_le α read _ (type :: count :: first :: rest)
        count.toNat 2 reads (by simp only [length_cons] at room ⊢; omega)
      refine ⟨type, count, first :: rest, ases, rfl, room, ?_, ⟨cons_ne_nil _ _, room⟩, numbers⟩
      simp only [decodeSegment, base, ok_bind, guard, if_false, numbers, pure_eq]
    · left
      have guard : ((type :: count :: first :: rest).length : Int) - 2 <
          count.toNat * width.toNat := by
        simp only [length_cons] at room ⊢
        omega
      refine ⟨fun complete => room complete.2, ?_⟩
      simp only [decodeSegment, base, ok_bind, guard, if_true, error_bind, error.injEq, exists_eq']

end Segments

/-- A segment decoder that never panics and never claims more bytes than there are. -/
structure SegmentReader {σ : Type} (decode : Bytes → Call σ) (totalLen : σ → UInt16) : Prop where
  returns : ∀ pkt, (decode pkt).Returns
  inside : ∀ pkt seg, decode pkt = .ok seg → (totalLen seg).toNat ≤ pkt.length

/-- The positions at which a segment loop reads a segment. -/
def SegmentAt {σ : Type} (decode : Bytes → Call σ) (totalLen : σ → UInt16)
    (base : BGPPathAttrBase) (pkt : Bytes) : Nat → Prop :=
  Walk (fun position seg => decode (pkt.drop position) = .ok seg)
    (fun seg => (totalLen seg).toNat) base.totalLen.toNat base.bgpPathAttrLen.toNat

/-- Every segment the loop reads takes it forward. -/
def SegmentsAdvance {σ : Type} (decode : Bytes → Call σ) (totalLen : σ → UInt16)
    (base : BGPPathAttrBase) (pkt : Bytes) : Prop :=
  ∀ position seg, SegmentAt decode totalLen base pkt position →
    position < base.totalLen.toNat → decode (pkt.drop position) = .ok seg →
    0 < (totalLen seg).toNat

section SegmentLoop

variable {σ : Type} {decode : Bytes → Call σ} {totalLen : σ → UInt16}
  {base : BGPPathAttrBase} {pkt : Bytes} {cursor later : SegmentCursor σ}

/-- Cursor and segment length are too small for their 32-bit sum to wrap. -/
theorem segmentEnd_toNat {ptr : UInt32} (within : ptr.toNat < base.totalLen.toNat)
    (size : UInt16) : (ptr + size.toUInt32).toNat = ptr.toNat + size.toNat := by
  have whole := base.totalLen_toNat
  have length := base.length.toNat_lt
  have width := base.bgpPathAttrLen.toNat_lt
  have bound := size.toNat_lt
  rw [UInt32.toNat_add, UInt16.toNat_toUInt32]
  omega

/-- With a segment in front of the cursor, a round steps over it unless the attribute is too short. -/
theorem segmentRound_below (within : cursor.ptr.toNat < base.totalLen.toNat)
    (inside : cursor.ptr.toNat ≤ pkt.length) {seg : σ}
    (read : decode (pkt.drop cursor.ptr.toNat) = .ok seg) :
    segmentRound decode totalLen base pkt cursor =
      (if base.totalLen.toNat < cursor.ptr.toNat + (totalLen seg).toNat then
        .error ⟨bgpUpdateMsgError, bgpAttrLenError, pkt, "Bad Attribute Length"⟩
      else .ok (.next ⟨cursor.ptr + (totalLen seg).toUInt32, cursor.value ++ [seg]⟩)) := by
  have sum := segmentEnd_toNat within (totalLen seg)
  have entered : cursor.ptr < base.length.toUInt32 + base.bgpPathAttrLen.toUInt32 :=
    UInt32.lt_iff_toNat_lt.mpr within
  have past : cursor.ptr + (totalLen seg).toUInt32 >
      base.length.toUInt32 + base.bgpPathAttrLen.toUInt32 ↔
      base.totalLen.toNat < cursor.ptr.toNat + (totalLen seg).toNat := by
    rw [gt_iff_lt, UInt32.lt_iff_toNat_lt, sum]
    rfl
  simp only [segmentRound, entered, if_true, sliceFrom_of_le inside, ok_bind, read, past,
    error_bind, pure_eq]

/-- A round that goes on has read a segment and stepped over it, up to the attribute's end. -/
theorem segmentRound_next (advanced : segmentRound decode totalLen base pkt cursor =
      .ok (.next later)) :
    ∃ seg, cursor.ptr.toNat < base.totalLen.toNat ∧ cursor.ptr.toNat ≤ pkt.length ∧
      decode (pkt.drop cursor.ptr.toNat) = .ok seg ∧
      later.ptr.toNat = cursor.ptr.toNat + (totalLen seg).toNat ∧
      later.ptr.toNat ≤ base.totalLen.toNat ∧ later.value = cursor.value ++ [seg] := by
  by_cases within : cursor.ptr.toNat < base.totalLen.toNat
  · have entered : cursor.ptr < base.length.toUInt32 + base.bgpPathAttrLen.toUInt32 :=
      UInt32.lt_iff_toNat_lt.mpr within
    by_cases inside : cursor.ptr.toNat ≤ pkt.length
    · cases read : decode _ with
      | ok seg =>
        rw [segmentRound_below within inside read] at advanced
        split at advanced
        · cases advanced
        · rename_i fits
          cases advanced
          have sum := segmentEnd_toNat within (totalLen seg)
          exact ⟨seg, within, inside, rfl, sum, by simp only [sum]; omega, rfl⟩
      | error fault | panic | hang =>
        simp [segmentRound, entered, sliceFrom_of_le inside, read] at advanced
    · simp [segmentRound, entered, sliceFrom, inside] at advanced
  · have past : ¬ cursor.ptr < base.length.toUInt32 + base.bgpPathAttrLen.toUInt32 := by
      rw [UInt32.lt_iff_toNat_lt]
      exact within
    simp only [segmentRound, past, if_false] at advanced
    split at advanced
    · cases advanced
    · cases advanced

/-- What a round of the segment loop stops with is what it has read so far. -/
theorem segmentRound_stop {value : List σ}
    (stopped : segmentRound decode totalLen base pkt cursor = .ok (.stop value)) :
    value = cursor.value := by
  unfold segmentRound at stopped
  dsimp only at stopped
  split at stopped
  · obtain ⟨rest, _, matched⟩ := bind_eq_ok.mp stopped
    cases decoded : decode rest with
    | ok seg =>
      rw [decoded] at matched
      dsimp only at matched
      split at matched <;> cases matched
    | error fault =>
      rw [decoded] at matched
      cases matched
      rfl
    | panic | hang =>
      rw [decoded] at matched
      cases matched
  · split at stopped
    · cases stopped
    · cases stopped
      rfl

variable (reader : SegmentReader decode totalLen)

include reader in
/-- The cursor stays inside the buffer when the value starts inside it. -/
theorem segmentRound_inside (opened : base.bgpPathAttrLen.toNat ≤ pkt.length)
    (reached : Reaches (segmentRound decode totalLen base pkt)
      ⟨base.bgpPathAttrLen.toUInt32, []⟩ cursor) : cursor.ptr.toNat ≤ pkt.length := by
  refine reached.invariant (fun state => state.ptr.toNat ≤ pkt.length) ?_ ?_
  · simpa using opened
  · intro state later inside advanced
    -- The segment that was read claims no more than the bytes in front of the cursor.
    obtain ⟨seg, _, _, read, moved, _, _⟩ := segmentRound_next advanced
    have size := reader.inside _ _ read
    rw [length_drop] at size
    omega

include reader in
/-- A round inside the buffer always comes back. -/
theorem segmentRound_returns (inside : cursor.ptr.toNat ≤ pkt.length) :
    (segmentRound decode totalLen base pkt cursor).Returns := by
  by_cases within : cursor.ptr.toNat < base.totalLen.toNat
  · have entered : cursor.ptr < base.length.toUInt32 + base.bgpPathAttrLen.toUInt32 :=
      UInt32.lt_iff_toNat_lt.mpr within
    have returned := reader.returns (pkt.drop cursor.ptr.toNat)
    cases read : decode _ with
    | ok seg =>
      rw [segmentRound_below within inside read]
      split <;> simp
    | error fault => simp [segmentRound, entered, sliceFrom_of_le inside, read]
    | panic | hang => simp [read] at returned
  · have past : ¬ cursor.ptr < base.length.toUInt32 + base.bgpPathAttrLen.toUInt32 := by
      rw [UInt32.lt_iff_toNat_lt]
      exact within
    simp only [segmentRound, past, if_false]
    split <;> simp

/-- The rounds of the loop move along the walk over the segments. -/
theorem segmentAt_of_reaches (reached : Reaches (segmentRound decode totalLen base pkt)
      ⟨base.bgpPathAttrLen.toUInt32, []⟩ cursor) :
    SegmentAt decode totalLen base pkt cursor.ptr.toNat := by
  have begins : base.bgpPathAttrLen.toNat = base.bgpPathAttrLen.toUInt32.toNat := by simp
  rw [SegmentAt, begins]
  refine reached.walk (fun state => state.ptr.toNat) ?_
  intro state later _ advanced
  obtain ⟨seg, within, _, read, moved, _, _⟩ := segmentRound_next advanced
  exact ⟨seg, within, read, moved⟩

include reader in
theorem reaches_of_segmentAt {position : Nat} (opened : base.bgpPathAttrLen.toNat ≤ pkt.length)
    (walked : SegmentAt decode totalLen base pkt position)
    (within : position < base.totalLen.toNat) :
    ∃ cursor, Reaches (segmentRound decode totalLen base pkt)
      ⟨base.bgpPathAttrLen.toUInt32, []⟩ cursor ∧ cursor.ptr.toNat = position := by
  have begins : base.bgpPathAttrLen.toNat = base.bgpPathAttrLen.toUInt32.toNat := by simp
  refine Walk.reaches (fun state : SegmentCursor σ => state.ptr.toNat) walked within ?_
  intro cursor seg reached below read ahead
  have inside := segmentRound_inside reader opened reached
  have fits : ¬ base.totalLen.toNat < cursor.ptr.toNat + (totalLen seg).toNat := by omega
  refine ⟨_, by rw [segmentRound_below below inside read, if_neg fits], ?_⟩
  exact segmentEnd_toNat below _

include reader in
/-- A loop whose segments all take it forward comes back within the attribute's length. -/
theorem segmentLoop_returns {fuel : Nat} (opened : base.bgpPathAttrLen.toNat ≤ pkt.length)
    (advance : SegmentsAdvance decode totalLen base pkt) (enough : base.totalLen.toNat < fuel) :
    (loop (segmentRound decode totalLen base pkt) fuel
      ⟨base.bgpPathAttrLen.toUInt32, []⟩).Returns := by
  refine (loop_returns_iff (fun state => base.totalLen.toNat - state.ptr.toNat) ?_ ?_).mpr ?_
  · intro state later reached advanced
    obtain ⟨seg, within, _, read, moved, _, _⟩ := segmentRound_next advanced
    have positive := advance _ seg (segmentAt_of_reaches reached) within read
    omega
  · have whole := base.totalLen_toNat
    simp only [UInt16.toNat_toUInt32]
    omega
  · intro state reached
    exact segmentRound_returns reader (segmentRound_inside reader opened reached)

include reader in
/-- A segment of no length keeps the loop at its place for good. -/
theorem segmentLoop_hang (fuel : Nat) (opened : base.bgpPathAttrLen.toNat ≤ pkt.length)
    (stalled : ¬ SegmentsAdvance decode totalLen base pkt) :
    loop (segmentRound decode totalLen base pkt) fuel
      ⟨base.bgpPathAttrLen.toUInt32, []⟩ = .hang := by
  simp only [SegmentsAdvance, not_forall] at stalled
  obtain ⟨position, seg, walked, within, read, empty⟩ := stalled
  obtain ⟨cursor, reached, here⟩ := reaches_of_segmentAt reader opened walked within
  -- Whatever budget is left when the loop arrives here is spent on the same segment.
  by_contra returned
  obtain ⟨left, _, same⟩ := reached.resume returned
  rw [same] at returned
  apply returned
  refine loop_hang (fun state => state.ptr.toNat = position) ?_ left cursor here
  intro state there
  have below : state.ptr.toNat < base.totalLen.toNat := by omega
  have inside : state.ptr.toNat ≤ pkt.length := by
    rw [there, ← here]
    exact segmentRound_inside reader opened reached
  rw [← there] at read
  have fits : ¬ base.totalLen.toNat < state.ptr.toNat + (totalLen seg).toNat := by omega
  refine ⟨_, by rw [segmentRound_below below inside read, if_neg fits], ?_⟩
  rw [segmentEnd_toNat below]
  omega

end SegmentLoop

/-- Both widths of AS numbers are read from as many bytes as they have. -/
theorem segmentReader_of_width {α σ : Type} {width : UInt8} {read : Bytes → Call α}
    {build : BGPASPathSegmentBase × List α → σ} {totalLen : σ → UInt16}
    (reads : ∀ buf, width.toNat ≤ buf.length → ∃ number, read buf = .ok number)
    (measured : ∀ seg, totalLen (build seg) = seg.1.bgpASPathSegmentLen) :
    SegmentReader (fun pkt => do return build (← decodeSegment width read pkt)) totalLen where
  returns pkt := by
    rcases decodeSegment_cases pkt reads with ⟨_, fault, refused⟩ | ⟨_, _, _, _, _, _, decoded, _⟩
    · simp [refused]
    · simp [decoded]
  inside pkt seg decoded := by
    rcases decodeSegment_cases pkt reads with ⟨_, fault, refused⟩ |
      ⟨type, count, rest, ases, rfl, room, same, _⟩
    · simp [refused] at decoded
    · simp only [same, ok_bind, pure_eq, ok.injEq] at decoded
      subst decoded
      -- Taken modulo 256 the length can only shrink.
      have modulo : (count * width + 2).toUInt16.toNat ≤ count.toNat * width.toNat + 2 := by
        simp only [UInt8.toNat_toUInt16, UInt8.toNat_add, UInt8.toNat_mul, UInt8.reduceToNat]
        omega
      simp only [measured, length_cons]
      omega

theorem as2SegmentReader :
    SegmentReader BGPAS2PathSegment.decode fun seg => seg.bgpASPathSegmentLen :=
  segmentReader_of_width (fun _ => uint16_of_le) fun _ => rfl

theorem as4SegmentReader :
    SegmentReader BGPAS4PathSegment.decode fun seg => seg.bgpASPathSegmentLen :=
  segmentReader_of_width (fun _ => uint32_of_le) fun _ => rfl

/-- Wrapping what a decoder reads in an interface value keeps it safe. -/
theorem SegmentReader.wrap {σ τ : Type} {decode : Bytes → Call σ} {totalLen : σ → UInt16}
    (reader : SegmentReader decode totalLen) {build : σ → τ} {outerLen : τ → UInt16}
    (measured : ∀ seg, outerLen (build seg) = totalLen seg) :
    SegmentReader (fun pkt => do return build (← decode pkt)) outerLen where
  returns pkt := by
    rw [bind_returns]
    exact ⟨reader.returns pkt, fun _ _ => by simp⟩
  inside pkt seg decoded := by
    obtain ⟨inner, read, built⟩ := bind_eq_ok.mp decoded
    cases built
    rw [measured]
    exact reader.inside pkt inner read

theorem asPathSegment_decode_four :
    BGPASPathSegment.decode 4 = fun pkt => do return .as4 (← BGPAS4PathSegment.decode pkt) := by
  funext pkt
  simp [BGPASPathSegment.decode]

theorem asPathSegment_decode_two {asSize : UInt8} (two : asSize ≠ 4) :
    BGPASPathSegment.decode asSize =
      fun pkt => do return .as2 (← BGPAS2PathSegment.decode pkt) := by
  funext pkt
  simp [BGPASPathSegment.decode, two]

/-- Whichever width the session uses, the segments of an AS_PATH are read safely. -/
theorem asPathSegmentReader (asSize : UInt8) :
    SegmentReader (BGPASPathSegment.decode asSize) BGPASPathSegment.totalLen := by
  by_cases four : asSize = 4
  · rw [four, asPathSegment_decode_four]
    exact as4SegmentReader.wrap fun _ => rfl
  · rw [asPathSegment_decode_two four]
    exact as2SegmentReader.wrap fun _ => rfl

/-- A four-byte segment is never measured as empty: four times a count is not 254 modulo 256. -/
theorem as4Segment_advances {pkt : Bytes} {seg : BGPAS4PathSegment}
    (read : BGPAS4PathSegment.decode pkt = .ok seg) :
    0 < seg.bgpASPathSegmentLen.toNat := by
  have reads : ∀ buf : Bytes, (4 : UInt8).toNat ≤ buf.length →
      ∃ number, (uint32 buf : Call UInt32) = .ok number := fun _ => uint32_of_le
  rcases decodeSegment_cases pkt reads with
    ⟨_, fault, refused⟩ | ⟨type, count, rest, ases, _, _, decoded, _⟩
  · simp [BGPAS4PathSegment.decode, refused] at read
  · simp only [BGPAS4PathSegment.decode, decoded, ok_bind, pure_eq, ok.injEq] at read
    subst read
    simp only [UInt8.toNat_toUInt16, UInt8.toNat_add, UInt8.toNat_mul, UInt8.reduceToNat]
    omega

/-- A complete segment of two-byte numbers whose length comes to zero modulo 256. -/
def StallingSegment : Bytes → Prop
  | _ :: count :: rest => (count = 127 ∨ count = 255) ∧ 2 * count.toNat ≤ rest.length
  | _ => False

instance : (pkt : Bytes) → Decidable (StallingSegment pkt)
  | [] => inferInstanceAs (Decidable False)
  | [_] => inferInstanceAs (Decidable False)
  | _ :: _ :: _ => inferInstanceAs (Decidable (_ ∧ _))

/-- A two-byte segment is measured as empty exactly when it has 127 or 255 members. -/
theorem as2Segment_stalls_iff (pkt : Bytes) :
    (∃ seg, BGPAS2PathSegment.decode pkt = .ok seg ∧
      seg.bgpASPathSegmentLen.toNat = 0) ↔ StallingSegment pkt := by
  have reads : ∀ buf : Bytes, (2 : UInt8).toNat ≤ buf.length →
      ∃ number, (uint16 buf : Call UInt16) = .ok number := fun _ => uint16_of_le
  rcases decodeSegment_cases pkt reads with
    ⟨incomplete, fault, refused⟩ | ⟨type, count, rest, ases, rfl, room, decoded, _⟩
  · -- A stalling segment is complete, so it is not refused.
    simp only [BGPAS2PathSegment.decode, refused, error_bind, reduceCtorEq, false_and,
      exists_false, false_iff]
    intro stalling
    match pkt with
    | [] => exact stalling
    | [_] => exact stalling
    | _ :: count :: rest =>
      obtain ⟨many, room⟩ := stalling
      have members : 127 ≤ count.toNat := by
        rcases many with rfl | rfl <;> decide
      refine incomplete ⟨?_, by rw [mul_comm]; exact room⟩
      rintro rfl
      simp only [length_nil] at room
      omega
  · have bound := count.toNat_lt
    have size : ((count * 2 + 2).toUInt16).toNat = (count.toNat * 2 + 2) % 256 := by
      simp
    have many : (count = 127 ∨ count = 255) ↔ (count.toNat * 2 + 2) % 256 = 0 := by
      rw [← UInt8.toNat_inj, ← UInt8.toNat_inj]
      simp only [UInt8.reduceToNat]
      omega
    simp only [BGPAS2PathSegment.decode, decoded, ok_bind, pure_eq,
      ok.injEq, exists_eq_left', size, StallingSegment, many]
    rw [mul_comm] at room
    exact ⟨fun zero => ⟨zero, room⟩, fun both => both.1⟩

/-- With four-byte numbers the segments of an AS_PATH always take its loop forward. -/
theorem asPathSegments_advance_four (base : BGPPathAttrBase) (pkt : Bytes) :
    SegmentsAdvance (BGPASPathSegment.decode 4) BGPASPathSegment.totalLen base pkt := by
  intro position seg _ _ read
  rw [asPathSegment_decode_four, bind_eq_ok] at read
  obtain ⟨inner, read, built⟩ := read
  cases built
  exact as4Segment_advances read

/-- With two-byte numbers they do unless a stalling segment is met. -/
theorem asPathSegments_advance_iff {asSize : UInt8} (two : asSize ≠ 4) (base : BGPPathAttrBase)
    (pkt : Bytes) :
    SegmentsAdvance (BGPASPathSegment.decode asSize) BGPASPathSegment.totalLen base pkt ↔
      ∀ position, SegmentAt (BGPASPathSegment.decode asSize) BGPASPathSegment.totalLen base pkt
        position → position < base.totalLen.toNat → ¬ StallingSegment (pkt.drop position) := by
  constructor
  · intro advance position walked within stalling
    obtain ⟨seg, read, empty⟩ := (as2Segment_stalls_iff _).mpr stalling
    have positive := advance position (.as2 seg) walked within (by
      simp [asPathSegment_decode_two two, read])
    have same : (BGPASPathSegment.as2 seg).totalLen = seg.bgpASPathSegmentLen := rfl
    rw [same] at positive
    omega
  · intro clear position seg walked within read
    rw [asPathSegment_decode_two two, bind_eq_ok] at read
    obtain ⟨inner, read, built⟩ := read
    cases built
    apply Nat.pos_of_ne_zero
    intro empty
    exact clear position walked within ((as2Segment_stalls_iff _).mp ⟨inner, read, empty⟩)

end FlexSwitch.Packet
