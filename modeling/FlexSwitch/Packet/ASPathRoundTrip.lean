import FlexSwitch.Packet.ASPath
import FlexSwitch.Packet.HeaderWire

/-! AS paths built segment by segment, and what reading them back from the wire gives. -/

namespace FlexSwitch.Packet

open Go List Outcome

section Building

/-- A segment with a full length field stays as it is. -/
def BGPAS2PathSegment.prependAS (seg : BGPAS2PathSegment) (number : UInt32) :
    BGPAS2PathSegment :=
  if seg.length ≥ 255 then seg
  else { seg with
    ases := number.toUInt16 :: seg.ases
    length := seg.length + 1
    bgpASPathSegmentLen := seg.bgpASPathSegmentLen + 2 }

def BGPAS2PathSegment.appendAS (seg : BGPAS2PathSegment) (number : UInt32) :
    BGPAS2PathSegment :=
  if seg.length ≥ 255 then seg
  else { seg with
    ases := seg.ases ++ [number.toUInt16]
    length := seg.length + 1
    bgpASPathSegmentLen := seg.bgpASPathSegmentLen + 2 }

def BGPAS4PathSegment.appendAS (seg : BGPAS4PathSegment) (number : UInt32) :
    BGPAS4PathSegment :=
  if seg.length ≥ 255 then seg
  else { seg with
    ases := seg.ases ++ [number]
    length := seg.length + 1
    bgpASPathSegmentLen := seg.bgpASPathSegmentLen + 4 }

def BGPPathAttrASPath.prependASPathSegment (attr : BGPPathAttrASPath)
    (pathSeg : BGPASPathSegment) : BGPPathAttrASPath :=
  { attr with value := pathSeg :: attr.value, length := attr.length + pathSeg.totalLen }

/-- The segments of two-byte numbers that the methods of the type can make. -/
inductive BuiltAS2 : BGPAS2PathSegment → Prop where
  | new (segType : UInt8) : BuiltAS2 (newBGPAS2PathSegment segType)
  | append {seg : BGPAS2PathSegment} (built : BuiltAS2 seg) (number : UInt32) :
      BuiltAS2 (seg.appendAS number)
  | prepend {seg : BGPAS2PathSegment} (built : BuiltAS2 seg) (number : UInt32) :
      BuiltAS2 (seg.prependAS number)

/-- The segments of four-byte numbers that the methods of the type can make. -/
inductive BuiltAS4 : BGPAS4PathSegment → Prop where
  | new (segType : UInt8) : BuiltAS4 (newBGPAS4PathSegment segType)
  | append {seg : BGPAS4PathSegment} (built : BuiltAS4 seg) (number : UInt32) :
      BuiltAS4 (seg.appendAS number)
  | prepend {seg : BGPAS4PathSegment} (built : BuiltAS4 seg) (number : UInt32) :
      BuiltAS4 (seg.prependAS number)

/-- A segment that has numbers, of the width that the AS size says. -/
def BGPASPathSegment.Built (asSize : UInt8) : BGPASPathSegment → Prop
  | .as2 seg => asSize = 2 ∧ BuiltAS2 seg ∧ seg.ases ≠ []
  | .as4 seg => asSize = 4 ∧ BuiltAS4 seg ∧ seg.ases ≠ []

/-- The paths that can be put together of such segments. -/
inductive BuiltASPath (asSize : UInt8) : BGPPathAttrASPath → Prop where
  | new : BuiltASPath asSize newBGPPathAttrASPath
  | append {path : BGPPathAttrASPath} {seg : BGPASPathSegment}
      (built : BuiltASPath asSize path) (added : seg.Built asSize) :
      BuiltASPath asSize (path.appendASPathSegment seg)
  | prepend {path : BGPPathAttrASPath} {seg : BGPASPathSegment}
      (built : BuiltASPath asSize path) (added : seg.Built asSize) :
      BuiltASPath asSize (path.prependASPathSegment seg)

end Building

/-- The AS numbers of a segment, with their width. -/
inductive ASNumbers where
  | as2 (numbers : List UInt16)
  | as4 (numbers : List UInt32)
deriving DecidableEq, Repr

namespace BGPASPathSegment

/-- What a segment says: its type and its AS numbers. -/
def listed : BGPASPathSegment → UInt8 × ASNumbers
  | .as2 seg => (seg.type, .as2 seg.ases)
  | .as4 seg => (seg.type, .as4 seg.ases)

end BGPASPathSegment

/-- The value of a path on the wire. -/
def pathBytes (value : List BGPASPathSegment) : Bytes := value.flatMap BGPASPathSegment.bytes

/--
A reader that starts at the first of the bytes meets the segments one after the other.

Behind a segment it stands as many bytes on as the eight bits of the announced length say, which
is inside the segment when that is a long one, and no further segment may be complete there.
-/
def ReadsBack (asSize : UInt8) : Bytes → List BGPASPathSegment → Prop
  | rest, [] => ¬ SegmentComplete asSize.toNat rest
  | rest, seg :: others =>
    seg.bytes <+: rest ∧ ReadsBack asSize (rest.drop (seg.getLen * asSize + 2).toNat) others

/-- The same, where every segment is also complete in what the reader sees. -/
def Meets (asSize : UInt8) : Bytes → List BGPASPathSegment → Prop
  | rest, [] => ¬ SegmentComplete asSize.toNat rest
  | rest, seg :: others =>
    SegmentComplete asSize.toNat rest ∧ seg.bytes <+: rest ∧
      Meets asSize (rest.drop (seg.getLen * asSize + 2).toNat) others

instance decidableSegmentComplete (width : Nat) : (pkt : Bytes) →
    Decidable (SegmentComplete width pkt)
  | [] => .isFalse id
  | [_] => .isFalse id
  | _ :: count :: rest =>
    inferInstanceAs (Decidable (rest ≠ [] ∧ count.toNat * width ≤ rest.length))

instance decidableReadsBack (asSize : UInt8) : (rest : Bytes) → (value : List BGPASPathSegment) →
    Decidable (ReadsBack asSize rest value)
  | rest, [] => inferInstanceAs (Decidable (¬ SegmentComplete asSize.toNat rest))
  | rest, seg :: others =>
    have := decidableReadsBack asSize (rest.drop (seg.getLen * asSize + 2).toNat) others
    inferInstanceAs (Decidable (seg.bytes <+: rest ∧
      ReadsBack asSize (rest.drop (seg.getLen * asSize + 2).toNat) others))

/-- Decoding what the path is encoded as gives the segments of the path. -/
def RoundTrips (peerAttrs : BGPPeerAttrs) (path : BGPPathAttrASPath) : Prop :=
  ∃ pkt fuel attr, (BGPPathAttr.asPath path).encode = .ok pkt ∧
    BGPPathAttrASPath.decode fuel pkt peerAttrs = .ok attr ∧
    attr.value.map BGPASPathSegment.listed = path.value.map BGPASPathSegment.listed

/-- A segment before it is wrapped in the interface: its header fields and its numbers. -/
abbrev PlainSegment (α : Type) := BGPASPathSegmentBase × List α

/-- What the two widths of AS numbers have in common, by the type of the numbers. -/
structure ASWidth (α : Type) where
  asSize : UInt8
  numberBytes : α → Bytes
  read : Bytes → Call α
  wrap : PlainSegment α → BGPASPathSegment
  numbers : List α → ASNumbers
  wide : 2 ≤ asSize.toNat
  sized : ∀ number, (numberBytes number).length = asSize.toNat
  reads : ∀ buf, asSize.toNat ≤ buf.length →
    ∃ number, read buf = .ok number ∧ numberBytes number = buf.take asSize.toNat
  numberBytes_injective : Function.Injective numberBytes
  numbers_injective : Function.Injective numbers
  decode_eq : ∀ pkt, BGPASPathSegment.decode asSize pkt =
    (do return wrap (← decodeSegment asSize read pkt))
  base_wrap : ∀ seg, (wrap seg).base = seg.1
  bytes_wrap : ∀ seg, (wrap seg).bytes =
    seg.1.type :: seg.1.length :: seg.2.flatMap numberBytes
  listed_wrap : ∀ seg, (wrap seg).listed = (seg.1.type, numbers seg.2)

theorem uint16_reads (buf : Bytes) (long : 2 ≤ buf.length) :
    ∃ number, (uint16 buf : Call UInt16) = .ok number ∧ uint16Bytes number = buf.take 2 := by
  match buf, long with
  | high :: low :: rest, _ =>
    refine ⟨_, rfl, ?_⟩
    have upper := high.toNat_lt
    have lower := low.toNat_lt
    simp only [uint16Bytes, take_succ_cons, take_zero, cons.injEq, and_true]
    refine ⟨?_, ?_⟩ <;> apply UInt8.toNat_inj.mp <;>
      simp only [UInt16.toNat_ofNat', UInt8.toNat_ofNat'] <;> omega

theorem uint32_reads (buf : Bytes) (long : 4 ≤ buf.length) :
    ∃ number, (uint32 buf : Call UInt32) = .ok number ∧ uint32Bytes number = buf.take 4 := by
  match buf, long with
  | b0 :: b1 :: b2 :: b3 :: rest, _ =>
    refine ⟨_, rfl, ?_⟩
    have h0 := b0.toNat_lt
    have h1 := b1.toNat_lt
    have h2 := b2.toNat_lt
    have h3 := b3.toNat_lt
    -- Each byte is the digit that is taken out again.
    simp only [uint32Bytes, take_succ_cons, take_zero, cons.injEq, and_true]
    refine ⟨?_, ?_, ?_, ?_⟩ <;> apply UInt8.toNat_inj.mp <;>
      simp only [UInt32.toNat_ofNat', UInt8.toNat_ofNat'] <;> omega

theorem uint16Bytes_injective : Function.Injective uint16Bytes := by
  -- Reading the bytes back gives the number.
  intro left right same
  have read := uint16_uint16Bytes (ε := BGPMessageError) left []
  rw [same, uint16_uint16Bytes] at read
  cases read
  rfl

theorem uint32Bytes_injective : Function.Injective uint32Bytes := by
  -- Reading the bytes back gives the number.
  intro left right same
  have read := uint32_uint32Bytes (ε := BGPMessageError) left []
  rw [same, uint32_uint32Bytes] at read
  cases read
  rfl

def as2Width : ASWidth UInt16 where
  asSize := 2
  numberBytes := uint16Bytes
  read := uint16
  wrap seg := .as2 { toBGPASPathSegmentBase := seg.1, ases := seg.2 }
  numbers := .as2
  wide := by decide
  sized _ := rfl
  reads := uint16_reads
  numberBytes_injective := uint16Bytes_injective
  numbers_injective := fun _ _ same => ASNumbers.as2.inj same
  decode_eq pkt := by
    show ((decodeSegment 2 uint16 pkt >>= fun read => _) >>= fun seg => _) = _
    rw [Outcome.bind_assoc]
    rfl
  base_wrap _ := rfl
  bytes_wrap _ := rfl
  listed_wrap _ := rfl

def as4Width : ASWidth UInt32 where
  asSize := 4
  numberBytes := uint32Bytes
  read := uint32
  wrap seg := .as4 { toBGPASPathSegmentBase := seg.1, ases := seg.2 }
  numbers := .as4
  wide := by decide
  sized _ := rfl
  reads := uint32_reads
  numberBytes_injective := uint32Bytes_injective
  numbers_injective := fun _ _ same => ASNumbers.as4.inj same
  decode_eq pkt := by
    show ((decodeSegment 4 uint32 pkt >>= fun read => _) >>= fun seg => _) = _
    rw [Outcome.bind_assoc]
    rfl
  base_wrap _ := rfl
  bytes_wrap _ := rfl
  listed_wrap _ := rfl

variable {pkt : Bytes}

/-- A loop over segments ends with the segments it started with, and more. -/
theorem segmentLoop_grows {σ : Type} {decode : Bytes → Call σ} {totalLen : σ → UInt16}
    {base : BGPPathAttrBase} {cursor : SegmentCursor σ} {fuel : Nat} {value : List σ}
    (ended : loop (segmentRound decode totalLen base pkt) fuel cursor = .ok value) :
    cursor.value <+: value := by
  obtain ⟨last, reached, stopped⟩ := loop_eq_ok ended
  have grown : cursor.value <+: last.value := by
    refine reached.invariant (fun state => cursor.value <+: state.value) (prefix_refl _) ?_
    intro state later grown advanced
    obtain ⟨seg, _, _, _, _, _, added⟩ := segmentRound_next advanced
    rw [added]
    exact grown.trans (prefix_append _ _)
  rw [segmentRound_stop stopped]
  exact grown

namespace ASWidth

variable {α : Type} (width : ASWidth α)

/-- A segment announces the numbers it has, and is counted as the bytes it takes. -/
structure Measured (seg : PlainSegment α) : Prop where
  counted : seg.1.length.toNat = seg.2.length
  measured : seg.1.bgpASPathSegmentLen.toNat = 2 + seg.2.length * width.asSize.toNat

/-- Such a segment that has numbers. -/
structure Exact (seg : PlainSegment α) : Prop extends width.Measured seg where
  filled : seg.2 ≠ []

/-- One number more is counted once, and by its bytes, below the limit of the length field. -/
theorem Measured.grown {width : ASWidth α} {base : BGPASPathSegmentBase} {numbers : List α}
    (sound : width.Measured (base, numbers)) (room : ¬ base.length ≥ 255) {more : List α}
    (added : more.length = numbers.length + 1) :
    width.Measured ({ base with
      length := base.length + 1
      bgpASPathSegmentLen := base.bgpASPathSegmentLen + width.asSize.toUInt16 }, more) := by
  have counted : base.length.toNat = numbers.length := sound.counted
  have measured : base.bgpASPathSegmentLen.toNat =
      2 + numbers.length * width.asSize.toNat := sound.measured
  have few : base.length.toNat < 255 := by
    rw [ge_iff_le, UInt8.not_le, UInt8.lt_iff_toNat_lt] at room
    exact room
  -- At most 255 numbers of at most 255 bytes stay below the wrap of sixteen bits.
  have small : numbers.length * width.asSize.toNat ≤ 254 * 255 :=
    Nat.mul_le_mul (by omega) (by have bound := width.asSize.toNat_lt; omega)
  have bound := width.asSize.toNat_lt
  constructor
  · simp only [UInt8.toNat_add, UInt8.reduceToNat, added]
    omega
  · simp only [UInt16.toNat_add, UInt8.toNat_toUInt16, added, add_mul]
    omega

theorem flatMap_length (numbers : List α) :
    (numbers.flatMap width.numberBytes).length = numbers.length * width.asSize.toNat := by
  -- Every number takes the same number of bytes.
  induction numbers with
  | nil => simp
  | cons number numbers ih =>
    rw [flatMap_cons, length_append, ih, width.sized, length_cons, add_mul]
    omega

theorem bytes_length (seg : PlainSegment α) :
    (width.wrap seg).bytes.length = 2 + seg.2.length * width.asSize.toNat := by
  rw [width.bytes_wrap, length_cons, length_cons, width.flatMap_length]
  omega

theorem flatMap_injective {left right : List α} (count : left.length = right.length)
    (same : left.flatMap width.numberBytes = right.flatMap width.numberBytes) : left = right := by
  -- Numbers have one width, so the first bytes belong to the first numbers.
  induction left generalizing right with
  | nil => exact (length_eq_zero_iff.mp count.symm).symm
  | cons number left ih =>
    match right, count with
    | other :: right, count =>
      have split := append_inj same (by rw [width.sized, width.sized])
      rw [width.numberBytes_injective split.1, ih (Nat.succ.inj count) split.2]

section Writing

/-- Segments that are counted as what they take are written one behind the other. -/
theorem encode_segments {segs : List (PlainSegment α)}
    (exact : ∀ seg ∈ segs, width.Exact seg) (front room : Bytes) (offset : UInt16)
    (placed : offset.toNat = front.length % 65536)
    (whole : room.length = (pathBytes (segs.map width.wrap)).length)
    (small : front.length + room.length < 65540) :
    ∃ last, encodeSegments (front ++ room) offset (segs.map width.wrap) =
      .ok (front ++ pathBytes (segs.map width.wrap), last) := by
  induction segs generalizing front room offset with
  | nil =>
    rw [length_eq_zero_iff.mp whole]
    exact ⟨offset, rfl⟩
  | cons seg rest ih =>
    have first := exact seg mem_cons_self
    have some := length_pos_iff.mpr first.filled
    have wide := width.wide
    have size := width.bytes_length seg
    have total : (pathBytes ((seg :: rest).map width.wrap)).length =
        (width.wrap seg).bytes.length + (pathBytes (rest.map width.wrap)).length := by
      simp [pathBytes]
    have four : 2 ≤ seg.2.length * width.asSize.toNat := by
      have product := Nat.mul_le_mul some wide
      omega
    -- A segment takes four bytes or more, so it starts below the wrap of the cursor.
    have start : offset.toNat = front.length := by omega
    have written := @storeAt_append BGPMessageError front room (width.wrap seg).bytes (by omega)
    rw [← BGPASPathSegment.encode_eq] at written
    have measured : (width.wrap seg).totalLen.toNat = (width.wrap seg).bytes.length := by
      rw [BGPASPathSegment.totalLen, width.base_wrap, first.measured, size]
    obtain ⟨last, others⟩ := ih (fun other later => exact other (mem_cons_of_mem _ later))
      (front ++ (width.wrap seg).bytes) (room.drop (width.wrap seg).bytes.length)
      (offset + (width.wrap seg).totalLen)
      (by rw [UInt16.toNat_add, measured, start, length_append])
      (by rw [length_drop]; omega)
      (by rw [length_append, length_drop]; omega)
    refine ⟨last, ?_⟩
    rw [map_cons, encodeSegments, foldlM_cons, start, written, ok_bind, pure_eq, ok_bind]
    refine others.trans ?_
    simp [pathBytes]

end Writing

section Reading

theorem reads_ok (buf : Bytes) (long : width.asSize.toNat ≤ buf.length) :
    ∃ number, width.read buf = .ok number := by
  obtain ⟨number, read, _⟩ := width.reads buf long
  exact ⟨number, read⟩

theorem readNumbers_bytes {count position : Nat}
    (room : position + count * width.asSize.toNat ≤ pkt.length) :
    ∃ numbers, readNumbers width.asSize.toNat width.read pkt count position = .ok numbers ∧
      numbers.length = count ∧
      numbers.flatMap width.numberBytes =
        (pkt.drop position).take (count * width.asSize.toNat) := by
  obtain ⟨numbers, done, counted, bytes⟩ := readNumbers_of_le width.reads_ok room
  refine ⟨numbers, done, counted, bytes width.numberBytes fun buf number long read => ?_⟩
  obtain ⟨_, again, taken⟩ := width.reads buf long
  cases read.symm.trans again
  exact taken

/-- What is read of a segment: its type, its count, and the numbers whose bytes follow. -/
structure ReadSegment (pkt : Bytes) (seg : PlainSegment α) : Prop where
  counted : seg.1.length.toNat = seg.2.length
  stands : (width.wrap seg).bytes <+: pkt
  measured : seg.1.bgpASPathSegmentLen = (seg.1.length * width.asSize + 2).toUInt16

theorem decode_incomplete (cut : ¬ SegmentComplete width.asSize.toNat pkt) :
    ∃ fault, BGPASPathSegment.decode width.asSize pkt = .error fault := by
  rcases decodeSegment_cases pkt width.reads_ok with
    ⟨_, fault, refused⟩ | ⟨_, _, _, _, _, _, _, complete, _⟩
  · exact ⟨fault, by rw [width.decode_eq, refused]; rfl⟩
  · exact absurd complete cut

/-- A complete segment is read as it stands there. -/
theorem decode_complete (complete : SegmentComplete width.asSize.toNat pkt) :
    ∃ seg, width.ReadSegment pkt seg ∧
      BGPASPathSegment.decode width.asSize pkt = .ok (width.wrap seg) := by
  rcases decodeSegment_cases pkt width.reads_ok with
    ⟨cut, _⟩ | ⟨type, count, rest, numbers, rfl, room, decoded, _, read⟩
  · exact absurd complete cut
  · have inside : 2 + count.toNat * width.asSize.toNat ≤ (type :: count :: rest).length := by
      simp only [length_cons]
      omega
    obtain ⟨_, again, counted, stands⟩ := width.readNumbers_bytes inside
    cases again.symm.trans read
    refine ⟨(⟨type, count, (count * width.asSize + 2).toUInt16⟩, numbers), ?_, ?_⟩
    · refine ⟨counted.symm, ?_, rfl⟩
      rw [width.bytes_wrap, cons_prefix_cons, cons_prefix_cons, stands]
      exact ⟨rfl, rfl, take_prefix _ _⟩
    · rw [width.decode_eq, decoded]
      rfl

/-- A segment with numbers is complete where its bytes stand. -/
theorem complete_of_stands {seg : PlainSegment α}
    (counted : seg.1.length.toNat = seg.2.length) (filled : seg.2 ≠ [])
    (stands : (width.wrap seg).bytes <+: pkt) : SegmentComplete width.asSize.toNat pkt := by
  obtain ⟨behind, rfl⟩ := stands
  have some := length_pos_iff.mpr filled
  have long := width.flatMap_length seg.2
  have wide := width.wide
  have product := Nat.mul_le_mul some wide
  rw [width.bytes_wrap, cons_append, cons_append]
  refine ⟨?_, ?_⟩
  · apply ne_nil_of_length_pos
    rw [length_append]
    omega
  · rw [length_append, counted]
    omega

section Pairs

variable {left right : PlainSegment α} (leftCounted : left.1.length.toNat = left.2.length)
  (rightCounted : right.1.length.toNat = right.2.length)

include leftCounted rightCounted

/-- Two segments that stand at one place are of one type and have the same numbers. -/
theorem same_of_stands (leftStands : (width.wrap left).bytes <+: pkt)
    (rightStands : (width.wrap right).bytes <+: pkt) :
    (width.wrap left).listed = (width.wrap right).listed ∧ left.1.length = right.1.length := by
  obtain ⟨leftBehind, rfl⟩ := leftStands
  obtain ⟨rightBehind, same⟩ := rightStands
  rw [width.bytes_wrap, width.bytes_wrap] at same
  simp only [cons_append, cons.injEq] at same
  obtain ⟨typed, count, numbers⟩ := same
  -- The counts are the same byte, so both have as many numbers and as many bytes of them.
  have long : right.2.length = left.2.length := by rw [← leftCounted, ← rightCounted, count]
  have split := append_inj numbers (by rw [width.flatMap_length, width.flatMap_length, long])
  rw [width.listed_wrap, width.listed_wrap, typed, width.flatMap_injective long split.1]
  exact ⟨rfl, count.symm⟩

/-- What is read as the segment stands there as the segment's bytes. -/
theorem stands_of_listed (stands : (width.wrap left).bytes <+: pkt)
    (same : (width.wrap left).listed = (width.wrap right).listed) :
    (width.wrap right).bytes <+: pkt ∧ left.1.length = right.1.length := by
  rw [width.listed_wrap, width.listed_wrap, Prod.mk.injEq] at same
  have numbers := width.numbers_injective same.2
  have count : left.1.length = right.1.length := by
    apply UInt8.toNat_inj.mp
    rw [leftCounted, rightCounted, numbers]
  rw [width.bytes_wrap, same.1, count, numbers] at stands
  rw [width.bytes_wrap]
  exact ⟨stands, count⟩

end Pairs

section Rounds

variable {base : BGPPathAttrBase} {pkt : Bytes} {ptr : UInt32} {done : List BGPASPathSegment}

/-- The segment loop of the AS_PATH decoder. -/
abbrev round (base : BGPPathAttrBase) (pkt : Bytes) :=
  segmentRound (BGPASPathSegment.decode width.asSize) BGPASPathSegment.totalLen base pkt

/-- Where no complete segment stands, the loop stops with what it has. -/
theorem round_stops (whole : base.totalLen.toNat = pkt.length) (here : ptr.toNat ≤ pkt.length)
    (cut : ¬ SegmentComplete width.asSize.toNat (pkt.drop ptr.toNat)) :
    width.round base pkt ⟨ptr, done⟩ = .ok (.stop done) := by
  have last : base.totalLen = base.length.toUInt32 + base.bgpPathAttrLen.toUInt32 := rfl
  obtain ⟨fault, refused⟩ := width.decode_incomplete cut
  by_cases within : ptr.toNat < pkt.length
  · have entered : ptr < base.length.toUInt32 + base.bgpPathAttrLen.toUInt32 := by
      rw [← last, UInt32.lt_iff_toNat_lt, whole]
      exact within
    simp only [round, segmentRound, entered, if_true, sliceFrom_of_le here, ok_bind,
      refused, pure_eq]
  · -- At the end of the attribute there is nothing to read.
    have ended : ptr = base.length.toUInt32 + base.bgpPathAttrLen.toUInt32 := by
      rw [← last]
      apply UInt32.toNat_inj.mp
      omega
    simp only [round, segmentRound, ← ended, UInt32.lt_irrefl, if_false, ne_eq, not_true_eq_false,
      pure_eq]

/-- Where a complete segment stands, the loop reads it and goes on as far as eight bits say. -/
theorem round_reads (whole : base.totalLen.toNat = pkt.length) (here : ptr.toNat ≤ pkt.length)
    (complete : SegmentComplete width.asSize.toNat (pkt.drop ptr.toNat)) :
    ∃ seg later, width.ReadSegment (pkt.drop ptr.toNat) seg ∧
      width.round base pkt ⟨ptr, done⟩ = .ok (.next ⟨later, done ++ [width.wrap seg]⟩) ∧
      later.toNat = ptr.toNat + (seg.1.length * width.asSize + 2).toNat ∧
      later.toNat ≤ pkt.length := by
  obtain ⟨seg, read, decoded⟩ := width.decode_complete complete
  have taken := read.stands.length_le
  rw [width.bytes_length, length_drop, ← read.counted] at taken
  have within : ptr.toNat < base.totalLen.toNat := by omega
  have size : (width.wrap seg).totalLen.toNat =
      (seg.1.length * width.asSize + 2).toNat := by
    rw [BGPASPathSegment.totalLen, width.base_wrap, read.measured, UInt8.toNat_toUInt16]
  -- Taken modulo 256 the length can only shrink, so the reader stays inside.
  have short : (seg.1.length * width.asSize + 2).toNat ≤
      2 + seg.1.length.toNat * width.asSize.toNat := by
    simp only [UInt8.toNat_add, UInt8.toNat_mul, UInt8.reduceToNat]
    omega
  have moved := segmentEnd_toNat within (width.wrap seg).totalLen
  have fits : ¬ base.totalLen.toNat < ptr.toNat + (width.wrap seg).totalLen.toNat := by omega
  refine ⟨seg, ptr + (width.wrap seg).totalLen.toUInt32, read, ?_, by rw [moved, size],
    by omega⟩
  rw [round, segmentRound_below within here decoded, if_neg fits]

/-- What the loop ends with holds the segment that a round has read. -/
theorem loop_after_read {later : UInt32} {seg : BGPASPathSegment}
    {value : List BGPASPathSegment} {fuel : Nat}
    (advanced : width.round base pkt ⟨ptr, done⟩ = .ok (.next ⟨later, done ++ [seg]⟩))
    (ended : loop (width.round base pkt) fuel ⟨ptr, done⟩ = .ok (done ++ value)) :
    ∃ left others, value = seg :: others ∧
      loop (width.round base pkt) left ⟨later, done ++ [seg]⟩ =
        .ok (done ++ [seg] ++ others) := by
  rcases fuel with _ | left
  · cases ended
  rw [loop_next advanced] at ended
  -- The loop only appends to what it has.
  obtain ⟨others, grown⟩ := segmentLoop_grows ended
  have same : value = seg :: others := by
    rw [append_assoc, append_cancel_left_eq] at grown
    exact grown.symm
  refine ⟨left, others, same, ?_⟩
  rw [ended, same, append_assoc]
  rfl

/-- The loop gives back the segments exactly when a reader meets them one after the other. -/
theorem loop_meets_iff {segs : List (PlainSegment α)}
    (counted : ∀ seg ∈ segs, seg.1.length.toNat = seg.2.length)
    (whole : base.totalLen.toNat = pkt.length) (here : ptr.toNat ≤ pkt.length) :
    (∃ fuel value, loop (width.round base pkt) fuel ⟨ptr, done⟩ = .ok (done ++ value) ∧
      value.map BGPASPathSegment.listed = (segs.map width.wrap).map BGPASPathSegment.listed) ↔
    Meets width.asSize (pkt.drop ptr.toNat) (segs.map width.wrap) := by
  induction segs generalizing ptr done with
  | nil =>
    constructor
    · rintro ⟨fuel, value, ended, same⟩ complete
      -- A complete segment would be one more than there are.
      obtain ⟨seg, later, _, advanced, _, _⟩ := width.round_reads whole here complete
      obtain ⟨_, others, more, _⟩ := width.loop_after_read advanced ended
      rw [more] at same
      cases same
    · intro cut
      refine ⟨1, [], ?_, rfl⟩
      rw [loop_stop (width.round_stops whole here cut), append_nil]
  | cons seg rest ih =>
    have count := counted seg mem_cons_self
    have behind := fun {ptr done} => @ih ptr done
      (fun other member => counted other (mem_cons_of_mem _ member))
    have getLen : (width.wrap seg).getLen = seg.1.length := by
      rw [BGPASPathSegment.getLen, width.base_wrap]
    rw [map_cons, Meets, getLen]
    by_cases complete : SegmentComplete width.asSize.toNat (pkt.drop ptr.toNat)
    · obtain ⟨found, later, read, advanced, moved, inside⟩ :=
        @ASWidth.round_reads _ width _ _ _ done whole here complete
      constructor
      · rintro ⟨fuel, value, ended, same⟩
        obtain ⟨left, others, more, again⟩ := width.loop_after_read advanced ended
        rw [more, map_cons, map_cons, cons.injEq] at same
        obtain ⟨stands, length⟩ := width.stands_of_listed read.counted count read.stands same.1
        have met := (behind inside).mp ⟨left, others, again, same.2⟩
        rw [moved, length, ← drop_drop] at met
        exact ⟨complete, stands, met⟩
      · rintro ⟨-, stands, met⟩
        obtain ⟨same, length⟩ := width.same_of_stands read.counted count read.stands stands
        rw [← length, drop_drop, ← moved] at met
        obtain ⟨left, others, again, listed⟩ := (behind inside).mpr met
        refine ⟨left + 1, width.wrap found :: others, ?_, ?_⟩
        · rw [loop_next advanced, again, append_assoc]
          rfl
        · rw [map_cons, map_cons, same, listed]
    · -- The loop stops here, before the first segment of the result.
      refine ⟨?_, fun met => absurd met.1 complete⟩
      rintro ⟨_ | fuel, value, ended, same⟩
      · cases ended
      · rw [loop_stop (width.round_stops whole here complete), ok.injEq] at ended
        rw [self_eq_append_right.mp ended] at same
        cases same

end Rounds

/-- Segments with numbers are complete wherever their bytes stand. -/
theorem meets_iff_readsBack {segs : List (PlainSegment α)}
    (exact : ∀ seg ∈ segs, width.Exact seg) {rest : Bytes} :
    Meets width.asSize rest (segs.map width.wrap) ↔
      ReadsBack width.asSize rest (segs.map width.wrap) := by
  induction segs generalizing rest with
  | nil => rfl
  | cons seg others ih =>
    have first := exact seg mem_cons_self
    rw [map_cons, Meets, ReadsBack, ih fun other member => exact other (.tail _ member)]
    refine ⟨And.right, fun met => ⟨?_, met⟩⟩
    exact width.complete_of_stands first.counted first.filled met.1

/-- Behind a segment of at most 255 bytes the reader stands where the next one begins. -/
theorem readsBack_of_short {segs : List (PlainSegment α)}
    (exact : ∀ seg ∈ segs, width.Exact seg)
    (short : ∀ seg ∈ segs, (width.wrap seg).bytes.length ≤ 255) :
    ReadsBack width.asSize (pathBytes (segs.map width.wrap)) (segs.map width.wrap) := by
  induction segs with
  | nil => exact id
  | cons seg others ih =>
    have counted := (exact seg mem_cons_self).counted
    have length := width.bytes_length seg
    have few := short seg mem_cons_self
    have step : ((width.wrap seg).getLen * width.asSize + 2).toNat =
        (width.wrap seg).bytes.length := by
      rw [BGPASPathSegment.getLen, width.base_wrap, UInt8.toNat_add, UInt8.toNat_mul, counted]
      simp only [UInt8.reduceToNat]
      omega
    refine ⟨prefix_append _ _, ?_⟩
    rw [step, pathBytes, map_cons, flatMap_cons, drop_left]
    exact ih (fun other member => exact other (.tail _ member))
      fun other member => short other (.tail _ member)

end Reading

end ASWidth

section Built

theorem BuiltAS2.measured {seg : BGPAS2PathSegment} (built : BuiltAS2 seg) :
    as2Width.Measured (seg.toBGPASPathSegmentBase, seg.ases) := by
  -- Every call adds one number or leaves a full segment as it is.
  induction built with
  | new segType => exact ⟨rfl, rfl⟩
  | append built number ih =>
    rw [BGPAS2PathSegment.appendAS]
    split
    · exact ih
    · rename_i room
      exact ih.grown room (by simp)
  | prepend built number ih =>
    rw [BGPAS2PathSegment.prependAS]
    split
    · exact ih
    · rename_i room
      exact ih.grown room rfl

theorem BuiltAS4.measured {seg : BGPAS4PathSegment} (built : BuiltAS4 seg) :
    as4Width.Measured (seg.toBGPASPathSegmentBase, seg.ases) := by
  -- Every call adds one number or leaves a full segment as it is.
  induction built with
  | new segType => exact ⟨rfl, rfl⟩
  | append built number ih =>
    rw [BGPAS4PathSegment.appendAS]
    split
    · exact ih
    · rename_i room
      exact ih.grown room (by simp)
  | prepend built number ih =>
    rw [BGPAS4PathSegment.prependAS]
    split
    · exact ih
    · rename_i room
      exact ih.grown room rfl

/-- The header of a path whose value takes so many bytes. -/
def asPathBase (length : Nat) : BGPPathAttrBase := ⟨0x50, attrTypeASPath, UInt16.ofNat length, 4⟩

variable {α : Type} {width : ASWidth α}

variable {path : BGPPathAttrASPath}

/-- A segment counted as the bytes it takes keeps the header's count right. -/
theorem asPathBase_grown {seg : PlainSegment α} {size : Nat}
    (base : path.toBGPPathAttrBase = asPathBase size) (sound : width.Exact seg) :
    { path.toBGPPathAttrBase with length := path.length + (width.wrap seg).totalLen } =
      asPathBase (size + (width.wrap seg).bytes.length) := by
  have measured : (width.wrap seg).totalLen.toNat = (width.wrap seg).bytes.length := by
    rw [BGPASPathSegment.totalLen, width.base_wrap, sound.measured, width.bytes_length]
  have length : path.length = UInt16.ofNat size := congrArg BGPPathAttrBase.length base
  have sum : path.length + (width.wrap seg).totalLen =
      UInt16.ofNat (size + (width.wrap seg).bytes.length) := by
    rw [length]
    apply UInt16.toNat_inj.mp
    rw [UInt16.toNat_add, UInt16.toNat_ofNat', UInt16.toNat_ofNat', measured]
    omega
  rw [sum, base]
  rfl

/-- The built segments of a path are all of its width. -/
def ASWidth.Makes (width : ASWidth α) : Prop := ∀ seg : BGPASPathSegment,
  seg.Built width.asSize → ∃ plain, seg = width.wrap plain ∧ width.Exact plain

theorem as2Width_built : as2Width.Makes := by
  intro seg built
  cases seg with
  | as2 seg =>
    exact ⟨(seg.toBGPASPathSegmentBase, seg.ases), rfl, built.2.1.measured, built.2.2⟩
  | as4 seg => exact absurd built.1 (by decide)

theorem as4Width_built : as4Width.Makes := by
  intro seg built
  cases seg with
  | as2 seg => exact absurd built.1 (by decide)
  | as4 seg =>
    exact ⟨(seg.toBGPASPathSegmentBase, seg.ases), rfl, built.2.1.measured, built.2.2⟩

/-- A built path has segments of its width, and a header that counts their bytes. -/
theorem BuiltASPath.exact (made : width.Makes) (built : BuiltASPath width.asSize path) :
    ∃ segs : List (PlainSegment α), path.value = segs.map width.wrap ∧
      (∀ seg ∈ segs, width.Exact seg) ∧
      path.toBGPPathAttrBase = asPathBase (pathBytes path.value).length := by
  induction built with
  | new => exact ⟨[], rfl, by simp, rfl⟩
  | @append path seg built added ih =>
    obtain ⟨segs, value, exact, base⟩ := ih
    obtain ⟨plain, rfl, sound⟩ := made seg added
    refine ⟨segs ++ [plain], ?_, ?_, ?_⟩
    · rw [BGPPathAttrASPath.appendASPathSegment, value, map_append]
      rfl
    · exact forall_mem_append.mpr ⟨exact, forall_mem_singleton.mpr sound⟩
    · refine (asPathBase_grown base sound).trans ?_
      simp [BGPPathAttrASPath.appendASPathSegment, pathBytes]
  | @prepend path seg built added ih =>
    obtain ⟨segs, value, exact, base⟩ := ih
    obtain ⟨plain, rfl, sound⟩ := made seg added
    refine ⟨plain :: segs, ?_, ?_, ?_⟩
    · rw [BGPPathAttrASPath.prependASPathSegment, value, map_cons]
    · exact forall_mem_cons.mpr ⟨sound, exact⟩
    · refine (asPathBase_grown base sound).trans ?_
      simp [BGPPathAttrASPath.prependASPathSegment, pathBytes, add_comm]

/-- The flags, the code and any length of an AS path are accepted. -/
theorem asPathBase_accepted (length : Nat) : (asPathBase length).Accepted :=
  BGPPathAttrBase.accepted_of_table rfl (.inl rfl) (.inr rfl) nofun
    (by decide : attrTypeASPath < attrTypeUnknown)

theorem asPathBase_extended (length : Nat) : (asPathBase length).flags &&& flagExtendedLen ≠ 0 := by
  show (0x50 : UInt8) &&& flagExtendedLen ≠ 0
  decide

theorem asPathBase_headerExact (length : Nat) : (asPathBase length).HeaderExact :=
  BGPPathAttrBase.headerExact_of_extended (asPathBase_extended length) rfl

theorem asPathBase_length {length : Nat} (small : length ≤ 65535) :
    (asPathBase length).length.toNat = length := by
  show (UInt16.ofNat length).toNat = length
  rw [UInt16.toNat_ofNat']
  omega

@[simp] theorem asPathBase_headerBytes_length (length : Nat) :
    (asPathBase length).headerBytes.length = 4 :=
  BGPPathAttrBase.headerBytes_length (asPathBase_headerExact length)

/-- A built path is written as its header and the bytes of its segments. -/
theorem BuiltASPath.encode (made : width.Makes) (built : BuiltASPath width.asSize path)
    (small : (pathBytes path.value).length ≤ 65535) : (BGPPathAttr.asPath path).encode =
      .ok ((asPathBase (pathBytes path.value).length).headerBytes ++ pathBytes path.value) := by
  obtain ⟨segs, value, exact, base⟩ := built.exact made
  have header := BGPPathAttrBase.encode_header (asPathBase_headerExact (pathBytes path.value).length)
  rw [asPathBase_length small] at header
  obtain ⟨last, written⟩ := width.encode_segments exact
    (asPathBase (pathBytes path.value).length).headerBytes
    (zeros (pathBytes path.value).length) 4 (by simp) (by rw [zeros_length, value])
    (by rw [zeros_length, asPathBase_headerBytes_length]; omega)
  rw [← value] at written
  rw [BGPPathAttr.encode, base, header, ok_bind]
  show (encodeSegments _ 4 path.value >>= _) = _
  rw [written]
  rfl

section Decoding

variable {bytes : Bytes} (small : bytes.length ≤ 65535)

include small

/-- The header of a path is read back from in front of the value and whatever follows it. -/
theorem asPathBase_decode {tail : Bytes} (room : bytes.length ≤ tail.length) :
    BGPPathAttrBase.decode ((asPathBase bytes.length).headerBytes ++ tail) =
      .ok (asPathBase bytes.length) := by
  refine BGPPathAttrBase.decode_extended (asPathBase_extended _) rfl (asPathBase_accepted _) ?_
  rwa [asPathBase_length small]

/-- A path is read as its header and then segment by segment. -/
theorem asPath_decode {peerAttrs : BGPPeerAttrs} (agreed : peerAttrs.asSize = width.asSize)
    (fuel : Nat) :
    BGPPathAttrASPath.decode fuel ((asPathBase bytes.length).headerBytes ++ bytes) peerAttrs =
      loop (width.round (asPathBase bytes.length)
        ((asPathBase bytes.length).headerBytes ++ bytes)) fuel ⟨4, []⟩ >>=
        fun read => .ok ⟨asPathBase bytes.length, read, peerAttrs.asSize⟩ := by
  rw [BGPPathAttrASPath.decode, asPathBase_decode small (le_refl _), ok_bind, agreed]
  rfl

theorem asPathBase_totalLen : (asPathBase bytes.length).totalLen.toNat = bytes.length + 4 := by
  rw [BGPPathAttrBase.totalLen_toNat, asPathBase_length small]
  rfl

/-- Behind the header, the loop gives the segments back when a reader meets them there. -/
theorem asPath_loop_iff {segs : List (PlainSegment α)}
    (counted : ∀ seg ∈ segs, seg.1.length.toNat = seg.2.length) :
    (∃ fuel value, loop (width.round (asPathBase bytes.length)
        ((asPathBase bytes.length).headerBytes ++ bytes)) fuel ⟨4, []⟩ = .ok value ∧
      value.map BGPASPathSegment.listed = (segs.map width.wrap).map BGPASPathSegment.listed) ↔
    Meets width.asSize bytes (segs.map width.wrap) := by
  have four := asPathBase_headerBytes_length bytes.length
  have whole : (asPathBase bytes.length).totalLen.toNat =
      ((asPathBase bytes.length).headerBytes ++ bytes).length := by
    rw [asPathBase_totalLen small, length_append, four, add_comm]
  have behind : ((asPathBase bytes.length).headerBytes ++ bytes).drop (4 : UInt32).toNat = bytes :=
    drop_left' four
  have loops := @ASWidth.loop_meets_iff α width _ _ 4 [] segs counted
    whole (by rw [length_append, four]; exact Nat.le_add_right _ _)
  rwa [behind] at loops

end Decoding

/-- A built path round trips exactly when a reader meets its segments one after the other. -/
theorem BuiltASPath.roundTrips_iff (made : width.Makes) (built : BuiltASPath width.asSize path)
    (small : (pathBytes path.value).length ≤ 65535) {peerAttrs : BGPPeerAttrs}
    (agreed : peerAttrs.asSize = width.asSize) :
    RoundTrips peerAttrs path ↔ ReadsBack width.asSize (pathBytes path.value) path.value := by
  obtain ⟨segs, value, exact, _⟩ := built.exact made
  have encoded := built.encode made small
  have decoded := asPath_decode small agreed
  have loops := @asPath_loop_iff α width _ small segs
    fun seg member => (exact seg member).counted
  rw [width.meets_iff_readsBack exact, ← value] at loops
  rw [← loops]
  constructor
  · rintro ⟨pkt, fuel, attr, wrote, read, same⟩
    rw [encoded] at wrote
    cases wrote
    rw [decoded, bind_eq_ok] at read
    obtain ⟨result, ended, made⟩ := read
    cases made
    exact ⟨fuel, result, ended, same⟩
  · rintro ⟨fuel, result, ended, same⟩
    refine ⟨_, fuel, ⟨asPathBase (pathBytes path.value).length, result, peerAttrs.asSize⟩, encoded,
      ?_, same⟩
    rw [decoded, ended]
    rfl

/-- The length of a segment of at most 255 bytes fits the eight bits it is computed in. -/
theorem BuiltASPath.roundTrips_of_short (made : width.Makes) (built : BuiltASPath width.asSize path)
    (small : (pathBytes path.value).length ≤ 65535) {peerAttrs : BGPPeerAttrs}
    (agreed : peerAttrs.asSize = width.asSize)
    (short : ∀ seg ∈ path.value, seg.bytes.length ≤ 255) : RoundTrips peerAttrs path := by
  obtain ⟨segs, value, exact, _⟩ := built.exact made
  rw [built.roundTrips_iff made small agreed]
  rw [value] at short ⊢
  exact width.readsBack_of_short exact (forall_mem_map.mp short)

end Built

section RoundTrip

variable {asSize : UInt8} {path : BGPPathAttrASPath} {peerAttrs : BGPPeerAttrs}

/-- A built path comes back from the wire exactly when a reader meets its segments in turn. -/
theorem asPath_round_trip_iff (negotiated : asSize = 2 ∨ asSize = 4)
    (built : BuiltASPath asSize path) (small : (pathBytes path.value).length ≤ 65535)
    (agreed : peerAttrs.asSize = asSize) :
    RoundTrips peerAttrs path ↔ ReadsBack asSize (pathBytes path.value) path.value := by
  rcases negotiated with rfl | rfl
  · exact @BuiltASPath.roundTrips_iff _ as2Width _ as2Width_built built small _ agreed
  · exact @BuiltASPath.roundTrips_iff _ as4Width _ as4Width_built built small _ agreed

/-- A path of segments of at most 126 or 63 numbers, as the width has it, always comes back. -/
theorem short_segments_round_trip (negotiated : asSize = 2 ∨ asSize = 4)
    (built : BuiltASPath asSize path) (small : (pathBytes path.value).length ≤ 65535)
    (agreed : peerAttrs.asSize = asSize)
    (short : ∀ seg ∈ path.value, seg.bytes.length ≤ 255) : RoundTrips peerAttrs path := by
  rcases negotiated with rfl | rfl
  · exact @BuiltASPath.roundTrips_of_short _ as2Width _ as2Width_built built small _ agreed short
  · exact @BuiltASPath.roundTrips_of_short _ as4Width _ as4Width_built built small _ agreed short

/-- A session with four-byte AS numbers and without path ids. -/
def fourByteSession : BGPPeerAttrs := ⟨4, false⟩

/-- The path of one sequence that repeats an AS number. -/
def repeatedAS (count : Nat) : BGPPathAttrASPath :=
  newBGPPathAttrASPath.appendASPathSegment (.as4 ((List.replicate count 65001).foldl
    BGPAS4PathSegment.appendAS (newBGPAS4PathSegment segmentSequence)))

/-- Appending number after number is one way to build a segment. -/
theorem BuiltAS4.foldl {seg : BGPAS4PathSegment} (built : BuiltAS4 seg)
    (numbers : List UInt32) : BuiltAS4 (numbers.foldl BGPAS4PathSegment.appendAS seg) := by
  induction numbers generalizing seg with
  | nil => exact built
  | cons number numbers ih => exact ih (built.append number)

/-- Three numbers come back, since the fourteen bytes they take are counted right. -/
theorem asPath_round_trip_three : RoundTrips fourByteSession (repeatedAS 3) := by
  have built : BuiltASPath 4 (repeatedAS 3) :=
    .append .new ⟨rfl, (BuiltAS4.new segmentSequence).foldl _, by decide⟩
  exact (asPath_round_trip_iff (.inr rfl) built (by decide) rfl).mpr (by decide)

/--
Of 64 numbers the reader steps over two bytes only.

It takes the upper half of the first number for an empty segment, and gives up on the lower half.
-/
theorem asPath_64_numbers_misread :
    BuiltASPath 4 (repeatedAS 64) ∧ (pathBytes (repeatedAS 64).value).length ≤ 65535 ∧
      ¬ RoundTrips fourByteSession (repeatedAS 64) ∧
      ((BGPPathAttr.asPath (repeatedAS 64)).encode >>= fun pkt =>
        BGPPathAttrASPath.decode 3 pkt fourByteSession) =
        .ok ⟨asPathBase 258, [.as4 ⟨⟨segmentSequence, 64, 2⟩, List.replicate 64 65001⟩,
          .as4 ⟨⟨0, 0, 2⟩, []⟩], 4⟩ := by
  have built : BuiltASPath 4 (repeatedAS 64) :=
    .append .new ⟨rfl, (BuiltAS4.new segmentSequence).foldl _, by decide +kernel⟩
  have small : (pathBytes (repeatedAS 64).value).length ≤ 65535 := by decide +kernel
  refine ⟨built, small, ?_, by decide +kernel⟩
  -- The first number holds more than a header behind it, and announces no numbers.
  rw [@BuiltASPath.roundTrips_iff _ as4Width _ as4Width_built built small fourByteSession rfl]
  decide +kernel

end RoundTrip

end FlexSwitch.Packet
