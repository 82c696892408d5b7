import FlexSwitch.Packet.ASPathTyped
import FlexSwitch.Packet.UpdateScan

/-! Whether the local AS number is found in exactly those paths that hold it. -/

namespace FlexSwitch.Packet

open Go List Outcome UInt16

variable {pa : BGPPathAttr} {found : ASAttrs}

/-- The AS numbers of a segment, in four bytes. -/
def BGPASPathSegment.numbers : BGPASPathSegment → List UInt32
  | .as2 seg => seg.ases.map UInt16.toUInt32
  | .as4 seg => seg.ases

/-- The segments of an attribute, if it is an AS_PATH one. -/
def BGPPathAttr.pathValue : BGPPathAttr → List BGPASPathSegment
  | .asPath attr => attr.value
  | _ => []

/-- The segments of the AS_PATH attribute, which is the first one of that code. -/
def asPathValue (pathAttrs : List BGPPathAttr) : List BGPASPathSegment :=
  ((getTypeFromPathAttrs pathAttrs attrTypeASPath).map BGPPathAttr.pathValue).getD []

/-- The search returns, and says whether the path holds the number. -/
def LoopExact (pathAttrs : List BGPPathAttr) (localAS : UInt32) : Prop :=
  hasASLoop pathAttrs localAS =
    .ok (decide (localAS ∈ (asPathValue pathAttrs).flatMap BGPASPathSegment.numbers))

/-- The local number, cut down to two bytes, is not taken for another one. -/
def Unmistaken (localAS : UInt32) (segments : List BGPASPathSegment) : Prop :=
  localAS.toUInt16.toUInt32 ∈ segments.flatMap BGPASPathSegment.numbers → localAS ≤ 65535

/-- An AS_PATH attribute that stays in front of the one that is put together, if there is one. -/
def otherASPath (pathAttrs : List BGPPathAttr) : Option BGPPathAttr :=
  let rest := removeTypeFromPathAttrs (removeTypeFromPathAttrs pathAttrs attrTypeAS4Path)
    attrTypeASPath
  getTypeFromPathAttrs (rest.take (addIdx rest attrTypeASPath)) attrTypeASPath

/--
The messages in which the search is exact, by the attributes that were received.

Paths of four-byte numbers are always searched. A path of two-byte numbers has to survive as it is,
or to hold nothing once it has been widened or merged.
-/
def LoopFaithful (asSize : UInt8) (pathAttrs : List BGPPathAttr) (localAS : UInt32) : Prop :=
  asSize = 4 ∨ ∀ found last, ASAttrs.collect pathAttrs = .ok found → found.asPath = some last →
    if found.aggregatorStands then Unmistaken localAS (asPathValue pathAttrs)
    else match found.as4Path with
    | none => asPathValue pathAttrs = []
    | some as4Path =>
      match otherASPath pathAttrs with
      | some other => Unmistaken localAS other.pathValue
      | none => as4Path.value = [] ∧ ∀ seg ∈ last.value.head?, seg.getNumASes ≠ 0

section Searching

variable {asSize : UInt8} {localAS : UInt32} {segs : List BGPASPathSegment}

/-- Where no segment is of the wrong type, the search goes through all of them. -/
theorem segmentsHaveAS_eq {found : BGPASPathSegment → Bool}
    (each : ∀ seg ∈ segs, segmentHasAS asSize localAS seg = .ok (found seg)) :
    segmentsHaveAS asSize localAS segs = .ok (segs.any found) := by
  induction segs with
  | nil => rfl
  | cons seg segs ih =>
    have rest := ih fun other later => each other (mem_cons_of_mem _ later)
    rw [segmentsHaveAS, each seg mem_cons_self, ok_bind, any_cons, rest]
    cases found seg <;> rfl

theorem wide_exact (wide : ∀ seg ∈ segs, ∃ inner, seg = .as4 inner) :
    segmentsHaveAS 4 localAS segs =
      .ok (decide (localAS ∈ segs.flatMap BGPASPathSegment.numbers)) := by
  have each : ∀ seg ∈ segs, segmentHasAS 4 localAS seg =
      .ok (seg.numbers.contains localAS) := by
    intro seg member
    obtain ⟨inner, rfl⟩ := wide seg member
    rfl
  rw [segmentsHaveAS_eq each]
  congr 1
  rw [Bool.eq_iff_iff]
  simp

/-- A two-byte number is the local one, cut down, exactly when it is so in four bytes. -/
theorem mem_widened_iff {ases : List UInt16} {number : UInt16} :
    number.toUInt32 ∈ ases.map UInt16.toUInt32 ↔ number ∈ ases := by
  refine ⟨fun listed => ?_, mem_map_of_mem⟩
  obtain ⟨other, member, same⟩ := mem_map.mp listed
  have equal : other = number := by
    apply UInt16.toNat_inj.mp
    rw [← UInt16.toNat_toUInt32, same, UInt16.toNat_toUInt32]
  rwa [← equal]

theorem toUInt16_toUInt32 (small : localAS ≤ 65535) : localAS.toUInt16.toUInt32 = localAS := by
  have bound : localAS.toNat ≤ 65535 := UInt32.le_iff_toNat_le.mp small
  apply UInt32.toNat_inj.mp
  rw [toNat_toUInt32, UInt32.toNat_toUInt16]
  omega

/-- Two-byte numbers are compared with the local one cut down. -/
theorem narrow_exact_iff (two : asSize ≠ 4)
    (narrow : ∀ seg ∈ segs, ∃ inner, seg = .as2 inner) :
    segmentsHaveAS asSize localAS segs =
        .ok (decide (localAS ∈ segs.flatMap BGPASPathSegment.numbers)) ↔
      Unmistaken localAS segs := by
  have each : ∀ seg ∈ segs, segmentHasAS asSize localAS seg =
      .ok (seg.numbers.contains localAS.toUInt16.toUInt32) := by
    intro seg member
    obtain ⟨inner, rfl⟩ := narrow seg member
    rw [segmentHasAS, if_neg two]
    show ok (inner.ases.contains localAS.toUInt16) = _
    congr 1
    rw [Bool.eq_iff_iff, contains_iff_mem, contains_iff_mem]
    exact mem_widened_iff.symm
  -- Every number of the path is below 65536.
  have bounded : localAS ∈ segs.flatMap BGPASPathSegment.numbers → localAS ≤ 65535 := by
    intro listed
    obtain ⟨seg, member, inside⟩ := mem_flatMap.mp listed
    obtain ⟨inner, rfl⟩ := narrow seg member
    obtain ⟨number, _, same⟩ := mem_map.mp inside
    have small := number.toNat_lt
    rw [← same, UInt32.le_iff_toNat_le, toNat_toUInt32]
    show number.toNat ≤ 65535
    omega
  have said : segs.any (fun seg => seg.numbers.contains localAS.toUInt16.toUInt32) =
      decide (localAS.toUInt16.toUInt32 ∈ segs.flatMap BGPASPathSegment.numbers) := by
    rw [Bool.eq_iff_iff]
    simp
  rw [segmentsHaveAS_eq each, said, ok.injEq, decide_eq_decide, Unmistaken]
  constructor
  · intro same cut
    exact bounded (same.mp cut)
  · intro unmistaken
    constructor
    · intro cut
      rwa [← toUInt16_toUInt32 (unmistaken cut)]
    · intro listed
      rwa [toUInt16_toUInt32 (bounded listed)]

/-- Four-byte numbers that are taken for two-byte ones fail the first type assertion. -/
theorem misread_exact_iff (two : asSize ≠ 4)
    (wide : ∀ seg ∈ segs, ∃ inner, seg = .as4 inner) :
    segmentsHaveAS asSize localAS segs =
        .ok (decide (localAS ∈ segs.flatMap BGPASPathSegment.numbers)) ↔ segs = [] := by
  cases segs with
  | nil => simp [segmentsHaveAS]
  | cons seg segs =>
    obtain ⟨inner, rfl⟩ := wide seg mem_cons_self
    rw [segmentsHaveAS, segmentHasAS, if_neg two]
    constructor
    · intro returned
      cases returned
    · intro absent
      cases absent

theorem SegmentRead.narrow {seg : BGPASPathSegment} (read : SegmentRead 2 seg) :
    ∃ inner, seg = .as2 inner := by
  cases seg with
  | as2 inner => exact ⟨inner, rfl⟩
  | as4 inner => exact absurd read.1 (by decide)

theorem SegmentRead.wide {seg : BGPASPathSegment} (read : SegmentRead 4 seg) :
    ∃ inner, seg = .as4 inner := by
  cases seg with
  | as2 inner => exact absurd rfl read.1
  | as4 inner => exact ⟨inner, rfl⟩

end Searching

section Lists

variable {pathAttrs : List BGPPathAttr} {code other : UInt8} {attr : BGPPathAttr}

/-- Removing an attribute of another code does not change the first one found. -/
theorem getType_removeType (differs : code ≠ other) :
    getTypeFromPathAttrs (removeTypeFromPathAttrs pathAttrs other) code =
      getTypeFromPathAttrs pathAttrs code := by
  unfold getTypeFromPathAttrs removeTypeFromPathAttrs
  induction pathAttrs with
  | nil => rfl
  | cons pa pathAttrs ih =>
    by_cases removed : pa.getCode = other
    · have kept : ¬ pa.getCode = code := fun same => differs (same.symm.trans removed)
      rw [eraseP_cons_of_pos (by simpa using removed), find?_cons_of_neg (by simpa using kept)]
    · rw [eraseP_cons_of_neg (by simpa using removed), find?_cons, find?_cons, ih]

variable (coded : attr.getCode = code)

include coded

theorem getType_replaceType (present : getTypeFromPathAttrs pathAttrs code ≠ none) :
    getTypeFromPathAttrs (replaceTypeInPathAttrs code attr pathAttrs) code = some attr := by
  unfold getTypeFromPathAttrs at present ⊢
  induction pathAttrs with
  | nil => exact absurd rfl present
  | cons pa pathAttrs ih =>
    by_cases here : pa.getCode = code
    · simp [replaceTypeInPathAttrs, here, coded]
    · simp only [replaceTypeInPathAttrs, beq_iff_eq, here, if_false]
      simp only [find?_cons, beq_eq_false_iff_ne.mpr here] at present ⊢
      exact ih present

/-- Replacing an attribute and removing it is removing it. -/
theorem removeType_replaceType :
    removeTypeFromPathAttrs (replaceTypeInPathAttrs code attr pathAttrs) code =
      removeTypeFromPathAttrs pathAttrs code := by
  unfold removeTypeFromPathAttrs
  induction pathAttrs with
  | nil => rfl
  | cons pa pathAttrs ih =>
    by_cases here : pa.getCode = code
    · simp [replaceTypeInPathAttrs, here, coded]
    · simp [replaceTypeInPathAttrs, here, ih]

/-- Attributes of two codes are replaced and removed independently. -/
theorem removeType_replaceType_comm (differs : code ≠ other) :
    removeTypeFromPathAttrs (replaceTypeInPathAttrs code attr pathAttrs) other =
      replaceTypeInPathAttrs code attr (removeTypeFromPathAttrs pathAttrs other) := by
  unfold removeTypeFromPathAttrs
  induction pathAttrs with
  | nil => rfl
  | cons pa pathAttrs ih =>
    by_cases here : pa.getCode = code
    · simp [replaceTypeInPathAttrs, here, coded, differs]
    · by_cases removed : pa.getCode = other
      · simp [replaceTypeInPathAttrs, removed, differs.symm]
      · simp [replaceTypeInPathAttrs, here, removed, ih]

/-- An inserted attribute is found unless one of its code stays in front of it. -/
theorem getType_addByCode :
    getTypeFromPathAttrs (addPathAttrToPathAttrsByCode pathAttrs code attr) code =
      (getTypeFromPathAttrs (pathAttrs.take (addIdx pathAttrs code)) code).or (some attr) := by
  simp [getTypeFromPathAttrs, addPathAttrToPathAttrsByCode, find?_append, coded]

end Lists

section Received

variable {fuel : Nat} {pkt : Bytes} {peerAttrs : BGPPeerAttrs}

/-- An attribute with the code of AS_PATH is one, in the width that the session uses. -/
def PathRead (asSize : UInt8) (pa : BGPPathAttr) : Prop :=
  pa.getCode = attrTypeASPath → ∃ asPath, pa = .asPath asPath ∧ asPath.asSize = asSize ∧
    ∀ seg ∈ asPath.value, SegmentRead asSize seg

theorem attrDecode_pathRead (decoded : BGPPathAttr.decode fuel pkt peerAttrs = .ok pa) :
    PathRead peerAttrs.asSize pa := by
  intro coded
  have carried : BGPPathAttrBase.decode pkt = .ok pa.base := attrDecode_base pa decoded
  have code : (index pkt 1 : Call UInt8) = .ok attrTypeASPath := by
    rw [index_eq_ok, (BGPPathAttrBase.decode_ok carried).code]
    exact congrArg some coded
  rw [BGPPathAttr.decode, code, ok_bind] at decoded
  obtain ⟨asPath, read, same⟩ := bind_eq_ok.mp decoded
  cases same
  exact ⟨asPath, rfl, BGPPathAttrASPath.decode_read read⟩

variable {header : BGPHeader} {body : BGPUpdate}

section

variable (decoded : BGPUpdate.decode fuel header pkt peerAttrs = .ok body)

include decoded

/-- The attributes of a message that was accepted are those its loop has collected. -/
theorem updateDecode_attrs : ∃ ptr cursor, loop (attrRound pkt peerAttrs fuel) fuel
        ⟨ptr, body.totalPathAttrLen.toNat, []⟩ = .ok cursor ∧
      body.pathAttributes = cursor.pathAttributes := by
  rw [BGPUpdate.decode, bind_eq_ok] at decoded
  obtain ⟨bytes, _, decoded⟩ := decoded
  obtain ⟨wdLen, _, decoded⟩ := bind_eq_ok.mp decoded
  split at decoded
  · cases decoded
  change (decodeWithdrawn fuel pkt wdLen.toUInt32 peerAttrs >>= fun routes =>
    BGPUpdate.decodeAttrs fuel header pkt peerAttrs wdLen routes.1 (2 + routes.2)) = _
    at decoded
  obtain ⟨routes, _, decoded⟩ := bind_eq_ok.mp decoded
  rw [BGPUpdate.decodeAttrs, bind_eq_ok] at decoded
  obtain ⟨bytesToo, _, decoded⟩ := decoded
  obtain ⟨attrLen, _, decoded⟩ := bind_eq_ok.mp decoded
  split at decoded
  · cases decoded
  obtain ⟨cursor, ended, decoded⟩ := bind_eq_ok.mp decoded
  rw [BGPUpdate.decodeReachable, bind_eq_ok] at decoded
  obtain ⟨rest, _, decoded⟩ := decoded
  obtain ⟨nlri, _, same⟩ := bind_eq_ok.mp decoded
  cases same
  exact ⟨2 + routes.2 + 2, cursor, ended, rfl⟩

/-- Every AS_PATH attribute of an accepted message is in the width that the session uses. -/
theorem updateDecode_pathRead : ∀ pa ∈ body.pathAttributes, PathRead peerAttrs.asSize pa := by
  obtain ⟨ptr, cursor, ended, same⟩ := updateDecode_attrs decoded
  obtain ⟨last, reached, stopped⟩ := loop_eq_ok ended
  -- Each round adds one attribute, which was decoded in this session.
  have collected := reached.invariant
    (fun cursor => ∀ pa ∈ cursor.pathAttributes, PathRead peerAttrs.asSize pa)
    (forall_mem_nil _) (by
      intro state later before advanced
      obtain ⟨_, _, attr, read, rfl⟩ := attrRound_next advanced
      exact forall_mem_append.mpr ⟨before, forall_mem_singleton.mpr (attrDecode_pathRead read)⟩)
  obtain ⟨here, _⟩ := attrRound_stop stopped
  rw [same, ← here]
  exact collected

theorem updateDecode_empty (noBytes : body.totalPathAttrLen = 0) : body.pathAttributes = [] := by
  obtain ⟨ptr, cursor, ended, same⟩ := updateDecode_attrs decoded
  rw [noBytes] at ended
  cases fuel with
  | zero => cases ended
  | succ fuel =>
    cases ended
    exact same

end

end Received

section Normalised

variable {fuel : Nat} {pathAttrs : List BGPPathAttr}

/-- Collecting an attribute changes the AS_PATH found only if it has that code. -/
theorem record_asPath : (found.record pa).Yields fun next =>
    if pa.getCode = attrTypeASPath then ∃ asPath, pa = .asPath asPath ∧ next.asPath = some asPath
    else next.asPath = found.asPath := by
  unfold ASAttrs.record
  by_cases coded : pa.getCode = attrTypeASPath
  · simp only [if_pos coded]
    refine .bind fun asPath asserted => .ok ⟨asPath, ?_, rfl⟩
    cases pa <;> cases asserted
    rfl
  · simp only [if_neg coded]
    -- The other codes fill the other fields.
    exact .ite (.bind fun _ _ => .ok rfl) (.ite (.bind fun _ _ => .ok rfl)
      (.ite (.bind fun _ _ => .ok rfl) (.ok rfl)))

/-- The last AS_PATH attribute is collected, and one is if there is one. -/
theorem collect_asPath {start : ASAttrs}
    (collected : pathAttrs.foldlM ASAttrs.record start = .ok found) :
    found.asPath = start.asPath ∧ getTypeFromPathAttrs pathAttrs attrTypeASPath = none ∨
    ∃ last, found.asPath = some last ∧ .asPath last ∈ pathAttrs ∧ last.code = attrTypeASPath ∧
      getTypeFromPathAttrs pathAttrs attrTypeASPath ≠ none := by
  induction pathAttrs generalizing start with
  | nil =>
    cases collected
    exact .inl ⟨rfl, rfl⟩
  | cons pa pathAttrs ih =>
    obtain ⟨next, stepped, ended⟩ := bind_eq_ok.mp collected
    have one := record_asPath next stepped
    by_cases coded : pa.getCode = attrTypeASPath
    · simp only [if_pos coded] at one
      obtain ⟨asPath, rfl, updated⟩ := one
      have here : getTypeFromPathAttrs (.asPath asPath :: pathAttrs) attrTypeASPath ≠ none := by
        simp [getTypeFromPathAttrs, coded]
      rcases ih ended with ⟨same, _⟩ | ⟨last, same, member, code, _⟩
      · exact .inr ⟨asPath, same.trans updated, mem_cons_self, coded, here⟩
      · exact .inr ⟨last, same, mem_cons_of_mem _ member, code, here⟩
    · simp only [if_neg coded] at one
      have behind : getTypeFromPathAttrs (pa :: pathAttrs) attrTypeASPath =
          getTypeFromPathAttrs pathAttrs attrTypeASPath :=
        find?_cons_of_neg (by simpa using coded)
      rw [behind, ← one]
      rcases ih ended with kept | ⟨last, same, member, code, present⟩
      · exact .inl kept
      · exact .inr ⟨last, same, mem_cons_of_mem _ member, code, present⟩

/-- Segments that are skipped are appended as segments of four-byte numbers. -/
theorem skipSegments_appends {skip : UInt16} {segs : List BGPASPathSegment} {idx : Nat}
    {cursor last : SkipCursor} (skipped : skipSegments skip segs idx cursor = .ok last) :
    ∃ added : List BGPAS4PathSegment,
      last.newASPath.value = cursor.newASPath.value ++ added.map .as4 ∧
      last.newASPath.asSize = cursor.newASPath.asSize ∧
      last.newASPath.code = cursor.newASPath.code := by
  induction segs generalizing idx cursor with
  | nil =>
    cases skipped
    exact ⟨[], (append_nil _).symm, rfl, rfl⟩
  | cons segment segs ih =>
    rw [skipSegments] at skipped
    split at skipped
    · cases skipped
      exact ⟨[], (append_nil _).symm, rfl, rfl⟩
    · obtain ⟨seg, _, skipped⟩ := bind_eq_ok.mp skipped
      rw [bind_eq_ok] at skipped
      obtain ⟨newSeg, _, skipped⟩ := skipped
      obtain ⟨added, value, size, code⟩ := ih skipped
      refine ⟨newSeg :: added, ?_, size, code⟩
      rw [value]
      simp [BGPPathAttrASPath.appendASPathSegment]

/-- Appending segments of four-byte numbers leaves the code and the AS size alone. -/
theorem appendAll_as4 {segs : List BGPAS4PathSegment} {path new : BGPPathAttrASPath}
    (appended : segs.foldl (fun path seg4 => path.appendASPathSegment (.as4 seg4)) path = new) :
    new.value = path.value ++ segs.map .as4 ∧ new.asSize = path.asSize ∧
      new.code = path.code := by
  induction segs generalizing path with
  | nil =>
    subst appended
    exact ⟨(append_nil _).symm, rfl, rfl⟩
  | cons seg segs ih =>
    obtain ⟨value, size, code⟩ := ih appended
    refine ⟨?_, size, code⟩
    rw [value]
    simp [BGPPathAttrASPath.appendASPathSegment]

/-- The path that is put together, when nothing is to be skipped. -/
theorem constructASPath_spec {last new : BGPPathAttrASPath} {as4Path : BGPPathAttrAS4Path}
    (constructed : constructASPathFromAS4Path fuel last as4Path 0 = .ok new) :
    new.code = attrTypeASPath ∧ new.asSize = 0 ∧
      (∀ segment ∈ new.value, ∃ inner, segment = .as4 inner) ∧
      (new.value = [] ↔
        as4Path.value = [] ∧ ∀ segment ∈ last.value.head?, segment.getNumASes ≠ 0) := by
  rw [constructASPathFromAS4Path, bind_eq_ok] at constructed
  obtain ⟨cursor, skipped, constructed⟩ := constructed
  obtain ⟨added, value, size, code⟩ := skipSegments_appends skipped
  rw [show (newBGPPathAttrASPath.value) = [] from rfl, nil_append] at value
  -- Nothing is skipped unless the first segment counts as no AS at all.
  have first : cursor.newASPath.value = [] ↔
      ∀ segment ∈ last.value.head?, segment.getNumASes ≠ 0 := by
    cases segs : last.value with
    | nil =>
      rw [segs] at skipped
      cases skipped
      simp [newBGPPathAttrASPath]
    | cons segment segments' =>
      rw [segs, skipSegments] at skipped
      have counts : segment.getNumASes.toUInt16 + 0 > 0 ↔ segment.getNumASes ≠ 0 := by
        have small := segment.getNumASes.toNat_lt
        rw [gt_iff_lt, lt_iff_toNat_lt, add_zero, UInt8.toNat_toUInt16, ne_eq, ← UInt8.toNat_inj]
        show 0 < segment.getNumASes.toNat ↔ ¬ segment.getNumASes.toNat = 0
        omega
      rw [head?_cons]
      split at skipped
      · rename_i counted
        cases skipped
        simpa [newBGPPathAttrASPath] using counts.mp counted
      · rename_i empty
        obtain ⟨seg, _, skipped⟩ := bind_eq_ok.mp skipped
        rw [bind_eq_ok] at skipped
        obtain ⟨newSeg, _, skipped⟩ := skipped
        obtain ⟨more, longer, _⟩ := skipSegments_appends skipped
        have zero : segment.getNumASes = 0 := by
          by_contra other
          exact empty (counts.mpr other)
        rw [longer]
        simp [BGPPathAttrASPath.appendASPathSegment, zero]
  have merged : ∃ rest : List BGPAS4PathSegment,
      new.value = cursor.newASPath.value ++ rest.map .as4 ∧ new.asSize = cursor.newASPath.asSize ∧
      new.code = cursor.newASPath.code ∧ (rest = [] ↔ as4Path.value = []) := by
    split at constructed
    · rename_i empty
      cases constructed
      exact ⟨[], (append_nil _).symm, rfl, rfl, by simp [empty]⟩
    · rename_i head tail filled
      obtain ⟨seg, _, constructed⟩ := bind_eq_ok.mp constructed
      rw [bind_eq_ok] at constructed
      obtain ⟨seg4, _, same⟩ := constructed
      cases same
      obtain ⟨value, size, code⟩ := @appendAll_as4 _ cursor.newASPath _ rfl
      exact ⟨seg4 :: tail, value, size, code, by simp [filled]⟩
  obtain ⟨rest, mergedValue, mergedSize, mergedCode, noSegments⟩ := merged
  refine ⟨mergedCode.trans code, mergedSize.trans size, ?_, ?_⟩
  · rw [mergedValue, value]
    intro segment member
    rw [← map_append] at member
    obtain ⟨inner, _, rfl⟩ := mem_map.mp member
    exact ⟨inner, rfl⟩
  · rw [mergedValue, append_eq_nil_iff, map_eq_nil_iff, noSegments, first]
    exact and_comm

variable {asSize : UInt8} {localAS : UInt32} {after : List BGPPathAttr}

/-- The search looks at the first AS_PATH attribute. -/
theorem loopExact_of_first {asPath : BGPPathAttrASPath}
    (first : getTypeFromPathAttrs after attrTypeASPath = some (.asPath asPath)) :
    LoopExact after localAS ↔ segmentsHaveAS asPath.asSize localAS asPath.value =
      .ok (decide (localAS ∈ asPath.value.flatMap BGPASPathSegment.numbers)) := by
  rw [LoopExact, hasASLoop, asPathValue, first]
  rfl

/-- Without an AS_PATH attribute there is nothing to find. -/
theorem loopExact_of_none (absent : getTypeFromPathAttrs after attrTypeASPath = none) :
    LoopExact after localAS := by
  rw [LoopExact, hasASLoop, asPathValue, absent]
  rfl

/-- The first AS_PATH attribute of a message is one that was read. -/
theorem pathRead_first (each : ∀ pa ∈ pathAttrs, PathRead asSize pa)
    (first : getTypeFromPathAttrs pathAttrs attrTypeASPath = some pa) :
    ∃ asPath, pa = .asPath asPath ∧ asPath.asSize = asSize ∧
      ∀ seg ∈ asPath.value, SegmentRead asSize seg := by
  have coded : pa.getCode = attrTypeASPath := by
    simpa using find?_some first
  exact each pa (mem_of_find?_eq_some first) coded

/-- A path of two-byte numbers that has stayed as it was is searched by cut-down numbers. -/
theorem loopExact_narrow_iff (each : ∀ pa ∈ pathAttrs, PathRead 2 pa)
    (member : getTypeFromPathAttrs pathAttrs attrTypeASPath = some pa)
    (first : getTypeFromPathAttrs after attrTypeASPath = some pa) :
    LoopExact after localAS ↔ Unmistaken localAS pa.pathValue := by
  obtain ⟨asPath, rfl, size, read⟩ := pathRead_first each member
  rw [loopExact_of_first first, size]
  exact narrow_exact_iff (by decide) fun seg listed => (read seg listed).narrow

/-- A path that has been widened or merged has no AS size, and is searched in the wrong type. -/
theorem loopExact_misread_iff {asPath : BGPPathAttrASPath} (size : asPath.asSize = 0)
    (wide : ∀ seg ∈ asPath.value, ∃ inner, seg = .as4 inner)
    (first : getTypeFromPathAttrs after attrTypeASPath = some (.asPath asPath)) :
    LoopExact after localAS ↔ asPath.value = [] := by
  rw [loopExact_of_first first, size]
  exact misread_exact_iff (by decide) wide

/-- Both counts are taken of the AS_PATH attribute, so they agree. -/
theorem getNumASes_agree (pathAttrs : List BGPPathAttr) :
    getNumASesByASType pathAttrs attrTypeAS4Path = getNumASesByASType pathAttrs attrTypeASPath := by
  rw [getNumASesByASType, getNumASesByASType, if_neg (by decide), if_neg (by decide)]

/-- Widening replaces the first AS_PATH attribute by one without an AS size. -/
theorem convertAS2ToAS4_first (each : ∀ pa ∈ pathAttrs, PathRead 2 pa)
    (first : getTypeFromPathAttrs pathAttrs attrTypeASPath = some pa) :
    ∃ wide : BGPPathAttrASPath, convertAS2ToAS4 pathAttrs =
        .ok (replaceTypeInPathAttrs attrTypeASPath (.asPath wide) pathAttrs) ∧
      wide.code = attrTypeASPath ∧ wide.asSize = 0 ∧
      (∀ seg ∈ wide.value, ∃ inner, seg = .as4 inner) ∧
      (wide.value = [] ↔ pa.pathValue = []) := by
  obtain ⟨asPath, rfl, _, read⟩ := pathRead_first each first
  obtain ⟨wide, widened, code, size, value⟩ :=
    BGPPathAttrASPath.widen_eq (show (2 : UInt8) ≠ 4 by decide) read
  refine ⟨wide, ?_, code, size, ?_, ?_⟩
  · rw [convertAS2ToAS4, first]
    show (asPath.widen >>= _) = _
    rw [widened]
    rfl
  · intro seg member
    rw [value] at member
    obtain ⟨original, _, rfl⟩ := mem_map.mp member
    cases original with
    | as2 inner => exact ⟨_, rfl⟩
    | as4 inner => exact ⟨inner, rfl⟩
  · rw [value, map_eq_nil_iff]
    rfl

/-- What normalising leaves of a message of two-byte numbers, and when it is searched exactly. -/
theorem normalizeAS2Path_exact_iff (each : ∀ pa ∈ pathAttrs, PathRead 2 pa)
    {last : BGPPathAttrASPath} (first : getTypeFromPathAttrs pathAttrs attrTypeASPath = some pa)
    (normalized : normalizeAS2Path fuel pathAttrs last found = .ok after) :
    LoopExact after localAS ↔
      if found.aggregatorStands then Unmistaken localAS (asPathValue pathAttrs)
      else match found.as4Path with
      | none => asPathValue pathAttrs = []
      | some as4Path =>
        match otherASPath pathAttrs with
        | some other => Unmistaken localAS other.pathValue
        | none => as4Path.value = [] ∧ ∀ seg ∈ last.value.head?, seg.getNumASes ≠ 0 := by
  have value : asPathValue pathAttrs = pa.pathValue := by
    rw [asPathValue, first]
    rfl
  rw [normalizeAS2Path] at normalized
  by_cases stands : found.aggregatorStands
  · -- The path is left as it was received.
    rw [if_pos stands] at normalized ⊢
    cases normalized
    rw [value]
    refine loopExact_narrow_iff each first ?_
    rw [getType_removeType (by decide), getType_removeType (by decide), first]
  · rw [if_neg stands] at normalized ⊢
    obtain ⟨wide, widened, code, size, segs, empty⟩ := convertAS2ToAS4_first each first
    rw [widened, ok_bind] at normalized
    have replaced : getTypeFromPathAttrs (replaceTypeInPathAttrs attrTypeASPath (.asPath wide)
        pathAttrs) attrTypeASPath = some (.asPath wide) :=
      getType_replaceType code (by rw [first]; exact Option.some_ne_none pa)
    cases merging : found.as4Path with
    | none =>
      rw [merging] at normalized
      cases normalized
      rw [value, ← empty]
      exact loopExact_misread_iff size segs replaced
    | some as4Path =>
      -- The two counts agree, so the path is put together with nothing skipped.
      rw [merging] at normalized
      rw [getNumASes_agree, bind_eq_ok] at normalized
      obtain ⟨count, counted, normalized⟩ := normalized
      rw [counted, ok_bind, if_pos (UInt32.le_refl count), UInt32.sub_self] at normalized
      obtain ⟨new, constructed, same⟩ := bind_eq_ok.mp normalized
      obtain ⟨newCode, newSize, newSegments, newEmpty⟩ := constructASPath_spec constructed
      have coded : (BGPPathAttr.asPath wide).getCode = attrTypeASPath := code
      rw [removeType_replaceType_comm coded (by decide), removeType_replaceType coded] at same
      cases same
      have placed : _ = (otherASPath pathAttrs).or (some (.asPath new)) :=
        getType_addByCode (show (BGPPathAttr.asPath new).getCode = attrTypeASPath from newCode)
      cases kept : otherASPath pathAttrs with
      | none =>
        rw [kept, Option.none_or] at placed
        dsimp only
        rw [← newEmpty]
        exact loopExact_misread_iff newSize newSegments placed
      | some other =>
        rw [kept, Option.some_or] at placed
        -- The other attribute is one of those that were received.
        have member : ∀ pa ∈ (removeTypeFromPathAttrs (removeTypeFromPathAttrs pathAttrs
            attrTypeAS4Path) attrTypeASPath).take (addIdx (removeTypeFromPathAttrs
            (removeTypeFromPathAttrs pathAttrs attrTypeAS4Path) attrTypeASPath) attrTypeASPath),
            PathRead 2 pa := by
          intro pa listed
          exact each pa (mem_of_mem_eraseP (mem_of_mem_eraseP (mem_of_mem_take listed)))
        exact loopExact_narrow_iff member kept placed

/-- Normalised attributes are searched exactly if the received ones are among those described. -/
theorem normalizePathAttrs_exact_iff (known : asSize = 2 ∨ asSize = 4)
    (each : ∀ pa ∈ pathAttrs, PathRead asSize pa)
    (normalized : normalizePathAttrs fuel pathAttrs = .ok after) :
    LoopExact after localAS ↔ LoopFaithful asSize pathAttrs localAS := by
  rw [normalizePathAttrs, bind_eq_ok] at normalized
  obtain ⟨found, collected, normalized⟩ := normalized
  rcases collect_asPath collected with ⟨absent, missing⟩ | ⟨last, held, member, code, present⟩
  · -- Without a path there is nothing to normalise.
    rw [absent] at normalized
    cases normalized
    refine ⟨fun _ => .inr ?_, fun _ => loopExact_of_none missing⟩
    intro other last again listed
    rw [collected] at again
    cases again
    rw [absent] at listed
    cases listed
  · obtain ⟨_, same, size, _⟩ := each _ member code
    cases same
    obtain ⟨pa, first⟩ := Option.ne_none_iff_exists'.mp present
    rw [held] at normalized
    dsimp only at normalized
    rw [size] at normalized
    rcases known with two | four
    · -- The last path is of two-byte numbers, and so are all of them.
      subst two
      rw [normalizeAS2Path_exact_iff each first normalized, LoopFaithful]
      constructor
      · intro condition
        refine .inr fun other final again listed => ?_
        rw [collected] at again
        cases again
        rw [held] at listed
        cases listed
        exact condition
      · intro faithful
        rcases faithful with four | condition
        · exact absurd four (by decide)
        · exact condition found last collected held
    · subst four
      cases normalized
      refine ⟨fun _ => .inl rfl, fun _ => ?_⟩
      -- Only the AS4 attributes go, and the path stays the first one found.
      have kept : getTypeFromPathAttrs (normalizeAS4Path pathAttrs found) attrTypeASPath =
          some pa := by
        rw [normalizeAS4Path]
        split
        · rw [getType_removeType (by decide)]
          split
          · rw [getType_removeType (by decide), first]
          · exact first
        · split
          · rw [getType_removeType (by decide), first]
          · exact first
      obtain ⟨asPath, rfl, four, read⟩ := pathRead_first each first
      rw [loopExact_of_first kept, four]
      exact wide_exact fun seg listed => (read seg listed).wide

end Normalised

section Messages

variable {fuel : Nat} {header shown : BGPHeader} {pkt : Bytes} {peerAttrs : BGPPeerAttrs}
  {body update : BGPUpdate}

/-- An UPDATE that was delivered has been decoded and then normalised. -/
theorem messageDecode_update (delivered : BGPMessage.decode fuel header pkt peerAttrs =
    .ok ⟨shown, some (.updateBody update)⟩) :
    ∃ body, BGPUpdate.decode fuel header pkt peerAttrs = .ok body ∧
      normalizeASPath fuel body = .ok update := by
  rw [BGPMessage.decode] at delivered
  split at delivered
  · obtain ⟨_, _, same⟩ := bind_eq_ok.mp delivered
    cases same
  split at delivered
  · cases delivered
  split at delivered
  · obtain ⟨body, decoded, delivered⟩ := bind_eq_ok.mp delivered
    rw [bind_eq_ok] at delivered
    obtain ⟨_, normalized, same⟩ := delivered
    cases same
    exact ⟨body, decoded, normalized⟩
  split at delivered
  · obtain ⟨_, _, same⟩ := bind_eq_ok.mp delivered
    cases same
  · cases delivered

/-- The search is exact on a message that was delivered exactly when the attributes received in it
    are among those described. -/
theorem hasASLoop_exact_iff (known : peerAttrs.asSize = 2 ∨ peerAttrs.asSize = 4)
    (decoded : BGPUpdate.decode fuel header pkt peerAttrs = .ok body)
    (delivered : BGPMessage.decode fuel header pkt peerAttrs =
      .ok ⟨shown, some (.updateBody update)⟩) (localAS : UInt32) :
    LoopExact update.pathAttributes localAS ↔
      LoopFaithful peerAttrs.asSize body.pathAttributes localAS := by
  obtain ⟨other, again, normalized⟩ := messageDecode_update delivered
  rw [decoded] at again
  cases again
  rw [normalizeASPath] at normalized
  split at normalized
  · rename_i noBytes
    cases normalized
    rw [updateDecode_empty decoded noBytes]
    refine ⟨fun _ => .inr ?_, fun _ => loopExact_of_none rfl⟩
    intro found last collected listed
    cases collected
    cases listed
  · obtain ⟨after, done, same⟩ := bind_eq_ok.mp normalized
    cases same
    exact normalizePathAttrs_exact_iff known (updateDecode_pathRead decoded) done

/-- A message that has one AS_PATH attribute, with the one number 65001. -/
def narrowPathMessage : Bytes := [0, 0, 0, 7, 0x40, 2, 4, 2, 1, 0xfd, 0xe9]

/-- The message with a path in the given form. -/
def narrowPathUpdate (base : BGPPathAttrBase) (seg : BGPASPathSegment) (asSize : UInt8) :
    BGPUpdate where
  withdrawnRoutesLen := 0
  withdrawnRoutes := []
  totalPathAttrLen := 7
  pathAttributes := [.asPath { toBGPPathAttrBase := base, value := [seg], asSize := asSize }]
  nlri := []

/-- The path is received in two-byte numbers. -/
def narrowPathReceived : BGPUpdate :=
  narrowPathUpdate ⟨0x40, 2, 4, 3⟩ (.as2 ⟨⟨2, 1, 4⟩, [65001]⟩) 2

/-- The path is delivered in four-byte numbers, without an AS size. -/
def narrowPathDelivered : BGPUpdate :=
  narrowPathUpdate ⟨0x50, 2, 6, 4⟩ (.as4 ⟨⟨2, 1, 6⟩, [65001]⟩) 0

/-- A path that is widened and holds a number is not searched exactly. -/
theorem hasASLoop_narrowPath_inexact : ¬ LoopExact narrowPathDelivered.pathAttributes 65001 := by
  have decoded : BGPUpdate.decode 8 ⟨30, 2⟩ narrowPathMessage ⟨2, false⟩ =
      .ok narrowPathReceived := by decide +kernel
  have delivered : BGPMessage.decode 8 ⟨30, 2⟩ narrowPathMessage ⟨2, false⟩ =
      .ok ⟨⟨30, 2⟩, some (.updateBody narrowPathDelivered)⟩ := by decide +kernel
  rw [hasASLoop_exact_iff (.inl rfl) decoded delivered 65001]
  rintro (four | faithful)
  · exact absurd four (by decide)
  · have empty := faithful _ _ rfl rfl
    exact absurd empty (cons_ne_nil _ _)

/-- The message is accepted, and searching what is delivered fails a type assertion. -/
theorem hasASLoop_narrowPath_panics : BGPMessage.decode 8 ⟨30, 2⟩ narrowPathMessage ⟨2, false⟩ =
        .ok ⟨⟨30, 2⟩, some (.updateBody narrowPathDelivered)⟩ ∧
      hasASLoop narrowPathDelivered.pathAttributes 65001 = .panic := by
  decide +kernel

end Messages

end FlexSwitch.Packet
