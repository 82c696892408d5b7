import FlexSwitch.Packet.UpdateScan

/-! When decoding an UPDATE body ends, and when it comes back without a panic. -/

namespace FlexSwitch.Packet

open Go Outcome

/-- The lengths an UPDATE body starts with are accepted, and so are the withdrawn routes. -/
structure AttrsBegin (header : BGPHeader) (pkt : Bytes) (peerAttrs : BGPPeerAttrs)
    (withdrawnLen attrLen : UInt16) : Prop where
  first : (uint16 pkt : Call UInt16) = .ok withdrawnLen
  fits : withdrawnLen.toNat + 23 ≤ header.length.toNat
  withdrawn : ∃ fuel routes, decodeNLRI fuel (pkt.drop 2) withdrawnLen.toUInt32 afiIP peerAttrs =
    .ok (routes, withdrawnLen.toUInt32)
  second : (uint16 (pkt.drop (2 + withdrawnLen.toNat)) : Call UInt16) = .ok attrLen
  bounded : attrLen.toNat + withdrawnLen.toNat + 23 ≤ header.length.toNat

/-- Where the attribute loop starts. -/
def attrsOrigin (withdrawnLen attrLen : UInt16) : AttrCursor :=
  ⟨2 + withdrawnLen.toUInt32 + 2, attrLen.toNat, []⟩

/-- Reading two bytes through a slice is reading them in place. -/
theorem uint16_slice (pkt : Bytes) (low : Nat) :
    (slice pkt low (low + 2) >>= uint16 : Call UInt16) = uint16 (pkt.drop low) := by
  by_cases room : low + 2 ≤ pkt.length
  · rw [slice_of_le (by omega) room, ok_bind, Nat.add_sub_cancel_left]
    have long : 2 ≤ (pkt.drop low).length := by
      rw [List.length_drop]
      omega
    match pkt.drop low, long with
    | _ :: _ :: _, _ => rfl
  · have short : (pkt.drop low).length < 2 := by
      rw [List.length_drop]
      omega
    have panics : (uint16 (pkt.drop low) : Call UInt16) = .panic := by
      match pkt.drop low, short with
      | [], _ => rfl
      | [_], _ => rfl
    rw [panics, slice, if_neg (by omega), panic_bind]

theorem attrsOrigin_ptr (wdLen attrLen : UInt16) :
    (attrsOrigin wdLen attrLen).ptr.toNat = 4 + wdLen.toNat := by
  have bound := wdLen.toNat_lt
  simp only [attrsOrigin, UInt32.toNat_add, UInt16.toNat_toUInt32, UInt32.reduceToNat]
  omega

section Decode

variable {header : BGPHeader} {pkt : Bytes} {peerAttrs : BGPPeerAttrs} {fuel : Nat}

/-- The withdrawn routes are read up to their length, or the message is refused. -/
theorem decodeWithdrawn_cases (peerAttrs : BGPPeerAttrs) (length : UInt16)
    (small : pkt.length < 2 ^ 32) (room : pkt.length < fuel) (two : 2 ≤ pkt.length) :
    (∃ routes, decodeNLRI fuel (pkt.drop 2) length.toUInt32 afiIP peerAttrs =
        .ok (routes, length.toUInt32) ∧
      decodeWithdrawn fuel pkt length.toUInt32 peerAttrs = .ok (routes, length.toUInt32)) ∨
    (∀ other routes, decodeNLRI other (pkt.drop 2) length.toUInt32 afiIP peerAttrs ≠
        .ok (routes, length.toUInt32)) ∧
      decodeWithdrawn fuel pkt length.toUInt32 peerAttrs = .error malformedAttributes := by
  have shorter : (pkt.drop 2).length ≤ pkt.length := by simp
  have safe : PrefixesSafe (pkt.drop 2) length.toUInt32.toNat afiIP peerAttrs.addPathsRxActual :=
    prefixesSafe_of_known rfl
  have returned : (decodeNLRI fuel (pkt.drop 2) length.toUInt32 afiIP peerAttrs).Returns :=
    decodeNLRI_returns (by omega) (by omega) safe
  cases decoded : decodeNLRI fuel _ length.toUInt32 afiIP peerAttrs with
  | ok result =>
    left
    obtain ⟨routes, ptr⟩ := result
    obtain ⟨rfl, _⟩ := decodeNLRI_ok decoded
    exact ⟨routes, rfl, by simp [decodeWithdrawn, sliceFrom_of_le two, decoded]⟩
  | error fault =>
    right
    refine ⟨?_, by simp [decodeWithdrawn, sliceFrom_of_le two, decoded]⟩
    -- Another budget with an answer would have given the same one.
    intro other routes success
    have same := (steady_decodeNLRI (pkt.drop 2) length.toUInt32 afiIP peerAttrs).agree
      (show decodeNLRI other _ _ _ _ ≠ .hang by simp [success])
      (show decodeNLRI fuel _ _ _ _ ≠ .hang by simp [decoded])
    simp [success, decoded] at same
  | panic | hang => simp [decoded] at returned

/-- From its second length on, a message is refused, cut short, or comes to the attribute loop. -/
theorem decodeAttrs_cases (wdLen : UInt16) (routes : List NLRI) :
    (pkt.length < 4 + wdLen.toNat ∧
      (uint16 (pkt.drop (2 + wdLen.toNat)) : Call UInt16) = .panic ∧
      BGPUpdate.decodeAttrs fuel header pkt peerAttrs wdLen routes
        (2 + wdLen.toUInt32) = .panic) ∨
    ∃ attrLen, (uint16 (pkt.drop (2 + wdLen.toNat)) : Call UInt16) = .ok attrLen ∧
      BGPUpdate.decodeAttrs fuel header pkt peerAttrs wdLen routes
        (2 + wdLen.toUInt32) =
        if header.length.toNat < attrLen.toNat + wdLen.toNat + 23 then
          .error malformedAttributes
        else loop (attrRound pkt peerAttrs fuel) fuel (attrsOrigin wdLen attrLen) >>=
          BGPUpdate.decodeReachable fuel header pkt peerAttrs wdLen attrLen routes := by
  have bound := wdLen.toNat_lt
  have start : (2 + wdLen.toUInt32).toNat = 2 + wdLen.toNat := by
    rw [UInt32.toNat_add, UInt16.toNat_toUInt32]
    simp only [UInt32.reduceToNat]
    omega
  have stop : (2 + wdLen.toUInt32 + 2).toNat = 2 + wdLen.toNat + 2 := by
    rw [UInt32.toNat_add, start]
    simp only [UInt32.reduceToNat]
    omega
  have same : header.len.toNat = header.length.toNat := UInt16.toNat_toUInt32 _
  have second := uint16_slice pkt (2 + wdLen.toNat)
  unfold BGPUpdate.decodeAttrs
  rw [start, stop, ← bind_assoc, second, same]
  by_cases four : 4 + wdLen.toNat ≤ pkt.length
  · right
    obtain ⟨attrLen, read⟩ : ∃ value, (uint16 (pkt.drop (2 + wdLen.toNat)) : Call UInt16) =
        .ok value := by
      apply uint16_of_le
      rw [List.length_drop]
      omega
    refine ⟨attrLen, read, ?_⟩
    rw [read, ok_bind]
    rfl
  · left
    have panics : (uint16 (pkt.drop (2 + wdLen.toNat)) : Call UInt16) = .panic := by
      rw [← second, slice, if_neg (by omega), panic_bind]
    exact ⟨by omega, panics, by rw [panics, panic_bind]⟩

/-- Decoding is refused, or finds the buffer too short, or comes to the attribute loop. -/
theorem update_decode_cases (header : BGPHeader) (peerAttrs : BGPPeerAttrs)
    (small : pkt.length < 2 ^ 32) (room : pkt.length < fuel) :
    ((∀ wdLen attrLen, ¬ AttrsBegin header pkt peerAttrs wdLen attrLen) ∧
      ((∃ fault, BGPUpdate.decode fuel header pkt peerAttrs = .error fault) ∨
        (pkt.length < 4 ∨ pkt.length + 19 < header.length.toNat) ∧
          BGPUpdate.decode fuel header pkt peerAttrs = .panic)) ∨
    ∃ wdLen attrLen routes, AttrsBegin header pkt peerAttrs wdLen attrLen ∧
      BGPUpdate.decode fuel header pkt peerAttrs =
        loop (attrRound pkt peerAttrs fuel) fuel (attrsOrigin wdLen attrLen) >>=
          BGPUpdate.decodeReachable fuel header pkt peerAttrs wdLen attrLen routes := by
  have front := uint16_slice pkt 0
  rw [zero_add, List.drop_zero] at front
  have decode : BGPUpdate.decode fuel header pkt peerAttrs =
      (uint16 pkt : Call UInt16) >>= fun wdLen =>
        if wdLen.toUInt32 + 23 > header.len then .error malformedAttributes
        else decodeWithdrawn fuel pkt wdLen.toUInt32 peerAttrs >>= fun routes =>
          BGPUpdate.decodeAttrs fuel header pkt peerAttrs wdLen routes.1
            (2 + routes.2) := by
    rw [← front, bind_assoc]
    rfl
  by_cases two : 2 ≤ pkt.length
  · obtain ⟨wdLen, read⟩ : ∃ value, (uint16 pkt : Call UInt16) = .ok value :=
      uint16_of_le two
    -- Both lengths are functions of the buffer, so a beginning has this first one.
    have begins : ∀ other attrLen, AttrsBegin header pkt peerAttrs other attrLen →
        other = wdLen := by
      intro other attrLen begun
      exact ok.inj (begun.first.symm.trans read)
    rw [decode, read, ok_bind]
    have wide : wdLen.toUInt32 + 23 > header.len ↔
        header.length.toNat < wdLen.toNat + 23 := by
      have bound := wdLen.toNat_lt
      rw [gt_iff_lt, UInt32.lt_iff_toNat_lt, UInt32.toNat_add, BGPHeader.len]
      simp only [UInt16.toNat_toUInt32, UInt32.reduceToNat]
      omega
    by_cases fits : wdLen.toNat + 23 ≤ header.length.toNat
    · rw [if_neg (by rw [wide]; omega)]
      rcases decodeWithdrawn_cases peerAttrs wdLen small room two with
        ⟨routes, decoded, withdrawn⟩ | ⟨refused, withdrawn⟩
      · rw [withdrawn, ok_bind]
        rcases decodeAttrs_cases wdLen routes with ⟨cut, panics, stopped⟩ |
          ⟨attrLen, second, same⟩
        · left
          refine ⟨?_, .inr ⟨by omega, stopped⟩⟩
          intro other attrLen begun
          obtain rfl := begins other attrLen begun
          cases panics.symm.trans begun.second
        · by_cases bounded : attrLen.toNat + wdLen.toNat + 23 ≤ header.length.toNat
          · right
            refine ⟨wdLen, attrLen, routes,
              ⟨read, fits, ⟨fuel, routes, decoded⟩, second, bounded⟩, ?_⟩
            exact same.trans (if_neg (by omega))
          · left
            refine ⟨?_, .inl ⟨_, same.trans (if_pos (by omega))⟩⟩
            intro other otherLen begun
            obtain rfl := begins other otherLen begun
            obtain rfl := ok.inj (second.symm.trans begun.second)
            exact bounded begun.bounded
      · left
        refine ⟨?_, .inl ⟨_, by rw [withdrawn, error_bind]⟩⟩
        intro other attrLen begun
        obtain rfl := begins other attrLen begun
        obtain ⟨otherFuel, routes, success⟩ := begun.withdrawn
        exact refused otherFuel routes success
    · left
      refine ⟨?_, .inl ⟨_, if_pos (by rw [wide]; omega)⟩⟩
      intro other attrLen begun
      obtain rfl := begins other attrLen begun
      exact fits begun.fits
  · left
    have panics : (uint16 pkt : Call UInt16) = .panic := by
      rw [← front, slice, if_neg (by omega), panic_bind]
    refine ⟨?_, .inr ⟨by omega, by rw [decode, panics, panic_bind]⟩⟩
    intro wdLen attrLen begun
    cases panics.symm.trans begun.first

/-- More budget never changes how a message was decoded. -/
theorem steady_updateDecode (header : BGPHeader) (pkt : Bytes) (peerAttrs : BGPPeerAttrs) :
    Steady fun fuel => BGPUpdate.decode fuel header pkt peerAttrs := by
  have rounds : ∀ cursor, Steady fun fuel => attrRound pkt peerAttrs fuel cursor := by
    intro cursor
    refine Steady.ite (Steady.after fun rest => ?_) (steady_const _)
    exact (steady_attrDecode rest peerAttrs).bind fun _ => steady_const _
  have reachable : ∀ wdLen attrLen routes cursor, Steady fun fuel =>
      BGPUpdate.decodeReachable fuel header pkt peerAttrs wdLen attrLen routes cursor :=
    fun _ _ _ _ => Steady.after fun _ =>
      (steady_decodeNLRI _ _ _ _).bind fun _ => steady_const _
  have attrs : ∀ wdLen routes ptr, Steady fun fuel =>
      BGPUpdate.decodeAttrs fuel header pkt peerAttrs wdLen routes ptr := by
    intro wdLen routes ptr
    refine Steady.after fun _ => Steady.after fun attrLen => ?_
    exact Steady.ite (steady_const _) ((steady_loop rounds _).bind fun cursor => reachable _ _ _ _)
  refine Steady.after fun _ => Steady.after fun _ => ?_
  refine Steady.ite (steady_const _) (Steady.bind ?_ fun _ => attrs _ _ _)
  exact Steady.after fun _ => (steady_decodeNLRI _ _ _ _).withError _

end Decode

/-- A position at which the attribute loop of this message goes to read an attribute. -/
def AttrReached (header : BGPHeader) (pkt : Bytes) (peerAttrs : BGPPeerAttrs)
    (position : Nat) : Prop :=
  ∃ withdrawnLen attrLen : UInt16, AttrsBegin header pkt peerAttrs withdrawnLen attrLen ∧
    AttrAt pkt peerAttrs (4 + withdrawnLen.toNat + attrLen.toNat) (4 + withdrawnLen.toNat)
      position ∧
    position < 4 + withdrawnLen.toNat + attrLen.toNat

/-- A budget of loop rounds that is enough for any one message. -/
def updateBudget (pkt : Bytes) : Nat := pkt.length + attrBudget

variable {cursor : AttrCursor}

section AttrLoop

variable {pkt : Bytes} {peerAttrs : BGPPeerAttrs} {fuel : Nat} {wdLen attrLen : UInt16}

/-- With bytes left, a round decodes at its cursor; past the buffer both panic alike. -/
theorem attrRound_reads (left : 0 < cursor.length) : attrRound pkt peerAttrs fuel cursor =
      BGPPathAttr.decode fuel (pkt.drop cursor.ptr.toNat) peerAttrs >>= fun attr =>
        .ok (.next ⟨cursor.ptr + attr.totalLen, cursor.length - attr.totalLen.toNat,
          cursor.pathAttributes ++ [attr]⟩) := by
  rw [attrRound, if_pos left]
  by_cases inside : cursor.ptr.toNat ≤ pkt.length
  · rw [sliceFrom_of_le inside, ok_bind]
    rfl
  · rw [List.drop_eq_nil_of_le (by omega)]
    simp [sliceFrom, inside, BGPPathAttr.decode, index]

/-- Without bytes left a round only checks that none are missing. -/
theorem attrRound_ended (done : ¬ 0 < cursor.length) :
    (attrRound pkt peerAttrs fuel cursor).Returns := by
  rw [attrRound, if_neg done]
  simp

theorem attrsOrigin_placed (wdLen attrLen : UInt16) :
    (attrsOrigin wdLen attrLen).Placed (4 + wdLen.toNat + attrLen.toNat) := by
  rw [AttrCursor.Placed, attrsOrigin_ptr]
  simp [attrsOrigin]

/-- The attributes of any message end far below the cursor's range. -/
theorem attrsEnd_lt (wdLen attrLen : UInt16) :
    4 + wdLen.toNat + attrLen.toNat < 2 ^ 31 := by
  have first := wdLen.toNat_lt
  have second := attrLen.toNat_lt
  omega

/-- The loop over the attributes walks to the position, and has bytes left there. -/
def AttrStands (pkt : Bytes) (peerAttrs : BGPPeerAttrs) (withdrawnLen attrLen : UInt16)
    (position : Nat) : Prop :=
  AttrAt pkt peerAttrs (4 + withdrawnLen.toNat + attrLen.toNat) (4 + withdrawnLen.toNat) position ∧
    position < 4 + withdrawnLen.toNat + attrLen.toNat

/-- The cursors the loop reaches with bytes left are the positions of the walk. -/
theorem attrStands_of_cursor
    (reached : Reaches (attrRound pkt peerAttrs fuel) (attrsOrigin wdLen attrLen) cursor)
    (left : 0 < cursor.length) :
    AttrStands pkt peerAttrs wdLen attrLen cursor.ptr.toNat := by
  have near := attrsEnd_lt wdLen attrLen
  have begun := attrsOrigin_placed wdLen attrLen
  have walked := attrAt_of_reaches near begun reached
  have placed := attrRound_placed near begun reached
  rw [attrsOrigin_ptr] at walked
  unfold AttrCursor.Placed at placed
  exact ⟨walked, by omega⟩

/-- A loop whose rounds all end comes to every position of the walk. -/
theorem cursor_of_attrStands {position : Nat}
    (ended : ∀ cursor, Reaches (attrRound pkt peerAttrs fuel)
      (attrsOrigin wdLen attrLen) cursor → attrRound pkt peerAttrs fuel cursor ≠ .hang)
    (stands : AttrStands pkt peerAttrs wdLen attrLen position) :
    ∃ cursor, Reaches (attrRound pkt peerAttrs fuel) (attrsOrigin wdLen attrLen) cursor ∧
      cursor.ptr.toNat = position ∧ 0 < cursor.length := by
  have within := stands.2
  have near := attrsEnd_lt wdLen attrLen
  have begun := attrsOrigin_placed wdLen attrLen
  obtain ⟨cursor, reached, here⟩ := reaches_of_attrAt near begun (by
    intro cursor reached left stuck
    apply ended cursor reached
    rw [attrRound_reads left, stuck, hang_bind]) (by rw [attrsOrigin_ptr]; exact stands.1)
    within
  have placed := attrRound_placed near begun reached
  unfold AttrCursor.Placed at placed
  exact ⟨cursor, reached, here, by omega⟩

/-- The attribute loop keeps going exactly when it comes to an attribute that stalls. -/
theorem attrLoop_hang_iff (small : pkt.length < 2 ^ 32) (enough : updateBudget pkt ≤ fuel) :
    loop (attrRound pkt peerAttrs fuel) fuel (attrsOrigin wdLen attrLen) = .hang ↔
      ∃ position, AttrStands pkt peerAttrs wdLen attrLen position ∧
        AttrStalls (pkt.drop position) peerAttrs.asSize := by
  unfold updateBudget attrBudget at enough
  have stalls : ∀ position, BGPPathAttr.decode fuel (pkt.drop position) peerAttrs = .hang ↔
      AttrStalls (pkt.drop position) peerAttrs.asSize := by
    intro position
    have shorter : (pkt.drop position).length ≤ pkt.length := by simp
    exact attrDecode_hang_iff (by omega) (by unfold attrBudget; omega) (by omega)
  constructor
  · intro stuck
    by_contra clear
    -- Without a stalling attribute every round ends and uses up bytes.
    refine loop_ne_hang (fun cursor => cursor.length.toNat) ?_ ?_ ?_ stuck
    · intro state later _ advanced
      exact attrRound_shrinks advanced
    · intro cursor reached hung
      by_cases left : 0 < cursor.length
      · rw [attrRound_reads left, bind_eq_hang] at hung
        simp only [reduceCtorEq, and_false, exists_false, or_false] at hung
        exact clear ⟨_, attrStands_of_cursor reached left, (stalls _).mp hung⟩
      · exact ((returns_iff _).mp (attrRound_ended left)).2 hung
    · have bound := attrLen.toNat_lt
      simp only [attrsOrigin, Int.toNat_natCast]
      omega
  · rintro ⟨position, stands, stalling⟩
    by_contra ended
    obtain ⟨cursor, reached, rfl, left⟩ :=
      cursor_of_attrStands (fun _ reached => reached.round_ne_hang ended) stands
    apply reached.round_ne_hang ended
    rw [attrRound_reads left, (stalls _).mpr stalling, hang_bind]

/-- The attribute loop comes back exactly when every attribute it comes to is safe. -/
theorem attrLoop_returns_iff (small : pkt.length < 65532) (enough : updateBudget pkt ≤ fuel) :
    (loop (attrRound pkt peerAttrs fuel) fuel (attrsOrigin wdLen attrLen)).Returns ↔
      ∀ position, AttrStands pkt peerAttrs wdLen attrLen position →
        AttrSafe (pkt.drop position) peerAttrs := by
  unfold updateBudget attrBudget at enough
  have safe : ∀ position, (BGPPathAttr.decode fuel (pkt.drop position) peerAttrs).Returns ↔
      AttrSafe (pkt.drop position) peerAttrs := by
    intro position
    have shorter : (pkt.drop position).length ≤ pkt.length := by simp
    exact attrDecode_returns_iff (by omega) (by unfold attrBudget; omega)
  have rounds : ∀ cursor : AttrCursor, 0 < cursor.length →
      ((attrRound pkt peerAttrs fuel cursor).Returns ↔
        AttrSafe (pkt.drop cursor.ptr.toNat) peerAttrs) := by
    intro cursor left
    rw [attrRound_reads left, bind_returns, safe]
    simp
  rw [loop_returns_iff (fun cursor => cursor.length.toNat)
    (fun _ _ _ advanced => attrRound_shrinks advanced) (by
      have bound := attrLen.toNat_lt
      simp only [attrsOrigin, Int.toNat_natCast]
      omega)]
  constructor
  · intro returned position stands
    obtain ⟨cursor, reached, rfl, left⟩ := cursor_of_attrStands
      (fun cursor reached => ((returns_iff _).mp (returned cursor reached)).2) stands
    exact (rounds cursor left).mp (returned cursor reached)
  · intro safeAt cursor reached
    by_cases left : 0 < cursor.length
    · exact (rounds cursor left).mpr (safeAt _ (attrStands_of_cursor reached left))
    · exact attrRound_ended left

end AttrLoop

variable {header : BGPHeader} {pkt : Bytes} {peerAttrs : BGPPeerAttrs}

/-- The lengths in front of the attributes are read off the buffer, so there is one beginning. -/
theorem AttrsBegin.unique {wdLen attrLen otherLen otherAttrLen : UInt16}
    (begins : AttrsBegin header pkt peerAttrs wdLen attrLen)
    (other : AttrsBegin header pkt peerAttrs otherLen otherAttrLen) :
    wdLen = otherLen ∧ attrLen = otherAttrLen := by
  have first := begins.first.symm.trans other.first
  cases first
  have second := begins.second.symm.trans other.second
  cases second
  exact ⟨rfl, rfl⟩

/-- Decoding with enough budget keeps going exactly when a stalling attribute is reached. -/
theorem updateDecode_hang_iff (header : BGPHeader) (peerAttrs : BGPPeerAttrs)
    {fuel : Nat} (small : pkt.length < 2 ^ 32) (enough : updateBudget pkt ≤ fuel) :
    BGPUpdate.decode fuel header pkt peerAttrs = .hang ↔
      ∃ position, AttrReached header pkt peerAttrs position ∧
        AttrStalls (pkt.drop position) peerAttrs.asSize := by
  have room : pkt.length < fuel := by
    unfold updateBudget attrBudget at enough
    omega
  rcases update_decode_cases header peerAttrs small room with
    ⟨never, ended⟩ | ⟨wdLen, attrLen, routes, begins, decode⟩
  · -- The attribute loop is not entered, and nothing else can keep going.
    refine iff_of_false ?_ ?_
    · rcases ended with ⟨fault, refused⟩ | ⟨_, panics⟩
      · simp [refused]
      · simp [panics]
    · rintro ⟨position, ⟨wdLen, attrLen, begins, _⟩, _⟩
      exact never wdLen attrLen begins
  · have tail : ∀ cursor, BGPUpdate.decodeReachable fuel header pkt peerAttrs wdLen attrLen
        routes cursor ≠ .hang := fun cursor =>
      bind_ne_hang (by simp) fun _ sliced =>
        bind_ne_hang (nlri_ne_hang small room sliced) fun _ _ => by simp
    rw [decode, bind_eq_hang, attrLoop_hang_iff small enough]
    constructor
    · rintro (⟨position, stands, stalling⟩ | ⟨cursor, _, stuck⟩)
      · exact ⟨position, ⟨wdLen, attrLen, begins, stands⟩, stalling⟩
      · exact absurd stuck (tail cursor)
    · rintro ⟨position, ⟨otherLen, otherAttrLen, other, stands⟩, stalling⟩
      obtain ⟨rfl, rfl⟩ := other.unique begins
      exact .inl ⟨position, stands, stalling⟩

/-- A stalling attribute keeps the decoder going on any budget. -/
theorem updateDecode_hang {position : Nat} (small : pkt.length < 2 ^ 32)
    (reached : AttrReached header pkt peerAttrs position)
    (stalling : AttrStalls (pkt.drop position) peerAttrs.asSize) (fuel : Nat) :
    BGPUpdate.decode fuel header pkt peerAttrs = .hang := by
  by_contra ended
  -- An answer would survive at the larger of this budget and one that is known to be enough.
  have same := steady_updateDecode header pkt peerAttrs fuel (max fuel (updateBudget pkt))
    (le_max_left _ _) ended
  have stuck := (updateDecode_hang_iff header peerAttrs small (le_max_right fuel _)).mpr
    ⟨position, reached, stalling⟩
  simp only at same
  exact ended (same.symm.trans stuck)

/-- Each loop that decoding this attribute enters moves on by at least one byte a round. -/
structure AttrAdvances (pkt : Bytes) (peerAttrs : BGPPeerAttrs) : Prop where
  attr : ∀ fuel attr, BGPPathAttr.decode fuel pkt peerAttrs = .ok attr → 0 < attr.totalLen.toNat
  asPath : ∀ base, BGPPathAttrBase.decode pkt = .ok base → base.code = attrTypeASPath →
    SegmentsAdvance (BGPASPathSegment.decode peerAttrs.asSize) BGPASPathSegment.totalLen base pkt
  as4Path : ∀ base, BGPPathAttrBase.decode pkt = .ok base → base.code = attrTypeAS4Path →
    SegmentsAdvance BGPAS4PathSegment.decode (fun seg => seg.bgpASPathSegmentLen) base pkt

/-- The attribute loop, the segment loops and the prefix loop of a message all move on. -/
structure LoopsAdvance (header : BGPHeader) (pkt : Bytes) (peerAttrs : BGPPeerAttrs) : Prop where
  attrs : ∀ position, AttrReached header pkt peerAttrs position →
    AttrAdvances (pkt.drop position) peerAttrs
  prefixes : ∀ start length afi cursor later,
    nlriRound (pkt.drop start) length afi peerAttrs cursor = .ok (.next later) →
    cursor.ptr.toNat < later.ptr.toNat

/-- Only the segments of a two-byte AS_PATH can keep an attribute's decoder in place. -/
theorem attrAdvances_iff (pkt : Bytes) (peerAttrs : BGPPeerAttrs) :
    AttrAdvances pkt peerAttrs ↔ ¬ AttrStalls pkt peerAttrs.asSize := by
  constructor
  · rintro advances ⟨base, decoded, code, stalls⟩
    exact (segmentsAdvance_iff _ _ _).mp (advances.asPath base decoded code) stalls
  · intro clear
    refine ⟨?_, ?_, ?_⟩
    · intro fuel attr decoded
      have size := (attrDecode_totalLen decoded).1
      omega
    · intro base decoded code
      rw [segmentsAdvance_iff]
      exact fun stalls => clear ⟨base, decoded, code, stalls⟩
    · intro base _ _ position seg _ _ read
      exact as4Segment_advances read

/--
All loops of the decoder move on and it ends, exactly when no AS_PATH it comes to stalls.

A two-byte segment of 127 or 255 numbers is measured as zero bytes long in the source's eight-bit
arithmetic, and the segment loop then reads it for ever.
-/
theorem update_decode_terminates_iff (header : BGPHeader) (pkt : Bytes) (peerAttrs : BGPPeerAttrs)
    (small : pkt.length < 2 ^ 32) :
    (LoopsAdvance header pkt peerAttrs ∧
      ∃ fuel, BGPUpdate.decode fuel header pkt peerAttrs ≠ .hang) ↔
    ∀ position, AttrReached header pkt peerAttrs position →
      ¬ AttrStalls (pkt.drop position) peerAttrs.asSize := by
  constructor
  · rintro ⟨_, fuel, ended⟩ position reached stalling
    exact ended (updateDecode_hang small reached stalling fuel)
  · intro clear
    refine ⟨⟨?_, ?_⟩, updateBudget pkt, ?_⟩
    · intro position reached
      exact (attrAdvances_iff _ _).mpr (clear position reached)
    · intro start length afi cursor later advanced
      have shorter : (pkt.drop start).length ≤ pkt.length := by simp
      obtain ⟨nlri, _, _, positive, moved, _⟩ := nlriRound_next (by omega) advanced
      omega
    · rw [Ne, updateDecode_hang_iff header peerAttrs small (le_refl _)]
      rintro ⟨position, reached, stalling⟩
      exact clear position reached stalling

/-- The body of an UPDATE that withdraws 10.0.0.0/8 and announces 10.1.2.0/24 over two hops. -/
def twoHopUpdate : Bytes :=
  [0, 2, 8, 10] ++ [0, 13] ++ [0x40, 1, 1, 0] ++ [0x40, 2, 6] ++ [2, 2, 0xfd, 0xe9, 0xfd, 0xea] ++
    [24, 10, 1, 2]

/-- Withdrawn routes, an ORIGIN, an AS_PATH of one segment and a prefix: all loops are entered. -/
theorem update_decode_terminates_twoHop :
    AttrReached ⟨42, bgpMsgTypeUpdate⟩ twoHopUpdate ⟨2, false⟩ 10 ∧
    (twoHopUpdate.drop 10)[1]? = some attrTypeASPath ∧
    LoopsAdvance ⟨42, bgpMsgTypeUpdate⟩ twoHopUpdate ⟨2, false⟩ ∧
      ∃ fuel, BGPUpdate.decode fuel ⟨42, bgpMsgTypeUpdate⟩ twoHopUpdate ⟨2, false⟩ ≠ .hang := by
  have begins : AttrsBegin ⟨42, bgpMsgTypeUpdate⟩ twoHopUpdate ⟨2, false⟩ 2 13 :=
    ⟨rfl, by decide, ⟨2, [.ip ⟨8, [10, 0, 0, 0]⟩], by decide +kernel⟩, rfl, by decide⟩
  -- The AS_PATH stands behind the four bytes of the ORIGIN.
  have origin : BGPPathAttr.decode 1 (twoHopUpdate.drop 6) ⟨2, false⟩ =
      .ok (.origin ⟨⟨0x40, 1, 1, 3⟩, 0⟩) := by decide +kernel
  have walked : AttrAt twoHopUpdate ⟨2, false⟩ 19 6
      (6 + (BGPPathAttr.origin ⟨⟨0x40, 1, 1, 3⟩, 0⟩).totalLen.toNat) :=
    Walk.step Walk.start (by decide) ⟨1, origin⟩
  have reached : AttrReached ⟨42, bgpMsgTypeUpdate⟩ twoHopUpdate ⟨2, false⟩ 10 :=
    ⟨2, 13, begins, walked, by decide⟩
  refine ⟨reached, rfl, (update_decode_terminates_iff _ _ _ (by decide)).mpr ?_⟩
  -- A stalling path would leave no budget that is enough, and three rounds are.
  intro position found stalling
  exact absurd (updateDecode_hang (by decide) found stalling 3) (by decide +kernel)

/-- The body of an UPDATE whose AS_PATH is one sequence of 127 two-byte numbers. -/
def longPathUpdate : Bytes :=
  [0, 0, 1, 4] ++ [0x50, 2, 1, 0] ++ [2, 127] ++ List.replicate 254 0

/-- A well-formed path of 127 hops keeps the decoder reading its only segment over and over. -/
theorem update_decode_longPath_hangs :
    ¬ ∃ fuel, BGPUpdate.decode fuel ⟨283, bgpMsgTypeUpdate⟩ longPathUpdate ⟨2, false⟩ ≠ .hang := by
  have begins : AttrsBegin ⟨283, bgpMsgTypeUpdate⟩ longPathUpdate ⟨2, false⟩ 0 260 :=
    ⟨rfl, by decide, ⟨1, [], by decide +kernel⟩, rfl, by decide⟩
  have reached : AttrReached ⟨283, bgpMsgTypeUpdate⟩ longPathUpdate ⟨2, false⟩ 4 :=
    ⟨0, 260, begins, .start, by decide⟩
  intro ⟨fuel, ended⟩
  refine ended (updateDecode_hang (by decide +kernel) reached ?_ fuel)
  exact ⟨⟨0x50, 2, 256, 4⟩, by decide +kernel, rfl, by decide, 4, .start, by decide,
    by decide +kernel⟩

/-- Behind attributes that end inside the buffer, the plain prefixes are read or refused. -/
theorem decodeReachable_returns {fuel : Nat} {wdLen attrLen : UInt16} (routes : List NLRI)
    (inside : 4 + wdLen.toNat + attrLen.toNat ≤ pkt.length)
    (small : pkt.length < 2 ^ 32) (room : pkt.length < fuel)
    (ended : loop (attrRound pkt peerAttrs fuel) fuel (attrsOrigin wdLen attrLen) =
      .ok cursor) : (BGPUpdate.decodeReachable fuel header pkt peerAttrs wdLen attrLen routes
      cursor).Returns := by
  obtain ⟨last, reached, stopped⟩ := loop_eq_ok ended
  -- The loop stops with no bytes left, which puts the cursor at the end of the attributes.
  have placed := attrRound_placed (attrsEnd_lt wdLen attrLen)
    (attrsOrigin_placed wdLen attrLen) reached
  obtain ⟨rfl, done⟩ := attrRound_stop stopped
  have position : last.ptr.toNat ≤ pkt.length := by
    unfold AttrCursor.Placed at placed
    omega
  have shorter : (pkt.drop last.ptr.toNat).length ≤ pkt.length := by simp
  rw [BGPUpdate.decodeReachable, sliceFrom_of_le position, ok_bind, bind_returns]
  exact ⟨decodeNLRI_returns (by omega) (by omega) (prefixesSafe_of_known rfl), fun _ _ => by simp⟩

/-- With enough budget a message that fills its length comes back when its attributes are safe. -/
theorem updateDecode_returns_iff (peerAttrs : BGPPeerAttrs)
    {fuel : Nat} (least : 23 ≤ header.length.toNat)
    (filled : pkt.length = header.length.toNat - 19) (enough : updateBudget pkt ≤ fuel) :
    (BGPUpdate.decode fuel header pkt peerAttrs).Returns ↔
      ∀ position, AttrReached header pkt peerAttrs position →
        AttrSafe (pkt.drop position) peerAttrs := by
  have bound := header.length.toNat_lt
  have room : pkt.length < fuel := by
    unfold updateBudget attrBudget at enough
    omega
  rcases update_decode_cases header peerAttrs (by omega) room with
    ⟨never, ended⟩ | ⟨wdLen, attrLen, routes, begins, decode⟩
  · -- The buffer is long enough, so only a refusal can come before the attributes.
    refine iff_of_true ?_ ?_
    · rcases ended with ⟨fault, refused⟩ | ⟨short, _⟩
      · simp [refused]
      · omega
    · rintro position ⟨wdLen, attrLen, begins, _⟩
      exact absurd begins (never wdLen attrLen)
  · rw [decode, bind_returns, attrLoop_returns_iff (by omega) enough]
    constructor
    · rintro ⟨safe, _⟩ position ⟨otherLen, otherAttrLen, other, stands⟩
      obtain ⟨rfl, rfl⟩ := other.unique begins
      exact safe position stands
    · intro safe
      refine ⟨fun position stands => safe position ⟨wdLen, attrLen, begins, stands⟩, ?_⟩
      intro cursor ended
      have bounded := begins.bounded
      exact decodeReachable_returns routes (by omega) (by omega) room ended

/--
A message that fills its announced length is decoded without leaving the buffer, exactly when each
attribute the decoder comes to is safe to read.
-/
theorem update_decode_in_range_iff (header : BGPHeader) (pkt : Bytes) (peerAttrs : BGPPeerAttrs)
    (least : 23 ≤ header.length.toNat) (filled : pkt.length = header.length.toNat - 19) :
    (∃ fuel, (BGPUpdate.decode fuel header pkt peerAttrs).Returns) ↔
      ∀ position, AttrReached header pkt peerAttrs position →
        AttrSafe (pkt.drop position) peerAttrs := by
  constructor
  · rintro ⟨fuel, returned⟩
    -- A larger budget gives the answer this one gave.
    have ended := ((returns_iff _).mp returned).2
    have same := steady_updateDecode header pkt peerAttrs fuel (max fuel (updateBudget pkt))
      (le_max_left _ _) ended
    simp only at same
    rw [← same] at returned
    exact (updateDecode_returns_iff peerAttrs least filled (le_max_right _ _)).mp returned
  · intro safe
    exact ⟨updateBudget pkt, (updateDecode_returns_iff peerAttrs least filled (le_refl _)).mpr safe⟩

/-- An UPDATE whose only attribute is one stray byte. -/
def strayByteUpdate : Bytes := [0, 0, 0, 1, 0x40]

/-- The stray byte is not safe to read, and no budget brings the decoder back. -/
theorem update_decode_strayByte_not_in_range :
    ¬ ∃ fuel, (BGPUpdate.decode fuel ⟨24, bgpMsgTypeUpdate⟩ strayByteUpdate
      ⟨4, false⟩).Returns := by
  rw [update_decode_in_range_iff _ _ _ (by decide) (by decide)]
  intro safe
  have begins : AttrsBegin ⟨24, bgpMsgTypeUpdate⟩ strayByteUpdate ⟨4, false⟩ 0 1 :=
    ⟨rfl, by decide, ⟨1, [], by decide⟩, rfl, by decide⟩
  have long := (safe 4 ⟨0, 1, begins, .start, by decide⟩).code
  simp [strayByteUpdate] at long

/-- The type code behind the stray byte is read past the end of the buffer. -/
theorem update_decode_strayByte_panics :
    (fun fuel => BGPUpdate.decode (fuel + 1) ⟨24, bgpMsgTypeUpdate⟩ strayByteUpdate ⟨4, false⟩) =
      fun _ => .panic := by
  funext fuel
  rfl

end FlexSwitch.Packet
