import FlexSwitch.Fsm.Manager

/-! Whether two routers whose connections collide keep the same one. -/

namespace FlexSwitch.Fsm

open Go Packet

/-- The same connection as seen from its other end. -/
def ConnDir.opposite : ConnDir → ConnDir
  | connDirOut => connDirIn
  | connDirIn => connDirOut
  | connDirInvalid => connDirInvalid

/-- The connections that a manager's machines hold. -/
def FSMManager.connections (mgr : FSMManager) : List ConnDir :=
  mgr.fsms.filterMap fun entry => entry.2.peerConn

/--
Two connections with the neighbor are open, one each way.

The machine with the given id has the one it hears an OPEN message on, and the other machine is
still waiting for its session to be confirmed.
-/
structure Colliding (mgr : FSMManager) (id : UInt8) (connDir : ConnDir) : Prop where
  valid : connDir ≠ .connDirInvalid
  machines : ∃ own other otherId, otherId ≠ id ∧ mgr.fsms.Perm [(id, own), (otherId, other)] ∧
    own.peerConn = some connDir ∧ other.peerConn = some connDir.opposite ∧
    (other.state = .openSentState ∨ other.state = .openConfirmState)

section Conversion

/-- Two middle bytes are lost: only the first and the last one are compared. -/
theorem convertIPBytesToUint_eq (b0 b1 b2 b3 : UInt8) :
    convertIPBytesToUint [b0, b1, b2, b3] = .ok (b0.toUInt32 <<< 24 ||| b3.toUInt32) := by
  have lost : ∀ (byte : UInt8) (count : Nat), 8 ≤ count → byteShl byte count = 0 := by
    intro byte count far
    obtain ⟨more, rfl⟩ := Nat.exists_eq_add_of_le far
    apply UInt8.toNat_inj.mp
    rw [byteShl, UInt8.toNat_ofNat', pow_add]
    show byte.toNat * (256 * 2 ^ more) % 256 = 0
    rw [mul_left_comm, Nat.mul_mod_right]
  show Outcome.ok (b0.toUInt32 <<< 24 ||| (byteShl b1 16).toUInt32 ||| (byteShl b2 8).toUInt32 |||
    b3.toUInt32) = _
  rw [lost b1 16 (by decide), lost b2 8 (by decide)]
  simp

theorem shl_or_toNat (b0 b3 : UInt8) :
    (b0.toUInt32 <<< 24 ||| b3.toUInt32).toNat = b0.toNat * 2 ^ 24 + b3.toNat := by
  have high := b0.toNat_lt
  have low := b3.toNat_lt
  rw [UInt32.toNat_or, UInt32.toNat_shiftLeft, UInt8.toNat_toUInt32, UInt8.toNat_toUInt32]
  show (b0.toNat <<< 24 % 2 ^ 32) ||| b3.toNat = _
  rw [Nat.shiftLeft_eq, Nat.mod_eq_of_lt (by omega), ← Nat.shiftLeft_eq,
    ← Nat.shiftLeft_add_eq_or_of_lt (by omega)]

/-- Converted identifiers agree exactly when their first and last bytes do. -/
theorem shl_or_inj {b0 b3 c0 c3 : UInt8} :
    b0.toUInt32 <<< 24 ||| b3.toUInt32 = c0.toUInt32 <<< 24 ||| c3.toUInt32 ↔
      b0 = c0 ∧ b3 = c3 := by
  have small := b3.toNat_lt
  have smallToo := c3.toNat_lt
  rw [← UInt32.toNat_inj, shl_or_toNat, shl_or_toNat, ← UInt8.toNat_inj, ← UInt8.toNat_inj]
  omega

end Conversion

section Closing

variable {mgr : FSMManager} {id otherId : UInt8} {own other : FSM} {connDir : ConnDir}
  {localBGPId bgpIdInt : UInt32}

/-- The direction that is closed while the other session is still being set up. -/
def closedDir (localBGPId bgpIdInt : UInt32) : ConnDir :=
  if localBGPId > bgpIdInt then .connDirIn else .connDirOut

theorem closeDir_waiting
    (waiting : other.state = .openSentState ∨ other.state = .openConfirmState) :
    FSMManager.closeDir connDir localBGPId bgpIdInt other = closedDir localBGPId bgpIdInt := by
  rcases waiting with sent | confirmed
  · rw [FSMManager.closeDir, sent, if_neg (by decide), closedDir]
  · rw [FSMManager.closeDir, confirmed, if_neg (by decide), closedDir]

theorem closedDir_cases (valid : connDir ≠ .connDirInvalid) :
    closedDir localBGPId bgpIdInt = connDir ∨ closedDir localBGPId bgpIdInt = connDir.opposite := by
  unfold closedDir
  split
  · cases connDir <;> simp_all [ConnDir.opposite]
  · cases connDir <;> simp_all [ConnDir.opposite]

/-- The machine that holds the connection is closed, and the other one is left. -/
theorem fsmClose_connections (differ : otherId ≠ id) (valid : connDir ≠ .connDirInvalid)
    (two : mgr.fsms = [(id, own), (otherId, other)] ∨ mgr.fsms = [(otherId, other), (id, own)])
    (ownConn : own.peerConn = some connDir) (otherConn : other.peerConn = some connDir.opposite) :
    (mgr.fsmClose (mgr.getFSMIdByDir (closedDir localBGPId bgpIdInt))).connections =
      [(closedDir localBGPId bgpIdInt).opposite] := by
  have apart : connDir ≠ connDir.opposite := by
    cases connDir <;> simp_all [ConnDir.opposite]
  have back : connDir.opposite.opposite = connDir := by
    cases connDir <;> rfl
  -- The connection to close is the one heard on, or the other one, in either order of the map.
  have sides : closedDir localBGPId bgpIdInt = connDir ∨
      closedDir localBGPId bgpIdInt = connDir.opposite := closedDir_cases valid
  unfold FSMManager.connections FSMManager.fsmClose FSMManager.getFSMIdByDir FSMManager.find
  rcases sides with here | there
  · rcases two with fsms | fsms
    · simp [fsms, ownConn, otherConn, here, differ]
    · simp [fsms, ownConn, otherConn, here, differ, apart.symm]
  · rcases two with fsms | fsms
    · simp [fsms, ownConn, otherConn, there, differ.symm, apart, back]
    · simp [fsms, ownConn, otherConn, there, differ.symm, back]

/-- A router whose connections collide keeps one of them, by the converted identifiers. -/
theorem received_connections {openMsg : BGPOpen} (colliding : Colliding mgr id connDir)
    (ours : convertIPBytesToUint mgr.routerId = .ok localBGPId)
    (theirs : convertIPBytesToUint openMsg.bgpId = .ok bgpIdInt) :
    ∃ after answer, mgr.receivedBGPOpenMessage id connDir openMsg = .ok (after, answer) ∧
      after.connections = [(closedDir localBGPId bgpIdInt).opposite] := by
  obtain ⟨valid, own, other, otherId, differ, perm, ownConn, otherConn, waiting⟩ := colliding
  have two := List.perm_pair.mp perm
  have kept : (mgr.fsmClose (mgr.getFSMIdByDir (closedDir localBGPId bgpIdInt))).connections =
      [(closedDir localBGPId bgpIdInt).opposite] :=
    fsmClose_connections differ valid two ownConn otherConn
  have late : BGPFSMState.bgpFSMOpensent.number ≤ other.state.state.number := by
    rcases waiting with sent | confirmed
    · rw [sent]
      decide
    · rw [confirmed]
      decide
  -- The round for the machine itself does nothing, whether or not it has been closed.
  have itself : ∀ state : FSMManager × ConnDir,
      FSMManager.collide id connDir localBGPId bgpIdInt state id = state := by
    intro state
    unfold FSMManager.collide
    split
    · rfl
    · rw [if_neg fun both => both.1 rfl]
  have found : mgr.find otherId = some other := by
    rcases two with fsms | fsms
    · simp [FSMManager.find, fsms, differ.symm]
    · simp [FSMManager.find, fsms]
  have closing : FSMManager.collide id connDir localBGPId bgpIdInt (mgr, .connDirInvalid) otherId =
      (mgr.fsmClose (mgr.getFSMIdByDir (closedDir localBGPId bgpIdInt)),
        closedDir localBGPId bgpIdInt) := by
    rw [FSMManager.collide]
    rw [found]
    dsimp only
    rw [if_pos ⟨differ, late⟩, closeDir_waiting waiting]
  have folded : (mgr.fsms.map Prod.fst).foldl
      (FSMManager.collide id connDir localBGPId bgpIdInt) (mgr, .connDirInvalid) =
      (mgr.fsmClose (mgr.getFSMIdByDir (closedDir localBGPId bgpIdInt)),
        closedDir localBGPId bgpIdInt) := by
    rcases two with fsms | fsms
    · simp only [fsms, List.map_cons, List.map_nil, List.foldl_cons, itself, closing, List.foldl_nil]
    · simp only [fsms, List.map_cons, List.map_nil, List.foldl_cons, itself, closing, List.foldl_nil]
  rw [FSMManager.receivedBGPOpenMessage, ours, Outcome.ok_bind, theirs, Outcome.ok_bind, folded]
  dsimp only
  split
  · exact ⟨_, _, rfl, kept⟩
  · exact ⟨_, _, rfl, kept⟩

end Closing

section Agreement

variable {left right : FSMManager} {leftId rightId : UInt8} {leftDir rightDir : ConnDir}
  {toLeft toRight : BGPOpen}

/-- The two ends close the same connection unless their converted identifiers are equal. -/
theorem closedDir_opposite_iff (first second : UInt32) :
    closedDir second first = (closedDir first second).opposite ↔ first ≠ second := by
  unfold closedDir
  rcases lt_trichotomy first.toNat second.toNat with below | same | above
  · have below : first < second := UInt32.lt_iff_toNat_lt.mpr below
    have other : ¬ first > second := UInt32.lt_asymm below
    rw [if_pos (show second > first from below), if_neg other]
    exact ⟨fun _ => UInt32.ne_of_lt below, fun _ => rfl⟩
  · have same : first = second := UInt32.toNat_inj.mp same
    rw [same, if_neg (UInt32.lt_irrefl second)]
    exact ⟨fun equal => (nomatch equal), fun differ => absurd rfl differ⟩
  · have above : second < first := UInt32.lt_iff_toNat_lt.mpr above
    have other : ¬ second > first := UInt32.lt_asymm above
    rw [if_pos (show first > second from above), if_neg other]
    exact ⟨fun _ => (UInt32.ne_of_lt above).symm, fun _ => rfl⟩

/-- Each router keeps one connection, and it is the same one: incoming here, outgoing there. -/
def OneSurvives (left right : FSMManager) : Prop :=
  ∃ dir, left.connections = [dir] ∧ right.connections = [dir.opposite]

/-- Routers whose connections collide keep the same one exactly when their identifiers differ in
    the first or in the last byte. -/
theorem collision_agrees_iff (leftColliding : Colliding left leftId leftDir)
    (rightColliding : Colliding right rightId rightDir)
    (fromRight : toLeft.bgpId = right.routerId) (fromLeft : toRight.bgpId = left.routerId)
    (leftFour : left.routerId.length = 4) (rightFour : right.routerId.length = 4) :
    (∃ leftAfter leftAnswer rightAfter rightAnswer,
      left.receivedBGPOpenMessage leftId leftDir toLeft = .ok (leftAfter, leftAnswer) ∧
      right.receivedBGPOpenMessage rightId rightDir toRight = .ok (rightAfter, rightAnswer) ∧
      OneSurvives leftAfter rightAfter) ↔
    left.routerId[0]? ≠ right.routerId[0]? ∨ left.routerId[3]? ≠ right.routerId[3]? := by
  obtain ⟨l0, l1, l2, l3, ours⟩ := List.length_eq_four.mp leftFour
  obtain ⟨r0, r1, r2, r3, theirs⟩ := List.length_eq_four.mp rightFour
  have leftConverted : convertIPBytesToUint left.routerId =
      .ok (l0.toUInt32 <<< 24 ||| l3.toUInt32) := by
    rw [ours, convertIPBytesToUint_eq]
  have rightConverted : convertIPBytesToUint right.routerId =
      .ok (r0.toUInt32 <<< 24 ||| r3.toUInt32) := by
    rw [theirs, convertIPBytesToUint_eq]
  obtain ⟨leftAfter, leftAnswer, leftDone, leftKept⟩ :=
    received_connections leftColliding leftConverted (by rw [fromRight]; exact rightConverted)
  obtain ⟨rightAfter, rightAnswer, rightDone, rightKept⟩ :=
    received_connections rightColliding rightConverted (by rw [fromLeft]; exact leftConverted)
  have back : ∀ dir : ConnDir, dir.opposite.opposite = dir := by
    intro dir
    cases dir <;> rfl
  -- What survives on both sides is compared through the two converted identifiers.
  have survives : OneSurvives leftAfter rightAfter ↔
      l0.toUInt32 <<< 24 ||| l3.toUInt32 ≠ r0.toUInt32 <<< 24 ||| r3.toUInt32 := by
    rw [← closedDir_opposite_iff, OneSurvives, leftKept, rightKept]
    constructor
    · intro ⟨dir, here, there⟩
      cases here
      rw [back] at there
      have same := (List.cons.inj there).1
      rw [← same, back]
    · intro same
      exact ⟨_, rfl, by rw [same]⟩
  have bytes : (left.routerId[0]? ≠ right.routerId[0]? ∨ left.routerId[3]? ≠ right.routerId[3]?) ↔
      ¬ (l0 = r0 ∧ l3 = r3) := by
    rw [ours, theirs]
    show some l0 ≠ some r0 ∨ some l3 ≠ some r3 ↔ _
    rw [ne_eq, ne_eq, Option.some.injEq, Option.some.injEq, not_and_or]
  rw [bytes, ← shl_or_inj]
  refine ⟨?_, fun differ => ⟨_, _, _, _, leftDone, rightDone, survives.mpr differ⟩⟩
  intro ⟨_, _, _, _, leftAgain, rightAgain, one⟩
  rw [leftDone] at leftAgain
  rw [rightDone] at rightAgain
  cases leftAgain
  cases rightAgain
  exact survives.mp one

/-- A machine waiting for its session to be confirmed, on a connection of the given direction. -/
def waitingFSM (id : UInt8) (connDir : ConnDir) : FSM :=
  { newFSM ⟨65000, [10, 0, 0, 1], 180, 60, 120, 0, false, false, false, false⟩ id .openSentState with
    peerConn := some connDir }

/-- A router with one connection each way, the outgoing one with id 0. -/
def collidingRouter (routerId : Bytes) : FSMManager where
  routerId := routerId
  addPathsMaxTx := 0
  fsms := [(0, waitingFSM 0 .connDirOut), (1, waitingFSM 1 .connDirIn)]
  activeFSM := connDirInvalidId
  peerAttrs := ⟨[], 2, 0, 0, 0, false⟩
  closed := []
  broken := 0

/-- An OPEN message with the given identifier. -/
def openFrom (bgpId : Bytes) : BGPOpen := ⟨4, 65001, 180, bgpId, 0, []⟩

/-- Two routers whose identifiers differ in the second byte only. -/
theorem collision_middle_byte_disagrees : ¬ ∃ leftAfter leftAnswer rightAfter rightAnswer,
      (collidingRouter [10, 0, 0, 1]).receivedBGPOpenMessage 0 .connDirOut
          (openFrom [10, 1, 0, 1]) = .ok (leftAfter, leftAnswer) ∧
      (collidingRouter [10, 1, 0, 1]).receivedBGPOpenMessage 0 .connDirOut
          (openFrom [10, 0, 0, 1]) = .ok (rightAfter, rightAnswer) ∧
      OneSurvives leftAfter rightAfter := by
  have colliding : ∀ routerId, Colliding (collidingRouter routerId) 0 .connDirOut := by
    intro routerId
    exact ⟨by decide, _, _, 1, by decide, .refl _, rfl, rfl, .inl rfl⟩
  intro agrees
  have apart := (collision_agrees_iff (colliding [10, 0, 0, 1]) (colliding [10, 1, 0, 1])
    rfl rfl rfl rfl).mp agrees
  exact absurd apart (by decide)

/-- Each of the two routers keeps the connection that the other one has closed. -/
theorem collision_middle_byte_closes_both :
    ((collidingRouter [10, 0, 0, 1]).receivedBGPOpenMessage 0 .connDirOut (openFrom [10, 1, 0, 1]) >>=
        fun done => .ok (done.1.closed, done.1.connections)) = .ok ([0], [.connDirIn]) ∧
      ((collidingRouter [10, 1, 0, 1]).receivedBGPOpenMessage 0 .connDirOut
          (openFrom [10, 0, 0, 1]) >>=
        fun done => .ok (done.1.closed, done.1.connections)) = .ok ([0], [.connDirIn]) := by
  decide

end Agreement

end FlexSwitch.Fsm
