import FlexSwitch.Fsm.Machine

/-! The manager of a neighbor's machines: which of two colliding connections it closes. -/

namespace FlexSwitch.Fsm

open Go Packet

/-- A byte shifted left in eight bits, which loses what is shifted out. -/
def byteShl (byte : UInt8) (count : Nat) : UInt8 := UInt8.ofNat (byte.toNat * 2 ^ count)

/-- `ConvertIPBytesToUint`, which widens the two middle bytes after they have been shifted. -/
def convertIPBytesToUint (bytes : Bytes) : Call UInt32 := do
  let b0 ← index bytes 0
  let b1 ← index bytes 1
  let b2 ← index bytes 2
  let b3 ← index bytes 3
  return b0.toUInt32 <<< 24 ||| (byteShl b1 16).toUInt32 ||| (byteShl b2 8).toUInt32 ||| b3.toUInt32

def capAddPathRx : UInt8 := 1

def capAddPathTx : UInt8 := 2

def getASSize (openMsg : BGPOpen) : UInt8 :=
  if openMsg.optParams.any fun optParam =>
    optParam.type == optParamTypeCapability &&
      optParam.value.any fun cap => cap.base.type == capTypeAS4Path
  then 4 else 2

/-- The entries of the first add-path capability, of which the first for a family counts. -/
def getAddPathFamily (openMsg : BGPOpen) : List AddPathAFISAFI :=
  let caps := openMsg.optParams.flatMap BGPOptParamCapability.value
  match caps.findSome? (fun cap => match cap with
    | .addPath addPathCap => some addPathCap.value
    | _ => none) with
  | none => []
  | some entries => entries.foldl (fun family entry =>
    if family.any fun known => known.afi == entry.afi && known.safi == entry.safi then family
    else family ++ [entry]) []

/-- What the neighbor's state records of its latest OPEN message. -/
structure PeerAttrs where
  bgpId : Bytes
  asSize : UInt8
  holdTime : UInt32
  keepaliveTime : UInt32
  addPathsMaxTx : UInt8
  addPathsRx : Bool
deriving DecidableEq, Repr

/-- The manager. Its machines are kept by their ids, in the order the map is ranged over. -/
structure FSMManager where
  routerId : Bytes
  addPathsMaxTx : UInt8
  fsms : List (UInt8 × FSM)
  activeFSM : UInt8
  peerAttrs : PeerAttrs
  /-- The ids of the machines that were told to close. -/
  closed : List UInt8
  /-- How often the server was told that the session is broken. -/
  broken : Nat
deriving DecidableEq, Repr

def connDirInvalidId : UInt8 := 2

namespace FSMManager

def find (mgr : FSMManager) (id : UInt8) : Option FSM :=
  (mgr.fsms.find? fun entry => entry.1 == id).map Prod.snd

variable (mgr : FSMManager) (connDir : ConnDir)

def fsmBroken (id : UInt8) : FSMManager :=
  if mgr.activeFSM = id then
    { mgr with activeFSM := connDirInvalidId, broken := mgr.broken + 1 }
  else mgr

def fsmClose (id : UInt8) : FSMManager :=
  match mgr.find id with
  | none => mgr
  | some _ =>
    { mgr.fsmBroken id with
      closed := mgr.closed ++ [id], fsms := mgr.fsms.filter fun entry => entry.1 != id }

def getFSMIdByDir : UInt8 :=
  match mgr.fsms.find? fun entry => entry.2.peerConn == some connDir with
  | some entry => entry.1
  | none => connDirInvalidId

def setPeerAttrs (openMsg : BGPOpen) (fsm : FSM) : FSMManager :=
  let flags := ((getAddPathFamily openMsg).filter fun entry =>
    entry.afi == afiIP || entry.afi == afiIP6).map AddPathAFISAFI.flags
  { mgr with peerAttrs :=
    { bgpId := openMsg.bgpId
      asSize := getASSize openMsg
      holdTime := fsm.holdTime
      keepaliveTime := fsm.keepAliveTime
      addPathsMaxTx := if flags.any fun flag => flag &&& capAddPathRx != 0 then mgr.addPathsMaxTx
        else mgr.peerAttrs.addPathsMaxTx
      addPathsRx := mgr.peerAttrs.addPathsRx || flags.any fun flag => flag &&& capAddPathTx != 0 } }

/-- The direction to close when a machine has gone as far as another one. -/
def closeDir (localBGPId bgpIdInt : UInt32) (other : FSM) : ConnDir :=
  if other.state.state = .bgpFSMEstablished then connDir
  else if localBGPId > bgpIdInt then .connDirIn
  else .connDirOut

/-- One round of the search for a collision, with the direction that was closed last. -/
def collide (id : UInt8) (connDir : ConnDir) (localBGPId bgpIdInt : UInt32)
    (state : FSMManager × ConnDir) (fsmId : UInt8) : FSMManager × ConnDir :=
  match state.1.find fsmId with
  | none => state
  | some fsm =>
    if fsmId ≠ id ∧ BGPFSMState.bgpFSMOpensent.number ≤ fsm.state.state.number then
      let closeConnDir := closeDir connDir localBGPId bgpIdInt fsm
      (state.1.fsmClose (state.1.getFSMIdByDir closeConnDir), closeConnDir)
    else state

/-- `receivedBGPOpenMessage`, with whether the machine that asks may go on. -/
def receivedBGPOpenMessage (id : UInt8) (connDir : ConnDir) (openMsg : BGPOpen) :
    Call (FSMManager × Bool) := do
  let localBGPId ← convertIPBytesToUint mgr.routerId
  let bgpIdInt ← convertIPBytesToUint openMsg.bgpId
  let (mgr, closeConnDir) := (mgr.fsms.map Prod.fst).foldl
    (collide id connDir localBGPId bgpIdInt) (mgr, .connDirInvalid)
  -- The id that was closed is kept in a variable of the loop, so this is not skipped.
  match mgr.find id with
  | some fsm => return (mgr.setPeerAttrs openMsg fsm, closeConnDir != connDir)
  | none => return (mgr, closeConnDir != connDir)

end FSMManager

end FlexSwitch.Fsm
