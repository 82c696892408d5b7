import FlexSwitch.Packet.ASPath

/-! The state machine of a BGP session: its states, its timers and the connection it holds. -/

namespace FlexSwitch.Fsm

open Go Packet

/-- Which end opened a connection. -/
inductive ConnDir where
  | connDirOut
  | connDirIn
  | connDirInvalid
deriving DecidableEq, Repr

/-- The states as the rest of the daemon sees them, in the source's order. -/
inductive BGPFSMState where
  | bgpFSMNone
  | bgpFSMIdle
  | bgpFSMConnect
  | bgpFSMActive
  | bgpFSMOpensent
  | bgpFSMOpenconfirm
  | bgpFSMEstablished
deriving DecidableEq, Repr

/-- The place of a state in the source's enumeration. -/
def BGPFSMState.number : BGPFSMState → Nat
  | bgpFSMNone => 0
  | bgpFSMIdle => 1
  | bgpFSMConnect => 2
  | bgpFSMActive => 3
  | bgpFSMOpensent => 4
  | bgpFSMOpenconfirm => 5
  | bgpFSMEstablished => 6

/-- The events of the machine, with the zero value first. -/
inductive BGPFSMEvent where
  | unset
  | manualStart
  | manualStop
  | autoStart
  | manualStartPassTcpEst
  | autoStartPassTcpEst
  | autoStartDampPeerOscl
  | autoStartDampPeerOsclPassTcpEst
  | autoStop
  | connRetryTimerExp
  | holdTimerExp
  | keepAliveTimerExp
  | delayOpenTimerExp
  | idleHoldTimerExp
  | tcpConnValid
  | tcpCrInvalid
  | tcpCrAcked
  | tcpConnConfirmed
  | tcpConnFails
  | bgpOpen
  | bgpOpenDelayOpenTimer
  | headerErr
  | openMsgErr
  | openCollisionDump
  | notifMsgVerErr
  | notifMsg
  | keepAliveMsg
  | updateMsg
  | updateMsgErr
deriving DecidableEq, Repr

/-- A connection that has come up, with the two numbers drawn should it be taken. -/
structure PeerConnDir where
  connDir : ConnDir
  draws : UInt32 × UInt32
deriving DecidableEq, Repr

/-- The value behind the empty interface that comes with an event. -/
inductive EventData where
  | nil
  | conn (made : PeerConnDir)
  | connErr (id : UInt32)
  | message (msg : BGPMessage (Option BGPBody))
  | messageError (err : BGPMessageError)
deriving DecidableEq, Repr

def EventData.asConn : EventData → Option PeerConnDir
  | .conn made => some made
  | _ => none

def EventData.asMessage : EventData → Option (BGPMessage (Option BGPBody))
  | .message msg => some msg
  | _ => none

def EventData.asMessageError : EventData → Option BGPMessageError
  | .messageError err => some err
  | _ => none

/-- The body of a message, if it is an OPEN. -/
def asOpen (msg : BGPMessage (Option BGPBody)) : Option BGPOpen :=
  match msg.body with
  | some (.openBody body) => some body
  | _ => none

/-- The body of a message, if it is an UPDATE. -/
def asUpdate (msg : BGPMessage (Option BGPBody)) : Option BGPUpdate :=
  match msg.body with
  | some (.updateBody body) => some body
  | _ => none

/-- The body of a message, if it is a NOTIFICATION. -/
def asNotification (msg : BGPMessage (Option BGPBody)) : Option BGPNotification :=
  match msg.body with
  | some (.notificationBody body) => some body
  | _ => none

/-- What the machine reads of the neighbor's configuration. -/
structure NeighborConf where
  localAS : UInt32
  routerId : Bytes
  holdTime : UInt32
  keepaliveTime : UInt32
  connectRetryTime : UInt32
  maxPrefixesRestartTimer : UInt8
  /-- The neighbor's address is the one that stands for an unknown neighbor. -/
  unknownAddress : Bool
  useBfdState : Bool
  bfdEnable : Bool
  bfdNeighborDown : Bool
deriving DecidableEq, Repr

/-- The state objects. Only the idle one has a field of its own. -/
inductive State where
  | idleState (passive : Bool)
  | connectState
  | activeState
  | openSentState
  | openConfirmState
  | establishedState
deriving DecidableEq, Repr

def State.state : State → BGPFSMState
  | idleState _ => .bgpFSMIdle
  | connectState => .bgpFSMConnect
  | activeState => .bgpFSMActive
  | openSentState => .bgpFSMOpensent
  | openConfirmState => .bgpFSMOpenconfirm
  | establishedState => .bgpFSMEstablished

def newIdleState : State := .idleState false

/-- What the machine hands to the connection and to its manager. -/
inductive Output where
  | openMessage (myAS : UInt32) (holdTime : UInt16) (routerId : Bytes)
  | keepAliveMessage
  | notification (code subCode : UInt8) (data : Bytes)
  | acceptPeerConn
  | rejectPeerConn
  | anotherConnection (connDir : ConnDir)
  | connEstablished
  | connBroken
  | stateChange (state : BGPFSMState)
  | tcpConnFailed
  | updateReceived (update : BGPUpdate)
deriving DecidableEq, Repr

def bgpIdleHoldTimeDefault : UInt16 := 5

def bgpRestartTimeDefault : UInt32 := 1

/-- Hold times that are not in the table are looked up as zero. -/
def idleHoldTimeInterval (time : UInt16) : UInt16 :=
  if time = 5 then 10
  else if time = 10 then 30
  else if time = 60 then 120
  else if time = 120 then 180
  else if time = 180 then 300
  else if time = 300 then 500
  else 0

/-- The machine. A timer is the number of seconds it was armed with, or none if it is stopped. -/
structure FSM where
  state : State
  id : UInt8
  peerConn : Option ConnDir
  connId : UInt32
  outTCPConn : Bool
  connectRetryCounter : Int
  connectRetryTime : UInt32
  connectRetryTimer : Option UInt32
  holdTime : UInt32
  holdTimer : Option UInt32
  keepAliveTime : UInt32
  keepAliveTimer : Option UInt32
  restartTime : UInt32
  restartTimer : Option UInt32
  passiveTcpEst : Bool
  dampPeerOscl : Bool
  idleHoldTime : UInt16
  idleHoldTimer : Option UInt16
  close : Bool
  outputs : List Output
deriving DecidableEq, Repr

/-- A machine as the manager makes it, in the state it is to start in. -/
def newFSM (conf : NeighborConf) (id : UInt8) (state : State) : FSM where
  state := state
  id := id
  peerConn := none
  connId := 0
  outTCPConn := false
  connectRetryCounter := 0
  connectRetryTime := conf.connectRetryTime
  connectRetryTimer := none
  holdTime := conf.holdTime
  holdTimer := none
  keepAliveTime := conf.keepaliveTime
  keepAliveTimer := none
  restartTime := bgpRestartTimeDefault
  restartTimer := none
  passiveTcpEst := false
  dampPeerOscl := false
  idleHoldTime := bgpIdleHoldTimeDefault
  idleHoldTimer := none
  close := false
  outputs := []

namespace FSM

variable (conf : NeighborConf) (fsm : FSM) (event : BGPFSMEvent) (data : EventData)
  (accepted : Bool)

def output (out : Output) : FSM := { fsm with outputs := fsm.outputs ++ [out] }

def startRestartTimer : FSM := { fsm with restartTimer := some fsm.restartTime }

def startConnectRetryTimer : FSM :=
  { fsm with connectRetryTimer := some fsm.connectRetryTime }

def stopConnectRetryTimer : FSM := { fsm with connectRetryTimer := none }

/-- Times of one or two seconds are refused. -/
def setHoldTime (holdTime keepaliveTime : UInt32) : FSM :=
  if holdTime > 0 ∧ holdTime < 3 then fsm
  else { fsm with holdTime := holdTime, keepAliveTime := keepaliveTime }

def startHoldTimer : FSM :=
  { fsm with holdTimer := if fsm.holdTime ≠ 0 then some fsm.holdTime else none }

def stopHoldTimer : FSM := { fsm with holdTimer := none }

def startKeepAliveTimer : FSM :=
  { fsm with keepAliveTimer := if fsm.keepAliveTime ≠ 0 then some fsm.keepAliveTime else none }

def stopKeepAliveTimer : FSM := { fsm with keepAliveTimer := none }

def setConnectRetryCounter (value : Int) : FSM :=
  { fsm with connectRetryCounter := value }

def incrConnectRetryCounter : FSM :=
  { fsm with connectRetryCounter := fsm.connectRetryCounter + 1 }

def setIdleHoldTime (seconds : UInt16) : FSM := { fsm with idleHoldTime := seconds }

def startIdleHoldTimer : FSM :=
  { fsm with idleHoldTimer :=
      if fsm.idleHoldTime > 0 ∧ fsm.idleHoldTime ≤ 300 then some fsm.idleHoldTime else none }

def stopIdleHoldTimer : FSM := { fsm with idleHoldTimer := none }

/-- A message needs a connection to be written to. -/
def write (out : Output) : Call FSM :=
  match fsm.peerConn with
  | some _ => .ok (fsm.output out)
  | none => .panic

def sendOpenMessage : Call FSM :=
  fsm.write (.openMessage conf.localAS fsm.holdTime.toUInt16 conf.routerId)

def sendKeepAliveMessage : Call FSM := do
  return (← fsm.write .keepAliveMessage).startKeepAliveTimer

def sendNotificationMessage (code subCode : UInt8) (data : Bytes) : Call FSM :=
  fsm.write (.notification code subCode data)

/-- Packets are written until one of them fails, by whether each can be, and restart the timer. -/
def sendUpdateMessage (fsm : FSM) : List Bool → Call FSM
  | [] => .ok fsm
  | written :: packets =>
    match fsm.peerConn with
    | none => .panic
    | some _ => if written then fsm.startKeepAliveTimer.sendUpdateMessage packets else .ok fsm

/-- A connection that is already set up stays. -/
def setPeerConn : Call FSM :=
  match fsm.peerConn with
  | some _ => .ok fsm
  | none => do
    let connId := fun conn : PeerConnDir =>
      if conn.draws.1 = fsm.connId then fsm.connId + 1 else conn.draws.2
    let conn ← typeAssert data.asConn
    return { fsm with connId := connId conn, peerConn := some conn.connDir }

def clearPeerConn : FSM :=
  match fsm.peerConn with
  | none => fsm
  | some _ => { fsm.stopKeepAliveTimer.stopHoldTimer with connId := 0, peerConn := none }

def initiateConnToPeer : FSM :=
  if conf.unknownAddress then fsm else { fsm with outTCPConn := true }

def stopConnToPeer : FSM := { fsm with outTCPConn := false }

def handleAnotherConnection : Call FSM := do
  return fsm.output (.anotherConnection (← typeAssert data.asConn).connDir)

def connEstablished (fsm : FSM) : Call FSM := fsm.write .connEstablished

def connBroken (fsm : FSM) : FSM := fsm.output .connBroken

/-- `leave` of the state that the machine is in. -/
def leave : FSM :=
  match fsm.state with
  | .idleState _ => fsm.stopIdleHoldTimer
  | .openConfirmState => fsm.setHoldTime conf.holdTime conf.keepaliveTime
  | .establishedState => fsm.setHoldTime conf.holdTime conf.keepaliveTime
  | _ => fsm

/-- The manager is told when the session has come up or gone down. -/
def announce (oldState : BGPFSMState) (fsm : FSM) : Call FSM :=
  if oldState = .bgpFSMEstablished ∧ fsm.state.state ≠ .bgpFSMEstablished then .ok fsm.connBroken
  else if oldState ≠ .bgpFSMEstablished ∧ fsm.state.state = .bgpFSMEstablished then
    fsm.connEstablished
  else .ok fsm

/-- `ChangeState`, by the `enter` that the new state has. -/
def changeStateBy (enter : FSM → Call FSM) (newState : State) (fsm : FSM) : Call FSM :=
  if fsm.close then .ok fsm
  else do
    let oldState := fsm.state.state
    let fsm ← enter { fsm.leave conf with state := newState }
    let fsm ← fsm.announce oldState
    return fsm.output (.stateChange fsm.state.state)

/-- `enter` of the active state. -/
def enterActive : Call FSM := .ok (fsm.output .acceptPeerConn)

/-- `enter` of the state that the machine is in. -/
def enter : Call FSM :=
  match fsm.state with
  | .idleState _ =>
    .ok (fsm.stopKeepAliveTimer.stopHoldTimer.output .rejectPeerConn).startRestartTimer
  | .connectState =>
    -- With BFD down the machine goes on to the active state before it has settled here.
    if conf.useBfdState ∧ conf.bfdEnable ∧ conf.bfdNeighborDown then
      fsm.changeStateBy conf enterActive .activeState
    else .ok ((fsm.output .acceptPeerConn).initiateConnToPeer conf)
  | .activeState => fsm.enterActive
  | .openSentState => .ok fsm
  | .openConfirmState => .ok fsm
  | .establishedState => .ok (fsm.setIdleHoldTime bgpIdleHoldTimeDefault)

def changeState (newState : State) (fsm : FSM) : Call FSM :=
  fsm.changeStateBy conf (enter conf) newState

/-- The hold time announced is taken over if it is below the one in use. -/
def negotiateHoldTime (body : BGPOpen) : FSM :=
  if body.holdTime.toUInt32 < fsm.holdTime then
    fsm.setHoldTime body.holdTime.toUInt32 (body.holdTime / 3).toUInt32
  else fsm

/-- `ProcessOpenMessage`, with what the manager answers if it is asked. -/
def processOpenMessage (msg : BGPMessage (Option BGPBody)) (accepted : Bool) :
    Call (FSM × Bool) := do
  let body ← typeAssert (asOpen msg)
  let fsm := fsm.negotiateHoldTime body
  let _ ← typeAssert fsm.peerConn
  return (fsm, accepted)

def processUpdateMessage (msg : BGPMessage (Option BGPBody)) : Call FSM := do
  return fsm.output (.updateReceived (← typeAssert (asUpdate msg)))

/-- The connection is dropped, and the machine goes back to the idle state. -/
def fallIdle : Call FSM :=
  fsm.stopConnectRetryTimer.clearPeerConn.stopConnToPeer.incrConnectRetryCounter.changeState conf
    newIdleState

def idleEvent (passive : Bool) (fsm : FSM) (event : BGPFSMEvent) : Call FSM :=
  match event with
  | .manualStart | .autoStart =>
    (fsm.setConnectRetryCounter 0).startConnectRetryTimer.changeState conf .connectState
  | .manualStartPassTcpEst | .autoStartPassTcpEst =>
    (fsm.setConnectRetryCounter 0).startConnectRetryTimer.changeState conf .activeState
  | .autoStartDampPeerOscl =>
    .ok { (fsm.setIdleHoldTime (idleHoldTimeInterval fsm.idleHoldTime)).startIdleHoldTimer with
      state := .idleState false }
  | .autoStartDampPeerOsclPassTcpEst =>
    .ok { (fsm.setIdleHoldTime (idleHoldTimeInterval fsm.idleHoldTime)).startIdleHoldTimer with
      state := .idleState true }
  | .idleHoldTimerExp =>
    fsm.startConnectRetryTimer.changeState conf (if passive then .activeState else .connectState)
  | _ => .ok fsm

/-- A connection has come up: the OPEN message goes out, and the hold timer starts. -/
def openConnection : Call FSM := do
  let fsm ← fsm.stopConnectRetryTimer.setPeerConn data
  let fsm ← fsm.sendOpenMessage conf
  (fsm.setHoldTime conf.holdTime conf.keepaliveTime).startHoldTimer.changeState conf .openSentState

def connectEvent : Call FSM :=
  match event with
  | .manualStop =>
    (fsm.stopConnToPeer.setConnectRetryCounter 0).stopConnectRetryTimer.changeState conf
      newIdleState
  | .connRetryTimerExp => .ok (fsm.stopConnToPeer.startConnectRetryTimer.initiateConnToPeer conf)
  | .tcpCrAcked | .tcpConnConfirmed => fsm.openConnection conf data
  | .tcpConnFails => fsm.stopConnectRetryTimer.stopConnToPeer.changeState conf newIdleState
  | .headerErr | .openMsgErr | .notifMsgVerErr | .autoStop | .holdTimerExp | .keepAliveTimerExp
  | .idleHoldTimerExp | .bgpOpen | .openCollisionDump | .notifMsg | .keepAliveMsg | .updateMsg
  | .updateMsgErr =>
    fsm.stopConnectRetryTimer.stopConnToPeer.incrConnectRetryCounter.changeState conf newIdleState
  | _ => .ok fsm

def activeEvent : Call FSM :=
  match event with
  | .manualStop =>
    (fsm.stopConnToPeer.setConnectRetryCounter 0).stopConnectRetryTimer.changeState conf
      newIdleState
  | .connRetryTimerExp => fsm.startConnectRetryTimer.changeState conf .connectState
  | .tcpCrAcked | .tcpConnConfirmed => fsm.openConnection conf data
  | .tcpConnFails =>
    fsm.startConnectRetryTimer.stopConnToPeer.clearPeerConn.incrConnectRetryCounter.changeState
      conf newIdleState
  | .headerErr | .openMsgErr | .notifMsgVerErr | .autoStop | .holdTimerExp | .keepAliveTimerExp
  | .idleHoldTimerExp | .bgpOpen | .openCollisionDump | .notifMsg | .keepAliveMsg | .updateMsg
  | .updateMsgErr => fsm.fallIdle conf
  | _ => .ok fsm

/-- A notification is sent before the connection is dropped. -/
def notifyIdle (code subCode : UInt8) (data : Bytes) : Call FSM := do
  (← fsm.sendNotificationMessage code subCode data).fallIdle conf

/-- A manual stop notifies the peer and forgets how often connecting has failed. -/
def stopSession : Call FSM := do
  let fsm ← fsm.sendNotificationMessage bgpCease 0 []
  (fsm.stopConnectRetryTimer.clearPeerConn.stopConnToPeer.setConnectRetryCounter 0).changeState
    conf newIdleState

/-- An error that was found in a message is sent back before the connection is dropped. -/
def reportIdle : Call FSM := do
  let err ← typeAssert data.asMessageError
  fsm.notifyIdle conf err.typeCode err.subTypeCode err.data

def openSentEvent : Call FSM :=
  match event with
  | .manualStop => fsm.stopSession conf
  | .autoStop | .openCollisionDump => fsm.notifyIdle conf bgpCease 0 []
  | .holdTimerExp => fsm.notifyIdle conf bgpHoldTimerExpired 0 []
  | .tcpCrAcked | .tcpConnConfirmed => fsm.handleAnotherConnection data
  | .tcpConnFails =>
    fsm.clearPeerConn.stopConnToPeer.startConnectRetryTimer.changeState conf .activeState
  | .bgpOpen => do
    let (fsm, taken) ← fsm.stopConnectRetryTimer.processOpenMessage
      (← typeAssert data.asMessage) accepted
    if taken then
      (← fsm.sendKeepAliveMessage).startHoldTimer.changeState conf .openConfirmState
    else return fsm
  | .headerErr | .openMsgErr => fsm.reportIdle conf data
  | .notifMsgVerErr =>
    fsm.stopConnectRetryTimer.clearPeerConn.stopConnToPeer.changeState conf newIdleState
  | .connRetryTimerExp | .keepAliveTimerExp | .delayOpenTimerExp | .idleHoldTimerExp
  | .bgpOpenDelayOpenTimer | .notifMsg | .keepAliveMsg | .updateMsg | .updateMsgErr =>
    fsm.notifyIdle conf bgpFSMError 0 []
  | _ => .ok fsm

def openConfirmEvent : Call FSM :=
  match event with
  | .manualStop => fsm.stopSession conf
  | .autoStop | .openCollisionDump => fsm.notifyIdle conf bgpCease 0 []
  | .holdTimerExp => fsm.notifyIdle conf bgpHoldTimerExpired 0 []
  | .keepAliveTimerExp => fsm.sendKeepAliveMessage
  | .tcpCrAcked | .tcpConnConfirmed => fsm.handleAnotherConnection data
  | .tcpConnFails | .notifMsg => fsm.fallIdle conf
  | .headerErr | .openMsgErr => fsm.reportIdle conf data
  | .notifMsgVerErr =>
    fsm.stopConnectRetryTimer.clearPeerConn.stopConnToPeer.changeState conf newIdleState
  | .keepAliveMsg => fsm.startHoldTimer.changeState conf .establishedState
  | .connRetryTimerExp | .delayOpenTimerExp | .idleHoldTimerExp | .bgpOpenDelayOpenTimer
  | .updateMsg | .updateMsgErr => fsm.notifyIdle conf bgpCease 0 []
  | _ => .ok fsm

def establishedEvent : Call FSM :=
  match event with
  | .manualStop => fsm.stopSession conf
  | .autoStop | .openCollisionDump => fsm.notifyIdle conf bgpCease 0 []
  | .holdTimerExp => fsm.notifyIdle conf bgpHoldTimerExpired 0 []
  | .keepAliveTimerExp => fsm.sendKeepAliveMessage
  | .tcpCrAcked | .tcpConnConfirmed => fsm.handleAnotherConnection data
  | .tcpConnFails | .notifMsgVerErr | .notifMsg => fsm.fallIdle conf
  | .keepAliveMsg => .ok fsm.startHoldTimer
  | .updateMsg => do fsm.startHoldTimer.processUpdateMessage (← typeAssert data.asMessage)
  | .updateMsgErr => fsm.reportIdle conf data
  | .connRetryTimerExp | .delayOpenTimerExp | .idleHoldTimerExp | .openMsgErr
  | .bgpOpenDelayOpenTimer | .headerErr => fsm.notifyIdle conf bgpFSMError 0 []
  | _ => .ok fsm

/-- `ProcessEvent`, with what the manager answers should an OPEN message be put to it. -/
def processEvent : Call FSM :=
  match fsm.state with
  | .idleState passive => fsm.idleEvent conf passive event
  | .connectState => fsm.connectEvent conf event data
  | .activeState => fsm.activeEvent conf event data
  | .openSentState => fsm.openSentEvent conf event data accepted
  | .openConfirmState => fsm.openConfirmEvent conf event data
  | .establishedState => fsm.establishedEvent conf event data

/-- The event that a decoded message, or an error in its place, stands for. -/
def packetEvent : BGPMessage (Option BGPBody) ⊕ BGPMessageError → BGPFSMEvent
  | .inr err =>
    if err.typeCode = bgpMsgHeaderError then .headerErr
    else if err.typeCode = bgpOpenMsgError then .openMsgErr
    else if err.typeCode = bgpUpdateMsgError then .updateMsgErr
    else .unset
  | .inl msg =>
    if msg.header.type = bgpMsgTypeOpen then .bgpOpen
    else if msg.header.type = bgpMsgTypeUpdate then .updateMsg
    else if msg.header.type = bgpMsgTypeNotification then .notifMsg
    else if msg.header.type = bgpMsgTypeKeepAlive then .keepAliveMsg
    else .unset

def processPacket (packet : BGPMessage (Option BGPBody) ⊕ BGPMessageError) (accepted : Bool) :
    Call FSM := do
  match packet with
  | .inr err => fsm.processEvent conf (packetEvent packet) (.messageError err) accepted
  | .inl msg =>
    if msg.header.type = bgpMsgTypeNotification then
      let _ ← typeAssert (asNotification msg)
    fsm.processEvent conf (packetEvent packet) (.message msg) accepted

/-- The event that starts the machine by itself. -/
def autoStartEvent : BGPFSMEvent :=
  if fsm.passiveTcpEst then
    if fsm.dampPeerOscl then .autoStartDampPeerOsclPassTcpEst else .autoStartPassTcpEst
  else if fsm.dampPeerOscl then .autoStartDampPeerOscl
  else .autoStart

end FSM

/-- What the loop of `StartFSM` can receive. -/
inductive Input where
  | outConn (draws : UInt32 × UInt32)
  | outConnErr (id : UInt32)
  | inConn (draws : UInt32 × UInt32)
  | close
  | passiveTcpEst (flag : Bool)
  | pktTx (packets : List Bool)
  | pktRx (packet : BGPMessage (Option BGPBody) ⊕ BGPMessageError) (accepted : Bool)
  | command (event : BGPFSMEvent) (maxPrefixExceeded : Bool)
  | bfdStatus (up : Bool)
  | connectRetryTimer
  | holdTimer
  | keepAliveTimer
  | idleHoldTimer
  | restartTimer
deriving DecidableEq, Repr

namespace FSM

/-- BFD stops a session that has gone down, and one that is still being set up. -/
def bfdStop (conf : NeighborConf) (fsm : FSM) (up : Bool) : Call FSM :=
  if ¬ up ∨ fsm.state.state.number < BGPFSMState.bgpFSMOpensent.number then
    fsm.processEvent conf .autoStop .nil false
  else .ok fsm

/-- One round of the loop of `StartFSM`. A machine that was told to close has left the loop. -/
def receive (conf : NeighborConf) (fsm : FSM) (input : Input) : Call FSM :=
  if fsm.close then .ok fsm
  else match input with
  | .outConn draws =>
    if fsm.outTCPConn then
      fsm.stopConnToPeer.processEvent conf .tcpCrAcked (.conn ⟨.connDirOut, draws⟩) false
    else .ok fsm
  | .outConnErr id =>
    let fsm := fsm.stopConnToPeer
    if id ≠ 0 ∧ id ≠ fsm.connId then .ok fsm
    else do
      let fsm ← fsm.processEvent conf .tcpConnFails (.connErr id) false
      return fsm.output .tcpConnFailed
  | .inConn draws => fsm.processEvent conf .tcpConnConfirmed (.conn ⟨.connDirIn, draws⟩) false
  | .close => { fsm with close := true }.processEvent conf .manualStop .nil false
  | .passiveTcpEst flag => .ok { fsm with passiveTcpEst := flag }
  | .pktTx packets =>
    if fsm.state.state ≠ .bgpFSMEstablished then .ok fsm else fsm.sendUpdateMessage packets
  | .pktRx packet accepted => fsm.processPacket conf packet accepted
  | .command event maxPrefixExceeded => do
    let restartTime :=
      if maxPrefixExceeded then conf.maxPrefixesRestartTimer.toUInt32 else fsm.restartTime
    let fsm ← { fsm with restartTime := restartTime }.processEvent conf event .nil false
    { fsm with restartTime := bgpRestartTimeDefault }.processEvent conf .autoStart .nil false
  | .bfdStatus up => do (← fsm.bfdStop conf up).processEvent conf .autoStart .nil false
  | .connectRetryTimer => fsm.processEvent conf .connRetryTimerExp .nil false
  | .holdTimer => fsm.processEvent conf .holdTimerExp .nil false
  | .keepAliveTimer => fsm.processEvent conf .keepAliveTimerExp .nil false
  | .idleHoldTimer => fsm.processEvent conf .idleHoldTimerExp .nil false
  | .restartTimer => fsm.processEvent conf fsm.autoStartEvent .nil false

/-- What `StartFSM` does before it enters its loop. -/
def start (conf : NeighborConf) (fsm : FSM) : Call FSM := do
  (← fsm.enter conf).processEvent conf .autoStart .nil false

end FSM

end FlexSwitch.Fsm
