import FlexSwitch.Fsm.HoldTime

/-! When a machine has a connection, and that whatever writes to the peer finds one. -/

namespace FlexSwitch.Fsm

open Go Packet Outcome

variable {newState : State} {prepared : FSM} {accepted : Bool}

/-- The part of a machine that says whether it has a connection, and which. -/
structure Line where
  state : State
  close : Bool
  peerConn : Option ConnDir
  connId : UInt32
deriving DecidableEq, Repr

def FSM.line (fsm : FSM) : Line := ⟨fsm.state, fsm.close, fsm.peerConn, fsm.connId⟩

/-- The states in which a session has been opened. -/
def State.connected : State → Bool
  | openSentState => true
  | openConfirmState => true
  | establishedState => true
  | _ => false

/-- There is a connection exactly in the states that stand for one. -/
def FSM.Wired (fsm : FSM) : Prop := fsm.peerConn.isSome = fsm.state.connected

/-- The data that comes with an event is of the type its handlers take it for. -/
def Fits (event : BGPFSMEvent) (data : EventData) : Prop :=
  match event with
  | .tcpCrAcked | .tcpConnConfirmed => data.asConn.isSome
  | .bgpOpen => (data.asMessage.bind asOpen).isSome
  | .updateMsg => (data.asMessage.bind asUpdate).isSome
  | .headerErr | .openMsgErr | .updateMsgErr => data.asMessageError.isSome
  | _ => True

/-- A live connection is either dropped or still the same one. -/
def SameConn (before after : FSM) : Prop :=
  before.peerConn.isSome → after.peerConn = none ∨
    after.peerConn = before.peerConn ∧ after.connId = before.connId

/-- What a handler leaves behind: an open machine whose connection goes with its state. -/
structure Kept (before after : FSM) : Prop where
  opened : after.close = false
  wired : after.Wired
  same : SameConn before after

/-- The handler comes through, or it was given data it cannot use. -/
def Advances (fits : Prop) (before : FSM) (result : Call FSM) : Prop :=
  (∃ after, result = .ok after ∧ Kept before after) ∨ ¬ fits ∧ result = .panic

section Frames

variable {conf : NeighborConf} (fsm : FSM)

theorem FSM.clearPeerConn_peerConn : fsm.clearPeerConn.peerConn = none := by
  unfold FSM.clearPeerConn
  split
  · assumption
  · rfl

theorem FSM.clearPeerConn_close : fsm.clearPeerConn.close = fsm.close := by
  unfold FSM.clearPeerConn
  split <;> rfl

theorem FSM.setHoldTime_line (holdTime keepaliveTime : UInt32) :
    (fsm.setHoldTime holdTime keepaliveTime).line = fsm.line := by
  unfold FSM.setHoldTime
  split <;> rfl

theorem FSM.initiateConnToPeer_line : (fsm.initiateConnToPeer conf).line = fsm.line := by
  unfold FSM.initiateConnToPeer
  split <;> rfl

theorem FSM.negotiateHoldTime_line (body : BGPOpen) :
    (fsm.negotiateHoldTime body).line = fsm.line := by
  unfold FSM.negotiateHoldTime
  split
  · exact fsm.setHoldTime_line _ _
  · rfl

theorem FSM.leave_line : (fsm.leave conf).line = fsm.line := by
  unfold FSM.leave
  split
  · rfl
  · exact fsm.setHoldTime_line _ _
  · exact fsm.setHoldTime_line _ _
  · rfl

/-- What is written to a connection changes neither it nor the state. -/
theorem FSM.write_of_isSome (there : fsm.peerConn.isSome) (out : Output) :
    fsm.write out = .ok (fsm.output out) := by
  obtain ⟨dir, live⟩ := Option.isSome_iff_exists.mp there
  rw [FSM.write, live]

theorem settled_connected (newState : State) :
    (settled conf newState).connected = newState.connected := by
  -- Only the state for connecting is replaced, and the active state has no connection either.
  unfold settled
  split
  · rename_i down
    rw [down.1]
    rfl
  · rfl

end Frames

/-- Where no session has been opened there is no connection. -/
theorem FSM.Wired.free {fsm : FSM} (wired : fsm.Wired) (low : fsm.state.connected = false) :
    fsm.peerConn = none := by
  rw [FSM.Wired, low] at wired
  exact Option.isNone_iff_eq_none.mp (Option.isSome_eq_false_iff.mp wired)

section Changes

variable {conf : NeighborConf} {fsm : FSM}

/-- The manager is told, for which an established session needs its connection. -/
theorem FSM.announce_line (oldState : BGPFSMState)
    (ready : fsm.state.state = .bgpFSMEstablished → fsm.peerConn.isSome) :
    ∃ after, fsm.announce oldState = .ok after ∧ after.line = fsm.line := by
  unfold FSM.announce
  split
  · exact ⟨_, rfl, rfl⟩
  · split
    · rename_i up
      exact ⟨_, fsm.write_of_isSome (ready up.2) _, rfl⟩
    · exact ⟨_, rfl, rfl⟩

/-- A state that is entered without fault leaves the machine where it comes to rest. -/
theorem FSM.changeStateBy_line {enter : FSM → Call FSM} {rest : State} (opened : fsm.close = false)
    (enters : ∀ left : FSM, left.line = { fsm.line with state := newState } →
      ∃ entered, enter left = .ok entered ∧ entered.line = { fsm.line with state := rest })
    (ready : rest.state = .bgpFSMEstablished → fsm.peerConn.isSome) :
    ∃ after, fsm.changeStateBy conf enter newState = .ok after ∧
      after.line = { fsm.line with state := rest } := by
  have left : ({ fsm.leave conf with state := newState } : FSM).line =
      { fsm.line with state := newState } :=
    congrArg (fun line : Line => { line with state := newState }) fsm.leave_line
  obtain ⟨entered, done, line⟩ := enters _ left
  have state : entered.state = rest := congrArg Line.state line
  have conn : entered.peerConn = fsm.peerConn := congrArg Line.peerConn line
  obtain ⟨told, telling, same⟩ := entered.announce_line fsm.state.state
    (by rw [state, conn]; exact ready)
  refine ⟨told.output (.stateChange told.state.state), ?_, same.trans line⟩
  rw [FSM.changeStateBy, if_neg (by rw [opened]; decide), done, ok_bind, telling]
  rfl

/-- Entering a state never touches the connection, also where BFD sends the machine on. -/
theorem FSM.enter_line (opened : fsm.close = false) : ∃ after, fsm.enter conf = .ok after ∧
      after.line = { fsm.line with state := settled conf fsm.state } := by
  unfold FSM.enter
  cases here : fsm.state with
  | connectState =>
    dsimp only
    split
    · rename_i down
      rw [settled, if_pos ⟨rfl, down⟩]
      refine FSM.changeStateBy_line opened ?_ fun up => absurd up (by decide)
      intro left line
      exact ⟨_, rfl, line⟩
    · rename_i up
      refine ⟨_, rfl, ?_⟩
      rw [settled, if_neg fun down => up down.2, FSM.initiateConnToPeer_line, ← here]
      rfl
  | _ =>
    refine ⟨_, rfl, ?_⟩
    rw [settled, if_neg fun down => State.noConfusion down.1, ← here]
    rfl

/-- A change of state comes through where an established session would find its connection. -/
theorem FSM.changeState_line {newState : State} (opened : fsm.close = false)
    (ready : newState.connected → fsm.peerConn.isSome) :
    ∃ after, fsm.changeState conf newState = .ok after ∧
      after.line = { fsm.line with state := settled conf newState } := by
  refine FSM.changeStateBy_line opened ?_ ?_
  · intro left line
    have close : left.close = false := (congrArg Line.close line).trans opened
    obtain ⟨entered, done, same⟩ := @FSM.enter_line conf left close
    refine ⟨entered, done, ?_⟩
    rw [same, line, show left.state = newState from congrArg Line.state line]
  · intro up
    apply ready
    rw [← @settled_connected conf]
    generalize settled conf newState = rest at up
    cases rest
    case establishedState => rfl
    all_goals cases up

/-- A machine is ready for a state when it has a connection just as the state asks for. -/
theorem changeState_kept (opened : prepared.close = false)
    (fits : prepared.peerConn.isSome = newState.connected) (same : SameConn fsm prepared) :
    ∃ after, prepared.changeState conf newState = .ok after ∧ Kept fsm after := by
  obtain ⟨after, done, line⟩ := @FSM.changeState_line conf _ _ opened
    (fun up => by rw [fits]; exact up)
  have state : after.state = settled conf newState := congrArg Line.state line
  have conn : after.peerConn = prepared.peerConn := congrArg Line.peerConn line
  have id : after.connId = prepared.connId := congrArg Line.connId line
  refine ⟨after, done, (congrArg Line.close line).trans opened, ?_, ?_⟩
  · rw [FSM.Wired, state, conn, settled_connected, fits]
  · intro live
    rw [conn, id]
    exact same live

/-- Without a connection the machine can go to any state that has none. -/
theorem changeState_unconnected (opened : prepared.close = false)
    (dropped : prepared.peerConn = none) (low : newState.connected = false) :
    ∃ after, prepared.changeState conf newState = .ok after ∧ Kept fsm after :=
  changeState_kept opened (by rw [dropped, low]; rfl) fun _ => .inl dropped

theorem changeState_cleared (cleared : FSM) (opened : cleared.close = false)
    (same : prepared.line = cleared.clearPeerConn.line) (low : newState.connected = false) :
    ∃ after, prepared.changeState conf newState = .ok after ∧ Kept fsm after := by
  refine changeState_unconnected ?_ ?_ low
  · exact (congrArg Line.close same).trans (cleared.clearPeerConn_close.trans opened)
  · exact (congrArg Line.peerConn same).trans cleared.clearPeerConn_peerConn

end Changes

section Events

variable {conf : NeighborConf} {fsm : FSM} {event : BGPFSMEvent} {data : EventData} {fits : Prop}

/-- Falling back to the idle state drops the connection first. -/
theorem fallIdle_advances (opened : prepared.close = false) :
    Advances fits fsm (prepared.fallIdle conf) :=
  .inl (changeState_cleared prepared.stopConnectRetryTimer opened rfl rfl)

/-- A type assertion is what can go wrong, and only on data of another type. -/
theorem advances_typeAssert {α : Type} {given : Option α} {next : α → Call FSM}
    (needs : fits → given.isSome)
    (goes : ∀ value, given = some value → Advances fits fsm (next value)) :
    Advances fits fsm (typeAssert given >>= next) := by
  cases there : given with
  | none =>
    refine .inr ⟨fun holds => ?_, rfl⟩
    have found := needs holds
    rw [there] at found
    cases found
  | some value => exact goes value there

/-- The body of a message is asserted behind the message itself. -/
theorem advances_message {α : Type} {body : BGPMessage (Option BGPBody) → Option α}
    {next : α → Call FSM} (needs : fits → (data.asMessage.bind body).isSome)
    (goes : ∀ value, Advances fits fsm (next value)) :
    Advances fits fsm (typeAssert data.asMessage >>= fun msg => typeAssert (body msg) >>= next) := by
  cases given : data.asMessage with
  | none =>
    rw [given] at needs
    exact advances_typeAssert needs nofun
  | some msg =>
    rw [given] at needs
    show Advances fits fsm (typeAssert (body msg) >>= next)
    exact advances_typeAssert needs fun value _ => goes value

variable (opened : fsm.close = false)

include opened

/-- The handlers of a version error drop the connection without counting the failure. -/
theorem dropIdle_advances : Advances fits fsm
      (fsm.stopConnectRetryTimer.clearPeerConn.stopConnToPeer.changeState conf newIdleState) :=
  .inl (changeState_cleared fsm.stopConnectRetryTimer opened rfl rfl)

/-- A connection is only ever taken by a machine that has none. -/
theorem openConnection_advances (free : fsm.peerConn = none)
    (needs : fits → data.asConn.isSome) : Advances fits fsm (fsm.openConnection conf data) := by
  have none : fsm.stopConnectRetryTimer.peerConn = .none := free
  rw [FSM.openConnection, FSM.setPeerConn, none]
  rw [bind_assoc]
  refine advances_typeAssert needs fun conn _ => ?_
  rw [pure_eq, ok_bind, FSM.sendOpenMessage, FSM.write_of_isSome _ rfl, ok_bind]
  refine .inl (changeState_kept ?_ ?_ ?_)
  · exact (congrArg Line.close (FSM.setHoldTime_line _ _ _)).trans opened
  · rw [show (State.openSentState).connected = true from rfl]
    exact congrArg (fun line : Line => line.peerConn.isSome) (FSM.setHoldTime_line _ _ _)
  · intro live
    rw [free] at live
    cases live

section

variable (live : fsm.peerConn.isSome)

include live

theorem notifyIdle_advances (code subCode : UInt8) (bytes : Bytes) :
    Advances fits fsm (fsm.notifyIdle conf code subCode bytes) := by
  -- The notification is written while the connection is still there.
  rw [FSM.notifyIdle, FSM.sendNotificationMessage, fsm.write_of_isSome live, ok_bind]
  exact fallIdle_advances opened

theorem stopSession_advances : Advances fits fsm (fsm.stopSession conf) := by
  rw [FSM.stopSession, FSM.sendNotificationMessage, fsm.write_of_isSome live, ok_bind]
  exact .inl (changeState_cleared (fsm.output _).stopConnectRetryTimer opened rfl rfl)

theorem reportIdle_advances (needs : fits → data.asMessageError.isSome) :
    Advances fits fsm (fsm.reportIdle conf data) :=
  advances_typeAssert needs fun _ _ => notifyIdle_advances opened live _ _ _

end

variable (wired : fsm.Wired)

include wired

/-- A handler that leaves the state and the connection alone keeps what holds. -/
theorem advances_stay {after : FSM}
    (line : after.line = fsm.line) : Advances fits fsm (.ok after) := by
  have state : after.state = fsm.state := congrArg Line.state line
  have conn : after.peerConn = fsm.peerConn := congrArg Line.peerConn line
  refine .inl ⟨after, rfl, (congrArg Line.close line).trans opened, ?_, ?_⟩
  · rw [FSM.Wired, state, conn]
    exact wired
  · exact fun _ => .inr ⟨conn, congrArg Line.connId line⟩

theorem handleAnotherConnection_advances (needs : fits → data.asConn.isSome) :
    Advances fits fsm (fsm.handleAnotherConnection data) :=
  advances_typeAssert needs fun _ _ => advances_stay opened wired rfl

theorem idleEvent_advances {passive : Bool} (here : fsm.state = .idleState passive) :
    Advances fits fsm (fsm.idleEvent conf passive event) := by
  have free : fsm.peerConn = none := wired.free (by rw [here]; rfl)
  cases event
  case manualStart | autoStart | manualStartPassTcpEst | autoStartPassTcpEst =>
    exact .inl (changeState_unconnected opened free rfl)
  case autoStartDampPeerOscl | autoStartDampPeerOsclPassTcpEst =>
    refine .inl ⟨_, rfl, opened, ?_, fun _ => .inl free⟩
    show fsm.peerConn.isSome = false
    rw [free]
    rfl
  case idleHoldTimerExp =>
    refine .inl (changeState_unconnected opened free ?_)
    cases passive <;> rfl
  all_goals exact advances_stay opened wired rfl

theorem connectEvent_advances (free : fsm.peerConn = none) (needs : fits → Fits event data) :
    Advances fits fsm (fsm.connectEvent conf event data) := by
  cases event
  case manualStop | tcpConnFails => exact .inl (changeState_unconnected opened free rfl)
  case connRetryTimerExp =>
    exact advances_stay opened wired (FSM.initiateConnToPeer_line _)
  case tcpCrAcked | tcpConnConfirmed => exact openConnection_advances opened free needs
  case headerErr | openMsgErr | notifMsgVerErr | autoStop | holdTimerExp | keepAliveTimerExp |
      idleHoldTimerExp | bgpOpen | openCollisionDump | notifMsg | keepAliveMsg | updateMsg |
      updateMsgErr => exact .inl (changeState_unconnected opened free rfl)
  all_goals exact advances_stay opened wired rfl

theorem activeEvent_advances (free : fsm.peerConn = none) (needs : fits → Fits event data) :
    Advances fits fsm (fsm.activeEvent conf event data) := by
  cases event
  case manualStop | connRetryTimerExp => exact .inl (changeState_unconnected opened free rfl)
  case tcpCrAcked | tcpConnConfirmed => exact openConnection_advances opened free needs
  case tcpConnFails =>
    exact .inl (changeState_cleared fsm.startConnectRetryTimer.stopConnToPeer opened rfl rfl)
  case headerErr | openMsgErr | notifMsgVerErr | autoStop | holdTimerExp | keepAliveTimerExp |
      idleHoldTimerExp | bgpOpen | openCollisionDump | notifMsg | keepAliveMsg | updateMsg |
      updateMsgErr => exact fallIdle_advances opened
  all_goals exact advances_stay opened wired rfl

section

variable (live : fsm.peerConn.isSome)

include live

theorem sendKeepAliveMessage_advances : Advances fits fsm fsm.sendKeepAliveMessage := by
  rw [FSM.sendKeepAliveMessage, fsm.write_of_isSome live, ok_bind]
  exact advances_stay opened wired rfl

/-- An OPEN message is put to the manager and answered over the connection it came by. -/
theorem bgpOpen_advances (needs : fits → (data.asMessage.bind asOpen).isSome) :
    Advances fits fsm (fsm.openSentEvent conf .bgpOpen data accepted) := by
  simp only [FSM.openSentEvent, FSM.processOpenMessage, bind_assoc]
  refine advances_message needs fun body => ?_
  -- The hold time is all that the message changes, so the connection is asked for its direction.
  have line := fsm.stopConnectRetryTimer.negotiateHoldTime_line body
  have there : (fsm.stopConnectRetryTimer.negotiateHoldTime body).peerConn.isSome := by
    rw [show (fsm.stopConnectRetryTimer.negotiateHoldTime body).peerConn = fsm.peerConn from
      congrArg Line.peerConn line]
    exact live
  generalize fsm.stopConnectRetryTimer.negotiateHoldTime body = heard at line there
  refine advances_typeAssert (fun _ => there) fun dir _ => ?_
  rw [pure_eq, ok_bind]
  split
  · rw [FSM.sendKeepAliveMessage, heard.write_of_isSome there, ok_bind, pure_eq, ok_bind]
    refine .inl (changeState_kept ?_ there ?_)
    · exact (congrArg Line.close line).trans opened
    · exact fun _ => .inr ⟨congrArg Line.peerConn line, congrArg Line.connId line⟩
  · exact advances_stay opened wired line

theorem openSentEvent_advances (needs : fits → Fits event data) :
    Advances fits fsm (fsm.openSentEvent conf event data accepted) := by
  cases event
  case bgpOpen => exact bgpOpen_advances opened wired live needs
  case manualStop => exact stopSession_advances opened live
  case tcpCrAcked | tcpConnConfirmed =>
    exact handleAnotherConnection_advances opened wired needs
  case tcpConnFails => exact .inl (changeState_cleared fsm opened rfl rfl)
  case notifMsgVerErr => exact dropIdle_advances opened
  case headerErr | openMsgErr => exact reportIdle_advances opened live needs
  case autoStop | openCollisionDump | holdTimerExp | connRetryTimerExp | keepAliveTimerExp |
      delayOpenTimerExp | idleHoldTimerExp | bgpOpenDelayOpenTimer | notifMsg | keepAliveMsg |
      updateMsg | updateMsgErr => exact notifyIdle_advances opened live _ _ _
  all_goals exact advances_stay opened wired rfl

theorem openConfirmEvent_advances (needs : fits → Fits event data) :
    Advances fits fsm (fsm.openConfirmEvent conf event data) := by
  cases event
  case manualStop => exact stopSession_advances opened live
  case keepAliveTimerExp => exact sendKeepAliveMessage_advances opened wired live
  case tcpCrAcked | tcpConnConfirmed =>
    exact handleAnotherConnection_advances opened wired needs
  case tcpConnFails | notifMsg => exact fallIdle_advances opened
  case headerErr | openMsgErr => exact reportIdle_advances opened live needs
  case notifMsgVerErr => exact dropIdle_advances opened
  case keepAliveMsg =>
    -- The manager is handed the connection of the session that has come up.
    exact .inl (changeState_kept opened live fun _ => .inr ⟨rfl, rfl⟩)
  case autoStop | openCollisionDump | holdTimerExp | connRetryTimerExp | delayOpenTimerExp |
      idleHoldTimerExp | bgpOpenDelayOpenTimer | updateMsg | updateMsgErr =>
    exact notifyIdle_advances opened live _ _ _
  all_goals exact advances_stay opened wired rfl

theorem establishedEvent_advances (needs : fits → Fits event data) :
    Advances fits fsm (fsm.establishedEvent conf event data) := by
  cases event
  case manualStop => exact stopSession_advances opened live
  case keepAliveTimerExp => exact sendKeepAliveMessage_advances opened wired live
  case tcpCrAcked | tcpConnConfirmed =>
    exact handleAnotherConnection_advances opened wired needs
  case tcpConnFails | notifMsgVerErr | notifMsg => exact fallIdle_advances opened
  case keepAliveMsg => exact advances_stay opened wired rfl
  case updateMsg => exact advances_message needs fun _ => advances_stay opened wired rfl
  case updateMsgErr => exact reportIdle_advances opened live needs
  case autoStop | openCollisionDump | holdTimerExp | connRetryTimerExp | delayOpenTimerExp |
      idleHoldTimerExp | openMsgErr | bgpOpenDelayOpenTimer | headerErr =>
    exact notifyIdle_advances opened live _ _ _
  all_goals exact advances_stay opened wired rfl

end

/-- One lemma for all states: a handler comes through unless it cannot use its data. -/
theorem processEvent_advances :
    Advances (Fits event data) fsm (fsm.processEvent conf event data accepted) := by
  rw [FSM.processEvent]
  cases here : fsm.state with
  | idleState passive => exact idleEvent_advances opened wired here
  | connectState =>
    exact connectEvent_advances opened wired (wired.free (by rw [here]; rfl)) id
  | activeState => exact activeEvent_advances opened wired (wired.free (by rw [here]; rfl)) id
  | openSentState =>
    exact openSentEvent_advances opened wired (wired.trans (by rw [here]; rfl)) id
  | openConfirmState =>
    exact openConfirmEvent_advances opened wired (wired.trans (by rw [here]; rfl)) id
  | establishedState =>
    exact establishedEvent_advances opened wired (wired.trans (by rw [here]; rfl)) id

/-- An event that was handled leaves the machine open and its connection with its state. -/
theorem processEvent_kept {after : FSM}
    (done : fsm.processEvent conf event data accepted = .ok after) : Kept fsm after := by
  rcases processEvent_advances opened wired with ⟨found, same, kept⟩ | ⟨_, failed⟩
  · rw [done] at same
    cases same
    exact kept
  · rw [done] at failed
    cases failed

end Events

section Runs

/--
The machines that events can lead to from the idle state.

The configuration may be another one at every event. Between events the loop of `StartFSM` touches
timers and flags, but neither the state nor the connection.
-/
inductive EventRun : FSM → Prop where
  | start (conf : NeighborConf) (id : UInt8) : EventRun (newFSM conf id newIdleState)
  | event {fsm after : FSM} (conf : NeighborConf) (event : BGPFSMEvent) (data : EventData)
      (accepted : Bool) (run : EventRun fsm)
      (done : fsm.processEvent conf event data accepted = .ok after) : EventRun after
  | between {fsm after : FSM} (run : EventRun fsm) (same : after.line = fsm.line) : EventRun after

variable {conf : NeighborConf} {fsm after : FSM}

theorem EventRun.kept (run : EventRun fsm) : fsm.close = false ∧ fsm.Wired := by
  induction run with
  | start conf id => exact ⟨rfl, rfl⟩
  | event conf event data accepted run done ih =>
    have kept := processEvent_kept ih.1 ih.2 done
    exact ⟨kept.opened, kept.wired⟩
  | @between fsm after run same ih =>
    have state : after.state = fsm.state := congrArg Line.state same
    have conn : after.peerConn = fsm.peerConn := congrArg Line.peerConn same
    refine ⟨(congrArg Line.close same).trans ih.1, ?_⟩
    rw [FSM.Wired, state, conn]
    exact ih.2

/-- What `StartFSM` does to an idle machine before its loop is one event. -/
theorem EventRun.started {id : UInt8} (done : (newFSM conf id newIdleState).start conf = .ok fsm) :
    EventRun fsm := by
  rw [FSM.start, bind_eq_ok] at done
  obtain ⟨entered, entering, done⟩ := done
  have still : entered.line = (newFSM conf id newIdleState).line := by
    cases entering
    rfl
  exact .event conf _ _ _ (.between (.start conf id) still) done

/-- A round of the loop takes the machine on by events, as long as it is not told to close. -/
theorem EventRun.receive {input : Input} (run : EventRun fsm) (goesOn : input ≠ .close)
    (done : fsm.receive conf input = .ok after) : EventRun after := by
  unfold FSM.receive at done
  rw [if_neg (by rw [run.kept.1]; decide)] at done
  cases input with
  | outConn draws =>
    dsimp only at done
    split at done
    · exact .event conf _ _ _ (.between run (by rfl)) done
    · cases done
      exact run
  | outConnErr id =>
    have stopped : EventRun fsm.stopConnToPeer := .between run rfl
    dsimp only at done
    split at done
    · cases done
      exact stopped
    · obtain ⟨failed, processed, same⟩ := bind_eq_ok.mp done
      cases same
      exact .between (.event conf _ _ _ stopped processed) rfl
  | close => exact absurd rfl goesOn
  | passiveTcpEst flag =>
    cases done
    exact .between run rfl
  | pktTx packets =>
    dsimp only at done
    split at done
    · cases done
      exact run
    · obtain ⟨timer, rfl⟩ := fsm.sendUpdateMessage_timer done
      exact .between run rfl
  | pktRx packet accepted =>
    cases packet with
    | inr err => exact .event conf _ _ _ run done
    | inl msg => exact .event conf _ _ _ run (fsm.processPacket_message done)
  | command event exceeded =>
    obtain ⟨middle, first, second⟩ := bind_eq_ok.mp done
    have between : EventRun middle := .event conf _ _ _ (.between run (by rfl)) first
    exact .event conf _ _ _ (.between between (by rfl)) second
  | bfdStatus up =>
    obtain ⟨middle, first, second⟩ := bind_eq_ok.mp done
    have between : EventRun middle := by
      unfold FSM.bfdStop at first
      split at first
      · exact .event conf _ _ _ run first
      · cases first
        exact run
    exact .event conf _ _ _ between second
  | inConn | connectRetryTimer | holdTimer | keepAliveTimer | idleHoldTimer | restartTimer =>
    exact .event conf _ _ _ run done

/--
After any events there is a connection exactly in the states that stand for one.

No handler misses it, since each comes through with data of the right type, and none puts another
connection in its place.
-/
theorem peerConn_iff_connected (run : EventRun fsm) :
    (fsm.peerConn.isSome ↔ fsm.state = .openSentState ∨ fsm.state = .openConfirmState ∨
      fsm.state = .establishedState) ∧
    (∀ conf event data accepted, Fits event data →
      ∃ after, fsm.processEvent conf event data accepted = .ok after) ∧
    ∀ conf event data accepted after, fsm.processEvent conf event data accepted = .ok after →
      SameConn fsm after := by
  obtain ⟨opened, wired⟩ := run.kept
  refine ⟨?_, ?_, ?_⟩
  · rw [wired]
    cases fsm.state <;> simp [State.connected]
  · intro conf event data accepted fits
    rcases processEvent_advances opened wired with ⟨after, done, _⟩ | ⟨unfit, _⟩
    · exact ⟨after, done⟩
    · exact absurd fits unfit
  · intro conf event data accepted after done
    exact (processEvent_kept opened wired done).same

/-- An incoming connection opens a session that has it. -/
theorem peerConn_of_incoming :
    ∃ fsm, EventRun fsm ∧ fsm.state = .openSentState ∧ fsm.peerConn.isSome := by
  have started : EventRun _ :=
    .event slowConf .manualStart .nil false (.start slowConf 0) rfl
  have opened : EventRun _ :=
    .event slowConf .tcpConnConfirmed (.conn ⟨.connDirIn, (1, 2)⟩) false started rfl
  exact ⟨_, opened, rfl, (peerConn_iff_connected opened).1.mpr (.inl rfl)⟩

end Runs

end FlexSwitch.Fsm
