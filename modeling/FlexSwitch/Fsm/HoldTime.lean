import FlexSwitch.Fsm.Machine

/-! Which hold and keepalive times a session uses once it is established. -/

namespace FlexSwitch.Fsm

open Go Packet Outcome FSM

variable {newState : State} {accepted : Bool}

/-- The part of a machine that its times depend on. -/
structure View where
  state : State
  close : Bool
  holdTime : UInt32
  keepAliveTime : UInt32
deriving DecidableEq, Repr

def FSM.view (fsm : FSM) : View := ⟨fsm.state, fsm.close, fsm.holdTime, fsm.keepAliveTime⟩

/-- The hold time and the keepalive time. -/
def View.times (view : View) : UInt32 × UInt32 := (view.holdTime, view.keepAliveTime)

section Frames

variable (fsm : FSM)

-- Counters, timers, outputs and the connection are outside the view.

@[simp] theorem FSM.output_view (out : Output) : (fsm.output out).view = fsm.view := rfl

@[simp] theorem FSM.stopConnectRetryTimer_view : fsm.stopConnectRetryTimer.view = fsm.view := rfl

@[simp] theorem FSM.startHoldTimer_view : fsm.startHoldTimer.view = fsm.view := rfl

@[simp] theorem FSM.startKeepAliveTimer_view : fsm.startKeepAliveTimer.view = fsm.view := rfl

@[simp] theorem FSM.clearPeerConn_view : fsm.clearPeerConn.view = fsm.view := by
  unfold FSM.clearPeerConn
  split <;> rfl

@[simp] theorem FSM.initiateConnToPeer_view (conf : NeighborConf) :
    (fsm.initiateConnToPeer conf).view = fsm.view := by
  unfold FSM.initiateConnToPeer
  split <;> rfl

theorem FSM.write_view {out : Output} {after : FSM} (written : fsm.write out = .ok after) :
    after.view = fsm.view := by
  unfold FSM.write at written
  split at written
  · cases written
    rfl
  · cases written

theorem FSM.sendKeepAliveMessage_view {after : FSM} (sent : fsm.sendKeepAliveMessage = .ok after) :
    after.view = fsm.view := by
  rw [FSM.sendKeepAliveMessage, bind_eq_ok] at sent
  obtain ⟨written, wrote, same⟩ := sent
  cases same
  rw [startKeepAliveTimer_view, fsm.write_view wrote]

theorem FSM.setPeerConn_view {data : EventData} {after : FSM}
    (set : fsm.setPeerConn data = .ok after) : after.view = fsm.view := by
  unfold FSM.setPeerConn at set
  split at set
  · cases set
    rfl
  · obtain ⟨conn, _, same⟩ := bind_eq_ok.mp set
    cases same
    rfl

/-- Packets that are sent restart one timer and change nothing else. -/
theorem FSM.sendUpdateMessage_timer {packets : List Bool} {after : FSM}
    (sent : fsm.sendUpdateMessage packets = .ok after) :
    ∃ timer, after = { fsm with keepAliveTimer := timer } := by
  induction packets generalizing fsm with
  | nil =>
    cases sent
    exact ⟨_, rfl⟩
  | cons written packets ih =>
    rw [FSM.sendUpdateMessage] at sent
    split at sent
    · cases sent
    · split at sent
      · exact ih fsm.startKeepAliveTimer sent
      · cases sent
        exact ⟨_, rfl⟩

/-- A message that is not refused is handed on as the event it stands for. -/
theorem FSM.processPacket_message {conf : NeighborConf} {msg : BGPMessage (Option BGPBody)}
    {accepted : Bool} {after : FSM} (done : fsm.processPacket conf (.inl msg) accepted = .ok after) :
    fsm.processEvent conf (packetEvent (.inl msg)) (.message msg) accepted = .ok after := by
  change (if msg.header.type = bgpMsgTypeNotification then _ else _) = _ at done
  split at done
  · obtain ⟨_, _, processed⟩ := bind_eq_ok.mp done
    exact processed
  · exact done

end Frames

section Times

variable {conf : NeighborConf} {view : View}

/-- A hold time of one or two seconds, which is not taken over. -/
def Refused (holdTime : UInt32) : Prop := holdTime > 0 ∧ holdTime < 3

instance (holdTime : UInt32) : Decidable (Refused holdTime) :=
  inferInstanceAs (Decidable (_ ∧ _))

/-- The view with the given times, unless they are refused. -/
def View.setHoldTime (view : View) (holdTime keepaliveTime : UInt32) : View :=
  if Refused holdTime then view
  else { view with holdTime := holdTime, keepAliveTime := keepaliveTime }

/-- The view with the configured times. -/
def View.configured (conf : NeighborConf) (view : View) : View :=
  view.setHoldTime conf.holdTime conf.keepaliveTime

/-- The view with the times that the hold time of an OPEN message leads to. -/
def View.negotiated (view : View) (heard : UInt16) : View :=
  if heard.toUInt32 < view.holdTime then
    view.setHoldTime heard.toUInt32 (heard / 3).toUInt32
  else view

theorem FSM.setHoldTime_view (fsm : FSM) (holdTime keepaliveTime : UInt32) :
    (fsm.setHoldTime holdTime keepaliveTime).view =
      fsm.view.setHoldTime holdTime keepaliveTime := by
  by_cases refused : holdTime > 0 ∧ holdTime < 3
  · rw [FSM.setHoldTime, if_pos refused, View.setHoldTime, if_pos (show Refused _ from refused)]
  · rw [FSM.setHoldTime, if_neg refused, View.setHoldTime, if_neg (show ¬ Refused _ from refused)]
    rfl

theorem FSM.negotiateHoldTime_view (fsm : FSM) (body : BGPOpen) :
    (fsm.negotiateHoldTime body).view = fsm.view.negotiated body.holdTime := by
  have same : fsm.view.holdTime = fsm.holdTime := rfl
  by_cases lower : body.holdTime.toUInt32 < fsm.holdTime
  · rw [FSM.negotiateHoldTime, if_pos lower, View.negotiated, same, if_pos lower, setHoldTime_view]
  · rw [FSM.negotiateHoldTime, if_neg lower, View.negotiated, same, if_neg lower]

@[simp] theorem View.setHoldTime_state (holdTime keepaliveTime : UInt32) :
    (view.setHoldTime holdTime keepaliveTime).state = view.state := by
  unfold View.setHoldTime
  split <;> rfl

@[simp] theorem View.setHoldTime_close (holdTime keepaliveTime : UInt32) :
    (view.setHoldTime holdTime keepaliveTime).close = view.close := by
  unfold View.setHoldTime
  split <;> rfl

@[simp] theorem View.negotiated_state (heard : UInt16) :
    (view.negotiated heard).state = view.state := by
  unfold View.negotiated
  split
  · exact View.setHoldTime_state _ _
  · rfl

/-- Leaving a session gives the machine its configured times back. -/
theorem FSM.leave_view (fsm : FSM) : (fsm.leave conf).view =
      if fsm.state = .openConfirmState ∨ fsm.state = .establishedState then
        fsm.view.configured conf
      else fsm.view := by
  unfold FSM.leave
  cases located : fsm.state <;> simp [View.configured, setHoldTime_view]
  rfl

/-- Where a machine that is sent to a state comes to rest: BFD keeps it from connecting. -/
def settled (conf : NeighborConf) (newState : State) : State :=
  if newState = .connectState ∧ conf.useBfdState ∧ conf.bfdEnable ∧ conf.bfdNeighborDown then
    .activeState
  else newState

/-- What is done after entering a state is outside the view. -/
theorem FSM.changeStateBy_view {fsm after : FSM} {enter : FSM → Call FSM}
    (opened : fsm.close = false) (changed : fsm.changeStateBy conf enter newState = .ok after) :
    ∃ entered, enter { fsm.leave conf with state := newState } = .ok entered ∧
      after.view = entered.view := by
  rw [FSM.changeStateBy, if_neg (by rw [opened]; decide), bind_eq_ok] at changed
  obtain ⟨entered, done, changed⟩ := changed
  refine ⟨entered, done, ?_⟩
  obtain ⟨told, telling, same⟩ := bind_eq_ok.mp changed
  cases same
  rw [output_view]
  unfold FSM.announce at telling
  split at telling
  · cases telling
    rfl
  · split at telling
    · exact entered.write_view telling
    · cases telling
      rfl

/-- Entering a state keeps the times, also where BFD sends the machine on. -/
theorem FSM.enter_view {fsm after : FSM} (opened : fsm.close = false)
    (entered : fsm.enter conf = .ok after) :
    after.view = { fsm.view with state := settled conf fsm.state } := by
  unfold FSM.enter at entered
  cases here : fsm.state with
  | connectState =>
    rw [here] at entered
    dsimp only at entered
    split at entered
    · rename_i down
      -- The nested change of state leaves a state that restores no times.
      obtain ⟨again, nested, same⟩ := changeStateBy_view opened entered
      cases nested
      have left : (fsm.leave conf).view = fsm.view := by
        rw [leave_view, here, if_neg (by decide)]
      rw [same, settled, if_pos ⟨rfl, down⟩, ← left]
      rfl
    · rename_i up
      cases entered
      rw [settled, if_neg fun down => up down.2, initiateConnToPeer_view, output_view, ← here]
      rfl
  | _ =>
    rw [here] at entered
    cases entered
    rw [settled, if_neg nofun, ← here]
    rfl

theorem FSM.changeState_view {fsm after : FSM}
    (changed : fsm.changeState conf newState = .ok after) :
    after.view = if fsm.close then fsm.view
      else { (fsm.leave conf).view with state := settled conf newState } := by
  cases closed : fsm.close with
  | true =>
    rw [FSM.changeState, FSM.changeStateBy, if_pos closed] at changed
    cases changed
    rfl
  | false =>
    obtain ⟨entered, done, same⟩ := changeStateBy_view closed changed
    have kept : (fsm.leave conf).view.close = fsm.view.close := by
      rw [leave_view]
      split
      · exact View.setHoldTime_close _ _
      · rfl
    have view := enter_view (by exact kept.trans closed) done
    rw [same, if_neg (by decide), view]
    rfl

end Times

/-- The states in which no OPEN message has been accepted. -/
def State.Low (state : State) : Prop := state ≠ .openConfirmState ∧ state ≠ .establishedState

instance (state : State) : Decidable state.Low := inferInstanceAs (Decidable (_ ∧ _))

/-- What an event can do to the times, by the hold time of the OPEN message it came with. -/
inductive TimeStep (conf : NeighborConf) : Option UInt16 → View → View → Prop where
  | stay (view : View) : TimeStep conf none view view
  | low {view after : View} : after.state.Low →
      after.times = view.times ∨ after.times = (view.configured conf).times →
      TimeStep conf none view after
  | establish {view after : View} : view.state = .openConfirmState →
      after.state = .establishedState → after.times = (view.configured conf).times →
      TimeStep conf none view after
  | heard {view after : View} {holdTime : UInt16} : view.state = .openSentState →
      after.state = .openSentState ∨ after.state = .openConfirmState →
      after.times = (view.negotiated holdTime).times → TimeStep conf (some holdTime) view after

section Events

variable {conf : NeighborConf} {fsm after : FSM} {event : BGPFSMEvent} {data : EventData}

theorem settled_low (low : newState.Low) : (settled conf newState).Low := by
  unfold settled
  split
  · decide
  · exact low

/-- A state without an accepted OPEN message keeps the times on leaving. -/
theorem leave_low (low : fsm.state.Low) : (fsm.leave conf).view = fsm.view := by
  rw [leave_view, if_neg (fun other => other.elim low.1 low.2)]

/-- A machine sent to a low state keeps its times or has the configured ones again. -/
theorem changeState_low {prepared : FSM} (changed : prepared.changeState conf newState = .ok after)
    (same : prepared.view = fsm.view) (low : newState.Low) :
    TimeStep conf none fsm.view after.view := by
  have view := changeState_view changed
  split at view
  · rw [view, same]
    exact .stay _
  · refine .low ?_ ?_
    · rw [view]
      exact settled_low low
    · rw [view, ← same]
      rw [leave_view]
      split
      · exact .inr rfl
      · exact .inl rfl

theorem openConnection_step (here : fsm.state.Low)
    (done : fsm.openConnection conf data = .ok after) : TimeStep conf none fsm.view after.view := by
  rw [FSM.openConnection, bind_eq_ok] at done
  obtain ⟨connected, set, done⟩ := done
  obtain ⟨opened, sent, done⟩ := bind_eq_ok.mp done
  -- The times are the configured ones before the state is left, and leaving changes nothing.
  have same : ((opened.setHoldTime conf.holdTime conf.keepaliveTime).startHoldTimer).view =
      fsm.view.configured conf := by
    rw [startHoldTimer_view, setHoldTime_view, connected.write_view sent, setPeerConn_view _ set]
    rfl
  have state : ((opened.setHoldTime conf.holdTime conf.keepaliveTime).startHoldTimer).state =
      fsm.state := by
    show ((opened.setHoldTime conf.holdTime conf.keepaliveTime).startHoldTimer).view.state = _
    rw [same]
    exact View.setHoldTime_state _ _
  have view := changeState_view done
  rw [leave_low (by rw [state]; exact here), same] at view
  refine .low ?_ (.inr ?_)
  · rw [view]
    split
    · show (fsm.view.setHoldTime _ _).state.Low
      rw [View.setHoldTime_state]
      exact here
    · show (settled conf .openSentState).Low
      exact settled_low (by decide)
  · rw [view]
    split <;> rfl

theorem fallIdle_step {prepared : FSM} (done : prepared.fallIdle conf = .ok after)
    (same : prepared.view = fsm.view) : TimeStep conf none fsm.view after.view :=
  changeState_low done ((clearPeerConn_view _).trans same) (by decide)

theorem notifyIdle_step {code subCode : UInt8} {bytes : Bytes}
    (done : fsm.notifyIdle conf code subCode bytes = .ok after) :
    TimeStep conf none fsm.view after.view := by
  rw [FSM.notifyIdle, bind_eq_ok] at done
  obtain ⟨sent, written, done⟩ := done
  exact fallIdle_step done (fsm.write_view written)

theorem stopSession_step (done : fsm.stopSession conf = .ok after) :
    TimeStep conf none fsm.view after.view := by
  rw [FSM.stopSession, bind_eq_ok] at done
  obtain ⟨sent, written, done⟩ := done
  have same : sent.view = fsm.view := fsm.write_view written
  exact changeState_low done ((clearPeerConn_view _).trans same) (by decide)

theorem reportIdle_step (done : fsm.reportIdle conf data = .ok after) :
    TimeStep conf none fsm.view after.view := by
  rw [FSM.reportIdle, bind_eq_ok] at done
  obtain ⟨err, _, done⟩ := done
  exact notifyIdle_step done

theorem handleAnotherConnection_step (done : fsm.handleAnotherConnection data = .ok after) :
    TimeStep conf none fsm.view after.view := by
  rw [FSM.handleAnotherConnection, bind_eq_ok] at done
  obtain ⟨conn, _, same⟩ := done
  cases same
  exact .stay _

theorem sendKeepAliveMessage_step (done : fsm.sendKeepAliveMessage = .ok after) :
    TimeStep conf none fsm.view after.view := by
  rw [fsm.sendKeepAliveMessage_view done]
  exact .stay _

theorem idleEvent_step {passive : Bool} (done : fsm.idleEvent conf passive event = .ok after) :
    TimeStep conf none fsm.view after.view := by
  cases event
  case manualStart | autoStart | manualStartPassTcpEst | autoStartPassTcpEst =>
    exact changeState_low done rfl (by decide)
  case autoStartDampPeerOscl | autoStartDampPeerOsclPassTcpEst =>
    cases done
    exact .low (show (State.idleState _).Low from ⟨nofun, nofun⟩) (.inl rfl)
  case idleHoldTimerExp =>
    refine changeState_low done rfl ?_
    cases passive <;> decide
  all_goals
    cases done
    exact .stay _

theorem connectEvent_step (here : fsm.state.Low)
    (done : fsm.connectEvent conf event data = .ok after) :
    TimeStep conf none fsm.view after.view := by
  cases event
  case manualStop | tcpConnFails => exact changeState_low done rfl (by decide)
  case connRetryTimerExp =>
    cases done
    rw [initiateConnToPeer_view]
    exact .stay _
  case tcpCrAcked | tcpConnConfirmed => exact openConnection_step here done
  case headerErr | openMsgErr | notifMsgVerErr | autoStop | holdTimerExp | keepAliveTimerExp |
      idleHoldTimerExp | bgpOpen | openCollisionDump | notifMsg | keepAliveMsg | updateMsg |
      updateMsgErr => exact changeState_low done rfl (by decide)
  all_goals
    cases done
    exact .stay _

theorem activeEvent_step (here : fsm.state.Low)
    (done : fsm.activeEvent conf event data = .ok after) :
    TimeStep conf none fsm.view after.view := by
  cases event
  case manualStop | connRetryTimerExp => exact changeState_low done rfl (by decide)
  case tcpCrAcked | tcpConnConfirmed => exact openConnection_step here done
  case tcpConnFails => exact changeState_low done (clearPeerConn_view _) (by decide)
  case headerErr | openMsgErr | notifMsgVerErr | autoStop | holdTimerExp | keepAliveTimerExp |
      idleHoldTimerExp | bgpOpen | openCollisionDump | notifMsg | keepAliveMsg | updateMsg |
      updateMsgErr => exact fallIdle_step done rfl
  all_goals
    cases done
    exact .stay _

/-- The hold time of the OPEN message that an event puts to a machine waiting for one. -/
def heardIn (fsm : FSM) (event : BGPFSMEvent) (data : EventData) : Option UInt16 :=
  if fsm.state = .openSentState ∧ event = .bgpOpen then
    (data.asMessage.bind asOpen).map BGPOpen.holdTime
  else none

/-- An OPEN message is answered with the times it leads to, whether or not it is taken. -/
theorem bgpOpen_step (here : fsm.state = .openSentState)
    (done : fsm.openSentEvent conf .bgpOpen data accepted = .ok after) :
    TimeStep conf (heardIn fsm .bgpOpen data) fsm.view after.view := by
  rw [FSM.openSentEvent, bind_eq_ok] at done
  obtain ⟨msg, given, done⟩ := done
  obtain ⟨⟨answered, taken⟩, processed, done⟩ := bind_eq_ok.mp done
  rw [FSM.processOpenMessage, bind_eq_ok] at processed
  obtain ⟨body, opening, processed⟩ := processed
  obtain ⟨conn, _, same⟩ := bind_eq_ok.mp processed
  cases same
  have message : data.asMessage = some msg := typeAssert_eq_ok.mp given
  have opened : asOpen msg = some body := typeAssert_eq_ok.mp opening
  have heard : heardIn fsm .bgpOpen data = some body.holdTime := by
    rw [heardIn, if_pos ⟨here, rfl⟩, message]
    show (asOpen msg).map _ = _
    rw [opened]
    rfl
  have view : (fsm.stopConnectRetryTimer.negotiateHoldTime body).view =
      fsm.view.negotiated body.holdTime := by
    rw [negotiateHoldTime_view, stopConnectRetryTimer_view]
  have state : (fsm.stopConnectRetryTimer.negotiateHoldTime body).view.state = .openSentState := by
    rw [view, View.negotiated_state]
    exact here
  rw [heard]
  dsimp only at done
  split at done
  · obtain ⟨sent, sending, done⟩ := bind_eq_ok.mp done
    have sentView := sendKeepAliveMessage_view _ sending
    -- The machine waits for a KEEPALIVE message, unless it has been told to close.
    have changed := changeState_view done
    have low : sent.startHoldTimer.state.Low := by
      show sent.view.state.Low
      rw [sentView, state]
      decide
    rw [leave_low low, startHoldTimer_view, sentView] at changed
    split at changed
    · refine .heard here (.inl ?_) ?_
      · rw [changed, state]
      · rw [changed, view]
    · refine .heard here (.inr ?_) ?_
      · rw [changed]
        rfl
      · rw [changed, view]
        rfl
  · cases done
    exact .heard here (.inl state) (by rw [view])

theorem openSentEvent_step (here : fsm.state = .openSentState)
    (done : fsm.openSentEvent conf event data accepted = .ok after) :
    TimeStep conf (heardIn fsm event data) fsm.view after.view := by
  by_cases opening : event = .bgpOpen
  · subst opening
    exact bgpOpen_step here done
  rw [heardIn, if_neg fun both => opening both.2]
  cases event
  case bgpOpen => exact absurd rfl opening
  case manualStop => exact stopSession_step done
  case tcpCrAcked | tcpConnConfirmed => exact handleAnotherConnection_step done
  case tcpConnFails | notifMsgVerErr =>
    exact changeState_low done (clearPeerConn_view _) (by decide)
  case headerErr | openMsgErr => exact reportIdle_step done
  case autoStop | openCollisionDump | holdTimerExp | connRetryTimerExp | keepAliveTimerExp |
      delayOpenTimerExp | idleHoldTimerExp | bgpOpenDelayOpenTimer | notifMsg | keepAliveMsg |
      updateMsg | updateMsgErr => exact notifyIdle_step done
  all_goals
    cases done
    exact .stay _

/-- No OPEN message is taken here, so the times stay or are the configured ones. -/
theorem openConfirmEvent_step (here : fsm.state = .openConfirmState)
    (done : fsm.openConfirmEvent conf event data = .ok after) :
    TimeStep conf none fsm.view after.view := by
  cases event
  case manualStop => exact stopSession_step done
  case keepAliveTimerExp => exact sendKeepAliveMessage_step done
  case tcpCrAcked | tcpConnConfirmed => exact handleAnotherConnection_step done
  case tcpConnFails | notifMsg => exact fallIdle_step done rfl
  case headerErr | openMsgErr => exact reportIdle_step done
  case notifMsgVerErr => exact changeState_low done (clearPeerConn_view _) (by decide)
  case keepAliveMsg =>
    -- Leaving for the established state restores the configured times.
    have left : (fsm.startHoldTimer.leave conf).view = fsm.view.configured conf := by
      have waiting : fsm.startHoldTimer.state = .openConfirmState := here
      rw [leave_view, if_pos (.inl waiting), startHoldTimer_view]
    have view := changeState_view done
    rw [left] at view
    split at view
    · rw [view]
      exact .stay _
    · refine .establish here ?_ ?_
      · rw [view]
        rfl
      · rw [view]
        rfl
  case autoStop | openCollisionDump | holdTimerExp | connRetryTimerExp | delayOpenTimerExp |
      idleHoldTimerExp | bgpOpenDelayOpenTimer | updateMsg | updateMsgErr =>
    exact notifyIdle_step done
  all_goals
    cases done
    exact .stay _

theorem establishedEvent_step (done : fsm.establishedEvent conf event data = .ok after) :
    TimeStep conf none fsm.view after.view := by
  cases event
  case manualStop => exact stopSession_step done
  case keepAliveTimerExp => exact sendKeepAliveMessage_step done
  case tcpCrAcked | tcpConnConfirmed => exact handleAnotherConnection_step done
  case tcpConnFails | notifMsgVerErr | notifMsg => exact fallIdle_step done rfl
  case keepAliveMsg =>
    cases done
    exact .stay _
  case updateMsg =>
    simp only [FSM.establishedEvent, FSM.processUpdateMessage, bind_eq_ok] at done
    obtain ⟨msg, _, update, _, same⟩ := done
    cases same
    exact .stay _
  case updateMsgErr => exact reportIdle_step done
  case autoStop | openCollisionDump | holdTimerExp | connRetryTimerExp | delayOpenTimerExp |
      idleHoldTimerExp | openMsgErr | bgpOpenDelayOpenTimer | headerErr => exact notifyIdle_step done
  all_goals
    cases done
    exact .stay _

/-- One lemma for all states: what an event does to the times. -/
theorem processEvent_step (done : fsm.processEvent conf event data accepted = .ok after) :
    TimeStep conf (heardIn fsm event data) fsm.view after.view := by
  rw [FSM.processEvent] at done
  cases here : fsm.state with
  | openSentState =>
    rw [here] at done
    exact openSentEvent_step here done
  | _ =>
    rw [here] at done
    rw [heardIn, here, if_neg nofun]
    first
      | exact idleEvent_step done
      | exact connectEvent_step (by rw [here]; decide) done
      | exact activeEvent_step (by rw [here]; decide) done
      | exact openConfirmEvent_step here done
      | exact establishedEvent_step done

end Events

section Runs

variable {conf : NeighborConf} {fsm after : FSM} {view later : View} {opens : List UInt16}

/-- The hold time of the OPEN message that the loop puts to a machine waiting for one. -/
def FSM.openHeard (fsm : FSM) (input : Input) : Option UInt16 :=
  match input with
  | .pktRx (.inl msg) _ =>
    if fsm.close then none else heardIn fsm (FSM.packetEvent (.inl msg)) (.message msg)
  | _ => none

/--
The machines that a session can come to, with the hold times of the OPEN messages heard.

A machine is started idle, or connecting or active for a second connection. The latest OPEN message
comes first.
-/
inductive Run (conf : NeighborConf) : FSM → List UInt16 → Prop where
  | start {id : UInt8} {state : State} {fsm : FSM} : state.Low → state ≠ .openSentState →
      (newFSM conf id state).start conf = .ok fsm → Run conf fsm []
  | step {fsm after : FSM} {opens : List UInt16} (input : Input) : Run conf fsm opens →
      fsm.receive conf input = .ok after → Run conf after ((fsm.openHeard input).toList ++ opens)

/-- What is known of the times at any moment of a run. -/
structure TimesKnown (conf : NeighborConf) (opens : List UInt16) (view : View) : Prop where
  /-- Configured times that are refused stay until an OPEN message asks for no hold time. -/
  refused : Refused conf.holdTime →
    view.times = if 0 ∈ opens then (0, 0) else (conf.holdTime, conf.keepaliveTime)
  /-- An established session has the configured times. -/
  established : ¬ Refused conf.holdTime → view.state = .establishedState →
    view.times = (conf.holdTime, conf.keepaliveTime)
  /-- An OPEN message was heard on the way to a session. -/
  heard : ¬ view.state.Low → opens ≠ []

theorem configured_times : (view.configured conf).times =
      if Refused conf.holdTime then view.times else (conf.holdTime, conf.keepaliveTime) := by
  unfold View.configured View.setHoldTime
  split <;> rfl

theorem negotiated_times (heard : UInt16) : (view.negotiated heard).times =
      if heard.toUInt32 < view.holdTime ∧ ¬ Refused heard.toUInt32 then
        (heard.toUInt32, (heard / 3).toUInt32)
      else view.times := by
  unfold View.negotiated View.setHoldTime
  by_cases lower : heard.toUInt32 < view.holdTime
  · by_cases refused : Refused heard.toUInt32
    · simp [lower, refused]
    · simp [lower, refused, View.times]
  · simp [lower]

/-- Against refused times only an OPEN message that asks for no hold time has an effect. -/
theorem negotiated_refused {heard : UInt16} (refused : Refused conf.holdTime)
    (known : view.times = if 0 ∈ opens then (0, 0) else (conf.holdTime, conf.keepaliveTime)) :
    (view.negotiated heard).times =
      if 0 ∈ heard :: opens then (0, 0) else (conf.holdTime, conf.keepaliveTime) := by
  obtain ⟨positive, below⟩ := refused
  rw [negotiated_times]
  by_cases silenced : 0 ∈ opens
  · -- There is nothing below a hold time of zero.
    rw [if_pos silenced] at known
    have zero : view.holdTime = 0 := congrArg Prod.fst known
    rw [zero, if_neg fun both => UInt32.not_lt_zero both.1, known,
      if_pos (List.mem_cons_of_mem _ silenced)]
  · rw [if_neg silenced] at known
    have same : view.holdTime = conf.holdTime := congrArg Prod.fst known
    rw [same, known]
    by_cases zero : heard = 0
    · subst zero
      rw [if_pos List.mem_cons_self, if_pos ⟨positive, fun refused => UInt32.not_lt_zero refused.1⟩]
      rfl
    · -- A hold time below the configured one is refused as well.
      have announced : heard.toUInt32 > 0 := by
        have apart : heard.toNat ≠ 0 := fun noTime => zero (UInt16.toNat_inj.mp noTime)
        rw [gt_iff_lt, UInt32.lt_iff_toNat_lt, UInt16.toNat_toUInt32]
        show 0 < heard.toNat
        omega
      rw [if_neg fun both => both.2 ⟨announced, UInt32.lt_trans both.1 below⟩,
        if_neg (by simp [silenced, Ne.symm zero])]

/-- An event without an OPEN message keeps what is known. -/
theorem TimesKnown.silent (known : TimesKnown conf opens view)
    (step : TimeStep conf none view later) : TimesKnown conf opens later := by
  cases step with
  | stay => exact known
  | low low times =>
    refine ⟨fun refused => ?_, fun _ established => absurd established low.2,
      fun high => absurd low high⟩
    rw [configured_times, if_pos refused, or_self] at times
    rw [times, known.refused refused]
  | establish confirmed established times =>
    rw [configured_times] at times
    refine ⟨fun refused => ?_, fun accepted _ => ?_, fun _ => known.heard ?_⟩
    · rw [if_pos refused] at times
      rw [times, known.refused refused]
    · rw [if_neg accepted] at times
      exact times
    · rw [confirmed]
      decide

theorem TimesKnown.hears {holdTime : UInt16} (known : TimesKnown conf opens view)
    (step : TimeStep conf (some holdTime) view later) :
    TimesKnown conf (holdTime :: opens) later := by
  cases step with
  | heard waiting state times =>
    refine ⟨fun refused => ?_, fun _ established => ?_, fun _ => List.cons_ne_nil _ _⟩
    · rw [times, negotiated_refused refused (known.refused refused)]
    · rcases state with same | confirmed
      · rw [same] at established
        cases established
      · rw [confirmed] at established
        cases established

/-- An event that brings no OPEN message to a machine waiting for one keeps what is known. -/
theorem processEvent_known {event : BGPFSMEvent} {data : EventData}
    (done : fsm.processEvent conf event data accepted = .ok after) (silent : data.asMessage = none)
    (known : TimesKnown conf opens fsm.view) :
    TimesKnown conf opens after.view := by
  have step := processEvent_step done
  have unheard : heardIn fsm event data = none := by
    rw [heardIn, silent]
    split <;> rfl
  rw [unheard] at step
  exact known.silent step

/-- One round of the loop keeps what is known. -/
theorem TimesKnown.receive {input : Input} (known : TimesKnown conf opens fsm.view)
    (done : fsm.receive conf input = .ok after) :
    TimesKnown conf ((fsm.openHeard input).toList ++ opens) after.view := by
  unfold FSM.receive at done
  split at done
  · -- A machine that has left its loop hears nothing.
    rename_i closed
    cases done
    have unheard : fsm.openHeard input = none := by
      unfold FSM.openHeard
      split
      · rw [if_pos closed]
      · rfl
    rw [unheard]
    exact known
  rename_i opened
  cases input with
  | outConn draws =>
    dsimp only at done
    split at done
    · exact processEvent_known done rfl known
    · cases done
      exact known
  | outConnErr id =>
    dsimp only at done
    split at done
    · cases done
      exact known
    · obtain ⟨failed, processed, same⟩ := bind_eq_ok.mp done
      cases same
      show TimesKnown conf opens failed.view
      exact processEvent_known processed rfl known
  | inConn draws => exact processEvent_known done rfl known
  | close =>
    have told : TimesKnown conf opens { fsm with close := true }.view :=
      ⟨known.refused, known.established, known.heard⟩
    exact processEvent_known done rfl told
  | passiveTcpEst flag =>
    cases done
    exact known
  | pktTx packets =>
    dsimp only at done
    split at done
    · cases done
      exact known
    · obtain ⟨timer, rfl⟩ := fsm.sendUpdateMessage_timer done
      exact known
  | pktRx packet accepted =>
    cases packet with
    | inr err => exact processEvent_known done rfl known
    | inl msg =>
      have step := processEvent_step (fsm.processPacket_message done)
      have heard : fsm.openHeard (.pktRx (.inl msg) accepted) =
          heardIn fsm (FSM.packetEvent (.inl msg)) (.message msg) := if_neg opened
      rw [heard]
      cases found : heardIn fsm _ _ with
      | none =>
        rw [found] at step
        exact known.silent step
      | some holdTime =>
        rw [found] at step
        exact known.hears step
  | command event exceeded =>
    obtain ⟨middle, first, second⟩ := bind_eq_ok.mp done
    have between : TimesKnown conf opens middle.view := processEvent_known first rfl known
    exact processEvent_known second rfl between
  | bfdStatus up =>
    obtain ⟨middle, first, second⟩ := bind_eq_ok.mp done
    have between : TimesKnown conf opens middle.view := by
      unfold FSM.bfdStop at first
      split at first
      · exact processEvent_known first rfl known
      · cases first
        exact known
    exact processEvent_known second rfl between
  | connectRetryTimer | holdTimer | keepAliveTimer | idleHoldTimer | restartTimer =>
    exact processEvent_known done rfl known

theorem Run.timesKnown (run : Run conf fsm opens) : TimesKnown conf opens fsm.view := by
  induction run with
  | start low notSent started =>
    rename_i id state fsm
    rw [FSM.start, bind_eq_ok] at started
    obtain ⟨entered, entering, started⟩ := started
    refine processEvent_known started rfl ?_
    -- Entering the first state keeps the times the machine was made with.
    have kept : entered.view.times = (conf.holdTime, conf.keepaliveTime) ∧ entered.view.state.Low := by
      rw [enter_view rfl entering]
      exact ⟨rfl, settled_low low⟩
    refine ⟨fun _ => kept.1, fun _ _ => kept.1, fun high => absurd kept.2 high⟩
  | step input _ done ih => exact ih.receive done

/-- The hold time is the lower one of the two ends, and keepalives go out within it. -/
def TimesNegotiated (conf : NeighborConf) (heard : UInt16) (fsm : FSM) : Prop :=
  fsm.holdTime = min conf.holdTime heard.toUInt32 ∧
    (fsm.holdTime ≠ 0 → fsm.keepAliveTime ≤ fsm.holdTime)

/--
The times that survive the way into the established state, by the OPEN messages heard so far.

The configured times come back there. They are the negotiated ones if the peer asked for no less,
and a configured time that is refused leaves room for a peer that asked for none.
-/
def TimesSurvive (conf : NeighborConf) (heard : UInt16) (opens : List UInt16) : Prop :=
  if Refused conf.holdTime ∧ 0 ∈ opens then heard = 0
  else conf.holdTime ≤ heard.toUInt32 ∧ (conf.holdTime ≠ 0 → conf.keepaliveTime ≤ conf.holdTime)

/-- The lower of two times is the first one exactly when it is not above the second. -/
theorem eq_min_iff {first second : UInt32} : first = min first second ↔ first ≤ second := by
  show first = (if first ≤ second then first else second) ↔ _
  split
  · rename_i lower
    exact ⟨fun _ => lower, fun _ => rfl⟩
  · rename_i higher
    exact ⟨fun same => absurd (same ▸ UInt32.le_refl first) higher, fun lower => absurd lower higher⟩

/-- An established session uses the negotiated times exactly when they survive. -/
theorem established_times_iff (run : Run conf fsm opens)
    (established : fsm.state = .establishedState) :
    ∃ heard earlier, opens = heard :: earlier ∧
      (TimesNegotiated conf heard fsm ↔ TimesSurvive conf heard opens) := by
  have known := run.timesKnown
  -- An OPEN message was accepted on the way here, and it is the latest one heard.
  obtain ⟨heard, earlier, same⟩ : ∃ heard earlier, opens = heard :: earlier :=
    List.exists_cons_of_ne_nil (known.heard (by
      show ¬ fsm.state.Low
      rw [established]
      decide))
  refine ⟨heard, earlier, same, ?_⟩
  by_cases silenced : Refused conf.holdTime ∧ 0 ∈ opens
  · -- The hold time has been zero since a peer asked for none.
    have times := known.refused silenced.1
    rw [if_pos silenced.2] at times
    have zero : fsm.holdTime = 0 := congrArg Prod.fst times
    rw [TimesNegotiated, TimesSurvive, if_pos silenced, zero]
    have least : min conf.holdTime heard.toUInt32 =
        if conf.holdTime ≤ heard.toUInt32 then conf.holdTime else heard.toUInt32 := rfl
    rw [least]
    constructor
    · intro ⟨lower, _⟩
      split at lower
      · exact absurd lower (UInt32.ne_of_lt silenced.1.1)
      · exact UInt16.toUInt32_inj.mp lower.symm
    · intro noTime
      subst noTime
      refine ⟨?_, fun announced => absurd rfl announced⟩
      have above : ¬ conf.holdTime ≤ UInt16.toUInt32 0 := UInt32.not_le.mpr silenced.1.1
      rw [if_neg above]
      rfl
  · have times : fsm.view.times = (conf.holdTime, conf.keepaliveTime) := by
      by_cases refused : Refused conf.holdTime
      · rw [known.refused refused, if_neg fun zero => silenced ⟨refused, zero⟩]
      · exact known.established refused established
    have hold : fsm.holdTime = conf.holdTime := congrArg Prod.fst times
    have keepAlive : fsm.keepAliveTime = conf.keepaliveTime := congrArg Prod.snd times
    rw [TimesNegotiated, TimesSurvive, if_neg silenced, hold, keepAlive, eq_min_iff]

/-- A neighbor with a hold time of 180 and a keepalive time of 60 seconds. -/
def slowConf : NeighborConf where
  localAS := 65000
  routerId := [10, 0, 0, 1]
  holdTime := 180
  keepaliveTime := 60
  connectRetryTime := 120
  maxPrefixesRestartTimer := 0
  unknownAddress := false
  useBfdState := false
  bfdEnable := false
  bfdNeighborDown := false

/-- A connection comes up, and the peer sends an OPEN message with a hold time of 90 seconds. -/
def quickPeer : List Input :=
  [.outConn (1, 2), .pktRx (.inl ⟨⟨29, bgpMsgTypeOpen⟩,
     some (.openBody ⟨4, 65001, 90, [10, 0, 0, 2], 0, []⟩)⟩) true,
   .pktRx (.inl ⟨⟨19, bgpMsgTypeKeepAlive⟩, some .keepAliveBody⟩) false]

/-- The session with the quick peer is established without its hold time. -/
theorem established_times_quickPeer : ∃ fsm, Run slowConf fsm [90] ∧ fsm.state = .establishedState ∧
      ¬ TimesNegotiated slowConf 90 fsm := by
  have session : ∃ fsm, Run slowConf fsm [90] ∧ fsm.state = .establishedState := by
    have started := @Run.start slowConf 0 newIdleState _ (by decide) (by decide) rfl
    have connected := started.step (.outConn (1, 2)) rfl
    have confirmed := connected.step (.pktRx (.inl ⟨⟨29, bgpMsgTypeOpen⟩,
      some (.openBody ⟨4, 65001, 90, [10, 0, 0, 2], 0, []⟩)⟩) true) rfl
    exact ⟨_, confirmed.step
      (.pktRx (.inl ⟨⟨19, bgpMsgTypeKeepAlive⟩, some .keepAliveBody⟩) false) rfl, rfl⟩
  obtain ⟨fsm, run, established⟩ := session
  refine ⟨fsm, run, established, ?_⟩
  obtain ⟨heard, earlier, same, negotiated⟩ := established_times_iff run established
  cases same
  rw [negotiated, TimesSurvive, if_neg (by decide)]
  intro survive
  exact absurd survive.1 (by decide)

/-- The established session waits for 180 seconds, where the peer has asked for 90. -/
theorem established_times_quickPeer_slow :
    ∃ fsm, ((newFSM slowConf 0 newIdleState).start slowConf >>=
        fun fsm => quickPeer.foldlM (FSM.receive slowConf) fsm) = .ok fsm ∧
      fsm.state = .establishedState ∧ fsm.holdTime = 180 ∧ fsm.holdTimer = some 90 ∧
      ((fsm.receive slowConf (.pktRx (.inl ⟨⟨19, bgpMsgTypeKeepAlive⟩, some .keepAliveBody⟩)
        false)) >>= fun fsm => (.ok fsm.holdTimer : Call (Option UInt32))) = .ok (some 180) :=
  ⟨_, rfl, rfl, rfl, rfl, rfl⟩

end Runs

end FlexSwitch.Fsm
