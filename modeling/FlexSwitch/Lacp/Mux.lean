import FlexSwitch.Ruleset

/-! The mux machines of the ports of one LACP aggregator. -/

namespace FlexSwitch.Lacp

open Function (update)

/-- The states, those of coupled control last. -/
inductive MuxState where
  | none | detached | waiting | attached | collecting | distributing
  | cNone | cDetached | cWaiting | cAttached | cCollectingDistributing
deriving DecidableEq, Repr

inductive MuxEvent where
  | begin | selectedEqualSelected | selectedEqualStandby | selectedEqualUnselected
  | selectedEqualSelectedAndReady | selectedEqualSelectedAndPartnerSync | notPartnerSync
  | notPartnerCollecting | selectedEqualSelectedPartnerSyncCollecting
deriving DecidableEq, Repr

/-- The callbacks `LacpMuxmDetached` and so on. -/
inductive MuxCallback where
  | detached | waiting | attached | collecting | distributing
  | cDetached | cWaiting | cAttached | cCollectingDistributing
deriving DecidableEq, Repr

/-- `LacpMuxMachineFSMBuild`. -/
def muxRules : Ruleset MuxState MuxEvent MuxCallback := .build <| .flatten [
  Ruleset.each [.none, .detached, .waiting, .attached, .collecting, .distributing] .begin .detached,
  [((.detached, .selectedEqualSelected), .waiting), ((.detached, .selectedEqualStandby), .waiting),
    ((.waiting, .selectedEqualUnselected), .detached),
    ((.waiting, .selectedEqualSelectedAndReady), .attached),
    ((.attached, .selectedEqualUnselected), .detached),
    ((.attached, .selectedEqualStandby), .detached),
    ((.attached, .selectedEqualSelectedAndPartnerSync), .collecting),
    ((.collecting, .selectedEqualUnselected), .attached),
    ((.collecting, .selectedEqualStandby), .attached),
    ((.collecting, .notPartnerSync), .attached),
    ((.collecting, .selectedEqualSelectedPartnerSyncCollecting), .distributing),
    ((.distributing, .selectedEqualUnselected), .collecting),
    ((.distributing, .selectedEqualStandby), .collecting),
    ((.distributing, .notPartnerSync), .collecting),
    ((.distributing, .notPartnerCollecting), .collecting)],
  Ruleset.each [.none, .cDetached, .cWaiting, .cAttached, .cCollectingDistributing] .begin
    .cDetached,
  [((.cDetached, .selectedEqualSelected), .cWaiting),
    ((.cDetached, .selectedEqualStandby), .cWaiting),
    ((.cWaiting, .selectedEqualUnselected), .cDetached),
    ((.cWaiting, .selectedEqualSelectedAndReady), .attached),
    ((.cAttached, .selectedEqualUnselected), .cDetached),
    ((.cAttached, .selectedEqualStandby), .cDetached),
    ((.cAttached, .selectedEqualSelectedAndPartnerSync), .cCollectingDistributing),
    ((.collecting, .selectedEqualUnselected), .cAttached),
    ((.collecting, .selectedEqualStandby), .cAttached),
    ((.collecting, .notPartnerSync), .cAttached)]]

inductive AggSelection where
  | selected | standby | unselected
deriving DecidableEq, Repr

/-- What other machines and the configuration write of a port. -/
structure PortInputs where
  aggSelected : AggSelection
  partnerSync : Bool
  partnerCollecting : Bool
  portEnabled : Bool
  lacpEnabled : Bool
deriving DecidableEq

/--
A port whose aggregator is the one at hand, with three bits of its actor's state.

`expired` is not in the source: whether the timer of this stay in Waiting expired.
-/
structure LaAggPort extends PortInputs where
  muxState : MuxState
  actorSync : Bool
  actorCollecting : Bool
  actorDistributing : Bool
  readyN : Bool
  waitWhileTimerRunning : Bool
  expired : Bool
deriving DecidableEq

/-- The timer of this stay expired, or was skipped on entry. -/
def LaAggPort.waited (port : LaAggPort) : Bool := port.expired || !port.waitWhileTimerRunning

/-- What is asked of the hardware, and which observers are called. -/
inductive LagCall where
  | updateLag (id : Int) | deleteLag (id : Int) | operUp | operDown
deriving DecidableEq, Repr

/--
An aggregator and the calls made for it so far.

`attachments` is not in the source: how each port stood that went from Waiting to Attached.
-/
structure LaAggregator where
  ready : Bool
  operState : Bool
  hwAggId : Int
  distributedPortNumList : List String
  calls : List LagCall
  attachments : List (AggSelection × Bool)
deriving DecidableEq

namespace LaAggregator

/-- A new aggregator is ready, and has the id the hardware gave its LAG. -/
def newLaAggregator (hwAggId : Int) : LaAggregator := ⟨true, false, hwAggId, [], [], []⟩

variable (agg : LaAggregator) (intfNum : String)

def sorted (intfs : List String) : List String := intfs.insertionSort (· ≤ ·)

/-- The daemon registers one hardware plugin; the observers of ports are left out. -/
def enableDistributing : LaAggregator :=
  let intfs := sorted (agg.distributedPortNumList ++ [intfNum])
  { agg with
    distributedPortNumList := intfs
    calls := agg.calls ++ .updateLag agg.hwAggId :: if intfs.length = 1 then [.operUp] else [] }

/-- The observers of oper-up are called where those of oper-down were meant. -/
def disableDistributing : LaAggregator :=
  if intfNum ∈ agg.distributedPortNumList then
    let intfs := sorted (agg.distributedPortNumList.erase intfNum)
    { agg with
      distributedPortNumList := intfs
      calls := agg.calls ++ .updateLag agg.hwAggId ::
        if intfs = [] then [.operUp, .deleteLag agg.hwAggId] else []
      hwAggId := if intfs = [] then 0 else agg.hwAggId
      operState := agg.operState && !intfs.isEmpty }
  else agg

end LaAggregator

/-- What a callback does to the aggregator and the port, and the state it returns. -/
def MuxCallback.run (intfNum : String) (agg : LaAggregator) (port : LaAggPort) :
    MuxCallback → LaAggregator × LaAggPort × MuxState
  | detached => (agg.disableDistributing intfNum, { port with
      actorSync := false, actorDistributing := false, actorCollecting := false }, .detached)
  | waiting =>
    let skipWaitWhileTimer := agg.ready || !port.lacpEnabled
    ({ agg with ready := agg.ready && !skipWaitWhileTimer },
      { port with waitWhileTimerRunning := !skipWaitWhileTimer, expired := false },
      .waiting)
  | attached => ({ agg with attachments := agg.attachments ++
        if port.muxState = .waiting then [(port.aggSelected, port.waited)] else [] },
      { port with actorSync := true, actorCollecting := false }, .attached)
  | collecting =>
    let agg := agg.disableDistributing intfNum
    ({ agg with operState := agg.operState && !agg.distributedPortNumList.isEmpty },
      { port with actorCollecting := true, actorDistributing := false }, .collecting)
  | distributing => ({ agg.enableDistributing intfNum with operState := true },
      { port with actorDistributing := true }, .distributing)
  | cDetached => (agg, { port with
      actorSync := false, actorCollecting := false, actorDistributing := false }, .detached)
  | cWaiting => (agg, { port with waitWhileTimerRunning := true, expired := false }, .waiting)
  | cAttached => (agg, { port with
      actorSync := true, actorCollecting := false, actorDistributing := false }, .waiting)
  | cCollectingDistributing => (agg, { port with actorDistributing := true }, .waiting)

/-- The ports of an aggregator, each on an interface of its own. -/
structure LagConfig where
  portNumList : List UInt16
  intfNum : UInt16 → String
  distinct : Function.Injective intfNum

/-- An aggregator and the ports by number. -/
structure Lag where
  agg : LaAggregator
  port : UInt16 → LaAggPort

namespace Lag

variable (config : LagConfig) (lag : Lag) (id : UInt16)

def setPort (port : LaAggPort) : Lag := { lag with port := update lag.port id port }

variable (event : MuxEvent)

/-- `ProcessEvent`, which fails if there is no rule. -/
def tryEvent : Option Lag :=
  (muxRules.lookup ((lag.port id).muxState, event)).map fun callback =>
    let (agg, port, state) := callback.run (config.intfNum id) lag.agg (lag.port id)
    { agg := agg, port := update lag.port id { port with muxState := state } }

def processEvent : Lag := (lag.tryEvent config id event).getD lag

/-- The ports are taken in parallel; what each does to itself does not depend on the others. -/
def lacpMuxCheckSelectionLogic : Lag :=
  let ready := config.portNumList.all fun id => (lag.port id).readyN
  let lag := { lag with agg := { lag.agg with ready := ready } }
  if ready then
    config.portNumList.foldl (fun lag id => if (lag.port id).readyN then
      lag.processEvent config id .selectedEqualSelectedAndReady else lag) lag
  else lag

def lacpMuxmWaitingEvaluateSelected : Lag :=
  if (lag.port id).aggSelected = .selected ∨ (lag.port id).aggSelected = .standby then
    (lag.setPort id { lag.port id with readyN := true }).lacpMuxCheckSelectionLogic config
  else lag

/-- A detached port that is enabled is selected at once; the second part is the event from there. -/
def continueDetached : Lag × MuxEvent :=
  if ((lag.port id).muxState = .detached ∨ (lag.port id).muxState = .cDetached) ∧
      (lag.port id).portEnabled ∧ (lag.port id).lacpEnabled then
    ((lag.setPort id { lag.port id with aggSelected := .selected }).processEvent config id
      .selectedEqualSelected, .selectedEqualSelected)
  else (lag, event)

def continueWaiting : Lag :=
  if event = .selectedEqualSelected ∧
      ((lag.port id).muxState = .waiting ∨ (lag.port id).muxState = .cWaiting) ∧
      (lag.port id).waitWhileTimerRunning = false then
    lag.lacpMuxmWaitingEvaluateSelected config id
  else lag

def continueAttached : Lag :=
  if ((lag.port id).muxState = .attached ∨ (lag.port id).muxState = .cAttached) ∧
      (lag.port id).aggSelected = .selected ∧ (lag.port id).partnerSync then
    lag.processEvent config id .selectedEqualSelectedAndPartnerSync
  else lag

def continueCollecting : Lag :=
  if (lag.port id).muxState = .collecting ∧ (lag.port id).aggSelected = .selected ∧
      (lag.port id).partnerSync ∧ (lag.port id).partnerCollecting then
    lag.processEvent config id .selectedEqualSelectedPartnerSyncCollecting
  else lag

/-- A port that is unselected goes down state by state. -/
def continueUnselected : Lag :=
  let state := (lag.port id).muxState
  if event = .selectedEqualUnselected ∧ state ≠ .detached ∧ state ≠ .cDetached then
    let endState := if MuxState.distributing.ctorIdx < state.ctorIdx then MuxState.cDetached
      else .detached
    (fun lag => lag.processEvent config id .selectedEqualUnselected)^[state.ctorIdx -
      endState.ctorIdx] lag
  else lag

def continueEvent : Lag :=
  let (lag, event) := lag.continueDetached config id event
  (((lag.continueWaiting config id event).continueAttached config id).continueCollecting config
    id).continueUnselected config id event

/-- An event with its continuation. -/
def muxEvent : Lag :=
  (lag.tryEvent config id event).elim lag (·.continueEvent config id event)

/-- The wait-while timer expires. -/
def muxTimer : Lag :=
  if (lag.port id).muxState = .waiting ∨ (lag.port id).muxState = .cWaiting then
    (lag.setPort id { lag.port id with expired := true }).lacpMuxmWaitingEvaluateSelected config id
  else lag

end Lag

/-- What can happen to the ports, and what others write in between. -/
inductive MuxStep where
  | event (id : UInt16) (event : MuxEvent)
  | timer (id : UInt16)
  | inputs (id : UInt16) (inputs : PortInputs)

namespace Lag

def take (config : LagConfig) (lag : Lag) : MuxStep → Lag
  | .event id event => lag.muxEvent config id event
  | .timer id => lag.muxTimer config id
  | .inputs id inputs => lag.setPort id { lag.port id with toPortInputs := inputs }

/-- Only the ports of the aggregator take part, and only a running timer expires. -/
def Enabled (config : LagConfig) (lag : Lag) : MuxStep → Prop
  | .event id _ => id ∈ config.portNumList
  | .timer id => id ∈ config.portNumList ∧ (lag.port id).waitWhileTimerRunning = true
  | .inputs _ _ => True

instance (config : LagConfig) (lag : Lag) : (step : MuxStep) → Decidable (lag.Enabled config step)
  | .event id _ => inferInstanceAs (Decidable (id ∈ config.portNumList))
  | .timer _ => inferInstanceAs (Decidable (_ ∧ _))
  | .inputs _ _ => inferInstanceAs (Decidable True)

/-- The runs whose steps are all allowed where they are taken. -/
def Run (config : LagConfig) (allowed : Lag → MuxStep → Prop) : Lag → Lag → Prop :=
  Relation.ReflTransGen fun lag later => ∃ step, lag.Enabled config step ∧ allowed lag step ∧
    lag.take config step = later

/-- Each step of a sequence is allowed where it is taken. -/
def Takes (config : LagConfig) (allowed : Lag → MuxStep → Prop) : Lag → List MuxStep → Prop
  | _, [] => True
  | lag, step :: steps => (lag.Enabled config step ∧ allowed lag step) ∧
    Takes config allowed (lag.take config step) steps

instance decidableTakes (config : LagConfig) (allowed : Lag → MuxStep → Prop)
    [∀ lag step, Decidable (allowed lag step)] :
    (lag : Lag) → (steps : List MuxStep) → Decidable (Takes config allowed lag steps)
  | _, [] => inferInstanceAs (Decidable True)
  | lag, step :: steps =>
    have : Decidable (Takes config allowed (lag.take config step) steps) :=
      decidableTakes config allowed (lag.take config step) steps
    inferInstanceAs (Decidable (_ ∧ _))

/-- Steps that are allowed one after the other are a run. -/
theorem Takes.run {config : LagConfig} {allowed : Lag → MuxStep → Prop} {lag : Lag}
    {steps : List MuxStep} (takes : Takes config allowed lag steps) :
    Run config allowed lag (steps.foldl (take config) lag) := by
  induction steps generalizing lag with
  | nil => exact .refl
  | cons step steps ih => exact .head ⟨step, takes.1.1, takes.1.2, rfl⟩ (ih takes.2)

/-- Ports that were not started yet, and a new aggregator. -/
def newLag (hwAggId : Int) (inputs : UInt16 → PortInputs) : Lag where
  agg := .newLaAggregator hwAggId
  port id := ⟨inputs id, .none, false, false, false, false, false, false⟩

end Lag

end FlexSwitch.Lacp
