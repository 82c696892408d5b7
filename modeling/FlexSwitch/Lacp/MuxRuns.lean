import FlexSwitch.Lacp.Mux

/-! What holds of the ports of an aggregator in every run of their mux machines. -/

namespace FlexSwitch.Lacp

open List

open Function (update)

variable {config : LagConfig} {lag : Lag} {id : UInt16}

/-- What the flag of the aggregator and each attachment keep, looking at all ports keeps. -/
theorem Lag.selection_keeps {motive : Lag → Prop}
    (ready : ∀ lag, motive lag → ∀ ready, motive { lag with agg := { lag.agg with ready := ready } })
    (attach : ∀ lag, motive lag → ∀ id ∈ config.portNumList, (lag.port id).readyN = true →
      motive (lag.processEvent config id .selectedEqualSelectedAndReady))
    (holds : motive lag) : motive (lag.lacpMuxCheckSelectionLogic config) := by
  rw [lacpMuxCheckSelectionLogic]
  split
  · -- The ports one after the other.
    refine foldlRecOn _ _ (ready lag holds _) fun later holds id member => ?_
    split
    · exact attach later holds id member ‹_›
    · exact holds
  · exact ready lag holds _

/-- The events that a continuation after Waiting is made of. -/
def continuationEvents : List MuxEvent :=
  [.selectedEqualSelectedAndPartnerSync, .selectedEqualSelectedPartnerSyncCollecting,
    .selectedEqualUnselected]

/-- What those events keep, the continuation after Waiting keeps. -/
theorem Lag.continue_keeps {motive : Lag → Prop}
    (moves : ∀ lag, ∀ event ∈ continuationEvents, motive lag →
      motive (lag.processEvent config id event))
    (holds : motive lag) (event : MuxEvent) :
    motive (((lag.continueAttached config id).continueCollecting config id).continueUnselected
      config id event) := by
  have attached : motive (lag.continueAttached config id) := by
    rw [continueAttached]
    split
    · exact moves lag _ (by decide) holds
    · exact holds
  generalize lag.continueAttached config id = lag at attached
  have collecting : motive (lag.continueCollecting config id) := by
    rw [continueCollecting]
    split
    · exact moves lag _ (by decide) attached
    · exact attached
  rw [continueUnselected]
  split
  · exact Function.Iterate.rec motive collecting (fun lag => moves lag _ (by decide)) _
  · exact collecting

section Exact

/-- The bits of the actor's state are those of the state of the machine. -/
structure LaAggPort.Exact (port : LaAggPort) : Prop where
  uncoupled : port.muxState.ctorIdx ≤ MuxState.distributing.ctorIdx
  sync : port.actorSync = decide (port.muxState ∈ [MuxState.attached, .collecting, .distributing])
  collecting : port.actorCollecting = decide (port.muxState ∈ [MuxState.collecting, .distributing])
  distributing : port.actorDistributing = decide (port.muxState = .distributing)

/-- The list names the interfaces of the ports that are Distributing, each of them once. -/
structure Lag.Exact (config : LagConfig) (lag : Lag) : Prop where
  ports : ∀ id, (lag.port id).Exact
  once : ∀ id, lag.agg.distributedPortNumList.count (config.intfNum id) =
    if (lag.port id).muxState = .distributing then 1 else 0
  only : ∀ intf ∈ lag.agg.distributedPortNumList, ∃ id, config.intfNum id = intf

/-- The moves that uncoupled states allow, besides those to Detached. -/
def muxMoves : List (MuxState × MuxCallback) :=
  [(.detached, .waiting), (.waiting, .attached), (.collecting, .attached), (.attached, .collecting),
    (.distributing, .collecting), (.collecting, .distributing)]

/-- The rules of coupled control are for other states, or were refused. -/
theorem muxRules_moves : ∀ rule ∈ muxRules, rule.1.1.ctorIdx ≤ MuxState.distributing.ctorIdx →
      rule.2 = .detached ∨ (rule.1.1, rule.2) ∈ muxMoves := by
  decide +kernel

theorem count_sorted (intfs : List String) (intf : String) :
    (LaAggregator.sorted intfs).count intf = intfs.count intf :=
  (perm_insertionSort _ intfs).count_eq intf

theorem count_enableDistributing (agg : LaAggregator) (intfNum intf : String) :
    (agg.enableDistributing intfNum).distributedPortNumList.count intf =
      agg.distributedPortNumList.count intf + if intfNum = intf then 1 else 0 := by
  simp [LaAggregator.enableDistributing, count_sorted, count_singleton]

theorem count_disableDistributing (agg : LaAggregator) (intfNum intf : String) :
    (agg.disableDistributing intfNum).distributedPortNumList.count intf =
      agg.distributedPortNumList.count intf - if intfNum = intf then 1 else 0 := by
  by_cases held : intfNum ∈ agg.distributedPortNumList
  · simp [LaAggregator.disableDistributing, held, count_sorted, count_erase]
  · -- A name that is not there cannot be taken away.
    by_cases same : intfNum = intf
    · subst same
      simp [LaAggregator.disableDistributing, held, count_eq_zero_of_not_mem held]
    · simp [LaAggregator.disableDistributing, held, same]

/-- A port that moves takes its interface on or off the list, and no other. -/
theorem Lag.Exact.moved (exact : lag.Exact config) {agg : LaAggregator} {port : LaAggPort}
    (bits : port.Exact)
    (own : agg.distributedPortNumList.count (config.intfNum id) =
      if port.muxState = .distributing then 1 else 0)
    (others : ∀ intf, config.intfNum id ≠ intf → agg.distributedPortNumList.count intf =
      lag.agg.distributedPortNumList.count intf) :
    Lag.Exact config ⟨agg, update lag.port id port⟩ where
  ports other := by
    by_cases same : other = id
    · simpa [same] using bits
    · simpa [same] using exact.ports other
  once other := by
    by_cases same : other = id
    · simpa [same] using own
    · have apart : config.intfNum id ≠ config.intfNum other :=
        fun equal => same (config.distinct equal).symm
      simpa [same, others _ apart] using exact.once other
  only intf member := by
    by_cases same : config.intfNum id = intf
    · exact ⟨id, same⟩
    · rw [← count_pos_iff, others intf same] at member
      exact exact.only intf (count_pos_iff.mp member)

/-- A callback run by a rule keeps the bits and the list exact. -/
theorem Lag.Exact.tryEvent (exact : lag.Exact config) {event : MuxEvent} {later : Lag}
    (done : lag.tryEvent config id event = some later) : later.Exact config := by
  obtain ⟨callback, found, rfl⟩ := Option.map_eq_some_iff.mp done
  obtain ⟨uncoupled, sync, collecting, distributing⟩ := exact.ports id
  have listed := exact.once id
  have move := Ruleset.of_lookup muxRules_moves found uncoupled
  simp only [muxMoves, mem_cons, not_mem_nil, or_false, Prod.mk.injEq] at move
  generalize (lag.port id).muxState = state at move sync collecting distributing listed
  have least : lag.agg.distributedPortNumList.count (config.intfNum id) ≤ 1 := by
    rw [listed]
    split <;> omega
  rcases move with rfl | ⟨rfl, rfl⟩ | ⟨rfl, rfl⟩ | ⟨rfl, rfl⟩ | ⟨rfl, rfl⟩ | ⟨rfl, rfl⟩ | ⟨rfl, rfl⟩
  all_goals
    refine exact.moved ?_ ?_ ?_
    · constructor <;> simp_all [MuxCallback.run, MuxState.ctorIdx]
    · simp [count_enableDistributing, count_disableDistributing] at listed ⊢
      omega
    · intro intf apart
      simp [count_enableDistributing, count_disableDistributing, apart]

namespace Lag.Exact

variable (exact : lag.Exact config) (id : UInt16)

include exact

theorem processEvent (event : MuxEvent) : (lag.processEvent config id event).Exact config := by
  rw [Lag.processEvent]
  cases done : lag.tryEvent config id event with
  | none => exact exact
  | some later => exact exact.tryEvent done

/-- What others write, and the flags of waiting, are not spoken about. -/
theorem setFlags (inputs : PortInputs) (readyN expired : Bool) : (lag.setPort id { lag.port id with
      toPortInputs := inputs, readyN := readyN, expired := expired }).Exact config := by
  obtain ⟨uncoupled, sync, collecting, distributing⟩ := exact.ports id
  exact exact.moved ⟨uncoupled, sync, collecting, distributing⟩ (exact.once id) fun _ _ => rfl

theorem evaluateSelected : (lag.lacpMuxmWaitingEvaluateSelected config id).Exact config := by
  rw [lacpMuxmWaitingEvaluateSelected]
  split
  · exact selection_keeps (fun _ exact _ => ⟨exact.ports, exact.once, exact.only⟩)
      (fun _ exact other _ _ => exact.processEvent other _) (exact.setFlags id _ true _)
  · exact exact

theorem continueDetached (event : MuxEvent) :
    (lag.continueDetached config id event).1.Exact config := by
  rw [Lag.continueDetached]
  split
  · exact (exact.setFlags id { (lag.port id).toPortInputs with aggSelected := .selected }
      (lag.port id).readyN (lag.port id).expired).processEvent id _
  · exact exact

theorem continueWaiting (event : MuxEvent) :
    (lag.continueWaiting config id event).Exact config := by
  rw [Lag.continueWaiting]
  split
  · exact exact.evaluateSelected id
  · exact exact

theorem muxEvent (event : MuxEvent) : (lag.muxEvent config id event).Exact config := by
  rw [Lag.muxEvent]
  cases done : lag.tryEvent config id event with
  | none => exact exact
  | some later =>
    have waiting := ((exact.tryEvent done).continueDetached id event).continueWaiting id
      (later.continueDetached config id event).2
    exact continue_keeps (fun _ _ _ exact => exact.processEvent id _) waiting _

theorem take (step : MuxStep) : (lag.take config step).Exact config := by
  cases step with
  | event id event => exact exact.muxEvent id event
  | timer id =>
    rw [Lag.take, muxTimer]
    split
    · exact (exact.setFlags id _ _ true).evaluateSelected id
    · exact exact
  | inputs id inputs => exact exact.setFlags id inputs _ _

end Lag.Exact

theorem Lag.newLag_exact (hwAggId : Int) (inputs : UInt16 → PortInputs) :
    (newLag hwAggId inputs).Exact config :=
  ⟨fun _ => ⟨Nat.zero_le _, rfl, rfl, rfl⟩, fun _ => rfl,
    by simp [newLag, LaAggregator.newLaAggregator]⟩

/-- In every run the list and the bits say which ports are Distributing. -/
theorem distributing_set_exact {hwAggId : Int} {inputs : UInt16 → PortInputs} {last : Lag}
    (run : Lag.Run config (fun _ _ => True) (Lag.newLag hwAggId inputs) last) :
    last.Exact config := by
  induction run with
  | refl => exact Lag.newLag_exact hwAggId inputs
  | tail _ step exact =>
    obtain ⟨step, -, -, rfl⟩ := step
    exact exact.take step

/-- Interfaces told apart by the length of their names. -/
def LagConfig.plain (portNumList : List UInt16) : LagConfig where
  portNumList := portNumList
  intfNum id := String.ofList (List.replicate id.toNat 'p')
  distinct left right same := by
    have lengths := congrArg List.length (String.ofList_injective same)
    simpa [UInt16.toNat_inj] using lengths

def enabledInputs : PortInputs := ⟨.unselected, false, false, true, true⟩

/-- Two ports are started and come to distribute; then the partner of the first stops collecting. -/
def leavingSteps : List MuxStep :=
  [.event 1 .begin, .event 2 .begin, .timer 2, .inputs 1 ⟨.selected, true, true, true, true⟩,
    .inputs 2 ⟨.selected, true, true, true, true⟩, .event 1 .selectedEqualSelectedAndPartnerSync,
    .event 2 .selectedEqualSelectedAndPartnerSync, .inputs 1 ⟨.selected, true, false, true, true⟩,
    .event 1 .notPartnerCollecting]

/-- The first port is on the list while it distributes, and off it when it goes back to Collecting. -/
theorem distributing_set_exact_leaving :
    ((leavingSteps.take 8).foldl (Lag.take (.plain [1, 2]))
      (Lag.newLag 5 fun _ => enabledInputs)).agg.distributedPortNumList = ["p", "pp"] ∧
    (leavingSteps.foldl (Lag.take (.plain [1, 2]))
      (Lag.newLag 5 fun _ => enabledInputs)).agg.distributedPortNumList = ["pp"] ∧
    (leavingSteps.foldl (Lag.take (.plain [1, 2]))
      (Lag.newLag 5 fun _ => enabledInputs)).Exact (.plain [1, 2]) := by
  have takes : Lag.Takes (.plain [1, 2]) (fun _ _ => True) (Lag.newLag 5 fun _ => enabledInputs)
      leavingSteps := by decide +kernel
  exact ⟨by decide +kernel, by decide +kernel, distributing_set_exact takes.run⟩

end Exact

section Waiting

/-- Members that are ready while they wait are Selected and have waited. -/
def Lag.Settled (config : LagConfig) (lag : Lag) (others : UInt16 → Prop) : Prop :=
  ∀ id ∈ config.portNumList, others id → (lag.port id).readyN = true →
    (lag.port id).muxState = .waiting →
      (lag.port id).aggSelected = .selected ∧ (lag.port id).waited = true

/-- The ports that were attached were Selected and had waited. -/
def Lag.Sound (lag : Lag) : Prop := ∀ stood ∈ lag.agg.attachments, stood = (.selected, true)

/-- The event has the port wait, from Detached or by way of it, while the aggregator is not ready. -/
def Lag.StartsTimer (lag : Lag) (id : UInt16) (event : MuxEvent) : Prop :=
  lag.agg.ready = false ∧ (lag.port id).lacpEnabled = true ∧
    (muxRules.lookup ((lag.port id).muxState, event) = some .waiting ∨
      (lag.port id).portEnabled = true ∧
        muxRules.lookup ((lag.port id).muxState, event) = some .detached)

/--
A port becomes ready by itself and not as Standby, and what has become ready stays Selected and
does not have its timer started again.
-/
def Lag.InOrder (lag : Lag) : MuxStep → Prop
  | .event id event => event ≠ .selectedEqualSelectedAndReady ∧
    (lag.port id).aggSelected ≠ .standby ∧ ((lag.port id).readyN = true →
      ¬lag.StartsTimer id event ∧
        (muxRules.lookup ((lag.port id).muxState, event) = some .waiting →
          (lag.port id).aggSelected = .selected))
  | .timer id => (lag.port id).aggSelected ≠ .standby
  | .inputs id inputs => (lag.port id).readyN = true → (lag.port id).muxState = .waiting →
    inputs.aggSelected = .selected

instance (lag : Lag) (id : UInt16) (event : MuxEvent) : Decidable (lag.StartsTimer id event) :=
  inferInstanceAs (Decidable (_ ∧ _))

instance (lag : Lag) : (step : MuxStep) → Decidable (lag.InOrder step)
  | .event _ _ => inferInstanceAs (Decidable (_ ∧ _))
  | .timer _ => inferInstanceAs (Decidable (_ ≠ _))
  | .inputs _ _ => inferInstanceAs (Decidable (_ → _))

/-- Only the event of being ready attaches a port that waits, and it does nothing else. -/
theorem muxRules_ready : ∀ rule ∈ muxRules,
    if rule.1.2 = .selectedEqualSelectedAndReady then rule.2 = .attached
    else rule.1.1 = .waiting → rule.2 ≠ .attached := by
  decide +kernel

/-- Only the events of a selection have a port wait. -/
theorem muxRules_waiting : ∀ rule ∈ muxRules, rule.2 = .waiting →
    rule.1.2 = .selectedEqualSelected ∨ rule.1.2 = .selectedEqualStandby := by
  decide +kernel

variable {callback : MuxCallback} {intfNum : String} {agg : LaAggregator} {port : LaAggPort}

theorem attachments_run : (callback.run intfNum agg port).1.attachments = agg.attachments ++
    if callback = .attached ∧ port.muxState = .waiting then [(port.aggSelected, port.waited)]
    else [] := by
  have disabled : (agg.disableDistributing intfNum).attachments = agg.attachments := by
    rw [LaAggregator.disableDistributing]
    split <;> rfl
  cases callback <;> simp [MuxCallback.run, LaAggregator.enableDistributing, disabled]

theorem inputs_run : (callback.run intfNum agg port).2.1.toPortInputs = port.toPortInputs := by
  cases callback <;> rfl

theorem readyN_run : (callback.run intfNum agg port).2.1.readyN = port.readyN := by
  cases callback <;> rfl

/-- Only a port that starts to wait uses up that the aggregator is ready. -/
theorem ready_run (other : callback ≠ .waiting) :
    (callback.run intfNum agg port).1.ready = agg.ready := by
  have disabled : (agg.disableDistributing intfNum).ready = agg.ready := by
    rw [LaAggregator.disableDistributing]
    split <;> rfl
  cases callback <;> simp_all [MuxCallback.run, LaAggregator.enableDistributing]

theorem Lag.attachments_tryEvent {event : MuxEvent} {later : Lag}
    (other : event ≠ .selectedEqualSelectedAndReady)
    (done : lag.tryEvent config id event = some later) :
    later.agg.attachments = lag.agg.attachments := by
  obtain ⟨callback, found, rfl⟩ := Option.map_eq_some_iff.mp done
  have rule := Ruleset.of_lookup muxRules_ready found
  rw [if_neg other] at rule
  have apart : ¬(callback = .attached ∧ (lag.port id).muxState = .waiting) :=
    fun both => rule both.2 both.1
  simp [attachments_run, apart]

theorem Lag.Settled.set (settled : lag.Settled config (· ≠ id)) (others : UInt16 → Prop)
    (own : id ∈ config.portNumList → others id → port.readyN = true →
      port.muxState = .waiting → port.aggSelected = .selected ∧ port.waited = true) :
    Lag.Settled config ⟨agg, update lag.port id port⟩ others := by
  intro other member counted
  by_cases same : other = id
  · subst same
    simpa using own member counted
  · simpa [same] using settled other member same

/-- What is true of a lag between the steps that are in order. -/
structure Lag.Calm (config : LagConfig) (lag : Lag) : Prop where
  exact : lag.Exact config
  sound : lag.Sound
  settled : lag.Settled config fun _ => True

namespace Lag.Calm

variable (calm : lag.Calm config)

include calm

theorem others (id : UInt16) : lag.Settled config (· ≠ id) :=
  fun other member _ => calm.settled other member trivial

/-- Being ready attaches a port as it should be, and it no longer waits. -/
theorem ready (member : id ∈ config.portNumList) (ready : (lag.port id).readyN = true) :
    (lag.processEvent config id .selectedEqualSelectedAndReady).Calm config := by
  rw [Lag.processEvent]
  cases done : lag.tryEvent config id .selectedEqualSelectedAndReady with
  | none => exact calm
  | some later =>
    have exact := calm.exact.tryEvent done
    obtain ⟨callback, found, rfl⟩ := Option.map_eq_some_iff.mp done
    obtain rfl : callback = .attached := by simpa using Ruleset.of_lookup muxRules_ready found
    refine ⟨exact, ?_, (calm.others id).set _ fun _ _ _ waits => nomatch waits⟩
    intro stood among
    rw [Option.getD_some, attachments_run, mem_append] at among
    rcases among with before | now
    · exact calm.sound stood before
    · simp only [true_and, mem_ite_nil_right, mem_singleton] at now
      obtain ⟨selected, waited⟩ := calm.settled id member trivial ready now.1
      rw [now.2, selected, waited]

/-- A port that starts to wait while it is ready has to be Selected, and to skip the timer. -/
theorem tryEvent {event : MuxEvent} {later : Lag} (other : event ≠ .selectedEqualSelectedAndReady)
    (waits : muxRules.lookup ((lag.port id).muxState, event) = some .waiting →
      (lag.port id).readyN = true → (lag.port id).aggSelected = .selected ∧
        (lag.agg.ready || !(lag.port id).lacpEnabled) = true)
    (done : lag.tryEvent config id event = some later) : later.Calm config := by
  refine ⟨calm.exact.tryEvent done, ?_, ?_⟩
  · simpa [Sound, attachments_tryEvent other done] using calm.sound
  · obtain ⟨callback, found, rfl⟩ := Option.map_eq_some_iff.mp done
    have move := Ruleset.of_lookup muxRules_moves found (calm.exact.ports id).uncoupled
    refine (calm.others id).set _ fun _ _ ready waiting => ?_
    -- Of the callbacks of uncoupled states, one leads to Waiting.
    have again : callback = .waiting := by
      simp only [muxMoves, mem_cons, not_mem_nil, or_false, Prod.mk.injEq] at move
      rcases move with rfl | ⟨_, rfl⟩ | ⟨_, rfl⟩ | ⟨_, rfl⟩ | ⟨_, rfl⟩ | ⟨_, rfl⟩ | ⟨_, rfl⟩ <;>
        first | rfl | cases waiting
    subst again
    obtain ⟨selected, skips⟩ := waits found ready
    exact ⟨selected, by simp [LaAggPort.waited, skips]⟩

theorem processEvent {event : MuxEvent} (other : event ≠ .selectedEqualSelectedAndReady)
    (waits : muxRules.lookup ((lag.port id).muxState, event) = some .waiting →
      (lag.port id).readyN = true → (lag.port id).aggSelected = .selected ∧
        (lag.agg.ready || !(lag.port id).lacpEnabled) = true) :
    (lag.processEvent config id event).Calm config := by
  rw [Lag.processEvent]
  cases done : lag.tryEvent config id event with
  | none => exact calm
  | some later => exact calm.tryEvent other waits done

/-- A port that has waited makes itself ready, and attaches itself and the others as they should be. -/
theorem evaluateSelected (own : (lag.port id).aggSelected ≠ .standby)
    (waited : (lag.port id).waited = true) :
    (lag.lacpMuxmWaitingEvaluateSelected config id).Calm config := by
  rw [lacpMuxmWaitingEvaluateSelected]
  split
  next either =>
    have selected := either.resolve_right own
    refine selection_keeps (motive := Lag.Calm config) ?_ ?_
      ⟨calm.exact.setFlags id _ true _, calm.sound, (calm.others id).set _ fun _ _ _ _ =>
        ⟨selected, waited⟩⟩
    · exact fun lag calm _ =>
        ⟨⟨calm.exact.ports, calm.exact.once, calm.exact.only⟩, calm.sound, calm.settled⟩
    · exact fun lag calm id member ready => calm.ready member ready
  next => exact calm

/-- A detached port that is selected at once skips the timer, or was not ready. -/
theorem continueDetached (own : (lag.port id).aggSelected ≠ .standby)
    (skips : (lag.port id).muxState = .detached → (lag.port id).portEnabled = true →
      (lag.port id).lacpEnabled = true → (lag.port id).readyN = true → lag.agg.ready = true)
    (event : MuxEvent) : (lag.continueDetached config id event).1.Calm config ∧
      ((lag.continueDetached config id event).1.port id).aggSelected ≠ .standby := by
  rw [Lag.continueDetached]
  split
  next enabled =>
    obtain ⟨state, port, lacp⟩ := enabled
    have detached : (lag.port id).muxState = .detached := by
      have uncoupled := (calm.exact.ports id).uncoupled
      rcases state with here | coupled
      · exact here
      · rw [coupled] at uncoupled
        exact absurd uncoupled (by decide)
    have selected : (lag.setPort id { lag.port id with aggSelected := .selected }).Calm config :=
      ⟨calm.exact.setFlags id { (lag.port id).toPortInputs with aggSelected := .selected }
        (lag.port id).readyN (lag.port id).expired, calm.sound, (calm.others id).set _
          fun _ _ _ waits => by rw [detached] at waits; cases waits⟩
    refine ⟨selected.processEvent (by decide) fun _ ready => ?_, ?_⟩
    · simp only [setPort, Function.update_self] at ready ⊢
      exact ⟨trivial, by simp [skips detached port lacp ready]⟩
    · rw [Lag.processEvent, Lag.tryEvent]
      cases muxRules.lookup _ <;> simp [setPort, inputs_run]
  next => exact ⟨calm, own⟩

theorem continueWaiting (own : (lag.port id).aggSelected ≠ .standby) (event : MuxEvent) :
    (lag.continueWaiting config id event).Calm config := by
  rw [Lag.continueWaiting]
  split
  next skipped => exact calm.evaluateSelected own (by simp [LaAggPort.waited, skipped.2.2])
  next => exact calm

/-- The first move of the port keeps the lag calm, and so does what the event leads to. -/
theorem muxEvent {event : MuxEvent} (allowed : lag.InOrder (.event id event)) :
    (lag.muxEvent config id event).Calm config := by
  obtain ⟨other, own, again⟩ := allowed
  rw [Lag.muxEvent]
  cases done : lag.tryEvent config id event with
  | none => exact calm
  | some later =>
    have tried : later.Calm config := calm.tryEvent other (fun waits ready => by
      obtain ⟨starts, selected⟩ := again ready
      refine ⟨selected waits, ?_⟩
      by_contra runs
      simp only [Bool.or_eq_true, Bool.not_eq_true', not_or, Bool.not_eq_true,
        Bool.not_eq_false] at runs
      exact starts ⟨runs.1, runs.2, .inl waits⟩) done
    have selected : (later.port id).aggSelected ≠ .standby := by
      obtain ⟨callback, found, rfl⟩ := Option.map_eq_some_iff.mp done
      simpa [inputs_run] using own
    -- A port that is detached now has the inputs and the flag it had before.
    have skips : (later.port id).muxState = .detached → (later.port id).portEnabled = true →
        (later.port id).lacpEnabled = true → (later.port id).readyN = true →
        later.agg.ready = true := by
      obtain ⟨callback, found, rfl⟩ := Option.map_eq_some_iff.mp done
      intro detached port lacp ready
      simp only [Function.update_self, inputs_run, readyN_run] at detached port lacp ready
      have move := Ruleset.of_lookup muxRules_moves found (calm.exact.ports id).uncoupled
      simp only [muxMoves, mem_cons, not_mem_nil, or_false, Prod.mk.injEq] at move
      rcases move with rfl | ⟨_, rfl⟩ | ⟨_, rfl⟩ | ⟨_, rfl⟩ | ⟨_, rfl⟩ | ⟨_, rfl⟩ | ⟨_, rfl⟩
      · rw [ready_run (by decide)]
        by_contra idle
        exact (again ready).1 ⟨by simpa using idle, lacp, .inr ⟨port, found⟩⟩
      all_goals cases detached
    obtain ⟨begun, unheld⟩ := tried.continueDetached selected skips event
    refine continue_keeps (motive := Lag.Calm config) ?_ (begun.continueWaiting unheld _) _
    intro lag event among calm
    have apart : event ≠ .selectedEqualSelectedAndReady ∧ event ≠ .selectedEqualSelected ∧
        event ≠ .selectedEqualStandby := by
      revert event
      decide
    refine calm.processEvent apart.1 fun waits _ => ?_
    rcases Ruleset.of_lookup muxRules_waiting waits rfl with same | same
    · exact absurd same apart.2.1
    · exact absurd same apart.2.2

theorem take {step : MuxStep} (allowed : lag.InOrder step) : (lag.take config step).Calm config := by
  cases step with
  | event id event => exact calm.muxEvent allowed
  | timer id =>
    rw [Lag.take, muxTimer]
    split
    · have expired : (lag.setPort id { lag.port id with expired := true }).Calm config :=
        ⟨calm.exact.setFlags id _ _ true, calm.sound, (calm.others id).set _ fun member _ ready
          waits => ⟨(calm.settled id member trivial ready waits).1, by simp [LaAggPort.waited]⟩⟩
      refine expired.evaluateSelected ?_ ?_
      · simpa [setPort] using show (lag.port id).aggSelected ≠ .standby from allowed
      · simp [setPort, LaAggPort.waited]
    · exact calm
  | inputs id inputs =>
    exact ⟨calm.exact.setFlags id inputs _ _, calm.sound, (calm.others id).set _ fun member _ ready
      waits => ⟨allowed ready waits, (calm.settled id member trivial ready waits).2⟩⟩

end Lag.Calm

end Waiting

end FlexSwitch.Lacp
