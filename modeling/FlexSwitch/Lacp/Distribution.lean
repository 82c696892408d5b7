import FlexSwitch.Lacp.Mux

/-! What the hardware and the observers are told as interfaces go on and off the list. -/

namespace FlexSwitch.Lacp

open List

/-- Whether the LAGs named are there, given those that are. -/
def lagCallsValid (live : List Int) : List LagCall → Prop
  | [] => True
  | .updateLag id :: calls => id ∈ live ∧ lagCallsValid live calls
  | .deleteLag id :: calls => id ∈ live ∧ lagCallsValid (live.erase id) calls
  | _ :: calls => lagCallsValid live calls

/-- The LAGs that are left. -/
def lagsLeft (live : List Int) : List LagCall → List Int
  | [] => live
  | .deleteLag id :: calls => lagsLeft (live.erase id) calls
  | _ :: calls => lagsLeft live calls

inductive Distribution where
  | enable (intfNum : String) | disable (intfNum : String)

namespace LaAggregator

variable (agg : LaAggregator)

def distribute : Distribution → LaAggregator
  | .enable intfNum => agg.enableDistributing intfNum
  | .disable intfNum => agg.disableDistributing intfNum

/-- The calls that a change makes. -/
def made (change : Distribution) : List LagCall :=
  (agg.distribute change).calls.drop agg.calls.length

/-- Observers hear of the list becoming non-empty, or empty, and of nothing else. -/
def ObserversCalled (change : Distribution) : Prop :=
  (agg.made change).count .operUp = (if agg.distributedPortNumList = [] ∧
      (agg.distribute change).distributedPortNumList ≠ [] then 1 else 0) ∧
    (agg.made change).count .operDown = if agg.distributedPortNumList ≠ [] ∧
      (agg.distribute change).distributedPortNumList = [] then 1 else 0

/-- Over a sequence of changes, the LAGs named are there and the observers are called. -/
def HardwareFollows (live : List Int) (agg : LaAggregator) : List Distribution → Prop
  | [] => True
  | change :: changes => lagCallsValid live (agg.made change) ∧ agg.ObserversCalled change ∧
    HardwareFollows (lagsLeft live (agg.made change)) (agg.distribute change) changes

/-- The last interface on the list is taken off it. -/
def Empties : Distribution → Prop
  | .enable _ => False
  | .disable intfNum => agg.distributedPortNumList = [intfNum]

/-- Over a sequence of changes, the list is never emptied. -/
def NeverEmptied (agg : LaAggregator) : List Distribution → Prop
  | [] => True
  | change :: changes => ¬agg.Empties change ∧ NeverEmptied (agg.distribute change) changes

theorem sorted_eq_nil (intfs : List String) : sorted intfs = [] ↔ intfs = [] := by
  rw [← length_eq_zero_iff, sorted, length_insertionSort, length_eq_zero_iff]

variable {agg}

theorem made_enable (intfNum : String) : agg.made (.enable intfNum) =
    .updateLag agg.hwAggId :: if agg.distributedPortNumList = [] then [.operUp] else [] := by
  simp [made, distribute, enableDistributing, sorted]

theorem made_disable {intfNum : String} (listed : intfNum ∈ agg.distributedPortNumList) :
    agg.made (.disable intfNum) = .updateLag agg.hwAggId ::
      if agg.distributedPortNumList = [intfNum] then [.operUp, .deleteLag agg.hwAggId] else [] := by
  simp [made, distribute, disableDistributing, listed, sorted_eq_nil, erase_eq_nil_iff,
    ne_nil_of_mem listed]

/-- A change that leaves an interface on the list, or finds none, is followed. -/
theorem distribute_follows {change : Distribution} (kept : ¬agg.Empties change) :
    lagCallsValid [agg.hwAggId] (agg.made change) ∧ agg.ObserversCalled change ∧
      lagsLeft [agg.hwAggId] (agg.made change) = [agg.hwAggId] ∧
      (agg.distribute change).hwAggId = agg.hwAggId := by
  cases change with
  | enable intfNum =>
    rw [ObserversCalled, made_enable]
    by_cases empty : agg.distributedPortNumList = [] <;>
      simp [empty, distribute, enableDistributing, lagCallsValid, lagsLeft, sorted_eq_nil]
  | disable intfNum =>
    by_cases listed : intfNum ∈ agg.distributedPortNumList
    · have filled := ne_nil_of_mem listed
      have several : agg.distributedPortNumList ≠ [intfNum] := kept
      rw [ObserversCalled, made_disable listed, if_neg several]
      simp [distribute, disableDistributing, listed, lagCallsValid, lagsLeft, sorted_eq_nil,
        erase_eq_nil_iff, filled, several]
    · simp [ObserversCalled, made, distribute, disableDistributing, listed, lagCallsValid, lagsLeft]

/-- The observers of oper-down never hear of the list becoming empty. -/
theorem not_observersCalled {change : Distribution} (emptied : agg.Empties change) :
    ¬agg.ObserversCalled change := by
  cases change with
  | enable intfNum => exact emptied.elim
  | disable intfNum =>
    have listed : intfNum ∈ agg.distributedPortNumList := emptied ▸ mem_singleton_self intfNum
    rw [ObserversCalled, made_disable listed]
    simp [show agg.distributedPortNumList = [intfNum] from emptied]

/-- The hardware follows for as long as an interface is left on the list. -/
theorem hardwareFollows_iff (hwAggId : Int) (changes : List Distribution) :
    HardwareFollows [hwAggId] (newLaAggregator hwAggId) changes ↔
      NeverEmptied (newLaAggregator hwAggId) changes := by
  -- The aggregator keeps its id until the list is emptied.
  have from_any (agg : LaAggregator) :
      HardwareFollows [agg.hwAggId] agg changes ↔ NeverEmptied agg changes := by
    induction changes generalizing agg with
    | nil => exact Iff.rfl
    | cons change changes later =>
      rw [HardwareFollows, NeverEmptied]
      by_cases emptied : agg.Empties change
      · simp [emptied, not_observersCalled emptied]
      · obtain ⟨valid, observers, left, same⟩ := distribute_follows emptied
        have rest := later (agg.distribute change)
        rw [same] at rest
        simp [emptied, valid, observers, left, rest]
  exact from_any (newLaAggregator hwAggId)

/-- One interface goes and comes back: oper-up is called thrice, and LAG 0 is updated. -/
theorem lag_zero_updated : ((((newLaAggregator 5).distribute (.enable "fpPort1")).distribute
        (.disable "fpPort1")).distribute (.enable "fpPort1")).calls =
      [.updateLag 5, .operUp, .updateLag 5, .operUp, .deleteLag 5, .updateLag 0, .operUp] ∧
    ¬HardwareFollows [5] (newLaAggregator 5)
      [.enable "fpPort1", .disable "fpPort1", .enable "fpPort1"] := by
  refine ⟨by decide +kernel, fun follows => ?_⟩
  have down := follows.2.2.2.1.2
  revert down
  decide +kernel

end LaAggregator

end FlexSwitch.Lacp
