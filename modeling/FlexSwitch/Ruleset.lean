import FlexSwitch.Go.Map

/-! Rule sets of state machines, as `utils/fsm` builds and uses them. -/

namespace FlexSwitch

variable {σ ε γ : Type} [DecidableEq σ] [DecidableEq ε]

/-- The callback for each state and event. -/
abbrev Ruleset (σ ε γ : Type) := List ((σ × ε) × γ)

/-- A rule for a state and an event that have one already is not added. -/
def Ruleset.addRule (rules : Ruleset σ ε γ) (rule : (σ × ε) × γ) : Ruleset σ ε γ :=
  if (rules.lookup rule.1).isSome then rules else rules ++ [rule]

/-- The rules that remain when all of a list are added, one after the other. -/
def Ruleset.build (rules : List ((σ × ε) × γ)) : Ruleset σ ε γ := rules.foldl addRule []

/-- The rules for one event in several states. -/
def Ruleset.each (states : List σ) (event : ε) (callback : γ) : List ((σ × ε) × γ) :=
  states.map fun state => ((state, event), callback)

/-- What holds of every rule holds of the rule an event is processed by. -/
theorem Ruleset.of_lookup {rules : Ruleset σ ε γ} {P : (σ × ε) × γ → Prop}
    (every : ∀ rule ∈ rules, P rule) {state : σ} {event : ε} {callback : γ}
    (found : rules.lookup (state, event) = some callback) : P ((state, event), callback) := by
  obtain ⟨before, after, rfl, _⟩ := List.lookup_eq_some_iff.mp found
  exact every _ (by simp)

end FlexSwitch
