import Mathlib

/-! What a call of a Go function can come to, and how such calls chain. -/

namespace FlexSwitch.Go

open List

/--
The ways a call ends within its budget of loop iterations.

A runtime panic is kept apart from a returned error, and both from a loop that is still going.
-/
inductive Outcome (ε α : Type) where
  | ok (value : α)
  | error (fault : ε)
  | panic
  | hang
deriving DecidableEq, Repr

variable {condition : Prop} [Decidable condition]

namespace Outcome

variable {ε α β : Type}

/-- Run the continuation on a value, and pass every other ending through. -/
protected def bind (first : Outcome ε α) (next : α → Outcome ε β) : Outcome ε β :=
  match first with
  | .ok value => next value
  | .error fault => .error fault
  | .panic => .panic
  | .hang => .hang

/-- The call with any error it reports replaced by the given one. -/
def withError (result : Outcome ε α) (fault : ε) : Outcome ε α :=
  match result with
  | .error _ => .error fault
  | other => other

/-- The value of a call that yields one, and the fallback for any other. -/
def getD (result : Outcome ε α) (fallback : α) : α :=
  match result with
  | .ok value => value
  | _ => fallback

@[simp] theorem ok_withError (value : α) (fault : ε) :
    (Outcome.ok value).withError fault = .ok value := rfl

@[simp] theorem error_withError (first fault : ε) :
    (Outcome.error first : Outcome ε α).withError fault = .error fault := rfl

instance : Monad (Outcome ε) where
  pure := .ok
  bind := Outcome.bind

@[simp] theorem pure_eq (value : α) : (pure value : Outcome ε α) = .ok value := rfl

@[simp] theorem ok_bind (value : α) (next : α → Outcome ε β) :
    (Outcome.ok value >>= next) = next value := rfl

@[simp] theorem error_bind (fault : ε) (next : α → Outcome ε β) :
    (Outcome.error fault >>= next) = .error fault := rfl

@[simp] theorem panic_bind (next : α → Outcome ε β) :
    ((Outcome.panic : Outcome ε α) >>= next) = .panic := rfl

@[simp] theorem hang_bind (next : α → Outcome ε β) :
    ((Outcome.hang : Outcome ε α) >>= next) = .hang := rfl

theorem bind_assoc {γ : Type} (first : Outcome ε α) (next : α → Outcome ε β)
    (last : β → Outcome ε γ) :
    (first >>= next) >>= last = first >>= fun value => next value >>= last := by
  cases first <;> rfl

instance : LawfulMonad (Outcome ε) :=
  LawfulMonad.mk' (Outcome ε) (fun call => by cases call <;> rfl) (fun _ _ => rfl)
    (fun first _ _ => by cases first <;> rfl)

/-- Whether a call panics can be told, whatever its values are. -/
instance decidablePanic : (call : Outcome ε α) → Decidable (call = .panic)
  | .ok _ => isFalse nofun
  | .error _ => isFalse nofun
  | .panic => isTrue rfl
  | .hang => isFalse nofun

/-- The call comes back to its caller, with a value or with an error. -/
def Returns : Outcome ε α → Prop
  | .ok _ => True
  | .error _ => True
  | .panic => False
  | .hang => False

instance : (result : Outcome ε α) → Decidable result.Returns
  | .ok _ => .isTrue trivial
  | .error _ => .isTrue trivial
  | .panic => .isFalse id
  | .hang => .isFalse id

@[simp] theorem returns_ok (value : α) : (Outcome.ok value : Outcome ε α).Returns := trivial

@[simp] theorem returns_error (fault : ε) : (Outcome.error fault : Outcome ε α).Returns := trivial

@[simp] theorem not_returns_panic : ¬ (Outcome.panic : Outcome ε α).Returns := id

@[simp] theorem not_returns_hang : ¬ (Outcome.hang : Outcome ε α).Returns := id

/-- A call that comes back has neither panicked nor kept looping. -/
theorem returns_iff (result : Outcome ε α) : result.Returns ↔ result ≠ .panic ∧ result ≠ .hang := by
  cases result <;> simp

/-- The caller looks at the error of a call and goes on one way or the other. -/
def handle {ε' : Type} (result : Outcome ε α) (failed : ε → Outcome ε' β)
    (next : α → Outcome ε' β) : Outcome ε' β :=
  match result with
  | .ok value => next value
  | .error fault => failed fault
  | .panic => .panic
  | .hang => .hang

theorem handle_of_returns {ε' : Type} {result : Outcome ε α} (failed : ε → Outcome ε' β)
    (next : α → Outcome ε' β) (returned : result.Returns) :
    (∃ fault, result = .error fault ∧ result.handle failed next = failed fault) ∨
      ∃ value, result = .ok value ∧ result.handle failed next = next value := by
  cases result with
  | ok value => exact .inr ⟨value, rfl, rfl⟩
  | error fault => exact .inl ⟨fault, rfl, rfl⟩
  | panic | hang => exact returned.elim

variable {first : Outcome ε α} {next : α → Outcome ε β}

/-- A chain yields a value exactly when both of its calls do. -/
theorem bind_eq_ok {result : β} :
    (first >>= next) = .ok result ↔ ∃ value, first = .ok value ∧ next value = .ok result := by
  cases first <;> simp

/-- A chain keeps looping exactly when one of its calls does. -/
theorem bind_eq_hang : (first >>= next) = .hang ↔
      first = .hang ∨ ∃ value, first = .ok value ∧ next value = .hang := by
  cases first <;> simp

/-- A chain ends when its first call does and every continuation it enters does. -/
theorem bind_ne_hang (ends : first ≠ .hang)
    (rest : ∀ value, first = .ok value → next value ≠ .hang) : (first >>= next) ≠ .hang := by
  rw [Ne, bind_eq_hang]
  rintro (stuck | ⟨value, started, stuck⟩)
  · exact ends stuck
  · exact rest value started stuck

/-- A choice keeps looping exactly when the branch it takes does. -/
theorem ite_eq_hang {yes no : Outcome ε α} : (if condition then yes else no) = .hang ↔
      (condition ∧ yes = .hang) ∨ (¬ condition ∧ no = .hang) := by
  by_cases holds : condition <;> simp [holds]

/-- A chain comes back exactly when its first call does and every continuation it enters does. -/
theorem bind_returns : (first >>= next).Returns ↔
      first.Returns ∧ ∀ value, first = .ok value → (next value).Returns := by
  cases first <;> simp

/--
Two conditions decide how the call ends.

It panics unless it is safe, and of the safe calls those that are taken yield a value, of the
expected kind, while the others report an error.
-/
structure Decides (result : Outcome ε α) (taken safe : Prop) (Expected : α → Prop) : Prop where
  takes : taken → ∃ value, result = .ok value ∧ Expected value
  refuses : ¬ taken → safe → ∃ fault, result = .error fault
  panics : ¬ safe → result = .panic

namespace Decides

variable {result : Outcome ε α} {taken safe : Prop} {Expected : α → Prop}

section

variable (decides : result.Decides taken safe Expected)

include decides

/-- What is done with the value does not change how the call ends. -/
theorem map {convert : α → β}
    {Wanted : β → Prop} (each : ∀ value, Expected value → Wanted (convert value)) :
    (result >>= fun value => .ok (convert value)).Decides taken safe Wanted where
  takes holds := by
    obtain ⟨value, yielded, expected⟩ := decides.takes holds
    exact ⟨convert value, by rw [yielded]; rfl, each value expected⟩
  refuses lacks fine := by
    obtain ⟨fault, reported⟩ := decides.refuses lacks fine
    exact ⟨fault, by rw [reported]; rfl⟩
  panics unmet := by
    rw [decides.panics unmet]
    rfl

theorem weaken {Wanted : α → Prop}
    (each : ∀ value, Expected value → Wanted value) : result.Decides taken safe Wanted where
  takes holds := by
    obtain ⟨value, yielded, expected⟩ := decides.takes holds
    exact ⟨value, yielded, each value expected⟩
  refuses := decides.refuses
  panics := decides.panics

theorem congr {taken' safe' : Prop} (sameTaken : taken' ↔ taken) (sameSafe : safe' ↔ safe) :
    result.Decides taken' safe' Expected := by
  rw [propext sameTaken, propext sameSafe]
  exact decides

/-- A value comes out of taken calls only, and it is the expected one. -/
theorem of_ok {value : α} (yielded : result = .ok value) : taken ∧ Expected value := by
  by_cases holds : taken
  · obtain ⟨other, same, expected⟩ := decides.takes holds
    rw [yielded] at same
    cases same
    exact ⟨holds, expected⟩
  · -- The other calls report an error or panic.
    by_cases fine : safe
    · obtain ⟨fault, reported⟩ := decides.refuses holds fine
      rw [yielded] at reported
      cases reported
    · have stopped := decides.panics fine
      rw [yielded] at stopped
      cases stopped

theorem returns : result.Returns ↔ safe := by
  by_cases fine : safe
  · refine iff_of_true ?_ fine
    by_cases holds : taken
    · obtain ⟨value, yielded, _⟩ := decides.takes holds
      simp [yielded]
    · obtain ⟨fault, reported⟩ := decides.refuses holds fine
      simp [reported]
  · refine iff_of_false ?_ fine
    simp [decides.panics fine]

/-- Either way the call ends. -/
theorem ne_hang : result ≠ .hang := by
  intro stuck
  by_cases fine : safe
  · have returned := decides.returns.mpr fine
    rw [stuck] at returned
    exact returned
  · have stopped := decides.panics fine
    rw [stuck] at stopped
    cases stopped

end

/-- It is enough to know when the call comes back, when it yields a value, and which. -/
theorem of_returns (ends : result ≠ .hang) (returned : result.Returns ↔ safe)
    (takes : taken → ∃ value, result = .ok value)
    (yields : ∀ value, result = .ok value → taken ∧ Expected value) :
    result.Decides taken safe Expected where
  takes holds := by
    obtain ⟨value, yielded⟩ := takes holds
    exact ⟨value, yielded, (yields value yielded).2⟩
  refuses lacks fine := by
    -- A call that comes back without a value reports an error.
    cases outcome : result with
    | ok value => exact absurd (yields value outcome).1 lacks
    | error fault => exact ⟨fault, rfl⟩
    | panic => exact absurd (returned.mpr fine) (by simp [outcome])
    | hang => exact absurd outcome ends
  panics unmet := by
    cases outcome : result with
    | ok value | error fault => exact absurd (returned.mp (by simp [outcome])) unmet
    | panic => rfl
    | hang => exact absurd outcome ends

end Decides

/-- Whatever value the call yields has the property. -/
def Yields (result : Outcome ε α) (Holds : α → Prop) : Prop :=
  ∀ value, result = .ok value → Holds value

theorem Yields.ok {Holds : α → Prop} {value : α} (holds : Holds value) :
    (Outcome.ok value : Outcome ε α).Yields Holds := by
  intro other same
  cases same
  exact holds

/-- In a chain the second call may use what the first one yielded. -/
theorem Yields.bind {Holds : β → Prop}
    (rest : ∀ value, first = .ok value → (next value).Yields Holds) :
    (first >>= next).Yields Holds := by
  intro result yielded
  rw [bind_eq_ok] at yielded
  obtain ⟨value, started, ended⟩ := yielded
  exact rest value started result ended

theorem Yields.ite {yes no : Outcome ε α}
    {Holds : α → Prop} (whenYes : yes.Yields Holds) (whenNo : no.Yields Holds) :
    (if condition then yes else no).Yields Holds := by
  by_cases holds : condition <;> simpa [holds]

variable {σ : Type} {round : σ → α → Outcome ε σ} {items : List α} {start : σ}

/-- What every round of a loop over a list yields again holds of what the loop yields. -/
theorem Yields.foldlM {Holds : σ → Prop} (initial : Holds start)
    (kept : ∀ state, ∀ item ∈ items, Holds state → (round state item).Yields Holds) :
    (items.foldlM round start).Yields Holds := by
  induction items generalizing start with
  | nil => exact .ok initial
  | cons item items ih =>
    rw [foldlM_cons]
    apply Yields.bind
    intro next advanced
    apply ih (kept start item mem_cons_self initial next advanced)
    intro state other later
    exact kept state other (mem_cons_of_mem _ later)

theorem foldlM_ne_hang (ends : ∀ state item, round state item ≠ .hang) (items : List α) (start : σ) :
    items.foldlM round start ≠ .hang := by
  induction items generalizing start with
  | nil => simp
  | cons item items ih =>
    rw [foldlM_cons]
    exact bind_ne_hang (ends start item) fun next _ => ih next

variable {Holds : List α → σ → Prop}

/-- What each round of a loop adds to the items before it holds of all items at its end. -/
theorem foldlM_split {final : σ} (initial : Holds [] start)
    (kept : ∀ seen item rest state next, items = seen ++ item :: rest → Holds seen state →
      round state item = .ok next → Holds (seen ++ [item]) next)
    (done : items.foldlM round start = .ok final) : Holds items final := by
  -- The induction is over the items that are left, for any that were seen before.
  have general : ∀ (rest seen : List α) (state : σ), items = seen ++ rest → Holds seen state →
      rest.foldlM round state = .ok final → Holds items final := by
    intro rest
    induction rest with
    | nil =>
      intro seen state split holds ended
      cases ended
      rwa [split, append_nil]
    | cons item rest ih =>
      intro seen state split holds ended
      rw [foldlM_cons, bind_eq_ok] at ended
      obtain ⟨next, advanced, ended⟩ := ended
      refine ih _ next ?_ (kept seen item rest state next split holds advanced) ended
      rw [split, append_assoc, singleton_append]
  exact general items [] start rfl initial done

/-- What each round of a loop adds to the items seen so far holds of all items at its end. -/
theorem foldlM_seen {final : σ} (initial : Holds [] start)
    (kept : ∀ seen item state next, Holds seen state → round state item = .ok next →
      Holds (seen ++ [item]) next)
    (done : items.foldlM round start = .ok final) : Holds items final :=
  foldlM_split initial (fun seen item _ state next _ => kept seen item state next) done

/-- A loop comes to an end when each of its rounds does, with what they add to the items seen. -/
theorem foldlM_total (initial : Holds [] start)
    (each : ∀ seen item rest state, items = seen ++ item :: rest → Holds seen state →
      ∃ next, round state item = .ok next ∧ Holds (seen ++ [item]) next) :
    ∃ final, items.foldlM round start = .ok final ∧ Holds items final := by
  have general : ∀ (rest seen : List α) (state : σ), items = seen ++ rest → Holds seen state →
      ∃ final, rest.foldlM round state = .ok final ∧ Holds items final := by
    intro rest
    induction rest with
    | nil =>
      intro seen state split holds
      exact ⟨state, rfl, by rwa [split, append_nil]⟩
    | cons item rest ih =>
      intro seen state split holds
      obtain ⟨next, advanced, holds⟩ := each seen item rest state split holds
      obtain ⟨final, ended⟩ := ih _ next (by simp [split]) holds
      exact ⟨final, by rwa [foldlM_cons, advanced]⟩
  exact general items [] start rfl initial

theorem foldlM_ok (start : σ)
    (each : ∀ state, ∀ item ∈ items, ∃ next, round state item = .ok next) :
    ∃ final, items.foldlM round start = .ok final := by
  obtain ⟨final, ended, _⟩ := @foldlM_total _ _ _ round items start (fun _ _ => True) trivial (by
    intro seen item rest state split _
    obtain ⟨next, advanced⟩ := each state item (by simp [split])
    exact ⟨next, advanced, trivial⟩)
  exact ⟨final, ended⟩

/-- A loop comes back exactly when all its items are good, where the items decide alone. -/
theorem foldlM_returns_iff {Good : α → Prop}
    (good : ∀ state item, Good item → ∃ next, round state item = .ok next)
    (bad : ∀ state item, ¬ Good item → ¬ (round state item).Returns) (start : σ) :
    (items.foldlM round start).Returns ↔ ∀ item ∈ items, Good item := by
  induction items generalizing start with
  | nil => simp
  | cons item items ih =>
    rw [foldlM_cons, bind_returns, forall_mem_cons]
    by_cases fine : Good item
    · obtain ⟨next, advanced⟩ := good start item fine
      simp [advanced, fine, ih]
    · simp [bad start item fine, fine]

/-- A loop that reads a key in each round is the plain loop over the keys. -/
theorem foldlM_read {κ : Type} {key : α → Outcome ε κ} {value : α → κ} {step : σ → α → κ → σ}
    (start : σ) (reads : ∀ item ∈ items, key item = .ok (value item)) :
    items.foldlM (fun state item => do return step state item (← key item)) start =
      .ok (items.foldl (fun state item => step state item (value item)) start) := by
  induction items generalizing start with
  | nil => rfl
  | cons item items ih =>
    rw [foldlM_cons, foldl_cons, reads item mem_cons_self]
    exact ih _ fun other later => reads other (mem_cons_of_mem _ later)

/-- A guard that fails with an error comes back whatever its condition says. -/
@[simp] theorem ite_error_returns {fault : ε} {rest : Outcome ε α} :
    (if condition then .error fault else rest).Returns ↔ (¬ condition → rest.Returns) := by
  by_cases holds : condition <;> simp [holds]

end Outcome

variable {ε α β σ : Type}

/-- More fuel never changes an answer that was already reached. -/
def Steady (call : Nat → Outcome ε α) : Prop :=
  ∀ less more, less ≤ more → call less ≠ .hang → call more = call less

theorem steady_const (result : Outcome ε α) : Steady fun _ => result :=
  fun _ _ _ _ => rfl

/-- Chaining steady calls is steady. -/
theorem Steady.bind {first : Nat → Outcome ε α} {next : Nat → α → Outcome ε β}
    (firstSteady : Steady first) (nextSteady : ∀ value, Steady fun fuel => next fuel value) :
    Steady fun fuel => first fuel >>= next fuel := by
  intro less more within returned
  -- The first call has not run out, so the larger budget gives the same first answer.
  have started : first less ≠ .hang := by
    intro stuck
    exact returned (Outcome.bind_eq_hang.mpr (.inl stuck))
  have same := firstSteady less more within started
  cases outcome : first less with
  | ok value =>
    simp only [same, outcome, Outcome.ok_bind] at returned ⊢
    exact nextSteady value less more within returned
  | error fault | panic => simp [same, outcome]
  | hang => exact absurd outcome started

theorem Steady.after {first : Outcome ε α} {next : Nat → α → Outcome ε β}
    (steady : ∀ value, Steady fun fuel => next fuel value) : Steady fun fuel => first >>= next fuel :=
  (steady_const first).bind steady

theorem Steady.ite {yes no : Nat → Outcome ε α} (yesSteady : Steady yes) (noSteady : Steady no) :
    Steady fun fuel => if condition then yes fuel else no fuel := by
  by_cases holds : condition <;> simpa [holds]

variable {call : Nat → Outcome ε α}

theorem Steady.withError (steady : Steady call) (fault : ε) :
    Steady fun fuel => (call fuel).withError fault := by
  intro less more within returned
  have started : call less ≠ .hang := by
    intro stuck
    exact returned (by simp [stuck, Outcome.withError])
  simp only [steady less more within started]

theorem Steady.agree (steady : Steady call) {left right : Nat}
    (leftDone : call left ≠ .hang) (rightDone : call right ≠ .hang) : call left = call right := by
  -- Both answers survive at the larger of the two budgets.
  have fromLeft := steady left (max left right) (le_max_left _ _) leftDone
  have fromRight := steady right (max left right) (le_max_right _ _) rightDone
  exact fromLeft.symm.trans fromRight

/-- A steady call that comes back once comes back with every larger budget. -/
theorem Steady.returns_max (steady : Steady call) {fuel : Nat}
    (returned : (call fuel).Returns) (other : Nat) : (call (max fuel other)).Returns := by
  rw [steady fuel _ (le_max_left _ _) ((Outcome.returns_iff _).mp returned).2]
  exact returned

/-- A steady call that has returned a value returns that value and no other. -/
theorem Steady.ok_iff (steady : Steady call) {fuel : Nat} {got : α}
    (returned : call fuel = .ok got) (value : α) :
    (∃ fuel, call fuel = .ok value) ↔ got = value := by
  constructor
  · rintro ⟨other, ended⟩
    have same : call fuel = call other :=
      steady.agree (by simp [returned]) (by simp [ended])
    rw [returned, ended] at same
    exact Outcome.ok.inj same
  · rintro rfl
    exact ⟨fuel, returned⟩

end FlexSwitch.Go
