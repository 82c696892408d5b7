import FlexSwitch.Go.Outcome

/-! Loops whose exit depends on what each round computes, run on a budget of rounds. -/

namespace FlexSwitch.Go

open Outcome

variable {fuel : Nat}

variable {ε α σ : Type}

/-- What one round leads to: another round, or the end of the loop. -/
inductive Round (σ α : Type) where
  | next (state : σ)
  | stop (value : α)
deriving DecidableEq, Repr

/-- Run rounds until one of them stops, fails, or the budget is spent. -/
def loop (round : σ → Outcome ε (Round σ α)) : Nat → σ → Outcome ε α
  | 0, _ => .hang
  | fuel + 1, state => do
    match ← round state with
    | .next later => loop round fuel later
    | .stop value => .ok value

variable {round : σ → Outcome ε (Round σ α)}

/-- A round that goes on hands its state to the rest of the budget. -/
theorem loop_next {state later : σ} (advanced : round state = .ok (.next later)) (fuel : Nat) :
    loop round (fuel + 1) state = loop round fuel later := by
  simp [loop, advanced]

theorem loop_stop {state : σ} {value : α} (stopped : round state = .ok (.stop value)) (fuel : Nat) :
    loop round (fuel + 1) state = .ok value := by
  simp [loop, stopped]

/-- A loop that takes one item of a list in each round, and stops when none is left. -/
theorem loop_takes {ι : Type} (Ready : σ → List ι → Prop) {value : α}
    (takes : ∀ state item rest, Ready state (item :: rest) →
      ∃ later, round state = .ok (.next later) ∧ Ready later rest)
    (stops : ∀ state, Ready state [] → round state = .ok (.stop value))
    {items : List ι} {start : σ} (ready : Ready start items) (enough : items.length < fuel) :
    loop round fuel start = .ok value := by
  obtain ⟨left, rfl⟩ := Nat.exists_eq_add_one_of_ne_zero (Nat.ne_zero_of_lt enough)
  induction items generalizing start left with
  | nil => exact loop_stop (stops start ready) left
  | cons item rest ih =>
    obtain ⟨later, advanced, again⟩ := takes start item rest ready
    rw [List.length_cons] at enough
    obtain ⟨left, rfl⟩ := Nat.exists_eq_add_one_of_ne_zero (show left ≠ 0 by omega)
    rw [loop_next advanced]
    exact ih again left (by omega)

/-- The states a loop passes through, each one round after the last. -/
inductive Reaches (round : σ → Outcome ε (Round σ α)) : σ → σ → Prop where
  | refl (state : σ) : Reaches round state state
  | step {start state later : σ} : Reaches round start state →
      round state = .ok (.next later) → Reaches round start later

variable {start : σ}

/-- A state one round in reaches whatever its successor reaches. -/
theorem Reaches.head {state later : σ}
    (advanced : round start = .ok (.next state)) (rest : Reaches round state later) :
    Reaches round start later := by
  induction rest with
  | refl => exact .step (.refl start) advanced
  | step _ again ih => exact .step ih again

variable {last : σ}

/-- A property every round preserves holds of each state a loop passes through. -/
theorem Reaches.invariant (Holds : σ → Prop)
    (reached : Reaches round start last) (initial : Holds start)
    (kept : ∀ state later, Holds state → round state = .ok (.next later) → Holds later) :
    Holds last := by
  induction reached with
  | refl => exact initial
  | step _ advanced ih => exact kept _ _ ih advanced

/-- A loop with budget left behaves from any state it reaches as it does from the start. -/
theorem Reaches.resume
    (reached : Reaches round start last) (returned : loop round fuel start ≠ .hang) :
    ∃ left, left ≤ fuel ∧ loop round fuel start = loop round left last := by
  induction reached with
  | refl => exact ⟨fuel, le_refl _, rfl⟩
  | step _ advanced ih =>
    obtain ⟨left, within, same⟩ := ih
    -- Arriving here with no budget would have used up the whole loop.
    cases left with
    | zero => exact absurd same returned
    | succ left => exact ⟨left, by omega, by rw [same, loop_next advanced]⟩

/-- A loop whose rounds are steady in their own fuel is steady in the shared budget. -/
theorem steady_loop {round : Nat → σ → Outcome ε (Round σ α)}
    (steady : ∀ state, Steady fun fuel => round fuel state) (start : σ) :
    Steady fun fuel => loop (round fuel) fuel start := by
  -- The budgets of the rounds and of the loop are raised one after the other.
  have general : ∀ less more, less ≤ more → ∀ spent left, spent ≤ left → ∀ state,
      loop (round less) spent state ≠ .hang →
        loop (round more) left state = loop (round less) spent state := by
    intro less more within spent
    induction spent with
    | zero => intro left _ state returned; exact absurd rfl returned
    | succ spent ih =>
      intro left longer state returned
      obtain ⟨left, rfl⟩ : ∃ rest, left = rest + 1 := ⟨left - 1, by omega⟩
      have entered : round less state ≠ .hang := by
        intro stuck
        exact returned (by simp [loop, stuck])
      have same := steady state less more within entered
      simp only at same
      cases outcome : round less state with
      | ok result =>
        cases result with
        | next later =>
          rw [loop_next (same.trans outcome), loop_next outcome] at *
          exact ih left (by omega) later returned
        | stop value => rw [loop_stop (same.trans outcome), loop_stop outcome]
      | error fault | panic => simp [loop, same, outcome]
      | hang => exact absurd outcome entered
  intro less more within returned
  exact general less more within less more within start returned

/-- A loop whose rounds spend nothing of their own is steady. -/
theorem steady_plainLoop (round : σ → Outcome ε (Round σ α)) (start : σ) :
    Steady fun fuel => loop round fuel start := by
  have rounds : ∀ state, Steady fun _ : Nat => round state := fun state => steady_const _
  exact steady_loop rounds start

/-- Rounds that lower a measure bring the loop to its end before the measure's budget is spent. -/
theorem loop_ne_hang (size : σ → Nat) (shrinks : ∀ state later, Reaches round start state →
      round state = .ok (.next later) → size later < size state)
    (entered : ∀ state, Reaches round start state → round state ≠ .hang)
    (enough : size start < fuel) : loop round fuel start ≠ .hang := by
  induction fuel generalizing start with
  | zero => omega
  | succ fuel ih =>
    cases outcome : round start with
    | ok result =>
      cases result with
      | next later =>
        rw [loop_next outcome]
        -- Everything reached from the next state is reached from this one too.
        have smaller := shrinks start later (.refl start) outcome
        exact ih (fun _ _ reached => shrinks _ _ (reached.head outcome))
          (fun _ reached => entered _ (reached.head outcome)) (by omega)
      | stop value => simp [loop_stop outcome]
    | error fault | panic => simp [loop, outcome]
    | hang => exact absurd outcome (entered start (.refl start))

/-- A loop that can always go on from the states it keeps to never ends. -/
theorem loop_hang (Stuck : σ → Prop)
    (goesOn : ∀ state, Stuck state → ∃ later, round state = .ok (.next later) ∧ Stuck later)
    (fuel : Nat) (start : σ) (stuck : Stuck start) : loop round fuel start = .hang := by
  induction fuel generalizing start with
  | zero => rfl
  | succ fuel ih =>
    obtain ⟨later, advanced, again⟩ := goesOn start stuck
    rw [loop_next advanced]
    exact ih later again

/-- A loop that ends and comes to a round that stops ends with that round's value. -/
theorem Reaches.loop_stop {value : α}
    (reached : Reaches round start last) (stopped : round last = .ok (.stop value))
    (ended : loop round fuel start ≠ .hang) : loop round fuel start = .ok value := by
  obtain ⟨left, _, same⟩ := reached.resume ended
  cases left with
  | zero => exact absurd same ended
  | succ left => rw [same, Go.loop_stop stopped]

theorem Reaches.round_ne_hang
    (reached : Reaches round start last) (ended : loop round fuel start ≠ .hang) :
    round last ≠ .hang := by
  intro stuck
  -- The run from the reached state is the tail of the whole run.
  obtain ⟨left, _, same⟩ := reached.resume ended
  apply ended
  rw [same]
  cases left with
  | zero => rfl
  | succ left => rw [loop, stuck, hang_bind]

/-- A loop that comes back has come back from each round it entered. -/
theorem Reaches.round_returns
    (reached : Reaches round start last) (returned : (loop round fuel start).Returns) :
    (round last).Returns := by
  -- The run from the reached state is the tail of the whole run.
  obtain ⟨left, _, same⟩ := reached.resume ((returns_iff _).mp returned).2
  rw [same] at returned
  cases left with
  | zero => exact absurd returned (by simp [loop])
  | succ left =>
    rw [loop, bind_returns] at returned
    exact returned.1

/-- With a decreasing measure, a loop comes back exactly when every round it enters does. -/
theorem loop_returns_iff (size : σ → Nat) (shrinks : ∀ state later, Reaches round start state →
      round state = .ok (.next later) → size later < size state) (enough : size start < fuel) :
    (loop round fuel start).Returns ↔
      ∀ state, Reaches round start state → (round state).Returns := by
  constructor
  · intro returned state reached
    exact reached.round_returns returned
  · intro entered
    induction fuel generalizing start with
    | zero => omega
    | succ fuel ih =>
      have first := entered start (.refl start)
      cases outcome : round start with
      | ok result =>
        cases result with
        | next later =>
          rw [loop_next outcome]
          have smaller := shrinks start later (.refl start) outcome
          exact ih (fun _ _ reached => shrinks _ _ (reached.head outcome)) (by omega)
            fun _ reached => entered _ (reached.head outcome)
        | stop value => simp [loop_stop outcome]
      | error fault => simp [loop, outcome]
      | panic | hang => simp [outcome] at first

/-- The value a loop ends with was produced by a round it reached. -/
theorem loop_eq_ok {value : α} (ended : loop round fuel start = .ok value) :
    ∃ last, Reaches round start last ∧ round last = .ok (.stop value) := by
  induction fuel generalizing start with
  | zero => simp [loop] at ended
  | succ fuel ih =>
    cases outcome : round start with
    | ok result =>
      cases result with
      | next later =>
        rw [loop_next outcome] at ended
        obtain ⟨last, reached, stopped⟩ := ih ended
        exact ⟨last, reached.head outcome, stopped⟩
      | stop result =>
        rw [loop_stop outcome] at ended
        cases ended
        exact ⟨start, .refl start, outcome⟩
    | error fault | panic | hang => simp [loop, outcome] at ended

/-- A loop that moves an index over a list runs its body on what is left of the list. -/
theorem loop_index {ι : Type} {items : List ι} {body : σ → ι → Outcome ε σ}
    {round : Nat × σ → Outcome ε (Round (Nat × σ) α)} {finish : σ → α}
    (ended : ∀ state, round (items.length, state) = .ok (.stop (finish state)))
    (taken : ∀ idx item state, items[idx]? = some item →
      round (idx, state) = body state item >>= fun later => .ok (.next (idx + 1, later)))
    {fuel idx : Nat} (within : idx ≤ items.length) (enough : items.length - idx < fuel)
    (state : σ) :
    loop round fuel (idx, state) =
      (items.drop idx).foldlM body state >>= fun last => .ok (finish last) := by
  induction fuel generalizing idx state with
  | zero => omega
  | succ fuel ih =>
    by_cases last : idx = items.length
    · subst last
      rw [loop_stop (ended state), List.drop_length]
      rfl
    · -- One item is taken off the list, and the body decides whether to go on.
      have inside : idx < items.length := by omega
      rw [loop, taken idx items[idx] state (List.getElem?_eq_getElem inside),
        List.drop_eq_getElem_cons inside, List.foldlM_cons, bind_assoc,
        bind_assoc]
      congr 1
      funext later
      exact ih (by omega) (by omega) later

end FlexSwitch.Go
