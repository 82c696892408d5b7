import FlexSwitch.Go.Loop

/-! Loops that follow a successor from key to key, and end unless they come back. -/

namespace FlexSwitch.Go

variable {ε α σ : Type}

/-- Rounds that all come through lead to a value, or the budget runs out. -/
theorem loop_hang_or_ok {round : σ → Outcome ε (Round σ α)}
    (through : ∀ state, ∃ result, round state = .ok result) (fuel : Nat) (start : σ) :
    loop round fuel start = .hang ∨ ∃ value, loop round fuel start = .ok value := by
  induction fuel generalizing start with
  | zero => exact .inl rfl
  | succ fuel ih =>
    obtain ⟨result, outcome⟩ := through start
    cases result with
    | next later => rw [loop_next outcome]; exact ih later
    | stop value => exact .inr ⟨value, loop_stop outcome fuel⟩

/-- A loop that goes from key to key, and on exactly where a key has a successor. -/
structure Follows {κ : Type} (round : σ → Outcome ε (Round σ α)) (key : σ → κ)
    (Next : κ → κ → Prop) : Prop where
  through : ∀ state, ∃ result, round state = .ok result
  successor : ∀ state later, round state = .ok (.next later) → Next (key state) (key later)
  goesOn : ∀ state target, Next (key state) target →
    ∃ later, round state = .ok (.next later) ∧ key later = target

namespace Follows

variable {κ : Type} {round : σ → Outcome ε (Round σ α)} {key : σ → κ} {Next : κ → κ → Prop}

open Relation

/-- The keys a loop comes to are those its successors lead to. -/
theorem reaches (follows : Follows round key Next) {start state : σ}
    (reached : Reaches round start state) : ReflTransGen Next (key start) (key state) := by
  induction reached with
  | refl => exact .refl
  | step _ advanced ih => exact ih.tail (follows.successor _ _ advanced)

/-- A loop on the way to a key that leads back to itself never ends. -/
theorem hang (follows : Follows round key Next) {start : σ} {looped : κ}
    (reached : ReflTransGen Next (key start) looped) (back : TransGen Next looped looped)
    (fuel : Nat) : loop round fuel start = .hang := by
  let Stuck (state : σ) : Prop := ReflTransGen Next (key state) looped
  refine loop_hang Stuck (fun state stuck => ?_) fuel start reached
  -- At the key itself the way back is taken once more.
  have onward : TransGen Next (key state) looped := by
    rcases reflTransGen_iff_eq_or_transGen.mp stuck with here | onward
    · rw [← here]; exact here ▸ back
    · exact onward
  obtain ⟨target, next, rest⟩ := TransGen.head'_iff.mp onward
  obtain ⟨later, advanced, rfl⟩ := follows.goesOn state target next
  exact ⟨later, advanced, rest⟩

open Classical in
/-- With finitely many successors a loop ends unless a key it comes to leads back to itself. -/
theorem returns_iff (follows : Follows round key Next) (targets : Finset κ)
    (within : ∀ key target, Next key target → target ∈ targets) (start : σ) :
    (∃ fuel value, loop round fuel start = .ok value) ↔
      ∀ reached, ReflTransGen Next (key start) reached → ¬TransGen Next reached reached := by
  constructor
  · rintro ⟨fuel, value, returned⟩ looped reached back
    rw [follows.hang reached back fuel] at returned
    cases returned
  · intro acyclic
    -- What can still be reached shrinks, as a key that was left is not come to again.
    let ahead (state : σ) : Finset κ := targets.filter fun target => TransGen Next (key state) target
    have shrinks : ∀ state later, Reaches round start state → round state = .ok (.next later) →
        (ahead later).card < (ahead state).card := by
      intro state later reached advanced
      have next := follows.successor state later advanced
      apply Finset.card_lt_card
      rw [Finset.ssubset_iff_of_subset]
      · refine ⟨key later, ?_, ?_⟩
        · simp only [ahead, Finset.mem_filter]
          exact ⟨within _ _ next, .single next⟩
        · simp only [ahead, Finset.mem_filter, not_and]
          intro _ back
          exact acyclic _ (follows.reaches (.step reached advanced)) back
      · intro target member
        simp only [ahead, Finset.mem_filter] at member ⊢
        exact ⟨member.1, member.2.head next⟩
    have ended : ∀ state, Reaches round start state → round state ≠ .hang := by
      intro state _ stuck
      obtain ⟨result, outcome⟩ := follows.through state
      rw [outcome] at stuck
      cases stuck
    have enough := Nat.lt_succ_self (ahead start).card
    have returned := loop_ne_hang (fun state => (ahead state).card) shrinks ended enough
    rcases loop_hang_or_ok follows.through ((ahead start).card + 1) start with stuck | done
    · exact absurd stuck returned
    · exact ⟨_, done⟩

end Follows

end FlexSwitch.Go
