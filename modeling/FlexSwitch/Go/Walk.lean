import FlexSwitch.Go.Loop

/-! The positions a scanner visits when each item it reads says how far the next one is. -/

namespace FlexSwitch.Go

variable {ε α β σ ι : Type}

/--
Positions below the limit reached from a start, item after item.

What can be read at a position and how long it is are left to the caller.
-/
inductive Walk (reads : Nat → ι → Prop) (size : ι → Nat) (limit start : Nat) : Nat → Prop where
  | start : Walk reads size limit start start
  | step {position : Nat} {item : ι} : Walk reads size limit start position →
      position < limit → reads position item → Walk reads size limit start (position + size item)

variable {reads : Nat → ι → Prop} {size : ι → Nat} {limit : Nat}

/-- A loop whose rounds each read one item visits positions of the walk only. -/
theorem Reaches.walk {round : σ → Outcome ε (Round σ α)} (pos : σ → Nat) {start last : σ}
    (reached : Reaches round start last)
    (reading : ∀ state later, Reaches round start state → round state = .ok (.next later) →
      ∃ item, pos state < limit ∧ reads (pos state) item ∧ pos later = pos state + size item) :
    Walk reads size limit (pos start) (pos last) := by
  induction reached with
  | refl => exact .start
  | step before advanced ih =>
    -- The last round read one item at the position the walk had come to.
    obtain ⟨item, within, read, moved⟩ := reading _ _ before advanced
    rw [moved]
    exact .step ih within read

/-- A loop that takes every item in front of it visits every position of the walk. -/
theorem Walk.reaches {round : σ → Outcome ε (Round σ α)} (pos : σ → Nat) {start : σ}
    {position : Nat} (walked : Walk reads size limit (pos start) position)
    (within : position < limit)
    (taking : ∀ state item, Reaches round start state → pos state < limit →
      reads (pos state) item → pos state + size item < limit →
      ∃ later, round state = .ok (.next later) ∧ pos later = pos state + size item) :
    ∃ last, Reaches round start last ∧ pos last = position := by
  induction walked with
  | start => exact ⟨start, .refl start, rfl⟩
  | step before inside read ih =>
    obtain ⟨state, reached, here⟩ := ih inside
    subst here
    obtain ⟨later, advanced, moved⟩ := taking state _ reached inside read within
    exact ⟨later, .step reached advanced, moved⟩

end FlexSwitch.Go
