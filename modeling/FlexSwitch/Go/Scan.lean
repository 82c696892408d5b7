import FlexSwitch.Go.Walk

/-! Loops that read items up to a limit, and how they end. -/

namespace FlexSwitch.Go

variable {position fuel : Nat}

variable {ε α σ ι : Type}

/--
A loop that reads one item in each round until it is at a limit.

In front of the limit a round goes on if there is an item to read and panics if looking for one is
not safe. At the limit the loop ends, and behind it with an error.
-/
structure Scans (round : σ → Outcome ε (Round σ α)) (start : σ) (pos : σ → Nat)
    (first limit : Nat) (reads : Nat → ι → Prop) (size : ι → Nat) (safe : Nat → Prop) : Prop where
  begins : pos start = first
  inside : ∀ state, Reaches round start state → pos state < limit →
    (round state).Decides (∃ item, reads (pos state) item) (safe (pos state)) fun result =>
      ∃ later item, result = .next later ∧ reads (pos state) item ∧
        pos later = pos state + size item
  ends : ∀ state, Reaches round start state → pos state = limit →
    ∃ value, round state = .ok (.stop value)
  overrun : ∀ state, Reaches round start state → limit < pos state →
    ∃ fault, round state = .error fault
  unique : ∀ position item other, reads position item → reads position other →
    size item = size other

namespace Scans

variable {round : σ → Outcome ε (Round σ α)} {start : σ} {pos : σ → Nat} {first limit : Nat}
  {reads : Nat → ι → Prop} {size : ι → Nat} {safe : Nat → Prop}
  (scans : Scans round start pos first limit reads size safe)

include scans

variable {state : σ}

/-- A round that goes on was in front of the limit and has read an item. -/
theorem next {later : σ} (reached : Reaches round start state)
    (advanced : round state = .ok (.next later)) :
    pos state < limit ∧ ∃ item, reads (pos state) item ∧ pos later = pos state + size item := by
  rcases lt_trichotomy _ limit with before | here | behind
  · obtain ⟨_, _, item, same, read, moved⟩ := (scans.inside state reached before).of_ok advanced
    cases same
    exact ⟨before, item, read, moved⟩
  · obtain ⟨value, stopped⟩ := scans.ends state reached here
    rw [advanced] at stopped
    cases stopped
  · obtain ⟨fault, failed⟩ := scans.overrun state reached behind
    rw [advanced] at failed
    cases failed

/-- An item in front of the limit is read, and the loop moves behind it. -/
theorem takes (reached : Reaches round start state) (before : pos state < limit)
    {item : ι} (read : reads (pos state) item) :
    ∃ later, round state = .ok (.next later) ∧ pos later = pos state + size item := by
  obtain ⟨_, advanced, later, other, rfl, again, moved⟩ :=
    (scans.inside state reached before).takes ⟨item, read⟩
  exact ⟨later, advanced, by rw [moved, scans.unique _ item other read again]⟩

theorem walk (reached : Reaches round start state) : Walk reads size limit first (pos state) := by
  rw [← scans.begins]
  refine reached.walk pos ?_
  intro before later earlier advanced
  obtain ⟨inside, item, read, moved⟩ := scans.next earlier advanced
  exact ⟨item, inside, read, moved⟩

theorem reaches (walked : Walk reads size limit first position) :
    ∃ state, Reaches round start state ∧ pos state = position := by
  induction walked with
  | start => exact ⟨start, .refl start, scans.begins⟩
  | step before inside read ih =>
    obtain ⟨state, reached, here⟩ := ih
    subst here
    obtain ⟨later, advanced, moved⟩ := scans.takes reached inside read
    exact ⟨later, .step reached advanced, moved⟩

theorem round_ne_hang (reached : Reaches round start state) : round state ≠ .hang := by
  rcases lt_trichotomy _ limit with before | here | behind
  · exact (scans.inside state reached before).ne_hang
  · obtain ⟨value, stopped⟩ := scans.ends state reached here
    simp [stopped]
  · obtain ⟨fault, failed⟩ := scans.overrun state reached behind
    simp [failed]

theorem round_returns (reached : Reaches round start state)
    (fine : pos state < limit → safe (pos state)) : (round state).Returns := by
  rcases lt_trichotomy _ limit with before | here | behind
  · exact (scans.inside state reached before).returns.mpr (fine before)
  · obtain ⟨value, stopped⟩ := scans.ends state reached here
    simp [stopped]
  · obtain ⟨fault, failed⟩ := scans.overrun state reached behind
    simp [failed]

/-- A loop that comes back has looked at safe positions only. -/
theorem safe_of_returns (returned : (loop round fuel start).Returns)
    (walked : Walk reads size limit first position) (inside : position < limit) :
    safe position := by
  obtain ⟨state, reached, rfl⟩ := scans.reaches walked
  exact (scans.inside state reached inside).returns.mp (reached.round_returns returned)

/-- An item without a size is read again and again. -/
theorem stalls (walked : Walk reads size limit first position) (inside : position < limit)
    {item : ι} (read : reads position item) (empty : size item = 0) (fuel : Nat) :
    loop round fuel start = .hang := by
  by_contra ended
  obtain ⟨state, reached, here⟩ := scans.reaches walked
  obtain ⟨left, _, same⟩ := reached.resume ended
  apply ended
  rw [same]
  -- From the item on the loop stays where it is.
  refine loop_hang (fun state => Reaches round start state ∧ pos state = position) ?_ left state
    ⟨reached, here⟩
  intro state ⟨reached, here⟩
  subst here
  obtain ⟨later, advanced, moved⟩ := scans.takes reached inside read
  exact ⟨later, advanced, .step reached advanced, by rw [moved, empty]; rfl⟩

section Moving

variable (moving : ∀ position item, Walk reads size limit first position →
  position < limit → reads position item → 0 < size item)

include moving

theorem shrinks {later : σ} (reached : Reaches round start state)
    (advanced : round state = .ok (.next later)) : limit - pos later < limit - pos state := by
  obtain ⟨inside, item, read, moved⟩ := scans.next reached advanced
  have longer := moving _ item (scans.walk reached) inside read
  omega

theorem ne_hang (enough : limit - first < fuel) : loop round fuel start ≠ .hang := by
  rw [← scans.begins] at enough
  exact loop_ne_hang (fun state => limit - pos state)
    (fun _ _ reached advanced => scans.shrinks moving reached advanced)
    (fun _ reached => scans.round_ne_hang reached) enough

/-- A scan whose items have a size comes back exactly when it looks at safe positions only. -/
theorem returns_iff (enough : limit - first < fuel) : (loop round fuel start).Returns ↔
      ∀ position, Walk reads size limit first position → position < limit → safe position := by
  constructor
  · intro returned position walked inside
    exact scans.safe_of_returns returned walked inside
  · intro fine
    rw [← scans.begins] at enough
    have rounds : (loop round fuel start).Returns ↔ _ :=
      loop_returns_iff (fun state => limit - pos state)
        (fun _ _ reached advanced => scans.shrinks moving reached advanced) enough
    rw [rounds]
    intro state reached
    exact scans.round_returns reached (fine _ (scans.walk reached))

end Moving

theorem of_ok {value : α} (ended : loop round fuel start = .ok value) :
    ∃ last, Reaches round start last ∧ pos last = limit ∧ round last = .ok (.stop value) := by
  obtain ⟨last, reached, stopped⟩ := loop_eq_ok ended
  refine ⟨last, reached, ?_, stopped⟩
  rcases lt_trichotomy _ limit with before | here | behind
  · -- In front of the limit a round does not stop.
    obtain ⟨_, _, _, same, _⟩ := (scans.inside last reached before).of_ok stopped
    cases same
  · exact here
  · obtain ⟨fault, failed⟩ := scans.overrun last reached behind
    rw [stopped] at failed
    cases failed

theorem succeeds (ended : loop round fuel start ≠ .hang)
    (walked : Walk reads size limit first limit) :
    ∃ value, loop round fuel start = .ok value := by
  obtain ⟨last, reached, here⟩ := scans.reaches walked
  obtain ⟨value, stopped⟩ := scans.ends last reached here
  exact ⟨value, reached.loop_stop stopped ended⟩

end Scans

end FlexSwitch.Go
