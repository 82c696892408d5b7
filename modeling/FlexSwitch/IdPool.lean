import Mathlib

/-!
Identifiers that are handed out and given back.

Below a mark every identifier has one owner or stands on a list of free ones.
-/

namespace FlexSwitch.IdPool

open List UInt32

variable {ι : Type} {Owns Owns' : ι → UInt32 → Prop} {mark mark' : UInt32}
  {free free' : List UInt32} {owner : ι} {id : UInt32}

/-- The mark and the free list agree with who owns what. -/
structure Exact (Owns : ι → UInt32 → Prop) (mark : UInt32) (free : List UInt32) : Prop where
  bounded : ∀ {one id}, Owns one id → 1 ≤ id ∧ id < mark
  distinct : ∀ {one other id}, Owns one id → Owns other id → one = other
  disjoint : ∀ {one id}, Owns one id → id ∉ free
  covered : ∀ {id}, 1 ≤ id → id < mark → (∃ one, Owns one id) ∨ id ∈ free
  inRange : ∀ {id}, id ∈ free → 1 ≤ id ∧ id < mark
  once : free.Nodup
  positive : 1 ≤ mark

theorem Exact.initial (unowned : ∀ one id, ¬ Owns one id) : Exact Owns 1 [] where
  bounded owned := absurd owned (unowned _ _)
  distinct owned := absurd owned (unowned _ _)
  disjoint owned := absurd owned (unowned _ _)
  covered positive below :=
    absurd (UInt32.lt_of_lt_of_le below positive) (UInt32.lt_irrefl _)
  inRange member := by cases member
  once := nodup_nil
  positive := UInt32.le_refl _

/-- An identifier nobody owns stays with one owner when it is given to somebody. -/
theorem Exact.distinct_given (exact : Exact Owns mark free) (unowned : ∀ one, ¬ Owns one id)
    (given : ∀ one other, Owns' one other ↔ (one = owner ∧ other = id) ∨ Owns one other)
    {one other : ι} {shared : UInt32} (left : Owns' one shared) (right : Owns' other shared) :
    one = other := by
  rcases (given _ _).mp left with ⟨rfl, rfl⟩ | left <;>
    rcases (given _ _).mp right with ⟨rfl, same⟩ | right
  · rfl
  · exact absurd right (unowned _)
  · exact absurd (same ▸ left) (unowned _)
  · exact exact.distinct left right

/-- A free identifier is handed out. -/
theorem Exact.take (exact : Exact Owns mark free) (available : id ∈ free)
    (given : ∀ one other, Owns' one other ↔ (one = owner ∧ other = id) ∨ Owns one other)
    (rest : ∀ other, other ∈ free' ↔ other ∈ free ∧ other ≠ id) (once : free'.Nodup) :
    Exact Owns' mark free' where
  bounded owned := by
    rcases (given _ _).mp owned with ⟨_, rfl⟩ | owned
    · exact exact.inRange available
    · exact exact.bounded owned
  distinct := exact.distinct_given (fun _ owned => exact.disjoint owned available) given
  disjoint owned member := by
    obtain ⟨member, different⟩ := (rest _).mp member
    rcases (given _ _).mp owned with ⟨_, same⟩ | owned
    · exact different same
    · exact exact.disjoint owned member
  covered {other} positive below := by
    by_cases same : other = id
    · exact .inl ⟨owner, (given _ _).mpr (.inl ⟨rfl, same⟩)⟩
    · rcases exact.covered positive below with ⟨one, owned⟩ | member
      · exact .inl ⟨one, (given _ _).mpr (.inr owned)⟩
      · exact .inr ((rest _).mpr ⟨member, same⟩)
  inRange member := exact.inRange ((rest _).mp member).1
  once := once
  positive := exact.positive

/-- With nothing free the mark is handed out, and moves up by one. -/
theorem Exact.extend (exact : Exact Owns mark [])
    (given : ∀ one other, Owns' one other ↔ (one = owner ∧ other = mark) ∨ Owns one other)
    (next : mark'.toNat = mark.toNat + 1) : Exact Owns' mark' [] where
  bounded owned := by
    rw [lt_iff_toNat_lt]
    rcases (given _ _).mp owned with ⟨_, rfl⟩ | owned
    · exact ⟨exact.positive, by omega⟩
    · obtain ⟨positive, below⟩ := exact.bounded owned
      rw [lt_iff_toNat_lt] at below
      exact ⟨positive, by omega⟩
  distinct := exact.distinct_given
    (fun _ owned => UInt32.lt_irrefl _ (exact.bounded owned).2) given
  disjoint _ member := by cases member
  covered {other} positive below := by
    by_cases same : other = mark
    · exact .inl ⟨owner, (given _ _).mpr (.inl ⟨rfl, same⟩)⟩
    · -- Any other identifier below the new mark was below the old one.
      have before : other < mark := by
        rw [lt_iff_toNat_lt] at below ⊢
        have apart : other.toNat ≠ mark.toNat := fun eq => same (UInt32.toNat_inj.mp eq)
        omega
      rcases exact.covered positive before with ⟨one, owned⟩ | member
      · exact .inl ⟨one, (given _ _).mpr (.inr owned)⟩
      · cases member
  inRange member := by cases member
  once := nodup_nil
  positive := by
    have positive := exact.positive
    rw [le_iff_toNat_le] at positive ⊢
    omega

section Release

variable (exact : Exact Owns mark free) (owned : Owns owner id)
  (only : ∀ other, Owns owner other → other = id)
  (given : ∀ one other, Owns' one other ↔ one ≠ owner ∧ Owns one other)

include exact owned given in
/-- Whoever still owns something owns another identifier than the one given back. -/
theorem Exact.others {one : ι} {other : UInt32} (after : Owns' one other) :
    Owns one other ∧ other ≠ id := by
  obtain ⟨elsewhere, before⟩ := (given _ _).mp after
  refine ⟨before, ?_⟩
  rintro rfl
  exact elsewhere (exact.distinct before owned)

include only given in
theorem Exact.still {one : ι} {other : UInt32} (before : Owns one other) (different : other ≠ id) :
    Owns' one other := by
  refine (given _ _).mpr ⟨?_, before⟩
  rintro rfl
  exact different (only other before)

include exact owned only given in
/-- The highest identifier comes back, and the mark moves down to it. -/
theorem Exact.lower (top : mark.toNat = id.toNat + 1) : Exact Owns' id free := by
  have others := @Exact.others ι Owns Owns' mark free owner id exact owned given
  have still := @Exact.still ι Owns Owns' owner id only given
  -- What was below the mark and is not the identifier is below it.
  have lower : ∀ {other : UInt32}, other < mark → other ≠ id → other < id := by
    intro other below different
    rw [lt_iff_toNat_lt] at below ⊢
    have apart : other.toNat ≠ id.toNat := fun same => different (UInt32.toNat_inj.mp same)
    omega
  constructor
  case bounded =>
    intro one other after
    obtain ⟨before, different⟩ := others after
    obtain ⟨positive, below⟩ := exact.bounded before
    exact ⟨positive, lower below different⟩
  case distinct =>
    intro one other shared left right
    exact exact.distinct (others left).1 (others right).1
  case disjoint =>
    intro one other after
    exact exact.disjoint (others after).1
  case covered =>
    intro other positive below
    have different : other ≠ id := by
      rintro rfl
      exact UInt32.lt_irrefl _ below
    have before : other < mark := UInt32.lt_trans below (exact.bounded owned).2
    rcases exact.covered positive before with ⟨one, used⟩ | unused
    · exact .inl ⟨one, still used different⟩
    · exact .inr unused
  case inRange =>
    intro other member
    obtain ⟨positive, below⟩ := exact.inRange member
    exact ⟨positive, lower below fun same => exact.disjoint owned (same ▸ member)⟩
  case once => exact exact.once
  case positive => exact (exact.bounded owned).1

include exact owned only given in
/-- Any identifier may come back to the free list. -/
theorem Exact.release : Exact Owns' mark (free ++ [id]) := by
  have others := @Exact.others ι Owns Owns' mark free owner id exact owned given
  have still := @Exact.still ι Owns Owns' owner id only given
  constructor
  case bounded =>
    intro one other after
    exact exact.bounded (others after).1
  case distinct =>
    intro one other shared left right
    exact exact.distinct (others left).1 (others right).1
  case disjoint =>
    intro one other after member
    rw [mem_append, mem_singleton] at member
    rcases member with member | same
    · exact exact.disjoint (others after).1 member
    · exact (others after).2 same
  case covered =>
    intro other positive below
    rw [mem_append, mem_singleton]
    by_cases same : other = id
    · exact .inr (.inr same)
    · rcases exact.covered positive below with ⟨one, used⟩ | unused
      · exact .inl ⟨one, still used same⟩
      · exact .inr (.inl unused)
  case inRange =>
    intro other member
    rw [mem_append, mem_singleton] at member
    rcases member with member | rfl
    · exact exact.inRange member
    · exact exact.bounded owned
  case once =>
    refine nodup_append.mpr ⟨exact.once, nodup_singleton _, ?_⟩
    rintro left leftMember right rightMember rfl
    rw [mem_singleton] at rightMember
    exact exact.disjoint owned (rightMember ▸ leftMember)
  case positive => exact exact.positive

end Release

end FlexSwitch.IdPool
