import Mathlib

/-! The elements of a set or list on which a rank is least. -/

namespace FlexSwitch

open List

variable {α : Type} {rank : α → Nat}

/-- What holds of the items seen before and of this one holds of all of them. -/
theorem forall_snoc {Holds : α → Prop} {seen : List α} {item : α}
    (before : ∀ other ∈ seen, Holds other) (here : Holds item) :
    ∀ other ∈ seen ++ [item], Holds other :=
  forall_mem_append.mpr ⟨before, forall_mem_singleton.mpr here⟩

/-- The elements of the set that no other one ranks below. -/
def LeastBy (rank : α → Nat) (items : Set α) : Set α :=
  {item | item ∈ items ∧ ∀ other ∈ items, rank item ≤ rank other}

variable {items : Set α}

theorem LeastBy.subset : LeastBy rank items ⊆ items := fun _ member => member.1

theorem LeastBy.rank_eq {left right : α} (leftLeast : left ∈ LeastBy rank items)
    (rightLeast : right ∈ LeastBy rank items) : rank left = rank right :=
  le_antisymm (leftLeast.2 right rightLeast.1) (rightLeast.2 left leftLeast.1)

theorem LeastBy.of_rank_eq {left right : α} (least : left ∈ LeastBy rank items)
    (member : right ∈ items) (same : rank right = rank left) : right ∈ LeastBy rank items :=
  ⟨member, fun other there => same ▸ least.2 other there⟩

section

variable {fewer : Set α} (part : fewer ⊆ items) {item : α} (least : item ∈ LeastBy rank items)
  (member : item ∈ fewer)

include part least member

theorem LeastBy.mono : item ∈ LeastBy rank fewer :=
  ⟨member, fun other there => least.2 other (part there)⟩

/-- A part that has a least element has no other least elements than the whole. -/
theorem LeastBy.subset_of_mem : LeastBy rank fewer ⊆ LeastBy rank items := by
  intro other otherLeast
  exact of_rank_eq least (part otherLeast.1) (rank_eq otherLeast (mono part least member))

end

theorem LeastBy.nonempty (nonempty : items.Nonempty) : (LeastBy rank items).Nonempty := by
  obtain ⟨item, member, least⟩ := exists_minimalFor_of_wellFoundedLT (· ∈ items) rank nonempty
  refine ⟨item, member, fun other there => ?_⟩
  rcases le_total (rank item) (rank other) with below | above
  · exact below
  · exact least there above

/-- The second list is the first without the elements that are not least, in the same order. -/
def KeepsLeast (rank : α → Nat) (items kept : List α) : Prop :=
  ∃ least, kept = items.filter (fun item => rank item = least) ∧
    (∀ item ∈ items, least ≤ rank item) ∧ (items ≠ [] → kept ≠ [])

namespace KeepsLeast

variable {items kept : List α}

/-- What is kept are the least elements. -/
theorem mem_iff (keeps : KeepsLeast rank items kept) (item : α) :
    item ∈ kept ↔ item ∈ LeastBy rank {other | other ∈ items} := by
  obtain ⟨least, rfl, bounded, keepsOne⟩ := keeps
  constructor
  · intro member
    obtain ⟨there, same⟩ := mem_filter.mp member
    have same : rank item = least := of_decide_eq_true same
    exact ⟨there, fun other otherIn => same ▸ bounded other otherIn⟩
  · rintro ⟨there, below⟩
    -- Some element has the least rank, and this one ranks at most there.
    obtain ⟨first, firstKept⟩ := exists_mem_of_ne_nil _ (keepsOne (ne_nil_of_mem there))
    obtain ⟨firstThere, firstLeast⟩ := mem_filter.mp firstKept
    have firstLeast : rank first = least := of_decide_eq_true firstLeast
    have atMost := below first firstThere
    have atLeast := bounded item there
    exact mem_filter.mpr ⟨there, decide_eq_true (by omega)⟩

theorem ne_nil (keeps : KeepsLeast rank items kept) (nonempty : items ≠ []) : kept ≠ [] := by
  obtain ⟨_, _, _, keepsOne⟩ := keeps
  exact keepsOne nonempty

theorem sublist (keeps : KeepsLeast rank items kept) : kept.Sublist items := by
  obtain ⟨_, rfl, _⟩ := keeps
  exact filter_sublist

theorem of_short (short : items.length ≤ 1) : KeepsLeast rank items items := by
  match items, short with
  | [], _ => exact ⟨0, by simp, by simp, by simp⟩
  | [item], _ => exact ⟨rank item, by simp, by simp, by simp⟩

theorem front {before after : List α} (keeps : KeepsLeast rank (before ++ after) kept)
    (least : ∀ item ∈ before, item ∈ LeastBy rank {other | other ∈ before ++ after}) :
    ∃ rest, kept = before ++ rest := by
  have stays : ∀ item ∈ before, item ∈ kept :=
    fun item member => (keeps.mem_iff item).mpr (least item member)
  obtain ⟨bound, rfl, _, _⟩ := keeps
  refine ⟨after.filter fun item => rank item = bound, ?_⟩
  rw [filter_append, filter_eq_self.mpr]
  exact fun item member => (mem_filter.mp (stays item member)).2

end KeepsLeast

end FlexSwitch
