import Mathlib

/-! Greedy packing: items go into the current bin while they fit, and open the next one otherwise. -/

namespace FlexSwitch

open List

variable {α : Type}

/-- Bins that have been closed, the bin being filled, and how full that one is. -/
structure Packing (α : Type) where
  closed : List (List α)
  current : List α
  fill : Nat
deriving DecidableEq, Repr

/--
The measures of a packing.

A bin holds `limit`; `reset` of it is used up in a new bin, and `overhead` is counted on top of
what a bin holds whenever an item is tried.
-/
structure PackingRule (α : Type) where
  size : α → Nat
  limit : Nat
  reset : Nat
  overhead : Nat

namespace PackingRule

variable (rule : PackingRule α)

/-- The size of a whole bin of items. -/
def total (items : List α) : Nat := (items.map rule.size).sum

@[simp] theorem total_nil : rule.total [] = 0 := rfl

@[simp] theorem total_cons (item : α) (items : List α) :
    rule.total (item :: items) = rule.size item + rule.total items := by
  simp [total]

@[simp] theorem total_append (front back : List α) :
    rule.total (front ++ back) = rule.total front + rule.total back := by
  simp [total]

/-- Put one more item into the current bin, or close that bin first. -/
def add (packing : Packing α) (item : α) : Packing α :=
  if rule.limit < rule.size item + packing.fill + rule.overhead then
    ⟨packing.closed ++ [packing.current], [item], rule.reset + rule.size item⟩
  else ⟨packing.closed, packing.current ++ [item], packing.fill + rule.size item⟩

/-- Pack the items one after the other, the first bin being filled to `start` already. -/
def pack (start : Nat) (items : List α) : Packing α :=
  items.foldl rule.add ⟨[], [], start⟩

@[simp] theorem pack_nil (start : Nat) : rule.pack start [] = ⟨[], [], start⟩ := rfl

theorem pack_concat (start : Nat) (items : List α) (item : α) :
    rule.pack start (items ++ [item]) = rule.add (rule.pack start items) item := by
  simp [pack]

variable {start : Nat}

/-- A property of the steps is a property of the packing. -/
theorem pack_induction {rule : PackingRule α} (Holds : List α → Packing α → Prop)
    (empty : Holds [] ⟨[], [], start⟩) (step : ∀ items item packing, Holds items packing →
      Holds (items ++ [item]) (rule.add packing item))
    (items : List α) : Holds items (rule.pack start items) := by
  induction items using reverseRecOn with
  | nil => exact empty
  | append_singleton items item ih =>
    rw [pack_concat]
    exact step items item _ ih

/-- Nothing is lost, repeated or moved: the bins in order hold the items in order. -/
theorem pack_flatten (start : Nat) (items : List α) :
    (rule.pack start items).closed.flatten ++ (rule.pack start items).current = items := by
  refine pack_induction (fun items packing => packing.closed.flatten ++ packing.current = items)
    rfl ?_ items
  intro items item packing kept
  unfold add
  split
  · simp [kept]
  · rw [← kept]
    simp

variable {items : List α}

theorem pack_current_ne_nil (start : Nat) (nonempty : items ≠ []) :
    (rule.pack start items).current ≠ [] := by
  obtain ⟨front, last, rfl⟩ : ∃ front last, items = front ++ [last] :=
    ⟨items.dropLast, items.getLast nonempty, (dropLast_append_getLast nonempty).symm⟩
  rw [pack_concat, add]
  split <;> simp

theorem pack_current_eq_nil : (rule.pack start items).current = [] ↔ items = [] := by
  constructor
  · intro empty
    by_contra nonempty
    exact rule.pack_current_ne_nil start nonempty empty
  · rintro rfl
    rfl

theorem pack_fill (start : Nat) (items : List α) : (rule.pack start items).fill =
      (if (rule.pack start items).closed = [] then start else rule.reset) +
        rule.total (rule.pack start items).current := by
  refine pack_induction (fun _ packing => packing.fill =
    (if packing.closed = [] then start else rule.reset) + rule.total packing.current)
    (by simp) ?_ items
  intro items item packing filled
  unfold add
  split
  · simp
  · simp only [filled, total_append, total_cons, total_nil]
    omega

/-- No bin is filled past a bound that a start, a full bin and a bin of one item all keep to. -/
theorem pack_fill_le {bound : Nat} (begun : start ≤ bound) (full : rule.limit ≤ bound)
    (alone : ∀ item, rule.reset + rule.size item ≤ bound) (items : List α) :
    (rule.pack start items).fill ≤ bound := by
  refine pack_induction (fun _ packing => packing.fill ≤ bound) begun ?_ items
  intro items item packing _
  unfold add
  split
  · exact alone item
  · show packing.fill + rule.size item ≤ bound
    omega

/-- No bin is closed exactly when everything fits into the first one. -/
theorem pack_closed_eq_nil (start : Nat) (items : List α) : (rule.pack start items).closed = [] ↔
      items = [] ∨ start + rule.total items + rule.overhead ≤ rule.limit := by
  induction items using reverseRecOn with
  | nil => simp
  | append_singleton items item ih =>
    have filled := rule.pack_fill start items
    have kept := rule.pack_flatten start items
    rw [pack_concat, add]
    by_cases closed : (rule.pack start items).closed = []
    · -- The current bin holds all the items so far, so its fill is their whole size.
      simp only [closed, flatten_nil, nil_append, if_true] at kept filled
      rw [kept] at filled
      split
      · simp only [total_append, total_cons, total_nil, append_eq_nil_iff,
          cons_ne_self, and_false, false_or, false_iff]
        omega
      · simp only [closed, total_append, total_cons, total_nil, append_eq_nil_iff,
          reduceCtorEq, and_false, false_or, true_iff]
        omega
    · -- Items that did not fit before do not fit with one more.
      have excess := mt ih.mpr closed
      have still : ¬ (items ++ [item] = [] ∨
          start + rule.total (items ++ [item]) + rule.overhead ≤ rule.limit) := by
        simp only [total_append, total_cons, total_nil, append_eq_nil_iff, reduceCtorEq,
          and_false, false_or]
        omega
      split
      · exact iff_of_false (by simp) still
      · exact iff_of_false closed still

variable {rule}

end PackingRule

end FlexSwitch
