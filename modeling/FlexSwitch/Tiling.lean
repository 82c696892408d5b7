import Mathlib

/-! Items that cover a list piece by piece, in order and without gaps. -/

namespace FlexSwitch

open List

variable {α β : Type}

/-- The whole falls into one piece for each item, and every item covers its piece. -/
def Tiles (covers : α → List β → Prop) (items : List α) (whole : List β) : Prop :=
  ∃ pieces, pieces.flatten = whole ∧ List.Forall₂ covers items pieces

variable {covers : α → List β → Prop} {items : List α} {whole : List β}

theorem Tiles.nil : Tiles covers [] [] := ⟨[], rfl, .nil⟩

theorem Tiles.concat (tiled : Tiles covers items whole) {item : α} {piece : List β}
    (covered : covers item piece) : Tiles covers (items ++ [item]) (whole ++ piece) := by
  obtain ⟨pieces, joined, each⟩ := tiled
  refine ⟨pieces ++ [piece], ?_, ?_⟩
  · rw [flatten_append, joined]
    simp
  · -- The items and pieces so far stay paired, and the new pair comes last.
    exact rel_append each (.cons covered .nil)

/-- Behind the items up to a position, one more covers what stands there. -/
theorem Tiles.extend {first position size : Nat} {item : α} (begun : first ≤ position)
    (tiled : Tiles covers items ((whole.drop first).take (position - first)))
    (covered : covers item ((whole.drop position).take size)) :
    Tiles covers (items ++ [item]) ((whole.drop first).take (position + size - first)) := by
  rw [Nat.sub_add_comm begun, take_add, drop_drop, Nat.add_sub_cancel' begun]
  exact tiled.concat covered

/-- A piece is no longer than the whole. -/
theorem Tiles.length_le (tiled : Tiles covers items whole) {item : α} (member : item ∈ items) :
    ∃ piece, covers item piece ∧ piece.length ≤ whole.length := by
  obtain ⟨pieces, joined, each⟩ := tiled
  subst joined
  induction each with
  | nil => cases member
  | cons covered _ ih =>
    rename_i first piece rest pieces _
    rw [flatten_cons, length_append]
    rcases mem_cons.mp member with here | later
    · rw [here]
      exact ⟨piece, covered, by omega⟩
    · obtain ⟨other, holds, short⟩ := ih later
      exact ⟨other, holds, by omega⟩

/-- The first item covers the front, and the others what is behind it. -/
theorem Tiles.uncons {item : α} (tiled : Tiles covers (item :: items) whole) :
    ∃ piece rest, whole = piece ++ rest ∧ covers item piece ∧ Tiles covers items rest := by
  obtain ⟨pieces, joined, each⟩ := tiled
  cases each with
  | cons covered others =>
    rename_i piece pieces
    exact ⟨piece, pieces.flatten, by rw [← joined, flatten_cons], covered, pieces, rfl, others⟩

/-- With pieces as long as their items say, an item covers what is behind the items before it. -/
theorem Tiles.piece {size : α → Nat} (sized : ∀ item piece, covers item piece →
    piece.length = size item) {before after : List α} {item : α}
    (tiled : Tiles covers (before ++ item :: after) whole) :
    covers item ((whole.drop (before.map size).sum).take (size item)) := by
  induction before generalizing whole with
  | nil =>
    obtain ⟨piece, rest, rfl, covered, _⟩ := tiled.uncons
    rw [map_nil, sum_nil, drop_zero, ← sized item piece covered, take_left]
    exact covered
  | cons first before ih =>
    -- The first item's piece is dropped as a whole.
    obtain ⟨piece, rest, rfl, covered, tail⟩ := tiled.uncons
    rw [map_cons, sum_cons, ← drop_drop, ← sized first piece covered, drop_left]
    exact ih tail

/-- Items that can be told from the front of the list tile it in one way only. -/
theorem Tiles.unique (proper : ∀ item piece, covers item piece → piece ≠ [])
    (front : ∀ left right piece other rest more, covers left piece → covers right other →
      piece ++ rest = other ++ more → left = right ∧ piece = other)
    {others : List α} (tiled : Tiles covers items whole) (again : Tiles covers others whole) :
    items = others := by
  induction items generalizing whole others with
  | nil =>
    cases others with
    | nil => rfl
    | cons item others =>
      -- Nothing is left that the other item could cover.
      obtain ⟨pieces, joined, each⟩ := tiled
      cases each
      obtain ⟨piece, rest, same, covered, _⟩ := again.uncons
      rw [← joined] at same
      exact absurd (append_eq_nil_iff.mp same.symm).1 (proper item piece covered)
  | cons item items ih =>
    obtain ⟨piece, rest, rfl, covered, tail⟩ := tiled.uncons
    cases others with
    | nil =>
      obtain ⟨pieces, joined, each⟩ := again
      cases each
      exact absurd (append_eq_nil_iff.mp joined.symm).1 (proper item piece covered)
    | cons other others =>
      obtain ⟨second, more, same, alsoCovered, otherTail⟩ := again.uncons
      obtain ⟨rfl, rfl⟩ := front item other piece second rest more covered alsoCovered same
      rw [append_cancel_left same] at tail
      rw [ih tail otherTail]

end FlexSwitch
