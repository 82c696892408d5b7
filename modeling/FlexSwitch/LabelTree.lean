import Mathlib

/-! Trees whose nodes carry labels, and the node that a path of labels leads to. -/

namespace FlexSwitch

open List

/-- Nodes, the label of each, and the nodes below each of them. -/
structure LabelGraph (ν β : Type) where
  label : ν → List β
  next : ν → List ν

namespace LabelGraph

variable {ν β : Type} {g g' : LabelGraph ν β} {root node child target : ν} {path other : List β}

/-- A node is reached by the labels on the way from the root to it, one behind the other. -/
inductive At (g : LabelGraph ν β) (root : ν) : List β → ν → Prop where
  | root : At g root (g.label root) root
  | step {path : List β} {node child : ν} (above : At g root path node)
      (below : child ∈ g.next node) : At g root (path ++ g.label child) child

/-- A node is below another one, by the labels on the way without that of the upper node. -/
inductive Below (g : LabelGraph ν β) : ν → List β → ν → Prop where
  | refl {node : ν} : Below g node [] node
  | step {node child target : ν} {rest : List β} (first : child ∈ g.next node)
      (below : Below g child rest target) : Below g node (g.label child ++ rest) target

/--
What lies below the root is a radix tree.

Every node is reached in one way only, and the first letter of a path tells the child it is in.
-/
structure Radix (g : LabelGraph ν β) (root : ν) : Prop where
  labelled : ∀ {path node child}, g.At root path node → child ∈ g.next node → g.label child ≠ []
  distinct : ∀ {path node one other}, g.At root path node → one ∈ g.next node →
    other ∈ g.next node → (g.label one).head? = (g.label other).head? → one = other
  unique : ∀ {path other node}, g.At root path node → g.At root other node → path = other
  nodup : ∀ {path node}, g.At root path node → (g.next node).Nodup

theorem At.extends_root (reached : g.At root path node) : g.label root <+: path := by
  induction reached with
  | root => exact prefix_refl _
  | step above below ih => exact ih.trans (prefix_append _ _)

variable {rest : List β}

theorem Below.snoc (below : g.Below node rest target)
    (last : child ∈ g.next target) : g.Below node (rest ++ g.label child) child := by
  induction below with
  | refl => simpa using Below.step last .refl
  | step first _ ih =>
    rw [append_assoc]
    exact .step first (ih last)

/-- Going on from a node that is reached, one reaches what is below it. -/
theorem At.descend (reached : g.At root path node)
    (below : g.Below node rest target) : g.At root (path ++ rest) target := by
  induction below generalizing path with
  | refl => simpa using reached
  | step first _ ih =>
    rw [← append_assoc]
    exact ih (.step reached first)

theorem At.from_root (reached : g.At root path node) :
    ∃ rest, path = g.label root ++ rest ∧ g.Below root rest node := by
  induction reached with
  | root => exact ⟨[], by simp, .refl⟩
  | step _ last ih =>
    obtain ⟨rest, rfl, below⟩ := ih
    exact ⟨_, append_assoc _ _ _, below.snoc last⟩

/-- A node that is reached is the root, or the child of a node that is reached. -/
theorem At.root_or_child (reached : g.At root path node) : (node = root ∧ path = g.label root) ∨
      ∃ parent above, g.At root above parent ∧ node ∈ g.next parent ∧ path = above ++ g.label node := by
  cases reached with
  | root => exact .inl ⟨rfl, rfl⟩
  | step above below => exact .inr ⟨_, _, above, below, rfl⟩

/-- Where labels and children stay what they were, up to order, the same nodes are reached. -/
theorem At.congr (label : ∀ {path node}, g.At root path node → g'.label node = g.label node)
    (next : ∀ {path node}, g.At root path node → (g'.next node).Perm (g.next node)) :
    g'.At root path node ↔ g.At root path node := by
  constructor
  · intro reached
    induction reached with
    | root => rw [label .root]; exact .root
    | step _ below ih =>
      have here := At.step ih ((next ih).mem_iff.mp below)
      rwa [label here]
  · intro reached
    induction reached with
    | root => rw [← label .root]; exact .root
    | step above below ih =>
      have here := At.step ih ((next above).mem_iff.mpr below)
      rwa [label (.step above below)] at here

/-- There are at most so many levels of nodes from the node down. -/
def Levels (g : LabelGraph ν β) : Nat → ν → Prop
  | 0, _ => False
  | levels + 1, node => ∀ child, child ∈ g.next node → g.Levels levels child

theorem Levels.mono {few many : Nat} (levels : g.Levels few node) (le : few ≤ many) :
    g.Levels many node := by
  induction many generalizing few node with
  | zero =>
    have none : few = 0 := by omega
    exact none ▸ levels
  | succ many ih =>
    cases few with
    | zero => exact levels.elim
    | succ few => exact fun child below => ih (levels child below) (by omega)

theorem Levels.descend {levels : Nat} (deep : g.Levels levels root)
    (reached : g.At root path node) : g.Levels levels node := by
  induction reached with
  | root => exact deep
  | step _ below ih =>
    cases levels with
    | zero => exact ih.elim
    | succ levels => exact (ih _ below).mono (Nat.le_succ _)

namespace Radix

variable (radix : g.Radix root)

include radix

/-- A tree is one where the children of a node stand for those of a node of one, each for its own. -/
theorem of_children (forth : ν → ν) (children : ∀ {path upper}, g'.At root path upper →
      (∃ above old, g.At root above old ∧ ∀ lower, lower ∈ g'.next upper →
        ∃ before, before ∈ g.next old ∧ lower = forth before ∧
          (g'.label lower).head? = (g.label before).head?) ∨
      ∃ only, g'.next upper = [only] ∧ g'.label only ≠ [])
    (unique : ∀ {path other node}, g'.At root path node → g'.At root other node → path = other)
    (nodup : ∀ {path node}, g'.At root path node → (g'.next node).Nodup) : g'.Radix root := by
  refine ⟨?_, ?_, unique, nodup⟩
  · intro path upper lower reached last empty
    rcases children reached with ⟨_, old, above, stand⟩ | ⟨only, next, labelled⟩
    · obtain ⟨before, last, -, heads⟩ := stand lower last
      rw [empty] at heads
      exact radix.labelled above last (head?_eq_none_iff.mp heads.symm)
    · rw [next, mem_singleton] at last
      exact labelled (last ▸ empty)
  · intro path upper one two reached first second agree
    rcases children reached with ⟨_, old, above, stand⟩ | ⟨only, next, -⟩
    · obtain ⟨before, first, sameOne, heads⟩ := stand one first
      obtain ⟨before', second, sameTwo, heads'⟩ := stand two second
      rw [sameOne, sameTwo, radix.distinct above first second (heads.symm.trans (agree.trans heads'))]
    · rw [next, mem_singleton] at first second
      rw [first, second]

theorem congr (label : ∀ {path node}, g.At root path node → g'.label node = g.label node)
    (next : ∀ {path node}, g.At root path node → (g'.next node).Perm (g.next node)) :
    g'.Radix root := by
  have same {path node} : g'.At root path node ↔ g.At root path node := At.congr label next
  refine radix.of_children id (fun reached => .inl ⟨_, _, same.mp reached, fun lower last => ?_⟩)
    (fun first second => radix.unique (same.mp first) (same.mp second))
    (fun reached => (next (same.mp reached)).nodup_iff.mpr (radix.nodup (same.mp reached)))
  have before := (next (same.mp reached)).mem_iff.mp last
  exact ⟨lower, before, rfl, by rw [label (.step (same.mp reached) before)]⟩

variable {one two : ν}

/-- Two children that both begin with what a path begins with are one child. -/
theorem child_eq (reached : g.At root path node)
    (first : one ∈ g.next node) (second : two ∈ g.next node) {left right : List β}
    (agree : g.label one ++ left <+: g.label two ++ right) : one = two := by
  apply radix.distinct reached first second
  obtain ⟨head, tail, some⟩ := exists_cons_of_ne_nil (radix.labelled reached first)
  obtain ⟨head', tail', some'⟩ := exists_cons_of_ne_nil (radix.labelled reached second)
  rw [some, some'] at agree ⊢
  simp only [cons_append, cons_prefix_cons] at agree
  simp [agree.1]

/-- Of two nodes below a third, the one with the longer way is below the other. -/
theorem below_of_le (reached : g.At root path node)
    {short long : List β} (first : g.Below node short one) (second : g.Below node long two)
    (le : short <+: long) : ∃ rest, long = short ++ rest ∧ g.Below one rest two := by
  induction first generalizing path long with
  | refl => exact ⟨long, rfl, second⟩
  | step here below ih =>
    cases second with
    | refl =>
      have empty := prefix_nil.mp le
      exact absurd (append_eq_nil_iff.mp empty).1 (radix.labelled reached here)
    | step here' below' =>
      cases radix.child_eq reached here here' le
      rw [prefix_append_right_inj] at le
      obtain ⟨rest, rfl, lower⟩ := ih (.step reached here) below' le
      exact ⟨rest, (append_assoc _ _ _).symm, lower⟩

theorem below_of_path_le {short long : List β}
    (first : g.At root short one) (second : g.At root long two) (le : short <+: long) :
    ∃ rest, long = short ++ rest ∧ g.Below one rest two := by
  obtain ⟨left, rfl, lower⟩ := first.from_root
  obtain ⟨right, rfl, lower'⟩ := second.from_root
  rw [prefix_append_right_inj] at le
  obtain ⟨rest, rfl, below⟩ := radix.below_of_le .root lower lower' le
  exact ⟨rest, (append_assoc _ _ _).symm, below⟩

theorem below_nil (reached : g.At root path node)
    (below : g.Below node rest target) (empty : rest = []) : target = node := by
  cases below with
  | refl => rfl
  | step first _ =>
    exact absurd (append_eq_nil_iff.mp empty).1 (radix.labelled reached first)

theorem node_eq (first : g.At root path one) (second : g.At root path two) : one = two := by
  obtain ⟨rest, same, below⟩ := radix.below_of_path_le first second (prefix_refl _)
  exact (radix.below_nil first below (append_right_eq_self.mp same.symm)).symm

theorem parent_eq (first : g.At root path one)
    (second : g.At root other two) (below : child ∈ g.next one) (below' : child ∈ g.next two) :
    one = two := by
  have same := radix.unique (.step first below) (.step second below')
  rw [append_cancel_right_eq] at same
  subst same
  exact radix.node_eq first second

variable (reached : g.At root path node) (below : child ∈ g.next node)

include reached below

theorem child_ne : child ≠ node := by
  rintro rfl
  have same := radix.unique reached (.step reached below)
  exact radix.labelled reached below (append_right_eq_self.mp same.symm)

theorem child_ne_root : child ≠ root := by
  rintro rfl
  have same := radix.unique .root (.step reached below)
  have empty : path = [] := append_left_eq_self.mp same.symm
  have begins := reached.extends_root
  rw [empty, prefix_nil] at begins
  exact radix.labelled reached below begins

/-- A child is at a longer path than its parent, so the two are apart. -/
theorem grandchild_ne {lower : ν} (further : lower ∈ g.next child) : lower ≠ node := by
  rintro rfl
  have same := radix.unique reached (.step (.step reached below) further)
  rw [append_assoc] at same
  have empty := append_right_eq_self.mp same.symm
  exact radix.labelled reached below (append_eq_nil_iff.mp empty).1

end Radix

/--
A tree of numbered nodes has no more levels than there are numbers.

The nodes on the way down differ, each of them being at a longer path than those before it.
-/
theorem Radix.levels {g : LabelGraph Nat β} {root bound : Nat} (radix : g.Radix root)
    (known : ∀ {path node}, g.At root path node → node < bound) : g.Levels bound root := by
  -- The nodes seen on the way are kept in a list without repetition.
  suffices down : ∀ (left : Nat) (seen : List Nat) (path : List β) (node : Nat),
      g.At root path node → (node :: seen).Nodup →
      (∀ upper, upper ∈ node :: seen → ∃ above, g.At root above upper ∧ above.length ≤ path.length) →
      bound = seen.length + left → g.Levels left node from
    down bound [] _ root .root (nodup_singleton _)
      (fun upper here => ⟨_, mem_singleton.mp here ▸ .root, le_rfl⟩) (by simp)
  intro left
  induction left with
  | zero =>
    intro seen path node reached nodup shorter full
    have all : (node :: seen).toFinset ⊆ Finset.range bound := fun upper member => by
      obtain ⟨above, reached', -⟩ := shorter upper (mem_toFinset.mp member)
      exact Finset.mem_range.mpr (known reached')
    have count := Finset.card_le_card all
    rw [toFinset_card_of_nodup nodup, Finset.card_range, length_cons] at count
    omega
  | succ left ih =>
    intro seen path node reached nodup shorter full child below
    have longer := length_pos_iff.mpr (radix.labelled reached below)
    refine ih _ _ child (.step reached below) (nodup_cons.mpr ⟨?_, nodup⟩) ?_ ?_
    · intro here
      obtain ⟨above, reached', le⟩ := shorter child here
      rw [radix.unique reached' (.step reached below), length_append] at le
      omega
    · intro upper member
      rcases mem_cons.mp member with rfl | member
      · exact ⟨_, .step reached below, le_rfl⟩
      · obtain ⟨above, reached', le⟩ := shorter upper member
        exact ⟨above, reached', le.trans (prefix_append _ _).length_le⟩
    · rw [length_cons]
      omega

end LabelGraph

end FlexSwitch
