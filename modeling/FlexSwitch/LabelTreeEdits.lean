import FlexSwitch.LabelTree

/-! Edits of a labelled tree: which nodes are reached, and by which path, after each of them. -/

namespace FlexSwitch.LabelGraph

open List

variable {ν β : Type} {g g' : LabelGraph ν β} {root parent node child fresh target : ν}
  {path : List β}

/-- What is below a node is the node itself, or the child of something below it. -/
theorem Below.eq_or_child {rest : List β} (below : g.Below node rest target) :
    target = node ∨ ∃ upper above, g.Below node above upper ∧ target ∈ g.next upper := by
  induction below with
  | refl => exact .inl rfl
  | step first _ ih =>
    rcases ih with rfl | ⟨upper, above, lower, last⟩
    · exact .inr ⟨_, _, .refl, first⟩
    · exact .inr ⟨upper, _, .step first lower, last⟩

theorem mem_rest {before after : List ν} {other : ν} (nodup : (before ++ node :: after).Nodup) :
    other ∈ before ++ after ↔ other ∈ before ++ node :: after ∧ other ≠ node := by
  rw [perm_middle.mem_iff, mem_cons]
  have apart := (nodup_cons.mp (nodup_middle.mp nodup)).1
  constructor
  · intro here
    exact ⟨.inr here, fun same => apart (same ▸ here)⟩
  · rintro ⟨same | here, differs⟩
    · exact absurd same differs
    · exact here

/-- The only child of a node takes the place of the node, and the labels of both. -/
structure Spliced (g g' : LabelGraph ν β) (root parent node child : ν) : Prop where
  reached : ∃ path, g.At root path parent
  only : g.next node = [child]
  place : ∃ before after, g.next parent = before ++ node :: after ∧
    g'.next parent = before ++ child :: after
  label_child : g'.label child = g.label node ++ g.label child
  label : ∀ {path other}, g.At root path other → other ≠ node → other ≠ child →
    g'.label other = g.label other
  next : ∀ {path other}, g.At root path other → other ≠ node → other ≠ parent →
    g'.next other = g.next other

namespace Spliced

variable (edit : Spliced g g' root parent node child)

include edit

theorem mem_parent : node ∈ g.next parent := by
  obtain ⟨before, after, split, -⟩ := edit.place
  simp [split]

theorem mem_only : child ∈ g.next node := by
  simp [edit.only]

variable (tree : g.Radix root)

include tree

theorem mem_next_parent {other : ν} :
    other ∈ g'.next parent ↔ other = child ∨ (other ∈ g.next parent ∧ other ≠ node) := by
  obtain ⟨path, reached⟩ := edit.reached
  have nodup := tree.nodup reached
  obtain ⟨before, after, split, split'⟩ := edit.place
  rw [split] at nodup
  rw [split', perm_middle.mem_iff, mem_cons, mem_rest nodup, split]

/-- Only the child has another label, and no other node than the one had it below. -/
theorem label_below {upper lower : ν} (above : g.At root path upper) (upperN : upper ≠ node)
    (last : lower ∈ g.next upper) (lowerN : lower ≠ node) : g'.label lower = g.label lower := by
  obtain ⟨pathP, atP⟩ := edit.reached
  refine edit.label (.step above last) lowerN ?_
  rintro rfl
  exact upperN (tree.parent_eq above (.step atP edit.mem_parent) last edit.mem_only)

/-- Every node but the one that lost its place is reached as before. -/
theorem at_iff : g'.At root path target ↔ g.At root path target ∧ target ≠ node := by
  obtain ⟨pathP, atP⟩ := edit.reached
  have below := edit.mem_parent
  have atN := At.step atP below
  have rootN : root ≠ node := (tree.child_ne_root atP below).symm
  have rootC : root ≠ child := (tree.child_ne_root atN edit.mem_only).symm
  constructor
  · intro reached
    induction reached with
    | root => rw [edit.label .root rootN rootC]; exact ⟨.root, rootN⟩
    | @step path upper lower _ last ih =>
      obtain ⟨ih, upperN⟩ := ih
      by_cases parentHere : upper = parent
      · subst parentHere
        rcases (edit.mem_next_parent tree).mp last with rfl | ⟨last, lowerN⟩
        · rw [edit.label_child, ← append_assoc]
          exact ⟨.step (.step ih below) edit.mem_only, tree.child_ne atN edit.mem_only⟩
        · rw [edit.label_below tree ih upperN last lowerN]
          exact ⟨.step ih last, lowerN⟩
      · rw [edit.next ih upperN parentHere] at last
        have lowerN : lower ≠ node := fun same =>
          parentHere (tree.parent_eq ih atP (same ▸ last) below)
        rw [edit.label_below tree ih upperN last lowerN]
        exact ⟨.step ih last, lowerN⟩
  · rintro ⟨reached, differs⟩
    -- Where the node itself is reached, its parent still is, and leads on to the child.
    suffices both : (target ≠ node → g'.At root path target) ∧
        (target = node → ∃ above, g'.At root above parent ∧ path = above ++ g.label node) from
      both.1 differs
    clear differs
    induction reached with
    | root =>
      rw [← edit.label .root rootN rootC]
      exact ⟨fun _ => .root, fun same => absurd same rootN⟩
    | @step path upper lower above last ih =>
      refine ⟨fun lowerN => ?_, fun same => ?_⟩
      · by_cases upperN : upper = node
        · obtain ⟨short, reached, rfl⟩ := ih.2 upperN
          rw [upperN, edit.only, mem_singleton] at last
          subst last
          rw [append_assoc, ← edit.label_child]
          exact .step reached ((edit.mem_next_parent tree).mpr (.inl rfl))
        · rw [← edit.label_below tree above upperN last lowerN]
          refine .step (ih.1 upperN) ?_
          by_cases parentHere : upper = parent
          · subst parentHere
            exact (edit.mem_next_parent tree).mpr (.inr ⟨last, lowerN⟩)
          · rwa [edit.next above upperN parentHere]
      · subst same
        cases tree.parent_eq above atP last below
        exact ⟨path, ih.1 (tree.child_ne above last).symm, rfl⟩

theorem head_child : (g'.label child).head? = (g.label node).head? := by
  obtain ⟨path, reached⟩ := edit.reached
  rw [edit.label_child, head?_append_of_ne_nil _ (tree.labelled reached edit.mem_parent)]

/-- A child of the edited tree stands for one of the tree before, which begins with the same. -/
theorem stands_for {upper lower : ν} (reached : g'.At root path upper) (last : lower ∈ g'.next upper) :
    ∃ old, old ∈ g.next upper ∧ (g'.label lower).head? = (g.label old).head? ∧
      (old = node ∧ lower = child ∨ old ≠ node ∧ lower = old) := by
  obtain ⟨pathP, atP⟩ := edit.reached
  obtain ⟨above, upperN⟩ := (edit.at_iff tree).mp reached
  by_cases here : upper = parent
  · subst here
    rcases (edit.mem_next_parent tree).mp last with rfl | ⟨last', lowerN⟩
    · exact ⟨node, edit.mem_parent, edit.head_child tree, .inl ⟨rfl, rfl⟩⟩
    · exact ⟨lower, last', by rw [edit.label_below tree above upperN last' lowerN],
        .inr ⟨lowerN, rfl⟩⟩
  · rw [edit.next above upperN here] at last
    have lowerN : lower ≠ node := fun same =>
      here (tree.parent_eq above atP (same ▸ last) edit.mem_parent)
    exact ⟨lower, last, by rw [edit.label_below tree above upperN last lowerN], .inr ⟨lowerN, rfl⟩⟩

theorem radix : g'.Radix root := by
  classical
  refine tree.of_children (Function.update id node child) (fun {path upper} reached => .inl
    ⟨path, upper, ((edit.at_iff tree).mp reached).1, fun lower last => ?_⟩)
    (fun first second => tree.unique ((edit.at_iff tree).mp first).1
      ((edit.at_iff tree).mp second).1) ?_
  · obtain ⟨old, before, heads, ⟨rfl, same⟩ | ⟨oldN, same⟩⟩ := edit.stands_for tree reached last
    · exact ⟨old, before, by rw [same, Function.update_self], heads⟩
    · exact ⟨old, before, by rw [same, Function.update_of_ne oldN, id], heads⟩
  · intro path upper reached
    obtain ⟨above, upperN⟩ := (edit.at_iff tree).mp reached
    by_cases here : upper = parent
    · subst here
      obtain ⟨pathP, atP⟩ := edit.reached
      have atN := At.step atP edit.mem_parent
      have nodup := tree.nodup above
      obtain ⟨before, after, split, split'⟩ := edit.place
      have childN : child ∉ g.next upper := fun last =>
        upperN (tree.parent_eq above atN last edit.mem_only)
      rw [split] at nodup childN
      rw [split', nodup_middle, nodup_cons]
      rw [nodup_middle, nodup_cons] at nodup
      refine ⟨fun last => childN ?_, nodup.2⟩
      rcases mem_append.mp last with left | right
      · exact mem_append_left _ left
      · exact mem_append_right _ (mem_cons_of_mem _ right)
    · rw [edit.next above upperN here]
      exact tree.nodup above

end Spliced

/-- A node takes over the label and the children of its only child. -/
structure Absorbed (g g' : LabelGraph ν β) (root node child : ν) : Prop where
  reached : ∃ path, g.At root path node
  only : g.next node = [child]
  label_node : g'.label node = g.label node ++ g.label child
  next_node : g'.next node = g.next child
  label : ∀ {path other}, g.At root path other → other ≠ node → other ≠ child →
    g'.label other = g.label other
  next : ∀ {path other}, g.At root path other → other ≠ node → other ≠ child →
    g'.next other = g.next other

namespace Absorbed

variable (edit : Absorbed g g' root node child)

include edit

theorem mem_only : child ∈ g.next node := by
  simp [edit.only]

variable (tree : g.Radix root)

include tree

/-- The node is reached where its child was, and every other node as before. -/
theorem at_iff : g'.At root path target ↔ (g.At root path target ∧ target ≠ node ∧ target ≠ child) ∨
        (target = node ∧ g.At root path child) := by
  obtain ⟨pathN, atN⟩ := edit.reached
  have below := edit.mem_only
  have atC := At.step atN below
  have rootC : root ≠ child := (tree.child_ne_root atN below).symm
  constructor
  · intro reached
    induction reached with
    | root =>
      by_cases rootN : root = node
      · subst rootN
        rw [edit.label_node]
        exact .inr ⟨rfl, .step .root below⟩
      · rw [edit.label .root rootN rootC]
        exact .inl ⟨.root, rootN, rootC⟩
    | @step path upper lower _ last ih =>
      rcases ih with ⟨ih, upperN, upperC⟩ | ⟨rfl, ih⟩
      · rw [edit.next ih upperN upperC] at last
        by_cases lowerN : lower = node
        · subst lowerN
          rw [edit.label_node, ← append_assoc]
          exact .inr ⟨rfl, .step (.step ih last) below⟩
        · have lowerC : lower ≠ child := fun same =>
            upperN (tree.parent_eq ih atN (same ▸ last) below)
          rw [edit.label (.step ih last) lowerN lowerC]
          exact .inl ⟨.step ih last, lowerN, lowerC⟩
      · rw [edit.next_node] at last
        have lowerN := tree.grandchild_ne atN below last
        have lowerC := tree.child_ne ih last
        rw [edit.label (.step ih last) lowerN lowerC]
        exact .inl ⟨.step ih last, lowerN, lowerC⟩
  · -- Wherever the node or its child was reached, the node is now, at the path of the child.
    have carried {path target} (reached : g.At root path target) :
        (target ≠ node → target ≠ child → g'.At root path target) ∧
          (target = node → g'.At root (path ++ g.label child) node) ∧
            (target = child → g'.At root path node) := by
      induction reached with
      | root =>
        refine ⟨fun rootN rootC => ?_, fun rootN => ?_, fun same => absurd same rootC⟩
        · rw [← edit.label .root rootN rootC]
          exact .root
        · subst rootN
          rw [← edit.label_node]
          exact .root
      | @step path upper lower above last ih =>
        refine ⟨fun lowerN lowerC => ?_, fun same => ?_, fun same => ?_⟩
        · rw [← edit.label (.step above last) lowerN lowerC]
          by_cases upperN : upper = node
          · rw [upperN, edit.only, mem_singleton] at last
            exact absurd last lowerC
          by_cases upperC : upper = child
          · refine .step (ih.2.2 upperC) ?_
            rwa [edit.next_node, ← upperC]
          · refine .step (ih.1 upperN upperC) ?_
            rwa [edit.next above upperN upperC]
        · subst same
          have upperN : upper ≠ lower := (tree.child_ne above last).symm
          have upperC : upper ≠ child := fun same => by
            subst same
            exact tree.grandchild_ne atN below last rfl
          rw [append_assoc, ← edit.label_node]
          refine .step (ih.1 upperN upperC) ?_
          rwa [edit.next above upperN upperC]
        · subst same
          exact ih.2.1 (tree.parent_eq above atN last below)
    rintro (⟨reached, differsN, differsC⟩ | ⟨rfl, reached⟩)
    · exact (carried reached).1 differsN differsC
    · exact (carried reached).2.2 rfl

/-- The children of a node that is reached are those of a node of the tree before. -/
theorem next_eq (reached : g'.At root path target) :
    ∃ old, g.At root path old ∧ g'.next target = g.next old ∧
      (target = node ∧ old = child ∨ target ≠ node ∧ old = target) := by
  rcases (edit.at_iff tree).mp reached with ⟨above, targetN, targetC⟩ | ⟨rfl, above⟩
  · exact ⟨target, above, edit.next above targetN targetC, .inr ⟨targetN, rfl⟩⟩
  · exact ⟨child, above, edit.next_node, .inl ⟨rfl, rfl⟩⟩

theorem head_eq {old lower : ν} (above : g.At root path old) (last : lower ∈ g.next old)
    (lowerC : lower ≠ child) : (g'.label lower).head? = (g.label lower).head? := by
  by_cases lowerN : lower = node
  · subst lowerN
    rw [edit.label_node, head?_append_of_ne_nil _ (tree.labelled above last)]
  · rw [edit.label (.step above last) lowerN lowerC]

theorem radix : g'.Radix root := by
  obtain ⟨pathN, atN⟩ := edit.reached
  -- The child that was taken over is below no node any more.
  have outside {path upper old lower} (above : g.At root path old)
      (which : upper = node ∧ old = child ∨ upper ≠ node ∧ old = upper)
      (last : lower ∈ g.next old) : lower ≠ child := by
    intro same
    subst same
    have parent := tree.parent_eq above atN last edit.mem_only
    rcases which with ⟨-, oldC⟩ | ⟨upperN, oldU⟩
    · exact tree.child_ne atN edit.mem_only (oldC.symm.trans parent)
    · exact upperN (oldU.symm.trans parent)
  refine tree.of_children id (fun reached => .inl ?_) ?_ ?_
  · obtain ⟨old, above, next, which⟩ := edit.next_eq tree reached
    refine ⟨_, old, above, fun lower last => ?_⟩
    rw [next] at last
    exact ⟨lower, last, rfl, edit.head_eq tree above last (outside above which last)⟩
  · intro path other target first second
    rcases (edit.at_iff tree).mp first with ⟨one, oneN, -⟩ | ⟨same, one⟩ <;>
      rcases (edit.at_iff tree).mp second with ⟨two, twoN, -⟩ | ⟨same', two⟩
    · exact tree.unique one two
    · exact absurd same' oneN
    · exact absurd same twoN
    · exact tree.unique one two
  · intro path upper reached
    obtain ⟨old, above, next, -⟩ := edit.next_eq tree reached
    rw [next]
    exact tree.nodup above

end Absorbed

/-- A new child takes the end of a node's label and all its children. -/
structure Pushed (g g' : LabelGraph ν β) (root node fresh : ν) (kept moved : List β) : Prop where
  unused : ∀ path, ¬g.At root path fresh
  label_eq : g.label node = kept ++ moved
  moved_ne : moved ≠ []
  kept_ne : node ≠ root → kept ≠ []
  label_node : g'.label node = kept
  next_node : g'.next node = [fresh]
  label_fresh : g'.label fresh = moved
  next_fresh : g'.next fresh = g.next node
  label : ∀ {path other}, g.At root path other → other ≠ node → g'.label other = g.label other
  next : ∀ {path other}, g.At root path other → other ≠ node → g'.next other = g.next other

namespace Pushed

variable {kept moved : List β} (edit : Pushed g g' root node fresh kept moved)
  (tree : g.Radix root)

include edit tree

/-- The new child is reached where the node was, and the node by the shorter path. -/
theorem at_iff : g'.At root path target ↔
      (g.At root path target ∧ target ≠ node) ∨ (target = fresh ∧ g.At root path node) ∨
        (target = node ∧ g.At root (path ++ moved) node) := by
  constructor
  · intro reached
    induction reached with
    | root =>
      by_cases rootN : root = node
      · subst rootN
        rw [edit.label_node, ← edit.label_eq]
        exact .inr (.inr ⟨rfl, .root⟩)
      · rw [edit.label .root rootN]
        exact .inl ⟨.root, rootN⟩
    | @step path upper lower _ last ih =>
      rcases ih with ⟨ih, upperN⟩ | ⟨rfl, ih⟩ | ⟨rfl, ih⟩
      · rw [edit.next ih upperN] at last
        by_cases lowerN : lower = node
        · subst lowerN
          rw [edit.label_node, append_assoc, ← edit.label_eq]
          exact .inr (.inr ⟨rfl, .step ih last⟩)
        · rw [edit.label (.step ih last) lowerN]
          exact .inl ⟨.step ih last, lowerN⟩
      · rw [edit.next_fresh] at last
        have lowerN := tree.child_ne ih last
        rw [edit.label (.step ih last) lowerN]
        exact .inl ⟨.step ih last, lowerN⟩
      · rw [edit.next_node, mem_singleton] at last
        subst last
        rw [edit.label_fresh]
        exact .inr (.inl ⟨rfl, ih⟩)
  · have carried {path target} (reached : g.At root path target) :
        (target ≠ node → g'.At root path target) ∧
          (target = node → ∃ short, path = short ++ moved ∧ g'.At root short node) := by
      induction reached with
      | root =>
        refine ⟨fun rootN => ?_, fun rootN => ?_⟩
        · rw [← edit.label .root rootN]
          exact .root
        · subst rootN
          exact ⟨kept, edit.label_eq, edit.label_node ▸ .root⟩
      | @step path upper lower above last ih =>
        refine ⟨fun lowerN => ?_, fun same => ?_⟩
        · rw [← edit.label (.step above last) lowerN]
          by_cases upperN : upper = node
          · obtain ⟨short, rfl, reached⟩ := ih.2 upperN
            have between : g'.At root (short ++ g'.label fresh) fresh :=
              .step reached (by simp [edit.next_node])
            rw [edit.label_fresh] at between
            refine .step between ?_
            rwa [edit.next_fresh, ← upperN]
          · refine .step (ih.1 upperN) ?_
            rwa [edit.next above upperN]
        · subst same
          have upperN : upper ≠ lower := (tree.child_ne above last).symm
          refine ⟨path ++ kept, by rw [edit.label_eq, append_assoc], ?_⟩
          rw [← edit.label_node]
          refine .step (ih.1 upperN) ?_
          rwa [edit.next above upperN]
    rintro (⟨reached, differs⟩ | ⟨rfl, reached⟩ | ⟨rfl, reached⟩)
    · exact (carried reached).1 differs
    · obtain ⟨short, rfl, above⟩ := (carried reached).2 rfl
      rw [← edit.label_fresh]
      exact .step above (by simp [edit.next_node])
    · obtain ⟨short, same, reached⟩ := (carried reached).2 rfl
      rw [append_cancel_right_eq] at same
      rwa [same]

/-- A child of the tree before begins with what it began with. -/
theorem head_eq {upper lower : ν} (above : g.At root path upper) (last : lower ∈ g.next upper) :
    (g'.label lower).head? = (g.label lower).head? := by
  by_cases lowerN : lower = node
  · subst lowerN
    have keeps := edit.kept_ne (tree.child_ne_root above last)
    rw [edit.label_node, edit.label_eq, head?_append_of_ne_nil _ keeps]
  · rw [edit.label (.step above last) lowerN]

/-- The children of a node that is reached are those of a node of the tree before, or the new one. -/
theorem next_eq (reached : g'.At root path target) :
    (∃ old, g.At root path old ∧ g'.next target = g.next old) ∨ g'.next target = [fresh] := by
  rcases (edit.at_iff tree).mp reached with ⟨above, targetN⟩ | ⟨rfl, above⟩ | ⟨rfl, -⟩
  · exact .inl ⟨target, above, edit.next above targetN⟩
  · exact .inl ⟨node, above, edit.next_fresh⟩
  · exact .inr edit.next_node

theorem radix : g'.Radix root := by
  refine tree.of_children id (fun reached => ?_) ?_ ?_
  · rcases edit.next_eq tree reached with ⟨old, above, next⟩ | next
    · refine .inl ⟨_, old, above, fun lower last => ?_⟩
      rw [next] at last
      exact ⟨lower, last, rfl, edit.head_eq tree above last⟩
    · exact .inr ⟨fresh, next, edit.label_fresh ▸ edit.moved_ne⟩
  · intro path other target first second
    rcases (edit.at_iff tree).mp first with ⟨one, oneN⟩ | ⟨same, one⟩ | ⟨same, one⟩ <;>
      rcases (edit.at_iff tree).mp second with ⟨two, twoN⟩ | ⟨same', two⟩ | ⟨same', two⟩
    · exact tree.unique one two
    · exact absurd (same' ▸ one) (edit.unused _)
    · exact absurd same' oneN
    · exact absurd (same ▸ two) (edit.unused _)
    · exact tree.unique one two
    · exact absurd (same.symm.trans same' ▸ one) (edit.unused _)
    · exact absurd same twoN
    · exact absurd (same'.symm.trans same ▸ two) (edit.unused _)
    · exact append_cancel_right (tree.unique one two)
  · intro path upper reached
    rcases edit.next_eq tree reached with ⟨old, above, next⟩ | next
    · rw [next]
      exact tree.nodup above
    · simp [next]

end Pushed

/-- A node gets a new child, which has no children itself. -/
structure Appended (g g' : LabelGraph ν β) (root node fresh : ν) : Prop where
  unused : ∀ path, ¬g.At root path fresh
  labelled : g'.label fresh ≠ []
  apart : ∀ other, other ∈ g.next node → (g.label other).head? ≠ (g'.label fresh).head?
  next_node : g'.next node = g.next node ++ [fresh]
  next_fresh : g'.next fresh = []
  label : ∀ {path other}, g.At root path other → g'.label other = g.label other
  next : ∀ {path other}, g.At root path other → other ≠ node → g'.next other = g.next other

/-- What was reached still is, and the new child besides. -/
theorem Appended.at_iff (edit : Appended g g' root node fresh) :
    g'.At root path target ↔ g.At root path target ∨
        (target = fresh ∧ ∃ above, g.At root above node ∧ path = above ++ g'.label fresh) := by
  constructor
  · intro reached
    induction reached with
    | root => rw [edit.label .root]; exact .inl .root
    | @step path upper lower _ last ih =>
      rcases ih with ih | ⟨rfl, -⟩
      · by_cases here : upper = node
        · subst here
          rw [edit.next_node, mem_append, mem_singleton] at last
          rcases last with last | rfl
          · rw [edit.label (.step ih last)]
            exact .inl (.step ih last)
          · exact .inr ⟨rfl, path, ih, rfl⟩
        · rw [edit.next ih here] at last
          rw [edit.label (.step ih last)]
          exact .inl (.step ih last)
      · rw [edit.next_fresh] at last
        cases last
  · have carried {path target} (reached : g.At root path target) : g'.At root path target := by
      induction reached with
      | root => rw [← edit.label .root]; exact .root
      | @step path upper lower above last ih =>
        rw [← edit.label (.step above last)]
        refine .step ih ?_
        by_cases here : upper = node
        · subst here
          rw [edit.next_node]
          exact mem_append_left _ last
        · rwa [edit.next above here]
    rintro (reached | ⟨rfl, above, reached, rfl⟩)
    · exact carried reached
    · exact .step (carried reached) (by simp [edit.next_node])

/-- No sibling of the new child begins as it does, so a path still tells them apart. -/
theorem Appended.radix (edit : Appended g g' root node fresh) (radix : g.Radix root) :
    g'.Radix root := by
  -- The children of a node are those it had, and for the one node the new one besides.
  have next {path upper lower} (reached : g'.At root path upper) (last : lower ∈ g'.next upper) :
      g.At root path upper ∧ (lower ∈ g.next upper ∨ upper = node ∧ lower = fresh) := by
    rcases edit.at_iff.mp reached with above | ⟨rfl, -⟩
    · by_cases here : upper = node
      · subst here
        rw [edit.next_node, mem_append, mem_singleton] at last
        exact ⟨above, last.imp_right fun same => ⟨rfl, same⟩⟩
      · rw [edit.next above here] at last
        exact ⟨above, .inl last⟩
    · rw [edit.next_fresh] at last
      cases last
  constructor
  · intro path upper lower reached last
    obtain ⟨above, last | ⟨-, rfl⟩⟩ := next reached last
    · rw [edit.label (.step above last)]
      exact radix.labelled above last
    · exact edit.labelled
  · intro path upper one two reached first second agree
    obtain ⟨above, first⟩ := next reached first
    obtain ⟨-, second⟩ := next reached second
    rcases first with first | ⟨rfl, rfl⟩ <;> rcases second with second | ⟨here, rfl⟩
    · rw [edit.label (.step above first), edit.label (.step above second)] at agree
      exact radix.distinct above first second agree
    · subst here
      rw [edit.label (.step above first)] at agree
      exact absurd agree (edit.apart one first)
    · rw [edit.label (.step above second)] at agree
      exact absurd agree.symm (edit.apart two second)
    · rfl
  · intro path other target first second
    rcases edit.at_iff.mp first with one | ⟨same, above, one, rfl⟩ <;>
      rcases edit.at_iff.mp second with two | ⟨same', above', two, rfl⟩
    · exact radix.unique one two
    · exact absurd (same' ▸ one) (edit.unused _)
    · exact absurd (same ▸ two) (edit.unused _)
    · rw [radix.unique one two]
  · intro path upper reached
    rcases edit.at_iff.mp reached with above | ⟨rfl, -⟩
    · by_cases here : upper = node
      · subst here
        rw [edit.next_node, nodup_append]
        refine ⟨radix.nodup above, nodup_singleton _, fun one before two last same => ?_⟩
        rw [mem_singleton] at last
        have taken : one = fresh := same.trans last
        exact edit.unused _ (taken ▸ At.step above before)
      · rw [edit.next above here]
        exact radix.nodup above
    · simp [edit.next_fresh]

/-- A node is taken out of the children of its parent. -/
structure Unlinked (g g' : LabelGraph ν β) (root parent node : ν) : Prop where
  reached : ∃ path, g.At root path parent
  place : ∃ before after, g.next parent = before ++ node :: after ∧ g'.next parent = before ++ after
  label : ∀ {path other}, g.At root path other → g'.label other = g.label other
  next : ∀ {path other}, g.At root path other → other ≠ parent → g'.next other = g.next other

namespace Unlinked

variable (edit : Unlinked g g' root parent node)

include edit

theorem mem_parent : node ∈ g.next parent := by
  obtain ⟨before, after, split, -⟩ := edit.place
  simp [split]

theorem mem_next_parent (radix : g.Radix root)
    {other : ν} : other ∈ g'.next parent ↔ other ∈ g.next parent ∧ other ≠ node := by
  obtain ⟨path, reached⟩ := edit.reached
  have nodup := radix.nodup reached
  obtain ⟨before, after, split, split'⟩ := edit.place
  rw [split] at nodup
  rw [split', mem_rest nodup, split]

/-- What is not below the node is reached as before, and nothing else is. -/
theorem at_iff (radix : g.Radix root) :
    g'.At root path target ↔ g.At root path target ∧ ∀ rest, ¬g.Below node rest target := by
  obtain ⟨pathP, atP⟩ := edit.reached
  have below := edit.mem_parent
  have atN := At.step atP below
  constructor
  · intro reached
    induction reached with
    | root =>
      rw [edit.label .root]
      refine ⟨.root, fun rest lower => ?_⟩
      rcases lower.eq_or_child with same | ⟨upper, above, lower, last⟩
      · exact radix.child_ne_root atP below same.symm
      · exact radix.child_ne_root (atN.descend lower) last rfl
    | @step path upper lower _ last ih =>
      obtain ⟨ih, outside⟩ := ih
      have last' : lower ∈ g.next upper ∧ lower ≠ node := by
        by_cases here : upper = parent
        · subst here
          exact (edit.mem_next_parent radix).mp last
        · rw [edit.next ih here] at last
          exact ⟨last, fun same => here (radix.parent_eq ih atP (same ▸ last) below)⟩
      rw [edit.label (.step ih last'.1)]
      refine ⟨.step ih last'.1, fun rest under => ?_⟩
      rcases under.eq_or_child with same | ⟨upper', above, under, last''⟩
      · exact last'.2 same
      · cases radix.parent_eq ih (atN.descend under) last'.1 last''
        exact outside above under
  · rintro ⟨reached, outside⟩
    induction reached with
    | root => rw [← edit.label .root]; exact .root
    | @step path upper lower above last ih =>
      rw [← edit.label (.step above last)]
      refine .step (ih fun rest under => outside _ (under.snoc last)) ?_
      by_cases here : upper = parent
      · subst here
        refine (edit.mem_next_parent radix).mpr ⟨last, fun same => ?_⟩
        exact outside [] (same ▸ .refl)
      · rwa [edit.next above here]

theorem radix (radix : g.Radix root) : g'.Radix root := by
  have next {path upper} (reached : g'.At root path upper) :
      g.At root path upper ∧ (g'.next upper).Sublist (g.next upper) := by
    have above := ((edit.at_iff radix).mp reached).1
    refine ⟨above, ?_⟩
    by_cases here : upper = parent
    · subst here
      obtain ⟨before, after, split, split'⟩ := edit.place
      rw [split, split']
      exact (List.Sublist.refl before).append (sublist_cons_self node after)
    · rw [edit.next above here]
  refine radix.of_children id (fun reached => .inl ⟨_, _, (next reached).1, fun lower last => ?_⟩)
    (fun first second => radix.unique (next first).1 (next second).1)
    (fun reached => (radix.nodup (next reached).1).sublist (next reached).2)
  obtain ⟨above, fewer⟩ := next reached
  have last := fewer.mem last
  exact ⟨lower, last, rfl, by rw [edit.label (.step above last)]⟩

end Unlinked

end FlexSwitch.LabelGraph
