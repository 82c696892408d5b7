import FlexSwitch.Patricia.Empty

/-! Deleting a key: its node loses the item, is merged where that fits, and goes when it is empty. -/

namespace FlexSwitch.Patricia.Memory

open Go List Outcome

variable {b : UInt8} {above : Option TrieRef}

variable {ε α : Type} {mem mem' : Memory α} {root parent node child ref : TrieRef}
  {path key : Bytes}

variable {before after : List TrieRef}

/-- The first child that begins with the byte is replaced. -/
theorem replace_eq (labelled : ∀ other, other ∈ before → mem.bytes other ≠ [])
    (apart : ∀ other, other ∈ before → (mem.bytes other).head? ≠ some b)
    (begins : (mem.bytes node).head? = some b) :
    (mem.replace b child (before ++ node :: after) : Outcome ε _) = .ok (before ++ child :: after) := by
  induction before with
  | nil => simp [replace, index_zero begins]
  | cons other before ih =>
    have ih := ih (fun other member => labelled other (mem_cons_of_mem _ member))
      fun other member => apart other (mem_cons_of_mem _ member)
    have differs := apart other mem_cons_self
    obtain ⟨first, more, bytes⟩ := exists_cons_of_ne_nil (labelled other mem_cons_self)
    rw [bytes] at differs
    have apart : first ≠ b := fun same => differs (congrArg some same)
    rw [cons_append, replace, bytes, index_zero rfl, ok_bind, if_neg apart, ih]
    rfl

/-- The first child that begins as the node does is taken out, or there is none. -/
theorem remove_cases {children : List TrieRef}
    (labelled : ∀ other, other ∈ children → mem.bytes other ≠ [])
    (begins : (mem.bytes node).head? = some b) :
    (∃ before other after, children = before ++ other :: after ∧ (mem.bytes other).head? = some b ∧
        (mem.remove node children : Outcome ε _) = .ok (before ++ after)) ∨
      ((∀ other, other ∈ children → (mem.bytes other).head? ≠ some b) ∧
        (mem.remove node children : Outcome ε _) = .panic) := by
  induction children with
  | nil => exact .inr ⟨fun other none => absurd none not_mem_nil, rfl⟩
  | cons other rest ih =>
    obtain ⟨first, more, bytes⟩ := exists_cons_of_ne_nil (labelled other mem_cons_self)
    rw [remove, bytes, index_zero rfl, ok_bind, index_zero begins, ok_bind]
    by_cases same : first = b
    · rw [if_pos same]
      exact .inl ⟨[], other, rest, rfl, by rw [bytes, same]; rfl, rfl⟩
    · rw [if_neg same]
      rcases ih fun other member => labelled other (mem_cons_of_mem _ member) with
        ⟨before, found, after, split, begins', removed⟩ | ⟨none, panics⟩
      · exact .inl ⟨other :: before, found, after, by rw [split]; rfl, begins', by rw [removed]; rfl⟩
      · refine .inr ⟨fun found member => ?_, by rw [panics]; rfl⟩
        rcases mem_cons.mp member with rfl | member
        · rw [bytes]
          exact fun agree => same (Option.some.inj agree)
        · exact none found member

theorem write_self (mem : Memory α) (ref : TrieRef) : mem.write ref (mem.trie ref) = mem := by
  simp [write, trie, Heap.set]

theorem WellFormed.under_ne_parent (wf : mem.WellFormed root) (reached : mem.At root path parent)
    (below : node ∈ mem.childrenOf parent) (under : mem.Under node ref) : ref ≠ parent := by
  rintro rfl
  obtain ⟨rest, reached'⟩ := WellFormed.at_of_under (.step reached below) under
  have same := wf.radix.unique reached reached'
  rw [append_assoc] at same
  have empty := append_right_eq_self.mp same.symm
  exact wf.labelled reached below (append_eq_nil_iff.mp empty).1

section frame

variable (children : ∀ lower, mem.Under node lower → mem'.childrenOf lower = mem.childrenOf lower)

include children

theorem under_frame : mem'.Under node ref ↔ mem.Under node ref := by
  constructor
  · intro under
    induction under with
    | refl => exact .refl
    | tail _ below ih => exact .tail ih (children _ ih ▸ below)
  · intro under
    induction under with
    | refl => exact .refl
    | tail upper below ih => exact .tail ih ((children _ upper).symm ▸ below)

theorem bare_frame
    (items : ∀ lower, mem.Under node lower → (mem'.trie lower).item = (mem.trie lower).item) :
    mem'.Bare node ↔ mem.Bare node := by
  constructor
  · intro bare lower under
    rw [← items lower under]
    exact bare lower ((under_frame children).mpr under)
  · intro bare lower under
    rw [items lower ((under_frame children).mp under)]
    exact bare lower ((under_frame children).mp under)

theorem levels_frame {levels : Nat} (deep : mem.graph.Levels levels node) :
    mem'.graph.Levels levels node := by
  induction levels generalizing node with
  | zero => exact deep.elim
  | succ levels ih =>
    intro child below
    have below : child ∈ mem.childrenOf node := children node .refl ▸ below
    exact ih (fun lower under => children lower (.head below under)) (deep child below)

end frame

theorem Splice.childrenOf_eq (change : Splice mem mem' root parent node child)
    (wf : mem.WellFormed root) (reached : mem.At root path ref) (apart : ref ≠ parent) :
    mem'.childrenOf ref = mem.childrenOf ref := by
  obtain ⟨pathP, atP⟩ := change.reached
  rw [childrenOf, change.children]
  exact change.lists _ fun shared => apart (wf.ownList reached atP shared)

/-- The memory after the only child of a node was put into the node's place. -/
def spliced (mem : Memory α) (parent node child : TrieRef) (children : List TrieRef) : Memory α :=
  (mem.setPrefix child (some (mem.bytes node ++ mem.bytes child))).setChildren parent children

theorem childrenOf_spliced (mem : Memory α) (parent node child : TrieRef)
    (children : List TrieRef) : (mem.spliced parent node child children).childrenOf parent = children := by
  rw [childrenOf, spliced, trie_setChildren, lists_setChildren, if_pos rfl]

theorem splice_spliced (reached : mem.At root path parent)
    (split : mem.childrenOf parent = before ++ node :: after) (only : mem.childrenOf node = [child])
    (bare : (mem.trie node).item = none) :
    Splice mem (mem.spliced parent node child (before ++ child :: after)) root parent node child := by
  have list : ((mem.setPrefix child (some (mem.bytes node ++ mem.bytes child))).trie parent).children =
      (mem.trie parent).children := by
    rw [trie_setPrefix]
    by_cases same : parent = child
    · rw [if_pos same, same]
    · rw [if_neg same]
  exact {
    reached := ⟨path, reached⟩
    only := only
    bare := bare
    place := ⟨before, after, split, childrenOf_spliced mem parent node child _⟩
    tries := fun ref => by rw [spliced, trie_setChildren, trie_setPrefix]
    lists := fun other apart => by
      rw [spliced, lists_setChildren, list, if_neg apart, lists_setPrefix]
    nodesNext := rfl
    listsNext := rfl }

/-- The memory after a node was overwritten by its only child. -/
def absorbed (mem : Memory α) (node child : TrieRef) : Memory α :=
  let mem' := mem.setPrefix child (some (mem.bytes node ++ mem.bytes child))
  mem'.write node (mem'.trie child)

theorem trie_absorbed : (mem.absorbed node child).trie ref = if ref = node ∨ ref = child then
        { mem.trie child with nodePrefix := some (mem.bytes node ++ mem.bytes child) }
      else mem.trie ref := by
  simp only [absorbed, trie_write, trie_setPrefix]
  by_cases refN : ref = node
  · simp [refN]
  · by_cases refC : ref = child
    · simp [refC]
    · simp [refN, refC]

theorem absorb_absorbed (reached : mem.At root path node) (only : mem.childrenOf node = [child])
    (bare : (mem.trie node).item = none) :
    Absorb mem (mem.absorbed node child) root node child where
  reached := ⟨path, reached⟩
  only := only
  bare := bare
  node_eq := by rw [trie_absorbed, if_pos (.inl rfl)]
  tries := fun ref refN refC => by rw [trie_absorbed, if_neg (by simp [refN, refC])]
  lists := rfl
  nodesNext := rfl

/-- Only the node that takes over has other children than before. -/
theorem childrenOf_absorbed (apart : ref ≠ node) :
    (mem.absorbed node child).childrenOf ref = mem.childrenOf ref := by
  have lists : (mem.absorbed node child).lists = mem.lists := rfl
  rw [childrenOf, lists, trie_absorbed]
  by_cases refC : ref = child
  · rw [if_pos (.inr refC), refC]
    rfl
  · rw [if_neg (by simp [apart, refC])]
    rfl

theorem item_absorbed (apart : ref ≠ node) :
    ((mem.absorbed node child).trie ref).item = (mem.trie ref).item := by
  rw [trie_absorbed]
  by_cases refC : ref = child
  · rw [if_pos (.inr refC), refC]
  · rw [if_neg (by simp [apart, refC])]

/--
A node whose removal finds nothing to remove.

The node is the only child of a parent without an item, and has a single child, under which there
is no item. All three fit into one node, and none of the children left begins as the node did.
-/
def Stranded (mem : Memory α) (root : TrieRef) (key : Bytes) : Prop :=
  ∃ path parent node child, mem.At root path parent ∧ mem.At root key node ∧
    mem.childrenOf parent = [node] ∧ mem.childrenOf node = [child] ∧
    (mem.trie parent).item = none ∧ mem.Bare child ∧
    (mem.bytes parent).length + (mem.bytes node).length + (mem.bytes child).length ≤
      defaultMaxPrefixPerNode ∧
    ∀ other, other ∈ mem.childrenOf child → (mem.bytes other).head? ≠ (mem.bytes node).head?

/-- What holds after a node that lost its item was compacted. -/
structure Merged (mem mem' : Memory α) (root : TrieRef) (key : Bytes) (parent : Option TrieRef)
    (node : TrieRef) : Prop where
  keeps : Keeps mem mem' root
  bare_iff : mem'.Bare node ↔ mem.Bare node
  levels : mem'.graph.Levels mem'.nodes.next node
  removable : ∀ upper, parent = some upper →
    (∃ path, mem'.At root path upper) ∧ mem'.bytes node = mem.bytes node ∧
      (mem.Bare node → (∃ lower, lower ∈ mem'.childrenOf upper ∧
        (mem'.bytes lower).head? = (mem.bytes node).head? ∧ mem'.Bare lower) ∨
          (mem.Stranded root key ∧ ∀ lower, lower ∈ mem'.childrenOf upper →
            (mem'.bytes lower).head? ≠ (mem.bytes node).head?))

section

variable (wf : mem.WellFormed root)

include wf

theorem WellFormed.levels (reached : mem.At root path ref) : mem.graph.Levels mem.nodes.next ref :=
  (wf.radix.levels wf.allocated).descend reached

/-- Where nothing was compacted, the node is there to be removed. -/
theorem merged_refl (reached : mem.At root key node) (parentOf : mem.ParentOf root above node) :
    Merged mem mem root key above node where
  keeps := ⟨wf, Iff.rfl⟩
  bare_iff := Iff.rfl
  levels := wf.levels reached
  removable := by
    rintro upper rfl
    obtain ⟨path, atP, below⟩ := parentOf
    exact ⟨⟨path, atP⟩, rfl, fun bare => .inl ⟨node, below, rfl, bare⟩⟩

/-- The root is overwritten by its only child. -/
theorem merged_absorbed (only : mem.childrenOf root = [child])
    (bare : (mem.trie root).item = none) (bareChild : (mem.trie child).item = none) :
    Merged mem (mem.absorbed root child) root key none root := by
  have absorb := absorb_absorbed .root only bare
  have below : child ∈ mem.childrenOf root := by rw [only]; exact mem_singleton_self _
  have apart := wf.radix.child_ne .root below
  have wf' := (absorb.keeps wf).wellFormed
  have next : (mem.absorbed root child).childrenOf root = mem.childrenOf child :=
    absorb.edit.next_node
  have frame {lower} (further : lower ∈ mem.childrenOf child) :
      (mem.absorbed root child).Bare lower ↔ mem.Bare lower :=
    bare_frame (fun deep under => childrenOf_absorbed
        (wf.under_ne_parent .root below (.head further under)))
      fun deep under => item_absorbed (wf.under_ne_parent .root below (.head further under))
  refine ⟨absorb.keeps wf, ?_, wf'.levels .root, fun upper none => by cases none⟩
  rw [bare_iff, @bare_iff _ mem root, next, only]
  simp only [mem_singleton, forall_eq, bare, true_and]
  rw [@bare_iff _ mem child, trie_absorbed, if_pos (.inl rfl)]
  simp only [bareChild, true_and]
  exact forall₂_congr fun lower further => frame further

/-- The node is replaced by its only child. -/
theorem merged_spliced (atP : mem.At root path parent) (reached : mem.At root key node)
    (split : mem.childrenOf parent = before ++ node :: after)
    (only : mem.childrenOf node = [child]) (bare : (mem.trie node).item = none) :
    Merged mem (mem.spliced parent node child (before ++ child :: after)) root key (some parent)
      node := by
  have splice := splice_spliced atP split only bare
  have below : node ∈ mem.childrenOf parent := by simp [split]
  have below' : child ∈ mem.childrenOf node := by simp [only]
  have children {lower} (under : mem.Under node lower) :
      (mem.spliced parent node child (before ++ child :: after)).childrenOf lower =
        mem.childrenOf lower := by
    obtain ⟨rest, deep⟩ := WellFormed.at_of_under reached under
    exact splice.childrenOf_eq wf deep (wf.under_ne_parent atP below under)
  have atP' := (splice.at_iff wf).mpr ⟨atP, (wf.radix.child_ne atP below).symm⟩
  have nodeC : node ≠ child := (wf.radix.child_ne reached below').symm
  refine ⟨splice.keeps wf, ?_, ?_, ?_⟩
  · exact bare_frame (fun lower => children) fun lower _ => splice.item lower
  · exact levels_frame (fun lower => children) (wf.levels reached)
  · rintro upper ⟨⟩
    refine ⟨⟨path, atP'⟩, by rw [bytes, splice.tries, if_neg nodeC, bytes], fun none => .inl ?_⟩
    refine ⟨child, ((splice.edit wf).mem_next_parent wf.radix).mpr (.inl rfl),
      (splice.edit wf).head_child wf.radix, ?_⟩
    refine (bare_frame (fun lower under => children (.head below' under))
      fun lower _ => splice.item lower).mpr ?_
    exact ((bare_iff.mp none).2 child below')

/-- The node is replaced by its only child, and that is merged with the parent as well. -/
theorem merged_both (atP : mem.At root path parent)
    (reached : mem.At root key node) (alone : mem.childrenOf parent = [node])
    (only : mem.childrenOf node = [child]) (bareP : (mem.trie parent).item = none)
    (bare : (mem.trie node).item = none)
    (fits : (mem.bytes parent).length + (mem.bytes node).length + (mem.bytes child).length ≤
      defaultMaxPrefixPerNode) :
    Merged mem ((mem.spliced parent node child [child]).absorbed parent child) root key (some parent)
      node := by
  have splice : Splice mem (mem.spliced parent node child [child]) root parent node child :=
    @splice_spliced _ _ _ _ _ _ _ [] [] atP alone only bare
  have merged : Merged mem (mem.spliced parent node child [child]) root key (some parent) node :=
    @merged_spliced _ _ _ _ _ _ _ _ [] [] wf atP reached alone only bare
  have wf' := merged.keeps.wellFormed
  have below : node ∈ mem.childrenOf parent := by simp [alone]
  have below' : child ∈ mem.childrenOf node := by simp [only]
  have atP' := (splice.at_iff wf).mpr ⟨atP, (wf.radix.child_ne atP below).symm⟩
  have nodeP := wf.radix.child_ne atP below
  have nodeC : node ≠ child := (wf.radix.child_ne reached below').symm
  have childP := wf.radix.grandchild_ne atP below below'
  have alone' := childrenOf_spliced mem parent node child [child]
  generalize mem.spliced parent node child [child] = mid at *
  have absorb := absorb_absorbed atP' alone' (by rw [splice.item]; exact bareP)
  -- Nothing under the node is the parent, so all that is under it stays as it was.
  have under {lower} (lowerUnder : mem.Under node lower) : lower ≠ parent :=
    wf.under_ne_parent atP below lowerUnder
  have children {lower} (lowerUnder : mem.Under node lower) :
      (mid.absorbed parent child).childrenOf lower = mem.childrenOf lower := by
    obtain ⟨rest, deep⟩ := WellFormed.at_of_under reached lowerUnder
    rw [childrenOf_absorbed (under lowerUnder), splice.childrenOf_eq wf deep (under lowerUnder)]
  have items {lower} (lowerUnder : mem.Under node lower) :
      ((mid.absorbed parent child).trie lower).item = (mem.trie lower).item := by
    rw [item_absorbed (under lowerUnder), splice.item]
  refine ⟨merged.keeps.trans (absorb.keeps wf'), ?_, ?_, ?_⟩
  · exact bare_frame (fun lower => children) fun lower => items
  · rw [show (mid.absorbed parent child).nodes.next = mem.nodes.next from splice.nodesNext]
    exact levels_frame (fun lower => children) (wf.levels reached)
  · rintro upper ⟨⟩
    refine ⟨⟨_, (absorb.at_iff wf').mpr (.inr ⟨rfl, .step atP' absorb.edit.mem_only⟩)⟩, ?_,
      fun none => ?_⟩
    · rw [bytes, trie_absorbed, if_neg (by simp [nodeP, nodeC]), splice.tries, if_neg nodeC, bytes]
    · have next : (mid.absorbed parent child).childrenOf parent = mem.childrenOf child := by
        rw [show (mid.absorbed parent child).childrenOf parent = mid.childrenOf child from
          absorb.edit.next_node]
        exact splice.childrenOf_eq wf (.step reached below') childP
      have bareC : mem.Bare child := (bare_iff.mp none).2 child below'
      have bytes {lower} (further : lower ∈ mem.childrenOf child) :
          (mid.absorbed parent child).bytes lower = mem.bytes lower := by
        have lowerC : lower ≠ child := wf.radix.child_ne (.step reached below') further
        have lowerP := under (.head below' (.head further .refl))
        rw [Memory.bytes, trie_absorbed, if_neg (by simp [lowerP, lowerC]), splice.tries,
          if_neg lowerC, Memory.bytes]
      rw [next]
      by_cases found : ∃ lower, lower ∈ mem.childrenOf child ∧
          (mem.bytes lower).head? = (mem.bytes node).head?
      · obtain ⟨lower, further, begins⟩ := found
        refine .inl ⟨lower, further, by rw [bytes further]; exact begins, ?_⟩
        refine (bare_frame (fun deep deepUnder => children (.head below' (.head further deepUnder)))
          fun deep deepUnder => items (.head below' (.head further deepUnder))).mpr ?_
        exact (bare_iff.mp bareC).2 lower further
      · have lacks : ∀ lower, lower ∈ mem.childrenOf child →
            (mem.bytes lower).head? ≠ (mem.bytes node).head? := fun lower further agree =>
          found ⟨lower, further, agree⟩
        exact .inr ⟨⟨path, parent, node, child, atP, reached, alone, only, bareP, bareC, fits, lacks⟩,
          fun lower further => by rw [bytes further]; exact lacks lower further⟩

/-- The bytes of a node that is there are not nil, if the root has any. -/
theorem WellFormed.named (filled : mem.Filled root)
    (reached : mem.At root path ref) : (mem.trie ref).nodePrefix ≠ none := by
  rcases reached.root_or_child with ⟨rfl, -⟩ | ⟨upper, above, reached', below, -⟩
  · exact filled
  · intro none
    exact wf.labelled reached' below (by rw [bytes, none]; rfl)

/-- The node that lost its item is found in the list of its parent, and replaced there. -/
theorem replace_spliced (atP : mem.At root path parent)
    (below : node ∈ mem.childrenOf parent) (below' : child ∈ mem.childrenOf node)
    (begins : (mem.bytes node).head? = some b) (bytes : Option Bytes) :
    ∃ before after, mem.childrenOf parent = before ++ node :: after ∧
      ((mem.setPrefix child bytes).replace b child
        ((mem.setPrefix child bytes).childrenOf parent) : Outcome ε _) =
          .ok (before ++ child :: after) := by
  have reached := LabelGraph.At.step atP below
  obtain ⟨before, after, split⟩ := append_of_mem below
  have apart : node ∉ before := by
    have nodup : (mem.childrenOf parent).Nodup := wf.radix.nodup atP
    rw [split, nodup_middle, nodup_cons, mem_append, not_or] at nodup
    exact nodup.1.1
  have list : (mem.setPrefix child bytes).childrenOf parent = before ++ node :: after := by
    rw [← split, childrenOf, trie_setPrefix, if_neg (wf.radix.grandchild_ne atP below below').symm]
    rfl
  -- The child is not among those that are searched, so they have the bytes they had.
  have same {other} (member : other ∈ mem.childrenOf parent) :
      (mem.setPrefix child bytes).bytes other = mem.bytes other := by
    have otherC : other ≠ child := fun same => by
      subst same
      exact wf.radix.child_ne atP below (wf.radix.parent_eq atP reached member below').symm
    rw [Memory.bytes, trie_setPrefix, if_neg otherC, Memory.bytes]
  refine ⟨before, after, split, ?_⟩
  have early {other} (member : other ∈ before) : other ∈ mem.childrenOf parent := by
    rw [split]
    exact mem_append_left _ member
  rw [list]
  refine replace_eq (fun other member => ?_) (fun other member agree => ?_) ?_
  · rw [same (early member)]
    exact wf.labelled atP (early member)
  · rw [same (early member)] at agree
    have found := wf.radix.distinct atP (early member) below (agree.trans begins.symm)
    exact apart (found ▸ member)
  · rw [same below]
    exact begins

/-- Compaction after an item was deleted comes back, with the trie in order. -/
theorem compactDeleted_merged (filled : mem.Filled root)
    (reached : mem.At root key node) (parentOf : mem.ParentOf root above node)
    (bare : (mem.trie node).item = none) :
    ∃ mem', (mem.compactDeleted above node : Outcome ε _) = .ok mem' ∧
      Merged mem mem' root key above node := by
  rw [compactDeleted]
  rcases compact_cases mem node with same | ⟨child, only, -, bareChild, fits, compacted⟩
  · rw [same]
    exact ⟨mem, if_pos rfl, merged_refl wf reached parentOf⟩
  · have below' : child ∈ mem.childrenOf node := by simp [only]
    have childN := wf.radix.child_ne reached below'
    rw [appendPrefix_eq (wf.named filled reached)] at compacted
    rw [compacted]
    simp only [if_neg childN]
    cases above with
    | none =>
      have atRoot : node = root := parentOf
      subst atRoot
      exact ⟨_, rfl, merged_absorbed wf only bare bareChild⟩
    | some parent =>
      obtain ⟨path, atP, below⟩ := parentOf
      obtain ⟨b, begins⟩ := Option.ne_none_iff_exists'.mp
        (mt head?_eq_none_iff.mp (wf.labelled atP below))
      obtain ⟨before, after, split, replaced⟩ := replace_spliced (ε := ε) wf atP below below' begins
        (some (mem.bytes node ++ (mem.trie child).nodePrefix.getD []))
      have begins' : ((mem.setPrefix child (some (mem.bytes node ++
          (mem.trie child).nodePrefix.getD []))).bytes node).head? = some b := by
        rw [bytes, trie_setPrefix, if_neg childN.symm]
        exact begins
      simp only [index_zero begins', ok_bind, replaced]
      have merged := merged_spliced wf atP reached split only bare
      have splice := splice_spliced atP split only bare
      change ∃ mem', ok (((mem.spliced parent node child (before ++ child :: after)).compact
        parent).2.write parent (((mem.spliced parent node child (before ++ child :: after)).compact
        parent).2.trie ((mem.spliced parent node child (before ++ child :: after)).compact
        parent).1)) = _ ∧ _
      rcases compact_cases _ parent with
        same | ⟨lower, alone, bareP, -, fits', compacted'⟩
      · rw [same, write_self]
        exact ⟨_, rfl, merged⟩
      · -- The parent has no child but the one that was put into the place of the node.
        rw [childrenOf_spliced] at alone
        obtain ⟨rfl, rfl, rfl⟩ : before = [] ∧ after = [] ∧ lower = child := by
          cases before with
          | nil =>
            rw [nil_append, cons.injEq] at alone
            exact ⟨rfl, alone.2, alone.1.symm⟩
          | cons first before => simp at alone
        simp only [nil_append] at split splice bareP fits' compacted' ⊢
        have parentC : parent ≠ lower := (wf.radix.grandchild_ne atP below below').symm
        have named : ((mem.spliced parent node lower [lower]).trie parent).nodePrefix ≠ none := by
          have whole := splice.tries parent
          rw [if_neg parentC] at whole
          rw [whole]
          exact wf.named filled atP
        have widths : (mem.bytes parent).length + (mem.bytes node).length +
            (mem.bytes lower).length ≤ defaultMaxPrefixPerNode := by
          have long : (mem.spliced parent node lower [lower]).bytes lower =
              mem.bytes node ++ mem.bytes lower := (splice.edit wf).label_child
          have short : (mem.spliced parent node lower [lower]).bytes parent = mem.bytes parent :=
            (splice.edit wf).label atP (wf.radix.child_ne atP below).symm parentC
          rw [long, short, length_append] at fits'
          omega
        rw [appendPrefix_eq named] at compacted'
        rw [splice.item] at bareP
        refine ⟨_, ?_, merged_both wf atP reached split only bareP bare widths⟩
        rw [compacted']
        rfl

end

theorem trie_reset : (mem.reset root).trie root = ⟨none, (mem.trie root).item, mem.lists.next⟩ := by
  have blank : (mem.setPrefix root none).trie root = { mem.trie root with nodePrefix := none } := by
    rw [trie_setPrefix, if_pos rfl]
  simp only [reset, newSparseChildList, trie_write, if_pos]
  change Trie.mk ((mem.setPrefix root none).trie root).nodePrefix
    ((mem.setPrefix root none).trie root).item _ = _
  rw [blank]
  rfl

theorem childrenOf_reset : (mem.reset root).childrenOf root = [] := by
  rw [childrenOf, trie_reset]
  simp [reset, newSparseChildList, Heap.get_alloc]

/-- An empty trie whose root lost its bytes and its children holds nothing, as before. -/
theorem reset_keeps (wf : mem.WellFormed root) (bare : mem.Bare root) :
    Keeps mem (mem.reset root) root := by
  have none : (mem.trie root).item = none := (bare_iff.mp bare).1
  obtain ⟨wf', only⟩ := wellFormed_leaf childrenOf_reset (wf.allocated .root)
    (by rw [trie_reset]; exact Nat.lt_succ_self _) (fun _ => by rw [trie_reset]; exact none)
  refine ⟨wf', ?_⟩
  intro key item
  constructor
  · rintro ⟨ref, reached, stored⟩
    rw [(only.mp reached).1, trie_reset, none] at stored
    cases stored
  · rintro ⟨ref, reached, stored⟩
    obtain ⟨rest, -, below⟩ := reached.from_root
    rw [bare ref (under_of_below below)] at stored
    cases stored

theorem unlink_setChildren (atP : mem.At root path parent)
    (split : mem.childrenOf parent = before ++ node :: after)
    (bare : mem.Bare node) :
    Unlink mem (mem.setChildren parent (before ++ after)) root parent node where
  reached := ⟨path, atP⟩
  place := ⟨before, after, split, by
    rw [childrenOf, trie_setChildren, lists_setChildren, if_pos rfl]⟩
  bare := fun rest ref below => bare ref (under_of_below below)
  tries := rfl
  lists := fun list apart => by rw [lists_setChildren, if_neg apart]
  listsNext := rfl

/-- The node goes when it is empty, unless the parent has no child that begins as it did. -/
theorem removeEmpty_cases (wf : mem.WellFormed root) (parentOf : mem.ParentOf root above node)
    (merged : Merged mem mem' root key above node) :
    (∃ last, (mem'.removeEmpty above node : Outcome ε _) = .ok last ∧ Keeps mem last root) ∨
      ((mem'.removeEmpty above node : Outcome ε _) = .panic ∧ mem.Stranded root key) := by
  obtain ⟨sorts, isEmpty, emptied, sorted, bare⟩ := empty_bare (ε := ε) merged.levels
  have same := sorted.toPermuted
  have wf' := merged.keeps.wellFormed
  have keeps := merged.keeps.trans (same.keeps wf')
  obtain ⟨wfS, atS⟩ := same.wellFormed wf'
  rw [merged.bare_iff] at bare
  rw [removeEmpty, emptied, ok_bind]
  rcases isEmpty with _ | _
  · exact .inl ⟨sorts, rfl, keeps⟩
  have bare := bare.mp rfl
  cases above with
  | none =>
    have atRoot : node = root := parentOf
    subst atRoot
    have bareS : sorts.Bare node := same.bare_iff.mpr (merged.bare_iff.mpr bare)
    exact .inl ⟨_, rfl, keeps.trans (reset_keeps wfS bareS)⟩
  | some parent =>
    obtain ⟨⟨path', atP⟩, bytes, removable⟩ := merged.removable parent rfl
    obtain ⟨path, atP₀, below⟩ := parentOf
    have atPS := atS.mpr atP
    have bytesS : sorts.bytes node = mem.bytes node := (same.bytes_eq node).trans bytes
    obtain ⟨b, begins⟩ := Option.ne_none_iff_exists'.mp
      (mt head?_eq_none_iff.mp (wf.labelled atP₀ below))
    have beginsS : (sorts.bytes node).head? = some b := by rw [bytesS, begins]
    rcases remove_cases (ε := ε) (fun other member => wfS.labelled atPS member) beginsS with
      ⟨before, other, after, split, begins', removed⟩ | ⟨lacks, panics⟩
    · -- The one that is taken out is the one that has no item under it.
      have member : other ∈ sorts.childrenOf parent := by simp [split]
      have bareOther : sorts.Bare other := by
        rcases removable bare with ⟨lower, member', begins'', bareLower⟩ | ⟨-, lacks⟩
        · have beginsLower : (sorts.bytes lower).head? = some b := by
            rw [same.bytes_eq, begins'', begins]
          have found := wfS.radix.distinct atPS member (same.mem_childrenOf.mpr member')
            (begins'.trans beginsLower.symm)
          rw [found]
          exact same.bare_iff.mpr bareLower
        · refine absurd ?_ (lacks other (same.mem_childrenOf.mp member))
          rw [← same.bytes_eq, begins', begins]
      have unlink := unlink_setChildren atPS split bareOther
      refine .inl ⟨_, ?_, keeps.trans (unlink.keeps wfS)⟩
      simp only [if_true]
      rw [removed]
      rfl
    · refine .inr ⟨?_, ?_⟩
      · simp only [if_true]
        rw [panics]
        rfl
      · refine ((removable bare).resolve_left ?_).1
        rintro ⟨lower, member, begins', -⟩
        refine lacks lower (same.mem_childrenOf.mpr member) ?_
        rw [same.bytes_eq, begins', begins]

/-- The item of the node itself has no part in whether its removal finds nothing. -/
theorem stranded_of_setItem (wf : mem.WellFormed root) (filled : mem.Filled root)
    (reached : mem.At root key node) {item : Option α}
    (stranded : (mem.setItem node item).Stranded root key) : mem.Stranded root key := by
  obtain ⟨wf', same, -⟩ := setItem_holds wf filled reached item
  have trie {ref} (apart : ref ≠ node) : (mem.setItem node item).trie ref = mem.trie ref := by
    rw [trie_setItem, if_neg apart]
  obtain ⟨path, parent, here, child, atP, atN, alone, only, bareP, bareC, fits, lacks⟩ := stranded
  simp only [same, childrenOf_setItem, bytes_setItem] at atP atN alone only fits lacks
  cases wf.radix.node_eq reached atN
  have below : node ∈ mem.childrenOf parent := by simp [alone]
  have below' : child ∈ mem.childrenOf node := by simp [only]
  rw [trie (wf.radix.child_ne atP below).symm] at bareP
  -- Nothing under the child of the node is the node.
  have bareC : mem.Bare child := (bare_frame (fun deep _ => childrenOf_setItem) fun deep under => by
    rw [trie (wf.under_ne_parent reached below' under)]).mp bareC
  exact ⟨path, parent, node, child, atP, atN, alone, only, bareP, bareC, fits, lacks⟩

/-- A search that ends at a node with an item deletes the item of that node, or panics. -/
theorem delete_node (wf : mem.WellFormed root) {found : Bool}
    (search : (mem.findSubtree root key : Outcome ε _) = .ok ⟨above, node, found, []⟩)
    (parentOf : mem.ParentOf root above node) (reached : mem.At root path node)
    (stored : (mem.trie node).item ≠ none) :
    (∃ mem', (mem.delete root (some key) : Outcome ε _) = .ok (true, mem') ∧ mem'.WellFormed root ∧
      ∀ other value, mem'.Holds root other value ↔ other ≠ path ∧ mem.Holds root other value) ∨
    ((mem.delete root (some key) : Outcome ε _) = .panic ∧ mem.Stranded root path) := by
  have filled := wf.filled reached stored
  obtain ⟨wf', same, holds⟩ := setItem_holds wf filled reached none
  have filled' : (mem.setItem node none).Filled root := by
    rw [Filled, nodePrefix_setItem]
    exact filled
  have bare : ((mem.setItem node none).trie node).item = none := by rw [trie_setItem, if_pos rfl]
  have parentOf' : (mem.setItem node none).ParentOf root above node := by
    cases above with
    | none => exact parentOf
    | some parent =>
      obtain ⟨pathP, atP, below⟩ := parentOf
      exact ⟨pathP, same.mpr atP, by rwa [childrenOf_setItem]⟩
  obtain ⟨merges, compacted, merged⟩ :=
    compactDeleted_merged (ε := ε) wf' filled' (same.mpr reached) parentOf' bare
  have whole : (mem.delete root (some key) : Outcome ε _) =
      merges.removeEmpty above node >>= fun last => .ok (true, last) := by
    rw [delete, if_neg filled]
    simp [search, stored, compacted]
  rw [whole]
  rcases removeEmpty_cases (ε := ε) wf' parentOf' merged with ⟨last, removed, keeps⟩ | ⟨panics, stranded⟩
  · refine .inl ⟨last, by rw [removed]; rfl, keeps.wellFormed, fun other value => ?_⟩
    rw [keeps.holds, holds]
    by_cases here : other = path
    · simp [here]
    · simp [here]
  · exact .inr ⟨by rw [panics]; rfl, stranded_of_setItem wf filled reached stranded⟩

end FlexSwitch.Patricia.Memory
