import FlexSwitch.Patricia.Search

/-! The changes that the calls make to the trie, each of which keeps its shape and what it stores. -/

namespace FlexSwitch.Patricia.Memory

open Go

variable {α : Type} {mem mem' : Memory α} {root parent node child fresh ref : TrieRef}
  {path key : Bytes}

/-- A change of memory that keeps the trie a trie, with the same keys and items in it. -/
structure Keeps (mem mem' : Memory α) (root : TrieRef) : Prop where
  wellFormed : mem'.WellFormed root
  holds : ∀ {key item}, mem'.Holds root key item ↔ mem.Holds root key item

theorem Keeps.trans {last : Memory α} (first : Keeps mem mem' root) (second : Keeps mem' last root) :
    Keeps mem last root :=
  ⟨second.wellFormed, second.holds.trans first.holds⟩

variable (wf : mem.WellFormed root)

section Shape

include wf

theorem WellFormed.blank_only (blank : (mem.trie root).nodePrefix = none)
    (reached : mem.At root path ref) : ref = root := by
  obtain ⟨rest, -, lower⟩ := reached.from_root
  cases lower with
  | refl => rfl
  | @step _ child _ _ first _ =>
    have member : child ∈ mem.childrenOf root := first
    rw [(wf.blank blank).1] at member
    cases member

theorem WellFormed.not_blank (reached : mem.At root path parent)
    (below : child ∈ mem.childrenOf parent) : (mem.trie root).nodePrefix ≠ none := by
  intro blank
  exact wf.radix.child_ne_root reached below (wf.blank_only blank (.step reached below))

/-- Where nothing but the order of children changes, and items as given, the trie stays one. -/
theorem WellFormed.reordered
    (bytes : ∀ ref, (mem'.trie ref).nodePrefix = (mem.trie ref).nodePrefix)
    (children : ∀ ref, (mem'.trie ref).children = (mem.trie ref).children)
    (lists : ∀ list, (mem'.lists.get list).Perm (mem.lists.get list))
    (blank : (mem.trie root).nodePrefix = none → (mem'.trie root).item = none)
    (nodesNext : mem'.nodes.next = mem.nodes.next) (listsNext : mem'.lists.next = mem.lists.next) :
    mem'.WellFormed root ∧ ∀ {path ref}, mem'.At root path ref ↔ mem.At root path ref := by
  have label {path ref} (_ : mem.At root path ref) : mem'.graph.label ref = mem.graph.label ref := by
    simp [graph, Memory.bytes, bytes]
  have next {path ref} (_ : mem.At root path ref) :
      (mem'.graph.next ref).Perm (mem.graph.next ref) := by
    simpa [graph, childrenOf, children] using lists _
  have same {path ref} : mem'.At root path ref ↔ mem.At root path ref :=
    LabelGraph.At.congr label next
  refine ⟨⟨wf.radix.congr label next, fun reached => ?_, fun reached => ?_, ?_, fun bare => ?_⟩, same⟩
  · rw [nodesNext]
    exact wf.allocated (same.mp reached)
  · rw [listsNext, children]
    exact wf.allocatedList (same.mp reached)
  · intro path other one two first second shared
    rw [children, children] at shared
    exact wf.ownList (same.mp first) (same.mp second) shared
  · rw [bytes] at bare
    have none := (wf.blank bare).1
    have perm : (mem'.childrenOf root).Perm (mem.childrenOf root) := next .root
    rw [none] at perm
    exact ⟨perm.eq_nil, blank bare⟩

/-- The trie is kept where every node has the list and the item of an old one, or one a new list. -/
theorem WellFormed.keeps (forth : TrieRef → TrieRef) (novel : TrieRef)
    (radix : mem'.graph.Radix root)
    (allocated : ∀ {path ref}, mem'.At root path ref → ref < mem'.nodes.next)
    (listsNext : mem.lists.next ≤ mem'.lists.next)
    (back : ∀ {path ref}, mem'.At root path ref → (∃ old, mem.At root path old ∧ ref = forth old ∧
        (mem'.trie ref).children = (mem.trie old).children ∧
          (mem'.trie ref).item = (mem.trie old).item) ∨
      ref = novel ∧ (mem'.trie ref).children = mem.lists.next ∧ (mem'.trie ref).item = none ∧
        mem.lists.next < mem'.lists.next)
    (named : (mem'.trie root).nodePrefix ≠ none)
    (onward : ∀ {path ref item}, mem.At root path ref → (mem.trie ref).item = some item →
      mem'.At root path (forth ref) ∧ (mem'.trie (forth ref)).item = some item) :
    Keeps mem mem' root := by
  refine ⟨⟨radix, allocated, fun reached => ?_, ?_, fun blank => absurd blank named⟩, ?_⟩
  · rcases back reached with ⟨old, reached, -, list, -⟩ | ⟨-, list, -, more⟩
    · exact list ▸ (wf.allocatedList reached).trans_le listsNext
    · exact list ▸ more
  · intro path other one two first second shared
    rcases back first with ⟨old, reached, sameOne, list, -⟩ | ⟨sameOne, list, -⟩ <;>
      rcases back second with ⟨old', reached', sameTwo, list', -⟩ | ⟨sameTwo, list', -⟩
    · rw [list, list'] at shared
      rw [sameOne, sameTwo, wf.ownList reached reached' shared]
    -- A new list is the list of no node before.
    · rw [list, list'] at shared
      exact absurd shared (wf.allocatedList reached).ne
    · rw [list, list'] at shared
      exact absurd shared.symm (wf.allocatedList reached').ne
    · rw [sameOne, sameTwo]
  · intro key item
    constructor
    · rintro ⟨ref, reached, stored⟩
      rcases back reached with ⟨old, reached, -, -, items⟩ | ⟨-, -, bare, -⟩
      · exact ⟨old, reached, items ▸ stored⟩
      · rw [bare] at stored
        cases stored
    · rintro ⟨ref, reached, stored⟩
      exact ⟨forth ref, onward reached stored⟩

end Shape

/-- A node's only child takes its place. -/
structure Splice (mem mem' : Memory α) (root parent node child : TrieRef) : Prop where
  reached : ∃ path, mem.At root path parent
  only : mem.childrenOf node = [child]
  bare : (mem.trie node).item = none
  place : ∃ before after, mem.childrenOf parent = before ++ node :: after ∧
    mem'.childrenOf parent = before ++ child :: after
  tries : ∀ ref, mem'.trie ref =
    if ref = child then { mem.trie child with nodePrefix := some (mem.bytes node ++ mem.bytes child) }
    else mem.trie ref
  lists : ∀ list, list ≠ (mem.trie parent).children → mem'.lists.get list = mem.lists.get list
  nodesNext : mem'.nodes.next = mem.nodes.next
  listsNext : mem'.lists.next = mem.lists.next

namespace Splice

variable (change : Splice mem mem' root parent node child)

include change

theorem children (ref : TrieRef) : (mem'.trie ref).children = (mem.trie ref).children := by
  rw [change.tries]
  split
  · rename_i same
    rw [same]
  · rfl

theorem item (ref : TrieRef) : (mem'.trie ref).item = (mem.trie ref).item := by
  rw [change.tries]
  split
  · rename_i same
    rw [same]
  · rfl

include wf

theorem edit : mem.graph.Spliced mem'.graph root parent node child where
  reached := change.reached
  only := change.only
  place := change.place
  label_child := by simp [graph, Memory.bytes, change.tries]
  label := by
    intro path other _ _ otherC
    simp [graph, Memory.bytes, change.tries, otherC]
  next := by
    obtain ⟨pathP, atP⟩ := change.reached
    intro path other reached _ otherP
    have apart : (mem.trie other).children ≠ (mem.trie parent).children := fun shared =>
      otherP (wf.ownList reached atP shared)
    simp only [graph, childrenOf, change.children]
    exact change.lists _ apart

theorem at_iff : mem'.At root path ref ↔ mem.At root path ref ∧ ref ≠ node :=
  (change.edit wf).at_iff wf.radix

theorem keeps : Keeps mem mem' root := by
  have edit := change.edit wf
  obtain ⟨pathP, atP⟩ := change.reached
  have atN := LabelGraph.At.step atP edit.mem_parent
  have rootC : root ≠ child := (wf.radix.child_ne_root atN edit.mem_only).symm
  have was {path ref} (reached : mem'.At root path ref) : mem.At root path ref :=
    ((change.at_iff wf).mp reached).1
  refine wf.keeps id root (edit.radix wf.radix) (fun reached => ?_) change.listsNext.ge
    (fun {_ ref} reached => .inl ⟨ref, was reached, rfl, change.children ref, change.item ref⟩) ?_
    fun {path ref item} reached stored => ?_
  · rw [change.nodesNext]
    exact wf.allocated (was reached)
  · rw [change.tries, if_neg rootC]
    exact wf.not_blank atP edit.mem_parent
  · have refN : ref ≠ node := by
      rintro rfl
      rw [change.bare] at stored
      cases stored
    exact ⟨(change.at_iff wf).mpr ⟨reached, refN⟩, (change.item ref).trans stored⟩

end Splice

/-- A node takes over the bytes, the item and the children of its only child. -/
structure Absorb (mem mem' : Memory α) (root node child : TrieRef) : Prop where
  reached : ∃ path, mem.At root path node
  only : mem.childrenOf node = [child]
  bare : (mem.trie node).item = none
  node_eq : mem'.trie node =
    { mem.trie child with nodePrefix := some (mem.bytes node ++ mem.bytes child) }
  tries : ∀ ref, ref ≠ node → ref ≠ child → mem'.trie ref = mem.trie ref
  lists : mem'.lists = mem.lists
  nodesNext : mem'.nodes.next = mem.nodes.next

namespace Absorb

variable (change : Absorb mem mem' root node child)

include change

theorem edit : mem.graph.Absorbed mem'.graph root node child where
  reached := change.reached
  only := change.only
  label_node := by simp [graph, Memory.bytes, change.node_eq]
  next_node := by simp [graph, childrenOf, change.node_eq, change.lists]
  label := by
    intro path other _ otherN otherC
    simp [graph, Memory.bytes, change.tries other otherN otherC]
  next := by
    intro path other _ otherN otherC
    simp [graph, childrenOf, change.tries other otherN otherC, change.lists]

include wf

/-- The node is reached where its child was, and every other node as before. -/
theorem at_iff : mem'.At root path ref ↔
      (mem.At root path ref ∧ ref ≠ node ∧ ref ≠ child) ∨ (ref = node ∧ mem.At root path child) :=
  change.edit.at_iff wf.radix

/-- The node takes over the item of its child, so nothing stored is lost. -/
theorem keeps : Keeps mem mem' root := by
  have edit := change.edit
  obtain ⟨pathN, atN⟩ := change.reached
  refine wf.keeps (Function.update id child node) root (edit.radix wf.radix) (fun reached => ?_)
    (change.lists ▸ le_refl _) (fun reached => .inl ?_) ?_ fun {path ref item} reached stored => ?_
  · rw [change.nodesNext]
    rcases (change.at_iff wf).mp reached with ⟨reached, -, -⟩ | ⟨rfl, -⟩
    · exact wf.allocated reached
    · exact wf.allocated atN
  · rcases (change.at_iff wf).mp reached with ⟨reached, refN, refC⟩ | ⟨rfl, reached⟩
    · exact ⟨_, reached, by simp [refC], by rw [change.tries _ refN refC],
        by rw [change.tries _ refN refC]⟩
    · exact ⟨child, reached, by simp, by rw [change.node_eq], by rw [change.node_eq]⟩
  · by_cases rootN : root = node
    · simp [rootN, change.node_eq]
    · have rootC : root ≠ child := (wf.radix.child_ne_root atN edit.mem_only).symm
      rw [change.tries root rootN rootC]
      exact wf.not_blank atN edit.mem_only
  · have refN : ref ≠ node := by
      rintro rfl
      rw [change.bare] at stored
      cases stored
    by_cases refC : ref = child
    · subst refC
      rw [Function.update_self, change.node_eq]
      exact ⟨(change.at_iff wf).mpr (.inr ⟨rfl, reached⟩), stored⟩
    · rw [Function.update_of_ne refC, id, change.tries ref refN refC]
      exact ⟨(change.at_iff wf).mpr (.inl ⟨reached, refN, refC⟩), stored⟩

end Absorb

/-- A node is split: a new child takes the end of its bytes, its item and its children. -/
structure Push (mem mem' : Memory α) (root node fresh : TrieRef) (common : Nat) : Prop where
  reached : ∃ path, mem.At root path node
  inside : common < (mem.bytes node).length
  begins : node ≠ root → 0 < common
  unused : mem.nodes.next ≤ fresh
  below : fresh < mem'.nodes.next
  node_eq : mem'.trie node = ⟨some ((mem.bytes node).take common), none, mem.lists.next⟩
  fresh_eq : mem'.trie fresh = { mem.trie node with nodePrefix := some ((mem.bytes node).drop common) }
  tries : ∀ ref, ref < mem.nodes.next → ref ≠ node → mem'.trie ref = mem.trie ref
  list_eq : mem'.lists.get mem.lists.next = [fresh]
  lists : ∀ list, list < mem.lists.next → mem'.lists.get list = mem.lists.get list
  nodesNext : mem.nodes.next ≤ mem'.nodes.next
  listsNext : mem.lists.next < mem'.lists.next

namespace Push

variable {common : Nat} (change : Push mem mem' root node fresh common)

include change wf

theorem edit : mem.graph.Pushed mem'.graph root node fresh ((mem.bytes node).take common)
      ((mem.bytes node).drop common) := by
  obtain ⟨pathN, atN⟩ := change.reached
  have old {path other} (reached : mem.At root path other) (otherN : other ≠ node) :
      mem'.trie other = mem.trie other := change.tries other (wf.allocated reached) otherN
  exact {
    unused := fun path reached => not_lt.mpr change.unused (wf.allocated reached)
    label_eq := (List.take_append_drop common _).symm
    moved_ne := by
      have inside := change.inside
      intro nothing
      have all := List.drop_eq_nil_iff.mp nothing
      omega
    kept_ne := fun nodeR nothing => by
      have begins := change.begins nodeR
      have inside := change.inside
      have short := congrArg List.length nothing
      rw [List.length_take, List.length_nil] at short
      omega
    label_node := by simp [graph, Memory.bytes, change.node_eq]
    next_node := by simp [graph, childrenOf, change.node_eq, change.list_eq]
    label_fresh := by simp [graph, Memory.bytes, change.fresh_eq]
    next_fresh := by
      simp only [graph, childrenOf, change.fresh_eq]
      exact change.lists _ (wf.allocatedList atN)
    label := fun reached otherN => by simp [graph, Memory.bytes, old reached otherN]
    next := fun reached otherN => by
      simp only [graph, childrenOf, old reached otherN]
      exact change.lists _ (wf.allocatedList reached) }

/-- The new child is reached where the node was, and the node by the shorter path. -/
theorem at_iff : mem'.At root path ref ↔
      (mem.At root path ref ∧ ref ≠ node) ∨ (ref = fresh ∧ mem.At root path node) ∨
        (ref = node ∧ mem.At root (path ++ (mem.bytes node).drop common) node) :=
  (change.edit wf).at_iff wf.radix

theorem keeps : Keeps mem mem' root := by
  obtain ⟨pathN, atN⟩ := change.reached
  refine wf.keeps (Function.update id node fresh) node ((change.edit wf).radix wf.radix)
    (fun reached => ?_) change.listsNext.le (fun reached => ?_) ?_
    fun {path ref item} reached stored => ?_
  · rcases (change.at_iff wf).mp reached with ⟨reached, -⟩ | ⟨rfl, -⟩ | ⟨rfl, -⟩
    · exact (wf.allocated reached).trans_le change.nodesNext
    · exact change.below
    · exact (wf.allocated atN).trans_le change.nodesNext
  · rcases (change.at_iff wf).mp reached with ⟨reached, refN⟩ | ⟨rfl, reached⟩ | ⟨rfl, -⟩
    · have same := change.tries _ (wf.allocated reached) refN
      exact .inl ⟨_, reached, by simp [refN], by rw [same], by rw [same]⟩
    · exact .inl ⟨node, reached, by simp, by rw [change.fresh_eq], by rw [change.fresh_eq]⟩
    · exact .inr ⟨rfl, by rw [change.node_eq], by rw [change.node_eq], change.listsNext⟩
  · by_cases rootN : root = node
    · simp [rootN, change.node_eq]
    · rw [change.tries root (wf.allocated .root) rootN]
      exact fun blank => rootN (wf.blank_only blank atN).symm
  · by_cases refN : ref = node
    · subst refN
      rw [Function.update_self, change.fresh_eq]
      exact ⟨(change.at_iff wf).mpr (.inr (.inl ⟨rfl, reached⟩)), stored⟩
    · rw [Function.update_of_ne refN, id, change.tries ref (wf.allocated reached) refN]
      exact ⟨(change.at_iff wf).mpr (.inl ⟨reached, refN⟩), stored⟩

end Push

/-- A node gets a new child, with neither item nor children. -/
structure Append (mem mem' : Memory α) (root node fresh : TrieRef) (bytes : Bytes) : Prop where
  reached : ∃ path, mem.At root path node
  unused : mem.nodes.next ≤ fresh
  below : fresh < mem'.nodes.next
  named : bytes ≠ []
  apart : ∀ other, other ∈ mem.childrenOf node → (mem.bytes other).head? ≠ bytes.head?
  notBlank : (mem.trie root).nodePrefix ≠ none
  fresh_eq : mem'.trie fresh = ⟨some bytes, none, mem.lists.next⟩
  tries : ∀ ref, ref < mem.nodes.next → mem'.trie ref = mem.trie ref
  list_eq : mem'.lists.get mem.lists.next = []
  node_list : mem'.lists.get (mem.trie node).children = mem.childrenOf node ++ [fresh]
  lists : ∀ list, list < mem.lists.next → list ≠ (mem.trie node).children →
    mem'.lists.get list = mem.lists.get list
  nodesNext : mem.nodes.next ≤ mem'.nodes.next
  listsNext : mem.lists.next < mem'.lists.next

namespace Append

variable {bytes : Bytes} (change : Append mem mem' root node fresh bytes)

include change wf

theorem edit : mem.graph.Appended mem'.graph root node fresh := by
  obtain ⟨pathN, atN⟩ := change.reached
  have old {path other} (reached : mem.At root path other) : mem'.trie other = mem.trie other :=
    change.tries other (wf.allocated reached)
  have label : mem'.bytes fresh = bytes := by simp [Memory.bytes, change.fresh_eq]
  exact {
    unused := fun path reached => not_lt.mpr change.unused (wf.allocated reached)
    labelled := by
      rw [show mem'.graph.label fresh = bytes from label]
      exact change.named
    apart := by
      rw [show mem'.graph.label fresh = bytes from label]
      exact change.apart
    next_node := by
      simp only [graph]
      rw [childrenOf, old atN, change.node_list]
    next_fresh := by simp [graph, childrenOf, change.fresh_eq, change.list_eq]
    label := fun reached => by simp [graph, Memory.bytes, old reached]
    next := fun reached otherN => by
      simp only [graph, childrenOf, old reached]
      exact change.lists _ (wf.allocatedList reached) fun shared =>
        otherN (wf.ownList reached atN shared) }

theorem at_iff : mem'.At root path ref ↔ mem.At root path ref ∨
        (ref = fresh ∧ ∃ above, mem.At root above node ∧ path = above ++ bytes) := by
  have label : mem'.graph.label fresh = bytes := by
    simp [graph, Memory.bytes, change.fresh_eq]
  rw [← label]
  exact (change.edit wf).at_iff

theorem keeps : Keeps mem mem' root := by
  have old {path other} (reached : mem.At root path other) : mem'.trie other = mem.trie other :=
    change.tries other (wf.allocated reached)
  refine wf.keeps id fresh ((change.edit wf).radix wf.radix) (fun reached => ?_) change.listsNext.le
    (fun reached => ?_) ?_ fun reached stored => ⟨(change.at_iff wf).mpr (.inl reached), ?_⟩
  · rcases (change.at_iff wf).mp reached with reached | ⟨rfl, -⟩
    · exact (wf.allocated reached).trans_le change.nodesNext
    · exact change.below
  · rcases (change.at_iff wf).mp reached with reached | ⟨rfl, -⟩
    · exact .inl ⟨_, reached, rfl, by rw [old reached], by rw [old reached]⟩
    · exact .inr ⟨rfl, by rw [change.fresh_eq], by rw [change.fresh_eq], change.listsNext⟩
  · rw [old .root]
    exact change.notBlank
  · rw [id, old reached, stored]

end Append

/-- A node with no item at it or below it is taken out of the children of its parent. -/
structure Unlink (mem mem' : Memory α) (root parent node : TrieRef) : Prop where
  reached : ∃ path, mem.At root path parent
  place : ∃ before after, mem.childrenOf parent = before ++ node :: after ∧
    mem'.childrenOf parent = before ++ after
  bare : ∀ rest ref, mem.graph.Below node rest ref → (mem.trie ref).item = none
  tries : mem'.nodes = mem.nodes
  lists : ∀ list, list ≠ (mem.trie parent).children → mem'.lists.get list = mem.lists.get list
  listsNext : mem'.lists.next = mem.lists.next

namespace Unlink

variable (change : Unlink mem mem' root parent node)

include change

theorem trie_eq (ref : TrieRef) : mem'.trie ref = mem.trie ref := by rw [trie, change.tries, trie]

include wf

theorem edit : mem.graph.Unlinked mem'.graph root parent node where
  reached := change.reached
  place := change.place
  label := fun _ => by simp [graph, Memory.bytes, change.trie_eq]
  next := fun reached otherP => by
    obtain ⟨pathP, atP⟩ := change.reached
    simp only [graph, childrenOf, change.trie_eq]
    exact change.lists _ fun shared => otherP (wf.ownList reached atP shared)

/-- What is not below the node is reached as before, and nothing else is. -/
theorem at_iff :
    mem'.At root path ref ↔ mem.At root path ref ∧ ∀ rest, ¬mem.graph.Below node rest ref :=
  (change.edit wf).at_iff wf.radix

theorem keeps : Keeps mem mem' root := by
  obtain ⟨pathP, atP⟩ := change.reached
  have was {path ref} (reached : mem'.At root path ref) : mem.At root path ref :=
    ((change.at_iff wf).mp reached).1
  refine wf.keeps id root ((change.edit wf).radix wf.radix) (fun reached => ?_) change.listsNext.ge
    (fun {_ ref} reached => .inl ⟨ref, was reached, rfl, ?_⟩) ?_
    fun {path ref item} reached stored => ⟨(change.at_iff wf).mpr ⟨reached, fun rest lower => ?_⟩, ?_⟩
  · rw [change.tries]
    exact wf.allocated (was reached)
  · rw [change.trie_eq]
    exact ⟨rfl, rfl⟩
  · rw [change.trie_eq]
    exact wf.not_blank atP (change.edit wf).mem_parent
  · rw [change.bare rest ref lower] at stored
    cases stored
  · rw [id, change.trie_eq, stored]

end Unlink

end FlexSwitch.Patricia.Memory
