import FlexSwitch.Patricia.Edits

/-! Putting an item into the trie: the node of its key is found or made, and gets the item. -/

namespace FlexSwitch.Patricia.Memory

open Go List

variable {ε α : Type} {mem mem' : Memory α} {root node child ref : TrieRef} {path key : Bytes}

/-- What compaction can do: nothing, or give its bytes to the only child. -/
theorem compact_cases (mem : Memory α) (ref : TrieRef) : mem.compact ref = (ref, mem) ∨
      ∃ child, mem.childrenOf ref = [child] ∧ (mem.trie ref).item = none ∧
        (mem.trie child).item = none ∧
        (mem.bytes ref).length + (mem.bytes child).length ≤ defaultMaxPrefixPerNode ∧
        mem.compact ref = (child, mem.setPrefix child
          (appendPrefix (mem.trie ref).nodePrefix (mem.trie child).nodePrefix)) := by
  rw [compact]
  split
  · rename_i child only
    by_cases stored : (mem.trie ref).item.isSome ∨ (mem.trie child).item.isSome
    · exact .inl (if_pos stored)
    · by_cases long : (mem.bytes ref).length + (mem.bytes child).length > defaultMaxPrefixPerNode
      · rw [if_neg stored]
        exact .inl (if_pos long)
      · rw [if_neg stored, if_neg long]
        simp only [not_or, Bool.not_eq_true, Option.isSome_eq_false_iff,
          Option.isNone_iff_eq_none] at stored
        exact .inr ⟨child, only, stored.1, stored.2, by omega, rfl⟩
  · exact .inl rfl

theorem appendPrefix_eq {left : TrieRef} (named : (mem.trie left).nodePrefix ≠ none)
    (right : Option Bytes) :
    appendPrefix (mem.trie left).nodePrefix right = some (mem.bytes left ++ right.getD []) := by
  rw [appendPrefix, if_neg fun both => named both.1]
  rfl

/-- A trie that is only a root. -/
theorem wellFormed_leaf (bare : mem.childrenOf root = []) (known : root < mem.nodes.next)
    (knownList : (mem.trie root).children < mem.lists.next)
    (blank : (mem.trie root).nodePrefix = none → (mem.trie root).item = none) :
    mem.WellFormed root ∧ ∀ {path ref}, mem.At root path ref ↔ ref = root ∧ path = mem.bytes root := by
  have only {path ref} : mem.At root path ref ↔ ref = root ∧ path = mem.bytes root := by
    constructor
    · intro reached
      induction reached with
      | root => exact ⟨rfl, rfl⟩
      | step above below ih =>
        have member : _ ∈ mem.childrenOf _ := below
        rw [ih.1, bare] at member
        cases member
    · rintro ⟨rfl, rfl⟩
      exact .root
  have none {path ref child} (reached : mem.At root path ref) : child ∉ mem.childrenOf ref := by
    rw [(only.mp reached).1, bare]
    exact not_mem_nil
  refine ⟨⟨⟨?_, ?_, ?_, ?_⟩, ?_, ?_, ?_, fun noBytes => ⟨bare, blank noBytes⟩⟩, only⟩
  · intro path ref child reached below
    exact absurd below (none reached)
  · intro path ref one other reached first
    exact absurd first (none reached)
  · intro path other ref first second
    rw [(only.mp first).2, (only.mp second).2]
  · intro path ref reached
    show (mem.childrenOf ref).Nodup
    rw [(only.mp reached).1, bare]
    exact nodup_nil
  · intro path ref reached
    rwa [(only.mp reached).1]
  · intro path ref reached
    rwa [(only.mp reached).1]
  · intro path other one two first second _
    rw [(only.mp first).1, (only.mp second).1]

/-- The root has bytes, even if none. -/
def Filled (mem : Memory α) (root : TrieRef) : Prop := (mem.trie root).nodePrefix ≠ none

theorem WellFormed.filled (wf : mem.WellFormed root) (reached : mem.At root path ref)
    (stored : (mem.trie ref).item ≠ none) : mem.Filled root := by
  intro blank
  rw [wf.blank_only blank reached] at stored
  exact stored (wf.blank blank).2

section split

variable {common : Nat}

/-- The nodes after a split, before the new one is made a child. -/
theorem trie_splitOff (known : node < mem.nodes.next) (ref : TrieRef) :
    (mem.splitOff node common).2.trie ref = if ref = mem.nodes.next then
        { mem.trie node with nodePrefix := some ((mem.bytes node).drop common) }
      else if ref = node then ⟨some ((mem.bytes node).take common), none, mem.lists.next⟩
      else if ref = mem.nodes.next + 1 then ⟨none, none, mem.lists.next⟩
      else mem.trie ref := by
  have apart : mem.nodes.next ≠ node := known.ne'
  have copied : (mem.newNode (mem.trie node)).2.newTrie.2.trie mem.nodes.next = mem.trie node := by
    rw [trie_newTrie]
    simp [newNode, trie, Heap.get_alloc]
  have blank : (mem.newNode (mem.trie node)).2.newTrie.2.trie (mem.nodes.next + 1) =
      ⟨none, none, mem.lists.next⟩ := by
    rw [trie_newTrie]
    simp [newNode]
  have others {ref} (refC : ref ≠ mem.nodes.next) (refB : ref ≠ mem.nodes.next + 1) :
      (mem.newNode (mem.trie node)).2.newTrie.2.trie ref = mem.trie ref := by
    rw [trie_newTrie]
    simp [newNode, refB, trie, Heap.get_alloc, refC]
  have child : (mem.newNode (mem.trie node)).1 = mem.nodes.next := rfl
  have fresh : (mem.newNode (mem.trie node)).2.newTrie.1 = mem.nodes.next + 1 := rfl
  simp only [splitOff, child, fresh, trie_setPrefix, trie_write, Memory.bytes, copied, blank,
    if_neg apart]
  by_cases refC : ref = mem.nodes.next
  · simp [refC]
  by_cases refN : ref = node
  · simp [refN, apart.symm]
  by_cases refB : ref = mem.nodes.next + 1
  · simp [refB, blank]
  · simp [refC, refN, refB, others]

theorem lists_splitOff : (mem.splitOff node common).2.lists = mem.lists.alloc [] := rfl

theorem nodesNext_splitOff : (mem.splitOff node common).2.nodes.next = mem.nodes.next + 2 := rfl

/-- The node that was split has the new list, with nothing in it yet. -/
theorem childrenOf_splitOff (known : node < mem.nodes.next) :
    (mem.splitOff node common).2.childrenOf node = [] := by
  rw [childrenOf, trie_splitOff known, if_neg known.ne, if_pos rfl, lists_splitOff, Heap.get_alloc,
    if_pos rfl]

/-- Splitting a node pushes the rest of its bytes down to a new child. -/
theorem push_splitOff (wf : mem.WellFormed root) (reached : mem.At root path node)
    (inside : common < (mem.bytes node).length) (begins : node ≠ root → 0 < common) :
    Push mem ((mem.splitOff node common).2.add node mem.nodes.next) root node mem.nodes.next
      common := by
  have known := wf.allocated reached
  have list : ((mem.splitOff node common).2.trie node).children = mem.lists.next := by
    rw [trie_splitOff known, if_neg known.ne, if_pos rfl]
  have lists {other} : ((mem.splitOff node common).2.add node mem.nodes.next).lists.get other =
      if other = mem.lists.next then [mem.nodes.next] else mem.lists.get other := by
    rw [add, lists_setChildren, list, childrenOf_splitOff known, lists_splitOff, Heap.get_alloc]
    split <;> rfl
  exact {
    reached := ⟨path, reached⟩
    inside := inside
    begins := begins
    unused := le_rfl
    below := by
      show mem.nodes.next < mem.nodes.next + 2
      omega
    node_eq := by rw [trie_add, trie_splitOff known, if_neg known.ne, if_pos rfl]
    fresh_eq := by rw [trie_add, trie_splitOff known, if_pos rfl]
    tries := fun ref refKnown refN => by
      have refB : ref ≠ mem.nodes.next + 1 := by omega
      rw [trie_add, trie_splitOff known, if_neg refKnown.ne, if_neg refN, if_neg refB]
    list_eq := by rw [lists, if_pos rfl]
    lists := fun list listKnown => by rw [lists, if_neg listKnown.ne]
    nodesNext := by
      show mem.nodes.next ≤ mem.nodes.next + 2
      omega
    listsNext := Nat.lt_succ_self _ }

/-- When the new node has a single child, giving its bytes on to it is a splice. -/
theorem splice_splitOff (wf : mem.WellFormed root) (reached : mem.At root path node)
    (reached' : ((mem.splitOff node common).2.add node mem.nodes.next).At root key node)
    (only : (mem.splitOff node common).2.childrenOf mem.nodes.next = [child])
    (bare : ((mem.splitOff node common).2.trie mem.nodes.next).item = none) :
    Splice ((mem.splitOff node common).2.add node mem.nodes.next)
      (((mem.splitOff node common).2.setPrefix child
        (appendPrefix ((mem.splitOff node common).2.trie mem.nodes.next).nodePrefix
          ((mem.splitOff node common).2.trie child).nodePrefix)).add node child)
      root node mem.nodes.next child := by
  have known := wf.allocated reached
  have list : ((mem.splitOff node common).2.trie node).children = mem.lists.next := by
    rw [trie_splitOff known, if_neg known.ne, if_pos rfl]
  have nothing : (mem.splitOff node common).2.childrenOf node = [] := childrenOf_splitOff known
  have ownList : ((mem.splitOff node common).2.trie mem.nodes.next).children ≠
      ((mem.splitOff node common).2.trie node).children := by
    rw [list, trie_splitOff known, if_pos rfl]
    exact (wf.allocatedList reached).ne
  have named : ((mem.splitOff node common).2.trie mem.nodes.next).nodePrefix ≠ none := by
    rw [trie_splitOff known, if_pos rfl]
    exact Option.some_ne_none _
  generalize (mem.splitOff node common).2 = split at *
  have keeps {bytes} : ((split.setPrefix child bytes).trie node).children =
      (split.trie node).children := by
    rw [trie_setPrefix]
    by_cases same : node = child
    · rw [if_pos same, same]
    · rw [if_neg same]
  have nothing' {bytes} : (split.setPrefix child bytes).childrenOf node = [] := by
    rw [childrenOf, keeps]
    exact nothing
  exact {
    reached := ⟨key, reached'⟩
    only := by
      rw [childrenOf, trie_add, add, lists_setChildren, if_neg ownList]
      exact only
    bare := bare
    place := ⟨[], [], by
      rw [childrenOf, trie_add, add, lists_setChildren, if_pos rfl, nothing], by
      rw [childrenOf, trie_add, add, lists_setChildren, if_pos rfl, nothing']⟩
    tries := fun ref => by
      rw [trie_add, trie_setPrefix, appendPrefix_eq named]
      rfl
    lists := fun other apart => by
      have apart : other ≠ (split.trie node).children := apart
      rw [add, lists_setChildren, keeps, if_neg apart, add, lists_setChildren, if_neg apart]
      rfl
    nodesNext := rfl
    listsNext := rfl }

/--
A split keeps what the trie stores, and leaves the node at the common part.

Its one child goes on with the byte that follows the common part.
-/
theorem splitPrefix_keeps (wf : mem.WellFormed root) {above : Bytes}
    (reached : mem.At root (above ++ mem.bytes node) node)
    (inside : common < (mem.bytes node).length) (begins : node ≠ root → 0 < common) :
    Keeps mem (mem.splitPrefix node common) root ∧ (mem.splitPrefix node common).Filled root ∧
      (mem.splitPrefix node common).At root (above ++ (mem.bytes node).take common) node ∧
      ∀ child, child ∈ (mem.splitPrefix node common).childrenOf node →
        ((mem.splitPrefix node common).bytes child).head? = ((mem.bytes node).drop common).head? := by
  have known := wf.allocated reached
  have push := push_splitOff wf reached inside begins
  have edit := push.edit wf
  have wf' := (push.keeps wf).wellFormed
  have atNode : ((mem.splitOff node common).2.add node mem.nodes.next).At root
      (above ++ (mem.bytes node).take common) node := by
    refine (push.at_iff wf).mpr (.inr (.inr ⟨rfl, ?_⟩))
    rwa [append_assoc, take_append_drop]
  rcases compact_cases (mem.splitOff node common).2 mem.nodes.next with
    same | ⟨child, only, bare, -, -, compacted⟩
  · have whole : mem.splitPrefix node common =
        (mem.splitOff node common).2.add node mem.nodes.next := by
      show ((mem.splitOff node common).2.compact mem.nodes.next).2.add node
        ((mem.splitOff node common).2.compact mem.nodes.next).1 = _
      rw [same]
    rw [whole]
    have list : ((mem.splitOff node common).2.add node mem.nodes.next).childrenOf node =
        [mem.nodes.next] := edit.next_node
    have first := mem_singleton_self mem.nodes.next
    rw [← list] at first
    refine ⟨push.keeps wf, wf'.not_blank atNode first, atNode, fun child below => ?_⟩
    rw [list, mem_singleton] at below
    rw [below]
    exact congrArg head? edit.label_fresh
  · -- The new node gives its bytes on to the one child it has, which takes its place.
    have whole : mem.splitPrefix node common = ((mem.splitOff node common).2.setPrefix child
        (appendPrefix ((mem.splitOff node common).2.trie mem.nodes.next).nodePrefix
          ((mem.splitOff node common).2.trie child).nodePrefix)).add node child := by
      show ((mem.splitOff node common).2.compact mem.nodes.next).2.add node
        ((mem.splitOff node common).2.compact mem.nodes.next).1 = _
      rw [compacted]
    have splice := splice_splitOff wf reached atNode only bare
    rw [← whole] at splice
    have moved : ((mem.splitOff node common).2.add node mem.nodes.next).bytes mem.nodes.next =
        (mem.bytes node).drop common := edit.label_fresh
    have atNode' := (splice.at_iff wf').mpr ⟨atNode, known.ne⟩
    have first := ((splice.edit wf').mem_next_parent wf'.radix).mpr (.inl rfl)
    refine ⟨(push.keeps wf).trans (splice.keeps wf'),
      (splice.keeps wf').wellFormed.not_blank atNode' first, atNode', fun other below => ?_⟩
    · have one := ((splice.edit wf').mem_next_parent wf'.radix).mp below
      have lacks : ¬(other ∈ [mem.nodes.next] ∧ other ≠ mem.nodes.next) := by simp
      rw [edit.next_node] at one
      rw [one.resolve_right lacks]
      have head := (splice.edit wf').head_child wf'.radix
      exact head.trans (congrArg head? moved)

end split

/-- A node that came to be at the path of a key, with everything stored as it was. -/
structure Placed (mem mem' : Memory α) (root : TrieRef) (key : Bytes) (node : TrieRef) : Prop where
  keeps : Keeps mem mem' root
  filled : mem'.Filled root
  reached : mem'.At root key node

variable (wf : mem.WellFormed root)

include wf

section Piece

variable (filled : mem.Filled root) (reached : mem.At root path node) {bytes : Bytes}
  (named : bytes ≠ [])
  (apart : ∀ other, other ∈ mem.childrenOf node → (mem.bytes other).head? ≠ bytes.head?)

include filled reached named apart

/-- A new child with the given bytes. -/
theorem append_newTrie :
    Append mem ((mem.newTrie.2.setPrefix mem.newTrie.1 (some bytes)).add node mem.newTrie.1) root
      node mem.newTrie.1 bytes := by
  have known := wf.allocated reached
  have knownList := wf.allocatedList reached
  have child : mem.newTrie.1 = mem.nodes.next := rfl
  rw [child]
  have tries {ref} (refKnown : ref < mem.nodes.next) :
      (mem.newTrie.2.setPrefix mem.nodes.next (some bytes)).trie ref = mem.trie ref := by
    rw [trie_setPrefix, if_neg refKnown.ne, trie_newTrie, if_neg refKnown.ne]
  have lists {other} : ((mem.newTrie.2.setPrefix mem.nodes.next (some bytes)).add node
      mem.nodes.next).lists.get other =
        if other = (mem.trie node).children then mem.childrenOf node ++ [mem.nodes.next]
        else if other = mem.lists.next then [] else mem.lists.get other := by
    rw [add, lists_setChildren, tries known, lists_setPrefix, lists_newTrie, childrenOf, tries known,
      lists_setPrefix, lists_newTrie, if_neg knownList.ne]
    rfl
  exact {
    reached := ⟨path, reached⟩
    unused := le_rfl
    below := Nat.lt_succ_self _
    named := named
    apart := apart
    notBlank := filled
    fresh_eq := by rw [trie_add, trie_setPrefix, if_pos rfl, trie_newTrie, if_pos rfl]
    tries := fun ref refKnown => by rw [trie_add, tries refKnown]
    list_eq := by rw [lists, if_neg knownList.ne', if_pos rfl]
    node_list := by rw [lists, if_pos rfl]
    lists := fun list listKnown apart => by rw [lists, if_neg apart, if_neg listKnown.ne]
    nodesNext := Nat.le_succ _
    listsNext := Nat.lt_succ_self _ }

/-- One piece of a key: the new child is at the path with the piece, and has no children. -/
theorem append_placed :
    Placed mem ((mem.newTrie.2.setPrefix mem.newTrie.1 (some bytes)).add node mem.newTrie.1) root
        (path ++ bytes) mem.newTrie.1 ∧
      ((mem.newTrie.2.setPrefix mem.newTrie.1 (some bytes)).add node mem.newTrie.1).childrenOf
        mem.newTrie.1 = [] := by
  have append := append_newTrie wf filled reached named apart
  refine ⟨⟨append.keeps wf, ?_, ?_⟩, (append.edit wf).next_fresh⟩
  · rw [Filled, append.tries root (wf.allocated .root)]
    exact filled
  · exact (append.at_iff wf).mpr (.inr ⟨rfl, path, reached, rfl⟩)

end Piece

/-- The pieces of the key make a way to a new node for it. -/
theorem appendChild_placed {fuel : Nat} (filled : mem.Filled root) (reached : mem.At root path node)
    (apart : ∀ other, other ∈ mem.childrenOf node → (mem.bytes other).head? ≠ key.head?)
    (enough : key.length ≤ fuel) :
    ∃ node' mem', (appendChild fuel mem node key : Outcome ε _) = .ok (node', mem') ∧
      Placed mem mem' root (path ++ key) node' := by
  induction fuel generalizing mem node key path with
  | zero =>
    have nothing : key = [] := eq_nil_of_length_eq_zero (by omega)
    subst nothing
    rw [append_nil]
    exact ⟨node, mem, rfl, ⟨wf, Iff.rfl⟩, filled, reached⟩
  | succ fuel ih =>
    cases key with
    | nil =>
      rw [append_nil]
      exact ⟨node, mem, rfl, ⟨wf, Iff.rfl⟩, filled, reached⟩
    | cons b more =>
      rw [appendChild]
      by_cases short : (b :: more).length ≤ defaultMaxPrefixPerNode
      · -- What is left fits into one node.
        have placed := (append_placed wf filled reached (cons_ne_nil b more) apart).1
        exact ⟨_, _, if_pos short, placed⟩
      · have first : ((b :: more).take defaultMaxPrefixPerNode).head? = (b :: more).head? := rfl
        have named : (b :: more).take defaultMaxPrefixPerNode ≠ [] := cons_ne_nil _ _
        obtain ⟨placed, bare⟩ := append_placed wf filled reached named apart
        have enough' : ((b :: more).drop defaultMaxPrefixPerNode).length ≤ fuel := by
          rw [length_drop, length_cons, defaultMaxPrefixPerNode]
          rw [length_cons] at enough
          omega
        obtain ⟨node', mem', appended, last⟩ :=
          ih placed.keeps.wellFormed placed.filled placed.reached (fun other below => by
            rw [bare] at below
            cases below) enough'
        rw [append_assoc, take_append_drop] at last
        exact ⟨node', mem', (if_neg short).trans appended, placed.keeps.trans last.keeps,
          last.filled, last.reached⟩

/-- The loop of `put` comes to a node for the key. -/
theorem putLoop_placed {above rest : Bytes} {fuel : Nat}
    (filled : mem.Filled root) (reached : mem.At root (above ++ mem.bytes ref) ref)
    (begins : ref ≠ root → 0 < longestCommonPrefixLength (mem.bytes ref) rest)
    (enough : (rest.drop (longestCommonPrefixLength (mem.bytes ref) rest)).length < fuel) :
    ∃ node' mem', (putLoop fuel mem ref rest : Outcome ε _) = .ok (node', mem') ∧
      Placed mem mem' root (above ++ rest) node' := by
  induction fuel generalizing ref above rest with
  | zero => omega
  | succ fuel ih =>
    rw [putLoop]
    by_cases inside : longestCommonPrefixLength (mem.bytes ref) rest < (mem.bytes ref).length
    · -- The key leaves the node inside its bytes, where the node is split.
      obtain ⟨keeps, filled', reached', goesOn⟩ := splitPrefix_keeps wf reached inside begins
      have apart := (longestCommonPrefixLength_parts (mem.bytes ref) rest).resolve_right fun both => by
        have all := drop_eq_nil_iff.mp both.1
        omega
      rw [longestCommonPrefixLength_take] at reached'
      obtain ⟨node', mem', appended, placed⟩ := appendChild_placed (ε := ε) keeps.wellFormed filled'
        reached' (fun other below => by rw [goesOn other below]; exact apart) le_rfl
      rw [append_assoc, take_append_drop] at placed
      exact ⟨node', mem', (if_pos inside).trans appended, keeps.trans placed.keeps, placed.filled,
        placed.reached⟩
    · obtain ⟨whole, split⟩ := eq_append_of_longestCommonPrefixLength inside
      simp only [if_neg inside]
      cases left : rest.drop _ with
      | nil =>
        rw [left, append_nil] at split
        rw [split]
        exact ⟨ref, mem, rfl, ⟨wf, Iff.rfl⟩, filled, reached⟩
      | cons b more =>
        rw [left] at split enough
        show ∃ node' mem', (mem.next b (mem.childrenOf ref) >>= _) = _ ∧ _
        rw [next_eq fun _ member => wf.labelled reached member]
        have whole : above ++ rest = (above ++ mem.bytes ref) ++ b :: more := by
          rw [append_assoc, ← split]
        rw [whole]
        cases found : (mem.childrenOf ref).find? fun child => (mem.bytes child).head? = some b with
        | none =>
          refine appendChild_placed wf filled reached (fun other below begins => ?_) le_rfl
          have lacks := find?_eq_none.mp found other below
          simp [begins] at lacks
        | some child =>
          have below := mem_of_find?_eq_some found
          have begins := find?_some found
          simp only [decide_eq_true_eq] at begins
          have common : 0 < longestCommonPrefixLength (mem.bytes child) (b :: more) :=
            longestCommonPrefixLength_pos begins rfl
          refine ih (.step reached below) (fun _ => common) ?_
          rw [length_drop]
          rw [length_cons] at enough ⊢
          omega

/-- The root of an empty trie gets bytes. -/
theorem fill_placed (blank : (mem.trie root).nodePrefix = none) (bytes : Bytes) :
    Placed mem (mem.setPrefix root (some bytes)) root bytes root ∧
      (mem.setPrefix root (some bytes)).childrenOf root = [] := by
  have here : (mem.setPrefix root (some bytes)).trie root =
      { mem.trie root with nodePrefix := some bytes } := by
    rw [trie_setPrefix, if_pos rfl]
  have bare : (mem.setPrefix root (some bytes)).childrenOf root = [] := by
    rw [childrenOf, here]
    exact (wf.blank blank).1
  obtain ⟨wf', only⟩ := wellFormed_leaf bare (wf.allocated .root)
    (by rw [here]; exact wf.allocatedList .root) (by rw [here]; intro none; cases none)
  have label : (mem.setPrefix root (some bytes)).bytes root = bytes := by rw [Memory.bytes, here]; rfl
  refine ⟨⟨⟨wf', ?_⟩, ?_, only.mpr ⟨rfl, label.symm⟩⟩, bare⟩
  · -- Neither the empty trie nor the one with bytes has an item.
    intro key item
    constructor
    · rintro ⟨ref, reached, stored⟩
      rw [(only.mp reached).1, here, (wf.blank blank).2] at stored
      cases stored
    · rintro ⟨ref, reached, stored⟩
      rw [wf.blank_only blank reached, (wf.blank blank).2] at stored
      cases stored
  · rw [Filled, here]
    exact Option.some_ne_none _

/-- There comes to be a node for every key. -/
theorem putNode_placed (key : Bytes) :
    ∃ node mem', (mem.putNode root key : Outcome ε _) = .ok (node, mem') ∧
      Placed mem mem' root key node := by
  rw [putNode]
  by_cases blank : (mem.trie root).nodePrefix = none
  · rw [if_pos blank]
    by_cases short : key.length ≤ defaultMaxPrefixPerNode
    · exact ⟨root, _, if_pos short, (fill_placed wf blank key).1⟩
    · obtain ⟨filled, bare⟩ := fill_placed wf blank _
      have enough : (key.drop defaultMaxPrefixPerNode).length ≤ key.length := by
        rw [length_drop]
        omega
      obtain ⟨node, mem', appended, placed⟩ := appendChild_placed (ε := ε) filled.keeps.wellFormed
        filled.filled filled.reached (fun other below => by
          rw [bare] at below
          cases below) enough
      rw [take_append_drop] at placed
      exact ⟨node, mem', (if_neg short).trans appended, filled.keeps.trans placed.keeps,
        placed.filled, placed.reached⟩
  · rw [if_neg blank]
    have reached : mem.At root ([] ++ mem.bytes root) root := .root
    refine putLoop_placed wf blank reached (fun other => absurd rfl other) ?_
    rw [length_drop]
    omega

/-- The item at a node is the item stored for its path. -/
theorem setItem_holds (filled : mem.Filled root)
    (reached : mem.At root key node) (item : Option α) : (mem.setItem node item).WellFormed root ∧
      (∀ {path ref}, (mem.setItem node item).At root path ref ↔ mem.At root path ref) ∧
      ∀ other value, (mem.setItem node item).Holds root other value ↔
        if other = key then item = some value else mem.Holds root other value := by
  obtain ⟨wf', same⟩ := wf.reordered (fun _ => nodePrefix_setItem) (fun _ => children_setItem)
    (fun _ => .refl _) (fun blank => absurd blank filled) rfl rfl
  refine ⟨wf', same, fun other value => ?_⟩
  have itemAt {ref} : ((mem.setItem node item).trie ref).item =
      if ref = node then item else (mem.trie ref).item := by
    rw [trie_setItem]
    split <;> rfl
  by_cases here : other = key
  · subst here
    rw [if_pos rfl]
    constructor
    · rintro ⟨ref, reached', stored⟩
      cases wf.radix.node_eq reached (same.mp reached')
      rwa [itemAt, if_pos rfl] at stored
    · intro stored
      exact ⟨node, same.mpr reached, by rw [itemAt, if_pos rfl, stored]⟩
  · rw [if_neg here]
    -- The path of another key leads to another node.
    have apart {ref} (reached' : mem.At root other ref) : ref ≠ node := fun atNode => by
      subst atNode
      exact here (wf.radix.unique reached' reached)
    constructor
    · rintro ⟨ref, reached', stored⟩
      rw [itemAt, if_neg (apart (same.mp reached'))] at stored
      exact ⟨ref, same.mp reached', stored⟩
    · rintro ⟨ref, reached', stored⟩
      exact ⟨ref, same.mpr reached', by rw [itemAt, if_neg (apart reached'), stored]⟩

/-- What a call of `put` returns, and what is stored then. -/
theorem put_holds (key : Bytes) (item : α) (replace : Bool) :
    ∃ inserted mem', (mem.put root (some key) item replace : Outcome ε _) = .ok (inserted, mem') ∧
      mem'.WellFormed root ∧
      (inserted = true ↔ replace = true ∨ ∀ value, ¬mem.Holds root key value) ∧
      ∀ other value, mem'.Holds root other value ↔
        if other = key ∧ inserted = true then item = value else mem.Holds root other value := by
  obtain ⟨node, placedMem, placing, placed⟩ := putNode_placed (ε := ε) wf key
  have wf' := placed.keeps.wellFormed
  -- The node has an item when the key was stored with one.
  have absent : (placedMem.trie node).item = none ↔ ∀ value, ¬mem.Holds root key value := by
    constructor
    · rintro none value stored
      obtain ⟨ref, reached, stored⟩ := placed.keeps.holds.mpr stored
      cases wf'.radix.node_eq placed.reached reached
      rw [none] at stored
      cases stored
    · intro lacks
      cases stored : (placedMem.trie node).item with
      | none => rfl
      | some value => exact absurd (placed.keeps.holds.mp ⟨node, placed.reached, stored⟩) (lacks value)
  rw [put]
  simp only [placing, Outcome.ok_bind]
  by_cases goes : replace = true ∨ (placedMem.trie node).item = none
  · rw [if_pos goes]
    obtain ⟨wf'', -, holds⟩ := setItem_holds wf' placed.filled placed.reached (some item)
    refine ⟨true, _, rfl, wf'', ?_, fun other value => ?_⟩
    · rw [absent] at goes
      simp [goes]
    · rw [holds]
      by_cases same : other = key
      · simp [same]
      · simp [same, placed.keeps.holds]
  · rw [if_neg goes]
    refine ⟨false, _, rfl, wf', ?_, fun other value => ?_⟩
    · rw [absent] at goes
      simp [goes]
    · simp [placed.keeps.holds]

end FlexSwitch.Patricia.Memory
