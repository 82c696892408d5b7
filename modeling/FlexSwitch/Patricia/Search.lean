import FlexSwitch.LabelTreeEdits
import FlexSwitch.Patricia.Trie

/-! The trie as a tree of labelled nodes, and what the search for a key comes to in it. -/

namespace FlexSwitch.Patricia

open Go List Outcome

variable {ε α : Type} {mem : Memory α} {root ref child : TrieRef} {path key : Bytes}

namespace Memory

/-- The nodes with their bytes and children. -/
def graph (mem : Memory α) : LabelGraph TrieRef UInt8 := ⟨mem.bytes, mem.childrenOf⟩

/-- The node is reached from the root by the path. -/
abbrev At (mem : Memory α) (root : TrieRef) (path : Bytes) (ref : TrieRef) : Prop :=
  mem.graph.At root path ref

/-- The key is stored with the item. -/
def Holds (mem : Memory α) (root : TrieRef) (key : Bytes) (item : α) : Prop :=
  ∃ ref, mem.At root key ref ∧ (mem.trie ref).item = some item

/--
The memory holds a trie at the root.

It is a radix tree, each node of which has a child list of its own, and a root without bytes has
neither children nor an item.
-/
structure WellFormed (mem : Memory α) (root : TrieRef) : Prop where
  radix : mem.graph.Radix root
  allocated : ∀ {path ref}, mem.At root path ref → ref < mem.nodes.next
  allocatedList : ∀ {path ref}, mem.At root path ref → (mem.trie ref).children < mem.lists.next
  ownList : ∀ {path other one two}, mem.At root path one → mem.At root other two →
    (mem.trie one).children = (mem.trie two).children → one = two
  blank : (mem.trie root).nodePrefix = none → mem.childrenOf root = [] ∧ (mem.trie root).item = none

/-- The node above is the one the search came from, and there is none above the root. -/
def ParentOf (mem : Memory α) (root : TrieRef) (parent : Option TrieRef) (ref : TrieRef) : Prop :=
  match parent with
  | none => ref = root
  | some parent => ∃ path, mem.At root path parent ∧ ref ∈ mem.childrenOf parent

end Memory

open Memory

theorem longestCommonPrefixLength_append (left right : Bytes) :
    longestCommonPrefixLength left (left ++ right) = left.length := by
  induction left with
  | nil => simp [longestCommonPrefixLength]
  | cons byte left ih => simp [longestCommonPrefixLength, ih]

theorem longestCommonPrefixLength_self (bytes : Bytes) :
    longestCommonPrefixLength bytes bytes = bytes.length := by
  simpa using longestCommonPrefixLength_append bytes []

theorem longestCommonPrefixLength_take (left right : Bytes) :
    left.take (longestCommonPrefixLength left right) =
      right.take (longestCommonPrefixLength left right) := by
  induction left generalizing right with
  | nil => simp [longestCommonPrefixLength]
  | cons byte left ih =>
    cases right with
    | nil => simp [longestCommonPrefixLength]
    | cons other right =>
      by_cases same : byte = other
      · simp [longestCommonPrefixLength, same, ih right]
      · simp [longestCommonPrefixLength, same]

theorem longestCommonPrefixLength_le (left right : Bytes) :
    longestCommonPrefixLength left right ≤ left.length ∧
      longestCommonPrefixLength left right ≤ right.length := by
  induction left generalizing right with
  | nil => simp [longestCommonPrefixLength]
  | cons byte left ih =>
    cases right with
    | nil => simp [longestCommonPrefixLength]
    | cons other right =>
      have le := ih right
      by_cases same : byte = other
      · simp [longestCommonPrefixLength, same]
        omega
      · simp [longestCommonPrefixLength, same]

theorem longestCommonPrefixLength_pos {left right : Bytes} {byte : UInt8}
    (first : left.head? = some byte) (first' : right.head? = some byte) :
    0 < longestCommonPrefixLength left right := by
  obtain ⟨lefts, rfl⟩ := head?_eq_some_iff.mp first
  obtain ⟨rights, rfl⟩ := head?_eq_some_iff.mp first'
  simp [longestCommonPrefixLength]

/-- What follows the common bytes does not go on with the same byte. -/
theorem longestCommonPrefixLength_parts (left right : Bytes) :
    (left.drop (longestCommonPrefixLength left right)).head? ≠
        (right.drop (longestCommonPrefixLength left right)).head? ∨
      (left.drop (longestCommonPrefixLength left right) = [] ∧
        right.drop (longestCommonPrefixLength left right) = []) := by
  induction left generalizing right with
  | nil => cases right <;> simp [longestCommonPrefixLength]
  | cons byte left ih =>
    cases right with
    | nil => simp [longestCommonPrefixLength]
    | cons other right =>
      by_cases same : byte = other
      · simpa [longestCommonPrefixLength, same] using ih right
      · simp [longestCommonPrefixLength, same]

/-- Where all of the left side is common, the right side begins with it. -/
theorem eq_append_of_longestCommonPrefixLength {left right : Bytes}
    (all : ¬longestCommonPrefixLength left right < left.length) :
    longestCommonPrefixLength left right = left.length ∧
      right = left ++ right.drop (longestCommonPrefixLength left right) := by
  have le := (longestCommonPrefixLength_le left right).1
  have whole : longestCommonPrefixLength left right = left.length := by omega
  have same := longestCommonPrefixLength_take left right
  rw [whole, take_length] at same
  refine ⟨whole, ?_⟩
  conv_lhs => rw [← take_append_drop left.length right, ← same]
  rw [whole]

theorem index_zero {bytes : Bytes} {byte : UInt8} (first : bytes.head? = some byte) :
    (index bytes 0 : Outcome ε UInt8) = .ok byte := by
  obtain ⟨rest, rfl⟩ := head?_eq_some_iff.mp first
  rfl

namespace Memory

/-- The child found for a byte is the first one that begins with it. -/
theorem next_eq {b : UInt8} {children : List TrieRef}
    (labelled : ∀ child, child ∈ children → mem.bytes child ≠ []) :
    (mem.next b children : Outcome ε (Option TrieRef)) =
      .ok (children.find? fun child => (mem.bytes child).head? = some b) := by
  induction children with
  | nil => rfl
  | cons child rest ih =>
    have ih := ih fun child member => labelled child (mem_cons_of_mem _ member)
    obtain ⟨first, bytesRest, bytes⟩ := exists_cons_of_ne_nil (labelled child mem_cons_self)
    have head : (mem.bytes child).head? = some first := by rw [bytes]; rfl
    rw [next, index_zero head, ok_bind, find?_cons]
    by_cases same : first = b
    · simp [bytes, same]
    · simp [bytes, same, ih]

namespace WellFormed

variable (wf : mem.WellFormed root)

include wf

theorem labelled (reached : mem.At root path ref) (below : child ∈ mem.childrenOf ref) :
    mem.bytes child ≠ [] :=
  wf.radix.labelled reached below

/-- Among the children of a node the byte finds the one that begins with it. -/
theorem next_child {b : UInt8} (reached : mem.At root path ref)
    (below : child ∈ mem.childrenOf ref) (begins : (mem.bytes child).head? = some b) :
    (mem.next b (mem.childrenOf ref) : Outcome ε (Option TrieRef)) = .ok (some child) := by
  rw [next_eq fun _ member => wf.labelled reached member]
  cases found : (mem.childrenOf ref).find? fun child => (mem.bytes child).head? = some b with
  | none =>
    have lacks := find?_eq_none.mp found child below
    simp [begins] at lacks
  | some other =>
    have here := mem_of_find?_eq_some found
    have begins' := find?_some found
    simp only [decide_eq_true_eq] at begins'
    rw [wf.radix.distinct reached here below (begins'.trans begins.symm)]

/-- A search follows the key from node to node, as far as they go along with it. -/
theorem findLoop_below {rest tail : Bytes} {target : TrieRef}
    (below : mem.graph.Below ref rest target) (reached : mem.At root path ref)
    {parent : Option TrieRef} (above : mem.ParentOf root parent ref) {fuel : Nat}
    (enough : (rest ++ tail).length < fuel) :
    ∃ parent' fuel', mem.ParentOf root parent' target ∧ tail.length < fuel' ∧
      (mem.findLoop fuel parent ref (mem.bytes ref ++ (rest ++ tail)) : Outcome ε Subtree) =
        mem.findLoop fuel' parent' target (mem.bytes target ++ tail) := by
  -- The way down is followed child by child, each of them found by the byte it begins with.
  induction below generalizing path parent fuel with
  | refl => exact ⟨parent, fuel, above, enough, rfl⟩
  | @step node child target rest first below ih =>
    rcases fuel with _ | fuel
    · omega
    obtain ⟨b, more, bytes⟩ := exists_cons_of_ne_nil (wf.labelled reached first)
    have begins : (mem.bytes child).head? = some b := by rw [bytes]; rfl
    have enough' : (rest ++ tail).length < fuel := by
      have longer : (mem.bytes child ++ rest ++ tail).length < fuel + 1 := enough
      rw [bytes] at longer
      simp only [length_append, length_cons] at longer ⊢
      omega
    have here : mem.ParentOf root (some node) child := ⟨path, reached, first⟩
    obtain ⟨parent', fuel', above', enough'', found⟩ := ih (.step reached first) here enough'
    refine ⟨parent', fuel', above', enough'', ?_⟩
    rw [← found]
    have label : mem.graph.label child = mem.bytes child := rfl
    simp [findLoop, label, longestCommonPrefixLength_append, bytes,
      wf.next_child reached first begins]

end WellFormed

/-- Where a search can end: in a node, off the way to any, or at a node with no child to go to. -/
inductive SearchEnd (mem : Memory α) (root : TrieRef) (key : Bytes) : Subtree → Prop where
  | inside {parent : Option TrieRef} {ref : TrieRef} {leftover : Bytes}
      (above : mem.ParentOf root parent ref) (reached : mem.At root (key ++ leftover) ref) :
      SearchEnd mem root key ⟨parent, ref, true, leftover⟩
  | astray {parent : Option TrieRef} {ref : TrieRef} {leftover : Bytes} (left : leftover ≠ []) :
      SearchEnd mem root key ⟨parent, ref, false, leftover⟩
  | short {parent : Option TrieRef} {ref : TrieRef} {path rest : Bytes} {b : UInt8}
      (above : mem.ParentOf root parent ref) (reached : mem.At root path ref)
      (split : key = path ++ b :: rest)
      (stuck : ∀ child, child ∈ mem.childrenOf ref → (mem.bytes child).head? ≠ some b) :
      SearchEnd mem root key ⟨parent, ref, false, []⟩

namespace WellFormed

variable (wf : mem.WellFormed root)

include wf

/-- The search comes to one of its ends. -/
theorem findLoop_ends {above rest : Bytes} {parent : Option TrieRef} {fuel : Nat}
    (reached : mem.At root (above ++ mem.bytes ref) ref) (parentOf : mem.ParentOf root parent ref)
    (enough : (rest.drop (longestCommonPrefixLength (mem.bytes ref) rest)).length < fuel) :
    ∃ subtree, (mem.findLoop fuel parent ref rest : Outcome ε Subtree) = .ok subtree ∧
      mem.SearchEnd root (above ++ rest) subtree := by
  induction fuel generalizing ref above rest parent with
  | zero => omega
  | succ fuel ih =>
    rw [findLoop]
    cases left : rest.drop _ with
    | nil =>
      -- The key is used up, at the end of the node or inside it.
      have taken := longestCommonPrefixLength_take (mem.bytes ref) rest
      refine ⟨_, rfl, .inside parentOf ?_⟩
      generalize longestCommonPrefixLength (mem.bytes ref) rest = common at left taken
      have whole : rest ++ (mem.bytes ref).drop common = mem.bytes ref := by
        have all : rest = (mem.bytes ref).take common := by
          rw [taken, take_of_length_le (drop_eq_nil_iff.mp left)]
        conv_lhs => rw [all]
        exact take_append_drop common _
      rwa [append_assoc, whole]
    | cons b more =>
      rw [left] at enough
      by_cases partly : longestCommonPrefixLength (mem.bytes ref) rest < (mem.bytes ref).length
      · refine ⟨_, if_pos partly, .astray ?_⟩
        intro nothing
        have all := drop_eq_nil_iff.mp nothing
        omega
      · obtain ⟨whole, split⟩ := eq_append_of_longestCommonPrefixLength partly
        rw [left] at split
        simp only [if_neg partly]
        rw [next_eq fun _ member => wf.labelled reached member, ok_bind]
        cases found : (mem.childrenOf ref).find? fun child => (mem.bytes child).head? = some b with
        | none =>
          have whole : above ++ rest = (above ++ mem.bytes ref) ++ b :: more := by
            rw [append_assoc, ← split]
          refine ⟨_, rfl, .short parentOf reached whole fun child below begins => ?_⟩
          have lacks := find?_eq_none.mp found child below
          simp [begins] at lacks
        | some child =>
          have below := mem_of_find?_eq_some found
          have begins := find?_some found
          simp only [decide_eq_true_eq] at begins
          -- The child takes at least the byte it was found by.
          have common : 0 < longestCommonPrefixLength (mem.bytes child) (b :: more) :=
            longestCommonPrefixLength_pos begins rfl
          have enough' : ((b :: more).drop
              (longestCommonPrefixLength (mem.bytes child) (b :: more))).length < fuel := by
            rw [length_drop]
            rw [length_cons] at enough ⊢
            omega
          have here : mem.ParentOf root (some ref) child := ⟨_, reached, below⟩
          have ends := ih (.step reached below) here enough'
          rw [append_assoc] at ends
          rwa [← split] at ends

theorem findSubtree_ends (key : Bytes) :
    ∃ subtree, (mem.findSubtree root key : Outcome ε Subtree) = .ok subtree ∧
      mem.SearchEnd root key subtree := by
  have enough : (key.drop (longestCommonPrefixLength (mem.bytes root) key)).length <
      key.length + 1 := by
    rw [length_drop]
    omega
  have reached : mem.At root ([] ++ mem.bytes root) root := .root
  have atRoot : mem.ParentOf root none root := rfl
  exact wf.findLoop_ends reached atRoot enough

theorem findSubtree_below {tail : Bytes} (reached : mem.At root path ref) :
    ∃ parent fuel, mem.ParentOf root parent ref ∧ tail.length < fuel ∧
      (mem.findSubtree root (path ++ tail) : Outcome ε Subtree) =
        mem.findLoop fuel parent ref (mem.bytes ref ++ tail) := by
  obtain ⟨rest, rfl, below⟩ := reached.from_root
  have atRoot : mem.ParentOf root none root := rfl
  have label : mem.graph.label root = mem.bytes root := rfl
  rw [findSubtree, label, append_assoc]
  refine wf.findLoop_below below .root atRoot ?_
  rw [@length_append _ (mem.bytes root)]
  omega

/-- The search for the path of a node ends at the node. -/
theorem findSubtree_at (reached : mem.At root key ref) : ∃ parent, mem.ParentOf root parent ref ∧
      (mem.findSubtree root key : Outcome ε Subtree) = .ok ⟨parent, ref, true, []⟩ := by
  have search := @findSubtree_below ε _ _ _ _ _ wf [] reached
  rw [append_nil] at search
  obtain ⟨parent, fuel, above, enough, found⟩ := search
  refine ⟨parent, above, ?_⟩
  cases fuel with
  | zero => omega
  | succ fuel => simp [found, findLoop, longestCommonPrefixLength_self]

/-- The search ends at a node when no child of it goes on with the key. -/
theorem findSubtree_short (reached : mem.At root path ref) {b : UInt8} {rest : Bytes}
    (stuck : ∀ child, child ∈ mem.childrenOf ref → (mem.bytes child).head? ≠ some b) :
    ∃ parent, mem.ParentOf root parent ref ∧
      (mem.findSubtree root (path ++ b :: rest) : Outcome ε Subtree) =
        .ok ⟨parent, ref, false, []⟩ := by
  obtain ⟨parent, fuel, above, enough, found⟩ :=
    @findSubtree_below ε _ _ _ _ _ wf (b :: rest) reached
  refine ⟨parent, above, ?_⟩
  have none : (mem.childrenOf ref).find? (fun child => (mem.bytes child).head? = some b) = none := by
    rw [find?_eq_none]
    intro child below
    simpa using stuck child below
  cases fuel with
  | zero => omega
  | succ fuel =>
    simp [found, findLoop, longestCommonPrefixLength_append,
      next_eq fun _ member => wf.labelled reached member, none]

/-- A key is found with an item when it is stored with it. -/
theorem get_eq_some {item : α} :
    (mem.get root key : Outcome ε (Option α)) = .ok (some item) ↔ mem.Holds root key item := by
  constructor
  · intro got
    obtain ⟨subtree, found, ends⟩ := wf.findSubtree_ends (ε := ε) key
    rw [get, found, ok_bind] at got
    cases ends with
    | @inside parent ref leftover above reached =>
      cases leftover with
      | nil =>
        rw [append_nil] at reached
        exact ⟨ref, reached, by simpa using got⟩
      | cons b more => simp at got
    | astray left => simp at got
    | short above reached split stuck => simp at got
  · rintro ⟨ref, reached, stored⟩
    obtain ⟨parent, -, found⟩ := wf.findSubtree_at (ε := ε) reached
    rw [get, found, ok_bind]
    simp [stored]

theorem get_returns (key : Bytes) :
    ∃ found, (mem.get root key : Outcome ε (Option α)) = .ok found := by
  obtain ⟨subtree, found, -⟩ := wf.findSubtree_ends (ε := ε) key
  rw [get, found, ok_bind]
  split
  · exact ⟨_, rfl⟩
  · exact ⟨_, rfl⟩

/-- A key is found with nothing when nothing is stored for it. -/
theorem get_eq_none :
    (mem.get root key : Outcome ε (Option α)) = .ok none ↔ ∀ item, ¬mem.Holds root key item := by
  obtain ⟨found, got⟩ := wf.get_returns (ε := ε) key
  constructor
  · intro missing item stored
    rw [wf.get_eq_some.mpr stored] at missing
    cases missing
  · intro lacks
    cases found with
    | none => exact got
    | some item => exact absurd (wf.get_eq_some.mp got) (lacks item)

end WellFormed

end Memory

end FlexSwitch.Patricia
