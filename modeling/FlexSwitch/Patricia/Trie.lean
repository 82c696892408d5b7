import FlexSwitch.Go.Bytes
import FlexSwitch.Go.Map

/-! The patricia trie: its nodes and child lists in memory, and the calls that read and change them. -/

namespace FlexSwitch.Patricia

open Go

variable {ε α σ : Type}

/-- Where a `*Trie` points to. -/
abbrev TrieRef := Nat

/-- Where a `*sparseChildList` points to. -/
abbrev ListRef := Nat

def defaultMaxPrefixPerNode : Nat := 4

/-- A node, whose bytes may be nil, and whose item is nothing for nil. -/
structure Trie (α : Type) where
  nodePrefix : Option Bytes
  item : Option α
  children : ListRef
deriving DecidableEq, Repr

/-- The nodes and child lists that pointers refer to. -/
structure Memory (α : Type) where
  nodes : Heap (Trie α)
  lists : Heap (List TrieRef)

/-- What a visitor returns instead of nil. -/
inductive VisitError where
  | skipSubtree
  | other
deriving DecidableEq, Repr

/-- The number of bytes two slices begin with in common. -/
def longestCommonPrefixLength : Bytes → Bytes → Nat
  | left :: lefts, right :: rights =>
    if left = right then longestCommonPrefixLength lefts rights + 1 else 0
  | _, _ => 0

/-- The order of strings, by which child lists are sorted. -/
def bytesLE : Bytes → Bytes → Bool
  | [], _ => true
  | _ :: _, [] => false
  | left :: lefts, right :: rights => left < right || (left == right && bytesLE lefts rights)

/-- `append(left, right...)`, which is nil only for nil and nothing behind it. -/
def appendPrefix (left right : Option Bytes) : Option Bytes :=
  if left = none ∧ right.getD [] = [] then none else some (left.getD [] ++ right.getD [])

namespace Memory

section

variable (mem : Memory α) (ref : TrieRef)

def trie : Trie α := mem.nodes.get ref

/-- The bytes of a node, which are none where they are nil. -/
def bytes : Bytes := (mem.trie ref).nodePrefix.getD []

def childrenOf : List TrieRef :=
  mem.lists.get (mem.trie ref).children

/-- `*ref = node`. -/
def write (node : Trie α) : Memory α :=
  { mem with nodes := mem.nodes.set ref node }

def setPrefix (bytes : Option Bytes) : Memory α :=
  mem.write ref { mem.trie ref with nodePrefix := bytes }

def setItem (item : Option α) : Memory α :=
  mem.write ref { mem.trie ref with item := item }

def setList (list : ListRef) (children : List TrieRef) : Memory α :=
  { mem with lists := mem.lists.set list children }

/-- The children of a node, stored anew in the list it has. -/
def setChildren (children : List TrieRef) : Memory α :=
  mem.setList (mem.trie ref).children children

/-- `new(Trie)` with the fields of the node. -/
def newNode (node : Trie α) : TrieRef × Memory α :=
  (mem.nodes.next, { mem with nodes := mem.nodes.alloc node })

/-- A new list, with no children. -/
def newSparseChildList : ListRef × Memory α :=
  (mem.lists.next, { mem with lists := mem.lists.alloc [] })

def newTrie : TrieRef × Memory α :=
  let (list, mem) := mem.newSparseChildList
  mem.newNode { nodePrefix := none, item := none, children := list }

/-- `add`, which gives back the list it is called on. -/
def add (node child : TrieRef) : Memory α :=
  mem.setChildren node (mem.childrenOf node ++ [child])

end

variable {mem : Memory α} {ref other : TrieRef}

theorem trie_write {node : Trie α} :
    (mem.write ref node).trie other = if other = ref then node else mem.trie other :=
  Heap.get_set

theorem trie_setPrefix {bytes : Option Bytes} : (mem.setPrefix ref bytes).trie other =
      if other = ref then { mem.trie ref with nodePrefix := bytes } else mem.trie other :=
  Heap.get_set

variable {item : Option α}

theorem trie_setItem : (mem.setItem ref item).trie other =
      if other = ref then { mem.trie ref with item := item } else mem.trie other :=
  Heap.get_set

@[simp] theorem nodePrefix_setItem :
    ((mem.setItem ref item).trie other).nodePrefix = (mem.trie other).nodePrefix := by
  rw [trie_setItem]
  by_cases same : other = ref
  · rw [if_pos same, same]
  · rw [if_neg same]

@[simp] theorem children_setItem :
    ((mem.setItem ref item).trie other).children = (mem.trie other).children := by
  rw [trie_setItem]
  by_cases same : other = ref
  · rw [if_pos same, same]
  · rw [if_neg same]

@[simp] theorem bytes_setItem : (mem.setItem ref item).bytes other = mem.bytes other := by
  rw [bytes, nodePrefix_setItem, bytes]

@[simp] theorem childrenOf_setItem :
    (mem.setItem ref item).childrenOf other = mem.childrenOf other := by
  rw [childrenOf, children_setItem]
  rfl

variable {list : ListRef} {children : List TrieRef}

@[simp] theorem trie_setList : (mem.setList list children).trie ref = mem.trie ref := rfl

@[simp] theorem trie_setChildren : (mem.setChildren ref children).trie other = mem.trie other := rfl

@[simp] theorem trie_add {node child : TrieRef} :
    (mem.add node child).trie ref = mem.trie ref := rfl

theorem trie_newTrie : mem.newTrie.2.trie ref =
      if ref = mem.nodes.next then ⟨none, none, mem.lists.next⟩ else mem.trie ref :=
  Heap.get_alloc

@[simp] theorem lists_write {node : Trie α} : (mem.write ref node).lists = mem.lists := rfl

@[simp] theorem lists_setPrefix {bytes : Option Bytes} :
    (mem.setPrefix ref bytes).lists = mem.lists := rfl

@[simp] theorem lists_setItem : (mem.setItem ref item).lists = mem.lists := rfl

theorem lists_setChildren : (mem.setChildren ref children).lists.get list =
      if list = (mem.trie ref).children then children else mem.lists.get list :=
  Heap.get_set

theorem lists_newTrie :
    mem.newTrie.2.lists.get list = if list = mem.lists.next then [] else mem.lists.get list :=
  Heap.get_alloc

/-- The first child that begins with the byte. -/
def next (mem : Memory α) (b : UInt8) : List TrieRef → Outcome ε (Option TrieRef)
  | [] => .ok none
  | child :: rest => do
    if (← index (mem.bytes child) 0) = b then return some child else next mem b rest

/-- The list with the first child that begins with the byte replaced. -/
def replace (mem : Memory α) (b : UInt8) (child : TrieRef) : List TrieRef → Outcome ε (List TrieRef)
  | [] => .ok []
  | node :: rest => do
    if (← index (mem.bytes node) 0) = b then return child :: rest
    else return node :: (← replace mem b child rest)

/-- The list without the first node that begins as the child does, which has to be there. -/
def remove (mem : Memory α) (child : TrieRef) : List TrieRef → Outcome ε (List TrieRef)
  | [] => .panic
  | node :: rest => do
    if (← index (mem.bytes node) 0) = (← index (mem.bytes child) 0) then return rest
    else return node :: (← remove mem child rest)

variable (mem : Memory α) (trie : TrieRef) (key : Option Bytes)

/-- `sort.Sort` of a child list. -/
def sorted (children : List TrieRef) : List TrieRef :=
  children.insertionSort fun left right => bytesLE (mem.bytes left) (mem.bytes right)

/--
Where a search for a key stopped: the node, the node above it, and what is left of the node.

It is found when the key ended at or inside the node.
-/
structure Subtree where
  parent : Option TrieRef
  root : TrieRef
  found : Bool
  leftover : Bytes
deriving DecidableEq, Repr

/-- The loop of `findSubtree`. Every child it moves to takes at least a byte of the key. -/
def findLoop (mem : Memory α) : Nat → Option TrieRef → TrieRef → Bytes → Outcome ε Subtree
  | 0, _, _, _ => .hang
  | fuel + 1, parent, root, key =>
    let common := longestCommonPrefixLength (mem.bytes root) key
    let leftover := (mem.bytes root).drop common
    match key.drop common with
    | [] => .ok { parent := parent, root := root, found := true, leftover := leftover }
    | b :: rest =>
      if common < (mem.bytes root).length then
        .ok { parent := parent, root := root, found := false, leftover := leftover }
      else do
        match ← mem.next b (mem.childrenOf root) with
        | none => return { parent := parent, root := root, found := false, leftover := [] }
        | some child => findLoop mem fuel (some root) child (b :: rest)

def findSubtree (key : Bytes) : Outcome ε Subtree :=
  mem.findLoop (key.length + 1) none trie key

def get (key : Bytes) : Outcome ε (Option α) := do
  let subtree ← mem.findSubtree trie key
  if subtree.found = false ∨ subtree.leftover.length ≠ 0 then return none
  else return (mem.trie subtree.root).item

/--
A node with a single child, neither of them with an item, is merged into the child.

The item that the source moves along is nil here, since it was looked at before.
-/
def compact (ref : TrieRef) : TrieRef × Memory α :=
  match mem.childrenOf ref with
  | [child] =>
    if (mem.trie ref).item.isSome ∨ (mem.trie child).item.isSome then (ref, mem)
    else if (mem.bytes ref).length + (mem.bytes child).length > defaultMaxPrefixPerNode then
      (ref, mem)
    else
      (child, mem.setPrefix child
        (appendPrefix (mem.trie ref).nodePrefix (mem.trie child).nodePrefix))
  | _ => (ref, mem)

/-- A node is split before the byte: a new node has what follows, and the node is blank else. -/
def splitOff (node : TrieRef) (common : Nat) : TrieRef × Memory α :=
  let (child, mem) := mem.newNode (mem.trie node)
  let (blank, mem) := mem.newTrie
  let mem := mem.write node (mem.trie blank)
  let mem := mem.setPrefix node (some ((mem.bytes child).take common))
  (child, mem.setPrefix child (some ((mem.bytes child).drop common)))

/-- The label `SplitPrefix` of `put`: what follows the common bytes moves to a child. -/
def splitPrefix (node : TrieRef) (common : Nat) : Memory α :=
  let (child, mem) := mem.splitOff node common
  let (child, mem) := mem.compact child
  mem.add node child

/-- The label `AppendChild` of `put`: the key in pieces, each one a child of the piece before it. -/
def appendChild : Nat → Memory α → TrieRef → Bytes → Outcome ε (TrieRef × Memory α)
  | _, mem, node, [] => .ok (node, mem)
  | 0, _, _, _ :: _ => .hang
  | fuel + 1, mem, node, b :: rest =>
    let key := b :: rest
    let (child, mem) := mem.newTrie
    if key.length ≤ defaultMaxPrefixPerNode then
      .ok (child, (mem.setPrefix child (some key)).add node child)
    else
      appendChild fuel
        ((mem.setPrefix child (some (key.take defaultMaxPrefixPerNode))).add node child) child
        (key.drop defaultMaxPrefixPerNode)

/-- The loop of `put`, with the labels it jumps to, up to the node that the item goes to. -/
def putLoop : Nat → Memory α → TrieRef → Bytes → Outcome ε (TrieRef × Memory α)
  | 0, _, _, _ => .hang
  | fuel + 1, mem, node, key =>
    let common := longestCommonPrefixLength (mem.bytes node) key
    let rest := key.drop common
    if common < (mem.bytes node).length then
      appendChild rest.length (mem.splitPrefix node common) node rest
    else
      match rest with
      | [] => .ok (node, mem)
      | b :: rest => do
        match ← mem.next b (mem.childrenOf node) with
        | none => appendChild (b :: rest).length mem node (b :: rest)
        | some child => putLoop fuel mem child (b :: rest)

/-- The node that the item of a key goes to, which is made if it is not there. -/
def putNode (key : Bytes) : Outcome ε (TrieRef × Memory α) :=
  if (mem.trie trie).nodePrefix = none then
    if key.length ≤ defaultMaxPrefixPerNode then .ok (trie, mem.setPrefix trie (some key))
    else
      appendChild key.length (mem.setPrefix trie (some (key.take defaultMaxPrefixPerNode))) trie
        (key.drop defaultMaxPrefixPerNode)
  else putLoop (key.length + 1) mem trie key

/-- `put`, which panics for a nil key. -/
def put (item : α) (replace : Bool) : Outcome ε (Bool × Memory α) :=
  match key with
  | none => .panic
  | some key => do
    let (node, mem) ← mem.putNode trie key
    if replace = true ∨ (mem.trie node).item = none then
      return (true, mem.setItem node (some item))
    else return (false, mem)

def insert (item : α) : Outcome ε (Bool × Memory α) :=
  mem.put trie key item false

def set (item : α) : Outcome ε (Memory α) := do
  let (_, mem) ← mem.put trie key item true
  return mem

/-- Call the visitor where there is an item. -/
def visit (visitor : Bytes → α → σ → Option VisitError × σ) (path : Bytes) (item : Option α)
    (state : σ) : Option VisitError × σ :=
  match item with
  | some item => visitor path item state
  | none => (none, state)

/-- The loop of a list's `walk`, where `deeper` walks the list of a child. -/
def walkChildren (visitor : Bytes → α → σ → Option VisitError × σ)
    (deeper : ListRef → Bytes → Memory α → σ → Outcome ε (Option VisitError × Memory α × σ)) :
    List TrieRef → Bytes → Memory α → σ → Outcome ε (Option VisitError × Memory α × σ)
  | [], _, mem, state => .ok (none, mem, state)
  | child :: rest, path, mem, state =>
    match visit visitor (path ++ mem.bytes child) (mem.trie child).item state with
    | (some .skipSubtree, state) => walkChildren visitor deeper rest path mem state
    | (some err, state) => .ok (some err, mem, state)
    | (none, state) => do
      let (err, mem, state) ← deeper (mem.trie child).children (path ++ mem.bytes child) mem state
      if err.isSome then return (err, mem, state)
      else walkChildren visitor deeper rest path mem state

/-- `walk` of a list, which sorts the list first. -/
def walkList (visitor : Bytes → α → σ → Option VisitError × σ) :
    Nat → ListRef → Bytes → Memory α → σ → Outcome ε (Option VisitError × Memory α × σ)
  | 0, _, _, _, _ => .hang
  | fuel + 1, list, path, mem, state =>
    let children := mem.sorted (mem.lists.get list)
    walkChildren visitor (walkList visitor fuel) children path (mem.setList list children) state

/-- `walk` of a trie. No way down is longer than there are nodes. -/
def walk (visitor : Bytes → α → σ → Option VisitError × σ) (mem : Memory α) (trie : TrieRef)
    (state : σ) : Outcome ε (Option VisitError × Memory α × σ) :=
  match visit visitor (mem.bytes trie) (mem.trie trie).item state with
  | (some .skipSubtree, state) => .ok (none, mem, state)
  | (some err, state) => .ok (some err, mem, state)
  | (none, state) =>
    walkList visitor mem.nodes.next (mem.trie trie).children (mem.bytes trie) mem state

/-- Whether the walk comes across no item. It leaves the lists it walks sorted. -/
def empty : Outcome ε (Bool × Memory α) := do
  let (_, mem, isEmpty) ← mem.walk (fun _ _ _ => (some .skipSubtree, false)) trie true
  return (isEmpty, mem)

def reset : Memory α :=
  let mem := mem.setPrefix trie none
  let (list, mem) := mem.newSparseChildList
  mem.write trie { mem.trie trie with children := list }

/-- The node that lost its item is merged into its child, and its parent with what it has then. -/
def compactDeleted (parent : Option TrieRef) (node : TrieRef) : Outcome ε (Memory α) :=
  let (compacted, mem) := mem.compact node
  if compacted = node then .ok mem
  else
    match parent with
    | none => .ok (mem.write node (mem.trie compacted))
    | some parent => do
      let b ← index (mem.bytes node) 0
      let mem := mem.setChildren parent (← mem.replace b compacted (mem.childrenOf parent))
      let (kept, mem) := mem.compact parent
      return mem.write parent (mem.trie kept)

/-- The node is taken out, or the trie reset if it is its root, when no item is below it. -/
def removeEmpty (parent : Option TrieRef) (node : TrieRef) : Outcome ε (Memory α) := do
  let (isEmpty, mem) ← mem.empty node
  if isEmpty then
    match parent with
    | none => return mem.reset node
    | some parent => return mem.setChildren parent (← mem.remove node (mem.childrenOf parent))
  else return mem

/-- `Delete`, which panics for a nil key. -/
def delete : Outcome ε (Bool × Memory α) :=
  match key with
  | none => .panic
  | some key => do
    if (mem.trie trie).nodePrefix = none then return (false, mem)
    let subtree ← mem.findSubtree trie key
    if subtree.leftover.length ≠ 0 then return (false, mem)
    if (mem.trie subtree.root).item = none then return (false, mem)
    let mem ← (mem.setItem subtree.root none).compactDeleted subtree.parent subtree.root
    return (true, ← mem.removeEmpty subtree.parent subtree.root)

end Memory

end FlexSwitch.Patricia
