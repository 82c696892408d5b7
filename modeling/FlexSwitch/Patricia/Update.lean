import FlexSwitch.Patricia.Calls

/-! The walk whose visitor may change the trie it walks. -/

namespace FlexSwitch.Patricia

open Go Memory

variable {ε α σ : Type}

/-- What a visitor is called with, and the memory and state of its own that it may change. -/
abbrev UpdateFunc (ε α σ : Type) :=
  Bytes → α → Memory α → σ → Outcome ε (Option VisitError × Memory α × σ)

/-- The path down to where the walk is, the memory, and the state of the visitor. -/
structure WalkState (α σ : Type) where
  path : Bytes
  mem : Memory α
  own : σ

namespace Memory

/-- `path[:len(path)-n]`. -/
def truncate (path : Bytes) (n : Nat) : Outcome ε Bytes :=
  if n ≤ path.length then .ok (path.take (path.length - n)) else .panic

variable (visitor : UpdateFunc ε α σ)

/-- Call the visitor where there is an item. -/
def visitUpdate (path : Bytes) (item : Option α) (mem : Memory α) (own : σ) :
    Outcome ε (Option VisitError × Memory α × σ) :=
  match item with
  | some item => visitor path item mem own
  | none => .ok (none, mem, own)

/--
The loop of a list's `walkAndUpdate`, from an index on.

The list of a child is sorted and walked in turn. The bytes of the child are read anew to take them
off the path again, and an index is used again when the list got shorter meanwhile.
-/
def updateLoop (visitor : UpdateFunc ε α σ) :
    Nat → ListRef → Nat → WalkState α σ → Outcome ε (Option VisitError × WalkState α σ)
  | 0, _, _, _ => .hang
  | fuel + 1, list, i, state =>
    match (state.mem.lists.get list)[i]? with
    | none => .ok (none, state)
    | some child => do
      let path := state.path ++ state.mem.bytes child
      let currLen := (state.mem.lists.get list).length
      let (err, mem, own) ← visitUpdate visitor path (state.mem.trie child).item state.mem state.own
      match err with
      | some .skipSubtree =>
        let path ← truncate path (mem.bytes child).length
        updateLoop visitor fuel list (i + 1) ⟨path, mem, own⟩
      | some .other =>
        let path ← truncate path (mem.bytes child).length
        return (some .other, ⟨path, mem, own⟩)
      | none =>
        let below := (mem.trie child).children
        let mem := mem.setList below (mem.sorted (mem.lists.get below))
        let (err, state) ← updateLoop visitor fuel below 0 ⟨path, mem, own⟩
        let path ← truncate state.path (state.mem.bytes child).length
        if err.isSome then return (err, { state with path := path })
        else
          let next := if (state.mem.lists.get list).length < currLen then i else i + 1
          updateLoop visitor fuel list next { state with path := path }

/-- `walkAndUpdate` of a list, which sorts the list first. -/
def updateList (fuel : Nat) (list : ListRef) (state : WalkState α σ) :
    Outcome ε (Option VisitError × WalkState α σ) :=
  updateLoop visitor fuel list 0
    { state with mem := state.mem.setList list (state.mem.sorted (state.mem.lists.get list)) }

/-- `VisitAndUpdate`, where the list to walk is looked up after the root was visited. -/
def visitAndUpdate (fuel : Nat) (mem : Memory α) (trie : TrieRef) (own : σ) :
    Outcome ε (Option VisitError × WalkState α σ) := do
  let path := mem.bytes trie
  let (err, mem, own) ← visitUpdate visitor path (mem.trie trie).item mem own
  match err with
  | some .skipSubtree => return (none, ⟨path, mem, own⟩)
  | some .other => return (some .other, ⟨path, mem, own⟩)
  | none => updateList visitor fuel (mem.trie trie).children ⟨path, mem, own⟩

end Memory

/--
A visitor that notes its calls, and on each of them does nothing or deletes the key it is called with.

What it does may depend on the memory and on the calls before.
-/
def deleting (trie : TrieRef) (choose : Memory α → List (Bytes × α) → Bytes → α → Bool) :
    UpdateFunc ε α (List (Bytes × α)) :=
  fun path item mem calls =>
    if choose mem calls path item then do
      let (_, mem) ← mem.delete trie (some path)
      return (none, mem, calls ++ [(path, item)])
    else return (none, mem, calls ++ [(path, item)])

end FlexSwitch.Patricia
