import FlexSwitch.Patricia.UpdateWalk

/-! The walk whose visitor gives items other values, and nothing else. -/

namespace FlexSwitch.Patricia

open Go Memory List Outcome

variable {ε α σ : Type} {mem mem' start : Memory α} {root node ref : TrieRef} {path key : Bytes}

namespace Memory

/-- The two memories have one trie, up to the order of children and the values of items. -/
structure SameShape (mem mem' : Memory α) : Prop where
  nodePrefix : ∀ ref, (mem'.trie ref).nodePrefix = (mem.trie ref).nodePrefix
  children : ∀ ref, (mem'.trie ref).children = (mem.trie ref).children
  stored : ∀ ref, (mem'.trie ref).item.isSome = (mem.trie ref).item.isSome
  lists : ∀ list, (mem'.lists.get list).Perm (mem.lists.get list)
  nodesNext : mem'.nodes.next = mem.nodes.next
  listsNext : mem'.lists.next = mem.lists.next

namespace SameShape

theorem refl (mem : Memory α) : SameShape mem mem :=
  ⟨fun _ => rfl, fun _ => rfl, fun _ => rfl, fun _ => .refl _, rfl, rfl⟩

theorem trans {last : Memory α} (first : SameShape mem mem') (second : SameShape mem' last) :
    SameShape mem last where
  nodePrefix ref := (second.nodePrefix ref).trans (first.nodePrefix ref)
  children ref := (second.children ref).trans (first.children ref)
  stored ref := (second.stored ref).trans (first.stored ref)
  lists list := (second.lists list).trans (first.lists list)
  nodesNext := second.nodesNext.trans first.nodesNext
  listsNext := second.listsNext.trans first.listsNext

theorem bytes_eq (same : SameShape mem mem') (ref : TrieRef) : mem'.bytes ref = mem.bytes ref := by
  rw [bytes, same.nodePrefix, bytes]

theorem wellFormed (same : SameShape mem mem') (wf : mem.WellFormed root) :
    mem'.WellFormed root ∧ ∀ {path ref}, mem'.At root path ref ↔ mem.At root path ref := by
  refine wf.reordered same.nodePrefix same.children same.lists (fun blank => ?_) same.nodesNext
    same.listsNext
  have bare := same.stored root
  rw [(wf.blank blank).2] at bare
  simpa using bare

end SameShape

theorem Permuted.sameShape (sorts : Permuted mem mem') : SameShape mem mem' where
  nodePrefix ref := by rw [sorts.trie_eq]
  children ref := by rw [sorts.trie_eq]
  stored ref := by rw [sorts.trie_eq]
  lists := sorts.lists
  nodesNext := by rw [sorts.nodes]
  listsNext := sorts.listsNext

theorem sameShape_setItem {old : α} (stored : (mem.trie node).item = some old) (item : α) :
    SameShape mem (mem.setItem node (some item)) where
  nodePrefix _ := nodePrefix_setItem
  children _ := children_setItem
  stored ref := by
    rw [trie_setItem]
    by_cases here : ref = node
    · rw [if_pos here, here, stored]
      rfl
    · rw [if_neg here]
  lists _ := .refl _
  nodesNext := rfl
  listsNext := rfl

/-- The loop of `put` follows a key that is there, and makes no node. -/
theorem WellFormed.putLoop_below (wf : mem.WellFormed root) {rest : Bytes} {target : TrieRef}
    (below : mem.graph.Below ref rest target) (reached : mem.At root path ref) {fuel : Nat}
    (enough : rest.length < fuel) :
    (putLoop fuel mem ref (mem.bytes ref ++ rest) : Outcome ε _) = .ok (target, mem) := by
  induction below generalizing path fuel with
  | @refl node =>
    cases fuel with
    | zero => omega
    | succ fuel => simp [putLoop, longestCommonPrefixLength_self]
  | @step node child target rest first below ih =>
    rcases fuel with _ | fuel
    · omega
    obtain ⟨b, more, bytes⟩ := exists_cons_of_ne_nil (wf.labelled reached first)
    have begins : (mem.bytes child).head? = some b := by rw [bytes]; rfl
    have label : mem.graph.label child = mem.bytes child := rfl
    have enough' : rest.length < fuel := by
      rw [label, bytes] at enough
      simp only [length_append, length_cons] at enough
      omega
    have found := ih (.step reached first) enough'
    rw [bytes] at found
    simp [putLoop, label, longestCommonPrefixLength_append, bytes,
      wf.next_child reached first begins]
    exact found

/-- A key that has an item is given another one, and no node is made. -/
theorem WellFormed.set_stored (wf : mem.WellFormed root) (reached : mem.At root key node)
    {old : α} (stored : (mem.trie node).item = some old) (item : α) :
    (mem.set root (some key) item : Outcome ε _) = .ok (mem.setItem node (some item)) := by
  have filled := wf.filled reached (by simp [stored])
  obtain ⟨rest, rfl, below⟩ := reached.from_root
  have label : mem.graph.label root = mem.bytes root := rfl
  have found : (mem.putNode root (mem.graph.label root ++ rest) : Outcome ε _) =
      .ok (node, mem) := by
    rw [putNode, if_neg filled, label]
    exact wf.putLoop_below below .root (by simp only [length_append]; omega)
  simp [set, put, found]

/-- What is stored for a key. -/
def itemAt (mem : Memory α) (root : TrieRef) (key : Bytes) : Option α :=
  (mem.get root key : Outcome Empty _).getD none

namespace WellFormed

variable (wf : mem.WellFormed root)

include wf

theorem itemAt_eq_some {item : α} : mem.itemAt root key = some item ↔ mem.Holds root key item := by
  obtain ⟨found, got⟩ := wf.get_returns (ε := Empty) key
  rw [← wf.get_eq_some (ε := Empty), itemAt, got]
  simp [Outcome.getD]

theorem get_eq_itemAt : (mem.get root key : Outcome ε _) = .ok (mem.itemAt root key) := by
  obtain ⟨found, got⟩ := wf.get_returns (ε := ε) key
  rw [got]
  -- Both lookups find what is stored.
  congr 1
  ext item
  rw [wf.itemAt_eq_some, ← wf.get_eq_some (ε := ε), got]
  simp

theorem itemAt_of_at (reached : mem.At root key node) {item : α}
    (stored : (mem.trie node).item = some item) : mem.itemAt root key = some item :=
  wf.itemAt_eq_some.mpr ⟨node, reached, stored⟩

theorem itemAt_setItem (reached : mem.At root key node) {old : α}
    (stored : (mem.trie node).item = some old) (item : α) (other : Bytes) :
    (mem.setItem node (some item)).itemAt root other =
      if other = key then some item else mem.itemAt root other := by
  obtain ⟨wf', -, holds⟩ := setItem_holds wf (wf.filled reached (by simp [stored])) reached _
  ext value
  rw [wf'.itemAt_eq_some, holds]
  by_cases here : other = key
  · simp [here]
  · simp [here, wf.itemAt_eq_some]

end WellFormed

/-- The order of children makes no difference to what is stored. -/
theorem Permuted.itemAt_eq (sorts : Permuted mem mem') (wf : mem.WellFormed root) :
    mem'.itemAt root key = mem.itemAt root key := by
  obtain ⟨wf', same⟩ := sorts.sameShape.wellFormed wf
  ext item
  simp only [wf'.itemAt_eq_some, wf.itemAt_eq_some, Holds, same, sorts.trie_eq]

/-- A trie has finitely many keys. -/
theorem WellFormed.finite_keys (wf : mem.WellFormed root) :
    {key | ∃ item, mem.Holds root key item}.Finite := by
  -- A node is at one path only, and there are finitely many of them.
  have nodes : ∀ key, (∃ item, mem.Holds root key item) → ∃ ref, mem.At root key ref := by
    rintro key ⟨item, ref, reached, -⟩
    exact ⟨ref, reached⟩
  choose! nodeOf reached using nodes
  refine Set.Finite.of_injOn (f := nodeOf) (t := Set.Iio mem.nodes.next) ?_ ?_ (Set.finite_Iio _)
  · intro key stored
    exact wf.allocated (reached key stored)
  · intro key stored other stored' same
    have first := reached key stored
    rw [same] at first
    exact wf.radix.unique first (reached other stored')

/--
A visitor that comes back and keeps the shape of the trie.

What it may rely on, and leaves so, does not depend on the order of children.
-/
structure Keeping (start : Memory α) (root : TrieRef) (Inv : Memory α → σ → Prop)
    (visitor : UpdateFunc ε α σ) : Prop where
  reordered : ∀ {mem mem' own}, SameShape start mem → Permuted mem mem' → Inv mem own → Inv mem' own
  visits : ∀ {path ref item mem own}, SameShape start mem → Inv mem own →
    start.At root path ref → (mem.trie ref).item = some item →
    ∃ err mem' own', visitor path item mem own = .ok (err, mem', own') ∧ SameShape start mem' ∧
      Inv mem' own'

section walk

variable {Inv : Memory α → σ → Prop} {visitor : UpdateFunc ε α σ} {own : σ}

theorem Keeping.visit (keeping : Keeping start root Inv visitor) (same : SameShape start mem)
    (holds : Inv mem own) (reached : start.At root path ref) :
    ∃ err mem' own', visitUpdate visitor path (mem.trie ref).item mem own =
      .ok (err, mem', own') ∧ SameShape start mem' ∧ Inv mem' own' := by
  cases stored : (mem.trie ref).item with
  | none => exact ⟨none, mem, own, rfl, same, holds⟩
  | some item => exact keeping.visits same holds reached stored

/-- The walk of a node's list comes back within the budget, whatever the visitor keeps. -/
def WalksWithin (ε σ : Type) (start : Memory α) (root ref : TrieRef) (path : Bytes)
    (enough : Nat) : Prop :=
  ∀ (Inv : Memory α → σ → Prop) (visitor : UpdateFunc ε α σ), Keeping start root Inv visitor →
    ∀ fuel mem own, enough ≤ fuel → SameShape start mem → Inv mem own →
      ∃ err mem' own', updateList visitor fuel (start.trie ref).children ⟨path, mem, own⟩ =
        .ok (err, ⟨path, mem', own'⟩) ∧ SameShape start mem' ∧ Inv mem' own'

/-- The loop over the children of a node comes to the end of their list. -/
theorem updateLoop_keeps (keeping : Keeping start root Inv visitor)
    (reached : start.At root path ref) {deeper : Nat}
    (walks : ∀ child, child ∈ start.childrenOf ref →
      WalksWithin ε σ start root child (path ++ start.bytes child) deeper)
    {left i fuel : Nat} (position : (start.childrenOf ref).length ≤ i + left)
    (enough : deeper + left < fuel) (same : SameShape start mem) (holds : Inv mem own) :
    ∃ err mem' own', updateLoop visitor fuel (start.trie ref).children i ⟨path, mem, own⟩ =
      .ok (err, ⟨path, mem', own'⟩) ∧ SameShape start mem' ∧ Inv mem' own' := by
  induction left generalizing i fuel mem own with
  | zero =>
    have past : (mem.lists.get (start.trie ref).children)[i]? = none := by
      rw [getElem?_eq_none_iff, (same.lists _).length_eq]
      exact position
    cases fuel with
    | zero => omega
    | succ fuel => exact ⟨none, mem, own, by simp [updateLoop, past], same, holds⟩
  | succ left ih =>
    rcases fuel with _ | fuel
    · omega
    rcases here : (mem.lists.get (start.trie ref).children)[i]? with _ | child
    · exact ⟨none, mem, own, by simp [updateLoop, here], same, holds⟩
    have below : child ∈ start.childrenOf ref :=
      (same.lists _).mem_iff.mp (mem_of_getElem? here)
    have atChild : start.At root (path ++ start.bytes child) child := reached.step below
    have cut (mem' : Memory α) (same' : SameShape start mem') :
        (truncate (path ++ start.bytes child) (mem'.bytes child).length : Outcome ε _) =
          .ok path := by
      rw [same'.bytes_eq]
      exact truncate_append path _
    obtain ⟨err, visited, own', visit, same', holds'⟩ := keeping.visit same holds atChild
    cases err with
    | none =>
      -- The list of the child is walked before the loop goes on.
      obtain ⟨err, walked, own'', walk, same'', holds''⟩ :=
        walks child below Inv visitor keeping fuel visited own' (by omega) same' holds'
      have entered : updateList visitor fuel (visited.trie child).children
          ⟨path ++ start.bytes child, visited, own'⟩ =
            .ok (err, ⟨path ++ start.bytes child, walked, own''⟩) := by
        rw [same'.children]
        exact walk
      have size : ¬(walked.lists.get (start.trie ref).children).length <
          (mem.lists.get (start.trie ref).children).length := by
        rw [(same''.lists _).length_eq, (same.lists _).length_eq]
        omega
      simp only [updateList] at entered
      rw [updateLoop]
      simp only [here, same.bytes_eq, visit, ok_bind, entered, cut walked same'', if_neg size]
      cases err with
      | some err => exact ⟨some err, walked, own'', rfl, same'', holds''⟩
      | none => exact @ih walked own'' (i + 1) fuel (by omega) (by omega) same'' holds''
    | some err =>
      rw [updateLoop]
      simp only [here, same.bytes_eq, visit, ok_bind]
      cases err with
      | skipSubtree =>
        simp only [cut visited same', ok_bind]
        exact @ih visited own' (i + 1) fuel (by omega) (by omega) same' holds'
      | other =>
        simp only [cut visited same', ok_bind]
        exact ⟨some .other, visited, own', rfl, same', holds'⟩

/-- The walk of a node's list, by induction on the levels under the node. -/
theorem exists_walksWithin (ε σ : Type) {levels : Nat} (deep : start.graph.Levels levels ref)
    (reached : start.At root path ref) : ∃ enough, WalksWithin ε σ start root ref path enough := by
  induction levels generalizing ref path with
  | zero => exact deep.elim
  | succ levels ih =>
    -- One budget is enough for each of the children.
    have children : ∀ nodes : List TrieRef, (∀ child ∈ nodes, child ∈ start.childrenOf ref) →
        ∃ deeper, ∀ child ∈ nodes,
          WalksWithin ε σ start root child (path ++ start.bytes child) deeper := by
      intro nodes inside
      induction nodes with
      | nil => exact ⟨0, nofun⟩
      | cons first rest more =>
        have below := inside first mem_cons_self
        obtain ⟨one, walksFirst⟩ := ih (deep first below) (reached.step below)
        obtain ⟨other, walksRest⟩ := more fun child member =>
          inside child (mem_cons_of_mem _ member)
        refine ⟨max one other, fun child member => ?_⟩
        intro Inv visitor keeping fuel mem own enough
        rcases mem_cons.mp member with rfl | member
        · exact walksFirst Inv visitor keeping fuel mem own (le_of_max_le_left enough)
        · exact walksRest child member Inv visitor keeping fuel mem own (le_of_max_le_right enough)
    obtain ⟨deeper, walks⟩ := children _ fun _ member => member
    refine ⟨deeper + (start.childrenOf ref).length + 1, ?_⟩
    intro Inv visitor keeping fuel mem own enough same holds
    have sorts := permuted_sorted mem (start.trie ref).children
    have all : (start.childrenOf ref).length ≤ 0 + (start.childrenOf ref).length := by omega
    exact updateLoop_keeps keeping reached walks all (by omega) (same.trans sorts.sameShape)
      (keeping.reordered same sorts holds)

/-- The walk of a trie comes back within the budget, with what the visitor keeps. -/
def VisitsWithin (ε σ : Type) (start : Memory α) (root : TrieRef) (enough : Nat) : Prop :=
  ∀ (Inv : Memory α → σ → Prop) (visitor : UpdateFunc ε α σ), Keeping start root Inv visitor →
    ∀ fuel mem own, enough ≤ fuel → SameShape start mem → Inv mem own →
      ∃ err state, visitAndUpdate visitor fuel mem root own = .ok (err, state) ∧
        SameShape start state.mem ∧ Inv state.mem state.own

/-- One budget is enough for every walk whose visitor keeps the trie in shape. -/
theorem WellFormed.exists_visitsWithin (ε σ : Type) (wf : start.WellFormed root) :
    ∃ enough, VisitsWithin ε σ start root enough := by
  obtain ⟨enough, walks⟩ := exists_walksWithin ε σ (wf.levels .root) .root
  refine ⟨enough, fun Inv visitor keeping fuel mem own within same holds => ?_⟩
  obtain ⟨err, visited, own', visit, same', holds'⟩ := keeping.visit same holds .root
  have path : mem.bytes root = start.bytes root := same.bytes_eq root
  have label : start.graph.label root = start.bytes root := rfl
  rw [label] at visit
  rw [visitAndUpdate, path, visit, ok_bind]
  cases err with
  | none =>
    obtain ⟨err, walked, own'', walk, same'', holds''⟩ :=
      walks Inv visitor keeping fuel visited own' within same' holds'
    refine ⟨err, ⟨start.bytes root, walked, own''⟩, ?_, same'', holds''⟩
    dsimp only
    rw [same'.children]
    exact walk
  | some err =>
    cases err with
    | skipSubtree => exact ⟨none, ⟨_, visited, own'⟩, rfl, same', holds'⟩
    | other => exact ⟨some .other, ⟨_, visited, own'⟩, rfl, same', holds'⟩

end walk

end Memory

end FlexSwitch.Patricia
