import FlexSwitch.Patricia.Update

/-! A walk that deletes as it goes calls its visitor once for every key, if no node is compacted. -/

namespace FlexSwitch.Patricia

open Go Memory List

variable {ε α : Type} {mem mem' start : Memory α} {root parent node child ref : TrieRef}
  {path key : Bytes}

namespace Memory

/-- Deleting the key merges its node into a child: the only one, without an item, and short. -/
def Compactable (mem : Memory α) (root : TrieRef) (key : Bytes) : Prop :=
  ∃ node child, mem.At root key node ∧ mem.childrenOf node = [child] ∧
    (mem.trie child).item = none ∧
    (mem.bytes node).length + (mem.bytes child).length ≤ defaultMaxPrefixPerNode

/-- A deletion that does not compact keeps the node, or takes it out, or resets the trie. -/
theorem delete_plain (wf : mem.WellFormed root) (reached : mem.At root key node)
    (stored : (mem.trie node).item ≠ none)
    (plain : ¬mem.Compactable root key) :
    ∃ sorts, SortedUnder (mem.setItem node none) sorts [node] ∧
      ((¬(mem.setItem node none).Bare node ∧
          (mem.delete root (some key) : Outcome ε _) = .ok (true, sorts)) ∨
        ((mem.setItem node none).Bare node ∧ node = root ∧
          (mem.delete root (some key) : Outcome ε _) = .ok (true, sorts.reset node)) ∨
        ((mem.setItem node none).Bare node ∧ ∃ path parent before after, mem.At root path parent ∧
          mem.childrenOf parent = before ++ node :: after ∧
          (mem.delete root (some key) : Outcome ε _) =
            .ok (true, sorts.setChildren parent (before ++ after)))) := by
  have filled := wf.filled reached stored
  obtain ⟨wf', same, -⟩ := setItem_holds wf filled reached none
  obtain ⟨above, parentOf, search⟩ := wf.findSubtree_at (ε := ε) reached
  -- Nothing is compacted, so what is left is to look for items under the node.
  have stays : (mem.setItem node none).compact node = (node, mem.setItem node none) := by
    refine (compact_cases _ node).resolve_right ?_
    rintro ⟨child, only, -, bare, fits, -⟩
    rw [childrenOf_setItem] at only
    rw [bytes_setItem, bytes_setItem] at fits
    have apart : child ≠ node := wf.radix.child_ne reached (by simp [graph, only])
    rw [trie_setItem, if_neg apart] at bare
    exact plain ⟨node, child, reached, only, bare, fits⟩
  have whole : (mem.delete root (some key) : Outcome ε _) =
      (mem.setItem node none).removeEmpty above node >>= fun last => .ok (true, last) := by
    have compacted : ((mem.setItem node none).compactDeleted above node : Outcome ε _) =
        .ok (mem.setItem node none) := by simp [compactDeleted, stays]
    rw [delete, if_neg filled]
    simp [search, stored, compacted]
  obtain ⟨sorts, isEmpty, emptied, sorted, bare⟩ :=
    empty_bare (ε := ε) (wf'.levels (same.mpr reached))
  refine ⟨sorts, sorted, ?_⟩
  rw [whole, removeEmpty, emptied]
  rcases isEmpty with _ | _
  · exact .inl ⟨fun none => by simpa using bare.mpr none, rfl⟩
  have bare := bare.mp rfl
  refine .inr ?_
  rcases above with _ | parent
  · exact .inl ⟨bare, parentOf, rfl⟩
  obtain ⟨pathP, atP, below⟩ := parentOf
  have permuted := sorted.toPermuted
  obtain ⟨wfS, atS⟩ := permuted.wellFormed wf'
  have below' : node ∈ (mem.setItem node none).childrenOf parent := by rwa [childrenOf_setItem]
  -- The list of the parent is not under the node, so it is as it was.
  have list : sorts.childrenOf parent = mem.childrenOf parent := by
    rw [← @childrenOf_setItem _ mem node parent none, childrenOf, permuted.trie_eq]
    refine sorted.others _ fun upper member lower under shared => ?_
    rw [mem_singleton.mp member] at under
    obtain ⟨rest, atL⟩ := WellFormed.at_of_under (same.mpr reached) under
    exact wf'.under_ne_parent (same.mpr atP) below' under
      (wf'.ownList atL (same.mpr atP) shared)
  have atPS := atS.mpr (same.mpr atP)
  have belowS : node ∈ sorts.childrenOf parent := by rwa [list]
  obtain ⟨b, begins⟩ := Option.ne_none_iff_exists'.mp
    (mt head?_eq_none_iff.mp (wfS.labelled atPS belowS))
  rcases remove_cases (ε := ε) (fun other member => wfS.labelled atPS member) begins with
    ⟨before, other, after, split, begins', removed⟩ | ⟨lacks, -⟩
  · have found : other = node := wfS.radix.distinct atPS (by simp [graph, split]) belowS
      (begins'.trans begins.symm)
    rw [found] at split
    refine .inr ⟨bare, pathP, parent, before, after, atP, by rw [← list, split], ?_⟩
    simp [removed]
  · exact absurd begins (lacks node belowS)

/-- A node is under a child of another one. -/
def StrictlyUnder (mem : Memory α) (upper lower : TrieRef) : Prop :=
  ∃ child, child ∈ mem.childrenOf upper ∧ mem.Under child lower

theorem under_iff_strictly {lower : TrieRef} :
    mem.Under ref lower ↔ lower = ref ∨ mem.StrictlyUnder ref lower := by
  constructor
  · intro under
    rcases under.cases_head with rfl | ⟨child, below, under⟩
    · exact .inl rfl
    · exact .inr ⟨child, below, under⟩
  · rintro (rfl | ⟨child, below, under⟩)
    · exact .refl
    · exact .head below under

theorem WellFormed.under_apart (wf : mem.WellFormed root) (reached : mem.At root path parent)
    {one two lower : TrieRef} (first : one ∈ mem.childrenOf parent)
    (second : two ∈ mem.childrenOf parent) (under : mem.Under one lower)
    (under' : mem.Under two lower) : one = two := by
  obtain ⟨rest, atL⟩ := WellFormed.at_of_under (.step reached first) under
  obtain ⟨rest', atL'⟩ := WellFormed.at_of_under (.step reached second) under'
  have same := wf.radix.unique atL atL'
  rw [append_assoc, append_assoc, append_cancel_left_eq] at same
  have le : mem.graph.label one ++ rest <+: mem.graph.label two ++ rest' := by rw [same]
  exact wf.radix.child_eq reached first second le

theorem WellFormed.not_under_child (wf : mem.WellFormed root) (reached : mem.At root path parent)
    (below : child ∈ mem.childrenOf parent) : ¬mem.Under child parent := fun under =>
  wf.under_ne_parent reached below under rfl

/-- The memory in the course of a walk: a trie, with the nodes of the start where they were. -/
structure Intact (start mem : Memory α) (root : TrieRef) : Prop where
  wellFormed : mem.WellFormed root
  nodePrefix : ∀ ref, (mem.trie ref).nodePrefix = (start.trie ref).nodePrefix
  children : ∀ ref, (mem.trie ref).children = (start.trie ref).children

theorem Intact.bytes_eq (intact : Intact start mem root) (ref : TrieRef) :
    mem.bytes ref = start.bytes ref := by
  rw [bytes, intact.nodePrefix, bytes]

/-- What is under the node is as it was at the start, up to the order of children. -/
structure Pristine (start mem : Memory α) (ref : TrieRef) : Prop where
  tries : ∀ lower, start.StrictlyUnder ref lower → mem.trie lower = start.trie lower
  lists : ∀ lower, start.Under ref lower → (mem.childrenOf lower).Perm (start.childrenOf lower)

theorem Pristine.under_iff (pristine : Pristine start mem ref) {lower : TrieRef} :
    mem.Under ref lower ↔ start.Under ref lower := by
  constructor
  · intro under
    induction under with
    | refl => exact .refl
    | tail _ below ih => exact .tail ih ((pristine.lists _ ih).mem_iff.mp below)
  · intro under
    induction under with
    | refl => exact .refl
    | tail upper below ih => exact .tail ih ((pristine.lists _ upper).mem_iff.mpr below)

/-- There was no item under the node at the start. -/
def Dead (start : Memory α) (ref : TrieRef) : Prop :=
  ∀ lower, start.StrictlyUnder ref lower → (start.trie lower).item = none

/-- What a visit of a child leaves: the child stays, or goes with nothing under it. -/
structure Visited (start mem mem' : Memory α) (root parent child : TrieRef) (path : Bytes)
    (before after : List TrieRef) : Prop where
  intact : Intact start mem' root
  tries : ∀ ref, ref ≠ child → mem'.trie ref = mem.trie ref
  lists : ∀ {other ref}, start.At root other ref → ¬start.Under child ref → ref ≠ parent →
    mem'.childrenOf ref = mem.childrenOf ref
  pristine : Pristine start mem' child
  place : mem'.childrenOf parent = before ++ child :: after ∨
    mem'.childrenOf parent = before ++ after
  live : mem'.At root path child ∨ start.Dead child
  stays : ∀ {other ref}, ¬start.Under child ref → mem.At root other ref → mem'.At root other ref

section visit

variable (wf : start.WellFormed root) (reached : start.At root path parent)
  (below : child ∈ start.childrenOf parent) (intact : Intact start mem root)
  {before after : List TrieRef} (place : mem.childrenOf parent = before ++ child :: after)
  (pristine : Pristine start mem child)

include intact place pristine in
/-- Nothing is done to the trie. -/
theorem visited_refl (live : mem.At root path parent ∨ start.Dead parent)
    (below : child ∈ start.childrenOf parent) :
    Visited start mem mem root parent child (path ++ start.bytes child) before after where
  intact := intact
  tries := fun _ _ => rfl
  lists := fun _ _ _ => rfl
  pristine := pristine
  place := .inl place
  live := by
    refine live.imp (fun atP => ?_) fun dead lower under => ?_
    · rw [← intact.bytes_eq]
      exact .step atP (by simp [graph, place])
    · obtain ⟨next, further, under⟩ := under
      exact dead lower ⟨child, below, .head further under⟩
  stays := fun _ reached => reached

include wf reached below intact place pristine in
/-- The key of the child is deleted. -/
theorem visited_deleted (atP : mem.At root path parent) (stored : (mem.trie child).item ≠ none)
    (plain : ¬start.Compactable root (path ++ start.bytes child)) :
    ∃ mem', (mem.delete root (some (path ++ start.bytes child)) : Outcome ε _) = .ok (true, mem') ∧
      Visited start mem mem' root parent child (path ++ start.bytes child) before after := by
  have wfM := intact.wellFormed
  have belowM : child ∈ mem.childrenOf parent := by simp [place]
  have atC : mem.At root (path ++ start.bytes child) child := by
    rw [← intact.bytes_eq]
    exact .step atP belowM
  have filled : mem.Filled root := wfM.not_blank atP belowM
  have notUnder : ¬start.Under child parent := wf.not_under_child reached below
  have plainM : ¬mem.Compactable root (path ++ start.bytes child) := by
    rintro ⟨other, lower, atO, only, bare, fits⟩
    cases wfM.radix.node_eq atC atO
    have perm := pristine.lists child .refl
    rw [only, singleton_perm] at perm
    have belowL : lower ∈ start.childrenOf child := by simp [← perm]
    rw [pristine.tries lower ⟨lower, belowL, .refl⟩] at bare
    rw [intact.bytes_eq, intact.bytes_eq] at fits
    exact plain ⟨child, lower, .step reached below, perm.symm, bare, fits⟩
  obtain ⟨sorts, sorted, cases'⟩ := delete_plain (ε := ε) wfM atC stored plainM
  obtain ⟨wfI, atI, -⟩ := setItem_holds wfM filled atC none
  have permuted := sorted.toPermuted
  obtain ⟨wfS, atS⟩ := permuted.wellFormed wfI
  have shape (ref) : (sorts.trie ref).nodePrefix = (start.trie ref).nodePrefix ∧
      (sorts.trie ref).children = (start.trie ref).children := by
    rw [permuted.trie_eq, nodePrefix_setItem, children_setItem]
    exact ⟨intact.nodePrefix ref, intact.children ref⟩
  have intactS : Intact start sorts root := ⟨wfS, fun ref => (shape ref).1, fun ref => (shape ref).2⟩
  have tries (ref) (apart : ref ≠ child) : sorts.trie ref = mem.trie ref := by
    rw [permuted.trie_eq, trie_setItem, if_neg apart]
  have underI {lower} : (mem.setItem child none).Under child lower ↔ start.Under child lower := by
    rw [← pristine.under_iff]
    exact under_frame fun lower _ => childrenOf_setItem
  -- Lists of nodes that are not under the child are not sorted.
  have lists {other ref} (reachedR : start.At root other ref) (apart : ¬start.Under child ref) :
      sorts.childrenOf ref = mem.childrenOf ref := by
    rw [childrenOf, (shape ref).2, ← intact.children ref, sorted.others _ ?_]
    · rfl
    · intro upper member lower under shared
      rw [mem_singleton.mp member] at under
      have under := underI.mp under
      obtain ⟨rest, atL⟩ := WellFormed.at_of_under (.step reached below) under
      rw [children_setItem, intact.children, intact.children] at shared
      exact apart (wf.ownList atL reachedR shared ▸ under)
  have perms (lower) (under : start.Under child lower) :
      (sorts.childrenOf lower).Perm (start.childrenOf lower) := by
    refine List.Perm.trans ?_ (pristine.lists lower under)
    rw [childrenOf, (shape lower).2, ← intact.children lower]
    exact permuted.lists _
  have pristineS : Pristine start sorts child := by
    refine ⟨fun lower under => ?_, perms⟩
    obtain ⟨next, further, under⟩ := under
    rw [tries lower (wf.under_ne_parent (.step reached below) further under)]
    exact pristine.tries lower ⟨next, further, under⟩
  have listP : sorts.childrenOf parent = before ++ child :: after := by
    rw [lists reached notUnder, place]
  rcases cases' with ⟨-, deleted⟩ | ⟨-, atRoot, -⟩ |
    ⟨bare, path', parent', before', after', atP', split, deleted⟩
  · exact ⟨sorts, deleted, intactS, tries, fun reachedR apart _ => lists reachedR apart, pristineS,
      .inl listP, .inl (atS.mpr (atI.mpr atC)), fun _ reachedR => atS.mpr (atI.mpr reachedR)⟩
  · exact absurd atRoot (wfM.radix.child_ne_root atP belowM)
  · have belowM' : child ∈ mem.childrenOf parent' := by simp [split]
    cases wfM.radix.parent_eq atP atP' belowM belowM'
    -- The child is in the list once, so what is before and after it is what was.
    have nodup : (mem.childrenOf parent).Nodup := wfM.radix.nodup atP
    rw [place, nodup_middle, nodup_cons, mem_append, not_or] at nodup
    rw [place, append_cons_inj_of_notMem nodup.1.1 nodup.1.2] at split
    obtain ⟨rfl, -, rfl⟩ := split
    have bareS : sorts.Bare child := permuted.bare_iff.mpr bare
    have atPS := atS.mpr (atI.mpr atP)
    have unlink := unlink_setChildren atPS listP bareS
    have apart {other ref} (reachedR : start.At root other ref) (refP : ref ≠ parent) :
        (sorts.setChildren parent (before ++ after)).childrenOf ref = sorts.childrenOf ref := by
      rw [childrenOf, trie_setChildren, lists_setChildren, (shape ref).2, (shape parent).2,
        if_neg fun shared => refP (wf.ownList reachedR reached shared), childrenOf, (shape ref).2]
    refine ⟨_, deleted, ⟨(unlink.keeps wfS).wellFormed, fun ref => (shape ref).1,
      fun ref => (shape ref).2⟩, tries, fun reachedR under refP => ?_, ⟨pristineS.tries,
      fun lower under => ?_⟩, .inr ?_, .inr fun lower under => ?_, fun under reachedR => ?_⟩
    · rw [apart reachedR refP, lists reachedR under]
    · obtain ⟨rest, atL⟩ := WellFormed.at_of_under (.step reached below) under
      rw [apart atL (wf.under_ne_parent reached below under)]
      exact perms lower under
    · rw [childrenOf, trie_setChildren, lists_setChildren, if_pos rfl]
    · have none := bareS lower (permuted.under_iff.mpr (underI.mpr (under_iff_strictly.mpr (.inr under))))
      rwa [pristineS.tries lower under] at none
    · refine (unlink.at_iff wfS).mpr ⟨atS.mpr (atI.mpr reachedR), fun rest lower => under ?_⟩
      exact underI.mp (permuted.under_iff.mp (under_of_below lower))

end visit

/-- What is stored at a node and under it, by the full key. -/
def Entry (start : Memory α) (ref : TrieRef) (path key : Bytes) (item : α) : Prop :=
  ∃ rest lower, start.graph.Below ref rest lower ∧ key = path ++ rest ∧
    (start.trie lower).item = some item

/-- What is stored under the children of a node. -/
def EntryBelow (start : Memory α) (ref : TrieRef) (path key : Bytes) (item : α) : Prop :=
  ∃ child, child ∈ start.childrenOf ref ∧ start.Entry child (path ++ start.bytes child) key item

theorem entry_iff {item : α} : start.Entry ref path key item ↔
      (key = path ∧ (start.trie ref).item = some item) ∨ start.EntryBelow ref path key item := by
  constructor
  · rintro ⟨rest, lower, below, rfl, stored⟩
    cases below with
    | refl => exact .inl ⟨append_nil _, stored⟩
    | @step _ child _ rest first below =>
      exact .inr ⟨child, first, rest, lower, below, (append_assoc _ _ _).symm, stored⟩
  · rintro (⟨rfl, stored⟩ | ⟨child, first, rest, lower, below, rfl, stored⟩)
    · exact ⟨[], ref, .refl, (append_nil _).symm, stored⟩
    · exact ⟨_, lower, .step first below, append_assoc _ _ _, stored⟩

/-- The call for a node itself, if it has an item. -/
def ownEntry (start : Memory α) (ref : TrieRef) (path : Bytes) : List (Bytes × α) :=
  match (start.trie ref).item with
  | some item => [(path, item)]
  | none => []

/-- The calls of a visitor are those for the entries, each one once. -/
structure Lists (entries : List (Bytes × α)) (Stored : Bytes → α → Prop) : Prop where
  once : (entries.map Prod.fst).Nodup
  all : ∀ key item, (key, item) ∈ entries ↔ Stored key item

/-- What a walk below a node leaves as it was. -/
structure Walked (start mem mem' : Memory α) (root ref : TrieRef) : Prop where
  intact : Intact start mem' root
  tries : ∀ other, ¬start.StrictlyUnder ref other → mem'.trie other = mem.trie other
  lists : ∀ {path other}, start.At root path other → ¬start.Under ref other →
    mem'.childrenOf other = mem.childrenOf other
  stays : ∀ {path other}, ¬start.StrictlyUnder ref other → mem.At root path other →
    mem'.At root path other

/-- The walk of the list of a node calls its visitor for what is under the node. -/
def WalksBelow (visitor : UpdateFunc ε α (List (Bytes × α))) (start : Memory α) (root ref : TrieRef)
    (path : Bytes) : Prop :=
  ∀ mem calls, Intact start mem root → Pristine start mem ref →
    (mem.At root path ref ∨ start.Dead ref) →
    ∃ mem' entries enough, Walked start mem mem' root ref ∧
      Lists entries (start.EntryBelow ref path) ∧
      ∀ fuel, enough ≤ fuel → updateList visitor fuel (start.trie ref).children ⟨path, mem, calls⟩ =
          .ok (none, ⟨path, mem', calls ++ entries⟩)

section walk

variable {choose : Memory α → List (Bytes × α) → Bytes → α → Bool} (wf : start.WellFormed root)
  (never : ∀ mem calls key item, start.Compactable root key → choose mem calls key item = false)

include wf never in
/-- A child is visited: its item is noted, and its key deleted or not. -/
theorem visit_child {before after : List TrieRef} (calls : List (Bytes × α))
    (reached : start.At root path parent) (below : child ∈ start.childrenOf parent)
    (intact : Intact start mem root) (place : mem.childrenOf parent = before ++ child :: after)
    (pristine : Pristine start mem child) (same : mem.trie child = start.trie child)
    (live : mem.At root path parent ∨ start.Dead parent) :
    ∃ mem', visitUpdate (deleting root choose : UpdateFunc ε α _) (path ++ start.bytes child)
        (mem.trie child).item mem calls =
          .ok (none, mem', calls ++ start.ownEntry child (path ++ start.bytes child)) ∧
      Visited start mem mem' root parent child (path ++ start.bytes child) before after := by
  have stays := visited_refl intact place pristine live below
  rw [same, ownEntry]
  rcases stored : (start.trie child).item with _ | item
  · exact ⟨mem, by simp [visitUpdate], stays⟩
  rcases chosen : choose mem calls (path ++ start.bytes child) item with _ | _
  · exact ⟨mem, by simp [visitUpdate, deleting, chosen], stays⟩
  have plain : ¬start.Compactable root (path ++ start.bytes child) := fun compactable => by
    rw [never mem calls _ item compactable] at chosen
    cases chosen
  -- There is an item under the parent, so the parent has to be there still.
  have atP := live.resolve_right fun dead => by
    rw [dead child ⟨child, below, .refl⟩] at stored
    cases stored
  obtain ⟨mem', deleted, visited⟩ := visited_deleted (ε := ε) wf reached below intact place
    pristine atP (by simp [same, stored]) plain
  exact ⟨mem', by simp [visitUpdate, deleting, chosen, deleted], visited⟩

include wf in
/-- The calls for a node are the one for its own key and those for what is under it. -/
theorem lists_entry {entries : List (Bytes × α)} (reached : start.At root path ref)
    (lists : Lists entries (start.EntryBelow ref path)) :
    Lists (start.ownEntry ref path ++ entries) (start.Entry ref path) := by
  have longer {key item} (entry : start.EntryBelow ref path key item) : key ≠ path := by
    obtain ⟨child, below, rest, lower, -, rfl, -⟩ := entry
    intro same
    rw [append_assoc] at same
    have empty := append_right_eq_self.mp same
    exact wf.labelled reached below (append_eq_nil_iff.mp empty).1
  constructor
  · rw [ownEntry]
    cases (start.trie ref).item with
    | none => exact lists.once
    | some item =>
      refine nodup_cons.mpr ⟨fun member => ?_, lists.once⟩
      obtain ⟨⟨key, value⟩, member, same⟩ := mem_map.mp member
      exact longer ((lists.all key value).mp member) same
  · intro key item
    rw [entry_iff, mem_append, lists.all, ownEntry]
    cases (start.trie ref).item with
    | none => simp
    | some value => simp [eq_comm]

include wf in
/-- The calls for a child and those for the children after it are all different. -/
theorem lists_children {entries more : List (Bytes × α)} {after : List TrieRef}
    (reached : start.At root path ref) (nodup : (child :: after).Nodup)
    (below : ∀ other, other ∈ child :: after → other ∈ start.childrenOf ref)
    (first : Lists entries (start.Entry child (path ++ start.bytes child)))
    (rest : Lists more fun key item => ∃ other, other ∈ after ∧
      start.Entry other (path ++ start.bytes other) key item) :
    Lists (entries ++ more) fun key item => ∃ other, other ∈ child :: after ∧
      start.Entry other (path ++ start.bytes other) key item := by
  constructor
  · rw [map_append, nodup_append]
    refine ⟨first.once, rest.once, fun key member key' member' same => ?_⟩
    obtain ⟨⟨one, item⟩, called, rfl⟩ := mem_map.mp member
    obtain ⟨⟨two, item'⟩, called', rfl⟩ := mem_map.mp member'
    obtain ⟨left, lower, -, oneEq, -⟩ := (first.all one item).mp called
    obtain ⟨other, here, right, lower', -, twoEq, -⟩ := (rest.all two item').mp called'
    rw [oneEq, twoEq, append_assoc, append_assoc, append_cancel_left_eq] at same
    have le : start.graph.label child ++ left <+: start.graph.label other ++ right := by
      show start.bytes child ++ left <+: start.bytes other ++ right
      rw [same]
    cases wf.radix.child_eq reached (below child mem_cons_self)
      (below other (mem_cons_of_mem _ here)) le
    exact (nodup_cons.mp nodup).1 here
  · intro key item
    rw [mem_append, first.all, rest.all]
    simp

theorem truncate_append (path bytes : Bytes) :
    (truncate (path ++ bytes) bytes.length : Outcome ε Bytes) = .ok path := by
  rw [truncate, if_pos (by simp)]
  simp

include wf never in
/-- The loop over the children of a node visits them and what is under them, one by one. -/
theorem updateLoop_walks (reached : start.At root path ref)
    (walks : ∀ child, child ∈ start.childrenOf ref →
      WalksBelow (deleting root choose : UpdateFunc ε α _) start root child (path ++ start.bytes child))
    (after before : List TrieRef) (mem : Memory α) (calls : List (Bytes × α))
    (intact : Intact start mem root) (place : mem.childrenOf ref = before ++ after)
    (nodup : after.Nodup)
    (fresh : ∀ child, child ∈ after → child ∈ start.childrenOf ref ∧
      mem.trie child = start.trie child ∧ Pristine start mem child)
    (live : mem.At root path ref ∨ start.Dead ref) :
    ∃ mem' entries enough, Walked start mem mem' root ref ∧
      Lists entries (fun key item => ∃ child, child ∈ after ∧
        start.Entry child (path ++ start.bytes child) key item) ∧
      ∀ fuel, enough ≤ fuel →
        updateLoop (deleting root choose : UpdateFunc ε α _) fuel (start.trie ref).children
          before.length ⟨path, mem, calls⟩ = .ok (none, ⟨path, mem', calls ++ entries⟩) := by
  induction after generalizing before mem calls with
  | nil =>
    refine ⟨mem, [], 1, ⟨intact, fun _ _ => rfl, fun _ _ => rfl, fun _ reached => reached⟩,
      ⟨nodup_nil, by simp⟩, fun fuel enough => ?_⟩
    have list : mem.lists.get (start.trie ref).children = before := by
      rw [← intact.children, ← childrenOf, place, append_nil]
    cases fuel with
    | zero => omega
    | succ fuel => simp [updateLoop, list]
  | cons child after ih =>
    obtain ⟨below, same, pristine⟩ := fresh child mem_cons_self
    obtain ⟨notAfter, nodupAfter⟩ := nodup_cons.mp nodup
    obtain ⟨memV, visit, visited⟩ := visit_child (ε := ε) wf never calls reached below intact
      place pristine same live
    obtain ⟨memN, entriesC, enoughC, walked, listsC, walkC⟩ := walks child below memV
      (calls ++ start.ownEntry child (path ++ start.bytes child)) visited.intact visited.pristine
      visited.live
    have notUnder : ¬start.Under child ref := wf.not_under_child reached below
    have strictly {upper lower} (further : start.StrictlyUnder upper lower) :
      start.Under upper lower := under_iff_strictly.mpr (.inr further)
    -- What is under another child was not touched.
    have apart {other lower} (later : other ∈ after) (under : start.Under other lower) :
        ¬start.Under child lower := fun under' => by
      cases wf.under_apart reached (fresh other (mem_cons_of_mem _ later)).1 below under under'
      exact notAfter later
    have triesN {lower} (outside : ¬start.Under child lower) : memN.trie lower = mem.trie lower := by
      rw [walked.tries lower fun further => outside (strictly further),
        visited.tries lower fun here => outside (here ▸ .refl)]
    have listsN {other lower} (reachedL : start.At root other lower)
        (outside : ¬start.Under child lower) (lowerR : lower ≠ ref) :
        memN.childrenOf lower = mem.childrenOf lower := by
      rw [walked.lists reachedL outside, visited.lists reachedL outside lowerR]
    have staysN {other lower} (outside : ¬start.Under child lower)
        (atL : mem.At root other lower) : memN.At root other lower :=
      walked.stays (fun further => outside (strictly further)) (visited.stays outside atL)
    have listN : memN.childrenOf ref = memV.childrenOf ref := walked.lists reached notUnder
    have freshN (other) (later : other ∈ after) : other ∈ start.childrenOf ref ∧
        memN.trie other = start.trie other ∧ Pristine start memN other := by
      obtain ⟨belowO, sameO, pristineO⟩ := fresh other (mem_cons_of_mem _ later)
      refine ⟨belowO, by rw [triesN (apart later .refl), sameO], fun lower further => ?_,
        fun lower under => ?_⟩
      · rw [triesN (apart later (strictly further)), pristineO.tries lower further]
      · obtain ⟨rest, atL⟩ := WellFormed.at_of_under (.step reached belowO) under
        rw [listsN atL (apart later under) (wf.under_ne_parent reached belowO under)]
        exact pristineO.lists lower under
    have liveN : memN.At root path ref ∨ start.Dead ref := live.imp_left (staysN notUnder)
    -- The child is still in the list, or was taken out of it and the index stays.
    obtain ⟨next, placeN, index⟩ : ∃ next : List TrieRef, memN.childrenOf ref = next ++ after ∧
        (if (memN.childrenOf ref).length < (mem.childrenOf ref).length then before.length
          else before.length + 1) = next.length := by
      rcases visited.place with kept | removed
      · exact ⟨before ++ [child], by simp [listN, kept], by simp [listN, kept, place]⟩
      · exact ⟨before, by simp [listN, removed], by simp [listN, removed, place]⟩
    obtain ⟨mem', more, enough', walked', listsR, walkR⟩ := ih next memN
      (calls ++ start.ownEntry child _ ++ entriesC) walked.intact placeN
      nodupAfter freshN liveN
    have listsAll := lists_children wf reached nodup (fun other member => (fresh other member).1)
      (lists_entry wf (.step reached below) listsC) listsR
    refine ⟨mem', _, max enoughC enough' + 1, ⟨walked'.intact, fun other outside => ?_,
      fun atO outside => ?_, fun outside atO => ?_⟩, listsAll, fun fuel enough => ?_⟩
    · rw [walked'.tries other outside, triesN fun under => outside ⟨child, below, under⟩]
    · rw [walked'.lists atO outside, listsN atO (fun under => outside (.head below under))
        fun here => outside (here ▸ .refl)]
    · exact walked'.stays outside (staysN (fun under => outside ⟨child, below, under⟩) atO)
    · rcases fuel with _ | fuel
      · omega
      have listM : mem.lists.get (start.trie ref).children = mem.childrenOf ref := by
        rw [childrenOf, intact.children]
      have listM' : memN.lists.get (start.trie ref).children = memN.childrenOf ref := by
        rw [childrenOf, walked.intact.children]
      have here : (mem.childrenOf ref)[before.length]? = some child := by simp [place]
      have inner := walkC fuel (by omega)
      rw [updateList, ← visited.intact.children] at inner
      rw [updateLoop]
      simp only [listM, here, intact.bytes_eq, visit, Outcome.ok_bind]
      simp only [inner, Outcome.ok_bind, walked.intact.bytes_eq, truncate_append, listM', index]
      have rest := walkR fuel (by omega)
      simpa [append_assoc] using rest

include wf never in
/-- The walk below a node, by induction on the levels under it. -/
theorem walksBelow {levels : Nat} (deep : start.graph.Levels levels ref)
    (reached : start.At root path ref) :
    WalksBelow (deleting root choose : UpdateFunc ε α _) start root ref path := by
  induction levels generalizing ref path with
  | zero => exact deep.elim
  | succ levels ih =>
    intro mem calls intact pristine live
    obtain ⟨sorted, isSorted⟩ : ∃ sorted,
      mem.sorted (mem.lists.get (start.trie ref).children) = sorted := ⟨_, rfl⟩
    obtain ⟨memS, written⟩ : ∃ memS, mem.setList (start.trie ref).children sorted = memS := ⟨_, rfl⟩
    have sorts : Permuted mem memS := by
      rw [← written, ← isSorted]
      exact permuted_sorted mem (start.trie ref).children
    have perm : sorted.Perm (start.childrenOf ref) := by
      rw [← isSorted]
      refine (perm_insertionSort _ _).trans ?_
      have here := pristine.lists ref .refl
      rwa [childrenOf, intact.children] at here
    obtain ⟨wfS, atS⟩ := sorts.wellFormed intact.wellFormed
    have listS : memS.childrenOf ref = [] ++ sorted := by
      rw [childrenOf, sorts.trie_eq, intact.children, ← written, setList, Heap.get_set, if_pos rfl]
      rfl
    have othersS {other ref'} (atR : start.At root other ref') (apart : ref' ≠ ref) :
        memS.childrenOf ref' = mem.childrenOf ref' := by
      rw [childrenOf, sorts.trie_eq, intact.children, ← written, setList, Heap.get_set,
        if_neg fun shared => apart (wf.ownList atR reached shared), childrenOf, intact.children]
    have fresh (child) (member : child ∈ sorted) : child ∈ start.childrenOf ref ∧
        memS.trie child = start.trie child ∧ Pristine start memS child := by
      have below := perm.mem_iff.mp member
      refine ⟨below, ?_, fun lower further => ?_, fun lower under => ?_⟩
      · rw [sorts.trie_eq]
        exact pristine.tries child ⟨child, below, .refl⟩
      · rw [sorts.trie_eq]
        exact pristine.tries lower ⟨child, below, under_iff_strictly.mpr (.inr further)⟩
      · obtain ⟨rest, atL⟩ := WellFormed.at_of_under (.step reached below) under
        rw [othersS atL (wf.under_ne_parent reached below under)]
        exact pristine.lists lower (.head below under)
    obtain ⟨mem', entries, enough, walked, lists, walk⟩ := updateLoop_walks (ε := ε) wf never reached
      (fun child below => ih (deep child below) (.step reached below)) sorted [] _ calls
      ⟨wfS, fun ref => by rw [sorts.trie_eq, intact.nodePrefix],
        fun ref => by rw [sorts.trie_eq, intact.children]⟩
      listS (perm.nodup_iff.mpr (wf.radix.nodup reached)) fresh (live.imp_left atS.mpr)
    refine ⟨mem', entries, enough, ⟨walked.intact, fun other outside => ?_, fun atO outside => ?_,
      fun outside atO => walked.stays outside (atS.mpr atO)⟩, ⟨lists.once, fun key item => ?_⟩,
      fun fuel le => ?_⟩
    · rw [walked.tries other outside, sorts.trie_eq]
    · rw [walked.lists atO outside, othersS atO fun here => outside (here ▸ .refl)]
    · rw [lists.all, EntryBelow]
      simp only [perm.mem_iff]
    · simp only [updateList, isSorted, written]
      exact walk fuel le

/-- What is stored is the entries of the root. -/
theorem holds_iff_entry {item : α} :
    start.Holds root key item ↔ start.Entry root (start.bytes root) key item := by
  constructor
  · rintro ⟨ref, reached, stored⟩
    obtain ⟨rest, rfl, below⟩ := reached.from_root
    exact ⟨rest, ref, below, rfl, stored⟩
  · rintro ⟨rest, ref, below, rfl, stored⟩
    exact ⟨ref, LabelGraph.At.root.descend below, stored⟩

include wf never in
/-- Once the root was visited and is still there, the walk below it does the rest. -/
theorem visitAndUpdate_live (intact : Intact start mem root) (pristine : Pristine start mem root)
    (live : mem.At root (start.bytes root) root)
    (visit : visitUpdate (deleting root choose : UpdateFunc ε α _) (start.bytes root)
      (start.trie root).item start [] = .ok (none, mem, start.ownEntry root (start.bytes root))) :
    ∃ state enough, (∀ fuel, enough ≤ fuel →
        (visitAndUpdate (deleting root choose) fuel start root [] : Outcome ε _) = .ok (none, state)) ∧
      Lists state.own (start.Holds root) := by
  obtain ⟨mem', entries, enough, -, lists, walk⟩ :=
    walksBelow (ε := ε) wf never (wf.levels .root) .root mem _ intact pristine (.inl live)
  have all := lists_entry wf .root lists
  refine ⟨⟨start.bytes root, mem', start.ownEntry root _ ++ entries⟩, enough,
    fun fuel le => ?_, all.once, fun key item => (all.all key item).trans holds_iff_entry.symm⟩
  rw [visitAndUpdate, visit, Outcome.ok_bind]
  simp only [intact.children]
  exact walk fuel le

end walk

end Memory

/-- A visitor that leaves alone all keys whose nodes would be merged is called for every key. -/
theorem visitAndUpdate_plain (wf : start.WellFormed root)
    (choose : Memory α → List (Bytes × α) → Bytes → α → Bool)
    (never : ∀ mem calls key item, start.Compactable root key → choose mem calls key item = false) :
    ∃ state enough, (∀ fuel, enough ≤ fuel →
        (visitAndUpdate (deleting root choose) fuel start root [] : Outcome ε _) = .ok (none, state)) ∧
      Lists state.own (start.Holds root) := by
  have finish {mem} := @visitAndUpdate_live ε α mem start root choose wf never
  have intact : Intact start start root := ⟨wf, fun _ => rfl, fun _ => rfl⟩
  have pristine : Pristine start start root := ⟨fun _ _ => rfl, fun _ _ => .refl _⟩
  rcases stored : (start.trie root).item with _ | item
  · exact finish intact pristine .root (by simp [visitUpdate, ownEntry, stored])
  cases chosen : choose start [] (start.bytes root) item with
  | false =>
    exact finish intact pristine .root (by simp [visitUpdate, deleting, ownEntry, stored, chosen])
  | true =>
    have plain : ¬start.Compactable root (start.bytes root) := fun compactable => by
      rw [never start [] _ item compactable] at chosen
      cases chosen
    have atRoot : start.At root (start.bytes root) root := .root
    obtain ⟨wfI, atI, -⟩ := setItem_holds wf (wf.filled atRoot (by simp [stored])) atRoot none
    obtain ⟨sorts, sorted, ⟨-, deleted⟩ | ⟨bare, -, deleted⟩ |
      ⟨-, pathP, parent, before, after, atP, split, -⟩⟩ :=
        delete_plain (ε := ε) wf atRoot (by simp [stored]) plain
    · have permuted := sorted.toPermuted
      obtain ⟨wfS, atS⟩ := permuted.wellFormed wfI
      refine finish ⟨wfS, fun ref => by rw [permuted.trie_eq, nodePrefix_setItem],
        fun ref => by rw [permuted.trie_eq, children_setItem]⟩ ⟨fun lower further => ?_,
        fun lower _ => ?_⟩ (atS.mpr (atI.mpr atRoot)) ?_
      · obtain ⟨child, below, under⟩ := further
        rw [permuted.trie_eq, trie_setItem, if_neg (wf.under_ne_parent atRoot below under)]
      · rw [childrenOf, permuted.trie_eq, children_setItem]
        exact permuted.lists _
      · simp [visitUpdate, deleting, ownEntry, stored, chosen, deleted]
    · -- Nothing else is stored, and there is nothing left to walk.
      refine ⟨⟨start.bytes root, (sorts.reset root).setList
        ((sorts.reset root).trie root).children ((sorts.reset root).sorted
          ((sorts.reset root).lists.get ((sorts.reset root).trie root).children)),
        [(start.bytes root, item)]⟩, 1, fun fuel le => ?_, nodup_singleton _, fun key value => ?_⟩
      · have list : (sorts.reset root).lists.get ((sorts.reset root).trie root).children = [] :=
          childrenOf_reset
        cases fuel with
        | zero => omega
        | succ fuel =>
          simp [visitAndUpdate, visitUpdate, deleting, stored, chosen, deleted, updateList,
            updateLoop, list, Memory.sorted, setList, Heap.get_set]
      · rw [holds_iff_entry, entry_iff, mem_singleton, Prod.mk.injEq, stored]
        have nothing : ¬start.EntryBelow root (start.bytes root) key value := by
          rintro ⟨child, below, rest, lower, deep, -, held⟩
          have under : start.Under child lower := under_of_below deep
          have none := bare lower ((under_frame fun _ _ => childrenOf_setItem).mpr (.head below under))
          rw [trie_setItem, if_neg (wf.under_ne_parent atRoot below under), held] at none
          cases none
        simp [nothing, eq_comm]
    · exact absurd rfl (wf.radix.child_ne_root atP (by simp [graph, split]))

section agree

variable {σ : Type} {stops visitor : UpdateFunc ε α σ}
  (agree : ∀ path item mem own, stops path item mem own = visitor path item mem own ∨
    ∃ result, stops path item mem own = .ok (some .other, result))

include agree

/-- A call that does not stop the walk is the same for both visitors. -/
theorem visitUpdate_agrees {item : Option α} {own own' : σ} {err : Option VisitError}
    (called : visitUpdate stops path item mem own = .ok (err, mem', own'))
    (goesOn : err ≠ some .other) :
    visitUpdate visitor path item mem own = .ok (err, mem', own') := by
  cases item with
  | none => exact called
  | some item =>
    rw [visitUpdate] at called ⊢
    rcases agree path item mem own with same | ⟨result, stopped⟩
    · rwa [← same]
    · rw [stopped] at called
      cases called
      exact absurd rfl goesOn

/-- A walk that is not stopped is the walk of the other visitor too, also with more fuel. -/
theorem updateLoop_agrees {fuel : Nat} (more : Nat) {list : ListRef} {i : Nat}
    {state last : WalkState α σ} (done : updateLoop stops fuel list i state = .ok (none, last)) :
    updateLoop visitor (fuel + more) list i state = .ok (none, last) := by
  induction fuel generalizing list i state last with
  | zero => cases done
  | succ fuel ih =>
    rw [Nat.succ_add, updateLoop]
    rw [updateLoop] at done
    cases found : (state.mem.lists.get list)[i]? with
    | none => simpa only [found] using done
    | some child =>
      simp only [found, Outcome.bind_eq_ok] at done ⊢
      obtain ⟨⟨err, mem, own⟩, called, done⟩ := done
      rcases err with _ | _ | _
      · simp only [Outcome.bind_eq_ok] at done
        obtain ⟨⟨err, below⟩, walked, path, cut, done⟩ := done
        -- The walk of the list of the child was not stopped, or this one would have been.
        rcases err with _ | _
        · refine ⟨_, visitUpdate_agrees agree called (by simp), ?_⟩
          simp only [Outcome.bind_eq_ok]
          exact ⟨_, ih walked, path, cut, ih done⟩
        · cases done
      · refine ⟨_, visitUpdate_agrees agree called (by simp), ?_⟩
        simp only [Outcome.bind_eq_ok] at done ⊢
        obtain ⟨path, cut, done⟩ := done
        exact ⟨path, cut, ih done⟩
      · simp only [Outcome.bind_eq_ok] at done
        obtain ⟨path, -, done⟩ := done
        cases done

theorem visitAndUpdate_agrees {fuel : Nat} (more : Nat) {trie : TrieRef} {own : σ}
    {last : WalkState α σ} (done : visitAndUpdate stops fuel mem trie own = .ok (none, last)) :
    visitAndUpdate visitor (fuel + more) mem trie own = .ok (none, last) := by
  rw [visitAndUpdate, Outcome.bind_eq_ok] at done ⊢
  obtain ⟨⟨err, mem, own⟩, called, done⟩ := done
  rcases err with _ | _ | _
  · exact ⟨_, visitUpdate_agrees agree called (by simp), updateLoop_agrees agree more done⟩
  · exact ⟨_, visitUpdate_agrees agree called (by simp), done⟩
  · cases done

end agree

/-- The visitor, but for that it stops the walk where it would delete a key that is compacted. -/
noncomputable def stopping (start : Memory α) (trie : TrieRef)
    (choose : Memory α → List (Bytes × α) → Bytes → α → Bool) :
    UpdateFunc ε α (List (Bytes × α)) :=
  open Classical in fun path item mem calls =>
    if choose mem calls path item = true ∧ start.Compactable trie path then
      .ok (some .other, mem, calls)
    else deleting trie choose path item mem calls

theorem stopping_agrees {choose other : Memory α → List (Bytes × α) → Bytes → α → Bool}
    (same : ∀ mem calls key item, ¬(choose mem calls key item = true ∧ start.Compactable root key) →
      other mem calls key item = choose mem calls key item)
    (path : Bytes) (item : α) (mem : Memory α) (calls : List (Bytes × α)) :
    (stopping start root choose : UpdateFunc ε α _) path item mem calls =
        deleting root other path item mem calls ∨
      ∃ result, (stopping start root choose : UpdateFunc ε α _) path item mem calls =
        .ok (some .other, result) := by
  rw [stopping]
  by_cases stops : choose mem calls path item = true ∧ start.Compactable root path
  · exact .inr ⟨_, if_pos stops⟩
  · rw [if_neg stops, deleting, deleting, same mem calls path item stops]
    exact .inl rfl

end FlexSwitch.Patricia
