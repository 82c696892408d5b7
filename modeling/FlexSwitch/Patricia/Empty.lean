import FlexSwitch.Patricia.Put

/-! The walk that looks for an item: what it finds, and that it only sorts the lists on its way. -/

namespace FlexSwitch.Patricia.Memory

open Go List

variable {ε α : Type} {mem mem' : Memory α} {root node child ref : TrieRef} {path : Bytes}

/-- A node is reached from another one through child lists, or is that node. -/
def Under (mem : Memory α) (upper lower : TrieRef) : Prop :=
  Relation.ReflTransGen (fun parent child => child ∈ mem.childrenOf parent) upper lower

/-- There is no item at the node or under it. -/
def Bare (mem : Memory α) (ref : TrieRef) : Prop :=
  ∀ lower, mem.Under ref lower → (mem.trie lower).item = none

theorem bare_iff : mem.Bare ref ↔
      (mem.trie ref).item = none ∧ ∀ child, child ∈ mem.childrenOf ref → mem.Bare child := by
  constructor
  · intro bare
    exact ⟨bare ref .refl, fun child below lower under => bare lower (.head below under)⟩
  · rintro ⟨none, children⟩ lower under
    rcases under.cases_head with rfl | ⟨child, below, under⟩
    · exact none
    · exact children child below lower under

theorem under_of_below {rest : Bytes} (below : mem.graph.Below node rest ref) :
    mem.Under node ref := by
  induction below with
  | refl => exact .refl
  | step first _ ih => exact .head first ih

theorem WellFormed.at_of_under (reached : mem.At root path node) (under : mem.Under node ref) :
    ∃ rest, mem.At root (path ++ rest) ref := by
  induction under with
  | refl => exact ⟨[], by simpa using reached⟩
  | tail _ below ih =>
    obtain ⟨rest, reached⟩ := ih
    exact ⟨_, by rw [← append_assoc]; exact .step reached below⟩

/-- The two memories differ in nothing but the order of children. -/
structure Permuted (mem mem' : Memory α) : Prop where
  nodes : mem'.nodes = mem.nodes
  lists : ∀ list, (mem'.lists.get list).Perm (mem.lists.get list)
  listsNext : mem'.lists.next = mem.lists.next

namespace Permuted

theorem refl (mem : Memory α) : Permuted mem mem := ⟨rfl, fun _ => .refl _, rfl⟩

theorem trans {last : Memory α} (first : Permuted mem mem') (second : Permuted mem' last) :
    Permuted mem last :=
  ⟨second.nodes.trans first.nodes, fun list => (second.lists list).trans (first.lists list),
    second.listsNext.trans first.listsNext⟩

section

variable (same : Permuted mem mem')

include same

theorem trie_eq (ref : TrieRef) : mem'.trie ref = mem.trie ref := by
  rw [trie, same.nodes, trie]

theorem bytes_eq (ref : TrieRef) : mem'.bytes ref = mem.bytes ref := by
  rw [bytes, same.trie_eq, bytes]

theorem mem_childrenOf : child ∈ mem'.childrenOf ref ↔ child ∈ mem.childrenOf ref := by
  rw [childrenOf, same.trie_eq]
  exact (same.lists _).mem_iff

theorem under_iff : mem'.Under node ref ↔ mem.Under node ref := by
  have steps : (fun parent child => child ∈ mem'.childrenOf parent) =
      fun parent child => child ∈ mem.childrenOf parent :=
    funext fun _ => funext fun _ => propext same.mem_childrenOf
  rw [Under, steps, Under]

theorem bare_iff : mem'.Bare ref ↔ mem.Bare ref := by
  simp [Bare, same.under_iff, same.trie_eq]

theorem levels {levels : Nat} (deep : mem.graph.Levels levels ref) :
    mem'.graph.Levels levels ref := by
  induction levels generalizing ref with
  | zero => exact deep.elim
  | succ levels ih => exact fun child below => ih (deep child (same.mem_childrenOf.mp below))

theorem wellFormed (wf : mem.WellFormed root) :
    mem'.WellFormed root ∧ ∀ {path ref}, mem'.At root path ref ↔ mem.At root path ref :=
  wf.reordered (fun ref => by rw [same.trie_eq]) (fun ref => by rw [same.trie_eq]) same.lists
    (fun blank => by rw [same.trie_eq]; exact (wf.blank blank).2) (by rw [same.nodes])
    same.listsNext

theorem keeps (wf : mem.WellFormed root) : Keeps mem mem' root := by
  obtain ⟨wf', at_iff⟩ := same.wellFormed wf
  refine ⟨wf', ?_⟩
  intro key item
  simp only [Holds, at_iff, same.trie_eq]

end

end Permuted

theorem permuted_sorted (mem : Memory α) (list : ListRef) :
    Permuted mem (mem.setList list (mem.sorted (mem.lists.get list))) := by
  refine ⟨rfl, fun other => ?_, rfl⟩
  rw [setList, Heap.get_set]
  by_cases same : other = list
  · rw [if_pos same, same]
    exact perm_insertionSort _ _
  · rw [if_neg same]

/-- The two memories differ only in the order of children, of the nodes under the given ones. -/
structure SortedUnder (mem mem' : Memory α) (uppers : List TrieRef) : Prop extends
    Permuted mem mem' where
  others : ∀ list, (∀ upper, upper ∈ uppers → ∀ lower, mem.Under upper lower →
    (mem.trie lower).children ≠ list) → mem'.lists.get list = mem.lists.get list

/-- Sorting what is under some nodes, and then what is under another one. -/
theorem SortedUnder.cons {last : Memory α} {uppers : List TrieRef}
    (first : SortedUnder mem mem' [ref]) (second : SortedUnder mem' last uppers) :
    SortedUnder mem last (ref :: uppers) := by
  refine ⟨first.toPermuted.trans second.toPermuted, fun list apart => ?_⟩
  rw [second.others list, first.others list]
  · intro upper member lower under
    rw [mem_singleton.mp member] at under
    exact apart ref mem_cons_self lower under
  · intro upper member lower under
    rw [first.toPermuted.trie_eq]
    exact apart upper (mem_cons_of_mem _ member) lower (first.toPermuted.under_iff.mp under)

/-- Sorting the list of a node, and then what is under its children. -/
theorem SortedUnder.of_children {last : Memory α} {children : List TrieRef}
    (first : Permuted mem mem')
    (others : ∀ list, list ≠ (mem.trie ref).children → mem'.lists.get list = mem.lists.get list)
    (below : ∀ child, child ∈ children → child ∈ mem.childrenOf ref)
    (second : SortedUnder mem' last children) : SortedUnder mem last [ref] := by
  refine ⟨first.trans second.toPermuted, fun list apart => ?_⟩
  have apart (lower) (under : mem.Under ref lower) : (mem.trie lower).children ≠ list :=
    apart ref (mem_singleton_self _) lower under
  rw [second.others list, others list (apart ref .refl).symm]
  intro upper member lower under
  rw [first.trie_eq]
  exact apart lower (.head (below upper member) (first.under_iff.mp under))

/-- The visitor of `empty`, which notes that there is an item and goes no deeper. -/
def emptyVisitor : Bytes → α → Bool → Option VisitError × Bool :=
  fun _ _ _ => (some .skipSubtree, false)

/-- The walk over children finds an item when one of them has one, or has one under it. -/
theorem walkChildren_empty {levels : Nat} {children : List TrieRef} (path : Bytes) (isEmpty : Bool)
    (deep : ∀ child, child ∈ children → mem.graph.Levels levels child)
    (deeper : ∀ (mem : Memory α) (child : TrieRef) (path : Bytes) (isEmpty : Bool),
      mem.graph.Levels levels child → ∃ mem' isEmpty',
        (walkList emptyVisitor levels (mem.trie child).children path mem isEmpty : Outcome ε _) =
          .ok (none, mem', isEmpty') ∧ SortedUnder mem mem' [child] ∧
        (isEmpty' = true ↔ isEmpty = true ∧ ∀ lower, lower ∈ mem.childrenOf child → mem.Bare lower)) :
    ∃ mem' isEmpty', (walkChildren emptyVisitor (walkList emptyVisitor levels) children path mem isEmpty :
        Outcome ε _) = .ok (none, mem', isEmpty') ∧ SortedUnder mem mem' children ∧
      (isEmpty' = true ↔ isEmpty = true ∧ ∀ child, child ∈ children → mem.Bare child) := by
  induction children generalizing mem isEmpty with
  | nil => exact ⟨mem, isEmpty, rfl, ⟨.refl mem, fun _ _ => rfl⟩, by simp⟩
  | cons child rest ih =>
    have deepRest : ∀ other, other ∈ rest → mem.graph.Levels levels other :=
      fun other below => deep other (mem_cons_of_mem _ below)
    rw [walkChildren]
    cases stored : (mem.trie child).item with
    | some item =>
      -- The item is noted, and what is under the child is skipped.
      obtain ⟨mem', isEmpty', walked, same, none⟩ := @ih mem false deepRest
      have skips : SortedUnder mem mem' (child :: rest) := ⟨same.toPermuted, fun list apart =>
        same.others list fun upper member => apart upper (mem_cons_of_mem _ member)⟩
      refine ⟨mem', isEmpty', walked, skips, ?_⟩
      rw [none]
      have notBare : ¬mem.Bare child := fun bare => by
        rw [(bare_iff.mp bare).1] at stored
        cases stored
      simp [notBare]
    | none =>
      obtain ⟨lowerMem, below, walked, same, bareBelow⟩ :=
        deeper mem child (path ++ mem.bytes child) isEmpty (deep child mem_cons_self)
      obtain ⟨mem', isEmpty', walkedRest, same', bareRest⟩ :=
        @ih lowerMem below fun other member => same.toPermuted.levels (deepRest other member)
      refine ⟨mem', isEmpty', ?_, same.cons same', ?_⟩
      · simp only [visit, walked, Outcome.ok_bind]
        exact walkedRest
      · rw [bareRest, bareBelow]
        simp only [same.toPermuted.bare_iff, mem_cons, forall_eq_or_imp]
        rw [@bare_iff _ mem child]
        simp only [stored, true_and, and_assoc]

/-- The walk over a list finds an item when there is one in it, and only sorts lists. -/
theorem walkList_empty {levels : Nat} (path : Bytes) (isEmpty : Bool)
    (deep : mem.graph.Levels levels ref) :
    ∃ mem' isEmpty', (walkList emptyVisitor levels (mem.trie ref).children path mem isEmpty :
        Outcome ε _) = .ok (none, mem', isEmpty') ∧ SortedUnder mem mem' [ref] ∧
      (isEmpty' = true ↔ isEmpty = true ∧ ∀ child, child ∈ mem.childrenOf ref → mem.Bare child) := by
  induction levels generalizing mem ref path isEmpty with
  | zero => exact deep.elim
  | succ levels ih =>
    have sorts := permuted_sorted mem (mem.trie ref).children
    have perm : (mem.sorted (mem.childrenOf ref)).Perm (mem.childrenOf ref) :=
      perm_insertionSort _ _
    obtain ⟨mem', isEmpty', walked, same, bare⟩ :=
      walkChildren_empty path isEmpty
        (fun child below => sorts.levels (deep child (perm.mem_iff.mp below)))
        fun mem child path isEmpty deep => ih path isEmpty deep
    have others (list) (apart : list ≠ (mem.trie ref).children) :
        (mem.setList (mem.trie ref).children (mem.sorted (mem.childrenOf ref))).lists.get list =
          mem.lists.get list := by
      rw [setList, Heap.get_set, if_neg apart]
    refine ⟨mem', isEmpty', walked, .of_children sorts others (fun child => perm.mem_iff.mp) same, ?_⟩
    rw [bare]
    simp only [sorts.bare_iff, perm.mem_iff]

/-- A trie is empty when there is no item at its root or under it. -/
theorem empty_bare (deep : mem.graph.Levels mem.nodes.next ref) :
    ∃ mem' isEmpty, (mem.empty ref : Outcome ε _) = .ok (isEmpty, mem') ∧
      SortedUnder mem mem' [ref] ∧ (isEmpty = true ↔ mem.Bare ref) := by
  rw [empty, walk]
  cases stored : (mem.trie ref).item with
  | some item =>
    refine ⟨mem, false, rfl, ⟨.refl mem, fun _ _ => rfl⟩, ?_⟩
    have notBare : ¬mem.Bare ref := fun bare => by
      rw [(bare_iff.mp bare).1] at stored
      cases stored
    simp [notBare]
  | none =>
    obtain ⟨mem', isEmpty, walked, same, bare⟩ :=
      walkList_empty (ε := ε) _ true deep
    refine ⟨mem', isEmpty, ?_, same, ?_⟩
    · simp only [visit]
      change (walkList emptyVisitor _ _ _ _ _ >>= _) = _
      rw [walked]
      rfl
    · rw [bare, bare_iff]
      simp [stored]

end FlexSwitch.Patricia.Memory
