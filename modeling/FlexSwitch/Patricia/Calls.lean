import FlexSwitch.Patricia.Delete

/-! Runs of calls on a trie, next to a plain map that gets the same calls. -/

namespace FlexSwitch.Patricia

open Go Memory Outcome

variable {ε α : Type} {mem mem' : Memory α} {root : TrieRef} {key : Bytes}

/-- The way to the key ends at a node that has an item, but no child to go on with. -/
def Memory.EndsAtItem (mem : Memory α) (root : TrieRef) (key : Bytes) : Prop :=
  ∃ path ref b rest, key = path ++ b :: rest ∧ mem.At root path ref ∧ (mem.trie ref).item ≠ none ∧
    ∀ child, child ∈ mem.childrenOf ref → (mem.bytes child).head? ≠ some b

/-- A deletion changes nothing, or takes out the item of a node on the way to the key. -/
theorem Memory.delete_cases (wf : mem.WellFormed root) (key : Bytes) :
    (mem.delete root (some key) : Outcome ε _) = .ok (false, mem) ∨
      ∃ path item, mem.Holds root path item ∧ (path = key ∨ mem.EndsAtItem root key) ∧
        ((∃ mem', (mem.delete root (some key) : Outcome ε _) = .ok (true, mem') ∧
            mem'.WellFormed root ∧
            ∀ other value, mem'.Holds root other value ↔ other ≠ path ∧ mem.Holds root other value) ∨
          ((mem.delete root (some key) : Outcome ε _) = .panic ∧ mem.Stranded root path)) := by
  by_cases blank : (mem.trie root).nodePrefix = none
  · exact .inl (by rw [delete, if_pos blank]; rfl)
  obtain ⟨subtree, search, ends⟩ := wf.findSubtree_ends (ε := ε) key
  cases ends with
  | @inside above node leftover parentOf reached =>
    cases leftover with
    | cons b more => exact .inl (by simp [delete, blank, search])
    | nil =>
      rw [List.append_nil] at reached
      cases stored : (mem.trie node).item with
      | none => exact .inl (by simp [delete, blank, search, stored])
      | some item =>
        exact .inr ⟨key, item, ⟨node, reached, stored⟩, .inl rfl,
          delete_node wf search parentOf reached (by simp [stored])⟩
  | @astray above node leftover left => exact .inl (by simp [delete, blank, search, left])
  | @short above node path rest b parentOf reached split stuck =>
    cases stored : (mem.trie node).item with
    | none => exact .inl (by simp [delete, blank, search, stored])
    | some item =>
      have some : (mem.trie node).item ≠ none := by simp [stored]
      exact .inr ⟨path, item, ⟨node, reached, stored⟩,
        .inr ⟨path, node, b, rest, split, reached, some, stuck⟩,
        delete_node wf search parentOf reached some⟩

/-- A call that changes a trie, with a key that is not nil. -/
inductive Call (α : Type) where
  | insert (key : Bytes) (item : α)
  | set (key : Bytes) (item : α)
  | delete (key : Bytes)
deriving DecidableEq, Repr

/-- Make the call, with what it returns, if it returns anything. -/
def Memory.perform (mem : Memory α) (root : TrieRef) : Call α → Outcome ε (Option Bool × Memory α)
  | .insert key item => do
    let (inserted, mem) ← mem.insert root (some key) item
    return (some inserted, mem)
  | .set key item => do return (none, ← mem.set root (some key) item)
  | .delete key => do
    let (deleted, mem) ← mem.delete root (some key)
    return (some deleted, mem)

/-- Make the calls one after the other. -/
def Memory.performAll (root : TrieRef) :
    List (Call α) → Memory α → Outcome ε (List (Option Bool) × Memory α)
  | [], mem => .ok ([], mem)
  | call :: calls, mem => do
    let (result, mem) ← mem.perform root call
    let (results, mem) ← performAll root calls mem
    return (result :: results, mem)

/-- A plain map from keys to items. -/
abbrev PlainMap (α : Type) := Bytes → Option α

/-- What the call is to do: what it returns, and the map after it. -/
def PlainMap.perform (map : PlainMap α) : Call α → Option Bool × PlainMap α
  | .insert key item =>
    if (map key).isSome then (some false, map) else (some true, Function.update map key (some item))
  | .set key item => (none, Function.update map key (some item))
  | .delete key => (some (map key).isSome, Function.update map key none)

def PlainMap.performAll : List (Call α) → PlainMap α → List (Option Bool) × PlainMap α
  | [], map => ([], map)
  | call :: calls, map =>
    let (result, map) := map.perform call
    let (results, map) := performAll calls map
    (result :: results, map)

/-- Every call that deletes names a key that is stored then. -/
def DeletesStored : List (Call α) → PlainMap α → Prop
  | [], _ => True
  | call :: calls, map =>
    (∀ key, call = .delete key → (map key).isSome = true) ∧ DeletesStored calls (map.perform call).2

/-- No call deletes a key whose node cannot be found again to be removed. -/
def NeverStranded (ε : Type) (root : TrieRef) : List (Call α) → Memory α → Prop
  | [], _ => True
  | call :: calls, mem =>
    (∀ key, call = .delete key → ¬mem.Stranded root key) ∧
      ∀ result mem', (mem.perform root call : Outcome ε _) = .ok (result, mem') →
        NeverStranded ε root calls mem'

/-- The trie holds what the map does. -/
structure Refines (mem : Memory α) (root : TrieRef) (map : PlainMap α) : Prop where
  wellFormed : mem.WellFormed root
  holds : ∀ key item, mem.Holds root key item ↔ map key = some item

namespace Refines

variable {map : PlainMap α}

variable (same : Refines mem root map)

include same

theorem get_eq (key : Bytes) : (mem.get root key : Outcome ε (Option α)) = .ok (map key) := by
  cases stored : map key with
  | none =>
    refine same.wellFormed.get_eq_none.mpr fun item holds => ?_
    rw [same.holds, stored] at holds
    cases holds
  | some item => exact same.wellFormed.get_eq_some.mpr ((same.holds key item).mpr stored)

/-- Inserting or setting an item does to the trie what it does to the map. -/
theorem put (key : Bytes) (item : α) (replace : Bool) :
    ∃ mem', (mem.put root (some key) item replace : Outcome ε _) =
        .ok (replace || !(map key).isSome, mem') ∧
      Refines mem' root (if replace = true ∨ map key = none then Function.update map key (some item)
        else map) := by
  obtain ⟨inserted, mem', done, wf', returns, holds⟩ :=
    put_holds (ε := ε) same.wellFormed key item replace
  have absent : (∀ value, ¬mem.Holds root key value) ↔ map key = none := by
    simp only [same.holds]
    exact Option.eq_none_iff_forall_ne_some.symm
  rw [absent] at returns
  have result : inserted = (replace || !(map key).isSome) := by
    rw [Bool.eq_iff_iff, returns]
    simp
  refine ⟨mem', by rw [done, result], wf', fun other value => ?_⟩
  simp only [holds, returns, same.holds]
  by_cases goes : replace = true ∨ map key = none
  · by_cases here : other = key
    · subst here
      simp [goes]
    · simp [goes, here]
  · simp [goes]

/-- Deleting a stored key takes it out of the trie as out of the map. -/
theorem delete (stored : (map key).isSome = true) (clean : ¬mem.Stranded root key) :
    ∃ mem', (mem.delete root (some key) : Outcome ε _) = .ok (true, mem') ∧
      Refines mem' root (Function.update map key none) := by
  obtain ⟨item, present⟩ := Option.isSome_iff_exists.mp stored
  obtain ⟨node, reached, itemAt⟩ := (same.holds key item).mpr present
  have wf := same.wellFormed
  obtain ⟨above, parentOf, search⟩ := wf.findSubtree_at (ε := ε) reached
  have some : (mem.trie node).item ≠ none := by simp [itemAt]
  rcases delete_node wf search parentOf reached some with ⟨mem', done, wf', holds⟩ | ⟨-, stranded⟩
  · refine ⟨mem', done, wf', fun other value => ?_⟩
    rw [holds, same.holds]
    by_cases here : other = key
    · simp [here]
    · simp [here]
  · exact absurd stranded clean

/-- A call does to the trie what it does to the map, and returns what it is to return. -/
theorem perform (call : Call α) (stored : ∀ key, call = .delete key → (map key).isSome = true)
    (clean : ∀ key, call = .delete key → ¬mem.Stranded root key) :
    ∃ mem', (mem.perform root call : Outcome ε _) = .ok ((map.perform call).1, mem') ∧
      Refines mem' root (map.perform call).2 := by
  cases call with
  | insert key item =>
    obtain ⟨mem', done, same'⟩ := same.put (ε := ε) key item false
    have whole : (mem.insert root (some key) item : Outcome ε _) = _ := done
    cases present : map key
    all_goals
      exact ⟨mem', by simp [Memory.perform, whole, PlainMap.perform, present],
        by simpa [PlainMap.perform, present] using same'⟩
  | set key item =>
    obtain ⟨mem', done, same'⟩ := same.put (ε := ε) key item true
    refine ⟨mem', by rw [Memory.perform, Memory.set, done]; rfl, ?_⟩
    simpa [PlainMap.perform] using same'
  | delete key =>
    obtain ⟨mem', done, same'⟩ := same.delete (ε := ε) (stored key rfl) (clean key rfl)
    exact ⟨mem', by rw [Memory.perform, done, PlainMap.perform, stored key rfl]; rfl, same'⟩

end Refines

/-- A new trie holds nothing. -/
theorem refines_newTrie (mem : Memory α) : Refines mem.newTrie.2 mem.newTrie.1 fun _ => none := by
  have here : mem.newTrie.2.trie mem.newTrie.1 = ⟨none, none, mem.lists.next⟩ := by
    rw [trie_newTrie]
    exact if_pos rfl
  have bare : mem.newTrie.2.childrenOf mem.newTrie.1 = [] := by
    rw [childrenOf, here, lists_newTrie, if_pos rfl]
  obtain ⟨wf, only⟩ := wellFormed_leaf bare (Nat.lt_succ_self _)
    (by rw [here]; exact Nat.lt_succ_self _) fun _ => by rw [here]
  refine ⟨wf, fun key item => ?_⟩
  constructor
  · rintro ⟨ref, reached, stored⟩
    rw [(only.mp reached).1, here] at stored
    cases stored
  · intro none
    cases none

/-- A run of calls does to the trie what it does to the map. -/
theorem performAll_refines {calls : List (Call α)} {map : PlainMap α} (same : Refines mem root map)
    (stored : DeletesStored calls map) (clean : NeverStranded ε root calls mem) :
    ∃ mem', (performAll root calls mem : Outcome ε _) =
        .ok ((PlainMap.performAll calls map).1, mem') ∧
      Refines mem' root (PlainMap.performAll calls map).2 := by
  induction calls generalizing mem map with
  | nil => exact ⟨mem, rfl, same⟩
  | cons call calls ih =>
    obtain ⟨mem', done, same'⟩ := same.perform (ε := ε) call stored.1 clean.1
    obtain ⟨last, rest, same''⟩ := ih same' stored.2 (clean.2 _ _ done)
    refine ⟨last, ?_, same''⟩
    rw [performAll, done]
    simp only [ok_bind, rest]
    rfl

/--
A trie is a finite map.

In a run from an empty trie every call returns what it would for a plain map, and every lookup after
it finds what the map has, provided no deletion strands the node it is to remove.
-/
theorem trie_is_map (start : Memory α) (calls : List (Call α))
    (stored : DeletesStored calls fun _ => none)
    (clean : NeverStranded ε start.newTrie.1 calls start.newTrie.2) :
    ∃ mem, (performAll start.newTrie.1 calls start.newTrie.2 : Outcome ε _) =
        .ok ((PlainMap.performAll calls fun _ => none).1, mem) ∧
      ∀ key, (mem.get start.newTrie.1 key : Outcome ε (Option α)) =
        .ok ((PlainMap.performAll calls fun _ => none).2 key) := by
  obtain ⟨mem, done, same⟩ := performAll_refines (refines_newTrie start) stored clean
  exact ⟨mem, done, same.get_eq⟩

/-- Three nodes at least have a part in stranding one. -/
theorem Memory.Stranded.three_nodes (wf : mem.WellFormed root) (stranded : mem.Stranded root key) :
    3 ≤ mem.nodes.next := by
  obtain ⟨path, parent, node, child, atP, atN, alone, only, -⟩ := stranded
  have below : node ∈ mem.childrenOf parent := by simp [alone]
  have below' : child ∈ mem.childrenOf node := by simp [only]
  have apart : @Ne Nat node parent := wf.radix.child_ne atP below
  have apart' : @Ne Nat child node := wf.radix.child_ne atN below'
  have apart'' : @Ne Nat child parent := wf.radix.grandchild_ne atP below below'
  have knownP : @LT.lt Nat _ parent mem.nodes.next := wf.allocated atP
  have knownN : @LT.lt Nat _ node mem.nodes.next := wf.allocated atN
  have knownC : @LT.lt Nat _ child mem.nodes.next := wf.allocated (.step atN below')
  omega

/-- Every call that returns leaves a trie. -/
theorem perform_wellFormed (wf : mem.WellFormed root) {call : Call α} {result : Option Bool}
    (done : (mem.perform root call : Outcome ε _) = .ok (result, mem')) : mem'.WellFormed root := by
  have put (key : Bytes) (item : α) (replace : Bool) {inserted : Bool} {last : Memory α}
      (done : (mem.put root (some key) item replace : Outcome ε _) = .ok (inserted, last)) :
      last.WellFormed root := by
    obtain ⟨inserted', last', done', wf', -⟩ := put_holds (ε := ε) wf key item replace
    cases done.symm.trans done'
    exact wf'
  cases call with
  | insert key item =>
    obtain ⟨⟨inserted, last⟩, inner, done⟩ := bind_eq_ok.mp done
    cases done
    exact put key item false inner
  | set key item =>
    obtain ⟨last, inner, done⟩ := bind_eq_ok.mp done
    cases done
    obtain ⟨⟨inserted, last'⟩, inner, done⟩ := bind_eq_ok.mp inner
    cases done
    exact put key item true inner
  | delete key =>
    obtain ⟨⟨deleted, last⟩, inner, done⟩ := bind_eq_ok.mp done
    cases done
    rcases delete_cases (ε := ε) wf key with
      same | ⟨path, item, -, -, ⟨last', inner', wf', -⟩ | ⟨panics, -⟩⟩
    · cases inner.symm.trans same
      exact wf
    · cases inner.symm.trans inner'
      exact wf'
    · cases inner.symm.trans panics

theorem performAll_wellFormed (wf : mem.WellFormed root) {calls : List (Call α)}
    {results : List (Option Bool)}
    (done : (performAll root calls mem : Outcome ε _) = .ok (results, mem')) :
    mem'.WellFormed root := by
  induction calls generalizing mem results with
  | nil =>
    cases done
    exact wf
  | cons call calls ih =>
    obtain ⟨⟨result, last⟩, first, done⟩ := bind_eq_ok.mp done
    obtain ⟨⟨rest, last'⟩, second, done⟩ := bind_eq_ok.mp done
    cases done
    exact ih (perform_wellFormed wf first) second

/-- A trie as calls build it, from an empty one. -/
def Built (ε : Type) (mem : Memory α) (root : TrieRef) : Prop :=
  ∃ (start : Memory α) (calls : List (Call α)) (results : List (Option Bool)),
    root = start.newTrie.1 ∧
      (performAll root calls start.newTrie.2 : Outcome ε _) = .ok (results, mem)

theorem Built.wellFormed (built : Built ε mem root) : mem.WellFormed root := by
  obtain ⟨start, calls, results, rfl, done⟩ := built
  exact performAll_wellFormed (refines_newTrie start).wellFormed done

/-- Memory in which nothing was allocated. -/
def emptyMemory : Memory Nat := ⟨⟨fun _ => ⟨none, none, 0⟩, 0⟩, ⟨fun _ => [], 0⟩⟩

/-- The memory after the calls, from an empty trie. -/
def memoryAfter (calls : List (Call Nat)) : Memory Nat :=
  ((performAll 0 calls emptyMemory.newTrie.2 : Outcome Empty _).getD ([], emptyMemory)).2

/-- A key and a longer one, of which the shorter is deleted. -/
def nestedCalls : List (Call Nat) := [.insert [97] 1, .insert [97, 98] 2, .delete [97]]

/-- The longer key stays when the shorter one is deleted. -/
theorem trie_is_map_nested :
    DeletesStored nestedCalls (fun _ => none) ∧ NeverStranded Empty 0 nestedCalls emptyMemory.newTrie.2 ∧
      ∃ mem, (performAll 0 nestedCalls emptyMemory.newTrie.2 : Outcome Empty _) =
          .ok ([some true, some true, some true], mem) ∧
        (mem.get 0 [97] : Outcome Empty _) = .ok none ∧
        (mem.get 0 [97, 98] : Outcome Empty _) = .ok (some 2) := by
  have stored : DeletesStored nestedCalls fun _ => none :=
    ⟨nofun, nofun, fun key same => by cases same; rfl, trivial⟩
  have wf : (memoryAfter [.insert [97] 1, .insert [97, 98] 2]).WellFormed 0 :=
    Built.wellFormed (ε := Empty) ⟨emptyMemory, [.insert [97] 1, .insert [97, 98] 2],
      [some true, some true], rfl, rfl⟩
  have few : ¬3 ≤ (memoryAfter [.insert [97] 1, .insert [97, 98] 2]).nodes.next := by decide
  have clean : NeverStranded Empty 0 nestedCalls emptyMemory.newTrie.2 := by
    refine ⟨nofun, fun result mem' done => ⟨nofun, fun result' mem'' done' => ⟨fun key _ => ?_,
      fun _ _ _ => trivial⟩⟩⟩
    have first : mem' = memoryAfter [.insert [97] 1] :=
      (Prod.mk.inj (ok.inj done)).2.symm
    subst first
    have second : mem'' = memoryAfter [.insert [97] 1, .insert [97, 98] 2] :=
      (Prod.mk.inj (ok.inj done')).2.symm
    subst second
    exact fun stranded => few (stranded.three_nodes wf)
  obtain ⟨mem, done, got⟩ := trie_is_map emptyMemory nestedCalls stored clean
  exact ⟨stored, clean, mem, done, got [97], got [97, 98]⟩

/-- Keys that leave a node without item and children, which is merged into the nodes above it. -/
def strandingCalls : List (Call Nat) :=
  [.insert [97] 1, .insert [97, 98] 2, .insert [97, 98, 99, 120] 3, .insert [97, 98, 99, 121] 4,
    .delete [97, 98, 99, 120], .delete [97, 98, 99, 121], .delete [97], .delete [97, 98]]

/-- Only stored keys are deleted, and the last deletion panics. -/
theorem delete_stored_panics : DeletesStored strandingCalls (fun _ => none) ∧
      (performAll 0 strandingCalls emptyMemory.newTrie.2 : Outcome Empty _) = .panic :=
  ⟨⟨nofun, nofun, nofun, nofun, fun key same => by cases same; rfl, fun key same => by cases same; rfl,
    fun key same => by cases same; rfl, fun key same => by cases same; rfl, trivial⟩,
    by decide +kernel⟩

/--
Deleting an absent key changes nothing, unless the way to it ends at a node with an item.

That item is deleted then, though it is stored for a shorter key.
-/
theorem delete_absent_iff (built : Built ε mem root)
    (absent : (mem.get root key : Outcome ε (Option α)) = .ok none) :
    (∃ mem', (mem.delete root (some key) : Outcome ε _) = .ok (false, mem') ∧
      ∀ other, (mem'.get root other : Outcome ε (Option α)) = mem.get root other) ↔
    ¬mem.EndsAtItem root key := by
  have wf := built.wellFormed
  constructor
  · rintro ⟨mem', done, -⟩ ⟨path, ref, b, rest, rfl, reached, stored, stuck⟩
    obtain ⟨above, parentOf, search⟩ := wf.findSubtree_short (ε := ε) reached stuck
    rcases delete_node wf search parentOf reached stored with
      ⟨last, deleted, -⟩ | ⟨panics, -⟩
    · cases done.symm.trans deleted
    · cases done.symm.trans panics
  · intro clear
    rcases delete_cases (ε := ε) wf key with same | ⟨path, item, holds, rfl | ends, -⟩
    · exact ⟨mem, same, fun _ => rfl⟩
    · exact absurd holds (wf.get_eq_none.mp absent item)
    · exact absurd ends clear

/-- The keys a, abx and aby. -/
def forkCalls : List (Call Nat) :=
  [.insert [97] 1, .insert [97, 98, 120] 2, .insert [97, 98, 121] 3]

theorem forkCalls_built : Built Empty (memoryAfter forkCalls) 0 :=
  ⟨emptyMemory, forkCalls, [some true, some true, some true], rfl, rfl⟩

/-- The way to abz leads from a to the node for ab, which has no item. -/
theorem delete_absent_below : Built Empty (memoryAfter forkCalls) 0 ∧
      ((memoryAfter forkCalls).get 0 [97, 98, 122] : Outcome Empty _) = .ok none ∧
      ¬(memoryAfter forkCalls).EndsAtItem 0 [97, 98, 122] := by
  have built := forkCalls_built
  have absent : ((memoryAfter forkCalls).get 0 [97, 98, 122] : Outcome Empty _) = .ok none := rfl
  exact ⟨built, absent, (delete_absent_iff built absent).mp ⟨_, rfl, fun _ => rfl⟩⟩

/-- Deleting ab, which is not stored, takes a out of the trie. -/
theorem delete_absent_removes : Built Empty (memoryAfter [.insert [97] 1]) 0 ∧
      ((memoryAfter [.insert [97] 1]).get 0 [97, 98] : Outcome Empty _) = .ok none ∧
      ((memoryAfter [.insert [97] 1]).get 0 [97] : Outcome Empty _) = .ok (some 1) ∧
      ∃ mem', ((memoryAfter [.insert [97] 1]).delete 0 (some [97, 98]) : Outcome Empty _) =
          .ok (true, mem') ∧ (mem'.get 0 [97] : Outcome Empty _) = .ok none :=
  ⟨⟨emptyMemory, [.insert [97] 1], [some true], rfl, rfl⟩, rfl, rfl, _, rfl, rfl⟩

end FlexSwitch.Patricia
