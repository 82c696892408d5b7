import Mathlib

/-! Go maps, the order in which loops visit them, and memory that pointers refer to. -/

namespace FlexSwitch.Go

open List

/-- A Go map: at most one value for each key. -/
abbrev GoMap (κ ν : Type) := AList fun _ : κ => ν

/--
One choice of the order in which range loops visit their maps.

Go leaves the order open, for every loop anew, so each loop names the place it stands at.
-/
structure MapOrder where
  visit : {α : Type} → String → List α → List α
  perm : ∀ {α : Type} (site : String) (items : List α), (visit site items).Perm items

/-- Every map is visited in the order in which it is stored. -/
def MapOrder.stored : MapOrder where
  visit := fun _ items => items
  perm := fun _ _ => .refl _

/-- The entries of a map, in the order a range loop visits them. -/
def MapOrder.range {κ ν : Type} (order : MapOrder) (site : String) (map : GoMap κ ν) :
    List (κ × ν) :=
  order.visit site (map.entries.map fun entry => (entry.1, entry.2))

namespace GoMap

variable {κ ν : Type} [DecidableEq κ] {map : GoMap κ ν} {key : κ} {value : ν}

theorem lookup_eq_some :
    map.lookup key = some value ↔ (⟨key, value⟩ : Sigma fun _ : κ => ν) ∈ map.entries :=
  AList.mem_lookup_iff

theorem lookup_insert_eq {other : κ} :
    (map.insert key value).lookup other = if other = key then some value else map.lookup other := by
  by_cases same : other = key
  · subst same
    simp
  · simp [same, AList.lookup_insert_ne]

theorem lookup_erase_eq {other : κ} :
    (map.erase key).lookup other = if other = key then none else map.lookup other := by
  by_cases same : other = key
  · subst same
    simp
  · simp [same, AList.lookup_erase_ne]

/-- Values that name their key are under it, also after one is written or taken out. -/
theorem own_insert {own : ν → κ}
    (named : ∀ key value, map.lookup key = some value → own value = key)
    (here : own value = key) (other : κ) (held : ν)
    (found : (map.insert key value).lookup other = some held) : own held = other := by
  rw [lookup_insert_eq] at found
  split at found
  · rename_i same
    cases found
    exact here.trans same.symm
  · exact named other held found

theorem own_erase {own : ν → κ}
    (named : ∀ key value, map.lookup key = some value → own value = key) (other : κ)
    (held : ν) (found : (map.erase key).lookup other = some held) : own held = other := by
  rw [lookup_erase_eq] at found
  split at found
  · cases found
  · exact named other held found

/-- A map with no entries finds nothing, and only such a map does. -/
theorem isEmpty_iff : map.entries.isEmpty = true ↔ ∀ key, map.lookup key = none := by
  rw [List.isEmpty_iff]
  constructor
  · intro empty key
    cases found : map.lookup key with
    | none => rfl
    | some value =>
      have member := lookup_eq_some.mp found
      rw [empty] at member
      cases member
  · intro lacks
    apply List.eq_nil_iff_forall_not_mem.mpr
    rintro ⟨key, value⟩ member
    rw [← lookup_eq_some, lacks key] at member
    cases member

section ValueCount

variable [DecidableEq ν]

/-- Under how many keys a map holds a value. -/
def valueCount (map : GoMap κ ν) (value : ν) : Nat :=
  (map.entries.map fun entry => entry.2).count value

omit [DecidableEq κ] in
theorem valueCount_empty (value : ν) : valueCount (∅ : GoMap κ ν) value = 0 := rfl

/-- An entry that is written counts for its value, and no longer for the one that stood there. -/
theorem valueCount_insert (map : GoMap κ ν) (key : κ) (value other : ν) :
    valueCount (map.insert key value) other + (if map.lookup key = some other then 1 else 0) =
      map.valueCount other + if value = other then 1 else 0 := by
  have written : valueCount (map.insert key value) other =
      ((map.entries.kerase key).map fun entry => entry.2).count other +
        if value = other then 1 else 0 := by
    simp [valueCount, AList.entries_insert, count_cons]
  rw [written]
  by_cases held : key ∈ map.entries.keys
  · -- The old entry is the only one that is taken out.
    obtain ⟨old, before, after, _, split, rest⟩ := exists_of_kerase held
    have found : map.lookup key = some old := by
      rw [lookup_eq_some, split]
      simp
    rw [rest, found, valueCount, split]
    simp only [map_append, map_cons, count_append, count_cons, beq_iff_eq, Option.some.injEq]
    omega
  · have missing : map.lookup key = none := AList.lookup_eq_none.mpr held
    rw [kerase_of_notMem_keys held, missing, valueCount]
    simp

end ValueCount

end GoMap

namespace MapOrder

variable {κ ν : Type} [DecidableEq κ] (order : MapOrder) (site : String) (map : GoMap κ ν)

omit [DecidableEq κ] in
theorem count_range [DecidableEq ν] (value : ν) :
    ((order.range site map).map Prod.snd).count value = map.valueCount value := by
  have perm := ((order.perm site (map.entries.map fun entry => (entry.1, entry.2))).map
    Prod.snd).count_eq value
  rw [range, perm, map_map]
  rfl

theorem mem_range {order : MapOrder} {site} {map : GoMap κ ν} {key : κ} {value : ν} :
    (key, value) ∈ order.range site map ↔ map.lookup key = some value := by
  rw [range, (order.perm site _).mem_iff, GoMap.lookup_eq_some]
  simp

theorem lookup_range (key : κ) : (order.range site map).lookup key = map.lookup key := by
  cases met : (order.range site map).lookup key with
  | some value =>
    obtain ⟨_, _, split, _⟩ := lookup_eq_some_iff.mp met
    exact (mem_range.mp (split ▸ mem_append_right _ mem_cons_self)).symm
  | none =>
    refine (Option.eq_none_iff_forall_ne_some.mpr fun value found => ?_).symm
    simpa using lookup_eq_none_iff.mp met _ (mem_range.mpr found)

theorem exists_first {map : GoMap κ ν} {key : κ} {value : ν} (found : map.lookup key = some value) :
    ∃ order : MapOrder, ∀ site, ∃ rest, order.range site map = (key, value) :: rest := by
  obtain ⟨front, back, split⟩ := append_of_mem (GoMap.lookup_eq_some.mp found)
  refine ⟨⟨fun _ items => items.rotate front.length, fun _ _ => rotate_perm ..⟩, ?_⟩
  intro site
  refine ⟨(back ++ front).map fun entry => (entry.1, entry.2), ?_⟩
  show (map.entries.map fun entry => (entry.1, entry.2)).rotate front.length = _
  rw [← map_rotate, split, rotate_append_length_eq]
  rfl

end MapOrder

/-- Memory that a kind of pointer refers to, with the reference the next allocation gives out. -/
structure Heap (α : Type) where
  get : Nat → α
  next : Nat

namespace Heap

variable {α : Type}

def set (heap : Heap α) (ref : Nat) (value : α) : Heap α :=
  { heap with get := Function.update heap.get ref value }

def modify (heap : Heap α) (ref : Nat) (change : α → α) : Heap α :=
  heap.set ref (change (heap.get ref))

/-- A new cell that holds the value, found at the reference the heap had next. -/
def alloc (heap : Heap α) (value : α) : Heap α :=
  ⟨Function.update heap.get heap.next value, heap.next + 1⟩

variable {heap : Heap α} {ref : Nat} {value : α}

theorem get_set {other : Nat} :
    (heap.set ref value).get other = if other = ref then value else heap.get other := by
  simp [set, Function.update_apply]

theorem get_modify {other : Nat} {change : α → α} : (heap.modify ref change).get other =
      if other = ref then change (heap.get ref) else heap.get other := by
  simp [modify, get_set]

theorem get_alloc {other : Nat} :
    (heap.alloc value).get other = if other = heap.next then value else heap.get other := by
  simp [alloc, Function.update_apply]

@[simp] theorem next_set : (heap.set ref value).next = heap.next := rfl

@[simp] theorem next_modify {change : α → α} : (heap.modify ref change).next = heap.next := rfl

@[simp] theorem next_alloc : (heap.alloc value).next = heap.next + 1 := rfl

end Heap

end FlexSwitch.Go
