import Mathlib

/-! Walks through a graph with weights, and the least weight of a walk to each of its nodes. -/

namespace FlexSwitch.ShortestWalk

open List

variable {V : Type} {edge : V → V → Nat → Prop} {root u v : V} {seen : List V} {d d' c : Nat}

/-- A walk from the root, with the nodes on it, the last one first, and its weight. -/
inductive Walk (edge : V → V → Nat → Prop) (root : V) : List V → V → Nat → Prop where
  | root : Walk edge root [root] root 0
  | step {seen : List V} {u v : V} {d c : Nat} (before : Walk edge root seen u d)
      (last : edge u v c) : Walk edge root (v :: seen) v (d + c)

/-- There is a walk to the node. -/
def Reachable (edge : V → V → Nat → Prop) (root v : V) : Prop :=
  ∃ seen d, Walk edge root seen v d

/-- The weight is the least one of a walk to the node. -/
structure IsShortest (edge : V → V → Nat → Prop) (root v : V) (d : Nat) : Prop where
  attained : ∃ seen, Walk edge root seen v d
  least : ∀ seen d', Walk edge root seen v d' → d ≤ d'

theorem Reachable.here : Reachable edge root root := ⟨_, _, .root⟩

theorem Reachable.step (reachable : Reachable edge root u) (last : edge u v c) :
    Reachable edge root v := by
  obtain ⟨seen, d, walk⟩ := reachable
  exact ⟨_, _, walk.step last⟩

/-- What holds at the root and along edges holds at every node that can be reached. -/
theorem Reachable.induction {Holds : V → Prop} (reachable : Reachable edge root v)
    (initial : Holds root) (along : ∀ u v c, Holds u → edge u v c → Holds v) : Holds v := by
  obtain ⟨seen, d, walk⟩ := reachable
  induction walk with
  | root => exact initial
  | step _ last ih => exact along _ _ _ ih last

theorem IsShortest.unique (one : IsShortest edge root v d) (two : IsShortest edge root v d') :
    d = d' := by
  obtain ⟨seen, walk⟩ := one.attained
  obtain ⟨seen', walk'⟩ := two.attained
  exact le_antisymm (one.least _ _ walk') (two.least _ _ walk)

/-- One of the walks to a node has the least weight. -/
theorem Reachable.exists_shortest (reachable : Reachable edge root v) :
    ∃ d, IsShortest edge root v d := by
  classical
  have weights : ∃ d seen, Walk edge root seen v d := by
    obtain ⟨seen, d, walk⟩ := reachable
    exact ⟨d, seen, walk⟩
  exact ⟨Nat.find weights, Nat.find_spec weights,
    fun seen d walk => Nat.find_min' weights ⟨seen, walk⟩⟩

theorem Walk.eq_cons (walk : Walk edge root seen v d) : seen = v :: seen.tail := by
  cases walk <;> rfl

/-- A walk that goes on where another one ends. -/
theorem Walk.append {first around : List V} {a b : Nat} (walk : Walk edge root first v a)
    (onward : Walk edge v around u b) : Walk edge root (around ++ first.tail) u (a + b) := by
  induction onward with
  | root => rwa [singleton_append, ← walk.eq_cons]
  | step _ last ih => simpa only [add_assoc, cons_append] using ih.step last

/-- A walk can be cut in two at every node that it comes to. -/
theorem Walk.cut (walk : Walk edge root seen u d) (on : v ∈ seen) :
    ∃ first a around b, Walk edge root first v a ∧ Walk edge v around u b ∧
      around ++ first.tail = seen ∧ a + b = d := by
  induction walk with
  | root =>
    rw [mem_singleton.mp on]
    exact ⟨_, 0, _, 0, .root, .root, rfl, rfl⟩
  | @step seen u w d c before last ih =>
    by_cases here : v = w
    · subst here
      exact ⟨_, _, _, 0, before.step last, .root, rfl, rfl⟩
    · obtain ⟨first, a, around, b, walk, onward, whole, sum⟩ :=
        ih ((mem_cons.mp on).resolve_left here)
      exact ⟨first, a, _, _, walk, onward.step last, by rw [cons_append, whole], by omega⟩

/-- A walk that comes to no node twice weighs at most one edge less than there are nodes. -/
theorem Walk.weight_le (walk : Walk edge root seen v d) (most : Nat) (nodes : List V)
    (light : ∀ u v c, edge u v c → c ≤ most ∧ v ∈ nodes) (start : root ∈ nodes)
    (simple : seen.Nodup) : d + most ≤ most * nodes.length := by
  have weight : d + most = most * seen.length ∨ d + most < most * seen.length := by
    clear simple
    induction walk with
    | root => exact .inl (by simp)
    | @step seen u v d c before last ih =>
      have le := (light _ _ _ last).1
      rw [length_cons, Nat.mul_succ]
      omega
  have inside : ∀ x ∈ seen, x ∈ nodes := by
    clear simple weight
    induction walk with
    | root => exact forall_mem_singleton.mpr start
    | step before last ih =>
      exact forall_mem_cons.mpr ⟨(light _ _ _ last).2, ih⟩
  have length : seen.length ≤ nodes.length := (simple.subperm inside).length_le
  have product := Nat.mul_le_mul_left most length
  omega

/-- No walk weighs less than a height that no edge climbs by more than its own weight. -/
theorem Walk.height_le {height : V → Nat} (walk : Walk edge root seen v d)
    (level : height root = 0) (slopes : ∀ u v c, edge u v c → height v ≤ height u + c) :
    height v ≤ d := by
  induction walk with
  | root => exact level.le
  | step _ last ih => exact (slopes _ _ _ last).trans (Nat.add_le_add_right ih _)

/-- A walk of a weight whose nodes, but for the last one, come in the order of a list. -/
def InOrder (edge : V → V → Nat → Prop) (root : V) (order : List V) (v : V) (d : Nat) : Prop :=
  ∃ seen, Walk edge root seen v d ∧ seen.tail.reverse <+ order

namespace InOrder

variable {order : List V}

theorem here : InOrder edge root order root 0 := ⟨_, .root, nil_sublist _⟩

theorem step (before : InOrder edge root order u d) (last : edge u v c) :
    InOrder edge root (order ++ [u]) v (d + c) := by
  obtain ⟨seen, walk, sorted⟩ := before
  refine ⟨_, walk.step last, ?_⟩
  rw [tail_cons, walk.eq_cons, reverse_cons]
  exact sorted.append_right [u]

theorem mono {longer : List V} (walks : InOrder edge root order v d) (part : order <+ longer) :
    InOrder edge root longer v d := by
  obtain ⟨seen, walk, sorted⟩ := walks
  exact ⟨seen, walk, sorted.trans part⟩

/-- Walks as light as a height makes them are the shortest ones. -/
theorem of_height {height : V → Nat} (level : height root = 0)
    (slopes : ∀ u v c, edge u v c → height v ≤ height u + c)
    (walks : InOrder edge root order v (height v)) (shortest : IsShortest edge root v d) :
    InOrder edge root order v d := by
  obtain ⟨seen, walk⟩ := shortest.attained
  have ⟨seen', walk', _⟩ := walks
  rwa [le_antisymm (shortest.least _ _ walk') (walk.height_le level slopes)]

/-- The last of the list is left out, or it is where the last edge of the walk starts. -/
theorem of_concat (walks : InOrder edge root (order ++ [u]) v d) :
    InOrder edge root order v d ∨ ∃ d' c, InOrder edge root order u d' ∧ edge u v c ∧
      d' + c = d := by
  obtain ⟨seen, walk, sorted⟩ := walks
  cases walk with
  | root => exact .inl here
  | @step seen w v d c before last =>
    rw [tail_cons, before.eq_cons, reverse_cons, ← reverse_sublist, reverse_concat, reverse_concat,
      reverse_reverse, cons_sublist_cons'] at sorted
    rcases sorted with within | ⟨rfl, within⟩
    · refine .inl ⟨_, before.step last, ?_⟩
      rw [tail_cons, before.eq_cons, reverse_cons, ← reverse_sublist, reverse_concat]
      simpa using within
    · refine .inr ⟨d, c, ⟨seen, before, ?_⟩, last, rfl⟩
      rw [← reverse_sublist]
      simpa using within

end InOrder

end FlexSwitch.ShortestWalk
