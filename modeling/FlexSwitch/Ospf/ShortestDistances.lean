import FlexSwitch.Ospf.SpfTree

/-! When the distances in the tree are the shortest ones. -/

namespace FlexSwitch.Ospf

open Go Outcome ShortestWalk List

variable {sorter : Sorter} {graph : GoMap VertexKey Vertex} {root current : VertexKey}
  {state later : Dijkstra} {scan next : Scan} {link : VertexKey × UInt16} {tEntry : TreeVertex}

section

variable (graph : GoMap VertexKey Vertex) (root : VertexKey)

/-- No path that comes to no vertex twice costs as much as `LSInfinity`. -/
def PathsBelowInfinity : Prop :=
  ∀ seen v d, Walk (Link graph) root seen v d → seen.Nodup → d < 0xff00

/--
A sum of 16 bits wraps around only where the cycle that is closed costs as much by itself.

The path leads to `v`, from there around to `u`, and comes to no vertex twice.
-/
def WrapsOnCycles : Prop :=
  ∀ first v a around u b c, Walk (Link graph) root first v a → Walk (Link graph) v around u b →
    (around ++ first.tail).Nodup → Link graph u v c → 2 ^ 16 ≤ a + b + c → 2 ^ 16 ≤ b + c

end

/-- The entry of a vertex is there, and is no farther away than that. -/
def Within (spfTree : GoMap VertexKey TreeVertex) (key : VertexKey) (d : Nat) : Prop :=
  ∃ entry, spfTree.lookup key = some entry ∧ entry.distance.toNat ≤ d

/-- A path of that length on which no vertex comes twice, with all but the last in an order. -/
def Attained (graph : GoMap VertexKey Vertex) (root : VertexKey) (order : List VertexKey)
    (key : VertexKey) (d : Nat) : Prop :=
  ∃ seen, Walk (Link graph) root seen key d ∧ seen.Nodup ∧ seen.tail.reverse <+ order

theorem relaxed_distance (current verKey : VertexKey) (tEntry tEnt : TreeVertex) (cost : UInt16) :
    (relaxed current verKey tEntry tEnt cost).distance =
      if tEntry.distance + cost < tEnt.distance then tEntry.distance + cost else tEnt.distance := by
  rw [relaxed]
  split
  · rfl
  · split <;> rfl

/-- An entry that is put in without making its vertex farther keeps all vertices within reach. -/
theorem Within.insert {spfTree : GoMap VertexKey TreeVertex} {key verKey : VertexKey} {d : Nat}
    {entry : TreeVertex} (within : Within spfTree key d)
    (nearer : ∀ tEnt, spfTree.lookup verKey = some tEnt →
      entry.distance.toNat ≤ tEnt.distance.toNat) :
    Within (spfTree.insert verKey entry) key d := by
  obtain ⟨old, found, le⟩ := within
  rw [Within, GoMap.lookup_insert_eq]
  by_cases same : key = verKey
  · subst same
    exact ⟨entry, if_pos rfl, (nearer old found).trans le⟩
  · exact ⟨old, by rw [if_neg same, found], le⟩

/-- What is known in the middle of the loop over the links of a vertex that is `d` away. -/
structure ScanLabelled (graph : GoMap VertexKey Vertex) (root : VertexKey)
    (visited : List VertexKey) (current : VertexKey) (d : Nat)
    (seen : List (VertexKey × UInt16)) (scan : Scan) : Prop where
  source : ∃ tEntry, scan.spfTree.lookup current = some tEntry ∧ tEntry.distance.toNat = d
  attained : ∀ key entry, scan.spfTree.lookup key = some entry →
    Attained graph root (visited ++ [current]) key entry.distance.toNat
  least : ∀ key d, InOrder (Link graph) root visited key d → Within scan.spfTree key d
  linked : ∀ link ∈ seen, Within scan.spfTree link.1 (d + link.2.toNat)

section Step

variable {visited path : List VertexKey} {seen : List (VertexKey × UInt16)} {d : Nat}
  (bounded : PathsBelowInfinity graph root) (wraps : WrapsOnCycles graph root)
  (walk : Walk (Link graph) root path current d) (simple : path.Nodup)
  (sorted : path.tail.reverse <+ visited)
  (labelled : ScanLabelled graph root visited current d seen scan)
  (edge : Link graph current link.1 link.2.toNat)

include bounded wraps walk simple sorted labelled edge

/-- A link makes the path longer, or leads back to a vertex on it, which does not get nearer. -/
theorem ScanLabelled.sum : (link.1 ∉ path ∧ d + link.2.toNat < 0xff00) ∨
    ∃ tEnt, scan.spfTree.lookup link.1 = some tEnt ∧
      tEnt.distance.toNat ≤ (d + link.2.toNat) % 2 ^ 16 := by
  by_cases on : link.1 ∈ path
  · -- The neighbor is on the way to the vertex, and the link closes a cycle.
    obtain ⟨first, a, around, b, before, onward, whole, sum⟩ := walk.cut on
    have sources : first.tail.reverse <+ visited := by
      refine Sublist.trans ?_ sorted
      rw [reverse_sublist, ← whole, onward.eq_cons, cons_append, tail_cons]
      exact sublist_append_right _ _
    obtain ⟨tEnt, found, le⟩ := labelled.least _ _ ⟨first, before, sources⟩
    have alone := wraps _ _ _ _ _ _ _ before onward (whole ▸ simple) edge
    have small := bounded _ _ _ walk simple
    have cost := link.2.toNat_lt
    exact .inr ⟨tEnt, found, by omega⟩
  · exact .inl ⟨on, bounded _ _ _ (walk.step edge) (simple.cons on)⟩

/-- The neighbor is now at the end of the path, or where it was, and not behind the link. -/
theorem ScanLabelled.relax {tEntry tEnt : TreeVertex} (away : tEntry.distance.toNat = d)
    (child : scan.spfTree.lookup link.1 = some tEnt ∨
      scan.spfTree.lookup link.1 = none ∧ tEnt = farVertex) :
    (link.1 ∉ path ∧ (relaxed current link.1 tEntry tEnt link.2).distance.toNat =
        d + link.2.toNat ∧ d + link.2.toNat ≤ tEnt.distance.toNat) ∨
      scan.spfTree.lookup link.1 = some tEnt ∧
        (relaxed current link.1 tEntry tEnt link.2).distance = tEnt.distance ∧
        tEnt.distance.toNat ≤ d + link.2.toNat := by
  have total : (tEntry.distance + link.2).toNat = (d + link.2.toNat) % 2 ^ 16 := by
    rw [UInt16.toNat_add, away]
  rw [relaxed_distance]
  rcases labelled.sum bounded wraps walk simple sorted edge with ⟨off, small⟩ | ⟨old, found, le⟩
  · by_cases lower : tEntry.distance + link.2 < tEnt.distance
    · rw [if_pos lower]
      rw [UInt16.lt_iff_toNat_lt, total] at lower
      exact .inl ⟨off, by omega, by omega⟩
    · rw [if_neg lower]
      rw [UInt16.lt_iff_toNat_lt, total] at lower
      rcases child with child | ⟨-, rfl⟩
      · exact .inr ⟨child, rfl, by omega⟩
      · have far : farVertex.distance.toNat = 0xff00 := rfl
        omega
  · rcases child with child | ⟨absent, -⟩
    · rw [found] at child
      cases child
      rw [if_neg]
      · exact .inr ⟨found, rfl, by omega⟩
      · rw [UInt16.lt_iff_toNat_lt, total]
        omega
    · simp [absent] at found

/-- The end of a link is new, or nearer by this link, or stays as it is. -/
theorem ScanLabelled.step {areaGraph : GoMap VertexKey Vertex}
    (advanced : scanLink areaGraph current scan link = .ok next) :
    ScanLabelled graph root visited current d (seen ++ [link]) next := by
  obtain ⟨-, tEntry, parent, again⟩ := scanLink_ok advanced
  have away : tEntry.distance.toNat = d := by
    obtain ⟨source, found, same⟩ := labelled.source
    rw [parent] at found
    cases found
    exact same
  -- Whether the neighbor is new or not, one entry is put in.
  obtain ⟨tEnt, child, inserted⟩ : ∃ tEnt, (scan.spfTree.lookup link.1 = some tEnt ∨
      scan.spfTree.lookup link.1 = none ∧ tEnt = farVertex) ∧ next.spfTree =
        scan.spfTree.insert link.1 (relaxed current link.1 tEntry tEnt link.2) := by
    obtain ⟨tEnt, child, rfl⟩ | ⟨absent, rfl⟩ := again
    · exact ⟨tEnt, .inl child, rfl⟩
    · exact ⟨farVertex, .inr ⟨absent, rfl⟩, rfl⟩
  have relaxed := labelled.relax bounded wraps walk simple sorted edge away child
  generalize Ospf.relaxed current link.1 tEntry tEnt link.2 = entry at relaxed inserted
  have nearer : ∀ old, scan.spfTree.lookup link.1 = some old →
      entry.distance.toNat ≤ old.distance.toNat := by
    intro old found
    rcases child with child | ⟨absent, -⟩
    · rw [child] at found
      cases found
      rcases relaxed with ⟨_, same, le⟩ | ⟨_, same, _⟩
      · omega
      · rw [same]
    · simp [absent] at found
  constructor
  · rw [inserted, GoMap.lookup_insert_eq]
    by_cases same : current = link.1
    · rcases relaxed with ⟨off, _⟩ | ⟨found, kept, _⟩
      · rw [walk.eq_cons, ← same] at off
        exact absurd mem_cons_self off
      · rw [← same, parent] at found
        cases found
        exact ⟨entry, if_pos same, by rw [kept, away]⟩
    · exact ⟨tEntry, by rw [if_neg same, parent], away⟩
  · intro key other looked
    rw [inserted, GoMap.lookup_insert_eq] at looked
    by_cases same : key = link.1
    · rw [if_pos same] at looked
      cases looked
      rw [same]
      rcases relaxed with ⟨off, total, _⟩ | ⟨found, kept, _⟩
      · refine ⟨_, total ▸ walk.step edge, simple.cons off, ?_⟩
        rw [tail_cons, walk.eq_cons, reverse_cons]
        exact sorted.append_right [current]
      · rw [kept]
        exact labelled.attained _ _ found
    · rw [if_neg same] at looked
      exact labelled.attained _ _ looked
  · intro key d walks
    rw [inserted]
    exact (labelled.least key d walks).insert nearer
  · rw [inserted]
    refine forall_mem_append.mpr ⟨fun other member =>
      (labelled.linked other member).insert nearer, forall_mem_singleton.mpr ⟨entry, ?_, ?_⟩⟩
    · rw [GoMap.lookup_insert_eq, if_pos rfl]
    · rcases relaxed with ⟨_, total, _⟩ | ⟨_, kept, le⟩
      · exact total.le
      · rwa [kept]

end Step

/-- What holds of the distances from round to round. -/
structure Labelled (graph : GoMap VertexKey Vertex) (root : VertexKey) (state : Dijkstra) :
    Prop where
  attained : ∀ key entry, state.spfTree.lookup key = some entry →
    Attained graph root ((state.treeVSlice.take state.j).map VertexData.vKey) key
      entry.distance.toNat
  least : ∀ key d, InOrder (Link graph) root
    ((state.treeVSlice.take state.j).map VertexData.vKey) key d → Within state.spfTree key d

theorem Labelled.initial : Labelled graph root (.start graph root) where
  attained := by
    intro key entry looked
    rw [Dijkstra.start, GoMap.lookup_insert_eq] at looked
    split at looked
    · rename_i same
      cases looked
      rw [same]
      exact ⟨_, .root, nodup_singleton _, nil_sublist _⟩
    · cases looked
  least := by
    rintro key d ⟨seen, walk, sources⟩
    cases walk with
    | root => exact ⟨⟨[[]], 0⟩, by rw [Dijkstra.start, GoMap.lookup_insert_eq, if_pos rfl], le_rfl⟩
    | step before last =>
      rw [tail_cons, before.eq_cons] at sources
      simp [Dijkstra.start] at sources

/-- The links of the visited vertex give walks in order that are one vertex longer. -/
theorem Labelled.round (bounded : PathsBelowInfinity graph root)
    (wraps : WrapsOnCycles graph root) (grown : Grown graph root state)
    (labelled : Labelled graph root state)
    (advanced : dijkstraRound sorter state = .ok (.next later)) : Labelled graph root later := by
  obtain ⟨data, ent, scan, picked, known, done, rfl⟩ := dijkstraRound_next advanced
  obtain ⟨first, original, links⟩ := grown.links_of known
  have found : (state.spfTree.lookup data.vKey).isSome :=
    (grown.keys _).mpr (mem_map_of_mem (mem_of_getElem? picked))
  obtain ⟨tEntry, looked⟩ := Option.isSome_iff_exists.mp found
  obtain ⟨path, walk, simple, sorted⟩ := labelled.attained _ _ looked
  have scanned : ScanLabelled graph root ((state.treeVSlice.take state.j).map VertexData.vKey)
      data.vKey tEntry.distance.toNat ent.links scan := by
    refine @foldlM_split _ _ _ _ _ _ (ScanLabelled graph root _ data.vKey tEntry.distance.toNat)
      _ ?_ ?_ done
    · refine ⟨⟨tEntry, looked, rfl⟩, fun key entry there => ?_, labelled.least, by simp⟩
      obtain ⟨seen, walks, nodup, sources⟩ := labelled.attained key entry there
      exact ⟨seen, walks, nodup, sources.trans (sublist_append_left _ _)⟩
    · intro seen link rest scan next split holds step
      have edge : Link graph data.vKey link.1 link.2.toNat :=
        ⟨first, link.2, original, by rw [links, split]; simp, rfl⟩
      exact holds.step bounded wraps walk simple sorted edge step
  constructor
  · intro key entry there
    simp only [take_reordered sorter picked, map_append, map_singleton]
    exact scanned.attained key entry there
  · intro key d walks
    simp only [take_reordered sorter picked, map_append, map_singleton] at walks
    -- The walk leaves out the vertex that was visited now, or ends with one of its links.
    rcases walks.of_concat with before | ⟨near, c, before, edge, rfl⟩
    · exact scanned.least key d before
    · obtain ⟨old, there, le⟩ := labelled.least _ _ before
      rw [looked] at there
      cases there
      obtain ⟨vertex, cost, same, listed, rfl⟩ := edge
      rw [original] at same
      cases same
      rw [links] at listed
      obtain ⟨entry, present, least⟩ := scanned.linked _ listed
      exact ⟨entry, present, least.trans (Nat.add_le_add_right le _)⟩

/-- The place of a vertex among those left: transit networks are in front of what is as far. -/
def VertexData.rank (data : VertexData) : Nat :=
  data.distance.toNat * 2 + if data.vKey.type = tNetworkVertex then 0 else 1

theorem not_less_of_rank_le {a b : VertexData} (ranked : a.rank ≤ b.rank)
    (kind : a.vKey.IsRouterOrNetwork) (kind' : b.vKey.IsRouterOrNetwork) : b.less a = false := by
  rw [VertexData.less]
  by_cases same : b.distance = a.distance
  · rw [if_pos same]
    rcases kind with left | left <;> rcases kind' with right | right <;> simp_all [VertexData.rank]
  · have far : a.distance.toNat ≠ b.distance.toNat := fun eq => same (UInt16.toNat_inj.mp eq.symm)
    have near : a.distance.toNat < b.distance.toNat := by
      rw [VertexData.rank, VertexData.rank] at ranked
      split at ranked <;> split at ranked <;> omega
    rw [if_neg same, decide_eq_false_iff_not, UInt16.lt_iff_toNat_lt]
    omega

/-- Sorting by insertion. -/
def insertionSorter : Sorter where
  sort := List.insertionSort fun a b => a.rank ≤ b.rank
  perm := List.perm_insertionSort _
  sorted := by
    intro items kinds
    have : IsTrans VertexData fun a b => a.rank ≤ b.rank := ⟨fun _ _ _ => le_trans⟩
    have : Std.Total fun a b : VertexData => a.rank ≤ b.rank := ⟨fun _ _ => le_total _ _⟩
    have perm := List.perm_insertionSort (fun a b : VertexData => a.rank ≤ b.rank) items
    refine (List.pairwise_insertionSort (fun a b => a.rank ≤ b.rank) items).imp_of_mem ?_
    intro a b one two ranked
    exact not_less_of_rank_le ranked (kinds a (perm.mem_iff.mp one)) (kinds b (perm.mem_iff.mp two))

/-- The vertex of a router. -/
def routerKey (id : UInt32) : VertexKey := ⟨routerVertex, id, id⟩

/-- A router with links to the routers that are named, at their costs. -/
def routerWith (id : UInt32) (nbrs : List (UInt32 × UInt16)) : Sigma fun _ : VertexKey => Vertex :=
  ⟨routerKey id, nbrs.map fun nbr => routerKey nbr.1, nbrs.map Prod.snd, ∅, ⟨routerLSA, id, id⟩,
    false⟩

theorem Link.exists_entry {u v : VertexKey} {c : Nat} (link : Link graph u v c) :
    ∃ entry ∈ graph.entries, entry.1 = u ∧ ∃ item ∈ entry.2.links, item.1 = v ∧
      item.2.toNat = c := by
  obtain ⟨ent, cost, looked, listed, weight⟩ := link
  exact ⟨⟨u, ent⟩, GoMap.lookup_eq_some.mp looked, rfl, (v, cost), listed, rfl, weight⟩

section Light

variable (most : Nat)
  (light : ∀ entry ∈ graph.entries, ∀ item ∈ entry.2.links,
    item.2.toNat ≤ most ∧ item.1 ∈ graph.keys)
  (start : root ∈ graph.keys) (few : most * graph.keys.length < 0xff00)

include light start few

/-- A path on few and cheap links costs less than `LSInfinity`, also with one more link. -/
theorem weight_lt_of_light {seen : List VertexKey} {v : VertexKey} {d : Nat}
    (walk : Walk (Link graph) root seen v d) (simple : seen.Nodup) : d + most < 0xff00 := by
  have weight := walk.weight_le most graph.keys ?_ start simple
  · omega
  · intro u v c link
    obtain ⟨entry, member, -, item, listed, rfl, rfl⟩ := link.exists_entry
    exact light entry member item listed

theorem pathsBelowInfinity_of_light : PathsBelowInfinity graph root := by
  intro seen v d walk simple
  have weight := weight_lt_of_light most light start few walk simple
  omega

theorem wrapsOnCycles_of_light : WrapsOnCycles graph root := by
  intro first v a around u b c before onward simple last wraps
  have weight := weight_lt_of_light most light start few (before.append onward) simple
  obtain ⟨entry, member, -, item, listed, -, rfl⟩ := last.exists_entry
  have cheap := (light entry member item listed).1
  omega

end Light

/-- Three routers, of which the second is nearer by way of the third than by its own link. -/
def triangleGraph : GoMap VertexKey Vertex :=
  [routerWith 1 [(2, 10), (3, 1)], routerWith 2 [(1, 10), (3, 1)],
    routerWith 3 [(1, 1), (2, 1)]].toAList

/-- How far the routers of the triangle are from the first one. -/
def triangleHeight (key : VertexKey) : Nat :=
  if key = routerKey 2 then 2 else if key = routerKey 3 then 1 else 0

theorem inOrder_triangle {key : VertexKey}
    (reachable : Reachable (Link triangleGraph) (routerKey 1) key) :
    InOrder (Link triangleGraph) (routerKey 1) [routerKey 1, routerKey 3, routerKey 2] key
      (triangleHeight key) := by
  have listed : key ∈ [routerKey 1, routerKey 2, routerKey 3] := by
    refine reachable.induction (by simp) fun u v c _ link => ?_
    obtain ⟨entry, member, -, item, among, rfl, -⟩ := link.exists_entry
    exact (by decide : ∀ entry ∈ triangleGraph.entries, ∀ item ∈ entry.2.links,
      item.1 ∈ [routerKey 1, routerKey 2, routerKey 3]) entry member item among
  have third : InOrder (Link triangleGraph) (routerKey 1) ([] ++ [routerKey 1]) (routerKey 3)
      (0 + 1) := InOrder.here.step ⟨_, 1, rfl, by decide, rfl⟩
  have second : InOrder (Link triangleGraph) (routerKey 1) ([routerKey 1] ++ [routerKey 3])
      (routerKey 2) (1 + 1) := third.step ⟨_, 1, rfl, by decide, rfl⟩
  simp only [mem_cons, not_mem_nil, or_false] at listed
  rcases listed with rfl | rfl | rfl
  · exact .here
  · exact second.mono (by simp)
  · exact third.mono (by simp)

/-- Five routers, of which the second is nearer by way of the third than by its own link. -/
def detourGraph : GoMap VertexKey Vertex :=
  [routerWith 1 [(2, 10), (3, 1)], routerWith 2 [(1, 10), (3, 1), (4, 1)],
    routerWith 3 [(1, 1), (2, 1), (4, 5)], routerWith 4 [(3, 5), (2, 1), (5, 1)],
    routerWith 5 [(4, 1)]].toAList

end FlexSwitch.Ospf
