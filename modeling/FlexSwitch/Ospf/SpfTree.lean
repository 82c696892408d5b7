import FlexSwitch.Ospf.Spf
import FlexSwitch.ShortestWalk

/-! What the tree of shortest paths holds while it grows, whatever the costs of the links are. -/

namespace FlexSwitch.Ospf

open Go Outcome ShortestWalk List

/-- A link of the graph, with its cost. -/
def Link (graph : GoMap VertexKey Vertex) (u v : VertexKey) (c : Nat) : Prop :=
  ∃ ent cost, graph.lookup u = some ent ∧ (v, cost) ∈ ent.links ∧ cost.toNat = c

/-- The vertices that were found so far. -/
def Dijkstra.found (state : Dijkstra) : List VertexKey :=
  state.treeVSlice.map VertexData.vKey

section Scan

variable {areaGraph : GoMap VertexKey Vertex} {current : VertexKey} {ent : Vertex}
  {scan next final : Scan} {link : VertexKey × UInt16}

/-- The rounds over the neighbors are those over the links, as far as there are costs. -/
theorem scanNeighbors_eq (keys : List VertexKey) (place : Nat) (scan : Scan) :
    (keys.zipIdx place).foldlM (scanNeighbor areaGraph current ent) scan =
      (keys.zip (ent.nbrVertexCost.drop place)).foldlM (scanLink areaGraph current) scan >>=
        fun final => if keys.length + place ≤ max place ent.nbrVertexCost.length then .ok final
          else .panic := by
  induction keys generalizing place scan with
  | nil => simp
  | cons key keys ih =>
    rw [zipIdx_cons, foldlM_cons, scanNeighbor]
    by_cases within : place < ent.nbrVertexCost.length
    · -- The cost at the place is the next one of those that are left.
      rw [getElem?_eq_getElem within, drop_eq_getElem_cons within, zip_cons_cons,
        foldlM_cons, bind_assoc]
      congr 1
      funext later
      rw [ih _ later]
      congr 1
      funext last
      have same : (keys.length + (place + 1) ≤ max (place + 1) ent.nbrVertexCost.length) ↔
          ((key :: keys).length + place ≤ max place ent.nbrVertexCost.length) := by
        rw [length_cons]
        omega
      simp only [same]
    · have past : ent.nbrVertexCost.length ≤ place := Nat.le_of_not_lt within
      have many : ¬ (key :: keys).length + place ≤ max place ent.nbrVertexCost.length := by
        rw [length_cons]
        omega
      rw [getElem?_eq_none past, drop_eq_nil_of_le past, zip_nil_right,
        foldlM_nil, pure_eq, ok_bind, if_neg many]
      rfl

/-- The loop over the neighbors ends as the one over the links does. -/
theorem scanNeighbors_links
    (done : ent.nbrVertexKey.zipIdx.foldlM (scanNeighbor areaGraph current ent) scan = .ok final) :
    ent.links.foldlM (scanLink areaGraph current) scan = .ok final := by
  rw [scanNeighbors_eq, drop_zero, bind_eq_ok] at done
  obtain ⟨last, ended, kept⟩ := done
  split at kept
  · cases kept
    exact ended
  · cases kept

/-- The entry that a link leaves for its neighbor, and whether the neighbor is a new vertex. -/
theorem scanLink_ok (advanced : scanLink areaGraph current scan link = .ok next) :
    (areaGraph.lookup link.1).isSome ∧ ∃ tEntry, scan.spfTree.lookup current = some tEntry ∧
      ((∃ tEnt, scan.spfTree.lookup link.1 = some tEnt ∧ next = { scan with
        spfTree := scan.spfTree.insert link.1 (relaxed current link.1 tEntry tEnt link.2) }) ∨
      (scan.spfTree.lookup link.1 = none ∧ next = {
        spfTree := scan.spfTree.insert link.1 (relaxed current link.1 tEntry farVertex link.2)
        verArr := scan.verArr ++
          [⟨link.1, (relaxed current link.1 tEntry farVertex link.2).distance⟩] })) := by
  rw [scanLink] at advanced
  rcases known : areaGraph.lookup link.1 with _ | vertex
  · simp [known] at advanced
  refine ⟨rfl, ?_⟩
  rcases parent : scan.spfTree.lookup current with _ | tEntry
  · simp [known, parent] at advanced
  refine ⟨tEntry, rfl, ?_⟩
  cases child : scan.spfTree.lookup link.1 with
  | none =>
    simp only [known, parent, child] at advanced
    cases advanced
    exact .inr ⟨rfl, rfl⟩
  | some tEnt =>
    simp only [known, parent, child] at advanced
    cases advanced
    exact .inl ⟨tEnt, rfl, rfl⟩

/-- What is known of the vertices in the middle of the loop over the links of one of them. -/
structure Scanned (areaGraph : GoMap VertexKey Vertex) (found : List VertexKey)
    (seen : List (VertexKey × UInt16)) (scan : Scan) : Prop where
  keys : ∀ key, (scan.spfTree.lookup key).isSome ↔ key ∈ found ++ scan.verArr.map VertexData.vKey
  nodup : (found ++ scan.verArr.map VertexData.vKey).Nodup
  covered : ∀ link ∈ seen, link.1 ∈ found ++ scan.verArr.map VertexData.vKey
  linked : ∀ item ∈ scan.verArr, item.vKey ∈ seen.map Prod.fst
  known : ∀ item ∈ scan.verArr, (areaGraph.lookup item.vKey).isSome

/-- The end of a link was found before, or is added once. -/
theorem Scanned.step {found : List VertexKey} {seen : List (VertexKey × UInt16)}
    (scanned : Scanned areaGraph found seen scan)
    (advanced : scanLink areaGraph current scan link = .ok next) :
    Scanned areaGraph found (seen ++ [link]) next := by
  obtain ⟨vertex, tEntry, -, again⟩ := scanLink_ok advanced
  obtain ⟨tEnt, child, rfl⟩ | ⟨fresh, rfl⟩ := again
  · -- The neighbor was found before, and only its entry changes.
    have old : link.1 ∈ found ++ scan.verArr.map VertexData.vKey := by
      rw [← scanned.keys, child]
      rfl
    constructor
    · intro key
      rw [GoMap.lookup_insert_eq]
      by_cases same : key = link.1
      · subst same
        simpa using mem_append.mp old
      · rw [if_neg same]
        exact scanned.keys key
    · exact scanned.nodup
    · exact forall_mem_append.mpr ⟨scanned.covered, forall_mem_singleton.mpr old⟩
    · intro item member
      rw [map_append]
      exact mem_append_left _ (scanned.linked item member)
    · exact scanned.known
  · -- The neighbor is new, and is put behind the ones found before it.
    have absent : link.1 ∉ found ++ scan.verArr.map VertexData.vKey := by
      rw [← scanned.keys, fresh]
      simp
    have longer : ∀ data : VertexData, data.vKey = link.1 →
        found ++ (scan.verArr ++ [data]).map VertexData.vKey =
          (found ++ scan.verArr.map VertexData.vKey) ++ [link.1] := by
      intro data same
      rw [map_append, map_singleton, same, append_assoc]
    constructor
    · intro key
      rw [longer _ rfl, GoMap.lookup_insert_eq, mem_append, mem_singleton, ← scanned.keys]
      by_cases same : key = link.1
      · simp [same]
      · simp [same]
    · rw [longer _ rfl, nodup_append]
      refine ⟨scanned.nodup, nodup_singleton _, fun key member other last => ?_⟩
      rw [mem_singleton.mp last]
      exact fun same => absent (same ▸ member)
    · rw [longer _ rfl]
      exact forall_mem_append.mpr ⟨fun other earlier => mem_append_left _
        (scanned.covered other earlier), forall_mem_singleton.mpr (by simp)⟩
    · rw [map_append]
      exact forall_mem_append.mpr ⟨fun item earlier => mem_append_left _
        (scanned.linked item earlier), forall_mem_singleton.mpr (by simp)⟩
    · exact forall_mem_append.mpr ⟨scanned.known, forall_mem_singleton.mpr vertex⟩

end Scan

section Rounds

variable {sorter : Sorter} {graph : GoMap VertexKey Vertex} {root : VertexKey}
  {state later : Dijkstra}

/-- A round that goes on has looked at all links of the next vertex. -/
theorem dijkstraRound_next (advanced : dijkstraRound sorter state = .ok (.next later)) :
    ∃ current ent scan, state.treeVSlice[state.j]? = some current ∧
      state.areaGraph.lookup current.vKey = some ent ∧
      ent.links.foldlM (scanLink state.areaGraph current.vKey) ⟨state.spfTree, []⟩ = .ok scan ∧
      later = {
        j := state.j + 1
        treeVSlice := (state.treeVSlice ++ scan.verArr).take (state.j + 1) ++
          sorter.sort ((state.treeVSlice ++ scan.verArr).drop (state.j + 1))
        spfTree := scan.spfTree
        areaGraph := state.areaGraph.insert current.vKey { ent with visited := true } } := by
  rw [dijkstraRound] at advanced
  rcases picked : state.treeVSlice[state.j]? with _ | current
  · simp [picked] at advanced
  rcases known : state.areaGraph.lookup current.vKey with _ | ent
  · simp [picked, known] at advanced
  simp only [picked, known, bind_eq_ok] at advanced
  obtain ⟨scan, scanned, ended⟩ := advanced
  cases ended
  exact ⟨current, ent, scan, rfl, known, scanNeighbors_links scanned, rfl⟩

/-- A round that stops has no vertex left. -/
theorem dijkstraRound_stop (stopped : dijkstraRound sorter state = .ok (.stop later)) :
    state.treeVSlice[state.j]? = none ∧ later = state := by
  rw [dijkstraRound] at stopped
  cases picked : state.treeVSlice[state.j]? with
  | none =>
    rw [picked] at stopped
    cases stopped
    exact ⟨rfl, rfl⟩
  | some current =>
    cases known : state.areaGraph.lookup current.vKey with
    | none => simp [picked, known] at stopped
    | some ent =>
      simp only [picked, known, bind_eq_ok] at stopped
      obtain ⟨scan, -, ended⟩ := stopped
      cases ended

/-- What holds of the vertices from round to round. -/
structure Grown (graph : GoMap VertexKey Vertex) (root : VertexKey) (state : Dijkstra) : Prop where
  sameLinks : ∀ key,
    (state.areaGraph.lookup key).map Vertex.links = (graph.lookup key).map Vertex.links
  within : state.j ≤ state.treeVSlice.length
  nodup : state.found.Nodup
  keys : ∀ key, (state.spfTree.lookup key).isSome ↔ key ∈ state.found
  reachable : ∀ key ∈ state.found, Reachable (Link graph) root key
  rooted : root ∈ state.found
  known : ∀ key ∈ state.found, key = root ∨ (graph.lookup key).isSome
  closed : ∀ data ∈ state.treeVSlice.take state.j, ∀ v c, Link graph data.vKey v c → v ∈ state.found

/-- Where the loop starts when the tree is empty. -/
def Dijkstra.start (graph : GoMap VertexKey Vertex) (root : VertexKey) : Dijkstra :=
  ⟨0, [⟨root, 0⟩], (∅ : GoMap VertexKey TreeVertex).insert root ⟨[[]], 0⟩, graph⟩

theorem Grown.initial : Grown graph root (.start graph root) where
  sameLinks := fun _ => rfl
  within := Nat.zero_le _
  nodup := nodup_singleton _
  keys := by
    intro key
    rw [Dijkstra.start, GoMap.lookup_insert_eq]
    by_cases same : key = root <;> simp [Dijkstra.found, same]
  reachable := by
    intro key member
    rw [mem_singleton.mp member]
    exact .here
  rooted := mem_cons_self
  known := fun key member => .inl (mem_singleton.mp member)
  closed := by
    intro data member
    cases member

/-- The links of a vertex are those that it had in the beginning. -/
theorem Grown.links_of (grown : Grown graph root state) {key : VertexKey} {ent : Vertex}
    (known : state.areaGraph.lookup key = some ent) :
    ∃ first, graph.lookup key = some first ∧ first.links = ent.links := by
  have same := grown.sameLinks key
  rw [known, Option.map_some] at same
  exact Option.map_eq_some_iff.mp same.symm

theorem Grown.scanned_nil (grown : Grown graph root state) :
    Scanned state.areaGraph state.found [] ⟨state.spfTree, []⟩ := by
  constructor
  · simpa using grown.keys
  · simpa using grown.nodup
  · simp
  · simp
  · simp

/-- All links of the next vertex were looked at, and each leads to a vertex that is found. -/
theorem Grown.scanned (grown : Grown graph root state) {current : VertexKey} {ent : Vertex}
    {scan : Scan}
    (done : ent.links.foldlM (scanLink state.areaGraph current) ⟨state.spfTree, []⟩ = .ok scan) :
    Scanned state.areaGraph state.found ent.links scan := by
  refine foldlM_seen grown.scanned_nil ?_ done
  intro seen link scan next scanned advanced
  exact scanned.step advanced

theorem reordered_perm (sorter : Sorter) (items : List VertexData) (place : Nat) :
    (items.take place ++ sorter.sort (items.drop place)).Perm items := by
  have sorted := (sorter.perm (items.drop place)).append_left (items.take place)
  rwa [take_append_drop] at sorted

/-- What was visited stays in front, with the vertex that is visited now behind it. -/
theorem take_reordered (sorter : Sorter) {items more : List VertexData} {place : Nat}
    {current : VertexData} (picked : items[place]? = some current) :
    ((items ++ more).take (place + 1) ++ sorter.sort ((items ++ more).drop (place + 1))).take
      (place + 1) = items.take place ++ [current] := by
  obtain ⟨inside, at_place⟩ := List.getElem?_eq_some_iff.mp picked
  rw [take_append_of_le_length (by simp; omega), take_take, min_self,
    take_append_of_le_length (by omega), take_succ_eq_append_getElem inside, at_place]

/-- A round visits the next vertex, and sorts those it found behind the visited ones. -/
theorem Grown.next (grown : Grown graph root state)
    (advanced : dijkstraRound sorter state = .ok (.next later)) : Grown graph root later := by
  obtain ⟨current, ent, scan, picked, known, done, rfl⟩ := dijkstraRound_next advanced
  have scanned := grown.scanned done
  obtain ⟨first, original, links⟩ := grown.links_of known
  obtain ⟨inside, -⟩ := List.getElem?_eq_some_iff.mp picked
  have perm := (reordered_perm sorter (state.treeVSlice ++ scan.verArr) (state.j + 1)).map
    VertexData.vKey
  have joined : (state.treeVSlice ++ scan.verArr).map VertexData.vKey =
      state.found ++ scan.verArr.map VertexData.vKey := map_append
  rw [joined] at perm
  have member_current : current.vKey ∈ state.found :=
    mem_map_of_mem (mem_of_getElem? picked)
  constructor
  · intro key
    rw [GoMap.lookup_insert_eq]
    by_cases same : key = current.vKey
    · subst same
      rw [if_pos rfl, original, Option.map_some, Option.map_some, links]
      rfl
    · rw [if_neg same]
      exact grown.sameLinks key
  · have length := (reordered_perm sorter (state.treeVSlice ++ scan.verArr) (state.j + 1)).length_eq
    refine le_of_le_of_eq ?_ (length.trans length_append).symm
    simp only
    omega
  · exact perm.nodup_iff.mpr scanned.nodup
  · intro key
    rw [scanned.keys key]
    exact perm.mem_iff.symm
  · intro key member
    rcases mem_append.mp (perm.mem_iff.mp member) with before | fresh
    · exact grown.reachable key before
    · -- A new vertex is reached on the link by which it was found.
      obtain ⟨item, added, rfl⟩ := mem_map.mp fresh
      obtain ⟨link, listed, same⟩ := mem_map.mp (scanned.linked item added)
      refine (grown.reachable _ member_current).step (c := link.2.toNat) ?_
      exact ⟨first, link.2, original, by rw [links, ← same]; exact listed, rfl⟩
  · exact perm.mem_iff.mpr (mem_append_left _ grown.rooted)
  · intro key member
    rcases mem_append.mp (perm.mem_iff.mp member) with before | fresh
    · exact grown.known key before
    · obtain ⟨item, added, rfl⟩ := mem_map.mp fresh
      have same := grown.sameLinks item.vKey
      have there := scanned.known item added
      rw [← Option.isSome_map, same, Option.isSome_map] at there
      exact .inr there
  · intro data member v c link
    rw [take_reordered sorter picked, mem_append, mem_singleton] at member
    refine perm.mem_iff.mpr ?_
    rcases member with before | rfl
    · exact mem_append_left _ (grown.closed data before v c link)
    · obtain ⟨vertex, cost, looked, listed, -⟩ := link
      rw [original] at looked
      cases looked
      rw [links] at listed
      exact scanned.covered _ listed

/-- Every state that the loop comes to has grown from the root. -/
theorem grown_of_reaches {last : Dijkstra}
    (reached : Reaches (dijkstraRound sorter) (.start graph root) last) : Grown graph root last :=
  reached.invariant _ .initial fun _ _ grown advanced => grown.next advanced

variable {fuel : Nat} {final : Dijkstra}
  (done : executeDijkstra sorter fuel graph ∅ root = .ok final)

include done

/-- The loop is done in a state that it came to, with no vertex left. -/
theorem executeDijkstra_reaches : Reaches (dijkstraRound sorter) (.start graph root) final ∧
      final.treeVSlice.take final.j = final.treeVSlice := by
  obtain ⟨last, reached, stopped⟩ := loop_eq_ok done
  obtain ⟨ended, rfl⟩ := dijkstraRound_stop stopped
  exact ⟨reached, take_of_length_le (getElem?_eq_none_iff.mp ended)⟩

/-- The tree has an entry for each vertex that can be reached, when the loop is done. -/
theorem executeDijkstra_found (key : VertexKey) :
    (final.spfTree.lookup key).isSome ↔ Reachable (Link graph) root key := by
  obtain ⟨reached, visited⟩ := executeDijkstra_reaches done
  have grown := grown_of_reaches reached
  rw [grown.keys key]
  refine ⟨grown.reachable key, fun reachable => ?_⟩
  refine reachable.induction grown.rooted fun u v c found link => ?_
  -- All vertices that were found were visited, so their neighbors were found as well.
  obtain ⟨data, member, rfl⟩ := mem_map.mp found
  exact grown.closed data (visited.symm ▸ member) v c link

end Rounds

/-- Besides the root only vertices of the graph are found, each of them once. -/
theorem Grown.length_le {graph : GoMap VertexKey Vertex} {root : VertexKey} {state : Dijkstra}
    (grown : Grown graph root state) : state.treeVSlice.length ≤ graph.keys.length + 1 := by
  have part : state.found ⊆ root :: graph.keys := by
    intro key member
    rcases grown.known key member with rfl | there
    · exact mem_cons_self
    · exact mem_cons_of_mem _ (AList.lookup_isSome.mp there)
  simpa [Dijkstra.found] using (grown.nodup.subperm part).length_le

theorem dijkstraRound_ne_hang (sorter : Sorter) (state : Dijkstra) :
    dijkstraRound sorter state ≠ .hang := by
  rw [dijkstraRound]
  cases state.treeVSlice[state.j]? with
  | none => simp
  | some current =>
    cases known : state.areaGraph.lookup current.vKey with
    | none => simp [known]
    | some ent =>
      simp only [known]
      refine bind_ne_hang (foldlM_ne_hang (fun scan neighbor => ?_) _ _) (by simp)
      simp only [scanNeighbor, scanLink]
      grind

/--
The calculation comes to an end for every graph and all costs, and unless it reports an error the
tree then has the vertices that can be reached.
-/
theorem executeDijkstra_ends (sorter : Sorter) (graph : GoMap VertexKey Vertex) (root : VertexKey)
    (more : Nat) : executeDijkstra sorter (graph.keys.length + 2 + more) graph ∅ root ≠ .hang ∧
      ∀ final, executeDijkstra sorter (graph.keys.length + 2 + more) graph ∅ root = .ok final →
        ∀ key, (final.spfTree.lookup key).isSome ↔ Reachable (Link graph) root key := by
  refine ⟨?_, fun final done => executeDijkstra_found done⟩
  refine loop_ne_hang (fun state => graph.keys.length + 1 - state.j) ?_
    (fun state _ => dijkstraRound_ne_hang sorter state) (by dsimp only; omega)
  -- Each round visits one more of the vertices, of which there are no more than the graph has.
  intro state later reached advanced
  have few := (grown_of_reaches reached).length_le
  obtain ⟨current, ent, scan, picked, -, -, rfl⟩ := dijkstraRound_next advanced
  obtain ⟨inside, -⟩ := List.getElem?_eq_some_iff.mp picked
  dsimp only
  omega

end FlexSwitch.Ospf
