import FlexSwitch.Go.Loop
import FlexSwitch.Ospf.Lsa

/-! The calculation of shortest paths through the graph of an area. -/

namespace FlexSwitch.Ospf

open Go

structure VertexKey where
  type : UInt8
  id : UInt32
  advRtr : UInt32
deriving DecidableEq, Repr

def routerVertex : UInt8 := 0

def tNetworkVertex : UInt8 := 2

/-- A vertex of the tree, with the paths to it and how far it is. -/
structure TreeVertex where
  paths : List (List VertexKey)
  distance : UInt16
deriving DecidableEq, Repr

/-- A vertex of the graph, with its neighbors and the costs of the links to them. -/
structure Vertex where
  nbrVertexKey : List VertexKey
  nbrVertexCost : List UInt16
  linkData : GoMap VertexKey UInt32
  lsaKey : LsaKey
  visited : Bool

/-- The neighbors of a vertex, each with the cost of the link to it. -/
def Vertex.links (ent : Vertex) : List (VertexKey × UInt16) :=
  ent.nbrVertexKey.zip ent.nbrVertexCost

/-- A vertex that is to be visited, with the distance it had when it was found. -/
structure VertexData where
  vKey : VertexKey
  distance : UInt16
deriving DecidableEq, Repr

/-- `Less`, which puts transit networks in front of routers that are as far. -/
def VertexData.less (a b : VertexData) : Bool :=
  if a.distance = b.distance then
    if a.vKey.type = b.vKey.type then false
    else if a.vKey.type = routerVertex ∧ b.vKey.type = tNetworkVertex then false
    else if a.vKey.type = tNetworkVertex ∧ b.vKey.type = routerVertex then true
    else a.distance < b.distance
  else a.distance < b.distance

/-- A vertex of the two kinds for which `Less` is an order. -/
def VertexKey.IsRouterOrNetwork (key : VertexKey) : Prop :=
  key.type = routerVertex ∨ key.type = tNetworkVertex

/-- `sort.Sort`, which leaves the order of what is equal open, and of all else without an order. -/
structure Sorter where
  sort : List VertexData → List VertexData
  perm : ∀ items, (sort items).Perm items
  sorted : ∀ items, (∀ item ∈ items, item.vKey.IsRouterOrNetwork) →
    (sort items).Pairwise fun a b => b.less a = false

/--
The entry of a neighbor after the link to it was looked at. The sum of distance and cost wraps.

The paths of both entries are one slice when the link leads back to its own vertex, and were
cleared before they are read.
-/
def relaxed (current verKey : VertexKey) (tEntry tEnt : TreeVertex) (cost : UInt16) : TreeVertex :=
  let parents := if verKey = current then tEntry.paths.map fun _ => [] else tEntry.paths
  if tEntry.distance + cost < tEnt.distance then
    ⟨parents.map (· ++ [current]), tEntry.distance + cost⟩
  else if tEnt.distance = tEntry.distance + cost then
    { tEnt with paths := tEnt.paths ++ parents.map (· ++ [current]) }
  else tEnt

/-- The entry that a vertex starts with when it is found, at `LSInfinity`. -/
def farVertex : TreeVertex := ⟨[[]], 0xff00⟩

/-- Where the loop over the neighbors of a vertex stands. -/
structure Scan where
  spfTree : GoMap VertexKey TreeVertex
  verArr : List VertexData

/-- The round of the loop for a link to a neighbor. -/
def scanLink (areaGraph : GoMap VertexKey Vertex) (current : VertexKey) (scan : Scan)
    (link : VertexKey × UInt16) : Outcome String Scan :=
  let verKey := link.1
  let cost := link.2
  if (areaGraph.lookup verKey).isNone then
    .error "Something is wrong in SPF Calculation: Entry should exist in Area Graph"
  else
    match scan.spfTree.lookup current with
    | none => .error "Something is wrong is SPF Calculation"
    | some tEntry =>
      match scan.spfTree.lookup verKey with
      | some tEnt =>
        .ok { scan with
          spfTree := scan.spfTree.insert verKey (relaxed current verKey tEntry tEnt cost) }
      | none =>
        let tEnt := relaxed current verKey tEntry farVertex cost
        .ok {
          spfTree := scan.spfTree.insert verKey tEnt
          verArr := scan.verArr ++ [⟨verKey, tEnt.distance⟩] }

/-- The round of the loop for the neighbor at a place, whose cost is at the same place. -/
def scanNeighbor (areaGraph : GoMap VertexKey Vertex) (current : VertexKey) (ent : Vertex)
    (scan : Scan) (neighbor : VertexKey × Nat) : Outcome String Scan :=
  match ent.nbrVertexCost[neighbor.2]? with
  | none => .panic
  | some cost => scanLink areaGraph current scan (neighbor.1, cost)

/-- Where `ExecuteDijkstra` stands. -/
structure Dijkstra where
  j : Nat
  treeVSlice : List VertexData
  spfTree : GoMap VertexKey TreeVertex
  areaGraph : GoMap VertexKey Vertex

/-- One round: the neighbors of the next vertex are looked at, and what is left is sorted. -/
def dijkstraRound (sorter : Sorter) (state : Dijkstra) : Outcome String (Round Dijkstra Dijkstra) :=
  match state.treeVSlice[state.j]? with
  | none => .ok (.stop state)
  | some current =>
    match state.areaGraph.lookup current.vKey with
    | none =>
      let key := current.vKey
      .error s!"No entry found for: \x7b{key.type} {key.id} {key.advRtr}\x7d\n"
    | some ent => do
      let scan ← ent.nbrVertexKey.zipIdx.foldlM (scanNeighbor state.areaGraph current.vKey ent)
        ⟨state.spfTree, []⟩
      let treeVSlice := state.treeVSlice ++ scan.verArr
      return .next {
        j := state.j + 1
        treeVSlice :=
          treeVSlice.take (state.j + 1) ++ sorter.sort (treeVSlice.drop (state.j + 1))
        spfTree := scan.spfTree
        areaGraph := state.areaGraph.insert current.vKey { ent with visited := true } }

/-- `ExecuteDijkstra`, on a tree that has entries already or not. -/
def executeDijkstra (sorter : Sorter) (fuel : Nat) (areaGraph : GoMap VertexKey Vertex)
    (spfTree : GoMap VertexKey TreeVertex) (vKey : VertexKey) : Outcome String Dijkstra :=
  let spfTree := if (spfTree.lookup vKey).isNone then spfTree.insert vKey ⟨[[]], 0⟩ else spfTree
  loop (dijkstraRound sorter) fuel ⟨0, [⟨vKey, 0⟩], spfTree, areaGraph⟩

end FlexSwitch.Ospf
