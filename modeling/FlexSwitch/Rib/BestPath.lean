import FlexSwitch.Rib.Destination

/-! The tie-breaking passes over the candidate paths of a destination. -/

namespace FlexSwitch.Rib

open Go Packet

/-- Paths that a pass has sorted out, with the order they are ranked by later. -/
structure PathSortIface where
  paths : List PathRef
  less : PathRef → PathRef → Bool

/-- Where a pass stands: the best key so far, the paths that have it, and those sorted out. -/
structure Pass (κ : Type) where
  best : κ
  kept : List PathRef
  removed : List PathRef

/-- One round of a pass that keeps the paths with the best key. -/
def Pass.visit {κ : Type} (better : κ → κ → Bool) (pass : Pass κ) (path : PathRef) (key : κ) :
    Pass κ :=
  if better pass.best key then { pass with removed := pass.removed ++ [path] }
  -- A better key sorts out what was kept so far.
  else if better key pass.best then ⟨key, [path], pass.removed ++ pass.kept⟩
  else { pass with kept := pass.kept ++ [path] }

/-- The order a key gives to the paths that were sorted out by it. -/
def rankBy {κ : Type} (better : κ → κ → Bool) (key : PathRef → Call κ) (left right : PathRef) :
    Bool :=
  match key left, key right with
  | .ok leftKey, .ok rightKey => better leftKey rightKey
  | _, _ => false

/-- The end of a pass, which changes nothing if no path was as good as the key it started from. -/
def finishPass (updatedPaths kept removed : List PathRef) (less : PathRef → PathRef → Bool)
    (prunedPaths : List PathSortIface) : List PathRef × List PathSortIface :=
  (if kept.isEmpty then updatedPaths else kept,
    if removed.isEmpty then prunedPaths else prunedPaths ++ [⟨removed, less⟩])

/-- A pass that keeps the paths whose key is best, and at least as good as the one it starts from. -/
def keepBest {κ : Type} (better : κ → κ → Bool) (start : κ) (key : PathRef → Call κ)
    (updatedPaths : List PathRef) (prunedPaths : List PathSortIface) :
    Call (List PathRef × List PathSortIface) := do
  let pass ← updatedPaths.foldlM (fun (pass : Pass κ) path => do
    return pass.visit better path (← key path)) ⟨start, [], []⟩
  return finishPass updatedPaths pass.kept pass.removed (rankBy better key) prunedPaths

variable (order : MapOrder) (mem : Memory) (protoFamily : UInt32) (updatedPaths : List PathRef)
  (prunedPaths : List PathSortIface)

def getRoutesWithHighestPref :
    List PathRef → List PathSortIface → Call (List PathRef × List PathSortIface) :=
  keepBest (fun left right => left > right) 0 fun path => .ok (mem.path path).pref

def getRoutesWithSmallestAS :
    List PathRef → List PathSortIface → Call (List PathRef × List PathSortIface) :=
  keepBest (fun left right => left < right) 4096 fun path => (mem.path path).getNumASes

def getRoutesWithLowestBGPId :
    List PathRef → List PathSortIface → Call (List PathRef × List PathSortIface) :=
  keepBest (fun left right => left < right) 0xffffffff fun path => (mem.path path).getBGPId mem

def getRoutesWithShorterClusterLen :
    List PathRef → List PathSortIface → Call (List PathRef × List PathSortIface) :=
  keepBest (fun left right => left < right) 0xffff fun path => (mem.path path).getNumClusters

/-- Where the pass over the origins stands: the array it rewrites, and how much of it counts. -/
structure OriginPass where
  minOrigin : UInt8
  updatedPaths : List PathRef
  idx : Nat
  removed : List PathRef

/--
One round of the pass over the origins.

A better origin puts its path in front but counts one place more, so what the other places hold
stays among the paths kept.
-/
def OriginPass.visit (pass : OriginPass) (path : PathRef) (origin : UInt8) : OriginPass :=
  if origin > pass.minOrigin then { pass with removed := pass.removed ++ [path] }
  else if origin < pass.minOrigin then
    { minOrigin := origin
      updatedPaths := pass.updatedPaths.set 0 path
      idx := pass.idx + 1
      removed := pass.removed ++ pass.updatedPaths.take pass.idx }
  else { pass with
    updatedPaths := pass.updatedPaths.set pass.idx path
    idx := pass.idx + 1 }

/-- A round writes at or before the place it reads, so the paths read are the original ones. -/
def getRoutesWithLowestOrigin : Call (List PathRef × List PathSortIface) := do
  let pass ← updatedPaths.foldlM (fun (pass : OriginPass) path => do
    return pass.visit path (← (mem.path path).getOrigin)) ⟨originMax, updatedPaths, 0, []⟩
  return finishPass updatedPaths (pass.updatedPaths.take pass.idx) pass.removed
    (rankBy (fun left right => left < right) fun path => (mem.path path).getOrigin) prunedPaths

/-- Take the internal paths out, each time moving the last path to the place that is free. -/
def sweepInternal (mem : Memory) : Nat → List PathRef → Call (List PathRef × List PathRef)
  | 0, _ => .ok ([], [])
  | _ + 1, [] => .ok ([], [])
  | steps + 1, path :: rest => do
    if (← mem.neighborOf (mem.path path)).isInternal then
      let (kept, removed) ← sweepInternal mem steps (rest.getLast?.toList ++ rest.dropLast)
      return (kept, path :: removed)
    else
      let (kept, removed) ← sweepInternal mem steps rest
      return (path :: kept, removed)

def deleteIBGPRoutes : Call (List PathRef × List PathSortIface) := do
  let (kept, removed) ← sweepInternal mem updatedPaths.length updatedPaths
  return (kept,
    if removed.isEmpty then prunedPaths else prunedPaths ++ [⟨removed, fun _ _ => true⟩])

def removeIBGPRoutesIfEBGPExist : Call (List PathRef × List PathSortIface) :=
  if updatedPaths.any fun path => (mem.path path).isExternal mem then
    deleteIBGPRoutes mem updatedPaths prunedPaths
  else .ok (updatedPaths, prunedPaths)

/-- Which of two addresses comes first. -/
def compareBytes : Bytes → Bytes → Ordering
  | left :: lefts, right :: rights =>
    if left < right then .lt else if left > right then .gt else compareBytes lefts rights
  | _, _ => .eq

/-- Addresses of two lengths are an error that is only logged, and count as equal. -/
def compareNeighborAddress (left right : Bytes) : Ordering :=
  if left.length ≠ right.length then .eq else compareBytes left right

/-- One round of the pass over the peer addresses, which compares with the path in front. -/
def addressVisit (pass : List PathRef × List PathRef) (path : PathRef) :
    Call (List PathRef × List PathRef) := do
  let (kept, removed) := pass
  let address := (← mem.neighborOf (mem.path path)).neighborAddress
  let first := (← mem.neighborOf (mem.path (kept.headD path))).neighborAddress
  match compareNeighborAddress address first with
  | .gt => return (kept, removed ++ [path])
  | .lt => return ([path], removed ++ kept)
  | .eq => return (kept ++ [path], removed)

/-- The order of `ByLowestPeerAddress`, where a path of our own comes first. -/
def lessPeerAddress (left right : PathRef) : Bool :=
  match (mem.path left).neighborConf, (mem.path right).neighborConf with
  | none, _ => true
  | some _, none => false
  | some leftRef, some rightRef =>
    let leftIP := (mem.neighbors leftRef).neighborAddress
    let rightIP := (mem.neighbors rightRef).neighborAddress
    if leftIP.length = rightIP.length then compareBytes leftIP rightIP == .lt
    else leftIP.length < rightIP.length

def getRoutesWithLowestPeerAddress : Call (List PathRef × List PathSortIface) := do
  let (kept, removed) ← updatedPaths.foldlM (addressVisit mem) ([], [])
  return finishPass updatedPaths kept removed (lessPeerAddress mem) prunedPaths

/-- A pass is only made while there is more than one path. -/
def whenTied (pass : List PathRef → List PathSortIface → Call (List PathRef × List PathSortIface))
    (paths : List PathRef × List PathSortIface) : Call (List PathRef × List PathSortIface) :=
  if 1 < paths.1.length then pass paths.1 paths.2 else .ok paths

/-- The paths by the next hop they are reached over, in the order the map is visited. -/
def getECMPPaths : Call (List (List PathRef)) := do
  let ecmpPathMap ← updatedPaths.foldlM (fun (groups : GoMap IPText (List PathRef)) path => do
    let reachInfo ← (mem.path path).reachability protoFamily
    let group := (groups.lookup reachInfo.nextHop).getD []
    return groups.insert reachInfo.nextHop (group ++ [path])) ∅
  return (order.range "ecmpPathMap" ecmpPathMap).map (·.2)

/-- The additional paths found so far, and the path taken for each next hop. -/
structure AddPathState where
  addPaths : List PathRef
  pathMap : GoMap IPText PathRef

/-- Take the first path of each next hop that is new. -/
def addAddPaths (site : String) (state : AddPathState) (currPaths : List PathRef) :
    Call AddPathState := do
  let (currPathMap, pathMap) ← currPaths.foldlM
    (fun (maps : GoMap IPText PathRef × GoMap IPText PathRef) path => do
      let reachInfo ← (mem.path path).reachability protoFamily
      if reachInfo.nextHop ∈ maps.2 then return maps
      else return (maps.1.insert reachInfo.nextHop path, maps.2.insert reachInfo.nextHop path))
    (∅, state.pathMap)
  return ⟨state.addPaths ++ (order.range site currPathMap).map (·.2), pathMap⟩

/-- `sort.Sort`, which leaves paths that tie in any order. -/
def sortPaths (site : String) (pruned : PathSortIface) : List PathRef :=
  (order.visit site pruned.paths).insertionSort fun left right => !pruned.less right left

/-- Go back through the paths that were sorted out until there are enough. -/
def fillAddPaths (order : MapOrder) (mem : Memory) (protoFamily : UInt32) (addPathCount : Int) :
    List PathSortIface → AddPathState → Call AddPathState
  | [], state => .ok state
  | pruned :: earlier, state => do
    let site := toString earlier.length
    let state ← addAddPaths order mem protoFamily ("currPathMap" ++ site) state
      (sortPaths order ("sort" ++ site) pruned)
    if addPathCount ≤ state.addPaths.length then
      return { state with addPaths := state.addPaths.take addPathCount.toNat }
    else fillAddPaths order mem protoFamily addPathCount earlier state

/-- The paths that are sent besides the best one. -/
def chooseAddPaths (addPathCount : Int) (updatedPaths : List PathRef)
    (prunedPaths : List PathSortIface) : Call (List PathRef) := do
  if addPathCount ≤ 0 then return []
  let state ← if 1 < updatedPaths.length then
      addAddPaths order mem protoFamily "currPathMap" ⟨[], ∅⟩ (updatedPaths.drop 1)
    else .ok ⟨[], ∅⟩
  if addPathCount ≤ state.addPaths.length then return state.addPaths
  return (← fillAddPaths order mem protoFamily addPathCount prunedPaths.reverse state).addPaths

/-- The groups that share the traffic, when both kinds of neighbors or one of them may. -/
def multiPaths (allowed : Bool) (updatedPaths : List PathRef) : Call (List (List PathRef)) :=
  if 1 < updatedPaths.length ∧ allowed then getECMPPaths order mem protoFamily updatedPaths
  else .ok []

/-- The paths that are left after the internal ones share the traffic if their kind may. -/
def oneKindAllowed (ebgpMultiPath ibgpMultiPath : Bool) : Bool :=
  ibgpMultiPath != ebgpMultiPath && updatedPaths.head?.any fun first =>
    (ebgpMultiPath && (mem.path first).isExternal mem) ||
      (ibgpMultiPath && (mem.path first).isInternal mem)

def calculateBestPath (updatedPaths removedPaths : List PathRef)
    (ebgpMultiPath ibgpMultiPath : Bool) (addPathCount : Int) :
    Call (List PathRef × List (List PathRef) × List PathRef) := do
  let bySource : PathSortIface := ⟨removedPaths, fun left right =>
    getRouteSource (mem.path left).routeType < getRouteSource (mem.path right).routeType⟩
  let paths ← whenTied (getRoutesWithHighestPref mem) (updatedPaths, [bySource])
  let paths ← whenTied (getRoutesWithSmallestAS mem) paths
  let paths ← whenTied (getRoutesWithLowestOrigin mem) paths
  let both ← multiPaths order mem protoFamily (ebgpMultiPath && ibgpMultiPath) paths.1
  let paths ← whenTied (removeIBGPRoutesIfEBGPExist mem) paths
  let one ← multiPaths order mem protoFamily
    (oneKindAllowed mem paths.1 ebgpMultiPath ibgpMultiPath) paths.1
  let paths ← whenTied (getRoutesWithLowestBGPId mem) paths
  let paths ← whenTied (getRoutesWithShorterClusterLen mem) paths
  let paths ← whenTied (getRoutesWithLowestPeerAddress mem) paths
  let addPaths ← chooseAddPaths order mem protoFamily addPathCount paths.1 paths.2
  return (paths.1, both ++ one, addPaths)

end FlexSwitch.Rib
