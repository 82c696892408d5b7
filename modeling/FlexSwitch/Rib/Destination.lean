import FlexSwitch.Rib.Path

/-! A destination of the route table: the paths stored for one prefix and the routes they have. -/

namespace FlexSwitch.Rib

open Go Packet

/-- Where a `*Route` points to, and its `*PathInfo`, since every route has one of its own. -/
abbrev RouteRef := Nat

/-- Where a `*Destination` points to. -/
abbrev DestRef := Nat

inductive RouteAction where
  | none
  | add
  | replace
  | delete
deriving DecidableEq, Repr

/-- What is shown of a path to the outside. -/
structure PathInfo where
  nextHop : IPText
  metric : Int32
  localPref : Int32
  path : List String
  pathId : Int32
  validPath : Bool
  bestPath : Bool
  multiPath : Bool
  additionalPath : Bool
  origin : String
deriving DecidableEq, Repr, Inhabited

/-- The route of a path, with its place in the list that is shown. -/
structure Route where
  pathInfo : PathInfo
  path : PathRef
  routeListIdx : Int
  action : RouteAction
  outPathId : UInt32
deriving DecidableEq, Repr

instance : Inhabited Route := ⟨⟨default, 0, -1, .none, 0⟩⟩

def newRoute (mem : Memory) (protoFamily : UInt32) (path : PathRef) (action : RouteAction)
    (inPathId outPathId : UInt32) : Call Route := do
  let asList ← (mem.path path).getAS4ByteList
  let origin ← (mem.path path).getOrigin
  return {
    pathInfo := {
      nextHop := ipString ((mem.path path).getNextHop protoFamily)
      metric := (mem.path path).med.toInt32
      localPref := (mem.path path).localPref.toInt32
      path := asList
      pathId := inPathId.toInt32
      validPath := (mem.path path).isReachable protoFamily
      bestPath := false
      multiPath := false
      additionalPath := false
      origin := getOriginTypeStr origin }
    path := path
    routeListIdx := -1
    action := action
    outPathId := outPathId }

/-- The paths by peer and path id, where a peer without paths has no map either. -/
structure PeerPathMap where
  peers : GoMap IPText (GoMap UInt32 PathRef)
  filled : ∀ peerIP pathMap, peers.lookup peerIP = some pathMap → ∃ pathId, pathId ∈ pathMap

namespace PeerPathMap

def empty : PeerPathMap := ⟨∅, by simp⟩

section

variable (map : PeerPathMap) (peerIP : IPText) (pathId : UInt32)

def find : Option PathRef :=
  (map.peers.lookup peerIP).bind fun pathMap => pathMap.lookup pathId

/-- The paths of one peer. -/
def pathsOf : GoMap UInt32 PathRef :=
  (map.peers.lookup peerIP).getD ∅

/-- A peer that is new gets a map, and the path goes into it. -/
def store (path : PathRef) : PeerPathMap where
  peers := map.peers.insert peerIP ((map.pathsOf peerIP).insert pathId path)
  filled := by
    intro other pathMap found
    rw [GoMap.lookup_insert_eq] at found
    split at found
    · cases found
      exact ⟨pathId, by simp⟩
    · exact map.filled other pathMap found

/-- The paths of the peer without one of them. -/
def remaining : GoMap UInt32 PathRef :=
  (map.pathsOf peerIP).erase pathId

/-- The path is taken out, and with the last path of a peer its map. -/
def drop : PeerPathMap where
  peers :=
    if (map.remaining peerIP pathId).entries.isEmpty then map.peers.erase peerIP
    else map.peers.insert peerIP (map.remaining peerIP pathId)
  filled := by
    intro other pathMap found
    split at found
    · rw [GoMap.lookup_erase_eq] at found
      split at found
      · cases found
      · exact map.filled other pathMap found
    case isFalse nonempty =>
      rw [GoMap.lookup_insert_eq] at found
      split at found
      · -- A map with entries has a key.
        cases found
        rw [GoMap.isEmpty_iff] at nonempty
        push Not at nonempty
        obtain ⟨key, stored⟩ := nonempty
        exact ⟨key, AList.lookup_isSome.mp (Option.isSome_iff_ne_none.mpr stored)⟩
      · exact map.filled other pathMap found

end

variable {map : PeerPathMap} {peerIP : IPText} {pathId : UInt32}

theorem lookup_pathsOf : (map.pathsOf peerIP).lookup pathId = map.find peerIP pathId := by
  cases found : map.peers.lookup peerIP <;> simp [pathsOf, find, found]

theorem find_store {other : IPText} {otherId : UInt32} {path : PathRef} :
    (map.store peerIP pathId path).find other otherId =
      if other = peerIP ∧ otherId = pathId then some path else map.find other otherId := by
  -- Another peer keeps its map, and in the map of this one only the id changes.
  rw [find, store, GoMap.lookup_insert_eq]
  by_cases samePeer : other = peerIP
  · subst samePeer
    simp [GoMap.lookup_insert_eq, lookup_pathsOf]
  · simp [samePeer, find]

theorem find_drop {other : IPText} {otherId : UInt32} :
    (map.drop peerIP pathId).find other otherId =
      if other = peerIP ∧ otherId = pathId then none else map.find other otherId := by
  have rest : ∀ id, (map.remaining peerIP pathId).lookup id =
      if id = pathId then none else map.find peerIP id := by
    intro id
    rw [remaining, GoMap.lookup_erase_eq, lookup_pathsOf]
  rw [find, drop]
  by_cases samePeer : other = peerIP
  · subst samePeer
    split
    case isTrue empty =>
      -- No id is left, so the one asked for is gone or was never there.
      have lacks := GoMap.isEmpty_iff.mp empty otherId
      rw [rest] at lacks
      by_cases sameId : otherId = pathId
      · simp [sameId]
      · simpa [sameId] using lacks.symm
    case isFalse => simp [rest]
  · split
    · simp [samePeer, find]
    · simp [samePeer, find]

end PeerPathMap

/-- `Destination`, with the routes it has made and the list of path information it shows. -/
structure Destination where
  nlri : NLRI
  protoFamily : UInt32
  peerPathMap : PeerPathMap
  locRibPath : Option PathRef
  locRibPathRoute : Option RouteRef
  aggPath : Option PathRef
  aggregatedDestMap : GoMap IPText DestRef
  ecmpPaths : GoMap PathRef RouteRef
  pathRouteMap : GoMap PathRef RouteRef
  addPaths : List PathRef
  maxPathId : UInt32
  pathIds : List UInt32
  recalculate : Bool
  /-- `BGPRouteState.Paths`. -/
  shownPaths : List RouteRef
  pathInfoRouteMap : GoMap RouteRef RouteRef
  routeListIdx : Int
  routes : Heap Route

def newDestination (nlri : NLRI) (protoFamily : UInt32) : Destination where
  nlri := nlri
  protoFamily := protoFamily
  peerPathMap := .empty
  locRibPath := none
  locRibPathRoute := none
  aggPath := none
  aggregatedDestMap := ∅
  ecmpPaths := ∅
  pathRouteMap := ∅
  addPaths := []
  maxPathId := 1
  pathIds := []
  recalculate := false
  shownPaths := []
  pathInfoRouteMap := ∅
  routeListIdx := -1
  routes := ⟨fun _ => default, 0⟩

namespace Destination

variable (d : Destination) (route : RouteRef)

def getPathForIP (peerIP : IPText) (pathId : UInt32) : Option PathRef :=
  d.peerPathMap.find peerIP pathId

/-- Change a route in place, seen by everyone who points to it. -/
def modifyRoute (change : Route → Route) : Destination :=
  { d with routes := d.routes.modify route change }

def setIdx (idx : Int) : Destination :=
  d.modifyRoute route fun r => { r with routeListIdx := idx }

/-- An id that was given back is used before a new one. -/
def getNextPathId : UInt32 × Destination :=
  match d.pathIds.getLast? with
  | some pathId => (pathId, { d with pathIds := d.pathIds.dropLast })
  | none => (d.maxPathId, { d with maxPathId := d.maxPathId + 1 })

/-- Only the highest id lowers the mark, any other goes to the free list. -/
def releasePathId (pathId : UInt32) : Destination :=
  if pathId + 1 = d.maxPathId then { d with maxPathId := d.maxPathId - 1 }
  else { d with pathIds := d.pathIds ++ [pathId] }

/-- Forget the path that is replaced, and say where its route was shown, or -1. -/
def supersede (oldPath : PathRef) : Int × Destination :=
  let d' := if d.locRibPath = some oldPath then { d with locRibPath := none } else d
  match d.pathRouteMap.lookup oldPath with
  | some route => ((d.routes.get route).routeListIdx,
      { d' with pathInfoRouteMap := d'.pathInfoRouteMap.erase route })
  | none => (-1, d')

/-- A new path calls for a selection unless the one in the Loc-RIB has the better source. -/
def flagForPath (mem : Memory) (d : Destination) (path : PathRef) : Destination :=
  match d.locRibPath with
  | none => { d with recalculate := true }
  | some best =>
    if getRouteSource (mem.path best).routeType ≥ getRouteSource (mem.path path).routeType then
      { d with recalculate := true }
    else d

/-- `SetPath` at an index of the list, or `AppendPath` for the index -1. -/
def showRoute (idx : Int) : Call Destination :=
  if idx = -1 then
    .ok ({ d with shownPaths := d.shownPaths ++ [route] }.setIdx route d.shownPaths.length)
  else if 0 ≤ idx ∧ idx < d.shownPaths.length then
    .ok ({ d with shownPaths := d.shownPaths.set idx.toNat route }.setIdx route idx)
  else .panic

/-- The second half of `AddOrUpdatePath`: a new route for the path, shown at the index. -/
def installPath (mem : Memory) (d : Destination) (peerIp : IPText) (pathId : UInt32)
    (path : PathRef) (idx : Int) : Call Destination := do
  let (outPathId, d) := (d.flagForPath mem path).getNextPathId
  let route ← newRoute mem d.protoFamily path .none pathId outPathId
  let ref := d.routes.next
  let d := { d with
    routes := d.routes.alloc route
    pathRouteMap := d.pathRouteMap.insert path ref }
  let d ← d.showRoute ref idx
  return { d with
    pathInfoRouteMap := d.pathInfoRouteMap.insert ref ref
    peerPathMap := d.peerPathMap.store peerIp pathId path }

def addOrUpdatePath (mem : Memory) (d : Destination) (peerIp : IPText) (pathId : UInt32)
    (path : PathRef) : Call (Bool × Destination) :=
  match d.getPathForIP peerIp pathId with
  | some oldPath =>
    -- The same path again changes nothing, another one takes over its place in the list.
    if oldPath = path then .ok (false, d)
    else do
      let (idx, d) := d.supersede oldPath
      return (false, ← d.installPath mem peerIp pathId path idx)
  | none => do return (true, ← d.installPath mem peerIp pathId path (-1))

/-- `RemovePathAndSetLast`, an index past the end removes nothing. -/
def removePathAndSetLast (idx : Int) (last : RouteRef) : Destination :=
  if idx < d.shownPaths.length then
    { d with shownPaths := (d.shownPaths.set idx.toNat last).dropLast }
  else d

/-- Take the route out of the list that is shown, and move the last one to its place. -/
def hideRoute : Call Destination :=
  if (d.routes.get route).routeListIdx = -1 then .ok d
  else match d.shownPaths.getLast? with
  | none => .panic
  | some newPath =>
    match d.pathInfoRouteMap.lookup newPath with
    | some newRoute =>
      let idx := (d.routes.get route).routeListIdx
      .ok (({ d with pathInfoRouteMap := d.pathInfoRouteMap.erase route }.removePathAndSetLast
        idx newPath).setIdx newRoute idx)
    | none => .ok d

/-- A path that selection used makes a new selection necessary. -/
def flagForRemoval (oldPath : PathRef) : Destination :=
  let d' := if oldPath ∈ d.ecmpPaths then { d with recalculate := true } else d
  if d.locRibPath = some oldPath then { d' with recalculate := true, locRibPath := none } else d'

/-- The path that was removed, if the peer had one under the id. -/
def removePath (peerIP : IPText) (pathId : UInt32) : Call (Option PathRef × Destination) :=
  match d.getPathForIP peerIP pathId with
  | none => .ok (none, d)
  | some oldPath => do
    let d := d.flagForRemoval oldPath
    -- The route is used without a check that there is one.
    let route ← deref (d.pathRouteMap.lookup oldPath)
    let d := d.releasePathId (d.routes.get route).outPathId
    let d := { d with pathRouteMap := d.pathRouteMap.erase oldPath }
    let d ← d.hideRoute route
    return (some oldPath, { d with peerPathMap := d.peerPathMap.drop peerIP pathId })

end Destination

end FlexSwitch.Rib
