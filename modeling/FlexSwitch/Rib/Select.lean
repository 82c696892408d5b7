import FlexSwitch.Rib.BestPath

/-! Choosing the path of a destination for the Loc-RIB, and what that changes. -/

namespace FlexSwitch.Rib

open Go Packet Outcome

/-- What the route table uses of the global configuration. -/
structure GlobalConfig where
  as : UInt32
  routerId : Bytes
  useMultiplePaths : Bool
  ebgpMaxPaths : UInt32
  ibgpMaxPaths : UInt32
deriving DecidableEq, Repr

/-- A route as the routing daemon is told about it. -/
structure RouteConfig where
  cost : Int32
  intfType : Int32
  protocol : String
  nextHopIp : IPText
  networkMask : IPText
  destinationNw : IPText
  outgoingInterface : String
  isIPv6 : Bool
  nullRoute : Bool
deriving DecidableEq, Repr

/-- A call of the route manager. -/
inductive RouteMgrCall where
  | createRoute (cfg : RouteConfig)
  | updateRoute (cfg : RouteConfig) (op : String)
deriving DecidableEq, Repr

/-- The mask of a prefix length, which has to fit into the address. -/
def constructNetmaskFromLen (ones : Nat) (bits : Int) : Call Bytes :=
  let size := bits.toNat / 8
  let bytes := ones / 8
  let rem := ones % 8
  if bits < 0 ∨ size < bytes ∨ (rem ≠ 0 ∧ size ≤ bytes) then .panic
  else
    let part : Bytes := if rem = 0 then [] else [(255 : UInt8) <<< UInt8.ofNat (8 - rem)]
    .ok (List.replicate bytes 255 ++ part ++ List.replicate (size - bytes - part.length) 0)

namespace Destination

def netmask (d : Destination) : Call Bytes :=
  constructNetmaskFromLen d.nlri.getIPPrefix.length.toNat
    (getAddressLengthForFamily d.protoFamily * 8)

def constructRouteConfig (mem : Memory) (d : Destination) (path : Path)
    (reachInfo : ReachabilityInfo) : Call RouteConfig := do
  let mask ← d.netmask
  return {
    cost := reachInfo.metric
    intfType := reachInfo.nextHopIfType
    protocol := if path.isExternal mem then "EBGP" else "IBGP"
    nextHopIp := reachInfo.nextHop
    networkMask := ipString mask
    destinationNw := ipString d.nlri.getIPPrefix.prefixIP
    outgoingInterface := toString reachInfo.nextHopIfIdx.toInt
    isIPv6 := getAddressLengthForFamily d.protoFamily == 16
    nullRoute := path.isAggregate }

/-- Set the mark of additional paths on the routes of the paths that have one. -/
def markAddPaths (d : Destination) (paths : List PathRef) (mark : Bool) : Destination :=
  paths.foldl (fun d path =>
    match d.pathRouteMap.lookup path with
    | some route => d.modifyRoute route fun r =>
        { r with pathInfo := { r.pathInfo with additionalPath := mark } }
    | none => d) d

def updateAddPaths (d : Destination) (addPaths : List PathRef) : Bool × Destination :=
  if d.addPaths = addPaths then (false, d)
  else (true, { d.markAddPaths d.addPaths false with addPaths := addPaths }.markAddPaths
    addPaths true)

/-- Every stored path, in the order the maps are visited. -/
def storedPaths (order : MapOrder) (d : Destination) : List PathRef :=
  (order.range "peerPathMap" d.peerPathMap.peers).flatMap fun entry =>
    (order.range ("pathMap " ++ toString entry.1) entry.2).map (·.2)

end Destination

/-- The paths of the best source so far, those of worse sources, and the source. -/
structure Candidates where
  updated : List PathRef
  removed : List PathRef
  routeSrc : UInt8

/-- One round of the loop that collects the paths to choose from. -/
def Candidates.consider (mem : Memory) (protoFamily : UInt32) (locRibPath : Option PathRef)
    (candidates : Candidates) (path : PathRef) : Call Candidates := do
  -- The path in the Loc-RIB is a candidate already, without a look at it.
  if locRibPath = some path ∨ !(mem.path path).isReachable protoFamily then return candidates
  else if ← (mem.path path).hasASLoop mem then return candidates
  else
    let source := getRouteSource (mem.path path).routeType
    if source > candidates.routeSrc then
      return { candidates with removed := candidates.removed ++ [path] }
    else if source < candidates.routeSrc then
      return ⟨[path], candidates.removed ++ candidates.updated, source⟩
    else return { candidates with updated := candidates.updated ++ [path] }

/-- Move the group of the path to the front, and the path to the front of the group. -/
def removeAndPrepend (pathsList : List (List PathRef)) (item : PathRef) : List (List PathRef) :=
  match pathsList.findIdx? (·.contains item) with
  | some idx =>
    let paths := pathsList.getD idx []
    (item :: paths.erase item) :: (pathsList.take idx ++ pathsList.drop (idx + 1))
  | none =>
    -- The new group is appended and then copied to the front, over the last group before it.
    match pathsList with
    | [] => [[item]]
    | _ => [item] :: (pathsList.dropLast ++ [[item]])

/-- What a selection reports, and the calls of the route manager it makes. -/
structure Selection where
  action : RouteAction
  addPathsUpdated : Bool
  addedRoutes : List RouteRef
  updatedRoutes : List RouteRef
  deletedRoutes : List RouteRef
  calls : List RouteMgrCall
deriving DecidableEq, Repr

/-- Where the loop over the groups of paths stands. -/
structure Installing where
  dest : Destination
  action : RouteAction
  firstRoute : Bool
  added : List RouteRef
  updated : List RouteRef
  create : List PathRef

namespace Destination

variable (d : Destination)

def setAction (route : RouteRef) (action : RouteAction) : Destination :=
  d.modifyRoute route fun r => { r with action := action }

def setBestPath (route : RouteRef) (best : Bool) : Destination :=
  d.modifyRoute route fun r => { r with pathInfo := { r.pathInfo with bestPath := best } }

def setMultiPath (route : RouteRef) (multi : Bool) : Destination :=
  d.modifyRoute route fun r => { r with pathInfo := { r.pathInfo with multiPath := multi } }

/-- The route of the group that is installed already, of the first group that of the best path. -/
def installedRoute (idx : Nat) (paths : List PathRef) : Option (PathRef × RouteRef) :=
  (if idx = 0 then paths.take 1 else paths).findSome? fun path =>
    (d.ecmpPaths.lookup path).map (path, ·)

/-- Routes are told to the route manager unless they are local, aggregates apart. -/
def isManaged (path : Path) : Bool := !path.isLocal || path.isAggregate

/-- What is logged of a new route, which has to be there for the log. -/
def logNewRoute (mem : Memory) (d : Destination) (path : PathRef) : Call Unit :=
  if isManaged (mem.path path) then do
    let _ ← d.netmask
    let _ ← (mem.path path).reachability d.protoFamily
    return ()
  else .ok ()

/-- The route manager is told that a route goes. -/
def withdrawCalls (mem : Memory) (d : Destination) (path : PathRef) : Call (List RouteMgrCall) :=
  if isManaged (mem.path path) then do
    let reachInfo ← (mem.path path).reachability d.protoFamily
    let cfg ← d.constructRouteConfig mem (mem.path path) reachInfo
    return [.updateRoute cfg "remove"]
  else .ok []

end Destination

/-- A route of the group is installed already, and is used again. -/
def Installing.reuse (mem : Memory) (state : Installing) (idx : Nat) (path : PathRef)
    (route : RouteRef) : Installing :=
  let d := state.dest.setAction route .replace
  { state with
    dest := if idx = 0 then d else d.setBestPath route false
    action := if idx = 0 ∧ (mem.path path).isAggregate then .replace else state.action
    firstRoute := false
    updated := state.updated ++ [route] }

/-- The first path of a group gets a route, which the route manager is told about later. -/
def Installing.install (mem : Memory) (state : Installing) (idx : Nat) (path : PathRef)
    (route : RouteRef) : Call Installing := do
  state.dest.logNewRoute mem path
  let d := (state.dest.setAction route .add).setMultiPath route true
  let d := if idx = 0 then d.setBestPath route true else d
  return { state with
    dest := { d with ecmpPaths := d.ecmpPaths.insert path route }
    action := if idx = 0 then .add else state.action
    added := state.added ++ [route]
    create := if Destination.isManaged (mem.path path) then state.create ++ [path]
      else state.create }

/-- One round of the loop over the groups of paths. -/
def Installing.visit (mem : Memory) (state : Installing) (idx : Nat) (paths : List PathRef) :
    Call Installing :=
  match state.dest.installedRoute idx paths with
  | some (path, route) => .ok (state.reuse mem idx path route)
  | none => do
    let path ← deref paths.head?
    match state.dest.pathRouteMap.lookup path with
    | none => return state
    | some route => state.install mem idx path route

/-- Where the loop that cleans up the installed routes stands. -/
structure Cleaning where
  dest : Destination
  deleted : List RouteRef
  calls : List RouteMgrCall

/-- One round: a route that was not asked for in this selection goes. -/
def Cleaning.visit (mem : Memory) (state : Cleaning) (path : PathRef) (route : RouteRef) :
    Call Cleaning :=
  let action := (state.dest.routes.get route).action
  if action = .none ∨ action = .delete then do
    let calls ← state.dest.withdrawCalls mem path
    let d := (state.dest.setBestPath route false).setMultiPath route false
    return ⟨{ d with ecmpPaths := d.ecmpPaths.erase path }, state.deleted ++ [route],
      state.calls ++ calls⟩
  else .ok { state with dest := state.dest.setAction route .none }

/-- Tell the route manager about a new route, as the first one or as a further one. -/
def createRibRoute (mem : Memory) (d : Destination) (state : Bool × List RouteMgrCall)
    (path : PathRef) : Call (Bool × List RouteMgrCall) := do
  let reachInfo ← (mem.path path).reachability d.protoFamily
  let cfg ← d.constructRouteConfig mem (mem.path path) reachInfo
  if state.1 then return (false, state.2 ++ [.createRoute cfg])
  else return (false, state.2 ++ [.updateRoute cfg "add"])

namespace Destination

/-- The candidates: the path in the Loc-RIB and every other path that can be used. -/
def candidates (order : MapOrder) (mem : Memory) (d : Destination) : Call Candidates :=
  (d.storedPaths order).foldlM (Candidates.consider mem d.protoFamily d.locRibPath)
    ⟨d.locRibPath.toList, [],
      d.locRibPath.elim routeSrcUnknown fun best => getRouteSource (mem.path best).routeType⟩

variable (order : MapOrder) (mem : Memory) (d : Destination)

/-- The best of the candidates, the groups that share the traffic, and the additional paths. -/
def choose (gConf : GlobalConfig) (d : Destination) (addPathCount : Int) (candidates : Candidates) :
    Call (List PathRef × List (List PathRef) × List PathRef) :=
  if 1 < candidates.updated.length ∨ 0 < addPathCount then
    calculateBestPath order mem d.protoFamily candidates.updated candidates.removed
      (gConf.useMultiplePaths && gConf.ebgpMaxPaths > 1)
      (gConf.useMultiplePaths && gConf.ibgpMaxPaths > 1) addPathCount
  else .ok (candidates.updated, [], [])

/-- Install the routes of the groups, the one of the best path first. -/
def installGroups (groups : List (List PathRef)) : Call Installing :=
  groups.zipIdx.foldlM (fun state group => state.visit mem group.2 group.1)
    ⟨d, .none, true, [], [], []⟩

/-- No candidate is left, and every installed route is to go. -/
def uninstallAll : Destination :=
  { (order.range "ecmpPaths delete" d.ecmpPaths).foldl (fun d entry => d.setAction entry.2 .delete) d
    with locRibPath := none }

/-- The path chosen goes into the Loc-RIB, with the route it has among the installed ones. -/
def setLocRibPath (path : PathRef) : Destination :=
  { d with locRibPath := some path, locRibPathRoute := d.ecmpPaths.lookup path }

/-- Choose among the candidates and install the routes, or give the routes up. -/
def reselect (gConf : GlobalConfig) (d : Destination) (addPathCount : Int) :
    Call (Bool × Installing) := do
  let candidates ← d.candidates order mem
  if candidates.updated.isEmpty then
    return (false, ⟨d.uninstallAll order, .delete, true, [], [], []⟩)
  else
    let (updatedPaths, ecmpPaths, addPaths) ← d.choose order mem gConf addPathCount candidates
    let best ← deref updatedPaths.head?
    let (addPathsUpdated, d) := d.updateAddPaths addPaths
    let state ← d.installGroups mem (removeAndPrepend ecmpPaths best)
    return (addPathsUpdated, { state with dest := state.dest.setLocRibPath best })

/-- Drop the installed routes that were not asked for, and tell the route manager. -/
def cleanUp : Call Cleaning :=
  (order.range "ecmpPaths" d.ecmpPaths).foldlM (fun state entry => state.visit mem entry.1 entry.2)
    ⟨d, [], []⟩

def selectRouteForLocRib (gConf : GlobalConfig) (d : Destination) (addPathCount : Int) :
    Call (Selection × Destination) := do
  if !d.recalculate then return (⟨.none, false, [], [], [], []⟩, d)
  else
    let (addPathsUpdated, state) ←
      ({ d with recalculate := false } : Destination).reselect order mem gConf addPathCount
    let cleaned ← state.dest.cleanUp order mem
    let (_, calls) ← state.create.foldlM (createRibRoute mem cleaned.dest)
      (state.firstRoute, cleaned.calls)
    return (⟨state.action, addPathsUpdated, state.added, state.updated, cleaned.deleted, calls⟩,
      cleaned.dest)

end Destination

section Actions

variable {order : MapOrder} {mem : Memory} {d : Destination} {best : PathRef} {state : Installing}

/-- What is to be done about the path that goes into the Loc-RIB, by the routes before it does. -/
def Destination.announcement (mem : Memory) (d : Destination) (best : PathRef) : RouteAction :=
  if (d.ecmpPaths.lookup best).isSome then
    if (mem.path best).isAggregate then .replace else .none
  else if (d.pathRouteMap.lookup best).isSome then .add else .none

/-- The path chosen is at the front, whether it is in one of the groups or not. -/
theorem removeAndPrepend_front (groups : List (List PathRef)) (best : PathRef) :
    ∃ more rest, removeAndPrepend groups best = (best :: more) :: rest := by
  unfold removeAndPrepend
  cases groups.findIdx? (·.contains best) with
  | some idx => exact ⟨_, _, rfl⟩
  | none => cases groups <;> exact ⟨_, _, rfl⟩

/-- The groups behind the first one leave the action as it is. -/
theorem visit_behind {idx : Nat} (behind : 1 ≤ idx) (paths : List PathRef) :
    (state.visit mem idx paths).Yields fun later => later.action = state.action := by
  unfold Installing.visit
  cases state.dest.installedRoute idx paths with
  | some found => exact .ok (if_neg (by omega))
  | none =>
    refine .bind fun path _ => ?_
    cases routed : state.dest.pathRouteMap.lookup path with
    | none => exact .ok rfl
    | some route => exact .bind fun _ _ => .ok (if_neg (by omega))

theorem visit_front (fresh : state.action = .none) (more : List PathRef) :
    (state.visit mem 0 (best :: more)).Yields fun later =>
      later.action = state.dest.announcement mem best := by
  have there : state.dest.installedRoute 0 (best :: more) =
      (state.dest.ecmpPaths.lookup best).map (best, ·) := by simp [Destination.installedRoute]
  rw [Installing.visit, there, Destination.announcement]
  cases state.dest.ecmpPaths.lookup best with
  | some route => exact .ok (by simp [Installing.reuse, fresh])
  | none =>
    refine .bind fun path front => ?_
    cases front
    cases state.dest.pathRouteMap.lookup best with
    | none => exact .ok (by simp [fresh])
    | some route => exact .bind fun _ _ => .ok (by simp)

theorem installGroups_action (groups : List (List PathRef)) :
    (d.installGroups mem (removeAndPrepend groups best)).Yields fun state =>
      state.action = d.announcement mem best := by
  -- The first round sets the action, and the others keep it.
  obtain ⟨more, rest, front⟩ := removeAndPrepend_front groups best
  rw [Destination.installGroups, front, List.zipIdx_cons, List.foldlM_cons]
  refine .bind fun first visited => .foldlM (visit_front rfl more first visited) ?_
  intro state group member same later visited
  rw [← same]
  exact visit_behind (List.le_snd_of_mem_zipIdx member) _ later visited

theorem cleanUp_locRibPath :
    (d.cleanUp order mem).Yields fun cleaned => cleaned.dest.locRibPath = d.locRibPath := by
  refine .foldlM rfl fun state entry _ same => ?_
  rw [← same, Cleaning.visit]
  exact .ite (.bind fun _ _ => .ok rfl) (.ok rfl)

/-- The marks of additional paths make no difference to the announcement. -/
theorem markAddPaths_announcement (paths : List PathRef) (mark : Bool) :
    (d.markAddPaths paths mark).announcement mem = d.announcement mem := by
  refine List.foldlRecOn (motive := fun after : Destination =>
    after.announcement mem = d.announcement mem) paths _ rfl fun after same path _ => ?_
  cases after.pathRouteMap.lookup path <;> exact same

theorem updateAddPaths_announcement (addPaths : List PathRef) :
    (d.updateAddPaths addPaths).2.announcement mem = d.announcement mem := by
  rw [Destination.updateAddPaths]
  split
  · rfl
  · exact (markAddPaths_announcement _ _).trans (markAddPaths_announcement _ _)

/-- Choosing a path decides on the action, by the routes that were installed before. -/
theorem reselect_action (gConf : GlobalConfig) (addPathCount : Int) :
    (d.reselect order mem gConf addPathCount).Yields fun result => result.2.action =
      result.2.dest.locRibPath.elim .delete (d.announcement mem) := by
  refine .bind fun candidates _ => .ite (.ok rfl) (.bind fun chosen _ => .bind fun best _ => ?_)
  refine .bind fun state installed => .ok ?_
  -- The groups are installed behind the marks of additional paths, which do not matter to it.
  have action := installGroups_action chosen.2.1 state installed
  exact action.trans (congrFun (updateAddPaths_announcement _) _)

/--
A selection reports what to do about the path that is in the Loc-RIB behind it.

The routes that were installed before decide on it: a path that has one is not announced again,
unless it is an aggregate, even if another path was in the Loc-RIB.
-/
theorem selectRouteForLocRib_action (order : MapOrder) (mem : Memory) (gConf : GlobalConfig)
    (d : Destination) (addPathCount : Int) :
    (d.selectRouteForLocRib order mem gConf addPathCount).Yields fun result =>
      result.1.action = if d.recalculate then
        result.2.locRibPath.elim .delete (d.announcement mem) else .none := by
  rw [Destination.selectRouteForLocRib]
  cases d.recalculate with
  | false => exact .ok rfl
  | true =>
    -- What follows the choice of a path changes routes only.
    refine .bind fun reselected done => .bind fun cleaned kept => .bind fun _ _ => .ok ?_
    have action := reselect_action gConf addPathCount _ done
    dsimp only at action
    rw [← cleanUp_locRibPath _ kept] at action
    exact action

/-- The first static path to a network is announced. -/
example (neighbors : NeighborRef → NeighborConf) (gConf : GlobalConfig) : ∃ result,
    Destination.selectRouteForLocRib .stored
      ⟨⟨fun _ => ⟨none, [], 0, ∅, routeTypeStatic, 0, 0, ∅⟩, 1⟩, neighbors⟩ gConf
      { newDestination (.ip ⟨16, [10, 1, 0, 0]⟩) 65537 with
        peerPathMap := PeerPathMap.empty.store [] 1 0
        pathRouteMap := (∅ : GoMap PathRef RouteRef).insert 0 0
        recalculate := true } 0 = .ok result ∧ result.1.action = .add := ⟨_, rfl, rfl⟩

end Actions

section Settling

variable {mem : Memory}

/-- No installed route is marked for anything. -/
def Destination.Settled (d : Destination) : Prop :=
  ∀ path route, d.ecmpPaths.lookup path = some route → (d.routes.get route).action = .none

/-- A round over an installed route drops it or takes its mark off, so none is left behind. -/
theorem cleaned_settled (entries : List (PathRef × RouteRef)) (state : Cleaning)
    (left : ∀ path route, state.dest.ecmpPaths.lookup path = some route →
      (path, route) ∈ entries ∨ (state.dest.routes.get route).action = .none) :
    (entries.foldlM (fun (state : Cleaning) entry => state.visit mem entry.1 entry.2)
      state).Yields fun cleaned => cleaned.dest.Settled := by
  induction entries generalizing state with
  | nil => exact .ok fun path route there => (left path route there).resolve_left List.not_mem_nil
  | cons entry entries ih =>
    rw [List.foldlM_cons]
    refine .bind fun later visited => ih later fun path route there => ?_
    have before := left path route
    simp only [Cleaning.visit] at visited
    split at visited
    · -- The route goes, and the others keep their marks.
      obtain ⟨calls, -, made⟩ := bind_eq_ok.mp visited
      cases made
      simp only [Destination.setBestPath, Destination.setMultiPath, Destination.modifyRoute,
        Heap.get_modify, GoMap.lookup_erase_eq] at there ⊢
      grind
    · cases visited
      simp only [Destination.setAction, Destination.modifyRoute, Heap.get_modify] at there ⊢
      grind

/-- A selection leaves no mark behind, whatever the marks were; if none is due nothing changes. -/
theorem selectRouteForLocRib_settles (order : MapOrder) (mem : Memory) (gConf : GlobalConfig)
    (d : Destination) (addPathCount : Int) :
    (d.selectRouteForLocRib order mem gConf addPathCount).Yields fun result =>
      if d.recalculate then result.2.Settled else result.2 = d := by
  rw [Destination.selectRouteForLocRib]
  cases d.recalculate with
  | false => exact .ok rfl
  | true =>
    refine .bind fun reselected done => .bind fun cleaned kept => .bind fun _ _ => .ok ?_
    -- Every installed route is met by the loop, in whatever order.
    exact cleaned_settled _ _ (fun _ _ there => .inl (MapOrder.mem_range.mpr there)) _ kept

end Settling

end FlexSwitch.Rib
