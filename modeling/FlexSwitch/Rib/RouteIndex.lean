import FlexSwitch.Rib.Destination

/-! Whether every stored path has a route, and the route the place in the list it thinks it has. -/

namespace FlexSwitch.Rib

open Go Packet List Outcome

/-- A call that changes the paths of a destination. -/
inductive PathOp where
  | addOrUpdatePath (peerIp : IPText) (pathId : UInt32) (path : PathRef)
  | removePath (peerIP : IPText) (pathId : UInt32)
deriving DecidableEq, Repr

namespace Destination

def perform (mem : Memory) (d : Destination) : PathOp → Call Destination
  | .addOrUpdatePath peerIp pathId path => do
    return (← d.addOrUpdatePath mem peerIp pathId path).2
  | .removePath peerIP pathId => do return (← d.removePath peerIP pathId).2

end Destination

/-- The destinations that calls can lead to, where every call is an allowed one and returns. -/
inductive PathRun (mem : Memory) (Allowed : Destination → PathOp → Prop) : Destination → Prop where
  | start (nlri : NLRI) (protoFamily : UInt32) :
      PathRun mem Allowed (newDestination nlri protoFamily)
  | step {d d' : Destination} (op : PathOp) (run : PathRun mem Allowed d) (allowed : Allowed d op)
      (done : d.perform mem op = .ok d') : PathRun mem Allowed d'

variable {d : Destination} {mem : Memory}

namespace Destination

/-- The path is stored under another peer or another id. -/
def StoredElsewhere (d : Destination) (peerIP : IPText) (pathId : UInt32) (path : PathRef) : Prop :=
  ∃ otherIP otherId, (otherIP ≠ peerIP ∨ otherId ≠ pathId) ∧
    d.getPathForIP otherIP otherId = some path

/-- The call does not store a path under a second peer or id. -/
def Unshared (d : Destination) : PathOp → Prop
  | .addOrUpdatePath peerIp pathId path => ¬ d.StoredElsewhere peerIp pathId path
  | .removePath _ _ => True

/-- The route of a stored path is shown at the index. -/
def ShownAt (d : Destination) (peerIP : IPText) (pathId : UInt32) (idx : Nat) : Prop :=
  ∃ path route, d.getPathForIP peerIP pathId = some path ∧
    d.pathRouteMap.lookup path = some route ∧ (d.routes.get route).routeListIdx = idx

/-- The maps of a destination and the list it shows say the same. -/
structure InStep (d : Destination) : Prop where
  routed : ∀ peerIP pathId path, d.getPathForIP peerIP pathId = some path →
    ∃ route, d.pathRouteMap.lookup path = some route ∧
      ∃ idx : Nat, (d.routes.get route).routeListIdx = idx ∧ d.shownPaths[idx]? = some route
  removable : ∀ peerIP pathId, ∃ removed d', d.removePath peerIP pathId = .ok (removed, d')
  single : ∀ idx, idx < d.shownPaths.length →
    ∃! entry : IPText × UInt32, d.ShownAt entry.1 entry.2 idx

/-- What the calls keep up: the routes of stored paths and the places of the list match up. -/
structure Indexed (d : Destination) : Prop where
  unshared : ∀ {peerIP otherIP pathId otherId path}, d.getPathForIP peerIP pathId = some path →
    d.getPathForIP otherIP otherId = some path → peerIP = otherIP ∧ pathId = otherId
  listed : ∀ {peerIP pathId path}, d.getPathForIP peerIP pathId = some path →
    ∃ route, d.pathRouteMap.lookup path = some route ∧
      ∃ idx : Nat, (d.routes.get route).routeListIdx = idx ∧ d.shownPaths[idx]? = some route
  placed : ∀ {idx : Nat} {route}, d.shownPaths[idx]? = some route →
    (d.routes.get route).routeListIdx = idx ∧ d.pathInfoRouteMap.lookup route = some route ∧
      ∃ peerIP pathId path, d.getPathForIP peerIP pathId = some path ∧
        d.pathRouteMap.lookup path = some route
  made : ∀ {path route}, d.pathRouteMap.lookup path = some route →
    route < d.routes.next ∧ (d.routes.get route).path = path

theorem indexed_newDestination (nlri : NLRI) (protoFamily : UInt32) :
    (newDestination nlri protoFamily).Indexed where
  unshared := by intro _ _ _ _ _ found; cases found
  listed := by intro _ _ _ found; cases found
  placed := by intro _ _ found; cases found
  made := by intro _ _ found; cases found

/-- What is known of a destination in which a new route was made for a path. -/
structure Installed (d : Destination) (peerIp : IPText) (pathId : UInt32) (path : PathRef)
    (idx : Int) (d' : Destination) : Prop where
  stored : d'.peerPathMap = d.peerPathMap.store peerIp pathId path
  routed : d'.pathRouteMap = d.pathRouteMap.insert path d.routes.next
  known : d'.pathInfoRouteMap = d.pathInfoRouteMap.insert d.routes.next d.routes.next
  shown : (idx = -1 ∧ d'.shownPaths = d.shownPaths ++ [d.routes.next] ∧
      (d'.routes.get d.routes.next).routeListIdx = d.shownPaths.length) ∨
    (0 ≤ idx ∧ idx < d.shownPaths.length ∧
      d'.shownPaths = d.shownPaths.set idx.toNat d.routes.next ∧
      (d'.routes.get d.routes.next).routeListIdx = idx)
  others : ∀ ref, ref ≠ d.routes.next → d'.routes.get ref = d.routes.get ref
  next : d'.routes.next = d.routes.next + 1
  ofPath : (d'.routes.get d.routes.next).path = path
  outPathId : (d'.routes.get d.routes.next).outPathId = d.getNextPathId.1
  maxPathId : d'.maxPathId = d.getNextPathId.2.maxPathId
  pathIds : d'.pathIds = d.getNextPathId.2.pathIds

theorem flagForPath_eq (mem : Memory) (d : Destination) (path : PathRef) :
    ∃ flag, d.flagForPath mem path = { d with recalculate := flag } := by
  unfold flagForPath
  split
  · exact ⟨_, rfl⟩
  · split
    · exact ⟨_, rfl⟩
    · exact ⟨d.recalculate, rfl⟩

theorem getNextPathId_eq (d : Destination) :
    ∃ top free, d.getNextPathId.2 = { d with maxPathId := top, pathIds := free } := by
  unfold getNextPathId
  split
  · exact ⟨d.maxPathId, _, rfl⟩
  · exact ⟨_, d.pathIds, rfl⟩

theorem getNextPathId_flag (d : Destination) (flag : Bool) :
    ({ d with recalculate := flag } : Destination).getNextPathId =
      (d.getNextPathId.1, { d.getNextPathId.2 with recalculate := flag }) := by
  unfold getNextPathId
  cases d.pathIds.getLast? <;> simp

variable {d' : Destination} {route : RouteRef}

/-- Showing a new route changes the list and the route's own index. -/
theorem showRoute_ok {idx : Int} (done : d.showRoute route idx = .ok d') :
    ∃ shown place, d' = ({ d with shownPaths := shown } : Destination).setIdx route place ∧
      ((idx = -1 ∧ shown = d.shownPaths ++ [route] ∧ place = d.shownPaths.length) ∨
        (0 ≤ idx ∧ idx < d.shownPaths.length ∧ shown = d.shownPaths.set idx.toNat route ∧
          place = idx)) := by
  unfold showRoute at done
  split at done
  case isTrue append =>
    cases done
    exact ⟨_, _, rfl, .inl ⟨append, rfl, rfl⟩⟩
  case isFalse =>
    split at done
    case isTrue inside =>
      cases done
      exact ⟨_, _, rfl, .inr ⟨inside.1, inside.2, rfl, rfl⟩⟩
    case isFalse => cases done

variable {peerIp : IPText} {pathId : UInt32} {path : PathRef}

/-- What installing a path does to each of the maps and to the list. -/
theorem installPath_ok {idx : Int} (done : d.installPath mem peerIp pathId path idx = .ok d') :
    d.Installed peerIp pathId path idx d' := by
  obtain ⟨flag, flagged⟩ := flagForPath_eq mem d path
  obtain ⟨top, free, allocated⟩ := d.getNextPathId_eq
  rw [installPath, flagged, getNextPathId_flag, allocated] at done
  -- The route is made first, and then shown.
  obtain ⟨route, made, done⟩ := bind_eq_ok.mp done
  obtain ⟨shownDest, showed, done⟩ := bind_eq_ok.mp done
  obtain ⟨shown, place, same, placed⟩ := showRoute_ok showed
  cases done
  subst same
  have here : (d.routes.alloc route).get d.routes.next = route := by simp [Heap.get_alloc]
  have filled : route.path = path ∧ route.outPathId = d.getNextPathId.1 := by
    obtain ⟨_, _, made⟩ := bind_eq_ok.mp made
    obtain ⟨_, _, made⟩ := bind_eq_ok.mp made
    cases made
    exact ⟨rfl, rfl⟩
  constructor
  case stored => rfl
  case routed => rfl
  case known => rfl
  case shown =>
    simp only [setIdx, modifyRoute, Heap.get_modify, if_true]
    exact placed
  case others =>
    intro ref other
    simp [setIdx, modifyRoute, Heap.get_modify, Heap.get_alloc, other]
  case next => rfl
  case ofPath => simp [setIdx, modifyRoute, Heap.get_modify, here, filled.1]
  case outPathId => simp [setIdx, modifyRoute, Heap.get_modify, here, filled.2]
  case maxPathId | pathIds => simp [setIdx, modifyRoute, allocated]

variable {peerIP otherIP : IPText} {otherId : UInt32} {other : PathRef}

/-- In a destination that is in order a route belongs to one peer and id. -/
theorem Indexed.owner (indexed : d.Indexed) (found : d.getPathForIP peerIP pathId = some path)
    (otherFound : d.getPathForIP otherIP otherId = some other)
    (routed : d.pathRouteMap.lookup path = some route)
    (otherRouted : d.pathRouteMap.lookup other = some route) :
    peerIP = otherIP ∧ pathId = otherId := by
  -- The route names its path, so the two paths are one.
  have same : path = other := (indexed.made routed).2.symm.trans (indexed.made otherRouted).2
  subst same
  exact indexed.unshared found otherFound

/--
A new route at one place of the list leaves the destination in order.

The place is the end of the list, or the one that the path replaced under the same id had.
-/
theorem Indexed.install (indexed : d.Indexed) (peerIp : IPText) (pathId : UInt32) {place : Nat}
    (fresh : ∀ otherIP otherId, d.getPathForIP otherIP otherId ≠ some path)
    (own : ∀ {route}, d.shownPaths[place]? = some route →
      ∃ old, d.getPathForIP peerIp pathId = some old ∧ d.pathRouteMap.lookup old = some route)
    (vacated : ∀ {old route}, d.getPathForIP peerIp pathId = some old →
      d.pathRouteMap.lookup old = some route → (d.routes.get route).routeListIdx = place)
    (found' : ∀ otherIP otherId, d'.getPathForIP otherIP otherId =
      if otherIP = peerIp ∧ otherId = pathId then some path else d.getPathForIP otherIP otherId)
    (routed' : ∀ other, d'.pathRouteMap.lookup other =
      if other = path then some d.routes.next else d.pathRouteMap.lookup other)
    (shown' : ∀ idx : Nat, d'.shownPaths[idx]? =
      if idx = place then some d.routes.next else d.shownPaths[idx]?)
    (known' : ∀ {idx : Nat} {route}, idx ≠ place → d.shownPaths[idx]? = some route →
      d'.pathInfoRouteMap.lookup route = some route)
    (self' : d'.pathInfoRouteMap.lookup d.routes.next = some d.routes.next)
    (idx' : (d'.routes.get d.routes.next).routeListIdx = place)
    (ofPath' : (d'.routes.get d.routes.next).path = path)
    (others' : ∀ ref, ref ≠ d.routes.next → d'.routes.get ref = d.routes.get ref)
    (next' : d'.routes.next = d.routes.next + 1) : d'.Indexed where
  unshared := by
    intro peerIP otherIP pathId' otherId stored found otherFound
    rw [found'] at found otherFound
    -- The new path is stored nowhere else.
    split at found <;> split at otherFound
    · simp_all
    · cases found
      exact absurd otherFound (fresh _ _)
    · cases otherFound
      exact absurd found (fresh _ _)
    · exact indexed.unshared found otherFound
  listed := by
    intro peerIP pathId' stored found
    rw [found'] at found
    split at found
    case isTrue =>
      cases found
      exact ⟨d.routes.next, by simp [routed'], place, idx', by simp [shown']⟩
    case isFalse other =>
      obtain ⟨route, routed, idx, placed, shown⟩ := indexed.listed found
      have notNew : stored ≠ path := fun same => fresh _ _ (same ▸ found)
      have older : route ≠ d.routes.next := ne_of_lt (indexed.made routed).1
      -- At the place itself stood the route of this peer and id, if any.
      have elsewhere : idx ≠ place := by
        rintro rfl
        obtain ⟨old, oldFound, oldRouted⟩ := own shown
        exact other (indexed.owner found oldFound routed oldRouted)
      exact ⟨route, by simp [routed', notNew, routed], idx, by rw [others' _ older]; exact placed,
        by simp [shown', elsewhere, shown]⟩
  placed := by
    intro idx route shown
    rw [shown'] at shown
    split at shown
    case isTrue here =>
      cases shown
      exact ⟨by rw [idx', here], self', peerIp, pathId, path, by simp [found'], by simp [routed']⟩
    case isFalse elsewhere =>
      obtain ⟨placed, known, peerIP, pathId', stored, found, routed⟩ := indexed.placed shown
      have older : route ≠ d.routes.next := ne_of_lt (indexed.made routed).1
      have notNew : stored ≠ path := fun same => fresh _ _ (same ▸ found)
      have other : ¬ (peerIP = peerIp ∧ pathId' = pathId) := by
        rintro ⟨rfl, rfl⟩
        have moved := vacated found routed
        rw [placed] at moved
        exact elsewhere (by exact_mod_cast moved)
      exact ⟨by rw [others' _ older]; exact placed, known' elsewhere shown, peerIP, pathId', stored,
        by simp [found', other, found], by simp [routed', notNew, routed]⟩
  made := by
    intro other route routed
    rw [routed'] at routed
    split at routed
    case isTrue same =>
      cases routed
      exact ⟨by rw [next']; exact Nat.lt_succ_self _, by rw [ofPath', same]⟩
    case isFalse =>
      obtain ⟨older, ofPath⟩ := indexed.made routed
      exact ⟨by rw [next']; exact Nat.lt_succ_of_lt older,
        by rw [others' _ (ne_of_lt older)]; exact ofPath⟩

/-- Storing a path under a peer and id that had none. -/
theorem Indexed.add (indexed : d.Indexed) (absent : d.getPathForIP peerIp pathId = none)
    (fresh : ∀ otherIP otherId, d.getPathForIP otherIP otherId ≠ some path)
    (installed : d.Installed peerIp pathId path (-1) d') : d'.Indexed := by
  obtain ⟨-, shown, place⟩ | ⟨negative, _⟩ := installed.shown
  · refine indexed.install peerIp pathId fresh ?own ?vacated ?found ?routed ?shown ?known ?self place
      installed.ofPath installed.others installed.next
    case own => simp
    case vacated => simp [absent]
    case found => simp [getPathForIP, installed.stored, PeerPathMap.find_store]
    case routed => simp [installed.routed, GoMap.lookup_insert_eq]
    case shown =>
      intro idx
      rw [shown, getElem?_append]
      rcases lt_trichotomy idx d.shownPaths.length with below | same | above
      · simp [below, ne_of_lt below]
      · simp [same]
      · have gap : idx - d.shownPaths.length ≠ 0 := by omega
        simp [not_lt.mpr (le_of_lt above), Nat.ne_of_gt above]
        omega
    case known =>
      intro idx route _ shownBefore
      obtain ⟨_, known, _, _, _, _, routed⟩ := indexed.placed shownBefore
      have older : route ≠ d.routes.next := ne_of_lt (indexed.made routed).1
      simp [installed.known, older, known]
    case self => simp [installed.known]
  · omega

variable {oldPath : PathRef}

/-- What is left of a destination whose path is about to be replaced. -/
theorem supersede_eq (routed : d.pathRouteMap.lookup oldPath = some route) :
    ∃ best, d.supersede oldPath = ((d.routes.get route).routeListIdx,
      { d with locRibPath := best, pathInfoRouteMap := d.pathInfoRouteMap.erase route }) := by
  unfold supersede
  rw [routed]
  split
  · exact ⟨none, rfl⟩
  · exact ⟨d.locRibPath, rfl⟩

/-- Storing a path in the place of another one of the same peer and id. -/
theorem Indexed.replace (indexed : d.Indexed) (found : d.getPathForIP peerIp pathId = some oldPath)
    (fresh : ∀ otherIP otherId, d.getPathForIP otherIP otherId ≠ some path)
    (done : (d.supersede oldPath).2.installPath mem peerIp pathId path (d.supersede oldPath).1 =
      .ok d') : d'.Indexed := by
  obtain ⟨route, routed, place, placed, shownThere⟩ := indexed.listed found
  obtain ⟨best, superseded⟩ := supersede_eq routed
  rw [superseded] at done
  have installed := installPath_ok done
  have inside : place < d.shownPaths.length := (List.getElem?_eq_some_iff.mp shownThere).1
  simp only [placed] at installed
  obtain ⟨negative, _⟩ | ⟨-, -, shown, placedNew⟩ := installed.shown
  · omega
  · refine indexed.install peerIp pathId fresh ?own ?vacated ?found ?routed ?shown ?known ?self
      placedNew installed.ofPath installed.others installed.next
    case own =>
      intro other there
      rw [shownThere] at there
      cases there
      exact ⟨oldPath, found, routed⟩
    case vacated =>
      intro old other oldFound oldRouted
      rw [found] at oldFound
      cases oldFound
      rw [routed] at oldRouted
      cases oldRouted
      exact placed
    case found => simp [getPathForIP, installed.stored, PeerPathMap.find_store]
    case routed => simp [installed.routed, GoMap.lookup_insert_eq]
    case shown =>
      intro idx
      rw [shown]
      by_cases here : idx = place
      · subst here
        simp [inside]
      · simp [here, Ne.symm here]
    case known =>
      intro idx other elsewhere shownBefore
      obtain ⟨placedOther, known, _, _, _, _, otherRouted⟩ := indexed.placed shownBefore
      have older : other ≠ d.routes.next := ne_of_lt (indexed.made otherRouted).1
      -- Two places of the list hold two routes.
      have distinct : other ≠ route := by
        rintro rfl
        rw [placed] at placedOther
        exact elsewhere (by exact_mod_cast placedOther.symm)
      simp [installed.known, older, distinct, known]
    case self => simp [installed.known]

/-- A path is new, or takes the place of another one, or is the one that is there. -/
theorem Indexed.addOrUpdatePath {added : Bool} (indexed : d.Indexed)
    (unshared : ¬ d.StoredElsewhere peerIp pathId path)
    (done : d.addOrUpdatePath mem peerIp pathId path = .ok (added, d')) : d'.Indexed := by
  unfold Destination.addOrUpdatePath at done
  -- Unless the path is the one already stored there, it is stored nowhere.
  have fresh : d.getPathForIP peerIp pathId ≠ some path →
      ∀ otherIP otherId, d.getPathForIP otherIP otherId ≠ some path := by
    intro notThere otherIP otherId found
    by_cases here : otherIP = peerIp ∧ otherId = pathId
    · exact notThere (here.1 ▸ here.2 ▸ found)
    · exact unshared ⟨otherIP, otherId, Decidable.not_and_iff_or_not.mp here, found⟩
  split at done
  case h_1 oldPath found =>
    split at done
    case isTrue =>
      cases done
      exact indexed
    case isFalse different =>
      obtain ⟨d₁, installed, same⟩ := bind_eq_ok.mp done
      cases same
      exact indexed.replace found (fresh (by simp [found, different])) installed
  case h_2 absent =>
    obtain ⟨d₁, installed, same⟩ := bind_eq_ok.mp done
    cases same
    exact indexed.add absent (fresh (by simp [absent])) (installPath_ok installed)

/-- A path of a destination in order was removed, and its place filled by the last route. -/
structure Removal (d : Destination) (peerIP : IPText) (pathId : UInt32) (oldPath : PathRef)
    (route last : RouteRef) (place : Nat) (d' : Destination) : Prop where
  indexed : d.Indexed
  found : d.getPathForIP peerIP pathId = some oldPath
  routed : d.pathRouteMap.lookup oldPath = some route
  shown : d.shownPaths[place]? = some route
  lastShown : d.shownPaths[d.shownPaths.length - 1]? = some last
  dropped : d'.peerPathMap = d.peerPathMap.drop peerIP pathId
  unrouted : d'.pathRouteMap = d.pathRouteMap.erase oldPath
  unknown : d'.pathInfoRouteMap = d.pathInfoRouteMap.erase route
  shown' : d'.shownPaths = (d.shownPaths.set place last).dropLast
  routes' : d'.routes = d.routes.modify last fun r => { r with routeListIdx := place }
  maxPathId' : d'.maxPathId = (d.releasePathId (d.routes.get route).outPathId).maxPathId
  pathIds' : d'.pathIds = (d.releasePathId (d.routes.get route).outPathId).pathIds

theorem flagForRemoval_eq (d : Destination) (oldPath : PathRef) :
    ∃ flag best, d.flagForRemoval oldPath = { d with recalculate := flag, locRibPath := best } := by
  unfold flagForRemoval
  split <;> split
  · exact ⟨_, _, rfl⟩
  · exact ⟨_, d.locRibPath, rfl⟩
  · exact ⟨_, _, rfl⟩
  · exact ⟨d.recalculate, d.locRibPath, rfl⟩

/-- Giving an id back touches the allocator only, and reads nothing else. -/
theorem releasePathId_flag (d : Destination) (flag : Bool) (best : Option PathRef)
    (pathId : UInt32) :
    ({ d with recalculate := flag, locRibPath := best } : Destination).releasePathId pathId =
      { d with
        recalculate := flag
        locRibPath := best
        maxPathId := (d.releasePathId pathId).maxPathId
        pathIds := (d.releasePathId pathId).pathIds } := by
  unfold releasePathId
  split <;> rfl

/-- Hiding a route that is shown moves the last one to its place. -/
theorem hideRoute_shown {last : RouteRef} {place : Nat}
    (placed : (d.routes.get route).routeListIdx = place) (inside : place < d.shownPaths.length)
    (lastShown : d.shownPaths[d.shownPaths.length - 1]? = some last)
    (known : d.pathInfoRouteMap.lookup last = some last) : d.hideRoute route = .ok { d with
      pathInfoRouteMap := d.pathInfoRouteMap.erase route
      shownPaths := (d.shownPaths.set place last).dropLast
      routes := d.routes.modify last fun r => { r with routeListIdx := place } } := by
  rw [hideRoute, if_neg (by omega), getLast?_eq_getElem?, lastShown]
  simp only [known, placed, removePathAndSetLast]
  rw [if_pos (by omega)]
  rfl

/-- A destination in order gives its path up, whichever it is asked for. -/
theorem Indexed.removePath_ok (indexed : d.Indexed)
    (found : d.getPathForIP peerIP pathId = some oldPath) :
    ∃ (route last : RouteRef) (place : Nat) (d' : Destination),
      d.removePath peerIP pathId = .ok (some oldPath, d') ∧
      d.Removal peerIP pathId oldPath route last place d' := by
  obtain ⟨route, routed, place, placed, shown⟩ := indexed.listed found
  obtain ⟨flag, best, flagged⟩ := flagForRemoval_eq d oldPath
  have inside : place < d.shownPaths.length := (List.getElem?_eq_some_iff.mp shown).1
  -- The list has a last entry, since the route is in it.
  obtain ⟨last, lastShown⟩ : ∃ last, d.shownPaths[d.shownPaths.length - 1]? = some last :=
    ⟨_, getElem?_eq_getElem (by omega)⟩
  obtain ⟨_, known, _⟩ := indexed.placed lastShown
  let released := d.releasePathId (d.routes.get route).outPathId
  let d₁ := { d with
    recalculate := flag
    locRibPath := best
    maxPathId := released.maxPathId
    pathIds := released.pathIds
    pathRouteMap := d.pathRouteMap.erase oldPath }
  have hidden := @hideRoute_shown d₁ route last place placed inside lastShown known
  refine ⟨route, last, place, { d₁ with
    pathInfoRouteMap := d.pathInfoRouteMap.erase route
    shownPaths := (d.shownPaths.set place last).dropLast
    routes := d.routes.modify last fun r => { r with routeListIdx := place }
    peerPathMap := d.peerPathMap.drop peerIP pathId }, ?_,
    ⟨indexed, found, routed, shown, lastShown, rfl, rfl, rfl, rfl, rfl, rfl, rfl⟩⟩
  rw [removePath, found]
  simp only [flagged, routed, deref, ok_bind, releasePathId_flag]
  exact bind_eq_ok.mpr ⟨_, hidden, rfl⟩

namespace Removal

variable {d d' : Destination} {peerIP : IPText} {pathId : UInt32} {oldPath : PathRef}
  {route last : RouteRef} {place : Nat}

variable (removal : d.Removal peerIP pathId oldPath route last place d')

include removal

theorem inside : place < d.shownPaths.length :=
  (List.getElem?_eq_some_iff.mp removal.shown).1

theorem find (otherIP : IPText) (otherId : UInt32) : d'.getPathForIP otherIP otherId =
      if otherIP = peerIP ∧ otherId = pathId then none else d.getPathForIP otherIP otherId := by
  rw [getPathForIP, removal.dropped, PeerPathMap.find_drop]
  rfl

theorem not_old (elsewhere : ¬ (otherIP = peerIP ∧ otherId = pathId))
    (otherFound : d.getPathForIP otherIP otherId = some other) : other ≠ oldPath := by
  rintro rfl
  exact elsewhere (removal.indexed.unshared otherFound removal.found)

theorem lookup_route (other : PathRef) : d'.pathRouteMap.lookup other =
      if other = oldPath then none else d.pathRouteMap.lookup other := by
  rw [removal.unrouted, GoMap.lookup_erase_eq]

theorem get_route (ref : RouteRef) : d'.routes.get ref = if ref = last then
      { d.routes.get last with routeListIdx := place } else d.routes.get ref := by
  rw [removal.routes', Heap.get_modify]

/-- The list is one shorter, and the last route stands where the removed one stood. -/
theorem getElem_shown (idx : Nat) : d'.shownPaths[idx]? = if idx < d.shownPaths.length - 1 then
      (if idx = place then some last else d.shownPaths[idx]?) else none := by
  have inside := removal.inside
  rw [removal.shown', getElem?_dropLast, length_set]
  by_cases here : idx = place
  · subst here
    simp [inside]
  · simp [here, Ne.symm here]

theorem place_unique {left right : Nat}
    {other : RouteRef} (atLeft : d.shownPaths[left]? = some other)
    (atRight : d.shownPaths[right]? = some other) : left = right := by
  have leftIdx := (removal.indexed.placed atLeft).1
  rw [(removal.indexed.placed atRight).1] at leftIdx
  exact_mod_cast leftIdx.symm

/-- Unless the removed route was the last itself, its place is still in the list. -/
theorem room (different : last ≠ route) : place < d.shownPaths.length - 1 := by
  have inside := removal.inside
  have notLast : place ≠ d.shownPaths.length - 1 := by
    intro atEnd
    have lastShown := removal.lastShown
    rw [← atEnd, removal.shown] at lastShown
    exact different (Option.some.inj lastShown).symm
  omega

variable {otherRoute : RouteRef}

theorem route_ne (elsewhere : ¬ (otherIP = peerIP ∧ otherId = pathId))
    (otherFound : d.getPathForIP otherIP otherId = some other)
    (otherRouted : d.pathRouteMap.lookup other = some otherRoute) : otherRoute ≠ route := by
  rintro rfl
  exact elsewhere (removal.indexed.owner otherFound removal.found otherRouted removal.routed)

/-- The owner of a route other than the removed one is another peer or id. -/
theorem owner_ne (different : otherRoute ≠ route)
    (otherFound : d.getPathForIP otherIP otherId = some other)
    (otherRouted : d.pathRouteMap.lookup other = some otherRoute) :
    ¬ (otherIP = peerIP ∧ otherId = pathId) := by
  rintro ⟨rfl, rfl⟩
  rw [removal.found] at otherFound
  cases otherFound
  rw [removal.routed] at otherRouted
  exact different (Option.some.inj otherRouted).symm

/-- What is found after the removal was found before it, somewhere else. -/
theorem find_some (otherFound : d'.getPathForIP otherIP otherId = some other) :
    ¬ (otherIP = peerIP ∧ otherId = pathId) ∧ d.getPathForIP otherIP otherId = some other := by
  rw [removal.find] at otherFound
  split at otherFound
  case isTrue => cases otherFound
  case isFalse elsewhere => exact ⟨elsewhere, otherFound⟩

/-- The routes of the paths that stay are listed where they think they are. -/
theorem listed (otherFound : d'.getPathForIP otherIP otherId = some other) :
    ∃ otherRoute, d'.pathRouteMap.lookup other = some otherRoute ∧
      ∃ idx : Nat, (d'.routes.get otherRoute).routeListIdx = idx ∧
        d'.shownPaths[idx]? = some otherRoute := by
  obtain ⟨elsewhere, otherFound⟩ := removal.find_some otherFound
  obtain ⟨otherRoute, otherRouted, idx, otherPlaced, otherShown⟩ :=
    removal.indexed.listed otherFound
  have notRoute := removal.route_ne elsewhere otherFound otherRouted
  refine ⟨otherRoute, by simp [removal.lookup_route, removal.not_old elsewhere otherFound, otherRouted],
    ?_⟩
  by_cases moved : otherRoute = last
  · -- The last route now stands where the removed one did.
    subst moved
    exact ⟨place, by simp [removal.get_route], by simp [removal.getElem_shown, removal.room notRoute]⟩
  · -- Any other route stays where it is, in front of the end.
    have notThere : idx ≠ place := by
      rintro rfl
      rw [removal.shown] at otherShown
      exact notRoute (Option.some.inj otherShown).symm
    have notLast : idx ≠ d.shownPaths.length - 1 := by
      rintro rfl
      rw [removal.lastShown] at otherShown
      exact moved (Option.some.inj otherShown).symm
    have early : idx < d.shownPaths.length - 1 := by
      have bounded := (List.getElem?_eq_some_iff.mp otherShown).1
      omega
    exact ⟨idx, by simp [removal.get_route, moved, otherPlaced],
      by simp [removal.getElem_shown, early, notThere, otherShown]⟩

/-- A route that stays in the list is still known and still has its path. -/
theorem kept {idx : Nat} (different : otherRoute ≠ route)
    (otherShown : d.shownPaths[idx]? = some otherRoute) :
    d'.pathInfoRouteMap.lookup otherRoute = some otherRoute ∧
      ∃ otherIP otherId other, d'.getPathForIP otherIP otherId = some other ∧
        d'.pathRouteMap.lookup other = some otherRoute := by
  obtain ⟨_, known, otherIP, otherId, other, otherFound, otherRouted⟩ :=
    removal.indexed.placed otherShown
  have elsewhere := removal.owner_ne different otherFound otherRouted
  refine ⟨by simp [removal.unknown, different, known],
    otherIP, otherId, other, by simp [removal.find, elsewhere, otherFound], ?_⟩
  simp [removal.lookup_route, removal.not_old elsewhere otherFound, otherRouted]

/-- The routes in the list know their places, and are known. -/
theorem placed_after {idx : Nat} (otherShown : d'.shownPaths[idx]? = some otherRoute) :
    (d'.routes.get otherRoute).routeListIdx = idx ∧
      d'.pathInfoRouteMap.lookup otherRoute = some otherRoute ∧
        ∃ otherIP otherId other, d'.getPathForIP otherIP otherId = some other ∧
          d'.pathRouteMap.lookup other = some otherRoute := by
  rw [removal.getElem_shown] at otherShown
  split at otherShown
  case isFalse => cases otherShown
  case isTrue early =>
    split at otherShown
    case isTrue here =>
      cases otherShown
      -- The removed route was not the last, so the last one lives on.
      have different : last ≠ route := by
        rintro rfl
        have atEnd := removal.place_unique removal.shown removal.lastShown
        omega
      exact ⟨by simp [removal.get_route, here], removal.kept different removal.lastShown⟩
    case isFalse notThere =>
      have notLast : otherRoute ≠ last := by
        rintro rfl
        have atEnd := removal.place_unique otherShown removal.lastShown
        omega
      have notRoute : otherRoute ≠ route := by
        rintro rfl
        exact notThere (removal.place_unique otherShown removal.shown)
      have otherPlaced := (removal.indexed.placed otherShown).1
      exact ⟨by simp [removal.get_route, notLast, otherPlaced], removal.kept notRoute otherShown⟩

/-- Removing a path leaves the destination in order. -/
theorem indexed_after : d'.Indexed where
  unshared := by
    intro leftIP rightIP leftId rightId path leftFound rightFound
    exact removal.indexed.unshared (removal.find_some leftFound).2 (removal.find_some rightFound).2
  listed := removal.listed
  placed := removal.placed_after
  made := by
    intro other otherRoute otherRouted
    rw [removal.lookup_route] at otherRouted
    split at otherRouted
    case isTrue => cases otherRouted
    case isFalse =>
      obtain ⟨older, ofPath⟩ := removal.indexed.made otherRouted
      refine ⟨by rw [removal.routes']; exact older, ?_⟩
      -- Only an index was changed, and a route keeps its path.
      rw [removal.get_route]
      split
      case isTrue same =>
        subst same
        exact ofPath
      case isFalse => exact ofPath

end Removal

theorem Indexed.removePath {removed : Option PathRef} (indexed : d.Indexed)
    (done : d.removePath peerIP pathId = .ok (removed, d')) :
    d'.Indexed := by
  cases found : d.getPathForIP peerIP pathId with
  | none =>
    rw [Destination.removePath, found] at done
    cases done
    exact indexed
  | some oldPath =>
    obtain ⟨route, last, place, after, performed, removal⟩ := indexed.removePath_ok found
    rw [performed] at done
    cases done
    exact removal.indexed_after

/-- Calls that share no path between ids keep a destination in order. -/
theorem Indexed.perform {op : PathOp} (indexed : d.Indexed)
    (unshared : d.Unshared op) (done : d.perform mem op = .ok d') : d'.Indexed := by
  cases op with
  | addOrUpdatePath peerIp pathId path =>
    obtain ⟨⟨added, after⟩, performed, same⟩ := bind_eq_ok.mp done
    cases same
    exact indexed.addOrUpdatePath unshared performed
  | removePath peerIP pathId =>
    obtain ⟨⟨removed, after⟩, performed, same⟩ := bind_eq_ok.mp done
    cases same
    exact indexed.removePath performed

/-- A destination in order has its maps and its list in step. -/
theorem Indexed.inStep (indexed : d.Indexed) : d.InStep where
  routed _ _ _ := indexed.listed
  removable := by
    intro peerIP pathId
    cases found : d.getPathForIP peerIP pathId with
    | none => exact ⟨none, d, by rw [Destination.removePath, found]⟩
    | some oldPath =>
      obtain ⟨_, _, _, after, performed, _⟩ := indexed.removePath_ok found
      exact ⟨some oldPath, after, performed⟩
  single := by
    intro idx inside
    obtain ⟨placed, _, peerIP, pathId, path, found, routed⟩ :=
      indexed.placed (getElem?_eq_getElem inside)
    refine ⟨(peerIP, pathId), ⟨path, _, found, routed, placed⟩, ?_⟩
    -- A second owner of the place would have the same route.
    rintro ⟨otherIP, otherId⟩ ⟨other, otherRoute, otherFound, otherRouted, otherPlaced⟩
    obtain ⟨route, same, otherIdx, there, shown⟩ := indexed.listed otherFound
    rw [otherRouted] at same
    cases same
    rw [otherPlaced] at there
    have sameIdx : idx = otherIdx := by exact_mod_cast there
    subst sameIdx
    rw [getElem?_eq_getElem inside] at shown
    cases shown
    obtain ⟨rfl, rfl⟩ := indexed.owner otherFound found otherRouted routed
    rfl

/-- Two ids of one path would have one route, and so one place in the list. -/
theorem InStep.unshared {peerIP otherIP : IPText} {pathId otherId : UInt32} {path : PathRef}
    (inStep : d.InStep) (found : d.getPathForIP peerIP pathId = some path)
    (again : d.getPathForIP otherIP otherId = some path) : peerIP = otherIP ∧ pathId = otherId := by
  obtain ⟨route, routed, idx, placed, shown⟩ := inStep.routed peerIP pathId path found
  obtain ⟨inside, _⟩ := List.getElem?_eq_some_iff.mp shown
  obtain ⟨_, _, only⟩ := inStep.single idx inside
  have one := only (peerIP, pathId) ⟨path, route, found, routed, placed⟩
  have other := only (otherIP, otherId) ⟨path, route, again, routed, placed⟩
  exact Prod.mk.inj (one.trans other.symm)

end Destination

/-- In every run that shares no path between ids the destination is in order. -/
theorem PathRun.indexed (run : PathRun mem Destination.Unshared d) : d.Indexed := by
  induction run with
  | start nlri protoFamily => exact Destination.indexed_newDestination nlri protoFamily
  | step op run allowed done ih => exact ih.perform allowed done

/-- In every run that shares no path between ids the maps and the list stay in step. -/
theorem unshared_paths_in_step {mem : Memory} {d : Destination}
    (run : PathRun mem Destination.Unshared d) : d.InStep :=
  run.indexed.inStep

/-- A neighbor in another AS. -/
def plainNeighbor : NeighborConf where
  neighborAddress := [10, 0, 0, 2]
  localAS := 65001
  peerAS := 65002
  bgpId := [10, 0, 0, 2]
  routerId := [10, 0, 0, 1]
  routeReflectorClusterId := 0

/-- A path learned from the neighbor, without attributes. -/
def plainPath : Path where
  neighborConf := some 0
  pathAttrs := []
  pref := 100
  nhReachabilityInfo := ∅
  routeType := routeTypeEGP
  med := 0
  localPref := 0
  aggregatedPaths := ∅

/-- Memory in which every path is a plain one. -/
def plainMemory : Memory where
  paths := ⟨fun _ => plainPath, 2⟩
  neighbors := fun _ => plainNeighbor

/-- 10.1.0.0/16, of IPv4 unicast. -/
def plainDestination : Destination :=
  newDestination (.ip ⟨16, [10, 1, 0, 0]⟩) (getProtocolFamily afiIP 1)

/-- Two paths under two ids, of which the first goes away again and the second stays. -/
theorem unshared_paths_in_step_two_ids : ∃ d, PathRun plainMemory Destination.Unshared d ∧
      d.getPathForIP [10, 0, 0, 2] 1 = none ∧ d.getPathForIP [10, 0, 0, 2] 2 = some 1 ∧
      d.InStep := by
  have started : PathRun plainMemory Destination.Unshared plainDestination := .start _ _
  have first := PathRun.step (.addOrUpdatePath [10, 0, 0, 2] 1 0) started
    (by rintro ⟨_, _, _, found⟩; cases found) rfl
  have second := PathRun.step (.addOrUpdatePath [10, 0, 0, 2] 2 1) first (by
    rintro ⟨otherIP, otherId, _, found⟩
    -- Only the first path is stored so far.
    change (PeerPathMap.empty.store [10, 0, 0, 2] 1 0).find otherIP otherId = some 1 at found
    rw [PeerPathMap.find_store] at found
    split at found <;> cases found) rfl
  have third := PathRun.step (.removePath [10, 0, 0, 2] 1) second trivial rfl
  exact ⟨_, third, rfl, rfl, unshared_paths_in_step third⟩

/-- One path under two ids loses its route with the first id, and the second cannot be removed. -/
theorem shared_path_loses_route : ∃ d, PathRun plainMemory (fun _ _ => True) d ∧
      d.getPathForIP [10, 0, 0, 2] 2 = some 0 ∧ d.pathRouteMap.lookup 0 = none ∧
      d.removePath [10, 0, 0, 2] 2 = .panic := by
  have started : PathRun plainMemory (fun _ _ => True) plainDestination := .start _ _
  have first := PathRun.step (.addOrUpdatePath [10, 0, 0, 2] 1 0) started trivial rfl
  have second := PathRun.step (.addOrUpdatePath [10, 0, 0, 2] 2 0) first trivial rfl
  have third := PathRun.step (.removePath [10, 0, 0, 2] 1) second trivial rfl
  exact ⟨_, third, rfl, rfl, rfl⟩

end FlexSwitch.Rib
