import FlexSwitch.Rib.OriginPass

/-! The passes of a selection one after the other, and what is left at the end. -/

namespace FlexSwitch.Rib

open Go Packet Outcome

section Sets

variable (mem : Memory) (paths : Set PathRef)

/-- The paths that tie before their origins are looked at. -/
def tiedPaths : Set PathRef := LeastBy mem.asRank (LeastBy mem.prefRank paths)

/-- Those of them with the lowest origin, which are meant to be kept. -/
def lowestOrigin : Set PathRef := LeastBy mem.originRank (tiedPaths mem paths)

/-- The paths that the passes after the one over the origins prefer. -/
def preferred : Set PathRef :=
  LeastBy mem.addressRank (LeastBy mem.clusterRank (LeastBy mem.idRank (LeastBy mem.kindRank paths)))

/--
The pass over the origins cannot change the outcome.

One path at most has another origin than the lowest, or all others have an unknown one, or the
later passes prefer a path with the lowest origin anyway.
-/
def OriginHarmless : Prop :=
  (∃ one, ∀ path ∈ tiedPaths mem paths, path ∉ lowestOrigin mem paths → path = one) ∨
    (∀ path ∈ tiedPaths mem paths, path ∉ lowestOrigin mem paths → originMax < mem.origin path) ∨
    preferred mem (tiedPaths mem paths) ⊆ lowestOrigin mem paths

end Sets

/-- What the first two passes can leave of the paths. -/
def AfterAS (mem : Memory) (paths left : List PathRef) : Prop :=
  ∃ before, KeepsLeast mem.prefRank paths before ∧ KeepsLeast mem.asRank before left

/-- What the pass over the origins can leave after them. -/
def AfterOrigin (mem : Memory) (paths left : List PathRef) : Prop :=
  ∃ before, AfterAS mem paths before ∧ OriginKeeps mem before left

section Total

variable {order : MapOrder} {mem : Memory} {protoFamily : UInt32}

theorem multiPaths_total {paths : List PathRef} (allowed : Bool)
    (reachable : ∀ path ∈ paths, HasReachability mem protoFamily path) :
    ∃ groups, multiPaths order mem protoFamily allowed paths = .ok groups := by
  unfold multiPaths
  split
  case isTrue =>
    have each : ∀ (groups : GoMap IPText (List PathRef)), ∀ path ∈ paths, ∃ next, (do
        let reachInfo ← (mem.path path).reachability protoFamily
        let group := (groups.lookup reachInfo.nextHop).getD []
        return groups.insert reachInfo.nextHop (group ++ [path]) :
          Call (GoMap IPText (List PathRef))) = .ok next := by
      intro groups path member
      obtain ⟨info, read⟩ := reachable path member
      exact ⟨_, by rw [read]; rfl⟩
    obtain ⟨groups, folded⟩ := foldlM_ok ∅ each
    exact ⟨_, bind_eq_ok.mpr ⟨groups, folded, rfl⟩⟩
  case isFalse => exact ⟨[], rfl⟩

theorem addAddPaths_total {paths : List PathRef} (site : String) (state : AddPathState)
    (reachable : ∀ path ∈ paths, HasReachability mem protoFamily path) :
    ∃ next, addAddPaths order mem protoFamily site state paths = .ok next := by
  have each : ∀ (maps : GoMap IPText PathRef × GoMap IPText PathRef), ∀ path ∈ paths, ∃ next, (do
        let reachInfo ← (mem.path path).reachability protoFamily
        if reachInfo.nextHop ∈ maps.2 then return maps
        else return (maps.1.insert reachInfo.nextHop path, maps.2.insert reachInfo.nextHop path) :
          Call (GoMap IPText PathRef × GoMap IPText PathRef)) = .ok next := by
    intro maps path member
    obtain ⟨info, read⟩ := reachable path member
    rw [read, ok_bind]
    split
    · exact ⟨_, rfl⟩
    · exact ⟨_, rfl⟩
  obtain ⟨⟨currPathMap, pathMap⟩, folded⟩ := foldlM_ok (∅, state.pathMap) each
  exact ⟨_, bind_eq_ok.mpr ⟨_, folded, rfl⟩⟩

theorem fillAddPaths_total (count : Int) {pruned : List PathSortIface} (state : AddPathState)
    (reachable : ∀ sorted ∈ pruned, ∀ path ∈ sorted.paths, HasReachability mem protoFamily path) :
    ∃ next, fillAddPaths order mem protoFamily count pruned state = .ok next := by
  induction pruned generalizing state with
  | nil => exact ⟨state, rfl⟩
  | cons first earlier ih =>
    -- Sorting changes the order of the paths only.
    have sorted : ∀ path ∈ sortPaths order ("sort" ++ toString earlier.length) first,
        HasReachability mem protoFamily path := by
      intro path member
      rw [sortPaths, List.mem_insertionSort, (order.perm _ _).mem_iff] at member
      exact reachable first List.mem_cons_self path member
    obtain ⟨next, added⟩ := @addAddPaths_total order _ _ _
      ("currPathMap" ++ toString earlier.length) state sorted
    simp only [fillAddPaths]
    rw [added, ok_bind]
    split
    · exact ⟨_, rfl⟩
    · exact ih next fun other member => reachable other (List.mem_cons_of_mem _ member)

/-- Only the reachability of the paths is looked up, so no choice of them fails. -/
theorem chooseAddPaths_total (count : Int) {paths : List PathRef × List PathSortIface}
    (reachable : ∀ path ∈ paths.1, HasReachability mem protoFamily path)
    (sortedOut : ∀ sorted ∈ paths.2, ∀ path ∈ sorted.paths, HasReachability mem protoFamily path) :
    ∃ addPaths, chooseAddPaths order mem protoFamily count paths.1 paths.2 = .ok addPaths := by
  unfold chooseAddPaths
  split
  case isTrue => exact ⟨[], rfl⟩
  case isFalse =>
    -- Whatever was found among the paths that are left, the rest is filled up.
    have fill : ∀ state : AddPathState, ∃ addPaths, (do
        if count ≤ state.addPaths.length then return state.addPaths
        return (← fillAddPaths order mem protoFamily count paths.2.reverse state).addPaths :
          Call (List PathRef)) = .ok addPaths := by
      intro state
      obtain ⟨final, filled⟩ := @fillAddPaths_total order _ _ count _ state
        fun sorted member => sortedOut sorted (List.mem_reverse.mp member)
      split
      · exact ⟨_, rfl⟩
      · exact ⟨_, by rw [filled]; rfl⟩
    split
    · obtain ⟨state, added⟩ := @addAddPaths_total order _ _ _ "currPathMap" ⟨[], ∅⟩
        fun path member => reachable path (List.mem_of_mem_drop member)
      rw [added, ok_bind]
      exact fill state
    · exact fill _

/-- A selection among learned paths ends with some that are preferred after the origins. -/
theorem calculateBestPath_total {paths removed : List PathRef} {ebgp ibgp : Bool} {count : Int}
    (learned : ∀ path ∈ paths, Learned mem protoFamily path)
    (reachable : ∀ path ∈ removed, HasReachability mem protoFamily path)
    (lengths : ∀ left ∈ paths, ∀ right ∈ paths,
      (mem.peerAddress left).length = (mem.peerAddress right).length) :
    ∃ best groups addPaths left,
      calculateBestPath order mem protoFamily paths removed ebgp ibgp count =
        .ok (best, groups, addPaths) ∧ AfterOrigin mem paths left ∧
      (∀ path ∈ best, path ∈ preferred mem {path | path ∈ left}) ∧ (paths ≠ [] → best ≠ []) := by
  have start : Contenders mem protoFamily paths (paths, [⟨removed, fun left right =>
      getRouteSource (mem.path left).routeType < getRouteSource (mem.path right).routeType⟩]) :=
    ⟨List.Subset.refl _, by simpa using reachable⟩
  have known : ∀ {selected : List PathRef}, selected ⊆ paths →
      ∀ path ∈ selected, HasReachability mem protoFamily path :=
    fun part path member => (learned path (part member)).reachable
  obtain ⟨size, sized⟩ : ∃ size, ∀ path ∈ paths, (mem.peerAddress path).length = size := by
    cases paths with
    | nil => exact ⟨0, by simp⟩
    | cons first => exact ⟨_, fun path member => lengths path member first List.mem_cons_self⟩
  obtain ⟨byPref, prefDone, pref, contenders⟩ :=
    (Sorts.leaves learned fun _ _ => getRoutesWithHighestPref_sorts _).whenTied .of_short start
  obtain ⟨tied, asDone, ases, contenders⟩ :=
    (Sorts.leaves learned fun _ part => getRoutesWithSmallestAS_sorts fun path member =>
      (learned path (part member)).ases).whenTied .of_short contenders
  obtain ⟨kept, originDone, origin, contenders⟩ :=
    (getRoutesWithLowestOrigin_leaves learned).whenTied .of_short contenders
  obtain ⟨both, bothDone⟩ := @multiPaths_total order _ _ _ _ (known contenders.left)
  obtain ⟨byKind, kindDone, kind, contenders⟩ := (removeIBGPRoutesIfEBGPExist_leaves learned).whenTied
    (fun short => (KeepsLeast.of_short short).mem_iff) contenders
  obtain ⟨one, oneDone⟩ := @multiPaths_total order _ _ _ _
    (known contenders.left)
  obtain ⟨byId, idDone, id, contenders⟩ :=
    (Sorts.leaves learned fun _ part => getRoutesWithLowestBGPId_sorts fun path member =>
      (learned path (part member)).id).whenTied .of_short contenders
  obtain ⟨close, clustersDone, clusters, contenders⟩ :=
    (Sorts.leaves learned fun _ part => getRoutesWithShorterClusterLen_sorts fun path member =>
      (learned path (part member)).clusters).whenTied .of_short contenders
  obtain ⟨best, addressDone, address, contenders⟩ :=
    (Sorts.leaves learned fun _ part => getRoutesWithLowestPeerAddress_sorts (fun path member =>
      (learned path (part member)).neighbor) fun path member => sized path (part member)).whenTied
        .of_short contenders
  obtain ⟨addPaths, addDone⟩ := @chooseAddPaths_total order _ _ count _ (known contenders.left)
    contenders.sortedOut
  refine ⟨best.1, both ++ one, addPaths, kept.1, ?_, ⟨_, ⟨_, pref, ases⟩, origin⟩, ?_, fun filled => ?_⟩
  · refine bind_eq_ok.mpr ⟨byPref, prefDone, ?_⟩
    rw [asDone, ok_bind, originDone, ok_bind, bothDone,
      ok_bind, kindDone, ok_bind, oneDone, ok_bind, idDone, ok_bind,
      clustersDone, ok_bind, addressDone, ok_bind, addDone]
    rfl
  · -- Each pass leaves the least of what the one before it left.
    have kindSet : {path | path ∈ byKind.1} = LeastBy mem.kindRank {path | path ∈ kept.1} :=
      Set.ext kind
    have idSet : {path | path ∈ byId.1} = LeastBy mem.idRank {path | path ∈ byKind.1} :=
      Set.ext id.mem_iff
    have closeSet : {path | path ∈ close.1} = LeastBy mem.clusterRank {path | path ∈ byId.1} :=
      Set.ext clusters.mem_iff
    rw [preferred, ← kindSet, ← idSet, ← closeSet]
    exact fun path => (address.mem_iff path).mp
  · exact address.ne_nil (clusters.ne_nil (id.ne_nil (kind.ne_nil
      (origin.ne_nil (ases.ne_nil (pref.ne_nil filled))))))

end Total

end FlexSwitch.Rib
