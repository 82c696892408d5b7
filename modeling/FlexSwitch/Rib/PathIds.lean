import FlexSwitch.IdPool
import FlexSwitch.Rib.RouteIndex

/-! The identifiers that paths are sent out under: which are in use, and which are free. -/

namespace FlexSwitch.Rib

open Go Packet List

variable {d d' : Destination} {pathId : UInt32}

namespace Destination

/-- The path of the peer and id is sent out under the identifier. -/
def SendsUnder (d : Destination) (peerIP : IPText) (pathId outPathId : UInt32) : Prop :=
  ∃ path route, d.getPathForIP peerIP pathId = some path ∧
    d.pathRouteMap.lookup path = some route ∧ (d.routes.get route).outPathId = outPathId

/-- Identifiers are in use once or free, and none below the mark is lost. -/
structure IdsExact (d : Destination) : Prop where
  bounded : ∀ {peerIP pathId outPathId}, d.SendsUnder peerIP pathId outPathId →
    1 ≤ outPathId ∧ outPathId < d.maxPathId
  distinct : ∀ {peerIP otherIP pathId otherId outPathId}, d.SendsUnder peerIP pathId outPathId →
    d.SendsUnder otherIP otherId outPathId → peerIP = otherIP ∧ pathId = otherId
  disjoint : ∀ {peerIP pathId outPathId}, d.SendsUnder peerIP pathId outPathId →
    outPathId ∉ d.pathIds
  covered : ∀ {outPathId}, 1 ≤ outPathId → outPathId < d.maxPathId →
    (∃ peerIP pathId, d.SendsUnder peerIP pathId outPathId) ∨ outPathId ∈ d.pathIds

/-- The allocator has an identifier left below the end of its range. -/
def HasRoom (d : Destination) : Prop := d.pathIds ≠ [] ∨ d.maxPathId ≠ 0xffffffff

/-- The call stores no path in the place of another, none twice, and finds an identifier. -/
def Allocates (d : Destination) : PathOp → Prop
  | .addOrUpdatePath peerIp pathId path =>
    d.getPathForIP peerIp pathId = some path ∨
      (d.getPathForIP peerIp pathId = none ∧ ¬ d.StoredElsewhere peerIp pathId path ∧ d.HasRoom)
  | .removePath _ _ => True

/-- The paths of a destination in order own what its allocator has handed out. -/
structure Allocated (d : Destination) : Prop where
  indexed : d.Indexed
  pool : IdPool.Exact (fun entry : IPText × UInt32 => d.SendsUnder entry.1 entry.2)
    d.maxPathId d.pathIds

theorem Allocated.idsExact (allocated : d.Allocated) : d.IdsExact where
  bounded {peerIP pathId outPathId} sent :=
    @allocated.pool.bounded (peerIP, pathId) outPathId sent
  distinct {peerIP otherIP pathId otherId _} left right := by
    have same : (peerIP, pathId) = (otherIP, otherId) := allocated.pool.distinct left right
    exact Prod.mk.inj same
  disjoint {peerIP pathId outPathId} sent :=
    @allocated.pool.disjoint (peerIP, pathId) outPathId sent
  covered positive below := by
    rcases allocated.pool.covered positive below with ⟨entry, sent⟩ | free
    · exact .inl ⟨entry.1, entry.2, sent⟩
    · exact .inr free

theorem allocated_newDestination (nlri : NLRI) (protoFamily : UInt32) :
    (newDestination nlri protoFamily).Allocated where
  indexed := indexed_newDestination nlri protoFamily
  pool := .initial (by rintro _ _ ⟨_, _, found, _⟩; cases found)

/-- What the next identifier is: one that was free, or the mark, which moves up. -/
theorem getNextPathId_cases (once : d.pathIds.Nodup) (room : d.HasRoom) :
    (d.getNextPathId.1 ∈ d.pathIds ∧ d.getNextPathId.2.maxPathId = d.maxPathId ∧
        d.getNextPathId.2.pathIds.Nodup ∧
        ∀ id, id ∈ d.getNextPathId.2.pathIds ↔ id ∈ d.pathIds ∧ id ≠ d.getNextPathId.1) ∨
      (d.pathIds = [] ∧ d.getNextPathId.1 = d.maxPathId ∧ d.getNextPathId.2.pathIds = [] ∧
        d.getNextPathId.2.maxPathId.toNat = d.maxPathId.toNat + 1) := by
  unfold getNextPathId
  cases last : d.pathIds.getLast? with
  | some id =>
    obtain ⟨front, split⟩ := getLast?_eq_some_iff.mp last
    refine .inl ⟨by simp [split], rfl, once.sublist (dropLast_sublist _), ?_⟩
    rw [split] at once
    -- The identifier stands once in the list, at its end.
    intro other
    have apart : id ∉ front := by
      intro member
      exact (nodup_append.mp once).2.2 id member id (by simp) rfl
    simp only [split, dropLast_concat, mem_append, mem_singleton]
    constructor
    · intro member
      exact ⟨.inl member, fun same => apart (same ▸ member)⟩
    · rintro ⟨member | same, different⟩
      · exact member
      · exact absurd same different
  | none =>
    have unused := getLast?_eq_none_iff.mp last
    have below : d.maxPathId ≠ 0xffffffff := by
      rcases room with used | below
      · exact absurd unused used
      · exact below
    have bound := d.maxPathId.toNat_lt
    have notTop : d.maxPathId.toNat ≠ 0xffffffff := fun same => below (UInt32.toNat_inj.mp same)
    refine .inr ⟨unused, rfl, unused, ?_⟩
    rw [UInt32.toNat_add]
    simp only [UInt32.reduceToNat]
    omega

/-- A new path is sent out under the next identifier, the others as before. -/
theorem sendsUnder_installed (indexed : d.Indexed) {peerIp : IPText} {path : PathRef}
    (absent : d.getPathForIP peerIp pathId = none)
    (fresh : ∀ otherIP otherId, d.getPathForIP otherIP otherId ≠ some path)
    (installed : d.Installed peerIp pathId path (-1) d') (otherIP : IPText)
    (otherId outPathId : UInt32) :
    d'.SendsUnder otherIP otherId outPathId ↔
      (otherIP = peerIp ∧ otherId = pathId ∧ outPathId = d.getNextPathId.1) ∨
        d.SendsUnder otherIP otherId outPathId := by
  have found' : d'.getPathForIP otherIP otherId =
      if otherIP = peerIp ∧ otherId = pathId then some path else d.getPathForIP otherIP otherId := by
    simp [getPathForIP, installed.stored, PeerPathMap.find_store]
  by_cases here : otherIP = peerIp ∧ otherId = pathId
  · rw [if_pos here] at found'
    have routed' : d'.pathRouteMap.lookup path = some d.routes.next := by simp [installed.routed]
    constructor
    · rintro ⟨stored, route, found, routed, sent⟩
      rw [found'] at found
      cases found
      rw [routed'] at routed
      cases routed
      exact .inl ⟨here.1, here.2, by rw [← sent, installed.outPathId]⟩
    · rintro (⟨_, _, rfl⟩ | ⟨stored, _, found, _⟩)
      · exact ⟨path, d.routes.next, found', routed', installed.outPathId⟩
      · -- This peer and id had no path before.
        rw [here.1, here.2, absent] at found
        cases found
  · have reduce : ∀ {stored : PathRef} {route : RouteRef},
        d.getPathForIP otherIP otherId = some stored → d.pathRouteMap.lookup stored = some route →
        d'.pathRouteMap.lookup stored = some route ∧ d'.routes.get route = d.routes.get route := by
      intro stored route found routed
      have notNew : stored ≠ path := fun same => fresh _ _ (same ▸ found)
      refine ⟨by simp [installed.routed, notNew, routed], ?_⟩
      exact installed.others _ (ne_of_lt (indexed.made routed).1)
    constructor
    · rintro ⟨stored, route, found, routed, sent⟩
      rw [found', if_neg here] at found
      -- The path had its route already.
      obtain ⟨oldRoute, oldRouted, _⟩ := indexed.listed found
      obtain ⟨same, kept⟩ := reduce found oldRouted
      rw [routed] at same
      cases same
      exact .inr ⟨stored, route, found, oldRouted, by rw [← kept]; exact sent⟩
    · rintro (⟨rfl, rfl, _⟩ | ⟨stored, route, found, routed, sent⟩)
      · exact absurd ⟨rfl, rfl⟩ here
      · obtain ⟨routed', kept⟩ := reduce found routed
        exact ⟨stored, route, by rw [found', if_neg here]; exact found, routed',
          by rw [kept]; exact sent⟩

/-- A path that is new gets an identifier of its own. -/
theorem Allocated.add (allocated : d.Allocated) {peerIp : IPText} {path : PathRef}
    (absent : d.getPathForIP peerIp pathId = none)
    (fresh : ∀ otherIP otherId, d.getPathForIP otherIP otherId ≠ some path) (room : d.HasRoom)
    (installed : d.Installed peerIp pathId path (-1) d') : d'.Allocated := by
  refine ⟨allocated.indexed.add absent fresh installed, ?_⟩
  have given : ∀ (entry : IPText × UInt32) (id : UInt32), d'.SendsUnder entry.1 entry.2 id ↔
      (entry = (peerIp, pathId) ∧ id = d.getNextPathId.1) ∨ d.SendsUnder entry.1 entry.2 id := by
    intro entry id
    rw [sendsUnder_installed allocated.indexed absent fresh installed, Prod.ext_iff, and_assoc]
  rw [installed.maxPathId, installed.pathIds]
  have pool := allocated.pool
  -- The identifier comes from the free list, or from the mark when nothing is free.
  rcases getNextPathId_cases pool.once room with
    ⟨available, sameMark, once, rest⟩ | ⟨nothing, top, nothing', next⟩
  · rw [sameMark]
    exact pool.take available given rest once
  · rw [nothing] at pool
    rw [nothing']
    rw [top] at given
    exact pool.extend given next

/-- After a removal the other paths are sent out as before. -/
theorem Removal.sendsUnder {peerIP : IPText} {oldPath : PathRef} {route last : RouteRef}
    {place : Nat} (removal : d.Removal peerIP pathId oldPath route last place d') (otherIP : IPText)
    (otherId outPathId : UInt32) :
    d'.SendsUnder otherIP otherId outPathId ↔
      ¬ (otherIP = peerIP ∧ otherId = pathId) ∧ d.SendsUnder otherIP otherId outPathId := by
  -- A route that moved in the list keeps its identifier.
  have sameId : ∀ ref, (d'.routes.get ref).outPathId = (d.routes.get ref).outPathId := by
    intro ref
    rw [removal.get_route]
    split
    case isTrue same => rw [same]
    case isFalse => rfl
  constructor
  · rintro ⟨stored, ref, found, routed, sent⟩
    obtain ⟨elsewhere, found⟩ := removal.find_some found
    rw [removal.lookup_route, if_neg (removal.not_old elsewhere found)] at routed
    exact ⟨elsewhere, stored, ref, found, routed, by rw [← sameId]; exact sent⟩
  · rintro ⟨elsewhere, stored, ref, found, routed, sent⟩
    refine ⟨stored, ref, by rw [removal.find, if_neg elsewhere]; exact found, ?_,
      by rw [sameId]; exact sent⟩
    rw [removal.lookup_route, if_neg (removal.not_old elsewhere found)]
    exact routed

/-- What giving an identifier back does: the mark moves down to it, or it becomes free. -/
theorem releasePathId_cases {outPathId : UInt32} (below : outPathId < d.maxPathId) :
    ((d.releasePathId outPathId).maxPathId = outPathId ∧
        d.maxPathId.toNat = outPathId.toNat + 1 ∧ (d.releasePathId outPathId).pathIds = d.pathIds) ∨
      ((d.releasePathId outPathId).maxPathId = d.maxPathId ∧
        (d.releasePathId outPathId).pathIds = d.pathIds ++ [outPathId]) := by
  unfold releasePathId
  split
  case isTrue top =>
    have highest : d.maxPathId.toNat = outPathId.toNat + 1 := by
      rw [UInt32.lt_iff_toNat_lt] at below
      have bound := d.maxPathId.toNat_lt
      have wrapped := congrArg UInt32.toNat top
      simp only [UInt32.toNat_add, UInt32.reduceToNat] at wrapped
      omega
    refine .inl ⟨?_, highest, rfl⟩
    rw [← top]
    simp
  case isFalse => exact .inr ⟨rfl, rfl⟩

/-- A removed path gives its identifier back. -/
theorem Removal.allocated {peerIP : IPText} {oldPath : PathRef} {route last : RouteRef}
    {place : Nat} (allocated : d.Allocated)
    (removal : d.Removal peerIP pathId oldPath route last place d') : d'.Allocated := by
  refine ⟨removal.indexed_after, ?_⟩
  have pool := allocated.pool
  have owned : d.SendsUnder peerIP pathId (d.routes.get route).outPathId :=
    ⟨oldPath, route, removal.found, removal.routed, rfl⟩
  have only : ∀ id, d.SendsUnder peerIP pathId id → id = (d.routes.get route).outPathId := by
    rintro id ⟨stored, ref, found, routed, rfl⟩
    rw [removal.found] at found
    cases found
    rw [removal.routed] at routed
    cases routed
    rfl
  have given : ∀ (entry : IPText × UInt32) (id : UInt32), d'.SendsUnder entry.1 entry.2 id ↔
      entry ≠ (peerIP, pathId) ∧ d.SendsUnder entry.1 entry.2 id := by
    intro entry id
    rw [removal.sendsUnder, Ne, Prod.ext_iff]
  rw [removal.maxPathId', removal.pathIds']
  -- The highest identifier lowers the mark, any other becomes free.
  rcases releasePathId_cases (@pool.bounded (peerIP, pathId) _ owned).2 with
    ⟨mark, top, free⟩ | ⟨mark, free⟩
  · rw [mark, free]
    exact pool.lower owned only given top
  · rw [mark, free]
    exact pool.release owned only given

/-- Calls that only add new paths and remove stored ones keep the identifiers exact. -/
theorem Allocated.perform {mem : Memory} {op : PathOp} (allocated : d.Allocated)
    (allowed : d.Allocates op) (done : d.perform mem op = .ok d') :
    d'.Allocated := by
  cases op with
  | addOrUpdatePath peerIp pathId path =>
    obtain ⟨⟨added, after⟩, performed, same⟩ := Outcome.bind_eq_ok.mp done
    cases same
    unfold Destination.addOrUpdatePath at performed
    rcases allowed with stored | ⟨absent, unshared, room⟩
    · rw [stored] at performed
      simp only [if_true] at performed
      cases performed
      exact allocated
    · rw [absent] at performed
      obtain ⟨d₁, installed, same⟩ := Outcome.bind_eq_ok.mp performed
      cases same
      refine allocated.add absent ?_ room (installPath_ok installed)
      intro otherIP otherId found
      by_cases here : otherIP = peerIp ∧ otherId = pathId
      · rw [here.1, here.2, absent] at found
        cases found
      · exact unshared ⟨otherIP, otherId, Decidable.not_and_iff_or_not.mp here, found⟩
  | removePath peerIP pathId =>
    obtain ⟨⟨removed, after⟩, performed, same⟩ := Outcome.bind_eq_ok.mp done
    cases same
    cases found : d.getPathForIP peerIP pathId with
    | none =>
      rw [Destination.removePath, found] at performed
      cases performed
      exact allocated
    | some oldPath =>
      obtain ⟨route, last, place, d₁, returned, removal⟩ := allocated.indexed.removePath_ok found
      rw [returned] at performed
      cases performed
      exact removal.allocated allocated

end Destination

/-- In every run that replaces no path, shares none and has room, the identifiers are exact. -/
theorem allocating_ids_exact {mem : Memory} {d : Destination}
    (run : PathRun mem Destination.Allocates d) : d.IdsExact := by
  have allocated : d.Allocated := by
    induction run with
    | start nlri protoFamily => exact Destination.allocated_newDestination nlri protoFamily
    | step op run allowed done ih => exact ih.perform allowed done
  exact allocated.idsExact

/-- Two paths, of which the first goes away and leaves its identifier free. -/
theorem allocating_ids_exact_two_paths :
    ∃ d, PathRun plainMemory Destination.Allocates d ∧ d.pathIds = [1] ∧ d.IdsExact := by
  have started : PathRun plainMemory Destination.Allocates plainDestination := .start _ _
  have first := PathRun.step (.addOrUpdatePath [10, 0, 0, 2] 1 0) started
    (.inr ⟨rfl, (by rintro ⟨_, _, _, found⟩; cases found), .inr (by decide)⟩) rfl
  have second := PathRun.step (.addOrUpdatePath [10, 0, 0, 2] 2 1) first (.inr ⟨rfl, (by
    rintro ⟨otherIP, otherId, _, found⟩
    -- Only the first path is stored so far.
    change (PeerPathMap.empty.store [10, 0, 0, 2] 1 0).find otherIP otherId = some 1 at found
    rw [PeerPathMap.find_store] at found
    split at found <;> cases found), .inr (by decide)⟩) rfl
  have third := PathRun.step (.removePath [10, 0, 0, 2] 1) second trivial rfl
  exact ⟨_, third, rfl, allocating_ids_exact third⟩

/-- A path that takes the place of another one loses the identifier of the first. -/
theorem replaced_path_leaks_id :
    ∃ d, PathRun plainMemory (fun _ _ => True) d ∧ d.maxPathId = 3 ∧ d.pathIds = [] ∧
      ∀ peerIP pathId, ¬ d.SendsUnder peerIP pathId 1 := by
  have started : PathRun plainMemory (fun _ _ => True) plainDestination := .start _ _
  have first := PathRun.step (.addOrUpdatePath [10, 0, 0, 2] 1 0) started trivial rfl
  have second := PathRun.step (.addOrUpdatePath [10, 0, 0, 2] 1 1) first trivial rfl
  refine ⟨_, second, rfl, rfl, ?_⟩
  rintro peerIP pathId ⟨path, route, found, routed, sent⟩
  -- The one stored path is the second, and its route the second too.
  change ((PeerPathMap.empty.store [10, 0, 0, 2] 1 0).store [10, 0, 0, 2] 1 1).find peerIP pathId =
    some path at found
  rw [PeerPathMap.find_store, PeerPathMap.find_store] at found
  split at found
  · cases found
    cases routed
    exact absurd sent (by decide)
  · cases found

end FlexSwitch.Rib
