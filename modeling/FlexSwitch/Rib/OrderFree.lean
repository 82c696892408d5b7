import FlexSwitch.Rib.RouteIndex
import FlexSwitch.Rib.Stages

/-! When the first path of a selection does not depend on the order of the paths. -/

namespace FlexSwitch.Rib

open Go Packet List LeastBy

/-- The first of the paths a selection ends with. -/
def firstPath (order : MapOrder) (mem : Memory) (protoFamily : UInt32)
    (paths removed : List PathRef) (ebgp ibgp : Bool) (count : Int) : Call (Option PathRef) := do
  let (best, _, _) ← calculateBestPath order mem protoFamily paths removed ebgp ibgp count
  return best.head?

/-- The passes cannot prefer two paths whose neighbors have addresses of one length. -/
structure ToldApart (mem : Memory) (paths : List PathRef) : Prop where
  length : ∀ left ∈ paths, ∀ right ∈ paths,
    (mem.peerAddress left).length = (mem.peerAddress right).length
  distinct : (paths.map mem.peerAddress).Nodup

variable {ordered : List PathRef} {chosen : Set PathRef}

namespace ToldApart

variable {mem : Memory} {paths : List PathRef}

variable (apart : ToldApart mem paths)

include apart

theorem nodup : paths.Nodup := List.Nodup.of_map _ apart.distinct

theorem perm (perm : ordered.Perm paths) : ToldApart mem ordered where
  length := fun left leftMem right rightMem =>
    apart.length left (perm.mem_iff.mp leftMem) right (perm.mem_iff.mp rightMem)
  distinct := (perm.map mem.peerAddress).nodup_iff.mpr apart.distinct

/-- Addresses of one length are the same when they are the same number. -/
theorem eq_of_addressRank {left right : PathRef} (leftMem : left ∈ paths) (rightMem : right ∈ paths)
    (same : mem.addressRank left = mem.addressRank right) : left = right := by
  have lengths := apart.length left leftMem right rightMem
  have equal : mem.peerAddress left = mem.peerAddress right := bytesValue_inj lengths same
  exact inj_on_of_nodup_map apart.distinct leftMem rightMem equal

theorem preferred_unique (part : chosen ⊆ {path | path ∈ paths}) {left right : PathRef}
    (leftPreferred : left ∈ preferred mem chosen) (rightPreferred : right ∈ preferred mem chosen) :
    left = right := by
  have inside : ∀ path ∈ preferred mem chosen, path ∈ paths := fun path member =>
    part (subset (subset (subset (subset member))))
  exact apart.eq_of_addressRank (inside left leftPreferred) (inside right rightPreferred)
    (rank_eq leftPreferred rightPreferred)

end ToldApart

variable {mem : Memory} {paths : List PathRef}

theorem tiedPaths_subset (paths : Set PathRef) : tiedPaths mem paths ⊆ paths :=
  fun _ member => subset (subset member)

theorem preferred_nonempty (nonempty : chosen.Nonempty) : (preferred mem chosen).Nonempty :=
  LeastBy.nonempty (LeastBy.nonempty (LeastBy.nonempty (LeastBy.nonempty nonempty)))

theorem preferred_subset (chosen : Set PathRef) : preferred mem chosen ⊆ chosen :=
  fun _ member => subset (subset (subset (subset member)))

theorem preferred_of_subset {fewer : Set PathRef} (part : fewer ⊆ chosen) {path : PathRef}
    (best : path ∈ preferred mem chosen) (member : path ∈ fewer) : path ∈ preferred mem fewer := by
  -- At every pass the fewer paths that are left are among those left of all.
  have kind := subset (subset (subset best))
  have id := subset (subset best)
  have clusters := subset best
  have kindPart := subset_of_mem part kind member
  have kindHere := mono part kind member
  have idPart := subset_of_mem kindPart id kindHere
  have idHere := mono kindPart id kindHere
  have clustersPart := subset_of_mem idPart clusters idHere
  have clustersHere := mono idPart clusters idHere
  exact mono clustersPart best clustersHere

variable {left : List PathRef}

theorem afterAS_mem_iff (after : AfterAS mem paths left) (path : PathRef) :
    path ∈ left ↔ path ∈ tiedPaths mem {path | path ∈ paths} := by
  obtain ⟨before, pref, ases⟩ := after
  have same : {path | path ∈ before} = LeastBy mem.prefRank {path | path ∈ paths} :=
    Set.ext pref.mem_iff
  rw [ases.mem_iff, same]
  rfl

theorem afterAS_lowestOrigin (after : AfterAS mem paths left) :
    mem.leastOrigin left = lowestOrigin mem {path | path ∈ paths} :=
  congrArg (LeastBy mem.originRank) (Set.ext (afterAS_mem_iff after))

/-- What the pass over the origins leaves lies between what it is meant to and everything. -/
theorem afterOrigin_between (after : AfterOrigin mem paths left) :
    lowestOrigin mem {path | path ∈ paths} ⊆ {path | path ∈ left} ∧
      {path | path ∈ left} ⊆ tiedPaths mem {path | path ∈ paths} := by
  obtain ⟨before, ases, origin⟩ := after
  rw [← afterAS_lowestOrigin ases]
  exact ⟨origin.least, fun path member => (afterAS_mem_iff ases path).mp (origin.subset member)⟩

theorem afterAS_sublist (after : AfterAS mem paths left) : left.Sublist paths := by
  obtain ⟨before, pref, ases⟩ := after
  exact ases.sublist.trans pref.sublist

/-- The pass over the origins does what it is meant to with one other path, or with unknown ones. -/
theorem OriginKeeps.exact {tied : List PathRef} (origin : OriginKeeps mem tied left)
    (nodup : tied.Nodup) (few : (∃ one, ∀ path ∈ tied, path ∉ mem.leastOrigin tied → path = one) ∨
      ∀ path ∈ tied, path ∉ mem.leastOrigin tied → originMax < mem.origin path) :
    {path | path ∈ left} = mem.leastOrigin tied := by
  refine Set.Subset.antisymm ?_ origin.least
  rcases origin.cases with rfl | ⟨short, rfl⟩
  · rcases few with ⟨one, others⟩ | unknown
    · exact originKept_of_one_other nodup others
    · exact originKept_of_others_unknown unknown
  · have alone : KeepsLeast mem.originRank left left := .of_short short
    exact fun path member => (alone.mem_iff path).mp member

variable {first : PathRef}

/-- When the pass over the origins is harmless, what it leaves gives the outcome it should. -/
theorem preferred_of_harmless (apart : ToldApart mem paths)
    (harmless : OriginHarmless mem {path | path ∈ paths}) (after : AfterOrigin mem paths left)
    (best : first ∈ preferred mem {path | path ∈ left}) :
    first ∈ preferred mem (lowestOrigin mem {path | path ∈ paths}) := by
  obtain ⟨lower, upper⟩ := afterOrigin_between after
  obtain ⟨tied, ases, origin⟩ := after
  have tiedIff := afterAS_mem_iff ases
  have nodup := apart.nodup.sublist (afterAS_sublist ases)
  rw [OriginHarmless, ← afterAS_lowestOrigin ases] at harmless
  rw [← afterAS_lowestOrigin ases] at lower ⊢
  rcases harmless with ⟨one, others⟩ | unknown | anyway
  · -- One other path leaves no trace.
    have few := fun path member => others path ((tiedIff path).mp member)
    rwa [origin.exact nodup (.inl ⟨one, few⟩)] at best
  · have few := fun path member => unknown path ((tiedIff path).mp member)
    rwa [origin.exact nodup (.inr few)] at best
  · -- The path preferred among all that tie is left by the pass, so it is the one found.
    have nonempty : (tiedPaths mem {path | path ∈ paths}).Nonempty := ⟨first, upper (preferred_subset _ best)⟩
    obtain ⟨winner, wins⟩ := preferred_nonempty nonempty
    have lowest := anyway wins
    have here : winner ∈ preferred mem {path | path ∈ left} :=
      preferred_of_subset upper wins (lower lowest)
    have same : first = winner := apart.preferred_unique
      (fun path member => tiedPaths_subset _ (upper member)) best here
    rw [same]
    refine preferred_of_subset (fun path member => ?_) wins lowest
    exact (tiedIff path).mp member.1

section Selection

variable {order : MapOrder} {protoFamily : UInt32} {removed : List PathRef} {ebgp ibgp : Bool}
  {count : Int}

theorem firstPath_nil (reachable : ∀ path ∈ removed, HasReachability mem protoFamily path) :
    firstPath order mem protoFamily [] removed ebgp ibgp count = .ok none := by
  obtain ⟨best, groups, addPaths, left, done, after, wins, _⟩ :=
    @calculateBestPath_total order mem protoFamily [] removed ebgp ibgp count (by simp) reachable
      (by simp)
  have unchosen : best = [] := by
    refine eq_nil_iff_forall_not_mem.mpr fun path member => ?_
    have here := (afterOrigin_between after).2 (preferred_subset _ (wins path member))
    exact not_mem_nil (tiedPaths_subset _ here)
  exact Outcome.bind_eq_ok.mpr ⟨_, done, by rw [unchosen]; rfl⟩

variable {rest : List PathRef}

/-- Paths in front that tie stay in front until the origins are looked at. -/
theorem afterAS_front {front : List PathRef} (after : AfterAS mem (front ++ rest) left)
    (tied : ∀ path ∈ front, path ∈ tiedPaths mem {other | other ∈ front ++ rest}) :
    ∃ others, left = front ++ others := by
  obtain ⟨before, pref, ases⟩ := after
  obtain ⟨others, rfl⟩ := pref.front fun path member => subset (tied path member)
  have same : {path | path ∈ front ++ others} = LeastBy mem.prefRank {path | path ∈ front ++ rest} :=
    Set.ext pref.mem_iff
  refine ases.front fun path member => ?_
  rw [same]
  exact tied path member

/-- A path with the lowest origin in front makes the pass over the origins exact. -/
theorem first_of_lowest_front (lowest : first ∈ lowestOrigin mem {path | path ∈ first :: rest})
    (after : AfterOrigin mem (first :: rest) left) :
    {path | path ∈ left} = lowestOrigin mem {path | path ∈ first :: rest} := by
  refine Set.Subset.antisymm ?_ (afterOrigin_between after).1
  obtain ⟨tied, ases, origin⟩ := after
  have front : ∀ path ∈ [first], path ∈ tiedPaths mem {other | other ∈ [first] ++ rest} := by
    intro path member
    cases mem_singleton.mp member
    exact subset lowest
  obtain ⟨others, rfl⟩ := afterAS_front ases front
  rw [← afterAS_lowestOrigin ases] at lowest ⊢
  intro path member
  rcases origin.cases with rfl | ⟨short, rfl⟩
  · exact originKept_of_front lowest path member
  · have alone : KeepsLeast mem.originRank _ _ := .of_short short
    exact (alone.mem_iff path).mp member

/-- Two others in front of a path with the lowest origin keep the second of them. -/
theorem second_of_two_front {one path : PathRef}
    (oneTied : one ∈ tiedPaths mem {other | other ∈ one :: path :: first :: rest})
    (pathTied : path ∈ tiedPaths mem {other | other ∈ one :: path :: first :: rest})
    (lowest : first ∈ lowestOrigin mem {other | other ∈ one :: path :: first :: rest})
    (notOne : one ∉ lowestOrigin mem {other | other ∈ one :: path :: first :: rest})
    (notPath : path ∉ lowestOrigin mem {other | other ∈ one :: path :: first :: rest})
    (known : mem.origin one ≤ originMax ∨ mem.origin path ≤ originMax)
    (after : AfterOrigin mem (one :: path :: first :: rest) left) : path ∈ left := by
  obtain ⟨tied, ases, origin⟩ := after
  have front : ∀ other ∈ [one, path, first],
      other ∈ tiedPaths mem {other | other ∈ [one, path, first] ++ rest} := by
    intro other member
    simp only [mem_cons, not_mem_nil, or_false] at member
    rcases member with rfl | rfl | rfl
    · exact oneTied
    · exact pathTied
    · exact subset lowest
  obtain ⟨others, rfl⟩ := afterAS_front ases front
  rw [← afterAS_lowestOrigin ases] at lowest notOne notPath
  rcases origin.cases with rfl | ⟨short, _⟩
  · exact originKept_of_two_before lowest notOne notPath known
  · simp at short

/-- A pass that is not harmless leaves two paths with other origins, one of which is preferred. -/
theorem two_others_of_harmful {paths : Set PathRef} (harmful : ¬ OriginHarmless mem paths) :
    ∃ one path, one ∈ tiedPaths mem paths ∧ one ∉ lowestOrigin mem paths ∧ one ≠ path ∧
      path ∈ preferred mem (tiedPaths mem paths) ∧ path ∉ lowestOrigin mem paths ∧
      (mem.origin one ≤ originMax ∨ mem.origin path ≤ originMax) := by
  simp only [OriginHarmless, not_or, not_exists, not_forall] at harmful
  obtain ⟨many, ⟨known, knownTied, knownOther, isKnown⟩, notAnyway⟩ := harmful
  obtain ⟨path, isPreferred, pathOther⟩ := Set.not_subset.mp notAnyway
  by_cases pathKnown : mem.origin path ≤ originMax
  · obtain ⟨one, oneTied, oneOther, differ⟩ := many path
    exact ⟨one, path, oneTied, oneOther, differ, isPreferred, pathOther, .inr pathKnown⟩
  · have knownLe := UInt8.not_lt.mp isKnown
    refine ⟨known, path, knownTied, knownOther, ?_, isPreferred, pathOther, .inl knownLe⟩
    rintro rfl
    exact pathKnown knownLe

theorem setOf_perm (perm : ordered.Perm paths) : {path | path ∈ ordered} = {path | path ∈ paths} :=
  Set.ext fun _ => perm.mem_iff

theorem exists_perm_three {one two three : PathRef} (oneMem : one ∈ paths) (twoMem : two ∈ paths)
    (threeMem : three ∈ paths) (oneTwo : one ≠ two) (oneThree : one ≠ three)
    (twoThree : two ≠ three) : ∃ rest, (one :: two :: three :: rest).Perm paths := by
  have twoLeft : two ∈ paths.erase one := (mem_erase_of_ne oneTwo.symm).mpr twoMem
  have threeLeft : three ∈ (paths.erase one).erase two :=
    (mem_erase_of_ne twoThree.symm).mpr ((mem_erase_of_ne oneThree.symm).mpr threeMem)
  refine ⟨((paths.erase one).erase two).erase three, ?_⟩
  have last := (perm_cons_erase threeLeft).symm.cons two
  have middle := (last.trans (perm_cons_erase twoLeft).symm).cons one
  exact middle.trans (perm_cons_erase oneMem).symm

/-- Every order of the paths has a first path, preferred among what it leaves after the origins. -/
theorem firstPath_ordered (learned : ∀ path ∈ paths, Learned mem protoFamily path)
    (reachable : ∀ path ∈ removed, HasReachability mem protoFamily path)
    (apart : ToldApart mem paths) (nonempty : paths ≠ []) (order : MapOrder)
    (perm : ordered.Perm paths) :
    ∃ first left, firstPath order mem protoFamily ordered removed ebgp ibgp count =
        .ok (some first) ∧
      AfterOrigin mem ordered left ∧ first ∈ preferred mem {path | path ∈ left} := by
  obtain ⟨best, groups, addPaths, left, done, after, wins, keepsOne⟩ :=
    @calculateBestPath_total order _ _ _ _ ebgp ibgp count
      (fun path member => learned path (perm.mem_iff.mp member)) reachable (apart.perm perm).length
  have filled : ordered ≠ [] := by
    rintro rfl
    exact nonempty perm.nil_eq.symm
  obtain ⟨first, rest, rfl⟩ := exists_cons_of_ne_nil (keepsOne filled)
  exact ⟨first, left, Outcome.bind_eq_ok.mpr ⟨_, done, rfl⟩, after, wins first mem_cons_self⟩

/--
The first path is the same for every order of the paths exactly when the pass over the origins is
harmless for them, whatever the flags and the number of additional paths are.
-/
theorem first_path_order_free_iff (learned : ∀ path ∈ paths, Learned mem protoFamily path)
    (reachable : ∀ path ∈ removed, HasReachability mem protoFamily path)
    (apart : ToldApart mem paths) (ebgp ibgp : Bool) (count : Int) :
    (∃ first, ∀ (order : MapOrder) (ordered : List PathRef), ordered.Perm paths →
        firstPath order mem protoFamily ordered removed ebgp ibgp count = .ok first) ↔
      OriginHarmless mem {path | path ∈ paths} := by
  have runs {ordered} := @firstPath_ordered ordered _ _ _ _ ebgp ibgp count learned reachable apart
  constructor
  · rintro ⟨first, same⟩
    by_contra harmful
    obtain ⟨one, path, oneTied, oneOther, differ, isPreferred, pathOther, known⟩ :=
      two_others_of_harmful harmful
    have pathTied := preferred_subset _ isPreferred
    obtain ⟨lowest, isLowest⟩ : (lowestOrigin mem {path | path ∈ paths}).Nonempty :=
      nonempty ⟨path, pathTied⟩
    have inside : tiedPaths mem {path | path ∈ paths} ⊆ {path | path ∈ paths} :=
      tiedPaths_subset _
    have lowestMem : lowest ∈ paths := inside (subset isLowest)
    have nonempty := ne_nil_of_mem lowestMem
    -- With the lowest origin in front, the first path has the lowest origin too.
    have lowestFirst := perm_cons_erase lowestMem |>.symm
    obtain ⟨honest, honestLeft, honestRun, honestAfter, honestBest⟩ :=
      runs nonempty .stored lowestFirst
    have honestLowest : honest ∈ lowestOrigin mem {path | path ∈ paths} := by
      rw [← setOf_perm lowestFirst] at isLowest ⊢
      rw [← first_of_lowest_front isLowest honestAfter]
      exact preferred_subset _ honestBest
    -- With two others in front, the second of them is left, and wins.
    obtain ⟨rest, othersFirst⟩ := exists_perm_three (inside oneTied) (inside pathTied)
      lowestMem differ (fun equal => oneOther (equal ▸ isLowest))
      (fun equal => pathOther (equal ▸ isLowest))
    obtain ⟨slipped, slippedLeft, slippedRun, slippedAfter, slippedBest⟩ :=
      runs nonempty .stored othersFirst
    have between := afterOrigin_between slippedAfter
    rw [← setOf_perm othersFirst] at oneTied oneOther pathTied pathOther isLowest isPreferred
    have pathLeft := second_of_two_front oneTied pathTied isLowest oneOther pathOther known
      slippedAfter
    have pathBest := preferred_of_subset between.2 isPreferred pathLeft
    have slippedIs : slipped = path := (apart.perm othersFirst).preferred_unique
      (fun other member => tiedPaths_subset _ (between.2 member)) slippedBest pathBest
    -- Both runs give the same first path.
    have honestFirst := honestRun.symm.trans (same .stored _ lowestFirst)
    have slippedFirst := slippedRun.symm.trans (same .stored _ othersFirst)
    have equal : honest = slipped := by
      have both := honestFirst.trans slippedFirst.symm
      injection both with both
      exact Option.some.inj both
    rw [setOf_perm othersFirst] at pathOther
    exact pathOther (slippedIs ▸ equal ▸ honestLowest)
  · intro harmless
    by_cases nonempty : paths = []
    · subst nonempty
      refine ⟨none, fun order ordered perm => ?_⟩
      cases perm.eq_nil
      exact firstPath_nil reachable
    · obtain ⟨first, _, run, after, best⟩ := runs nonempty .stored (.refl _)
      refine ⟨some first, fun order ordered perm => ?_⟩
      obtain ⟨other, _, otherRun, otherAfter, otherBest⟩ := runs nonempty order perm
      have firstWins := preferred_of_harmless apart harmless after best
      rw [← setOf_perm perm] at harmless
      have otherWins := preferred_of_harmless (apart.perm perm) harmless otherAfter otherBest
      rw [setOf_perm perm] at otherWins
      have same : other = first := apart.preferred_unique
        (fun path member => tiedPaths_subset _ (subset member)) otherWins firstWins
      rw [otherRun, same]

end Selection

/-- Three neighbors, of which the second has the lowest id. -/
def threeNeighbors (ref : NeighborRef) : NeighborConf :=
  { plainNeighbor with
    neighborAddress := [10, 0, 0, UInt8.ofNat (ref + 2)]
    bgpId := if ref = 1 then [10, 0, 0, 1] else [10, 0, 0, 9] }

/-- A path from each of them, the first with origin INCOMPLETE, then EGP, then IGP. -/
def threePaths (ref : PathRef) : Path :=
  { plainPath with
    neighborConf := some ref
    pathAttrs := [.origin ⟨⟨0x40, attrTypeOrigin, 1, 3⟩, UInt8.ofNat (2 - ref)⟩]
    nhReachabilityInfo := AList.singleton (getProtocolFamily afiIP 1)
      ⟨[10, 0, 1, 1], some ⟨[10, 0, 1, 1], 0, 0, 0⟩⟩ }

def threeMemory : Memory := ⟨⟨threePaths, 3⟩, threeNeighbors⟩

/-- Two of the paths give the same first path in either order. -/
theorem first_path_order_free_two_paths :
    ∃ first, ∀ (order : MapOrder) (ordered : List PathRef), ordered.Perm [1, 2] →
      firstPath order threeMemory (getProtocolFamily afiIP 1) ordered [] true true 4 = .ok first := by
  have learned : ∀ path ∈ [1, 2], Learned threeMemory (getProtocolFamily afiIP 1) path := by
    intro path member
    simp only [mem_cons, not_mem_nil, or_false] at member
    rcases member with rfl | rfl
    · exact ⟨⟨_, rfl⟩, ⟨_, rfl⟩, ⟨_, rfl⟩, ⟨_, rfl⟩, ⟨_, rfl⟩, ⟨_, rfl⟩⟩
    · exact ⟨⟨_, rfl⟩, ⟨_, rfl⟩, ⟨_, rfl⟩, ⟨_, rfl⟩, ⟨_, rfl⟩, ⟨_, rfl⟩⟩
  have apart : ToldApart threeMemory [1, 2] := ⟨by decide, by decide⟩
  refine (first_path_order_free_iff learned (by simp) apart true true 4).mpr (.inl ⟨1, ?_⟩)
  -- The second path has the lowest origin, so only the first has another.
  intro path member other
  have inside : path ∈ [1, 2] := tiedPaths_subset _ member
  simp only [mem_cons, not_mem_nil, or_false] at inside
  rcases inside with rfl | rfl
  · rfl
  · refine absurd ⟨member, fun rival there => ?_⟩ other
    have rivals : rival ∈ [1, 2] := tiedPaths_subset _ there
    simp only [mem_cons, not_mem_nil, or_false] at rivals
    rcases rivals with rfl | rfl <;> decide

/-- Of the three paths the one with the lowest origin or the one before it comes first. -/
theorem three_paths_order_matters : ToldApart threeMemory [0, 1, 2] ∧ (∀ path ∈ [0, 1, 2],
        getRouteSource (threeMemory.path path).routeType = routeSrcExternal) ∧
      firstPath .stored threeMemory (getProtocolFamily afiIP 1) [0, 1, 2] [] false false 0 =
        .ok (some 1) ∧
      firstPath .stored threeMemory (getProtocolFamily afiIP 1) [2, 1, 0] [] false false 0 =
        .ok (some 2) :=
  ⟨⟨by decide, by decide⟩, by decide, rfl, rfl⟩

end FlexSwitch.Rib
