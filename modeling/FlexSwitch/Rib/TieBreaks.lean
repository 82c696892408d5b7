import FlexSwitch.Rib.OrderFree

/-! What each tie-breaking pass keeps and sorts out, against the best key of the list. -/

namespace FlexSwitch.Rib

open Go Packet List OriginPass

variable {mem : Memory} {paths : List PathRef} {pruned : List PathSortIface} {rank : PathRef → Nat}
  {pass : List PathRef → List PathSortIface → Call (List PathRef × List PathSortIface)}

/-- The paths that rank lowest come back in their order, and just the others are sorted out. -/
def KeepsBest (rank : PathRef → Nat)
    (pass : List PathRef → List PathSortIface → Call (List PathRef × List PathSortIface))
    (paths : List PathRef) (pruned : List PathSortIface) : Prop :=
  ∃ kept added, pass paths pruned = .ok (kept, pruned ++ added) ∧ KeepsLeast rank paths kept ∧
    paths ~ kept ++ added.flatMap (·.paths)

/-- The first path with a known origin has the lowest one of all. -/
def OriginsInOrder (mem : Memory) (paths : List PathRef) : Prop :=
  match paths.find? fun path => mem.origin path ≤ originMax with
  | some first => ∀ path ∈ paths, mem.origin first ≤ mem.origin path
  | none => paths = []

/-- Every key can be read, no path has more than 4096 AS numbers, and all addresses are as long. -/
structure Keyed (mem : Memory) (paths : List PathRef) : Prop where
  ases : ∀ path ∈ paths, ∃ count, (mem.path path).getNumASes = .ok count ∧ count.toNat ≤ 4096
  origins : ∀ path ∈ paths, ∃ origin, (mem.path path).getOrigin = .ok origin
  ids : ∀ path ∈ paths, ∃ id, (mem.path path).getBGPId mem = .ok id
  clusters : ∀ path ∈ paths, ∃ count, (mem.path path).getNumClusters = .ok count
  neighbors : ∀ path ∈ paths, ∃ conf, mem.neighborOf (mem.path path) = .ok conf
  lengths : ∃ size, ∀ path ∈ paths, (mem.peerAddress path).length = size

theorem keepsBest_of_finish {kept removed : List PathRef} {less : PathRef → PathRef → Bool}
    (run : pass paths pruned = .ok (finishPass paths kept removed less pruned))
    (least : KeepsLeast rank paths (if kept.isEmpty then paths else kept))
    (some : kept = [] → paths = []) (split : paths ~ kept ++ removed) :
    KeepsBest rank pass paths pruned := by
  have whole : (if kept.isEmpty then paths else kept) = kept := by
    by_cases none : kept = []
    · simp [none, some none]
    · simp [none]
  rw [whole] at least
  refine ⟨kept, if removed.isEmpty then [] else [⟨removed, less⟩], ?_, least, split.trans (.of_eq ?_)⟩
  · rw [run, finishPass, whole]
    split <;> simp
  · split <;> simp_all

theorem Sorts.keepsBest {top : Nat} (sorts : Sorts top rank pass paths)
    (below : ∀ path ∈ paths, rank path ≤ top) (pruned : List PathSortIface) :
    KeepsBest rank pass paths pruned := by
  obtain ⟨best, kept, removed, less, run, soFar⟩ := sorts pruned
  refine keepsBest_of_finish run soFar.keepsLeast (fun none => ?_) soFar.split
  -- A path that ranks where the pass started would have been kept.
  refine eq_nil_iff_forall_not_mem.mpr fun path member => ?_
  have start := soFar.unimproved none
  have least := (soFar.least path member).1
  have atMost := below path member
  have kept := filter_eq_nil_iff.mp (soFar.keeps.symm.trans none) path member
  simp only [decide_eq_true_eq] at kept
  omega

section Origins

variable {before after : List PathRef} {first low : PathRef}

/-- With a path in front that has a known origin, a lower one leaves a place too many. -/
theorem originKept_long (known : mem.origin first ≤ originMax) (there : first ∈ before)
    (above : ∀ path ∈ before, mem.origin low < mem.origin path)
    (least : ∀ path ∈ after, mem.origin low ≤ mem.origin path) :
    ((before ++ low :: after).filter fun path => mem.origin path = mem.origin low).length <
      ((OriginPass.start (before ++ low :: after)).run mem.origin
        (before ++ low :: after)).kept.length := by
  have none : before.filter (fun path => mem.origin path = mem.origin low) = [] := by
    refine filter_eq_nil_iff.mpr fun path member same => ?_
    exact UInt8.lt_irrefl _ (of_decide_eq_true same ▸ above path member)
  have soFar := OriginSoFar.run mem.origin before (low :: after)
  rw [run_append, run_cons]
  generalize (OriginPass.start (before ++ low :: after)).run mem.origin before = pass at soFar ⊢
  obtain ⟨path, seen, attained⟩ : ∃ path ∈ before, mem.origin path = pass.minOrigin := by
    refine soFar.attained.elim (fun unused => ⟨first, there, ?_⟩) id
    exact UInt8.le_antisymm (unused.2 ▸ known) (soFar.least first there)
  have lower : mem.origin low < pass.minOrigin := attained ▸ above path seen
  have some : pass.idx ≠ 0 := by
    intro unused
    have kept := soFar.kept path seen attained
    simp [OriginPass.kept, unused] at kept
  have room := soFar.idx_le
  have long := soFar.length
  simp only [length_append, length_cons] at long
  rw [visit_better lower, (run_least ?_ least).1]
  · rw [filter_append, none, filter_cons_of_pos (by simp)]
    simp only [OriginPass.kept, length_append, length_take, length_set, length_cons, length_nil]
    omega
  · simp only [length_set]
    omega

/-- If the first known origin is not the lowest, the first of the lowest comes behind it. -/
theorem lowest_after (known : mem.origin first ≤ originMax)
    (unknown : ∀ path ∈ before, originMax < mem.origin path)
    (lower : ¬ ∀ path ∈ before ++ first :: after, mem.origin first ≤ mem.origin path) :
    ∃ mid low rest, after = mid ++ low :: rest ∧
      (∀ path ∈ before ++ first :: mid, mem.origin low < mem.origin path) ∧
      ∀ path ∈ rest, mem.origin low ≤ mem.origin path := by
  have behind : ∃ path ∈ after, mem.origin path < mem.origin first := by
    by_contra none
    simp only [not_exists, not_and, UInt8.not_lt] at none
    refine lower (forall_mem_append.mpr ⟨fun path member => ?_, ?_⟩)
    · exact UInt8.le_trans known (UInt8.le_of_lt (unknown path member))
    · exact forall_mem_cons.mpr ⟨UInt8.le_refl _, none⟩
  obtain ⟨path, member, below⟩ := behind
  obtain ⟨least, there, lowest⟩ := @LeastBy.nonempty _ (fun path => (mem.origin path).toNat)
    {other | other ∈ after} ⟨path, member⟩
  have some : (after.find? fun path => ∀ other ∈ after, mem.origin path ≤ mem.origin other).isSome :=
    find?_isSome.mpr ⟨least, there, decide_eq_true fun other member =>
      UInt8.le_iff_toNat_le.mpr (lowest other member)⟩
  obtain ⟨low, found⟩ := Option.isSome_iff_exists.mp some
  obtain ⟨isLow, mid, rest, split, earlier⟩ := find?_eq_some_iff_append.mp found
  have isLow := of_decide_eq_true isLow
  have belowFirst := UInt8.lt_of_le_of_lt (isLow path member) below
  refine ⟨mid, low, rest, split, forall_mem_append.mpr ⟨fun other there => ?_,
    forall_mem_cons.mpr ⟨belowFirst, fun other there => ?_⟩⟩, fun other there => ?_⟩
  · exact UInt8.lt_trans belowFirst (UInt8.lt_of_le_of_lt known (unknown other there))
  · have higher := earlier other there
    simp only [Bool.not_eq_true', decide_eq_false_iff_not, not_forall, UInt8.not_le] at higher
    obtain ⟨next, nextThere, lower⟩ := higher
    exact UInt8.lt_of_le_of_lt (isLow next nextThere) lower
  · exact isLow other (split ▸ mem_append_right _ (mem_cons_of_mem _ there))

/-- The lowest origins are kept exactly when the first known origin is the lowest. -/
theorem getRoutesWithLowestOrigin_keepsBest_iff (pruned : List PathSortIface)
    (reads : ∀ path ∈ paths, ∃ origin, (mem.path path).getOrigin = .ok origin) :
    KeepsBest (fun path => (mem.origin path).toNat) (getRoutesWithLowestOrigin mem) paths pruned ↔
      OriginsInOrder mem paths := by
  obtain ⟨less, run⟩ := @getRoutesWithLowestOrigin_run mem paths pruned reads
  rw [OriginsInOrder]
  cases found : paths.find? fun path => mem.origin path ≤ originMax with
  | none =>
    have unknown : ∀ path ∈ paths, originMax < mem.origin path := by
      simpa using find?_eq_none.mp found
    rw [run_unknown rfl unknown] at run
    constructor
    · -- All paths come back, and all are sorted out too.
      rintro ⟨kept, added, done, _, split⟩
      cases paths with
      | nil => rfl
      | cons path rest =>
        obtain ⟨rfl, sorted⟩ := Prod.mk.inj (Outcome.ok.inj (run.symm.trans done))
        rw [← append_cancel_left sorted] at split
        exact absurd split.length_eq (by simp [OriginPass.kept, OriginPass.start])
    · rintro rfl
      exact keepsBest_of_finish run (.of_short (Nat.zero_le 1)) (fun _ => rfl) (.refl _)
  | some first =>
    obtain ⟨known, before, after, rfl, unknown⟩ := find?_eq_some_iff_append.mp found
    have known := of_decide_eq_true known
    have unknown : ∀ path ∈ before, originMax < mem.origin path := by simpa using unknown
    constructor
    · rintro ⟨kept, added, done, keeps, _⟩
      by_contra lower
      obtain ⟨mid, low, rest, rfl, above, least⟩ := lowest_after known unknown lower
      have long := originKept_long known (mem_append_right _ mem_cons_self) above least
      rw [append_assoc, cons_append] at long
      have ends := congrArg Prod.fst (Outcome.ok.inj (run.symm.trans done))
      rw [finishPass, if_neg (by simpa using ne_nil_of_length_pos (Nat.zero_lt_of_lt long))] at ends
      -- More is kept than there are paths with the lowest origin.
      have isLow : low ∈ kept := by
        refine (keeps.mem_iff low).mpr ⟨by simp, fun path member => UInt8.le_iff_toNat_le.mp ?_⟩
        rw [← cons_append, ← append_assoc] at member
        rcases mem_append.mp member with early | late
        · exact UInt8.le_of_lt (above path early)
        · exact (mem_cons.mp late).elim (fun same => same ▸ UInt8.le_refl _) (least path)
      obtain ⟨bound, filtered, _, _⟩ := keeps
      rw [filtered] at isLow
      dsimp only at ends
      rw [ends, filtered, ← of_decide_eq_true (mem_filter.mp isLow).2] at long
      simp [UInt8.toNat_inj] at long
    · intro least
      have others : ∀ path ∈ before, mem.origin path ≠ mem.origin first := fun path member same =>
        UInt8.not_lt.mpr known (same ▸ unknown path member)
      obtain ⟨keeps, removes⟩ := kept_of_unknown_before unknown known fun path member =>
        least path (mem_append_right _ (mem_cons_of_mem _ member))
      rw [keeps, removes] at run
      refine keepsBest_of_finish run ⟨(mem.origin first).toNat, ?_, fun path member =>
        UInt8.le_iff_toNat_le.mp (least path member), by simp⟩ (by simp) ?_
      · have none : before.filter (fun path => mem.origin path = mem.origin first) = [] := by
          simpa using others
        simp [UInt8.toNat_inj, filter_append, none]
      · have halves := filter_append_perm (fun path => mem.origin path = mem.origin first) after
        rw [← funext fun path => decide_not (p := mem.origin path = mem.origin first)] at halves
        refine perm_middle.trans (((halves.symm.append_left before).trans ?_).cons first)
        exact perm_append_comm_assoc _ _ _

end Origins

/--
All six passes keep exactly the best paths and sort out the others, each once, just when the first
path with a known origin has the lowest one.
-/
theorem tie_breaks_keep_best_iff (pruned : List PathSortIface) (keyed : Keyed mem paths) :
    (KeepsBest mem.prefRank (getRoutesWithHighestPref mem) paths pruned ∧
      KeepsBest mem.asRank (getRoutesWithSmallestAS mem) paths pruned ∧
      KeepsBest (fun path => (mem.origin path).toNat) (getRoutesWithLowestOrigin mem) paths pruned ∧
      KeepsBest mem.idRank (getRoutesWithLowestBGPId mem) paths pruned ∧
      KeepsBest mem.clusterRank (getRoutesWithShorterClusterLen mem) paths pruned ∧
      KeepsBest mem.addressRank (getRoutesWithLowestPeerAddress mem) paths pruned) ↔
      OriginsInOrder mem paths := by
  rw [← getRoutesWithLowestOrigin_keepsBest_iff pruned keyed.origins]
  refine ⟨fun all => all.2.2.1, fun origins => ⟨?_, ?_, origins, ?_, ?_, ?_⟩⟩
  · exact (getRoutesWithHighestPref_sorts paths).keepsBest (fun _ _ => Nat.sub_le _ _) pruned
  · refine (getRoutesWithSmallestAS_sorts fun path member => ?_).keepsBest (fun path member => ?_) pruned
    · exact (keyed.ases path member).imp fun _ read => read.1
    · obtain ⟨count, read, few⟩ := keyed.ases path member
      simp only [Memory.asRank, read, Outcome.getD]
      omega
  · refine (getRoutesWithLowestBGPId_sorts keyed.ids).keepsBest (fun path _ => ?_) pruned
    exact Nat.le_of_lt_succ (UInt32.toNat_lt _)
  · refine (getRoutesWithShorterClusterLen_sorts keyed.clusters).keepsBest (fun path _ => ?_) pruned
    exact Nat.le_of_lt_succ (UInt16.toNat_lt _)
  · obtain ⟨size, sized⟩ := keyed.lengths
    refine (getRoutesWithLowestPeerAddress_sorts keyed.neighbors sized).keepsBest ?_ pruned
    exact fun path member => sized path member ▸ le_of_lt (bytesValue_lt _)

/-- The last two of the three paths, with the lower origin in front. -/
theorem tie_breaks_lower_first : Keyed threeMemory [2, 1] ∧ KeepsBest
    (fun path => (threeMemory.origin path).toNat) (getRoutesWithLowestOrigin threeMemory) [2, 1] [] := by
  have keyed : Keyed threeMemory [2, 1] := by
    refine ⟨?_, ?_, ?_, ?_, ?_, 4, by decide⟩
    all_goals
      simp only [mem_cons, not_mem_nil, or_false, forall_eq_or_imp, forall_eq]
    · exact ⟨⟨_, rfl, by decide⟩, _, rfl, by decide⟩
    all_goals exact ⟨⟨_, rfl⟩, _, rfl⟩
  have lowest : ∀ path ∈ [2, 1], threeMemory.origin 2 ≤ threeMemory.origin path := by decide
  exact ⟨keyed, ((tie_breaks_keep_best_iff [] keyed).mpr lowest).2.2.1⟩

/-- With the higher origin in front, the path with the lower one is kept twice. -/
theorem lower_origin_kept_twice : ¬ KeepsBest (fun path => (threeMemory.origin path).toNat)
    (getRoutesWithLowestOrigin threeMemory) [1, 2] [] := by
  rintro ⟨kept, added, done, _, split⟩
  have ends : _ = (kept, added) := Outcome.ok.inj done
  cases ends
  exact absurd split.length_eq (by decide)

end FlexSwitch.Rib
