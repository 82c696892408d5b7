import FlexSwitch.Least
import FlexSwitch.Rib.BestPath

/-! What each tie-breaking pass keeps of learned paths, in terms of ranks of the paths. -/

namespace FlexSwitch.Rib

open Go Packet List Outcome UInt32 Nat

variable {kept removed : List PathRef} {path : PathRef} {conf : NeighborConf}

namespace Memory

variable (mem : Memory) (path : PathRef)

/-- A higher preference ranks lower. -/
def prefRank : Nat := 0xffffffff - (mem.path path).pref.toNat

/-- All paths with more than 4096 AS numbers rank alike. -/
def asRank : Nat :=
  min ((mem.path path).getNumASes.getD 0).toNat 4097

/-- All origins past the last known one rank alike. -/
def originRank : Nat :=
  min ((mem.path path).getOrigin.getD 0).toNat 4

/-- Paths from neighbors in other systems rank before all others. -/
def kindRank : Nat :=
  if (mem.path path).isExternal mem then 0 else 1

def idRank : Nat := (((mem.path path).getBGPId mem).getD 0).toNat

def clusterRank : Nat :=
  ((mem.path path).getNumClusters.getD 0).toNat

/-- The address of the neighbor, empty for a path of our own. -/
def peerAddress : Bytes :=
  ((mem.path path).neighborConf.map fun ref => (mem.neighbors ref).neighborAddress).getD []

end Memory

/-- A path as a selection can read it: it was learned, and everything asked for is there. -/
structure Learned (mem : Memory) (protoFamily : UInt32) (path : PathRef) : Prop where
  neighbor : ∃ conf, mem.neighborOf (mem.path path) = .ok conf
  ases : ∃ count, (mem.path path).getNumASes = .ok count
  origin : ∃ origin, (mem.path path).getOrigin = .ok origin
  id : ∃ id, (mem.path path).getBGPId mem = .ok id
  clusters : ∃ count, (mem.path path).getNumClusters = .ok count
  reachable : ∃ info, (mem.path path).reachability protoFamily = .ok info

/-- It is known how the next hop of the path is reached. -/
def HasReachability (mem : Memory) (protoFamily : UInt32) (path : PathRef) : Prop :=
  ∃ info, (mem.path path).reachability protoFamily = .ok info

/-- What is left of some paths and what was sorted out, whose next hops are all known. -/
structure Contenders (mem : Memory) (protoFamily : UInt32) (all : List PathRef)
    (paths : List PathRef × List PathSortIface) : Prop where
  left : paths.1 ⊆ all
  sortedOut : ∀ sorted ∈ paths.2, ∀ path ∈ sorted.paths, HasReachability mem protoFamily path

/-- A pass over contenders returns, leaves of them what it should, and adds none. -/
def Leaves (mem : Memory) (protoFamily : UInt32) (all : List PathRef)
    (pass : List PathRef → List PathSortIface → Call (List PathRef × List PathSortIface))
    (Spec : List PathRef → List PathRef → Prop) : Prop :=
  ∀ paths, Contenders mem protoFamily all paths → ∃ result, pass paths.1 paths.2 = .ok result ∧
    Spec paths.1 result.1 ∧ Contenders mem protoFamily all result

section Contenders

variable {mem : Memory} {protoFamily : UInt32} {all : List PathRef}
  {paths : List PathRef × List PathSortIface}

/-- A pass that is left out changes nothing, and then there was at most one path. -/
theorem Leaves.whenTied
    {pass : List PathRef → List PathSortIface → Call (List PathRef × List PathSortIface)}
    {Spec : List PathRef → List PathRef → Prop} (leaves : Leaves mem protoFamily all pass Spec)
    (short : ∀ {paths : List PathRef}, paths.length ≤ 1 → Spec paths paths)
    (contenders : Contenders mem protoFamily all paths) :
    ∃ result, whenTied pass paths = .ok result ∧ Spec paths.1 result.1 ∧
      Contenders mem protoFamily all result := by
  unfold Rib.whenTied
  split
  case isTrue => exact leaves paths contenders
  case isFalse alone => exact ⟨paths, rfl, short (not_lt.mp alone), contenders⟩

variable (learned : ∀ path ∈ all, Learned mem protoFamily path)

include learned in
/-- Sorting out some of the paths makes none up. -/
theorem Contenders.prune (contenders : Contenders mem protoFamily all paths)
    (keptPart : kept ⊆ paths.1) (removedPart : removed ⊆ paths.1)
    (less : PathRef → PathRef → Bool) :
    Contenders mem protoFamily all
      (kept, if removed.isEmpty then paths.2 else paths.2 ++ [⟨removed, less⟩]) := by
  refine ⟨fun path member => contenders.left (keptPart member), ?_⟩
  intro sorted member path there
  dsimp only at member
  split at member
  · exact contenders.sortedOut sorted member path there
  · rcases mem_append.mp member with member | member
    · exact contenders.sortedOut sorted member path there
    · cases mem_singleton.mp member
      exact (learned path (contenders.left (removedPart there))).reachable

end Contenders

/-- What a pass that keeps the lowest rank, up to some top, knows about the paths it has seen. -/
structure KeptSoFar (top : Nat) (rank : PathRef → Nat) (seen : List PathRef) (best : Nat)
    (kept removed : List PathRef) : Prop where
  keeps : kept = seen.filter fun path => rank path = best
  split : seen ~ kept ++ removed
  least : ∀ path ∈ seen, best ≤ rank path ∧ rank path ≤ top + 1
  bounded : best ≤ top
  unimproved : kept = [] → best = top

/-- A pass over the paths ends with what it knows about them. -/
def Sorts (top : Nat) (rank : PathRef → Nat)
    (pass : List PathRef → List PathSortIface → Call (List PathRef × List PathSortIface))
    (paths : List PathRef) : Prop :=
  ∀ pruned, ∃ best kept removed less, pass paths pruned =
    .ok (finishPass paths kept removed less pruned) ∧ KeptSoFar top rank paths best kept removed

section Sorts

variable {top best : Nat} {rank : PathRef → Nat} {seen : List PathRef}

namespace KeptSoFar

theorem nil (top : Nat) (rank : PathRef → Nat) : KeptSoFar top rank [] top [] [] :=
  ⟨rfl, .refl _, by simp, le_refl _, fun _ => rfl⟩

variable (soFar : KeptSoFar top rank seen best kept removed)

include soFar

theorem worse (worse : best < rank path) (clipped : rank path ≤ top + 1) :
    KeptSoFar top rank (seen ++ [path]) best kept (removed ++ [path]) where
  keeps := by
    rw [filter_append, ← soFar.keeps, filter_cons_of_neg (by simpa using ne_of_gt worse)]
    simp
  split := append_assoc kept removed [path] ▸ soFar.split.append_right [path]
  least := forall_snoc soFar.least ⟨le_of_lt worse, clipped⟩
  bounded := soFar.bounded
  unimproved := soFar.unimproved

/-- A better path is all that is kept, for what was seen before ranks above it. -/
theorem better (better : rank path < best) :
    KeptSoFar top rank (seen ++ [path]) (rank path) [path] (removed ++ kept) where
  keeps := by
    have others : seen.filter (fun other => rank other = rank path) = [] := by
      refine filter_eq_nil_iff.mpr fun other member => ?_
      have above := (soFar.least other member).1
      simp only [decide_eq_true_eq]
      omega
    simp [filter_append, others]
  split := (soFar.split.append_right [path]).trans
    (perm_append_comm.trans (perm_append_comm.append_left [path]))
  least := by
    have bounded := soFar.bounded
    refine forall_snoc (fun other member => ?_) (by omega)
    have above := soFar.least other member
    omega
  bounded := le_trans (le_of_lt better) soFar.bounded
  unimproved := by simp

theorem same (same : rank path = best) :
    KeptSoFar top rank (seen ++ [path]) best (kept ++ [path]) removed where
  keeps := by simp [soFar.keeps, filter_append, same]
  split := by
    refine (soFar.split.append_right [path]).trans ?_
    rw [append_assoc, append_assoc]
    exact perm_append_comm.append_left kept
  least := by
    have bounded := soFar.bounded
    exact forall_snoc soFar.least (by omega)
  bounded := soFar.bounded
  unimproved := by simp

/-- If no path was as good as the rank the pass started from, all rank alike. -/
theorem keepsLeast : KeepsLeast rank seen (if kept.isEmpty then seen else kept) := by
  cases kept with
  | cons first rest =>
    exact ⟨best, soFar.keeps, fun path member => (soFar.least path member).1, by simp⟩
  | nil =>
    have start := soFar.unimproved rfl
    have nothing := filter_eq_nil_iff.mp soFar.keeps.symm
    have all : ∀ path ∈ seen, rank path = top + 1 := by
      intro path member
      have least := soFar.least path member
      have other := nothing path member
      simp only [decide_eq_true_eq] at other
      omega
    refine ⟨top + 1, ?_, fun path member => le_of_eq (all path member).symm, by simp⟩
    rw [isEmpty_nil, if_pos rfl, filter_eq_self.mpr]
    exact fun path member => decide_eq_true (all path member)

end KeptSoFar

theorem Sorts.leaves {mem : Memory} {protoFamily : UInt32} {all : List PathRef}
    {pass : List PathRef → List PathSortIface → Call (List PathRef × List PathSortIface)}
    (learned : ∀ path ∈ all, Learned mem protoFamily path)
    (sorts : ∀ paths ⊆ all, Sorts top rank pass paths) :
    Leaves mem protoFamily all pass (KeepsLeast rank) := by
  intro paths contenders
  obtain ⟨best, kept, removed, less, run, soFar⟩ := sorts paths.1 contenders.left paths.2
  refine ⟨_, run, soFar.keepsLeast, contenders.prune learned soFar.keepsLeast.sublist.subset ?_ less⟩
  exact fun path member => soFar.split.mem_iff.mpr (mem_append_right _ member)

end Sorts

section KeepBest

variable {κ : Type} {better : κ → κ → Bool} {start : κ} {key : PathRef → Call κ}
  {rank : PathRef → Nat} {mem : Memory} {paths : List PathRef}

/-- A pass that can read every key keeps the paths of least rank. -/
theorem keepBest_sorts (keyRank : κ → Nat)
    (ranked : ∀ left right, better left right = true ↔ keyRank left < keyRank right)
    (read : ∀ path ∈ paths, ∃ value, key path = .ok value ∧
      rank path = min (keyRank value) (keyRank start + 1)) :
    Sorts (keyRank start) rank (keepBest better start key) paths := by
  intro pruned
  obtain ⟨pass, folded, soFar⟩ := @foldlM_total _ _ _
    (fun (pass : Pass κ) path => do return pass.visit better path (← key path)) paths ⟨start, [], []⟩
    (fun seen pass => KeptSoFar (keyRank start) rank seen (keyRank pass.best) pass.kept pass.removed)
    (.nil _ _) (by
      intro seen path rest pass split soFar
      obtain ⟨value, reads, here⟩ := read path (by simp [split])
      refine ⟨_, by rw [reads]; rfl, ?_⟩
      have bounded := soFar.bounded
      -- The key is worse than the best one, better, or the same.
      unfold Pass.visit
      by_cases worse : keyRank pass.best < keyRank value
      · rw [if_pos ((ranked _ _).mpr worse)]
        exact soFar.worse (by omega) (by omega)
      rw [if_neg (fun holds => worse ((ranked _ _).mp holds))]
      by_cases improves : keyRank value < keyRank pass.best
      · rw [if_pos ((ranked _ _).mpr improves)]
        have sameRank : rank path = keyRank value := by omega
        exact sameRank ▸ soFar.better (by omega)
      · rw [if_neg (fun holds => improves ((ranked _ _).mp holds))]
        exact soFar.same (by omega))
  exact ⟨_, _, _, _, bind_eq_ok.mpr ⟨pass, folded, rfl⟩, soFar⟩

/-- The pass over the preferences reads them without a check, and keeps the highest. -/
theorem getRoutesWithHighestPref_sorts (paths : List PathRef) :
    Sorts 0xffffffff mem.prefRank (getRoutesWithHighestPref mem) paths := by
  refine keepBest_sorts (fun pref : UInt32 => 0xffffffff - pref.toNat) ?_ ?_
  · -- A preference has 32 bits, so counting down from the highest one loses nothing.
    intro left right
    have leftFits := left.toNat_lt
    have rightFits := right.toNat_lt
    simp only [gt_iff_lt, decide_eq_true_eq, UInt32.lt_iff_toNat_lt]
    omega
  · refine fun path _ => ⟨_, rfl, ?_⟩
    simp only [Memory.prefRank, UInt32.toNat_zero]
    omega

/-- The pass over the AS counts keeps the shortest, and all of them when all are too long. -/
theorem getRoutesWithSmallestAS_sorts
    (ases : ∀ path ∈ paths, ∃ count, (mem.path path).getNumASes = .ok count) :
    Sorts 4096 mem.asRank (getRoutesWithSmallestAS mem) paths := by
  refine keepBest_sorts toNat ?_ ?_
  · intro left right
    simp [lt_iff_toNat_lt]
  · intro path member
    obtain ⟨count, read⟩ := ases path member
    exact ⟨count, read, by simp [Memory.asRank, read, Outcome.getD]⟩

/-- No id lies above the one the pass starts from. -/
theorem getRoutesWithLowestBGPId_sorts
    (ids : ∀ path ∈ paths, ∃ id, (mem.path path).getBGPId mem = .ok id) :
    Sorts 0xffffffff mem.idRank (getRoutesWithLowestBGPId mem) paths := by
  refine keepBest_sorts toNat ?_ ?_
  · intro left right
    simp [lt_iff_toNat_lt]
  · intro path member
    obtain ⟨id, read⟩ := ids path member
    have fits := id.toNat_lt
    refine ⟨id, read, ?_⟩
    simp only [Memory.idRank, read, Outcome.getD, reduceToNat]
    omega

/-- No cluster list is longer than the one the pass starts from. -/
theorem getRoutesWithShorterClusterLen_sorts
    (clusters : ∀ path ∈ paths, ∃ count, (mem.path path).getNumClusters = .ok count) :
    Sorts 0xffff mem.clusterRank (getRoutesWithShorterClusterLen mem) paths := by
  refine keepBest_sorts UInt16.toNat ?_ ?_
  · intro left right
    simp [UInt16.lt_iff_toNat_lt]
  · intro path member
    obtain ⟨count, read⟩ := clusters path member
    have fits := count.toNat_lt
    refine ⟨count, read, ?_⟩
    simp only [Memory.clusterRank, read, Outcome.getD, UInt16.reduceToNat]
    omega

end KeepBest

variable {paths : List PathRef}

section Kind

variable {mem : Memory}

/-- Moving the last path to the front changes nothing but the order. -/
theorem rotated_perm (paths : List PathRef) :
    (paths.getLast?.toList ++ paths.dropLast).Perm paths := by
  rcases eq_nil_or_concat paths with rfl | ⟨before, last, rfl⟩
  · simp
  · simpa using (perm_append_singleton last before).symm

/-- A path with a neighbor is external exactly when it is not internal. -/
theorem isExternal_of_neighborOf (neighbor : mem.neighborOf (mem.path path) = .ok conf) :
    (mem.path path).isExternal mem = !conf.isInternal := by
  obtain ⟨ref, pointer, same⟩ := bind_eq_ok.mp neighbor
  cases same
  rw [Path.isExternal, deref_eq_ok.mp pointer, Option.any_some, NeighborConf.isExternal,
    NeighborConf.isInternal, bne_comm]
  rfl

/-- A list of which a pass leaves the elements of least rank, in any order. -/
def Narrows (rank : PathRef → Nat) (paths kept : List PathRef) : Prop :=
  ∀ path, path ∈ kept ↔ path ∈ LeastBy rank {other | other ∈ paths}

theorem Narrows.ne_nil {rank : PathRef → Nat}
    (narrows : Narrows rank paths kept) (nonempty : paths ≠ []) : kept ≠ [] := by
  obtain ⟨path, least⟩ := @LeastBy.nonempty _ rank {other | other ∈ paths}
    (exists_mem_of_ne_nil _ nonempty)
  exact ne_nil_of_mem ((narrows path).mpr least)

/-- The sweep returns when every path has a neighbor, and the external paths stay. -/
theorem sweepInternal_ok {steps : Nat} (enough : paths.length ≤ steps)
    (neighbors : ∀ path ∈ paths, ∃ conf, mem.neighborOf (mem.path path) = .ok conf) :
    ∃ result, sweepInternal mem steps paths = .ok result ∧ result.2 ⊆ paths ∧
      ∀ path, path ∈ result.1 ↔ path ∈ paths ∧ (mem.path path).isExternal mem = true := by
  -- The induction is on the steps, each of which takes one path off the list.
  induction steps generalizing paths with
  | zero =>
    cases length_eq_zero_iff.mp (le_zero.mp enough)
    exact ⟨_, rfl, by simp, by simp⟩
  | succ steps ih =>
    rcases paths with _ | ⟨path, rest⟩
    · exact ⟨_, rfl, by simp, by simp⟩
    have fewer : rest.length ≤ steps := le_of_succ_le_succ enough
    obtain ⟨conf, neighbor⟩ := neighbors path mem_cons_self
    have others : ∀ other ∈ rest, ∃ conf, mem.neighborOf (mem.path other) = .ok conf :=
      fun other member => neighbors other (mem_cons_of_mem _ member)
    have external := isExternal_of_neighborOf neighbor
    simp only [sweepInternal, neighbor, ok_bind]
    split
    case isTrue internal =>
      -- The path goes, and the last one is looked at in its place.
      have perm := rotated_perm rest
      obtain ⟨⟨kept, removed⟩, swept, part, stays⟩ := ih (by rw [perm.length_eq]; exact fewer)
        fun other member => others other (perm.mem_iff.mp member)
      refine ⟨_, by rw [swept]; rfl, ?_, fun other => ?_⟩
      · exact cons_subset_cons _ fun other member => perm.mem_iff.mp (part member)
      · rw [stays, perm.mem_iff, mem_cons]
        constructor
        · exact fun holds => ⟨.inr holds.1, holds.2⟩
        · rintro ⟨rfl | member, isExternal⟩
          · rw [external, internal] at isExternal
            cases isExternal
          · exact ⟨member, isExternal⟩
    case isFalse notInternal =>
      obtain ⟨⟨kept, removed⟩, swept, part, stays⟩ := ih fewer others
      have isExternal : (mem.path path).isExternal mem = true := by
        rw [external, Bool.eq_false_of_not_eq_true notInternal]
        rfl
      refine ⟨(path :: kept, removed), by rw [swept]; rfl,
        fun other member => mem_cons_of_mem _ (part member), ?_⟩
      intro other
      rw [mem_cons, mem_cons, stays]
      constructor
      · rintro (rfl | holds)
        · exact ⟨.inl rfl, isExternal⟩
        · exact ⟨.inr holds.1, holds.2⟩
      · rintro ⟨rfl | member, holds⟩
        · exact .inl rfl
        · exact .inr ⟨member, holds⟩

/-- When a path is external, the least paths by kind are the external ones. -/
theorem mem_least_kind
    (hasExternal : ∃ path ∈ paths, (mem.path path).isExternal mem = true) (path : PathRef) :
    path ∈ LeastBy mem.kindRank {other | other ∈ paths} ↔
      path ∈ paths ∧ (mem.path path).isExternal mem = true := by
  obtain ⟨witness, member, external⟩ := hasExternal
  constructor
  · intro least
    refine ⟨least.1, ?_⟩
    have atMost := least.2 witness member
    by_contra internal
    simp [Memory.kindRank, external, internal] at atMost
  · rintro ⟨there, isExternal⟩
    exact ⟨there, fun other _ => by simp [Memory.kindRank, isExternal]⟩

/-- The pass over the kinds keeps the external paths if there are any. -/
theorem removeIBGPRoutesIfEBGPExist_leaves {protoFamily : UInt32} {all : List PathRef}
    (learned : ∀ path ∈ all, Learned mem protoFamily path) :
    Leaves mem protoFamily all (removeIBGPRoutesIfEBGPExist mem) (Narrows mem.kindRank) := by
  rintro ⟨paths, pruned⟩ contenders
  unfold removeIBGPRoutesIfEBGPExist
  split
  case isTrue any =>
    obtain ⟨⟨kept, removed⟩, swept, part, stays⟩ := sweepInternal_ok (le_refl _)
      fun path member => (learned path (contenders.left member)).neighbor
    refine ⟨_, bind_eq_ok.mpr ⟨_, swept, rfl⟩, fun path => ?_,
      contenders.prune learned (fun path member => ((stays path).mp member).1) part _⟩
    rw [mem_least_kind (any_eq_true.mp any), stays]
  case isFalse noneExternal =>
    -- Without an external path all rank alike, and the list stays as it is.
    have all : ∀ path ∈ paths, (mem.path path).isExternal mem = false := by
      intro path member
      by_contra external
      exact noneExternal (any_eq_true.mpr ⟨path, member, by simpa using external⟩)
    refine ⟨_, rfl, fun path => ⟨fun member => ⟨member, fun other there => ?_⟩, fun least => least.1⟩,
      contenders⟩
    simp [Memory.kindRank, all _ member, all _ there]

end Kind

section Address

/-- An address read as one number, its first byte the highest. -/
def bytesValue : Bytes → Nat
  | [] => 0
  | byte :: rest => byte.toNat * 256 ^ rest.length + bytesValue rest

theorem bytesValue_lt (bytes : Bytes) : bytesValue bytes < 256 ^ bytes.length := by
  induction bytes with
  | nil => simp [bytesValue]
  | cons byte rest ih =>
    have fits : byte.toNat ≤ 255 := le_of_lt_succ byte.toNat_lt
    have scaled := mul_le_mul_right (256 ^ rest.length) fits
    simp only [bytesValue, length_cons, pow_succ]
    omega

theorem bytesValue_cons_lt {low high : UInt8} {lows highs : Bytes} (below : low < high)
    (same : lows.length = highs.length) : bytesValue (low :: lows) < bytesValue (high :: highs) := by
  have rest := bytesValue_lt lows
  have step : low.toNat + 1 ≤ high.toNat := UInt8.lt_iff_toNat_lt.mp below
  have scaled := mul_le_mul_right (256 ^ highs.length) step
  simp only [bytesValue, same, add_mul] at *
  omega

/-- Addresses of one length are compared as numbers. -/
theorem compareBytes_eq {left right : Bytes} (same : left.length = right.length) :
    compareBytes left right = compare (bytesValue left) (bytesValue right) := by
  induction left generalizing right with
  | nil =>
    cases length_eq_zero_iff.mp same.symm
    simp [compareBytes, bytesValue]
  | cons first rest ih =>
    rcases right with _ | ⟨other, others⟩
    · cases same
    have lengths : rest.length = others.length := Nat.succ.inj same
    unfold compareBytes
    rcases Std.lt_trichotomy first other with below | rfl | above
    · rw [if_pos below]
      exact (Nat.compare_eq_lt.mpr (bytesValue_cons_lt below lengths)).symm
    · -- The first bytes add the same to both numbers.
      rw [if_neg (UInt8.lt_irrefl _), if_neg (UInt8.lt_irrefl _), ih lengths]
      simp only [bytesValue, lengths, compare_eq_ite_lt]
      split_ifs <;> first | rfl | omega
    · rw [if_neg (UInt8.lt_asymm above), if_pos above]
      exact (Nat.compare_eq_gt.mpr (bytesValue_cons_lt above lengths.symm)).symm

/-- Two addresses of one length with the same number are the same. -/
theorem bytesValue_inj {left right : Bytes} (lengths : left.length = right.length)
    (same : bytesValue left = bytesValue right) : left = right := by
  induction left generalizing right with
  | nil => exact (length_eq_zero_iff.mp lengths.symm).symm
  | cons first rest ih =>
    rcases right with _ | ⟨other, others⟩
    · cases lengths
    have restLengths : rest.length = others.length := Nat.succ.inj lengths
    -- Different first bytes would make different numbers.
    rcases Std.lt_trichotomy first other with below | rfl | above
    · exact absurd same (Nat.ne_of_lt (bytesValue_cons_lt below restLengths))
    · simp only [bytesValue, restLengths, add_left_cancel_iff] at same
      rw [ih restLengths same]
    · exact absurd same (ne_of_gt (bytesValue_cons_lt above restLengths.symm))

/-- The address of the neighbor as a number. -/
def Memory.addressRank (mem : Memory) (path : PathRef) : Nat := bytesValue (mem.peerAddress path)

variable {mem : Memory}

theorem peerAddress_of_neighborOf (neighbor : mem.neighborOf (mem.path path) = .ok conf) :
    mem.peerAddress path = conf.neighborAddress := by
  obtain ⟨ref, pointer, same⟩ := bind_eq_ok.mp neighbor
  cases same
  simp [Memory.peerAddress, deref_eq_ok.mp pointer]

/-- A round compares the path with the one in front, which is the lowest seen before. -/
theorem KeptSoFar.addressVisit {top best : Nat} {seen : List PathRef}
    (soFar : KeptSoFar top mem.addressRank seen best kept removed)
    (neighbors : ∀ other ∈ seen ++ [path], ∃ conf, mem.neighborOf (mem.path other) = .ok conf)
    (lengths : ∀ other ∈ seen ++ [path],
      (mem.peerAddress path).length = (mem.peerAddress other).length)
    (below : mem.addressRank path ≤ top) :
    ∃ next, Rib.addressVisit mem (kept, removed) path = .ok next ∧
      ∃ best, KeptSoFar top mem.addressRank (seen ++ [path]) best next.1 next.2 := by
  have compared : ∀ front ∈ seen ++ [path], ∃ conf frontConf,
      mem.neighborOf (mem.path path) = .ok conf ∧ mem.neighborOf (mem.path front) = .ok frontConf ∧
      compareNeighborAddress conf.neighborAddress frontConf.neighborAddress =
        compare (mem.addressRank path) (mem.addressRank front) := by
    intro front member
    obtain ⟨conf, neighbor⟩ := neighbors path (by simp)
    obtain ⟨frontConf, frontNeighbor⟩ := neighbors front member
    have same := lengths front member
    refine ⟨conf, frontConf, neighbor, frontNeighbor, ?_⟩
    rw [← peerAddress_of_neighborOf neighbor, ← peerAddress_of_neighborOf frontNeighbor,
      compareNeighborAddress, if_neg (not_not.mpr same), compareBytes_eq same]
    rfl
  cases kept with
  | nil =>
    obtain ⟨conf, frontConf, neighbor, frontNeighbor, order⟩ := compared path (by simp)
    obtain rfl := Outcome.ok.inj (neighbor.symm.trans frontNeighbor)
    simp only [Rib.addressVisit, headD_nil, neighbor, ok_bind, order, Nat.compare_eq_eq.mpr]
    refine ⟨_, rfl, ?_⟩
    have start := soFar.unimproved rfl
    rcases Nat.lt_or_ge (mem.addressRank path) best with lower | notLower
    · have soFar := soFar.better lower
      rw [append_nil] at soFar
      exact ⟨_, soFar⟩
    · exact ⟨_, soFar.same (by omega)⟩
  | cons first rest =>
    have member : first ∈ seen.filter fun path => mem.addressRank path = best :=
      soFar.keeps ▸ mem_cons_self
    obtain ⟨there, level⟩ := mem_filter.mp member
    obtain ⟨conf, frontConf, neighbor, frontNeighbor, order⟩ :=
      compared first (mem_append_left _ there)
    simp only [Rib.addressVisit, headD_cons, neighbor, frontNeighbor, ok_bind, order,
      of_decide_eq_true level]
    rcases Nat.lt_trichotomy _ best with lower | same | higher
    · rw [Nat.compare_eq_lt.mpr lower]
      exact ⟨_, rfl, _, soFar.better lower⟩
    · rw [Nat.compare_eq_eq.mpr same]
      exact ⟨_, rfl, _, soFar.same same⟩
    · rw [Nat.compare_eq_gt.mpr higher]
      exact ⟨_, rfl, _, soFar.worse higher (by omega)⟩

/-- The pass over addresses of one length keeps the paths with the lowest one. -/
theorem getRoutesWithLowestPeerAddress_sorts {size : Nat}
    (neighbors : ∀ path ∈ paths, ∃ conf, mem.neighborOf (mem.path path) = .ok conf)
    (lengths : ∀ path ∈ paths, (mem.peerAddress path).length = size) :
    Sorts (256 ^ size) mem.addressRank (getRoutesWithLowestPeerAddress mem) paths := by
  intro pruned
  obtain ⟨⟨kept, removed⟩, folded, best, soFar⟩ := @foldlM_total _ _ _
    (addressVisit mem) paths ([], [])
    (fun seen pass => ∃ best, KeptSoFar _ mem.addressRank seen best pass.1 pass.2)
    ⟨_, .nil _ _⟩ (by
      rintro seen path rest ⟨kept, removed⟩ split ⟨best, soFar⟩
      have inside : ∀ other ∈ seen ++ [path], other ∈ paths := fun other member => by
        rw [split, append_cons]
        exact mem_append_left _ member
      have here := lengths path (inside path (by simp))
      exact soFar.addressVisit (fun other member => neighbors other (inside other member))
        (fun other member => here.trans (lengths other (inside other member)).symm)
        (here ▸ le_of_lt (bytesValue_lt _)))
  exact ⟨_, _, _, _, bind_eq_ok.mpr ⟨_, folded, rfl⟩, soFar⟩

end Address

end FlexSwitch.Rib
