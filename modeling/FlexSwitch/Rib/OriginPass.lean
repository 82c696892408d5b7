import FlexSwitch.Rib.Passes

/-! The pass over the origins, which can keep paths whose origin is not the lowest. -/

namespace FlexSwitch.Rib

open Go Packet List UInt8 OriginPass

variable {after : List PathRef} {one : PathRef} {lowest : UInt8}

/-- The origin of a path that has a readable one. -/
def Memory.origin (mem : Memory) (path : PathRef) : UInt8 := (mem.path path).getOrigin.getD 0

/-- The paths of a list with the lowest origin. -/
abbrev Memory.leastOrigin (mem : Memory) (paths : List PathRef) : Set PathRef :=
  LeastBy mem.originRank {other | other ∈ paths}

variable {pass : OriginPass} {path : PathRef}

namespace OriginPass

/-- The paths that count at the end of the pass. -/
def kept (pass : OriginPass) : List PathRef := pass.updatedPaths.take pass.idx

/-- The loop of the pass over a part of the paths, with their origins at hand. -/
def run (origin : PathRef → UInt8) (pass : OriginPass) (paths : List PathRef) : OriginPass :=
  paths.foldl (fun pass path => pass.visit path (origin path)) pass

/-- Where the pass starts. -/
def start (paths : List PathRef) : OriginPass := ⟨originMax, paths, 0, []⟩

section

variable (origin : PathRef → UInt8) (pass : OriginPass)

@[simp] theorem run_nil : pass.run origin [] = pass := rfl

@[simp] theorem run_cons (path : PathRef) (paths : List PathRef) :
    pass.run origin (path :: paths) = (pass.visit path (origin path)).run origin paths := rfl

@[simp] theorem run_append (before after : List PathRef) :
    pass.run origin (before ++ after) = (pass.run origin before).run origin after :=
  foldl_append ..

end

section Rounds

variable {pass : OriginPass} {path : PathRef} {origin : UInt8}

theorem visit_worse (worse : pass.minOrigin < origin) :
    pass.visit path origin = { pass with removed := pass.removed ++ [path] } := if_pos worse

/-- A better origin takes the first place, and one more place counts. -/
theorem visit_better (better : origin < pass.minOrigin) : pass.visit path origin =
      ⟨origin, pass.updatedPaths.set 0 path, pass.idx + 1,
        pass.removed ++ pass.updatedPaths.take pass.idx⟩ := by
  rw [visit, if_neg (UInt8.lt_asymm better), if_pos better]

theorem visit_same (same : origin = pass.minOrigin) : pass.visit path origin =
      { pass with updatedPaths := pass.updatedPaths.set pass.idx path, idx := pass.idx + 1 } := by
  rw [visit, if_neg (same ▸ UInt8.lt_irrefl _), if_neg (same ▸ UInt8.lt_irrefl _)]

end Rounds

theorem kept_same (room : pass.idx < pass.updatedPaths.length) :
    kept { pass with updatedPaths := pass.updatedPaths.set pass.idx path, idx := pass.idx + 1 } =
      pass.kept ++ [path] := by
  simp only [kept]
  rw [take_add_one, take_set_of_le (le_refl _), getElem?_set_self room]
  rfl

/-- Without a lower origin, every path that has the lowest one goes to the next place. -/
theorem run_least {origin : PathRef → UInt8} {paths : List PathRef}
    (room : pass.idx + paths.length ≤ pass.updatedPaths.length)
    (least : ∀ path ∈ paths, pass.minOrigin ≤ origin path) :
    (pass.run origin paths).kept =
        pass.kept ++ paths.filter (fun path => origin path = pass.minOrigin) ∧
      (pass.run origin paths).removed =
        pass.removed ++ paths.filter fun path => origin path ≠ pass.minOrigin := by
  induction paths generalizing pass with
  | nil => simp
  | cons path paths ih =>
    rw [length_cons] at room
    have later : ∀ other ∈ paths, pass.minOrigin ≤ origin other :=
      fun other member => least other (mem_cons_of_mem _ member)
    rw [run_cons]
    rcases Std.lt_trichotomy _ pass.minOrigin with better | same | worse
    · exact absurd better (UInt8.not_lt.mpr (least path mem_cons_self))
    · rw [visit_same same, (ih ?_ ?_).1, (ih ?_ ?_).2, kept_same (by omega)]
      · simp [same]
      all_goals first | exact later | (simp only [length_set]; omega)
    · have differ : origin path ≠ pass.minOrigin := fun same => UInt8.lt_irrefl _ (same ▸ worse)
      rw [visit_worse worse, (ih ?_ ?_).1, (ih ?_ ?_).2]
      · simp [differ, kept]
      all_goals first | exact later | (simp only; omega)

end OriginPass

/-- What the pass over the origins knows about the paths it has seen of a list. -/
structure OriginSoFar (origin : PathRef → UInt8) (paths seen : List PathRef) (pass : OriginPass) :
    Prop where
  length : pass.updatedPaths.length = paths.length
  idx_le : pass.idx ≤ seen.length
  subset : pass.updatedPaths ⊆ paths
  removed : pass.removed ⊆ paths
  kept : ∀ path ∈ seen, origin path = pass.minOrigin → path ∈ pass.kept
  least : ∀ path ∈ seen, pass.minOrigin ≤ origin path
  bounded : pass.minOrigin ≤ originMax
  attained : (pass.idx = 0 ∧ pass.minOrigin = originMax) ∨
    ∃ path ∈ seen, origin path = pass.minOrigin

namespace OriginSoFar

variable {origin : PathRef → UInt8} {paths seen : List PathRef} {pass : OriginPass}

theorem start (paths : List PathRef) : OriginSoFar origin paths [] (.start paths) where
  length := rfl
  idx_le := le_refl _
  subset := List.Subset.refl _
  removed := by simp [OriginPass.start]
  kept := by simp
  least := by simp
  bounded := UInt8.le_refl _
  attained := .inl ⟨rfl, rfl⟩

/-- A path is removed, or put first as the best so far, or kept behind the others. -/
theorem visit (soFar : OriginSoFar origin paths seen pass)
    (member : path ∈ paths) (room : seen.length < paths.length) :
    OriginSoFar origin paths (seen ++ [path]) (pass.visit path (origin path)) := by
  have count : (seen ++ [path]).length = seen.length + 1 := by simp
  have idx_le := soFar.idx_le
  have length := soFar.length
  have last : path ∈ seen ++ [path] := by simp
  rcases Std.lt_trichotomy _ pass.minOrigin with better | same | worse
  · -- Nothing seen before has the new origin, and the path itself is put in front.
    rw [visit_better better]
    refine ⟨by simpa using length, by simp only; omega, ?_, ?_, ?_, ?_, ?_, .inr ⟨path, last, rfl⟩⟩
    · intro other there
      rcases mem_or_eq_of_mem_set there with there | rfl
      · exact soFar.subset there
      · exact member
    · exact append_subset.mpr ⟨soFar.removed, fun _ there =>
        soFar.subset (mem_of_mem_take there)⟩
    · refine forall_snoc (fun other there same => ?_) (fun _ => ?_)
      · have atLeast := soFar.least other there
        rw [same] at atLeast
        exact absurd better (UInt8.not_lt.mpr atLeast)
      · cases array : pass.updatedPaths with
        | nil =>
          rw [array, length_nil] at length
          omega
        | cons => simp [OriginPass.kept]
    · exact forall_snoc (fun other there =>
        UInt8.le_trans (UInt8.le_of_lt better) (soFar.least other there)) (UInt8.le_refl _)
    · exact UInt8.le_trans (UInt8.le_of_lt better) soFar.bounded
  · -- The path goes to the place behind those that count.
    rw [visit_same same]
    have inside : pass.idx < pass.updatedPaths.length := by omega
    refine ⟨by simpa using length, by simp only; omega, ?_, soFar.removed, ?_, ?_, soFar.bounded,
      .inr ⟨path, last, same⟩⟩
    · intro other there
      rcases mem_or_eq_of_mem_set there with there | rfl
      · exact soFar.subset there
      · exact member
    · rw [kept_same inside]
      exact forall_snoc (fun other there equal => mem_append_left _ (soFar.kept other there equal))
        (fun _ => by simp)
    · exact forall_snoc soFar.least (UInt8.le_of_eq same.symm)
  · rw [visit_worse worse]
    refine ⟨length, by simp only; omega, soFar.subset, ?_, ?_, ?_, soFar.bounded, ?_⟩
    · exact append_subset.mpr ⟨soFar.removed, by simpa using member⟩
    · exact forall_snoc soFar.kept fun same => absurd worse (same ▸ UInt8.lt_irrefl _)
    · exact forall_snoc soFar.least (UInt8.le_of_lt worse)
    · refine soFar.attained.imp_right ?_
      rintro ⟨other, there, same⟩
      exact ⟨other, mem_append_left _ there, same⟩

/-- The loop keeps up what it knows, for any part of the list. -/
theorem run (origin : PathRef → UInt8) (seen rest : List PathRef) :
    OriginSoFar origin (seen ++ rest) seen ((OriginPass.start (seen ++ rest)).run origin seen) := by
  induction seen using reverseRecOn generalizing rest with
  | nil => exact start rest
  | append_singleton seen path ih =>
    rw [append_assoc, run_append]
    exact (ih _).visit (by simp) (by simp)

theorem run_all (origin : PathRef → UInt8) (paths : List PathRef) :
    OriginSoFar origin paths paths ((OriginPass.start paths).run origin paths) := by
  simpa using run origin paths []

end OriginSoFar

variable {first : PathRef}

section Orders

variable {origin : PathRef → UInt8}

namespace OriginPass

theorem run_unknown (highest : pass.minOrigin = originMax)
    {paths : List PathRef} (unknown : ∀ path ∈ paths, originMax < origin path) :
    pass.run origin paths = { pass with removed := pass.removed ++ paths } := by
  induction paths generalizing pass with
  | nil => simp
  | cons path paths ih =>
    have worse : pass.minOrigin < origin path := highest ▸ unknown path mem_cons_self
    rw [run_cons, visit_worse worse]
    have later := fun other member => unknown other (mem_cons_of_mem path member)
    rw [@ih { pass with removed := pass.removed ++ [path] } highest later]
    simp

/-- The first known origin puts its path in the first place, which is all that counts. -/
theorem visit_known (fresh : pass.idx = 0)
    (highest : pass.minOrigin = originMax) (known : origin first ≤ originMax) :
    pass.visit first (origin first) =
      ⟨origin first, pass.updatedPaths.set 0 first, 1, pass.removed⟩ := by
  rcases Std.lt_trichotomy _ pass.minOrigin with better | same | worse
  · rw [visit_better better]
    simp [fresh]
  · rw [visit_same same]
    simp [fresh, same]
  · rw [highest] at worse
    exact absurd worse (UInt8.not_lt.mpr known)

/-- A known origin that comes after unknown ones only is put in front. -/
theorem kept_of_unknown_before {before : List PathRef}
    (unknown : ∀ path ∈ before, originMax < origin path) (known : origin first ≤ originMax)
    (least : ∀ path ∈ after, origin first ≤ origin path) :
    ((start (before ++ first :: after)).run origin (before ++ first :: after)).kept =
        first :: after.filter (fun path => origin path = origin first) ∧
      ((start (before ++ first :: after)).run origin (before ++ first :: after)).removed =
        before ++ after.filter fun path => origin path ≠ origin first := by
  have room : 1 + after.length ≤ ((before ++ first :: after).set 0 first).length := by
    simp only [length_set, length_append, length_cons]
    omega
  obtain ⟨keeps, removes⟩ := @run_least ⟨origin first, _, 1, [] ++ before⟩ _ _ room least
  rw [run_append, run_unknown rfl unknown, run_cons, visit_known rfl rfl known]
  refine ⟨keeps.trans ?_, removes⟩
  cases before <;> simp [kept]

/-- One path in front of the best one is overwritten, and leaves a copy of the best one. -/
theorem kept_of_one_before (known : origin one ≤ originMax)
    (better : origin first < origin one) (least : ∀ path ∈ after, origin first ≤ origin path) :
    ((start (one :: first :: after)).run origin (one :: first :: after)).kept =
      first :: first :: after.filter fun path => origin path = origin first := by
  rw [run_cons, run_cons, visit_known rfl rfl known, visit_better better, (run_least ?_ least).1]
  · simp [kept, start]
  · simp [start]
    omega

/-- Two paths in front of the best one leave the second of them in its place. -/
theorem kept_of_two_before (known : origin one ≤ originMax ∨ origin path ≤ originMax)
    (betterOne : origin first < origin one) (betterPath : origin first < origin path)
    (least : ∀ other ∈ after, origin first ≤ origin other) :
    path ∈ ((start (one :: path :: first :: after)).run origin
      (one :: path :: first :: after)).kept := by
  rw [run_cons, run_cons, run_cons]
  -- However the two compare, the second stands in its place when the best one comes.
  suffices two : ∃ pass : OriginPass, pass = ((start (one :: path :: first :: after)).visit
      one (origin one)).visit path (origin path) ∧ origin first < pass.minOrigin ∧
      (pass.idx = 1 ∨ pass.idx = 2) ∧ ∃ front, pass.updatedPaths = front :: path :: first :: after by
    obtain ⟨pass, same, lower, counts, front, array⟩ := two
    rw [← same, visit_better lower, (run_least ?_ least).1]
    · refine mem_append_left _ ?_
      rcases counts with counts | counts <;> simp [kept, array, counts]
    · rcases counts with counts | counts <;> simp [array, counts] <;> omega
  refine ⟨_, rfl, ?_⟩
  by_cases knownOne : origin one ≤ originMax
  · rw [visit_known rfl rfl knownOne]
    rcases Std.lt_trichotomy _ (origin one) with better | same | worse
    · rw [visit_better better]
      exact ⟨betterPath, .inr rfl, path, rfl⟩
    · rw [visit_same same]
      exact ⟨betterOne, .inr rfl, one, rfl⟩
    · rw [visit_worse worse]
      exact ⟨betterOne, .inl rfl, one, rfl⟩
  · have skipped : (start (one :: path :: first :: after)).visit one (origin one) = _ :=
      visit_worse (UInt8.not_le.mp knownOne)
    rw [skipped, visit_known rfl rfl (known.resolve_left knownOne)]
    exact ⟨betterPath, .inl rfl, path, rfl⟩

end OriginPass

end Orders

variable {mem : Memory} {paths : List PathRef}

/-- What is left of the paths after the pass over the origins. -/
def originKept (mem : Memory) (paths : List PathRef) : List PathRef :=
  let kept := ((OriginPass.start paths).run mem.origin paths).kept
  if kept.isEmpty then paths else kept

theorem originKept_ne_nil (nonempty : paths ≠ []) : originKept mem paths ≠ [] := by
  unfold originKept
  dsimp only
  split
  case isTrue => exact nonempty
  case isFalse anyKept => simpa using anyKept

theorem originKept_subset : originKept mem paths ⊆ paths := by
  have soFar := OriginSoFar.run_all mem.origin paths
  unfold originKept
  dsimp only
  split
  · exact List.Subset.refl _
  · exact fun _ member => soFar.subset (mem_of_mem_take member)

theorem originRank_eq (path : PathRef) : mem.originRank path = min (mem.origin path).toNat 4 := rfl

/-- The paths with the lowest origin are among those that are kept. -/
theorem least_origin_kept (least : path ∈ mem.leastOrigin paths) : path ∈ originKept mem paths := by
  have soFar := OriginSoFar.run_all mem.origin paths
  unfold originKept
  dsimp only
  split
  case isTrue => exact least.1
  case isFalse anyKept =>
    -- Some place counts, so the lowest origin is one that a path has.
    have used : ((OriginPass.start paths).run mem.origin paths).idx ≠ 0 := by
      intro unused
      simp [OriginPass.kept, unused] at anyKept
    obtain ⟨lowest, there, attained⟩ := soFar.attained.resolve_left fun unused => used unused.1
    refine soFar.kept path least.1 ?_
    have below := UInt8.le_iff_toNat_le.mp (soFar.least path least.1)
    have bounded := UInt8.le_iff_toNat_le.mp soFar.bounded
    have atMost := least.2 lowest there
    rw [← attained] at below bounded ⊢
    rw [originRank_eq, originRank_eq] at atMost
    apply UInt8.toNat_inj.mp
    have highest : originMax.toNat = 3 := rfl
    omega

/-- The pass over the origins keeps every path with the lowest one, and nothing new. -/
structure OriginKeeps (mem : Memory) (paths kept : List PathRef) : Prop where
  subset : kept ⊆ paths
  ne_nil : paths ≠ [] → kept ≠ []
  least : ∀ path, path ∈ mem.leastOrigin paths → path ∈ kept
  cases : kept = originKept mem paths ∨ (paths.length ≤ 1 ∧ kept = paths)

theorem OriginKeeps.of_short (short : paths.length ≤ 1) : OriginKeeps mem paths paths :=
  ⟨List.Subset.refl _, fun nonempty => nonempty, fun _ least => least.1, .inr ⟨short, rfl⟩⟩

/-- The pass over origins that can be read is the loop over them. -/
theorem getRoutesWithLowestOrigin_run {pruned : List PathSortIface}
    (reads : ∀ path ∈ paths, ∃ origin, (mem.path path).getOrigin = .ok origin) :
    ∃ less, getRoutesWithLowestOrigin mem paths pruned =
      .ok (finishPass paths ((OriginPass.start paths).run mem.origin paths).kept
        ((OriginPass.start paths).run mem.origin paths).removed less pruned) := by
  have reads : ∀ path ∈ paths, (mem.path path).getOrigin = .ok (mem.origin path) := by
    intro path member
    obtain ⟨origin, read⟩ := reads path member
    rw [Memory.origin, read]
    rfl
  exact ⟨_, Outcome.bind_eq_ok.mpr ⟨_, Outcome.foldlM_read _ reads, rfl⟩⟩

theorem getRoutesWithLowestOrigin_leaves {protoFamily : UInt32} {all : List PathRef}
    (learned : ∀ path ∈ all, Learned mem protoFamily path) :
    Leaves mem protoFamily all (getRoutesWithLowestOrigin mem) (OriginKeeps mem) := by
  rintro ⟨paths, pruned⟩ contenders
  obtain ⟨less, run⟩ := @getRoutesWithLowestOrigin_run mem paths pruned fun path member =>
    (learned path (contenders.left member)).origin
  exact ⟨_, run, ⟨originKept_subset, originKept_ne_nil, fun _ => least_origin_kept, .inl rfl⟩,
    contenders.prune learned originKept_subset (OriginSoFar.run_all mem.origin paths).removed less⟩

section

variable (least : first ∈ mem.leastOrigin paths)

include least

/-- A path that is not among those with the lowest origin has a higher one than they have. -/
theorem origin_lt_of_not_least (member : path ∈ paths)
    (other : path ∉ mem.leastOrigin paths) :
    mem.origin first < mem.origin path := by
  have atMost := least.2 path member
  have differ : mem.originRank path ≠ mem.originRank first :=
    fun same => other (LeastBy.of_rank_eq least member same)
  rw [originRank_eq, originRank_eq] at atMost differ
  rw [lt_iff_toNat_lt]
  omega

theorem origin_le_of_least (known : mem.origin first ≤ originMax) (member : path ∈ paths) :
    mem.origin first ≤ mem.origin path := by
  have atMost := least.2 path member
  rw [originRank_eq, originRank_eq] at atMost
  rw [le_iff_toNat_le] at known ⊢
  have highest : originMax.toNat = 3 := rfl
  omega

/-- Unknown origins that are the lowest are all there are. -/
theorem all_least_of_unknown (unknown : ¬ mem.origin first ≤ originMax) (member : path ∈ paths) :
    path ∈ mem.leastOrigin paths := by
  refine LeastBy.of_rank_eq least member ?_
  have atMost := least.2 path member
  rw [UInt8.not_le, UInt8.lt_iff_toNat_lt] at unknown
  rw [originRank_eq, originRank_eq] at *
  have highest : originMax.toNat = 3 := rfl
  omega

/-- A pass that counts some paths, all with the lowest origin, keeps no others. -/
theorem originKept_least {others : List PathRef}
    (counted : ((OriginPass.start paths).run mem.origin paths).kept = first :: others)
    (same : ∀ path ∈ others, mem.origin path = mem.origin first) :
    ∀ path ∈ originKept mem paths, path ∈ mem.leastOrigin paths := by
  intro path member
  have there := originKept_subset member
  rw [originKept, counted] at member
  rcases mem_cons.mp member with rfl | member
  · exact least
  · refine LeastBy.of_rank_eq least there ?_
    rw [originRank_eq, originRank_eq, same path member]

end

/-- A best path that only unknown origins stand in front of settles the pass. -/
theorem originKept_of_unknown_before {before : List PathRef}
    (unknown : ∀ path ∈ before, originMax < mem.origin path)
    (least : first ∈ mem.leastOrigin (before ++ first :: after)) :
    ∀ path ∈ originKept mem (before ++ first :: after),
      path ∈ mem.leastOrigin (before ++ first :: after) := by
  by_cases known : mem.origin first ≤ originMax
  · have counted := kept_of_unknown_before unknown known fun path member =>
      origin_le_of_least least known (mem_append_right _ (mem_cons_of_mem _ member))
    exact originKept_least least counted.1 (by simp)
  · exact fun path member => all_least_of_unknown least known (originKept_subset member)

/-- A list whose first path has the lowest origin keeps the paths that have it only. -/
theorem originKept_of_front {rest : List PathRef}
    (least : first ∈ mem.leastOrigin (first :: rest)) :
    ∀ path ∈ originKept mem (first :: rest), path ∈ mem.leastOrigin (first :: rest) :=
  @originKept_of_unknown_before _ first _ [] (by simp) least

/-- When every other path has an unknown origin, only paths with the lowest one are kept. -/
theorem originKept_of_others_unknown
    (unknown : ∀ path ∈ paths, path ∉ mem.leastOrigin paths → originMax < mem.origin path) :
    ∀ path ∈ originKept mem paths, path ∈ mem.leastOrigin paths := by
  classical
  intro path member
  -- The list is split at the first path that has the lowest origin.
  cases found : paths.find? fun path => path ∈ mem.leastOrigin paths with
  | some first =>
    obtain ⟨least, before, after, split, others⟩ := find?_eq_some_iff_append.mp found
    have least := of_decide_eq_true least
    have skipped : ∀ path ∈ before, originMax < mem.origin path := by
      intro path there
      exact unknown path (split ▸ mem_append_left _ there) (by simpa using others path there)
    rw [split] at least member ⊢
    exact originKept_of_unknown_before skipped least path member
  | none =>
    -- Without one all origins would be unknown, and all paths would have the lowest rank.
    have all : ∀ path ∈ paths, originMax < mem.origin path := by
      intro path there
      exact unknown path there (by simpa using find?_eq_none.mp found path there)
    have there := originKept_subset member
    refine ⟨there, fun other member => ?_⟩
    have here := lt_iff_toNat_lt.mp (all path there)
    have otherHere := lt_iff_toNat_lt.mp (all other member)
    have highest : originMax.toNat = 3 := rfl
    rw [originRank_eq, originRank_eq]
    omega

/-- When one path at most has another origin, only paths with the lowest one are kept. -/
theorem originKept_of_one_other (nodup : paths.Nodup)
    (others : ∀ path ∈ paths, path ∉ mem.leastOrigin paths → path = one) :
    ∀ path ∈ originKept mem paths, path ∈ mem.leastOrigin paths := by
  cases paths with
  | nil =>
    intro path member
    cases originKept_subset member
  | cons first rest =>
    by_cases firstLeast : first ∈ mem.leastOrigin (first :: rest)
    · exact originKept_of_front firstLeast
    · -- The other path comes first, so the next one has the lowest origin.
      cases others first mem_cons_self firstLeast
      cases rest with
      | nil =>
        intro path member
        cases mem_singleton.mp (originKept_subset member)
        have alone : KeepsLeast mem.originRank [one] [one] := .of_short (le_refl 1)
        exact (alone.mem_iff one).mp mem_cons_self
      | cons second after =>
        have differ : second ≠ one := by
          rintro rfl
          simp at nodup
        have secondMem : second ∈ one :: second :: after := by simp
        have least : second ∈ mem.leastOrigin (one :: second :: after) := by
          by_contra notLeast
          exact differ (others second secondMem notLeast)
        have better := origin_lt_of_not_least least mem_cons_self firstLeast
        by_cases known : mem.origin one ≤ originMax
        · have secondKnown := UInt8.le_trans (UInt8.le_of_lt better) known
          have below : ∀ path ∈ after, mem.origin second ≤ mem.origin path := fun path member =>
            origin_le_of_least least secondKnown (by simp [member])
          exact originKept_least least (kept_of_one_before known better below) (by simp)
        · have skipped : ∀ path ∈ [one], originMax < mem.origin path := by
            simpa using UInt8.not_le.mp known
          exact originKept_of_unknown_before skipped least

/-- Two other paths in front of one with the lowest origin keep the second of them. -/
theorem originKept_of_two_before
    (least : first ∈ mem.leastOrigin (one :: path :: first :: after))
    (notOne : one ∉ mem.leastOrigin (one :: path :: first :: after))
    (notPath : path ∉ mem.leastOrigin (one :: path :: first :: after))
    (known : mem.origin one ≤ originMax ∨ mem.origin path ≤ originMax) :
    path ∈ originKept mem (one :: path :: first :: after) := by
  have betterOne := origin_lt_of_not_least least (by simp) notOne
  have betterPath := origin_lt_of_not_least least (by simp) notPath
  have firstKnown : mem.origin first ≤ originMax := by
    rcases known with known | known
    · exact UInt8.le_trans (UInt8.le_of_lt betterOne) known
    · exact UInt8.le_trans (UInt8.le_of_lt betterPath) known
  have below : ∀ other ∈ after, mem.origin first ≤ mem.origin other := fun other member =>
    origin_le_of_least least firstKnown (by simp [member])
  have kept := kept_of_two_before known betterOne betterPath below
  rw [originKept, if_neg]
  · exact kept
  · simpa using ne_nil_of_mem kept

end FlexSwitch.Rib