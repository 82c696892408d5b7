import FlexSwitch.Policy.Engine

/-! When the policy filter comes back, and when it falls back on the default policy. -/

namespace FlexSwitch.PolicyEngine

open Go List Outcome

variable {idx : Nat} {policy : Policy}

section Policies

variable (db : PolicyEngineDB)

/-- The policies of a list of names, up to the first that is not defined. -/
def leadingPolicies : List String → List Policy
  | [] => []
  | name :: names =>
    match db.policyDB.lookup name with
    | none => []
    | some policy => policy :: leadingPolicies names

/-- The names of the policies of a path, by precedence. -/
def pathNames (policyPath : PolicyPath) : List String :=
  (sortedKeys (pathPrecedenceMap db policyPath)).map fun key =>
    ((pathPrecedenceMap db policyPath).lookup key).getD ""

/-- The policies of a path that the filter looks at. -/
def pathPolicies (policyPath : PolicyPath) : List Policy :=
  leadingPolicies db (pathNames db policyPath)

/-- The slot of a policy can be looked up: it is not a negative number. -/
def Indexable (policy : Policy) : Prop :=
  db.localPolicyDB = none ∨ 0 ≤ policy.localDBSliceIdx.toInt

variable {db}

theorem leadingPolicies_taken {names : List String}
    (foundAt : (leadingPolicies db names)[idx]? = some policy) :
    ∃ name, names[idx]? = some name ∧ db.policyDB.lookup name = some policy := by
  induction names generalizing idx with
  | nil => simp [leadingPolicies] at foundAt
  | cons name names ih =>
    cases defined : db.policyDB.lookup name with
    | none => simp [leadingPolicies, defined] at foundAt
    | some first =>
      simp only [leadingPolicies, defined] at foundAt
      cases idx with
      | zero => exact ⟨name, rfl, by simpa [defined] using foundAt⟩
      | succ idx => exact ih foundAt

theorem leadingPolicies_ended (names : List String) :
    names[(leadingPolicies db names).length]? = none ∨
      ∃ name, names[(leadingPolicies db names).length]? = some name ∧
        db.policyDB.lookup name = none := by
  induction names with
  | nil => exact .inl rfl
  | cons name names ih =>
    cases defined : db.policyDB.lookup name with
    | none => exact .inr ⟨name, by simp [leadingPolicies, defined], defined⟩
    | some first => simpa [leadingPolicies, defined] using ih

/-- Looking up the slot panics exactly where there is a table and the slot is negative. -/
theorem isInvalidated_of_indexable (indexable : Indexable db policy) :
    ∃ marked, isInvalidated db policy = .ok marked := by
  rw [isInvalidated]
  cases table : db.localPolicyDB with
  | none => exact ⟨false, rfl⟩
  | some localPolicyDB =>
    have positive : ¬ policy.localDBSliceIdx.toInt < 0 := by
      simpa [Indexable, table] using indexable
    by_cases inside : policy.localDBSliceIdx.toInt < localPolicyDB.length
    · simp [inside, positive]
    · simp [inside]

theorem isInvalidated_of_not_indexable (lacks : ¬ Indexable db policy) :
    isInvalidated db policy = .panic := by
  rw [Indexable, not_or] at lacks
  obtain ⟨localPolicyDB, table⟩ := Option.ne_none_iff_exists'.mp lacks.1
  have inside : policy.localDBSliceIdx.toInt < localPolicyDB.length := by omega
  simp [isInvalidated, table, inside, lacks.2]

end Policies

section Filter

variable {World Index : Type} [DecidableEq Index] (app : Application World Index)
  (db : PolicyEngineDB) (entity : PolicyEngineFilterEntityParams) (policyPath : PolicyPath)

variable {app db entity}

/-- A policy is dealt with unless the lookup of its slot panics. -/
theorem filterPolicy_of_indexable (indexable : Indexable db policy)
    (state : Filtering World Index) :
    ∃ later, filterPolicy app db entity state policy = .ok later := by
  obtain ⟨marked, looked⟩ := isInvalidated_of_indexable indexable
  rw [filterPolicy, looked, ok_bind]
  cases marked with
  | true => exact ⟨state, rfl⟩
  | false =>
    cases db.applyPolicyMap.lookup policy.name with
    | none => exact ⟨state, rfl⟩
    | some info =>
      by_cases unused : info.count = 0
      · exact ⟨state, by simp [unused]⟩
      · exact ⟨_, by simp [unused]; rfl⟩

variable {state : Filtering World Index}

theorem filterPolicy_returns_iff :
    (filterPolicy app db entity state policy).Returns ↔ Indexable db policy := by
  by_cases indexable : Indexable db policy
  · obtain ⟨later, filtered⟩ := @filterPolicy_of_indexable _ _ _ _ app db entity indexable state
    simp [filtered, indexable]
  · refine iff_of_false ?_ indexable
    simp [filterPolicy, isInvalidated_of_not_indexable indexable]

theorem filterPolicies_returns_iff {policies : List Policy} {start : Filtering World Index} :
    (policies.foldlM (filterPolicy app db entity) start).Returns ↔
      ∀ policy ∈ policies, Indexable db policy :=
  foldlM_returns_iff (fun state _ indexable => filterPolicy_of_indexable indexable state)
    (fun _ _ lacks returned => lacks (filterPolicy_returns_iff.mp returned)) start

variable {policyPath}

variable {name : String}

section Create

variable (created : entity.createPath = true) (kept : entity.deletePath = false)
include created kept

/-- Behind the last policy there is no key, or one whose policy is not defined. -/
theorem filterRound_ended (ended : (pathNames db policyPath)[idx]? = none ∨
      ∃ name, (pathNames db policyPath)[idx]? = some name ∧ db.policyDB.lookup name = none)
    (state : Filtering World Index) :
    filterRound app db entity policyPath (sortedKeys (pathPrecedenceMap db policyPath))
      (idx, state) = .ok (.stop state) := by
  simp only [filterRound, created, kept, Bool.false_eq_true, if_false, if_true]
  cases foundAt : (sortedKeys _)[idx]? with
  | none => rfl
  | some key =>
    rcases ended with ended | ⟨name, named, missing⟩
    · simp [pathNames, foundAt] at ended
    · have same : ((pathPrecedenceMap db policyPath).lookup key).getD "" = name := by
        simpa [pathNames, foundAt] using named
      dsimp only
      rw [same, missing]
      rfl

theorem filterRound_policy (named : (pathNames db policyPath)[idx]? = some name)
    (defined : db.policyDB.lookup name = some policy) (state : Filtering World Index) :
    filterRound app db entity policyPath (sortedKeys (pathPrecedenceMap db policyPath))
        (idx, state) =
      filterPolicy app db entity state policy >>= fun later => .ok (.next (idx + 1, later)) := by
  simp only [pathNames, getElem?_map, Option.map_eq_some_iff] at named
  obtain ⟨key, foundAt, same⟩ := named
  simp only [filterRound, created, kept, Bool.false_eq_true, if_false, if_true, foundAt]
  rw [same, defined]
  rfl

/-- On the create path the filter runs over the policies of the path. -/
theorem createLoop_eq {fuel : Nat} (enough : (pathPolicies db policyPath).length < fuel)
    (start : Filtering World Index) :
    loop (filterRound app db entity policyPath (sortedKeys (pathPrecedenceMap db policyPath))) fuel
        (0, start) = (pathPolicies db policyPath).foldlM (filterPolicy app db entity) start := by
  have run := @loop_index Unit _ _ _ _
    (filterPolicy app db entity)
    (filterRound app db entity policyPath _) id
    (fun state => filterRound_ended created kept (leadingPolicies_ended _) state) ?_ fuel 0
    (Nat.zero_le _) enough start
  · rw [run, drop_zero]
    exact bind_pure _
  · intro idx policy state foundAt
    obtain ⟨name, named, defined⟩ := leadingPolicies_taken foundAt
    exact filterRound_policy created kept named defined state

end Create

section Delete

/-- A name that has a policy the filter can deal with. -/
def Passes (db : PolicyEngineDB) (policyPath : PolicyPath) (name : String) : Prop :=
  ∃ policy, db.policyDB.lookup name = some policy ∧
    (otherPath policyPath policy = false → Indexable db policy)

/-- What the filter does with a policy of the entity that is defined. -/
def undoPolicy (app : Application World Index) (db : PolicyEngineDB)
    (entity : PolicyEngineFilterEntityParams) (policyPath : PolicyPath)
    (state : Filtering World Index) (name : String) : Outcome Unit (Filtering World Index) :=
  match db.policyDB.lookup name with
  | none => .ok state
  | some policy =>
    if otherPath policyPath policy then .ok state else filterPolicy app db entity state policy

theorem undoPolicy_of_passes (passes : Passes db policyPath name) (state : Filtering World Index) :
    ∃ later, undoPolicy app db entity policyPath state name = .ok later := by
  obtain ⟨policy, defined, indexable⟩ := passes
  rw [undoPolicy, defined]
  by_cases other : otherPath policyPath policy = true
  · exact ⟨state, by simp [other]⟩
  · obtain ⟨later, filtered⟩ := @filterPolicy_of_indexable policy _ _ _ app db entity
      (indexable (by simpa using other)) state
    exact ⟨later, by simp [other, filtered]⟩

theorem passes_of_undoPolicy (defined : db.policyDB.lookup name = some policy)
    (returned : (undoPolicy app db entity policyPath state name).Returns) :
    Passes db policyPath name := by
  refine ⟨policy, defined, fun same => ?_⟩
  simp only [undoPolicy, defined, same] at returned
  exact filterPolicy_returns_iff.mp returned

variable (removed : entity.deletePath = true)
include removed

variable {policyList : List String}

variable (listed : entity.policyList = some policyList)

include listed

/-- A policy that is not defined any more keeps the filter at its index. -/
theorem filterRound_missing (foundAt : policyList[idx]? = some name)
    (missing : db.policyDB.lookup name = none) (policyKeys : List Int)
    (state : Filtering World Index) :
    filterRound app db entity policyPath policyKeys (idx, state) = .ok (.next (idx, state)) := by
  simp only [filterRound, removed, if_true, listed, foundAt]
  rw [missing]
  rfl

theorem filterRound_present (foundAt : policyList[idx]? = some name)
    (defined : db.policyDB.lookup name = some policy) (policyKeys : List Int)
    (state : Filtering World Index) : filterRound app db entity policyPath policyKeys (idx, state) =
      undoPolicy app db entity policyPath state name >>= fun later =>
        .ok (.next (idx + 1, later)) := by
  simp only [filterRound, removed, if_true, listed, foundAt, undoPolicy]
  rw [defined]
  by_cases other : otherPath policyPath policy = true
  · simp [other]
  · simp [other]

/-- A filter that comes back has found every policy of the entity. -/
theorem deleteLoop_passes {policyKeys : List Int} {fuel : Nat}
    (returned : (loop (filterRound app db entity policyPath policyKeys) fuel
      (idx, state)).Returns) : ∀ name ∈ policyList.drop idx, Passes db policyPath name := by
  induction fuel generalizing idx state with
  | zero => exact absurd returned not_returns_hang
  | succ fuel ih =>
    intro name member
    have inside : idx < policyList.length := by
      by_contra
      rw [drop_eq_nil_of_le (by omega)] at member
      cases member
    have foundAt := getElem?_eq_getElem inside
    cases defined : db.policyDB.lookup policyList[idx] with
    | none =>
      -- The round changes nothing, so less fuel would have been enough.
      rw [loop_next (filterRound_missing removed listed foundAt defined policyKeys state)] at returned
      exact ih returned name member
    | some policy =>
      rw [loop, filterRound_present removed listed foundAt defined, bind_assoc,
        bind_returns] at returned
      rw [drop_eq_getElem_cons inside, mem_cons] at member
      rcases member with rfl | member
      · exact passes_of_undoPolicy defined returned.1
      · have passes := passes_of_undoPolicy defined returned.1
        obtain ⟨later, undone⟩ := undoPolicy_of_passes passes state
        exact ih (returned.2 later undone) name member

theorem deleteLoop_returns_iff (policyKeys : List Int) (start : Filtering World Index) :
    (∃ fuel, (loop (filterRound app db entity policyPath policyKeys) fuel (0, start)).Returns) ↔
      ∀ name ∈ policyList, Passes db policyPath name := by
  constructor
  · rintro ⟨fuel, returned⟩
    simpa using deleteLoop_passes removed listed returned
  · intro passes
    refine ⟨policyList.length + 1, ?_⟩
    have run := @loop_index Unit _ _ _ policyList
      (undoPolicy app db entity policyPath) (filterRound app db entity policyPath policyKeys) id
      (fun state => by simp [filterRound, removed, listed]) ?_ (policyList.length + 1) 0
      (Nat.zero_le _) (by omega) start
    · obtain ⟨last, undone⟩ := foldlM_ok start fun state name member =>
        @undoPolicy_of_passes _ _ _ app db entity policyPath name (passes name member) state
      rw [run, drop_zero, undone]
      trivial
    · intro idx name state foundAt
      obtain ⟨policy, defined, _⟩ := passes name (mem_of_getElem? foundAt)
      exact filterRound_present removed listed foundAt defined policyKeys state

end Delete

/--
The filter can deal with everything it meets.

On the delete path every policy of the entity is still defined, on the create path the policies of
the path count up to the first that is not, and each slot that is looked up is not negative.
-/
def Passable (db : PolicyEngineDB) (entity : PolicyEngineFilterEntityParams)
    (policyPath : PolicyPath) : Prop :=
  if entity.deletePath then ∀ name ∈ entity.policyList.getD [], Passes db policyPath name
  else entity.createPath → ∀ policy ∈ pathPolicies db policyPath, Indexable db policy

/-- The create path comes back when every slot on it can be looked up. -/
theorem createLoop_returns_iff (created : entity.createPath = true)
    (kept : entity.deletePath = false) (start : Filtering World Index) :
    (∃ fuel, (loop (filterRound app db entity policyPath
        (sortedKeys (pathPrecedenceMap db policyPath))) fuel (0, start)).Returns) ↔
      ∀ policy ∈ pathPolicies db policyPath, Indexable db policy := by
  rw [← @filterPolicies_returns_iff _ _ _ app db entity _ start]
  constructor
  · rintro ⟨fuel, returned⟩
    have more := (steady_plainLoop _ _).returns_max returned ((pathPolicies db policyPath).length + 1)
    rwa [createLoop_eq created kept (by omega)] at more
  · intro returned
    refine ⟨(pathPolicies db policyPath).length + 1, ?_⟩
    rwa [createLoop_eq created kept (by omega)]

theorem policyEngineFilter_returns {fuel : Nat} {shared : Shared World Index} :
    (policyEngineFilter app db entity fuel policyPath shared).Returns ↔
      (loop (filterRound app db entity policyPath (sortedKeys (pathPrecedenceMap db policyPath)))
        fuel (0, ⟨shared, false, [], []⟩)).Returns := by
  rw [policyEngineFilter, bind_returns, and_iff_left]
  intro filtering _
  by_cases removed : entity.deletePath = true <;> simp [removed]

variable (app db entity policyPath)

theorem policyEngineFilter_steady (shared : Shared World Index) :
    Steady fun fuel => policyEngineFilter app db entity fuel policyPath shared :=
  (steady_plainLoop _ _).bind fun _ => steady_const _

/-- The filter comes back exactly when it can deal with everything it meets. -/
theorem policyEngineFilter_returns_iff (shared : Shared World Index) :
    (∃ fuel, (policyEngineFilter app db entity fuel policyPath shared).Returns) ↔
      Passable db entity policyPath := by
  simp only [policyEngineFilter_returns]
  by_cases removed : entity.deletePath = true
  · rw [Passable, if_pos removed]
    cases listed : entity.policyList with
    | none =>
      -- An entity without policies is done at once.
      refine iff_of_true ⟨1, ?_⟩ (by simp)
      simp [loop, filterRound, removed, listed]
    | some policyList => exact deleteLoop_returns_iff removed listed _ _
  · rw [Passable, if_neg removed]
    by_cases created : entity.createPath = true
    · simpa [created] using createLoop_returns_iff created (by simpa using removed) _
    · refine iff_of_true ⟨1, ?_⟩ (by simp [created])
      simp [loop, filterRound, removed, created]

/-- An application that has registered nothing. -/
def Application.silent : Application World Index :=
  ⟨fun _ => none, fun _ => none, fun _ => none, none, none, none, none, none⟩

end Filter

/-- A route with a policy that was deleted since keeps the filter busy for ever. -/
theorem policyEngineFilter_deleted_policy :
    ¬ ∃ fuel, policyEngineFilter (Application.silent : Application Unit Unit) newPolicyEngineDB
      ⟨"10.1.0.0/16", "10.0.0.1", "STATIC", "", false, true, some ["P"], 0⟩ fuel .importPath
      ⟨(), ∅⟩ ≠ .hang := by
  rintro ⟨fuel, ended⟩
  apply ended
  rw [policyEngineFilter, loop_hang (fun state => state.1 = 0) ?_ fuel _ rfl, hang_bind]
  rintro ⟨idx, state⟩ rfl
  exact ⟨(0, state), filterRound_missing rfl rfl rfl rfl _ _, rfl⟩

end FlexSwitch.PolicyEngine
