import FlexSwitch.Policy.Filtering

/-! The default policy against the statements that matched. -/

namespace FlexSwitch.PolicyEngine

open Go Outcome

section Default

variable {World Index : Type}

/--
How a part of the filter leads from one state to the next.

Nothing has matched behind it when nothing had before and nothing does here, and a hit is only
left where something has matched.
-/
structure Tracks (here : Prop) (before after : Filtering World Index) : Prop where
  matched : after.matched = [] ↔ before.matched = [] ∧ ¬ here
  hit : (before.policyHit = true → before.matched ≠ []) →
    after.policyHit = true → after.matched ≠ []
  defaulted : after.defaulted = before.defaulted

namespace Tracks

variable {here there : Prop} {before middle after : Filtering World Index}

theorem refl (nothing : ¬ here) : Tracks here before before where
  matched := by simp [nothing]
  hit := id
  defaulted := rfl

theorem trans (first : Tracks here before middle) (second : Tracks there middle after) :
    Tracks (here ∨ there) before after where
  matched := by
    rw [second.matched, first.matched]
    tauto
  hit fine := second.hit (first.hit fine)
  defaulted := second.defaulted.trans first.defaulted

/-- Where something matched, what is left out does not matter. -/
theorem stop (first : Tracks here before after) (something : after.matched ≠ []) :
    Tracks (here ∨ there) before after where
  matched := by
    have seen := first.matched
    tauto
  hit := first.hit
  defaulted := first.defaulted

end Tracks

variable [DecidableEq Index] {app : Application World Index} {db : PolicyEngineDB}
  {entity : PolicyEngineFilterEntityParams}

/-- A statement that matches is recorded; the entity can only be gone behind such a statement. -/
theorem applyPolicyStmt_tracks (info : ApplyPolicyInfo) (policyStmt : PolicyStmt)
    (state : Filtering World Index) :
    Tracks ((stmtMatch app db entity info policyStmt).1 = true) state
        (policyEngineApplyPolicyStmt app db entity info policyStmt false state).1 ∧
      ((policyEngineApplyPolicyStmt app db entity info policyStmt false state).2 = true ∨
        (policyEngineApplyPolicyStmt app db entity info policyStmt false state).1.policyHit = true →
        (policyEngineApplyPolicyStmt app db entity info policyStmt false state).1.matched ≠ []) := by
  rw [policyEngineApplyPolicyStmt]
  cases hit : (stmtMatch app db entity info policyStmt).1 with
  | true => simp only [hit, if_true]; exact ⟨⟨by simp, by simp, rfl⟩, by simp⟩
  | false => simp only [hit]; exact ⟨⟨by simp, by simp, rfl⟩, by simp⟩

/-- One of the statements with these precedences matches. -/
def MatchesStmt (app : Application World Index) (db : PolicyEngineDB)
    (entity : PolicyEngineFilterEntityParams) (info : ApplyPolicyInfo) (keys : List Int) : Prop :=
  ∃ key ∈ keys, ∃ policyStmt, db.policyStmtDB.lookup
    ((info.applyPolicy.policyStmtPrecedenceMap.lookup key).getD "") = some policyStmt ∧
      (stmtMatch app db entity info policyStmt).1 = true

/-- By induction on the keys: what one statement does, and the others behind it. -/
theorem applyPolicyStmts_tracks (info : ApplyPolicyInfo) (keys : List Int)
    (state : Filtering World Index) :
    Tracks (MatchesStmt app db entity info keys) state
      (applyPolicyStmts app db entity info [] keys false state) := by
  induction keys generalizing state with
  | nil => exact .refl (by simp [MatchesStmt])
  | cons key keys ih =>
    simp only [MatchesStmt, List.exists_mem_cons_iff]
    rw [applyPolicyStmts]
    cases defined : db.policyStmtDB.lookup
        ((info.applyPolicy.policyStmtPrecedenceMap.lookup key).getD "") with
    | none => simpa [defined, MatchesStmt] using ih state
    | some policyStmt =>
      -- The statement itself, and behind it the rest unless the loop ends here.
      obtain ⟨tracks, stops⟩ := @applyPolicyStmt_tracks _ _ _ app db entity info policyStmt state
      simp only [Option.some.injEq, exists_eq_left']
      simp only [ne_eq, not_true_eq_false, false_and, if_false]
      by_cases gone :
          (policyEngineApplyPolicyStmt app db entity info policyStmt false state).2 = true
      · rw [if_pos gone]
        exact tracks.stop (stops (.inl gone))
      · rw [if_neg gone]
        split
        · rename_i hit
          exact tracks.stop (stops (.inr hit.1))
        · rw [Bool.not_eq_true] at gone
          rw [gone]
          exact tracks.trans (ih _)

/-- One of the applications has a statement that matches. -/
def MatchesInfo (app : Application World Index) (db : PolicyEngineDB)
    (entity : PolicyEngineFilterEntityParams) (infos : List ApplyPolicyInfo) : Prop :=
  ∃ info ∈ infos, MatchesStmt app db entity info
    (sortedKeys info.applyPolicy.policyStmtPrecedenceMap)

variable {state : Filtering World Index}

theorem applyInfos_tracks (infos : List ApplyPolicyInfo)
    (fine : state.policyHit = true → state.matched ≠ []) :
    Tracks (MatchesInfo app db entity infos) state (applyInfos app db entity infos state) := by
  induction infos generalizing state with
  | nil => exact .refl (by simp [MatchesInfo])
  | cons info infos ih =>
    have tracks := @applyPolicyStmts_tracks _ _ _ app db entity info
      (sortedKeys info.applyPolicy.policyStmtPrecedenceMap) state
    simp only [MatchesInfo, List.exists_mem_cons_iff]
    rw [applyInfos]
    by_cases hit : (policyEngineApplyPolicy app db entity info [] state).policyHit = true
    · rw [if_pos hit]
      exact tracks.stop (tracks.hit fine hit)
    · rw [if_neg hit]
      exact tracks.trans (ih (tracks.hit fine))

/-- A policy of the path is valid, applied, and has a statement that matches. -/
def MatchesPolicy (app : Application World Index) (db : PolicyEngineDB)
    (entity : PolicyEngineFilterEntityParams) (policy : Policy) : Prop :=
  isInvalidated db policy = .ok false ∧
    ∃ applied, db.applyPolicyMap.lookup policy.name = some applied ∧ applied.count ≠ 0 ∧
      MatchesInfo app db entity applied.infoList

/-- A policy counts as a hit only when one of its statements has matched. -/
theorem filterPolicy_tracks {policy : Policy} {later : Filtering World Index}
    (fine : state.policyHit = true → state.matched ≠ [])
    (filtered : filterPolicy app db entity state policy = .ok later) :
    Tracks (MatchesPolicy app db entity policy) state later := by
  rw [filterPolicy, bind_eq_ok] at filtered
  obtain ⟨marked, looked, filtered⟩ := filtered
  rw [MatchesPolicy, looked]
  cases marked with
  | true =>
    cases filtered
    exact .refl (by simp)
  | false =>
    cases applied : db.applyPolicyMap.lookup policy.name with
    | none =>
      simp only [applied] at filtered
      cases filtered
      exact .refl (by simp)
    | some info =>
      by_cases unused : info.count = 0
      · simp only [applied, unused] at filtered
        cases filtered
        exact .refl (by simp [unused])
      · simp only [applied, unused] at filtered
        cases filtered
        simpa [unused] using applyInfos_tracks info.infoList fine

theorem filterPolicies_tracks {policies : List Policy} {last : Filtering World Index}
    (fine : state.policyHit = true → state.matched ≠ [])
    (filtered : policies.foldlM (filterPolicy app db entity) state = .ok last) :
    Tracks (∃ policy ∈ policies, MatchesPolicy app db entity policy) state last := by
  induction policies generalizing state with
  | nil =>
    cases filtered
    exact .refl (by simp)
  | cons policy policies ih =>
    rw [List.foldlM_cons, bind_eq_ok] at filtered
    obtain ⟨later, first, rest⟩ := filtered
    have tracks := filterPolicy_tracks fine first
    rw [List.exists_mem_cons_iff]
    exact tracks.trans (ih (tracks.hit fine) rest)

/-- On the create path the result is that of the policies, with the default policy behind. -/
theorem policyEngineFilter_create (created : entity.createPath = true)
    (kept : entity.deletePath = false) {policyPath : PolicyPath} {shared : Shared World Index}
    {fuel : Nat} (enough : (pathPolicies db policyPath).length < fuel) :
    policyEngineFilter app db entity fuel policyPath shared =
      (pathPolicies db policyPath).foldlM (filterPolicy app db entity) ⟨shared, false, [], []⟩ >>=
        fun last => .ok (applyDefault app entity policyPath last) := by
  rw [policyEngineFilter, createLoop_eq created kept enough]
  simp [kept]

omit [DecidableEq Index] in
/-- With a counter at zero the default function is called whenever there is one. -/
theorem applyDefault_defaulted (unhit : entity.policyHitCounter = 0) (policyPath : PolicyPath)
    (before : state.defaulted = []) :
    (applyDefault app entity policyPath state).defaulted ≠ [] ↔
      (defaultPolicyActionFunc app policyPath).isSome = true := by
  cases registered : defaultPolicyActionFunc app policyPath <;>
    simp [applyDefault, unhit, registered, before]

omit [DecidableEq Index] in
theorem applyDefault_matched (policyPath : PolicyPath) (state : Filtering World Index) :
    (applyDefault app entity policyPath state).matched = state.matched := by
  by_cases unhit : entity.policyHitCounter = 0
  · cases registered : defaultPolicyActionFunc app policyPath <;>
      simp [applyDefault, unhit, registered]
  · simp [applyDefault, unhit]

variable (app db entity)

/-- The default function is called where one is registered, whatever has matched. -/
theorem policyEngineFilter_default_iff (created : entity.createPath = true)
    (kept : entity.deletePath = false) (unhit : entity.policyHitCounter = 0)
    (policyPath : PolicyPath) (shared : Shared World Index) :
    (∃ fuel out, policyEngineFilter app db entity fuel policyPath shared = .ok out ∧
        (out.defaulted ≠ [] ↔ out.matched = [])) ↔
      Passable db entity policyPath ∧ ((defaultPolicyActionFunc app policyPath).isSome = true ↔
        ¬ ∃ policy ∈ pathPolicies db policyPath, MatchesPolicy app db entity policy) := by
  -- Both sides speak of what the policies of the path leave behind.
  have decides {last : Filtering World Index} (filtered : (pathPolicies db policyPath).foldlM
        (filterPolicy app db entity) ⟨shared, false, [], []⟩ = .ok last) :
      ((applyDefault app entity policyPath last).defaulted ≠ [] ↔
        (applyDefault app entity policyPath last).matched = []) ↔
      ((defaultPolicyActionFunc app policyPath).isSome = true ↔
        ¬ ∃ policy ∈ pathPolicies db policyPath, MatchesPolicy app db entity policy) := by
    have tracks := filterPolicies_tracks (by simp) filtered
    rw [applyDefault_defaulted unhit policyPath tracks.defaulted, applyDefault_matched,
      tracks.matched]
    simp only [true_and]
  have reaches : Passable db entity policyPath ↔ ((pathPolicies db policyPath).foldlM
      (filterPolicy app db entity) ⟨shared, false, [], []⟩).Returns := by
    simp [filterPolicies_returns_iff, Passable, created, kept]
  constructor
  · rintro ⟨fuel, out, filtered, agrees⟩
    have more := policyEngineFilter_steady app db entity policyPath shared fuel
      (max fuel ((pathPolicies db policyPath).length + 1)) (le_max_left _ _) (by simp [filtered])
    simp only [filtered] at more
    rw [policyEngineFilter_create created kept (by omega), bind_eq_ok] at more
    obtain ⟨last, ended, same⟩ := more
    cases same
    exact ⟨reaches.mpr (by simp [ended]), (decides ended).mp agrees⟩
  · rintro ⟨passable, agrees⟩
    have passed : ∀ policy ∈ pathPolicies db policyPath, Indexable db policy := by
      simpa [Passable, created, kept] using passable
    obtain ⟨last, ended⟩ := foldlM_ok ⟨shared, false, [], []⟩ fun state policy member =>
      @filterPolicy_of_indexable policy _ _ _ app db entity (passed policy member) state
    refine ⟨(pathPolicies db policyPath).length + 1, _, ?_, (decides ended).mpr agrees⟩
    rw [policyEngineFilter_create created kept (by omega), ended]
    rfl

end Default

/-- A policy that accepts every route and is applied on import. -/
def acceptPolicy : Policy :=
  ⟨"P", 1, "any", (∅ : GoMap Int String).insert 1 "S", 0, true, false⟩

/-- An engine with that policy, its statement, and the application of both. -/
def acceptEngine : PolicyEngineDB :=
  { newPolicyEngineDB with
    policyStmtDB := (∅ : GoMap String PolicyStmt).insert "S" ⟨"S", "all", none, ["permit"], some ["P"], 0⟩
    policyDB := (∅ : GoMap String Policy).insert "P" acceptPolicy
    localPolicyDB := some [⟨"P", true⟩]
    importPolicyPrecedenceMap := (∅ : GoMap Int String).insert 1 "P"
    applyPolicyMap := (∅ : GoMap String ApplyPolicyMapInfo).insert "P"
      ⟨1, [⟨acceptPolicy, ⟨"accept", 0, .text "Accept"⟩, some []⟩]⟩ }

/-- The same engine, where the statement is only about routes of OSPF. -/
def ospfEngine : PolicyEngineDB :=
  { acceptEngine with
    policyConditionsDB := (∅ : GoMap String PolicyCondition).insert "C"
      ⟨"C", policyConditionTypeProtocolMatch, .text "OSPF", some ["S"]⟩
    policyStmtDB := (∅ : GoMap String PolicyStmt).insert "S"
      ⟨"S", "all", some ["C"], ["permit"], some ["P"], 0⟩ }

/-- An application that compares the protocol of a route with the one a condition names. -/
def protocolApplication : Application Unit Unit :=
  { Application.silent with
    conditionCheckfuncMap := fun conditionType =>
      if conditionType = policyConditionTypeProtocolMatch then
        some fun entity condition => condition.conditionInfo = .text entity.routeProtocol
      else none }

/--
A static route that the applied policy does not match gets the default function, and one that it
matches gets none where none is registered.
-/
theorem policyEngineFilter_default_applied :
    (∃ fuel out, policyEngineFilter
        { protocolApplication with defaultImportPolicyActionFunc := some id }
        ospfEngine ⟨"10.1.0.0/16", "10.0.0.1", "STATIC", "", true, false, none, 0⟩ fuel
        .importPath ⟨(), ∅⟩ = .ok out ∧ (out.defaulted ≠ [] ↔ out.matched = [])) ∧
    ∃ fuel out, policyEngineFilter protocolApplication
        ospfEngine ⟨"10.1.0.0/16", "10.0.0.1", "OSPF", "", true, false, none, 0⟩ fuel
        .importPath ⟨(), ∅⟩ = .ok out ∧ (out.defaulted ≠ [] ↔ out.matched = []) := by
  have policies : pathPolicies ospfEngine .importPath = [acceptPolicy] := rfl
  have indexable : ∀ policy ∈ [acceptPolicy], Indexable ospfEngine policy := by
    simp [Indexable, acceptPolicy]
  constructor
  · refine (policyEngineFilter_default_iff _ _ _ rfl rfl rfl _ _).mpr
      ⟨fun _ => policies ▸ indexable, iff_of_true rfl ?_⟩
    -- The only statement of the only application asks for another protocol.
    rintro ⟨policy, member, _, applied, found, _, info, listed, key, keyed, stmt, defined, hit⟩
    rw [policies, List.mem_singleton] at member
    subst member
    cases found
    rw [List.mem_singleton] at listed
    subst listed
    have one : key = 1 := List.mem_singleton.mp keyed
    subst one
    cases defined
    exact absurd hit (by decide)
  · refine (policyEngineFilter_default_iff _ _ _ rfl rfl rfl _ _).mpr
      ⟨fun _ => policies ▸ indexable, iff_of_false (by decide) (not_not.mpr ?_)⟩
    exact ⟨acceptPolicy, policies ▸ List.mem_singleton_self _, rfl, _, rfl, by decide, _,
      List.mem_singleton_self _, 1, List.mem_singleton_self _, _, rfl, by decide⟩

/-- The statement matches, and the default function is called all the same. -/
theorem policyEngineFilter_default_with_match : (policyEngineFilter
        { (Application.silent : Application Unit Unit) with
          defaultImportPolicyActionFunc := some id }
        acceptEngine ⟨"10.1.0.0/16", "10.0.0.1", "STATIC", "", true, false, none, 0⟩ 3
        .importPath ⟨(), ∅⟩ >>= fun out => .ok (out.matched, out.defaulted)) =
      .ok ([("P", "S")], [.importPath]) := by
  decide

end FlexSwitch.PolicyEngine
