import FlexSwitch.Policy.Tables

/-! The policy engine: which policies a route or path meets, and what they do to it. -/

namespace FlexSwitch.PolicyEngine

open Go

inductive PolicyPath where
  | importPath
  | exportPath
  | all
deriving DecidableEq, Repr

structure PolicyEngineFilterEntityParams where
  destNetIp : String
  nextHopIp : String
  routeProtocol : String
  neighbor : String
  createPath : Bool
  deletePath : Bool
  policyList : Option (List String)
  policyHitCounter : Int
deriving DecidableEq, Repr

structure ConditionsAndActionsList where
  conditionList : List PolicyCondition
  actionList : List PolicyAction

/-- What the engine tells the application about a statement that was applied. -/
structure PolicyDetails where
  policy : String
  policyStmt : String
  conditionList : List PolicyCondition
  actionList : List PolicyAction
  entityDeleted : Bool

section Engine

variable {World Index : Type} [DecidableEq Index]

/-- What the functions of the application can change while the engine runs. -/
structure Shared (World Index : Type) where
  world : World
  policyEntityMap : GoMap Index (GoMap String ConditionsAndActionsList)

/-- The functions an application has registered with its engine; the tables are not theirs. -/
structure Application (World Index : Type) where
  conditionCheckfuncMap : Int → Option (PolicyEngineFilterEntityParams → PolicyCondition → Bool)
  actionfuncMap : Int → Option
    (ActionInfo → List ConditionInfo → PolicyStmt → Shared World Index → Shared World Index)
  undoActionfuncMap : Int → Option
    (ActionInfo → List ConditionInfo → PolicyStmt → Shared World Index → Shared World Index)
  defaultImportPolicyActionFunc : Option (Shared World Index → Shared World Index)
  defaultExportPolicyActionFunc : Option (Shared World Index → Shared World Index)
  isEntityPresentFunc : Option (Shared World Index → Bool)
  getPolicyEntityMapIndex : Option (PolicyEngineFilterEntityParams → String → Option Index)
  updateEntityDB : Option (PolicyDetails → Shared World Index → Shared World Index)

/-- A call in progress, with the statements that matched and the default calls made so far. -/
structure Filtering (World Index : Type) where
  shared : Shared World Index
  policyHit : Bool
  matched : List (String × String)
  defaulted : List PolicyPath

variable (app : Application World Index) (db : PolicyEngineDB)
  (entity : PolicyEngineFilterEntityParams)

/-- Conditions that are not in the database count neither way. -/
def policyEngineMatchConditions (conditions : List String) (matchConditions : String) :
    Bool × List PolicyCondition :=
  let (allConditionsMatch, anyConditionsMatch, conditionsList) :=
    conditions.foldl (fun (all, any, found) name =>
      match db.policyConditionsDB.lookup name with
      | none => (all, any, found)
      | some condition =>
        match app.conditionCheckfuncMap condition.conditionType with
        | none => (all, any, found)
        | some check =>
          if check entity condition then (all, true, found ++ [condition])
          else (false, any, found)) (true, false, [])
  if matchConditions = "all" ∧ allConditionsMatch then (true, conditionsList)
  else if matchConditions = "any" ∧ anyConditionsMatch then (true, conditionsList)
  else (false, conditionsList)

/-- The action types that are carried out: all but the setting of a distance. -/
def implementedActionTypes : List Int := [0, 1, 3, 4, 5, 6]

def policyEngineImplementActions (action : PolicyAction) (conditionInfoList : List ConditionInfo)
    (policyStmt : PolicyStmt) (shared : Shared World Index) :
    Shared World Index × List PolicyAction :=
  if action.actionType ∈ implementedActionTypes then
    let functions := if entity.deletePath then app.undoActionfuncMap else app.actionfuncMap
    match functions action.actionType with
    | none => (shared, [action])
    | some act => (act action.actionInfo conditionInfoList policyStmt shared, [action])
  else (shared, [])

/-- The list is never looked at. -/
def actionListHasAction (_actionList : List PolicyAction) (_actionType : Int) (_action : String) :
    Bool :=
  false

def addPolicyEntityMapEntry (policy policyStmt : String) (conditionList : List PolicyCondition)
    (actionList : List PolicyAction) (shared : Shared World Index) : Shared World Index :=
  match app.getPolicyEntityMapIndex with
  | none => shared
  | some index =>
    match index entity policy with
    | none => shared
    | some policyEntityMapIndex =>
      let policyStmtMap := (shared.policyEntityMap.lookup policyEntityMapIndex).getD ∅
      if (policyStmtMap.lookup policyStmt).isSome then shared
      else { shared with
        policyEntityMap := shared.policyEntityMap.insert policyEntityMapIndex
          (policyStmtMap.insert policyStmt ⟨conditionList, actionList⟩) }

def deletePolicyEntityMapEntry (policy : String) (shared : Shared World Index) :
    Shared World Index :=
  match app.getPolicyEntityMapIndex with
  | none => shared
  | some index =>
    match index entity policy with
    | none => shared
    | some policyEntityMapIndex =>
      { shared with policyEntityMap := shared.policyEntityMap.erase policyEntityMapIndex }

/-- Whether a statement matches, with the conditions that did: its own and those added to it. -/
def stmtMatch (info : ApplyPolicyInfo) (policyStmt : PolicyStmt) :
    Bool × List PolicyCondition × List PolicyCondition :=
  if policyStmt.conditions = none ∧ info.conditions = none then (true, [], [])
  else
    let (own, policyConditionList) := policyEngineMatchConditions app db entity
      (policyStmt.conditions.getD []) policyStmt.matchConditions
    if own then
      let (added, conditionList) := policyEngineMatchConditions app db entity
        (info.conditions.getD []) "all"
      (added, policyConditionList, conditionList)
    else (false, policyConditionList, [])

/-- Apply one statement; the second result says whether the entity is gone. -/
def policyEngineApplyPolicyStmt (info : ApplyPolicyInfo) (policyStmt : PolicyStmt)
    (deleted : Bool) (state : Filtering World Index) : Filtering World Index × Bool :=
  let (hit, policyConditionList, conditionList) := stmtMatch app db entity info policyStmt
  if hit then
    let policy := info.applyPolicy
    let conditionInfoList :=
      policyConditionList.map (·.conditionInfo) ++ conditionList.map (·.conditionInfo)
    let (shared, actionList) := policyEngineImplementActions app entity info.action
      conditionInfoList policyStmt state.shared
    let deleted := if actionListHasAction actionList 0 "Reject" then true else deleted
    let deleted := match app.isEntityPresentFunc with
      | none => deleted
      | some isEntityPresent => !isEntityPresent shared
    let shared := addPolicyEntityMapEntry app entity policy.name policyStmt.name
      (policyConditionList ++ conditionList) actionList shared
    let shared := match app.updateEntityDB with
      | none => shared
      | some update =>
        update ⟨policy.name, policyStmt.name, conditionList, actionList, deleted⟩ shared
    (⟨shared, true, state.matched ++ [(policy.name, policyStmt.name)], state.defaulted⟩, deleted)
  else ({ state with policyHit := false }, deleted)

/-- The statements of a policy from some precedence on. -/
def applyPolicyStmts (info : ApplyPolicyInfo) (stmtList : List String) :
    List Int → Bool → Filtering World Index → Filtering World Index
  | [], _, state => state
  | key :: policyStmtKeys, deleted, state =>
    let name := (info.applyPolicy.policyStmtPrecedenceMap.lookup key).getD ""
    if stmtList ≠ [] ∧ name ∉ stmtList then applyPolicyStmts info stmtList policyStmtKeys deleted state
    else
      match db.policyStmtDB.lookup name with
      | none => applyPolicyStmts info stmtList policyStmtKeys deleted state
      | some policyStmt =>
        let (state, deleted) := policyEngineApplyPolicyStmt app db entity info policyStmt deleted state
        if deleted then state
        else if state.policyHit ∧ info.applyPolicy.matchType = "any" then state
        else applyPolicyStmts info stmtList policyStmtKeys deleted state

/-- The keys of a map in ascending order. -/
def sortedKeys (map : GoMap Int String) : List Int := map.keys.insertionSort (· ≤ ·)

def policyEngineApplyPolicy (info : ApplyPolicyInfo) (stmtList : List String)
    (state : Filtering World Index) : Filtering World Index :=
  applyPolicyStmts app db entity info stmtList (sortedKeys info.applyPolicy.policyStmtPrecedenceMap)
    false state

/-- The applications of a policy, up to the first that leaves a hit. -/
def applyInfos : List ApplyPolicyInfo → Filtering World Index → Filtering World Index
  | [], state => state
  | info :: applyList, state =>
    let state := policyEngineApplyPolicy app db entity info [] state
    if state.policyHit then state else applyInfos applyList state

/-- Whether a policy is marked as no longer valid; its slot is an eight-bit number. -/
def isInvalidated (policy : Policy) : Outcome Unit Bool :=
  let idx := policy.localDBSliceIdx.toInt
  match db.localPolicyDB with
  | none => .ok false
  | some localPolicyDB =>
    if idx < localPolicyDB.length then
      if idx < 0 then .panic
      else .ok (localPolicyDB[idx.toNat]?.map (·.isValid) == some false)
    else .ok false

variable (policyPath : PolicyPath) (state : Filtering World Index)

/-- One policy of the path: only what is valid and applied somewhere has an effect. -/
def filterPolicy (policy : Policy) : Outcome Unit (Filtering World Index) := do
  if ← isInvalidated db policy then return state
  match db.applyPolicyMap.lookup policy.name with
  | none => return state
  | some info =>
    if info.count = 0 then return state
    return applyInfos app db entity info.infoList state

def pathPrecedenceMap : GoMap Int String :=
  match policyPath with
  | .importPath => db.importPolicyPrecedenceMap
  | .exportPath => db.exportPolicyPrecedenceMap
  | .all => ∅

/-- A policy is passed over when it is marked as one of the other path. -/
def otherPath (policy : Policy) : Bool :=
  policy.exportPolicy && policyPath = .importPath || policy.importPolicy && policyPath = .exportPath

/-- One round of the filter; on the delete path a missing policy leaves the index where it is. -/
def filterRound (policyKeys : List Int) (state : Nat × Filtering World Index) :
    Outcome Unit (Round (Nat × Filtering World Index) (Filtering World Index)) := do
  let (idx, filtering) := state
  if entity.deletePath then
    match entity.policyList with
    | none => return .stop filtering
    | some policyList =>
      match policyList[idx]? with
      | none => return .stop filtering
      | some name =>
        match db.policyDB.lookup name with
        | none => return .next (idx, filtering)
        | some policy =>
          if otherPath policyPath policy then return .next (idx + 1, filtering)
          return .next (idx + 1, ← filterPolicy app db entity filtering policy)
  else if entity.createPath then
    match policyKeys[idx]? with
    | none => return .stop filtering
    | some key =>
      let policyName := ((pathPrecedenceMap db policyPath).lookup key).getD ""
      match db.policyDB.lookup policyName with
      | none => return .stop filtering
      | some policy => return .next (idx + 1, ← filterPolicy app db entity filtering policy)
  else return .stop filtering

/-- The function to call when no policy was hit. -/
def defaultPolicyActionFunc : Option (Shared World Index → Shared World Index) :=
  match policyPath with
  | .importPath => app.defaultImportPolicyActionFunc
  | .exportPath => app.defaultExportPolicyActionFunc
  | .all => none

/-- The counter that decides about the default policy is that of the entity as it came in. -/
def applyDefault : Filtering World Index :=
  if entity.policyHitCounter = 0 then
    match defaultPolicyActionFunc app policyPath with
    | none => state
    | some act =>
      { state with shared := act state.shared, defaulted := state.defaulted ++ [policyPath] }
  else state

def policyEngineFilter (fuel : Nat) (policyPath : PolicyPath) (shared : Shared World Index) :
    Outcome Unit (Filtering World Index) := do
  let policyKeys := sortedKeys (pathPrecedenceMap db policyPath)
  let filtering ← loop (filterRound app db entity policyPath policyKeys) fuel
    (0, ⟨shared, false, [], []⟩)
  let filtering := applyDefault app entity policyPath filtering
  if entity.deletePath then
    return { filtering with shared := deletePolicyEntityMapEntry app entity "" filtering.shared }
  else return filtering

end Engine

end FlexSwitch.PolicyEngine
