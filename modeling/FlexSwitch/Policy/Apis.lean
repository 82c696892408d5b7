import FlexSwitch.Policy.Tables

/-!
The calls that define conditions' statements and policies' statements.

Each returns the tables as it leaves them and the error it reports, since an error does not undo
what was done before it.
-/

namespace FlexSwitch.PolicyEngine

open Go

inductive TableOp where
  | add
  | del
deriving DecidableEq, Repr

structure PolicyStmtConfig where
  name : String
  matchConditions : String
  conditions : List String
  actions : List String
deriving DecidableEq, Repr

structure PolicyDefinitionStmtPrecedence where
  precedence : Int
  statement : String
deriving DecidableEq, Repr

structure PolicyDefinitionConfig where
  name : String
  precedence : Int
  matchType : String
  policyDefinitionStatements : List PolicyDefinitionStmtPrecedence
  policyType : String
deriving DecidableEq, Repr

/-- How texts are read as addresses and numbers. -/
structure TextReader where
  getNetworkPrefixFromCIDR : String → Option (List UInt8)
  atoi : String → Option Int

/-- The tables after a call, and its error. -/
abbrev Result := PolicyEngineDB × Option String

/-- Add a name to a list, or take its first occurrence out. -/
def updateNames (names : List String) (name : String) : TableOp → List String
  | .add => names ++ [name]
  | .del => names.erase name

/-- A table of lists of names; there is nothing to delete where there is no list. -/
def updateNameTable (table : GoMap String (List String)) (key name : String) (op : TableOp) :
    GoMap String (List String) :=
  match table.lookup key, op with
  | none, .del => table
  | names, op => table.insert key (updateNames (names.getD []) name op)

def updateLocalDB (slice : List LocalDB) (name : String) : TableOp → List LocalDB
  | .add => slice ++ [⟨name, true⟩]
  | .del => slice.eraseP fun record => record.keyPrefix = name

section

variable (texts : TextReader) (db : PolicyEngineDB)

def updateProtocolPolicyTable (protoType name : String) (op : TableOp) : PolicyEngineDB :=
  { db with protocolPolicyListDB := updateNameTable db.protocolPolicyListDB protoType name op }

/-- The search for the entry to delete never reports that it was found. -/
def updatePrefixPolicyTableWithPrefix (ipAddr name : String) (op : TableOp)
    (lowRange highRange : Int) : PolicyEngineDB :=
  match texts.getNetworkPrefixFromCIDR ipAddr with
  | none => db
  | some ipPrefix =>
    match db.prefixPolicyListDB.lookup ipPrefix, op with
    | none, .del => db
    | policyList, .add =>
      { db with
        prefixPolicyListDB := db.prefixPolicyListDB.insert ipPrefix
          (policyList.getD [] ++ [⟨ipPrefix, name, lowRange, highRange⟩]) }
    | some policyList, .del =>
      { db with prefixPolicyListDB := db.prefixPolicyListDB.insert ipPrefix policyList }

def updatePrefixPolicyTableWithMaskRange (ipAddr masklength name : String) (op : TableOp) :
    PolicyEngineDB :=
  match masklength.splitOn "-" with
  | [low, high] =>
    match texts.atoi low, texts.atoi high with
    | some lowRange, some highRange =>
      updatePrefixPolicyTableWithPrefix texts db ipAddr name op lowRange highRange
    | _, _ => db
  | _ => db

/-- The prefixes of a prefix set are not entered. -/
def updatePrefixPolicyTable (condition : MatchPrefixConditionInfo) (name : String) (op : TableOp) :
    PolicyEngineDB :=
  if condition.usePrefixSet then db
  else if condition.policyPrefix.masklengthRange = "exact" then
    updatePrefixPolicyTableWithPrefix texts db condition.policyPrefix.ipPrefix name op (-1) (-1)
  else
    updatePrefixPolicyTableWithMaskRange texts db condition.policyPrefix.ipPrefix
      condition.policyPrefix.masklengthRange name op

/-- The tables that find a statement by what its condition matches. -/
def updateConditionTables (condition : PolicyCondition) (name : String) (op : TableOp) :
    Outcome Unit PolicyEngineDB :=
  if condition.conditionType = policyConditionTypeProtocolMatch ∨
      condition.conditionType = policyConditionTypeNeighborMatch then
    match condition.conditionInfo with
    | .text value => .ok (updateProtocolPolicyTable db value name op)
    | .matchPrefix _ => .panic
  else if condition.conditionType = policyConditionTypeDstIpPrefixMatch then
    match condition.conditionInfo with
    | .text _ => .panic
    | .matchPrefix info => .ok (updatePrefixPolicyTable texts db info name op)
  else .ok db

def updateConditions (stmtName conditionName : String) (op : TableOp) : Outcome Unit Result :=
  match db.policyConditionsDB.lookup conditionName with
  | none => .ok (db, some "Condition name not defined")
  | some condition => do
    let db ← updateConditionTables texts db condition stmtName op
    match condition.policyStmtList, op with
    | none, .del => return (db, some "condition.PolicyStmtList Empty")
    | list, op =>
      return ({ db with
        policyConditionsDB := db.policyConditionsDB.insert conditionName
          { condition with policyStmtList := some (updateNames (list.getD []) stmtName op) } }, none)

def updateStatements (policy : String) (stmt : PolicyStmt) (op : TableOp) : PolicyEngineDB :=
  match stmt.policyList, op with
  | none, .del => db
  | list, op =>
    { db with
      policyStmtDB := db.policyStmtDB.insert stmt.name
        { stmt with policyList := some (updateNames (list.getD []) policy op) } }

def updateGlobalStatementTable (policy stmt : String) (op : TableOp) : Result :=
  match db.policyStmtPolicyMapDB.lookup stmt, op with
  | none, .del => (db, some "Cannot find the policy map for this stmt, so cannot delete")
  | list, op =>
    ({ db with
      policyStmtPolicyMapDB := db.policyStmtPolicyMapDB.insert stmt
        (updateNames (list.getD []) policy op) }, none)

end

section Statements

variable (texts : TextReader)

variable (db : PolicyEngineDB) (cfg : PolicyStmtConfig)

def validatePolicyStatementCreate : Outcome Unit (Option String) :=
  if (db.policyStmtDB.lookup cfg.name).isSome then .ok (some "Duplicate policy definition")
  else if ¬ (cfg.matchConditions = "any" ∨ cfg.matchConditions = "all") then
    .ok (some "Invalid match conditions - try any/all")
  else
    match cfg.actions with
    | [] => .panic
    | [action] =>
      if action ≠ "permit" ∧ action ≠ "deny" then .ok (some "Invalid stmt actions")
      else if cfg.conditions.all fun name => (db.policyConditionsDB.lookup name).isSome then .ok none
      else .ok (some "Condition not found")
    | _ :: _ :: _ => .ok (some "Cannot have more than 1 action in a policy")

/-- The conditions of a new statement, entered one by one. -/
def createConditions (db : PolicyEngineDB) (policyStmt : PolicyStmt) :
    List String → Outcome Unit (PolicyEngineDB × PolicyStmt × Option String)
  | [] => .ok (db, policyStmt, none)
  | name :: names => do
    let policyStmt := { policyStmt with conditions := some (policyStmt.conditions.getD [] ++ [name]) }
    let (db, err) ← updateConditions texts db policyStmt.name name .add
    if err.isSome then return (db, policyStmt, some "Error with updateConditions")
    createConditions db policyStmt names

def createPolicyStatement : Outcome Unit Result := do
  match ← validatePolicyStatementCreate db cfg with
  | some err => return (db, some err)
  | none =>
    let newPolicyStmt : PolicyStmt := ⟨cfg.name, cfg.matchConditions, none, [], none, 0⟩
    let (db, newPolicyStmt, err) ← createConditions texts db newPolicyStmt cfg.conditions
    if err.isSome then return (db, err)
    let newPolicyStmt := { newPolicyStmt with
      actions := cfg.actions.take 1
      localDBSliceIdx := Int8.ofInt db.localPolicyStmtDB.length }
    return ({ db with
      policyStmtDB := db.policyStmtDB.insert cfg.name newPolicyStmt
      localPolicyStmtDB := updateLocalDB db.localPolicyStmtDB cfg.name .add }, none)

/-- The error of each condition is dropped. -/
def deleteConditions (stmtName : String) (names : List String) : Outcome Unit PolicyEngineDB :=
  names.foldlM (fun db name => do
    let (db, _) ← updateConditions texts db stmtName name .del
    return db) db

def deletePolicyStatement : Outcome Unit Result :=
  match db.policyStmtDB.lookup cfg.name with
  | none => .ok (db, some "No policy statement with this name found")
  | some policyStmtInfo => do
    if policyStmtInfo.policyList.getD [] ≠ [] then
      return (db, some "This policy stmt is being used by one or more policies. Delete the policies before deleting the stmt")
    let db := { db with
      policyStmtDB := db.policyStmtDB.erase cfg.name
      localPolicyStmtDB := updateLocalDB db.localPolicyStmtDB cfg.name .del }
    let db ← deleteConditions texts db policyStmtInfo.name (policyStmtInfo.conditions.getD [])
    return (db, none)

/-- One condition of an update; the tables know nothing of one that does not exist. -/
def addCondition (stmtName : String) (db : PolicyEngineDB) (name : String) :
    Outcome Unit PolicyEngineDB :=
  match db.policyConditionsDB.lookup name with
  | none => .ok db
  | some condition => do
    let (db, _) ← updateConditions texts db stmtName condition.name .add
    return db

/-- Conditions that do not exist are noted as conditions of the statement all the same. -/
def updateAddPolicyStmtConditions : Outcome Unit Result :=
  match db.policyStmtDB.lookup cfg.name with
  | none => .ok (db, some ("Invalid update operation for a policyStmt: " ++ cfg.name ++
      "  not created\n"))
  | some policyStmt => do
    let db ← cfg.conditions.foldlM (addCondition texts policyStmt.name) db
    let policyStmt := { policyStmt with
      conditions := some (policyStmt.conditions.getD [] ++ cfg.conditions) }
    return ({ db with policyStmtDB := db.policyStmtDB.insert cfg.name policyStmt }, none)

/-- Take the marked names out; the last name moves to each place that comes free. -/
def removeMarked (marked : List String) : Nat → List String → Nat → List String
  | 0, names, _ => names
  | fuel + 1, names, idx =>
    match names[idx]? with
    | none => names
    | some name =>
      if name ∈ marked then
        removeMarked marked fuel ((names.set idx (names.getLast?.getD "")).dropLast) idx
      else removeMarked marked fuel names (idx + 1)

/-- The tables are updated as if the conditions were added. -/
def updateRemovePolicyStmtConditions : Outcome Unit Result :=
  match db.policyStmtDB.lookup cfg.name with
  | none => .ok (db, some ("Invalid update operation for a policyStmt: " ++ cfg.name ++
      "  not created\n"))
  | some policyStmt => do
    let cfgCondMap := cfg.conditions.filter fun name => (db.policyConditionsDB.lookup name).isSome
    let db ← cfg.conditions.foldlM (addCondition texts policyStmt.name) db
    let conditions := policyStmt.conditions.map fun names =>
      removeMarked cfgCondMap names.length names 0
    return ({ db with
      policyStmtDB := db.policyStmtDB.insert cfg.name { policyStmt with conditions } }, none)

end Statements

section Definitions

variable (db : PolicyEngineDB) (cfg : PolicyDefinitionConfig)

def conditionCheckForPolicyType (conditionName policyType : String) : Bool :=
  match db.policyConditionsDB.lookup conditionName with
  | none => false
  | some condition =>
    ((db.validConditionsForPolicyTypeMap.lookup policyType).getD []).contains condition.conditionType

/-- The first statement that is not defined or does not fit decides the error. -/
def validateStatements (db : PolicyEngineDB) (policyType : String) :
    List PolicyDefinitionStmtPrecedence → Option String
  | [] => none
  | entry :: entries =>
    match db.policyStmtDB.lookup entry.statement with
    | none => some "stmt name not defined"
    | some stmt =>
      if (stmt.conditions.getD []).all fun name => conditionCheckForPolicyType db name policyType then
        validateStatements db policyType entries
      else some "Incompatible condition type "

def validatePolicyDefinitionCreate : Option String :=
  if (db.policyDB.lookup cfg.name).isSome then some "Duplicate policy definition"
  else validateStatements db cfg.policyType cfg.policyDefinitionStatements

/-- The two tables that say which policies use a statement. -/
def updateStatementTables (policy stmt : String) (op : TableOp) : PolicyEngineDB :=
  let db := match db.policyStmtDB.lookup stmt with
    | none => db
    | some policyStmt => updateStatements db policy policyStmt op
  (updateGlobalStatementTable db policy stmt op).1

/-- The statements of a new policy; a precedence that is taken undoes those entered so far. -/
def createStatements (db : PolicyEngineDB) (policy : String)
    (precedenceMap : GoMap Int String) (entered : List String) :
    List PolicyDefinitionStmtPrecedence → PolicyEngineDB × GoMap Int String × Option String
  | [] => (db, precedenceMap, none)
  | entry :: entries =>
    if (precedenceMap.lookup entry.precedence).getD "" ≠ "" then
      (entered.foldl (fun db stmt => updateStatementTables db policy stmt .del) db, precedenceMap,
        some " Cannot add multiple statements at the same priority level during create")
    else
      createStatements (updateStatementTables db policy entry.statement .add) policy
        (precedenceMap.insert entry.precedence entry.statement) (entered ++ [entry.statement])
        entries

def createPolicyDefinition : Result :=
  match validatePolicyDefinitionCreate db cfg with
  | some err => (db, some err)
  | none =>
    let (db, precedenceMap, err) := createStatements db cfg.name ∅ [] cfg.policyDefinitionStatements
    if err.isSome then (db, err)
    else
      let newPolicy : Policy := ⟨cfg.name, cfg.precedence, cfg.matchType, precedenceMap,
        Int8.ofInt (db.localPolicyDB.getD []).length, false, false⟩
      ({ db with
        policyDB := db.policyDB.insert cfg.name newPolicy
        localPolicyDB := some (updateLocalDB (db.localPolicyDB.getD []) cfg.name .add) }, none)

/-- The error of the last statement is what the caller sees. -/
def statementError (stmts : List String) : Option String :=
  match stmts.getLast? with
  | none => none
  | some stmt =>
    match db.policyStmtDB.lookup stmt with
    | none => some "statement name not defined"
    | some _ => none

def deletePolicyDefinition (order : MapOrder) (db : PolicyEngineDB) (cfg : PolicyDefinitionConfig) :
    Result :=
  match db.policyDB.lookup cfg.name with
  | none => (db, some "Policy not defined")
  | some policyInfo =>
    if (db.applyPolicyMap.lookup policyInfo.name).isSome then
      (db, some "Policy being used, cannot delete\n")
    else
      let stmts := (order.range "DeletePolicyDefinition" policyInfo.policyStmtPrecedenceMap).map
        Prod.snd
      let err := statementError db stmts
      let db := { db with
        policyDB := db.policyDB.erase cfg.name
        localPolicyDB := db.localPolicyDB.map fun slice => updateLocalDB slice cfg.name .del }
      let db := stmts.foldl (fun db stmt => updateStatementTables db policyInfo.name stmt .del) db
      let exportMap := if policyInfo.exportPolicy then
        db.exportPolicyPrecedenceMap.erase policyInfo.precedence else db.exportPolicyPrecedenceMap
      let importMap := if policyInfo.importPolicy then
        db.importPolicyPrecedenceMap.erase policyInfo.precedence else db.importPolicyPrecedenceMap
      ({ db with exportPolicyPrecedenceMap := exportMap, importPolicyPrecedenceMap := importMap },
        err)

/-- The precedence map is shared with the stored policy, so each entry shows at once. -/
def setPrecedence (name : String) (policy : Policy) (precedence : Int) (stmt : String) :
    PolicyEngineDB × Policy :=
  let policy := { policy with
    policyStmtPrecedenceMap := policy.policyStmtPrecedenceMap.insert precedence stmt }
  ({ db with policyDB := db.policyDB.insert name policy }, policy)

/-- A statement that does not exist is entered like the others. -/
def addStatements (name : String) (db : PolicyEngineDB) (policy : Policy) :
    List PolicyDefinitionStmtPrecedence → Result
  | [] => (db, none)
  | entry :: entries =>
    let taken := (policy.policyStmtPrecedenceMap.lookup entry.precedence).getD ""
    if taken ≠ "" then
      (db, some ("policy add update: Already a statement  " ++ taken ++ "  at the priority: " ++
        toString entry.precedence ++ "\n"))
    else
      let (db, policy) := setPrecedence db name policy entry.precedence entry.statement
      addStatements name (updateStatementTables db policy.name entry.statement .add) policy entries

def updateAddPolicyDefinitionStmts : Result :=
  match db.policyDB.lookup cfg.name with
  | none => (db, some ("Invalid update operation for a policy: " ++ cfg.name ++ "  not created\n"))
  | some policy => addStatements cfg.name db policy cfg.policyDefinitionStatements

/-- The slot to clear is the one the caller names, whatever statement is in it. -/
def removeStatements (name : String) (db : PolicyEngineDB) (policy : Policy) :
    List PolicyDefinitionStmtPrecedence → PolicyEngineDB
  | [] => db
  | entry :: entries =>
    let db := updateStatementTables db policy.name entry.statement .del
    let (db, policy) := setPrecedence db name policy entry.precedence ""
    removeStatements name db policy entries

def updateRemovePolicyDefinitionStmts : Result :=
  match db.policyDB.lookup cfg.name with
  | none => (db, some ("Invalid update operation for a policy: " ++ cfg.name ++ "  not created\n"))
  | some policyInfo =>
    (removeStatements cfg.name db policyInfo cfg.policyDefinitionStatements,
      statementError db (cfg.policyDefinitionStatements.map (·.statement)))

end Definitions

end FlexSwitch.PolicyEngine
