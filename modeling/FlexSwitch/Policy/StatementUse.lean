import FlexSwitch.Policy.Apis

/-! Statements know the policies that use them. -/

namespace FlexSwitch.PolicyEngine

open Go List Outcome TableOp

variable {stmts : List String} {stmt name : String} {policyStmt : PolicyStmt}
  {cfg : PolicyStmtConfig} {entries : List PolicyDefinitionStmtPrecedence}

section

variable (db : PolicyEngineDB)

/-- How often the precedence map of a policy names a statement. -/
def named (policy stmt : String) : Nat :=
  match db.policyDB.lookup policy with
  | none => 0
  | some info => info.policyStmtPrecedenceMap.valueCount stmt

/-- How often a statement lists a policy. -/
def listed (stmt policy : String) : Nat :=
  match db.policyStmtDB.lookup stmt with
  | none => 0
  | some info => (info.policyList.getD []).count policy

/-- How often the table of all statements lists a policy for a statement. -/
def tabled (stmt policy : String) : Nat :=
  ((db.policyStmtPolicyMapDB.lookup stmt).getD []).count policy

def Defined (stmt : String) : Prop :=
  (db.policyStmtDB.lookup stmt).isSome = true

/-- Every statement is stored under its own name. -/
def StmtsNamed : Prop :=
  ∀ name stmt, db.policyStmtDB.lookup name = some stmt → stmt.name = name

/--
The tables agree on which policies use which statements.

The empty name stands for a slot that was cleared, so it is no statement's name.
-/
structure Linked (db : PolicyEngineDB) : Prop where
  stmtsNamed : StmtsNamed db
  unnamed : ¬ Defined db ""
  policiesNamed : ∀ name policy, db.policyDB.lookup name = some policy → policy.name = name
  defined : ∀ policy stmt, stmt ≠ "" → 0 < named db policy stmt → Defined db stmt
  listed : ∀ policy stmt, Defined db stmt → listed db stmt policy = named db policy stmt
  tabled : ∀ policy stmt, stmt ≠ "" → tabled db stmt policy = named db policy stmt

/-- What adding or deleting does to a count. -/
def TableOp.shift : TableOp → Nat → Nat → Nat
  | .add, count, change => count + change
  | .del, count, change => count - change

end

theorem TableOp.shift_zero (op : TableOp) (count : Nat) : op.shift count 0 = count := by
  cases op <;> rfl

theorem TableOp.shift_shift (op : TableOp) (count first second : Nat) :
    op.shift (op.shift count first) second = op.shift count (first + second) := by
  cases op
  · exact add_assoc _ _ _
  · exact Nat.sub_sub _ _ _

theorem count_updateNames (names : List String) (name other : String) (op : TableOp) :
    (updateNames names name op).count other =
      op.shift (names.count other) (if other = name then 1 else 0) := by
  by_cases same : other = name
  · subst same
    cases op <;> simp [updateNames, TableOp.shift]
  · have apart : name ≠ other := fun equal => same equal.symm
    cases op <;> simp [updateNames, TableOp.shift, same, apart]

/-- The tables that list policies for statements are the same. -/
structure SameLists (before after : PolicyEngineDB) : Prop where
  stmts : after.policyStmtDB = before.policyStmtDB
  table : after.policyStmtPolicyMapDB = before.policyStmtPolicyMapDB

theorem SameLists.trans {first second third : PolicyEngineDB} (one : SameLists first second)
    (two : SameLists second third) : SameLists first third :=
  ⟨two.stmts.trans one.stmts, two.table.trans one.table⟩

variable {after : PolicyEngineDB}

theorem Linked.congr {before : PolicyEngineDB} (linked : Linked before)
    (same : SameLists before after) (policies : after.policyDB = before.policyDB) :
    Linked after := by
  obtain ⟨stmtsNamed, unnamed, policiesNamed, defined, listed, tabled⟩ := linked
  constructor <;>
    simpa only [StmtsNamed, Defined, PolicyEngine.listed, PolicyEngine.tabled, named, same.stmts,
      policies, same.table]

/-- Some statements of a policy were entered in both tables, or taken out of them. -/
structure StatementsUpdated (policy : String) (op : TableOp) (stmts : List String)
    (before after : PolicyEngineDB) : Prop where
  stmtsNamed : StmtsNamed after
  defined : ∀ stmt, Defined after stmt ↔ Defined before stmt
  listed : ∀ stmt other, Defined before stmt → listed after stmt other =
    op.shift (listed before stmt other) (if other = policy then stmts.count stmt else 0)
  tabled : ∀ stmt other, tabled after stmt other =
    op.shift (tabled before stmt other) (if other = policy then stmts.count stmt else 0)

variable {start : PolicyEngineDB}

namespace StatementsUpdated

variable {policy : String} {op : TableOp} {before middle after : PolicyEngineDB}

theorem nil (stmtsNamed : StmtsNamed before) : StatementsUpdated policy op [] before before where
  stmtsNamed := stmtsNamed
  defined _ := Iff.rfl
  listed _ _ _ := by simp [shift_zero]
  tabled _ _ := by simp [shift_zero]

theorem append {first second : List String} (one : StatementsUpdated policy op first before middle)
    (two : StatementsUpdated policy op second middle after) :
    StatementsUpdated policy op (first ++ second) before after where
  stmtsNamed := two.stmtsNamed
  defined stmt := (two.defined stmt).trans (one.defined stmt)
  listed stmt other known := by
    rw [two.listed stmt other ((one.defined stmt).mpr known), one.listed stmt other known,
      shift_shift, count_append]
    split <;> rfl
  tabled stmt other := by
    rw [two.tabled, one.tabled, shift_shift, count_append]
    split <;> rfl

theorem congr {last : PolicyEngineDB} (first : SameLists start before)
    (updated : StatementsUpdated policy op stmts before after) (second : SameLists after last) :
    StatementsUpdated policy op stmts start last := by
  obtain ⟨stmtsNamed, defined, listed, tabled⟩ := updated
  constructor <;>
    simpa only [StmtsNamed, Defined, PolicyEngine.listed, PolicyEngine.tabled, ← first.stmts,
      ← first.table, second.stmts, second.table]

/-- The tables agree again when the policy has moved with them. -/
theorem linked (updated : StatementsUpdated policy op stmts before after) (linked : Linked before)
    (policiesNamed : ∀ name info, after.policyDB.lookup name = some info → info.name = name)
    (known : op = .add → ∀ stmt ∈ stmts, stmt ≠ "" → Defined before stmt)
    (moved : ∀ other stmt, stmt ≠ "" → named after other stmt =
      op.shift (named before other stmt) (if other = policy then stmts.count stmt else 0)) :
    Linked after where
  stmtsNamed := updated.stmtsNamed
  unnamed := fun present => linked.unnamed ((updated.defined "").mp present)
  policiesNamed := policiesNamed
  defined other stmt proper used := by
    rw [updated.defined]
    rw [moved other stmt proper] at used
    -- It was named before, or it is one of those added now.
    by_cases usedBefore : 0 < named before other stmt
    · exact linked.defined other stmt proper usedBefore
    · have unused : named before other stmt = 0 := by omega
      rw [unused] at used
      cases op with
      | add =>
        by_cases own : other = policy
        · have member : 0 < stmts.count stmt := by simpa [own, TableOp.shift] using used
          exact known rfl stmt (count_pos_iff.mp member) proper
        · simp [own, TableOp.shift] at used
      | del => simp [TableOp.shift] at used
  listed other stmt present := by
    have presentBefore := (updated.defined stmt).mp present
    have proper : stmt ≠ "" := by
      rintro rfl
      exact linked.unnamed presentBefore
    rw [updated.listed stmt other presentBefore, linked.listed other stmt presentBefore,
      moved other stmt proper]
  tabled other stmt proper := by
    rw [updated.tabled, linked.tabled other stmt proper, moved other stmt proper]

/-- The same where the policies were changed before or after the lists. -/
theorem relink {last : PolicyEngineDB}
    (updated : StatementsUpdated policy op stmts before after) (linked : Linked start)
    (first : SameLists start before) (second : SameLists after last)
    (policiesNamed : ∀ name info, last.policyDB.lookup name = some info → info.name = name)
    (known : op = .add → ∀ stmt ∈ stmts, stmt ≠ "" → Defined start stmt)
    (moved : ∀ other stmt, stmt ≠ "" → named last other stmt =
      op.shift (named start other stmt) (if other = policy then stmts.count stmt else 0)) :
    Linked last :=
  (congr first updated second).linked linked policiesNamed known moved

end StatementsUpdated

section Tables

variable {db : PolicyEngineDB}

theorem updateNameTable_lookup (table : GoMap String (List String)) (key name other : String)
    (op : TableOp) :
    ((updateNameTable table key name op).lookup other).getD [] =
      if other = key then updateNames ((table.lookup key).getD []) name op
      else (table.lookup other).getD [] := by
  by_cases same : other = key
  · subst same
    cases found : table.lookup other <;> cases op <;> simp [updateNameTable, found, updateNames]
  · cases found : table.lookup key <;> cases op <;> simp [updateNameTable, found, same]

theorem updateNameTable_count (table : GoMap String (List String)) (key name other : String)
    (op : TableOp) (user : String) :
    (((updateNameTable table key name op).lookup other).getD []).count user =
      op.shift (((table.lookup other).getD []).count user)
        (if user = name ∧ other = key then 1 else 0) := by
  rw [updateNameTable_lookup]
  by_cases same : other = key
  · subst same
    simpa using count_updateNames _ name user op
  · simp [same, shift_zero]

section

variable (db) (policy stmt : String) (op : TableOp)

theorem updateGlobalStatementTable_table :
    (updateGlobalStatementTable db policy stmt op).1.policyStmtPolicyMapDB =
      updateNameTable db.policyStmtPolicyMapDB stmt policy op := by
  cases found : db.policyStmtPolicyMapDB.lookup stmt <;> cases op <;>
    simp [updateGlobalStatementTable, updateNameTable, found]

/-- The entry of a statement in the table of all statements moves by one. -/
theorem updateGlobalStatementTable_tabled (other user : String) :
    tabled (updateGlobalStatementTable db policy stmt op).1 other user =
      op.shift (tabled db other user) (if user = policy then [stmt].count other else 0) := by
  rw [tabled, updateGlobalStatementTable_table, updateNameTable_count, tabled]
  by_cases same : other = stmt
  · subst same
    simp
  · have apart : stmt ≠ other := fun equal => same equal.symm
    simp [same, apart]

theorem updateGlobalStatementTable_frame :
    (updateGlobalStatementTable db policy stmt op).1.policyStmtDB = db.policyStmtDB ∧
      (updateGlobalStatementTable db policy stmt op).1.policyDB = db.policyDB := by
  cases found : db.policyStmtPolicyMapDB.lookup stmt <;> cases op <;>
    simp [updateGlobalStatementTable, found]

end

/-- The parts of a statement that the tables speak about. -/
def stmtUse (db : PolicyEngineDB) (stmt : String) : Option (String × List String) :=
  (db.policyStmtDB.lookup stmt).map fun info => (info.name, info.policyList.getD [])

theorem defined_iff_stmtUse : Defined db stmt ↔ (stmtUse db stmt).isSome = true := by
  rw [Defined, stmtUse, Option.isSome_map]

theorem listed_eq_stmtUse (stmt policy : String) :
    listed db stmt policy = (((stmtUse db stmt).map Prod.snd).getD []).count policy := by
  cases found : db.policyStmtDB.lookup stmt <;> simp [listed, stmtUse, found]

theorem stmtsNamed_iff_stmtUse :
    StmtsNamed db ↔ ∀ stmt use, stmtUse db stmt = some use → use.1 = stmt := by
  constructor
  · intro stmtsNamed stmt use used
    simp only [stmtUse, Option.map_eq_some_iff] at used
    obtain ⟨info, found, rfl⟩ := used
    exact stmtsNamed stmt info found
  · intro own stmt info found
    exact own stmt (info.name, info.policyList.getD []) (by simp [stmtUse, found])

/-- The list of a statement moves by one, and every statement stays under its name. -/
theorem updateStatements_stmtUse (found : db.policyStmtDB.lookup stmt = some policyStmt)
    (own : policyStmt.name = stmt) (policy : String) (op : TableOp) (other : String) :
    stmtUse (updateStatements db policy policyStmt op) other =
      if other = stmt then some (stmt, updateNames (policyStmt.policyList.getD []) policy op)
      else stmtUse db other := by
  subst own
  by_cases same : other = policyStmt.name
  · subst same
    cases list : policyStmt.policyList <;> cases op <;>
      simp [stmtUse, updateStatements, list, updateNames, found]
  · cases list : policyStmt.policyList <;> cases op <;> simp [stmtUse, updateStatements, list, same]

theorem updateStatements_frame (db : PolicyEngineDB) (policy : String) (policyStmt : PolicyStmt)
    (op : TableOp) :
    (updateStatements db policy policyStmt op).policyDB = db.policyDB ∧
      (updateStatements db policy policyStmt op).policyStmtPolicyMapDB =
        db.policyStmtPolicyMapDB := by
  cases list : policyStmt.policyList <;> cases op <;> simp [updateStatements, list]

theorem updateStatementTables_stmtUse (stmtsNamed : StmtsNamed db) (policy stmt : String)
    (op : TableOp) (other : String) :
    stmtUse (updateStatementTables db policy stmt op) other = if other = stmt then
        (stmtUse db stmt).map fun use => (use.1, updateNames use.2 policy op)
      else stmtUse db other := by
  rw [updateStatementTables]
  simp only [stmtUse, (updateGlobalStatementTable_frame _ _ _ _).1]
  cases found : db.policyStmtDB.lookup stmt with
  | none =>
    by_cases same : other = stmt
    · subst same
      simp [found]
    · simp [same]
  | some policyStmt =>
    have moved := updateStatements_stmtUse found (stmtsNamed stmt policyStmt found) policy op other
    simpa [stmtUse, stmtsNamed stmt policyStmt found] using moved

theorem updateStatementTables_policyDB (db : PolicyEngineDB) (policy stmt : String) (op : TableOp) :
    (updateStatementTables db policy stmt op).policyDB = db.policyDB := by
  rw [updateStatementTables, (updateGlobalStatementTable_frame _ _ _ _).2]
  cases db.policyStmtDB.lookup stmt with
  | none => rfl
  | some policyStmt => exact (updateStatements_frame db policy policyStmt op).1

theorem updateStatementTables_tabled (db : PolicyEngineDB) (policy stmt : String) (op : TableOp)
    (other user : String) :
    tabled (updateStatementTables db policy stmt op) other user =
      op.shift (tabled db other user) (if user = policy then [stmt].count other else 0) := by
  rw [updateStatementTables, updateGlobalStatementTable_tabled]
  cases db.policyStmtDB.lookup stmt with
  | none => rfl
  | some policyStmt => simp only [tabled, (updateStatements_frame db policy policyStmt op).2]

/-- The two tables of a statement move together. -/
theorem updateStatementTables_updated (stmtsNamed : StmtsNamed db) (policy stmt : String)
    (op : TableOp) :
    StatementsUpdated policy op [stmt] db (updateStatementTables db policy stmt op) where
  stmtsNamed := by
    rw [stmtsNamed_iff_stmtUse]
    intro other use used
    rw [updateStatementTables_stmtUse stmtsNamed] at used
    by_cases same : other = stmt
    · rw [if_pos same, Option.map_eq_some_iff] at used
      obtain ⟨old, held, rfl⟩ := used
      exact (stmtsNamed_iff_stmtUse.mp stmtsNamed stmt old held).trans same.symm
    · rw [if_neg same] at used
      exact stmtsNamed_iff_stmtUse.mp stmtsNamed other use used
  defined other := by
    rw [defined_iff_stmtUse, defined_iff_stmtUse, updateStatementTables_stmtUse stmtsNamed]
    by_cases same : other = stmt
    · simp [same]
    · simp [same]
  listed other user known := by
    rw [listed_eq_stmtUse, listed_eq_stmtUse, updateStatementTables_stmtUse stmtsNamed]
    by_cases same : other = stmt
    · subst same
      obtain ⟨use, held⟩ := Option.isSome_iff_exists.mp (defined_iff_stmtUse.mp known)
      rw [if_pos rfl, held]
      simpa using count_updateNames use.2 policy user op
    · have apart : stmt ≠ other := fun equal => same equal.symm
      simp [same, apart, shift_zero]
  tabled := updateStatementTables_tabled db policy stmt op

/-- What is done to one statement after the other is done to all of them. -/
theorem foldl_updated (stmtsNamed : StmtsNamed db) (policy : String) (op : TableOp)
    (stmts : List String) :
    StatementsUpdated policy op stmts db
      (stmts.foldl (fun db stmt => updateStatementTables db policy stmt op) db) := by
  induction stmts generalizing db with
  | nil => exact .nil stmtsNamed
  | cons stmt stmts ih =>
    have first := updateStatementTables_updated stmtsNamed policy stmt op
    exact first.append (ih first.stmtsNamed)

theorem foldl_policyDB (db : PolicyEngineDB) (policy : String) (op : TableOp)
    (stmts : List String) :
    (stmts.foldl (fun db stmt => updateStatementTables db policy stmt op) db).policyDB =
      db.policyDB := by
  induction stmts generalizing db with
  | nil => rfl
  | cons stmt stmts ih => rw [foldl_cons, ih, updateStatementTables_policyDB]

end Tables

section Conditions

variable {texts : TextReader} {db after : PolicyEngineDB}

/-- The tables of conditions are apart from those of statements and policies. -/
structure SameUse (before after : PolicyEngineDB) : Prop extends SameLists before after where
  policies : after.policyDB = before.policyDB

theorem SameUse.refl (db : PolicyEngineDB) : SameUse db db := ⟨⟨rfl, rfl⟩, rfl⟩

theorem SameUse.then {first second third : PolicyEngineDB} (one : SameUse first second)
    (two : SameUse second third) : SameUse first third :=
  ⟨one.toSameLists.trans two.toSameLists, two.policies.trans one.policies⟩

theorem SameUse.linked {before : PolicyEngineDB} (same : SameUse before after)
    (linked : Linked before) : Linked after :=
  linked.congr same.toSameLists same.policies

theorem updatePrefixPolicyTableWithPrefix_frame (ipAddr name : String) (op : TableOp)
    (low high : Int) : ∃ table, updatePrefixPolicyTableWithPrefix texts db ipAddr name op low high =
      { db with prefixPolicyListDB := table } := by
  rw [updatePrefixPolicyTableWithPrefix]
  cases texts.getNetworkPrefixFromCIDR ipAddr with
  | none => exact ⟨_, rfl⟩
  | some ipPrefix =>
    dsimp only
    cases db.prefixPolicyListDB.lookup ipPrefix <;> cases op <;> exact ⟨_, rfl⟩

theorem updatePrefixPolicyTable_frame (info : MatchPrefixConditionInfo) (name : String)
    (op : TableOp) : ∃ table,
      updatePrefixPolicyTable texts db info name op = { db with prefixPolicyListDB := table } := by
  rw [updatePrefixPolicyTable]
  split
  · exact ⟨_, rfl⟩
  · split
    · exact updatePrefixPolicyTableWithPrefix_frame ..
    · rw [updatePrefixPolicyTableWithMaskRange]
      split
      · split
        · exact updatePrefixPolicyTableWithPrefix_frame ..
        · exact ⟨_, rfl⟩
      · exact ⟨_, rfl⟩

theorem updateConditionTables_sameUse {condition : PolicyCondition} {op : TableOp}
    (done : updateConditionTables texts db condition name op = .ok after) : SameUse db after := by
  rw [updateConditionTables] at done
  cases info : condition.conditionInfo with
  | text value =>
    simp only [info] at done
    split at done
    · cases done
      exact ⟨⟨rfl, rfl⟩, rfl⟩
    · split at done
      · cases done
      · cases done
        exact .refl db
  | matchPrefix matched =>
    simp only [info] at done
    split at done
    · cases done
    · split at done
      · obtain ⟨table, written⟩ := @updatePrefixPolicyTable_frame texts db matched name op
        rw [written] at done
        cases done
        exact ⟨⟨rfl, rfl⟩, rfl⟩
      · cases done
        exact .refl db

theorem updateConditions_sameUse {stmtName conditionName : String} {op : TableOp} {result : Result}
    (done : updateConditions texts db stmtName conditionName op = .ok result) :
    SameUse db result.1 := by
  rw [updateConditions] at done
  cases found : db.policyConditionsDB.lookup conditionName with
  | none =>
    simp only [found] at done
    cases done
    exact .refl db
  | some condition =>
    simp only [found, bind_eq_ok] at done
    obtain ⟨middle, entered, done⟩ := done
    have same := updateConditionTables_sameUse entered
    cases list : condition.policyStmtList <;> cases op <;> simp only [list] at done <;> cases done <;>
      exact ⟨⟨same.stmts, same.table⟩, same.policies⟩

end Conditions

section Calls

variable {texts : TextReader} {db : PolicyEngineDB} {result : Result}

theorem createConditions_sameUse {names : List String}
    {out : PolicyEngineDB × PolicyStmt × Option String}
    (done : createConditions texts db policyStmt names = .ok out) :
    SameUse db out.1 ∧ out.2.1.name = policyStmt.name ∧
      out.2.1.policyList = policyStmt.policyList := by
  induction names generalizing db policyStmt with
  | nil =>
    cases done
    exact ⟨.refl db, rfl, rfl⟩
  | cons name names ih =>
    rw [createConditions, bind_eq_ok] at done
    obtain ⟨⟨middle, err⟩, entered, done⟩ := done
    have same := updateConditions_sameUse entered
    cases err with
    | some err =>
      cases done
      exact ⟨same, rfl, rfl⟩
    | none =>
      obtain ⟨rest, own, list⟩ := ih done
      exact ⟨same.then rest, own, list⟩

/-- A statement that no policy names can come or go, if it lists no policy. -/
theorem Linked.setStmt (linked : Linked db) (name : String)
    (unnamed : ∀ policy, named db policy name = 0) (others : ∀ other, other ≠ name →
      after.policyStmtDB.lookup other = db.policyStmtDB.lookup other)
    (own : ∀ info, after.policyStmtDB.lookup name = some info →
      name ≠ "" ∧ info.name = name ∧ info.policyList.getD [] = [])
    (policies : after.policyDB = db.policyDB)
    (table : after.policyStmtPolicyMapDB = db.policyStmtPolicyMapDB) : Linked after := by
  have use (policy stmt : String) : named after policy stmt = named db policy stmt := by
    simp only [named, policies]
  have kept {stmt : String} (apart : stmt ≠ name) : Defined after stmt ↔ Defined db stmt := by
    rw [Defined, Defined, others stmt apart]
  constructor
  · intro other info found
    by_cases same : other = name
    · subst same
      exact (own info found).2.1
    · rw [others other same] at found
      exact linked.stmtsNamed other info found
  · intro defined
    by_cases same : "" = name
    · subst same
      obtain ⟨info, found⟩ := Option.isSome_iff_exists.mp defined
      exact (own info found).1 rfl
    · exact linked.unnamed ((kept same).mp defined)
  · rw [policies]
    exact linked.policiesNamed
  · intro policy stmt proper used
    rw [use] at used
    have apart : stmt ≠ name := by
      rintro rfl
      rw [unnamed] at used
      exact absurd used (lt_irrefl 0)
    exact (kept apart).mpr (linked.defined policy stmt proper used)
  · intro policy stmt defined
    rw [use]
    by_cases same : stmt = name
    · subst same
      obtain ⟨info, found⟩ := Option.isSome_iff_exists.mp defined
      simp [PolicyEngine.listed, found, (own info found).2.2, unnamed]
    · rw [← linked.listed policy stmt ((kept same).mp defined)]
      simp only [PolicyEngine.listed, others stmt same]
  · intro policy stmt proper
    rw [use, ← linked.tabled policy stmt proper]
    simp only [PolicyEngine.tabled, table]

/-- A statement that passes the check is new, and its conditions exist. -/
theorem validatePolicyStatementCreate_fine
    (valid : validatePolicyStatementCreate db cfg = .ok none) :
    db.policyStmtDB.lookup cfg.name = none ∧
      ∀ name ∈ cfg.conditions, (db.policyConditionsDB.lookup name).isSome = true := by
  rw [validatePolicyStatementCreate] at valid
  split at valid
  · cases valid
  · rename_i fresh
    refine ⟨by simpa using fresh, ?_⟩
    split at valid
    · cases valid
    · split at valid
      · cases valid
      · split at valid
        · cases valid
        · split at valid
          · rename_i known
            exact all_eq_true.mp known
          · cases valid
      · cases valid

/-- A new statement is used by no policy yet. -/
theorem createPolicyStatement_linked (linked : Linked db) (proper : cfg.name ≠ "")
    (done : createPolicyStatement texts db cfg = .ok result) :
    Linked result.1 := by
  rw [createPolicyStatement, bind_eq_ok] at done
  obtain ⟨checked, valid, done⟩ := done
  cases checked with
  | some err =>
    cases done
    exact linked
  | none =>
    have fresh := (validatePolicyStatementCreate_fine valid).1
    simp only [bind_eq_ok] at done
    obtain ⟨⟨middle, policyStmt, err⟩, entered, done⟩ := done
    obtain ⟨same, own, list⟩ := createConditions_sameUse entered
    have kept := same.linked linked
    cases err with
    | some err =>
      cases done
      exact kept
    | none =>
      cases done
      refine kept.setStmt cfg.name (fun policy => ?_) (fun other apart => ?_) (fun info found => ?_)
        rfl rfl
      · by_contra used
        have defined := kept.defined policy cfg.name proper (Nat.pos_of_ne_zero used)
        rw [Defined, same.stmts, fresh] at defined
        cases defined
      · exact AList.lookup_insert_ne apart
      · rw [AList.lookup_insert] at found
        cases found
        exact ⟨proper, own, by rw [list]; rfl⟩

theorem deleteConditions_sameUse {stmtName : String} {names : List String}
    (done : deleteConditions texts db stmtName names = .ok after) : SameUse db after := by
  have kept : (deleteConditions texts db stmtName names).Yields (SameUse db) := by
    refine Outcome.Yields.foldlM (.refl db) ?_
    intro state name _ same later step
    obtain ⟨⟨middle, err⟩, entered, ended⟩ := bind_eq_ok.mp step
    cases ended
    exact same.then (updateConditions_sameUse entered)
  exact kept after done

/-- A statement that a policy still uses is not deleted. -/
theorem deletePolicyStatement_linked (linked : Linked db)
    (done : deletePolicyStatement texts db cfg = .ok result) : Linked result.1 := by
  rw [deletePolicyStatement] at done
  cases found : db.policyStmtDB.lookup cfg.name with
  | none =>
    simp only [found] at done
    cases done
    exact linked
  | some policyStmt =>
    simp only [found] at done
    by_cases unused : policyStmt.policyList.getD [] = []
    · simp only [unused, ne_eq, not_true_eq_false, if_false, bind_eq_ok] at done
      obtain ⟨after, deleted, done⟩ := done
      cases done
      refine (deleteConditions_sameUse deleted).linked (linked.setStmt cfg.name (fun policy => ?_)
        (fun other apart => AList.lookup_erase_ne apart) (fun info held => ?_) rfl rfl)
      · -- A policy that names the statement would be on its list.
        rw [← linked.listed policy cfg.name (by simp [Defined, found])]
        simp [PolicyEngine.listed, found, unused]
      · rw [AList.lookup_erase] at held
        cases held
    · rw [if_pos unused] at done
      cases done
      exact linked

variable {precedenceMap : GoMap Int String}

/-- A statement that is written to a free slot counts, and nothing else changes. -/
theorem valueCount_insert_free {precedence : Int}
    {other : String} (free : (precedenceMap.lookup precedence).getD "" = "") (proper : other ≠ "") :
    GoMap.valueCount (precedenceMap.insert precedence stmt) other =
      precedenceMap.valueCount other + if stmt = other then 1 else 0 := by
  have written := precedenceMap.valueCount_insert precedence stmt other
  have apart : precedenceMap.lookup precedence ≠ some other := by
    intro held
    rw [held] at free
    exact proper free
  rwa [if_neg apart] at written

/-- Statements that pass the check are defined. -/
theorem validateStatements_defined {policyType : String}
    (valid : validateStatements db policyType entries = none) :
    ∀ entry ∈ entries, Defined db entry.statement := by
  induction entries with
  | nil => simp
  | cons entry entries ih =>
    rw [validateStatements] at valid
    cases found : db.policyStmtDB.lookup entry.statement with
    | none => simp [found] at valid
    | some stmt =>
      simp only [found] at valid
      split at valid
      · rw [forall_mem_cons]
        exact ⟨by simp [Defined, found], ih valid⟩
      · cases valid

/-- The loop over the statements of a new policy: all are entered, or none. -/
theorem createStatements_updated {policy : String}
    {entries : List PolicyDefinitionStmtPrecedence} {entered : List String}
    {out : PolicyEngineDB × GoMap Int String × Option String}
    (updated : StatementsUpdated policy .add entered start db)
    (counted : ∀ stmt, stmt ≠ "" → precedenceMap.valueCount stmt = entered.count stmt)
    (done : createStatements db policy precedenceMap entered entries = out) :
    (out.2.2 = none ∧
        StatementsUpdated policy .add (entered ++ entries.map (·.statement)) start out.1 ∧
        ∀ stmt, stmt ≠ "" →
          out.2.1.valueCount stmt = (entered ++ entries.map (·.statement)).count stmt) ∨
      (out.2.2 ≠ none ∧ StatementsUpdated policy .add [] start out.1) := by
  induction entries generalizing db precedenceMap entered with
  | nil =>
    subst done
    exact .inl ⟨rfl, by simpa [createStatements] using updated,
      by simpa [createStatements] using counted⟩
  | cons entry entries ih =>
    rw [createStatements] at done
    by_cases taken : (precedenceMap.lookup entry.precedence).getD "" = ""
    · simp only [taken, ne_eq, not_true_eq_false, if_false] at done
      have next := updated.append
        (updateStatementTables_updated updated.stmtsNamed policy entry.statement .add)
      -- The slot was free, so only the new statement counts.
      have recount : ∀ stmt, stmt ≠ "" →
          GoMap.valueCount (precedenceMap.insert entry.precedence entry.statement) stmt =
            (entered ++ [entry.statement]).count stmt := by
        intro stmt proper
        rw [valueCount_insert_free taken proper, counted stmt proper, count_append, count_singleton]
        simp
      simpa using ih next recount done
    · right
      rw [if_pos taken] at done
      cases done
      have undone := foldl_updated updated.stmtsNamed policy .del entered
      refine ⟨by simp, undone.stmtsNamed, ?_, ?_, ?_⟩
      · intro stmt
        exact (undone.defined stmt).trans (updated.defined stmt)
      · intro stmt other known
        rw [undone.listed stmt other ((updated.defined stmt).mpr known),
          updated.listed stmt other known]
        simp [TableOp.shift]
      · intro stmt other
        rw [undone.tabled, updated.tabled]
        simp [TableOp.shift]

theorem createStatements_policyDB {policy : String}
    {entered : List String} {entries : List PolicyDefinitionStmtPrecedence} :
    (createStatements db policy precedenceMap entered entries).1.policyDB = db.policyDB := by
  induction entries generalizing db precedenceMap entered with
  | nil => rfl
  | cons entry entries ih =>
    rw [createStatements]
    split
    · exact foldl_policyDB db policy .del entered
    · rw [ih, updateStatementTables_policyDB]

theorem named_insert {info : Policy}
    (policies : after.policyDB = db.policyDB.insert name info) (other stmt : String) :
    named after other stmt = if other = name then info.policyStmtPrecedenceMap.valueCount stmt
      else named db other stmt := by
  by_cases same : other = name
  · subst same
    simp [named, policies]
  · simp [named, policies, same]

theorem named_erase (policies : after.policyDB = db.policyDB.erase name) (other stmt : String) :
    named after other stmt = if other = name then 0 else named db other stmt := by
  by_cases same : other = name
  · subst same
    simp [named, policies]
  · simp [named, policies, same]

/-- A new policy names its statements, and they list it. -/
theorem createPolicyDefinition_linked (linked : Linked db) (cfg : PolicyDefinitionConfig) :
    Linked (createPolicyDefinition db cfg).1 := by
  rw [createPolicyDefinition]
  cases valid : validatePolicyDefinitionCreate db cfg with
  | some err => exact linked
  | none =>
    rw [validatePolicyDefinitionCreate] at valid
    split at valid
    · cases valid
    · rename_i fresh
      have known := validateStatements_defined valid
      have unknown : db.policyDB.lookup cfg.name = none := by simpa using fresh
      have same := @createStatements_policyDB db ∅ cfg.name [] cfg.policyDefinitionStatements
      have entered := createStatements_updated (.nil linked.stmtsNamed)
        (fun stmt _ => GoMap.valueCount_empty stmt)
        (rfl : createStatements db cfg.name ∅ [] cfg.policyDefinitionStatements = _)
      rcases entered with ⟨fine, updated, counted⟩ | ⟨failed, updated⟩
      · simp only [fine, same, Option.isSome_none, Bool.false_eq_true, if_false]
        refine updated.relink linked ⟨rfl, rfl⟩ ⟨rfl, rfl⟩ ?_ ?_ ?_
        · exact GoMap.own_insert linked.policiesNamed rfl
        · intro _ stmt member _
          obtain ⟨entry, inList, rfl⟩ := mem_map.mp member
          exact known entry inList
        · -- The policy did not exist, so it named nothing before.
          intro other stmt proper
          rw [named_insert rfl]
          by_cases own : other = cfg.name
          · subst own
            simpa [named, unknown, TableOp.shift] using counted stmt proper
          · simp [own, TableOp.shift]
      · have refused := Option.isSome_iff_ne_none.mpr failed
        simp only [refused, if_true]
        refine updated.linked linked ?_ (by simp) ?_
        · rw [same]
          exact linked.policiesNamed
        · intro other stmt _
          simp [named, same, TableOp.shift]

/-- A policy that goes takes its name off the lists of all its statements. -/
theorem deletePolicyDefinition_linked (order : MapOrder) (linked : Linked db)
    (cfg : PolicyDefinitionConfig) : Linked (deletePolicyDefinition order db cfg).1 := by
  rw [deletePolicyDefinition]
  rcases found : db.policyDB.lookup cfg.name with _ | policyInfo
  · exact linked
  have own := linked.policiesNamed cfg.name policyInfo found
  dsimp only
  split
  · exact linked
  · let start := { db with
      policyDB := db.policyDB.erase cfg.name
      localPolicyDB := db.localPolicyDB.map fun slice => updateLocalDB slice cfg.name .del }
    have updated := @foldl_updated start linked.stmtsNamed policyInfo.name .del
      ((order.range "DeletePolicyDefinition" policyInfo.policyStmtPrecedenceMap).map Prod.snd)
    have policies := foldl_policyDB start policyInfo.name .del
      ((order.range "DeletePolicyDefinition" policyInfo.policyStmtPrecedenceMap).map Prod.snd)
    refine updated.relink linked ⟨rfl, rfl⟩ ⟨rfl, rfl⟩ ?_ ?_ ?_
    · intro name policy held
      rw [policies] at held
      exact GoMap.own_erase linked.policiesNamed name policy held
    · intro added
      cases added
    · intro other stmt _
      refine (named_erase policies other stmt).trans ?_
      rw [own, order.count_range]
      by_cases same : other = cfg.name
      · subst same
        simp [named, found, TableOp.shift]
      · simp [same, TableOp.shift]

theorem setPrecedence_lookup (db : PolicyEngineDB) (name : String) (policy : Policy)
    (precedence : Int) (stmt : String) :
    (setPrecedence db name policy precedence stmt).1.policyDB.lookup name =
      some (setPrecedence db name policy precedence stmt).2 := by
  simp [setPrecedence]

/-- The entries that an update comes to: those in front of the first slot that is taken. -/
def enteredEntries (precedenceMap : GoMap Int String) :
    List PolicyDefinitionStmtPrecedence → List PolicyDefinitionStmtPrecedence
  | [] => []
  | entry :: entries =>
    if (precedenceMap.lookup entry.precedence).getD "" ≠ "" then []
    else entry :: enteredEntries (precedenceMap.insert entry.precedence entry.statement) entries

variable {policy : Policy}

/-- One entry of an update: the policy names one more statement, which lists it. -/
theorem addStatement_linked {entry : PolicyDefinitionStmtPrecedence}
    (linked : Linked db) (found : db.policyDB.lookup name = some policy)
    (free : (policy.policyStmtPrecedenceMap.lookup entry.precedence).getD "" = "")
    (known : entry.statement = "" ∨ Defined db entry.statement) :
    Linked (updateStatementTables (setPrecedence db name policy entry.precedence
      entry.statement).1 policy.name entry.statement .add) := by
  have own := linked.policiesNamed name policy found
  have policies : (updateStatementTables (setPrecedence db name policy entry.precedence
      entry.statement).1 policy.name entry.statement .add).policyDB =
      db.policyDB.insert name (setPrecedence db name policy entry.precedence entry.statement).2 := by
    rw [updateStatementTables_policyDB]
    rfl
  have updated := @updateStatementTables_updated
    (setPrecedence db name policy entry.precedence entry.statement).1 linked.stmtsNamed policy.name
    entry.statement .add
  refine updated.relink linked ⟨rfl, rfl⟩ ⟨rfl, rfl⟩ ?_ ?_ ?_
  · rw [policies]
    exact GoMap.own_insert linked.policiesNamed own
  · intro _ stmt member proper
    cases mem_singleton.mp member
    exact known.resolve_left proper
  · intro other stmt proper
    rw [named_insert policies, own]
    by_cases same : other = name
    · subst same
      simp only [if_true, setPrecedence, TableOp.shift, named, found]
      rw [valueCount_insert_free free proper, count_singleton]
      simp
    · simp [same, TableOp.shift]

theorem addStatements_linked (linked : Linked db) (found : db.policyDB.lookup name = some policy)
    (known : ∀ entry ∈ enteredEntries policy.policyStmtPrecedenceMap entries,
      entry.statement = "" ∨ Defined db entry.statement) :
    Linked (addStatements name db policy entries).1 := by
  induction entries generalizing db policy with
  | nil => exact linked
  | cons entry entries ih =>
    rw [addStatements]
    by_cases free : (policy.policyStmtPrecedenceMap.lookup entry.precedence).getD "" = ""
    · simp only [free, ne_eq, not_true_eq_false, if_false]
      simp only [enteredEntries, free, ne_eq, not_true_eq_false, if_false, forall_mem_cons] at known
      have next := addStatement_linked linked found free known.1
      refine ih next ?_ ?_
      · rw [updateStatementTables_policyDB]
        exact setPrecedence_lookup db name policy entry.precedence entry.statement
      · intro later member
        refine (known.2 later member).imp id fun defined => ?_
        have updated := @updateStatementTables_updated
          (setPrecedence db name policy entry.precedence entry.statement).1 linked.stmtsNamed
          policy.name entry.statement .add
        exact (updated.defined later.statement).mpr defined
    · rw [if_pos free]
      exact linked

/-- The slots that a removal clears, whatever they hold. -/
def clearedMap (precedenceMap : GoMap Int String) (entries : List PolicyDefinitionStmtPrecedence) :
    GoMap Int String :=
  entries.foldl (fun map entry => map.insert entry.precedence "") precedenceMap

/-- A removal takes the policy off every list it names, and clears every slot it names. -/
theorem removeStatements_updated (stmtsNamed : StmtsNamed db) :
    StatementsUpdated policy.name .del (entries.map (·.statement)) db
      (removeStatements name db policy entries) := by
  induction entries generalizing db policy with
  | nil => exact .nil stmtsNamed
  | cons entry entries ih =>
    have first := updateStatementTables_updated stmtsNamed policy.name entry.statement .del
    have rest := @ih (setPrecedence _ name
      policy entry.precedence "").1 (setPrecedence (updateStatementTables db policy.name
        entry.statement .del) name policy entry.precedence "").2 first.stmtsNamed
    refine first.append (StatementsUpdated.congr ?_ rest ?_)
    · exact ⟨rfl, rfl⟩
    · exact ⟨rfl, rfl⟩

theorem removeStatements_named (found : db.policyDB.lookup name = some policy)
    (other stmt : String) : named (removeStatements name db policy entries) other stmt =
      if other = name then
        GoMap.valueCount (clearedMap policy.policyStmtPrecedenceMap entries) stmt
      else named db other stmt := by
  induction entries generalizing db policy with
  | nil =>
    by_cases same : other = name
    · subst same
      simp [removeStatements, clearedMap, named, found]
    · simp [removeStatements, same]
  | cons entry entries ih =>
    rw [removeStatements]
    refine (ih (setPrecedence_lookup _ name policy entry.precedence "")).trans ?_
    have policies : (setPrecedence (updateStatementTables db policy.name entry.statement .del) name
        policy entry.precedence "").1.policyDB =
        db.policyDB.insert name (setPrecedence db name policy entry.precedence "").2 := by
      simp only [setPrecedence, updateStatementTables_policyDB]
    by_cases same : other = name
    · simp [same, clearedMap, setPrecedence]
    · rw [if_neg same, if_neg same, named_insert policies, if_neg same]

theorem removeStatements_policiesNamed (own : policy.name = name)
    (policiesNamed : ∀ other info, db.policyDB.lookup other = some info → info.name = other) :
    ∀ other info, (removeStatements name db policy entries).policyDB.lookup other = some info →
      info.name = other := by
  induction entries generalizing db policy with
  | nil => exact policiesNamed
  | cons entry entries ih =>
    rw [removeStatements]
    refine ih own ?_
    simp only [updateStatementTables_policyDB]
    exact GoMap.own_insert policiesNamed own

/-- A removal that clears as many slots of each statement as it names keeps the tables in step. -/
theorem removeStatements_linked (linked : Linked db) (found : db.policyDB.lookup name = some policy)
    (cleared : ∀ stmt, stmt ≠ "" →
      GoMap.valueCount (clearedMap policy.policyStmtPrecedenceMap entries) stmt =
        policy.policyStmtPrecedenceMap.valueCount stmt - (entries.map (·.statement)).count stmt) :
    Linked (removeStatements name db policy entries) := by
  have own := linked.policiesNamed name policy found
  refine (removeStatements_updated linked.stmtsNamed).linked linked
    (removeStatements_policiesNamed own linked.policiesNamed) (by simp) ?_
  intro other stmt proper
  rw [removeStatements_named found, own]
  by_cases same : other = name
  · subst same
    simp [cleared stmt proper, named, found, TableOp.shift]
  · simp [same, TableOp.shift]

end Calls

/-- The calls that define statements and policies. -/
inductive DefinitionCall where
  | createPolicyStatement (cfg : PolicyStmtConfig)
  | deletePolicyStatement (cfg : PolicyStmtConfig)
  | createPolicyDefinition (cfg : PolicyDefinitionConfig)
  | deletePolicyDefinition (cfg : PolicyDefinitionConfig)
  | updateAddPolicyDefinitionStmts (cfg : PolicyDefinitionConfig)
  | updateRemovePolicyDefinitionStmts (cfg : PolicyDefinitionConfig)

def DefinitionCall.run (texts : TextReader) (order : MapOrder) (db : PolicyEngineDB) :
    DefinitionCall → Outcome Unit Result
  | .createPolicyStatement cfg => PolicyEngine.createPolicyStatement texts db cfg
  | .deletePolicyStatement cfg => PolicyEngine.deletePolicyStatement texts db cfg
  | .createPolicyDefinition cfg => .ok (PolicyEngine.createPolicyDefinition db cfg)
  | .deletePolicyDefinition cfg => .ok (PolicyEngine.deletePolicyDefinition order db cfg)
  | .updateAddPolicyDefinitionStmts cfg =>
    .ok (PolicyEngine.updateAddPolicyDefinitionStmts db cfg)
  | .updateRemovePolicyDefinitionStmts cfg =>
    .ok (PolicyEngine.updateRemovePolicyDefinitionStmts db cfg)

/--
The calls that keep the tables in step.

A statement has a name, an update adds statements that exist, and a removal clears as many slots of
each statement as it names.
-/
def DefinitionCall.Regular (db : PolicyEngineDB) : DefinitionCall → Prop
  | .createPolicyStatement cfg => cfg.name ≠ ""
  | .updateAddPolicyDefinitionStmts cfg => ∀ policy, db.policyDB.lookup cfg.name = some policy →
    ∀ entry ∈ enteredEntries policy.policyStmtPrecedenceMap cfg.policyDefinitionStatements,
      entry.statement = "" ∨ Defined db entry.statement
  | .updateRemovePolicyDefinitionStmts cfg => ∀ policy,
    db.policyDB.lookup cfg.name = some policy → ∀ stmt, stmt ≠ "" →
      GoMap.valueCount (clearedMap policy.policyStmtPrecedenceMap cfg.policyDefinitionStatements)
          stmt = policy.policyStmtPrecedenceMap.valueCount stmt -
        (cfg.policyDefinitionStatements.map (·.statement)).count stmt
  | _ => True

/-- Whatever is called, with or without an error, the tables stay in step. -/
theorem run_linked {texts : TextReader} {order : MapOrder} {db : PolicyEngineDB}
    {call : DefinitionCall} {result : Result} (linked : Linked db) (regular : call.Regular db)
    (done : call.run texts order db = .ok result) : Linked result.1 := by
  cases call with
  | createPolicyStatement cfg => exact createPolicyStatement_linked linked regular done
  | deletePolicyStatement cfg => exact deletePolicyStatement_linked linked done
  | createPolicyDefinition cfg =>
    cases done
    exact createPolicyDefinition_linked linked cfg
  | deletePolicyDefinition cfg =>
    cases done
    exact deletePolicyDefinition_linked order linked cfg
  | updateAddPolicyDefinitionStmts cfg =>
    cases done
    rw [updateAddPolicyDefinitionStmts]
    cases found : db.policyDB.lookup cfg.name with
    | none => exact linked
    | some policy => exact addStatements_linked linked found (regular policy found)
  | updateRemovePolicyDefinitionStmts cfg =>
    cases done
    rw [updateRemovePolicyDefinitionStmts]
    cases found : db.policyDB.lookup cfg.name with
    | none => exact linked
    | some policy => exact removeStatements_linked linked found (regular policy found)

/-- Calls made one after the other, each of which returns and keeps to the condition. -/
inductive RegularCalls (texts : TextReader) (order : MapOrder) :
    PolicyEngineDB → List DefinitionCall → PolicyEngineDB → Prop where
  | nil (db : PolicyEngineDB) : RegularCalls texts order db [] db
  | cons {db last : PolicyEngineDB} {call : DefinitionCall} {calls : List DefinitionCall}
      {result : Result} (regular : call.Regular db)
      (done : call.run texts order db = .ok result)
      (rest : RegularCalls texts order result.1 calls last) :
      RegularCalls texts order db (call :: calls) last

/-- An engine in which no statement and no policy was defined yet. -/
structure Undefined (db : PolicyEngineDB) : Prop where
  stmts : db.policyStmtDB = ∅
  policies : db.policyDB = ∅
  table : db.policyStmtPolicyMapDB = ∅

theorem Undefined.linked {db : PolicyEngineDB} (fresh : Undefined db) : Linked db where
  stmtsNamed := by simp [StmtsNamed, fresh.stmts]
  unnamed := by simp [Defined, fresh.stmts]
  policiesNamed := by simp [fresh.policies]
  defined := by simp [named, fresh.policies]
  listed := by simp [Defined, fresh.stmts]
  tabled := by simp [PolicyEngine.tabled, named, fresh.table, fresh.policies]

/-- In every such run the statements a policy names exist and list it as often as it names them. -/
theorem statements_know_policies {texts : TextReader} {order : MapOrder} {db last : PolicyEngineDB}
    {calls : List DefinitionCall} (fresh : Undefined db)
    (run : RegularCalls texts order db calls last) :
    (∀ policy stmt, stmt ≠ "" → 0 < named last policy stmt → Defined last stmt) ∧
      ∀ policy stmt, Defined last stmt → listed last stmt policy = named last policy stmt ∧
        tabled last stmt policy = named last policy stmt := by
  have linked : Linked last := by
    have start := fresh.linked
    clear fresh
    induction run with
    | nil => exact start
    | cons regular done _ ih => exact ih (run_linked start regular done)
  refine ⟨linked.defined, fun policy stmt defined => ⟨linked.listed policy stmt defined, ?_⟩⟩
  apply linked.tabled
  rintro rfl
  exact linked.unnamed defined

/-- A reader that takes no text for an address or a number. -/
def TextReader.blind : TextReader := ⟨fun _ => none, fun _ => none⟩

/-- A policy with two statements, of which one is taken out again and deleted. -/
def removalCalls : List DefinitionCall :=
  [.createPolicyStatement ⟨"S", "all", [], ["permit"]⟩,
    .createPolicyStatement ⟨"T", "all", [], ["permit"]⟩,
    .createPolicyDefinition ⟨"P", 1, "all", [⟨1, "S"⟩, ⟨2, "T"⟩], "ALL"⟩,
    .updateRemovePolicyDefinitionStmts ⟨"P", 1, "all", [⟨1, "S"⟩], "ALL"⟩,
    .deletePolicyStatement ⟨"S", "all", [], ["permit"]⟩]

/-- A policy gives up one of its two statements, which is then deleted. -/
theorem statements_know_policies_removed : ∃ last,
      RegularCalls .blind .stored newPolicyEngineDB removalCalls last ∧
      (named last "P" "S", named last "P" "T", listed last "T" "P") = (0, 1, 1) ∧
      (∀ policy stmt, stmt ≠ "" → 0 < named last policy stmt → Defined last stmt) ∧
      ∀ policy stmt, Defined last stmt → listed last stmt policy = named last policy stmt ∧
        tabled last stmt policy = named last policy stmt := by
  obtain ⟨last, run, counts⟩ : ∃ last,
      RegularCalls .blind .stored newPolicyEngineDB removalCalls last ∧
        (named last "P" "S", named last "P" "T", listed last "T" "P") = (0, 1, 1) := by
    refine ⟨_, .cons (by simp [DefinitionCall.Regular]) rfl (.cons (by simp [DefinitionCall.Regular])
      rfl (.cons trivial rfl (.cons ?_ rfl (.cons trivial rfl (.nil _))))), by decide⟩
    intro policy found
    cases found
    intro stmt proper
    have apart : "" ≠ stmt := fun empty => proper empty.symm
    change ["", "T"].count stmt = ["T", "S"].count stmt - ["S"].count stmt
    simp [count_cons, apart]
  exact ⟨last, run, counts, statements_know_policies ⟨rfl, rfl, rfl⟩ run⟩

def runCalls (texts : TextReader) (order : MapOrder) (db : PolicyEngineDB)
    (calls : List DefinitionCall) : Outcome Unit PolicyEngineDB :=
  calls.foldlM (fun db call => do
    let (db, _) ← call.run texts order db
    return db) db

/-- A removal of S1 from the slot of S2: P still names S1, which does not list P any more. -/
theorem remove_clears_other_slot : (do
      let db ← runCalls .blind .stored newPolicyEngineDB
        [.createPolicyStatement ⟨"S1", "all", [], ["permit"]⟩,
          .createPolicyStatement ⟨"S2", "all", [], ["permit"]⟩,
          .createPolicyDefinition ⟨"P", 1, "all", [⟨1, "S1"⟩, ⟨2, "S2"⟩], "ALL"⟩,
          .updateRemovePolicyDefinitionStmts ⟨"P", 1, "all", [⟨2, "S1"⟩], "ALL"⟩]
      return (named db "P" "S1", listed db "S1" "P", tabled db "S1" "P")) =
      (.ok (1, 0, 0) : Outcome Unit (Nat × Nat × Nat)) := by
  decide

end FlexSwitch.PolicyEngine
