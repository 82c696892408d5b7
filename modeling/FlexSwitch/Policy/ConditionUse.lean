import FlexSwitch.Policy.StatementUse

/-! Conditions know the statements that use them. -/

namespace FlexSwitch.PolicyEngine

open Go List Outcome TableOp

variable {conditions names : List String} {name : String} {result : Result} {cfg : PolicyStmtConfig}

section

variable (db : PolicyEngineDB)

/-- The names of the conditions of a statement. -/
def conditionsOf (stmt : String) : List String :=
  match db.policyStmtDB.lookup stmt with
  | none => []
  | some info => info.conditions.getD []

/-- How often a condition lists a statement. -/
def stmtCount (condition stmt : String) : Nat :=
  match db.policyConditionsDB.lookup condition with
  | none => 0
  | some info => (info.policyStmtList.getD []).count stmt

/-- How often the table of protocols and neighbors lists a statement under a name. -/
def protocolCount (value stmt : String) : Nat :=
  ((db.protocolPolicyListDB.lookup value).getD []).count stmt

/-- The statements that the table of prefixes lists under one of them. -/
def prefixStmts (ipPrefix : List UInt8) : List String :=
  ((db.prefixPolicyListDB.lookup ipPrefix).getD []).map (·.policyName)

/-- What a condition matches on, which no call changes. -/
def conditionData (condition : String) : Option (String × Int × ConditionInfo) :=
  (db.policyConditionsDB.lookup condition).map fun info =>
    (info.name, info.conditionType, info.conditionInfo)

/-- The condition is one on a protocol or a neighbor of this name. -/
def onProtocol (value condition : String) : Bool :=
  match conditionData db condition with
  | none => false
  | some (_, conditionType, info) =>
    (conditionType = policyConditionTypeProtocolMatch ∨
      conditionType = policyConditionTypeNeighborMatch) ∧ info = .text value

/-- The network prefix that a condition is entered under, if any. -/
def tablePrefix (texts : TextReader) (info : MatchPrefixConditionInfo) : Option (List UInt8) :=
  if info.usePrefixSet then none
  else if info.policyPrefix.masklengthRange = "exact" then
    texts.getNetworkPrefixFromCIDR info.policyPrefix.ipPrefix
  else
    match info.policyPrefix.masklengthRange.splitOn "-" with
    | [low, high] =>
      if (texts.atoi low).isSome ∧ (texts.atoi high).isSome then
        texts.getNetworkPrefixFromCIDR info.policyPrefix.ipPrefix
      else none
    | _ => none

/-- The condition is one on a destination and is entered under this prefix. -/
def onPrefix (texts : TextReader) (db : PolicyEngineDB) (ipPrefix : List UInt8)
    (condition : String) : Bool :=
  match conditionData db condition with
  | some (_, conditionType, .matchPrefix info) =>
    conditionType = policyConditionTypeDstIpPrefixMatch ∧ tablePrefix texts info = some ipPrefix
  | _ => false

/-- The tables agree on which statements use which conditions. -/
structure Conditioned (texts : TextReader) (db : PolicyEngineDB) : Prop where
  stmtsNamed : StmtsNamed db
  conditionsNamed : ∀ name data, conditionData db name = some data → data.1 = name
  exist : ∀ stmt, ∀ condition ∈ conditionsOf db stmt, (conditionData db condition).isSome = true
  counted : ∀ condition stmt, (conditionData db condition).isSome = true →
    stmtCount db condition stmt = (conditionsOf db stmt).count condition
  protocols : ∀ value stmt,
    protocolCount db value stmt = (conditionsOf db stmt).countP (onProtocol db value)
  prefixes : ∀ ipPrefix, ∀ stmt ∈ prefixStmts db ipPrefix,
    ∃ condition ∈ conditionsOf db stmt, onPrefix texts db ipPrefix condition = true

/-- The tables that list statements are the same. -/
structure SameStmts (before after : PolicyEngineDB) : Prop where
  conditions : after.policyConditionsDB = before.policyConditionsDB
  protocols : after.protocolPolicyListDB = before.protocolPolicyListDB
  prefixes : after.prefixPolicyListDB = before.prefixPolicyListDB

end

theorem SameStmts.data {before after : PolicyEngineDB} (same : SameStmts before after) :
    conditionData after = conditionData before := by
  funext name
  rw [conditionData, same.conditions, conditionData]

theorem onProtocol_congr {before after : PolicyEngineDB}
    (data : conditionData after = conditionData before) : onProtocol after = onProtocol before := by
  funext value name
  rw [onProtocol, data, onProtocol]

theorem onPrefix_congr {texts : TextReader} {before after : PolicyEngineDB}
    (data : conditionData after = conditionData before) :
    onPrefix texts after = onPrefix texts before := by
  funext ipPrefix name
  rw [onPrefix, data, onPrefix]

/-- A statement was entered under some conditions, or taken out from under them. -/
structure ConditionsUpdated (texts : TextReader) (stmt : String) (op : TableOp)
    (conditions : List String) (before after : PolicyEngineDB) : Prop where
  data : conditionData after = conditionData before
  counted : ∀ condition other, (conditionData before condition).isSome = true →
    stmtCount after condition other = op.shift (stmtCount before condition other)
      (if other = stmt then conditions.count condition else 0)
  protocols : ∀ value other, protocolCount after value other =
    op.shift (protocolCount before value other)
      (if other = stmt then conditions.countP (onProtocol before value) else 0)
  prefixes : ∀ ipPrefix, ∀ other ∈ prefixStmts after ipPrefix, other ∈ prefixStmts before ipPrefix ∨
    op = .add ∧ other = stmt ∧ ∃ condition ∈ conditions, onPrefix texts before ipPrefix condition = true

namespace ConditionsUpdated

variable {texts : TextReader} {stmt : String} {op : TableOp} {before middle after : PolicyEngineDB}

theorem nil : ConditionsUpdated texts stmt op [] before before where
  data := rfl
  counted _ _ _ := by simp [shift_zero]
  protocols _ _ := by simp [shift_zero]
  prefixes _ _ member := .inl member

theorem append {first second : List String}
    (one : ConditionsUpdated texts stmt op first before middle)
    (two : ConditionsUpdated texts stmt op second middle after) :
    ConditionsUpdated texts stmt op (first ++ second) before after where
  data := two.data.trans one.data
  counted cond other known := by
    rw [two.counted cond other (by rwa [one.data]), one.counted cond other known,
      shift_shift, count_append]
    split <;> rfl
  protocols value other := by
    rw [two.protocols, one.protocols, shift_shift, countP_append, onProtocol_congr one.data]
    split <;> rfl
  prefixes ipPrefix other member := by
    rcases two.prefixes ipPrefix other member with member | ⟨added, own, cond, inList, on⟩
    · refine (one.prefixes ipPrefix other member).imp id ?_
      rintro ⟨added, own, cond, inList, on⟩
      exact ⟨added, own, cond, mem_append_left _ inList, on⟩
    · refine .inr ⟨added, own, cond, mem_append_right _ inList, ?_⟩
      rwa [← onPrefix_congr one.data]

theorem congr {start last : PolicyEngineDB} (first : SameStmts start before)
    (updated : ConditionsUpdated texts stmt op conditions before after)
    (second : SameStmts after last) :
    ConditionsUpdated texts stmt op conditions start last := by
  obtain ⟨data, counted, protocols, prefixes⟩ := updated
  have dataStart := first.data
  rw [dataStart] at data counted
  rw [onProtocol_congr dataStart] at protocols
  rw [onPrefix_congr dataStart] at prefixes
  refine ⟨second.data.trans data, ?_, ?_, ?_⟩
  · simpa only [stmtCount, first.conditions, second.conditions] using counted
  · simpa only [protocolCount, first.protocols, second.protocols] using protocols
  · simpa only [prefixStmts, first.prefixes, second.prefixes] using prefixes

end ConditionsUpdated

variable {op : TableOp} {stmt : String}

section Tables

variable {texts : TextReader} {db middle : PolicyEngineDB}

/-- The table of prefixes only ever grows, and only under the prefix of the condition. -/
theorem updatePrefixPolicyTableWithPrefix_stmts {ipAddr : String} {low high : Int}
    {ipPrefix : List UInt8} {other : String} (member : other ∈ prefixStmts
      (updatePrefixPolicyTableWithPrefix texts db ipAddr name op low high) ipPrefix) :
    other ∈ prefixStmts db ipPrefix ∨
      op = .add ∧ other = name ∧ texts.getNetworkPrefixFromCIDR ipAddr = some ipPrefix := by
  rw [updatePrefixPolicyTableWithPrefix] at member
  cases read : texts.getNetworkPrefixFromCIDR ipAddr with
  | none =>
    rw [read] at member
    exact .inl member
  | some key =>
    rw [read] at member
    by_cases same : ipPrefix = key
    · subst same
      cases found : db.prefixPolicyListDB.lookup ipPrefix <;> cases op <;>
        simp [found, prefixStmts] at member ⊢ <;> exact member
    · -- Every other list is as before.
      cases found : db.prefixPolicyListDB.lookup key <;> cases op <;>
        exact .inl (by simpa [found, prefixStmts, same] using member)

/-- A statement in a table was there before, or has just been added. -/
theorem updatePrefixPolicyTable_stmts {info : MatchPrefixConditionInfo}
    {ipPrefix : List UInt8} {other : String}
    (member : other ∈ prefixStmts (updatePrefixPolicyTable texts db info name op) ipPrefix) :
    other ∈ prefixStmts db ipPrefix ∨
      op = .add ∧ other = name ∧ tablePrefix texts info = some ipPrefix := by
  rw [updatePrefixPolicyTable] at member
  rw [tablePrefix]
  by_cases set : info.usePrefixSet = true
  · rw [if_pos set] at member
    exact .inl member
  · rw [if_neg set] at member ⊢
    by_cases wholeMask : info.policyPrefix.masklengthRange = "exact"
    · rw [if_pos wholeMask] at member ⊢
      exact updatePrefixPolicyTableWithPrefix_stmts member
    · rw [if_neg wholeMask] at member ⊢
      rw [updatePrefixPolicyTableWithMaskRange] at member
      generalize info.policyPrefix.masklengthRange.splitOn "-" = parts at member ⊢
      rcases parts with _ | ⟨low, _ | ⟨high, _ | ⟨more, rest⟩⟩⟩
      · exact .inl member
      · exact .inl member
      · -- Both ends of the range have to be numbers.
        cases lowRead : texts.atoi low with
        | none =>
          simp only [lowRead] at member
          exact .inl member
        | some lowRange =>
          cases highRead : texts.atoi high with
          | none =>
            simp only [lowRead, highRead] at member
            exact .inl member
          | some highRange =>
            simp only [lowRead, highRead] at member
            simpa [lowRead, highRead] using updatePrefixPolicyTableWithPrefix_stmts member
      · exact .inl member

/-- The tables that find statements follow the condition of this name. -/
structure TablesUpdated (texts : TextReader) (stmt condition : String) (op : TableOp)
    (before after : PolicyEngineDB) : Prop where
  conditions : after.policyConditionsDB = before.policyConditionsDB
  protocols : ∀ value other, protocolCount after value other =
    op.shift (protocolCount before value other)
      (if other = stmt ∧ onProtocol before value condition = true then 1 else 0)
  prefixes : ∀ ipPrefix, ∀ other ∈ prefixStmts after ipPrefix, other ∈ prefixStmts before ipPrefix ∨
    op = .add ∧ other = stmt ∧ onPrefix texts before ipPrefix condition = true

/-- By its type a condition moves one of the two tables, or none. -/
theorem updateConditionTables_updated {cond : PolicyCondition}
    (found : db.policyConditionsDB.lookup name = some cond)
    (done : updateConditionTables texts db cond stmt op = .ok middle) :
    TablesUpdated texts stmt name op db middle := by
  have data : conditionData db name =
      some (cond.name, cond.conditionType, cond.conditionInfo) := by
    simp [conditionData, found]
  rw [updateConditionTables] at done
  by_cases onName : cond.conditionType = policyConditionTypeProtocolMatch ∨
      cond.conditionType = policyConditionTypeNeighborMatch
  · -- A name of a protocol or neighbor: its list moves by one.
    rw [if_pos onName] at done
    cases info : cond.conditionInfo with
    | matchPrefix _ => simp [info] at done
    | text value =>
      simp only [info] at done
      cases done
      refine ⟨rfl, fun other user => ?_, fun _ _ member => .inl member⟩
      rw [protocolCount, updateProtocolPolicyTable, updateNameTable_count, protocolCount]
      have on : onProtocol db other name = true ↔ other = value := by
        simp only [onProtocol, data, info]
        simp [onName]
        exact eq_comm
      simp only [on]
  · rw [if_neg onName] at done
    have apart (value : String) : onProtocol db value name = false := by
      simp only [onProtocol, data, onName, false_and, decide_false]
    by_cases onDst : cond.conditionType = policyConditionTypeDstIpPrefixMatch
    · rw [if_pos onDst] at done
      cases info : cond.conditionInfo with
      | text _ => simp [info] at done
      | matchPrefix prefixInfo =>
        simp only [info] at done
        cases done
        obtain ⟨table, written⟩ := @updatePrefixPolicyTable_frame texts db prefixInfo stmt op
        refine ⟨by rw [written], fun value user => ?_, fun ipPrefix other member => ?_⟩
        · simp [protocolCount, written, apart, shift_zero]
        · simpa [onPrefix, data, info, onDst] using updatePrefixPolicyTable_stmts member
    · rw [if_neg onDst] at done
      cases done
      refine ⟨rfl, fun value user => ?_, fun _ _ member => .inl member⟩
      simp [apart, shift_zero]

/-- The parts of a condition that the tables speak about. -/
def conditionUse (db : PolicyEngineDB) (name : String) :
    Option ((String × Int × ConditionInfo) × List String) :=
  (db.policyConditionsDB.lookup name).map fun info =>
    ((info.name, info.conditionType, info.conditionInfo), info.policyStmtList.getD [])

theorem conditionData_eq_use (name : String) :
    conditionData db name = (conditionUse db name).map Prod.fst := by
  rw [conditionData, conditionUse, Option.map_map]
  rfl

theorem stmtCount_eq_use (name stmt : String) :
    stmtCount db name stmt = (((conditionUse db name).map Prod.snd).getD []).count stmt := by
  cases found : db.policyConditionsDB.lookup name <;> simp [stmtCount, conditionUse, found]

/-- What an update leaves of a condition, next to what it does to the tables. -/
theorem updateConditions_use {cond : PolicyCondition}
    (found : db.policyConditionsDB.lookup name = some cond)
    (done : updateConditions texts db stmt name op = .ok result) :
    ∃ middle, updateConditionTables texts db cond stmt op = .ok middle ∧
      result.1.protocolPolicyListDB = middle.protocolPolicyListDB ∧
      result.1.prefixPolicyListDB = middle.prefixPolicyListDB ∧
      (op = .add → result.2 = none) ∧
      ∀ other, conditionUse result.1 other =
        if other = name then (conditionUse db name).map fun use =>
          (use.1, updateNames use.2 stmt op)
        else conditionUse db other := by
  rw [updateConditions, found] at done
  simp only [bind_eq_ok] at done
  obtain ⟨middle, entered, done⟩ := done
  have conditions := (updateConditionTables_updated found entered).conditions
  refine ⟨middle, entered, ?_⟩
  cases list : cond.policyStmtList <;> cases op <;> simp only [list] at done <;> cases done <;>
    refine ⟨rfl, rfl, by simp, fun other => ?_⟩ <;> by_cases same : other = name
  all_goals first
    | (subst same; simp [conditionUse, conditions, found, list, updateNames])
    | simp [conditionUse, conditions, same]

/-- One condition: its own list moves with the tables. -/
theorem updateConditions_updated (known : (conditionData db name).isSome = true)
    (done : updateConditions texts db stmt name op = .ok result) :
    ConditionsUpdated texts stmt op [name] db result.1 ∧ (op = .add → result.2 = none) := by
  rcases found : db.policyConditionsDB.lookup name with _ | cond
  · simp [conditionData, found] at known
  obtain ⟨middle, entered, protocols, prefixes, fine, use⟩ := updateConditions_use found done
  have tables := updateConditionTables_updated found entered
  refine ⟨⟨?_, ?_, ?_, ?_⟩, fine⟩
  · funext other
    rw [conditionData_eq_use, conditionData_eq_use, use]
    by_cases own : other = name
    · subst own
      simp [Option.map_map, Function.comp_def]
    · simp [own]
  · intro other user present
    rw [stmtCount_eq_use, stmtCount_eq_use, use]
    by_cases own : other = name
    · subst own
      rw [conditionData_eq_use, Option.isSome_map] at present
      obtain ⟨old, held⟩ := Option.isSome_iff_exists.mp present
      rw [if_pos rfl, held]
      simpa using count_updateNames old.2 stmt user op
    · have apart : name ≠ other := fun equal => own equal.symm
      simp [own, apart, shift_zero]
  · intro value user
    have moved := tables.protocols value user
    simp only [protocolCount, ← protocols] at moved ⊢
    rw [moved]
    cases on : onProtocol db value name <;> simp [on]
  · intro ipPrefix user member
    rw [prefixStmts, prefixes] at member
    refine (tables.prefixes ipPrefix user member).imp id ?_
    rintro ⟨added, own, on⟩
    exact ⟨added, own, name, mem_singleton_self name, on⟩

end Tables

section Calls

variable {texts : TextReader} {db : PolicyEngineDB}

variable {before middle after : PolicyEngineDB}

/-- The tables agree again when the statement has moved with them. -/
theorem ConditionsUpdated.conditioned
    (updated : ConditionsUpdated texts stmt op conditions before after)
    (conditioned : Conditioned texts before) (stmtsNamed : StmtsNamed after)
    (others : ∀ other, other ≠ stmt → conditionsOf after other = conditionsOf before other)
    (exist : ∀ cond ∈ conditionsOf after stmt, (conditionData before cond).isSome = true)
    (counts : ∀ cond, (conditionsOf after stmt).count cond =
      op.shift ((conditionsOf before stmt).count cond) (conditions.count cond))
    (protocols : ∀ value, (conditionsOf after stmt).countP (onProtocol before value) =
      op.shift ((conditionsOf before stmt).countP (onProtocol before value))
        (conditions.countP (onProtocol before value)))
    (prefixes : ∀ ipPrefix, (stmt ∈ prefixStmts before ipPrefix ∨ op = .add ∧
        ∃ cond ∈ conditions, onPrefix texts before ipPrefix cond = true) →
      ∃ cond ∈ conditionsOf after stmt, onPrefix texts before ipPrefix cond = true) :
    Conditioned texts after := by
  refine ⟨stmtsNamed, ?_, ?_, ?_, ?_, ?_⟩
  · rw [updated.data]
    exact conditioned.conditionsNamed
  · intro other
    rw [updated.data]
    by_cases own : other = stmt
    · rw [own]
      exact exist
    · rw [others other own]
      exact conditioned.exist other
  · intro cond other known
    rw [updated.data] at known
    rw [updated.counted cond other known, conditioned.counted cond other known]
    by_cases own : other = stmt
    · subst own
      simpa using (counts cond).symm
    · simp [own, others other own, shift_zero]
  · intro value other
    rw [updated.protocols value other, conditioned.protocols, onProtocol_congr updated.data]
    by_cases own : other = stmt
    · subst own
      simpa using (protocols value).symm
    · simp [own, others other own, shift_zero]
  · intro ipPrefix other member
    rw [onPrefix_congr updated.data]
    by_cases own : other = stmt
    · subst own
      apply prefixes
      refine (updated.prefixes ipPrefix other member).imp id ?_
      rintro ⟨added, _, cond, inList, on⟩
      exact ⟨added, cond, inList, on⟩
    · rw [others other own]
      rcases updated.prefixes ipPrefix other member with held | ⟨_, same, _⟩
      · exact conditioned.prefixes ipPrefix other held
      · exact absurd same own

/-- A statement that is written changes its own conditions and no others. -/
theorem conditionsOf_insert {info : PolicyStmt}
    (stmts : after.policyStmtDB = db.policyStmtDB.insert stmt info) (other : String) :
    conditionsOf after other =
      if other = stmt then info.conditions.getD [] else conditionsOf db other := by
  by_cases same : other = stmt
  · subst same
    simp [conditionsOf, stmts]
  · simp [conditionsOf, stmts, same]

/-- A statement is written whose new conditions stand behind those it had. -/
theorem ConditionsUpdated.conditioned_write {info : PolicyStmt}
    (updated : ConditionsUpdated texts stmt .add conditions before middle)
    (same : SameStmts middle after) (conditioned : Conditioned texts before)
    (known : ∀ cond ∈ conditions, (conditionData before cond).isSome = true)
    (stmts : after.policyStmtDB = before.policyStmtDB.insert stmt info) (ownName : info.name = stmt)
    (behind : info.conditions.getD [] = conditionsOf before stmt ++ conditions) :
    Conditioned texts after := by
  have own : conditionsOf after stmt = conditionsOf before stmt ++ conditions := by
    rw [conditionsOf_insert stmts, if_pos rfl, behind]
  refine (congr ⟨rfl, rfl, rfl⟩ updated same).conditioned conditioned ?_ ?_ ?_ ?_ ?_ ?_
  · rw [StmtsNamed, stmts]
    exact GoMap.own_insert conditioned.stmtsNamed ownName
  · intro other apart
    rw [conditionsOf_insert stmts, if_neg apart]
  · rw [own, forall_mem_append]
    exact ⟨conditioned.exist stmt, known⟩
  · intro cond
    rw [own, count_append, TableOp.shift]
  · intro value
    rw [own, countP_append, TableOp.shift]
  · rw [own]
    rintro ipPrefix (held | ⟨_, cond, inList, on⟩)
    · obtain ⟨cond, inList, on⟩ := conditioned.prefixes ipPrefix stmt held
      exact ⟨cond, mem_append_left _ inList, on⟩
    · exact ⟨cond, mem_append_right _ inList, on⟩

/-- A statement that goes leaves its conditions, provided that none is entered under a prefix. -/
theorem ConditionsUpdated.conditioned_del
    (updated : ConditionsUpdated texts stmt .del (conditionsOf before stmt) before after)
    (conditioned : Conditioned texts before) (stmtsNamed : StmtsNamed after)
    (others : ∀ other, other ≠ stmt → conditionsOf after other = conditionsOf before other)
    (gone : conditionsOf after stmt = [])
    (unlisted : ∀ ipPrefix, ∀ cond ∈ conditionsOf before stmt,
      onPrefix texts before ipPrefix cond = false) : Conditioned texts after := by
  refine updated.conditioned conditioned stmtsNamed others (by simp [gone]) ?_ ?_ ?_
  · intro cond
    simp [gone, TableOp.shift]
  · intro value
    simp [gone, TableOp.shift]
  · rintro ipPrefix (held | ⟨added, _⟩)
    · obtain ⟨cond, inList, on⟩ := conditioned.prefixes ipPrefix stmt held
      rw [unlisted ipPrefix cond inList] at on
      cases on
    · cases added

theorem conditionData_isSome (name : String) :
    (conditionData db name).isSome = (db.policyConditionsDB.lookup name).isSome := by
  rw [conditionData, Option.isSome_map]

/-- Conditions that exist are entered without an error. -/
theorem createConditions_updated {policyStmt : PolicyStmt}
    {out : PolicyEngineDB × PolicyStmt × Option String}
    (known : ∀ name ∈ names, (conditionData db name).isSome = true)
    (done : createConditions texts db policyStmt names = .ok out) :
    ConditionsUpdated texts policyStmt.name .add names db out.1 ∧ out.2.2 = none ∧
      out.2.1.conditions.getD [] = policyStmt.conditions.getD [] ++ names := by
  induction names generalizing db policyStmt with
  | nil =>
    cases done
    exact ⟨.nil, rfl, by simp⟩
  | cons name names ih =>
    rw [createConditions, bind_eq_ok] at done
    obtain ⟨⟨middle, err⟩, entered, done⟩ := done
    rw [forall_mem_cons] at known
    obtain ⟨first, fine⟩ := updateConditions_updated known.1 entered
    cases fine rfl
    obtain ⟨rest, ended, own⟩ := ih (fun other member => first.data ▸ known.2 other member) done
    exact ⟨first.append rest, ended, by simpa using own⟩

/-- A new statement is entered under each of its conditions. -/
theorem createPolicyStatement_conditioned (conditioned : Conditioned texts db)
    (done : createPolicyStatement texts db cfg = .ok result) : Conditioned texts result.1 := by
  rw [createPolicyStatement, bind_eq_ok] at done
  obtain ⟨checked, valid, done⟩ := done
  cases checked with
  | some err =>
    cases done
    exact conditioned
  | none =>
    obtain ⟨fresh, known⟩ := validatePolicyStatementCreate_fine valid
    simp only [← conditionData_isSome] at known
    simp only [bind_eq_ok] at done
    obtain ⟨⟨middle, policyStmt, err⟩, entered, done⟩ := done
    obtain ⟨same, own, _⟩ := createConditions_sameUse entered
    obtain ⟨updated, ended, conditions⟩ := createConditions_updated known entered
    cases ended
    cases done
    have stmts := congrArg (fun stmts => AList.insert cfg.name { policyStmt with
      actions := cfg.actions.take 1
      localDBSliceIdx := Int8.ofInt middle.localPolicyStmtDB.length } stmts) same.stmts
    have before : conditionsOf db cfg.name = [] := by simp [conditionsOf, fresh]
    refine updated.conditioned_write ?_ conditioned known stmts own ?_
    · exact ⟨rfl, rfl, rfl⟩
    · rw [before, nil_append]
      exact conditions

/-- The conditions of a statement that is deleted, whatever error they report. -/
theorem deleteConditions_updated (known : ∀ name ∈ names, (conditionData db name).isSome = true)
    (done : deleteConditions texts db stmt names = .ok after) :
    ConditionsUpdated texts stmt .del names db after := by
  induction names generalizing db with
  | nil =>
    cases done
    exact .nil
  | cons name names ih =>
    rw [deleteConditions, foldlM_cons, bind_eq_ok] at done
    obtain ⟨middle, step, done⟩ := done
    obtain ⟨⟨_, err⟩, entered, ended⟩ := bind_eq_ok.mp step
    cases ended
    rw [forall_mem_cons] at known
    have first := (updateConditions_updated known.1 entered).1
    exact first.append (ih (fun other member => first.data ▸ known.2 other member) done)

theorem conditionsOf_erase
    (stmts : after.policyStmtDB = db.policyStmtDB.erase stmt) (other : String) :
    conditionsOf after other = if other = stmt then [] else conditionsOf db other := by
  by_cases same : other = stmt
  · subst same
    simp [conditionsOf, stmts]
  · simp [conditionsOf, stmts, same]

/-- The conditions of a deleted statement forget it, when none of them is on a prefix. -/
theorem deletePolicyStatement_conditioned (conditioned : Conditioned texts db)
    (unlisted : ∀ ipPrefix, ∀ cond ∈ conditionsOf db cfg.name,
      onPrefix texts db ipPrefix cond = false)
    (done : deletePolicyStatement texts db cfg = .ok result) : Conditioned texts result.1 := by
  rw [deletePolicyStatement] at done
  cases found : db.policyStmtDB.lookup cfg.name with
  | none =>
    simp only [found] at done
    cases done
    exact conditioned
  | some policyStmt =>
    simp only [found] at done
    have own := conditioned.stmtsNamed cfg.name policyStmt found
    have names : policyStmt.conditions.getD [] = conditionsOf db cfg.name := by
      simp [conditionsOf, found]
    by_cases unused : policyStmt.policyList.getD [] = []
    · simp only [unused, ne_eq, not_true_eq_false, if_false, bind_eq_ok] at done
      obtain ⟨after, deleted, done⟩ := done
      cases done
      rw [own, names] at deleted
      have stmts := (deleteConditions_sameUse deleted).stmts
      have updated := deleteConditions_updated (by exact conditioned.exist cfg.name) deleted
      refine ConditionsUpdated.conditioned_del (ConditionsUpdated.congr ?_ updated ⟨rfl, rfl, rfl⟩)
        conditioned ?_ ?_ ?_ unlisted
      · exact ⟨rfl, rfl, rfl⟩
      · rw [StmtsNamed, stmts]
        exact GoMap.own_erase conditioned.stmtsNamed
      · intro other apart
        rw [conditionsOf_erase stmts, if_neg apart]
      · rw [conditionsOf_erase stmts, if_pos rfl]
    · rw [if_pos unused] at done
      cases done
      exact conditioned

/-- The loop of an update adds each condition under the statement. -/
theorem addConditions_updated
    (ownNames : ∀ name data, conditionData db name = some data → data.1 = name)
    (known : ∀ name ∈ names, (conditionData db name).isSome = true)
    (done : names.foldlM (addCondition texts stmt) db = .ok after) :
    ConditionsUpdated texts stmt .add names db after ∧ after.policyStmtDB = db.policyStmtDB := by
  induction names generalizing db with
  | nil =>
    cases done
    exact ⟨.nil, rfl⟩
  | cons name names ih =>
    rw [foldlM_cons, bind_eq_ok] at done
    obtain ⟨middle, step, done⟩ := done
    rw [forall_mem_cons] at known
    have present := known.1
    rw [conditionData_isSome] at present
    obtain ⟨cond, found⟩ := Option.isSome_iff_exists.mp present
    have own : cond.name = name := by
      apply ownNames name (cond.name, cond.conditionType, cond.conditionInfo)
      simp [conditionData, found]
    simp only [addCondition, found, own, bind_eq_ok] at step
    obtain ⟨⟨_, err⟩, entered, ended⟩ := step
    cases ended
    have first := (updateConditions_updated known.1 entered).1
    have kept := (updateConditions_sameUse entered).stmts
    obtain ⟨rest, stmts⟩ := ih (first.data ▸ ownNames)
      (fun other member => first.data ▸ known.2 other member) done
    exact ⟨first.append rest, stmts.trans kept⟩

theorem updateAddPolicyStmtConditions_conditioned (conditioned : Conditioned texts db)
    (known : ∀ name ∈ cfg.conditions, (conditionData db name).isSome = true)
    (done : updateAddPolicyStmtConditions texts db cfg = .ok result) :
    Conditioned texts result.1 := by
  rw [updateAddPolicyStmtConditions] at done
  cases found : db.policyStmtDB.lookup cfg.name with
  | none =>
    simp only [found] at done
    cases done
    exact conditioned
  | some policyStmt =>
    have own := conditioned.stmtsNamed cfg.name policyStmt found
    simp only [found, bind_eq_ok] at done
    obtain ⟨middle, entered, done⟩ := done
    cases done
    rw [own] at entered
    obtain ⟨updated, same⟩ := addConditions_updated conditioned.conditionsNamed known entered
    have stmts := congrArg (fun stmts => AList.insert cfg.name { policyStmt with
      conditions := some (policyStmt.conditions.getD [] ++ cfg.conditions) } stmts) same
    refine updated.conditioned_write ?_ conditioned known stmts own ?_
    · exact ⟨rfl, rfl, rfl⟩
    · simp [conditionsOf, found]

theorem removeMarked_nil (fuel : Nat) (names : List String) (idx : Nat) :
    removeMarked [] fuel names idx = names := by
  induction fuel generalizing idx with
  | zero => rfl
  | succ fuel ih =>
    rw [removeMarked]
    split
    · rfl
    · simpa using ih (idx + 1)

/-- A removal that names no condition changes nothing. -/
theorem updateRemovePolicyStmtConditions_conditioned (conditioned : Conditioned texts db)
    (idle : db.policyStmtDB.lookup cfg.name = none ∨ cfg.conditions = [])
    (done : updateRemovePolicyStmtConditions texts db cfg = .ok result) :
    Conditioned texts result.1 := by
  rw [updateRemovePolicyStmtConditions] at done
  cases found : db.policyStmtDB.lookup cfg.name with
  | none =>
    simp only [found] at done
    cases done
    exact conditioned
  | some policyStmt =>
    have empty : cfg.conditions = [] := idle.resolve_left (by simp [found])
    have own := conditioned.stmtsNamed cfg.name policyStmt found
    simp only [found, empty, filter_nil, foldlM_nil, pure_eq, ok_bind,
      removeMarked_nil, Option.map_id'] at done
    cases done
    refine ConditionsUpdated.nil.conditioned_write ?_ conditioned (by simp) rfl own ?_
    · exact ⟨rfl, rfl, rfl⟩
    · simp [conditionsOf, found]

end Calls

/-- The calls that define statements and their conditions. -/
inductive ConditionCall where
  | createPolicyStatement (cfg : PolicyStmtConfig)
  | deletePolicyStatement (cfg : PolicyStmtConfig)
  | updateAddPolicyStmtConditions (cfg : PolicyStmtConfig)
  | updateRemovePolicyStmtConditions (cfg : PolicyStmtConfig)

def ConditionCall.run (texts : TextReader) (db : PolicyEngineDB) :
    ConditionCall → Outcome Unit Result
  | .createPolicyStatement cfg => PolicyEngine.createPolicyStatement texts db cfg
  | .deletePolicyStatement cfg => PolicyEngine.deletePolicyStatement texts db cfg
  | .updateAddPolicyStmtConditions cfg => PolicyEngine.updateAddPolicyStmtConditions texts db cfg
  | .updateRemovePolicyStmtConditions cfg =>
    PolicyEngine.updateRemovePolicyStmtConditions texts db cfg

/--
The calls that keep the tables in step.

Conditions that are added exist, a statement that is deleted has no condition under a prefix, and
nothing is removed from a statement.
-/
def ConditionCall.Regular (texts : TextReader) (db : PolicyEngineDB) : ConditionCall → Prop
  | .createPolicyStatement _ => True
  | .deletePolicyStatement cfg => ∀ ipPrefix, ∀ condition ∈ conditionsOf db cfg.name,
    onPrefix texts db ipPrefix condition = false
  | .updateAddPolicyStmtConditions cfg =>
    ∀ name ∈ cfg.conditions, (db.policyConditionsDB.lookup name).isSome = true
  | .updateRemovePolicyStmtConditions cfg =>
    db.policyStmtDB.lookup cfg.name = none ∨ cfg.conditions = []

theorem run_conditioned {texts : TextReader} {db : PolicyEngineDB} {call : ConditionCall}
    (conditioned : Conditioned texts db) (regular : call.Regular texts db)
    (done : call.run texts db = .ok result) : Conditioned texts result.1 := by
  cases call with
  | createPolicyStatement cfg => exact createPolicyStatement_conditioned conditioned done
  | deletePolicyStatement cfg => exact deletePolicyStatement_conditioned conditioned regular done
  | updateAddPolicyStmtConditions cfg =>
    refine updateAddPolicyStmtConditions_conditioned conditioned (fun name member => ?_) done
    rw [conditionData_isSome]
    exact regular name member
  | updateRemovePolicyStmtConditions cfg =>
    exact updateRemovePolicyStmtConditions_conditioned conditioned regular done

/-- Calls made one after the other, each of which returns and keeps to the condition. -/
inductive RegularConditionCalls (texts : TextReader) :
    PolicyEngineDB → List ConditionCall → PolicyEngineDB → Prop where
  | nil (db : PolicyEngineDB) : RegularConditionCalls texts db [] db
  | cons {db last : PolicyEngineDB} {call : ConditionCall} {calls : List ConditionCall}
      {result : Result} (regular : call.Regular texts db) (done : call.run texts db = .ok result)
      (rest : RegularConditionCalls texts result.1 calls last) :
      RegularConditionCalls texts db (call :: calls) last

/-- An engine with conditions, under their names, that no statement uses yet. -/
structure Unstated (db : PolicyEngineDB) : Prop where
  stmts : db.policyStmtDB = ∅
  protocols : db.protocolPolicyListDB = ∅
  prefixes : db.prefixPolicyListDB = ∅
  conditions : ∀ name condition, db.policyConditionsDB.lookup name = some condition →
    condition.name = name ∧ condition.policyStmtList.getD [] = []

theorem Unstated.conditioned {db : PolicyEngineDB} (fresh : Unstated db) (texts : TextReader) :
    Conditioned texts db := by
  have noConditions (stmt : String) : conditionsOf db stmt = [] := by simp [conditionsOf, fresh.stmts]
  constructor
  · simp [StmtsNamed, fresh.stmts]
  · intro name data held
    simp only [conditionData, Option.map_eq_some_iff] at held
    obtain ⟨cond, found, rfl⟩ := held
    exact (fresh.conditions name cond found).1
  · simp [noConditions]
  · intro name stmt _
    cases found : db.policyConditionsDB.lookup name with
    | none => simp [stmtCount, found, noConditions]
    | some cond => simp [stmtCount, found, noConditions, (fresh.conditions name cond found).2]
  · simp [protocolCount, fresh.protocols, noConditions]
  · simp [prefixStmts, fresh.prefixes]

/--
In every such run conditions list the statements that name them, as often as they do.

The tables of protocols and prefixes list a statement only while it has such a condition.
-/
theorem conditions_know_statements {texts : TextReader} {db last : PolicyEngineDB}
    {calls : List ConditionCall} (fresh : Unstated db)
    (run : RegularConditionCalls texts db calls last) :
    (∀ condition stmt, (last.policyConditionsDB.lookup condition).isSome = true →
        stmtCount last condition stmt = (conditionsOf last stmt).count condition) ∧
      (∀ value stmt, 0 < protocolCount last value stmt →
        ∃ condition ∈ conditionsOf last stmt, onProtocol last value condition = true) ∧
      ∀ ipPrefix, ∀ stmt ∈ prefixStmts last ipPrefix,
        ∃ condition ∈ conditionsOf last stmt, onPrefix texts last ipPrefix condition = true := by
  have conditioned : Conditioned texts last := by
    have start := fresh.conditioned texts
    clear fresh
    induction run with
    | nil => exact start
    | cons regular done _ ih => exact ih (run_conditioned start regular done)
  refine ⟨fun condition stmt known => ?_, fun value stmt used => ?_, conditioned.prefixes⟩
  · rw [← conditionData_isSome] at known
    exact conditioned.counted condition stmt known
  · rw [conditioned.protocols, countP_pos_iff] at used
    exact used

/-- An engine with one condition, on the protocol BGP. -/
def protocolEngine : PolicyEngineDB :=
  { newPolicyEngineDB with
    policyConditionsDB := AList.singleton "C"
      ⟨"C", policyConditionTypeProtocolMatch, .text "BGP", none⟩ }

theorem protocolEngine_unstated : Unstated protocolEngine := by
  refine ⟨rfl, rfl, rfl, ?_⟩
  intro name cond found
  rw [GoMap.lookup_eq_some] at found
  cases mem_singleton.mp found
  exact ⟨rfl, rfl⟩

/-- Two statements, of which one gets a condition twice and is deleted. -/
def sharedConditionCalls : List ConditionCall :=
  [.createPolicyStatement ⟨"S", "all", ["C"], ["permit"]⟩,
    .createPolicyStatement ⟨"T", "all", ["C"], ["permit"]⟩,
    .updateAddPolicyStmtConditions ⟨"S", "all", ["C"], ["permit"]⟩,
    .deletePolicyStatement ⟨"S", "all", [], ["permit"]⟩]

/-- Of two statements with a condition, the one that has it twice is deleted. -/
theorem conditions_know_statements_deleted : ∃ last,
      RegularConditionCalls .blind protocolEngine sharedConditionCalls last ∧
      (conditionsOf last "T", stmtCount last "C" "S", stmtCount last "C" "T") = (["C"], 0, 1) ∧
      (∀ condition stmt, (last.policyConditionsDB.lookup condition).isSome = true →
        stmtCount last condition stmt = (conditionsOf last stmt).count condition) ∧
      (∀ value stmt, 0 < protocolCount last value stmt →
        ∃ condition ∈ conditionsOf last stmt, onProtocol last value condition = true) ∧
      ∀ ipPrefix, ∀ stmt ∈ prefixStmts last ipPrefix,
        ∃ condition ∈ conditionsOf last stmt, onPrefix .blind last ipPrefix condition = true := by
  obtain ⟨last, run, counts⟩ : ∃ last,
      RegularConditionCalls .blind protocolEngine sharedConditionCalls last ∧
        (conditionsOf last "T", stmtCount last "C" "S", stmtCount last "C" "T") = (["C"], 0, 1) := by
    refine ⟨_, .cons trivial rfl (.cons trivial rfl (.cons ?_ rfl (.cons ?_ rfl (.nil _)))),
      by decide⟩
    · intro name member
      cases mem_singleton.mp member
      rfl
    · intro ipPrefix condition member
      change condition ∈ ["C", "C"] at member
      have same : condition = "C" := by simpa using member
      subst same
      rfl
  exact ⟨last, run, counts, conditions_know_statements protocolEngine_unstated run⟩

def runConditionCalls (texts : TextReader) (db : PolicyEngineDB) (calls : List ConditionCall) :
    Outcome Unit PolicyEngineDB :=
  calls.foldlM (fun db call => do
    let (db, _) ← call.run texts db
    return db) db

/-- A condition that is removed from its only statement lists that statement twice. -/
theorem remove_adds_condition : (do
      let db ← runConditionCalls .blind protocolEngine
        [.createPolicyStatement ⟨"S", "all", ["C"], ["permit"]⟩,
          .updateRemovePolicyStmtConditions ⟨"S", "all", ["C"], ["permit"]⟩]
      return (conditionsOf db "S", stmtCount db "C" "S", protocolCount db "BGP" "S")) =
      (.ok ([], 2, 2) : Outcome Unit (List String × Nat × Nat)) := by
  decide

end FlexSwitch.PolicyEngine
