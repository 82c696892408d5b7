import FlexSwitch.Policy.Default

/-! Taking a policy, or some of its statements, back from an entity it was applied to. -/

namespace FlexSwitch.PolicyEngine

open Go List

/-- What is to be undone; an empty list stands for everything. -/
structure PolicyEngineApplyInfo where
  stmtList : List String
  conditionsList : List String

section Undo

variable {World Index : Type}

/-- The loop over the applied statements, with those undone so far. -/
structure Undoing (World Index : Type) where
  shared : Shared World Index
  ret : Bool
  undone : List String
  present : Bool

variable (app : Application World Index) (db : PolicyEngineDB)
  (entity : PolicyEngineFilterEntityParams) (info : PolicyEngineApplyInfo)

def policyEngineUndoActionsPolicyStmt (policyStmt : PolicyStmt)
    (applied : ConditionsAndActionsList) (shared : Shared World Index) : Shared World Index :=
  let conditionInfoList := applied.conditionList.map (·.conditionInfo)
  applied.actionList.foldl (fun shared action =>
    match app.undoActionfuncMap action.actionType with
    | none => shared
    | some undo => undo action.actionInfo conditionInfoList policyStmt shared) shared

def undoStmts : List (String × ConditionsAndActionsList) → Undoing World Index → Undoing World Index
  | [], state => state
  | (stmt, applied) :: rest, state =>
    if info.stmtList ≠ [] ∧ stmt ∉ info.stmtList then undoStmts rest { state with ret := false }
    else
      let ret := state.ret && applied.conditionList.all fun condition =>
        info.conditionsList = [] ∨ condition.name ∈ info.conditionsList
      -- The flag still holds what an earlier statement made of it.
      if ret = false then undoStmts rest { state with ret := false }
      else
        match db.policyStmtDB.lookup stmt with
        | none => undoStmts rest state
        | some policyStmt =>
          let shared := policyEngineUndoActionsPolicyStmt app policyStmt applied state.shared
          let next := { state with shared := shared, undone := state.undone ++ [stmt] }
          if app.isEntityPresentFunc.all (· shared) then undoStmts rest next
          else { next with present := false }

variable {app db info} in
/-- Statements are undone up to the first one that stays. -/
theorem undoStmts_takes {entries : List (String × ConditionsAndActionsList)}
    {state : Undoing World Index} (update : info.stmtList ≠ []) (every : info.conditionsList = [])
    (present : (undoStmts app db info entries state).present = true) :
    (undoStmts app db info entries state).ret =
        (state.ret && (entries.map Prod.fst).all (· ∈ info.stmtList)) ∧
      (undoStmts app db info entries state).undone = state.undone ++ if state.ret then
        ((entries.map Prod.fst).takeWhile (· ∈ info.stmtList)).filter
          fun stmt => (db.policyStmtDB.lookup stmt).isSome else [] := by
  induction entries generalizing state with
  | nil => simp [undoStmts]
  | cons entry rest ih =>
    rw [undoStmts] at present ⊢
    by_cases inside : entry.1 ∈ info.stmtList
    · rw [if_neg (by simp [inside])] at present ⊢
      cases flag : state.ret with
      | false =>
        simp only [flag, Bool.false_and, if_true] at present ⊢
        simpa [flag] using ih present
      | true =>
        simp only [every, flag, true_or, decide_true, Bool.true_and] at present ⊢
        rw [if_neg (by simp)] at present ⊢
        cases found : db.policyStmtDB.lookup entry.1 with
        | none =>
          simp only [found] at present ⊢
          simpa [flag, inside, found] using ih present
        | some policyStmt =>
          simp only [found] at present ⊢
          split_ifs at present ⊢
          simpa [flag, inside, found] using ih present
    · rw [if_pos ⟨update, inside⟩] at present ⊢
      simpa [inside] using ih present

variable {app db info} in
/-- Where the application cannot tell that a route is gone, every route counts as present. -/
theorem undoStmts_present (unknown : app.isEntityPresentFunc = none)
    (entries : List (String × ConditionsAndActionsList)) (state : Undoing World Index) :
    (undoStmts app db info entries state).present = state.present := by
  induction entries generalizing state with
  | nil => rfl
  | cons entry rest ih =>
    rw [undoStmts]
    simp only [unknown, Option.all_none, if_true]
    cases db.policyStmtDB.lookup entry.1 <;> split_ifs <;> exact ih _

variable [DecidableEq Index]

def appliedStmts (policy : String) (shared : Shared World Index) :
    Option (GoMap String ConditionsAndActionsList) := do
  let index ← app.getPolicyEntityMapIndex
  shared.policyEntityMap.lookup (← index entity policy)

def policyEngineUndoPolicyForEntity (order : MapOrder) (policy : String)
    (shared : Shared World Index) : Undoing World Index :=
  match appliedStmts app entity policy shared with
  | none => ⟨shared, false, [], true⟩
  | some policyStmtMap => undoStmts app db info
    (order.range "PolicyEngineUndoPolicyForEntity" policyStmtMap) ⟨shared, true, [], true⟩

theorem mem_range_keys (order : MapOrder) (site : String)
    (policyStmtMap : GoMap String ConditionsAndActionsList) (stmt : String) :
    stmt ∈ (order.range site policyStmtMap).map Prod.fst ↔ stmt ∈ policyStmtMap := by
  rw [MapOrder.range, ((order.perm site _).map Prod.fst).mem_iff, map_map]
  rfl

/-- Exactly the removed statements are undone, and the result tells whether none stays. -/
def UndoesRemoved (db : PolicyEngineDB) (info : PolicyEngineApplyInfo)
    (policyStmtMap : GoMap String ConditionsAndActionsList) (last : Undoing World Index) : Prop :=
  (∀ stmt, stmt ∈ last.undone ↔
    stmt ∈ policyStmtMap ∧ stmt ∈ info.stmtList ∧ (db.policyStmtDB.lookup stmt).isSome) ∧
  (last.ret = true ↔ ∀ stmt ∈ policyStmtMap, stmt ∈ info.stmtList)

/-- The order of the map can only be ignored if no statement stays, or none is to be undone. -/
theorem undoes_removed_iff {policy : String} {shared : Shared World Index}
    {policyStmtMap : GoMap String ConditionsAndActionsList}
    (found : appliedStmts app entity policy shared = some policyStmtMap)
    (update : info.stmtList ≠ []) (every : info.conditionsList = [])
    (present : ∀ order, (policyEngineUndoPolicyForEntity app db entity info order policy
      shared).present = true) :
    (∀ order, UndoesRemoved db info policyStmtMap
        (policyEngineUndoPolicyForEntity app db entity info order policy shared)) ↔
      (∀ stmt ∈ policyStmtMap, stmt ∈ info.stmtList) ∨
      ∀ stmt ∈ policyStmtMap, stmt ∈ info.stmtList → db.policyStmtDB.lookup stmt = none := by
  simp only [policyEngineUndoPolicyForEntity, found, UndoesRemoved] at present ⊢
  constructor
  · intro law
    by_contra fails
    simp only [not_or, not_forall] at fails
    obtain ⟨⟨stays, applied, outside⟩, stmt, member, removed, defined⟩ := fails
    -- Some order visits the statement that stays first, and then nothing is undone.
    obtain ⟨value, entry⟩ := Option.isSome_iff_exists.mp (AList.lookup_isSome.mpr applied)
    obtain ⟨order, visits⟩ := MapOrder.exists_first entry
    obtain ⟨rest, first⟩ := visits "PolicyEngineUndoPolicyForEntity"
    have kept := ((law order).1 stmt).mpr ⟨member, removed, Option.isSome_iff_ne_none.mpr defined⟩
    rw [(undoStmts_takes update every (present order)).2, first] at kept
    simp [outside] at kept
  · intro fits order
    obtain ⟨ret, undone⟩ := undoStmts_takes update every (present order)
    have visits := mem_range_keys order "PolicyEngineUndoPolicyForEntity" policyStmtMap
    rw [ret, undone]
    refine ⟨fun stmt => ?_, by simp only [Bool.true_and, all_eq_true, visits, decide_eq_true_eq]⟩
    rw [nil_append, if_pos rfl, mem_filter]
    constructor
    · rintro ⟨taken, defined⟩
      exact ⟨(visits stmt).mp (( takeWhile_prefix _).mem taken),
        by simpa using mem_takeWhile_imp taken, defined⟩
    · rintro ⟨member, removed, defined⟩
      rcases fits with whole | gone
      · rw [takeWhile_eq_self_iff.mpr fun other visited =>
          decide_eq_true (whole other ((visits other).mp visited))]
        exact ⟨(visits stmt).mpr member, defined⟩
      · simp [gone stmt member removed] at defined

end Undo

/-- The statements of a policy that accepts routes, as they are kept once they are applied. -/
def appliedAccept (stmts : List String) : GoMap String ConditionsAndActionsList :=
  (stmts.map fun stmt => ⟨stmt, [], [⟨"accept", 0, .text "Accept"⟩]⟩).toAList

/-- An engine that knows two statements. -/
def twoStmtEngine : PolicyEngineDB :=
  { acceptEngine with
    policyStmtDB := acceptEngine.policyStmtDB.insert "T"
      ⟨"T", "all", none, ["permit"], some ["P"], 1⟩ }

/-- Some statements are taken out of the policy of the only route. -/
def undoAccept (order : MapOrder) (removed stmts : List String) : Undoing Unit Unit :=
  policyEngineUndoPolicyForEntity
    { Application.silent with getPolicyEntityMapIndex := some fun _ _ => some () } twoStmtEngine
    ⟨"10.1.0.0/16", "10.0.0.1", "STATIC", "", false, false, none, 0⟩ ⟨removed, []⟩ order "P"
    ⟨(), [⟨(), appliedAccept stmts⟩].toAList⟩

/-- Both statements are taken out, and both are undone whichever is visited first. -/
theorem undoes_both : (appliedAccept ["T", "S"]).keys = ["T", "S"] ∧
    ∀ order, UndoesRemoved twoStmtEngine ⟨["S", "T"], []⟩ (appliedAccept ["T", "S"])
      (undoAccept order ["S", "T"] ["T", "S"]) := by
  refine ⟨rfl, (undoes_removed_iff _ _ _ _ rfl (by decide) rfl ?_).mpr (.inl (by decide))⟩
  intro order
  exact undoStmts_present rfl _ _

/-- The statement is visited behind one that stays, and is not undone. -/
theorem undo_passes_removed : (undoAccept .stored ["S"] ["T", "S"]).undone = [] := by
  decide

end FlexSwitch.PolicyEngine
