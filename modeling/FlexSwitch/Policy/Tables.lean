import FlexSwitch.Go.Loop
import FlexSwitch.Go.Map

/-!
The tables of the policy engine.

Its tries are read and written under whole names only, and stand here as maps. A trie is one until
a deletion panics, which `Memory.Stranded` describes and which is left out here: what is proved of
the tables is about the calls before that. A slice that the code compares with nil is an option.
-/

namespace FlexSwitch.PolicyEngine

open Go

structure PolicyPrefix where
  ipPrefix : String
  masklengthRange : String
deriving DecidableEq, Repr

structure MatchPrefixConditionInfo where
  usePrefixSet : Bool
  prefixSet : String
  policyPrefix : PolicyPrefix
deriving DecidableEq, Repr

/-- What a condition holds: the name of a protocol or neighbor, or what a destination must match. -/
inductive ConditionInfo where
  | text (value : String)
  | matchPrefix (info : MatchPrefixConditionInfo)
deriving DecidableEq, Repr

def policyConditionTypeDstIpPrefixMatch : Int := 0

def policyConditionTypeProtocolMatch : Int := 1

def policyConditionTypeNeighborMatch : Int := 2

structure PolicyCondition where
  name : String
  conditionType : Int
  conditionInfo : ConditionInfo
  policyStmtList : Option (List String)
deriving DecidableEq, Repr

inductive ActionInfo where
  | text (value : String)
  | distance (value : Int)
  | redistribute (redistribute : Bool) (redistributeTargetProtocol : String)
  | aggregate (generateASSet sendSummaryOnly : Bool)
deriving DecidableEq, Repr

structure PolicyAction where
  name : String
  actionType : Int
  actionInfo : ActionInfo
deriving DecidableEq, Repr

structure PolicyStmt where
  name : String
  matchConditions : String
  conditions : Option (List String)
  actions : List String
  policyList : Option (List String)
  localDBSliceIdx : Int8
deriving DecidableEq

structure Policy where
  name : String
  precedence : Int
  matchType : String
  policyStmtPrecedenceMap : GoMap Int String
  localDBSliceIdx : Int8
  importPolicy : Bool
  exportPolicy : Bool

/-- One application of a policy, with the conditions it adds to those of each statement. -/
structure ApplyPolicyInfo where
  applyPolicy : Policy
  action : PolicyAction
  conditions : Option (List String)

structure ApplyPolicyMapInfo where
  count : Int
  infoList : List ApplyPolicyInfo

structure LocalDB where
  keyPrefix : String
  isValid : Bool
deriving DecidableEq, Repr

structure PrefixPolicyListInfo where
  ipPrefix : List UInt8
  policyName : String
  lowRange : Int
  highRange : Int
deriving DecidableEq, Repr

structure PolicyEngineDB where
  policyConditionsDB : GoMap String PolicyCondition
  policyStmtDB : GoMap String PolicyStmt
  localPolicyStmtDB : List LocalDB
  policyDB : GoMap String Policy
  localPolicyDB : Option (List LocalDB)
  policyStmtPolicyMapDB : GoMap String (List String)
  prefixPolicyListDB : GoMap (List UInt8) (List PrefixPolicyListInfo)
  protocolPolicyListDB : GoMap String (List String)
  importPolicyPrecedenceMap : GoMap Int String
  exportPolicyPrecedenceMap : GoMap Int String
  applyPolicyMap : GoMap String ApplyPolicyMapInfo
  validConditionsForPolicyTypeMap : GoMap String (List Int)

/-- The condition types that may stand in a policy of each type. -/
def policyValidConditionsForPolicyTypeMap : GoMap String (List Int) :=
  (((∅ : GoMap String (List Int)).insert "ALL" [policyConditionTypeDstIpPrefixMatch,
    policyConditionTypeProtocolMatch, policyConditionTypeNeighborMatch]).insert "BGP"
    [policyConditionTypeDstIpPrefixMatch, policyConditionTypeNeighborMatch]).insert "OSPF"
    [policyConditionTypeDstIpPrefixMatch]

/-- An engine without policies, statements and conditions. -/
def newPolicyEngineDB : PolicyEngineDB where
  policyConditionsDB := ∅
  policyStmtDB := ∅
  localPolicyStmtDB := []
  policyDB := ∅
  localPolicyDB := some []
  policyStmtPolicyMapDB := ∅
  prefixPolicyListDB := ∅
  protocolPolicyListDB := ∅
  importPolicyPrecedenceMap := ∅
  exportPolicyPrecedenceMap := ∅
  applyPolicyMap := ∅
  validConditionsForPolicyTypeMap := policyValidConditionsForPolicyTypeMap

end FlexSwitch.PolicyEngine
