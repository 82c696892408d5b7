import FlexSwitch.Go.Outcome

/-! Routes that are configured in bulk, beside the same routes configured one by one. -/

namespace FlexSwitch.Ribd.Config

open Go List Outcome

structure NextHopInfo where
  nextHopIp : String
  nextHopIntRef : String
  weight : Int

/-- A route as it is configured, alone or as an item of a bulk request. -/
structure IPv4Route where
  destinationNw : String
  networkMask : String
  protocol : String
  cost : Int
  nullRoute : Bool
  nextHop : List NextHopInfo

/-- What one route is created from; the address family is always IPv4 here. -/
structure RouteParams where
  destNetIp : String
  networkMask : String
  nextHopIp : String
  nextHopIfIndex : Int
  weight : Int
  metric : Int
  routeType : Int
  sliceIdx : Int
  createType : Int
  deleteType : Int
  bulk : Bool := false
  bulkEnd : Bool := false

/-- What the handlers use: the creation itself, the global tables and `strconv.Atoi`. -/
structure RouteServer (State : Type) where
  createRoute : RouteParams → State → State × Option String
  destNetSliceLen : State → Int
  routeProtocolTypeMapDB : String → Int
  atoi : String → Int

/-- A request being handled: the server, the creations asked for, the error of the last one. -/
structure Handling (State : Type) where
  server : State
  asked : List RouteParams
  err : Option String

def invalid : Int := -1

def fibAndRIB : Int := 1

variable {State : Type} (routes : RouteServer State)

/-- The first next hop is read without a look at the length of the list. -/
def buildRouteParamsFromribdIPv4Route (cfg : IPv4Route) (createType deleteType sliceIdx : Int) :
    Outcome Unit RouteParams :=
  match cfg.nextHop with
  | [] => .panic
  | hop :: _ => .ok {
      destNetIp := cfg.destinationNw
      networkMask := cfg.networkMask
      nextHopIp := if cfg.nullRoute then "255.255.255.255" else hop.nextHopIp
      nextHopIfIndex := routes.atoi hop.nextHopIntRef
      weight := hop.weight
      metric := cfg.cost
      routeType := routes.routeProtocolTypeMapDB cfg.protocol
      sliceIdx, createType, deleteType }

/-- Ask for a route to be created, and go on whatever comes of it. -/
def Handling.ask (handling : Handling State) (params : RouteParams) : Handling State :=
  let (server, err) := routes.createRoute params handling.server
  ⟨server, handling.asked ++ [params], err⟩

/-- The list of next hops is made anew, with the one at hand in it. -/
def resetNextHop (newCfg : IPv4Route) (hop : NextHopInfo) : IPv4Route :=
  { newCfg with nextHop := [hop] }

def processV4RouteCreateConfig (cfg : IPv4Route) (addType sliceIdx : Int)
    (handling : Handling State) : Outcome Unit (Bool × Handling State) := do
  let done ← cfg.nextHop.foldlM (fun handling hop => do
    let params ← buildRouteParamsFromribdIPv4Route routes (resetNextHop cfg hop) addType invalid
      sliceIdx
    return handling.ask routes params) handling
  return (true, done)

/-- One route of a bulk request: it is created once, behind the loop over its next hops. -/
def bulkRound (total : Nat) (loop : Nat × Handling State) (cfg : IPv4Route) :
    Outcome Unit (Nat × Handling State) := do
  let (index, handling) := loop
  let newCfg := cfg.nextHop.foldl resetNextHop { cfg with nextHop := [] }
  let params ← buildRouteParamsFromribdIPv4Route routes newCfg fibAndRIB invalid
    (routes.destNetSliceLen handling.server)
  let index := index + 1
  return (index, handling.ask routes { params with bulk := true, bulkEnd := index = total })

def processBulkRouteCreateConfig (bulkCfg : List IPv4Route) (handling : Handling State) :
    Outcome Unit (Bool × Handling State) := do
  let (_, done) ← bulkCfg.foldlM (bulkRound routes bulkCfg.length) (0, handling)
  return (true, done)

/-- The routes of a bulk request, each configured on its own. -/
def configureEach (bulkCfg : List IPv4Route) (handling : Handling State) :
    Outcome Unit (Handling State) :=
  bulkCfg.foldlM (fun handling cfg => do
    let (_, done) ← processV4RouteCreateConfig routes cfg fibAndRIB
      (routes.destNetSliceLen handling.server) handling
    return done) handling

/-- Destination, mask and protocol of a route, then address, interface and weight of its next
hop. -/
abbrev Combination := String × String × Int × String × Int × Int

/-- The combinations that were asked for. -/
def Handling.combinations (handling : Handling State) : List Combination :=
  handling.asked.map fun params => (params.destNetIp, params.networkMask, params.routeType,
    params.nextHopIp, params.nextHopIfIndex, params.weight)

/-- The combinations that a route lists, one for each of its next hops. -/
def listed (cfg : IPv4Route) : List Combination :=
  cfg.nextHop.map fun hop =>
    (cfg.destinationNw, cfg.networkMask, routes.routeProtocolTypeMapDB cfg.protocol,
      if cfg.nullRoute then "255.255.255.255" else hop.nextHopIp, routes.atoi hop.nextHopIntRef,
      hop.weight)

/-- A route on its own is asked for once with each of its next hops. -/
theorem processV4RouteCreateConfig_asks (cfg : IPv4Route) (addType sliceIdx : Int)
    (handling : Handling State) :
    ∃ done, processV4RouteCreateConfig routes cfg addType sliceIdx handling = .ok (true, done) ∧
      done.combinations = handling.combinations ++ listed routes cfg := by
  rw [processV4RouteCreateConfig, listed]
  induction cfg.nextHop generalizing handling with
  | nil => exact ⟨handling, rfl, by simp⟩
  | cons hop hops ih =>
    rw [foldlM_cons]
    obtain ⟨done, run, made⟩ := ih _
    refine ⟨done, run, ?_⟩
    rw [made, map_cons, append_cons]
    exact congrArg (· ++ _) map_append

theorem configureEach_asks (bulkCfg : List IPv4Route) (handling : Handling State) :
    ∃ done, configureEach routes bulkCfg handling = .ok done ∧
      done.combinations = handling.combinations ++ bulkCfg.flatMap (listed routes) := by
  induction bulkCfg generalizing handling with
  | nil => exact ⟨handling, rfl, by simp⟩
  | cons cfg rest ih =>
    obtain ⟨first, one, asked⟩ := processV4RouteCreateConfig_asks routes cfg fibAndRIB
      (routes.destNetSliceLen handling.server) handling
    obtain ⟨done, run, made⟩ := ih first
    refine ⟨done, ?_, ?_⟩
    · rw [configureEach, foldlM_cons, one]
      exact run
    · rw [made, asked, flatMap_cons, append_assoc]

/-- Only the next hop that comes last is left in the configuration. -/
theorem foldl_resetNextHop (hops : List NextHopInfo) (newCfg : IPv4Route) :
    hops.foldl resetNextHop newCfg =
      { newCfg with nextHop := hops.getLast?.elim newCfg.nextHop ([·]) } := by
  induction hops generalizing newCfg with
  | nil => rfl
  | cons hop hops ih =>
    rw [foldl_cons, ih, getLast?_cons]
    cases hops.getLast? <;> rfl

/-- A route is asked for with its last next hop, and one without a next hop is not survived. -/
theorem bulkRound_asks (total : Nat) (loop : Nat × Handling State) (cfg : IPv4Route) :
    (cfg.nextHop = [] ∧ bulkRound routes total loop cfg = .panic) ∨
      cfg.nextHop ≠ [] ∧ ∃ next, bulkRound routes total loop cfg = .ok next ∧
        next.2.combinations = loop.2.combinations ++ (listed routes cfg).getLast?.toList := by
  simp only [bulkRound, foldl_resetNextHop, listed, getLast?_map]
  cases last : cfg.nextHop.getLast? with
  | none => exact .inl ⟨getLast?_eq_none_iff.mp last, rfl⟩
  | some hop =>
    have there : cfg.nextHop ≠ [] := by
      intro none
      simp [none] at last
    exact .inr ⟨there, _, rfl, map_append⟩

theorem bulkLoop_asks (total : Nat) (bulkCfg : List IPv4Route) (loop : Nat × Handling State) :
    ((∃ cfg ∈ bulkCfg, cfg.nextHop = []) ∧ bulkCfg.foldlM (bulkRound routes total) loop = .panic) ∨
      (∀ cfg ∈ bulkCfg, cfg.nextHop ≠ []) ∧
        ∃ done, bulkCfg.foldlM (bulkRound routes total) loop = .ok done ∧
          done.2.combinations = loop.2.combinations ++
            bulkCfg.flatMap fun cfg => (listed routes cfg).getLast?.toList := by
  induction bulkCfg generalizing loop with
  | nil => exact .inr ⟨by simp, loop, rfl, by simp⟩
  | cons cfg rest ih =>
    rw [foldlM_cons]
    rcases bulkRound_asks routes total loop cfg with ⟨none, gone⟩ | ⟨here, next, one, asked⟩
    · exact .inl ⟨⟨cfg, mem_cons_self, none⟩, by rw [gone, panic_bind]⟩
    · rw [one, ok_bind]
      rcases ih next with ⟨⟨bad, mem, none⟩, gone⟩ | ⟨later, done, run, made⟩
      · exact .inl ⟨⟨bad, mem_cons_of_mem _ mem, none⟩, gone⟩
      · refine .inr ⟨forall_mem_cons.mpr ⟨here, later⟩, done, run, ?_⟩
        rw [made, asked, flatMap_cons, append_assoc]

theorem length_last {α : Type} (items : List α) :
    items.getLast?.toList.length = min 1 items.length := by
  cases items <;> simp [getLast?_cons]

/-- The bulk request is handled, and asks for what it lists, as configuring each route does. -/
def BulkCreatesListed (bulkCfg : List IPv4Route) (server : State) : Prop :=
  ∃ bulk each, processBulkRouteCreateConfig routes bulkCfg ⟨server, [], none⟩ = .ok (true, bulk) ∧
    configureEach routes bulkCfg ⟨server, [], none⟩ = .ok each ∧
    bulk.combinations ~ bulkCfg.flatMap (listed routes) ∧ bulk.combinations ~ each.combinations

/-- A bulk request creates what it lists exactly if every route has a single next hop. -/
theorem bulk_creates_listed_iff (bulkCfg : List IPv4Route) (server : State) :
    BulkCreatesListed routes bulkCfg server ↔ ∀ cfg ∈ bulkCfg, cfg.nextHop.length = 1 := by
  obtain ⟨each, configured, apart⟩ := configureEach_asks routes bulkCfg ⟨server, [], none⟩
  rcases bulkLoop_asks routes bulkCfg.length bulkCfg (0, ⟨server, [], none⟩) with
    ⟨⟨cfg, mem, none⟩, gone⟩ | ⟨hops, done, run, asked⟩
  · constructor
    · rintro ⟨bulk, _, handled, _⟩
      simp [processBulkRouteCreateConfig, gone] at handled
    · intro one
      exact absurd (one cfg mem) (by simp [none])
  have handled : processBulkRouteCreateConfig routes bulkCfg ⟨server, [], none⟩ =
      .ok (true, done.2) := by
    rw [processBulkRouteCreateConfig, run]
    rfl
  constructor
  · rintro ⟨bulk, _, again, _, same, _⟩
    obtain rfl : done.2 = bulk := congrArg Prod.snd (Outcome.ok.inj (handled.symm.trans again))
    rw [asked] at same
    -- One creation a route makes one a next hop only if no route has two.
    by_contra more
    obtain ⟨cfg, mem, two⟩ : ∃ cfg ∈ bulkCfg, cfg.nextHop.length ≠ 1 := by simpa using more
    have fewer := sum_lt_sum (fun cfg => min 1 (listed routes cfg).length) _
      (fun _ _ => min_le_right _ _) ⟨cfg, mem, show min 1 _ < _ from ?_⟩
    · have sizes := same.length_eq
      simp only [nil_append, Handling.combinations, map_nil, length_flatMap, length_last] at sizes
      omega
    · have some := length_pos_iff.mpr (hops cfg mem)
      rw [listed, length_map]
      omega
  · intro one
    have whole : (bulkCfg.flatMap fun cfg => (listed routes cfg).getLast?.toList) =
        bulkCfg.flatMap (listed routes) := by
      refine flatMap_congr fun cfg mem => ?_
      obtain ⟨hop, only⟩ := length_eq_one_iff.mp (one cfg mem)
      simp [listed, only]
    rw [whole] at asked
    exact ⟨done.2, each, handled, configured, .of_eq asked, .of_eq (asked.trans apart.symm)⟩

/-- A server that creates whatever it is asked for. -/
def obliging : RouteServer Unit := ⟨fun _ _ => ((), none), fun _ => 0, fun _ => 1, fun _ => 0⟩

/-- Of the two next hops of a route, the first one is not asked for. -/
theorem bulk_loses_next_hop :
    ¬ BulkCreatesListed obliging [⟨"10.1.0.0", "255.255.0.0", "STATIC", 0, false,
      [⟨"10.0.0.1", "1", 0⟩, ⟨"10.0.0.2", "2", 0⟩]⟩] () := by
  rintro ⟨bulk, _, handled, _, same, _⟩
  cases handled
  exact absurd same.length_eq (by decide)

end FlexSwitch.Ribd.Config
