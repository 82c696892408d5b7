import FlexSwitch.Go.Follow
import FlexSwitch.Ribd.Records

/-! The resolution of a next hop, which looks up the next hops of the routes it finds. -/

namespace FlexSwitch.Ribd

open Go NetUtils Patricia Relation Outcome
open Rib (IPText ipString to4 v4InV6Prefix)

/-- The tables of the two kinds of route. -/
structure RouteTables where
  v4RouteInfoMap : RouteInfoMap
  v6RouteInfoMap : RouteInfoMap

/-- The lookup that both kinds of route share, of the first next hop of the selected protocol. -/
def reachabilityInfo (table : RouteInfoMap) (ipType : IPType) (destNetIp : Bytes) (ifIndex : Int) :
    Try NextHopInfo := do
  match ← table.mem.getLongestPrefixNode table.root destNetIp with
  | none => .error "dest ip address not reachable"
  | some rmapInfoList =>
    match rmapInfoList.selectedRouteProtocol with
    | none => .error "dest ip address not reachable"
    | some protocol =>
      let routeInfoList := rmapInfoList.routes protocol
      if routeInfoList.length = 0 then .error "dest ip address not reachable"
      else
        match findRouteWithNextHop routeInfoList ipType none ifIndex with
        | none => .error s!"dest ip address not reachable via ifIndex {ifIndex}\n"
        | some (v, _) => return {
            nextHopIp := ipString v.nextHopIp
            nextHopIfIndex := v.nextHopIfIndex
            metric := v.metric
            ipaddr := ipString v.destNetIp
            mask := ipString v.networkMask
            isReachable := true }

section

variable (tables : RouteTables)

/-- `GetV4RouteReachabilityInfo`. -/
def getV4RouteReachabilityInfo (destNet : IPText) (ifIndex : Int) : Try NextHopInfo := do
  let destNetIp ← (getIP destNet).withError "Invalid dest ip address"
  let lookupIp := to4 destNetIp
  if lookupIp = [] then .error "Incorrect ip type lookup"
  else reachabilityInfo tables.v4RouteInfoMap .IPv4 lookupIp ifIndex

/-- `GetV6RouteReachabilityInfo`. A parsed address has sixteen bytes already. -/
def getV6RouteReachabilityInfo (destNet : IPText) (ifIndex : Int) : Try NextHopInfo := do
  let destNetIp ← (getIP destNet).withError "Invalid dest ip address"
  reachabilityInfo tables.v6RouteInfoMap .IPv6 destNetIp ifIndex

/-- `GetRouteReachabilityInfo`, which turns to the other table on any error. -/
def getRouteReachabilityInfo (destNet : IPText) (ifIndex : Int) : Try NextHopInfo :=
  match getV4RouteReachabilityInfo tables destNet ifIndex with
  | .error _ => getV6RouteReachabilityInfo tables destNet ifIndex
  | other => other

/-- What `ResolveNextHop` returns, an error among it. -/
structure Resolution where
  nextHopIntf : NextHopInfo
  resolvedNextHopIntf : NextHopInfo
  err : Option String
deriving DecidableEq, Repr

/-- Where the loop of `ResolveNextHop` stands. -/
structure Resolving where
  ip : IPText
  first : Bool
  nextHopIntf : NextHopInfo
  prevIntf : NextHopInfo
deriving DecidableEq, Repr

/-- One round, which has no memory of the addresses it looked up before. -/
def resolveRound (state : Resolving) : Outcome Empty (Round Resolving Resolution) :=
  match getRouteReachabilityInfo tables state.ip (-1) with
  | .error err => .ok (.stop ⟨state.nextHopIntf, state.nextHopIntf, some err⟩)
  | .panic => .panic
  | .hang => .hang
  | .ok intf =>
    let nextHopIntf := if state.first then intf else state.nextHopIntf
    match isZerosIPString intf.nextHopIp with
    | .error err => .ok (.stop ⟨nextHopIntf, nextHopIntf, some err⟩)
    | .panic => .panic
    | .hang => .hang
    | .ok true =>
      .ok (.stop ⟨nextHopIntf, { state.prevIntf with isReachable := intf.isReachable }, none⟩)
    | .ok false => .ok (.next ⟨intf.nextHopIp, false, nextHopIntf, intf⟩)

/-- The texts `0.0.0.0` and `::`. -/
def isUnspecified (ipAddr : IPText) : Bool := ipAddr == zeros 4 || ipAddr == zeros 16

/-- A next hop of which only the address is known. -/
def NextHopInfo.ofAddress (ipAddr : IPText) : NextHopInfo := ⟨ipAddr, 0, 0, [], [], false⟩

/-- `ResolveNextHop`. -/
def resolveNextHop (fuel : Nat) (ipAddr : IPText) : Outcome Empty Resolution :=
  if isUnspecified ipAddr then
    let nextHopIntf := { NextHopInfo.ofAddress ipAddr with isReachable := true }
    .ok ⟨nextHopIntf, nextHopIntf, none⟩
  else
    loop (resolveRound tables) fuel ⟨ipAddr, true, .ofAddress ipAddr, .ofAddress ipAddr⟩

/-- The route found for an address has a next hop that must be looked up in turn. -/
def HasNextHop (ip nextHop : IPText) : Prop :=
  ∃ intf, getRouteReachabilityInfo tables ip (-1) = .ok intf ∧ intf.nextHopIp = nextHop ∧
    isZerosIPString nextHop = .ok false

end

section Lookup

variable {tables : RouteTables} {table : RouteInfoMap} {ipType : IPType} {ifIndex : Int}

/-- The lookup comes back, and what it yields is the next hop of a route of the table. -/
theorem reachabilityInfo_spec (table : RouteInfoMap) (ipType : IPType) (destNetIp : Bytes)
    (ifIndex : Int) :
    (reachabilityInfo table ipType destNetIp ifIndex).Returns ∧
      (reachabilityInfo table ipType destNetIp ifIndex).Yields fun intf =>
        ∃ route ∈ table.records, intf.nextHopIp = ipString route.nextHopIp := by
  obtain ⟨result, looked, -⟩ :=
    @Memory.getLongestPrefixNode_found String _ _ _ destNetIp table.built.wellFormed
  rw [reachabilityInfo, looked, ok_bind]
  rcases result with _ | list
  · exact ⟨trivial, nofun⟩
  dsimp only
  rcases selected : list.selectedRouteProtocol with _ | protocol
  · exact ⟨trivial, nofun⟩
  dsimp only
  by_cases empty : (list.routes protocol).length = 0
  · rw [if_pos empty]
    exact ⟨trivial, nofun⟩
  · rw [if_neg empty]
    cases found : findRouteWithNextHop _ ipType none ifIndex with
    | none => exact ⟨trivial, nofun⟩
    | some route =>
      have member := RouteInfoMap.mem_records looked (findRouteWithNextHop_mem found)
      exact ⟨trivial, .ok ⟨route.1, member, rfl⟩⟩

/-- The addresses that the routes of both tables have for their next hops. -/
def RouteTables.nextHops (tables : RouteTables) : List IPText :=
  (tables.v4RouteInfoMap.records ++ tables.v6RouteInfoMap.records).map fun route =>
    ipString route.nextHopIp

theorem RouteTables.mem_nextHops {route : RouteInfoRecord}
    (member : route ∈ tables.v4RouteInfoMap.records ∨ route ∈ tables.v6RouteInfoMap.records) :
    ipString route.nextHopIp ∈ tables.nextHops :=
  List.mem_map_of_mem (List.mem_append.mpr member)

/-- The lookup in both tables comes back, with one of the next hops they have. -/
theorem getRouteReachabilityInfo_spec (tables : RouteTables) (destNet : IPText) (ifIndex : Int) :
    (getRouteReachabilityInfo tables destNet ifIndex).Returns ∧
      (getRouteReachabilityInfo tables destNet ifIndex).Yields fun intf =>
        intf.nextHopIp ∈ tables.nextHops := by
  -- What either table yields is a next hop of one of its routes.
  have looks (table : RouteInfoMap) (ipType : IPType) (ip : Bytes)
      (part : ∀ route ∈ table.records,
        route ∈ tables.v4RouteInfoMap.records ∨ route ∈ tables.v6RouteInfoMap.records) :
      (reachabilityInfo table ipType ip ifIndex).Returns ∧
        (reachabilityInfo table ipType ip ifIndex).Yields fun intf =>
          intf.nextHopIp ∈ tables.nextHops := by
    obtain ⟨back, stored⟩ := reachabilityInfo_spec table ipType ip ifIndex
    refine ⟨back, fun intf found => ?_⟩
    obtain ⟨route, member, same⟩ := stored intf found
    exact same ▸ RouteTables.mem_nextHops (part route member)
  rw [getRouteReachabilityInfo, getV4RouteReachabilityInfo, getV6RouteReachabilityInfo]
  rcases getIP_cases destNet with ⟨err, invalid⟩ | ⟨ip, sized, valid⟩
  · rw [invalid]
    exact ⟨trivial, nofun⟩
  · have v6 := looks tables.v6RouteInfoMap .IPv6 ip fun _ => .inr
    rw [valid, ok_withError, ok_bind, ok_bind]
    by_cases other : to4 ip = []
    · simp only [if_pos other]
      exact v6
    · have v4 := looks tables.v4RouteInfoMap .IPv4 (to4 ip) fun _ => .inl
      simp only [if_neg other]
      cases looked : reachabilityInfo tables.v4RouteInfoMap .IPv4 (to4 ip) ifIndex with
      | error err => exact v6
      | ok intf | panic | hang => rwa [looked] at v4

end Lookup

/-- The loop goes on exactly where the route found has a next hop to be looked up. -/
theorem resolveRound_follows (tables : RouteTables) :
    Follows (resolveRound tables) Resolving.ip (HasNextHop tables) := by
  have round (state : Resolving) : ∃ result, resolveRound tables state = .ok result ∧
      (∀ later, result = .next later → HasNextHop tables state.ip later.ip) ∧
      ∀ target, HasNextHop tables state.ip target →
        ∃ later, result = .next later ∧ later.ip = target := by
    have looks := (getRouteReachabilityInfo_spec tables state.ip (-1)).1
    simp only [resolveRound, HasNextHop]
    cases looked : getRouteReachabilityInfo tables state.ip (-1) with
    | panic | hang => simp [looked] at looks
    | error err => simp
    | ok intf =>
      have zeros := isZerosIPString_returns intf.nextHopIp
      cases checked : isZerosIPString intf.nextHopIp with
      | panic | hang => simp [checked] at zeros
      | error err => simp [checked]
      | ok zero => cases zero <;> simp [checked]
  refine ⟨fun state => ?_, fun state later advanced => ?_, fun state target next => ?_⟩
  · obtain ⟨result, done, -⟩ := round state
    exact ⟨result, done⟩
  · obtain ⟨result, done, onward, -⟩ := round state
    rw [advanced] at done
    cases done
    exact onward later rfl
  · obtain ⟨result, done, -, onward⟩ := round state
    obtain ⟨later, rfl, there⟩ := onward target next
    exact ⟨later, done, there⟩

/--
The resolution of an address comes to an end exactly when no next hop leads back to itself.

That is, of the addresses that are looked up one after the other none comes twice. The addresses
`0.0.0.0` and `::` are not looked up.
-/
theorem resolveNextHop_returns_iff (tables : RouteTables) (ipAddr : IPText) :
    (∃ fuel result, resolveNextHop tables fuel ipAddr = .ok result) ↔
      isUnspecified ipAddr = true ∨ ∀ ip, ReflTransGen (HasNextHop tables) ipAddr ip →
        ¬TransGen (HasNextHop tables) ip ip := by
  by_cases unspecified : isUnspecified ipAddr = true
  · simp [resolveNextHop, unspecified]
  · -- The next hops of the tables are finitely many.
    have within : ∀ ip target, HasNextHop tables ip target → target ∈ tables.nextHops.toFinset := by
      rintro ip target ⟨intf, found, rfl, -⟩
      exact List.mem_toFinset.mpr ((getRouteReachabilityInfo_spec tables ip (-1)).2 intf found)
    simp only [resolveNextHop, unspecified, Bool.false_eq_true, if_false, false_or]
    exact (resolveRound_follows tables).returns_iff _ within _

/-- The route to 10.0.0.0/8 by way of 10.0.0.1, which lies in the network itself. -/
def inwardRoute : RouteInfoRecord where
  ipType := .IPv4
  destNetIp := v4InV6Prefix ++ [10, 0, 0, 0]
  networkMask := v4InV6Prefix ++ [255, 0, 0, 0]
  nextHopIp := v4InV6Prefix ++ [10, 0, 0, 1]
  nextHopIpType := .IPv4
  resolvedNextHopIpIntf := .ofAddress [10, 0, 0, 1]
  networkAddr := ⟨some [10, 0, 0, 0], 8⟩
  nextHopIfIndex := 0
  metric := 0
  weight := 0
  sliceIdx := 0
  protocol := .ebgp

/-- The routes of 10.0.0.0/8 when it has the one route. -/
def inwardRoutes : RouteInfoRecordList := ⟨some .ebgp, (∅ : GoMap _ _).insert .ebgp [inwardRoute]⟩

/-- Memory in which no table was made yet. -/
def noRoutes : Memory RouteInfoRecordList := ⟨⟨fun _ => ⟨none, none, 0⟩, 0⟩, ⟨fun _ => [], 0⟩⟩

/-- A table without a route. -/
def RouteInfoMap.empty : RouteInfoMap :=
  ⟨noRoutes.newTrie.2, noRoutes.newTrie.1, noRoutes, [], [], rfl, rfl⟩

/-- The table after the one route was created. -/
def inwardTable : RouteInfoMap :=
  ⟨((Memory.performAll 0 [.insert [10] inwardRoutes] noRoutes.newTrie.2 : Outcome Empty _).getD
    ([], noRoutes)).2, 0, noRoutes, [.insert [10] inwardRoutes], [some true], rfl, rfl⟩

/-- A route by way of its own network is looked up without end. -/
theorem resolveNextHop_inward :
    ¬∃ fuel result, resolveNextHop ⟨inwardTable, .empty⟩ fuel [10, 0, 0, 1] = .ok result := by
  rintro ⟨fuel, result, returned⟩
  have found : getRouteReachabilityInfo ⟨inwardTable, .empty⟩ [10, 0, 0, 1] (-1) =
    .ok ⟨[10, 0, 0, 1], 0, 0, [10, 0, 0, 0], [255, 0, 0, 0], true⟩ := rfl
  have back : HasNextHop ⟨inwardTable, .empty⟩ [10, 0, 0, 1] [10, 0, 0, 1] := ⟨_, found, rfl, rfl⟩
  have looks : isUnspecified [10, 0, 0, 1] = false := rfl
  simp only [resolveNextHop, looks, Bool.false_eq_true, if_false] at returned
  rw [(resolveRound_follows _).hang .refl (.single back)] at returned
  cases returned

end FlexSwitch.Ribd
