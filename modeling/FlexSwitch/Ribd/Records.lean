import FlexSwitch.NetUtils
import FlexSwitch.Patricia.LongestPrefix

/-! The routes of ribd, and the tables they are kept in. -/

namespace FlexSwitch.Ribd

open Go NetUtils Patricia
open Rib (IPText ipString)

/-- `ribdCommonDefs.IPType`. -/
inductive IPType where
  | IPv4
  | IPv6
deriving DecidableEq, Repr

/-- The route types that have a name. -/
inductive Protocol where
  | connected
  | static
  | ospf
  | ebgp
  | ibgp
  | bgp
deriving DecidableEq, Repr

instance : Fintype Protocol :=
  .ofList [.connected, .static, .ospf, .ebgp, .ibgp, .bgp] fun protocol => by
    cases protocol <;> decide

/-- `ribdInt.NextHopInfo`. -/
structure NextHopInfo where
  nextHopIp : IPText
  nextHopIfIndex : Int
  metric : Int
  ipaddr : IPText
  mask : IPText
  isReachable : Bool
deriving DecidableEq, Repr

structure RouteInfoRecord where
  ipType : IPType
  destNetIp : Bytes
  networkMask : Bytes
  nextHopIp : Bytes
  nextHopIpType : IPType
  resolvedNextHopIpIntf : NextHopInfo
  networkAddr : NetworkText
  nextHopIfIndex : Int
  metric : Int
  weight : Int
  sliceIdx : Int
  protocol : Protocol
deriving DecidableEq, Repr

/-- The routes of a network. No protocol is selected when the name of it is `INVALID`. -/
structure RouteInfoRecordList where
  selectedRouteProtocol : Option Protocol
  routeInfoProtocolMap : GoMap Protocol (List RouteInfoRecord)

/-- The routes that a protocol has, if any. -/
def RouteInfoRecordList.routes (list : RouteInfoRecordList) (protocol : Protocol) :
    List RouteInfoRecord :=
  (list.routeInfoProtocolMap.lookup protocol).getD []

/-- The first route of a type with the next hop, where no text stands for any address. -/
def findRouteWithNextHop (routeInfoList : List RouteInfoRecord) (nextHopIpType : IPType)
    (nextHopIP : Option IPText) (nextHopIfIndex : Int) : Option (RouteInfoRecord × Nat) :=
  routeInfoList.zipIdx.find? fun route =>
    route.1.nextHopIpType == nextHopIpType && nextHopIP.all (ipString route.1.nextHopIp == ·) &&
      (nextHopIfIndex == -1 || route.1.nextHopIfIndex == nextHopIfIndex)

theorem findRouteWithNextHop_mem {routeInfoList : List RouteInfoRecord} {nextHopIpType : IPType}
    {nextHopIP : Option IPText} {nextHopIfIndex : Int} {found : RouteInfoRecord × Nat}
    (here : findRouteWithNextHop routeInfoList nextHopIpType nextHopIP nextHopIfIndex = some found) :
    found.1 ∈ routeInfoList :=
  List.fst_mem_of_mem_zipIdx (List.mem_of_find?_eq_some here)

/-- A table of routes, as calls to its trie make it. -/
structure RouteInfoMap where
  mem : Memory RouteInfoRecordList
  root : TrieRef
  built : Built Empty mem root

namespace RouteInfoMap

/-- All the routes that a node of the trie has. -/
def nodeRecords (table : RouteInfoMap) (ref : TrieRef) : List RouteInfoRecord :=
  match (table.mem.trie ref).item with
  | none => []
  | some list => list.routeInfoProtocolMap.entries.flatMap (·.2)

/-- All the routes of the table. -/
def records (table : RouteInfoMap) : List RouteInfoRecord :=
  (List.range table.mem.nodes.next).flatMap table.nodeRecords

variable {ε : Type} {table : RouteInfoMap} {list : RouteInfoRecordList} {protocol : Protocol}
  {route : RouteInfoRecord}

/-- The routes of a network that a lookup finds are routes of the table. -/
theorem mem_records {query : Bytes}
    (found : (table.mem.getLongestPrefixNode table.root query : Outcome ε _) = .ok (some list))
    (member : route ∈ list.routes protocol) : route ∈ table.records := by
  obtain ⟨result, looked, stored⟩ :=
    @Memory.getLongestPrefixNode_found ε _ _ _ query table.built.wellFormed
  cases looked.symm.trans found
  obtain ⟨ref, inside, item⟩ := stored list rfl
  refine List.mem_flatMap.mpr ⟨ref, List.mem_range.mpr inside, ?_⟩
  simp only [nodeRecords, item, List.mem_flatMap]
  cases kept : list.routeInfoProtocolMap.lookup protocol with
  | none => simp [RouteInfoRecordList.routes, kept] at member
  | some routes =>
    simp only [RouteInfoRecordList.routes, kept, Option.getD_some] at member
    exact ⟨⟨protocol, routes⟩, AList.mem_lookup_iff.mp kept, member⟩

end RouteInfoMap

end FlexSwitch.Ribd
