import FlexSwitch.Patricia.KeepingWalk
import FlexSwitch.Ribd.Records

/-! The routes that depend on a network, when it comes up or goes down. -/

namespace FlexSwitch.Ribd

open Go NetUtils Patricia
open Rib (IPText ipString v4InV6Prefix)

variable {ε : Type}

/-- What is notified about a network. -/
inductive Status where
  | up
  | down
deriving DecidableEq, Repr

/-- The flag that the routes by way of the network get. -/
def Status.isReachable : Status → Bool
  | .up => true
  | .down => false

/-- The text of a destination: a network, or an address that a protocol tracks. -/
inductive DestText where
  | network (text : NetworkText)
  | address (text : IPText)
deriving DecidableEq, Repr

structure RouteReachabilityStatusInfo where
  destNet : DestText
  ipType : IPType
  status : Status
  protocol : Protocol
  nextHopIntf : NextHopInfo
deriving DecidableEq, Repr

/-- `net.ParseCIDR`: the address, and the mask of the network. -/
def parseCIDR : DestText → Option (Bytes × Bytes)
  | .address _ => none
  | .network text =>
    match text.address with
    | none => none
    | some address =>
      if address.length = 4 ∧ text.prefixLen ≤ 32 then
        some (v4InV6Prefix ++ address, contiguousMask 4 text.prefixLen)
      else if address.length = 16 ∧ text.prefixLen ≤ 128 then
        some (address, contiguousMask 16 text.prefixLen)
      else none

def getNetowrkPrefixFromStrings (ipAddr mask : IPText) : Try Bytes := do
  let destNetIpAddr ← getIP ipAddr
  let networkMaskAddr ← getIP mask
  getNetworkPrefix destNetIpAddr networkMaskAddr

/-- The key of the network that is notified, and the text of its mask, which has so many bytes. -/
def notifiedPrefix (maskBytes : Nat) (destNet : DestText) : Try (Bytes × IPText) :=
  match parseCIDR destNet with
  | none => .error "invalid CIDR address"
  | some (ip, mask) => do
    let ipMaskStr := ipString (mask.take maskBytes ++ zeros (maskBytes - mask.length))
    return (← getNetowrkPrefixFromStrings (ipString ip) ipMaskStr, ipMaskStr)

/-- A message to a protocol that a network can be reached or not. -/
structure Notification where
  targetProtocol : String
  network : DestText
  isReachable : Bool
  nextHopIntf : NextHopInfo
deriving DecidableEq, Repr

/-- What the propagation reads but does not change. -/
structure Surroundings where
  order : MapOrder
  publisherInfoMap : List String
  trackReachabilityMap : GoMap IPText (List String)
  refCount : GoMap Bytes Int

def Protocol.name : Protocol → String
  | .connected => "CONNECTED"
  | .static => "STATIC"
  | .ospf => "OSPF"
  | .ebgp => "EBGP"
  | .ibgp => "IBGP"
  | .bgp => "BGP"

variable (env : Surroundings) (root : TrieRef) (fuel : Nat) (info : RouteReachabilityStatusInfo)

/-- `RouteReachabilityStatusNotificationSend`. -/
def routeReachabilityStatusNotificationSend (targetProtocol : String)
    (info : RouteReachabilityStatusInfo) : List Notification :=
  if targetProtocol ∈ env.publisherInfoMap then
    [⟨targetProtocol, info.destNet, info.status.isReachable, info.nextHopIntf⟩]
  else []

/-- The protocols that track an address of the network are told, until one cannot be masked. -/
def notifyTrackers (env : Surroundings) (info : RouteReachabilityStatusInfo)
    (destIpPrefix : Bytes) (ipMaskStr : IPText) :
    List (IPText × List String) → List Notification → Outcome ε (List Notification)
  | [], sent => .ok sent
  | (k, list) :: rest, sent =>
    (getNetowrkPrefixFromStrings k ipMaskStr).handle (fun _ => .ok sent) fun tracked =>
      let told := if destIpPrefix = tracked then
        list.flatMap fun targetProtocol =>
          routeReachabilityStatusNotificationSend env targetProtocol
            { info with destNet := .address k }
        else []
      notifyTrackers env info destIpPrefix ipMaskStr rest (sent ++ told)

/-- `RouteReachabilityStatusUpdate`, with the messages it sends. -/
def routeReachabilityStatusUpdate (targetProtocol : String) (info : RouteReachabilityStatusInfo) :
    Outcome ε (List Notification) :=
  let sent := if targetProtocol ≠ "NONE" then
    routeReachabilityStatusNotificationSend env targetProtocol info else []
  (notifiedPrefix 4 info.destNet).handle (fun _ => .ok sent) fun notified =>
    notifyTrackers env info notified.1 notified.2
      (env.order.range "TrackReachabilityMap" env.trackReachabilityMap) sent

/-- A route of the table: the key of its network, its protocol, and its place among the routes. -/
structure Cell where
  key : Bytes
  protocol : Protocol
  index : Nat
deriving DecidableEq, Repr

/-- The routes whose flag was written, and what was sent on the way. -/
structure Propagation where
  changes : List Cell
  dbRouteCh : List (RouteInfoRecord × RouteInfoRecordList)
  notificationChannel : List Notification

def RouteInfoRecord.setReachable (route : RouteInfoRecord) (flag : Bool) : RouteInfoRecord :=
  { route with
    resolvedNextHopIpIntf := { route.resolvedNextHopIpIntf with isReachable := flag } }

/-- The routes with another value at a place. -/
def RouteInfoRecordList.setRoute (list : RouteInfoRecordList) (protocol : Protocol) (index : Nat)
    (route : RouteInfoRecord) : RouteInfoRecordList :=
  { list with
    routeInfoProtocolMap :=
      list.routeInfoProtocolMap.insert protocol ((list.routes protocol).set index route) }

/-- A flag of a route is written, and all who depend on it are told. -/
def changeRoute
    (again : RouteReachabilityStatusInfo → Memory RouteInfoRecordList → Propagation → Outcome ε (Memory RouteInfoRecordList × Propagation))
    (status : Status) (list : RouteInfoRecordList) (cell : Cell) (route : RouteInfoRecord)
    (mem : Memory RouteInfoRecordList) (own : Propagation) :
    Outcome ε (Memory RouteInfoRecordList × Propagation) := do
  let route := route.setReachable status.isReachable
  let list := list.setRoute cell.protocol cell.index route
  let mem ← mem.set root (some cell.key) list
  let info : RouteReachabilityStatusInfo := {
    destNet := .network route.networkAddr
    ipType := route.ipType
    status := status
    protocol := cell.protocol
    nextHopIntf := ⟨ipString route.nextHopIp, route.nextHopIfIndex, 0, [], [], false⟩ }
  let sent ← routeReachabilityStatusUpdate env cell.protocol.name info
  let own : Propagation := {
    changes := own.changes ++ [cell]
    dbRouteCh := own.dbRouteCh ++ [(route, list)]
    notificationChannel := own.notificationChannel ++ sent }
  if 0 < (env.refCount.lookup cell.key).getD 0 then again info mem own else return (mem, own)

/--
What the visitor does with one of the routes of a network.

The slices of routes are shared with the table, so that what a walk further down has written to
them meanwhile is read here.
-/
def updateRoute
    (again : RouteReachabilityStatusInfo → Memory RouteInfoRecordList → Propagation → Outcome ε (Memory RouteInfoRecordList × Propagation))
    (info : RouteReachabilityStatusInfo) (destIpPrefix : Bytes) (ipMaskStr : IPText)
    (handle : RouteInfoRecordList) (cell : Cell) (mem : Memory RouteInfoRecordList)
    (own : Propagation) :
    Outcome ε (Option VisitError × Memory RouteInfoRecordList × Propagation) := do
  let list := (← mem.get root cell.key).getD handle
  match (list.routes cell.protocol)[cell.index]? with
  | none => .panic
  | some route =>
    if route.nextHopIpType ≠ info.ipType then return (none, mem, own)
    else
      (getNetowrkPrefixFromStrings (ipString route.nextHopIp) ipMaskStr).handle
        (fun _ => .ok (some .other, mem, own)) fun vPrefix =>
        if vPrefix = destIpPrefix ∧
            route.resolvedNextHopIpIntf.isReachable ≠ info.status.isReachable then do
          let (mem, own) ← changeRoute env root again info.status list cell route mem own
          return (none, mem, own)
        else .ok (none, mem, own)

/-- The loops over the protocols of a network and their routes, which an error ends. -/
def updateRoutes (visit : Cell → Memory RouteInfoRecordList → Propagation →
      Outcome ε (Option VisitError × Memory RouteInfoRecordList × Propagation)) :
    List Cell → Memory RouteInfoRecordList → Propagation →
      Outcome ε (Option VisitError × Memory RouteInfoRecordList × Propagation)
  | [], mem, own => .ok (none, mem, own)
  | cell :: rest, mem, own => do
    let (err, mem, own) ← visit cell mem own
    if err.isSome then return (err, mem, own) else updateRoutes visit rest mem own

/-- The routes of a network, in the order of the loops over them. -/
def cellsOf (order : MapOrder) (key : Bytes) (list : RouteInfoRecordList) : List Cell :=
  (order.range "routeInfoProtocolMap" list.routeInfoProtocolMap).flatMap fun entry =>
    (List.range entry.2.length).map (⟨key, entry.1, ·⟩)

/-- The walk that is started for a route that was changed. Its error is not looked at. -/
def walkAgain (visitor : RouteReachabilityStatusInfo →
      UpdateFunc ε RouteInfoRecordList Propagation) (fuel : Nat) (root : TrieRef)
    (info : RouteReachabilityStatusInfo) (mem : Memory RouteInfoRecordList) (own : Propagation) :
    Outcome ε (Memory RouteInfoRecordList × Propagation) := do
  let (_, state) ← mem.visitAndUpdate (visitor info) fuel root own
  return (state.mem, state.own)

/-- The visitor that both kinds of route share, which walks the table anew for a route it changes. -/
def updateRouteReachabilityStatus (env : Surroundings) (maskBytes : Nat) (root : TrieRef) :
    Nat → RouteReachabilityStatusInfo → UpdateFunc ε RouteInfoRecordList Propagation
  | 0, _ => fun _ _ _ _ => .hang
  | fuel + 1, info => fun key handle mem own =>
    (notifiedPrefix maskBytes info.destNet).handle (fun _ => .ok (some .other, mem, own))
      fun notified =>
        let again := walkAgain (updateRouteReachabilityStatus env maskBytes root fuel) fuel root
        updateRoutes (updateRoute env root again info notified.1 notified.2 handle)
          (cellsOf env.order key handle) mem own

/-- `UpdateV4RouteReachabilityStatus`. -/
def updateV4RouteReachabilityStatus : UpdateFunc ε RouteInfoRecordList Propagation :=
  updateRouteReachabilityStatus env 4 root fuel info

/-- `UpdateV6RouteReachabilityStatus`. -/
def updateV6RouteReachabilityStatus : UpdateFunc ε RouteInfoRecordList Propagation :=
  updateRouteReachabilityStatus env 16 root fuel info

/-- `RouteInfoMapVisitAndUpdate`, of the table that the routes of the type are in. -/
def routeInfoMapVisitAndUpdate (ipType : IPType) (info : RouteReachabilityStatusInfo)
    (table : RouteInfoMap) (own : Propagation) :
    Outcome ε (Option VisitError × WalkState RouteInfoRecordList Propagation) :=
  match ipType with
  | .IPv4 => table.mem.visitAndUpdate (updateV4RouteReachabilityStatus env table.root fuel info)
      fuel table.root own
  | .IPv6 => table.mem.visitAndUpdate (updateV6RouteReachabilityStatus env table.root fuel info)
      fuel table.root own

/-- A notification: its own messages are sent before the table is walked. -/
def notifyReachability (ipType : IPType) (info : RouteReachabilityStatusInfo) (table : RouteInfoMap)
    : Outcome ε (Option VisitError × WalkState RouteInfoRecordList Propagation) := do
  let sent ← routeReachabilityStatusUpdate env info.protocol.name info
  routeInfoMapVisitAndUpdate env fuel ipType info table ⟨[], [], sent⟩

end FlexSwitch.Ribd
