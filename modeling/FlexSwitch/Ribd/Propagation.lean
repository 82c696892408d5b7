import FlexSwitch.Ribd.Reachability

/-! The notification of a network comes to an end, and changes no route twice. -/

namespace FlexSwitch.Ribd

open Go NetUtils Patricia Patricia.Memory List Outcome
open Rib (IPText ipString)

variable {ε : Type}

theorem getNetowrkPrefixFromStrings_returns (ipAddr mask : IPText) :
    (getNetowrkPrefixFromStrings ipAddr mask).Returns := by
  rw [getNetowrkPrefixFromStrings]
  rcases getIP_cases ipAddr with ⟨err, invalid⟩ | ⟨ip, -, valid⟩
  · simp [invalid]
  · rw [valid, ok_bind]
    rcases getIP_cases mask with ⟨err, invalid⟩ | ⟨networkMask, sized, valid⟩
    · simp [invalid]
    · rw [valid, ok_bind]
      exact getNetworkPrefix_returns ip sized

theorem notifiedPrefix_returns (maskBytes : Nat) (destNet : DestText) :
    (notifiedPrefix maskBytes destNet).Returns := by
  rw [notifiedPrefix]
  cases parseCIDR destNet with
  | none => trivial
  | some parsed =>
    rw [bind_returns]
    exact ⟨getNetowrkPrefixFromStrings_returns _ _, fun _ _ => trivial⟩

theorem notifyTrackers_ok (env : Surroundings) (info : RouteReachabilityStatusInfo)
    (destIpPrefix : Bytes) (ipMaskStr : IPText) (tracked : List (IPText × List String))
    (sent : List Notification) : ∃ all,
      (notifyTrackers env info destIpPrefix ipMaskStr tracked sent : Outcome ε _) = .ok all := by
  induction tracked generalizing sent with
  | nil => exact ⟨sent, rfl⟩
  | cons entry rest ih =>
    rw [notifyTrackers]
    have masked := getNetowrkPrefixFromStrings_returns entry.1 ipMaskStr
    rcases handle_of_returns _ _ masked with ⟨_, -, ends⟩ | ⟨_, -, goesOn⟩
    · exact ⟨sent, ends⟩
    · rw [goesOn]
      exact ih _

/-- The messages about a network are sent, however many there are. -/
theorem routeReachabilityStatusUpdate_ok (env : Surroundings) (targetProtocol : String)
    (info : RouteReachabilityStatusInfo) : ∃ sent,
      (routeReachabilityStatusUpdate env targetProtocol info : Outcome ε _) = .ok sent := by
  rw [routeReachabilityStatusUpdate]
  have parsed := notifiedPrefix_returns 4 info.destNet
  rcases handle_of_returns _ _ parsed with ⟨_, -, ends⟩ | ⟨notified, -, goesOn⟩
  · exact ⟨_, ends⟩
  · rw [goesOn]
    exact notifyTrackers_ok env info notified.1 notified.2 _ _

namespace RouteInfoRecordList

variable {list : RouteInfoRecordList} {protocol : Protocol} {index : Nat}
  {route old : RouteInfoRecord}

theorem routes_setRoute (list : RouteInfoRecordList) (protocol : Protocol) (index : Nat)
    (route : RouteInfoRecord) (other : Protocol) :
    (list.setRoute protocol index route).routes other =
      if other = protocol then (list.routes protocol).set index route else list.routes other := by
  simp only [routes, setRoute, GoMap.lookup_insert_eq]
  by_cases same : other = protocol <;> simp [same]

theorem route_setRoute (here : (list.routes protocol)[index]? = some old) (other : Protocol)
    (place : Nat) :
    ((list.setRoute protocol index route).routes other)[place]? =
      if other = protocol ∧ place = index then some route else (list.routes other)[place]? := by
  rw [routes_setRoute]
  by_cases same : other = protocol
  · subst same
    have inside := (List.getElem?_eq_some_iff.mp here).1
    rw [if_pos rfl, getElem?_set]
    by_cases there : index = place
    · simp [← there, inside]
    · simp [there, Ne.symm there]
  · simp [same]

end RouteInfoRecordList

/-- The route at a cell of the table. -/
def routeAt (mem : Memory RouteInfoRecordList) (root : TrieRef) (cell : Cell) :
    Option RouteInfoRecord :=
  (mem.itemAt root cell.key).bind fun list => (list.routes cell.protocol)[cell.index]?

/-- The flag of the route at a cell. -/
def flagAt (mem : Memory RouteInfoRecordList) (root : TrieRef) (cell : Cell) : Option Bool :=
  (routeAt mem root cell).map (·.resolvedNextHopIpIntf.isReachable)

/--
How far the propagation has come since the start.

The routes it changed are all different, and were not of the status before.
-/
structure Progress (start : Memory RouteInfoRecordList) (root : TrieRef) (status : Status)
    (mem : Memory RouteInfoRecordList) (own : Propagation) : Prop where
  once : own.changes.Nodup
  changed : ∀ cell, cell ∈ own.changes → flagAt start root cell = some (!status.isReachable) ∧
      flagAt mem root cell = some status.isReachable
  others : ∀ cell, cell ∉ own.changes → routeAt mem root cell = routeAt start root cell

section progress

variable {start mem mem' : Memory RouteInfoRecordList} {root node : TrieRef} {status : Status}
  {own : Propagation} {cell : Cell} {list : RouteInfoRecordList} {route : RouteInfoRecord}

theorem isSome_flagAt : (flagAt mem root cell).isSome = (routeAt mem root cell).isSome := by
  simp [flagAt]

theorem flagAt_congr (same : routeAt mem' root cell = routeAt mem root cell) :
    flagAt mem' root cell = flagAt mem root cell := by
  rw [flagAt, same, flagAt]

theorem Progress.isSome_eq (progress : Progress start root status mem own) (cell : Cell) :
    (routeAt mem root cell).isSome = (routeAt start root cell).isSome := by
  by_cases member : cell ∈ own.changes
  · obtain ⟨before, after⟩ := progress.changed cell member
    rw [← isSome_flagAt, ← isSome_flagAt, before, after]
    rfl
  · rw [progress.others cell member]

theorem Progress.reordered (progress : Progress start root status mem own)
    (wf : mem.WellFormed root) (sorts : Permuted mem mem') :
    Progress start root status mem' own := by
  have same (cell : Cell) : routeAt mem' root cell = routeAt mem root cell := by
    rw [routeAt, sorts.itemAt_eq wf, routeAt]
  refine ⟨progress.once, fun cell member => ?_, fun cell other => ?_⟩
  · rw [flagAt_congr (same cell)]
    exact progress.changed cell member
  · rw [same]
    exact progress.others cell other

/-- The route at a cell is written, and no other one. -/
theorem routeAt_setItem (wf : mem.WellFormed root) (reached : mem.At root cell.key node)
    (stored : (mem.trie node).item = some list) {old : RouteInfoRecord}
    (here : (list.routes cell.protocol)[cell.index]? = some old) (route : RouteInfoRecord)
    (other : Cell) :
    routeAt (mem.setItem node (some (list.setRoute cell.protocol cell.index route))) root other =
      if other = cell then some route else routeAt mem root other := by
  rw [routeAt, wf.itemAt_setItem reached stored]
  by_cases key : other.key = cell.key
  · rw [if_pos key, Option.bind_some, RouteInfoRecordList.route_setRoute here, routeAt, key,
      wf.itemAt_of_at reached stored, Option.bind_some]
    have same : other = cell ↔ other.protocol = cell.protocol ∧ other.index = cell.index := by
      cases other
      cases cell
      simp_all
    simp only [same]
  · have apart : other ≠ cell := fun same => key (by rw [same])
    rw [if_neg key, if_neg apart, routeAt]

/-- A route that is not of the status yet gets its flag. -/
theorem Progress.change (progress : Progress start root status mem own) (wf : mem.WellFormed root)
    (reached : mem.At root cell.key node) (stored : (mem.trie node).item = some list)
    (here : (list.routes cell.protocol)[cell.index]? = some route)
    (differs : route.resolvedNextHopIpIntf.isReachable ≠ status.isReachable)
    {own' : Propagation} (noted : own'.changes = own.changes ++ [cell]) :
    Progress start root status (mem.setItem node (some (list.setRoute cell.protocol cell.index
      (route.setReachable status.isReachable)))) own' := by
  have written := routeAt_setItem wf reached stored here (route.setReachable status.isReachable)
  have now : routeAt mem root cell = some route := by
    rw [routeAt, wf.itemAt_of_at reached stored]
    exact here
  have flag : flagAt mem root cell = some (!status.isReachable) := by
    rw [flagAt, now, Option.map_some, Bool.eq_not.mpr differs]
  -- A route that was changed before has the flag already.
  have fresh : cell ∉ own.changes := by
    intro member
    have after := (progress.changed cell member).2
    rw [flag] at after
    cases status <;> simp [Status.isReachable] at after
  have apart {other : Cell} (member : other ∈ own.changes) : other ≠ cell := fun same =>
    fresh (same ▸ member)
  refine ⟨?_, fun other member => ?_, fun other member => ?_⟩
  · rw [noted, nodup_append]
    refine ⟨progress.once, nodup_singleton cell, fun one first two second => ?_⟩
    rw [mem_singleton.mp second]
    exact apart first
  · rw [noted, mem_append, mem_singleton] at member
    rcases member with earlier | rfl
    · rw [flagAt_congr ((written other).trans (if_neg (apart earlier)))]
      exact progress.changed other earlier
    · refine ⟨?_, by rw [flagAt, written, if_pos rfl]; rfl⟩
      rw [flagAt, ← progress.others other fresh]
      exact flag
  · rw [noted, mem_append, mem_singleton, not_or] at member
    rw [written, if_neg member.2]
    exact progress.others other member.1

/-- The table has finitely many routes. -/
theorem finite_cells (wf : mem.WellFormed root) :
    {cell | (routeAt mem root cell).isSome = true}.Finite := by
  have ofKey (key : Bytes) :
      {cell : Cell | cell.key = key ∧ (routeAt mem root cell).isSome = true}.Finite := by
    cases stored : mem.itemAt root key with
    | none =>
      refine Set.finite_empty.subset ?_
      rintro cell ⟨rfl, here⟩
      simp [routeAt, stored] at here
    | some list =>
      have places (protocol : Protocol) := (Set.finite_Iio (list.routes protocol).length).image
        fun index => (⟨key, protocol, index⟩ : Cell)
      refine (Set.finite_iUnion places).subset ?_
      rintro ⟨_, protocol, index⟩ ⟨rfl, here⟩
      simp only [routeAt, stored, Option.bind_some] at here
      obtain ⟨route, found⟩ := Option.isSome_iff_exists.mp here
      have inside := (List.getElem?_eq_some_iff.mp found).1
      exact Set.mem_iUnion.mpr ⟨protocol, index, inside, rfl⟩
  refine (wf.finite_keys.biUnion fun key _ => ofKey key).subset fun cell here => ?_
  cases stored : mem.itemAt root cell.key with
  | none => simp [routeAt, stored] at here
  | some list =>
    exact Set.mem_biUnion (⟨list, wf.itemAt_eq_some.mp stored⟩ : ∃ item, mem.Holds root cell.key item)
      ⟨rfl, here⟩

theorem Progress.length_le (progress : Progress start root status mem own)
    (wf : start.WellFormed root) :
    own.changes.length ≤ (finite_cells wf).toFinset.card := by
  rw [← toFinset_card_of_nodup progress.once]
  refine Finset.card_le_card fun cell member => ?_
  rw [Set.Finite.mem_toFinset, Set.mem_ofPred_eq, ← isSome_flagAt,
    (progress.changed cell (mem_toFinset.mp member)).1]
  rfl

/-- The cells of a network that the visitor is called with have a route. -/
theorem isSome_of_mem_cellsOf {order : MapOrder} {key : Bytes} (wf : mem.WellFormed root)
    (reached : mem.At root key node) (stored : (mem.trie node).item = some list)
    (member : cell ∈ cellsOf order key list) : (routeAt mem root cell).isSome = true := by
  simp only [cellsOf, mem_flatMap, mem_map, mem_range] at member
  obtain ⟨⟨protocol, routes⟩, entry, index, inside, rfl⟩ := member
  have found : list.routes protocol = routes := by
    rw [RouteInfoRecordList.routes, MapOrder.mem_range.mp entry, Option.getD_some]
  rw [routeAt, wf.itemAt_of_at reached stored, Option.bind_some, found]
  simpa using inside

/-- The loops over the routes come to an end if what is done to a route does. -/
theorem updateRoutes_keeps {Good : Memory RouteInfoRecordList → Propagation → Prop}
    {visit : Cell → Memory RouteInfoRecordList → Propagation →
      Outcome ε (Option VisitError × Memory RouteInfoRecordList × Propagation)} {cells : List Cell}
    (step : ∀ cell, cell ∈ cells → ∀ mem own, Good mem own →
      ∃ err mem' own', visit cell mem own = .ok (err, mem', own') ∧ Good mem' own')
    (good : Good mem own) :
    ∃ err mem' own', updateRoutes visit cells mem own = .ok (err, mem', own') ∧ Good mem' own' := by
  induction cells generalizing mem own with
  | nil => exact ⟨none, mem, own, rfl, good⟩
  | cons cell rest ih =>
    obtain ⟨err, visited, own', visit, good'⟩ := step cell mem_cons_self mem own good
    rw [updateRoutes, visit, ok_bind]
    cases err with
    | some err => exact ⟨some err, visited, own', rfl, good'⟩
    | none => exact ih (fun other member => step other (mem_cons_of_mem _ member)) good'

end progress

/-- What is kept in the course of a propagation that has made so many changes already. -/
structure Underway (start : Memory RouteInfoRecordList) (root : TrieRef) (status : Status)
    (count : Nat) (mem : Memory RouteInfoRecordList) (own : Propagation) : Prop where
  shape : SameShape start mem
  progress : Progress start root status mem own
  made : count ≤ own.changes.length

section visitor

variable {env : Surroundings} {start mem : Memory RouteInfoRecordList} {root : TrieRef}
  {status : Status} {own : Propagation} {cell : Cell} {count : Nat}
  {again : RouteReachabilityStatusInfo → Memory RouteInfoRecordList → Propagation →
    Outcome ε (Memory RouteInfoRecordList × Propagation)}

theorem Underway.fewer (underway : Underway start root status (count + 1) mem own) :
    Underway start root status count mem own :=
  ⟨underway.shape, underway.progress, Nat.le_of_succ_le underway.made⟩

/-- A route is changed, and the table walked anew with one more change made. -/
theorem changeRoute_keeps (env : Surroundings) {list : RouteInfoRecordList} {route : RouteInfoRecord}
    (wf : start.WellFormed root)
    (again_keeps : ∀ info mem own, info.status = status →
      Underway start root status (count + 1) mem own →
      ∃ mem' own', again info mem own = .ok (mem', own') ∧
        Underway start root status (count + 1) mem' own')
    (underway : Underway start root status count mem own)
    (item : mem.itemAt root cell.key = some list)
    (here : (list.routes cell.protocol)[cell.index]? = some route)
    (differs : route.resolvedNextHopIpIntf.isReachable ≠ status.isReachable) :
    ∃ mem' own', changeRoute env root again status list cell route mem own = .ok (mem', own') ∧
      Underway start root status (count + 1) mem' own' := by
  obtain ⟨wf', -⟩ := underway.shape.wellFormed wf
  obtain ⟨node, reached, stored⟩ := wf'.itemAt_eq_some.mp item
  have made (own' : Propagation) (noted : own'.changes = own.changes ++ [cell]) :
      Underway start root status (count + 1) (mem.setItem node (some (list.setRoute cell.protocol
        cell.index (route.setReachable status.isReachable)))) own' := by
    refine ⟨underway.shape.trans (sameShape_setItem stored _),
      underway.progress.change wf' reached stored here differs noted, ?_⟩
    have before := underway.made
    rw [noted, length_append, length_singleton]
    omega
  simp only [changeRoute]
  rw [wf'.set_stored reached stored, ok_bind]
  obtain ⟨sent, told⟩ := routeReachabilityStatusUpdate_ok (ε := ε) env cell.protocol.name
    { destNet := .network (route.setReachable status.isReachable).networkAddr
      ipType := (route.setReachable status.isReachable).ipType
      status := status
      protocol := cell.protocol
      nextHopIntf := ⟨ipString (route.setReachable status.isReachable).nextHopIp,
        (route.setReachable status.isReachable).nextHopIfIndex, 0, [], [], false⟩ }
  rw [told, ok_bind]
  by_cases depended : 0 < (env.refCount.lookup cell.key).getD 0
  · rw [if_pos depended]
    exact again_keeps _ _ _ rfl (made _ rfl)
  · rw [if_neg depended]
    exact ⟨_, _, rfl, made _ rfl⟩

/-- A route is looked at, and changed if it has to be. -/
theorem updateRoute_keeps {info : RouteReachabilityStatusInfo} (wf : start.WellFormed root)
    (again_keeps : ∀ later mem own, later.status = info.status →
      Underway start root info.status (count + 1) mem own →
      ∃ mem' own', again later mem own = .ok (mem', own') ∧
        Underway start root info.status (count + 1) mem' own')
    (underway : Underway start root info.status count mem own)
    (stored : (routeAt start root cell).isSome = true) (destIpPrefix : Bytes) (ipMaskStr : IPText)
    (handle : RouteInfoRecordList) :
    ∃ err mem' own', updateRoute env root again info destIpPrefix ipMaskStr handle cell mem own =
      .ok (err, mem', own') ∧ Underway start root info.status count mem' own' := by
  obtain ⟨wf', -⟩ := underway.shape.wellFormed wf
  rw [← underway.progress.isSome_eq] at stored
  obtain ⟨route, found⟩ := Option.isSome_iff_exists.mp stored
  obtain ⟨list, item, here⟩ := Option.bind_eq_some_iff.mp found
  rw [updateRoute, wf'.get_eq_itemAt, item, ok_bind]
  simp only [Option.getD_some, here]
  by_cases other : route.nextHopIpType ≠ info.ipType
  · rw [if_pos other]
    exact ⟨none, mem, own, rfl, underway⟩
  · rw [if_neg other]
    have masked := getNetowrkPrefixFromStrings_returns (ipString route.nextHopIp) ipMaskStr
    rcases handle_of_returns _ _ masked with ⟨_, -, ends⟩ | ⟨vPrefix, -, goesOn⟩
    · exact ⟨some .other, mem, own, ends, underway⟩
    · rw [goesOn]
      by_cases changes : vPrefix = destIpPrefix ∧
          route.resolvedNextHopIpIntf.isReachable ≠ info.status.isReachable
      · obtain ⟨mem', own', changed, further⟩ :=
          changeRoute_keeps env wf again_keeps underway item here changes.2
        rw [if_pos changes, changed, ok_bind]
        exact ⟨none, mem', own', rfl, further.fewer⟩
      · rw [if_neg changes]
        exact ⟨none, mem, own, rfl, underway⟩

/-- A walk that is started for a change keeps what its visitor does. -/
theorem walkAgain_keeps {walk fuel : Nat} {info : RouteReachabilityStatusInfo}
    {visitor : RouteReachabilityStatusInfo → UpdateFunc ε RouteInfoRecordList Propagation}
    (walks : VisitsWithin ε Propagation start root walk) (enough : walk ≤ fuel)
    (keeping : Keeping start root (Underway start root status count) (visitor info))
    (underway : Underway start root status count mem own) :
    ∃ mem' own', walkAgain visitor fuel root info mem own = .ok (mem', own') ∧
      Underway start root status count mem' own' := by
  obtain ⟨err, state, walked, -, further⟩ :=
    walks _ _ keeping fuel mem own enough underway.shape underway
  rw [walkAgain, walked, ok_bind]
  exact ⟨_, _, rfl, further⟩

/--
The visitor comes to an end from any state of the propagation.

Every walk it starts is one with a further change made, and there are no more changes than routes.
-/
theorem updateRouteReachabilityStatus_keeping {walk fuel : Nat} (env : Surroundings)
    (maskBytes : Nat) (info : RouteReachabilityStatusInfo) (wf : start.WellFormed root)
    (walks : VisitsWithin ε Propagation start root walk)
    (enough : walk + ((finite_cells wf).toFinset.card - count) < fuel) :
    Keeping start root (Underway start root info.status count)
      (updateRouteReachabilityStatus env maskBytes root fuel info : UpdateFunc ε _ _) := by
  induction fuel generalizing info count with
  | zero => omega
  | succ fuel ih =>
    refine ⟨fun {mem mem' own} same sorts underway => ?_,
      fun {key ref handle mem own} same underway reached stored => ?_⟩
    · exact ⟨same.trans sorts.sameShape,
        underway.progress.reordered (same.wellFormed wf).1 sorts, underway.made⟩
    · rw [updateRouteReachabilityStatus]
      dsimp only
      have parsed := notifiedPrefix_returns maskBytes info.destNet
      rcases handle_of_returns _ _ parsed with ⟨_, -, ends⟩ | ⟨notified, -, goesOn⟩
      · exact ⟨some .other, mem, own, ends, same, underway⟩
      · rw [goesOn]
        obtain ⟨wf', atNow⟩ := same.wellFormed wf
        suffices visits : ∀ cell, cell ∈ cellsOf env.order key handle → ∀ mem own,
            Underway start root info.status count mem own → ∃ err mem' own', (updateRoute env root
              (walkAgain (updateRouteReachabilityStatus env maskBytes root fuel) fuel root)
              info notified.1 notified.2 handle cell mem own : Outcome ε _) =
                .ok (err, mem', own') ∧ Underway start root info.status count mem' own' by
          obtain ⟨err, mem', own', visited, further⟩ := updateRoutes_keeps visits underway
          exact ⟨err, mem', own', visited, further.shape, further⟩
        intro cell member mem own underway'
        have here : (routeAt start root cell).isSome = true := by
          rw [← underway.progress.isSome_eq]
          exact isSome_of_mem_cellsOf wf' (atNow.mpr reached) stored member
        refine updateRoute_keeps wf ?_ underway' here notified.1 notified.2 handle
        intro later mem own status underway
        -- One more change is made by now, so that less of the budget is needed.
        have few := underway.progress.length_le wf
        have made := underway.made
        have keeping := @ih (count + 1) later (by omega)
        rw [status] at keeping
        exact walkAgain_keeps walks (by omega) keeping underway

end visitor

/--
A notification comes to an end, and changes the flag of no route twice.

The routes changed are those whose flag is another one at the end, and it is the flag notified.
-/
theorem notifyReachability_ends (env : Surroundings) (ipType : IPType)
    (info : RouteReachabilityStatusInfo) (table : RouteInfoMap) :
    ∃ enough, ∀ fuel, enough ≤ fuel → ∃ err state,
      (notifyReachability env fuel ipType info table : Outcome Empty _) = .ok (err, state) ∧
      state.own.changes.Nodup ∧
      (∀ cell, cell ∈ state.own.changes →
        flagAt table.mem table.root cell = some (!info.status.isReachable) ∧
          flagAt state.mem table.root cell = some info.status.isReachable) ∧
      ∀ cell, cell ∉ state.own.changes →
        routeAt state.mem table.root cell = routeAt table.mem table.root cell := by
  have wf := table.built.wellFormed
  obtain ⟨walk, walks⟩ := wf.exists_visitsWithin Empty Propagation
  refine ⟨walk + (finite_cells wf).toFinset.card + 1, fun fuel enough => ?_⟩
  obtain ⟨sent, told⟩ := routeReachabilityStatusUpdate_ok (ε := Empty) env info.protocol.name info
  have underway : Underway table.mem table.root info.status 0 table.mem ⟨[], [], sent⟩ :=
    ⟨.refl _, ⟨nodup_nil, nofun, fun _ _ => rfl⟩, Nat.zero_le _⟩
  have ends (maskBytes : Nat) : ∃ err state, (table.mem.visitAndUpdate
      (updateRouteReachabilityStatus env maskBytes table.root fuel info) fuel table.root
        ⟨[], [], sent⟩ : Outcome Empty _) = .ok (err, state) ∧
      Progress table.mem table.root info.status state.mem state.own := by
    have budget : walk + ((finite_cells wf).toFinset.card - 0) < fuel := by omega
    have keeping := updateRouteReachabilityStatus_keeping env maskBytes info wf walks budget
    obtain ⟨err, state, walked, -, further⟩ :=
      walks _ _ keeping fuel table.mem _ (by omega) (.refl _) underway
    exact ⟨err, state, walked, further.progress⟩
  rw [notifyReachability, told, ok_bind]
  cases ipType with
  | IPv4 =>
    obtain ⟨err, state, walked, progress⟩ := ends 4
    exact ⟨err, state, walked, progress.once, progress.changed, progress.others⟩
  | IPv6 =>
    obtain ⟨err, state, walked, progress⟩ := ends 16
    exact ⟨err, state, walked, progress.once, progress.changed, progress.others⟩

end FlexSwitch.Ribd
