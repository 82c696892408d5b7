import FlexSwitch.Go.Map

/-! The election of a network's designated router and of its backup. -/

namespace FlexSwitch.Ospf

open Go List

structure NeighborConfKey where
  ipAddr : String
  intfIdx : Int
deriving DecidableEq, Repr

/-- What a neighbor's Hello packets say, its addresses as numbers. -/
structure NeighborData where
  twoWayStatus : Bool
  rtrPrio : UInt8
  dRtr : UInt32
  bDRtr : UInt32
  nbrIP : UInt32
deriving DecidableEq, Repr

structure IntfConf where
  ifRtrPriority : UInt8
  ifIpAddr : UInt32
  ifDRIp : UInt32
  ifBDRIp : UInt32
  neighborMap : GoMap NeighborConfKey NeighborData

/-- What an election on one interface reads: the router's id and those of the neighbors. -/
structure OSPFServer where
  routerId : UInt32
  ent : IntfConf
  neighborConfigMap : GoMap NeighborConfKey UInt32

/-- The best router met so far. -/
structure Elected where
  rtrPrio : UInt8 := 0
  rtrId : UInt32 := 0
  addr : UInt32 := 0
deriving DecidableEq, Repr

/-- A router takes the lead by its priority, or by its id among equal priorities. -/
def Elected.challenge (held : Elected) (rtrPrio : UInt8) (rtrId addr : UInt32) : Elected :=
  if rtrPrio > held.rtrPrio then ⟨rtrPrio, rtrId, addr⟩
  else if rtrPrio = held.rtrPrio then
    if held.rtrId < rtrId then ⟨rtrPrio, rtrId, addr⟩ else held
  else held

namespace OSPFServer

variable (server : OSPFServer)

/-- The id of a neighbor, which is zero for one that is not in the map. -/
def ospfNbrRtrId (key : NeighborConfKey) : UInt32 :=
  (server.neighborConfigMap.lookup key).getD 0

/-- One neighbor of the loop in `ElectBDR`: the declared backups, and all that may become one. -/
def electBDRNeighbor (state : Elected × Elected) (nbr : NeighborConfKey × NeighborData) :
    Elected × Elected :=
  let (nbrkey, nbrEntry) := nbr
  let rtrId := server.ospfNbrRtrId nbrkey
  if nbrEntry.twoWayStatus = true ∧ nbrEntry.rtrPrio > 0 ∧ nbrEntry.nbrIP ≠ 0 then
    if nbrEntry.dRtr = nbrEntry.nbrIP then state
    else
      (if nbrEntry.bDRtr = nbrEntry.nbrIP then
        state.1.challenge nbrEntry.rtrPrio rtrId nbrEntry.bDRtr
      else state.1, state.2.challenge nbrEntry.rtrPrio rtrId nbrEntry.nbrIP)
  else state

/-- The router itself, behind that loop. -/
def electBDRSelf (state : Elected × Elected) : Elected × Elected :=
  let ent := server.ent
  if ent.ifRtrPriority ≠ 0 ∧ ent.ifIpAddr ≠ 0 then
    if ent.ifIpAddr ≠ ent.ifDRIp then
      (if ent.ifIpAddr = ent.ifBDRIp then
        state.1.challenge ent.ifRtrPriority server.routerId ent.ifIpAddr
      else state.1, state.2.challenge ent.ifRtrPriority server.routerId ent.ifIpAddr)
    else state
  else state

def electBDR (order : MapOrder) : UInt32 × UInt32 :=
  let (elected, max) := server.electBDRSelf
    ((order.range "ElectBDR" server.ent.neighborMap).foldl server.electBDRNeighbor ({}, {}))
  if elected.addr = 0 then (max.addr, max.rtrId) else (elected.addr, elected.rtrId)

def electDRNeighbor (elected : Elected) (nbr : NeighborConfKey × NeighborData) : Elected :=
  let (key, nbrEntry) := nbr
  if nbrEntry.twoWayStatus = true ∧ nbrEntry.rtrPrio > 0 ∧ nbrEntry.nbrIP ≠ 0 then
    if nbrEntry.dRtr = nbrEntry.nbrIP then
      elected.challenge nbrEntry.rtrPrio (server.ospfNbrRtrId key) nbrEntry.dRtr
    else elected
  else elected

def electDRSelf (elected : Elected) : Elected :=
  let ent := server.ent
  if ent.ifRtrPriority > 0 ∧ ent.ifIpAddr ≠ 0 then
    if ent.ifIpAddr = ent.ifDRIp then
      elected.challenge ent.ifRtrPriority server.routerId ent.ifIpAddr
    else elected
  else elected

/-- The backup is given with its address and its id. -/
def electDR (order : MapOrder) (electedBDR : UInt32 × UInt32) : UInt32 × UInt32 :=
  let elected := server.electDRSelf
    ((order.range "ElectDR" server.ent.neighborMap).foldl server.electDRNeighbor {})
  if elected.addr = 0 then electedBDR else (elected.addr, elected.rtrId)

end OSPFServer

section Routers

/-- A router on the network, with the designated router and the backup that it declares. -/
structure Router where
  twoWay : Bool
  priority : UInt8
  routerId : UInt32
  address : UInt32
  declaredDR : UInt32
  declaredBDR : UInt32

namespace Router

/-- Routers are ranked by their priority, and by their id where that is the same. -/
def rank (router : Router) : ℕ ×ₗ ℕ := toLex (router.priority.toNat, router.routerId.toNat)

/-- A router with an address and a priority takes part once it is two-way. -/
def Eligible (router : Router) : Prop :=
  router.twoWay = true ∧ router.priority > 0 ∧ router.address ≠ 0

/-- It declares itself designated router. -/
def Designated (router : Router) : Prop := router.Eligible ∧ router.declaredDR = router.address

def NotDesignated (router : Router) : Prop := router.Eligible ∧ router.declaredDR ≠ router.address

/-- It declares itself backup, and not designated router. -/
def Backup (router : Router) : Prop :=
  router.NotDesignated ∧ router.declaredBDR = router.address

instance : DecidablePred Eligible := fun _ => inferInstanceAs (Decidable (_ ∧ _))
instance : DecidablePred Designated := fun _ => inferInstanceAs (Decidable (_ ∧ _))
instance : DecidablePred NotDesignated := fun _ => inferInstanceAs (Decidable (_ ∧ _))
instance : DecidablePred Backup := fun _ => inferInstanceAs (Decidable (_ ∧ _))

end Router

variable (server : OSPFServer)

namespace OSPFServer

/-- The router that the server itself is. -/
def self : Router :=
  ⟨true, server.ent.ifRtrPriority, server.routerId, server.ent.ifIpAddr, server.ent.ifDRIp,
    server.ent.ifBDRIp⟩

def neighbor (nbr : NeighborConfKey × NeighborData) : Router :=
  ⟨nbr.2.twoWayStatus, nbr.2.rtrPrio, server.ospfNbrRtrId nbr.1, nbr.2.nbrIP, nbr.2.dRtr, nbr.2.bDRtr⟩

/-- The routers on the network: this one and its neighbors. -/
def routers : Set Router :=
  {router | router = server.self ∨
    ∃ key nbr, server.ent.neighborMap.lookup key = some nbr ∧ router = server.neighbor (key, nbr)}

end OSPFServer

/-- The result names the one router of the set that ranks above all others of it. -/
def Wins (candidates : Set Router) (result : UInt32 × UInt32) : Prop :=
  ∃ router ∈ candidates, result = (router.address, router.routerId) ∧
    ∀ rival ∈ candidates, rival ≠ router → rival.rank < router.rank

end Routers

section Leading

variable {candidates : List Router} {held : Elected} {router : Router}

/-- What is held is the data of a router that none of the candidates ranks above. -/
def Leads (candidates : List Router) (held : Elected) : Prop :=
  candidates = [] ∧ held = {} ∨ ∃ router ∈ candidates, router.Eligible ∧
      held = ⟨router.priority, router.routerId, router.address⟩ ∧
      ∀ rival ∈ candidates, rival.rank ≤ router.rank

theorem challenge_eq (held router : Router) :
    Elected.challenge ⟨held.priority, held.routerId, held.address⟩ router.priority router.routerId
        router.address =
      if held.rank < router.rank then ⟨router.priority, router.routerId, router.address⟩
      else ⟨held.priority, held.routerId, held.address⟩ := by
  simp only [Elected.challenge, Router.rank, Prod.Lex.toLex_lt_toLex, gt_iff_lt,
    UInt8.lt_iff_toNat_lt, UInt32.lt_iff_toNat_lt, ← UInt8.toNat_inj]
  split_ifs <;> first | rfl | omega

theorem Leads.challenge (leads : Leads candidates held) (eligible : router.Eligible) :
    Leads (candidates ++ [router])
      (held.challenge router.priority router.routerId router.address) := by
  right
  rcases leads with ⟨rfl, rfl⟩ | ⟨first, member, active, rfl, above⟩
  · -- The first router always takes the lead, since its priority is not zero.
    refine ⟨router, by simp, eligible, ?_, by simp⟩
    rw [Elected.challenge, if_pos eligible.2.1]
  · rw [challenge_eq]
    split
    · rename_i higher
      exact ⟨router, by simp, eligible, rfl, forall_mem_append.mpr
        ⟨fun rival before => (above rival before).trans higher.le, forall_mem_singleton.mpr le_rfl⟩⟩
    · rename_i lower
      exact ⟨first, by simp [member], active, rfl, forall_mem_append.mpr
        ⟨above, forall_mem_singleton.mpr (not_lt.mp lower)⟩⟩

/-- A router of the kind challenges what is held. -/
def offer (p : Router → Prop) [DecidablePred p] (held : Elected) (router : Router) : Elected :=
  if p router then held.challenge router.priority router.routerId router.address else held

/-- A loop that lets every router of a kind challenge ends with the one in the lead. -/
theorem leads_foldl {p : Router → Prop} [DecidablePred p] (kind : ∀ router, p router → router.Eligible)
    (routers : List Router) : Leads (routers.filter p) (routers.foldl (offer p) {}) := by
  -- The last router challenges the one that leads the others.
  induction routers using reverseRecOn with
  | nil => exact .inl ⟨rfl, rfl⟩
  | append_singleton routers router ih =>
    rw [foldl_concat, filter_append]
    by_cases taken : p router
    · simpa [offer, taken] using ih.challenge (kind router taken)
    · simpa [offer, taken] using ih

theorem Leads.addr_eq_zero (leads : Leads candidates held) : held.addr = 0 ↔ candidates = [] := by
  rcases leads with ⟨rfl, rfl⟩ | ⟨router, member, eligible, rfl, _⟩
  · simp
  · simp [eligible.2.2, ne_nil_of_mem member]

variable {routers : Set Router} {p : Router → Prop} [DecidablePred p] {listed : List Router}
  (all : ∀ router, router ∈ listed ↔ router ∈ routers)

include all

/-- With an id of its own, the router in the lead ranks above all others. -/
theorem Leads.wins (distinct : Set.InjOn Router.routerId routers) (leads : Leads (listed.filter p) held)
    (nonempty : {router ∈ routers | p router}.Nonempty) :
    Wins {router ∈ routers | p router} (held.addr, held.rtrId) := by
  have same : ∀ router, router ∈ listed.filter p ↔ router ∈ {router ∈ routers | p router} := by
    simp [all]
  rcases leads with ⟨empty, -⟩ | ⟨router, member, -, rfl, above⟩
  · obtain ⟨router, there⟩ := nonempty
    rw [← same, empty] at there
    cases there
  · refine ⟨router, (same router).mp member, rfl, fun rival there other => ?_⟩
    refine lt_of_le_of_ne (above rival ((same rival).mpr there)) fun tie => other ?_
    exact distinct there.1 ((same router).mp member).1 (UInt32.toNat_inj.mp (congrArg Prod.snd tie))

theorem filter_eq_nil : listed.filter p = [] ↔ {router ∈ routers | p router} = ∅ := by
  simp [filter_eq_nil_iff, Set.eq_empty_iff_forall_notMem, all]

/-- Loops that meet the same routers in two orders end with the same one in the lead. -/
theorem Leads.agree (distinct : Set.InjOn Router.routerId routers) {met : List Router}
    (allMet : ∀ router, router ∈ met ↔ router ∈ routers) {other : Elected}
    (leads : Leads (listed.filter p) held) (leads' : Leads (met.filter p) other) :
    held = other := by
  have same : ∀ router, router ∈ listed.filter p ↔ router ∈ met.filter p := by
    simp [all, allMet]
  rcases leads with ⟨empty, rfl⟩ | ⟨router, member, -, rfl, above⟩ <;>
    rcases leads' with ⟨none', rfl⟩ | ⟨rival, member', -, rfl, above'⟩
  · rfl
  · simp [empty, ← same] at member'
  · simp [none', same] at member
  · -- Neither of the two ranks above the other, so they have one id.
    have tie := le_antisymm (above' router ((same router).mp member))
      (above rival ((same rival).mpr member'))
    rw [distinct ((all router).mp (mem_filter.mp member).1)
      ((allMet rival).mp (mem_filter.mp member').1) (UInt32.toNat_inj.mp (congrArg Prod.snd tie))]

end Leading

section Election

variable (server : OSPFServer) (order : MapOrder)

/-- The routers in the order in which a loop over the neighbors meets them, and this one last. -/
def OSPFServer.listed (site : String) : List Router :=
  (order.range site server.ent.neighborMap).map server.neighbor ++ [server.self]

theorem OSPFServer.mem_listed (site : String) (router : Router) :
    router ∈ server.listed order site ↔ router ∈ server.routers := by
  simp only [OSPFServer.listed, mem_append, mem_map, mem_singleton, Prod.exists,
    MapOrder.mem_range, OSPFServer.routers, Set.mem_ofPred_eq, eq_comm, or_comm]

/-- Two running values that do not look at each other are two loops. -/
theorem foldl_pair {α β γ : Type} (f : α → γ → α) (g : β → γ → β) (items : List γ) (a : α) (b : β) :
    items.foldl (fun state item => (f state.1 item, g state.2 item)) (a, b) =
      (items.foldl f a, items.foldl g b) := by
  induction items generalizing a b with
  | nil => rfl
  | cons item items ih => exact ih _ _

/-- The lead among the routers of a kind. -/
def OSPFServer.lead (site : String) (p : Router → Prop) [DecidablePred p] : Elected :=
  (server.listed order site).foldl (offer p) {}

theorem OSPFServer.electBDR_eq : server.electBDR order =
      if (server.lead order "ElectBDR" Router.Backup).addr = 0 then
        ((server.lead order "ElectBDR" Router.NotDesignated).addr,
          (server.lead order "ElectBDR" Router.NotDesignated).rtrId)
      else ((server.lead order "ElectBDR" Router.Backup).addr,
        (server.lead order "ElectBDR" Router.Backup).rtrId) := by
  have round : server.electBDRNeighbor = fun state nbr =>
      (offer Router.Backup state.1 (server.neighbor nbr),
        offer Router.NotDesignated state.2 (server.neighbor nbr)) := by
    funext state nbr
    simp only [electBDRNeighbor, offer, Router.Backup, Router.NotDesignated, Router.Eligible, neighbor]
    grind
  -- The router itself takes part as one more neighbor would.
  have last : ∀ state, server.electBDRSelf state =
      (offer Router.Backup state.1 server.self, offer Router.NotDesignated state.2 server.self) := by
    intro state
    simp only [electBDRSelf, offer, Router.Backup, Router.NotDesignated, Router.Eligible, self,
      ← UInt8.pos_iff_ne_zero]
    grind
  have loops := foldl_pair (fun held nbr => offer Router.Backup held (server.neighbor nbr))
    (fun held nbr => offer Router.NotDesignated held (server.neighbor nbr))
    (order.range "ElectBDR" server.ent.neighborMap) {} {}
  simp only [electBDR, lead, listed, foldl_concat, foldl_map, round, loops, last]

theorem OSPFServer.electDR_eq (electedBDR : UInt32 × UInt32) : server.electDR order electedBDR =
      if (server.lead order "ElectDR" Router.Designated).addr = 0 then electedBDR
      else ((server.lead order "ElectDR" Router.Designated).addr,
        (server.lead order "ElectDR" Router.Designated).rtrId) := by
  have round : server.electDRNeighbor = fun held nbr =>
      offer Router.Designated held (server.neighbor nbr) := by
    funext held nbr
    simp only [electDRNeighbor, offer, Router.Designated, Router.Eligible, neighbor]
    grind
  have last : ∀ held, server.electDRSelf held = offer Router.Designated held server.self := by
    intro held
    simp only [electDRSelf, offer, Router.Designated, Router.Eligible, self]
    grind
  simp only [electDR, lead, listed, foldl_concat, foldl_map, round, last]

/--
The election follows the ranks, in whatever order the neighbors are visited.

The backup is the highest of the eligible routers that declare themselves backup and not designated
router, or else of all that do not declare themselves designated router. The designated router is
the highest of those that declare themselves so, or else the backup that is given.
-/
theorem election_winners (distinct : Set.InjOn Router.routerId server.routers)
    (electedBDR : UInt32 × UInt32) :
    ({router ∈ server.routers | router.Backup}.Nonempty →
      Wins {router ∈ server.routers | router.Backup} (server.electBDR order)) ∧
    ({router ∈ server.routers | router.Backup} = ∅ →
      {router ∈ server.routers | router.NotDesignated}.Nonempty →
      Wins {router ∈ server.routers | router.NotDesignated} (server.electBDR order)) ∧
    ({router ∈ server.routers | router.NotDesignated} = ∅ → server.electBDR order = (0, 0)) ∧
    ({router ∈ server.routers | router.Designated}.Nonempty →
      Wins {router ∈ server.routers | router.Designated} (server.electDR order electedBDR)) ∧
    ({router ∈ server.routers | router.Designated} = ∅ →
      server.electDR order electedBDR = electedBDR) := by
  have met := server.mem_listed order "ElectBDR"
  have metToo := server.mem_listed order "ElectDR"
  have backup : Leads _ (server.lead order "ElectBDR" Router.Backup) :=
    leads_foldl (fun _ kind => kind.1.1) _
  have other : Leads _ (server.lead order "ElectBDR" Router.NotDesignated) :=
    leads_foldl (fun _ kind => kind.1) _
  have designated : Leads _ (server.lead order "ElectDR" Router.Designated) :=
    leads_foldl (fun _ kind => kind.1) _
  have noBackup := backup.addr_eq_zero.trans (filter_eq_nil met)
  have noDesignated := designated.addr_eq_zero.trans (filter_eq_nil metToo)
  rw [server.electBDR_eq order, server.electDR_eq order]
  refine ⟨fun nonempty => ?_, fun empty nonempty => ?_, fun empty => ?_, fun nonempty => ?_, fun empty => ?_⟩
  · rw [if_neg fun zero => nonempty.ne_empty (noBackup.mp zero)]
    exact backup.wins met distinct nonempty
  · rw [if_pos (noBackup.mpr empty)]
    exact other.wins met distinct nonempty
  · -- A declared backup would be one of those that are not there.
    have none : {router ∈ server.routers | router.Backup} = ∅ :=
      Set.subset_empty_iff.mp (empty ▸ fun router kind => ⟨kind.1, kind.2.1⟩)
    rw [if_pos (noBackup.mpr none)]
    rcases other with ⟨_, nothing⟩ | ⟨router, member, _⟩
    · rw [nothing]
    · rw [(filter_eq_nil met).mpr empty] at member
      cases member
  · rw [if_neg fun zero => nonempty.ne_empty (noDesignated.mp zero)]
    exact designated.wins metToo distinct nonempty
  · rw [if_pos (noDesignated.mpr empty)]

/-- A router with one neighbor, which declares itself designated router. -/
def pairServer : OSPFServer where
  routerId := 1
  ent := ⟨1, 0x0a000001, 0, 0, [⟨⟨"10.0.0.2", 1⟩, ⟨true, 1, 0x0a000002, 0, 0x0a000002⟩⟩].toAList⟩
  neighborConfigMap := [⟨⟨"10.0.0.2", 1⟩, 2⟩].toAList

/-- The neighbor is elected, and the router itself becomes its backup. -/
theorem election_winners_pair :
    Wins {router ∈ pairServer.routers | router.NotDesignated} (pairServer.electBDR .stored) ∧
      Wins {router ∈ pairServer.routers | router.Designated}
        (pairServer.electDR .stored (pairServer.electBDR .stored)) ∧
      pairServer.electBDR .stored = (0x0a000001, 1) ∧
      pairServer.electDR .stored (pairServer.electBDR .stored) = (0x0a000002, 2) := by
  have members : pairServer.routers = {pairServer.self,
      pairServer.neighbor (⟨"10.0.0.2", 1⟩, ⟨true, 1, 0x0a000002, 0, 0x0a000002⟩)} := by
    ext router
    rw [← pairServer.mem_listed .stored ""]
    exact mem_pair.trans or_comm
  have distinct : Set.InjOn Router.routerId pairServer.routers := by
    rw [members]
    rintro _ (rfl | rfl) _ (rfl | rfl) same <;> first | rfl | exact absurd same (by decide)
  obtain ⟨-, other, -, designated, -⟩ :=
    election_winners pairServer .stored distinct (pairServer.electBDR .stored)
  refine ⟨other ?_ ⟨pairServer.self, .inl rfl, by decide⟩, designated ⟨pairServer.neighbor
    (⟨"10.0.0.2", 1⟩, ⟨true, 1, 0x0a000002, 0, 0x0a000002⟩), ?_, by decide⟩, by decide, by decide⟩
  · rw [Set.eq_empty_iff_forall_notMem, members]
    rintro _ ⟨rfl | rfl, kind⟩ <;> exact absurd kind (by decide)
  · rw [members]
    exact .inr rfl

/-- Two servers that know of the same routers elect the same ones. -/
theorem election_agrees (peer : OSPFServer) (order' : MapOrder)
    (distinct : Set.InjOn Router.routerId server.routers) (same : peer.routers = server.routers) :
    peer.electBDR order' = server.electBDR order ∧ ∀ electedBDR,
      peer.electDR order' electedBDR = server.electDR order electedBDR := by
  have lead (site : String) {p : Router → Prop} [DecidablePred p]
      (kind : ∀ router, p router → router.Eligible) :
      peer.lead order' site p = server.lead order site p :=
    (leads_foldl kind _).agree (same ▸ peer.mem_listed order' site) distinct
      (server.mem_listed order site) (leads_foldl kind _)
  constructor
  · rw [peer.electBDR_eq, server.electBDR_eq, lead _ fun _ kind => kind.1.1,
      lead _ fun _ kind => kind.1]
  · intro electedBDR
    rw [peer.electDR_eq, server.electDR_eq, lead _ fun _ kind => kind.1]

/-- The neighbor of the router of the pair, which knows of the same two. -/
def peerServer : OSPFServer where
  routerId := 2
  ent := ⟨1, 0x0a000002, 0x0a000002, 0, [⟨⟨"10.0.0.1", 1⟩, ⟨true, 1, 0, 0, 0x0a000001⟩⟩].toAList⟩
  neighborConfigMap := [⟨⟨"10.0.0.1", 1⟩, 1⟩].toAList

/-- Each of the two routers elects the same backup. -/
theorem election_agrees_pair : peerServer.electBDR .stored = pairServer.electBDR .stored := by
  have own (router : Router) : router ∈ pairServer.routers ↔
      router ∈ [peerServer.self, pairServer.self] := (pairServer.mem_listed .stored "" router).symm
  have peers (router : Router) : router ∈ peerServer.routers ↔
      router ∈ [pairServer.self, peerServer.self] := (peerServer.mem_listed .stored "" router).symm
  refine (election_agrees pairServer .stored peerServer .stored ?_ ?_).1
  · intro one oneIn two twoIn same
    rw [own, mem_pair] at oneIn twoIn
    rcases oneIn with rfl | rfl <;> rcases twoIn with rfl | rfl <;>
      first | rfl | exact absurd same (by decide)
  · ext router
    rw [own, peers, mem_pair, mem_pair, or_comm]

end Election

end FlexSwitch.Ospf
