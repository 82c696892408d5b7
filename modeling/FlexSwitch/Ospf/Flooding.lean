import FlexSwitch.Ospf.CheckSum
import FlexSwitch.Ospf.Lsa

/-! Flooding of a received advertisement over the interfaces of its area. -/

namespace FlexSwitch.Ospf

open Go List Outcome

variable {κ ν : Type}

/-- What the header of a packet takes from an interface, and the address it is told apart by. -/
structure FloodIntf where
  ifIpAddr : UInt32
  ifAreaId : UInt32
  ifAuthType : UInt16
  ifAuthKey : Bytes
deriving DecidableEq

/-- A neighbor; its state counts from 1 (down) to 8 (full). -/
structure FloodNbr (κ : Type) where
  intfConfKey : κ
  isDRBDR : Bool
  ospfNbrState : Nat

def nbrExchange : Nat := 6

/-- What flooding reads of the server, for keys of interfaces and of neighbors. -/
structure FloodServer (κ ν : Type) where
  routerId : Bytes
  intfConfMap : GoMap κ FloodIntf
  neighborConfigMap : GoMap ν (FloodNbr κ)
  ospfIntfToNbrMap : GoMap κ (List ν)

/-- An advertisement to flood: the neighbor it came from, its area, its type and its bytes. -/
structure FloodMsg (ν : Type) where
  nbrKey : ν
  areaId : UInt32
  lsType : UInt8
  pkt : Bytes

/-- `copy` into a field of zeros. -/
def field (size : Nat) (value : Bytes) : Bytes := (value ++ zeros size).take size

def lsUpdateType : UInt8 := 4

/-- The fields of the header; the checksum and the key are put in later. -/
def encodeOspfHdr (pktType : UInt8) (pktlen : UInt16) (routerId areaId : Bytes)
    (authType : UInt16) : Bytes :=
  [2, pktType] ++ uint16Bytes pktlen ++ field 4 routerId ++ field 4 areaId ++ [0, 0] ++
    uint16Bytes authType ++ zeros 8

theorem field_length (size : Nat) (value : Bytes) : (field size value).length = size := by
  simp [field]

/-- What is stored inside a header leaves all that is behind it as it is. -/
theorem storeAt_header (header rest : Bytes) (position : Nat) (data : Bytes)
    (room : position + data.length ≤ header.length) :
    ∃ stored : Bytes, stored.length = header.length ∧
      storeAt (header ++ rest) position data = (.ok (stored ++ rest) : Outcome Unit Bytes) := by
  have split : header = header.take position ++ header.drop position :=
    (take_append_drop position header).symm
  have placed : (header.take position).length = position := by
    rw [length_take]
    omega
  refine ⟨header.take position ++ data ++ (header.drop position).drop data.length, ?_, ?_⟩
  · simp only [length_append, length_drop, placed]
    omega
  · have behind : data.length ≤ (header.drop position ++ rest).length := by
      simp only [length_append, length_drop]
      omega
    have written := storeAt_append (header.take position) (header.drop position ++ rest) data
      behind (ε := Unit)
    rw [placed, ← append_assoc, ← split, drop_append_of_le_length (by rw [length_drop]; omega),
      ← append_assoc] at written
    exact written

namespace FloodServer

/-- The payloads on top of a buffer, one interface after the other. -/
def stacked (payload : Bytes) : Bytes → List (κ × FloodIntf) → List (κ × Bytes)
  | _, [] => []
  | buffer, entry :: entries =>
    (entry.1, buffer ++ payload) :: stacked payload (buffer ++ payload) entries

/-- Payloads that are all the same are at most one, and go to the interfaces they were made for. -/
theorem stacked_eq_map {payload : Bytes} (some : payload ≠ [])
    {entries others : List (κ × FloodIntf)} :
    stacked payload [] entries = others.map (fun entry => (entry.1, payload)) ↔
      entries.map Prod.fst = others.map Prod.fst ∧ entries.length ≤ 1 := by
  -- The second payload would stand on top of the first.
  rcases entries with _ | ⟨first, _ | ⟨second, rest⟩⟩ <;>
    rcases others with _ | ⟨one, _ | ⟨two, more⟩⟩ <;> simp [stacked, some]

/-- The OSPF packet of `BuildLsaUpdPkt`, without the headers that are put around it. -/
def buildLsaUpdPkt (server : FloodServer κ ν) (ent : FloodIntf) (lsaUpdEnc : Bytes) :
    Outcome Unit Bytes := do
  let ospfEncHdr := encodeOspfHdr lsUpdateType (UInt16.ofNat (24 + lsaUpdEnc.length))
    server.routerId (uint32Bytes ent.ifAreaId) ent.ifAuthType
  let csum ← computeCheckSum (ospfEncHdr ++ lsaUpdEnc)
  let ospf ← storeAt (ospfEncHdr ++ lsaUpdEnc) 12 (uint16Bytes csum)
  -- `copy(ospf[16:24], ent.IfAuthKey)`
  storeAt ospf 16 (ent.ifAuthKey.take 8)

/-- A packet is its header and what is given, if that makes up whole words. -/
theorem buildLsaUpdPkt_eq (server : FloodServer κ ν) (ent : FloodIntf) (lsaUpdEnc : Bytes) :
    if lsaUpdEnc.length % 2 = 0 then
      ∃ header, header.length = 24 ∧
        server.buildLsaUpdPkt ent lsaUpdEnc = .ok (header ++ lsaUpdEnc)
    else server.buildLsaUpdPkt ent lsaUpdEnc = .panic := by
  have size : (encodeOspfHdr lsUpdateType (UInt16.ofNat (24 + lsaUpdEnc.length)) server.routerId
      (uint32Bytes ent.ifAreaId) ent.ifAuthType).length = 24 := by
    simp [encodeOspfHdr, field_length]
  rw [buildLsaUpdPkt]
  generalize encodeOspfHdr lsUpdateType _ server.routerId _ ent.ifAuthType = header at size
  simp only [computeCheckSum, addWords_eq, length_append, size]
  by_cases even : lsaUpdEnc.length % 2 = 0
  · -- The checksum and the key are stored inside the header.
    have whole : (24 + lsaUpdEnc.length) % 2 = 0 := by omega
    simp only [even, whole, if_true, ok_bind, pure_eq]
    generalize sum : uint16Bytes _ = csum
    have two : csum.length = 2 := by rw [← sum, uint16Bytes_length]
    obtain ⟨summed, wide, stored⟩ := storeAt_header header lsaUpdEnc 12 csum (by omega)
    obtain ⟨keyed, wider, signed⟩ := storeAt_header summed lsaUpdEnc 16 (ent.ifAuthKey.take 8)
      (by rw [length_take]; omega)
    exact ⟨keyed, by omega, by rw [stored, ok_bind, signed]⟩
  · have odd : (24 + lsaUpdEnc.length) % 2 ≠ 0 := by omega
    simp [even, odd]

variable [DecidableEq κ] [DecidableEq ν] [Inhabited κ]

variable (server : FloodServer κ ν) (msg : FloodMsg ν)

/-- `NeighborConfigMap[nbr]`, which is zero where there is no entry. -/
def nbrConf (nbr : ν) : FloodNbr κ :=
  (server.neighborConfigMap.lookup nbr).getD ⟨default, false, 0⟩

/-- The interface of the neighbor; where there is none, its address is equal to no other. -/
def rxIntf : Option FloodIntf :=
  server.intfConfMap.lookup (server.nbrConf msg.nbrKey).intfConfKey

/-- Each neighbor overwrites what the ones before it gave. -/
def interfaceFloodCheck (key : κ) : Bool :=
  ((server.ospfIntfToNbrMap.lookup key).getD []).foldl
    (fun _ nbr => !decide ((server.nbrConf nbr).ospfNbrState < nbrExchange)) false

def nbrFloodCheck (key : κ) : Bool :=
  if (server.nbrConf msg.nbrKey).intfConfKey = key ∧ (server.nbrConf msg.nbrKey).isDRBDR ∧
      msg.lsType ≠ summary3LSA ∧ msg.lsType ≠ summary4LSA then false
  else server.interfaceFloodCheck key

/-- One interface of the loop; the buffer is the one of the interfaces before it. -/
def selFloodRound (state : Bytes × List (κ × Bytes)) (entry : κ × FloodIntf) :
    Outcome Unit (Bytes × List (κ × Bytes)) :=
  if some entry.2.ifIpAddr = (server.rxIntf msg).map (·.ifIpAddr) ∨
      msg.areaId ≠ entry.2.ifAreaId then .ok state
  else if server.nbrFloodCheck msg entry.1 then do
    let lsaEncPkt := state.1 ++ uint32Bytes 1 ++ msg.pkt
    let pkt ← server.buildLsaUpdPkt entry.2 lsaEncPkt
    return (lsaEncPkt, state.2 ++ [(entry.1, pkt)])
  else .ok state

def intfs (order : MapOrder) : List (κ × FloodIntf) :=
  order.range "LSASELFLOOD" server.intfConfMap

/-- `processFloodMsg` with `LSASELFLOOD`: the packets sent, and the interfaces they are sent on. -/
def processFloodMsg (order : MapOrder) : Outcome Unit (List (κ × Bytes)) := do
  return (← (server.intfs order).foldlM (server.selFloodRound msg) ([], [])).2

/-- The neighbors of an interface, in the order in which they are looked at. -/
def nbrs (key : κ) : List ν := (server.ospfIntfToNbrMap.lookup key).getD []

/-- Another interface of the area with a neighbor that is in Exchange or later. -/
def eligible (entry : κ × FloodIntf) : Bool :=
  entry.1 ≠ (server.nbrConf msg.nbrKey).intfConfKey ∧ entry.2.ifAreaId = msg.areaId ∧
    ∃ nbr ∈ server.nbrs entry.1, nbrExchange ≤ (server.nbrConf nbr).ospfNbrState

/-- The payloads of packets, behind their headers of 24 bytes. -/
def payloads (sent : List (κ × Bytes)) : List (κ × Bytes) :=
  sent.map fun packet => (packet.1, packet.2.drop 24)

/-- Every order floods the advertisement once on each eligible interface, and on no other. -/
def FloodsEligible : Prop :=
  ∀ order : MapOrder, ∃ sent, server.processFloodMsg msg order = .ok sent ∧
    payloads sent = ((server.intfs order).filter (server.eligible msg)).map
      fun entry => (entry.1, uint32Bytes 1 ++ msg.pkt)

/-- The interface has an address of its own, and its last neighbor is in Exchange or later. -/
def Distinguished (entry : κ × FloodIntf) : Prop :=
  some entry.2.ifIpAddr ≠ (server.rxIntf msg).map (·.ifIpAddr) ∧
    ∃ nbr ∈ (server.nbrs entry.1).getLast?, nbrExchange ≤ (server.nbrConf nbr).ospfNbrState

instance (entry : κ × FloodIntf) : Decidable (server.Distinguished msg entry) :=
  inferInstanceAs (Decidable (_ ∧ _))

/-- The interfaces that the loop sends on. -/
def sends (entry : κ × FloodIntf) : Bool :=
  entry.2.ifAreaId = msg.areaId ∧ server.Distinguished msg entry

variable {server msg}

/-- The last neighbor of the list decides. -/
theorem interfaceFloodCheck_iff (key : κ) : server.interfaceFloodCheck key = true ↔
    ∃ nbr ∈ (server.nbrs key).getLast?, nbrExchange ≤ (server.nbrConf nbr).ospfNbrState := by
  rw [interfaceFloodCheck, nbrs]
  induction (server.ospfIntfToNbrMap.lookup key).getD [] using reverseRecOn with
  | nil => simp
  | append_singleton front last _ => simp

/-- Every interface that sends appends the count and the advertisement to the shared buffer. -/
theorem selFloodRound_eq {entry : κ × FloodIntf}
    (held : server.intfConfMap.lookup entry.1 = some entry.2)
    (state : Bytes × List (κ × Bytes)) :
    server.selFloodRound msg state entry = if server.sends msg entry then do
        let lsaEncPkt := state.1 ++ (uint32Bytes 1 ++ msg.pkt)
        let pkt ← server.buildLsaUpdPkt entry.2 lsaEncPkt
        return (lsaEncPkt, state.2 ++ [(entry.1, pkt)])
      else .ok state := by
  by_cases same : some entry.2.ifIpAddr = (server.rxIntf msg).map (·.ifIpAddr)
  · simp [selFloodRound, sends, Distinguished, same]
  · -- The interface of the neighbor has its own address, so the first check never applies.
    have apart : (server.nbrConf msg.nbrKey).intfConfKey ≠ entry.1 := by
      intro equal
      rw [rxIntf, equal, held] at same
      exact same rfl
    have checked : server.nbrFloodCheck msg entry.1 = true ↔
        ∃ nbr ∈ (server.nbrs entry.1).getLast?,
          nbrExchange ≤ (server.nbrConf nbr).ospfNbrState := by
      rw [← interfaceFloodCheck_iff, nbrFloodCheck, if_neg fun both => apart both.1]
    by_cases area : entry.2.ifAreaId = msg.areaId
    · simp only [selFloodRound, sends, Distinguished, same, area, checked, ne_eq, not_true,
        not_false_eq_true, or_self, if_false, true_and, decide_eq_true_eq, append_assoc]
    · have other : msg.areaId ≠ entry.2.ifAreaId := fun equal => area equal.symm
      simp [selFloodRound, sends, area, other]

variable (server msg) in
/-- With a buffer of whole words, all is sent unless a packet of the advertisement is odd. -/
theorem foldlM_selFloodRound {entries : List (κ × FloodIntf)}
    (held : ∀ entry ∈ entries, server.intfConfMap.lookup entry.1 = some entry.2)
    (buffer : Bytes) (even : buffer.length % 2 = 0) (sent : List (κ × Bytes)) :
    if entries.filter (server.sends msg) = [] ∨ msg.pkt.length % 2 = 0 then
      ∃ last, entries.foldlM (server.selFloodRound msg) (buffer, sent) = .ok last ∧
        payloads last.2 = payloads sent ++
          stacked (uint32Bytes 1 ++ msg.pkt) buffer (entries.filter (server.sends msg))
    else entries.foldlM (server.selFloodRound msg) (buffer, sent) = .panic := by
  -- By induction on the interfaces that are left, for any buffer.
  induction entries generalizing buffer sent with
  | nil => simp [stacked]
  | cons entry entries ih =>
    rw [forall_mem_cons] at held
    rw [foldlM_cons, selFloodRound_eq held.1]
    by_cases sends : server.sends msg entry = true
    · have size : (buffer ++ (uint32Bytes 1 ++ msg.pkt)).length =
          buffer.length + 4 + msg.pkt.length := by
        simp only [length_append, uint32Bytes_length]
        omega
      have built := server.buildLsaUpdPkt_eq entry.2 (buffer ++ (uint32Bytes 1 ++ msg.pkt))
      simp only [sends, if_true, filter_cons_of_pos, reduceCtorEq, false_or]
      by_cases whole : msg.pkt.length % 2 = 0
      · have whole_buffer : (buffer ++ (uint32Bytes 1 ++ msg.pkt)).length % 2 = 0 := by omega
        rw [if_pos whole_buffer] at built
        obtain ⟨header, wide, made⟩ := built
        have rest := ih held.2 _ whole_buffer (sent ++ [(entry.1, header ++ (buffer ++
          (uint32Bytes 1 ++ msg.pkt)))])
        rw [if_pos (Or.inr whole)] at rest
        obtain ⟨last, run, paid⟩ := rest
        rw [if_pos whole, made]
        refine ⟨last, run, ?_⟩
        rw [paid, payloads, map_append, append_assoc]
        simp [payloads, stacked, ← wide]
      · rw [if_neg (by omega)] at built
        rw [if_neg whole, built]
        rfl
    · simpa only [sends, Bool.false_eq_true, if_false, ok_bind, filter_cons_of_neg,
        not_false_eq_true] using ih held.2 buffer even sent

variable (server msg) in
theorem processFloodMsg_eq (order : MapOrder) :
    if (server.intfs order).filter (server.sends msg) = [] ∨ msg.pkt.length % 2 = 0 then
      ∃ sent, server.processFloodMsg msg order = .ok sent ∧ payloads sent =
        stacked (uint32Bytes 1 ++ msg.pkt) [] ((server.intfs order).filter (server.sends msg))
    else server.processFloodMsg msg order = .panic := by
  have held : ∀ entry ∈ server.intfs order, server.intfConfMap.lookup entry.1 = some entry.2 :=
    fun _ => MapOrder.mem_range.mp
  have run := server.foldlM_selFloodRound msg held [] rfl []
  by_cases sound : (server.intfs order).filter (server.sends msg) = [] ∨ msg.pkt.length % 2 = 0
  · rw [if_pos sound] at run ⊢
    obtain ⟨last, done, paid⟩ := run
    exact ⟨last.2, by rw [processFloodMsg, done]; rfl, paid⟩
  · rw [if_neg sound] at run ⊢
    rw [processFloodMsg, run]
    rfl

omit [DecidableEq ν] [Inhabited κ] in
/-- An interface is found by its key, so selections of the same keys select the same. -/
theorem mem_of_keys {order : MapOrder} {p q : κ × FloodIntf → Bool}
    (keys : ((server.intfs order).filter p).map Prod.fst =
      ((server.intfs order).filter q).map Prod.fst)
    {entry : κ × FloodIntf} (member : entry ∈ server.intfs order) (chosen : p entry = true) :
    q entry = true := by
  have listed : entry.1 ∈ ((server.intfs order).filter q).map Prod.fst := by
    rw [← keys]
    exact mem_map_of_mem (mem_filter.mpr ⟨member, chosen⟩)
  obtain ⟨other, kept, same⟩ := mem_map.mp listed
  obtain ⟨present, right⟩ := mem_filter.mp kept
  have equal : other.2 = entry.2 := by
    have found := MapOrder.mem_range.mp present
    rw [same, MapOrder.mem_range.mp member] at found
    exact (Option.some.inj found).symm
  rwa [← Prod.ext same equal]

/-- The interface the advertisement came in on is told by its address. -/
theorem eligible_of_sends {order : MapOrder} {entry : κ × FloodIntf}
    (member : entry ∈ server.intfs order) (sends : server.sends msg entry = true) :
    server.eligible msg entry = true := by
  have held := MapOrder.mem_range.mp member
  rw [FloodServer.sends, decide_eq_true_eq] at sends
  obtain ⟨area, address, nbr, last, late⟩ := sends
  rw [eligible, decide_eq_true_eq]
  refine ⟨?_, area, nbr, mem_of_getLast? last, late⟩
  intro equal
  rw [rxIntf, ← equal, held] at address
  exact address rfl

/--
Flooding is complete just when each eligible interface is told apart by its address and by its last
neighbor, when there is only one of them, and when the advertisement has an even length.

The receiving interface is told by its address, each neighbor overwrites the decision of the one
before it, the buffer is never emptied, and the checksum of a packet reads two bytes at a time.
-/
theorem floodsEligible_iff : server.FloodsEligible msg ↔
    (∀ entry ∈ server.intfs .stored, server.eligible msg entry →
      server.Distinguished msg entry ∧ msg.pkt.length % 2 = 0) ∧
    (server.intfs .stored).countP (server.eligible msg) ≤ 1 := by
  constructor
  · intro floods
    obtain ⟨sent, done, paid⟩ := floods .stored
    have run := server.processFloodMsg_eq msg .stored
    by_cases sound : (server.intfs .stored).filter (server.sends msg) = [] ∨
        msg.pkt.length % 2 = 0
    · rw [if_pos sound] at run
      obtain ⟨packets, ran, stack⟩ := run
      obtain rfl : packets = sent := by simpa [ran] using done
      rw [stack, stacked_eq_map (by simp [uint32Bytes])] at paid
      obtain ⟨keys, one⟩ := paid
      have counted := congrArg length keys
      simp only [length_map] at counted
      refine ⟨?_, by rwa [countP_eq_length_filter, ← counted]⟩
      intro entry member eligible
      have sends := mem_of_keys keys.symm member eligible
      have present := mem_filter.mpr ⟨member, sends⟩
      refine ⟨?_, sound.resolve_left (ne_nil_of_mem present)⟩
      rw [FloodServer.sends, decide_eq_true_eq] at sends
      exact sends.2
    · rw [if_neg sound] at run
      simp [run] at done
  · rintro ⟨apart, one⟩ order
    have visited : (server.intfs order).Perm (server.intfs .stored) := order.perm _ _
    have same : (server.intfs order).filter (server.sends msg) =
        (server.intfs order).filter (server.eligible msg) := by
      refine filter_congr fun entry member => Bool.eq_iff_iff.mpr
        ⟨eligible_of_sends member, fun eligible => ?_⟩
      have distinguished := (apart entry (visited.mem_iff.mp member) eligible).1
      rw [FloodServer.eligible, decide_eq_true_eq] at eligible
      rw [FloodServer.sends, decide_eq_true_eq]
      exact ⟨eligible.2.1, distinguished⟩
    have run := server.processFloodMsg_eq msg order
    have sound : (server.intfs order).filter (server.sends msg) = [] ∨
        msg.pkt.length % 2 = 0 := by
      refine or_iff_not_imp_left.mpr fun some => ?_
      obtain ⟨entry, present⟩ := exists_mem_of_ne_nil _ some
      rw [same, mem_filter] at present
      exact (apart entry (visited.mem_iff.mp present.1) present.2).2
    rw [if_pos sound] at run
    obtain ⟨sent, done, stack⟩ := run
    refine ⟨sent, done, ?_⟩
    rw [stack, stacked_eq_map (by simp [uint32Bytes]), same, ← countP_eq_length_filter]
    exact ⟨rfl, (visited.countP_eq _).trans_le one⟩

/-- Two interfaces in area zero beside the one of the neighbor, each with a full neighbor. -/
def floodedServer : FloodServer Nat Nat where
  routerId := [1, 1, 1, 1]
  intfConfMap := [⟨0, ⟨1, 0, 0, []⟩⟩, ⟨1, ⟨2, 0, 0, []⟩⟩, ⟨2, ⟨3, 0, 0, []⟩⟩].toAList
  neighborConfigMap := [⟨0, ⟨0, false, 8⟩⟩, ⟨1, ⟨1, false, 8⟩⟩, ⟨2, ⟨2, false, 8⟩⟩,
    ⟨3, ⟨1, false, 4⟩⟩].toAList
  ospfIntfToNbrMap := [⟨0, [0]⟩, ⟨1, [1]⟩, ⟨2, [2]⟩].toAList

/-- The second packet carries the advertisement twice. -/
theorem flooded_twice : ∃ sent,
    floodedServer.processFloodMsg ⟨0, 0, 1, [9, 9]⟩ .stored = .ok sent ∧ payloads sent =
      [(1, [0, 0, 0, 1, 9, 9]), (2, [0, 0, 0, 1, 9, 9, 0, 0, 0, 1, 9, 9])] :=
  ⟨_, rfl, by decide⟩

/-- Interface 1 is flooded for its second neighbor, and interface 2, whose only one is down, is not. -/
theorem floodsEligible_second_neighbor :
    FloodsEligible { floodedServer with
      ospfIntfToNbrMap := [⟨0, [0]⟩, ⟨1, [3, 1]⟩, ⟨2, [3]⟩].toAList } ⟨0, 0, 1, [9, 9]⟩ :=
  floodsEligible_iff.mpr (by decide)

end FloodServer

end FlexSwitch.Ospf
