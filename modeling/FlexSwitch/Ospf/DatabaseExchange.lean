import FlexSwitch.Go.Bytes

/-! Database description: which headers of a neighbor's summary list are sent. -/

namespace FlexSwitch.Ospf

open List

variable {ι : Type}

/-- One header of the summary list, until it is sent. -/
structure DBSummary (ι : Type) where
  valid : Bool
  lsaHeaders : ι
deriving DecidableEq

structure DatabaseDescriptionData (ι : Type) where
  options : UInt8
  interfaceMtu : UInt16
  ddSequenceNumber : UInt32
  ibit : Bool
  mbit : Bool
  msbit : Bool
  lsaHeaders : List ι
deriving DecidableEq

def intfMtuMin : Nat := 1500

def ospfHeaderSize : Nat := 24

def ospfDbdMinSize : Nat := 8

def ospfLsaHeaderSize : Nat := 20

def calculateMaxLsaHeaders : UInt8 :=
  UInt8.ofNat ((intfMtuMin - (ospfDbdMinSize + ospfHeaderSize)) / ospfLsaHeaderSize)

/-- The length of the OSPF packet that is built of a description, without the IP header. -/
def DatabaseDescriptionData.pktLen (dbdMdata : DatabaseDescriptionData ι) : Nat :=
  ospfHeaderSize + ospfDbdMinSize + ospfLsaHeaderSize * dbdMdata.lsaHeaders.length

/-- One round over the list: the headers so far, how many are attached and how many were done. -/
def attachHeader (state : List ι × Nat × Nat) (entry : DBSummary ι) : List ι × Nat × Nat :=
  if entry.valid then (state.1 ++ [entry.lsaHeaders], state.2.1 + 1, state.2.2)
  else (state.1, state.2.1, state.2.2 + 1)

/--
`ConstructAndSendDbdPacket` with `append_lsa`, and the list it leaves behind.

The index is a `uint8`, and so is the length it is compared with.
-/
def constructAndSendDbdPacket (dbdMdata : DatabaseDescriptionData ι)
    (dbList : List (DBSummary ι)) : DatabaseDescriptionData ι × List (DBSummary ι) :=
  let reach := (UInt8.ofNat dbList.length).toNat
  let (lsaHeaders, lsaCountAtt, lsaCountDone) := (dbList.take reach).foldl attachHeader ([], 0, 0)
  ({ dbdMdata with
      lsaHeaders := lsaHeaders
      mbit := if lsaCountAtt + lsaCountDone = dbList.length then false else dbdMdata.mbit },
    (dbList.take reach).map (fun entry => { entry with valid := false }) ++ dbList.drop reach)

/-- The packets of one call after the other. -/
def dbdPackets : List (DatabaseDescriptionData ι) → List (DBSummary ι) →
    List (DatabaseDescriptionData ι)
  | [], _ => []
  | call :: calls, dbList =>
    (constructAndSendDbdPacket call dbList).1 ::
      dbdPackets calls (constructAndSendDbdPacket call dbList).2

def validHeaders (dbList : List (DBSummary ι)) : List ι :=
  (dbList.filter (·.valid)).map (·.lsaHeaders)

/-- The calls describe a list: each valid header once, in packets that fit, the last one marked. -/
structure DescribesAll (dbList : List (DBSummary ι)) (calls : List (DatabaseDescriptionData ι)) :
    Prop where
  each : (dbdPackets calls dbList).flatMap (·.lsaHeaders) = validHeaders dbList
  fits : ∀ pkt ∈ dbdPackets calls dbList, pkt.pktLen ≤ intfMtuMin
  more : ∀ sent pkt rest, dbdPackets calls dbList = sent ++ pkt :: rest →
    (pkt.mbit = false ↔ (sent ++ [pkt]).flatMap (·.lsaHeaders) = validHeaders dbList)

theorem foldl_attachHeader (entries : List (DBSummary ι)) (headers : List ι) (att done : Nat) :
    ∃ more less, entries.foldl attachHeader (headers, att, done) =
      (headers ++ validHeaders entries, att + more, done + less) ∧
        more + less = entries.length := by
  -- Each entry is counted on one side, and only valid ones are appended.
  induction entries generalizing headers att done with
  | nil => exact ⟨0, 0, by simp [validHeaders], rfl⟩
  | cons entry entries ih =>
    cases valid : entry.valid with
    | true =>
      obtain ⟨more, less, rest, counted⟩ := ih (headers ++ [entry.lsaHeaders]) (att + 1) done
      refine ⟨more + 1, less, ?_, by simp; omega⟩
      simp [attachHeader, valid, rest, validHeaders]
      omega
    | false =>
      obtain ⟨more, less, rest, counted⟩ := ih headers att (done + 1)
      refine ⟨more, less + 1, ?_, by simp; omega⟩
      simp [attachHeader, valid, rest, validHeaders]
      omega

/-- What one call sends and leaves, where `reach` entries are read. -/
theorem constructAndSendDbdPacket_eq (call : DatabaseDescriptionData ι)
    (dbList : List (DBSummary ι)) :
    (constructAndSendDbdPacket call dbList).1.lsaHeaders =
        validHeaders (dbList.take (dbList.length % 256)) ∧
      (constructAndSendDbdPacket call dbList).1.mbit =
        (if dbList.length < 256 then false else call.mbit) ∧
      (constructAndSendDbdPacket call dbList).2.length = dbList.length ∧
      validHeaders (constructAndSendDbdPacket call dbList).2 =
        validHeaders (dbList.drop (dbList.length % 256)) := by
  obtain ⟨more, less, read, counted⟩ :=
    foldl_attachHeader (dbList.take (dbList.length % 256)) [] 0 0
  have all : more + less = dbList.length ↔ dbList.length < 256 := by
    rw [counted, length_take]
    omega
  refine ⟨?_, ?_, ?_, ?_⟩
  · simp [constructAndSendDbdPacket, read]
  · simp [constructAndSendDbdPacket, read, all]
  · simp [constructAndSendDbdPacket]
    omega
  · simp [constructAndSendDbdPacket, validHeaders, -map_take]

/-- All valid headers go into the first packet, if the length of the list fits an index. -/
theorem dbdPackets_headers {dbList : List (DBSummary ι)} (short : dbList.length < 256)
    {calls : List (DatabaseDescriptionData ι)} (some : calls ≠ []) :
    ∃ first rest, dbdPackets calls dbList = first :: rest ∧
      first.lsaHeaders = validHeaders dbList ∧ first.mbit = false ∧
      ∀ pkt ∈ rest, pkt.lsaHeaders = [] ∧ pkt.mbit = false := by
  have whole : dbList.length % 256 = dbList.length := Nat.mod_eq_of_lt short
  rcases calls with _ | ⟨call, calls⟩
  · exact absurd rfl some
  obtain ⟨headers, mbit, length, left⟩ := constructAndSendDbdPacket_eq call dbList
  rw [whole] at headers left
  refine ⟨_, _, rfl, by simpa using headers, by simpa [short] using mbit, ?_⟩
  -- Nothing valid is left behind, so the later calls send nothing.
  have empty : validHeaders (constructAndSendDbdPacket call dbList).2 = [] := by
    rw [left, drop_length]
    rfl
  rw [← length] at short
  generalize (constructAndSendDbdPacket call dbList).2 = later at short empty
  clear some headers mbit length left whole
  induction calls generalizing later with
  | nil => simp [dbdPackets]
  | cons call calls ih =>
    obtain ⟨headers, mbit, length, left⟩ := constructAndSendDbdPacket_eq call later
    rw [Nat.mod_eq_of_lt short] at headers left
    rw [dbdPackets, forall_mem_cons]
    refine ⟨⟨?_, by simpa [short] using mbit⟩, ih _ (by omega) ?_⟩
    · simpa [empty] using headers
    · rw [left, drop_length]
      rfl

/-- A list is described just when its length fits an index and its headers fit a packet. -/
theorem describesAll_iff (dbList : List (DBSummary ι)) :
    (∀ calls : List (DatabaseDescriptionData ι), calls ≠ [] → DescribesAll dbList calls) ↔
      dbList.length < 256 ∧ (validHeaders dbList).length ≤ calculateMaxLsaHeaders.toNat := by
  have limit : calculateMaxLsaHeaders.toNat = 73 := rfl
  constructor
  · intro described
    -- A single call with the M bit set shows what goes wrong.
    obtain ⟨each, fits, more⟩ := described [⟨0, 0, 0, false, true, false, []⟩] (by simp)
    obtain ⟨headers, mbit, _, _⟩ := constructAndSendDbdPacket_eq
      ⟨0, 0, 0, false, true, false, []⟩ dbList
    simp only [dbdPackets, flatMap_singleton] at each
    have cleared := (more [] _ [] rfl).mpr (by simpa using each)
    rw [mbit] at cleared
    have short : dbList.length < 256 := by
      by_contra long
      rw [if_neg long] at cleared
      cases cleared
    refine ⟨short, ?_⟩
    have room := fits _ (mem_singleton.mpr rfl)
    rw [DatabaseDescriptionData.pktLen, each] at room
    simp only [ospfHeaderSize, ospfDbdMinSize, ospfLsaHeaderSize, intfMtuMin] at room
    omega
  · rintro ⟨short, few⟩ calls some
    obtain ⟨first, rest, packets, headers, mbit, later⟩ := dbdPackets_headers short some
    have nothing : rest.flatMap (·.lsaHeaders) = [] :=
      flatMap_eq_nil_iff.mpr fun pkt member => (later pkt member).1
    refine ⟨?_, ?_, ?_⟩
    · rw [packets, flatMap_cons, nothing, headers, append_nil]
    · rw [packets, forall_mem_cons]
      refine ⟨?_, fun pkt member => ?_⟩
      · simp only [DatabaseDescriptionData.pktLen, headers, ospfHeaderSize, ospfDbdMinSize,
          ospfLsaHeaderSize, intfMtuMin]
        omega
      · simp [DatabaseDescriptionData.pktLen, (later pkt member).1, ospfHeaderSize,
          ospfDbdMinSize, intfMtuMin]
    · intro sent pkt others split
      rw [packets] at split
      cases sent with
      | nil =>
        cases split
        simp [mbit, headers]
      | cons head sent =>
        cases split
        have quiet : (sent ++ [pkt]).flatMap (·.lsaHeaders) = [] :=
          flatMap_eq_nil_iff.mpr fun one member =>
            (later one (by simp at member ⊢; tauto)).1
        rw [cons_append, flatMap_cons, quiet, headers, append_nil]
        exact ⟨fun _ => rfl, fun _ => (later pkt (by simp)).2⟩

/-- Of 74 headers a packet is made that is too long, and of 256 one without any header. -/
theorem describe_long_lists : ((dbdPackets [⟨2, 1500, 1, false, true, true, []⟩]
      (List.replicate 74 (⟨true, 7⟩ : DBSummary Nat))).map (·.pktLen) = [1512]) ∧
    dbdPackets [⟨2, 1500, 1, false, true, true, []⟩]
        (List.replicate 256 (⟨true, 7⟩ : DBSummary Nat)) =
      [⟨2, 1500, 1, false, true, true, []⟩] := by
  decide +kernel

end FlexSwitch.Ospf
