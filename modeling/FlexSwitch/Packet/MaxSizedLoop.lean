import FlexSwitch.Packing
import FlexSwitch.Packet.MaxSized
import FlexSwitch.Packet.NlriScan

/-! The loops that cut runs of prefixes pack them greedily, and what each of them puts out. -/

namespace FlexSwitch.Packet

open Go List

/-- The packing that a loop over prefixes performs. -/
def chunkRule (baseLen : Nat) : PackingRule NLRI where
  size nlri := nlri.len.toNat
  limit := 4096
  reset := 23
  overhead := baseLen

/-- The messages of the closed bins, one after the other. -/
def emitBins (emit : Bool → List NLRI → Assembly → Assembly) (bins : List (List NLRI))
    (assembly : Assembly) : Assembly :=
  bins.foldl (fun assembly bin => emit (!bin.isEmpty) bin assembly) assembly

/-- A loop over prefixes packs them, and emits each bin as it is closed. -/
theorem chunkLoop_eq {baseLen pktLen : UInt32}
    (small : baseLen.toNat < 2 ^ 31) (begun : pktLen.toNat < 2 ^ 30)
    (emit : Bool → List NLRI → Assembly → Assembly) (assembly : Assembly)
    (nlriList : List NLRI) :
    chunkLoop baseLen emit pktLen assembly nlriList =
      let packing := (chunkRule baseLen.toNat).pack pktLen.toNat nlriList
      ⟨UInt32.ofNat packing.fill, nlriList.length, packing.current,
        emitBins emit packing.closed assembly⟩ := by
  induction nlriList using reverseRecOn with
  | nil => simp [chunkLoop, emitBins]
  | append_singleton items item ih =>
    have fill : ((chunkRule baseLen.toNat).pack pktLen.toNat items).fill < 2 ^ 30 := by
      refine lt_of_le_of_lt ((chunkRule baseLen.toNat).pack_fill_le
        (le_max_left pktLen.toNat 4096) (le_max_right _ _) ?_ items) (by omega)
      intro other
      have size := other.len_le
      show 23 + other.len.toNat ≤ _
      omega
    have looped : chunkLoop baseLen emit pktLen assembly (items ++ [item]) =
        chunkRound baseLen emit (chunkLoop baseLen emit pktLen assembly items) item := by
      simp [chunkLoop]
    -- The index is zero in the first round only, which is when the bin is still empty.
    have first : (items.length != 0) =
        !((chunkRule baseLen.toNat).pack pktLen.toNat items).current.isEmpty := by
      have empty : ((chunkRule baseLen.toNat).pack pktLen.toNat items).current = [] ↔ items = [] :=
        (chunkRule baseLen.toNat).pack_current_eq_nil
      cases items with
      | nil => rfl
      | cons head tail =>
        have filled := mt empty.mp (by simp)
        simp [filled]
    rw [looped, ih, PackingRule.pack_concat]
    generalize (chunkRule baseLen.toNat).pack pktLen.toNat items = packing at *
    have size := item.len_le
    have full : item.len + UInt32.ofNat packing.fill + baseLen > bgpMsgMaxLen ↔
        4096 < item.len.toNat + packing.fill + baseLen.toNat := by
      rw [gt_iff_lt, UInt32.lt_iff_toNat_lt, UInt32.toNat_add, UInt32.toNat_add,
        UInt32.toNat_ofNat']
      simp only [bgpMsgMaxLen, UInt32.reduceToNat]
      omega
    by_cases excess : 4096 < item.len.toNat + packing.fill + baseLen.toNat
    · have packed : (chunkRule baseLen.toNat).add packing item =
          ⟨packing.closed ++ [packing.current], [item], 23 + item.len.toNat⟩ := if_pos excess
      rw [packed]
      simp only [chunkRound, full.mpr excess, if_true, first, emitBins, foldl_append,
        foldl_cons, foldl_nil, nil_append, length_append, length_singleton,
        UInt32.ofNat_add, UInt32.ofNat_toNat]
      rfl
    · have packed : (chunkRule baseLen.toNat).add packing item =
          ⟨packing.closed, packing.current ++ [item], packing.fill + item.len.toNat⟩ :=
        if_neg excess
      rw [packed]
      simp only [chunkRound, mt full.mp excess, if_false, length_append,
        length_singleton, UInt32.ofNat_add, UInt32.ofNat_toNat]

/--
The messages of a run of bins.

The first of them takes the waiting routes along, in its withdrawn routes and in attributes of its
own; `plain` says which part of a bin goes into the prefixes of the message.
-/
def headed (withdrawn : List NLRI) (firstAttrs restAttrs : List NLRI → List BGPPathAttr)
    (plain : List NLRI → List NLRI) : List (List NLRI) → List BGPUpdate
  | [] => []
  | bin :: bins => newBGPUpdateMessage withdrawn (firstAttrs bin) (plain bin) ::
      bins.map fun bin => newBGPUpdateMessage [] (restAttrs bin) (plain bin)

/-- Once nothing is waiting, every bin adds a message and changes nothing else. -/
theorem emitBins_settled (emit : Bool → List NLRI → Assembly → Assembly)
    (rest : List NLRI → BGPUpdate) (assembly : Assembly)
    (settled : ∀ bin msgs, emit (!bin.isEmpty) bin { assembly with newUpdateMsgs := msgs } =
      { assembly with newUpdateMsgs := msgs ++ [rest bin] })
    (bins : List (List NLRI)) (msgs : List BGPUpdate) :
    emitBins emit bins { assembly with newUpdateMsgs := msgs } =
      { assembly with newUpdateMsgs := msgs ++ bins.map rest } := by
  induction bins generalizing msgs with
  | nil => simp [emitBins]
  | cons bin bins ih =>
    have step : emitBins emit (bin :: bins) { assembly with newUpdateMsgs := msgs } =
        emitBins emit bins { assembly with newUpdateMsgs := msgs ++ [rest bin] } := by
      simp only [emitBins, foldl_cons, settled]
    rw [step, ih]
    simp

/-- The first bin takes along what waits, and the others find nothing waiting. -/
theorem emitBins_headed {emit : Bool → List NLRI → Assembly → Assembly} {assembly : Assembly}
    (settled : Assembly) (firstAttrs restAttrs : List NLRI → List BGPPathAttr)
    (plain : List NLRI → List NLRI)
    (first : ∀ bin, emit (!bin.isEmpty) bin assembly = { settled with
        newUpdateMsgs := assembly.newUpdateMsgs ++
          [newBGPUpdateMessage assembly.withdrawnRoutes (firstAttrs bin) (plain bin)] })
    (rest : ∀ bin msgs, emit (!bin.isEmpty) bin { settled with newUpdateMsgs := msgs } =
      { settled with
        newUpdateMsgs := msgs ++ [newBGPUpdateMessage [] (restAttrs bin) (plain bin)] })
    (bins : List (List NLRI)) :
    emitBins emit bins assembly = if bins = [] then assembly else
        { settled with
          newUpdateMsgs := assembly.newUpdateMsgs ++
            headed assembly.withdrawnRoutes firstAttrs restAttrs plain bins } := by
  cases bins with
  | nil => rfl
  | cons bin bins =>
    have later := emitBins_settled emit _ settled rest bins
    rw [if_neg (by simp), headed, append_cons, ← later, ← first]
    rfl

theorem emitBins_withdrawn (bins : List (List NLRI)) (assembly : Assembly) :
    emitBins emitWithdrawn bins assembly = { assembly with
        newUpdateMsgs := assembly.newUpdateMsgs ++
          bins.map fun bin => newBGPUpdateMessage bin [] [] } :=
  emitBins_settled _ _ assembly (fun _ _ => rfl) bins assembly.newUpdateMsgs

/-- The attribute that carries a chunk of unreachable prefixes. -/
def unreachPA (mpUnreach : BGPPathAttrMPUnreachNLRI) (chunk : List NLRI) : BGPPathAttr :=
  .mpUnreachNLRI (constructMPUnreachNLRI mpUnreach.afi mpUnreach.safi chunk)

/-- The attribute that carries a chunk of reachable prefixes. -/
def reachPA (mpReach : BGPPathAttrMPReachNLRI) (chunk : List NLRI) : BGPPathAttr :=
  .mpReachNLRI (cloneMPReachNLRIWithNewNLRI mpReach chunk)

/-- The attributes of a message for a bin of prefixes, next to others. -/
def cutAttrs (others : List BGPPathAttr) (chunkPA : List NLRI → BGPPathAttr) (bin : List NLRI) :
    List BGPPathAttr :=
  if bin = [] then [] else addPathAttrToPathAttrs others (chunkPA bin)

/-- A message of prefixes in an attribute, with everything that is still waiting. -/
def emitCut (others : List BGPPathAttr) (chunkPA : List NLRI → BGPPathAttr) (later : Bool)
    (chunk : List NLRI) (assembly : Assembly) : Assembly :=
  { assembly with
    newUpdateMsgs := assembly.newUpdateMsgs ++ [newBGPUpdateMessage assembly.withdrawnRoutes
      (assembly.pathAttrs.foldl addPathAttrToPathAttrs
        (if later then addPathAttrToPathAttrs others (chunkPA chunk) else [])) []]
    withdrawnRoutes := []
    pathAttrs := [] }

/-- What is left when prefixes were packed anew: the last bin waits. -/
def cutAssembly (assembly : Assembly) (attributes : AttrSlice) (others : List BGPPathAttr)
    (chunkPA : List NLRI → BGPPathAttr) (packing : Packing NLRI) : Assembly :=
  { assembly with
    newUpdateMsgs := assembly.newUpdateMsgs ++ headed assembly.withdrawnRoutes
      (fun bin => assembly.pathAttrs.foldl addPathAttrToPathAttrs (cutAttrs others chunkPA bin))
      (cutAttrs others chunkPA) (fun _ => []) packing.closed
    withdrawnRoutes := if packing.closed = [] then assembly.withdrawnRoutes else []
    pathAttrs := addPathAttrToPathAttrs (if packing.closed = [] then assembly.pathAttrs else [])
      (chunkPA packing.current)
    attributes := attributes }

theorem emitBins_cut (others : List BGPPathAttr) (chunkPA : List NLRI → BGPPathAttr)
    (bins : List (List NLRI)) (assembly : Assembly) :
    emitBins (emitCut others chunkPA) bins assembly = { assembly with
        newUpdateMsgs := assembly.newUpdateMsgs ++ headed assembly.withdrawnRoutes
          (fun bin => assembly.pathAttrs.foldl addPathAttrToPathAttrs (cutAttrs others chunkPA bin))
          (cutAttrs others chunkPA) (fun _ => []) bins
        withdrawnRoutes := if bins = [] then assembly.withdrawnRoutes else []
        pathAttrs := if bins = [] then assembly.pathAttrs else [] } := by
  have attrs (bin : List NLRI) : (if (!bin.isEmpty) = true then
      addPathAttrToPathAttrs others (chunkPA bin) else []) = cutAttrs others chunkPA bin := by
    cases bin <;> simp [cutAttrs]
  rw [emitBins_headed { assembly with withdrawnRoutes := [], pathAttrs := [] }
    (fun bin => assembly.pathAttrs.foldl addPathAttrToPathAttrs _)
    (cutAttrs others chunkPA) (fun _ => []) (fun bin => by rw [emitCut, attrs])
    (fun bin msgs => by rw [emitCut, attrs]; rfl)]
  cases bins with
  | nil => simp [headed]
  | cons bin bins => rfl

/-- Where nothing waits, unreachable prefixes go into messages without other attributes. -/
theorem emitBins_unreach (mpUnreach : BGPPathAttrMPUnreachNLRI) (bins : List (List NLRI))
    {assembly : Assembly} (idle : assembly.pathAttrs = []) :
    emitBins (emitUnreach mpUnreach) bins assembly =
      emitBins (emitCut [] (unreachPA mpUnreach)) bins assembly := by
  induction bins generalizing assembly with
  | nil => rfl
  | cons bin bins ih =>
    have same : emitUnreach mpUnreach (!bin.isEmpty) bin assembly =
        emitCut [] (unreachPA mpUnreach) (!bin.isEmpty) bin assembly := by
      rw [emitUnreach, emitCut, idle]
      rfl
    show emitBins _ bins (emitUnreach mpUnreach (!bin.isEmpty) bin assembly) = _
    rw [same]
    exact ih rfl

theorem emitBins_nlri (bins : List (List NLRI)) (assembly : Assembly) :
    emitBins emitNLRI bins assembly = if bins = [] then assembly else
        { assembly with
          newUpdateMsgs := assembly.newUpdateMsgs ++ headed assembly.withdrawnRoutes
            (fun _ => (assembly.attributes.insertAll assembly.pathAttrs).1.items)
            (fun _ => (assembly.attributes.insertAll assembly.pathAttrs).2) id bins
          withdrawnRoutes := []
          pathAttrs := []
          attributes := { assembly.attributes with
            items := (assembly.attributes.insertAll assembly.pathAttrs).2 }
          mpAttsFound := false } :=
  emitBins_headed { assembly with
    withdrawnRoutes := []
    pathAttrs := []
    attributes := { assembly.attributes with
      items := (assembly.attributes.insertAll assembly.pathAttrs).2 }
    mpAttsFound := false } _ _ id (fun _ => rfl) (fun _ _ => rfl) bins

/-- The bytes an MP_UNREACH_NLRI attribute takes up before its prefixes. -/
def unreachBase (mpUnreach : BGPPathAttrMPUnreachNLRI) : Nat :=
  mpUnreach.bgpPathAttrLen.toNat + 3

/-- The bytes an MP_REACH_NLRI attribute takes up before its prefixes. -/
def reachBase (mpReach : BGPPathAttrMPReachNLRI) : Nat :=
  mpReach.bgpPathAttrLen.toNat + 4 + mpReach.nextHop.len.toNat

/-- The unreachable prefixes are packed anew, as they do not fit behind what is filled. -/
def UnreachCut (mpUnreach : BGPPathAttrMPUnreachNLRI) (fill : Nat) : Prop :=
  mpUnreach.nlri ≠ [] ∧ 4096 < fill + mpUnreach.totalLen.toNat

instance (mpUnreach : BGPPathAttrMPUnreachNLRI) (fill : Nat) :
    Decidable (UnreachCut mpUnreach fill) :=
  inferInstanceAs (Decidable (_ ∧ _))

/-- The reachable prefixes are packed anew, as they do not fit with the other attributes. -/
def ReachCut (mpReach : BGPPathAttrMPReachNLRI) (others fill : Nat) : Prop :=
  mpReach.nlri ≠ [] ∧ 4096 < fill + others + mpReach.totalLen.toNat

instance (mpReach : BGPPathAttrMPReachNLRI) (others fill : Nat) :
    Decidable (ReachCut mpReach others fill) :=
  inferInstanceAs (Decidable (_ ∧ _))

/-- How the unreachable prefixes are packed. -/
def unreachPacking (mpUnreach : BGPPathAttrMPUnreachNLRI) (fill : Nat) : Packing NLRI :=
  (chunkRule (unreachBase mpUnreach)).pack fill mpUnreach.nlri

/-- How the reachable prefixes are packed, each bin with the other attributes. -/
def reachPacking (mpReach : BGPPathAttrMPReachNLRI) (others fill : Nat) : Packing NLRI :=
  (chunkRule (reachBase mpReach + others)).pack fill mpReach.nlri

/-- How the plain prefixes are packed, each bin with the attributes. -/
def nlriPacking (nlriList : List NLRI) (attrs fill : Nat) : Packing NLRI :=
  (chunkRule attrs).pack fill nlriList

theorem too_long_iff {left right : UInt32} (small : left.toNat + right.toNat < 2 ^ 32) :
    left + right > bgpMsgMaxLen ↔ 4096 < left.toNat + right.toNat := by
  rw [gt_iff_lt, UInt32.lt_iff_toNat_lt, UInt32.toNat_add, Nat.mod_eq_of_lt small]
  rfl

section Phases

variable {pktLen : UInt32} (assembly : Assembly)

/-- Unreachable prefixes that are cut leave their last bin waiting. -/
theorem splitUnreach_eq (mpUnreach : BGPPathAttrMPUnreachNLRI) (small : pktLen.toNat < 2 ^ 30)
    (idle : assembly.pathAttrs = []) :
    splitUnreach mpUnreach pktLen assembly = if UnreachCut mpUnreach pktLen.toNat then
        (UInt32.ofNat ((unreachPacking mpUnreach pktLen.toNat).fill + unreachBase mpUnreach),
          cutAssembly assembly (assembly.attributes.removeType attrTypeMPUnreachNLRI) []
            (unreachPA mpUnreach) (unreachPacking mpUnreach pktLen.toNat))
      else (pktLen, { assembly with
        attributes := assembly.attributes.removeType attrTypeMPUnreachNLRI }) := by
  have width := mpUnreach.bgpPathAttrLen.toNat_lt
  have length := mpUnreach.length.toNat_lt
  have total := mpUnreach.totalLen_toNat
  have base : (mpUnreach.bgpPathAttrLen.toUInt32 + 3).toNat = unreachBase mpUnreach := by
    rw [UInt32.toNat_add, UInt16.toNat_toUInt32, unreachBase]
    simp only [UInt32.reduceToNat]
    omega
  have little : (mpUnreach.bgpPathAttrLen.toUInt32 + 3).toNat < 2 ^ 31 := by
    rw [base, unreachBase]
    omega
  have looped := chunkLoop_eq little small (emitUnreach mpUnreach)
    { assembly with attributes := assembly.attributes.removeType attrTypeMPUnreachNLRI }
    mpUnreach.nlri
  dsimp only at looped
  rw [base, emitBins_unreach mpUnreach _
    (show { assembly with attributes := _ }.pathAttrs = [] from idle), emitBins_cut] at looped
  have long := too_long_iff (show pktLen.toNat + mpUnreach.totalLen.toNat < _ by omega)
  simp only [splitUnreach, length_pos_iff, long]
  by_cases cut : UnreachCut mpUnreach pktLen.toNat
  · have filled := (chunkRule (unreachBase mpUnreach)).pack_current_ne_nil pktLen.toNat cut.1
    rw [if_pos cut, if_pos (show _ ∧ _ from cut)]
    simp only [looped, if_pos filled, UInt32.ofNat_add]
    rw [← base, UInt32.ofNat_toNat, base, cutAssembly]
    simp only [idle, ite_self]
    rfl
  · rw [if_neg cut, if_neg (show ¬(_ ∧ _) from cut)]
    rfl

/-- The 32-bit sums in front of the reachable prefixes do not wrap. -/
theorem reachBase_toNat (mpReach : BGPPathAttrMPReachNLRI) :
    (mpReach.bgpPathAttrLen.toUInt32 + 4 + mpReach.nextHop.len.toUInt32).toNat =
      reachBase mpReach ∧ reachBase mpReach < 2 ^ 17 := by
  have width := mpReach.bgpPathAttrLen.toNat_lt
  have hop := mpReach.nextHop.len.toNat_lt
  rw [UInt32.toNat_add, UInt32.toNat_add, UInt16.toNat_toUInt32, UInt8.toNat_toUInt32, reachBase]
  simp only [UInt32.reduceToNat]
  omega

/-- Reachable prefixes that are cut leave their last bin waiting too. -/
theorem splitReach_eq (mpReach : BGPPathAttrMPReachNLRI) {attributes : AttrSlice}
    (removed : assembly.attributes.removeType attrTypeMPReachNLRI = attributes)
    (few : attrBytes attributes.items < 2 ^ 30) (small : pktLen.toNat < 2 ^ 30) :
    splitReach mpReach pktLen assembly =
      if ReachCut mpReach (attrBytes attributes.items) pktLen.toNat then
        (UInt32.ofNat ((reachPacking mpReach (attrBytes attributes.items) pktLen.toNat).fill +
            reachBase mpReach),
          cutAssembly assembly attributes attributes.items (reachPA mpReach)
            (reachPacking mpReach (attrBytes attributes.items) pktLen.toNat))
      else (pktLen, { assembly with attributes := attributes }) := by
  obtain ⟨base, bound⟩ := reachBase_toNat mpReach
  have length := mpReach.length.toNat_lt
  have width := mpReach.bgpPathAttrLen.toNat_lt
  have total := mpReach.totalLen_toNat
  have counted := pathAttrsLen_toNat (show attrBytes attributes.items < 2 ^ 32 by omega)
  have sum : (pktLen + pathAttrsLen attributes.items).toNat =
      pktLen.toNat + attrBytes attributes.items := by
    rw [UInt32.toNat_add, counted]
    omega
  have long := too_long_iff (show (pktLen + pathAttrsLen attributes.items).toNat +
    mpReach.totalLen.toNat < _ by omega)
  have whole : (mpReach.bgpPathAttrLen.toUInt32 + 4 + mpReach.nextHop.len.toUInt32 +
      pathAttrsLen attributes.items).toNat = reachBase mpReach + attrBytes attributes.items := by
    rw [UInt32.toNat_add, base, counted]
    omega
  have looped := chunkLoop_eq (show _ < 2 ^ 31 by rw [whole]; omega) small
    (emitReach mpReach attributes.items) { assembly with attributes := attributes } mpReach.nlri
  dsimp only at looped
  have sends : emitReach mpReach attributes.items = emitCut attributes.items (reachPA mpReach) := rfl
  rw [whole, sends, emitBins_cut] at looped
  simp only [splitReach, removed, length_pos_iff, long, sum]
  by_cases cut : ReachCut mpReach (attrBytes attributes.items) pktLen.toNat
  · have filled := (chunkRule (reachBase mpReach + attrBytes attributes.items)).pack_current_ne_nil
      pktLen.toNat cut.1
    rw [if_pos cut, if_pos (show _ ∧ _ from cut)]
    simp only [sends, looped, if_pos filled, UInt32.ofNat_add]
    rw [← base, UInt32.ofNat_toNat, base]
    rfl
  · rw [if_neg cut, if_neg (show ¬(_ ∧ _) from cut)]
    rfl

end Phases

end FlexSwitch.Packet
