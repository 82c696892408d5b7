import FlexSwitch.Packet.MaxSizedStages

/-! Which routes survive when a long UPDATE message is cut into several. -/

namespace FlexSwitch.Packet

open Go List

/-- Of what waits, at most one attribute carries routes of either kind. -/
theorem Waiting.single {waiting : List BGPPathAttr} (waits : Waiting waiting) :
    (carriers BGPPathAttr.unreachRoutes waiting).length ≤ 1 ∧
    (carriers BGPPathAttr.reachRoutes waiting).length ≤ 1 := by
  have short : ∀ {β : Type} (routes : BGPPathAttr → List β) (pa : BGPPathAttr),
      (carriers routes [pa]).length ≤ 1 := fun _ _ => length_filter_le _ _
  cases waits with
  | nothing => exact ⟨Nat.zero_le _, Nat.zero_le _⟩
  | unreach | reach => exact ⟨short _ _, short _ _⟩
  | both mpReach mpUnreach =>
    -- Each of the two carries nothing of the other's kind.
    constructor
    · rw [carriers, filter_cons, reachPA_unreachRoutes, flatMap_eq_nil_iff.mpr fun _ _ => rfl]
      exact short _ _
    · rw [carriers, filter_cons]
      split
      · rw [filter_cons, unreachPA_reachRoutes, flatMap_eq_nil_iff.mpr fun _ _ => rfl]
        exact le_refl _
      · exact short _ _

variable {β : Type} {routes : BGPPathAttr → List β}

section Flush

variable {pktLen paLen : UInt32} (assembly : Assembly)

theorem flushWaiting_within (within : pktLen.toNat + paLen.toNat ≤ 4096) :
    flushWaiting pktLen paLen assembly = (pktLen, assembly) := by
  rw [flushWaiting, if_neg (mt (too_long_iff (by omega)).mp (by omega))]

section Few

variable (few : paLen.toNat < 2 ^ 30) (small : pktLen.toNat < 2 ^ 30)

include few small

/-- What does not fit with the other attributes is sent on its own, and nothing waits any more. -/
theorem flushWaiting_over (excess : 4096 < pktLen.toNat + paLen.toNat) :
    flushWaiting pktLen paLen assembly = (23, { assembly with
        newUpdateMsgs := assembly.newUpdateMsgs ++ [newBGPUpdateMessage assembly.withdrawnRoutes
          (assembly.pathAttrs.foldl addPathAttrToPathAttrs
            (if (getTypeFromPathAttrs assembly.pathAttrs attrTypeMPReachNLRI).isSome then
              assembly.attributes.items else [])) []]
        withdrawnRoutes := []
        pathAttrs := [] }) := by
  rw [flushWaiting, if_pos ((too_long_iff (by omega)).mpr excess)]
  rfl

theorem flushWaiting_carried (plain : assembly.attributes.items.flatMap routes = [])
    (single : (carriers routes assembly.pathAttrs).length ≤ 1) :
    (flushWaiting pktLen paLen assembly).2.carried routes = assembly.carried routes := by
  by_cases excess : 4096 < pktLen.toNat + paLen.toNat
  · have others : (if (getTypeFromPathAttrs assembly.pathAttrs attrTypeMPReachNLRI).isSome then
        assembly.attributes.items else []).flatMap routes = [] := by
      split
      · exact plain
      · rfl
    rw [flushWaiting_over assembly few small excess]
    simp [Assembly.carried, newBGPUpdateMessage, flatMap_foldl_add others single]
  · rw [flushWaiting_within assembly (by omega)]

theorem flushWaiting_plain : (flushWaiting pktLen paLen assembly).2.withdrawn = assembly.withdrawn ∧
    (flushWaiting pktLen paLen assembly).2.announced = assembly.announced ∧
    (flushWaiting pktLen paLen assembly).2.attributes = assembly.attributes := by
  by_cases excess : 4096 < pktLen.toNat + paLen.toNat
  · rw [flushWaiting_over assembly few small excess]
    simp [Assembly.withdrawn, Assembly.announced, newBGPUpdateMessage]
  · rw [flushWaiting_within assembly (by omega)]
    exact ⟨rfl, rfl, rfl⟩

end Few

variable (few : paLen.toNat < 2 ^ 31) (small : pktLen.toNat < 2 ^ 30) (nlris : List NLRI)

include few small

/-- The last stage sends the plain prefixes bin by bin, or nothing if nothing is left to send. -/
theorem splitNLRI_eq : splitNLRI nlris pktLen paLen assembly =
      if nlris = [] ∧ assembly.withdrawnRoutes = [] ∧ assembly.pathAttrs = [] ∧
          hasMPAttrs assembly.attributes.items = false then
        assembly.newUpdateMsgs
      else
        assembly.newUpdateMsgs ++ headed assembly.withdrawnRoutes
          (fun _ => (assembly.attributes.insertAll assembly.pathAttrs).1.items)
          (fun _ => (assembly.attributes.insertAll assembly.pathAttrs).2) id
          ((nlriPacking nlris paLen.toNat pktLen.toNat).closed ++
            [(nlriPacking nlris paLen.toNat pktLen.toNat).current]) := by
  have looped := chunkLoop_eq few small emitNLRI
    { assembly with mpAttsFound := hasMPAttrs assembly.attributes.items } nlris
  change _ = (⟨_, _, (nlriPacking nlris paLen.toNat pktLen.toNat).current, emitBins emitNLRI
    (nlriPacking nlris paLen.toNat pktLen.toNat).closed _⟩ : ChunkCursor) at looped
  have empty : (nlriPacking nlris paLen.toNat pktLen.toNat).current = [] ↔ nlris = [] :=
    PackingRule.pack_current_eq_nil _
  simp only [splitNLRI, looped, emitBins_nlri]
  by_cases closed : (nlriPacking nlris paLen.toNat pktLen.toNat).closed = []
  · -- No bin was closed, so the last message takes everything along that was waiting.
    simp only [closed, if_true, ne_eq, empty, nil_append]
    by_cases nothing : nlris = [] ∧ assembly.withdrawnRoutes = [] ∧ assembly.pathAttrs = [] ∧
        hasMPAttrs assembly.attributes.items = false
    · rw [if_pos nothing, if_neg]
      simp [nothing]
    · rw [if_neg nothing, if_pos]
      · rfl
      · by_contra neither
        simp only [not_or, not_not, Bool.not_eq_true] at neither
        exact nothing ⟨neither.2.1, neither.1, neither.2.2⟩
  · -- Once a bin was closed there are prefixes, and the current bin holds the last of them.
    have filled : nlris ≠ [] := by
      rintro rfl
      exact closed rfl
    simp only [if_neg closed, ne_eq, empty]
    rw [if_pos (.inr (.inl filled)), if_neg (fun nothing => filled nothing.1)]
    generalize (nlriPacking nlris paLen.toNat pktLen.toNat).closed = bins at closed
    cases bins with
    | nil => exact absurd rfl closed
    | cons bin bins => simp [emitNLRI, headed, AttrSlice.insertAll]

/-- The routes of the last stage: those of the first message, and what the others repeat. -/
theorem splitNLRI_routes (quiet : hasMPAttrs assembly.attributes.items = false →
      assembly.attributes.items.flatMap routes = []) :
    (splitNLRI nlris pktLen paLen assembly).flatMap
        (fun msg => msg.pathAttributes.flatMap routes) =
      assembly.newUpdateMsgs.flatMap (fun msg => msg.pathAttributes.flatMap routes) ++
        (assembly.attributes.insertAll assembly.pathAttrs).1.items.flatMap routes ++
        (replicate (nlriPacking nlris paLen.toNat pktLen.toNat).closed.length
          ((assembly.attributes.insertAll assembly.pathAttrs).2.flatMap routes)).flatten := by
  rw [splitNLRI_eq assembly few small]
  split
  · -- Nothing was sent, and there was nothing that could carry routes.
    rename_i nothing
    obtain ⟨rfl, _, idle, bare⟩ := nothing
    rw [idle]
    simp [nlriPacking, AttrSlice.insertAll, quiet bare]
  · generalize (nlriPacking nlris paLen.toNat pktLen.toNat).closed = bins
    cases bins with
    | nil => simp [headed, newBGPUpdateMessage]
    | cons bin bins =>
      have repeated : ∀ (bins : List (List NLRI)) (part : List β),
          bins.flatMap (fun _ => part) = (replicate bins.length part).flatten := by
        intro bins part
        induction bins with
        | nil => rfl
        | cons bin bins ih => simp [ih, replicate_succ]
      simp only [headed, cons_append, flatMap_append, flatMap_cons,
        flatMap_map, newBGPUpdateMessage, append_assoc]
      rw [repeated, length_cons, replicate_succ', flatten_append]
      simp

/-- The last stage sends every plain prefix and every withdrawn route that was waiting. -/
theorem splitNLRI_plain :
    (splitNLRI nlris pktLen paLen assembly).flatMap (fun msg => msg.withdrawnRoutes) =
      assembly.withdrawn ∧
    (splitNLRI nlris pktLen paLen assembly).flatMap (fun msg => msg.nlri) =
      assembly.announced ++ nlris := by
  have kept : (nlriPacking nlris paLen.toNat pktLen.toNat).closed.flatten ++
      (nlriPacking nlris paLen.toNat pktLen.toNat).current = nlris :=
    PackingRule.pack_flatten _ _ _
  rw [splitNLRI_eq assembly few small]
  split
  · rename_i nothing
    obtain ⟨rfl, idle, _, _⟩ := nothing
    simp [Assembly.withdrawn, Assembly.announced, idle]
  · generalize (nlriPacking nlris paLen.toNat pktLen.toNat).closed = bins at kept
    generalize (nlriPacking nlris paLen.toNat pktLen.toNat).current = current at kept
    constructor
    · have sent : (headed assembly.withdrawnRoutes
          (fun _ => (assembly.attributes.insertAll assembly.pathAttrs).1.items)
          (fun _ => (assembly.attributes.insertAll assembly.pathAttrs).2) id
          (bins ++ [current])).flatMap (fun msg => msg.withdrawnRoutes) ++
            (if bins ++ [current] = [] then assembly.withdrawnRoutes else []) =
              assembly.withdrawnRoutes := withdrawn_headed _
      rw [if_neg (by simp), append_nil] at sent
      rw [flatMap_append, sent]
      rfl
    · rw [flatMap_append, nlri_headed, flatMap_id, flatten_append]
      simp only [flatten_cons, flatten_nil, append_nil, kept]
      rfl

end Flush

section View

variable {slice : AttrSlice} {waiting : List BGPPathAttr}

/-- Codes up to the multiprotocol ones, and not these, are below both of them. -/
theorem code_not_gt_reach {pa : BGPPathAttr} (other : pa.getCode ≠ attrTypeMPUnreachNLRI)
    (low : ¬ pa.getCode > attrTypeMPUnreachNLRI) : ¬ pa.getCode > attrTypeMPReachNLRI := by
  intro high
  rw [gt_iff_lt, UInt8.lt_iff_toNat_lt] at low high
  have differ : pa.getCode.toNat ≠ attrTypeMPUnreachNLRI.toNat := fun same =>
    other (UInt8.toNat_inj.mp same)
  simp only [attrTypeMPUnreachNLRI, attrTypeMPReachNLRI, UInt8.reduceToNat] at low high differ
  omega

/-- Behind smaller codes only, what waits is put at the end, where the old slice does not reach. -/
theorem view_kept (waits : Waiting waiting) (room : waiting.length ≤ slice.spare)
    (others : ∀ pa ∈ slice.items, pa.getCode ≠ attrTypeMPUnreachNLRI)
    (low : ∀ pa ∈ slice.items, ¬ pa.getCode > attrTypeMPUnreachNLRI) :
    (slice.insertAll waiting).2 = slice.items := by
  have reachLow : ∀ pa ∈ slice.items, ¬ pa.getCode > attrTypeMPReachNLRI := fun pa member =>
    code_not_gt_reach (others pa member) (low pa member)
  have ended : waiting.foldl addPathAttrToPathAttrs slice.items = slice.items ++ waiting := by
    cases waits with
    | nothing => simp
    | unreach => exact addPathAttrToPathAttrsByCode_of_le low _
    | reach => exact addPathAttrToPathAttrsByCode_of_le reachLow _
    | @both mpReach mpUnreach chunk rest _ _ =>
      have first : addPathAttrToPathAttrs slice.items (reachPA mpReach chunk) =
          slice.items ++ [reachPA mpReach chunk] := addPathAttrToPathAttrsByCode_of_le reachLow _
      have second : addPathAttrToPathAttrs (slice.items ++ [reachPA mpReach chunk])
          (unreachPA mpUnreach rest) =
            slice.items ++ [reachPA mpReach chunk] ++ [unreachPA mpUnreach rest] := by
        refine addPathAttrToPathAttrsByCode_of_le
          (forall_mem_append.mpr ⟨low, forall_mem_singleton.mpr ?_⟩) _
        exact (by decide : ¬ attrTypeMPReachNLRI > attrTypeMPUnreachNLRI)
      simp only [foldl_cons, foldl_nil, first, second, append_assoc, cons_append, nil_append]
  rw [(slice.insertAll_of_room room).2, ended, take_left']
  rfl

/-- In front of a greater code, what waits is put where the old slice sees the first of it. -/
theorem view_shifted {first : BGPPathAttr} {rest : List BGPPathAttr}
    (waits : Waiting (first :: rest)) (room : (first :: rest).length ≤ slice.spare)
    (others : ∀ pa ∈ slice.items, pa.getCode ≠ attrTypeMPUnreachNLRI)
    (high : ∃ pa ∈ slice.items, pa.getCode > attrTypeMPUnreachNLRI) :
    first ∈ (slice.insertAll (first :: rest)).2 := by
  obtain ⟨front, last, back, parted, greater, low⟩ := exists_last_greater high
  have reachLow : ∀ pa ∈ back, ¬ pa.getCode > attrTypeMPReachNLRI := fun pa member =>
    code_not_gt_reach (others pa (by rw [parted]; simp [member])) (low pa member)
  have reachGreater : last.getCode > attrTypeMPReachNLRI := by
    rw [gt_iff_lt, UInt8.lt_iff_toNat_lt] at greater ⊢
    simp only [attrTypeMPUnreachNLRI, attrTypeMPReachNLRI, UInt8.reduceToNat] at greater ⊢
    omega
  -- Wherever the rest goes, the first one stays right behind the front.
  have placed : ∃ behind, (first :: rest).foldl addPathAttrToPathAttrs slice.items =
      front ++ first :: behind ∧ front.length < slice.items.length := by
    have shorter : front.length < slice.items.length := by
      rw [parted]
      simp
    rw [parted]
    rw [parted] at shorter
    cases waits with
    | unreach mpUnreach filled =>
      exact ⟨last :: back, addPathAttrToPathAttrsByCode_of_last greater low _, shorter⟩
    | reach mpReach filled =>
      exact ⟨last :: back, addPathAttrToPathAttrsByCode_of_last reachGreater reachLow _, shorter⟩
    | @both mpReach mpUnreach chunk rest _ _ =>
      have one : addPathAttrToPathAttrs (front ++ last :: back) (reachPA mpReach chunk) =
          front ++ reachPA mpReach chunk :: last :: back :=
        addPathAttrToPathAttrsByCode_of_last reachGreater reachLow _
      have two : addPathAttrToPathAttrs ((front ++ [reachPA mpReach chunk]) ++ last :: back)
          (unreachPA mpUnreach rest) =
            (front ++ [reachPA mpReach chunk]) ++ unreachPA mpUnreach rest :: last :: back :=
        addPathAttrToPathAttrsByCode_of_last greater low _
      refine ⟨unreachPA mpUnreach rest :: last :: back, ?_, shorter⟩
      rw [append_assoc, singleton_append] at two
      simp only [foldl_cons, foldl_nil, one, two, append_assoc, singleton_append]
  obtain ⟨behind, inserted, shorter⟩ := placed
  rw [(slice.insertAll_of_room room).2, inserted]
  have cut : slice.items.length = front.length + ((slice.items.length - front.length - 1) + 1) := by
    omega
  rw [cut, take_length_add_append, take_succ_cons]
  simp

/-- So the old slice carries routes of its own after the first message exactly in this case. -/
theorem view_carries_iff (waits : Waiting waiting) (room : waiting.length ≤ slice.spare)
    (others : ∀ pa ∈ slice.items, pa.getCode ≠ attrTypeMPUnreachNLRI)
    (plain : slice.items.flatMap BGPPathAttr.unreachRoutes = [] ∧
      slice.items.flatMap BGPPathAttr.reachRoutes = []) :
    ((slice.insertAll waiting).2.flatMap BGPPathAttr.unreachRoutes = [] ∧
      (slice.insertAll waiting).2.flatMap BGPPathAttr.reachRoutes = []) ↔
    waiting = [] ∨ ∀ pa ∈ slice.items, pa.getCode ≤ attrTypeMPUnreachNLRI := by
  constructor
  · rintro ⟨noUnreach, noReach⟩
    by_contra neither
    rw [not_or] at neither
    obtain ⟨filled, high⟩ := neither
    have greater : ∃ pa ∈ slice.items, pa.getCode > attrTypeMPUnreachNLRI := by
      simpa only [not_forall, UInt8.not_le, exists_prop] using high
    rcases waiting with _ | ⟨first, rest⟩
    · exact filled rfl
    have seen := view_shifted waits room others greater
    have unreachNil := flatMap_eq_nil_iff.mp noUnreach first seen
    have reachNil := flatMap_eq_nil_iff.mp noReach first seen
    -- The first attribute that waits carries the routes of a chunk that is not empty.
    cases waits with
    | unreach mpUnreach chunked =>
      exact chunked (map_eq_nil_iff.mp unreachNil)
    | reach mpReach chunked | both mpReach mpUnreach chunked more =>
      exact chunked (map_eq_nil_iff.mp reachNil)
  · intro kept
    have same : (slice.insertAll waiting).2 = slice.items := by
      rcases kept with rfl | low
      · rfl
      · exact view_kept waits room others fun pa member => UInt8.not_lt.mpr (low pa member)
    rw [same]
    exact plain

end View

/-- How the withdrawn routes are packed. -/
def withdrawnPacking (updateMsg : BGPUpdate) : Packing NLRI :=
  (chunkRule 0).pack 23 updateMsg.withdrawnRoutes

/-- What there is when the withdrawn routes have been packed. -/
def openingAssembly (updateMsg : BGPUpdate) (spare : Nat) : Assembly where
  newUpdateMsgs := (withdrawnPacking updateMsg).closed.map fun bin => newBGPUpdateMessage bin [] []
  withdrawnRoutes := (withdrawnPacking updateMsg).current
  pathAttrs := []
  attributes := ⟨updateMsg.pathAttributes, spare⟩
  mpAttsFound := false

section Whole

variable {updateMsg : BGPUpdate} {spare : Nat}

theorem withdrawnFill_le (updateMsg : BGPUpdate) : (withdrawnPacking updateMsg).fill ≤ 4096 :=
  chunk_fill_le (by omega) (le_refl _) _

/-- The stages behind the multiprotocol attributes. -/
def lastStages (nlriList : List NLRI) (state : UInt32 × Assembly) : List BGPUpdate :=
  let paLen := pathAttrsLen state.2.attributes.items
  let flushed := flushWaiting state.1 paLen state.2
  splitNLRI nlriList flushed.1 paLen flushed.2

theorem constructMaxSizedUpdatePackets_eq (updateMsg : BGPUpdate) (spare : Nat) :
    constructMaxSizedUpdatePackets updateMsg spare =
      splitMPAttrs (UInt32.ofNat (withdrawnPacking updateMsg).fill)
        (openingAssembly updateMsg spare) >>= fun state =>
          .ok (lastStages updateMsg.nlri state) := by
  have zero : (0 : UInt32).toNat < 2 ^ 31 := by decide
  have begun : bgpUpdateMsgMinLen.toNat < 2 ^ 30 := by decide
  unfold constructMaxSizedUpdatePackets
  simp only [chunkLoop_eq zero begun, emitBins_withdrawn, nil_append]
  rfl

/-- The opening carries all withdrawn routes and nothing else. -/
theorem openingAssembly_carries (updateMsg : BGPUpdate) (spare : Nat) :
    (openingAssembly updateMsg spare).withdrawn = updateMsg.withdrawnRoutes ∧
    (openingAssembly updateMsg spare).announced = [] ∧
    ∀ {β : Type} (routes : BGPPathAttr → List β),
      (openingAssembly updateMsg spare).newUpdateMsgs.flatMap
        (fun msg => msg.pathAttributes.flatMap routes) = [] := by
  have kept : (withdrawnPacking updateMsg).closed.flatten ++ (withdrawnPacking updateMsg).current =
      updateMsg.withdrawnRoutes := PackingRule.pack_flatten _ _ _
  refine ⟨?_, ?_, ?_⟩
  · rw [← kept]
    simp [Assembly.withdrawn, openingAssembly, newBGPUpdateMessage, flatMap_map, flatMap_id']
  · simp [Assembly.announced, openingAssembly, newBGPUpdateMessage, flatMap_map]
  · intro β routes
    simp [openingAssembly, newBGPUpdateMessage, flatMap_map]

/-- A message without multiprotocol codes carries no multiprotocol routes. -/
theorem Splittable.quiet {pathAttrs : List BGPPathAttr} (fits : Splittable pathAttrs)
    (lacksMP : hasMPAttrs pathAttrs = false) :
    pathAttrs.flatMap BGPPathAttr.unreachRoutes = [] ∧
    pathAttrs.flatMap BGPPathAttr.reachRoutes = [] := by
  have codes : ∀ pa ∈ pathAttrs, (pa.getCode == attrTypeMPReachNLRI) = false ∧
      (pa.getCode == attrTypeMPUnreachNLRI) = false := by
    intro pa member
    have lacks := any_eq_false.mp lacksMP pa member
    simpa using lacks
  exact ⟨flatMap_routesOf_silent fun pa member => fits.unreach pa member ▸ (codes pa member).2,
    flatMap_routesOf_silent fun pa member => fits.reach pa member ▸ (codes pa member).1⟩

/-- Repeating something is nothing exactly when there is nothing or it is not repeated. -/
theorem flatten_replicate_eq_nil (count : Nat) (part : List β) :
    (replicate count part).flatten = [] ↔ count = 0 ∨ part = [] := by
  by_cases zero : count = 0 <;> simp [zero]

/-- Plain prefixes stay in one message exactly when they fit behind the attributes. -/
theorem nlriPacking_single {paLen fill : Nat} (within : fill + paLen ≤ 4096)
    (nlris : List NLRI) :
    (nlriPacking nlris paLen fill).closed.length = 0 ↔
      fill + paLen + nlriBytes nlris ≤ 4096 := by
  have single := (chunkRule paLen).pack_closed_eq_nil fill nlris
  rw [length_eq_zero_iff]
  refine single.trans ?_
  show nlris = [] ∨ fill + nlriBytes nlris + paLen ≤ 4096 ↔ _
  constructor
  · rintro (lacksMP | room)
    · rw [lacksMP]
      exact within
    · omega
  · intro room
    right
    omega

theorem withdrawnFill_toNat (updateMsg : BGPUpdate) :
    (UInt32.ofNat (withdrawnPacking updateMsg).fill).toNat = (withdrawnPacking updateMsg).fill := by
  have bound := withdrawnFill_le updateMsg
  rw [UInt32.toNat_ofNat']
  omega

/-- A message that fits up to its prefixes goes through the last stage only. -/
theorem constructMaxSizedUpdatePackets_within (small : attrBytes updateMsg.pathAttributes < 2 ^ 30)
    (within : (withdrawnPacking updateMsg).fill + attrBytes updateMsg.pathAttributes ≤ 4096) :
    constructMaxSizedUpdatePackets updateMsg spare =
      .ok (splitNLRI updateMsg.nlri (UInt32.ofNat (withdrawnPacking updateMsg).fill)
        (pathAttrsLen updateMsg.pathAttributes) (openingAssembly updateMsg spare)) := by
  have fill := withdrawnFill_toNat updateMsg
  have counted := pathAttrsLen_toNat (show attrBytes updateMsg.pathAttributes < 2 ^ 32 by omega)
  have stage : splitMPAttrs (UInt32.ofNat (withdrawnPacking updateMsg).fill)
      (openingAssembly updateMsg spare) = .ok (_, openingAssembly updateMsg spare) :=
    splitMPAttrs_within small (by rw [fill]; exact within)
  have flush : flushWaiting (UInt32.ofNat (withdrawnPacking updateMsg).fill)
      (pathAttrsLen updateMsg.pathAttributes) (openingAssembly updateMsg spare) =
        (_, openingAssembly updateMsg spare) :=
    flushWaiting_within _ (by rw [fill, counted]; exact within)
  rw [constructMaxSizedUpdatePackets_eq, stage, Outcome.ok_bind]
  change Outcome.ok (splitNLRI updateMsg.nlri
    (flushWaiting _ (pathAttrsLen updateMsg.pathAttributes) _).1
    (pathAttrsLen updateMsg.pathAttributes)
    (flushWaiting _ (pathAttrsLen updateMsg.pathAttributes) _).2) = _
  rw [flush]

/-- What there is when the multiprotocol attributes have been taken apart. -/
def mpState (updateMsg : BGPUpdate) (spare : Nat) : UInt32 × Assembly :=
  let middle := unreachStage (mpUnreachOf updateMsg.pathAttributes)
    (UInt32.ofNat (withdrawnPacking updateMsg).fill) (openingAssembly updateMsg spare)
  reachStage (mpReachOf updateMsg.pathAttributes) middle.1 middle.2

section

variable (fits : Splittable updateMsg.pathAttributes)

include fits

theorem mpState_done : MPDone (openingAssembly updateMsg spare) (withdrawnPacking updateMsg).fill
      (mpState updateMsg spare) := by
  have fill := withdrawnFill_toNat updateMsg
  have bound := withdrawnFill_le updateMsg
  have done : MPDone (openingAssembly updateMsg spare)
      (UInt32.ofNat (withdrawnPacking updateMsg).fill).toNat (mpState updateMsg spare) :=
    mpStages_done fits rfl (by omega)
  rw [fill] at done
  exact done

theorem constructMaxSizedUpdatePackets_over
    (excess : 4096 < (withdrawnPacking updateMsg).fill + attrBytes updateMsg.pathAttributes) :
    constructMaxSizedUpdatePackets updateMsg spare =
      .ok (lastStages updateMsg.nlri (mpState updateMsg spare)) := by
  have fill := withdrawnFill_toNat updateMsg
  have bound := withdrawnFill_le updateMsg
  have stage : splitMPAttrs (UInt32.ofNat (withdrawnPacking updateMsg).fill)
      (openingAssembly updateMsg spare) = _ :=
    splitMPAttrs_over fits (by omega) (by rw [fill]; exact excess)
  rw [constructMaxSizedUpdatePackets_eq, stage, Outcome.ok_bind]
  rfl

/-- A message that fits up to its prefixes keeps its routes unless its attributes are repeated. -/
theorem sameRoutes_within
    (within : (withdrawnPacking updateMsg).fill + attrBytes updateMsg.pathAttributes ≤ 4096) :
    ∃ msgs, constructMaxSizedUpdatePackets updateMsg spare = .ok msgs ∧ (SameRoutes updateMsg msgs ↔
        (withdrawnPacking updateMsg).fill + attrBytes updateMsg.pathAttributes +
          nlriBytes updateMsg.nlri ≤ 4096 ∨
        (updateMsg.pathAttributes.flatMap BGPPathAttr.unreachRoutes = [] ∧
          updateMsg.pathAttributes.flatMap BGPPathAttr.reachRoutes = [])) := by
  have fill := withdrawnFill_toNat updateMsg
  have bytes := fits.small
  have counted := pathAttrsLen_toNat (show attrBytes updateMsg.pathAttributes < 2 ^ 32 by omega)
  have few : (pathAttrsLen updateMsg.pathAttributes).toNat < 2 ^ 31 := by omega
  have small : (UInt32.ofNat (withdrawnPacking updateMsg).fill).toNat < 2 ^ 30 := by omega
  refine ⟨_, constructMaxSizedUpdatePackets_within bytes within, ?_⟩
  obtain ⟨withdrawn, unannounced, silent⟩ := openingAssembly_carries updateMsg spare
  obtain ⟨sentWithdrawn, sentNLRI⟩ := splitNLRI_plain _ few small
    updateMsg.nlri
  have unreach := splitNLRI_routes (openingAssembly updateMsg spare) few small
    updateMsg.nlri fun quiet => (fits.quiet quiet).1
  have reach := splitNLRI_routes (openingAssembly updateMsg spare) few small
    updateMsg.nlri fun quiet => (fits.quiet quiet).2
  rw [silent, nil_append] at unreach reach
  -- With nothing waiting, every message has the attributes of the one that is cut.
  change _ = updateMsg.pathAttributes.flatMap _ ++ (replicate _
    (updateMsg.pathAttributes.flatMap _)).flatten at unreach reach
  rw [counted, fill] at unreach reach
  have unrepeated := nlriPacking_single within updateMsg.nlri
  constructor
  · intro same
    have one := same.unreach
    have two := same.reach
    rw [unreach, append_right_eq_self, flatten_replicate_eq_nil, unrepeated] at one
    rw [reach, append_right_eq_self, flatten_replicate_eq_nil, unrepeated] at two
    tauto
  · intro kept
    refine ⟨sentWithdrawn.trans withdrawn, ?_, ?_, ?_⟩
    · rw [sentNLRI, unannounced, nil_append]
    · rw [unreach, append_right_eq_self, flatten_replicate_eq_nil, unrepeated]
      tauto
    · rw [reach, append_right_eq_self, flatten_replicate_eq_nil, unrepeated]
      tauto

end

/-- Behind attributes without routes, the last stage sends what waits and repeats what shows. -/
theorem splitNLRI_carried {pktLen paLen : UInt32}
    {assembly : Assembly} (few : paLen.toNat < 2 ^ 31) (small : pktLen.toNat < 2 ^ 30)
    (plain : assembly.attributes.items.flatMap routes = [])
    (single : (carriers routes assembly.pathAttrs).length ≤ 1)
    (room : assembly.pathAttrs.length ≤ assembly.attributes.spare) (nlris : List NLRI) :
    (splitNLRI nlris pktLen paLen assembly).flatMap
        (fun msg => msg.pathAttributes.flatMap routes) =
      assembly.carried routes ++
        (replicate (nlriPacking nlris paLen.toNat pktLen.toNat).closed.length
          ((assembly.attributes.insertAll assembly.pathAttrs).2.flatMap routes)).flatten := by
  rw [splitNLRI_routes assembly few small nlris fun _ => plain,
    (assembly.attributes.insertAll_of_room room).1, flatMap_foldl_add plain single]
  rfl

theorem otherAttrs_codes {pathAttrs : List BGPPathAttr} {pa : BGPPathAttr}
    (member : pa ∈ otherAttrs pathAttrs) : pa.getCode ≠ attrTypeMPUnreachNLRI := by
  have kept := (mem_filter.mp (mem_of_mem_filter member)).2
  simpa using kept

/-- The conditions under which a message that is too long keeps its multiprotocol routes. -/
structure CutKeeps (pathAttrs : List BGPPathAttr) (nlriList : List NLRI) (fill : Nat) : Prop where
  unreach : pathAttrs.flatMap BGPPathAttr.unreachRoutes = [] ∨ CutUnreach pathAttrs fill
  reach : pathAttrs.flatMap BGPPathAttr.reachRoutes = [] ∨
    CutReach pathAttrs (unreachFill (mpUnreachOf pathAttrs) fill)
  shown : (¬ CutUnreach pathAttrs fill ∧
      ¬ CutReach pathAttrs (unreachFill (mpUnreachOf pathAttrs) fill)) ∨
    4096 < reachFill (mpReachOf pathAttrs) (attrBytes (otherAttrs pathAttrs))
      (unreachFill (mpUnreachOf pathAttrs) fill) + attrBytes (otherAttrs pathAttrs) ∨
    reachFill (mpReachOf pathAttrs) (attrBytes (otherAttrs pathAttrs))
      (unreachFill (mpUnreachOf pathAttrs) fill) + attrBytes (otherAttrs pathAttrs) +
        nlriBytes nlriList ≤ 4096 ∨
    ∀ pa ∈ otherAttrs pathAttrs, pa.getCode ≤ attrTypeMPUnreachNLRI

/-- What the stages leave to be repeated, in terms of the message. -/
theorem repeats_nothing_iff {before : Assembly} {fill : Nat} {state : UInt32 × Assembly}
    (fits : Splittable before.attributes.items) (done : MPDone before fill state)
    (nlris : List NLRI) :
    let paLen := pathAttrsLen state.2.attributes.items
    let flushed := flushWaiting state.1 paLen state.2
    ((nlriPacking nlris paLen.toNat flushed.1.toNat).closed.length = 0 ∨
      ((flushed.2.attributes.insertAll flushed.2.pathAttrs).2.flatMap
        BGPPathAttr.unreachRoutes = [] ∧
      (flushed.2.attributes.insertAll flushed.2.pathAttrs).2.flatMap
        BGPPathAttr.reachRoutes = [])) ↔
    ((¬ CutUnreach before.attributes.items fill ∧ ¬ CutReach before.attributes.items
        (unreachFill (mpUnreachOf before.attributes.items) fill)) ∨
      4096 < state.1.toNat + attrBytes (otherAttrs before.attributes.items) ∨
      state.1.toNat + attrBytes (otherAttrs before.attributes.items) + nlriBytes nlris ≤ 4096 ∨
      ∀ pa ∈ otherAttrs before.attributes.items, pa.getCode ≤ attrTypeMPUnreachNLRI) := by
  intro paLen flushed
  have plain := fits.others_plain
  rw [← done.items] at plain
  have few := fits.others_small
  rw [← done.items] at few
  have bounded := done.bounded
  have counted : paLen.toNat = attrBytes state.2.attributes.items :=
    pathAttrsLen_toNat (by omega)
  rw [← done.items, ← done.idle]
  by_cases excess : 4096 < state.1.toNat + attrBytes state.2.attributes.items
  · -- What was waiting has been sent, so there is nothing to show twice.
    refine iff_of_true (.inr ?_) (.inr (.inl excess))
    have sent : flushed = _ := flushWaiting_over state.2 (by omega) (by omega) (by omega)
    rw [sent]
    exact plain
  · have same : flushed = (state.1, state.2) := flushWaiting_within state.2 (by omega)
    rw [same, counted]
    have carries := view_carries_iff done.waiting done.room
      (fun pa member => otherAttrs_codes (done.items ▸ member)) plain
    rw [nlriPacking_single (show state.1.toNat + _ ≤ 4096 by omega), carries]
    tauto

theorem view_silent {slice : AttrSlice}
    {waiting : List BGPPathAttr} (plain : slice.items.flatMap routes = [])
    (silent : waiting.flatMap routes = []) (room : waiting.length ≤ slice.spare) :
    (slice.insertAll waiting).2.flatMap routes = [] := by
  have single : (carriers routes waiting).length ≤ 1 := by
    rw [carriers_eq_nil silent]
    exact Nat.zero_le _
  have inserted := flatMap_foldl_add plain single
  rw [silent] at inserted
  rw [(slice.insertAll_of_room room).2, flatMap_eq_nil_iff]
  intro pa member
  exact flatMap_eq_nil_iff.mp inserted pa (mem_of_mem_take member)

/-- What the last stages repeat with every message of plain prefixes but one. -/
def repeatedRoutes {β : Type} (routes : BGPPathAttr → List β) (nlriList : List NLRI)
    (state : UInt32 × Assembly) : List β :=
  let paLen := pathAttrsLen state.2.attributes.items
  let flushed := flushWaiting state.1 paLen state.2
  (List.replicate (nlriPacking nlriList paLen.toNat flushed.1.toNat).closed.length
    ((flushed.2.attributes.insertAll flushed.2.pathAttrs).2.flatMap routes)).flatten

section Last

variable {state : UInt32 × Assembly}
  (few : (pathAttrsLen state.2.attributes.items).toNat < 2 ^ 30) (small : state.1.toNat < 2 ^ 30)
include few small

theorem flushWaiting_left :
    ((flushWaiting state.1 (pathAttrsLen state.2.attributes.items) state.2).2.pathAttrs = [] ∨
      (flushWaiting state.1 (pathAttrsLen state.2.attributes.items) state.2).2.pathAttrs =
        state.2.pathAttrs) ∧
    (flushWaiting state.1 (pathAttrsLen state.2.attributes.items) state.2).1.toNat < 2 ^ 30 := by
  by_cases excess : 4096 < state.1.toNat + (pathAttrsLen state.2.attributes.items).toNat
  · rw [flushWaiting_over _ few small excess]
    exact ⟨.inl rfl, show (23 : UInt32).toNat < 2 ^ 30 by decide⟩
  · rw [flushWaiting_within _ (by omega)]
    exact ⟨.inr rfl, small⟩

theorem lastStages_plain (nlris : List NLRI) :
    (lastStages nlris state).flatMap (fun msg => msg.withdrawnRoutes) = state.2.withdrawn ∧
    (lastStages nlris state).flatMap (fun msg => msg.nlri) = state.2.announced ++ nlris := by
  obtain ⟨withdrawn, announced, _⟩ := flushWaiting_plain state.2 few small
  rw [← withdrawn, ← announced]
  exact splitNLRI_plain _ (by omega) (flushWaiting_left few small).2 nlris

section

variable (plain : state.2.attributes.items.flatMap routes = [])

include plain

/-- The last stages send what is carried, and repeat what shows. -/
theorem lastStages_carried (single : (carriers routes state.2.pathAttrs).length ≤ 1)
    (room : state.2.pathAttrs.length ≤ state.2.attributes.spare) (nlris : List NLRI) :
    (lastStages nlris state).flatMap (fun msg => msg.pathAttributes.flatMap routes) =
      state.2.carried routes ++ repeatedRoutes routes nlris state := by
  obtain ⟨_, _, same⟩ := flushWaiting_plain state.2 few small
  obtain ⟨left, flushed⟩ := flushWaiting_left few small
  rw [← flushWaiting_carried state.2 few small plain single]
  refine splitNLRI_carried (by omega) flushed (by rw [same]; exact plain) ?_ ?_ nlris
  · rcases left with gone | kept
    · rw [gone]
      exact Nat.zero_le _
    · rw [kept]
      exact single
  · rw [same]
    rcases left with gone | kept
    · rw [gone]
      exact Nat.zero_le _
    · rw [kept]
      exact room

theorem repeatedRoutes_silent (silent : state.2.pathAttrs.flatMap routes = [])
    (room : state.2.pathAttrs.length ≤ state.2.attributes.spare) (nlris : List NLRI) :
    repeatedRoutes routes nlris state = [] := by
  obtain ⟨_, _, same⟩ := flushWaiting_plain state.2 few small
  refine (flatten_replicate_eq_nil _ _).mpr (.inr ?_)
  rw [same]
  rcases (flushWaiting_left few small).1 with gone | kept
  · rw [gone]
    exact plain
  · rw [kept]
    exact view_silent plain silent room

/-- Routes of a kind are kept when they were cut, if there are any, and nothing is repeated. -/
theorem lastStages_keeps {cut : Prop} {input : List β}
    (single : (carriers routes state.2.pathAttrs).length ≤ 1)
    (room : state.2.pathAttrs.length ≤ state.2.attributes.spare)
    (whenCut : cut → state.2.carried routes = input)
    (whenKept : ¬ cut → state.2.carried routes = []) (nlris : List NLRI) :
    (lastStages nlris state).flatMap (fun msg => msg.pathAttributes.flatMap routes) = input ↔
      (input = [] ∨ cut) ∧ repeatedRoutes routes nlris state = [] := by
  rw [lastStages_carried few small plain single room]
  by_cases isCut : cut
  · rw [whenCut isCut, append_right_eq_self]
    simp [isCut]
  · have silent := (append_eq_nil_iff.mp (whenKept isCut)).2
    rw [whenKept isCut, repeatedRoutes_silent few small plain silent room]
    simp only [append_nil, isCut, or_false, and_true]
    exact eq_comm

end

end Last

/-- A message that is too long keeps its routes exactly when its stages do. -/
theorem sameRoutes_over (fits : Splittable updateMsg.pathAttributes)
    (excess : 4096 < (withdrawnPacking updateMsg).fill + attrBytes updateMsg.pathAttributes) :
    ∃ msgs, constructMaxSizedUpdatePackets updateMsg spare = .ok msgs ∧ (SameRoutes updateMsg msgs ↔
        CutKeeps updateMsg.pathAttributes updateMsg.nlri (withdrawnPacking updateMsg).fill) := by
  have done : MPDone (openingAssembly updateMsg spare) _ _ := mpState_done fits
  refine ⟨_, constructMaxSizedUpdatePackets_over fits excess, ?_⟩
  generalize mpState updateMsg spare = state at done
  have repeats := or_and_left.symm.trans (repeats_nothing_iff fits done updateMsg.nlri)
  obtain ⟨plainUnreach, plainReach⟩ := fits.others_plain
  change (otherAttrs (openingAssembly updateMsg spare).attributes.items).flatMap _ = []
    at plainUnreach plainReach
  rw [← done.items] at plainUnreach plainReach
  have few := fits.others_small
  change attrBytes (otherAttrs (openingAssembly updateMsg spare).attributes.items) < _ at few
  rw [← done.items] at few
  have bounded := done.bounded
  have small : state.1.toNat < 2 ^ 30 := by omega
  have counted := pathAttrsLen_toNat (show attrBytes state.2.attributes.items < 2 ^ 32 by omega)
  have little : (pathAttrsLen state.2.attributes.items).toNat < 2 ^ 30 := by omega
  obtain ⟨withdrawn, unannounced, silent⟩ := openingAssembly_carries updateMsg spare
  obtain ⟨sentWithdrawn, sentNLRI⟩ := lastStages_plain little small updateMsg.nlri
  have start : ∀ {β : Type} (routes : BGPPathAttr → List β),
      (openingAssembly updateMsg spare).carried routes = [] := by
    intro β routes
    rw [Assembly.carried, silent]
    rfl
  have unreach := lastStages_keeps little small plainUnreach done.waiting.single.1 done.room
    (fun cut => by rw [done.unreach.all cut, start, nil_append])
    (fun kept => (done.unreach.nothing kept).trans (start _)) updateMsg.nlri
  have reach := lastStages_keeps little small plainReach done.waiting.single.2 done.room
    (fun cut => by rw [done.reach.all cut, start, nil_append])
    (fun kept => (done.reach.nothing kept).trans (start _)) updateMsg.nlri
  rw [repeatedRoutes, flatten_replicate_eq_nil] at unreach reach
  rw [done.filled] at repeats
  constructor
  · intro same
    obtain ⟨cutUnreach, once⟩ := unreach.mp same.unreach
    obtain ⟨cutReach, onceReach⟩ := reach.mp same.reach
    exact ⟨cutUnreach, cutReach, repeats.mp ⟨once, onceReach⟩⟩
  · intro keeps
    obtain ⟨once, onceReach⟩ := repeats.mpr keeps.shown
    refine ⟨sentWithdrawn.trans (done.withdrawn.trans withdrawn), ?_,
      unreach.mpr ⟨keeps.unreach, once⟩, reach.mpr ⟨keeps.reach, onceReach⟩⟩
    rw [sentNLRI, done.announced, unannounced, nil_append]

end Whole

/--
The messages whose routes all survive, in terms of what was to be cut.

With everything in front of the plain prefixes in one message, its attributes are repeated with
every message of prefixes, so there may be only one or no multiprotocol routes to repeat.
-/
def RoutesKept (updateMsg : BGPUpdate) : Prop :=
  let fill := (withdrawnPacking updateMsg).fill
  let paLen := attrBytes updateMsg.pathAttributes
  if fill + paLen ≤ 4096 then
    fill + paLen + nlriBytes updateMsg.nlri ≤ 4096 ∨
      (updateMsg.pathAttributes.flatMap BGPPathAttr.unreachRoutes = [] ∧
        updateMsg.pathAttributes.flatMap BGPPathAttr.reachRoutes = [])
  else CutKeeps updateMsg.pathAttributes updateMsg.nlri fill

/-- Cutting a message loses, repeats or reorders no route exactly under `RoutesKept`. -/
theorem maxSized_sameRoutes_iff (updateMsg : BGPUpdate) (spare : Nat)
    (fits : Splittable updateMsg.pathAttributes) :
    ∃ msgs, constructMaxSizedUpdatePackets updateMsg spare = .ok msgs ∧
      (SameRoutes updateMsg msgs ↔ RoutesKept updateMsg) := by
  unfold RoutesKept
  by_cases within : (withdrawnPacking updateMsg).fill + attrBytes updateMsg.pathAttributes ≤ 4096
  · simp only [if_pos within]
    exact sameRoutes_within fits within
  · simp only [if_neg within]
    exact sameRoutes_over fits (by omega)

/-- One community list of 4060 bytes, one unreachable prefix and one reachable one. -/
def crowdedUpdate : BGPUpdate where
  withdrawnRoutesLen := 0
  withdrawnRoutes := []
  totalPathAttrLen := 4075
  pathAttributes :=
    [.unknown ⟨⟨0xd0, 8, 4060, 4⟩, List.replicate 4060 0⟩,
      .mpUnreachNLRI (constructMPUnreachNLRI afiIP6 1 [.ip ⟨24, List.replicate 16 0⟩])]
  nlri := [.ip ⟨24, [10, 0, 0, 0]⟩]

/-- One community list and more prefixes than one message has room for. -/
def longUpdate : BGPUpdate where
  withdrawnRoutesLen := 0
  withdrawnRoutes := []
  totalPathAttrLen := 8
  pathAttributes := [.unknown ⟨⟨0xd0, 8, 4, 4⟩, [0, 0, 0, 0]⟩]
  nlri := List.replicate 2000 (.ip ⟨24, [10, 0, 0, 0]⟩)

/-- The prefixes are cut, and all of them are sent with the community list. -/
theorem maxSized_long_kept : RoutesKept longUpdate ∧ ∃ msgs,
    constructMaxSizedUpdatePackets longUpdate 0 = .ok msgs ∧ SameRoutes longUpdate msgs := by
  have splittable : Splittable longUpdate.pathAttributes :=
    ⟨by decide, by decide, by decide, by decide, by decide⟩
  have kept : RoutesKept longUpdate := by
    rw [RoutesKept]
    exact (if_pos (by decide)).mpr (.inr ⟨rfl, rfl⟩)
  obtain ⟨msgs, done, same⟩ := maxSized_sameRoutes_iff longUpdate 0 splittable
  exact ⟨kept, msgs, done, same.mpr kept⟩

/-- The only message that comes back has the community list and the reachable prefix. -/
theorem maxSized_crowded_loses : ∃ msg, constructMaxSizedUpdatePackets crowdedUpdate 0 = .ok [msg] ∧
      msg.pathAttributes.length = 1 ∧ ¬ SameRoutes crowdedUpdate [msg] := by
  refine ⟨_, rfl, rfl, ?_⟩
  intro same
  exact absurd same.unreach (by decide)

end FlexSwitch.Packet
