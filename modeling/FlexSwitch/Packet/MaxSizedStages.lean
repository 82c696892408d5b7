import FlexSwitch.Packet.MaxSizedLoop

/-! What the stages that take the multiprotocol attributes apart do to the routes. -/

namespace FlexSwitch.Packet

open Go List

/-- The prefixes an MP_UNREACH_NLRI attribute reports unreachable, each with its family. -/
def BGPPathAttrMPUnreachNLRI.routes (attr : BGPPathAttrMPUnreachNLRI) :
    List (UInt16 × UInt8 × NLRI) :=
  attr.nlri.map fun nlri => (attr.afi, attr.safi, nlri)

/-- The prefixes an MP_REACH_NLRI attribute announces, each with its family and next hop. -/
def BGPPathAttrMPReachNLRI.routes (attr : BGPPathAttrMPReachNLRI) :
    List (UInt16 × UInt8 × MPNextHop × NLRI) :=
  attr.nlri.map fun nlri => (attr.afi, attr.safi, attr.nextHop, nlri)

/-- The routes of an attribute, if it is one of the type that carries them. -/
def routesOf {α β : Type} (type : BGPPathAttr → Option α) (routes : α → List β)
    (pa : BGPPathAttr) : List β :=
  (type pa).elim [] routes

/-- The unreachable routes of any attribute. -/
def BGPPathAttr.unreachRoutes : BGPPathAttr → List (UInt16 × UInt8 × NLRI) :=
  routesOf asMPUnreachNLRI BGPPathAttrMPUnreachNLRI.routes

/-- The announced routes of any attribute. -/
def BGPPathAttr.reachRoutes : BGPPathAttr → List (UInt16 × UInt8 × MPNextHop × NLRI) :=
  routesOf asMPReachNLRI BGPPathAttrMPReachNLRI.routes

/-- The messages together carry the routes of one message, each once and in order. -/
structure SameRoutes (updateMsg : BGPUpdate) (msgs : List BGPUpdate) : Prop where
  withdrawn : msgs.flatMap (fun msg => msg.withdrawnRoutes) = updateMsg.withdrawnRoutes
  nlri : msgs.flatMap (fun msg => msg.nlri) = updateMsg.nlri
  unreach : msgs.flatMap (fun msg => msg.pathAttributes.flatMap BGPPathAttr.unreachRoutes) =
    updateMsg.pathAttributes.flatMap BGPPathAttr.unreachRoutes
  reach : msgs.flatMap (fun msg => msg.pathAttributes.flatMap BGPPathAttr.reachRoutes) =
    updateMsg.pathAttributes.flatMap BGPPathAttr.reachRoutes

/--
The attributes are ones the rest of the code can have built.

The multiprotocol attributes and only they have the multiprotocol codes, there is at most one of
each, and all attributes together are far from wrapping the 32-bit sums.
-/
structure Splittable (pathAttrs : List BGPPathAttr) : Prop where
  reach : ∀ pa ∈ pathAttrs, (pa.getCode == attrTypeMPReachNLRI) = pa.asMPReachNLRI.isSome
  unreach : ∀ pa ∈ pathAttrs, (pa.getCode == attrTypeMPUnreachNLRI) = pa.asMPUnreachNLRI.isSome
  oneReach : (pathAttrs.filter fun pa => pa.getCode == attrTypeMPReachNLRI).length ≤ 1
  oneUnreach : (pathAttrs.filter fun pa => pa.getCode == attrTypeMPUnreachNLRI).length ≤ 1
  small : attrBytes pathAttrs < 2 ^ 30

/-- The MP_REACH_NLRI attribute of a message. -/
def mpReachOf (pathAttrs : List BGPPathAttr) : Option BGPPathAttrMPReachNLRI :=
  pathAttrs.findSome? BGPPathAttr.asMPReachNLRI

/-- The MP_UNREACH_NLRI attribute of a message. -/
def mpUnreachOf (pathAttrs : List BGPPathAttr) : Option BGPPathAttrMPUnreachNLRI :=
  pathAttrs.findSome? BGPPathAttr.asMPUnreachNLRI

/-- The attributes without MP_UNREACH_NLRI. -/
def withoutUnreach (pathAttrs : List BGPPathAttr) : List BGPPathAttr :=
  pathAttrs.filter fun pa => !(pa.getCode == attrTypeMPUnreachNLRI)

/-- The attributes that are not multiprotocol ones. -/
def otherAttrs (pathAttrs : List BGPPathAttr) : List BGPPathAttr :=
  (withoutUnreach pathAttrs).filter fun pa => !(pa.getCode == attrTypeMPReachNLRI)

section Lists

variable {α β : Type} {routes : α → List β}

/-- Erasing the only element with a property is keeping the others. -/
theorem eraseP_eq_filter {holds : α → Bool} {items : List α}
    (single : (items.filter holds).length ≤ 1) :
    items.eraseP holds = items.filter fun item => !holds item := by
  induction items with
  | nil => rfl
  | cons item items ih =>
    by_cases here : holds item
    · -- No later element has the property, so the filter keeps all of them.
      simp only [filter_cons, here, if_true, length_cons] at single
      have noOther : items.filter holds = [] := eq_nil_of_length_eq_zero (by omega)
      have keep : items.filter (fun item => !holds item) = items := by
        rw [filter_eq_self]
        intro other member
        have lacks := filter_eq_nil_iff.mp noOther other member
        simpa using lacks
      simp [here, keep]
    · simp only [filter_cons, here, Bool.false_eq_true, if_false] at single
      simp [here, ih single]

/-- If only one element has any routes, their order in the list does not matter. -/
theorem flatMap_eq_of_perm {left right : List α} (same : left.Perm right)
    (single : (left.filter fun item => !(routes item).isEmpty).length ≤ 1) :
    left.flatMap routes = right.flatMap routes := by
  have carriers : ∀ items : List α, items.flatMap routes =
      (items.filter fun item => !(routes item).isEmpty).flatMap routes := by
    intro items
    induction items with
    | nil => rfl
    | cons item items ih =>
      cases empty : (routes item).isEmpty with
      | true => simp [isEmpty_iff.mp empty, ih]
      | false => simp [empty, ih]
  rw [carriers left, carriers right]
  -- The two lists of carriers are rearrangements of at most one element.
  have moved := same.filter fun item => !(routes item).isEmpty
  match left.filter fun item => !(routes item).isEmpty, single, moved with
  | [], _, moved => rw [nil_perm.mp moved]
  | [_], _, moved => rw [singleton_perm.mp moved]

end Lists

variable {α β : Type} {type : BGPPathAttr → Option α} {routes : α → List β}

section Splittable

variable {pathAttrs : List BGPPathAttr}

/-- The first attribute with the multiprotocol code is the one the interface holds. -/
theorem Splittable.getMPAttrs (fits : Splittable pathAttrs) :
    getMPAttrs pathAttrs = .ok (mpReachOf pathAttrs, mpUnreachOf pathAttrs) := by
  rw [Packet.getMPAttrs, assertFound_getType fits.reach, Outcome.ok_bind,
    assertFound_getType fits.unreach, Outcome.ok_bind]
  rfl

/-- Taking out the only attribute with a code keeps the others, and leaves room for one. -/
theorem removeType_eq (slice : AttrSlice) {code : UInt8}
    (single : (slice.items.filter fun pa => pa.getCode == code).length ≤ 1) :
    (slice.removeType code).items = (slice.items.filter fun pa => !(pa.getCode == code)) ∧
    (slice.removeType code).spare =
      slice.spare + (if (getTypeFromPathAttrs slice.items code).isSome then 1 else 0) := by
  unfold AttrSlice.removeType
  cases found : getTypeFromPathAttrs slice.items code with
  | some pa => exact ⟨eraseP_eq_filter single, rfl⟩
  | none =>
    -- Nothing has the code, so nothing is filtered out.
    refine ⟨?_, rfl⟩
    symm
    rw [filter_eq_self]
    intro pa member
    have lacks := find?_eq_none.mp found pa member
    simpa using lacks

theorem flatMap_routesOf_silent (untyped : ∀ pa ∈ pathAttrs, (type pa).isSome = false) :
    pathAttrs.flatMap (routesOf type routes) = [] := by
  rw [flatMap_eq_nil_iff]
  intro pa member
  have other := untyped pa member
  rw [Option.isSome_eq_false_iff, Option.isNone_iff_eq_none] at other
  simp [routesOf, other]

/-- The routes of a message are those of its one attribute of the type. -/
theorem flatMap_routesOf {code : UInt8}
    (typed : ∀ pa ∈ pathAttrs, (pa.getCode == code) = (type pa).isSome)
    (single : (pathAttrs.filter fun pa => pa.getCode == code).length ≤ 1) :
    pathAttrs.flatMap (routesOf type routes) = (pathAttrs.findSome? type).elim [] routes := by
  rw [filter_congr typed] at single
  clear typed
  induction pathAttrs with
  | nil => rfl
  | cons pa pathAttrs ih =>
    rw [flatMap_cons, findSome?_cons]
    cases known : type pa with
    | none =>
      simp only [filter_cons, known, Option.isSome_none, Bool.false_eq_true, if_false] at single
      have nothing : routesOf type routes pa = [] := by simp [routesOf, known]
      rw [nothing, nil_append]
      exact ih single
    | some value =>
      -- The attributes behind this one are of other types and carry nothing.
      simp only [filter_cons, known, Option.isSome_some, if_true, length_cons] at single
      have noOther : (pathAttrs.filter fun pa => (type pa).isSome) = [] :=
        eq_nil_of_length_eq_zero (by omega)
      have rest : pathAttrs.flatMap (routesOf type routes) = [] :=
        flatMap_routesOf_silent fun other member => by
          simpa using filter_eq_nil_iff.mp noOther other member
      simp [rest, routesOf, known]

theorem flatMap_routesOf_eq_nil {code : UInt8}
    (typed : ∀ pa ∈ pathAttrs, (pa.getCode == code) = (type pa).isSome) :
    (pathAttrs.filter fun pa => !(pa.getCode == code)).flatMap (routesOf type routes) = [] := by
  refine flatMap_routesOf_silent fun pa member => ?_
  obtain ⟨present, other⟩ := mem_filter.mp member
  rw [← typed pa present]
  simpa using other

end Splittable

/-- The withdrawn routes in the messages so far and those still waiting. -/
def Assembly.withdrawn (assembly : Assembly) : List NLRI :=
  assembly.newUpdateMsgs.flatMap (fun msg => msg.withdrawnRoutes) ++ assembly.withdrawnRoutes

/-- The plain prefixes in the messages so far. -/
def Assembly.announced (assembly : Assembly) : List NLRI :=
  assembly.newUpdateMsgs.flatMap fun msg => msg.nlri

/-- The routes in the attributes of the messages so far and in those still waiting. -/
def Assembly.carried {β : Type} (routes : BGPPathAttr → List β) (assembly : Assembly) : List β :=
  assembly.newUpdateMsgs.flatMap (fun msg => msg.pathAttributes.flatMap routes) ++
    assembly.pathAttrs.flatMap routes

variable {routes : BGPPathAttr → List β}

section Headed

variable {withdrawn : List NLRI} {firstAttrs restAttrs : List NLRI → List BGPPathAttr}
  {plain : List NLRI → List NLRI}

/-- The first bin takes all withdrawn routes along, or they are still waiting. -/
theorem withdrawn_headed (bins : List (List NLRI)) :
    (headed withdrawn firstAttrs restAttrs plain bins).flatMap (fun msg => msg.withdrawnRoutes) ++
      (if bins = [] then withdrawn else []) = withdrawn := by
  cases bins with
  | nil => rfl
  | cons bin bins => simp [headed, newBGPUpdateMessage, flatMap_map]

theorem nlri_headed (bins : List (List NLRI)) :
    (headed withdrawn firstAttrs restAttrs plain bins).flatMap (fun msg => msg.nlri) =
      bins.flatMap plain := by
  cases bins with
  | nil => rfl
  | cons bin bins => simp [headed, newBGPUpdateMessage, flatMap_map]

/-- The routes in the attributes come bin by bin, what the first takes along in front. -/
theorem routes_headed (along : List β) (each : List NLRI → List β)
    (firstPart : ∀ bin, (firstAttrs bin).flatMap routes = along ++ each bin)
    (restPart : ∀ bin, (restAttrs bin).flatMap routes = each bin) (bins : List (List NLRI)) :
    (headed withdrawn firstAttrs restAttrs plain bins).flatMap
        (fun msg => msg.pathAttributes.flatMap routes) =
      (if bins = [] then [] else along) ++ bins.flatMap each := by
  cases bins with
  | nil => rfl
  | cons bin bins => simp [headed, newBGPUpdateMessage, firstPart, restPart, flatMap_map]

end Headed

theorem flatMap_packing (rule : PackingRule NLRI) (start : Nat) (items : List NLRI)
    (each : NLRI → List β) : (rule.pack start items).closed.flatMap (fun bin => bin.flatMap each) ++
      (rule.pack start items).current.flatMap each = items.flatMap each := by
  have whole := congrArg (flatMap each) (rule.pack_flatten start items)
  rw [← whole, flatMap_append, flatten_eq_flatMap, flatMap_assoc]
  rfl

/-- The attributes that carry routes of a kind. -/
def carriers {β : Type} (routes : BGPPathAttr → List β) (pathAttrs : List BGPPathAttr) :
    List BGPPathAttr :=
  pathAttrs.filter fun pa => !(routes pa).isEmpty

theorem carriers_eq_nil {pathAttrs : List BGPPathAttr}
    (plain : pathAttrs.flatMap routes = []) : carriers routes pathAttrs = [] := by
  rw [carriers, filter_eq_nil_iff]
  intro pa member
  simp [flatMap_eq_nil_iff.mp plain pa member]

/-- Putting attributes among others that carry nothing does not change what they carry. -/
theorem flatMap_foldl_add {others attrs : List BGPPathAttr} (plain : others.flatMap routes = [])
    (single : (carriers routes attrs).length ≤ 1) :
    (attrs.foldl addPathAttrToPathAttrs others).flatMap routes = attrs.flatMap routes := by
  have moved := (foldl_addPathAttr_perm attrs others).symm
  have alone : (carriers routes (others ++ attrs)).length ≤ 1 := by
    rw [carriers, filter_append, ← carriers, carriers_eq_nil plain]
    exact single
  rw [← flatMap_eq_of_perm moved alone, flatMap_append, plain, nil_append]

section Cut

variable {assembly : Assembly} {others : List BGPPathAttr} {chunkPA : List NLRI → BGPPathAttr}

/-- Cutting prefixes hands on the withdrawn routes and adds no plain ones. -/
theorem cutAssembly_plain (assembly : Assembly) (attributes : AttrSlice)
    (others : List BGPPathAttr) (chunkPA : List NLRI → BGPPathAttr) (packing : Packing NLRI) :
    (cutAssembly assembly attributes others chunkPA packing).withdrawn = assembly.withdrawn ∧
    (cutAssembly assembly attributes others chunkPA packing).announced = assembly.announced := by
  simp only [cutAssembly, Assembly.withdrawn, Assembly.announced, flatMap_append, append_assoc]
  rw [withdrawn_headed, nlri_headed]
  simp

/-- Prefixes that are cut are all carried, in their order, and so is what was waiting. -/
theorem cutAssembly_carried {each : NLRI → List β}
    (carries : ∀ chunk, routes (chunkPA chunk) = chunk.flatMap each)
    (plain : others.flatMap routes = []) (short : assembly.pathAttrs.length ≤ 1)
    (alone : assembly.pathAttrs.flatMap routes = [] ∨ ∀ nlri, each nlri = [])
    (attributes : AttrSlice) (rule : PackingRule NLRI) (start : Nat) (items : List NLRI) :
    (cutAssembly assembly attributes others chunkPA (rule.pack start items)).carried routes =
      assembly.carried routes ++ items.flatMap each := by
  -- A chunk and what is waiting never both carry routes of this kind.
  have single : ∀ chunk, (carriers routes (chunkPA chunk :: assembly.pathAttrs)).length ≤ 1 := by
    intro chunk
    rcases alone with idle | silent
    · rw [carriers, filter_cons, ← carriers, carriers_eq_nil idle]
      split <;> simp
    · have nothing : routes (chunkPA chunk) = [] := by
        rw [carries, flatMap_eq_nil_iff]
        intro nlri _
        exact silent nlri
      rw [carriers, filter_cons]
      simp only [nothing, isEmpty_nil, Bool.not_true, Bool.false_eq_true, if_false]
      exact le_trans (length_filter_le _ _) short
  have commute : ∀ chunk : List NLRI, chunk.flatMap each ++ assembly.pathAttrs.flatMap routes =
      assembly.pathAttrs.flatMap routes ++ chunk.flatMap each := by
    intro chunk
    rcases alone with idle | silent
    · simp [idle]
    · have nothing : chunk.flatMap each = [] := by
        rw [flatMap_eq_nil_iff]
        intro nlri _
        exact silent nlri
      simp [nothing]
  have restPart : ∀ bin, (cutAttrs others chunkPA bin).flatMap routes = bin.flatMap each := by
    intro bin
    unfold cutAttrs
    split
    · simp_all
    · have one : (carriers routes [chunkPA bin]).length ≤ 1 :=
        length_filter_le _ _
      have inserted := flatMap_foldl_add plain one
      simpa [carries] using inserted
  have firstPart : ∀ bin, (assembly.pathAttrs.foldl addPathAttrToPathAttrs
      (cutAttrs others chunkPA bin)).flatMap routes =
        assembly.pathAttrs.flatMap routes ++ bin.flatMap each := by
    intro bin
    unfold cutAttrs
    split
    · rename_i empty
      have waiting : (carriers routes assembly.pathAttrs).length ≤ 1 :=
        le_trans (length_filter_le _ _) short
      rw [flatMap_foldl_add rfl waiting, empty]
      simp
    · have inserted := flatMap_foldl_add plain (single bin)
      rw [foldl_cons, flatMap_cons, carries, commute] at inserted
      exact inserted
  simp only [cutAssembly, Assembly.carried, flatMap_append]
  rw [routes_headed _ (fun bin => bin.flatMap each) firstPart restPart,
    ← flatMap_packing rule start items each]
  generalize rule.pack start items = packing
  by_cases unclosed : packing.closed = []
  · have moved := addPathAttrToPathAttrsByCode_perm assembly.pathAttrs
      (chunkPA packing.current).getCode (chunkPA packing.current)
    have inserted := flatMap_eq_of_perm moved.symm (single packing.current)
    rw [flatMap_cons, carries, commute] at inserted
    simp only [unclosed, if_true, flatMap_nil, append_nil, nil_append,
      addPathAttrToPathAttrs, ← inserted, append_assoc]
  · simp only [unclosed, if_false, append_assoc]
    rw [show addPathAttrToPathAttrs [] (chunkPA packing.current) =
      [chunkPA packing.current] from rfl]
    simp [carries]

end Cut

/-- How full the message is once the unreachable prefixes have been dealt with. -/
def unreachFill (mpUnreach : Option BGPPathAttrMPUnreachNLRI) (fill : Nat) : Nat :=
  match mpUnreach with
  | some attr =>
    if UnreachCut attr fill then (unreachPacking attr fill).fill + unreachBase attr else fill
  | none => fill

/-- How full it is once the reachable prefixes have been dealt with too. -/
def reachFill (mpReach : Option BGPPathAttrMPReachNLRI) (others fill : Nat) : Nat :=
  match mpReach with
  | some attr =>
    if ReachCut attr others fill then (reachPacking attr others fill).fill + reachBase attr
    else fill
  | none => fill

/-- The attributes that can be waiting for a message: the last bins of what was cut. -/
inductive Waiting : List BGPPathAttr → Prop where
  | nothing : Waiting []
  | unreach (mpUnreach : BGPPathAttrMPUnreachNLRI) {chunk : List NLRI} (nonempty : chunk ≠ []) :
      Waiting [unreachPA mpUnreach chunk]
  | reach (mpReach : BGPPathAttrMPReachNLRI) {chunk : List NLRI} (nonempty : chunk ≠ []) :
      Waiting [reachPA mpReach chunk]
  | both (mpReach : BGPPathAttrMPReachNLRI) (mpUnreach : BGPPathAttrMPUnreachNLRI)
      {chunk rest : List NLRI} (nonempty : chunk ≠ []) (more : rest ≠ []) :
      Waiting [reachPA mpReach chunk, unreachPA mpUnreach rest]

@[simp] theorem unreachPA_getCode (mpUnreach : BGPPathAttrMPUnreachNLRI) (chunk : List NLRI) :
    (unreachPA mpUnreach chunk).getCode = attrTypeMPUnreachNLRI := rfl

@[simp] theorem reachPA_getCode (mpReach : BGPPathAttrMPReachNLRI) (chunk : List NLRI) :
    (reachPA mpReach chunk).getCode = attrTypeMPReachNLRI := rfl

/-- The chunk of unreachable prefixes carries the chunk's routes under the attribute's family. -/
theorem unreachPA_routes (mpUnreach : BGPPathAttrMPUnreachNLRI) (chunk : List NLRI) :
    (unreachPA mpUnreach chunk).unreachRoutes =
      chunk.flatMap fun nlri => [(mpUnreach.afi, mpUnreach.safi, nlri)] := by
  rw [← map_eq_flatMap]
  rfl

theorem unreachPA_reachRoutes (mpUnreach : BGPPathAttrMPUnreachNLRI) (chunk : List NLRI) :
    (unreachPA mpUnreach chunk).reachRoutes = chunk.flatMap fun _ => [] := by
  rw [flatMap_eq_nil_iff.mpr fun _ _ => rfl]
  rfl

/-- The chunk of reachable prefixes carries the chunk's routes with family and next hop. -/
theorem reachPA_routes (mpReach : BGPPathAttrMPReachNLRI) (chunk : List NLRI) :
    (reachPA mpReach chunk).reachRoutes =
      chunk.flatMap fun nlri => [(mpReach.afi, mpReach.safi, mpReach.nextHop, nlri)] := by
  rw [← map_eq_flatMap]
  rfl

theorem reachPA_unreachRoutes (mpReach : BGPPathAttrMPReachNLRI) (chunk : List NLRI) :
    (reachPA mpReach chunk).unreachRoutes = chunk.flatMap fun _ => [] := by
  rw [flatMap_eq_nil_iff.mpr fun _ _ => rfl]
  rfl

section Stages

variable {pathAttrs : List BGPPathAttr} {pktLen : UInt32} {assembly : Assembly}

/-- What the stage for the unreachable prefixes leaves, be there such an attribute or not. -/
def unreachStage (mpUnreach : Option BGPPathAttrMPUnreachNLRI) (pktLen : UInt32)
    (assembly : Assembly) : UInt32 × Assembly :=
  match mpUnreach with
  | some attr => splitUnreach attr pktLen assembly
  | none => (pktLen, assembly)

/-- What the stage for the reachable prefixes leaves, be there such an attribute or not. -/
def reachStage (mpReach : Option BGPPathAttrMPReachNLRI) (pktLen : UInt32)
    (assembly : Assembly) : UInt32 × Assembly :=
  match mpReach with
  | some attr => splitReach attr pktLen assembly
  | none => (pktLen, assembly)

/-- A message that is too long has its multiprotocol attributes taken apart. -/
theorem splitMPAttrs_over (fits : Splittable assembly.attributes.items)
    (small : pktLen.toNat < 2 ^ 30)
    (excess : 4096 < pktLen.toNat + attrBytes assembly.attributes.items) :
    splitMPAttrs pktLen assembly = .ok (reachStage (mpReachOf assembly.attributes.items)
        (unreachStage (mpUnreachOf assembly.attributes.items) pktLen assembly).1
        (unreachStage (mpUnreachOf assembly.attributes.items) pktLen assembly).2) := by
  have bytes := fits.small
  have counted := pathAttrsLen_toNat (show attrBytes assembly.attributes.items < 2 ^ 32 by omega)
  rw [splitMPAttrs, if_pos ((too_long_iff (by omega)).mpr (by omega)), fits.getMPAttrs, Outcome.ok_bind]
  rfl

/-- A message that fits with all its attributes keeps them as they are. -/
theorem splitMPAttrs_within (small : attrBytes assembly.attributes.items < 2 ^ 30)
    (within : pktLen.toNat + attrBytes assembly.attributes.items ≤ 4096) :
    splitMPAttrs pktLen assembly = .ok (pktLen, assembly) := by
  have counted := pathAttrsLen_toNat (show attrBytes assembly.attributes.items < 2 ^ 32 by omega)
  rw [splitMPAttrs, if_neg (mt (too_long_iff (by omega)).mp (by omega))]
  rfl

/-- The message has unreachable prefixes, and they are packed anew. -/
def CutUnreach (pathAttrs : List BGPPathAttr) (fill : Nat) : Prop :=
  ∃ attr, mpUnreachOf pathAttrs = some attr ∧ UnreachCut attr fill

/-- The message has reachable prefixes, and they are packed anew. -/
def CutReach (pathAttrs : List BGPPathAttr) (fill : Nat) : Prop :=
  ∃ attr, mpReachOf pathAttrs = some attr ∧ ReachCut attr (attrBytes (otherAttrs pathAttrs)) fill

/-- The routes of a kind that are carried on, with those of the message if its prefixes are cut. -/
structure Gains {β : Type} (routes : BGPPathAttr → List β) (cut : Prop)
    (before after : Assembly) : Prop where
  all : cut → after.carried routes = before.carried routes ++ before.attributes.items.flatMap routes
  nothing : ¬ cut → after.carried routes = before.carried routes

/-- What the stage for the unreachable prefixes does to what is carried and what waits. -/
structure UnreachDone (before : Assembly) (fill : Nat) (after : UInt32 × Assembly) : Prop where
  filled : after.1.toNat = unreachFill (mpUnreachOf before.attributes.items) fill
  bounded : after.1.toNat < 2 ^ 17
  items : after.2.attributes.items = withoutUnreach before.attributes.items
  withdrawn : after.2.withdrawn = before.withdrawn
  announced : after.2.announced = before.announced
  reach : after.2.carried BGPPathAttr.reachRoutes = before.carried BGPPathAttr.reachRoutes
  unreach : Gains BGPPathAttr.unreachRoutes (CutUnreach before.attributes.items fill) before after.2
  outcome : (¬ CutUnreach before.attributes.items fill ∧ after.2.pathAttrs = []) ∨
    (CutUnreach before.attributes.items fill ∧
      (∃ mpUnreach chunk, chunk ≠ [] ∧ after.2.pathAttrs = [unreachPA mpUnreach chunk]) ∧
      1 ≤ after.2.attributes.spare)

/-- Looking an attribute up by its code finds it when the message has one of the type. -/
theorem getType_isSome {code : UInt8}
    (typed : ∀ pa ∈ pathAttrs, (pa.getCode == code) = (type pa).isSome) {value : α}
    (found : pathAttrs.findSome? type = some value) :
    (getTypeFromPathAttrs pathAttrs code).isSome := by
  have same := assertFound_getType typed
  rw [found] at same
  cases lookup : getTypeFromPathAttrs pathAttrs code with
  | some pa => rfl
  | none =>
    rw [lookup] at same
    cases same

theorem chunk_fill_le {baseLen start bound : Nat} (begun : start ≤ bound) (full : 4096 ≤ bound)
    (items : List NLRI) : ((chunkRule baseLen).pack start items).fill ≤ bound := by
  refine (chunkRule baseLen).pack_fill_le begun full ?_ items
  intro item
  have size := item.len_le
  show 23 + item.len.toNat ≤ bound
  omega

/-- The stage for the unreachable prefixes keeps track of everything. -/
theorem unreachStage_done (fits : Splittable assembly.attributes.items)
    (idle : assembly.pathAttrs = []) (small : pktLen.toNat ≤ 4096) :
    UnreachDone assembly pktLen.toNat
      (unreachStage (mpUnreachOf assembly.attributes.items) pktLen assembly) := by
  have typed := fits.unreach
  have routes : assembly.attributes.items.flatMap BGPPathAttr.unreachRoutes =
      (mpUnreachOf assembly.attributes.items).elim [] BGPPathAttrMPUnreachNLRI.routes :=
    flatMap_routesOf typed fits.oneUnreach
  have taken := removeType_eq assembly.attributes fits.oneUnreach
  have little : pktLen.toNat < 2 ^ 30 := by omega
  cases found : mpUnreachOf assembly.attributes.items with
  | none =>
    have uncut : ¬ CutUnreach assembly.attributes.items pktLen.toNat := by
      simp [CutUnreach, found]
    have kept : withoutUnreach assembly.attributes.items = assembly.attributes.items := by
      rw [withoutUnreach, filter_eq_self]
      intro pa member
      have lacks := findSome?_eq_none_iff.mp found pa member
      rw [typed pa member, lacks]
      rfl
    exact ⟨by rw [found]; rfl, by simp only [unreachStage]; omega, kept.symm, rfl, rfl, rfl,
      ⟨fun cut => absurd cut uncut, fun _ => rfl⟩, .inl ⟨uncut, idle⟩⟩
  | some attr =>
    have spare := getType_isSome typed found
    rw [if_pos spare] at taken
    have stage : unreachStage (some attr) pktLen assembly = _ :=
      splitUnreach_eq assembly attr little idle
    rw [stage]
    by_cases cut : UnreachCut attr pktLen.toNat
    · have fill : (unreachPacking attr pktLen.toNat).fill ≤ 4096 :=
        chunk_fill_le small (le_refl _) attr.nlri
      have width := attr.bgpPathAttrLen.toNat_lt
      have filled : (UInt32.ofNat ((unreachPacking attr pktLen.toNat).fill +
          unreachBase attr)).toNat = (unreachPacking attr pktLen.toNat).fill + unreachBase attr := by
        rw [UInt32.toNat_ofNat', unreachBase]
        omega
      obtain ⟨withdrawn, announced⟩ := cutAssembly_plain assembly
        (assembly.attributes.removeType attrTypeMPUnreachNLRI) [] _
        (unreachPacking attr pktLen.toNat)
      have carried {β : Type} {routes : BGPPathAttr → List β} {each : NLRI → List β}
          (carries : ∀ chunk, routes (unreachPA attr chunk) = chunk.flatMap each) :=
        @cutAssembly_carried β routes assembly [] _ each carries rfl (by simp [idle])
          (.inl (by simp [idle])) (assembly.attributes.removeType attrTypeMPUnreachNLRI)
          (chunkRule (unreachBase attr)) pktLen.toNat attr.nlri
      -- The announced routes gain nothing from an attribute of unreachable ones.
      have reach := carried (unreachPA_reachRoutes attr)
      rw [flatMap_eq_nil_iff.mpr fun _ _ => rfl, append_nil] at reach
      have unreach := carried (unreachPA_routes attr)
      rw [← map_eq_flatMap] at unreach
      have isCut : CutUnreach assembly.attributes.items pktLen.toNat := ⟨attr, found, cut⟩
      rw [if_pos cut]
      refine ⟨?_, ?_, taken.1, withdrawn, announced, reach, ⟨fun _ => ?_, fun un => absurd isCut un⟩,
        .inr ⟨isCut, ⟨attr, (unreachPacking attr pktLen.toNat).current, ?_, ?_⟩, ?_⟩⟩
      · rw [found, unreachFill, if_pos cut, filled]
      · rw [filled, unreachBase]
        omega
      · rw [routes, found]
        exact unreach
      · exact PackingRule.pack_current_ne_nil _ _ cut.1
      · rw [cutAssembly, idle, ite_self]
        rfl
      · rw [cutAssembly, taken.2]
        omega
    · have uncut : ¬ CutUnreach assembly.attributes.items pktLen.toNat := by
        simpa [CutUnreach, found] using cut
      rw [if_neg cut]
      refine ⟨?_, by dsimp only; omega, taken.1, rfl, rfl, rfl,
        ⟨fun cut => absurd cut uncut, fun _ => rfl⟩, .inl ⟨uncut, idle⟩⟩
      rw [found, unreachFill, if_neg cut]

/-- The attributes that are not multiprotocol ones carry no multiprotocol routes. -/
theorem Splittable.others_plain (fits : Splittable pathAttrs) :
    (otherAttrs pathAttrs).flatMap BGPPathAttr.unreachRoutes = [] ∧
    (otherAttrs pathAttrs).flatMap BGPPathAttr.reachRoutes = [] := by
  constructor
  · have silent : (withoutUnreach pathAttrs).flatMap BGPPathAttr.unreachRoutes = [] :=
      flatMap_routesOf_eq_nil fits.unreach
    rw [flatMap_eq_nil_iff] at silent ⊢
    intro pa member
    exact silent pa (mem_of_mem_filter member)
  · refine flatMap_routesOf_eq_nil ?_
    intro pa member
    exact fits.reach pa (mem_of_mem_filter member)

theorem Splittable.others_small (fits : Splittable pathAttrs) :
    attrBytes (otherAttrs pathAttrs) < 2 ^ 30 := by
  have first := attrBytes_filter_le (fun pa => !(pa.getCode == attrTypeMPUnreachNLRI)) pathAttrs
  have second := attrBytes_filter_le (fun pa => !(pa.getCode == attrTypeMPReachNLRI))
    (withoutUnreach pathAttrs)
  have whole := fits.small
  unfold otherAttrs
  unfold withoutUnreach at second ⊢
  omega

/-- Taking MP_UNREACH_NLRI out leaves MP_REACH_NLRI where it can be found. -/
theorem Splittable.reach_found (fits : Splittable pathAttrs) {attr : BGPPathAttrMPReachNLRI}
    (found : mpReachOf pathAttrs = some attr) :
    (getTypeFromPathAttrs (withoutUnreach pathAttrs) attrTypeMPReachNLRI).isSome := by
  have present := getType_isSome fits.reach found
  rw [getTypeFromPathAttrs, find?_isSome] at present ⊢
  obtain ⟨pa, member, code⟩ := present
  refine ⟨pa, mem_filter.mpr ⟨member, ?_⟩, code⟩
  rw [beq_iff_eq] at code
  rw [code]
  rfl

/-- Taking both multiprotocol attributes out leaves the other ones, and room for one. -/
theorem UnreachDone.removed {fill : Nat} {middle : UInt32 × Assembly}
    (fits : Splittable assembly.attributes.items) (done : UnreachDone assembly fill middle) :
    (middle.2.attributes.removeType attrTypeMPReachNLRI).items =
      otherAttrs assembly.attributes.items ∧
    (middle.2.attributes.removeType attrTypeMPReachNLRI).spare = middle.2.attributes.spare +
      if (getTypeFromPathAttrs middle.2.attributes.items attrTypeMPReachNLRI).isSome then 1 else 0 := by
  have single : (middle.2.attributes.items.filter fun pa =>
      pa.getCode == attrTypeMPReachNLRI).length ≤ 1 := by
    rw [done.items, withoutUnreach, filter_comm]
    exact le_trans (length_filter_le _ _) fits.oneReach
  obtain ⟨items, spare⟩ := removeType_eq middle.2.attributes single
  exact ⟨items.trans (by rw [done.items]; rfl), spare⟩

/-- What both stages together do to what is carried and what waits. -/
structure MPDone (before : Assembly) (fill : Nat) (after : UInt32 × Assembly) : Prop where
  filled : after.1.toNat = reachFill (mpReachOf before.attributes.items)
    (attrBytes (otherAttrs before.attributes.items))
    (unreachFill (mpUnreachOf before.attributes.items) fill)
  bounded : after.1.toNat < 2 ^ 19
  items : after.2.attributes.items = otherAttrs before.attributes.items
  withdrawn : after.2.withdrawn = before.withdrawn
  announced : after.2.announced = before.announced
  waiting : Waiting after.2.pathAttrs
  room : after.2.pathAttrs.length ≤ after.2.attributes.spare
  idle : after.2.pathAttrs = [] ↔ ¬ CutUnreach before.attributes.items fill ∧
    ¬ CutReach before.attributes.items (unreachFill (mpUnreachOf before.attributes.items) fill)
  unreach : Gains BGPPathAttr.unreachRoutes (CutUnreach before.attributes.items fill) before after.2
  reach : Gains BGPPathAttr.reachRoutes (CutReach before.attributes.items
    (unreachFill (mpUnreachOf before.attributes.items) fill)) before after.2

/-- Where nothing reachable is cut, the first stage decides. -/
theorem mpDone_of_uncut {fill : Nat} {middle : UInt32 × Assembly} {attributes : AttrSlice}
    (done : UnreachDone assembly fill middle)
    (uncut : ¬ CutReach assembly.attributes.items
      (unreachFill (mpUnreachOf assembly.attributes.items) fill))
    (filled : middle.1.toNat = reachFill (mpReachOf assembly.attributes.items)
      (attrBytes (otherAttrs assembly.attributes.items))
      (unreachFill (mpUnreachOf assembly.attributes.items) fill))
    (items : attributes.items = otherAttrs assembly.attributes.items)
    (roomy : middle.2.attributes.spare ≤ attributes.spare) :
    MPDone assembly fill (middle.1, { middle.2 with attributes }) := by
  have bounded := done.bounded
  have unreach : Gains BGPPathAttr.unreachRoutes _ assembly { middle.2 with attributes } :=
    ⟨done.unreach.all, done.unreach.nothing⟩
  have reach : Gains BGPPathAttr.reachRoutes _ assembly { middle.2 with attributes } :=
    ⟨fun cut => absurd cut uncut, fun _ => done.reach⟩
  rcases done.outcome with ⟨kept, idle⟩ | ⟨cut, ⟨mpUnreach, chunk, nonempty, waits⟩, spare⟩
  · refine ⟨filled, by dsimp only; omega, items, done.withdrawn, done.announced, ?_, ?_,
      iff_of_true idle ⟨kept, uncut⟩, unreach, reach⟩
    · dsimp only
      rw [idle]
      exact .nothing
    · dsimp only
      rw [idle]
      exact Nat.zero_le _
  · refine ⟨filled, by dsimp only; omega, items, done.withdrawn, done.announced, ?_, ?_,
      iff_of_false ?_ fun both => both.1 cut, unreach, reach⟩ <;> dsimp only <;> rw [waits]
    · exact .unreach mpUnreach nonempty
    · rw [length_singleton]
      omega
    · simp

/-- After a cut the last bin of reachable prefixes waits in front of what waited before. -/
theorem waiting_after_cut (mpReach : BGPPathAttrMPReachNLRI) {chunk : List NLRI}
    (nonempty : chunk ≠ []) {before : List BGPPathAttr} (kept : Prop) [Decidable kept]
    (waits : before = [] ∨ ∃ mpUnreach rest, rest ≠ [] ∧ before = [unreachPA mpUnreach rest]) :
    Waiting (addPathAttrToPathAttrs (if kept then before else []) (reachPA mpReach chunk)) ∧
    (addPathAttrToPathAttrs (if kept then before else []) (reachPA mpReach chunk)).length ≤
      before.length + 1 := by
  have empty : addPathAttrToPathAttrs [] (reachPA mpReach chunk) = [reachPA mpReach chunk] := rfl
  rcases waits with rfl | ⟨mpUnreach, rest, more, rfl⟩
  · rw [ite_self, empty]
    exact ⟨.reach mpReach nonempty, le_refl _⟩
  · split
    · -- The code of MP_REACH_NLRI is the smaller one, so it goes in front.
      have ordered : addPathAttrToPathAttrs [unreachPA mpUnreach rest] (reachPA mpReach chunk) =
          [reachPA mpReach chunk, unreachPA mpUnreach rest] := by
        show addPathAttrToPathAttrsByCode ([] ++ unreachPA mpUnreach rest :: []) _ _ = [] ++ _
        exact addPathAttrToPathAttrsByCode_of_last
          (show attrTypeMPUnreachNLRI > attrTypeMPReachNLRI by decide) (by simp) _
      rw [ordered]
      exact ⟨.both mpReach mpUnreach nonempty more, le_refl _⟩
    · rw [empty]
      exact ⟨.reach mpReach nonempty, by simp⟩

/-- Both stages together keep track of everything. -/
theorem mpStages_done (fits : Splittable assembly.attributes.items)
    (idle : assembly.pathAttrs = []) (small : pktLen.toNat ≤ 4096) :
    MPDone assembly pktLen.toNat (reachStage (mpReachOf assembly.attributes.items)
      (unreachStage (mpUnreachOf assembly.attributes.items) pktLen assembly).1
      (unreachStage (mpUnreachOf assembly.attributes.items) pktLen assembly).2) := by
  have done := unreachStage_done fits idle small
  generalize unreachStage (mpUnreachOf assembly.attributes.items) pktLen assembly = middle at done
  obtain ⟨others, plain⟩ := fits.others_plain
  have bytes := fits.others_small
  have bounded := done.bounded
  have little : middle.1.toNat < 2 ^ 30 := by omega
  cases found : mpReachOf assembly.attributes.items with
  | none =>
    have uncut : ¬ CutReach assembly.attributes.items
        (unreachFill (mpUnreachOf assembly.attributes.items) pktLen.toNat) := by
      simp [CutReach, found]
    have kept : otherAttrs assembly.attributes.items =
        withoutUnreach assembly.attributes.items := by
      rw [otherAttrs, filter_eq_self]
      intro pa member
      have present := mem_of_mem_filter member
      have lacks := findSome?_eq_none_iff.mp found pa present
      rw [fits.reach pa present, lacks]
      rfl
    refine mpDone_of_uncut done uncut ?_ (done.items.trans kept.symm) (le_refl _)
    rw [found]
    exact done.filled
  | some attr =>
    obtain ⟨items, spare⟩ := done.removed fits
    have present := fits.reach_found found
    rw [← done.items] at present
    rw [if_pos present] at spare
    generalize removed : middle.2.attributes.removeType attrTypeMPReachNLRI = attributes
      at items spare
    have few : attrBytes attributes.items < 2 ^ 30 := by
      rw [items]
      exact bytes
    have stage : reachStage (some attr) middle.1 middle.2 = _ :=
      splitReach_eq middle.2 attr removed few little
    rw [stage]
    by_cases cut : ReachCut attr (attrBytes attributes.items) middle.1.toNat
    · have isCut : CutReach assembly.attributes.items
          (unreachFill (mpUnreachOf assembly.attributes.items) pktLen.toNat) := by
        refine ⟨attr, found, ?_⟩
        rw [← items, ← done.filled]
        exact cut
      obtain ⟨withdrawn, announced⟩ := cutAssembly_plain middle.2 attributes attributes.items
        (reachPA attr) _
      have fill : (reachPacking attr (attrBytes attributes.items) middle.1.toNat).fill ≤ 2 ^ 17 :=
        chunk_fill_le (by omega) (by omega) attr.nlri
      have base := (reachBase_toNat attr).2
      have filled : (UInt32.ofNat ((reachPacking attr (attrBytes attributes.items)
          middle.1.toNat).fill + reachBase attr)).toNat = (reachPacking attr
            (attrBytes attributes.items) middle.1.toNat).fill + reachBase attr := by
        rw [UInt32.toNat_ofNat']
        omega
      have current : (reachPacking attr (attrBytes attributes.items) middle.1.toNat).current ≠ [] :=
        PackingRule.pack_current_ne_nil _ _ cut.1
      -- At most a chunk of unreachable prefixes has been waiting, which announces nothing.
      obtain ⟨waits, short⟩ : (middle.2.pathAttrs = [] ∨
          ∃ mpUnreach rest, rest ≠ [] ∧ middle.2.pathAttrs = [unreachPA mpUnreach rest]) ∧
          middle.2.pathAttrs.length ≤ 1 ∧
            middle.2.pathAttrs.length ≤ middle.2.attributes.spare := by
        rcases done.outcome with ⟨_, idle⟩ | ⟨_, ⟨mpUnreach, chunk, nonempty, one⟩, spare⟩
        · exact ⟨.inl idle, by simp [idle]⟩
        · exact ⟨.inr ⟨mpUnreach, chunk, nonempty, one⟩, by simp [one, spare]⟩
      have silent : middle.2.pathAttrs.flatMap BGPPathAttr.reachRoutes = [] := by
        rcases waits with idle | ⟨mpUnreach, rest, _, one⟩
        · simp [idle]
        · rw [one]
          rfl
      rw [← items] at others plain
      have unreach := cutAssembly_carried (reachPA_unreachRoutes attr) others short.1
        (.inr fun _ => rfl) attributes (chunkRule (reachBase attr + attrBytes attributes.items))
        middle.1.toNat attr.nlri
      rw [flatMap_eq_nil_iff.mpr fun _ _ => rfl, append_nil] at unreach
      have reach := cutAssembly_carried (reachPA_routes attr) plain short.1 (.inl silent) attributes
        (chunkRule (reachBase attr + attrBytes attributes.items)) middle.1.toNat attr.nlri
      rw [← map_eq_flatMap, done.reach] at reach
      have input : assembly.attributes.items.flatMap BGPPathAttr.reachRoutes = attr.routes := by
        have only : _ = (mpReachOf assembly.attributes.items).elim []
            BGPPathAttrMPReachNLRI.routes := flatMap_routesOf fits.reach fits.oneReach
        rw [found] at only
        exact only
      obtain ⟨waiting, length⟩ := waiting_after_cut attr current
        ((reachPacking attr _ middle.1.toNat).closed = []) waits
      rw [if_pos cut]
      refine ⟨?_, ?_, items, withdrawn.trans done.withdrawn, announced.trans done.announced,
        waiting, ?_, ?_, ⟨fun cut => unreach.trans (done.unreach.all cut),
          fun kept => unreach.trans (done.unreach.nothing kept)⟩,
        ⟨fun _ => ?_, fun uncut => absurd isCut uncut⟩⟩
      · rw [found, reachFill, ← items, ← done.filled, if_pos cut, filled]
      · dsimp only
        omega
      · simp only [cutAssembly]
        omega
      · refine iff_of_false ?_ fun neither => neither.2 isCut
        intro empty
        have gone := congrArg List.length empty
        rw [cutAssembly, addPathAttrToPathAttrs,
          (addPathAttrToPathAttrsByCode_perm _ _ _).length_eq] at gone
        simp at gone
      · rw [input]
        exact reach
    · have uncut : ¬ CutReach assembly.attributes.items
          (unreachFill (mpUnreachOf assembly.attributes.items) pktLen.toNat) := by
        rw [← done.filled]
        simpa [CutReach, found, ← items] using cut
      rw [if_neg cut]
      refine mpDone_of_uncut done uncut ?_ items (by omega)
      rw [found, reachFill, ← items, ← done.filled, if_neg cut]

end Stages

end FlexSwitch.Packet
