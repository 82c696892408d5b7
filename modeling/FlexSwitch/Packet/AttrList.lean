import FlexSwitch.Packet.PathAttr

/-! Looking up, inserting and removing attributes of an UPDATE message. -/

namespace FlexSwitch.Packet

open Go List

/-- The first attribute with the given code. -/
def getTypeFromPathAttrs (pathAttrs : List BGPPathAttr) (code : UInt8) : Option BGPPathAttr :=
  pathAttrs.find? fun pa => pa.getCode == code

/-- The attribute behind the interface, if it is an MP_REACH_NLRI one. -/
def BGPPathAttr.asMPReachNLRI : BGPPathAttr → Option BGPPathAttrMPReachNLRI
  | .mpReachNLRI attr => some attr
  | _ => none

/-- The attribute behind the interface, if it is an MP_UNREACH_NLRI one. -/
def BGPPathAttr.asMPUnreachNLRI : BGPPathAttr → Option BGPPathAttrMPUnreachNLRI
  | .mpUnreachNLRI attr => some attr
  | _ => none

/-- A type assertion, which panics unless the interface holds a value of the type. -/
def typeAssert {α : Type} : Option α → Call α
  | some value => .ok value
  | none => .panic

theorem typeAssert_eq_ok {α : Type} {held : Option α} {value : α} :
    typeAssert held = .ok value ↔ held = some value := by
  cases held <;> simp [typeAssert]

/-- The assertion is only made on an attribute that was found. -/
def assertFound {α : Type} (type : BGPPathAttr → Option α) : Option BGPPathAttr → Call (Option α)
  | some attr => do return some (← typeAssert (type attr))
  | none => .ok none

section

variable (pathAttrs : List BGPPathAttr)

def getMPAttrs : Call (Option BGPPathAttrMPReachNLRI × Option BGPPathAttrMPUnreachNLRI) := do
  let mpReach ← assertFound BGPPathAttr.asMPReachNLRI
    (getTypeFromPathAttrs pathAttrs attrTypeMPReachNLRI)
  let mpUnreach ← assertFound BGPPathAttr.asMPUnreachNLRI
    (getTypeFromPathAttrs pathAttrs attrTypeMPUnreachNLRI)
  return (mpReach, mpUnreach)

def hasMPAttrs : Bool :=
  pathAttrs.any fun attr =>
    attr.getCode == attrTypeMPReachNLRI || attr.getCode == attrTypeMPUnreachNLRI

/-- The last position whose attribute has a greater code, or the end of the list. -/
def addIdx (code : UInt8) : Nat :=
  (pathAttrs.zipIdx.foldl (fun found entry =>
    if entry.1.getCode > code then some entry.2 else found) none).getD pathAttrs.length

def addPathAttrToPathAttrsByCode (code : UInt8) (attr : BGPPathAttr) : List BGPPathAttr :=
  pathAttrs.take (addIdx pathAttrs code) ++ attr :: pathAttrs.drop (addIdx pathAttrs code)

def addPathAttrToPathAttrs (attr : BGPPathAttr) : List BGPPathAttr :=
  addPathAttrToPathAttrsByCode pathAttrs attr.getCode attr

def addMPReachNLRIToPathAttrs (mpReach : BGPPathAttrMPReachNLRI) : List BGPPathAttr :=
  addPathAttrToPathAttrsByCode pathAttrs attrTypeMPReachNLRI (.mpReachNLRI mpReach)

/-- The attributes without the first one that has the given code. -/
def removeTypeFromPathAttrs (code : UInt8) : List BGPPathAttr :=
  pathAttrs.eraseP fun pa => pa.getCode == code

/-- The bytes the attributes take up, in the source's 32-bit arithmetic. -/
def pathAttrsLen : UInt32 :=
  pathAttrs.foldl (fun paLen pa => paLen + pa.totalLen) 0

/--
A slice of attributes, with the room its array has behind the last of them.

Appending to a slice with room writes into the array it shares with other slices.
-/
structure AttrSlice where
  items : List BGPPathAttr
  spare : Nat
deriving DecidableEq, Repr

/-- Taking an attribute out moves the rest up and leaves one more place at the end. -/
def AttrSlice.removeType (slice : AttrSlice) (code : UInt8) : AttrSlice :=
  match getTypeFromPathAttrs slice.items code with
  | some _ => ⟨removeTypeFromPathAttrs slice.items code, slice.spare + 1⟩
  | none => slice

/--
What inserting an attribute gives, and what a slice over the front of the array shows afterwards.

With room left the insertion moves the attributes in the shared array. Without it they are copied
to a new array first, which nobody else sees.
-/
def AttrSlice.insert (slice : AttrSlice) (view : List BGPPathAttr) (attr : BGPPathAttr) :
    AttrSlice × List BGPPathAttr :=
  let inserted := addPathAttrToPathAttrs slice.items attr
  if 0 < slice.spare then (⟨inserted, slice.spare - 1⟩, inserted.take view.length)
  else (⟨inserted, 0⟩, view)

/-- Insert one attribute after the other, starting from the slice that stays in view. -/
def AttrSlice.insertAll (slice : AttrSlice) (attrs : List BGPPathAttr) :
    AttrSlice × List BGPPathAttr :=
  attrs.foldl (fun state attr => state.1.insert state.2 attr) (slice, slice.items)

end

/-- A lookup by code finds the value of the type, when the code says what the type is. -/
theorem assertFound_getType {α : Type} {type : BGPPathAttr → Option α} {code : UInt8}
    {pathAttrs : List BGPPathAttr}
    (typed : ∀ pa ∈ pathAttrs, (pa.getCode == code) = (type pa).isSome) :
    assertFound type (getTypeFromPathAttrs pathAttrs code) = .ok (pathAttrs.findSome? type) := by
  induction pathAttrs with
  | nil => rfl
  | cons pa pathAttrs ih =>
    have rest := ih fun other member => typed other (by simp [member])
    have here := typed pa (by simp)
    -- The code decides whether this is the attribute, and the type agrees.
    cases known : type pa with
    | none =>
      simp only [getTypeFromPathAttrs, find?_cons, here, Option.isSome_none,
        findSome?_cons, known] at rest ⊢
      exact rest
    | some value =>
      simp [getTypeFromPathAttrs, here, known, assertFound, typeAssert]

section Insertion

variable {pathAttrs : List BGPPathAttr} {code : UInt8}

/-- A run of attributes none of which has a greater code leaves the found position alone. -/
theorem foldl_addIdx_of_le {entries : List (BGPPathAttr × Nat)}
    (noGreater : ∀ entry ∈ entries, ¬ entry.1.getCode > code) (found : Option Nat) :
    entries.foldl (fun found entry => if entry.1.getCode > code then some entry.2 else found)
      found = found := by
  induction entries generalizing found with
  | nil => rfl
  | cons entry entries ih =>
    rw [foldl_cons, if_neg (noGreater entry (by simp))]
    exact ih (fun other later => noGreater other (by simp [later])) found

theorem addPathAttrToPathAttrsByCode_of_le (noGreater : ∀ pa ∈ pathAttrs, ¬ pa.getCode > code)
    (attr : BGPPathAttr) :
    addPathAttrToPathAttrsByCode pathAttrs code attr = pathAttrs ++ [attr] := by
  have last : addIdx pathAttrs code = pathAttrs.length := by
    rw [addIdx, foldl_addIdx_of_le]
    · rfl
    · rintro ⟨pa, idx⟩ entry
      exact noGreater pa (fst_mem_of_mem_zipIdx entry)
  simp [addPathAttrToPathAttrsByCode, last]

/-- With greater codes an attribute goes right before the last of them. -/
theorem addPathAttrToPathAttrsByCode_of_last {front back : List BGPPathAttr} {last : BGPPathAttr}
    (greater : last.getCode > code) (noGreater : ∀ pa ∈ back, ¬ pa.getCode > code)
    (attr : BGPPathAttr) :
    addPathAttrToPathAttrsByCode (front ++ last :: back) code attr =
      front ++ attr :: last :: back := by
  have found : addIdx (front ++ last :: back) code = front.length := by
    rw [addIdx, zipIdx_append, zipIdx_cons, foldl_append, foldl_cons,
      if_pos greater, foldl_addIdx_of_le]
    · simp
    · rintro ⟨pa, idx⟩ entry
      exact noGreater pa (fst_mem_of_mem_zipIdx entry)
  simp [addPathAttrToPathAttrsByCode, found]

/-- Inserting changes nothing but the place of the attributes. -/
theorem addPathAttrToPathAttrsByCode_perm (pathAttrs : List BGPPathAttr) (code : UInt8)
    (attr : BGPPathAttr) :
    (addPathAttrToPathAttrsByCode pathAttrs code attr).Perm (attr :: pathAttrs) := by
  refine perm_middle.trans (List.Perm.cons attr ?_)
  rw [take_append_drop]

theorem foldl_addPathAttr_perm (attrs pathAttrs : List BGPPathAttr) :
    (attrs.foldl addPathAttrToPathAttrs pathAttrs).Perm (pathAttrs ++ attrs) := by
  induction attrs generalizing pathAttrs with
  | nil => simp
  | cons attr attrs ih =>
    refine (ih _).trans ?_
    exact ((addPathAttrToPathAttrsByCode_perm _ _ _).append_right attrs).trans perm_middle.symm

/-- A list with a greater code is cut at the last of them. -/
theorem exists_last_greater (hasGreater : ∃ pa ∈ pathAttrs, pa.getCode > code) :
    ∃ front last back, pathAttrs = front ++ last :: back ∧ last.getCode > code ∧
      ∀ pa ∈ back, ¬ pa.getCode > code := by
  induction pathAttrs with
  | nil => simp at hasGreater
  | cons first rest ih =>
    by_cases later : ∃ pa ∈ rest, pa.getCode > code
    · obtain ⟨front, last, back, rfl, greater, noGreater⟩ := ih later
      exact ⟨first :: front, last, back, rfl, greater, noGreater⟩
    · refine ⟨[], first, rest, rfl, ?_, ?_⟩
      · obtain ⟨pa, member, greater⟩ := hasGreater
        rcases mem_cons.mp member with rfl | behind
        · exact greater
        · exact absurd ⟨pa, behind, greater⟩ later
      · intro pa member greater
        exact later ⟨pa, member, greater⟩

/-- With room for all of them, attributes are inserted in the array the old slice looks at. -/
theorem AttrSlice.insertAll_of_room (slice : AttrSlice) {attrs : List BGPPathAttr}
    (room : attrs.length ≤ slice.spare) :
    (slice.insertAll attrs).1.items = attrs.foldl addPathAttrToPathAttrs slice.items ∧
    (slice.insertAll attrs).2 =
      (attrs.foldl addPathAttrToPathAttrs slice.items).take slice.items.length := by
  -- The slice being built grows while the one in view keeps its length.
  have general : ∀ (attrs : List BGPPathAttr) (state : AttrSlice) (view : List BGPPathAttr),
      attrs.length ≤ state.spare → view = state.items.take view.length →
      view.length ≤ state.items.length →
      let result := attrs.foldl (fun state attr => state.1.insert state.2 attr) (state, view)
      result.1.items = attrs.foldl addPathAttrToPathAttrs state.items ∧
      result.2 = (attrs.foldl addPathAttrToPathAttrs state.items).take view.length := by
    intro attrs
    induction attrs with
    | nil =>
      intro state view _ seen _
      exact ⟨rfl, seen⟩
    | cons attr attrs ih =>
      intro state view room seen within
      rw [length_cons] at room
      have roomy : 0 < state.spare := by omega
      have longer : (addPathAttrToPathAttrs state.items attr).length = state.items.length + 1 := by
        rw [addPathAttrToPathAttrs, (addPathAttrToPathAttrsByCode_perm _ _ _).length_eq,
          length_cons]
      have length : ((addPathAttrToPathAttrs state.items attr).take view.length).length =
          view.length := by
        rw [length_take, longer]
        omega
      have rest := ih ⟨addPathAttrToPathAttrs state.items attr, state.spare - 1⟩
        ((addPathAttrToPathAttrs state.items attr).take view.length)
        (by simp only; omega) (by rw [length]) (by rw [length, longer]; omega)
      simp only [length] at rest
      simp only [foldl_cons, AttrSlice.insert, roomy, if_true]
      exact rest
  exact general attrs slice slice.items room (by simp) (le_refl _)

end Insertion

/-- The bytes the attributes take up. -/
def attrBytes (pathAttrs : List BGPPathAttr) : Nat := (pathAttrs.map fun pa => pa.totalLen.toNat).sum

@[simp] theorem attrBytes_nil : attrBytes [] = 0 := rfl

@[simp] theorem attrBytes_cons (pa : BGPPathAttr) (pathAttrs : List BGPPathAttr) :
    attrBytes (pa :: pathAttrs) = pa.totalLen.toNat + attrBytes pathAttrs := by
  simp [attrBytes]

theorem attrBytes_filter_le (keep : BGPPathAttr → Bool) (pathAttrs : List BGPPathAttr) :
    attrBytes (pathAttrs.filter keep) ≤ attrBytes pathAttrs := by
  induction pathAttrs with
  | nil => simp
  | cons pa pathAttrs ih =>
    rw [filter_cons]
    split
    · simp only [attrBytes_cons]
      omega
    · rw [attrBytes_cons]
      omega

/-- As long as they are fewer than 32 bits can count, the source counts them right. -/
theorem pathAttrsLen_toNat {pathAttrs : List BGPPathAttr} (small : attrBytes pathAttrs < 2 ^ 32) :
    (pathAttrsLen pathAttrs).toNat = attrBytes pathAttrs := by
  have general : ∀ (pathAttrs : List BGPPathAttr) (start : UInt32),
      start.toNat + attrBytes pathAttrs < 2 ^ 32 →
      (pathAttrs.foldl (fun paLen pa => paLen + pa.totalLen) start).toNat =
        start.toNat + attrBytes pathAttrs := by
    intro pathAttrs
    induction pathAttrs with
    | nil => simp
    | cons pa pathAttrs ih =>
      intro start bound
      rw [attrBytes_cons] at bound ⊢
      have sum : (start + pa.totalLen).toNat = start.toNat + pa.totalLen.toNat := by
        rw [UInt32.toNat_add]
        omega
      rw [foldl_cons, ih _ (by omega), sum]
      omega
  have zero : (0 : UInt32).toNat = 0 := rfl
  have counted := general pathAttrs 0 (by omega)
  rw [zero, zero_add] at counted
  exact counted

end FlexSwitch.Packet
