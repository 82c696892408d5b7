import FlexSwitch.Ospf.Lsa

/-! The routing tables of the areas put together into one. -/

namespace FlexSwitch.Ospf

open Go List

inductive DestType where
  | network
  | internalRouter
  | asBdrRouter
  | areaBdrRouter
  | asAreaBdrRouter
deriving DecidableEq, Repr

inductive PathType where
  | type2Ext
  | type1Ext
  | interArea
  | intraArea
deriving DecidableEq, Repr

/-- A higher number takes precedence. -/
def PathType.number : PathType → Nat
  | type2Ext => 1
  | type1Ext => 2
  | interArea => 3
  | intraArea => 4

structure NextHop where
  ifIPAddr : UInt32
  ifIdx : UInt32
  nextHopIP : UInt32
  advRtr : UInt32
deriving DecidableEq, Repr

structure RoutingTblEntryKey where
  destId : UInt32
  addrMask : UInt32
  destType : DestType
deriving DecidableEq, Repr

structure RoutingTblEntry where
  optCapabilities : UInt8
  pathType : PathType
  cost : UInt16
  type2Cost : UInt16
  lsOrigin : LsaKey
  numOfPaths : Int
  nextHops : GoMap NextHop Bool

structure GlobalRoutingTblEntry where
  areaId : UInt32
  routingTblEnt : RoutingTblEntry

abbrev RoutingTbl := GoMap RoutingTblEntryKey RoutingTblEntry

abbrev GlobalRoutingTbl := GoMap RoutingTblEntryKey GlobalRoutingTblEntry

/-- An entry that is there already stays. -/
def consolidateEntry (areaId : UInt32) (table : GlobalRoutingTbl)
    (entry : RoutingTblEntryKey × RoutingTblEntry) : GlobalRoutingTbl :=
  match table.lookup entry.1 with
  | some ent => table.insert entry.1 ent
  | none => table.insert entry.1 ⟨areaId, entry.2⟩

/-- The path type takes precedence, or it is the same and the cost is lower. -/
def GlobalRoutingTblEntry.Better (left right : GlobalRoutingTblEntry) : Prop :=
  right.routingTblEnt.pathType.number < left.routingTblEnt.pathType.number ∨
    left.routingTblEnt.pathType = right.routingTblEnt.pathType ∧
      left.routingTblEnt.cost < right.routingTblEnt.cost

/-- The areas by the texts they are configured under, and the numbers that the texts stand for. -/
structure AreaTables where
  convertAreaOrRouterIdUint32 : String → UInt32
  areaConfMap : GoMap String Unit
  tempAreaRoutingTbl : GoMap UInt32 RoutingTbl

namespace AreaTables

variable (server : AreaTables) (order : MapOrder) (key : RoutingTblEntryKey)

/-- The table of an area, which is skipped if there is none. -/
def areaRoutingTbl (areaId : UInt32) : RoutingTbl :=
  (server.tempAreaRoutingTbl.lookup areaId).getD ∅

/-- The configured areas in the order they are visited. -/
def areas : List UInt32 := (order.range "AreaConfMap" server.areaConfMap).map fun area =>
  server.convertAreaOrRouterIdUint32 area.1

def consolidateArea (table : GlobalRoutingTbl) (areaId : UInt32) : GlobalRoutingTbl :=
  (order.range "RoutingTblMap" (server.areaRoutingTbl areaId)).foldl (consolidateEntry areaId) table

def consolidatingRoutingTbl : GlobalRoutingTbl :=
  (server.areas order).foldl (server.consolidateArea order) ∅

/-- The entry that an area has for a destination. -/
def areaEntry (areaId : UInt32) : Option GlobalRoutingTblEntry :=
  ((server.areaRoutingTbl areaId).lookup key).map (GlobalRoutingTblEntry.mk areaId)

/-- One of the areas has this entry for the destination. -/
def HasEntry (ent : GlobalRoutingTblEntry) : Prop :=
  ∃ area, server.areaConfMap.lookup area = some () ∧
    server.areaEntry key (server.convertAreaOrRouterIdUint32 area) = some ent

/-- A table with the best entry that an area has for each destination. -/
def BestOfAreas (table : GlobalRoutingTbl) : Prop :=
  ∀ key, (∀ ent, table.lookup key = some ent → server.HasEntry key ent) ∧
    ∀ ent, server.HasEntry key ent → ∃ best, table.lookup key = some best ∧ ¬ ent.Better best

variable {server order key}

/-- An entry that is there already stays, and others are those of the area. -/
theorem consolidateArea_lookup (table : GlobalRoutingTbl) (areaId : UInt32) :
    (server.consolidateArea order table areaId).lookup key =
      (table.lookup key).or (server.areaEntry key areaId) := by
  rw [areaEntry, ← order.lookup_range "RoutingTblMap" (server.areaRoutingTbl areaId),
    consolidateArea]
  induction order.range "RoutingTblMap" (server.areaRoutingTbl areaId) generalizing table with
  | nil => simp
  | cons entry rest ih =>
    obtain ⟨other, ent⟩ := entry
    rw [foldl_cons, ih, consolidateEntry]
    by_cases same : key = other
    · subst same
      cases table.lookup key <;> simp
    · cases table.lookup other <;> simp [same, lookup_cons, beq_eq_false_iff_ne.mpr same]

/-- The first area that has an entry decides. -/
theorem foldl_consolidateArea (areas : List UInt32) (table : GlobalRoutingTbl) :
    (areas.foldl (server.consolidateArea order) table).lookup key =
      (table.lookup key).or (areas.findSome? (server.areaEntry key)) := by
  induction areas generalizing table with
  | nil => simp
  | cons area areas ih =>
    rw [foldl_cons, ih, consolidateArea_lookup, Option.or_assoc, findSome?_cons]
    cases server.areaEntry key area <;> rfl

theorem consolidating_lookup (order : MapOrder) :
    (server.consolidatingRoutingTbl order).lookup key =
      (server.areas order).findSome? (server.areaEntry key) := by
  rw [consolidatingRoutingTbl, foldl_consolidateArea]
  rfl

theorem mem_areas {areaId : UInt32} : areaId ∈ server.areas order ↔ ∃ area,
    server.areaConfMap.lookup area = some () ∧ server.convertAreaOrRouterIdUint32 area = areaId := by
  simp [areas, MapOrder.mem_range, Unique.exists_iff]

/-- The areas must not differ in the path type or the cost of a destination. -/
theorem consolidating_best_iff :
    (∀ order, server.BestOfAreas (server.consolidatingRoutingTbl order)) ↔
    ∀ key left right, server.HasEntry key left → server.HasEntry key right →
      ¬ left.Better right := by
  constructor
  · rintro best key left right has ⟨area, member, entry⟩
    -- In some order the area of the right entry is visited first.
    obtain ⟨order, visits⟩ := MapOrder.exists_first member
    obtain ⟨rest, first⟩ := visits "AreaConfMap"
    obtain ⟨chosen, found, worse⟩ := (best order key).2 left has
    rw [consolidating_lookup, areas, first, map_cons, findSome?_cons, entry] at found
    cases found
    exact worse
  · intro agree order key
    have taken : ∀ ent, (server.consolidatingRoutingTbl order).lookup key = some ent →
        server.HasEntry key ent := by
      intro ent found
      rw [consolidating_lookup] at found
      obtain ⟨areaId, visited, entry⟩ := exists_of_findSome?_eq_some found
      obtain ⟨area, member, rfl⟩ := mem_areas.mp visited
      exact ⟨area, member, entry⟩
    refine ⟨taken, fun ent has => ?_⟩
    cases found : (server.consolidatingRoutingTbl order).lookup key with
    | some best => exact ⟨best, rfl, agree key ent best has (taken best found)⟩
    | none =>
      obtain ⟨area, member, entry⟩ := has
      rw [consolidating_lookup, findSome?_eq_none_iff] at found
      rw [found _ (mem_areas.mpr ⟨area, member, rfl⟩)] at entry
      cases entry

end AreaTables

/-- A network that is reached inside the second area and through the first. -/
def sharedNetwork : AreaTables :=
  let table := fun pathType => [⟨⟨10, 0xff, .network⟩, ⟨0, pathType, 20, 0, ⟨0, 0, 0⟩, 0, ∅⟩⟩].toAList
  ⟨fun area => if area = "0.0.0.0" then 0 else 1, [⟨"0.0.0.0", ()⟩, ⟨"0.0.0.1", ()⟩].toAList,
    [⟨0, table .interArea⟩, ⟨1, table .intraArea⟩].toAList⟩

/-- The path through the other area is taken, although there is one inside the area. -/
theorem consolidating_takes_interArea :
    (((sharedNetwork.consolidatingRoutingTbl .stored).lookup ⟨10, 0xff, .network⟩).map
        (·.routingTblEnt.pathType) = some .interArea) ∧
      (sharedNetwork.areaEntry ⟨10, 0xff, .network⟩ 1).map (·.routingTblEnt.pathType) =
        some .intraArea := by
  decide

end FlexSwitch.Ospf
