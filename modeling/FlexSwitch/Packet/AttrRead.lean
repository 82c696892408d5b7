import FlexSwitch.Packet.ASPath

/-! What the route table reads out of a list of path attributes. -/

namespace FlexSwitch.Packet

open Go

/-- The attribute behind the interface, if it is an ORIGIN one. -/
def BGPPathAttr.asOrigin : BGPPathAttr → Option BGPPathAttrOrigin
  | .origin attr => some attr
  | _ => none

/-- The attribute behind the interface, if it is an ORIGINATOR_ID one. -/
def BGPPathAttr.asOriginatorId : BGPPathAttr → Option BGPPathAttrOriginatorId
  | .originatorId attr => some attr
  | _ => none

/-- The attribute behind the interface, if it is a CLUSTER_LIST one. -/
def BGPPathAttr.asClusterList : BGPPathAttr → Option BGPPathAttrClusterList
  | .clusterList attr => some attr
  | _ => none

def getNumASes (pathAttrs : List BGPPathAttr) : Call UInt32 :=
  match getTypeFromPathAttrs pathAttrs attrTypeASPath with
  | none => .ok 0
  | some attr => do
    let asPath ← typeAssert attr.asASPath
    return asPath.value.foldl (fun total seg => total + seg.getNumASes.toUInt32) 0

variable (pathAttrs : List BGPPathAttr)

def getOrigin : Call UInt8 :=
  match getTypeFromPathAttrs pathAttrs attrTypeOrigin with
  | none => .ok originMax
  | some attr => do return (← typeAssert attr.asOrigin).value

def getOriginTypeStr (origin : UInt8) : String :=
  if origin = 0 then "IGP"
  else if origin = 1 then "EGP"
  else if origin = 2 then "Incomplete"
  else "Unknown"

/-- The clusters are counted by the length field of the attribute. -/
def getNumClusters : Call UInt16 :=
  match getTypeFromPathAttrs pathAttrs attrTypeClusterList with
  | none => .ok 0
  | some attr => do return (← typeAssert attr.asClusterList).length / 4

end FlexSwitch.Packet
