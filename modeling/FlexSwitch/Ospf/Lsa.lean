import FlexSwitch.Go.Map

/-! The link state advertisements of OSPF. -/

namespace FlexSwitch.Ospf

open Go

def routerLSA : UInt8 := 1

def summary3LSA : UInt8 := 3

def summary4LSA : UInt8 := 4

/-- What tells one advertisement from another. -/
structure LsaKey where
  lsType : UInt8
  lsId : UInt32
  advRouter : UInt32
deriving DecidableEq, Repr

structure TOSDetail where
  tos : UInt8
  tosMetric : UInt16
deriving DecidableEq, Repr

/-- A link of a router. -/
structure LinkDetail where
  linkId : UInt32
  linkData : UInt32
  linkType : UInt8
  numOfTOS : UInt8
  linkMetric : UInt16
  tosDetails : List TOSDetail
deriving DecidableEq, Repr

/-- What the advertisements of all types have; the sequence number is an `int` of 64 bits. -/
structure LsaMetadata where
  lsAge : UInt16
  options : UInt8
  lsSequenceNum : Int
  lsChecksum : UInt16
  lsLen : UInt16
deriving DecidableEq, Repr

structure RouterLsa where
  lsaMd : LsaMetadata
  bitV : Bool
  bitE : Bool
  bitB : Bool
  numOfLinks : UInt16
  linkDetails : List LinkDetail
deriving DecidableEq, Repr

structure NetworkLsa where
  lsaMd : LsaMetadata
  netmask : UInt32
  attachedRtr : List UInt32
deriving DecidableEq, Repr

structure SummaryTOSDetail where
  tos : UInt8
  tosMetric : UInt32
deriving DecidableEq, Repr

structure SummaryLsa where
  lsaMd : LsaMetadata
  netmask : UInt32
  metric : UInt32
  summaryTOSDetails : List SummaryTOSDetail
deriving DecidableEq, Repr

structure ASExtTOSDetail where
  bitE : Bool
  tos : UInt8
  tosMetric : UInt32
  tosFwdAddr : UInt32
  tosExtRouteTag : UInt32
deriving DecidableEq, Repr

structure ASExternalLsa where
  lsaMd : LsaMetadata
  netmask : UInt32
  bitE : Bool
  metric : UInt32
  fwdAddr : UInt32
  extRouteTag : UInt32
  asExtTOSDetails : List ASExtTOSDetail
deriving DecidableEq, Repr

end FlexSwitch.Ospf
