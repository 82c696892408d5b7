import FlexSwitch.Go.Bytes

/-! Message framing: sizes, error codes, the common header and what a peer has negotiated. -/

namespace FlexSwitch.Packet

open Go

/-- Address family identifiers. -/
def afiIP : UInt16 := 1

def afiIP6 : UInt16 := 2

/-- The AS number that stands for one that two bytes cannot hold. -/
def bgpASTrans : UInt16 := 23456

def bgpMsgTypeOpen : UInt8 := 1

def bgpMsgTypeUpdate : UInt8 := 2

def bgpMsgTypeNotification : UInt8 := 3

def bgpMsgTypeKeepAlive : UInt8 := 4

def bgpMsgHeaderLen : Nat := 19

def bgpUpdateMsgMinLen : UInt32 := 23

def bgpMsgMaxLen : UInt32 := 4096

def bgpMsgHeaderError : UInt8 := 1

def bgpOpenMsgError : UInt8 := 2

def bgpUpdateMsgError : UInt8 := 3

def bgpHoldTimerExpired : UInt8 := 4

def bgpFSMError : UInt8 := 5

def bgpCease : UInt8 := 6

def bgpUnspecific : UInt8 := 0

def bgpUnsupportedOptionalParam : UInt8 := 4

def bgpMalformedAttrList : UInt8 := 1

def bgpUnrecognizedWellKnownAttr : UInt8 := 2

def bgpAttrFlagsError : UInt8 := 4

def bgpAttrLenError : UInt8 := 5

def bgpInvalidNetworkField : UInt8 := 10

/-- An error the decoder reports, with the codes a NOTIFICATION would carry. -/
structure BGPMessageError where
  typeCode : UInt8
  subTypeCode : UInt8
  data : Bytes
  message : String
deriving DecidableEq, Repr

/-- A call in the packet package. -/
abbrev Call := Outcome BGPMessageError

/-- The fields of the common header that decoding reads. -/
structure BGPHeader where
  length : UInt16
  type : UInt8
deriving DecidableEq, Repr

/-- The header's length field, widened. -/
def BGPHeader.len (header : BGPHeader) : UInt32 := header.length.toUInt32

/-- The nineteen header bytes, the marker all ones. -/
def BGPHeader.encode (header : BGPHeader) : Bytes :=
  List.replicate 16 0xff ++ uint16Bytes header.length ++ [header.type]

/-- What the session's OPEN exchange settled about reading UPDATE messages. -/
structure BGPPeerAttrs where
  asSize : UInt8
  addPathsRxActual : Bool
deriving DecidableEq, Repr

end FlexSwitch.Packet
