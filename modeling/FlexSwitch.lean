import FlexSwitch.Packet.OpenSafety
import FlexSwitch.Packet.ASPathInterop
import FlexSwitch.Packet.ASLoop
import FlexSwitch.Fsm.Collision
import FlexSwitch.Rib.PathIds
import FlexSwitch.Rib.Select
import FlexSwitch.Fsm.Connection
import FlexSwitch.Packet.MPRoundTrip
import FlexSwitch.Packet.OpenRoundTrip
import FlexSwitch.Ribd.Paging
import FlexSwitch.Policy.ConditionUse
import FlexSwitch.Ribd.Resolve
import FlexSwitch.Ribd.Propagation
import FlexSwitch.Ospf.ShortestDistances
import FlexSwitch.Ospf.Fletcher
import FlexSwitch.Ospf.Election
import FlexSwitch.Ospf.LsaCodec
import FlexSwitch.Ospf.DatabaseExchange
import FlexSwitch.Ospf.Flooding
import FlexSwitch.Lacp.Distribution
import FlexSwitch.Lacp.MuxRuns
import FlexSwitch.Ospf.Consolidation
import FlexSwitch.Policy.Undo
import FlexSwitch.Rib.TieBreaks
import FlexSwitch.Ribd.Bulk
import FlexSwitch.Vrrp.Machine
