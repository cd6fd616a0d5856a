/-
# The packets of local play

A console that plays locally exchanges wifi packets with the other consoles of its room.
The frame formats are defined in headers that are not part of the sources, so a frame is
modelled by what its parser returns, and the node record by the operations this service uses
on it. The node map is the exception: `nwm_uds.cpp` lays out its bytes itself, so a node map
packet carries bytes.

Source: `src/core/hle/service/nwm/nwm_uds.cpp`.
-/

import ManicRoom.Member.Event
import Mathlib.Order.Lattice

namespace ManicRoom.Uds

open ManicRoom.Member

/-- `Network::MacAddress` is a `std::array`, which compares its bytes from the first on. -/
instance : LinearOrder MacAddress where
  le_refl := Vector.le_refl
  le_trans := fun _ _ _ => Vector.le_trans
  le_antisymm := fun _ _ => Vector.le_antisymm
  le_total := Vector.le_total
  lt_iff_le_not_ge := fun _ _ => by
    rw [Vector.not_le]
    exact ⟨fun h => ⟨Vector.le_of_lt h, h⟩, And.right⟩
  -- the instances of `Vector` do not reduce
  toDecidableLE := fun first second =>
    decidable_of_iff (first.toList ≤ second.toList) Vector.le_toList
  toDecidableLT := fun first second =>
    decidable_of_iff (first.toList < second.toList) Vector.lt_toList
  toDecidableEq := inferInstance
  toOrd := ⟨fun first second => compareOfLessAndEq first second⟩
  compare_eq_compareOfLessAndEq := by
    intro first second
    simp only [compareOfLessAndEq]
    congr

/-- `UDSMaxNodes`: the places `ConnectionStatus::nodes` has. -/
abbrev udsMaxNodes : ℕ := 16

/-- `MaxBeaconFrames` -/
def maxBeaconFrames : ℕ := 15

/-- `BroadcastNetworkNodeId` -/
def broadcastNetworkNodeId : UInt16 := 0xFFFF

/-- `HostDestNodeId` -/
def hostDestNodeId : UInt16 := 1

/-- What `ParseEAPoLLogoffFrame` returns: the id the host gave to a new node, and its network. -/
structure EAPoLLogoff (NodeInfo : Type) where
  clientMacAddress : MacAddress
  assignedNodeId : UInt16
  nodes : List NodeInfo
  maxNodes : UInt8
  connectedNodes : UInt8
  deriving DecidableEq

/-- A data frame of the game: its `SecureDataHeader` and the bytes after it. -/
structure SecureData where
  srcNodeId : UInt16
  destNodeId : UInt16
  dataChannel : ℕ
  isManagement : Bool
  payload : List UInt8
  deriving DecidableEq

/-- What the headers of the service define: the node record, through the operations used on
it, the constants and two of the frames. A blank record and a record that was reset carry no
node id, and the id of the spectators is not that of a place in the network. Of the frames it is
left open how much of what is put into them comes out. -/
class Header (NodeInfo : Type) where
  /-- `node.network_node_id` -/
  networkNodeId : NodeInfo → UInt16
  /-- `node.network_node_id = id` -/
  setNetworkNodeId : NodeInfo → UInt16 → NodeInfo
  /-- What `node_info.resize(..)` fills up with. -/
  blank : NodeInfo
  /-- `NodeInfo::Reset` -/
  reset : NodeInfo → NodeInfo
  /-- `NodeIDSpec` -/
  nodeIDSpec : UInt16
  /-- `Network::BroadcastMac` -/
  broadcastMac : MacAddress
  /-- `DefaultNetworkChannel` -/
  defaultNetworkChannel : UInt8
  /-- `ApplicationDataSize` -/
  applicationDataSize : ℕ
  /-- What `ParseEAPoLLogoffFrame` makes of a frame of `GenerateEAPoLLogoffFrame`. -/
  eapolLogoff : (clientMacAddress : MacAddress) → (assignedNodeId : UInt16) →
    (nodes : List NodeInfo) → (maxNodes totalNodes : UInt8) → EAPoLLogoff NodeInfo
  /-- What `ParseSecureDataHeader` makes of a frame of `GenerateDataPayload`, and the bytes after
  the header. -/
  secureData : (data : List UInt8) → (dataChannel : ℕ) → (destNodeId srcNodeId : UInt16) →
    (sequenceNumber : UInt16) → SecureData
  networkNodeId_set : ∀ node id, networkNodeId (setNetworkNodeId node id) = id
  networkNodeId_blank : networkNodeId blank = 0
  networkNodeId_reset : ∀ node, networkNodeId (reset node) = 0
  nodeIDSpec_eq_or_lt : nodeIDSpec = 0 ∨ udsMaxNodes < nodeIDSpec.toNat

export Header (networkNodeId setNetworkNodeId)

attribute [simp] Header.networkNodeId_set Header.networkNodeId_blank Header.networkNodeId_reset

/-- A node record with just the fields that `DecryptBeaconData` fills in. -/
structure PlainNode where
  friendCodeSeed : ℕ := 0
  username : List UInt16 := []
  networkNodeId : UInt16 := 0
  deriving DecidableEq

instance : Header PlainNode where
  networkNodeId node := node.networkNodeId
  setNetworkNodeId node id := { node with networkNodeId := id }
  blank := {}
  reset _ := {}
  nodeIDSpec := 0xFFFE
  broadcastMac := Vector.replicate 6 0xFF
  defaultNetworkChannel := 11
  applicationDataSize := 0xC8
  eapolLogoff clientMacAddress assignedNodeId nodes maxNodes totalNodes :=
    { clientMacAddress, assignedNodeId, nodes, maxNodes, connectedNodes := totalNodes }
  secureData data dataChannel destNodeId srcNodeId _ :=
    { srcNodeId, destNodeId, dataChannel, isManagement := false, payload := data }
  networkNodeId_set _ _ := rfl
  networkNodeId_blank := rfl
  networkNodeId_reset _ := rfl
  nodeIDSpec_eq_or_lt := .inr (by decide)

/-- `ConnectionType` -/
inductive ConnectionType
  | client
  | spectator
  | other (value : UInt8)
  deriving DecidableEq

/-- `AuthenticationSeq` -/
inductive AuthenticationSeq
  | seq1
  | seq2
  deriving DecidableEq

/-- What the service reads and writes of a `NetworkInfo`. -/
structure NetworkInfo where
  hostMacAddress : MacAddress := Vector.replicate 6 0
  channel : UInt8 := 0
  networkId : ℕ := 0
  totalNodes : UInt8 := 0
  maxNodes : UInt8 := 0
  applicationDataSize : ℕ := 0
  deriving DecidableEq

/-- What `DeserializeEAPolStartPacket` returns. -/
structure EAPoLStart (NodeInfo : Type) where
  associationId : UInt16
  connectionType : ConnectionType
  node : NodeInfo
  deriving DecidableEq

/-- The type of a packet together with its parsed data. -/
inductive Frame (NodeInfo : Type)
  | beacon (networkInfo : NetworkInfo) (nodes : List NodeInfo)
  | authentication (seq : AuthenticationSeq)
  | associationResponse (successful : Bool) (associationId : UInt16)
  | eapolStart (start : EAPoLStart NodeInfo)
  | eapolLogoff (logoff : EAPoLLogoff NodeInfo)
  | secureData (data : SecureData)
  /-- A data packet of another ether type. -/
  | otherData
  | deauthentication
  | nodeMap (data : List UInt8)
  deriving DecidableEq

/-- `Network::WifiPacket` -/
structure WifiPacket (NodeInfo : Type) where
  frame : Frame NodeInfo
  channel : UInt8
  transmitterAddress : MacAddress := Vector.replicate 6 0
  destinationAddress : MacAddress
  deriving DecidableEq

end ManicRoom.Uds
