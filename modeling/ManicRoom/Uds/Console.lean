/-
# A console that plays locally

The state of the local play service of one console, and what the service does with a packet
that the room delivers. A handler works on the state under the mutex of the connection status and
is one step here. `HandleAuthenticationFrame`, `HandleAssociationResponseFrame` and
`DisconnectNetworkHLE` do a part of their work outside of it; what a call of the game or another
packet does between the two parts is left out. A handler returns the new state and the packets it
sends; `none` stands for a failed assertion and for an access outside an array, after either of
which nothing more can be said.

Source: `src/core/hle/service/nwm/nwm_uds.cpp`.
-/

import ManicRoom.Foundation.OrderedMap
import ManicRoom.Foundation.Words
import ManicRoom.Uds.Packet

namespace ManicRoom.Uds

open ManicRoom.Foundation ManicRoom.Member

/-- `NetworkStatus`. The status of a value-initialised `ConnectionStatus` is none of those the
service names. -/
inductive NetworkStatus
  | unset
  | notConnected
  | connecting
  | connectedAsHost
  | connectedAsClient
  | connectedAsSpectator
  deriving DecidableEq

/-- `ConnectionStatus`. Of the reasons of a status change only one is ever set. -/
structure ConnectionStatus where
  status : NetworkStatus := .unset
  connectionEstablished : Bool := false
  networkNodeId : UInt16 := 0
  changedNodes : BitVec udsMaxNodes := 0
  nodes : Vector UInt16 udsMaxNodes := Vector.replicate udsMaxNodes 0
  totalNodes : UInt8 := 0
  maxNodes : UInt8 := 0
  nodeBitmask : BitVec udsMaxNodes := 0
  deriving DecidableEq

/-- `NWM_UDS::Node`: an entry of the node map. -/
structure Node where
  connected : Bool := false
  spec : Bool := false
  nodeId : UInt16 := 0
  deriving DecidableEq

/-- `NWM_UDS::BindNodeData`: a channel the game listens on. -/
structure BindNodeData where
  bindNodeId : ℕ
  channel : ℕ
  networkNodeId : UInt16
  receivedPackets : List SecureData := []
  deriving DecidableEq

/-- `std::map<MacAddress, Node>` -/
abbrev NodeMap := OrderedMap MacAddress Node

/-- The fields of `NWM_UDS`. -/
structure Console (NodeInfo : Type) where
  initialized : Bool := false
  connectionStatus : ConnectionStatus := {}
  networkInfo : NetworkInfo := {}
  nodeInfo : List NodeInfo := []
  nodeMap : NodeMap := .empty
  currentNode : NodeInfo
  connType : ConnectionType := .client
  networkChannel : UInt8
  channelData : OrderedMap ℕ BindNodeData := .empty
  receivedBeacons : List (WifiPacket NodeInfo) := []

/-- What the service asks of its surroundings: the address the room gave to the console, as
long as it is in one, the address of the console itself, and what stands in the uninitialised
`secure_data` of `PullPacket`. -/
structure Surroundings where
  roomAddress : Option MacAddress
  consoleAddress : MacAddress
  unsetSrcNodeId : UInt16 := 0
  deriving DecidableEq

/-- `ResultStatus`, and the `Result` codes the calls return. -/
inductive ResultStatus
  | success
  | bindErrorArgsZero
  | bindErrorMaxBinds
  | bindErrorRecvBufferTooLarge
  | sendErrorNotConnected
  | sendErrorBadNode
  | sendErrorBadMacAddress
  | sendErrorPacketSizeTooLarge
  | recvErrorNotConnected
  | recvErrorBadNode
  | recvErrorPacketSizeTooLarge
  | disconErrorCalledAsHost
  | wrongArgument
  | invalidState
  | wrongStatus
  | notInitialized
  | notFound
  deriving DecidableEq

/-- What a call returns to the game. -/
inductive Answer (NodeInfo : Type)
  | nothing
  | result (status : ResultStatus)
  | connectionStatus (status : ConnectionStatus)
  | nodeInformation (node : NodeInfo)
  /-- The output buffer, the number of bytes in it that count and the sender. -/
  | pulled (buffer : List UInt8) (size : ℕ) (source : UInt16)
  | beacons (packets : List (WifiPacket NodeInfo))

/-- The state after a step, the packets it sent and what it answered. -/
structure Outcome (NodeInfo : Type) where
  console : Console NodeInfo
  sent : List (WifiPacket NodeInfo) := []
  answer : Answer NodeInfo := .nothing

variable {NodeInfo : Type} [Header NodeInfo]

/-- `SendPacket`: the room is given the packet under the address it knows the console by. -/
def sendPacket (around : Surroundings) (packet : WifiPacket NodeInfo) :
    List (WifiPacket NodeInfo) :=
  match around.roomAddress with
  | some address => [{ packet with transmitterAddress := address }]
  | none => []

/-- `NWM_UDS::GetMacAddress` -/
def getMacAddress (around : Surroundings) : MacAddress :=
  around.roomAddress.getD around.consoleAddress

/-- `NWM_UDS::GetNextAvailableNodeId`. The loop ends in `UNREACHABLE_MSG` if no place is
free. -/
def getNextAvailableNodeId (cs : ConnectionStatus) : Option UInt16 :=
  ((List.range cs.maxNodes.toNat).find? fun index =>
    cs.nodeBitmask &&& BitVec.ofNat udsMaxNodes 1 <<< index = 0).map fun index =>
      UInt16.ofNat (index + 1)

/-! ## The node map packet -/

/-- `node_can_broad` -/
def nodeCanBroad (node : MacAddress × Node) : Bool := node.2.connected && !node.2.spec

/-- The data of the packet that `NWM_UDS::BroadcastNodeMap` sends. -/
def nodeMapData (nodeMap : NodeMap) : List UInt8 :=
  let entries := nodeMap.entries.filter nodeCanBroad
  toBytes 8 entries.length ++
    entries.flatMap fun node => node.1.toList ++ toBytes 2 node.2.nodeId.toNat

/-- `NWM_UDS::BroadcastNodeMap` -/
def broadcastNodeMap (around : Surroundings) (s : Console NodeInfo) :
    List (WifiPacket NodeInfo) :=
  sendPacket around
    { frame := .nodeMap (nodeMapData s.nodeMap)
      channel := s.networkChannel
      destinationAddress := Header.broadcastMac NodeInfo }

/-- The loop of `HandleNodeMapPacket`. The bytes it copies must be there. -/
def readNodeMapEntries : ℕ → List UInt8 → NodeMap → Option NodeMap
  | 0, _, nodeMap => some nodeMap
  | count + 1, data, nodeMap =>
      if h : 8 ≤ data.length then
        let address : MacAddress := ⟨(data.take 6).toArray, by simp; omega⟩
        let id := UInt16.ofNat (ofBytes ((data.drop 6).take 2))
        readNodeMapEntries count (data.drop 8) (nodeMap.insert address
          { (nodeMap.lookup address).getD {} with connected := true, nodeId := id })
      else none

/-- What `HandleNodeMapPacket` makes of the data of a packet. -/
def readNodeMap (data : List UInt8) : Option NodeMap :=
  if 8 ≤ data.length then readNodeMapEntries (ofBytes (data.take 8)) (data.drop 8) .empty
  else none

/-- `NWM_UDS::HandleNodeMapPacket` -/
def handleNodeMapPacket (s : Console NodeInfo) (data : List UInt8) : Option (Outcome NodeInfo) :=
  if s.connectionStatus.status = .connectedAsHost then some { console := s }
  else (readNodeMap data).map fun nodeMap => { console := { s with nodeMap } }

/-! ## Beacons -/

/-- `received_beacons.erase(find_if(..))`: the first beacon of a sender goes. -/
def eraseBeacon (beacons : List (WifiPacket NodeInfo)) (sender : MacAddress) :
    List (WifiPacket NodeInfo) :=
  beacons.eraseP fun beacon => beacon.transmitterAddress = sender

/-- `NWM_UDS::HandleBeaconFrame` -/
def handleBeaconFrame (s : Console NodeInfo) (packet : WifiPacket NodeInfo) : Console NodeInfo :=
  let beacons := eraseBeacon s.receivedBeacons packet.transmitterAddress ++ [packet]
  { s with receivedBeacons := if maxBeaconFrames < beacons.length then beacons.tail else beacons }

/-- `NWM_UDS::GetReceivedBeacons` -/
def getReceivedBeacons (s : Console NodeInfo) (sender : MacAddress) :
    List (WifiPacket NodeInfo) × Console NodeInfo :=
  if sender ≠ Header.broadcastMac NodeInfo then
    ((s.receivedBeacons.find? fun beacon => beacon.transmitterAddress = sender).toList,
      { s with receivedBeacons := eraseBeacon s.receivedBeacons sender })
  else (s.receivedBeacons, { s with receivedBeacons := [] })

/-! ## Joining a network -/

/-- `NWM_UDS::SendAssociationResponseFrame` -/
def sendAssociationResponseFrame (around : Surroundings) (s : Console NodeInfo)
    (address : MacAddress) : List (WifiPacket NodeInfo) :=
  if s.connectionStatus.status ≠ .connectedAsHost then []
  else sendPacket around
    { frame := .associationResponse true 1
      channel := s.networkChannel
      destinationAddress := address }

/-- `NWM_UDS::HandleAuthenticationFrame` -/
def handleAuthenticationFrame (around : Surroundings) (s : Console NodeInfo)
    (transmitter : MacAddress) (seq : AuthenticationSeq) : Outcome NodeInfo :=
  if seq ≠ .seq1 then { console := s }
  else if s.connectionStatus.status ≠ .connectedAsHost then { console := s }
  else if (s.nodeMap.lookup transmitter).isSome then { console := s }
  else if s.connectionStatus.maxNodes = s.connectionStatus.totalNodes then { console := s }
  else
    let s' := { s with nodeMap := s.nodeMap.insert transmitter { connected := false } }
    { console := s'
      sent := sendPacket around
          { frame := .authentication .seq2
            channel := s.networkChannel
            destinationAddress := transmitter } ++
        sendAssociationResponseFrame around s' transmitter }

/-- `NWM_UDS::HandleAssociationResponseFrame` -/
def handleAssociationResponseFrame (around : Surroundings) (s : Console NodeInfo)
    (transmitter : MacAddress) (successful : Bool) (associationId : UInt16) :
    Option (Outcome NodeInfo) :=
  if !successful then none
  else if s.connectionStatus.status ≠ .connecting then some { console := s }
  else some
    { console := s
      sent := sendPacket around
        { frame := .eapolStart
            { associationId
              connectionType := s.connType
              node := s.currentNode }
          channel := s.networkChannel
          destinationAddress := transmitter } }

/-- What the host does with a client that starts its session: it gets the first free place. -/
def admitClient (s : Console NodeInfo) (transmitter : MacAddress) (node : NodeInfo)
    (nodeId : UInt16) : Option (Console NodeInfo) :=
  let cs := s.connectionStatus
  let index := nodeId.toNat - 1
  if h : index < udsMaxNodes ∧ index < s.nodeInfo.length then
    some
      { s with
        connectionStatus :=
          { cs with
            nodeBitmask := cs.nodeBitmask ||| BitVec.ofNat udsMaxNodes 1 <<< index
            changedNodes := cs.changedNodes ||| BitVec.ofNat udsMaxNodes 1 <<< index
            nodes := cs.nodes.set index nodeId h.1
            totalNodes := cs.totalNodes + 1 }
        nodeInfo := s.nodeInfo.set index node
        networkInfo := { s.networkInfo with totalNodes := s.networkInfo.totalNodes + 1 }
        nodeMap := s.nodeMap.insert transmitter { connected := true, spec := false, nodeId } }
  else none

/-- What the host does with a spectator. -/
def admitSpectator (s : Console NodeInfo) (transmitter : MacAddress) : Console NodeInfo :=
  { s with
    nodeMap := s.nodeMap.insert transmitter
      { connected := true, spec := true, nodeId := Header.nodeIDSpec NodeInfo } }

/-- The EAPoL-Logoff packet, which goes to every console of the room. -/
def sendLogoff (around : Surroundings) (s : Console NodeInfo) (client : MacAddress)
    (assignedNodeId : UInt16) : List (WifiPacket NodeInfo) :=
  sendPacket around
    { frame := .eapolLogoff (Header.eapolLogoff client assignedNodeId s.nodeInfo
        s.networkInfo.maxNodes s.networkInfo.totalNodes)
      channel := s.networkChannel
      destinationAddress := Header.broadcastMac NodeInfo }

/-- `NWM_UDS::HandleEAPoLPacket` for an EAPoL-Start frame. -/
def handleEAPoLStart (around : Surroundings) (s : Console NodeInfo) (transmitter : MacAddress)
    (start : EAPoLStart NodeInfo) : Option (Outcome NodeInfo) :=
  if s.connectionStatus.status ≠ .connectedAsHost then some { console := s }
  else
    match s.nodeMap.lookup transmitter with
    | none => some { console := s }
    | some entry =>
        if entry.connected then some { console := s }
        -- `ASSERT(connection_status.max_nodes != connection_status.total_nodes)`
        else if s.connectionStatus.maxNodes = s.connectionStatus.totalNodes then none
        else
          match start.connectionType with
          | .client => do
              let nodeId ← getNextAvailableNodeId s.connectionStatus
              let node := setNetworkNodeId start.node nodeId
              let s' ← admitClient s transmitter node nodeId
              some
                { console := s'
                  sent := broadcastNodeMap around s' ++
                    sendLogoff around s' transmitter (networkNodeId node) }
          | .spectator =>
              let s' := admitSpectator s transmitter
              some
                { console := s'
                  sent := sendLogoff around s' transmitter (networkNodeId start.node) }
          | .other _ =>
              some
                { console := s
                  sent := sendLogoff around s transmitter (networkNodeId start.node) }

/-- One turn of the loops of `HandleEAPoLPacket` over the nodes of a logoff frame: a node with
an id takes its place in the status and in the node list. Only the frame that connects the
console marks its nodes as changed here. -/
def recordNode (marksChanged : Bool) (view : ConnectionStatus × List NodeInfo) (node : NodeInfo) :
    Option (ConnectionStatus × List NodeInfo) :=
  let id := networkNodeId node
  if id = 0 then some view
  else
    let index := id.toNat - 1
    if h : index < udsMaxNodes ∧ index < view.2.length then
      let cs := view.1
      some
        ({ cs with
            nodeBitmask := cs.nodeBitmask ||| BitVec.ofNat udsMaxNodes 1 <<< index
            changedNodes :=
              if marksChanged then cs.changedNodes ||| BitVec.ofNat udsMaxNodes 1 <<< index
              else cs.changedNodes
            nodes := cs.nodes.set index id h.1 },
          view.2.set index node)
    else none

/-- `NWM_UDS::HandleEAPoLPacket` for the logoff frame that ends the connection sequence of a
console. It is sent to every console, and its `assigned_node_id` is taken whoever it is for. -/
def completeConnection (s : Console NodeInfo) (transmitter : MacAddress)
    (logoff : EAPoLLogoff NodeInfo) : Option (Outcome NodeInfo) := do
  let cs :=
    { s.connectionStatus with
      networkNodeId := logoff.assignedNodeId
      totalNodes := logoff.connectedNodes
      maxNodes := logoff.maxNodes }
  let (cs, nodeInfo) ← logoff.nodes.foldlM (recordNode true)
    (cs, List.replicate logoff.maxNodes.toNat (Header.blank : NodeInfo))
  some
    { console :=
        { s with
          networkInfo :=
            { s.networkInfo with
              hostMacAddress := transmitter
              totalNodes := logoff.connectedNodes
              maxNodes := logoff.maxNodes }
          nodeInfo
          connectionStatus :=
            { cs with
              status :=
                match s.connType with
                | .client => .connectedAsClient
                | .spectator => .connectedAsSpectator
                | .other _ => cs.status
              connectionEstablished := true } } }

/-- `NWM_UDS::HandleEAPoLPacket` for a logoff frame that a connected console overhears. -/
def refreshConnection (s : Console NodeInfo) (logoff : EAPoLLogoff NodeInfo) :
    Option (Outcome NodeInfo) := do
  let cs :=
    { s.connectionStatus with
      totalNodes := logoff.connectedNodes
      nodes := Vector.replicate udsMaxNodes 0
      nodeBitmask := 0 }
  let (cs, nodeInfo) ← logoff.nodes.foldlM (recordNode false)
    (cs, List.replicate s.networkInfo.maxNodes.toNat (Header.blank : NodeInfo))
  some
    { console :=
        { s with
          networkInfo := { s.networkInfo with totalNodes := logoff.connectedNodes }
          nodeInfo
          connectionStatus :=
            { cs with changedNodes := s.connectionStatus.nodeBitmask ^^^ cs.nodeBitmask } } }

/-- `NWM_UDS::HandleEAPoLPacket` for a logoff frame. -/
def handleEAPoLLogoff (s : Console NodeInfo) (transmitter : MacAddress)
    (logoff : EAPoLLogoff NodeInfo) : Option (Outcome NodeInfo) :=
  match s.connectionStatus.status with
  | .connecting => completeConnection s transmitter logoff
  | .connectedAsClient | .connectedAsSpectator => refreshConnection s logoff
  | _ => some { console := s }

/-- `NWM_UDS::HandleDeauthenticationFrame` -/
def handleDeauthenticationFrame (s : Console NodeInfo) (transmitter : MacAddress) :
    Option (Outcome NodeInfo) :=
  if s.connectionStatus.status ≠ .connectedAsHost then some { console := s }
  else
    match s.nodeMap.lookup transmitter with
    | none => some { console := s }
    | some node =>
        let erased := { s with nodeMap := s.nodeMap.erase transmitter }
        if !node.connected then some { console := erased }
        else
          match s.nodeInfo.findIdx? fun info => networkNodeId info = node.nodeId with
          | none => some { console := erased }
          | some position =>
              let nodeInfo := s.nodeInfo.modify position Header.reset
              if node.spec then some { console := { erased with nodeInfo } }
              else
                let cs := s.connectionStatus
                let index := node.nodeId.toNat - 1
                -- `1 << (node.node_id - 1)` and `nodes[node.node_id - 1]`
                if h : node.nodeId ≠ 0 ∧ index < udsMaxNodes then
                  some
                    { console :=
                        { erased with
                          nodeInfo
                          connectionStatus :=
                            { cs with
                              nodeBitmask :=
                                cs.nodeBitmask &&& ~~~(BitVec.ofNat udsMaxNodes 1 <<< index)
                              changedNodes :=
                                cs.changedNodes ||| BitVec.ofNat udsMaxNodes 1 <<< index
                              totalNodes := cs.totalNodes - 1
                              nodes := cs.nodes.set index 0 h.2 }
                          networkInfo :=
                            { s.networkInfo with
                              totalNodes := s.networkInfo.totalNodes - 1 } } }
                else none

/-! ## Data -/

/-- Whether the console is part of a network. -/
def NetworkStatus.isConnected : NetworkStatus → Bool
  | .connectedAsHost | .connectedAsClient | .connectedAsSpectator => true
  | _ => false

/-- A client or a spectator of a network. -/
def NetworkStatus.isMember : NetworkStatus → Bool
  | .connectedAsClient | .connectedAsSpectator => true
  | _ => false

/-- Put a packet into the queue of its channel, if the game listens there to its sender. -/
def enqueue (s : Console NodeInfo) (data : SecureData) : Console NodeInfo :=
  match s.channelData.lookup data.dataChannel with
  | none => s
  | some channel =>
      if channel.networkNodeId ≠ broadcastNetworkNodeId ∧
          channel.networkNodeId ≠ data.srcNodeId then s
      else
        { s with
          channelData := s.channelData.insert data.dataChannel
            { channel with receivedPackets := channel.receivedPackets ++ [data] } }

/-- `NWM_UDS::HandleSecureDataPacket` -/
def handleSecureDataPacket (around : Surroundings) (s : Console NodeInfo)
    (packet : WifiPacket NodeInfo) (data : SecureData) : Option (Outcome NodeInfo) :=
  let cs := s.connectionStatus
  if !cs.status.isConnected then some { console := s }
  else if data.srcNodeId = cs.networkNodeId then some { console := s }
  else if data.destNodeId ≠ cs.networkNodeId ∧ data.destNodeId ≠ broadcastNetworkNodeId then
    if packet.destinationAddress ≠ Header.broadcastMac NodeInfo ∧
        cs.status ≠ .connectedAsHost then some { console := s }
    else if cs.status = .connectedAsHost then
      -- the host passes the packet on to everyone, so that its receiver can get it
      some
        { console := s
          sent := sendPacket around
            { packet with destinationAddress := Header.broadcastMac NodeInfo } }
    else some { console := s }
  -- `ASSERT(!secure_data.is_management)`
  else if data.isManagement then none
  else some { console := enqueue s data }

/-- `NWM_UDS::OnWifiPacketReceived` and `HandleDataFrame` -/
def onWifiPacketReceived (around : Surroundings) (s : Console NodeInfo)
    (packet : WifiPacket NodeInfo) : Option (Outcome NodeInfo) :=
  if !s.initialized then some { console := s }
  else
    match packet.frame with
    | .beacon _ _ => some { console := handleBeaconFrame s packet }
    | .authentication seq =>
        some (handleAuthenticationFrame around s packet.transmitterAddress seq)
    | .associationResponse successful associationId =>
        handleAssociationResponseFrame around s packet.transmitterAddress successful associationId
    | .eapolStart start => handleEAPoLStart around s packet.transmitterAddress start
    | .eapolLogoff logoff => handleEAPoLLogoff s packet.transmitterAddress logoff
    | .secureData data => handleSecureDataPacket around s packet data
    | .otherData => some { console := s }
    | .deauthentication => handleDeauthenticationFrame s packet.transmitterAddress
    | .nodeMap data => handleNodeMapPacket s data

end ManicRoom.Uds
