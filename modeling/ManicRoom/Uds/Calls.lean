/-
# The calls of the game

What the game asks of the local play service, the beacon timer, and the step of a console:
a call of its game, a tick of the timer or a packet of the room. As in the handlers, `none`
stands for a failed assertion or an access outside an array.

Source: `src/core/hle/service/nwm/nwm_uds.cpp`.
-/

import ManicRoom.Foundation.Transition
import ManicRoom.Uds.Console

namespace ManicRoom.Uds

open ManicRoom.Foundation ManicRoom.Member

variable {NodeInfo : Type} [Header NodeInfo]

/-- `NWM_UDS::Initialize`, as `InitializeWithVersion` calls it. -/
def initializeWithVersion (s : Console NodeInfo) (node : NodeInfo) : Console NodeInfo :=
  { s with
    currentNode := node
    initialized := true
    connectionStatus := { status := .notConnected }
    nodeInfo := [node]
    channelData := .empty }

/-- `NWM_UDS::ShutdownHLE` -/
def shutdownHLE (s : Console NodeInfo) : Console NodeInfo :=
  { s with initialized := false, channelData := .empty, nodeMap := .empty }

/-- `NWM_UDS::BeginHostingNetwork` -/
def beginHostingNetwork (around : Surroundings) (s : Console NodeInfo) (info : NetworkInfo) :
    Option (Outcome NodeInfo) :=
  if info.maxNodes ≤ 1 ∨ Header.applicationDataSize NodeInfo < info.applicationDataSize then none
  else
    let currentNode := setNetworkNodeId s.currentNode 1
    let cs := s.connectionStatus
    some
      { console :=
          { s with
            networkInfo :=
              { info with
                totalNodes := 1
                hostMacAddress := getMacAddress around
                channel :=
                  if info.channel ≠ 0 then info.channel
                  else Header.defaultNetworkChannel NodeInfo }
            networkChannel := if info.channel ≠ 0 then info.channel else s.networkChannel
            connectionStatus :=
              { cs with
                status := .connectedAsHost
                connectionEstablished := true
                maxNodes := info.maxNodes
                totalNodes := 1
                networkNodeId := 1
                nodes := cs.nodes.set 0 1
                nodeBitmask := cs.nodeBitmask ||| 1
                changedNodes := cs.changedNodes ||| 1 }
            currentNode
            nodeInfo := (List.replicate info.maxNodes.toNat Header.blank).set 0 currentNode }
        answer := .result .success }

/-- `NWM_UDS::GetNodeMacAddress` -/
def getNodeMacAddress (s : Console NodeInfo) (destNodeId : UInt16) (flags : UInt8) :
    Option MacAddress :=
  if flags &&& 2 ≠ 0 ∨ destNodeId = broadcastNetworkNodeId then
    some (Header.broadcastMac NodeInfo)
  else if destNodeId = hostDestNodeId then some s.networkInfo.hostMacAddress
  else
    (s.nodeMap.entries.find? fun node => node.2.nodeId = destNodeId ∧ node.2.connected).map
      Prod.fst

/-- `NWM_UDS::EjectClientHLE` -/
def ejectClientHLE (around : Surroundings) (s : Console NodeInfo) (networkNodeId : UInt16) :
    Outcome NodeInfo :=
  if networkNodeId = 1 then { console := s, answer := .result .wrongArgument }
  else if s.connectionStatus.status ≠ .connectedAsHost then
    { console := s, answer := .result .invalidState }
  else
    let deauth (destination : MacAddress) : List (WifiPacket NodeInfo) := sendPacket around
      { frame := .deauthentication
        channel := s.networkChannel
        destinationAddress := destination }
    if networkNodeId = broadcastNetworkNodeId then
      let sent := deauth (Header.broadcastMac NodeInfo)
      { console := s, sent := sent ++ sent ++ sent, answer := .result .success }
    else
      match getNodeMacAddress s networkNodeId 0 with
      | none => { console := s, answer := .result .success }
      | some address => { console := s, sent := deauth address, answer := .result .success }

/-- The connection status that `DestroyNetworkHLE` and `DisconnectNetworkHLE` leave: everything
is reset but the id of the console. -/
def ConnectionStatus.cleared (cs : ConnectionStatus) (status : NetworkStatus) :
    ConnectionStatus :=
  { status, networkNodeId := cs.networkNodeId }

/-- `NWM_UDS::DestroyNetworkHLE` -/
def destroyNetworkHLE (s : Console NodeInfo) : Outcome NodeInfo :=
  if s.connectionStatus.status ≠ .connectedAsHost then
    { console := s, answer := .result .wrongStatus }
  else
    { console :=
        { s with
          connectionStatus := s.connectionStatus.cleared .notConnected
          nodeMap := .empty
          channelData := .empty }
      answer := .result .success }

/-- `NWM_UDS::ConnectToNetworkHLE` and `StartConnectionSequence` -/
def connectToNetworkHLE (around : Surroundings) (s : Console NodeInfo) (info : NetworkInfo)
    (connectionType : ConnectionType) : Outcome NodeInfo :=
  { console :=
      { s with
        networkInfo := info
        connType := connectionType
        connectionStatus := { s.connectionStatus with status := .connecting } }
    sent := sendPacket around
      { frame := .authentication .seq1
        channel := s.networkChannel
        destinationAddress := info.hostMacAddress } }

/-- `NWM_UDS::DisconnectNetworkHLE` -/
def disconnectNetworkHLE (around : Surroundings) (s : Console NodeInfo) : Outcome NodeInfo :=
  if s.connectionStatus.status = .connectedAsHost then
    { console :=
        { s with
          connectionStatus := s.connectionStatus.cleared .connectedAsHost
          nodeMap := .empty }
      answer := .result .disconErrorCalledAsHost }
  else
    { console :=
        { s with
          connectionStatus := s.connectionStatus.cleared .notConnected
          nodeMap := .empty
          channelData := .empty }
      sent := sendPacket around
        { frame := .deauthentication
          channel := s.networkChannel
          destinationAddress := s.networkInfo.hostMacAddress }
      answer := .result .success }

/-- `NWM_UDS::GetConnectionStatusHLE` -/
def getConnectionStatusHLE (s : Console NodeInfo) : Outcome NodeInfo :=
  { console := { s with connectionStatus := { s.connectionStatus with changedNodes := 0 } }
    answer := .connectionStatus s.connectionStatus }

/-- `NWM_UDS::GetNodeInformationHLE` -/
def getNodeInformationHLE (s : Console NodeInfo) (nodeId : UInt16) : Option NodeInfo :=
  s.nodeInfo.find? fun node => networkNodeId node = nodeId

/-- `NWM_UDS::GetNodeInformation` -/
def getNodeInformation (s : Console NodeInfo) (nodeId : UInt16) : Answer NodeInfo :=
  if !s.initialized then .result .notInitialized
  else
    match getNodeInformationHLE s nodeId with
    | none => .result .notFound
    | some node => .nodeInformation node

/-- `NWM_UDS::BindHLE` -/
def bindHLE (s : Console NodeInfo) (bindNodeId recvBufferSize dataChannel : ℕ)
    (networkNodeId : UInt16) : Option (Outcome NodeInfo) :=
  if dataChannel = 0 ∨ bindNodeId = 0 then
    some { console := s, answer := .result .bindErrorArgsZero }
  else if 16 ≤ s.channelData.entries.length then
    some { console := s, answer := .result .bindErrorMaxBinds }
  else if recvBufferSize < 0x5F4 then
    some { console := s, answer := .result .bindErrorRecvBufferTooLarge }
  -- `ASSERT(channel_data.find(data_channel) == channel_data.end())`
  else if (s.channelData.lookup dataChannel).isSome then none
  else
    some
      { console :=
          { s with
            channelData := s.channelData.insert dataChannel
              { bindNodeId, channel := dataChannel, networkNodeId } }
        answer := .result .success }

/-- The first channel of a bind node. -/
def findBindNode (s : Console NodeInfo) (bindNodeId : ℕ) : Option (ℕ × BindNodeData) :=
  s.channelData.entries.find? fun entry => entry.2.bindNodeId = bindNodeId

/-- `NWM_UDS::UnbindHLE` -/
def unbindHLE (s : Console NodeInfo) (bindNodeId : ℕ) : Console NodeInfo :=
  match findBindNode s bindNodeId with
  | none => s
  | some entry => { s with channelData := s.channelData.erase entry.1 }

/-- `NWM_UDS::Unbind` -/
def unbind (s : Console NodeInfo) (bindNodeId : ℕ) : Outcome NodeInfo :=
  if bindNodeId = 0 then { console := s, answer := .result .wrongArgument }
  else { console := unbindHLE s bindNodeId, answer := .result .success }

/-- `NWM_UDS::SendToHLE` -/
def sendToHLE (around : Surroundings) (s : Console NodeInfo) (destNodeId : UInt16)
    (dataChannel dataSize : ℕ) (flags : UInt8) (inputBuffer : List UInt8) :
    Option (Outcome NodeInfo) :=
  let cs := s.connectionStatus
  -- `ASSERT(input_buffer.size() >= data_size)`
  if inputBuffer.length < dataSize then none
  else if cs.status ≠ .connectedAsClient ∧ cs.status ≠ .connectedAsHost then
    some { console := s, answer := .result .sendErrorNotConnected }
  else if destNodeId = 0 then some { console := s, answer := .result .sendErrorBadNode }
  else if destNodeId = cs.networkNodeId then
    some { console := s, answer := .result .sendErrorBadNode }
  else
    match getNodeMacAddress s destNodeId flags with
    | none => some { console := s, answer := .result .sendErrorBadMacAddress }
    | some address =>
        if 0x5C6 < dataSize then
          some { console := s, answer := .result .sendErrorPacketSizeTooLarge }
        else
          some
            { console := s
              sent := sendPacket around
                { frame := .secureData (Header.secureData NodeInfo (inputBuffer.take dataSize)
                    dataChannel destNodeId cs.networkNodeId 0)
                  channel := s.networkChannel
                  destinationAddress := address }
              answer := .result .success }

/-- `NWM_UDS::PullPacketHLE`, and what `PullPacket` answers to the game. -/
def pullPacketHLE (around : Surroundings) (s : Console NodeInfo)
    (bindNodeId maxOutBuffSize maxOutBuffSizeAligned : ℕ) : Option (Outcome NodeInfo) :=
  let buffSize := min maxOutBuffSizeAligned 0x172 * 4
  if !s.connectionStatus.status.isConnected then
    some { console := s, answer := .result .recvErrorNotConnected }
  else
    match findBindNode s bindNodeId with
    | none => some { console := s, answer := .result .recvErrorBadNode }
    | some (dataChannel, channel) =>
        match channel.receivedPackets with
        | [] =>
            some
              { console := s
                answer := .pulled (List.replicate buffSize 0) 0 around.unsetSrcNodeId }
        | packet :: packets =>
            let dataSize := packet.payload.length
            if maxOutBuffSize < dataSize then
              some { console := s, answer := .result .recvErrorPacketSizeTooLarge }
            -- the data is copied into a buffer of `buff_size` bytes
            else if buffSize < dataSize then none
            else
              some
                { console :=
                    { s with
                      channelData := s.channelData.insert dataChannel
                        { channel with receivedPackets := packets } }
                  answer := .pulled
                    (packet.payload ++ List.replicate (buffSize - dataSize) 0)
                    dataSize packet.srcNodeId }

/-- `NWM_UDS::BeaconBroadcastCallback` -/
def beaconBroadcastCallback (around : Surroundings) (s : Console NodeInfo) :
    List (WifiPacket NodeInfo) :=
  if s.connectionStatus.status ≠ .connectedAsHost then []
  else sendPacket around
    { frame := .beacon s.networkInfo s.nodeInfo
      channel := s.networkChannel
      destinationAddress := Header.broadcastMac NodeInfo }

/-- The calls of the game and the beacon timer. -/
inductive Call (NodeInfo : Type)
  | initializeWithVersion (node : NodeInfo)
  | shutdown
  | beginHostingNetwork (info : NetworkInfo)
  | ejectClient (networkNodeId : UInt16)
  | destroyNetwork
  | connectToNetwork (info : NetworkInfo) (connectionType : ConnectionType)
  | disconnectNetwork
  | getConnectionStatus
  | getNodeInformation (nodeId : UInt16)
  | bind (bindNodeId recvBufferSize dataChannel : ℕ) (networkNodeId : UInt16)
  | unbind (bindNodeId : ℕ)
  | sendTo (destNodeId : UInt16) (dataChannel dataSize : ℕ) (flags : UInt8)
      (inputBuffer : List UInt8)
  | pullPacket (bindNodeId maxOutBuffSize maxOutBuffSizeAligned : ℕ)
  | recvBeaconBroadcastData (sender : MacAddress)
  | beaconTimer

/-- What a call does. -/
def onCall (around : Surroundings) (s : Console NodeInfo) :
    Call NodeInfo → Option (Outcome NodeInfo)
  | .initializeWithVersion node =>
      some { console := initializeWithVersion s node, answer := .result .success }
  | .shutdown => some { console := shutdownHLE s, answer := .result .success }
  | .beginHostingNetwork info => beginHostingNetwork around s info
  | .ejectClient networkNodeId => some (ejectClientHLE around s networkNodeId)
  | .destroyNetwork => some (destroyNetworkHLE s)
  | .connectToNetwork info connectionType =>
      some (connectToNetworkHLE around s info connectionType)
  | .disconnectNetwork => some (disconnectNetworkHLE around s)
  | .getConnectionStatus => some (getConnectionStatusHLE s)
  | .getNodeInformation nodeId =>
      some { console := s, answer := getNodeInformation s nodeId }
  | .bind bindNodeId recvBufferSize dataChannel networkNodeId =>
      bindHLE s bindNodeId recvBufferSize dataChannel networkNodeId
  | .unbind bindNodeId => some (unbind s bindNodeId)
  | .sendTo destNodeId dataChannel dataSize flags inputBuffer =>
      sendToHLE around s destNodeId dataChannel dataSize flags inputBuffer
  | .pullPacket bindNodeId maxOutBuffSize maxOutBuffSizeAligned =>
      pullPacketHLE around s bindNodeId maxOutBuffSize maxOutBuffSizeAligned
  | .recvBeaconBroadcastData sender =>
      some
        { console := (getReceivedBeacons s sender).2
          answer := .beacons (getReceivedBeacons s sender).1 }
  | .beaconTimer => some { console := s, sent := beaconBroadcastCallback around s }

/-- What happens to a console. -/
inductive Event (NodeInfo : Type)
  | call (call : Call NodeInfo)
  | packet (packet : WifiPacket NodeInfo)

/-- One step of a console. -/
def Console.react (around : Surroundings) (s : Console NodeInfo) :
    Event NodeInfo → Option (Outcome NodeInfo)
  | .call call => onCall around s call
  | .packet packet => onWifiPacketReceived around s packet

/-- The service when it is constructed. -/
def Console.IsNew (s : Console NodeInfo) : Prop :=
  ∃ currentNode networkChannel, s = { currentNode, networkChannel }

variable (NodeInfo) in
/-- One console under any surroundings, any packets and any calls. -/
def consoleSystem : System (Console NodeInfo) (Surroundings × Event NodeInfo) where
  init := Console.IsNew
  step s label := (s.react label.1 label.2).map Outcome.console

end ManicRoom.Uds
