/-
# What a step can do

A handler of the service tests a number of things about a packet and then does one of very few.
What these are, and when each of them happens, is said here once for all handlers, and likewise
for all calls of the game. Every fact that is kept over a run goes through these cases, so that
none of them has to look into a handler or a call again.
-/

import ManicRoom.Uds.Calls

namespace ManicRoom.Uds

open ManicRoom.Foundation ManicRoom.Member

variable {NodeInfo : Type} [Header NodeInfo] {around : Surroundings} {s : Console NodeInfo}
  {out : Outcome NodeInfo}

/-- The host enters a console that asks to join into its node map. -/
def Console.enter (s : Console NodeInfo) (a : MacAddress) : Console NodeInfo :=
  { s with nodeMap := s.nodeMap.insert a { connected := false } }

/-- The host takes a console out of its node map. -/
def Console.forget (s : Console NodeInfo) (a : MacAddress) : Console NodeInfo :=
  { s with nodeMap := s.nodeMap.erase a }

/-- A node record with the id of a console that goes is reset. -/
def Console.resetNode (s : Console NodeInfo) (position : ℕ) : Console NodeInfo :=
  { s with nodeInfo := s.nodeInfo.modify position Header.reset }

/-- The place of a client is free again. -/
def Console.freePlace (s : Console NodeInfo) (index : ℕ) (h : index < udsMaxNodes) :
    Console NodeInfo :=
  { s with
    connectionStatus :=
      { s.connectionStatus with
        nodeBitmask :=
          s.connectionStatus.nodeBitmask &&& ~~~(BitVec.ofNat udsMaxNodes 1 <<< index)
        changedNodes := s.connectionStatus.changedNodes ||| BitVec.ofNat udsMaxNodes 1 <<< index
        totalNodes := s.connectionStatus.totalNodes - 1
        nodes := s.connectionStatus.nodes.set index 0 h }
    networkInfo := { s.networkInfo with totalNodes := s.networkInfo.totalNodes - 1 } }

/-- What a console that is running does with a packet, and when. -/
inductive Takes (around : Surroundings) (s : Console NodeInfo) (packet : WifiPacket NodeInfo) :
    Outcome NodeInfo → Prop
  | ignored : Takes around s packet { console := s }
  | hearsBeacon {networkInfo : NetworkInfo} {nodes : List NodeInfo}
      (hframe : packet.frame = .beacon networkInfo nodes) :
      Takes around s packet { console := handleBeaconFrame s packet }
  | authenticates (hframe : packet.frame = .authentication .seq1)
      (hhost : s.connectionStatus.status = .connectedAsHost)
      (hstranger : s.nodeMap.lookup packet.transmitterAddress = none)
      (hroom : s.connectionStatus.maxNodes ≠ s.connectionStatus.totalNodes) :
      Takes around s packet
        { console := s.enter packet.transmitterAddress
          sent := sendPacket around
              { frame := .authentication .seq2
                channel := s.networkChannel
                destinationAddress := packet.transmitterAddress } ++
            sendAssociationResponseFrame around (s.enter packet.transmitterAddress)
              packet.transmitterAddress }
  | startsSession {associationId : UInt16}
      (hframe : packet.frame = .associationResponse true associationId)
      (hconnecting : s.connectionStatus.status = .connecting) :
      Takes around s packet
        { console := s
          sent := sendPacket around
            { frame := .eapolStart
                { associationId
                  connectionType := s.connType
                  node := s.currentNode }
              channel := s.networkChannel
              destinationAddress := packet.transmitterAddress } }
  | seats {start : EAPoLStart NodeInfo} {entry : Node} {nodeId : UInt16} {s' : Console NodeInfo}
      (hframe : packet.frame = .eapolStart start)
      (hhost : s.connectionStatus.status = .connectedAsHost)
      (hentry : s.nodeMap.lookup packet.transmitterAddress = some entry)
      (hwaits : entry.connected = false)
      (hroom : s.connectionStatus.maxNodes ≠ s.connectionStatus.totalNodes)
      (htype : start.connectionType = .client)
      (hnext : getNextAvailableNodeId s.connectionStatus = some nodeId)
      (hseat : admitClient s packet.transmitterAddress (setNetworkNodeId start.node nodeId)
        nodeId = some s') :
      Takes around s packet
        { console := s'
          sent := broadcastNodeMap around s' ++
            sendLogoff around s' packet.transmitterAddress
              (networkNodeId (setNetworkNodeId start.node nodeId)) }
  | letsWatch {start : EAPoLStart NodeInfo} {entry : Node}
      (hframe : packet.frame = .eapolStart start)
      (hhost : s.connectionStatus.status = .connectedAsHost)
      (hentry : s.nodeMap.lookup packet.transmitterAddress = some entry)
      (hwaits : entry.connected = false) (htype : start.connectionType = .spectator) :
      Takes around s packet
        { console := admitSpectator s packet.transmitterAddress
          sent := sendLogoff around (admitSpectator s packet.transmitterAddress)
            packet.transmitterAddress (networkNodeId start.node) }
  | tellsOnly {start : EAPoLStart NodeInfo} (hframe : packet.frame = .eapolStart start)
      (hhost : s.connectionStatus.status = .connectedAsHost)
      (hknown : s.nodeMap.lookup packet.transmitterAddress ≠ none) :
      Takes around s packet
        { console := s
          sent := sendLogoff around s packet.transmitterAddress (networkNodeId start.node) }
  | connects {logoff : EAPoLLogoff NodeInfo} {out : Outcome NodeInfo}
      (hframe : packet.frame = .eapolLogoff logoff)
      (hconnecting : s.connectionStatus.status = .connecting)
      (hout : completeConnection s packet.transmitterAddress logoff = some out) :
      Takes around s packet out
  | refreshes {logoff : EAPoLLogoff NodeInfo} {out : Outcome NodeInfo}
      (hframe : packet.frame = .eapolLogoff logoff)
      (hmember : s.connectionStatus.status.isMember = true)
      (hout : refreshConnection s logoff = some out) : Takes around s packet out
  | passesOn {data : SecureData} (hframe : packet.frame = .secureData data)
      (hhost : s.connectionStatus.status = .connectedAsHost)
      (hsource : data.srcNodeId ≠ s.connectionStatus.networkNodeId)
      (hdest : data.destNodeId ≠ s.connectionStatus.networkNodeId)
      (hnarrow : data.destNodeId ≠ broadcastNetworkNodeId) :
      Takes around s packet
        { console := s
          sent := sendPacket around
            { packet with destinationAddress := Header.broadcastMac NodeInfo } }
  | queues {data : SecureData} (hframe : packet.frame = .secureData data)
      (hconnected : s.connectionStatus.status.isConnected = true)
      (hsource : data.srcNodeId ≠ s.connectionStatus.networkNodeId)
      (hdest : data.destNodeId = s.connectionStatus.networkNodeId ∨
        data.destNodeId = broadcastNetworkNodeId) :
      Takes around s packet { console := enqueue s data }
  | forgets {node : Node} (hframe : packet.frame = .deauthentication)
      (hhost : s.connectionStatus.status = .connectedAsHost)
      (hentry : s.nodeMap.lookup packet.transmitterAddress = some node) :
      Takes around s packet { console := s.forget packet.transmitterAddress }
  | losesSpectator {node : Node} {position : ℕ} (hframe : packet.frame = .deauthentication)
      (hhost : s.connectionStatus.status = .connectedAsHost)
      (hentry : s.nodeMap.lookup packet.transmitterAddress = some node)
      (hspec : node.spec = true) :
      Takes around s packet
        { console := (s.forget packet.transmitterAddress).resetNode position }
  | losesClient {node : Node} {position : ℕ} (hframe : packet.frame = .deauthentication)
      (hhost : s.connectionStatus.status = .connectedAsHost)
      (hentry : s.nodeMap.lookup packet.transmitterAddress = some node)
      (hplace : node.nodeId.toNat - 1 < udsMaxNodes) :
      Takes around s packet
        { console := ((s.forget packet.transmitterAddress).resetNode position).freePlace
            (node.nodeId.toNat - 1) hplace }
  | readsNodeMap {data : List UInt8} {nodeMap : NodeMap} (hframe : packet.frame = .nodeMap data)
      (hhost : s.connectionStatus.status ≠ .connectedAsHost)
      (hread : readNodeMap data = some nodeMap) :
      Takes around s packet { console := { s with nodeMap } }

omit [Header NodeInfo] in
/-- A client that is seated gets a place, a record and an entry in the tables. -/
theorem admitClient_eq_some {a : MacAddress} {node : NodeInfo} {nodeId : UInt16}
    {s' : Console NodeInfo} (h : admitClient s a node nodeId = some s') :
    ∃ hplace : nodeId.toNat - 1 < udsMaxNodes,
      s' =
        { s with
          connectionStatus :=
            { s.connectionStatus with
              nodeBitmask := s.connectionStatus.nodeBitmask |||
                BitVec.ofNat udsMaxNodes 1 <<< (nodeId.toNat - 1)
              changedNodes := s.connectionStatus.changedNodes |||
                BitVec.ofNat udsMaxNodes 1 <<< (nodeId.toNat - 1)
              nodes := s.connectionStatus.nodes.set (nodeId.toNat - 1) nodeId hplace
              totalNodes := s.connectionStatus.totalNodes + 1 }
          nodeInfo := s.nodeInfo.set (nodeId.toNat - 1) node
          networkInfo := { s.networkInfo with totalNodes := s.networkInfo.totalNodes + 1 }
          nodeMap := s.nodeMap.insert a { connected := true, spec := false, nodeId } } := by
  simp only [admitClient] at h
  split at h
  · next hbounds =>
    cases h
    exact ⟨hbounds.1, rfl⟩
  · cases h

/-- A console that waits for its first logoff frame takes its network from it. -/
theorem completeConnection_eq_some {transmitter : MacAddress} {logoff : EAPoLLogoff NodeInfo}
    (h : completeConnection s transmitter logoff = some out) :
    ∃ view : ConnectionStatus × List NodeInfo,
      logoff.nodes.foldlM (recordNode true)
          ({ s.connectionStatus with
              networkNodeId := logoff.assignedNodeId
              totalNodes := logoff.connectedNodes
              maxNodes := logoff.maxNodes },
            List.replicate logoff.maxNodes.toNat Header.blank) = some view ∧
        out =
          { console :=
              { s with
                networkInfo :=
                  { s.networkInfo with
                    hostMacAddress := transmitter
                    totalNodes := logoff.connectedNodes
                    maxNodes := logoff.maxNodes }
                nodeInfo := view.2
                connectionStatus :=
                  { view.1 with
                    status :=
                      match s.connType with
                      | .client => .connectedAsClient
                      | .spectator => .connectedAsSpectator
                      | .other _ => view.1.status
                    connectionEstablished := true } } } := by
  simp only [completeConnection, Option.bind_eq_bind, Option.bind_eq_some_iff,
    Option.some.injEq] at h
  obtain ⟨view, hview, rfl⟩ := h
  exact ⟨view, hview, rfl⟩

/-- A member takes its network anew from every later one. -/
theorem refreshConnection_eq_some {logoff : EAPoLLogoff NodeInfo}
    (h : refreshConnection s logoff = some out) :
    ∃ view : ConnectionStatus × List NodeInfo,
      logoff.nodes.foldlM (recordNode false)
          ({ s.connectionStatus with
              totalNodes := logoff.connectedNodes
              nodes := Vector.replicate udsMaxNodes 0
              nodeBitmask := 0 },
            List.replicate s.networkInfo.maxNodes.toNat Header.blank) = some view ∧
        out =
          { console :=
              { s with
                networkInfo := { s.networkInfo with totalNodes := logoff.connectedNodes }
                nodeInfo := view.2
                connectionStatus :=
                  { view.1 with
                    changedNodes :=
                      s.connectionStatus.nodeBitmask ^^^ view.1.nodeBitmask } } } := by
  simp only [refreshConnection, Option.bind_eq_bind, Option.bind_eq_some_iff,
    Option.some.injEq] at h
  obtain ⟨view, hview, rfl⟩ := h
  exact ⟨view, hview, rfl⟩

theorem takes_handleAuthenticationFrame {packet : WifiPacket NodeInfo} {seq : AuthenticationSeq}
    (hframe : packet.frame = .authentication seq) :
    Takes around s packet (handleAuthenticationFrame around s packet.transmitterAddress seq) := by
  unfold handleAuthenticationFrame
  split
  · exact .ignored
  · next hseq =>
    split
    · exact .ignored
    · next hhost =>
      split
      · exact .ignored
      · next hstranger =>
        split
        · exact .ignored
        · next hroom =>
          rw [not_not.mp hseq] at hframe
          exact .authenticates hframe (not_not.mp hhost) (by simpa using hstranger) hroom

theorem takes_handleAssociationResponseFrame {packet : WifiPacket NodeInfo} {successful : Bool}
    {associationId : UInt16} (hframe : packet.frame = .associationResponse successful associationId)
    (h : handleAssociationResponseFrame around s packet.transmitterAddress successful
      associationId = some out) : Takes around s packet out := by
  simp only [handleAssociationResponseFrame, ite_eq_iff, Option.some.injEq, reduceCtorEq,
    and_false, false_or] at h
  rcases h with ⟨hsuccessful, ⟨-, rfl⟩ | ⟨hstatus, rfl⟩⟩
  · exact .ignored
  · have htrue : successful = true := by simpa using hsuccessful
    exact .startsSession (htrue ▸ hframe) (not_not.mp hstatus)

theorem takes_handleEAPoLStart {packet : WifiPacket NodeInfo} {start : EAPoLStart NodeInfo}
    (hframe : packet.frame = .eapolStart start)
    (h : handleEAPoLStart around s packet.transmitterAddress start = some out) :
    Takes around s packet out := by
  unfold handleEAPoLStart at h
  split at h
  · cases h
    exact .ignored
  · next hhost =>
    have hhost := not_not.mp hhost
    split at h
    · cases h
      exact .ignored
    · next entry hentry =>
      split at h
      · cases h
        exact .ignored
      · next hwaits =>
        have hwaits := eq_false_of_ne_true hwaits
        split at h
        · cases h
        · next hroom =>
          split at h
          · next htype =>
            simp only [Option.bind_eq_bind, Option.bind_eq_some_iff, Option.some.injEq] at h
            obtain ⟨nodeId, hnext, s', hseat, rfl⟩ := h
            exact .seats hframe hhost hentry hwaits hroom htype hnext hseat
          · next htype =>
            cases h
            exact .letsWatch hframe hhost hentry hwaits htype
          · cases h
            exact .tellsOnly hframe hhost (by simp [hentry])

theorem takes_handleEAPoLLogoff {packet : WifiPacket NodeInfo} {logoff : EAPoLLogoff NodeInfo}
    (hframe : packet.frame = .eapolLogoff logoff)
    (h : handleEAPoLLogoff s packet.transmitterAddress logoff = some out) :
    Takes around s packet out := by
  unfold handleEAPoLLogoff at h
  split at h
  · next hstatus => exact .connects hframe hstatus h
  · next hstatus => exact .refreshes hframe (by rw [hstatus]; rfl) h
  · next hstatus => exact .refreshes hframe (by rw [hstatus]; rfl) h
  · cases h
    exact .ignored

theorem takes_handleDeauthenticationFrame {packet : WifiPacket NodeInfo}
    (hframe : packet.frame = .deauthentication)
    (h : handleDeauthenticationFrame s packet.transmitterAddress = some out) :
    Takes around s packet out := by
  unfold handleDeauthenticationFrame at h
  split at h
  · cases h
    exact .ignored
  · next hhost =>
    have hhost := not_not.mp hhost
    split at h
    · cases h
      exact .ignored
    · next node hentry =>
      simp only at h
      split at h
      · cases h
        exact .forgets hframe hhost hentry
      · split at h
        · cases h
          exact .forgets hframe hhost hentry
        · split at h
          · next hspec =>
            cases h
            exact .losesSpectator hframe hhost hentry hspec
          · split at h
            · next hplace =>
              cases h
              exact .losesClient hframe hhost hentry hplace.2
            · cases h

theorem takes_handleSecureDataPacket {packet : WifiPacket NodeInfo} {data : SecureData}
    (hframe : packet.frame = .secureData data)
    (h : handleSecureDataPacket around s packet data = some out) : Takes around s packet out := by
  simp only [handleSecureDataPacket, ite_eq_iff, Option.some.injEq, reduceCtorEq, and_false,
    false_or] at h
  rcases h with ⟨-, rfl⟩ | ⟨hconnected, ⟨-, rfl⟩ | ⟨hsource, ⟨hdest, ⟨-, rfl⟩ |
    ⟨-, ⟨hhost, rfl⟩ | ⟨-, rfl⟩⟩⟩ | ⟨hdest, -, rfl⟩⟩⟩
  · exact .ignored
  · exact .ignored
  · exact .ignored
  · exact .passesOn hframe hhost hsource hdest.1 hdest.2
  · exact .ignored
  · refine .queues hframe (by simpa using hconnected) hsource ?_
    by_contra hother
    exact hdest (not_or.mp hother)

/-- **What a packet can do.** A console that is not running ignores it, and one that is does with
it what one of the cases says. -/
theorem takes_of_onWifiPacketReceived {packet : WifiPacket NodeInfo}
    (h : onWifiPacketReceived around s packet = some out) :
    Takes around s packet out ∧ (s.initialized = true ∨ out = { console := s }) := by
  unfold onWifiPacketReceived at h
  split at h
  · cases h
    exact ⟨.ignored, .inr rfl⟩
  · next hinit =>
    refine ⟨?_, .inl (by simpa using hinit)⟩
    split at h
    · next hframe =>
      cases h
      exact .hearsBeacon hframe
    · next hframe =>
      cases h
      exact takes_handleAuthenticationFrame hframe
    · next hframe => exact takes_handleAssociationResponseFrame hframe h
    · next hframe => exact takes_handleEAPoLStart hframe h
    · next hframe => exact takes_handleEAPoLLogoff hframe h
    · next hframe => exact takes_handleSecureDataPacket hframe h
    · cases h
      exact .ignored
    · next hframe => exact takes_handleDeauthenticationFrame hframe h
    · next hframe =>
      unfold handleNodeMapPacket at h
      split at h
      · cases h
        exact .ignored
      · next hhost =>
        obtain ⟨nodeMap, hread, rfl⟩ := Option.map_eq_some_iff.mp h
        exact .readsNodeMap hframe hhost hread

/-! ## Calls -/

theorem udsMaxNodes_pos : 0 < udsMaxNodes := by decide

/-- The console founds a network. -/
def Console.found (around : Surroundings) (s : Console NodeInfo) (info : NetworkInfo) :
    Console NodeInfo :=
  let currentNode := setNetworkNodeId s.currentNode 1
  let cs := s.connectionStatus
  { s with
    networkInfo :=
      { info with
        totalNodes := 1
        hostMacAddress := getMacAddress around
        channel :=
          if info.channel ≠ 0 then info.channel else Header.defaultNetworkChannel NodeInfo }
    networkChannel := if info.channel ≠ 0 then info.channel else s.networkChannel
    connectionStatus :=
      { cs with
        status := .connectedAsHost
        connectionEstablished := true
        maxNodes := info.maxNodes
        totalNodes := 1
        networkNodeId := 1
        nodes := cs.nodes.set 0 1 udsMaxNodes_pos
        nodeBitmask := cs.nodeBitmask ||| 1
        changedNodes := cs.changedNodes ||| 1 }
    currentNode
    nodeInfo := (List.replicate info.maxNodes.toNat Header.blank).set 0 currentNode }

/-- What a call of the game and the beacon timer do, and when. -/
inductive Does (around : Surroundings) (s : Console NodeInfo) :
    Call NodeInfo → Outcome NodeInfo → Prop
  /-- The call is refused, or there is nothing for it to do. -/
  | leavesAll (call : Call NodeInfo) (status : ResultStatus) :
      Does around s call { console := s, answer := .result status }
  | initializes (node : NodeInfo) :
      Does around s (.initializeWithVersion node)
        { console := initializeWithVersion s node, answer := .result .success }
  | shutsDown : Does around s .shutdown { console := shutdownHLE s, answer := .result .success }
  | founds {info : NetworkInfo} (hmax : 1 < info.maxNodes) :
      Does around s (.beginHostingNetwork info)
        { console := s.found around info, answer := .result .success }
  | ejects {networkNodeId : UInt16} {sent : List (WifiPacket NodeInfo)}
      (hframe : ∀ packet ∈ sent, packet.frame = .deauthentication) :
      Does around s (.ejectClient networkNodeId)
        { console := s, sent, answer := .result .success }
  | destroys (hhost : s.connectionStatus.status = .connectedAsHost) :
      Does around s .destroyNetwork
        { console :=
            { s with
              connectionStatus := s.connectionStatus.cleared .notConnected
              nodeMap := .empty
              channelData := .empty }
          answer := .result .success }
  | joins (info : NetworkInfo) (connectionType : ConnectionType) :
      Does around s (.connectToNetwork info connectionType)
        (connectToNetworkHLE around s info connectionType)
  | abandons (hhost : s.connectionStatus.status = .connectedAsHost) :
      Does around s .disconnectNetwork
        { console :=
            { s with
              connectionStatus := s.connectionStatus.cleared .connectedAsHost
              nodeMap := .empty }
          answer := .result .disconErrorCalledAsHost }
  | leaves (hhost : s.connectionStatus.status ≠ .connectedAsHost) :
      Does around s .disconnectNetwork
        { console :=
            { s with
              connectionStatus := s.connectionStatus.cleared .notConnected
              nodeMap := .empty
              channelData := .empty }
          sent := sendPacket around
            { frame := .deauthentication
              channel := s.networkChannel
              destinationAddress := s.networkInfo.hostMacAddress }
          answer := .result .success }
  | tellsStatus : Does around s .getConnectionStatus (getConnectionStatusHLE s)
  | tellsNode (nodeId : UInt16) :
      Does around s (.getNodeInformation nodeId)
        { console := s, answer := getNodeInformation s nodeId }
  | binds {bindNodeId recvBufferSize dataChannel : ℕ} {networkNodeId : UInt16}
      (hfree : s.channelData.lookup dataChannel = none) :
      Does around s (.bind bindNodeId recvBufferSize dataChannel networkNodeId)
        { console :=
            { s with
              channelData := s.channelData.insert dataChannel
                { bindNodeId, channel := dataChannel, networkNodeId } }
          answer := .result .success }
  | unbinds {bindNodeId : ℕ} {entry : ℕ × BindNodeData}
      (hentry : findBindNode s bindNodeId = some entry) :
      Does around s (.unbind bindNodeId)
        { console := { s with channelData := s.channelData.erase entry.1 }
          answer := .result .success }
  | sends {destNodeId : UInt16} {dataChannel dataSize : ℕ} {flags : UInt8}
      {inputBuffer : List UInt8} {address : MacAddress}
      (hmember : s.connectionStatus.status = .connectedAsClient ∨
        s.connectionStatus.status = .connectedAsHost)
      (hlength : dataSize ≤ inputBuffer.length) (hsize : dataSize ≤ 0x5C6) :
      Does around s (.sendTo destNodeId dataChannel dataSize flags inputBuffer)
        { console := s
          sent := sendPacket around
            { frame := .secureData (Header.secureData NodeInfo (inputBuffer.take dataSize)
                dataChannel destNodeId s.connectionStatus.networkNodeId 0)
              channel := s.networkChannel
              destinationAddress := address }
          answer := .result .success }
  | findsNothing {bindNodeId maxOutBuffSize maxOutBuffSizeAligned : ℕ} (buffer : List UInt8) :
      Does around s (.pullPacket bindNodeId maxOutBuffSize maxOutBuffSizeAligned)
        { console := s, answer := .pulled buffer 0 around.unsetSrcNodeId }
  | pulls {bindNodeId maxOutBuffSize maxOutBuffSizeAligned dataChannel : ℕ}
      {channel : BindNodeData} {packet : SecureData} {packets : List SecureData}
      (padding : List UInt8) (hchannel : findBindNode s bindNodeId = some (dataChannel, channel))
      (hpackets : channel.receivedPackets = packet :: packets) :
      Does around s (.pullPacket bindNodeId maxOutBuffSize maxOutBuffSizeAligned)
        { console :=
            { s with
              channelData := s.channelData.insert dataChannel
                { channel with receivedPackets := packets } }
          answer := .pulled (packet.payload ++ padding) packet.payload.length packet.srcNodeId }
  | scans (sender : MacAddress) (receivedBeacons packets : List (WifiPacket NodeInfo)) :
      Does around s (.recvBeaconBroadcastData sender)
        { console := { s with receivedBeacons }, answer := .beacons packets }
  | beacons : Does around s .beaconTimer { console := s, sent := beaconBroadcastCallback around s }

/-- A network that is founded has more than one place. -/
theorem beginHostingNetwork_eq_some {info : NetworkInfo}
    (h : beginHostingNetwork around s info = some out) :
    1 < info.maxNodes ∧ out = { console := s.found around info, answer := .result .success } := by
  simp only [beginHostingNetwork, ite_eq_iff, reduceCtorEq, and_false, false_or,
    Option.some.injEq, not_or, UInt8.not_le] at h
  obtain ⟨⟨hmax, -⟩, rfl⟩ := h
  exact ⟨hmax, rfl⟩

omit [Header NodeInfo] in
theorem frame_of_mem_sendPacket {packet given : WifiPacket NodeInfo}
    (h : packet ∈ sendPacket around given) : packet.frame = given.frame := by
  unfold sendPacket at h
  split at h
  · rw [List.mem_singleton] at h
    rw [h]
  · cases h

theorem does_ejectClientHLE (networkNodeId : UInt16) :
    Does around s (.ejectClient networkNodeId) (ejectClientHLE around s networkNodeId) := by
  unfold ejectClientHLE
  split
  · exact .leavesAll _ _
  · split
    · exact .leavesAll _ _
    · dsimp only
      split
      · refine .ejects fun packet hpacket => ?_
        simp only [List.mem_append, or_self] at hpacket
        exact frame_of_mem_sendPacket hpacket
      · split
        · exact .leavesAll _ _
        · exact .ejects fun packet => frame_of_mem_sendPacket

theorem does_destroyNetworkHLE : Does around s .destroyNetwork (destroyNetworkHLE s) := by
  unfold destroyNetworkHLE
  split
  · exact .leavesAll _ _
  · next hhost => exact .destroys (not_not.mp hhost)

theorem does_disconnectNetworkHLE :
    Does around s .disconnectNetwork (disconnectNetworkHLE around s) := by
  unfold disconnectNetworkHLE
  split
  · next hhost => exact .abandons hhost
  · next hhost => exact .leaves hhost

theorem does_bindHLE {bindNodeId recvBufferSize dataChannel : ℕ} {networkNodeId : UInt16}
    (h : bindHLE s bindNodeId recvBufferSize dataChannel networkNodeId = some out) :
    Does around s (.bind bindNodeId recvBufferSize dataChannel networkNodeId) out := by
  simp only [bindHLE, ite_eq_iff, Option.some.injEq, reduceCtorEq, and_false, false_or] at h
  rcases h with ⟨-, rfl⟩ | ⟨-, ⟨-, rfl⟩ | ⟨-, ⟨-, rfl⟩ | ⟨-, hfree, rfl⟩⟩⟩
  · exact .leavesAll _ _
  · exact .leavesAll _ _
  · exact .leavesAll _ _
  · exact .binds (by simpa using hfree)

theorem does_unbind (bindNodeId : ℕ) :
    Does around s (.unbind bindNodeId) (unbind s bindNodeId) := by
  unfold unbind unbindHLE
  split
  · exact .leavesAll _ _
  · split
    · exact .leavesAll _ _
    · next entry hentry => exact .unbinds hentry

theorem does_sendToHLE {destNodeId : UInt16} {dataChannel dataSize : ℕ} {flags : UInt8}
    {inputBuffer : List UInt8}
    (h : sendToHLE around s destNodeId dataChannel dataSize flags inputBuffer = some out) :
    Does around s (.sendTo destNodeId dataChannel dataSize flags inputBuffer) out := by
  simp only [sendToHLE, ite_eq_iff, Option.some.injEq, reduceCtorEq, and_false, false_or] at h
  rcases h with ⟨hlength, ⟨-, rfl⟩ | ⟨hstatus, ⟨-, rfl⟩ | ⟨-, ⟨-, rfl⟩ | ⟨-, h⟩⟩⟩⟩
  · exact .leavesAll _ _
  · exact .leavesAll _ _
  · exact .leavesAll _ _
  · split at h
    · cases h
      exact .leavesAll _ _
    · simp only [ite_eq_iff, Option.some.injEq] at h
      rcases h with ⟨-, rfl⟩ | ⟨hsize, rfl⟩
      · exact .leavesAll _ _
      · refine .sends ?_ (not_lt.mp hlength) (not_lt.mp hsize)
        by_contra hnot
        exact hstatus (not_or.mp hnot)

theorem does_pullPacketHLE {bindNodeId maxOutBuffSize maxOutBuffSizeAligned : ℕ}
    (h : pullPacketHLE around s bindNodeId maxOutBuffSize maxOutBuffSizeAligned = some out) :
    Does around s (.pullPacket bindNodeId maxOutBuffSize maxOutBuffSizeAligned) out := by
  simp only [pullPacketHLE] at h
  split at h
  · cases h
    exact .leavesAll _ _
  · split at h
    · cases h
      exact .leavesAll _ _
    · next dataChannel channel hchannel =>
      split at h
      · cases h
        exact .findsNothing _
      · next packet packets hpackets =>
        simp only [ite_eq_iff, Option.some.injEq, reduceCtorEq, and_false, false_or] at h
        rcases h with ⟨-, rfl⟩ | ⟨-, -, rfl⟩
        · exact .leavesAll _ _
        · exact .pulls _ hchannel hpackets

/-- **What a call can do.** It is refused and changes nothing, or it does what it is for. -/
theorem does_of_onCall {call : Call NodeInfo} (h : onCall around s call = some out) :
    Does around s call out := by
  cases call with
  | initializeWithVersion node =>
      cases h
      exact .initializes node
  | shutdown =>
      cases h
      exact .shutsDown
  | beginHostingNetwork info =>
      obtain ⟨hmax, rfl⟩ := beginHostingNetwork_eq_some h
      exact .founds hmax
  | ejectClient networkNodeId =>
      cases h
      exact does_ejectClientHLE networkNodeId
  | destroyNetwork =>
      cases h
      exact does_destroyNetworkHLE
  | connectToNetwork info connectionType =>
      cases h
      exact .joins info connectionType
  | disconnectNetwork =>
      cases h
      exact does_disconnectNetworkHLE
  | getConnectionStatus =>
      cases h
      exact .tellsStatus
  | getNodeInformation nodeId =>
      cases h
      exact .tellsNode nodeId
  | bind bindNodeId recvBufferSize dataChannel networkNodeId => exact does_bindHLE h
  | unbind bindNodeId =>
      cases h
      exact does_unbind bindNodeId
  | sendTo destNodeId dataChannel dataSize flags inputBuffer => exact does_sendToHLE h
  | pullPacket bindNodeId maxOutBuffSize maxOutBuffSizeAligned => exact does_pullPacketHLE h
  | recvBeaconBroadcastData sender =>
      cases h
      unfold getReceivedBeacons
      split <;> exact .scans sender _ _
  | beaconTimer =>
      cases h
      exact .beacons

end ManicRoom.Uds
