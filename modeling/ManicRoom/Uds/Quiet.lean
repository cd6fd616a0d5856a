/-
# Steps that leave the tables or the queues alone

Most of what happens to a console has nothing to do with who is in its network: beacons, data,
the channels of the game and the packets it sends. Such a step leaves the connection status,
the network information, the node records and the node map as they are. The other way round, what
a console hears of its network leaves its two kinds of queues alone, the channels of its game and
the beacons it heard.
-/

import ManicRoom.Uds.Handlers

namespace ManicRoom.Uds

open ManicRoom.Foundation ManicRoom.Member

variable {NodeInfo : Type}

/-- The second state has the tables of the first. -/
structure SameTables (s s' : Console NodeInfo) : Prop where
  connectionStatus : s'.connectionStatus = s.connectionStatus
  networkInfo : s'.networkInfo = s.networkInfo
  nodeInfo : s'.nodeInfo = s.nodeInfo
  nodeMap : s'.nodeMap = s.nodeMap
  initialized : s'.initialized = s.initialized
  connType : s'.connType = s.connType

theorem SameTables.refl (s : Console NodeInfo) : SameTables s s := ⟨rfl, rfl, rfl, rfl, rfl, rfl⟩

theorem sameTables_channelData (s : Console NodeInfo) (channelData : OrderedMap ℕ BindNodeData) :
    SameTables s { s with channelData } := ⟨rfl, rfl, rfl, rfl, rfl, rfl⟩

theorem sameTables_receivedBeacons (s : Console NodeInfo)
    (receivedBeacons : List (WifiPacket NodeInfo)) : SameTables s { s with receivedBeacons } :=
  ⟨rfl, rfl, rfl, rfl, rfl, rfl⟩

variable {around : Surroundings} {s s' : Console NodeInfo} {out : Outcome NodeInfo}

theorem sameTables_enqueue (s : Console NodeInfo) (data : SecureData) :
    SameTables s (enqueue s data) := by
  unfold enqueue
  split
  · exact .refl s
  · split
    · exact .refl s
    · exact sameTables_channelData s _

variable [Header NodeInfo]

/-! ## Packets and the status of a console -/

/-- A console that does not host takes notice of the network of others in two ways: it hears
logoff frames and reads node maps. -/
theorem tables_of_not_host {packet : WifiPacket NodeInfo}
    (hstatus : s.connectionStatus.status ≠ .connectedAsHost)
    (hlogoff : ∀ logoff, packet.frame ≠ .eapolLogoff logoff)
    (hout : onWifiPacketReceived around s packet = some out) :
    SameTables s out.console ∨ ∃ data nodeMap,
      packet.frame = .nodeMap data ∧ readNodeMap data = some nodeMap ∧
      out.console = { s with nodeMap } := by
  cases (takes_of_onWifiPacketReceived hout).1 with
  | readsNodeMap hframe _ hread => exact .inr ⟨_, _, hframe, hread, rfl⟩
  | connects hframe => exact absurd hframe (hlogoff _)
  | refreshes hframe => exact absurd hframe (hlogoff _)
  | hearsBeacon hframe => exact .inl (sameTables_receivedBeacons s _)
  | queues hframe => exact .inl (sameTables_enqueue s _)
  | ignored => exact .inl (.refl s)
  | startsSession hframe => exact .inl (.refl s)
  | authenticates _ hhost => exact absurd hhost hstatus
  | seats _ hhost => exact absurd hhost hstatus
  | letsWatch _ hhost => exact absurd hhost hstatus
  | tellsOnly _ hhost => exact absurd hhost hstatus
  | passesOn _ hhost => exact absurd hhost hstatus
  | forgets _ hhost => exact absurd hhost hstatus
  | losesSpectator _ hhost => exact absurd hhost hstatus
  | losesClient _ hhost => exact absurd hhost hstatus

/-- The loop over the nodes of a logoff frame leaves the status. -/
theorem status_foldlM_recordNode {marksChanged : Bool} {nodes : List NodeInfo}
    {view view' : ConnectionStatus × List NodeInfo}
    (h : nodes.foldlM (recordNode marksChanged) view = some view') :
    view'.1.status = view.1.status := by
  induction nodes generalizing view with
  | nil =>
      cases h
      rfl
  | cons node nodes ih =>
      rw [List.foldlM_cons, Option.bind_eq_bind, Option.bind_eq_some_iff] at h
      obtain ⟨next, hnext, hrest⟩ := h
      rw [ih hrest]
      unfold recordNode at hnext
      simp only at hnext
      split at hnext
      · cases hnext
        rfl
      · split at hnext
        · cases hnext
          rfl
        · cases hnext

theorem status_refreshConnection {logoff : EAPoLLogoff NodeInfo}
    (h : refreshConnection s logoff = some out) :
    out.console.connectionStatus.status = s.connectionStatus.status := by
  obtain ⟨view, hview, rfl⟩ := refreshConnection_eq_some h
  have hstatus : view.1.status = s.connectionStatus.status := status_foldlM_recordNode hview
  exact hstatus

/-- A packet neither makes nor unmakes a host. -/
theorem status_eq_host_iff {packet : WifiPacket NodeInfo}
    (hout : onWifiPacketReceived around s packet = some out) :
    out.console.connectionStatus.status = .connectedAsHost ↔
      s.connectionStatus.status = .connectedAsHost := by
  cases (takes_of_onWifiPacketReceived hout).1 with
  | seats _ _ _ _ _ _ _ hseat =>
      obtain ⟨hplace, rfl⟩ := admitClient_eq_some hseat
      exact Iff.rfl
  | queues => rw [(sameTables_enqueue s _).connectionStatus]
  | connects _ hconnecting hconnects =>
      obtain ⟨view, hview, rfl⟩ := completeConnection_eq_some hconnects
      have hsame : view.1.status = s.connectionStatus.status := status_foldlM_recordNode hview
      cases htype : s.connType with
      | client => simp [hconnecting]
      | spectator => simp [hconnecting]
      | other value => simp [hsame]
  | refreshes _ _ hrefreshes => rw [status_refreshConnection hrefreshes]
  | _ => exact Iff.rfl

/-- Nor does it start or end the service. -/
theorem initialized_packet {packet : WifiPacket NodeInfo}
    (hout : onWifiPacketReceived around s packet = some out) :
    out.console.initialized = s.initialized := by
  cases (takes_of_onWifiPacketReceived hout).1 with
  | seats _ _ _ _ _ _ _ hseat =>
      obtain ⟨hplace, rfl⟩ := admitClient_eq_some hseat
      rfl
  | queues => exact (sameTables_enqueue s _).initialized
  | connects _ _ hconnects =>
      obtain ⟨view, -, rfl⟩ := completeConnection_eq_some hconnects
      rfl
  | refreshes _ _ hrefreshes =>
      obtain ⟨view, -, rfl⟩ := refreshConnection_eq_some hrefreshes
      rfl
  | _ => rfl

/-! ## Queues -/

omit [Header NodeInfo] in
theorem receivedBeacons_enqueue (s : Console NodeInfo) (data : SecureData) :
    (enqueue s data).receivedBeacons = s.receivedBeacons := by
  unfold enqueue
  split
  · rfl
  · split <;> rfl

/-- A packet without data leaves the channels alone. -/
theorem channelData_of_not_data {packet : WifiPacket NodeInfo}
    (hdata : ∀ data, packet.frame ≠ .secureData data)
    (h : onWifiPacketReceived around s packet = some out) :
    out.console.channelData = s.channelData := by
  cases (takes_of_onWifiPacketReceived h).1 with
  | queues hframe => exact absurd hframe (hdata _)
  | seats _ _ _ _ _ _ _ hseat =>
      obtain ⟨hplace, rfl⟩ := admitClient_eq_some hseat
      rfl
  | connects _ _ hout =>
      obtain ⟨view, -, rfl⟩ := completeConnection_eq_some hout
      rfl
  | refreshes _ _ hout =>
      obtain ⟨view, -, rfl⟩ := refreshConnection_eq_some hout
      rfl
  | _ => rfl

/-- A packet that is no beacon leaves the beacons alone. -/
theorem receivedBeacons_of_not_beacon {packet : WifiPacket NodeInfo}
    (hbeacon : ∀ networkInfo nodes, packet.frame ≠ .beacon networkInfo nodes)
    (h : onWifiPacketReceived around s packet = some out) :
    out.console.receivedBeacons = s.receivedBeacons := by
  cases (takes_of_onWifiPacketReceived h).1 with
  | hearsBeacon hframe => exact absurd hframe (hbeacon _ _)
  | queues => exact receivedBeacons_enqueue s _
  | seats _ _ _ _ _ _ _ hseat =>
      obtain ⟨hplace, rfl⟩ := admitClient_eq_some hseat
      rfl
  | connects _ _ hout =>
      obtain ⟨view, -, rfl⟩ := completeConnection_eq_some hout
      rfl
  | refreshes _ _ hout =>
      obtain ⟨view, -, rfl⟩ := refreshConnection_eq_some hout
      rfl
  | _ => rfl

end ManicRoom.Uds
