/-
# Sessions that cross

The logoff frame that ends the connection sequence of one console goes to every console of the
room, and a console that is connecting takes the first one it hears for its own. If two
consoles join at the same time, the second one so gets the id of the first and keeps it, while
the host seats it in another place.
-/

import ManicRoom.Uds.Changes
import ManicRoom.Uds.Places
import ManicRoom.Uds.Sending

namespace ManicRoom.Uds

open ManicRoom.Foundation ManicRoom.Member

variable {NodeInfo : Type} [Header NodeInfo] {around : Surroundings} {s c : Console NodeInfo}
  {host : Console NodeInfo} {r : Roster MacAddress} {a b : MacAddress} {out : Outcome NodeInfo}
  {packet : WifiPacket NodeInfo} {logoff : EAPoLLogoff NodeInfo}

variable (NodeInfo) in
/-- A logoff frame carries the id that it was made with. -/
def CarriesAssignedId : Prop :=
  ∀ clientMacAddress id nodes maxNodes totalNodes,
    (Header.eapolLogoff clientMacAddress id nodes maxNodes totalNodes :
      EAPoLLogoff NodeInfo).assignedNodeId = id

/-- What a host does with the session of a client that waits: it seats the client in the lowest
free place and tells everyone. -/
theorem exists_seat (hr : Represents host r) (hinit : host.initialized = true)
    (ha : r.role a = some .waiting) (hroom : r.places.card < r.capacity)
    {address : MacAddress} (haround : around.roomAddress = some address)
    (hfrom : packet.transmitterAddress = a)
    {start : EAPoLStart NodeInfo} (hframe : packet.frame = .eapolStart start)
    (hclient : start.connectionType = .client) :
    ∃ (out : Outcome NodeInfo) (place : ℕ) (hlt : place < r.capacity)
      (hfree : place ∉ r.places) (hnone : ∀ other, r.role a ≠ some (.seated other)),
      onWifiPacketReceived around host packet = some out ∧ out.console.initialized = true ∧
        Represents out.console (r.seat a place hlt hfree hnone) ∧
          ∃ told ∈ out.sent, told.frame = .eapolLogoff (Header.eapolLogoff a (placeId place)
            out.console.nodeInfo out.console.networkInfo.maxNodes
            out.console.networkInfo.totalNodes) := by
  have hnone : ∀ place, r.role a ≠ some (.seated place) := by simp [ha]
  have hlookup : host.nodeMap.lookup a = some { connected := false } := by
    rw [hr.nodeMap a, ha]
    rfl
  have hfull : host.connectionStatus.maxNodes ≠ host.connectionStatus.totalNodes := by
    rw [Ne, hr.maxNodes_eq_totalNodes_iff]
    exact ne_of_lt hroom
  obtain ⟨id, hid⟩ := hr.exists_getNextAvailableNodeId hroom
  obtain ⟨place, hlt, hfree, -, rfl⟩ := hr.getNextAvailableNodeId_eq_some.mp hid
  obtain ⟨s', hseat, hr'⟩ := hr.admitClient hlt hfree hnone
    (Header.networkNodeId_set start.node (placeId place))
  have hinit' : s'.initialized = true := by
    obtain ⟨hplace, rfl⟩ := admitClient_eq_some hseat
    exact hinit
  refine ⟨
    { console := s'
      sent := broadcastNodeMap around s' ++ sendLogoff around s' a
        (networkNodeId (setNetworkNodeId start.node (placeId place))) },
    place, hlt, hfree, hnone, ?_, hinit', hr', ?_⟩
  · simp [onWifiPacketReceived, hinit, hframe, hfrom, handleEAPoLStart, hr.status, hlookup, hfull,
      hclient, hid, hseat]
  · simp only [sendLogoff, sendPacket, haround, Header.networkNodeId_set]
    exact ⟨_, List.mem_append_right _ (List.mem_singleton_self _), rfl⟩

/-- What a client that connects makes of the first logoff frame it hears. -/
theorem client_of_connecting (hinit : c.initialized = true)
    (hstatus : c.connectionStatus.status = .connecting) (htype : c.connType = .client)
    (hframe : packet.frame = .eapolLogoff logoff)
    (hout : onWifiPacketReceived around c packet = some out) :
    out.console.initialized = true ∧ out.console.connectionStatus.status = .connectedAsClient ∧
      out.console.connectionStatus.networkNodeId = logoff.assignedNodeId := by
  simp only [onWifiPacketReceived, hinit, hframe, handleEAPoLLogoff, hstatus, Bool.not_true,
    Bool.false_eq_true, if_false] at hout
  obtain ⟨view, hview, rfl⟩ := completeConnection_eq_some hout
  exact ⟨hinit, by simp [htype], (recorded_foldlM hview).networkNodeId⟩

/-- What a client makes of another one: it keeps its id. -/
theorem client_of_client (hinit : c.initialized = true)
    (hstatus : c.connectionStatus.status = .connectedAsClient)
    (hframe : packet.frame = .eapolLogoff logoff)
    (hout : onWifiPacketReceived around c packet = some out) :
    out.console.connectionStatus.status = .connectedAsClient ∧
      out.console.connectionStatus.networkNodeId = c.connectionStatus.networkNodeId := by
  simp only [onWifiPacketReceived, hinit, hframe, handleEAPoLLogoff, hstatus, Bool.not_true,
    Bool.false_eq_true, if_false] at hout
  obtain ⟨view, hview, rfl⟩ := refreshConnection_eq_some hout
  have hrecorded := recorded_foldlM hview
  exact ⟨hrecorded.status.trans hstatus, hrecorded.networkNodeId⟩

/-- **Sessions that cross share an id.** Two consoles wait at a host, the session of the first
starts and then that of the second, and a logoff frame carries the id that it was made with. If
the second is still connecting when the frame for the first reaches it, it is a client from then
on, with the id of the first; so it stays when the frame for itself comes, and the host has seated
it in another place. -/
theorem crossed_sessions_share_id (hcarries : CarriesAssignedId NodeInfo)
    (hr : Represents host r) (hinit : host.initialized = true)
    (ha : r.role a = some .waiting) (hb : r.role b = some .waiting) (hab : a ≠ b)
    (hroom : r.places.card + 1 < r.capacity) {address : MacAddress}
    (haround : around.roomAddress = some address) {first second : WifiPacket NodeInfo}
    (hfirst : first.transmitterAddress = a) (hsecond : second.transmitterAddress = b)
    {start start' : EAPoLStart NodeInfo} (hframe : first.frame = .eapolStart start)
    (hframe' : second.frame = .eapolStart start') (htype : start.connectionType = .client)
    (htype' : start'.connectionType = .client) (around' : Surroundings)
    (hc : c.initialized = true) (hconnecting : c.connectionStatus.status = .connecting)
    (hclient : c.connType = .client) :
    ∃ out out' : Outcome NodeInfo, ∃ told ∈ out.sent, ∃ told' ∈ out'.sent,
      ∃ (logoff logoff' : EAPoLLogoff NodeInfo) (r' : Roster MacAddress) (place place' : ℕ),
        onWifiPacketReceived around host first = some out ∧
        onWifiPacketReceived around out.console second = some out' ∧
        told.frame = .eapolLogoff logoff ∧ told'.frame = .eapolLogoff logoff' ∧
        Represents out'.console r' ∧ r'.role a = some (.seated place) ∧
        r'.role b = some (.seated place') ∧ place ≠ place' ∧
        ∀ met met', onWifiPacketReceived around' c told = some met →
          onWifiPacketReceived around' met.console told' = some met' →
            met'.console.connectionStatus.status = .connectedAsClient ∧
              met'.console.connectionStatus.networkNodeId = placeId place := by
  obtain ⟨out, place, hlt, hfree, hnone, hout, hinit', hr', told, htold, hlogoff⟩ :=
    exists_seat hr hinit ha (by omega) haround hfirst hframe htype
  have hcard : (r.seat a place hlt hfree hnone).places.card = r.places.card + 1 :=
    Finset.card_insert_of_notMem hfree
  have hb' : (r.seat a place hlt hfree hnone).role b = some .waiting := by
    simpa [Roster.seat, Ne.symm hab] using hb
  obtain ⟨out', place', hlt', hfree', hnone', hout', -, hr'', told', htold', hlogoff'⟩ :=
    exists_seat hr' hinit' hb' (by rw [hcard]; exact hroom) haround hsecond hframe' htype'
  refine ⟨out, out', told, htold, told', htold', _, _, _, place, place', hout, hout', hlogoff,
    hlogoff', hr'', ?_, ?_, ?_, ?_⟩
  · simp [Roster.seat, hab]
  · simp [Roster.seat]
  · rintro rfl
    exact hfree' (Finset.mem_insert_self ..)
  · intro met met' hmet hmet'
    obtain ⟨hmetInit, hmetStatus, hmetId⟩ :=
      client_of_connecting hc hconnecting hclient hlogoff hmet
    obtain ⟨hstatus', hid'⟩ := client_of_client hmetInit hmetStatus hlogoff' hmet'
    exact ⟨hstatus', hid'.trans (hmetId.trans (hcarries ..))⟩

/-- A console that connects as a client. -/
def connectingClient : Console PlainNode :=
  (connectToNetworkHLE sampleSurroundings (initializeWithVersion newConsole {}) {} .client).console

/-- Whether it can take what a host tells of the sessions of two others. -/
def takesBoth (host : Console PlainNode) (first second : WifiPacket PlainNode) : Bool :=
  (onWifiPacketReceived sampleSurroundings host first).all fun out =>
    (onWifiPacketReceived sampleSurroundings out.console second).all fun out' =>
      out.sent.all fun told => out'.sent.all fun told' =>
        (onWifiPacketReceived sampleSurroundings connectingClient told).any fun met =>
          (onWifiPacketReceived sampleSurroundings met.console told').isSome

theorem exists_of_takesBoth {host : Console PlainNode} {first second : WifiPacket PlainNode}
    (h : takesBoth host first second = true) {out out' : Outcome PlainNode}
    (hout : onWifiPacketReceived sampleSurroundings host first = some out)
    (hout' : onWifiPacketReceived sampleSurroundings out.console second = some out')
    {told told' : WifiPacket PlainNode} (htold : told ∈ out.sent) (htold' : told' ∈ out'.sent) :
    ∃ met met', onWifiPacketReceived sampleSurroundings connectingClient told = some met ∧
      onWifiPacketReceived sampleSurroundings met.console told' = some met' := by
  simp only [takesBoth, hout, hout', Option.all_some, List.all_eq_true] at h
  obtain ⟨met, hmet, hsome⟩ := (Option.any_eq_true _ _).mp (h told htold told' htold')
  obtain ⟨met', hmet'⟩ := Option.isSome_iff_exists.mp hsome
  exact ⟨met, met', hmet, hmet'⟩

/-- A host at which two consoles wait. -/
theorem exists_two_waiting (a b : MacAddress) (hrun :
    (((consoleSystem PlainNode).runVia FromCleanTables newConsole (foundsNetwork ++
      [ (sampleSurroundings, .packet (sampleRequest a)),
        (sampleSurroundings, .packet (sampleRequest b)) ])).any fun s => decide
          ((s.initialized = true ∧ s.connectionStatus.status = .connectedAsHost) ∧
            s.nodeMap.lookup a = some { connected := false } ∧
            s.nodeMap.lookup b = some { connected := false } ∧
            s.connectionStatus.totalNodes.toNat + 1 < s.connectionStatus.maxNodes.toNat ∧
            takesBoth s (sampleSession a .client) (sampleSession b .client) = true)) = true) :
    ∃ (host : Console PlainNode) (r : Roster MacAddress), Represents host r ∧
      host.initialized = true ∧ r.role a = some .waiting ∧ r.role b = some .waiting ∧
        r.places.card + 1 < r.capacity ∧
          takesBoth host (sampleSession a .client) (sampleSession b .client) = true := by
  obtain ⟨host, hreach, ⟨hinit, hstatus⟩, ha, hb, hroom, htakes⟩ :=
    System.exists_reachableVia_of_runVia FromCleanTables init_newConsole _ _ hrun
  rcases (sound_of_reachable hreach).hosting hinit hstatus with habandoned | ⟨r, hr⟩
  · rw [habandoned.nodeMap] at ha
    cases ha
  · have hwaits {x : MacAddress} (hx : host.nodeMap.lookup x = some { connected := false }) :
        r.role x = some .waiting := by
      obtain ⟨role, hrole, hnode⟩ := exists_role hr hx
      cases role with
      | waiting => exact hrole
      | watching => cases hnode
      | seated place => cases hnode
    rw [hr.totalNodes, hr.maxNodes] at hroom
    exact ⟨host, r, hr, hinit, hwaits ha, hwaits hb, hroom, htakes⟩

theorem crossed_sessions_share_id_crowded : ∃ (host : Console PlainNode)
    (out out' met met' : Outcome PlainNode) (told told' : WifiPacket PlainNode)
    (r : Roster MacAddress) (place place' : ℕ),
      onWifiPacketReceived sampleSurroundings host
        (sampleSession (Vector.replicate 6 2) .client) = some out ∧
      onWifiPacketReceived sampleSurroundings out.console
        (sampleSession (Vector.replicate 6 3) .client) = some out' ∧
      onWifiPacketReceived sampleSurroundings connectingClient told = some met ∧
      onWifiPacketReceived sampleSurroundings met.console told' = some met' ∧
      Represents out'.console r ∧ r.role (Vector.replicate 6 2) = some (.seated place) ∧
      r.role (Vector.replicate 6 3) = some (.seated place') ∧ place ≠ place' ∧
      met'.console.connectionStatus.networkNodeId = placeId place := by
  obtain ⟨host, r, hr, hinit, ha, hb, hroom, htakes⟩ :=
    exists_two_waiting (Vector.replicate 6 2) (Vector.replicate 6 3) (by decide)
  have hcarries : CarriesAssignedId PlainNode := fun _ _ _ _ _ => rfl
  have haround : sampleSurroundings.roomAddress = some (Vector.replicate 6 1) := rfl
  have hfirst : (sampleSession (Vector.replicate 6 2) .client).transmitterAddress =
      Vector.replicate 6 2 := rfl
  have hsecond : (sampleSession (Vector.replicate 6 3) .client).transmitterAddress =
      Vector.replicate 6 3 := rfl
  have hconnecting : connectingClient.connectionStatus.status = .connecting := rfl
  obtain ⟨out, out', told, htold, told', htold', logoff, logoff', r', place, place', hout, hout',
      -, -, hr', hplace, hplace', hne, hmeets⟩ :=
    crossed_sessions_share_id hcarries hr hinit ha hb (by decide) hroom haround hfirst hsecond rfl
      rfl rfl rfl sampleSurroundings rfl hconnecting rfl
  obtain ⟨met, met', hmet, hmet'⟩ := exists_of_takesBoth htakes hout hout' htold htold'
  exact ⟨host, out, out', met, met', told, told', r', place, place', hout, hout', hmet, hmet', hr',
    hplace, hplace', hne, (hmeets met met' hmet hmet').2⟩

end ManicRoom.Uds
