/-
# A host refines its roster

While a network is hosted every packet and every call moves the roster by at most one step:
a console is authenticated, watches, is seated in the lowest free place or goes. The only
packet of a console of the network that a host cannot take is the start of a session for
which no place is left. From there, over whole runs: as long as the game founds its networks
on empty tables, the tables of every host it becomes agree at all times.
-/

import ManicRoom.Uds.Hosting
import ManicRoom.Uds.Quiet

namespace ManicRoom.Uds

open ManicRoom.Foundation ManicRoom.Member

variable {NodeInfo : Type} [Header NodeInfo] {around : Surroundings} {s : Console NodeInfo}
  {r : Roster MacAddress} {out : Outcome NodeInfo} {a : MacAddress}

/-- After a step of a host its tables say what a roster says that is at most a step further. -/
def Follows (r : Roster MacAddress) (s : Console NodeInfo) : Prop :=
  ∃ r', Relation.ReflGen Roster.Step r r' ∧ Represents s r'

theorem Represents.follows (h : Represents s r) : Follows r s := ⟨r, .refl, h⟩

/-! ## Packets -/

theorem lookup_eq_none (h : Represents s r) (ha : s.nodeMap.lookup a = none) :
    r.role a = none := by
  rw [h.nodeMap a] at ha
  exact Option.map_eq_none_iff.mp ha

theorem exists_role (h : Represents s r) {node : Node} (ha : s.nodeMap.lookup a = some node) :
    ∃ role, r.role a = some role ∧ role.node NodeInfo = node := by
  rw [h.nodeMap a] at ha
  exact Option.map_eq_some_iff.mp ha

/-- Who is known and not connected waits. -/
theorem role_of_waits (h : Represents s r) {node : Node} (ha : s.nodeMap.lookup a = some node)
    (hwaits : node.connected = false) : r.role a = some .waiting := by
  obtain ⟨role, hrole, rfl⟩ := exists_role h ha
  rw [Role.connected_node] at hwaits
  rw [hrole, not_not.mp (of_decide_eq_false hwaits)]

/-- A console that asks to join waits from then on. -/
theorem Represents.enter (h : Represents s r) (hstranger : s.nodeMap.lookup a = none)
    (hroom : s.connectionStatus.maxNodes ≠ s.connectionStatus.totalNodes) :
    Follows r (s.enter a) := by
  have hrole := lookup_eq_none h hstranger
  have hcard : r.places.card < r.capacity := by
    rw [ne_eq, h.maxNodes_eq_totalNodes_iff] at hroom
    exact (r.card_places_le).lt_of_ne hroom
  refine ⟨_, .single (.wait (by simp [hrole]) hrole hcard), ?_⟩
  exact h.assign (by simp) (by simp [hrole]) (by simp [Role.node])

/-- A console that waits gets the lowest free place. -/
theorem Represents.seat (h : Represents s r) (hrole : r.role a = some .waiting) {node : NodeInfo}
    {nodeId : UInt16} {s' : Console NodeInfo}
    (hnext : getNextAvailableNodeId s.connectionStatus = some nodeId)
    (hseat : Uds.admitClient s a (setNetworkNodeId node nodeId) nodeId = some s') :
    Follows r s' := by
  have hnone : ∀ place, r.role a ≠ some (.seated place) := by simp [hrole]
  obtain ⟨place, hlt, hfree, hlower, rfl⟩ := h.getNextAvailableNodeId_eq_some.mp hnext
  obtain ⟨s'', hseat', hrepresents⟩ := h.admitClient hlt hfree hnone
    (Header.networkNodeId_set node (placeId place))
  obtain rfl : s'' = s' := Option.some.inj (hseat'.symm.trans hseat)
  exact ⟨_, .single (.seat hlt hfree hnone hrole hlower), hrepresents⟩

/-- A console that waits may watch. -/
theorem Represents.watch (h : Represents s r) (hrole : r.role a = some .waiting) :
    Follows r (admitSpectator s a) := by
  have hnone : ∀ place, r.role a ≠ some (.seated place) := by simp [hrole]
  refine ⟨_, .single (.watch hnone hrole), ?_⟩
  exact h.assign (by simp) hnone (by simp [Role.node])

/-- A host takes the end of a session of anyone. -/
theorem Represents.handleDeauthenticationFrame (h : Represents s r) (a : MacAddress) :
    ∃ out, handleDeauthenticationFrame s a = some out ∧ Follows r out.console := by
  unfold Uds.handleDeauthenticationFrame
  rw [if_neg (not_not_intro h.status)]
  cases hlookup : s.nodeMap.lookup a with
  | none => exact ⟨_, rfl, h.follows⟩
  | some node =>
      obtain ⟨role, hrole, rfl⟩ := exists_role h hlookup
      have hgone (hnone : ∀ place, r.role a ≠ some (.seated place)) :
          Relation.ReflGen Roster.Step r (r.assign a none (by simp) hnone) ∧
            Represents { s with nodeMap := s.nodeMap.erase a }
              (r.assign a none (by simp) hnone) := by
        constructor
        · exact .single (.forget hnone (by simp [hrole]))
        · exact h.assign (by simp) hnone (by simp)
      cases role with
      | waiting =>
          have hnone : ∀ place, r.role a ≠ some (.seated place) := by simp [hrole]
          exact ⟨_, rfl, _, hgone hnone⟩
      | watching =>
          have hnone : ∀ place, r.role a ≠ some (.seated place) := by simp [hrole]
          obtain ⟨hsteps, hrepresents⟩ := hgone hnone
          simp only [Role.connected_node, Role.spec_node, ne_eq, reduceCtorEq, not_false_eq_true,
            decide_true, Bool.not_true, Bool.false_eq_true, if_false, if_true]
          cases hfind : s.nodeInfo.findIdx? fun info =>
              networkNodeId info = (Role.node NodeInfo .watching).nodeId with
          | none =>
              refine ⟨_, rfl, ?_⟩
              exact ⟨_, hsteps, hrepresents⟩
          | some position =>
              refine ⟨_, rfl, ?_⟩
              refine ⟨_, hsteps, hrepresents.resetFree ?_⟩
              -- no taken place has the id of the spectators
              intro hmem
              have hmax := hrepresents.lt_udsMaxNodes hmem
              obtain ⟨hlength, hid, -⟩ := List.findIdx?_eq_some_iff_getElem.mp hfind
              have heq := hrepresents.nodeInfo position hlength
              rw [if_pos hmem] at heq
              have hspec : networkNodeId s.nodeInfo[position] = Header.nodeIDSpec NodeInfo :=
                of_decide_eq_true hid
              exact placeId_ne_nodeIDSpec hmax (heq.symm.trans hspec)
      | seated place =>
          have hmem := r.mem_places hrole
          have hmax := h.lt_udsMaxNodes hmem
          have hindex : (placeId place).toNat - 1 = place := by
            rw [toNat_placeId hmax]
            exact Nat.add_sub_cancel place 1
          have hfind : s.nodeInfo.findIdx? (fun info =>
              networkNodeId info = (Role.node NodeInfo (.seated place)).nodeId) = some place :=
            h.findIdx?_placeId hmem
          have hbounds : (Role.node NodeInfo (.seated place)).nodeId ≠ 0 ∧
              (Role.node NodeInfo (.seated place)).nodeId.toNat - 1 < udsMaxNodes :=
            ⟨placeId_ne_zero hmax, lt_of_eq_of_lt hindex hmax⟩
          simp only [Role.connected_node, Role.spec_node, ne_eq, reduceCtorEq, not_false_eq_true,
            decide_true, decide_false, Bool.not_true, Bool.false_eq_true, if_false, hfind]
          rw [dif_pos hbounds]
          refine ⟨_, rfl, _, .single (.leave hrole), ?_⟩
          simpa [Represents.withoutClient, Role.node, hindex] using h.leave hrole hmax

/-- **When a host cannot take the start of a session.** The console is authenticated, and in
the meantime others took the last places. -/
theorem Represents.handleEAPoLStart_eq_none_iff (h : Represents s r) (around : Surroundings)
    (a : MacAddress) (start : EAPoLStart NodeInfo) :
    handleEAPoLStart around s a start = none ↔
      r.role a = some .waiting ∧ r.places.card = r.capacity := by
  unfold handleEAPoLStart
  rw [if_neg (not_not_intro h.status)]
  cases hlookup : s.nodeMap.lookup a with
  | none => simp [lookup_eq_none h hlookup]
  | some node =>
      obtain ⟨role, hrole, rfl⟩ := exists_role h hlookup
      by_cases hwaiting : role = .waiting
      · subst hwaiting
        simp only [Role.node, Bool.false_eq_true, if_false, h.maxNodes_eq_totalNodes_iff, hrole,
          true_and]
        by_cases hfull : r.places.card = r.capacity
        · simp [hfull]
        · have hcard : r.places.card < r.capacity := (r.card_places_le).lt_of_ne hfull
          rw [if_neg hfull]
          cases start.connectionType with
          | client =>
              obtain ⟨id, hid⟩ := h.exists_getNextAvailableNodeId hcard
              obtain ⟨place, hlt, hfree, -, rfl⟩ := h.getNextAvailableNodeId_eq_some.mp hid
              obtain ⟨s', hseat, -⟩ := h.admitClient (a := a) hlt hfree (by simp [hrole])
                (Header.networkNodeId_set start.node (placeId place))
              simp [hid, hseat, hfull]
          | spectator => simp [hfull]
          | other value => simp [hfull]
      · simp [hrole, hwaiting]

/-! ## Steps -/

theorem Represents.of_sameTables {s' : Console NodeInfo} (h : Represents s r)
    (hsame : SameTables s s') : Represents s' r :=
  h.congr hsame.connectionStatus hsame.networkInfo hsame.nodeInfo hsame.nodeMap

/-- The calls that end the hosting of a network or found another one. -/
def Event.endsHosting : Event NodeInfo → Bool
  | .call (.initializeWithVersion _) | .call .shutdown | .call (.beginHostingNetwork _)
  | .call .destroyNetwork | .call (.connectToNetwork _ _) | .call .disconnectNetwork => true
  | _ => false

/-- Every other call tells the connection status or leaves the tables alone. -/
theorem call_goesOn {call : Call NodeInfo} (hgoesOn : (Event.call call).endsHosting = false)
    (h : onCall around s call = some out) :
    out = getConnectionStatusHLE s ∨ SameTables s out.console := by
  cases does_of_onCall h with
  | initializes => cases hgoesOn
  | shutsDown => cases hgoesOn
  | founds => cases hgoesOn
  | destroys => cases hgoesOn
  | joins => cases hgoesOn
  | abandons => cases hgoesOn
  | leaves => cases hgoesOn
  | tellsStatus => exact .inl rfl
  | _ => exact .inr ⟨rfl, rfl, rfl, rfl, rfl, rfl⟩

/-- **A host refines its roster.** Whatever packet comes and whatever the game asks for, as
long as the network goes on the tables follow the roster. -/
theorem Represents.react (h : Represents s r) {event : Event NodeInfo}
    (hgoesOn : event.endsHosting = false) (hout : s.react around event = some out) :
    Follows r out.console := by
  cases event with
  | call call =>
      rcases call_goesOn hgoesOn hout with rfl | hsame
      · exact h.clearChanged.follows
      · exact (h.of_sameTables hsame).follows
  | packet packet =>
      by_cases hframe : packet.frame = .deauthentication
      · simp only [Console.react, onWifiPacketReceived, hframe] at hout
        split at hout
        · cases hout
          exact h.follows
        · obtain ⟨out', hout', hfollows⟩ :=
            h.handleDeauthenticationFrame packet.transmitterAddress
          obtain rfl : out' = out := Option.some.inj (hout'.symm.trans hout)
          exact hfollows
      · cases (takes_of_onWifiPacketReceived hout).1 with
        | authenticates _ _ hstranger hroom => exact h.enter hstranger hroom
        | seats _ _ hentry hwaits _ _ hnext hseat =>
            exact h.seat (role_of_waits h hentry hwaits) hnext hseat
        | letsWatch _ _ hentry hwaits => exact h.watch (role_of_waits h hentry hwaits)
        | forgets hleaves => exact absurd hleaves hframe
        | losesSpectator hleaves => exact absurd hleaves hframe
        | losesClient hleaves => exact absurd hleaves hframe
        | hearsBeacon => exact (h.of_sameTables (sameTables_receivedBeacons s _)).follows
        | queues => exact (h.of_sameTables (sameTables_enqueue s _)).follows
        | connects _ hconnecting => simp [h.status] at hconnecting
        | refreshes _ hmember => simp [h.status, NetworkStatus.isMember] at hmember
        | readsNodeMap _ hhost => exact absurd h.status hhost
        | _ => exact h.follows

/-! ## Runs -/

/-- No node has a place in the connection status. -/
structure Clean (s : Console NodeInfo) : Prop where
  nodeBitmask : s.connectionStatus.nodeBitmask = 0
  nodes : s.connectionStatus.nodes = Vector.replicate udsMaxNodes 0

/-- What `DisconnectNetwork` leaves of a host: it goes on as one, of a network that is full
with no place. -/
structure Abandoned (s : Console NodeInfo) : Prop where
  clean : Clean s
  maxNodes : s.connectionStatus.maxNodes = s.connectionStatus.totalNodes
  nodeMap : s.nodeMap = .empty

/-- Not a connection type that the service does not know. -/
def ConnectionType.isKnown : ConnectionType → Bool
  | .other _ => false
  | _ => true

/-- What a run of a console keeps. -/
structure Sound (s : Console NodeInfo) : Prop where
  idle : s.connectionStatus.status.isConnected = false → Clean s
  connType : s.connectionStatus.status = .connecting → s.connType.isKnown = true
  hosting : s.initialized = true → s.connectionStatus.status = .connectedAsHost →
    Abandoned s ∨ ∃ r, Represents s r

/-- A game founds a network of at most as many places as the tables have, and founds or joins
one on empty tables only. -/
def FromCleanTables (s : Console NodeInfo) (label : Surroundings × Event NodeInfo) : Prop :=
  match label.2 with
  | .call (.beginHostingNetwork info) =>
      Clean s ∧ s.nodeMap = .empty ∧ info.maxNodes.toNat ≤ udsMaxNodes
  | .call (.connectToNetwork _ connectionType) =>
      Clean s ∧ connectionType.isKnown = true
  | _ => True

instance (s : Console NodeInfo) : Decidable (Clean s) :=
  decidable_of_iff (s.connectionStatus.nodeBitmask = 0 ∧
      s.connectionStatus.nodes = Vector.replicate udsMaxNodes 0)
    ⟨fun h => ⟨h.1, h.2⟩, fun h => ⟨h.nodeBitmask, h.nodes⟩⟩

instance (nodeMap : NodeMap) : Decidable (nodeMap = .empty) :=
  decidable_of_iff (nodeMap.entries = []) OrderedMap.entries_eq_nil_iff

instance (s : Console NodeInfo) (label : Surroundings × Event NodeInfo) :
    Decidable (FromCleanTables s label) :=
  match label with
  | (_, .call (.beginHostingNetwork info)) =>
      inferInstanceAs (Decidable
        (Clean s ∧ s.nodeMap = .empty ∧ info.maxNodes.toNat ≤ udsMaxNodes))
  | (_, .call (.connectToNetwork _ connectionType)) =>
      inferInstanceAs (Decidable (Clean s ∧ connectionType.isKnown = true))
  | (_, .call (.initializeWithVersion _)) => .isTrue trivial
  | (_, .call .shutdown) => .isTrue trivial
  | (_, .call (.ejectClient _)) => .isTrue trivial
  | (_, .call .destroyNetwork) => .isTrue trivial
  | (_, .call .disconnectNetwork) => .isTrue trivial
  | (_, .call .getConnectionStatus) => .isTrue trivial
  | (_, .call (.getNodeInformation _)) => .isTrue trivial
  | (_, .call (.bind _ _ _ _)) => .isTrue trivial
  | (_, .call (.unbind _)) => .isTrue trivial
  | (_, .call (.sendTo _ _ _ _ _)) => .isTrue trivial
  | (_, .call (.pullPacket _ _ _)) => .isTrue trivial
  | (_, .call (.recvBeaconBroadcastData _)) => .isTrue trivial
  | (_, .call .beaconTimer) => .isTrue trivial
  | (_, .packet _) => .isTrue trivial

/-- **A network is founded.** On empty tables its roster has one place, that of the host. -/
theorem represents_found (around : Surroundings) (hclean : Clean s) (hmap : s.nodeMap = .empty)
    {info : NetworkInfo} (hplaces : info.maxNodes.toNat ≤ udsMaxNodes) (hmax : 1 < info.maxNodes) :
    ∃ h : 0 < info.maxNodes.toNat,
      Represents (s.found around info) (Roster.founded info.maxNodes.toNat h) := by
  have hone : 1 < info.maxNodes.toNat := by simpa [UInt8.lt_iff_toNat_lt] using hmax
  refine ⟨by omega, ?_⟩
  dsimp only [Console.found]
  exact
    { status := rfl
      self := rfl
      capacity_le := hplaces
      one_lt_capacity := hone
      maxNodes := rfl
      infoMaxNodes := rfl
      bitmask := by
        have hbit := bits_or_one_shiftLeft s.connectionStatus.nodeBitmask udsMaxNodes_pos
        rw [hclean.nodeBitmask, bits_zero] at hbit
        simp only [hclean.nodeBitmask, Roster.founded]
        exact hbit
      nodes := by
        intro i hi
        simp only [hclean.nodes, Roster.founded, Finset.mem_singleton]
        rw [Vector.getElem_set]
        by_cases hzero : i = 0
        · simp [hzero, placeId]
        · simp [hzero, Ne.symm hzero]
      length_nodeInfo := by simp [Roster.founded]
      nodeInfo := by
        intro i hi
        simp only [Roster.founded, Finset.mem_singleton, List.getElem_set]
        by_cases hzero : i = 0
        · simp [hzero, placeId]
        · simp [hzero, Ne.symm hzero]
      totalNodes := by simp [Roster.founded]
      infoTotalNodes := rfl
      nodeMap := by
        intro a
        simp [hmap, Roster.founded] }

omit [Header NodeInfo] in
theorem Clean.congr {s' : Console NodeInfo} (h : Clean s)
    (hmask : s'.connectionStatus.nodeBitmask = s.connectionStatus.nodeBitmask)
    (hnodes : s'.connectionStatus.nodes = s.connectionStatus.nodes) : Clean s' :=
  ⟨hmask.trans h.nodeBitmask, hnodes.trans h.nodes⟩

omit [Header NodeInfo] in
theorem Abandoned.of_sameTables {s' : Console NodeInfo} (h : Abandoned s)
    (hsame : SameTables s s') : Abandoned s' := by
  have hcs := hsame.connectionStatus
  exact
    { clean := h.clean.congr (by rw [hcs]) (by rw [hcs])
      maxNodes := by rw [hcs, h.maxNodes]
      nodeMap := hsame.nodeMap.trans h.nodeMap }

/-- A host that was abandoned answers nobody. -/
theorem Abandoned.react (h : Abandoned s) (hstatus : s.connectionStatus.status = .connectedAsHost)
    {event : Event NodeInfo} (hgoesOn : event.endsHosting = false)
    (hout : s.react around event = some out) :
    Abandoned out.console ∧ out.console.connectionStatus.status = .connectedAsHost := by
  have hstranger (a : MacAddress) : s.nodeMap.lookup a = none := by rw [h.nodeMap]; rfl
  cases event with
  | call call =>
      rcases call_goesOn hgoesOn hout with rfl | hsame
      · exact ⟨⟨h.clean.congr rfl rfl, h.maxNodes, h.nodeMap⟩, hstatus⟩
      · exact ⟨h.of_sameTables hsame, hsame.connectionStatus ▸ hstatus⟩
  | packet packet =>
      refine ⟨?_, (status_eq_host_iff hout).mpr hstatus⟩
      cases (takes_of_onWifiPacketReceived hout).1 with
      | authenticates _ _ _ hroom => exact absurd h.maxNodes hroom
      | seats _ _ _ _ hroom => exact absurd h.maxNodes hroom
      | letsWatch _ _ hentry => simp [hstranger] at hentry
      | forgets _ _ hentry => simp [hstranger] at hentry
      | losesSpectator _ _ hentry => simp [hstranger] at hentry
      | losesClient _ _ hentry => simp [hstranger] at hentry
      | connects _ hconnecting => simp [hstatus] at hconnecting
      | refreshes _ hmember => simp [hstatus, NetworkStatus.isMember] at hmember
      | readsNodeMap _ hhost => exact absurd hstatus hhost
      | hearsBeacon => exact h.of_sameTables (sameTables_receivedBeacons s _)
      | queues => exact h.of_sameTables (sameTables_enqueue s _)
      | _ => exact h

omit [Header NodeInfo] in
theorem clean_cleared (s : Console NodeInfo) (cs : ConnectionStatus) (status : NetworkStatus)
    (hs : s.connectionStatus = cs.cleared status) : Clean s :=
  ⟨by rw [hs]; rfl, by rw [hs]; rfl⟩

theorem Sound.of_sameTables {s' : Console NodeInfo} (h : Sound s) (hsame : SameTables s s') :
    Sound s' where
  idle hidle := by
    have hcs := hsame.connectionStatus
    exact (h.idle (by rwa [← hcs])).congr (by rw [hcs]) (by rw [hcs])
  connType := by
    rw [hsame.connectionStatus, hsame.connType]
    exact h.connType
  hosting hinit hstatus := by
    have hcs := hsame.connectionStatus
    rcases h.hosting (hsame.initialized ▸ hinit) (hcs ▸ hstatus) with habandoned | ⟨r, hr⟩
    · exact .inl (habandoned.of_sameTables hsame)
    · exact .inr ⟨r, hr.of_sameTables hsame⟩

omit [Header NodeInfo] in
theorem isMember_iff {status : NetworkStatus} : status.isMember = true ↔
    status = .connectedAsClient ∨ status = .connectedAsSpectator := by
  cases status <;> simp [NetworkStatus.isMember]

theorem sound_of_isMember (h : s.connectionStatus.status.isMember = true) : Sound s := by
  rcases isMember_iff.mp h with hclient | hspectator
  · exact ⟨by simp [hclient, NetworkStatus.isConnected], by simp [hclient], by simp [hclient]⟩
  · exact
      ⟨by simp [hspectator, NetworkStatus.isConnected], by simp [hspectator], by simp [hspectator]⟩

/-- A console that asked to join as what the service knows is a member after its first logoff
frame. -/
theorem isMember_completeConnection {transmitter : MacAddress} {logoff : EAPoLLogoff NodeInfo}
    (hknown : s.connType.isKnown = true)
    (h : completeConnection s transmitter logoff = some out) :
    out.console.connectionStatus.status.isMember = true := by
  obtain ⟨view, -, rfl⟩ := completeConnection_eq_some h
  cases htype : s.connType with
  | client => simp [NetworkStatus.isMember]
  | spectator => simp [NetworkStatus.isMember]
  | other value =>
      rw [htype] at hknown
      cases hknown

/-- Whatever packet comes, the tables of a host go on to agree and a console that does not host
still has what it needs to become one. -/
theorem Sound.packet (h : Sound s) {packet : WifiPacket NodeInfo}
    (hout : s.react around (.packet packet) = some out) : Sound out.console := by
  by_cases hstatus : s.connectionStatus.status = .connectedAsHost
  · have hstatus' := (status_eq_host_iff hout).mpr hstatus
    refine ⟨by simp [hstatus', NetworkStatus.isConnected], by simp [hstatus'], fun hinit _ => ?_⟩
    rw [initialized_packet hout] at hinit
    rcases h.hosting hinit hstatus with habandoned | ⟨r, hr⟩
    · exact .inl (habandoned.react hstatus rfl hout).1
    · obtain ⟨r', -, hr'⟩ := hr.react rfl hout
      exact .inr ⟨r', hr'⟩
  · by_cases hlogoff : ∃ logoff, packet.frame = .eapolLogoff logoff
    · obtain ⟨logoff, hframe⟩ := hlogoff
      cases (takes_of_onWifiPacketReceived hout).1 with
      | ignored => exact h
      | connects _ hconnecting hconnects =>
          exact sound_of_isMember (isMember_completeConnection (h.connType hconnecting) hconnects)
      | refreshes _ hmember hrefreshes =>
          rw [← status_refreshConnection hrefreshes] at hmember
          exact sound_of_isMember hmember
      | _ => simp_all
    · have hnone : ∀ logoff, packet.frame ≠ .eapolLogoff logoff := fun logoff hframe =>
        hlogoff ⟨logoff, hframe⟩
      rcases tables_of_not_host hstatus hnone hout with hsame | ⟨data, nodeMap, -, -, heq⟩
      · exact h.of_sameTables hsame
      · rw [heq]
        exact
          { idle := fun hidle => (h.idle hidle).congr rfl rfl
            connType := h.connType
            hosting := fun _ hhost => absurd hhost hstatus }

theorem Sound.call (h : Sound s) {call : Call NodeInfo}
    (hclean : FromCleanTables s (around, .call call))
    (hout : s.react around (.call call) = some out) : Sound out.console := by
  cases does_of_onCall hout with
  | initializes node =>
      exact ⟨fun _ => ⟨rfl, rfl⟩, by simp [initializeWithVersion], by simp [initializeWithVersion]⟩
  | shutsDown =>
      exact ⟨fun hidle => (h.idle hidle).congr rfl rfl, h.connType, by simp [shutdownHLE]⟩
  | founds hmax =>
      obtain ⟨htables, hmap, hplaces⟩ := hclean
      obtain ⟨hpos, hr⟩ := represents_found around htables hmap hplaces hmax
      exact
        { idle := by simp [hr.status, NetworkStatus.isConnected]
          connType := by simp [hr.status]
          hosting := fun _ _ => .inr ⟨_, hr⟩ }
  | destroys =>
      exact ⟨fun _ => clean_cleared _ _ _ rfl, by simp [ConnectionStatus.cleared],
        by simp [ConnectionStatus.cleared]⟩
  | joins info connectionType =>
      obtain ⟨htables, htype⟩ := hclean
      exact ⟨fun _ => htables.congr rfl rfl, fun _ => htype, by simp [connectToNetworkHLE]⟩
  | abandons =>
      exact ⟨fun _ => clean_cleared _ _ _ rfl, by simp [ConnectionStatus.cleared],
        fun _ _ => .inl ⟨clean_cleared _ _ _ rfl, rfl, rfl⟩⟩
  | leaves =>
      exact ⟨fun _ => clean_cleared _ _ _ rfl, by simp [ConnectionStatus.cleared],
        by simp [ConnectionStatus.cleared]⟩
  | tellsStatus =>
      refine ⟨fun hidle => (h.idle hidle).congr rfl rfl, h.connType, fun hinit hstatus => ?_⟩
      rcases h.hosting hinit hstatus with habandoned | ⟨r, hr⟩
      · exact .inl ⟨habandoned.clean.congr rfl rfl, habandoned.maxNodes, habandoned.nodeMap⟩
      · exact .inr ⟨r, hr.clearChanged⟩
  | _ => exact h.of_sameTables ⟨rfl, rfl, rfl, rfl, rfl, rfl⟩

/-- **The tables of a host agree at all times.** In every run in which networks are founded and
joined on empty tables only, whatever packets come and whatever else the game asks for. -/
theorem sound_of_reachable
    (h : (consoleSystem NodeInfo).ReachableVia FromCleanTables s) : Sound s := by
  refine System.ReachableVia.invariant Sound ?_ ?_ h
  · rintro state ⟨currentNode, networkChannel, rfl⟩
    exact ⟨fun _ => ⟨rfl, rfl⟩, by simp, by simp⟩
  · intro source label target _ hclean hsound hstep
    obtain ⟨out, hout, rfl⟩ := Option.map_eq_some_iff.mp hstep
    obtain ⟨around, event⟩ := label
    cases event with
    | call call => exact hsound.call hclean hout
    | packet packet => exact hsound.packet hout

/-- **A host keeps one roster in five tables.** In every run on clean tables, at all times while
a console hosts, its tables say what one roster says, and until the network ends every packet
and every call moves it by at most one step of a roster. The exception is a host that the game
disconnected, which knows nobody. -/
theorem host_refines_roster
    (hreach : (consoleSystem NodeInfo).ReachableVia FromCleanTables s)
    (hinit : s.initialized = true) (hstatus : s.connectionStatus.status = .connectedAsHost) :
    Abandoned s ∨ ∃ r, Represents s r ∧
      ∀ around event out, event.endsHosting = false → s.react around event = some out →
        ∃ r', Relation.ReflGen Roster.Step r r' ∧ Represents out.console r' := by
  rcases (sound_of_reachable hreach).hosting hinit hstatus with habandoned | ⟨r, hr⟩
  · exact .inl habandoned
  · exact .inr ⟨r, hr, fun _ _ _ hgoesOn hout => hr.react hgoesOn hout⟩

/-! ## A console that hosts -/

/-- A room that gave a console the address of the console. -/
def sampleSurroundings : Surroundings where
  roomAddress := some (Vector.replicate 6 1)
  consoleAddress := Vector.replicate 6 1

/-- The service of a console when it is constructed. -/
def newConsole : Console PlainNode where
  currentNode := {}
  networkChannel := 11

theorem init_newConsole : (consoleSystem PlainNode).init newConsole := ⟨_, _, rfl⟩

/-- The game starts the service and founds a network. -/
def foundsNetwork : List (Surroundings × Event PlainNode) :=
  [ (sampleSurroundings, .call (.initializeWithVersion {})),
    (sampleSurroundings, .call (.beginHostingNetwork { maxNodes := 3 })) ]

/-- The host after such a start. -/
def foundedHost : Console PlainNode :=
  ((beginHostingNetwork sampleSurroundings (initializeWithVersion newConsole {})
    { maxNodes := 3 }).map Outcome.console).getD newConsole

/-- The packet with which a console asks to join. -/
def sampleRequest (a : MacAddress) : WifiPacket PlainNode where
  frame := .authentication .seq1
  channel := 11
  transmitterAddress := a
  destinationAddress := Vector.replicate 6 1

/-- The packet with which it starts its session. -/
def sampleSession (a : MacAddress) (connectionType : ConnectionType) : WifiPacket PlainNode :=
  { sampleRequest a with
    frame := .eapolStart { associationId := 1, connectionType, node := {} } }

/-- One console plays with the host, one watches and one has only asked. -/
def crowds : List (Surroundings × Event PlainNode) :=
  [ (sampleSurroundings, .packet (sampleRequest (Vector.replicate 6 2))),
    (sampleSurroundings, .packet (sampleSession (Vector.replicate 6 2) .client)),
    (sampleSurroundings, .packet (sampleRequest (Vector.replicate 6 3))),
    (sampleSurroundings, .packet (sampleSession (Vector.replicate 6 3) .spectator)),
    (sampleSurroundings, .packet (sampleRequest (Vector.replicate 6 4))) ]

/-- The host then. -/
structure Crowded (s : Console PlainNode) : Prop where
  initialized : s.initialized = true
  status : s.connectionStatus.status = .connectedAsHost
  plays : s.nodeMap.lookup (Vector.replicate 6 2) = some { connected := true, nodeId := 2 }
  watches : s.nodeMap.lookup (Vector.replicate 6 3) =
    some { connected := true, spec := true, nodeId := Header.nodeIDSpec PlainNode }
  waits : s.nodeMap.lookup (Vector.replicate 6 4) = some { connected := false }

theorem exists_crowded : ∃ s : Console PlainNode,
    (consoleSystem PlainNode).ReachableVia FromCleanTables s ∧ Crowded s := by
  obtain ⟨s, hreach, hinit, hstatus, hplays, hwatches, hwaits⟩ :=
    System.exists_reachableVia_of_runVia FromCleanTables init_newConsole (foundsNetwork ++ crowds)
      (fun s => s.initialized = true ∧ s.connectionStatus.status = .connectedAsHost ∧
        s.nodeMap.lookup (Vector.replicate 6 2) = some { connected := true, nodeId := 2 } ∧
        s.nodeMap.lookup (Vector.replicate 6 3) =
          some { connected := true, spec := true, nodeId := Header.nodeIDSpec PlainNode } ∧
        s.nodeMap.lookup (Vector.replicate 6 4) = some { connected := false }) (by decide)
  exact ⟨s, hreach, hinit, hstatus, hplays, hwatches, hwaits⟩

/-- What its roster says of the three. -/
theorem Crowded.roles {s : Console PlainNode} (h : Crowded s) {r : Roster MacAddress}
    (hr : Represents s r) :
    (∃ place, r.role (Vector.replicate 6 2) = some (.seated place)) ∧
      r.role (Vector.replicate 6 3) = some .watching ∧
      r.role (Vector.replicate 6 4) = some .waiting := by
  refine ⟨?_, ?_, ?_⟩
  · obtain ⟨role, hrole, hnode⟩ := exists_role hr h.plays
    cases role with
    | seated place => exact ⟨place, hrole⟩
    | waiting => cases hnode
    | watching => cases hnode
  · obtain ⟨role, hrole, hnode⟩ := exists_role hr h.watches
    cases role with
    | seated place => cases hnode
    | waiting => cases hnode
    | watching => exact hrole
  · obtain ⟨role, hrole, hnode⟩ := exists_role hr h.waits
    cases role with
    | seated place => cases hnode
    | waiting => exact hrole
    | watching => cases hnode

theorem host_refines_roster_crowded : ∃ (s : Console PlainNode) (r : Roster MacAddress),
    s.connectionStatus.status = .connectedAsHost ∧ Represents s r ∧
      ((∃ place, r.role (Vector.replicate 6 2) = some (.seated place)) ∧
        r.role (Vector.replicate 6 3) = some .watching ∧
        r.role (Vector.replicate 6 4) = some .waiting) ∧
      ∀ around event out, event.endsHosting = false → s.react around event = some out →
        ∃ r', Relation.ReflGen Roster.Step r r' ∧ Represents out.console r' := by
  obtain ⟨s, hreach, hcrowded⟩ := exists_crowded
  rcases host_refines_roster hreach hcrowded.initialized hcrowded.status with
    habandoned | ⟨r, hr, hsteps⟩
  · have hplays := hcrowded.plays
    rw [habandoned.nodeMap] at hplays
    cases hplays
  · exact ⟨s, r, hcrowded.status, hr, hcrowded.roles hr, hsteps⟩

end ManicRoom.Uds
