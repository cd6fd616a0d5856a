/-
# Strangers in the node map

A console that does not host reads every node map packet that it hears, also those of networks it
is no part of, and founding a network keeps what it has read. So the host knows the nodes of the
other network as if they were connected to it. It takes no session of theirs, and when one of them
leaves its own network, the host takes the seat of its own client with the same id.

Source: `nwm_uds.cpp`.
-/

import ManicRoom.Uds.Changes
import ManicRoom.Uds.Places

namespace ManicRoom.Uds

open ManicRoom.Foundation ManicRoom.Member

variable {NodeInfo : Type} [Header NodeInfo] {s s' : Console NodeInfo} {around : Surroundings}
  {out : Outcome NodeInfo} {a : MacAddress} {node : Node}

/-- The logoff of a console. -/
def Event.isLeaveOf (a : MacAddress) : Event NodeInfo → Bool
  | .packet received =>
      match received.frame with
      | .deauthentication => received.transmitterAddress = a
      | _ => false
  | .call _ => false

/-- A request to join a network: an authentication frame or the start of a session. -/
def WifiPacket.asksToJoin (packet : WifiPacket NodeInfo) : Bool :=
  match packet.frame with
  | .authentication _ | .eapolStart _ => true
  | _ => false

/-! ## What a host remembers -/

/-- The console hosts, and one with the address is connected to it. -/
structure Remembers (s : Console NodeInfo) (a : MacAddress) (node : Node) : Prop where
  initialized : s.initialized = true
  status : s.connectionStatus.status = .connectedAsHost
  lookup : s.nodeMap.lookup a = some node
  connected : node.connected = true

/-- A packet does not take the entry of a console that is connected, unless it is its logoff. -/
theorem Remembers.lookup_packet (h : Remembers s a node) {packet : WifiPacket NodeInfo}
    (hstays : (Event.packet packet).isLeaveOf a = false)
    (hout : Uds.onWifiPacketReceived around s packet = some out) :
    out.console.nodeMap.lookup a = some node := by
  have hne (hframe : packet.frame = .deauthentication) : a ≠ packet.transmitterAddress := by
    intro heq
    simp [Event.isLeaveOf, hframe, heq] at hstays
  have hwaits {entry : Node} (hentry : s.nodeMap.lookup packet.transmitterAddress = some entry)
      (hnot : entry.connected = false) : a ≠ packet.transmitterAddress := by
    intro heq
    rw [← heq, h.lookup, Option.some.injEq] at hentry
    rw [← hentry, h.connected] at hnot
    cases hnot
  cases (takes_of_onWifiPacketReceived hout).1 with
  | authenticates _ _ hstranger =>
      have hne : a ≠ packet.transmitterAddress := by
        intro heq
        rw [← heq, h.lookup] at hstranger
        cases hstranger
      simpa [Console.enter, hne] using h.lookup
  | seats _ _ hentry hnot _ _ _ hseat =>
      obtain ⟨hplace, rfl⟩ := admitClient_eq_some hseat
      simpa [hwaits hentry hnot] using h.lookup
  | letsWatch _ _ hentry hnot => simpa [admitSpectator, hwaits hentry hnot] using h.lookup
  | forgets hframe => simpa [Console.forget, hne hframe] using h.lookup
  | losesSpectator hframe =>
      simpa [Console.resetNode, Console.forget, hne hframe] using h.lookup
  | losesClient hframe =>
      simpa [Console.freePlace, Console.resetNode, Console.forget, hne hframe] using h.lookup
  | queues => exact (sameTables_enqueue s _).nodeMap ▸ h.lookup
  | connects _ hconnecting => simp [h.status] at hconnecting
  | refreshes _ hmember => simp [h.status, NetworkStatus.isMember] at hmember
  | readsNodeMap _ hhost => exact absurd h.status hhost
  | _ => exact h.lookup

/-- A host remembers who is connected to it until the console leaves or the network ends. -/
theorem Remembers.react (h : Remembers s a node) {event : Event NodeInfo}
    (hgoesOn : event.endsHosting = false) (hstays : event.isLeaveOf a = false)
    (hout : s.react around event = some out) : Remembers out.console a node := by
  cases event with
  | call call =>
      rcases call_goesOn hgoesOn hout with rfl | hsame
      · exact ⟨h.initialized, h.status, h.lookup, h.connected⟩
      · exact
          { initialized := hsame.initialized ▸ h.initialized
            status := hsame.connectionStatus ▸ h.status
            lookup := hsame.nodeMap ▸ h.lookup
            connected := h.connected }
  | packet packet =>
      exact
        { initialized := (initialized_packet hout).trans h.initialized
          status := (status_eq_host_iff hout).mpr h.status
          lookup := h.lookup_packet hstays hout
          connected := h.connected }

theorem Remembers.runEvents (h : Remembers s a node)
    {events : List (Surroundings × Event NodeInfo)} {answers : List (Answer NodeInfo)}
    (hgoesOn : ∀ event ∈ events, event.2.endsHosting = false)
    (hstays : ∀ event ∈ events, event.2.isLeaveOf a = false)
    (hrun : runEvents s events = some (s', answers)) : Remembers s' a node := by
  induction events generalizing s answers with
  | nil =>
      cases hrun
      exact h
  | cons event events ih =>
      simp only [Uds.runEvents, Option.bind_eq_bind, Option.bind_eq_some_iff, Option.some.injEq,
        Prod.mk.injEq] at hrun
      obtain ⟨out, hout, rest, hrest, rfl, -⟩ := hrun
      obtain ⟨hfirst, hgoesOn⟩ := List.forall_mem_cons.mp hgoesOn
      obtain ⟨hfirst', hstays⟩ := List.forall_mem_cons.mp hstays
      exact ih (h.react hfirst hfirst' hout) hgoesOn hstays hrest

/-- It does not answer the console. -/
theorem Remembers.onWifiPacketReceived (h : Remembers s a node) (around : Surroundings)
    {packet : WifiPacket NodeInfo} (hsender : packet.transmitterAddress = a)
    (hasks : packet.asksToJoin = true) :
    onWifiPacketReceived around s packet = some { console := s } := by
  simp only [Uds.onWifiPacketReceived, h.initialized, Bool.not_true, Bool.false_eq_true, if_false]
  unfold WifiPacket.asksToJoin at hasks
  split at hasks
  · next seq hframe => simp [hframe, hsender, handleAuthenticationFrame, h.lookup]
  · next start hframe =>
    simp [hframe, hsender, handleEAPoLStart, h.status, h.lookup, h.connected]
  · cases hasks

/-! ## Where strangers come from -/

/-- What is read from a node map packet is connected. -/
theorem connected_readNodeMapEntries {count : ℕ} {data : List UInt8} {nodeMap nodeMap' : NodeMap}
    (hconnected : ∀ b entry, nodeMap.lookup b = some entry → entry.connected = true)
    (h : readNodeMapEntries count data nodeMap = some nodeMap') {b : MacAddress} {entry : Node}
    (hlookup : nodeMap'.lookup b = some entry) : entry.connected = true := by
  induction count generalizing data nodeMap with
  | zero =>
      cases h
      exact hconnected b entry hlookup
  | succ count ih =>
      rw [readNodeMapEntries] at h
      split at h
      · refine ih (fun c value hvalue => ?_) h
        rw [OrderedMap.lookup_insert] at hvalue
        split at hvalue
        · cases hvalue
          rfl
        · exact hconnected c value hvalue
      · cases h

theorem connected_readNodeMap {data : List UInt8} {nodeMap : NodeMap}
    (h : readNodeMap data = some nodeMap) {b : MacAddress} {entry : Node}
    (hlookup : nodeMap.lookup b = some entry) : entry.connected = true := by
  unfold readNodeMap at h
  split at h
  · exact connected_readNodeMapEntries (fun c value hvalue => by cases hvalue) h hlookup
  · cases h

/-- A network is founded with the nodes that the console knew before. -/
theorem nodeMap_beginHostingNetwork {info : NetworkInfo}
    (h : beginHostingNetwork around s info = some out) :
    out.console.nodeMap = s.nodeMap ∧ out.console.initialized = s.initialized ∧
      out.console.connectionStatus.status = .connectedAsHost := by
  obtain ⟨-, rfl⟩ := beginHostingNetwork_eq_some h
  exact ⟨rfl, rfl, rfl⟩

/-- **A host locks out the nodes of networks it has heard of.** A console reads the node map of
some network and then founds its own. Whatever happens after that, as long as its network goes on
and a console of the map sends no logoff, the host keeps it as one that is connected, and neither
answers nor seats it when it asks to join. -/
theorem stranger_is_locked_out {packet : WifiPacket NodeInfo} {data : List UInt8}
    {begun : Outcome NodeInfo} {around' : Surroundings} {info : NetworkInfo}
    {events : List (Surroundings × Event NodeInfo)} {answers : List (Answer NodeInfo)}
    (hinit : s.initialized = true) (hidle : s.connectionStatus.status ≠ .connectedAsHost)
    (hframe : packet.frame = .nodeMap data)
    (hread : onWifiPacketReceived around s packet = some out)
    (hlisted : out.console.nodeMap.lookup a = some node)
    (hbegin : beginHostingNetwork around' out.console info = some begun)
    (hgoesOn : ∀ event ∈ events, event.2.endsHosting = false)
    (hstays : ∀ event ∈ events, event.2.isLeaveOf a = false)
    (hrun : runEvents begun.console events = some (s', answers)) :
    s'.nodeMap.lookup a = some node ∧
      ∀ around packet, packet.transmitterAddress = a → packet.asksToJoin = true →
        onWifiPacketReceived around s' packet = some { console := s' } := by
  simp only [onWifiPacketReceived, hinit, hframe, handleNodeMapPacket, if_neg hidle,
    Bool.not_true, Bool.false_eq_true, if_false, Option.map_eq_some_iff] at hread
  obtain ⟨nodeMap, hread, rfl⟩ := hread
  obtain ⟨hmap, hinit', hstatus⟩ := nodeMap_beginHostingNetwork hbegin
  have hremembers : Remembers begun.console a node :=
    { initialized := hinit'
      status := hstatus
      lookup := hmap ▸ hlisted
      connected := connected_readNodeMap hread hlisted }
  have hlast := hremembers.runEvents hgoesOn hstays hrun
  refine ⟨hlast.lookup, ?_⟩
  intro around packet hsender hasks
  exact hlast.onWifiPacketReceived around hsender hasks

/-! ## Where strangers sit -/

theorem runEvents_append {s₁ : Console NodeInfo}
    {events events' : List (Surroundings × Event NodeInfo)}
    {answers answers' : List (Answer NodeInfo)} (h : runEvents s events = some (s₁, answers))
    (h' : runEvents s₁ events' = some (s', answers')) :
    runEvents s (events ++ events') = some (s', answers ++ answers') := by
  induction events generalizing s answers with
  | nil =>
      cases h
      exact h'
  | cons event events ih =>
      simp only [runEvents, Option.bind_eq_bind, Option.bind_eq_some_iff, Option.some.injEq,
        Prod.mk.injEq] at h
      obtain ⟨out, hout, rest, hrest, rfl, rfl⟩ := h
      simp [runEvents, hout, ih hrest]

/-- A host, its seats and who has the record next to its own. -/
structure Beside (s : Console NodeInfo) (mask : BitVec udsMaxNodes) (total : UInt8)
    (neighbour : NodeInfo) : Prop where
  initialized : s.initialized = true
  status : s.connectionStatus.status = .connectedAsHost
  maxNodes : 1 < s.connectionStatus.maxNodes.toNat
  nodeBitmask : s.connectionStatus.nodeBitmask = mask
  totalNodes : s.connectionStatus.totalNodes = total
  nodeInfo : ∃ first rest, s.nodeInfo = first :: neighbour :: rest ∧ networkNodeId first = 1

/-- A node that sits next to the host. -/
def besideHost : Node := { connected := true, nodeId := 2 }

theorem beside_beginHostingNetwork (around : Surroundings) (hinit : s.initialized = true)
    (hclean : Clean s) {info : NetworkInfo} (hmax : 1 < info.maxNodes.toNat)
    (hdata : info.applicationDataSize ≤ Header.applicationDataSize NodeInfo) :
    ∃ out, beginHostingNetwork around s info = some out ∧
      Beside out.console 1 1 (Header.blank : NodeInfo) ∧ out.console.nodeMap = s.nodeMap := by
  have hvalid : ¬(info.maxNodes ≤ 1 ∨
      Header.applicationDataSize NodeInfo < info.applicationDataSize) := by
    rw [UInt8.le_iff_toNat_le]
    simp only [UInt8.toNat_one]
    omega
  obtain ⟨more, hmore⟩ := Nat.exists_eq_add_of_le hmax
  refine ⟨_, by rw [beginHostingNetwork, if_neg hvalid], ?_, rfl⟩
  exact
    { initialized := hinit
      status := rfl
      maxNodes := hmax
      nodeBitmask := by simp only [hclean.nodeBitmask]; rfl
      totalNodes := rfl
      nodeInfo := by
        refine ⟨setNetworkNodeId s.currentNode 1, List.replicate more Header.blank, ?_,
          Header.networkNodeId_set _ _⟩
        simp only [hmore, Nat.add_comm _ more]
        rfl }

theorem Beside.seat (around : Surroundings) {neighbour : NodeInfo} (h : Beside s 1 1 neighbour)
    (ha : s.nodeMap.lookup a = none) {asks session : WifiPacket NodeInfo}
    {start : EAPoLStart NodeInfo} (hasks : asks.frame = .authentication .seq1)
    (hsession : session.frame = .eapolStart start) (htype : start.connectionType = .client)
    (hsender : asks.transmitterAddress = a) (hsender' : session.transmitterAddress = a) :
    ∃ s' answers neighbour',
      runEvents s [(around, .packet asks), (around, .packet session)] = some (s', answers) ∧
        networkNodeId neighbour' = 2 ∧ Beside s' 3 2 neighbour' ∧
        s'.nodeMap = (s.nodeMap.insert a { connected := false }).insert a besideHost := by
  obtain ⟨first, rest, hinfo, hfirst⟩ := h.nodeInfo
  have hroom : s.connectionStatus.maxNodes ≠ 1 := by
    intro heq
    have hmax := h.maxNodes
    rw [heq] at hmax
    exact absurd hmax (by decide)
  have hnext : getNextAvailableNodeId s.connectionStatus = some 2 := by
    rw [getNextAvailableNodeId, h.nodeBitmask, Option.map_eq_some_iff]
    refine ⟨1, ?_, rfl⟩
    rw [List.find?_range_eq_some]
    refine ⟨by decide, List.mem_range.mpr h.maxNodes, ?_⟩
    decide
  let waiting : Console NodeInfo := { s with nodeMap := s.nodeMap.insert a { connected := false } }
  have hask : ∃ out, onWifiPacketReceived around s asks = some out ∧ out.console = waiting := by
    simp [onWifiPacketReceived, h.initialized, hasks, hsender, handleAuthenticationFrame,
      h.status, ha, h.totalNodes, hroom, waiting]
  obtain ⟨asked, hasked, hwaiting⟩ := hask
  let node := setNetworkNodeId start.node 2
  have hseat : ∃ seated, admitClient waiting a node 2 = some seated ∧ Beside seated 3 2 node ∧
      seated.nodeMap = waiting.nodeMap.insert a besideHost := by
    have hlong : 2 - 1 < waiting.nodeInfo.length := by simp [waiting, hinfo]
    refine ⟨_, by rw [admitClient]; exact dif_pos ⟨by decide, hlong⟩, ?_, rfl⟩
    exact
      { initialized := h.initialized
        status := h.status
        maxNodes := h.maxNodes
        nodeBitmask := by simp only [waiting, h.nodeBitmask]; rfl
        totalNodes := by simp only [waiting, h.totalNodes]; rfl
        nodeInfo := ⟨first, rest, by simp only [waiting, hinfo]; rfl, hfirst⟩ }
  obtain ⟨seated, hseated, hbeside, hmap⟩ := hseat
  have hstart : ∃ out, onWifiPacketReceived around waiting session = some out ∧
      out.console = seated := by
    have hentry : waiting.nodeMap.lookup a = some { connected := false } := by simp [waiting]
    have hinit : waiting.initialized = true := h.initialized
    have hstatus : waiting.connectionStatus.status = .connectedAsHost := h.status
    have htotal : waiting.connectionStatus.totalNodes = 1 := h.totalNodes
    have hmax : waiting.connectionStatus.maxNodes ≠ 1 := hroom
    have hfree : getNextAvailableNodeId waiting.connectionStatus = some 2 := hnext
    simp [onWifiPacketReceived, handleEAPoLStart, hinit, hsession, hsender', hstatus, hentry,
      htotal, hmax, htype, hfree, hseated, node]
  obtain ⟨started, hstarted, hconsole⟩ := hstart
  refine ⟨seated, [asked.answer, started.answer], node, ?_, Header.networkNodeId_set _ _, hbeside,
    hmap⟩
  simp [runEvents, Console.react, hasked, hwaiting, hstarted, hconsole]

theorem Beside.leave (around : Surroundings) {neighbour : NodeInfo} (h : Beside s 3 2 neighbour)
    (hneighbour : networkNodeId neighbour = 2)
    (ha : s.nodeMap.lookup a = some besideHost) {leaves : WifiPacket NodeInfo}
    (hleaves : leaves.frame = .deauthentication) (hsender : leaves.transmitterAddress = a) :
    ∃ s' answers, runEvents s [(around, .packet leaves)] = some (s', answers) ∧
      Beside s' 1 1 (Header.reset neighbour) ∧ s'.nodeMap = s.nodeMap.erase a := by
  obtain ⟨first, rest, hinfo, hfirst⟩ := h.nodeInfo
  have hfound : (s.nodeInfo.findIdx? fun info => networkNodeId info = besideHost.nodeId) =
      some 1 := by
    simp [hinfo, List.findIdx?_cons, hfirst, hneighbour, besideHost]
  have hleave : ∃ out, handleDeauthenticationFrame s a = some out ∧
      Beside out.console 1 1 (Header.reset neighbour) ∧
        out.console.nodeMap = s.nodeMap.erase a := by
    have hconnected : (!besideHost.connected) = false := rfl
    have hclient : besideHost.spec = false := rfl
    have hplace : besideHost.nodeId ≠ 0 ∧ besideHost.nodeId.toNat - 1 < udsMaxNodes := by decide
    rw [handleDeauthenticationFrame, if_neg (not_not.mpr h.status), ha]
    simp only [hconnected, Bool.false_eq_true, if_false, hfound, hclient, dif_pos hplace]
    refine ⟨_, rfl, ?_, rfl⟩
    exact
      { initialized := h.initialized
        status := h.status
        maxNodes := h.maxNodes
        nodeBitmask := by simp only [h.nodeBitmask]; rfl
        totalNodes := by simp only [h.totalNodes]; rfl
        nodeInfo := ⟨first, rest, by simp only [hinfo]; rfl, hfirst⟩ }
  obtain ⟨out, hout, hbeside, hmap⟩ := hleave
  refine ⟨out.console, [out.answer], ?_, hbeside, hmap⟩
  simp [runEvents, Console.react, onWifiPacketReceived, h.initialized, hleaves, hsender, hout]

/-- **A stranger gives up the seat of a client.** A host has read in some node map that a console
sits next to the host there. A client of its own takes that seat, the stranger leaves its network,
and another client comes: then both clients are connected to the host with the same id, and it
counts two nodes where there are three. -/
theorem two_clients_in_one_seat (around : Surroundings) {b c : MacAddress}
    (hinit : s.initialized = true)
    (hclean : Clean s) (hstranger : s.nodeMap.lookup a = some besideHost)
    (hb : s.nodeMap.lookup b = none) (hc : s.nodeMap.lookup c = none) (hbc : b ≠ c)
    {info : NetworkInfo} (hmax : 1 < info.maxNodes.toNat)
    (hdata : info.applicationDataSize ≤ Header.applicationDataSize NodeInfo)
    {asks session leaves asks' session' : WifiPacket NodeInfo}
    {start start' : EAPoLStart NodeInfo} (hasks : asks.frame = .authentication .seq1)
    (hasks' : asks'.frame = .authentication .seq1) (hsession : session.frame = .eapolStart start)
    (hsession' : session'.frame = .eapolStart start') (htype : start.connectionType = .client)
    (htype' : start'.connectionType = .client) (hleaves : leaves.frame = .deauthentication)
    (hfrom : asks.transmitterAddress = b ∧ session.transmitterAddress = b)
    (hfrom' : asks'.transmitterAddress = c ∧ session'.transmitterAddress = c)
    (hfroma : leaves.transmitterAddress = a) :
    ∃ s' answers,
      runEvents s
          [ (around, .call (.beginHostingNetwork info)),
            (around, .packet asks), (around, .packet session), (around, .packet leaves),
            (around, .packet asks'), (around, .packet session') ] =
        some (s', answers) ∧
      s'.nodeMap.lookup b = some besideHost ∧ s'.nodeMap.lookup c = some besideHost ∧
        s'.connectionStatus.totalNodes = 2 := by
  have hab : a ≠ b := by
    intro heq
    rw [heq, hb] at hstranger
    cases hstranger
  have hac : a ≠ c := by
    intro heq
    rw [heq, hc] at hstranger
    cases hstranger
  obtain ⟨begun, hbegun, hbeside, hmap⟩ :=
    beside_beginHostingNetwork around hinit hclean hmax hdata
  have hbegins : runEvents s [(around, .call (.beginHostingNetwork info))] =
      some (begun.console, [begun.answer]) := by
    simp [runEvents, Console.react, onCall, hbegun]
  obtain ⟨s₁, answers₁, neighbour, hrun₁, hneighbour, hbeside₁, hmap₁⟩ :=
    hbeside.seat around (by rw [hmap, hb]) hasks hsession htype hfrom.1 hfrom.2
  obtain ⟨s₂, answers₂, hrun₂, hbeside₂, hmap₂⟩ :=
    hbeside₁.leave around hneighbour (by simp [hmap₁, hmap, hab, hstranger]) hleaves hfroma
  obtain ⟨s₃, answers₃, neighbour', hrun₃, -, hbeside₃, hmap₃⟩ :=
    hbeside₂.seat around (by simp [hmap₂, hmap₁, hmap, hbc.symm, hc]) hasks' hsession' htype'
      hfrom'.1 hfrom'.2
  refine ⟨s₃, _, runEvents_append hbegins (runEvents_append hrun₁ (runEvents_append hrun₂ hrun₃)),
    ?_, ?_, hbeside₃.totalNodes⟩
  · simp [hmap₃, hmap₂, hmap₁, hbc, hab.symm]
  · simp [hmap₃]

/-! ## A sample stranger -/

/-- The node map of a network with one client. -/
def strangersMap : NodeMap := OrderedMap.empty.insert (Vector.replicate 6 5) besideHost

/-- A console that has read it. -/
def visited : Console PlainNode :=
  { initializeWithVersion newConsole {} with nodeMap := strangersMap }

def overheard : WifiPacket PlainNode where
  frame := .nodeMap (nodeMapData strangersMap)
  channel := 11
  destinationAddress := Header.broadcastMac PlainNode

/-- The network that it founds. -/
def visitedHost : Outcome PlainNode :=
  (beginHostingNetwork sampleSurroundings visited { maxNodes := 3 }).getD { console := visited }

/-- The stranger and another console ask to join. -/
def strangerAsks : List (Surroundings × Event PlainNode) :=
  [ (sampleSurroundings, .packet (sampleRequest (Vector.replicate 6 5))),
    (sampleSurroundings, .packet (sampleRequest (Vector.replicate 6 2))) ]

theorem stranger_is_locked_out_overheard : ∃ s' answers,
    runEvents visitedHost.console strangerAsks = some (s', answers) ∧
      s'.nodeMap.lookup (Vector.replicate 6 5) = some besideHost ∧
        onWifiPacketReceived sampleSurroundings s' (sampleRequest (Vector.replicate 6 5)) =
          some { console := s' } := by
  have hidle : (initializeWithVersion newConsole {} : Console PlainNode).connectionStatus.status ≠
      .connectedAsHost := by
    decide
  have hread : onWifiPacketReceived sampleSurroundings (initializeWithVersion newConsole {})
      overheard = some { console := visited } := rfl
  have hlisted : visited.nodeMap.lookup (Vector.replicate 6 5) = some besideHost := rfl
  have hbegin : beginHostingNetwork sampleSurroundings visited { maxNodes := 3 } =
      some visitedHost := rfl
  have hgoesOn : ∀ event ∈ strangerAsks, event.2.endsHosting = false := by decide
  have hstays : ∀ event ∈ strangerAsks,
      event.2.isLeaveOf (Vector.replicate 6 5) = false := by
    decide
  have hruns : (runEvents visitedHost.console strangerAsks).isSome = true := by decide
  obtain ⟨⟨s', answers⟩, hrun⟩ := Option.isSome_iff_exists.mp hruns
  obtain ⟨hlookup, hsilent⟩ :=
    stranger_is_locked_out rfl hidle rfl hread hlisted hbegin hgoesOn hstays hrun
  exact ⟨s', answers, hrun, hlookup, hsilent sampleSurroundings _ rfl rfl⟩

theorem two_clients_in_one_seat_visited : ∃ s' : Console PlainNode,
    s'.nodeMap.lookup (Vector.replicate 6 2) = some besideHost ∧
      s'.nodeMap.lookup (Vector.replicate 6 3) = some besideHost ∧
        s'.connectionStatus.totalNodes = 2 := by
  have hclean : Clean visited := by decide
  have hstranger : visited.nodeMap.lookup (Vector.replicate 6 5) = some besideHost := rfl
  let leaves : WifiPacket PlainNode :=
    { sampleRequest (Vector.replicate 6 5) with frame := .deauthentication }
  obtain ⟨s', -, -, hb, hc, htotal⟩ :=
    two_clients_in_one_seat sampleSurroundings rfl hclean hstranger
      (show visited.nodeMap.lookup (Vector.replicate 6 2) = none from rfl)
      (show visited.nodeMap.lookup (Vector.replicate 6 3) = none from rfl) (by decide)
      (show 1 < ({ maxNodes := 3 } : NetworkInfo).maxNodes.toNat from by decide) (by decide)
      (show (sampleRequest (Vector.replicate 6 2) : WifiPacket PlainNode).frame = _ from rfl)
      (show (sampleRequest (Vector.replicate 6 3) : WifiPacket PlainNode).frame = _ from rfl)
      (show (sampleSession (Vector.replicate 6 2) .client).frame = _ from rfl)
      (show (sampleSession (Vector.replicate 6 3) .client).frame = _ from rfl) rfl rfl
      (show leaves.frame = _ from rfl) ⟨rfl, rfl⟩ ⟨rfl, rfl⟩ rfl
  exact ⟨s', hb, hc, htotal⟩

end ManicRoom.Uds
