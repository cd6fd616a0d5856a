/-
# Consoles in a room

Any number of consoles in one room. What is known of the room server is only that it delivers
packets that were sent: it may lose them, deliver them again, late, in another order and to
consoles they were not for. The network remembers every state its consoles were in and every call
of a game, so that what a console knows can be compared with what another one once was or did.
-/

import ManicRoom.Uds.NodeMap
import ManicRoom.Uds.Refinement
import ManicRoom.Uds.Sending
import ManicRoom.Uds.Views

namespace ManicRoom.Uds

open ManicRoom.Foundation ManicRoom.Member

variable {Party NodeInfo : Type}

/-- A call of the game of a console, and the console as it was then. -/
structure Asked (Party NodeInfo : Type) where
  party : Party
  console : Console NodeInfo
  call : Call NodeInfo

/-- The consoles, the packets that were sent so far, the states the consoles were in and what
their games asked for. -/
structure Network (Party NodeInfo : Type) where
  consoles : Party → Console NodeInfo
  sent : List (WifiPacket NodeInfo) := []
  past : List (Console NodeInfo) := []
  asked : List (Asked Party NodeInfo) := []

/-- One console and what happens to it. -/
structure Move (Party NodeInfo : Type) where
  party : Party
  around : Surroundings
  event : Event NodeInfo

/-- What a move asks of a console. -/
def Move.asks (move : Move Party NodeInfo) (console : Console NodeInfo) :
    List (Asked Party NodeInfo) :=
  match move.event with
  | .call call => [{ party := move.party, console, call }]
  | .packet _ => []

section

variable [DecidableEq Party] [DecidableEq NodeInfo] [Header NodeInfo]

/-- A packet that happens to a console was sent before. -/
def Network.canHappen (n : Network Party NodeInfo) : Event NodeInfo → Bool
  | .call _ => true
  | .packet packet => packet ∈ n.sent

/-- One step of the network. -/
def Network.step (n : Network Party NodeInfo) (move : Move Party NodeInfo) :
    Option (Network Party NodeInfo) :=
  if n.canHappen move.event then
    ((n.consoles move.party).react move.around move.event).map fun out =>
      { consoles := Function.update n.consoles move.party out.console
        sent := n.sent ++ out.sent
        past := n.past ++ [out.console]
        asked := n.asked ++ move.asks (n.consoles move.party) }
  else none

variable (Party NodeInfo) in
/-- Any number of consoles in one room. -/
def roomSystem : System (Network Party NodeInfo) (Move Party NodeInfo) where
  init n := (∀ party, (n.consoles party).IsNew) ∧ n.sent = [] ∧ n.past = [] ∧ n.asked = []
  step := Network.step

/-- Each game founds and joins networks on empty tables only. -/
def AllFromCleanTables (n : Network Party NodeInfo) (move : Move Party NodeInfo) : Prop :=
  FromCleanTables (n.consoles move.party) (move.around, move.event)

end

/-! ## What a step does to a member -/

variable [Header NodeInfo] {around : Surroundings} {s : Console NodeInfo} {out : Outcome NodeInfo}
  {packet : WifiPacket NodeInfo}

/-- The tables that a view is about are the same. -/
structure SameView (s s' : Console NodeInfo) : Prop where
  nodeBitmask : s'.connectionStatus.nodeBitmask = s.connectionStatus.nodeBitmask
  nodes : s'.connectionStatus.nodes = s.connectionStatus.nodes
  totalNodes : s'.connectionStatus.totalNodes = s.connectionStatus.totalNodes
  nodeInfo : s'.nodeInfo = s.nodeInfo

theorem Sees.of_sameView {s' : Console NodeInfo} {logoff : EAPoLLogoff NodeInfo}
    (h : Sees s logoff) (hsame : SameView s s') : Sees s' logoff where
  nodeBitmask := by
    rw [hsame.nodeBitmask]
    exact h.nodeBitmask
  nodes := by
    rw [hsame.nodes]
    exact h.nodes
  totalNodes := hsame.totalNodes.trans h.totalNodes
  nodeInformation id hid := by
    rw [getNodeInformationHLE, hsame.nodeInfo]
    exact h.nodeInformation id hid

/-- The packet is a logoff frame. -/
def Event.isLogoff : Event NodeInfo → Bool
  | .packet received =>
      match received.frame with
      | .eapolLogoff _ => true
      | _ => false
  | .call _ => false

omit [Header NodeInfo] in
theorem exists_logoff {event : Event NodeInfo} (h : event.isLogoff = true) :
    ∃ received logoff, event = .packet received ∧ received.frame = .eapolLogoff logoff := by
  cases event with
  | call call => cases h
  | packet received =>
      simp only [Event.isLogoff] at h
      split at h
      · next logoff hframe => exact ⟨received, logoff, rfl, hframe⟩
      · cases h

/-- The game asks for the connection status. -/
def Event.isQuestion : Event NodeInfo → Bool
  | .call .getConnectionStatus => true
  | _ => false

/-- A step of a console that is a member then and heard no logoff frame. -/
structure StaysMember (s s' : Console NodeInfo) (event : Event NodeInfo) : Prop where
  isMember : s.connectionStatus.status.isMember = true
  sameView : SameView s s'
  changedNodes : event.isQuestion = false →
    s'.connectionStatus.changedNodes = s.connectionStatus.changedNodes

omit [Header NodeInfo] in
theorem StaysMember.of_eq {s' : Console NodeInfo} {event : Event NodeInfo}
    (hstatus : s'.connectionStatus = s.connectionStatus) (hinfo : s'.nodeInfo = s.nodeInfo)
    (hmember : s'.connectionStatus.status.isMember = true) : StaysMember s s' event where
  isMember := hstatus ▸ hmember
  sameView := ⟨by rw [hstatus], by rw [hstatus], by rw [hstatus], hinfo⟩
  changedNodes _ := by rw [hstatus]

/-- A member that is still one has the same view, unless it heard a logoff frame. -/
theorem staysMember_react {event : Event NodeInfo} (h : s.react around event = some out)
    (hlogoff : event.isLogoff = false)
    (hmember : out.console.connectionStatus.status.isMember = true) :
    StaysMember s out.console event := by
  cases event with
  | call call =>
      cases does_of_onCall h with
      | initializes => cases hmember
      | founds => cases hmember
      | destroys => cases hmember
      | joins => cases hmember
      | abandons => cases hmember
      | leaves => cases hmember
      | tellsStatus => exact ⟨hmember, ⟨rfl, rfl, rfl, rfl⟩, fun hquestion => by cases hquestion⟩
      | _ => exact .of_eq rfl rfl hmember
  | packet received =>
      by_cases hhost : s.connectionStatus.status = .connectedAsHost
      · rw [(status_eq_host_iff h).mpr hhost] at hmember
        cases hmember
      · have hframe (logoff : EAPoLLogoff NodeInfo) : received.frame ≠ .eapolLogoff logoff := by
          intro heq
          simp [Event.isLogoff, heq] at hlogoff
        rcases tables_of_not_host hhost hframe h with hsame | ⟨data, nodeMap, -, -, heq⟩
        · exact .of_eq hsame.connectionStatus hsame.nodeInfo hmember
        · rw [heq] at hmember ⊢
          exact .of_eq rfl rfl hmember

/-! ## What a step does to a node map -/

/-- What a packet does to the node map of a console that is not a running host then. -/
theorem nodeMap_packet {received : WifiPacket NodeInfo}
    (h : onWifiPacketReceived around s received = some out)
    (hnot : ¬ (out.console.initialized = true ∧
      out.console.connectionStatus.status = .connectedAsHost)) :
    out.console.nodeMap = s.nodeMap ∨ ∃ data, received.frame = .nodeMap data ∧
      readNodeMap data = some out.console.nodeMap := by
  by_cases hstatus : s.connectionStatus.status = .connectedAsHost
  · rcases (takes_of_onWifiPacketReceived h).2 with hinit | rfl
    · exact absurd ⟨(initialized_packet h).trans hinit, (status_eq_host_iff h).mpr hstatus⟩ hnot
    · exact .inl rfl
  · cases (takes_of_onWifiPacketReceived h).1 with
    | readsNodeMap hframe _ hread => exact .inr ⟨_, hframe, hread⟩
    | connects _ _ hout =>
        obtain ⟨view, -, rfl⟩ := completeConnection_eq_some hout
        exact .inl rfl
    | refreshes _ _ hout =>
        obtain ⟨view, -, rfl⟩ := refreshConnection_eq_some hout
        exact .inl rfl
    | queues => exact .inl (sameTables_enqueue s _).nodeMap
    | authenticates _ hhost => exact absurd hhost hstatus
    | seats _ hhost => exact absurd hhost hstatus
    | letsWatch _ hhost => exact absurd hhost hstatus
    | forgets _ hhost => exact absurd hhost hstatus
    | losesSpectator _ hhost => exact absurd hhost hstatus
    | losesClient _ hhost => exact absurd hhost hstatus
    | _ => exact .inl rfl

/-- The node map of a console that does not host: it keeps it, loses it or reads another. -/
theorem nodeMap_react {event : Event NodeInfo} (h : s.react around event = some out)
    (hhost : ¬ (out.console.initialized = true ∧
      out.console.connectionStatus.status = .connectedAsHost)) :
    out.console.nodeMap = s.nodeMap ∨ out.console.nodeMap = .empty ∨
      ∃ received data, event = .packet received ∧ received.frame = .nodeMap data ∧
        readNodeMap data = some out.console.nodeMap := by
  cases event with
  | call call =>
      cases does_of_onCall h with
      | shutsDown => exact .inr (.inl rfl)
      | destroys => exact .inr (.inl rfl)
      | abandons => exact .inr (.inl rfl)
      | leaves => exact .inr (.inl rfl)
      | _ => exact .inl rfl
  | packet received =>
      rcases nodeMap_packet h hhost with hmap | ⟨data, hframe, hread⟩
      · exact .inl hmap
      · exact .inr (.inr ⟨received, data, rfl, hframe, hread⟩)

/-! ## The invariant -/

/-- One of these states is a host whose tables say what some roster says. -/
def WasHost (past : List (Console NodeInfo)) (holds : Console NodeInfo → Roster MacAddress → Prop) :
    Prop :=
  ∃ host ∈ past, ∃ r, Represents host r ∧ holds host r

theorem WasHost.append {past : List (Console NodeInfo)} (later : List (Console NodeInfo))
    {holds : Console NodeInfo → Roster MacAddress → Prop} (h : WasHost past holds) :
    WasHost (past ++ later) holds := by
  obtain ⟨host, hmem, r, hr⟩ := h
  exact ⟨host, List.mem_append_left later hmem, r, hr⟩

theorem wasHost_last {past : List (Console NodeInfo)} {host : Console NodeInfo}
    {holds : Console NodeInfo → Roster MacAddress → Prop} {r : Roster MacAddress}
    (hr : Represents host r) (h : holds host r) : WasHost (past ++ [host]) holds :=
  ⟨host, List.mem_append_right past (List.mem_singleton_self host), r, hr, h⟩

/-- What holds of a network at all times. -/
structure NetworkSound (n : Network Party NodeInfo) : Prop where
  sound : ∀ party, Sound (n.consoles party)
  logoffs : ∀ packet ∈ n.sent, ∀ logoff, packet.frame = .eapolLogoff logoff →
    WasHost n.past fun host _ => logoff.IsFrom host
  nodeMaps : ∀ packet ∈ n.sent, ∀ data, packet.frame = .nodeMap data →
    WasHost n.past fun host _ => data = nodeMapData host.nodeMap
  views : ∀ party, (n.consoles party).connectionStatus.status.isMember = true →
    WasHost n.past fun host _ => ∃ logoff, logoff.IsFrom host ∧ Sees (n.consoles party) logoff
  entries : ∀ party a node, (n.consoles party).nodeMap.lookup a = some node →
    node.connected = true → node.nodeId ≠ Header.nodeIDSpec NodeInfo →
      WasHost n.past fun _ r => r.SeatedAs node.nodeId a

/-- A console that tells others about its network has the tables of a host. -/
theorem represents_of_tells (hsound : Sound s) {event : Event NodeInfo}
    (h : s.react around event = some out) (hpacket : packet ∈ out.sent)
    (htells : packet.frame.tells = true) :
    ∃ r, Represents out.console r ∧ (packet ∈ broadcastNodeMap around out.console ∨
      ∃ a id, packet ∈ sendLogoff around out.console a id) := by
  cases event with
  | call call =>
      rw [not_tells_onCall h hpacket] at htells
      cases htells
  | packet received =>
      have hstart : ∃ start, received.frame = .eapolStart start := by
        by_contra hnone
        rw [not_tells_onWifiPacketReceived h (fun start hframe => hnone ⟨start, hframe⟩) hpacket]
          at htells
        cases htells
      obtain ⟨start, hframe⟩ := hstart
      have htold := told_of_mem_sent h hpacket hframe
      have hreact : s.react around (.packet received) = some out := h
      simp only [Console.react, onWifiPacketReceived, hframe] at h
      split at h
      · cases h
        cases hpacket
      · next hinit =>
        by_cases hstatus : s.connectionStatus.status = .connectedAsHost
        · rcases hsound.hosting (by simpa using hinit) hstatus with habandoned | ⟨r, hr⟩
          · have hstranger : s.nodeMap.lookup received.transmitterAddress = none := by
              rw [habandoned.nodeMap]
              rfl
            simp only [handleEAPoLStart, hstatus, ne_eq, not_true_eq_false, if_false, hstranger,
              Option.some.injEq] at h
            rw [← h] at hpacket
            cases hpacket
          · obtain ⟨r', -, hr'⟩ := hr.react rfl hreact
            exact ⟨r', hr', htold⟩
        · rw [handleEAPoLStart, if_pos hstatus, Option.some.injEq] at h
          rw [← h] at hpacket
          cases hpacket

/-- What a logoff frame makes of the view of a member. -/
theorem sees_of_logoff {past : List (Console NodeInfo)} (hsound : Sound s)
    {received : WifiPacket NodeInfo} {logoff : EAPoLLogoff NodeInfo}
    (hframe : received.frame = .eapolLogoff logoff)
    (hfrom : WasHost past fun host _ => logoff.IsFrom host)
    (hsees : s.connectionStatus.status.isMember = true →
      WasHost past fun host _ => ∃ logoff, logoff.IsFrom host ∧ Sees s logoff)
    (h : onWifiPacketReceived around s received = some out)
    (hmember : out.console.connectionStatus.status.isMember = true) :
    WasHost past fun host _ => ∃ logoff, logoff.IsFrom host ∧ Sees out.console logoff := by
  have hnew (hsees' : Sees out.console logoff) :
      WasHost past fun host _ => ∃ logoff, logoff.IsFrom host ∧ Sees out.console logoff := by
    obtain ⟨host, hmem, r, hr, hlogoff⟩ := hfrom
    exact ⟨host, hmem, r, hr, logoff, hlogoff, hsees'⟩
  cases (takes_of_onWifiPacketReceived h).1 with
  | ignored => exact hsees hmember
  | connects hframe' hconnecting hout =>
      rw [hframe, Frame.eapolLogoff.injEq] at hframe'
      subst hframe'
      have hclean : Clean s := hsound.idle (by simp [hconnecting, NetworkStatus.isConnected])
      exact hnew (sees_completeConnection hclean.nodeBitmask hclean.nodes hout)
  | refreshes hframe' _ hout =>
      rw [hframe, Frame.eapolLogoff.injEq] at hframe'
      subst hframe'
      exact hnew (sees_refreshConnection hout)
  | _ => simp_all

/-- What a step makes of the node map of its console. -/
theorem entries_react {past : List (Console NodeInfo)} {sent : List (WifiPacket NodeInfo)}
    (hsound' : Sound out.console) {event : Event NodeInfo}
    (hmaps : ∀ packet ∈ sent, ∀ data, packet.frame = .nodeMap data →
      WasHost past fun host _ => data = nodeMapData host.nodeMap)
    (hcan : ∀ received, event = .packet received → received ∈ sent)
    (hentries : ∀ a node, s.nodeMap.lookup a = some node → node.connected = true →
      node.nodeId ≠ Header.nodeIDSpec NodeInfo →
        WasHost past fun _ r => r.SeatedAs node.nodeId a)
    (h : s.react around event = some out) {a : MacAddress} {node : Node}
    (hlookup : out.console.nodeMap.lookup a = some node) (hconnected : node.connected = true)
    (hspec : node.nodeId ≠ Header.nodeIDSpec NodeInfo) :
    WasHost (past ++ [out.console]) fun _ r => r.SeatedAs node.nodeId a := by
  have hempty (hmap : out.console.nodeMap = .empty) :
      WasHost (past ++ [out.console]) fun _ r => r.SeatedAs node.nodeId a := by
    rw [hmap] at hlookup
    cases hlookup
  by_cases hhost : out.console.initialized = true ∧
      out.console.connectionStatus.status = .connectedAsHost
  · rcases hsound'.hosting hhost.1 hhost.2 with habandoned | ⟨r, hr⟩
    · exact hempty habandoned.nodeMap
    · obtain ⟨role, hrole, rfl⟩ := exists_role hr hlookup
      cases role with
      | waiting => simp at hconnected
      | watching => exact absurd rfl hspec
      | seated place => exact wasHost_last hr ⟨place, hrole, rfl⟩
  · rcases nodeMap_react h hhost with hmap | hmap | ⟨received, data, hevent, hframe, hread⟩
    · exact (hentries a node (hmap ▸ hlookup) hconnected hspec).append _
    · exact hempty hmap
    · obtain ⟨host, hmem, r, hr, rfl⟩ := hmaps received (hcan received hevent) data hframe
      have hmap : out.console.nodeMap = host.nodeMap.broadcast := by
        rw [readNodeMap_nodeMapData, Option.some.injEq] at hread
        exact hread.symm
      refine ⟨host, List.mem_append_left _ hmem, r, hr, ?_⟩
      rw [hmap, lookup_broadcast, hr.nodeMap a, Option.map_eq_some_iff] at hlookup
      obtain ⟨value, hvalue, rfl⟩ := hlookup
      rw [Option.filter_eq_some_iff] at hvalue
      obtain ⟨hvalue, hcanBroad⟩ := hvalue
      obtain ⟨role, hrole, rfl⟩ := Option.map_eq_some_iff.mp hvalue
      cases role with
      | waiting => simp [nodeCanBroad] at hcanBroad
      | watching => simp [nodeCanBroad] at hcanBroad
      | seated place => exact ⟨place, hrole, rfl⟩

section

variable [DecidableEq Party] [DecidableEq NodeInfo] {n n' : Network Party NodeInfo}

theorem NetworkSound.step (h : NetworkSound n) {move : Move Party NodeInfo}
    (hclean : AllFromCleanTables n move) (hstep : n.step move = some n') : NetworkSound n' := by
  unfold Network.step at hstep
  split at hstep
  · next hcan =>
    obtain ⟨out, hout, rfl⟩ := Option.map_eq_some_iff.mp hstep
    have hreceived (received : WifiPacket NodeInfo) (hevent : move.event = .packet received) :
        received ∈ n.sent := by
      simpa [hevent, Network.canHappen] using hcan
    have hmover : Sound out.console := by
      cases hevent : move.event with
      | call call =>
          rw [hevent] at hout
          refine (h.sound move.party).call ?_ hout
          simpa only [AllFromCleanTables, hevent] using hclean
      | packet received =>
          rw [hevent] at hout
          exact (h.sound move.party).packet hout
    have htold (packet : WifiPacket NodeInfo) (hmem : packet ∈ out.sent)
        (htells : packet.frame.tells = true) :=
      represents_of_tells (h.sound move.party) hout hmem htells
    exact
      { sound := by
          intro party
          by_cases hparty : party = move.party
          · subst hparty
            simpa using hmover
          · simpa [hparty] using h.sound party
        logoffs := by
          intro packet hmem logoff hframe
          rcases List.mem_append.mp hmem with hold | hnew
          · exact (h.logoffs packet hold logoff hframe).append _
          · obtain ⟨r, hr, hmap | ⟨a, id, hlogoff⟩⟩ :=
              htold packet hnew (by simp [hframe, Frame.tells])
            · rw [frame_of_mem_sendPacket hmap] at hframe
              cases hframe
            · rw [frame_of_mem_sendPacket hlogoff] at hframe
              cases hframe
              exact wasHost_last hr ⟨a, id, rfl⟩
        nodeMaps := by
          intro packet hmem data hframe
          rcases List.mem_append.mp hmem with hold | hnew
          · exact (h.nodeMaps packet hold data hframe).append _
          · obtain ⟨r, hr, hmap | ⟨a, id, hlogoff⟩⟩ :=
              htold packet hnew (by simp [hframe, Frame.tells])
            · rw [frame_of_mem_sendPacket hmap] at hframe
              cases hframe
              exact wasHost_last hr rfl
            · rw [frame_of_mem_sendPacket hlogoff] at hframe
              cases hframe
        views := by
          intro party hmember
          by_cases hparty : party = move.party
          · subst hparty
            simp only [Function.update_self] at hmember ⊢
            apply WasHost.append
            cases hlogoff : move.event.isLogoff with
            | true =>
                obtain ⟨received, logoff, hevent, hframe⟩ := exists_logoff hlogoff
                rw [hevent] at hout
                exact sees_of_logoff (h.sound move.party) hframe
                  (h.logoffs received (hreceived received hevent) logoff hframe)
                  (h.views move.party) hout hmember
            | false =>
                obtain ⟨hold, hsame, -⟩ := staysMember_react hout hlogoff hmember
                obtain ⟨host, hmem, r, hr, logoff, hfrom, hsees⟩ := h.views move.party hold
                exact ⟨host, hmem, r, hr, logoff, hfrom, hsees.of_sameView hsame⟩
          · simp only [Function.update_of_ne hparty] at hmember ⊢
            exact (h.views party hmember).append _
        entries := by
          intro party a node hlookup hconnected hspec
          by_cases hparty : party = move.party
          · subst hparty
            simp only [Function.update_self] at hlookup
            exact entries_react hmover h.nodeMaps hreceived (h.entries move.party) hout
              hlookup hconnected hspec
          · simp only [Function.update_of_ne hparty] at hlookup
            exact (h.entries party a node hlookup hconnected hspec).append _ }
  · cases hstep

/-- The invariant holds at all times. -/
theorem networkSound_of_reachable
    (h : (roomSystem Party NodeInfo).ReachableVia AllFromCleanTables n) :
    NetworkSound n := by
  refine System.ReachableVia.invariant NetworkSound ?_ ?_ h
  · rintro state ⟨hnew, hsent, -⟩
    exact
      { sound := by
          intro party
          obtain ⟨currentNode, networkChannel, heq⟩ := hnew party
          rw [heq]
          exact ⟨fun _ => ⟨rfl, rfl⟩, by simp, by simp⟩
        logoffs := by simp [hsent]
        nodeMaps := by simp [hsent]
        views := by
          intro party hmember
          obtain ⟨currentNode, networkChannel, heq⟩ := hnew party
          rw [heq] at hmember
          cases hmember
        entries := by
          intro party a node hlookup
          obtain ⟨currentNode, networkChannel, heq⟩ := hnew party
          rw [heq] at hlookup
          cases hlookup }
  · intro source move target _ hclean hsound hstep
    exact hsound.step hclean hstep

/-! ## What clients know -/

/-- **A client sees what a host once told.** However the room loses, repeats, delays, reorders
and misdirects packets, the tables of a client or spectator are at all times those that one
single logoff frame makes, and that frame was made from the tables that some host had at some
moment before. -/
theorem member_sees_host
    (h : (roomSystem Party NodeInfo).ReachableVia AllFromCleanTables n)
    {party : Party} (hmember : (n.consoles party).connectionStatus.status.isMember = true) :
    ∃ host ∈ n.past, host.connectionStatus.status = .connectedAsHost ∧
      ∃ logoff, logoff.IsFrom host ∧ Sees (n.consoles party) logoff := by
  obtain ⟨host, hmem, r, hr, hsees⟩ := (networkSound_of_reachable h).views party hmember
  exact ⟨host, hmem, hr.status, hsees⟩

/-- **No address is made up.** The address to which a console sends what is for a client is one
that some host had seated in the place of the id at some moment before. -/
theorem seatedAs_of_getNodeMacAddress
    (h : (roomSystem Party NodeInfo).ReachableVia AllFromCleanTables n)
    {party : Party} {id : UInt16} {flags : UInt8} {a : MacAddress} (hflags : flags &&& 2 = 0)
    (hbroadcast : id ≠ broadcastNetworkNodeId) (hhost : id ≠ hostDestNodeId)
    (hspec : id ≠ Header.nodeIDSpec NodeInfo)
    (haddress : getNodeMacAddress (n.consoles party) id flags = some a) :
    ∃ host ∈ n.past, ∃ r, Represents host r ∧ r.SeatedAs id a := by
  unfold getNodeMacAddress at haddress
  rw [if_neg (by simp [hflags, hbroadcast]), if_neg hhost, Option.map_eq_some_iff] at haddress
  obtain ⟨entry, hfind, rfl⟩ := haddress
  have hmem := List.mem_of_find?_eq_some hfind
  have hentry := List.find?_some hfind
  rw [decide_eq_true_eq] at hentry
  obtain ⟨rfl, hconnected⟩ := hentry
  have hlookup := (OrderedMap.lookup_eq_some_iff _).mpr hmem
  exact (networkSound_of_reachable h).entries party entry.1 entry.2 hlookup hconnected hspec

end

/-! ## Two consoles -/

/-- The addresses of two consoles. -/
def sampleAddress (host : Bool) : MacAddress := Vector.replicate 6 (if host then 1 else 2)

/-- Two consoles when they are constructed. -/
def sampleStart : Network Bool PlainNode where
  consoles _ := newConsole

/-- One console founds a network of three places and the other one joins it. -/
def sampleMoves : List (Move Bool PlainNode) :=
  let move (host : Bool) (event : Event PlainNode) : Move Bool PlainNode :=
    { party := host
      around :=
        { roomAddress := some (sampleAddress host), consoleAddress := sampleAddress host }
      event }
  let packet (fromHost : Bool) (frame : Frame PlainNode)
      (destination : MacAddress := sampleAddress !fromHost) : Event PlainNode :=
    .packet
      { frame
        channel := 11
        transmitterAddress := sampleAddress fromHost
        destinationAddress := destination }
  [ move true (.call (.initializeWithVersion {})),
    move true (.call (.beginHostingNetwork { maxNodes := 3 })),
    move false (.call (.initializeWithVersion {})),
    move false (.call (.connectToNetwork { hostMacAddress := sampleAddress true } .client)),
    move true (packet false (.authentication .seq1)),
    move false (packet true (.associationResponse true 1)),
    move true (packet false (.eapolStart
      { associationId := 1, connectionType := .client, node := {} })),
    move false (packet true (.eapolLogoff
      { clientMacAddress := sampleAddress false
        assignedNodeId := 2
        nodes := [{ networkNodeId := 1 }, { networkNodeId := 2 }, {}]
        maxNodes := 3
        connectedNodes := 2 }) (Header.broadcastMac PlainNode)) ]

instance (n : Network Bool PlainNode) (move : Move Bool PlainNode) :
    Decidable (AllFromCleanTables n move) :=
  inferInstanceAs (Decidable (FromCleanTables (n.consoles move.party) (move.around, move.event)))

theorem init_sampleStart : (roomSystem Bool PlainNode).init sampleStart :=
  ⟨fun _ => init_newConsole, rfl, rfl, rfl⟩

theorem exists_joined : ∃ n : Network Bool PlainNode,
    (roomSystem Bool PlainNode).ReachableVia AllFromCleanTables n ∧
      (n.consoles false).connectionStatus.status.isMember = true :=
  System.exists_reachableVia_of_runVia AllFromCleanTables
    init_sampleStart sampleMoves
    (fun n => (n.consoles false).connectionStatus.status.isMember = true) (by decide)

theorem member_sees_host_joined : ∃ n : Network Bool PlainNode,
    (n.consoles false).connectionStatus.status.isMember = true ∧
      ∃ host ∈ n.past, host.connectionStatus.status = .connectedAsHost ∧
        ∃ logoff, logoff.IsFrom host ∧ Sees (n.consoles false) logoff := by
  obtain ⟨n, hreach, hmember⟩ := exists_joined
  exact ⟨n, hmember, member_sees_host hreach hmember⟩

/-- The host of the two sends to its client. -/
theorem seatedAs_of_getNodeMacAddress_joined : ∃ n : Network Bool PlainNode, ∃ a,
    getNodeMacAddress (n.consoles true) 2 0 = some a ∧
      ∃ host ∈ n.past, ∃ r, Represents host r ∧ r.SeatedAs 2 a := by
  obtain ⟨n, hreach, haddress⟩ := System.exists_reachableVia_of_runVia AllFromCleanTables
    init_sampleStart sampleMoves
    (fun n => getNodeMacAddress (n.consoles true) 2 0 = some (sampleAddress false))
    (by decide)
  exact ⟨n, _, haddress, seatedAs_of_getNodeMacAddress hreach rfl (by decide) (by decide)
    (by decide) haddress⟩

end ManicRoom.Uds
