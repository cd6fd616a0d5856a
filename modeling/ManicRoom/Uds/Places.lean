/-
# How a network fills up

A host authenticates a console while its network is not full, and gives it a place only when
the console starts its session. In between the console waits, and nothing keeps the place for
it: the host asserts that one is left when the session starts. Starts of sessions alone make
the assertion fail exactly if more consoles wait than there are free places, and if each
authentication comes while fewer wait, it never fails.
-/

import ManicRoom.Uds.Refinement

namespace ManicRoom.Uds

open ManicRoom.Foundation ManicRoom.Member

variable {NodeInfo : Type} [Header NodeInfo] {around : Surroundings} {s : Console NodeInfo}
  {r : Roster MacAddress} {out : Outcome NodeInfo} {a : MacAddress}

omit [Header NodeInfo] in
/-- How many consoles were authenticated and have not started their session. -/
def Console.waiting (s : Console NodeInfo) : ℕ :=
  s.nodeMap.entries.countP fun node => !node.2.connected

/-- The state after packets that come one after the other. -/
def receiveAll (around : Surroundings) (s : Console NodeInfo)
    (packets : List (WifiPacket NodeInfo)) : Option (Console NodeInfo) :=
  packets.foldlM
    (fun s packet => (onWifiPacketReceived around s packet).map Outcome.console) s

omit [Header NodeInfo] in
/-- The packet starts a session. -/
def WifiPacket.isStart (packet : WifiPacket NodeInfo) : Bool :=
  match packet.frame with
  | .eapolStart _ => true
  | _ => false

/-- If some console waits, one can be named. -/
theorem exists_waiting (h : Represents s r) (hwaiting : 0 < s.waiting) :
    ∃ a, r.role a = some .waiting := by
  obtain ⟨entry, hmem, hconnected⟩ := List.countP_pos_iff.mp hwaiting
  obtain ⟨role, hrole, hnode⟩ := exists_role h (s.nodeMap.lookup_eq_some_iff.mpr hmem)
  refine ⟨entry.1, ?_⟩
  rw [← hnode] at hconnected
  cases role with
  | waiting => exact hrole
  | watching => simp at hconnected
  | seated place => simp at hconnected

omit [Header NodeInfo] in
/-- A console that waited and was given another entry waits no more. -/
theorem waiting_insert {node : Node} (ha : s.nodeMap.lookup a = some { connected := false })
    (hconnected : node.connected = true) (nodes : NodeMap)
    (hnodes : nodes = s.nodeMap.insert a node) :
    nodes.entries.countP (fun node => !node.2.connected) + 1 = s.waiting := by
  have hcount := s.nodeMap.countP_insert (fun node => !node.2.connected) a node
  rw [ha] at hcount
  simpa [Console.waiting, hnodes, hconnected] using hcount

/-- What the start of a session of a console that waits does, while there is room. -/
theorem handleEAPoLStart_of_waiting (around : Surroundings) (h : Represents s r)
    (ha : r.role a = some .waiting) (hroom : r.places.card < r.capacity)
    (start : EAPoLStart NodeInfo) :
    ∃ out r', handleEAPoLStart around s a start = some out ∧ Represents out.console r' ∧
      r'.capacity = r.capacity ∧ out.console.initialized = s.initialized ∧
      out.console.waiting + r'.places.card ≤ s.waiting + r.places.card ∧
      (start.connectionType = .client → out.console.waiting + 1 = s.waiting ∧
        r'.places.card = r.places.card + 1) := by
  have hlookup : s.nodeMap.lookup a = some { connected := false } := by
    rw [h.nodeMap a, ha]
    rfl
  have hnone : ∀ place, r.role a ≠ some (.seated place) := by simp [ha]
  have hfull : s.connectionStatus.maxNodes ≠ s.connectionStatus.totalNodes := by
    rw [Ne, h.maxNodes_eq_totalNodes_iff]
    exact ne_of_lt hroom
  unfold handleEAPoLStart
  rw [if_neg (not_not_intro h.status)]
  simp only [hlookup, Bool.false_eq_true, if_false, if_neg hfull]
  cases start.connectionType with
  | client =>
      obtain ⟨id, hid⟩ := h.exists_getNextAvailableNodeId hroom
      obtain ⟨place, hlt, hfree, -, rfl⟩ := h.getNextAvailableNodeId_eq_some.mp hid
      obtain ⟨s', hseat, hr'⟩ := h.admitClient hlt hfree hnone
        (Header.networkNodeId_set start.node (placeId place))
      have hmap : s'.nodeMap =
          s.nodeMap.insert a { connected := true, spec := false, nodeId := placeId place } ∧
            s'.initialized = s.initialized := by
        unfold admitClient at hseat
        simp only at hseat
        split at hseat
        · cases hseat
          exact ⟨rfl, rfl⟩
        · cases hseat
      have hwaiting : s'.waiting + 1 = s.waiting := waiting_insert hlookup rfl _ hmap.1
      have hcard : (r.seat a place hlt hfree hnone).places.card = r.places.card + 1 :=
        Finset.card_insert_of_notMem hfree
      simp only [hid, Option.bind_eq_bind, Option.bind_some, hseat, Option.some.injEq,
        exists_and_left, exists_eq_left']
      refine ⟨_, hr', rfl, hmap.2, ?_, fun _ => ⟨hwaiting, hcard⟩⟩
      omega
  | spectator =>
      have hwaiting : (admitSpectator s a).waiting + 1 = s.waiting :=
        waiting_insert hlookup rfl _ rfl
      have hnotSeated (place : ℕ) : some Role.watching ≠ some (.seated place) := by simp
      have hmap (b : MacAddress) : (admitSpectator s a).nodeMap.lookup b =
          if b = a then (some Role.watching).map (Role.node NodeInfo) else s.nodeMap.lookup b := by
        simp [admitSpectator, Role.node]
      have hr' := h.assign hnotSeated hnone hmap
      refine ⟨_, _, rfl, hr', rfl, rfl, ?_, by simp⟩
      simp only [Roster.assign]
      omega
  | other value => exact ⟨_, _, rfl, h, rfl, rfl, le_rfl, by simp⟩

/-- The start of a session by a console that does not wait. -/
theorem handleEAPoLStart_of_not_waiting (h : Represents s r) (ha : r.role a ≠ some .waiting)
    (start : EAPoLStart NodeInfo) :
    handleEAPoLStart around s a start = some { console := s } := by
  unfold handleEAPoLStart
  rw [if_neg (not_not_intro h.status)]
  cases hlookup : s.nodeMap.lookup a with
  | none => rfl
  | some node =>
      obtain ⟨role, hrole, rfl⟩ := exists_role h hlookup
      have hconnected : (role.node NodeInfo).connected = true := by
        simpa [hrole] using ha
      simp only [hconnected, if_true]

/-- A packet that starts a session, received by a host with room for all that wait. -/
theorem receive_start (around : Surroundings) (h : Represents s r) (hinit : s.initialized = true)
    (hroom : s.waiting + r.places.card ≤ r.capacity) {packet : WifiPacket NodeInfo}
    (hstart : packet.isStart = true) :
    ∃ out r', onWifiPacketReceived around s packet = some out ∧ Represents out.console r' ∧
      r'.capacity = r.capacity ∧ out.console.initialized = true ∧
      out.console.waiting + r'.places.card ≤ r'.capacity := by
  unfold WifiPacket.isStart at hstart
  split at hstart
  · next start hframe =>
    simp only [onWifiPacketReceived, hinit, Bool.not_true, Bool.false_eq_true, if_false, hframe]
    by_cases hwaiting : r.role packet.transmitterAddress = some .waiting
    · have hpos : 0 < s.waiting := by
        apply List.countP_pos_iff.mpr
        refine ⟨(packet.transmitterAddress, { connected := false }), ?_, rfl⟩
        rw [← s.nodeMap.lookup_eq_some_iff, h.nodeMap, hwaiting]
        rfl
      obtain ⟨out, r', hout, hr', hcap, hinit', hle, -⟩ :=
        handleEAPoLStart_of_waiting around h hwaiting (by omega) start
      exact ⟨out, r', hout, hr', hcap, hinit'.trans hinit, by omega⟩
    · exact ⟨_, r, handleEAPoLStart_of_not_waiting h hwaiting start, h, rfl, hinit, hroom⟩
  · cases hstart

/-- With room for all that wait, no starts of sessions make a host fail. -/
theorem receiveAll_ne_none (h : Represents s r) (hinit : s.initialized = true)
    (hroom : s.waiting + r.places.card ≤ r.capacity) {packets : List (WifiPacket NodeInfo)}
    (hstarts : ∀ packet ∈ packets, packet.isStart = true) :
    receiveAll around s packets ≠ none := by
  induction packets generalizing s r with
  | nil => exact Option.some_ne_none s
  | cons packet packets ih =>
      obtain ⟨out, r', hout, hr', -, hinit', hroom'⟩ :=
        receive_start around h hinit hroom (hstarts packet (List.mem_cons_self ..))
      have hrest := ih hr' hinit' hroom' fun later hmem =>
        hstarts later (List.mem_cons_of_mem packet hmem)
      simpa [receiveAll, List.foldlM_cons, hout] using hrest

/-- The packet with which a console starts its session as a client. -/
def clientStart (a : MacAddress) (node : NodeInfo) : WifiPacket NodeInfo :=
  { frame := .eapolStart { associationId := 1, connectionType := .client, node }
    channel := 0
    transmitterAddress := a
    destinationAddress := Header.broadcastMac NodeInfo }

/-- If more consoles wait than there are free places, enough of them starting their sessions
make the host fail. -/
theorem exists_receiveAll_eq_none (h : Represents s r) (hinit : s.initialized = true)
    (hover : r.capacity < s.waiting + r.places.card) :
    ∃ packets : List (WifiPacket NodeInfo), (∀ packet ∈ packets, packet.isStart = true) ∧
      receiveAll around s packets = none := by
  -- by induction on the number of free places: each client that starts takes one
  induction hfree : r.capacity - r.places.card generalizing s r with
  | zero =>
      have hfull : r.places.card = r.capacity := by
        have hle := r.card_places_le
        omega
      obtain ⟨a, ha⟩ := exists_waiting h (by omega)
      refine ⟨[clientStart a s.currentNode], by simp [clientStart, WifiPacket.isStart], ?_⟩
      have hnone := (h.handleEAPoLStart_eq_none_iff around a
        { associationId := 1, connectionType := .client, node := s.currentNode }).mpr
          ⟨ha, hfull⟩
      simp [receiveAll, onWifiPacketReceived, hinit, clientStart, hnone]
  | succ free ih =>
      obtain ⟨a, ha⟩ := exists_waiting h (by omega)
      obtain ⟨out, r', hout, hr', hcap, hinit', -, hclient⟩ :=
        handleEAPoLStart_of_waiting around h ha (by omega)
          { associationId := 1, connectionType := .client, node := s.currentNode }
      obtain ⟨hwaiting, hcard⟩ := hclient rfl
      obtain ⟨packets, hstarts, hnone⟩ :=
        ih hr' (hinit'.trans hinit) (by omega) (by omega)
      refine ⟨clientStart a s.currentNode :: packets, ?_, ?_⟩
      · intro packet hmem
        rcases List.mem_cons.mp hmem with rfl | hmem
        · rfl
        · exact hstarts packet hmem
      · simpa [receiveAll, List.foldlM_cons, onWifiPacketReceived, hinit, clientStart, hout]
          using hnone

/-- An abandoned host takes every start of a session, for it knows nobody. -/
theorem receiveAll_of_abandoned (h : Abandoned s)
    (hstatus : s.connectionStatus.status = .connectedAsHost)
    {packets : List (WifiPacket NodeInfo)}
    (hstarts : ∀ packet ∈ packets, packet.isStart = true) :
    receiveAll around s packets = some s := by
  induction packets with
  | nil => rfl
  | cons packet packets ih =>
      have hpacket : onWifiPacketReceived around s packet = some { console := s } := by
        have hstart := hstarts packet (List.mem_cons_self ..)
        unfold WifiPacket.isStart at hstart
        split at hstart
        · next start hframe =>
          have hstranger : s.nodeMap.lookup packet.transmitterAddress = none := by
            rw [h.nodeMap]
            rfl
          simp [onWifiPacketReceived, hframe, handleEAPoLStart, hstatus, hstranger]
        · cases hstart
      have hrest := ih fun later hmem => hstarts later (List.mem_cons_of_mem packet hmem)
      simpa [receiveAll, List.foldlM_cons, hpacket] using hrest

/-- **When a host can be made to fail.** In every run on clean tables, starts of sessions
alone make the assertion of a host fail exactly if more consoles wait than it has free places. -/
theorem starts_can_fail_iff
    (hreach : (consoleSystem NodeInfo).ReachableVia FromCleanTables s)
    (hinit : s.initialized = true) (hstatus : s.connectionStatus.status = .connectedAsHost) :
    (∃ packets : List (WifiPacket NodeInfo), (∀ packet ∈ packets, packet.isStart = true) ∧
        receiveAll around s packets = none) ↔
      s.connectionStatus.maxNodes.toNat <
        s.waiting + s.connectionStatus.totalNodes.toNat := by
  rcases (sound_of_reachable hreach).hosting hinit hstatus with habandoned | ⟨r, hr⟩
  · have hwaiting : s.waiting = 0 := by
      simp [Console.waiting, habandoned.nodeMap, OrderedMap.empty]
    rw [hwaiting, habandoned.maxNodes, Nat.zero_add]
    constructor
    · rintro ⟨packets, hstarts, hnone⟩
      rw [receiveAll_of_abandoned habandoned hstatus hstarts] at hnone
      cases hnone
    · intro hlt
      exact absurd hlt (lt_irrefl _)
  · rw [hr.maxNodes, hr.totalNodes]
    constructor
    · rintro ⟨packets, hstarts, hnone⟩
      by_contra hroom
      exact receiveAll_ne_none hr hinit (not_lt.mp hroom) hstarts hnone
    · exact exists_receiveAll_eq_none hr hinit

/-- Two consoles wait for the one place that a host has left. -/
theorem starts_can_fail_iff_crowded : ∃ s : Console PlainNode,
    s.waiting = 2 ∧ s.connectionStatus.totalNodes = 1 ∧ s.connectionStatus.maxNodes = 2 ∧
      ∃ packets : List (WifiPacket PlainNode), (∀ packet ∈ packets, packet.isStart = true) ∧
        receiveAll sampleSurroundings s packets = none := by
  obtain ⟨s, hreach, hinit, hstatus, hwaiting, htotal, hmax⟩ :=
    System.exists_reachableVia_of_runVia FromCleanTables init_newConsole
      [ (sampleSurroundings, .call (.initializeWithVersion {})),
        (sampleSurroundings, .call (.beginHostingNetwork { maxNodes := 2 })),
        (sampleSurroundings, .packet (sampleRequest (Vector.replicate 6 2))),
        (sampleSurroundings, .packet (sampleRequest (Vector.replicate 6 3))) ]
      (fun s => s.initialized = true ∧ s.connectionStatus.status = .connectedAsHost ∧
        s.waiting = 2 ∧ s.connectionStatus.totalNodes = 1 ∧ s.connectionStatus.maxNodes = 2)
      (by decide)
  have hover : s.connectionStatus.maxNodes.toNat <
      s.waiting + s.connectionStatus.totalNodes.toNat := by
    rw [hwaiting, htotal, hmax]
    decide
  exact ⟨s, hwaiting, htotal, hmax, (starts_can_fail_iff hreach hinit hstatus).mpr hover⟩

/-! ## Authentication in turn -/

omit [Header NodeInfo] in
/-- The console hosts and authenticates the sender of the packet. -/
structure Console.Authenticates (s : Console NodeInfo) (packet : WifiPacket NodeInfo) : Prop where
  initialized : s.initialized = true
  frame : packet.frame = .authentication .seq1
  status : s.connectionStatus.status = .connectedAsHost
  stranger : s.nodeMap.lookup packet.transmitterAddress = none
  notFull : s.connectionStatus.maxNodes ≠ s.connectionStatus.totalNodes

/-- A host that authenticates a console has more free places than consoles that wait. -/
def AuthenticatesInTurn (s : Console NodeInfo) (label : Surroundings × Event NodeInfo) : Prop :=
  FromCleanTables s label ∧
    ∀ packet, label.2 = .packet packet → s.Authenticates packet →
      s.waiting + s.connectionStatus.totalNodes.toNat < s.connectionStatus.maxNodes.toNat

/-- There is room for all that wait. -/
def HasRoom (s : Console NodeInfo) : Prop :=
  s.initialized = true → s.connectionStatus.status = .connectedAsHost →
    s.waiting + s.connectionStatus.totalNodes.toNat ≤ s.connectionStatus.maxNodes.toNat

omit [Header NodeInfo] in
theorem HasRoom.of_sameTables {s' : Console NodeInfo} (h : HasRoom s) (hsame : SameTables s s') :
    HasRoom s' := by
  intro hinit hstatus
  rw [hsame.connectionStatus, Console.waiting, hsame.nodeMap]
  exact h (hsame.initialized ▸ hinit) (hsame.connectionStatus ▸ hstatus)

/-- What a packet does to the room of a host. -/
theorem Represents.hasRoom_packet (h : Represents s r) (hroom : HasRoom s)
    {packet : WifiPacket NodeInfo}
    (hturn : s.Authenticates packet →
      s.waiting + s.connectionStatus.totalNodes.toNat < s.connectionStatus.maxNodes.toNat)
    (hout : s.react around (.packet packet) = some out) : HasRoom out.console := by
  obtain ⟨r', -, hr'⟩ := h.react (show (Event.packet packet).endsHosting = false from rfl) hout
  obtain ⟨htakes, hrunning⟩ := takes_of_onWifiPacketReceived hout
  rcases hrunning with hinit | rfl
  · have hle := hroom hinit h.status
    -- a console that goes makes room
    have hshrinks (hwaiting : out.console.waiting ≤ s.waiting) (hplaces : r'.places ⊆ r.places)
        (hmax : out.console.connectionStatus.maxNodes = s.connectionStatus.maxNodes) :
        HasRoom out.console := by
      have hcard := Finset.card_le_card hplaces
      intro _ _
      rw [hmax, hr'.totalNodes]
      rw [h.totalNodes] at hle
      omega
    have herase := s.nodeMap.countP_erase_le (fun node => !node.2.connected)
      packet.transmitterAddress
    by_cases hstart : packet.isStart = true
    · obtain ⟨out', r'', hout', hr'', -, -, hle'⟩ := receive_start around h hinit
        (by rw [← h.totalNodes, ← h.maxNodes]; exact hle) hstart
      obtain rfl : out' = out := Option.some.inj (hout'.symm.trans hout)
      intro _ _
      rw [hr''.totalNodes, hr''.maxNodes]
      exact hle'
    · cases htakes with
      | authenticates hframe hhost hstranger hnotFull =>
          have hless := hturn ⟨hinit, hframe, hhost, hstranger, hnotFull⟩
          intro _ _
          have hcount := s.nodeMap.countP_insert (fun node => !node.2.connected)
            packet.transmitterAddress { connected := false }
          rw [hstranger] at hcount
          simp only [Option.any_none, Bool.false_eq_true, if_false, Bool.not_false,
            if_true] at hcount
          simp only [Console.enter, Console.waiting] at hless ⊢
          omega
      | forgets =>
          refine hshrinks herase ?_ rfl
          rw [← h.bitmask, ← hr'.bitmask]
          exact subset_rfl
      | losesSpectator =>
          refine hshrinks herase ?_ rfl
          rw [← h.bitmask, ← hr'.bitmask]
          exact subset_rfl
      | losesClient =>
          refine hshrinks herase ?_ rfl
          rw [← h.bitmask, ← hr'.bitmask]
          intro i hi
          rw [mem_bits, Console.freePlace, BitVec.getLsbD_and, Bool.and_eq_true] at hi
          exact mem_bits.mpr hi.1
      | seats hframe => simp [WifiPacket.isStart, hframe] at hstart
      | letsWatch hframe => simp [WifiPacket.isStart, hframe] at hstart
      | queues => exact hroom.of_sameTables (sameTables_enqueue s _)
      | connects _ hconnecting => simp [h.status] at hconnecting
      | refreshes _ hmember => simp [h.status, NetworkStatus.isMember] at hmember
      | readsNodeMap _ hhost => exact absurd h.status hhost
      | _ => exact hroom
  · exact hroom

omit [Header NodeInfo] in
theorem Abandoned.hasRoom (h : Abandoned s) : HasRoom s := by
  intro _ _
  have hwaiting : s.waiting = 0 := by simp [Console.waiting, h.nodeMap, OrderedMap.empty]
  rw [hwaiting, h.maxNodes, Nat.zero_add]

theorem hasRoom_call (h : HasRoom s) {call : Call NodeInfo}
    (hclean : FromCleanTables s (around, .call call))
    (hout : s.react around (.call call) = some out) : HasRoom out.console := by
  cases does_of_onCall hout with
  | shutsDown =>
      intro hinit _
      cases hinit
  | @founds info hmax =>
      obtain ⟨htables, hmap, hplaces⟩ := hclean
      obtain ⟨hpos, hr⟩ := represents_found around htables hmap hplaces hmax
      intro _ _
      have hwaiting : (s.found around info).waiting = 0 := by
        simp [Console.waiting, Console.found, hmap, OrderedMap.empty]
      rw [hwaiting, hr.maxNodes, hr.totalNodes, Nat.zero_add]
      exact Roster.card_places_le _
  | initializes node =>
      intro _ hstatus
      cases hstatus
  | destroys =>
      intro _ hstatus
      cases hstatus
  | joins =>
      intro _ hstatus
      cases hstatus
  | abandons => exact Abandoned.hasRoom ⟨clean_cleared _ _ _ rfl, rfl, rfl⟩
  | leaves =>
      intro _ hstatus
      cases hstatus
  | _ => exact h

/-- **Authentication in turn is enough.** In every run on clean tables in which a host
authenticates a console only while it has more free places than consoles that wait, no starts
of sessions ever make its assertion fail. -/
theorem starts_succeed_of_authenticatesInTurn
    (hreach : (consoleSystem NodeInfo).ReachableVia AuthenticatesInTurn s)
    (hinit : s.initialized = true) (hstatus : s.connectionStatus.status = .connectedAsHost)
    {packets : List (WifiPacket NodeInfo)}
    (hstarts : ∀ packet ∈ packets, packet.isStart = true) :
    receiveAll around s packets ≠ none := by
  have hclean {s : Console NodeInfo}
      (h : (consoleSystem NodeInfo).ReachableVia AuthenticatesInTurn s) :
      (consoleSystem NodeInfo).ReachableVia FromCleanTables s :=
    h.mono fun _ _ hguard => hguard.1
  have hroom : HasRoom s := by
    refine System.ReachableVia.invariant HasRoom ?_ ?_ hreach
    · rintro state ⟨currentNode, networkChannel, rfl⟩ hinit
      cases hinit
    · intro source label target hsource hguard hroom hstep
      obtain ⟨out, hout, rfl⟩ := Option.map_eq_some_iff.mp hstep
      obtain ⟨around, event⟩ := label
      have hsound := sound_of_reachable (hclean hsource)
      cases event with
      | call call => exact hasRoom_call hroom hguard.1 hout
      | packet packet =>
          intro hinit' hstatus'
          have hstatus := (status_eq_host_iff hout).mp hstatus'
          have hinit := (initialized_packet hout).symm.trans hinit'
          rcases hsound.hosting hinit hstatus with habandoned | ⟨r, hr⟩
          · exact (habandoned.react hstatus rfl hout).1.hasRoom hinit' hstatus'
          · exact hr.hasRoom_packet hroom (hguard.2 packet rfl) hout hinit' hstatus'
  intro hnone
  have hfails : ∃ packets : List (WifiPacket NodeInfo),
      (∀ packet ∈ packets, packet.isStart = true) ∧ receiveAll around s packets = none :=
    ⟨packets, hstarts, hnone⟩
  have hover := (starts_can_fail_iff (hclean hreach) hinit hstatus).mp hfails
  have hle := hroom hinit hstatus
  omega

omit [Header NodeInfo] in
theorem Console.authenticates_iff {packet : WifiPacket NodeInfo} : s.Authenticates packet ↔
    s.initialized = true ∧ packet.frame = .authentication .seq1 ∧
      s.connectionStatus.status = .connectedAsHost ∧
      s.nodeMap.lookup packet.transmitterAddress = none ∧
      s.connectionStatus.maxNodes ≠ s.connectionStatus.totalNodes :=
  ⟨fun h => ⟨h.initialized, h.frame, h.status, h.stranger, h.notFull⟩,
    fun ⟨hinit, hframe, hstatus, hstranger, hnotFull⟩ =>
      ⟨hinit, hframe, hstatus, hstranger, hnotFull⟩⟩

instance [DecidableEq NodeInfo] (s : Console NodeInfo) (packet : WifiPacket NodeInfo) :
    Decidable (s.Authenticates packet) :=
  decidable_of_iff' _ Console.authenticates_iff

instance [DecidableEq NodeInfo] (s : Console NodeInfo)
    (label : Surroundings × Event NodeInfo) : Decidable (AuthenticatesInTurn s label) :=
  match label with
  | (around, .call call) =>
      decidable_of_iff (FromCleanTables s (around, .call call))
        ⟨fun h => ⟨h, fun _ heq => by cases heq⟩, And.left⟩
  | (around, .packet packet) =>
      decidable_of_iff
        (s.Authenticates packet →
          s.waiting + s.connectionStatus.totalNodes.toNat < s.connectionStatus.maxNodes.toNat)
        ⟨fun h => ⟨trivial, fun _ heq => by cases heq; exact h⟩, fun h => h.2 packet rfl⟩

/-- After its start a host authenticates two consoles for the two places it has left. -/
theorem starts_succeed_of_authenticatesInTurn_founded : ∃ s : Console PlainNode, s.waiting = 2 ∧
    ∀ packets : List (WifiPacket PlainNode), (∀ packet ∈ packets, packet.isStart = true) →
      receiveAll sampleSurroundings s packets ≠ none := by
  obtain ⟨s, hreach, hinit, hstatus, hwaiting⟩ :=
    System.exists_reachableVia_of_runVia AuthenticatesInTurn init_newConsole
      (foundsNetwork ++
        [ (sampleSurroundings, .packet (sampleRequest (Vector.replicate 6 2))),
          (sampleSurroundings, .packet (sampleRequest (Vector.replicate 6 3))) ])
      (fun s => s.initialized = true ∧ s.connectionStatus.status = .connectedAsHost ∧
        s.waiting = 2) (by decide)
  exact ⟨s, hwaiting, fun packets hstarts =>
    starts_succeed_of_authenticatesInTurn hreach hinit hstatus hstarts⟩

end ManicRoom.Uds
