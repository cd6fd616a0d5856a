/-
# The node map packet

A host tells its clients which address has which node id in a packet whose bytes it lays out
itself: a count, and an address and an id for each connected client. A console that reads it
gets exactly these entries, so client and host resolve every id of a client to the same
address.
-/

import ManicRoom.Uds.Refinement
import Mathlib.Data.Fintype.BigOperators
import Mathlib.Data.Fintype.EquivFin

namespace ManicRoom.Uds

open ManicRoom.Foundation ManicRoom.Member

/-- The entry that a reader makes of a node of the host. -/
def Node.asRead (node : Node) : Node := { connected := true, nodeId := node.nodeId }

/-- What readers of a node map packet get to know of the map. -/
def NodeMap.broadcast (nodeMap : NodeMap) : NodeMap where
  entries := (nodeMap.entries.filter nodeCanBroad).map fun node => (node.1, node.2.asRead)
  sorted := by
    rw [List.pairwise_map]
    exact nodeMap.sorted.filter _

/-- The bytes of one entry. -/
def entryBytes (node : MacAddress × Node) : List UInt8 :=
  node.1.toList ++ toBytes 2 node.2.nodeId.toNat

theorem length_entryBytes (node : MacAddress × Node) : (entryBytes node).length = 8 := by
  simp [entryBytes]

/-- One turn of the loop reads one entry back. -/
theorem readNodeMapEntries_entryBytes (count : ℕ) (node : MacAddress × Node) (rest : List UInt8)
    (nodeMap : NodeMap) :
    readNodeMapEntries (count + 1) (entryBytes node ++ rest) nodeMap =
      readNodeMapEntries count rest (nodeMap.insert node.1
        { (nodeMap.lookup node.1).getD {} with connected := true, nodeId := node.2.nodeId }) := by
  have hlength : 8 ≤ (entryBytes node ++ rest).length := by
    rw [List.length_append, length_entryBytes]
    exact Nat.le_add_right 8 _
  have htake : (entryBytes node ++ rest).take 6 = node.1.toList := by
    rw [entryBytes, List.append_assoc, List.take_left' (by simp)]
  have hdrop : (entryBytes node ++ rest).drop 8 = rest := List.drop_left' (length_entryBytes node)
  have hid : ((entryBytes node ++ rest).drop 6).take 2 = toBytes 2 node.2.nodeId.toNat := by
    rw [entryBytes, List.append_assoc, List.drop_left' (by simp), List.take_left' (by simp)]
  have hread : UInt16.ofNat (ofBytes (toBytes 2 node.2.nodeId.toNat)) = node.2.nodeId := by
    rw [ofBytes_toBytes (by simpa using node.2.nodeId.toNat_lt), UInt16.ofNat_toNat]
  rw [readNodeMapEntries, dif_pos hlength]
  simp only [htake, hdrop, hid, hread]
  rfl

/-- The loop reads all entries back, each after those it has. -/
theorem readNodeMapEntries_flatMap {entries : List (MacAddress × Node)} (nodeMap : NodeMap)
    (hsorted : entries.Pairwise fun first second => first.1 < second.1)
    (hbelow : ∀ entry ∈ nodeMap.entries, ∀ node ∈ entries, entry.1 < node.1) :
    ∃ result, readNodeMapEntries entries.length (entries.flatMap entryBytes) nodeMap =
        some result ∧
      result.entries = nodeMap.entries ++ entries.map fun node => (node.1, node.2.asRead) := by
  induction entries generalizing nodeMap with
  | nil => exact ⟨nodeMap, rfl, by simp⟩
  | cons node entries ih =>
      obtain ⟨hfirst, hrest⟩ := List.pairwise_cons.mp hsorted
      have hlt : ∀ entry ∈ nodeMap.entries, entry.1 < node.1 := fun entry hmem =>
        hbelow entry hmem node (List.mem_cons_self ..)
      have hnone : nodeMap.lookup node.1 = none := by
        by_contra hsome
        obtain ⟨value, hvalue⟩ := Option.ne_none_iff_exists'.mp hsome
        exact lt_irrefl _ (hlt (node.1, value) (nodeMap.lookup_eq_some_iff.mp hvalue))
      have hinsert := nodeMap.entries_insert_of_lt node.2.asRead hlt
      rw [List.flatMap_cons, List.length_cons, readNodeMapEntries_entryBytes, hnone]
      have hbelow' : ∀ entry ∈ (nodeMap.insert node.1 node.2.asRead).entries,
          ∀ later ∈ entries, entry.1 < later.1 := by
        intro entry hmem later hlater
        rw [hinsert, List.mem_append, List.mem_singleton] at hmem
        rcases hmem with hmem | rfl
        · exact hbelow entry hmem later (List.mem_cons_of_mem node hlater)
        · exact hfirst later hlater
      obtain ⟨result, hresult, hentries⟩ := ih _ hrest hbelow'
      refine ⟨result, hresult, ?_⟩
      rw [hentries, hinsert, List.map_cons, List.append_assoc]
      rfl

/-- There are not more entries than addresses, so their number fits into the packet. -/
theorem length_entries_lt (nodeMap : NodeMap) : nodeMap.entries.length < 256 ^ 8 := by
  let octets (entry : MacAddress × Node) (i : Fin 6) : Fin 256 := entry.1[i].toFin
  have hnodup : (nodeMap.entries.map octets).Nodup := by
    rw [List.Nodup, List.pairwise_map]
    apply nodeMap.sorted.imp
    intro first second hlt heq
    apply ne_of_lt hlt
    ext i hi
    exact UInt8.toNat_inj.mpr (UInt8.toFin_inj.mp (congrFun heq ⟨i, hi⟩))
  have hle := hnodup.length_le_card
  rw [List.length_map, Fintype.card_fun, Fintype.card_fin, Fintype.card_fin] at hle
  exact hle.trans_lt (by norm_num)

/-- **The node map packet round trip.** What a console reads from the packet of a host is what
the host has to tell. -/
theorem readNodeMap_nodeMapData (nodeMap : NodeMap) :
    readNodeMap (nodeMapData nodeMap) = some nodeMap.broadcast := by
  have hcount : (nodeMap.entries.filter nodeCanBroad).length < 256 ^ 8 :=
    (List.length_filter_le ..).trans_lt (length_entries_lt nodeMap)
  have hlength : 8 ≤ (nodeMapData nodeMap).length := by simp [nodeMapData]
  have htake : (nodeMapData nodeMap).take 8 =
      toBytes 8 (nodeMap.entries.filter nodeCanBroad).length :=
    List.take_left' (length_toBytes ..)
  have hdrop : (nodeMapData nodeMap).drop 8 =
      (nodeMap.entries.filter nodeCanBroad).flatMap entryBytes :=
    List.drop_left' (length_toBytes ..)
  obtain ⟨result, hresult, hentries⟩ :=
    readNodeMapEntries_flatMap .empty (nodeMap.sorted.filter nodeCanBroad)
      (by simp [OrderedMap.empty])
  rw [readNodeMap, if_pos hlength, htake, hdrop, ofBytes_toBytes hcount, hresult]
  obtain ⟨entries, sorted⟩ := result
  simp only at hentries
  subst hentries
  rfl

/-- An entry of what readers get to know. -/
theorem lookup_broadcast (nodeMap : NodeMap) (a : MacAddress) :
    nodeMap.broadcast.lookup a =
      ((nodeMap.lookup a).filter fun node => nodeCanBroad (a, node)).map Node.asRead := by
  have hiff (node : Node) : nodeMap.broadcast.lookup a = some node ↔
      ((nodeMap.lookup a).filter fun node => nodeCanBroad (a, node)).map Node.asRead =
        some node := by
    rw [OrderedMap.lookup_eq_some_iff, Option.map_eq_some_iff]
    simp only [NodeMap.broadcast, List.mem_map, List.mem_filter, Prod.mk.injEq,
      Option.filter_eq_some_iff, OrderedMap.lookup_eq_some_iff]
    constructor
    · rintro ⟨⟨b, value⟩, ⟨hmem, hcan⟩, rfl, rfl⟩
      exact ⟨value, ⟨hmem, hcan⟩, rfl⟩
    · rintro ⟨value, ⟨hmem, hcan⟩, rfl⟩
      exact ⟨(a, value), ⟨hmem, hcan⟩, rfl, rfl⟩
  exact Option.ext hiff

/-! ## Addresses -/

/-- The address that a node map has for a node id. -/
def NodeMap.addressOf (nodeMap : NodeMap) (id : UInt16) : Option MacAddress :=
  (nodeMap.entries.find? fun node => node.2.nodeId = id ∧ node.2.connected).map Prod.fst

/-- The search for an id that at most one connected node has. -/
theorem addressOf_eq_some_iff {nodeMap : NodeMap} {id : UInt16} {a : MacAddress}
    (hunique : ∀ {b c : MacAddress} {node node' : Node}, nodeMap.lookup b = some node →
      nodeMap.lookup c = some node' → node.nodeId = id → node'.nodeId = id →
      node.connected = true → node'.connected = true → b = c) :
    nodeMap.addressOf id = some a ↔
      ∃ node, nodeMap.lookup a = some node ∧ node.nodeId = id ∧ node.connected = true := by
  rw [NodeMap.addressOf, Option.map_eq_some_iff]
  constructor
  · rintro ⟨entry, hfind, rfl⟩
    have hmem := nodeMap.lookup_eq_some_iff.mpr (List.mem_of_find?_eq_some hfind)
    have hentry := List.find?_some hfind
    rw [decide_eq_true_eq] at hentry
    exact ⟨entry.2, hmem, hentry⟩
  · rintro ⟨node, hlookup, hid, hconnected⟩
    have hmem := nodeMap.lookup_eq_some_iff.mp hlookup
    have hsome : (nodeMap.entries.find? fun node => node.2.nodeId = id ∧ node.2.connected).isSome =
        true := by
      rw [List.find?_isSome]
      exact ⟨(a, node), hmem, decide_eq_true ⟨hid, hconnected⟩⟩
    obtain ⟨entry, hfind⟩ := Option.isSome_iff_exists.mp hsome
    have hentry := List.find?_some hfind
    rw [decide_eq_true_eq] at hentry
    have hlookup' := nodeMap.lookup_eq_some_iff.mpr (List.mem_of_find?_eq_some hfind)
    exact ⟨entry, hfind, hunique hlookup' hlookup hentry.1 hid hentry.2 hconnected⟩

variable {NodeInfo : Type} [Header NodeInfo] {s : Console NodeInfo} {r : Roster MacAddress}

/-- The console that a roster has in the place of an id. -/
def Roster.SeatedAs (r : Roster MacAddress) (id : UInt16) (a : MacAddress) : Prop :=
  ∃ place, r.role a = some (.seated place) ∧ id = placeId place

theorem Represents.seatedAs_iff (h : Represents s r) {id : UInt16}
    (hspec : id ≠ Header.nodeIDSpec NodeInfo) {a : MacAddress} :
    (∃ node, s.nodeMap.lookup a = some node ∧ node.nodeId = id ∧ node.connected = true) ↔
      r.SeatedAs id a := by
  rw [h.nodeMap a]
  constructor
  · rintro ⟨node, hnode, rfl, hconnected⟩
    obtain ⟨role, hrole, rfl⟩ := Option.map_eq_some_iff.mp hnode
    cases role with
    | waiting => simp at hconnected
    | watching => exact absurd rfl hspec
    | seated place => exact ⟨place, hrole, rfl⟩
  · rintro ⟨place, hrole, rfl⟩
    exact ⟨_, by rw [hrole]; rfl, rfl, rfl⟩

theorem Represents.seatedAs_inj (h : Represents s r) {id : UInt16} {a b : MacAddress}
    (ha : r.SeatedAs id a) (hb : r.SeatedAs id b) : a = b := by
  obtain ⟨place, hplace, rfl⟩ := ha
  obtain ⟨other, hother, heq⟩ := hb
  have hsame := placeId_inj (h.lt_udsMaxNodes (r.mem_places hplace))
    (h.lt_udsMaxNodes (r.mem_places hother)) heq
  exact r.seated_inj hplace (hsame ▸ hother)

/-- A host finds the console in the place of an id. -/
theorem Represents.addressOf (h : Represents s r) {id : UInt16}
    (hspec : id ≠ Header.nodeIDSpec NodeInfo) {a : MacAddress} :
    s.nodeMap.addressOf id = some a ↔ r.SeatedAs id a := by
  rw [addressOf_eq_some_iff, h.seatedAs_iff hspec]
  intro b c node node' hb hc hid hid' hconnected hconnected'
  exact h.seatedAs_inj ((h.seatedAs_iff hspec).mp ⟨node, hb, hid, hconnected⟩)
    ((h.seatedAs_iff hspec).mp ⟨node', hc, hid', hconnected'⟩)

/-- So does a console that was told the node map of the host, also for the id of spectators. -/
theorem Represents.addressOf_broadcast (h : Represents s r) {id : UInt16} {a : MacAddress} :
    s.nodeMap.broadcast.addressOf id = some a ↔ r.SeatedAs id a := by
  have hlookup (b : MacAddress) (node : Node) : s.nodeMap.broadcast.lookup b = some node ↔
      ∃ place, r.role b = some (.seated place) ∧
        node = { connected := true, nodeId := placeId place } := by
    rw [lookup_broadcast, h.nodeMap b, Option.map_eq_some_iff]
    simp only [Option.filter_eq_some_iff, Option.map_eq_some_iff]
    constructor
    · rintro ⟨node, ⟨⟨role, hrole, rfl⟩, hcan⟩, rfl⟩
      cases role with
      | waiting => simp [nodeCanBroad] at hcan
      | watching => simp [nodeCanBroad] at hcan
      | seated place => exact ⟨place, hrole, rfl⟩
    · rintro ⟨place, hrole, rfl⟩
      exact ⟨_, ⟨⟨_, hrole, rfl⟩, by simp [nodeCanBroad]⟩, rfl⟩
  have hseated (b : MacAddress) :
      (∃ node, s.nodeMap.broadcast.lookup b = some node ∧ node.nodeId = id ∧
        node.connected = true) ↔ r.SeatedAs id b := by
    constructor
    · rintro ⟨node, hnode, rfl, -⟩
      obtain ⟨place, hrole, rfl⟩ := (hlookup b node).mp hnode
      exact ⟨place, hrole, rfl⟩
    · rintro ⟨place, hrole, rfl⟩
      exact ⟨_, (hlookup b _).mpr ⟨place, hrole, rfl⟩, rfl, rfl⟩
  rw [addressOf_eq_some_iff, hseated]
  intro b c node node' hb hc hid hid' hconnected hconnected'
  exact h.seatedAs_inj ((hseated b).mp ⟨node, hb, hid, hconnected⟩)
    ((hseated c).mp ⟨node', hc, hid', hconnected'⟩)

/-- **Client and host agree on addresses.** A console that reads the node map packet of a host
sends to the same address as the host whatever is for a client. -/
theorem getNodeMacAddress_of_nodeMap
    (hreach : (consoleSystem NodeInfo).ReachableVia FromCleanTables s)
    (hinit : s.initialized = true) (hstatus : s.connectionStatus.status = .connectedAsHost)
    {around : Surroundings} {packet : WifiPacket NodeInfo}
    (hsent : packet ∈ broadcastNodeMap around s) {client : Console NodeInfo}
    (hclient : client.initialized = true)
    (hmember : client.connectionStatus.status ≠ .connectedAsHost) (around' : Surroundings) :
    ∃ out, onWifiPacketReceived around' client packet = some out ∧
      ∀ id flags, id ≠ hostDestNodeId → id ≠ Header.nodeIDSpec NodeInfo →
        getNodeMacAddress out.console id flags = getNodeMacAddress s id flags := by
  have hframe : packet.frame = .nodeMap (nodeMapData s.nodeMap) := by
    unfold broadcastNodeMap sendPacket at hsent
    split at hsent
    · rw [List.mem_singleton] at hsent
      rw [hsent]
    · cases hsent
  refine ⟨{ console := { client with nodeMap := s.nodeMap.broadcast } }, ?_, ?_⟩
  · simp [onWifiPacketReceived, hclient, hframe, handleNodeMapPacket, hmember,
      readNodeMap_nodeMapData]
  · intro id flags hhost hspec
    unfold getNodeMacAddress
    split
    · rfl
    · rcases (sound_of_reachable hreach).hosting hinit hstatus with habandoned | ⟨r, hr⟩
      · rw [habandoned.nodeMap]
        rfl
      · exact Option.ext fun a => hr.addressOf_broadcast.trans (hr.addressOf hspec).symm

/-- A console reads where the one that plays with the host is. -/
theorem getNodeMacAddress_of_nodeMap_crowded : ∃ (s : Console PlainNode)
    (packet : WifiPacket PlainNode) (out : Outcome PlainNode),
    s.nodeMap.lookup (Vector.replicate 6 2) = some { connected := true, nodeId := 2 } ∧
      onWifiPacketReceived sampleSurroundings (initializeWithVersion newConsole {}) packet =
        some out ∧
      ∀ id flags, id ≠ hostDestNodeId → id ≠ Header.nodeIDSpec PlainNode →
        getNodeMacAddress out.console id flags = getNodeMacAddress s id flags := by
  obtain ⟨s, hreach, hcrowded⟩ := exists_crowded
  have hsent : ∃ packet, packet ∈ broadcastNodeMap sampleSurroundings s :=
    ⟨_, List.mem_singleton_self _⟩
  obtain ⟨packet, hpacket⟩ := hsent
  have hclient : (initializeWithVersion newConsole {}).initialized = true := rfl
  obtain ⟨out, hout⟩ := getNodeMacAddress_of_nodeMap hreach hcrowded.initialized hcrowded.status
    hpacket hclient (by decide) sampleSurroundings
  exact ⟨s, packet, out, hcrowded.plays, hout⟩

end ManicRoom.Uds
