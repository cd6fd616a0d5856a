/-
# The tables of a host refine its roster

A host keeps its network five times over: as a bit mask and a table of ids in the connection
status, as the list of node records, as two counters and as the node map. Each packet and each
call of the game updates some of them, and as long as the network is hosted all of them say
the same: what the roster of `Uds.Roster` says.
-/

import ManicRoom.Foundation.Bits
import ManicRoom.Uds.Calls
import ManicRoom.Uds.Roster
import Mathlib.Data.Finset.Range

namespace ManicRoom.Uds

open ManicRoom.Foundation ManicRoom.Member

/-- The node id of a place. -/
def placeId (place : ℕ) : UInt16 := UInt16.ofNat (place + 1)

theorem toNat_placeId {place : ℕ} (h : place < udsMaxNodes) :
    (placeId place).toNat = place + 1 := by
  have hlt : place < 16 := h
  rw [placeId, UInt16.toNat_ofNat']
  exact Nat.mod_eq_of_lt (by omega)

theorem placeId_ne_zero {place : ℕ} (h : place < udsMaxNodes) : placeId place ≠ 0 := by
  intro heq
  have hnat := toNat_placeId h
  rw [heq] at hnat
  simp at hnat

theorem placeId_inj {first second : ℕ} (hfirst : first < udsMaxNodes)
    (hsecond : second < udsMaxNodes) (h : placeId first = placeId second) : first = second := by
  have hnat := toNat_placeId hfirst
  rw [h, toNat_placeId hsecond] at hnat
  omega

variable {NodeInfo : Type} [Header NodeInfo]

theorem placeId_ne_nodeIDSpec {place : ℕ} (h : place < udsMaxNodes) :
    placeId place ≠ Header.nodeIDSpec NodeInfo := by
  intro heq
  have hid : Header.nodeIDSpec NodeInfo = 0 ∨ udsMaxNodes < (Header.nodeIDSpec NodeInfo).toNat :=
    Header.nodeIDSpec_eq_or_lt
  rcases hid with hspec | hspec
  · exact placeId_ne_zero h (heq.trans hspec)
  · rw [← heq, toNat_placeId h] at hspec
    omega

variable (NodeInfo) in
/-- The entry of the node map for a console in a role. -/
def Role.node : Role → Node
  | .waiting => { connected := false }
  | .watching => { connected := true, spec := true, nodeId := Header.nodeIDSpec NodeInfo }
  | .seated place => { connected := true, spec := false, nodeId := placeId place }

@[simp]
theorem Role.connected_node (role : Role) :
    (role.node NodeInfo).connected = decide (role ≠ .waiting) := by
  cases role <;> rfl

@[simp]
theorem Role.spec_node (role : Role) :
    (role.node NodeInfo).spec = decide (role = .watching) := by
  cases role <;> rfl

/-- The tables of a console that hosts say what the roster says. -/
structure Represents (s : Console NodeInfo) (r : Roster MacAddress) : Prop where
  status : s.connectionStatus.status = .connectedAsHost
  self : s.connectionStatus.networkNodeId = 1
  capacity_le : r.capacity ≤ udsMaxNodes
  one_lt_capacity : 1 < r.capacity
  maxNodes : s.connectionStatus.maxNodes.toNat = r.capacity
  infoMaxNodes : s.networkInfo.maxNodes = s.connectionStatus.maxNodes
  bitmask : bits s.connectionStatus.nodeBitmask = r.places
  nodes : ∀ (i : ℕ) (hi : i < udsMaxNodes),
    s.connectionStatus.nodes[i] = if i ∈ r.places then placeId i else 0
  length_nodeInfo : s.nodeInfo.length = r.capacity
  nodeInfo : ∀ (i : ℕ) (hi : i < s.nodeInfo.length),
    networkNodeId s.nodeInfo[i] = if i ∈ r.places then placeId i else 0
  totalNodes : s.connectionStatus.totalNodes.toNat = r.places.card
  infoTotalNodes : s.networkInfo.totalNodes = s.connectionStatus.totalNodes
  nodeMap : ∀ a, s.nodeMap.lookup a = (r.role a).map (Role.node NodeInfo)

namespace Represents

variable {s s' : Console NodeInfo} {r : Roster MacAddress}

/-- What does not touch the tables keeps what they say. -/
theorem congr (h : Represents s r) (hcs : s'.connectionStatus = s.connectionStatus)
    (hinfo : s'.networkInfo = s.networkInfo) (hnodes : s'.nodeInfo = s.nodeInfo)
    (hmap : s'.nodeMap = s.nodeMap) : Represents s' r where
  status := by rw [hcs]; exact h.status
  self := by rw [hcs]; exact h.self
  capacity_le := h.capacity_le
  one_lt_capacity := h.one_lt_capacity
  maxNodes := by rw [hcs]; exact h.maxNodes
  infoMaxNodes := by rw [hcs, hinfo]; exact h.infoMaxNodes
  bitmask := by rw [hcs]; exact h.bitmask
  nodes := by rw [hcs]; exact h.nodes
  length_nodeInfo := by rw [hnodes]; exact h.length_nodeInfo
  nodeInfo := by
    intro i hi
    simp only [hnodes]
    exact h.nodeInfo i (hnodes ▸ hi)
  totalNodes := by rw [hcs]; exact h.totalNodes
  infoTotalNodes := by rw [hcs, hinfo]; exact h.infoTotalNodes
  nodeMap := by rw [hmap]; exact h.nodeMap

/-- Forgetting which nodes changed keeps what the tables say. -/
theorem clearChanged (h : Represents s r) :
    Represents { s with connectionStatus := { s.connectionStatus with changedNodes := 0 } } r where
  status := h.status
  self := h.self
  capacity_le := h.capacity_le
  one_lt_capacity := h.one_lt_capacity
  maxNodes := h.maxNodes
  infoMaxNodes := h.infoMaxNodes
  bitmask := h.bitmask
  nodes := h.nodes
  length_nodeInfo := h.length_nodeInfo
  nodeInfo := h.nodeInfo
  totalNodes := h.totalNodes
  infoTotalNodes := h.infoTotalNodes
  nodeMap := h.nodeMap

theorem lt_udsMaxNodes (h : Represents s r) {place : ℕ} (hmem : place ∈ r.places) :
    place < udsMaxNodes :=
  (r.lt_capacity hmem).trans_le h.capacity_le

/-- The counters are equal exactly if every place is taken. -/
theorem maxNodes_eq_totalNodes_iff (h : Represents s r) :
    s.connectionStatus.maxNodes = s.connectionStatus.totalNodes ↔
      r.places.card = r.capacity := by
  rw [← UInt8.toNat_inj, h.maxNodes, h.totalNodes]
  exact eq_comm

/-- The id the host gives away is that of the lowest free place. -/
theorem getNextAvailableNodeId_eq_some (h : Represents s r) {id : UInt16} :
    getNextAvailableNodeId s.connectionStatus = some id ↔
      ∃ place < r.capacity, place ∉ r.places ∧ (∀ lower < place, lower ∈ r.places) ∧
        id = placeId place := by
  have hclear (place : ℕ) (hplace : place < r.capacity) :
      s.connectionStatus.nodeBitmask &&& BitVec.ofNat udsMaxNodes 1 <<< place = 0 ↔
        place ∉ r.places := by
    rw [and_one_shiftLeft_eq_zero (hplace.trans_le h.capacity_le), h.bitmask]
  simp only [getNextAvailableNodeId, h.maxNodes, Option.map_eq_some_iff, List.find?_range_eq_some,
    List.mem_range, decide_eq_true_eq, Bool.not_eq_true', decide_eq_false_iff_not]
  constructor
  · rintro ⟨place, ⟨hzero, hlt, hlower⟩, rfl⟩
    refine ⟨place, hlt, (hclear place hlt).mp hzero, fun lower hless => ?_, rfl⟩
    by_contra hfree
    exact hlower lower hless ((hclear lower (hless.trans hlt)).mpr hfree)
  · rintro ⟨place, hlt, hfree, hlower, rfl⟩
    refine ⟨place, ⟨(hclear place hlt).mpr hfree, hlt, fun lower hless hzero => ?_⟩, rfl⟩
    exact (hclear lower (hless.trans hlt)).mp hzero (hlower lower hless)

/-- While there is room the search for a free place succeeds. -/
theorem exists_getNextAvailableNodeId (h : Represents s r) (hroom : r.places.card < r.capacity) :
    ∃ id, getNextAvailableNodeId s.connectionStatus = some id := by
  have hfree := Roster.exists_free hroom
  refine ⟨placeId (Nat.find hfree), h.getNextAvailableNodeId_eq_some.mpr
    ⟨Nat.find hfree, (Nat.find_spec hfree).1, (Nat.find_spec hfree).2, fun lower hless => ?_, rfl⟩⟩
  have hmin := Nat.find_min hfree hless
  by_contra hmem
  exact hmin ⟨hless.trans (Nat.find_spec hfree).1, hmem⟩

/-- **A client is seated.** All five tables take it up in the place it was given. -/
theorem admitClient (h : Represents s r) {a : MacAddress} {place : ℕ} (hlt : place < r.capacity)
    (hfree : place ∉ r.places) (ha : ∀ other, r.role a ≠ some (.seated other)) {node : NodeInfo}
    (hnode : networkNodeId node = placeId place) :
    ∃ s', Uds.admitClient s a node (placeId place) = some s' ∧
      Represents s' (r.seat a place hlt hfree ha) := by
  have hmax : place < udsMaxNodes := hlt.trans_le h.capacity_le
  have hindex : (placeId place).toNat - 1 = place := by
    rw [toNat_placeId hmax]
    exact Nat.add_sub_cancel place 1
  have hbounds : (placeId place).toNat - 1 < udsMaxNodes ∧
      (placeId place).toNat - 1 < s.nodeInfo.length := by
    rw [hindex, h.length_nodeInfo]
    exact ⟨hmax, hlt⟩
  have hroom : r.places.card < r.capacity := by
    apply (r.card_places_le).lt_of_ne
    intro hfull
    have hall := Finset.eq_of_subset_of_card_le
      (fun p hp => Finset.mem_range.mpr (r.lt_capacity hp) : r.places ⊆ Finset.range r.capacity)
      (by rw [Finset.card_range, hfull])
    exact hfree (hall ▸ Finset.mem_range.mpr hlt)
  have htotal : (s.connectionStatus.totalNodes + 1).toNat = (insert place r.places).card := by
    have hcap := h.capacity_le
    have hsmall : r.places.card < 16 := hroom.trans_le hcap
    rw [Finset.card_insert_of_notMem hfree, UInt8.toNat_add, h.totalNodes]
    exact Nat.mod_eq_of_lt (by simp; omega)
  simp only [Uds.admitClient, dif_pos hbounds]
  refine ⟨_, rfl, ?_⟩
  exact
    { status := h.status
      self := h.self
      capacity_le := h.capacity_le
      one_lt_capacity := h.one_lt_capacity
      maxNodes := h.maxNodes
      infoMaxNodes := h.infoMaxNodes
      bitmask := by
        simp only [hindex]
        rw [bits_or_one_shiftLeft _ hmax, h.bitmask]
        rfl
      nodes := by
        intro i hi
        simp only [hindex, Roster.seat, Finset.mem_insert, Vector.getElem_set, h.nodes i hi]
        by_cases heq : place = i
        · simp [heq]
        · simp [heq, Ne.symm heq]
      length_nodeInfo := by
        rw [List.length_set]
        exact h.length_nodeInfo
      nodeInfo := by
        intro i hi
        rw [List.length_set] at hi
        simp only [hindex, Roster.seat, Finset.mem_insert, List.getElem_set]
        by_cases heq : place = i
        · rw [heq] at hnode
          simp [heq, hnode]
        · simp [heq, Ne.symm heq, h.nodeInfo i hi]
      totalNodes := htotal
      infoTotalNodes := by
        simp only [h.infoTotalNodes]
      nodeMap := by
        intro b
        rw [OrderedMap.lookup_insert, h.nodeMap b]
        by_cases hb : b = a
        · subst hb
          simp [Roster.seat, Role.node]
        · simp [Roster.seat, hb] }

/-- A console that is given a role without a place, or none, in the node map alone. -/
theorem assign (h : Represents s r) {a : MacAddress} {role : Option Role}
    (hrole : ∀ place, role ≠ some (.seated place))
    (ha : ∀ place, r.role a ≠ some (.seated place)) {nodeMap : NodeMap}
    (hmap : ∀ b, nodeMap.lookup b =
      if b = a then role.map (Role.node NodeInfo) else s.nodeMap.lookup b) :
    Represents { s with nodeMap } (r.assign a role hrole ha) where
  status := h.status
  self := h.self
  capacity_le := h.capacity_le
  one_lt_capacity := h.one_lt_capacity
  maxNodes := h.maxNodes
  infoMaxNodes := h.infoMaxNodes
  bitmask := h.bitmask
  nodes := h.nodes
  length_nodeInfo := h.length_nodeInfo
  nodeInfo := h.nodeInfo
  totalNodes := h.totalNodes
  infoTotalNodes := h.infoTotalNodes
  nodeMap := by
    intro b
    rw [hmap b, h.nodeMap b]
    by_cases hb : b = a
    · simp [hb, Roster.assign]
    · simp [hb, Roster.assign]

/-- The ids of the node records, after one of them was reset. -/
theorem networkNodeId_modify_reset {nodes : List NodeInfo} {position i : ℕ}
    (hi : i < nodes.length) (hi' : i < (nodes.modify position Header.reset).length) :
    networkNodeId (nodes.modify position Header.reset)[i] =
      if position = i then 0 else networkNodeId nodes[i] := by
  rw [List.getElem_modify]
  split
  · exact Header.networkNodeId_reset _
  · rfl

/-- A record without a taken place can be reset. -/
theorem resetFree (h : Represents s r) {position : ℕ} (hposition : position ∉ r.places) :
    Represents { s with nodeInfo := s.nodeInfo.modify position Header.reset } r where
  status := h.status
  self := h.self
  capacity_le := h.capacity_le
  one_lt_capacity := h.one_lt_capacity
  maxNodes := h.maxNodes
  infoMaxNodes := h.infoMaxNodes
  bitmask := h.bitmask
  nodes := h.nodes
  length_nodeInfo := by
    rw [List.length_modify]
    exact h.length_nodeInfo
  nodeInfo := by
    intro i hi
    have hlength : i < s.nodeInfo.length := by simpa using hi
    rw [networkNodeId_modify_reset hlength]
    split
    · next heq =>
      rw [← heq, if_neg hposition]
    · exact h.nodeInfo i hlength
  totalNodes := h.totalNodes
  infoTotalNodes := h.infoTotalNodes
  nodeMap := h.nodeMap

/-- The record with the id of a taken place is the one at that place. -/
theorem findIdx?_placeId (h : Represents s r) {place : ℕ} (hmem : place ∈ r.places) :
    s.nodeInfo.findIdx? (fun info => networkNodeId info = placeId place) = some place := by
  have hplace := h.lt_udsMaxNodes hmem
  have hlength : place < s.nodeInfo.length := h.length_nodeInfo ▸ r.lt_capacity hmem
  rw [List.findIdx?_eq_some_iff_getElem]
  refine ⟨hlength, by simp [h.nodeInfo place hlength, hmem], fun other hless hother => ?_⟩
  have hid := h.nodeInfo other (hless.trans hlength)
  have heq : networkNodeId s.nodeInfo[other] = placeId place := by simpa using hother
  rw [heq] at hid
  split at hid
  · exact absurd (placeId_inj hplace (hless.trans hplace) hid) (by omega)
  · exact placeId_ne_zero hplace hid

/-- What the host makes of its state when the client in a place goes. -/
def withoutClient (s : Console NodeInfo) (a : MacAddress) (place : ℕ)
    (h : place < udsMaxNodes) : Console NodeInfo :=
  { s with
    nodeMap := s.nodeMap.erase a
    nodeInfo := s.nodeInfo.modify place Header.reset
    connectionStatus :=
      { s.connectionStatus with
        nodeBitmask := s.connectionStatus.nodeBitmask &&& ~~~(BitVec.ofNat udsMaxNodes 1 <<< place)
        changedNodes := s.connectionStatus.changedNodes ||| BitVec.ofNat udsMaxNodes 1 <<< place
        totalNodes := s.connectionStatus.totalNodes - 1
        nodes := s.connectionStatus.nodes.set place 0 h }
    networkInfo := { s.networkInfo with totalNodes := s.networkInfo.totalNodes - 1 } }

/-- **A client goes.** All five tables give its place up. -/
theorem leave (h : Represents s r) {a : MacAddress} {place : ℕ}
    (ha : r.role a = some (.seated place)) (hmax : place < udsMaxNodes) :
    Represents (withoutClient s a place hmax) (r.leave a place ha) where
  status := h.status
  self := h.self
  capacity_le := h.capacity_le
  one_lt_capacity := h.one_lt_capacity
  maxNodes := h.maxNodes
  infoMaxNodes := h.infoMaxNodes
  bitmask := by
    simp only [withoutClient]
    rw [bits_and_not_one_shiftLeft _ hmax, h.bitmask]
    rfl
  nodes := by
    intro i hi
    simp only [withoutClient, Roster.leave, Finset.mem_erase, Vector.getElem_set, h.nodes i hi]
    by_cases heq : place = i
    · simp [heq]
    · simp [heq, Ne.symm heq]
  length_nodeInfo := by
    simp only [withoutClient, List.length_modify]
    exact h.length_nodeInfo
  nodeInfo := by
    intro i hi
    have hlength : i < s.nodeInfo.length := by simpa [withoutClient] using hi
    simp only [withoutClient, Roster.leave, Finset.mem_erase]
    rw [networkNodeId_modify_reset hlength, h.nodeInfo i hlength]
    by_cases heq : place = i
    · simp [heq]
    · simp [heq, Ne.symm heq]
  totalNodes := by
    have hmem := r.mem_places ha
    have hpos : 0 < r.places.card := Finset.card_pos.mpr ⟨place, hmem⟩
    have hone : 1 ≤ s.connectionStatus.totalNodes := by
      rw [UInt8.le_iff_toNat_le, h.totalNodes]
      exact hpos
    simp only [withoutClient, Roster.leave]
    rw [UInt8.toNat_sub_of_le _ _ hone, h.totalNodes, Finset.card_erase_of_mem hmem]
    rfl
  infoTotalNodes := by
    simp only [withoutClient, h.infoTotalNodes]
  nodeMap := by
    intro b
    simp only [withoutClient, Roster.leave]
    rw [OrderedMap.lookup_erase, h.nodeMap b]
    by_cases hb : b = a
    · simp [hb]
    · simp [hb]

end Represents

end ManicRoom.Uds
