/-
# What a client sees of its network

A client learns about its network from the logoff frames of the host, which it hears whenever
somebody joins. It goes over the node records in such a frame one by one; afterwards its
tables are those that the records make, whatever it had before. What a frame carries is not said
here: only that it was made from the tables of a host.
-/

import ManicRoom.Uds.Handlers
import ManicRoom.Uds.Hosting

namespace ManicRoom.Uds

open ManicRoom.Foundation ManicRoom.Member

variable {NodeInfo : Type} [Header NodeInfo]

/-! ## The records of a frame -/

/-- The places of the records of a frame. -/
def recordedPlaces (nodes : List NodeInfo) : Finset ℕ :=
  (nodes.filterMap fun node =>
    if networkNodeId node = 0 then none else some ((networkNodeId node).toNat - 1)).toFinset

/-- The last record of a frame for an id. -/
def lastRecord (nodes : List NodeInfo) (id : UInt16) : Option NodeInfo :=
  nodes.reverse.find? fun node => networkNodeId node = id

/-- The console has the tables that the records of a frame make: the bit mask, the table of ids
and the counter, and for every node id the record of the frame. -/
structure Sees (s : Console NodeInfo) (logoff : EAPoLLogoff NodeInfo) : Prop where
  nodeBitmask : bits s.connectionStatus.nodeBitmask = recordedPlaces logoff.nodes
  nodes : ∀ (i : ℕ) (hi : i < udsMaxNodes), s.connectionStatus.nodes[i] =
    if i ∈ recordedPlaces logoff.nodes then placeId i else 0
  totalNodes : s.connectionStatus.totalNodes = logoff.connectedNodes
  nodeInformation : ∀ id, id ≠ 0 → getNodeInformationHLE s id = lastRecord logoff.nodes id

theorem mem_recordedPlaces {nodes : List NodeInfo} {place : ℕ} :
    place ∈ recordedPlaces nodes ↔
      ∃ node ∈ nodes, networkNodeId node ≠ 0 ∧ (networkNodeId node).toNat - 1 = place := by
  simp only [recordedPlaces, List.mem_toFinset, List.mem_filterMap, Option.ite_none_left_eq_some,
    Option.some.injEq, ne_eq]

theorem recordedPlaces_cons_of_eq_zero {node : NodeInfo} (hid : networkNodeId node = 0)
    (nodes : List NodeInfo) : recordedPlaces (node :: nodes) = recordedPlaces nodes := by
  simp [recordedPlaces, hid]

theorem recordedPlaces_cons {node : NodeInfo} (hid : networkNodeId node ≠ 0)
    (nodes : List NodeInfo) :
    recordedPlaces (node :: nodes) =
      insert ((networkNodeId node).toNat - 1) (recordedPlaces nodes) := by
  simp [recordedPlaces, hid]

theorem lastRecord_cons (node : NodeInfo) (nodes : List NodeInfo) (id : UInt16) :
    lastRecord (node :: nodes) id =
      (lastRecord nodes id).or (if networkNodeId node = id then some node else none) := by
  rw [lastRecord, List.reverse_cons, List.find?_append, List.find?_singleton]
  simp [lastRecord]

theorem networkNodeId_of_lastRecord {nodes : List NodeInfo} {id : UInt16} {node : NodeInfo}
    (h : lastRecord nodes id = some node) : networkNodeId node = id := by
  have hid := List.find?_some h
  rwa [decide_eq_true_eq] at hid

theorem placeId_pred {id : UInt16} (hid : id ≠ 0) : placeId (id.toNat - 1) = id := by
  have hpos : id.toNat ≠ 0 := by
    intro hzero
    exact hid (UInt16.toNat_inj.mp hzero)
  rw [placeId, Nat.sub_add_cancel (Nat.one_le_iff_ne_zero.mpr hpos), UInt16.ofNat_toNat]

theorem exists_lastRecord {nodes : List NodeInfo} {place : ℕ} (h : place ∈ recordedPlaces nodes) :
    ∃ node, lastRecord nodes (placeId place) = some node := by
  obtain ⟨node, hmem, hid, rfl⟩ := mem_recordedPlaces.mp h
  have hsome : (lastRecord nodes (placeId ((networkNodeId node).toNat - 1))).isSome = true := by
    rw [lastRecord, List.find?_isSome]
    exact ⟨node, List.mem_reverse.mpr hmem, by simp [placeId_pred hid]⟩
  exact Option.isSome_iff_exists.mp hsome

theorem lastRecord_eq_none {nodes : List NodeInfo} {id : UInt16} (hid : id ≠ 0)
    (h : ∀ place ∈ recordedPlaces nodes, id ≠ placeId place) : lastRecord nodes id = none := by
  rw [lastRecord, List.find?_eq_none]
  intro node hmem heq
  have hnode : networkNodeId node = id := of_decide_eq_true heq
  have hnonzero : networkNodeId node ≠ 0 := hnode ▸ hid
  refine h _ (mem_recordedPlaces.mpr ⟨node, List.mem_reverse.mp hmem, hnonzero, rfl⟩) ?_
  rw [placeId_pred hnonzero, hnode]

/-- A list of node records in which those of the places have the ids of the places. -/
def Placed (places : Finset ℕ) (nodes : List NodeInfo) : Prop :=
  ∀ (i : ℕ) (hi : i < nodes.length),
    networkNodeId nodes[i] = if i ∈ places then placeId i else 0

theorem Placed.find?_eq_none {places : Finset ℕ} {nodes : List NodeInfo} (h : Placed places nodes)
    {id : UInt16} (hid : id ≠ 0) (hfree : ∀ place ∈ places, id ≠ placeId place) :
    nodes.find? (fun node => networkNodeId node = id) = none := by
  rw [List.find?_eq_none]
  intro node hmem heq
  obtain ⟨i, hi, rfl⟩ := List.mem_iff_getElem.mp hmem
  have hnode := h i hi
  rw [of_decide_eq_true heq] at hnode
  split at hnode
  · next hplace => exact hfree i hplace hnode
  · exact hid hnode

theorem Placed.find?_placeId {places : Finset ℕ} {nodes : List NodeInfo} (h : Placed places nodes)
    (hmax : ∀ place ∈ places, place < udsMaxNodes) {place : ℕ} (hplace : place ∈ places)
    (hlength : place < nodes.length) :
    nodes.find? (fun node => networkNodeId node = placeId place) = some nodes[place] := by
  rw [List.find?_eq_some_iff_getElem]
  refine ⟨by simp [h place hlength, hplace], place, hlength, rfl, fun other hless => ?_⟩
  have hother := h other (hless.trans hlength)
  have hne : networkNodeId nodes[other] ≠ placeId place := by
    rw [hother]
    split
    · next hmem =>
      intro heq
      have hsame := placeId_inj (hmax other hmem) (hmax place hplace) heq
      omega
    · exact (placeId_ne_zero (hmax place hplace)).symm
  simp [hne]

/-! ## The loop over the records -/

/-- What the loop over the records of a frame makes of the tables. -/
structure Recorded (nodes : List NodeInfo) (start view : ConnectionStatus × List NodeInfo) :
    Prop where
  nodeBitmask : bits view.1.nodeBitmask = bits start.1.nodeBitmask ∪ recordedPlaces nodes
  nodesTable : ∀ (i : ℕ) (hi : i < udsMaxNodes), view.1.nodes[i] =
    if i ∈ recordedPlaces nodes then placeId i else start.1.nodes[i]
  within : ∀ place ∈ recordedPlaces nodes, place < udsMaxNodes ∧ place < start.2.length
  length : view.2.length = start.2.length
  records : ∀ i, view.2[i]? =
    if i ∈ recordedPlaces nodes then lastRecord nodes (placeId i) else start.2[i]?
  totalNodes : view.1.totalNodes = start.1.totalNodes
  networkNodeId : view.1.networkNodeId = start.1.networkNodeId
  status : view.1.status = start.1.status

/-- One record with an id, before the others. -/
theorem recorded_cons {node : NodeInfo} {nodes : List NodeInfo} {marksChanged : Bool}
    {start middle view : ConnectionStatus × List NodeInfo} (hid : networkNodeId node ≠ 0)
    (hstep : recordNode marksChanged start node = some middle) (h : Recorded nodes middle view) :
    Recorded (node :: nodes) start view := by
  simp only [recordNode, if_neg hid] at hstep
  split at hstep
  · next hbounds =>
    cases hstep
    have hplaces := recordedPlaces_cons hid nodes
    have hown := placeId_pred hid
    exact
      { nodeBitmask := by
          rw [h.nodeBitmask, bits_or_one_shiftLeft _ hbounds.1, hplaces, Finset.insert_union,
            Finset.union_insert]
        nodesTable := by
          intro i hi
          rw [h.nodesTable i hi, hplaces]
          by_cases heq : (networkNodeId node).toNat - 1 = i
          · subst heq
            simp [hown]
          · simp [Ne.symm heq, heq]
        within := by
          intro place hplace
          rw [hplaces, Finset.mem_insert] at hplace
          rcases hplace with rfl | hplace
          · exact hbounds
          · simpa using h.within place hplace
        length := by simpa using h.length
        records := by
          intro i
          rw [h.records i, hplaces, lastRecord_cons]
          by_cases hmem : i ∈ recordedPlaces nodes
          · obtain ⟨last, hlast⟩ := exists_lastRecord hmem
            simp [hmem, hlast]
          · by_cases heq : (networkNodeId node).toNat - 1 = i
            · subst heq
              have hnone : lastRecord nodes (networkNodeId node) = none := by
                refine lastRecord_eq_none hid fun place hplace heq => hmem ?_
                have hlt := (h.within place hplace).1
                have hsame : (networkNodeId node).toNat - 1 = place := by
                  rw [heq, toNat_placeId hlt]
                  exact Nat.add_sub_cancel place 1
                exact hsame ▸ hplace
              simp [hmem, hown, hnone, hbounds.2]
            · simp [hmem, Ne.symm heq, heq]
        totalNodes := h.totalNodes
        networkNodeId := h.networkNodeId
        status := h.status }
  · cases hstep

/-- The whole loop. -/
theorem recorded_foldlM {nodes : List NodeInfo} {marksChanged : Bool}
    {start view : ConnectionStatus × List NodeInfo}
    (h : nodes.foldlM (recordNode marksChanged) start = some view) :
    Recorded nodes start view := by
  induction nodes generalizing start with
  | nil =>
      cases h
      exact ⟨by simp [recordedPlaces], by simp [recordedPlaces], by simp [recordedPlaces], rfl,
        by simp [recordedPlaces], rfl, rfl, rfl⟩
  | cons node nodes ih =>
      rw [List.foldlM_cons, Option.bind_eq_bind, Option.bind_eq_some_iff] at h
      obtain ⟨middle, hmiddle, hrest⟩ := h
      by_cases hid : networkNodeId node = 0
      · rw [recordNode, if_pos hid, Option.some.injEq] at hmiddle
        subst hmiddle
        obtain ⟨hbitmask, htable, hwithin, hlength, hrecords, htotal, hself, hstatus⟩ := ih hrest
        have hplaces := recordedPlaces_cons_of_eq_zero hid nodes
        refine ⟨hplaces ▸ hbitmask, hplaces ▸ htable, hplaces ▸ hwithin, hlength, ?_, htotal,
          hself, hstatus⟩
        intro i
        rw [hrecords i, hplaces]
        by_cases hmem : i ∈ recordedPlaces nodes
        · obtain ⟨last, hlast⟩ := exists_lastRecord hmem
          simp [hmem, lastRecord_cons, hlast]
        · simp [hmem]
      · exact recorded_cons hid hmiddle (ih hrest)

/-- Tables that were empty before the loop are those that the records make. -/
theorem Recorded.sees {s : Console NodeInfo} {logoff : EAPoLLogoff NodeInfo}
    {start view : ConnectionStatus × List NodeInfo} (h : Recorded logoff.nodes start view)
    (hmask : start.1.nodeBitmask = 0) (hnodes : start.1.nodes = Vector.replicate udsMaxNodes 0)
    {length : ℕ} (hrecords : start.2 = List.replicate length Header.blank)
    (htotal : start.1.totalNodes = logoff.connectedNodes)
    (hsmask : s.connectionStatus.nodeBitmask = view.1.nodeBitmask)
    (hsnodes : s.connectionStatus.nodes = view.1.nodes)
    (hstotal : s.connectionStatus.totalNodes = view.1.totalNodes)
    (hsrecords : s.nodeInfo = view.2) : Sees s logoff := by
  have hmax : ∀ place ∈ recordedPlaces logoff.nodes, place < udsMaxNodes :=
    fun place hplace => (h.within place hplace).1
  have hwithin : ∀ place ∈ recordedPlaces logoff.nodes, place < s.nodeInfo.length := by
    intro place hplace
    rw [hsrecords, h.length]
    exact (h.within place hplace).2
  have hplaced : Placed (recordedPlaces logoff.nodes) s.nodeInfo := by
    intro i hi
    have hget := h.records i
    rw [← hsrecords, List.getElem?_eq_getElem hi, hrecords] at hget
    split at hget
    · next hmem =>
      rw [if_pos hmem]
      exact networkNodeId_of_lastRecord hget.symm
    · next hmem =>
      obtain ⟨hlength, hblank⟩ := List.getElem?_eq_some_iff.mp hget.symm
      rw [if_neg hmem, ← hblank, List.getElem_replicate]
      exact Header.networkNodeId_blank
  exact
    { nodeBitmask := by
        rw [hsmask, h.nodeBitmask, hmask, bits_zero, Finset.empty_union]
      nodes := by
        intro i hi
        simp only [hsnodes, h.nodesTable i hi, hnodes, Vector.getElem_replicate]
      totalNodes := hstotal.trans (h.totalNodes.trans htotal)
      nodeInformation := by
        intro id hid
        unfold getNodeInformationHLE
        by_cases hplace : ∃ place ∈ recordedPlaces logoff.nodes, id = placeId place
        · obtain ⟨place, hmem, rfl⟩ := hplace
          have hget := h.records place
          rw [if_pos hmem, ← hsrecords, List.getElem?_eq_getElem (hwithin place hmem)] at hget
          rw [hplaced.find?_placeId hmax hmem (hwithin place hmem), hget]
        · have hfree : ∀ place ∈ recordedPlaces logoff.nodes, id ≠ placeId place := by
            intro place hmem heq
            exact hplace ⟨place, hmem, heq⟩
          rw [hplaced.find?_eq_none hid hfree, lastRecord_eq_none hid hfree] }

/-- The frame was made from the tables of the host, for one of the consoles. -/
def EAPoLLogoff.IsFrom (logoff : EAPoLLogoff NodeInfo) (host : Console NodeInfo) : Prop :=
  ∃ clientMacAddress assignedNodeId, logoff = Header.eapolLogoff clientMacAddress assignedNodeId
    host.nodeInfo host.networkInfo.maxNodes host.networkInfo.totalNodes

/-- What a connected console makes of a logoff frame, whatever it saw before. -/
theorem sees_refreshConnection {s : Console NodeInfo} {logoff : EAPoLLogoff NodeInfo}
    {out : Outcome NodeInfo} (h : refreshConnection s logoff = some out) :
    Sees out.console logoff := by
  obtain ⟨view, hview, rfl⟩ := refreshConnection_eq_some h
  exact (recorded_foldlM hview).sees rfl rfl rfl rfl rfl rfl rfl rfl

/-- What a console that connects makes of it, if its tables were empty. -/
theorem sees_completeConnection {s : Console NodeInfo} {transmitter : MacAddress}
    {logoff : EAPoLLogoff NodeInfo} (hmask : s.connectionStatus.nodeBitmask = 0)
    (hnodes : s.connectionStatus.nodes = Vector.replicate udsMaxNodes 0)
    {out : Outcome NodeInfo} (h : completeConnection s transmitter logoff = some out) :
    Sees out.console logoff := by
  obtain ⟨view, hview, rfl⟩ := completeConnection_eq_some h
  exact (recorded_foldlM hview).sees hmask hnodes rfl rfl rfl rfl rfl rfl

end ManicRoom.Uds
