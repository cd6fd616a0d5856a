/-
# The data of a room

A data frame carries no more than the id of its sender, and a console takes it as it comes. Among
consoles that run this service that is enough: what waits in a channel is what some game of the
room once sent, under the id that its console had then.
-/

import ManicRoom.Uds.Channels
import ManicRoom.Uds.Network

namespace ManicRoom.Uds

open ManicRoom.Foundation ManicRoom.Member

variable {Party NodeInfo : Type}

/-- A game sends the data with this call: its console is client or host of a network, and the data
is what the parser makes of the frame of the bytes, under the id of the console. -/
def Sends [Header NodeInfo] (s : Console NodeInfo) (call : Call NodeInfo) (data : SecureData) :
    Prop :=
  ∃ destNodeId dataChannel dataSize flags inputBuffer,
    call = .sendTo destNodeId dataChannel dataSize flags inputBuffer ∧
    (s.connectionStatus.status = .connectedAsClient ∨
      s.connectionStatus.status = .connectedAsHost) ∧
    dataSize ≤ inputBuffer.length ∧ dataSize ≤ 0x5C6 ∧
    data = Header.secureData NodeInfo (inputBuffer.take dataSize) dataChannel destNodeId
      s.connectionStatus.networkNodeId 0

/-- One of the calls sent the data. -/
def Authentic [Header NodeInfo] (asked : List (Asked Party NodeInfo)) (data : SecureData) : Prop :=
  ∃ past ∈ asked, Sends past.console past.call data

theorem Authentic.append [Header NodeInfo] {asked : List (Asked Party NodeInfo)}
    {data : SecureData} (h : Authentic asked data) (later : List (Asked Party NodeInfo)) :
    Authentic (asked ++ later) data := by
  obtain ⟨past, hmem, hsends⟩ := h
  exact ⟨past, List.mem_append_left _ hmem, hsends⟩

/-- The data waits in some channel of a console. -/
def Console.holdsData (s : Console NodeInfo) (data : SecureData) : Prop :=
  ∃ channel bound, s.channelData.lookup channel = some bound ∧ data ∈ bound.receivedPackets

/-- All data of the network is authentic. -/
structure DataSound [Header NodeInfo] (n : Network Party NodeInfo) : Prop where
  sent : ∀ packet ∈ n.sent, ∀ data, packet.frame = .secureData data → Authentic n.asked data
  held : ∀ party data, (n.consoles party).holdsData data → Authentic n.asked data

section

variable {around : Surroundings} {s : Console NodeInfo} {out : Outcome NodeInfo}
  {event : Event NodeInfo} {data : SecureData}

theorem holdsData_insert {key : ℕ} {bound : BindNodeData}
    (h : ({ s with channelData := s.channelData.insert key bound } : Console NodeInfo).holdsData
      data) : data ∈ bound.receivedPackets ∨ s.holdsData data := by
  obtain ⟨channel, bound', hlookup, hmem⟩ := h
  simp only [OrderedMap.lookup_insert] at hlookup
  split at hlookup
  · cases hlookup
    exact .inl hmem
  · exact .inr ⟨channel, bound', hlookup, hmem⟩

theorem not_holdsData_empty (h : s.channelData = .empty) : ¬ s.holdsData data := by
  rintro ⟨channel, bound, hlookup, -⟩
  rw [h] at hlookup
  cases hlookup

theorem holdsData_erase {key : ℕ}
    (h : ({ s with channelData := s.channelData.erase key } : Console NodeInfo).holdsData data) :
    s.holdsData data := by
  obtain ⟨channel, bound, hlookup, hmem⟩ := h
  simp only [OrderedMap.lookup_erase] at hlookup
  split at hlookup
  · cases hlookup
  · exact ⟨channel, bound, hlookup, hmem⟩

theorem holdsData_enqueue {received : SecureData} (h : (enqueue s received).holdsData data) :
    s.holdsData data ∨ data = received := by
  unfold enqueue at h
  split at h
  · exact .inl h
  · next old hold =>
    split at h
    · exact .inl h
    · rcases holdsData_insert h with hmem | hholds
      · rcases List.mem_append.mp hmem with hmem | hmem
        · exact .inl ⟨_, old, hold, hmem⟩
        · exact .inr (List.mem_singleton.mp hmem)
      · exact .inl hholds

variable [Header NodeInfo]

/-- A channel gets data only from the packet that a console receives. -/
theorem holdsData_react (h : s.react around event = some out)
    (hholds : out.console.holdsData data) :
    s.holdsData data ∨ ∃ packet, event = .packet packet ∧ packet.frame = .secureData data := by
  cases event with
  | call call =>
      left
      cases does_of_onCall h with
      | initializes => exact absurd hholds (not_holdsData_empty rfl)
      | shutsDown => exact absurd hholds (not_holdsData_empty rfl)
      | destroys => exact absurd hholds (not_holdsData_empty rfl)
      | leaves => exact absurd hholds (not_holdsData_empty rfl)
      | binds => exact (holdsData_insert hholds).resolve_left List.not_mem_nil
      | unbinds => exact holdsData_erase hholds
      | pulls padding hchannel hpackets =>
          rcases holdsData_insert hholds with hrest | hold
          · refine ⟨_, _, (findBindNode_eq_some_iff.mp hchannel).1, ?_⟩
            rw [hpackets]
            exact List.mem_cons_of_mem _ hrest
          · exact hold
      | _ => exact hholds
  | packet packet =>
      by_cases hdata : ∃ received, packet.frame = .secureData received
      · obtain ⟨received, hframe⟩ := hdata
        cases (takes_of_onWifiPacketReceived h).1 with
        | queues hframe' =>
            rcases holdsData_enqueue hholds with hold | rfl
            · exact .inl hold
            · exact .inr ⟨packet, rfl, hframe'⟩
        | ignored => exact .inl hholds
        | passesOn => exact .inl hholds
        | _ => simp_all
      · have hnone : ∀ received, packet.frame ≠ .secureData received := fun received hframe =>
          hdata ⟨received, hframe⟩
        obtain ⟨channel, bound, hlookup, hmem⟩ := hholds
        rw [channelData_of_not_data hnone h] at hlookup
        exact .inl ⟨channel, bound, hlookup, hmem⟩

/-- A console sends data for its game or passes on what it received. -/
theorem data_of_mem_sent {packet : WifiPacket NodeInfo} (h : s.react around event = some out)
    (hmem : packet ∈ out.sent) (hframe : packet.frame = .secureData data) :
    (∃ call, event = .call call ∧ Sends s call data) ∨
      ∃ received, event = .packet received ∧ received.frame = .secureData data := by
  cases event with
  | call call =>
      left
      refine ⟨call, rfl, ?_⟩
      cases does_of_onCall h with
      | ejects hsent =>
          rw [hsent packet hmem] at hframe
          cases hframe
      | joins =>
          rw [frame_of_mem_sendPacket hmem] at hframe
          cases hframe
      | leaves =>
          rw [frame_of_mem_sendPacket hmem] at hframe
          cases hframe
      | sends hmember hlength hsize =>
          rw [frame_of_mem_sendPacket hmem] at hframe
          cases hframe
          exact ⟨_, _, _, _, _, rfl, hmember, hlength, hsize, rfl⟩
      | beacons =>
          rw [frame_of_mem_beaconBroadcastCallback hmem] at hframe
          cases hframe
      | _ => cases hmem
  | packet received =>
      right
      refine ⟨received, rfl, ?_⟩
      cases answers_of_mem_sent h hmem with
      | data hreceived _ hanswer =>
          rw [hframe, Frame.secureData.injEq] at hanswer
          rw [hreceived, hanswer]
      | _ => simp_all

end

/-! ## All consoles of a room -/

section

variable [DecidableEq Party] [DecidableEq NodeInfo] [Header NodeInfo]
  {n n' : Network Party NodeInfo} {move : Move Party NodeInfo}

theorem DataSound.step (h : DataSound n) (hstep : n.step move = some n') : DataSound n' := by
  unfold Network.step at hstep
  split at hstep
  · next hcan =>
    obtain ⟨out, hout, rfl⟩ := Option.map_eq_some_iff.mp hstep
    have hreceived (received : WifiPacket NodeInfo) (hevent : move.event = .packet received)
        (data : SecureData) (hframe : received.frame = .secureData data) :
        Authentic n.asked data :=
      h.sent received (by simpa [hevent, Network.canHappen] using hcan) data hframe
    exact
      { sent := by
          intro packet hmem data hframe
          rcases List.mem_append.mp hmem with hold | hnew
          · exact (h.sent packet hold data hframe).append _
          · rcases data_of_mem_sent hout hnew hframe with ⟨call, hevent, hsends⟩ |
              ⟨received, hevent, hdata⟩
            · refine ⟨{ party := move.party, console := n.consoles move.party, call }, ?_, hsends⟩
              exact List.mem_append_right _ (by simp [Move.asks, hevent])
            · exact (hreceived received hevent data hdata).append _
        held := by
          intro party data hholds
          apply Authentic.append
          by_cases hparty : party = move.party
          · subst hparty
            simp only [Function.update_self] at hholds
            rcases holdsData_react hout hholds with hold | ⟨received, hevent, hdata⟩
            · exact h.held move.party data hold
            · exact hreceived received hevent data hdata
          · simp only [Function.update_of_ne hparty] at hholds
            exact h.held party data hholds }
  · cases hstep

theorem dataSound_of_reachable
    (h : (roomSystem Party NodeInfo).Reachable n) : DataSound n := by
  refine System.Reachable.invariant DataSound ?_ ?_ h
  · rintro state ⟨hnew, hsent, -⟩
    refine ⟨by simp [hsent], ?_⟩
    intro party data hholds
    obtain ⟨currentNode, networkChannel, heq⟩ := hnew party
    rw [heq] at hholds
    exact absurd hholds (not_holdsData_empty rfl)
  · intro source label target _ hsound hstep
    exact hsound.step hstep

/-- **Waiting data is authentic.** In every run of any number of consoles in a room, what waits
in a channel of a console is what comes out of the frame that the game of some console of the room
asked for: with those bytes, no more than a frame takes, under the id that its console had as a
client or host of a network then. -/
theorem authentic_of_holdsData
    (h : (roomSystem Party NodeInfo).Reachable n) {party : Party}
    {data : SecureData} (hholds : (n.consoles party).holdsData data) : Authentic n.asked data :=
  (dataSound_of_reachable h).held party data hholds

end

/-! ## Data of one console for another -/

/-- Data of the client for its host. -/
def clientData : SecureData where
  srcNodeId := 2
  destNodeId := 1
  dataChannel := 1
  isManagement := false
  payload := [5, 6]

/-- The host of two consoles binds a channel and the client sends to it. -/
def sampleSending : List (Move Bool PlainNode) :=
  let move (host : Bool) (event : Event PlainNode) : Move Bool PlainNode :=
    { party := host
      around :=
        { roomAddress := some (sampleAddress host), consoleAddress := sampleAddress host }
      event }
  sampleMoves ++
    [ move true (.call (.bind 7 0x5F4 1 broadcastNetworkNodeId)),
      move false (.call (.sendTo 1 1 2 0 [5, 6])),
      move true (.packet
        { frame := .secureData clientData
          channel := 11
          transmitterAddress := sampleAddress false
          destinationAddress := sampleAddress true }) ]

theorem exists_sending : ∃ n : Network Bool PlainNode, (roomSystem Bool PlainNode).Reachable n ∧
    ((n.consoles true).channelData.lookup 1).any
      (fun bound => decide (clientData ∈ bound.receivedPackets)) = true :=
  System.exists_reachable_of_run init_sampleStart sampleSending _ (by decide)

theorem authentic_of_holdsData_sent : ∃ n : Network Bool PlainNode,
    (n.consoles true).holdsData clientData ∧ Authentic n.asked clientData := by
  obtain ⟨n, hreach, hany⟩ := exists_sending
  obtain ⟨bound, hlookup, hmem⟩ := (Option.any_eq_true _ _).mp hany
  have hholds : (n.consoles true).holdsData clientData :=
    ⟨1, bound, hlookup, of_decide_eq_true hmem⟩
  exact ⟨n, hholds, authentic_of_holdsData hreach hholds⟩

end ManicRoom.Uds
