/-
# What consoles send

Which packets each handler and each call gives to the room. Only two of the frames a console
sends tell others about its network, the node map and the logoff frame, and only the start of
a session makes it send them; both come from the tables it has then.
-/

import ManicRoom.Uds.Handlers

namespace ManicRoom.Uds

open ManicRoom.Foundation ManicRoom.Member

variable {NodeInfo : Type} {around : Surroundings} {s : Console NodeInfo} {out : Outcome NodeInfo}
  {packet : WifiPacket NodeInfo}

theorem length_sendPacket_le (around : Surroundings) (given : WifiPacket NodeInfo) :
    (sendPacket around given).length ≤ 1 := by
  unfold sendPacket
  split <;> simp

variable [Header NodeInfo]

theorem sent_completeConnection {transmitter : MacAddress} {logoff : EAPoLLogoff NodeInfo}
    (h : completeConnection s transmitter logoff = some out) : out.sent = [] := by
  obtain ⟨view, -, rfl⟩ := completeConnection_eq_some h
  rfl

theorem sent_refreshConnection {logoff : EAPoLLogoff NodeInfo}
    (h : refreshConnection s logoff = some out) : out.sent = [] := by
  obtain ⟨view, -, rfl⟩ := refreshConnection_eq_some h
  rfl

/-! ## Answers -/

omit [Header NodeInfo] in
theorem length_sendAssociationResponseFrame_le (around : Surroundings) (s : Console NodeInfo)
    (a : MacAddress) : (sendAssociationResponseFrame around s a).length ≤ 1 := by
  unfold sendAssociationResponseFrame
  split
  · simp
  · exact length_sendPacket_le ..

omit [Header NodeInfo] in
theorem frame_of_mem_sendAssociationResponseFrame {a : MacAddress}
    (h : packet ∈ sendAssociationResponseFrame around s a) :
    packet.frame = .associationResponse true 1 := by
  unfold sendAssociationResponseFrame at h
  split at h
  · cases h
  · exact frame_of_mem_sendPacket h

/-- The packets a console answers another one with, and when it does. -/
inductive Answers (s : Console NodeInfo) (received : WifiPacket NodeInfo) :
    WifiPacket NodeInfo → Prop
  | authentication {packet : WifiPacket NodeInfo} (hframe : received.frame = .authentication .seq1)
      (hhost : s.connectionStatus.status = .connectedAsHost)
      (hanswer : packet.frame = .authentication .seq2) : Answers s received packet
  | association {packet : WifiPacket NodeInfo} (hframe : received.frame = .authentication .seq1)
      (hhost : s.connectionStatus.status = .connectedAsHost)
      (hanswer : packet.frame = .associationResponse true 1) : Answers s received packet
  | session {packet : WifiPacket NodeInfo} {associationId : UInt16} {start : EAPoLStart NodeInfo}
      (hframe : received.frame = .associationResponse true associationId)
      (hanswer : packet.frame = .eapolStart start) : Answers s received packet
  | nodeMap {packet : WifiPacket NodeInfo} {start : EAPoLStart NodeInfo} {data : List UInt8}
      (hframe : received.frame = .eapolStart start)
      (hhost : s.connectionStatus.status = .connectedAsHost)
      (hanswer : packet.frame = .nodeMap data) : Answers s received packet
  | logoff {packet : WifiPacket NodeInfo} {start : EAPoLStart NodeInfo}
      {logoff : EAPoLLogoff NodeInfo} (hframe : received.frame = .eapolStart start)
      (hhost : s.connectionStatus.status = .connectedAsHost)
      (hanswer : packet.frame = .eapolLogoff logoff) : Answers s received packet
  | data {packet : WifiPacket NodeInfo} {data : SecureData}
      (hframe : received.frame = .secureData data)
      (hhost : s.connectionStatus.status = .connectedAsHost)
      (hanswer : packet.frame = .secureData data) : Answers s received packet

theorem answers_of_mem_sent {received : WifiPacket NodeInfo}
    (h : onWifiPacketReceived around s received = some out) (hpacket : packet ∈ out.sent) :
    Answers s received packet := by
  cases (takes_of_onWifiPacketReceived h).1 with
  | authenticates hframe hhost =>
      rcases List.mem_append.mp hpacket with hresponse | hassociation
      · exact .authentication hframe hhost (frame_of_mem_sendPacket hresponse)
      · exact .association hframe hhost (frame_of_mem_sendAssociationResponseFrame hassociation)
  | startsSession hframe => exact .session hframe (frame_of_mem_sendPacket hpacket)
  | seats hframe hhost =>
      rcases List.mem_append.mp hpacket with hmap | hlogoff
      · exact .nodeMap hframe hhost (frame_of_mem_sendPacket hmap)
      · exact .logoff hframe hhost (frame_of_mem_sendPacket hlogoff)
  | letsWatch hframe hhost => exact .logoff hframe hhost (frame_of_mem_sendPacket hpacket)
  | tellsOnly hframe hhost => exact .logoff hframe hhost (frame_of_mem_sendPacket hpacket)
  | passesOn hframe hhost =>
      exact .data hframe hhost ((frame_of_mem_sendPacket hpacket).trans hframe)
  | connects _ _ hout =>
      rw [sent_completeConnection hout] at hpacket
      cases hpacket
  | refreshes _ _ hout =>
      rw [sent_refreshConnection hout] at hpacket
      cases hpacket
  | _ => cases hpacket

/-- A console answers with at most two packets. -/
theorem length_sent_le {received : WifiPacket NodeInfo}
    (h : onWifiPacketReceived around s received = some out) : out.sent.length ≤ 2 := by
  have hone (given : WifiPacket NodeInfo) := length_sendPacket_le around given
  cases (takes_of_onWifiPacketReceived h).1 with
  | authenticates hframe hhost =>
      rw [List.length_append]
      exact Nat.add_le_add (hone _) (length_sendAssociationResponseFrame_le ..)
  | seats hframe hhost =>
      rw [List.length_append]
      exact Nat.add_le_add (hone _) (hone _)
  | startsSession hframe => exact (hone _).trans one_le_two
  | letsWatch hframe hhost => exact (hone _).trans one_le_two
  | tellsOnly hframe hhost => exact (hone _).trans one_le_two
  | passesOn hframe hhost => exact (hone _).trans one_le_two
  | connects _ _ hout => simp [sent_completeConnection hout]
  | refreshes _ _ hout => simp [sent_refreshConnection hout]
  | _ => exact Nat.zero_le 2

/-- What a host tells everyone after a session started comes from the tables it has then. -/
theorem told_of_mem_sent {received : WifiPacket NodeInfo}
    (h : onWifiPacketReceived around s received = some out) (hpacket : packet ∈ out.sent)
    {start : EAPoLStart NodeInfo} (hframe : received.frame = .eapolStart start) :
    packet ∈ broadcastNodeMap around out.console ∨
      ∃ a id, packet ∈ sendLogoff around out.console a id := by
  cases (takes_of_onWifiPacketReceived h).1 with
  | seats => exact (List.mem_append.mp hpacket).imp_right fun hlogoff => ⟨_, _, hlogoff⟩
  | letsWatch => exact .inr ⟨_, _, hpacket⟩
  | tellsOnly => exact .inr ⟨_, _, hpacket⟩
  | ignored => cases hpacket
  | _ => simp_all

/-! ## Calls -/

theorem frame_of_mem_beaconBroadcastCallback (h : packet ∈ beaconBroadcastCallback around s) :
    packet.frame = .beacon s.networkInfo s.nodeInfo := by
  unfold beaconBroadcastCallback at h
  split at h
  · cases h
  · exact frame_of_mem_sendPacket h

/-- The frames with which a host tells others about its network. -/
def Frame.tells : Frame NodeInfo → Bool
  | .eapolLogoff _ | .nodeMap _ => true
  | _ => false

/-- No call makes a console tell others about its network. -/
theorem not_tells_onCall {call : Call NodeInfo} (h : onCall around s call = some out)
    (hpacket : packet ∈ out.sent) : packet.frame.tells = false := by
  cases does_of_onCall h with
  | ejects hframe =>
      rw [hframe packet hpacket]
      rfl
  | joins =>
      rw [frame_of_mem_sendPacket hpacket]
      rfl
  | leaves =>
      rw [frame_of_mem_sendPacket hpacket]
      rfl
  | sends =>
      rw [frame_of_mem_sendPacket hpacket]
      rfl
  | beacons =>
      rw [frame_of_mem_beaconBroadcastCallback hpacket]
      rfl
  | _ => cases hpacket

/-- Of the packets only the start of a session makes a console tell others about its network. -/
theorem not_tells_onWifiPacketReceived {received : WifiPacket NodeInfo}
    (h : onWifiPacketReceived around s received = some out)
    (hstart : ∀ start, received.frame ≠ .eapolStart start) (hpacket : packet ∈ out.sent) :
    packet.frame.tells = false := by
  cases answers_of_mem_sent h hpacket with
  | nodeMap hframe => exact absurd hframe (hstart _)
  | logoff hframe => exact absurd hframe (hstart _)
  | authentication _ _ hanswer => simp [hanswer, Frame.tells]
  | association _ _ hanswer => simp [hanswer, Frame.tells]
  | session _ hanswer => simp [hanswer, Frame.tells]
  | data _ _ hanswer => simp [hanswer, Frame.tells]

end ManicRoom.Uds
