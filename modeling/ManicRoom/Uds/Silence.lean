/-
# When a room falls silent

Consoles answer packets with packets. Among consoles of which at most one hosts a network every
answer is a step closer to the end of a conversation, so without calls of the games the room
falls silent but for the beacons, which a host sends for as long as it is one and nobody answers.
Two hosts in one room need not fall silent: each passes on data that is not for it, to the other
one too, and the packet goes back and forth for as long as the room delivers it.
-/

import ManicRoom.Foundation.Tokens
import ManicRoom.Uds.Places
import ManicRoom.Uds.Sending

namespace ManicRoom.Uds

open ManicRoom.Foundation ManicRoom.Member

variable {Party NodeInfo : Type} [Header NodeInfo]

/-- The consoles of a room and the copies of packets that are on their way, each to one
console. -/
structure Room (Party NodeInfo : Type) where
  consoles : Party → Console NodeInfo
  inFlight : List (Party × WifiPacket NodeInfo)

/-- The copies that a room of these consoles makes of packets: one for each but the sender. -/
def copiesFor [DecidableEq Party] (parties : List Party) (sender : Party)
    (sent : List (WifiPacket NodeInfo)) : List (Party × WifiPacket NodeInfo) :=
  sent.flatMap fun packet =>
    (parties.filter fun party => decide (party ≠ sender)).map fun party => (party, packet)

/-- The room delivers a copy. What the console sends in return goes to some of the others. -/
inductive Delivers [DecidableEq Party] (parties : List Party) (around : Party → Surroundings) :
    Room Party NodeInfo → Room Party NodeInfo → Prop
  | deliver {room : Room Party NodeInfo} {before after copies : List (Party × WifiPacket NodeInfo)}
      {party : Party} {packet : WifiPacket NodeInfo} {out : Outcome NodeInfo}
      (hflight : room.inFlight = before ++ (party, packet) :: after)
      (hreact : onWifiPacketReceived (around party) (room.consoles party) packet = some out)
      (hcopies : copies.Sublist (copiesFor parties party out.sent)) :
      Delivers parties around room
        { consoles := Function.update room.consoles party out.console
          inFlight := before ++ after ++ copies }

/-- The frame is a beacon. -/
def Frame.isBeacon : Frame NodeInfo → Bool
  | .beacon _ _ => true
  | _ => false

/-- What happens in a room as long as no game asks for anything: it delivers a copy, which counts
unless that is a beacon, and the beacon timer of a console goes off. -/
inductive Goes [DecidableEq Party] (parties : List Party) (around : Party → Surroundings) :
    Bool → Room Party NodeInfo → Room Party NodeInfo → Prop
  | deliver {room : Room Party NodeInfo} {before after copies : List (Party × WifiPacket NodeInfo)}
      {party : Party} {packet : WifiPacket NodeInfo} {out : Outcome NodeInfo}
      (hflight : room.inFlight = before ++ (party, packet) :: after)
      (hreact : onWifiPacketReceived (around party) (room.consoles party) packet = some out)
      (hcopies : copies.Sublist (copiesFor parties party out.sent)) :
      Goes parties around (!packet.frame.isBeacon) room
        { consoles := Function.update room.consoles party out.console
          inFlight := before ++ after ++ copies }
  | beaconTimer {room : Room Party NodeInfo} {copies : List (Party × WifiPacket NodeInfo)}
      (party : Party)
      (hcopies : copies.Sublist (copiesFor parties party
        (beaconBroadcastCallback (around party) (room.consoles party)))) :
      Goes parties around false room
        { consoles := room.consoles
          inFlight := room.inFlight ++ copies }

/-- How far a frame is from the end of a conversation. -/
def Frame.depth (isHost : Bool) : Frame NodeInfo → ℕ
  | .authentication _ => if isHost then 3 else 0
  | .associationResponse _ _ => 2
  | .eapolStart _ => 1
  | .secureData _ => if isHost then 1 else 0
  | _ => 0

/-- The console hosts a network. -/
def Console.hosts (s : Console NodeInfo) : Bool :=
  decide (s.connectionStatus.status = .connectedAsHost)

section

variable {around : Surroundings} {s : Console NodeInfo} {out : Outcome NodeInfo}
  {packet answer : WifiPacket NodeInfo}

/-- A packet does not make or unmake a host. -/
theorem hosts_onWifiPacketReceived (h : onWifiPacketReceived around s packet = some out) :
    out.console.hosts = s.hosts := by
  simp [Console.hosts, status_eq_host_iff h]

/-- A console answers with packets that are closer to the end of the conversation, where no
other console hosts a network. -/
theorem depth_answer_lt (h : onWifiPacketReceived around s packet = some out)
    (hanswer : answer ∈ out.sent) {isHost : Bool} (honly : s.hosts = true → isHost = false) :
    answer.frame.depth isHost < packet.frame.depth s.hosts := by
  have hother (hhost : s.connectionStatus.status = .connectedAsHost) :
      s.hosts = true ∧ isHost = false := by
    have hhosts : s.hosts = true := by simp [Console.hosts, hhost]
    exact ⟨hhosts, honly hhosts⟩
  cases answers_of_mem_sent h hanswer with
  | authentication hframe hhost hanswer =>
      simp [hframe, hanswer, Frame.depth, hother hhost]
  | association hframe hhost hanswer =>
      simp [hframe, hanswer, Frame.depth, hother hhost]
  | session hframe hanswer => simp [hframe, hanswer, Frame.depth]
  | nodeMap hframe hhost hanswer => simp [hframe, hanswer, Frame.depth]
  | logoff hframe hhost hanswer => simp [hframe, hanswer, Frame.depth]
  | data hframe hhost hanswer => simp [hframe, hanswer, Frame.depth, hother hhost]

/-- Nobody answers a beacon. -/
theorem sent_of_isBeacon (h : onWifiPacketReceived around s packet = some out)
    (hbeacon : packet.frame.isBeacon = true) : out.sent = [] := by
  cases (takes_of_onWifiPacketReceived h).1 with
  | ignored => rfl
  | hearsBeacon => rfl
  | _ => simp_all [Frame.isBeacon]

end

/-! ## At most one host -/

section

variable [DecidableEq Party] {parties : List Party} {around : Party → Surroundings}
  {room last : Room Party NodeInfo} {hosts : Party → Bool}

/-- How far a copy is from the end of its conversation, given who hosts. -/
def copyDepth (hosts : Party → Bool) (copy : Party × WifiPacket NodeInfo) : ℕ :=
  copy.2.frame.depth (hosts copy.1)

omit [Header NodeInfo] in
theorem length_copiesFor_le (parties : List Party) (sender : Party)
    (sent : List (WifiPacket NodeInfo)) :
    (copiesFor parties sender sent).length ≤ sent.length * parties.length := by
  induction sent with
  | nil => simp [copiesFor]
  | cons packet sent ih =>
      have hhead := parties.length_filter_le fun party => decide (party ≠ sender)
      simp only [copiesFor, List.flatMap_cons, List.length_append, List.length_map,
        List.length_cons, Nat.add_mul, Nat.one_mul] at ih ⊢
      omega

omit [Header NodeInfo] in
theorem mem_copiesFor {sender : Party} {sent : List (WifiPacket NodeInfo)}
    {copy : Party × WifiPacket NodeInfo} (h : copy ∈ copiesFor parties sender sent) :
    copy.1 ≠ sender ∧ copy.2 ∈ sent := by
  obtain ⟨packet, hpacket, hcopy⟩ := List.mem_flatMap.mp h
  obtain ⟨party, hparty, rfl⟩ := List.mem_map.mp hcopy
  exact ⟨of_decide_eq_true (List.mem_filter.mp hparty).2, hpacket⟩

/-- The packets on their way that are no beacons. -/
def Room.talk (room : Room Party NodeInfo) : List (Party × WifiPacket NodeInfo) :=
  room.inFlight.filter fun copy => !copy.2.frame.isBeacon

/-- The copies of a beacon are no talk. -/
theorem filter_beacon_copies (around : Surroundings) (s : Console NodeInfo) (party : Party)
    {copies : List (Party × WifiPacket NodeInfo)}
    (hcopies : copies.Sublist (copiesFor parties party (beaconBroadcastCallback around s))) :
    copies.filter (fun copy => !copy.2.frame.isBeacon) = [] := by
  rw [List.filter_eq_nil_iff]
  intro copy hcopy
  have hsent := (mem_copiesFor (hcopies.subset hcopy)).2
  rw [frame_of_mem_beaconBroadcastCallback hsent]
  simp [Frame.isBeacon]

/-- A step leaves who hosts, and the talk gets lighter if the step counts and no heavier if it
does not. -/
theorem poolWeight_goes (honly : ∀ p q, hosts p = true → hosts q = true → p = q)
    {counts : Bool} (hhosts : ∀ party, (room.consoles party).hosts = hosts party)
    (h : Goes parties around counts room last) :
    (∀ party, (last.consoles party).hosts = hosts party) ∧
      poolWeight (2 * parties.length) (copyDepth hosts) last.talk + counts.toNat ≤
        poolWeight (2 * parties.length) (copyDepth hosts) room.talk := by
  cases h with
  | beaconTimer party hcopies =>
      refine ⟨hhosts, ?_⟩
      rw [Room.talk, List.filter_append, filter_beacon_copies _ _ party hcopies, List.append_nil]
      exact Nat.le_refl _
  | @deliver _ before after copies party packet out hflight hreact hcopies =>
      refine ⟨?_, ?_⟩
      · intro other
        by_cases hother : other = party
        · subst hother
          simp [hosts_onWifiPacketReceived hreact, hhosts]
        · simp [hother, hhosts]
      · cases hbeacon : packet.frame.isBeacon with
        | true =>
            have hnone : copies = [] := by
              rw [sent_of_isBeacon hreact hbeacon] at hcopies
              exact List.sublist_nil.mp hcopies
            simp [Room.talk, hflight, hnone, hbeacon]
        | false =>
            let before' := before.filter fun copy => !copy.2.frame.isBeacon
            let after' := after.filter fun copy => !copy.2.frame.isBeacon
            let copies' := copies.filter fun copy => !copy.2.frame.isBeacon
            have hroom : room.talk = before' ++ (party, packet) :: after' := by
              simp [Room.talk, hflight, hbeacon, before', after']
            have hsub : copies'.Sublist (copiesFor parties party out.sent) :=
              (List.filter_sublist ..).trans hcopies
            have hlighter : poolWeight (2 * parties.length) (copyDepth hosts)
                (before' ++ after' ++ copies') <
                poolWeight (2 * parties.length) (copyDepth hosts)
                  (before' ++ (party, packet) :: after') := by
              apply poolWeight_replace_lt
              · calc copies'.length ≤ (copiesFor parties party out.sent).length := hsub.length_le
                  _ ≤ out.sent.length * parties.length := length_copiesFor_le ..
                  _ ≤ 2 * parties.length := Nat.mul_le_mul_right _ (length_sent_le hreact)
              · intro copy hcopy
                obtain ⟨hne, hsent⟩ := mem_copiesFor (hsub.subset hcopy)
                have honly' : (room.consoles party).hosts = true → hosts copy.1 = false := by
                  intro hparty
                  by_contra hcopyHosts
                  rw [hhosts] at hparty
                  exact hne (honly _ _ (Bool.eq_true_of_not_eq_false hcopyHosts) hparty)
                have hless := depth_answer_lt hreact hsent honly'
                rwa [hhosts] at hless
            rw [hroom, Room.talk, List.filter_append, List.filter_append]
            exact hlighter

/-- **A room with one host falls silent but for the beacons.** Where at most one console hosts a
network, the packets on their way that are no beacons bound how many such packets the room can
still deliver, in whatever order it does, whatever it loses and however often the beacon timers go
off, as long as no game asks for anything. -/
theorem room_falls_silent (room : Room Party NodeInfo)
    (honly : ∀ p q, (room.consoles p).hosts = true → (room.consoles q).hosts = true → p = q)
    {count : ℕ} (h : CountedSteps (Goes parties around) count room last) :
    count ≤ poolWeight (2 * parties.length)
      (copyDepth fun party => (room.consoles party).hosts) room.talk := by
  have hsame (party : Party) : (room.consoles party).hosts = (room.consoles party).hosts := rfl
  let hosts (party : Party) : Bool := (room.consoles party).hosts
  have hbound := CountedSteps.le_of_decreasing
    (fun other => ∀ party, (other.consoles party).hosts = hosts party)
    (fun other => poolWeight (2 * parties.length) (copyDepth hosts) other.talk)
    (fun _ _ _ hhosts hstep => poolWeight_goes honly hhosts hstep) hsame h
  exact (Nat.le_add_right ..).trans hbound

/-! ## Two hosts -/

/-- A host takes the packet for that of another console and to another one, so it passes it
on. -/
structure PassesOn (around : Surroundings) (s : Console NodeInfo) (data : SecureData) : Prop where
  initialized : s.initialized = true
  status : s.connectionStatus.status = .connectedAsHost
  inRoom : around.roomAddress ≠ none
  srcNodeId : data.srcNodeId ≠ s.connectionStatus.networkNodeId
  destNodeId : data.destNodeId ≠ s.connectionStatus.networkNodeId
  destNodeId_ne_broadcast : data.destNodeId ≠ broadcastNetworkNodeId

omit [DecidableEq Party] in
theorem PassesOn.onWifiPacketReceived {around : Surroundings} {s : Console NodeInfo}
    {data : SecureData} (h : PassesOn around s data) {packet : WifiPacket NodeInfo}
    (hframe : packet.frame = .secureData data) :
    ∃ passed : WifiPacket NodeInfo, passed.frame = .secureData data ∧
      onWifiPacketReceived around s packet = some { console := s, sent := [passed] } := by
  obtain ⟨address, haddress⟩ := Option.ne_none_iff_exists'.mp h.inRoom
  refine ⟨{ packet with
      destinationAddress := Header.broadcastMac NodeInfo
      transmitterAddress := address }, hframe, ?_⟩
  simp [Uds.onWifiPacketReceived, handleSecureDataPacket, sendPacket, hframe, h.initialized,
    h.status, h.srcNodeId, h.destNodeId, h.destNodeId_ne_broadcast, haddress,
    NetworkStatus.isConnected]

/-- **Two hosts in one room play ping-pong.** If two hosts both take a data packet for one to
pass on and it is on its way to one of them, the room can deliver as many packets as it likes:
each host sends what it gets from the other back to it, and neither changes. -/
theorem two_hosts_play_pingpong {p q : Party} (hpq : p ≠ q) (hp : p ∈ parties) (hq : q ∈ parties)
    {data : SecureData} (hpassp : PassesOn (around p) (room.consoles p) data)
    (hpassq : PassesOn (around q) (room.consoles q) data) {packet : WifiPacket NodeInfo}
    (hframe : packet.frame = .secureData data) (hflight : (p, packet) ∈ room.inFlight)
    (count : ℕ) :
    ∃ last, Steps (Delivers parties around) count room last ∧ last.consoles = room.consoles := by
  induction count generalizing room p q packet with
  | zero => exact ⟨room, .nil room, rfl⟩
  | succ count ih =>
      obtain ⟨before, after, hsplit⟩ := List.append_of_mem hflight
      obtain ⟨passed, hpassed, hreact⟩ := hpassp.onWifiPacketReceived hframe
      have hsame : Function.update room.consoles p (room.consoles p) = room.consoles :=
        Function.update_eq_self p room.consoles
      have hstep : Delivers parties around room
          { consoles := room.consoles
            inFlight := before ++ after ++ copiesFor parties p [passed] } := by
        have hall := List.Sublist.refl (copiesFor parties p [passed])
        have hdeliver := Delivers.deliver hsplit hreact hall
        rwa [hsame] at hdeliver
      let next : Room Party NodeInfo :=
        { consoles := room.consoles
          inFlight := before ++ after ++ copiesFor parties p [passed] }
      have hnext : (q, passed) ∈ next.inFlight := by
        simp [next, copiesFor, hq, Ne.symm hpq]
      have hnextq : PassesOn (around q) (next.consoles q) data := hpassq
      obtain ⟨last, hrun, hlast⟩ := ih (Ne.symm hpq) hq hp hnextq hpassp hpassed hnext
      exact ⟨last, .cons hstep hrun, hlast⟩

end

/-! ## Sample rooms -/

/-- A room with two consoles and a packet on its way to the first. -/
def sampleRoom (other : Console PlainNode) (packet : WifiPacket PlainNode) :
    Room Bool PlainNode where
  consoles := fun first => if first then foundedHost else other
  inFlight := [(true, packet)]

/-- The beacon timer of the host goes off, and it hears of a console that asks to join. -/
theorem room_falls_silent_answered : ∃ last : Room Bool PlainNode,
    CountedSteps (Goes [true, false] fun _ => sampleSurroundings) 1
      (sampleRoom newConsole (sampleRequest (Vector.replicate 6 2))) last ∧
    last.inFlight.length = 3 ∧
    1 ≤ poolWeight 4
      (copyDepth fun party =>
        ((sampleRoom newConsole (sampleRequest (Vector.replicate 6 2))).consoles party).hosts)
      (sampleRoom newConsole (sampleRequest (Vector.replicate 6 2))).talk := by
  let start := sampleRoom newConsole (sampleRequest (Vector.replicate 6 2))
  let beaconed : Room Bool PlainNode :=
    { consoles := start.consoles
      inFlight := start.inFlight ++ copiesFor [true, false] true
        (beaconBroadcastCallback sampleSurroundings (start.consoles true)) }
  have htimer : Goes [true, false] (fun _ => sampleSurroundings) false start beaconed :=
    .beaconTimer true (List.Sublist.refl _)
  have hanswers : ∃ last : Room Bool PlainNode,
      Goes [true, false] (fun _ => sampleSurroundings) true beaconed last ∧
        last.inFlight.length = 3 :=
    ⟨_, .deliver (show beaconed.inFlight = [] ++ _ :: _ from rfl) rfl (List.Sublist.refl _), rfl⟩
  obtain ⟨last, hdelivers, hlength⟩ := hanswers
  have hrun : CountedSteps (Goes [true, false] fun _ => sampleSurroundings) 1 start last :=
    .cons htimer (.cons hdelivers (.nil last))
  exact ⟨last, hrun, hlength, room_falls_silent start (by decide) hrun⟩

/-- Data from a client of one host to another client. -/
def passingData : SecureData where
  srcNodeId := 2
  destNodeId := 3
  dataChannel := 0
  isManagement := false
  payload := []

def samplePassing : WifiPacket PlainNode where
  frame := .secureData passingData
  channel := 11
  destinationAddress := Vector.replicate 6 1

theorem two_hosts_play_pingpong_passing : ∃ last,
    Steps (Delivers [true, false] fun _ => sampleSurroundings) 1000
      (sampleRoom foundedHost samplePassing) last := by
  have hpasses (first : Bool) : PassesOn sampleSurroundings
      ((sampleRoom foundedHost samplePassing).consoles first) passingData := by
    cases first <;> exact ⟨rfl, rfl, by decide, by decide, by decide, by decide⟩
  have htrue : true ∈ [true, false] := by decide
  have hfalse : false ∈ [true, false] := by decide
  have hflight : (true, samplePassing) ∈ (sampleRoom foundedHost samplePassing).inFlight :=
    List.mem_singleton_self _
  have hpassing : ∃ last, Steps (Delivers [true, false] fun _ => sampleSurroundings) 1000
      (sampleRoom foundedHost samplePassing) last ∧
        last.consoles = (sampleRoom foundedHost samplePassing).consoles :=
    two_hosts_play_pingpong (by decide) htrue hfalse (hpasses true) (hpasses false) rfl hflight 1000
  obtain ⟨last, hrun, -⟩ := hpassing
  exact ⟨last, hrun⟩

end ManicRoom.Uds
