/-
# What a scan finds

A console keeps the beacons it hears until its game asks for them. It keeps one for each sender
and fifteen at most, so a scan finds the networks that were heard of last, each as its last
beacon describes it.
-/

import ManicRoom.Foundation.Recency
import ManicRoom.Uds.Changes

namespace ManicRoom.Uds

open ManicRoom.Foundation ManicRoom.Member

variable {NodeInfo : Type} [Header NodeInfo] {around : Surroundings} {s s' : Console NodeInfo}
  {out : Outcome NodeInfo} {event : Event NodeInfo}

/-- The beacons that a step makes the console hear. -/
def heard (s : Console NodeInfo) : Event NodeInfo → List (WifiPacket NodeInfo)
  | .packet packet =>
      match packet.frame with
      | .beacon _ _ => if s.initialized then [packet] else []
      | _ => []
  | .call _ => []

/-- The beacons that a run makes the console hear. -/
def runHeard (s : Console NodeInfo) :
    List (Surroundings × Event NodeInfo) → List (WifiPacket NodeInfo)
  | [] => []
  | (around, event) :: events =>
      heard s event ++
        match s.react around event with
        | some out => runHeard out.console events
        | none => []

/-- The game asks for the beacons. -/
def Event.scans : Event NodeInfo → Bool
  | .call (.recvBeaconBroadcastData _) => true
  | _ => false

omit [Header NodeInfo] in
theorem receivedBeacons_handleBeaconFrame (s : Console NodeInfo) (packet : WifiPacket NodeInfo) :
    (handleBeaconFrame s packet).receivedBeacons =
      remember WifiPacket.transmitterAddress maxBeaconFrames s.receivedBeacons packet := rfl

/-- A step remembers the beacon it hears, if it hears one. -/
theorem receivedBeacons_react (hscans : event.scans = false)
    (h : s.react around event = some out) :
    out.console.receivedBeacons =
      (heard s event).foldl (remember WifiPacket.transmitterAddress maxBeaconFrames)
        s.receivedBeacons := by
  cases event with
  | call call =>
      cases does_of_onCall h with
      | scans => cases hscans
      | _ => rfl
  | packet packet =>
      by_cases hbeacon : ∃ networkInfo nodes, packet.frame = .beacon networkInfo nodes
      · obtain ⟨networkInfo, nodes, hframe⟩ := hbeacon
        simp only [Console.react, onWifiPacketReceived] at h
        split at h
        · next hinit =>
          cases h
          simp [heard, hframe, (Bool.not_eq_true' _).mp hinit]
        · next hinit =>
          simp only [hframe, Option.some.injEq] at h
          rw [← h, receivedBeacons_handleBeaconFrame]
          simp only [heard, hframe]
          rw [if_pos (by simpa using hinit)]
          rfl
      · have hnone : ∀ networkInfo nodes, packet.frame ≠ .beacon networkInfo nodes :=
          fun networkInfo nodes hframe => hbeacon ⟨networkInfo, nodes, hframe⟩
        have hheard : heard s (.packet packet) = [] := by simp only [heard]
        rw [hheard, receivedBeacons_of_not_beacon hnone h]
        rfl

/-- The same for a run, from a console that remembers what it heard earlier. -/
theorem receivedBeacons_runEvents {events : List (Surroundings × Event NodeInfo)}
    {answers : List (Answer NodeInfo)} {earlier : List (WifiPacket NodeInfo)}
    (hearlier : s.receivedBeacons =
      (latest WifiPacket.transmitterAddress earlier).rtake maxBeaconFrames)
    (hscans : ∀ event ∈ events, event.2.scans = false)
    (hrun : runEvents s events = some (s', answers)) :
    s'.receivedBeacons =
      (latest WifiPacket.transmitterAddress (earlier ++ runHeard s events)).rtake
        maxBeaconFrames := by
  induction events generalizing s earlier answers with
  | nil =>
      cases hrun
      rw [runHeard, List.append_nil]
      exact hearlier
  | cons step events ih =>
      obtain ⟨around, event⟩ := step
      simp only [runEvents, Option.bind_eq_bind, Option.bind_eq_some_iff, Option.some.injEq,
        Prod.mk.injEq, Prod.exists] at hrun
      obtain ⟨out, hout, last, later, hrest, rfl, rfl⟩ := hrun
      have hstep : out.console.receivedBeacons = (latest WifiPacket.transmitterAddress
          (earlier ++ heard s event)).rtake maxBeaconFrames := by
        rw [receivedBeacons_react (hscans _ (List.mem_cons_self ..)) hout, hearlier]
        exact foldl_remember_latest ..
      rw [ih hstep (fun event hmem => hscans event (List.mem_cons_of_mem _ hmem)) hrest, runHeard,
        hout, List.append_assoc]

/-- **A scan finds what was heard of last.** In every run in which the game does not ask for
beacons, a console that had heard of nothing keeps the last beacon of each of the last fifteen
senders, in the order in which it heard these, and that is what a scan then gives the game. -/
theorem scan_finds_latest {events : List (Surroundings × Event NodeInfo)}
    {answers : List (Answer NodeInfo)} (hnothing : s.receivedBeacons = [])
    (hscans : ∀ event ∈ events, event.2.scans = false)
    (hrun : runEvents s events = some (s', answers)) :
    (getReceivedBeacons s' (Header.broadcastMac NodeInfo)).1 =
      (latest WifiPacket.transmitterAddress (runHeard s events)).rtake maxBeaconFrames := by
  have hempty : s.receivedBeacons =
      (latest WifiPacket.transmitterAddress []).rtake maxBeaconFrames := by simp [hnothing, latest]
  have hbuffer := receivedBeacons_runEvents hempty hscans hrun
  rw [getReceivedBeacons, if_neg (by simp), hbuffer, List.nil_append]

/-- Beacons of three consoles, the first of which is heard twice. -/
def sampleBeacons : List (Surroundings × Event PlainNode) :=
  [2, 3, 2, 4].map fun sender =>
    (sampleSurroundings, .packet
      { frame := .beacon { maxNodes := sender } []
        channel := 11
        transmitterAddress := Vector.replicate 6 sender
        destinationAddress := Header.broadcastMac PlainNode })

/-- The senders that the host hears of, in the order in which it last heard them. -/
theorem scan_finds_latest_heard : ∃ (s : Console PlainNode) (answers : List (Answer PlainNode)),
    runEvents foundedHost sampleBeacons = some (s, answers) ∧
      s.receivedBeacons.map WifiPacket.transmitterAddress = [3, 2, 4].map (Vector.replicate 6) ∧
        (getReceivedBeacons s (Header.broadcastMac PlainNode)).1 =
          (latest WifiPacket.transmitterAddress (runHeard foundedHost sampleBeacons)).rtake
            maxBeaconFrames := by
  have hsome : ((runEvents foundedHost sampleBeacons).map fun result =>
      result.1.receivedBeacons.map WifiPacket.transmitterAddress) =
        some ([3, 2, 4].map (Vector.replicate 6)) := by decide
  obtain ⟨⟨s, answers⟩, hrun, hsenders⟩ := Option.map_eq_some_iff.mp hsome
  exact ⟨s, answers, hrun, hsenders, scan_finds_latest rfl (by decide) hrun⟩

end ManicRoom.Uds
