/-
# What goes out on a connection

`Leave` clears the send list and `Join` pushes the join request once its loop is
running, so a connection should start with its own request. The emulation thread
pushes into the same list, after a check of the member's state that says nothing
about the moment of the push. A push after the `clear()` of `Leave`, or before the
push of the join request, overtakes the next request.

The invariant looks at all packets of a connection at once, sent, swapped out of
the list and still in it: the loop thread moves packets along this line and
changes nothing else.
-/

import ManicRoom.Member.Invariant

namespace ManicRoom.Member

open ManicRoom.Foundation

/-- The packets that the loop thread has swapped out of the list and not yet sent. -/
def LoopPosition.inFlight : LoopPosition → List Packet
  | .send packets => packets
  | _ => []

/-- The same for the current loop thread, if there is one. -/
def State.inFlight (s : State) : List Packet := (s.loopThread.map LoopPosition.inFlight).getD []

/-- Everything that has been or is going to be sent on the connection, in order. -/
def State.outgoing (s : State) : List Packet := s.wire ++ s.inFlight ++ s.sendList

/-- The packet belongs to the current connection. -/
def State.Owns (s : State) (packet : Packet) : Prop := packet.pushedIn = s.connection

/-- What the receiving end may rely on: the first packet of a connection is its
own join request, and none was pushed during an earlier connection. -/
structure OwnRequestFirst (s : State) : Prop where
  first : ∀ packet ∈ s.wire.head?, packet = ⟨.joinRequest, s.connection⟩
  own : ∀ packet ∈ s.wire, s.Owns packet

/-- The condition on a step under which that holds: the emulation thread pushes
only between the push of a join request and the `clear()` of the `Leave` after it. -/
def PushesAfterRequest (s : State) : Label → Prop
  | .emulation .go =>
      s.emulation = .pushWifi ∨ s.emulation = .pushGameInfo → s.requested = true
  | _ => True

instance (s : State) (label : Label) : Decidable (PushesAfterRequest s label) := by
  unfold PushesAfterRequest
  split <;> infer_instance

/-! ## The invariant -/

/-- A line of packets that starts with the join request of the connection. -/
def State.StartsWithRequest (s : State) (line : List Packet) : Prop :=
  ∃ rest, line = ⟨.joinRequest, s.connection⟩ :: rest ∧ ∀ packet ∈ rest, s.Owns packet

/-- The send list over the life of a connection. -/
structure SendListFacts (s : State) : Prop where
  /-- Until the request is pushed there is nothing to send. -/
  idle : s.requested = false → s.inFlight = [] ∧ s.sendList = []
  /-- So a loop that started meanwhile has sent nothing. -/
  unsent : s.requested = false → s.loopThread ≠ none → s.wire = []
  /-- From then on the line starts with the request. -/
  started : s.requested = true → s.StartsWithRequest s.outgoing
  /-- The request is dropped before the next loop starts. -/
  running : s.requested = true → s.loopThread ≠ none ∨ s.caller.Clearing
  /-- `Join` pushes its request once, after it started the loop. -/
  requesting : s.caller = .joinRequest → s.requested = false ∧ s.loopThread ≠ none
  /-- And pushes its game info after that. -/
  requested : s.caller.Requested → s.requested = true
  /-- What has been sent stays as it was when the connection ends. -/
  sent : OwnRequestFirst s

theorem State.StartsWithRequest.append {s : State} {line : List Packet}
    (h : s.StartsWithRequest line) {packet : Packet} (hpacket : s.Owns packet) :
    s.StartsWithRequest (line ++ [packet]) := by
  obtain ⟨rest, rfl, hown⟩ := h
  refine ⟨rest ++ [packet], rfl, fun other hother => ?_⟩
  rcases List.mem_append.mp hother with hrest | hlast
  · exact hown other hrest
  · exact List.mem_singleton.mp hlast ▸ hpacket

/-- A beginning of a line that starts with the request is empty or starts with it. -/
theorem State.StartsWithRequest.ownRequestFirst {s : State} {line : List Packet}
    (h : s.StartsWithRequest line) (hline : s.wire <+: line) : OwnRequestFirst s := by
  obtain ⟨rest, rfl, hown⟩ := h
  have howns : ∀ packet ∈ (⟨.joinRequest, s.connection⟩ :: rest : List Packet),
      s.Owns packet := by
    intro packet hpacket
    rcases List.mem_cons.mp hpacket with rfl | hrest
    · rfl
    · exact hown packet hrest
  refine ⟨fun packet hpacket => ?_, fun packet hpacket => howns packet (hline.subset hpacket)⟩
  obtain ⟨tail, htail⟩ := hline
  cases hwire : s.wire with
  | nil => simp [hwire] at hpacket
  | cons head others =>
      rw [hwire, List.cons_append, List.cons.injEq] at htail
      simpa [hwire, htail.1, eq_comm] using hpacket

theorem State.wire_prefix_outgoing (s : State) : s.wire <+: s.outgoing :=
  ⟨s.inFlight ++ s.sendList, by simp [State.outgoing]⟩

theorem sendListFacts_init : SendListFacts {} where
  idle _ := ⟨rfl, rfl⟩
  unsent _ _ := rfl
  started h := by cases h
  running h := by cases h
  requesting h := by cases h
  requested h := h.elim
  sent := ⟨by simp, by simp⟩

/-- A step that pushes nothing, sends nothing and moves neither the loop thread
nor the caller past the positions the invariant speaks about. -/
theorem SendListFacts.frame {s t : State} (facts : SendListFacts s)
    (hwire : t.wire = s.wire) (hloop : t.loopThread = s.loopThread)
    (hlist : t.sendList = s.sendList) (hconnection : t.connection = s.connection)
    (hrequested : t.requested = s.requested)
    (hclearing : s.caller.Clearing → t.caller.Clearing)
    (hrequest : t.caller = .joinRequest → s.caller = .joinRequest)
    (hafter : t.caller.Requested → s.caller.Requested) : SendListFacts t where
  idle h := by
    simpa [State.inFlight, hloop, hlist] using facts.idle (hrequested ▸ h)
  unsent h hne := hwire.trans (facts.unsent (hrequested ▸ h) (hloop ▸ hne))
  started h := by
    obtain ⟨rest, hrest, hown⟩ := facts.started (hrequested ▸ h)
    refine ⟨rest, ?_, fun packet hpacket => (hown packet hpacket).trans hconnection.symm⟩
    rw [hconnection, ← hrest]
    simp [State.outgoing, State.inFlight, hwire, hloop, hlist]
  running h := (facts.running (hrequested ▸ h)).imp (fun hne => hloop ▸ hne) hclearing
  requesting h := by
    rw [hrequested, hloop]
    exact facts.requesting (hrequest h)
  requested h := hrequested.trans (facts.requested (hafter h))
  sent := by
    refine ⟨fun packet hpacket => ?_, fun packet hpacket => ?_⟩
    · rw [hconnection]
      exact facts.sent.first packet (hwire ▸ hpacket)
    · exact (facts.sent.own packet (hwire ▸ hpacket)).trans hconnection.symm

/-- A push after the request. -/
theorem SendListFacts.push {s : State} (facts : SendListFacts s)
    (hrequested : s.requested = true) (type : PacketType) : SendListFacts (s.push type) where
  idle h := by simp [State.push, hrequested] at h
  unsent h := by simp [State.push, hrequested] at h
  started _ := by
    have hpacket : s.Owns ⟨type, s.connection⟩ := rfl
    have hstarted := (facts.started hrequested).append hpacket
    simpa [State.StartsWithRequest, State.outgoing, State.inFlight, State.push, State.Owns]
      using hstarted
  running := facts.running
  requesting := facts.requesting
  requested := facts.requested
  sent := ⟨facts.sent.first, facts.sent.own⟩

/-- A step of the loop thread: it moves packets along the line. -/
theorem SendListFacts.advance {s t : State} (facts : SendListFacts s)
    (hloop : s.loopThread ≠ none) (hrunning : t.loopThread ≠ none)
    (hline : t.outgoing = s.outgoing) (hconnection : t.connection = s.connection)
    (hrequested : t.requested = s.requested) (hcaller : t.caller = s.caller) :
    SendListFacts t := by
  have hstarted (h : s.requested = true) : t.StartsWithRequest t.outgoing := by
    obtain ⟨rest, hrest, hown⟩ := facts.started h
    exact ⟨rest, by rw [hline, hconnection, hrest],
      fun packet hpacket => (hown packet hpacket).trans hconnection.symm⟩
  have hempty (h : s.requested = false) : t.wire = [] ∧ t.inFlight = [] ∧ t.sendList = [] := by
    have hnone : s.outgoing = [] := by
      simp [State.outgoing, facts.idle h, facts.unsent h hloop]
    simpa [State.outgoing] using hline.trans hnone
  exact
    { idle := fun h => (hempty (hrequested ▸ h)).2
      unsent := fun h _ => (hempty (hrequested ▸ h)).1
      started := fun h => hstarted (hrequested ▸ h)
      running := fun _ => .inl hrunning
      requesting := fun h => ⟨hrequested.trans (facts.requesting (hcaller ▸ h)).1, hrunning⟩
      requested := fun h => hrequested.trans (facts.requested (hcaller ▸ h))
      sent := by
        cases h : s.requested with
        | true => exact (hstarted h).ownRequestFirst t.wire_prefix_outgoing
        | false => exact ⟨by simp [hempty h], by simp [hempty h]⟩ }

/-! ## The steps of the three threads -/

theorem sendListFacts_callerEffect {s t : State} (inv : Wellformed s) (facts : SendListFacts s)
    (h : CallerEffect s t) : SendListFacts t := by
  cases h with
  | move position _ _ _ _ clearing request requested =>
      exact facts.frame rfl rfl rfl rfl rfl clearing (absurd · request) requested
  | leaveIdle position _ _ clearing request requested =>
      exact facts.frame rfl rfl rfl rfl rfl (absurd · clearing) (absurd · request)
        (absurd · requested)
  | setJoining position _ clearing request requested =>
      exact facts.frame rfl rfl rfl rfl rfl (absurd · clearing) (absurd · request)
        (absurd · requested)
  | failIdle position _ clearing request requested =>
      exact facts.frame rfl rfl rfl rfl rfl (absurd · clearing) (absurd · request)
        (absurd · requested)
  | joinThread back before done =>
      have hflight : s.inFlight = [] := by simp [State.inFlight, done, LoopPosition.inFlight]
      exact
        { idle := fun h => ⟨rfl, (facts.idle h).2⟩
          unsent := fun _ hne => absurd rfl hne
          started := fun h => by
            have hstarted := facts.started h
            rw [State.outgoing, hflight] at hstarted
            exact hstarted
          running := fun _ => .inr trivial
          requesting := fun h => by cases h
          requested := fun h => h.elim
          sent := ⟨facts.sent.first, facts.sent.own⟩ }
  | clear back before =>
      have hnone := inv.noLoop (by simp [before, CallerPosition.NoLoop])
      have hflight : s.inFlight = [] := by simp [State.inFlight, hnone]
      exact
        { idle := fun _ => ⟨hflight, rfl⟩
          unsent := fun _ hne => absurd hnone hne
          started := fun h => by cases h
          running := fun h => by cases h
          requesting := fun h => by cases back <;> cases h
          requested := fun h => by cases back <;> exact h.elim
          sent := ⟨facts.sent.first, facts.sent.own⟩ }
  | startLoop before =>
      have hnone := inv.noLoop (by simp [before, CallerPosition.NoLoop])
      have hnotRequested : s.requested = false := by
        by_contra h
        rcases facts.running (by simpa using h) with hrunning | hclearing
        · exact hrunning hnone
        · simp [before, CallerPosition.Clearing] at hclearing
      exact
        { idle := fun _ => ⟨rfl, (facts.idle hnotRequested).2⟩
          unsent := fun _ _ => rfl
          started := fun h => by simp [hnotRequested] at h
          running := fun h => by simp [hnotRequested] at h
          requesting := fun _ => ⟨hnotRequested, by simp⟩
          requested := fun h => h.elim
          sent := ⟨by simp, by simp⟩ }
  | request before =>
      obtain ⟨hnotRequested, hrunning⟩ := facts.requesting before
      have hwire := facts.unsent hnotRequested hrunning
      obtain ⟨hflight, hlist⟩ := facts.idle hnotRequested
      exact
        { idle := fun h => by cases h
          unsent := fun h => by cases h
          started := fun _ => ⟨[], by
            simpa [State.outgoing, State.push, State.inFlight, hwire, hlist] using hflight,
            by simp⟩
          running := fun _ => .inl hrunning
          requesting := fun h => by cases h
          requested := fun _ => rfl
          sent := ⟨by simp [State.push, hwire], by simp [State.push, hwire]⟩ }
  | gameInfo before =>
      have hrequested := facts.requested (by simp [before, CallerPosition.Requested])
      exact (facts.push hrequested .setGameInfo).frame rfl rfl rfl rfl rfl
        (fun h => by simp [State.push, before, CallerPosition.Clearing] at h)
        (fun h => by cases h) (fun h => h.elim)

/-- The loop thread moves packets along the line and touches nothing else that the
invariant speaks about. -/
theorem loopStep_outgoing {s t : State} {input : LoopInput} (h : loopStep s input = some t) :
    t.outgoing = s.outgoing ∧ t.connection = s.connection ∧ t.requested = s.requested := by
  unfold loopStep at h
  split at h
  case h_6 op ops hloop =>
    cases h
    have hflight : (handlerStep op ops s).inFlight = [] := by
      rcases handlerStep_position op ops s with ⟨rest, h⟩ | h | h <;>
        simp [State.inFlight, h, LoopPosition.inFlight]
    have hflight' : s.inFlight = [] := by simp [State.inFlight, hloop, LoopPosition.inFlight]
    simp [State.outgoing, hflight, hflight']
  case h_10 hloop =>
    cases h
    unfold disconnect
    repeat' split
    all_goals simp [State.outgoing, State.inFlight, State.loopAt, LoopPosition.inFlight, hloop]
  all_goals repeat' (split at h)
  all_goals cases h
  all_goals
    simp [State.outgoing, State.inFlight, State.loopAt, LoopPosition.inFlight, *]

theorem sendListFacts_emulationStep {s t : State} {input : EmulationInput}
    (facts : SendListFacts s) (after : PushesAfterRequest s (.emulation input))
    (h : emulationStep s input = some t) : SendListFacts t := by
  unfold emulationStep at h
  split at h
  case h_10 hemulation =>
    cases h
    exact (facts.push (after (.inl hemulation)) .wifiPacket).frame rfl rfl rfl rfl rfl id id id
  case h_13 hemulation =>
    cases h
    exact (facts.push (after (.inr hemulation)) .setGameInfo).frame rfl rfl rfl rfl rfl id id id
  all_goals repeat (split at h)
  all_goals cases h
  all_goals exact facts.frame rfl rfl rfl rfl rfl id id id

/-- **The send list under the condition.** -/
theorem sendListFacts_of_reachableVia {s : State}
    (h : system.ReachableVia PushesAfterRequest s) : SendListFacts s := by
  refine h.invariant SendListFacts (fun s hs => ?_) (fun s label t prior ok facts hs => ?_)
  · cases hs
    exact sendListFacts_init
  · cases label with
    | caller input =>
        exact sendListFacts_callerEffect (wellformed_of_reachable prior.reachable) facts
          (callerStep_effect hs)
    | loop input =>
        obtain ⟨hloop, hrunning, hcaller⟩ := loopStep_thread hs
        obtain ⟨hline, hconnection, hrequested⟩ := loopStep_outgoing hs
        exact facts.advance hloop hrunning hline hconnection hrequested hcaller
    | emulation input => exact sendListFacts_emulationStep facts ok hs

/-! ## The result -/

/-- **Each connection starts with its own join request**, in every run in which the
emulation thread pushes only between a join request and the next `clear()`. -/
theorem ownRequestFirst_of_pushesAfterRequest {s : State}
    (h : system.ReachableVia PushesAfterRequest s) : OwnRequestFirst s :=
  (sendListFacts_of_reachableVia h).sent

/-- The emulation thread checks the state and stops in front of its push. -/
def wifiPacketChecked : List Label := .emulation .sendPacket :: List.replicate 4 (.emulation .go)

/-- The rest of a `Leave` that has stored `Idle`, and the end of its loop. -/
def leaveReturns : List Label :=
  callerGoes 2 ++ [.loop .quiet] ++ loopGoes 7 ++ callerGoes 3

/-- A connection on which a packet of the emulation thread follows the request. -/
theorem ownRequestFirst_wifiPacket :
    ∃ s : State, s.wire.map Packet.type = [.joinRequest, .setGameInfo, .wifiPacket] ∧
      OwnRequestFirst s := by
  obtain ⟨s, hreach, hwire⟩ :=
    System.exists_reachableVia_of_runVia (S := system) PushesAfterRequest rfl
      (joinsRoom ++ wifiPacketChecked ++ [.emulation .go, .loop .quiet] ++ loopGoes 2)
      (fun s => s.wire.map Packet.type = [.joinRequest, .setGameInfo, .wifiPacket])
      (by decide +kernel)
  exact ⟨s, hwire, ownRequestFirst_of_pushesAfterRequest hreach⟩

/-- The push falls behind a whole `Leave`, and a second `Join` sends its list. -/
def wifiPacketOvertakes : List Label :=
  joinsRoom ++ wifiPacketChecked ++ leaveStoresIdle ++ leaveReturns ++ [.emulation .go] ++
    joinConnects ++ joinReturns ++ loopGoes 1 ++ [.loop .quiet] ++ loopGoes 2

/-- **The request of a connection can be overtaken.** A packet that was checked on
the first connection is the first one sent on the second. -/
theorem wifiPacket_overtakes_joinRequest :
    ∃ s, system.Reachable s ∧ s.connection = 2 ∧ s.wire = [⟨.wifiPacket, 1⟩] ∧
      ¬ OwnRequestFirst s := by
  obtain ⟨s, hreach, hconnection, hwire⟩ :=
    System.exists_reachable_of_run (S := system) rfl wifiPacketOvertakes
      (fun s => s.connection = 2 ∧ s.wire = [⟨.wifiPacket, 1⟩]) (by decide +kernel)
  refine ⟨s, hreach, hconnection, hwire, fun own => ?_⟩
  have hfirst := own.first ⟨.wifiPacket, 1⟩ (by simp [hwire])
  cases hfirst

end ManicRoom.Member
