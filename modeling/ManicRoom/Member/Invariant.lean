/-
# What every reachable member state satisfies

Three facts carry the later arguments. The caller owns the loop thread: from the
moment `Leave` has joined it until `Join` starts the next one there is none. The
member is in the room only while its loop runs, so no thread finds a stale
`Joined` between two connections. And whenever it is in the room, the MAC address
is one that a join success of the current connection assigned.
-/

import ManicRoom.Member.Effect

namespace ManicRoom.Member

open ManicRoom.Foundation

/-- No operation enters the room before one that assigns the MAC address. -/
def MacFirst : List HandlerOp → Prop
  | [] => True
  | .storeMac _ :: _ => True
  | .setState state :: ops | .store state :: ops => ¬ state.InRoom ∧ MacFirst ops
  | _ :: ops => MacFirst ops

theorem macFirst_handleEvent (event : Event) : MacFirst (handleEvent event) := by
  cases event with
  | receive message =>
      cases message <;> simp [handleEvent, handleMessage, reject, MacFirst]
  | _ => simp [handleEvent, reject, MacFirst]

/-- The current MAC address was assigned on the current connection. -/
def State.MacAssigned (s : State) : Prop :=
  (s.connection, s.macAddress) ∈ s.assignedMacs

/-- The invariant of the loop thread at one position. -/
def LoopFacts (s : State) : LoopPosition → Prop
  | .check loads => (s.state.IsConnected → s.state ∈ loads) ∧ ∀ state ∈ loads, state.IsConnected
  | .handle ops => s.MacAssigned ∨ MacFirst ops
  | .disconnect | .linger | .done => ¬ s.state.IsConnected
  | _ => True

/-- The invariant of the member. -/
structure Wellformed (s : State) : Prop where
  noLoop : s.caller.NoLoop → s.loopThread = none
  absent : s.loopThread = none → ¬ s.state.InRoom
  loop : ∀ position, s.loopThread = some position → LoopFacts s position
  mac : s.state.InRoom → s.MacAssigned

theorem wellformed_init : Wellformed {} where
  noLoop _ := rfl
  absent _ := by decide
  loop position h := by cases h
  mac h := absurd h (by decide)

/-- The loop facts survive a step that keeps the MAC history and stores nothing
but `Idle` in the state. -/
theorem LoopFacts.of_idle {s t : State} {position : LoopPosition}
    (facts : LoopFacts s position) (hstate : t.state = s.state ∨ t.state = .idle)
    (hmac : s.MacAssigned → t.MacAssigned) : LoopFacts t position := by
  have hconnected : t.state.IsConnected → t.state = s.state := by
    intro h
    rcases hstate with hsame | hidle
    · exact hsame
    · exact absurd (hidle ▸ h) MemberState.not_isConnected_idle
  cases position with
  | check loads =>
      exact ⟨fun h => hconnected h ▸ facts.1 (hconnected h ▸ h), facts.2⟩
  | handle ops => exact facts.imp hmac id
  | disconnect => exact fun h => facts (hconnected h ▸ h)
  | linger => exact fun h => facts (hconnected h ▸ h)
  | done => exact fun h => facts (hconnected h ▸ h)
  | service => trivial
  | swap => trivial
  | send packets => trivial
  | aborted => trivial

/-- A step of another thread that keeps the loop thread, keeps the MAC history
and stores nothing but `Idle` in the state. -/
theorem Wellformed.frame {s t : State} (inv : Wellformed s)
    (hnoLoop : t.caller.NoLoop → s.loopThread = none)
    (hloop : t.loopThread = s.loopThread) (hstate : t.state = s.state ∨ t.state = .idle)
    (hmac : s.MacAssigned → t.MacAssigned) : Wellformed t where
  noLoop h := hloop.trans (hnoLoop h)
  absent h := by
    rcases hstate with hsame | hidle
    · exact hsame ▸ inv.absent (hloop ▸ h)
    · exact hidle ▸ MemberState.not_inRoom_idle
  loop position h := (inv.loop position (hloop ▸ h)).of_idle hstate hmac
  mac h := by
    rcases hstate with hsame | hidle
    · exact hmac (inv.mac (hsame ▸ h))
    · exact absurd (hidle ▸ h) MemberState.not_inRoom_idle

theorem wellformed_callerEffect {s t : State} (inv : Wellformed s)
    (h : CallerEffect s t) : Wellformed t := by
  cases h with
  | move _ _ _ _ noLoop =>
      exact inv.frame (fun h => (noLoop h).elim id inv.noLoop) rfl (.inl rfl) id
  | leaveIdle _ _ noLoop => exact inv.frame (fun h => absurd h noLoop) rfl (.inr rfl) id
  | failIdle _ before => exact inv.frame (fun _ => inv.noLoop before) rfl (.inr rfl) id
  | setJoining _ before =>
      have hnone := inv.noLoop before
      exact
        { noLoop := fun _ => hnone
          absent := fun _ => MemberState.not_inRoom_joining
          loop := fun position h => by cases hnone.symm.trans h
          mac := fun h => absurd h MemberState.not_inRoom_joining }
  | joinThread back before done =>
      have hout : ¬ s.state.InRoom := fun h => inv.loop _ done h.isConnected
      exact
        { noLoop := fun _ => rfl
          absent := fun _ => hout
          loop := fun position h => by cases h
          mac := fun h => absurd h hout }
  | clear back before =>
      exact inv.frame (fun _ => inv.noLoop (by simp [before, CallerPosition.NoLoop])) rfl
        (.inl rfl) id
  | startLoop before =>
      have hnone := inv.noLoop (by simp [before, CallerPosition.NoLoop])
      exact
        { noLoop := fun h => absurd h (by simp [CallerPosition.NoLoop])
          absent := fun h => by cases h
          loop := fun position h => by
            cases h
            exact ⟨mem_connectedLoads.mpr, fun state => mem_connectedLoads.mp⟩
          mac := fun h => absurd h (inv.absent hnone) }
  | request before =>
      exact inv.frame (fun h => absurd h (by simp [CallerPosition.NoLoop])) rfl (.inl rfl) id
  | gameInfo before =>
      exact inv.frame (fun h => absurd h (by simp [CallerPosition.NoLoop])) rfl (.inl rfl) id

/-- A step of the loop thread: it moves to a position whose facts hold. -/
theorem Wellformed.loopTo {s t : State} {position : LoopPosition} (inv : Wellformed s)
    (hrunning : s.loopThread ≠ none) (hcaller : t.caller = s.caller)
    (hloop : t.loopThread = some position) (facts : LoopFacts t position)
    (hmac : t.state.InRoom → t.MacAssigned) : Wellformed t where
  noLoop h := absurd (inv.noLoop (hcaller ▸ h)) hrunning
  absent h := by simp [hloop] at h
  loop other h := by
    cases hloop.symm.trans h
    exact facts
  mac := hmac

theorem wellformed_handlerStep {s : State} {op : HandlerOp} {ops : List HandlerOp}
    (inv : Wellformed s) (hloop : s.loopThread = some (.handle (op :: ops))) :
    Wellformed (handlerStep op ops s) := by
  have hrunning : s.loopThread ≠ none := by simp [hloop]
  have facts : s.MacAssigned ∨ MacFirst (op :: ops) := inv.loop _ hloop
  have stay {rest : List HandlerOp} (hrest : s.MacAssigned ∨ MacFirst rest) :
      Wellformed (s.loopAt (.handle rest)) :=
    inv.loopTo hrunning rfl rfl hrest inv.mac
  have leave {position : LoopPosition} (h : LoopFacts s position) :
      Wellformed (s.loopAt position) :=
    inv.loopTo hrunning rfl rfl h inv.mac
  cases op with
  | setState state =>
      simp only [handlerStep]
      split
      · exact stay (facts.imp_right fun h => h.2)
      · exact stay facts
  | store state =>
      refine inv.loopTo hrunning rfl rfl (facts.imp_right fun h => h.2) fun h => ?_
      exact facts.elim id fun first => absurd h first.1
  | load => exact stay facts
  | invokeState state => exact stay facts
  | setError error => exact stay facts
  | storeMac mac =>
      have hassigned : (s.connection, mac) ∈ (s.connection, mac) :: s.assignedMacs :=
        List.mem_cons_self
      exact inv.loopTo hrunning rfl rfl (.inl hassigned) fun _ => hassigned
  | storeMembers members => exact inv.loopTo hrunning rfl rfl facts inv.mac
  | invokeRoomInformation => exact stay facts
  | invokeOther => exact stay facts
  | assertMembers =>
      simp only [handlerStep]
      split
      · exact leave trivial
      · exact stay facts
  | assertFalse => exact leave trivial
  | whenIn loads =>
      cases loads with
      | nil => exact leave trivial
      | cons state loads =>
          simp only [handlerStep]
          split
          · exact stay facts
          · exact stay facts

theorem wellformed_loopStep {s t : State} {input : LoopInput} (inv : Wellformed s)
    (h : loopStep s input = some t) : Wellformed t := by
  have hrunning : s.loopThread ≠ none := by
    intro hnone
    simp [loopStep, hnone] at h
  -- Every step but those of a handler keeps the state and the MAC history.
  have moveTo (position : LoopPosition) {t : State} (facts : LoopFacts t position)
      (hcaller : t.caller = s.caller) (hloop : t.loopThread = some position)
      (hstate : t.state = s.state) (hmac : s.MacAssigned → t.MacAssigned) : Wellformed t :=
    inv.loopTo hrunning hcaller hloop facts fun h => hmac (inv.mac (hstate ▸ h))
  unfold loopStep at h
  split at h
  case h_1 hloop =>
    cases h
    have facts := inv.loop _ hloop
    exact moveTo .disconnect (fun h => by simpa using facts.1 h) rfl rfl rfl id
  case h_2 state loads hloop =>
    have facts := inv.loop _ hloop
    split at h
    · cases h
      exact moveTo .service trivial rfl rfl rfl id
    · next hne =>
      cases h
      refine moveTo (.check loads) ⟨fun h => ?_, fun q hq => ?_⟩ rfl rfl rfl id
      · exact (List.mem_cons.mp (facts.1 h)).resolve_left hne
      · exact facts.2 q (List.mem_cons_of_mem _ hq)
  case h_3 event hloop =>
    cases h
    exact moveTo (.handle _) (.inr (macFirst_handleEvent event)) rfl rfl rfl id
  case h_6 op ops hloop =>
    cases h
    exact wellformed_handlerStep inv hloop
  case h_8 hloop =>
    cases h
    refine moveTo (.check _) ?_ rfl rfl rfl id
    exact ⟨mem_connectedLoads.mpr, fun state => mem_connectedLoads.mp⟩
  case h_10 hloop =>
    cases h
    have facts : ¬ s.state.IsConnected := inv.loop _ hloop
    unfold disconnect
    split
    · split
      · exact moveTo .done facts rfl rfl rfl id
      · exact moveTo .linger facts rfl rfl rfl id
    · exact moveTo .done facts rfl rfl rfl id
  case h_11 hloop =>
    have facts : ¬ s.state.IsConnected := inv.loop _ hloop
    split at h
    · cases h
      exact moveTo .done facts rfl rfl rfl id
    · cases h
  case h_12 hloop =>
    cases h
    exact moveTo .done (inv.loop _ hloop :) rfl rfl rfl id
  case h_15 hloop =>
    cases h
    exact moveTo .done (inv.loop _ hloop :) rfl rfl rfl id
  case h_13 => cases h; exact inv
  case h_14 => cases h; exact inv
  case h_16 => cases h
  all_goals
    cases h
    exact inv.loopTo hrunning rfl rfl trivial inv.mac

theorem wellformed_emulationStep {s t : State} {input : EmulationInput} (inv : Wellformed s)
    (h : emulationStep s input = some t) : Wellformed t := by
  unfold emulationStep at h
  split at h
  all_goals repeat (split at h)
  all_goals cases h
  all_goals exact inv.frame inv.noLoop rfl (.inl rfl) id

theorem wellformed_step {s t : State} {label : Label} (inv : Wellformed s)
    (h : step s label = some t) : Wellformed t := by
  cases label with
  | caller input => exact wellformed_callerEffect inv (callerStep_effect h)
  | loop input => exact wellformed_loopStep inv h
  | emulation input => exact wellformed_emulationStep inv h

/-- **The invariant holds in every reachable state.** -/
theorem wellformed_of_reachable {s : State} (h : system.Reachable s) : Wellformed s :=
  System.Reachable.invariant Wellformed (fun _ hs => by cases hs; exact wellformed_init)
    (fun _ _ _ _ inv hs => wellformed_step inv hs) h

end ManicRoom.Member
