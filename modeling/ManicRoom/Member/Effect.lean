/-
# What one step of each thread can do

The step functions of `Member.Model` have a branch for every program position.
The invariants do not care about most of them: they ask which shared field a step
writes and what its position says about that. This module answers the question
once for the caller, by sorting its steps into the few kinds that differ in the
fields they write, and records which fields an event handler leaves alone.
-/

import ManicRoom.Member.Model

namespace ManicRoom.Member

/-- Positions of the caller at which no loop thread exists. -/
def CallerPosition.NoLoop : CallerPosition → Prop
  | .leaveDestroyHost _ | .leaveClear _ | .joinCreateHost | .joinImmediate
  | .joinSetJoining _ | .joinResolve | .joinConnect | .joinCancelled | .joinService
  | .joinStartLoop | .joinFail _ _ _ | .joinError _ _ => True
  | _ => False

/-- Positions of `Leave` between the end of its loop thread and the end of its
`send_list.clear()`. -/
def CallerPosition.Clearing : CallerPosition → Prop
  | .leaveDestroyHost _ | .leaveClear _ => True
  | _ => False

/-- Positions of `Join` after it pushed its join request. -/
def CallerPosition.Requested : CallerPosition → Prop
  | .joinGameInfoCheck _ | .joinGameInfo => True
  | _ => False

/-- The step of the caller at this position stores `Idle` on behalf of `Leave`, or
finds that the state is `Idle` already. -/
def State.LeaveSetsIdle (s : State) : Prop :=
  match s.caller with
  | .leaveSetIdle _ .compare => s.state = .idle
  | .leaveSetIdle _ .store => True
  | _ => False

instance (s : State) : Decidable s.LeaveSetsIdle := by
  unfold State.LeaveSetsIdle
  split <;> infer_instance

/-- The kinds of caller steps. Whatever a kind does not mention is unchanged, and
`position` is where the caller goes. -/
inductive CallerEffect (s : State) : State → Prop
  /-- Nothing changes that another thread can see, `immediate_disconnect` and the
  ENet pointers apart. -/
  | move (position : CallerPosition) (immediate client server : Bool)
      (noLoop : position.NoLoop → s.loopThread = none ∨ s.caller.NoLoop)
      (clearing : s.caller.Clearing → position.Clearing)
      (request : position ≠ .joinRequest)
      (requested : position.Requested → s.caller.Requested) :
      CallerEffect s
        { s with immediateDisconnect := immediate, client := client, server := server,
                 caller := position }
  /-- `Leave` makes sure that the state is `Idle`. -/
  | leaveIdle (position : CallerPosition) (sets : s.LeaveSetsIdle)
      (noLoop : ¬ position.NoLoop) (clearing : ¬ s.caller.Clearing)
      (request : position ≠ .joinRequest) (requested : ¬ position.Requested) :
      CallerEffect s { s.markLeft with state := .idle, caller := position }
  /-- `Join` makes sure that the state is `Joining`. -/
  | setJoining (position : CallerPosition) (before : s.caller.NoLoop)
      (clearing : ¬ s.caller.Clearing)
      (request : position ≠ .joinRequest) (requested : ¬ position.Requested) :
      CallerEffect s { s with state := .joining, left := false, caller := position }
  /-- `Join` gives up and stores `Idle`. -/
  | failIdle (position : CallerPosition) (before : s.caller.NoLoop)
      (clearing : ¬ s.caller.Clearing)
      (request : position ≠ .joinRequest) (requested : ¬ position.Requested) :
      CallerEffect s { s with state := .idle, caller := position }
  /-- `loop_thread->join()` returns. -/
  | joinThread (back : LeaveReturn) (before : s.caller = .leaveJoin back)
      (done : s.loopThread = some .done) :
      CallerEffect s { s with loopThread := none, caller := .leaveDestroyHost back }
  /-- `send_list.clear()`. -/
  | clear (back : LeaveReturn) (before : s.caller = .leaveClear back) :
      CallerEffect s { s with sendList := [], requested := false, caller := back.position }
  /-- `StartLoop()`. -/
  | startLoop (before : s.caller = .joinStartLoop) :
      CallerEffect s
        { s with loopThread := some (.check connectedLoads), connection := s.connection + 1,
                 wire := [], caller := .joinRequest }
  /-- `SendJoinRequest(..)`. -/
  | request (before : s.caller = .joinRequest) :
      CallerEffect s
        { s.push .joinRequest with
          requested := true, caller := .joinGameInfoCheck connectedLoads }
  /-- The push of `SendGameInfo(current_game_info)`. -/
  | gameInfo (before : s.caller = .joinGameInfo) :
      CallerEffect s { s.push .setGameInfo with caller := .rest }

theorem leaveSetIdle_effect {s : State} {back : LeaveReturn} {phase : SetStatePhase}
    (hcaller : s.caller = .leaveSetIdle back phase) :
    CallerEffect s (leaveSetIdle back phase s) := by
  cases phase with
  | compare =>
      by_cases hidle : s.state = .idle
      · have key := CallerEffect.leaveIdle (s := s) (.leaveJoin back)
          (by simp [State.LeaveSetsIdle, hcaller, hidle]) (by simp [CallerPosition.NoLoop])
          (by simp [hcaller, CallerPosition.Clearing]) (by simp)
          (by simp [CallerPosition.Requested])
        simpa [leaveSetIdle, setStateStep, hidle, State.markLeft] using key
      · have key := CallerEffect.move (s := s) (.leaveSetIdle back .store)
          s.immediateDisconnect s.client s.server (by simp [CallerPosition.NoLoop])
          (by simp [hcaller, CallerPosition.Clearing]) (by simp)
          (by simp [CallerPosition.Requested])
        simpa [leaveSetIdle, setStateStep, hidle] using key
  | store =>
      exact CallerEffect.leaveIdle (s := s) (.leaveSetIdle back .load)
        (by simp [State.LeaveSetsIdle, hcaller]) (by simp [CallerPosition.NoLoop])
        (by simp [hcaller, CallerPosition.Clearing]) (by simp)
        (by simp [CallerPosition.Requested])
  | load =>
      exact CallerEffect.move (s := s) (.leaveSetIdle back (.invoke s.state))
        s.immediateDisconnect s.client s.server (by simp [CallerPosition.NoLoop])
        (by simp [hcaller, CallerPosition.Clearing]) (by simp)
        (by simp [CallerPosition.Requested])
  | invoke state =>
      exact CallerEffect.move (s := s) (.leaveJoin back)
        s.immediateDisconnect s.client s.server (by simp [CallerPosition.NoLoop])
        (by simp [hcaller, CallerPosition.Clearing]) (by simp)
        (by simp [CallerPosition.Requested])

theorem joinSetJoining_effect {s : State} {phase : SetStatePhase}
    (hcaller : s.caller = .joinSetJoining phase) :
    CallerEffect s (joinSetJoining phase s) := by
  have hnoLoop : s.caller.NoLoop := by simp [hcaller, CallerPosition.NoLoop]
  have hclearing : ¬ s.caller.Clearing := by simp [hcaller, CallerPosition.Clearing]
  cases phase with
  | compare =>
      by_cases hjoining : s.state = .joining
      · have key := CallerEffect.setJoining (s := s) .joinResolve hnoLoop hclearing
          (by simp) (by simp [CallerPosition.Requested])
        simpa [joinSetJoining, setStateStep, hjoining] using key
      · have key := CallerEffect.move (s := s) (.joinSetJoining .store)
          s.immediateDisconnect s.client s.server (fun _ => .inr hnoLoop)
          (absurd · hclearing) (by simp) (by simp [CallerPosition.Requested])
        simpa [joinSetJoining, setStateStep, hjoining] using key
  | store =>
      exact CallerEffect.setJoining (s := s) (.joinSetJoining .load) hnoLoop
        hclearing (by simp) (by simp [CallerPosition.Requested])
  | load =>
      exact CallerEffect.move (s := s) (.joinSetJoining (.invoke s.state))
        s.immediateDisconnect s.client s.server (fun _ => .inr hnoLoop)
        (absurd · hclearing) (by simp) (by simp [CallerPosition.Requested])
  | invoke state =>
      exact CallerEffect.move (s := s) .joinResolve
        s.immediateDisconnect s.client s.server (fun _ => .inr hnoLoop)
        (absurd · hclearing) (by simp) (by simp [CallerPosition.Requested])

theorem joinFail_effect {s : State} {error : MemberError} {thenLeave : Bool}
    {phase : SetStatePhase} (hcaller : s.caller = .joinFail error thenLeave phase) :
    CallerEffect s (joinFail error thenLeave phase s) := by
  have hnoLoop : s.caller.NoLoop := by simp [hcaller, CallerPosition.NoLoop]
  have hclearing : ¬ s.caller.Clearing := by simp [hcaller, CallerPosition.Clearing]
  cases phase with
  | compare =>
      by_cases hidle : s.state = .idle
      · have key := CallerEffect.move (s := s) (.joinError error thenLeave)
          s.immediateDisconnect s.client s.server (fun _ => .inr hnoLoop)
          (absurd · hclearing) (by simp) (by simp [CallerPosition.Requested])
        simpa [joinFail, setStateStep, hidle] using key
      · have key := CallerEffect.move (s := s) (.joinFail error thenLeave .store)
          s.immediateDisconnect s.client s.server (fun _ => .inr hnoLoop)
          (absurd · hclearing) (by simp) (by simp [CallerPosition.Requested])
        simpa [joinFail, setStateStep, hidle] using key
  | store =>
      exact CallerEffect.failIdle (s := s) (.joinFail error thenLeave .load)
        hnoLoop hclearing (by simp) (by simp [CallerPosition.Requested])
  | load =>
      exact CallerEffect.move (s := s) (.joinFail error thenLeave (.invoke s.state))
        s.immediateDisconnect s.client s.server (fun _ => .inr hnoLoop)
        (absurd · hclearing) (by simp) (by simp [CallerPosition.Requested])
  | invoke state =>
      exact CallerEffect.move (s := s) (.joinError error thenLeave)
        s.immediateDisconnect s.client s.server (fun _ => .inr hnoLoop)
        (absurd · hclearing) (by simp) (by simp [CallerPosition.Requested])

/-- A move whose conditions follow from the two positions alone. -/
theorem CallerEffect.ofMove {s : State} {position : CallerPosition}
    (immediate client server : Bool)
    (noLoop : position.NoLoop → s.loopThread = none ∨ s.caller.NoLoop)
    (clearing : s.caller.Clearing → position.Clearing) (request : position ≠ .joinRequest)
    (requested : position.Requested → s.caller.Requested) {t : State}
    (ht : { s with immediateDisconnect := immediate, client := client, server := server,
                   caller := position } = t) : CallerEffect s t :=
  ht ▸ .move position immediate client server noLoop clearing request requested

/-- **Inversion for the caller.** -/
theorem callerStep_effect {s t : State} {input : CallerInput}
    (h : callerStep s input = some t) : CallerEffect s t := by
  unfold callerStep at h
  split at h
  case h_4 back phase hcaller =>
    cases h
    exact leaveSetIdle_effect hcaller
  case h_5 back hcaller =>
    split at h
    · next hnone =>
      cases h
      exact .ofMove _ _ _ (fun _ => .inl hnone) (by simp [hcaller, CallerPosition.Clearing])
        (by simp) (by simp [CallerPosition.Requested]) rfl
    · next hdone =>
      cases h
      exact .joinThread back hcaller hdone
    · cases h
  case h_7 back hcaller =>
    cases h
    exact .clear back hcaller
  case h_8 hcaller =>
    split at h
    · cases h
      exact .ofMove _ _ _ (by simp [CallerPosition.NoLoop])
        (by simp [hcaller, CallerPosition.Clearing]) (by simp)
        (by simp [CallerPosition.Requested]) rfl
    · next hsome =>
      cases h
      exact .ofMove _ _ _ (fun _ => .inl (by simpa using hsome))
        (by simp [hcaller, CallerPosition.Clearing]) (by simp)
        (by simp [CallerPosition.Requested]) rfl
  case h_12 phase hcaller =>
    cases h
    exact joinSetJoining_effect hcaller
  case h_22 hcaller =>
    cases h
    exact .startLoop hcaller
  case h_23 hcaller =>
    cases h
    exact .request hcaller
  case h_26 hcaller =>
    cases h
    exact .gameInfo hcaller
  case h_27 error thenLeave phase hcaller =>
    cases h
    exact joinFail_effect hcaller
  case h_30 position _ =>
    split at h
    · next hthrow =>
      cases h
      refine .ofMove _ _ _ (by simp [CallerPosition.NoLoop]) (fun hclearing => ?_) (by simp)
        (by simp [CallerPosition.Requested]) rfl
      cases hcaller : s.caller <;>
        simp_all [CallerPosition.Clearing, CallerPosition.MayThrow]
    · cases h
  -- The remaining steps move the caller along without touching shared state.
  all_goals repeat (split at h)
  all_goals cases h
  all_goals
    exact .ofMove _ _ _ (by simp [*, CallerPosition.NoLoop])
      (by simp [*, CallerPosition.Clearing]) (by simp)
      (by simp [*, CallerPosition.Requested]) rfl

/-! ## The frame of an event handler -/

section HandlerFrame

variable (op : HandlerOp) (ops : List HandlerOp) (s : State)

/-- A handler writes the state, the MAC address, the member list and its own
position, and nothing else. -/
theorem handlerStep_frame :
    handlerStep op ops s =
      { s with state := (handlerStep op ops s).state,
               macAddress := (handlerStep op ops s).macAddress,
               memberInformation := (handlerStep op ops s).memberInformation,
               loopThread := (handlerStep op ops s).loopThread,
               assignedMacs := (handlerStep op ops s).assignedMacs } := by
  unfold handlerStep
  split <;> first | rfl | (split <;> rfl)

/-- A handler goes on with its case, leaves the `switch` or fails an assertion. -/
theorem handlerStep_position :
    (∃ rest, (handlerStep op ops s).loopThread = some (.handle rest)) ∨
      (handlerStep op ops s).loopThread = some .swap ∨
      (handlerStep op ops s).loopThread = some .aborted := by
  unfold handlerStep
  split
  all_goals try split
  all_goals simp [State.loopAt]

theorem handlerStep_running :
    ∃ position, (handlerStep op ops s).loopThread = some position := by
  rcases handlerStep_position op ops s with ⟨rest, h⟩ | h | h <;> exact ⟨_, h⟩

@[simp]
theorem handlerStep_left : (handlerStep op ops s).left = s.left := by
  rw [handlerStep_frame]

@[simp]
theorem handlerStep_caller : (handlerStep op ops s).caller = s.caller := by
  rw [handlerStep_frame]

@[simp]
theorem handlerStep_connection : (handlerStep op ops s).connection = s.connection := by
  rw [handlerStep_frame]

@[simp]
theorem handlerStep_sendList : (handlerStep op ops s).sendList = s.sendList := by
  rw [handlerStep_frame]

@[simp]
theorem handlerStep_wire : (handlerStep op ops s).wire = s.wire := by
  rw [handlerStep_frame]

@[simp]
theorem handlerStep_requested : (handlerStep op ops s).requested = s.requested := by
  rw [handlerStep_frame]

end HandlerFrame

/-- The loop thread runs before and after its steps, and does not move the caller. -/
theorem loopStep_thread {s t : State} {input : LoopInput} (h : loopStep s input = some t) :
    s.loopThread ≠ none ∧ t.loopThread ≠ none ∧ t.caller = s.caller := by
  unfold loopStep at h
  split at h
  case h_6 op ops hloop =>
    cases h
    obtain ⟨position, hposition⟩ := handlerStep_running op ops s
    exact ⟨by simp [hloop], by simp [hposition], handlerStep_caller op ops s⟩
  case h_10 hloop =>
    cases h
    unfold disconnect
    repeat' split
    all_goals exact ⟨by simp [hloop], by simp [State.loopAt], rfl⟩
  all_goals repeat' (split at h)
  all_goals cases h
  all_goals exact ⟨by simp [*], by simp [State.loopAt, *], rfl⟩

/-- The emulation thread moves no other thread. -/
theorem emulationStep_thread {s t : State} {input : EmulationInput}
    (h : emulationStep s input = some t) :
    t.caller = s.caller ∧ t.loopThread = s.loopThread := by
  unfold emulationStep at h
  split at h
  all_goals repeat' (split at h)
  all_goals cases h
  all_goals exact ⟨rfl, rfl⟩

end ManicRoom.Member
