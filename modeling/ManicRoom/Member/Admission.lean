/-
# Admission to a room

The state becomes `Joined` or `Moderator` only because a join success was received. This
module follows such a state through all places where it can be: the atomic, the
operations that a handler has still to do, and the values that are about to be passed to
the state callbacks.
-/

import ManicRoom.Member.Invariant

namespace ManicRoom.Member

/-- The operation stores or passes on a state in a room. -/
def HandlerOp.Admits : HandlerOp → Prop
  | .setState state | .store state | .invokeState state => state.InRoom
  | _ => False

/-- `SetState` is about to pass on a state in a room. -/
def CallerPosition.Admits : CallerPosition → Prop
  | .leaveSetIdle _ (.invoke state) | .joinSetJoining (.invoke state)
  | .joinFail _ _ (.invoke state) => state.InRoom
  | _ => False

/-- The loop thread has such an operation to do. -/
def LoopPosition.Admits : LoopPosition → Prop
  | .handle ops => ∃ op ∈ ops, op.Admits
  | _ => False

/-- The member is in a room, or a thread will store or pass on that it is. -/
def State.Admitting (s : State) : Prop :=
  s.state.InRoom ∨ s.caller.Admits ∨ ∃ position, s.loopThread = some position ∧ position.Admits

theorem State.not_admitting_of_quiet {s : State} (inv : Wellformed s) (hcaller : s.caller = .rest)
    (hloop : s.loopThread = none) : ¬ s.Admitting := by
  rintro (h | h | ⟨position, hposition, -⟩)
  · exact inv.absent hloop h
  · simp [hcaller, CallerPosition.Admits] at h
  · simp [hloop] at hposition

theorem admits_handleEvent {event : Event} (h : ∃ op ∈ handleEvent event, op.Admits) :
    event.IsJoinSuccess := by
  cases event with
  | receive message =>
      cases message <;>
        simp_all [handleEvent, handleMessage, reject, HandlerOp.Admits, Event.IsJoinSuccess,
          Message.IsJoinSuccess]
  | disconnect => simp [handleEvent, reject, HandlerOp.Admits] at h
  | none => simp [handleEvent] at h
  | connect => simp [handleEvent, HandlerOp.Admits] at h

/-- A state that the caller passes to the callbacks. -/
theorem State.admitting_of_callerInvokes {s : State} {state : MemberState}
    (h : callerInvokes s = some (.state state)) (hroom : state.InRoom) : s.Admitting := by
  unfold callerInvokes at h
  split at h <;> cases h
  all_goals
    refine .inr (.inl ?_)
    simp only [*, CallerPosition.Admits]

/-- A state that the loop thread passes to the callbacks. -/
theorem State.admitting_of_loopInvokes {s : State} {state : MemberState}
    (h : loopInvokes s = some (.state state)) (hroom : state.InRoom) : s.Admitting := by
  unfold loopInvokes at h
  split at h <;> cases h
  next ops hloop =>
    exact .inr (.inr ⟨_, hloop, _, List.mem_cons_self, hroom⟩)

/-- Only `MemberLoop` can do anything about a state in a room that is not there yet. -/
theorem State.Admitting.of_caller {s t : State} (ht : t.Admitting)
    (hstate : t.state.InRoom → s.state.InRoom) (hcaller : t.caller.Admits → s.Admitting)
    (hloop : ∀ position, t.loopThread = some position → position.Admits →
      s.loopThread = some position) : s.Admitting := by
  rcases ht with h | h | ⟨position, hposition, h⟩
  · exact .inl (hstate h)
  · exact hcaller h
  · exact .inr (.inr ⟨position, hloop position hposition h, h⟩)

theorem admitting_leaveSetIdle {s : State} {back : LeaveReturn} {phase : SetStatePhase}
    (ht : (leaveSetIdle back phase s).Admitting) : s.Admitting := by
  cases phase with
  | compare =>
      have hsame : (leaveSetIdle back .compare s).state = s.state ∧
          (leaveSetIdle back .compare s).loopThread = s.loopThread ∧
          ¬ (leaveSetIdle back .compare s).caller.Admits := by
        by_cases h : s.state = .idle <;>
          simp [leaveSetIdle, State.markLeft, setStateStep, h, CallerPosition.Admits]
      exact ht.of_caller (fun h => hsame.1 ▸ h) (fun h => absurd h hsame.2.2)
        (fun _ h _ => hsame.2.1 ▸ h)
  | store =>
      exact ht.of_caller (fun h => absurd h MemberState.not_inRoom_idle) (fun h => h.elim)
        (fun _ h _ => h)
  | load => exact ht.of_caller id .inl (fun _ h _ => h)
  | invoke state => exact ht.of_caller id (fun h => h.elim) (fun _ h _ => h)

theorem admitting_joinSetJoining {s : State} {phase : SetStatePhase}
    (ht : (joinSetJoining phase s).Admitting) : s.Admitting := by
  cases phase with
  | compare =>
      have hsame : (joinSetJoining .compare s).state = s.state ∧
          (joinSetJoining .compare s).loopThread = s.loopThread ∧
          ¬ (joinSetJoining .compare s).caller.Admits := by
        by_cases h : s.state = .joining <;>
          simp [joinSetJoining, setStateStep, h, CallerPosition.Admits]
      exact ht.of_caller (fun h => hsame.1 ▸ h) (fun h => absurd h hsame.2.2)
        (fun _ h _ => hsame.2.1 ▸ h)
  | store =>
      exact ht.of_caller (fun h => absurd h MemberState.not_inRoom_joining) (fun h => h.elim)
        (fun _ h _ => h)
  | load => exact ht.of_caller id .inl (fun _ h _ => h)
  | invoke state => exact ht.of_caller id (fun h => h.elim) (fun _ h _ => h)

theorem admitting_joinFail {s : State} {error : MemberError} {thenLeave : Bool}
    {phase : SetStatePhase}
    (ht : (joinFail error thenLeave phase s).Admitting) : s.Admitting := by
  cases phase with
  | compare =>
      have hsame : (joinFail error thenLeave .compare s).state = s.state ∧
          (joinFail error thenLeave .compare s).loopThread = s.loopThread ∧
          ¬ (joinFail error thenLeave .compare s).caller.Admits := by
        by_cases h : s.state = .idle <;> simp [joinFail, setStateStep, h, CallerPosition.Admits]
      exact ht.of_caller (fun h => hsame.1 ▸ h) (fun h => absurd h hsame.2.2)
        (fun _ h _ => hsame.2.1 ▸ h)
  | store =>
      exact ht.of_caller (fun h => absurd h MemberState.not_inRoom_idle) (fun h => h.elim)
        (fun _ h _ => h)
  | load => exact ht.of_caller id .inl (fun _ h _ => h)
  | invoke state => exact ht.of_caller id (fun h => h.elim) (fun _ h _ => h)

/-- The caller admits nobody. -/
theorem admitting_callerStep {s t : State} {input : CallerInput}
    (h : callerStep s input = some t) (ht : t.Admitting) : s.Admitting := by
  unfold callerStep at h
  split at h
  all_goals repeat' (split at h)
  all_goals cases h
  all_goals first
    | exact admitting_leaveSetIdle ht
    | exact admitting_joinSetJoining ht
    | exact admitting_joinFail ht
    | exact ht.of_caller id (fun h => h.elim) (fun _ h _ => h)
    | exact ht.of_caller id (fun h => h.elim) nofun
    | (refine ht.of_caller id (fun h => ?_) (fun _ h _ => h)
       next back _ => cases back <;> exact h.elim)

/-- An operation hands on the state it was about to store. -/
theorem admitting_handlerStep {s : State} {op : HandlerOp} {ops : List HandlerOp}
    (hloop : s.loopThread = some (.handle (op :: ops))) (ht : (handlerStep op ops s).Admitting) :
    s.Admitting := by
  have head (h : op.Admits) : s.Admitting := .inr (.inr ⟨_, hloop, op, List.mem_cons_self, h⟩)
  have tail (h : ∃ op ∈ ops, op.Admits) : s.Admitting := by
    obtain ⟨other, hmem, h⟩ := h
    exact .inr (.inr ⟨_, hloop, other, List.mem_cons_of_mem _ hmem, h⟩)
  have moved {t : State} {rest : List HandlerOp} (ht : t.Admitting)
      (hstate : t.state.InRoom → s.Admitting) (hcaller : t.caller = s.caller)
      (hthread : t.loopThread = some (.handle rest))
      (hrest : (∃ op ∈ rest, op.Admits) → s.Admitting) : s.Admitting := by
    rcases ht with h | h | ⟨position, hposition, h⟩
    · exact hstate h
    · exact .inr (.inl (hcaller ▸ h))
    · cases hthread.symm.trans hposition
      exact hrest h
  have stopped {position : LoopPosition} (ht : (s.loopAt position).Admitting)
      (hstops : ¬ position.Admits) : s.Admitting := by
    rcases ht with h | h | ⟨other, hother, h⟩
    · exact .inl h
    · exact .inr (.inl h)
    · cases hother
      exact absurd h hstops
  cases op with
  | setState state =>
      simp only [handlerStep] at ht
      split at ht
      · exact moved ht .inl rfl rfl tail
      · apply moved ht .inl rfl rfl
        rintro ⟨op, hmem, h⟩
        rcases List.mem_cons.mp hmem with rfl | hmem
        · exact head h
        · rcases List.mem_cons.mp hmem with rfl | hmem
          · exact h.elim
          · exact tail ⟨op, hmem, h⟩
  | store state => exact moved ht head rfl rfl tail
  | load =>
      apply moved ht .inl rfl rfl
      rintro ⟨op, hmem, h⟩
      rcases List.mem_cons.mp hmem with rfl | hmem
      · exact .inl h
      · exact tail ⟨op, hmem, h⟩
  | invokeState state => exact moved ht .inl rfl rfl tail
  | setError error => exact moved ht .inl rfl rfl tail
  | storeMac mac => exact moved ht .inl rfl rfl tail
  | storeMembers members => exact moved ht .inl rfl rfl tail
  | invokeRoomInformation => exact moved ht .inl rfl rfl tail
  | invokeOther => exact moved ht .inl rfl rfl tail
  | assertMembers =>
      simp only [handlerStep] at ht
      split at ht
      · exact stopped ht id
      · exact moved ht .inl rfl rfl tail
  | assertFalse => exact stopped ht id
  | whenIn loads =>
      cases loads with
      | nil => exact stopped ht id
      | cons state loads =>
          simp only [handlerStep] at ht
          split at ht
          · exact moved ht .inl rfl rfl tail
          · apply moved ht .inl rfl rfl
            rintro ⟨op, hmem, h⟩
            rcases List.mem_cons.mp hmem with rfl | hmem
            · exact h.elim
            · exact tail ⟨op, hmem, h⟩

/-- The loop thread admits the member only because of a join success. -/
theorem admitting_loopStep {s t : State} {input : LoopInput} (h : loopStep s input = some t)
    (ht : t.Admitting) :
    s.Admitting ∨ s.loopThread = some .service ∧
      ∃ event, input = .event event ∧ event.IsJoinSuccess := by
  have moved (hstate : t.state = s.state) (hcaller : t.caller = s.caller)
      (hstops : ∀ position, t.loopThread = some position → ¬ position.Admits) :
      s.Admitting ∨ s.loopThread = some .service ∧
        ∃ event, input = .event event ∧ event.IsJoinSuccess := by
    rcases ht with h | h | ⟨position, hposition, h⟩
    · exact .inl (.inl (hstate ▸ h))
    · exact .inl (.inr (.inl (hcaller ▸ h)))
    · exact absurd h (hstops position hposition)
  unfold loopStep at h
  split at h
  case h_3 event hloop =>
    cases h
    rcases ht with h | h | ⟨position, hposition, h⟩
    · exact .inl (.inl h)
    · exact .inl (.inr (.inl h))
    · cases hposition
      exact .inr ⟨hloop, event, rfl, admits_handleEvent h⟩
  case h_6 op ops hloop =>
    cases h
    exact .inl (admitting_handlerStep hloop ht)
  case h_10 =>
    cases h
    refine moved ?_ ?_ ?_ <;> unfold disconnect <;> split <;> try split
    all_goals first | rfl | (rintro _ ⟨⟩; exact id)
  all_goals repeat' (split at h)
  all_goals cases h
  all_goals first
    | exact .inl ht
    | exact moved rfl rfl (by rintro _ ⟨⟩; exact id)

/-- The emulation thread admits nobody. -/
theorem admitting_emulationStep {s t : State} {input : EmulationInput}
    (h : emulationStep s input = some t) (ht : t.Admitting) : s.Admitting := by
  unfold emulationStep at h
  split at h
  all_goals repeat' (split at h)
  all_goals cases h
  all_goals exact ht

/-- Only the start of the loop thread makes one. -/
theorem callerStep_noLoop {s t : State} {input : CallerInput} (h : callerStep s input = some t)
    (hstart : s.caller ≠ .joinStartLoop) (hnone : s.loopThread = none) : t.loopThread = none := by
  cases callerStep_effect h with
  | startLoop before => exact absurd before hstart
  | joinThread => rfl
  | _ => exact hnone

end ManicRoom.Member
