/-
# How Join and Leave clean up

`Join` has six ways out, from a client that cannot be created to a thread that has been
started, and it may begin with what an earlier `Join` has left behind. A record beside the
member says which call is in progress and what it has done itself: the errors that it
reported, the answer of `cancelled()`, the thread that it started, the requests that it
queued. One invariant for each position of the call says what has been cleaned up by then.
-/

import ManicRoom.Member.Rejection

namespace ManicRoom.Member

open ManicRoom.Foundation

/-! ## The record -/

/-- A call from outside the class. -/
inductive Called
  | join
  | leave (immediate : Bool)
  deriving DecidableEq, Repr

/-- What the latest call has done. -/
structure CallRecord where
  called : Option Called := none
  /-- The errors that it has reported. -/
  errors : List MemberError := []
  /-- A `cancelled()` poll has answered true. -/
  cancelled : Bool := false
  /-- The states in which it has started a loop thread. -/
  started : List State := []
  /-- The join requests that it has queued. -/
  requests : ℕ := 0
  deriving DecidableEq, Repr

/-- What the caller does when it moves on. -/
def CallRecord.moves (s : State) (record : CallRecord) : CallRecord :=
  match s.caller with
  | .joinError error _ => { record with errors := record.errors ++ [error] }
  | .joinStartLoop => { record with started := record.started ++ [s] }
  | .joinRequest => { record with requests := record.requests + 1 }
  | _ => record

def CallRecord.observe (s : State) (label : Label) (record : CallRecord) : CallRecord :=
  match label with
  | .caller .callJoin => { called := some .join }
  | .caller (.callLeave immediate) => { called := some (.leave immediate) }
  | .caller .go => record.moves s
  | .caller (.cancelled true) => { record with cancelled := true }
  | _ => record

/-- The member with the record beside it. -/
def calls : System (State × CallRecord) Label := system.observed {} CallRecord.observe

/-! ## The invariant -/

/-- A `Join` that has done nothing that shows. -/
def CallRecord.Fresh (record : CallRecord) : Prop := record = { called := some .join }

/-- A `Join` that is over without a thread: it has reported one error, or none if it was
cancelled. -/
structure CallRecord.Ended (record : CallRecord) : Prop where
  called : record.called = some .join
  started : record.started = []
  errors : record.errors.length = if record.cancelled then 0 else 1

/-- A thread is started for a connection that is there. -/
structure State.Starts (s : State) : Prop where
  state : s.state = .joining
  client : s.client = true
  server : s.server = true

/-- A `Join` that has started one thread, and has queued this many requests. -/
structure CallRecord.Started (record : CallRecord) (requests : ℕ) : Prop where
  called : record.called = some .join
  started : ∃ start : State, record.started = [start] ∧ start.Starts
  requests : record.requests = requests

/-- The call inside which a `Leave` runs. -/
def CallRecord.Leaves (record : CallRecord) (immediate : Bool) : LeaveReturn → Prop
  | .outer => record.called = some (.leave immediate)
  | .joinStart => record.Fresh
  | .joinExit => record.Ended
  | .joinFailed => record.Fresh

/-- Phases of a `SetState` behind its store. -/
def SetStatePhase.Stored : SetStatePhase → Prop
  | .load | .invoke _ => True
  | _ => False

/-- What the call has done and cleaned up at a position. -/
def State.CallFacts (s : State) (record : CallRecord) : CallerPosition → Prop
  | .rest => True
  | .leaveImmediate back immediate => record.Leaves immediate back
  | .leaveSetIdle back phase => record.Leaves s.immediateDisconnect back ∧
      (phase.Stored → s.loopThread = none → s.state = .idle)
  | .leaveJoin back => record.Leaves s.immediateDisconnect back ∧
      (s.loopThread = none → s.state = .idle)
  | .leaveDestroyHost back => record.Leaves s.immediateDisconnect back ∧ s.state = .idle
  | .leaveClear back => record.Leaves s.immediateDisconnect back ∧ s.state = .idle ∧
      s.client = false ∧ s.server = false
  | .joinStart | .joinCreateHost => record.Fresh
  | .joinImmediate => record.Fresh ∧ s.client = true
  | .joinSetJoining phase => record.Fresh ∧ s.client = true ∧
      (phase.Stored → s.state = .joining)
  | .joinResolve | .joinConnect => record.Fresh ∧ s.client = true ∧ s.state = .joining
  | .joinCancelled | .joinService | .joinStartLoop => record.Fresh ∧ s.Starts
  | .joinRequest => record.Started 0
  | .joinGameInfoCheck _ | .joinGameInfo => record.Started 1
  | .joinFail _ thenLeave phase => record.Fresh ∧ (thenLeave = false → s.server = false) ∧
      (phase.Stored → s.state = .idle)
  | .joinError _ thenLeave => record.Fresh ∧ (thenLeave = false → s.server = false) ∧
      s.state = .idle

/-- The operation does not store the state of a member that does not exist yet. -/
def HandlerOp.Initialized : HandlerOp → Prop
  | .setState state | .store state => state ≠ .uninitialized
  | _ => True

/-- The invariant of the calls. -/
structure CallInvariant (s : State) (record : CallRecord) : Prop where
  facts : s.CallFacts record s.caller
  server : s.client = false → s.server = false
  state : s.state ≠ .uninitialized
  ops : ∀ ops, s.loopThread = some (.handle ops) → ∀ op ∈ ops, op.Initialized

theorem callInvariant_init : CallInvariant {} {} where
  facts := trivial
  server _ := rfl
  state := by decide
  ops ops h := by cases h

/-! ## Steps of the caller -/

/-- The parts of the invariant that do not depend on the call. -/
theorem CallInvariant.moveTo {s t : State} {record later : CallRecord}
    (inv : CallInvariant s record) (facts : t.CallFacts later t.caller)
    (hserver : t.client = false → t.server = false) (hstate : t.state ≠ .uninitialized)
    (hloop : t.loopThread = s.loopThread ∨ ∀ ops, t.loopThread ≠ some (.handle ops)) :
    CallInvariant t later where
  facts := facts
  server := hserver
  state := hstate
  ops ops hops := by
    rcases hloop with hsame | hother
    · exact inv.ops ops (hsame ▸ hops)
    · exact absurd hops (hother ops)

/-- A `Leave` that finds the state `Idle` stores nothing. -/
theorem leaveSetIdle_of_idle {s : State} {back : LeaveReturn} (hidle : s.state = .idle) :
    leaveSetIdle back .compare s = { s.markLeft with caller := .leaveJoin back } := by
  simp [leaveSetIdle, setStateStep, State.markLeft, hidle]

theorem callInvariant_leaveSetIdle {s : State} {record : CallRecord} {back : LeaveReturn}
    {phase : SetStatePhase} (inv : CallInvariant s record)
    (hcaller : s.caller = .leaveSetIdle back phase) :
    CallInvariant (leaveSetIdle back phase s) record := by
  obtain ⟨hleaves, hidle⟩ : s.CallFacts record (.leaveSetIdle back phase) := hcaller ▸ inv.facts
  cases phase with
  | compare =>
      by_cases hstate : s.state = .idle
      · rw [leaveSetIdle_of_idle hstate]
        exact inv.moveTo ⟨hleaves, fun _ => hstate⟩ inv.server inv.state (.inl rfl)
      · simp only [leaveSetIdle, setStateStep, hstate, if_false]
        exact inv.moveTo ⟨hleaves, by rintro ⟨⟩⟩ inv.server inv.state (.inl rfl)
  | store =>
      exact inv.moveTo ⟨hleaves, fun _ _ => rfl⟩ inv.server
        (by decide : MemberState.idle ≠ .uninitialized) (.inl rfl)
  | load => exact inv.moveTo ⟨hleaves, hidle⟩ inv.server inv.state (.inl rfl)
  | invoke state =>
      exact inv.moveTo ⟨hleaves, hidle trivial⟩ inv.server inv.state (.inl rfl)

theorem callInvariant_joinSetJoining {s : State} {record : CallRecord} {phase : SetStatePhase}
    (inv : CallInvariant s record) (hcaller : s.caller = .joinSetJoining phase) :
    CallInvariant (joinSetJoining phase s) record := by
  obtain ⟨hfresh, hclient, hjoining⟩ : s.CallFacts record (.joinSetJoining phase) :=
    hcaller ▸ inv.facts
  cases phase with
  | compare =>
      by_cases hstate : s.state = .joining
      · have heq :
            joinSetJoining .compare s = { s with left := false, caller := .joinResolve } := by
          simp [joinSetJoining, setStateStep, hstate]
        rw [heq]
        exact inv.moveTo ⟨hfresh, hclient, hstate⟩ inv.server inv.state (.inl rfl)
      · simp only [joinSetJoining, setStateStep, hstate, if_false]
        exact inv.moveTo ⟨hfresh, hclient, by rintro ⟨⟩⟩ inv.server inv.state (.inl rfl)
  | store =>
      exact inv.moveTo ⟨hfresh, hclient, fun _ => rfl⟩ inv.server
        (by decide : MemberState.joining ≠ .uninitialized) (.inl rfl)
  | load => exact inv.moveTo ⟨hfresh, hclient, hjoining⟩ inv.server inv.state (.inl rfl)
  | invoke state =>
      exact inv.moveTo ⟨hfresh, hclient, hjoining trivial⟩ inv.server inv.state (.inl rfl)

theorem callInvariant_joinFail {s : State} {record : CallRecord} {error : MemberError}
    {thenLeave : Bool} {phase : SetStatePhase} (inv : CallInvariant s record)
    (hcaller : s.caller = .joinFail error thenLeave phase) :
    CallInvariant (joinFail error thenLeave phase s) record := by
  obtain ⟨hfresh, hserver, hidle⟩ : s.CallFacts record (.joinFail error thenLeave phase) :=
    hcaller ▸ inv.facts
  cases phase with
  | compare =>
      by_cases hstate : s.state = .idle
      · have heq : joinFail error thenLeave .compare s =
            { s with caller := .joinError error thenLeave } := by
          simp [joinFail, setStateStep, hstate]
        rw [heq]
        exact inv.moveTo ⟨hfresh, hserver, hstate⟩ inv.server inv.state (.inl rfl)
      · simp only [joinFail, setStateStep, hstate, if_false]
        exact inv.moveTo ⟨hfresh, hserver, by rintro ⟨⟩⟩ inv.server inv.state (.inl rfl)
  | store =>
      exact inv.moveTo ⟨hfresh, hserver, fun _ => rfl⟩ inv.server
        (by decide : MemberState.idle ≠ .uninitialized) (.inl rfl)
  | load => exact inv.moveTo ⟨hfresh, hserver, hidle⟩ inv.server inv.state (.inl rfl)
  | invoke state =>
      exact inv.moveTo ⟨hfresh, hserver, hidle trivial⟩ inv.server inv.state (.inl rfl)

/-- Steps that record nothing. -/
theorem CallRecord.observe_go {s : State} {record : CallRecord} (herror : ∀ error thenLeave,
    s.caller ≠ .joinError error thenLeave) (hstart : s.caller ≠ .joinStartLoop)
    (hrequest : s.caller ≠ .joinRequest) : record.observe s (.caller .go) = record := by
  simp only [CallRecord.observe, CallRecord.moves]

theorem callInvariant_callerStep {s t : State} {record : CallRecord} {input : CallerInput}
    (member : Wellformed s) (inv : CallInvariant s record) (h : callerStep s input = some t) :
    CallInvariant t (record.observe s (.caller input)) := by
  have facts := inv.facts
  have hnone := member.noLoop
  -- A step that records nothing and leaves the shared fields of the invariant alone.
  have quiet {t : State} (hobserve : record.observe s (.caller input) = record)
      (hfacts : t.CallFacts record t.caller) (hserver : t.client = false → t.server = false)
      (hstate : t.state = s.state) (hloop : t.loopThread = s.loopThread) :
      CallInvariant t (record.observe s (.caller input)) := by
    rw [hobserve]
    exact inv.moveTo hfacts hserver (hstate ▸ inv.state) (.inl hloop)
  unfold callerStep at h
  split at h
  case h_1 hcaller =>
    cases h
    exact inv.moveTo rfl inv.server inv.state (.inl rfl)
  case h_2 hcaller =>
    cases h
    exact inv.moveTo rfl inv.server inv.state (.inl rfl)
  case h_3 back immediate hcaller =>
    cases h
    rw [hcaller] at facts
    exact quiet (CallRecord.observe_go (by simp [hcaller]) (by simp [hcaller]) (by simp [hcaller]))
      ⟨facts, by rintro ⟨⟩⟩ inv.server rfl rfl
  case h_4 back phase hcaller =>
    cases h
    rw [CallRecord.observe_go (by simp [hcaller]) (by simp [hcaller]) (by simp [hcaller])]
    exact callInvariant_leaveSetIdle inv hcaller
  case h_5 back hcaller =>
    rw [hcaller] at facts
    have hobserve := @CallRecord.observe_go s record (by simp [hcaller])
      (by simp [hcaller]) (by simp [hcaller])
    split at h
    · next hloop =>
      cases h
      exact quiet hobserve ⟨facts.1, facts.2 hloop⟩ inv.server rfl rfl
    · next hdone =>
      cases h
      have hidle : s.state = .idle := by
        have hout : ¬ s.state.IsConnected := member.loop _ hdone
        have hinitialized := inv.state
        cases hstate : s.state <;> simp_all [MemberState.IsConnected]
      rw [hobserve]
      exact inv.moveTo ⟨facts.1, hidle⟩ inv.server inv.state (.inr (by simp))
    · cases h
  case h_6 back hcaller =>
    cases h
    rw [hcaller] at facts
    exact quiet (CallRecord.observe_go (by simp [hcaller]) (by simp [hcaller]) (by simp [hcaller]))
      ⟨facts.1, facts.2, rfl, rfl⟩ (fun _ => rfl) rfl rfl
  case h_7 back hcaller =>
    cases h
    rw [hcaller] at facts
    obtain ⟨hleaves, hidle, hclient, hserver⟩ := facts
    refine quiet (CallRecord.observe_go (by simp [hcaller]) (by simp [hcaller])
      (by simp [hcaller])) ?_ inv.server rfl rfl
    cases back with
    | outer => exact trivial
    | joinStart => exact hleaves
    | joinExit => exact trivial
    | joinFailed => exact ⟨hleaves, fun _ => hserver, by rintro ⟨⟩⟩
  case h_9 hcaller =>
    cases h
    rw [hcaller] at facts
    exact quiet (CallRecord.observe_go (by simp [hcaller]) (by simp [hcaller]) (by simp [hcaller]))
      ⟨facts, rfl⟩ (by rintro ⟨⟩) rfl rfl
  case h_10 hcaller =>
    rw [hcaller] at facts
    split at h
    · cases h
    · next hclient =>
      cases h
      exact quiet rfl ⟨facts, fun _ => inv.server (by simpa using hclient), by rintro ⟨⟩⟩ inv.server
        rfl rfl
  case h_11 hcaller =>
    cases h
    rw [hcaller] at facts
    exact quiet (CallRecord.observe_go (by simp [hcaller]) (by simp [hcaller]) (by simp [hcaller]))
      ⟨facts.1, facts.2, by rintro ⟨⟩⟩ inv.server rfl rfl
  case h_12 phase hcaller =>
    cases h
    rw [CallRecord.observe_go (by simp [hcaller]) (by simp [hcaller]) (by simp [hcaller])]
    exact callInvariant_joinSetJoining inv hcaller
  case h_14 hcaller =>
    cases h
    rw [hcaller] at facts
    exact quiet rfl ⟨facts.1, by rintro ⟨⟩, by rintro ⟨⟩⟩ inv.server rfl rfl
  case h_15 hcaller =>
    cases h
    rw [hcaller] at facts
    obtain ⟨hfresh, hclient, hjoining⟩ := facts
    exact quiet (CallRecord.observe_go (by simp [hcaller]) (by simp [hcaller]) (by simp [hcaller]))
      ⟨hfresh, hjoining, hclient, rfl⟩ (fun hnoClient => by simp [hclient] at hnoClient) rfl rfl
  case h_16 hcaller =>
    cases h
    rw [hcaller] at facts
    exact quiet rfl ⟨facts.1, fun _ => rfl, by rintro ⟨⟩⟩ (fun _ => rfl) rfl rfl
  case h_17 hcaller =>
    cases h
    rw [hcaller] at facts
    obtain ⟨hfresh, hstarts⟩ := facts
    refine inv.moveTo ?_ inv.server inv.state (.inl rfl)
    rw [CallRecord.observe, show record = _ from hfresh]
    exact ⟨rfl, rfl, rfl⟩
  case h_22 hcaller =>
    cases h
    rw [hcaller] at facts
    obtain ⟨hfresh, hstarts⟩ := facts
    refine inv.moveTo ?_ inv.server inv.state (.inr (by simp))
    rw [CallRecord.observe, CallRecord.moves, hcaller, show record = _ from hfresh]
    exact ⟨rfl, ⟨s, rfl, hstarts⟩, rfl⟩
  case h_23 hcaller =>
    cases h
    rw [hcaller] at facts
    obtain ⟨hcalled, hstarted, hrequests⟩ : record.Started 0 := facts
    refine inv.moveTo ?_ inv.server inv.state (.inl rfl)
    rw [CallRecord.observe, CallRecord.moves, hcaller]
    exact ⟨hcalled, hstarted, by rw [hrequests]⟩
  case h_27 error thenLeave phase hcaller =>
    cases h
    rw [CallRecord.observe_go (by simp [hcaller]) (by simp [hcaller]) (by simp [hcaller])]
    exact callInvariant_joinFail inv hcaller
  case h_28 error hcaller =>
    cases h
    rw [hcaller] at facts
    obtain ⟨hfresh, hserver, hidle⟩ := facts
    refine inv.moveTo ?_ inv.server inv.state (.inl rfl)
    rw [CallRecord.observe, CallRecord.moves, hcaller, show record = _ from hfresh]
    exact ⟨rfl, rfl, rfl⟩
  case h_29 error hcaller =>
    cases h
    exact inv.moveTo trivial inv.server inv.state (.inl rfl)
  case h_30 position hposition =>
    split at h
    · cases h
      exact quiet rfl trivial inv.server rfl rfl
    · cases h
  case h_31 => cases h
  all_goals repeat' (split at h)
  all_goals cases h
  all_goals simp only [*, State.CallFacts] at facts
  all_goals first
    | exact quiet (CallRecord.observe_go (by simp [*]) (by simp [*]) (by simp [*])) facts
        inv.server rfl rfl
    | exact quiet rfl facts inv.server rfl rfl
    | exact quiet (CallRecord.observe_go (by simp [*]) (by simp [*]) (by simp [*])) trivial
        inv.server rfl rfl
    | exact quiet rfl facts.1 inv.server rfl rfl
    | exact quiet rfl ⟨facts.1, facts.2.state, facts.2.client, facts.2.server⟩ inv.server rfl rfl

/-! ## Steps of the other threads -/

/-- The loop never creates a client or a server, and decides nothing for `Leave`. -/
theorem loopStep_client {s t : State} {input : LoopInput} (h : loopStep s input = some t) :
    t.client = s.client ∧ t.immediateDisconnect = s.immediateDisconnect ∧
      (t.server = s.server ∨ t.server = false) := by
  unfold loopStep at h
  split at h
  case h_6 op ops hloop =>
    cases h
    rw [handlerStep_frame]
    exact ⟨rfl, rfl, .inl rfl⟩
  case h_10 hloop =>
    cases h
    unfold disconnect
    repeat' split
    all_goals first | exact ⟨rfl, rfl, .inl rfl⟩ | exact ⟨rfl, rfl, .inr rfl⟩
  all_goals repeat' (split at h)
  all_goals cases h
  all_goals first | exact ⟨rfl, rfl, .inl rfl⟩ | exact ⟨rfl, rfl, .inr rfl⟩

/-- The member exists, and what the loop is about to do keeps it so. -/
structure State.Exists (s : State) : Prop where
  state : s.state ≠ .uninitialized
  ops : ∀ ops, s.loopThread = some (.handle ops) → ∀ op ∈ ops, op.Initialized

theorem initialized_handleEvent (event : Event) : ∀ op ∈ handleEvent event, op.Initialized := by
  cases event with
  | receive message =>
      cases message <;> simp [handleEvent, handleMessage, reject, HandlerOp.Initialized]
  | _ => simp [handleEvent, reject, HandlerOp.Initialized]

/-- A loop that handles nothing afterwards. -/
theorem State.Exists.loopAt {s t : State} (member : s.Exists) (hstate : t.state = s.state)
    (hops : ∀ ops, t.loopThread = some (.handle ops) → ∀ op ∈ ops, op.Initialized) : t.Exists :=
  ⟨hstate ▸ member.state, hops⟩

theorem exists_handlerStep {s : State} {op : HandlerOp} {ops : List HandlerOp}
    (member : s.Exists) (hloop : s.loopThread = some (.handle (op :: ops))) :
    (handlerStep op ops s).Exists := by
  obtain ⟨hop, hops⟩ := List.forall_mem_cons.mp (member.ops _ hloop)
  have rest {t : State} (hstate : t.state = s.state) (ht : t.loopThread = some (.handle ops)) :
      t.Exists := by
    refine member.loopAt hstate fun others hothers => ?_
    cases ht.symm.trans hothers
    exact hops
  have ended {t : State} {position : LoopPosition} (hstate : t.state = s.state)
      (ht : t.loopThread = some position) (hposition : ∀ others, position ≠ .handle others) :
      t.Exists :=
    member.loopAt hstate fun others hothers =>
      absurd (Option.some.inj (ht.symm.trans hothers)) (hposition others)
  -- A `SetState` whose comparison fails, and a load, put new operations first.
  have before {t : State} (news : List HandlerOp) (hstate : t.state = s.state)
      (ht : t.loopThread = some (.handle (news ++ ops))) (hnews : ∀ op ∈ news, op.Initialized) :
      t.Exists := by
    refine member.loopAt hstate fun others hothers => ?_
    cases ht.symm.trans hothers
    exact fun op hmem => (List.mem_append.mp hmem).elim (hnews op) (hops op)
  cases op with
  | setState state =>
      simp only [handlerStep]
      split
      · exact rest rfl rfl
      · exact before [.store state, .load] rfl rfl
          (List.forall_mem_cons.mpr ⟨hop, by simp [HandlerOp.Initialized]⟩)
  | store state =>
      refine ⟨hop, fun others hothers => ?_⟩
      cases hothers
      exact hops
  | load => exact before [.invokeState s.state] rfl rfl (by simp [HandlerOp.Initialized])
  | assertMembers =>
      simp only [handlerStep]
      split
      · exact ended rfl rfl (by rintro _ ⟨⟩)
      · exact rest rfl rfl
  | assertFalse => exact ended rfl rfl (by rintro _ ⟨⟩)
  | whenIn loads =>
      cases loads with
      | nil => exact ended rfl rfl (by rintro _ ⟨⟩)
      | cons state loads =>
          simp only [handlerStep]
          split
          · exact rest rfl rfl
          · exact before [.whenIn loads] rfl rfl (by simp [HandlerOp.Initialized])
  | invokeState state => exact rest rfl rfl
  | setError error => exact rest rfl rfl
  | storeMac mac => exact rest rfl rfl
  | storeMembers members => exact rest rfl rfl
  | invokeRoomInformation => exact rest rfl rfl
  | invokeOther => exact rest rfl rfl

theorem exists_loopStep {s t : State} {input : LoopInput} (member : s.Exists)
    (h : loopStep s input = some t) : t.Exists := by
  unfold loopStep at h
  split at h
  case h_3 event hloop =>
    cases h
    refine member.loopAt rfl fun ops hops => ?_
    cases hops
    exact initialized_handleEvent event
  case h_6 op ops hloop =>
    cases h
    exact exists_handlerStep member hloop
  case h_10 hloop =>
    cases h
    unfold disconnect
    repeat' split
    all_goals exact member.loopAt rfl (by simp [State.loopAt])
  all_goals repeat' (split at h)
  all_goals cases h
  all_goals first
    | exact member
    | exact member.loopAt rfl (by simp [State.loopAt])

/-- While the loop runs, what a call relies on is its own record. -/
theorem callFacts_of_running {s t : State} {record : CallRecord} {position : CallerPosition}
    (hposition : ¬ position.NoLoop) (hrunning : t.loopThread ≠ none)
    (himmediate : t.immediateDisconnect = s.immediateDisconnect)
    (h : s.CallFacts record position) : t.CallFacts record position := by
  cases position with
  | leaveSetIdle back phase =>
      exact ⟨himmediate ▸ h.1, fun _ hnone => absurd hnone hrunning⟩
  | leaveJoin back => exact ⟨himmediate ▸ h.1, fun hnone => absurd hnone hrunning⟩
  | rest => trivial
  | leaveImmediate back immediate => exact h
  | joinStart => exact h
  | joinRequest => exact h
  | joinGameInfoCheck loads => exact h
  | joinGameInfo => exact h
  | _ => exact absurd trivial hposition

theorem callInvariant_loopStep {s t : State} {record : CallRecord} {input : LoopInput}
    (member : Wellformed s) (inv : CallInvariant s record) (h : loopStep s input = some t) :
    CallInvariant t record := by
  obtain ⟨hrunning, hrunning', hcaller⟩ := loopStep_thread h
  obtain ⟨hclient, himmediate, hserver⟩ := loopStep_client h
  obtain ⟨hstate, hops⟩ := exists_loopStep ⟨inv.state, inv.ops⟩ h
  have hposition : ¬ s.caller.NoLoop := fun hnoLoop => hrunning (member.noLoop hnoLoop)
  refine ⟨?_, fun hnone => ?_, hstate, hops⟩
  · rw [hcaller]
    exact callFacts_of_running hposition hrunning' himmediate inv.facts
  · rcases hserver with hsame | hfalse
    · exact hsame.trans (inv.server (hclient ▸ hnone))
    · exact hfalse

/-- The facts speak about these fields only. -/
theorem State.CallFacts.congr {s t : State} {record : CallRecord} {position : CallerPosition}
    (himmediate : t.immediateDisconnect = s.immediateDisconnect) (hclient : t.client = s.client)
    (hserver : t.server = s.server) (hstate : t.state = s.state)
    (hloop : t.loopThread = s.loopThread) (h : s.CallFacts record position) :
    t.CallFacts record position := by
  have hstarts (starts : s.Starts) : t.Starts :=
    ⟨hstate.trans starts.state, hclient.trans starts.client, hserver.trans starts.server⟩
  cases position with
  | rest => trivial
  | joinCancelled => exact ⟨h.1, hstarts h.2⟩
  | joinService => exact ⟨h.1, hstarts h.2⟩
  | joinStartLoop => exact ⟨h.1, hstarts h.2⟩
  | _ => simpa only [State.CallFacts, himmediate, hclient, hserver, hstate, hloop] using h

/-- The emulation thread leaves the connection alone. -/
theorem emulationStep_connection {s t : State} {input : EmulationInput}
    (h : emulationStep s input = some t) :
    t.immediateDisconnect = s.immediateDisconnect ∧ t.client = s.client ∧ t.server = s.server := by
  unfold emulationStep at h
  split at h
  all_goals repeat' (split at h)
  all_goals cases h
  all_goals exact ⟨rfl, rfl, rfl⟩

theorem callInvariant_emulationStep {s t : State} {record : CallRecord} {input : EmulationInput}
    (inv : CallInvariant s record) (h : emulationStep s input = some t) :
    CallInvariant t record := by
  obtain ⟨hcaller, hloop⟩ := emulationStep_thread h
  obtain ⟨himmediate, hclient, hserver⟩ := emulationStep_connection h
  have hstate := emulationStep_state h
  refine inv.moveTo ?_ (by rw [hclient, hserver]; exact inv.server) (hstate ▸ inv.state)
    (.inl hloop)
  rw [hcaller]
  exact inv.facts.congr himmediate hclient hserver hstate hloop

/-- **What a call has done at each of its positions**, whatever the other threads do. -/
theorem callInvariant_of_reachable {s : State} {record : CallRecord}
    (h : calls.Reachable (s, record)) : CallInvariant s record := by
  refine h.invariant (fun pair => CallInvariant pair.1 pair.2) (fun pair hinit => ?_)
    (fun pair label next prior inv hstep => ?_)
  · obtain ⟨hmember, hrecord⟩ := hinit
    rw [show pair.1 = {} from hmember, hrecord]
    exact callInvariant_init
  · obtain ⟨hmove, hrecord⟩ := System.observed_step_iff.mp hstep
    have member := wellformed_of_reachable (System.Reachable.of_observed prior)
    rw [hrecord]
    cases label with
    | caller input => exact callInvariant_callerStep member inv hmove
    | loop input => exact callInvariant_loopStep member inv hmove
    | emulation input => exact callInvariant_emulationStep inv hmove

end ManicRoom.Member
