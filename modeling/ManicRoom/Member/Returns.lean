/-
# What a returned Join or Leave leaves behind

The positions of a call say what has been cleaned up on the way; here they are read at its
last step. A `Join` that started no thread leaves nothing of a connection, and one that did
has queued its request. A `Leave` leaves a member as it was constructed, `immediate_disconnect`
apart, so that a second one has nothing left to do.
-/

import ManicRoom.Member.CleanUp

namespace ManicRoom.Member

open ManicRoom.Foundation

/-! ## The end of a call -/

/-- Nothing of a connection is left, the ENet host apart. -/
structure State.Disconnected (s : State) : Prop where
  state : ¬ s.state.IsConnected
  loopThread : s.loopThread = none
  server : s.server = false

/-- What `Leave(immediate)` leaves behind. -/
structure State.Settled (immediate : Bool) (s : State) : Prop where
  state : s.state = .idle
  loopThread : s.loopThread = none
  client : s.client = false
  server : s.server = false
  sendList : s.sendList = []
  immediateDisconnect : s.immediateDisconnect = immediate

/-- The last step of a `Join` from `s` to `t`. An exception that leaves `SendJoinRequest`
leaves it before the push. -/
structure JoinReturns (s : State) (input : CallerInput) (t : State) (record : CallRecord) :
    Prop where
  unstarted : record.started = [] → input ≠ .throw →
    t.Disconnected ∧ record.errors.length = if record.cancelled then 0 else 1
  started : record.started ≠ [] → ∃ start : State, record.started = [start] ∧ start.Starts ∧
    record.requests = if input = .throw ∧ s.caller = .joinRequest then 0 else 1

/-- Steps of a second `Leave(immediate)` that begins in `s`. The other threads may move, but
none of them pushes. -/
inductive LeavesAgain (immediate : Bool) (s : State) : State → Prop
  | call {t : State} (h : callerStep s (.callLeave immediate) = some t) : LeavesAgain immediate s t
  | caller {t u : State} (prior : LeavesAgain immediate s t) (inside : t.caller ≠ .rest)
      (h : callerStep t .go = some u) : LeavesAgain immediate s u
  | loop {t u : State} {input : LoopInput} (prior : LeavesAgain immediate s t)
      (h : loopStep t input = some u) : LeavesAgain immediate s u
  | emulation {t u : State} {input : EmulationInput} (prior : LeavesAgain immediate s t)
      (quiet : t.emulation ≠ .pushWifi ∧ t.emulation ≠ .pushGameInfo)
      (h : emulationStep t input = some u) : LeavesAgain immediate s u

/-- All that `RoomMember` has is as it was. -/
structure State.Unchanged (s t : State) : Prop where
  state : t.state = s.state
  immediateDisconnect : t.immediateDisconnect = s.immediateDisconnect
  client : t.client = s.client
  server : t.server = s.server
  macAddress : t.macAddress = s.macAddress
  memberInformation : t.memberInformation = s.memberInformation
  sendList : t.sendList = s.sendList
  loopThread : t.loopThread = s.loopThread

/-- Positions of a `Leave` that finds nothing to do: none of them invokes a callback. -/
def CallerPosition.LeavesIdly (immediate : Bool) : CallerPosition → Prop
  | .leaveImmediate .outer asked => asked = immediate
  | .leaveSetIdle .outer .compare | .leaveJoin .outer | .leaveDestroyHost .outer
  | .leaveClear .outer | .rest => True
  | _ => False

/-! ## The second Leave -/

/-- A position at which a `Leave` does nothing belongs to an outer one. -/
theorem CallerPosition.LeavesIdly.not_mayThrow {immediate : Bool} {position : CallerPosition}
    (h : position.LeavesIdly immediate) : ¬ position.MayThrow := by
  unfold CallerPosition.LeavesIdly at h
  split at h <;> first | exact h.elim | exact id

theorem State.Settled.callerStep {immediate : Bool} {s t u : State} {input : CallerInput}
    (settled : s.Settled immediate) (unchanged : s.Unchanged t)
    (idly : t.caller.LeavesIdly immediate) (inside : t.caller ≠ .rest)
    (h : callerStep t input = some u) : s.Unchanged u ∧ u.caller.LeavesIdly immediate := by
  obtain ⟨hstate, himmediate, hclient, hserver, hmac, hmembers, hlist, hloop⟩ := unchanged
  unfold Member.callerStep at h
  split at h
  case h_1 | h_2 => contradiction
  case h_3 back asked hcaller =>
    cases h
    rw [hcaller] at idly
    cases back with
    | outer =>
        have hasked : asked = immediate := idly
        exact ⟨⟨hstate, hasked.trans settled.immediateDisconnect.symm, hclient, hserver, hmac,
          hmembers, hlist, hloop⟩, trivial⟩
    | _ => exact idly.elim
  case h_4 back phase hcaller =>
    cases h
    rw [hcaller] at idly
    cases back <;> cases phase <;> try exact idly.elim
    rw [leaveSetIdle_of_idle (hstate.trans settled.state)]
    exact ⟨⟨hstate, himmediate, hclient, hserver, hmac, hmembers, hlist, hloop⟩, trivial⟩
  case h_5 back hcaller =>
    rw [hcaller] at idly
    have hnone := hloop.trans settled.loopThread
    split at h
    · cases h
      exact ⟨⟨hstate, himmediate, hclient, hserver, hmac, hmembers, hlist, hloop⟩,
        by cases back <;> exact idly⟩
    all_goals simp [hnone] at *
  case h_6 back hcaller =>
    cases h
    rw [hcaller] at idly
    exact ⟨⟨hstate, himmediate, settled.client.symm, settled.server.symm, hmac, hmembers, hlist,
      hloop⟩, by cases back <;> exact idly⟩
  case h_7 back hcaller =>
    cases h
    rw [hcaller] at idly
    exact ⟨⟨hstate, himmediate, hclient, hserver, hmac, hmembers, settled.sendList.symm, hloop⟩,
      by cases back <;> first | exact idly | exact idly.elim⟩
  case h_30 => simp [idly.not_mayThrow] at h
  case h_31 => cases h
  all_goals
    rw [‹t.caller = _›] at idly
    exact idly.elim

theorem callerStep_callLeave {s t : State} {immediate : Bool}
    (h : callerStep s (.callLeave immediate) = some t) :
    t = { s with caller := .leaveImmediate .outer immediate } := by
  cases hcaller : s.caller with
  | rest =>
      simp only [callerStep, hcaller] at h
      exact (Option.some.inj h).symm
  | _ => simp [callerStep, hcaller] at h

/-- The emulation thread only changes the member where it pushes. -/
theorem unchanged_emulationStep {s t : State} {input : EmulationInput}
    (quiet : s.emulation ≠ .pushWifi ∧ s.emulation ≠ .pushGameInfo)
    (h : emulationStep s input = some t) : s.Unchanged t := by
  unfold emulationStep at h
  split at h
  case h_10 hpush => exact absurd hpush quiet.1
  case h_13 hpush => exact absurd hpush quiet.2
  all_goals repeat' (split at h)
  all_goals cases h
  all_goals exact ⟨rfl, rfl, rfl, rfl, rfl, rfl, rfl, rfl⟩

theorem State.Unchanged.trans {s t u : State} (first : s.Unchanged t) (second : t.Unchanged u) :
    s.Unchanged u where
  state := second.state.trans first.state
  immediateDisconnect := second.immediateDisconnect.trans first.immediateDisconnect
  client := second.client.trans first.client
  server := second.server.trans first.server
  macAddress := second.macAddress.trans first.macAddress
  memberInformation := second.memberInformation.trans first.memberInformation
  sendList := second.sendList.trans first.sendList
  loopThread := second.loopThread.trans first.loopThread

/-- **A second `Leave` changes nothing** and calls nobody. -/
theorem State.Settled.leavesAgain {immediate : Bool} {s t : State} (settled : s.Settled immediate)
    (h : LeavesAgain immediate s t) : s.Unchanged t ∧ t.caller.LeavesIdly immediate := by
  induction h with
  | call h =>
      rw [callerStep_callLeave h]
      exact ⟨⟨rfl, rfl, rfl, rfl, rfl, rfl, rfl, rfl⟩, rfl⟩
  | caller prior inside h ih => exact settled.callerStep ih.1 ih.2 inside h
  | loop prior h ih =>
      exact absurd (ih.1.loopThread.trans settled.loopThread) (loopStep_thread h).1
  | emulation prior quiet h ih =>
      obtain ⟨hcaller, -⟩ := emulationStep_thread h
      exact ⟨ih.1.trans (unchanged_emulationStep quiet h), hcaller ▸ ih.2⟩

/-! ## The result -/

/-- How many steps a `Leave` from outside has left. -/
def CallerPosition.leaveSteps : CallerPosition → ℕ
  | .leaveImmediate .outer _ => 8
  | .leaveSetIdle .outer .compare => 7
  | .leaveSetIdle .outer .store => 6
  | .leaveSetIdle .outer .load => 5
  | .leaveSetIdle .outer (.invoke _) => 4
  | .leaveJoin .outer => 3
  | .leaveDestroyHost .outer => 2
  | .leaveClear .outer => 1
  | _ => 0

/-- What `Join` and `Leave` leave behind when they return, and that `Leave` returns. -/
structure CallsCleanUp (s : State) (record : CallRecord) : Prop where
  join : ∀ input t later, s.caller ≠ .rest →
    calls.step (s, record) (.caller input) = some (t, later) → t.caller = .rest →
    later.called = some .join → JoinReturns s input t later
  leave : ∀ input t later immediate, s.caller ≠ .rest →
    calls.step (s, record) (.caller input) = some (t, later) → t.caller = .rest →
    later.called = some (.leave immediate) → t.Settled immediate ∧
      ∀ u, LeavesAgain immediate t u → t.Unchanged u ∧ callerInvokes u = none
  /-- `Leave` waits for nothing but the loop thread. -/
  proceeds : 0 < s.caller.leaveSteps →
    (s.caller = .leaveJoin .outer → s.loopThread = none ∨ s.loopThread = some .done) →
    ∃ t, callerStep s .go = some t ∧ t.caller.leaveSteps < s.caller.leaveSteps ∧
      (t.caller = .rest ∨ 0 < t.caller.leaveSteps)

/-- The last step of a call. -/
inductive Returns (s : State) (input : CallerInput) (t : State) : Prop
  | left (back : LeaveReturn) (before : s.caller = .leaveClear back)
      (position : back.position = .rest) (go : input = .go)
      (next : t = { s with sendList := [], requested := false, caller := back.position })
  | joined (before : s.caller = .joinGameInfoCheck [] ∨ s.caller = .joinGameInfo)
      (go : input = .go)
  | failed (error : MemberError) (before : s.caller = .joinError error false) (go : input = .go)
      (next : t = { s with caller := .rest })
  | thrown (mayThrow : s.caller.MayThrow) (throws : input = .throw)

theorem leaveSetIdle_caller (back : LeaveReturn) (phase : SetStatePhase) (s : State) :
    (leaveSetIdle back phase s).caller ≠ .rest := by
  simp only [leaveSetIdle]
  split <;> simp

theorem joinSetJoining_caller (phase : SetStatePhase) (s : State) :
    (joinSetJoining phase s).caller ≠ .rest := by
  simp only [joinSetJoining]
  split <;> simp

theorem joinFail_caller (error : MemberError) (thenLeave : Bool) (phase : SetStatePhase)
    (s : State) : (joinFail error thenLeave phase s).caller ≠ .rest := by
  simp only [joinFail]
  split <;> simp

theorem returns_of_callerStep {s t : State} {input : CallerInput} (inside : s.caller ≠ .rest)
    (h : callerStep s input = some t) (hreturns : t.caller = .rest) : Returns s input t := by
  unfold callerStep at h
  split at h
  case h_1 | h_2 => contradiction
  case h_4 => cases h; exact absurd hreturns (leaveSetIdle_caller _ _ _)
  case h_7 back hcaller => cases h; exact .left back hcaller hreturns rfl rfl
  case h_12 => cases h; exact absurd hreturns (joinSetJoining_caller _ _)
  case h_24 hcaller => exact .joined (.inl hcaller) rfl
  case h_26 hcaller => exact .joined (.inr hcaller) rfl
  case h_27 => cases h; exact absurd hreturns (joinFail_caller _ _ _ _)
  case h_29 error hcaller => cases h; exact .failed error hcaller rfl rfl
  case h_30 =>
    split at h
    · next hmay => exact .thrown hmay rfl
    · cases h
  all_goals repeat' (split at h)
  all_goals cases h
  all_goals cases hreturns

/-- A `Join` that throws has started nothing, or is past the start of its thread. -/
theorem joinReturns_of_thrown {s t : State} {record : CallRecord}
    (facts : s.CallFacts record s.caller) (hmay : s.caller.MayThrow) :
    JoinReturns s .throw t record := by
  have unstarted (hstarted : record.started = []) : JoinReturns s .throw t record :=
    ⟨fun _ hthrow => absurd rfl hthrow, fun hne => absurd hstarted hne⟩
  have fresh (hfresh : record.Fresh) : JoinReturns s .throw t record :=
    unstarted (by rw [show record = _ from hfresh])
  unfold CallerPosition.MayThrow at hmay
  split at hmay
  case h_1 back state hcaller =>
    rw [hcaller] at facts
    obtain ⟨hleaves, -⟩ := facts
    cases back with
    | outer => exact absurd rfl hmay
    | joinStart => exact fresh hleaves
    | joinExit => exact unstarted hleaves.started
    | joinFailed => exact fresh hleaves
  case h_6 hcaller =>
    rw [hcaller] at facts
    obtain ⟨-, ⟨start, hstarted, hstarts⟩, hrequests⟩ : record.Started 0 := facts
    exact ⟨fun hnone => by simp [hstarted] at hnone,
      fun _ => ⟨start, hstarted, hstarts, by simp [hrequests, hcaller]⟩⟩
  case h_7 hcaller =>
    rw [hcaller] at facts
    obtain ⟨-, ⟨start, hstarted, hstarts⟩, hrequests⟩ : record.Started 1 := facts
    exact ⟨fun hnone => by simp [hstarted] at hnone,
      fun _ => ⟨start, hstarted, hstarts, by simp [hrequests, hcaller]⟩⟩
  case h_8 => exact hmay.elim
  all_goals
    rw [‹s.caller = _›] at facts
    exact fresh facts.1

theorem joinReturns_of_returns {s t : State} {record : CallRecord} {input : CallerInput}
    (member : Wellformed s) (inv : CallInvariant s record) (h : Returns s input t)
    (hcalled : (record.observe s (.caller input)).called = some .join) :
    JoinReturns s input t (record.observe s (.caller input)) := by
  have facts := inv.facts
  cases h with
  | left back before position go next =>
      subst go
      have hobserve : record.observe s (.caller .go) = record :=
        CallRecord.observe_go (by simp [before]) (by simp [before]) (by simp [before])
      rw [hobserve] at hcalled ⊢
      rw [before] at facts
      obtain ⟨hleaves, hidle, -, hserver⟩ := facts
      cases back with
      | outer =>
          have hother : record.called = some (.leave s.immediateDisconnect) := hleaves
          simp [hother] at hcalled
      | joinExit =>
          have hended : record.Ended := hleaves
          refine ⟨fun _ _ => ⟨⟨?_, ?_, ?_⟩, hended.errors⟩, fun hne => absurd hended.started hne⟩
          · rw [next]
            exact hidle ▸ MemberState.not_isConnected_idle
          · rw [next]
            exact member.noLoop (by simp [before, CallerPosition.NoLoop])
          · rw [next]
            exact hserver
      | joinStart => cases position
      | joinFailed => cases position
  | joined before go =>
      subst go
      have hobserve : record.observe s (.caller .go) = record := by
        rcases before with before | before <;>
          exact CallRecord.observe_go (by simp [before]) (by simp [before]) (by simp [before])
      have hstarted : record.Started 1 := by
        rcases before with before | before <;> exact (before ▸ facts :)
      obtain ⟨-, ⟨start, hstart, hstarts⟩, hrequests⟩ := hstarted
      rw [hobserve]
      exact ⟨fun hnone => by simp [hstart] at hnone,
        fun _ => ⟨start, hstart, hstarts, by simp [hrequests]⟩⟩
  | failed error before go next =>
      subst go
      have hnone := member.noLoop (by simp [before, CallerPosition.NoLoop])
      rw [before] at facts
      obtain ⟨hfresh, hserver, hidle⟩ := facts
      have hobserve : record.observe s (.caller .go) =
          { called := some .join, errors := [error] } := by
        rw [CallRecord.observe, CallRecord.moves, before, show record = _ from hfresh]
        rfl
      rw [hobserve, next]
      exact ⟨fun _ _ => ⟨⟨hidle ▸ MemberState.not_isConnected_idle, hnone, hserver rfl⟩, rfl⟩,
        fun hne => absurd rfl hne⟩
  | thrown mayThrow throws =>
      subst throws
      exact joinReturns_of_thrown facts mayThrow

/-- Positions inside `Join`, the `Leave`s that it calls included. -/
def CallerPosition.InJoin : CallerPosition → Prop
  | .rest => False
  | .leaveImmediate back _ | .leaveSetIdle back _ | .leaveJoin back | .leaveDestroyHost back
  | .leaveClear back => back ≠ .outer
  | _ => True

/-- An exception leaves `Join`. -/
theorem CallerPosition.MayThrow.inJoin {position : CallerPosition} (h : position.MayThrow) :
    position.InJoin := by
  unfold CallerPosition.MayThrow at h
  split at h <;> first | exact h | exact trivial | exact h.elim

theorem CallRecord.Leaves.called {record : CallRecord} {immediate : Bool} {back : LeaveReturn}
    (h : record.Leaves immediate back) (hback : back ≠ .outer) : record.called = some .join := by
  cases back with
  | outer => exact absurd rfl hback
  | joinExit => exact CallRecord.Ended.called h
  | joinStart => rw [show record = _ from h]
  | joinFailed => rw [show record = _ from h]

theorem State.CallFacts.called {s : State} {record : CallRecord} {position : CallerPosition}
    (facts : s.CallFacts record position) (h : position.InJoin) : record.called = some .join := by
  have fresh (hfresh : record.Fresh) : record.called = some .join := by
    rw [show record = _ from hfresh]
  cases position with
  | rest => exact h.elim
  | leaveImmediate back immediate => exact CallRecord.Leaves.called facts h
  | leaveSetIdle back phase => exact facts.1.called h
  | leaveJoin back => exact facts.1.called h
  | leaveDestroyHost back => exact facts.1.called h
  | leaveClear back => exact facts.1.called h
  | joinStart => exact fresh facts
  | joinCreateHost => exact fresh facts
  | joinRequest => exact (show record.Started 0 from facts).called
  | joinGameInfoCheck loads => exact (show record.Started 1 from facts).called
  | joinGameInfo => exact (show record.Started 1 from facts).called
  | _ => exact fresh facts.1

/-- The input does not begin a call. -/
def CallerInput.GoesOn : CallerInput → Prop
  | .callJoin | .callLeave _ => False
  | _ => True

theorem CallRecord.moves_called (s : State) (record : CallRecord) :
    (record.moves s).called = record.called := by
  unfold CallRecord.moves
  split <;> rfl

theorem CallRecord.observe_called {s : State} {record : CallRecord} {input : CallerInput}
    (h : input.GoesOn) : (record.observe s (.caller input)).called = record.called := by
  cases input with
  | callJoin => exact h.elim
  | callLeave immediate => exact h.elim
  | go => exact CallRecord.moves_called s record
  | cancelled answer => cases answer <;> rfl
  | fail => rfl
  | serviced result => rfl
  | throw => rfl

theorem observe_ne_leave {s : State} {record : CallRecord} {input : CallerInput}
    {immediate : Bool} (hcalled : record.called = some .join) (h : input.GoesOn) :
    (record.observe s (.caller input)).called ≠ some (.leave immediate) := by
  rw [CallRecord.observe_called h, hcalled]
  nofun

theorem settled_of_returns {s t : State} {record : CallRecord} {input : CallerInput}
    {immediate : Bool} (member : Wellformed s) (inv : CallInvariant s record)
    (h : Returns s input t)
    (hcalled : (record.observe s (.caller input)).called = some (.leave immediate)) :
    t.Settled immediate := by
  have facts := inv.facts
  cases h with
  | left back before position go next =>
      subst go
      rw [CallRecord.observe_go (by simp [before]) (by simp [before]) (by simp [before])]
        at hcalled
      have hnone := member.noLoop (by simp [before, CallerPosition.NoLoop])
      rw [before] at facts
      obtain ⟨hleaves, hidle, hclient, hserver⟩ := facts
      cases back with
      | outer =>
          have hother : record.called = some (.leave s.immediateDisconnect) := hleaves
          rw [hother] at hcalled
          cases hcalled
          rw [next]
          exact ⟨hidle, hnone, hclient, hserver, rfl, rfl⟩
      | joinExit => simp [hleaves.called] at hcalled
      | joinStart => cases position
      | joinFailed => cases position
  | joined before go =>
      refine absurd hcalled (observe_ne_leave (facts.called ?_) (go ▸ trivial))
      rcases before with before | before <;> simp [before, CallerPosition.InJoin]
  | failed error before go next =>
      refine absurd hcalled (observe_ne_leave (facts.called ?_) (go ▸ trivial))
      simp [before, CallerPosition.InJoin]
  | thrown mayThrow throws =>
      exact absurd hcalled (observe_ne_leave (facts.called mayThrow.inJoin) (throws ▸ trivial))

/-- **`Leave` proceeds** unless it waits for a loop thread that has not ended. -/
theorem exists_leaveStep {s : State} (hinside : 0 < s.caller.leaveSteps)
    (hended : s.caller = .leaveJoin .outer → s.loopThread = none ∨ s.loopThread = some .done) :
    ∃ t, callerStep s .go = some t ∧ t.caller.leaveSteps < s.caller.leaveSteps ∧
      (t.caller = .rest ∨ 0 < t.caller.leaveSteps) := by
  cases hcaller : s.caller with
  | leaveImmediate back immediate =>
      cases back with
      | outer => simp [callerStep, hcaller, CallerPosition.leaveSteps]
      | _ => simp [hcaller, CallerPosition.leaveSteps] at hinside
  | leaveSetIdle back phase =>
      cases back with
      | outer =>
          refine ⟨leaveSetIdle .outer phase s, by simp only [callerStep, hcaller], ?_⟩
          cases phase with
          | compare =>
              by_cases hidle : s.state = .idle
              · rw [leaveSetIdle_of_idle hidle]
                simp [CallerPosition.leaveSteps]
              · simp [leaveSetIdle, setStateStep, hidle, CallerPosition.leaveSteps]
          | _ => simp [leaveSetIdle, setStateStep, CallerPosition.leaveSteps]
      | _ => simp [hcaller, CallerPosition.leaveSteps] at hinside
  | leaveJoin back =>
      cases back with
      | outer =>
          rcases hended hcaller with hnone | hdone
          · simp [callerStep, hcaller, hnone, CallerPosition.leaveSteps]
          · simp [callerStep, hcaller, hdone, CallerPosition.leaveSteps]
      | _ => simp [hcaller, CallerPosition.leaveSteps] at hinside
  | leaveDestroyHost back =>
      cases back with
      | outer => simp [callerStep, hcaller, CallerPosition.leaveSteps]
      | _ => simp [hcaller, CallerPosition.leaveSteps] at hinside
  | leaveClear back =>
      cases back with
      | outer => simp [callerStep, hcaller, LeaveReturn.position, CallerPosition.leaveSteps]
      | _ => simp [hcaller, CallerPosition.leaveSteps] at hinside
  | _ => simp [hcaller, CallerPosition.leaveSteps] at hinside

/-- A `Leave` that finds nothing to do calls nobody. -/
theorem CallerPosition.LeavesIdly.callerInvokes {immediate : Bool} {s : State}
    (h : s.caller.LeavesIdly immediate) : callerInvokes s = none := by
  unfold Member.callerInvokes
  split
  case h_1 hcaller =>
    rw [hcaller] at h
    simp [CallerPosition.LeavesIdly] at h
  case h_5 => rfl
  all_goals
    rw [‹s.caller = _›] at h
    exact h.elim

/-- **`Join` and `Leave` clean up**, from every reachable state of the member. -/
theorem callsCleanUp_of_reachable {s : State} {record : CallRecord}
    (h : calls.Reachable (s, record)) : CallsCleanUp s record := by
  have member := wellformed_of_reachable (System.Reachable.of_observed h)
  have inv := callInvariant_of_reachable h
  refine ⟨fun input t later hinside hstep hreturns hcalled => ?_,
    fun input t later immediate hinside hstep hreturns hcalled => ?_, exists_leaveStep⟩
  · obtain ⟨hmove, hlater⟩ := System.observed_step_iff.mp hstep
    rw [show later = _ from hlater] at hcalled ⊢
    exact joinReturns_of_returns member inv (returns_of_callerStep hinside hmove hreturns) hcalled
  · obtain ⟨hmove, hlater⟩ := System.observed_step_iff.mp hstep
    rw [show later = _ from hlater] at hcalled
    have settled := settled_of_returns member inv (returns_of_callerStep hinside hmove hreturns)
      hcalled
    refine ⟨settled, fun u hagain => ?_⟩
    obtain ⟨hunchanged, hidly⟩ := settled.leavesAgain hagain
    exact ⟨hunchanged, hidly.callerInvokes⟩

/-- The thread of a `Join` cannot be started, and a `Leave` follows. -/
def leavesUnstarted : List Label :=
  [.caller .callJoin] ++ callerGoes 9 ++
    [.caller (.cancelled false), .caller (.serviced .connected), .caller .throw,
      .caller (.callLeave true)] ++ callerGoes 7

/-- That `Leave` right before it returns. -/
theorem callsCleanUp_leavesUnstarted :
    ∃ pair : State × CallRecord, pair.1.caller = .leaveClear .outer ∧ pair.1.client = false ∧
      CallsCleanUp pair.1 pair.2 := by
  obtain ⟨pair, hreach, hcaller, hclient⟩ :=
    System.exists_reachable_of_run (S := calls) (show calls.init ({}, {}) from ⟨rfl, rfl⟩)
      leavesUnstarted (fun pair => pair.1.caller = .leaveClear .outer ∧ pair.1.client = false)
      (by decide +kernel)
  exact ⟨pair, hcaller, hclient, callsCleanUp_of_reachable hreach⟩

/-- **A `Join` can start its thread and queue no request**: memory runs out in
`SendJoinRequest`. -/
theorem join_throws_before_request :
    ∃ pair, calls.Reachable pair ∧ ∃ next, calls.step pair (.caller .throw) = some next ∧
      next.1.caller = .rest ∧ next.2.called = some .join ∧ next.2.started.length = 1 ∧
      next.2.requests = 0 := by
  obtain ⟨pair, hreach, hend⟩ :=
    System.exists_reachable_of_run (S := calls) (show calls.init ({}, {}) from ⟨rfl, rfl⟩)
      joinConnects
      (fun pair => (calls.step pair (.caller .throw)).any fun next =>
        next.1.caller = .rest ∧ next.2.called = some .join ∧ next.2.started.length = 1 ∧
          next.2.requests = 0)
      (by decide +kernel)
  obtain ⟨next, hnext, hholds⟩ := (Option.any_eq_true _ _).mp hend
  exact ⟨pair, hreach, next, hnext, of_decide_eq_true hholds⟩

end ManicRoom.Member
