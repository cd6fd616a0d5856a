/-
# How a connection ends

Two things end an attempt to connect: `Join` reports that it could not, or the loop
thread handles a rejection. After either of them the member neither connects nor
reports anything again until its next `Join`. This module says what the threads look
like from the beginning of a rejection to its report, and after the report.
-/

import ManicRoom.Member.Invariant

namespace ManicRoom.Member

/-! ## The caller -/

/-- Positions from which the caller neither starts a loop nor reports an error before
its next call. -/
def CallerPosition.Spent : CallerPosition → Prop
  | .rest | .joinRequest | .joinGameInfoCheck _ | .joinGameInfo => True
  | .leaveImmediate back _ | .leaveSetIdle back _ | .leaveJoin back | .leaveDestroyHost back
  | .leaveClear back => back = .outer ∨ back = .joinExit
  | _ => False

theorem CallerPosition.Spent.invokes_ne_error {s : State} (spent : s.caller.Spent)
    (error : MemberError) : callerInvokes s ≠ some (.error error) := by
  unfold callerInvokes
  split <;> simp_all [CallerPosition.Spent]

/-- What a spent caller leaves of the other thread and of the state. -/
structure CallerPosition.SpentStep (s t : State) : Prop where
  spent : t.caller.Spent
  loopThread : t.loopThread = s.loopThread ∨
    s.loopThread = some .done ∧ t.loopThread = none
  state : t.state = s.state ∨ t.state = .idle

theorem spent_leaveSetIdle {s : State} {back : LeaveReturn} {phase : SetStatePhase}
    (hback : back = .outer ∨ back = .joinExit) :
    CallerPosition.SpentStep s (leaveSetIdle back phase s) := by
  cases phase with
  | compare =>
      by_cases hidle : s.state = .idle
      · simpa [leaveSetIdle, setStateStep, hidle, State.markLeft] using
          (⟨hback, .inl rfl, .inl rfl⟩ : CallerPosition.SpentStep s
            { s.markLeft with caller := .leaveJoin back })
      · simpa [leaveSetIdle, setStateStep, hidle] using
          (⟨hback, .inl rfl, .inl rfl⟩ : CallerPosition.SpentStep s
            { s with caller := .leaveSetIdle back .store })
  | store => exact ⟨hback, .inl rfl, .inr rfl⟩
  | load => exact ⟨hback, .inl rfl, .inl rfl⟩
  | invoke state => exact ⟨hback, .inl rfl, .inl rfl⟩

theorem spent_callerStep {s t : State} {input : CallerInput} (spent : s.caller.Spent)
    (hcall : input ≠ .callJoin) (h : callerStep s input = some t) :
    CallerPosition.SpentStep s t := by
  unfold callerStep at h
  split at h
  case h_1 => exact absurd rfl hcall
  case h_4 back phase hcaller =>
    cases h
    rw [hcaller] at spent
    exact spent_leaveSetIdle spent
  all_goals repeat' (split at h)
  all_goals cases h
  all_goals simp only [*, CallerPosition.Spent] at spent
  all_goals first
    | exact ⟨trivial, .inl rfl, .inl rfl⟩
    | exact ⟨.inl rfl, .inl rfl, .inl rfl⟩
    | exact ⟨spent, .inl rfl, .inl rfl⟩
    | exact ⟨spent, .inr ⟨‹_›, rfl⟩, .inl rfl⟩
    | (rcases spent with rfl | rfl <;> exact ⟨trivial, .inl rfl, .inl rfl⟩)

/-! ## After the report -/

/-- Positions of the loop once it has handled its last event. -/
def LoopPosition.Over : LoopPosition → Prop
  | .handle [] | .swap | .send _ | .check _ | .disconnect | .linger | .done => True
  | _ => False

/-- The end of the connection has been reported: there is no loop, or it is on its
way out. -/
structure Closed (s : State) : Prop where
  spent : s.caller.Spent
  ended : s.loopThread = none ∨
    ∃ position, s.loopThread = some position ∧ position.Over ∧ ¬ s.state.IsConnected

theorem Closed.loopInvokes_eq {s : State} (closed : Closed s) : loopInvokes s = none := by
  rcases closed.ended with hnone | ⟨position, hloop, hover, -⟩
  · simp [loopInvokes, hnone]
  · unfold loopInvokes
    split
    case h_4 => rfl
    all_goals
      cases hloop.symm.trans ‹s.loopThread = _›
      exact hover.elim

/-- Nothing connects, or is about to, after a store of `Idle`. -/
theorem not_isConnected_of_idle {s t : State} (hstate : t.state = s.state ∨ t.state = .idle)
    (h : ¬ s.state.IsConnected) : ¬ t.state.IsConnected := by
  rcases hstate with hsame | hidle
  · exact hsame ▸ h
  · exact hidle ▸ MemberState.not_isConnected_idle

theorem closed_callerStep {s t : State} {input : CallerInput} (closed : Closed s)
    (hcall : input ≠ .callJoin) (h : callerStep s input = some t) : Closed t := by
  obtain ⟨hspent, hloop, hstate⟩ := spent_callerStep closed.spent hcall h
  refine ⟨hspent, ?_⟩
  rcases hloop with hsame | ⟨-, hnone⟩
  · rw [hsame]
    exact closed.ended.imp_right fun ⟨position, hposition, hover, hconnected⟩ =>
      ⟨position, hposition, hover, not_isConnected_of_idle hstate hconnected⟩
  · exact .inl hnone

theorem closed_loopStep {s t : State} {input : LoopInput} (inv : Wellformed s)
    (closed : Closed s) (h : loopStep s input = some t) : Closed t := by
  obtain ⟨hrunning, -, hcaller⟩ := loopStep_thread h
  have hspent : t.caller.Spent := hcaller ▸ closed.spent
  obtain ⟨position, hloop, hover, hconnected⟩ := closed.ended.resolve_left hrunning
  have moveTo {t : State} {next : LoopPosition} (hspent : t.caller.Spent)
      (hnext : t.loopThread = some next) (hover : next.Over) (hstate : t.state = s.state) :
      Closed t :=
    ⟨hspent, .inr ⟨next, hnext, hover, by rwa [hstate]⟩⟩
  cases position with
  | check loads =>
      have facts := (inv.loop _ hloop).2
      rcases loads with _ | ⟨state, loads⟩ <;> cases input <;>
        simp only [loopStep, hloop, reduceCtorEq] at h
      · cases h
        exact moveTo hspent rfl trivial rfl
      · split at h
        · next hload =>
          -- The states that `IsConnected` compares with are connected ones.
          exact absurd (hload ▸ facts state List.mem_cons_self) hconnected
        · cases h
          exact moveTo hspent rfl trivial rfl
  | handle ops =>
      rcases ops with _ | ⟨op, ops⟩
      · cases input <;> simp only [loopStep, hloop, reduceCtorEq] at h
        cases h
        exact moveTo hspent rfl trivial rfl
      · exact hover.elim
  | send packets =>
      rcases packets with _ | ⟨packet, packets⟩ <;> cases input <;>
        simp only [loopStep, hloop, reduceCtorEq] at h
      all_goals cases h
      all_goals exact moveTo hspent rfl trivial rfl
  | disconnect =>
      cases input <;> simp only [loopStep, hloop, reduceCtorEq] at h
      cases h
      unfold disconnect at hspent ⊢
      split
      · split
        · exact moveTo closed.spent rfl trivial rfl
        · exact moveTo closed.spent rfl trivial rfl
      · exact moveTo closed.spent rfl trivial rfl
  | linger =>
      rcases input with _ | event | _ | _ <;> simp only [loopStep, hloop] at h
      · split at h <;> cases h
        exact moveTo hspent rfl trivial rfl
      · cases event <;> cases h
        all_goals first | exact moveTo hspent rfl trivial rfl | exact closed
      · cases h
        exact closed
      · cases h
        exact moveTo hspent rfl trivial rfl
  | swap =>
      cases input <;> simp only [loopStep, hloop, reduceCtorEq] at h
      cases h
      exact moveTo hspent rfl trivial rfl
  | done => simp [loopStep, hloop] at h
  | service => exact hover.elim
  | aborted => exact hover.elim

/-- `Join` reports its own errors while there is no loop. -/
theorem closed_of_reports {s t : State} {error : MemberError} (inv : Wellformed s)
    (hreports : callerInvokes s = some (.error error)) (h : callerStep s .go = some t) :
    Closed t := by
  unfold callerInvokes at hreports
  split at hreports
  case h_4 thenLeave hcaller =>
    have hnone := inv.noLoop (by simp [hcaller, CallerPosition.NoLoop])
    cases thenLeave <;> simp only [callerStep, hcaller] at h <;> cases h
    · exact ⟨trivial, .inl hnone⟩
    · exact ⟨.inr rfl, .inl hnone⟩
  all_goals cases hreports

/-! ## From the rejection to its report -/

/-- What is left to do of `SetState(Idle); SetError(error)`. -/
def Rejecting (state : MemberState) (error : MemberError) : List HandlerOp → Prop
  | [.setState .idle, .setError reported] => reported = error
  | [.store .idle, .load, .setError reported] => reported = error
  | [.load, .setError reported] | [.invokeState _, .setError reported] | [.setError reported] =>
      reported = error ∧ ¬ state.IsConnected
  | _ => False

theorem rejecting_reject (state : MemberState) (error : MemberError) :
    Rejecting state error (reject error) := rfl

/-- A rejection is being handled and has not been reported. -/
structure Pending (s : State) (error : MemberError) : Prop where
  spent : s.caller.Spent
  rejecting : ∃ ops, s.loopThread = some (.handle ops) ∧ Rejecting s.state error ops

theorem Rejecting.of_idle {s t : State} {error : MemberError} {ops : List HandlerOp}
    (hstate : t.state = s.state ∨ t.state = .idle) (h : Rejecting s.state error ops) :
    Rejecting t.state error ops := by
  unfold Rejecting at h ⊢
  split <;> simp_all [not_isConnected_of_idle hstate]

theorem pending_callerStep {s t : State} {input : CallerInput} {error : MemberError}
    (pending : Pending s error) (hcall : input ≠ .callJoin) (h : callerStep s input = some t) :
    Pending t error := by
  obtain ⟨hspent, hloop, hstate⟩ := spent_callerStep pending.spent hcall h
  obtain ⟨ops, hhandle, hrejecting⟩ := pending.rejecting
  refine ⟨hspent, ops, ?_, hrejecting.of_idle hstate⟩
  rcases hloop with hsame | ⟨hdone, -⟩
  · exact hsame.trans hhandle
  · cases hhandle.symm.trans hdone

/-- The next step of the loop goes on with the rejection or reports it. -/
theorem pending_loopStep {s t : State} {input : LoopInput} {error : MemberError}
    (pending : Pending s error) (h : loopStep s input = some t) :
    (∀ other, loopInvokes s ≠ some (.error other)) ∧ Pending t error ∨
      input = .go ∧ loopInvokes s = some (.error error) ∧ Closed t := by
  obtain ⟨-, -, hcaller⟩ := loopStep_thread h
  have hspent : t.caller.Spent := hcaller ▸ pending.spent
  obtain ⟨ops, hhandle, hrejecting⟩ := pending.rejecting
  unfold Rejecting at hrejecting
  split at hrejecting
  all_goals try exact hrejecting.elim
  all_goals cases input <;> simp only [loopStep, hhandle, reduceCtorEq] at h
  · cases h
    subst hrejecting
    refine .inl ⟨by simp [loopInvokes, hhandle], hspent, ?_⟩
    by_cases hidle : s.state = .idle
    · exact ⟨[.setError _], by simp [handlerStep, hidle, State.loopAt],
        rfl, by simp [handlerStep, hidle, State.loopAt]⟩
    · exact ⟨[.store .idle, .load, .setError _], by simp [handlerStep, hidle, State.loopAt],
        rfl⟩
  · cases h
    subst hrejecting
    exact .inl ⟨by simp [loopInvokes, hhandle], hspent, [.load, .setError _], rfl, rfl,
      MemberState.not_isConnected_idle⟩
  · cases h
    exact .inl ⟨by simp [loopInvokes, hhandle], hspent, [.invokeState _, .setError _], rfl,
      hrejecting⟩
  · cases h
    exact .inl ⟨by simp [loopInvokes, hhandle], hspent, [.setError _], rfl, hrejecting⟩
  · cases h
    obtain ⟨rfl, hconnected⟩ := hrejecting
    exact .inr ⟨rfl, by simp [loopInvokes, hhandle], hspent, .inr ⟨_, rfl, trivial, hconnected⟩⟩

/-! ## Inside `Join` -/

/-- The caller is inside a `Join` that began without a loop thread, so that it only
leaves on its way out. -/
def State.InJoin (s : State) : Prop :=
  match s.caller with
  | .rest => False
  | .joinStart => s.loopThread = none
  | .leaveImmediate back _ | .leaveSetIdle back _ | .leaveJoin back | .leaveDestroyHost back
  | .leaveClear back => s.loopThread = none ∧ (back = .joinExit ∨ back = .joinFailed)
  | _ => True

/-- A loop that runs while `Join` does is the one that this `Join` has started. -/
theorem State.InJoin.spent {s : State} (inJoin : s.InJoin) (inv : Wellformed s)
    (hloop : s.loopThread ≠ none) : s.caller.Spent := by
  have hnoLoop : ¬ s.caller.NoLoop := fun h => hloop (inv.noLoop h)
  cases hcaller : s.caller <;>
    simp_all [State.InJoin, CallerPosition.Spent, CallerPosition.NoLoop]

theorem inJoin_leaveSetIdle {s : State} {back : LeaveReturn} {phase : SetStatePhase}
    (hloop : s.loopThread = none) (hback : back = .joinExit ∨ back = .joinFailed) :
    (leaveSetIdle back phase s).InJoin := by
  cases phase with
  | compare =>
      by_cases hidle : s.state = .idle <;>
        simp [leaveSetIdle, setStateStep, State.InJoin, State.markLeft, hidle, hloop, hback]
  | store => simp [leaveSetIdle, setStateStep, State.InJoin, State.markLeft, hloop, hback]
  | load => simp [leaveSetIdle, setStateStep, State.InJoin, hloop, hback]
  | invoke state => simp [leaveSetIdle, setStateStep, State.InJoin, hloop, hback]

theorem inJoin_callerStep {s t : State} {input : CallerInput} (inv : Wellformed s)
    (inJoin : s.InJoin) (h : callerStep s input = some t) : t.InJoin ∨ t.caller = .rest := by
  have hnone := inv.noLoop
  unfold State.InJoin at inJoin
  unfold callerStep at h
  split at h
  case h_4 back phase hcaller =>
    cases h
    rw [hcaller] at inJoin
    exact .inl (inJoin_leaveSetIdle inJoin.1 inJoin.2)
  case h_7 back hcaller =>
    cases h
    rw [hcaller] at inJoin
    rcases inJoin.2 with rfl | rfl
    · exact .inr rfl
    · exact .inl (by simp [State.InJoin, LeaveReturn.position])
  case h_12 phase hcaller =>
    cases h
    refine .inl ?_
    cases phase <;> by_cases hjoining : s.state = .joining <;>
      simp [joinSetJoining, setStateStep, State.InJoin, hjoining]
  case h_27 error thenLeave phase hcaller =>
    cases h
    refine .inl ?_
    cases phase <;> by_cases hidle : s.state = .idle <;>
      simp [joinFail, setStateStep, State.InJoin, hidle]
  all_goals repeat' (split at h)
  all_goals cases h
  all_goals simp only [*, CallerPosition.NoLoop, true_imp_iff, false_imp_iff] at inJoin hnone
  all_goals first
    | exact .inr rfl
    | exact .inl trivial
    | exact .inl ⟨hnone, by simp⟩
    | exact .inl inJoin
    | exact .inl ⟨rfl, inJoin.2⟩
    | exact .inl ⟨‹_›, inJoin.2⟩
    | exact absurd inJoin (by simp_all)

theorem inJoin_loopStep {s t : State} {input : LoopInput} (inJoin : s.InJoin)
    (h : loopStep s input = some t) : t.InJoin := by
  obtain ⟨hrunning, -, hcaller⟩ := loopStep_thread h
  unfold State.InJoin at inJoin ⊢
  rw [hcaller]
  split <;> simp_all

/-- The emulation thread does not touch the state of the member. -/
theorem emulationStep_state {s t : State} {input : EmulationInput}
    (h : emulationStep s input = some t) : t.state = s.state := by
  unfold emulationStep at h
  split at h
  all_goals repeat' (split at h)
  all_goals cases h
  all_goals rfl

/-! ## What the other threads see of it -/

section Congruence

variable {s t : State} (hcaller : t.caller = s.caller) (hloop : t.loopThread = s.loopThread)
include hcaller hloop

theorem State.InJoin.congr (h : s.InJoin) : t.InJoin := by
  unfold State.InJoin at h ⊢
  rwa [hcaller, hloop]

variable (hstate : t.state = s.state)
include hstate

theorem Closed.congr (h : Closed s) : Closed t where
  spent := hcaller ▸ h.spent
  ended := by
    rw [hloop, hstate]
    exact h.ended

theorem Pending.congr {error : MemberError} (h : Pending s error) : Pending t error where
  spent := hcaller ▸ h.spent
  rejecting := by
    rw [hloop, hstate]
    exact h.rejecting

end Congruence

/-- A rejection that arrives is pending. -/
theorem pending_of_rejection {s t : State} {message : Message} {error : MemberError}
    (hspent : s.caller.Spent) (hservice : s.loopThread = some .service)
    (herror : message.rejection? = some error)
    (h : loopStep s (.event (.receive message)) = some t) : Pending t error := by
  simp only [loopStep, hservice, handleEvent, handleMessage_of_rejection? herror] at h
  cases h
  exact ⟨hspent, _, rfl, rejecting_reject _ _⟩

end ManicRoom.Member
