/-
# The invariant of the session

Each position of a call under `api_mutex` and each position of `Run` implies facts
about the globals, written down position by position. Together with what ties the
two sides to each other (who may be running, when the bridge is complete, when the
snapshot says offline) they make up the invariant. This module states it and says
which fields a step must leave alone to preserve it.
-/

import ManicRoom.Session.Model

namespace ManicRoom.Session

open ManicRoom.Foundation
open Member (MemberState CallerInput LoopInput EmulationInput CallerPosition Invocation)

/-- `Initialize` has bound everything. -/
def State.Bound (s : State) : Prop :=
  s.memberSet = true ∧ s.stateCallback = true ∧ s.errorCallback = true ∧ s.roomCallback = true

/-- The member does nothing on behalf of the bridge. -/
structure Quiet (member : Member.State) : Prop where
  caller : member.caller = .rest
  loopThread : member.loopThread = none

/-- The list shows no members. -/
structure Snapshot.Cleared (snapshot : Snapshot) : Prop where
  memberCount : snapshot.memberCount = 0
  members : snapshot.members = fun _ _ => 0

/-- What `GameStopped` and `Shutdown` publish. -/
structure Snapshot.Offline (snapshot : Snapshot) (hostMode : Bool) : Prop where
  state : snapshot.state = .offline
  cleared : snapshot.Cleared
  hostMode : hostMode = false

/-- Positions of `GameStopped` and `Shutdown` until they publish. -/
def ApiPosition.GoesOffline : ApiPosition → Prop
  | .stopCancel cause _ _ | .stopJoin cause _ _ => cause ≠ .gameReady
  | .offlinePublish _ => True
  | _ => False

/-- Positions at which `finished` is false without a worker. -/
def ApiPosition.Starts : ApiPosition → Prop
  | .requestStart _ | .requestRefinish => True
  | _ => False

/-- The invariant of a call under `api_mutex` at one position. -/
def State.ApiFacts (s : State) : ApiPosition → Prop
  | .initMember | .readyCheck _ _ | .requestReady _ | .leaveCancel | .leavePublish => True
  | .initExpired | .initFailed => s.memberSet = false
  | .initNetwork => s.memberSet = false ∧ s.network = none
  | .initLock => s.memberSet = false ∧ s.network ≠ none
  | .initBindState | .initBindError | .initBindRoom => s.memberSet = true
  | .stopCancel cause _ _ | .stopJoin cause _ _ =>
      (cause = .gameReady → s.Bound) ∧ (cause ≠ .gameReady → s.ready = false)
  | .readyPublish _ _ => s.Bound ∧ s.worker = none
  | .offlinePublish _ => s.ready = false ∧ s.worker = none
  | .unbind | .networkShutdown => s.ready = false ∧ s.worker = none ∧ s.snapshot.Offline s.hostMode
  | .requestFinished _ => s.ready = true
  | .requestJoinWorker _ => s.ready = true ∧ s.finished = true
  | .requestUncancel _ | .requestPublish _ | .requestUnfinish _ | .requestWithdraw =>
      s.ready = true ∧ s.finished = true ∧ s.worker = none
  | .requestStart _ | .requestRefinish =>
      s.ready = true ∧ s.finished = false ∧ s.worker = none

/-- Positions of a `Leave` called from outside the member. -/
def InOuterLeave : CallerPosition → Prop
  | .leaveImmediate .outer _ | .leaveSetIdle .outer _ | .leaveJoin .outer
  | .leaveDestroyHost .outer | .leaveClear .outer => True
  | _ => False

/-- The invariant of `Run` at one position. -/
def State.RunFacts (s : State) : RunPosition → Prop
  | .joining => s.member.caller ≠ .rest
  | .leaving => InOuterLeave s.member.caller
  | .pollCancel | .pollConnected _ | .pollSnapshot | .pollDeadline _ | .timedOut | .caught
  | .leave => s.member.caller = .rest
  | .getRoom | .checkRoom | .create | .createFailed | .checkCancel | .destroy | .publish
  | .finish => Quiet s.member
  | .ended => Quiet s.member ∧ s.finished = true

/-- While it runs, `Run` may use the member, and somebody will wait for it before
that changes. -/
structure State.RunGranted (s : State) : Prop where
  finished : s.finished = false
  memberSet : s.memberSet = true
  ready : s.ready = true ∨ ∃ position, s.api = some position ∧ position.GoesOffline

/-- The invariant of the session. -/
structure Wellformed (s : State) : Prop where
  bound : s.ready = true → s.Bound
  api : ∀ position, s.api = some position → s.ApiFacts position
  run : ∀ worker, s.worker = some worker → s.RunFacts worker.position
  granted : ∀ worker, s.worker = some worker → worker.position ≠ .ended → s.RunGranted
  noWorker : s.worker = none → Quiet s.member ∧
    (s.finished = true ∨ ∃ position, s.api = some position ∧ position.Starts)
  online : s.ready = true → s.snapshot.state ≠ .offline
  offline : s.ready = false → s.snapshot.state = .offline ∨
    ∃ position, s.api = some position ∧ position.GoesOffline

theorem wellformed_init : Wellformed {} where
  bound h := by cases h
  api _ h := by cases h
  run _ h := by cases h
  granted _ h := by cases h
  noWorker _ := ⟨⟨rfl, rfl⟩, .inl rfl⟩
  online h := by cases h
  offline _ := .inl rfl

/-! ## What a step may leave alone -/

/-- The globals that the threads and the lifecycle depend on are as before. -/
structure SameCore (s t : State) : Prop where
  ready : t.ready = s.ready
  memberSet : t.memberSet = s.memberSet
  bound : s.Bound → t.Bound
  worker : t.worker = s.worker
  finished : t.finished = s.finished
  caller : t.member.caller = s.member.caller
  loopThread : t.member.loopThread = s.member.loopThread

/-- The snapshot shows what it showed, or anything but offline while the bridge is
ready. -/
def State.ShowsAfter (s t : State) : Prop :=
  t.snapshot.state = s.snapshot.state ∨ s.ready = true ∧ t.snapshot.state ≠ .offline

theorem Quiet.congr {member member' : Member.State} (quiet : Quiet member)
    (hcaller : member'.caller = member.caller)
    (hloop : member'.loopThread = member.loopThread) : Quiet member' :=
  ⟨hcaller.trans quiet.caller, hloop.trans quiet.loopThread⟩

/-- The facts of `Run` depend on two positions in the member and on `finished`. -/
theorem State.RunFacts.congr {s t : State} {position : RunPosition}
    (facts : s.RunFacts position) (hcaller : t.member.caller = s.member.caller)
    (hloop : t.member.loopThread = s.member.loopThread) (hfinished : t.finished = s.finished) :
    t.RunFacts position := by
  cases position with
  | ended => exact ⟨facts.1.congr hcaller hloop, hfinished.trans facts.2⟩
  | leaving => exact (hcaller ▸ facts : InOuterLeave t.member.caller)
  | joining => exact fun h => facts (hcaller.symm.trans h)
  | _ => first | exact Quiet.congr facts hcaller hloop | exact hcaller.trans facts

/-- The facts of a call depend on the core, on the presence of a network and on what
an offline snapshot shows. -/
theorem State.ApiFacts.congr {s t : State} {position : ApiPosition}
    (facts : s.ApiFacts position) (core : SameCore s t)
    (hnetwork : t.network = none ↔ s.network = none)
    (hoffline : s.snapshot.Offline s.hostMode → t.snapshot.Offline t.hostMode) :
    t.ApiFacts position := by
  cases position with
  | stopCancel cause hash mac =>
      exact ⟨fun h => core.bound (facts.1 h), fun h => core.ready.trans (facts.2 h)⟩
  | stopJoin cause hash mac =>
      exact ⟨fun h => core.bound (facts.1 h), fun h => core.ready.trans (facts.2 h)⟩
  | readyPublish hash mac => exact ⟨core.bound facts.1, core.worker.trans facts.2⟩
  | unbind =>
      exact ⟨core.ready.trans facts.1, core.worker.trans facts.2.1, hoffline facts.2.2⟩
  | networkShutdown =>
      exact ⟨core.ready.trans facts.1, core.worker.trans facts.2.1, hoffline facts.2.2⟩
  | _ =>
      simp only [State.ApiFacts, core.ready, core.memberSet, core.worker, core.finished,
        hnetwork, ne_eq] at facts ⊢
      try exact facts

/-- A call moves on, returns or begins, and leaves the core alone. -/
theorem Wellformed.pass {s t : State} (inv : Wellformed s) (core : SameCore s t)
    (stays : ∀ position, s.api = some position → position.GoesOffline →
      ∃ position, t.api = some position ∧ position.GoesOffline)
    (starts : ∀ position, s.api = some position → ¬ position.Starts) (shows : s.ShowsAfter t)
    (facts : ∀ position, t.api = some position → t.ApiFacts position) : Wellformed t where
  bound h := core.bound (inv.bound (core.ready ▸ h))
  api := facts
  run worker h :=
    (inv.run worker (core.worker ▸ h)).congr core.caller core.loopThread core.finished
  granted worker h hrunning := by
    have granted := inv.granted worker (core.worker ▸ h) hrunning
    exact
      { finished := core.finished.trans granted.finished
        memberSet := core.memberSet.trans granted.memberSet
        ready := granted.ready.imp core.ready.trans
          fun ⟨position, hapi, hoffline⟩ => stays position hapi hoffline }
  noWorker h := by
    obtain ⟨quiet, hfinished⟩ := inv.noWorker (core.worker ▸ h)
    have hfinished : s.finished = true := hfinished.elim id fun ⟨position, hapi, hstarts⟩ =>
      absurd hstarts (starts position hapi)
    exact ⟨quiet.congr core.caller core.loopThread, .inl (core.finished.trans hfinished)⟩
  online h := by
    rcases shows with hsame | ⟨-, hshows⟩
    · exact hsame ▸ inv.online (core.ready ▸ h)
    · exact hshows
  offline h := by
    rcases shows with hsame | ⟨hready, -⟩
    · exact (inv.offline (core.ready ▸ h)).imp hsame.trans
        fun ⟨position, hapi, hoffline⟩ => stays position hapi hoffline
    · rw [core.ready, hready] at h
      cases h

/-- A step of another thread that leaves the core, and what the calls see, alone. -/
theorem Wellformed.frame {s t : State} (inv : Wellformed s) (core : SameCore s t)
    (hapi : t.api = s.api) (hnetwork : t.network = none ↔ s.network = none)
    (hsnapshot : t.snapshot.state = s.snapshot.state)
    (hoffline : s.snapshot.Offline s.hostMode → t.snapshot.Offline t.hostMode) :
    Wellformed t where
  bound h := core.bound (inv.bound (core.ready ▸ h))
  api position h := (inv.api position (hapi ▸ h)).congr core hnetwork hoffline
  run worker h :=
    (inv.run worker (core.worker ▸ h)).congr core.caller core.loopThread core.finished
  granted worker h hrunning := by
    have granted := inv.granted worker (core.worker ▸ h) hrunning
    exact
      { finished := core.finished.trans granted.finished
        memberSet := core.memberSet.trans granted.memberSet
        ready := by rw [core.ready, hapi]; exact granted.ready }
  noWorker h := by
    obtain ⟨quiet, hfinished⟩ := inv.noWorker (core.worker ▸ h)
    rw [core.finished, hapi]
    exact ⟨quiet.congr core.caller core.loopThread, hfinished⟩
  online h := by rw [hsnapshot]; exact inv.online (core.ready ▸ h)
  offline h := by rw [hsnapshot, hapi]; exact inv.offline (core.ready ▸ h)

/-- A call moves on while there is no worker. -/
theorem Wellformed.alone {t : State} (hworker : t.worker = none) (quiet : Quiet t.member)
    (bound : t.ready = true → t.Bound)
    (facts : ∀ position, t.api = some position → t.ApiFacts position)
    (finished : t.finished = true ∨ ∃ position, t.api = some position ∧ position.Starts)
    (online : t.ready = true → t.snapshot.state ≠ .offline)
    (offline : t.ready = false → t.snapshot.state = .offline ∨
      ∃ position, t.api = some position ∧ position.GoesOffline) : Wellformed t where
  bound := bound
  api := facts
  run worker h := by simp [hworker] at h
  granted worker h := by simp [hworker] at h
  noWorker _ := ⟨quiet, finished⟩
  online := online
  offline := offline

end ManicRoom.Session
