/-
# The state a session ends in

When no call is in progress and no worker is cleaning up, the snapshot should show
an offline or idle bridge without members. `Run` publishes that and stores
`finished` in a second step. A `retro_azahar_room_leave` whose section falls between
the two still sees an unfinished worker and publishes `AZ_ROOM_LEAVING`, which then
nothing takes back: the header's "State 4 lasts until socket cleanup completes" does
not hold.

It is the only way. In every run in which the section of `leave` does not fall
between the two steps, every session ends at rest.
-/

import ManicRoom.Session.Invariant

namespace ManicRoom.Session

open ManicRoom.Foundation
open Member (CallerInput LoopInput)

/-- An offline or idle bridge, no members, no hosting. -/
structure State.AtRest (s : State) : Prop where
  state : s.snapshot.state = .offline ∨ s.snapshot.state = .idle
  cleared : s.snapshot.Cleared
  hostMode : s.hostMode = false

/-- `Run` has published the end of the session. -/
def RunPosition.Published : RunPosition → Prop
  | .finish | .ended => True
  | _ => False

/-- What the user interface may rely on. -/
structure EndState (s : State) : Prop where
  /-- Between calls, a finished session is at rest. -/
  rest : s.api = none → s.finished = true → s.AtRest
  /-- Leaving is shown only while a worker has cleanup to do. -/
  leaving : s.snapshot.state = .leaving →
    ∃ worker, s.worker = some worker ∧ ¬ worker.position.Published

/-- The condition on a step under which that holds: the section of `leave` does not
fall between the two steps in which `Run` publishes the end and sets `finished`. -/
def LeaveBeforeEnd (s : State) : Label → Prop
  | .api .go => s.api = some .leavePublish → s.worker.map Worker.position ≠ some .finish
  | _ => True

instance (s : State) (label : Label) : Decidable (LeaveBeforeEnd s label) := by
  unfold LeaveBeforeEnd
  split <;> infer_instance

/-! ## The invariant -/

/-- Positions of `join` and `host` at which the snapshot shows a session that has no
worker yet, or will not have one. -/
def ApiPosition.Announces : ApiPosition → Prop
  | .requestUnfinish _ | .requestStart _ | .requestRefinish | .requestWithdraw => True
  | _ => False

/-- The snapshot should be at rest: no session is announced and none is running, or
the worker has only `finished` left to set. -/
def State.RestDue (s : State) : Prop :=
  (s.finished = true ∧ ∀ position, s.api = some position → ¬ position.Announces) ∨
    ∃ worker, s.worker = some worker ∧ worker.position = .finish

/-- The end of the session, in every state. -/
structure Settled (s : State) : Prop where
  rest : s.RestDue → s.AtRest
  /-- An announced session shows no members. -/
  announced : ∀ position, s.api = some position → position.Announces → s.snapshot.Cleared
  leaving : s.snapshot.state = .leaving →
    ∃ worker, s.worker = some worker ∧ ¬ worker.position.Published

/-- The snapshot shows the same, the error code apart. -/
structure SameShown (s t : State) : Prop where
  state : t.snapshot.state = s.snapshot.state
  memberCount : t.snapshot.memberCount = s.snapshot.memberCount
  members : t.snapshot.members = s.snapshot.members
  hostMode : t.hostMode = s.hostMode

theorem SameShown.cleared {s t : State} (shown : SameShown s t) (h : s.snapshot.Cleared) :
    t.snapshot.Cleared :=
  ⟨shown.memberCount.trans h.memberCount, shown.members.trans h.members⟩

theorem SameShown.atRest {s t : State} (shown : SameShown s t) (h : s.AtRest) : t.AtRest where
  state := by rw [shown.state]; exact h.state
  cleared := shown.cleared h.cleared
  hostMode := shown.hostMode.trans h.hostMode

/-- A worker that has published its end, or is gone, leaves nothing behind. -/
theorem Settled.not_leaving {s : State} (settled : Settled s)
    (h : ∀ worker, s.worker = some worker → worker.position.Published) :
    s.snapshot.state ≠ .leaving := by
  intro hleaving
  obtain ⟨worker, hworker, hunpublished⟩ := settled.leaving hleaving
  exact hunpublished (h worker hworker)

/-- A call moves on and shows the same; it may have joined the worker. -/
theorem Settled.pass {s t : State} (settled : Settled s) (shown : SameShown s t)
    (hfinished : t.finished = s.finished)
    (hworker : t.worker = s.worker ∨ s.WorkerDone ∧ t.worker = none)
    (hsource : ∀ position, s.api = some position → ¬ position.Announces)
    (htarget : ∀ position, t.api = some position → ¬ position.Announces) : Settled t where
  rest due := by
    refine shown.atRest (settled.rest ?_)
    rcases due with ⟨h, -⟩ | ⟨worker, h, hposition⟩
    · exact .inl ⟨hfinished.symm.trans h, hsource⟩
    · rcases hworker with hsame | ⟨-, hnone⟩
      · exact .inr ⟨worker, hsame.symm.trans h, hposition⟩
      · simp [hnone] at h
  announced position h hannounces := absurd hannounces (htarget position h)
  leaving h := by
    obtain ⟨worker, hsome, hunpublished⟩ := settled.leaving (shown.state.symm.trans h)
    rcases hworker with hsame | ⟨done, -⟩
    · exact ⟨worker, hsame.trans hsome, hunpublished⟩
    · exact absurd (by rw [done worker hsome]; trivial) hunpublished

/-- A call announces a session, or withdraws it, without a worker. -/
theorem Settled.announce {t : State} {position : ApiPosition} (hworker : t.worker = none)
    (hapi : t.api = some position) (hannounces : position.Announces)
    (cleared : t.snapshot.Cleared) (hstate : t.snapshot.state ≠ .leaving) : Settled t where
  rest due := by
    rcases due with ⟨-, h⟩ | ⟨worker, h, -⟩
    · exact absurd hannounces (h position hapi)
    · simp [hworker] at h
  announced _ _ _ := cleared
  leaving h := absurd h hstate

/-- The snapshot is at rest. -/
theorem State.AtRest.settled {s : State} (rest : s.AtRest) : Settled s where
  rest _ := rest
  announced _ _ _ := rest.cleared
  leaving h := by rcases rest.state with hrest | hrest <;> simp [hrest] at h

/-- A session is running and has not published its end. -/
theorem Settled.run {t : State} {worker : Worker} (hworker : t.worker = some worker)
    (hunpublished : ¬ worker.position.Published) (hfinished : t.finished = false)
    (hannounces : ∀ position, t.api = some position → ¬ position.Announces) : Settled t where
  rest due := by
    rcases due with ⟨h, -⟩ | ⟨other, h, hposition⟩
    · simp [hfinished] at h
    · cases hworker.symm.trans h
      exact absurd (by rw [hposition]; trivial) hunpublished
  announced position h hannounced := absurd hannounced (hannounces position h)
  leaving _ := ⟨worker, hworker, hunpublished⟩

/-- A step of another thread that shows the same. -/
theorem Settled.frame {s t : State} (settled : Settled s) (shown : SameShown s t)
    (hfinished : t.finished = s.finished) (hworker : t.worker = s.worker)
    (hapi : t.api = s.api) : Settled t where
  rest due := by
    refine shown.atRest (settled.rest ?_)
    unfold State.RestDue at due ⊢
    rwa [hfinished, hworker, hapi] at due
  announced position h hannounces :=
    shown.cleared (settled.announced position (hapi.symm.trans h) hannounces)
  leaving h := by
    rw [hworker]
    exact settled.leaving (shown.state.symm.trans h)

/-! ## The steps -/

theorem settled_callStep {s t : State} {input : ApiInput} (settled : Settled s)
    (h : callStep s input = some t) : Settled t := by
  have starts {t : State} (position : ApiPosition) (hapi : s.api = none)
      (hannounces : ¬ position.Announces) (ht : t.api = some position) (shown : SameShown s t)
      (hfinished : t.finished = s.finished) (hworker : t.worker = s.worker) : Settled t :=
    settled.pass shown hfinished (.inl hworker) (by simp [hapi])
      (fun _ h => Option.some.inj (ht.symm.trans h) ▸ hannounces)
  unfold callStep at h
  cases input with
  | callInitialize =>
      obtain ⟨hapi, rfl⟩ := by simpa using h
      exact starts _ hapi id rfl ⟨rfl, rfl, rfl, rfl⟩ rfl rfl
  | callGameReady hash mac =>
      obtain ⟨hapi, rfl⟩ := by simpa using h
      exact starts _ hapi id rfl ⟨rfl, rfl, rfl, rfl⟩ rfl rfl
  | callGameStopped =>
      obtain ⟨hapi, rfl⟩ := by simpa using h
      exact starts _ hapi id rfl ⟨rfl, rfl, rfl, rfl⟩ rfl rfl
  | callShutdown =>
      obtain ⟨hapi, rfl⟩ := by simpa using h
      exact starts _ hapi id rfl ⟨rfl, rfl, rfl, rfl⟩ rfl rfl
  | callRequest request =>
      simp only at h
      split at h
      · cases h
        exact settled.frame ⟨rfl, rfl, rfl, rfl⟩ rfl rfl rfl
      · obtain ⟨hapi, rfl⟩ := by simpa using h
        exact starts _ hapi id rfl ⟨rfl, rfl, rfl, rfl⟩ rfl rfl
  | callLeave =>
      obtain ⟨hapi, rfl⟩ := by simpa using h
      exact starts _ hapi id rfl ⟨rfl, rfl, rfl, rfl⟩ rfl rfl
  | handle =>
      simp only at h
      split at h
      · cases h
      · cases h
        exact settled.frame ⟨rfl, rfl, rfl, rfl⟩ rfl rfl rfl
  | go => cases h
  | fail => cases h
  | throw => cases h

theorem settled_apiStep {s t : State} {input : ApiInput} (inv : Wellformed s)
    (settled : Settled s) (ok : LeaveBeforeEnd s (.api input))
    (h : apiStep s input = some t) : Settled t := by
  cases hapi : s.api with
  | none => simp [apiStep, hapi] at h
  | some position =>
      have facts := inv.api position hapi
      -- The positions from which a session is announced or withdrawn come first.
      cases position with
      | stopJoin cause hash mac =>
          obtain ⟨done, rfl⟩ := apiStep_stopJoin hapi h
          refine settled.pass ⟨rfl, rfl, rfl, rfl⟩ rfl (.inr ⟨done, rfl⟩)
            (by simp [hapi, ApiPosition.Announces]) ?_
          rintro _ ⟨⟩
          split <;> exact id
      | requestJoinWorker accepted =>
          obtain ⟨done, rfl⟩ := apiStep_requestJoinWorker hapi h
          exact settled.pass ⟨rfl, rfl, rfl, rfl⟩ rfl (.inr ⟨done, rfl⟩)
            (by simp [hapi, ApiPosition.Announces])
            (by simp [State.apiAt, ApiPosition.Announces])
      | readyPublish hash mac =>
          cases input <;> simp only [apiStep, hapi, reduceCtorEq] at h
          cases h
          have rest := settled.rest (.inl
            ⟨inv.finished (State.workerDone_of_none facts.2) hapi id,
              by simp [hapi, ApiPosition.Announces]⟩)
          exact State.AtRest.settled ⟨.inr rfl, ⟨rest.cleared.memberCount, rest.cleared.members⟩,
            rfl⟩
      | offlinePublish cause =>
          cases input <;> simp only [apiStep, hapi, reduceCtorEq] at h
          repeat' split at h
          all_goals cases h
          all_goals exact State.AtRest.settled ⟨.inl rfl, ⟨rfl, rfl⟩, rfl⟩
      | requestPublish accepted =>
          cases input <;> simp only [apiStep, hapi, reduceCtorEq] at h
          cases h
          exact .announce facts.2.2 rfl trivial ⟨rfl, rfl⟩
            (by simp [State.apiAt, State.publish, Snapshot.clearMembers])
      | requestUnfinish accepted =>
          cases input <;> simp only [apiStep, hapi, reduceCtorEq] at h
          cases h
          exact .announce facts.2.2 rfl trivial (settled.announced _ hapi trivial)
            (settled.not_leaving (by simp [facts.2.2]))
      | requestStart accepted =>
          cases input <;> simp only [apiStep, hapi, reduceCtorEq] at h
          · cases h
            refine .run rfl ?_ facts.2.1 (by simp)
            cases accepted.host <;> exact id
          · cases h
            exact .announce facts.2.2 rfl trivial (settled.announced _ hapi trivial)
              (settled.not_leaving (by simp [facts.2.2]))
      | requestRefinish =>
          cases input <;> simp only [apiStep, hapi, reduceCtorEq] at h
          cases h
          exact .announce facts.2.2 rfl trivial (settled.announced _ hapi trivial)
            (settled.not_leaving (by simp [facts.2.2]))
      | requestWithdraw =>
          cases input <;> simp only [apiStep, hapi, reduceCtorEq] at h
          cases h
          have cleared := settled.announced _ hapi trivial
          exact State.AtRest.settled ⟨.inr rfl, ⟨cleared.memberCount, cleared.members⟩, rfl⟩
      | leavePublish =>
          cases input <;> simp only [apiStep, hapi, reduceCtorEq] at h
          split at h
          · cases h
            exact settled.pass ⟨rfl, rfl, rfl, rfl⟩ rfl (.inl rfl)
              (by simp [hapi, ApiPosition.Announces]) (by simp [State.release])
          · next hfinished =>
            cases h
            have hfinished : s.finished = false := by simpa using hfinished
            obtain ⟨worker, hworker, hrunning⟩ := inv.running hfinished hapi id
            refine .run hworker ?_ hfinished (by simp [State.release])
            intro hpublished
            cases hposition : worker.position <;> simp only [hposition] at hpublished
            case finish => exact ok hapi (by simp [hworker, hposition])
            case ended => exact hrunning hposition
            all_goals exact hpublished
      | _ =>
          cases input <;> simp only [apiStep, hapi, reduceCtorEq] at h
          all_goals repeat' (split at h)
          all_goals cases h
          all_goals
            exact settled.pass ⟨rfl, rfl, rfl, rfl⟩ rfl (.inl rfl)
              (by simp [hapi, ApiPosition.Announces])
              (by simp [State.apiAt, State.release, State.answer, ApiPosition.Announces])

/-- No session is announced while `Run` is active. -/
theorem Wellformed.not_announces {s : State} {worker : Worker} (inv : Wellformed s)
    (hworker : s.worker = some worker) :
    ∀ position, s.api = some position → ¬ position.Announces := by
  intro position hapi hannounces
  have facts := inv.api position hapi
  cases position <;> simp only [ApiPosition.Announces] at hannounces
  all_goals simp [facts.2.2] at hworker

/-- Until it publishes the end of the session, `Run` goes from one unpublished
position to another. -/
theorem runStep_unpublished {s t : State} {worker : Worker} {input : RunInput}
    (hworker : s.worker = some worker) (hposition : ¬ worker.position.Published)
    (hpublish : worker.position ≠ .publish) (h : runStep s worker input = some t) :
    (∃ worker', t.worker = some worker' ∧ ¬ worker'.position.Published) ∧
      t.finished = s.finished ∧ t.api = s.api := by
  have inside {t : State} {input : CallerInput} (h : memberStep s input = some t) :
      t.worker = s.worker ∧ t.finished = s.finished ∧ t.api = s.api := by
    obtain ⟨member, snapshot, -, rfl, -⟩ := memberStep_eq h
    exact ⟨rfl, rfl, rfl⟩
  unfold runStep at h
  split at h
  all_goals repeat' (split at h)
  all_goals cases h
  all_goals first
    | exact absurd ‹worker.position = .publish› hpublish
    | exact absurd (by rw [‹worker.position = .finish›]; trivial) hposition
    | exact ⟨⟨_, rfl, id⟩, rfl, rfl⟩
    | (obtain ⟨hsame, hfinished, hapi⟩ := inside ‹memberStep s _ = some _›
       first
         | exact ⟨⟨worker, hsame.trans hworker, hposition⟩, hfinished, hapi⟩
         | exact ⟨⟨_, rfl, id⟩, hfinished, hapi⟩)

theorem settled_runStep {s t : State} {worker : Worker} {input : RunInput}
    (inv : Wellformed s) (settled : Settled s) (hworker : s.worker = some worker)
    (h : runStep s worker input = some t) : Settled t := by
  by_cases hpublished : worker.position.Published
  · -- Only the store of `finished` is left.
    cases hposition : worker.position <;> simp only [hposition] at hpublished
    case finish =>
      cases input <;> simp only [runStep, hposition, reduceCtorEq] at h
      cases h
      have rest := settled.rest (.inr ⟨worker, hworker, hposition⟩)
      exact State.AtRest.settled ⟨rest.state, rest.cleared, rest.hostMode⟩
    case ended => cases input <;> simp [runStep, hposition] at h
    all_goals exact hpublished.elim
  · by_cases hpublish : worker.position = .publish
    · cases input <;> simp only [runStep, hpublish, reduceCtorEq] at h
      cases h
      exact State.AtRest.settled ⟨.inr rfl, ⟨rfl, rfl⟩, rfl⟩
    · obtain ⟨⟨worker', hworker', hunpublished⟩, hfinished, hapi⟩ :=
        runStep_unpublished hworker hpublished hpublish h
      have hrunning : worker.position ≠ .ended := fun hended =>
        hpublished (by rw [hended]; trivial)
      have granted := inv.granted worker hworker hrunning
      exact .run hworker' hunpublished (hfinished.trans granted.finished)
        (hapi ▸ inv.not_announces hworker)

theorem settled_loopStep {s t : State} {input : LoopInput} (inv : Wellformed s)
    (h : loopStep s input = some t) : Settled t := by
  obtain ⟨member, snapshot, hmember, rfl, -⟩ := loopStep_eq h
  obtain ⟨hloop, -, -⟩ := Member.loopStep_thread hmember
  obtain ⟨worker, hworker, hrunning⟩ := inv.active_of_loop hloop
  refine .run hworker (fun hpublished => ?_) (inv.granted worker hworker hrunning).finished
    (inv.not_announces hworker)
  have facts := inv.run worker hworker
  cases hposition : worker.position <;> simp only [hposition] at hpublished facts
  case finish => exact hloop facts.loopThread
  case ended => exact hrunning hposition
  all_goals exact hpublished

theorem settled_of_reachableVia {s : State} (h : system.ReachableVia LeaveBeforeEnd s) :
    Settled s := by
  refine h.invariant Settled (fun s hs => ?_) (fun s label t prior ok settled hs => ?_)
  · cases hs
    exact State.AtRest.settled ⟨.inl rfl, ⟨rfl, rfl⟩, rfl⟩
  · have inv := wellformed_of_reachable prior.reachable
    cases label with
    | api input =>
        rcases step_api hs with hs | hs
        · exact settled_callStep settled hs
        · exact settled_apiStep inv settled ok hs
    | run input =>
        obtain ⟨worker, hworker, hs⟩ := Option.bind_eq_some_iff.mp hs
        exact settled_runStep inv settled hworker hs
    | loop input => exact settled_loopStep inv hs
    | emulation input =>
        obtain ⟨member, -, rfl⟩ := emulationStep_eq hs
        exact settled.frame ⟨rfl, rfl, rfl, rfl⟩ rfl rfl rfl
    | other input =>
        obtain ⟨network, current, rfl⟩ := otherStep_eq hs
        exact settled.frame ⟨rfl, rfl, rfl, rfl⟩ rfl rfl rfl

/-! ## The result -/

/-- **A session ends at rest**, in every run in which no section of `leave` falls
between the publication of its end and the store of `finished`. -/
theorem endState_of_leaveBeforeEnd {s : State} (h : system.ReachableVia LeaveBeforeEnd s) :
    EndState s where
  rest hapi hfinished :=
    (settled_of_reachableVia h).rest (.inl ⟨hfinished, by simp [hapi]⟩)
  leaving := (settled_of_reachableVia h).leaving

/-- A session that is joined and left before its worker gets to do anything. -/
def leavesEarly : List Label :=
  initializes ++ getsReady ++ accepts joinRequest ++ .api .callLeave :: apiGoes 2 ++
    runGoes 2 ++ memberLeaves ++ runGoes 2

/-- Such a session ends at rest. -/
theorem endState_leavesEarly :
    ∃ s : State, (s.session = 1 ∧ s.api = none ∧ s.finished = true) ∧ EndState s := by
  obtain ⟨s, hreach, hends⟩ :=
    System.exists_reachableVia_of_runVia (S := system) LeaveBeforeEnd rfl leavesEarly
      (fun s => s.session = 1 ∧ s.api = none ∧ s.finished = true) (by decide +kernel)
  exact ⟨s, hends, endState_of_leaveBeforeEnd hreach⟩

/-- The same session, with the section of `leave` between the two last steps. -/
def leavesLate : List Label :=
  initializes ++ getsReady ++ accepts joinRequest ++ .api .callLeave :: apiGoes 1 ++
    runGoes 2 ++ memberLeaves ++ runGoes 1 ++ apiGoes 1 ++ runGoes 1

/-- **Leaving can be shown for good**: no call is in progress, the worker has ended
and the snapshot still says that it is leaving. -/
theorem leaving_after_end :
    ∃ s, system.Reachable s ∧ s.api = none ∧ s.finished = true ∧
      s.snapshot.state = .leaving ∧ ¬ EndState s := by
  obtain ⟨s, hreach, hapi, hfinished, hstate⟩ :=
    System.exists_reachable_of_run (S := system) rfl leavesLate
      (fun s => s.api = none ∧ s.finished = true ∧ s.snapshot.state = .leaving)
      (by decide +kernel)
  refine ⟨s, hreach, hapi, hfinished, hstate, fun ends => ?_⟩
  rcases (ends.rest hapi hfinished).state with h | h <;> simp [hstate] at h

end ManicRoom.Session
