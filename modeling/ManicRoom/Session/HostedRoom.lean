/-
# The room a worker hosts

A worker that hosts creates the room of the network, joins it and destroys it again.
Whatever ends the session (the room was not created, the request was cancelled, the
connection was lost or timed out, an exception) leads through the same cleanup. The
milestones a worker passes are recorded in order, so what the cleanup owes is a
statement about this record: either all five of them in one order, or those of a
worker that created nothing.
-/

import ManicRoom.Session.Lifecycle

namespace ManicRoom.Session

open ManicRoom.Foundation

/-- Everything that a worker goes through, depending on whether it created a room. -/
def allMilestones (created : Bool) : List RunEvent :=
  if created then [.created, .left, .destroyed, .published, .finished]
  else [.left, .published, .finished]

/-- Who has the room open. -/
def State.roomOwner (s : State) : Option RoomOwner := s.network.bind NetworkObject.room

/-- What holds of the rooms in every state. -/
structure RoomsOwned (s : State) : Prop where
  /-- The milestones of the current worker are in order, each at most once. -/
  ordered : ∀ worker, s.worker = some worker → s.trace <+: allMilestones worker.created
  /-- A finished worker has passed all of them. -/
  complete : s.finished = true → s.session = 0 ∨ ∃ created, s.trace = allMilestones created
  /-- `Destroy` is called by the worker that created the room, on that room. -/
  destroys : ∀ worker, s.worker = some worker → worker.position = .destroy →
    worker.created = true ∧ s.roomOwner = some (.worker s.session)
  /-- Only the current worker has a room open, and not after it has finished. -/
  closed : ∀ session, s.roomOwner = some (.worker session) →
    session = s.session ∧ s.finished = false
  /-- No call and no worker closes the room of somebody else. It is open until they
  close it, or until the owner of the network takes the whole network away. -/
  foreign : s.roomOwner = some .other → ∀ label t, step s label = some t →
    t.roomOwner = some .other ∨ label = .other .closeRoom ∨
      t.network = none ∧ (label = .other .shutdownNetwork ∨ s.ownsNetwork = true)

/-! ## The invariant -/

/-- Positions of `Run` before it can have created a room. -/
def RunPosition.BeforeRoom : RunPosition → Prop
  | .getRoom | .checkRoom | .create | .createFailed => True
  | _ => False

/-- Positions of `Run` after it has destroyed the room it may have created. -/
def RunPosition.AfterRoom : RunPosition → Prop
  | .publish | .finish | .ended => True
  | _ => False

/-- The milestones that `Run` has passed at a position. -/
def RunPosition.milestones (created : Bool) : RunPosition → List RunEvent
  | .getRoom | .checkRoom | .create | .createFailed => []
  | .destroy => [.created, .left]
  | .publish => if created then [.created, .left, .destroyed] else [.left]
  | .finish => if created then [.created, .left, .destroyed, .published] else [.left, .published]
  | .ended => allMilestones created
  | _ => if created then [.created] else []

theorem RunPosition.milestones_prefix {created : Bool} {position : RunPosition}
    (hdestroy : position = .destroy → created = true) :
    position.milestones created <+: allMilestones created := by
  cases position with
  | destroy =>
      rw [hdestroy rfl]
      exact ⟨[.destroyed, .published, .finished], rfl⟩
  | _ => cases created <;> simp [RunPosition.milestones, allMilestones]

/-- What the worker knows about its room. -/
structure WorkerFacts (s : State) (worker : Worker) : Prop where
  traced : s.trace = worker.position.milestones worker.created
  before : worker.position.BeforeRoom → worker.created = false
  destroy : worker.position = .destroy → worker.created = true
  /-- A room that was created stays open until it is destroyed. -/
  holds : worker.created = true → ¬ worker.position.AfterRoom →
    s.roomOwner = some (.worker s.session)

/-- The invariant of the rooms. -/
structure RoomFacts (s : State) : Prop where
  worker : ∀ worker, s.worker = some worker → WorkerFacts s worker
  noWorker : s.worker = none → s.session = 0 ∨ ∃ created, s.trace = allMilestones created
  /-- A room that a worker has open is the one of the current worker. -/
  holder : ∀ session, s.roomOwner = some (.worker session) →
    session = s.session ∧ ∃ worker, s.worker = some worker ∧ worker.created = true ∧
      ¬ worker.position.AfterRoom

/-- A step that touches neither the worker, nor its record, nor the room. -/
theorem RoomFacts.frame {s t : State} (facts : RoomFacts s) (hworker : t.worker = s.worker)
    (htrace : t.trace = s.trace) (hsession : t.session = s.session)
    (hroom : t.roomOwner = s.roomOwner) : RoomFacts t where
  worker worker h := by
    have known := facts.worker worker (hworker ▸ h)
    exact
      { traced := htrace.trans known.traced
        before := known.before
        destroy := known.destroy
        holds := by rw [hroom, hsession]; exact known.holds }
  noWorker h := by
    rw [hsession, htrace]
    exact facts.noWorker (hworker ▸ h)
  holder session h := by
    rw [hsession, hworker]
    exact facts.holder session (hroom ▸ h)

/-- No worker has the room open once the worker is done. -/
theorem RoomFacts.not_worker {s : State} (facts : RoomFacts s) (done : s.WorkerDone)
    (session : ℕ) : s.roomOwner ≠ some (.worker session) := by
  intro howner
  obtain ⟨-, worker, hworker, -, hopen⟩ := facts.holder session howner
  exact hopen (by rw [done worker hworker]; trivial)

/-- A step while there is no active worker that leaves no room of a worker open. -/
theorem RoomFacts.idle {s t : State} (facts : RoomFacts s) (done : s.WorkerDone)
    (hworker : t.worker = s.worker ∨ t.worker = none) (htrace : t.trace = s.trace)
    (hsession : t.session = s.session)
    (hroom : ∀ session, t.roomOwner ≠ some (.worker session)) : RoomFacts t where
  worker worker h := by
    have hsame : s.worker = some worker := by
      rcases hworker with hsame | hnone
      · exact hsame ▸ h
      · simp [hnone] at h
    have known := facts.worker worker hsame
    have hended := done worker hsame
    exact
      { traced := htrace.trans known.traced
        before := known.before
        destroy := known.destroy
        holds := fun _ hopen => absurd (by rw [hended]; trivial) hopen }
  noWorker _ := by
    rw [hsession, htrace]
    cases hsome : s.worker with
    | none => exact facts.noWorker hsome
    | some worker =>
        exact .inr ⟨worker.created, by
          rw [(facts.worker worker hsome).traced, done worker hsome]
          rfl⟩
  holder session h := absurd h (hroom session)

theorem roomFacts_apiStep {s t : State} {input : ApiInput} (inv : Wellformed s)
    (facts : RoomFacts s) (h : apiStep s input = some t) : RoomFacts t := by
  cases hapi : s.api with
  | none => simp [apiStep, hapi] at h
  | some position =>
      have known := inv.api position hapi
      cases position with
      | initNetwork =>
          have done := inv.workerDone_of_not_memberSet known.1
          cases input <;> simp only [apiStep, hapi, reduceCtorEq] at h <;> cases h
          · exact facts.idle done (.inl rfl) rfl rfl
              (by simp [State.roomOwner, State.apiAt])
          · exact facts.frame rfl rfl rfl rfl
          · exact facts.frame rfl rfl rfl rfl
      | networkShutdown =>
          have done := State.workerDone_of_none known.2.1
          cases input <;> simp only [apiStep, hapi, reduceCtorEq] at h
          split at h <;> cases h
          · exact facts.idle done (.inl rfl) rfl rfl (by simp [State.roomOwner])
          · exact facts.frame rfl rfl rfl rfl
      | stopJoin cause hash mac =>
          obtain ⟨done, rfl⟩ := apiStep_stopJoin hapi h
          exact facts.idle done (.inr rfl) rfl rfl (facts.not_worker done)
      | requestJoinWorker accepted =>
          obtain ⟨done, rfl⟩ := apiStep_requestJoinWorker hapi h
          exact facts.idle done (.inr rfl) rfl rfl (facts.not_worker done)
      | requestStart accepted =>
          have done := State.workerDone_of_none known.2.2
          cases input <;> simp only [apiStep, hapi, reduceCtorEq] at h <;> cases h
          · exact
              { worker := by
                  rintro _ ⟨⟩
                  cases accepted.host with
                  | true => exact ⟨rfl, fun _ => rfl, by rintro ⟨⟩, by rintro ⟨⟩⟩
                  | false => exact ⟨rfl, False.elim, by rintro ⟨⟩, by rintro ⟨⟩⟩
                noWorker := fun h => by cases h
                holder := fun session h => absurd h (facts.not_worker done session) }
          · exact facts.frame rfl rfl rfl rfl
      | _ =>
          cases input <;> simp only [apiStep, hapi, reduceCtorEq] at h
          all_goals repeat' (split at h)
          all_goals cases h
          all_goals exact facts.frame rfl rfl rfl rfl

/-- `Run` moves on between two milestones. -/
theorem RoomFacts.moveTo {s t : State} {worker : Worker} {position : RunPosition}
    (facts : RoomFacts s) (hworker : s.worker = some worker)
    (hworker' : t.worker = some { worker with position := position })
    (htrace : t.trace = s.trace) (hsession : t.session = s.session)
    (hroom : t.roomOwner = s.roomOwner)
    (hmilestones : position.milestones worker.created =
      worker.position.milestones worker.created)
    (hbefore : position.BeforeRoom → worker.position.BeforeRoom)
    (hdestroy : position = .destroy → worker.created = true)
    (hafter : position.AfterRoom ↔ worker.position.AfterRoom) : RoomFacts t where
  worker other h := by
    cases hworker'.symm.trans h
    have known := facts.worker worker hworker
    exact
      { traced := htrace.trans (known.traced.trans hmilestones.symm)
        before := fun h => known.before (hbefore h)
        destroy := hdestroy
        holds := by
          rw [hroom, hsession, hafter]
          exact known.holds }
  noWorker h := by simp [hworker'] at h
  holder session h := by
    obtain ⟨hsame, other, hother, hcreated, hopen⟩ := facts.holder session (hroom ▸ h)
    cases hworker.symm.trans hother
    exact ⟨hsame.trans hsession.symm, _, hworker', hcreated, fun h => hopen (hafter.mp h)⟩

/-- `Run` passes a milestone after the first. -/
theorem RoomFacts.pass {s t : State} {worker : Worker} {position : RunPosition}
    {event : RunEvent} (facts : RoomFacts s) (hworker : s.worker = some worker)
    (hworker' : t.worker = some { worker with position := position })
    (htrace : t.trace = s.trace ++ [event]) (hsession : t.session = s.session)
    (hmilestones : position.milestones worker.created =
      worker.position.milestones worker.created ++ [event])
    (hbefore : ¬ position.BeforeRoom) (hdestroy : position = .destroy → worker.created = true)
    (hholds : worker.created = true → ¬ position.AfterRoom →
      t.roomOwner = some (.worker s.session))
    (hholder : ∀ session, t.roomOwner = some (.worker session) →
      s.roomOwner = some (.worker session) ∧ (worker.created = true → ¬ position.AfterRoom)) :
    RoomFacts t where
  worker other h := by
    cases hworker'.symm.trans h
    exact
      { traced := by rw [htrace, (facts.worker worker hworker).traced, hmilestones]
        before := fun h => absurd h hbefore
        destroy := hdestroy
        holds := by rw [hsession]; exact hholds }
  noWorker h := by simp [hworker'] at h
  holder session h := by
    obtain ⟨howner, hopen⟩ := hholder session h
    obtain ⟨hsame, other, hother, hcreated, -⟩ := facts.holder session howner
    cases hworker.symm.trans hother
    exact ⟨hsame.trans hsession.symm, _, hworker', hcreated, hopen hcreated⟩

theorem roomFacts_runStep {s t : State} {worker : Worker} {input : RunInput}
    (facts : RoomFacts s) (hworker : s.worker = some worker)
    (h : runStep s worker input = some t) : RoomFacts t := by
  have known := facts.worker worker hworker
  have moveTo {t : State} {position : RunPosition}
      (hworker' : t.worker = some { worker with position := position })
      (htrace : t.trace = s.trace) (hsession : t.session = s.session)
      (hroom : t.roomOwner = s.roomOwner)
      (hmilestones : position.milestones worker.created =
        worker.position.milestones worker.created)
      (hbefore : position.BeforeRoom → worker.position.BeforeRoom)
      (hdestroy : position = .destroy → worker.created = true)
      (hafter : position.AfterRoom ↔ worker.position.AfterRoom) : RoomFacts t :=
    facts.moveTo hworker hworker' htrace hsession hroom hmilestones hbefore hdestroy hafter
  cases hposition : worker.position with
  | create =>
      have hcreated := known.before (by rw [hposition]; trivial)
      rcases input with _ | answer | _ | _ | _ <;>
        simp only [runStep, hposition, reduceCtorEq] at h
      · cases answer <;> simp only at h
        · cases h
          exact moveTo rfl rfl rfl rfl (by rw [hposition]; rfl) (by rw [hposition]; exact id)
            (by simp) (by rw [hposition]; exact Iff.rfl)
        · split at h
          · next owned hnetwork =>
            cases h
            exact
              { worker := by
                  rintro _ ⟨⟩
                  have htrace : s.trace = [] := by rw [known.traced, hposition]; rfl
                  exact ⟨by simp [State.mark, State.runAt, htrace, RunPosition.milestones],
                    False.elim, by rintro ⟨⟩, fun _ _ => rfl⟩
                noWorker := fun h => by cases h
                holder := fun session h => by
                  cases h
                  exact ⟨rfl, _, rfl, rfl, id⟩ }
          · cases h
      · cases h
        exact moveTo rfl rfl rfl rfl
          (by rw [hposition]; simp [RunPosition.milestones, hcreated]) False.elim (by simp)
          (by rw [hposition]; exact Iff.rfl)
  | createFailed =>
      have hcreated := known.before (by rw [hposition]; trivial)
      cases input <;> simp only [runStep, hposition, reduceCtorEq] at h
      cases h
      exact moveTo rfl rfl rfl rfl
        (by rw [hposition]; simp [RunPosition.milestones, hcreated]) False.elim (by simp)
        (by rw [hposition]; exact Iff.rfl)
  | joining =>
      cases input <;> simp only [runStep, hposition, reduceCtorEq] at h
      split at h
      · cases h
      · next hstep =>
        obtain ⟨member, snapshot, -, rfl, -⟩ := memberStep_eq hstep
        repeat' split at h
        · cases h
          exact facts.frame rfl rfl rfl rfl
        all_goals cases h
        all_goals
          exact moveTo rfl rfl rfl rfl (by rw [hposition]; rfl) (by rw [hposition]; exact id)
            (by simp) (by rw [hposition]; exact Iff.rfl)
  | leaving =>
      have hholds := known.holds
      rw [hposition] at hholds
      cases input <;> simp only [runStep, hposition, reduceCtorEq] at h
      split at h
      · cases h
      · next hstep =>
        obtain ⟨member, snapshot, -, rfl, -⟩ := memberStep_eq hstep
        split at h
        · cases h
          exact facts.frame rfl rfl rfl rfl
        · split at h
          · next hcreated =>
            cases h
            exact facts.pass hworker rfl rfl rfl
              (by simp [hposition, hcreated, RunPosition.milestones]) id (fun _ => hcreated)
              (fun h _ => hholds h id) (fun _ h => ⟨h, fun _ => id⟩)
          · next hcreated =>
            cases h
            exact facts.pass hworker rfl rfl rfl
              (by simp [hposition, hcreated, RunPosition.milestones]) id (by rintro ⟨⟩)
              (fun h => absurd h hcreated) (fun _ h => ⟨h, fun h => absurd h hcreated⟩)
  | destroy =>
      have hcreated := known.destroy hposition
      have hclosed : s.destroyRoom.roomOwner = none := by
        cases hnetwork : s.network <;> simp [State.roomOwner, State.destroyRoom, hnetwork]
      cases input <;> simp only [runStep, hposition, reduceCtorEq] at h
      cases h
      refine facts.pass hworker rfl rfl rfl
        (by simp [hposition, hcreated, RunPosition.milestones]) id (by rintro ⟨⟩)
        (fun _ h => absurd trivial h) (fun session h => ?_)
      have howner : s.destroyRoom.roomOwner = some (.worker session) := h
      simp [hclosed] at howner
  | publish =>
      cases input <;> simp only [runStep, hposition, reduceCtorEq] at h
      cases h
      refine facts.pass hworker rfl rfl rfl
        (by cases hcreated : worker.created <;>
          simp [hposition, RunPosition.milestones])
        id (by rintro ⟨⟩) (fun _ h => absurd trivial h) (fun session h => ?_)
      obtain ⟨-, other, hother, -, hopen⟩ := facts.holder session h
      cases hworker.symm.trans hother
      exact absurd (by rw [hposition]; trivial) hopen
  | finish =>
      cases input <;> simp only [runStep, hposition, reduceCtorEq] at h
      cases h
      refine facts.pass hworker rfl rfl rfl
        (by cases hcreated : worker.created <;>
          simp [hposition, RunPosition.milestones, allMilestones])
        id (by rintro ⟨⟩) (fun _ h => absurd trivial h) (fun session h => ?_)
      obtain ⟨-, other, hother, -, hopen⟩ := facts.holder session h
      cases hworker.symm.trans hother
      exact absurd (by rw [hposition]; trivial) hopen
  | pollConnected loads =>
      cases loads <;> cases input <;> simp only [runStep, hposition, reduceCtorEq] at h
      all_goals repeat' (split at h)
      all_goals cases h
      all_goals
        exact moveTo rfl rfl rfl rfl (by rw [hposition]; rfl) (by rw [hposition]; exact id)
          (by simp) (by rw [hposition]; exact Iff.rfl)
  | _ =>
      cases input <;> simp only [runStep, hposition, reduceCtorEq] at h
      all_goals repeat' (split at h)
      all_goals cases h
      all_goals
        exact moveTo rfl rfl rfl rfl (by rw [hposition]; rfl) (by rw [hposition]; exact id)
          (by simp) (by rw [hposition]; exact Iff.rfl)

theorem roomFacts_otherStep {s t : State} {input : OtherInput} (inv : Wellformed s)
    (facts : RoomFacts s) (h : otherStep s input = some t) : RoomFacts t := by
  -- A step that changes the room while no worker has it open.
  have change {t : State} (hworker : t.worker = s.worker) (htrace : t.trace = s.trace)
      (hsession : t.session = s.session)
      (hbefore : ∀ session, s.roomOwner ≠ some (.worker session))
      (hafter : ∀ session, t.roomOwner ≠ some (.worker session)) : RoomFacts t :=
    { worker := fun worker h => by
        have known := facts.worker worker (hworker ▸ h)
        exact
          { traced := htrace.trans known.traced
            before := known.before
            destroy := known.destroy
            holds := fun hcreated hopen => absurd (known.holds hcreated hopen) (hbefore _) }
      noWorker := fun h => by
        rw [hsession, htrace]
        exact facts.noWorker (hworker ▸ h)
      holder := fun session h => absurd h (hafter session) }
  unfold otherStep at h
  split at h
  · next hnetwork =>
    split at h <;> cases h
    exact change rfl rfl rfl (by simp [State.roomOwner, hnetwork]) (by simp [State.roomOwner])
  · next hnetwork =>
    split at h
    · next hfree =>
      cases h
      have done : s.WorkerDone := by
        intro worker hworker
        by_contra hrunning
        simp [(inv.granted worker hworker hrunning).finished] at hfree
      exact change rfl rfl rfl (facts.not_worker done) (by simp [State.roomOwner])
    · cases h
  · next hnetwork =>
    cases h
    exact change rfl rfl rfl (by simp [State.roomOwner, hnetwork]) (by simp [State.roomOwner])
  · next hnetwork =>
    cases h
    exact change rfl rfl rfl (by simp [State.roomOwner, hnetwork]) (by simp [State.roomOwner])
  · cases h

theorem roomFacts_of_reachable {s : State} (h : system.Reachable s) : RoomFacts s := by
  refine System.Reachable.invariant RoomFacts (fun s hs => ?_)
    (fun s label t prior facts hs => ?_) h
  · cases hs
    exact ⟨nofun, fun _ => .inl rfl, nofun⟩
  · have inv := wellformed_of_reachable prior
    cases label with
    | api input =>
        rcases step_api hs with hs | hs
        · unfold callStep at hs
          split at hs
          all_goals repeat' (split at hs)
          all_goals cases hs
          all_goals exact facts.frame rfl rfl rfl rfl
        · exact roomFacts_apiStep inv facts hs
    | run input =>
        obtain ⟨worker, hworker, hs⟩ := Option.bind_eq_some_iff.mp hs
        exact roomFacts_runStep facts hworker hs
    | loop input =>
        obtain ⟨member, snapshot, -, rfl, -⟩ := loopStep_eq hs
        exact facts.frame rfl rfl rfl rfl
    | emulation input =>
        obtain ⟨member, -, rfl⟩ := emulationStep_eq hs
        exact facts.frame rfl rfl rfl rfl
    | other input => exact roomFacts_otherStep inv facts hs

/-! ## The room of somebody else -/

theorem apiStep_foreignRoom {s t : State} {input : ApiInput} (inv : Wellformed s)
    (howner : s.roomOwner = some .other) (h : apiStep s input = some t) :
    t.roomOwner = some .other ∨ t.network = none ∧ s.ownsNetwork = true := by
  cases hapi : s.api with
  | none => simp [apiStep, hapi] at h
  | some position =>
      have known := inv.api position hapi
      cases position with
      | initNetwork =>
          -- `Network::Init` is called where there is no network, and so no room.
          simp [State.roomOwner, known.2] at howner
      | networkShutdown =>
          cases input <;> simp only [apiStep, hapi, reduceCtorEq] at h
          split at h
          · next howns =>
            cases h
            exact .inr ⟨rfl, howns⟩
          · cases h
            exact .inl howner
      | _ =>
          cases input <;> simp only [apiStep, hapi, reduceCtorEq] at h
          all_goals repeat' (split at h)
          all_goals cases h
          all_goals exact .inl howner

theorem runStep_foreignRoom {s t : State} {worker : Worker} {input : RunInput}
    (known : WorkerFacts s worker) (howner : s.roomOwner = some .other)
    (h : runStep s worker input = some t) : t.roomOwner = some .other := by
  have inside {t : State} {input : Member.CallerInput} (h : memberStep s input = some t) :
      t.roomOwner = some .other := by
    obtain ⟨member, snapshot, -, rfl, -⟩ := memberStep_eq h
    exact howner
  -- The room that `Run` destroys is the one it has open itself.
  have hdestroys : worker.position ≠ .destroy := by
    intro hposition
    have hholds := known.holds (known.destroy hposition) (by rw [hposition]; exact id)
    simp [howner] at hholds
  unfold runStep at h
  split at h
  all_goals repeat' (split at h)
  all_goals cases h
  all_goals first
    | exact howner
    | exact absurd ‹worker.position = .destroy› hdestroys
    | (have hinside := inside ‹memberStep s _ = some _›
       exact hinside)
    | simp [State.roomOwner, *] at howner

theorem step_foreignRoom {s t : State} {label : Label} (inv : Wellformed s)
    (facts : RoomFacts s) (howner : s.roomOwner = some .other) (h : step s label = some t) :
    t.roomOwner = some .other ∨ label = .other .closeRoom ∨
      t.network = none ∧ (label = .other .shutdownNetwork ∨ s.ownsNetwork = true) := by
  cases label with
  | api input =>
      rcases step_api h with h | h
      · unfold callStep at h
        split at h
        all_goals repeat' (split at h)
        all_goals cases h
        all_goals exact .inl howner
      · exact (apiStep_foreignRoom inv howner h).imp_right
          fun ⟨hgone, howns⟩ => .inr ⟨hgone, .inr howns⟩
  | run input =>
      obtain ⟨worker, hworker, h⟩ := Option.bind_eq_some_iff.mp h
      exact .inl (runStep_foreignRoom (facts.worker worker hworker) howner h)
  | loop input =>
      obtain ⟨member, snapshot, -, rfl, -⟩ := loopStep_eq h
      exact .inl howner
  | emulation input =>
      obtain ⟨member, -, rfl⟩ := emulationStep_eq h
      exact .inl howner
  | other input =>
      simp only [step] at h
      unfold otherStep at h
      split at h
      · next hnetwork => simp [State.roomOwner, hnetwork] at howner
      · split at h <;> cases h
        exact .inr (.inr ⟨rfl, .inl rfl⟩)
      · next hnetwork => simp [State.roomOwner, hnetwork] at howner
      · exact .inr (.inl rfl)
      · cases h

/-! ## The result -/

/-- **The rooms are owned soundly in every reachable state.** -/
theorem roomsOwned_of_reachable {s : State} (h : system.Reachable s) : RoomsOwned s := by
  have inv := wellformed_of_reachable h
  have facts := roomFacts_of_reachable h
  have ended (hfinished : s.finished = true) : s.WorkerDone := by
    intro worker hworker
    by_contra hrunning
    simp [(inv.granted worker hworker hrunning).finished] at hfinished
  exact
    { ordered := fun worker hworker => by
        have known := facts.worker worker hworker
        rw [known.traced]
        exact RunPosition.milestones_prefix known.destroy
      complete := fun hfinished => by
        cases hworker : s.worker with
        | none => exact facts.noWorker hworker
        | some worker =>
            have known := facts.worker worker hworker
            exact .inr ⟨worker.created, by
              rw [known.traced, ended hfinished worker hworker]
              rfl⟩
      destroys := fun worker hworker hposition => by
        have known := facts.worker worker hworker
        have hcreated := known.destroy hposition
        exact ⟨hcreated, known.holds hcreated (by rw [hposition]; exact id)⟩
      closed := fun session howner => by
        obtain ⟨hsame, worker, hworker, -, hopen⟩ := facts.holder session howner
        refine ⟨hsame, (inv.granted worker hworker fun hended => hopen ?_).finished⟩
        rw [hended]
        trivial
      foreign := fun howner label t hstep => step_foreignRoom inv facts howner hstep }

/-- A hosted session that is closed before its worker joins the room it has created. -/
def hostsBriefly : List Label :=
  initializes ++ getsReady ++ accepts hostRequest ++ runGoes 2 ++ [.run (.created true)] ++
    .api .callLeave :: apiGoes 2 ++ runGoes 2 ++ memberLeaves ++ runGoes 3

/-- The worker of such a session destroys its room. -/
theorem roomsOwned_hostsBriefly :
    ∃ s : State, (s.trace = allMilestones true ∧ s.finished = true ∧ s.roomOwner = none) ∧
      RoomsOwned s := by
  obtain ⟨s, hreach, hends⟩ :=
    System.exists_reachable_of_run (S := system) rfl hostsBriefly
      (fun s => s.trace = allMilestones true ∧ s.finished = true ∧ s.roomOwner = none)
      (by decide +kernel)
  exact ⟨s, hends, roomsOwned_of_reachable hreach⟩

/-- Somebody else has a room open in the network of the bridge, up to the last step of
a `Shutdown`. -/
def shutsDownOpenRoom : List Label :=
  initializes ++ .other .openRoom :: .api .callShutdown :: apiGoes 4

/-- **`Shutdown` can close the room of somebody else**: it takes away the network that the
bridge has initialised, with the room that is open in it. -/
theorem shutdown_closes_room_of_others :
    ∃ s t, system.Reachable s ∧ s.roomOwner = some .other ∧ s.api = some .networkShutdown ∧
      step s (.api .go) = some t ∧ t.roomOwner = none := by
  obtain ⟨s, hreach, howner, hapi, hends⟩ :=
    System.exists_reachable_of_run (S := system) rfl shutsDownOpenRoom
      (fun s => s.roomOwner = some .other ∧ s.api = some .networkShutdown ∧
        ((step s (.api .go)).any fun t => t.roomOwner = none) = true) (by decide +kernel)
  obtain ⟨t, hstep, hgone⟩ := (Option.any_eq_true _ _).mp hends
  exact ⟨s, t, hreach, howner, hapi, hstep, of_decide_eq_true hgone⟩

end ManicRoom.Session
