/-
# What is_hosting tells

`retro_azahar_room_is_hosting` combines `host_mode` with the published state. Both are
written in several places, so its answer is compared with a record of what really
happened: which request was accepted last, whether its room was created, whether the
member was admitted, and whether the room is gone again.

The answer is true but for one moment. `Run` destroys its room in one step and takes
`host_mode` back in the next, and unless `leave` has been called the snapshot still shows
that the member has joined in between.
-/

import ManicRoom.Member.Admission
import ManicRoom.Session.EndState

namespace ManicRoom.Session

open ManicRoom.Foundation
open Member (CallerInput LoopInput EmulationInput Invocation)

/-- What happened since the latest request was accepted. -/
structure Hosting where
  /-- It was `host`. -/
  host : Bool := false
  /-- `server->Create(..)` has returned true. -/
  created : Bool := false
  /-- The member has received `JoinSuccess` or `JoinSuccessAsMod`. -/
  admitted : Bool := false
  /-- `server->Destroy()` has returned. -/
  destroyed : Bool := false
  deriving DecidableEq, Repr

def Hosting.observeRun (position : RunPosition) (input : RunInput) (hosting : Hosting) :
    Hosting :=
  match position, input with
  | .create, .created true => { hosting with created := true }
  | .destroy, .go => { hosting with destroyed := true }
  | _, _ => hosting

/-- A request is accepted when it has passed its checks and takes `cancel` back. -/
def Hosting.observe (s : State) (label : Label) (hosting : Hosting) : Hosting :=
  match label with
  | .api .go =>
      match s.api with
      | some (.requestUncancel accepted) => { host := accepted.host }
      | _ => hosting
  | .run input =>
      match s.worker with
      | some worker => hosting.observeRun worker.position input
      | none => hosting
  | .loop (.event event) =>
      if s.member.loopThread = some .service ∧ event.IsJoinSuccess then
        { hosting with admitted := true }
      else hosting
  | _ => hosting

/-- The session with the record beside it. -/
def hosting : System (State × Hosting) Label := system.observed {} Hosting.observe

/-- What the user interface may rely on when it is told that a room is hosted. -/
structure HostsRoom (pair : State × Hosting) : Prop where
  /-- The latest accepted request was `host`. -/
  host : pair.2.host = true
  /-- Its worker has not finished its cleanup. -/
  worker : ∃ worker, pair.1.worker = some worker ∧ ¬ worker.position.Published
  created : pair.2.created = true
  admitted : pair.2.admitted = true
  /-- The room is still there. -/
  destroyed : pair.2.destroyed = false

/-- The answer is true. -/
def HostingTrue (pair : State × Hosting) : Prop := pair.1.isHosting = true → HostsRoom pair

/-- The condition on a step under which it is: `Run` does not destroy its room while the
snapshot shows that the member has joined. -/
def DestroysUnseen (pair : State × Hosting) (label : Label) : Prop :=
  match label with
  | .run .go => pair.1.worker.map Worker.position = some .destroy →
      pair.1.snapshot.state ≠ .joined
  | _ => True

instance (pair : State × Hosting) (label : Label) : Decidable (DestroysUnseen pair label) := by
  unfold DestroysUnseen
  split <;> infer_instance

/-! ## The invariant -/

/-- Positions of `Run` that a host reaches only when it has created its room. -/
def RunPosition.Joins : RunPosition → Prop
  | .checkCancel | .joining | .pollCancel | .pollConnected _ | .pollSnapshot | .pollDeadline _
  | .timedOut => True
  | _ => False

/-- The request that a call has accepted and not yet started. -/
def ApiPosition.accepted? : ApiPosition → Option Accepted
  | .requestPublish accepted | .requestUnfinish accepted | .requestStart accepted => some accepted
  | _ => none

/-- What is known about the worker. -/
structure WorkerHosts (s : State) (hosting : Hosting) (worker : Worker) : Prop where
  host : hosting.host = worker.arguments.accepted.host
  created : hosting.created = worker.created
  /-- A host without a room does not join. -/
  roomless : worker.arguments.accepted.host = true → worker.created = false →
    ¬ worker.position.Joins ∧ s.member.loopThread = none ∧ hosting.admitted = false
  /-- Nobody sees a room that is gone. -/
  destroyed : hosting.destroyed = true →
    (worker.position = .publish ∨ worker.position.Published) ∧ s.snapshot.state ≠ .joined

/-- The invariant of hosting. -/
structure HostingFacts (s : State) (hosting : Hosting) : Prop where
  shown : s.snapshot.state = .joined →
    hosting.admitted = true ∧ ∃ worker, s.worker = some worker ∧ ¬ worker.position.Published
  hostMode : s.hostMode = true →
    (∃ worker, s.worker = some worker ∧ worker.arguments.accepted.host = true ∧
        ¬ worker.position.Published) ∨
      ∃ position, s.api = some position ∧ position.Announces
  admitting : s.member.Admitting → hosting.admitted = true
  accepted : ∀ position accepted, s.api = some position → position.accepted? = some accepted →
    hosting = { host := accepted.host } ∧ (s.hostMode = true → accepted.host = true)
  worker : ∀ worker, s.worker = some worker → WorkerHosts s hosting worker

theorem hostingFacts_init : HostingFacts {} {} where
  shown h := by cases h
  hostMode h := by cases h
  admitting h := by
    rcases h with h | h | ⟨position, hposition, -⟩
    · exact absurd h (by decide)
    · exact h.elim
    · cases hposition
  accepted _ _ h := by cases h
  worker _ h := by cases h

/-- A worker that has published its end shows nothing. -/
theorem HostingFacts.not_joined {s : State} {hosting : Hosting} (facts : HostingFacts s hosting)
    (h : ∀ worker, s.worker = some worker → worker.position.Published) :
    s.snapshot.state ≠ .joined := by
  intro hjoined
  obtain ⟨-, worker, hworker, hunpublished⟩ := facts.shown hjoined
  exact hunpublished (h worker hworker)

/-- It does not host either, unless the next request is on its way. -/
theorem HostingFacts.not_hostMode {s : State} {hosting : Hosting} (facts : HostingFacts s hosting)
    (h : ∀ worker, s.worker = some worker → worker.position.Published)
    (hapi : ∀ position, s.api = some position → ¬ position.Announces) : s.hostMode = false := by
  by_contra hmode
  rcases facts.hostMode (by simpa using hmode) with
    ⟨worker, hworker, -, hunpublished⟩ | ⟨position, hposition, hannounces⟩
  · exact hunpublished (h worker hworker)
  · exact hapi position hposition hannounces

/-- A call moves on, and shows no new session. -/
theorem HostingFacts.pass {s t : State} {hosting : Hosting} (facts : HostingFacts s hosting)
    (hstate : t.snapshot.state = s.snapshot.state ∨ t.snapshot.state ≠ .joined)
    (hmode : t.hostMode = s.hostMode ∨ t.hostMode = false)
    (hmember : t.member.Admitting → s.member.Admitting)
    (hloop : s.member.loopThread = none → t.member.loopThread = none)
    (hworker : t.worker = s.worker ∨ s.WorkerDone ∧ t.worker = none)
    (hsource : ∀ position, s.api = some position → ¬ position.Announces)
    (htarget : ∀ position, t.api = some position → position.accepted? = none) :
    HostingFacts t hosting := by
  have hjoined (h : t.snapshot.state = .joined) : s.snapshot.state = .joined := by
    rcases hstate with hsame | hother
    · exact hsame.symm.trans h
    · exact absurd h hother
  have hkeeps {worker : Worker} (h : s.worker = some worker)
      (hunpublished : ¬ worker.position.Published) : t.worker = some worker := by
    rcases hworker with hsame | ⟨done, -⟩
    · exact hsame.trans h
    · exact absurd (by rw [done worker h]; trivial) hunpublished
  refine ⟨fun h => ?_, fun h => ?_, fun h => facts.admitting (hmember h), fun _ _ h haccepted => ?_,
    fun worker h => ?_⟩
  · obtain ⟨hadmitted, worker, hsome, hunpublished⟩ := facts.shown (hjoined h)
    exact ⟨hadmitted, worker, hkeeps hsome hunpublished, hunpublished⟩
  · rcases hmode with hsame | hfalse
    · rcases facts.hostMode (hsame.symm.trans h) with
        ⟨worker, hsome, hhost, hunpublished⟩ | ⟨position, hposition, hannounces⟩
      · exact .inl ⟨worker, hkeeps hsome hunpublished, hhost, hunpublished⟩
      · exact absurd hannounces (hsource position hposition)
    · simp [hfalse] at h
  · simp [htarget _ h] at haccepted
  · rcases hworker with hsame | ⟨-, hnone⟩
    · have known := facts.worker worker (hsame.symm.trans h)
      exact
        { host := known.host
          created := known.created
          roomless := fun hhost hcreated => by
            obtain ⟨hjoins, hnone, hadmitted⟩ := known.roomless hhost hcreated
            exact ⟨hjoins, hloop hnone, hadmitted⟩
          destroyed := fun hdestroyed =>
            ⟨(known.destroyed hdestroyed).1, fun h =>
              (known.destroyed hdestroyed).2 (hjoined h)⟩ }
    · simp [hnone] at h

/-- A call that announces a session, or withdraws it, without a worker. -/
theorem HostingFacts.announce {t : State} {hosting : Hosting} {position : ApiPosition}
    (hworker : t.worker = none) (hapi : t.api = some position) (hannounces : position.Announces)
    (hstate : t.snapshot.state ≠ .joined) (hmember : t.member.Admitting → hosting.admitted = true)
    (haccepted : ∀ accepted, position.accepted? = some accepted →
      hosting = { host := accepted.host } ∧ (t.hostMode = true → accepted.host = true)) :
    HostingFacts t hosting where
  shown h := absurd h hstate
  hostMode _ := .inr ⟨position, hapi, hannounces⟩
  admitting := hmember
  accepted other accepted h := by
    cases hapi.symm.trans h
    exact haccepted accepted
  worker _ h := by simp [hworker] at h

/-! ## The steps of the calls -/

theorem hostingFacts_callStep {s t : State} {input : ApiInput} {hosting : Hosting}
    (facts : HostingFacts s hosting) (h : callStep s input = some t) : HostingFacts t hosting := by
  have starts {t : State} (position : ApiPosition) (hapi : s.api = none)
      (hposition : position.accepted? = none) (ht : t.api = some position)
      (hsnapshot : t.snapshot = s.snapshot) (hmode : t.hostMode = s.hostMode)
      (hmember : t.member = s.member) (hworker : t.worker = s.worker) : HostingFacts t hosting := by
    refine facts.pass (.inl (by rw [hsnapshot])) (.inl hmode) (fun h => hmember ▸ h)
      (fun h => hmember ▸ h) (.inl hworker) (by simp [hapi]) (fun other hother => ?_)
    cases ht.symm.trans hother
    exact hposition
  have beside {t : State} (hapi : t.api = s.api) (hmode : t.hostMode = s.hostMode)
      (hstate : t.snapshot.state = s.snapshot.state) (hmember : t.member = s.member)
      (hworker : t.worker = s.worker) : HostingFacts t hosting := by
    refine ⟨?_, ?_, ?_, ?_, fun worker h => ?_⟩
    · rw [hstate, hworker]
      exact facts.shown
    · rw [hmode, hworker, hapi]
      exact facts.hostMode
    · rw [hmember]
      exact facts.admitting
    · rw [hapi, hmode]
      exact facts.accepted
    · have known := facts.worker worker (hworker.symm.trans h)
      exact ⟨known.host, known.created, fun hhost hcreated =>
        hmember ▸ known.roomless hhost hcreated, fun hdestroyed =>
        hstate ▸ known.destroyed hdestroyed⟩
  unfold callStep at h
  cases input with
  | callInitialize =>
      obtain ⟨hapi, rfl⟩ := by simpa using h
      exact starts _ hapi rfl rfl rfl rfl rfl rfl
  | callGameReady hash mac =>
      obtain ⟨hapi, rfl⟩ := by simpa using h
      exact starts _ hapi rfl rfl rfl rfl rfl rfl
  | callGameStopped =>
      obtain ⟨hapi, rfl⟩ := by simpa using h
      exact starts _ hapi rfl rfl rfl rfl rfl rfl
  | callShutdown =>
      obtain ⟨hapi, rfl⟩ := by simpa using h
      exact starts _ hapi rfl rfl rfl rfl rfl rfl
  | callRequest request =>
      simp only at h
      split at h
      · cases h
        exact beside rfl rfl rfl rfl rfl
      · obtain ⟨hapi, rfl⟩ := by simpa using h
        exact starts _ hapi rfl rfl rfl rfl rfl rfl
  | callLeave =>
      obtain ⟨hapi, rfl⟩ := by simpa using h
      exact starts _ hapi rfl rfl rfl rfl rfl rfl
  | handle =>
      simp only at h
      split at h
      · cases h
      · cases h
        exact beside rfl rfl rfl rfl rfl
  | go => cases h
  | fail => cases h
  | throw => cases h

/-- `cancel` is taken back for a request, and the record starts afresh. -/
theorem hostingFacts_requestUncancel {s t : State} {accepted : Accepted} {hosting : Hosting}
    (inv : Wellformed s) (member : Member.Wellformed s.member) (facts : HostingFacts s hosting)
    (hapi : s.api = some (.requestUncancel accepted)) (h : apiStep s .go = some t) :
    HostingFacts t { host := accepted.host } := by
  have hworker : s.worker = none := (inv.api _ hapi).2.2
  have quiet := (inv.noWorker hworker).1
  have hdone : ∀ worker, s.worker = some worker → worker.position.Published := by
    simp [hworker]
  have hmode : s.hostMode = false :=
    facts.not_hostMode hdone (by simp [hapi, ApiPosition.Announces])
  simp only [apiStep, hapi, Option.some.injEq] at h
  subst h
  refine ⟨fun h => absurd h (facts.not_joined hdone), fun h => ?_, fun h => ?_,
    fun position other h haccepted => ?_, fun worker h => ?_⟩
  · simp [State.apiAt, hmode] at h
  · exact absurd h (Member.State.not_admitting_of_quiet member quiet.caller quiet.loopThread)
  · cases h
    cases haccepted
    exact ⟨rfl, fun h => by simp [State.apiAt, hmode] at h⟩
  · simp [State.apiAt, hworker] at h

/-- The worker starts. -/
theorem hostingFacts_requestStart {s t : State} {accepted : Accepted} {hosting : Hosting}
    (inv : Wellformed s) (facts : HostingFacts s hosting)
    (hapi : s.api = some (.requestStart accepted)) (h : apiStep s .go = some t) :
    HostingFacts t hosting := by
  have hworker : s.worker = none := (inv.api _ hapi).2.2
  have quiet := (inv.noWorker hworker).1
  obtain ⟨hfresh, hmode⟩ := facts.accepted _ _ hapi rfl
  have hshown := facts.not_joined (by simp [hworker])
  simp only [apiStep, hapi, Option.some.injEq] at h
  subst h
  refine ⟨fun h => absurd h hshown, fun h => .inl ⟨_, rfl, hmode h, ?_⟩, facts.admitting,
    by rintro _ _ ⟨⟩, fun worker h => ?_⟩
  · cases accepted.host <;> exact id
  · cases h
    exact
      { host := by rw [hfresh]
        created := by rw [hfresh]
        roomless := fun hhost _ => by
          have hhost : accepted.host = true := hhost
          simp only [hhost, if_true, hfresh]
          exact ⟨id, quiet.loopThread, trivial⟩
        destroyed := fun hdestroyed => by simp [hfresh] at hdestroyed }

theorem hostingFacts_apiStep {s t : State} {input : ApiInput} {hosting : Hosting}
    (inv : Wellformed s) (member : Member.Wellformed s.member) (facts : HostingFacts s hosting)
    (h : apiStep s input = some t) :
    HostingFacts t (hosting.observe s (.api input)) := by
  cases hapi : s.api with
  | none => simp [apiStep, hapi] at h
  | some position =>
      have known := inv.api position hapi
      -- The record starts anew with a request, and nothing else of the interface changes it.
      by_cases huncancel : ∃ accepted, position = .requestUncancel accepted
      · obtain ⟨accepted, rfl⟩ := huncancel
        cases input <;> simp only [apiStep, hapi, reduceCtorEq] at h
        have hfresh : hosting.observe s (.api .go) = { host := accepted.host } := by
          simp [Hosting.observe, hapi]
        rw [hfresh]
        exact hostingFacts_requestUncancel inv member facts hapi (by simpa [apiStep, hapi] using h)
      have hrecord : hosting.observe s (.api input) = hosting := by
        cases input <;> first | rfl | skip
        simp only [Hosting.observe, hapi]
        split
        · next accepted heq => exact absurd ⟨accepted, Option.some.inj heq⟩ huncancel
        · rfl
      rw [hrecord]
      cases position with
      | requestUncancel accepted => exact absurd ⟨accepted, rfl⟩ huncancel
      | requestPublish accepted =>
          cases input <;> simp only [apiStep, hapi, reduceCtorEq] at h
          obtain ⟨hfresh, -⟩ := facts.accepted _ _ hapi rfl
          cases h
          refine .announce known.2.2 rfl trivial
            (by simp [State.apiAt, State.publish, Snapshot.clearMembers]) facts.admitting ?_
          rintro _ ⟨⟩
          exact ⟨hfresh, id⟩
      | requestUnfinish accepted =>
          cases input <;> simp only [apiStep, hapi, reduceCtorEq] at h
          have haccepted := facts.accepted _ _ hapi rfl
          have hshown := facts.not_joined (by simp [known.2.2])
          cases h
          refine .announce known.2.2 rfl trivial hshown facts.admitting ?_
          rintro _ ⟨⟩
          exact haccepted
      | requestStart accepted =>
          cases input <;> simp only [apiStep, hapi, reduceCtorEq] at h
          · exact hostingFacts_requestStart inv facts hapi (by simpa [apiStep, hapi] using h)
          · have hshown := facts.not_joined (by simp [known.2.2])
            cases h
            exact .announce known.2.2 rfl trivial hshown facts.admitting (by rintro _ ⟨⟩)
      | requestRefinish =>
          cases input <;> simp only [apiStep, hapi, reduceCtorEq] at h
          have hshown := facts.not_joined (by simp [known.2.2])
          cases h
          exact .announce known.2.2 rfl trivial hshown facts.admitting (by rintro _ ⟨⟩)
      | requestWithdraw =>
          cases input <;> simp only [apiStep, hapi, reduceCtorEq] at h
          cases h
          exact
            { shown := by rintro ⟨⟩
              hostMode := by rintro ⟨⟩
              admitting := facts.admitting
              accepted := by rintro _ _ ⟨⟩
              worker := fun worker h => by simp [State.publish, known.2.2] at h }
      | stopJoin cause hash mac =>
          obtain ⟨done, rfl⟩ := apiStep_stopJoin hapi h
          refine facts.pass (.inl rfl) (.inl rfl) id id (.inr ⟨done, rfl⟩)
            (by simp [hapi, ApiPosition.Announces]) ?_
          rintro _ ⟨⟩
          split <;> rfl
      | requestJoinWorker accepted =>
          obtain ⟨done, rfl⟩ := apiStep_requestJoinWorker hapi h
          exact facts.pass (.inl rfl) (.inl rfl) id id (.inr ⟨done, rfl⟩)
            (by simp [hapi, ApiPosition.Announces]) (by rintro _ ⟨⟩; rfl)
      | initLock =>
          cases input <;> simp only [apiStep, hapi, reduceCtorEq] at h
          cases h
          refine facts.pass (.inl rfl) (.inl rfl) (fun hadmits => ?_) (fun hnone => ?_) (.inl rfl)
            (by simp [hapi, ApiPosition.Announces]) (by rintro _ ⟨⟩; rfl)
          · simp only [State.apiAt] at hadmits
            split at hadmits
            · exact hadmits
            · exact absurd hadmits
                (Member.State.not_admitting_of_quiet Member.wellformed_init rfl rfl)
          · simp only [State.apiAt]
            split
            · exact hnone
            · rfl
      | readyPublish hash mac =>
          cases input <;> simp only [apiStep, hapi, reduceCtorEq] at h
          cases h
          exact facts.pass (.inr (by simp [State.publish])) (.inr rfl) id id (.inl rfl)
            (by simp [hapi, ApiPosition.Announces]) (by rintro _ ⟨⟩)
      | offlinePublish cause =>
          cases input <;> simp only [apiStep, hapi, reduceCtorEq] at h
          repeat' split at h
          all_goals cases h
          all_goals
            apply facts.pass
            · exact .inr (by simp [State.apiAt, State.publish, Snapshot.clearMembers])
            · exact .inr rfl
            · exact id
            · exact id
            · exact .inl rfl
            · simp [hapi, ApiPosition.Announces]
            · rintro _ ⟨⟩ <;> rfl
      | leavePublish =>
          cases input <;> simp only [apiStep, hapi, reduceCtorEq] at h
          split at h
          · cases h
            exact facts.pass (.inl rfl) (.inl rfl) id id (.inl rfl)
              (by simp [hapi, ApiPosition.Announces]) (by rintro _ ⟨⟩)
          · cases h
            exact facts.pass (.inr (by simp [State.release, State.publish])) (.inl rfl) id id
              (.inl rfl) (by simp [hapi, ApiPosition.Announces]) (by rintro _ ⟨⟩)
      | _ =>
          cases input <;> simp only [apiStep, hapi, reduceCtorEq] at h
          all_goals repeat' (split at h)
          all_goals cases h
          all_goals
            apply facts.pass
            · exact .inl rfl
            · exact .inl rfl
            · exact id
            · exact id
            · exact .inl rfl
            · simp [hapi, ApiPosition.Announces]
            · rintro _ ⟨⟩ <;> rfl

/-! ## The steps of the worker -/

/-- Only a state callback shows that the member has joined. -/
theorem State.joined_of_invoke? {s : State} {invocation : Option Invocation}
    (h : (s.invoke? invocation).snapshot.state = .joined) :
    s.snapshot.state = .joined ∨
      ∃ state, invocation = some (.state state) ∧ state.InRoom := by
  cases invocation with
  | none => exact .inl h
  | some invocation =>
      cases invocation with
      | state state =>
          simp only [State.invoke?, State.invoke] at h
          split at h
          · next hroom => exact .inr ⟨state, rfl, hroom.2.2⟩
          · exact .inl h
      | error error =>
          simp only [State.invoke?, State.invoke] at h
          split at h <;> exact .inl h
      | roomInformation =>
          simp only [State.invoke?, State.invoke] at h
          split at h
          · exact .inl (by simpa [State.publish, Snapshot.clearMembers] using h)
          · exact .inl h

theorem memberStep_joined {s t : State} {input : CallerInput} (h : memberStep s input = some t) :
    (t.snapshot.state = .joined → s.snapshot.state = .joined ∨ s.member.Admitting) ∧
      (t.member.Admitting → s.member.Admitting) ∧
      (s.member.caller ≠ .joinStartLoop → s.member.loopThread = none →
        t.member.loopThread = none) ∧
      t.worker = s.worker ∧ t.api = s.api ∧ t.hostMode = s.hostMode := by
  obtain ⟨_, _, -, hframe, -⟩ := memberStep_eq h
  unfold memberStep at h
  split at h
  · split at h
    · cases h
    · next member hmember =>
      cases h
      refine ⟨fun hjoined => ?_, Member.admitting_callerStep hmember,
        Member.callerStep_noLoop hmember, by rw [hframe], by rw [hframe], by rw [hframe]⟩
      refine (State.joined_of_invoke? hjoined).imp_right fun ⟨state, hinvokes, hroom⟩ => ?_
      split at hinvokes
      · exact Member.State.admitting_of_callerInvokes hinvokes hroom
      · cases hinvokes
  · cases h

/-- Nothing has been accepted that is not running. -/
theorem Wellformed.accepted?_eq_none {s : State} {worker : Worker} (inv : Wellformed s)
    (hworker : s.worker = some worker) :
    ∀ position, s.api = some position → position.accepted? = none := by
  intro position hapi
  have facts := inv.api position hapi
  cases position <;> first | rfl | simp [facts.2.2] at hworker

/-- The worker goes from one unpublished position to another. -/
theorem HostingFacts.runTo {s t : State} {worker worker' : Worker} {hosting hosting' : Hosting}
    (facts : HostingFacts s hosting) (inv : Wellformed s) (hworker : s.worker = some worker)
    (hworker' : t.worker = some worker') (harguments : worker'.arguments = worker.arguments)
    (hpublished : ¬ worker'.position.Published) (hapi : t.api = s.api)
    (hmode : t.hostMode = s.hostMode)
    (hstate : t.snapshot.state = .joined → s.snapshot.state = .joined ∨ s.member.Admitting)
    (hmember : t.member.Admitting → s.member.Admitting)
    (hadmitted : hosting'.admitted = hosting.admitted)
    (known : WorkerHosts t hosting' worker') : HostingFacts t hosting' where
  shown h := by
    refine ⟨?_, worker', hworker', hpublished⟩
    rw [hadmitted]
    rcases hstate h with hjoined | hadmitting
    · exact (facts.shown hjoined).1
    · exact facts.admitting hadmitting
  hostMode h := by
    rcases facts.hostMode (hmode.symm.trans h) with
      ⟨other, hother, hhost, -⟩ | ⟨position, hposition, hannounces⟩
    · cases hworker.symm.trans hother
      exact .inl ⟨worker', hworker', harguments ▸ hhost, hpublished⟩
    · exact .inr ⟨position, hapi.trans hposition, hannounces⟩
  admitting h := hadmitted ▸ facts.admitting (hmember h)
  accepted position accepted h haccepted := by
    simp [inv.accepted?_eq_none hworker position (hapi.symm.trans h)] at haccepted
  worker other h := by
    cases hworker'.symm.trans h
    exact known

/-- What is known about the worker when it moves on. -/
theorem WorkerHosts.move {s t : State} {hosting : Hosting} {worker : Worker}
    {target : RunPosition} (known : WorkerHosts s hosting worker)
    (hpublish : worker.position ≠ .publish) (hpublished : ¬ worker.position.Published)
    (hjoins : target.Joins → worker.position.Joins)
    (hloop : worker.position.Joins ∨
      (s.member.loopThread = none → t.member.loopThread = none)) :
    WorkerHosts t hosting { worker with position := target } where
  host := known.host
  created := known.created
  roomless hhost hcreated := by
    obtain ⟨hsource, hnone, hadmitted⟩ := known.roomless hhost hcreated
    exact ⟨fun h => hsource (hjoins h), hloop.resolve_left hsource hnone, hadmitted⟩
  destroyed h := absurd (known.destroyed h).1 (by simp [hpublish, hpublished])

theorem hostingFacts_runStep {s t : State} {worker : Worker} {input : RunInput}
    {hosting : Hosting} (inv : Wellformed s) (facts : HostingFacts s hosting)
    (hworker : s.worker = some worker)
    (ok : input = .go → worker.position = .destroy → s.snapshot.state ≠ .joined)
    (h : runStep s worker input = some t) :
    HostingFacts t (hosting.observeRun worker.position input) := by
  have known := facts.worker worker hworker
  have run := inv.run worker hworker
  -- Most steps move on and change neither the member nor the state that is shown.
  have moveTo {t : State} {source : RunPosition} (target : RunPosition)
      (hsource : worker.position = source) (hrecord : hosting.observeRun source input = hosting)
      (hactive : source ≠ .publish ∧ ¬ source.Published) (htarget : ¬ target.Published)
      (hjoins : source.Joins ∨ ¬ target.Joins)
      (hworker' : t.worker = some { worker with position := target }) (hapi : t.api = s.api)
      (hmode : t.hostMode = s.hostMode) (hstate : t.snapshot.state = s.snapshot.state)
      (hmember : t.member = s.member) : HostingFacts t (hosting.observeRun source input) := by
    subst hsource
    rw [hrecord]
    exact facts.runTo inv hworker hworker' rfl htarget hapi hmode (fun h => .inl (hstate ▸ h))
      (fun h => hmember ▸ h) rfl
      (known.move hactive.1 hactive.2 (fun h => hjoins.resolve_right (not_not_intro h))
        (.inr fun h => hmember ▸ h))
  -- The others are inside the member.
  have inside {t' t : State} {later : CallerInput} {source : RunPosition} (target : RunPosition)
      (hinside : memberStep s later = some t') (hsource : worker.position = source)
      (hrecord : hosting.observeRun source input = hosting)
      (hactive : source ≠ .publish ∧ ¬ source.Published) (htarget : ¬ target.Published)
      (hjoins : source.Joins ∨ ¬ target.Joins)
      (hstart : source.Joins ∨ s.member.caller ≠ .joinStartLoop)
      (hworker' : t.worker = some { worker with position := target }) (hapi : t.api = t'.api)
      (hmode : t.hostMode = t'.hostMode) (hsnapshot : t.snapshot = t'.snapshot)
      (hmember : t.member = t'.member) : HostingFacts t (hosting.observeRun source input) := by
    obtain ⟨hjoined, hadmits, hloop, -, hapi', hmode'⟩ := memberStep_joined hinside
    subst hsource
    rw [hrecord]
    exact facts.runTo inv hworker hworker' rfl htarget (hapi.trans hapi') (hmode.trans hmode')
      (fun h => hjoined (hsnapshot ▸ h)) (fun h => hadmits (hmember ▸ h)) rfl
      (known.move hactive.1 hactive.2 (fun h => hjoins.resolve_right (not_not_intro h))
        (hstart.imp_right fun h hnone => hmember ▸ hloop h hnone))
  cases hposition : worker.position with
  | getRoom =>
      cases input <;> simp only [runStep, hposition, reduceCtorEq] at h
      split at h <;> cases h <;>
        exact moveTo _ hposition rfl ⟨by rintro ⟨⟩, id⟩ id (.inr id) rfl rfl rfl rfl rfl
  | checkRoom =>
      cases input <;> simp only [runStep, hposition, reduceCtorEq] at h
      split at h <;> cases h <;>
        exact moveTo _ hposition rfl ⟨by rintro ⟨⟩, id⟩ id (.inr id) rfl rfl rfl rfl rfl
  | create =>
      cases input <;> simp only [runStep, hposition, reduceCtorEq] at h
      · next answer =>
        cases answer with
        | true =>
            simp only at h
            split at h
            · cases h
              exact facts.runTo inv hworker rfl rfl id rfl rfl .inl id rfl
                { host := known.host
                  created := rfl
                  roomless := by rintro _ ⟨⟩
                  destroyed := fun hdestroyed => by
                    have hgone := (known.destroyed hdestroyed).1
                    simp [hposition, RunPosition.Published] at hgone }
            · cases h
        | false =>
            cases h
            exact moveTo _ hposition rfl ⟨by rintro ⟨⟩, id⟩ id (.inr id) rfl rfl rfl rfl rfl
      · cases h
        exact moveTo _ hposition rfl ⟨by rintro ⟨⟩, id⟩ id (.inr id) rfl rfl rfl rfl rfl
  | createFailed =>
      cases input <;> simp only [runStep, hposition, reduceCtorEq] at h
      cases h
      exact moveTo _ hposition rfl ⟨by rintro ⟨⟩, id⟩ id (.inr id) rfl rfl rfl rfl rfl
  | checkCancel =>
      cases input <;> simp only [runStep, hposition, reduceCtorEq] at h
      · split at h
        · cases h
          exact moveTo _ hposition rfl ⟨by rintro ⟨⟩, id⟩ id (.inl trivial) rfl rfl rfl rfl rfl
        · split at h
          · cases h
          · next member hmember =>
            cases h
            refine facts.runTo inv hworker rfl rfl id rfl rfl .inl
              (Member.admitting_callerStep hmember) rfl ?_
            exact known.move (by simp [hposition]) (by simp [hposition, RunPosition.Published])
              (by simp [hposition, RunPosition.Joins])
              (.inl (by simp [hposition, RunPosition.Joins]))
      · split at h
        · cases h
        · cases h
          exact moveTo _ hposition rfl ⟨by rintro ⟨⟩, id⟩ id (.inr id) rfl rfl rfl rfl rfl
  | joining =>
      cases input <;> simp only [runStep, hposition, reduceCtorEq] at h
      split at h
      · cases h
      · next t' hinside =>
        obtain ⟨member, snapshot, -, hframe, -⟩ := memberStep_eq hinside
        split at h
        · cases h
          exact inside .joining hinside hposition rfl ⟨by rintro ⟨⟩, id⟩ id (.inl trivial)
            (.inl trivial) (by rw [hframe, hworker, ← hposition]) rfl rfl rfl rfl
        · split at h <;> cases h <;>
            exact inside _ hinside hposition rfl ⟨by rintro ⟨⟩, id⟩ id (.inl trivial) (.inl trivial)
              rfl rfl rfl rfl rfl
  | pollCancel =>
      cases input <;> simp only [runStep, hposition, reduceCtorEq] at h
      split at h <;> cases h <;>
        exact moveTo _ hposition rfl ⟨by rintro ⟨⟩, id⟩ id (.inl trivial) rfl rfl rfl rfl rfl
  | pollConnected loads =>
      cases loads <;> cases input <;> simp only [runStep, hposition, reduceCtorEq] at h
      · cases h
        exact moveTo _ hposition rfl ⟨by rintro ⟨⟩, id⟩ id (.inr id) rfl rfl rfl rfl rfl
      · split at h <;> cases h <;>
          exact moveTo _ hposition rfl ⟨by rintro ⟨⟩, id⟩ id (.inl trivial) rfl rfl rfl rfl rfl
  | pollSnapshot =>
      cases input <;> simp only [runStep, hposition, reduceCtorEq] at h
      cases h
      exact moveTo _ hposition rfl ⟨by rintro ⟨⟩, id⟩ id (.inl trivial) rfl rfl rfl rfl rfl
  | pollDeadline joining =>
      cases input <;> simp only [runStep, hposition, reduceCtorEq] at h
      split at h <;> cases h <;>
        exact moveTo _ hposition rfl ⟨by rintro ⟨⟩, id⟩ id (.inl trivial) rfl rfl rfl rfl rfl
  | timedOut =>
      cases input <;> simp only [runStep, hposition, reduceCtorEq] at h
      cases h
      exact moveTo _ hposition rfl ⟨by rintro ⟨⟩, id⟩ id (.inr id) rfl rfl rfl rfl rfl
  | caught =>
      cases input <;> simp only [runStep, hposition, reduceCtorEq] at h
      cases h
      exact moveTo _ hposition rfl ⟨by rintro ⟨⟩, id⟩ id (.inr id) rfl rfl rfl rfl rfl
  | leave =>
      have hrest : s.member.caller = .rest := by simpa [hposition, State.RunFacts] using run
      cases input <;> simp only [runStep, hposition, reduceCtorEq] at h
      split at h
      · cases h
      · next member hmember =>
        cases h
        refine facts.runTo inv hworker rfl rfl id rfl rfl .inl
          (Member.admitting_callerStep hmember) rfl ?_
        exact known.move (by simp [hposition]) (by simp [hposition, RunPosition.Published])
          (fun h => absurd h id) (.inr (Member.callerStep_noLoop hmember (by simp [hrest])))
  | leaving =>
      have hleave : InOuterLeave s.member.caller := by
        simpa [hposition, State.RunFacts] using run
      have hstart : s.member.caller ≠ .joinStartLoop := fun h => by simp [h, InOuterLeave] at hleave
      cases input <;> simp only [runStep, hposition, reduceCtorEq] at h
      split at h
      · cases h
      · next t' hinside =>
        obtain ⟨member, snapshot, -, hframe, -⟩ := memberStep_eq hinside
        split at h
        · cases h
          exact inside .leaving hinside hposition rfl ⟨by rintro ⟨⟩, id⟩ id (.inr id) (.inr hstart)
            (by rw [hframe, hworker, ← hposition]) rfl rfl rfl rfl
        · split at h <;> cases h <;>
            exact inside _ hinside hposition rfl ⟨by rintro ⟨⟩, id⟩ id (.inr id) (.inr hstart)
              rfl rfl rfl rfl rfl
  | destroy =>
      cases input <;> simp only [runStep, hposition, reduceCtorEq] at h
      have hshown := ok rfl hposition
      cases h
      refine facts.runTo inv hworker rfl rfl id rfl rfl .inl id rfl
        { host := known.host
          created := known.created
          roomless := fun hhost hcreated => ⟨id, (known.roomless hhost hcreated).2⟩
          destroyed := fun _ => ⟨.inl rfl, hshown⟩ }
  | publish =>
      cases input <;> simp only [runStep, hposition, reduceCtorEq] at h
      cases h
      exact
        { shown := by rintro ⟨⟩
          hostMode := by rintro ⟨⟩
          admitting := facts.admitting
          accepted := fun position accepted hapi haccepted => by
            simp [inv.accepted?_eq_none hworker position hapi] at haccepted
          worker := fun worker' h => by
            cases h
            exact
              { host := known.host
                created := known.created
                roomless := fun hhost hcreated => ⟨id, (known.roomless hhost hcreated).2⟩
                destroyed := fun _ => ⟨.inr trivial, by rintro ⟨⟩⟩ } }
  | finish =>
      cases input <;> simp only [runStep, hposition, reduceCtorEq] at h
      have hdone : ∀ other, s.worker = some other → other.position.Published := by
        intro other hother
        cases hworker.symm.trans hother
        rw [hposition]
        trivial
      have hshown := facts.not_joined hdone
      have hmode := facts.not_hostMode hdone (inv.not_announces hworker)
      cases h
      exact
        { shown := fun h => absurd h hshown
          hostMode := fun h => by simp [State.mark, State.runAt, hmode] at h
          admitting := facts.admitting
          accepted := fun position accepted hapi haccepted => by
            simp [inv.accepted?_eq_none hworker position hapi] at haccepted
          worker := fun worker' h => by
            cases h
            exact
              { host := known.host
                created := known.created
                roomless := fun hhost hcreated => ⟨id, (known.roomless hhost hcreated).2⟩
                destroyed := fun _ => ⟨.inr trivial, hshown⟩ } }
  | ended => cases input <;> simp [runStep, hposition] at h

/-! ## The steps of the other threads -/

/-- Another thread changes the member, and shows that it has joined only when it is
admitted. -/
theorem HostingFacts.beside {s t : State} {hosting hosting' : Hosting} {worker : Worker}
    (facts : HostingFacts s hosting) (inv : Wellformed s) (hworker : s.worker = some worker)
    (hpublished : ¬ worker.position.Published) (hworker' : t.worker = s.worker)
    (hapi : t.api = s.api) (hmode : t.hostMode = s.hostMode)
    (hstate : t.snapshot.state = .joined → s.snapshot.state = .joined ∨ s.member.Admitting)
    (hmember : t.member.Admitting → hosting'.admitted = true)
    (hloop : s.member.loopThread ≠ none) (hhost : hosting'.host = hosting.host)
    (hcreated : hosting'.created = hosting.created)
    (hdestroyed : hosting'.destroyed = hosting.destroyed)
    (hadmitted : hosting.admitted = true → hosting'.admitted = true)
    (hpublish : worker.position ≠ .publish) : HostingFacts t hosting' where
  shown h := by
    refine ⟨?_, worker, hworker'.trans hworker, hpublished⟩
    rcases hstate h with hjoined | hadmitting
    · exact hadmitted (facts.shown hjoined).1
    · exact hadmitted (facts.admitting hadmitting)
  hostMode h := by
    rw [hworker', hapi]
    exact facts.hostMode (hmode.symm.trans h)
  admitting := hmember
  accepted position accepted h haccepted := by
    simp [inv.accepted?_eq_none hworker position (hapi.symm.trans h)] at haccepted
  worker other h := by
    have hother := hworker'.symm.trans h
    cases hworker.symm.trans hother
    have known := facts.worker worker hworker
    exact
      { host := hhost.trans known.host
        created := hcreated.trans known.created
        roomless := fun hrequest hnone => absurd (known.roomless hrequest hnone).2.1 hloop
        destroyed := fun h =>
          absurd (known.destroyed (hdestroyed ▸ h)).1 (by simp [hpublish, hpublished]) }

theorem hostingFacts_loopStep {s t : State} {input : LoopInput} {hosting : Hosting}
    (inv : Wellformed s) (facts : HostingFacts s hosting) (h : loopStep s input = some t) :
    HostingFacts t (hosting.observe s (.loop input)) := by
  have hinvokes (hjoined : t.snapshot.state = .joined) :
      s.snapshot.state = .joined ∨ s.member.Admitting := by
    unfold loopStep at h
    split at h
    · cases h
    · cases h
      refine (State.joined_of_invoke? hjoined).imp_right fun ⟨state, hinvokes, hroom⟩ => ?_
      split at hinvokes
      · exact Member.State.admitting_of_loopInvokes hinvokes hroom
      · cases hinvokes
  obtain ⟨member, snapshot, hmember, rfl, -⟩ := loopStep_eq h
  obtain ⟨hloop, -, -⟩ := Member.loopStep_thread hmember
  obtain ⟨worker, hworker, hrunning⟩ := inv.active_of_loop hloop
  have run := inv.run worker hworker
  have hactive : worker.position ≠ .publish ∧ ¬ worker.position.Published := by
    cases hposition : worker.position <;> simp only [hposition] at run hrunning
    case publish => exact absurd run.loopThread hloop
    case finish => exact absurd run.loopThread hloop
    case ended => exact absurd rfl hrunning
    all_goals exact ⟨nofun, id⟩
  -- The record changes at a join success only.
  by_cases hsuccess : s.member.loopThread = some .service ∧
      ∃ event, input = .event event ∧ event.IsJoinSuccess
  · obtain ⟨hservice, event, rfl, hevent⟩ := hsuccess
    have hrecord : hosting.observe s (.loop (.event event)) = { hosting with admitted := true } :=
      if_pos ⟨hservice, hevent⟩
    rw [hrecord]
    exact facts.beside inv hworker hactive.2 rfl rfl rfl hinvokes (fun _ => rfl) hloop rfl rfl rfl
      (fun _ => rfl) hactive.1
  · have hrecord : hosting.observe s (.loop input) = hosting := by
      cases input <;> first | rfl | skip
      exact if_neg fun h => hsuccess ⟨h.1, _, rfl, h.2⟩
    rw [hrecord]
    refine facts.beside inv hworker hactive.2 rfl rfl rfl hinvokes (fun hadmits => ?_) hloop rfl
      rfl rfl id hactive.1
    rcases Member.admitting_loopStep hmember hadmits with hbefore | hsome
    · exact facts.admitting hbefore
    · exact absurd hsome hsuccess

theorem hostingFacts_emulationStep {s t : State} {input : EmulationInput} {hosting : Hosting}
    (facts : HostingFacts s hosting) (h : emulationStep s input = some t) :
    HostingFacts t hosting := by
  obtain ⟨member, hmember, rfl⟩ := emulationStep_eq h
  obtain ⟨-, hloop⟩ := Member.emulationStep_thread hmember
  exact
    { shown := facts.shown
      hostMode := facts.hostMode
      admitting := fun h => facts.admitting (Member.admitting_emulationStep hmember h)
      accepted := facts.accepted
      worker := fun worker hworker =>
        have known := facts.worker worker hworker
        { host := known.host
          created := known.created
          roomless := fun hhost hcreated => by
            obtain ⟨hjoins, hnone, hadmitted⟩ := known.roomless hhost hcreated
            exact ⟨hjoins, hloop.trans hnone, hadmitted⟩
          destroyed := known.destroyed } }

theorem hostingFacts_of_reachableVia {pair : State × Hosting}
    (h : hosting.ReachableVia DestroysUnseen pair) : HostingFacts pair.1 pair.2 := by
  refine h.invariant (fun pair => HostingFacts pair.1 pair.2) (fun pair hpair => ?_)
    (fun source label target prior ok facts hstep => ?_)
  · obtain ⟨s, record⟩ := pair
    obtain ⟨hs, hrecord⟩ := hpair
    cases (show s = {} from hs)
    cases (show record = {} from hrecord)
    exact hostingFacts_init
  · obtain ⟨hs, hrecord⟩ := System.observed_step_iff.mp hstep
    have hreachable := System.Reachable.of_observed prior.reachable
    have inv := wellformed_of_reachable hreachable
    have member := Member.wellformed_of_reachable (member_reachable hreachable)
    rw [hrecord]
    cases label with
    | api input =>
        rcases step_api hs with hs | hs
        · have hsame : source.2.observe source.1 (.api input) = source.2 := by
            cases input <;> first | rfl | cases hs
          rw [hsame]
          exact hostingFacts_callStep facts hs
        · exact hostingFacts_apiStep inv member facts hs
    | run input =>
        obtain ⟨worker, hworker, hs⟩ := Option.bind_eq_some_iff.mp hs
        have hsame : source.2.observe source.1 (.run input) =
            source.2.observeRun worker.position input := by
          simp [Hosting.observe, hworker]
        rw [hsame]
        refine hostingFacts_runStep inv facts hworker (fun hgo hposition => ?_) hs
        subst hgo
        exact ok (by simp [hworker, hposition])
    | loop input => exact hostingFacts_loopStep inv facts hs
    | emulation input => exact hostingFacts_emulationStep facts hs
    | other input =>
        obtain ⟨network, current, heq⟩ := otherStep_eq hs
        rw [heq]
        exact ⟨facts.shown, facts.hostMode, facts.admitting, facts.accepted, fun worker hworker =>
          have known := facts.worker worker hworker
          ⟨known.host, known.created, known.roomless, known.destroyed⟩⟩

/-! ## The result -/

/-- **What `is_hosting` says is true**, in every run in which `Run` never destroys its room
while the snapshot shows that the member has joined. -/
theorem hostingTrue_of_destroysUnseen {pair : State × Hosting}
    (h : hosting.ReachableVia DestroysUnseen pair) : HostingTrue pair := by
  intro hhosting
  have inv := wellformed_of_reachable (System.Reachable.of_observed h.reachable)
  have facts := hostingFacts_of_reachableVia h
  obtain ⟨hmode, hjoined⟩ : pair.1.hostMode = true ∧ pair.1.snapshot.state = .joined := by
    simpa [State.isHosting] using hhosting
  obtain ⟨hadmitted, worker, hworker, hpublished⟩ := facts.shown hjoined
  have known := facts.worker worker hworker
  have hhost : worker.arguments.accepted.host = true := by
    rcases facts.hostMode hmode with ⟨other, hother, hhost, -⟩ | ⟨position, hposition, hannounces⟩
    · cases hworker.symm.trans hother
      exact hhost
    · exact absurd hannounces (inv.not_announces hworker position hposition)
  refine ⟨known.host.trans hhost, ⟨worker, hworker, hpublished⟩, ?_, hadmitted, ?_⟩
  · rw [known.created]
    by_contra hnone
    have hnobody := (known.roomless hhost (by simpa using hnone)).2.2
    simp [hadmitted] at hnobody
  · by_contra hgone
    exact (known.destroyed (by simpa using hgone)).2 hjoined

/-- A session that hosts, up to the state callback for its own admission. -/
def hostsRoom : List Label :=
  initializes ++ getsReady ++ accepts hostRequest ++ runGoes 2 ++ .run (.created true) ::
    runGoes 1 ++ memberGoes 9 ++
    [.run (.member (.cancelled false)), .run (.member (.serviced .connected))] ++ memberGoes 4 ++
    loopGoes 1 ++ [.loop (.event (.receive (.roomInformation [[]])))] ++ loopGoes 8 ++
    [.loop (.event (.receive (.joinSuccess (Vector.replicate 6 1))))] ++ loopGoes 7

theorem hostingTrue_hostsRoom :
    ∃ pair : State × Hosting, pair.1.isHosting = true ∧ HostingTrue pair := by
  obtain ⟨pair, hreach, hhosting⟩ :=
    System.exists_reachableVia_of_runVia DestroysUnseen
      (show hosting.init ({}, {}) from ⟨rfl, rfl⟩) hostsRoom
      (fun pair => pair.1.isHosting = true) (by decide +kernel)
  exact ⟨pair, hhosting, hostingTrue_of_destroysUnseen hreach⟩

/-- The game stops, and `Run` gets as far as the end of its room. -/
def destroysRoom : List Label :=
  hostsRoom ++ .api .callGameStopped :: apiGoes 1 ++ runGoes 2 ++ memberGoes 4 ++ loopGoes 7 ++
    memberGoes 4 ++ runGoes 1

/-- **A room can be gone that is still shown as hosted.** -/
theorem hosting_after_destroy :
    ∃ pair, hosting.Reachable pair ∧ pair.1.isHosting = true ∧ pair.2.destroyed = true ∧
      ¬ HostingTrue pair := by
  obtain ⟨pair, hreach, hhosting, hdestroyed⟩ :=
    System.exists_reachable_of_run (show hosting.init ({}, {}) from ⟨rfl, rfl⟩) destroysRoom
      (fun pair => pair.1.isHosting = true ∧ pair.2.destroyed = true) (by decide +kernel)
  refine ⟨pair, hreach, hhosting, hdestroyed, fun truth => ?_⟩
  have hthere := (truth hhosting).destroyed
  simp [hdestroyed] at hthere

end ManicRoom.Session
