/-
# The reason of a rejection

A room that does not want the member tells it why, and `Join` reports when it could
not connect at all. Either error is meant to be what the user interface finds when
the session is over. It passes through two callbacks on another thread, while `Run`
polls the member, the snapshot and the clock and has errors of its own to publish.

What is known of the end of a connection is not in the state of the session, so it is
observed beside it: a verdict that begins when a rejection packet arrives, or when
`Join` reports, and lasts until `Run` publishes the end.
-/

import ManicRoom.Member.Rejection
import ManicRoom.Session.EndState

namespace ManicRoom.Session

open ManicRoom.Foundation
open Member (MemberError CallerInput LoopInput Invocation)

/-- Positions of `Run` until it leaves its polling loop. -/
def RunPosition.Polling : RunPosition → Prop
  | .joining | .pollCancel | .pollConnected _ | .pollSnapshot | .pollDeadline _ | .timedOut => True
  | _ => False

instance (position : RunPosition) : Decidable position.Polling :=
  match position with
  | .joining | .pollCancel | .pollConnected _ | .pollSnapshot | .pollDeadline _ | .timedOut =>
      isTrue trivial
  | .getRoom | .checkRoom | .create | .createFailed | .checkCancel | .caught | .leave
  | .leaving | .destroy | .publish | .finish | .ended => isFalse not_false

/-- How the connection of the current session has ended, as far as `Run` is concerned. -/
inductive Verdict
  | pending
  /-- The handling of a rejection packet has begun. -/
  | begun (error : MemberError)
  /-- The error callback has run. -/
  | reported (error : MemberError)
  deriving DecidableEq, Repr

/-- The error of a rejection, or of a `Join` that has failed. -/
def Verdict.error? : Verdict → Option MemberError
  | .pending => none
  | .begun error | .reported error => some error

/-- What a step of `Run` adds. -/
def Verdict.observeRun (s : State) (position : RunPosition) (input : RunInput)
    (verdict : Verdict) : Verdict :=
  match position, input with
  | .joining, .member .go =>
      match Member.callerInvokes s.member with
      | some (.error error) => .reported error
      | _ => verdict
  | .publish, .go => .pending
  | _, _ => verdict

/-- What a step of `MemberLoop` adds: the arrival of a rejection while `Run` has not
left its polling loop, and its error callback. -/
def Verdict.observeLoop (s : State) (input : LoopInput) (verdict : Verdict) : Verdict :=
  match input with
  | .event (.receive message) =>
      if s.member.loopThread = some .service ∧
          s.worker.any (fun worker => decide worker.position.Polling) = true then
        message.rejection?.elim verdict .begun
      else verdict
  | .go =>
      match verdict, Member.loopInvokes s.member with
      | .begun error, some (.error _) => .reported error
      | _, _ => verdict
  | _ => verdict

/-- A new session begins without a verdict. -/
def Verdict.observe (s : State) (label : Label) (verdict : Verdict) : Verdict :=
  match label with
  | .api .go =>
      match s.api with
      | some (.requestStart _) => .pending
      | _ => verdict
  | .run input =>
      match s.worker with
      | some worker => verdict.observeRun s worker.position input
      | none => verdict
  | .loop input => verdict.observeLoop s input
  | _ => verdict

/-- The session with the verdict beside it. -/
def observed : System (State × Verdict) Label := system.observed .pending Verdict.observe

/-- What the user interface may rely on. -/
structure ReasonKept (pair : State × Verdict) : Prop where
  /-- A session that is not cancelled shows joining or joined until its end, so that
  its end is the first idle snapshot. -/
  shown : ∀ worker, pair.1.worker = some worker → ¬ worker.position.Published →
    pair.1.cancel = false → pair.1.snapshot.state = .joining ∨ pair.1.snapshot.state = .joined
  /-- That snapshot carries the error, and not the code of a handshake timeout. -/
  published : ∀ worker, pair.1.worker = some worker → worker.position = .publish →
    pair.1.cancel = false → ∀ error, pair.2.error? = some error →
      ∀ t, step pair.1 (.run .go) = some t →
        t.snapshot.state = .idle ∧ t.snapshot.error = error.code + 1 ∧
          t.snapshot.error ≠ 0 ∧ t.snapshot.error ≠ 101

/-- The condition on a step under which that holds: once the error callback has run,
neither the timeout of `Run` nor a `catch` block writes its own code. -/
def ReasonUndisturbed (pair : State × Verdict) (label : Label) : Prop :=
  match pair.2, label with
  | .reported _, .api .handle => pair.1.cancel = true
  | .reported _, .run .go =>
      pair.1.worker.map Worker.position = some .timedOut ∨
        pair.1.worker.map Worker.position = some .caught → pair.1.cancel = true
  | _, _ => True

instance (pair : State × Verdict) (label : Label) : Decidable (ReasonUndisturbed pair label) :=
  match pair, label with
  | (s, .reported _), .api .handle => inferInstanceAs (Decidable (s.cancel = true))
  | (s, .reported _), .run .go =>
      inferInstanceAs (Decidable (s.worker.map Worker.position = some .timedOut ∨
        s.worker.map Worker.position = some .caught → s.cancel = true))
  | (_, .reported _), .api .callInitialize | (_, .reported _), .api (.callGameReady ..)
  | (_, .reported _), .api .callGameStopped | (_, .reported _), .api .callShutdown
  | (_, .reported _), .api (.callRequest _) | (_, .reported _), .api .callLeave
  | (_, .reported _), .api .go | (_, .reported _), .api .fail | (_, .reported _), .api .throw
  | (_, .reported _), .run (.created _) | (_, .reported _), .run (.deadline _)
  | (_, .reported _), .run (.member _) | (_, .reported _), .run .throw
  | (_, .reported _), .loop _ | (_, .reported _), .emulation _ | (_, .reported _), .other _
  | (_, .pending), _ | (_, .begun _), _ => isTrue trivial

/-! ## What the callbacks make of the error -/

@[simp]
theorem Snapshot.addMembers_error (snapshot : Snapshot) (nicknames : List Member.Nickname) :
    (snapshot.addMembers nicknames).error = snapshot.error := by
  induction nicknames generalizing snapshot with
  | nil => rfl
  | cons nickname nicknames ih =>
      simp only [Snapshot.addMembers]
      split
      · rfl
      · exact ih _

/-- The error that is shown after a callback. -/
structure ErrorAfter (s : State) (invocation : Option Invocation) (snapshot : Snapshot) :
    Prop where
  same : (∀ error, invocation ≠ some (.error error)) → snapshot.error = s.snapshot.error
  reported : ∀ error, invocation = some (.error error) → s.errorCallback = true →
    s.cancel = false → snapshot.error = error.code + 1

theorem State.errorAfter_invoke? (s : State) (invocation : Option Invocation) :
    ErrorAfter s invocation (s.invoke? invocation).snapshot where
  same h := by
    cases invocation with
    | none => rfl
    | some invocation =>
        cases invocation with
        | state state =>
            simp only [State.invoke?, State.invoke]
            split <;> rfl
        | error error => exact absurd rfl (h error)
        | roomInformation =>
            simp only [State.invoke?, State.invoke]
            split
            · simp [State.publish, Snapshot.clearMembers]
            · rfl
  reported error h hbound hcancel := by
    subst h
    simp [State.invoke?, State.invoke, hbound, hcancel, State.publish]

theorem memberStep_error {s t : State} {input : CallerInput} (h : memberStep s input = some t) :
    input ≠ .callJoin ∧
      ErrorAfter s (if input = .go then Member.callerInvokes s.member else none) t.snapshot := by
  unfold memberStep at h
  split at h
  · next hinput =>
    split at h
    · cases h
    · cases h
      exact ⟨by rintro rfl; exact hinput, s.errorAfter_invoke? _⟩
  · cases h

theorem loopStep_error {s t : State} {input : LoopInput} (h : loopStep s input = some t) :
    ErrorAfter s (if input = .go then Member.loopInvokes s.member else none) t.snapshot := by
  unfold loopStep at h
  split at h
  · cases h
  · cases h
    exact s.errorAfter_invoke? _

/-! ## The invariant -/

/-- Positions of `Run` before it can have called `Join`. -/
def RunPosition.BeforeJoin : RunPosition → Prop
  | .getRoom | .checkRoom | .create | .createFailed | .checkCancel => True
  | _ => False

/-- What a verdict says while `Run` is at a position. -/
def State.VerdictFacts (s : State) (position : RunPosition) : Verdict → Prop
  | .pending => True
  | .begun error => Member.Pending s.member error
  | .reported error => ¬ position.BeforeJoin ∧ Member.Closed s.member ∧
      (s.cancel = false → s.snapshot.error = error.code + 1)

/-- What a call says about the snapshot of a session that is about to start, or is
cancelled. -/
def State.CallFacts (s : State) : ApiPosition → Prop
  | .requestUnfinish _ | .requestStart _ => s.snapshot.state = .joining
  | .leavePublish => s.cancel = true
  | _ => True

/-- What holds while `Run` has not published the end of its session. -/
structure State.Unpublished (s : State) (worker : Worker) (verdict : Verdict) : Prop where
  errorCallback : s.errorCallback = true
  shown : s.cancel = false → s.snapshot.state = .joining ∨ s.snapshot.state = .joined
  inJoin : worker.position = .joining → s.member.InJoin
  verdict : s.VerdictFacts worker.position verdict

/-- The invariant of the error. -/
structure Kept (s : State) (verdict : Verdict) : Prop where
  api : ∀ position, s.api = some position → s.CallFacts position
  run : ∀ worker, s.worker = some worker → ¬ worker.position.Published →
    s.Unpublished worker verdict

/-- A state in which no session is running. -/
theorem Kept.idle {s : State} {verdict : Verdict} (done : s.WorkerDone)
    (facts : ∀ position, s.api = some position → s.CallFacts position) : Kept s verdict where
  api := facts
  run worker hworker hunpublished :=
    absurd (by rw [done worker hworker]; trivial) hunpublished

/-- A call goes on beside `Run`, which may be cancelled by it. -/
theorem Kept.beside {s t : State} {verdict : Verdict} (kept : Kept s verdict)
    (hworker : t.worker = s.worker) (hmember : t.member = s.member)
    (hcallback : s.errorCallback = true → t.errorCallback = true)
    (hcancel : t.cancel = false → s.cancel = false ∧ t.snapshot.state = s.snapshot.state ∧
      ∀ error, verdict = .reported error → t.snapshot.error = s.snapshot.error)
    (facts : ∀ position, t.api = some position → t.CallFacts position) : Kept t verdict where
  api := facts
  run worker h hunpublished := by
    have known := kept.run worker (hworker ▸ h) hunpublished
    exact
      { errorCallback := hcallback known.errorCallback
        shown := fun h => by
          rw [(hcancel h).2.1]
          exact known.shown (hcancel h).1
        inJoin := fun h => hmember ▸ known.inJoin h
        verdict := by
          have hverdict := known.verdict
          cases verdict with
          | pending => trivial
          | begun error => exact (hmember ▸ hverdict : Member.Pending t.member error)
          | reported error =>
              refine ⟨hverdict.1, hmember ▸ hverdict.2.1, fun h => ?_⟩
              rw [(hcancel h).2.2 error rfl]
              exact hverdict.2.2 (hcancel h).1 }

/-- While there is a worker no session is about to start. -/
theorem Wellformed.callFacts {s t : State} {worker : Worker} (inv : Wellformed s)
    (kept : ∀ position, s.api = some position → s.CallFacts position)
    (hworker : s.worker = some worker) (hapi : t.api = s.api) (hcancel : t.cancel = s.cancel)
    (position : ApiPosition) (h : t.api = some position) : t.CallFacts position := by
  have hposition := hapi.symm.trans h
  have facts := inv.api position hposition
  have hcall := kept position hposition
  cases position with
  | requestUnfinish accepted => simp [facts.2.2] at hworker
  | requestStart accepted => simp [facts.2.2] at hworker
  | leavePublish => exact hcancel.trans hcall
  | _ => trivial

/-! ## Steps of the calls -/

theorem kept_callStep {s t : State} {input : ApiInput} {verdict : Verdict}
    (kept : Kept s verdict)
    (ok : ∀ error, verdict = .reported error → input = .handle → s.cancel = true)
    (h : callStep s input = some t) : Kept t verdict := by
  have starts {position : ApiPosition} (facts : ∀ s : State, s.CallFacts position) :
      Kept (s.apiAt position) verdict :=
    kept.beside rfl rfl id (fun h => ⟨h, rfl, fun _ _ => rfl⟩)
      (fun _ h => by cases h; exact facts _)
  cases input <;> simp only [callStep, reduceCtorEq] at h
  case handle =>
    split at h <;> cases h
    refine kept.beside rfl rfl id (fun h => ⟨h, rfl, fun error hreported => ?_⟩) kept.api
    have hcancel : s.cancel = false := h
    simp [ok error hreported rfl] at hcancel
  case callRequest request =>
    split at h
    · cases h
      exact kept.beside rfl rfl id (fun h => ⟨h, rfl, fun _ _ => rfl⟩) kept.api
    · split at h <;> cases h
      exact starts fun _ => trivial
  all_goals
    split at h <;> cases h
    exact kept.beside rfl rfl id (fun h => ⟨h, rfl, fun _ _ => rfl⟩)
      (fun _ h => by cases h; trivial)

/-- Only the start of a session touches the verdict. -/
theorem Verdict.observe_api {s : State} {input : ApiInput} {verdict : Verdict}
    (h : ∀ accepted, s.api ≠ some (.requestStart accepted)) :
    Verdict.observe s (.api input) verdict = verdict := by
  cases input with
  | go => simp only [Verdict.observe]
  | _ => rfl

theorem kept_requestStart {s t : State} {input : ApiInput} {accepted : Accepted}
    {verdict : Verdict} (inv : Wellformed s) (kept : Kept s verdict)
    (hapi : s.api = some (.requestStart accepted)) (h : apiStep s input = some t) :
    Kept t (Verdict.observe s (.api input) verdict) := by
  obtain ⟨hready, -, hworker⟩ := inv.api _ hapi
  have hcall : s.snapshot.state = .joining := kept.api _ hapi
  cases input <;> simp only [apiStep, hapi, reduceCtorEq] at h <;> cases h
  · refine ⟨by rintro _ ⟨⟩, fun worker h _ => ?_⟩
    cases h
    exact
      { errorCallback := (inv.bound hready).2.2.1
        shown := fun _ => .inl hcall
        inJoin := fun h => by cases hhost : accepted.host <;> simp [hhost] at h
        verdict := by simp only [Verdict.observe, hapi]; trivial }
  · exact .idle (State.workerDone_of_none hworker) (fun _ h => by cases h; trivial)

theorem kept_apiStep {s t : State} {input : ApiInput} {verdict : Verdict} (inv : Wellformed s)
    (kept : Kept s verdict) (h : apiStep s input = some t) :
    Kept t (Verdict.observe s (.api input) verdict) := by
  by_cases hstart : ∃ accepted, s.api = some (.requestStart accepted)
  · obtain ⟨accepted, hapi⟩ := hstart
    exact kept_requestStart inv kept hapi h
  rw [Verdict.observe_api fun accepted hapi => hstart ⟨accepted, hapi⟩]
  cases hapi : s.api with
  | none => simp [apiStep, hapi] at h
  | some position =>
      have known := inv.api position hapi
      have hcall := kept.api position hapi
      have alone (hnone : t.worker = none) (facts : ∀ next, t.api = some next → t.CallFacts next) :
          Kept t verdict := .idle (State.workerDone_of_none hnone) facts
      cases position with
      | requestStart accepted => exact absurd ⟨accepted, hapi⟩ hstart
      | stopJoin cause hash mac =>
          obtain ⟨-, rfl⟩ := apiStep_stopJoin hapi h
          exact alone rfl (fun _ h => by cases h; split <;> trivial)
      | requestJoinWorker accepted =>
          obtain ⟨-, rfl⟩ := apiStep_requestJoinWorker hapi h
          exact alone rfl (fun _ h => by cases h; trivial)
      | initNetwork =>
          have done := inv.workerDone_of_not_memberSet known.1
          cases input <;> simp only [apiStep, hapi, reduceCtorEq] at h <;> cases h
          all_goals exact .idle done (fun _ h => by cases h; try trivial)
      | initFailed =>
          have done := inv.workerDone_of_not_memberSet known
          cases input <;> simp only [apiStep, hapi, reduceCtorEq] at h
          cases h
          exact .idle done (fun _ h => by cases h)
      | initLock =>
          have done := inv.workerDone_of_not_memberSet known.1
          cases input <;> simp only [apiStep, hapi, reduceCtorEq] at h
          cases h
          exact .idle done (fun _ h => by cases h; trivial)
      | leavePublish =>
          cases input <;> simp only [apiStep, hapi, reduceCtorEq] at h
          split at h <;> cases h
          · exact kept.beside rfl rfl id (fun h => ⟨h, rfl, fun _ _ => rfl⟩) (by rintro _ ⟨⟩)
          · refine kept.beside rfl rfl id (fun h => ?_) (by rintro _ ⟨⟩)
            cases (h : s.cancel = false).symm.trans hcall
      | readyPublish hash mac =>
          cases input <;> simp only [apiStep, hapi, reduceCtorEq] at h
          cases h
          exact alone known.2 (by rintro _ ⟨⟩)
      | offlinePublish cause =>
          cases input <;> simp only [apiStep, hapi, reduceCtorEq] at h
          repeat' (split at h)
          all_goals cases h
          all_goals exact alone known.2 (fun _ h => by cases h; try trivial)
      | unbind =>
          cases input <;> simp only [apiStep, hapi, reduceCtorEq] at h
          cases h
          exact alone known.2.1 (fun _ h => by cases h; trivial)
      | requestUncancel accepted =>
          cases input <;> simp only [apiStep, hapi, reduceCtorEq] at h
          cases h
          exact alone known.2.2 (fun _ h => by cases h; trivial)
      | requestPublish accepted =>
          cases input <;> simp only [apiStep, hapi, reduceCtorEq] at h
          cases h
          exact alone known.2.2 (fun _ h => by cases h; rfl)
      | requestUnfinish accepted =>
          cases input <;> simp only [apiStep, hapi, reduceCtorEq] at h
          cases h
          exact alone known.2.2 (fun _ h => by cases h; exact hcall)
      | requestWithdraw =>
          cases input <;> simp only [apiStep, hapi, reduceCtorEq] at h
          cases h
          exact alone known.2.2 (by rintro _ ⟨⟩)
      | _ =>
          cases input <;> simp only [apiStep, hapi, reduceCtorEq] at h
          all_goals repeat' (split at h)
          all_goals cases h
          all_goals first
            | exact kept.beside rfl rfl id (fun h => ⟨h, rfl, fun _ _ => rfl⟩)
                (fun _ h => by cases h <;> trivial)
            | exact kept.beside rfl rfl id (fun h => by cases h) (fun _ h => by cases h; trivial)
            | exact kept.beside rfl rfl (fun _ => rfl) (fun h => ⟨h, rfl, fun _ _ => rfl⟩)
                (fun _ h => by cases h; trivial)

/-! ## Steps of the member -/

/-- A step while `Run` is at work, which may move it on. -/
theorem Kept.runTo {s t : State} {worker worker' : Worker} {before verdict : Verdict}
    (inv : Wellformed s) (kept : Kept s before) (hworker : s.worker = some worker)
    (hunpublished : ¬ worker.position.Published) (hworker' : t.worker = some worker')
    (hapi : t.api = s.api) (hcancel : t.cancel = s.cancel)
    (hcallback : t.errorCallback = s.errorCallback)
    (hstate : t.snapshot.state = s.snapshot.state ∨ t.snapshot.state = .joined)
    (inJoin : worker'.position = .joining → t.member.InJoin)
    (facts : t.VerdictFacts worker'.position verdict) : Kept t verdict where
  api := inv.callFacts kept.api hworker hapi hcancel
  run other h _ := by
    cases hworker'.symm.trans h
    have known := kept.run worker hworker hunpublished
    exact
      { errorCallback := hcallback.trans known.errorCallback
        shown := fun h => by
          rcases hstate with hsame | hjoined
          · rw [hsame]
            exact known.shown (hcancel ▸ h)
          · exact .inr hjoined
        inJoin := inJoin
        verdict := facts }

theorem InOuterLeave.spent {position : Member.CallerPosition} (h : InOuterLeave position) :
    position.Spent := by
  cases position with
  | leaveImmediate back immediate => cases back <;> first | exact .inl rfl | exact h.elim
  | leaveSetIdle back phase => cases back <;> first | exact .inl rfl | exact h.elim
  | leaveJoin back => cases back <;> first | exact .inl rfl | exact h.elim
  | leaveDestroyHost back => cases back <;> first | exact .inl rfl | exact h.elim
  | leaveClear back => cases back <;> first | exact .inl rfl | exact h.elim
  | _ => exact h.elim

/-- While the loop runs, the caller is spent: `Join` has started the loop, or `Run` is
not inside `Join`. -/
theorem Kept.spent {s : State} {worker : Worker} {verdict : Verdict} (inv : Wellformed s)
    (member : Member.Wellformed s.member) (kept : Kept s verdict)
    (hworker : s.worker = some worker) (hloop : s.member.loopThread ≠ none) :
    s.member.caller.Spent := by
  have facts := inv.run worker hworker
  cases hposition : worker.position with
  | joining =>
      exact ((kept.run worker hworker (by rw [hposition]; exact id)).inJoin hposition).spent
        member hloop
  | leaving =>
      rw [hposition] at facts
      exact (facts : InOuterLeave s.member.caller).spent
  | _ =>
      rw [hposition] at facts
      have hrest : s.member.caller = .rest := by
        first | exact facts | exact Quiet.caller facts | exact facts.1.caller
      rw [hrest]
      trivial

/-- The loop adds to a verdict only where it waits for an event, or reports. -/
theorem Verdict.observe_loop {s : State} {input : LoopInput} {verdict : Verdict}
    (hservice : s.member.loopThread ≠ some .service)
    (hquiet : ∀ error other, verdict = .begun error →
      Member.loopInvokes s.member ≠ some (.error other)) :
    Verdict.observe s (.loop input) verdict = verdict := by
  simp only [Verdict.observe, Verdict.observeLoop]
  split
  · simp [hservice]
  · rfl
  · rfl

theorem kept_loopStep {s t : State} {input : LoopInput} {verdict : Verdict}
    (inv : Wellformed s) (member : Member.Wellformed s.member) (kept : Kept s verdict)
    (h : loopStep s input = some t) : Kept t (Verdict.observe s (.loop input) verdict) := by
  have hafter := loopStep_error h
  obtain ⟨next, snapshot, hmember, rfl, hstate⟩ := loopStep_eq h
  have hrunning := (Member.loopStep_thread hmember).1
  obtain ⟨worker, hworker, -⟩ := inv.active_of_loop hrunning
  have hunpublished : ¬ worker.position.Published := by
    intro hpublished
    have facts := inv.run worker hworker
    have hquiet : Quiet s.member := by
      cases hposition : worker.position <;> rw [hposition] at hpublished facts <;>
        first | exact hpublished.elim | exact facts | exact facts.1
    exact hrunning hquiet.loopThread
  have known := kept.run worker hworker hunpublished
  refine kept.runTo inv hworker hunpublished hworker rfl rfl rfl hstate
    (fun hjoining => Member.inJoin_loopStep (known.inJoin hjoining) hmember) ?_
  have facts := known.verdict
  cases verdict with
  | pending =>
      have hpending : Verdict.observe s (.loop input) .pending = .pending ∨
          ∃ message error, input = .event (.receive message) ∧
            s.member.loopThread = some .service ∧ message.rejection? = some error ∧
            Verdict.observe s (.loop input) .pending = .begun error := by
        simp only [Verdict.observe, Verdict.observeLoop]
        split
        · next message =>
          split
          · next hbegins =>
            cases herror : message.rejection? with
            | none => exact .inl rfl
            | some error => exact .inr ⟨message, error, rfl, hbegins.1, herror, rfl⟩
          · exact .inl rfl
        · exact .inl rfl
        · exact .inl rfl
      rcases hpending with hsame | ⟨message, error, rfl, hservice, herror, hbegun⟩
      · rw [hsame]
        trivial
      · rw [hbegun]
        exact Member.pending_of_rejection (kept.spent inv member hworker hrunning) hservice
          herror hmember
  | begun error =>
      have hpending : Member.Pending s.member error := facts
      obtain ⟨ops, hhandle, -⟩ := hpending.rejecting
      rcases Member.pending_loopStep hpending hmember with
        ⟨hquiet, hpending⟩ | ⟨rfl, hreports, hclosed⟩
      · rw [Verdict.observe_loop (by simp [hhandle]) (fun _ other _ => hquiet other)]
        exact hpending
      · have hreported : Verdict.observe s (.loop .go) (.begun error) = .reported error := by
          simp [Verdict.observe, Verdict.observeLoop, hreports]
        rw [hreported]
        refine ⟨fun hbefore => ?_, hclosed, fun hcancel => ?_⟩
        · have facts := inv.run worker hworker
          have hquiet : Quiet s.member := by
            cases hposition : worker.position <;> rw [hposition] at hbefore facts <;>
              first | exact facts | exact hbefore.elim
          exact hrunning hquiet.loopThread
        · exact hafter.reported error (by simp [hreports]) known.errorCallback hcancel
  | reported error =>
      obtain ⟨hposition, hclosed, herror⟩ := facts
      have hservice : s.member.loopThread ≠ some .service := by
        rintro hservice
        obtain ⟨position, hloop, hover, -⟩ := hclosed.ended.resolve_left hrunning
        cases hservice.symm.trans hloop
        exact hover
      rw [Verdict.observe_loop hservice (fun _ _ h => by cases h)]
      refine ⟨hposition, Member.closed_loopStep member hclosed hmember, fun hcancel => ?_⟩
      rw [hafter.same (by simp [hclosed.loopInvokes_eq])]
      exact herror hcancel

/-! ## Steps of the worker -/

/-- Before `Join` there is nothing to report. -/
theorem State.VerdictFacts.pending_of_beforeJoin {s : State} {position : RunPosition}
    {verdict : Verdict} (facts : s.VerdictFacts position verdict) (hbefore : position.BeforeJoin)
    (quiet : Quiet s.member) : verdict = .pending := by
  cases verdict with
  | pending => rfl
  | begun error =>
      obtain ⟨ops, hhandle, -⟩ := Member.Pending.rejecting facts
      cases quiet.loopThread.symm.trans hhandle
  | reported error => exact absurd hbefore facts.1

/-- A verdict does not depend on the position of `Run` once that has called `Join`. -/
theorem State.VerdictFacts.move {s t : State} {source target : RunPosition} {verdict : Verdict}
    (facts : s.VerdictFacts source verdict) (htarget : ¬ target.BeforeJoin)
    (hmember : t.member = s.member) (hcancel : t.cancel = s.cancel)
    (herror : t.cancel = false → ∀ error, verdict = .reported error →
      t.snapshot.error = s.snapshot.error) : t.VerdictFacts target verdict := by
  cases verdict with
  | pending => trivial
  | begun error => exact (hmember ▸ facts : Member.Pending t.member error)
  | reported error =>
      refine ⟨htarget, hmember ▸ facts.2.1, fun h => ?_⟩
      rw [herror h error rfl]
      exact facts.2.2 (hcancel.symm.trans h)

/-- A step inside a spent `Join` or `Leave` keeps the verdict. -/
theorem State.VerdictFacts.caller {s t : State} {source target : RunPosition}
    {verdict : Verdict} {input : CallerInput} (facts : s.VerdictFacts source verdict)
    (htarget : ¬ target.BeforeJoin) (hcall : input ≠ .callJoin)
    (hmember : Member.callerStep s.member input = some t.member) (hcancel : t.cancel = s.cancel)
    (herror : t.snapshot.error = s.snapshot.error) : t.VerdictFacts target verdict := by
  cases verdict with
  | pending => trivial
  | begun error => exact Member.pending_callerStep facts hcall hmember
  | reported error =>
      refine ⟨htarget, Member.closed_callerStep facts.2.1 hcall hmember, fun h => ?_⟩
      rw [herror]
      exact facts.2.2 (hcancel.symm.trans h)

/-- Inside `Join` the verdict is kept or `Join` reports an error of its own. -/
theorem verdictFacts_joining {s t : State} {worker : Worker} {target : RunPosition}
    {input : CallerInput} {verdict : Verdict} (member : Member.Wellformed s.member)
    (known : s.Unpublished worker verdict) (hposition : worker.position = .joining)
    (hworker : s.worker = some worker) (htarget : ¬ target.BeforeJoin)
    (h : memberStep s input = some t) :
    t.VerdictFacts target (Verdict.observe s (.run (.member input)) verdict) := by
  obtain ⟨hcall, hafter⟩ := memberStep_error h
  obtain ⟨next, snapshot, hmember, rfl, -⟩ := memberStep_eq h
  by_cases hreports : input = .go ∧ ∃ error, Member.callerInvokes s.member = some (.error error)
  · obtain ⟨rfl, error, hinvokes⟩ := hreports
    have hobserve : Verdict.observe s (.run (.member .go)) verdict = .reported error := by
      simp [Verdict.observe, hworker, Verdict.observeRun, hposition, hinvokes]
    rw [hobserve]
    refine ⟨htarget, Member.closed_of_reports member hinvokes hmember, fun hcancel => ?_⟩
    exact hafter.reported error (by simp [hinvokes]) known.errorCallback hcancel
  · have hquiet : ∀ error, (if input = .go then Member.callerInvokes s.member else none) ≠
        some (.error error) := by
      intro error hinvokes
      split at hinvokes
      · next hgo => exact hreports ⟨hgo, error, hinvokes⟩
      · cases hinvokes
    have hobserve : Verdict.observe s (.run (.member input)) verdict = verdict := by
      simp only [Verdict.observe, hworker, Verdict.observeRun, hposition]
      cases input with
      | go =>
          simp only
          split
          · next error hinvokes => exact absurd ⟨rfl, error, hinvokes⟩ hreports
          · rfl
      | _ => rfl
    rw [hobserve]
    exact known.verdict.caller htarget hcall hmember rfl (hafter.same hquiet)

theorem kept_runStep {s t : State} {worker : Worker} {input : RunInput} {verdict : Verdict}
    (inv : Wellformed s) (member : Member.Wellformed s.member) (kept : Kept s verdict)
    (hworker : s.worker = some worker)
    (ok : ∀ error, verdict = .reported error → input = .go →
      worker.position = .timedOut ∨ worker.position = .caught → s.cancel = true)
    (h : runStep s worker input = some t) :
    Kept t (Verdict.observe s (.run input) verdict) := by
  have hobserve : Verdict.observe s (.run input) verdict =
      verdict.observeRun s worker.position input := by simp only [Verdict.observe, hworker]
  rw [hobserve]
  have hfacts := inv.run worker hworker
  -- `Run` moves on before `Join`, where there is no verdict yet.
  have early {t : State} {worker' : Worker} (hbefore : worker.position.BeforeJoin)
      (hworker' : t.worker = some worker') (hapi : t.api = s.api) (hcancel : t.cancel = s.cancel)
      (hcallback : t.errorCallback = s.errorCallback)
      (hstate : t.snapshot.state = s.snapshot.state)
      (inJoin : worker'.position = .joining → t.member.InJoin) : Kept t verdict := by
    have hquiet : Quiet s.member := by
      cases hposition : worker.position <;> rw [hposition] at hbefore hfacts <;>
        first | exact hbefore.elim | exact hfacts
    have hunpublished : ¬ worker.position.Published := by
      cases hposition : worker.position <;> rw [hposition] at hbefore <;>
        first | exact hbefore.elim | exact id
    have hverdict :=
      (kept.run worker hworker hunpublished).verdict.pending_of_beforeJoin hbefore hquiet
    exact kept.runTo inv hworker hunpublished hworker' hapi hcancel hcallback (.inl hstate) inJoin
      (by rw [hverdict]; trivial)
  -- `Run` moves on after `Join`, without a step of the member.
  have late {t : State} {position : RunPosition} (hunpublished : ¬ worker.position.Published)
      (hworker' : t.worker = some { worker with position := position })
      (hapi : t.api = s.api) (hcancel : t.cancel = s.cancel)
      (hcallback : t.errorCallback = s.errorCallback)
      (hstate : t.snapshot.state = s.snapshot.state) (hmember : t.member = s.member)
      (hjoining : position ≠ .joining) (htarget : ¬ position.BeforeJoin)
      (herror : t.cancel = false → ∀ error, verdict = .reported error →
        t.snapshot.error = s.snapshot.error) : Kept t verdict :=
    kept.runTo inv hworker hunpublished hworker' hapi hcancel hcallback (.inl hstate)
      (fun h => absurd h hjoining)
      ((kept.run worker hworker hunpublished).verdict.move htarget hmember hcancel herror)
  cases hposition : worker.position with
  | getRoom =>
      cases input <;> simp only [runStep, hposition, reduceCtorEq] at h
      split at h <;> cases h
      all_goals exact early (by rw [hposition]; trivial) rfl rfl rfl rfl rfl (by rintro ⟨⟩)
  | checkRoom =>
      cases input <;> simp only [runStep, hposition, reduceCtorEq] at h
      split at h <;> cases h
      all_goals exact early (by rw [hposition]; trivial) rfl rfl rfl rfl rfl (by rintro ⟨⟩)
  | create =>
      rcases input with _ | answer | _ | _ | _ <;>
        simp only [runStep, hposition, reduceCtorEq] at h
      · cases answer <;> simp only at h
        · cases h
          exact early (by rw [hposition]; trivial) rfl rfl rfl rfl rfl (by rintro ⟨⟩)
        · split at h <;> cases h
          exact early (by rw [hposition]; trivial) rfl rfl rfl rfl rfl (by rintro ⟨⟩)
      · cases h
        exact early (by rw [hposition]; trivial) rfl rfl rfl rfl rfl (by rintro ⟨⟩)
  | createFailed =>
      cases input <;> simp only [runStep, hposition, reduceCtorEq] at h
      cases h
      exact early (by rw [hposition]; trivial) rfl rfl rfl rfl rfl (by rintro ⟨⟩)
  | checkCancel =>
      rw [hposition] at hfacts
      cases input <;> simp only [runStep, hposition, reduceCtorEq] at h
      · split at h
        · cases h
          exact early (by rw [hposition]; trivial) rfl rfl rfl rfl rfl (by rintro ⟨⟩)
        · simp only [Member.callerStep, hfacts.caller] at h
          cases h
          exact early (by rw [hposition]; trivial) rfl rfl rfl rfl rfl
            (fun _ => hfacts.loopThread)
      · split at h <;> cases h
        exact early (by rw [hposition]; trivial) rfl rfl rfl rfl rfl (by rintro ⟨⟩)
  | joining =>
      have hunpublished : ¬ worker.position.Published := by rw [hposition]; exact id
      have known := kept.run worker hworker hunpublished
      rcases input with _ | _ | _ | input | _ <;>
        simp only [runStep, hposition, reduceCtorEq] at h
      split at h
      · cases h
      · next next hstep =>
        have facts {target : RunPosition} (htarget : ¬ target.BeforeJoin) :
            next.VerdictFacts target (verdict.observeRun s worker.position (.member input)) :=
          hobserve ▸ verdictFacts_joining member known hposition hworker htarget hstep
        obtain ⟨after, snapshot, hmember, rfl, hstate⟩ := memberStep_eq hstep
        have inJoin := Member.inJoin_callerStep member (known.inJoin hposition) hmember
        rw [hposition] at facts
        split at h
        · next hinside =>
          cases h
          exact kept.runTo inv hworker hunpublished hworker rfl rfl rfl hstate
            (fun _ => inJoin.resolve_right hinside) (by rw [hposition]; exact facts id)
        · split at h <;> cases h
          · exact kept.runTo inv hworker hunpublished rfl rfl rfl rfl hstate (by rintro ⟨⟩)
              (facts id)
          · exact kept.runTo inv hworker hunpublished rfl rfl rfl rfl hstate (by rintro ⟨⟩)
              (facts id)
  | leave =>
      rw [hposition] at hfacts
      have hunpublished : ¬ worker.position.Published := by rw [hposition]; exact id
      cases input <;> simp only [runStep, hposition, reduceCtorEq] at h
      split at h
      · cases h
      · next next hmember =>
        cases h
        exact kept.runTo inv hworker hunpublished rfl rfl rfl rfl (.inl rfl) (by rintro ⟨⟩)
          ((kept.run worker hworker hunpublished).verdict.caller id (by simp) hmember rfl rfl)
  | leaving =>
      rw [hposition] at hfacts
      have hunpublished : ¬ worker.position.Published := by rw [hposition]; exact id
      have known := kept.run worker hworker hunpublished
      rcases input with _ | _ | _ | input | _ <;>
        simp only [runStep, hposition, reduceCtorEq] at h
      split at h
      · cases h
      · next next hstep =>
        obtain ⟨hcall, hafter⟩ := memberStep_error hstep
        obtain ⟨after, snapshot, hmember, rfl, hstate⟩ := memberStep_eq hstep
        have hspent : s.member.caller.Spent := (hfacts : InOuterLeave s.member.caller).spent
        have herror := hafter.same fun error hinvokes => by
          split at hinvokes
          · exact hspent.invokes_ne_error error hinvokes
          · cases hinvokes
        split at h
        · cases h
          exact kept.runTo inv hworker hunpublished hworker rfl rfl rfl hstate
            (fun h => by simp [hposition] at h)
            (known.verdict.caller (by rw [hposition]; exact id) hcall hmember rfl herror)
        · split at h <;> cases h
          · exact kept.runTo inv hworker hunpublished rfl rfl rfl rfl hstate (by rintro ⟨⟩)
              (known.verdict.caller id hcall hmember rfl herror)
          · exact kept.runTo inv hworker hunpublished rfl rfl rfl rfl hstate (by rintro ⟨⟩)
              (known.verdict.caller id hcall hmember rfl herror)
  | publish =>
      cases input <;> simp only [runStep, hposition, reduceCtorEq] at h
      cases h
      exact ⟨inv.callFacts kept.api hworker rfl rfl,
        fun worker h hunpublished => by cases h; exact absurd trivial hunpublished⟩
  | finish =>
      cases input <;> simp only [runStep, hposition, reduceCtorEq] at h
      cases h
      exact ⟨inv.callFacts kept.api hworker rfl rfl,
        fun worker h hunpublished => by cases h; exact absurd trivial hunpublished⟩
  | ended => cases input <;> simp [runStep, hposition] at h
  | timedOut =>
      cases input <;> simp only [runStep, hposition, reduceCtorEq] at h
      cases h
      refine late (by rw [hposition]; exact id) rfl rfl rfl rfl rfl rfl (by rintro ⟨⟩) id
        (fun hcancel error hreported => ?_)
      have hcancelled := ok error hreported rfl (.inl hposition)
      cases (show s.cancel = false from hcancel).symm.trans hcancelled
  | caught =>
      cases input <;> simp only [runStep, hposition, reduceCtorEq] at h
      cases h
      refine late (by rw [hposition]; exact id) rfl rfl rfl rfl rfl rfl (by rintro ⟨⟩) id
        (fun hcancel error hreported => ?_)
      have hcancelled := ok error hreported rfl (.inr hposition)
      cases (show s.cancel = false from hcancel).symm.trans hcancelled
  | pollConnected loads =>
      cases loads <;> cases input <;> simp only [runStep, hposition, reduceCtorEq] at h
      all_goals repeat' (split at h)
      all_goals cases h
      all_goals
        exact late (by rw [hposition]; exact id) rfl rfl rfl rfl rfl rfl (by rintro ⟨⟩) id
          (fun _ _ _ => rfl)
  | _ =>
      cases input <;> simp only [runStep, hposition, reduceCtorEq] at h
      all_goals repeat' (split at h)
      all_goals cases h
      all_goals
        exact late (by rw [hposition]; exact id) rfl rfl rfl rfl rfl rfl (by rintro ⟨⟩) id
          (fun _ _ _ => rfl)

theorem kept_emulationStep {s t : State} {input : Member.EmulationInput} {verdict : Verdict}
    (kept : Kept s verdict) (h : emulationStep s input = some t) : Kept t verdict := by
  obtain ⟨next, hmember, rfl⟩ := emulationStep_eq h
  obtain ⟨hcaller, hloop⟩ := Member.emulationStep_thread hmember
  have hstate := Member.emulationStep_state hmember
  refine ⟨kept.api, fun worker hworker hunpublished => ?_⟩
  have known := kept.run worker hworker hunpublished
  refine ⟨known.errorCallback, known.shown,
    fun hjoining => (known.inJoin hjoining).congr hcaller hloop, ?_⟩
  have facts := known.verdict
  cases verdict with
  | pending => trivial
  | begun error => exact Member.Pending.congr hcaller hloop hstate facts
  | reported error => exact ⟨facts.1, facts.2.1.congr hcaller hloop hstate, facts.2.2⟩

/-- **The error is kept along every such run.** -/
theorem kept_of_reachableVia {pair : State × Verdict}
    (h : observed.ReachableVia ReasonUndisturbed pair) : Kept pair.1 pair.2 := by
  refine h.invariant (fun pair => Kept pair.1 pair.2) (fun pair hpair => ?_)
    (fun source label target prior ok kept hstep => ?_)
  · obtain ⟨s, verdict⟩ := pair
    obtain ⟨hs, -⟩ := hpair
    cases (show s = {} from hs)
    exact .idle nofun nofun
  · obtain ⟨s, verdict⟩ := source
    obtain ⟨t, verdict'⟩ := target
    obtain ⟨hs, hverdict⟩ := System.observed_step_iff.mp hstep
    simp only at hs hverdict kept ok
    subst hverdict
    have hreachable : system.Reachable s := System.Reachable.of_observed prior.reachable
    have inv := wellformed_of_reachable hreachable
    have member := Member.wellformed_of_reachable (member_reachable hreachable)
    cases label with
    | api input =>
        rcases step_api hs with hs | hs
        · have hcall : Verdict.observe s (.api input) verdict = verdict := by
            cases input <;> first | rfl | cases hs
          rw [hcall]
          refine kept_callStep kept (fun error hreported hhandle => ?_) hs
          subst hreported hhandle
          exact ok
        · exact kept_apiStep inv kept hs
    | run input =>
        obtain ⟨worker, hworker, hs⟩ := Option.bind_eq_some_iff.mp hs
        refine kept_runStep inv member kept hworker (fun error hreported hgo hwrites => ?_) hs
        subst hreported hgo
        exact ok (by simpa [hworker] using hwrites)
    | loop input => exact kept_loopStep inv member kept hs
    | emulation input => exact kept_emulationStep kept hs
    | other input =>
        obtain ⟨network, current, rfl⟩ := otherStep_eq hs
        exact kept.beside rfl rfl id (fun h => ⟨h, rfl, fun _ _ => rfl⟩) kept.api

/-! ## The result -/

/-- **A rejection keeps its reason**, in every run in which no timeout and no `catch`
block writes its code after the error callback has run. -/
theorem reasonKept_of_undisturbed {pair : State × Verdict}
    (h : observed.ReachableVia ReasonUndisturbed pair) : ReasonKept pair := by
  have inv := wellformed_of_reachable (System.Reachable.of_observed h.reachable)
  have kept := kept_of_reachableVia h
  refine ⟨fun worker hworker hunpublished => (kept.run worker hworker hunpublished).shown,
    fun worker hworker hposition hcancel error herror t hstep => ?_⟩
  have facts := inv.run worker hworker
  have known := (kept.run worker hworker (by rw [hposition]; exact id)).verdict
  rw [hposition] at facts known
  have hshown : pair.1.snapshot.error = error.code + 1 := by
    cases hverdict : pair.2 <;> simp only [hverdict, Verdict.error?, reduceCtorEq] at herror known
    · obtain ⟨ops, hhandle, -⟩ := Member.Pending.rejecting known
      cases facts.loopThread.symm.trans hhandle
    · cases herror
      exact known.2.2 hcancel
  simp only [step, hworker, Option.bind_some, runStep, hposition, Option.some.injEq] at hstep
  subst hstep
  have hcode := error.code_lt
  refine ⟨rfl, hshown, ?_, ?_⟩
  · show pair.1.snapshot.error ≠ 0
    omega
  · show pair.1.snapshot.error ≠ 101
    omega

/-- The polling loop finds that the member is not connected any more. -/
def rejectedInTime : List Label :=
  joinConnects ++ roomIsFull ++ runGoes 1 ++ [.run (.deadline false)] ++ runGoes 5 ++ leavesRoom

/-- Such a session is about to show that the room is full. -/
theorem reasonKept_rejectedInTime :
    ∃ pair : State × Verdict,
      (pair.1.worker.map Worker.position = some .publish ∧ pair.1.cancel = false ∧
        pair.2.error? = some .roomIsFull) ∧ ReasonKept pair := by
  obtain ⟨pair, hreach, hends⟩ :=
    System.exists_reachableVia_of_runVia ReasonUndisturbed
      (show observed.init ({}, .pending) from ⟨rfl, rfl⟩) rejectedInTime
      (fun pair => pair.1.worker.map Worker.position = some .publish ∧ pair.1.cancel = false ∧
        pair.2.error? = some .roomIsFull) (by decide +kernel)
  exact ⟨pair, hends, reasonKept_of_undisturbed hreach⟩

/-- The deadline passes just then, with the snapshot still joining. -/
def rejectedAtDeadline : List Label :=
  joinConnects ++ roomIsFull ++ runGoes 1 ++ [.run (.deadline true)] ++ runGoes 1 ++ leavesRoom

/-- **The reason can be lost**: the room was full, and the user interface is told of a
handshake timeout. -/
theorem timeout_hides_rejection :
    ∃ pair, observed.Reachable pair ∧ pair.1.cancel = false ∧
      pair.1.worker.map Worker.position = some .publish ∧
      pair.2.error? = some .roomIsFull ∧ pair.1.snapshot.error = 101 ∧ ¬ ReasonKept pair := by
  obtain ⟨pair, hreach, hcancel, hposition, herror, hshown⟩ :=
    System.exists_reachable_of_run (show observed.init ({}, .pending) from ⟨rfl, rfl⟩)
      rejectedAtDeadline
      (fun pair => pair.1.cancel = false ∧ pair.1.worker.map Worker.position = some .publish ∧
        pair.2.error? = some .roomIsFull ∧ pair.1.snapshot.error = 101) (by decide +kernel)
  refine ⟨pair, hreach, hcancel, hposition, herror, hshown, fun kept => ?_⟩
  obtain ⟨worker, hworker, hpublish⟩ := Option.map_eq_some_iff.mp hposition
  have hstep : ∃ t, step pair.1 (.run .go) = some t ∧ t.snapshot.error = 101 := by
    simp only [step, hworker, Option.bind_some, runStep, hpublish, Option.some.injEq,
      exists_eq_left']
    exact hshown
  obtain ⟨t, hstep, htimeout⟩ := hstep
  exact (kept.published worker hworker hpublish hcancel _ herror t hstep).2.2.2 htimeout

end ManicRoom.Session
