/-
# The entry points preserve the invariant

One call at a time holds `api_mutex`. Most of its accesses move it along or change a
field that the invariant does not mention; the others are treated one by one.
-/

import ManicRoom.Session.Facts

namespace ManicRoom.Session

open ManicRoom.Foundation

/-- The call goes on at another position. -/
theorem Wellformed.passTo {s t : State} {source target : ApiPosition} (inv : Wellformed s)
    (hapi : s.api = some source) (htarget : t.api = some target) (core : SameCore s t)
    (stays : source.GoesOffline → target.GoesOffline) (starts : ¬ source.Starts)
    (shows : s.ShowsAfter t) (facts : t.ApiFacts target) : Wellformed t := by
  refine inv.pass core (fun position h hoffline => ?_) (fun position h => ?_) shows
    (fun position h => ?_)
  · cases hapi.symm.trans h
    exact ⟨target, htarget, stays hoffline⟩
  · cases hapi.symm.trans h
    exact starts
  · cases htarget.symm.trans h
    exact facts

/-- The call returns. -/
theorem Wellformed.passOut {s t : State} {source : ApiPosition} (inv : Wellformed s)
    (hapi : s.api = some source) (hreturns : t.api = none) (core : SameCore s t)
    (stays : ¬ source.GoesOffline) (starts : ¬ source.Starts) (shows : s.ShowsAfter t) :
    Wellformed t := by
  refine inv.pass core (fun position h hoffline => ?_) (fun position h => ?_) shows
    (fun position h => ?_)
  · cases hapi.symm.trans h
    exact absurd hoffline stays
  · cases hapi.symm.trans h
    exact starts
  · simp [hreturns] at h

theorem wellformed_callStep {s t : State} {input : ApiInput} (inv : Wellformed s)
    (h : callStep s input = some t) : Wellformed t := by
  have starts (position : ApiPosition) (hapi : s.api = none) (facts : s.ApiFacts position) :
      Wellformed (s.apiAt position) :=
    inv.pass ⟨rfl, rfl, id, rfl, rfl, rfl, rfl⟩ (by simp [hapi]) (by simp [hapi]) (.inl rfl) (by
      rintro _ ⟨⟩
      cases position <;> exact facts)
  have stops (cause : StopCause) (hcause : cause ≠ .gameReady) (hapi : s.api = none) :
      Wellformed ({ s with ready := false }.apiAt (.stopCancel cause [] s.consoleMac)) :=
    { bound := fun h => by cases h
      api := by
        rintro _ ⟨⟩
        exact ⟨fun h => absurd h hcause, fun _ => rfl⟩
      run := fun worker h => (inv.run worker h).congr rfl rfl rfl
      granted := fun worker h hrunning =>
        have granted := inv.granted worker h hrunning
        ⟨granted.finished, granted.memberSet, .inr ⟨_, rfl, hcause⟩⟩
      noWorker := fun h =>
        ⟨(inv.noWorker h).1, .inl ((inv.noWorker h).2.resolve_right (by simp [hapi]))⟩
      online := fun h => by cases h
      offline := fun _ => .inr ⟨_, rfl, hcause⟩ }
  unfold callStep at h
  cases input with
  | callInitialize =>
      obtain ⟨hapi, rfl⟩ := by simpa using h
      exact starts _ hapi trivial
  | callGameReady hash mac =>
      obtain ⟨hapi, rfl⟩ := by simpa using h
      exact starts _ hapi trivial
  | callGameStopped =>
      obtain ⟨hapi, rfl⟩ := by simpa using h
      exact stops _ (by simp) hapi
  | callShutdown =>
      obtain ⟨hapi, rfl⟩ := by simpa using h
      exact stops _ (by simp) hapi
  | callRequest request =>
      simp only at h
      split at h
      · cases h
        exact inv.frame ⟨rfl, rfl, id, rfl, rfl, rfl, rfl⟩ rfl Iff.rfl rfl id
      · obtain ⟨hapi, rfl⟩ := by simpa using h
        exact starts _ hapi trivial
  | callLeave =>
      obtain ⟨hapi, rfl⟩ := by simpa using h
      exact starts _ hapi trivial
  | handle =>
      simp only at h
      split at h
      · cases h
      · cases h
        exact inv.frame ⟨rfl, rfl, id, rfl, rfl, rfl, rfl⟩ rfl Iff.rfl rfl fun offline =>
          ⟨offline.state, ⟨offline.cleared.memberCount, offline.cleared.members⟩,
            offline.hostMode⟩
  | go => cases h
  | fail => cases h
  | throw => cases h

/-- Nothing of the worker is left but a thread that may have to be joined. -/
def State.WorkerDone (s : State) : Prop :=
  ∀ worker, s.worker = some worker → worker.position = .ended

theorem Wellformed.quiet {s : State} (inv : Wellformed s) (done : s.WorkerDone) :
    Quiet s.member := by
  cases hworker : s.worker with
  | none => exact (inv.noWorker hworker).1
  | some worker =>
      have facts := inv.run worker hworker
      rw [done worker hworker] at facts
      exact facts.1

theorem Wellformed.finished {s : State} {position : ApiPosition} (inv : Wellformed s)
    (done : s.WorkerDone) (hapi : s.api = some position) (hstarts : ¬ position.Starts) :
    s.finished = true := by
  cases hworker : s.worker with
  | none =>
      refine (inv.noWorker hworker).2.resolve_right ?_
      rintro ⟨other, hother, h⟩
      exact hstarts (Option.some.inj (hapi.symm.trans hother) ▸ h)
  | some worker =>
      have facts := inv.run worker hworker
      rw [done worker hworker] at facts
      exact facts.2

/-- The same between calls. -/
theorem Wellformed.finished_of_idle {s : State} (inv : Wellformed s) (done : s.WorkerDone)
    (hapi : s.api = none) : s.finished = true := by
  cases hworker : s.worker with
  | none => exact (inv.noWorker hworker).2.resolve_right (by simp [hapi])
  | some worker =>
      have facts := inv.run worker hworker
      rw [done worker hworker] at facts
      exact facts.2

theorem Wellformed.running {s : State} {position : ApiPosition} (inv : Wellformed s)
    (hfinished : s.finished = false) (hapi : s.api = some position)
    (hstarts : ¬ position.Starts) :
    ∃ worker, s.worker = some worker ∧ worker.position ≠ .ended := by
  by_contra hdone
  push Not at hdone
  simp [inv.finished hdone hapi hstarts] at hfinished

theorem Wellformed.ready_of_running {s : State} {worker : Worker} {position : ApiPosition}
    (inv : Wellformed s) (hworker : s.worker = some worker) (hrunning : worker.position ≠ .ended)
    (hapi : s.api = some position) (hoffline : ¬ position.GoesOffline) : s.ready = true := by
  refine (inv.granted worker hworker hrunning).ready.resolve_right ?_
  rintro ⟨other, hother, h⟩
  exact hoffline (Option.some.inj (hapi.symm.trans hother) ▸ h)

theorem State.workerDone_of_none {s : State} (h : s.worker = none) : s.WorkerDone := by
  intro worker hworker
  simp [h] at hworker

/-- A worker that has not ended is using the member. -/
theorem Wellformed.workerDone_of_not_memberSet {s : State} (inv : Wellformed s)
    (h : s.memberSet = false) : s.WorkerDone := by
  intro worker hworker
  by_contra hrunning
  simp [(inv.granted worker hworker hrunning).memberSet] at h

/-- `join` or `StopWorker` finds no worker, or one that has ended, and goes on. -/
theorem Wellformed.reap {s : State} {source target : ApiPosition} (inv : Wellformed s)
    (hapi : s.api = some source) (hstarts : ¬ source.Starts) (done : s.WorkerDone)
    (facts : ({ s with worker := none }.apiAt target).ApiFacts target)
    (offline : source.GoesOffline → s.ready = true ∨ target.GoesOffline) :
    Wellformed ({ s with worker := none }.apiAt target) := by
  refine .alone rfl (inv.quiet done) inv.bound (by rintro _ ⟨⟩; exact facts)
    (.inl (inv.finished done hapi hstarts)) inv.online (fun hready => ?_)
  rcases inv.offline hready with hshown | ⟨position, hposition, h⟩
  · exact .inl hshown
  · cases hapi.symm.trans hposition
    have hready : s.ready = false := hready
    exact .inr ⟨target, rfl, (offline h).resolve_left (by simp [hready])⟩

theorem wellformed_initLock {s t : State} {input : ApiInput} (inv : Wellformed s)
    (hapi : s.api = some .initLock) (h : apiStep s input = some t) : Wellformed t := by
  obtain ⟨hmember, hnetwork⟩ := inv.api _ hapi
  have done := inv.workerDone_of_not_memberSet hmember
  have quiet := inv.quiet done
  have hready : s.ready = false := by
    by_contra hready
    simp [(inv.bound (by simpa using hready)).1] at hmember
  have quiet' : Quiet (if s.memberCurrent then s.member else {}) := by
    split
    · exact quiet
    · exact ⟨rfl, rfl⟩
  cases input <;> simp only [apiStep, hapi, reduceCtorEq] at h
  cases h
  exact
    { bound := fun h => by simp [State.apiAt, hready] at h
      api := by
        rintro _ ⟨⟩
        simpa [State.ApiFacts, State.apiAt, Option.isSome_iff_ne_none] using hnetwork
      run := fun worker h => (inv.run worker h).congr
        (quiet'.caller.trans quiet.caller.symm)
        (quiet'.loopThread.trans quiet.loopThread.symm) rfl
      granted := fun worker h hrunning => absurd (done worker h) hrunning
      noWorker := fun _ => ⟨quiet', .inl (inv.finished done hapi id)⟩
      online := fun h => by simp [State.apiAt, hready] at h
      offline := fun _ => .inl ((inv.offline hready).resolve_right
        (by simp [hapi, ApiPosition.GoesOffline])) }

/-- `worker.join()` returns, or there was nothing to join. -/
theorem apiStep_stopJoin {s t : State} {input : ApiInput} {cause : StopCause} {hash : Bytes}
    {mac : Member.MacAddress} (hapi : s.api = some (.stopJoin cause hash mac))
    (h : apiStep s input = some t) :
    s.WorkerDone ∧ t = { s with worker := none }.apiAt
      (if cause = StopCause.gameReady then .readyPublish hash mac else .offlinePublish cause) := by
  cases input <;> simp only [apiStep, hapi, reduceCtorEq] at h
  split at h
  · next hworker =>
    cases h
    exact ⟨State.workerDone_of_none hworker, by rw [← hworker]⟩
  · next worker hworker =>
    split at h
    · next hended =>
      cases h
      exact ⟨fun other hother => Option.some.inj (hworker.symm.trans hother) ▸ hended, rfl⟩
    · cases h

/-- The same in `join` and `host`. -/
theorem apiStep_requestJoinWorker {s t : State} {input : ApiInput} {accepted : Accepted}
    (hapi : s.api = some (.requestJoinWorker accepted)) (h : apiStep s input = some t) :
    s.WorkerDone ∧ t = { s with worker := none }.apiAt (.requestUncancel accepted) := by
  cases input <;> simp only [apiStep, hapi, reduceCtorEq] at h
  split at h
  · next hworker =>
    cases h
    exact ⟨State.workerDone_of_none hworker, by rw [← hworker]⟩
  · next worker hworker =>
    split at h
    · next hended =>
      cases h
      exact ⟨fun other hother => Option.some.inj (hworker.symm.trans hother) ▸ hended, rfl⟩
    · cases h

theorem wellformed_stopJoin {s t : State} {input : ApiInput} {cause : StopCause}
    {hash : Bytes} {mac : Member.MacAddress} (inv : Wellformed s)
    (hapi : s.api = some (.stopJoin cause hash mac)) (h : apiStep s input = some t) :
    Wellformed t := by
  obtain ⟨hbound, hready⟩ := inv.api _ hapi
  obtain ⟨done, rfl⟩ := apiStep_stopJoin hapi h
  split
  · next hcause =>
    exact inv.reap hapi id done ⟨hbound hcause, rfl⟩ (absurd hcause)
  · next hcause =>
    exact inv.reap hapi id done ⟨hready hcause, rfl⟩ fun _ => .inr trivial

theorem wellformed_apiStep {s t : State} {input : ApiInput} (inv : Wellformed s)
    (h : apiStep s input = some t) : Wellformed t := by
  cases hapi : s.api with
  | none => simp [apiStep, hapi] at h
  | some position =>
      have facts := inv.api position hapi
      -- The steps that leave the core alone, by where they go.
      have passTo {target : ApiPosition} {t : State} (htarget : t.api = some target)
          (core : SameCore s t) (stays : position.GoesOffline → target.GoesOffline)
          (starts : ¬ position.Starts) (shows : s.ShowsAfter t) (facts : t.ApiFacts target) :
          Wellformed t :=
        inv.passTo hapi htarget core stays starts shows facts
      have passOut {t : State} (hreturns : t.api = none) (core : SameCore s t)
          (stays : ¬ position.GoesOffline) (starts : ¬ position.Starts)
          (shows : s.ShowsAfter t) : Wellformed t :=
        inv.passOut hapi hreturns core stays starts shows
      cases position with
      | initLock => exact wellformed_initLock inv hapi h
      | stopJoin cause hash mac => exact wellformed_stopJoin inv hapi h
      | requestJoinWorker accepted =>
          obtain ⟨done, rfl⟩ := apiStep_requestJoinWorker hapi h
          exact inv.reap hapi id done ⟨facts.1, facts.2, rfl⟩ False.elim
      | initMember =>
          cases input <;> simp only [apiStep, hapi, reduceCtorEq] at h
          split at h
          · cases h
            exact passOut rfl ⟨rfl, rfl, id, rfl, rfl, rfl, rfl⟩ id id (.inl rfl)
          · next hmember =>
            cases h
            exact passTo rfl ⟨rfl, rfl, id, rfl, rfl, rfl, rfl⟩ False.elim id (.inl rfl)
              (by simpa [State.apiAt, State.ApiFacts] using hmember)
      | initExpired =>
          cases input <;> simp only [apiStep, hapi, reduceCtorEq] at h
          split at h
          · next hnetwork =>
            cases h
            exact passTo rfl ⟨rfl, rfl, id, rfl, rfl, rfl, rfl⟩ False.elim id (.inl rfl)
              ⟨facts, by simpa [State.apiAt] using hnetwork⟩
          · next hnetwork =>
            cases h
            exact passTo rfl ⟨rfl, rfl, id, rfl, rfl, rfl, rfl⟩ False.elim id (.inl rfl)
              ⟨facts, by simpa [State.apiAt] using hnetwork⟩
      | initNetwork =>
          cases input <;> simp only [apiStep, hapi, reduceCtorEq] at h <;> cases h
          · exact passTo rfl ⟨rfl, rfl, id, rfl, rfl, rfl, rfl⟩ False.elim id (.inl rfl)
              ⟨facts.1, by simp [State.apiAt]⟩
          · exact passTo rfl ⟨rfl, rfl, id, rfl, rfl, rfl, rfl⟩ False.elim id (.inl rfl) facts.1
          · exact passOut rfl ⟨rfl, rfl, id, rfl, rfl, rfl, rfl⟩ id id (.inl rfl)
      | initFailed =>
          cases input <;> simp only [apiStep, hapi, reduceCtorEq] at h
          cases h
          exact passOut rfl ⟨rfl, rfl, id, rfl, rfl, rfl, rfl⟩ id id (.inl rfl)
      | initBindState =>
          cases input <;> simp only [apiStep, hapi, reduceCtorEq] at h <;> cases h
          · exact passTo rfl ⟨rfl, rfl, fun b => ⟨b.1, rfl, b.2.2⟩, rfl, rfl, rfl, rfl⟩
              False.elim id (.inl rfl) facts
          · exact passOut rfl ⟨rfl, rfl, id, rfl, rfl, rfl, rfl⟩ id id (.inl rfl)
      | initBindError =>
          cases input <;> simp only [apiStep, hapi, reduceCtorEq] at h <;> cases h
          · exact passTo rfl ⟨rfl, rfl, fun b => ⟨b.1, b.2.1, rfl, b.2.2.2⟩, rfl, rfl, rfl, rfl⟩
              False.elim id (.inl rfl) facts
          · exact passOut rfl ⟨rfl, rfl, id, rfl, rfl, rfl, rfl⟩ id id (.inl rfl)
      | initBindRoom =>
          cases input <;> simp only [apiStep, hapi, reduceCtorEq] at h <;> cases h
          · exact passOut rfl ⟨rfl, rfl, fun b => ⟨b.1, b.2.1, b.2.2.1, rfl⟩, rfl, rfl, rfl, rfl⟩
              id id (.inl rfl)
          · exact passOut rfl ⟨rfl, rfl, id, rfl, rfl, rfl, rfl⟩ id id (.inl rfl)
      | readyCheck hash mac =>
          cases input <;> simp only [apiStep, hapi, reduceCtorEq] at h
          split at h
          · next hbound =>
            cases h
            exact passTo rfl ⟨rfl, rfl, id, rfl, rfl, rfl, rfl⟩ False.elim id (.inl rfl)
              ⟨fun _ => hbound, fun h => absurd rfl h⟩
          · cases h
            exact passOut rfl ⟨rfl, rfl, id, rfl, rfl, rfl, rfl⟩ id id (.inl rfl)
      | stopCancel cause hash mac =>
          cases input <;> simp only [apiStep, hapi, reduceCtorEq] at h
          cases h
          exact passTo rfl ⟨rfl, rfl, id, rfl, rfl, rfl, rfl⟩ id id (.inl rfl) facts
      | readyPublish hash mac =>
          cases input <;> simp only [apiStep, hapi, reduceCtorEq] at h
          cases h
          have done := State.workerDone_of_none facts.2
          exact .alone facts.2 (inv.quiet done) (fun _ => facts.1) (fun _ h => by cases h)
            (.inl (inv.finished done hapi id)) (fun _ => by simp [State.publish])
            (fun h => by cases h)
      | offlinePublish cause =>
          obtain ⟨hready, hworker⟩ := facts
          have done := State.workerDone_of_none hworker
          have published {t : State} (ht : t.ready = s.ready) (hworker' : t.worker = s.worker)
              (hmember : t.member = s.member) (hfinished : t.finished = s.finished)
              (facts : ∀ position, t.api = some position → t.ApiFacts position)
              (hstate : t.snapshot.state = .offline) : Wellformed t :=
            .alone (hworker'.trans hworker) (hmember ▸ inv.quiet done)
              (fun h => by simp [ht, hready] at h) facts
              (.inl (hfinished.trans (inv.finished done hapi id)))
              (fun h => by simp [ht, hready] at h) (fun _ => .inl hstate)
          cases input <;> simp only [apiStep, hapi, reduceCtorEq] at h
          split at h
          · split at h
            · cases h
              exact published rfl rfl rfl rfl
                (by rintro _ ⟨⟩; exact ⟨hready, hworker, ⟨rfl, ⟨rfl, rfl⟩, rfl⟩⟩) rfl
            · cases h
              exact published rfl rfl rfl rfl
                (by rintro _ ⟨⟩; exact ⟨hready, hworker, ⟨rfl, ⟨rfl, rfl⟩, rfl⟩⟩) rfl
          · cases h
            exact published rfl rfl rfl rfl (fun _ h => by cases h) rfl
      | unbind =>
          cases input <;> simp only [apiStep, hapi, reduceCtorEq] at h
          cases h
          obtain ⟨hready, hworker, hoffline⟩ := facts
          have done := State.workerDone_of_none hworker
          exact .alone hworker (inv.quiet done) (fun h => by simp [hready, State.apiAt] at h)
            (by rintro _ ⟨⟩; exact ⟨hready, hworker, hoffline⟩)
            (.inl (inv.finished done hapi id)) (fun h => by simp [hready, State.apiAt] at h)
            (fun _ => .inl hoffline.state)
      | networkShutdown =>
          cases input <;> simp only [apiStep, hapi, reduceCtorEq] at h
          split at h
          · cases h
            exact passOut rfl ⟨rfl, rfl, id, rfl, rfl, rfl, rfl⟩ id id (.inl rfl)
          · cases h
            exact passOut rfl ⟨rfl, rfl, id, rfl, rfl, rfl, rfl⟩ id id (.inl rfl)
      | requestReady accepted =>
          cases input <;> simp only [apiStep, hapi, reduceCtorEq] at h
          split at h
          · next hready =>
            cases h
            exact passTo rfl ⟨rfl, rfl, id, rfl, rfl, rfl, rfl⟩ False.elim id (.inl rfl) hready
          · cases h
            exact passOut rfl ⟨rfl, rfl, id, rfl, rfl, rfl, rfl⟩ id id (.inl rfl)
      | requestFinished accepted =>
          cases input <;> simp only [apiStep, hapi, reduceCtorEq] at h
          split at h
          · next hfinished =>
            cases h
            exact passTo rfl ⟨rfl, rfl, id, rfl, rfl, rfl, rfl⟩ False.elim id (.inl rfl)
              ⟨facts, hfinished⟩
          · cases h
            exact passOut rfl ⟨rfl, rfl, id, rfl, rfl, rfl, rfl⟩ id id (.inl rfl)
      | requestUncancel accepted =>
          cases input <;> simp only [apiStep, hapi, reduceCtorEq] at h
          cases h
          exact passTo rfl ⟨rfl, rfl, id, rfl, rfl, rfl, rfl⟩ False.elim id (.inl rfl) facts
      | requestPublish accepted =>
          cases input <;> simp only [apiStep, hapi, reduceCtorEq] at h
          cases h
          exact passTo rfl ⟨rfl, rfl, id, rfl, rfl, rfl, rfl⟩ False.elim id
            (.inr ⟨facts.1, by simp [State.apiAt, State.publish, Snapshot.clearMembers]⟩) facts
      | requestUnfinish accepted =>
          cases input <;> simp only [apiStep, hapi, reduceCtorEq] at h
          cases h
          obtain ⟨hready, -, hworker⟩ := facts
          exact .alone hworker (inv.quiet (State.workerDone_of_none hworker)) inv.bound
            (by rintro _ ⟨⟩; exact ⟨hready, rfl, hworker⟩) (.inr ⟨_, rfl, trivial⟩) inv.online
            (fun h => by simp [State.apiAt, hready] at h)
      | requestStart accepted =>
          obtain ⟨hready, hfinished, hworker⟩ := facts
          have quiet := inv.quiet (State.workerDone_of_none hworker)
          cases input <;> simp only [apiStep, hapi, reduceCtorEq] at h
          · cases h
            exact
              { bound := inv.bound
                api := fun _ h => by cases h
                run := by
                  rintro _ ⟨⟩
                  cases accepted.host <;> exact quiet
                granted := by
                  rintro _ ⟨⟩ -
                  exact ⟨hfinished, (inv.bound hready).1, .inl hready⟩
                noWorker := fun h => by cases h
                online := inv.online
                offline := fun h => by simp [hready] at h }
          · cases h
            exact .alone hworker quiet inv.bound
              (by rintro _ ⟨⟩; exact ⟨hready, hfinished, hworker⟩) (.inr ⟨_, rfl, trivial⟩)
              inv.online (fun h => by simp [State.apiAt, hready] at h)
      | requestRefinish =>
          cases input <;> simp only [apiStep, hapi, reduceCtorEq] at h
          cases h
          obtain ⟨hready, -, hworker⟩ := facts
          exact .alone hworker (inv.quiet (State.workerDone_of_none hworker)) inv.bound
            (by rintro _ ⟨⟩; exact ⟨hready, rfl, hworker⟩) (.inl rfl) inv.online
            (fun h => by simp [State.apiAt, hready] at h)
      | requestWithdraw =>
          cases input <;> simp only [apiStep, hapi, reduceCtorEq] at h
          cases h
          exact passOut rfl ⟨rfl, rfl, id, rfl, rfl, rfl, rfl⟩ id id
            (.inr ⟨facts.1, by simp [State.publish]⟩)
      | leaveCancel =>
          cases input <;> simp only [apiStep, hapi, reduceCtorEq] at h
          cases h
          exact passTo rfl ⟨rfl, rfl, id, rfl, rfl, rfl, rfl⟩ False.elim id (.inl rfl) trivial
      | leavePublish =>
          cases input <;> simp only [apiStep, hapi, reduceCtorEq] at h
          split at h
          · cases h
            exact passOut rfl ⟨rfl, rfl, id, rfl, rfl, rfl, rfl⟩ id id (.inl rfl)
          · next hfinished =>
            cases h
            obtain ⟨worker, hworker, hrunning⟩ := inv.running (by simpa using hfinished) hapi id
            have hready := inv.ready_of_running hworker hrunning hapi id
            exact passOut rfl ⟨rfl, rfl, id, rfl, rfl, rfl, rfl⟩ id id
              (.inr ⟨hready, by simp [State.release, State.publish]⟩)

end ManicRoom.Session
