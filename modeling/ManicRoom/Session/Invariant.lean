/-
# What every reachable session state satisfies

`Run` and the `MemberLoop` thread change the member and what the callbacks publish.
While `Run` is active nothing it relies on can be taken away, because the calls that
would do so wait for it first. With the entry points, this makes the invariant hold
in every reachable state.
-/

import ManicRoom.Member.Invariant
import ManicRoom.Session.Call

namespace ManicRoom.Session

open ManicRoom.Foundation
open Member (CallerInput LoopInput EmulationInput CallerPosition Invocation)

/-! ## The member inside the session -/

@[simp]
theorem Snapshot.addMembers_state (snapshot : Snapshot) (nicknames : List Member.Nickname) :
    (snapshot.addMembers nicknames).state = snapshot.state := by
  induction nicknames generalizing snapshot with
  | nil => rfl
  | cons nickname nicknames ih =>
      simp only [Snapshot.addMembers]
      split
      · rfl
      · exact ih _

/-- A callback changes the snapshot, and its state only to joined. -/
theorem State.invoke?_eq (s : State) (invocation : Option Invocation) :
    ∃ snapshot, s.invoke? invocation = { s with snapshot := snapshot } ∧
      (snapshot.state = s.snapshot.state ∨ snapshot.state = .joined) := by
  cases invocation with
  | none => exact ⟨s.snapshot, rfl, .inl rfl⟩
  | some invocation =>
      cases invocation with
      | state state =>
          simp only [State.invoke?, State.invoke]
          split
          · exact ⟨_, rfl, .inr rfl⟩
          · exact ⟨s.snapshot, rfl, .inl rfl⟩
      | error error =>
          simp only [State.invoke?, State.invoke]
          split
          · exact ⟨_, rfl, .inl rfl⟩
          · exact ⟨s.snapshot, rfl, .inl rfl⟩
      | roomInformation =>
          simp only [State.invoke?, State.invoke]
          split
          · exact ⟨_, rfl, .inl (by simp [Snapshot.clearMembers])⟩
          · exact ⟨s.snapshot, rfl, .inl rfl⟩

/-- A step inside `Join` or `Leave` changes the member and what a callback changes. -/
theorem memberStep_eq {s t : State} {input : CallerInput} (h : memberStep s input = some t) :
    ∃ member snapshot, Member.callerStep s.member input = some member ∧
      t = { s with member := member, snapshot := snapshot } ∧
      (snapshot.state = s.snapshot.state ∨ snapshot.state = .joined) := by
  unfold memberStep at h
  split at h
  · split at h
    · cases h
    · next member hmember =>
      cases h
      obtain ⟨snapshot, heq, hstate⟩ :=
        s.invoke?_eq (if input = .go then Member.callerInvokes s.member else none)
      exact ⟨member, snapshot, hmember, by simp only [heq], hstate⟩
  · cases h

theorem loopStep_eq {s t : State} {input : LoopInput} (h : loopStep s input = some t) :
    ∃ member snapshot, Member.loopStep s.member input = some member ∧
      t = { s with member := member, snapshot := snapshot } ∧
      (snapshot.state = s.snapshot.state ∨ snapshot.state = .joined) := by
  unfold loopStep at h
  split at h
  · cases h
  · next member hmember =>
    cases h
    obtain ⟨snapshot, heq, hstate⟩ :=
      s.invoke?_eq (if input = .go then Member.loopInvokes s.member else none)
    exact ⟨member, snapshot, hmember, by simp only [heq], hstate⟩

theorem emulationStep_eq {s t : State} {input : EmulationInput}
    (h : emulationStep s input = some t) :
    ∃ member, Member.emulationStep s.member input = some member ∧
      t = { s with member := member } := by
  unfold emulationStep at h
  split at h
  · cases h
  · next member hmember =>
    cases h
    exact ⟨member, hmember, rfl⟩

/-- A call leaves the member alone or finds a new one. -/
theorem apiStep_member {s t : State} {input : ApiInput} (h : apiStep s input = some t) :
    t.member = s.member ∨ t.member = {} := by
  unfold apiStep at h
  split at h
  all_goals repeat' (split at h)
  all_goals cases h
  all_goals first | exact .inl rfl | exact .inr rfl

theorem callStep_member {s t : State} {input : ApiInput} (h : callStep s input = some t) :
    t.member = s.member := by
  unfold callStep at h
  split at h
  all_goals repeat' (split at h)
  all_goals cases h
  all_goals rfl

/-- Another owner changes the network only. -/
theorem otherStep_eq {s t : State} {input : OtherInput} (h : otherStep s input = some t) :
    ∃ network current, t = { s with network := network, memberCurrent := current } := by
  unfold otherStep at h
  split at h
  all_goals repeat' (split at h)
  all_goals cases h
  all_goals exact ⟨_, _, rfl⟩

/-- `Run` leaves the member alone or is inside one of its calls. -/
theorem runStep_member {s t : State} {worker : Worker} {input : RunInput}
    (h : runStep s worker input = some t) :
    t.member = s.member ∨ ∃ input, Member.callerStep s.member input = some t.member := by
  have inside {t : State} {input : CallerInput} (h : memberStep s input = some t) :
      ∃ input, Member.callerStep s.member input = some t.member := by
    obtain ⟨member, snapshot, hmember, rfl, -⟩ := memberStep_eq h
    exact ⟨input, hmember⟩
  unfold runStep at h
  split at h
  all_goals repeat' (split at h)
  all_goals cases h
  all_goals first
    | exact .inl rfl
    | exact .inr ⟨_, ‹_›⟩
    | (have hinside := inside ‹memberStep s _ = some _›
       exact .inr hinside)

/-- `Run` does not move the calls on. -/
theorem runStep_api {s t : State} {worker : Worker} {input : RunInput}
    (h : runStep s worker input = some t) : t.api = s.api := by
  have inside {t : State} {input : Member.CallerInput} (h : memberStep s input = some t) :
      t.api = s.api := by
    obtain ⟨member, snapshot, -, rfl, -⟩ := memberStep_eq h
    rfl
  unfold runStep at h
  split at h
  all_goals repeat' (split at h)
  all_goals cases h
  all_goals first
    | rfl
    | (have hapi := inside ‹memberStep s _ = some _›
       exact hapi)

theorem step_api {s t : State} {input : ApiInput} (h : step s (.api input) = some t) :
    callStep s input = some t ∨ apiStep s input = some t := by
  cases input <;> first | exact .inl h | exact .inr h

/-- **The member of the session is a member**: it only visits states that the
member reaches by itself. -/
theorem member_reachable {s : State} (h : system.Reachable s) :
    Member.system.Reachable s.member := by
  refine h.project State.member (fun _ hs => by cases hs; rfl) (fun source label target hs => ?_)
  cases label with
  | api input =>
      rcases step_api hs with hs | hs
      · exact .inl (callStep_member hs)
      · exact (apiStep_member hs).imp_right .inl
  | run input =>
      obtain ⟨worker, -, hs⟩ := Option.bind_eq_some_iff.mp hs
      rcases runStep_member hs with hsame | ⟨input, hmember⟩
      · exact .inl hsame
      · exact .inr (.inr ⟨.caller input, hmember⟩)
  | loop input =>
      obtain ⟨member, snapshot, hmember, rfl, -⟩ := loopStep_eq hs
      exact .inr (.inr ⟨.loop input, hmember⟩)
  | emulation input =>
      obtain ⟨member, hmember, rfl⟩ := emulationStep_eq hs
      exact .inr (.inr ⟨.emulation input, hmember⟩)
  | other input =>
      obtain ⟨network, current, rfl⟩ := otherStep_eq hs
      exact .inl rfl

/-! ## Steps of the worker -/

/-- What a step of `Run`, or of a thread it has started, leaves alone. -/
structure SameGlobals (s t : State) : Prop where
  api : t.api = s.api
  ready : t.ready = s.ready
  memberSet : t.memberSet = s.memberSet
  bound : s.Bound → t.Bound

/-- A call in progress cannot see what `Run` does: those that could wait for it. -/
theorem State.ApiFacts.ofRunning {s t : State} {position : ApiPosition}
    (facts : s.ApiFacts position) (same : SameGlobals s t) (granted : s.RunGranted)
    (hworker : s.worker ≠ none) : t.ApiFacts position := by
  have hmember : s.memberSet ≠ false := by simp [granted.memberSet]
  have hfinished : s.finished ≠ true := by simp [granted.finished]
  cases position with
  | initMember => trivial
  | initExpired => exact absurd facts hmember
  | initFailed => exact absurd facts hmember
  | initNetwork => exact absurd facts.1 hmember
  | initLock => exact absurd facts.1 hmember
  | initBindState => exact same.memberSet.trans facts
  | initBindError => exact same.memberSet.trans facts
  | initBindRoom => exact same.memberSet.trans facts
  | readyCheck hash mac => trivial
  | stopCancel cause hash mac =>
      exact ⟨fun h => same.bound (facts.1 h), fun h => same.ready.trans (facts.2 h)⟩
  | stopJoin cause hash mac =>
      exact ⟨fun h => same.bound (facts.1 h), fun h => same.ready.trans (facts.2 h)⟩
  | readyPublish hash mac => exact absurd facts.2 hworker
  | offlinePublish cause => exact absurd facts.2 hworker
  | unbind => exact absurd facts.2.1 hworker
  | networkShutdown => exact absurd facts.2.1 hworker
  | requestReady accepted => trivial
  | requestFinished accepted => exact same.ready.trans facts
  | requestJoinWorker accepted => exact absurd facts.2 hfinished
  | requestUncancel accepted => exact absurd facts.2.2 hworker
  | requestPublish accepted => exact absurd facts.2.2 hworker
  | requestUnfinish accepted => exact absurd facts.2.2 hworker
  | requestStart accepted => exact absurd facts.2.2 hworker
  | requestRefinish => exact absurd facts.2.2 hworker
  | requestWithdraw => exact absurd facts.2.2 hworker
  | leaveCancel => trivial
  | leavePublish => trivial

/-- While `Run` is active, a step that grants it what it has, or ends it, and shows
anything but offline. -/
theorem Wellformed.runTo {s t : State} {worker worker' : Worker} (inv : Wellformed s)
    (hworker : s.worker = some worker) (hrunning : worker.position ≠ .ended)
    (hworker' : t.worker = some worker') (same : SameGlobals s t)
    (hfinished : worker'.position ≠ .ended → t.finished = s.finished)
    (facts : t.RunFacts worker'.position)
    (shows : t.snapshot.state = s.snapshot.state ∨ t.snapshot.state ≠ .offline) :
    Wellformed t where
  bound h := same.bound (inv.bound (same.ready ▸ h))
  api position h := (inv.api position (same.api ▸ h)).ofRunning same
    (inv.granted worker hworker hrunning) (by simp [hworker])
  run other h := by
    cases hworker'.symm.trans h
    exact facts
  granted other h hactive := by
    cases hworker'.symm.trans h
    have granted := inv.granted worker hworker hrunning
    exact
      { finished := (hfinished hactive).trans granted.finished
        memberSet := same.memberSet.trans granted.memberSet
        ready := by rw [same.ready, same.api]; exact granted.ready }
  noWorker h := by simp [hworker'] at h
  online h := by
    rcases shows with hsame | hshows
    · exact hsame ▸ inv.online (same.ready ▸ h)
    · exact hshows
  offline h := by
    have granted := inv.granted worker hworker hrunning
    rw [same.api]
    refine .inr (granted.ready.resolve_left fun hready => ?_)
    simp [same.ready, hready] at h

theorem leaveSetIdle_caller (back : Member.LeaveReturn) (phase : Member.SetStatePhase)
    (member : Member.State) :
    (Member.leaveSetIdle back phase member).caller = .leaveJoin back ∨
      ∃ later, (Member.leaveSetIdle back phase member).caller = .leaveSetIdle back later := by
  cases phase with
  | compare =>
      by_cases hidle : member.state = .idle <;>
        simp [Member.leaveSetIdle, Member.setStateStep, hidle, Member.State.markLeft]
  | store => exact .inr ⟨_, rfl⟩
  | load => exact .inr ⟨_, rfl⟩
  | invoke state => exact .inl rfl

/-- No exception leaves the outer `Leave`. -/
theorem InOuterLeave.not_mayThrow {position : CallerPosition} (h : InOuterLeave position) :
    ¬ position.MayThrow := by
  unfold InOuterLeave at h
  split at h
  case h_2 phase => cases phase <;> simp [Member.CallerPosition.MayThrow]
  all_goals simp_all [Member.CallerPosition.MayThrow]

/-- A step of the outer `Leave` stays inside it or ends it, without a loop thread. -/
theorem inOuterLeave_callerStep {member member' : Member.State} {input : CallerInput}
    (inv : Member.Wellformed member) (hleave : InOuterLeave member.caller)
    (h : Member.callerStep member input = some member') :
    InOuterLeave member'.caller ∨ Quiet member' := by
  have hthrow := hleave.not_mayThrow
  unfold InOuterLeave at hleave
  split at hleave
  · next immediate hcaller =>
    cases input <;> simp [Member.callerStep, hcaller, hcaller ▸ hthrow] at h
    exact h ▸ .inl trivial
  · next phase hcaller =>
    cases input <;> simp [Member.callerStep, hcaller, hcaller ▸ hthrow] at h
    subst h
    rcases leaveSetIdle_caller .outer phase member with hjoin | ⟨later, hlater⟩
    · exact .inl (by rw [hjoin]; trivial)
    · exact .inl (by rw [hlater]; trivial)
  · next hcaller =>
    cases input <;> simp only [Member.callerStep, hcaller, hcaller ▸ hthrow, if_false,
      reduceCtorEq] at h
    split at h
    · exact Option.some.inj h ▸ .inl trivial
    · exact Option.some.inj h ▸ .inl trivial
    · cases h
  · next hcaller =>
    cases input <;> simp [Member.callerStep, hcaller, hcaller ▸ hthrow] at h
    exact h ▸ .inl trivial
  · next hcaller =>
    have hnone := inv.noLoop (by simp [hcaller, Member.CallerPosition.NoLoop])
    cases input <;> simp [Member.callerStep, hcaller, hcaller ▸ hthrow] at h
    exact h ▸ .inr ⟨rfl, hnone⟩
  · exact hleave.elim

theorem wellformed_runStep {s t : State} {worker : Worker} {input : RunInput}
    (inv : Wellformed s) (member : Member.Wellformed s.member)
    (hworker : s.worker = some worker) (h : runStep s worker input = some t) :
    Wellformed t := by
  have hrunning : worker.position ≠ .ended := by
    intro hended
    cases input <;> simp [runStep, hended] at h
  have facts := inv.run worker hworker
  have runTo {t : State} {worker' : Worker} (hworker' : t.worker = some worker')
      (same : SameGlobals s t) (hfinished : t.finished = s.finished)
      (facts : t.RunFacts worker'.position)
      (shows : t.snapshot.state = s.snapshot.state ∨ t.snapshot.state ≠ .offline) :
      Wellformed t :=
    inv.runTo hworker hrunning hworker' same (fun _ => hfinished) facts shows
  have moveTo {position : RunPosition} (facts : s.RunFacts position) :
      Wellformed (s.runAt worker position) :=
    runTo rfl ⟨rfl, rfl, rfl, id⟩ rfl (by cases position <;> exact facts) (.inl rfl)
  cases hposition : worker.position with
  | getRoom =>
      rw [hposition] at facts
      cases input <;> simp only [runStep, hposition, reduceCtorEq] at h
      split at h <;> cases h <;> exact moveTo facts
  | checkRoom =>
      rw [hposition] at facts
      cases input <;> simp only [runStep, hposition, reduceCtorEq] at h
      split at h <;> cases h <;> exact moveTo facts
  | create =>
      rw [hposition] at facts
      rcases input with _ | answer | _ | _ | _ <;>
        simp only [runStep, hposition, reduceCtorEq] at h
      · cases answer <;> simp only at h
        · cases h
          exact moveTo facts
        · split at h
          · cases h
            exact runTo rfl ⟨rfl, rfl, rfl, id⟩ rfl facts (.inl rfl)
          · cases h
      · cases h
        exact moveTo facts.caller
  | createFailed =>
      rw [hposition] at facts
      cases input <;> simp only [runStep, hposition, reduceCtorEq] at h
      cases h
      exact runTo rfl ⟨rfl, rfl, rfl, id⟩ rfl facts.caller (.inl rfl)
  | checkCancel =>
      rw [hposition] at facts
      cases input <;> simp only [runStep, hposition, reduceCtorEq] at h
      · split at h
        · cases h
          exact moveTo facts.caller
        · simp only [Member.callerStep, facts.caller] at h
          cases h
          exact runTo rfl ⟨rfl, rfl, rfl, id⟩ rfl (by simp [State.RunFacts, State.runAt]) (.inl rfl)
      · split at h
        · cases h
        · cases h
          exact moveTo facts.caller
  | joining =>
      cases input <;> simp only [runStep, hposition, reduceCtorEq] at h
      split at h
      · cases h
      · next hstep =>
        obtain ⟨member, snapshot, -, rfl, hshows⟩ := memberStep_eq hstep
        have hshows : snapshot.state = s.snapshot.state ∨ snapshot.state ≠ .offline :=
          hshows.imp_right fun h => by simp [h]
        split at h
        · next hinside =>
          cases h
          exact runTo hworker ⟨rfl, rfl, rfl, id⟩ rfl (by rw [hposition]; exact hinside) hshows
        · next hrest =>
          have hrest : member.caller = .rest := by simpa using hrest
          split at h <;> cases h <;> exact runTo rfl ⟨rfl, rfl, rfl, id⟩ rfl hrest hshows
  | pollCancel =>
      rw [hposition] at facts
      cases input <;> simp only [runStep, hposition, reduceCtorEq] at h
      split at h <;> cases h <;> exact moveTo facts
  | pollConnected loads =>
      rw [hposition] at facts
      cases loads <;> cases input <;> simp only [runStep, hposition, reduceCtorEq] at h
      · cases h
        exact moveTo facts
      · split at h <;> cases h <;> exact moveTo facts
  | pollSnapshot =>
      rw [hposition] at facts
      cases input <;> simp only [runStep, hposition, reduceCtorEq] at h
      cases h
      exact moveTo facts
  | pollDeadline joining =>
      rw [hposition] at facts
      cases input <;> simp only [runStep, hposition, reduceCtorEq] at h
      split at h <;> cases h <;> exact moveTo facts
  | timedOut =>
      rw [hposition] at facts
      cases input <;> simp only [runStep, hposition, reduceCtorEq] at h
      cases h
      exact runTo rfl ⟨rfl, rfl, rfl, id⟩ rfl facts (.inl rfl)
  | caught =>
      rw [hposition] at facts
      cases input <;> simp only [runStep, hposition, reduceCtorEq] at h
      cases h
      exact runTo rfl ⟨rfl, rfl, rfl, id⟩ rfl facts (.inl rfl)
  | leave =>
      rw [hposition] at facts
      have facts : s.member.caller = .rest := facts
      cases input <;> simp only [runStep, hposition, Member.callerStep, facts, reduceCtorEq] at h
      cases h
      exact runTo rfl ⟨rfl, rfl, rfl, id⟩ rfl trivial (.inl rfl)
  | leaving =>
      rw [hposition] at facts
      cases input <;> simp only [runStep, hposition, reduceCtorEq] at h
      split at h
      · cases h
      · next hstep =>
        obtain ⟨after, snapshot, hmember, rfl, hshows⟩ := memberStep_eq hstep
        have hshows : snapshot.state = s.snapshot.state ∨ snapshot.state ≠ .offline :=
          hshows.imp_right fun h => by simp [h]
        have hleft := inOuterLeave_callerStep member facts hmember
        split at h
        · next hinside =>
          cases h
          exact runTo hworker ⟨rfl, rfl, rfl, id⟩ rfl
            (by rw [hposition]; exact hleft.resolve_right fun quiet => hinside quiet.caller) hshows
        · next hrest =>
          have quiet : Quiet after := hleft.resolve_left fun hinside => by
            have hrest : after.caller = .rest := by simpa using hrest
            simp [hrest, InOuterLeave] at hinside
          split at h <;> cases h <;> exact runTo rfl ⟨rfl, rfl, rfl, id⟩ rfl quiet hshows
  | destroy =>
      rw [hposition] at facts
      cases input <;> simp only [runStep, hposition, reduceCtorEq] at h
      cases h
      exact runTo rfl ⟨rfl, rfl, rfl, id⟩ rfl facts (.inl rfl)
  | publish =>
      rw [hposition] at facts
      cases input <;> simp only [runStep, hposition, reduceCtorEq] at h
      cases h
      exact runTo rfl ⟨rfl, rfl, rfl, id⟩ rfl facts
        (.inr (by simp [State.mark, State.runAt, State.publish, Snapshot.clearMembers]))
  | finish =>
      rw [hposition] at facts
      cases input <;> simp only [runStep, hposition, reduceCtorEq] at h
      cases h
      exact inv.runTo hworker hrunning rfl ⟨rfl, rfl, rfl, id⟩ (absurd rfl) ⟨facts, rfl⟩
        (.inl rfl)
  | ended => exact absurd hposition hrunning

/-! ## Steps of the other threads -/

/-- While there is a loop thread, `Run` is active at a position that allows for it. -/
theorem Wellformed.active_of_loop {s : State} (inv : Wellformed s)
    (hloop : s.member.loopThread ≠ none) :
    ∃ worker, s.worker = some worker ∧ worker.position ≠ .ended := by
  by_contra hdone
  push Not at hdone
  exact hloop (inv.quiet hdone).loopThread

theorem wellformed_loopStep {s t : State} {input : LoopInput} (inv : Wellformed s)
    (h : loopStep s input = some t) : Wellformed t := by
  obtain ⟨member, snapshot, hmember, rfl, hshows⟩ := loopStep_eq h
  obtain ⟨hloop, -, hcaller⟩ := Member.loopStep_thread hmember
  obtain ⟨worker, hworker, hrunning⟩ := inv.active_of_loop hloop
  have facts := inv.run worker hworker
  refine inv.runTo hworker hrunning hworker ⟨rfl, rfl, rfl, id⟩ (fun _ => rfl) ?_
    (hshows.imp_right fun h => by simp [h])
  cases hposition : worker.position with
  | joining =>
      rw [hposition] at facts
      exact fun h => facts (hcaller.symm.trans h)
  | leaving =>
      rw [hposition] at facts
      exact (hcaller ▸ facts : InOuterLeave member.caller)
  | ended => exact absurd hposition hrunning
  | _ =>
      rw [hposition] at facts
      first
        | exact hcaller.trans facts
        | exact absurd (Quiet.loopThread facts) hloop

theorem wellformed_emulationStep {s t : State} {input : EmulationInput} (inv : Wellformed s)
    (h : emulationStep s input = some t) : Wellformed t := by
  obtain ⟨member, hmember, rfl⟩ := emulationStep_eq h
  obtain ⟨hcaller, hloop⟩ := Member.emulationStep_thread hmember
  exact inv.frame ⟨rfl, rfl, id, rfl, rfl, hcaller, hloop⟩ rfl Iff.rfl rfl id

theorem wellformed_otherStep {s t : State} {input : OtherInput} (inv : Wellformed s)
    (h : otherStep s input = some t) : Wellformed t := by
  unfold otherStep at h
  split at h
  · split at h
    · next hapi =>
      cases h
      exact inv.pass ⟨rfl, rfl, id, rfl, rfl, rfl, rfl⟩ (by simp [hapi]) (by simp [hapi])
        (.inl rfl) (by simp [hapi])
    · cases h
  · split at h
    · next hfree =>
      cases h
      exact inv.pass ⟨rfl, rfl, id, rfl, rfl, rfl, rfl⟩ (by simp [hfree.1]) (by simp [hfree.1])
        (.inl rfl) (by simp [hfree.1])
    · cases h
  · next hnetwork =>
    cases h
    exact inv.frame ⟨rfl, rfl, id, rfl, rfl, rfl, rfl⟩ rfl (by simp [hnetwork]) rfl id
  · next hnetwork =>
    cases h
    exact inv.frame ⟨rfl, rfl, id, rfl, rfl, rfl, rfl⟩ rfl (by simp [hnetwork]) rfl id
  · cases h

/-- **The invariant holds in every reachable state.** -/
theorem wellformed_of_reachable {s : State} (h : system.Reachable s) : Wellformed s := by
  refine System.Reachable.invariant Wellformed (fun s hs => ?_)
    (fun s label t prior inv hs => ?_) h
  · cases hs
    exact wellformed_init
  · cases label with
    | api input =>
        rcases step_api hs with hs | hs
        · exact wellformed_callStep inv hs
        · exact wellformed_apiStep inv hs
    | run input =>
        obtain ⟨worker, hworker, hs⟩ := Option.bind_eq_some_iff.mp hs
        exact wellformed_runStep inv (Member.wellformed_of_reachable (member_reachable prior))
          hworker hs
    | loop input => exact wellformed_loopStep inv hs
    | emulation input => exact wellformed_emulationStep inv hs
    | other input => exact wellformed_otherStep inv hs

end ManicRoom.Session
