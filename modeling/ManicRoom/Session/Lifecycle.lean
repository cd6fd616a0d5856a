/-
# The lifecycle of the bridge

`Initialize`, `GameReady`, `GameStopped` and `Shutdown` may be called repeatedly and in
any order, with sessions in between, and a failure may leave the bridge half built.
The invariant of the session already says what holds while a call is in progress;
here it is read off for the states between calls, together with two facts about the
history: what `GameStopped` and `Shutdown` leave behind, and whose network is shut
down.
-/

import ManicRoom.Session.Invariant

namespace ManicRoom.Session

open ManicRoom.Foundation

/-- The latest successful `Network::Init` of the bridge has not been shut down. -/
def OwnInit : List NetworkCall → Prop
  | [] => False
  | .initSucceeded :: _ => True
  | .initFailed :: calls => OwnInit calls
  | .shutdown :: _ => False

/-- Positions of a `join` or `host` that has found the bridge ready. -/
def ApiPosition.PastReady : ApiPosition → Prop
  | .requestFinished _ | .requestJoinWorker _ | .requestUncancel _ | .requestPublish _
  | .requestUnfinish _ | .requestStart _ | .requestRefinish | .requestWithdraw => True
  | _ => False

/-- What the lifecycle guarantees in every state. -/
structure LifecycleSound (s : State) : Prop where
  /-- Between calls, a ready bridge is completely bound. -/
  bound : s.api = none → s.ready = true →
    s.memberSet = true ∧ s.stateCallback = true ∧ s.errorCallback = true ∧ s.roomCallback = true
  /-- Between calls, an unfinished session has a thread to join and a member. -/
  joinable : s.api = none → s.finished = false → s.worker.isSome = true ∧ s.memberSet = true
  /-- Between calls, offline is shown exactly by a bridge that is not ready. -/
  offline : s.api = none → (s.snapshot.state = .offline ↔ s.ready = false)
  /-- A thread is only started where there is none to join. -/
  unassigned : ∀ accepted, s.api = some (.requestStart accepted) → s.worker = none
  /-- `Run`, and the loop thread it starts, find the member. -/
  dereferenced : (∃ worker, s.worker = some worker ∧ worker.position ≠ .ended) ∨
    s.member.loopThread ≠ none → s.memberSet = true
  /-- After `GameStopped` or `Shutdown` there is no worker, and nothing is shown. -/
  stopped : s.stopped = true → s.worker = none ∧ s.finished = true ∧
    s.snapshot.Offline s.hostMode
  /-- From then on a `join` or `host` that passes its checks returns 2. -/
  refused : s.stopped = true → ∀ accepted, s.api = some (.requestReady accepted) →
    ∀ t, step s (.api .go) = some t → t.api = none ∧ t.result = some 2
  /-- None is past that check. -/
  unrequested : s.stopped = true → ∀ position, s.api = some position → ¬ position.PastReady
  /-- `Network::Init` is called where there is no member. -/
  initialised : s.api = some .initNetwork → s.network = none
  /-- `Shutdown` calls `Network::Shutdown` exactly if the bridge owns the network. -/
  shutdown : s.api = some .networkShutdown → ∀ t, step s (.api .go) = some t →
    t.networkCalls = .shutdown :: s.networkCalls ∧ OwnInit s.networkCalls ∨
      t.networkCalls = s.networkCalls ∧ ¬ OwnInit s.networkCalls
  /-- A network of another owner stays until that owner takes it away. -/
  foreign : ∀ network, s.network = some network → network.ownedByBridge = false →
    ∀ label t, step s label = some t → t.network = none → label = .other .shutdownNetwork

/-! ## Whose network it is -/

/-- `owns_network` says whose network it is. -/
structure OwnershipFacts (s : State) : Prop where
  ownsNetwork : s.ownsNetwork = true ↔ OwnInit s.networkCalls
  owned : s.ownsNetwork = true → ∃ network, s.network = some network ∧
    network.ownedByBridge = true

theorem OwnershipFacts.frame {s t : State} (facts : OwnershipFacts s)
    (howns : t.ownsNetwork = s.ownsNetwork) (hcalls : t.networkCalls = s.networkCalls)
    (hnetwork : t.network.map NetworkObject.ownedByBridge =
      s.network.map NetworkObject.ownedByBridge) : OwnershipFacts t where
  ownsNetwork := by rw [howns, hcalls]; exact facts.ownsNetwork
  owned h := by
    obtain ⟨network, hsome, hbridge⟩ := facts.owned (howns.symm.trans h)
    have hmap : t.network.map NetworkObject.ownedByBridge = some true := by
      simp [hnetwork, hsome, hbridge]
    simpa using hmap

theorem ownershipFacts_apiStep {s t : State} {input : ApiInput} (facts : OwnershipFacts s)
    (h : apiStep s input = some t) : OwnershipFacts t := by
  have hcalls := facts.ownsNetwork
  cases hapi : s.api with
  | none => simp [apiStep, hapi] at h
  | some position =>
      cases position with
      | initNetwork =>
          cases input <;> simp only [apiStep, hapi, reduceCtorEq] at h <;> cases h
          · exact ⟨by simp [State.apiAt, OwnInit], fun _ => ⟨_, rfl, rfl⟩⟩
          · exact ⟨hcalls, facts.owned⟩
          · exact ⟨hcalls, facts.owned⟩
      | networkShutdown =>
          cases input <;> simp only [apiStep, hapi, reduceCtorEq] at h
          split at h <;> cases h
          · exact ⟨by simp [OwnInit], fun h => by cases h⟩
          · exact facts.frame rfl rfl rfl
      | _ =>
          cases input <;> simp only [apiStep, hapi, reduceCtorEq] at h
          all_goals repeat' (split at h)
          all_goals cases h
          all_goals exact facts.frame rfl rfl rfl

theorem ownershipFacts_callStep {s t : State} {input : ApiInput} (facts : OwnershipFacts s)
    (h : callStep s input = some t) : OwnershipFacts t := by
  unfold callStep at h
  split at h
  all_goals repeat' (split at h)
  all_goals cases h
  all_goals exact facts.frame rfl rfl rfl

theorem State.destroyRoom_owned (s : State) :
    s.destroyRoom.network.map NetworkObject.ownedByBridge =
      s.network.map NetworkObject.ownedByBridge := by
  cases hnetwork : s.network <;> simp [State.destroyRoom, hnetwork]

/-- `Run` keeps the network and touches at most its room. -/
theorem runStep_network {s t : State} {worker : Worker} {input : RunInput}
    (h : runStep s worker input = some t) :
    t.ownsNetwork = s.ownsNetwork ∧ t.networkCalls = s.networkCalls ∧
      t.network.map NetworkObject.ownedByBridge = s.network.map NetworkObject.ownedByBridge := by
  have inside {t : State} {input : Member.CallerInput} (h : memberStep s input = some t) :
      t.ownsNetwork = s.ownsNetwork ∧ t.networkCalls = s.networkCalls ∧
        t.network = s.network := by
    obtain ⟨member, snapshot, -, rfl, -⟩ := memberStep_eq h
    exact ⟨rfl, rfl, rfl⟩
  unfold runStep at h
  split at h
  all_goals repeat' (split at h)
  all_goals cases h
  all_goals first
    | exact ⟨rfl, rfl, rfl⟩
    | exact ⟨rfl, rfl, s.destroyRoom_owned⟩
    | exact ⟨rfl, rfl, by simp [State.mark, State.runAt, *]⟩
    | (obtain ⟨howns, hcalls, hnetwork⟩ := inside ‹memberStep s _ = some _›
       exact ⟨howns, hcalls, congrArg (Option.map NetworkObject.ownedByBridge) hnetwork⟩)

theorem ownershipFacts_otherStep {s t : State} {input : OtherInput} (facts : OwnershipFacts s)
    (h : otherStep s input = some t) : OwnershipFacts t := by
  unfold otherStep at h
  split at h
  · next hnetwork =>
    split at h <;> cases h
    refine ⟨facts.ownsNetwork, fun howns => ?_⟩
    obtain ⟨network, hsome, -⟩ := facts.owned howns
    simp [hnetwork] at hsome
  · next hnetwork =>
    split at h <;> cases h
    refine ⟨facts.ownsNetwork, fun howns => ?_⟩
    obtain ⟨network, hsome, hbridge⟩ := facts.owned howns
    cases hnetwork.symm.trans hsome
    cases hbridge
  · next hnetwork =>
    cases h
    exact facts.frame rfl rfl (by simp [hnetwork])
  · next hnetwork =>
    cases h
    exact facts.frame rfl rfl (by simp [hnetwork])
  · cases h

theorem ownershipFacts_of_reachable {s : State} (h : system.Reachable s) :
    OwnershipFacts s := by
  refine System.Reachable.invariant OwnershipFacts (fun s hs => ?_)
    (fun s label t _ facts hs => ?_) h
  · cases hs
    exact ⟨by simp [OwnInit], fun h => by cases h⟩
  · cases label with
    | api input =>
        rcases step_api hs with hs | hs
        · exact ownershipFacts_callStep facts hs
        · exact ownershipFacts_apiStep facts hs
    | run input =>
        obtain ⟨worker, -, hs⟩ := Option.bind_eq_some_iff.mp hs
        obtain ⟨howns, hcalls, hnetwork⟩ := runStep_network hs
        exact facts.frame howns hcalls hnetwork
    | loop input =>
        obtain ⟨member, snapshot, -, rfl, -⟩ := loopStep_eq hs
        exact facts.frame rfl rfl rfl
    | emulation input =>
        obtain ⟨member, -, rfl⟩ := emulationStep_eq hs
        exact facts.frame rfl rfl rfl
    | other input => exact ownershipFacts_otherStep facts hs

/-! ## What a stop leaves behind -/

/-- Since `GameStopped` or `Shutdown` nothing has started or been shown. -/
structure State.Down (s : State) : Prop where
  ready : s.ready = false
  worker : s.worker = none
  offline : s.snapshot.Offline s.hostMode

theorem State.Down.frame {s t : State} (down : s.Down)
    (hready : t.ready = s.ready ∨ t.ready = false) (hworker : t.worker = s.worker ∨ t.worker = none)
    (hstate : t.snapshot.state = s.snapshot.state)
    (hcount : t.snapshot.memberCount = s.snapshot.memberCount)
    (hmembers : t.snapshot.members = s.snapshot.members) (hhost : t.hostMode = s.hostMode) :
    t.Down where
  ready := hready.elim (·.trans down.ready) id
  worker := hworker.elim (·.trans down.worker) id
  offline := ⟨hstate.trans down.offline.state,
    ⟨hcount.trans down.offline.cleared.memberCount, hmembers.trans down.offline.cleared.members⟩,
    hhost.trans down.offline.hostMode⟩

theorem down_apiStep {s t : State} {input : ApiInput} (inv : Wellformed s)
    (down : s.stopped = true → s.Down) (h : apiStep s input = some t)
    (hstopped : t.stopped = true) : t.Down := by
  cases hapi : s.api with
  | none => simp [apiStep, hapi] at h
  | some position =>
      have facts := inv.api position hapi
      -- A request past its check contradicts what a stop left behind.
      have requested {t : State} (hready : s.ready = true) (hstopped : s.stopped = true) :
          t.Down := by
        simp [(down hstopped).ready] at hready
      cases position with
      | stopJoin cause hash mac =>
          obtain ⟨-, rfl⟩ := apiStep_stopJoin hapi h
          exact (down hstopped).frame (.inl rfl) (.inr rfl) rfl rfl rfl rfl
      | requestJoinWorker accepted =>
          obtain ⟨-, rfl⟩ := apiStep_requestJoinWorker hapi h
          exact (down hstopped).frame (.inl rfl) (.inr rfl) rfl rfl rfl rfl
      | readyPublish hash mac =>
          cases input <;> simp only [apiStep, hapi, reduceCtorEq] at h
          cases h
          cases hstopped
      | offlinePublish cause =>
          cases input <;> simp only [apiStep, hapi, reduceCtorEq] at h
          repeat' split at h
          all_goals cases h
          all_goals exact ⟨facts.1, facts.2, ⟨rfl, ⟨rfl, rfl⟩, rfl⟩⟩
      | networkShutdown =>
          obtain ⟨hready, hworker, hoffline⟩ := facts
          cases input <;> simp only [apiStep, hapi, reduceCtorEq] at h
          split at h <;> cases h <;> exact ⟨hready, hworker, hoffline⟩
      | requestPublish accepted =>
          cases input <;> simp only [apiStep, hapi, reduceCtorEq] at h
          cases h
          exact requested facts.1 hstopped
      | requestStart accepted =>
          cases input <;> simp only [apiStep, hapi, reduceCtorEq] at h <;> cases h
          · exact requested facts.1 hstopped
          · exact requested facts.1 hstopped
      | requestWithdraw =>
          cases input <;> simp only [apiStep, hapi, reduceCtorEq] at h
          cases h
          exact requested facts.1 hstopped
      | leavePublish =>
          cases input <;> simp only [apiStep, hapi, reduceCtorEq] at h
          split at h
          · cases h
            exact (down hstopped).frame (.inl rfl) (.inl rfl) rfl rfl rfl rfl
          · next hfinished =>
            cases h
            have done := State.workerDone_of_none (down hstopped).worker
            exact absurd (inv.finished done hapi id) (by simpa using hfinished)
      | _ =>
          cases input <;> simp only [apiStep, hapi, reduceCtorEq] at h
          all_goals repeat' (split at h)
          all_goals cases h
          all_goals exact (down hstopped).frame (.inl rfl) (.inl rfl) rfl rfl rfl rfl

theorem down_callStep {s t : State} {input : ApiInput} (down : s.stopped = true → s.Down)
    (h : callStep s input = some t) (hstopped : t.stopped = true) : t.Down := by
  unfold callStep at h
  split at h
  all_goals repeat' (split at h)
  all_goals cases h
  all_goals first
    | exact (down hstopped).frame (.inl rfl) (.inl rfl) rfl rfl rfl rfl
    | exact (down hstopped).frame (.inr rfl) (.inl rfl) rfl rfl rfl rfl

/-- `Run` does not touch the history of stops. -/
theorem runStep_stopped {s t : State} {worker : Worker} {input : RunInput}
    (h : runStep s worker input = some t) : t.stopped = s.stopped := by
  have inside {t : State} {input : Member.CallerInput} (h : memberStep s input = some t) :
      t.stopped = s.stopped := by
    obtain ⟨member, snapshot, -, rfl, -⟩ := memberStep_eq h
    rfl
  unfold runStep at h
  split at h
  all_goals repeat' (split at h)
  all_goals cases h
  all_goals first
    | rfl
    | (have hstopped := inside ‹memberStep s _ = some _›
       exact hstopped)

theorem down_of_reachable {s : State} (h : system.Reachable s) : s.stopped = true → s.Down := by
  refine System.Reachable.invariant (fun s => s.stopped = true → s.Down) (fun s hs => ?_)
    (fun s label t prior down hs hstopped => ?_) h
  · cases hs
    exact fun h => by cases h
  · have inv := wellformed_of_reachable prior
    cases label with
    | api input =>
        rcases step_api hs with hs | hs
        · exact down_callStep down hs hstopped
        · exact down_apiStep inv down hs hstopped
    | run input =>
        obtain ⟨worker, hworker, hs⟩ := Option.bind_eq_some_iff.mp hs
        simp [(down ((runStep_stopped hs).symm.trans hstopped)).worker] at hworker
    | loop input =>
        obtain ⟨member, snapshot, hmember, rfl, -⟩ := loopStep_eq hs
        obtain ⟨worker, hworker, -⟩ := inv.active_of_loop (Member.loopStep_thread hmember).1
        simp [(down hstopped).worker] at hworker
    | emulation input =>
        obtain ⟨member, -, rfl⟩ := emulationStep_eq hs
        exact (down hstopped).frame (.inl rfl) (.inl rfl) rfl rfl rfl rfl
    | other input =>
        obtain ⟨network, current, rfl⟩ := otherStep_eq hs
        exact (down hstopped).frame (.inl rfl) (.inl rfl) rfl rfl rfl rfl

/-! ## The result -/

/-- A call takes the network away only if the bridge owns it. -/
theorem apiStep_network {s t : State} {input : ApiInput} (h : apiStep s input = some t)
    (howns : s.ownsNetwork = false) (hgone : t.network = none) : s.network = none := by
  unfold apiStep at h
  split at h
  all_goals repeat' (split at h)
  all_goals cases h
  all_goals first
    | exact hgone
    | exact absurd ‹s.ownsNetwork = true› (by simp [howns])
    | cases hgone

/-- A step that takes the network of another owner away is that owner's own. -/
theorem step_takes_network {s t : State} {label : Label} {network : NetworkObject}
    (facts : OwnershipFacts s) (hnetwork : s.network = some network)
    (hforeign : network.ownedByBridge = false) (h : step s label = some t)
    (hgone : t.network = none) : label = .other .shutdownNetwork := by
  have howns : s.ownsNetwork = false := by
    by_contra howns
    obtain ⟨other, hsome, hbridge⟩ := facts.owned (by simpa using howns)
    cases hnetwork.symm.trans hsome
    simp [hforeign] at hbridge
  have hstays : s.network ≠ none := by simp [hnetwork]
  cases label with
  | api input =>
      rcases step_api h with h | h
      · unfold callStep at h
        split at h
        all_goals repeat' (split at h)
        all_goals cases h
        all_goals exact absurd hgone hstays
      · exact absurd (apiStep_network h howns hgone) hstays
  | run input =>
      obtain ⟨worker, -, h⟩ := Option.bind_eq_some_iff.mp h
      have hmap := (runStep_network h).2.2
      simp [hgone, hnetwork] at hmap
  | loop input =>
      obtain ⟨member, snapshot, -, rfl, -⟩ := loopStep_eq h
      exact absurd hgone hstays
  | emulation input =>
      obtain ⟨member, -, rfl⟩ := emulationStep_eq h
      exact absurd hgone hstays
  | other input =>
      cases input with
      | shutdownNetwork => rfl
      | initNetwork => simp [step, otherStep, hnetwork] at h
      | openRoom =>
          obtain ⟨owned, room⟩ := network
          cases room <;> simp [step, otherStep, hnetwork] at h
          simp [← h] at hgone
      | closeRoom =>
          obtain ⟨owned, room⟩ := network
          rcases room with _ | _ | _ <;> simp [step, otherStep, hnetwork] at h
          simp [← h] at hgone

/-- **The lifecycle is sound in every reachable state.** -/
theorem lifecycleSound_of_reachable {s : State} (h : system.Reachable s) :
    LifecycleSound s := by
  have inv := wellformed_of_reachable h
  have ownership := ownershipFacts_of_reachable h
  have down := down_of_reachable h
  have active (h : ∃ worker, s.worker = some worker ∧ worker.position ≠ .ended) :
      s.memberSet = true := by
    obtain ⟨worker, hworker, hrunning⟩ := h
    exact (inv.granted worker hworker hrunning).memberSet
  have unrequested (hstopped : s.stopped = true) (position : ApiPosition)
      (hapi : s.api = some position) : ¬ position.PastReady := by
    intro hpast
    have facts := inv.api position hapi
    have hready := (down hstopped).ready
    cases position <;> simp only [ApiPosition.PastReady] at hpast <;>
      simp [State.ApiFacts, hready] at facts
  exact
    { bound := fun _ => inv.bound
      joinable := fun hapi hfinished => by
        have hrunning : ∃ worker, s.worker = some worker ∧ worker.position ≠ .ended := by
          by_contra hdone
          push Not at hdone
          have hquiet : s.finished = true := inv.finished_of_idle hdone hapi
          simp [hfinished] at hquiet
        refine ⟨?_, active hrunning⟩
        obtain ⟨worker, hworker, -⟩ := hrunning
        simp [hworker]
      offline := fun hapi => by
        cases hready : s.ready with
        | true => simpa using inv.online hready
        | false => simpa [hapi] using inv.offline hready
      unassigned := fun accepted hapi => (inv.api _ hapi).2.2
      dereferenced := fun h => h.elim active fun hloop => active (inv.active_of_loop hloop)
      stopped := fun hstopped => by
        have down := down hstopped
        refine ⟨down.worker, ?_, down.offline⟩
        refine (inv.noWorker down.worker).2.resolve_right ?_
        rintro ⟨position, hapi, hstarts⟩
        refine unrequested hstopped position hapi ?_
        cases position <;> first | exact hstarts | trivial
      refused := fun hstopped accepted hapi t hstep => by
        have hready := (down hstopped).ready
        simp only [step, apiStep, hapi, hready, Bool.false_eq_true, if_false,
          Option.some.injEq] at hstep
        exact hstep ▸ ⟨rfl, rfl⟩
      unrequested := unrequested
      initialised := fun hapi => (inv.api _ hapi).2
      shutdown := fun hapi t hstep => by
        simp only [step, apiStep, hapi] at hstep
        split at hstep
        · next howns =>
          cases hstep
          exact .inl ⟨rfl, ownership.ownsNetwork.mp howns⟩
        · next howns =>
          cases hstep
          exact .inr ⟨rfl, fun hinit => howns (ownership.ownsNetwork.mpr hinit)⟩
      foreign := fun network hnetwork hforeign label t hstep hgone =>
        step_takes_network ownership hnetwork hforeign hstep hgone }

/-- A session that is stopped with its game, and a request that comes too late. -/
def requestsLate : List Label :=
  initializes ++ getsReady ++ accepts joinRequest ++ .api .callGameStopped :: apiGoes 1 ++
    runGoes 2 ++ memberLeaves ++ runGoes 2 ++ apiGoes 2 ++ [.api (.callRequest joinRequest)]

/-- The late request finds a bridge that has been stopped soundly. -/
theorem lifecycleSound_requestsLate :
    ∃ s : State, (s.session = 1 ∧ s.stopped = true ∧ s.api.isSome = true) ∧
      LifecycleSound s := by
  obtain ⟨s, hreach, hlate⟩ :=
    System.exists_reachable_of_run (S := system) rfl requestsLate
      (fun s => s.session = 1 ∧ s.stopped = true ∧ s.api.isSome = true) (by decide +kernel)
  exact ⟨s, hlate, lifecycleSound_of_reachable hreach⟩

end ManicRoom.Session
