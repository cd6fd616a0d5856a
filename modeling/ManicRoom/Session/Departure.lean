/-
# After leave

`retro_azahar_room_leave` stores `cancel` and then shows that the session is leaving.
From its return until the next request passes its checks nothing of the session comes
back: callbacks that are still to come see `cancel` and change nothing. A request that
has passed its checks takes `cancel` back and shows that it is joining before its thread
starts; it can still answer that it was not accepted.

Errors are another matter. The error callback asks for `cancel`, but `Run` does not: it
writes that a room could not be created, that the handshake timed out or that something
was thrown, whether or not the user has left. A request whose thread does not start
leaves an error behind as well. In every run in which neither happens after a `leave`,
the error stays what it was until a request is accepted.
-/

import ManicRoom.Session.Invariant

namespace ManicRoom.Session

open ManicRoom.Foundation
open Member (CallerInput LoopInput Invocation)

/-- What was shown when a `leave` of an active session returned. -/
structure Departed where
  /-- The snapshots, until the next request that passes its checks. -/
  shown : List Snapshot := []
  /-- The errors, until the next request that is accepted, or until the next
  `GameReady` or `Initialize` writes its own. -/
  errors : List ℕ := []
  /-- The errors that a request set aside when it passed its checks: they are forgotten
  when it is accepted, and count again when it is not. -/
  pending : List ℕ := []

/-- A request is accepted when its thread has started. -/
def Departed.observe (s : State) (label : Label) (departed : Departed) : Departed :=
  match label with
  | .api .handle => { departed with errors := [], pending := [] }
  | .api .go =>
      match s.api with
      | some .leavePublish =>
          if s.finished then departed
          else
            { departed with
              shown := { s.snapshot with state := .leaving } :: departed.shown
              errors := s.snapshot.error :: departed.errors }
      | some (.requestUncancel _) => { pending := departed.errors ++ departed.pending }
      | some (.requestStart _) => { departed with errors := [], pending := [] }
      | some .requestWithdraw => { departed with errors := departed.pending, pending := [] }
      | some (.readyPublish _ _) | some .initFailed =>
          { departed with errors := [], pending := [] }
      | _ => departed
  | _ => departed

/-- The session with what was shown at the departures beside it. -/
def departing : System (State × Departed) Label := system.observed {} Departed.observe

/-- The member lists of the two snapshots are the same. -/
structure SameMembers (before after : Snapshot) : Prop where
  memberCount : after.memberCount = before.memberCount
  members : after.members = before.members

/-- What the user interface may rely on after `leave`. -/
structure StaysLeft (pair : State × Departed) : Prop where
  /-- The snapshot shows that the bridge is leaving, idle or offline. -/
  state : pair.2.shown ≠ [] → pair.1.snapshot.state = .leaving ∨
    pair.1.snapshot.state = .idle ∨ pair.1.snapshot.state = .offline
  hosting : pair.2.shown ≠ [] → pair.1.isHosting = false
  /-- The member list is the one that was shown, or empty. -/
  members : ∀ shown ∈ pair.2.shown,
    SameMembers shown pair.1.snapshot ∨ pair.1.snapshot.Cleared

/-- The error is the one that was shown. -/
def ErrorsKept (pair : State × Departed) : Prop :=
  ∀ error ∈ pair.2.errors, pair.1.snapshot.error = error

/-- Positions at which `Run` goes on to write an error of its own. -/
def RunPosition.WritesError : RunPosition → Prop
  | .createFailed | .timedOut | .caught => True
  | _ => False

instance (position : RunPosition) : Decidable position.WritesError := by
  cases position <;> unfold RunPosition.WritesError <;> infer_instance

/-- The position at which the thread of a request that has passed its checks starts. -/
def ApiPosition.StartsThread : ApiPosition → Prop
  | .requestStart _ => True
  | _ => False

instance (position : ApiPosition) : Decidable position.StartsThread := by
  cases position <;> unfold ApiPosition.StartsThread <;> infer_instance

/-- The condition on a step under which the error is kept: after `leave`, `Run` does not
write one, and the thread of a request that has passed its checks does not fail to
start. -/
def WritesNoError (pair : State × Departed) (label : Label) : Prop :=
  match label with
  | .run _ => pair.2.errors ≠ [] → ∀ worker ∈ pair.1.worker, ¬ worker.position.WritesError
  | .api .fail => pair.2.pending ≠ [] → ∀ position ∈ pair.1.api, ¬ position.StartsThread
  | _ => True

instance (pair : State × Departed) (label : Label) : Decidable (WritesNoError pair label) := by
  unfold WritesNoError
  split <;> infer_instance

/-! ## A cancelled session -/

/-- Positions of a request that has been accepted. -/
def ApiPosition.Admits : ApiPosition → Prop
  | .requestPublish _ | .requestUnfinish _ | .requestStart _ | .requestRefinish
  | .requestWithdraw => True
  | _ => False

/-- A session that cannot show anything new. -/
structure State.Muted (s : State) : Prop where
  cancel : s.cancel = true
  api : ∀ position, s.api = some position → ¬ position.Admits

/-- What happens to a snapshot in the meantime. -/
structure Fades (before after : Snapshot) : Prop where
  state : after.state = before.state ∨ after.state = .leaving ∨ after.state = .idle ∨
    after.state = .offline
  members : SameMembers before after ∨ after.Cleared

theorem SameMembers.refl (snapshot : Snapshot) : SameMembers snapshot snapshot := ⟨rfl, rfl⟩

theorem Fades.refl (snapshot : Snapshot) : Fades snapshot snapshot :=
  ⟨.inl rfl, .inl (.refl snapshot)⟩

/-- The callbacks of a cancelled session do nothing. -/
theorem State.invoke?_of_cancel {s : State} (hcancel : s.cancel = true)
    (invocation : Option Invocation) : s.invoke? invocation = s := by
  cases invocation with
  | none => rfl
  | some invocation => cases invocation <;> simp [State.invoke?, State.invoke, hcancel]

/-- A step of a muted session, and the three ways in which it writes an error. -/
structure Mutes (s t : State) (writes : Prop) : Prop where
  muted : t.Muted
  fades : Fades s.snapshot t.snapshot
  error : t.snapshot.error = s.snapshot.error ∨ writes

section Steps

variable {s t : State}

/-- A step that changes neither `cancel` nor the snapshot. -/
theorem State.Muted.pass (muted : s.Muted) {writes : Prop} (hcancel : t.cancel = s.cancel)
    (hsnapshot : t.snapshot = s.snapshot)
    (hapi : ∀ position, t.api = some position → ¬ position.Admits) : Mutes s t writes where
  muted := ⟨hcancel.trans muted.cancel, hapi⟩
  fades := hsnapshot ▸ .refl _
  error := .inl (by rw [hsnapshot])

theorem mutes_callStep {input : ApiInput} (muted : s.Muted) (h : callStep s input = some t) :
    Mutes s t (input = .handle) := by
  unfold callStep at h
  split at h
  all_goals repeat' (split at h)
  all_goals cases h
  all_goals first
    | exact muted.pass rfl rfl (by rintro _ ⟨⟩; exact id)
    | exact muted.pass rfl rfl muted.api
    | exact ⟨⟨muted.cancel, muted.api⟩, ⟨.inl rfl, .inl ⟨rfl, rfl⟩⟩, .inr rfl⟩

/-- The calls that write an error of their own. -/
def ApiPosition.WritesError : ApiPosition → Prop
  | .readyPublish _ _ | .initFailed => True
  | _ => False

/-- A call of a muted session, unless it is an accepted request. -/
theorem mutes_apiStep {input : ApiInput} (muted : s.Muted)
    (huncancel : ∀ accepted, s.api ≠ some (.requestUncancel accepted))
    (h : apiStep s input = some t) :
    Mutes s t (input = .go ∧ ∃ position, s.api = some position ∧ position.WritesError) := by
  cases hapi : s.api with
  | none => simp [apiStep, hapi] at h
  | some position =>
      have hadmits := muted.api position hapi
      cases position with
      | stopCancel cause hash mac =>
          cases input <;> simp only [apiStep, hapi, reduceCtorEq] at h
          cases h
          exact ⟨⟨rfl, by rintro _ ⟨⟩; exact id⟩, .refl _, .inl rfl⟩
      | leaveCancel =>
          cases input <;> simp only [apiStep, hapi, reduceCtorEq] at h
          cases h
          exact ⟨⟨rfl, by rintro _ ⟨⟩; exact id⟩, .refl _, .inl rfl⟩
      | stopJoin cause hash mac =>
          obtain ⟨-, rfl⟩ := apiStep_stopJoin hapi h
          refine muted.pass rfl rfl ?_
          rintro _ ⟨⟩
          split <;> exact id
      | readyPublish hash mac =>
          cases input <;> simp only [apiStep, hapi, reduceCtorEq] at h
          cases h
          exact ⟨⟨muted.cancel, by rintro _ ⟨⟩⟩, ⟨.inr (.inr (.inl rfl)), .inl ⟨rfl, rfl⟩⟩,
            .inr ⟨rfl, _, rfl, trivial⟩⟩
      | initFailed =>
          cases input <;> simp only [apiStep, hapi, reduceCtorEq] at h
          cases h
          exact ⟨⟨muted.cancel, by rintro _ ⟨⟩⟩, ⟨.inl rfl, .inl ⟨rfl, rfl⟩⟩,
            .inr ⟨rfl, _, rfl, trivial⟩⟩
      | offlinePublish cause =>
          cases input <;> simp only [apiStep, hapi, reduceCtorEq] at h
          repeat' split at h
          all_goals cases h
          all_goals exact ⟨⟨muted.cancel, by rintro _ ⟨⟩ <;> exact id⟩,
            ⟨.inr (.inr (.inr rfl)), .inr ⟨rfl, rfl⟩⟩, .inl rfl⟩
      | leavePublish =>
          cases input <;> simp only [apiStep, hapi, reduceCtorEq] at h
          split at h
          · cases h
            exact muted.pass rfl rfl (by rintro _ ⟨⟩)
          · cases h
            exact ⟨⟨muted.cancel, by rintro _ ⟨⟩⟩, ⟨.inr (.inl rfl), .inl ⟨rfl, rfl⟩⟩, .inl rfl⟩
      | requestUncancel accepted => exact absurd hapi (huncancel accepted)
      | requestPublish accepted => exact absurd trivial hadmits
      | requestUnfinish accepted => exact absurd trivial hadmits
      | requestStart accepted => exact absurd trivial hadmits
      | requestRefinish => exact absurd trivial hadmits
      | requestWithdraw => exact absurd trivial hadmits
      | requestJoinWorker accepted =>
          obtain ⟨-, rfl⟩ := apiStep_requestJoinWorker hapi h
          exact muted.pass rfl rfl (by rintro _ ⟨⟩; exact id)
      | _ =>
          cases input <;> simp only [apiStep, hapi, reduceCtorEq] at h
          all_goals repeat' (split at h)
          all_goals cases h
          all_goals exact muted.pass rfl rfl (by rintro _ ⟨⟩ <;> exact id)

theorem memberStep_of_cancel {input : CallerInput} (hcancel : s.cancel = true)
    (h : memberStep s input = some t) : ∃ member, t = { s with member := member } := by
  unfold memberStep at h
  split at h
  · split at h
    · cases h
    · next member _ =>
      cases h
      exact ⟨member, by rw [State.invoke?_of_cancel hcancel]⟩
  · cases h

theorem loopStep_of_cancel {input : LoopInput} (hcancel : s.cancel = true)
    (h : loopStep s input = some t) : ∃ member, t = { s with member := member } := by
  unfold loopStep at h
  split at h
  · cases h
  · next member _ =>
    cases h
    exact ⟨member, by rw [State.invoke?_of_cancel hcancel]⟩

theorem mutes_runStep {worker : Worker} {input : RunInput} (muted : s.Muted)
    (h : runStep s worker input = some t) : Mutes s t worker.position.WritesError := by
  have inside {t : State} {input : CallerInput} (h : memberStep s input = some t) :
      t.cancel = s.cancel ∧ t.snapshot = s.snapshot ∧ t.api = s.api := by
    obtain ⟨member, rfl⟩ := memberStep_of_cancel muted.cancel h
    exact ⟨rfl, rfl, rfl⟩
  unfold runStep at h
  split at h
  all_goals repeat' (split at h)
  all_goals cases h
  all_goals first
    | exact muted.pass rfl rfl muted.api
    | exact ⟨⟨muted.cancel, muted.api⟩, ⟨.inr (.inr (.inl rfl)), .inr ⟨rfl, rfl⟩⟩, .inl rfl⟩
    | (refine ⟨⟨muted.cancel, muted.api⟩, ⟨.inl rfl, .inl ⟨rfl, rfl⟩⟩, .inr ?_⟩
       simp [*, RunPosition.WritesError])
    | (obtain ⟨hcancel, hsnapshot, hapi⟩ := inside ‹memberStep s _ = some _›
       exact muted.pass hcancel hsnapshot fun position h => muted.api position (hapi.symm.trans h))

end Steps

/-! ## Runs -/

/-- Only calls store `cancel` and move a call on. -/
theorem runStep_cancel {s t : State} {worker : Worker} {input : RunInput}
    (h : runStep s worker input = some t) : t.cancel = s.cancel ∧ t.api = s.api := by
  have inside {t : State} {input : CallerInput} (h : memberStep s input = some t) :
      t.cancel = s.cancel ∧ t.api = s.api := by
    obtain ⟨member, snapshot, -, rfl, -⟩ := memberStep_eq h
    exact ⟨rfl, rfl⟩
  unfold runStep at h
  split at h
  all_goals repeat' (split at h)
  all_goals cases h
  all_goals first
    | exact ⟨rfl, rfl⟩
    | (obtain ⟨hcancel, hapi⟩ := inside ‹memberStep s _ = some _›
       exact ⟨hcancel, hapi⟩)

/-- The section of `leave` comes after its store. -/
theorem cancel_of_leavePublish {s : State} (h : system.Reachable s)
    (hapi : s.api = some .leavePublish) : s.cancel = true := by
  refine System.Reachable.invariant (fun s => s.api = some .leavePublish → s.cancel = true)
    (fun s hs hapi => ?_) (fun s label t _ ih hs hapi => ?_) h hapi
  · cases hs
    cases hapi
  · cases label with
    | api input =>
        rcases step_api hs with hs | hs
        · unfold callStep at hs
          split at hs
          all_goals repeat' (split at hs)
          all_goals cases hs
          all_goals first | cases hapi | exact ih hapi
        · unfold apiStep at hs
          split at hs
          all_goals repeat' (split at hs)
          all_goals cases hs
          all_goals first | rfl | cases hapi
    | run input =>
        obtain ⟨worker, -, hs⟩ := Option.bind_eq_some_iff.mp hs
        obtain ⟨hcancel, hsame⟩ := runStep_cancel hs
        exact hcancel.trans (ih (hsame.symm.trans hapi))
    | loop input =>
        obtain ⟨member, snapshot, -, rfl, -⟩ := loopStep_eq hs
        exact ih hapi
    | emulation input =>
        obtain ⟨member, -, rfl⟩ := emulationStep_eq hs
        exact ih hapi
    | other input =>
        obtain ⟨network, current, rfl⟩ := otherStep_eq hs
        exact ih hapi

/-- A step of a muted session, of whichever thread. -/
theorem mutes_step {s t : State} {label : Label} (muted : s.Muted)
    (huncancel : ∀ accepted, s.api ≠ some (.requestUncancel accepted) ∨ label ≠ .api .go)
    (h : step s label = some t) :
    Mutes s t (label = .api .handle ∨
      (label = .api .go ∧ ∃ position, s.api = some position ∧ position.WritesError) ∨
      ∃ input worker, label = .run input ∧ s.worker = some worker ∧
        worker.position.WritesError) := by
  cases label with
  | api input =>
      rcases step_api h with h | h
      · have mutes := mutes_callStep muted h
        exact ⟨mutes.muted, mutes.fades, mutes.error.imp_right fun heq => .inl (by rw [heq])⟩
      · have hnot (accepted : Accepted) : s.api ≠ some (.requestUncancel accepted) := by
          intro hapi
          rcases huncancel accepted with hother | hother
          · exact hother hapi
          · cases input <;> simp only [apiStep, hapi, reduceCtorEq] at h
            exact hother rfl
        have mutes := mutes_apiStep muted hnot h
        exact ⟨mutes.muted, mutes.fades, mutes.error.imp_right fun h =>
          .inr (.inl ⟨by rw [h.1], h.2⟩)⟩
  | run input =>
      obtain ⟨worker, hworker, h⟩ := Option.bind_eq_some_iff.mp h
      have mutes := mutes_runStep muted h
      exact ⟨mutes.muted, mutes.fades, mutes.error.imp_right fun hwrites =>
        .inr (.inr ⟨input, worker, rfl, hworker, hwrites⟩)⟩
  | loop input =>
      obtain ⟨member, rfl⟩ := loopStep_of_cancel muted.cancel h
      exact muted.pass rfl rfl muted.api
  | emulation input =>
      obtain ⟨member, -, rfl⟩ := emulationStep_eq h
      exact muted.pass rfl rfl muted.api
  | other input =>
      obtain ⟨network, current, rfl⟩ := otherStep_eq h
      exact muted.pass rfl rfl muted.api

/-- What a step does to the record. -/
inductive Records (s : State) (label : Label) (departed : Departed) : Departed → Prop
  | leaves (hlabel : label = .api .go) (hapi : s.api = some .leavePublish)
      (hfinished : s.finished = false) :
      Records s label departed
        { departed with
          shown := { s.snapshot with state := .leaving } :: departed.shown
          errors := s.snapshot.error :: departed.errors }
  | setsAside (accepted : Accepted) (hlabel : label = .api .go)
      (hapi : s.api = some (.requestUncancel accepted)) :
      Records s label departed { pending := departed.errors ++ departed.pending }
  | withdraws (hlabel : label = .api .go) (hapi : s.api = some .requestWithdraw) :
      Records s label departed { departed with errors := departed.pending, pending := [] }
  | forgets (huncancel : ∀ accepted, s.api ≠ some (.requestUncancel accepted) ∨ label ≠ .api .go) :
      Records s label departed { departed with errors := [], pending := [] }
  | keeps (huncancel : ∀ accepted, s.api ≠ some (.requestUncancel accepted) ∨ label ≠ .api .go)
      (hhandle : label ≠ .api .handle)
      (hgo : label = .api .go → ∀ position, s.api = some position → ¬ position.WritesError) :
      Records s label departed departed

theorem Departed.records (s : State) (label : Label) (departed : Departed) :
    Records s label departed (departed.observe s label) := by
  unfold Departed.observe
  split
  · exact .forgets fun _ => .inr (by simp)
  · split
    · next hapi =>
      cases hfinished : s.finished with
      | true =>
          refine .keeps (fun _ => .inl (by simp [hapi])) (by simp) fun _ position hposition => ?_
          cases hapi.symm.trans hposition
          exact id
      | false => exact .leaves rfl hapi hfinished
    · next accepted hapi => exact .setsAside accepted rfl hapi
    · next hapi => exact .forgets fun _ => .inl (by simp [hapi])
    · next hapi => exact .withdraws rfl hapi
    · next hapi => exact .forgets fun _ => .inl (by simp [hapi])
    · next hapi => exact .forgets fun _ => .inl (by simp [hapi])
    · next hleave huncancel hstart hwithdraw hready hinit =>
      refine .keeps (fun accepted => .inl (huncancel accepted)) (by simp)
        fun _ position hposition hwrites => ?_
      cases position <;> first | exact hwrites.elim | skip
      · exact hinit hposition
      · exact hready _ _ hposition
  · next hhandle hgo => exact .keeps (fun _ => .inr hgo) hhandle fun h => absurd h hgo

/-- What is known while departures are on record. -/
structure DepartedFacts (s : State) (departed : Departed) : Prop where
  muted : departed.shown ≠ [] → s.Muted
  state : departed.shown ≠ [] → s.snapshot.state = .leaving ∨ s.snapshot.state = .idle ∨
    s.snapshot.state = .offline
  members : ∀ shown ∈ departed.shown, SameMembers shown s.snapshot ∨ s.snapshot.Cleared

theorem Fades.sameMembers {shown before after : Snapshot} (fades : Fades before after)
    (h : SameMembers shown before ∨ before.Cleared) :
    SameMembers shown after ∨ after.Cleared := by
  rcases fades.members with same | cleared
  · exact h.imp (fun h => ⟨same.memberCount.trans h.memberCount, same.members.trans h.members⟩)
      fun h => ⟨same.memberCount.trans h.memberCount, same.members.trans h.members⟩
  · exact .inr cleared

/-- The section of `leave` shows that an active session is leaving. -/
theorem leavePublish_go {s t : State} (hapi : s.api = some .leavePublish)
    (hfinished : s.finished = false) (h : step s (.api .go) = some t) :
    t = (s.publish fun snapshot => { snapshot with state := .leaving }).release := by
  simpa [step, apiStep, hapi, hfinished, eq_comm] using h

/-- A step of a muted session keeps what is known of the departures on record. -/
theorem departedFacts_mutes {s t : State} {label : Label} {departed record : Departed}
    (facts : DepartedFacts s departed)
    (huncancel : ∀ accepted, s.api ≠ some (.requestUncancel accepted) ∨ label ≠ .api .go)
    (h : step s label = some t) (hshown : record.shown = departed.shown) :
    DepartedFacts t record := by
  have mutes (hsome : departed.shown ≠ []) := mutes_step (facts.muted hsome) huncancel h
  refine ⟨?_, ?_, ?_⟩ <;> rw [hshown]
  · exact fun hsome => (mutes hsome).muted
  · intro hsome
    rcases (mutes hsome).fades.state with hsame | hnew
    · rw [hsame]
      exact facts.state hsome
    · exact hnew
  · intro shown hmem
    exact (mutes (List.ne_nil_of_mem hmem)).fades.sameMembers (facts.members shown hmem)

theorem departedFacts_nil (s : State) (pending : List ℕ) :
    DepartedFacts s { pending := pending } :=
  ⟨fun h => absurd rfl h, fun h => absurd rfl h, by simp⟩

theorem departedFacts_step {s t : State} {label : Label} {departed : Departed}
    (hreachable : system.Reachable s) (facts : DepartedFacts s departed)
    (h : step s label = some t) : DepartedFacts t (departed.observe s label) := by
  have records := departed.records s label
  generalize departed.observe s label = record at records
  cases records with
  | leaves hlabel hapi hfinished =>
      have hcancel := cancel_of_leavePublish hreachable hapi
      subst hlabel
      obtain rfl := leavePublish_go hapi hfinished h
      refine ⟨fun _ => ⟨hcancel, by simp [State.release]⟩, fun _ => .inl rfl,
        fun shown hmem => ?_⟩
      rcases List.mem_cons.mp hmem with rfl | hold
      · exact .inl ⟨rfl, rfl⟩
      · exact (facts.members shown hold).imp (fun h => ⟨h.memberCount, h.members⟩)
          fun h => ⟨h.memberCount, h.members⟩
  | setsAside accepted hlabel hapi => exact departedFacts_nil t _
  | withdraws hlabel hapi =>
      exact departedFacts_mutes facts (fun _ => .inl (by simp [hapi])) h rfl
  | forgets huncancel => exact departedFacts_mutes facts huncancel h rfl
  | keeps huncancel hhandle hgo => exact departedFacts_mutes facts huncancel h rfl

theorem departedFacts_of_reachable {pair : State × Departed} (h : departing.Reachable pair) :
    DepartedFacts pair.1 pair.2 := by
  refine h.invariant (fun pair => DepartedFacts pair.1 pair.2) (fun pair hpair => ?_)
    (fun source label target prior facts hstep => ?_)
  · obtain ⟨s, departed⟩ := pair
    obtain ⟨hs, hdeparted⟩ := hpair
    cases (show s = {} from hs)
    cases (show departed = {} from hdeparted)
    exact departedFacts_nil {} []
  · obtain ⟨hs, hrecord⟩ := System.observed_step_iff.mp hstep
    rw [hrecord]
    exact departedFacts_step (System.Reachable.of_observed prior) facts hs

/-! ### The error -/

/-- Positions of a request whose thread has not started. -/
def ApiPosition.Fails : ApiPosition → Prop
  | .requestRefinish | .requestWithdraw => True
  | _ => False

/-- A request fails when its thread does not start. -/
theorem fails_step {s t : State} {label : Label} {position : ApiPosition}
    (h : step s label = some t) (hapi : t.api = some position) (hfails : position.Fails) :
    (∃ before, s.api = some before ∧ before.Fails) ∨
      (label = .api .fail ∧ ∃ before, s.api = some before ∧ before.StartsThread) := by
  cases label with
  | api input =>
      rcases step_api h with h | h
      · unfold callStep at h
        split at h
        all_goals repeat' (split at h)
        all_goals cases h
        all_goals first | (cases hapi; exact hfails.elim) | exact .inl ⟨_, hapi, hfails⟩
      · unfold apiStep at h
        split at h
        all_goals repeat' (split at h)
        all_goals cases h
        all_goals cases hapi
        all_goals first
          | exact hfails.elim
          | exact .inl ⟨.requestRefinish, by assumption, trivial⟩
          | exact .inr ⟨rfl, .requestStart _, by assumption, trivial⟩
  | run input =>
      obtain ⟨worker, -, h⟩ := Option.bind_eq_some_iff.mp h
      exact .inl ⟨position, (runStep_cancel h).2 ▸ hapi, hfails⟩
  | loop input =>
      obtain ⟨member, snapshot, -, rfl, -⟩ := loopStep_eq h
      exact .inl ⟨position, hapi, hfails⟩
  | emulation input =>
      obtain ⟨member, -, rfl⟩ := emulationStep_eq h
      exact .inl ⟨position, hapi, hfails⟩
  | other input =>
      obtain ⟨network, current, rfl⟩ := otherStep_eq h
      exact .inl ⟨position, hapi, hfails⟩

/-- What is known of the errors on record while no step writes one. -/
structure ErrorFacts (s : State) (departed : Departed) : Prop where
  noted : departed.errors ≠ [] → departed.shown ≠ []
  /-- A request that fails has set nothing aside. -/
  settled : ∀ position, s.api = some position → position.Fails → departed.pending = []
  kept : ErrorsKept (s, departed)

/-- A step that does not write an error after `leave` keeps it. -/
theorem error_of_keeps {s t : State} {label : Label} {departed : Departed}
    (departs : DepartedFacts s departed) (facts : ErrorFacts s departed)
    (ok : WritesNoError (s, departed) label) (hsome : departed.errors ≠ [])
    (huncancel : ∀ accepted, s.api ≠ some (.requestUncancel accepted) ∨ label ≠ .api .go)
    (hhandle : label ≠ .api .handle)
    (hgo : label = .api .go → ∀ position, s.api = some position → ¬ position.WritesError)
    (h : step s label = some t) : t.snapshot.error = s.snapshot.error := by
  rcases (mutes_step (departs.muted (facts.noted hsome)) huncancel h).error with
    hsame | rfl | ⟨rfl, position, hapi, hwrites⟩ | ⟨input, worker, rfl, hworker, hwrites⟩
  · exact hsame
  · exact absurd rfl hhandle
  · exact absurd hwrites (hgo rfl position hapi)
  · exact absurd hwrites (ok hsome worker hworker)

theorem errorFacts_step {s t : State} {label : Label} {departed : Departed}
    (departs : DepartedFacts s departed) (facts : ErrorFacts s departed)
    (ok : WritesNoError (s, departed) label) (h : step s label = some t) :
    ErrorFacts t (departed.observe s label) := by
  have unfailing {before : ApiPosition} (hbefore : s.api = some before) (hfine : ¬ before.Fails)
      (hlabel : label ≠ .api .fail) (position : ApiPosition) (hapi : t.api = some position)
      (hposition : position.Fails) : False := by
    rcases fails_step h hapi hposition with ⟨other, hother, hbad⟩ | ⟨hfail, -⟩
    · cases hbefore.symm.trans hother
      exact hfine hbad
    · exact hlabel hfail
  have records := departed.records s label
  generalize departed.observe s label = record at records
  cases records with
  | leaves hlabel hapi hfinished =>
      subst hlabel
      refine ⟨fun _ => by simp, fun position hposition hbad =>
        (unfailing hapi id (by simp) position hposition hbad).elim, fun error hmem => ?_⟩
      obtain rfl := leavePublish_go hapi hfinished h
      rcases List.mem_cons.mp hmem with rfl | hold
      · rfl
      · exact facts.kept error hold
  | setsAside accepted hlabel hapi =>
      subst hlabel
      exact ⟨fun hsome => absurd rfl hsome, fun position hposition hbad =>
        (unfailing hapi id (by simp) position hposition hbad).elim, by simp [ErrorsKept]⟩
  | withdraws hlabel hapi =>
      have hnone := facts.settled .requestWithdraw hapi trivial
      exact ⟨fun hsome => absurd hnone hsome, fun _ _ _ => rfl, by simp [ErrorsKept, hnone]⟩
  | forgets huncancel =>
      exact ⟨fun hsome => absurd rfl hsome, fun _ _ _ => rfl, by simp [ErrorsKept]⟩
  | keeps huncancel hhandle hgo =>
      refine ⟨facts.noted, fun position hposition hbad => ?_, fun error hmem => ?_⟩
      · rcases fails_step h hposition hbad with ⟨before, hbefore, hbad⟩ |
          ⟨rfl, before, hbefore, hstarts⟩
        · exact facts.settled before hbefore hbad
        · by_contra hsome
          exact ok hsome before hbefore hstarts
      · exact (error_of_keeps departs facts ok (List.ne_nil_of_mem hmem) huncancel hhandle hgo
          h).trans (facts.kept error hmem)

theorem errorFacts_of_writesNoError {pair : State × Departed}
    (h : departing.ReachableVia WritesNoError pair) : ErrorFacts pair.1 pair.2 := by
  refine h.invariant (fun pair => ErrorFacts pair.1 pair.2) (fun pair hpair => ?_)
    (fun source label target prior ok facts hstep => ?_)
  · obtain ⟨hs, hdeparted⟩ := hpair
    rw [hs, hdeparted]
    exact ⟨fun hsome => absurd rfl hsome, fun _ _ _ => rfl, by simp [ErrorsKept]⟩
  · obtain ⟨hs, hrecord⟩ := System.observed_step_iff.mp hstep
    rw [hrecord]
    exact errorFacts_step (departedFacts_of_reachable prior.reachable) facts ok hs

/-! ## The results -/

/-- **After `leave` nothing comes back.** -/
theorem staysLeft_of_reachable {pair : State × Departed} (h : departing.Reachable pair) :
    StaysLeft pair where
  state := (departedFacts_of_reachable h).state
  hosting hsome := by
    rcases (departedFacts_of_reachable h).state hsome with hstate | hstate | hstate <;>
      simp [State.isHosting, hstate]
  members := (departedFacts_of_reachable h).members

/-- The room is full, and the user has left before the loop thread says so. -/
def leavesFullRoom : List Label :=
  joinConnects ++ .api .callLeave :: apiGoes 2 ++ roomIsFull

theorem staysLeft_leavesFullRoom :
    ∃ pair : State × Departed,
      (pair.2.shown.length = 1 ∧ pair.1.snapshot.state = .leaving ∧ pair.1.snapshot.error = 0) ∧
        StaysLeft pair := by
  obtain ⟨pair, hreach, hends⟩ :=
    System.exists_reachable_of_run (show departing.init ({}, {}) from ⟨rfl, rfl⟩) leavesFullRoom
      (fun pair => pair.2.shown.length = 1 ∧ pair.1.snapshot.state = .leaving ∧
        pair.1.snapshot.error = 0) (by decide +kernel)
  exact ⟨pair, hends, staysLeft_of_reachable hreach⟩

/-- The user leaves before `Run` joins, and `Run` returns. -/
def leavesSession : List Label :=
  initializes ++ getsReady ++ accepts joinRequest ++ .api .callLeave :: apiGoes 2 ++ runGoes 2 ++
    memberLeaves ++ runGoes 2

/-- The user asks for another session, up to the first snapshot that shows it. -/
def asksAgain : List Label := .api (.callRequest joinRequest) :: apiGoes 5

/-- Its thread does not start. -/
def startFails : List Label := apiGoes 1 ++ .api .fail :: apiGoes 2

/-- **A session can seem to come back after `leave`** although no request was accepted:
one that has passed its checks shows that it is joining before its thread starts, and
then it does not start. -/
theorem joining_after_leave :
    ∃ left, departing.Reachable left ∧ left.2.shown.length = 1 ∧
      ∃ shows, system.run left.1 asksAgain = some shows ∧ shows.snapshot.state = .joining ∧
        ∃ refused, system.run shows startFails = some refused ∧ refused.result = some (-1) ∧
          refused.session = left.1.session := by
  obtain ⟨left, hreach, hleft, hends⟩ :=
    System.exists_reachable_of_run (show departing.init ({}, {}) from ⟨rfl, rfl⟩) leavesSession
      (fun left => left.2.shown.length = 1 ∧
        ((system.run left.1 asksAgain).any fun shows => shows.snapshot.state = .joining &&
          (system.run shows startFails).any fun refused =>
            refused.result = some (-1) && refused.session = left.1.session) = true)
      (by decide +kernel)
  obtain ⟨shows, hshows, hjoins⟩ := (Option.any_eq_true _ _).mp hends
  obtain ⟨hjoining, hfails⟩ := (Bool.and_eq_true _ _).mp hjoins
  obtain ⟨refused, hrefused, hanswer⟩ := (Option.any_eq_true _ _).mp hfails
  obtain ⟨hresult, hsession⟩ := (Bool.and_eq_true _ _).mp hanswer
  exact ⟨left, hreach, hleft, shows, hshows, of_decide_eq_true hjoining, refused, hrefused,
    of_decide_eq_true hresult, of_decide_eq_true hsession⟩

/-- **The error is kept after `leave`**, in every run in which `Run` does not write one
after it and every request that passes its checks starts its thread. -/
theorem errorsKept_of_writesNoError {pair : State × Departed}
    (h : departing.ReachableVia WritesNoError pair) : ErrorsKept pair :=
  (errorFacts_of_writesNoError h).kept

theorem errorsKept_leavesFullRoom :
    ∃ pair : State × Departed,
      (pair.2.errors = [0] ∧ pair.1.snapshot.state = .leaving) ∧ ErrorsKept pair := by
  obtain ⟨pair, hreach, hends⟩ :=
    System.exists_reachableVia_of_runVia WritesNoError
      (show departing.init ({}, {}) from ⟨rfl, rfl⟩) leavesFullRoom
      (fun pair => pair.2.errors = [0] ∧ pair.1.snapshot.state = .leaving) (by decide +kernel)
  exact ⟨pair, hends, errorsKept_of_writesNoError hreach⟩

/-- The user leaves while the room is being created, which fails. -/
def leavesBeforeRoom : List Label :=
  initializes ++ getsReady ++ accepts hostRequest ++ runGoes 2 ++ .api .callLeave :: apiGoes 2 ++
    [.run (.created false)] ++ runGoes 1

/-- **An error can come after `leave`**: no error was shown when it returned, and then
that the room could not be created. -/
theorem error_after_leave :
    ∃ pair, departing.Reachable pair ∧ pair.2.errors = [0] ∧ pair.1.snapshot.error = 102 ∧
      ¬ ErrorsKept pair := by
  obtain ⟨pair, hreach, herrors, hshown⟩ :=
    System.exists_reachable_of_run (show departing.init ({}, {}) from ⟨rfl, rfl⟩) leavesBeforeRoom
      (fun pair => pair.2.errors = [0] ∧ pair.1.snapshot.error = 102) (by decide +kernel)
  refine ⟨pair, hreach, herrors, hshown, fun kept => ?_⟩
  have hzero := kept 0 (by simp [herrors])
  omega

end ManicRoom.Session
