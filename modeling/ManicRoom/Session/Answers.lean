/-
# What join and host answer

A call of `join` or `host` takes its steps between those of the other threads. The steps that
it has taken itself are recorded here next to the state, so that what a call has changed is
known when it returns: nothing where it refuses, and a bridge that is idle again where the
thread does not start.
-/

import ManicRoom.Session.Arguments
import ManicRoom.Session.Invariant

namespace ManicRoom.Session

open ManicRoom.Foundation

/-! ## Calls -/

/-- A step of the call that holds `api_mutex`. -/
def Label.Own (label : Label) : Prop :=
  label = .api .go ∨ label = .api .fail ∨ label = .api .throw

/-- A step of a call: the state before it and the state after it. -/
abbrev Change := State × State

/-- A call of `join` or `host` whose arguments were accepted is in progress, and has itself
taken these steps. -/
inductive Underway (accepted : Accepted) : State → List Change → Prop
  | call {s t : State} {request : Request} : system.Reachable s →
      request.check = some accepted → step s (.api (.callRequest request)) = some t →
      Underway accepted t [(s, t)]
  | own {s t : State} {label : Label} {changes : List Change} : Underway accepted s changes →
      label.Own → step s label = some t → t.api ≠ none →
      Underway accepted t (changes ++ [(s, t)])
  | other {s t : State} {label : Label} {changes : List Change} : Underway accepted s changes →
      ¬ label.Own → step s label = some t → Underway accepted t changes

/-- The call returns this value from its last step. -/
def Returns (accepted : Accepted) (value : ℤ) (changes : List Change) (s t : State) : Prop :=
  Underway accepted s changes ∧ t.api = none ∧ t.result = some value ∧
    ∃ label : Label, label.Own ∧ step s label = some t

/-- What a refused call leaves alone. -/
structure Untouched (change : Change) : Prop where
  snapshot : change.2.snapshot = change.1.snapshot
  hostMode : change.2.hostMode = change.1.hostMode
  cancel : change.2.cancel = change.1.cancel
  finished : change.2.finished = change.1.finished
  worker : change.2.worker = change.1.worker

/-- A step that shows a bridge that is joining, without an error and without members. -/
structure Announces (accepted : Accepted) (change : Change) : Prop where
  state : change.2.snapshot.state = .joining
  error : change.2.snapshot.error = 0
  cleared : change.2.snapshot.Cleared
  hostMode : change.2.hostMode = accepted.host
  worker : change.2.worker = none

/-! ## Steps beside the call -/

/-- Nobody else moves the call on. -/
theorem api_of_not_own {s t : State} {label : Label} {position : ApiPosition}
    (hapi : s.api = some position) (hown : ¬ label.Own) (h : step s label = some t) :
    t.api = some position := by
  cases label with
  | api input =>
      have hcall : callStep s input = some t := by
        cases input <;> first | exact h | exact absurd (by simp [Label.Own]) hown
      unfold callStep at hcall
      split at hcall
      all_goals repeat' (split at hcall)
      all_goals cases hcall
      all_goals first
        | exact hapi
        | exact absurd ‹s.api = none› (by simp [hapi])
  | run input =>
      obtain ⟨worker, -, h⟩ := Option.bind_eq_some_iff.mp h
      exact (runStep_api h).trans hapi
  | loop input =>
      obtain ⟨member, snapshot, -, rfl, -⟩ := loopStep_eq h
      exact hapi
  | emulation input =>
      obtain ⟨member, -, rfl⟩ := emulationStep_eq h
      exact hapi
  | other input =>
      obtain ⟨network, current, rfl⟩ := otherStep_eq h
      exact hapi

/-- Without a worker, nobody else shows members or takes the announcement back. -/
structure Undisturbed (s t : State) : Prop where
  state : t.snapshot.state = s.snapshot.state
  memberCount : t.snapshot.memberCount = s.snapshot.memberCount
  members : t.snapshot.members = s.snapshot.members
  hostMode : t.hostMode = s.hostMode

theorem undisturbed_of_not_own {s t : State} {label : Label} (inv : Wellformed s)
    (hworker : s.worker = none) (hown : ¬ label.Own) (h : step s label = some t) :
    Undisturbed s t := by
  cases label with
  | api input =>
      have hcall : callStep s input = some t := by
        cases input <;> first | exact h | exact absurd (by simp [Label.Own]) hown
      unfold callStep at hcall
      split at hcall
      all_goals repeat' (split at hcall)
      all_goals cases hcall
      all_goals exact ⟨rfl, rfl, rfl, rfl⟩
  | run input =>
      obtain ⟨worker, hsome, -⟩ := Option.bind_eq_some_iff.mp h
      simp [hworker] at hsome
  | loop input =>
      obtain ⟨member, snapshot, hmember, rfl, -⟩ := loopStep_eq h
      obtain ⟨worker, hsome, -⟩ := inv.active_of_loop (Member.loopStep_thread hmember).1
      simp [hworker] at hsome
  | emulation input =>
      obtain ⟨member, -, rfl⟩ := emulationStep_eq h
      exact ⟨rfl, rfl, rfl, rfl⟩
  | other input =>
      obtain ⟨network, current, rfl⟩ := otherStep_eq h
      exact ⟨rfl, rfl, rfl, rfl⟩

theorem Undisturbed.cleared {s t : State} (h : Undisturbed s t) (hcleared : s.snapshot.Cleared) :
    t.snapshot.Cleared :=
  ⟨h.memberCount.trans hcleared.memberCount, h.members.trans hcleared.members⟩

/-! ## The progress of a call -/

/-- The call has announced itself, and still shows it. -/
structure Announced (accepted : Accepted) (s : State) (changes : List Change) : Prop where
  announces : ∃ change ∈ changes, Announces accepted change
  cleared : s.snapshot.Cleared

/-- What a call has done at a position. -/
def ApiPosition.Progress (accepted : Accepted) (s : State) (changes : List Change) :
    ApiPosition → Prop
  | .requestReady other | .requestFinished other | .requestJoinWorker other =>
      other = accepted ∧ ∀ change ∈ changes, Untouched change
  | .requestUncancel other | .requestPublish other => other = accepted
  | .requestUnfinish other | .requestStart other =>
      other = accepted ∧ Announced accepted s changes
  | .requestRefinish | .requestWithdraw => s.snapshot.Cleared
  | _ => False

theorem untouched_append {changes : List Change} {s t : State}
    (h : ∀ change ∈ changes, Untouched change) (hlast : Untouched (s, t)) :
    ∀ change ∈ changes ++ [(s, t)], Untouched change := by
  intro change hchange
  rcases List.mem_append.mp hchange with hchange | hchange
  · exact h change hchange
  · rw [List.mem_singleton.mp hchange]
    exact hlast

theorem Underway.reachable {accepted : Accepted} {s : State} {changes : List Change}
    (h : Underway accepted s changes) : system.Reachable s := by
  have steps {s t : State} {label : Label} (prior : system.Reachable s)
      (hstep : step s label = some t) : system.Reachable t :=
    System.Reachable.step label prior hstep
  induction h with
  | call hreach _ hstep => exact steps hreach hstep
  | own _ _ hstep _ ih => exact steps ih hstep
  | other _ _ hstep ih => exact steps ih hstep

theorem Label.Own.apiStep {s t : State} {label : Label} (hown : label.Own)
    (h : step s label = some t) : ∃ input, apiStep s input = some t := by
  rcases hown with rfl | rfl | rfl
  · exact ⟨.go, h⟩
  · exact ⟨.fail, h⟩
  · exact ⟨.throw, h⟩

/-- Where a step of the call itself leads from a position of it: on, or to its answer. -/
structure Answered (accepted : Accepted) (changes : List Change) (s t : State) : Prop where
  refused : t.result = some 2 ∨ t.result = some 3 →
    ∀ change ∈ changes ++ [(s, t)], Untouched change
  failed : t.result = some (-1) → t.snapshot.state = .idle ∧ t.snapshot.error = 100 ∧
    t.snapshot.Cleared ∧ t.hostMode = false ∧ t.finished = true ∧ t.worker = none ∧
    t.ready = true
  started : t.result = some 0 → (∃ change ∈ changes, Announces accepted change) ∧
    s.worker = none ∧ ∃ worker, t.worker = some worker ∧ worker.arguments.accepted = accepted
  values : t.result = some 0 ∨ t.result = some 2 ∨ t.result = some 3 ∨ t.result = some (-1)

/-- A call that answers 2 or 3 has left everything alone. -/
theorem answered_refused {accepted : Accepted} {changes : List Change} {s : State} {value : ℤ}
    (hvalue : value = 2 ∨ value = 3) (huntouched : ∀ change ∈ changes, Untouched change) :
    Answered accepted changes s (s.answer value) where
  refused _ := untouched_append huntouched ⟨rfl, rfl, rfl, rfl, rfl⟩
  failed h := by
    have hresult : value = -1 := Option.some.inj h
    omega
  started h := by
    have hresult : value = 0 := Option.some.inj h
    omega
  values := by
    rcases hvalue with rfl | rfl
    · exact .inr (.inl rfl)
    · exact .inr (.inr (.inl rfl))

/-- A step of the call itself takes it on, or to its answer. -/
theorem progress_apiStep {accepted : Accepted} {changes : List Change} {s t : State}
    {position : ApiPosition} {input : ApiInput} (inv : Wellformed s)
    (hapi : s.api = some position) (progress : position.Progress accepted s changes)
    (h : apiStep s input = some t) :
    (∃ next, t.api = some next ∧ next.Progress accepted t (changes ++ [(s, t)])) ∨
      t.api = none ∧ Answered accepted changes s t := by
  have facts := inv.api position hapi
  cases position with
  | requestReady other =>
      obtain ⟨rfl, huntouched⟩ := progress
      cases input <;> simp only [apiStep, hapi, reduceCtorEq] at h
      split at h
      · cases h
        exact .inl ⟨_, rfl, rfl, untouched_append huntouched ⟨rfl, rfl, rfl, rfl, rfl⟩⟩
      · cases h
        exact .inr ⟨rfl, answered_refused (.inl rfl) huntouched⟩
  | requestFinished other =>
      obtain ⟨rfl, huntouched⟩ := progress
      cases input <;> simp only [apiStep, hapi, reduceCtorEq] at h
      split at h
      · cases h
        exact .inl ⟨_, rfl, rfl, untouched_append huntouched ⟨rfl, rfl, rfl, rfl, rfl⟩⟩
      · cases h
        exact .inr ⟨rfl, answered_refused (.inr rfl) huntouched⟩
  | requestJoinWorker other =>
      obtain ⟨rfl, -⟩ := progress
      cases input <;> simp only [apiStep, hapi, reduceCtorEq] at h
      split at h
      · cases h
        exact .inl ⟨_, rfl, rfl⟩
      · split at h
        · cases h
          exact .inl ⟨_, rfl, rfl⟩
        · cases h
  | requestUncancel other =>
      have heq : other = accepted := progress
      cases input <;> simp only [apiStep, hapi, reduceCtorEq] at h
      cases h
      exact .inl ⟨_, rfl, heq⟩
  | requestPublish other =>
      have heq : other = accepted := progress
      subst heq
      cases input <;> simp only [apiStep, hapi, reduceCtorEq] at h
      cases h
      refine .inl ⟨_, rfl, rfl, ?_, ⟨rfl, rfl⟩⟩
      exact ⟨_, List.mem_append_right _ (List.mem_singleton_self _),
        ⟨rfl, rfl, ⟨rfl, rfl⟩, rfl, facts.2.2⟩⟩
  | requestUnfinish other =>
      obtain ⟨rfl, ⟨change, hchange, hannounces⟩, hcleared⟩ := progress
      cases input <;> simp only [apiStep, hapi, reduceCtorEq] at h
      cases h
      exact .inl ⟨_, rfl, rfl, ⟨change, List.mem_append_left _ hchange, hannounces⟩, hcleared⟩
  | requestStart other =>
      obtain ⟨rfl, hannounces, hcleared⟩ := progress
      cases input <;> simp only [apiStep, hapi, reduceCtorEq] at h
      · cases h
        refine .inr ⟨rfl, ?_, ?_, ?_, .inl rfl⟩
        · intro hresult
          rcases hresult with hresult | hresult <;> cases hresult
        · intro hresult
          cases hresult
        · intro _
          exact ⟨hannounces, facts.2.2, _, rfl, rfl⟩
      · cases h
        exact .inl ⟨_, rfl, hcleared⟩
  | requestRefinish =>
      have hcleared : s.snapshot.Cleared := progress
      cases input <;> simp only [apiStep, hapi, reduceCtorEq] at h
      cases h
      exact .inl ⟨_, rfl, hcleared⟩
  | requestWithdraw =>
      have hcleared : s.snapshot.Cleared := progress
      cases input <;> simp only [apiStep, hapi, reduceCtorEq] at h
      cases h
      refine .inr ⟨rfl, ?_, ?_, ?_, .inr (.inr (.inr rfl))⟩
      · intro hresult
        rcases hresult with hresult | hresult <;> cases hresult
      · intro _
        exact ⟨rfl, rfl, ⟨hcleared.memberCount, hcleared.members⟩, rfl, facts.2.1, facts.2.2,
          facts.1⟩
      · intro hresult
        cases hresult
  | _ => exact progress.elim

/-- A step of another thread leaves the progress of the call alone. -/
theorem progress_other {accepted : Accepted} {changes : List Change} {s t : State}
    {position : ApiPosition} {label : Label} (inv : Wellformed s)
    (hapi : s.api = some position) (progress : position.Progress accepted s changes)
    (hown : ¬ label.Own) (h : step s label = some t) :
    position.Progress accepted t changes := by
  have facts := inv.api position hapi
  cases position with
  | requestUnfinish other =>
      obtain ⟨heq, hannounces, hcleared⟩ := progress
      exact ⟨heq, hannounces, (undisturbed_of_not_own inv facts.2.2 hown h).cleared hcleared⟩
  | requestStart other =>
      obtain ⟨heq, hannounces, hcleared⟩ := progress
      exact ⟨heq, hannounces, (undisturbed_of_not_own inv facts.2.2 hown h).cleared hcleared⟩
  | requestRefinish => exact (undisturbed_of_not_own inv facts.2.2 hown h).cleared progress
  | requestWithdraw => exact (undisturbed_of_not_own inv facts.2.2 hown h).cleared progress
  | _ => exact progress

theorem Underway.progress {accepted : Accepted} {s : State} {changes : List Change}
    (h : Underway accepted s changes) :
    ∃ position, s.api = some position ∧ position.Progress accepted s changes := by
  induction h with
  | @call s t request _ hcheck hstep =>
      have hstep : callStep s (.callRequest request) = some t := hstep
      simp only [callStep, hcheck] at hstep
      split at hstep
      · cases hstep
        refine ⟨_, rfl, rfl, ?_⟩
        intro change hchange
        rw [List.mem_singleton.mp hchange]
        exact ⟨rfl, rfl, rfl, rfl, rfl⟩
      · cases hstep
  | own hunderway hown hstep hapi ih =>
      obtain ⟨position, hposition, progress⟩ := ih
      obtain ⟨input, hstep⟩ := hown.apiStep hstep
      have inv := wellformed_of_reachable hunderway.reachable
      rcases progress_apiStep inv hposition progress hstep with hnext | ⟨hnone, -⟩
      · exact hnext
      · exact absurd hnone hapi
  | other hunderway hown hstep ih =>
      obtain ⟨position, hposition, progress⟩ := ih
      have inv := wellformed_of_reachable hunderway.reachable
      exact ⟨position, api_of_not_own hposition hown hstep,
        progress_other inv hposition progress hown hstep⟩

/-- Where the bridge is ready and idle, a request with valid arguments starts a worker. -/
theorem started_of_idle {s : State} {request : Request} {accepted : Accepted}
    (hapi : s.api = none) (hready : s.ready = true) (hfinished : s.finished = true)
    (hworker : s.worker = none) (hcheck : request.check = some accepted) :
    ∃ t, system.run s (accepts request) = some t ∧ t.result = some 0 ∧ t.worker.isSome := by
  simp [accepts, apiGoes, List.replicate, System.run, system, step, callStep, apiStep, hcheck,
    hapi, hready, hfinished, hworker, State.apiAt, State.publish]

/-! ## The result -/

/-- What the checks of the arguments are. -/
structure ArgumentsDocumented : Prop where
  join : ∀ (address nickname secret : CString) (port : UInt32)
    (addressText nicknameText secretText : Option Bytes), Denotes address addressText →
    Denotes nickname nicknameText → Denotes secret secretText →
    ((Request.join address port nickname secret).check = none ↔
      ¬ (Accepts ValidAddress addressText ∧ (1 ≤ port.toNat ∧ port.toNat ≤ 65535) ∧
        Accepts ValidNickname nicknameText ∧ Accepts ValidSecret secretText))
  host : ∀ (nickname secret : CString) (port : UInt32) (nicknameText secretText : Option Bytes),
    Denotes nickname nicknameText → Denotes secret secretText →
    ((Request.host port nickname secret).check = none ↔
      ¬ ((1 ≤ port.toNat ∧ port.toNat ≤ 65535) ∧
        Accepts ValidNickname nicknameText ∧ Accepts ValidSecret secretText))
  bounded : ∀ (text rest : Bytes) (limit : ℕ), 0 ∉ text →
    boundedIn (readable text limit) limit = some (bounded (some (text ++ 0 :: rest)) limit)
  ipv4 : ∀ ip : Bytes, ipv4At ip = some (ipv4 ip)

/-- What the calls answer, and what they have done by then. -/
structure AnswersClean : Prop where
  /-- Arguments that fail their checks are answered with 1 at once, and nothing changes. -/
  invalid : ∀ (s t : State) (request : Request), request.check = none →
    step s (.api (.callRequest request)) = some t → t = { s with result := some 1 }
  /-- Other arguments are never answered with 1. -/
  valid : ∀ accepted value changes s t, Returns accepted value changes s t →
    value = 0 ∨ value = 2 ∨ value = 3 ∨ value = -1
  /-- A call that answers 2 or 3 has changed nothing. -/
  refused : ∀ accepted value changes s t, Returns accepted value changes s t →
    value = 2 ∨ value = 3 → ∀ change ∈ changes ++ [(s, t)], Untouched change
  /-- A call whose thread does not start leaves an idle bridge, which can be used again. -/
  failed : ∀ accepted changes s t, Returns accepted (-1) changes s t →
    (t.snapshot.state = .idle ∧ t.snapshot.error = 100 ∧ t.snapshot.Cleared ∧
      t.hostMode = false ∧ t.finished = true) ∧
    ∀ request later, Request.check request = some later →
      ∃ u, system.run t (accepts request) = some u ∧ u.result = some 0 ∧ u.worker.isSome
  /-- A call that answers 0 has announced itself before it started its worker. -/
  started : ∀ accepted changes s t, Returns accepted 0 changes s t →
    (∃ change ∈ changes, Announces accepted change) ∧ s.worker = none ∧
      ∃ worker, t.worker = some worker ∧ worker.arguments.accepted = accepted

theorem Returns.answered {accepted : Accepted} {value : ℤ} {changes : List Change} {s t : State}
    (h : Returns accepted value changes s t) : Answered accepted changes s t := by
  obtain ⟨hunderway, hapi, -, label, hown, hstep⟩ := h
  obtain ⟨position, hposition, progress⟩ := hunderway.progress
  obtain ⟨input, hstep⟩ := hown.apiStep hstep
  have inv := wellformed_of_reachable hunderway.reachable
  rcases progress_apiStep inv hposition progress hstep with ⟨next, hnext, -⟩ | ⟨-, hanswered⟩
  · rw [hapi] at hnext
    cases hnext
  · exact hanswered

theorem answersClean : AnswersClean where
  invalid s t request hcheck hstep := by
    have hcall : callStep s (.callRequest request) = some t := hstep
    simp only [callStep, hcheck, Option.some.injEq] at hcall
    exact hcall.symm
  valid accepted value changes s t h := by
    have hvalues := h.answered.values
    rw [h.2.2.1] at hvalues
    simpa using hvalues
  refused accepted value changes s t h hvalue := by
    apply h.answered.refused
    rw [h.2.2.1]
    simpa using hvalue
  failed accepted changes s t h := by
    obtain ⟨hstate, herror, hcleared, hhost, hfinished, hworker, hready⟩ :=
      h.answered.failed h.2.2.1
    refine ⟨⟨hstate, herror, hcleared, hhost, hfinished⟩, ?_⟩
    intro request later hcheck
    exact started_of_idle h.2.1 hready hfinished hworker hcheck
  started accepted changes s t h := h.answered.started h.2.2.1

/-- **`join` and `host` accept exactly the documented arguments and fail cleanly.** -/
theorem request_clean : ArgumentsDocumented ∧ AnswersClean := by
  refine ⟨⟨?_, ?_, ?_, ?_⟩, answersClean⟩
  · intro address nickname secret port addressText nicknameText secretText ha hn hs
    exact check_join_iff ha hn hs
  · intro nickname secret port nicknameText secretText hn hs
    exact check_host_iff hn hs
  · intro text rest limit hnul
    exact boundedIn_readable hnul limit
  · intro ip
    exact ipv4At_eq ip

end ManicRoom.Session
