/-
# Is leaving final?

`Leave` stores `Idle`, waits for the loop thread and frees the connection. It
relies on the loop condition: the loop should see `Idle` and end. Between its
condition and its next evaluation, however, the loop handles one event, and the
case of a join success stores `Joined` or `Moderator` without looking at what the
state has become. A `Leave` that falls into that span is undone: the loop runs on
and the caller of `Leave` waits for the room to end the connection.

The span is the only way. In every run whose `Leave` never stores `Idle` while a
join success is being handled, and in which the one wait for an event that may
still be open does not bring a join success, leaving is final, and the loop ends
without receiving anything more.
-/

import Mathlib.Algebra.GroupWithZero.Nat
import ManicRoom.Member.Invariant

namespace ManicRoom.Member

open ManicRoom.Foundation

/-- The loop is handling an event whose remaining operations put the member into
a connected state. -/
def State.LoopConnects (s : State) : Prop :=
  match s.loopThread with
  | some (.handle ops) => ∃ op ∈ ops, op.Connects
  | _ => False

instance (s : State) : Decidable s.LoopConnects := by
  unfold State.LoopConnects
  split <;> infer_instance

theorem State.not_loopConnects_of_position {s : State} {position : LoopPosition}
    (h : s.loopThread = some position) (hne : ∀ ops, position ≠ .handle ops) :
    ¬ s.LoopConnects := by
  unfold State.LoopConnects
  split
  · next ops hops => exact absurd (Option.some.inj (h.symm.trans hops)) (hne ops)
  · exact not_false

/-- The condition on a step under which leaving is final: `Leave` does not store
`Idle` while the loop handles a join success it has yet to store, and the event
that the loop still waits for when `Leave` stores `Idle` is not a join success. -/
def JoinSuccessSettled (s : State) : Label → Prop
  | .caller _ => s.LeaveSetsIdle → ¬ s.LoopConnects
  | .loop (.event event) =>
      s.left = true → s.loopThread = some .service → ¬ event.IsJoinSuccess
  | _ => True

instance (s : State) (label : Label) : Decidable (JoinSuccessSettled s label) := by
  unfold JoinSuccessSettled
  split <;> infer_instance

/-- A step of the loop thread that receives nothing. -/
def Label.ReceivesNothing : Label → Prop
  | .loop (.event _) => False
  | .loop _ => True
  | _ => False

/-- The loop thread has returned, or an assertion ended the process. -/
def State.LoopEnded (s : State) : Prop :=
  s.loopThread = some .done ∨ s.loopThread = some .aborted

/-- What it means that a `Leave` which has stored `Idle` is final. -/
structure LeaveFinal (s : State) : Prop where
  /-- The state is not connected. -/
  notConnected : ¬ s.state.IsConnected
  /-- The loop handles at most the event of the iteration it is in. -/
  events : s.lateEvents ≤ if s.awaiting then 1 else 0
  /-- Its condition does not let it start another iteration. -/
  condition : ∀ loads, s.loopThread = some (.check loads) →
    ∀ t, step s (.loop .go) = some t → t.loopThread ≠ some .service
  /-- It ends on its own, receiving nothing more. -/
  ends : s.loopThread ≠ none → ∃ schedule, (∀ label ∈ schedule, label.ReceivesNothing) ∧
    ∃ t, system.run s schedule = some t ∧ t.LoopEnded

/-! ## The guarded invariant -/

/-- What holds after `Leave` stored `Idle`, under the condition. -/
structure AfterIdle (s : State) : Prop where
  notConnected : ¬ s.state.IsConnected
  notConnecting : ¬ s.LoopConnects
  events : s.lateEvents ≤ if s.awaiting then 1 else 0
  waiting : s.loopThread = some .service → s.awaiting = true ∧ s.lateEvents = 0

/-- A step that leaves the loop thread where it is, or without a connecting
operation, and stores nothing but `Idle`. -/
theorem AfterIdle.frame {s t : State} (after : AfterIdle s)
    (hstate : t.state = s.state ∨ t.state = .idle) (hconnects : t.LoopConnects → s.LoopConnects)
    (hservice : t.loopThread = some .service → s.loopThread = some .service)
    (hawaiting : t.awaiting = s.awaiting) (hevents : t.lateEvents = s.lateEvents) :
    AfterIdle t where
  notConnected h := by
    rcases hstate with hsame | hidle
    · exact after.notConnected (hsame ▸ h)
    · exact MemberState.not_isConnected_idle (hidle ▸ h)
  notConnecting h := after.notConnecting (hconnects h)
  events := by rw [hawaiting, hevents]; exact after.events
  waiting h := by rw [hawaiting, hevents]; exact after.waiting (hservice h)

theorem afterIdle_callerEffect {s t : State} (after : s.left = true → AfterIdle s)
    (settled : s.LeaveSetsIdle → ¬ s.LoopConnects) (h : CallerEffect s t)
    (hleft : t.left = true) : AfterIdle t := by
  cases h with
  | move => exact (after hleft).frame (.inl rfl) id id rfl rfl
  | leaveIdle position sets =>
      exact
        { notConnected := MemberState.not_isConnected_idle
          notConnecting := settled sets
          events := Nat.zero_le _
          waiting := fun h => ⟨by
            have h : s.loopThread = some .service := h
            simp [State.markLeft, State.loopAwaits, h], rfl⟩ }
  | setJoining => cases hleft
  | failIdle => exact (after hleft).frame (.inr rfl) id id rfl rfl
  | joinThread =>
      exact (after hleft).frame (.inl rfl) (fun h => h.elim) (fun h => by cases h) rfl rfl
  | clear => exact (after hleft).frame (.inl rfl) id id rfl rfl
  | startLoop =>
      exact (after hleft).frame (.inl rfl) (fun h => h.elim) (fun h => by cases h) rfl rfl
  | request => exact (after hleft).frame (.inl rfl) id id rfl rfl
  | gameInfo => exact (after hleft).frame (.inl rfl) id id rfl rfl

theorem afterIdle_handlerStep {s : State} {op : HandlerOp} {ops : List HandlerOp}
    (after : AfterIdle s) (hloop : s.loopThread = some (.handle (op :: ops))) :
    AfterIdle (handlerStep op ops s) := by
  have quiet : ∀ o ∈ op :: ops, ¬ o.Connects := by
    have h := after.notConnecting
    simp only [State.LoopConnects, hloop, not_exists, not_and] at h
    exact h
  have quietTail : ∀ o ∈ ops, ¬ o.Connects := fun o ho => quiet o (List.mem_cons_of_mem _ ho)
  -- Whatever stays to be handled was to be handled before, or connects nothing.
  have continueWith {t : State} (rest : List HandlerOp) (hrest : ∀ o ∈ rest, ¬ o.Connects)
      (hposition : t.loopThread = some (.handle rest)) (hstate : ¬ t.state.IsConnected)
      (hawaiting : t.awaiting = s.awaiting) (hevents : t.lateEvents = s.lateEvents) :
      AfterIdle t :=
    { notConnected := hstate
      notConnecting := by
        simp only [State.LoopConnects, hposition, not_exists, not_and]
        exact hrest
      events := by rw [hawaiting, hevents]; exact after.events
      waiting := fun h => by simp [hposition] at h }
  have stop {position : LoopPosition} (hne : ∀ ops, position ≠ .handle ops)
      (hservice : position ≠ .service) : AfterIdle (s.loopAt position) :=
    after.frame (.inl rfl)
      (fun h => absurd h (State.not_loopConnects_of_position rfl hne))
      (fun h => absurd (Option.some.inj h) hservice) rfl rfl
  have stay := continueWith (t := s.loopAt (.handle ops)) ops quietTail rfl
    after.notConnected rfl rfl
  cases op with
  | setState state =>
      have hstate : ¬ state.IsConnected := quiet _ List.mem_cons_self
      simp only [handlerStep]
      split
      · exact stay
      · refine continueWith (.store state :: .load :: ops) (fun o ho => ?_) rfl
          after.notConnected rfl rfl
        rcases List.mem_cons.mp ho with rfl | ho
        · exact hstate
        rcases List.mem_cons.mp ho with rfl | ho
        · exact not_false
        · exact quietTail o ho
  | store state =>
      have hstate : ¬ state.IsConnected := quiet _ List.mem_cons_self
      exact continueWith ops quietTail rfl hstate rfl rfl
  | load =>
      refine continueWith (.invokeState s.state :: ops) (fun o ho => ?_) rfl
        after.notConnected rfl rfl
      rcases List.mem_cons.mp ho with rfl | ho
      · exact not_false
      · exact quietTail o ho
  | invokeState state => exact stay
  | setError error => exact stay
  | storeMac mac => exact continueWith ops quietTail rfl after.notConnected rfl rfl
  | storeMembers members => exact continueWith ops quietTail rfl after.notConnected rfl rfl
  | invokeRoomInformation => exact stay
  | invokeOther => exact stay
  | assertMembers =>
      simp only [handlerStep]
      split
      · exact stop (by simp) (by simp)
      · exact stay
  | assertFalse => exact stop (by simp) (by simp)
  | whenIn loads =>
      cases loads with
      | nil => exact stop (by simp) (by simp)
      | cons state loads =>
          simp only [handlerStep]
          split
          · exact stay
          · refine continueWith (.whenIn loads :: ops) (fun o ho => ?_) rfl
              after.notConnected rfl rfl
            rcases List.mem_cons.mp ho with rfl | ho
            · exact not_false
            · exact quietTail o ho

theorem afterIdle_loopStep {s t : State} {input : LoopInput} (inv : Wellformed s)
    (after : s.left = true → AfterIdle s) (settled : JoinSuccessSettled s (.loop input))
    (h : loopStep s input = some t) (hleft : t.left = true) : AfterIdle t := by
  have elsewhere {t : State} (position : LoopPosition) (hleft : s.left = true)
      (hne : ∀ ops, position ≠ .handle ops) (hservice : position ≠ .service)
      (hposition : t.loopThread = some position) (hstate : t.state = s.state)
      (hawaiting : t.awaiting = s.awaiting) (hevents : t.lateEvents = s.lateEvents) :
      AfterIdle t :=
    (after hleft).frame (.inl hstate)
      (fun h => absurd h (State.not_loopConnects_of_position hposition hne))
      (fun h => absurd (Option.some.inj (hposition.symm.trans h)) hservice) hawaiting hevents
  unfold loopStep at h
  split at h
  case h_2 state loads hloop =>
    split at h
    · next hstate =>
      -- The condition cannot hold: the state is not connected.
      cases h
      have hconnected : state.IsConnected := (inv.loop _ hloop).2 state List.mem_cons_self
      exact absurd (hstate ▸ hconnected) (after hleft).notConnected
    · cases h
      exact elsewhere (.check loads) hleft (by simp) (by simp) rfl rfl rfl rfl
  case h_3 event hloop =>
    cases h
    have hleft : s.left = true := hleft
    obtain ⟨hawaiting, hevents⟩ := (after hleft).waiting hloop
    have hquiet : ¬ ∃ op ∈ handleEvent event, op.Connects := fun hconnects =>
      settled hleft hloop (exists_connects_handleEvent.mp hconnects)
    exact
      { notConnected := (after hleft).notConnected
        notConnecting := hquiet
        events := by simp [State.loopAt, hleft, hawaiting, hevents]
        waiting := fun h => by cases h }
  case h_6 op ops hloop =>
    cases h
    exact afterIdle_handlerStep (after (by simpa using hleft)) hloop
  case h_10 hloop =>
    cases h
    unfold disconnect at hleft ⊢
    split at hleft
    · split at hleft
      · exact elsewhere .done hleft (by simp) (by simp) (by simp [*, State.loopAt])
          (by simp [*, State.loopAt]) (by simp [*, State.loopAt]) (by simp [*, State.loopAt])
      · exact elsewhere .linger hleft (by simp) (by simp) (by simp [*, State.loopAt])
          (by simp [*, State.loopAt]) (by simp [*, State.loopAt]) (by simp [*, State.loopAt])
    · exact elsewhere .done hleft (by simp) (by simp) (by simp [*, State.loopAt])
        (by simp [*, State.loopAt]) (by simp [*, State.loopAt]) (by simp [*, State.loopAt])
  case h_11 hloop =>
    split at h
    · cases h
      exact elsewhere .done hleft (by simp) (by simp) rfl rfl rfl rfl
    · cases h
  case h_13 => cases h; exact after hleft
  case h_14 => cases h; exact after hleft
  all_goals cases h
  all_goals exact elsewhere _ hleft (by simp) (by simp) rfl rfl rfl rfl

theorem afterIdle_emulationStep {s t : State} {input : EmulationInput}
    (after : s.left = true → AfterIdle s) (h : emulationStep s input = some t)
    (hleft : t.left = true) : AfterIdle t := by
  unfold emulationStep at h
  split at h
  all_goals repeat (split at h)
  all_goals cases h
  all_goals exact (after hleft).frame (.inl rfl) id id rfl rfl

theorem afterIdle_of_reachableVia {s : State}
    (h : system.ReachableVia JoinSuccessSettled s) : s.left = true → AfterIdle s := by
  refine h.invariant (fun s => s.left = true → AfterIdle s) (fun s hs => ?_)
    (fun s label t prior ok after hs hleft => ?_)
  · cases hs
    exact fun hleft => by cases hleft
  · cases label with
    | caller input => exact afterIdle_callerEffect after ok (callerStep_effect hs) hleft
    | loop input =>
        exact afterIdle_loopStep (wellformed_of_reachable prior.reachable) after ok hs hleft
    | emulation input => exact afterIdle_emulationStep after hs hleft

/-! ## The loop ends on its own -/

/-- Steps an operation still takes, at most. -/
def HandlerOp.cost : HandlerOp → ℕ
  | .setState _ => 4
  | .load => 2
  | .whenIn loads => loads.length + 1
  | _ => 1

/-- Steps to the end of the loop thread from a position whose loop condition will
fail, at most; `pending` packets wait in the send list. -/
def LoopPosition.cost (pending : ℕ) : LoopPosition → ℕ
  | .done | .aborted => 0
  | .linger => 1
  | .disconnect => 2
  | .check loads => loads.length + 3
  | .send packets => packets.length + 7
  | .swap => pending + 8
  | .service => pending + 9
  | .handle ops => (ops.map HandlerOp.cost).sum + pending + 9

def State.loopCost (s : State) : ℕ :=
  match s.loopThread with
  | none => 0
  | some position => position.cost s.sendList.length

theorem State.loopCost_of_position {s : State} {position : LoopPosition}
    (h : s.loopThread = some position) : s.loopCost = position.cost s.sendList.length := by
  simp [State.loopCost, h]

theorem loopCost_handlerStep_lt {s : State} {op : HandlerOp} {ops : List HandlerOp}
    (hloop : s.loopThread = some (.handle (op :: ops))) :
    (handlerStep op ops s).loopCost < s.loopCost := by
  rw [State.loopCost_of_position hloop]
  cases op with
  | setState state =>
      simp only [handlerStep]
      split
      · simp [State.loopCost, State.loopAt, LoopPosition.cost, HandlerOp.cost]
      · simp [State.loopCost, State.loopAt, LoopPosition.cost, HandlerOp.cost]
        omega
  | assertMembers =>
      simp only [handlerStep]
      split <;> simp [State.loopCost, State.loopAt, LoopPosition.cost, HandlerOp.cost]
  | whenIn loads =>
      cases loads with
      | nil =>
          simp only [handlerStep, State.loopCost, State.loopAt, LoopPosition.cost]
          omega
      | cons state loads =>
          simp only [handlerStep]
          split <;> simp [State.loopCost, State.loopAt, LoopPosition.cost, HandlerOp.cost]
  | _ =>
      simp [handlerStep, State.loopCost, State.loopAt, LoopPosition.cost, HandlerOp.cost]

/-- After `Leave` stored `Idle` the loop thread always has a step that receives
nothing and brings it closer to its end. -/
theorem exists_step_of_not_loopEnded {s : State} (inv : Wellformed s) (after : AfterIdle s)
    (hrunning : s.loopThread ≠ none) (hend : ¬ s.LoopEnded) :
    ∃ input t, (∀ event, input ≠ .event event) ∧ loopStep s input = some t ∧
      t.left = s.left ∧ t.loopThread ≠ none ∧ t.loopCost < s.loopCost := by
  obtain ⟨position, hloop⟩ := Option.ne_none_iff_exists'.mp hrunning
  have advance (t : State) (later : LoopPosition) (input : LoopInput)
      (hsilent : ∀ event, input ≠ .event event) (hstep : loopStep s input = some t)
      (hleft : t.left = s.left) (hlater : t.loopThread = some later)
      (hless : later.cost t.sendList.length < position.cost s.sendList.length) :
      ∃ input t, (∀ event, input ≠ .event event) ∧ loopStep s input = some t ∧
        t.left = s.left ∧ t.loopThread ≠ none ∧ t.loopCost < s.loopCost :=
    ⟨input, t, hsilent, hstep, hleft, by simp [hlater], by
      rw [State.loopCost_of_position hlater, State.loopCost_of_position hloop]
      exact hless⟩
  cases position with
  | check loads =>
      cases loads with
      | nil =>
          exact advance (s.loopAt .disconnect) .disconnect .go (by simp)
            (by simp [loopStep, hloop]) rfl rfl (by simp [LoopPosition.cost])
      | cons state loads =>
          have hconnected : state.IsConnected := (inv.loop _ hloop).2 state List.mem_cons_self
          have hne : s.state ≠ state := fun h => after.notConnected (h ▸ hconnected)
          exact advance (s.loopAt (.check loads)) (.check loads) .go (by simp)
            (by simp [loopStep, hloop, hne]) rfl rfl (by simp [LoopPosition.cost])
  | service =>
      exact advance (s.loopAt .swap) .swap .quiet (by simp) (by simp [loopStep, hloop])
        rfl rfl (by simp [LoopPosition.cost, State.loopAt])
  | handle ops =>
      cases ops with
      | nil =>
          exact advance (s.loopAt .swap) .swap .go (by simp) (by simp [loopStep, hloop])
            rfl rfl (by simp [LoopPosition.cost, State.loopAt])
      | cons op ops =>
          obtain ⟨later, hlater⟩ := handlerStep_running op ops s
          exact ⟨.go, handlerStep op ops s, by simp, by simp [loopStep, hloop],
            handlerStep_left op ops s, by simp [hlater], loopCost_handlerStep_lt hloop⟩
  | swap =>
      exact advance ({ s with sendList := [] }.loopAt (.send s.sendList)) (.send s.sendList) .go
        (by simp) (by simp [loopStep, hloop]) rfl rfl (by simp [LoopPosition.cost])
  | send packets =>
      cases packets with
      | nil =>
          exact advance (s.loopAt (.check connectedLoads)) (.check connectedLoads) .go
            (by simp) (by simp [loopStep, hloop]) rfl rfl
            (by simp [LoopPosition.cost, connectedLoads])
      | cons packet packets =>
          exact advance ({ s with wire := s.wire ++ [packet] }.loopAt (.send packets))
            (.send packets) .go (by simp) (by simp [loopStep, hloop]) rfl rfl
            (by simp [LoopPosition.cost])
  | disconnect =>
      have hstep : loopStep s .go = some (disconnect s) := by simp [loopStep, hloop]
      unfold disconnect at hstep
      split at hstep
      · split at hstep
        · exact advance _ .done .go (by simp) hstep rfl rfl (by simp [LoopPosition.cost])
        · exact advance _ .linger .go (by simp) hstep rfl rfl (by simp [LoopPosition.cost])
      · exact advance _ .done .go (by simp) hstep rfl rfl (by simp [LoopPosition.cost])
  | linger =>
      exact advance ({ s with server := false }.loopAt .done) .done .expired (by simp)
        (by simp [loopStep, hloop]) rfl rfl (by simp [LoopPosition.cost])
  | done => exact absurd (.inl hloop) hend
  | aborted => exact absurd (.inr hloop) hend

theorem exists_schedule_loopEnded {s : State} (h : system.ReachableVia JoinSuccessSettled s)
    (hleft : s.left = true) (hrunning : s.loopThread ≠ none) :
    ∃ schedule, (∀ label ∈ schedule, label.ReceivesNothing) ∧
      ∃ t, system.run s schedule = some t ∧ t.LoopEnded := by
  refine system.exists_run_of_cost
    (fun s => system.ReachableVia JoinSuccessSettled s ∧ s.left = true ∧ s.loopThread ≠ none)
    State.LoopEnded Label.ReceivesNothing State.loopCost ?_ s ⟨h, hleft, hrunning⟩
  rintro s ⟨hreach, hleft, hrunning⟩ hend
  obtain ⟨input, t, hsilent, hstep, hleft', hrunning', hcost⟩ :=
    exists_step_of_not_loopEnded (wellformed_of_reachable hreach.reachable)
      (afterIdle_of_reachableVia hreach hleft) hrunning hend
  have hnothing : Label.ReceivesNothing (.loop input) ∧ JoinSuccessSettled s (.loop input) := by
    cases input with
    | event event => exact absurd rfl (hsilent event)
    | _ => exact ⟨trivial, trivial⟩
  exact ⟨.loop input, t, hnothing.1, hstep,
    ⟨hreach.step _ hnothing.2 hstep, hleft'.trans hleft, hrunning'⟩, hcost⟩

/-! ## The result -/

/-- **Leaving is final while join successes are settled.** In every run whose
`Leave` calls store `Idle` outside the handling of a join success, and whose open
wait does not end in one, a `Leave` that has stored `Idle` stays final until the
next `Join`. -/
theorem leaveFinal_of_joinSuccessSettled {s : State}
    (h : system.ReachableVia JoinSuccessSettled s) (hleft : s.left = true) : LeaveFinal s where
  notConnected := (afterIdle_of_reachableVia h hleft).notConnected
  events := (afterIdle_of_reachableVia h hleft).events
  condition loads hloop t hstep := by
    have inv := wellformed_of_reachable h.reachable
    have after := afterIdle_of_reachableVia h hleft
    cases loads with
    | nil =>
        simp only [step, loopStep, hloop, Option.some.injEq] at hstep
        simp [← hstep, State.loopAt]
    | cons state loads =>
        have hconnected : state.IsConnected := (inv.loop _ hloop).2 state List.mem_cons_self
        have hne : s.state ≠ state := fun h => after.notConnected (h ▸ hconnected)
        simp only [step, loopStep, hloop, hne, if_false, Option.some.injEq] at hstep
        simp [← hstep, State.loopAt]
  ends := exists_schedule_loopEnded h hleft

/-- A member that leaves its room between two packets has left for good, although
its loop still waits for an event. -/
theorem leaveFinal_between_packets :
    ∃ s : State, (s.left = true ∧ s.loopThread = some .service) ∧ LeaveFinal s := by
  obtain ⟨s, hreach, hleft, hloop⟩ :=
    System.exists_reachableVia_of_runVia (S := system) JoinSuccessSettled rfl
      (joinsRoom ++ leaveStoresIdle)
      (fun s => s.left = true ∧ s.loopThread = some .service) (by decide +kernel)
  exact ⟨s, ⟨hleft, hloop⟩, leaveFinal_of_joinSuccessSettled hreach hleft⟩

/-! ## The race -/

/-- A join success arrives, `Leave` stores `Idle` before it is handled, and the
loop goes on with two more events. -/
def leaveRace : List Label :=
  joinConnects ++ joinReturns ++ roomAnswers ++ joinSuccessArrives ++ leaveStoresIdle ++
    joinSuccessHandled ++ [.loop (.event (.receive .wifiPacket))] ++ loopGoes 6 ++
    [.loop (.event (.receive .chatMessage))]

/-- **Leaving is not final.** A join success that is being handled while `Leave`
stores `Idle` puts the member back into the room, and the loop goes on receiving. -/
theorem leave_undone :
    ∃ s, system.Reachable s ∧ s.left = true ∧ s.state = .joined ∧ s.lateEvents = 2 ∧
      ¬ LeaveFinal s := by
  obtain ⟨s, hreach, hleft, hstate, hevents⟩ :=
    System.exists_reachable_of_run (S := system) rfl leaveRace
      (fun s => s.left = true ∧ s.state = .joined ∧ s.lateEvents = 2) (by decide +kernel)
  exact ⟨s, hreach, hleft, hstate, hevents, fun final =>
    final.notConnected (by simp [hstate, MemberState.IsConnected])⟩

end ManicRoom.Member
