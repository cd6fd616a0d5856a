/-
# Looking up the MAC address

`nwm_uds.cpp` asks the member whether it is in a room and then for its MAC address.
`RoomMember::GetMacAddress` asserts that the member is connected and reads a field
that each join success overwrites. Check, assertion and read are separate accesses,
so a `Leave` or a lost connection in between fails the assertion, and a whole new
session in between supplies the address of another session.

Nothing else goes wrong: if no store into the state disturbs the lookup between its
check and the end of the assertion, and no other session is admitted between the
assertion and the read, the address is one of the session that was checked.
-/

import ManicRoom.Member.Invariant

namespace ManicRoom.Member

open ManicRoom.Foundation

/-- The value that this step stores into the atomic state, if it stores one. -/
def State.stores (s : State) : Label → Option MemberState
  | .caller .go =>
      match s.caller with
      | .leaveSetIdle _ .store => some .idle
      | .joinSetJoining .store => some .joining
      | .joinFail _ _ .store => some .idle
      | _ => none
  | .loop .go =>
      match s.loopThread with
      | some (.handle (.store state :: _)) => some state
      | _ => none
  | _ => none

/-- This step assigns the MAC address of a join success. -/
def State.AssignsMac (s : State) : Label → Prop
  | .loop .go =>
      match s.loopThread with
      | some (.handle (.storeMac _ :: _)) => True
      | _ => False
  | _ => False

/-- The handler is about to store a MAC address. -/
def LoopPosition.storesMac : LoopPosition → Bool
  | .handle (.storeMac _ :: _) => true
  | _ => false

theorem State.assignsMac_iff {s : State} {label : Label} : s.AssignsMac label ↔
    label = .loop .go ∧ s.loopThread.any LoopPosition.storesMac = true := by
  unfold State.AssignsMac
  split
  · split
    · next hthread => simp [hthread, LoopPosition.storesMac]
    · next hother =>
      refine iff_of_false id ?_
      rintro ⟨-, h⟩
      obtain ⟨position, hposition, hstores⟩ := (Option.any_eq_true ..).mp h
      unfold LoopPosition.storesMac at hstores
      split at hstores
      · exact hother _ _ hposition
      · cases hstores
  · next hlabel => exact iff_of_false id fun h => hlabel h.1

instance (s : State) (label : Label) : Decidable (s.AssignsMac label) :=
  decidable_of_iff' _ State.assignsMac_iff

/-- What a lookup is good for: the assertion has not failed, and every address the
emulation thread used for a connection was assigned on that connection. -/
structure MacLookupsSafe (s : State) : Prop where
  asserted : s.emulation ≠ .assertFailed
  assigned : ∀ lookup ∈ s.usedMacs, lookup ∈ s.assignedMacs

/-- The condition on a step under which that holds. While the assertion is being
evaluated, a store into the state leaves a value that is in the room and that the
assertion still compares with; while the address is about to be read, only the
connection that was checked assigns one. -/
def LookupUndisturbed (s : State) (label : Label) : Prop :=
  match s.emulation with
  | .assertConnected _ _ loads => ∀ state ∈ s.stores label, state.InRoom ∧ state ∈ loads
  | .readMac _ session => s.AssignsMac label → s.connection = session
  | _ => True

instance (s : State) (label : Label) : Decidable (LookupUndisturbed s label) := by
  unfold LookupUndisturbed
  split <;> infer_instance

/-! ## What the other threads do -/

/-- A step of another thread, as the emulation thread sees it. -/
structure Disturbs (s : State) (label : Label) (t : State) : Prop where
  emulation : t.emulation = s.emulation
  usedMacs : t.usedMacs = s.usedMacs
  state : t.state = s.state ∨ t.state ∈ s.stores label
  mac : t.macAddress = s.macAddress ∨
    s.AssignsMac label ∧ (s.connection, t.macAddress) ∈ t.assignedMacs
  assignedMacs : s.assignedMacs ⊆ t.assignedMacs
  /-- A new connection starts outside any room. -/
  connection : t.connection = s.connection ∨ ¬ s.state.InRoom

theorem callerStep_state {s t : State} {input : CallerInput}
    (h : callerStep s input = some t) :
    t.state = s.state ∨ t.state ∈ s.stores (.caller input) := by
  unfold callerStep at h
  split at h
  case h_4 back phase hcaller =>
    cases h
    cases phase with
    | compare =>
        by_cases hidle : s.state = .idle <;>
          simp [leaveSetIdle, setStateStep, hidle, State.markLeft]
    | store =>
        simp [leaveSetIdle, setStateStep, State.markLeft, State.stores, hcaller]
    | load => simp [leaveSetIdle, setStateStep]
    | invoke state => simp [leaveSetIdle, setStateStep]
  case h_12 phase hcaller =>
    cases h
    cases phase with
    | compare =>
        by_cases hjoining : s.state = .joining <;>
          simp [joinSetJoining, setStateStep, hjoining]
    | store => simp [joinSetJoining, setStateStep, State.stores, hcaller]
    | load => simp [joinSetJoining, setStateStep]
    | invoke state => simp [joinSetJoining, setStateStep]
  case h_27 error thenLeave phase hcaller =>
    cases h
    cases phase with
    | compare =>
        by_cases hidle : s.state = .idle <;> simp [joinFail, setStateStep, hidle]
    | store => simp [joinFail, setStateStep, State.stores, hcaller]
    | load => simp [joinFail, setStateStep]
    | invoke state => simp [joinFail, setStateStep]
  all_goals repeat (split at h)
  all_goals cases h
  all_goals exact .inl rfl

theorem disturbs_callerStep {s t : State} {input : CallerInput} (inv : Wellformed s)
    (h : callerStep s input = some t) : Disturbs s (.caller input) t := by
  have hstate := callerStep_state h
  have hsame {t : State} (hstate : t.state = s.state ∨ t.state ∈ s.stores (.caller input))
      (hemulation : t.emulation = s.emulation) (hused : t.usedMacs = s.usedMacs)
      (hmac : t.macAddress = s.macAddress) (hassigned : t.assignedMacs = s.assignedMacs)
      (hconnection : t.connection = s.connection ∨ ¬ s.state.InRoom) :
      Disturbs s (.caller input) t :=
    ⟨hemulation, hused, hstate, .inl hmac, hassigned ▸ List.Subset.refl _, hconnection⟩
  cases callerStep_effect h with
  | startLoop before =>
      have hout := inv.absent (inv.noLoop (by simp [before, CallerPosition.NoLoop]))
      exact hsame hstate rfl rfl rfl rfl (.inr hout)
  | _ => exact hsame hstate rfl rfl rfl rfl (.inl rfl)

theorem disturbs_handlerStep {s : State} {op : HandlerOp} {ops : List HandlerOp}
    (hloop : s.loopThread = some (.handle (op :: ops))) :
    Disturbs s (.loop .go) (handlerStep op ops s) := by
  have hquiet (position : LoopPosition) : Disturbs s (.loop .go) (s.loopAt position) :=
    ⟨rfl, rfl, .inl rfl, .inl rfl, List.Subset.refl _, .inl rfl⟩
  cases op with
  | store state =>
      exact ⟨rfl, rfl, .inr (by simp [handlerStep, State.stores, hloop, State.loopAt]),
        .inl rfl, List.Subset.refl _, .inl rfl⟩
  | storeMac mac =>
      exact ⟨rfl, rfl, .inl rfl,
        .inr ⟨State.assignsMac_iff.mpr ⟨rfl, by simp [hloop, LoopPosition.storesMac]⟩,
          List.mem_cons_self⟩,
        List.subset_cons_self _ _, .inl rfl⟩
  | storeMembers members =>
      exact ⟨rfl, rfl, .inl rfl, .inl rfl, List.Subset.refl _, .inl rfl⟩
  | setState state =>
      simp only [handlerStep]
      split <;> exact hquiet _
  | assertMembers =>
      simp only [handlerStep]
      split <;> exact hquiet _
  | whenIn loads =>
      cases loads with
      | nil => exact hquiet _
      | cons state loads =>
          simp only [handlerStep]
          split <;> exact hquiet _
  | load => exact hquiet _
  | invokeState state => exact hquiet _
  | setError error => exact hquiet _
  | invokeRoomInformation => exact hquiet _
  | invokeOther => exact hquiet _
  | assertFalse => exact hquiet _

theorem disturbs_loopStep {s t : State} {input : LoopInput}
    (h : loopStep s input = some t) : Disturbs s (.loop input) t := by
  unfold loopStep at h
  split at h
  case h_6 op ops hloop =>
    cases h
    exact disturbs_handlerStep hloop
  case h_10 hloop =>
    cases h
    unfold disconnect
    repeat' split
    all_goals exact ⟨rfl, rfl, .inl rfl, .inl rfl, List.Subset.refl _, .inl rfl⟩
  all_goals repeat (split at h)
  all_goals cases h
  all_goals exact ⟨rfl, rfl, .inl rfl, .inl rfl, List.Subset.refl _, .inl rfl⟩

/-! ## The guarded invariant -/

/-- Where a lookup stands, under the condition. -/
def State.LookupFacts (s : State) : EmulationPosition → Prop
  | .check _ loads => ∀ state ∈ loads, state.InRoom
  | .assertConnected _ session loads =>
      s.state.InRoom ∧ session = s.connection ∧ s.state ∈ loads
  | .readMac _ session => (session, s.macAddress) ∈ s.assignedMacs
  | .assertFailed => False
  | _ => True

/-- The invariant of the lookups. -/
structure LookupsSettled (s : State) : Prop where
  facts : s.LookupFacts s.emulation
  used : s.usedMacs ⊆ s.assignedMacs

/-- Under the condition a lookup survives the steps of the other threads. -/
theorem LookupsSettled.disturb {s t : State} {label : Label} (settled : LookupsSettled s)
    (ok : LookupUndisturbed s label) (h : Disturbs s label t) : LookupsSettled t where
  facts := by
    have facts := settled.facts
    rw [h.emulation]
    cases hemulation : s.emulation with
    | assertConnected use session loads =>
        rw [hemulation] at facts
        simp only [LookupUndisturbed, hemulation] at ok
        obtain ⟨hroom, hsession, hload⟩ := facts
        have hconnection : t.connection = s.connection :=
          h.connection.resolve_right (not_not_intro hroom)
        have hstate : t.state.InRoom ∧ t.state ∈ loads := by
          rcases h.state with hsame | hstores
          · exact hsame ▸ ⟨hroom, hload⟩
          · exact ok _ hstores
        exact ⟨hstate.1, hsession.trans hconnection.symm, hstate.2⟩
    | readMac use session =>
        rw [hemulation] at facts
        simp only [LookupUndisturbed, hemulation] at ok
        rcases h.mac with hsame | ⟨hassigns, hassigned⟩
        · exact h.assignedMacs (hsame ▸ facts)
        · exact ok hassigns ▸ hassigned
    | assertFailed =>
        rw [hemulation] at facts
        exact facts
    | check use loads =>
        rw [hemulation] at facts
        exact facts
    | rest => trivial
    | pushWifi => trivial
    | gameInfoCheck loads => trivial
    | pushGameInfo => trivial
  used := h.usedMacs ▸ List.Subset.trans settled.used h.assignedMacs

/-- The lookup's own steps. -/
theorem lookupsSettled_emulationStep {s t : State} {input : EmulationInput}
    (inv : Wellformed s) (settled : LookupsSettled s)
    (h : emulationStep s input = some t) : LookupsSettled t := by
  have facts := settled.facts
  have used {session : ℕ} (h : (session, s.macAddress) ∈ s.assignedMacs) :
      (session, s.macAddress) :: s.usedMacs ⊆ s.assignedMacs :=
    List.cons_subset.mpr ⟨h, settled.used⟩
  unfold emulationStep at h
  split at h
  case h_1 =>
    cases h
    exact ⟨fun state => mem_inRoomLoads.mp, settled.used⟩
  case h_2 =>
    cases h
    exact ⟨fun state => mem_inRoomLoads.mp, settled.used⟩
  case h_5 use state loads hemulation =>
    rw [hemulation] at facts
    split at h
    · next hstate =>
      cases h
      have hroom : s.state.InRoom := hstate ▸ facts state List.mem_cons_self
      exact ⟨⟨hroom, rfl, mem_connectedLoads.mpr hroom.isConnected⟩, settled.used⟩
    · cases h
      exact ⟨fun q hq => facts q (List.mem_cons_of_mem _ hq), settled.used⟩
  case h_6 hemulation =>
    rw [hemulation] at facts
    exact absurd facts.2.2 List.not_mem_nil
  case h_7 use session state loads hemulation =>
    rw [hemulation] at facts
    obtain ⟨hroom, hsession, hload⟩ := facts
    split at h
    · cases h
      have hassigned : (session, s.macAddress) ∈ s.assignedMacs := hsession ▸ inv.mac hroom
      exact ⟨hassigned, settled.used⟩
    · next hne =>
      cases h
      exact ⟨⟨hroom, hsession, (List.mem_cons.mp hload).resolve_left hne⟩, settled.used⟩
  case h_8 session hemulation =>
    cases h
    rw [hemulation] at facts
    exact ⟨trivial, used facts⟩
  case h_9 session hemulation =>
    cases h
    rw [hemulation] at facts
    exact ⟨trivial, used facts⟩
  all_goals repeat (split at h)
  all_goals cases h
  all_goals exact ⟨trivial, settled.used⟩

/-- **The lookups under the condition.** -/
theorem lookupsSettled_of_reachableVia {s : State}
    (h : system.ReachableVia LookupUndisturbed s) : LookupsSettled s := by
  refine h.invariant LookupsSettled (fun s hs => ?_) (fun s label t prior ok settled hs => ?_)
  · cases hs
    exact ⟨trivial, List.Subset.refl _⟩
  · have inv := wellformed_of_reachable prior.reachable
    cases label with
    | caller input => exact settled.disturb ok (disturbs_callerStep inv hs)
    | loop input => exact settled.disturb ok (disturbs_loopStep hs)
    | emulation input => exact lookupsSettled_emulationStep inv settled hs

/-! ## The result -/

/-- **Undisturbed lookups are safe**: the assertion holds, and each address used
is one that the session current at the check was given. -/
theorem macLookupsSafe_of_undisturbed {s : State}
    (h : system.ReachableVia LookupUndisturbed s) : MacLookupsSafe s where
  asserted hfailed := by
    have facts := (lookupsSettled_of_reachableVia h).facts
    rw [hfailed] at facts
    exact facts
  assigned _ hlookup := (lookupsSettled_of_reachableVia h).used hlookup

/-- A member in its room uses the address that the room gave it. -/
theorem macLookupsSafe_inRoom :
    ∃ s : State, s.usedMacs = [(1, Vector.replicate 6 1)] ∧ MacLookupsSafe s := by
  obtain ⟨s, hreach, hused⟩ :=
    System.exists_reachableVia_of_runVia (S := system) LookupUndisturbed rfl
      (joinsRoom ++ [.emulation .getMacAddress] ++ List.replicate 4 (.emulation .go))
      (fun s => s.usedMacs = [(1, Vector.replicate 6 1)]) (by decide +kernel)
  exact ⟨s, hused, macLookupsSafe_of_undisturbed hreach⟩

/-- The emulation thread finds the member in its room, `Leave` stores `Idle`, and
the assertion compares the state with everything it accepts. -/
def leaveDuringLookup : List Label :=
  joinsRoom ++ [.emulation .sendPacket, .emulation .go] ++ leaveStoresIdle ++
    List.replicate 4 (.emulation .go)

/-- **The assertion can fail**: the room is left between the check in the service
and the assertion in the member. -/
theorem macLookup_assertion_fails :
    ∃ s, system.Reachable s ∧ s.emulation = .assertFailed ∧ ¬ MacLookupsSafe s := by
  obtain ⟨s, hreach, hfailed⟩ :=
    System.exists_reachable_of_run (S := system) rfl leaveDuringLookup
      (fun s => s.emulation = .assertFailed) (by decide +kernel)
  exact ⟨s, hreach, hfailed, fun safe => safe.asserted hfailed⟩

end ManicRoom.Member
