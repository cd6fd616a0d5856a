/-
# Which changes a game hears of

The connection status tells the game which nodes changed since it last asked. A host collects
the changes, so none is lost however many there are between two questions. A client computes
them anew from each logoff frame, so it tells the game only what the last two frames differ
in.
-/

import ManicRoom.Uds.Network

namespace ManicRoom.Uds

open ManicRoom.Foundation ManicRoom.Member

variable {NodeInfo : Type} [Header NodeInfo] {around : Surroundings} {s s' : Console NodeInfo}
  {out : Outcome NodeInfo}

/-- The state after a list of events, and what they answered. -/
def runEvents (s : Console NodeInfo) :
    List (Surroundings × Event NodeInfo) → Option (Console NodeInfo × List (Answer NodeInfo))
  | [] => some (s, [])
  | (around, event) :: events => do
      let out ← s.react around event
      let (s', answers) ← runEvents out.console events
      some (s', out.answer :: answers)

omit [Header NodeInfo] in
/-- Some answer told the game that a node changed. -/
def Reported (answers : List (Answer NodeInfo)) (i : ℕ) : Prop :=
  ∃ cs, .connectionStatus cs ∈ answers ∧ i ∈ bits cs.changedNodes

/-! ## Hosts -/

/-- What a step of a host does to the changes it has collected. -/
structure Collects (s s' : Console NodeInfo) : Prop where
  keeps : bits s.connectionStatus.changedNodes ⊆ bits s'.connectionStatus.changedNodes
  adds : symmDiff (bits s.connectionStatus.nodeBitmask) (bits s'.connectionStatus.nodeBitmask) ⊆
    bits s'.connectionStatus.changedNodes

omit [Header NodeInfo] in
theorem Collects.of_eq (h : s'.connectionStatus = s.connectionStatus) : Collects s s' := by
  constructor
  · rw [h]
  · rw [h, symmDiff_self]
    exact Finset.empty_subset _

/-- A packet makes a host collect what it changes. -/
theorem collects_packet (hstatus : s.connectionStatus.status = .connectedAsHost)
    {packet : WifiPacket NodeInfo} (h : onWifiPacketReceived around s packet = some out) :
    Collects s out.console := by
  cases (takes_of_onWifiPacketReceived h).1 with
  | seats hframe hhost hentry hwaits hroom htype hnext hseat =>
      obtain ⟨hplace, rfl⟩ := admitClient_eq_some hseat
      constructor
      · rw [bits_or_one_shiftLeft _ hplace]
        exact Finset.subset_insert ..
      · rw [bits_or_one_shiftLeft _ hplace, bits_or_one_shiftLeft _ hplace]
        intro i hi
        rw [Finset.mem_symmDiff, Finset.mem_insert] at hi
        rw [Finset.mem_insert]
        tauto
  | losesClient hframe hhost hentry hplace =>
      simp only [Console.freePlace, Console.resetNode, Console.forget]
      constructor
      · rw [bits_or_one_shiftLeft _ hplace]
        exact Finset.subset_insert ..
      · rw [bits_and_not_one_shiftLeft _ hplace, bits_or_one_shiftLeft _ hplace]
        intro i hi
        rw [Finset.mem_symmDiff, Finset.mem_erase] at hi
        rw [Finset.mem_insert]
        tauto
  | queues => exact .of_eq (sameTables_enqueue s _).connectionStatus
  | connects _ hconnecting => simp [hstatus] at hconnecting
  | refreshes _ hmember => simp [hstatus, NetworkStatus.isMember] at hmember
  | _ => exact .of_eq rfl

/-- A step of a host either answers what changed or collects it. -/
theorem collects_react (hstatus : s.connectionStatus.status = .connectedAsHost)
    {event : Event NodeInfo} (hgoesOn : event.endsHosting = false)
    (hout : s.react around event = some out) :
    out.console.connectionStatus.status = .connectedAsHost ∧
      (Collects s out.console ∨
        out.console.connectionStatus.nodeBitmask = s.connectionStatus.nodeBitmask ∧
          out.answer = .connectionStatus s.connectionStatus) := by
  cases event with
  | call call =>
      rcases call_goesOn hgoesOn hout with rfl | hsame
      · exact ⟨hstatus, .inr ⟨rfl, rfl⟩⟩
      · exact ⟨hsame.connectionStatus ▸ hstatus, .inl (.of_eq hsame.connectionStatus)⟩
  | packet packet =>
      exact ⟨(status_eq_host_iff hout).mpr hstatus, .inl (collects_packet hstatus hout)⟩

/-- What a host has collected it keeps until it has told the game. -/
theorem collected_or_reported (hstatus : s.connectionStatus.status = .connectedAsHost)
    {events : List (Surroundings × Event NodeInfo)}
    (hgoesOn : ∀ event ∈ events, event.2.endsHosting = false) {answers : List (Answer NodeInfo)}
    (hrun : runEvents s events = some (s', answers)) {i : ℕ}
    (hchange : i ∈ bits s.connectionStatus.changedNodes ∨
      i ∈ symmDiff (bits s.connectionStatus.nodeBitmask) (bits s'.connectionStatus.nodeBitmask)) :
    i ∈ bits s'.connectionStatus.changedNodes ∨ Reported answers i := by
  induction events generalizing s answers with
  | nil =>
      simp only [runEvents, Option.some.injEq, Prod.mk.injEq] at hrun
      obtain ⟨rfl, rfl⟩ := hrun
      rcases hchange with hchange | hchange
      · exact .inl hchange
      · rw [symmDiff_self] at hchange
        exact absurd hchange (Finset.notMem_empty i)
  | cons event events ih =>
      obtain ⟨around, event⟩ := event
      simp only [runEvents, Option.bind_eq_bind, Option.bind_eq_some_iff, Option.some.injEq,
        Prod.mk.injEq, Prod.exists] at hrun
      obtain ⟨out, hout, last, rest, hrest, rfl, rfl⟩ := hrun
      obtain ⟨hstatus', hstep⟩ :=
        collects_react hstatus (hgoesOn _ (List.mem_cons_self ..)) hout
      have hlater (hchange' : i ∈ bits out.console.connectionStatus.changedNodes ∨
          i ∈ symmDiff (bits out.console.connectionStatus.nodeBitmask)
            (bits last.connectionStatus.nodeBitmask)) :
          i ∈ bits last.connectionStatus.changedNodes ∨ Reported (out.answer :: rest) i := by
        have hgoesOn' : ∀ event ∈ events, event.2.endsHosting = false := fun later hmem =>
          hgoesOn later (List.mem_cons_of_mem _ hmem)
        refine (ih hstatus' hgoesOn' hrest hchange').imp_right ?_
        rintro ⟨cs, hmem, hcs⟩
        exact ⟨cs, List.mem_cons_of_mem _ hmem, hcs⟩
      rcases hstep with hcollects | ⟨hmask, hanswer⟩
      · apply hlater
        rcases hchange with hchange | hchange
        · exact .inl (hcollects.keeps hchange)
        · by_cases hnow : i ∈ symmDiff (bits s.connectionStatus.nodeBitmask)
              (bits out.console.connectionStatus.nodeBitmask)
          · exact .inl (hcollects.adds hnow)
          · right
            rw [Finset.mem_symmDiff] at hchange hnow ⊢
            tauto
      · rcases hchange with hchange | hchange
        · exact .inr ⟨s.connectionStatus, by simp [hanswer], hchange⟩
        · apply hlater
          right
          rwa [hmask]

/-- **A host loses no change.** Between any two moments of a network, a node that was connected
at one of them and not at the other is among the changes that the host has told the game, or
has ready for the next time it asks. -/
theorem host_loses_no_change (hstatus : s.connectionStatus.status = .connectedAsHost)
    {events : List (Surroundings × Event NodeInfo)}
    (hgoesOn : ∀ event ∈ events, event.2.endsHosting = false) {answers : List (Answer NodeInfo)}
    (hrun : runEvents s events = some (s', answers)) {i : ℕ}
    (hchanged : ¬ (i ∈ bits s.connectionStatus.nodeBitmask ↔
      i ∈ bits s'.connectionStatus.nodeBitmask)) :
    i ∈ bits s'.connectionStatus.changedNodes ∨ Reported answers i := by
  apply collected_or_reported hstatus hgoesOn hrun
  right
  rw [Finset.mem_symmDiff]
  tauto

/-- The packets of a console that joins as a client. -/
def joins (a : MacAddress) : List (Surroundings × Event PlainNode) :=
  [ (sampleSurroundings, .packet (sampleRequest a)),
    (sampleSurroundings, .packet (sampleSession a .client)) ]

/-- A console joins, the game asks for the status and another console joins. -/
theorem host_loses_no_change_joined : ∃ s answers,
    runEvents foundedHost (joins (Vector.replicate 6 2) ++
        [(sampleSurroundings, .call .getConnectionStatus)] ++ joins (Vector.replicate 6 3)) =
      some (s, answers) ∧
      ∀ i, ¬ (i ∈ bits foundedHost.connectionStatus.nodeBitmask ↔
          i ∈ bits s.connectionStatus.nodeBitmask) →
        i ∈ bits s.connectionStatus.changedNodes ∨ Reported answers i := by
  let events := joins (Vector.replicate 6 2) ++
    [(sampleSurroundings, .call .getConnectionStatus)] ++ joins (Vector.replicate 6 3)
  have hgoesOn : ∀ event ∈ events, event.2.endsHosting = false := by
    simp [events, joins, Event.endsHosting]
  exact ⟨_, _, rfl, fun i hchanged => host_loses_no_change rfl hgoesOn rfl hchanged⟩

/-! ## Clients -/

/-- What a connected console has to tell after a logoff frame: what the frame changed. -/
theorem changedNodes_refreshConnection {logoff : EAPoLLogoff NodeInfo}
    (h : refreshConnection s logoff = some out) :
    bits out.console.connectionStatus.changedNodes =
      symmDiff (bits s.connectionStatus.nodeBitmask)
        (bits out.console.connectionStatus.nodeBitmask) := by
  obtain ⟨view, -, rfl⟩ := refreshConnection_eq_some h
  exact bits_xor _ _

/-- A connected console that hears a logoff frame refreshes its tables. -/
theorem refreshConnection_of_isMember {packet : WifiPacket NodeInfo}
    {logoff : EAPoLLogoff NodeInfo} (hinit : s.initialized = true)
    (hmember : s.connectionStatus.status.isMember = true)
    (hframe : packet.frame = .eapolLogoff logoff)
    (hout : onWifiPacketReceived around s packet = some out) :
    refreshConnection s logoff = some out := by
  simp only [onWifiPacketReceived, hinit, hframe, Bool.not_true, Bool.false_eq_true,
    if_false] at hout
  rcases isMember_iff.mp hmember with hstatus | hstatus <;>
    simpa [handleEAPoLLogoff, hstatus] using hout

/-- A run that ends as a member and brings no logoff frame leaves the view, and the changes too
if the game does not ask for them. -/
theorem staysMember_runEvents {events : List (Surroundings × Event NodeInfo)}
    {answers : List (Answer NodeInfo)} (hrun : runEvents s events = some (s', answers))
    (hlogoff : ∀ event ∈ events, event.2.isLogoff = false)
    (hmember : s'.connectionStatus.status.isMember = true) :
    s.connectionStatus.status.isMember = true ∧
      s'.connectionStatus.nodeBitmask = s.connectionStatus.nodeBitmask ∧
      ((∀ event ∈ events, event.2.isQuestion = false) →
        s'.connectionStatus.changedNodes = s.connectionStatus.changedNodes) := by
  induction events generalizing s answers with
  | nil =>
      cases hrun
      exact ⟨hmember, rfl, fun _ => rfl⟩
  | cons event events ih =>
      obtain ⟨around, event⟩ := event
      simp only [runEvents, Option.bind_eq_bind, Option.bind_eq_some_iff, Option.some.injEq,
        Prod.mk.injEq, Prod.exists] at hrun
      obtain ⟨out, hout, last, rest, hrest, rfl, -⟩ := hrun
      obtain ⟨hfirst, hlogoff⟩ := List.forall_mem_cons.mp hlogoff
      obtain ⟨hmember', hmask, hchanged⟩ := ih hrest hlogoff
      have hstep := staysMember_react hout hfirst hmember'
      refine ⟨hstep.isMember, hmask.trans hstep.sameView.nodeBitmask, fun hquestion => ?_⟩
      obtain ⟨hquestion, hquestions⟩ := List.forall_mem_cons.mp hquestion
      exact (hchanged hquestions).trans (hstep.changedNodes hquestion)

/-- **A client hears of the last two frames only.** Whatever it heard before and however often
its game asked, what it answers after a logoff frame is what the records of this frame and those
of the one before it differ in. A node that joined before the first of the two and is in both is
not told, also if the game had not asked yet. -/
theorem member_reports_last_difference {first second : WifiPacket NodeInfo}
    {logoff logoff' : EAPoLLogoff NodeInfo} {between after : List (Surroundings × Event NodeInfo)}
    {answers answers' : List (Answer NodeInfo)} {out' : Outcome NodeInfo}
    {s₁ s₂ : Console NodeInfo} {around' : Surroundings}
    (hinit : s.initialized = true) (hmember : s.connectionStatus.status.isMember = true)
    (hframe : first.frame = .eapolLogoff logoff)
    (hout : onWifiPacketReceived around s first = some out)
    (hbetween : ∀ event ∈ between, event.2.isLogoff = false)
    (hrun : runEvents out.console between = some (s₁, answers))
    (hinit₁ : s₁.initialized = true) (hmember₁ : s₁.connectionStatus.status.isMember = true)
    (hframe' : second.frame = .eapolLogoff logoff')
    (hout' : onWifiPacketReceived around' s₁ second = some out')
    (hafter : ∀ event ∈ after, event.2.isLogoff = false ∧ event.2.isQuestion = false)
    (hrun' : runEvents out'.console after = some (s₂, answers'))
    (hmember₂ : s₂.connectionStatus.status.isMember = true) :
    ∃ cs, (getConnectionStatusHLE s₂).answer = .connectionStatus cs ∧
      bits cs.changedNodes =
        symmDiff (recordedPlaces logoff.nodes) (recordedPlaces logoff'.nodes) := by
  have hrefresh := refreshConnection_of_isMember hinit hmember hframe hout
  have hrefresh' := refreshConnection_of_isMember hinit₁ hmember₁ hframe' hout'
  obtain ⟨-, hmask, -⟩ := staysMember_runEvents hrun hbetween hmember₁
  obtain ⟨-, -, hchanged⟩ :=
    staysMember_runEvents hrun' (fun event hmem => (hafter event hmem).1) hmember₂
  refine ⟨s₂.connectionStatus, rfl, ?_⟩
  rw [hchanged fun event hmem => (hafter event hmem).2, changedNodes_refreshConnection hrefresh',
    hmask, (sees_refreshConnection hrefresh).nodeBitmask,
    (sees_refreshConnection hrefresh').nodeBitmask]

/-- A member of a network of three places. -/
def sampleMember : Console PlainNode :=
  { newConsole with
    initialized := true
    connectionStatus := { status := .connectedAsClient }
    networkInfo := { maxNodes := 3 } }

/-- A logoff frame of its host. -/
def sampleLogoff (ids : List UInt16) : WifiPacket PlainNode where
  frame := .eapolLogoff (Header.eapolLogoff (Vector.replicate 6 2) 2
    (ids.map fun id => { networkNodeId := id }) 3 (UInt8.ofNat ids.length))
  channel := 11
  destinationAddress := Header.broadcastMac PlainNode

/-- The member has heard of two consoles next to the host, and then of one. -/
def heardThree : Outcome PlainNode :=
  (onWifiPacketReceived sampleSurroundings sampleMember (sampleLogoff [1, 2, 3])).getD
    { console := sampleMember }

def heardTwo : Outcome PlainNode :=
  (onWifiPacketReceived sampleSurroundings heardThree.console (sampleLogoff [1, 2])).getD
    { console := sampleMember }

/-- Of the second frame only the console that is gone is told, of the first one nothing. -/
theorem member_reports_last_difference_twice :
    onWifiPacketReceived sampleSurroundings sampleMember (sampleLogoff [1, 2, 3]) =
        some heardThree ∧
      onWifiPacketReceived sampleSurroundings heardThree.console (sampleLogoff [1, 2]) =
        some heardTwo ∧
      ∃ cs, (getConnectionStatusHLE heardTwo.console).answer = .connectionStatus cs ∧
        bits cs.changedNodes = {2} := by
  let asks : List (Surroundings × Event PlainNode) :=
    [(sampleSurroundings, .call (.getNodeInformation 3))]
  have hout : onWifiPacketReceived sampleSurroundings sampleMember (sampleLogoff [1, 2, 3]) =
      some heardThree := rfl
  have hout' : onWifiPacketReceived sampleSurroundings heardThree.console (sampleLogoff [1, 2]) =
      some heardTwo := rfl
  have hrun : runEvents heardThree.console asks =
      some (heardThree.console, [.nodeInformation { networkNodeId := 3 }]) := rfl
  have hbetween : ∀ event ∈ asks, event.2.isLogoff = false := by decide
  obtain ⟨cs, hanswer, hbits⟩ := member_reports_last_difference (s := sampleMember) rfl rfl rfl hout
    hbetween hrun rfl rfl rfl hout' (List.forall_mem_nil _) rfl rfl
  refine ⟨hout, hout', cs, hanswer, hbits.trans ?_⟩
  decide

end ManicRoom.Uds
