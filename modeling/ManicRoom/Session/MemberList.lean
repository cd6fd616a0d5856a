/-
# The member list of a snapshot

The room-information callback rebuilds the member list in place, and six other operations
clear it. Beside the session a record keeps the room-information packets of the current
session, as they were parsed. Every snapshot that can be read shows no members or exactly
those of one of these packets, cut off at 254 entries and 20 bytes a name.
-/

import ManicRoom.Session.Invariant

namespace ManicRoom.Session

open ManicRoom.Foundation
open Member (Nickname CallerInput LoopInput HandlerOp Invocation)

/-! ## What a list shows -/

/-- An entry of 21 bytes: at most 20 of the nickname, and zeros. -/
def shownName (nickname : Nickname) (position : Fin 21) : UInt8 :=
  (nickname.take 20).getD position.val 0

/-- The snapshot shows these members: at most 254 of them, and nothing behind them. -/
structure Snapshot.Shows (snapshot : Snapshot) (members : List Nickname) : Prop where
  memberCount : snapshot.memberCount = min members.length 254
  name : ∀ (entry : Fin 254) (nickname : Nickname), members[entry.val]? = some nickname →
    snapshot.members entry = shownName nickname
  rest : ∀ entry : Fin 254, members.length ≤ entry.val → snapshot.members entry = fun _ => 0

theorem Snapshot.shows_nil {snapshot : Snapshot} (h : snapshot.Cleared) : snapshot.Shows [] where
  memberCount := h.memberCount
  name entry nickname hget := by simp at hget
  rest entry _ := by rw [h.members]

/-- One more entry shows one more member. -/
theorem Snapshot.Shows.addMember {snapshot : Snapshot} {members : List Nickname}
    (h : snapshot.Shows members) (hroom : snapshot.memberCount ≠ 254) (nickname : Nickname) :
    (snapshot.addMember nickname).Shows (members ++ [nickname]) := by
  have hcount := h.memberCount
  have hlength : members.length < 254 := by omega
  have hmember : snapshot.memberCount = members.length := by omega
  refine ⟨?_, ?_, ?_⟩
  · simp only [Snapshot.addMember, List.length_append, List.length_singleton]
    omega
  · intro entry other hget
    funext position
    by_cases hbefore : entry.val < members.length
    · rw [List.getElem?_append_left hbefore] at hget
      have hentry : ¬ (entry.val = snapshot.memberCount ∧
          position.val < min nickname.length 20) := by
        rintro ⟨heq, -⟩
        omega
      simp only [Snapshot.addMember, if_neg hentry, h.name entry other hget]
    · have hlast : entry.val = members.length := by
        have hinside := (List.getElem?_eq_some_iff.mp hget).1
        rw [List.length_append, List.length_singleton] at hinside
        omega
      rw [hlast, List.getElem?_concat_length] at hget
      cases hget
      simp only [Snapshot.addMember, hmember, hlast, true_and,
        h.rest entry (by omega), shownName]
      split
      · next hposition =>
        rw [List.getD_eq_getElem?_getD, List.getD_eq_getElem?_getD,
          List.getElem?_take_of_lt (by omega)]
      · next hposition =>
        have hbehind : (nickname.take 20).length ≤ position.val := by
          rw [List.length_take]
          omega
        rw [List.getD_eq_getElem?_getD, List.getElem?_eq_none hbehind]
        rfl
  · intro entry hentry
    rw [List.length_append, List.length_singleton] at hentry
    funext position
    have hother : ¬ (entry.val = snapshot.memberCount ∧
        position.val < min nickname.length 20) := by
      rintro ⟨heq, -⟩
      omega
    simp only [Snapshot.addMember, if_neg hother, h.rest entry (by omega)]

/-- The loop of the callback stops at the end of the list or at 254 entries. -/
theorem Snapshot.Shows.addMembers {snapshot : Snapshot} {members nicknames : List Nickname}
    (h : snapshot.Shows members) :
    (snapshot.addMembers nicknames).Shows (members ++ nicknames) := by
  induction nicknames generalizing snapshot members with
  | nil => simpa [Snapshot.addMembers] using h
  | cons nickname nicknames ih =>
      simp only [Snapshot.addMembers]
      split
      · next hfull =>
        have hlength : 254 ≤ members.length := by
          have := h.memberCount
          omega
        refine ⟨?_, ?_, ?_⟩
        · rw [hfull, List.length_append]
          omega
        · intro entry other hget
          rw [List.getElem?_append_left (by omega)] at hget
          exact h.name entry other hget
        · intro entry hentry
          rw [List.length_append] at hentry
          omega
      · next hroom =>
        have hadded := ih (h.addMember hroom nickname)
        rwa [List.append_assoc, List.singleton_append] at hadded

/-- A list that is cleared and filled shows what it was filled with. -/
theorem Snapshot.shows_rebuilt (snapshot : Snapshot) (members : List Nickname) :
    (snapshot.clearMembers.addMembers members).Shows members := by
  have hcleared : snapshot.clearMembers.Cleared := ⟨rfl, rfl⟩
  simpa using @Snapshot.Shows.addMembers _ [] members (Snapshot.shows_nil hcleared)

/-- The members that are shown are those of another snapshot. -/
structure Snapshot.SameMembers (snapshot other : Snapshot) : Prop where
  memberCount : other.memberCount = snapshot.memberCount
  members : other.members = snapshot.members

/-! ## The record -/

/-- The room-information packets of the current session, the latest last. -/
abbrev Packets := List (List Nickname)

/-- A session begins when its worker is started and ends when that publishes `AZ_ROOM_IDLE`;
its packets arrive on its loop thread. -/
def observePackets (s : State) (label : Label) (packets : Packets) : Packets :=
  match label with
  | .api .go =>
      match s.api with
      | some (.requestStart _) => []
      | _ => packets
  | .run .go =>
      match s.worker.map Worker.position with
      | some .publish => []
      | _ => packets
  | .loop (.event (.receive (.roomInformation members))) =>
      if s.member.loopThread = some .service then packets ++ [members] else packets
  | _ => packets

/-- The session with the record beside it. -/
def memberLists : System (State × Packets) Label := system.observed [] observePackets

/-- The list shows nobody, or the members of one packet of the session. -/
def ShowsPacket (snapshot : Snapshot) (packets : Packets) : Prop :=
  snapshot.Cleared ∨ ∃ members ∈ packets, snapshot.Shows members

/-- What the loop thread is about to store or to show is a packet of the session. -/
def Handling (member : Member.State) (packets : Packets) : Prop :=
  ∀ ops, member.loopThread = some (.handle ops) → .invokeRoomInformation ∈ ops →
    (∃ members ∈ packets, ops = [.storeMembers members, .invokeRoomInformation]) ∨
      ops = [.invokeRoomInformation] ∧ member.memberInformation ∈ packets

/-- The invariant of the member list. -/
structure MemberListFacts (s : State) (packets : Packets) : Prop where
  shown : ShowsPacket s.snapshot packets
  handling : Handling s.member packets
  announced : ∀ accepted, s.api = some (.requestUnfinish accepted) ∨
    s.api = some (.requestStart accepted) → s.snapshot.Cleared

theorem memberListFacts_init : MemberListFacts {} [] where
  shown := .inl ⟨rfl, rfl⟩
  handling ops h := by cases h
  announced accepted h := by
    rcases h with h | h <;> cases h

theorem Snapshot.Cleared.congr {snapshot other : Snapshot} (h : snapshot.Cleared)
    (same : snapshot.SameMembers other) : other.Cleared :=
  ⟨same.memberCount.trans h.memberCount, same.members.trans h.members⟩

theorem Snapshot.Shows.congr {snapshot other : Snapshot} {members : List Nickname}
    (h : snapshot.Shows members) (same : snapshot.SameMembers other) : other.Shows members where
  memberCount := same.memberCount.trans h.memberCount
  name entry nickname hget := by rw [same.members, h.name entry nickname hget]
  rest entry hentry := by rw [same.members, h.rest entry hentry]

theorem ShowsPacket.congr {snapshot other : Snapshot} {packets : Packets}
    (h : ShowsPacket snapshot packets) (same : snapshot.SameMembers other) :
    ShowsPacket other packets := by
  rcases h with hcleared | ⟨members, hmem, hshows⟩
  · exact .inl (hcleared.congr same)
  · exact .inr ⟨members, hmem, hshows.congr same⟩

theorem ShowsPacket.append {snapshot : Snapshot} {packets : Packets}
    (h : ShowsPacket snapshot packets) (members : List Nickname) :
    ShowsPacket snapshot (packets ++ [members]) := by
  rcases h with hcleared | ⟨shown, hmem, hshows⟩
  · exact .inl hcleared
  · exact .inr ⟨shown, List.mem_append_left _ hmem, hshows⟩

theorem Handling.of_none {member : Member.State} {packets : Packets}
    (h : member.loopThread = none) : Handling member packets := by
  intro ops hops
  rw [h] at hops
  cases hops

theorem Handling.congr {member other : Member.State} {packets : Packets}
    (h : Handling member packets) (hloop : other.loopThread = member.loopThread)
    (hinformation : other.memberInformation = member.memberInformation) :
    Handling other packets := by
  intro ops hops hinvoke
  rw [hinformation]
  exact h ops (hloop ▸ hops) hinvoke

/-- A step that shows what was shown, or nobody, beside a member that goes on. -/
theorem MemberListFacts.pass {s t : State} {packets : Packets} (facts : MemberListFacts s packets)
    (hshown : s.snapshot.SameMembers t.snapshot ∨ t.snapshot.Cleared)
    (handling : Handling t.member packets)
    (hannounced : ∀ accepted, t.api = some (.requestUnfinish accepted) ∨
      t.api = some (.requestStart accepted) → t.snapshot.Cleared) :
    MemberListFacts t packets where
  shown := by
    rcases hshown with same | hcleared
    · exact facts.shown.congr same
    · exact .inl hcleared
  handling := handling
  announced := hannounced

/-! ## Steps of the calls -/

theorem memberListFacts_callStep {s t : State} {input : ApiInput} {packets : Packets}
    (facts : MemberListFacts s packets) (h : callStep s input = some t) :
    MemberListFacts t packets := by
  unfold callStep at h
  split at h
  all_goals repeat' (split at h)
  all_goals cases h
  all_goals first
    | exact facts.pass (.inl ⟨rfl, rfl⟩) facts.handling facts.announced
    | (refine facts.pass (.inl ⟨rfl, rfl⟩) facts.handling ?_
       intro accepted hapi
       rcases hapi with hapi | hapi <;> cases hapi)
    | (refine facts.pass (.inl ⟨rfl, rfl⟩) facts.handling ?_
       intro accepted hapi
       exact ⟨(facts.announced accepted hapi).memberCount, (facts.announced accepted hapi).members⟩)

/-- A call shows what was shown, or nobody. -/
theorem apiStep_shown {s t : State} {input : ApiInput} (h : apiStep s input = some t) :
    s.snapshot.SameMembers t.snapshot ∨ t.snapshot.Cleared := by
  unfold apiStep at h
  split at h
  all_goals repeat' (split at h)
  all_goals cases h
  all_goals first | exact .inl ⟨rfl, rfl⟩ | exact .inr ⟨rfl, rfl⟩

/-- The positions behind the announcement are reached from it. -/
theorem apiStep_announced {s t : State} {input : ApiInput} {accepted : Accepted}
    (h : apiStep s input = some t)
    (hapi : t.api = some (.requestUnfinish accepted) ∨ t.api = some (.requestStart accepted)) :
    t.snapshot.Cleared ∨ s.snapshot.SameMembers t.snapshot ∧
      s.api = some (.requestUnfinish accepted) := by
  unfold apiStep at h
  split at h
  all_goals repeat' (split at h)
  all_goals cases h
  all_goals first
    | (rcases hapi with hapi | hapi <;> cases hapi; done)
    | exact .inl ⟨rfl, rfl⟩
    | (rcases hapi with hapi | hapi <;> cases hapi
       exact .inr ⟨⟨rfl, rfl⟩, ‹_›⟩)

/-- The record is only begun anew where a worker is started. -/
theorem observePackets_api (s : State) (input : ApiInput) (packets : Packets) :
    observePackets s (.api input) packets = packets ∨
      observePackets s (.api input) packets = [] ∧
        ∃ accepted, s.api = some (.requestStart accepted) := by
  cases input with
  | go =>
      simp only [observePackets]
      split
      · next accepted hapi => exact .inr ⟨rfl, accepted, hapi⟩
      · exact .inl rfl
  | _ => exact .inl rfl

theorem memberListFacts_apiStep {s t : State} {input : ApiInput} {packets : Packets}
    (inv : Wellformed s) (facts : MemberListFacts s packets) (h : apiStep s input = some t) :
    MemberListFacts t (observePackets s (.api input) packets) := by
  have announced (accepted : Accepted)
      (hapi : t.api = some (.requestUnfinish accepted) ∨ t.api = some (.requestStart accepted)) :
      t.snapshot.Cleared := by
    rcases apiStep_announced h hapi with hcleared | ⟨same, hsource⟩
    · exact hcleared
    · exact (facts.announced accepted (.inl hsource)).congr same
  have handling (hnone : t.member = {} ∨ s.member.loopThread = none) :
      ∀ packets, Handling t.member packets := by
    intro packets
    apply Handling.of_none
    rcases apiStep_member h with hsame | hfresh
    · rcases hnone with hfresh | hnone
      · rw [hfresh]
      · rw [hsame, hnone]
    · rw [hfresh]
  rcases observePackets_api s input packets with hpackets | ⟨hpackets, accepted, hapi⟩
  · rw [hpackets]
    refine facts.pass (apiStep_shown h) ?_ announced
    rcases apiStep_member h with hsame | hfresh
    · rw [hsame]
      exact facts.handling
    · exact handling (.inl hfresh) packets
  · rw [hpackets]
    have hcleared : t.snapshot.Cleared := by
      rcases apiStep_shown h with same | hcleared
      · exact (facts.announced accepted (.inr hapi)).congr same
      · exact hcleared
    have hquiet := (inv.noWorker (inv.api _ hapi).2.2).1
    exact ⟨.inl hcleared, handling (.inr hquiet.loopThread) [], announced⟩

/-! ## Steps of the threads -/

/-- The callbacks of the caller of `Join` and `Leave` do not touch the members. -/
theorem invoke?_caller (s : State) (member : Member.State) :
    s.snapshot.SameMembers (s.invoke? (Member.callerInvokes member)).snapshot := by
  unfold Member.callerInvokes
  split
  all_goals
    simp only [State.invoke?, State.invoke]
    try split
  all_goals exact ⟨rfl, rfl⟩

/-- Inside `Join` and `Leave` the member's loop thread begins at its condition. -/
theorem handling_callerStep {member other : Member.State} {input : CallerInput}
    {packets : Packets} (handling : Handling member packets)
    (h : Member.callerStep member input = some other) : Handling other packets := by
  cases Member.callerStep_effect h with
  | startLoop =>
      intro ops hops
      cases hops
  | joinThread =>
      intro ops hops
      cases hops
  | _ => exact handling.congr rfl rfl

theorem memberStep_shown {s t : State} {input : CallerInput} (h : memberStep s input = some t) :
    s.snapshot.SameMembers t.snapshot := by
  unfold memberStep at h
  split at h
  · split at h
    · cases h
    · cases h
      split
      · exact invoke?_caller s s.member
      · exact ⟨rfl, rfl⟩
  · cases h

/-- `Run` shows what was shown, or nobody. -/
theorem runStep_shown {s t : State} {worker : Worker} {input : RunInput}
    (h : runStep s worker input = some t) :
    s.snapshot.SameMembers t.snapshot ∨ t.snapshot.Cleared := by
  unfold runStep at h
  split at h
  all_goals repeat' (split at h)
  all_goals cases h
  all_goals first
    | exact .inl ⟨rfl, rfl⟩
    | exact .inr ⟨rfl, rfl⟩
    | (have same := memberStep_shown ‹memberStep s _ = some _›
       exact .inl ⟨same.memberCount, same.members⟩)

/-- The record also ends where the worker publishes. -/
theorem observePackets_run {s : State} {worker : Worker} (hworker : s.worker = some worker)
    (input : RunInput) (packets : Packets) :
    observePackets s (.run input) packets = packets ∨
      observePackets s (.run input) packets = [] ∧ input = .go ∧ worker.position = .publish := by
  cases input with
  | go =>
      simp only [observePackets, hworker, Option.map_some]
      split
      · next hposition => exact .inr ⟨rfl, trivial, Option.some.inj hposition⟩
      · exact .inl rfl
  | _ => exact .inl rfl

theorem memberListFacts_runStep {s t : State} {worker : Worker} {input : RunInput}
    {packets : Packets} (inv : Wellformed s) (facts : MemberListFacts s packets)
    (hworker : s.worker = some worker) (h : runStep s worker input = some t) :
    MemberListFacts t (observePackets s (.run input) packets) := by
  have announced (accepted : Accepted)
      (hapi : t.api = some (.requestUnfinish accepted) ∨ t.api = some (.requestStart accepted)) :
      t.snapshot.Cleared := by
    rw [runStep_api h] at hapi
    have hcleared := facts.announced accepted hapi
    rcases runStep_shown h with same | hcleared
    · exact hcleared.congr same
    · exact hcleared
  rcases observePackets_run hworker input packets with hpackets | ⟨hpackets, rfl, hposition⟩
  · rw [hpackets]
    refine facts.pass (runStep_shown h) ?_ announced
    rcases runStep_member h with hsame | ⟨input, hmember⟩
    · rw [hsame]
      exact facts.handling
    · exact handling_callerStep facts.handling hmember
  · have hquiet : Quiet s.member := by
      have hfacts := inv.run worker hworker
      rw [hposition] at hfacts
      exact hfacts
    rw [hpackets]
    simp only [runStep, hposition, Option.some.injEq] at h
    rw [← h] at announced ⊢
    exact ⟨.inl ⟨rfl, rfl⟩, Handling.of_none hquiet.loopThread, announced⟩

/-- Only a room-information packet leads to its callbacks. -/
theorem handleEvent_invokes {event : Member.Event}
    (h : .invokeRoomInformation ∈ Member.handleEvent event) :
    ∃ members, event = .receive (.roomInformation members) := by
  cases event with
  | receive message =>
      cases message with
      | roomInformation members => exact ⟨members, rfl⟩
      | _ => simp [Member.handleEvent, Member.handleMessage, Member.reject] at h
  | _ => simp [Member.handleEvent, Member.reject] at h

/-- An operation of a handler that is not about the members leaves them to come. -/
theorem handling_handlerStep {member : Member.State} {op : HandlerOp} {ops : List HandlerOp}
    {packets : Packets} (handling : Handling member packets)
    (hloop : member.loopThread = some (.handle (op :: ops))) :
    Handling (Member.handlerStep op ops member) packets := by
  intro later hlater hinvoke
  have before (hmem : .invokeRoomInformation ∈ ops) :
      op = .invokeRoomInformation ∧ ops = [] ∨
        ∃ members ∈ packets, op = .storeMembers members ∧ ops = [.invokeRoomInformation] := by
    rcases handling (op :: ops) hloop (List.mem_cons_of_mem _ hmem) with
      ⟨members, hmembers, heq⟩ | ⟨heq, -⟩
    · cases heq
      exact .inr ⟨members, hmembers, rfl, rfl⟩
    · cases heq
      exact .inl ⟨rfl, rfl⟩
  cases op with
  | storeMembers members =>
      cases hlater
      rcases before hinvoke with ⟨hop, -⟩ | ⟨stored, hstored, hop, rfl⟩
      · cases hop
      · cases hop
        exact .inr ⟨rfl, hstored⟩
  | invokeRoomInformation =>
      cases hlater
      rcases before hinvoke with ⟨-, rfl⟩ | ⟨members, -, hop, -⟩
      · cases hinvoke
      · cases hop
  | _ =>
      simp only [Member.handlerStep] at hlater
      have hmem : .invokeRoomInformation ∈ ops := by
        repeat' (split at hlater)
        all_goals cases hlater
        all_goals simpa using hinvoke
      rcases before hmem with ⟨hop, -⟩ | ⟨members, -, hop, -⟩ <;> cases hop

/-- What is recorded when the loop thread takes a step. -/
theorem observePackets_loop (s : State) (input : LoopInput) (packets : Packets) :
    observePackets s (.loop input) packets = packets ∨
      ∃ members, input = .event (.receive (.roomInformation members)) ∧
        observePackets s (.loop input) packets = packets ++ [members] := by
  simp only [observePackets]
  split
  · next heq => cases heq
  · next heq => cases heq
  · next members heq =>
    cases heq
    split
    · exact .inr ⟨members, rfl, rfl⟩
    · exact .inl rfl
  · exact .inl rfl

/-- The packet that is received is the one that will be stored and shown. -/
theorem handling_loopStep {s : State} {member : Member.State} {input : LoopInput}
    {packets : Packets} (handling : Handling s.member packets)
    (h : Member.loopStep s.member input = some member) :
    Handling member (observePackets s (.loop input) packets) := by
  have unhandled {position : Member.LoopPosition} (hposition : member.loopThread = some position)
      (hother : ∀ ops, position ≠ .handle ops) (packets : Packets) : Handling member packets := by
    intro ops hops
    rw [hposition] at hops
    exact absurd (Option.some.inj hops) (hother ops)
  unfold Member.loopStep at h
  split at h
  case h_3 event hloop =>
    cases h
    intro ops hops hinvoke
    cases hops
    obtain ⟨members, rfl⟩ := handleEvent_invokes hinvoke
    refine .inl ⟨members, ?_, rfl⟩
    simp [observePackets, hloop]
  case h_6 op ops hloop =>
    cases h
    exact handling_handlerStep handling hloop
  case h_10 hloop =>
    cases h
    unfold Member.disconnect
    repeat' split
    all_goals
      intro ops hops
      cases hops
  case h_13 event hevent hloop =>
    cases h
    intro ops hops
    rw [hloop] at hops
    cases hops
  case h_14 hloop =>
    cases h
    intro ops hops
    rw [hloop] at hops
    cases hops
  all_goals repeat' (split at h)
  all_goals cases h
  all_goals
    intro ops hops hinvoke
    cases hops
    try cases hinvoke

/-- A callback of the loop thread shows what was shown, or a packet of the session. -/
theorem shown_loopInvokes {s : State} {packets : Packets} (shown : ShowsPacket s.snapshot packets)
    (handling : Handling s.member packets) :
    ShowsPacket (s.invoke? (Member.loopInvokes s.member)).snapshot packets := by
  unfold Member.loopInvokes
  split
  · next state ops hloop =>
    simp only [State.invoke?, State.invoke]
    split
    · exact shown.congr ⟨rfl, rfl⟩
    · exact shown
  · next error ops hloop =>
    simp only [State.invoke?, State.invoke]
    split
    · exact shown.congr ⟨rfl, rfl⟩
    · exact shown
  · next ops hloop =>
    simp only [State.invoke?, State.invoke]
    split
    · right
      rcases handling _ hloop List.mem_cons_self with ⟨members, -, heq⟩ | ⟨-, hmem⟩
      · cases heq
      · exact ⟨s.member.memberInformation, hmem, s.snapshot.shows_rebuilt _⟩
    · exact shown
  · exact shown

theorem memberListFacts_loopStep {s t : State} {input : LoopInput} {packets : Packets}
    (inv : Wellformed s) (facts : MemberListFacts s packets) (h : loopStep s input = some t) :
    MemberListFacts t (observePackets s (.loop input) packets) := by
  obtain ⟨member, snapshot, hmember, ht, -⟩ := loopStep_eq h
  have hshown : ShowsPacket t.snapshot packets := by
    simp only [loopStep, hmember, Option.some.injEq] at h
    rw [← h]
    dsimp only
    split
    · exact shown_loopInvokes facts.shown facts.handling
    · exact facts.shown
  refine ⟨?_, ?_, ?_⟩
  · rcases observePackets_loop s input packets with hpackets | ⟨members, -, hpackets⟩
    · rw [hpackets]
      exact hshown
    · rw [hpackets]
      exact hshown.append members
  · rw [ht]
    exact handling_loopStep facts.handling hmember
  · intro accepted hapi
    -- There is no loop thread at these positions of a call.
    obtain ⟨worker, hworker, -⟩ := inv.active_of_loop (Member.loopStep_thread hmember).1
    rw [ht] at hapi
    have hnone : s.worker = none := by
      rcases hapi with hapi | hapi
      · exact (inv.api _ hapi).2.2
      · exact (inv.api _ hapi).2.2
    rw [hnone] at hworker
    cases hworker

/-- The emulation thread leaves the members and the loop thread alone. -/
theorem emulationStep_memberInformation {member other : Member.State}
    {input : Member.EmulationInput} (h : Member.emulationStep member input = some other) :
    other.memberInformation = member.memberInformation := by
  unfold Member.emulationStep at h
  split at h
  all_goals repeat' (split at h)
  all_goals cases h
  all_goals rfl

theorem memberListFacts_of_reachable {pair : State × Packets} (h : memberLists.Reachable pair) :
    MemberListFacts pair.1 pair.2 := by
  refine System.Reachable.invariant (fun pair => MemberListFacts pair.1 pair.2) ?_ ?_ h
  · intro pair hinit
    obtain ⟨hstate, hpackets⟩ := hinit
    rw [hstate, hpackets]
    exact memberListFacts_init
  · intro source label target prior facts hstep
    obtain ⟨hstep, hpackets⟩ := System.observed_step_iff.mp hstep
    have inv := wellformed_of_reachable (System.Reachable.of_observed prior)
    rw [hpackets]
    cases label with
    | api input =>
        rcases step_api hstep with hcall | hstep
        · have hsame : observePackets source.1 (.api input) source.2 = source.2 := by
            cases input <;> first | rfl | cases hcall
          rw [hsame]
          exact memberListFacts_callStep facts hcall
        · exact memberListFacts_apiStep inv facts hstep
    | run input =>
        obtain ⟨worker, hworker, hstep⟩ := Option.bind_eq_some_iff.mp hstep
        exact memberListFacts_runStep inv facts hworker hstep
    | loop input => exact memberListFacts_loopStep inv facts hstep
    | emulation input =>
        obtain ⟨member, hmember, ht⟩ := emulationStep_eq hstep
        rw [ht]
        have hloop := (Member.emulationStep_thread hmember).2
        exact facts.pass (.inl ⟨rfl, rfl⟩)
          (facts.handling.congr hloop (emulationStep_memberInformation hmember)) facts.announced
    | other input =>
        obtain ⟨network, current, ht⟩ := otherStep_eq hstep
        rw [ht]
        exact facts.pass (.inl ⟨rfl, rfl⟩) facts.handling facts.announced

/-! ## The result -/

/-- `retro_azahar_room_snapshot(out, size)`: what it returns, and the copy that it makes under
`snapshot_mutex`. -/
def State.readSnapshot (s : State) (out : Bool) (size expected : ℕ) : ℤ × Option Snapshot :=
  if ¬ out ∨ size ≠ expected then (1, none) else (0, some s.snapshot)

/-- A member list is whole: it shows nobody, or exactly the members of one packet. -/
structure MemberListWhole (snapshot : Snapshot) (packets : Packets) : Prop where
  shown : ShowsPacket snapshot packets
  count : snapshot.memberCount ≤ 254

/-- **Every snapshot that is read shows a whole member list.** -/
theorem memberListWhole_of_reachable {pair : State × Packets} (h : memberLists.Reachable pair)
    (out : Bool) (size expected : ℕ) (snapshot : Snapshot)
    (hread : (pair.1.readSnapshot out size expected).2 = some snapshot) :
    MemberListWhole snapshot pair.2 := by
  have hsnapshot : snapshot = pair.1.snapshot := by
    unfold State.readSnapshot at hread
    split at hread
    · cases hread
    · cases hread
      rfl
  rw [hsnapshot]
  have facts := memberListFacts_of_reachable h
  refine ⟨facts.shown, ?_⟩
  rcases facts.shown with hcleared | ⟨members, -, hshows⟩
  · rw [hcleared.memberCount]
    exact Nat.zero_le _
  · rw [hshows.memberCount]
    exact Nat.min_le_right _ _

/-- A packet with two members, one of them with a name that is too long, and then a packet
with one. -/
def receivesLists : List Label :=
  joinConnects ++ loopGoes 1 ++
    [.loop (.event (.receive (.roomInformation
      [ascii "a name of twenty-six bytes", ascii "peer"])))] ++ loopGoes 8 ++
    [.loop (.event (.receive (.roomInformation [ascii "peer"])))] ++ loopGoes 2

/-- The second packet is shown in place of the first one. -/
theorem memberListWhole_receivesLists :
    ∃ pair : State × Packets, (pair.1.snapshot.memberCount = 1 ∧ pair.2.length = 2) ∧
      MemberListWhole pair.1.snapshot pair.2 := by
  have hsource : memberLists.init ({}, []) := ⟨rfl, rfl⟩
  obtain ⟨pair, hreach, hshown⟩ :=
    System.exists_reachable_of_run hsource
      receivesLists (fun pair => pair.1.snapshot.memberCount = 1 ∧ pair.2.length = 2)
      (by decide +kernel)
  exact ⟨pair, hshown, memberListWhole_of_reachable hreach true 0 0 _ rfl⟩

end ManicRoom.Session
