/-
# The channels of a game

A game binds a channel and pulls from it what the consoles of its network sent there. A channel
is a queue: what the game pulls is what came for it, in that order, nothing lost and nothing
twice, for as long as the channel stays bound. The exception is a channel that shares its bind
node with a lower one, from which nothing can be pulled.
-/

import ManicRoom.Uds.Changes

namespace ManicRoom.Uds

open ManicRoom.Foundation ManicRoom.Member

variable {NodeInfo : Type}

/-- The console listens on a channel to the sender of the data. -/
def Console.listensTo (s : Console NodeInfo) (data : SecureData) : Bool :=
  (s.channelData.lookup data.dataChannel).any fun channel =>
    decide (channel.networkNodeId = broadcastNetworkNodeId ∨ channel.networkNodeId = data.srcNodeId)

/-- The data is for this console and from another one. -/
def Console.isFor (s : Console NodeInfo) (data : SecureData) : Bool :=
  s.initialized && s.connectionStatus.status.isConnected &&
    decide (data.srcNodeId ≠ s.connectionStatus.networkNodeId ∧
      (data.destNodeId = s.connectionStatus.networkNodeId ∨
        data.destNodeId = broadcastNetworkNodeId))

/-- What a step brings in for a channel. -/
def arrives (s : Console NodeInfo) (channel : ℕ) : Event NodeInfo → List SecureData
  | .packet received =>
      match received.frame with
      | .secureData data =>
          if data.dataChannel = channel ∧ s.isFor data ∧ s.listensTo data then [data] else []
      | _ => []
  | .call _ => []

/-- What the answer to a pull hands to the game: the bytes that count and the sender. -/
def handedOut (bindNodeId : ℕ) : Event NodeInfo → Answer NodeInfo → List (List UInt8 × UInt16)
  | .call (.pullPacket id _ _), .pulled buffer size source =>
      if id = bindNodeId then [(buffer.take size, source)] else []
  | _, _ => []

/-- What the game sees of data it pulls. -/
def SecureData.seen (data : SecureData) : List UInt8 × UInt16 := (data.payload, data.srcNodeId)

/-- The answer to a pull has bytes. An empty channel answers with none, from an arbitrary sender,
so a game cannot tell it from data without bytes. -/
def saysSomething (pulled : List UInt8 × UInt16) : Bool := decide (pulled.1 ≠ [])

/-- The steps that may end a channel of a bind node or put another one before it. -/
def Event.rebinds (bindNodeId : ℕ) : Event NodeInfo → Bool
  | .call (.initializeWithVersion _) | .call .shutdown | .call .destroyNetwork
  | .call .disconnectNetwork => true
  | .call (.bind id _ _ _) | .call (.unbind id) => decide (id = bindNodeId)
  | _ => false

variable {around : Surroundings} {s : Console NodeInfo} {out : Outcome NodeInfo}

/-! ## One channel -/

theorem findBindNode_eq_some_iff {bindNodeId channel : ℕ} {bound : BindNodeData} :
    findBindNode s bindNodeId = some (channel, bound) ↔
      s.channelData.lookup channel = some bound ∧ bound.bindNodeId = bindNodeId ∧
        ∀ lower other, lower < channel → s.channelData.lookup lower = some other →
          other.bindNodeId ≠ bindNodeId := by
  simp only [findBindNode, OrderedMap.find?_entries_eq_some_iff, decide_eq_true_eq,
    decide_eq_false_iff_not, ne_eq]

variable [Header NodeInfo]

/-- What the data of another console does to this one. -/
theorem console_handleSecureDataPacket {packet : WifiPacket NodeInfo} {data : SecureData}
    (hinit : s.initialized = true) (h : handleSecureDataPacket around s packet data = some out) :
    out.console = if s.isFor data then enqueue s data else s := by
  simp only [handleSecureDataPacket, ite_eq_iff, Option.some.injEq, reduceCtorEq, and_false,
    false_or] at h
  simp only [Console.isFor, hinit, Bool.true_and, Bool.and_eq_true, decide_eq_true_eq]
  rcases h with ⟨hstatus, rfl⟩ | ⟨hstatus, ⟨hsource, rfl⟩ | ⟨hsource, ⟨hdest, hrest⟩ |
    ⟨hdest, -, rfl⟩⟩⟩
  · simp_all
  · simp_all
  · have hother : ¬(data.destNodeId = s.connectionStatus.networkNodeId ∨
        data.destNodeId = broadcastNetworkNodeId) := by
      rwa [not_or]
    rw [if_neg (fun hall => hother hall.2.2)]
    rcases hrest with ⟨-, rfl⟩ | ⟨-, ⟨-, rfl⟩ | ⟨-, rfl⟩⟩ <;> rfl
  · have hmine : data.destNodeId = s.connectionStatus.networkNodeId ∨
        data.destNodeId = broadcastNetworkNodeId := by
      by_contra hother
      exact hdest (not_or.mp hother)
    rw [if_pos ⟨by simpa using hstatus, hsource, hmine⟩]

variable {event : Event NodeInfo} {bindNodeId channel : ℕ} {bound : BindNodeData}

/-- The channel of a bind node after a step, and what went in and out of it. -/
structure ChannelStep (s : Console NodeInfo) (event : Event NodeInfo) (out : Outcome NodeInfo)
    (bindNodeId channel : ℕ) (bound bound' : BindNodeData) (pulled : List SecureData) : Prop where
  findBindNode : findBindNode out.console bindNodeId = some (channel, bound')
  conserved : bound.receivedPackets ++ arrives s channel event = pulled ++ bound'.receivedPackets
  handedOut : (handedOut bindNodeId event out.answer).filter saysSomething =
    (pulled.map SecureData.seen).filter saysSomething

omit [Header NodeInfo] in
/-- A new channel of another bind node does not get in the way. -/
theorem findBindNode_bound (hfind : findBindNode s bindNodeId = some (channel, bound))
    {key : ℕ} {new : BindNodeData} (hfree : s.channelData.lookup key = none)
    (hid : new.bindNodeId ≠ bindNodeId) :
    findBindNode { s with channelData := s.channelData.insert key new } bindNodeId =
      some (channel, bound) := by
  obtain ⟨hlookup, hbound, hlower⟩ := findBindNode_eq_some_iff.mp hfind
  have hne : channel ≠ key := by
    rintro rfl
    rw [hlookup] at hfree
    cases hfree
  rw [findBindNode_eq_some_iff]
  simp only [OrderedMap.lookup_insert, if_neg hne]
  refine ⟨hlookup, hbound, ?_⟩
  intro lower other hlt hother
  split at hother
  · cases hother
    exact hid
  · exact hlower lower other hlt hother

omit [Header NodeInfo] in
/-- Nor does the end of such a channel. -/
theorem findBindNode_unbound (hfind : findBindNode s bindNodeId = some (channel, bound))
    {id : ℕ} {entry : ℕ × BindNodeData} (hentry : findBindNode s id = some entry)
    (hid : id ≠ bindNodeId) :
    findBindNode { s with channelData := s.channelData.erase entry.1 } bindNodeId =
      some (channel, bound) := by
  obtain ⟨key, value⟩ := entry
  obtain ⟨hlookup, hbound, hlower⟩ := findBindNode_eq_some_iff.mp hfind
  obtain ⟨hkey, hvalue, -⟩ := findBindNode_eq_some_iff.mp hentry
  have hne : channel ≠ key := by
    rintro rfl
    rw [hkey, Option.some.injEq] at hlookup
    exact hid (hvalue.symm.trans (hlookup ▸ hbound))
  rw [findBindNode_eq_some_iff]
  simp only [OrderedMap.lookup_erase, if_neg hne]
  refine ⟨hlookup, hbound, ?_⟩
  intro lower other hlt hother
  split at hother
  · cases hother
  · exact hlower lower other hlt hother

omit [Header NodeInfo] in
/-- Filling or draining a queue leaves the channel where it is. -/
theorem findBindNode_insert (hfind : findBindNode s bindNodeId = some (channel, bound))
    {key : ℕ} {old : BindNodeData} (hold : s.channelData.lookup key = some old)
    (packets : List SecureData) :
    findBindNode
        { s with channelData := s.channelData.insert key { old with receivedPackets := packets } }
        bindNodeId =
      some (channel,
        if key = channel then { bound with receivedPackets := packets } else bound) := by
  obtain ⟨hlookup, hbound, hlower⟩ := findBindNode_eq_some_iff.mp hfind
  rw [findBindNode_eq_some_iff]
  simp only [OrderedMap.lookup_insert]
  have hrest : ∀ lower other, lower < channel →
      (if lower = key then some { old with receivedPackets := packets }
        else s.channelData.lookup lower) = some other → other.bindNodeId ≠ bindNodeId := by
    intro lower other hlt hother
    split at hother
    · next heq =>
      cases hother
      exact hlower lower old hlt (heq ▸ hold)
    · exact hlower lower other hlt hother
  by_cases hkey : key = channel
  · subst hkey
    rw [hlookup, Option.some.injEq] at hold
    subst hold
    exact ⟨by simp, by simpa using hbound, hrest⟩
  · rw [if_neg (Ne.symm hkey), if_neg hkey]
    exact ⟨hlookup, hbound, hrest⟩

/-- A call takes the first packet of the channel or nothing. -/
theorem exists_called {call : Call NodeInfo}
    (hfind : findBindNode s bindNodeId = some (channel, bound))
    (hkeeps : (Event.call call).rebinds bindNodeId = false)
    (h : onCall around s call = some out) :
    ∃ bound' pulled, ChannelStep s (.call call) out bindNodeId channel bound bound' pulled := by
  cases does_of_onCall h with
  | initializes => cases hkeeps
  | shutsDown => cases hkeeps
  | destroys => cases hkeeps
  | abandons => cases hkeeps
  | leaves => cases hkeeps
  | leavesAll call status =>
      exact ⟨bound, [], hfind, List.append_nil _, by cases call <;> rfl⟩
  | @binds id recvBufferSize dataChannel networkNodeId hfree =>
      have hid : id ≠ bindNodeId := of_decide_eq_false hkeeps
      exact ⟨bound, [], findBindNode_bound hfind hfree hid, List.append_nil _, rfl⟩
  | @unbinds id entry hentry =>
      have hid : id ≠ bindNodeId := of_decide_eq_false hkeeps
      exact ⟨bound, [], findBindNode_unbound hfind hentry hid, List.append_nil _, rfl⟩
  | findsNothing buffer =>
      refine ⟨bound, [], hfind, List.append_nil _, ?_⟩
      simp only [handedOut]
      split <;> simp [saysSomething]
  | @pulls id maxOutBuffSize maxOutBuffSizeAligned key old packet packets padding hkey hpackets =>
      obtain ⟨hold, hid, -⟩ := findBindNode_eq_some_iff.mp hkey
      have hfind' := findBindNode_insert hfind hold packets
      by_cases heq : id = bindNodeId
      · subst heq
        rw [hfind, Option.some.injEq, Prod.mk.injEq] at hkey
        obtain ⟨rfl, rfl⟩ := hkey
        rw [if_pos rfl] at hfind'
        refine ⟨_, [packet], hfind', ?_, ?_⟩
        · simp [arrives, hpackets]
        · simp [handedOut, SecureData.seen]
      · have hne : key ≠ channel := by
          rintro rfl
          obtain ⟨hlookup, hbound, -⟩ := findBindNode_eq_some_iff.mp hfind
          rw [hlookup, Option.some.injEq] at hold
          exact heq (hid.symm.trans (hold ▸ hbound))
        rw [if_neg hne] at hfind'
        refine ⟨bound, [], hfind', List.append_nil _, ?_⟩
        simp [handedOut, heq]
  | _ => exact ⟨bound, [], hfind, List.append_nil _, rfl⟩

/-- Data that comes goes to the end of its channel. -/
theorem exists_arrived {packet : WifiPacket NodeInfo} {data : SecureData}
    (hfind : findBindNode s bindNodeId = some (channel, bound))
    (hframe : packet.frame = .secureData data)
    (h : onWifiPacketReceived around s packet = some out) :
    ∃ bound' pulled, ChannelStep s (.packet packet) out bindNodeId channel bound bound' pulled := by
  have hnothing (hconsole : out.console = s) (hnone : arrives s channel (.packet packet) = []) :
      ∃ bound' pulled,
        ChannelStep s (.packet packet) out bindNodeId channel bound bound' pulled :=
    ⟨bound, [], by rwa [hconsole], by rw [hnone, List.append_nil, List.nil_append], rfl⟩
  unfold onWifiPacketReceived at h
  split at h
  · next hinit =>
    cases h
    apply hnothing rfl
    have hnot : s.isFor data = false := by
      simp [Console.isFor, (Bool.not_eq_true' _).mp hinit]
    simp [arrives, hframe, hnot]
  · next hinit =>
    simp only [hframe] at h
    have hconsole := console_handleSecureDataPacket (by simpa using hinit) h
    by_cases hfor : s.isFor data = true
    · rw [if_pos hfor] at hconsole
      unfold enqueue at hconsole
      split at hconsole
      · next hnone => exact hnothing hconsole (by simp [arrives, hframe, Console.listensTo, hnone])
      · next old hold =>
        split at hconsole
        · next hdeaf =>
          exact hnothing hconsole
            (by simp [arrives, hframe, Console.listensTo, hold, hdeaf.1, hdeaf.2])
        · next hhears =>
          have hfind' := findBindNode_insert hfind hold (old.receivedPackets ++ [data])
          rw [← hconsole] at hfind'
          refine ⟨_, [], hfind', ?_, rfl⟩
          have hlistens : s.listensTo data = true := by
            rw [not_and_or, not_not, not_not] at hhears
            simp [Console.listensTo, hold, hhears]
          by_cases heq : data.dataChannel = channel
          · have hsame : old = bound := by
              have hlookup := (findBindNode_eq_some_iff.mp hfind).1
              rw [← heq, hold, Option.some.injEq] at hlookup
              exact hlookup
            simp [arrives, hframe, hfor, hlistens, heq, hsame]
          · simp [arrives, hframe, heq]
    · rw [if_neg hfor] at hconsole
      exact hnothing hconsole (by simp [arrives, hframe, hfor])

/-- **One step of a channel.** What was there and what comes is what the game gets and what
stays there. -/
theorem exists_channelStep (hfind : findBindNode s bindNodeId = some (channel, bound))
    (hkeeps : event.rebinds bindNodeId = false) (h : s.react around event = some out) :
    ∃ bound' pulled, ChannelStep s event out bindNodeId channel bound bound' pulled := by
  cases event with
  | call call => exact exists_called hfind hkeeps h
  | packet packet =>
      by_cases hdata : ∃ data, packet.frame = .secureData data
      · obtain ⟨data, hframe⟩ := hdata
        exact exists_arrived hfind hframe h
      · have hnone : ∀ data, packet.frame ≠ .secureData data := fun data hframe =>
          hdata ⟨data, hframe⟩
        refine ⟨bound, [], ?_, ?_, rfl⟩
        · rw [findBindNode, channelData_of_not_data hnone h]
          exact hfind
        · have harrives : arrives s channel (.packet packet) = [] := by simp only [arrives]
          rw [harrives, List.append_nil, List.nil_append]

/-! ## A run -/

/-- What a run brings in for a channel. -/
def runArrivals (channel : ℕ) (s : Console NodeInfo) :
    List (Surroundings × Event NodeInfo) → List SecureData
  | [] => []
  | (around, event) :: events =>
      arrives s channel event ++
        match s.react around event with
        | some out => runArrivals channel out.console events
        | none => []

/-- What the answers of a run hand to the game from a bind node. -/
def runHandedOut (bindNodeId : ℕ) (events : List (Surroundings × Event NodeInfo))
    (answers : List (Answer NodeInfo)) : List (List UInt8 × UInt16) :=
  (events.zip answers).flatMap fun step => handedOut bindNodeId step.1.2 step.2

/-- **A channel is a queue.** In every run in which the game does not bind or unbind its bind
node and does not leave the network, what the game pulls from the node is what the consoles of
the network sent to the channel, in the order in which it came, and what is missing of it still
waits there. -/
theorem channel_is_queue {events : List (Surroundings × Event NodeInfo)} {s' : Console NodeInfo}
    {answers : List (Answer NodeInfo)}
    (hfind : findBindNode s bindNodeId = some (channel, bound))
    (hkeeps : ∀ event ∈ events, event.2.rebinds bindNodeId = false)
    (hrun : runEvents s events = some (s', answers)) :
    ∃ bound' pulled, findBindNode s' bindNodeId = some (channel, bound') ∧
      bound.receivedPackets ++ runArrivals channel s events = pulled ++ bound'.receivedPackets ∧
        (runHandedOut bindNodeId events answers).filter saysSomething =
          (pulled.map SecureData.seen).filter saysSomething := by
  induction events generalizing s bound answers with
  | nil =>
      cases hrun
      exact ⟨bound, [], hfind, List.append_nil _, rfl⟩
  | cons step events ih =>
      obtain ⟨around, event⟩ := step
      simp only [runEvents, Option.bind_eq_bind, Option.bind_eq_some_iff, Option.some.injEq,
        Prod.mk.injEq, Prod.exists] at hrun
      obtain ⟨out, hout, last, later, hrest, rfl, rfl⟩ := hrun
      obtain ⟨bound₁, first, hstep⟩ :=
        exists_channelStep hfind (hkeeps _ (List.mem_cons_self ..)) hout
      obtain ⟨bound', pulled, hfind', hconserved, hhanded⟩ :=
        ih hstep.findBindNode (fun event hmem => hkeeps event (List.mem_cons_of_mem _ hmem)) hrest
      refine ⟨bound', first ++ pulled, hfind', ?_, ?_⟩
      · rw [runArrivals, hout, ← List.append_assoc, hstep.conserved, List.append_assoc,
          hconserved, List.append_assoc]
      · rw [runHandedOut, List.zip_cons_cons, List.flatMap_cons, List.filter_append,
          hstep.handedOut, List.map_append, List.filter_append]
        exact congrArg _ hhanded

/-- A host that listens to everyone on channel 1. -/
def listeningHost : Console PlainNode :=
  { foundedHost with
    channelData := OrderedMap.empty.insert 1
      { bindNodeId := 7, channel := 1, networkNodeId := broadcastNetworkNodeId } }

/-- Data of another console for the host. -/
def sampleData (payload : List UInt8) : WifiPacket PlainNode where
  frame := .secureData
    { srcNodeId := 2, destNodeId := 1, dataChannel := 1, isManagement := false, payload }
  channel := 11
  destinationAddress := Vector.replicate 6 1

/-- Two packets come, and the game pulls three times. -/
def samplePulls : List (Surroundings × Event PlainNode) :=
  [ (sampleSurroundings, .packet (sampleData [1, 2])),
    (sampleSurroundings, .packet (sampleData [3])),
    (sampleSurroundings, .call (.pullPacket 7 16 4)),
    (sampleSurroundings, .call (.pullPacket 7 16 4)),
    (sampleSurroundings, .call (.pullPacket 7 16 4)) ]

theorem channel_is_queue_pulled : ∃ (s' : Console PlainNode) (answers : List (Answer PlainNode))
    (bound : BindNodeData) (pulled : List SecureData),
      runEvents listeningHost samplePulls = some (s', answers) ∧
        runArrivals 1 listeningHost samplePulls = pulled ++ bound.receivedPackets ∧
          (runHandedOut 7 samplePulls answers).filter saysSomething =
              (pulled.map SecureData.seen).filter saysSomething ∧
            (pulled.map SecureData.seen).filter saysSomething = [([1, 2], 2), ([3], 2)] := by
  have hsome : ((runEvents listeningHost samplePulls).map fun result =>
      (runHandedOut 7 samplePulls result.2).filter saysSomething) =
        some [([1, 2], 2), ([3], 2)] := by decide
  obtain ⟨⟨s', answers⟩, hrun, hpulls⟩ := Option.map_eq_some_iff.mp hsome
  have hfind : findBindNode listeningHost 7 =
      some (1, { bindNodeId := 7, channel := 1, networkNodeId := broadcastNetworkNodeId }) := rfl
  obtain ⟨bound, pulled, -, hconserved, hhanded⟩ := channel_is_queue hfind (by decide) hrun
  exact ⟨s', answers, bound, pulled, hrun, hconserved, hhanded, hhanded.symm.trans hpulls⟩

end ManicRoom.Uds
