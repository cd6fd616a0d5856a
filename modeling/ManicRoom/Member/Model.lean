/-
# The threads of a room member

`RoomMember` is shared by three threads: the *caller* of `Join` and `Leave`, the
`MemberLoop` thread that `Join` starts, and the *emulation* thread, which sends
packets and asks for the MAC address. This module gives each of them a program
position and a step function over the shared fields. One step is one access to
shared state: a load or store of an atomic, a `send_list_mutex` section, one
callback invocation, or one ENet call.

Locals of the source that no other thread can see live in the positions. Fields
under *history* are not in the source; they record what happened so that the
properties can be stated, and no step depends on them.
-/

import ManicRoom.Foundation.Transition
import ManicRoom.Member.Event

namespace ManicRoom.Member

open ManicRoom.Foundation

/-- The kinds of packets the modelled senders push. -/
inductive PacketType
  | joinRequest
  | setGameInfo
  | wifiPacket
  deriving DecidableEq, Repr

/-- A packet in `send_list`. `pushedIn` is history: the number of connections
established when it was pushed. -/
structure Packet where
  type : PacketType
  pushedIn : ℕ
  deriving DecidableEq, Repr

/-- Progress inside `SetState(new_state)`. -/
inductive SetStatePhase
  | compare
  | store
  | load
  | invoke (state : MemberState)
  deriving DecidableEq, Repr

/-- Where a `Leave` returns to. -/
inductive LeaveReturn
  /-- It was called from outside the class. -/
  | outer
  /-- `Join` goes on after killing an earlier connection. -/
  | joinStart
  /-- `Join` returns right after it. -/
  | joinExit
  /-- `Join` then reports that it could not connect. -/
  | joinFailed
  deriving DecidableEq, Repr

/-- Positions of the thread that calls `Join` and `Leave`. -/
inductive CallerPosition
  | rest
  | leaveImmediate (back : LeaveReturn) (immediate : Bool)
  | leaveSetIdle (back : LeaveReturn) (phase : SetStatePhase)
  | leaveJoin (back : LeaveReturn)
  | leaveDestroyHost (back : LeaveReturn)
  | leaveClear (back : LeaveReturn)
  | joinStart
  | joinCreateHost
  | joinImmediate
  | joinSetJoining (phase : SetStatePhase)
  | joinResolve
  | joinConnect
  | joinCancelled
  | joinService
  | joinStartLoop
  | joinRequest
  | joinGameInfoCheck (loads : List MemberState)
  | joinGameInfo
  /-- `SetState(Idle); SetError(error)`, followed by `Leave(true)` or not. -/
  | joinFail (error : MemberError) (thenLeave : Bool) (phase : SetStatePhase)
  | joinError (error : MemberError) (thenLeave : Bool)
  deriving DecidableEq, Repr

/-- Positions of the thread that runs `MemberLoop`. -/
inductive LoopPosition
  /-- Evaluating `IsConnected()` with these loads still to make. -/
  | check (loads : List MemberState)
  | service
  | handle (ops : List HandlerOp)
  | swap
  | send (packets : List Packet)
  | disconnect
  /-- The graceful wait of `Disconnect`. -/
  | linger
  | done
  /-- An `ASSERT_MSG` failed and the process ended. -/
  | aborted
  deriving DecidableEq, Repr

/-- Who asks for the MAC address on the emulation thread. -/
inductive MacUse
  /-- `nwm_uds.cpp` `SendPacket`. -/
  | sendPacket
  /-- `NWM_UDS::GetMacAddress`. -/
  | getMacAddress
  deriving DecidableEq, Repr

/-- Positions of the emulation thread. `session` is history: the connection that
was current when the state check succeeded. -/
inductive EmulationPosition
  | rest
  | check (use : MacUse) (loads : List MemberState)
  /-- `ASSERT_MSG(IsConnected(), ..)` in `RoomMember::GetMacAddress`. -/
  | assertConnected (use : MacUse) (session : ℕ) (loads : List MemberState)
  | readMac (use : MacUse) (session : ℕ)
  | pushWifi
  | gameInfoCheck (loads : List MemberState)
  | pushGameInfo
  | assertFailed
  deriving DecidableEq, Repr

/-- The shared fields of `RoomMemberImpl`, the thread positions and the history. -/
structure State where
  /-- `std::atomic<State> state`. -/
  state : MemberState := .idle
  /-- `std::atomic<bool> immediate_disconnect`. -/
  immediateDisconnect : Bool := false
  /-- `client != nullptr`. -/
  client : Bool := false
  /-- `server != nullptr`. -/
  server : Bool := false
  /-- `mac_address`. -/
  macAddress : MacAddress := Vector.replicate 6 0
  /-- The nicknames in `member_information`. -/
  memberInformation : List Nickname := []
  /-- `send_list`. -/
  sendList : List Packet := []
  /-- `loop_thread`, with the position of the thread it owns. -/
  loopThread : Option LoopPosition := none
  caller : CallerPosition := .rest
  emulation : EmulationPosition := .rest
  /-- History: connections whose loop was started. -/
  connection : ℕ := 0
  /-- History: packets handed to `enet_peer_send` on the latest connection. -/
  wire : List Packet := []
  /-- History: the latest connection's join request was pushed, and no `Leave`
  has cleared the list since. -/
  requested : Bool := false
  /-- History: a `Leave` has executed its `SetState(Idle)` and no `Join` has
  executed its `SetState(Joining)` since. -/
  left : Bool := false
  /-- History: at that moment the loop had passed its condition and had not yet
  been handed the event of that iteration. -/
  awaiting : Bool := false
  /-- History: events taken from ENet since that moment. -/
  lateEvents : ℕ := 0
  /-- History: what each join success assigned, with its connection. -/
  assignedMacs : List (ℕ × MacAddress) := []
  /-- History: what the emulation thread used, with the connection it checked. -/
  usedMacs : List (ℕ × MacAddress) := []
  deriving DecidableEq, Repr

/-- What `enet_host_service` tells `Join` while it waits for the connection. -/
inductive ServiceResult
  | connected
  /-- Nothing yet, and the deadline has not passed. -/
  | pending
  /-- An error, another event, or nothing until the deadline. -/
  | failed
  deriving DecidableEq, Repr

/-- What the caller thread does next, with the outcome of the call it makes. -/
inductive CallerInput
  | callJoin
  | callLeave (immediate : Bool)
  | go
  /-- The ENet call reports failure. -/
  | fail
  | cancelled (answer : Bool)
  | serviced (result : ServiceResult)
  /-- An exception leaves `Join`. -/
  | throw
  deriving DecidableEq, Repr

/-- What the loop thread does next, with the outcome of `enet_host_service`. -/
inductive LoopInput
  | go
  | event (event : Event)
  /-- No event within the time given. -/
  | quiet
  /-- The graceful wait reaches its deadline or fails. -/
  | expired
  deriving DecidableEq, Repr

/-- What the emulation thread does next. -/
inductive EmulationInput
  | sendPacket
  | getMacAddress
  | sendGameInfo
  | go
  deriving DecidableEq, Repr

/-- A scheduler choice: the thread that moves. -/
inductive Label
  | caller (input : CallerInput)
  | loop (input : LoopInput)
  | emulation (input : EmulationInput)
  deriving DecidableEq, Repr

/-! ## The caller -/

/-- `send_list.push_back`. -/
def State.push (s : State) (type : PacketType) : State :=
  { s with sendList := s.sendList ++ [⟨type, s.connection⟩] }

/-- The loop thread object, if any, has passed its loop condition and waits for
the event of this iteration. -/
def State.loopAwaits (s : State) : Bool := s.loopThread = some .service

/-- One step of `SetState(new_state)`; the second component is the phase that
follows, `none` when the call has returned. -/
def setStateStep (newState : MemberState) (phase : SetStatePhase) (s : State) :
    State × Option SetStatePhase :=
  match phase with
  | .compare => if s.state = newState then (s, none) else (s, some .store)
  | .store => ({ s with state := newState }, some .load)
  | .load => (s, some (.invoke s.state))
  | .invoke _ => (s, none)

/-- History: a `Leave` has just made sure that the state is `Idle`. -/
def State.markLeft (s : State) : State :=
  { s with left := true, awaiting := s.loopAwaits, lateEvents := 0 }

/-- One step of the `SetState(Idle)` in `Leave`. -/
def leaveSetIdle (back : LeaveReturn) (phase : SetStatePhase) (s : State) : State :=
  let marked :=
    match phase with
    | .compare => if s.state = .idle then s.markLeft else s
    | .store => s.markLeft
    | _ => s
  match setStateStep .idle phase marked with
  | (next, some later) => { next with caller := .leaveSetIdle back later }
  | (next, none) => { next with caller := .leaveJoin back }

/-- One step of the `SetState(Joining)` in `Join`. -/
def joinSetJoining (phase : SetStatePhase) (s : State) : State :=
  let marked :=
    match phase with
    | .compare => if s.state = .joining then { s with left := false } else s
    | .store => { s with left := false }
    | _ => s
  match setStateStep .joining phase marked with
  | (next, some later) => { next with caller := .joinSetJoining later }
  | (next, none) => { next with caller := .joinResolve }

/-- One step of a `SetState(Idle)` before `SetError(error)` in `Join`. -/
def joinFail (error : MemberError) (thenLeave : Bool) (phase : SetStatePhase)
    (s : State) : State :=
  match setStateStep .idle phase s with
  | (next, some later) => { next with caller := .joinFail error thenLeave later }
  | (next, none) => { next with caller := .joinError error thenLeave }

/-- The position a finished `Leave` continues at. -/
def LeaveReturn.position : LeaveReturn → CallerPosition
  | .outer => .rest
  | .joinStart => .joinCreateHost
  | .joinExit => .rest
  | .joinFailed => .joinFail .couldNotConnect false .compare

/-- The positions inside `Join` at which an exception can leave it: callback
invocations, allocations and the start of the thread. ENet and the atomics throw
nothing. An exception out of an outer `Leave` ends the process. -/
def CallerPosition.MayThrow : CallerPosition → Prop
  | .leaveSetIdle back (.invoke _) => back ≠ .outer
  | .joinSetJoining (.invoke _) => True
  | .joinFail _ _ (.invoke _) => True
  | .joinError _ _ => True
  | .joinStartLoop => True
  | .joinRequest => True
  | .joinGameInfo => True
  | _ => False

instance (position : CallerPosition) : Decidable position.MayThrow := by
  cases position <;> unfold CallerPosition.MayThrow <;> first | infer_instance | skip
  all_goals (split <;> infer_instance)

/-- One step of the thread that calls `Join` and `Leave`. -/
def callerStep (s : State) (input : CallerInput) : Option State :=
  match s.caller, input with
  | .rest, .callJoin => some { s with caller := .joinStart }
  | .rest, .callLeave immediate => some { s with caller := .leaveImmediate .outer immediate }
  -- Leave
  | .leaveImmediate back immediate, .go =>
      some { s with immediateDisconnect := immediate, caller := .leaveSetIdle back .compare }
  | .leaveSetIdle back phase, .go => some (leaveSetIdle back phase s)
  | .leaveJoin back, .go =>
      match s.loopThread with
      | none => some { s with caller := .leaveDestroyHost back }
      | some .done => some { s with loopThread := none, caller := .leaveDestroyHost back }
      | some _ => none
  | .leaveDestroyHost back, .go =>
      some { s with client := false, server := false, caller := .leaveClear back }
  | .leaveClear back, .go =>
      some { s with sendList := [], requested := false, caller := back.position }
  -- Join
  | .joinStart, .go =>
      -- A thread object is joinable until `Leave` joins it, so the branch that
      -- only resets it is never taken.
      if s.loopThread.isSome then some { s with caller := .leaveImmediate .joinStart false }
      else some { s with caller := .joinCreateHost }
  | .joinCreateHost, .go => some { s with client := true, caller := .joinImmediate }
  | .joinCreateHost, .fail =>
      if s.client then none
      else some { s with caller := .joinFail .unknownError false .compare }
  | .joinImmediate, .go =>
      some { s with immediateDisconnect := false, caller := .joinSetJoining .compare }
  | .joinSetJoining phase, .go => some (joinSetJoining phase s)
  | .joinResolve, .go => some { s with caller := .joinConnect }
  | .joinResolve, .fail => some { s with caller := .joinFail .couldNotConnect true .compare }
  | .joinConnect, .go => some { s with server := true, caller := .joinCancelled }
  | .joinConnect, .fail =>
      some { s with server := false, caller := .joinFail .unknownError false .compare }
  | .joinCancelled, .cancelled true => some { s with caller := .leaveImmediate .joinExit true }
  | .joinCancelled, .cancelled false => some { s with caller := .joinService }
  | .joinService, .serviced .connected => some { s with caller := .joinStartLoop }
  | .joinService, .serviced .pending => some { s with caller := .joinCancelled }
  | .joinService, .serviced .failed =>
      some { s with caller := .leaveImmediate .joinFailed true }
  | .joinStartLoop, .go =>
      some { s with loopThread := some (.check connectedLoads), connection := s.connection + 1,
                    wire := [], caller := .joinRequest }
  | .joinRequest, .go =>
      some { s.push .joinRequest with
        requested := true, caller := .joinGameInfoCheck connectedLoads }
  | .joinGameInfoCheck [], .go => some { s with caller := .rest }
  | .joinGameInfoCheck (state :: loads), .go =>
      if s.state = state then some { s with caller := .joinGameInfo }
      else some { s with caller := .joinGameInfoCheck loads }
  | .joinGameInfo, .go => some { s.push .setGameInfo with caller := .rest }
  | .joinFail error thenLeave phase, .go => some (joinFail error thenLeave phase s)
  | .joinError _ true, .go => some { s with caller := .leaveImmediate .joinExit true }
  | .joinError _ false, .go => some { s with caller := .rest }
  | position, .throw => if position.MayThrow then some { s with caller := .rest } else none
  | _, _ => none

/-! ## The loop thread -/

/-- Continue at `position`. -/
def State.loopAt (s : State) (position : LoopPosition) : State :=
  { s with loopThread := some position }

/-- One operation of a `switch` case, with the operations that follow it. -/
def handlerStep (op : HandlerOp) (ops : List HandlerOp) (s : State) : State :=
  match op with
  | .setState state =>
      if s.state = state then s.loopAt (.handle ops)
      else s.loopAt (.handle (.store state :: .load :: ops))
  | .store state => { s with state := state }.loopAt (.handle ops)
  | .load => s.loopAt (.handle (.invokeState s.state :: ops))
  | .invokeState _ => s.loopAt (.handle ops)
  | .setError _ => s.loopAt (.handle ops)
  | .storeMac mac =>
      { s with macAddress := mac, assignedMacs := (s.connection, mac) :: s.assignedMacs }.loopAt
        (.handle ops)
  | .storeMembers members => { s with memberInformation := members }.loopAt (.handle ops)
  | .invokeRoomInformation => s.loopAt (.handle ops)
  | .invokeOther => s.loopAt (.handle ops)
  | .assertMembers =>
      if s.memberInformation = [] then s.loopAt .aborted else s.loopAt (.handle ops)
  | .assertFalse => s.loopAt .aborted
  | .whenIn [] => s.loopAt .swap
  | .whenIn (state :: loads) =>
      if s.state = state then s.loopAt (.handle ops)
      else s.loopAt (.handle (.whenIn loads :: ops))

/-- `Disconnect` before its graceful wait. -/
def disconnect (s : State) : State :=
  let cleared := { s with memberInformation := [] }
  if s.server then
    if s.immediateDisconnect then { cleared with server := false }.loopAt .done
    else cleared.loopAt .linger
  else cleared.loopAt .done

/-- One step of `MemberLoop`. -/
def loopStep (s : State) (input : LoopInput) : Option State :=
  match s.loopThread, input with
  | some (.check []), .go => some (s.loopAt .disconnect)
  | some (.check (state :: loads)), .go =>
      if s.state = state then some (s.loopAt .service) else some (s.loopAt (.check loads))
  | some .service, .event event =>
      some ({ s with lateEvents := if s.left then s.lateEvents + 1 else s.lateEvents }.loopAt
        (.handle (handleEvent event)))
  | some .service, .quiet => some (s.loopAt .swap)
  | some (.handle []), .go => some (s.loopAt .swap)
  | some (.handle (op :: ops)), .go => some (handlerStep op ops s)
  | some .swap, .go => some ({ s with sendList := [] }.loopAt (.send s.sendList))
  | some (.send []), .go => some (s.loopAt (.check connectedLoads))
  | some (.send (packet :: packets)), .go =>
      some ({ s with wire := s.wire ++ [packet] }.loopAt (.send packets))
  | some .disconnect, .go => some (disconnect s)
  -- The wait of `Disconnect` ignores what it receives and handles nothing.
  | some .linger, .go =>
      if s.immediateDisconnect then some ({ s with server := false }.loopAt .done) else none
  | some .linger, .event .disconnect => some ({ s with server := false }.loopAt .done)
  | some .linger, .event _ => some s
  | some .linger, .quiet => some s
  | some .linger, .expired => some ({ s with server := false }.loopAt .done)
  | _, _ => none

/-! ## The emulation thread -/

/-- One step of `SendPacket`, `NWM_UDS::GetMacAddress` or `SendGameInfo`. -/
def emulationStep (s : State) (input : EmulationInput) : Option State :=
  match s.emulation, input with
  | .rest, .sendPacket => some { s with emulation := .check .sendPacket inRoomLoads }
  | .rest, .getMacAddress => some { s with emulation := .check .getMacAddress inRoomLoads }
  | .rest, .sendGameInfo => some { s with emulation := .gameInfoCheck connectedLoads }
  -- Outside a room nothing is sent and the console's own address is used.
  | .check _ [], .go => some { s with emulation := .rest }
  | .check use (state :: loads), .go =>
      if s.state = state then
        some { s with emulation := .assertConnected use s.connection connectedLoads }
      else some { s with emulation := .check use loads }
  | .assertConnected _ _ [], .go => some { s with emulation := .assertFailed }
  | .assertConnected use session (state :: loads), .go =>
      if s.state = state then some { s with emulation := .readMac use session }
      else some { s with emulation := .assertConnected use session loads }
  | .readMac .sendPacket session, .go =>
      some { s with emulation := .pushWifi, usedMacs := (session, s.macAddress) :: s.usedMacs }
  | .readMac .getMacAddress session, .go =>
      some { s with emulation := .rest, usedMacs := (session, s.macAddress) :: s.usedMacs }
  | .pushWifi, .go => some { s.push .wifiPacket with emulation := .rest }
  | .gameInfoCheck [], .go => some { s with emulation := .rest }
  | .gameInfoCheck (state :: loads), .go =>
      if s.state = state then some { s with emulation := .pushGameInfo }
      else some { s with emulation := .gameInfoCheck loads }
  | .pushGameInfo, .go => some { s.push .setGameInfo with emulation := .rest }
  | _, _ => none

/-! ## The system -/

/-- One step of whichever thread the scheduler picks. -/
def step (s : State) : Label → Option State
  | .caller input => callerStep s input
  | .loop input => loopStep s input
  | .emulation input => emulationStep s input

/-- A freshly constructed `RoomMember`. -/
def system : System State Label where
  init s := s = {}
  step := step

/-- A callback set that a step invokes, with the value it passes. -/
inductive Invocation
  | state (state : MemberState)
  | error (error : MemberError)
  | roomInformation
  deriving DecidableEq, Repr

/-- The invocation the caller makes when it moves on with `go`. -/
def callerInvokes (s : State) : Option Invocation :=
  match s.caller with
  | .leaveSetIdle _ (.invoke state) => some (.state state)
  | .joinSetJoining (.invoke state) => some (.state state)
  | .joinFail _ _ (.invoke state) => some (.state state)
  | .joinError error _ => some (.error error)
  | _ => none

/-- The invocation the loop thread makes when it moves on with `go`. -/
def loopInvokes (s : State) : Option Invocation :=
  match s.loopThread with
  | some (.handle (.invokeState state :: _)) => some (.state state)
  | some (.handle (.setError error :: _)) => some (.error error)
  | some (.handle (.invokeRoomInformation :: _)) => some .roomInformation
  | _ => none

/-! ## Schedules of a joining member -/

/-- Move the caller on `steps` times. -/
def callerGoes (steps : ℕ) : List Label := List.replicate steps (.caller .go)

/-- Move the loop on `steps` times. -/
def loopGoes (steps : ℕ) : List Label := List.replicate steps (.loop .go)

/-- A `Join` up to the start of its loop thread. -/
def joinConnects : List Label :=
  [.caller .callJoin] ++ callerGoes 9 ++
    [.caller (.cancelled false), .caller (.serviced .connected), .caller .go]

/-- The rest of that `Join`: the join request and the game info. -/
def joinReturns : List Label := callerGoes 3

/-- An iteration of the loop, from its condition on, that receives the list of a
room with one member and then sends the join request and the game info. -/
def roomAnswers : List Label :=
  loopGoes 1 ++ [.loop (.event (.receive (.roomInformation [[]])))] ++ loopGoes 7

/-- The next iteration receives a join success and has not handled it yet. -/
def joinSuccessArrives : List Label :=
  loopGoes 1 ++ [.loop (.event (.receive (.joinSuccess (Vector.replicate 6 1))))]

/-- The join success is handled and the loop waits for the next event. -/
def joinSuccessHandled : List Label := loopGoes 11

/-- A connection that has been admitted to its room. -/
def joinsRoom : List Label :=
  joinConnects ++ joinReturns ++ roomAnswers ++ joinSuccessArrives ++ joinSuccessHandled

/-- A `Leave(true)` of a connected member up to its store of `Idle`. -/
def leaveStoresIdle : List Label := [.caller (.callLeave true)] ++ callerGoes 3

end ManicRoom.Member
