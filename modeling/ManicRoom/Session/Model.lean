/-
# The room session

`room_session.cpp` publishes a snapshot of the room for the user interface and runs
one worker thread that joins, hosts and leaves. The model interleaves

* the lifecycle and C entry points, which `api_mutex` serialises,
* the worker `Run`, inside which the member's `Join` and `Leave` take their steps,
* the `MemberLoop` thread with the three callbacks bound to it, and
* another owner of the network, who may open a room of its own.

One step is one access to shared state: a load or store of `cancel` or `finished`, a
`snapshot_mutex` section, one step of the member. A section reads at most one
atomic, before anything it writes, so it is a single step at that read. What only
the holder of `api_mutex` can see moves along with its next access.
-/

import ManicRoom.Member.Model
import ManicRoom.Session.Request

namespace ManicRoom.Session

open ManicRoom.Foundation
open Member (MemberState MemberError MacAddress Nickname CallerInput LoopInput EmulationInput
  Invocation connectedLoads)

/-! ## The snapshot -/

/-- `AZ_ROOM_OFFLINE` to `AZ_ROOM_LEAVING`. -/
inductive RoomState
  | offline
  | idle
  | joining
  | joined
  | leaving
  deriving DecidableEq, Repr

/-- `char members[254][21]`. -/
abbrev MemberTable := Fin 254 → Fin 21 → UInt8

/-- The part of `az_room_snapshot` that the session writes. -/
structure Snapshot where
  state : RoomState := .offline
  error : ℕ := 0
  memberCount : ℕ := 0
  members : MemberTable := fun _ _ => 0

/-- `ClearMembers()`. -/
def Snapshot.clearMembers (snapshot : Snapshot) : Snapshot :=
  { snapshot with memberCount := 0, members := fun _ _ => 0 }

/-- `memcpy` of at most 20 bytes of a nickname into the next entry. -/
def Snapshot.addMember (snapshot : Snapshot) (nickname : Nickname) : Snapshot :=
  { snapshot with
    memberCount := snapshot.memberCount + 1
    members := fun entry position =>
      if entry.val = snapshot.memberCount ∧ position.val < min nickname.length 20 then
        nickname.getD position.val 0
      else snapshot.members entry position }

/-- The loop over `GetMemberInformation()`. -/
def Snapshot.addMembers (snapshot : Snapshot) : List Nickname → Snapshot
  | [] => snapshot
  | nickname :: nicknames =>
      if snapshot.memberCount = 254 then snapshot
      else (snapshot.addMember nickname).addMembers nicknames

/-! ## Threads -/

/-- Positions of `Run`. -/
inductive RunPosition
  | getRoom
  | checkRoom
  | create
  | createFailed
  | checkCancel
  /-- Inside `member->Join(..)`. -/
  | joining
  | pollCancel
  /-- Evaluating `member->IsConnected()` with these loads still to make. -/
  | pollConnected (loads : List MemberState)
  | pollSnapshot
  | pollDeadline (joining : Bool)
  | timedOut
  | caught
  | leave
  /-- Inside `member->Leave(true)`. -/
  | leaving
  | destroy
  | publish
  | finish
  /-- The function has returned; the thread is joinable. -/
  | ended
  deriving DecidableEq, Repr

/-- What `Run` was started with. -/
structure RunArguments where
  accepted : Accepted
  hash : Bytes
  mac : MacAddress
  deriving DecidableEq, Repr

/-- A joinable `worker` with the locals of its `Run`. -/
structure Worker where
  arguments : RunArguments
  created : Bool := false
  position : RunPosition
  deriving DecidableEq, Repr

/-- Why `StopWorker` was called. -/
inductive StopCause
  | gameReady
  | gameStopped
  | shutdown
  deriving DecidableEq, Repr

/-- Positions of the call that holds `api_mutex`. -/
inductive ApiPosition
  | initMember
  | initExpired
  | initNetwork
  | initFailed
  | initLock
  | initBindState
  | initBindError
  | initBindRoom
  | readyCheck (hash : Bytes) (mac : MacAddress)
  /-- `StopWorker()`, with the arguments of a `GameReady`. -/
  | stopCancel (cause : StopCause) (hash : Bytes) (mac : MacAddress)
  | stopJoin (cause : StopCause) (hash : Bytes) (mac : MacAddress)
  | readyPublish (hash : Bytes) (mac : MacAddress)
  | offlinePublish (cause : StopCause)
  | unbind
  | networkShutdown
  | requestReady (accepted : Accepted)
  | requestFinished (accepted : Accepted)
  | requestJoinWorker (accepted : Accepted)
  | requestUncancel (accepted : Accepted)
  | requestPublish (accepted : Accepted)
  | requestUnfinish (accepted : Accepted)
  | requestStart (accepted : Accepted)
  | requestRefinish
  | requestWithdraw
  | leaveCancel
  | leavePublish
  deriving DecidableEq, Repr

/-- Who created a network or opened a room. -/
inductive RoomOwner
  /-- The worker of this session. -/
  | worker (session : ℕ)
  /-- Anybody else in the process. -/
  | other
  deriving DecidableEq, Repr

/-- The network that `Network::Init` created: whether the bridge did it, and who has
its room open, if anybody. -/
structure NetworkObject where
  ownedByBridge : Bool
  room : Option RoomOwner := none
  deriving DecidableEq, Repr

/-- History: the calls of the bridge into `network.cpp`. -/
inductive NetworkCall
  | initSucceeded
  | initFailed
  | shutdown
  deriving DecidableEq, Repr

/-- History: the milestones of one `Run`. -/
inductive RunEvent
  | created
  | left
  | destroyed
  | published
  | finished
  deriving DecidableEq, Repr

/-- The globals of `room_session.cpp`, the objects they refer to and the history. -/
structure State where
  /-- The holder of `api_mutex`. -/
  api : Option ApiPosition := none
  /-- Calls of `Initialize` in their `catch` block, which is outside the lock. -/
  catching : ℕ := 0
  snapshot : Snapshot := {}
  hostMode : Bool := false
  /-- `member != nullptr`. -/
  memberSet : Bool := false
  stateCallback : Bool := false
  errorCallback : Bool := false
  roomCallback : Bool := false
  worker : Option Worker := none
  cancel : Bool := false
  finished : Bool := true
  ownsNetwork : Bool := false
  ready : Bool := false
  consoleHash : Bytes := []
  consoleMac : MacAddress := Vector.replicate 6 255
  /-- The objects behind `Network::GetRoom()` and `Network::GetRoomMember()`. -/
  network : Option NetworkObject := none
  /-- The `RoomMember` that `member` points to, or pointed to last. -/
  member : Member.State := {}
  /-- That object is the one of the current network. -/
  memberCurrent : Bool := false
  /-- History: accepted requests that started a worker. -/
  session : ℕ := 0
  /-- History: milestones of the latest worker. -/
  trace : List RunEvent := []
  /-- History: calls into `network.cpp`, the latest first. -/
  networkCalls : List NetworkCall := []
  /-- History: `GameStopped` or `Shutdown` has returned, and no `GameReady` has
  published since. -/
  stopped : Bool := false
  /-- History: the value that the latest `join` or `host` returned. -/
  result : Option ℤ := none

/-- The next access of the call that holds `api_mutex`, or a new call. -/
inductive ApiInput
  | callInitialize
  | callGameReady (hash : Bytes) (mac : MacAddress)
  | callGameStopped
  | callShutdown
  | callRequest (request : Request)
  /-- `retro_azahar_room_leave`, and `retro_azahar_room_close`, which calls it. -/
  | callLeave
  | go
  /-- `Network::Init` returns false, or the thread does not start. -/
  | fail
  /-- An exception: from `Network::Init` or a binding. -/
  | throw
  /-- The `catch` block of an `Initialize`. -/
  | handle
  deriving DecidableEq, Repr

/-- The next access of `Run`. -/
inductive RunInput
  | go
  | created (answer : Bool)
  | deadline (passed : Bool)
  | member (input : CallerInput)
  | throw
  deriving DecidableEq, Repr

/-- What another owner of the network does. -/
inductive OtherInput
  | initNetwork
  | shutdownNetwork
  | openRoom
  | closeRoom
  deriving DecidableEq, Repr

/-- A scheduler choice. -/
inductive Label
  | api (input : ApiInput)
  | run (input : RunInput)
  | loop (input : LoopInput)
  | emulation (input : EmulationInput)
  | other (input : OtherInput)
  deriving DecidableEq, Repr

/-! ## Callbacks -/

/-- A `snapshot_mutex` section. -/
def State.publish (s : State) (change : Snapshot → Snapshot) : State :=
  { s with snapshot := change s.snapshot }

/-- The three lambdas bound by `Initialize`. -/
def State.invoke (s : State) : Invocation → State
  | .state state =>
      if s.stateCallback ∧ ¬ s.cancel ∧ state.InRoom then
        s.publish fun snapshot => { snapshot with state := .joined }
      else s
  | .error error =>
      if s.errorCallback ∧ ¬ s.cancel then
        s.publish fun snapshot => { snapshot with error := error.code + 1 }
      else s
  | .roomInformation =>
      if s.roomCallback ∧ ¬ s.cancel then
        s.publish fun snapshot => snapshot.clearMembers.addMembers s.member.memberInformation
      else s

/-- The same, for the invocation a step of the member makes, if it makes one. -/
def State.invoke? (s : State) : Option Invocation → State
  | none => s
  | some invocation => s.invoke invocation

/-! ## The entry points -/

/-- The call returns and releases `api_mutex`. -/
def State.release (s : State) : State := { s with api := none }

/-- `join` or `host` returns this value. -/
def State.answer (s : State) (value : ℤ) : State := { s with api := none, result := some value }

/-- Go on at `position` under `api_mutex`. -/
def State.apiAt (s : State) (position : ApiPosition) : State := { s with api := some position }

/-- The first access of a new call. -/
def callStep (s : State) (input : ApiInput) : Option State :=
  match input with
  | .callInitialize => if s.api = none then some (s.apiAt .initMember) else none
  | .callGameReady hash mac => if s.api = none then some (s.apiAt (.readyCheck hash mac)) else none
  | .callGameStopped =>
      if s.api = none then
        some ({ s with ready := false }.apiAt (.stopCancel .gameStopped [] s.consoleMac))
      else none
  | .callShutdown =>
      if s.api = none then
        some ({ s with ready := false }.apiAt (.stopCancel .shutdown [] s.consoleMac))
      else none
  | .callRequest request =>
      match request.check with
      | none => some { s with result := some 1 }
      | some accepted => if s.api = none then some (s.apiAt (.requestReady accepted)) else none
  | .callLeave => if s.api = none then some (s.apiAt .leaveCancel) else none
  -- `catch (...) { lock; snapshot.error = 100; }` after `api_mutex` was released.
  | .handle =>
      if s.catching = 0 then none
      else some ({ s with catching := s.catching - 1 }.publish fun snapshot =>
        { snapshot with error := 100 })
  | _ => none

/-- The next access of the call that holds `api_mutex`. -/
def apiStep (s : State) (input : ApiInput) : Option State :=
  match s.api, input with
  -- Initialize
  | some .initMember, .go => if s.memberSet then some s.release else some (s.apiAt .initExpired)
  | some .initExpired, .go =>
      if s.network.isNone then some (s.apiAt .initNetwork) else some (s.apiAt .initLock)
  | some .initNetwork, .go =>
      some ({ s with
        network := some { ownedByBridge := true }, memberCurrent := false, ownsNetwork := true,
        networkCalls := .initSucceeded :: s.networkCalls }.apiAt .initLock)
  | some .initNetwork, .fail =>
      some ({ s with networkCalls := .initFailed :: s.networkCalls }.apiAt .initFailed)
  | some .initNetwork, .throw =>
      some { s with
        networkCalls := .initFailed :: s.networkCalls, api := none, catching := s.catching + 1 }
  | some .initFailed, .go =>
      some (s.publish fun snapshot => { snapshot with error := 100 }).release
  | some .initLock, .go =>
      some ({ s with
        memberSet := s.network.isSome
        member := if s.memberCurrent then s.member else {}
        memberCurrent := true }.apiAt .initBindState)
  | some .initBindState, .go => some ({ s with stateCallback := true }.apiAt .initBindError)
  | some .initBindError, .go => some ({ s with errorCallback := true }.apiAt .initBindRoom)
  | some .initBindRoom, .go => some { s with roomCallback := true }.release
  | some .initBindState, .throw | some .initBindError, .throw | some .initBindRoom, .throw =>
      some { s with api := none, catching := s.catching + 1 }
  -- GameReady
  | some (.readyCheck hash mac), .go =>
      if s.memberSet ∧ s.stateCallback ∧ s.errorCallback ∧ s.roomCallback then
        some (s.apiAt (.stopCancel .gameReady hash mac))
      else some s.release
  | some (.readyPublish hash mac), .go =>
      some { s.publish (fun snapshot => { snapshot with state := .idle, error := 0 }) with
        consoleHash := hash, consoleMac := mac, ready := true, hostMode := false,
        stopped := false, api := none }
  -- StopWorker
  | some (.stopCancel cause hash mac), .go =>
      some ({ s with cancel := true }.apiAt (.stopJoin cause hash mac))
  | some (.stopJoin cause hash mac), .go =>
      let next := if cause = .gameReady then .readyPublish hash mac else .offlinePublish cause
      match s.worker with
      | none => some (s.apiAt next)
      | some worker =>
          if worker.position = .ended then some ({ s with worker := none }.apiAt next) else none
  -- GameStopped and Shutdown
  | some (.offlinePublish cause), .go =>
      let offline :=
        { s.publish (fun snapshot => { snapshot with state := .offline }.clearMembers) with
          consoleHash := [], hostMode := false }
      if cause = .shutdown then
        if s.memberSet then some (offline.apiAt .unbind) else some (offline.apiAt .networkShutdown)
      else some { offline with stopped := true, api := none }
  | some .unbind, .go =>
      some ({ s with
        stateCallback := false, errorCallback := false, roomCallback := false,
        memberSet := false }.apiAt .networkShutdown)
  | some .networkShutdown, .go =>
      if s.ownsNetwork then
        some { s with
          network := none, memberCurrent := false, ownsNetwork := false,
          networkCalls := .shutdown :: s.networkCalls, stopped := true, api := none }
      else some { s with stopped := true, api := none }
  -- join and host
  | some (.requestReady accepted), .go =>
      if s.ready then some (s.apiAt (.requestFinished accepted)) else some (s.answer 2)
  | some (.requestFinished accepted), .go =>
      if s.finished then some (s.apiAt (.requestJoinWorker accepted)) else some (s.answer 3)
  | some (.requestJoinWorker accepted), .go =>
      match s.worker with
      | none => some (s.apiAt (.requestUncancel accepted))
      | some worker =>
          if worker.position = .ended then
            some ({ s with worker := none }.apiAt (.requestUncancel accepted))
          else none
  | some (.requestUncancel accepted), .go =>
      some ({ s with cancel := false }.apiAt (.requestPublish accepted))
  | some (.requestPublish accepted), .go =>
      some ({ s.publish (fun snapshot =>
          { snapshot with state := .joining, error := 0 }.clearMembers) with
        hostMode := accepted.host }.apiAt (.requestUnfinish accepted))
  | some (.requestUnfinish accepted), .go =>
      some ({ s with finished := false }.apiAt (.requestStart accepted))
  | some (.requestStart accepted), .go =>
      some { s with
        worker := some
          { arguments := ⟨accepted, s.consoleHash, s.consoleMac⟩
            position := if accepted.host then .getRoom else .checkCancel }
        session := s.session + 1, trace := [], api := none, result := some 0 }
  | some (.requestStart _), .fail => some (s.apiAt .requestRefinish)
  | some .requestRefinish, .go => some ({ s with finished := true }.apiAt .requestWithdraw)
  | some .requestWithdraw, .go =>
      some { s.publish (fun snapshot => { snapshot with state := .idle, error := 100 }) with
        hostMode := false, api := none, result := some (-1) }
  -- leave
  | some .leaveCancel, .go => some ({ s with cancel := true }.apiAt .leavePublish)
  | some .leavePublish, .go =>
      if s.finished then some s.release
      else some (s.publish fun snapshot => { snapshot with state := .leaving }).release
  | _, _ => none

/-! ## The worker -/

/-- `server->Destroy()`: the room of the network is closed. -/
def State.destroyRoom (s : State) : State :=
  { s with network := s.network.map fun (network : NetworkObject) => { network with room := none } }

/-- `Run` goes on at `position`. -/
def State.runAt (s : State) (worker : Worker) (position : RunPosition) : State :=
  { s with worker := some { worker with position := position } }

/-- History: `Run` has passed a milestone. -/
def State.mark (s : State) (event : RunEvent) : State := { s with trace := s.trace ++ [event] }

/-- Inputs of a `Join` or `Leave` that is in progress. The answer that `Join` gets
from its callback is the current value of `cancel`. -/
def State.MemberInput (s : State) : CallerInput → Prop
  | .callJoin | .callLeave _ => False
  | .cancelled answer => answer = s.cancel
  | _ => True

instance (s : State) (input : CallerInput) : Decidable (s.MemberInput input) := by
  cases input <;> unfold State.MemberInput <;> infer_instance

/-- One step inside `Join` or `Leave`, with the callback it invokes. -/
def memberStep (s : State) (input : CallerInput) : Option State :=
  if s.MemberInput input then
    match Member.callerStep s.member input with
    | none => none
    | some member =>
        let invocation := if input = .go then Member.callerInvokes s.member else none
        some { s.invoke? invocation with member := member }
  else none

/-- One step of `Run`. -/
def runStep (s : State) (worker : Worker) (input : RunInput) : Option State :=
  match worker.position, input with
  | .getRoom, .go =>
      if s.network.isNone then some (s.runAt worker .createFailed)
      else some (s.runAt worker .checkRoom)
  | .checkRoom, .go =>
      if (s.network.bind NetworkObject.room).isSome then some (s.runAt worker .createFailed)
      else some (s.runAt worker .create)
  | .create, .created true =>
      match s.network with
      | some ⟨owned, none⟩ =>
          some (({ s with network := some ⟨owned, some (.worker s.session)⟩ }.runAt
            { worker with created := true } .checkCancel).mark .created)
      | _ => none
  | .create, .created false => some (s.runAt worker .createFailed)
  | .create, .throw => some (s.runAt worker .caught)
  | .createFailed, .go =>
      some ((s.publish fun snapshot => { snapshot with error := 102 }).runAt worker .leave)
  | .checkCancel, .go =>
      if s.cancel then some (s.runAt worker .pollCancel)
      else
        match Member.callerStep s.member .callJoin with
        | none => none
        | some member => some ({ s with member := member }.runAt worker .joining)
  | .checkCancel, .throw => if s.cancel then none else some (s.runAt worker .caught)
  | .joining, .member input =>
      match memberStep s input with
      | none => none
      | some t =>
          if t.member.caller ≠ .rest then some t
          else if input = .throw then some (t.runAt worker .caught)
          else some (t.runAt worker .pollCancel)
  | .pollCancel, .go =>
      if s.cancel then some (s.runAt worker .leave)
      else some (s.runAt worker (.pollConnected connectedLoads))
  | .pollConnected [], .go => some (s.runAt worker .leave)
  | .pollConnected (state :: loads), .go =>
      if s.member.state = state then some (s.runAt worker .pollSnapshot)
      else some (s.runAt worker (.pollConnected loads))
  | .pollSnapshot, .go =>
      some (s.runAt worker (.pollDeadline (s.snapshot.state = .joining)))
  | .pollDeadline joining, .deadline passed =>
      if joining ∧ passed then some (s.runAt worker .timedOut)
      else some (s.runAt worker .pollCancel)
  | .timedOut, .go =>
      some ((s.publish fun snapshot => { snapshot with error := 101 }).runAt worker .leave)
  | .caught, .go =>
      some ((s.publish fun snapshot => { snapshot with error := 100 }).runAt worker .leave)
  | .leave, .go =>
      match Member.callerStep s.member (.callLeave true) with
      | none => none
      | some member => some ({ s with member := member }.runAt worker .leaving)
  | .leaving, .member input =>
      match memberStep s input with
      | none => none
      | some t =>
          if t.member.caller ≠ .rest then some t
          else if worker.created then some ((t.runAt worker .destroy).mark .left)
          else some ((t.runAt worker .publish).mark .left)
  | .destroy, .go => some ((s.destroyRoom.runAt worker .publish).mark .destroyed)
  | .publish, .go =>
      some (({ s.publish (fun snapshot => { snapshot with state := .idle }.clearMembers) with
        hostMode := false }.runAt worker .finish).mark .published)
  | .finish, .go => some (({ s with finished := true }.runAt worker .ended).mark .finished)
  | _, _ => none

/-! ## The system -/

/-- One step of the `MemberLoop` thread, with the callback it invokes. -/
def loopStep (s : State) (input : LoopInput) : Option State :=
  match Member.loopStep s.member input with
  | none => none
  | some member =>
      let invocation := if input = .go then Member.loopInvokes s.member else none
      some { s.invoke? invocation with member := member }

/-- One step of the emulation thread. -/
def emulationStep (s : State) (input : EmulationInput) : Option State :=
  match Member.emulationStep s.member input with
  | none => none
  | some member => some { s with member := member }

/-- One step of another owner. It creates and destroys its network while no call of
the bridge is in progress, destroys none that a worker may be using, and opens and
closes its own room at any time. -/
def otherStep (s : State) (input : OtherInput) : Option State :=
  match input, s.network with
  | .initNetwork, none =>
      if s.api = none then
        some { s with network := some { ownedByBridge := false }, memberCurrent := false }
      else none
  | .shutdownNetwork, some ⟨false, _⟩ =>
      if s.api = none ∧ s.finished then some { s with network := none, memberCurrent := false }
      else none
  | .openRoom, some ⟨owned, none⟩ => some { s with network := some ⟨owned, some .other⟩ }
  | .closeRoom, some ⟨owned, some .other⟩ => some { s with network := some ⟨owned, none⟩ }
  | _, _ => none

/-- One step of whichever thread the scheduler picks. -/
def step (s : State) : Label → Option State
  | .api .go => apiStep s .go
  | .api .fail => apiStep s .fail
  | .api .throw => apiStep s .throw
  | .api input => callStep s input
  | .run input => s.worker.bind fun worker => runStep s worker input
  | .loop input => loopStep s input
  | .emulation input => emulationStep s input
  | .other input => otherStep s input

/-- Before the core is initialised. -/
def system : System State Label where
  init s := s = {}
  step := step

/-- `retro_azahar_room_is_hosting`. -/
def State.isHosting (s : State) : Bool := s.hostMode && s.snapshot.state = .joined

/-! ## Schedules of a session -/

/-- Move the call that holds `api_mutex` on `steps` times. -/
def apiGoes (steps : ℕ) : List Label := List.replicate steps (.api .go)

/-- Move `Run` on `steps` times. -/
def runGoes (steps : ℕ) : List Label := List.replicate steps (.run .go)

/-- Move the member on inside `Join` or `Leave`, `steps` times. -/
def memberGoes (steps : ℕ) : List Label := List.replicate steps (.run (.member .go))

/-- Move `MemberLoop` on `steps` times. -/
def loopGoes (steps : ℕ) : List Label := List.replicate steps (.loop .go)

/-- `Initialize` creates the network and binds the callbacks. -/
def initializes : List Label := .api .callInitialize :: apiGoes 7

/-- The game starts. -/
def getsReady : List Label := .api (.callGameReady [] (Vector.replicate 6 255)) :: apiGoes 4

/-- A well-formed request to join. -/
def joinRequest : Request :=
  .join (some (ascii "10.0.0.7")) 24872 (some (ascii "iPhoneTest")) (some [])

/-- A well-formed request to host. -/
def hostRequest : Request := .host 24872 (some (ascii "iPhoneTest")) (some [])

/-- `join` or `host` accepts and starts the worker. -/
def accepts (request : Request) : List Label := .api (.callRequest request) :: apiGoes 7

/-- A `Leave(true)` of a member without a loop thread. -/
def memberLeaves : List Label := runGoes 1 ++ memberGoes 5

/-- A `join` that connects, up to the second load of the polling loop. -/
def joinConnects : List Label :=
  initializes ++ getsReady ++ accepts joinRequest ++ runGoes 1 ++ memberGoes 9 ++
    [.run (.member (.cancelled false)), .run (.member (.serviced .connected))] ++ memberGoes 4 ++
    runGoes 2

/-- The room is full, and the loop thread says so. -/
def roomIsFull : List Label :=
  loopGoes 1 ++ [.loop (.event (.receive .roomIsFull))] ++ loopGoes 5

/-- The `Leave(true)` of `Run`, which the loop thread follows. -/
def leavesRoom : List Label := runGoes 1 ++ memberGoes 2 ++ loopGoes 10 ++ memberGoes 3

end ManicRoom.Session
