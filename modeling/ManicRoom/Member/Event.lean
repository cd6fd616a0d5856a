/-
# What a room member receives

`RoomMemberImpl::MemberLoop` waits for one ENet event at a time and dispatches it
in a `switch`. Every case is a straight line of the same few operations on the
member's shared state, so a case is represented by the list of these operations,
in the order of the source. The dispatch table below is the only place that knows
which packet does what; the interleaving semantics lives in `Member.Model`.
-/

import Mathlib.Data.List.Basic

namespace ManicRoom.Member

/-- `RoomMember::State`. -/
inductive MemberState
  | uninitialized
  | idle
  | joining
  | joined
  | moderator
  deriving DecidableEq, Repr

/-- The states for which `RoomMemberImpl::IsConnected` answers true. -/
def MemberState.IsConnected (state : MemberState) : Prop :=
  state = .joining ∨ state = .joined ∨ state = .moderator

instance (state : MemberState) : Decidable state.IsConnected := by
  unfold MemberState.IsConnected
  infer_instance

/-- The states in which the member is in the room, so that it owns a MAC address. -/
def MemberState.InRoom (state : MemberState) : Prop :=
  state = .joined ∨ state = .moderator

instance (state : MemberState) : Decidable state.InRoom := by
  unfold MemberState.InRoom
  infer_instance

theorem MemberState.InRoom.isConnected {state : MemberState} (h : state.InRoom) :
    state.IsConnected := Or.inr h

@[simp]
theorem MemberState.not_isConnected_idle : ¬ MemberState.idle.IsConnected := by decide

@[simp]
theorem MemberState.not_inRoom_idle : ¬ MemberState.idle.InRoom := by decide

@[simp]
theorem MemberState.not_inRoom_joining : ¬ MemberState.joining.InRoom := by decide

/-- The atomic state is compared with these values, one load each, by
`IsConnected`. -/
def connectedLoads : List MemberState := [.joining, .joined, .moderator]

/-- The two loads of `GetState() == Joined || GetState() == Moderator`. -/
def inRoomLoads : List MemberState := [.joined, .moderator]

theorem mem_connectedLoads {state : MemberState} :
    state ∈ connectedLoads ↔ state.IsConnected := by
  cases state <;> decide

theorem mem_inRoomLoads {state : MemberState} :
    state ∈ inRoomLoads ↔ state.InRoom := by
  cases state <;> decide

/-- `RoomMember::Error`, in declaration order. -/
inductive MemberError
  | lostConnection
  | hostKicked
  | unknownError
  | nameCollision
  | macCollision
  | consoleIdCollision
  | wrongVersion
  | wrongPassword
  | couldNotConnect
  | roomIsFull
  | hostBanned
  | permissionDenied
  | noSuchUser
  deriving DecidableEq, Repr

/-- `static_cast<unsigned>(error)`: the position in the enumeration. -/
def MemberError.code : MemberError → ℕ
  | .lostConnection => 0
  | .hostKicked => 1
  | .unknownError => 2
  | .nameCollision => 3
  | .macCollision => 4
  | .consoleIdCollision => 5
  | .wrongVersion => 6
  | .wrongPassword => 7
  | .couldNotConnect => 8
  | .roomIsFull => 9
  | .hostBanned => 10
  | .permissionDenied => 11
  | .noSuchUser => 12

/-- Every published code stays clear of the bridge's own codes, 100 and above. -/
theorem MemberError.code_lt (error : MemberError) : error.code < 13 := by
  cases error <;> decide

/-- A nickname as it arrives: bytes, not necessarily valid text. -/
abbrev Nickname := List UInt8

/-- `Network::MacAddress`. -/
abbrev MacAddress := Vector UInt8 6

/-- A received packet, by its message id, with the payload the handlers use. -/
inductive Message
  | wifiPacket
  | chatMessage
  | statusMessage
  | roomInformation (members : List Nickname)
  | joinSuccess (mac : MacAddress)
  | joinSuccessAsMod (mac : MacAddress)
  | modBanListResponse
  | roomIsFull
  | nameCollision
  | macCollision
  | consoleIdCollision
  | versionMismatch
  | wrongPassword
  | closeRoom
  | hostKicked
  | hostBanned
  | modPermissionDenied
  | modNoSuchUser
  /-- Any id the `switch` has no case for. -/
  | other
  deriving DecidableEq, Repr

/-- What `enet_host_service` returns with a positive result. -/
inductive Event
  | receive (message : Message)
  | disconnect
  | none
  | connect
  deriving DecidableEq, Repr

/-- One operation of a `switch` case. `store`, `load` and `invokeState` are the
three parts of a `SetState` whose comparison found a different state. -/
inductive HandlerOp
  /-- `SetState(state)`: compare, and continue with the parts below if it differs. -/
  | setState (state : MemberState)
  /-- `state = new_state`. -/
  | store (state : MemberState)
  /-- The argument of `Invoke<State>(state)` reads the atomic again. -/
  | load
  /-- The state callbacks run with the value read. -/
  | invokeState (state : MemberState)
  /-- `SetError(error)`: the error callbacks run. -/
  | setError (error : MemberError)
  /-- `HandleJoinPacket`: `packet >> mac_address`. -/
  | storeMac (mac : MacAddress)
  /-- `HandleRoomInformationPacket` up to its `Invoke`. -/
  | storeMembers (members : List Nickname)
  /-- The room-information callbacks run. -/
  | invokeRoomInformation
  /-- A callback set the bridge binds nothing to. -/
  | invokeOther
  /-- `ASSERT_MSG(member_information.size() > 0, ..)`. -/
  | assertMembers
  /-- `ASSERT_MSG(false, ..)`. -/
  | assertFalse
  /-- The loads of `state == Joined || state == Moderator`; on a match the
  operations that follow run, otherwise none of them. -/
  | whenIn (loads : List MemberState)
  deriving DecidableEq, Repr

/-- The packets that end a connection, with the error each reports. -/
def Message.rejection? : Message → Option MemberError
  | .roomIsFull => some .roomIsFull
  | .nameCollision => some .nameCollision
  | .macCollision => some .macCollision
  | .consoleIdCollision => some .consoleIdCollision
  | .versionMismatch => some .wrongVersion
  | .wrongPassword => some .wrongPassword
  | .closeRoom => some .lostConnection
  | .hostKicked => some .hostKicked
  | .hostBanned => some .hostBanned
  | _ => none

/-- A rejection sets the state first and the error second. -/
def reject (error : MemberError) : List HandlerOp :=
  [.setState .idle, .setError error]

/-- `switch (event.packet->data[0])`. -/
def handleMessage : Message → List HandlerOp
  | .wifiPacket => [.invokeOther]
  | .chatMessage => [.invokeOther]
  | .statusMessage => [.invokeOther]
  | .roomInformation members => [.storeMembers members, .invokeRoomInformation]
  | .joinSuccess mac => [.assertMembers, .storeMac mac, .setState .joined]
  | .joinSuccessAsMod mac => [.assertMembers, .storeMac mac, .setState .moderator]
  | .modBanListResponse => [.invokeOther]
  | .roomIsFull => reject .roomIsFull
  | .nameCollision => reject .nameCollision
  | .macCollision => reject .macCollision
  | .consoleIdCollision => reject .consoleIdCollision
  | .versionMismatch => reject .wrongVersion
  | .wrongPassword => reject .wrongPassword
  | .closeRoom => reject .lostConnection
  | .hostKicked => reject .hostKicked
  | .hostBanned => reject .hostBanned
  | .modPermissionDenied => [.setError .permissionDenied]
  | .modNoSuchUser => [.setError .noSuchUser]
  | .other => []

/-- `switch (event.type)`. -/
def handleEvent : Event → List HandlerOp
  | .receive message => handleMessage message
  | .disconnect => .whenIn inRoomLoads :: reject .lostConnection
  | .none => []
  | .connect => [.assertFalse]

/-- The message admits the member to the room. -/
def Message.IsJoinSuccess : Message → Prop
  | .joinSuccess _ | .joinSuccessAsMod _ => True
  | _ => False

instance (message : Message) : Decidable message.IsJoinSuccess := by
  cases message <;> unfold Message.IsJoinSuccess <;> infer_instance

/-- The event carries such a message. -/
def Event.IsJoinSuccess : Event → Prop
  | .receive message => message.IsJoinSuccess
  | _ => False

instance (event : Event) : Decidable event.IsJoinSuccess := by
  cases event <;> unfold Event.IsJoinSuccess <;> infer_instance

/-- An operation that can leave the member in a connected state. -/
def HandlerOp.Connects : HandlerOp → Prop
  | .setState state | .store state => state.IsConnected
  | _ => False

instance (op : HandlerOp) : Decidable op.Connects := by
  cases op <;> unfold HandlerOp.Connects <;> infer_instance

theorem handleMessage_of_rejection? {message : Message} {error : MemberError}
    (h : message.rejection? = some error) : handleMessage message = reject error := by
  cases message <;> simp_all [Message.rejection?, handleMessage]

/-- Only a join success can put the member into a connected state. -/
theorem exists_connects_handleEvent {event : Event} :
    (∃ op ∈ handleEvent event, op.Connects) ↔ event.IsJoinSuccess := by
  cases event with
  | receive message =>
      cases message <;>
        simp [handleEvent, handleMessage, reject, HandlerOp.Connects, Event.IsJoinSuccess,
          Message.IsJoinSuccess, MemberState.IsConnected]
  | disconnect =>
      simp [handleEvent, reject, HandlerOp.Connects, Event.IsJoinSuccess,
        MemberState.IsConnected]
  | none => simp [handleEvent, Event.IsJoinSuccess]
  | connect => simp [handleEvent, HandlerOp.Connects, Event.IsJoinSuccess]

end ManicRoom.Member
