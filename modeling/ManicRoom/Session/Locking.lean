/-
# The locks of the room bridge

`room_session.cpp` and `room_member.cpp` share five mutexes, and two threads are joined: the
worker by the holder of `api_mutex`, the `MemberLoop` thread inside `Leave`. Here every
function is reduced to what it locks, joins, starts and catches, in the order of the code;
each is named after the function that it is taken from. All of them ask for the locks and
the ends of the threads in one order, so that no threads ever wait for each other in a cycle.
Other components take locks of their own, also several at once, of which nothing is known but
that nobody waits for one whose owner waits for another.
-/

import ManicRoom.Foundation.Threads

namespace ManicRoom.Session

open ManicRoom.Foundation

namespace Locking

/-- The mutexes, and those of other components. -/
inductive Lock
  | apiMutex
  | snapshotMutex
  | callbackMutex
  | networkMutex
  | sendListMutex
  | foreign (number : ℕ)
  deriving DecidableEq, Repr

/-- `worker` and `loop_thread`. -/
inductive Handle
  | worker
  | loopThread
  deriving DecidableEq, Repr

abbrev Code := Foundation.Code Lock Handle

open Foundation.Code

/-! ## The member -/

/-- `RoomMemberImpl::Send`, in `SendWifiPacket` and the other functions that send. -/
def send : Code := guarded .sendListMutex skip

/-- A section of `snapshot_mutex`; it waits for nothing. -/
def snapshotSection : Code := guarded .snapshotMutex skip

section Functions

-- What the callbacks of other components do.
variable (foreign : Code)

/-- `Invoke`: the callbacks of the bridge, each a section of `snapshot_mutex`, and those of
other components. -/
def invoke : Code := guarded .callbackMutex (many (either snapshotSection foreign))

/-- `Bind` -/
def bind : Code := guarded .callbackMutex skip

/-- `Unbind` -/
def unbind : Code := guarded .callbackMutex skip

/-- `SetState`, which invokes the callbacks only if the state changes. -/
def setState : Code := maybe (invoke foreign)

def setError : Code := invoke foreign

/-- `RoomMember::Leave` -/
def leave : Code :=
  block [setState foreign, join .loopThread, guarded .sendListMutex skip]

/-- What `MemberLoop` does with an event: it hands data to the callbacks, or sets the state and
possibly an error. -/
def handleEvent : Code :=
  either (invoke foreign) (block [setState foreign, maybe (setError foreign)])

/-- `MemberLoop`. `Disconnect` at its end waits for nothing. -/
def memberLoop : Code :=
  many
    (guarded .networkMutex
      (block [maybe (handleEvent foreign), guarded .sendListMutex skip]))

/-- The end of `Join`: the connection is there, or it is not. -/
def connected : Code :=
  either
    -- `StartLoop`, `SendJoinRequest` and `SendGameInfo`
    (block [start .loopThread (memberLoop foreign), send, maybe send])
    (block [leave foreign, setState foreign, setError foreign])

/-- `RoomMember::Join` -/
def memberJoin : Code :=
  block [test .loopThread (leave foreign) skip,
    either
      -- There is no client.
      (block [setState foreign, setError foreign])
      (block [setState foreign,
        either
          -- The address cannot be resolved.
          (block [setState foreign, setError foreign, leave foreign])
          (either
            -- There is no peer.
            (block [setState foreign, setError foreign])
            -- It is cancelled, or it goes on.
            (either (leave foreign) (connected foreign)))])]

/-- `RoomMember::~RoomMember` -/
def destroyMember : Code := test .loopThread (leave foreign) skip

/-! ## The session -/

/-- `StopWorker` -/
def stopWorker : Code := join .worker

/-- `Run`. The room that it may create and destroy has its own locks. -/
def run : Code :=
  block [
    attempt
      (block [maybe snapshotSection, maybe (memberJoin foreign), many snapshotSection])
      snapshotSection,
    leave foreign, snapshotSection]

/-- `Initialize` -/
def initializeSession : Code :=
  attempt
    (guarded .apiMutex (maybe (either snapshotSection (block [bind, bind, bind]))))
    snapshotSection

/-- `GameReady` -/
def gameReady : Code :=
  attempt (guarded .apiMutex (maybe (block [stopWorker, snapshotSection]))) skip

/-- `GameStopped` -/
def gameStopped : Code := guarded .apiMutex (block [stopWorker, snapshotSection])

/-- `Shutdown`. `Network::Shutdown` makes the member leave if it is connected. -/
def shutdown : Code :=
  guarded .apiMutex
    (block [stopWorker, snapshotSection,
      maybe (block [unbind, unbind, unbind, destroyMember foreign]),
      maybe (block [maybe (leave foreign), destroyMember foreign])])

/-- `retro_azahar_room_snapshot` -/
def roomSnapshot : Code := attempt (maybe snapshotSection) skip

/-- `retro_azahar_room_is_hosting` -/
def roomIsHosting : Code := snapshotSection

/-- `retro_azahar_room_join` and `retro_azahar_room_host` -/
def roomJoin : Code :=
  attempt
    (maybe (guarded .apiMutex (maybe (block [join .worker, snapshotSection,
      attempt (start .worker (run foreign)) snapshotSection]))))
    skip

/-- `retro_azahar_room_leave` and `retro_azahar_room_close` -/
def roomLeave : Code := attempt (guarded .apiMutex snapshotSection) skip

/-- What the threads call: the API, and what the emulation does. -/
def functions (emulation : Code) : List Code :=
  [initializeSession, gameReady, gameStopped, shutdown foreign, roomSnapshot, roomIsHosting,
    roomJoin foreign, roomLeave, bind, unbind, send, emulation]

end Functions

/-! ## Other components -/

/-- It sends and takes locks of its own component: of the mutexes of the bridge it takes at most
`send_list_mutex`, and it calls neither the API nor `Bind`, `Unbind`, `Join` or `Leave`. -/
def Permitted : Code → Prop
  | .skip => True
  | .seq first second => Permitted first ∧ Permitted second
  | .either left right => Permitted left ∧ Permitted right
  | .many body => Permitted body
  | .attempt body handler => Permitted body ∧ Permitted handler
  | .guarded .sendListMutex .skip => True
  | .guarded (.foreign _) body => Permitted body
  | _ => False

/-- A thread waits for a lock of another component. -/
def WaitsForeign (s : Threads Lock Handle) (thread other : ThreadId) : Prop :=
  ∃ number body rest, s.stack thread = .run (.guarded (.foreign number) body) :: rest ∧
    s.owner (.foreign number) = some other

/-! ## The order -/

/-- The order of the locks and of the ends of the threads. -/
def ranks : Ranks Lock Handle where
  lock
    | .apiMutex => 0
    | .networkMutex => 3
    | .callbackMutex => 4
    | .snapshotMutex => 5
    | .foreign _ => 6
    | .sendListMutex => 7
  handle
    | .worker => 1
    | .loopThread => 2
  nests
    | .foreign _ => true
    | _ => false
  nests_of_eq {inner outer} hnests heq := by
    cases outer <;> cases hnests
    cases inner <;> cases heq
    rfl
  handle_ne {outer} hnests joined := by
    cases outer <;> cases hnests
    cases joined <;> simp

theorem waitsForeign_of_waitsNested {s : Threads Lock Handle} {thread other : ThreadId}
    (h : Threads.WaitsNested ranks s thread other) : WaitsForeign s thread other := by
  obtain ⟨lock, body, rest, hnests, hstack, howner⟩ := h
  cases lock <;> cases hnests
  exact ⟨_, body, rest, hstack, howner⟩

theorem Permitted.ordered {code : Code} {least : ℕ} (h : Permitted code) (hleast : least ≤ 6) :
    code.Ordered ranks least := by
  induction code generalizing least with
  | skip => exact trivial
  | seq first second ihFirst ihSecond => exact ⟨ihFirst h.1 hleast, ihSecond h.2 hleast⟩
  | either left right ihLeft ihRight => exact ⟨ihLeft h.1 hleast, ihRight h.2 hleast⟩
  | many body ih => exact ih h hleast
  | attempt body handler ihBody ihHandler => exact ⟨ihBody h.1 hleast, ihHandler h.2 hleast⟩
  | guarded lock body ih =>
      cases lock with
      | foreign number => exact ⟨hleast, ih h (le_refl 6)⟩
      | sendListMutex =>
          cases body with
          | skip => exact ⟨hleast.trans (by decide), trivial⟩
          | _ => exact h.elim
      | _ => exact h.elim
  | join handle => exact h.elim
  | start handle body => exact h.elim
  | test handle joinable other => exact h.elim

section Order

variable {foreign : Code} {least : ℕ} (permitted : Permitted foreign)

theorem ordered_send (hleast : least ≤ 7) : send.Ordered ranks least := ⟨hleast, trivial⟩

theorem ordered_snapshotSection (hleast : least ≤ 5) : snapshotSection.Ordered ranks least :=
  ⟨hleast, trivial⟩

theorem ordered_bind (hleast : least ≤ 4) : bind.Ordered ranks least := ⟨hleast, trivial⟩

theorem ordered_maybe {code : Code} (h : code.Ordered ranks least) :
    (maybe code).Ordered ranks least := ⟨h, trivial⟩

include permitted

theorem ordered_invoke (hleast : least ≤ 4) : (invoke foreign).Ordered ranks least :=
  ⟨hleast, ordered_snapshotSection (le_refl 5), permitted.ordered (by decide)⟩

theorem ordered_leave (hleast : least ≤ 2) : (leave foreign).Ordered ranks least :=
  ⟨ordered_maybe (ordered_invoke permitted (by omega)), hleast, ordered_send (by omega), trivial⟩

theorem ordered_memberLoop : (memberLoop foreign).Ordered ranks 3 := by
  have hinvoke : (invoke foreign).Ordered ranks 4 := ordered_invoke permitted (le_refl 4)
  have hevent : (handleEvent foreign).Ordered ranks 4 :=
    ⟨hinvoke, ordered_maybe hinvoke, ordered_maybe hinvoke, trivial⟩
  exact ⟨le_refl 3, ordered_maybe hevent, ordered_send (by decide), trivial⟩

theorem ordered_memberJoin : (memberJoin foreign).Ordered ranks 2 := by
  have herror : (setError foreign).Ordered ranks 2 := ordered_invoke permitted (by decide)
  have hstate : (setState foreign).Ordered ranks 2 := ordered_maybe herror
  have hleave : (leave foreign).Ordered ranks 2 := ordered_leave permitted (le_refl 2)
  have hsend : send.Ordered ranks 2 := ordered_send (by decide)
  have hconnected : (connected foreign).Ordered ranks 2 :=
    ⟨⟨ordered_memberLoop permitted, hsend, ordered_maybe hsend, trivial⟩,
      hleave, hstate, herror, trivial⟩
  refine ⟨⟨hleave, trivial⟩, ⟨⟨hstate, herror, trivial⟩, hstate, ⟨?_, ?_, ?_⟩, trivial⟩, trivial⟩
  · exact ⟨hstate, herror, hleave, trivial⟩
  · exact ⟨hstate, herror, trivial⟩
  · exact ⟨hleave, hconnected⟩

theorem ordered_run : (run foreign).Ordered ranks 2 := by
  have hsection : snapshotSection.Ordered ranks 2 := ordered_snapshotSection (by decide)
  have hjoin := ordered_maybe (ordered_memberJoin permitted)
  refine ⟨⟨⟨ordered_maybe hsection, hjoin, hsection, trivial⟩, hsection⟩, ?_, hsection, trivial⟩
  exact ordered_leave permitted (le_refl 2)

theorem ordered_shutdown : (shutdown foreign).Ordered ranks 0 := by
  have hleave : (leave foreign).Ordered ranks 1 := ordered_leave permitted (by decide)
  have hdestroy : (destroyMember foreign).Ordered ranks 1 := ⟨hleave, trivial⟩
  have hbind : bind.Ordered ranks 1 := ordered_bind (by decide)
  refine ⟨le_refl 0, le_refl 1, ordered_snapshotSection (by decide), ?_, ?_, trivial⟩
  · exact ordered_maybe ⟨hbind, hbind, hbind, hdestroy, trivial⟩
  · exact ordered_maybe ⟨ordered_maybe hleave, hdestroy, trivial⟩

theorem ordered_roomJoin : (roomJoin foreign).Ordered ranks 0 := by
  have hsection : snapshotSection.Ordered ranks 1 := ordered_snapshotSection (by decide)
  refine ⟨ordered_maybe ⟨le_refl 0, ordered_maybe ⟨le_refl 1, hsection, ?_, trivial⟩⟩, trivial⟩
  exact ⟨ordered_run permitted, hsection⟩

/-- Everything that threads call keeps to the order. -/
theorem ordered_functions {emulation : Code} (hemulation : Permitted emulation) :
    ∀ code ∈ functions foreign emulation, code.Ordered ranks 0 := by
  have hsection : snapshotSection.Ordered ranks 1 := ordered_snapshotSection (by decide)
  have hsection0 : snapshotSection.Ordered ranks 0 := ordered_snapshotSection (by decide)
  have hbind : bind.Ordered ranks 1 := ordered_bind (by decide)
  have hstop : (block [stopWorker, snapshotSection]).Ordered ranks 1 :=
    ⟨le_refl 1, hsection, trivial⟩
  intro code hmem
  simp only [functions, List.mem_cons, List.not_mem_nil, or_false] at hmem
  rcases hmem with rfl | rfl | rfl | rfl | rfl | rfl | rfl | rfl | rfl | rfl | rfl | rfl
  · have hbinds : (block [bind, bind, bind]).Ordered ranks 1 := ⟨hbind, hbind, hbind, trivial⟩
    exact ⟨⟨le_refl 0, ordered_maybe ⟨hsection, hbinds⟩⟩, hsection0⟩
  · exact ⟨⟨le_refl 0, ordered_maybe hstop⟩, trivial⟩
  · exact ⟨le_refl 0, hstop⟩
  · exact ordered_shutdown permitted
  · exact ⟨ordered_maybe hsection0, trivial⟩
  · exact hsection0
  · exact ordered_roomJoin permitted
  · exact ⟨⟨le_refl 0, hsection⟩, trivial⟩
  · exact ordered_bind (by decide)
  · exact ordered_bind (by decide)
  · exact ordered_send (by decide)
  · exact hemulation.ordered (by decide)

end Order

/-! ## The result -/

/-- The threads of the room bridge. -/
def bridge (foreign emulation : Code) : System (Threads Lock Handle) Move :=
  Threads.system (functions foreign emulation)

/-- **No deadlock in the room bridge.** In every state that any number of threads reach by
calling the API, binding callbacks and sending, there is no cycle of threads that wait for a
lock or for the end of one another; and no thread asks for a lock that it holds. Nobody waits
for a lock of another component whose owner waits for another such lock. -/
theorem no_deadlock (foreign emulation : Code) (hforeign : Permitted foreign)
    (hemulation : Permitted emulation) {s : Threads Lock Handle}
    (h : (bridge foreign emulation).Reachable s)
    (hapart : ∀ thread other last, WaitsForeign s thread other → ¬ WaitsForeign s other last) :
    (∀ thread, ¬ Relation.TransGen s.Waits thread thread) ∧
      ∀ thread lock body rest, s.stack thread = .run (.guarded lock body) :: rest →
        .release lock ∉ rest := by
  obtain ⟨orderly, holds⟩ := Threads.orderly_of_reachable (ordered_functions hforeign hemulation) h
  have apart : Threads.NestedApart ranks s := fun thread other last hwaits hnext =>
    hapart thread other last (waitsForeign_of_waitsNested hwaits)
      (waitsForeign_of_waitsNested hnext)
  exact ⟨orderly.not_transGen_waits apart,
    fun _ _ _ _ hstack => orderly.release_notMem holds apart hstack⟩

/-- Nothing happens yet. -/
def idle : Threads Lock Handle where
  stack _ := []
  owner _ := none
  handle _ := none
  started := 0

/-- Code of another component that sends in the scope of two of its locks. -/
def sendsUnderLocks : Code := guarded (.foreign 0) (guarded (.foreign 1) send)

/-- A thread goes on, and takes these branches. -/
def advances (thread : ThreadId) (branches : List Bool) : List Move :=
  branches.map (.advance thread)

/-- The emulation sends under its locks, a room is joined, `GameStopped` waits for the worker,
`GameReady` for `GameStopped`, and the worker in a callback for the emulation. -/
def waitingSchedule : List Move :=
  .call 2 11 :: advances (.caller 2) (List.replicate 2 true) ++
    .call 0 6 :: advances (.caller 0) (List.replicate 17 true) ++
    .call 0 2 :: advances (.caller 0) (List.replicate 2 true) ++
    [.call 1 1, .advance (.caller 1) true] ++
    advances (.started 0)
      (List.replicate 3 true ++ false :: List.replicate 12 true ++ [false])

/-- The state that this leads to. -/
def waiting : Threads Lock Handle :=
  ((bridge sendsUnderLocks sendsUnderLocks).run idle waitingSchedule).getD idle

theorem reachable_waiting : (bridge sendsUnderLocks sendsUnderLocks).Reachable waiting := by
  have hidle : (bridge sendsUnderLocks sendsUnderLocks).init idle :=
    ⟨fun _ => rfl, fun _ => rfl, fun _ => rfl⟩
  have hruns :
      ((bridge sendsUnderLocks sendsUnderLocks).run idle waitingSchedule).isSome = true := by
    decide +kernel
  obtain ⟨s, hs⟩ := Option.isSome_iff_exists.mp hruns
  have hwaiting : waiting = s := by rw [waiting, hs]; rfl
  rw [hwaiting]
  exact System.reachable_of_run (.init hidle) waitingSchedule hs

/-- The worker waits for a lock of the emulation, which waits for no other. -/
theorem waitsForeign_waiting {thread other : ThreadId} (h : WaitsForeign waiting thread other) :
    other = .caller 2 := by
  obtain ⟨number, body, rest, -, howner⟩ := h
  match number, howner with
  | 0, howner => exact (Option.some.inj howner).symm
  | 1, howner => exact (Option.some.inj howner).symm
  | _ + 2, howner => cases howner

theorem no_deadlock_gameReadyWaits :
    waiting.Waits (.caller 1) (.caller 0) ∧ waiting.Waits (.caller 0) (.started 0) ∧
      waiting.Waits (.started 0) (.caller 2) ∧
      ∀ thread, ¬ Relation.TransGen waiting.Waits thread thread := by
  have permitted : Permitted sendsUnderLocks := trivial
  have hapart (thread other last : ThreadId) (hwaits : WaitsForeign waiting thread other) :
      ¬ WaitsForeign waiting other last := by
    cases waitsForeign_waiting hwaits
    rintro ⟨number, body, rest, hstack, -⟩
    cases hstack
  refine ⟨.lock rfl rfl, .finish rfl rfl rfl ?_, .lock rfl rfl, ?_⟩
  · exact List.cons_ne_nil _ _
  · exact (no_deadlock sendsUnderLocks sendsUnderLocks permitted permitted reachable_waiting
      hapart).1

end Locking

end ManicRoom.Session
