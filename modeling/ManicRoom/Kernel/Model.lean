/-
# The worker ordering workaround

`YW2-local-play.patch` lets the first zero-timeout poll of a finished network worker
time out, in the games that need it. The kernel around it is not part of the patch: it
is a parameter, a record of the functions that `WaitSynchronization1` and the three
functions of the workaround call. The unpatched and the patched call are written side
by side over it.
-/

import Mathlib.Data.Option.Basic
import ManicRoom.Foundation.Machine

namespace ManicRoom.Kernel

open ManicRoom.Foundation

/-- `Result`, as far as the call knows it. -/
inductive Result
  | success
  | timeout
  | other (code : UInt32)
  deriving DecidableEq, Repr

/-- `Handle`. -/
abbrev Handle := UInt32

/-- The titles that `IsYoKaiWatch2Title` lists. -/
def yoKaiWatch2Titles : List UInt64 :=
  [0x0004000000155100, 0x000400000012F900, 0x000400000012F800, 0x000400000019A900,
    0x000400000019AA00, 0x00040000001B2700, 0x000400000019AB00, 0x000400000019AC00,
    0x00040000001B2900, 0x000400000019B000, 0x000400000019B100, 0x00040000001B2800,
    0x000400000019AE00, 0x000400000019AF00, 0x00040000001B2A00]

/-- `IsYoKaiWatch2Title`. -/
def isYoKaiWatch2Title (titleId : UInt64) : Bool := titleId ∈ yoKaiWatch2Titles

universe u v w x

/-- What the kernel provides. `K` is its whole state, the workaround apart. -/
structure Interface (K : Type u) (Process : Type v) (Thread : Type w) (Object : Type x) where
  /-- The lookup of the handle in the table of the current process. -/
  lookup : K → Handle → Except Result Object
  /-- `GetCurrentProcess()`. -/
  currentProcess : K → Option Process
  /-- `codeset->program_id`, if there is a codeset. -/
  programId : K → Process → Option UInt64
  /-- The object as a thread, if its handle type is that. -/
  asThread : Object → Option Thread
  /-- `owner_process.lock()`. -/
  ownerProcess : K → Thread → Option Process
  /-- `status == ThreadStatus::Dead`. -/
  dead : K → Thread → Bool
  /-- A weak pointer to this process can be locked. -/
  processExists : K → Process → Bool
  /-- A weak pointer to this thread can be locked. -/
  threadExists : K → Thread → Bool
  /-- `ShouldWait` for the current thread. -/
  shouldWait : K → Object → Bool
  /-- The current thread is put to sleep until the object wakes it or time runs out. -/
  block : K → Object → Int64 → K × Result
  /-- `Acquire` by the current thread, and the end of the call. -/
  acquire : K → Object → K × Result
  /-- `TerminateProcess`, the workaround apart. -/
  terminate : K → Process → K

/-- What the workaround relies on. -/
structure Interface.Lawful {K : Type u} {Process : Type v} {Thread : Type w} {Object : Type x}
    (kernel : Interface K Process Thread Object) : Prop where
  /-- Nobody has to wait for a dead thread. -/
  shouldWait_dead : ∀ k object thread, kernel.asThread object = some thread →
    kernel.dead k thread = true → kernel.shouldWait k object = false
  /-- Acquiring a dead thread changes nothing. -/
  acquire_dead : ∀ k object thread, kernel.asThread object = some thread →
    kernel.dead k thread = true → kernel.acquire k object = (k, .success)
  /-- A thread in the handle table exists. -/
  lookup_exists : ∀ k handle object thread, kernel.lookup k handle = .ok object →
    kernel.asThread object = some thread → kernel.threadExists k thread = true
  /-- The current process exists. -/
  current_exists : ∀ k process, kernel.currentProcess k = some process →
    kernel.processExists k process = true

/-- `YW2UDSWorkerOrderingState`. -/
structure YW2UDSWorkerOrderingState (Process : Type v) (Thread : Type w) where
  process : Option Process := none
  thread : Option Thread := none
  commandId : UInt16 := 0
  firstPollConsumed : Bool := false
  deriving DecidableEq, Repr

/-- The kernel with the two registrations of the workaround. -/
structure State (K : Type u) (Process : Type v) (Thread : Type w) where
  kernel : K
  yw2HostWorkerOrdering : YW2UDSWorkerOrderingState Process Thread := {}
  yw2ClientWorkerOrdering : YW2UDSWorkerOrderingState Process Thread := {}
  deriving DecidableEq, Repr

variable {K : Type u} {Process : Type v} {Thread : Type w} {Object : Type x}
  [DecidableEq Process] [DecidableEq Thread] (kernel : Interface K Process Thread Object)

/-- The process, if it has a codeset, runs one of the titles. -/
def Interface.listed (k : K) (process : Process) : Bool :=
  (kernel.programId k process).any isYoKaiWatch2Title

/-- `state.process.lock()`. -/
def Interface.lockProcess (k : K) (state : YW2UDSWorkerOrderingState Process Thread) :
    Option Process :=
  state.process.filter (kernel.processExists k)

/-- `state.thread.lock()`. -/
def Interface.lockThread (k : K) (state : YW2UDSWorkerOrderingState Process Thread) :
    Option Thread :=
  state.thread.filter (kernel.threadExists k)

/-- `RegisterYW2UDSWorkerOrderingWorkaround`. -/
def registerYW2UDSWorkerOrderingWorkaround (s : State K Process Thread) (thread : Option Thread)
    (commandId : UInt16) : State K Process Thread :=
  match thread with
  | none => s
  | some thread =>
      if commandId ≠ 0x001D ∧ commandId ≠ 0x001E then s
      else
        match kernel.ownerProcess s.kernel thread with
        | none => s
        | some process =>
            if kernel.listed s.kernel process then
              if commandId = 0x001D then
                { s with yw2HostWorkerOrdering := ⟨process, thread, commandId, false⟩ }
              else { s with yw2ClientWorkerOrdering := ⟨process, thread, commandId, false⟩ }
            else s

/-- The lambda `try_state`. -/
def tryState (k : K) (process : Process) (thread : Thread)
    (state : YW2UDSWorkerOrderingState Process Thread) :
    YW2UDSWorkerOrderingState Process Thread × UInt16 :=
  match kernel.lockProcess k state, kernel.lockThread k state with
  | some registeredProcess, some registeredThread =>
      if state.firstPollConsumed ∨ registeredProcess ≠ process ∨ registeredThread ≠ thread then
        (state, 0)
      else if state.commandId ≠ 0x001D ∧ state.commandId ≠ 0x001E then ({}, 0)
      else ({ state with firstPollConsumed := true }, state.commandId)
  | _, _ => ({}, 0)

/-- `TryUseYW2UDSWorkerOrderingWorkaround`. -/
def tryUseYW2UDSWorkerOrderingWorkaround (s : State K Process Thread)
    (process : Option Process) (thread : Option Thread) : State K Process Thread × UInt16 :=
  match process, thread with
  | some process, some thread =>
      let host := tryState kernel s.kernel process thread s.yw2HostWorkerOrdering
      let tried := { s with yw2HostWorkerOrdering := host.1 }
      if host.2 ≠ 0 then (tried, host.2)
      else
        let client := tryState kernel s.kernel process thread s.yw2ClientWorkerOrdering
        ({ tried with yw2ClientWorkerOrdering := client.1 }, client.2)
  | _, _ => (s, 0)

/-- `ClearYW2UDSWorkerOrderingWorkaround`. -/
def clearYW2UDSWorkerOrderingWorkaround (s : State K Process Thread) (process : Option Process) :
    State K Process Thread :=
  let host := s.yw2HostWorkerOrdering
  let client := s.yw2ClientWorkerOrdering
  { s with
    yw2HostWorkerOrdering := if kernel.lockProcess s.kernel host = process then {} else host
    yw2ClientWorkerOrdering := if kernel.lockProcess s.kernel client = process then {} else client }

/-! ## The calls -/

/-- `WaitSynchronization1` before the patch. -/
def Interface.waitSynchronization1 (k : K) (handle : Handle) (nanoSeconds : Int64) : K × Result :=
  match kernel.lookup k handle with
  | .error result => (k, result)
  | .ok object =>
      if kernel.shouldWait k object then
        if nanoSeconds = 0 then (k, .timeout) else kernel.block k object nanoSeconds
      else kernel.acquire k object

/-- `apply_yw2_worker_ordering_workaround`, with what computing it does to the
registrations. -/
def applyWorkaround (s : State K Process Thread) (object : Object) (nanoSeconds : Int64) :
    State K Process Thread × Bool :=
  if kernel.shouldWait s.kernel object = false ∧ nanoSeconds = 0 then
    match kernel.asThread object, kernel.currentProcess s.kernel with
    | some targetThread, some process =>
        if kernel.listed s.kernel process ∧
            kernel.ownerProcess s.kernel targetThread = some process ∧
            kernel.dead s.kernel targetThread then
          let used := tryUseYW2UDSWorkerOrderingWorkaround kernel s process targetThread
          (used.1, used.2 ≠ 0)
        else (s, false)
    | _, _ => (s, false)
  else (s, false)

/-- `WaitSynchronization1` after the patch. -/
def waitSynchronization1 (s : State K Process Thread) (handle : Handle) (nanoSeconds : Int64) :
    State K Process Thread × Result :=
  match kernel.lookup s.kernel handle with
  | .error result => (s, result)
  | .ok object =>
      let actualShouldWait := kernel.shouldWait s.kernel object
      let applied := applyWorkaround kernel s object nanoSeconds
      let effectiveShouldWait := actualShouldWait || applied.2
      if effectiveShouldWait then
        if nanoSeconds = 0 then (applied.1, .timeout)
        else
          let (k, result) := kernel.block applied.1.kernel object nanoSeconds
          ({ applied.1 with kernel := k }, result)
      else
        let (k, result) := kernel.acquire applied.1.kernel object
        ({ applied.1 with kernel := k }, result)

/-- `TerminateProcess` after the patch. -/
def terminateProcess (s : State K Process Thread) (process : Process) : State K Process Thread :=
  let cleared := clearYW2UDSWorkerOrderingWorkaround kernel s process
  { cleared with kernel := kernel.terminate cleared.kernel process }

/-! ## The two kernels -/

/-- What happens to a kernel: the calls of the workaround, and anything else, which
changes its state without knowing the registrations. -/
inductive Call (K : Type u) (Process : Type v) (Thread : Type w)
  | register (thread : Option Thread) (commandId : UInt16)
  | wait (handle : Handle) (nanoSeconds : Int64)
  | terminate (process : Process)
  | other (change : K → K)

/-- The kernel before the patch, where nobody registers. -/
def unpatched : Machine K (Call K Process Thread) (Option Result) where
  step k
    | .register _ _ => (k, none)
    | .wait handle nanoSeconds =>
        let waited := kernel.waitSynchronization1 k handle nanoSeconds
        (waited.1, waited.2)
    | .terminate process => (kernel.terminate k process, none)
    | .other change => (change k, none)

/-- The kernel after the patch. -/
def patched : Machine (State K Process Thread) (Call K Process Thread) (Option Result) where
  step s
    | .register thread commandId =>
        (registerYW2UDSWorkerOrderingWorkaround kernel s thread commandId, none)
    | .wait handle nanoSeconds =>
        let waited := waitSynchronization1 kernel s handle nanoSeconds
        (waited.1, waited.2)
    | .terminate process => (terminateProcess kernel s process, none)
    | .other change => ({ s with kernel := change s.kernel }, none)

end ManicRoom.Kernel
