/-
# Registrations are one-shot and exact

The two registrations are followed through every sequence of the three operations of the
workaround, while threads and processes come and go in any way. Which pairs may still
use a registration is said twice: by the two slots, which hold weak references and are
cleared late, and by the history of operations alone. The two agree for every pair that
is alive, so an answer is exactly what the history entitles the pair to.
-/

import Mathlib.Data.List.Induction
import ManicRoom.Kernel.Workaround

namespace ManicRoom.Kernel

open ManicRoom.Foundation

universe u v w x

variable {K : Type u} {Process : Type v} {Thread : Type w} {Object : Type x}

/-- The two sides of a local game. -/
inductive Role
  | host
  | client
  deriving DecidableEq, Repr

/-- The command that registers a thread for the role. -/
def Role.commandId : Role → UInt16
  | .host => 0x001D
  | .client => 0x001E

theorem Role.commandId_ne_zero (role : Role) : role.commandId ≠ 0 := by
  cases role <;> decide

/-- The registration of the role. -/
def State.slot (s : State K Process Thread) : Role → YW2UDSWorkerOrderingState Process Thread
  | .host => s.yw2HostWorkerOrdering
  | .client => s.yw2ClientWorkerOrdering

/-- What happens to the registrations. -/
inductive Operation (K : Type u) (Process : Type v) (Thread : Type w)
  | register (thread : Option Thread) (commandId : UInt16)
  | tryUse (process : Option Process) (thread : Option Thread)
  | terminate (process : Process)
  /-- Anything else, such as the creation or the destruction of threads and processes. -/
  | other (change : K → K)

section Model

variable [DecidableEq Process] [DecidableEq Thread] (kernel : Interface K Process Thread Object)

/-- The three operations, and what they answer. -/
def registrations : Machine (State K Process Thread) (Operation K Process Thread) UInt16 where
  step s
    | .register thread commandId =>
        (registerYW2UDSWorkerOrderingWorkaround kernel s thread commandId, 0)
    | .tryUse process thread => tryUseYW2UDSWorkerOrderingWorkaround kernel s process thread
    | .terminate process => (terminateProcess kernel s process, 0)
    | .other change => ({ s with kernel := change s.kernel }, 0)

end Model

section Histories

variable (kernel : Interface K Process Thread Object)

/-- The pair that the operation registers, if it is an effective registration: the thread
is there, and its owner is alive and runs one of the listed titles. -/
def Interface.registers (s : State K Process Thread) (role : Role) :
    Operation K Process Thread → Option (Process × Thread)
  | .register (some thread) commandId =>
      if commandId = role.commandId then
        ((kernel.ownerProcess s.kernel thread).filter (kernel.listed s.kernel)).map (·, thread)
      else none
  | _ => none

variable [DecidableEq Process] [DecidableEq Thread]

/-- The operation ends what the pair was registered for under the role: by another
registration, by the end of the process, or because it uses the registration. -/
def Interface.Ends (role : Role) (process : Process) (s : State K Process Thread)
    (operation : Operation K Process Thread) : Prop :=
  kernel.registers s role operation ≠ none ∨ operation = .terminate process ∨
    ((registrations kernel).step s operation).2 = role.commandId

/-- The latest effective registration under the role was of this pair; its process has
not been terminated since, and no use under the role has been answered since. -/
def Interface.Entitled (k : K) (history : List (Operation K Process Thread)) (role : Role)
    (process : Process) (thread : Thread) : Prop :=
  (registrations kernel).Since { kernel := k }
    (fun s operation => kernel.registers s role operation = some (process, thread))
    (kernel.Ends role process) history

/-- The kernel after the history. -/
def Interface.after (k : K) (history : List (Operation K Process Thread)) :
    State K Process Thread :=
  (registrations kernel).run { kernel := k } history

/-- What the operation answers after the history. -/
def Interface.answer (k : K) (history : List (Operation K Process Thread))
    (operation : Operation K Process Thread) : UInt16 :=
  ((registrations kernel).step (kernel.after k history) operation).2

/-- The uses that are answered under the role. -/
def Interface.answered (role : Role) (s : State K Process Thread)
    (operation : Operation K Process Thread) : Bool :=
  ((registrations kernel).step s operation).2 = role.commandId

/-- Both objects are alive after the history. -/
def Interface.Alive (k : K) (history : List (Operation K Process Thread)) (process : Process)
    (thread : Thread) : Prop :=
  kernel.processExists (kernel.after k history).kernel process = true ∧
    kernel.threadExists (kernel.after k history).kernel thread = true

/-- Pointers keep what they point to alive, and what is destroyed does not come back: an
object that is created later is another one. -/
structure Interface.Lifetimes (k : K) (history : List (Operation K Process Thread)) : Prop where
  /-- The lifetime of a process is one interval. -/
  process : ∀ early middle late, early <+: middle → middle <+: late → late <+: history →
    ∀ process, kernel.processExists (kernel.after k early).kernel process = true →
      kernel.processExists (kernel.after k late).kernel process = true →
        kernel.processExists (kernel.after k middle).kernel process = true
  /-- The lifetime of a thread is one interval. -/
  thread : ∀ early middle late, early <+: middle → middle <+: late → late <+: history →
    ∀ thread, kernel.threadExists (kernel.after k early).kernel thread = true →
      kernel.threadExists (kernel.after k late).kernel thread = true →
        kernel.threadExists (kernel.after k middle).kernel thread = true
  /-- An owner that can be locked is alive. -/
  owner : ∀ k thread process, kernel.ownerProcess k thread = some process →
    kernel.processExists k process = true
  /-- A thread that is passed to a registration is alive. -/
  registered : ∀ before thread commandId after,
    history = before ++ .register (some thread) commandId :: after →
      kernel.threadExists (kernel.after k before).kernel thread = true
  /-- A process and a thread that are passed to a use are alive. -/
  used : ∀ before process thread after,
    history = before ++ .tryUse (some process) (some thread) :: after →
      kernel.Alive k before process thread

end Histories

open YW2UDSWorkerOrderingState (Kept)

/-! ## One operation -/

section Steps

variable [DecidableEq Process] [DecidableEq Thread] {kernel : Interface K Process Thread Object}
  {s : State K Process Thread} {role : Role} {process : Process} {thread : Thread}

/-- Every registration is for the command of its slot. -/
def State.Own (s : State K Process Thread) : Prop :=
  ∀ role : Role, (s.slot role).process ≠ none → (s.slot role).commandId = role.commandId

omit [DecidableEq Process] [DecidableEq Thread] in
theorem State.Own.valid (own : s.Own) (role : Role) : (s.slot role).Valid := by
  intro hregistered
  rw [own role hregistered]
  cases role
  · exact .inl rfl
  · exact .inr rfl

/-- What a use answers, and what it does to the slots. -/
structure Answer (kernel : Interface K Process Thread Object) (s : State K Process Thread)
    (process : Process) (thread : Thread) (used : State K Process Thread × UInt16) : Prop where
  unchanged : used.1.kernel = s.kernel
  granted : ∀ role : Role, used.2 = role.commandId ↔
    (s.slot role).Armed process thread ∧
      (role = .client → ¬ (s.slot .host).Armed process thread)
  consumed : ∀ role : Role, used.2 = role.commandId →
    used.1.slot role = (s.slot role).consumed
  kept : ∀ role : Role, used.2 ≠ role.commandId →
    Kept kernel s.kernel (s.slot role) (used.1.slot role)

theorem tryState_slot (own : s.Own) (role : Role)
    (hprocess : kernel.processExists s.kernel process = true)
    (hthread : kernel.threadExists s.kernel thread = true) :
    (s.slot role).Armed process thread ∧
        tryState kernel s.kernel process thread (s.slot role) =
          ((s.slot role).consumed, role.commandId) ∨
      ¬ (s.slot role).Armed process thread ∧
        ∃ slot, tryState kernel s.kernel process thread (s.slot role) = (slot, 0) ∧
          Kept kernel s.kernel (s.slot role) slot := by
  rcases tryState_cases kernel (own.valid role) hprocess hthread with
    ⟨harmed, -, hused⟩ | ⟨hunarmed, hzero, hkept⟩
  · exact .inl ⟨harmed, hused.trans (by rw [own role (by simp [harmed.1])])⟩
  · exact .inr ⟨hunarmed, _, Prod.ext rfl hzero, hkept⟩

theorem tryUse_answer (own : s.Own) (hprocess : kernel.processExists s.kernel process = true)
    (hthread : kernel.threadExists s.kernel thread = true) :
    Answer kernel s process thread
      (tryUseYW2UDSWorkerOrderingWorkaround kernel s process thread) := by
  simp only [tryUseYW2UDSWorkerOrderingWorkaround]
  rcases tryState_slot own .host hprocess hthread with
    ⟨harmed, hhost⟩ | ⟨hunarmed, host, hhost, hkeptHost⟩
  · simp only [State.slot, Role.commandId] at harmed hhost
    simp only [hhost]
    rw [if_pos (by decide)]
    refine ⟨rfl, fun role => ?_, fun role hrole => ?_, fun role hrole => ?_⟩
    · cases role with
      | host => simpa [State.slot, Role.commandId] using harmed
      | client => simp [State.slot, Role.commandId, harmed]
    · cases role with
      | host => rfl
      | client => cases hrole
    · cases role with
      | host => exact absurd rfl hrole
      | client => exact .inl rfl
  · simp only [State.slot] at hunarmed hhost hkeptHost
    simp only [hhost]
    rw [if_neg (by decide)]
    rcases tryState_slot own .client hprocess hthread with
      ⟨harmed, hclient⟩ | ⟨hunarmedClient, client, hclient, hkeptClient⟩
    · simp only [State.slot, Role.commandId] at harmed hclient
      simp only [hclient]
      refine ⟨rfl, fun role => ?_, fun role hrole => ?_, fun role hrole => ?_⟩
      · cases role with
        | host => simp [State.slot, Role.commandId, hunarmed]
        | client => simpa [State.slot, Role.commandId, hunarmed] using harmed
      · cases role with
        | host => cases hrole
        | client => rfl
      · cases role with
        | host => exact hkeptHost
        | client => exact absurd rfl hrole
    · simp only [State.slot] at hunarmedClient hclient hkeptClient
      simp only [hclient]
      refine ⟨rfl, fun role => ?_, fun role hrole => ?_, fun role _ => ?_⟩
      · cases role <;> simp [State.slot, Role.commandId, hunarmed, hunarmedClient]
      · exact absurd hrole.symm role.commandId_ne_zero
      · cases role with
        | host => exact hkeptHost
        | client => exact hkeptClient

omit [DecidableEq Process] [DecidableEq Thread] in
/-- A registration fills the slot of its role, and leaves the other one alone. -/
theorem slot_register (s : State K Process Thread) (role : Role) (thread : Option Thread)
    (commandId : UInt16) :
    (registerYW2UDSWorkerOrderingWorkaround kernel s thread commandId).slot role =
      match kernel.registers s role (.register thread commandId) with
      | some pair => ⟨some pair.1, some pair.2, role.commandId, false⟩
      | none => s.slot role := by
  cases thread with
  | none => rfl
  | some thread =>
      simp only [registerYW2UDSWorkerOrderingWorkaround, Interface.registers]
      by_cases hhost : commandId = 0x001D
      · subst hhost
        cases howner : kernel.ownerProcess s.kernel thread with
        | none => cases role <;> rfl
        | some process =>
            cases hlisted : kernel.listed s.kernel process <;>
              cases role <;> simp [State.slot, Role.commandId, hlisted, Option.filter]
      · by_cases hclient : commandId = 0x001E
        · subst hclient
          cases howner : kernel.ownerProcess s.kernel thread with
          | none => cases role <;> rfl
          | some process =>
              cases hlisted : kernel.listed s.kernel process <;>
                cases role <;> simp [State.slot, Role.commandId, hlisted, Option.filter]
        · cases role <;> simp [Role.commandId, hhost, hclient]

omit [DecidableEq Thread] in
theorem slot_terminate (s : State K Process Thread) (role : Role) (process : Process) :
    (terminateProcess kernel s process).slot role =
      if kernel.lockProcess s.kernel (s.slot role) = some process then {} else s.slot role := by
  cases role <;> rfl

theorem own_step (own : s.Own) (operation : Operation K Process Thread)
    (hused : ∀ process thread, operation = .tryUse (some process) (some thread) →
      kernel.processExists s.kernel process = true ∧ kernel.threadExists s.kernel thread = true) :
    ((registrations kernel).step s operation).1.Own := by
  intro role
  cases operation with
  | register thread commandId =>
      simp only [registrations, slot_register]
      split
      · exact fun _ => rfl
      · exact own role
  | tryUse process thread =>
      match process, thread, hused with
      | none, _, _ => exact own role
      | some process, none, _ => exact own role
      | some process, some thread, hused =>
          obtain ⟨hprocess, hthread⟩ := hused process thread rfl
          have answer := tryUse_answer own hprocess hthread
          by_cases hrole : (tryUseYW2UDSWorkerOrderingWorkaround kernel s process thread).2 =
              role.commandId
          · exact fun h => (congrArg _ (answer.consumed role hrole)).trans
              (own role fun hnone => h (by simp [registrations, answer.consumed role hrole,
                YW2UDSWorkerOrderingState.consumed, hnone]))
          · rcases answer.kept role hrole with hsame | ⟨-, hempty⟩
            · simpa only [registrations, hsame] using own role
            · exact fun h => absurd (congrArg _ hempty) h
  | terminate process =>
      simp only [registrations, slot_terminate]
      split
      · exact fun h => absurd rfl h
      · exact own role
  | other change =>
      cases role with
      | host => exact own .host
      | client => exact own .client

omit [DecidableEq Process] [DecidableEq Thread] in
theorem armed_slot {pair : Process × Thread} {commandId : UInt16} :
    YW2UDSWorkerOrderingState.Armed ⟨some pair.1, some pair.2, commandId, false⟩ process thread ↔
      pair = (process, thread) := by
  simp [YW2UDSWorkerOrderingState.Armed, Prod.ext_iff]

/-- A slot is armed for a living pair because of this operation, or still is. -/
theorem armed_step (own : s.Own) (operation : Operation K Process Thread)
    (hused : ∀ process thread, operation = .tryUse (some process) (some thread) →
      kernel.processExists s.kernel process = true ∧ kernel.threadExists s.kernel thread = true)
    (hprocess : kernel.processExists s.kernel process = true)
    (hthread : kernel.threadExists s.kernel thread = true) :
    (((registrations kernel).step s operation).1.slot role).Armed process thread ↔
      kernel.registers s role operation = some (process, thread) ∨
        (s.slot role).Armed process thread ∧ ¬ kernel.Ends role process s operation := by
  have hzero : (0 : UInt16) ≠ role.commandId := role.commandId_ne_zero.symm
  cases operation with
  | register thread' commandId =>
      simp only [registrations, slot_register, Interface.Ends]
      cases hregisters : kernel.registers s role (.register thread' commandId) with
      | none => simp [hzero]
      | some pair => simp [armed_slot]
  | tryUse process' thread' =>
      simp only [Interface.Ends, Interface.registers]
      match process', thread', hused with
      | none, _, _ => simp [registrations, tryUseYW2UDSWorkerOrderingWorkaround, hzero]
      | some _, none, _ => simp [registrations, tryUseYW2UDSWorkerOrderingWorkaround, hzero]
      | some process', some thread', hused =>
          obtain ⟨hprocess', hthread'⟩ := hused process' thread' rfl
          have answer := tryUse_answer own hprocess' hthread'
          by_cases hrole : (tryUseYW2UDSWorkerOrderingWorkaround kernel s process' thread').2 =
              role.commandId
          · have hspent := (s.slot role).not_armed_consumed process thread
            simp [registrations, answer.consumed role hrole, hrole, hspent]
          · simp [registrations, hrole, (answer.kept role hrole).armed_iff kernel hprocess hthread]
  | terminate process' =>
      simp only [registrations, slot_terminate, Interface.Ends, Interface.registers]
      split
      · next hlock =>
        have hregistered := (Option.filter_eq_some_iff.mp hlock).1
        have hempty : ¬ YW2UDSWorkerOrderingState.Armed {} process thread := fun h => by cases h.1
        refine iff_of_false hempty ?_
        rintro (h | ⟨harmed, hkeeps⟩)
        · cases h
        · have hsame : process' = process := Option.some.inj (hregistered.symm.trans harmed.1)
          exact hkeeps (.inr (.inl (by rw [hsame])))
      · next hlock =>
        have hother (harmed : (s.slot role).Armed process thread) : process' ≠ process := by
          rintro rfl
          exact hlock (by simp [Interface.lockProcess, harmed.1, hprocess])
        constructor
        · intro harmed
          refine .inr ⟨harmed, ?_⟩
          simp [hother harmed, hzero]
        · rintro (h | h)
          · cases h
          · exact h.1
  | other change =>
      have hslot : (State.slot { s with kernel := change s.kernel } role) = s.slot role := by
        cases role <;> rfl
      simp [registrations, hslot, Interface.Ends, Interface.registers, hzero]

/-- A slot is only ever armed by a registration. -/
theorem armed_of_step (own : s.Own) (operation : Operation K Process Thread)
    (hused : ∀ process thread, operation = .tryUse (some process) (some thread) →
      kernel.processExists s.kernel process = true ∧ kernel.threadExists s.kernel thread = true)
    (h : (((registrations kernel).step s operation).1.slot role).Armed process thread) :
    kernel.registers s role operation = some (process, thread) ∨
      (s.slot role).Armed process thread := by
  cases operation with
  | register thread' commandId =>
      simp only [registrations, slot_register] at h
      cases hregisters : kernel.registers s role (.register thread' commandId) with
      | none => exact .inr (by simpa [hregisters] using h)
      | some pair =>
          rw [hregisters] at h
          exact .inl (congrArg some (armed_slot.mp h))
  | tryUse process' thread' =>
      match process', thread', hused with
      | none, _, _ => exact .inr h
      | some _, none, _ => exact .inr h
      | some process', some thread', hused =>
          obtain ⟨hprocess', hthread'⟩ := hused process' thread' rfl
          have answer := tryUse_answer own hprocess' hthread'
          by_cases hrole : (tryUseYW2UDSWorkerOrderingWorkaround kernel s process' thread').2 =
              role.commandId
          · rw [registrations, answer.consumed role hrole] at h
            exact absurd h ((s.slot role).not_armed_consumed process thread)
          · rcases answer.kept role hrole with hsame | ⟨-, hempty⟩
            · exact .inr (hsame ▸ h)
            · rw [registrations, hempty] at h
              cases h.1
  | terminate process' =>
      simp only [registrations, slot_terminate] at h
      split at h
      · cases h.1
      · exact .inr h
  | other change => cases role <;> exact .inr h

theorem tryState_value (k : K) (process : Process) (thread : Thread)
    (slot : YW2UDSWorkerOrderingState Process Thread) :
    (tryState kernel k process thread slot).2 = 0 ∨
      ∃ role : Role, (tryState kernel k process thread slot).2 = role.commandId := by
  unfold tryState
  split
  · split
    · exact .inl rfl
    · split
      · exact .inl rfl
      · next hcommand =>
        rw [not_and_or, not_not, not_not] at hcommand
        rcases hcommand with hhost | hclient
        · exact .inr ⟨.host, hhost⟩
        · exact .inr ⟨.client, hclient⟩
  · exact .inl rfl

/-- An answer is zero, or the command of a role. -/
theorem step_value (s : State K Process Thread) (operation : Operation K Process Thread) :
    ((registrations kernel).step s operation).2 = 0 ∨
      ∃ role : Role, ((registrations kernel).step s operation).2 = role.commandId := by
  cases operation with
  | tryUse process thread =>
      match process, thread with
      | none, _ => exact .inl rfl
      | some _, none => exact .inl rfl
      | some process, some thread =>
          simp only [registrations, tryUseYW2UDSWorkerOrderingWorkaround]
          split
          · exact tryState_value s.kernel process thread s.yw2HostWorkerOrdering
          · exact tryState_value s.kernel process thread s.yw2ClientWorkerOrdering
  | register thread commandId => exact .inl rfl
  | terminate process => exact .inl rfl
  | other change => exact .inl rfl

end Steps

/-! ## Histories of operations -/

section Runs

variable [DecidableEq Process] [DecidableEq Thread] {kernel : Interface K Process Thread Object}
  {k : K} {history : List (Operation K Process Thread)} {operation : Operation K Process Thread}
  {role : Role} {process : Process} {thread : Thread}

theorem after_append_singleton :
    kernel.after k (history ++ [operation]) =
      ((registrations kernel).step (kernel.after k history) operation).1 := by
  rw [Interface.after, Machine.run_append]
  rfl

/-- Lifetimes up to some moment do not depend on what comes later. -/
theorem Interface.Lifetimes.earlier {later : List (Operation K Process Thread)}
    (lifetimes : kernel.Lifetimes k later) (h : history <+: later) :
    kernel.Lifetimes k history where
  process early middle late hearly hmiddle hlate :=
    lifetimes.process early middle late hearly hmiddle (hlate.trans h)
  thread early middle late hearly hmiddle hlate :=
    lifetimes.thread early middle late hearly hmiddle (hlate.trans h)
  owner := lifetimes.owner
  registered before thread commandId after hsplit := by
    obtain ⟨rest, rfl⟩ := h
    exact lifetimes.registered before thread commandId (after ++ rest) (by simp [hsplit])
  used before process thread after hsplit := by
    obtain ⟨rest, rfl⟩ := h
    exact lifetimes.used before process thread (after ++ rest) (by simp [hsplit])

/-- A pair that is alive at two moments is alive in between. -/
theorem Interface.Lifetimes.between (lifetimes : kernel.Lifetimes k history)
    {early middle : List (Operation K Process Thread)} (hearly : early <+: middle)
    (hmiddle : middle <+: history) (halive : kernel.Alive k early process thread)
    (hnow : kernel.Alive k history process thread) : kernel.Alive k middle process thread := by
  constructor
  · exact lifetimes.process early middle history hearly hmiddle (List.prefix_refl _) process
      halive.1 hnow.1
  · exact lifetimes.thread early middle history hearly hmiddle (List.prefix_refl _) thread
      halive.2 hnow.2

/-- A pair is alive when it is registered. -/
theorem Interface.Lifetimes.alive_of_registers
    {before after : List (Operation K Process Thread)}
    (lifetimes : kernel.Lifetimes k history) (hsplit : history = before ++ operation :: after)
    (h : kernel.registers (kernel.after k before) role operation = some (process, thread)) :
    kernel.Alive k before process thread := by
  cases operation with
  | register worker commandId =>
      cases worker with
      | none => cases h
      | some worker =>
          simp only [Interface.registers] at h
          split at h
          · obtain ⟨owner, howner, hpair⟩ := Option.map_eq_some_iff.mp h
            cases hpair
            exact ⟨lifetimes.owner _ _ _ (Option.filter_eq_some_iff.mp howner).1,
              lifetimes.registered before _ commandId after hsplit⟩
          · cases h
  | tryUse process thread => cases h
  | terminate process => cases h
  | other change => cases h

theorem Interface.Lifetimes.used_last (lifetimes : kernel.Lifetimes k (history ++ [operation]))
    (process : Process) (thread : Thread) (h : operation = .tryUse (some process) (some thread)) :
    kernel.processExists (kernel.after k history).kernel process = true ∧
      kernel.threadExists (kernel.after k history).kernel thread = true :=
  lifetimes.used history process thread [] (by rw [h])

theorem own_after (lifetimes : kernel.Lifetimes k history) : (kernel.after k history).Own := by
  induction history using List.reverseRecOn with
  | nil =>
      intro role h
      cases role <;> exact absurd rfl h
  | append_singleton history operation ih =>
      rw [after_append_singleton]
      exact own_step (ih (lifetimes.earlier (List.prefix_append _ _))) operation
        lifetimes.used_last

/-- An armed pair was alive at some time. -/
theorem alive_of_armed (lifetimes : kernel.Lifetimes k history)
    (h : ((kernel.after k history).slot role).Armed process thread) :
    ∃ early, early <+: history ∧ kernel.Alive k early process thread := by
  induction history using List.reverseRecOn with
  | nil => cases role <;> cases h.1
  | append_singleton history operation ih =>
      have hearlier := lifetimes.earlier (List.prefix_append history [operation])
      rw [after_append_singleton] at h
      rcases armed_of_step (own_after hearlier) operation lifetimes.used_last h with hnew | hold
      · exact ⟨history, List.prefix_append _ _, lifetimes.alive_of_registers rfl hnew⟩
      · obtain ⟨early, hearly, halive⟩ := ih hearlier hold
        exact ⟨early, hearly.trans (List.prefix_append _ _), halive⟩

/-- An entitled pair that is still alive has been so since it was registered. -/
theorem Interface.Entitled.alive (lifetimes : kernel.Lifetimes k history)
    (entitled : kernel.Entitled k history role process thread) :
    ∃ before registration after, history = before ++ registration :: after ∧
      kernel.registers (kernel.after k before) role registration = some (process, thread) ∧
      kernel.Alive k before process thread ∧
      (kernel.Alive k history process thread →
        ∀ middle, before <+: middle → middle <+: history →
          kernel.Alive k middle process thread) := by
  obtain ⟨before, registration, after, hsplit, hregisters, -⟩ := entitled.exists_split
  have halive := lifetimes.alive_of_registers hsplit hregisters
  exact ⟨before, registration, after, hsplit, hregisters, halive, fun hnow middle hbefore hmiddle =>
    lifetimes.between hbefore hmiddle halive hnow⟩

/-- **The slots say what the history says**, of every pair that is alive. -/
theorem entitled_iff_armed (lifetimes : kernel.Lifetimes k history)
    (halive : kernel.Alive k history process thread) :
    kernel.Entitled k history role process thread ↔
      ((kernel.after k history).slot role).Armed process thread := by
  induction history using List.reverseRecOn with
  | nil =>
      refine iff_of_false (fun h => ?_) (fun h => ?_)
      · obtain ⟨before, registration, after, hsplit, -⟩ := h.exists_split
        simp at hsplit
      · cases role <;> cases h.1
  | append_singleton history operation ih =>
      have hearlier := lifetimes.earlier (List.prefix_append history [operation])
      have hown := own_after hearlier
      rw [Interface.Entitled, Machine.since_append_singleton]
      by_cases hbefore : kernel.Alive k history process thread
      · rw [after_append_singleton,
          armed_step hown operation lifetimes.used_last hbefore.1 hbefore.2,
          ← ih hearlier hbefore]
        exact Iff.rfl
      · -- A pair that is alive now and was not before has never been registered.
        have hnever {early : List (Operation K Process Thread)} (hearly : early <+: history)
            (hlived : kernel.Alive k early process thread) : False :=
          hbefore (lifetimes.between hearly (List.prefix_append _ _) hlived halive)
        refine iff_of_false ?_ fun harmed => ?_
        · rintro (hnew | ⟨hold, -⟩)
          · exact hbefore (lifetimes.alive_of_registers rfl hnew)
          · obtain ⟨before, registration, after, rfl, -, hlived, -⟩ :=
              Interface.Entitled.alive hearlier hold
            exact hnever (List.prefix_append _ _) hlived
        · rw [after_append_singleton] at harmed
          rcases armed_of_step hown operation lifetimes.used_last harmed with hnew | hold
          · exact hbefore (lifetimes.alive_of_registers rfl hnew)
          · obtain ⟨early, hearly, hlived⟩ := alive_of_armed hearlier hold
            exact hnever hearly hlived

/-- The answer of the last operation. -/
theorem answer_last (lifetimes : kernel.Lifetimes k (history ++ [operation])) (role : Role) :
    kernel.answer k history operation = role.commandId ↔
      ∃ process thread, operation = .tryUse (some process) (some thread) ∧
        kernel.Alive k history process thread ∧
        kernel.Entitled k history role process thread ∧
        (role = .client → ¬ kernel.Entitled k history .host process thread) := by
  have hearlier := lifetimes.earlier (List.prefix_append history [operation])
  have hnone (hzero : kernel.answer k history operation = 0)
      (hother : ∀ process thread, operation ≠ .tryUse (some process) (some thread)) :
      kernel.answer k history operation = role.commandId ↔
        ∃ process thread, operation = .tryUse (some process) (some thread) ∧
          kernel.Alive k history process thread ∧
          kernel.Entitled k history role process thread ∧
          (role = .client → ¬ kernel.Entitled k history .host process thread) := by
    refine iff_of_false (fun h => role.commandId_ne_zero (h.symm.trans hzero)) ?_
    rintro ⟨process, thread, h, -⟩
    exact hother process thread h
  cases operation with
  | tryUse process thread =>
      match process, thread with
      | none, _ => exact hnone rfl (by simp)
      | some _, none => exact hnone rfl (by simp)
      | some process, some thread =>
          have halive := lifetimes.used history process thread [] rfl
          have answer := tryUse_answer (own_after hearlier) halive.1 halive.2
          refine (answer.granted role).trans ?_
          constructor
          · rintro ⟨harmed, hfirst⟩
            exact ⟨process, thread, rfl, halive, (entitled_iff_armed hearlier halive).mpr harmed,
              fun hclient => (entitled_iff_armed hearlier halive).not.mpr (hfirst hclient)⟩
          · rintro ⟨_, _, heq, -, hentitled, hfirst⟩
            cases heq
            exact ⟨(entitled_iff_armed hearlier halive).mp hentitled,
              fun hclient => (entitled_iff_armed hearlier halive).not.mp (hfirst hclient)⟩
  | register thread commandId => exact hnone rfl (by simp)
  | terminate process => exact hnone rfl (by simp)
  | other change => exact hnone rfl (by simp)

/-- After an answered use, only another registration entitles a pair again. -/
theorem registers_of_entitled {before middle : List (Operation K Process Thread)}
    (lifetimes : kernel.Lifetimes k (before ++ operation :: middle))
    (hanswer : kernel.answer k before operation = role.commandId)
    (entitled : kernel.Entitled k (before ++ operation :: middle) role process thread) :
    ∃ early registration late, middle = early ++ registration :: late ∧
      kernel.registers (kernel.after k (before ++ operation :: early)) role registration ≠
        none := by
  induction middle using List.reverseRecOn with
  | nil =>
      obtain ⟨_, _, rfl, -⟩ := (answer_last lifetimes role).mp hanswer
      rcases Machine.since_append_singleton.mp entitled with h | ⟨-, h⟩
      · cases h
      · exact absurd (.inr (.inr hanswer)) h
  | append_singleton middle last ih =>
      have hassoc : before ++ operation :: (middle ++ [last]) =
          (before ++ operation :: middle) ++ [last] := by simp
      rw [hassoc] at lifetimes entitled
      rcases Machine.since_append_singleton.mp entitled with h | ⟨h, -⟩
      · exact ⟨middle, last, [], rfl, fun hnone => by cases h.symm.trans hnone⟩
      · obtain ⟨early, registration, late, rfl, hregisters⟩ :=
          ih (lifetimes.earlier (List.prefix_append _ _)) h
        exact ⟨early, registration, late ++ [last], by simp, hregisters⟩

/-- Every answer spends a registration, and an entitled pair has one left. -/
theorem count_answered (lifetimes : kernel.Lifetimes k history) (role : Role) :
    (registrations kernel).count (kernel.answered role) { kernel := k } history ≤
        (registrations kernel).count (fun s operation => (kernel.registers s role operation).isSome)
          { kernel := k } history ∧
      ∀ process thread, kernel.Entitled k history role process thread →
        (registrations kernel).count (kernel.answered role) { kernel := k } history <
          (registrations kernel).count
            (fun s operation => (kernel.registers s role operation).isSome)
            { kernel := k } history := by
  induction history using List.reverseRecOn with
  | nil =>
      refine ⟨Nat.le_refl 0, fun process thread h => ?_⟩
      obtain ⟨before, registration, after, hsplit, -⟩ := h.exists_split
      simp at hsplit
  | append_singleton history operation ih =>
      obtain ⟨hle, hless⟩ := ih (lifetimes.earlier (List.prefix_append _ _))
      simp only [Machine.count_append, Machine.count, Nat.add_zero]
      by_cases hanswer : kernel.answer k history operation = role.commandId
      · obtain ⟨process, thread, rfl, -, hentitled, -⟩ :=
          (answer_last lifetimes role).mp hanswer
        have hspare := hless process thread hentitled
        refine ⟨?_, fun process' thread' h => ?_⟩
        · split <;> omega
        · rcases Machine.since_append_singleton.mp h with h | ⟨-, h⟩
          · cases h
          · exact absurd (.inr (.inr hanswer)) h
      · have hunanswered : kernel.answered role
            ((registrations kernel).run { kernel := k } history) operation = false :=
          decide_eq_false hanswer
        rw [hunanswered]
        refine ⟨by simp only [Bool.false_eq_true, if_false]; omega, fun process thread h => ?_⟩
        rcases Machine.since_append_singleton.mp h with h | ⟨h, -⟩
        · simp only [h, Option.isSome_some, Bool.false_eq_true, if_false, if_true]
          omega
        · have hspare := hless process thread h
          simp only [Bool.false_eq_true, if_false]
          omega

theorem count_nonzero (s : State K Process Thread)
    (history : List (Operation K Process Thread)) :
    (registrations kernel).count
        (fun s operation => ((registrations kernel).step s operation).2 ≠ 0) s history ≤
      (registrations kernel).count (kernel.answered .host) s history +
        (registrations kernel).count (kernel.answered .client) s history := by
  refine Machine.count_le_add (fun s operation hnonzero => ?_) s history
  have hvalue : ((registrations kernel).step s operation).2 = 0 ∨ _ := step_value s operation
  rcases hvalue with hzero | ⟨role, hrole⟩
  · exact absurd hzero (of_decide_eq_true hnonzero)
  · cases role with
    | host => exact .inl (decide_eq_true hrole)
    | client => exact .inr (decide_eq_true hrole)

/-! ## The result -/

/-- What the history of operations says about the answers in it. -/
structure OneShot (kernel : Interface K Process Thread Object) (k : K)
    (history : List (Operation K Process Thread)) : Prop where
  /-- An answer is zero, or the command of a role. -/
  value : ∀ before operation after, history = before ++ operation :: after →
    kernel.answer k before operation = 0 ∨
      ∃ role : Role, kernel.answer k before operation = role.commandId
  /-- It is the command of a role exactly for a living pair that is entitled under the
  role; the host's registration goes first. Neither role's registrations, uses or ends
  matter to what the other one entitles to. -/
  exact : ∀ before operation after, history = before ++ operation :: after → ∀ role : Role,
    (kernel.answer k before operation = role.commandId ↔
      ∃ process thread, operation = .tryUse (some process) (some thread) ∧
        kernel.Alive k before process thread ∧ kernel.Entitled k before role process thread ∧
        (role = .client → ¬ kernel.Entitled k before .host process thread))
  /-- The pair was alive when it was registered, and ever since: what is created later
  inherits nothing. -/
  inherited : ∀ before role process thread, before <+: history →
    kernel.Entitled k before role process thread → kernel.Alive k before process thread →
      ∃ earlier registration later, before = earlier ++ registration :: later ∧
        kernel.registers (kernel.after k earlier) role registration = some (process, thread) ∧
        ∀ middle, earlier <+: middle → middle <+: before → kernel.Alive k middle process thread
  /-- Between two answers with the same command there is a registration under it. -/
  renewed : ∀ before first middle second after (role : Role),
    history = before ++ first :: (middle ++ second :: after) →
      kernel.answer k before first = role.commandId →
      kernel.answer k (before ++ first :: middle) second = role.commandId →
      ∃ early registration late, middle = early ++ registration :: late ∧
        kernel.registers (kernel.after k (before ++ first :: early)) role registration ≠ none
  /-- There are at most as many answers as registrations, for each role. -/
  counted : ∀ role : Role,
    (registrations kernel).count (kernel.answered role) { kernel := k } history ≤
      (registrations kernel).count (fun s operation => (kernel.registers s role operation).isSome)
        { kernel := k } history
  /-- There are at most as many answers as registrations, for both roles together. -/
  total : (registrations kernel).count
      (fun s operation => ((registrations kernel).step s operation).2 ≠ 0) { kernel := k } history ≤
    (registrations kernel).count
        (fun s operation => (kernel.registers s .host operation).isSome) { kernel := k } history +
      (registrations kernel).count
        (fun s operation => (kernel.registers s .client operation).isSome) { kernel := k } history

/-- **Registrations are one-shot and exact**, in every history of the three operations and
of whatever else happens to threads and processes. -/
theorem oneShot_of_lifetimes (lifetimes : kernel.Lifetimes k history) :
    OneShot kernel k history where
  value before operation _ _ := step_value (kernel.after k before) operation
  exact before operation after hsplit role := by
    have hlast : kernel.Lifetimes k (before ++ [operation]) :=
      lifetimes.earlier ⟨after, by rw [hsplit, List.append_assoc]; rfl⟩
    exact answer_last hlast role
  inherited before role process thread hbefore entitled halive := by
    obtain ⟨earlier, registration, later, hsplit, hregisters, -, hsince⟩ :=
      Interface.Entitled.alive (lifetimes.earlier hbefore) entitled
    exact ⟨earlier, registration, later, hsplit, hregisters, hsince halive⟩
  renewed before first middle second after role hsplit hfirst hsecond := by
    have hboth : before ++ first :: middle ++ [second] <+: history :=
      ⟨after, by simp [hsplit]⟩
    have hlast := lifetimes.earlier hboth
    obtain ⟨process, thread, -, -, entitled, -⟩ := (answer_last hlast role).mp hsecond
    exact registers_of_entitled (hlast.earlier (List.prefix_append _ _)) hfirst entitled
  counted role := (count_answered lifetimes role).1
  total := by
    have hhost := (count_answered lifetimes .host).1
    have hclient := (count_answered lifetimes .client).1
    exact Nat.le_trans (count_nonzero { kernel := k } history) (Nat.add_le_add hhost hclient)

end Runs

/-! ## A worker that is registered twice -/

/-- The worker hosts and joins; its polls use the host's registration, then the
client's, and then none. -/
def registeredTwice : List (Operation OneWorker Unit Unit) :=
  [.register (some ()) 0x001D, .register (some ()) 0x001E, .tryUse (some ()) (some ()),
    .tryUse (some ()) (some ()), .tryUse (some ()) (some ())]

theorem oneShot_registeredTwice :
    (registrations oneWorker).outputs { kernel := {} } registeredTwice =
        [0, 0, 0x001D, 0x001E, 0] ∧
      OneShot oneWorker {} registeredTwice :=
  ⟨by decide, oneShot_of_lifetimes
    { process := fun _ _ _ _ _ _ _ _ _ => rfl
      thread := fun _ _ _ _ _ _ _ _ _ => rfl
      owner := fun _ _ _ _ => rfl
      registered := fun _ _ _ _ _ => rfl
      used := fun _ _ _ _ _ => ⟨rfl, rfl⟩ }⟩

end ManicRoom.Kernel
