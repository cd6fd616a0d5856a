/-
# The workaround is a conservative extension

The patched `WaitSynchronization1` is compared with the unpatched one, call by call and
over whole runs. The two kernels go through the same states, and they answer alike but
for one kind of call: a zero-timeout poll of a dead thread that its own process, one of
the listed titles, has registered and not polled since. Such a call times out, once for
every registration.
-/

import ManicRoom.Kernel.Model

namespace ManicRoom.Kernel

open ManicRoom.Foundation

universe u v w x

variable {K : Type u} {Process : Type v} {Thread : Type w} {Object : Type x}
  (kernel : Interface K Process Thread Object)

/-! ## Registrations -/

namespace YW2UDSWorkerOrderingState

/-- A registration is for one of the two commands. -/
def Valid (state : YW2UDSWorkerOrderingState Process Thread) : Prop :=
  state.process ≠ none → state.commandId = 0x001D ∨ state.commandId = 0x001E

/-- The thread is registered, and its first poll is still to come. -/
def Armed (state : YW2UDSWorkerOrderingState Process Thread) (process : Process)
    (thread : Thread) : Prop :=
  state.process = some process ∧ state.thread = some thread ∧ state.firstPollConsumed = false

instance [DecidableEq Process] [DecidableEq Thread]
    (state : YW2UDSWorkerOrderingState Process Thread) (process : Process) (thread : Thread) :
    Decidable (state.Armed process thread) := by
  unfold Armed
  infer_instance

/-- The first poll has been used. -/
def consumed (state : YW2UDSWorkerOrderingState Process Thread) :
    YW2UDSWorkerOrderingState Process Thread :=
  { state with firstPollConsumed := true }

/-- The process or the thread of a registration is gone, if there ever was one. -/
def Expired (k : K) (state : YW2UDSWorkerOrderingState Process Thread) : Prop :=
  kernel.lockProcess k state = none ∨ kernel.lockThread k state = none

/-- A registration is left alone, or discarded because it has expired. -/
def Kept (k : K) (before after : YW2UDSWorkerOrderingState Process Thread) : Prop :=
  after = before ∨ Expired kernel k before ∧ after = {}

theorem valid_empty : Valid ({} : YW2UDSWorkerOrderingState Process Thread) :=
  fun h => absurd rfl h

theorem Valid.consumed {state : YW2UDSWorkerOrderingState Process Thread} (h : state.Valid) :
    state.consumed.Valid := h

theorem Kept.valid {k : K} {before after : YW2UDSWorkerOrderingState Process Thread}
    (kept : Kept kernel k before after) (h : before.Valid) : after.Valid := by
  rcases kept with rfl | ⟨-, rfl⟩
  · exact h
  · exact valid_empty

theorem not_armed_consumed (state : YW2UDSWorkerOrderingState Process Thread)
    (process : Process) (thread : Thread) : ¬ state.consumed.Armed process thread :=
  fun h => by cases h.2.2

/-- What is discarded was not armed for anything that exists. -/
theorem Kept.armed_iff {k : K} {before after : YW2UDSWorkerOrderingState Process Thread}
    {process : Process} {thread : Thread} (kept : Kept kernel k before after)
    (hprocess : kernel.processExists k process = true)
    (hthread : kernel.threadExists k thread = true) :
    after.Armed process thread ↔ before.Armed process thread := by
  rcases kept with rfl | ⟨hexpired, rfl⟩
  · exact Iff.rfl
  · refine ⟨fun h => absurd h.1 (by simp), fun h => ?_⟩
    rcases hexpired with hnone | hnone
    · simp [Interface.lockProcess, h.1, hprocess] at hnone
    · simp [Interface.lockThread, h.2.1, hthread] at hnone

end YW2UDSWorkerOrderingState

open YW2UDSWorkerOrderingState (Expired Kept)

/-! ## Dead workers -/

/-- A title of the list is running. -/
def Interface.ListedCurrent (k : K) : Prop :=
  ∃ process, kernel.currentProcess k = some process ∧ kernel.listed k process = true

/-- The handle is that of a dead thread of the current process, which runs one of the
listed titles. -/
structure Interface.DeadWorker (k : K) (handle : Handle) (object : Object) (process : Process)
    (thread : Thread) : Prop where
  lookup : kernel.lookup k handle = .ok object
  asThread : kernel.asThread object = some thread
  current : kernel.currentProcess k = some process
  listed : kernel.listed k process = true
  owner : kernel.ownerProcess k thread = some process
  dead : kernel.dead k thread = true

section DeadWorker

variable {kernel} {s : State K Process Thread} {handle : Handle} {nanoSeconds : Int64}
  {object : Object} {process : Process} {thread : Thread}

theorem Interface.DeadWorker.unpatched (lawful : kernel.Lawful)
    (worker : kernel.DeadWorker s.kernel handle object process thread) :
    kernel.waitSynchronization1 s.kernel handle nanoSeconds = (s.kernel, .success) := by
  simp [Interface.waitSynchronization1, worker.lookup,
    lawful.shouldWait_dead _ _ _ worker.asThread worker.dead,
    lawful.acquire_dead _ _ _ worker.asThread worker.dead]

theorem Interface.DeadWorker.unique {object' : Object} {process' : Process} {thread' : Thread}
    (worker : kernel.DeadWorker s.kernel handle object process thread)
    (worker' : kernel.DeadWorker s.kernel handle object' process' thread') :
    process' = process ∧ thread' = thread := by
  cases worker.lookup.symm.trans worker'.lookup
  cases worker.asThread.symm.trans worker'.asThread
  cases worker.current.symm.trans worker'.current
  exact ⟨rfl, rfl⟩

end DeadWorker

variable [DecidableEq Process] [DecidableEq Thread]

/-! ## The use of a registration -/

/-- `try_state` uses an armed registration, and nothing else. -/
theorem tryState_cases {k : K} {process : Process} {thread : Thread}
    {state : YW2UDSWorkerOrderingState Process Thread} (valid : state.Valid)
    (hprocess : kernel.processExists k process = true)
    (hthread : kernel.threadExists k thread = true) :
    state.Armed process thread ∧ state.commandId ≠ 0 ∧
        tryState kernel k process thread state = (state.consumed, state.commandId) ∨
      ¬ state.Armed process thread ∧ (tryState kernel k process thread state).2 = 0 ∧
        Kept kernel k state (tryState kernel k process thread state).1 := by
  by_cases harmed : state.Armed process thread
  · obtain ⟨hregistered, hworker, hfresh⟩ := harmed
    have hcommand := valid (by simp [hregistered])
    refine .inl ⟨⟨hregistered, hworker, hfresh⟩, ?_, ?_⟩
    · rcases hcommand with h | h <;> simp [h]
    · have hlockProcess : kernel.lockProcess k state = some process := by
        simp [Interface.lockProcess, hregistered, hprocess]
      have hlockThread : kernel.lockThread k state = some thread := by
        simp [Interface.lockThread, hworker, hthread]
      have hrecognised : ¬ (state.commandId ≠ 0x001D ∧ state.commandId ≠ 0x001E) := by
        rcases hcommand with h | h <;> simp [h]
      simp [tryState, hlockProcess, hlockThread, hfresh, hrecognised,
        YW2UDSWorkerOrderingState.consumed]
  · refine .inr ⟨harmed, ?_⟩
    unfold tryState
    split
    · next registered worker hregistered hworker =>
      have hsome := (Option.filter_eq_some_iff.mp hregistered).1
      have hthread := (Option.filter_eq_some_iff.mp hworker).1
      split
      · exact ⟨rfl, .inl rfl⟩
      · next hothers =>
        push Not at hothers
        refine absurd ⟨hsome.trans (congrArg some hothers.2.1),
          hthread.trans (congrArg some hothers.2.2), ?_⟩ harmed
        simpa using hothers.1
    · next hlost =>
      refine ⟨rfl, .inr ⟨?_, rfl⟩⟩
      by_contra hexists
      simp only [Expired, not_or] at hexists
      obtain ⟨registered, hregistered⟩ := Option.ne_none_iff_exists'.mp hexists.1
      obtain ⟨worker, hworker⟩ := Option.ne_none_iff_exists'.mp hexists.2
      exact hlost registered worker hregistered hworker

/-- What a use of the workaround can do to the two registrations. -/
inductive Used (s : State K Process Thread) (process : Process) (thread : Thread) :
    State K Process Thread × UInt16 → Prop
  | host (armed : s.yw2HostWorkerOrdering.Armed process thread) {commandId : UInt16}
      (hcommand : commandId ≠ 0) :
      Used s process thread
        ({ s with yw2HostWorkerOrdering := s.yw2HostWorkerOrdering.consumed }, commandId)
  | client (unarmed : ¬ s.yw2HostWorkerOrdering.Armed process thread)
      (armed : s.yw2ClientWorkerOrdering.Armed process thread)
      {host : YW2UDSWorkerOrderingState Process Thread}
      (kept : Kept kernel s.kernel s.yw2HostWorkerOrdering host) {commandId : UInt16}
      (hcommand : commandId ≠ 0) :
      Used s process thread
        ({ s with
            yw2HostWorkerOrdering := host
            yw2ClientWorkerOrdering := s.yw2ClientWorkerOrdering.consumed }, commandId)
  | none (unarmed : ¬ s.yw2HostWorkerOrdering.Armed process thread ∧
        ¬ s.yw2ClientWorkerOrdering.Armed process thread)
      {host client : YW2UDSWorkerOrderingState Process Thread}
      (keptHost : Kept kernel s.kernel s.yw2HostWorkerOrdering host)
      (keptClient : Kept kernel s.kernel s.yw2ClientWorkerOrdering client) :
      Used s process thread
        ({ s with yw2HostWorkerOrdering := host, yw2ClientWorkerOrdering := client }, 0)

/-- Both registrations are for one of the two commands. -/
def State.Valid (s : State K Process Thread) : Prop :=
  s.yw2HostWorkerOrdering.Valid ∧ s.yw2ClientWorkerOrdering.Valid

theorem tryUse_used {s : State K Process Thread} {process : Process} {thread : Thread}
    (valid : s.Valid) (hprocess : kernel.processExists s.kernel process = true)
    (hthread : kernel.threadExists s.kernel thread = true) :
    Used kernel s process thread
      (tryUseYW2UDSWorkerOrderingWorkaround kernel s process thread) := by
  simp only [tryUseYW2UDSWorkerOrderingWorkaround]
  rcases tryState_cases kernel valid.1 hprocess hthread with
    ⟨harmed, hcommand, hhost⟩ | ⟨hunarmed, hzero, hkept⟩
  · rw [hhost, if_pos hcommand]
    exact .host harmed hcommand
  · rw [if_neg (by simp [hzero])]
    rcases tryState_cases kernel valid.2 hprocess hthread with
      ⟨harmed, hcommand, hclient⟩ | ⟨hunarmed', hzero', hkept'⟩
    · rw [hclient]
      exact .client hunarmed harmed hkept hcommand
    · rw [hzero']
      exact .none ⟨hunarmed, hunarmed'⟩ hkept hkept'

/-! ## One call -/

/-- The calls on which the two kernels answer differently. -/
structure Hides (s : State K Process Thread) (handle : Handle) (nanoSeconds : Int64)
    (object : Object) (process : Process) (thread : Thread) : Prop where
  poll : nanoSeconds = 0
  worker : kernel.DeadWorker s.kernel handle object process thread
  armed : s.yw2HostWorkerOrdering.Armed process thread ∨
    s.yw2ClientWorkerOrdering.Armed process thread

/-- One armed registration is consumed; the other is left alone or has expired. -/
inductive Consumes (process : Process) (thread : Thread) (s t : State K Process Thread) : Prop
  | host (armed : s.yw2HostWorkerOrdering.Armed process thread)
      (host : t.yw2HostWorkerOrdering = s.yw2HostWorkerOrdering.consumed)
      (client : Kept kernel s.kernel s.yw2ClientWorkerOrdering t.yw2ClientWorkerOrdering)
  | client (armed : s.yw2ClientWorkerOrdering.Armed process thread)
      (client : t.yw2ClientWorkerOrdering = s.yw2ClientWorkerOrdering.consumed)
      (host : Kept kernel s.kernel s.yw2HostWorkerOrdering t.yw2HostWorkerOrdering)

/-- What a patched call does, next to the unpatched one. -/
inductive Outcome (s : State K Process Thread) (handle : Handle) (nanoSeconds : Int64) :
    State K Process Thread × Result → Prop
  /-- The same, but for registrations that have expired. -/
  | same (visible : ∀ object process thread,
        ¬ Hides kernel s handle nanoSeconds object process thread)
      {host client : YW2UDSWorkerOrderingState Process Thread}
      (keptHost : Kept kernel s.kernel s.yw2HostWorkerOrdering host)
      (keptClient : Kept kernel s.kernel s.yw2ClientWorkerOrdering client)
      (unlisted : ¬ kernel.ListedCurrent s.kernel →
        host = s.yw2HostWorkerOrdering ∧ client = s.yw2ClientWorkerOrdering) :
      Outcome s handle nanoSeconds
        (⟨(kernel.waitSynchronization1 s.kernel handle nanoSeconds).1, host, client⟩,
          (kernel.waitSynchronization1 s.kernel handle nanoSeconds).2)
  /-- A timeout that uses a registration. -/
  | hidden {object : Object} {process : Process} {thread : Thread}
      (hides : Hides kernel s handle nanoSeconds object process thread)
      (unpatched : kernel.waitSynchronization1 s.kernel handle nanoSeconds = (s.kernel, .success))
      {t : State K Process Thread} (consumes : Consumes kernel process thread s t)
      (hkernel : t.kernel = s.kernel) :
      Outcome s handle nanoSeconds (t, .timeout)

section Calls

variable {kernel} {s : State K Process Thread} {handle : Handle} {nanoSeconds : Int64}
  {object : Object} {process : Process} {thread : Thread}

/-- A poll of a dead worker asks the workaround. -/
theorem Interface.DeadWorker.applyWorkaround (lawful : kernel.Lawful)
    (worker : kernel.DeadWorker s.kernel handle object process thread) :
    applyWorkaround kernel s object 0 =
      ((tryUseYW2UDSWorkerOrderingWorkaround kernel s process thread).1,
        decide ((tryUseYW2UDSWorkerOrderingWorkaround kernel s process thread).2 ≠ 0)) := by
  simp [Kernel.applyWorkaround, lawful.shouldWait_dead _ _ _ worker.asThread worker.dead,
    worker.asThread, worker.current, worker.listed, worker.owner, worker.dead]

/-- No other call does. -/
theorem applyWorkaround_of_not_deadWorker (hlookup : kernel.lookup s.kernel handle = .ok object)
    (h : ∀ process thread, nanoSeconds = 0 →
      ¬ kernel.DeadWorker s.kernel handle object process thread) :
    applyWorkaround kernel s object nanoSeconds = (s, false) := by
  unfold applyWorkaround
  split
  · next hpoll =>
    split
    · next worker current hthread hcurrent =>
      rw [if_neg]
      rintro ⟨hlisted, howner, hdead⟩
      exact h current worker hpoll.2 ⟨hlookup, hthread, hcurrent, hlisted, howner, hdead⟩
    · rfl
  · rfl

/-- A call that leaves the registrations alone and does what the unpatched one does. -/
theorem Outcome.untouched
    (visible : ∀ object process thread, ¬ Hides kernel s handle nanoSeconds object process thread)
    (hpatched : waitSynchronization1 kernel s handle nanoSeconds =
      ({ s with kernel := (kernel.waitSynchronization1 s.kernel handle nanoSeconds).1 },
        (kernel.waitSynchronization1 s.kernel handle nanoSeconds).2)) :
    Outcome kernel s handle nanoSeconds (waitSynchronization1 kernel s handle nanoSeconds) := by
  rw [hpatched]
  exact .same visible (.inl rfl) (.inl rfl) fun _ => ⟨rfl, rfl⟩

/-- A poll of a dead worker depends on whether a registration is armed. -/
theorem outcome_of_deadWorker (lawful : kernel.Lawful) (valid : s.Valid)
    (worker : kernel.DeadWorker s.kernel handle object process thread) :
    Outcome kernel s handle 0 (waitSynchronization1 kernel s handle 0) := by
  have hawake := lawful.shouldWait_dead _ _ _ worker.asThread worker.dead
  have hacquire := lawful.acquire_dead _ _ _ worker.asThread worker.dead
  have hunpatched : kernel.waitSynchronization1 s.kernel handle 0 = (s.kernel, .success) :=
    worker.unpatched lawful
  have hused := tryUse_used kernel valid
    (lawful.current_exists _ _ worker.current)
    (lawful.lookup_exists _ _ _ _ worker.lookup worker.asThread)
  simp only [waitSynchronization1, worker.lookup, hawake, worker.applyWorkaround lawful]
  generalize tryUseYW2UDSWorkerOrderingWorkaround kernel s process thread = used at hused ⊢
  cases hused with
  | host armed hcommand =>
      have hconsumes : Consumes kernel process thread s
          { s with yw2HostWorkerOrdering := s.yw2HostWorkerOrdering.consumed } :=
        .host armed rfl (.inl rfl)
      simpa [hcommand] using Outcome.hidden ⟨rfl, worker, .inl armed⟩ hunpatched hconsumes rfl
  | @client unarmed armed host kept commandId hcommand =>
      have hconsumes : Consumes kernel process thread s
          { s with
            yw2HostWorkerOrdering := host
            yw2ClientWorkerOrdering := s.yw2ClientWorkerOrdering.consumed } :=
        .client armed rfl kept
      simpa [hcommand] using Outcome.hidden ⟨rfl, worker, .inr armed⟩ hunpatched hconsumes rfl
  | none unarmed keptHost keptClient =>
      have hvisible (object' : Object) (process' : Process) (thread' : Thread) :
          ¬ Hides kernel s handle 0 object' process' thread' := by
        intro hides
        obtain ⟨rfl, rfl⟩ := worker.unique hides.worker
        exact hides.armed.elim unarmed.1 unarmed.2
      have hsame := Outcome.same hvisible keptHost keptClient
        fun hunlisted => absurd ⟨process, worker.current, worker.listed⟩ hunlisted
      simpa [hacquire, hunpatched] using hsame

/-- **Inversion for the patched call.** -/
theorem waitSynchronization1_outcome (lawful : kernel.Lawful) (valid : s.Valid) :
    Outcome kernel s handle nanoSeconds
      (waitSynchronization1 kernel s handle nanoSeconds) := by
  cases hlookup : kernel.lookup s.kernel handle with
  | error result =>
      refine .untouched (fun _ _ _ hides => ?_) ?_
      · cases hlookup.symm.trans hides.worker.lookup
      · simp [waitSynchronization1, Interface.waitSynchronization1, hlookup]
  | ok object =>
      by_cases hworker : ∃ process thread, nanoSeconds = 0 ∧
          kernel.DeadWorker s.kernel handle object process thread
      · obtain ⟨process, thread, rfl, worker⟩ := hworker
        exact outcome_of_deadWorker lawful valid worker
      · have hnone : applyWorkaround kernel s object nanoSeconds = (s, false) :=
          applyWorkaround_of_not_deadWorker hlookup fun process thread hzero worker =>
            hworker ⟨process, thread, hzero, worker⟩
        refine .untouched (fun _ _ _ hides => ?_) ?_
        · cases hlookup.symm.trans hides.worker.lookup
          exact hworker ⟨_, _, hides.poll, hides.worker⟩
        · simp only [waitSynchronization1, Interface.waitSynchronization1, hlookup, hnone,
            Bool.or_false]
          split
          · split <;> rfl
          · rfl

end Calls

/-! ## Runs -/

section Runs

variable {kernel} {s t : State K Process Thread} {process : Process} {thread : Thread}

omit [DecidableEq Process] [DecidableEq Thread] in
theorem State.Valid.consumes (valid : s.Valid) (consumes : Consumes kernel process thread s t) :
    t.Valid := by
  cases consumes with
  | host armed hhost kept => exact ⟨hhost ▸ valid.1.consumed, kept.valid kernel valid.2⟩
  | client armed hclient kept => exact ⟨kept.valid kernel valid.1, hclient ▸ valid.2.consumed⟩

omit [DecidableEq Process] [DecidableEq Thread] in
theorem valid_register (valid : s.Valid) (thread : Option Thread) (commandId : UInt16) :
    (registerYW2UDSWorkerOrderingWorkaround kernel s thread commandId).Valid := by
  unfold registerYW2UDSWorkerOrderingWorkaround
  repeat' split
  all_goals first | exact valid | skip
  · next hhost => exact ⟨fun _ => .inl hhost, valid.2⟩
  · next hcommand _ _ _ _ hhost =>
    have hclient : commandId = 0x001E := by
      by_contra hother
      exact hcommand ⟨hhost, hother⟩
    exact ⟨valid.1, fun _ => .inr hclient⟩

omit [DecidableEq Thread] in
theorem valid_terminate (valid : s.Valid) (process : Process) :
    (terminateProcess kernel s process).Valid := by
  constructor <;> simp only [terminateProcess, clearYW2UDSWorkerOrderingWorkaround] <;> split
  · exact YW2UDSWorkerOrderingState.valid_empty
  · exact valid.1
  · exact YW2UDSWorkerOrderingState.valid_empty
  · exact valid.2

/-- Registrations stay valid. -/
theorem valid_step (lawful : kernel.Lawful) (s : State K Process Thread)
    (call : Call K Process Thread) (valid : s.Valid) : ((patched kernel).step s call).1.Valid := by
  cases call with
  | register thread commandId => exact valid_register valid thread commandId
  | wait handle nanoSeconds =>
      have houtcome : Outcome kernel s handle nanoSeconds
          (waitSynchronization1 kernel s handle nanoSeconds) :=
        waitSynchronization1_outcome lawful valid
      simp only [patched]
      generalize waitSynchronization1 kernel s handle nanoSeconds = waited at houtcome
      cases houtcome with
      | same _ keptHost keptClient =>
          exact ⟨keptHost.valid kernel valid.1, keptClient.valid kernel valid.2⟩
      | hidden _ _ consumes => exact valid.consumes consumes
  | terminate process => exact valid_terminate valid process
  | other change => exact valid

/-- The two kernels take the same step. -/
theorem step_lockstep (lawful : kernel.Lawful) (s : State K Process Thread)
    (call : Call K Process Thread) (valid : s.Valid) :
    ((unpatched kernel).step s.kernel call).1 = ((patched kernel).step s call).1.kernel := by
  cases call with
  | register thread commandId =>
      simp only [unpatched, patched, registerYW2UDSWorkerOrderingWorkaround]
      repeat' split
      all_goals rfl
  | wait handle nanoSeconds =>
      have houtcome : Outcome kernel s handle nanoSeconds
          (waitSynchronization1 kernel s handle nanoSeconds) :=
        waitSynchronization1_outcome lawful valid
      simp only [unpatched, patched]
      generalize waitSynchronization1 kernel s handle nanoSeconds = waited at houtcome
      cases houtcome with
      | same => rfl
      | hidden _ hunpatched _ hkernel => rw [hunpatched, hkernel]
  | terminate process => rfl
  | other change => rfl

/-! ## Polls -/

/-- How many registrations of the thread are armed. -/
def State.armed (s : State K Process Thread) (process : Process) (thread : Thread) : ℕ :=
  (if s.yw2HostWorkerOrdering.Armed process thread then 1 else 0) +
    if s.yw2ClientWorkerOrdering.Armed process thread then 1 else 0

theorem State.armed_le (s : State K Process Thread) (process : Process) (thread : Thread) :
    s.armed process thread ≤ 2 := by
  unfold State.armed
  split <;> split <;> omega

/-- A poll of a dead worker uses one armed registration, if there is one. -/
theorem poll_step {handle : Handle} {object : Object} (lawful : kernel.Lawful) (valid : s.Valid)
    (worker : kernel.DeadWorker s.kernel handle object process thread) :
    (waitSynchronization1 kernel s handle 0).1.kernel = s.kernel ∧
      (waitSynchronization1 kernel s handle 0).1.armed process thread =
        s.armed process thread - 1 ∧
      (waitSynchronization1 kernel s handle 0).2 =
        if s.armed process thread = 0 then .success else .timeout := by
  have hprocess := lawful.current_exists _ _ worker.current
  have hthread := lawful.lookup_exists _ _ _ _ worker.lookup worker.asThread
  have hunpatched : kernel.waitSynchronization1 s.kernel handle 0 = (s.kernel, .success) :=
    worker.unpatched lawful
  have houtcome : Outcome kernel s handle 0 (waitSynchronization1 kernel s handle 0) :=
    waitSynchronization1_outcome lawful valid
  generalize waitSynchronization1 kernel s handle 0 = waited at houtcome
  cases houtcome with
  | same visible keptHost keptClient =>
      have hhost : ¬ s.yw2HostWorkerOrdering.Armed process thread := fun harmed =>
        visible _ _ _ ⟨rfl, worker, .inl harmed⟩
      have hclient : ¬ s.yw2ClientWorkerOrdering.Armed process thread := fun harmed =>
        visible _ _ _ ⟨rfl, worker, .inr harmed⟩
      simp [hunpatched, State.armed, hhost, hclient, keptHost.armed_iff kernel hprocess hthread,
        keptClient.armed_iff kernel hprocess hthread]
  | @hidden object' process' thread' hides hunpatched' t consumes hkernel =>
      obtain ⟨rfl, rfl⟩ := worker.unique hides.worker
      refine ⟨hkernel, ?_⟩
      cases consumes with
      | host armed hhost kept =>
          have hspent := s.yw2HostWorkerOrdering.not_armed_consumed process' thread'
          simp [State.armed, hhost, hspent, armed, kept.armed_iff kernel hprocess hthread]
      | client armed hclient kept =>
          have hspent := s.yw2ClientWorkerOrdering.not_armed_consumed process' thread'
          simp [State.armed, hclient, hspent, armed, kept.armed_iff kernel hprocess hthread]

/-- **Polls of a dead worker.** As many of them time out as registrations are armed;
the others succeed. -/
theorem outputs_polls {handle : Handle} {object : Object} (lawful : kernel.Lawful)
    (valid : s.Valid) (worker : kernel.DeadWorker s.kernel handle object process thread)
    (polls : ℕ) :
    (patched kernel).outputs s (List.replicate polls (.wait handle 0)) =
      List.replicate (min polls (s.armed process thread)) (some .timeout) ++
        List.replicate (polls - s.armed process thread) (some .success) := by
  induction polls generalizing s with
  | zero => simp [Machine.outputs]
  | succ polls ih =>
      obtain ⟨hkernel, harmed, hresult⟩ := poll_step lawful valid worker
      have hvalid := valid_step lawful s (.wait handle 0) valid
      have hrest := ih hvalid (by simpa only [patched, hkernel] using worker)
      simp only [List.replicate_succ, Machine.outputs]
      rw [hrest]
      simp only [patched, harmed, hresult]
      cases hcount : s.armed process thread with
      | zero => simp [List.replicate_succ]
      | succ count =>
          rw [show min (polls + 1) (count + 1) = min polls count + 1 by omega]
          simp [List.replicate_succ]

end Runs

/-! ## The result -/

/-- What the patched call does in one state, next to the unpatched one. -/
structure Conservative (s : State K Process Thread) : Prop where
  /-- While no title of the list is running, the calls are the same. -/
  unlisted : ¬ kernel.ListedCurrent s.kernel → ∀ handle nanoSeconds,
    waitSynchronization1 kernel s handle nanoSeconds =
      ({ s with kernel := (kernel.waitSynchronization1 s.kernel handle nanoSeconds).1 },
        (kernel.waitSynchronization1 s.kernel handle nanoSeconds).2)
  /-- They differ only on the polls that the workaround is about. -/
  visible : ∀ handle nanoSeconds,
    (∀ object process thread, ¬ Hides kernel s handle nanoSeconds object process thread) →
      (waitSynchronization1 kernel s handle nanoSeconds).1.kernel =
          (kernel.waitSynchronization1 s.kernel handle nanoSeconds).1 ∧
        (waitSynchronization1 kernel s handle nanoSeconds).2 =
          (kernel.waitSynchronization1 s.kernel handle nanoSeconds).2 ∧
        Kept kernel s.kernel s.yw2HostWorkerOrdering
          (waitSynchronization1 kernel s handle nanoSeconds).1.yw2HostWorkerOrdering ∧
        Kept kernel s.kernel s.yw2ClientWorkerOrdering
          (waitSynchronization1 kernel s handle nanoSeconds).1.yw2ClientWorkerOrdering
  /-- Those would succeed, and time out; all they change is a registration. -/
  hidden : ∀ handle nanoSeconds object process thread,
    Hides kernel s handle nanoSeconds object process thread →
      kernel.waitSynchronization1 s.kernel handle nanoSeconds = (s.kernel, .success) ∧
        (waitSynchronization1 kernel s handle nanoSeconds).2 = .timeout ∧
        (waitSynchronization1 kernel s handle nanoSeconds).1.kernel = s.kernel ∧
        Consumes kernel process thread s (waitSynchronization1 kernel s handle nanoSeconds).1
  /-- Whatever a call makes true of the kernel, such as that a thread sleeps, the
  unpatched call makes true of it, or it was true before. -/
  sleeps : ∀ (Asleep : K → Prop) handle nanoSeconds,
    Asleep (waitSynchronization1 kernel s handle nanoSeconds).1.kernel →
      Asleep (kernel.waitSynchronization1 s.kernel handle nanoSeconds).1 ∨ Asleep s.kernel
  /-- Polls of a dead worker time out once for every armed registration, of which there
  are two at most, and succeed from then on. -/
  polls : ∀ handle object process thread,
    kernel.DeadWorker s.kernel handle object process thread → s.armed process thread ≤ 2 ∧
      ∀ polls, (patched kernel).outputs s (List.replicate polls (.wait handle 0)) =
        List.replicate (min polls (s.armed process thread)) (some .timeout) ++
          List.replicate (polls - s.armed process thread) (some .success)

theorem conservative_of_valid {kernel} (lawful : kernel.Lawful) {s : State K Process Thread}
    (valid : s.Valid) : Conservative (kernel : Interface K Process Thread Object) s where
  unlisted hunlisted handle nanoSeconds := by
    have houtcome : Outcome kernel s handle nanoSeconds
        (waitSynchronization1 kernel s handle nanoSeconds) :=
      waitSynchronization1_outcome lawful valid
    generalize waitSynchronization1 kernel s handle nanoSeconds = waited at houtcome
    cases houtcome with
    | same _ _ _ unlisted =>
        obtain ⟨rfl, rfl⟩ := unlisted hunlisted
        rfl
    | hidden hides => exact absurd ⟨_, hides.worker.current, hides.worker.listed⟩ hunlisted
  visible handle nanoSeconds hvisible := by
    have houtcome : Outcome kernel s handle nanoSeconds
        (waitSynchronization1 kernel s handle nanoSeconds) :=
      waitSynchronization1_outcome lawful valid
    generalize waitSynchronization1 kernel s handle nanoSeconds = waited at houtcome
    cases houtcome with
    | same _ keptHost keptClient => exact ⟨rfl, rfl, keptHost, keptClient⟩
    | hidden hides => exact absurd hides (hvisible _ _ _)
  hidden handle nanoSeconds object process thread hides := by
    have houtcome : Outcome kernel s handle nanoSeconds
        (waitSynchronization1 kernel s handle nanoSeconds) :=
      waitSynchronization1_outcome lawful valid
    generalize waitSynchronization1 kernel s handle nanoSeconds = waited at houtcome
    cases houtcome with
    | same visible => exact absurd hides (visible _ _ _)
    | hidden hides' hunpatched consumes hkernel =>
        obtain ⟨rfl, rfl⟩ := hides.worker.unique hides'.worker
        exact ⟨hunpatched, rfl, hkernel, consumes⟩
  sleeps Asleep handle nanoSeconds hasleep := by
    have houtcome : Outcome kernel s handle nanoSeconds
        (waitSynchronization1 kernel s handle nanoSeconds) :=
      waitSynchronization1_outcome lawful valid
    generalize waitSynchronization1 kernel s handle nanoSeconds = waited at houtcome hasleep
    cases houtcome with
    | same => exact .inl hasleep
    | hidden _ _ _ hkernel => exact .inr (hkernel ▸ hasleep)
  polls handle object process thread worker :=
    ⟨s.armed_le process thread, outputs_polls lawful valid worker⟩

/-- **The workaround is a conservative extension** of any kernel that it can rely on:
in every run the two kernels go through the same states, they answer alike while no
title of the list is running, and in every state their calls differ as described. -/
theorem conservative_of_run {kernel : Interface K Process Thread Object}
    (lawful : kernel.Lawful) (k : K) (calls : List (Call K Process Thread)) :
    (unpatched kernel).run k calls = ((patched kernel).run { kernel := k } calls).kernel ∧
      Conservative kernel ((patched kernel).run { kernel := k } calls) ∧
      ((∀ before handle nanoSeconds after, calls = before ++ .wait handle nanoSeconds :: after →
          ¬ kernel.ListedCurrent ((unpatched kernel).run k before)) →
        (unpatched kernel).outputs k calls = (patched kernel).outputs { kernel := k } calls) := by
  have hstart : State.Valid ({ kernel := k } : State K Process Thread) :=
    ⟨YW2UDSWorkerOrderingState.valid_empty, YW2UDSWorkerOrderingState.valid_empty⟩
  have hrun (before : List (Call K Process Thread)) :
      (unpatched kernel).run k before = ((patched kernel).run { kernel := k } before).kernel :=
    Machine.run_lockstep State.kernel State.Valid (valid_step lawful) (step_lockstep lawful)
      hstart before
  have hvalid (before : List (Call K Process Thread)) :
      ((patched kernel).run { kernel := k } before).Valid :=
    Machine.run_invariant State.Valid (valid_step lawful) hstart before
  refine ⟨hrun calls, conservative_of_valid lawful (hvalid calls), fun hunlisted => ?_⟩
  refine Machine.outputs_lockstep State.kernel State.Valid (valid_step lawful)
    (step_lockstep lawful) hstart calls fun before call after hsplit => ?_
  cases call with
  | wait handle nanoSeconds =>
      have hcurrent := hunlisted before handle nanoSeconds after hsplit
      rw [hrun before] at hcurrent
      have hsame :=
        (conservative_of_valid lawful (hvalid before)).unlisted hcurrent handle nanoSeconds
      exact congrArg some (congrArg Prod.snd hsame).symm
  | register thread commandId => rfl
  | terminate process => rfl
  | other change => rfl

/-! ## A worker that is polled -/

/-- A kernel with one process, its worker and its current thread. -/
structure OneWorker where
  dead : Bool := false
  asleep : Bool := false
  deriving DecidableEq, Repr

/-- The worker has the handle 1, and its process runs one of the listed titles. -/
def oneWorker : Interface OneWorker Unit Unit Unit where
  lookup _ handle := if handle = 1 then .ok () else .error (.other 0xD8E007F7)
  currentProcess _ := some ()
  programId _ _ := some 0x0004000000155100
  asThread _ := some ()
  ownerProcess _ _ := some ()
  dead k _ := k.dead
  processExists _ _ := true
  threadExists _ _ := true
  shouldWait k _ := !k.dead
  block k _ _ := ({ k with asleep := true }, .success)
  acquire k _ := (k, .success)
  terminate k _ := { k with dead := true }

theorem oneWorker_lawful : oneWorker.Lawful where
  shouldWait_dead _ _ _ _ hdead := by simpa [oneWorker] using hdead
  acquire_dead _ _ _ _ _ := rfl
  lookup_exists _ _ _ _ _ _ := rfl
  current_exists _ _ _ := rfl

/-- The worker registers as a host, is polled, ends, and is polled twice more. -/
def pollsWorker : List (Call OneWorker Unit Unit) :=
  [.register (some ()) 0x001D, .wait 1 0, .other fun k => { k with dead := true }, .wait 1 0,
    .wait 1 0]

/-- The first poll after its end times out, the next one succeeds. -/
theorem conservative_pollsWorker :
    (patched oneWorker).outputs { kernel := {} } pollsWorker =
        [none, some .timeout, none, some .timeout, some .success] ∧
      Conservative oneWorker ((patched oneWorker).run { kernel := {} } pollsWorker) :=
  ⟨by decide +kernel, (conservative_of_run oneWorker_lawful {} pollsWorker).2.1⟩

end ManicRoom.Kernel
