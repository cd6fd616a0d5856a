/-
# Cancellation

The cancel callback is asked before every block of data and at three further points, the last
of them before the commit. Whatever it answers, the history of a run looks alike: polls that
were answered with no, each followed by at most one block, until a poll is answered with yes
or the commit is reached. A poll that is answered with yes ends the run as cancelled.
-/

import ManicRoom.Cia.Reading

namespace ManicRoom.Cia

open ManicRoom.Foundation ManicRoom.Storage

/-- The history of an import that goes on: no poll was answered with yes, nothing was
committed, and every block came right after a poll of its own. -/
inductive Going : List Event → Prop
  | start : Going []
  | poll {events : List Event} (h : Going events) : Going (.poll false :: events)
  | block {use : BlockUse} {offset : ℕ} {bytes : Bytes} {events : List Event}
      (hsize : bytes.length ≤ 2 ^ 16) (h : Going events) :
      Going (.block use offset bytes :: .poll false :: events)

/-- The history when an import stops. -/
inductive Halted : Stop → List Event → Prop
  | cancelled {events : List Event} (h : Going events) :
      Halted (.failure .cancelled) (.poll true :: events)
  | ordinary {stop : Stop} {events : List Event} (hstop : stop.Ordinary) (h : Going events) :
      Halted stop events
  /-- The rename has failed. -/
  | afterCommit {stop : Stop} {events : List Event} (hstop : stop.Ordinary) (h : Going events) :
      Halted stop (.commit :: events)

theorem Going.of_cons {event : Event} {events : List Event} (h : Going (event :: events)) :
    Going events := by
  cases h with
  | poll h => exact h
  | block _ h => exact .poll h

/-- A block in the history has its own poll before it. -/
theorem Going.poll_before {after before : List Event} {use : BlockUse} {offset : ℕ}
    {bytes : Bytes} (h : Going (after ++ .block use offset bytes :: before)) :
    bytes.length ≤ 2 ^ 16 ∧ before.head? = some (.poll false) := by
  induction after with
  | nil =>
      cases h with
      | block hsize _ => exact ⟨hsize, rfl⟩
  | cons event after ih => exact ih h.of_cons

theorem Going.notMem {events : List Event} (h : Going events) :
    .poll true ∉ events ∧ .commit ∉ events := by
  induction h with
  | start => simp
  | poll _ ih => simpa using ih
  | block _ _ ih => simpa using ih

section Run

variable {host : Host} {answers : ℕ → Bool}

theorem going_steady :
    Steady host (fun w => Going w.events) fun stop w => Halted stop w.events where
  pass _ hw := by rwa [pass_events]
  touch _ _ hw := hw
  halt _ _ hstop hw := .ordinary hstop hw

/-- A poll may cancel the import. -/
theorem going_check (hcancel : host.cancel = some answers) :
    (check host).Maintains (fun w => Going w.events) fun stop w => Halted stop w.events where
  run _ hw := wp_check (fun hnone => absurd (hcancel.symm.trans hnone) (by simp))
    (fun _ _ => hw.poll) fun _ _ _ => .cancelled hw

theorem length_slice_le (data : Bytes) (p n : ℕ) : (slice data p n).length ≤ n :=
  List.length_take_le n _

/-- The invariant of the runs and what is left of it when they stop. -/
abbrev Obeys {α : Type} (p : Import α) : Prop :=
  p.Maintains (fun w => Going w.events) fun stop w => Halted stop w.events

/-- A block that is read after a poll. -/
theorem going_block {α : Type} {stream : Stream} {use : BlockUse} {offset size limit : UInt64}
    {rest : Bytes → Import α} (hsize : size.toNat ≤ 2 ^ 16) (hrest : ∀ b, Obeys (rest b))
    {w : World} {events : List Event} (hevents : w.events = .poll false :: events)
    (h : Going events) :
    (do
      let b ← read host stream offset size limit
      record (.block use offset.toNat b)
      rest b : Import α).wp (fun _ w => Going w.events) (fun stop w => Halted stop w.events) w := by
  have hread : (afterRead host offset size limit w).events = .poll false :: events := by
    rw [afterRead, pass_events, hevents]
  rw [Program.wp_bind]
  apply wp_read
  · intro data _
    simp only [record, Program.wp_bind, Program.wp_modify]
    apply (hrest _).run
    rw [hread]
    exact .block ((length_slice_le ..).trans hsize) h
  · intro stop hstop _
    rw [hread]
    exact .ordinary hstop h.poll

theorem going_policy {α : Type} (host : Host) {p : Program Stop Memory α} (calm : Calm p) :
    Obeys (policy p) :=
  maintains_policy (@going_steady host) (fun _ _ hw => hw) calm

/-- Every block that is hashed comes after its own poll. -/
theorem going_hash (hcancel : host.cancel = some answers) (stream : Stream) (use : BlockUse)
    (limit offset size : UInt64) : Obeys (hash host stream use limit offset size) := by
  apply Program.Maintains.map
  generalize host.hash.initial = state
  induction offset, size, state using hashBlocks.induct host with
  | case1 offset size state hsize ih =>
      rw [hashBlocks, if_pos hsize]
      refine ⟨fun w hw => ?_⟩
      rw [Program.wp_bind]
      apply wp_check (fun hnone => absurd (hcancel.symm.trans hnone) (by simp)) _
        fun _ _ _ => .cancelled hw
      intro _ _
      apply going_block (blockSize_le_64KiB size) _ rfl hw
      intro b
      apply Program.Maintains.bind (going_policy host calm_note)
      intro _
      exact .bind (going_policy host calm_note) fun _ => ih b
  | case2 offset size state hsize =>
      rw [hashBlocks, if_neg hsize]
      exact .pure state

/-- Every block that is copied or handed to the installer comes after its own poll. -/
theorem going_forBlocks (hcancel : host.cancel = some answers) (stream : Stream) (use : BlockUse)
    (size : UInt64) (body : UInt64 → Bytes → Import Unit) (offset : UInt64)
    (hbody : ∀ off b, Obeys (body off b)) : Obeys (forBlocks host stream use size body offset) := by
  induction offset using forBlocks.induct size with
  | case1 offset hlt ih =>
      rw [forBlocks, if_pos hlt]
      refine ⟨fun w hw => ?_⟩
      rw [Program.wp_bind]
      apply wp_check (fun hnone => absurd (hcancel.symm.trans hnone) (by simp)) _
        fun _ _ _ => .cancelled hw
      intro _ _
      rw [Program.wp_bind, wp_policy, note, Program.wp_modify]
      apply going_block (blockSize_le_64KiB _) _ rfl hw
      intro b
      apply Program.Maintains.bind (hbody offset b)
      intro _
      exact .bind (going_policy host calm_note) fun _ => ih
  | case2 offset hlt =>
      rw [forBlocks, if_neg hlt]
      exact .pure ()

theorem going_usual (hcancel : host.cancel = some answers) :
    Usual host (fun w => Going w.events) fun stop w => Halted stop w.events where
  toSteady := going_steady
  check := going_check hcancel
  rehash stream size := going_hash hcancel stream .rehash size 0 size
  forBlocks stream use size body := going_forBlocks hcancel stream use size body 0
  memory _ _ hw := hw
  hash := going_hash hcancel

theorem events_switchUserPath (text : Text) (w : World) :
    (switchUserPath host text w).events = w.events := pass_events host w

theorem events_callInstaller (call : InstallerCall) (w : World) :
    (callInstaller host call w).1.events = w.events := pass_events host w

theorem events_removeTemporary (path : Path Filename) (w : World) :
    (removeTemporary host path w).events = w.events := by
  unfold removeTemporary
  dsimp only
  split <;> exact pass_events host w

theorem going_requireUserPath (text : Text) : Obeys (requireUserPath host text) :=
  maintains_requireUserPath going_steady text fun w hw => by
    rwa [events_switchUserPath]

theorem going_installStaged (hcancel : host.cancel = some answers) (root staging : Path Filename)
    (stream : Stream) (size : UInt64) (valid : Validated) (tmd : TitleMetadata) :
    Obeys (installStaged host root staging stream size valid tmd) := by
  apply maintains_installStaged (going_usual hcancel).toPaced
  · intro w text hw
    rwa [events_switchUserPath]
  · exact fun _ _ hw => hw
  · exact fun _ _ hw _ => hw
  · exact fun _ hw => hw
  · intro call w hw
    rwa [events_callInstaller]
  · intro stop w hw
    rwa [events_callInstaller]

/-- The history of an import that has committed. -/
def Committed (events : List Event) : Prop := ∃ before, events = .commit :: before ∧ Going before

/-- From the last poll on the callback is not asked again, and the commit comes last. -/
theorem going_commit (root stagedTitle destination : Path Filename) {w : World}
    (hw : Going w.events) :
    (commit host root stagedTitle destination).wp (fun _ w => Committed w.events)
      (fun stop w => Halted stop w.events) w := by
  have steady := @going_steady host
  apply Program.Maintains.andThen (maintains_noLinks steady _ _) hw
  intro _ w hw
  apply Program.Maintains.andThen (maintains_pathExists steady _) hw
  intro there w hw
  apply Program.Maintains.andThen (maintains_require steady (by decide)) hw
  intro _ w hw
  apply Program.Maintains.andThen (maintains_createDirectories steady _ fun _ _ hw => hw) hw
  intro _ w hw
  apply Program.Maintains.andThen (going_requireUserPath _) hw
  intro _ w hw
  simp only [renameExclusive, record, Program.wp_bind, Program.wp_get, Program.wp_modify]
  have hrenamed : ∀ (renamed : Bool) (w' : World), w'.events = .commit :: w.events →
      (require (renamed = true) .installFailed : Import Unit).wp (fun _ w => Committed w.events)
        (fun stop w => Halted stop w.events) w' := by
    intro renamed w' hevents
    rw [wp_require]
    exact ⟨fun _ => ⟨w.events, hevents, hw⟩, fun _ =>
      hevents ▸ .afterCommit (ordinary_failure (by decide)) hw⟩
  split
  · simp only [Program.wp_bind, Program.wp_get]
    split
    · simp only [Program.wp_bind, Program.wp_set, Program.wp_pure]
      exact hrenamed true _ (by simp)
    · rw [Program.wp_pure]
      exact hrenamed false _ (by simp)
  · rw [Program.wp_pure]
    exact hrenamed false _ (by simp)

theorem going_importStaged (hcancel : host.cancel = some answers) (root staging : Path Filename)
    (original : Stream) (size : UInt64) {w : World} (hw : Going w.events) :
    (importStaged host root staging original size).wp (fun _ w => Committed w.events)
      (fun stop w => Halted stop w.events) w := by
  have usual := going_usual hcancel
  have steady := usual.toSteady
  apply Program.Maintains.andThen (maintains_copyInput usual.toPaced _ _ _ fun _ _ _ hw _ => hw) hw
  intro _ w hw
  apply Program.Maintains.andThen (maintains_openStream steady _) hw
  intro stream w hw
  apply Program.Maintains.andThen (maintains_validate usual stream size) hw
  intro valid w hw
  apply Program.Maintains.andThen (maintains_inspect steady _ _) hw
  intro tmd w hw
  apply Program.Maintains.andThen (maintains_reportTitle usual valid tmd fun _ _ hw => hw) hw
  intro _ w hw
  rw [Program.wp_bind, Program.wp_get, Program.wp_ensuring]
  simp only [restorePaths, events_switchUserPath]
  apply Program.Maintains.andThen
    (going_installStaged hcancel root staging stream size valid tmd) hw
  intro (stagedTitle, destination) w hw
  exact going_commit root stagedTitle destination hw

theorem going_install (hcancel : host.cancel = some answers) (rootArg pathArg : Option Text)
    {w : World} (hw : Going w.events) :
    (install host rootArg pathArg).wp (fun _ w => Committed w.events)
      (fun stop w => Halted stop w.events) w := by
  have usual := going_usual hcancel
  apply Program.Maintains.andThen (maintains_checkArguments usual rootArg pathArg) hw
  intro (root, original, size) w hw
  apply Program.Maintains.andThen
    (maintains_makeStaging usual root size (fun _ _ hw => hw) fun _ _ _ hw _ => hw) hw
  intro staging w hw
  rw [Program.wp_ensuring]
  simp only [events_removeTemporary]
  exact going_importStaged hcancel root staging original size hw

end Run

/-! ## The result -/

/-- What a cancellation comes to, given the status of a call and its history. -/
structure CancellationObeyed (status : Status) (events : List Event) : Prop where
  /-- The first poll that is answered with yes is the last thing that happens; in particular
  nothing is committed. -/
  cancelled : .poll true ∈ events →
    status = .cancelled ∧ .commit ∉ events ∧
      ∃ before, events = .poll true :: before ∧ .poll true ∉ before
  /-- A success is committed once, after the last poll, and all polls were answered with no. -/
  success : status = .success →
    ∃ before, events = .commit :: before ∧ .commit ∉ before ∧ .poll true ∉ before
  /-- A block of data is preceded by its own poll. -/
  blocks : ∀ after use offset bytes before,
    events = after ++ .block use offset bytes :: before →
      bytes.length ≤ 2 ^ 16 ∧ before.head? = some (.poll false)

theorem Going.cancellationObeyed {status : Status} {events : List Event} (h : Going events)
    (hstatus : status ≠ .success) : CancellationObeyed status events where
  cancelled hmem := absurd hmem h.notMem.1
  success heq := absurd heq hstatus
  blocks _ _ _ _ _ heq := (heq ▸ h).poll_before

/-- The latest event of a history is no block, and what was before it is as it should be. -/
theorem Going.blocks_of_cons {event : Event} {events : List Event} (h : Going events)
    (hevent : ∀ use offset bytes, event ≠ .block use offset bytes) {after before : List Event}
    {use : BlockUse} {offset : ℕ} {bytes : Bytes}
    (heq : event :: events = after ++ .block use offset bytes :: before) :
    bytes.length ≤ 2 ^ 16 ∧ before.head? = some (.poll false) := by
  cases after with
  | nil => exact absurd (List.cons.inj heq).1 (hevent use offset bytes)
  | cons first after => exact ((List.cons.inj heq).2 ▸ h).poll_before

theorem Committed.cancellationObeyed {status : Status} {events : List Event}
    (h : Committed events) : CancellationObeyed status events := by
  obtain ⟨before, rfl, hgoing⟩ := h
  obtain ⟨hpoll, hcommit⟩ := hgoing.notMem
  refine ⟨fun hmem => ?_, fun _ => ⟨before, rfl, hcommit, hpoll⟩, fun _ _ _ _ _ heq => ?_⟩
  · simp [hpoll] at hmem
  · exact hgoing.blocks_of_cons (by simp) heq

theorem cancelled_cancellationObeyed {events : List Event} (h : Going events) :
    CancellationObeyed .cancelled (.poll true :: events) := by
  obtain ⟨hpoll, hcommit⟩ := h.notMem
  refine ⟨fun _ => ⟨rfl, by simpa using hcommit, events, rfl, hpoll⟩, nofun,
    fun _ _ _ _ _ heq => ?_⟩
  exact h.blocks_of_cons (by simp) heq

theorem Halted.cancellationObeyed {stop : Stop} {events : List Event} (h : Halted stop events) :
    CancellationObeyed stop.status events := by
  cases h with
  | cancelled h => exact cancelled_cancellationObeyed h
  | ordinary hstop h => exact h.cancellationObeyed hstop.2
  | afterCommit hstop h =>
      exact Committed.cancellationObeyed ⟨_, rfl, h⟩

/-- **Cancellation.** Whatever the callback answers, a poll that is answered with yes ends
the import as cancelled before anything is committed, a success is not polled any more once it
is committed, and every block of data comes right after its own poll. -/
theorem install_cancellationObeyed (host : Host) (answers : ℕ → Bool)
    (rootArg pathArg : Option Text) (resultFits : Bool) (w : World) :
    CancellationObeyed
      (retroManicInstallUpdateCiaV1 { host with cancel := some answers } rootArg pathArg resultFits
        { w with events := [] }).1
      (retroManicInstallUpdateCiaV1 { host with cancel := some answers } rootArg pathArg resultFits
        { w with events := [] }).2.events := by
  generalize hhost : { host with cancel := some answers } = host'
  have hcancel : host'.cancel = some answers := hhost ▸ rfl
  unfold retroManicInstallUpdateCiaV1
  split
  · exact Going.start.cancellationObeyed nofun
  · have hrun := going_install hcancel rootArg pathArg
      (w := { w with result := .initial, events := [] }) .start
    obtain ⟨hreturned, hstopped⟩ := Program.wp_iff_outcome.mp hrun
    dsimp only
    generalize (install host' rootArg pathArg).outcome
      { w with result := .initial, events := [] } = run at hreturned hstopped
    obtain ⟨stop | a, w'⟩ := run
    · exact (hstopped stop w' rfl).cancellationObeyed
    · exact (hreturned a w' rfl).cancellationObeyed

end ManicRoom.Cia
