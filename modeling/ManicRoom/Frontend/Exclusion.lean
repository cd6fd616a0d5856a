/-
# An import excludes the emulation

`cia_update_api.h` asks that nothing of the core overlaps an import. The frontend has at
most one import: from the confirmation on it is a picker, then a block in the main queue,
then a worker, then a block again, and as long as there is one of them `ciaImportBusy` is
set. Every entry point that loads something tests the flag on the main thread, right
before it calls RetroArch, but for one: `loadCoreWithoutRunning` does not test it. In
every run in which that one is not executed during an import, the exclusion holds.
-/

import ManicRoom.Frontend.Model

namespace ManicRoom.Frontend

open ManicRoom.Foundation

/-- What the importer may rely on. -/
structure Exclusive (s : State) : Prop where
  /-- Nothing has been started or loaded during an import. -/
  reached : ∀ call ∈ s.retroArch, call.entry.Loads → call.ciaImportBusy = false
  running : ¬ (s.ciaImportBusy = true ∧ s.isRunning = true)
  worker : s.workers.length ≤ 1
  /-- While there is a worker the flag is set. -/
  busy : s.workers ≠ [] → s.ciaImportBusy = true
  /-- No worker was started while a game was running. -/
  starts : ∀ running ∈ s.workerStarts, running = false

/-- The condition on a step under which it may: `loadCoreWithoutRunning` is not executed
during an import. -/
def CoreNotLoaded (s : State) : Label → Prop
  | .call entry mainThread _ =>
      entry = .loadCoreWithoutRunning → mainThread = true → s.ciaImportBusy = false
  | .runBlock _ =>
      s.mainQueue.head? = some (.entry .loadCoreWithoutRunning) → s.ciaImportBusy = false
  | _ => True

instance (s : State) (label : Label) : Decidable (CoreNotLoaded s label) := by
  cases label <;> unfold CoreNotLoaded <;> infer_instance

/-! ## The one import -/

/-- The block belongs to an import. -/
def Block.ofImport : Block → Bool
  | .entry _ => false
  | .beginImport | .finishImport => true

/-- The imports: whoever has to carry one on. -/
def State.imports (s : State) : ℕ :=
  s.pickers + s.mainQueue.countP Block.ofImport + s.workers.length

/-- The invariant of the importer. -/
structure ImportFacts (s : State) : Prop where
  single : s.imports ≤ 1
  busy : 0 < s.imports → s.ciaImportBusy = true
  stopped : s.ciaImportBusy = true → s.isRunning = false
  reached : ∀ call ∈ s.retroArch, call.entry.Loads → call.ciaImportBusy = false
  starts : ∀ running ∈ s.workerStarts, running = false

theorem importFacts_init (experiment : Bool) :
    ImportFacts { manicRoomExperiment := experiment } where
  single := Nat.zero_le 1
  busy h := absurd h (Nat.lt_irrefl 0)
  stopped h := by cases h
  reached := nofun
  starts := nofun

variable {s t : State}

/-- An event that has nothing to do with the import. -/
theorem ImportFacts.frame (facts : ImportFacts s) (himports : t.imports = s.imports)
    (hbusy : t.ciaImportBusy = s.ciaImportBusy) (hrunning : t.isRunning = s.isRunning)
    (hretroArch : t.retroArch = s.retroArch) (hstarts : t.workerStarts = s.workerStarts) :
    ImportFacts t where
  single := himports ▸ facts.single
  busy h := hbusy.trans (facts.busy (himports ▸ h))
  stopped h := hrunning.trans (facts.stopped (hbusy.symm.trans h))
  reached := hretroArch ▸ facts.reached
  starts := hstarts ▸ facts.starts

/-- A call into RetroArch that loads nothing, or comes when there is no import. -/
theorem ImportFacts.reach (facts : ImportFacts s) {entry : Entry}
    (h : entry.Loads → s.ciaImportBusy = false) : ImportFacts (s.reach entry) where
  single := facts.single
  busy := facts.busy
  stopped := facts.stopped
  reached call hmem := by
    rcases List.mem_cons.mp hmem with rfl | hold
    · exact h
    · exact facts.reached call hold
  starts := facts.starts

/-- While the flag is not set RetroArch may start or stop. -/
theorem ImportFacts.setRunning (facts : ImportFacts s) (hfree : s.ciaImportBusy = false)
    (running : Bool) : ImportFacts { s with isRunning := running } where
  single := facts.single
  busy := facts.busy
  stopped h := by simp [hfree] at h
  reached := facts.reached
  starts := facts.starts

@[simp]
theorem imports_dispatch (block : Block) :
    (s.dispatch block).imports = s.imports + if block.ofImport then 1 else 0 := by
  simp only [State.imports, State.dispatch, List.countP_append, List.countP_singleton]
  omega

/-! ## The events -/

theorem importFacts_callOffMain (facts : ImportFacts s) (entry : Entry) :
    ImportFacts (callOffMain s entry) := by
  have queued : ImportFacts (s.dispatch (.entry entry)) :=
    facts.frame (by simp [Block.ofImport]) rfl rfl rfl rfl
  unfold callOffMain
  split
  · exact facts
  · exact facts
  · exact queued
  · exact queued
  · split
    · exact facts
    · exact queued

theorem importFacts_callOnMain (facts : ImportFacts s) (entry : Entry) (answers : Answers)
    (h : entry = .loadCoreWithoutRunning → s.ciaImportBusy = false) :
    ImportFacts (callOnMain s entry answers) := by
  cases hbusy : s.ciaImportBusy with
  | true =>
      -- Every other entry point gives up.
      cases entry with
      | loadCoreWithoutRunning => simp [hbusy] at h
      | stop =>
          have heq : callOnMain s .stop answers = { s with ciaImportCancelled := true } := by
            simp [callOnMain, stop, hbusy]
          rw [heq]
          exact facts.frame rfl rfl rfl rfl rfl
      | _ =>
          simp only [callOnMain, startWithCustomSaveDir, reload, reloadByKeepState, loadGame,
            loadCoreWithoutContent, hbusy, if_true]
          exact facts
  | false =>
      have hfree : ¬ s.ciaImportBusy = true := by simp [hbusy]
      cases entry with
      | startWithCustomSaveDir =>
          simp only [callOnMain, startWithCustomSaveDir, if_neg hfree]
          split
          · exact facts
          · exact (facts.setRunning hbusy true).reach fun _ => hbusy
      | stop =>
          simp only [callOnMain, stop, if_neg hfree]
          exact (facts.setRunning hbusy false).reach fun h => absurd h id
      | reload =>
          simp only [callOnMain, reload, if_neg hfree]
          split
          · exact facts
          · exact facts.reach fun _ => hbusy
      | reloadByKeepState keepState =>
          simp only [callOnMain, reloadByKeepState, if_neg hfree]
          split
          · exact facts
          · exact facts.reach fun _ => hbusy
      | loadGame =>
          simp only [callOnMain, loadGame, if_neg hfree]
          exact facts.reach fun _ => hbusy
      | loadCoreWithoutContent =>
          simp only [callOnMain, loadCoreWithoutContent, if_neg hfree]
          exact facts.reach fun _ => hbusy
      | loadCoreWithoutRunning => exact facts.reach fun _ => hbusy

/-- An import begins when the flag is not set, hence when there is none. -/
theorem importFacts_confirmed (facts : ImportFacts s) (typeKnown presented : Bool) :
    ImportFacts (confirmed typeKnown presented s) := by
  unfold confirmed
  split
  · exact facts
  · next hunused =>
    split
    · exact facts
    · have hfree : s.ciaImportBusy = false ∧ s.isRunning = false := by
        simp only [State.InUse, not_or, Bool.not_eq_true] at hunused
        exact ⟨hunused.1, hunused.2.1⟩
      have hnone : s.imports = 0 := by
        by_contra hsome
        simp [facts.busy (Nat.pos_of_ne_zero hsome)] at hfree
      simp only [State.imports] at hnone
      refine ⟨?_, fun _ => rfl, fun _ => hfree.2, facts.reached, facts.starts⟩
      simp only [State.imports]
      split <;> omega

/-- The picker hands its import on, or ends it. -/
theorem importFacts_pick (facts : ImportFacts s) (hpicker : s.pickers ≠ 0) (isCIA : Bool) :
    ImportFacts (didPickDocumentsAtURLs isCIA { s with pickers := s.pickers - 1 }) := by
  have hsingle := facts.single
  have hbusy := facts.busy
  simp only [State.imports] at hsingle hbusy
  unfold didPickDocumentsAtURLs
  split
  · refine ⟨?_, fun h => ?_, nofun, facts.reached, facts.starts⟩
    · simp only [State.imports]
      omega
    · simp only [State.imports] at h
      omega
  · refine facts.frame ?_ rfl rfl rfl rfl
    rw [imports_dispatch]
    simp only [State.imports, Block.ofImport, if_true]
    omega

theorem importFacts_cancelPicker (facts : ImportFacts s) (hpicker : s.pickers ≠ 0) :
    ImportFacts (documentPickerWasCancelled { s with pickers := s.pickers - 1 }) := by
  have hsingle := facts.single
  simp only [State.imports] at hsingle
  refine ⟨?_, fun h => ?_, nofun, facts.reached, facts.starts⟩
  · simp only [State.imports, documentPickerWasCancelled]
    omega
  · simp only [State.imports, documentPickerWasCancelled] at h
    omega

theorem importFacts_runBlock (facts : ImportFacts s) {block : Block} {blocks : List Block}
    (hqueue : s.mainQueue = block :: blocks) (answers : Answers)
    (h : block = .entry .loadCoreWithoutRunning → s.ciaImportBusy = false) :
    ImportFacts (runBlock { s with mainQueue := blocks } block answers) := by
  have hsingle := facts.single
  have hbusy := facts.busy
  cases block with
  | entry entry =>
      have popped : ImportFacts { s with mainQueue := blocks } :=
        facts.frame (by simp [State.imports, hqueue, Block.ofImport]) rfl rfl rfl rfl
      exact importFacts_callOnMain popped entry answers fun heq => h (by rw [heq])
  | beginImport =>
      -- The block was the import, so the flag is set and nothing is running.
      simp only [State.imports, hqueue, List.countP_cons, Block.ofImport, if_true] at hsingle hbusy
      have hset := hbusy (by omega)
      refine ⟨?_, fun _ => hset, facts.stopped, facts.reached, ?_⟩
      · simp only [runBlock, beginImport, State.imports, List.length_append, List.length_singleton]
        omega
      · intro running hmem
        rcases List.mem_cons.mp hmem with rfl | hold
        · exact facts.stopped hset
        · exact facts.starts running hold
  | finishImport =>
      simp only [State.imports, hqueue, List.countP_cons, Block.ofImport, if_true] at hsingle
      refine ⟨?_, fun h => ?_, by rintro ⟨⟩, facts.reached, facts.starts⟩
      · simp only [runBlock, finishImport, State.imports]
        omega
      · simp only [runBlock, finishImport, State.imports] at h
        omega

theorem importFacts_workStep (facts : ImportFacts s) {index : ℕ} {position : WorkerPosition}
    (hworker : s.workers[index]? = some position) (ok : Bool) :
    ImportFacts (workStep s index position ok) := by
  have stays (next : WorkerPosition) :
      ImportFacts { s with workers := s.workers.set index next } :=
    facts.frame (by simp [State.imports]) rfl rfl rfl rfl
  cases position with
  | dylibLoad => exact stays _
  | install => exact stays _
  | dylibClose => exact stays _
  | report =>
      have hindex := (List.getElem?_eq_some_iff.mp hworker).1
      refine facts.frame ?_ rfl rfl rfl rfl
      simp only [workStep, imports_dispatch]
      simp only [State.imports, List.length_eraseIdx_of_lt hindex, Block.ofImport, if_true]
      omega

theorem importFacts_step {label : Label} (facts : ImportFacts s) (ok : CoreNotLoaded s label)
    (h : step s label = some t) : ImportFacts t := by
  cases label with
  | presentImporter mainThread =>
      cases h
      unfold presentExperimentalCIAImporter
      repeat' split
      all_goals exact facts.frame rfl rfl rfl rfl rfl
  | confirm typeKnown presented =>
      obtain ⟨-, rfl⟩ := by simpa [step] using h
      have dismissed : ImportFacts { s with confirms := s.confirms - 1 } :=
        facts.frame rfl rfl rfl rfl rfl
      exact importFacts_confirmed dismissed typeKnown presented
  | cancelConfirm =>
      obtain ⟨-, rfl⟩ := by simpa [step] using h
      exact facts.frame rfl rfl rfl rfl rfl
  | pick isCIA =>
      obtain ⟨hpicker, rfl⟩ := by simpa [step] using h
      exact importFacts_pick facts hpicker isCIA
  | cancelPicker =>
      obtain ⟨hpicker, rfl⟩ := by simpa [step] using h
      exact importFacts_cancelPicker facts hpicker
  | cancelProgress =>
      obtain ⟨-, rfl⟩ := by simpa [step] using h
      exact facts.frame rfl rfl rfl rfl rfl
  | enterBackground =>
      cases h
      exact facts.frame rfl rfl rfl rfl rfl
  | expireTask =>
      obtain ⟨-, rfl⟩ := by simpa [step] using h
      exact facts.frame rfl rfl rfl rfl rfl
  | call entry mainThread answers =>
      cases h
      cases mainThread with
      | true => exact importFacts_callOnMain facts entry answers fun heq => ok heq rfl
      | false => exact importFacts_callOffMain facts entry
  | runBlock answers =>
      simp only [step] at h
      split at h
      · cases h
      · next block blocks hqueue =>
        cases h
        exact importFacts_runBlock facts hqueue answers fun heq => ok (by rw [hqueue, heq]; rfl)
  | work index moves =>
      simp only [step] at h
      split at h
      · cases h
      · next position hworker =>
        cases h
        exact importFacts_workStep facts hworker moves
  | coreChanges loaded =>
      cases h
      exact facts.frame rfl rfl rfl rfl rfl

/-! ## The result -/

/-- **An import excludes the emulation**, in every run in which `loadCoreWithoutRunning`
is not executed during one. -/
theorem exclusive_of_coreNotLoaded {s : State} (h : system.ReachableVia CoreNotLoaded s) :
    Exclusive s := by
  have facts : ImportFacts s := by
    refine h.invariant ImportFacts (fun s hs => ?_) (fun s label t _ ok facts hs => ?_)
    · obtain ⟨experiment, rfl⟩ := hs
      exact importFacts_init experiment
    · exact importFacts_step facts ok hs
  have hsingle := facts.single
  simp only [State.imports] at hsingle
  refine ⟨facts.reached, fun ⟨hbusy, hrunning⟩ => ?_, by omega, fun hsome => ?_, facts.starts⟩
  · simp [facts.stopped hbusy] at hrunning
  · refine facts.busy ?_
    have hlength := List.length_pos_iff.mpr hsome
    simp only [State.imports]
    omega

/-- The user imports a file, while two others ask for a reload and a game, and then
starts. -/
def importsUpdate : List Label :=
  [.presentImporter true, .presentImporter true, .confirm true true, .confirm true true,
    .call .reload false {}, .pick true, .call .loadGame true {}, .runBlock {},
    .call .startWithCustomSaveDir true {}, .work 0 true, .enterBackground, .work 0 true,
    .work 0 true, .work 0 true, .runBlock {}, .call .startWithCustomSaveDir true {}]

theorem exclusive_importsUpdate :
    ∃ s : State, (s.workerStarts = [false] ∧ s.isRunning = true ∧ s.ciaImportCancelled = true) ∧
      Exclusive s := by
  obtain ⟨s, hreach, hends⟩ :=
    System.exists_reachableVia_of_runVia CoreNotLoaded (show system.init {} from ⟨true, rfl⟩)
      importsUpdate
      (fun s => s.workerStarts = [false] ∧ s.isRunning = true ∧ s.ciaImportCancelled = true)
      (by decide +kernel)
  exact ⟨s, hends, exclusive_of_coreNotLoaded hreach⟩

/-- A core is asked for while the worker installs. -/
def loadsCoreDuringImport : List Label :=
  [.presentImporter true, .confirm true true, .pick true, .runBlock {}, .work 0 true,
    .call .loadCoreWithoutRunning false {}, .runBlock {}]

/-- **A core can be loaded during an import.** -/
theorem coreLoaded_during_import :
    ∃ s, system.Reachable s ∧ s.workers = [.install] ∧
      s.retroArch = [⟨.loadCoreWithoutRunning, true⟩] ∧ ¬ Exclusive s := by
  obtain ⟨s, hreach, hworkers, hretroArch⟩ :=
    System.exists_reachable_of_run (show system.init {} from ⟨true, rfl⟩) loadsCoreDuringImport
      (fun s => s.workers = [.install] ∧ s.retroArch = [⟨.loadCoreWithoutRunning, true⟩])
      (by decide +kernel)
  refine ⟨s, hreach, hworkers, hretroArch, fun exclusive => ?_⟩
  have hfree := exclusive.reached ⟨.loadCoreWithoutRunning, true⟩ (by simp [hretroArch]) trivial
  cases hfree

end ManicRoom.Frontend
