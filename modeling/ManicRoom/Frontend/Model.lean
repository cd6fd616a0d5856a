/-
# The frontend around an import

`LibretroCore.m` hands every start, load and reload on to RetroArch, and
`ManicCIAUI.inc` imports an update on a worker thread while no core is in use. What
keeps the two apart is `ciaImportBusy`, a flag that each entry point tests for itself.

The main thread handles one event at a time: a tap, a callback of UIKit, a call of an
entry point, or the block at the head of its queue. An entry point that is called on
another thread puts itself into that queue. Everything the main thread does in one event
is one step; the worker takes its own.
-/

import ManicRoom.Foundation.Transition

namespace ManicRoom.Frontend

open ManicRoom.Foundation

/-- The methods of `LibretroCore` that start or stop RetroArch, or have it load
something. -/
inductive Entry
  | startWithCustomSaveDir
  | stop
  | reload
  | reloadByKeepState (keepState : Bool)
  | loadGame
  | loadCoreWithoutContent
  | loadCoreWithoutRunning
  deriving DecidableEq, Repr

/-- The entry starts RetroArch, or loads or reloads a core or content. -/
def Entry.Loads : Entry → Prop
  | .stop => False
  | _ => True

instance (entry : Entry) : Decidable entry.Loads := by
  cases entry <;> unfold Entry.Loads <;> infer_instance

/-- A block in the main queue. -/
inductive Block
  /-- An entry point that was called on another thread. -/
  | entry (entry : Entry)
  /-- What `didPickDocumentsAtURLs` leaves for after the picker is dismissed. -/
  | beginImport
  /-- What the worker leaves when it is done. -/
  | finishImport
  deriving DecidableEq, Repr

/-- The next thing that a worker does. -/
inductive WorkerPosition
  | dylibLoad
  | install
  | dylibClose
  /-- Put `finishImport` into the main queue. -/
  | report
  deriving DecidableEq, Repr

/-- History: a call into RetroArch, with the flag at that moment. -/
structure RetroArchCall where
  entry : Entry
  ciaImportBusy : Bool
  deriving DecidableEq, Repr

/-- The properties of `LibretroCore`, what is on the screen, the main queue and the
workers. -/
structure State where
  /-- `ManicRoomBuildMode` of the bundle is `experimental`. -/
  manicRoomExperiment : Bool := true
  ciaImportBusy : Bool := false
  ciaImportCancelled : Bool := false
  isRunning : Bool := false
  /-- `runloop->lib_handle`: RetroArch has a core. -/
  hasLoadedCore : Bool := false
  /-- Alerts that ask whether to select a file. -/
  confirms : ℕ := 0
  pickers : ℕ := 0
  /-- Alerts that show the progress and can cancel. -/
  progresses : ℕ := 0
  mainQueue : List Block := []
  workers : List WorkerPosition := []
  /-- History: the calls into RetroArch, the latest first. -/
  retroArch : List RetroArchCall := []
  /-- History: `isRunning` when each worker was started. -/
  workerStarts : List Bool := []
  deriving DecidableEq, Repr

/-- What an entry point learns from its environment. -/
structure Answers where
  /-- `createDirectoryAtPath` succeeds. -/
  createsDirectory : Bool := true
  azaharRoomActive : Bool := false
  deriving DecidableEq, Repr

/-- An event. -/
inductive Label
  /-- `presentExperimentalCIAImporter`. -/
  | presentImporter (mainThread : Bool)
  /-- The user confirms; the file type may be unknown and the picker may not come up. -/
  | confirm (typeKnown presented : Bool)
  | cancelConfirm
  /-- `documentPicker:didPickDocumentsAtURLs:`; the first URL may be missing or no CIA. -/
  | pick (isCIA : Bool)
  /-- `documentPickerWasCancelled:`. -/
  | cancelPicker
  | cancelProgress
  /-- `manicCIADidEnterBackground:`. -/
  | enterBackground
  /-- The system ends the background task. -/
  | expireTask
  | call (entry : Entry) (mainThread : Bool) (answers : Answers)
  /-- The main thread runs the block at the head of its queue. -/
  | runBlock (answers : Answers)
  /-- A worker goes on; where it can fail, `ok` says whether it does not. -/
  | work (index : ℕ) (ok : Bool)
  /-- RetroArch loads or unloads a core. -/
  | coreChanges (loaded : Bool)
  deriving DecidableEq, Repr

/-! ## The entry points -/

/-- `[self getRetroArch]` is sent the message. -/
def State.reach (s : State) (entry : Entry) : State :=
  { s with retroArch := ⟨entry, s.ciaImportBusy⟩ :: s.retroArch }

/-- `dispatch_async(dispatch_get_main_queue(), ^{ .. })`. -/
def State.dispatch (s : State) (block : Block) : State :=
  { s with mainQueue := s.mainQueue ++ [block] }

/-- An entry point on another thread than the main one. -/
def callOffMain (s : State) (entry : Entry) : State :=
  match entry with
  -- These two answer their caller and cannot wait.
  | .startWithCustomSaveDir | .loadGame => s
  | .stop => s.dispatch (.entry .stop)
  | .loadCoreWithoutRunning => s.dispatch (.entry .loadCoreWithoutRunning)
  | entry => if s.ciaImportBusy then s else s.dispatch (.entry entry)

def startWithCustomSaveDir (answers : Answers) (s : State) : State :=
  if s.ciaImportBusy then s
  else if s.manicRoomExperiment ∧ ¬ answers.createsDirectory then s
  else { s with isRunning := true }.reach .startWithCustomSaveDir

def stop (s : State) : State :=
  if s.ciaImportBusy then { s with ciaImportCancelled := true }
  else { s with isRunning := false }.reach .stop

def reload (answers : Answers) (s : State) : State :=
  if s.ciaImportBusy then s
  else if answers.azaharRoomActive then s
  else s.reach .reload

def reloadByKeepState (answers : Answers) (keepState : Bool) (s : State) : State :=
  if s.ciaImportBusy then s
  else if answers.azaharRoomActive then s
  else s.reach (.reloadByKeepState keepState)

def loadGame (s : State) : State :=
  if s.ciaImportBusy then s else s.reach .loadGame

def loadCoreWithoutContent (s : State) : State :=
  if s.ciaImportBusy then s else s.reach .loadCoreWithoutContent

/-- The one without a test of `ciaImportBusy`. -/
def loadCoreWithoutRunning (s : State) : State := s.reach .loadCoreWithoutRunning

/-- An entry point on the main thread. -/
def callOnMain (s : State) (entry : Entry) (answers : Answers) : State :=
  match entry with
  | .startWithCustomSaveDir => startWithCustomSaveDir answers s
  | .stop => stop s
  | .reload => reload answers s
  | .reloadByKeepState keepState => reloadByKeepState answers keepState s
  | .loadGame => loadGame s
  | .loadCoreWithoutContent => loadCoreWithoutContent s
  | .loadCoreWithoutRunning => loadCoreWithoutRunning s

/-! ## The importer -/

/-- An import is going on, or RetroArch is in use. -/
def State.InUse (s : State) : Prop :=
  s.ciaImportBusy = true ∨ s.isRunning = true ∨ s.hasLoadedCore = true

instance (s : State) : Decidable s.InUse := by
  unfold State.InUse
  infer_instance

def presentExperimentalCIAImporter (mainThread : Bool) (s : State) : State :=
  if mainThread = false ∨ s.manicRoomExperiment = false then s
  else if s.InUse then s
  else { s with confirms := s.confirms + 1 }

/-- The handler of the alert, which has been dismissed. -/
def confirmed (typeKnown presented : Bool) (s : State) : State :=
  if s.InUse then s
  else if typeKnown = false then s
  else
    { s with
      ciaImportBusy := true, ciaImportCancelled := false
      pickers := if presented then s.pickers + 1 else s.pickers }

def documentPickerWasCancelled (s : State) : State := { s with ciaImportBusy := false }

def didPickDocumentsAtURLs (isCIA : Bool) (s : State) : State :=
  if isCIA = false ∨ s.isRunning = true ∨ s.hasLoadedCore = true then
    { s with ciaImportBusy := false }
  else s.dispatch .beginImport

/-- The block that shows the progress and starts the worker. -/
def beginImport (s : State) : State :=
  { s with
    progresses := s.progresses + 1
    workers := s.workers ++ [.dylibLoad]
    workerStarts := s.isRunning :: s.workerStarts }

/-- The block that takes the flag back and shows the result. -/
def finishImport (s : State) : State :=
  { s with ciaImportBusy := false, progresses := s.progresses - 1 }

def runBlock (s : State) (block : Block) (answers : Answers) : State :=
  match block with
  | .entry entry => callOnMain s entry answers
  | .beginImport => beginImport s
  | .finishImport => finishImport s

/-- A worker at `position` goes on. -/
def workStep (s : State) (index : ℕ) (position : WorkerPosition) (ok : Bool) : State :=
  match position with
  | .dylibLoad =>
      { s with workers := s.workers.set index (if ok then .install else .report) }
  | .install => { s with workers := s.workers.set index .dylibClose }
  | .dylibClose => { s with workers := s.workers.set index .report }
  | .report => { s with workers := s.workers.eraseIdx index }.dispatch .finishImport

/-! ## The system -/

/-- One event. A view that is not on the screen sends none. -/
def step (s : State) : Label → Option State
  | .presentImporter mainThread => some (presentExperimentalCIAImporter mainThread s)
  | .confirm typeKnown presented =>
      if s.confirms = 0 then none
      else some (confirmed typeKnown presented { s with confirms := s.confirms - 1 })
  | .cancelConfirm =>
      if s.confirms = 0 then none else some { s with confirms := s.confirms - 1 }
  | .pick isCIA =>
      if s.pickers = 0 then none
      else some (didPickDocumentsAtURLs isCIA { s with pickers := s.pickers - 1 })
  | .cancelPicker =>
      if s.pickers = 0 then none
      else some (documentPickerWasCancelled { s with pickers := s.pickers - 1 })
  | .cancelProgress =>
      if s.progresses = 0 then none
      else some { s with ciaImportCancelled := true, progresses := s.progresses - 1 }
  | .enterBackground => some { s with ciaImportCancelled := true }
  | .expireTask => if s.workers = [] then none else some { s with ciaImportCancelled := true }
  | .call entry mainThread answers =>
      some (if mainThread then callOnMain s entry answers else callOffMain s entry)
  | .runBlock answers =>
      match s.mainQueue with
      | [] => none
      | block :: blocks => some (runBlock { s with mainQueue := blocks } block answers)
  | .work index ok =>
      match s.workers[index]? with
      | none => none
      | some position => some (workStep s index position ok)
  | .coreChanges loaded => some { s with hasLoadedCore := loaded }

/-- The app has been launched. -/
def system : System State Label where
  init s := ∃ experiment, s = { manicRoomExperiment := experiment }
  step := step

end ManicRoom.Frontend
