/-
# Cheats

The cheat engine keeps two registries: a list, which is loaded from a file and edited from the
core, and a map with the cheats that the frontend sets under its own indices. At every run the
engine executes what is switched on in the list and then in the map, in the order of the
indices. The frontend writes its cheats anew each time: it resets the map and sets one entry
for each cheat that is active, with `+` for the ends of lines.
-/

import Mathlib.Data.Nat.Basic
import ManicRoom.Foundation.Machine
import ManicRoom.Foundation.OrderedMap
import ManicRoom.Foundation.Path

namespace ManicRoom.Cheats

open ManicRoom.Foundation

/-! ## The engine -/

/-- `Cheats::GatewayCheat` -/
structure GatewayCheat where
  name : Text
  text : Text
  comments : Text
  enabled : Bool
  deriving DecidableEq, Repr

/-- `Cheats::CheatEngine` -/
structure CheatEngine where
  loadedTitleId : Option UInt64
  processId : UInt32
  cheatsList : List GatewayCheat
  libretroCheats : OrderedMap ℕ GatewayCheat

/-- `CheatEngine::CheatEngine(system)` -/
def CheatEngine.initial : CheatEngine where
  loadedTitleId := none
  processId := 0xFFFFFFFF
  cheatsList := []
  libretroCheats := .empty

/-- What a run of the engine does to the system. -/
inductive Action
  | execute (cheat : GatewayCheat) (processId : UInt32)
  | scheduleEvent (ticks : Int64)
  deriving DecidableEq

namespace CheatEngine

variable (engine : CheatEngine)

/-- `Connect(process_id)`, which schedules the first event. -/
def connect (processId : UInt32) : CheatEngine := { engine with processId }

/-- `AddCheat(cheat)` -/
def addCheat (cheat : GatewayCheat) : CheatEngine :=
  { engine with cheatsList := engine.cheatsList ++ [cheat] }

/-- `RemoveCheat(index)` -/
def removeCheat (index : ℕ) : CheatEngine :=
  if engine.cheatsList.length ≤ index then engine
  else { engine with cheatsList := engine.cheatsList.eraseIdx index }

/-- `UpdateCheat(index, new_cheat)` -/
def updateCheat (index : ℕ) (newCheat : GatewayCheat) : CheatEngine :=
  if engine.cheatsList.length ≤ index then engine
  else { engine with cheatsList := engine.cheatsList.set index newCheat }

/-- `SetLibretroCheat(index, cheat)` -/
def setLibretroCheat (index : ℕ) (cheat : Option GatewayCheat) : CheatEngine :=
  { engine with
    libretroCheats := match cheat with
      | some cheat => engine.libretroCheats.insert index cheat
      | none => engine.libretroCheats.erase index }

/-- `ResetLibretroCheats()` -/
def resetLibretroCheats : CheatEngine := { engine with libretroCheats := .empty }

/-- `LoadCheatFile(title_id)`, where `file` is what the file of the title contains. -/
def loadCheatFile (titleId : UInt64) (file : List GatewayCheat) : CheatEngine :=
  if engine.loadedTitleId = some titleId then engine
  else { engine with loadedTitleId := some titleId, cheatsList := file }

/-- `run_interval_ticks` -/
def runIntervalTicks : Int64 := 50000000

/-- `RunCallback(user_data, cycles_late)` -/
def runCallback (cyclesLate : Int64) : List Action :=
  let run (cheats : List GatewayCheat) : List Action :=
    (cheats.filter (·.enabled)).map fun cheat => .execute cheat engine.processId
  run engine.cheatsList ++ run (engine.libretroCheats.entries.map Prod.snd) ++
    [.scheduleEvent (runIntervalTicks - cyclesLate)]

end CheatEngine

/-! ## The interface of the core -/

/-- `std::replace(text.begin(), text.end(), old, new)` -/
def replace (text : Text) (old new : Char) : Text := text.map fun c => if c = old then new else c

/-- The cheat that a code stands for: none if there is no code. -/
def libretroCheat (index : ℕ) (enabled : Bool) (code : Option Text) : Option GatewayCheat :=
  match code with
  | none => none
  | some code =>
      if code = [] then none
      else some
        { name := "libretro:".toList ++ (toString index).toList
          text := replace code '+' '\n'
          comments := []
          enabled }

/-- `retro_cheat_set(index, enabled, code)` -/
def retroCheatSet (index : ℕ) (enabled : Bool) (code : Option Text) (engine : CheatEngine) :
    CheatEngine :=
  engine.setLibretroCheat index (libretroCheat index enabled code)

/-- `retro_cheat_reset()` -/
def retroCheatReset (engine : CheatEngine) : CheatEngine := engine.resetLibretroCheats

/-- `retro_unload_game()`, as far as it concerns the engine. -/
def retroUnloadGame (engine : CheatEngine) : CheatEngine := retroCheatReset engine

/-! ## Histories -/

/-- What can happen to an engine. -/
inductive Operation
  | connect (processId : UInt32)
  | addCheat (cheat : GatewayCheat)
  | removeCheat (index : ℕ)
  | updateCheat (index : ℕ) (newCheat : GatewayCheat)
  | loadCheatFile (titleId : UInt64) (file : List GatewayCheat)
  | retroCheatSet (index : ℕ) (enabled : Bool) (code : Option Text)
  | retroCheatReset
  | retroUnloadGame
  | runCallback (cyclesLate : Int64)

/-- The engine as a machine. Only its runs do anything to the system. -/
def machine : Machine CheatEngine Operation (List Action) where
  step engine
    | .connect processId =>
        (engine.connect processId, [.scheduleEvent CheatEngine.runIntervalTicks])
    | .addCheat cheat => (engine.addCheat cheat, [])
    | .removeCheat index => (engine.removeCheat index, [])
    | .updateCheat index newCheat => (engine.updateCheat index newCheat, [])
    | .loadCheatFile titleId file => (engine.loadCheatFile titleId file, [])
    | .retroCheatSet index enabled code => (retroCheatSet index enabled code engine, [])
    | .retroCheatReset => (retroCheatReset engine, [])
    | .retroUnloadGame => (retroUnloadGame engine, [])
    | .runCallback cyclesLate => (engine, engine.runCallback cyclesLate)

/-- The operations that come from the frontend. -/
def Operation.IsLibretro : Operation → Prop
  | .retroCheatSet .. | .retroCheatReset | .retroUnloadGame => True
  | _ => False

/-! ## The frontend -/

/-- An element of `manicGame.gameCheats`. -/
structure GameCheat where
  activate : Bool
  code : Text
  deriving DecidableEq, Repr

/-- The loop of `updateCheatCodes` in the experimental build, from an index on. -/
def addCheatCodes : ℕ → List GameCheat → List Operation
  | _, [] => []
  | index, cheat :: cheats =>
      let rest := addCheatCodes (index + 1) cheats
      if cheat.activate then
        .retroCheatSet index true (some (replace cheat.code '\n' '+')) :: rest
      else rest

/-- `updateCheatCodes()`, where `resetCheatCode` and `addCheatCode` are forwarded to the core. -/
def updateCheatCodes (cheats : List GameCheat) : List Operation :=
  .retroCheatReset :: addCheatCodes 0 cheats

end ManicRoom.Cheats
