/-
# The cheats that run

Whatever was done to the engine before, after the frontend has written its cheats a run
executes what is switched on in the list of the core and then the active cheats of the
frontend, in their order. The two registries do not touch each other, and the map holds for
every index what was set last.
-/

import Mathlib.Data.List.Induction
import ManicRoom.Cheats.Engine

namespace ManicRoom.Cheats

open ManicRoom.Foundation

/-! ## The frontend's cheats -/

/-- The cheat that an active entry of the frontend stands for. -/
def GameCheat.gateway (index : ℕ) (cheat : GameCheat) : Option GatewayCheat :=
  if cheat.activate = true ∧ cheat.code ≠ [] then
    some
      { name := "libretro:".toList ++ (toString index).toList
        text := replace cheat.code '+' '\n'
        comments := []
        enabled := true }
  else none

/-- The active cheats with a code, under their indices. -/
def gatewayEntries (index : ℕ) (cheats : List GameCheat) : List (ℕ × GatewayCheat) :=
  (cheats.zipIdx index).filterMap fun entry =>
    (entry.1.gateway entry.2).map fun gateway => (entry.2, gateway)

/-- The active cheats with a code. -/
def gatewayCheats (cheats : List GameCheat) : List GatewayCheat :=
  cheats.zipIdx.filterMap fun entry => entry.1.gateway entry.2

theorem map_snd_gatewayEntries (cheats : List GameCheat) :
    (gatewayEntries 0 cheats).map Prod.snd = gatewayCheats cheats := by
  rw [gatewayEntries, gatewayCheats, List.map_filterMap]
  congr 1
  funext entry
  cases entry.1.gateway entry.2 <;> rfl

theorem enabled_of_mem_gatewayCheats {cheats : List GameCheat} {gateway : GatewayCheat}
    (h : gateway ∈ gatewayCheats cheats) : gateway.enabled = true := by
  obtain ⟨entry, -, hgateway⟩ := List.mem_filterMap.mp h
  unfold GameCheat.gateway at hgateway
  split at hgateway
  · cases hgateway
    rfl
  · exact nomatch hgateway

/-- The way there and back: the ends of lines and every `+` are ends of lines. -/
theorem replace_replace (text : Text) :
    replace (replace text '\n' '+') '+' '\n' = replace text '+' '\n' := by
  simp only [replace, List.map_map]
  congr 1
  funext c
  by_cases h : c = '\n'
  · simp [h]
  · simp [h]

theorem libretroCheat_eq (index : ℕ) {cheat : GameCheat} (hactive : cheat.activate = true) :
    libretroCheat index true (some (replace cheat.code '\n' '+')) = cheat.gateway index := by
  have hempty : replace cheat.code '\n' '+' = [] ↔ cheat.code = [] := List.map_eq_nil_iff
  simp [libretroCheat, GameCheat.gateway, hempty, hactive, replace_replace]

/-- What the loop of the frontend adds to a map with smaller indices. -/
theorem run_addCheatCodes (index : ℕ) (cheats : List GameCheat) (engine : CheatEngine)
    (h : ∀ entry ∈ engine.libretroCheats.entries, entry.1 < index) :
    let after := machine.run engine (addCheatCodes index cheats)
    after.cheatsList = engine.cheatsList ∧ after.processId = engine.processId ∧
      after.libretroCheats.entries =
        engine.libretroCheats.entries ++ gatewayEntries index cheats := by
  induction cheats generalizing index engine with
  | nil => simp [addCheatCodes, Machine.run, gatewayEntries]
  | cons cheat cheats ih =>
      have hlater : ∀ entry ∈ engine.libretroCheats.entries, entry.1 < index + 1 :=
        fun entry hmem => Nat.lt_succ_of_lt (h entry hmem)
      have hentries : gatewayEntries index (cheat :: cheats) =
          ((cheat.gateway index).map fun gateway => (index, gateway)).toList ++
            gatewayEntries (index + 1) cheats := by
        rw [gatewayEntries, List.zipIdx_cons, List.filterMap_cons, ← gatewayEntries]
        cases cheat.gateway index <;> rfl
      rw [hentries]
      by_cases hactive : cheat.activate = true
      · rw [addCheatCodes, if_pos hactive, Machine.run]
        simp only [machine, retroCheatSet, CheatEngine.setLibretroCheat,
          libretroCheat_eq index hactive]
        cases hgateway : cheat.gateway index with
        | none =>
            have herase := engine.libretroCheats.erase_eq_self fun entry hmem =>
              Nat.ne_of_lt (h entry hmem)
            simp only [herase]
            exact ih (index + 1) engine hlater
        | some gateway =>
            have hinsert := engine.libretroCheats.entries_insert_of_lt gateway h
            obtain ⟨hlist, hprocess, hmap⟩ := ih (index + 1)
              { engine with libretroCheats := engine.libretroCheats.insert index gateway }
              fun entry hmem => by
                simp only [hinsert, List.mem_append, List.mem_singleton] at hmem
                rcases hmem with hmem | rfl
                · exact hlater entry hmem
                · exact Nat.lt_succ_self index
            refine ⟨hlist, hprocess, hmap.trans ?_⟩
            simp [hinsert]
      · have hgateway : cheat.gateway index = none := by simp [GameCheat.gateway, hactive]
        rw [addCheatCodes, if_neg hactive, hgateway]
        exact ih (index + 1) engine hlater

/-- The engine after the frontend has written its cheats. -/
theorem run_updateCheatCodes (cheats : List GameCheat) (engine : CheatEngine) :
    let after := machine.run engine (updateCheatCodes cheats)
    after.cheatsList = engine.cheatsList ∧ after.processId = engine.processId ∧
      after.libretroCheats.entries = gatewayEntries 0 cheats := by
  have hrest := run_addCheatCodes 0 cheats (retroCheatReset engine) nofun
  exact hrest

/-! ## The registries -/

/-- Operations of the frontend leave the list alone. -/
theorem step_of_isLibretro {operation : Operation} (h : operation.IsLibretro)
    (engine : CheatEngine) :
    (machine.step engine operation).1.cheatsList = engine.cheatsList ∧
      (machine.step engine operation).1.loadedTitleId = engine.loadedTitleId := by
  cases operation with
  | retroCheatSet index enabled code => exact ⟨rfl, rfl⟩
  | retroCheatReset => exact ⟨rfl, rfl⟩
  | retroUnloadGame => exact ⟨rfl, rfl⟩
  | connect | addCheat | removeCheat | updateCheat | loadCheatFile | runCallback => exact h.elim

/-- All others leave the map alone. -/
theorem step_of_not_isLibretro {operation : Operation} (h : ¬ operation.IsLibretro)
    (engine : CheatEngine) :
    (machine.step engine operation).1.libretroCheats = engine.libretroCheats := by
  cases operation with
  | connect processId => rfl
  | addCheat cheat => rfl
  | removeCheat index =>
      simp only [machine, CheatEngine.removeCheat]
      split <;> rfl
  | updateCheat index newCheat =>
      simp only [machine, CheatEngine.updateCheat]
      split <;> rfl
  | loadCheatFile titleId file =>
      simp only [machine, CheatEngine.loadCheatFile]
      split <;> rfl
  | runCallback cyclesLate => rfl
  | retroCheatSet | retroCheatReset | retroUnloadGame => exact absurd trivial h

/-- What an operation says about the entry of an index, if it says something. -/
def Operation.setting? (index : ℕ) : Operation → Option (Option GatewayCheat)
  | .retroCheatSet index' enabled code =>
      if index = index' then some (libretroCheat index enabled code) else none
  | .retroCheatReset | .retroUnloadGame => some none
  | _ => none

/-- What the last operation that says something about an index says. -/
def lastSetting (operations : List Operation) (index : ℕ) : Option GatewayCheat :=
  (operations.reverse.findSome? (Operation.setting? index)).join

theorem lookup_step (engine : CheatEngine) (operation : Operation) (index : ℕ) :
    (machine.step engine operation).1.libretroCheats.lookup index =
      (operation.setting? index).getD (engine.libretroCheats.lookup index) := by
  by_cases h : operation.IsLibretro
  · cases operation with
    | retroCheatSet index' enabled code =>
        simp only [machine, retroCheatSet, CheatEngine.setLibretroCheat, Operation.setting?]
        by_cases hindex : index = index'
        · subst hindex
          cases libretroCheat index enabled code <;> simp
        · cases libretroCheat index' enabled code <;> simp [hindex]
    | retroCheatReset => rfl
    | retroUnloadGame => rfl
    | connect | addCheat | removeCheat | updateCheat | loadCheatFile | runCallback => exact h.elim
  · rw [step_of_not_isLibretro h]
    cases operation with
    | connect | addCheat | removeCheat | updateCheat | loadCheatFile | runCallback => rfl
    | retroCheatSet | retroCheatReset | retroUnloadGame => exact absurd trivial h

/-- The map holds for every index what was set last. -/
theorem lookup_run (operations : List Operation) (index : ℕ) :
    (machine.run .initial operations).libretroCheats.lookup index =
      lastSetting operations index := by
  induction operations using List.reverseRecOn with
  | nil => rfl
  | append_singleton operations operation ih =>
      rw [Machine.run_append, Machine.run, Machine.run, lookup_step, ih, lastSetting, lastSetting,
        List.reverse_append, List.reverse_singleton, List.singleton_append, List.findSome?_cons]
      cases operation.setting? index <;> rfl

/-- **Cheats that run are cheats that are switched on.** After any history and the sequence of the
frontend, a run executes the enabled entries of the list, then the active cheats of the frontend
that have a code in the order of their indices, and schedules the next run once. The operations of
the frontend do not change the list or the loaded title, those on the list do not change the map,
and the map holds for every index what was set last: nothing after a reset or when a game has been
unloaded. -/
theorem cheats_of_history (history : List Operation) :
    let engine := machine.run .initial history
    (∀ cheats cyclesLate,
      (machine.run engine (updateCheatCodes cheats)).runCallback cyclesLate =
        (engine.cheatsList.filter (·.enabled)).map (.execute · engine.processId) ++
          (gatewayCheats cheats).map (.execute · engine.processId) ++
          [.scheduleEvent (CheatEngine.runIntervalTicks - cyclesLate)]) ∧
      (∀ operation : Operation, operation.IsLibretro →
        (machine.step engine operation).1.cheatsList = engine.cheatsList ∧
          (machine.step engine operation).1.loadedTitleId = engine.loadedTitleId) ∧
      (∀ operation : Operation, ¬ operation.IsLibretro →
        (machine.step engine operation).1.libretroCheats = engine.libretroCheats) ∧
      (∀ index, engine.libretroCheats.lookup index = lastSetting history index) ∧
      ∀ operation ∈ [Operation.retroCheatReset, .retroUnloadGame],
        (machine.step engine operation).1.libretroCheats.entries = [] := by
  intro engine
  refine ⟨fun cheats cyclesLate => ?_, fun _ h => step_of_isLibretro h engine,
    fun _ h => step_of_not_isLibretro h engine, lookup_run history, ?_⟩
  · obtain ⟨hlist, hprocess, hentries⟩ := run_updateCheatCodes cheats engine
    have hall : (gatewayCheats cheats).filter (·.enabled) = gatewayCheats cheats :=
      List.filter_eq_self.mpr fun gateway hmem => enabled_of_mem_gatewayCheats hmem
    simp only [CheatEngine.runCallback, hlist, hprocess, hentries, map_snd_gatewayEntries, hall]
  · intro operation hmem
    simp only [List.mem_cons, List.not_mem_nil, or_false] at hmem
    rcases hmem with rfl | rfl <;> rfl

/-- Two lines that the frontend writes with a separator between them. -/
example : gatewayCheats [⟨false, "A".toList⟩, ⟨true, "B\nC".toList⟩, ⟨true, []⟩] =
    [⟨"libretro:1".toList, "B\nC".toList, [], true⟩] := by decide

end ManicRoom.Cheats
