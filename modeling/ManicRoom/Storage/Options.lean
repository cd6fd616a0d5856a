/-
# The storage options and the load guard

`ParseStorageOptions` makes the user directory out of the save directory of the frontend, and
`do_load_game` starts a game only if the user directory ends as that of the experiment does.
The one appends a separator and `3DS/` where they are missing, the other looks at the end of
the result, so that a game is loaded for the four ways to write the directory and no other.
-/

import Mathlib.Data.List.Infix
import ManicRoom.Storage.Isolation

namespace ManicRoom.Storage

open ManicRoom.Foundation

/-- `MANIC_ROOM_EXPERIMENT` -/
def manicRoomExperiment : Bool := true

/-- What the frontend answers. -/
structure Frontend where
  /-- `GetSaveDir()` -/
  saveDir : Text
  /-- `GetSystemDir()` -/
  systemDir : Text
  /-- `config::storage::use_virtual_sd` and `config::storage::use_libretro_save_path` -/
  useVirtualSd : Option Text
  useLibretroSavePath : Option Text

/-- What the options are about. -/
structure Settings where
  /-- `Settings::values.use_virtual_sd` -/
  useVirtualSd : Bool
  maps : PathMaps

section Functions

variable (constants : Constants) (around : Surroundings)

/-- `target_dir`, before anything is appended. -/
def Frontend.directory (frontend : Frontend) : Text :=
  if frontend.saveDir = [] then frontend.systemDir else frontend.saveDir

/-- `target_dir`, after what is missing has been appended. -/
def targetDir (directory : Text) : Text :=
  let directory := if "/".toList <:+ directory then directory else directory ++ "/".toList
  if "3DS/".toList <:+ directory ∨ "3ds/".toList <:+ directory then directory
  else directory ++ "3DS/".toList

/-- `ParseStorageOptions()`, where `CreateDir` and `CreateFullPath` of the directory return `made`
and `created`. What is logged includes the user path. -/
def parseStorageOptions (frontend : Frontend) (made created : Bool) (s : Settings) : Settings :=
  let s := { s with
    useVirtualSd := frontend.useVirtualSd.getD "enabled".toList = "enabled".toList }
  let useLibretroSaves := decide
    (frontend.useLibretroSavePath.getD "LibRetro Default".toList = "LibRetro Default".toList)
  if manicRoomExperiment || useLibretroSaves then
    let maps :=
      if frontend.directory ≠ [] ∧ made then
        setUserPath constants (targetDir frontend.directory) created around s.maps
      else s.maps
    { s with maps := (getUserPath constants .userDir around maps).1 }
  else s

/-- `do_load_game()`, up to `Core::System::Load`: whether that is reached. -/
def doLoadGame (maps : PathMaps) : PathMaps × Bool :=
  let answer := getUserPath constants .userDir around maps
  (answer.1, decide ("/RoomExperiment-v1/3DS/".toList <:+ answer.2))

end Functions

/-! ## Ends of texts -/

/-- How the directory of the experiment may be written. -/
def endings : List Text := ["".toList, "/".toList, "/3DS".toList, "/3DS/".toList]

/-- The directory is that of the experiment, below this one. -/
def IsExperiment (x directory : Text) : Prop :=
  ∃ ending ∈ endings, directory = x ++ "/RoomExperiment-v1".toList ++ ending

theorem IsExperiment.targetDir_eq {x directory : Text} (h : IsExperiment x directory) :
    targetDir directory = x ++ "/RoomExperiment-v1/3DS/".toList := by
  obtain ⟨ending, hmem, rfl⟩ := h
  simp only [endings, List.mem_cons, List.not_mem_nil, or_false] at hmem
  rcases hmem with rfl | rfl | rfl | rfl <;> simp [targetDir, List.suffix_iff_eq_drop]

/-- The directory with a separator, and without it. -/
theorem exists_separated (directory : Text) :
    ∃ e, (directory = e ∨ directory = e ++ "/".toList) ∧
      (if "/".toList <:+ directory then directory else directory ++ "/".toList) =
        e ++ "/".toList := by
  split
  · next hends =>
    obtain ⟨e, he⟩ := hends
    exact ⟨e, .inr he.symm, he.symm⟩
  · exact ⟨directory, .inl rfl, rfl⟩

/-- The end that the load guard asks for is there only if the directory is that of the
experiment. -/
theorem exists_isExperiment {directory : Text}
    (h : "/RoomExperiment-v1/3DS/".toList <:+ targetDir directory) :
    ∃ x, IsExperiment x directory := by
  obtain ⟨e, hdirectory, hseparated⟩ := exists_separated directory
  unfold targetDir at h
  simp only [hseparated] at h
  split at h
  · -- Nothing is appended: the whole end is that of the directory.
    have hend : "/RoomExperiment-v1/3DS".toList ++ "/".toList <:+ e ++ "/".toList := h
    obtain ⟨x, rfl⟩ := List.suffix_append_self_iff.mp hend
    refine ⟨x, ?_⟩
    rcases hdirectory with rfl | rfl
    · exact ⟨"/3DS".toList, by simp [endings], by simp⟩
    · exact ⟨"/3DS/".toList, by simp [endings], by simp⟩
  · have hend : "/RoomExperiment-v1".toList ++ "/3DS/".toList <:+ e ++ "/3DS/".toList := by
      rw [List.append_assoc] at h
      exact h
    obtain ⟨x, rfl⟩ := List.suffix_append_self_iff.mp hend
    refine ⟨x, ?_⟩
    rcases hdirectory with rfl | rfl
    · exact ⟨"".toList, by simp [endings], by simp⟩
    · exact ⟨"/".toList, by simp [endings], rfl⟩

/-- What has been appended is not appended again. -/
theorem targetDir_targetDir (directory : Text) :
    targetDir (targetDir directory) = targetDir directory := by
  have hstays {e : Text} (h : "3DS/".toList <:+ e ∨ "3ds/".toList <:+ e) : targetDir e = e := by
    have hends : "/".toList <:+ e := by
      rcases h with h | h
      · exact List.IsSuffix.trans (by decide) h
      · exact List.IsSuffix.trans (by decide) h
    rw [targetDir, if_pos hends, if_pos h]
  apply hstays
  obtain ⟨e, -, hseparated⟩ := exists_separated directory
  unfold targetDir
  simp only [hseparated]
  split
  · next hends => exact hends
  · exact .inl (List.suffix_append _ _)

theorem targetDir_ne_nil (directory : Text) : targetDir directory ≠ [] := by
  obtain ⟨e, -, hseparated⟩ := exists_separated directory
  unfold targetDir
  simp only [hseparated]
  split <;> simp

/-! ## The options and the guard -/

section Options

variable {constants : Constants} {around : Surroundings} {maps : PathMaps}

/-- Asking for the user directory where it is known. -/
theorem getUserPath_userDir {user : Text} (h : maps.paths.lookup .userDir = some user) :
    getUserPath constants .userDir around maps =
      ({ maps with paths := maps.paths.touch .userDir }, user) := by
  have hpaths : maps.paths ≠ [] := by
    intro hempty
    rw [hempty] at h
    exact nomatch h
  simp [getUserPath, hpaths, h]

/-- The user directory after the options. -/
theorem lookup_parseStorageOptions {frontend : Frontend} (hdirectory : frontend.directory ≠ [])
    (s : Settings) :
    (parseStorageOptions constants around frontend true true s).maps.paths.lookup .userDir =
      some (targetDir frontend.directory) := by
  have hset := (@lookup_setUserPath constants _
    (targetDir_ne_nil frontend.directory) around s.maps).1.userDir
  simp only [parseStorageOptions, manicRoomExperiment, Bool.true_or, if_true, ne_eq, hdirectory,
    not_false_eq_true, and_self]
  rw [getUserPath_userDir hset]
  simp [PathMap.touch, hset]

theorem doLoadGame_iff {user : Text} (h : maps.paths.lookup .userDir = some user) :
    (doLoadGame constants around maps).2 = true ↔
      "/RoomExperiment-v1/3DS/".toList <:+ user := by
  rw [doLoadGame, getUserPath_userDir h, decide_eq_true_iff]

/-- **Normalisation and the load guard agree.** With a save directory, or else a system
directory, that can be made, the guard lets a game be loaded exactly if that directory is
written in one of the four ways; the user directory is then that of the experiment. As a save
directory it leads to itself, and the option for the save path does not matter. -/
theorem loadGuard_iff (constants : Constants) (around : Surroundings) (frontend : Frontend)
    (hdirectory : frontend.directory ≠ []) (s : Settings) :
    let after := parseStorageOptions constants around frontend true true s
    ((doLoadGame constants around after.maps).2 = true ↔
        ∃ x, IsExperiment x frontend.directory) ∧
      (∀ x, IsExperiment x frontend.directory →
        after.maps.paths.lookup .userDir = some (x ++ "/RoomExperiment-v1/3DS/".toList)) ∧
      (∀ user, after.maps.paths.lookup .userDir = some user → ∀ s',
        (parseStorageOptions constants around { frontend with saveDir := user } true true
          s').maps.paths.lookup .userDir = some user) ∧
      ∀ option, parseStorageOptions constants around
        { frontend with useLibretroSavePath := option } true true s = after := by
  have hlookup := @lookup_parseStorageOptions constants around frontend hdirectory s
  refine ⟨?_, fun x hx => ?_, fun user huser s' => ?_, fun option => rfl⟩
  · rw [doLoadGame_iff hlookup]
    constructor
    · exact exists_isExperiment
    · rintro ⟨x, hx⟩
      rw [hx.targetDir_eq]
      exact List.suffix_append x _
  · rw [hlookup, hx.targetDir_eq]
  · rw [hlookup, Option.some.injEq] at huser
    have hagain : ({ frontend with saveDir := user } : Frontend).directory = user := by
      rw [Frontend.directory, if_neg (huser ▸ targetDir_ne_nil _)]
    rw [lookup_parseStorageOptions (by rw [hagain]; exact huser ▸ targetDir_ne_nil _), hagain,
      ← huser, targetDir_targetDir]

/-- A save directory in the last of the four ways. -/
theorem loadGuard_iff_documents :
    (doLoadGame default default (parseStorageOptions default default
      { saveDir := "/Documents/RoomExperiment-v1/3DS/".toList, systemDir := [],
        useVirtualSd := none, useLibretroSavePath := none } true true
      { useVirtualSd := false, maps := default }).maps).2 = true :=
  (loadGuard_iff default default _ (by decide) _).1.mpr
    ⟨"/Documents".toList, "/3DS/".toList, by decide, by decide⟩

end Options

end ManicRoom.Storage
