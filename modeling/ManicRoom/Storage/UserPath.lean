/-
# The user paths

`file_util.cpp` keeps the directories of the emulator in a global map from keys to texts.
`SetUserPath` fills it with `emplace`, which keeps an entry that is there, and `GetUserPath`
fills it when it is asked first. In the experimental build `SetUserPath` clears the map
before it uses a path of its own. The names of the directories are constants of a header
and parameters here; so is what the environment says about the default paths.
-/

import ManicRoom.Foundation.Machine
import ManicRoom.Foundation.Path

namespace ManicRoom.Storage

open ManicRoom.Foundation

/-- `FileUtil::UserPath`, as far as `file_util.cpp` fills it. -/
inductive UserPath
  | userDir
  | sdmcDir
  | nandDir
  | sysDataDir
  | logDir
  | cheatsDir
  | dllDir
  | shaderDir
  | dumpDir
  | loadDir
  | statesDir
  | iconsDir
  | configDir
  | cacheDir
  | legacyCitraUserDir
  | legacyLime3DSUserDir
  | legacyCitraConfigDir
  | legacyCitraCacheDir
  | legacyLime3DSConfigDir
  | legacyLime3DSCacheDir
  deriving DecidableEq, Repr

/-- The directory names, each with its separator at the end. -/
structure Constants where
  /-- `SDMC_DIR DIR_SEP` and so on. -/
  folder : UserPath → Text
  /-- `USERDATA_DIR DIR_SEP` -/
  userData : Text
  /-- `EMU_DATA_DIR DIR_SEP` -/
  emuData : Text
  /-- `EMU_APPLE_DATA_DIR DIR_SEP` -/
  emuAppleData : Text
  /-- `LEGACY_CITRA_DATA_DIR DIR_SEP` -/
  legacyCitraData : Text
  /-- `LEGACY_CITRA_APPLE_DATA_DIR DIR_SEP` -/
  legacyCitraAppleData : Text
  /-- `LEGACY_LIME3DS_DATA_DIR DIR_SEP` -/
  legacyLime3DSData : Text
  /-- `LEGACY_LIME3DS_APPLE_DATA_DIR DIR_SEP` -/
  legacyLime3DSAppleData : Text

/-- Short names. -/
instance : Inhabited Constants where
  default :=
    { folder := fun key => match key with
        | .sdmcDir => "sdmc/".toList
        | .nandDir => "nand/".toList
        | .sysDataDir => "sysdata/".toList
        | .configDir => "config/".toList
        | .cacheDir => "cache/".toList
        | _ => "other/".toList
      userData := "user/".toList
      emuData := "emu/".toList
      emuAppleData := "Library/emu/".toList
      legacyCitraData := "citra/".toList
      legacyCitraAppleData := "Library/citra/".toList
      legacyLime3DSData := "lime3ds/".toList
      legacyLime3DSAppleData := "Library/lime3ds/".toList }

/-- What the default paths depend on. -/
structure Surroundings where
  /-- `GetCurrentDir()` -/
  currentDir : Option Text
  /-- `Exists(path)` -/
  pathExists : Text → Bool
  /-- `GetHomeDirectory()` -/
  home : Text
  /-- `getenv("XDG_DATA_HOME")`, `getenv("XDG_CONFIG_HOME")` and `getenv("XDG_CACHE_HOME")` -/
  dataHome : Option Text
  configHome : Option Text
  cacheHome : Option Text
  deriving Inhabited

/-! ## The map -/

/-- `std::unordered_map<UserPath, std::string>`: the first entry of a key counts. -/
abbrev PathMap := List (UserPath × Text)

namespace PathMap

/-- `m[key] = value` -/
def assign (m : PathMap) (key : UserPath) (value : Text) : PathMap := (key, value) :: m

/-- `m.emplace(key, value)` -/
def emplace (m : PathMap) (key : UserPath) (value : Text) : PathMap :=
  if (m.lookup key).isSome then m else m.assign key value

/-- `m[key]`, which makes an empty entry if there is none. -/
def touch (m : PathMap) (key : UserPath) : PathMap := m.emplace key []

@[simp]
theorem lookup_assign (m : PathMap) (key key' : UserPath) (value : Text) :
    (m.assign key value).lookup key' = if key' = key then some value else m.lookup key' := by
  rw [assign, List.lookup_cons]
  by_cases h : key' = key
  · simp [h]
  · rw [beq_false_of_ne h, if_neg h]

@[simp]
theorem lookup_emplace (m : PathMap) (key key' : UserPath) (value : Text) :
    (m.emplace key value).lookup key' =
      if key' = key then some ((m.lookup key).getD value) else m.lookup key' := by
  unfold emplace
  cases hold : m.lookup key with
  | none => simp
  | some old =>
      by_cases h : key' = key
      · simp [h, hold]
      · simp [h]

end PathMap

/-- `g_paths` and `g_default_paths`. -/
structure PathMaps where
  paths : PathMap
  defaults : PathMap
  deriving DecidableEq, Repr, Inhabited

/-! ## The functions -/

section Functions

variable (constants : Constants)

/-- The keys that `SetUserPath` derives from the user directory at its end. -/
def derivedKeys : List UserPath :=
  [.sdmcDir, .nandDir, .sysDataDir, .logDir, .cheatsDir, .dllDir, .shaderDir, .dumpDir, .loadDir,
    .statesDir, .iconsDir]

/-- `g_paths.emplace(key, user_path + key_DIR DIR_SEP)`. -/
def derive (user : Text) (m : PathMap) (key : UserPath) : PathMap :=
  m.emplace key (user ++ constants.folder key)

/-- `GetUserDirectory(envvar) + DIR_SEP`, with the subdirectory that is used if there is no such
variable. -/
def userDirectory (around : Surroundings) (directory? : Option Text) (subdirectory : Text) : Text :=
  directory?.getD (around.home ++ subdirectory) ++ ['/']

/-- The default paths: the user directory, and the map with what goes along with it. -/
def defaultPaths (around : Surroundings) (m : PathMap) : Text × PathMap :=
  let m := (m.touch .legacyCitraUserDir).touch .legacyLime3DSUserDir
  match around.currentDir.filter fun here => around.pathExists (here ++ constants.userData) with
  | some here =>
      let user := here ++ constants.userData
      (user, derive constants user (derive constants user (m.assign .userDir user) .configDir)
        .cacheDir)
  | none =>
      let dataHome := userDirectory around around.dataHome "/.local/share".toList
      let configHome := userDirectory around around.configHome "/.config".toList
      let cacheHome := userDirectory around around.cacheHome "/.cache".toList
      let m := m.emplace .legacyCitraConfigDir (configHome ++ constants.legacyCitraData)
      let m := m.emplace .legacyCitraCacheDir (cacheHome ++ constants.legacyCitraData)
      let m := m.emplace .legacyLime3DSConfigDir (configHome ++ constants.legacyLime3DSData)
      let m := m.emplace .legacyLime3DSCacheDir (cacheHome ++ constants.legacyLime3DSData)
      -- Without directories of an earlier set-up macOS paths are used.
      if around.pathExists (dataHome ++ constants.emuData) ∨
          around.pathExists (configHome ++ constants.emuData) ∨
          around.pathExists (cacheHome ++ constants.emuData) then
        let user := dataHome ++ constants.emuData
        let m := (m.assign .userDir user).assign .legacyCitraUserDir
          (dataHome ++ constants.legacyCitraData)
        let m := m.assign .legacyLime3DSUserDir (dataHome ++ constants.legacyLime3DSData)
        (user, (m.emplace .configDir (configHome ++ constants.emuData)).emplace .cacheDir
          (cacheHome ++ constants.emuData))
      else
        let home := around.home ++ ['/']
        let user := home ++ constants.emuAppleData
        let m := (m.assign .userDir user).assign .legacyCitraUserDir
          (home ++ constants.legacyCitraAppleData)
        let m := m.assign .legacyLime3DSUserDir (home ++ constants.legacyLime3DSAppleData)
        (user, derive constants user (derive constants user m .configDir) .cacheDir)

/-- `SetUserPath(path)`, where `CreateFullPath(path)` returns `created`. -/
def setUserPath (path : Text) (created : Bool) (around : Surroundings) (s : PathMaps) :
    PathMaps :=
  let m := if path = [] then s.paths else []
  let m := m.touch .userDir
  let chosen :=
    if path ≠ [] ∧ created then
      (path, derive constants path (derive constants path (m.assign .userDir path) .configDir)
        .cacheDir)
    else defaultPaths constants around m
  let m := derivedKeys.foldl (derive constants chosen.1) chosen.2
  { paths := m, defaults := m }

/-- `GetUserPath(key)` -/
def getUserPath (key : UserPath) (around : Surroundings) (s : PathMaps) : PathMaps × Text :=
  let s := if s.paths = [] then setUserPath constants [] false around s else s
  ({ s with paths := s.paths.touch key }, (s.paths.lookup key).getD [])

/-- `GetDefaultUserPath(key)` -/
def getDefaultUserPath (key : UserPath) (around : Surroundings) (s : PathMaps) : PathMaps × Text :=
  let s := if s.defaults = [] then setUserPath constants [] false around s else s
  ({ s with defaults := s.defaults.touch key }, (s.defaults.lookup key).getD [])

end Functions

/-! ## Histories of calls -/

/-- A call, with what the environment contributes to it. -/
inductive Call
  | setUserPath (path : Text) (created : Bool) (around : Surroundings)
  | getUserPath (key : UserPath) (around : Surroundings)
  | getDefaultUserPath (key : UserPath) (around : Surroundings)

/-- The maps as a machine that answers calls. -/
def machine (constants : Constants) : Machine PathMaps Call Text where
  step s
    | .setUserPath path created around => (setUserPath constants path created around s, [])
    | .getUserPath key around => getUserPath constants key around s
    | .getDefaultUserPath key around => getDefaultUserPath constants key around s

/-- Both maps are empty at first. -/
def start : PathMaps where
  paths := []
  defaults := []

end ManicRoom.Storage
