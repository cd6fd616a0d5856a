/-
# What the importer runs on

`cia_update.cpp` works on the file system, on the user paths and a setting of the emulator
and on the record that it fills for its caller. It calls the cancel callback, the system
and the installer of the emulator, and all of them behave as they like. The host stands for
them: it answers the polls, lets any system call fail, creates the destination of the import
at any moment and decides what the emulator's functions do. This module gives the state, the
host and the operations that the importer is written with; every operation that can fail is
one tick of a clock.
-/

import ManicRoom.Cia.Policy
import ManicRoom.Storage.FullPath
import ManicRoom.Storage.UserPath

namespace ManicRoom.Cia

open ManicRoom.Foundation ManicRoom.Storage

/-! ## The host -/

abbrev Files := FileTree Filename Bytes

/-- `CryptoPP::SHA256`: a hash that takes its input in pieces. -/
structure StreamingHash where
  State : Type
  initial : State
  update : State → Bytes → State
  final : State → Bytes
  update_nil : ∀ state, update state [] = state
  update_append : ∀ state left right,
    update (update state left) right = update state (left ++ right)
  length_final : ∀ state, (final state).length = 32

/-- Bytes that are collected, and the first of them. -/
instance : Inhabited StreamingHash where
  default :=
    { State := Bytes
      initial := []
      update := List.append
      final := fun bytes => (bytes ++ List.replicate 32 0).take 32
      update_nil := List.append_nil
      update_append := List.append_assoc
      length_final := by simp }

/-- The hash of bytes. -/
def StreamingHash.digest (hash : StreamingHash) (bytes : Bytes) : Bytes :=
  hash.final (hash.update hash.initial bytes)

/-- How a system call goes wrong. -/
inductive Fault
  /-- It fails, in the way the code tests for. -/
  | fails
  | throws
  deriving DecidableEq, Repr

/-- `FileSys::TitleMetadata`, after it has been loaded. -/
structure TitleMetadata where
  titleId : UInt64
  titleVersion : UInt32
  contentCount : UInt64
  /-- `GetContentSizeByIndex(i)` -/
  contentSize : ℕ → UInt64

/-- `FileSys::CIAContainer`, after it has been loaded. -/
structure Container where
  titleMetadata : TitleMetadata
  /-- `GetTicket().GetTitleID()` -/
  ticketTitleId : UInt64

/-- `Service::FS::MediaType` -/
inductive MediaType
  | nand
  | sdmc
  | gameCard
  deriving DecidableEq, Repr

/-- A call of the `Service::AM::CIAFile`. -/
inductive InstallerCall
  | create (media : MediaType)
  | write (offset : UInt64) (block : Bytes)
  | close
  | destroy
  deriving DecidableEq, Repr

/-- What a call of the installer comes back with. -/
structure InstallerReply where
  throws : Bool
  /-- How much `Write` says it has written. -/
  written : Option UInt64
  /-- `GetInstallResults()`, whether each is a success. -/
  results : List Bool

/-- Everything that the importer does not decide itself. -/
structure Host where
  /-- Another import holds the mutex. -/
  busy : Bool
  /-- `ManicCIAHasFrontend()` -/
  hasFrontend : Bool
  /-- `Core::System::GetInstance().IsPoweredOn()` -/
  poweredOn : Bool
  /-- `getenv("HOME")` -/
  home : Option Text
  /-- The working directory. -/
  here : List Filename
  constants : Constants
  around : Surroundings
  /-- The answers of the cancel callback, if there is one. -/
  cancel : Option (ℕ → Bool)
  /-- What goes wrong at a moment. -/
  fault : ℕ → Option Fault
  /-- How many directories have been made when making them goes wrong. -/
  progress : ℕ → ℕ
  /-- What another process creates at the destination at a moment. -/
  intrude : ℕ → Option (Subtree Filename Bytes)
  /-- `fs::space(root).available` -/
  available : ℕ → UInt64
  /-- What `mkdtemp` puts for the `XXXXXX`. -/
  suffix : ℕ → { text : Text // '/' ∉ text }
  hash : StreamingHash
  /-- `CheckCIAToInstall` of a file: whether it is compressed, if it may be installed. -/
  checkCIAToInstall : Bytes → Option Bool
  /-- `CIAContainer::Load` -/
  loadContainer : Bytes → Option Container
  /-- `TitleMetadata::Load` -/
  loadTitleMetadata : Bytes → Option TitleMetadata
  /-- `GetTitleMediaType` -/
  titleMediaType : UInt64 → MediaType
  /-- `GetTitlePath`, from the SD card directory. -/
  titlePath : Text → UInt64 → Text
  /-- `GetTitleContentPath`, which looks for the metadata of the title. -/
  titleContentPath : Files → Text → UInt64 → ℕ → Text
  /-- `GetTitleMetadataPath` -/
  titleMetadataPath : Files → Text → UInt64 → Text
  /-- `Service::AM::CIAFile`: what a call does to the files and comes back with, after all
  its calls so far and under these user paths. -/
  installer : List InstallerCall → PathMap → Files → Files × InstallerReply

/-- A host on which nothing goes wrong and nothing is ever installed. -/
instance : Inhabited Host where
  default :=
    { busy := false
      hasFrontend := false
      poweredOn := false
      home := none
      here := []
      constants := default
      around := default
      cancel := none
      fault := fun _ => none
      progress := fun _ => 0
      intrude := fun _ => none
      available := fun _ => 0
      suffix := fun _ => ⟨[], List.not_mem_nil⟩
      hash := default
      checkCIAToInstall := fun _ => none
      loadContainer := fun _ => none
      loadTitleMetadata := fun _ => none
      titleMediaType := fun _ => .sdmc
      titlePath := fun sdmc _ => sdmc ++ "title/".toList
      titleContentPath := fun _ sdmc _ _ => sdmc ++ "title/content".toList
      titleMetadataPath := fun _ sdmc _ => sdmc ++ "title/metadata".toList
      installer := fun _ _ files => (files, ⟨false, none, []⟩) }

/-! ## The state -/

/-- What a block of at most 64 KiB is used for. -/
inductive BlockUse
  | copy
  | hash
  | install
  | rehash
  deriving DecidableEq, Repr

/-- History: what happened that a cancellation is about. -/
inductive Event
  | poll (answer : Bool)
  | block (use : BlockUse) (offset : ℕ) (bytes : Bytes)
  /-- The rename, whether it succeeds or not. -/
  | commit
  deriving DecidableEq, Repr

/-- `manic_cia_result_v1` -/
structure Result where
  status : Status
  titleId : UInt64
  titleVersion : UInt32
  contentCount : UInt32
  contentBytes : UInt64
  deriving DecidableEq, Repr, Inhabited

structure World where
  files : Files
  storage : PathMaps
  /-- `Settings::values.compress_cia_installs` -/
  compressCiaInstalls : Bool
  result : Result
  clock : ℕ
  /-- The destination, as soon as it is known. -/
  destination : Option (Path Filename)
  /-- History: the latest event first. -/
  events : List Event
  memory : Memory
  /-- History: the calls of the installer, with the user paths at that moment. -/
  installer : List (InstallerCall × PathMap)
  /-- History: where another process has created something. -/
  intruded : List (List Filename)
  /-- History: what could not be removed, and at which moment. -/
  stranded : List (Path Filename × ℕ)
  deriving Inhabited

/-- Programs of the importer. -/
abbrev Import := Program Stop World

/-- Bytes that a file had when it was opened, if it could be. -/
abbrev Stream := Option Bytes

/-! ## Operations -/

/-- Use a function that works on bytes alone. -/
def policy {α : Type} (p : Program Stop Memory α) : Import α :=
  p.zoom World.memory fun memory w => { w with memory }

def record (event : Event) : Import Unit := modify fun w => { w with events := event :: w.events }

section Operations

variable (host : Host)

/-- How many polls there were. -/
def polls (events : List Event) : ℕ :=
  (events.filter fun event => match event with
    | .poll _ => true
    | _ => false).length

/-- `Cancel::Check()` -/
def check : Import Unit :=
  match host.cancel with
  | none => pure ()
  | some answers => do
      let w ← get
      let answer := answers (polls w.events)
      record (.poll answer)
      if answer then throw (.failure .cancelled)

/-- Another process may create the destination. -/
def intruded (w : World) : World :=
  match host.intrude w.clock, w.destination with
  | some subtree, some destination =>
      match w.files.locate false host.here destination with
      | .ok place =>
          match w.files.plant? place subtree with
          | some files => { w with files, intruded := place :: w.intruded }
          | none => w
      | .error _ => w
  | _, _ => w

/-- A moment passes. -/
def pass (w : World) : World := { intruded host w with clock := w.clock + 1 }

/-- Something that can go wrong. -/
def attempt (failure : Stop := .exception) : Import Unit := do
  let w ← get
  modify (pass host)
  match host.fault w.clock with
  | none => pure ()
  | some .fails => throw failure
  | some .throws => throw .exception

/-! ### Files -/

/-- What a path leads to, after its links. -/
def status (path : Path Filename) : Import (Option (Node Filename Bytes)) := do
  attempt host
  let w ← get
  match w.files.stat host.here path with
  | .ok node => pure node
  | .error _ => throw .exception

/-- What a path leads to, which may be a link. -/
def symlinkStatus (path : Path Filename) : Import (Option (Node Filename Bytes)) := do
  attempt host
  let w ← get
  match w.files.lstat host.here path with
  | .ok node => pure node
  | .error _ => throw .exception

/-- `fs::is_regular_file(path)` -/
def isRegularFile (path : Path Filename) : Import Bool := do
  let node ← status host path
  pure (match node with
    | some (.file _) => true
    | _ => false)

/-- `fs::is_symlink(fs::symlink_status(path))` -/
def isSymlink (path : Path Filename) : Import Bool := do
  let node ← symlinkStatus host path
  pure (match node with
    | some (.link _) => true
    | _ => false)

/-- `fs::exists(path)` -/
def pathExists (path : Path Filename) : Import Bool := do
  let node ← status host path
  pure node.isSome

/-- `fs::file_size(path)`, which fails with `EOVERFLOW` where `off_t` cannot hold the size. -/
def fileSize (path : Path Filename) : Import UInt64 := do
  let node ← status host path
  match node with
  | some (.file content) =>
      if content.length < 2 ^ 63 then pure (UInt64.ofNat content.length) else throw .exception
  | _ => throw .exception

/-- `fs::weakly_canonical(path)` -/
def weaklyCanonical (path : Path Filename) : Import (Path Filename) := do
  attempt host
  let w ← get
  match w.files.weaklyCanonical host.here path with
  | .ok path => pure path
  | .error _ => throw .exception

/-- `std::ifstream in(path, std::ios::binary)` -/
def openStream (path : Path Filename) : Import Stream := do
  let w ← get
  modify (pass host)
  if host.fault w.clock = none then do
    let w ← get
    pure (w.files.readFile host.here path)
  else pure none

/-- `Read(in, offset, size)` of a file that has `limit` bytes as far as the caller knows. -/
def read (stream : Stream) (offset size limit : UInt64) : Import Bytes := do
  policy (note (.allocate size.toNat))
  policy (note (.read offset.toNat size.toNat limit.toNat))
  attempt host (.failure .invalidFile)
  match stream with
  | some data =>
      -- A stream cannot be positioned beyond `streamoff`, and a short read is refused.
      require (offset.toNat < 2 ^ 63 ∧ (size = 0 ∨ offset.toNat + size.toNat ≤ data.length))
      pure (slice data offset.toNat size.toNat)
  | none => throw (.failure .invalidFile)

/-- `fs::create_directories(path)` -/
def createDirectories (path : Path Filename) : Import Unit := do
  let w ← get
  modify (pass host)
  let limit := (host.fault w.clock).map fun _ => host.progress w.clock
  let w ← get
  let made := w.files.createDirectories host.here path.absolute limit [] path.parts
  set { w with files := made.1 }
  if limit.isSome ∨ made.2 = false then throw .exception

/-- `fs::create_directory(path)` -/
def createDirectory (path : Path Filename) : Import Unit := do
  attempt host
  let w ← get
  match w.files.mkdir host.here path with
  | some files => set { w with files }
  | none =>
      match w.files.stat host.here path with
      | .ok (some .directory) => pure ()
      | _ => throw .exception

/-- `mkdtemp` of `directory/.cia-import-XXXXXX` -/
def makeTemporary (directory : Path Filename) : Import (Path Filename) := do
  let w ← get
  attempt host (.failure .installFailed)
  match Filename.ofText? (".cia-import-".toList ++ (host.suffix w.clock).val) with
  | some name => do
      let path := directory / .ofPart (.name name)
      let w ← get
      match w.files.mkdir host.here path with
      | some files => do
          set { w with files }
          pure path
      | none => throw (.failure .installFailed)
  | none => throw (.failure .installFailed)

/-- `~Temporary()` -/
def removeTemporary (path : Path Filename) (w : World) : World :=
  let next := pass host w
  if host.fault w.clock = none then { next with files := next.files.removeAll host.here path }
  else { next with stranded := (path, w.clock) :: next.stranded }

/-- `renamex_np(source, target, RENAME_EXCL) == 0` -/
def renameExclusive (source target : Path Filename) : Import Bool := do
  let w ← get
  modify (pass host)
  record .commit
  if host.fault w.clock = none then do
    let w ← get
    match w.files.renameExclusive host.here source target with
    | some files => do
        set { w with files }
        pure true
    | none => pure false
  else pure false

/-! ### User paths -/

/-- `FileUtil::SetUserPath(text)`, which does not throw. -/
def switchUserPath (text : Text) (w : World) : World :=
  let next := pass host w
  let made := createFullPath next.files host.here (host.fault w.clock).isSome text
  { next with
    files := made.1
    storage := Storage.setUserPath host.constants text made.2 host.around next.storage }

/-- `FileUtil::GetUserPath(key)` -/
def userPath (key : UserPath) : Import Text := do
  let w ← get
  let answer := Storage.getUserPath host.constants key host.around w.storage
  set { w with storage := answer.1 }
  pure answer.2

/-! ### The installer -/

/-- A call of the installer. -/
def callInstaller (call : InstallerCall) (w : World) : World × InstallerReply :=
  let next := pass host w
  let done := host.installer (call :: next.installer.map Prod.fst) next.storage.paths next.files
  ({ next with
      files := done.1
      installer := (call, next.storage.paths) :: next.installer },
    done.2)

/-- A call that may throw. -/
def useInstaller (call : InstallerCall) : Import InstallerReply := do
  let w ← get
  let done := callInstaller host call w
  set done.1
  if done.2.throws then throw .exception
  pure done.2

end Operations

end ManicRoom.Cia
