/-
# The importer

`ManicCIA::Install` checks its arguments, copies the file to a staging directory, validates
the copy, has the installer of the emulator install it below the staging directory, reads
back what was installed and renames it to its destination. Two guards undo what must not
last: `Temporary` removes the staging directory, `Paths` sets the user paths and the setting
back. Each part of the function is a definition of its own here, in the order of the code.
-/

import ManicRoom.Cia.World

namespace ManicRoom.Cia

open ManicRoom.Foundation ManicRoom.Storage

section Importer

variable (host : Host)

/-! ## Paths -/

/-- A relative path, as it stands in the code. -/
def literal (text : String) : Path Filename := .parse text.toList

/-- The loop of `Directory`. -/
def stripSeparators (p : Path Filename) : Path Filename :=
  if p.parts ≠ [] ∧ p.endsEmpty then stripSeparators p.parent else p
termination_by p.trailing.toNat
decreasing_by
  obtain ⟨hparts, hends⟩ := ‹p.parts ≠ [] ∧ p.endsEmpty = true›
  have htrailing : p.trailing = true := by simpa [Path.endsEmpty, hparts] using hends
  simp [Path.parent, htrailing]

/-- `Directory(path)` -/
def directory (path : Path Filename) : Path Filename := stripSeparators path.normal

/-- `NoLinks(base, relative)`, with the elements of `relative` that are left. -/
def noLinksFrom (p : Path Filename) : List (Option (Foundation.Part Filename)) → Import Unit
  | [] => pure ()
  | part :: rest => do
      require (part ≠ some .up) .wrongEnvironment
      let p := p.appendElement part
      let link ← isSymlink host p
      require (link = false) .wrongEnvironment
      noLinksFrom p rest

/-- `NoLinks(base, relative)` -/
def noLinks (base relative : Path Filename) : Import Unit := do
  require (relative.absolute = false) .wrongEnvironment
  noLinksFrom host base relative.elements

/-- `Root(requested, documents)` -/
def root (requested documents : Path Filename) : Import (Path Filename) := do
  let canonical ← weaklyCanonical host documents
  let expected := canonical / literal "RoomExperiment-v1" / literal "3DS"
  let canonical ← weaklyCanonical host documents
  noLinks host canonical (literal "RoomExperiment-v1/3DS")
  let same ← pure requested.absolute <&&> do
    let canonical ← weaklyCanonical host requested
    pure (decide (canonical = expected))
  require same .wrongEnvironment
  pure expected

/-- `p.generic_string()+"/"` -/
def directoryText (p : Path Filename) : Text := p.render ++ ['/']

/-- `std::tolower` -/
def toLower (c : Char) : Char := if 'A' ≤ c ∧ c ≤ 'Z' then Char.ofNat (c.toNat + 32) else c

/-- `path.extension()` of a file name: from the last dot, which is not the first character. -/
def extension (filename : Text) : Text :=
  let ending := filename.reverse.takeWhile (· ≠ '.')
  if ending.length + 1 < filename.length then '.' :: ending.reverse else []

/-- `path.extension()` -/
def pathExtension (path : Path Filename) : Text :=
  match path.filename? with
  | some (.name filename) => extension filename.text
  | _ => []

/-! ## Blocks -/

/-- How many bytes come next. -/
def blockSize (size : UInt64) : UInt64 := min size 65536

theorem blockSize_pos {size : UInt64} (h : size ≠ 0) : 0 < (blockSize size).toNat := by
  have hpos : size.toNat ≠ 0 := fun h0 => h (UInt64.toNat_inj.mp h0)
  unfold blockSize
  rw [UInt64.min_def]
  split
  · omega
  · decide

theorem blockSize_le (size : UInt64) : (blockSize size).toNat ≤ size.toNat := by
  unfold blockSize
  rw [UInt64.min_def]
  split
  · exact Nat.le_refl _
  · next h =>
    rw [UInt64.le_iff_toNat_le] at h
    omega

theorem toNat_sub_blockSize (size : UInt64) :
    (size - blockSize size).toNat = size.toNat - (blockSize size).toNat :=
  UInt64.toNat_sub_of_le _ _ (UInt64.le_iff_toNat_le.mpr (blockSize_le size))

theorem toNat_add_blockSize {size offset : UInt64} (h : offset < size) :
    (offset + blockSize (size - offset)).toNat =
      offset.toNat + (blockSize (size - offset)).toNat := by
  have hle := blockSize_le (size - offset)
  have hsub := UInt64.toNat_sub_of_le size offset (Nat.le_of_lt h)
  have hlt := size.toNat_lt
  rw [UInt64.lt_iff_toNat_lt] at h
  rw [UInt64.toNat_add]
  exact Nat.mod_eq_of_lt (by omega)

/-- The loop of `Hash`. -/
def hashBlocks (stream : Stream) (use : BlockUse) (limit : UInt64) (offset size : UInt64)
    (state : host.hash.State) : Import host.hash.State :=
  if size ≠ 0 then do
    check host
    let n := blockSize size
    let b ← read host stream offset n limit
    record (.block use offset.toNat b)
    policy (note (.sum (offset.toNat + n.toNat)))
    policy (note (.difference size.toNat n.toNat))
    hashBlocks stream use limit (offset + n) (size - n) (host.hash.update state b)
  else pure state
termination_by size.toNat
decreasing_by
  have hpos := blockSize_pos ‹size ≠ 0›
  have hle := blockSize_le size
  rw [toNat_sub_blockSize]
  omega

/-- `Hash(in, offset, size, cancel)` -/
def hash (stream : Stream) (use : BlockUse) (limit : UInt64) (offset size : UInt64) :
    Import Bytes :=
  host.hash.final <$> hashBlocks host stream use limit offset size host.hash.initial

/-- The loop that takes a file in blocks, from an offset on. -/
def forBlocks (stream : Stream) (use : BlockUse) (size : UInt64)
    (body : UInt64 → Bytes → Import Unit) (offset : UInt64) : Import Unit :=
  if offset < size then do
    check host
    policy (note (.difference size.toNat offset.toNat))
    let n := blockSize (size - offset)
    let b ← read host stream offset n size
    record (.block use offset.toNat b)
    body offset b
    policy (note (.sum (offset.toNat + n.toNat)))
    forBlocks stream use size body (offset + n)
  else pure ()
termination_by size.toNat - offset.toNat
decreasing_by
  have hlt := ‹offset < size›
  have hle := UInt64.toNat_sub_of_le size offset (Nat.le_of_lt hlt)
  have hsum := toNat_add_blockSize hlt
  rw [UInt64.lt_iff_toNat_lt] at hlt
  have hpos := @blockSize_pos (size - offset) fun h => by
    rw [h] at hle
    simp only [UInt64.toNat_zero] at hle
    omega
  omega

/-! ## Validation -/

/-- `body`, `count` and `tid`. -/
structure Title where
  body : UInt64
  count : UInt64
  tid : UInt64
  deriving DecidableEq, Repr

/-- What is tested of the metadata before the contents. -/
def titleFields (tmdBytes : Bytes) : Program Stop Memory Title := do
  let body ← signedBody tmdBytes
  let least ← add body 0x9c4
  require (least.toNat ≤ tmdBytes.length)
  let count ← integer tmdBytes (body.toNat + 0x9e) 2 true
  let fits ← pure (decide (0 < count ∧ count ≤ 256)) <&&> do
    let last ← add (← add body 0x9c4) (← multiply count 0x30)
    pure (decide (last.toNat ≤ tmdBytes.length))
  require fits .unsupported
  let tid ← integer tmdBytes (body.toNat + 0x4c) 8 true
  require (tid >>> 32 = 0x0004000e) .unsupported
  pure { body, count, tid }

/-- What is tested of the ticket. -/
def ticketFields (ticket : Bytes) (tid : UInt64) : Program Stop Memory Unit := do
  let ticketBody ← signedBody ticket
  let least ← add (← add ticketBody 0x164) 8
  require (least.toNat ≤ ticket.length)
  let ticketId ← integer ticket (ticketBody.toNat + 0x9c) 8 true
  require (ticketId = tid)
  let indexSize ← integer ticket (ticketBody.toNat + 0x164 + 4) 4 true
  let fits ← pure (decide (0x14 ≤ indexSize)) <&&> do
    let last ← add (← add ticketBody 0x164) indexSize
    pure (decide (last.toNat ≤ ticket.length))
  require fits

/-- `ids`, `hashes` and `offset`, the variables of the loop over the contents. -/
structure Progress where
  ids : List UInt32
  hashes : List Bytes
  offset : UInt64
  deriving DecidableEq, Repr

/-- Where the record of a content begins in the metadata. -/
def recordOffset (title : Title) (i : ℕ) : ℕ := title.body.toNat + 0x9c4 + i * 0x30

/-- What is tested of a content record before its hash: `bytes` and the content id. -/
def recordFields (header tmdBytes : Bytes) (title : Title) (ending : UInt64) (i : ℕ)
    (progress : Progress) : Program Stop Memory (UInt64 × UInt32) := do
  let c := recordOffset title i
  let bytes ← integer tmdBytes (c + 8) 8 true
  let listed ← ((· == UInt64.ofNat i) <$> integer tmdBytes (c + 4) 2 true) <&&> do
    let byte ← access header (0x20 + i / 8)
    pure (decide (byte &&& 0x80 >>> UInt8.ofNat (i % 8) ≠ 0))
  require listed .unsupported
  let flags ← integer tmdBytes (c + 6) 2 true
  require (flags &&& (1 ||| 0x4000 ||| 0x8000) = 0) .unsupported
  let id ← integer tmdBytes c 4 true
  require (id.toUInt32 ∉ progress.ids)
  let fits ← pure (decide (0x200 ≤ bytes)) <&&> do
    let left ← subtract ending progress.offset
    pure (decide (bytes ≤ left))
  require fits
  pure (bytes, id.toUInt32)

/-- `std::equal(hash.begin(), hash.end(), data + p)` -/
def equal : Bytes → Bytes → ℕ → Program Stop Memory Bool
  | [], _, _ => pure true
  | first :: hash, data, p => do
      let byte ← access data p
      if first = byte then equal hash data (p + 1) else pure false

/-- The body of the loop over the contents. -/
def validateContent (stream : Stream) (size : UInt64) (header tmdBytes : Bytes) (title : Title)
    (ending : UInt64) (progress : Progress) (i : ℕ) : Import Progress := do
  let (bytes, id) ← policy (recordFields header tmdBytes title ending i progress)
  let hash ← hash host stream .hash size progress.offset bytes
  let same ← policy (equal hash tmdBytes (recordOffset title i + 16))
  require same
  let offset ← policy (add progress.offset bytes)
  pure { ids := id :: progress.ids, hashes := progress.hashes ++ [hash], offset }

/-- What the rest of the importer uses of a file that is valid. -/
structure Validated where
  sections : Sections
  title : Title
  hashes : List Bytes

/-- From the header to `Require(offset==sections.end)`. -/
def validate (stream : Stream) (size : UInt64) : Import Validated := do
  let header ← read host stream 0 0x2020 size
  let sections ← policy (Cia.header header size)
  let tmdBytes ← read host stream sections.tmd sections.tmdSize.toUInt64 size
  let title ← policy (titleFields tmdBytes)
  let ticket ← read host stream sections.ticket sections.ticketSize.toUInt64 size
  policy (ticketFields ticket title.tid)
  let progress ← (List.range title.count.toNat).foldlM
    (validateContent host stream size header tmdBytes title sections.ending)
    { ids := [], hashes := [], offset := sections.content }
  require (progress.offset = sections.ending)
  pure { sections, title, hashes := progress.hashes }

/-! ## Staging -/

/-- `std::ofstream copy(source, std::ios::binary|std::ios::trunc)`: whether it is open. -/
def openCopy (source : Path Filename) : Import Bool := do
  let w ← get
  modify (pass host)
  if host.fault w.clock = none then do
    let w ← get
    match w.files.writeFile host.here source [] with
    | some files => do
        set { w with files }
        pure true
    | none => pure false
  else pure false

/-- `copy.write(b.data(), n)` and the test that it was good. -/
def writeCopy (source : Path Filename) (opened : Bool) (b : Bytes) : Import Unit := do
  attempt host (.failure .installFailed)
  require opened .installFailed
  let w ← get
  match w.files.writeFile host.here source ((w.files.readFile host.here source).getD [] ++ b) with
  | some files => set { w with files }
  | none => throw (.failure .installFailed)

/-- The copy of the input file. -/
def copyInput (original : Stream) (size : UInt64) (source : Path Filename) : Import Unit := do
  let opened ← openCopy host source
  forBlocks host original .copy size (fun _ b => writeCopy host source opened b) 0
  -- `copy.close()` and the test that it was good
  attempt host (.failure .installFailed)
  require opened .installFailed

/-- The tests of the emulator on the staged file, and what the container says. -/
def inspect (source : Path Filename) (title : Title) : Import TitleMetadata := do
  attempt host (.failure .unsupported)
  let w ← get
  let content := w.files.readFile host.here source
  require ((content.bind host.checkCIAToInstall) = some false) .unsupported
  attempt host (.failure .invalidFile)
  let w ← get
  match (w.files.readFile host.here source).bind host.loadContainer with
  | some container => do
      require (container.titleMetadata.titleId = title.tid ∧ container.ticketTitleId = title.tid)
      pure container.titleMetadata
  | none => throw (.failure .invalidFile)

/-- What the record says after the validation. -/
def reportTitle (valid : Validated) (tmd : TitleMetadata) : Import Unit := do
  let contentBytes ← policy (subtract valid.sections.ending valid.sections.content)
  modify fun w => { w with
    result := { w.result with
      titleId := valid.title.tid
      titleVersion := tmd.titleVersion
      contentCount := valid.title.count.toUInt32
      contentBytes } }

/-! ## Installation -/

/-- `FileUtil::SetUserPath(text)` and the test that it was effective. -/
def requireUserPath (text : Text) : Import Unit := do
  modify (switchUserPath host text)
  let user ← userPath host .userDir
  require (user = text) .wrongEnvironment

/-- `Directory(Service::AM::GetTitlePath(media,tid))` -/
def titleDirectory (tid : UInt64) : Import (Path Filename) := do
  attempt host
  let sdmc ← userPath host .sdmcDir
  pure (directory (.parse (host.titlePath sdmc tid)))

/-- The installer reads the staged file. -/
def runInstaller (stream : Stream) (size : UInt64) : Import Unit := do
  let _ ← useInstaller host (.create .sdmc)
  Program.ensuring
    (do
      forBlocks host stream .install size
        (fun off b => do
          let reply ← useInstaller host (.write off b)
          require (reply.written = some (UInt64.ofNat b.length)) .installFailed)
        0
      let reply ← useInstaller host .close
      require (reply.results.all id) .installFailed)
    fun w => (callInstaller host .destroy w).1

/-- Read back one content. -/
def verifyContent (tid : UInt64) (tmd : TitleMetadata) (hashes : List Bytes) (i : ℕ) :
    Import Unit := do
  attempt host
  let sdmc ← userPath host .sdmcDir
  let w ← get
  let p := Path.parse (host.titleContentPath w.files sdmc tid i)
  let intact ← isRegularFile host p <&&> do
    let size ← fileSize host p
    pure (decide (size = tmd.contentSize i))
  require intact .installFailed
  let installed ← openStream host p
  let size ← fileSize host p
  let hash ← hash host installed .rehash size 0 size
  require (hash = hashes.getD i []) .installFailed

/-- Read back the metadata. -/
def verifyMetadata (title : Title) (tmd : TitleMetadata) : Import Unit := do
  attempt host (.failure .installFailed)
  let sdmc ← userPath host .sdmcDir
  let w ← get
  let p := Path.parse (host.titleMetadataPath w.files sdmc title.tid)
  match (w.files.readFile host.here p).bind host.loadTitleMetadata with
  | some installed =>
      require (installed.titleId = title.tid ∧ installed.titleVersion = tmd.titleVersion ∧
        installed.contentCount = title.count) .installFailed
  | none => throw (.failure .installFailed)

/-- From `SetUserPath(root)` to the last poll: what is installed below the staging directory,
and where it belongs. -/
def installStaged (root staging : Path Filename) (stream : Stream) (size : UInt64)
    (valid : Validated) (tmd : TitleMetadata) : Import (Path Filename × Path Filename) := do
  let tid := valid.title.tid
  requireUserPath host (directoryText root)
  attempt host
  require (host.titleMediaType tid = .sdmc) .unsupported
  let destination ← titleDirectory host tid
  modify fun w => { w with destination := some destination }
  noLinks host root (destination.relativeTo root)
  let there ← pathExists host destination
  require (there = false) .alreadyInstalled
  let stagedRoot := staging / literal "user"
  createDirectory host stagedRoot
  requireUserPath host (directoryText stagedRoot)
  modify fun w => { w with compressCiaInstalls := false }
  check host
  runInstaller host stream size
  (List.range valid.title.count.toNat).forM (verifyContent host tid tmd valid.hashes)
  verifyMetadata host valid.title tmd
  let stagedTitle ← titleDirectory host tid
  check host
  pure (stagedTitle, destination)

/-- From the last poll to the rename. -/
def commit (root stagedTitle destination : Path Filename) : Import Unit := do
  noLinks host root (destination.relativeTo root)
  let there ← pathExists host destination
  require (there = false) .alreadyInstalled
  createDirectories host destination.parent
  requireUserPath host (directoryText root)
  let renamed ← renameExclusive host stagedTitle destination
  require renamed .installFailed

/-- `~Paths()` -/
def restorePaths (root : Path Filename) (compression : Bool) (w : World) : World :=
  { switchUserPath host (directoryText root) w with compressCiaInstalls := compression }

/-- What is done below the staging directory. -/
def importStaged (root staging : Path Filename) (original : Stream) (size : UInt64) :
    Import Unit := do
  let source := staging / literal "input.cia"
  copyInput host original size source
  let stream ← openStream host source
  let valid ← validate host stream size
  let tmd ← inspect host source valid.title
  reportTitle valid tmd
  let w ← get
  Program.ensuring
    (do
      let (stagedTitle, destination) ← installStaged host root staging stream size valid tmd
      commit host root stagedTitle destination)
    (restorePaths host root w.compressCiaInstalls)

/-! ## The whole -/

/-- The tests before anything is written: the root, the opened input file and its size. -/
def checkArguments (rootArg pathArg : Option Text) : Import (Path Filename × Stream × UInt64) := do
  require (host.busy = false ∧ host.hasFrontend = false ∧ host.poweredOn = false) .busy
  require (rootArg.isSome ∧ pathArg.isSome)
  require (host.home.any (· ≠ [])) .wrongEnvironment
  let root ← root host (.parse (rootArg.getD []))
    (.parse (host.home.getD []) / literal "Documents")
  let input := Path.parse (pathArg.getD [])
  let suitable ← pure (decide ((pathExtension input).map toLower = ".cia".toList)) <&&>
    isRegularFile host input <&&> (not <$> isSymlink host input)
  require suitable
  let size ← fileSize host input
  require (0x2020 ≤ size ∧ size ≤ maxInput)
  let original ← openStream host input
  let bytes ← read host original 0 0x2020 size
  let _ ← policy (header bytes size)
  check host
  pure (root, original, size)

/-- The staging directory, after the test that there is space. -/
def makeStaging (root : Path Filename) (size : UInt64) : Import (Path Filename) := do
  createDirectories host root
  let w ← get
  attempt host
  let twice ← policy (multiply size 2)
  let needed ← policy (add twice ((64 : UInt64) <<< 20))
  require (needed < host.available w.clock) .noSpace
  makeTemporary host root

/-- `ManicCIA::Install` -/
def install (rootArg pathArg : Option Text) : Import Unit := do
  let (root, original, size) ← checkArguments host rootArg pathArg
  let staging ← makeStaging host root size
  Program.ensuring (importStaged host root staging original size) (removeTemporary host staging)

/-- What `manic_cia_result_v1` is set to at first. -/
def Result.initial : Result where
  status := .installFailed
  titleId := 0
  titleVersion := 0
  contentCount := 0
  contentBytes := 0

/-- `retro_manic_install_update_cia_v1(root, path, result, result_size, cancel, context)`, where
the result pointer and its size are right or not. -/
def retroManicInstallUpdateCiaV1 (rootArg pathArg : Option Text) (resultFits : Bool) (w : World) :
    Status × World :=
  if resultFits = false then (.invalidFile, w)
  else
    let run := (install host rootArg pathArg).outcome { w with result := .initial }
    let status := match run.1 with
      | .ok _ => .success
      | .error stop => stop.status
    (status, { run.2 with result := { run.2.result with status } })

end Importer

end ManicRoom.Cia
