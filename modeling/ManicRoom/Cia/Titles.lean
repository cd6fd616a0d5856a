/-
# Where titles belong

The emulator keeps the titles of an SD card below the user directory, each in a directory of
its own, with the contents and the metadata below it. So a title belongs to the same names
below every user directory, and what the emulator finds in a title that has been moved as a
whole is what it found before.
-/

import ManicRoom.Cia.Installation

namespace ManicRoom.Cia

open ManicRoom.Foundation ManicRoom.Storage

/-- `"sdmc"` -/
def sdmcName : Filename := ⟨"sdmc".toList, by decide, by decide, by decide, by decide⟩

/-- A title belongs to names below the SD card. -/
structure Host.Placed (host : Host) : Prop extends host.Confined where
  sdmc : host.constants.folder .sdmcDir = "sdmc/".toList
  title : ∀ tid, ∃ title, title ≠ [] ∧
    ∀ sdmc, host.titlePath sdmc tid = sdmc ++ (below title ++ ['/'])

/-- What is found below a directory. -/
abbrev View := List Filename → Except PathError (Option (Node Filename Bytes))

/-- What the emulator finds below the directory of a title. -/
def Host.view (host : Host) (files : Files) (sdmc : Text) (tid : UInt64) : View :=
  fun names => files.stat host.here (.parse (host.titlePath sdmc tid ++ below names))

/-- How the functions of the emulator fit together: what belongs to a title lies below its
directory, at names that depend on nothing but what is there, and the sizes of the contents are
read from the metadata of the container. The installer makes no symbolic links. -/
structure Host.Lawful (host : Host) : Prop extends host.Placed where
  unlinked : host.MakesNoLinks
  contentPath : ∀ tid i, ∃ names : View → List Filename, (∀ view, names view ≠ []) ∧
    ∀ files sdmc, host.titleContentPath files sdmc tid i =
      host.titlePath sdmc tid ++ below (names (host.view files sdmc tid))
  metadataPath : ∀ tid, ∃ names : View → List Filename, (∀ view, names view ≠ []) ∧
    ∀ files sdmc, host.titleMetadataPath files sdmc tid =
      host.titlePath sdmc tid ++ below (names (host.view files sdmc tid))
  contentSize : ∀ file size container, Valid file host.hash size →
    host.loadContainer file = some container → ∀ i < contentCount (tmdBytes file),
      (container.titleMetadata.contentSize i).toNat = contentSize (tmdBytes file) i

/-! ## Texts of paths -/

theorem below_append {names more : List Filename} (hnames : names ≠ []) (hmore : more ≠ []) :
    below (names ++ more) = below names ++ '/' :: below more := by
  induction names with
  | nil => exact absurd rfl hnames
  | cons name names ih =>
      by_cases hempty : names = []
      · subst hempty
        obtain ⟨first, more, rfl⟩ := List.exists_cons_of_ne_nil hmore
        simp [below, List.intercalate_cons_cons]
      · have ih := ih hempty
        obtain ⟨second, names, rfl⟩ := List.exists_cons_of_ne_nil hempty
        simp only [below, List.cons_append, List.map_cons, List.intercalate_cons_cons] at ih ⊢
        rw [ih]
        simp

/-- The text of a path below a directory. -/
theorem parse_directoryText_below {names more : List Filename} (hnames : names ≠ [])
    (hmore : more ≠ []) :
    Path.parse (directoryText (.ofNames names) ++ below more) = .ofNames (names ++ more) := by
  have htext : directoryText (.ofNames names) ++ below more =
      (Path.ofNames (names ++ more)).render := by
    rw [render_ofNames, below_append hnames hmore, directoryText, render_ofNames]
    simp
  rw [htext, Path.parse_render]

theorem trailing_directoryText_below {names : List Filename} (hnames : names ≠ [])
    (more : List Filename) :
    (Path.parse (directoryText (.ofNames names) ++ below more)).trailing = decide (more = []) := by
  by_cases hmore : more = []
  · subst hmore
    have hparts := (parse_directoryText_append names []).2
    have hempty : (Path.parse []).parts = [] := by decide
    rw [hempty, List.append_nil, List.append_nil] at hparts
    have hne : (Path.parse (directoryText (.ofNames names))).parts ≠ [] := by
      rw [hparts]
      simpa using hnames
    have hends : (directoryText (.ofNames names)).getLast? = some '/' := by simp [directoryText]
    have hbelow : below [] = [] := rfl
    rw [hbelow, List.append_nil]
    simp only [Path.parse, Path.of_parts] at hne
    simp [Path.parse, Path.of, hends, hne]
  · rw [parse_directoryText_below hnames hmore, Path.ofNames_trailing, decide_eq_false hmore]

section Placed

variable {host : Host}

/-- The title has these names below every user directory. -/
def Host.Titled (host : Host) (tid : UInt64) (title : List Filename) : Prop :=
  title ≠ [] ∧ ∀ user, user ≠ [] →
    host.titlePath (host.card user) tid = directoryText (.ofNames (user ++ sdmcName :: title))

/-- **A title belongs to the same names below every user directory.** -/
theorem Host.Placed.exists_title (placed : host.Placed) (tid : UInt64) :
    ∃ title, host.Titled tid title := by
  obtain ⟨title, htitle, hpath⟩ := placed.title tid
  refine ⟨title, htitle, fun user huser => ?_⟩
  have hsdmc : "sdmc/".toList = sdmcName.text ++ ['/'] := by decide
  have hbelow : below (sdmcName :: title) = sdmcName.text ++ '/' :: below title :=
    @below_append [sdmcName] title (by simp) htitle
  rw [hpath, Host.card, placed.sdmc, hsdmc, directoryText, directoryText, render_ofNames,
    render_ofNames, below_append huser (by simp), hbelow]
  simp

theorem directory_directoryText (names : List Filename) :
    directory (.parse (directoryText (.ofNames names))) = .ofNames names := by
  obtain ⟨habsolute, hparts⟩ := parse_directoryText_append names []
  have hempty : (Path.parse []).parts = [] := by decide
  rw [hempty, List.append_nil, List.append_nil] at hparts
  rw [List.append_nil] at habsolute
  have hnormal : (Path.parse (directoryText (.ofNames names))).normal.parts = names.map .name := by
    have hisEmpty : (Path.parse (directoryText (.ofNames names))).isEmpty = false := by
      simp [Path.isEmpty, habsolute]
    simp [Path.normal, hisEmpty, habsolute, hparts, Path.cancel_names]
  exact stripSeparators_names (FileTree.exists_names_of_normal habsolute).1 hnormal

variable {tid : UInt64} {title user place : List Filename}

theorem Host.Titled.titleDirectory_eq (titled : host.Titled tid title) (huser : user ≠ []) :
    host.titleDirectory user tid = .ofNames (user ++ sdmcName :: title) := by
  rw [Host.titleDirectory, titled.2 user huser, directory_directoryText]

/-- The destination is not in the staging directory, whose name begins with a dot. -/
theorem Site.sdmc_ne_staging (site : Site) (title : List Filename) :
    (sdmcName :: title).head? ≠ some site.staging := by
  intro hsame
  have hhidden := site.hidden
  rw [← Option.some.inj hsame] at hhidden
  exact absurd hhidden (by decide)

/-! ## A title and what belongs to it -/

/-- What is found in a directory that looks like this. -/
def View.ofNodes (node : List Filename → Option (Node Filename Bytes)) : View :=
  fun names => .ok (if names = [] ∧ ¬ node names = some .directory then none else node names)

/-- What is in the directory of a title, below a user directory that these names lead to. -/
structure Lies (files : Files) (user place title : List Filename)
    (node : List Filename → Option (Node Filename Bytes)) : Prop where
  nonempty : user ≠ []
  leads : files.Leads user place
  plain : ∀ more, files.Plain true place (sdmcName :: title ++ more)
  node : ∀ p, files.node (place ++ (sdmcName :: title ++ p)) = node p

namespace Lies

variable {files : Files} {node : List Filename → Option (Node Filename Bytes)}

theorem stat_eq (lies : Lies files user place title node) (here names : List Filename) :
    files.stat here (.ofNames (user ++ (sdmcName :: title ++ names))) = .ok (node names) := by
  rw [lies.leads.stat_eq (lies.plain names) (Path.ofNames_absolute _) (Path.ofNames_parts _),
    Path.ofNames_trailing, lies.node]
  simp

theorem readFile_eq_some_iff (lies : Lies files user place title node) {here names : List Filename}
    {bytes : Bytes} :
    files.readFile here (.ofNames (user ++ (sdmcName :: title ++ names))) = some bytes ↔
      node names = some (.file bytes) := by
  rw [FileTree.readFile, lies.stat_eq]
  cases node names with
  | none => simp
  | some found => cases found <;> simp

/-- What the emulator finds in a title depends on nothing else, wherever its user directory is. -/
theorem view_eq (lies : Lies files user place title node) (titled : host.Titled tid title) :
    host.view files (host.card user) tid = View.ofNodes node := by
  funext names
  have hnames : user ++ sdmcName :: title ≠ [] := by simp
  obtain ⟨habsolute, hparts⟩ :=
    parse_directoryText_append (user ++ sdmcName :: title) (below names)
  rw [parse_below, ← List.map_append, List.append_assoc] at hparts
  simp only [Host.view, View.ofNodes, titled.2 user lies.nonempty]
  rw [lies.leads.stat_eq (lies.plain names) habsolute hparts, lies.node,
    trailing_directoryText_below hnames names]
  simp only [decide_eq_true_iff]

end Lies

/-- A path that belongs to a title has the same names wherever the title lies. -/
theorem Host.Titled.exists_names (titled : host.Titled tid title)
    (node : List Filename → Option (Node Filename Bytes)) {path : Files → Text → Text}
    {names : View → List Filename} (hnames : ∀ view, names view ≠ [])
    (hpath : ∀ files sdmc, path files sdmc =
      host.titlePath sdmc tid ++ below (names (host.view files sdmc tid))) :
    ∃ found, ∀ files user place, Lies files user place title node →
      Path.parse (path files (host.card user)) =
        .ofNames (user ++ (sdmcName :: title ++ found)) := by
  refine ⟨names (View.ofNodes node), fun files user place lies => ?_⟩
  rw [hpath, lies.view_eq titled, titled.2 user lies.nonempty,
    parse_directoryText_below (by simp) (hnames _), List.append_assoc]

/-- What the metadata says of a content. -/
structure Content (host : Host) (file : Bytes) (i : ℕ) (bytes : Bytes) : Prop where
  size : bytes.length = contentSize (tmdBytes file) i
  hash : host.hash.digest bytes = contentHash (tmdBytes file) i

/-- The metadata of a title that has been installed from a file. -/
structure Metadata (file : Bytes) (tmd installed : TitleMetadata) : Prop where
  titleId : installed.titleId.toNat = titleId (tmdBytes file)
  titleVersion : installed.titleVersion = tmd.titleVersion
  contentCount : installed.contentCount.toNat = contentCount (tmdBytes file)

/-- The emulator finds all contents of a file, and its metadata. -/
structure Host.Finds (host : Host) (files : Files) (sdmc : Text) (tid : UInt64) (file : Bytes)
    (tmd : TitleMetadata) : Prop where
  contents : ∀ i < contentCount (tmdBytes file), ∃ bytes,
    files.readFile host.here (.parse (host.titleContentPath files sdmc tid i)) = some bytes ∧
      Content host file i bytes
  metadata : ∃ bytes installed,
    files.readFile host.here (.parse (host.titleMetadataPath files sdmc tid)) = some bytes ∧
      host.loadTitleMetadata bytes = some installed ∧ Metadata file tmd installed

/-- A title that looks like this is intact, wherever it lies. -/
def Intact (host : Host) (tid : UInt64) (title : List Filename) (file : Bytes) (tmd : TitleMetadata)
    (node : List Filename → Option (Node Filename Bytes)) : Prop :=
  ∀ files user place, Lies files user place title node →
    host.Finds files (host.card user) tid file tmd

end Placed

end ManicRoom.Cia
