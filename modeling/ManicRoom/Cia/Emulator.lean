/-
# The emulator below the staging directory

The importer points the emulator at the root, learns where the title belongs, points it at a
directory below the staging directory and has it install the file there. From the moment
the destination is known another process may create it. Whatever else happens, what was there
outside the staging directory stays, and nothing is added but what the other process adds.
-/

import ManicRoom.Cia.Copying

namespace ManicRoom.Cia

open ManicRoom.Foundation ManicRoom.Storage

/-! ## User paths -/

/-- The directories of the emulator are those below this directory. -/
def Uses (host : Host) (names : List Filename) (w : World) : Prop :=
  Derived host.constants w.storage.paths (directoryText (.ofNames names))

/-- The SD card below a user directory. -/
def Host.card (host : Host) (names : List Filename) : Text :=
  directoryText (.ofNames names) ++ host.constants.folder .sdmcDir

/-- Where a title belongs, with this user directory. -/
def Host.titleDirectory (host : Host) (names : List Filename) (tid : UInt64) : Path Filename :=
  directory (.parse (host.titlePath (host.card names) tid))

section UserPaths

variable {host : Host} {names place : List Filename} {w : World}

theorem Uses.touch (uses : Uses host names w) (key : UserPath) :
    Uses host names
      { w with storage := (Storage.getUserPath host.constants key host.around w.storage).1 } := by
  unfold Uses at uses ⊢
  simp only [Storage.getUserPath, uses.ne_nil, if_false]
  exact uses.touch key

theorem Uses.pass (uses : Uses host names w) : Uses host names (pass host w) := by
  unfold Uses
  rw [pass_storage]
  exact uses

/-- Switching to a directory that is there. -/
theorem switchUserPath_eq (hnames : names ≠ []) (hleads : (pass host w).files.Leads names place) :
    ∃ storage, Derived host.constants storage.paths (directoryText (.ofNames names)) ∧
      switchUserPath host (directoryText (.ofNames names)) w = { pass host w with storage } := by
  have hstat := (FileTree.stat_eq_directory_iff (pass host w).files host.here names).mpr
    ⟨place, hleads⟩
  have hexists : Storage.pathExists (pass host w).files host.here
      (directoryText (.ofNames names)) = true := by
    simp only [Storage.pathExists, stripTailDirSlashes_directoryText hnames, hstat]
  have hpath : directoryText (.ofNames names) ≠ [] := by simp [directoryText]
  have hderived := (@lookup_setUserPath host.constants _ hpath host.around w.storage).1
  refine ⟨_, hderived, ?_⟩
  simp only [switchUserPath, createFullPath, hexists, if_true, pass_storage]

/-- `SetUserPath` to a directory that is there is always effective. -/
theorem wp_requireUserPath {done : Unit → World → Prop} {stopped : Stop → World → Prop}
    (hnames : names ≠ []) (hleads : (pass host w).files.Leads names place)
    (hreturned : ∀ storage, Uses host names { pass host w with storage } →
      done () { pass host w with storage }) :
    (requireUserPath host (directoryText (.ofNames names))).wp done stopped w := by
  obtain ⟨storage, hderived, hswitch⟩ := switchUserPath_eq hnames hleads
  have huser : (storage.paths.lookup .userDir).getD [] = directoryText (.ofNames names) := by
    rw [hderived.userDir, Option.getD_some]
  simp only [requireUserPath, userPath, Program.wp_bind, Program.wp_modify, Program.wp_get,
    Program.wp_set, Program.wp_pure, wp_require, hswitch, Storage.getUserPath, hderived.ne_nil,
    if_false, huser, not_true_eq_false, false_imp_iff, true_imp_iff, and_true]
  exact hreturned _ (hderived.touch _)

theorem wp_card {holds : World → Prop} {halted : Stop → World → Prop}
    (steady : Steady host holds halted) (huses : ∀ w, holds w → Uses host names w)
    {done : Text → World → Prop} (hw : holds w)
    (hreturned : ∀ t, holds t → done (host.card names) t) :
    (userPath host .sdmcDir).wp done halted w := by
  have hderived : Derived host.constants w.storage.paths (directoryText (.ofNames names)) :=
    huses w hw
  have hsdmc := hderived.derived .sdmcDir (by decide)
  have htouch := steady.touch w .sdmcDir hw
  simp only [Storage.getUserPath, hderived.ne_nil, if_false] at htouch
  simp only [userPath, Program.wp_bind, Program.wp_get, Program.wp_set, Program.wp_pure,
    Storage.getUserPath, hderived.ne_nil, if_false, hsdmc, Option.getD_some]
  exact hreturned _ htouch

theorem wp_titleDirectory {holds : World → Prop} {halted : Stop → World → Prop}
    (steady : Steady host holds halted) (huses : ∀ w, holds w → Uses host names w)
    {tid : UInt64} {done : Path Filename → World → Prop} (hw : holds w)
    (hreturned : ∀ t, holds t → done (host.titleDirectory names tid) t) :
    (titleDirectory host tid).wp done halted w := by
  apply Program.Maintains.andThen (maintains_attempt steady ordinary_exception) hw
  intro _ t ht
  rw [Program.wp_bind]
  apply wp_card steady huses ht
  intro t ht
  exact (Program.wp_pure _).mpr (hreturned t ht)

/-- A title belongs to a path of names. -/
theorem exists_titleDirectory (confined : host.Confined) (names : List Filename) (tid : UInt64) :
    ∃ title, host.titleDirectory names tid = .ofNames title := by
  obtain ⟨habsolute, title, hparts⟩ := FileTree.exists_names_of_normal
    (confined.titlePath (host.card names) tid (parse_directoryText_append names _).1)
  exact ⟨title, stripSeparators_names habsolute hparts⟩

end UserPaths

/-! ## The other process -/

section Intruder

variable {host : Host} {w : World}

/-- What may have happened at a moment. -/
theorem pass_cases (host : Host) (w : World) : pass host w = { w with clock := w.clock + 1 } ∨
    ∃ subtree destination place files, host.intrude w.clock = some subtree ∧
      w.destination = some destination ∧ w.files.locate false host.here destination = .ok place ∧
      w.files.plant? place subtree = some files ∧
      pass host w = { w with files, intruded := place :: w.intruded, clock := w.clock + 1 } := by
  unfold pass intruded
  split
  · next subtree destination hintrude hdestination =>
    split
    · next place hplace =>
      split
      · next files hfiles =>
        exact .inr ⟨subtree, destination, place, files, hintrude, hdestination, hplace, hfiles, rfl⟩
      · exact .inl rfl
    · exact .inl rfl
  · exact .inl rfl

/-- Nothing of these files has changed, and what is new another process has made, or it is
allowed. -/
structure Since (files : Files) (allowed : List Filename → Option (Node Filename Bytes) → Prop)
    (w : World) : Prop where
  keeps : files.Keeps w.files
  new : ∀ p, w.files.node p ≠ files.node p →
    (∃ q ∈ w.intruded, q <+: p) ∨ allowed p (w.files.node p)

variable {files : Files} {allowed : List Filename → Option (Node Filename Bytes) → Prop}

theorem Since.refl {w : World} : Since w.files allowed w := ⟨.refl _, fun _ hne => absurd rfl hne⟩

theorem Since.mono {allowed' : List Filename → Option (Node Filename Bytes) → Prop}
    (since : Since files allowed w) (h : ∀ p node, allowed p node → allowed' p node) :
    Since files allowed' w :=
  ⟨since.keeps, fun p hne => (since.new p hne).imp_right (h p _)⟩

theorem Since.congr {w' : World} (since : Since files allowed w) (hfiles : w'.files = w.files)
    (hintruded : w'.intruded = w.intruded) : Since files allowed w' := by
  refine ⟨hfiles ▸ since.keeps, fun p hne => ?_⟩
  rw [hfiles] at hne ⊢
  rw [hintruded]
  exact since.new p hne

theorem Since.pass (since : Since files allowed w) (host : Host) :
    Since files allowed (pass host w) := by
  rcases pass_cases host w with heq | ⟨subtree, _, place, planted, -, -, -, hplant, heq⟩
  · rw [heq]
    exact ⟨since.keeps, since.new⟩
  · rw [heq]
    refine ⟨since.keeps.trans (FileTree.keeps_plant? hplant), fun p hne => ?_⟩
    by_cases hplace : place <+: p
    · exact .inl ⟨place, List.mem_cons_self .., hplace⟩
    · have hnode := (FileTree.plant?_eq_some hplant).2 p
      rw [if_neg hplace] at hnode
      simp only [hnode] at hne ⊢
      rcases since.new p hne with ⟨q, hmem, hq⟩ | hallowed
      · exact .inl ⟨q, List.mem_cons_of_mem _ hmem, hq⟩
      · exact .inr hallowed

theorem Since.steady (host : Host) (files : Files)
    (allowed : List Filename → Option (Node Filename Bytes) → Prop) :
    Steady host (Since files allowed) fun _ => Since files allowed where
  pass _ since := since.pass host
  touch _ _ since := since.congr rfl rfl
  halt _ _ _ since := since

end Intruder

/-! ## What is kept outside the staging directory -/

/-- `staging.path/"user"` -/
def Site.user (site : Site) : List Filename := site.root ++ [site.staging] ++ [userName]

theorem Site.user_eq (site : Site) : site.stagingPath / literal "user" = .ofNames site.user := by
  rw [literal_user, stagingPath, Path.ofNames_div_ofPart]
  rfl

/-- What a path may have become: it is in the staging directory, or a directory on the way. -/
def Site.Allowed (site : Site) (way p : List Filename) (node : Option (Node Filename Bytes)) :
    Prop :=
  site.top <+: p ∨ node = some .directory ∧ ∃ pre, pre <+: way ∧ p = site.place ++ pre

/-- What holds whenever the import stops: outside the staging directory there is nothing new but
directories on the way, the installer was only used below it, and nothing was left behind. -/
structure Site.Kept (site : Site) (host : Host) (way : List Filename) (w : World) : Prop where
  since : Since site.before (site.Allowed way) w
  calls : ∀ entry ∈ w.installer,
    Derived host.constants entry.2 (directoryText (.ofNames site.user))
  stranded : w.stranded = []

namespace Site.Kept

variable {site : Site} {host : Host} {way : List Filename} {w : World}

theorem pass (kept : site.Kept host way w) : site.Kept host way (pass host w) where
  since := kept.since.pass host
  calls := by
    rw [pass_installer]
    exact kept.calls
  stranded := by
    rw [pass_stranded]
    exact kept.stranded

theorem congr {w' : World} (kept : site.Kept host way w) (hfiles : w'.files = w.files)
    (hintruded : w'.intruded = w.intruded) (hinstaller : w'.installer = w.installer)
    (hstranded : w'.stranded = w.stranded) : site.Kept host way w' where
  since := kept.since.congr hfiles hintruded
  calls := by
    rw [hinstaller]
    exact kept.calls
  stranded := hstranded.trans kept.stranded

/-- The names of the root go on leading to its place. -/
theorem leads (kept : site.Kept host way w) : w.files.Leads site.root site.place :=
  site.rootLeads.keeps kept.since.keeps

/-- The names of the user directory below the staging directory lead there. -/
theorem userLeads (kept : site.Kept host way w)
    (huser : w.files.node (site.top ++ [userName]) = some .directory) :
    w.files.Leads site.user (site.top ++ [userName]) := by
  rw [Site.top, List.append_assoc] at huser ⊢
  rw [Site.user, List.append_assoc]
  exact kept.leads.append huser

/-- More directories may be made. -/
theorem mono {way' : List Filename} (kept : site.Kept host way w) (hway : way <+: way') :
    site.Kept host way' w where
  since := kept.since.mono fun _ _ hallowed =>
    hallowed.imp_right fun ⟨hnode, pre, hpre, hp⟩ => ⟨hnode, pre, hpre.trans hway, hp⟩
  calls := kept.calls
  stranded := kept.stranded

end Site.Kept

/-- The copy is all there is, and nothing else happened. -/
theorem Site.Copied.since {site : Site} {w : World} (copied : site.Copied w.files)
    (way : List Filename) : Since site.before (site.Allowed way) w where
  keeps := copied.keeps
  new p hne := .inr (.inl (not_not.mp fun htop => hne (copied.outside p htop)))

/-! ## Announcing the destination -/

/-- The destination is known, and at most the other process has created it. -/
structure Announced (host : Host) (files : Files) (names title : List Filename) (w : World) :
    Prop where
  destination : w.destination = some (.ofNames title)
  created : w.files = files ∧ w.intruded = [] ∨
    ∃ m subtree q, host.intrude m = some subtree ∧
      files.locate false host.here (.ofNames title) = .ok q ∧
        files.plant? q subtree = some w.files ∧ w.intruded = [q]
  stranded : w.stranded = []
  installer : w.installer = []
  uses : Uses host names w

namespace Announced

variable {host : Host} {files : Files} {names title : List Filename} {w : World}

theorem since (announced : Announced host files names title w) :
    Since files (fun _ _ => False) w := by
  rcases announced.created with ⟨hfiles, -⟩ | ⟨_, _, q, -, -, hplant, hintruded⟩
  · rw [← hfiles]
    exact .refl
  · refine ⟨FileTree.keeps_plant? hplant, fun p hne => .inl ⟨q, ?_, ?_⟩⟩
    · rw [hintruded]
      exact List.mem_singleton_self q
    · by_contra hbelow
      rw [(FileTree.plant?_eq_some hplant).2 p, if_neg hbelow] at hne
      exact hne rfl

theorem pass (announced : Announced host files names title w) :
    Announced host files names title (pass host w) := by
  have uses := announced.uses.pass
  rcases pass_cases host w with
    heq | ⟨subtree, destination, place, planted, hintrude, hdestination, hplace, hplant, heq⟩
  · rw [heq] at uses ⊢
    exact ⟨announced.destination, announced.created, announced.stranded, announced.installer, uses⟩
  · cases announced.destination.symm.trans hdestination
    rw [FileTree.locate_ofNames] at hplace
    rw [heq] at uses ⊢
    rcases announced.created with ⟨hfiles, hnone⟩ | ⟨_, subtree', q, -, hq, hplant', -⟩
    · subst hfiles
      rw [← FileTree.locate_ofNames w.files host.here] at hplace
      refine ⟨announced.destination, .inr ⟨_, subtree, place, hintrude, hplace, hplant, ?_⟩,
        announced.stranded, announced.installer, uses⟩
      simp only [hnone]
    · -- What has been created once is there.
      rw [FileTree.locate_ofNames] at hq
      have hlast := FileTree.resolve_keeps_last (FileTree.keeps_plant? hplant') hq
      cases hlast.symm.trans hplace
      have hfree := (FileTree.plant?_eq_some hplant).1
      rw [(FileTree.plant?_eq_some hplant').2 place, if_pos (List.prefix_refl place),
        List.drop_length] at hfree
      exact absurd hfree subtree'.root

/-- Besides the copy there is nothing but what the other process may have created. -/
theorem kept {site : Site} (announced : Announced host files names title w)
    (copied : site.Copied files) : site.Kept host [] w := by
  refine ⟨⟨copied.keeps.trans announced.since.keeps, fun p hne => ?_⟩,
    by simp [announced.installer], announced.stranded⟩
  by_cases hchanged : w.files.node p = files.node p
  · rw [hchanged] at hne
    exact .inr (.inl (not_not.mp fun htop => hne (copied.outside p htop)))
  · exact (announced.since.new p hchanged).imp_right False.elim

theorem steady {halted : Stop → World → Prop}
    (h : ∀ stop w, Announced host files names title w → halted stop w) :
    Steady host (Announced host files names title) halted where
  pass _ announced := announced.pass
  touch _ key announced := ⟨announced.destination, announced.created, announced.stranded,
    announced.installer, announced.uses.touch key⟩
  halt stop w _ announced := h stop w announced

end Announced

/-- From the change of the user path to the test that nothing is at the destination. -/
def announce (host : Host) (root : Path Filename) (tid : UInt64) : Import (Path Filename) := do
  requireUserPath host (directoryText root)
  attempt host
  require (host.titleMediaType tid = .sdmc) .unsupported
  let destination ← titleDirectory host tid
  modify fun w => { w with destination := some destination }
  noLinks host root (destination.relativeTo root)
  let there ← pathExists host destination
  require (there = false) .alreadyInstalled
  pure destination

/-- What is known of the destination: below the root, with no link on the way. -/
structure Destined (host : Host) (site : Site) (files : Files) (tid : UInt64)
    (rel : List Filename) : Prop where
  nonempty : rel ≠ []
  title : host.titleDirectory site.root tid = .ofNames (site.root ++ rel)
  plain : files.Plain true site.place rel

theorem wp_announce {host : Host} (confined : host.Confined) {site : Site} (tid : UInt64)
    {w : World} (idle : Idle w) (copied : site.Copied w.files) :
    (announce host (.ofNames site.root) tid).wp
      (fun destination t => ∃ rel, Destined host site w.files tid rel ∧
        destination = .ofNames (site.root ++ rel) ∧
        Announced host w.files site.root (site.root ++ rel) t)
      (fun _ t => site.Kept host [] t) w := by
  have hleads : w.files.Leads site.root site.place := site.rootLeads.keeps copied.keeps
  rw [announce, Program.wp_bind]
  apply wp_requireUserPath site.nonempty (by rwa [idle.pass_eq])
  intro storage uses
  rw [idle.pass_eq] at uses ⊢
  -- Nothing happens but that the clock goes on and paths are asked for.
  let holds (t : World) : Prop := Idle t ∧ t.files = w.files ∧ Uses host site.root t
  have kept (t : World) (ht : holds t) : site.Kept host [] t :=
    ⟨Site.Copied.since (ht.2.1 ▸ copied) [], by simp [ht.1.installer], ht.1.stranded⟩
  have steady : Steady host holds fun _ t => site.Kept host [] t := by
    refine ⟨fun t ht => ?_, fun t key ht => ?_, fun _ t _ ht => kept t ht⟩
    · have uses := ht.2.2.pass
      rw [ht.1.pass_eq] at uses ⊢
      exact ⟨⟨ht.1.1, ht.1.2, ht.1.3, ht.1.4⟩, ht.2.1, uses⟩
    · exact ⟨⟨ht.1.1, ht.1.2, ht.1.3, ht.1.4⟩, ht.2.1, ht.2.2.touch key⟩
  have start : holds { w with clock := w.clock + 1, storage } :=
    ⟨⟨idle.1, idle.2, idle.3, idle.4⟩, rfl, uses⟩
  apply Program.Maintains.andThen (maintains_attempt steady ordinary_exception) start
  intro _ t ht
  apply Program.Maintains.andThen (maintains_require steady (by decide)) ht
  intro _ t ht
  rw [Program.wp_bind]
  apply wp_titleDirectory steady (fun t ht => ht.2.2) ht
  intro t ⟨idle, hfiles, uses⟩
  obtain ⟨title, htitle⟩ := exists_titleDirectory confined site.root tid
  have steady : Steady host (Announced host w.files site.root title)
      fun _ t => site.Kept host [] t :=
    Announced.steady fun _ t announced => announced.kept copied
  rw [htitle, Program.wp_bind, Program.wp_modify, Program.wp_bind]
  have announced : Announced host w.files site.root title
      { t with destination := some (.ofNames title) } :=
    ⟨rfl, .inl ⟨hfiles, idle.intruded⟩, idle.stranded, idle.installer, uses⟩
  apply Program.wp_mono (wp_noLinks steady (fun t announced => announced.since.keeps) announced) _
    fun _ _ h => h
  intro _ t ⟨announced, rel, hsplit, hlinks⟩
  subst hsplit
  rw [Program.wp_bind]
  apply wp_pathExists steady announced
  · intro t announced
    rw [Program.wp_bind, wp_require]
    exact ⟨nofun, fun _ => announced.kept copied⟩
  · intro t announced hnone
    have hnonempty : rel ≠ [] := by
      rintro rfl
      rw [List.append_nil, (FileTree.stat_eq_directory_iff t.files host.here site.root).mpr
        ⟨site.place, hleads.keeps announced.since.keeps⟩] at hnone
      exact nomatch hnone
    simp only [Program.wp_bind, wp_require, Program.wp_pure]
    refine ⟨fun _ => ?_, fun h => absurd trivial h⟩
    exact ⟨rel, ⟨hnonempty, htitle, hleads.plain_of_lstat hlinks⟩, rfl, announced⟩

/-! ## While the emulator works -/

/-- What is in the staging directory, seen from there. -/
def Site.within (site : Site) (files : Files) (p : List Filename) : Option (Node Filename Bytes) :=
  files.node (site.top ++ p)

/-- A destination that does not interfere with the staging directory, unless nobody else acts. -/
structure Site.Sheltered (site : Site) (host : Host) (rel : List Filename) : Prop where
  nonempty : rel ≠ []
  plain : site.before.Plain true site.place rel
  apart : (∀ m, host.intrude m = none) ∨ rel.head? ≠ some site.staging

/-- The destination is known, the other process has acted nowhere else, and what is in the
staging directory is good. -/
structure Site.Importing (site : Site) (host : Host) (rel way : List Filename)
    (good : (List Filename → Option (Node Filename Bytes)) → Prop) (w : World) : Prop where
  kept : site.Kept host way w
  destination : w.destination = some (.ofNames (site.root ++ rel))
  intruded : ∀ q ∈ w.intruded, q = site.place ++ rel
  inside : good (site.within w.files)

/-- A way that does not begin in the staging directory does not lead there. -/
theorem Site.not_top_prefix {site : Site} {rel pre : List Filename}
    (hhead : rel.head? ≠ some site.staging) (hpre : pre <+: rel) :
    ¬ site.top <+: site.place ++ pre := by
  intro htop
  obtain ⟨rest, rfl⟩ := (List.prefix_append_right_inj site.place).mp htop
  obtain ⟨more, rfl⟩ := hpre
  exact hhead rfl

/-- Nor does the staging directory lie at the end of such a way. -/
theorem Site.not_prefix_top {site : Site} {rel : List Filename} (hrel : rel ≠ [])
    (hhead : rel.head? ≠ some site.staging) (p : List Filename) :
    ¬ site.place ++ rel <+: site.top ++ p := by
  intro hbelow
  rw [Site.top, List.append_assoc] at hbelow
  obtain ⟨first, rest, rfl⟩ := List.exists_cons_of_ne_nil hrel
  obtain ⟨rfl, -⟩ := List.cons_prefix_cons.mp ((List.prefix_append_right_inj site.place).mp hbelow)
  exact hhead rfl

namespace Site.Importing

variable {site : Site} {host : Host} {rel way : List Filename}
  {good : (List Filename → Option (Node Filename Bytes)) → Prop} {w : World}

theorem congr {w' : World} (importing : site.Importing host rel way good w)
    (hfiles : w'.files = w.files) (hdestination : w'.destination = w.destination)
    (hintruded : w'.intruded = w.intruded) (hinstaller : w'.installer = w.installer)
    (hstranded : w'.stranded = w.stranded) : site.Importing host rel way good w' where
  kept := importing.kept.congr hfiles hintruded hinstaller hstranded
  destination := hdestination.trans importing.destination
  intruded := by
    rw [hintruded]
    exact importing.intruded
  inside := by
    rw [hfiles]
    exact importing.inside

/-- The way to the destination stays without links. -/
theorem plain (importing : site.Importing host rel way good w) (sheltered : site.Sheltered host rel)
    (hhead : rel.head? ≠ some site.staging) : w.files.Plain false site.place rel := by
  intro pre hpre hmore hlast target hlink
  have hne : pre ≠ rel := hlast.resolve_right nofun
  have htop := Site.not_top_prefix hhead hmore
  by_cases hsame : w.files.node (site.place ++ pre) = site.before.node (site.place ++ pre)
  · rw [hsame] at hlink
    exact sheltered.plain pre hpre hmore (.inr rfl) target hlink
  · rcases importing.kept.since.new _ hsame with ⟨q, hmem, hq⟩ | hallowed | ⟨hdirectory, -⟩
    · rw [importing.intruded q hmem, List.prefix_append_right_inj] at hq
      exact hne (hmore.eq_of_length_le hq.length_le)
    · exact htop hallowed
    · exact nomatch hlink.symm.trans hdirectory

theorem pass (importing : site.Importing host rel way good w)
    (sheltered : site.Sheltered host rel) :
    site.Importing host rel way good (pass host w) := by
  have kept := importing.kept.pass
  rcases pass_cases host w with
    heq | ⟨subtree, destination, place, planted, hintrude, hdestination, hplace, hplant, heq⟩
  · rw [heq] at kept ⊢
    exact ⟨kept, importing.destination, importing.intruded, importing.inside⟩
  · rw [heq] at kept ⊢
    cases importing.destination.symm.trans hdestination
    have hhead : rel.head? ≠ some site.staging := by
      apply sheltered.apart.resolve_left
      intro hnone
      exact nomatch (hnone _).symm.trans hintrude
    rw [FileTree.locate_ofNames] at hplace
    obtain ⟨rfl, -⟩ := importing.kept.leads.eq_of_resolve sheltered.nonempty
      (importing.plain sheltered hhead) hplace
    refine ⟨kept, importing.destination, fun q hmem => ?_, ?_⟩
    · rcases List.mem_cons.mp hmem with rfl | hmem
      · rfl
      · exact importing.intruded q hmem
    · have hwithin : site.within planted = site.within w.files := by
        funext p
        have hnode := (FileTree.plant?_eq_some hplant).2 (site.top ++ p)
        rwa [if_neg (Site.not_prefix_top sheltered.nonempty hhead p)] at hnode
      simp only [hwithin]
      exact importing.inside

theorem usual (sheltered : site.Sheltered host rel)
    (good : (List Filename → Option (Node Filename Bytes)) → Prop) (names way : List Filename)
    (halted : World → Prop)
    (h : ∀ w, site.Importing host rel way good w ∧ Uses host names w → halted w) :
    Usual host (fun w => site.Importing host rel way good w ∧ Uses host names w)
      fun _ w => halted w := by
  apply usual_of_steady
  · exact ⟨fun w hw => ⟨hw.1.pass sheltered, hw.2.pass⟩,
      fun w key hw => ⟨hw.1.congr rfl rfl rfl rfl rfl, hw.2.touch key⟩, fun _ w _ hw => h w hw⟩
  · exact fun w _ hw => ⟨hw.1.congr rfl rfl rfl rfl rfl, hw.2⟩
  · exact fun w _ _ hw => ⟨hw.1.congr rfl rfl rfl rfl rfl, hw.2⟩
  · exact fun w hw => h w hw

end Site.Importing

end ManicRoom.Cia
