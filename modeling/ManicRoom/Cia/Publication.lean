/-
# Publishing the title

The rename moves the staged title as a whole to a destination where there was nothing. It is
the last thing that can fail. After it the two guards set the user paths and the setting back
and remove the staging directory, whether the import has published its title or not.
-/

import ManicRoom.Cia.Confinement
import ManicRoom.Cia.Verification

namespace ManicRoom.Cia

open ManicRoom.Foundation ManicRoom.Storage

/-! ## The rename -/

/-- The title lies at its destination, where there was nothing before. -/
structure Site.Published (site : Site) (host : Host) (rel : List Filename)
    (moved : List Filename → Option (Node Filename Bytes)) (w : World) : Prop where
  absent : site.before.node (site.place ++ rel) = none
  since : Since site.before
    (fun p node => (site.place ++ rel <+: p ∨ OnTheWay site rel.dropLast p node) ∨ site.top <+: p) w
  destination : w.destination = some (.ofNames (site.root ++ rel))
  nonempty : rel ≠ []
  parent : w.files.node (site.place ++ rel.dropLast) = some .directory
  there : ∀ p, w.files.node (site.place ++ (rel ++ p)) = moved p
  exists_moved : moved [] ≠ none
  unlinked : ∀ p target, moved p ≠ some (.link target)
  calls : ∀ entry ∈ w.installer,
    Derived host.constants entry.2 (directoryText (.ofNames site.user))
  stranded : w.stranded = []

section Rename

variable {host : Host} {site : Site} {rel : List Filename} {w : World}
  {moved : List Filename → Option (Node Filename Bytes)}

/-- Down to the title there are directories, and in it there are no links. -/
theorem Site.Published.plain (published : site.Published host rel moved w) (more : List Filename) :
    w.files.Plain true site.place (rel ++ more) := by
  intro pre hpre hmore _ target hlink
  rcases List.prefix_or_prefix_of_prefix hmore (List.prefix_append rel more) with
    hshort | ⟨rest, rfl⟩
  · by_cases hrel : pre = rel
    · have hmoved := published.there []
      rw [List.append_nil, ← hrel, hlink] at hmoved
      exact published.unlinked [] target hmoved.symm
    · have hdirectory := FileTree.node_eq_directory_of_prefix published.parent hshort hrel
      exact nomatch hlink.symm.trans hdirectory
  · rw [published.there] at hlink
    exact published.unlinked rest target hlink

theorem Site.Published.leads (published : site.Published host rel moved w) :
    w.files.Leads site.root site.place :=
  site.rootLeads.keeps published.since.keeps

/-- Where the title lies no other process can create anything. -/
theorem Site.Published.pass_eq (published : site.Published host rel moved w) :
    pass host w = { w with clock := w.clock + 1 } := by
  rcases pass_cases host w with heq | ⟨_, destination, place, _, -, hdestination, hplace, hplant, -⟩
  · exact heq
  · cases published.destination.symm.trans hdestination
    have hplain : w.files.Plain false site.place rel :=
      (published.plain []).shorten (List.prefix_append rel [])
    rw [FileTree.locate_ofNames] at hplace
    obtain ⟨rfl, -⟩ := published.leads.eq_of_resolve published.nonempty hplain hplace
    have hfree := (FileTree.plant?_eq_some hplant).1
    have hmoved := published.there []
    rw [List.append_nil, hfree] at hmoved
    exact absurd hmoved.symm published.exists_moved

/-- **The rename** publishes the title that is in the staging directory. -/
theorem Site.published_of_rename {inner : List Filename → Option (Node Filename Bytes)}
    {title : List Filename} (unlinked : host.MakesNoLinks) (furnished : Furnished host inner)
    (sheltered : site.Sheltered host (sdmcName :: title))
    (importing : site.Importing host (sdmcName :: title) (sdmcName :: title).dropLast (· = inner) w)
    {files : Files} (h : w.files.renameExclusive host.here
      (.ofNames (site.user ++ sdmcName :: title)) (.ofNames (site.root ++ sdmcName :: title)) =
        some files) :
    site.Published host (sdmcName :: title) (fun p => inner (stagedNames title p))
      { w with files } := by
  have hhead := site.sdmc_ne_staging title
  have lies : Lies w.files site.user (site.top ++ [userName]) title fun p =>
      inner (stagedNames title p) := importing.lies unlinked furnished
  have hplain := importing.plain sheltered hhead
  have hleads := importing.kept.leads
  have hsource : w.files.Plain false (site.top ++ [userName]) (sdmcName :: title) := by
    have hlies := lies.plain []
    rw [List.append_nil] at hlies
    exact hlies.shorten (List.prefix_refl _)
  generalize hrel : sdmcName :: title = rel at *
  obtain ⟨q, q', hq, hq', hsome, hnone, hnode⟩ := FileTree.renameExclusive_eq_some h
  rw [FileTree.locate_ofNames] at hq hq'
  obtain ⟨rfl, -⟩ := lies.leads.eq_of_resolve sheltered.nonempty hsource hq
  obtain ⟨rfl, hparent⟩ := hleads.eq_of_resolve sheltered.nonempty hplain hq'
  -- What is not below the destination and not in the staging directory stays as it is.
  have hother {p : List Filename} (hbelow : ¬ site.place ++ rel <+: p) (htop : ¬ site.top <+: p) :
      files.node p = w.files.node p := by
    rw [hnode, if_neg hbelow, if_neg]
    intro hmoved
    rw [List.append_assoc] at hmoved
    exact htop ((List.prefix_append _ _).trans hmoved)
  have hmoved (p : List Filename) :
      w.files.node (site.top ++ [userName] ++ rel ++ p) = inner (stagedNames title p) := by
    rw [← hrel, List.append_assoc _ _ p]
    exact lies.node p
  have habsent := importing.kept.since.keeps.node_eq_none hnone
  have hkeeps : site.before.Keeps files := by
    apply site.keeps_of_outside
    intro p node htop hbefore
    rw [hother _ htop]
    · exact importing.kept.since.keeps p node hbefore
    · rintro ⟨rest, rfl⟩
      by_cases hrest : rest = []
      · rw [hrest, List.append_nil, habsent] at hbefore
        exact nomatch hbefore
      · rw [FileTree.node_eq_none (by rw [habsent]; nofun) hrest] at hbefore
        exact nomatch hbefore
  refine ⟨habsent, ⟨hkeeps, fun p hne => ?_⟩, importing.destination, sheltered.nonempty, ?_,
    fun p => ?_, ?_, fun p => furnished.unlinked unlinked _, importing.kept.calls,
    importing.kept.stranded⟩
  · by_cases hbelow : site.place ++ rel <+: p
    · exact .inr (.inl (.inl hbelow))
    · by_cases htop : site.top <+: p
      · exact .inr (.inr htop)
      · simp only [hother hbelow htop] at hne ⊢
        rcases importing.kept.since.new p hne with hintruded | hinside | honTheWay
        · exact .inl hintruded
        · exact absurd hinside htop
        · exact .inr (.inl (.inr honTheWay))
  · rw [hother]
    · exact hparent
    · intro hbelow
      have hlength := ((List.prefix_append_right_inj _).mp hbelow).length_le
      have hpositive := List.length_pos_iff.mpr sheltered.nonempty
      rw [List.length_dropLast] at hlength
      omega
    · exact Site.not_top_prefix hhead ( List.dropLast_prefix rel)
  · rw [hnode, ← List.append_assoc, if_pos (List.prefix_append _ _), List.drop_left]
    exact hmoved p
  · have hfirst := hmoved []
    rw [List.append_nil] at hfirst
    rwa [hfirst] at hsome

theorem Site.Published.congr {w' : World} (published : site.Published host rel moved w)
    (hfiles : w'.files = w.files) (hdestination : w'.destination = w.destination)
    (hintruded : w'.intruded = w.intruded) (hinstaller : w'.installer = w.installer)
    (hstranded : w'.stranded = w.stranded) : site.Published host rel moved w' where
  absent := published.absent
  since := published.since.congr hfiles hintruded
  destination := hdestination.trans published.destination
  nonempty := published.nonempty
  parent := hfiles ▸ published.parent
  there := hfiles ▸ published.there
  exists_moved := published.exists_moved
  unlinked := published.unlinked
  calls := hinstaller ▸ published.calls
  stranded := hstranded.trans published.stranded

/-- The last step of the commit. -/
theorem wp_rename {inner : List Filename → Option (Node Filename Bytes)} {title : List Filename}
    (unlinked : host.MakesNoLinks) (furnished : Furnished host inner)
    (sheltered : site.Sheltered host (sdmcName :: title))
    (importing :
      site.Importing host (sdmcName :: title) (sdmcName :: title).dropLast (· = inner) w) :
    Program.wp (do
      let renamed ← renameExclusive host (.ofNames (site.user ++ sdmcName :: title))
        (.ofNames (site.root ++ sdmcName :: title))
      require renamed .installFailed)
      (fun _ t => site.Published host (sdmcName :: title) (fun p => inner (stagedNames title p)) t)
      (fun _ t => site.Kept host (sdmcName :: title).dropLast t) w := by
  have importing := importing.pass sheltered
  simp only [renameExclusive, record, Program.wp_bind, Program.wp_get, Program.wp_modify]
  generalize pass host w = next at importing ⊢
  have importing : site.Importing host (sdmcName :: title) (sdmcName :: title).dropLast (· = inner)
      { next with events := .commit :: next.events } := importing.congr rfl rfl rfl rfl rfl
  have failed : Program.wp (require (false = true) .installFailed : Import Unit)
      (fun _ t => site.Published host (sdmcName :: title) (fun p => inner (stagedNames title p)) t)
      (fun _ t => site.Kept host (sdmcName :: title).dropLast t)
      { next with events := .commit :: next.events } := by
    rw [wp_require]
    exact ⟨nofun, fun _ => importing.kept⟩
  split
  · simp only [Program.wp_bind, Program.wp_get]
    split
    · next files hfiles =>
      simp only [Program.wp_bind, Program.wp_set, Program.wp_pure, wp_require]
      exact ⟨fun _ => site.published_of_rename unlinked furnished sheltered importing hfiles,
        fun hfalse => absurd trivial hfalse⟩
    · rw [Program.wp_pure]
      exact failed
  · rw [Program.wp_pure]
    exact failed

end Rename

/-! ## From the record to the rename -/

theorem ofNames_injective {names names' : List Filename}
    (h : (Path.ofNames names : Path Filename) = .ofNames names') : names = names' := by
  have hparts := congrArg Path.parts h
  rw [Path.ofNames_parts, Path.ofNames_parts] at hparts
  exact List.map_injective_iff.mpr (fun _ _ => Part.name.inj) hparts

/-- **From the change of the user path to the rename**: either the title is published, or there
is nothing but directories on the way and what is in the staging directory. -/
theorem wp_publish {host : Host} (lawful : host.Lawful) {site : Site} {size : UInt64}
    {staged : Staged} {file : Bytes} {title : List Filename} {w : World}
    (titled : host.Titled staged.valid.title.tid title)
    (inspected : Inspected host size staged file)
    (idle : Idle w) (copied : site.Copied w.files) (safe : w.memory.Safe) :
    (publish host (.ofNames site.root) site.stagingPath size staged).wp
      (fun _ t => ∃ moved, site.Published host (sdmcName :: title) moved t ∧
        Intact host staged.valid.title.tid title file staged.tmd moved)
      (fun _ t => site.Kept host (sdmcName :: title).dropLast t) w := by
  have hhead := site.sdmc_ne_staging title
  have hrel (rel : List Filename)
      (h : host.titleDirectory site.root staged.valid.title.tid = .ofNames (site.root ++ rel)) :
      rel = sdmcName :: title := by
    rw [titled.titleDirectory_eq site.nonempty] at h
    exact (List.append_cancel_left (ofNames_injective h)).symm
  rw [publish, Program.wp_bind]
  apply Program.wp_mono (wp_installStaged lawful.toConfined idle copied safe
    (fun rel h => .inr (hrel rel h ▸ hhead)) _ fun rel inner u installed safe =>
      wp_verify_installed lawful titled inspected installed safe) _
    fun _ t kept => kept.mono List.nil_prefix
  rintro ⟨stagedTitle, destination⟩ t ⟨rel, inner, installed, intact, htitles⟩
  obtain ⟨hstaged, hdestination⟩ := Prod.mk.inj htitles
  obtain rfl := hrel rel installed.title
  rw [titled.titleDirectory_eq (by simp [Site.user])] at hstaged
  subst hstaged hdestination
  dsimp only
  rw [commit_eq, Program.wp_bind]
  apply Program.wp_mono (wp_approach installed) _ fun _ _ kept => kept
  intro _ t approached
  have importing := approached.importing
  apply Program.wp_mono (wp_rename lawful.unlinked installed.furnished installed.sheltered
    ⟨importing.kept, importing.destination, importing.intruded, importing.inside hhead⟩) _
    fun _ _ kept => kept
  exact fun _ t published => ⟨_, published, intact⟩

/-! ## The guards -/

section Guards

variable {host : Host} {site : Site} {w : World}

/-- `~Paths()`, while the root is there. -/
theorem exists_restorePaths (hleads : (pass host w).files.Leads site.root site.place)
    (compression : Bool) :
    ∃ storage, Derived host.constants storage.paths (directoryText (.ofNames site.root)) ∧
      restorePaths host (.ofNames site.root) compression w =
        { pass host w with storage, compressCiaInstalls := compression } := by
  obtain ⟨storage, hderived, hswitch⟩ := switchUserPath_eq site.nonempty hleads
  exact ⟨storage, hderived, by rw [restorePaths, hswitch]⟩

/-- The system has failed to remove a directory. -/
def Host.Strands (host : Host) (w : World) (path : Path Filename) : Prop :=
  ∃ moment, (path, moment) ∈ w.stranded ∧ host.fault moment ≠ none

/-- The staging directory has been removed, or it has been left as it is. -/
structure Site.Tidied (site : Site) (host : Host) (w t : World) : Prop where
  outside : ∀ p, ¬ site.top <+: p → t.files.node p = w.files.node p
  inside : t.stranded = w.stranded ∧ (∀ p, site.top <+: p → t.files.node p = none) ∨
    host.Strands t site.stagingPath
  storage : t.storage = w.storage
  compression : t.compressCiaInstalls = w.compressCiaInstalls
  result : t.result = w.result
  installer : t.installer = w.installer
  intruded : t.intruded = w.intruded

/-- `~Temporary()` -/
theorem tidied_removeTemporary (hleads : (pass host w).files.Leads site.root site.place) :
    site.Tidied host (pass host w) (removeTemporary host site.stagingPath w) := by
  have hlocate : (pass host w).files.locate false host.here site.stagingPath = .ok site.top :=
    hleads.locate_concat site.staging
  have hnode := FileTree.node_removeAll hlocate (by simp [Site.top])
  unfold removeTemporary
  dsimp only
  split
  · refine ⟨fun p hp => ?_, .inl ⟨rfl, fun p hp => ?_⟩, rfl, rfl, rfl, rfl, rfl⟩
    · exact (hnode p).trans (if_neg hp)
    · exact (hnode p).trans (if_pos hp)
  · next hfault =>
    exact ⟨fun _ _ => rfl, .inr ⟨w.clock, List.mem_cons_self .., hfault⟩, rfl, rfl, rfl, rfl, rfl⟩

/-- Nothing is left of the staging directory, unless it has been left as a whole. -/
theorem Since.tidied {allowed : List Filename → Option (Node Filename Bytes) → Prop} {t : World}
    (since : Since site.before (fun p node => allowed p node ∨ site.top <+: p) w)
    (tidied : site.Tidied host w t) :
    Since site.before
      (fun p node => allowed p node ∨ host.Strands t site.stagingPath ∧ site.top <+: p) t := by
  refine ⟨site.keeps_of_outside fun p node hp hnode => ?_, fun p hne => ?_⟩
  · rw [tidied.outside p hp]
    exact since.keeps p node hnode
  · rw [tidied.intruded]
    by_cases hp : site.top <+: p
    · rcases tidied.inside with ⟨-, hnone⟩ | hstranded
      · obtain ⟨rest, rfl⟩ := hp
        rw [hnone _ (List.prefix_append _ _), site.before_top] at hne
        exact absurd rfl hne
      · exact .inr (.inr ⟨hstranded, hp⟩)
    · rw [tidied.outside p hp] at hne ⊢
      exact (since.new p hne).imp_right fun hallowed => .inl (hallowed.resolve_right hp)

/-- What holds when a call returns that has made a staging directory. -/
structure Site.Ended (site : Site) (host : Host) (start : World)
    (allowed : List Filename → Option (Node Filename Bytes) → Prop) (w : World) : Prop where
  rooted : Rooted start.files site.root site.place site.before
  since : Since site.before
    (fun p node => allowed p node ∨ host.Strands w site.stagingPath ∧ site.top <+: p) w
  calls : ∀ entry ∈ w.installer,
    Derived host.constants entry.2 (directoryText (.ofNames site.user))
  compression : w.compressCiaInstalls = start.compressCiaInstalls
  /-- A title has only been recorded if `Paths` has been constructed. -/
  storage : w.result.titleId ≠ 0 →
    Derived host.constants w.storage.paths (directoryText (.ofNames site.root))

section Ends

variable {start : World} {allowed : List Filename → Option (Node Filename Bytes) → Prop}

/-- The end of a call that has not constructed `Paths`. -/
theorem Site.Early.ended (rooted : Rooted start.files site.root site.place site.before)
    (early : site.Early start.compressCiaInstalls w) :
    site.Ended host start (OnTheWay site []) (removeTemporary host site.stagingPath w) ∧
      (removeTemporary host site.stagingPath w).result.titleId = 0 := by
  have hpass := early.quiet.pass_eq host
  have hleads : (pass host w).files.Leads site.root site.place := by
    rw [hpass]
    exact site.rootLeads.keeps early.copied.keeps
  have tidied := tidied_removeTemporary hleads
  have since := ((early.copied.since []).pass host).mono fun p node => Or.symm
  have htid : (removeTemporary host site.stagingPath w).result.titleId = 0 := by
    rw [tidied.result, hpass]
    exact early.quiet.titleId
  refine ⟨⟨rooted, since.tidied tidied, ?_, ?_, fun hne => absurd htid hne⟩, htid⟩
  · rw [tidied.installer, hpass, early.quiet.installer]
    nofun
  · rw [tidied.compression, hpass]
    exact early.quiet.compression

/-- The end of a call that has constructed `Paths`. -/
theorem Site.ended_of_since (rooted : Rooted start.files site.root site.place site.before)
    (since : Since site.before (fun p node => allowed p node ∨ site.top <+: p) w)
    (hcalls : ∀ entry ∈ w.installer,
      Derived host.constants entry.2 (directoryText (.ofNames site.user))) :
    site.Ended host start allowed (removeTemporary host site.stagingPath
      (restorePaths host (.ofNames site.root) start.compressCiaInstalls w)) := by
  obtain ⟨storage, hderived, hrestored⟩ := @exists_restorePaths host site w
    (site.rootLeads.keeps (since.pass host).keeps) start.compressCiaInstalls
  rw [hrestored]
  have since : Since site.before (fun p node => allowed p node ∨ site.top <+: p)
      { pass host w with storage, compressCiaInstalls := start.compressCiaInstalls } :=
    (since.pass host).congr rfl rfl
  have since := since.pass host
  have tidied := tidied_removeTemporary (site.rootLeads.keeps since.keeps)
  refine ⟨rooted, since.tidied tidied, ?_, ?_, fun _ => ?_⟩
  · rw [tidied.installer, pass_installer, pass_installer]
    exact hcalls
  · rw [tidied.compression, pass_compressCiaInstalls]
  · rw [tidied.storage, pass_storage]
    exact hderived

end Ends

end Guards

/-! ## The whole -/

section Whole

variable {host : Host}

/-- The guards leave the record as it is. -/
theorem result_guards (host : Host) (staging root : Path Filename) (compression : Bool)
    (w : World) :
    (removeTemporary host staging (restorePaths host root compression w)).result = w.result := by
  have hrestored : (restorePaths host root compression w).result = w.result := pass_result host w
  unfold removeTemporary
  dsimp only
  split <;> exact (pass_result host _).trans hrestored

/-- The record stays as it is while the title is installed and published. -/
theorem result_publish (root staging : Path Filename) (size : UInt64) (staged : Staged)
    (result : Result) :
    (publish host root staging size staged).Maintains (fun w => w.result = result)
      fun _ w => w.result = result := by
  have usual : Usual host (fun w => w.result = result) fun _ w => w.result = result :=
    usual_of_steady
      ⟨fun w hw => (pass_result host w).trans hw, fun _ _ hw => hw, fun _ _ _ hw => hw⟩
      (fun _ _ hw => hw) (fun _ _ _ hw => hw) fun _ hw => hw
  have hswitch (w : World) (text : Text) (hw : w.result = result) :
      (switchUserPath host text w).result = result := (pass_result host w).trans hw
  have hcall (call : InstallerCall) (w : World) (hw : w.result = result) :
      (callInstaller host call w).1.result = result := (pass_result host w).trans hw
  apply Program.Maintains.bind (maintains_installStaged usual.toPaced root staging staged.stream
    size staged.valid staged.tmd hswitch (fun _ _ hw => hw) (fun _ _ hw _ => hw) (fun _ hw => hw)
    hcall fun _ => hcall .destroy)
  intro titles
  exact maintains_commit usual.toSteady _ _ _ hswitch (fun _ _ hw => hw) fun _ hw => hw

/-- What a call leaves that has published its title. -/
structure Site.Imported (site : Site) (host : Host) (start : World) (title : List Filename)
    (file : Bytes) (tmd : TitleMetadata) (w : World) : Prop where
  ended : site.Ended host start (fun p node => site.place ++ sdmcName :: title <+: p ∨
    OnTheWay site (sdmcName :: title).dropLast p node) w
  titled : host.Titled w.result.titleId title
  titleId : w.result.titleId.toNat = Cia.titleId (tmdBytes file)
  absent : site.before.node (site.place ++ sdmcName :: title) = none
  finds : host.Finds w.files (host.card site.root) w.result.titleId file tmd

theorem Site.Published.imported {site : Site} {start w : World} {title : List Filename}
    {moved : List Filename → Option (Node Filename Bytes)} {file : Bytes} {tmd : TitleMetadata}
    (rooted : Rooted start.files site.root site.place site.before)
    (titled : host.Titled w.result.titleId title)
    (htid : w.result.titleId.toNat = titleId (tmdBytes file))
    (published : site.Published host (sdmcName :: title) moved w)
    (intact : Intact host w.result.titleId title file tmd moved) :
    site.Imported host start title file tmd (removeTemporary host site.stagingPath
      (restorePaths host (.ofNames site.root) start.compressCiaInstalls w)) := by
  have ended := @Site.ended_of_since host site w start _ rooted published.since published.calls
  have hpass := published.pass_eq
  obtain ⟨storage, -, hrestored⟩ := @exists_restorePaths host site w
    (by rw [hpass]; exact published.leads) start.compressCiaInstalls
  rw [hrestored, hpass] at ended ⊢
  have restored : site.Published host (sdmcName :: title) moved
      { w with
        clock := w.clock + 1, storage, compressCiaInstalls := start.compressCiaInstalls } :=
    published.congr rfl rfl rfl rfl rfl
  have hpass := restored.pass_eq
  have tidied := @tidied_removeTemporary host site _ (by rw [hpass]; exact restored.leads)
  rw [hpass] at tidied
  generalize removeTemporary host site.stagingPath _ = t at ended tidied ⊢
  have hresult : t.result.titleId = w.result.titleId := congrArg Result.titleId tidied.result
  rw [← hresult] at titled htid intact
  have houtside (more : List Filename) {pre : List Filename}
      (hpre : pre <+: sdmcName :: title ++ more) :
      t.files.node (site.place ++ pre) = w.files.node (site.place ++ pre) :=
    tidied.outside _ ( Site.not_top_prefix (site.sdmc_ne_staging (title ++ more)) hpre)
  refine ⟨ended, titled, htid, published.absent, intact _ _ site.place ⟨site.nonempty,
    site.rootLeads.keeps ended.since.keeps, fun more pre hpre hmore hlast target => ?_,
    fun p => ?_⟩⟩
  · rw [houtside more hmore]
    exact published.plain more pre hpre hmore hlast target
  · rw [houtside p (List.prefix_refl _)]
    exact published.there p

/-- What a call leaves that has not published a title: it has stopped before it made a staging
directory, or before it recorded the title, or on the way to the destination. -/
inductive Abandoned (host : Host) (rootArg : Option Text) (start w : World) : Prop
  | unstaged (names : List Filename)
      (unstaged : Unstaged start.files names start.compressCiaInstalls w)
      (root : w.files = start.files ∨ AsRequested host rootArg start names)
  | early (site : Site) (root : AsRequested host rootArg start site.root)
      (ended : site.Ended host start (OnTheWay site []) w) (titleId : w.result.titleId = 0)
  | late (site : Site) (root : AsRequested host rootArg start site.root) (title : List Filename)
      (titled : host.Titled w.result.titleId title)
      (ended : site.Ended host start (OnTheWay site (sdmcName :: title).dropLast) w)

/-- The two guards around the work below the staging directory. -/
theorem wp_importStaged (lawful : host.Lawful) {rootArg : Option Text} {site : Site}
    {start w : World} (root : AsRequested host rootArg start site.root) (original : Stream)
    {size : UInt64} (hsize : 0x2020 ≤ size.toNat)
    (rooted : Rooted start.files site.root site.place site.before)
    (early : site.Early start.compressCiaInstalls w) (safe : w.memory.Safe) :
    (importStaged host (.ofNames site.root) site.stagingPath original size).wp
      (fun _ t => ∃ title file staged, Covers original 0 size.toNat file ∧
        Inspected host size staged file ∧
        site.Imported host start title file staged.tmd (removeTemporary host site.stagingPath t))
      (fun _ t => Abandoned host rootArg start (removeTemporary host site.stagingPath t)) w := by
  rw [importStaged_eq, Program.wp_bind]
  apply Program.wp_mono (wp_stage host original hsize early safe) _ fun _ t early =>
    .early site root (early.ended rooted).1 (early.ended rooted).2
  intro staged t ⟨⟨idle, hcompression, htid, copied, file, inspected, hcovers⟩, safe⟩
  obtain ⟨title, titled⟩ := lawful.exists_title staged.valid.title.tid
  rw [Program.wp_bind, Program.wp_get, Program.wp_ensuring, hcompression]
  apply Program.wp_mono (Program.wp_and (wp_publish lawful titled inspected idle copied safe)
    ((result_publish _ _ size staged t.result).run t rfl))
  · intro _ u ⟨⟨moved, published, intact⟩, hresult⟩
    rw [← hresult] at htid
    have hid := inspected.describes.title.tid
    rw [← htid] at titled intact hid
    exact ⟨title, file, staged, hcovers, inspected,
      published.imported rooted titled hid intact⟩
  · intro _ u ⟨kept, hresult⟩
    rw [← htid, ← hresult, ← result_guards host site.stagingPath (.ofNames site.root)
      start.compressCiaInstalls] at titled
    exact .late site root title titled
      (site.ended_of_since rooted (kept.since.mono fun p node => Or.symm) kept.calls)

/-- **A call ends with its title published, or it leaves nothing of it.** -/
theorem wp_install (lawful : host.Lawful) (rootArg pathArg : Option Text) (start : World) :
    (install host rootArg pathArg).wp
      (fun _ t => ∃ (site : Site) (title : List Filename) (size : UInt64) (file : Bytes)
        (staged : Staged), AsRequested host rootArg start site.root ∧
        start.files.readFile host.here (.parse (pathArg.getD [])) = some file ∧
        Inspected host size staged file ∧ site.Imported host start title file staged.tmd t)
      (fun _ t => Abandoned host rootArg start t) start.fresh := by
  rw [install]
  refine @wp_begin _ host rootArg pathArg start (fun root original size staging =>
      Program.ensuring (importStaged host root staging original size)
        (removeTemporary host staging))
    _ _ (fun _ names _ unstaged root => .unstaged names unstaged root) ?_
  intro site original size t begun
  rw [Program.wp_ensuring]
  apply Program.wp_mono (@wp_importStaged host lawful rootArg site start t begun.root original size
    begun.least begun.rooted begun.early begun.safe) _ fun _ _ h => h
  rintro _ t ⟨title, file, staged, hcovers, inspected, imported⟩
  rcases hcovers with ⟨h0, -⟩ | ⟨content, horiginal, -, hfile⟩
  · have hleast := begun.least
    omega
  · obtain ⟨hread, hlength⟩ := begun.input content horiginal
    rw [hlength, slice_whole] at hfile
    exact ⟨site, title, size, file, staged, begun.root, hfile ▸ hread, inspected, imported⟩

end Whole

end ManicRoom.Cia
