/-
# The staging directory

Everything that an import prepares lies in a directory of its own below the root. The rules
in this module follow an import from its arguments to the staged title: what it has changed at
each point, and that nothing outside the staging directory is touched, whatever the input is
and wherever the import stops. Another process may create the destination meanwhile.
-/

import ManicRoom.Cia.Looking
import ManicRoom.Foundation.Operations
import ManicRoom.Storage.Isolation

namespace ManicRoom.Cia

open ManicRoom.Foundation ManicRoom.Storage

/-! ## What is relied on -/

/-- The functions of the emulator that the importer calls: for an SD card with an absolute path a
title path is absolute, and the installer works below the user directory. -/
structure Host.Confined (host : Host) : Prop where
  titlePath : ∀ sdmc tid, (Path.parse sdmc : Path Filename).absolute = true →
    (Path.parse (host.titlePath sdmc tid) : Path Filename).absolute = true
  installer : ∀ calls (paths : PathMap) files user place, paths.lookup .userDir = some user →
    files.locate true host.here (.parse user) = .ok place →
      ∀ p, (place <+: p → p = place) → (host.installer calls paths files).1.node p = files.node p

/-! ## What does not change the files -/

section Usual

variable {host : Host} {holds : World → Prop} {halted : Stop → World → Prop}

/-- An invariant that says nothing about the logs, but possibly whether there was a commit. -/
theorem usual_of_steady (steady : Steady host holds halted)
    (hmemory : ∀ w memory, holds w → holds { w with memory })
    (hevents : ∀ w event, event ≠ .commit → holds w →
      holds { w with events := event :: w.events })
    (hcancel : ∀ w, holds w → halted (.failure .cancelled) w) : Usual host holds halted := by
  have checkRule : (check host).Maintains holds halted :=
    ⟨fun w hw => wp_check (fun _ => hw) (fun _ _ => hevents w _ nofun hw)
      fun _ _ _ => hcancel _ (hevents w _ nofun hw)⟩
  have recordRule (use : BlockUse) (offset : ℕ) (bytes : Bytes) :
      (record (.block use offset bytes)).Maintains holds halted :=
    .modify fun w hw => hevents w _ nofun hw
  have noteRule (event : MemoryEvent) : (policy (note event)).Maintains holds halted :=
    maintains_policy steady hmemory calm_note
  have hashRule (stream : Stream) (use : BlockUse) (limit offset size : UInt64) :
      (hash host stream use limit offset size).Maintains holds halted := by
    apply Program.Maintains.map
    generalize host.hash.initial = state
    induction offset, size, state using hashBlocks.induct host with
    | case1 offset size state hsize ih =>
        rw [hashBlocks, if_pos hsize]
        apply Program.Maintains.bind checkRule
        intro _
        apply Program.Maintains.bind (maintains_read steady hmemory ..)
        intro b
        apply Program.Maintains.bind (recordRule ..)
        intro _
        apply Program.Maintains.bind (noteRule _)
        intro _
        exact .bind (noteRule _) fun _ => ih b
    | case2 offset size state hsize =>
        rw [hashBlocks, if_neg hsize]
        exact .pure state
  refine ⟨⟨steady, checkRule, fun stream size => hashRule .., ?_⟩, hmemory, hashRule⟩
  intro stream use size body hbody
  generalize (0 : UInt64) = offset
  induction offset using forBlocks.induct size with
  | case1 offset hlt ih =>
      rw [forBlocks, if_pos hlt]
      apply Program.Maintains.bind checkRule
      intro _
      apply Program.Maintains.bind (noteRule _)
      intro _
      apply Program.Maintains.bind (maintains_read steady hmemory ..)
      intro b
      apply Program.Maintains.bind (recordRule ..)
      intro _
      apply Program.Maintains.bind (hbody offset b)
      intro _
      exact .bind (noteRule _) fun _ => ih
  | case2 offset hlt =>
      rw [forBlocks, if_neg hlt]
      exact .pure ()

/-- A moment that passes keeps everything that exists. -/
theorem keeps_pass (host : Host) (w : World) : w.files.Keeps (pass host w).files := by
  have hfiles : (pass host w).files = (intruded host w).files := by rw [pass_eq]
  rw [hfiles]
  unfold intruded
  split
  · split
    · split
      · next hplant => exact FileTree.keeps_plant? hplant
      · exact .refl _
    · exact .refl _
  · exact .refl _

end Usual

/-- No destination is known yet, and nothing has been done but to the files. -/
structure Idle (w : World) : Prop where
  destination : w.destination = none
  intruded : w.intruded = []
  stranded : w.stranded = []
  installer : w.installer = []

/-- Then no other process acts either. -/
theorem Idle.pass_eq {w : World} (idle : Idle w) (host : Host) :
    pass host w = { w with clock := w.clock + 1 } :=
  pass_of_destination_none host w idle.destination

/-- Besides, the caller knows nothing of a title, and the setting is as it was. -/
structure Quiet (compression : Bool) (w : World) : Prop extends Idle w where
  compression : w.compressCiaInstalls = compression
  titleId : w.result.titleId = 0

/-- Nothing has been recorded of a call. -/
def World.fresh (w : World) : World :=
  { w with
    result := .initial
    destination := none
    events := []
    memory := []
    installer := []
    intruded := []
    stranded := [] }

theorem quiet_fresh (w : World) : Quiet w.compressCiaInstalls w.fresh :=
  ⟨⟨rfl, rfl, rfl, rfl⟩, rfl, rfl⟩

/-- An invariant about the files and what nothing changes that only looks at them. -/
theorem quiet_usual (host : Host) (compression : Bool) (holds : Files → Prop)
    (halted : World → Prop) (h : ∀ w, Quiet compression w → holds w.files → halted w) :
    Usual host (fun w => Quiet compression w ∧ holds w.files) fun _ w => halted w := by
  refine usual_of_steady ⟨fun w hw => ?_, fun w key hw => ?_, fun _ w _ hw => h w hw.1 hw.2⟩
    (fun w memory hw => ?_) (fun w event _ hw => ?_) fun w hw => h w hw.1 hw.2
  · rw [hw.1.pass_eq]
    exact ⟨⟨⟨hw.1.1.1, hw.1.1.2, hw.1.1.3, hw.1.1.4⟩, hw.1.2, hw.1.3⟩, hw.2⟩
  · exact ⟨⟨⟨hw.1.1.1, hw.1.1.2, hw.1.1.3, hw.1.1.4⟩, hw.1.2, hw.1.3⟩, hw.2⟩
  · exact ⟨⟨⟨hw.1.1.1, hw.1.1.2, hw.1.1.3, hw.1.1.4⟩, hw.1.2, hw.1.3⟩, hw.2⟩
  · exact ⟨⟨⟨hw.1.1.1, hw.1.1.2, hw.1.1.3, hw.1.1.4⟩, hw.1.2, hw.1.3⟩, hw.2⟩

/-! ## The arguments -/

/-- The tests before anything is written look at the files of one moment. If the input could be
opened, it has the size that is taken of it. -/
theorem wp_checkArguments_root (host : Host) (rootArg pathArg : Option Text) {compression : Bool}
    {w : World} (quiet : Quiet compression w) :
    (checkArguments host rootArg pathArg).wp
      (fun arguments t => (Quiet compression t ∧ t.files = w.files) ∧
        RootFacts host w.files (.parse (rootArg.getD []))
          (.parse (host.home.getD []) / literal "Documents") arguments.1 ∧
        ∀ content, arguments.2.1 = some content →
          w.files.readFile host.here (.parse (pathArg.getD [])) = some content ∧
            arguments.2.2.toNat = content.length)
      (fun _ t => Quiet compression t ∧ t.files = w.files) w := by
  have usual := quiet_usual host compression (· = w.files)
    (fun t => Quiet compression t ∧ t.files = w.files) fun _ quiet hfiles => ⟨quiet, hfiles⟩
  have requireRule {ok : Prop} [Decidable ok] {status : Status} (h : status.Ordinary) :
      (require ok status).Maintains (fun t => Quiet compression t ∧ t.files = w.files)
        fun _ t => Quiet compression t ∧ t.files = w.files :=
    maintains_require usual.toSteady h
  have hw : Quiet compression w ∧ w.files = w.files := ⟨quiet, rfl⟩
  apply Program.Maintains.andThen (requireRule (by decide)) hw
  intro _ u hu
  apply Program.Maintains.andThen (requireRule (by decide)) hu
  intro _ u hu
  apply Program.Maintains.andThen (requireRule (by decide)) hu
  intro _ u hu
  rw [Program.wp_bind]
  apply Program.wp_mono (wp_root usual.toSteady (fun _ h => h.2) hu) _ fun _ _ h => h
  intro root u ⟨hu, facts⟩
  apply Program.Maintains.andThen
    (.andM (.pure _) (.andM (maintains_isRegularFile usual.toSteady _)
      (.map _ (maintains_isSymlink usual.toSteady _)))) hu
  intro suitable u hu
  apply Program.Maintains.andThen (requireRule (by decide)) hu
  intro _ u hu
  rw [Program.wp_bind]
  apply wp_fileSize usual.toSteady hu
  intro measured u hu hmeasured hlength
  rw [hu.2] at hmeasured
  have hsize : (UInt64.ofNat measured.length).toNat = measured.length :=
    UInt64.toNat_ofNat_of_lt' (by simp only [UInt64.size]; omega)
  apply Program.Maintains.andThen (requireRule (by decide)) hu
  intro _ u hu
  rw [Program.wp_bind]
  apply wp_openStream usual.toSteady hu
  intro original u hu horiginal
  rw [hu.2] at horiginal
  apply Program.Maintains.andThen (maintains_read usual.toSteady usual.memory ..) hu
  intro bytes u hu
  apply Program.Maintains.andThen
    (maintains_policy usual.toSteady usual.memory (calm_header ..)) hu
  intro _ u hu
  apply Program.Maintains.andThen usual.check hu
  intro _ u hu
  refine (Program.wp_pure _).mpr ⟨hu, facts, fun content hcontent => ?_⟩
  have hread := horiginal content hcontent
  rw [hmeasured, Option.some.injEq] at hread
  exact ⟨hread ▸ hmeasured, hread ▸ hsize⟩

/-! ## Making the staging directory -/

/-- Nothing is new but directories on the way to the root, one below the other down to `last`. -/
structure Rooted (before : Files) (root last : List Filename) (files : Files) : Prop where
  keeps : before.Keeps files
  new : ∀ p, files.node p ≠ before.node p →
    files.node p = some .directory ∧ p <+: last ∧ ∃ pre, pre <+: root ∧ files.Leads pre p

theorem Rooted.refl (files : Files) (root last : List Filename) : Rooted files root last files :=
  ⟨.refl files, fun _ hne => absurd rfl hne⟩

/-- Where an import works: the root and the place where its names lead, the name of the staging
directory, and the files right before that has been made. -/
structure Site where
  root : List Filename
  place : List Filename
  staging : Filename
  before : Files
  nonempty : root ≠ []
  leads : ∀ pre, pre <+: root → ∃ q, before.Leads pre q
  rootLeads : before.Leads root place
  fresh : before.node (place ++ [staging]) = none
  hidden : staging.text.head? = some '.'

namespace Site

variable (site : Site)

/-- The place of the staging directory. -/
def top : List Filename := site.place ++ [site.staging]

/-- `staging.path` -/
def stagingPath : Path Filename := .ofNames (site.root ++ [site.staging])

/-- Nothing was below the staging directory. -/
theorem before_top (p : List Filename) : site.before.node (site.top ++ p) = none := by
  by_cases hp : p = []
  · subst hp
    simpa [top] using site.fresh
  · exact FileTree.node_eq_none (by rw [top, site.fresh]; nofun) hp

/-- The files while the input is copied: besides the copy nothing is in the staging directory. -/
structure Copied (files : Files) : Prop where
  outside : ∀ p, ¬ site.top <+: p → files.node p = site.before.node p
  top : files.node site.top = some .directory
  inside : ∀ p, p ≠ [] → files.node (site.top ++ p) ≠ none → p = [inputName]
  input : ∀ target, files.node (site.top ++ [inputName]) ≠ some (.link target)

end Site

/-- What is kept outside the staging directory is all that was there. -/
theorem Site.keeps_of_outside {site : Site} {files : Files}
    (h : ∀ p node, ¬ site.top <+: p → site.before.node p = some node → files.node p = some node) :
    site.before.Keeps files := by
  intro p node hnode
  by_cases htop : site.top <+: p
  · obtain ⟨rest, rfl⟩ := htop
    exact nomatch hnode.symm.trans (site.before_top rest)
  · exact h p node htop hnode

theorem Site.Copied.keeps {site : Site} {files : Files} (copied : site.Copied files) :
    site.before.Keeps files :=
  site.keeps_of_outside fun p _ htop hnode => (copied.outside p htop).trans hnode

/-- Making directories along names from the root directory. -/
theorem rooted_createDirectories {t made : Files} {here names : List Filename} {limit : Option ℕ}
    {ok : Bool}
    (h : FileTree.createDirectories here true t limit [] (names.map .name) = (made, ok)) :
    ∃ last, Rooted t names last made ∧ (ok = true →
      (∀ pre, pre <+: names → ∃ q, made.Leads pre q) ∧ made.Leads names last) := by
  obtain ⟨existing, missing, q, new, rfl, hmade, hok⟩ := (FileTree.Leads.root t).exists_made h
  refine ⟨q ++ missing, ⟨hmade.grown.keeps, fun p hne => ?_⟩, fun htrue => ?_⟩
  · obtain ⟨pre, hpre, hnew, rfl⟩ := hmade.grown.eq_append hne
    have hdirectory := (hmade.grown.made pre hpre hnew).2
    have hmissing : pre <+: missing := hnew.trans hmade.isPrefix
    refine ⟨hdirectory, (List.prefix_append_right_inj q).mpr hmissing, existing ++ pre, ?_, ?_⟩
    · exact (List.prefix_append_right_inj existing).mpr hmissing
    · exact (hmade.last.keeps hmade.grown.keeps).append hdirectory
  · cases hok htrue
    exact hmade.leads_complete

/-- The staging directory right after it has been made. -/
theorem Site.copied_of_mkdir {site : Site} {here : List Filename} {files : Files}
    (h : site.before.mkdir here site.stagingPath = some files) : site.Copied files := by
  obtain ⟨-, hnode⟩ := site.rootLeads.mkdir_eq_some h
  have hbelow (p : List Filename) (hp : p ≠ []) : files.node (site.top ++ p) = none := by
    rw [hnode, if_neg (by simpa [Site.top] using hp)]
    exact site.before_top p
  refine ⟨fun p htop => ?_, ?_, fun p hp hsome => absurd (hbelow p hp) hsome,
    fun target hlink => nomatch (hbelow _ (by simp)).symm.trans hlink⟩
  · rw [hnode, if_neg]
    rintro rfl
    exact htop (List.prefix_refl _)
  · rw [hnode, if_pos]
    rfl

/-- Where the importer stops before there is a staging directory. -/
def Unstaged (before : Files) (root : List Filename) (compression : Bool) (w : World) : Prop :=
  Quiet compression w ∧ ∃ last, Rooted before root last w.files

theorem Quiet.files {compression : Bool} {w : World} (quiet : Quiet compression w) (files : Files) :
    Quiet compression { w with files } :=
  ⟨⟨quiet.1.1, quiet.1.2, quiet.1.3, quiet.1.4⟩, quiet.2, quiet.3⟩

/-- `create_directories(root)` -/
theorem wp_createRoot (host : Host) {names : List Filename} {compression : Bool} {before : Files}
    {w : World} (quiet : Quiet compression w) (hfiles : w.files = before) :
    (createDirectories host (.ofNames names)).wp
      (fun _ t => Quiet compression t ∧ (∀ pre, pre <+: names → ∃ q, t.files.Leads pre q) ∧
        ∃ place, Rooted before names place t.files ∧ t.files.Leads names place)
      (fun _ t => Unstaged before names compression t) w := by
  apply wp_createDirectories
  intro limit made ok hmade
  rw [quiet.pass_eq] at hmade ⊢
  simp only [hfiles, Path.ofNames_absolute, Path.ofNames_parts] at hmade
  obtain ⟨last, rooted, hleads⟩ := rooted_createDirectories hmade
  have quiet' : Quiet compression { w with clock := w.clock + 1, files := made } :=
    ⟨⟨quiet.1.1, quiet.1.2, quiet.1.3, quiet.1.4⟩, quiet.2, quiet.3⟩
  exact ⟨⟨quiet', last, rooted⟩, fun hok => ⟨quiet', (hleads hok).1, last, rooted, (hleads hok).2⟩⟩

/-- `mkdtemp` -/
theorem wp_makeTemporary (host : Host) {names : List Filename} (hnames : names ≠ [])
    {compression : Bool} {before : Files} {w : World} (quiet : Quiet compression w)
    (hprefixes : ∀ pre, pre <+: names → ∃ q, w.files.Leads pre q) {place : List Filename}
    (rooted : Rooted before names place w.files) (hroot : w.files.Leads names place) :
    (makeTemporary host (.ofNames names)).wp
      (fun staging t => ∃ site : Site, site.root = names ∧ staging = site.stagingPath ∧
        Rooted before names site.place site.before ∧ Quiet compression t ∧ site.Copied t.files)
      (fun _ t => Unstaged before names compression t) w := by
  have stopped (t : World) (quiet : Quiet compression t) (hfiles : t.files = w.files) :
      Unstaged before names compression t := ⟨quiet, place, hfiles ▸ rooted⟩
  have usual := quiet_usual host compression (· = w.files) (Unstaged before names compression)
    stopped
  have hw : Quiet compression w ∧ w.files = w.files := ⟨quiet, rfl⟩
  rw [makeTemporary, Program.wp_bind, Program.wp_get]
  apply Program.Maintains.andThen
    (maintains_attempt usual.toSteady (ordinary_failure (by decide))) hw
  intro _ t ht
  split
  · next name hname =>
    rw [Program.wp_bind, Program.wp_get, Path.ofNames_div_ofPart]
    split
    · next files hfiles =>
      simp only [Program.wp_bind, Program.wp_set, Program.wp_pure]
      rw [ht.2] at hfiles
      have hhidden : name.text.head? = some '.' := by
        unfold Filename.ofText? at hname
        split at hname
        · cases hname
          rfl
        · cases hname
      let site : Site :=
        { root := names
          place := place
          staging := name
          before := w.files
          nonempty := hnames
          leads := hprefixes
          rootLeads := hroot
          fresh := (hroot.mkdir_eq_some hfiles).1
          hidden := hhidden }
      exact ⟨site, rfl, rfl, rooted, ht.1.files files, site.copied_of_mkdir hfiles⟩
    · exact (Program.wp_throw _).mpr (stopped t ht.1 ht.2)
  · exact (Program.wp_throw _).mpr (stopped t ht.1 ht.2)

/-- **The staging directory is made** below the root, at a place where there was nothing. -/
theorem wp_makeStaging (host : Host) {names : List Filename} (hnames : names ≠ []) (size : UInt64)
    {compression : Bool} {before : Files} {w : World} (quiet : Quiet compression w)
    (hfiles : w.files = before) :
    (makeStaging host (.ofNames names) size).wp
      (fun staging t => ∃ site : Site, site.root = names ∧ staging = site.stagingPath ∧
        Rooted before names site.place site.before ∧ Quiet compression t ∧ site.Copied t.files)
      (fun _ t => Unstaged before names compression t) w := by
  rw [makeStaging, Program.wp_bind]
  apply Program.wp_mono (wp_createRoot host quiet hfiles) _ fun _ _ h => h
  intro _ u ⟨quiet, hprefixes, place, rooted, hroot⟩
  have usual := quiet_usual host compression (· = u.files) (Unstaged before names compression)
    fun t quiet hfiles => ⟨quiet, place, hfiles ▸ rooted⟩
  have hu : Quiet compression u ∧ u.files = u.files := ⟨quiet, rfl⟩
  rw [Program.wp_bind, Program.wp_get]
  apply Program.Maintains.andThen (maintains_attempt usual.toSteady ordinary_exception) hu
  intro _ t ht
  apply Program.Maintains.andThen
    (maintains_policy usual.toSteady usual.memory calm_multiply) ht
  intro twice t ht
  apply Program.Maintains.andThen (maintains_policy usual.toSteady usual.memory calm_add) ht
  intro needed t ht
  apply Program.Maintains.andThen (maintains_require usual.toSteady (by decide)) ht
  intro _ t ht
  rw [← ht.2] at hroot hprefixes rooted
  exact wp_makeTemporary host hnames ht.1 hprefixes rooted hroot

end ManicRoom.Cia
