/-
# Where an import commits

Before the rename the importer goes once more over the way from the root to the destination.
If it comes to the rename there is no link on the way, so that the directories that are made
for the destination lie where their names say, and the rename puts the title there.
-/

import ManicRoom.Cia.Cancellation
import ManicRoom.Cia.Titles

namespace ManicRoom.Cia

open ManicRoom.Foundation ManicRoom.Storage

/-! ## Up to the rename -/

/-- What is done of the commit before the rename. -/
def approach (host : Host) (root destination : Path Filename) : Import Unit := do
  noLinks host root (destination.relativeTo root)
  let there ← pathExists host destination
  require (there = false) .alreadyInstalled
  createDirectories host destination.parent
  requireUserPath host (directoryText root)

theorem commit_eq (host : Host) (root stagedTitle destination : Path Filename) :
    commit host root stagedTitle destination =
      approach host root destination >>= fun _ =>
        renameExclusive host stagedTitle destination >>= fun renamed =>
          require renamed .installFailed := by
  simp only [commit, approach, bind_assoc]

/-- A directory on the way, seen from the root. -/
def OnTheWay (site : Site) (way p : List Filename) (node : Option (Node Filename Bytes)) : Prop :=
  node = some .directory ∧ ∃ pre, pre <+: way ∧ p = site.place ++ pre

/-- What is there right before the rename, compared with the files at the last poll. -/
structure Site.Approached (site : Site) (host : Host) (files : Files) (rel : List Filename)
    (inner : List Filename → Option (Node Filename Bytes)) (w : World) : Prop where
  importing : site.Importing host rel rel.dropLast
    (fun content => rel.head? ≠ some site.staging → content = inner) w
  uses : Uses host site.root w
  plain : files.Plain true site.place rel
  since : Since files (OnTheWay site rel.dropLast) w
  parent : w.files.node (site.place ++ rel.dropLast) = some .directory

section Approach

variable {host : Host} {site : Site} {tid : UInt64} {rel : List Filename}
  {inner : List Filename → Option (Node Filename Bytes)} {w : World}

/-- `create_directories(destination.parent_path())` -/
theorem wp_createParent {files : Files} (sheltered : site.Sheltered host rel)
    (plain : files.Plain true site.place rel)
    (importing : site.Importing host rel [] (· = inner) w)
    (since : Since files (fun _ _ => False) w) :
    (createDirectories host (Path.ofNames (site.root ++ rel)).parent).wp
      (fun _ t => site.Importing host rel rel.dropLast
          (fun content => rel.head? ≠ some site.staging → content = inner) t ∧
        Since files (OnTheWay site rel.dropLast) t ∧
        t.files.node (site.place ++ rel.dropLast) = some .directory)
      (fun _ t => site.Kept host rel.dropLast t) w := by
  have importing := importing.pass sheltered
  have since := since.pass host
  apply wp_createDirectories
  intro limit made ok hmade
  generalize pass host w = next at importing since hmade ⊢
  rw [ofNames_parent, List.dropLast_append_of_ne_nil sheltered.nonempty, Path.ofNames_absolute,
    Path.ofNames_parts] at hmade
  have hprefixes (pre : List Filename) (hpre : pre <+: site.root) :
      ∃ q, next.files.Leads pre q := by
    obtain ⟨q, hq⟩ := site.leads pre hpre
    exact ⟨q, hq.keeps importing.kept.since.keeps⟩
  have hway : next.files.Plain true site.place rel.dropLast := by
    intro pre hpre hmore _ target hlink
    by_cases hsame : next.files.node (site.place ++ pre) = files.node (site.place ++ pre)
    · rw [hsame] at hlink
      exact plain pre hpre (hmore.trans ( List.dropLast_prefix rel)) (.inr rfl) target hlink
    · rcases since.new _ hsame with ⟨q, hmem, hq⟩ | hfalse
      · rw [importing.intruded q hmem, List.prefix_append_right_inj] at hq
        have hlength := (hq.trans hmore).length_le
        have hpositive := List.length_pos_iff.mpr sheltered.nonempty
        rw [List.length_dropLast] at hlength
        omega
      · exact hfalse
  obtain ⟨hkeeps, hnew, hparent⟩ :=
    importing.kept.leads.createDirectories_below hprefixes hway hmade
  have hsame {p : List Filename} (hp : ¬ OnTheWay site rel.dropLast p (made.node p)) :
      made.node p = next.files.node p := not_not.mp fun hne => hp (hnew p hne)
  have kept : site.Kept host rel.dropLast { next with files := made } := by
    refine ⟨⟨importing.kept.since.keeps.trans hkeeps, fun p hne => ?_⟩, importing.kept.calls,
      importing.kept.stranded⟩
    by_cases hp : OnTheWay site rel.dropLast p (made.node p)
    · exact .inr (.inr hp)
    · simp only [hsame hp] at hne ⊢
      exact (importing.kept.mono List.nil_prefix).since.new p hne
  refine ⟨kept, fun hok => ⟨⟨kept, importing.destination, importing.intruded, fun hhead => ?_⟩,
    ⟨since.keeps.trans hkeeps, fun p hne => ?_⟩, hparent hok⟩⟩
  · rw [← importing.inside]
    funext p
    refine hsame fun ⟨_, pre, hpre, hp⟩ => ?_
    have htop : site.top <+: site.place ++ pre := hp ▸ List.prefix_append site.top p
    exact Site.not_top_prefix hhead (hpre.trans ( List.dropLast_prefix rel)) htop
  · by_cases hp : OnTheWay site rel.dropLast p (made.node p)
    · exact .inr hp
    · simp only [hsame hp] at hne ⊢
      exact (since.new p hne).imp_right False.elim

/-- **Right before the rename** there is no link on the way, and the directory of the
destination lies where its names say. -/
theorem wp_approach (installed : site.Installed host tid rel inner w) :
    (approach host (.ofNames site.root) (.ofNames (site.root ++ rel))).wp
      (fun _ t => site.Approached host w.files rel inner t)
      (fun _ t => site.Kept host rel.dropLast t) w := by
  have sheltered := installed.sheltered
  have usual := Site.Importing.usual sheltered (· = inner) site.user []
    (fun t => site.Kept host rel.dropLast t) fun _ h => h.1.kept.mono List.nil_prefix
  have steady := usual.toSteady.and (Since.steady host w.files fun _ _ => False)
  rw [approach, Program.wp_bind]
  apply Program.wp_mono (wp_noLinks steady (fun _ h => h.2.keeps)
    ⟨⟨installed.importing, installed.uses⟩, .refl⟩) _ fun _ _ h => h.1
  intro _ t ⟨ht, more, hsplit, hlinks⟩
  obtain rfl := List.append_cancel_left hsplit
  have plain : w.files.Plain true site.place rel :=
    installed.importing.kept.leads.plain_of_lstat hlinks
  rw [Program.wp_bind]
  apply Program.wp_mono ((maintains_pathExists steady _).run t ht) _ fun _ _ h => h.1
  intro there t ⟨⟨importing, _⟩, since⟩
  rw [Program.wp_bind, wp_require]
  refine ⟨fun _ => ?_, fun _ => importing.kept.mono List.nil_prefix⟩
  rw [Program.wp_bind]
  apply Program.wp_mono (wp_createParent sheltered plain importing since) _ fun _ _ h => h
  intro _ t ⟨importing, since, hparent⟩
  have importing := importing.pass sheltered
  apply wp_requireUserPath site.nonempty importing.kept.leads
  intro storage uses
  exact ⟨importing.congr rfl rfl rfl rfl rfl, uses, plain, (since.pass host).congr rfl rfl,
    keeps_pass host t _ _ hparent⟩

end Approach

/-! ## Reaching the rename -/

/-- The importer up to the commit, without what it does when it ends. -/
def prepare (host : Host) (rootArg pathArg : Option Text) :
    Import (Path Filename × Path Filename × Path Filename) := do
  let (root, original, size) ← checkArguments host rootArg pathArg
  let staging ← makeStaging host root size
  let staged ← stage host staging original size
  let (stagedTitle, destination) ←
    installStaged host root staging staged.stream size staged.valid staged.tmd
  pure (root, stagedTitle, destination)

/-- A call of the importer comes to the rename: in `u` the commit begins, in `v` everything is
done of it but the rename. -/
structure Reaches (host : Host) (rootArg pathArg : Option Text) (w : World)
    (root stagedTitle destination : Path Filename) (u v : World) : Prop where
  prepared : (prepare host rootArg pathArg).outcome w = (.ok (root, stagedTitle, destination), u)
  approached : (approach host root destination).outcome u = (.ok (), v)

/-- Nothing has been renamed, and nobody else has acted if nobody ever does. -/
structure Unpublished (host : Host) (w : World) : Prop where
  events : .commit ∉ w.events
  intruded : (∀ m, host.intrude m = none) → w.intruded = []

section Reaching

variable (host : Host)

theorem unpublished_usual : Usual host (Unpublished host) fun _ => Unpublished host := by
  refine usual_of_steady ⟨fun w hw => ?_, fun _ _ hw => ⟨hw.1, hw.2⟩, fun _ _ _ hw => hw⟩
    (fun _ _ hw => ⟨hw.1, hw.2⟩) (fun w event hevent hw => ⟨?_, hw.2⟩) fun _ hw => hw
  · rcases pass_cases host w with heq | ⟨_, _, _, _, hintrude, -, -, -, heq⟩
    · rw [heq]
      exact ⟨hw.1, hw.2⟩
    · rw [heq]
      exact ⟨hw.1, fun halone => nomatch (halone _).symm.trans hintrude⟩
  · intro hmem
    rcases List.mem_cons.mp hmem with heq | hmem
    · exact hevent heq.symm
    · exact hw.1 hmem

theorem unpublished_switchUserPath {w : World} (hw : Unpublished host w) (text : Text) :
    Unpublished host (switchUserPath host text w) := by
  have hpass := (unpublished_usual host).pass w hw
  exact ⟨hpass.1, hpass.2⟩

theorem unpublished_callInstaller {w : World} (hw : Unpublished host w) (call : InstallerCall) :
    Unpublished host (callInstaller host call w).1 := by
  have hpass := (unpublished_usual host).pass w hw
  exact ⟨hpass.1, hpass.2⟩

theorem unpublished_stage (staging : Path Filename) (original : Stream) (size : UInt64) :
    (stage host staging original size).Maintains (Unpublished host) fun _ => Unpublished host := by
  have usual := unpublished_usual host
  apply Program.Maintains.bind
    (maintains_copyInput usual.toPaced _ _ _ fun _ _ _ hw _ => ⟨hw.1, hw.2⟩)
  intro _
  apply Program.Maintains.bind (maintains_openStream usual.toSteady _)
  intro stream
  apply Program.Maintains.bind (maintains_validate usual _ _)
  intro valid
  apply Program.Maintains.bind (maintains_inspect usual.toSteady _ _)
  intro tmd
  exact .bind (maintains_reportTitle usual _ _ fun _ _ hw => ⟨hw.1, hw.2⟩) fun _ => .pure _

theorem unpublished_approach (root destination : Path Filename) :
    (approach host root destination).Maintains (Unpublished host) fun _ => Unpublished host := by
  have steady := (unpublished_usual host).toSteady
  apply Program.Maintains.bind (maintains_noLinks steady _ _)
  intro _
  apply Program.Maintains.bind (maintains_pathExists steady _)
  intro there
  apply Program.Maintains.bind (maintains_require steady (by decide))
  intro _
  apply Program.Maintains.bind
    (maintains_createDirectories steady _ fun _ _ hw => ⟨hw.1, hw.2⟩)
  intro _
  exact maintains_requireUserPath steady _ fun w hw => unpublished_switchUserPath host hw _

/-- **Only a call that comes to the rename renames anything.** -/
theorem exists_reaches (rootArg pathArg : Option Text) {w : World} (hw : Unpublished host w)
    (hcommit : .commit ∈ ((install host rootArg pathArg).outcome w).2.events) :
    ∃ root stagedTitle destination u v,
      Reaches host rootArg pathArg w root stagedTitle destination u v ∧ Unpublished host v := by
  generalize hreached : (∃ root stagedTitle destination u v,
    Reaches host rootArg pathArg w root stagedTitle destination u v ∧ Unpublished host v) = reached
  have usual := unpublished_usual host
  have absent {t : World} (ht : Unpublished host t) (hmem : .commit ∈ t.events) : reached :=
    absurd hmem ht.events
  suffices h : (install host rootArg pathArg).wp (fun _ t => .commit ∈ t.events → reached)
      (fun _ t => .commit ∈ t.events → reached) w by
    obtain ⟨hdone, hstopped⟩ := Program.wp_iff_outcome.mp h
    cases hrun : (install host rootArg pathArg).outcome w with
    | mk result t =>
        rw [hrun] at hcommit
        cases result with
        | ok => exact hdone _ t hrun hcommit
        | error stop => exact hstopped stop t hrun hcommit
  rw [install, Program.wp_bind]
  apply Program.wp_mono (Program.wp_and ((maintains_checkArguments usual rootArg pathArg).run w hw)
    (Program.wp_outcome _ w)) _ fun _ _ h => absent h.1
  rintro ⟨root, original, size⟩ t ⟨ht, hchecked⟩
  have stagingRule := maintains_makeStaging usual root size (fun _ _ hw => ⟨hw.1, hw.2⟩)
    fun _ _ _ hw _ => ⟨hw.1, hw.2⟩
  rw [Program.wp_bind]
  apply Program.wp_mono (Program.wp_and (stagingRule.run t ht) (Program.wp_outcome _ t)) _
    fun _ _ h => absent h.1
  rintro staging t2 ⟨ht2, hmade⟩
  rw [Program.wp_ensuring, importStaged_eq, Program.wp_bind]
  simp only [events_removeTemporary]
  apply Program.wp_mono (Program.wp_and ((unpublished_stage host staging original size).run t2 ht2)
    (Program.wp_outcome _ t2)) _ fun _ _ h => absent h.1
  rintro staged t3 ⟨ht3, hstaged⟩
  have installRule := maintains_installStaged usual.toPaced root staging staged.stream size
    staged.valid staged.tmd (fun _ text hw => unpublished_switchUserPath host hw text)
    (fun _ _ hw => ⟨hw.1, hw.2⟩) (fun _ _ hw _ => ⟨hw.1, hw.2⟩) (fun _ hw => ⟨hw.1, hw.2⟩)
    (fun call _ hw => unpublished_callInstaller host hw call)
    fun _ _ hw => unpublished_callInstaller host hw .destroy
  rw [Program.wp_bind, Program.wp_get, Program.wp_ensuring, publish, Program.wp_bind]
  simp only [restorePaths, events_switchUserPath]
  apply Program.wp_mono (Program.wp_and (installRule.run t3 ht3) (Program.wp_outcome _ t3)) _
    fun _ _ h => absent h.1
  rintro ⟨stagedTitle, destination⟩ u ⟨hu, hinstalled⟩
  have hprepared : (prepare host rootArg pathArg).outcome w =
      (.ok (root, stagedTitle, destination), u) := by
    simp only [prepare, Program.outcome_bind, hchecked, hmade, hstaged, hinstalled]
    rfl
  rw [commit_eq, Program.wp_bind]
  apply Program.wp_mono (Program.wp_and ((unpublished_approach host root destination).run u hu)
    (Program.wp_outcome _ u)) _ fun _ _ h => absent h.1
  rintro _ v ⟨hv, happroached⟩
  have hhere : reached := hreached ▸ ⟨root, stagedTitle, destination, u, v,
    ⟨hprepared, happroached⟩, hv⟩
  exact Program.wp_mono (Program.wp_outcome _ v) (fun _ _ _ _ => hhere) fun _ _ _ _ => hhere

end Reaching

/-! ## The result -/

/-- `fs::path(root_arg)` -/
def requested (rootArg : Option Text) : Path Filename := .parse (rootArg.getD [])

/-- `fs::path(home)/"Documents"` -/
def Host.documents (host : Host) : Path Filename :=
  .parse (host.home.getD []) / literal "Documents"

/-- What is known where the commit begins: the staging directory, and what has been installed. -/
structure Prepared (host : Host) (rootArg : Option Text) (files : Files) (site : Site)
    (root stagedTitle destination : Path Filename) (tid : UInt64) (rel : List Filename)
    (inner : List Filename → Option (Node Filename Bytes)) (u : World) : Prop where
  facts : RootFacts host files (requested rootArg) host.documents root
  root : root = .ofNames site.root
  rooted : Rooted files site.root site.place site.before
  destination : destination = .ofNames (site.root ++ rel)
  stagedTitle : stagedTitle = host.titleDirectory site.user tid
  installed : site.Installed host tid rel inner u

theorem RootFacts.exists_names {host : Host} {files : Files}
    {requested documents root : Path Filename}
    (facts : RootFacts host files requested documents root) :
    ∃ names, names ≠ [] ∧ root = .ofNames names := by
  obtain ⟨_, names, -, -, hroot, -⟩ := facts.expected
  exact ⟨_, by simp, hroot⟩

/-- These names are the root that the argument asks for. -/
def AsRequested (host : Host) (rootArg : Option Text) (start : World) (root : List Filename) :
    Prop :=
  RootFacts host start.files (requested rootArg) host.documents (.ofNames root)

/-- What is known when there is a staging directory. -/
structure Begun (host : Host) (rootArg pathArg : Option Text) (start : World) (site : Site)
    (original : Stream) (size : UInt64) (w : World) : Prop where
  root : AsRequested host rootArg start site.root
  rooted : Rooted start.files site.root site.place site.before
  early : site.Early start.compressCiaInstalls w
  least : 0x2020 ≤ size.toNat
  input : ∀ content, original = some content →
    start.files.readFile host.here (.parse (pathArg.getD [])) = some content ∧
      size.toNat = content.length
  safe : w.memory.Safe

/-- **From the arguments to the staging directory.** If a call stops before there is one, it has
made at most directories on the way to the root. -/
theorem wp_begin {β : Type} {host : Host} {rootArg pathArg : Option Text} {start : World}
    {rest : Path Filename → Stream → UInt64 → Path Filename → Import β} {done : β → World → Prop}
    {stopped : Stop → World → Prop}
    (hstopped : ∀ stop names t, Unstaged start.files names start.compressCiaInstalls t →
      t.files = start.files ∨ AsRequested host rootArg start names → stopped stop t)
    (hrest : ∀ site original size t, Begun host rootArg pathArg start site original size t →
      (rest (.ofNames site.root) original size site.stagingPath).wp done stopped t) :
    Program.wp (do
      let (root, original, size) ← checkArguments host rootArg pathArg
      let staging ← makeStaging host root size
      rest root original size staging) done stopped start.fresh := by
  have safe : start.fresh.memory.Safe := nofun
  rw [Program.wp_bind]
  apply Program.wp_mono (Program.wp_and
    (wp_checkArguments_root host rootArg pathArg (quiet_fresh start))
    (wp_checkArguments rootArg pathArg safe)) _ fun stop t h =>
      hstopped stop [] t ⟨h.1.1, [], h.1.2 ▸ .refl _ _ _⟩ (.inl h.1.2)
  intro (root, original, size) t ⟨⟨⟨quiet, hfiles⟩, facts, hinput⟩, safe, hleast, hmost⟩
  obtain ⟨names, hnames, hroot⟩ := facts.exists_names
  simp only at hroot hleast hmost
  subst hroot
  rw [Program.wp_bind]
  apply Program.wp_mono (Program.wp_and (wp_makeStaging host hnames size quiet hfiles)
    ((safe_makeStaging _ hmost).run t safe)) _ fun stop t h =>
      hstopped stop names t h.1 (.inr facts)
  intro staging t ⟨⟨site, hroot, hstaging, rooted, quiet, copied⟩, safe⟩
  subst hroot hstaging
  exact hrest site original size t ⟨facts, rooted, ⟨quiet, copied⟩, hleast, hinput, safe⟩

theorem wp_prepare {host : Host} (confined : host.Confined) (alone : ∀ m, host.intrude m = none)
    (rootArg pathArg : Option Text) (w : World) :
    (prepare host rootArg pathArg).wp
      (fun paths u => ∃ site tid rel inner,
        Prepared host rootArg w.files site paths.1 paths.2.1 paths.2.2 tid rel inner u)
      (fun _ _ => True) w.fresh := by
  rw [prepare]
  refine @wp_begin _ host rootArg pathArg w (fun root original size staging => do
      let staged ← stage host staging original size
      let (stagedTitle, destination) ←
        installStaged host root staging staged.stream size staged.valid staged.tmd
      pure (root, stagedTitle, destination)) _ _ (fun _ _ _ _ _ => trivial) ?_
  intro site original size t begun
  rw [Program.wp_bind]
  apply Program.wp_mono (wp_stage host original begun.least begun.early begun.safe) _
    fun _ _ _ => trivial
  intro staged t ⟨⟨idle, _, _, copied, _⟩, safe⟩
  rw [Program.wp_bind]
  apply Program.wp_mono (wp_installStaged confined idle copied safe (fun _ _ => .inl alone)
    (fun _ => True) fun rel inner u installed _ => Program.wp_mono (wp_verify installed staged)
      (fun _ _ h => ⟨h, trivial⟩) fun _ _ h => h) _ fun _ _ _ => trivial
  intro (stagedTitle, destination) u ⟨rel, inner, installed, _, htitles⟩
  obtain ⟨hstaged, hdestination⟩ := Prod.mk.inj htitles
  rw [Program.wp_pure]
  exact ⟨site, _, rel, inner, begun.root, rfl, begun.rooted, hdestination, hstaged, installed⟩

/-- Where an import commits, with the files at the start, at the last poll and right before the
rename. -/
structure Confinement (host : Host) (rootArg : Option Text) (start u v : Files)
    (root stagedTitle destination : Path Filename) (names rel place : List Filename) : Prop where
  /-- The root argument resolves to the directory of the experiment in the canonical documents
  directory, and neither of its two components is a link. -/
  facts : RootFacts host start (requested rootArg) host.documents root
  rootNames : root = .ofNames names
  destinationNames : destination = .ofNames (names ++ rel)
  nonempty : rel ≠ []
  /-- Seen from the root, the destination is made of names. -/
  relative : destination.relativeTo root = .of false (rel.map .name) false
  /-- The root resolves to its place. -/
  leads : v.Leads names place
  /-- From the root down to the destination there is no link. -/
  unlinked : ∀ pre, pre <+: rel → ∀ target,
    u.node (place ++ pre) ≠ some (.link target) ∧ v.node (place ++ pre) ≠ some (.link target)
  /-- What lies below the root on the way resolves to where its names say. -/
  resolves : ∀ followLast pre, pre ≠ [] → pre <+: rel →
    v.locate followLast host.here (.ofNames (names ++ pre)) = .ok (place ++ pre)
  /-- If there is no link above the root either, everything has its own name. -/
  own : (∀ pre, pre <+: names → ∀ target, v.node pre ≠ some (.link target)) → place = names
  /-- Before the rename only directories on the way are made. -/
  made : ∀ p, v.node p ≠ u.node p →
    v.node p = some .directory ∧ ∃ pre, pre <+: rel.dropLast ∧ p = place ++ pre
  /-- The rename writes at the destination, and nothing else but what it takes away. -/
  renamed : ∀ after, v.renameExclusive host.here stagedTitle destination = some after →
    ∀ p, after.node p ≠ v.node p → place ++ rel <+: p ∨
      after.node p = none ∧ ∃ q, v.locate false host.here stagedTitle = .ok q ∧ q <+: p

theorem Prepared.confinement {host : Host} {rootArg : Option Text} {files : Files} {site : Site}
    {root stagedTitle destination : Path Filename} {tid : UInt64} {rel : List Filename}
    {inner : List Filename → Option (Node Filename Bytes)} {u v : World}
    (prepared : Prepared host rootArg files site root stagedTitle destination tid rel inner u)
    (approached : site.Approached host u.files rel inner v) (hintruded : v.intruded = []) :
    Confinement host rootArg files u.files v.files root stagedTitle destination site.root rel
      site.place := by
  have hrel := prepared.installed.sheltered.nonempty
  have hleadsU := prepared.installed.importing.kept.leads
  have hleadsV := approached.importing.kept.leads
  have hmade (p : List Filename) (hne : v.files.node p ≠ u.files.node p) :
      OnTheWay site rel.dropLast p (v.files.node p) := by
    apply (approached.since.new p hne).resolve_left
    rintro ⟨q, hmem, -⟩
    rw [hintruded] at hmem
    exact nomatch hmem
  have hplain : v.files.Plain true site.place rel := by
    intro pre hpre hmore hlast target hlink
    by_cases hsame : v.files.node (site.place ++ pre) = u.files.node (site.place ++ pre)
    · exact approached.plain pre hpre hmore hlast target (hsame ▸ hlink)
    · exact nomatch hlink.symm.trans (hmade _ hsame).1
  have hresolves (followLast : Bool) (pre : List Filename) (hpre : pre ≠ []) (hmore : pre <+: rel) :
      v.files.locate followLast host.here (.ofNames (site.root ++ pre)) =
        .ok (site.place ++ pre) := by
    rw [FileTree.locate_ofNames]
    apply hleadsV.resolve_append hpre (hplain.shorten hmore)
    apply FileTree.node_eq_directory_of_prefix approached.parent
    · exact ( List.dropLast_prefix pre).trans hmore
    · rintro hsame
      have hlength := hmore.length_le
      rw [← hsame, List.length_dropLast] at hlength
      have hpositive := List.length_pos_iff.mpr hpre
      omega
  refine ⟨prepared.facts, prepared.root, prepared.destination, hrel, ?_, hleadsV, ?_, hresolves, ?_,
    hmade, ?_⟩
  · rw [prepared.root, prepared.destination]
    exact relativeTo_names site.root hrel
  · intro pre hmore target
    by_cases hpre : pre = []
    · rw [hpre, List.append_nil, hleadsU.directory, hleadsV.directory]
      exact ⟨nofun, nofun⟩
    · exact ⟨approached.plain pre hpre hmore (.inr rfl) target,
        hplain pre hpre hmore (.inr rfl) target⟩
  · intro hnames
    have hroot : v.files.Plain true [] site.root := fun pre _ hmore _ => hnames pre hmore
    exact ((FileTree.Leads.root v.files).eq_of_resolve site.nonempty hroot hleadsV.resolve).1
  · intro after hafter p hne
    obtain ⟨q, q', hq, hq', -, -, hnode⟩ := FileTree.renameExclusive_eq_some hafter
    rw [prepared.destination, hresolves false rel hrel (List.prefix_refl rel)] at hq'
    cases hq'
    rw [hnode] at hne ⊢
    by_cases hbelow : site.place ++ rel <+: p
    · exact .inl hbelow
    · rw [if_neg hbelow] at hne ⊢
      by_cases htaken : q <+: p
      · exact .inr ⟨if_pos htaken, q, hq, htaken⟩
      · exact absurd (if_neg htaken) hne

/-- With a directory more. -/
def sampleDirectory (files : Files) (text : String) : Files :=
  (files.mkdir [] (.parse text.toList)).getD files

/-- With a file more. -/
def sampleWritten (files : Files) (text : String) (bytes : Bytes) : Files :=
  (files.writeFile [] (.parse text.toList) bytes).getD files

/-- Nothing but the documents and the input. -/
def sampleFiles : Files :=
  sampleWritten (sampleDirectory (sampleDirectory default "/home") "/home/Documents") "/x.cia"
    sampleFile

/-- What is installed. -/
def sampleCard : Subtree Filename Bytes :=
  let title := sampleDirectory default "/title"
  let content := sampleWritten title "/title/content" (List.replicate 0x200 0)
  let files := sampleWritten content "/title/metadata" []
  ⟨files.node, by rw [files.root]; nofun, files.parent⟩

def sampleMetadata : TitleMetadata := ⟨0x0004000e00000001, 0, 1, fun _ => 0x200⟩

/-- An installer that installs this card, all at the first write. -/
def installerOf (card : Subtree Filename Bytes) (calls : List InstallerCall) (paths : PathMap)
    (files : Files) : Files × InstallerReply :=
  match calls with
  | .write _ bytes :: _ =>
      let installed := match paths.lookup .userDir with
        | none => none
        | some user =>
            match files.locate true [] (.parse user) with
            | .error _ => none
            | .ok place => files.plant? (place ++ [sdmcName]) card
      (installed.getD files, ⟨false, some (.ofNat bytes.length), [true]⟩)
  | _ => (files, ⟨false, none, [true]⟩)

/-- A host on which the file of the sample can be installed. -/
def sampleHost : Host :=
  { (default : Host) with
      home := some "/home".toList
      available := fun _ => 0x10000000000
      suffix := fun _ => ⟨"abc".toList, by decide⟩
      checkCIAToInstall := fun _ => some false
      loadContainer := fun bytes =>
        if bytes = sampleFile then some ⟨sampleMetadata, 0x0004000e00000001⟩ else none
      loadTitleMetadata := fun _ => some sampleMetadata
      installer := installerOf sampleCard }

def sampleWorld : World := { (default : World) with files := sampleFiles }

def sampleRoot : Option Text := some "/home/Documents/RoomExperiment-v1/3DS".toList

def samplePath : Option Text := some "/x.cia".toList

def sampleRun : Status × World :=
  retroManicInstallUpdateCiaV1 sampleHost sampleRoot samplePath true sampleWorld.fresh

/-- It changes nothing outside the user directory. -/
theorem installerOf_confined (card : Subtree Filename Bytes) (calls : List InstallerCall)
    {paths : PathMap} {files : Files} {user : Text} {place : List Filename}
    (huser : paths.lookup .userDir = some user)
    (hplace : files.locate true [] (.parse user) = .ok place) {p : List Filename}
    (hp : place <+: p → p = place) :
    (installerOf card calls paths files).1.node p = files.node p := by
  unfold installerOf
  split
  · simp only [huser, hplace]
    cases hplant : files.plant? (place ++ [sdmcName]) card with
    | none => rfl
    | some planted =>
        show planted.node p = files.node p
        rw [(FileTree.plant?_eq_some hplant).2, if_neg]
        intro hbelow
        have hlength := hbelow.length_le
        rw [← hp ((List.prefix_append place _).trans hbelow), List.length_append] at hlength
        simp at hlength
  · rfl

/-- The paths of the titles of the sample are absolute. -/
theorem sampleHost_titlePath (sdmc : Text) (tid : UInt64)
    (habsolute : (Path.parse sdmc : Path Filename).absolute = true) :
    (Path.parse (sampleHost.titlePath sdmc tid) : Path Filename).absolute = true := by
  cases sdmc with
  | nil => exact nomatch habsolute
  | cons c sdmc => exact habsolute

theorem sampleHost_confined : sampleHost.Confined where
  titlePath := sampleHost_titlePath
  installer calls _ _ _ _ huser hplace _ hp := installerOf_confined sampleCard calls huser hplace hp

set_option maxRecDepth 100000 in
/-- The file of the sample is installed. -/
theorem sampleRun_success : sampleRun.1 = .success ∧ .commit ∈ sampleRun.2.events := by
  decide +kernel

end ManicRoom.Cia
