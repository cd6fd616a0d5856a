/-
# Installing below the staging directory

After the destination is announced the installer of the emulator works in a user directory
below the staging directory. It changes nothing elsewhere, so that the title lies in the
staging directory when it is read back, and stays as it is from then on.
-/

import ManicRoom.Cia.Emulator

namespace ManicRoom.Cia

open ManicRoom.Foundation ManicRoom.Storage

/-! ## What is in the staging directory -/

/-- The installer makes no symbolic links. -/
def Host.MakesNoLinks (host : Host) : Prop :=
  ∀ calls paths files p target, (host.installer calls paths files).1.node p = some (.link target) →
    files.node p = some (.link target)

/-- There is no user directory yet. -/
structure Bare (inner : List Filename → Option (Node Filename Bytes)) : Prop where
  top : inner [] = some .directory
  user : inner [userName] = none
  unlinked : ∀ p target, inner p ≠ some (.link target)

/-- There is a user directory. -/
structure Furnished (host : Host) (inner : List Filename → Option (Node Filename Bytes)) :
    Prop where
  top : inner [] = some .directory
  user : inner [userName] = some .directory
  unlinked : host.MakesNoLinks → ∀ p target, inner p ≠ some (.link target)

theorem Site.Copied.bare {site : Site} {files : Files} (copied : site.Copied files) :
    Bare (site.within files) where
  top := by
    rw [Site.within, List.append_nil]
    exact copied.top
  user := by
    by_contra hsome
    have hinput := copied.inside [userName] (by simp) hsome
    exact absurd hinput (by decide)
  unlinked p target hlink := by
    by_cases hp : p = []
    · rw [hp, Site.within, List.append_nil, copied.top] at hlink
      exact nomatch hlink
    · have hinput := copied.inside p hp (by rw [Site.within] at hlink; rw [hlink]; nofun)
      rw [hinput] at hlink
      exact copied.input target hlink

section Steps

variable {host : Host} {site : Site} {files : Files} {rel way : List Filename} {w : World}

/-- After `NoLinks` it is known where another process may act. -/
theorem Announced.importing {names : List Filename}
    (announced : Announced host files names (site.root ++ rel) w) (copied : site.Copied files)
    (hrel : rel ≠ []) (hplain : files.Plain true site.place rel)
    (apart : (∀ m, host.intrude m = none) ∨ rel.head? ≠ some site.staging) :
    site.Importing host rel [] Bare w := by
  have hleads : files.Leads site.root site.place := site.rootLeads.keeps copied.keeps
  refine ⟨announced.kept copied, announced.destination, ?_, ?_⟩
  · intro q hmem
    rcases announced.created with ⟨-, hnone⟩ | ⟨_, _, q', -, hq, -, hintruded⟩
    · simp [hnone] at hmem
    · rw [hintruded, List.mem_singleton] at hmem
      subst hmem
      rw [FileTree.locate_ofNames] at hq
      exact (hleads.eq_of_resolve hrel (hplain.shorten (List.prefix_refl rel)) hq).1
  · rcases announced.created with ⟨hfiles, -⟩ | ⟨m, _, q, hintrude, hq, hplant, -⟩
    · rw [hfiles]
      exact copied.bare
    · have hhead : rel.head? ≠ some site.staging := by
        apply apart.resolve_left
        intro hnone
        exact nomatch (hnone m).symm.trans hintrude
      rw [FileTree.locate_ofNames] at hq
      obtain ⟨rfl, -⟩ := hleads.eq_of_resolve hrel (hplain.shorten (List.prefix_refl rel)) hq
      have hwithin : site.within w.files = site.within files := by
        funext p
        have hnode := (FileTree.plant?_eq_some hplant).2 (site.top ++ p)
        rwa [if_neg (Site.not_prefix_top hrel hhead p)] at hnode
      rw [hwithin]
      exact copied.bare

/-- `fs::create_directory(staged_root)` -/
theorem wp_createUser (sheltered : site.Sheltered host rel) {names : List Filename}
    (importing : site.Importing host rel way Bare w) (uses : Uses host names w) :
    (createDirectory host (.ofNames site.user)).wp
      (fun _ t => site.Importing host rel way (Furnished host) t ∧ Uses host names t)
      (fun _ t => site.Kept host way t) w := by
  have usual := Site.Importing.usual sheltered Bare names way (fun t => site.Kept host way t)
    fun t ht => ht.1.kept
  apply Program.Maintains.andThen (maintains_attempt usual.toSteady ordinary_exception)
    ⟨importing, uses⟩
  intro _ t ⟨importing, uses⟩
  have htop : t.files.node site.top = some .directory := by
    have h := importing.inside.top
    rwa [Site.within, List.append_nil] at h
  have hleads : t.files.Leads (site.root ++ [site.staging]) site.top :=
    importing.kept.leads.append htop
  rw [Program.wp_bind, Program.wp_get]
  split
  · next made hmade =>
    rw [Program.wp_set]
    obtain ⟨-, hnode⟩ := hleads.mkdir_eq_some hmade
    refine ⟨⟨⟨⟨?_, fun p hne => ?_⟩, importing.kept.calls, importing.kept.stranded⟩,
      importing.destination, importing.intruded, ?_, ?_, fun _ p target => ?_⟩, uses⟩
    · exact importing.kept.since.keeps.trans (FileTree.keeps_mkdir hmade)
    · by_cases huser : p = site.top ++ [userName]
      · exact .inr (.inl (huser ▸ List.prefix_append _ _))
      · simp only [hnode, if_neg huser] at hne ⊢
        exact importing.kept.since.new p hne
    · rw [Site.within, hnode, if_neg (by simp)]
      exact importing.inside.top
    · rw [Site.within, hnode, if_pos rfl]
    · rw [Site.within, hnode]
      split
      · nofun
      · exact importing.inside.unlinked p target
  · split
    · next hstat =>
      -- There is no such directory, so that this cannot be.
      obtain ⟨q, hq⟩ := (FileTree.stat_eq_directory_iff t.files host.here site.user).mp hstat
      have hplain : t.files.Plain true site.top [userName] :=
        FileTree.plain_singleton fun _ target => importing.inside.unlinked [userName] target
      obtain ⟨rfl, -⟩ := hleads.eq_of_resolve (by simp) hplain hq.resolve
      exact nomatch importing.inside.user.symm.trans hq.directory
    · exact (Program.wp_throw _).mpr importing.kept

/-- A call of the installer changes nothing but what is below the user directory. -/
theorem importing_callInstaller (confined : host.Confined)
    (sheltered : site.Sheltered host rel) (call : InstallerCall)
    (importing : site.Importing host rel way (Furnished host) w) (uses : Uses host site.user w) :
    site.Importing host rel way (Furnished host) (callInstaller host call w).1 ∧
      Uses host site.user (callInstaller host call w).1 := by
  have importing := importing.pass sheltered
  have uses := uses.pass
  unfold callInstaller
  dsimp only
  generalize pass host w = next at importing uses ⊢
  have hleads : next.files.Leads site.user (site.top ++ [userName]) :=
    importing.kept.userLeads importing.inside.user
  have hlocate : next.files.locate true host.here (.parse (directoryText (.ofNames site.user))) =
      .ok (site.top ++ [userName]) := by
    obtain ⟨habsolute, hparts⟩ := parse_directoryText_append site.user []
    have hempty : (Path.parse []).parts = [] := by decide
    rw [hempty, List.append_nil, List.append_nil] at hparts
    rw [List.append_nil] at habsolute
    rw [FileTree.locate_eq next.files host.here habsolute, hparts]
    exact hleads.resolve
  generalize hcalls : call :: next.installer.map Prod.fst = calls
  have hconfined := confined.installer calls next.storage.paths next.files _ _ uses.userDir hlocate
  have hsame {p : List Filename} (hp : ¬ site.top ++ [userName] <+: p) :
      (host.installer calls next.storage.paths next.files).1.node p = next.files.node p :=
    hconfined p fun hbelow => absurd hbelow hp
  have houtside {p : List Filename} (hp : ¬ site.top <+: p) :
      (host.installer calls next.storage.paths next.files).1.node p = next.files.node p :=
    hsame fun hbelow => hp ((List.prefix_append _ _).trans hbelow)
  refine ⟨⟨⟨⟨?_, fun p hne => ?_⟩, fun entry hmem => ?_, importing.kept.stranded⟩,
    importing.destination, importing.intruded, ?_, ?_, fun hlinks p target hlink => ?_⟩, uses⟩
  · apply site.keeps_of_outside
    intro p node hp hnode
    exact (houtside hp).trans (importing.kept.since.keeps p node hnode)
  · by_cases hp : site.top <+: p
    · exact .inr (.inl hp)
    · simp only [houtside hp] at hne ⊢
      exact importing.kept.since.new p hne
  · rcases List.mem_cons.mp hmem with rfl | hmem
    · exact uses
    · exact importing.kept.calls entry hmem
  · have hnot : ¬ site.top ++ [userName] <+: site.top ++ [] := fun hbelow =>
      absurd hbelow.length_le (by simp)
    rw [Site.within, hsame hnot]
    exact importing.inside.top
  · rw [Site.within, hconfined _ fun _ => rfl]
    exact importing.inside.user
  · exact importing.inside.unlinked hlinks p target (hlinks _ _ _ _ _ hlink)

end Steps

/-! ## The whole -/

/-- The user directory below the staging directory, and the change of the setting. -/
def equip (host : Host) (staging : Path Filename) : Import Unit := do
  let stagedRoot := staging / literal "user"
  createDirectory host stagedRoot
  requireUserPath host (directoryText stagedRoot)
  modify fun w => { w with compressCiaInstalls := false }
  check host

/-- Everything that is read back. -/
def verify (host : Host) (staged : Staged) : Import Unit := do
  (List.range staged.valid.title.count.toNat).forM
    (verifyContent host staged.valid.title.tid staged.tmd staged.valid.hashes)
  verifyMetadata host staged.valid.title staged.tmd

theorem installStaged_eq (host : Host) (root staging : Path Filename) (size : UInt64)
    (staged : Staged) :
    installStaged host root staging staged.stream size staged.valid staged.tmd =
      announce host root staged.valid.title.tid >>= fun destination =>
        equip host staging >>= fun _ =>
          runInstaller host staged.stream size >>= fun _ =>
            verify host staged >>= fun _ =>
              titleDirectory host staged.valid.title.tid >>= fun stagedTitle =>
                check host >>= fun _ => pure (stagedTitle, destination) := by
  simp only [installStaged, announce, equip, verify, bind_assoc, pure_bind]

section Parts

variable {host : Host} {holds : World → Prop} {halted : Stop → World → Prop}

theorem maintains_announce (steady : Steady host holds halted) (root : Path Filename) (tid : UInt64)
    (hswitch : ∀ w, holds w → holds (switchUserPath host (directoryText root) w))
    (hdestination : ∀ w destination, holds w → holds { w with destination := some destination }) :
    (announce host root tid).Maintains holds halted := by
  apply Program.Maintains.bind (maintains_requireUserPath steady _ hswitch)
  intro _
  apply Program.Maintains.bind (maintains_attempt steady ordinary_exception)
  intro _
  apply Program.Maintains.bind (maintains_require steady (by decide))
  intro _
  apply Program.Maintains.bind (maintains_titleDirectory steady _)
  intro destination
  apply Program.Maintains.modify_bind (fun w => hdestination w destination)
  intro _
  apply Program.Maintains.bind (maintains_noLinks steady _ _)
  intro _
  apply Program.Maintains.bind (maintains_pathExists steady _)
  intro there
  exact .bind (maintains_require steady (by decide)) fun _ => .pure _

theorem maintains_verify (paced : Paced host holds halted) (staged : Staged) :
    (verify host staged).Maintains holds halted :=
  .bind (.forM fun i _ => maintains_verifyContent paced _ _ _ i)
    fun _ => maintains_verifyMetadata paced.toSteady _ _

end Parts

section Bounds

variable {host : Host}

theorem safe_requireUserPath (text : Text) : StaysInBounds (requireUserPath host text) :=
  maintains_requireUserPath safe_steady text fun w safe => by rwa [memory_switchUserPath]

theorem safe_announce (root : Path Filename) (tid : UInt64) :
    StaysInBounds (announce host root tid) :=
  maintains_announce safe_steady root tid (fun w safe => by rwa [memory_switchUserPath])
    fun _ _ safe => safe

theorem safe_equip (staging : Path Filename) : StaysInBounds (equip host staging) := by
  apply Program.Maintains.bind
    (maintains_createDirectory safe_steady _ fun _ _ safe _ => safe)
  intro _
  apply Program.Maintains.bind (safe_requireUserPath _)
  intro _
  exact .modify_bind (fun _ safe => safe) fun _ => safe_check

theorem safe_runInstaller (stream : Stream) (size : UInt64) :
    StaysInBounds (runInstaller host stream size) := by
  apply maintains_runInstaller safe_paced
  · intro call w safe
    rwa [memory_callInstaller]
  · intro _ w safe
    rwa [memory_callInstaller]

end Bounds

section Installed

variable {host : Host} {site : Site} {rel : List Filename} {w : World}

theorem wp_equip (sheltered : site.Sheltered host rel) {names : List Filename}
    (importing : site.Importing host rel [] Bare w) (uses : Uses host names w) :
    (equip host site.stagingPath).wp
      (fun _ t => site.Importing host rel [] (Furnished host) t ∧ Uses host site.user t)
      (fun _ t => site.Kept host [] t) w := by
  rw [equip, site.user_eq, Program.wp_bind]
  apply Program.wp_mono (wp_createUser sheltered importing uses) _ fun _ _ h => h
  intro _ t ⟨importing, _⟩
  have importing := importing.pass sheltered
  rw [Program.wp_bind]
  apply wp_requireUserPath (by simp [Site.user]) (importing.kept.userLeads importing.inside.user)
  intro storage uses
  have usual := Site.Importing.usual sheltered (Furnished host) site.user []
    (fun t => site.Kept host [] t) fun t ht => ht.1.kept
  rw [Program.wp_bind, Program.wp_modify]
  exact usual.check.run _ ⟨importing.congr rfl rfl rfl rfl rfl, uses⟩

/-- A title has been installed, and is to go to its destination. -/
structure Site.Installed (site : Site) (host : Host) (tid : UInt64) (rel : List Filename)
    (inner : List Filename → Option (Node Filename Bytes)) (w : World) : Prop where
  sheltered : site.Sheltered host rel
  title : host.titleDirectory site.root tid = .ofNames (site.root ++ rel)
  furnished : Furnished host inner
  importing : site.Importing host rel [] (· = inner) w
  uses : Uses host site.user w

/-- **Installing below the staging directory.** What reading back makes sure of is a parameter:
from then on the staged title stays as it is. -/
theorem wp_installStaged (confined : host.Confined) {size : UInt64} {staged : Staged}
    (idle : Idle w) (copied : site.Copied w.files) (safe : w.memory.Safe)
    (apart : ∀ rel,
      host.titleDirectory site.root staged.valid.title.tid = .ofNames (site.root ++ rel) →
        (∀ m, host.intrude m = none) ∨ rel.head? ≠ some site.staging)
    (verified : (List Filename → Option (Node Filename Bytes)) → Prop)
    (hverify : ∀ rel inner u, site.Installed host staged.valid.title.tid rel inner u →
      u.memory.Safe → (verify host staged).wp
        (fun _ t => site.Installed host staged.valid.title.tid rel inner t ∧ verified inner)
        (fun _ t => site.Kept host [] t) u) :
    (installStaged host (.ofNames site.root) site.stagingPath staged.stream size staged.valid
      staged.tmd).wp
      (fun titles t => ∃ rel inner, site.Installed host staged.valid.title.tid rel inner t ∧
        verified inner ∧
        titles =
          (host.titleDirectory site.user staged.valid.title.tid, .ofNames (site.root ++ rel)))
      (fun _ t => site.Kept host [] t) w := by
  rw [installStaged_eq, Program.wp_bind]
  apply Program.wp_mono (Program.wp_and (wp_announce confined _ idle copied)
    ((safe_announce _ _).run w safe)) _ fun _ _ h => h.1
  intro destination t ⟨⟨rel, destined, hdestination, announced⟩, safe⟩
  subst hdestination
  have apart := apart rel destined.title
  have sheltered : site.Sheltered host rel :=
    ⟨destined.nonempty, destined.plain.of_keeps copied.keeps, apart⟩
  have importing := announced.importing copied destined.nonempty destined.plain apart
  rw [Program.wp_bind]
  apply Program.wp_mono (Program.wp_and (wp_equip sheltered importing announced.uses)
    ((safe_equip _).run t safe)) _ fun _ _ h => h.1
  intro _ t ⟨⟨importing, uses⟩, safe⟩
  have usual := Site.Importing.usual sheltered (Furnished host) site.user [] _ fun _ h => h
  have installRule := maintains_runInstaller usual.toPaced staged.stream size
    (fun call w h => importing_callInstaller confined sheltered call h.1 h.2)
    fun _ w h => importing_callInstaller confined sheltered .destroy h.1 h.2
  rw [Program.wp_bind]
  apply Program.wp_mono (Program.wp_and (installRule.run t ⟨importing, uses⟩)
    ((safe_runInstaller _ _).run t safe)) _ fun _ _ h => h.1.1.kept
  intro _ t ⟨⟨importing, uses⟩, safe⟩
  have installed : site.Installed host staged.valid.title.tid rel (site.within t.files) t :=
    ⟨sheltered, destined.title, importing.inside,
      ⟨importing.kept, importing.destination, importing.intruded, rfl⟩, uses⟩
  rw [Program.wp_bind]
  apply Program.wp_mono (hverify rel _ t installed safe) _ fun _ _ h => h
  generalize site.within t.files = inner at installed
  intro _ t ⟨installed, hverified⟩
  have usual := Site.Importing.usual sheltered (· = inner) site.user []
    (fun t => site.Kept host [] t) fun _ h => h.1.kept
  rw [Program.wp_bind]
  apply wp_titleDirectory usual.toSteady (fun _ h => h.2) ⟨installed.importing, installed.uses⟩
  intro t ht
  apply Program.Maintains.andThen usual.check ht
  intro _ t ⟨importing, uses⟩
  rw [Program.wp_pure]
  exact ⟨rel, inner, ⟨sheltered, destined.title, installed.furnished, importing, uses⟩,
    hverified, rfl⟩

/-- Reading back changes nothing. -/
theorem wp_verify {tid : UInt64} {inner : List Filename → Option (Node Filename Bytes)}
    (installed : site.Installed host tid rel inner w) (staged : Staged) :
    (verify host staged).wp (fun _ t => site.Installed host tid rel inner t)
      (fun _ t => site.Kept host [] t) w := by
  have usual := Site.Importing.usual installed.sheltered (· = inner) site.user []
    (fun t => site.Kept host [] t) fun _ h => h.1.kept
  apply Program.wp_mono ((maintains_verify usual.toPaced staged).run w
    ⟨installed.importing, installed.uses⟩) _ fun _ _ h => h
  exact fun _ t ht =>
    ⟨installed.sheltered, installed.title, installed.furnished, ht.1, ht.2⟩

end Installed

end ManicRoom.Cia
