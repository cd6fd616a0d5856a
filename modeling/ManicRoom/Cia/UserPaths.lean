/-
# The user paths of an import

Every call of the installer is made while the directories of the emulator lie below the staging
directory: `SetUserPath` is tested right before, and nothing else switches the user path until the
installer is done. Once a call has constructed `Paths`, they lie below the root when it ends.
-/

import ManicRoom.Cia.Atomicity
import ManicRoom.Storage.Histories
import ManicRoom.Storage.Options

namespace ManicRoom.Cia

open ManicRoom.Foundation ManicRoom.Storage

/-! ## While the installer writes -/

/-- The installer has only been called with this user directory. -/
def CallsBelow (host : Host) (user : List Filename) (w : World) : Prop :=
  ∀ entry ∈ w.installer, Derived host.constants entry.2 (directoryText (.ofNames user))

section Calls

variable {host : Host} {user : List Filename} {w : World}

theorem CallsBelow.pass (below : CallsBelow host user w) : CallsBelow host user (pass host w) := by
  unfold CallsBelow
  rw [pass_installer]
  exact below

theorem CallsBelow.switchUserPath (below : CallsBelow host user w) (text : Text) :
    CallsBelow host user (switchUserPath host text w) := below.pass

theorem CallsBelow.restorePaths (below : CallsBelow host user w) (root : Path Filename)
    (compression : Bool) : CallsBelow host user (restorePaths host root compression w) :=
  below.switchUserPath (directoryText root)

theorem CallsBelow.removeTemporary (below : CallsBelow host user w) (staging : Path Filename) :
    CallsBelow host user (removeTemporary host staging w) := by
  unfold Cia.removeTemporary
  dsimp only
  split
  · exact below.pass
  · exact below.pass

theorem callsBelow_usual (host : Host) (user : List Filename) :
    Usual host (CallsBelow host user) fun _ => CallsBelow host user :=
  usual_of_steady ⟨fun _ below => below.pass, fun _ _ below => below, fun _ _ _ below => below⟩
    (fun _ _ below => below) (fun _ _ _ below => below) fun _ below => below

/-- `SetUserPath` and the test that it was effective, whatever the files are. -/
theorem wp_requireUserPath_uses (below : CallsBelow host user w) (names : List Filename) :
    (requireUserPath host (directoryText (.ofNames names))).wp
      (fun _ t => CallsBelow host user t ∧ Uses host names t)
      (fun _ t => CallsBelow host user t) w := by
  have hpath : directoryText (.ofNames names) ≠ [] := by simp [directoryText]
  obtain ⟨chosen, hderived, -⟩ := @derived_setUserPath host.constants _
    (createFullPath (pass host w).files host.here (host.fault w.clock).isSome
      (directoryText (.ofNames names))).2 host.around (pass host w).storage (.inl hpath)
  have hswitched : Derived host.constants
      (switchUserPath host (directoryText (.ofNames names)) w).storage.paths chosen := hderived
  have below := below.switchUserPath (directoryText (.ofNames names))
  rw [requireUserPath, Program.wp_bind, Program.wp_modify]
  generalize switchUserPath host (directoryText (.ofNames names)) w = next at below hswitched ⊢
  simp only [userPath, Program.wp_bind, Program.wp_get, Program.wp_set, Program.wp_pure, wp_require,
    Storage.getUserPath, hswitched.ne_nil, if_false, hswitched.userDir, Option.getD_some]
  refine ⟨?_, fun _ => below⟩
  rintro rfl
  exact ⟨below, hswitched.touch .userDir⟩

theorem callsBelow_callInstaller (below : CallsBelow host user w) (uses : Uses host user w)
    (call : InstallerCall) :
    CallsBelow host user (callInstaller host call w).1 ∧
      Uses host user (callInstaller host call w).1 := by
  have uses := uses.pass
  refine ⟨fun entry hmem => ?_, uses⟩
  rcases List.mem_cons.mp hmem with rfl | hmem
  · exact uses
  · exact below.pass entry hmem

/-- The invariant while there is an installer. -/
theorem working_usual (host : Host) (user : List Filename) :
    Usual host (fun w => CallsBelow host user w ∧ Uses host user w)
      fun _ w => CallsBelow host user w ∧ Uses host user w :=
  usual_of_steady
    ⟨fun _ h => ⟨h.1.pass, h.2.pass⟩, fun _ key h => ⟨h.1, h.2.touch key⟩, fun _ _ _ h => h⟩
    (fun _ _ h => h) (fun _ _ _ h => h) fun _ h => h

variable {site : Site}

/-- From the user directory below the staging directory to the end of the installer. -/
theorem callsBelow_work (stream : Stream) (size : UInt64) :
    (equip host site.stagingPath >>= fun _ => runInstaller host stream size).Maintains
      (CallsBelow host site.user) fun _ => CallsBelow host site.user := by
  have usual := callsBelow_usual host site.user
  refine ⟨fun w below => ?_⟩
  rw [equip, site.user_eq]
  simp only [Program.wp_bind]
  have createRule : (createDirectory host (.ofNames site.user)).Maintains
      (CallsBelow host site.user) fun _ => CallsBelow host site.user :=
    maintains_createDirectory usual.toSteady _ fun _ _ below _ => below
  apply Program.wp_mono (createRule.run w below) _ fun _ _ h => h
  intro _ t below
  apply Program.wp_mono (wp_requireUserPath_uses below site.user) _ fun _ _ h => h
  intro _ t ⟨below, uses⟩
  have usual := working_usual host site.user
  rw [Program.wp_modify]
  apply Program.wp_mono (usual.check.run { t with compressCiaInstalls := false }
    ⟨below, uses⟩) _ fun _ _ h => h.1
  intro _ t ht
  have installRule := maintains_runInstaller usual.toPaced stream size
    (fun call _ h => callsBelow_callInstaller h.1 h.2 call)
    fun _ _ h => callsBelow_callInstaller h.1 h.2 .destroy
  exact Program.wp_mono (installRule.run t ht) (fun _ _ h => h.1) fun _ _ h => h.1

theorem callsBelow_publish (root : Path Filename) (size : UInt64) (staged : Staged) :
    (publish host root site.stagingPath size staged).Maintains (CallsBelow host site.user)
      fun _ => CallsBelow host site.user := by
  have usual := callsBelow_usual host site.user
  have steady := usual.toSteady
  rw [publish, installStaged_eq]
  apply Program.Maintains.bind
  · apply Program.Maintains.bind (maintains_announce steady _ _
      (fun _ below => below.switchUserPath _) fun _ _ below => below)
    intro destination
    have workRule := @callsBelow_work host site staged.stream size
    rw [← bind_assoc]
    apply Program.Maintains.bind workRule
    intro _
    apply Program.Maintains.bind (maintains_verify usual.toPaced staged)
    intro _
    apply Program.Maintains.bind (maintains_titleDirectory steady _)
    intro stagedTitle
    exact .bind usual.check fun _ => .pure _
  · intro titles
    exact maintains_commit steady _ _ _ (fun _ text below => below.switchUserPath text)
      (fun _ _ below => below) fun _ below => below

theorem callsBelow_importStaged (root : Path Filename) (original : Stream) (size : UInt64) :
    (importStaged host root site.stagingPath original size).Maintains (CallsBelow host site.user)
      fun _ => CallsBelow host site.user := by
  have usual := callsBelow_usual host site.user
  rw [importStaged_eq, stage]
  apply Program.Maintains.bind
  · apply Program.Maintains.bind
      (maintains_copyInput usual.toPaced _ _ _ fun _ _ _ below _ => below)
    intro _
    apply Program.Maintains.bind (maintains_openStream usual.toSteady _)
    intro stream
    apply Program.Maintains.bind (maintains_validate usual _ _)
    intro valid
    apply Program.Maintains.bind (maintains_inspect usual.toSteady _ _)
    intro tmd
    exact .bind (maintains_reportTitle usual _ _ fun _ _ below => below) fun _ => .pure _
  · intro staged
    apply Program.Maintains.get_bind
    intro w
    exact .ensuring (callsBelow_publish root size staged)
      (fun _ below => below.restorePaths root _) fun _ _ below => below.restorePaths root _

/-- The installer was not called, or only with the user directory in a staging directory below
the root that was asked for. -/
def StagedCalls (host : Host) (rootArg : Option Text) (start w : World) : Prop :=
  w.installer = [] ∨ ∃ (root : List Filename) (staging : Filename),
    AsRequested host rootArg start root ∧ staging.text.head? = some '.' ∧
      CallsBelow host (root ++ [staging] ++ [userName]) w

/-- **The installer is only called with a user directory below the staging directory.** -/
theorem wp_install_calls (host : Host) (rootArg pathArg : Option Text) (start : World) :
    (install host rootArg pathArg).wp (fun _ t => StagedCalls host rootArg start t)
      (fun _ t => StagedCalls host rootArg start t) start.fresh := by
  rw [install]
  refine @wp_begin _ host rootArg pathArg start (fun root original size staging =>
      Program.ensuring (importStaged host root staging original size)
        (removeTemporary host staging))
    _ _ (fun _ _ _ unstaged _ => .inl unstaged.1.installer) ?_
  intro site original size t begun
  have below : CallsBelow host site.user t := by
    unfold CallsBelow
    rw [begun.early.quiet.installer]
    rintro _ ⟨⟩
  have staged (t : World) (below : CallsBelow host site.user t) :
      StagedCalls host rootArg start (removeTemporary host site.stagingPath t) :=
    .inr ⟨site.root, site.staging, begun.root, site.hidden, below.removeTemporary _⟩
  rw [Program.wp_ensuring]
  exact Program.wp_mono ((callsBelow_importStaged _ original size).run t below)
    (fun _ => staged) fun _ => staged

end Calls

/-! ## After the installation -/

/-- The importer up to `Paths restore(root)`. -/
def untilPaths (host : Host) (rootArg pathArg : Option Text) : Import Staged := do
  let (root, original, size) ← checkArguments host rootArg pathArg
  let staging ← makeStaging host root size
  stage host staging original size

/-- The call comes to construct `Paths`. -/
def ConstructsPaths (host : Host) (rootArg pathArg : Option Text) (start : World) : Prop :=
  (untilPaths host rootArg pathArg).Returns start.fresh

section Paths

variable {host : Host} {rootArg pathArg : Option Text} {start : World}

/-- The category of a title is a part of its id. -/
theorem Inspected.titleId_ne_zero {size : UInt64} {staged : Staged} {file : Bytes}
    (inspected : Inspected host size staged file) : staged.valid.title.tid ≠ 0 := by
  intro hzero
  have htid := inspected.describes.title.tid
  have hcategory := inspected.valid.title.category
  rw [hzero] at htid
  rw [← htid] at hcategory
  exact absurd hcategory (by decide)

/-- Where `Paths` is constructed a title has been recorded. -/
theorem wp_untilPaths (host : Host) (rootArg pathArg : Option Text) (start : World) :
    (untilPaths host rootArg pathArg).wp (fun _ t => t.result.titleId ≠ 0) (fun _ _ => True)
      start.fresh := by
  rw [untilPaths]
  refine @wp_begin _ host rootArg pathArg start
    (fun _ original size staging => stage host staging original size) _ _
    (fun _ _ _ _ _ => trivial) ?_
  intro site original size t begun
  apply Program.wp_mono (wp_stage host original begun.least begun.early begun.safe) _
    fun _ _ _ => trivial
  intro staged t ⟨⟨_, _, htid, _, _, inspected, _⟩, _⟩
  rw [htid]
  exact inspected.titleId_ne_zero

/-- From the construction of `Paths` on the record stays. -/
theorem titleId_install (constructs : ConstructsPaths host rootArg pathArg start) :
    ((install host rootArg pathArg).outcome start.fresh).2.result.titleId ≠ 0 := by
  obtain ⟨staged, t, hrun⟩ := constructs
  have htid :=
    (Program.wp_iff_outcome.mp (wp_untilPaths host rootArg pathArg start)).1 staged t hrun
  obtain ⟨⟨root, original, size⟩, u, hchecked, hrun⟩ := Program.outcome_bind_eq_ok.mp hrun
  obtain ⟨staging, v, hmade, hstaged⟩ := Program.outcome_bind_eq_ok.mp hrun
  have hinstall : (install host rootArg pathArg).outcome start.fresh =
      ((importStaged host root staging original size).ensuring
        (removeTemporary host staging)).outcome v := by
    simp only [install, Program.outcome_bind, hchecked, hmade]
  have himport : (importStaged host root staging original size).outcome v =
      ((publish host root staging size staged).ensuring
        (restorePaths host root t.compressCiaInstalls)).outcome t := by
    rw [importStaged_eq, Program.outcome_bind, hstaged]
    rfl
  have hresult : ((publish host root staging size staged).outcome t).2.result = t.result :=
    (@Program.wp_iff_state _ _ _ _ (fun w => w.result = t.result) t).mp
      ((result_publish root staging size staged t.result).run t rfl)
  rw [hinstall, Program.outcome_ensuring, himport, Program.outcome_ensuring, result_guards, hresult]
  exact htid

/-- A call that succeeds has constructed `Paths`. -/
theorem constructsPaths_of_success
    (h : (retroManicInstallUpdateCiaV1 host rootArg pathArg true start.fresh).1 = .success) :
    ConstructsPaths host rootArg pathArg start := by
  cases houtcome : (install host rootArg pathArg).outcome start.fresh with
  | mk result t =>
      rw [retroManicInstallUpdateCiaV1_eq houtcome] at h
      cases result with
      | error stop =>
          have hstatus := (Program.wp_iff_outcome.mp
            ((unsuccessful_install host rootArg pathArg).run start.fresh trivial)).2 stop t houtcome
          exact absurd h hstatus
      | ok =>
          obtain ⟨⟨root, original, size⟩, u, hchecked, hrun⟩ :=
            Program.outcome_bind_eq_ok.mp houtcome
          obtain ⟨staging, v, hmade, hrun⟩ := Program.outcome_bind_eq_ok.mp hrun
          rw [Program.outcome_ensuring, importStaged_eq] at hrun
          obtain ⟨hreturned, -⟩ := Prod.mk.inj hrun
          obtain ⟨staged, w, hstaged, -⟩ := Program.outcome_bind_eq_ok.mp
            (Prod.ext hreturned (Eq.refl (Prod.snd _)))
          refine ⟨staged, w, ?_⟩
          rw [untilPaths, Program.outcome_bind, hchecked]
          simp only [Program.outcome_bind, hmade, hstaged]

/-- **After a call that has constructed `Paths`** the directories of the emulator lie below the
root. -/
theorem derived_install (lawful : host.Lawful)
    (constructs : ConstructsPaths host rootArg pathArg start) :
    ∃ root, AsRequested host rootArg start root ∧
      Derived host.constants ((install host rootArg pathArg).outcome start.fresh).2.storage.paths
        (directoryText (.ofNames root)) := by
  have htid := titleId_install constructs
  obtain ⟨hdone, hstopped⟩ := Program.wp_iff_outcome.mp (wp_install lawful rootArg pathArg start)
  cases houtcome : (install host rootArg pathArg).outcome start.fresh with
  | mk result t =>
      rw [houtcome] at htid
      cases result with
      | ok =>
          obtain ⟨site, title, size, file, staged, root, -, -, imported⟩ := hdone () t houtcome
          exact ⟨site.root, root, imported.ended.storage htid⟩
      | error stop =>
          cases hstopped stop t houtcome with
          | unstaged names unstaged => exact absurd unstaged.1.titleId htid
          | early site _ _ htitle => exact absurd htitle htid
          | late site root _ _ ended => exact ⟨site.root, root, ended.storage htid⟩

end Paths

/-! ## Isolation -/

/-- **Storage isolation.** `SetUserPath` with a path of its own that can be made sets all
directories to that path, whatever was cached before. After every history of calls the derived
directories lie below one directory, and this is the user directory if `SetUserPath("")` has not
been called since the last `SetUserPath` with a path of its own, or else since the first call. If
`do_load_game` lets a game be loaded in such a state, the user directory is that of the
experiment. The installer is only called with a user directory in the staging directory, and a
call that has constructed `Paths` leaves the root as the user directory. -/
theorem storage_isolated (host : Host) :
    (∀ history path around, path ≠ [] →
      let after := (machine host.constants).run Storage.start
        (history ++ [.setUserPath path true around])
      Derived host.constants after.paths path ∧ ∀ key ∈ [.configDir, .cacheDir],
        after.paths.lookup key = some (path ++ host.constants.folder key)) ∧
    (∀ history, history ≠ [] →
      let after := (machine host.constants).run Storage.start history
      (∃ base, Below host.constants after.paths base) ∧
        (Undivided history → ∃ user, Derived host.constants after.paths user)) ∧
    (∀ history around, history = [] ∨ Undivided history →
      let game := doLoadGame host.constants around
        ((machine host.constants).run Storage.start history)
      game.2 = true → ∃ user, Derived host.constants game.1.paths user ∧
        "/RoomExperiment-v1/3DS/".toList <:+ user) ∧
    (∀ rootArg pathArg resultFits start, StagedCalls host rootArg start
      (retroManicInstallUpdateCiaV1 host rootArg pathArg resultFits start.fresh).2) ∧
    (host.Lawful → ∀ rootArg pathArg start, ConstructsPaths host rootArg pathArg start →
      ∃ root, AsRequested host rootArg start root ∧ Derived host.constants
        (retroManicInstallUpdateCiaV1 host rootArg pathArg true start.fresh).2.storage.paths
        (directoryText (.ofNames root))) := by
  refine ⟨fun history path around hpath => ?_, fun history hhistory => ?_,
    fun history around h hloaded => ?_, fun rootArg pathArg resultFits start => ?_,
    fun lawful rootArg pathArg start constructs => derived_install lawful constructs⟩
  · dsimp only
    rw [Machine.run_append]
    exact lookup_setUserPath hpath around _
  · exact ⟨(gathered_run hhistory).below, fun undivided => (united_run undivided).derived⟩
  · exact ⟨_, derived_getUserPath h around, of_decide_eq_true hloaded⟩
  · cases resultFits with
    | false => exact .inl rfl
    | true =>
        have hcalls := wp_install_calls host rootArg pathArg start
        exact Program.wp_iff_state.mp hcalls

/-- `SetUserPath("")` exchanges the user directory and leaves the others where they are. -/
theorem not_derived_setsDefault :
    let history : List Storage.Call :=
      [.setUserPath "/a/".toList true default, .setUserPath [] false default]
    history ≠ [] ∧
      ¬ ∃ user, Derived default ((machine default).run Storage.start history).paths user := by
  refine ⟨by decide, fun ⟨user, hderived⟩ => ?_⟩
  have huser := hderived.userDir
  have hsdmc := hderived.derived .sdmcDir (by decide)
  have hlookups :
      ((machine default).run Storage.start [.setUserPath "/a/".toList true default,
        .setUserPath [] false default]).paths.lookup .userDir = some "/Library/emu/".toList ∧
      ((machine default).run Storage.start [.setUserPath "/a/".toList true default,
        .setUserPath [] false default]).paths.lookup .sdmcDir = some "/a/sdmc/".toList := by
    decide +kernel
  rw [hlookups.1] at huser
  rw [hlookups.2, ← Option.some.inj huser] at hsdmc
  exact absurd hsdmc (by decide)

/-- The import of the sample leaves the root as the user directory, and after a switch to the
directory of the experiment a game is loaded from there. -/
theorem storage_isolated_sample :
    (∃ user, Derived sampleHost.constants
      (doLoadGame sampleHost.constants default ((machine sampleHost.constants).run Storage.start
        [.getUserPath .nandDir default,
          .setUserPath "/d/RoomExperiment-v1/3DS/".toList true default])).1.paths user ∧
        "/RoomExperiment-v1/3DS/".toList <:+ user) ∧
      ∃ root, AsRequested sampleHost sampleRoot sampleWorld root ∧
        Derived sampleHost.constants sampleRun.2.storage.paths (directoryText (.ofNames root)) := by
  obtain ⟨-, -, hload, -, himport⟩ := storage_isolated sampleHost
  refine ⟨hload _ default (.inr ⟨[_], _, [], rfl, .inr (List.cons_ne_nil _ _), nofun⟩)
    (by decide +kernel), ?_⟩
  exact himport sampleHost_lawful sampleRoot samplePath sampleWorld
    (constructsPaths_of_success sampleRun_success.1)

end ManicRoom.Cia
