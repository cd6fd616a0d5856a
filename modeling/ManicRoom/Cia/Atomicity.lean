/-
# All or nothing

A call of the importer succeeds with a whole title at a destination where there was nothing,
or it fails and leaves the destination as it was. Whatever it does, it changes nothing that
was there, and besides the title it leaves at most directories on the way to the destination,
and the staging directory if that cannot be removed.
-/

import ManicRoom.Cia.Publication

namespace ManicRoom.Cia

open ManicRoom.Foundation ManicRoom.Storage

/-- What a call may leave besides a title: directories on the way to the directory of the
destination, and a staging directory that the system has failed to remove. -/
def Remains (host : Host) (root place rel : List Filename) (w : World) (p : List Filename)
    (node : Option (Node Filename Bytes)) : Prop :=
  (node = some .directory ∧ p <+: place ++ rel.dropLast ∧
      ∃ pre, pre <+: root ++ rel.dropLast ∧ w.files.Leads pre p) ∨
    ∃ staging : Filename, staging.text.head? = some '.' ∧
      host.Strands w (.ofNames (root ++ [staging])) ∧ place ++ [staging] <+: p

/-- The call has published a title: what its metadata says is what the emulator finds. -/
structure Succeeded (host : Host) (start w : World) (root place rel : List Filename)
    (size : UInt64) (file : Bytes) (container : Container) : Prop where
  /-- The staged copy was valid, and the title is the one that it names. -/
  valid : Valid file host.hash size.toNat
  titleId : w.result.titleId.toNat = Cia.titleId (tmdBytes file)
  loaded : host.loadContainer file = some container
  /-- Where the title belongs. -/
  destination : host.titleDirectory root w.result.titleId = .ofNames (root ++ rel)
  leads : w.files.Leads root place
  /-- There was nothing before. -/
  absent : start.files.node (place ++ rel) = none
  /-- Every content is there with its size and its hash, and so is the metadata. -/
  finds : host.Finds w.files (host.card root) w.result.titleId file container.titleMetadata
  /-- Nothing that was there has changed, and nothing else is new. -/
  since : Since start.files
    (fun p node => place ++ rel <+: p ∨ Remains host root place rel w p node) w

/-- The call has not published anything. -/
structure Failed (host : Host) (start w : World) (root place rel : List Filename) : Prop where
  /-- Nothing that was there has changed, and no title is new. -/
  since : Since start.files (Remains host root place rel w) w
  /-- Where the title belongs, if there is one. -/
  destination : w.result.titleId ≠ 0 →
    host.titleDirectory root w.result.titleId = .ofNames (root ++ rel) ∧ w.files.Leads root place
  /-- At the destination there is what was there before or what another process has made. -/
  untouched : w.result.titleId ≠ 0 → ∀ p, place ++ rel <+: p →
    (∃ q ∈ w.intruded, q <+: p) ∨ w.files.node p = start.files.node p

section Ends

variable {host : Host} {site : Site} {start w : World}

/-- The directories that were made for the root and those that were made below it. -/
theorem Site.Ended.since_start
    {allowed other : List Filename → Option (Node Filename Bytes) → Prop} {rel : List Filename}
    (ended : site.Ended host start allowed w)
    (h : ∀ p node, allowed p node → other p node ∨ OnTheWay site rel.dropLast p node) :
    Since start.files
      (fun p node => other p node ∨ Remains host site.root site.place rel w p node) w := by
  have hkeeps := ended.since.keeps
  refine ⟨ended.rooted.keeps.trans hkeeps, fun p hne => ?_⟩
  by_cases hsame : w.files.node p = site.before.node p
  · rw [hsame] at hne ⊢
    obtain ⟨hnode, habove, pre, hpre, hleads⟩ := ended.rooted.new p hne
    exact .inr (.inr (.inl ⟨hnode, habove.trans (List.prefix_append _ _), pre,
      hpre.trans (List.prefix_append _ _), hleads.keeps hkeeps⟩))
  · rcases ended.since.new p hsame with hintruded | hallowed | ⟨hstranded, htop⟩
    · exact .inl hintruded
    · refine .inr ((h p _ hallowed).imp_right fun ⟨hnode, pre, hpre, hp⟩ => .inl ⟨hnode, ?_, ?_⟩)
      · rw [hp]
        exact (List.prefix_append_right_inj _).mpr hpre
      · refine ⟨site.root ++ pre, (List.prefix_append_right_inj _).mpr hpre, ?_⟩
        rw [hp] at hnode ⊢
        exact (site.rootLeads.keeps hkeeps).append hnode
    · exact .inr (.inr (.inr ⟨site.staging, site.hidden, hstranded, htop⟩))

theorem Site.Imported.succeeded {title : List Filename} {size : UInt64} {file : Bytes}
    {staged : Staged} (inspected : Inspected host size staged file)
    (imported : site.Imported host start title file staged.tmd w) :
    ∃ container, Succeeded host start w site.root site.place (sdmcName :: title) size file
      container := by
  obtain ⟨container, hload, htmd, -⟩ := inspected.container
  refine ⟨container, inspected.valid, imported.titleId, hload,
    imported.titled.titleDirectory_eq site.nonempty, ?_, ?_, htmd ▸ imported.finds, ?_⟩
  · exact site.rootLeads.keeps imported.ended.since.keeps
  · exact imported.ended.rooted.keeps.node_eq_none imported.absent
  · exact imported.ended.since_start fun _ _ => id

/-- What a call leaves is not at the destination. -/
theorem not_remains {root place title p : List Filename} {node : Option (Node Filename Bytes)}
    (hbelow : place ++ sdmcName :: title <+: p) :
    ¬ Remains host root place (sdmcName :: title) w p node := by
  rintro (⟨-, habove, -⟩ | ⟨staging, hhidden, -, htop⟩)
  · have hlength := (hbelow.trans habove).length_le
    simp at hlength
  · obtain ⟨rest, rfl⟩ := hbelow
    rw [List.append_assoc, List.prefix_append_right_inj] at htop
    obtain ⟨rfl, -⟩ := List.cons_prefix_cons.mp htop
    exact absurd hhidden (by decide)

theorem Abandoned.failed {rootArg : Option Text} (abandoned : Abandoned host rootArg start w) :
    ∃ root place rel, (w.files = start.files ∨ AsRequested host rootArg start root) ∧
      Failed host start w root place rel := by
  cases abandoned with
  | unstaged names unstaged root =>
      obtain ⟨quiet, last, rooted⟩ := unstaged
      refine ⟨names, last, [], root, ⟨rooted.keeps, fun p hne => ?_⟩,
        fun htid => absurd quiet.titleId htid, fun htid => absurd quiet.titleId htid⟩
      obtain ⟨hnode, habove, pre, hpre, hleads⟩ := rooted.new p hne
      exact .inr (.inl ⟨hnode, by simpa using habove, pre, by simpa using hpre, hleads⟩)
  | early site root ended titleId =>
      have since := @Site.Ended.since_start host site start w _ (fun _ _ => False) [] ended
        fun _ _ => .inr
      exact ⟨site.root, site.place, [], .inr root, since.mono fun _ _ h => h.resolve_left id,
        fun htid => absurd titleId htid, fun htid => absurd titleId htid⟩
  | late site root title titled ended =>
      have since := (@Site.Ended.since_start host site start w _ (fun _ _ => False)
        (sdmcName :: title) ended fun _ _ => .inr).mono fun _ _ h => h.resolve_left id
      refine ⟨site.root, site.place, sdmcName :: title, .inr root, since, fun _ =>
        ⟨titled.titleDirectory_eq site.nonempty, site.rootLeads.keeps ended.since.keeps⟩,
        fun _ p hbelow => ?_⟩
      by_cases hsame : w.files.node p = start.files.node p
      · exact .inr hsame
      · exact .inl ((since.new p hsame).resolve_right (not_remains hbelow))

theorem Abandoned.compression {rootArg : Option Text}
    (abandoned : Abandoned host rootArg start w) :
    w.compressCiaInstalls = start.compressCiaInstalls := by
  cases abandoned with
  | unstaged names unstaged _ => exact unstaged.1.compression
  | early site _ ended _ => exact ended.compression
  | late site _ title _ ended => exact ended.compression

end Ends

/-- The status is written into the record at the end. -/
def World.withStatus (w : World) (status : Status) : World :=
  { w with result := { w.result with status } }

theorem Succeeded.withStatus {host : Host} {start w : World} {root place rel : List Filename}
    {size : UInt64} {file : Bytes} {container : Container}
    (h : Succeeded host start w root place rel size file container) (status : Status) :
    Succeeded host start (w.withStatus status) root place rel size file container :=
  ⟨h.valid, h.titleId, h.loaded, h.destination, h.leads, h.absent, h.finds,
    h.since.keeps, h.since.new⟩

theorem Failed.withStatus {host : Host} {start w : World} {root place rel : List Filename}
    (h : Failed host start w root place rel) (status : Status) :
    Failed host start (w.withStatus status) root place rel :=
  ⟨⟨h.since.keeps, h.since.new⟩, h.destination, h.untouched⟩

theorem retroManicInstallUpdateCiaV1_eq {host : Host} {rootArg pathArg : Option Text}
    {result : Except Stop Unit} {w t : World}
    (h : (install host rootArg pathArg).outcome w.fresh = (result, t)) :
    retroManicInstallUpdateCiaV1 host rootArg pathArg true w.fresh =
      match result with
      | .ok _ => (.success, t.withStatus .success)
      | .error stop => (stop.status, t.withStatus stop.status) := by
  have hrun : (install host rootArg pathArg).outcome { w.fresh with result := .initial } =
      (result, t) := h
  rw [retroManicInstallUpdateCiaV1, if_neg (by decide)]
  simp only [hrun]
  cases result <;> rfl

/-- An import that stops has no status of success. -/
theorem unsuccessful_install (host : Host) (rootArg pathArg : Option Text) :
    (install host rootArg pathArg).Maintains (fun _ => True)
      fun stop _ => stop.status ≠ .success := by
  have usual : Usual host (fun _ => True) fun stop _ => stop.status ≠ .success :=
    usual_of_steady ⟨fun _ _ => trivial, fun _ _ _ => trivial, fun _ _ hstop _ => hstop.2⟩
      (fun _ _ _ => trivial) (fun _ _ _ _ => trivial) fun _ _ => nofun
  have steady := usual.toSteady
  apply Program.Maintains.bind (maintains_checkArguments usual rootArg pathArg)
  intro (root, original, size)
  apply Program.Maintains.bind (maintains_makeStaging usual root size (fun _ _ _ => trivial)
    fun _ _ _ _ _ => trivial)
  intro staging
  refine .ensuring ?_ (fun _ _ => trivial) fun _ _ hstop => hstop
  rw [importStaged_eq]
  apply Program.Maintains.bind
  · apply Program.Maintains.bind
      (maintains_copyInput usual.toPaced _ _ _ fun _ _ _ _ _ => trivial)
    intro _
    apply Program.Maintains.bind (maintains_openStream steady _)
    intro stream
    apply Program.Maintains.bind (maintains_validate usual _ _)
    intro valid
    apply Program.Maintains.bind (maintains_inspect steady _ _)
    intro tmd
    exact .bind (maintains_reportTitle usual _ _ fun _ _ _ => trivial) fun _ => .pure _
  intro staged
  apply Program.Maintains.get_bind
  intro w
  refine .ensuring ?_ (fun _ _ => trivial) fun _ _ hstop => hstop
  apply Program.Maintains.bind (maintains_installStaged usual.toPaced root staging staged.stream
    size staged.valid staged.tmd (fun _ _ _ => trivial) (fun _ _ _ => trivial)
    (fun _ _ _ _ => trivial) (fun _ _ => trivial) (fun _ _ _ => trivial) fun _ _ hstop => hstop)
  intro titles
  exact maintains_commit steady _ _ _ (fun _ _ _ => trivial) (fun _ _ _ => trivial)
    fun _ _ => trivial

/-- **All or nothing.** Whatever the arguments, the input and the files are, whatever the cancel
callback answers and wherever an operation fails or throws: a call that succeeds has published a
whole and verified title where there was nothing, below the root that was asked for, and any other
call leaves what was there and no title. In both cases the setting is what it was. -/
theorem import_all_or_nothing (host : Host) (lawful : host.Lawful) (rootArg pathArg : Option Text)
    (resultFits : Bool) (start : World) :
    let run := retroManicInstallUpdateCiaV1 host rootArg pathArg resultFits start.fresh
    run.2.compressCiaInstalls = start.compressCiaInstalls ∧
      (run.1 = .success → ∃ root place rel size file container,
        AsRequested host rootArg start root ∧
          start.files.readFile host.here (.parse (pathArg.getD [])) = some file ∧
          Succeeded host start run.2 root place rel size file container) ∧
      (run.1 ≠ .success → ∃ root place rel,
        (run.2.files = start.files ∨ AsRequested host rootArg start root) ∧
          Failed host start run.2 root place rel) := by
  intro run
  cases resultFits with
  | false =>
      have hrun : run = (.invalidFile, start.fresh) := rfl
      rw [hrun]
      refine ⟨rfl, nofun, fun _ => ?_⟩
      exact ⟨[], [], [], .inl rfl, ⟨.refl _, fun _ hne => absurd rfl hne⟩,
        fun htid => absurd rfl htid, fun htid => absurd rfl htid⟩
  | true =>
      obtain ⟨hdone, hstopped⟩ := Program.wp_iff_outcome.mp
        (Program.wp_and (wp_install lawful rootArg pathArg start)
          ((unsuccessful_install host rootArg pathArg).run start.fresh trivial))
      cases houtcome : (install host rootArg pathArg).outcome start.fresh with
      | mk result t =>
          have hrun := retroManicInstallUpdateCiaV1_eq houtcome
          cases result with
          | ok =>
              obtain ⟨⟨site, title, size, file, staged, root, hinput, inspected, imported⟩, -⟩ :=
                hdone () t houtcome
              obtain ⟨container, succeeded⟩ := imported.succeeded inspected
              have hsuccess : run = (.success, t.withStatus .success) := hrun
              rw [hsuccess]
              exact ⟨imported.ended.compression,
                fun _ => ⟨_, _, _, _, _, _, root, hinput, succeeded.withStatus _⟩,
                fun h => absurd rfl h⟩
          | error stop =>
              obtain ⟨abandoned, hstatus⟩ := hstopped stop t houtcome
              obtain ⟨root, place, rel, hroot, failed⟩ := abandoned.failed
              have hstop : run = (stop.status, t.withStatus stop.status) := hrun
              rw [hstop]
              exact ⟨abandoned.compression, fun h => absurd h hstatus,
                fun _ => ⟨_, _, _, hroot, failed.withStatus _⟩⟩

/-! ## A sample -/

section Sample

variable {files : Files} {target : Path Filename}

theorem sampleDirectory_ne_link (text : String) (h : ∀ p, files.node p ≠ some (.link target))
    (p : List Filename) : (sampleDirectory files text).node p ≠ some (.link target) := by
  unfold sampleDirectory
  cases hfiles : files.mkdir [] (.parse text.toList) with
  | none => exact h p
  | some made =>
      obtain ⟨place, -, -, hnode⟩ := FileTree.mkdir_eq_some hfiles
      show made.node p ≠ _
      rw [hnode]
      split
      · nofun
      · exact h p

theorem sampleWritten_ne_link (text : String) (bytes : Bytes)
    (h : ∀ p, files.node p ≠ some (.link target)) (p : List Filename) :
    (sampleWritten files text bytes).node p ≠ some (.link target) := by
  unfold sampleWritten
  cases hfiles : files.writeFile [] (.parse text.toList) bytes with
  | none => exact h p
  | some written =>
      obtain ⟨place, -, -, hnode⟩ := FileTree.writeFile_eq_some hfiles
      show written.node p ≠ _
      rw [hnode]
      split
      · nofun
      · exact h p

/-- Nothing of what is installed is a link. -/
theorem sampleCard_ne_link (target : Path Filename) (p : List Filename) :
    sampleCard.node p ≠ some (.link target) := by
  have hroot (p : List Filename) : (default : Files).node p ≠ some (.link target) := by
    show (if p.isEmpty then some .directory else none) ≠ some (Node.link target)
    split <;> nofun
  show (sampleWritten (sampleWritten (sampleDirectory default "/title") "/title/content"
    (List.replicate 0x200 0)) "/title/metadata" []).node p ≠ _
  exact sampleWritten_ne_link _ _ (sampleWritten_ne_link _ _ (sampleDirectory_ne_link _ hroot)) p

end Sample

theorem sampleHost_unlinked : sampleHost.MakesNoLinks := by
  intro calls paths files p target hlink
  have hlink : (installerOf sampleCard calls paths files).1.node p = some (.link target) := hlink
  unfold installerOf at hlink
  split at hlink
  · dsimp only at hlink
    split at hlink
    · exact hlink
    · split at hlink
      · exact hlink
      · next place _ =>
        cases hplant : files.plant? (place ++ [sdmcName]) sampleCard with
        | none => rwa [hplant] at hlink
        | some planted =>
            rw [hplant, Option.getD_some, (FileTree.plant?_eq_some hplant).2] at hlink
            split at hlink
            · exact absurd hlink (sampleCard_ne_link target _)
            · exact hlink
  · exact hlink

theorem sampleHost_lawful : sampleHost.Lawful where
  toConfined := sampleHost_confined
  sdmc := rfl
  title _ :=
    ⟨[⟨"title".toList, by decide, by decide, by decide, by decide⟩], by decide, fun _ => rfl⟩
  unlinked := sampleHost_unlinked
  contentPath _ _ := by
    refine ⟨fun _ => [⟨"content".toList, by decide, by decide, by decide, by decide⟩],
      fun _ => List.cons_ne_nil _ _, fun _ sdmc => ?_⟩
    show sdmc ++ _ = (sdmc ++ _) ++ _
    rw [List.append_assoc]
    rfl
  metadataPath _ := by
    refine ⟨fun _ => [⟨"metadata".toList, by decide, by decide, by decide, by decide⟩],
      fun _ => List.cons_ne_nil _ _, fun _ sdmc => ?_⟩
    show sdmc ++ _ = (sdmc ++ _) ++ _
    rw [List.append_assoc]
    rfl
  contentSize file size container _ hload i hi := by
    have hload : (if file = sampleFile then some (Container.mk sampleMetadata 0x0004000e00000001)
      else none) = some container := hload
    split at hload
    · next hfile =>
      cases hload
      subst hfile
      rw [sampleFile_contents.1, Nat.lt_one_iff] at hi
      rw [hi, sampleFile_contents.2]
      rfl
    · exact nomatch hload

/-- The title of the sample is published. -/
theorem import_all_or_nothing_sample :
    sampleRun.1 = .success ∧ ∃ root place rel size file container,
      AsRequested sampleHost sampleRoot sampleWorld root ∧
      sampleFiles.readFile [] (.parse (samplePath.getD [])) = some file ∧
        Succeeded sampleHost sampleWorld sampleRun.2 root place rel size file container :=
  ⟨sampleRun_success.1, (import_all_or_nothing sampleHost sampleHost_lawful sampleRoot samplePath
    true sampleWorld).2.1 sampleRun_success.1⟩

/-! ### An installer that makes links -/

def titleName : Filename := ⟨"title".toList, by decide, by decide, by decide, by decide⟩

def contentName : Filename := ⟨"content".toList, by decide, by decide, by decide, by decide⟩

/-- A title without its content, and a file beside it. -/
def linkFiles : Files :=
  let title := sampleDirectory default "/title"
  sampleWritten (sampleWritten title "/title/metadata" []) "/kept" (List.replicate 0x200 0)

theorem linkFiles_node : linkFiles.node [titleName] = some .directory ∧
    linkFiles.node [titleName, contentName] = none := by
  decide +kernel

/-- The content is a link to that file. -/
def linkCard : Subtree Filename Bytes :=
  let linked := linkFiles.insert [titleName, contentName] (.link (.parse "../kept".toList))
    (List.cons_ne_nil _ _) linkFiles_node.1 (by simp [linkFiles_node.2])
  ⟨linked.node, by simp [linked.root], linked.parent⟩

/-- The host of the sample with that installer. -/
def linkHost : Host := { sampleHost with installer := installerOf linkCard }

def linkRun : Status × World :=
  retroManicInstallUpdateCiaV1 linkHost sampleRoot samplePath true sampleWorld.fresh

theorem linkHost_confined : linkHost.Confined where
  titlePath := sampleHost_titlePath
  installer calls _ _ _ _ huser hplace _ hp := installerOf_confined linkCard calls huser hplace hp

set_option maxRecDepth 100000 in
/-- **A title can be published without its content** if the installer makes links: what is
verified through the link stays behind in the staging directory, and after the rename the link
leads nowhere. -/
theorem success_without_content :
    linkHost.Confined ∧ contentCount (tmdBytes sampleFile) = 1 ∧ linkRun.1 = .success ∧
      linkRun.2.files.readFile [] (.parse (linkHost.titleContentPath linkRun.2.files
        (sampleRoot.getD [] ++ "/sdmc/".toList) linkRun.2.result.titleId 0)) = none := by
  have hrun : linkRun.1 = .success ∧
      linkRun.2.files.readFile [] (.parse (linkHost.titleContentPath linkRun.2.files
        (sampleRoot.getD [] ++ "/sdmc/".toList) linkRun.2.result.titleId 0)) = none := by
    decide +kernel
  exact ⟨linkHost_confined, sampleFile_contents.1, hrun⟩

end ManicRoom.Cia
