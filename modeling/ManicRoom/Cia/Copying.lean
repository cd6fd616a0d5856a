/-
# The staged copy

The importer copies its input into the staging directory and then looks at nothing but the
copy: it validates it and asks the emulator what it is. What validation has read is what the
emulator loads, since no other process acts before a destination is known.
-/

import ManicRoom.Cia.Blocks
import ManicRoom.Cia.Bounds
import ManicRoom.Cia.Staging

namespace ManicRoom.Cia

open ManicRoom.Foundation ManicRoom.Storage

/-- What the importer goes on with once the copy is validated. -/
structure Staged where
  stream : Stream
  valid : Validated
  tmd : TitleMetadata

/-- From the copy of the input file to what the record says of it. -/
def stage (host : Host) (staging : Path Filename) (original : Stream) (size : UInt64) :
    Import Staged := do
  let source := staging / literal "input.cia"
  copyInput host original size source
  let stream ← openStream host source
  let valid ← validate host stream size
  let tmd ← inspect host source valid.title
  reportTitle valid tmd
  pure { stream, valid, tmd }

/-- From the change of the user path to the rename. -/
def publish (host : Host) (root staging : Path Filename) (size : UInt64) (staged : Staged) :
    Import Unit := do
  let (stagedTitle, destination) ←
    installStaged host root staging staged.stream size staged.valid staged.tmd
  commit host root stagedTitle destination

theorem importStaged_eq (host : Host) (root staging : Path Filename) (original : Stream)
    (size : UInt64) :
    importStaged host root staging original size =
      stage host staging original size >>= fun staged =>
        get >>= fun w =>
          Program.ensuring (publish host root staging size staged)
            (restorePaths host root w.compressCiaInstalls) := by
  simp only [importStaged, stage, publish, bind_assoc, pure_bind]

/-- What is known of a staged file. -/
structure Inspected (host : Host) (size : UInt64) (staged : Staged) (file : Bytes) : Prop where
  stream : staged.stream = some file
  valid : Valid file host.hash size.toNat
  describes : Describes file staged.valid
  container : ∃ container, host.loadContainer file = some container ∧
    container.titleMetadata = staged.tmd ∧ container.titleMetadata.titleId = staged.valid.title.tid

section Copy

variable {site : Site} {files : Files}

theorem Site.source_eq (site : Site) :
    site.stagingPath / literal "input.cia" =
      .ofNames (site.root ++ [site.staging] ++ [inputName]) := by
  rw [literal_input, stagingPath, Path.ofNames_div_ofPart]

theorem Site.Copied.leads (copied : site.Copied files) :
    files.Leads (site.root ++ [site.staging]) site.top :=
  (site.rootLeads.keeps copied.keeps).append copied.top

/-- Writing the copy touches nothing else. -/
theorem Site.Copied.writeFile {here : List Filename} {content : Bytes} {written : Files}
    (copied : site.Copied files)
    (h : files.writeFile here (site.stagingPath / literal "input.cia") content = some written) :
    site.Copied written := by
  obtain ⟨q, hlocate, -, hnode⟩ := FileTree.writeFile_eq_some h
  have hplain : files.Plain true site.top [inputName] :=
    FileTree.plain_singleton fun _ => copied.input
  rw [site.source_eq, FileTree.locate_ofNames] at hlocate
  obtain ⟨rfl, -⟩ := copied.leads.eq_of_resolve (by simp) hplain hlocate
  refine ⟨fun p htop => ?_, ?_, fun p hp hsome => ?_, fun target => ?_⟩
  · rw [hnode, if_neg]
    · exact copied.outside p htop
    · rintro rfl
      exact htop (List.prefix_append _ _)
  · rw [hnode, if_neg (by simp)]
    exact copied.top
  · by_cases hinput : p = [inputName]
    · exact hinput
    · rw [hnode, if_neg (by simpa using hinput)] at hsome
      exact copied.inside p hp hsome
  · rw [hnode, if_pos rfl]
    nofun

end Copy

/-- What is changed while there is only the copy. -/
structure Site.Early (site : Site) (compression : Bool) (w : World) : Prop where
  quiet : Quiet compression w
  copied : site.Copied w.files

/-- **Up to the record** only the copy is made. What has been validated is what the emulator
has been asked about, and it is what the input file consists of. -/
theorem wp_stage (host : Host) {site : Site} {compression : Bool} (original : Stream)
    {size : UInt64} (hsize : 0x2020 ≤ size.toNat) {w : World} (early : site.Early compression w)
    (safe : w.memory.Safe) :
    (stage host site.stagingPath original size).wp
      (fun staged t => (Idle t ∧ t.compressCiaInstalls = compression ∧
        t.result.titleId = staged.valid.title.tid ∧ site.Copied t.files ∧
        ∃ file, Inspected host size staged file ∧ Covers original 0 size.toNat file) ∧
          t.memory.Safe)
      (fun _ t => site.Early compression t) w := by
  have copying := quiet_usual host compression site.Copied (site.Early compression)
    fun _ quiet copied => ⟨quiet, copied⟩
  have copyRule := (maintains_copyInput copying.toPaced original size
    (site.stagingPath / literal "input.cia") fun _ files _ hw hfiles =>
      ⟨hw.1.files files, hw.2.writeFile hfiles⟩).and
    (maintains_copyInput safe_paced original size _ fun _ _ _ safe _ => safe)
  have habsolute : (site.stagingPath / literal "input.cia").absolute = true := by
    rw [site.source_eq, Path.ofNames_absolute]
  rw [stage, Program.wp_bind]
  apply Program.wp_mono (Program.wp_and (copyRule.run w ⟨⟨early.quiet, early.copied⟩, safe⟩)
    (wp_copyInput original size habsolute early.quiet.destination rfl)) _ fun _ _ h => h.1.1
  rintro _ u ⟨⟨⟨quiet, copied⟩, safe⟩, taken, htaken, hcopy, _⟩
  have looking := quiet_usual host compression (· = u.files) (site.Early compression)
    fun _ quiet hfiles => ⟨quiet, hfiles ▸ copied⟩
  have steady := looking.toSteady.and (@safe_steady host)
  suffices h : Program.wp _ _ (fun _ t => site.Early compression t ∧ t.memory.Safe) u from
    Program.wp_mono h (fun _ _ h => h) fun _ _ h => h.1
  rw [Program.wp_bind]
  apply wp_openStream steady ⟨⟨quiet, rfl⟩, safe⟩
  rintro stream t ⟨ht, safe⟩ hstream
  rw [ht.2] at hstream
  have validated : (validate host stream size).wp
      (fun valid w => w.memory.Safe ∧ ∃ file, stream = some file ∧
        Valid file host.hash size.toNat ∧ Describes file valid)
      (fun _ w => w.memory.Safe) t :=
    wp_validate safe hsize
      (fun file hfile valid _ describes _ safe => ⟨safe, file, hfile, valid, describes⟩)
      fun _ _ _ safe => safe
  rw [Program.wp_bind]
  apply Program.wp_mono
    (Program.wp_and ((maintains_validate looking stream size).run t ht) validated) _ fun _ _ h => h
  rintro valid t ⟨ht, safe, file, hfile, hvalid, describes⟩
  have hread := hstream file hfile
  have hfile' : taken = file := Option.some.inj (hcopy.symm.trans hread)
  rw [Program.wp_bind]
  apply wp_inspect steady ⟨ht, safe⟩
  rintro content container t ⟨ht, safe⟩ hcontent hload hid
  rw [ht.2, hread, Option.some.injEq] at hcontent
  subst hcontent
  have reported := (safe_reportTitle describes container.titleMetadata).run t safe
  have untouched : (reportTitle valid container.titleMetadata).wp
      (fun _ t => Idle t ∧ t.compressCiaInstalls = compression ∧
        t.result.titleId = valid.title.tid ∧ site.Copied t.files)
      (fun _ t => site.Early compression t) t := by
    simp only [reportTitle, subtract, note, Program.wp_bind, wp_policy, Program.wp_modify,
      Program.wp_pure]
    exact ⟨⟨ht.1.1.1, ht.1.1.2, ht.1.1.3, ht.1.1.4⟩, ht.1.2, trivial, ht.2 ▸ copied⟩
  rw [Program.wp_bind]
  apply Program.wp_mono (Program.wp_and untouched reported) _ fun _ _ h => h
  rintro _ t ⟨⟨idle, hcompression, htid, copied⟩, safe⟩
  rw [Program.wp_pure]
  exact ⟨⟨idle, hcompression, htid, copied, file,
    ⟨hfile, hvalid, describes, container, hload, rfl, hid⟩, hfile' ▸ htaken⟩, safe⟩

end ManicRoom.Cia
