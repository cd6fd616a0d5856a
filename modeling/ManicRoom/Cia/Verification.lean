/-
# Reading back

The installer of the emulator does not report every error, so that the importer reads back
what has been installed: each content has to have its size and hash, and the metadata has to
be that of the title. Nothing else happens below the staging directory in the meantime, and
what has been read back is what is there.
-/

import ManicRoom.Cia.Titles

namespace ManicRoom.Cia

open ManicRoom.Foundation ManicRoom.Storage

/-- The bytes of a whole file. -/
theorem Covers.eq_content {stream : Stream} {content bytes : Bytes}
    (hstream : ∀ data, stream = some data → data = content)
    (h : Covers stream 0 content.length bytes) : bytes = content := by
  rcases h with ⟨hlength, rfl⟩ | ⟨data, hdata, -, rfl⟩
  · exact (List.length_eq_zero_iff.mp hlength).symm
  · rw [hstream data hdata]
    simp [slice]

section Reading

variable {host : Host} {holds : World → Prop} {halted : Stop → World → Prop}
  (paced : Paced host holds halted) {user place title found : List Filename}
  {node : List Filename → Option (Node Filename Bytes)} {w : World}
  (huses : ∀ w, holds w → Uses host user w)
  (hlies : ∀ w, holds w → Lies w.files user place title node)

include paced huses hlies

/-- A content that has been read back is there, with its size and hash. -/
theorem wp_verifyContent {tid : UInt64} {tmd : TitleMetadata} {hashes : List Bytes} {i : ℕ}
    (hpath : ∀ files, Lies files user place title node →
      Path.parse (host.titleContentPath files (host.card user) tid i) =
        .ofNames (user ++ (sdmcName :: title ++ found)))
    (hw : holds w) (safe : w.memory.Safe) :
    (verifyContent host tid tmd hashes i).wp
      (fun _ t => (holds t ∧ t.memory.Safe) ∧ ∃ bytes, node found = some (.file bytes) ∧
        bytes.length = (tmd.contentSize i).toNat ∧ host.hash.digest bytes = hashes.getD i [])
      (fun stop t => halted stop t) w := by
  have steady := paced.toSteady.and (@safe_steady host)
  suffices h : Program.wp _ _ (fun stop t => halted stop t ∧ t.memory.Safe) w from
    Program.wp_mono h (fun _ _ h => h) fun _ _ h => h.1
  have hw := And.intro hw safe
  apply Program.Maintains.andThen (maintains_attempt steady ordinary_exception) hw
  intro _ t ht
  rw [Program.wp_bind]
  apply wp_card steady (fun _ h => huses _ h.1) ht
  intro t ht
  rw [Program.wp_bind, Program.wp_get]
  simp only [hpath t.files (hlies t ht.1)]
  have hread {t : World} (ht : holds t ∧ t.memory.Safe) {bytes : Bytes}
      (hbytes : t.files.readFile host.here (.ofNames (user ++ (sdmcName :: title ++ found))) =
        some bytes) : node found = some (.file bytes) :=
    (hlies t ht.1).readFile_eq_some_iff.mp hbytes
  rw [Program.wp_bind, Program.wp_andM]
  apply Program.wp_mono ((maintains_isRegularFile steady _).run t ht) _ fun _ _ h => h
  intro regular t ht
  split
  · rw [Program.wp_bind]
    apply wp_fileSize steady ht
    intro content t ht hcontent hlength
    have hnode := hread ht hcontent
    have htoNat : (UInt64.ofNat content.length).toNat = content.length :=
      UInt64.toNat_ofNat_of_lt' (by simp [UInt64.size]; omega)
    rw [Program.wp_pure, Program.wp_bind, wp_require]
    refine ⟨fun hsize => ?_, fun _ => steady.halt _ t (ordinary_failure (by decide)) ht⟩
    have hsize : UInt64.ofNat content.length = tmd.contentSize i := of_decide_eq_true hsize
    rw [Program.wp_bind]
    apply wp_openStream steady ht
    intro stream t ht hstream
    have hsame (data : Bytes) (hdata : stream = some data) : data = content := by
      cases hnode.symm.trans (hread ht (hstream data hdata))
      rfl
    rw [Program.wp_bind]
    apply wp_fileSize steady ht
    intro again t ht hagain _
    cases hnode.symm.trans (hread ht hagain)
    generalize UInt64.ofNat content.length = size at hsize htoNat
    have hashed : (hash host stream .rehash size 0 size).wp
        (fun bytes t => t.memory.Safe ∧ bytes = host.hash.digest content)
        (fun _ t => t.memory.Safe) t := by
      apply wp_hash ht.2 (by simp)
      · intro bytes hcovers t safe
        rw [htoNat] at hcovers
        exact ⟨safe, by rw [hcovers.eq_content hsame]⟩
      · exact fun _ _ _ safe => safe
    rw [Program.wp_bind]
    apply Program.wp_mono (Program.wp_and ((paced.rehash stream size).run t ht.1) hashed) _
      fun _ _ h => h
    rintro bytes t ⟨ht, safe, hbytes⟩
    subst hbytes
    rw [wp_require]
    refine ⟨fun hequal => ⟨⟨ht, safe⟩, content, hnode, ?_, hequal⟩, fun _ =>
      steady.halt _ t (ordinary_failure (by decide)) ⟨ht, safe⟩⟩
    rw [← hsize, htoNat]
  · rw [Program.wp_bind, wp_require]
    exact ⟨by rintro ⟨⟩, fun _ => steady.halt _ t (ordinary_failure (by decide)) ht⟩

/-- Metadata that has been read back is there, and that of the title. -/
theorem wp_verifyMetadata {title' : Title} {tmd : TitleMetadata}
    (hpath : ∀ files, Lies files user place title node →
      Path.parse (host.titleMetadataPath files (host.card user) title'.tid) =
        .ofNames (user ++ (sdmcName :: title ++ found)))
    (hw : holds w) :
    (verifyMetadata host title' tmd).wp
      (fun _ t => holds t ∧ ∃ bytes installed, node found = some (.file bytes) ∧
        host.loadTitleMetadata bytes = some installed ∧ installed.titleId = title'.tid ∧
        installed.titleVersion = tmd.titleVersion ∧ installed.contentCount = title'.count)
      halted w := by
  have steady := paced.toSteady
  have stopped (t : World) (ht : holds t) : halted (.failure .installFailed) t :=
    steady.halt _ t (ordinary_failure (by decide)) ht
  apply Program.Maintains.andThen (maintains_attempt steady (ordinary_failure (by decide))) hw
  intro _ t ht
  rw [Program.wp_bind]
  apply wp_card steady huses ht
  intro t ht
  rw [Program.wp_bind, Program.wp_get]
  simp only [hpath t.files (hlies t ht)]
  split
  · next installed hinstalled =>
    obtain ⟨bytes, hbytes, hload⟩ := Option.bind_eq_some_iff.mp hinstalled
    have hnode := (hlies t ht).readFile_eq_some_iff.mp hbytes
    rw [wp_require]
    exact ⟨fun hsame => ⟨ht, bytes, installed, hnode, hload, hsame⟩, fun _ => stopped t ht⟩
  · exact (Program.wp_throw _).mpr (stopped t ht)

/-- **What has been read back is intact.** -/
theorem wp_verify_intact (lawful : host.Lawful) {size : UInt64} {staged : Staged} {file : Bytes}
    (titled : host.Titled staged.valid.title.tid title)
    (inspected : Inspected host size staged file)
    (hw : holds w) (safe : w.memory.Safe) :
    (verify host staged).wp
      (fun _ t => holds t ∧ Intact host staged.valid.title.tid title file staged.tmd node)
      halted w := by
  obtain ⟨container, hload, htmd, -⟩ := inspected.container
  have hcount := inspected.describes.title.count
  have hhashes (i : ℕ) (hi : i < contentCount (tmdBytes file)) :
      staged.valid.hashes.getD i [] = contentHash (tmdBytes file) i := by
    rw [inspected.describes.hashes]
    simp [hi]
  have hsizes (i : ℕ) (hi : i < contentCount (tmdBytes file)) :
      (staged.tmd.contentSize i).toNat = contentSize (tmdBytes file) i := by
    rw [← htmd]
    exact lawful.contentSize file _ container inspected.valid hload i hi
  have contents : Program.wp ((List.range staged.valid.title.count.toNat).forM
      (verifyContent host staged.valid.title.tid staged.tmd staged.valid.hashes))
      (fun _ t => (holds t ∧ t.memory.Safe) ∧
        ∀ i ∈ List.range staged.valid.title.count.toNat, ∀ files user place,
          Lies files user place title node → ∃ bytes,
            files.readFile host.here (.parse
              (host.titleContentPath files (host.card user) staged.valid.title.tid i)) =
                some bytes ∧ Content host file i bytes)
      halted w := by
    refine Program.wp_forM (fun i hmem t ht => ?_) ⟨hw, safe⟩
    have hi : i < contentCount (tmdBytes file) := hcount ▸ List.mem_range.mp hmem
    obtain ⟨names, hne, hnames⟩ := lawful.contentPath staged.valid.title.tid i
    obtain ⟨found, hpath⟩ := titled.exists_names node hne hnames
    apply Program.wp_mono (wp_verifyContent paced huses hlies
      (fun files lies => hpath files user place lies) ht.1 ht.2) _ fun _ _ h => h
    rintro _ t ⟨ht, bytes, hnode, hlength, hdigest⟩
    refine ⟨ht, fun files user place lies => ⟨bytes, ?_, ?_, ?_⟩⟩
    · rw [hpath files user place lies, lies.readFile_eq_some_iff]
      exact hnode
    · exact hlength.trans (hsizes i hi)
    · exact hdigest.trans (hhashes i hi)
  rw [verify, Program.wp_bind]
  apply Program.wp_mono contents _ fun _ _ h => h
  rintro _ t ⟨⟨ht, _⟩, hcontents⟩
  obtain ⟨names, hne, hnames⟩ := lawful.metadataPath staged.valid.title.tid
  obtain ⟨found, hpath⟩ := titled.exists_names node hne hnames
  apply Program.wp_mono (wp_verifyMetadata paced huses hlies
    (fun files lies => hpath files user place lies) ht) _ fun _ _ h => h
  rintro _ t ⟨ht, bytes, installed, hnode, hload, hid, hversion, hsame⟩
  refine ⟨ht, fun files user place lies => ⟨fun i hi => ?_, bytes, installed, ?_, hload, ?_⟩⟩
  · exact hcontents i (List.mem_range.mpr (hcount ▸ hi)) files user place lies
  · rw [hpath files user place lies, lies.readFile_eq_some_iff]
    exact hnode
  · exact ⟨hid ▸ inspected.describes.title.tid, hversion, hsame ▸ hcount⟩

end Reading

section Installed

variable {host : Host} {site : Site} {title : List Filename}
  {inner : List Filename → Option (Node Filename Bytes)} {w : World}

/-- The names of the directory of the staged title, seen from the staging directory. -/
def stagedNames (title p : List Filename) : List Filename := userName :: (sdmcName :: title ++ p)

/-- The staged title lies below the staging directory. -/
theorem Site.Importing.lies {rel way : List Filename} (unlinked : host.MakesNoLinks)
    (furnished : Furnished host inner) (importing : site.Importing host rel way (· = inner) w) :
    Lies w.files site.user (site.top ++ [userName]) title fun p =>
      inner (stagedNames title p) := by
  have hnode (p : List Filename) :
      w.files.node (site.top ++ [userName] ++ p) = inner (userName :: p) := by
    rw [List.append_assoc]
    exact congrFun importing.inside _
  refine ⟨by simp [Site.user], importing.kept.userLeads ?_, fun more pre _ _ _ target => ?_, ?_⟩
  · have huser := hnode []
    rw [List.append_nil] at huser
    exact huser.trans furnished.user
  · rw [hnode]
    exact furnished.unlinked unlinked _ target
  · exact fun p => hnode _

/-- Reading back below the staging directory. -/
theorem wp_verify_installed (lawful : host.Lawful) {rel : List Filename} {size : UInt64}
    {staged : Staged} {file : Bytes} (titled : host.Titled staged.valid.title.tid title)
    (inspected : Inspected host size staged file)
    (installed : site.Installed host staged.valid.title.tid rel inner w) (safe : w.memory.Safe) :
    (verify host staged).wp
      (fun _ t => site.Installed host staged.valid.title.tid rel inner t ∧
        Intact host staged.valid.title.tid title file staged.tmd fun p =>
          inner (stagedNames title p))
      (fun _ t => site.Kept host [] t) w := by
  have usual := Site.Importing.usual installed.sheltered (· = inner) site.user []
    (fun t => site.Kept host [] t) fun _ h => h.1.kept
  apply Program.wp_mono (wp_verify_intact usual.toPaced (fun _ h => h.2)
    (fun t h => h.1.lies lawful.unlinked installed.furnished) lawful titled inspected
    ⟨installed.importing, installed.uses⟩ safe) _ fun _ _ h => h
  exact fun _ t ⟨ht, intact⟩ =>
    ⟨⟨installed.sheltered, installed.title, installed.furnished, ht.1, ht.2⟩, intact⟩

end Installed

end ManicRoom.Cia
