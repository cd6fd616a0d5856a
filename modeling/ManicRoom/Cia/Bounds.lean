/-
# Staying within bounds

A CIA is untrusted: its offsets, sizes and counts are what its author likes. Whatever they
are, no run of the importer looks at a byte outside a vector, wraps a sum or a difference,
reads beyond the end of a file or allocates more than 1 MiB for file data. The log of the
memory is an invariant of the run; the parts of the run that parse the file have their
rules from the format, and the blocks stay within the size that the loop goes up to.
-/

import ManicRoom.Cia.Validation

namespace ManicRoom.Cia

open ManicRoom.Foundation ManicRoom.Storage

/-! ## Parts that do not parse -/

section Parts

variable {host : Host}

/-- The invariant of the runs, which is left when they stop as well. -/
abbrev StaysInBounds {α : Type} (p : Import α) : Prop :=
  p.Maintains (fun w => w.memory.Safe) fun _ w => w.memory.Safe

theorem safe_steady :
    Steady host (fun w => w.memory.Safe) fun _ w => w.memory.Safe where
  pass _ safe := by rwa [pass_memory]
  touch _ _ safe := safe
  halt _ _ _ safe := safe

theorem safe_read {stream : Stream} {offset size limit : UInt64} (hsize : size.toNat ≤ 2 ^ 20)
    (hinside : offset.toNat + size.toNat ≤ limit.toNat) :
    StaysInBounds (read host stream offset size limit) where
  run _ safe := wp_read_safe safe hsize hinside (fun _ _ _ safe => safe) fun _ _ _ safe => safe

theorem safe_check : StaysInBounds (check host) where
  run _ safe := wp_check_safe safe (fun _ safe => safe) fun _ _ safe => safe

theorem safe_rehash (stream : Stream) (size : UInt64) :
    StaysInBounds (hash host stream .rehash size 0 size) where
  run _ safe := by
    apply wp_hash safe
    · rw [UInt64.toNat_zero, Nat.zero_add]
    · exact fun _ _ _ safe => safe
    · exact fun _ _ _ safe => safe

/-- A loop over the blocks of a file stays below its size. -/
theorem safe_forBlocks (stream : Stream) (use : BlockUse) (size : UInt64)
    (body : UInt64 → Bytes → Import Unit) (hbody : ∀ off b, StaysInBounds (body off b)) :
    StaysInBounds (forBlocks host stream use size body 0) where
  run w safe := by
    refine Program.wp_mono (@wp_forBlocks host (fun _ w => w.memory.Safe) w _ size
      (safe_ongoing host size) stream use 0 body ?_ ?_ ?_) (fun _ _ h => h.1.1) fun _ _ h => h
    · intro offset n left w data _ ⟨safe, hleft⟩
      have hsafe := (hbody offset (slice data offset.toNat n.toNat)).run
        { w with events := .block use offset.toNat (slice data offset.toNat n.toNat) :: w.events }
        safe
      apply Program.wp_mono hsafe _ fun _ _ h => h
      exact fun _ t ht => ⟨ht, fun s hs => hleft s (List.mem_cons_of_mem _ hs)⟩
    · exact fun _ _ _ _ h => h.1
    · exact ⟨safe, safe_blocks (by rw [UInt64.toNat_zero]; omega)⟩

theorem safe_paced : Paced host (fun w => w.memory.Safe) fun _ w => w.memory.Safe where
  toSteady := safe_steady
  check := safe_check
  rehash := safe_rehash
  forBlocks stream use size body hbody := safe_forBlocks stream use size body hbody

theorem memory_switchUserPath (text : Text) (w : World) :
    (switchUserPath host text w).memory = w.memory := pass_memory host w

theorem memory_callInstaller (call : InstallerCall) (w : World) :
    (callInstaller host call w).1.memory = w.memory := pass_memory host w

theorem memory_removeTemporary (path : Path Filename) (w : World) :
    (removeTemporary host path w).memory = w.memory := by
  unfold removeTemporary
  dsimp only
  split <;> exact pass_memory host w

theorem safe_installStaged (root staging : Path Filename) (stream : Stream) (size : UInt64)
    (valid : Validated) (tmd : TitleMetadata) :
    StaysInBounds (installStaged host root staging stream size valid tmd) := by
  apply maintains_installStaged safe_paced
  · intro w text safe
    rwa [memory_switchUserPath]
  · exact fun _ _ safe => safe
  · exact fun _ _ safe _ => safe
  · exact fun _ safe => safe
  · intro call w safe
    rwa [memory_callInstaller]
  · intro stop w safe
    rwa [memory_callInstaller]

theorem safe_commit (root stagedTitle destination : Path Filename) :
    StaysInBounds (commit host root stagedTitle destination) := by
  apply maintains_commit safe_steady
  · intro w text safe
    rwa [memory_switchUserPath]
  · exact fun _ _ safe => safe
  · exact fun _ safe => safe

end Parts

/-! ## The run -/

section Run

variable {host : Host} {w : World}

/-- The input file has a size that the sums of the importer can take. -/
theorem wp_checkArguments (rootArg pathArg : Option Text) (safe : w.memory.Safe) :
    (checkArguments host rootArg pathArg).wp
      (fun arguments w => w.memory.Safe ∧ 0x2020 ≤ arguments.2.2.toNat ∧
        arguments.2.2.toNat ≤ 2 ^ 33)
      (fun _ w => w.memory.Safe) w := by
  have steady := @safe_steady host
  apply Program.Maintains.andThen (maintains_require steady (by decide)) safe
  intro _ w safe
  apply Program.Maintains.andThen (maintains_require steady (by decide)) safe
  intro _ w safe
  apply Program.Maintains.andThen (maintains_require steady (by decide)) safe
  intro _ w safe
  apply Program.Maintains.andThen (maintains_root steady ..) safe
  intro root w safe
  apply Program.Maintains.andThen (.andM (.pure _) (.andM (maintains_isRegularFile steady _)
    (.map _ (maintains_isSymlink steady _)))) safe
  intro suitable w safe
  apply Program.Maintains.andThen (maintains_require steady (by decide)) safe
  intro _ w safe
  apply Program.Maintains.andThen (maintains_fileSize steady _) safe
  intro size w safe
  rw [Program.wp_bind, wp_require]
  refine ⟨fun ⟨hleast, hmost⟩ => ?_, fun _ => safe⟩
  have hleast : 0x2020 ≤ size.toNat := UInt64.le_iff_toNat_le.mp hleast
  have hmost : size.toNat ≤ 2 ^ 33 := UInt64.le_iff_toNat_le.mp hmost
  apply Program.Maintains.andThen (maintains_openStream steady _) safe
  intro original w safe
  apply Program.Maintains.andThen (safe_read (by decide) _) safe
  · intro bytes w safe
    rw [Program.wp_bind, wp_policy]
    apply wp_header safe
    · intro _ sections _ memory safe
      apply Program.Maintains.andThen safe_check safe
      intro _ w safe
      exact (Program.wp_pure _).mpr ⟨safe, hleast, hmost⟩
    · exact fun _ _ _ safe => safe
  · rw [UInt64.toNat_zero, Nat.zero_add]
    exact hleast

/-- The space that is needed is a sum that does not wrap. -/
theorem safe_makeStaging (root : Path Filename) {size : UInt64} (hsize : size.toNat ≤ 2 ^ 33) :
    StaysInBounds (makeStaging host root size) := by
  have steady := @safe_steady host
  have htwo : (2 : UInt64).toNat = 2 := rfl
  have hreserve : ((64 : UInt64) <<< 20).toNat = 2 ^ 26 := rfl
  apply Program.Maintains.bind (maintains_createDirectories steady root fun _ _ safe => safe)
  intro _
  apply Program.Maintains.get_bind
  intro w
  apply Program.Maintains.bind (maintains_attempt steady ordinary_exception)
  intro _
  refine ⟨fun w safe => ?_⟩
  rw [Program.wp_bind, wp_policy]
  apply wp_multiply (by rw [htwo]; omega) safe
  intro twice htwice memory safe
  rw [htwo] at htwice
  rw [Program.wp_bind, wp_policy]
  apply wp_add (by omega) safe
  intro needed _ memory safe
  apply Program.Maintains.andThen (maintains_require steady (by decide)) safe
  intro _ w safe
  exact (maintains_makeTemporary steady root fun _ _ _ safe _ => safe).run w safe

/-- The contents do not end before they begin. -/
theorem safe_reportTitle {file : Bytes} {valid : Validated} (describes : Describes file valid)
    (tmd : TitleMetadata) : StaysInBounds (reportTitle valid tmd) where
  run w safe := by
    have hsections := describes.sections
    have hends : valid.sections.content.toNat ≤ valid.sections.ending.toNat := by
      rw [hsections.content, hsections.ending]
      exact (layout file).ordered.2.2
    rw [reportTitle, Program.wp_bind, wp_policy]
    apply wp_subtract hends safe
    intro _ _ _ safe
    rw [Program.wp_modify]
    exact safe

theorem safe_importStaged (root staging : Path Filename) (original : Stream) {size : UInt64}
    (hsize : 0x2020 ≤ size.toNat) :
    StaysInBounds (importStaged host root staging original size) := by
  have steady := @safe_steady host
  apply Program.Maintains.bind (maintains_copyInput safe_paced _ _ _ fun _ _ _ safe _ => safe)
  intro _
  apply Program.Maintains.bind (maintains_openStream steady _)
  intro stream
  refine ⟨fun w safe => ?_⟩
  rw [Program.wp_bind]
  apply wp_validate safe hsize _ fun _ _ _ safe => safe
  intro file _ _ valid describes w safe
  apply Program.Maintains.andThen (maintains_inspect steady _ _) safe
  intro tmd w safe
  apply Program.Maintains.andThen (safe_reportTitle describes tmd) safe
  intro _ w safe
  rw [Program.wp_bind, Program.wp_get, Program.wp_ensuring]
  simp only [restorePaths, memory_switchUserPath]
  apply Program.Maintains.andThen (safe_installStaged root staging stream size valid tmd) safe
  intro (stagedTitle, destination) w safe
  exact (safe_commit root stagedTitle destination).run w safe

theorem safe_install (rootArg pathArg : Option Text) :
    StaysInBounds (install host rootArg pathArg) where
  run w safe := by
    rw [install, Program.wp_bind]
    apply Program.wp_mono (wp_checkArguments rootArg pathArg safe) _ fun _ _ safe => safe
    intro (root, original, size) w ⟨safe, hleast, hmost⟩
    apply Program.Maintains.andThen (safe_makeStaging root hmost) safe
    intro staging w safe
    rw [Program.wp_ensuring]
    simp only [memory_removeTemporary]
    exact (safe_importStaged root staging original hleast).run w safe

end Run

/-! ## The result -/

/-- **Untrusted bytes.** In no run of the importer, whatever file it is given and whatever the
callback answers, is there an access outside a vector, a sum or a difference that wraps, a read
beyond the size of its file or a buffer of more than 1 MiB; and a file gets past the validation
only if it is of the supported format. -/
theorem install_in_bounds (host : Host) (rootArg pathArg : Option Text) (resultFits : Bool)
    (w : World) :
    (retroManicInstallUpdateCiaV1 host rootArg pathArg resultFits
      { w with memory := [] }).2.memory.Safe ∧
    ∀ stream (size : UInt64), 0x2020 ≤ size.toNat →
      (validate host stream size).Returns { w with memory := [] } →
        ∃ file, stream = some file ∧ Valid file host.hash size.toNat := by
  have safe : Memory.Safe [] := nofun
  constructor
  · unfold retroManicInstallUpdateCiaV1
    split
    · exact safe
    · have hrun := (@safe_install host rootArg pathArg).run
        { w with result := .initial, memory := [] } safe
      obtain ⟨hreturned, hstopped⟩ := Program.wp_iff_outcome.mp hrun
      dsimp only
      generalize (install host rootArg pathArg).outcome
        { w with result := .initial, memory := [] } = run at hreturned hstopped
      obtain ⟨stop | a, w'⟩ := run
      · exact hstopped stop w' rfl
      · exact hreturned a w' rfl
  · intro stream size hsize ⟨valid, t, hrun⟩
    have hvalid : (validate host stream size).wp
        (fun _ _ => ∃ file, stream = some file ∧ Valid file host.hash size.toNat)
        (fun _ _ => True) { w with memory := [] } :=
      wp_validate safe hsize (fun file hfile valid _ _ _ _ => ⟨file, hfile, valid⟩)
        fun _ _ _ _ => trivial
    exact (Program.wp_iff_outcome.mp hvalid).1 valid t hrun

end ManicRoom.Cia
