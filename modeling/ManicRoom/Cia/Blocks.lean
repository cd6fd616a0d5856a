/-
# The blocks of a file

The importer goes over files in blocks of 64 KiB in three places: it hashes a range, it copies
its input, and it hands the copy to the installer. In each of them the blocks make up the range:
the hash is that of its bytes, the copy consists of its bytes, and the installer is handed its
bytes in their order and with their offsets. Where the file is too short, they stop.
-/

import ManicRoom.Cia.Reading
import ManicRoom.Cia.Streams
import ManicRoom.Foundation.Operations

namespace ManicRoom.Cia

open ManicRoom.Foundation ManicRoom.Storage

/-- The bytes at some spans of a file. -/
def contents (stream : Stream) (spans : List Span) : List (ℕ × Bytes) :=
  spans.map fun s => (s.start, s.of (stream.getD []))

/-- The blocks that have been recorded for a use, in their order. -/
def recorded (use : BlockUse) (events : List Event) : List (ℕ × Bytes) :=
  (events.filterMap fun event => match event with
    | .block other offset bytes => if other = use then some (offset, bytes) else none
    | _ => none).reverse

/-- The blocks that the installer has been handed, in their order. -/
def fed (calls : List (InstallerCall × PathMap)) : List (ℕ × Bytes) :=
  (calls.filterMap fun call => match call.1 with
    | .write offset block => some (offset.toNat, block)
    | _ => none).reverse

section Histories

variable {use : BlockUse} {events : List Event}

@[simp]
theorem recorded_block (offset : ℕ) (bytes : Bytes) :
    recorded use (.block use offset bytes :: events) =
      recorded use events ++ [(offset, bytes)] := by
  simp [recorded]

/-- What the blocks of a range contain is what the range contains. -/
theorem flatMap_contents (data : Bytes) (start length : ℕ) :
    (contents (some data) (blocks 65536 start length)).flatMap Prod.snd =
      slice data start length := by
  rw [contents, List.flatMap_map]
  exact flatMap_blocks (by decide) data

/-- What has been done and what is left come to the same when a block is done. -/
theorem contents_cons {stream : Stream} {data : Bytes} (hstream : stream = some data) (s : Span)
    (left : List Span) :
    contents stream (s :: left) = (s.start, s.of data) :: contents stream left := by
  rw [hstream]
  rfl

end Histories

/-! ## Hashing -/

/-- What `Hash` comes to when nothing else goes wrong. -/
structure HashExact (host : Host) (stream : Stream) (use : BlockUse) (limit offset size : UInt64)
    (w : World) : Prop where
  /-- The hash of the bytes of the range, which have been taken block by block. -/
  inside : ∀ bytes, Covers stream offset.toNat size.toNat bytes → ∃ t,
    (hash host stream use limit offset size).outcome w = (.ok (host.hash.digest bytes), t) ∧
      recorded use t.events =
        recorded use w.events ++ contents stream (blocks 65536 offset.toNat size.toNat)
  /-- A range that is not in the file is refused. -/
  outside : (¬ ∃ bytes, Covers stream offset.toNat size.toNat bytes) → ∃ t,
    (hash host stream use limit offset size).outcome w = (.error (.failure .invalidFile), t)

/-- The blocks that are recorded and those that are left are those of the range. -/
theorem recorded_ongoing (host : Host) (limit : UInt64) (use : BlockUse) (stream : Stream)
    (all : List (ℕ × Bytes)) : Ongoing host limit fun left w =>
      recorded use w.events ++ contents stream left = all where
  poll h := h
  note _ h := h
  read h := by rwa [afterRead, pass_events]

theorem Covers.unique {stream : Stream} {offset size : ℕ} {bytes bytes' : Bytes}
    (h : Covers stream offset size bytes) (h' : Covers stream offset size bytes') :
    bytes = bytes' := by
  rcases h with ⟨h0, rfl⟩ | ⟨data, hstream, -, rfl⟩
  · rcases h' with ⟨-, rfl⟩ | ⟨data, -, -, rfl⟩
    · rfl
    · rw [h0, slice_zero]
  · rcases h' with ⟨h0, rfl⟩ | ⟨data', hstream', -, rfl⟩
    · rw [h0, slice_zero]
    · cases hstream.symm.trans hstream'
      rfl

/-- **`Hash` covers its range exactly.** -/
theorem hash_exact {host : Host} (undisturbed : host.Undisturbed) (stream : Stream) (use : BlockUse)
    (limit : UInt64) {offset size : UInt64} (hrange : offset.toNat + size.toNat < 2 ^ 63)
    (w : World) :
    HashExact host stream use limit offset size w := by
  have hwp : (hash host stream use limit offset size).wp
      (fun digest t => (∃ bytes, Covers stream offset.toNat size.toNat bytes ∧
        digest = host.hash.digest bytes) ∧ recorded use t.events ++ contents stream [] =
          recorded use w.events ++ contents stream (blocks 65536 offset.toNat size.toNat))
      (fun stop _ => stop = .failure .invalidFile ∧
        ¬ ∃ bytes, Covers stream offset.toNat size.toNat bytes) w := by
    rw [hash, Program.wp_map]
    apply wp_hashBlocks (recorded_ongoing host limit use stream _) (by omega)
    · intro span left t data hstream h
      rw [contents_cons hstream] at h
      rwa [recorded_block, List.append_assoc]
    · exact rfl
    · exact fun bytes hcovers t h => ⟨⟨bytes, hcovers, rfl⟩, h⟩
    · exact fun stop hstop _ _ _ => hstop undisturbed hrange.le
  obtain ⟨hdone, hstopped⟩ := Program.wp_iff_outcome.mp hwp
  cases houtcome : (hash host stream use limit offset size).outcome w with
  | mk result t =>
      cases result with
      | ok digest =>
          obtain ⟨⟨bytes, hcovers, rfl⟩, hrecorded⟩ := hdone digest t houtcome
          refine ⟨fun bytes' hcovers' => ⟨t, ?_, ?_⟩, fun hnone => absurd ⟨bytes, hcovers⟩ hnone⟩
          · rw [houtcome, hcovers.unique hcovers']
          · rwa [contents, List.map_nil, List.append_nil] at hrecorded
      | error stop =>
          obtain ⟨rfl, hnone⟩ := hstopped stop t houtcome
          exact ⟨fun bytes hcovers => absurd ⟨bytes, hcovers⟩ hnone, fun _ => ⟨t, houtcome⟩⟩

/-! ## Copying -/

/-- What the loop that copies the input comes to. -/
structure CopyExact (host : Host) (original : Stream) (size : UInt64) (source : Path Filename)
    (w : World) : Prop where
  /-- The copy consists of the first bytes of the original, taken block by block. -/
  returned : ∀ t, (copyInput host original size source).outcome w = (.ok (), t) →
    ∃ bytes, Covers original 0 size.toNat bytes ∧
      t.files.readFile host.here source = some bytes ∧
      recorded .copy t.events =
        recorded .copy w.events ++ contents original (blocks 65536 0 size.toNat)
  /-- Where it stops, it has taken the blocks up to there. -/
  stopped : ∀ stop t, (copyInput host original size source).outcome w = (.error stop, t) →
    recorded .copy t.events <+:
      recorded .copy w.events ++ contents original (blocks 65536 0 size.toNat)
  /-- When nothing else goes wrong, it stops where the original is too short and nowhere else. -/
  complete : host.Undisturbed → size.toNat < 2 ^ 63 → w.files.writeFile host.here source [] ≠ none →
    ((∃ bytes, Covers original 0 size.toNat bytes) ∧
        ∃ t, (copyInput host original size source).outcome w = (.ok (), t)) ∨
      (¬ ∃ bytes, Covers original 0 size.toNat bytes) ∧
        ∃ t, (copyInput host original size source).outcome w = (.error (.failure .invalidFile), t)

section Copy

variable {host : Host} {original : Stream} {size : UInt64} {source : Path Filename}

/-- The file has just been written. -/
def Written (host : Host) (source : Path Filename) (content : Bytes) (files : Files) : Prop :=
  ∃ before : Files, before.writeFile host.here source content = some files

/-- What is copied and what is left are the bytes of the original. -/
structure Copying (host : Host) (original : Stream) (size : UInt64) (source : Path Filename)
    (opened : Bool) (all : List (ℕ × Bytes)) (left : List Span) (w : World) : Prop where
  destination : w.destination = none
  recorded : recorded .copy w.events ++ contents original left = all
  written : opened = true → ∃ content, Written host source content w.files ∧
    content ++ (contents original left).flatMap Prod.snd = slice (original.getD []) 0 size.toNat

theorem copying_ongoing (opened : Bool) (all : List (ℕ × Bytes)) :
    Ongoing host size (Copying host original size source opened all) where
  poll h := ⟨h.destination, h.recorded, h.written⟩
  note _ h := ⟨h.destination, h.recorded, h.written⟩
  read h := by
    rw [afterRead, pass_of_destination_none _ _ (by exact h.destination)]
    exact ⟨h.destination, h.recorded, h.written⟩

/-- A block is appended to the copy. -/
theorem wp_writeCopy {opened : Bool} {all : List (ℕ × Bytes)} {span : Span} {left : List Span}
    {data : Bytes} {stopped : Stop → World → Prop} {w : World} (habsolute : source.absolute = true)
    (hstream : original = some data)
    (h : Copying host original size source opened all (span :: left) w)
    (hstopped : ∀ stop t, (host.Undisturbed → opened = false) →
      recorded .copy t.events ++ contents original left = all → stopped stop t) :
    (writeCopy host source opened (span.of data)).wp
      (fun _ t => Copying host original size source opened all left t) stopped
      { w with events := .block .copy span.start (span.of data) :: w.events } := by
  have hrecorded : recorded .copy (.block .copy span.start (span.of data) :: w.events) ++
      contents original left = all := by
    rw [recorded_block, List.append_assoc, ← h.recorded, contents_cons hstream]
    rfl
  rw [writeCopy, Program.wp_bind]
  apply wp_attempt_undisturbed
  · rw [pass_of_destination_none _ _ (by exact h.destination), Program.wp_bind, wp_require]
    constructor
    · intro hopened
      obtain ⟨content, ⟨before, hwritten⟩, hcontent⟩ := h.written hopened
      have hread : w.files.readFile host.here source = some content :=
        FileTree.readFile_of_writeFile habsolute hwritten
      obtain ⟨files, hfiles⟩ :=
        FileTree.exists_writeFile_of_writeFile habsolute hwritten (content ++ span.of data)
      simp only [Program.wp_bind, Program.wp_get, hread, Option.getD_some, hfiles, Program.wp_set]
      refine ⟨h.destination, hrecorded, fun _ => ⟨_, ⟨_, hfiles⟩, ?_⟩⟩
      rw [← hcontent, contents_cons hstream, List.flatMap_cons, List.append_assoc]
    · intro hclosed
      exact hstopped _ _ (fun _ => Bool.eq_false_iff.mpr hclosed) hrecorded
  · intro stop disturbed
    apply hstopped stop _ (fun undisturbed => absurd undisturbed disturbed)
    rwa [pass_events]

theorem wp_openCopy {done : Bool → World → Prop} {stopped : Stop → World → Prop} {w : World}
    (hdestination : w.destination = none)
    (hopened : ∀ files, w.files.writeFile host.here source [] = some files →
      done true { w with files, clock := w.clock + 1 })
    (hclosed : ¬ (host.Undisturbed ∧ w.files.writeFile host.here source [] ≠ none) →
      done false { w with clock := w.clock + 1 }) :
    (openCopy host source).wp done stopped w := by
  simp only [openCopy, Program.wp_bind, Program.wp_get, Program.wp_modify, Program.wp_ite,
    Program.wp_pure, pass_of_destination_none host w hdestination]
  refine ⟨fun _ => ?_, fun hfault => hclosed fun h => hfault (h.1.fault w.clock)⟩
  cases hfiles : w.files.writeFile host.here source [] with
  | none => exact (Program.wp_pure false).mpr (hclosed fun h => h.2 hfiles)
  | some files =>
      simp only [Program.wp_bind, Program.wp_set, Program.wp_pure]
      exact hopened files hfiles

theorem Covers.eq_slice {stream : Stream} {offset size : ℕ} {bytes : Bytes}
    (h : Covers stream offset size bytes) : bytes = slice (stream.getD []) offset size := by
  rcases h with ⟨rfl, rfl⟩ | ⟨data, rfl, -, rfl⟩
  · rfl
  · rfl

theorem flatMap_contents_blocks (stream : Stream) (start length : ℕ) :
    (contents stream (blocks 65536 start length)).flatMap Prod.snd =
      slice (stream.getD []) start length :=
  flatMap_contents (stream.getD []) start length

/-- The copy has stopped, with the blocks up to there. -/
def CopyStopped (host : Host) (original : Stream) (size : UInt64) (opened : Prop)
    (all : List (ℕ × Bytes)) (stop : Stop) (t : World) : Prop :=
  (host.Undisturbed → size.toNat < 2 ^ 63 → opened →
    stop = .failure .invalidFile ∧ ¬ ∃ bytes, Covers original 0 size.toNat bytes) ∧
    recorded .copy t.events <+: all

/-- The copy consists of the first bytes of the original. -/
def Copied (host : Host) (original : Stream) (size : UInt64) (source : Path Filename)
    (all : List (ℕ × Bytes)) (t : World) : Prop :=
  ∃ bytes, Covers original 0 size.toNat bytes ∧ t.files.readFile host.here source = some bytes ∧
    recorded .copy t.events = all

/-- The loop, after the copy has been opened or not. -/
theorem wp_copyBlocks {opened : Bool} {all : List (ℕ × Bytes)} {w : World}
    (habsolute : source.absolute = true)
    (h : Copying host original size source opened all (blocks 65536 0 size.toNat) w) :
    (do
      forBlocks host original .copy size (fun _ b => writeCopy host source opened b) 0
      attempt host (.failure .installFailed)
      require opened .installFailed : Import Unit).wp
      (fun _ t => Copied host original size source all t)
      (CopyStopped host original size (opened = true) all) w := by
  rw [Program.wp_bind]
  refine Program.wp_mono (@wp_forBlocks host (CopyStopped host original size (opened = true) all)
    w _ size (copying_ongoing opened all) original .copy 0 _ ?_ ?_ h) ?_ fun _ _ h => h
  · intro offset n left t data hreadable ht
    apply wp_writeCopy habsolute hreadable.1 ht
    intro stop t hclosed hrecorded
    refine ⟨fun undisturbed _ hopened => ?_, ⟨_, hrecorded⟩⟩
    exact nomatch hopened.symm.trans (hclosed undisturbed)
  · exact fun stop hstop left t ht =>
      ⟨fun undisturbed hsize _ => hstop undisturbed hsize.le, ⟨_, ht.recorded⟩⟩
  · intro _ t ⟨ht, bytes, hcovers⟩
    have hdone : recorded .copy t.events = all := by simpa [contents] using ht.recorded
    rw [Program.wp_bind]
    apply wp_attempt_undisturbed
    · rw [pass_of_destination_none _ _ ht.destination, wp_require]
      constructor
      · intro hopened
        obtain ⟨content, ⟨before, hwritten⟩, hcontent⟩ := ht.written hopened
        have hbytes : content = bytes := by
          rw [hcovers.eq_slice]
          simpa [contents] using hcontent
        rw [← hbytes] at hcovers
        exact ⟨content, hcovers, FileTree.readFile_of_writeFile habsolute hwritten, hdone⟩
      · exact fun hclosed => ⟨fun _ _ hopened => absurd hopened hclosed, ⟨[], by simp [hdone]⟩⟩
    · intro stop disturbed
      have hprefix : recorded .copy t.events <+: all := hdone ▸ List.prefix_refl all
      exact ⟨fun undisturbed => absurd undisturbed disturbed, by rwa [pass_events]⟩

theorem wp_copyInput (original : Stream) (size : UInt64) (habsolute : source.absolute = true)
    {w : World} (hdestination : w.destination = none) {all : List (ℕ × Bytes)}
    (hall : recorded .copy w.events ++ contents original (blocks 65536 0 size.toNat) = all) :
    (copyInput host original size source).wp (fun _ t => Copied host original size source all t)
      (CopyStopped host original size (w.files.writeFile host.here source [] ≠ none) all) w := by
  rw [copyInput, Program.wp_bind]
  apply wp_openCopy hdestination
  · intro files hfiles
    have hstart := flatMap_contents_blocks original 0 size.toNat
    have copying : Copying host original size source true all (blocks 65536 0 size.toNat)
        { w with files, clock := w.clock + 1 } :=
      ⟨hdestination, hall, fun _ => ⟨[], ⟨_, hfiles⟩, by rwa [List.nil_append]⟩⟩
    apply Program.wp_mono (wp_copyBlocks habsolute copying) (fun _ _ h => h)
    exact fun _ _ h => ⟨fun undisturbed hsize _ => h.1 undisturbed hsize rfl, h.2⟩
  · intro hclosed
    have copying : Copying host original size source false all (blocks 65536 0 size.toNat)
        { w with clock := w.clock + 1 } := ⟨hdestination, hall, nofun⟩
    apply Program.wp_mono (wp_copyBlocks habsolute copying) (fun _ _ h => h)
    exact fun _ _ h => ⟨fun undisturbed _ hwritable => absurd ⟨undisturbed, hwritable⟩ hclosed, h.2⟩

/-- **The copy is exact.** -/
theorem copy_exact (original : Stream) (size : UInt64) (habsolute : source.absolute = true)
    {w : World} (hdestination : w.destination = none) :
    CopyExact host original size source w := by
  obtain ⟨hdone, hstopped⟩ :=
    Program.wp_iff_outcome.mp
      (@wp_copyInput host source original size habsolute w hdestination _ rfl)
  refine ⟨fun t ht => hdone () t ht, fun stop t ht => (hstopped stop t ht).2,
    fun undisturbed hsize hwritable => ?_⟩
  cases houtcome : (copyInput host original size source).outcome w with
  | mk result t =>
      cases result with
      | ok =>
          obtain ⟨bytes, hcovers, -⟩ := hdone () t houtcome
          exact .inl ⟨⟨bytes, hcovers⟩, t, rfl⟩
      | error stop =>
          obtain ⟨rfl, hshort⟩ := (hstopped stop t houtcome).1 undisturbed hsize hwritable
          exact .inr ⟨hshort, t, rfl⟩

end Copy

/-! ## Installing -/

/-- The installer takes every block, and has nothing to complain of in the end. -/
structure Host.Accepting (host : Host) : Prop where
  returns : ∀ calls paths files, (host.installer calls paths files).2.throws = false
  written : ∀ offset block calls paths files,
    (host.installer (.write offset block :: calls) paths files).2.written =
      some (UInt64.ofNat block.length)
  results : ∀ calls paths files, (host.installer (.close :: calls) paths files).2.results.all id

/-- What the loop of the installer comes to. -/
structure InstallExact (host : Host) (stream : Stream) (size : UInt64) (w : World) : Prop where
  /-- The installer has been handed the file, block by block. -/
  returned : ∀ t, (runInstaller host stream size).outcome w = (.ok (), t) →
    (∃ bytes, Covers stream 0 size.toNat bytes) ∧
      fed t.installer = fed w.installer ++ contents stream (blocks 65536 0 size.toNat)
  /-- Where it stops, the installer has been handed the blocks up to there. -/
  stopped : ∀ stop t, (runInstaller host stream size).outcome w = (.error stop, t) →
    fed t.installer <+: fed w.installer ++ contents stream (blocks 65536 0 size.toNat)
  /-- When nothing else goes wrong, it stops where the file is too short and nowhere else. -/
  complete : host.Undisturbed → host.Accepting → size.toNat < 2 ^ 63 →
    ((∃ bytes, Covers stream 0 size.toNat bytes) ∧
        ∃ t, (runInstaller host stream size).outcome w = (.ok (), t)) ∨
      (¬ ∃ bytes, Covers stream 0 size.toNat bytes) ∧
        ∃ t, (runInstaller host stream size).outcome w = (.error (.failure .invalidFile), t)

section Install

variable {host : Host} {stream : Stream} {size : UInt64}

theorem fed_callInstaller (call : InstallerCall) (w : World) :
    fed (callInstaller host call w).1.installer =
      fed w.installer ++ fed [(call, w.storage.paths)] := by
  rw [callInstaller, pass_installer, pass_storage]
  cases call <;> simp [fed]

/-- What the installer has been handed and what is left are the blocks of the file. -/
theorem fed_ongoing (host : Host) (limit : UInt64) (stream : Stream) (all : List (ℕ × Bytes)) :
    Ongoing host limit fun left w => fed w.installer ++ contents stream left = all where
  poll h := h
  note _ h := h
  read h := by rwa [afterRead, pass_installer]

/-- The installer has been handed some of the blocks when the importer stops. -/
def InstallStopped (host : Host) (stream : Stream) (size : UInt64) (all : List (ℕ × Bytes))
    (stop : Stop) (t : World) : Prop :=
  (host.Undisturbed → host.Accepting → size.toNat < 2 ^ 63 →
    stop = .failure .invalidFile ∧ ¬ ∃ bytes, Covers stream 0 size.toNat bytes) ∧
    fed t.installer <+: all

theorem wp_useInstaller {call : InstallerCall} {done : InstallerReply → World → Prop}
    {stopped : Stop → World → Prop} {w : World}
    (hreturned : done (callInstaller host call w).2 (callInstaller host call w).1)
    (hstopped : ¬ host.Accepting → stopped .exception (callInstaller host call w).1) :
    (useInstaller host call).wp done stopped w := by
  simp only [useInstaller, Program.wp_bind, Program.wp_get, Program.wp_set, Program.wp_ite,
    Program.wp_throw, Program.wp_pure]
  refine ⟨fun hthrows => hstopped fun accepting => ?_, fun _ => hreturned⟩
  exact absurd (hthrows.symm.trans (accepting.returns ..)) (by simp)

/-- A call that hands over nothing changes nothing about what has been handed over. -/
theorem fed_eq_of_call (call : InstallerCall) (hcall : ∀ offset block, call ≠ .write offset block)
    (w : World) : fed (callInstaller host call w).1.installer = fed w.installer := by
  rw [fed_callInstaller]
  cases call with
  | write offset block => exact absurd rfl (hcall offset block)
  | create media => exact List.append_nil _
  | close => exact List.append_nil _
  | destroy => exact List.append_nil _

/-- The installer is destroyed as well where the importer stops. -/
theorem InstallStopped.destroyed {all : List (ℕ × Bytes)} {stop : Stop} {t : World}
    (h : InstallStopped host stream size all stop t) :
    InstallStopped host stream size all stop (callInstaller host .destroy t).1 :=
  ⟨h.1, by rw [fed_eq_of_call .destroy nofun]; exact h.2⟩

/-- A block is handed over. -/
theorem wp_writeBlock {offset n : UInt64} {left : List Span} {data : Bytes}
    {all : List (ℕ × Bytes)} {w : World} (hstream : stream = some data)
    (h : fed w.installer ++ contents stream (⟨offset.toNat, n.toNat⟩ :: left) = all) :
    (do
      let reply ← useInstaller host (.write offset (slice data offset.toNat n.toNat))
      require (reply.written = some (UInt64.ofNat (slice data offset.toNat n.toNat).length))
        .installFailed : Import Unit).wp
      (fun _ t => fed t.installer ++ contents stream left = all)
      (InstallStopped host stream size all) w := by
  have hfed :
      fed (callInstaller host (.write offset (slice data offset.toNat n.toNat)) w).1.installer ++
        contents stream left = all := by
    rw [fed_callInstaller, List.append_assoc, ← h, contents_cons hstream]
    rfl
  have hstop (stop : Stop) (rejected : ¬ host.Accepting) : InstallStopped host stream size all stop
      (callInstaller host (.write offset (slice data offset.toNat n.toNat)) w).1 :=
    ⟨fun _ accepting => absurd accepting rejected, ⟨_, hfed⟩⟩
  rw [Program.wp_bind]
  apply wp_useInstaller
  · rw [wp_require]
    refine ⟨fun _ => hfed, fun hshort => hstop _ fun accepting => hshort ?_⟩
    exact accepting.written ..
  · exact hstop .exception

/-- **The installer is handed the file**, block by block. -/
theorem wp_runInstaller (stream : Stream) (size : UInt64) {w : World} {all : List (ℕ × Bytes)}
    (hall : fed w.installer ++ contents stream (blocks 65536 0 size.toNat) = all) :
    (runInstaller host stream size).wp
      (fun _ t => (∃ bytes, Covers stream 0 size.toNat bytes) ∧ fed t.installer = all)
      (InstallStopped host stream size all) w := by
  have rejects {stop : Stop} {t : World} (hfed : fed t.installer <+: all)
      (rejected : ¬ host.Accepting) : InstallStopped host stream size all stop t :=
    ⟨fun _ accepting => absurd accepting rejected, hfed⟩
  rw [runInstaller, Program.wp_bind]
  apply wp_useInstaller
  · rw [Program.wp_ensuring, Program.wp_bind]
    refine Program.wp_mono (@wp_forBlocks host
      (fun stop t => InstallStopped host stream size all stop (callInstaller host .destroy t).1) _ _
      size (fed_ongoing host size stream all) stream .install 0 _ ?_ ?_ ?_) ?_ fun _ _ h => h
    · intro offset n left t data hreadable ht
      apply Program.wp_mono (wp_writeBlock hreadable.1 (by exact ht)) fun _ _ h => h
      exact fun _ _ h => h.destroyed
    · intro stop hstop left t ht
      have stopped : InstallStopped host stream size all stop t :=
        ⟨fun undisturbed _ hsize => hstop undisturbed hsize.le, ⟨_, ht⟩⟩
      exact stopped.destroyed
    · rw [fed_eq_of_call (.create .sdmc) nofun]
      exact hall
    · intro _ t ⟨ht, hcovers⟩
      have hdone : fed t.installer = all := by simpa [contents] using ht
      have hclose : fed (callInstaller host .close t).1.installer = all := by
        rw [fed_eq_of_call .close nofun, hdone]
      rw [Program.wp_bind]
      apply wp_useInstaller
      · rw [wp_require]
        refine ⟨fun _ => ⟨hcovers, ?_⟩, fun hresults => ?_⟩
        · rw [fed_eq_of_call .destroy nofun, hclose]
        · have rejected : ¬ host.Accepting := fun accepting => hresults (accepting.results ..)
          exact (rejects (hclose ▸ List.prefix_refl all) rejected).destroyed
      · exact fun rejected => (rejects (hclose ▸ List.prefix_refl all) rejected).destroyed
  · apply rejects
    rw [fed_eq_of_call (.create .sdmc) nofun]
    exact ⟨_, hall⟩

/-- **The installer is handed the file exactly.** -/
theorem install_exact (host : Host) (stream : Stream) (size : UInt64) (w : World) :
    InstallExact host stream size w := by
  obtain ⟨hdone, hstopped⟩ :=
    Program.wp_iff_outcome.mp (@wp_runInstaller host stream size w _ rfl)
  refine ⟨fun t ht => hdone () t ht, fun stop t ht => (hstopped stop t ht).2,
    fun undisturbed accepting hsize => ?_⟩
  cases houtcome : (runInstaller host stream size).outcome w with
  | mk result t =>
      cases result with
      | ok => exact .inl ⟨(hdone () t houtcome).1, t, rfl⟩
      | error stop =>
          obtain ⟨rfl, hshort⟩ := (hstopped stop t houtcome).1 undisturbed accepting hsize
          exact .inr ⟨hshort, t, rfl⟩

end Install

/-! ## All the loops -/

/-- **Files are gone over exactly.** The blocks of a range partition it, and what they contain is
what the range contains. `Hash` hashes just these bytes, the copy consists of just these bytes, and
the installer is handed just these bytes. What an earlier read has done to a stream does not
matter to a later one, so that the bytes are those of the file. -/
theorem blockwise_reading (host : Host) :
    (∀ start length, Partition 65536 start length (blocks 65536 start length)) ∧
      (∀ data start length, (contents (some data) (blocks 65536 start length)).flatMap Prod.snd =
        slice data start length) ∧
      (host.Undisturbed → ∀ stream use limit (offset size : UInt64) w,
        offset.toNat + size.toNat < 2 ^ 63 → HashExact host stream use limit offset size w) ∧
      (∀ original size (source : Path Filename) w, source.absolute = true → w.destination = none →
        CopyExact host original size source w) ∧
      (∀ stream size w, InstallExact host stream size w) ∧
      ∀ (s : InputStream) (offset size : UInt64), size.toNat < 2 ^ 63 →
        (∀ requests,
          ((s.after requests).readBlock offset size).1 = (s.readBlock offset size).1) ∧
        ∀ limit w, host.fault w.clock = none →
          (read host s.file offset size limit).outcome w =
            ((s.readBlock offset size).1.elim (.error (.failure .invalidFile)) .ok,
              afterRead host offset size limit w) :=
  ⟨partition_blocks (by decide), flatMap_contents,
    fun undisturbed stream use limit _ _ w hrange =>
      hash_exact undisturbed stream use limit hrange w,
    fun original size _ _ habsolute hdestination => copy_exact original size habsolute hdestination,
    install_exact host, fun s _ _ hsize => ⟨fun requests => s.readBlock_after requests hsize,
      fun limit _ hfault => s.outcome_read host limit hsize hfault⟩⟩

/-- A hash that adds up the bytes. -/
def checksum : StreamingHash where
  State := UInt8
  initial := 0
  update state bytes := bytes.foldl (· + ·) state
  final state := List.replicate 32 state
  update_nil _ := rfl
  update_append _ _ _ := (List.foldl_append ..).symm
  length_final := by simp

/-- A host with this hash, whose user does not cancel. -/
def checkingHost : Host := { (default : Host) with hash := checksum, cancel := some fun _ => false }

theorem checkingHost_undisturbed : checkingHost.Undisturbed where
  fault _ := rfl
  cancel answers h poll := by
    cases h
    rfl

theorem Span.of_replicate (s : Span) (count : ℕ) (byte : UInt8) :
    s.of (List.replicate count byte) = List.replicate (min s.length (count - s.start)) byte := by
  rw [Span.of, List.drop_replicate, List.take_replicate]

/-- A range of two blocks that is in a file, and one that is not. -/
theorem blockwise_reading_sample :
    let file : Bytes := List.replicate 70000 7
    (∃ t, (hash checkingHost (some file) .hash 70000 1 66000).outcome default =
        (.ok (checksum.digest (List.replicate 66000 7)), t) ∧
      recorded .hash t.events =
        [(1, List.replicate 65536 7), (65537, List.replicate 464 7)]) ∧
      ∃ t, (hash checkingHost (some file) .hash 70000 1 70000).outcome default =
        (.error (.failure .invalidFile), t) := by
  intro file
  obtain ⟨-, -, hhash, -⟩ := blockwise_reading checkingHost
  have hinside := hhash checkingHost_undisturbed (some file) .hash 70000 1 66000 default (by decide)
  have houtside :=
    hhash checkingHost_undisturbed (some file) .hash 70000 1 70000 default (by decide)
  have hlength : file.length = 70000 := List.length_replicate
  constructor
  · have hbytes : Covers (some file) 1 66000 (List.replicate 66000 7) :=
      .inr ⟨file, rfl, by omega, (Span.of_replicate ⟨1, 66000⟩ 70000 7).symm⟩
    obtain ⟨t, ht, hevents⟩ := hinside.inside _ hbytes
    have hblocks : blocks 65536 1 66000 = [⟨1, 65536⟩, ⟨65537, 464⟩] := by decide
    refine ⟨t, ht, hevents.trans ?_⟩
    show [] ++ contents (some file) (blocks 65536 1 66000) = _
    rw [hblocks]
    show [(1, Span.of ⟨1, 65536⟩ file), (65537, Span.of ⟨65537, 464⟩ file)] = _
    rw [Span.of_replicate, Span.of_replicate]
    dsimp only
    rw [show min 65536 (70000 - 1) = 65536 by decide, show min 464 (70000 - 65537) = 464 by decide]
  · apply houtside.outside
    rintro ⟨bytes, ⟨h, -⟩ | ⟨data, hdata, hrange, -⟩⟩
    · exact absurd h (by decide)
    · cases hdata
      have hrange : 1 + 70000 ≤ file.length := hrange
      omega

end ManicRoom.Cia
