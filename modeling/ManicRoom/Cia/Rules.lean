/-
# Rules for the operations of the importer

What a moment that passes preserves, every operation preserves that only looks at the files,
whether it returns or stops. The operations that change something have rules that ask for
their change to be preserved. No operation but `Cancel::Check` stops with a cancellation.
-/

import ManicRoom.Cia.Install

namespace ManicRoom.Cia

open ManicRoom.Foundation ManicRoom.Storage

/-- It is neither a cancellation nor a success. -/
def Status.Ordinary (status : Status) : Prop := status ≠ .cancelled ∧ status ≠ .success

instance (status : Status) : Decidable status.Ordinary := inferInstanceAs (Decidable (_ ∧ _))

def Stop.Ordinary (stop : Stop) : Prop := stop.status.Ordinary

theorem ordinary_exception : Stop.Ordinary .exception := by
  unfold Stop.Ordinary Stop.status
  decide

theorem ordinary_failure {status : Status} (h : status.Ordinary) :
    Stop.Ordinary (.failure status) := h

/-! ## A moment that passes -/

section Pass

variable (host : Host) (w : World)

/-- At most the files change, and what is known of another process. -/
theorem pass_eq : pass host w = { w with
    files := (intruded host w).files
    intruded := (intruded host w).intruded
    clock := w.clock + 1 } := by
  unfold pass intruded
  split
  · split
    · split <;> rfl
    · rfl
  · rfl

@[simp]
theorem pass_storage : (pass host w).storage = w.storage := by rw [pass_eq]

@[simp]
theorem pass_compressCiaInstalls :
    (pass host w).compressCiaInstalls = w.compressCiaInstalls := by rw [pass_eq]

@[simp]
theorem pass_result : (pass host w).result = w.result := by rw [pass_eq]

@[simp]
theorem pass_events : (pass host w).events = w.events := by rw [pass_eq]

@[simp]
theorem pass_memory : (pass host w).memory = w.memory := by rw [pass_eq]

@[simp]
theorem pass_installer : (pass host w).installer = w.installer := by rw [pass_eq]

@[simp]
theorem pass_stranded : (pass host w).stranded = w.stranded := by rw [pass_eq]

/-- As long as no destination is known, no other process acts. -/
theorem pass_of_destination_none (h : w.destination = none) :
    pass host w = { w with clock := w.clock + 1 } := by
  have hintruded : intruded host w = w := by
    unfold intruded
    rw [h]
    split <;> first | rfl | contradiction
  rw [pass, hintruded]

end Pass

@[simp]
theorem wp_policy {α : Type} {done : α → World → Prop} {stopped : Stop → World → Prop} {w : World}
    (p : Program Stop Memory α) :
    (policy p).wp done stopped w ↔
      p.wp (fun a memory => done a { w with memory }) (fun e memory => stopped e { w with memory })
        w.memory := by
  rw [policy, Program.wp_zoom]

/-- What an attempt comes to. -/
theorem wp_attempt {host : Host} {failure : Stop} {done : Unit → World → Prop}
    {stopped : Stop → World → Prop} {w : World} (hreturned : done () (pass host w))
    (hfailed : stopped failure (pass host w)) (hthrown : stopped .exception (pass host w)) :
    (attempt host failure).wp done stopped w := by
  simp only [attempt, Program.wp_bind, Program.wp_get, Program.wp_modify]
  split
  · exact (Program.wp_pure ()).mpr hreturned
  · exact (Program.wp_throw failure).mpr hfailed
  · exact (Program.wp_throw Stop.exception).mpr hthrown

/-- What a poll comes to. -/
theorem wp_check {host : Host} {done : Unit → World → Prop} {stopped : Stop → World → Prop}
    {w : World} (hnone : host.cancel = none → done () w)
    (hgoing : ∀ answers, host.cancel = some answers →
      done () { w with events := .poll false :: w.events })
    (hcancelled : ∀ answers, host.cancel = some answers → answers (polls w.events) = true →
      stopped (.failure .cancelled) { w with events := .poll true :: w.events }) :
    (check host).wp done stopped w := by
  unfold check
  cases hcancel : host.cancel with
  | none => exact (Program.wp_pure ()).mpr (hnone hcancel)
  | some answers =>
      simp only [record, Program.wp_bind, Program.wp_get, Program.wp_modify, Program.wp_ite,
        Program.wp_throw, Program.wp_pure]
      refine ⟨fun hanswer => ?_, fun hanswer => ?_⟩
      · rw [hanswer]
        exact hcancelled answers hcancel hanswer
      · rw [Bool.eq_false_iff.mpr hanswer]
        exact hgoing answers hcancel

/-- What `Read` asks of the stream. -/
def Readable (stream : Stream) (offset size : UInt64) (data : Bytes) : Prop :=
  stream = some data ∧ offset.toNat < 2 ^ 63 ∧
    (size = 0 ∨ offset.toNat + size.toNat ≤ data.length)

/-- The state after a `Read`. -/
def afterRead (host : Host) (offset size limit : UInt64) (w : World) : World :=
  pass host { w with
    memory := .read offset.toNat size.toNat limit.toNat :: .allocate size.toNat :: w.memory }

/-- What a read comes to. -/
theorem wp_read {host : Host} {stream : Stream} {offset size limit : UInt64}
    {done : Bytes → World → Prop} {stopped : Stop → World → Prop} {w : World}
    (hreturned : ∀ data, Readable stream offset size data →
      done (slice data offset.toNat size.toNat) (afterRead host offset size limit w))
    (hstopped : ∀ stop, Stop.Ordinary stop →
      (host.fault w.clock = none →
        stop = .failure .invalidFile ∧ ¬ ∃ data, Readable stream offset size data) →
      stopped stop (afterRead host offset size limit w)) :
    (read host stream offset size limit).wp done stopped w := by
  simp only [read, note, attempt, Program.wp_bind, wp_policy, Program.wp_modify, Program.wp_get]
  cases hfault : host.fault w.clock with
  | some fault =>
      have hstop (stop : Stop) (h : stop.Ordinary) :
          stopped stop (afterRead host offset size limit w) :=
        hstopped stop h fun hnone => absurd (hfault.symm.trans hnone) (by simp)
      cases fault with
      | fails =>
          have hordinary : Stop.Ordinary (.failure .invalidFile) := ordinary_failure (by decide)
          exact (Program.wp_throw _).mpr (hstop _ hordinary)
      | throws => exact (Program.wp_throw _).mpr (hstop .exception ordinary_exception)
  | none =>
      cases stream with
      | none =>
          simp only [Program.wp_pure, Program.wp_throw]
          have hordinary : Stop.Ordinary (.failure .invalidFile) := ordinary_failure (by decide)
          refine hstopped _ hordinary fun _ => ⟨rfl, ?_⟩
          rintro ⟨data, hsome, -⟩
          cases hsome
      | some data =>
          simp only [Program.wp_pure, Program.wp_bind, wp_require]
          refine ⟨fun hrange => hreturned data ⟨rfl, hrange⟩, fun hrange => ?_⟩
          have hordinary : Stop.Ordinary (.failure .invalidFile) := ordinary_failure (by decide)
          refine hstopped _ hordinary fun _ => ⟨rfl, ?_⟩
          rintro ⟨_, heq, hreadable⟩
          cases heq
          exact hrange hreadable

/-- What making directories comes to. -/
theorem wp_createDirectories {host : Host} {path : Path Filename} {done : Unit → World → Prop}
    {stopped : Stop → World → Prop} {w : World}
    (h : ∀ limit made ok, (pass host w).files.createDirectories host.here path.absolute limit []
        path.parts = (made, ok) →
      stopped .exception { pass host w with files := made } ∧
        (ok = true → done () { pass host w with files := made })) :
    (createDirectories host path).wp done stopped w := by
  obtain ⟨hstopped, hdone⟩ :=
    h ((host.fault w.clock).map fun _ => host.progress w.clock) _ _ rfl
  simp only [createDirectories, Program.wp_bind, Program.wp_get, Program.wp_modify, Program.wp_set,
    Program.wp_ite, Program.wp_throw, Program.wp_pure]
  refine ⟨fun _ => hstopped, fun hfine => hdone ?_⟩
  exact Bool.eq_true_of_not_eq_false fun hfalse => hfine (.inr hfalse)

/-! ## Functions on bytes -/

/-- A function on bytes that stops with nothing but an ordinary failure. -/
def Calm {α : Type} (p : Program Stop Memory α) : Prop :=
  p.Maintains (fun _ => True) fun stop _ => stop.Ordinary

theorem calm_require {ok : Prop} [Decidable ok] {status : Status} (h : status.Ordinary) :
    Calm (require ok status) :=
  .ite (fun _ => .pure ()) fun _ => .throw fun _ _ => ordinary_failure h

section Arithmetic

variable {data : Bytes} {index p n : ℕ} {big : Bool} {left right : UInt64}

theorem calm_note {event : MemoryEvent} : Calm (note event) := .modify fun _ _ => trivial

theorem calm_access : Calm (access data index) := .bind calm_note fun _ => .pure _

theorem calm_add : Calm (add left right) := .bind calm_note fun _ => .pure _

theorem calm_multiply : Calm (multiply left right) := .bind calm_note fun _ => .pure _

theorem calm_subtract : Calm (subtract left right) := .bind calm_note fun _ => .pure _

theorem calm_align : Calm (align left) := .bind calm_add fun _ => .pure _

theorem calm_integer : Calm (integer data p n big) :=
  .foldlM fun _ _ _ => .bind calm_access fun _ => .pure _

end Arithmetic

theorem calm_header (h : Bytes) (fileSize : UInt64) : Calm (header h fileSize) := by
  apply Program.Maintains.bind (calm_require (by decide))
  intro _
  apply Program.Maintains.bind
    (.andM (.map _ calm_integer) (.andM (.map _ calm_integer) (.map _ calm_integer)))
  intro _
  apply Program.Maintains.bind (calm_require (by decide))
  intro _
  apply Program.Maintains.bind calm_integer
  intro cert
  apply Program.Maintains.bind calm_integer
  intro tik
  apply Program.Maintains.bind calm_integer
  intro tmd
  apply Program.Maintains.bind calm_integer
  intro «meta»
  apply Program.Maintains.bind calm_integer
  intro content
  apply Program.Maintains.bind (calm_require (by decide))
  intro _
  apply Program.Maintains.bind calm_add
  intro _
  apply Program.Maintains.bind calm_align
  intro ticketAt
  apply Program.Maintains.bind calm_add
  intro _
  apply Program.Maintains.bind calm_align
  intro tmdAt
  apply Program.Maintains.bind calm_add
  intro _
  apply Program.Maintains.bind calm_align
  intro contentAt
  apply Program.Maintains.bind calm_add
  intro ending
  apply Program.Maintains.bind
  · apply Program.Maintains.andM (.pure _)
    apply Program.Maintains.orM (.pure _)
    exact .bind calm_align fun _ => .bind calm_add fun _ => .pure _
  · intro fits
    exact .bind (calm_require (by decide)) fun _ => .pure _

theorem calm_signedBody (data : Bytes) : Calm (signedBody data) := by
  apply Program.Maintains.bind (calm_require (by decide))
  intro _
  apply Program.Maintains.bind calm_integer
  intro signature
  apply Program.Maintains.ite (fun _ => .pure _)
  intro _
  apply Program.Maintains.ite (fun _ => .pure _)
  intro _
  apply Program.Maintains.ite (fun _ => .pure _)
  intro _
  exact .throw fun _ _ => ordinary_failure (by decide)

theorem calm_titleFields (tmdBytes : Bytes) : Calm (titleFields tmdBytes) := by
  apply Program.Maintains.bind (calm_signedBody tmdBytes)
  intro body
  apply Program.Maintains.bind calm_add
  intro least
  apply Program.Maintains.bind (calm_require (by decide))
  intro _
  apply Program.Maintains.bind calm_integer
  intro count
  apply Program.Maintains.bind
  · apply Program.Maintains.andM (.pure _)
    exact .bind calm_add fun _ => .bind calm_multiply fun _ => .bind calm_add fun _ => .pure _
  · intro fits
    apply Program.Maintains.bind (calm_require (by decide))
    intro _
    apply Program.Maintains.bind calm_integer
    intro tid
    exact .bind (calm_require (by decide)) fun _ => .pure _

theorem calm_ticketFields (ticket : Bytes) (tid : UInt64) : Calm (ticketFields ticket tid) := by
  apply Program.Maintains.bind (calm_signedBody ticket)
  intro ticketBody
  apply Program.Maintains.bind calm_add
  intro _
  apply Program.Maintains.bind calm_add
  intro least
  apply Program.Maintains.bind (calm_require (by decide))
  intro _
  apply Program.Maintains.bind calm_integer
  intro ticketId
  apply Program.Maintains.bind (calm_require (by decide))
  intro _
  apply Program.Maintains.bind calm_integer
  intro indexSize
  apply Program.Maintains.bind
  · apply Program.Maintains.andM (.pure _)
    exact .bind calm_add fun _ => .bind calm_add fun _ => .pure _
  · intro fits
    exact calm_require (by decide)

theorem calm_recordFields (header tmdBytes : Bytes) (title : Title) (ending : UInt64) (i : ℕ)
    (progress : Progress) : Calm (recordFields header tmdBytes title ending i progress) := by
  apply Program.Maintains.bind calm_integer
  intro bytes
  apply Program.Maintains.bind
    (.andM (.map _ calm_integer) (.bind calm_access fun _ => .pure _))
  intro listed
  apply Program.Maintains.bind (calm_require (by decide))
  intro _
  apply Program.Maintains.bind calm_integer
  intro flags
  apply Program.Maintains.bind (calm_require (by decide))
  intro _
  apply Program.Maintains.bind calm_integer
  intro id
  apply Program.Maintains.bind (calm_require (by decide))
  intro _
  apply Program.Maintains.bind (.andM (.pure _) (.bind calm_subtract fun _ => .pure _))
  intro fits
  exact .bind (calm_require (by decide)) fun _ => .pure _

theorem calm_equal (hash data : Bytes) (p : ℕ) : Calm (equal hash data p) := by
  induction hash generalizing p with
  | nil => exact .pure true
  | cons first hash ih =>
      apply Program.Maintains.bind calm_access
      intro byte
      exact .ite (fun _ => ih (p + 1)) fun _ => .pure false

/-! ## Operations that look at the files -/

/-- What a moment that passes preserves, and what is allowed when an operation stops. -/
structure Steady (host : Host) (holds : World → Prop) (halted : Stop → World → Prop) : Prop where
  pass : ∀ w, holds w → holds (pass host w)
  /-- Asking for a user path. -/
  touch : ∀ w key, holds w →
    holds { w with storage := (Storage.getUserPath host.constants key host.around w.storage).1 }
  halt : ∀ stop w, Stop.Ordinary stop → holds w → halted stop w

/-- Two invariants at once. -/
theorem Steady.and {host : Host} {holds holds' : World → Prop}
    {halted halted' : Stop → World → Prop}
    (steady : Steady host holds halted) (steady' : Steady host holds' halted') :
    Steady host (fun w => holds w ∧ holds' w) fun stop w => halted stop w ∧ halted' stop w where
  pass w hw := ⟨steady.pass w hw.1, steady'.pass w hw.2⟩
  touch w key hw := ⟨steady.touch w key hw.1, steady'.touch w key hw.2⟩
  halt stop w hstop hw := ⟨steady.halt stop w hstop hw.1, steady'.halt stop w hstop hw.2⟩

section Looking

variable {host : Host} {holds : World → Prop} {halted : Stop → World → Prop}
  (steady : Steady host holds halted)

include steady

theorem maintains_require {ok : Prop} [Decidable ok] {status : Status}
    (h : status.Ordinary) : (require ok status).Maintains holds halted :=
  .ite (fun _ => .pure ()) fun _ => .throw fun w => steady.halt _ w (ordinary_failure h)

theorem maintains_attempt {failure : Stop} (h : failure.Ordinary) :
    (attempt host failure).Maintains holds halted where
  run w hw := by
    have hpass := steady.pass w hw
    exact wp_attempt hpass (steady.halt _ _ h hpass) (steady.halt _ _ ordinary_exception hpass)

theorem maintains_status (path : Path Filename) : (status host path).Maintains holds halted := by
  apply Program.Maintains.bind (maintains_attempt steady ordinary_exception)
  intro _
  apply Program.Maintains.get_bind
  intro w
  split
  · exact .pure _
  · exact .throw fun w => steady.halt _ w ordinary_exception

theorem maintains_symlinkStatus (path : Path Filename) :
    (symlinkStatus host path).Maintains holds halted := by
  apply Program.Maintains.bind (maintains_attempt steady ordinary_exception)
  intro _
  apply Program.Maintains.get_bind
  intro w
  split
  · exact .pure _
  · exact .throw fun w => steady.halt _ w ordinary_exception

theorem maintains_isRegularFile (path : Path Filename) :
    (isRegularFile host path).Maintains holds halted :=
  .bind (maintains_status steady path) fun _ => .pure _

theorem maintains_isSymlink (path : Path Filename) :
    (isSymlink host path).Maintains holds halted :=
  .bind (maintains_symlinkStatus steady path) fun _ => .pure _

theorem maintains_pathExists (path : Path Filename) :
    (pathExists host path).Maintains holds halted :=
  .bind (maintains_status steady path) fun _ => .pure _

theorem maintains_fileSize (path : Path Filename) :
    (fileSize host path).Maintains holds halted := by
  apply Program.Maintains.bind (maintains_status steady path)
  intro node
  split
  · exact .ite (fun _ => .pure _) fun _ => .throw fun w => steady.halt _ w ordinary_exception
  · exact .throw fun w => steady.halt _ w ordinary_exception

theorem maintains_weaklyCanonical (path : Path Filename) :
    (weaklyCanonical host path).Maintains holds halted := by
  apply Program.Maintains.bind (maintains_attempt steady ordinary_exception)
  intro _
  apply Program.Maintains.get_bind
  intro w
  split
  · exact .pure _
  · exact .throw fun w => steady.halt _ w ordinary_exception

theorem maintains_openStream (path : Path Filename) :
    (openStream host path).Maintains holds halted := by
  refine ⟨fun w hw => ?_⟩
  have hpass := steady.pass w hw
  simp only [openStream, Program.wp_bind, Program.wp_get, Program.wp_modify, Program.wp_ite,
    Program.wp_pure]
  exact ⟨fun _ => hpass, fun _ => hpass⟩

theorem maintains_noLinksFrom (p : Path Filename)
    (elements : List (Option (Foundation.Part Filename))) :
    (noLinksFrom host p elements).Maintains holds halted := by
  induction elements generalizing p with
  | nil => exact .pure ()
  | cons element elements ih =>
      apply Program.Maintains.bind (maintains_require steady (by decide))
      intro _
      apply Program.Maintains.bind (maintains_isSymlink steady _)
      intro link
      exact .bind (maintains_require steady (by decide)) fun _ => ih _

theorem maintains_noLinks (base relative : Path Filename) :
    (noLinks host base relative).Maintains holds halted :=
  .bind (maintains_require steady (by decide)) fun _ => maintains_noLinksFrom steady _ _

theorem maintains_root (requested documents : Path Filename) :
    (root host requested documents).Maintains holds halted := by
  apply Program.Maintains.bind (maintains_weaklyCanonical steady documents)
  intro _
  apply Program.Maintains.bind (maintains_weaklyCanonical steady documents)
  intro _
  apply Program.Maintains.bind (maintains_noLinks steady _ _)
  intro _
  apply Program.Maintains.bind
    (.andM (.pure _) (.bind (maintains_weaklyCanonical steady requested) fun _ => .pure _))
  intro same
  exact .bind (maintains_require steady (by decide)) fun _ => .pure _

theorem maintains_inspect (source : Path Filename) (title : Title) :
    (inspect host source title).Maintains holds halted := by
  apply Program.Maintains.bind (maintains_attempt steady (ordinary_failure (by decide)))
  intro _
  apply Program.Maintains.get_bind
  intro w
  apply Program.Maintains.bind (maintains_require steady (by decide))
  intro _
  apply Program.Maintains.bind (maintains_attempt steady (ordinary_failure (by decide)))
  intro _
  apply Program.Maintains.get_bind
  intro w
  split
  · exact .bind (maintains_require steady (by decide)) fun _ => .pure _
  · exact .throw fun w => steady.halt _ w (ordinary_failure (by decide))

theorem maintains_userPath (key : UserPath) : (userPath host key).Maintains holds halted := by
  refine ⟨fun w hw => ?_⟩
  simp only [userPath, Program.wp_bind, Program.wp_get, Program.wp_set, Program.wp_pure]
  exact steady.touch w key hw

theorem maintains_titleDirectory (tid : UInt64) :
    (titleDirectory host tid).Maintains holds halted := by
  apply Program.Maintains.bind (maintains_attempt steady ordinary_exception)
  intro _
  exact .bind (maintains_userPath steady _) fun _ => .pure _

theorem maintains_verifyMetadata (title : Title) (tmd : TitleMetadata) :
    (verifyMetadata host title tmd).Maintains holds halted := by
  apply Program.Maintains.bind (maintains_attempt steady (ordinary_failure (by decide)))
  intro _
  apply Program.Maintains.bind (maintains_userPath steady _)
  intro sdmc
  apply Program.Maintains.get_bind
  intro w
  dsimp only
  split
  · exact maintains_require steady (by decide)
  · exact .throw fun w => steady.halt _ w (ordinary_failure (by decide))

end Looking

/-! ## Operations that change something -/

section Changing

variable {host : Host} {holds : World → Prop} {halted : Stop → World → Prop}
  (steady : Steady host holds halted)

include steady

theorem maintains_createDirectories (path : Path Filename)
    (hmade : ∀ w limit, holds w → holds { w with
      files := (w.files.createDirectories host.here path.absolute limit [] path.parts).1 }) :
    (createDirectories host path).Maintains holds halted := by
  refine ⟨fun w hw => wp_createDirectories fun limit made ok hmake => ?_⟩
  have hdone := hmade _ limit (steady.pass w hw)
  rw [hmake] at hdone
  exact ⟨steady.halt _ _ ordinary_exception hdone, fun _ => hdone⟩

theorem maintains_createDirectory (path : Path Filename)
    (hmade : ∀ w files, holds w → w.files.mkdir host.here path = some files →
      holds { w with files }) :
    (createDirectory host path).Maintains holds halted := by
  apply Program.Maintains.bind (maintains_attempt steady ordinary_exception)
  intro _
  refine ⟨fun w hw => ?_⟩
  simp only [Program.wp_bind, Program.wp_get]
  split
  · next files hfiles =>
    rw [Program.wp_set]
    exact hmade w files hw hfiles
  · split
    · exact (Program.Maintains.pure ()).run w hw
    · rw [Program.wp_throw]
      exact steady.halt _ _ ordinary_exception hw

theorem maintains_makeTemporary (directory : Path Filename)
    (hmade : ∀ w path files, holds w → w.files.mkdir host.here path = some files →
      holds { w with files }) :
    (makeTemporary host directory).Maintains holds halted := by
  apply Program.Maintains.get_bind
  intro w
  apply Program.Maintains.bind (maintains_attempt steady (ordinary_failure (by decide)))
  intro _
  split
  · refine ⟨fun w hw => ?_⟩
    simp only [Program.wp_bind, Program.wp_get]
    split
    · next files hfiles =>
      simp only [Program.wp_bind, Program.wp_set, Program.wp_pure]
      exact hmade w _ files hw hfiles
    · rw [Program.wp_throw]
      exact steady.halt _ _ (ordinary_failure (by decide)) hw
  · exact .throw fun w => steady.halt _ w (ordinary_failure (by decide))

theorem maintains_openCopy (source : Path Filename)
    (hwrite : ∀ w files content, holds w →
      w.files.writeFile host.here source content = some files → holds { w with files }) :
    (openCopy host source).Maintains holds halted := by
  refine ⟨fun w hw => ?_⟩
  have hpass := steady.pass w hw
  simp only [openCopy, Program.wp_bind, Program.wp_get, Program.wp_modify, Program.wp_ite,
    Program.wp_pure]
  refine ⟨fun _ => ?_, fun _ => hpass⟩
  split
  · next files hfiles =>
    simp only [Program.wp_bind, Program.wp_set, Program.wp_pure]
    exact hwrite _ files _ hpass hfiles
  · rw [Program.wp_pure]
    exact hpass

theorem maintains_writeCopy (source : Path Filename) (opened : Bool) (b : Bytes)
    (hwrite : ∀ w files content, holds w →
      w.files.writeFile host.here source content = some files → holds { w with files }) :
    (writeCopy host source opened b).Maintains holds halted := by
  apply Program.Maintains.bind (maintains_attempt steady (ordinary_failure (by decide)))
  intro _
  apply Program.Maintains.bind (maintains_require steady (by decide))
  intro _
  refine ⟨fun w hw => ?_⟩
  simp only [Program.wp_bind, Program.wp_get]
  split
  · next files hfiles =>
    rw [Program.wp_set]
    exact hwrite w files _ hw hfiles
  · rw [Program.wp_throw]
    exact steady.halt _ _ (ordinary_failure (by decide)) hw

theorem maintains_requireUserPath (text : Text)
    (hswitch : ∀ w, holds w → holds (switchUserPath host text w)) :
    (requireUserPath host text).Maintains holds halted := by
  apply Program.Maintains.bind (.modify hswitch)
  intro _
  exact .bind (maintains_userPath steady _) fun _ => maintains_require steady (by decide)

theorem maintains_useInstaller (call : InstallerCall)
    (hcall : ∀ w, holds w → holds (callInstaller host call w).1) :
    (useInstaller host call).Maintains holds halted := by
  refine ⟨fun w hw => ?_⟩
  simp only [useInstaller, Program.wp_bind, Program.wp_get, Program.wp_set, Program.wp_ite,
    Program.wp_throw, Program.wp_pure]
  exact ⟨fun _ => steady.halt _ _ ordinary_exception (hcall w hw), fun _ => hcall w hw⟩

theorem maintains_renameExclusive (source target : Path Filename)
    (hcommit : ∀ w, holds w → holds { w with events := .commit :: w.events })
    (hrename : ∀ w files, holds w →
      w.files.renameExclusive host.here source target = some files → holds { w with files }) :
    (renameExclusive host source target).Maintains holds halted := by
  refine ⟨fun w hw => ?_⟩
  have hdone := hcommit _ (steady.pass w hw)
  simp only [renameExclusive, record, Program.wp_bind, Program.wp_get, Program.wp_modify]
  split
  · simp only [Program.wp_bind, Program.wp_get]
    split
    · next files hfiles =>
      simp only [Program.wp_bind, Program.wp_set, Program.wp_pure]
      exact hrename _ files hdone hfiles
    · rw [Program.wp_pure]
      exact hdone
  · rw [Program.wp_pure]
    exact hdone

theorem maintains_commit (root stagedTitle destination : Path Filename)
    (hswitch : ∀ w text, holds w → holds (switchUserPath host text w))
    (hmade : ∀ w files, holds w → holds { w with files })
    (hcommit : ∀ w, holds w → holds { w with events := .commit :: w.events }) :
    (commit host root stagedTitle destination).Maintains holds halted := by
  apply Program.Maintains.bind (maintains_noLinks steady _ _)
  intro _
  apply Program.Maintains.bind (maintains_pathExists steady _)
  intro there
  apply Program.Maintains.bind (maintains_require steady (by decide))
  intro _
  apply Program.Maintains.bind (maintains_createDirectories steady _ fun w _ hw => hmade w _ hw)
  intro _
  apply Program.Maintains.bind (maintains_requireUserPath steady _ fun w => hswitch w _)
  intro _
  apply Program.Maintains.bind
    (maintains_renameExclusive steady _ _ hcommit fun w files hw _ => hmade w files hw)
  intro renamed
  exact maintains_require steady (by decide)

end Changing

/-! ## Parts of the importer -/

/-- What a run preserves, with the rules for the polls and for files that are gone over in
blocks after polls. -/
structure Paced (host : Host) (holds : World → Prop) (halted : Stop → World → Prop) : Prop
    extends Steady host holds halted where
  check : (check host).Maintains holds halted
  rehash : ∀ stream size, (hash host stream .rehash size 0 size).Maintains holds halted
  forBlocks : ∀ stream use size body, (∀ off b, (body off b).Maintains holds halted) →
    (forBlocks host stream use size body 0).Maintains holds halted

/-- What a run preserves that does not depend on the log of the memory. -/
structure Usual (host : Host) (holds : World → Prop) (halted : Stop → World → Prop) : Prop
    extends Paced host holds halted where
  memory : ∀ w memory, holds w → holds { w with memory }
  hash : ∀ stream use limit offset size,
    (hash host stream use limit offset size).Maintains holds halted

theorem maintains_policy {α : Type} {host : Host} {holds : World → Prop}
    {halted : Stop → World → Prop} (steady : Steady host holds halted)
    (hmemory : ∀ w memory, holds w → holds { w with memory }) {p : Program Stop Memory α}
    (calm : Calm p) : (policy p).Maintains holds halted where
  run w hw := by
    rw [wp_policy]
    exact Program.wp_mono (calm.run w.memory trivial) (fun _ memory _ => hmemory w memory hw)
      fun stop memory hstop => steady.halt stop _ hstop (hmemory w memory hw)

theorem maintains_read {host : Host} {holds : World → Prop} {halted : Stop → World → Prop}
    (steady : Steady host holds halted) (hmemory : ∀ w memory, holds w → holds { w with memory })
    (stream : Stream) (offset size limit : UInt64) :
    (read host stream offset size limit).Maintains holds halted := by
  apply Program.Maintains.bind (maintains_policy steady hmemory calm_note)
  intro _
  apply Program.Maintains.bind (maintains_policy steady hmemory calm_note)
  intro _
  apply Program.Maintains.bind (maintains_attempt steady (ordinary_failure (by decide)))
  intro _
  cases stream with
  | none => exact .throw fun w => steady.halt _ w (ordinary_failure (by decide))
  | some data => exact .bind (maintains_require steady (by decide)) fun _ => .pure _

section Blocks

variable {host : Host} {holds : World → Prop} {halted : Stop → World → Prop}
  (paced : Paced host holds halted)

include paced

theorem maintains_copyInput (original : Stream) (size : UInt64) (source : Path Filename)
    (hwrite : ∀ w files content, holds w →
      w.files.writeFile host.here source content = some files → holds { w with files }) :
    (copyInput host original size source).Maintains holds halted := by
  apply Program.Maintains.bind (maintains_openCopy paced.toSteady source hwrite)
  intro opened
  apply Program.Maintains.bind
    (paced.forBlocks _ _ _ _ fun _ b => maintains_writeCopy paced.toSteady source opened b hwrite)
  intro _
  apply Program.Maintains.bind
    (maintains_attempt paced.toSteady (ordinary_failure (by decide)))
  intro _
  exact maintains_require paced.toSteady (by decide)

theorem maintains_runInstaller (stream : Stream) (size : UInt64)
    (hcall : ∀ call w, holds w → holds (callInstaller host call w).1)
    (hdestroy : ∀ stop w, halted stop w → halted stop (callInstaller host .destroy w).1) :
    (runInstaller host stream size).Maintains holds halted := by
  apply Program.Maintains.bind (maintains_useInstaller paced.toSteady _ (hcall _))
  intro _
  apply Program.Maintains.ensuring _ (hcall .destroy) hdestroy
  apply Program.Maintains.bind
  · apply paced.forBlocks
    intro off b
    apply Program.Maintains.bind (maintains_useInstaller paced.toSteady _ (hcall _))
    intro reply
    exact maintains_require paced.toSteady (by decide)
  · intro _
    apply Program.Maintains.bind (maintains_useInstaller paced.toSteady _ (hcall _))
    intro reply
    exact maintains_require paced.toSteady (by decide)

theorem maintains_verifyContent (tid : UInt64) (tmd : TitleMetadata) (hashes : List Bytes)
    (i : ℕ) : (verifyContent host tid tmd hashes i).Maintains holds halted := by
  apply Program.Maintains.bind (maintains_attempt paced.toSteady ordinary_exception)
  intro _
  apply Program.Maintains.bind (maintains_userPath paced.toSteady _)
  intro sdmc
  apply Program.Maintains.get_bind
  intro w
  apply Program.Maintains.bind
    (.andM (maintains_isRegularFile paced.toSteady _)
      (.bind (maintains_fileSize paced.toSteady _) fun _ => .pure _))
  intro intact
  apply Program.Maintains.bind (maintains_require paced.toSteady (by decide))
  intro _
  apply Program.Maintains.bind (maintains_openStream paced.toSteady _)
  intro installed
  apply Program.Maintains.bind (maintains_fileSize paced.toSteady _)
  intro size
  apply Program.Maintains.bind (paced.rehash ..)
  intro hash
  exact maintains_require paced.toSteady (by decide)

/-- What is done from the change of the user path to the last poll. -/
theorem maintains_installStaged (root staging : Path Filename) (stream : Stream) (size : UInt64)
    (valid : Validated) (tmd : TitleMetadata)
    (hswitch : ∀ w text, holds w → holds (switchUserPath host text w))
    (hdestination : ∀ w destination, holds w → holds { w with destination := some destination })
    (hmade : ∀ w files, holds w →
      w.files.mkdir host.here (staging / literal "user") = some files → holds { w with files })
    (hcompress : ∀ w, holds w → holds { w with compressCiaInstalls := false })
    (hcall : ∀ call w, holds w → holds (callInstaller host call w).1)
    (hdestroy : ∀ stop w, halted stop w → halted stop (callInstaller host .destroy w).1) :
    (installStaged host root staging stream size valid tmd).Maintains holds halted := by
  have steady := paced.toSteady
  have switchRule (text : Text) : (requireUserPath host text).Maintains holds halted :=
    maintains_requireUserPath steady text fun w => hswitch w text
  apply Program.Maintains.bind (switchRule _)
  intro _
  apply Program.Maintains.bind (maintains_attempt steady ordinary_exception)
  intro _
  apply Program.Maintains.bind (maintains_require steady (by decide))
  intro _
  apply Program.Maintains.bind (maintains_titleDirectory steady _)
  intro destination
  apply Program.Maintains.modify_bind (fun w => hdestination w destination)
  intro _
  apply Program.Maintains.bind (maintains_noLinks steady _ _)
  intro _
  apply Program.Maintains.bind (maintains_pathExists steady _)
  intro there
  apply Program.Maintains.bind (maintains_require steady (by decide))
  intro _
  apply Program.Maintains.bind (maintains_createDirectory steady _ hmade)
  intro _
  apply Program.Maintains.bind (switchRule _)
  intro _
  apply Program.Maintains.modify_bind hcompress
  intro _
  apply Program.Maintains.bind paced.check
  intro _
  apply Program.Maintains.bind (maintains_runInstaller paced stream size hcall hdestroy)
  intro _
  apply Program.Maintains.bind (.forM fun i _ => maintains_verifyContent paced _ _ _ i)
  intro _
  apply Program.Maintains.bind (maintains_verifyMetadata steady _ _)
  intro _
  apply Program.Maintains.bind (maintains_titleDirectory steady _)
  intro stagedTitle
  exact .bind paced.check fun _ => .pure _

end Blocks

section Parts

variable {host : Host} {holds : World → Prop} {halted : Stop → World → Prop}
  (usual : Usual host holds halted)

include usual

theorem maintains_validate (stream : Stream) (size : UInt64) :
    (validate host stream size).Maintains holds halted := by
  have policyRule {α : Type} {p : Program Stop Memory α} (calm : Calm p) :
      (policy p).Maintains holds halted := maintains_policy usual.toSteady usual.memory calm
  have readRule := maintains_read usual.toSteady usual.memory
  apply Program.Maintains.bind (readRule ..)
  intro header
  apply Program.Maintains.bind (policyRule (calm_header ..))
  intro sections
  apply Program.Maintains.bind (readRule ..)
  intro tmdBytes
  apply Program.Maintains.bind (policyRule (calm_titleFields ..))
  intro title
  apply Program.Maintains.bind (readRule ..)
  intro ticket
  apply Program.Maintains.bind (policyRule (calm_ticketFields ..))
  intro _
  apply Program.Maintains.bind
  · apply Program.Maintains.foldlM
    intro i _ progress
    apply Program.Maintains.bind (policyRule (calm_recordFields ..))
    intro (bytes, id)
    apply Program.Maintains.bind (usual.hash ..)
    intro hash
    apply Program.Maintains.bind (policyRule (calm_equal ..))
    intro same
    apply Program.Maintains.bind (maintains_require usual.toSteady (by decide))
    intro _
    exact .bind (policyRule calm_add) fun _ => .pure _
  · intro progress
    exact .bind (maintains_require usual.toSteady (by decide)) fun _ => .pure _

theorem maintains_checkArguments (rootArg pathArg : Option Text) :
    (checkArguments host rootArg pathArg).Maintains holds halted := by
  have requireRule {ok : Prop} [Decidable ok] {status : Status} (h : status.Ordinary) :
      (require ok status).Maintains holds halted := maintains_require usual.toSteady h
  apply Program.Maintains.bind (requireRule (by decide))
  intro _
  apply Program.Maintains.bind (requireRule (by decide))
  intro _
  apply Program.Maintains.bind (requireRule (by decide))
  intro _
  apply Program.Maintains.bind (maintains_root usual.toSteady ..)
  intro root
  apply Program.Maintains.bind
    (.andM (.pure _) (.andM (maintains_isRegularFile usual.toSteady _)
      (.map _ (maintains_isSymlink usual.toSteady _))))
  intro suitable
  apply Program.Maintains.bind (requireRule (by decide))
  intro _
  apply Program.Maintains.bind (maintains_fileSize usual.toSteady _)
  intro size
  apply Program.Maintains.bind (requireRule (by decide))
  intro _
  apply Program.Maintains.bind (maintains_openStream usual.toSteady _)
  intro original
  apply Program.Maintains.bind (maintains_read usual.toSteady usual.memory ..)
  intro bytes
  apply Program.Maintains.bind (maintains_policy usual.toSteady usual.memory (calm_header ..))
  intro _
  exact .bind usual.check fun _ => .pure _

theorem maintains_makeStaging (root : Path Filename) (size : UInt64)
    (hdirectories : ∀ w limit, holds w → holds { w with
      files := (w.files.createDirectories host.here root.absolute limit [] root.parts).1 })
    (hmade : ∀ w path files, holds w → w.files.mkdir host.here path = some files →
      holds { w with files }) :
    (makeStaging host root size).Maintains holds halted := by
  apply Program.Maintains.bind (maintains_createDirectories usual.toSteady root hdirectories)
  intro _
  apply Program.Maintains.get_bind
  intro w
  apply Program.Maintains.bind (maintains_attempt usual.toSteady ordinary_exception)
  intro _
  apply Program.Maintains.bind (maintains_policy usual.toSteady usual.memory calm_multiply)
  intro twice
  apply Program.Maintains.bind (maintains_policy usual.toSteady usual.memory calm_add)
  intro needed
  apply Program.Maintains.bind (maintains_require usual.toSteady (by decide))
  intro _
  exact maintains_makeTemporary usual.toSteady root hmade

theorem maintains_reportTitle (valid : Validated) (tmd : TitleMetadata)
    (hresult : ∀ w result, holds w → holds { w with result }) :
    (reportTitle valid tmd).Maintains holds halted := by
  apply Program.Maintains.bind (maintains_policy usual.toSteady usual.memory calm_subtract)
  intro contentBytes
  exact .modify fun w hw => hresult w _ hw

end Parts

end ManicRoom.Cia
