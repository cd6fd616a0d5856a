/-
# What looking at the files shows

`NoLinks`, `Root` and the tests whether something exists look at the files at several moments,
and between them another process may act. Under an invariant that keeps the files of one
moment, what has been seen is true of these files. `NoLinks` comes to an end only for a path
below its base, and then there is no link on the way.
-/

import ManicRoom.Cia.Paths
import ManicRoom.Cia.Rules
import ManicRoom.Foundation.Resolution

namespace ManicRoom.Cia

open ManicRoom.Foundation ManicRoom.Storage

/-- The name with this text. -/
theorem parse_name (name : Filename) : Path.parse name.text = .ofPart (.name name) := by
  have h := Path.parse_render (.ofPart (.name name))
  simpa [Path.render, Path.ofPart, Part.text, List.intercalate] using h

/-- `"RoomExperiment-v1"` -/
def experimentName : Filename :=
  ⟨"RoomExperiment-v1".toList, by decide, by decide, by decide, by decide⟩

/-- `"3DS"` -/
def coreName : Filename := ⟨"3DS".toList, by decide, by decide, by decide, by decide⟩

/-- `"input.cia"` -/
def inputName : Filename := ⟨"input.cia".toList, by decide, by decide, by decide, by decide⟩

/-- `"user"` -/
def userName : Filename := ⟨"user".toList, by decide, by decide, by decide, by decide⟩

theorem literal_experiment : literal "RoomExperiment-v1" = .ofPart (.name experimentName) :=
  parse_name experimentName

theorem literal_core : literal "3DS" = .ofPart (.name coreName) := parse_name coreName

theorem literal_input : literal "input.cia" = .ofPart (.name inputName) := parse_name inputName

theorem literal_user : literal "user" = .ofPart (.name userName) := parse_name userName

theorem literal_root : (literal "RoomExperiment-v1/3DS").absolute = false ∧
    (literal "RoomExperiment-v1/3DS").elements =
      [experimentName, coreName].map fun name => some (Part.name name) := by
  decide +kernel

/-- None of the places along the names is a link. -/
def Unlinked (host : Host) (files : Files) (base names : List Filename) : Prop :=
  ∀ pre, pre ≠ [] → pre <+: names → ∀ target,
    files.lstat host.here (.ofNames (base ++ pre)) ≠ .ok (some (.link target))

theorem unlinked_nil (host : Host) (files : Files) (base : List Filename) :
    Unlinked host files base [] :=
  fun _ hpre hnil => absurd (List.prefix_nil.mp hnil) hpre

section Looking

variable {host : Host} {holds : World → Prop} {halted : Stop → World → Prop}
  (steady : Steady host holds halted) {w : World}

include steady

theorem wp_status {path : Path Filename} {done : Option (Node Filename Bytes) → World → Prop}
    (hw : holds w) (hreturned : ∀ node t, holds t → t.files.stat host.here path = .ok node →
      done node t) : (status host path).wp done halted w := by
  apply Program.Maintains.andThen (maintains_attempt steady ordinary_exception) hw
  intro _ t ht
  simp only [Program.wp_bind, Program.wp_get]
  split
  · next node hnode => exact (Program.wp_pure _).mpr (hreturned node t ht hnode)
  · exact (Program.wp_throw _).mpr (steady.halt _ t ordinary_exception ht)

theorem wp_symlinkStatus {path : Path Filename}
    {done : Option (Node Filename Bytes) → World → Prop} (hw : holds w)
    (hreturned : ∀ node t, holds t → t.files.lstat host.here path = .ok node → done node t) :
    (symlinkStatus host path).wp done halted w := by
  apply Program.Maintains.andThen (maintains_attempt steady ordinary_exception) hw
  intro _ t ht
  simp only [Program.wp_bind, Program.wp_get]
  split
  · next node hnode => exact (Program.wp_pure _).mpr (hreturned node t ht hnode)
  · exact (Program.wp_throw _).mpr (steady.halt _ t ordinary_exception ht)

theorem wp_weaklyCanonical {path : Path Filename} {done : Path Filename → World → Prop}
    (hw : holds w) (hreturned : ∀ canonical t, holds t →
      t.files.weaklyCanonical host.here path = .ok canonical → done canonical t) :
    (weaklyCanonical host path).wp done halted w := by
  apply Program.Maintains.andThen (maintains_attempt steady ordinary_exception) hw
  intro _ t ht
  simp only [Program.wp_bind, Program.wp_get]
  split
  · next canonical hcanonical =>
    exact (Program.wp_pure _).mpr (hreturned canonical t ht hcanonical)
  · exact (Program.wp_throw _).mpr (steady.halt _ t ordinary_exception ht)

/-- `fs::exists`, where it answers that there is nothing. -/
theorem wp_pathExists {path : Path Filename} {done : Bool → World → Prop} (hw : holds w)
    (htrue : ∀ t, holds t → done true t)
    (hfalse : ∀ t, holds t → t.files.stat host.here path = .ok none → done false t) :
    (pathExists host path).wp done halted w := by
  rw [pathExists, Program.wp_bind]
  apply wp_status steady hw
  intro node t ht hnode
  rw [Program.wp_pure]
  cases node with
  | none => exact hfalse t ht hnode
  | some node => exact htrue t ht

/-- `fs::is_symlink`, where it answers that there is no link. -/
theorem wp_isSymlink {path : Path Filename} {done : Bool → World → Prop} (hw : holds w)
    (htrue : ∀ t, holds t → done true t)
    (hfalse : ∀ t, holds t → (∀ target, t.files.lstat host.here path ≠ .ok (some (.link target))) →
      done false t) :
    (isSymlink host path).wp done halted w := by
  rw [isSymlink, Program.wp_bind]
  apply wp_symlinkStatus steady hw
  intro node t ht hnode
  rw [Program.wp_pure]
  split
  · exact htrue t ht
  · next hother =>
    refine hfalse t ht fun target hlink => hother target ?_
    exact Except.ok.inj (hnode.symm.trans hlink)

/-- `std::ifstream`, which may not be open. -/
theorem wp_openStream {path : Path Filename} {done : Stream → World → Prop} (hw : holds w)
    (hreturned : ∀ stream t, holds t →
      (∀ content, stream = some content → t.files.readFile host.here path = some content) →
      done stream t) : (openStream host path).wp done halted w := by
  have hpass := steady.pass w hw
  simp only [openStream, Program.wp_bind, Program.wp_get, Program.wp_modify, Program.wp_ite,
    Program.wp_pure]
  refine ⟨fun _ => ?_, fun _ => hreturned none _ hpass (by rintro _ ⟨⟩)⟩
  exact hreturned _ _ hpass fun _ h => h

/-- `fs::file_size`, of a file that is there. -/
theorem wp_fileSize {path : Path Filename} {done : UInt64 → World → Prop} (hw : holds w)
    (hreturned : ∀ content t, holds t → t.files.readFile host.here path = some content →
      content.length < 2 ^ 63 → done (.ofNat content.length) t) :
    (fileSize host path).wp done halted w := by
  rw [fileSize, Program.wp_bind]
  apply wp_status steady hw
  intro node t ht hnode
  have stopped : halted .exception t := steady.halt _ t ordinary_exception ht
  split
  · next content =>
    rw [Program.wp_ite, Program.wp_pure, Program.wp_throw]
    refine ⟨fun hlength => hreturned content t ht ?_ hlength, fun _ => stopped⟩
    simp only [FileTree.readFile, hnode]
  · exact (Program.wp_throw _).mpr stopped

/-- What the emulator says of the staged file. -/
theorem wp_inspect {source : Path Filename} {title : Title} {done : TitleMetadata → World → Prop}
    (hw : holds w)
    (hreturned : ∀ content container t, holds t →
      t.files.readFile host.here source = some content →
      host.loadContainer content = some container → container.titleMetadata.titleId = title.tid →
      done container.titleMetadata t) : (inspect host source title).wp done halted w := by
  apply Program.Maintains.andThen (maintains_attempt steady (ordinary_failure (by decide))) hw
  intro _ t ht
  rw [Program.wp_bind, Program.wp_get]
  apply Program.Maintains.andThen (maintains_require steady (by decide)) ht
  intro _ t ht
  apply Program.Maintains.andThen (maintains_attempt steady (ordinary_failure (by decide))) ht
  intro _ t ht
  rw [Program.wp_bind, Program.wp_get]
  split
  · next container hcontainer =>
    obtain ⟨content, hcontent, hload⟩ := Option.bind_eq_some_iff.mp hcontainer
    rw [Program.wp_bind, wp_require]
    refine ⟨fun hids => ?_, fun _ => steady.halt _ t (ordinary_failure (by decide)) ht⟩
    exact (Program.wp_pure _).mpr (hreturned content container t ht hcontent hload hids.1)
  · exact (Program.wp_throw _).mpr (steady.halt _ t (ordinary_failure (by decide)) ht)

variable {files : Files} (hkeeps : ∀ w, holds w → files.Keeps w.files)

include hkeeps

/-- The links that the loop of `NoLinks` has not found. -/
theorem wp_noLinksFrom {p : Path Filename} {base names : List Filename}
    (habsolute : p.absolute = true) (hparts : p.parts = base.map .name) (hw : holds w) :
    (noLinksFrom host p (names.map fun name => some (.name name))).wp
      (fun _ t => holds t ∧ Unlinked host files base names) halted w := by
  induction names generalizing p base w with
  | nil => exact (Program.wp_pure ()).mpr ⟨hw, unlinked_nil host files base⟩
  | cons name names ih =>
      have hnext : p.appendElement (some (.name name)) = .ofNames (base ++ [name]) := by
        simp [Path.appendElement, Path.div_eq, Path.append, Path.ofPart, Path.ofNames, habsolute,
          hparts]
      rw [List.map_cons, noLinksFrom, hnext]
      apply Program.Maintains.andThen (maintains_require steady (by decide)) hw
      intro _ w hw
      rw [Program.wp_bind]
      apply wp_isSymlink steady hw
      · intro t ht
        simp only [Program.wp_bind, wp_require]
        exact ⟨by rintro ⟨⟩, fun _ => steady.halt _ t (ordinary_failure (by decide)) ht⟩
      · intro t ht hlink
        simp only [Program.wp_bind, wp_require]
        refine ⟨fun _ => ?_, fun h => absurd trivial h⟩
        apply Program.wp_mono (ih (Path.ofNames_absolute _) (Path.ofNames_parts _) ht) _
          fun _ _ h => h
        rintro _ u ⟨hu, hrest⟩
        refine ⟨hu, fun pre hpre hnames target hfound => ?_⟩
        obtain ⟨first, pre, rfl⟩ := List.exists_cons_of_ne_nil hpre
        obtain ⟨rfl, hprefix⟩ := List.cons_prefix_cons.mp hnames
        by_cases hempty : pre = []
        · subst hempty
          exact hlink target (FileTree.look_keeps (hkeeps t ht) hfound)
        · exact hrest pre hempty hprefix target (by simpa using hfound)

/-- **`NoLinks`.** It comes to an end only for a path below its base with no link on the way. -/
theorem wp_noLinks {base names : List Filename} (hw : holds w) :
    (noLinks host (.ofNames base) ((Path.ofNames names).relativeTo (.ofNames base))).wp
      (fun _ t => holds t ∧ ∃ more, names = base ++ more ∧ Unlinked host files base more)
      halted w := by
  by_cases hbelow : base <+: names
  · obtain ⟨more, rfl⟩ := hbelow
    by_cases hmore : more = []
    · subst hmore
      apply Program.wp_mono ((maintains_noLinks steady _ _).run w hw) _ fun _ _ h => h
      exact fun _ t ht => ⟨ht, [], rfl, unlinked_nil host files base⟩
    · have helements : (Path.of false (more.map Part.name) false).elements =
          more.map fun name => some (Part.name name) := by
        simp [Path.elements, List.map_map, Function.comp_def]
      rw [relativeTo_names base hmore, noLinks, helements]
      apply Program.Maintains.andThen (maintains_require steady (by decide)) hw
      intro _ w hw
      apply Program.wp_mono (wp_noLinksFrom steady hkeeps (Path.ofNames_absolute base)
        (Path.ofNames_parts base) hw) _ fun _ _ h => h
      exact fun _ t h => ⟨h.1, more, rfl, h.2⟩
  · obtain ⟨hup, -⟩ := relativeTo_outside hbelow
    obtain ⟨rest, hrest⟩ := List.head?_eq_some_iff.mp hup
    rw [noLinks, hrest, noLinksFrom]
    apply Program.Maintains.andThen (maintains_require steady (by decide)) hw
    intro _ w hw
    simp only [Program.wp_bind, wp_require]
    exact ⟨fun h => absurd rfl h, fun _ => steady.halt _ w (ordinary_failure (by decide)) hw⟩

end Looking

/-! ## The root -/

/-- What `Root` has made sure of. -/
structure RootFacts (host : Host) (files : Files) (requested documents root : Path Filename) :
    Prop where
  absolute : requested.absolute = true
  resolves : files.weaklyCanonical host.here requested = .ok root
  expected : ∃ (canonical : Path Filename) (names : List Filename),
    files.weaklyCanonical host.here documents = .ok canonical ∧ canonical.parts = names.map .name ∧
      root = .ofNames (names ++ [experimentName, coreName]) ∧
      Unlinked host files names [experimentName, coreName]

theorem wp_root {host : Host} {holds : World → Prop} {halted : Stop → World → Prop}
    (steady : Steady host holds halted) {files : Files} (hfiles : ∀ w, holds w → w.files = files)
    {requested documents : Path Filename} {w : World} (hw : holds w) :
    (root host requested documents).wp
      (fun root t => holds t ∧ RootFacts host files requested documents root) halted w := by
  have hkeeps (w : World) (hw : holds w) : files.Keeps w.files := by
    rw [hfiles w hw]
    exact .refl files
  rw [root, Program.wp_bind]
  apply wp_weaklyCanonical steady hw
  intro canonical w hw hcanonical
  rw [hfiles w hw] at hcanonical
  rw [Program.wp_bind]
  apply wp_weaklyCanonical steady hw
  intro other w hw hother
  rw [hfiles w hw, hcanonical] at hother
  cases hother
  obtain ⟨habsolute, names, hparts⟩ := FileTree.exists_names_of_weaklyCanonical hcanonical
  have hexpected : canonical / literal "RoomExperiment-v1" / literal "3DS" =
      .ofNames (names ++ [experimentName, coreName]) := by
    rw [literal_experiment, literal_core]
    simp [Path.div_eq, Path.append, Path.ofPart, Path.ofNames, habsolute, hparts]
  obtain ⟨hrelative, helements⟩ := literal_root
  rw [noLinks, helements, hexpected, Program.wp_bind]
  apply Program.Maintains.andThen (maintains_require steady (by decide)) hw
  intro _ w hw
  apply Program.wp_mono (wp_noLinksFrom steady hkeeps habsolute hparts hw) _ fun _ _ h => h
  rintro _ w ⟨hw, hlinks⟩
  rw [Program.wp_bind, Program.wp_andM, Program.wp_pure]
  have hrefused {t : World} (ht : holds t) :
      halted (.failure .wrongEnvironment) t := steady.halt _ t (ordinary_failure (by decide)) ht
  cases hrequested : requested.absolute with
  | false =>
      simp only [Bool.false_eq_true, if_false, Program.wp_bind, wp_require, false_imp_iff,
        not_false_eq_true, true_imp_iff, true_and]
      exact hrefused hw
  | true =>
      simp only [if_true, Program.wp_bind]
      apply wp_weaklyCanonical steady hw
      intro found w hw hfound
      rw [hfiles w hw] at hfound
      simp only [Program.wp_pure, wp_require, decide_eq_true_eq]
      refine ⟨?_, fun _ => hrefused hw⟩
      rintro rfl
      exact ⟨hw, hrequested, hfound, canonical, names, hcanonical, hparts, rfl, hlinks⟩

end ManicRoom.Cia
