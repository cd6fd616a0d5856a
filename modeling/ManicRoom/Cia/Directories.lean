/-
# The directory of a title

`Directory` takes the separators from the end of a path, because the directory of a title is
renamed into its parent, which is made before, and it must not be made with it. Whatever
separators and `.` and `..` components the path has, its directory is its normal form without
separators at the end, and making all directories above it does not make it.
-/

import ManicRoom.Cia.Paths
import ManicRoom.Foundation.Normal
import ManicRoom.Foundation.Operations

namespace ManicRoom.Cia

open ManicRoom.Foundation

/-- The root directory. -/
def rootDirectory : Path Filename := .of true [] false

/-- The normal form without separators at its end. -/
theorem directory_eq (p : Path Filename) : directory p = .of p.absolute p.normal.parts false := by
  rw [directory, stripSeparators_eq, Path.normal_absolute]

/-- `Directory` does nothing to a directory. -/
theorem directory_directory {p : Path Filename} (hp : p.isEmpty = false) :
    directory (directory p) = directory p := by
  have hnormal : (directory p).normal = directory p := by
    rw [directory_eq]
    rcases p.normal_parts_cases hp with ⟨hrelative, hhere⟩ | ⟨hsettled, hsome⟩
    · rw [hrelative, hhere]
      exact Path.normal_ofPart_here
    · exact Path.normal_of_settled hsettled hsome rfl
  have htrailing : (directory p).trailing = false := by rw [directory_eq, Path.of_trailing_false]
  rw [directory, stripSeparators_eq, hnormal, directory_eq, Path.of_absolute, Path.of_parts]

/-- The last component of a directory is not empty, unless it is the root directory. -/
theorem filename_directory {p : Path Filename} (hp : p.isEmpty = false) :
    (directory p).filename?.isSome ∨ p.normal = rootDirectory := by
  by_cases hparts : p.normal.parts = []
  · right
    have habsolute : p.normal.absolute = true := by
      rcases p.normal_parts_cases hp with ⟨-, hhere⟩ | ⟨-, habsolute | hne⟩
      · exact nomatch hhere.symm.trans hparts
      · rwa [Path.normal_absolute]
      · exact absurd hparts hne
    have htrailing : p.normal.trailing = false := by
      by_contra h
      exact p.normal.proper (Bool.not_eq_false _ ▸ h) hparts
    exact @eq_ofNames _ [] habsolute hparts htrailing
  · left
    rw [directory_eq, Path.filename?, Path.of_trailing_false, Path.of_parts]
    simpa using hparts

/-- Separators at the end make no difference. -/
theorem directory_congr {p q : Path Filename} (habsolute : p.absolute = q.absolute)
    (hparts : p.parts = q.parts) : directory p = directory q := by
  rw [directory_eq, directory_eq, habsolute, Path.normal_parts_congr habsolute hparts]

/-! ## Texts -/

/-- What stands between separators is a part. -/
theorem parts_parse_ne_nil {text : Text} (htext : text ≠ []) (hseparator : '/' ∉ text) :
    (Path.parse text).parts ≠ [] := by
  have hpart : Part.ofText? text ≠ none := by
    unfold Part.ofText?
    split
    · nofun
    · next hhere =>
      split
      · nofun
      · next hup => simp [Filename.ofText?, htext, hseparator, hhere, hup]
  obtain ⟨part, hpart⟩ := Option.ne_none_iff_exists'.mp hpart
  simp [Path.parse, List.splitOn_eq_singleton hseparator, hpart]

/-- A text with characters in it is a path with something in it. -/
theorem isEmpty_parse {text : Text} (htext : text ≠ []) : (Path.parse text).isEmpty = false := by
  rw [Path.isEmpty, Bool.and_eq_false_iff]
  by_cases hmem : '/' ∈ text
  · obtain ⟨before, rest, rfl, hbefore⟩ := List.eq_append_cons_of_mem hmem
    by_cases hempty : before = []
    · subst hempty
      exact .inl rfl
    · right
      rw [Path.parse_append_parts]
      simp [parts_parse_ne_nil hempty hbefore]
  · exact .inr (by simpa using parts_parse_ne_nil htext hmem)

theorem parse_separators {text : Text} (htext : text ≠ []) (n : ℕ) :
    (Path.parse (text ++ List.replicate n '/')).absolute = (Path.parse text).absolute ∧
      (Path.parse (text ++ List.replicate n '/')).parts = (Path.parse text).parts := by
  refine ⟨Path.parse_append_absolute htext _, ?_⟩
  induction n generalizing text with
  | zero => rw [List.replicate_zero, List.append_nil]
  | succ n ih =>
      have hone : (Path.parse (text ++ ['/'])).parts = (Path.parse text).parts := by
        rw [Path.parse_append_parts]
        exact List.append_nil _
      have hmore := @ih (text ++ ['/']) (by simp)
      rwa [List.append_assoc, hone] at hmore

/-! ## What becomes of a path -/

/-- What `Directory` makes of a path. -/
structure IsDirectory (p : Path Filename) (d : Path Filename) : Prop where
  /-- It is the normal form without separators at its end. -/
  parts : d.parts = p.normal.parts
  absolute : d.absolute = p.normal.absolute
  trailing : d.trailing = false
  /-- Its last component is not empty, unless it is the root directory. -/
  filename : d.filename?.isSome ∨ p.normal = rootDirectory

/-- A directory below the root has a parent that is above it, and making all directories up to the
parent does not make it. -/
structure Uncreated (d : Path Filename) (above : List Filename) (name : Filename) : Prop where
  eq : d = .ofNames (above ++ [name])
  parent : d.parent = .ofNames above
  made : ∀ (files : Files) here limit followLast node,
    (FileTree.createDirectories here d.parent.absolute files limit [] d.parent.parts).1.look
        followLast here d = .ok (some node) ↔
      files.look followLast here d = .ok (some node)

theorem isDirectory_directory {p : Path Filename} (hp : p.isEmpty = false) :
    IsDirectory p (directory p) := by
  have hfilename := filename_directory hp
  rw [directory_eq] at hfilename ⊢
  exact ⟨rfl, p.normal_absolute.symm, rfl, hfilename⟩

theorem exists_uncreated {p : Path Filename} (habsolute : p.absolute = true)
    (hbelow : p.normal ≠ rootDirectory) : ∃ above name, Uncreated (directory p) above name := by
  obtain ⟨hnormal, names, hparts⟩ := FileTree.exists_names_of_normal habsolute
  have hdirectory : directory p = .ofNames names := stripSeparators_names hnormal hparts
  rcases List.eq_nil_or_concat' names with rfl | ⟨above, name, rfl⟩
  · have hp : p.isEmpty = false := by simp [Path.isEmpty, habsolute]
    rcases filename_directory hp with hsome | hroot
    · rw [hdirectory] at hsome
      exact absurd hsome (by decide)
    · exact absurd hroot hbelow
  · have hparent : (directory p).parent = .ofNames above := by
      rw [hdirectory, ofNames_parent, List.dropLast_concat]
    refine ⟨above, name, hdirectory, hparent, fun files here limit followLast node => ?_⟩
    rw [hparent, hdirectory]
    exact FileTree.look_createDirectories rfl followLast node

/-- **`Directory` keeps the target uncreated.** Whatever the components of a path are and however
many separators it ends in, its directory is its normal form without separators at the end, the
same for the directory itself. If the path lies below the root directory, then making the
directories above the directory does not make the directory. -/
theorem directory_uncreated {text : Text} (htext : text ≠ []) :
    IsDirectory (.parse text) (directory (.parse text)) ∧
      directory (directory (.parse text)) = directory (.parse text) ∧
      (∀ n, directory (.parse (text ++ List.replicate n '/')) = directory (.parse text)) ∧
      ((Path.parse text).absolute = true → (Path.parse text).normal ≠ rootDirectory →
        ∃ above name, Uncreated (directory (.parse text)) above name) := by
  have hp := isEmpty_parse htext
  refine ⟨isDirectory_directory hp, directory_directory hp, fun n => ?_, exists_uncreated⟩
  obtain ⟨habsolute, hparts⟩ := parse_separators htext n
  exact directory_congr habsolute hparts

/-- A path with everything in it. -/
theorem directory_uncreated_sample :
    ∃ above name, Uncreated (directory (.parse "/a/./b/..//c/".toList)) above name ∧
      directory (.parse "/a/./b/..//c/".toList) = .parse "/a/c".toList := by
  obtain ⟨-, -, -, huncreated⟩ := @directory_uncreated "/a/./b/..//c/".toList (by decide)
  obtain ⟨above, name, h⟩ := huncreated rfl (by decide)
  exact ⟨above, name, h, by rw [directory_eq]; decide⟩

end ManicRoom.Cia
