/-
# The paths of an import

The importer puts its paths together from texts: the root below the documents directory, the
staging directory and what is in it, and the title paths that the emulator derives from a user
path. Written as names they are simple: the destination of a title is its names below the
root, and the staged title is the same names below the staged user directory.
-/

import ManicRoom.Cia.Install

namespace ManicRoom.Cia

open ManicRoom.Foundation ManicRoom.Storage

/-! ## Paths of names -/

/-- A path of nothing but names from the root directory. -/
theorem eq_ofNames {p : Path Filename} {names : List Filename} (habsolute : p.absolute = true)
    (hparts : p.parts = names.map .name) (htrailing : p.trailing = false) : p = .ofNames names := by
  obtain ⟨absolute, parts, trailing, proper⟩ := p
  simp only at habsolute hparts htrailing
  subst habsolute hparts htrailing
  simp [Path.ofNames, Path.of]

/-- At most one separator stands at the end of a normal form. -/
theorem stripSeparators_eq (p : Path Filename) :
    stripSeparators p = .of p.absolute p.parts false := by
  have hkept (parts : List (Foundation.Part Filename)) :
      ¬ ((Path.of p.absolute parts false).parts ≠ [] ∧
        (Path.of p.absolute parts false).endsEmpty = true) := by
    rintro ⟨hne, hends⟩
    exact hne (by simpa [Path.endsEmpty] using hends)
  cases htrailing : p.trailing with
  | false =>
      have hself : p = .of p.absolute p.parts false := by
        obtain ⟨absolute, parts, trailing, proper⟩ := p
        simpa [Path.of] using htrailing
      conv_lhs => rw [hself]
      rw [stripSeparators, if_neg (hkept p.parts)]
  | true =>
      have hparent : p.parent = .of p.absolute p.parts false := by
        rw [Path.parent, if_pos htrailing]
      rw [stripSeparators, if_pos ⟨p.proper htrailing, by simp [Path.endsEmpty, htrailing]⟩,
        hparent, stripSeparators, if_neg (hkept p.parts)]

theorem stripSeparators_names {p : Path Filename} {names : List Filename}
    (habsolute : p.absolute = true) (hparts : p.parts = names.map .name) :
    stripSeparators p = .ofNames names := by
  rw [stripSeparators_eq, habsolute, hparts, Path.ofNames]

theorem ofNames_parent (names : List Filename) :
    (Path.ofNames names).parent = .ofNames names.dropLast := by
  simp [Path.parent, Path.ofNames, List.map_dropLast]

/-- What is left of a path when the beginning is taken off. -/
theorem mismatch_append {α : Type} [DecidableEq α] (left right : List α) :
    Path.mismatch (left ++ right) left = (right, []) := by
  induction left with
  | nil => cases right <;> rfl
  | cons first left ih => simp [Path.mismatch, ih]

theorem foldl_appendElement (p : Path Filename) (names : List Filename)
    (hnames : names ≠ [] ∨ p.trailing = false) :
    (names.map fun name => some (Part.name name)).foldl Path.appendElement p =
      .of p.absolute (p.parts ++ names.map .name) false := by
  induction names generalizing p with
  | nil =>
      obtain ⟨absolute, parts, trailing, proper⟩ := p
      simp only [ne_eq, not_true_eq_false, false_or] at hnames
      subst hnames
      simp [Path.of]
  | cons name names ih =>
      have hfirst : p.appendElement (some (.name name)) =
          .of p.absolute (p.parts ++ [.name name]) false := by
        simp [Path.appendElement, Path.div_eq, Path.append, Path.ofPart]
      rw [List.map_cons, List.foldl_cons, hfirst, ih _ (.inr rfl)]
      simp

/-- A path below the root, relative to the root. -/
theorem relativeTo_names (names : List Filename) {more : List Filename} (hmore : more ≠ []) :
    (Path.ofNames (names ++ more)).relativeTo (.ofNames names) =
      .of false (more.map .name) false := by
  have helements (names : List Filename) :
      (Path.ofNames names).elements = names.map fun name => some (Part.name name) := by
    simp [Path.elements, List.map_map, Function.comp_def]
  have hhead : (more.map fun name => some (Part.name name)).head? ≠ some none := by
    cases more with
    | nil => exact absurd rfl hmore
    | cons first more => simp
  have hempty : (more.map fun name => some (Part.name name)) ≠ [] := by simpa using hmore
  rw [Path.relativeTo, if_neg (by simp), helements, helements, List.map_append, mismatch_append]
  simp only [Path.depth, Prod.mk.injEq, hempty, false_and, if_false, lt_irrefl, true_and,
    hhead, or_self, Int.toNat_zero, List.replicate_zero]
  rw [foldl_appendElement _ _ (.inr rfl)]
  simp

/-- What two lists have in common, and where they part. -/
theorem exists_mismatch_map {α β : Type} [DecidableEq β] {f : α → β} (hf : Function.Injective f)
    (left right : List α) :
    ∃ common left' right', left = common ++ left' ∧ right = common ++ right' ∧
      Path.mismatch (left.map f) (right.map f) = (left'.map f, right'.map f) := by
  induction left generalizing right with
  | nil => exact ⟨[], [], right, rfl, rfl, by cases right <;> rfl⟩
  | cons first left ih =>
      cases right with
      | nil => exact ⟨[], first :: left, [], rfl, rfl, rfl⟩
      | cons other right =>
          by_cases hsame : f first = f other
          · cases hf hsame
            obtain ⟨common, left', right', rfl, rfl, hmismatch⟩ := ih right
            exact
              ⟨first :: common, left', right', rfl, rfl, by simpa [Path.mismatch] using hmismatch⟩
          · exact ⟨[], first :: left, other :: right, rfl, rfl, by simp [Path.mismatch, hsame]⟩

theorem depth_names (names : List Filename) :
    Path.depth (names.map fun name => some (Part.name name)) = names.length := by
  induction names with
  | nil => rfl
  | cons name names ih => simp [Path.depth, ih]

theorem foldl_appendElement_head (p : Path Filename)
    (elements : List (Option (Foundation.Part Filename))) (hhead : p.parts.head? = some .up) :
    (elements.foldl Path.appendElement p).parts.head? = some .up := by
  induction elements generalizing p with
  | nil => exact hhead
  | cons element elements ih =>
      apply ih
      cases element with
      | none => exact hhead
      | some part => simp [Path.appendElement, Path.div_eq, Path.append, Path.ofPart, hhead]

theorem ofNames_elements (names : List Filename) :
    (Path.ofNames names).elements = names.map fun name => some (Part.name name) := by
  simp [Path.elements, List.map_map, Function.comp_def]

/-- A path that does not lie below the root leads up from there. -/
theorem relativeTo_outside {names base : List Filename} (h : ¬ base <+: names) :
    ((Path.ofNames names).relativeTo (.ofNames base)).elements.head? = some (some .up) ∧
      ((Path.ofNames names).relativeTo (.ofNames base)).absolute = false := by
  have hinjective : Function.Injective fun name : Filename => some (Part.name name) := by
    intro name other heq
    simpa using heq
  obtain ⟨common, left, right, rfl, rfl, hmismatch⟩ := exists_mismatch_map hinjective names base
  have hright : right ≠ [] := by
    rintro rfl
    exact h (by simp)
  have hpos : 0 < right.length := List.length_pos_iff.mpr hright
  rw [Path.relativeTo, if_neg (by simp), ofNames_elements, ofNames_elements, hmismatch]
  simp only [depth_names, Prod.mk.injEq, List.map_eq_nil_iff, hright, and_false, if_false]
  rw [if_neg (by omega), if_neg (by omega)]
  have hup :
      (List.replicate right.length (Part.up : Foundation.Part Filename)).head? = some .up := by
    obtain ⟨count, hcount⟩ := Nat.exists_eq_succ_of_ne_zero hpos.ne'
    rw [hcount, List.replicate_succ, List.head?_cons]
  constructor
  · have hhead := foldl_appendElement_head (.of false (List.replicate right.length .up) false)
      (left.map fun name => some (Part.name name)) hup
    obtain ⟨rest, hrest⟩ := List.head?_eq_some_iff.mp hhead
    simp only [Int.toNat_natCast, Path.elements, hrest]
    rfl
  · rw [Path.foldl_appendElement_absolute]
    rfl

/-! ## Texts -/

/-- The names with separators between them. -/
def below (names : List Filename) : Text := List.intercalate ['/'] (names.map Filename.text)

theorem below_eq (names : List Filename) :
    below names = List.intercalate ['/'] ((names.map Part.name).map Part.text) := by
  rw [below, List.map_map]
  rfl

theorem parse_below (names : List Filename) :
    (Path.parse (below names)).parts = names.map .name := by
  rw [below_eq]
  exact Path.parse_intercalate_parts _

theorem render_ofNames (names : List Filename) :
    (Path.ofNames names).render = '/' :: below names := by
  rw [Path.render, below_eq]
  simp

/-- A text below the text of a directory. -/
theorem parse_directoryText_append (names : List Filename) (text : Text) :
    (Path.parse (directoryText (.ofNames names) ++ text)).absolute = true ∧
      (Path.parse (directoryText (.ofNames names) ++ text)).parts =
        names.map .name ++ (Path.parse text).parts := by
  have hrender : (Path.ofNames names).render ≠ [] := by simp [render_ofNames]
  have htext : directoryText (.ofNames names) ++ text =
      (Path.ofNames names).render ++ '/' :: text := by simp [directoryText]
  rw [htext]
  constructor
  · rw [Path.parse_append_absolute hrender, Path.parse_render]
    rfl
  · rw [Path.parse_append_parts, Path.parse_render]
    rfl

/-- The text of a directory leads to it. -/
theorem stripTailDirSlashes_directoryText {names : List Filename} (hnames : names ≠ []) :
    Path.parse (stripTailDirSlashes (directoryText (.ofNames names))) = .ofNames names := by
  obtain ⟨-, last, -, hlast, -, hne⟩ :=
    Path.intercalate_ends (names.map Part.name) (by simpa using hnames)
  have hends : (Path.ofNames names).render.getLast? = some last := by
    rw [render_ofNames, below_eq, List.getLast?_cons, hlast]
    rfl
  have hlength : ¬ (directoryText (.ofNames names)).length ≤ 1 := by
    simp [directoryText, render_ofNames]
  rw [stripTailDirSlashes, if_neg hlength, directoryText, List.rdropWhile_concat_pos _ _ _ rfl]
  have hkeep : (Path.ofNames names).render.rdropWhile (· == '/') = (Path.ofNames names).render := by
    rw [List.rdropWhile_eq_self_iff]
    intro hnil
    rw [List.getLast?_eq_some_getLast hnil, Option.some.injEq] at hends
    rw [hends]
    simpa using hne
  rw [hkeep, Path.parse_render]

end ManicRoom.Cia
