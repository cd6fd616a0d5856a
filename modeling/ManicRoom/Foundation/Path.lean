/-
# Paths

A path as the C++ library takes one apart: a root directory or none, the parts between the
separators, and possibly a separator at the end, which counts as an empty last part. The
operations are those on texts: appending, the parent, the normal form and the difference of
two paths. None of them looks at a file system, and nothing here refers to a particular
program.
-/

import Mathlib.Data.Int.Notation
import Mathlib.Data.List.Basic

namespace ManicRoom.Foundation

universe u

/-- A part of a path. -/
inductive Part (Name : Type u)
  | name (name : Name)
  /-- `.` -/
  | here
  /-- `..` -/
  | up
  deriving DecidableEq, Repr

/-- A path. -/
structure Path (Name : Type u) where
  absolute : Bool
  parts : List (Part Name)
  /-- It ends in a separator after its last part. -/
  trailing : Bool
  proper : trailing = true → parts ≠ []
  deriving DecidableEq

namespace Path

variable {Name : Type u}

/-- The path of these parts. A separator at the end needs a part before it. -/
def of (absolute : Bool) (parts : List (Part Name)) (trailing : Bool) : Path Name where
  absolute := absolute
  parts := parts
  trailing := trailing && !parts.isEmpty
  proper h := by
    rintro rfl
    simp at h

/-- The path along these names from the root. -/
def ofNames (names : List Name) : Path Name := of true (names.map .name) false

/-- The path of this one part. -/
def ofPart (part : Part Name) : Path Name := of false [part] false

@[simp]
theorem of_absolute (absolute trailing : Bool) (parts : List (Part Name)) :
    (of absolute parts trailing).absolute = absolute := rfl

@[simp]
theorem of_parts (absolute trailing : Bool) (parts : List (Part Name)) :
    (of absolute parts trailing).parts = parts := rfl

@[simp]
theorem of_trailing_false (absolute : Bool) (parts : List (Part Name)) :
    (of absolute parts false).trailing = false := rfl

/-- `p.empty()`. -/
def isEmpty (p : Path Name) : Bool := !p.absolute && p.parts.isEmpty

/-- `p.filename().empty()`. -/
def endsEmpty (p : Path Name) : Bool := p.parts.isEmpty || p.trailing

/-- `p.filename()`. -/
def filename? (p : Path Name) : Option (Part Name) := if p.trailing then none else p.parts.getLast?

/-- The parts of a relative path, with an empty one after a separator at the end. -/
def elements (p : Path Name) : List (Option (Part Name)) :=
  p.parts.map some ++ if p.trailing then [none] else []

/-- The path of these elements. -/
def ofElements (absolute : Bool) (elements : List (Option (Part Name))) : Path Name :=
  of absolute (elements.filterMap id) (elements.getLast?.any Option.isNone)

/-! ## Operations -/

/-- `p / q`. -/
def append (p q : Path Name) : Path Name :=
  if q.absolute then q
  else if q.parts.isEmpty then of p.absolute p.parts true
  else of p.absolute (p.parts ++ q.parts) q.trailing

instance : Div (Path Name) := ⟨append⟩

/-- `p /= element`, for an element of a relative path. -/
def appendElement (p : Path Name) : Option (Part Name) → Path Name
  | some part => p / ofPart part
  | none => of p.absolute p.parts true

/-- `p.parent_path()`. -/
def parent (p : Path Name) : Path Name :=
  if p.trailing then of p.absolute p.parts false else of p.absolute p.parts.dropLast false

/-- Cancel `.` and `..`, with what is left so far in reverse. -/
def cancel (absolute : Bool) : List (Part Name) → List (Part Name) → List (Part Name)
  | left, [] => left.reverse
  | left, .here :: rest => cancel absolute left rest
  | .name _ :: left, .up :: rest => cancel absolute left rest
  | left, .up :: rest =>
      -- `..` in the root directory leads nowhere, otherwise it stays.
      if absolute && left.isEmpty then cancel absolute left rest
      else cancel absolute (.up :: left) rest
  | left, .name name :: rest => cancel absolute (.name name :: left) rest

/-- `p.lexically_normal()`. -/
def normal (p : Path Name) : Path Name :=
  if p.isEmpty then p
  else
    let parts := cancel p.absolute [] p.parts
    if !p.absolute && parts.isEmpty then ofPart .here
    else
      of p.absolute parts
        ((p.trailing || p.parts.getLast?.any fun last => match last with
            | .name _ => false
            | _ => true) &&
          parts.getLast?.all fun last => match last with
            | .up => false
            | _ => true)

/-- Drop what two lists have in common at their beginning. -/
def mismatch {α : Type u} [DecidableEq α] : List α → List α → List α × List α
  | a :: left, b :: right => if a = b then mismatch left right else (a :: left, b :: right)
  | left, right => (left, right)

/-- How many directories the elements lead down. -/
def depth : List (Option (Part Name)) → ℤ
  | [] => 0
  | some (.name _) :: rest => depth rest + 1
  | some .up :: rest => depth rest - 1
  | _ :: rest => depth rest

/-- `p.lexically_relative(base)`. -/
def relativeTo [DecidableEq Name] (p base : Path Name) : Path Name :=
  if p.absolute ≠ base.absolute then of false [] false
  else
    let rest := mismatch p.elements base.elements
    let up := depth rest.2
    if rest = ([], []) then ofPart .here
    else if up < 0 then of false [] false
    else if up = 0 ∧ (rest.1 = [] ∨ rest.1.head? = some none) then ofPart .here
    else rest.1.foldl appendElement (of false (List.replicate up.toNat .up) false)

/-! ## Paths along names -/

@[simp]
theorem ofNames_parts (names : List Name) : (ofNames names).parts = names.map .name := rfl

@[simp]
theorem ofNames_trailing (names : List Name) : (ofNames names).trailing = false := rfl

@[simp]
theorem ofNames_absolute (names : List Name) : (ofNames names).absolute = true := rfl

theorem div_eq (p q : Path Name) : p / q = append p q := rfl

theorem foldl_appendElement_absolute (p : Path Name) (elements : List (Option (Part Name))) :
    (elements.foldl appendElement p).absolute = p.absolute := by
  induction elements generalizing p with
  | nil => rfl
  | cons element elements ih =>
      rw [List.foldl_cons, ih]
      cases element with
      | none => rfl
      | some part => simp [appendElement, div_eq, append, ofPart]

theorem ofNames_div_ofPart (names : List Name) (name : Name) :
    ofNames names / ofPart (.name name) = ofNames (names ++ [name]) := by
  simp [div_eq, append, ofPart, ofNames]

theorem cancel_names (absolute : Bool) (left : List (Part Name)) (names : List Name) :
    cancel absolute left (names.map .name) = left.reverse ++ names.map .name := by
  induction names generalizing left with
  | nil => simp [cancel]
  | cons name names ih => simp [cancel, ih]

/-- What is left of a path from the root is names. -/
theorem exists_names_of_cancel (left : List Name) (parts : List (Part Name)) :
    ∃ names : List Name, cancel true (left.map .name) parts = names.map .name := by
  induction parts generalizing left with
  | nil => exact ⟨left.reverse, by simp [cancel]⟩
  | cons part parts ih =>
      cases part with
      | name name => exact ih (name :: left)
      | here => simpa only [cancel] using ih left
      | up =>
          cases left with
          | nil => simpa [cancel] using ih []
          | cons last left => simpa only [List.map_cons, cancel] using ih left

end Path

/-! ## Texts -/

/-- A text, byte by byte. -/
abbrev Text := List Char

/-- A name that a directory entry can have. -/
structure Filename where
  text : Text
  nonempty : text ≠ []
  noSeparator : '/' ∉ text
  notHere : text ≠ ['.']
  notUp : text ≠ ['.', '.']
  deriving DecidableEq

/-- The name with this text, if there can be one. -/
def Filename.ofText? (text : Text) : Option Filename :=
  if h : text ≠ [] ∧ '/' ∉ text ∧ text ≠ ['.'] ∧ text ≠ ['.', '.'] then
    some ⟨text, h.1, h.2.1, h.2.2.1, h.2.2.2⟩
  else none

/-- What stands between two separators. -/
def Part.ofText? (text : Text) : Option (Part Filename) :=
  if text = ['.'] then some .here
  else if text = ['.', '.'] then some .up
  else (Filename.ofText? text).map .name

def Part.text : Part Filename → Text
  | .name filename => filename.text
  | .here => ['.']
  | .up => ['.', '.']

namespace Path

/-- The path that a text stands for. -/
def parse (text : Text) : Path Filename :=
  of (text.head?.any (· == '/')) ((text.splitOn '/').filterMap Part.ofText?)
    (text.getLast?.any (· == '/'))

/-- `p.generic_string()`, of a path with no doubled separators. -/
def render (p : Path Filename) : Text :=
  (if p.absolute then ['/'] else []) ++ List.intercalate ['/'] (p.parts.map Part.text) ++
    if p.trailing then ['/'] else []

end Path

theorem Filename.ofText?_text (name : Filename) : Filename.ofText? name.text = some name := by
  rw [Filename.ofText?, dif_pos ⟨name.nonempty, name.noSeparator, name.notHere, name.notUp⟩]

@[simp]
theorem Part.ofText?_nil : Part.ofText? [] = none := by
  simp [Part.ofText?, Filename.ofText?]

@[simp]
theorem Part.ofText?_text (part : Part Filename) : Part.ofText? part.text = some part := by
  cases part with
  | name filename =>
      rw [Part.ofText?, Part.text, if_neg filename.notHere, if_neg filename.notUp,
        Filename.ofText?_text, Option.map_some]
  | here => rfl
  | up => rfl

theorem Part.separator_notMem_text (part : Part Filename) : '/' ∉ part.text := by
  cases part with
  | name filename => exact filename.noSeparator
  | here => decide
  | up => decide

theorem Part.text_ne_nil (part : Part Filename) : part.text ≠ [] := by
  cases part with
  | name filename => exact filename.nonempty
  | here => decide
  | up => decide

namespace Path

/-- The parts of a text with a separator in it. -/
theorem parse_append_parts (left right : Text) :
    (parse (left ++ '/' :: right)).parts = (parse left).parts ++ (parse right).parts := by
  simp [parse, List.splitOn_append_cons_self]

theorem parse_append_absolute {left : Text} (hleft : left ≠ []) (right : Text) :
    (parse (left ++ right)).absolute = (parse left).absolute := by
  cases left with
  | nil => exact absurd rfl hleft
  | cons first left => rfl

/-- The parts written with separators between them do not begin or end in one. -/
theorem intercalate_ends (parts : List (Part Filename)) (hparts : parts ≠ []) :
    ∃ first last, List.head? (List.intercalate ['/'] (parts.map Part.text)) = some first ∧
      List.getLast? (List.intercalate ['/'] (parts.map Part.text)) = some last ∧
      first ≠ '/' ∧ last ≠ '/' := by
  induction parts with
  | nil => exact absurd rfl hparts
  | cons part parts ih =>
      have hne := part.text_ne_nil
      have hmem := part.separator_notMem_text
      have hfirst : part.text.head hne ≠ '/' := fun h => hmem (h ▸ List.head_mem hne)
      by_cases hrest : parts = []
      · subst hrest
        have hlast : part.text.getLast hne ≠ '/' := fun h => hmem (h ▸ List.getLast_mem hne)
        exact ⟨_, _, by simpa using List.head?_eq_some_head hne,
          by simpa using List.getLast?_eq_some_getLast hne, hfirst, hlast⟩
      · obtain ⟨_, last, -, hlast, -, hne'⟩ := ih hrest
        refine ⟨part.text.head hne, last, ?_, ?_, hfirst, hne'⟩
        · rw [List.map_cons, List.intercalate_cons_of_ne_nil (by simpa using hrest),
            List.append_assoc, List.head?_append, List.head?_eq_some_head hne, Option.some_or]
        · rw [List.map_cons, List.intercalate_cons_of_ne_nil (by simpa using hrest),
            List.getLast?_append, hlast, Option.some_or]

theorem parse_intercalate_parts (parts : List (Part Filename)) :
    (parse (List.intercalate ['/'] (parts.map Part.text))).parts = parts := by
  simp only [parse, of_parts]
  by_cases hparts : parts = []
  · subst hparts
    simp
  · rw [List.splitOn_intercalate]
    · simp [List.filterMap_map]
    · intro text hmem
      obtain ⟨part, -, rfl⟩ := List.mem_map.mp hmem
      exact part.separator_notMem_text
    · simpa using hparts

/-- A path is what its text stands for. -/
theorem parse_render (p : Path Filename) : parse (render p) = p := by
  have hparts : (parse (render p)).parts = p.parts := by
    have hbody := parse_intercalate_parts p.parts
    simp only [parse, of_parts, render] at hbody ⊢
    cases p.absolute <;> cases p.trailing <;>
      simp [List.splitOn_append_cons_self, List.splitOn_cons_eq_if_modifyHead, hbody]
  have habsolute : (parse (render p)).absolute = p.absolute := by
    simp only [parse, of_absolute, render]
    cases habs : p.absolute with
    | true => simp
    | false =>
        by_cases hempty : p.parts = []
        · have hlast : p.trailing = false := by
            simpa [hempty] using mt p.proper
          simp [hempty, hlast]
        · obtain ⟨first, -, hfirst, -, hne, -⟩ := intercalate_ends p.parts hempty
          simp [hfirst, hne]
  have htrailing : (parse (render p)).trailing = p.trailing := by
    have hset : (parse (render p)).trailing =
        ((render p).getLast?.any (· == '/') && !(parse (render p)).parts.isEmpty) := rfl
    rw [hset, hparts]
    by_cases hempty : p.parts = []
    · have hlast : p.trailing = false := by
        simpa [hempty] using mt p.proper
      simp [hempty, hlast]
    · obtain ⟨-, last, -, hlast, -, hne⟩ := intercalate_ends p.parts hempty
      cases htrail : p.trailing <;> simp [render, hempty, htrail, hlast, hne]
  obtain ⟨absolute, parts, trailing, proper⟩ := p
  cases hparse : parse (render ⟨absolute, parts, trailing, proper⟩)
  simp_all

end Path

end ManicRoom.Foundation
