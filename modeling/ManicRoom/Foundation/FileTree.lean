/-
# File systems

A file system maps paths from its root to directories, files and symbolic links, and what
exists lies in a directory. The kernel resolves a path part by part and follows the links
it meets, a bounded number of times. On top of that come the operations that programs use:
looking a path up, making directories, writing files, removing a subtree and renaming one
without replacing anything. Names and contents are parameters; nothing here refers to a
particular program.
-/

import ManicRoom.Foundation.Path

namespace ManicRoom.Foundation

universe u v

/-- What a path may lead to. -/
inductive Node (Name : Type u) (Content : Type v)
  | directory
  | file (content : Content)
  | link (target : Path Name)
  deriving DecidableEq

/-- Why a path leads nowhere. -/
inductive PathError
  /-- `ENOENT` or `ENOTDIR`. -/
  | notFound
  /-- `ELOOP`. -/
  | loop
  deriving DecidableEq, Repr

/-- A file system. A path is the list of names on the way from the root. -/
structure FileTree (Name : Type u) (Content : Type v) where
  node : List Name → Option (Node Name Content)
  root : node [] = some .directory
  /-- What exists lies in a directory. -/
  parent : ∀ path name, node (path ++ [name]) ≠ none → node path = some .directory

/-- There is nothing but the root. -/
instance {Name : Type u} {Content : Type v} : Inhabited (FileTree Name Content) where
  default :=
    { node := fun path => if path.isEmpty then some .directory else none
      root := rfl
      parent := fun path name h => by simp at h }

/-- Something that can be put into a directory as a whole. -/
structure Subtree (Name : Type u) (Content : Type v) where
  node : List Name → Option (Node Name Content)
  root : node [] ≠ none
  parent : ∀ path name, node (path ++ [name]) ≠ none → node path = some .directory

instance {Name : Type u} {Content : Type v} :
    (node : Option (Node Name Content)) → Decidable (node = some .directory)
  | some .directory => isTrue rfl
  | some (.file _) => isFalse nofun
  | some (.link _) => isFalse nofun
  | none => isFalse nofun

namespace FileTree

variable {Name : Type u} {Content : Type v} (t : FileTree Name Content)

/-! ## Resolution -/

/-- Walk along the parts of a path, up to the first link that has to be followed. -/
def walk (followLast : Bool)
    (follow : List Name → Path Name → List (Part Name) → Except PathError (List Name)) :
    List Name → List (Part Name) → Except PathError (List Name)
  | here, [] => .ok here
  | here, .here :: rest => walk followLast follow here rest
  | here, .up :: rest => walk followLast follow here.dropLast rest
  | here, .name name :: rest =>
      match t.node (here ++ [name]) with
      | some .directory => walk followLast follow (here ++ [name]) rest
      | some (.link target) =>
          if rest.isEmpty ∧ followLast = false then .ok (here ++ [name])
          else follow here target rest
      -- Only the last part may be missing, or a file.
      | _ => if rest.isEmpty then .ok (here ++ [name]) else .error .notFound

/-- Where the parts lead from a directory, following at most `links` links; the last part
may be one that does not exist. -/
def resolve (followLast : Bool) :
    ℕ → List Name → List (Part Name) → Except PathError (List Name)
  | 0 => t.walk followLast fun _ _ _ => .error .loop
  | links + 1 => t.walk followLast fun here target rest =>
      resolve followLast links (if target.absolute then [] else here) (target.parts ++ rest)

/-- `MAXSYMLINKS`. -/
def maxLinks : ℕ := 32

/-- Where a path leads, seen from the directory `here`. -/
def locate (followLast : Bool) (here : List Name) (path : Path Name) :
    Except PathError (List Name) :=
  if path.isEmpty then .error .notFound
  else
    t.resolve (followLast || path.trailing) maxLinks (if path.absolute then [] else here) path.parts

/-- What is there, if there is anything. A separator at the end asks for a directory. -/
def look (followLast : Bool) (here : List Name) (path : Path Name) :
    Except PathError (Option (Node Name Content)) :=
  match t.locate followLast here path with
  | .ok place =>
      .ok (if path.trailing = true ∧ ¬ t.node place = some .directory then none else t.node place)
  | .error .notFound => .ok none
  | .error .loop => .error .loop

/-- `stat`. -/
def stat (here : List Name) (path : Path Name) : Except PathError (Option (Node Name Content)) :=
  t.look true here path

/-- `lstat`. -/
def lstat (here : List Name) (path : Path Name) : Except PathError (Option (Node Name Content)) :=
  t.look false here path

/-- `weakly_canonical`, with at most so many leading elements that exist. -/
def canonicalFrom (here : List Name) (path : Path Name) : ℕ → Except PathError (Path Name)
  | 0 =>
      .ok (path.elements.foldl Path.appendElement
        (Path.ofNames (if path.absolute then [] else here))).normal
  | count + 1 =>
      let leading := Path.ofElements path.absolute (path.elements.take (count + 1))
      match t.look true here leading, t.locate true here leading with
      | .ok (some _), .ok place =>
          .ok ((path.elements.drop (count + 1)).foldl Path.appendElement
            (Path.ofNames place)).normal
      | .error error, _ => .error error
      | _, _ => canonicalFrom here path count

/-- `weakly_canonical`: follow the leading elements that exist and append the others. -/
def weaklyCanonical (here : List Name) (path : Path Name) : Except PathError (Path Name) :=
  t.canonicalFrom here path path.elements.length

/-! ## Changes -/

variable [DecidableEq Name]

/-- Put a node into a directory, where there is none or a file. -/
def insert (place : List Name) (node : Node Name Content) (hplace : place ≠ [])
    (hparent : t.node place.dropLast = some .directory)
    (hfree : t.node place ≠ some .directory) : FileTree Name Content where
  node other := if other = place then some node else t.node other
  root := by
    rw [if_neg hplace.symm]
    exact t.root
  parent other name h := by
    by_cases hsame : other ++ [name] = place
    · have hother : other = place.dropLast := by rw [← hsame, List.dropLast_concat]
      rw [if_neg, hother]
      · exact hparent
      · intro h
        simp [h] at hsame
    · rw [if_neg hsame] at h
      have hother := t.parent other name h
      rw [if_neg]
      · exact hother
      · rintro rfl
        exact hfree hother

/-- Put something where there is nothing. -/
def plant (place : List Name) (subtree : Subtree Name Content) (hplace : place ≠ [])
    (hparent : t.node place.dropLast = some .directory) : FileTree Name Content where
  node other := if place <+: other then subtree.node (other.drop place.length) else t.node other
  root := by
    rw [if_neg (by simpa using hplace)]
    exact t.root
  parent other name h := by
    by_cases hbelow : place <+: other
    · have hdrop : (other ++ [name]).drop place.length = other.drop place.length ++ [name] :=
        List.drop_append_of_le_length hbelow.length_le
      rw [if_pos (hbelow.trans (List.prefix_append other [name])), hdrop] at h
      rw [if_pos hbelow]
      exact subtree.parent _ name h
    · rw [if_neg hbelow]
      by_cases hat : place <+: other ++ [name]
      · -- `other` is the directory of the place.
        have heq : place = other ++ [name] := by
          rcases List.prefix_concat_iff.mp hat with heq | hprefix
          · exact heq
          · exact absurd hprefix hbelow
        have hother : other = place.dropLast := by rw [heq, List.dropLast_concat]
        rw [hother]
        exact hparent
      · rw [if_neg hat] at h
        exact t.parent other name h

/-- Remove everything at and below a place. -/
def remove (place : List Name) (hplace : place ≠ []) : FileTree Name Content where
  node other := if place <+: other then none else t.node other
  root := by
    rw [if_neg (by simpa using hplace)]
    exact t.root
  parent other name h := by
    have hkept : ¬ place <+: other ++ [name] := fun hprefix => h (if_pos hprefix)
    rw [if_neg hkept] at h
    rw [if_neg fun hbelow => hkept (hbelow.trans (List.prefix_append other [name]))]
    exact t.parent other name h

/-- Move everything at and below a place to one where there is nothing. -/
def move (source target : List Name) (hsource : source ≠ []) (htarget : target ≠ [])
    (hparent : t.node target.dropLast = some .directory) (hapart : ¬ source <+: target) :
    FileTree Name Content where
  node other :=
    if target <+: other then t.node (source ++ other.drop target.length)
    else if source <+: other then none
    else t.node other
  root := by
    rw [if_neg (by simpa using htarget), if_neg (by simpa using hsource)]
    exact t.root
  parent other name h := by
    by_cases hbelow : target <+: other
    · have hdrop : (other ++ [name]).drop target.length = other.drop target.length ++ [name] :=
        List.drop_append_of_le_length hbelow.length_le
      rw [if_pos (hbelow.trans (List.prefix_append other [name])), hdrop,
        ← List.append_assoc] at h
      rw [if_pos hbelow]
      exact t.parent _ name h
    · rw [if_neg hbelow]
      by_cases hat : target <+: other ++ [name]
      · -- `other` is the directory of the target.
        have heq : target = other ++ [name] := by
          rcases List.prefix_concat_iff.mp hat with heq | hprefix
          · exact heq
          · exact absurd hprefix hbelow
        have hother : other = target.dropLast := by rw [heq, List.dropLast_concat]
        rw [if_neg, hother]
        · exact hparent
        · intro hprefix
          exact hapart (heq ▸ hprefix.trans (List.prefix_append other [name]))
      · rw [if_neg hat] at h
        by_cases hmoved : source <+: other ++ [name]
        · exact absurd (if_pos hmoved) h
        · rw [if_neg hmoved] at h
          rw [if_neg fun hbelow => hmoved (hbelow.trans (List.prefix_append other [name]))]
          exact t.parent other name h

/-- Put a node at a place, if that is possible. -/
def put (place : List Name) (node : Node Name Content) : Option (FileTree Name Content) :=
  if h : place ≠ [] ∧ t.node place.dropLast = some .directory ∧
      ¬ t.node place = some .directory then
    some (t.insert place node h.1 h.2.1 h.2.2)
  else none

/-- Put something at a place, if there is nothing yet. -/
def plant? (place : List Name) (subtree : Subtree Name Content) : Option (FileTree Name Content) :=
  if h : place ≠ [] ∧ t.node place.dropLast = some .directory ∧ t.node place = none then
    some (t.plant place subtree h.1 h.2.1)
  else none

/-! ## Operations -/

/-- `mkdir`. -/
def mkdir (here : List Name) (path : Path Name) : Option (FileTree Name Content) :=
  match t.locate false here path with
  | .error _ => none
  | .ok place => if t.node place = none then t.put place .directory else none

/-- `create_directories`, with the parts in `done` there already: what has been made, and
whether it succeeds. It fails at the latest where a limit for new directories is reached. -/
def createDirectories (here : List Name) (absolute : Bool) (t : FileTree Name Content)
    (limit : Option ℕ) (done : List (Part Name)) :
    List (Part Name) → FileTree Name Content × Bool
  | [] => (t, true)
  | part :: rest =>
      let leading := Path.of absolute (done ++ [part]) false
      match t.stat here leading with
      | .ok (some .directory) => createDirectories here absolute t limit (done ++ [part]) rest
      | .ok none =>
          if limit = some 0 then (t, false)
          else
            match t.mkdir here leading with
            | some made =>
                createDirectories here absolute made (limit.map (· - 1)) (done ++ [part]) rest
            | none => (t, false)
      | _ => (t, false)

/-- The content of a file. -/
def readFile (here : List Name) (path : Path Name) : Option Content :=
  match t.stat here path with
  | .ok (some (.file content)) => some content
  | _ => none

/-- Write a file, which may exist. -/
def writeFile (here : List Name) (path : Path Name) (content : Content) :
    Option (FileTree Name Content) :=
  match t.locate true here path with
  | .error _ => none
  | .ok place => if path.trailing then none else t.put place (.file content)

/-- `remove_all`. -/
def removeAll (here : List Name) (path : Path Name) : FileTree Name Content :=
  match t.locate false here path with
  | .error _ => t
  | .ok place => if h : place ≠ [] then t.remove place h else t

/-- `rename` that replaces nothing. -/
def renameExclusive (here : List Name) (source target : Path Name) :
    Option (FileTree Name Content) :=
  match t.locate false here source, t.locate false here target with
  | .ok source, .ok target =>
      if h : source ≠ [] ∧ target ≠ [] ∧ t.node target.dropLast = some .directory ∧
          ¬ source <+: target ∧ t.node target = none ∧ ¬ t.node source = none then
        some (t.move source target h.1 h.2.1 h.2.2.1 h.2.2.2.1)
      else none
  | _, _ => none

end FileTree

end ManicRoom.Foundation
