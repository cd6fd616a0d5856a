/-
# Making a full path

`CreateFullPath` of `file_util.cpp` looks whether a path exists and otherwise makes the
directories that lead to it, one separator after the other.
-/

import Mathlib.Data.List.DropRight
import ManicRoom.Foundation.FileTree

namespace ManicRoom.Storage

open ManicRoom.Foundation

universe u

variable {Content : Type u} (t : FileTree Filename Content) (here : List Filename)

/-- `StripTailDirSlashes` -/
def stripTailDirSlashes (text : Text) : Text :=
  if text.length ≤ 1 then text else text.rdropWhile (· == '/')

/-- `Exists(filename)` -/
def pathExists (text : Text) : Bool :=
  match t.stat here (.parse (stripTailDirSlashes text)) with
  | .ok (some _) => true
  | _ => false

/-- `IsDirectory(filename)` -/
def isDirectory (text : Text) : Bool :=
  match t.stat here (.parse (stripTailDirSlashes text)) with
  | .ok (some .directory) => true
  | _ => false

/-- `CreateDir(path)`, which is content with anything that is there already. -/
def createDir (text : Text) : Option (FileTree Filename Content) :=
  match t.mkdir here (.parse text) with
  | some made => some made
  | none =>
      match t.locate false here (.parse text) with
      | .ok place => if t.node place = none then none else some t
      | .error _ => none

/-- The loop of `CreateFullPath`, with what it has read of the text. -/
def createLeading (here : List Filename) :
    FileTree Filename Content → ℕ → Text → Text → FileTree Filename Content × Bool
  | t, _, _, [] => (t, true)
  | t, panicCounter, done, c :: rest =>
      if c = '/' then
        let subPath := done ++ [c]
        match if isDirectory t here subPath then some t else createDir t here subPath with
        | none => (t, false)
        | some made =>
            if panicCounter ≤ 1 then (made, false)
            else createLeading here made (panicCounter - 1) subPath rest
      else createLeading here t panicCounter (done ++ [c]) rest

/-- `CreateFullPath(fullPath)`. Where directories are refused it fails unless the path exists. -/
def createFullPath (refused : Bool) (text : Text) : FileTree Filename Content × Bool :=
  if pathExists t here text then (t, true)
  else if refused then (t, false)
  else createLeading here t 100 [] text

end ManicRoom.Storage
