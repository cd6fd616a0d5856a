/-
# Deleting directories

`DeleteDirRecursively` goes into what `IsDirectory` takes for a directory, also through links, and
deletes the rest. It ends where the nesting is too deep or something cannot be deleted, and what
`DeleteDir` says about the directory itself it does not look at.
-/

import ManicRoom.Storage.Directories

namespace ManicRoom.Storage

open ManicRoom.Foundation

universe u

variable {Content : Type u}

/-- `Delete(filepath)` -/
def delete (os : Os Content) (here : List Filename) (t : FileTree Filename Content)
    (filepath : Text) : FileTree Filename Content × Bool :=
  if !pathExists t here filepath then (t, true)
  else if isDirectory t here filepath then (t, false)
  else
    match t.unlink os.refuses here (.parse filepath) with
    | some t' => (t', true)
    | none => (t, false)

/-- `DeleteDir(filename)` -/
def deleteDir (os : Os Content) (here : List Filename) (t : FileTree Filename Content)
    (filename : Text) : FileTree Filename Content × Bool :=
  if !isDirectory t here filename then (t, false)
  else
    match t.rmdir os.names os.refuses here (.parse filename) with
    | some t' => (t', true)
    | none => (t, false)

/-- The callback of `DeleteDirRecursively`, with what it does with a directory unless the nesting
is too deep. -/
def deleteEntry (os : Os Content) (here : List Filename)
    (nested : Option (FileTree Filename Content → Text → FileTree Filename Content × Bool))
    (directory : Text) (t : FileTree Filename Content) (virtualName : Text) :
    FileTree Filename Content × Option ℕ :=
  let newPath := directory ++ '/' :: virtualName
  let deleted :=
    if isDirectory t here newPath then
      match nested with
      | none => (t, false)
      | some nested => nested t newPath
    else delete os here t newPath
  (deleted.1, if deleted.2 then some 0 else none)

/-- The body of `DeleteDirRecursively`. -/
def deleteIn (os : Os Content) (here : List Filename)
    (nested : Option (FileTree Filename Content → Text → FileTree Filename Content × Bool))
    (t : FileTree Filename Content) (directory : Text) : FileTree Filename Content × Bool :=
  match foreachDirectoryEntry (listDirectoryEntries os here t directory)
      (deleteEntry os here nested directory) t with
  | (t', none) => (t', false)
  | (t', some _) => ((deleteDir os here t' directory).1, true)

/-- `DeleteDirRecursively(directory, recursion)` -/
def deleteDirRecursively (os : Os Content) (here : List Filename) :
    ℕ → FileTree Filename Content → Text → FileTree Filename Content × Bool
  | 0 => deleteIn os here none
  | recursion + 1 => deleteIn os here (some (deleteDirRecursively os here recursion))

/-- What `DeleteDirRecursively` does with a directory in its directory. -/
def nestedDeletion (os : Os Content) (here : List Filename) :
    ℕ → Option (FileTree Filename Content → Text → FileTree Filename Content × Bool)
  | 0 => none
  | recursion + 1 => some (deleteDirRecursively os here recursion)

theorem deleteDirRecursively_eq (os : Os Content) (here : List Filename) (recursion : ℕ) :
    deleteDirRecursively os here recursion =
      deleteIn os here (nestedDeletion os here recursion) := by
  cases recursion <;> rfl

variable {os : Os Content} {base t t' : FileTree Filename Content}
  {here place root : List Filename} {directory : Text} {recursion : ℕ}
  {nested : Option (FileTree Filename Content → Text → FileTree Filename Content × Bool)}

/-! ## Nothing is added -/

/-- `Delete` leaves the file system as it is or removes what is there. -/
theorem delete_cases (os : Os Content) (here : List Filename) (t : FileTree Filename Content)
    (filepath : Text) :
    (delete os here t filepath).1 = t ∨
      t.unlink os.refuses here (.parse filepath) = some (delete os here t filepath).1 := by
  unfold delete
  split
  · exact .inl rfl
  · split
    · exact .inl rfl
    · split
      · next heq => exact .inr heq
      · exact .inl rfl

theorem deleteDir_cases (os : Os Content) (here : List Filename) (t : FileTree Filename Content)
    (filename : Text) :
    (deleteDir os here t filename).1 = t ∨
      t.rmdir os.names os.refuses here (.parse filename) =
        some (deleteDir os here t filename).1 := by
  unfold deleteDir
  split
  · exact .inl rfl
  · split
    · next heq => exact .inr heq
    · exact .inl rfl

theorem keeps_delete (os : Os Content) (here : List Filename) (t : FileTree Filename Content)
    (filepath : Text) : (delete os here t filepath).1.Keeps t := by
  rcases delete_cases os here t filepath with hsame | hunlink
  · rw [hsame]
    exact .refl t
  · obtain ⟨place, -, -, -, hwithout⟩ := FileTree.unlink_eq_some hunlink
    exact hwithout.keeps

theorem keeps_deleteDir (os : Os Content) (here : List Filename) (t : FileTree Filename Content)
    (filename : Text) : (deleteDir os here t filename).1.Keeps t := by
  rcases deleteDir_cases os here t filename with hsame | hrmdir
  · rw [hsame]
    exact .refl t
  · obtain ⟨place, -, -, -, hwithout⟩ := FileTree.rmdir_eq_some hrmdir
    exact hwithout.keeps

theorem keeps_deleteEntry
    (hnested : ∀ f, nested = some f → ∀ t directory, (f t directory).1.Keeps t)
    (directory virtualName : Text) (t : FileTree Filename Content) :
    (deleteEntry os here nested directory t virtualName).1.Keeps t := by
  simp only [deleteEntry]
  split
  · cases hf : nested with
    | none => exact .refl t
    | some f => exact hnested f hf t _
  · exact keeps_delete os here t _

/-- What holds after all entries and the directory itself have been deleted. -/
theorem deleteIn_induction {P : FileTree Filename Content → Prop} (h : P t)
    (hentry : ∀ entries, listDirectoryEntries os here t directory = some entries → ∀ s,
      ∀ text ∈ entries, text ≠ ['.'] → text ≠ ['.', '.'] → P s →
        P (deleteEntry os here nested directory s text).1)
    (hlast : ∀ s, P s → P (deleteDir os here s directory).1) :
    P (deleteIn os here nested t directory).1 := by
  unfold deleteIn foreachDirectoryEntry
  cases hentries : listDirectoryEntries os here t directory with
  | none => exact h
  | some entries =>
      have hloop : P (callEach (deleteEntry os here nested directory) entries t 0).1 :=
        callEach_induction (hentry entries hentries) h
      simp only
      split
      · next heq =>
        rw [heq] at hloop
        exact hloop
      · next heq =>
        rw [heq] at hloop
        exact hlast _ hloop

theorem keeps_deleteIn
    (hnested : ∀ f, nested = some f → ∀ t directory, (f t directory).1.Keeps t)
    (t : FileTree Filename Content) (directory : Text) :
    (deleteIn os here nested t directory).1.Keeps t := by
  apply deleteIn_induction (P := fun s => s.Keeps t) (.refl t)
  · intro entries _ s text _ _ _ hs
    exact (keeps_deleteEntry hnested directory text s).trans hs
  · intro s hs
    exact (keeps_deleteDir os here s directory).trans hs

theorem keeps_deleteDirRecursively (os : Os Content) (here : List Filename) (recursion : ℕ)
    (t : FileTree Filename Content) (directory : Text) :
    (deleteDirRecursively os here recursion t directory).1.Keeps t := by
  induction recursion generalizing t directory with
  | zero => exact keeps_deleteIn (fun f hf => by cases hf) t directory
  | succ recursion ih =>
      apply keeps_deleteIn
      intro f hf
      cases hf
      exact ih

theorem keeps_nestedDeletion (os : Os Content) (here : List Filename) (recursion : ℕ) :
    ∀ f, nestedDeletion os here recursion = some f →
      ∀ t directory, (f t directory).1.Keeps t := by
  intro f hf
  cases recursion with
  | zero => cases hf
  | succ recursion =>
      cases hf
      exact keeps_deleteDirRecursively os here recursion

/-! ## What can be deleted -/

/-- An entry of a directory that names and links lead to. -/
def IsEntry (t : FileTree Filename Content) (root place : List Filename) : Prop :=
  ∃ directory name, t.Reaches root directory ∧ place = directory ++ [name]

/-- The text leads into what is reached, and what it names itself is an entry or the root. -/
structure Aimed (base : FileTree Filename Content) (here root : List Filename)
    (t : FileTree Filename Content) (directory : Text) : Prop where
  keeps : t.Keeps base
  reaches : ∀ place, t.locate true here (.parse directory) = .ok place →
    t.node place = some .directory → base.Reaches root place
  names : ∀ place, t.locate false here (.parse directory) = .ok place →
    t.node place = some .directory → place = root ∨ IsEntry base root place

/-- Only entries and the root are missing. -/
structure OnlyMisses (base : FileTree Filename Content) (root : List Filename)
    (t t' : FileTree Filename Content) : Prop where
  keeps : t'.Keeps t
  gone : ∀ place, t.node place ≠ none → t'.node place = none →
    place = root ∨ IsEntry base root place

theorem OnlyMisses.refl (base t : FileTree Filename Content) (root : List Filename) :
    OnlyMisses base root t t where
  keeps := .refl t
  gone _ hsome hnone := absurd hnone hsome

theorem OnlyMisses.trans {t'' : FileTree Filename Content} (h : OnlyMisses base root t t')
    (h' : OnlyMisses base root t' t'') : OnlyMisses base root t t'' where
  keeps := h'.keeps.trans h.keeps
  gone place hsome hnone := by
    by_cases hmiddle : t'.node place = none
    · exact h.gone place hsome hmiddle
    · exact h'.gone place hmiddle hnone

theorem onlyMisses_of_without (h : t.Without t' place)
    (hempty : ∀ name, t.node (place ++ [name]) = none)
    (hplace : place = root ∨ IsEntry base root place) : OnlyMisses base root t t' where
  keeps := h.keeps
  gone other hsome hnone := by
    rw [h.eq_of_gone hempty hsome hnone]
    exact hplace

/-- `DeleteDir` deletes at most what its text names. -/
theorem onlyMisses_deleteDir (hlawful : os.Lawful base)
    (haimed : Aimed base here root t directory) :
    OnlyMisses base root t (deleteDir os here t directory).1 := by
  rcases deleteDir_cases os here t directory with hsame | hrmdir
  · rw [hsame]
    exact .refl base t root
  · obtain ⟨place, hlocate, hnode, hlisting, hwithout⟩ := FileTree.rmdir_eq_some hrmdir
    refine onlyMisses_of_without hwithout ?_ (haimed.names place hlocate hnode)
    intro name
    by_contra hsome
    have hmem := (hlawful.lists t haimed.keeps place name).mpr hsome
    rw [hlisting] at hmem
    cases hmem

/-- Each entry of a directory is deleted alone, or what it leads to is aimed at. -/
theorem onlyMisses_deleteEntry {left : ℕ} {name : Filename} {s : FileTree Filename Content}
    (hnested : ∀ f, nested = some f → ∀ t directory, Aimed base here root t directory →
      OnlyMisses base root t (f t directory).1)
    (hkeeps : t.Keeps base) (henters : Enters t here directory place left)
    (hreaches : base.Reaches root place) (hs : s.Keeps t) :
    OnlyMisses base root s (deleteEntry os here nested directory s name.text).1 := by
  have hentry : IsEntry base root (place ++ [name]) := ⟨place, name, hreaches, rfl⟩
  have hplace (q : List Filename)
      (hlocate : s.locate false here (.parse (entryText directory name)) = .ok q)
      (hsome : s.node q ≠ none) : q = place ++ [name] := by
    have hbefore := locate_of_keeps hs hlocate hsome
    rw [henters.locate_entryText, FileTree.resolve_last] at hbefore
    exact (Except.ok.inj hbefore).symm
  have haimed : Aimed base here root s (entryText directory name) :=
    { keeps := hs.trans hkeeps
      reaches := by
        intro q hlocate hdirectory
        have hbefore := locate_of_keeps hs hlocate (by rw [hdirectory]; rintro ⟨⟩)
        rw [henters.locate_entryText] at hbefore
        have hnode := (hs.trans hkeeps) q _ hdirectory
        exact hreaches.entry (FileTree.resolve_keeps hkeeps hbefore (by
          rw [hs q _ hdirectory]
          rintro ⟨⟩)) hnode
      names := by
        intro q hlocate hdirectory
        rw [hplace q hlocate (by rw [hdirectory]; rintro ⟨⟩)]
        exact .inr hentry }
  simp only [deleteEntry]
  split
  · cases hf : nested with
    | none => exact .refl base s root
    | some f => exact hnested f hf s _ haimed
  · rcases delete_cases os here s (directory ++ '/' :: name.text) with hsame | hunlink
    · rw [hsame]
      exact .refl base s root
    · obtain ⟨q, hlocate, hsome, hnot, hwithout⟩ := FileTree.unlink_eq_some hunlink
      refine onlyMisses_of_without hwithout ?_ (.inr (hplace q hlocate hsome ▸ hentry))
      intro other
      exact FileTree.node_eq_none hnot (by simp)

theorem onlyMisses_deleteIn (hlawful : os.Lawful base)
    (hnested : ∀ f, nested = some f → ∀ t directory, Aimed base here root t directory →
      OnlyMisses base root t (f t directory).1)
    (haimed : Aimed base here root t directory) :
    OnlyMisses base root t (deleteIn os here nested t directory).1 := by
  apply deleteIn_induction (P := OnlyMisses base root t) (.refl base t root)
  · intro entries hentries s text htext hhere hup hs
    unfold listDirectoryEntries at hentries
    split at hentries
    · next q hlocate =>
      split at hentries
      · next hdirectory =>
        cases hentries
        obtain ⟨left, henters⟩ := exists_enters hlocate hdirectory
        obtain ⟨name, rfl⟩ : ∃ name : Filename, text = name.text := by
          rcases hlawful.texts t q text htext with h | h | h
          · exact absurd h hhere
          · exact absurd h hup
          · exact h
        exact hs.trans (onlyMisses_deleteEntry hnested haimed.keeps henters
          (haimed.reaches q hlocate hdirectory) hs.keeps)
      · cases hentries
    · cases hentries
  · intro s hs
    have haimed' : Aimed base here root s directory :=
      { keeps := hs.keeps.trans haimed.keeps
        reaches := by
          intro q hlocate hdirectory
          exact haimed.reaches q (locate_of_keeps hs.keeps hlocate (by rw [hdirectory]; rintro ⟨⟩))
            (hs.keeps q _ hdirectory)
        names := by
          intro q hlocate hdirectory
          exact haimed.names q (locate_of_keeps hs.keeps hlocate (by rw [hdirectory]; rintro ⟨⟩))
            (hs.keeps q _ hdirectory) }
    exact hs.trans (onlyMisses_deleteDir hlawful haimed')

theorem onlyMisses_deleteDirRecursively (hlawful : os.Lawful base) (recursion : ℕ)
    (haimed : Aimed base here root t directory) :
    OnlyMisses base root t (deleteDirRecursively os here recursion t directory).1 := by
  induction recursion generalizing t directory with
  | zero => exact onlyMisses_deleteIn hlawful (fun f hf => by cases hf) haimed
  | succ recursion ih =>
      apply onlyMisses_deleteIn hlawful _ haimed
      intro f hf
      cases hf
      intro t directory
      exact ih

/-- **What is deleted is entries of directories that names and links lead to**, from the directory
that the text leads to, and that directory itself. Everything else is left as it was, however the
deletion ends. -/
theorem isEntry_of_deleted (hlawful : os.Lawful t) (recursion : ℕ)
    (hplace : t.locate true here (.parse directory) = .ok place) {q : List Filename}
    (hchanged : (deleteDirRecursively os here recursion t directory).1.node q ≠ t.node q) :
    (deleteDirRecursively os here recursion t directory).1.node q = none ∧
      (q = place ∨ IsEntry t place q) := by
  have hkeeps := keeps_deleteDirRecursively os here recursion t directory
  have haimed : Aimed t here place t directory :=
    { keeps := .refl t
      reaches := by
        intro other hlocate _
        rw [hplace] at hlocate
        cases hlocate
        exact .refl
      names := by
        intro other hlocate hdirectory
        have hfollowed := locate_true_of_directory hlocate hdirectory
        rw [hplace] at hfollowed
        exact .inl (Except.ok.inj hfollowed).symm }
  cases hnode : (deleteDirRecursively os here recursion t directory).1.node q with
  | some node => exact absurd (hnode.trans (hkeeps q node hnode).symm) hchanged
  | none =>
      refine ⟨rfl, (onlyMisses_deleteDirRecursively hlawful recursion haimed).gone q ?_ hnode⟩
      intro hnone
      exact hchanged (hnode.trans hnone.symm)

/-! ### A file system of a few entries -/

/-- What these entries have at a path. -/
def entryAt (entries : List (List Filename × Node Filename ℕ)) (path : List Filename) :
    Option (Node Filename ℕ) :=
  if path = [] then some .directory
  else (entries.find? fun entry => entry.1 = path).map Prod.snd

theorem mem_of_entryAt {entries : List (List Filename × Node Filename ℕ)} {path : List Filename}
    {node : Node Filename ℕ} (hpath : path ≠ []) (h : entryAt entries path = some node) :
    (path, node) ∈ entries := by
  rw [entryAt, if_neg hpath] at h
  obtain ⟨entry, hfind, hnode⟩ := Option.map_eq_some_iff.mp h
  have hsame : entry.1 = path := by simpa using List.find?_some hfind
  have hmem := List.mem_of_find?_eq_some hfind
  rwa [← hsame, ← hnode]

/-- The file system with these entries, each of which lies in a directory. -/
def treeOf (entries : List (List Filename × Node Filename ℕ))
    (h : ∀ path ∈ entries.map Prod.fst, entryAt entries path.dropLast = some .directory) :
    FileTree Filename ℕ where
  node := entryAt entries
  root := rfl
  parent path name hsome := by
    obtain ⟨node, hnode⟩ := Option.ne_none_iff_exists'.mp hsome
    have hparent := h _ (List.mem_map_of_mem (mem_of_entryAt (by simp) hnode))
    rwa [List.dropLast_concat] at hparent

/-- A system that lists what is there under the names of these entries and refuses nothing. -/
def osOf (entries : List (List Filename × Node Filename ℕ)) : Os ℕ where
  readdir t place :=
    ['.'] :: ['.', '.'] :: ((entries.filterMap fun entry => entry.1.getLast?).filter fun name =>
      (t.node (place ++ [name])).isSome).map Filename.text
  refuses _ := false

theorem lawful_osOf (entries : List (List Filename × Node Filename ℕ))
    (h : ∀ path ∈ entries.map Prod.fst, entryAt entries path.dropLast = some .directory) :
    (osOf entries).Lawful (treeOf entries h) where
  lists smaller hkeeps place name := by
    rw [Os.mem_names_iff]
    constructor
    · intro hmem hnone
      rcases List.mem_cons.mp hmem with hhere | hmem
      · exact name.notHere hhere
      rcases List.mem_cons.mp hmem with hup | hmem
      · exact name.notUp hup
      · obtain ⟨other, hother, htext⟩ := List.mem_map.mp hmem
        obtain rfl := Filename.eq_of_text_eq htext
        simp [hnone] at hother
    · intro hsome
      obtain ⟨node, hnode⟩ := Option.ne_none_iff_exists'.mp hsome
      have hentry := mem_of_entryAt (by simp) (hkeeps _ _ hnode)
      refine List.mem_cons_of_mem _ (List.mem_cons_of_mem _ (List.mem_map_of_mem ?_))
      exact List.mem_filter.mpr
        ⟨List.mem_filterMap.mpr ⟨_, hentry, by simp⟩, by simp [hnode]⟩
  texts smaller place text hmem := by
    rcases List.mem_cons.mp hmem with hhere | hmem
    · exact .inl hhere
    rcases List.mem_cons.mp hmem with hup | hmem
    · exact .inr (.inl hup)
    · obtain ⟨name, -, hname⟩ := List.mem_map.mp hmem
      exact .inr (.inr ⟨name, hname.symm⟩)

def savesName : Filename := ⟨"saves".toList, by decide, by decide, by decide, by decide⟩

def slotName : Filename := ⟨"slot".toList, by decide, by decide, by decide, by decide⟩

def sharedName : Filename := ⟨"shared".toList, by decide, by decide, by decide, by decide⟩

def commonName : Filename := ⟨"common".toList, by decide, by decide, by decide, by decide⟩

def logName : Filename := ⟨"log".toList, by decide, by decide, by decide, by decide⟩

/-- A directory with a file and a link to another directory. -/
def linkedEntries : List (List Filename × Node Filename ℕ) :=
  [([savesName], .directory), ([savesName, slotName], .file 1),
    ([savesName, sharedName], .link (.parse "/common".toList)), ([commonName], .directory),
    ([commonName, logName], .file 2), ([slotName], .file 3)]

def linkedTree : FileTree Filename ℕ := treeOf linkedEntries (by decide)

/-- The deletion of that directory. -/
def linkedDeletion : FileTree Filename ℕ × Bool :=
  deleteDirRecursively (osOf linkedEntries) [] 2 linkedTree "/saves".toList

theorem linkedTree_lawful : (osOf linkedEntries).Lawful linkedTree := lawful_osOf linkedEntries _

/-- The file that the link leads to is deleted as well, and a file elsewhere is not. -/
theorem isEntry_of_deleted_linked :
    (linkedDeletion.1.node [commonName, logName] = none ∧
        ([commonName, logName] = [savesName] ∨
          IsEntry linkedTree [savesName] [commonName, logName])) ∧
      linkedDeletion.1.node [slotName] = some (.file 3) := by
  have hplace : linkedTree.locate true [] (.parse "/saves".toList) = .ok [savesName] := by
    decide +kernel
  have hchanged : linkedDeletion.1.node [commonName, logName] ≠
      linkedTree.node [commonName, logName] := by
    decide +kernel
  have hgone := isEntry_of_deleted linkedTree_lawful 2 hplace (q := [commonName, logName])
  rw [← linkedDeletion] at hgone
  exact ⟨hgone hchanged, by decide +kernel⟩

/-! ## What is left -/

/-- No path that goes on by names leads to a file. -/
def FreeOfFiles (here : List Filename) (t : FileTree Filename Content) (directory : Text) : Prop :=
  ∀ names, names ≠ [] → ∀ content,
    t.stat here (.parse (below directory names)) ≠ .ok (some (.file content))

/-- What `Delete` has deleted is no file any more. -/
theorem stat_ne_file_of_delete {name : Filename}
    (hnonempty : (Path.parse directory).isEmpty = false)
    (h : delete os here t (entryText directory name) = (t', true)) (content : Content) :
    t'.stat here (.parse (entryText directory name)) ≠ .ok (some (.file content)) := by
  intro hstat
  have hkeeps : t'.Keeps t := by
    have hdelete := keeps_delete os here t (entryText directory name)
    rwa [h] at hdelete
  have hbefore := FileTree.look_keeps hkeeps hstat
  obtain ⟨hnot, hexists⟩ :=
    isDirectory_of_stat_file (stripTailDirSlashes_entryText directory name) hbefore
  obtain ⟨place, left, -, henters⟩ :=
    exists_enters_of_stat_below hnonempty (List.cons_ne_nil name []) hstat
  have hfile : t'.stat here (.parse (below directory [name])) = .ok (some (.file content)) := hstat
  have hsome : t'.node (place ++ [name]) ≠ none := henters.node_ne_none hfile
  have hplace : t.locate false here (.parse (entryText directory name)) =
      .ok (place ++ [name]) := by
    apply locate_of_keeps hkeeps _ hsome
    rw [henters.locate_entryText, FileTree.resolve_last]
  simp only [delete, hexists, hnot, Bool.not_true, Bool.false_eq_true, if_false] at h
  split at h
  · next hunlink =>
    cases h
    obtain ⟨q, hlocate, -, -, hwithout⟩ := FileTree.unlink_eq_some hunlink
    rw [hplace] at hlocate
    cases hlocate
    exact hsome ((hwithout _).1 (List.prefix_refl _))
  · cases h

/-- What has been deleted with success is free of files. -/
theorem stat_ne_file_of_deleteEntry {name : Filename} {ret : ℕ}
    (hnestedKeeps : ∀ f, nested = some f → ∀ t directory, (f t directory).1.Keeps t)
    (hnested : ∀ f, nested = some f → ∀ directory, (f t directory).2 = true →
      FreeOfFiles here (f t directory).1 directory)
    (hnonempty : (Path.parse directory).isEmpty = false)
    (h : deleteEntry os here nested directory t name.text = (t', some ret))
    (more : List Filename) (content : Content) :
    t'.stat here (.parse (below (entryText directory name) more)) ≠ .ok (some (.file content)) := by
  intro hstat
  have hkeeps : t'.Keeps t := by
    have hentry : (deleteEntry os here nested directory t name.text).1.Keeps t :=
      keeps_deleteEntry hnestedKeeps directory name.text t
    rwa [h] at hentry
  have hbefore := FileTree.look_keeps hkeeps hstat
  have hstrip := stripTailDirSlashes_entryText directory name
  have hentryText : directory ++ '/' :: name.text = entryText directory name := rfl
  simp only [deleteEntry, hentryText] at h
  by_cases hmore : more = []
  · subst hmore
    obtain ⟨hnot, -⟩ := isDirectory_of_stat_file hstrip hbefore
    rw [hnot, if_neg Bool.false_ne_true, Prod.mk.injEq] at h
    obtain ⟨rfl, hret⟩ := h
    refine stat_ne_file_of_delete hnonempty (Prod.ext rfl ?_) content hstat
    by_contra hfalse
    rw [if_neg hfalse] at hret
    cases hret
  · obtain ⟨place, left, hlocate, henters⟩ :=
      exists_enters_of_stat_below (parse_entryText_isEmpty directory name) hmore hbefore
    rw [isDirectory_of_locate hstrip hlocate henters.node, if_pos rfl, Prod.mk.injEq] at h
    obtain ⟨hfirst, hret⟩ := h
    cases hf : nested with
    | none => simp [hf] at hret
    | some f =>
        simp only [hf] at hfirst hret
        have hok : (f t (entryText directory name)).2 = true := by
          by_contra hfalse
          rw [if_neg hfalse] at hret
          cases hret
        rw [← hfirst] at hstat
        exact hnested f hf _ hok more hmore content hstat

theorem freeOfFiles_deleteIn (hlawful : os.Lawful t)
    (hnestedKeeps : ∀ f, nested = some f → ∀ t directory, (f t directory).1.Keeps t)
    (hnested : ∀ f, nested = some f → ∀ s, s.Keeps t → ∀ directory, (f s directory).2 = true →
      FreeOfFiles here (f s directory).1 directory)
    (h : deleteIn os here nested t directory = (t', true)) : FreeOfFiles here t' directory := by
  intro names hnames content hstat
  obtain ⟨name, more, rfl⟩ := List.exists_cons_of_ne_nil hnames
  have hkeeps : t'.Keeps t := by
    have hdeleted : (deleteIn os here nested t directory).1.Keeps t :=
      keeps_deleteIn hnestedKeeps t directory
    rwa [h] at hdeleted
  have hbefore := FileTree.look_keeps hkeeps hstat
  unfold deleteIn foreachDirectoryEntry at h
  cases hentries : listDirectoryEntries os here t directory with
  | none => simp [hentries] at h
  | some entries =>
      simp only [hentries] at h
      unfold listDirectoryEntries at hentries
      split at hentries
      · next place hlocate =>
        split at hentries
        · next hdirectory =>
          cases hentries
          obtain ⟨left, henters⟩ := exists_enters hlocate hdirectory
          have hmem : name.text ∈ os.readdir t place := by
            rw [← os.mem_names_iff, hlawful.lists t (.refl t)]
            exact henters.node_ne_none hbefore
          split at h
          · cases h
          · next s total hloop =>
            obtain ⟨s₁, s₂, ret, hfirst, hcall, hlast⟩ :=
              exists_call_of_callEach (R := fun s s' => s'.Keeps s) .refl
                (fun _ _ _ h h' => h'.trans h)
                (fun s text _ _ _ => keeps_deleteEntry hnestedKeeps directory text s) hloop hmem
                name.notHere name.notUp
            cases h
            have hkeeps₂ := (keeps_deleteDir os here s directory).trans hlast
            exact stat_ne_file_of_deleteEntry hnestedKeeps (fun f hf => hnested f hf s₁ hfirst)
              henters.nonempty hcall more content (FileTree.look_keeps hkeeps₂ hstat)
        · cases hentries
      · cases hentries

/-- **After a deletion that succeeds** no path that goes on from the directory by names leads to a
file, neither inside nor through a link. -/
theorem freeOfFiles_deleteDirRecursively (hlawful : os.Lawful t)
    (h : deleteDirRecursively os here recursion t directory = (t', true)) :
    FreeOfFiles here t' directory := by
  induction recursion generalizing t t' directory with
  | zero =>
      exact freeOfFiles_deleteIn hlawful (fun f hf => by cases hf) (fun f hf => by cases hf) h
  | succ recursion ih =>
      apply freeOfFiles_deleteIn hlawful (keeps_nestedDeletion os here (recursion + 1)) _ h
      intro f hf s hs directory hok
      cases hf
      exact ih (hlawful.smaller hs) (Prod.ext rfl hok)

theorem freeOfFiles_deleteDirRecursively_linked :
    linkedDeletion.2 = true ∧ FreeOfFiles [] linkedDeletion.1 "/saves".toList := by
  have hdone : linkedDeletion.2 = true := by decide +kernel
  have hdeletion : deleteDirRecursively (osOf linkedEntries) [] 2 linkedTree "/saves".toList =
      (linkedDeletion.1, true) := by
    rw [← linkedDeletion, ← hdone]
  exact ⟨hdone, freeOfFiles_deleteDirRecursively linkedTree_lawful hdeletion⟩

end ManicRoom.Storage
