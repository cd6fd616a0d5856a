/-
# Deleting directories without links

Where there are no links a deletion goes exactly through what is below the directory. If the
system refuses nothing there, it removes all of it and the directory itself, as long as the
recursion goes as deep as the directories are nested; where they are nested deeper it fails.
-/

import ManicRoom.Storage.Deletion

namespace ManicRoom.Storage

open ManicRoom.Foundation

universe u

variable {Content : Type u} {os : Os Content} {base t t' : FileTree Filename Content}
  {here place : List Filename} {directory : Text} {recursion : ℕ}

/-- The text leads to the directory as long as that is there. -/
def Steady (t : FileTree Filename Content) (here : List Filename) (directory : Text)
    (place : List Filename) : Prop :=
  ∀ smaller : FileTree Filename Content, smaller.Keeps t → smaller.node place = some .directory →
    smaller.locate false here (.parse directory) = .ok place

theorem Steady.exists_enters (h : Steady t here directory place) {s : FileTree Filename Content}
    (hs : s.Keeps t) (hnode : s.node place = some .directory) :
    ∃ left, Enters s here directory place left :=
  Storage.exists_enters (locate_true_of_directory (h s hs hnode) hnode) hnode

theorem Steady.entryText (h : Steady t here directory place) (name : Filename) :
    Steady t here (entryText directory name) (place ++ [name]) := by
  intro s hs hnode
  have hparent : s.node place = some .directory := s.parent place name (by rw [hnode]; rintro ⟨⟩)
  obtain ⟨left, henters⟩ := h.exists_enters hs hparent
  rw [henters.locate_entryText, FileTree.resolve_last]

theorem Steady.smaller (h : Steady t here directory place) (hkeeps : t'.Keeps t) :
    Steady t' here directory place :=
  fun s hs hnode => h s (hs.trans hkeeps) hnode

/-- There are no links at and below the place, and nothing is refused there. -/
structure Removable (os : Os Content) (t : FileTree Filename Content) (place : List Filename) :
    Prop where
  linkless : ∀ more target, t.node (place ++ more) ≠ some (.link target)
  granted : ∀ more, os.refuses (place ++ more) = false

theorem Removable.entry (h : Removable os t place) (name : Filename) :
    Removable os t (place ++ [name]) where
  linkless more target := by
    rw [List.append_assoc]
    exact h.linkless _ target
  granted more := by
    rw [List.append_assoc]
    exact h.granted _

theorem Removable.smaller (h : Removable os t place) (hkeeps : t'.Keeps t) :
    Removable os t' place where
  linkless more target hlink := h.linkless more target (hkeeps _ _ hlink)
  granted := h.granted

/-- The directories at and below the place are nested less deep than that. -/
def Shallow (t : FileTree Filename Content) (place : List Filename) (depth : ℕ) : Prop :=
  ∀ more, t.node (place ++ more) = some .directory → more.length < depth

theorem Shallow.smaller {depth : ℕ} (h : Shallow t place depth) (hkeeps : t'.Keeps t) :
    Shallow t' place depth :=
  fun more hnode => h more (hkeeps _ _ hnode)

theorem shallow_succ_iff (depth : ℕ) :
    Shallow t place (depth + 1) ↔ ∀ name, Shallow t (place ++ [name]) depth := by
  constructor
  · intro h name more hnode
    rw [List.append_assoc] at hnode
    exact Nat.lt_of_succ_lt_succ (h ([name] ++ more) hnode)
  · intro h more hnode
    cases more with
    | nil => exact Nat.succ_pos depth
    | cons name more =>
        rw [List.append_cons] at hnode
        exact Nat.succ_lt_succ (h name more hnode)

theorem shallow_of_not_directory {depth : ℕ} (h : t.node place ≠ some .directory) :
    Shallow t place depth := by
  intro more hnode
  by_cases hmore : more = []
  · rw [hmore, List.append_nil] at hnode
    exact absurd hnode h
  · rw [FileTree.node_eq_none h hmore] at hnode
    cases hnode

/-- Removing an entry does not matter to the others. -/
theorem Shallow.besides {name next : Filename} {depth : ℕ}
    (h : Shallow t' (place ++ [next]) depth) (hwithout : t.Without t' (place ++ [name]))
    (hne : next ≠ name) : Shallow t (place ++ [next]) depth := by
  intro more hnode
  apply h
  rw [(hwithout _).2, hnode]
  rintro hbelow
  rw [List.append_assoc, List.prefix_append_right_inj, List.singleton_append] at hbelow
  exact hne (List.cons_prefix_cons.mp hbelow).1.symm

/-- Where there is nothing, there is nothing to delete. -/
theorem delete_of_none {name : Filename} {left : ℕ} (henters : Enters t here directory place left)
    (hnode : t.node (place ++ [name]) = none) :
    delete os here t (entryText directory name) = (t, true) := by
  have hstat := henters.stat_entryText (by rw [hnode]; rintro _ ⟨⟩)
  simp [delete, pathExists, hstat, hnode]

/-- A file is deleted unless the system refuses. -/
theorem delete_of_file {name : Filename} {left : ℕ} {content : Content}
    (henters : Enters t here directory place left)
    (hnode : t.node (place ++ [name]) = some (.file content))
    (hgranted : os.refuses (place ++ [name]) = false) :
    ∃ t', delete os here t (entryText directory name) = (t', true) ∧
      t.Without t' (place ++ [name]) := by
  have hstat := henters.stat_entryText (by rw [hnode]; rintro _ ⟨⟩)
  rw [hnode] at hstat
  obtain ⟨hnot, hexists⟩ :=
    isDirectory_of_stat_file (stripTailDirSlashes_entryText directory name) hstat
  have hplace : place ++ [name] ≠ [] := by simp
  refine ⟨t.remove (place ++ [name]) hplace, ?_, FileTree.without_remove t hplace⟩
  simp [delete, hexists, hnot, FileTree.unlink, henters.locate_entryText, hnode, hgranted]

/-- An entry is deleted as a whole exactly if the directories in it are not nested too deep. -/
theorem deleteEntry_of_linkless {name : Filename} {left : ℕ}
    (henters : Enters t here directory place left)
    (hremovable : Removable os t (place ++ [name]))
    (hdeeper : ∀ deeper, recursion = deeper + 1 → t.node (place ++ [name]) = some .directory →
      ((deleteDirRecursively os here deeper t (entryText directory name)).2 = true ↔
        Shallow t (place ++ [name]) recursion) ∧
      (Shallow t (place ++ [name]) recursion → t.Without
        (deleteDirRecursively os here deeper t (entryText directory name)).1 (place ++ [name]))) :
    ∃ t' result,
      deleteEntry os here (nestedDeletion os here recursion) directory t name.text =
        (t', result) ∧
      (result = some 0 ∧ Shallow t (place ++ [name]) recursion ∧ t.Without t' (place ++ [name]) ∨
        result = none ∧ ¬ Shallow t (place ++ [name]) recursion) := by
  have hlink (target : Path Filename) : t.node (place ++ [name]) ≠ some (.link target) := by
    simpa using hremovable.linkless [] target
  have hisDirectory := henters.isDirectory_of_not_link hlink
  have hentryText : directory ++ '/' :: name.text = entryText directory name := rfl
  simp only [deleteEntry, hentryText]
  by_cases hdirectory : t.node (place ++ [name]) = some .directory
  · rw [if_pos (hisDirectory.mpr hdirectory)]
    cases recursion with
    | zero =>
        refine ⟨t, none, rfl, .inr ⟨rfl, ?_⟩⟩
        intro hshallow
        exact absurd (hshallow [] (by rwa [List.append_nil])) (by simp)
    | succ deeper =>
        obtain ⟨hiff, hwithout⟩ := hdeeper deeper rfl hdirectory
        refine ⟨_, _, rfl, ?_⟩
        by_cases hshallow : Shallow t (place ++ [name]) (deeper + 1)
        · exact .inl ⟨if_pos (hiff.mpr hshallow), hshallow, hwithout hshallow⟩
        · exact .inr ⟨if_neg (mt hiff.mp hshallow), hshallow⟩
  · rw [if_neg (mt hisDirectory.mp hdirectory)]
    have hshallow : Shallow t (place ++ [name]) recursion := shallow_of_not_directory hdirectory
    cases hnode : t.node (place ++ [name]) with
    | none =>
        rw [delete_of_none henters hnode]
        exact ⟨t, some 0, rfl, .inl ⟨rfl, hshallow, FileTree.without_self hnode⟩⟩
    | some node =>
        cases node with
        | directory => exact absurd hnode hdirectory
        | file content =>
            obtain ⟨t', hdelete, hwithout⟩ := delete_of_file henters hnode
              (by simpa using hremovable.granted [])
            rw [hdelete]
            exact ⟨t', some 0, rfl, .inl ⟨rfl, hshallow, hwithout⟩⟩
        | link target => exact absurd hnode (hlink target)

/-- The entries with these names are gone, and everything else is as it was. -/
def Emptied (s s' : FileTree Filename Content) (place : List Filename) (texts : List Text) :
    Prop :=
  ∀ other, ((∃ name : Filename, name.text ∈ texts ∧ place ++ [name] <+: other) →
      s'.node other = none) ∧
    ((¬ ∃ name : Filename, name.text ∈ texts ∧ place ++ [name] <+: other) →
      s'.node other = s.node other)

theorem Emptied.keeps {s s' : FileTree Filename Content} {texts : List Text}
    (h : Emptied s s' place texts) : s'.Keeps s := by
  intro other node hnode
  by_cases hentry : ∃ name : Filename, name.text ∈ texts ∧ place ++ [name] <+: other
  · rw [(h other).1 hentry] at hnode
    cases hnode
  · rwa [← (h other).2 hentry]

/-- One name more. -/
theorem Emptied.cons {s s₁ s' : FileTree Filename Content} {texts : List Text} {name : Filename}
    (hfirst : s.Without s₁ (place ++ [name])) (h : Emptied s₁ s' place texts) :
    Emptied s s' place (name.text :: texts) := by
  intro other
  by_cases hrest : ∃ name : Filename, name.text ∈ texts ∧ place ++ [name] <+: other
  · obtain ⟨next, hmem, hbelow⟩ := hrest
    exact ⟨fun _ => (h other).1 ⟨next, hmem, hbelow⟩,
      fun hnot => absurd ⟨next, List.mem_cons_of_mem _ hmem, hbelow⟩ hnot⟩
  · have hsame := (h other).2 hrest
    constructor
    · rintro ⟨next, hmem, hbelow⟩
      rcases List.mem_cons.mp hmem with heq | hmem
      · rw [hsame]
        obtain rfl : next = name := Filename.eq_of_text_eq heq
        exact (hfirst other).1 hbelow
      · exact absurd ⟨next, hmem, hbelow⟩ hrest
    · intro hnot
      rw [hsame]
      exact (hfirst other).2 fun hbelow => hnot ⟨name, List.mem_cons_self, hbelow⟩

/-- The loop deletes all entries, or one of them is nested too deep. -/
theorem callEach_deleteEntry {texts : List Text} (found : ℕ)
    (hsteady : Steady base here directory place)
    (hdeeper : ∀ deeper, recursion = deeper + 1 → ∀ s, s.Keeps base → ∀ name,
      Removable os s (place ++ [name]) → s.node (place ++ [name]) = some .directory →
      ((deleteDirRecursively os here deeper s (entryText directory name)).2 = true ↔
        Shallow s (place ++ [name]) recursion) ∧
      (Shallow s (place ++ [name]) recursion → s.Without
        (deleteDirRecursively os here deeper s (entryText directory name)).1 (place ++ [name])))
    (htexts : ∀ text ∈ texts,
      text = ['.'] ∨ text = ['.', '.'] ∨ ∃ name : Filename, text = name.text)
    {s : FileTree Filename Content} (hs : s.Keeps base) (hnode : s.node place = some .directory)
    (hremovable : Removable os s place) :
    ∃ s' total, callEach (deleteEntry os here (nestedDeletion os here recursion) directory) texts s
        found = (s', total) ∧
      (total.isSome = true ↔
        ∀ name : Filename, name.text ∈ texts → Shallow s (place ++ [name]) recursion) ∧
      (total.isSome = true → Emptied s s' place texts) := by
  induction texts generalizing s found with
  | nil => exact ⟨s, some found, rfl, by simp, fun _ _ => ⟨by simp, fun _ => rfl⟩⟩
  | cons text texts ih =>
      have hrest := fun other hother => htexts other (List.mem_cons_of_mem text hother)
      by_cases hdots : text = ['.'] ∨ text = ['.', '.']
      · obtain ⟨s', total, hloop, hiff, hempties⟩ := ih found hrest hs hnode hremovable
        have hnot (name : Filename) : name.text ≠ text := by
          rintro rfl
          exact hdots.elim name.notHere name.notUp
        refine ⟨s', total, ?_, ?_, fun hsome other => ?_⟩
        · rw [callEach, if_pos hdots, hloop]
        · simpa [hnot] using hiff
        · simpa [hnot] using hempties hsome other
      · obtain ⟨name, rfl⟩ : ∃ name : Filename, text = name.text := by
          rcases htexts text List.mem_cons_self with h | h | h
          · exact absurd (.inl h) hdots
          · exact absurd (.inr h) hdots
          · exact h
        obtain ⟨left, henters⟩ := hsteady.exists_enters hs hnode
        obtain ⟨s₁, result, hcall, ⟨rfl, hshallow, hwithout⟩ | ⟨rfl, hdeep⟩⟩ :=
          deleteEntry_of_linkless henters (hremovable.entry name) (fun deeper hrecursion =>
            hdeeper deeper hrecursion s hs name (hremovable.entry name))
        · have hkeeps := hwithout.keeps
          have hnode₁ : s₁.node place = some .directory := by
            rw [(hwithout place).2 (fun h => absurd h.length_le (by simp))]
            exact hnode
          obtain ⟨s', total, hloop, hiff, hempties⟩ := ih (found + 0) hrest
            (hkeeps.trans hs) hnode₁ (hremovable.smaller hkeeps)
          refine ⟨s', total, ?_, hiff.trans ?_, fun hsome => (hempties hsome).cons hwithout⟩
          · rw [callEach, if_neg hdots, hcall]
            exact hloop
          · constructor
            · intro h next hmem
              by_cases hsame : next = name
              · exact hsame ▸ hshallow
              · have hother := List.mem_of_ne_of_mem (mt Filename.eq_of_text_eq hsame) hmem
                exact (h next hother).besides
                  hwithout hsame
            · exact fun h next hmem => (h next (List.mem_cons_of_mem _ hmem)).smaller hkeeps
        · refine ⟨s₁, none, ?_, ?_, by simp⟩
          · rw [callEach, if_neg hdots, hcall]
          · simp only [Option.isSome_none, Bool.false_eq_true, false_iff]
            exact fun h => hdeep (h name List.mem_cons_self)

/-- An empty directory is removed, whatever slashes are at the end of the text. -/
theorem deleteDir_of_empty (hlawful : os.Lawful t) (hproper : place ≠ [])
    (hsteady : Steady t here directory place) (hnode : t.node place = some .directory)
    (hempty : ∀ name, t.node (place ++ [name]) = none) (hgranted : os.refuses place = false) :
    (deleteDir os here t directory).1 = t.remove place hproper := by
  have hlocate := hsteady t (.refl t) hnode
  have hlisting : os.names t place = [] := by
    rw [List.eq_nil_iff_forall_not_mem]
    intro name hmem
    exact (hlawful.lists t (.refl t) place name).mp hmem (hempty name)
  have hisDirectory :=
    isDirectory_of_locate_proper hproper (locate_true_of_directory hlocate hnode) hnode
  simp [deleteDir, hisDirectory, FileTree.rmdir, hlocate, hproper, hnode, hlisting, hgranted]

/-- The directory itself goes once the directories in it can be deleted. -/
theorem deleteIn_of_linkless (hlawful : os.Lawful t) (hproper : place ≠ [])
    (hsteady : Steady t here directory place) (hnode : t.node place = some .directory)
    (hremovable : Removable os t place)
    (hdeeper : ∀ deeper, recursion = deeper + 1 → ∀ s, s.Keeps t → ∀ name,
      Removable os s (place ++ [name]) → s.node (place ++ [name]) = some .directory →
      ((deleteDirRecursively os here deeper s (entryText directory name)).2 = true ↔
        Shallow s (place ++ [name]) recursion) ∧
      (Shallow s (place ++ [name]) recursion → s.Without
        (deleteDirRecursively os here deeper s (entryText directory name)).1 (place ++ [name]))) :
    ((deleteDirRecursively os here recursion t directory).2 = true ↔
        Shallow t place (recursion + 1)) ∧
      (Shallow t place (recursion + 1) →
        t.Without (deleteDirRecursively os here recursion t directory).1 place) := by
  have hlocate := locate_true_of_directory (hsteady t (.refl t) hnode) hnode
  obtain ⟨s, total, hloop, hiff, hemptied⟩ := callEach_deleteEntry 0 hsteady hdeeper
    (hlawful.texts t place) (.refl t) hnode hremovable
  have hshallow : total.isSome = true ↔ Shallow t place (recursion + 1) := by
    rw [hiff, shallow_succ_iff]
    constructor
    · intro h name
      by_cases hentry : t.node (place ++ [name]) = none
      · exact shallow_of_not_directory (by simp [hentry])
      · apply h name
        rw [← os.mem_names_iff, hlawful.lists t (.refl t)]
        exact hentry
    · exact fun h name _ => h name
  rw [deleteDirRecursively_eq, deleteIn, listDirectoryEntries, hlocate]
  simp only [hnode, if_true, foreachDirectoryEntry, hloop]
  cases total with
  | none =>
      rw [Option.isSome_none, Bool.false_eq_true, false_iff] at hshallow
      exact ⟨by simpa using hshallow, fun h => absurd h hshallow⟩
  | some total =>
      have hgone := hemptied rfl
      have hkeeps := hgone.keeps
      have hempty (name : Filename) : s.node (place ++ [name]) = none := by
        by_contra hsome
        have hmem : name.text ∈ os.readdir t place := by
          rw [← os.mem_names_iff, hlawful.lists t (.refl t)]
          exact fun hnone => hsome (hkeeps.node_eq_none hnone)
        exact hsome ((hgone _).1 ⟨name, hmem, List.prefix_refl _⟩)
      have houtside (other : List Filename) (hother : ∀ name, ¬ place ++ [name] <+: other) :
          s.node other = t.node other :=
        (hgone other).2 fun ⟨name, _, hbelow⟩ => hother name hbelow
      have hnode' : s.node place = some .directory := by
        rw [houtside place fun name hbelow => absurd hbelow.length_le (by simp)]
        exact hnode
      rw [deleteDir_of_empty (hlawful.smaller hkeeps) hproper (hsteady.smaller hkeeps) hnode' hempty
        (by simpa using hremovable.granted [])]
      refine ⟨by simpa using hshallow, fun _ other => ⟨fun hbelow => if_pos hbelow, fun hnot => ?_⟩⟩
      rw [(FileTree.without_remove s hproper other).2 hnot]
      exact houtside other fun name hbelow => hnot ((List.prefix_append place _).trans hbelow)

/-- A directory in a directory, and a file in it. -/
def nestedEntries : List (List Filename × Node Filename ℕ) :=
  [([savesName], .directory), ([savesName, slotName], .directory),
    ([savesName, slotName, logName], .file 1)]

def nestedTree : FileTree Filename ℕ := treeOf nestedEntries (by decide)

theorem nestedTree_lawful : (osOf nestedEntries).Lawful nestedTree := lawful_osOf nestedEntries _

theorem mem_nestedEntries {more : List Filename} {node : Node Filename ℕ}
    (h : nestedTree.node ([savesName] ++ more) = some node) :
    ([savesName] ++ more, node) ∈ nestedEntries := by
  have hentry : entryAt nestedEntries ([savesName] ++ more) = some node := h
  exact mem_of_entryAt (List.cons_ne_nil _ _) hentry

end ManicRoom.Storage
