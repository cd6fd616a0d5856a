/-
# Directories

`file_util.cpp` goes through the entries of a directory with `ForeachDirectoryEntry`, as
`DeleteDirRecursively` does to remove one. Its callback asks `IsDirectory` whether an entry is
a directory, which follows links. In which order a directory is listed and what cannot be
removed is for the system to say.
-/

import ManicRoom.Foundation.Removal
import ManicRoom.Storage.FullPath

namespace ManicRoom.Storage

open ManicRoom.Foundation

universe u v

variable {Content : Type u}

/-- What the system decides. -/
structure Os (Content : Type u) where
  /-- What `readdir` gives for a directory, one after the other. -/
  readdir : FileTree Filename Content → List Filename → List Text
  /-- What cannot be removed. -/
  refuses : List Filename → Bool

/-- The names among the entries. -/
def Os.names (os : Os Content) (t : FileTree Filename Content) (place : List Filename) :
    List Filename :=
  (os.readdir t place).filterMap Filename.ofText?

theorem Filename.text_of_ofText? {text : Text} {name : Filename}
    (h : Filename.ofText? text = some name) : name.text = text := by
  unfold Filename.ofText? at h
  split at h
  · cases h
    rfl
  · cases h

theorem Filename.eq_of_text_eq {name name' : Filename} (h : name.text = name'.text) :
    name = name' := by
  cases name
  cases name'
  cases h
  rfl

theorem Os.mem_names_iff (os : Os Content) (t : FileTree Filename Content)
    (place : List Filename) (name : Filename) :
    name ∈ os.names t place ↔ name.text ∈ os.readdir t place := by
  rw [Os.names, List.mem_filterMap]
  constructor
  · intro h
    obtain ⟨text, hmem, hname⟩ := h
    rwa [Filename.text_of_ofText? hname]
  · intro hmem
    exact ⟨name.text, hmem, Filename.ofText?_text name⟩

/-- Directories are listed as they are, also when something has been removed. -/
structure Os.Lawful (os : Os Content) (t : FileTree Filename Content) : Prop where
  lists : t.Lists os.names
  texts : ∀ smaller place text, text ∈ os.readdir smaller place →
    text = ['.'] ∨ text = ['.', '.'] ∨ ∃ name : Filename, text = name.text

theorem Os.Lawful.smaller {os : Os Content} {t t' : FileTree Filename Content} (h : os.Lawful t)
    (hkeeps : t'.Keeps t) : os.Lawful t' where
  lists := h.lists.smaller hkeeps
  texts := h.texts

/-! ## Entries -/

/-- `ListDirectoryEntries(directory)` -/
def listDirectoryEntries (os : Os Content) (here : List Filename)
    (t : FileTree Filename Content) (directory : Text) : Option (List Text) :=
  match t.locate true here (.parse directory) with
  | .ok place => if t.node place = some .directory then some (os.readdir t place) else none
  | .error _ => none

/-- The loop of `ForeachDirectoryEntry`. A callback fails or says how many entries it found. -/
def callEach {State : Type v} (callback : State → Text → State × Option ℕ) :
    List Text → State → ℕ → State × Option ℕ
  | [], s, foundEntries => (s, some foundEntries)
  | virtualName :: rest, s, foundEntries =>
      if virtualName = ['.'] ∨ virtualName = ['.', '.'] then
        callEach callback rest s foundEntries
      else
        match callback s virtualName with
        | (s', some retEntries) => callEach callback rest s' (foundEntries + retEntries)
        | (s', none) => (s', none)

/-- `ForeachDirectoryEntry(num_entries_out, directory, callback)` -/
def foreachDirectoryEntry {State : Type v} (entries : Option (List Text))
    (callback : State → Text → State × Option ℕ) (s : State) : State × Option ℕ :=
  match entries with
  | none => (s, none)
  | some entries => callEach callback entries s 0

/-- What every call keeps holds after the loop. -/
theorem callEach_induction {State : Type v} {callback : State → Text → State × Option ℕ}
    {entries : List Text} {P : State → Prop} {s : State} {found : ℕ}
    (hstep : ∀ s, ∀ text ∈ entries, text ≠ ['.'] → text ≠ ['.', '.'] → P s →
      P (callback s text).1)
    (h : P s) : P (callEach callback entries s found).1 := by
  induction entries generalizing s found with
  | nil => exact h
  | cons text rest ih =>
      have hrest (s : State) (other : Text) (hother : other ∈ rest) :=
        hstep s other (List.mem_cons_of_mem text hother)
      rw [callEach]
      split
      · exact ih hrest h
      · next hname =>
        have hname := not_or.mp hname
        have hcall := hstep s text List.mem_cons_self hname.1 hname.2 h
        split
        · next s' ret heq =>
          rw [heq] at hcall
          exact ih hrest hcall
        · next s' heq =>
          rw [heq] at hcall
          exact hcall

/-- Where the loop succeeds, it has called the callback for each entry. -/
theorem exists_call_of_callEach {State : Type v} {callback : State → Text → State × Option ℕ}
    {entries : List Text} {R : State → State → Prop} (hrefl : ∀ s, R s s)
    (htrans : ∀ s s' s'', R s s' → R s' s'' → R s s'')
    (hstep : ∀ s, ∀ text ∈ entries, text ≠ ['.'] → text ≠ ['.', '.'] →
      R s (callback s text).1)
    {s s' : State} {found total : ℕ} (h : callEach callback entries s found = (s', some total))
    {text : Text} (htext : text ∈ entries) (hhere : text ≠ ['.']) (hup : text ≠ ['.', '.']) :
    ∃ s₁ s₂ ret, R s s₁ ∧ callback s₁ text = (s₂, some ret) ∧ R s₂ s' := by
  induction entries generalizing s found with
  | nil => cases htext
  | cons first rest ih =>
      have hrest (s : State) (other : Text) (hother : other ∈ rest) :=
        hstep s other (List.mem_cons_of_mem first hother)
      rw [callEach] at h
      split at h
      · next hdots =>
        have hmem : text ∈ rest := by
          rcases List.mem_cons.mp htext with rfl | hmem
          · exact absurd hdots (not_or.mpr ⟨hhere, hup⟩)
          · exact hmem
        exact ih hrest h hmem
      · next hname =>
        have hname := not_or.mp hname
        have hcall := hstep s first List.mem_cons_self hname.1 hname.2
        split at h
        · next s₁ ret heq =>
          rw [heq] at hcall
          have hlast : R s₁ (callEach callback rest s₁ (found + ret)).1 := by
            apply callEach_induction _ (hrefl s₁)
            intro s other hother hhere hup hs
            exact htrans _ _ _ hs (hrest s other hother hhere hup)
          rw [h] at hlast
          rcases List.mem_cons.mp htext with rfl | hmem
          · exact ⟨s, s₁, ret, hrefl s, heq, hlast⟩
          · obtain ⟨s₂, s₃, ret', hfirst, hcalled, hafter⟩ := ih hrest h hmem
            exact ⟨s₂, s₃, ret', htrans _ _ _ hcall hfirst, hcalled, hafter⟩
        · cases h

/-! ## Texts of entries -/

/-- `directory + DIR_SEP_CHR + virtual_name` -/
def entryText (directory : Text) (name : Filename) : Text := directory ++ '/' :: name.text

/-- Going on by names. -/
def below (directory : Text) (names : List Filename) : Text := names.foldl entryText directory

theorem Filename.getLast?_text (name : Filename) :
    ∃ last, name.text.getLast? = some last ∧ last ≠ '/' := by
  refine ⟨name.text.getLast name.nonempty, List.getLast?_eq_some_getLast name.nonempty, ?_⟩
  intro heq
  exact name.noSeparator (heq ▸ List.getLast_mem name.nonempty)

@[simp]
theorem parse_text_parts (name : Filename) : (Path.parse name.text).parts = [.name name] := by
  simpa [Part.text] using Path.parse_intercalate_parts [.name name]

theorem entryText_ne_nil (directory : Text) (name : Filename) : entryText directory name ≠ [] := by
  simp [entryText]

theorem below_concat (directory : Text) (names : List Filename) (name : Filename) :
    below directory (names ++ [name]) = entryText (below directory names) name := by
  simp [below, List.foldl_append]

theorem parse_below_parts (directory : Text) (names : List Filename) :
    (Path.parse (below directory names)).parts =
      (Path.parse directory).parts ++ names.map .name := by
  induction names using List.reverseRecOn with
  | nil => simp [below]
  | append_singleton names name ih =>
      rw [below_concat, entryText, Path.parse_append_parts, parse_text_parts, ih]
      simp

theorem parse_below_absolute {directory : Text} (hdirectory : directory ≠ [])
    (names : List Filename) :
    (Path.parse (below directory names)).absolute = (Path.parse directory).absolute := by
  induction names generalizing directory with
  | nil => rfl
  | cons name names ih =>
      exact (ih (entryText_ne_nil directory name)).trans (Path.parse_append_absolute hdirectory _)

theorem getLast?_below (directory : Text) {names : List Filename} (hnames : names ≠ []) :
    ∃ last, (below directory names).getLast? = some last ∧ last ≠ '/' := by
  obtain ⟨last, hlast, hne⟩ := Filename.getLast?_text (names.getLast hnames)
  refine ⟨last, ?_, hne⟩
  rw [← List.dropLast_append_getLast hnames, below_concat]
  simp [entryText, List.getLast?_append, List.getLast?_cons, hlast]

theorem parse_below_trailing (directory : Text) {names : List Filename} (hnames : names ≠ []) :
    (Path.parse (below directory names)).trailing = false := by
  obtain ⟨last, hlast, hne⟩ := getLast?_below directory hnames
  simp [Path.parse, Path.of, hlast, hne]

@[simp]
theorem parse_entryText_trailing (directory : Text) (name : Filename) :
    (Path.parse (entryText directory name)).trailing = false :=
  parse_below_trailing directory (List.cons_ne_nil name [])

@[simp]
theorem parse_entryText_isEmpty (directory : Text) (name : Filename) :
    (Path.parse (entryText directory name)).isEmpty = false := by
  have hparts := parse_below_parts directory [name]
  rw [below, List.foldl_cons, List.foldl_nil] at hparts
  simp [Path.isEmpty, hparts]

theorem stripTailDirSlashes_below (directory : Text) {names : List Filename}
    (hnames : names ≠ []) :
    stripTailDirSlashes (below directory names) = below directory names := by
  obtain ⟨last, hlast, hne⟩ := getLast?_below directory hnames
  unfold stripTailDirSlashes
  split
  · rfl
  · rw [List.rdropWhile_eq_self_iff]
    intro hl
    rw [List.getLast?_eq_some_getLast hl, Option.some.injEq] at hlast
    simpa [hlast] using hne

@[simp]
theorem stripTailDirSlashes_entryText (directory : Text) (name : Filename) :
    stripTailDirSlashes (entryText directory name) = entryText directory name :=
  stripTailDirSlashes_below directory (List.cons_ne_nil name [])

theorem parse_append_slashes (text : Text) (count : ℕ) :
    (Path.parse (text ++ List.replicate count '/')).parts = (Path.parse text).parts := by
  have hslashes (count : ℕ) : (Path.parse (List.replicate count '/')).parts = [] := by
    induction count with
    | zero => rfl
    | succ count ih =>
        rw [List.replicate_succ, ← List.nil_append ('/' :: _), Path.parse_append_parts, ih]
        rfl
  cases count with
  | zero => rw [List.replicate_zero, List.append_nil]
  | succ count =>
      rw [List.replicate_succ, Path.parse_append_parts, hslashes, List.append_nil]

/-- What `StripTailDirSlashes` takes away is slashes. -/
theorem exists_slashes (text : Text) :
    ∃ count, text = stripTailDirSlashes text ++ List.replicate count '/' := by
  unfold stripTailDirSlashes
  split
  · exact ⟨0, by simp⟩
  · refine ⟨(text.rtakeWhile (· == '/')).length, ?_⟩
    have hall : ∀ c ∈ text.rtakeWhile (· == '/'), c = '/' := by
      intro c hc
      simpa using List.mem_rtakeWhile_imp hc
    rw [← List.eq_replicate_of_mem hall]
    exact (List.rdropWhile_append_rtakeWhile).symm

/-! ## Where texts lead -/

section Enters

variable {t t' : FileTree Filename Content} {here place : List Filename} {directory : Text}
  {left : ℕ} {name : Filename} {names : List Filename}

/-- A text leads to a directory, and beyond it a path goes on with the links that are left. -/
structure Enters (t : FileTree Filename Content) (here : List Filename) (directory : Text)
    (place : List Filename) (left : ℕ) : Prop where
  nonempty : (Path.parse directory).isEmpty = false
  node : t.node place = some .directory
  resolve : ∀ followLast more, more ≠ [] →
    t.resolve followLast FileTree.maxLinks (FileTree.startOf (.parse directory) here)
      ((Path.parse directory).parts ++ more) = t.resolve followLast left place more

theorem Enters.ne_nil (h : Enters t here directory place left) : directory ≠ [] := by
  intro hnil
  have hempty := h.nonempty
  rw [hnil] at hempty
  cases hempty

theorem exists_enters (hlocate : t.locate true here (.parse directory) = .ok place)
    (hnode : t.node place = some .directory) : ∃ left, Enters t here directory place left := by
  unfold FileTree.locate at hlocate
  split at hlocate
  · cases hlocate
  · next hempty =>
    rw [Bool.true_or] at hlocate
    obtain ⟨left, hleft⟩ := FileTree.exists_links_left hlocate hnode
    exact ⟨left, by simpa using hempty, hnode, hleft⟩

/-- What is below the directory is looked up from there. -/
theorem Enters.locate_below (h : Enters t here directory place left) (followLast : Bool)
    (hnames : names ≠ []) :
    t.locate followLast here (.parse (below directory names)) =
      t.resolve followLast left place (names.map .name) := by
  have hempty : (Path.parse (below directory names)).isEmpty = false := by
    simp [Path.isEmpty, parse_below_parts, hnames]
  have hstart : (if (Path.parse (below directory names)).absolute then [] else here) =
      FileTree.startOf (.parse directory) here := by
    rw [parse_below_absolute h.ne_nil]
    rfl
  rw [FileTree.locate, hempty, if_neg Bool.false_ne_true, parse_below_trailing directory hnames,
    Bool.or_false, parse_below_parts, hstart]
  exact h.resolve followLast (names.map .name) (by simpa using hnames)

theorem Enters.locate_entryText (h : Enters t here directory place left) (followLast : Bool)
    (name : Filename) :
    t.locate followLast here (.parse (entryText directory name)) =
      t.resolve followLast left place [.name name] :=
  h.locate_below followLast (List.cons_ne_nil name [])

theorem Enters.look_entryText (h : Enters t here directory place left) (followLast : Bool)
    (name : Filename) :
    t.look followLast here (.parse (entryText directory name)) =
      match t.resolve followLast left place [.name name] with
      | .ok q => .ok (t.node q)
      | .error .notFound => .ok none
      | .error .loop => .error .loop := by
  rw [FileTree.look, h.locate_entryText]
  cases t.resolve followLast left place [.name name] with
  | ok q => simp
  | error error => cases error <;> rfl

/-- An entry that is no link is what is in the directory. -/
theorem Enters.stat_entryText (h : Enters t here directory place left)
    (hlink : ∀ target, t.node (place ++ [name]) ≠ some (.link target)) :
    t.stat here (.parse (entryText directory name)) = .ok (t.node (place ++ [name])) := by
  rw [FileTree.stat, h.look_entryText, FileTree.resolve_single hlink]

theorem Enters.isDirectory_entryText_iff (h : Enters t here directory place left)
    (name : Filename) :
    isDirectory t here (entryText directory name) = true ↔
      ∃ q, t.resolve true left place [.name name] = .ok q ∧ t.node q = some .directory := by
  unfold isDirectory
  rw [stripTailDirSlashes_entryText, FileTree.stat, h.look_entryText]
  constructor
  · intro hstat
    split at hstat
    · next heq =>
      split at heq
      · next q hq => exact ⟨q, hq, Except.ok.inj heq⟩
      · cases heq
      · cases heq
    · cases hstat
  · intro hdirectory
    obtain ⟨q, hq, hnode⟩ := hdirectory
    simp [hq, hnode]

theorem Enters.isDirectory_of_not_link (h : Enters t here directory place left)
    (hlink : ∀ target, t.node (place ++ [name]) ≠ some (.link target)) :
    isDirectory t here (entryText directory name) = true ↔
      t.node (place ++ [name]) = some .directory := by
  rw [h.isDirectory_entryText_iff, FileTree.resolve_single hlink]
  simp

/-- What a path leads to in what is left, it led to before. -/
theorem locate_of_keeps (hkeeps : t'.Keeps t) {followLast : Bool} {path : Path Filename}
    (hlocate : t'.locate followLast here path = .ok place) (hsome : t'.node place ≠ none) :
    t.locate followLast here path = .ok place := by
  unfold FileTree.locate at hlocate ⊢
  split at hlocate
  · cases hlocate
  · next hempty =>
    rw [if_neg hempty]
    exact FileTree.resolve_keeps hkeeps hlocate hsome

/-- A directory is not a link that could be followed. -/
theorem locate_true_of_directory {path : Path Filename}
    (hlocate : t.locate false here path = .ok place) (hdirectory : t.node place = some .directory) :
    t.locate true here path = .ok place := by
  unfold FileTree.locate at hlocate ⊢
  split at hlocate
  · cases hlocate
  · next hempty =>
    rw [if_neg hempty]
    cases htrailing : path.trailing with
    | true => simpa [htrailing] using hlocate
    | false =>
        rw [htrailing] at hlocate
        exact FileTree.resolve_true_of_directory hlocate hdirectory

theorem exists_locate_of_stat {path : Path Filename} {node : Node Filename Content}
    (h : t.stat here path = .ok (some node)) :
    ∃ q, t.locate true here path = .ok q ∧ t.node q = some node := by
  unfold FileTree.stat FileTree.look at h
  split at h
  · next q hlocate =>
    split at h
    · cases h
    · exact ⟨q, hlocate, Except.ok.inj h⟩
  · cases h
  · cases h

/-- The first of the names is there. -/
theorem Enters.node_ne_none (h : Enters t here directory place left)
    {node : Node Filename Content}
    (hstat : t.stat here (.parse (below directory (name :: names))) = .ok (some node)) :
    t.node (place ++ [name]) ≠ none := by
  obtain ⟨q, hlocate, hnode⟩ := exists_locate_of_stat hstat
  rw [h.locate_below true (List.cons_ne_nil name names), List.map_cons] at hlocate
  apply FileTree.node_ne_none_of_resolve hlocate
  rw [hnode]
  rintro ⟨⟩

/-- Slashes at the end do not matter. -/
theorem isDirectory_of_locate_proper {text : Text} (hproper : place ≠ [])
    (hlocate : t.locate true here (.parse text) = .ok place)
    (hnode : t.node place = some .directory) : isDirectory t here text = true := by
  obtain ⟨count, htext⟩ := exists_slashes text
  have hparts : (Path.parse (stripTailDirSlashes text)).parts = (Path.parse text).parts := by
    conv_rhs => rw [htext]
    exact (parse_append_slashes _ count).symm
  unfold FileTree.locate at hlocate
  split at hlocate
  · cases hlocate
  · next hempty =>
    rw [Bool.true_or] at hlocate
    have hproperParts : (Path.parse text).parts ≠ [] := by
      intro hnil
      rw [hnil, FileTree.resolve_nil, Except.ok.injEq] at hlocate
      cases habsolute : (Path.parse text).absolute with
      | true => exact hproper (by rw [← hlocate, habsolute, if_pos rfl])
      | false => exact hempty (by rw [Path.isEmpty, habsolute, hnil]; rfl)
    have habsolute : (Path.parse (stripTailDirSlashes text)).absolute =
        (Path.parse text).absolute := by
      have hstripped : stripTailDirSlashes text ≠ [] := by
        intro hnil
        rw [hnil] at hparts
        exact hproperParts hparts.symm
      conv_rhs => rw [htext]
      exact (Path.parse_append_absolute hstripped _).symm
    have hempty' : (Path.parse (stripTailDirSlashes text)).isEmpty = false := by
      simp [Path.isEmpty, hparts, hproperParts]
    simp [isDirectory, FileTree.stat, FileTree.look, FileTree.locate, hempty', hparts, habsolute,
      hlocate, hnode]

theorem isDirectory_of_locate {text : Text} (hstrip : stripTailDirSlashes text = text)
    (hlocate : t.locate true here (.parse text) = .ok place)
    (hnode : t.node place = some .directory) : isDirectory t here text = true := by
  simp [isDirectory, hstrip, FileTree.stat, FileTree.look, hlocate, hnode]

/-- A file is there and is no directory. -/
theorem isDirectory_of_stat_file {text : Text} {content : Content}
    (hstrip : stripTailDirSlashes text = text)
    (h : t.stat here (.parse text) = .ok (some (.file content))) :
    isDirectory t here text = false ∧ pathExists t here text = true := by
  simp [isDirectory, pathExists, hstrip, h]

/-- What leads below a directory leads through it. -/
theorem exists_enters_of_stat_below (hnonempty : (Path.parse directory).isEmpty = false)
    (hnames : names ≠ []) {node : Node Filename Content}
    (h : t.stat here (.parse (below directory names)) = .ok (some node)) :
    ∃ place left, t.locate true here (.parse directory) = .ok place ∧
      Enters t here directory place left := by
  obtain ⟨q, hlocate, hnode⟩ := exists_locate_of_stat h
  have hdirectory : directory ≠ [] := by
    intro hnil
    rw [hnil] at hnonempty
    cases hnonempty
  have hresolve : t.resolve true FileTree.maxLinks (FileTree.startOf (.parse directory) here)
      ((Path.parse directory).parts ++ names.map .name) = .ok q := by
    unfold FileTree.locate at hlocate
    split at hlocate
    · cases hlocate
    · rwa [Bool.true_or, parse_below_absolute hdirectory, parse_below_parts] at hlocate
  obtain ⟨place, hplace, hdir⟩ :=
    FileTree.directory_of_resolve_append hnames hresolve (by rw [hnode]; rintro ⟨⟩)
  have hlocate' : t.locate true here (.parse directory) = .ok place := by
    rw [FileTree.locate, hnonempty, if_neg Bool.false_ne_true, Bool.true_or]
    exact hplace
  obtain ⟨left, henters⟩ := exists_enters hlocate' hdir
  exact ⟨place, left, hlocate', henters⟩

end Enters

end ManicRoom.Storage
