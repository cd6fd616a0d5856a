/-
# What operations on a file system change

For every operation that may change a file system: where it acts and what is at every place
afterwards. Making directories along names makes them one below another, from the first
that is missing on. Nothing here refers to a particular program.
-/

import ManicRoom.Foundation.Resolution

namespace ManicRoom.Foundation

universe u v

namespace FileTree

variable {Name : Type u} {Content : Type v} [DecidableEq Name] {t t' : FileTree Name Content}
  {here place names rest : List Name} {path : Path Name} {followLast : Bool}

/-! ## One place -/

theorem put_eq_some {node : Node Name Content} (h : t.put place node = some t') :
    t.node place ≠ some .directory ∧
      ∀ other, t'.node other = if other = place then some node else t.node other := by
  unfold put at h
  split at h
  · next hput =>
    cases h
    exact ⟨hput.2.2, fun _ => rfl⟩
  · exact nomatch h

theorem plant?_eq_some {subtree : Subtree Name Content} (h : t.plant? place subtree = some t') :
    t.node place = none ∧
      ∀ other, t'.node other =
        if place <+: other then subtree.node (other.drop place.length) else t.node other := by
  unfold plant? at h
  split at h
  · next hplant =>
    cases h
    exact ⟨hplant.2.2, fun _ => rfl⟩
  · exact nomatch h

theorem keeps_plant? {subtree : Subtree Name Content} (h : t.plant? place subtree = some t') :
    t.Keeps t' := by
  obtain ⟨hfree, hnode⟩ := plant?_eq_some h
  intro other node hother
  rw [hnode, if_neg]
  · exact hother
  · rintro ⟨more, rfl⟩
    by_cases hmore : more = []
    · rw [hmore, List.append_nil, hfree] at hother
      cases hother
    · rw [node_eq_none (by rw [hfree]; rintro ⟨⟩) hmore] at hother
      cases hother

theorem mkdir_eq_some (h : t.mkdir here path = some t') :
    ∃ place, t.locate false here path = .ok place ∧ t.node place = none ∧
      ∀ other, t'.node other = if other = place then some .directory else t.node other := by
  unfold mkdir at h
  split at h
  · exact nomatch h
  · next place hplace =>
    split at h
    · next hfree => exact ⟨place, hplace, hfree, (put_eq_some h).2⟩
    · exact nomatch h

theorem keeps_mkdir (h : t.mkdir here path = some t') : t.Keeps t' := by
  obtain ⟨place, -, hfree, hnode⟩ := mkdir_eq_some h
  intro other node hother
  rw [hnode, if_neg]
  · exact hother
  · rintro rfl
    exact nomatch hfree.symm.trans hother

theorem writeFile_eq_some {content : Content} (h : t.writeFile here path content = some t') :
    ∃ place, t.locate true here path = .ok place ∧ t.node place ≠ some .directory ∧
      ∀ other, t'.node other = if other = place then some (.file content) else t.node other := by
  unfold writeFile at h
  split at h
  · exact nomatch h
  · next place hplace =>
    split at h
    · exact nomatch h
    · exact ⟨place, hplace, put_eq_some h⟩

/-- A file that has been written stands at the end of its path. -/
theorem locate_of_writeFile {content : Content} (habsolute : path.absolute = true)
    (h : t.writeFile here path content = some t') :
    ∃ place, t'.locate true here path = .ok place ∧ t'.node place = some (.file content) ∧
      place ≠ [] ∧ path.trailing = false := by
  obtain ⟨place, hlocate, hfree, hnode⟩ := writeFile_eq_some h
  have hplace : t'.node place = some (.file content) := by rw [hnode, if_pos rfl]
  have hroot : place ≠ [] := by
    rintro rfl
    exact hfree t.root
  have htrailing : path.trailing = false := by
    by_contra htrailing
    rw [Bool.not_eq_false] at htrailing
    simp [writeFile, hlocate, htrailing] at h
  have hpath : path.isEmpty = false := by simp [Path.isEmpty, habsolute]
  simp only [locate, hpath, Bool.false_eq_true, if_false] at hlocate ⊢
  refine ⟨place, ?_, hplace, hroot, htrailing⟩
  refine resolve_file hfree (fun target => ?_) (by rw [hplace]; rintro ⟨⟩)
    (by rw [hplace]; rintro _ ⟨⟩)
    (fun other hne => by rw [hnode, if_neg hne]) hlocate
  refine resolve_ne_link ?_ hlocate target
  rw [habsolute]
  exact t.root

/-- What has been written is read. -/
theorem readFile_of_writeFile {content : Content} (habsolute : path.absolute = true)
    (h : t.writeFile here path content = some t') : t'.readFile here path = some content := by
  obtain ⟨place, hlocate, hnode, -, htrailing⟩ := locate_of_writeFile habsolute h
  simp [readFile, stat, look, hlocate, htrailing, hnode]

/-- A file that has been written can be written again. -/
theorem exists_writeFile_of_writeFile {content : Content} (habsolute : path.absolute = true)
    (h : t.writeFile here path content = some t') (other : Content) :
    ∃ t'', t'.writeFile here path other = some t'' := by
  obtain ⟨place, hlocate, hnode, hroot, htrailing⟩ := locate_of_writeFile habsolute h
  have hput : place ≠ [] ∧ t'.node place.dropLast = some .directory ∧
      ¬ t'.node place = some .directory :=
    ⟨hroot, node_dropLast hroot (by rw [hnode]; rintro ⟨⟩), by rw [hnode]; rintro ⟨⟩⟩
  exact ⟨_, by simp [writeFile, hlocate, htrailing, put, hput]; rfl⟩

theorem node_removeAll (hplace : t.locate false here path = .ok place) (hne : place ≠ [])
    (other : List Name) :
    (t.removeAll here path).node other = if place <+: other then none else t.node other := by
  simp only [removeAll, hplace, dif_pos hne]
  rfl

theorem renameExclusive_eq_some {source target : Path Name}
    (h : t.renameExclusive here source target = some t') :
    ∃ sourcePlace targetPlace, t.locate false here source = .ok sourcePlace ∧
      t.locate false here target = .ok targetPlace ∧ t.node sourcePlace ≠ none ∧
      t.node targetPlace = none ∧ ∀ other, t'.node other =
        if targetPlace <+: other then t.node (sourcePlace ++ other.drop targetPlace.length)
        else if sourcePlace <+: other then none else t.node other := by
  unfold renameExclusive at h
  split at h
  · next sourcePlace targetPlace hsource htarget =>
    split at h
    · next hrename =>
      cases h
      exact ⟨sourcePlace, targetPlace, hsource, htarget, hrename.2.2.2.2.2, hrename.2.2.2.2.1,
        fun _ => rfl⟩
    · exact nomatch h
  · exact nomatch h

/-! ## Making directories -/

omit [DecidableEq Name] in
theorem stat_eq_directory_iff (t : FileTree Name Content) (here names : List Name) :
    t.stat here (.ofNames names) = .ok (some .directory) ↔ ∃ place, t.Leads names place := by
  unfold stat look
  rw [locate_ofNames]
  constructor
  · intro h
    split at h
    · next place hplace => exact ⟨place, hplace, by simpa using h⟩
    · exact nomatch h
    · exact nomatch h
  · rintro ⟨place, hresolve, hdirectory⟩
    simp [hresolve, hdirectory]

/-- Directories have been made one below another, from a place on. -/
structure Grown (t t' : FileTree Name Content) (place new : List Name) : Prop where
  made : ∀ pre, pre ≠ [] → pre <+: new →
    t.node (place ++ pre) = none ∧ t'.node (place ++ pre) = some .directory
  other : ∀ p, (∀ pre, pre ≠ [] → pre <+: new → p ≠ place ++ pre) → t'.node p = t.node p

omit [DecidableEq Name] in
theorem Grown.refl (t : FileTree Name Content) (place : List Name) : t.Grown t place [] where
  made _ hpre hnew := absurd (List.prefix_nil.mp hnew) hpre
  other _ _ := rfl

omit [DecidableEq Name] in
/-- What is new is one of the directories. -/
theorem Grown.eq_append {new p : List Name} (h : t.Grown t' place new)
    (hne : t'.node p ≠ t.node p) :
    ∃ pre, pre ≠ [] ∧ pre <+: new ∧ p = place ++ pre := by
  by_contra hnone
  apply hne
  apply h.other
  intro pre hpre hnew heq
  exact hnone ⟨pre, hpre, hnew, heq⟩

omit [DecidableEq Name] in
theorem Grown.keeps {new : List Name} (h : t.Grown t' place new) : t.Keeps t' := by
  intro p node hnode
  by_contra hne
  obtain ⟨pre, hpre, hnew, rfl⟩ := h.eq_append (by rwa [hnode])
  exact nomatch (h.made pre hpre hnew).1.symm.trans hnode

/-- One directory, and others below it. -/
theorem Grown.cons {u : FileTree Name Content} {name : Name} {new : List Name}
    (hfree : t.node (place ++ [name]) = none)
    (hfirst : ∀ p, t'.node p = if p = place ++ [name] then some .directory else t.node p)
    (h : t'.Grown u (place ++ [name]) new) : t.Grown u place (name :: new) := by
  have hdirectory : t'.node (place ++ [name]) = some .directory := by rw [hfirst, if_pos rfl]
  refine ⟨fun pre hpre hnew => ?_, fun p hp => ?_⟩
  · cases pre with
    | nil => exact absurd rfl hpre
    | cons first pre =>
        obtain ⟨rfl, hrest⟩ := List.cons_prefix_cons.mp hnew
        by_cases hempty : pre = []
        · subst hempty
          exact ⟨hfree, h.keeps _ _ hdirectory⟩
        · have hmore := h.made pre hempty hrest
          rw [hfirst, if_neg (by simp [hempty]), List.append_assoc] at hmore
          exact hmore
  · have hother : u.node p = t'.node p := by
      apply h.other
      intro pre hpre hnew heq
      refine hp (name :: pre) (by simp) (by simpa using hnew) ?_
      rw [heq, List.append_assoc]
      rfl
    have hne : p ≠ place ++ [name] := hp [name] (by simp) (by simp)
    rw [hother, hfirst, if_neg hne]

omit [DecidableEq Name] in
theorem ofNames_concat (names : List Name) (name : Name) :
    Path.of true (names.map .name ++ [.name name]) false = Path.ofNames (names ++ [name]) := by
  simp [Path.ofNames]

omit [DecidableEq Name] in
/-- The last name is never followed. -/
theorem Leads.locate_concat (hlead : t.Leads names place) (name : Name) :
    t.locate false here (.ofNames (names ++ [name])) = .ok (place ++ [name]) := by
  have hplain : t.Plain false place [name] := plain_singleton nofun
  rw [locate_ofNames]
  apply hlead.resolve_append (by simp) hplain
  simpa using hlead.directory

/-- A directory made along names is at the place that they say. -/
theorem Leads.mkdir_eq_some (hlead : t.Leads names place) {name : Name}
    (h : t.mkdir here (.ofNames (names ++ [name])) = some t') :
    t.node (place ++ [name]) = none ∧
      ∀ other,
        t'.node other = if other = place ++ [name] then some .directory else t.node other := by
  obtain ⟨q, hlocate, hfree, hnode⟩ := FileTree.mkdir_eq_some h
  rw [hlead.locate_concat] at hlocate
  cases hlocate
  exact ⟨hfree, hnode⟩

/-- Below an empty directory everything has to be made. -/
theorem Leads.grown_of_empty (hlead : t.Leads names place)
    (hempty : ∀ name, t.node (place ++ [name]) = none) {limit : Option ℕ}
    {made : FileTree Name Content} {ok : Bool}
    (h : createDirectories here true t limit (names.map .name) (rest.map .name) = (made, ok)) :
    ∃ new, new <+: rest ∧ t.Grown made place new ∧ (ok = true → new = rest) := by
  induction rest generalizing t names place limit with
  | nil =>
      cases h
      exact ⟨[], List.prefix_refl _, .refl _ _, fun _ => rfl⟩
  | cons name rest ih =>
      have hfailed (heq : (t, false) = (made, ok)) :
          ∃ new, new <+: name :: rest ∧ t.Grown made place new ∧
            (ok = true → new = name :: rest) := by
        cases heq
        exact ⟨[], List.nil_prefix, .refl _ _, by rintro ⟨⟩⟩
      rw [List.map_cons, createDirectories, ofNames_concat] at h
      split at h
      · next hstat =>
        obtain ⟨q, hq⟩ := (stat_eq_directory_iff t here _).mp hstat
        have hplain : t.Plain true place [name] :=
          plain_singleton fun _ target hlink => absurd (hlink.symm.trans (hempty name)) (by simp)
        have heq := (hlead.eq_of_resolve (by simp) hplain hq.resolve).1
        rw [heq] at hq
        exact absurd ((hempty name).symm.trans hq.directory) (by simp)
      · split at h
        · exact hfailed h
        · split at h
          · next t1 hmkdir =>
            obtain ⟨hfree, hnode⟩ := hlead.mkdir_eq_some hmkdir
            have hdirectory : t1.node (place ++ [name]) = some .directory := by
              rw [hnode, if_pos rfl]
            have hlead1 : t1.Leads (names ++ [name]) (place ++ [name]) :=
              (hlead.keeps (keeps_mkdir hmkdir)).append hdirectory
            have hempty1 (other : Name) : t1.node (place ++ [name] ++ [other]) = none := by
              rw [hnode, if_neg (by simp)]
              exact node_eq_none (by rw [hfree]; rintro ⟨⟩) (by simp)
            have hmap : names.map Part.name ++ [.name name] = (names ++ [name]).map Part.name := by
              simp
            rw [hmap] at h
            obtain ⟨new, hnew, hgrown, hok⟩ := ih hlead1 hempty1 h
            exact ⟨name :: new, by simpa using hnew, hgrown.cons hfree hnode,
              fun htrue => by rw [hok htrue]⟩
          · exact hfailed h
      · exact hfailed h

/-- The directories that were there, and those that have been made below them. -/
structure Made (t made : FileTree Name Content) (names existing missing place new : List Name) :
    Prop where
  leads : ∀ pre, pre <+: existing → ∃ q, t.Leads (names ++ pre) q
  last : t.Leads (names ++ existing) place
  first : ∀ name ∈ missing.head?, ∀ q, ¬ t.Leads (names ++ existing ++ [name]) q
  isPrefix : new <+: missing
  grown : t.Grown made place new

/-- **`create_directories` along names.** -/
theorem Leads.exists_made (hlead : t.Leads names place) {limit : Option ℕ}
    {made : FileTree Name Content} {ok : Bool}
    (h : createDirectories here true t limit (names.map .name) (rest.map .name) = (made, ok)) :
    ∃ existing missing q new, rest = existing ++ missing ∧
      t.Made made names existing missing q new ∧ (ok = true → new = missing) := by
  induction rest generalizing names place with
  | nil =>
      cases h
      refine ⟨[], [], place, [], rfl, ⟨fun pre hpre => ⟨place, ?_⟩, ?_, by rintro _ ⟨⟩,
        List.prefix_refl _, .refl _ _⟩, fun _ => rfl⟩
      · rw [List.prefix_nil.mp hpre, List.append_nil]
        exact hlead
      · rwa [List.append_nil]
  | cons name rest ih =>
      have hfirst (new : List Name) (hnone : ¬ ∃ q, t.Leads (names ++ [name]) q)
          (hnew : new <+: name :: rest) (hgrown : t.Grown made place new)
          (hok : ok = true → new = name :: rest) :
          ∃ existing missing q new, name :: rest = existing ++ missing ∧
            t.Made made names existing missing q new ∧ (ok = true → new = missing) := by
        refine ⟨[], name :: rest, place, new, rfl, ⟨fun pre hpre => ⟨place, ?_⟩, ?_, ?_, hnew,
          hgrown⟩, hok⟩
        · rw [List.prefix_nil.mp hpre, List.append_nil]
          exact hlead
        · rwa [List.append_nil]
        · intro other hother q hq
          cases hother
          rw [List.append_nil] at hq
          exact hnone ⟨q, hq⟩
      have hfailed (hnone : ¬ ∃ q, t.Leads (names ++ [name]) q) (heq : (t, false) = (made, ok)) :
          ∃ existing missing q new, name :: rest = existing ++ missing ∧
            t.Made made names existing missing q new ∧ (ok = true → new = missing) := by
        cases heq
        exact hfirst [] hnone List.nil_prefix (.refl _ _) (by rintro ⟨⟩)
      rw [← stat_eq_directory_iff t here] at hfirst hfailed
      rw [List.map_cons, createDirectories, ofNames_concat] at h
      have hmap : names.map Part.name ++ [.name name] = (names ++ [name]).map Part.name := by simp
      split at h
      · next hstat =>
        obtain ⟨q, hq⟩ := (stat_eq_directory_iff t here _).mp hstat
        rw [hmap] at h
        obtain ⟨existing, missing, q', new, rfl, hmade, hok⟩ := ih hq h
        refine ⟨name :: existing, missing, q', new, rfl,
          ⟨fun pre hpre => ?_, ?_, ?_, hmade.isPrefix, hmade.grown⟩, hok⟩
        · cases pre with
          | nil => exact ⟨place, by rwa [List.append_nil]⟩
          | cons first pre =>
              obtain ⟨rfl, hrest⟩ := List.cons_prefix_cons.mp hpre
              simpa using hmade.leads pre hrest
        · simpa using hmade.last
        · simpa using hmade.first
      · next hstat =>
        have hnone : ¬ t.stat here (.ofNames (names ++ [name])) = .ok (some .directory) := by
          rw [hstat]
          simp
        split at h
        · exact hfailed hnone h
        · split at h
          · next t1 hmkdir =>
            obtain ⟨hfree, hnode⟩ := hlead.mkdir_eq_some hmkdir
            have hdirectory : t1.node (place ++ [name]) = some .directory := by
              rw [hnode, if_pos rfl]
            have hlead1 : t1.Leads (names ++ [name]) (place ++ [name]) :=
              (hlead.keeps (keeps_mkdir hmkdir)).append hdirectory
            have hempty1 (other : Name) : t1.node (place ++ [name] ++ [other]) = none := by
              rw [hnode, if_neg (by simp)]
              exact node_eq_none (by rw [hfree]; rintro ⟨⟩) (by simp)
            rw [hmap] at h
            obtain ⟨new, hnew, hgrown, hok⟩ := hlead1.grown_of_empty hempty1 h
            exact hfirst (name :: new) hnone (by simpa using hnew) (hgrown.cons hfree hnode)
              fun htrue => by rw [hok htrue]
          · exact hfailed hnone h
      · next hother hmissing => exact hfailed hother h

omit [DecidableEq Name] in
/-- Directories along all the names. -/
theorem Made.leads_complete {made : FileTree Name Content} {existing missing : List Name}
    (h : t.Made made names existing missing place missing) :
    (∀ pre, pre <+: existing ++ missing → ∃ q, made.Leads (names ++ pre) q) ∧
      made.Leads (names ++ (existing ++ missing)) (place ++ missing) := by
  have hkeeps := h.grown.keeps
  have hlast := h.last.keeps hkeeps
  have hmissing (pre : List Name) (hpre : pre <+: missing) :
      made.Leads (names ++ existing ++ pre) (place ++ pre) := by
    by_cases hempty : pre = []
    · subst hempty
      simpa using hlast
    · exact hlast.append (h.grown.made pre hempty hpre).2
  refine ⟨fun pre hpre => ?_, ?_⟩
  · rcases List.prefix_or_prefix_of_prefix hpre (List.prefix_append existing missing) with
      hshort | ⟨rest, rfl⟩
    · obtain ⟨q, hq⟩ := h.leads pre hshort
      exact ⟨q, hq.keeps hkeeps⟩
    · have hrest := (List.prefix_append_right_inj existing).mp hpre
      exact ⟨_, by simpa using hmissing rest hrest⟩
  · simpa using hmissing missing (List.prefix_refl _)

/-- Directories along a way without links, from a directory that names lead to. -/
theorem Leads.createDirectories_below {more : List Name} (hlead : t.Leads names place)
    (hprefixes : ∀ pre, pre <+: names → ∃ q, t.Leads pre q) (hplain : t.Plain true place more)
    {limit : Option ℕ} {made : FileTree Name Content} {ok : Bool}
    (h : createDirectories here true t limit [] ((names ++ more).map .name) = (made, ok)) :
    t.Keeps made ∧
      (∀ p, made.node p ≠ t.node p →
        made.node p = some .directory ∧ ∃ pre, pre <+: more ∧ p = place ++ pre) ∧
      (ok = true → made.node (place ++ more) = some .directory) := by
  obtain ⟨existing, missing, q, new, hsplit, hmade, hok⟩ := (Leads.root t).exists_made h
  have hexisting : names <+: existing := by
    rcases List.prefix_or_prefix_of_prefix (List.prefix_append names more)
      (hsplit ▸ List.prefix_append existing missing) with hlong | ⟨rest, rfl⟩
    · exact hlong
    · cases rest with
      | nil => simp
      | cons name rest =>
          -- The first name that is missing would be one of those that lead to the directory.
          rw [List.append_assoc, List.append_cancel_left_eq] at hsplit
          obtain ⟨q', hq'⟩ := hprefixes (existing ++ [name]) (by simp)
          exact absurd hq' (hmade.first name (by rw [← hsplit]; rfl) q')
  obtain ⟨pre, rfl⟩ := hexisting
  rw [List.append_assoc, List.append_cancel_left_eq] at hsplit
  have hplace : q = place ++ pre := by
    by_cases hpre : pre = []
    · subst hpre
      rw [List.append_nil]
      exact hmade.last.unique (by simpa using hlead)
    · have hshort : t.Plain true place pre := hplain.shorten (hsplit ▸ List.prefix_append ..)
      exact (hlead.eq_of_resolve hpre hshort hmade.last.resolve).1
  subst hplace hsplit
  refine ⟨hmade.grown.keeps, fun p hne => ?_, fun htrue => ?_⟩
  · obtain ⟨more, hmore, hnew, rfl⟩ := hmade.grown.eq_append hne
    refine ⟨(hmade.grown.made more hmore hnew).2, pre ++ more, ?_, by rw [List.append_assoc]⟩
    exact (List.prefix_append_right_inj pre).mpr (hnew.trans hmade.isPrefix)
  · cases hok htrue
    rw [← List.append_assoc]
    exact hmade.leads_complete.2.directory

/-- Below a directory that has just been made there are no links, and nothing that has not been
made as well. -/
theorem Grown.node_below {first : Name} {new pre : List Name}
    (h : t.Grown t' place (first :: new)) (hpre : [first] <+: pre) :
    t'.node (place ++ pre) = if pre <+: first :: new then some .directory else none := by
  have hfirst : t.node (place ++ [first]) = none := (h.made [first] (by simp) (by simp)).1
  have hne : pre ≠ [] := by
    rintro rfl
    simp at hpre
  split
  · next hnew => exact (h.made pre hne hnew).2
  · next hnew =>
    have hold : t.node (place ++ pre) = none := by
      obtain ⟨rest, rfl⟩ := hpre
      rw [← List.append_assoc]
      by_cases hrest : rest = []
      · rw [hrest, List.append_nil, hfirst]
      · exact node_eq_none (by rw [hfirst]; rintro ⟨⟩) hrest
    rw [h.other, hold]
    intro other _ hother heq
    exact hnew (List.append_cancel_left heq ▸ hother)

/-- **Making the directories above a place** does not make the place. -/
theorem look_createDirectories {names : List Name} {name : Name} {limit : Option ℕ}
    {made : FileTree Name Content} {ok : Bool}
    (h : createDirectories here true t limit [] (names.map .name) = (made, ok)) (followLast : Bool)
    (node : Node Name Content) :
    made.look followLast here (.ofNames (names ++ [name])) = .ok (some node) ↔
      t.look followLast here (.ofNames (names ++ [name])) = .ok (some node) := by
  obtain ⟨existing, missing, q, new, rfl, hmade, -⟩ := (Leads.root t).exists_made h
  have hgrown := hmade.grown
  refine ⟨fun hlook => ?_, look_keeps hgrown.keeps⟩
  cases new with
  | nil =>
      refine look_keeps (fun p node hnode => ?_) hlook
      rw [← hnode, hgrown.other]
      exact fun pre hpre hnew => absurd (List.prefix_nil.mp hnew) hpre
  | cons first new =>
      exfalso
      obtain ⟨rest, hrest⟩ := hmade.isPrefix
      have hbegin {pre : List Name} (hpre : pre ≠ []) (hmore : pre <+: missing ++ [name]) :
          [first] <+: pre := by
        obtain ⟨other, pre, rfl⟩ := List.exists_cons_of_ne_nil hpre
        rw [← hrest] at hmore
        obtain ⟨rfl, -⟩ := List.cons_prefix_cons.mp hmore
        exact ⟨pre, rfl⟩
      have hplain : made.Plain followLast q (missing ++ [name]) := by
        intro pre hpre hmore _ target hlink
        rw [hgrown.node_below (hbegin hpre hmore)] at hlink
        split at hlink <;> exact nomatch hlink
      have hnone : made.node (q ++ (missing ++ [name])) = none := by
        rw [hgrown.node_below (hbegin (by simp) (List.prefix_refl _)), if_neg]
        intro hnew
        have hlength := (hnew.trans hmade.isPrefix).length_le
        rw [List.length_append, List.length_singleton] at hlength
        omega
      have hlead : made.Leads existing q := by simpa using hmade.last.keeps hgrown.keeps
      unfold look at hlook
      rw [locate_ofNames, List.append_assoc] at hlook
      split at hlook
      · next place hplace =>
        obtain ⟨rfl, -⟩ := hlead.eq_of_resolve (by simp) hplain hplace
        simp [hnone] at hlook
      · exact nomatch hlook
      · exact nomatch hlook

end FileTree

end ManicRoom.Foundation
