/-
# Where paths lead

A path that leads somewhere goes on leading there while everything that exists is kept. A
path along names that leads to a directory can be extended by names, and where the extension
meets no link it ends at the place that the names say. From these two facts follow rules for
the operations that make directories, write, remove and rename. Nothing here refers to a
particular program.
-/

import Mathlib.Data.List.Induction
import ManicRoom.Foundation.FileTree

namespace ManicRoom.Foundation

universe u v

namespace FileTree

variable {Name : Type u} {Content : Type v} {t t' : FileTree Name Content}

/-! ## Places -/

/-- What lies below something lies below a directory. -/
theorem node_eq_directory {place names : List Name} (h : t.node (place ++ names) ≠ none)
    (hnames : names ≠ []) : t.node place = some .directory := by
  induction names using List.reverseRecOn with
  | nil => exact absurd rfl hnames
  | append_singleton names name ih =>
      rw [← List.append_assoc] at h
      have hparent := t.parent _ name h
      by_cases hempty : names = []
      · simpa [hempty] using hparent
      · exact ih (by rw [hparent]; nofun) hempty

/-- Nothing lies below what is not a directory. -/
theorem node_eq_none {place names : List Name} (h : t.node place ≠ some .directory)
    (hnames : names ≠ []) : t.node (place ++ names) = none := by
  by_contra hsome
  exact h (node_eq_directory hsome hnames)

/-- The places on the way to something are directories. -/
theorem node_eq_directory_of_prefix {place more pre : List Name}
    (h : t.node (place ++ more.dropLast) = some .directory) (hpre : pre <+: more)
    (hne : pre ≠ more) : t.node (place ++ pre) = some .directory := by
  obtain ⟨rest, rfl⟩ := hpre
  have hrest : rest ≠ [] := by
    rintro rfl
    simp at hne
  rw [List.dropLast_append_of_ne_nil hrest, ← List.append_assoc] at h
  by_cases hlast : rest.dropLast = []
  · simpa [hlast] using h
  · exact node_eq_directory (by rw [h]; nofun) hlast

/-- What exists stands in a directory. -/
theorem node_dropLast {place : List Name} (hplace : place ≠ []) (h : t.node place ≠ none) :
    t.node place.dropLast = some .directory := by
  apply t.parent _ (place.getLast hplace)
  rwa [List.dropLast_append_getLast]

/-- Everything that exists stays as it is. -/
def Keeps (t t' : FileTree Name Content) : Prop :=
  ∀ place node, t.node place = some node → t'.node place = some node

theorem Keeps.refl (t : FileTree Name Content) : t.Keeps t := fun _ _ h => h

theorem Keeps.trans {t'' : FileTree Name Content} (h : t.Keeps t') (h' : t'.Keeps t'') :
    t.Keeps t'' :=
  fun place node hnode => h' place node (h place node hnode)

theorem Keeps.node_eq_none (h : t.Keeps t') {place : List Name} (hnone : t'.node place = none) :
    t.node place = none := by
  cases hnode : t.node place with
  | none => rfl
  | some node => exact nomatch hnone.symm.trans (h place node hnode)

/-! ## Resolution -/

section Walk

variable {followLast : Bool}
  {follow follow' : List Name → Path Name → List (Part Name) → Except PathError (List Name)}
  {here place : List Name} {name : Name} {parts rest : List (Part Name)}

theorem walk_directory (h : t.node (here ++ [name]) = some .directory) :
    t.walk followLast follow here (.name name :: rest) =
      t.walk followLast follow (here ++ [name]) rest := by
  simp only [walk, h]

theorem walk_link {target : Path Name} (h : t.node (here ++ [name]) = some (.link target)) :
    t.walk followLast follow here (.name name :: rest) =
      if rest.isEmpty ∧ followLast = false then .ok (here ++ [name])
      else follow here target rest := by
  simp only [walk, h]

/-- Only the last part may lead to a file or to nothing. -/
theorem walk_other (hdirectory : t.node (here ++ [name]) ≠ some .directory)
    (hlink : ∀ target, t.node (here ++ [name]) ≠ some (.link target)) :
    t.walk followLast follow here (.name name :: rest) =
      if rest.isEmpty then .ok (here ++ [name]) else .error .notFound := by
  simp only [walk]

/-- The last part leads to its place, whatever stands there, unless it is followed. -/
theorem walk_last (t : FileTree Name Content)
    (follow : List Name → Path Name → List (Part Name) → Except PathError (List Name))
    (here : List Name) (name : Name) :
    t.walk false follow here [.name name] = .ok (here ++ [name]) := by
  simp only [walk]
  split <;> simp

/-- What stands at a place. -/
theorem node_cases (t : FileTree Name Content) (place : List Name) :
    t.node place = some .directory ∨ (∃ target, t.node place = some (.link target)) ∨
      t.node place ≠ some .directory ∧ ∀ target, t.node place ≠ some (.link target) := by
  by_cases hdirectory : t.node place = some .directory
  · exact .inl hdirectory
  · by_cases hlink : ∃ target, t.node place = some (.link target)
    · exact .inr (.inl hlink)
    · exact .inr (.inr ⟨hdirectory, fun target h => hlink ⟨target, h⟩⟩)

/-- Nothing changes for a path whose end exists. -/
theorem walk_keeps (hkeeps : t.Keeps t')
    (hfollow : ∀ here target rest place, follow here target rest = .ok place →
      t.node place ≠ none → follow' here target rest = .ok place)
    (h : t.walk followLast follow here parts = .ok place) (hsome : t.node place ≠ none) :
    t'.walk followLast follow' here parts = .ok place := by
  induction parts generalizing here with
  | nil => exact h
  | cons part rest ih =>
      cases part with
      | here => exact ih h
      | up => exact ih h
      | name name =>
          rcases t.node_cases (here ++ [name]) with hnode | ⟨target, hnode⟩ | ⟨hdirectory, hlink⟩
          · rw [walk_directory hnode] at h
            rw [walk_directory (hkeeps _ _ hnode)]
            exact ih h
          · rw [walk_link hnode] at h
            rw [walk_link (hkeeps _ _ hnode)]
            split at h
            · next hlast => rw [if_pos hlast, h]
            · next hlast => rw [if_neg hlast, hfollow _ _ _ _ h hsome]
          · rw [walk_other hdirectory hlink] at h
            split at h
            · next hlast =>
              cases h
              cases hnode : t.node (here ++ [name]) with
              | none => exact absurd hnode hsome
              | some node =>
                  have hkept := hkeeps _ _ hnode
                  rw [walk_other (by rwa [hkept, ← hnode]) (by rwa [hkept, ← hnode]), if_pos hlast]
            · exact nomatch h

theorem walk_keeps_last (hkeeps : t.Keeps t')
    (hfollow : ∀ here target rest place, follow here target rest = .ok place →
      follow' here target rest = .ok place)
    (h : t.walk false follow here parts = .ok place) :
    t'.walk false follow' here parts = .ok place := by
  induction parts generalizing here with
  | nil => exact h
  | cons part rest ih =>
      cases part with
      | here => exact ih h
      | up => exact ih h
      | name name =>
          rcases t.node_cases (here ++ [name]) with hnode | ⟨target, hnode⟩ | ⟨hdirectory, hlink⟩
          · rw [walk_directory hnode] at h
            rw [walk_directory (hkeeps _ _ hnode)]
            exact ih h
          · rw [walk_link hnode] at h
            rw [walk_link (hkeeps _ _ hnode)]
            split at h
            · next hlast => rw [if_pos hlast, h]
            · next hlast => rw [if_neg hlast, hfollow _ _ _ _ h]
          · rw [walk_other hdirectory hlink] at h
            split at h
            · next hlast =>
              cases h
              rw [List.isEmpty_iff.mp hlast]
              exact walk_last t' follow' here name
            · exact nomatch h

/-- A path is not concerned with what file there is at its end. -/
theorem walk_file (hplace : t.node place ≠ some .directory)
    (hlink : ∀ target, t.node place ≠ some (.link target))
    (hplace' : t'.node place ≠ some .directory)
    (hlink' : ∀ target, t'.node place ≠ some (.link target))
    (hsame : ∀ other, other ≠ place → t'.node other = t.node other)
    (hfollow : ∀ here target rest, follow here target rest = .ok place →
      follow' here target rest = .ok place)
    (h : t.walk followLast follow here parts = .ok place) :
    t'.walk followLast follow' here parts = .ok place := by
  induction parts generalizing here with
  | nil => exact h
  | cons part rest ih =>
      cases part with
      | here => exact ih h
      | up => exact ih h
      | name name =>
          rcases t.node_cases (here ++ [name]) with hnode | ⟨target, hnode⟩ | ⟨hdirectory, hother⟩
          · have hne : here ++ [name] ≠ place := fun heq => hplace (heq ▸ hnode)
            rw [walk_directory hnode] at h
            rw [walk_directory (by rw [hsame _ hne, hnode])]
            exact ih h
          · have hne : here ++ [name] ≠ place := fun heq => hlink target (heq ▸ hnode)
            rw [walk_link hnode] at h
            rw [walk_link (by rw [hsame _ hne, hnode])]
            split at h
            · next hlast => rw [if_pos hlast, h]
            · next hlast => rw [if_neg hlast, hfollow _ _ _ h]
          · rw [walk_other hdirectory hother] at h
            split at h
            · next hlast =>
              cases h
              rw [walk_other hplace' hlink', if_pos hlast]
            · exact nomatch h

/-- A path that is followed to its end does not lead to a link. -/
theorem walk_ne_link
    (hfollow : ∀ here target rest place, t.node here = some .directory →
      follow here target rest = .ok place → ∀ target, t.node place ≠ some (.link target))
    (hhere : t.node here = some .directory) (h : t.walk true follow here parts = .ok place)
    (target : Path Name) : t.node place ≠ some (.link target) := by
  induction parts generalizing here with
  | nil =>
      cases h
      rw [hhere]
      nofun
  | cons part rest ih =>
      cases part with
      | here => exact ih hhere h
      | up =>
          apply ih _ h
          by_cases hroot : here = []
          · rw [hroot]
            exact t.root
          · exact node_dropLast hroot (by rw [hhere]; nofun)
      | name name =>
          rcases t.node_cases (here ++ [name]) with hnode | ⟨target, hnode⟩ | ⟨hdirectory, hother⟩
          · rw [walk_directory hnode] at h
            exact ih hnode h
          · rw [walk_link hnode, if_neg (by simp)] at h
            exact hfollow _ _ _ _ hhere h _
          · rw [walk_other hdirectory hother] at h
            split at h
            · cases h
              exact hother target
            · exact nomatch h

/-- Beyond a directory a walk goes on from there. -/
theorem exists_walk_append
    (hfollow : ∀ here target rest place, follow here target rest = .ok place →
      t.node place = some .directory →
        ∃ next, ∀ more, more ≠ [] →
          follow' here target (rest ++ more) = t.walk followLast next place more)
    (h : t.walk true follow here parts = .ok place) (hdirectory : t.node place = some .directory) :
    ∃ next, ∀ more, more ≠ [] →
      t.walk followLast follow' here (parts ++ more) = t.walk followLast next place more := by
  induction parts generalizing here with
  | nil =>
      cases h
      exact ⟨follow', fun _ _ => rfl⟩
  | cons part parts ih =>
      cases part with
      | here => exact ih h
      | up => exact ih h
      | name name =>
          rcases t.node_cases (here ++ [name]) with hnode | ⟨target, hnode⟩ | ⟨hother, hlink⟩
          · rw [walk_directory hnode] at h
            obtain ⟨next, hnext⟩ := ih h
            refine ⟨next, fun more hmore => ?_⟩
            rw [List.cons_append, walk_directory hnode]
            exact hnext more hmore
          · rw [walk_link hnode, if_neg (by simp)] at h
            obtain ⟨next, hnext⟩ := hfollow _ _ _ _ h hdirectory
            refine ⟨next, fun more hmore => ?_⟩
            rw [List.cons_append, walk_link hnode, if_neg (by simp [hmore])]
            exact hnext more hmore
          · rw [walk_other hother hlink] at h
            split at h
            · cases h
              exact absurd hdirectory hother
            · exact nomatch h

end Walk

theorem resolve_keeps (hkeeps : t.Keeps t') {followLast : Bool} {links : ℕ}
    {here place : List Name} {parts : List (Part Name)}
    (h : t.resolve followLast links here parts = .ok place) (hsome : t.node place ≠ none) :
    t'.resolve followLast links here parts = .ok place := by
  induction links generalizing here place parts with
  | zero => exact walk_keeps hkeeps (fun _ _ _ _ hloop _ => hloop) h hsome
  | succ links ih => exact walk_keeps hkeeps (fun _ _ _ _ hnext hsome => ih hnext hsome) h hsome

/-- Without following the last part, it does not matter whether the end exists. -/
theorem resolve_keeps_last (hkeeps : t.Keeps t') {links : ℕ} {here place : List Name}
    {parts : List (Part Name)} (h : t.resolve false links here parts = .ok place) :
    t'.resolve false links here parts = .ok place := by
  induction links generalizing here place parts with
  | zero => exact walk_keeps_last hkeeps (fun _ _ _ _ hloop => hloop) h
  | succ links ih => exact walk_keeps_last hkeeps (fun _ _ _ _ hnext => ih hnext) h

theorem resolve_file {followLast : Bool} {links : ℕ} {here place : List Name}
    {parts : List (Part Name)} (hplace : t.node place ≠ some .directory)
    (hlink : ∀ target, t.node place ≠ some (.link target))
    (hplace' : t'.node place ≠ some .directory)
    (hlink' : ∀ target, t'.node place ≠ some (.link target))
    (hsame : ∀ other, other ≠ place → t'.node other = t.node other)
    (h : t.resolve followLast links here parts = .ok place) :
    t'.resolve followLast links here parts = .ok place := by
  induction links generalizing here parts with
  | zero => exact walk_file hplace hlink hplace' hlink' hsame (fun _ _ _ hloop => hloop) h
  | succ links ih =>
      exact walk_file hplace hlink hplace' hlink' hsame (fun _ _ _ hnext => ih hnext) h

theorem resolve_ne_link {links : ℕ} {here place : List Name} {parts : List (Part Name)}
    (hhere : t.node here = some .directory) (h : t.resolve true links here parts = .ok place)
    (target : Path Name) : t.node place ≠ some (.link target) := by
  induction links generalizing here place parts target with
  | zero =>
      apply walk_ne_link _ hhere h target
      intro here link rest place _ hloop
      exact nomatch hloop
  | succ links ih =>
      apply walk_ne_link _ hhere h target
      intro here link rest place hdirectory hnext target
      apply ih _ hnext
      split
      · exact t.root
      · exact hdirectory

/-- Beyond a directory resolution goes on from there. -/
theorem exists_resolve_append (followLast : Bool) {links : ℕ} {here place : List Name}
    {parts : List (Part Name)} (h : t.resolve true links here parts = .ok place)
    (hdirectory : t.node place = some .directory) :
    ∃ next, ∀ more, more ≠ [] →
      t.resolve followLast links here (parts ++ more) = t.walk followLast next place more := by
  induction links generalizing here place parts with
  | zero =>
      apply exists_walk_append _ h hdirectory
      intro here target rest place hloop
      exact nomatch hloop
  | succ links ih =>
      apply exists_walk_append _ h hdirectory
      intro here target rest place hnext hdirectory
      obtain ⟨next, hmore⟩ := ih hnext hdirectory
      refine ⟨next, fun more hne => ?_⟩
      rw [← List.append_assoc]
      exact hmore more hne

/-! ## Along names -/

section Names

variable {followLast : Bool}
  {follow : List Name → Path Name → List (Part Name) → Except PathError (List Name)}
  {place names more : List Name}

/-- On the way there is no link that would be followed. -/
def Plain (t : FileTree Name Content) (followLast : Bool) (place more : List Name) : Prop :=
  ∀ pre, pre ≠ [] → pre <+: more → (pre ≠ more ∨ followLast = true) →
    ∀ target, t.node (place ++ pre) ≠ some (.link target)

theorem Plain.of_keeps (h : t'.Plain followLast place more) (hkeeps : t.Keeps t') :
    t.Plain followLast place more :=
  fun pre hpre hmore hlast target hlink => h pre hpre hmore hlast target (hkeeps _ _ hlink)

/-- The beginning of a way. -/
theorem Plain.shorten {less : List Name} (h : t.Plain true place more) (hless : less <+: more) :
    t.Plain followLast place less :=
  fun pre hpre hpreLess _ => h pre hpre (hpreLess.trans hless) (.inr rfl)

theorem Plain.tail {name : Name} (h : t.Plain followLast place (name :: more)) :
    t.Plain followLast (place ++ [name]) more := by
  intro pre hpre hmore hlast target
  rw [List.append_assoc]
  refine h ([name] ++ pre) (by simp) (by simpa using hmore) ?_ target
  simpa using hlast

/-- A single name is a way without links unless a link that stands there is followed. -/
theorem plain_singleton {name : Name}
    (h : followLast = true → ∀ target, t.node (place ++ [name]) ≠ some (.link target)) :
    t.Plain followLast place [name] := by
  intro pre hpre hmore hlast
  obtain ⟨first, pre, rfl⟩ := List.exists_cons_of_ne_nil hpre
  obtain ⟨rfl, hnil⟩ := List.cons_prefix_cons.mp hmore
  rw [List.prefix_nil.mp hnil] at hlast ⊢
  exact h (hlast.resolve_left fun hne => hne rfl)

/-- Names without links lead to the place that they say. -/
theorem walk_names (hplain : t.Plain followLast place more)
    (hdirectory : t.node (place ++ more.dropLast) = some .directory) :
    t.walk followLast follow place (more.map .name) = .ok (place ++ more) := by
  induction more generalizing place with
  | nil => simp [walk]
  | cons name more ih =>
      rw [List.map_cons]
      by_cases hmore : more = []
      · subst hmore
        rcases t.node_cases (place ++ [name]) with hnode | ⟨target, hnode⟩ | ⟨hother, hlink⟩
        · rw [walk_directory hnode]
          rfl
        · rw [walk_link hnode, if_pos]
          refine ⟨rfl, Bool.eq_false_iff.mpr fun htrue => ?_⟩
          exact hplain [name] (by simp) (List.prefix_refl _) (.inr htrue) target hnode
        · rw [walk_other hother hlink]
          rfl
      · rw [List.dropLast_cons_of_ne_nil hmore, ← List.singleton_append, ← List.append_assoc]
          at hdirectory
        have hnode : t.node (place ++ [name]) = some .directory := by
          by_cases hlast : more.dropLast = []
          · simpa [hlast] using hdirectory
          · exact node_eq_directory (by rw [hdirectory]; nofun) hlast
        rw [walk_directory hnode, ih hplain.tail hdirectory, List.append_assoc]
        rfl

/-- Without the directory of the last name, names without links lead nowhere. -/
theorem walk_names_missing (hplain : t.Plain followLast place more)
    (hplace : t.node place = some .directory)
    (hmissing : ¬ t.node (place ++ more.dropLast) = some .directory) :
    t.walk followLast follow place (more.map .name) = .error .notFound := by
  induction more generalizing place with
  | nil => exact absurd (by simpa using hplace) hmissing
  | cons name more ih =>
      have hmore : more ≠ [] := by
        rintro rfl
        exact hmissing (by simpa using hplace)
      rw [List.dropLast_cons_of_ne_nil hmore, ← List.singleton_append, ← List.append_assoc]
        at hmissing
      rw [List.map_cons]
      rcases t.node_cases (place ++ [name]) with hnode | ⟨target, hnode⟩ | ⟨hother, hlink⟩
      · rw [walk_directory hnode]
        exact ih hplain.tail hnode hmissing
      · exact absurd hnode
          (hplain [name] (by simp) (by simp) (.inl (by simp [Ne.symm hmore])) target)
      · rw [walk_other hother hlink, if_neg (by simp [hmore])]

/-- The converse: what names without links lead to is the place that they say. -/
theorem eq_of_walk_names (hplain : t.Plain followLast place more) {q : List Name}
    (hplace : t.node place = some .directory)
    (h : t.walk followLast follow place (more.map .name) = .ok q) :
    q = place ++ more ∧ t.node (place ++ more.dropLast) = some .directory := by
  induction more generalizing place with
  | nil =>
      cases h
      simpa using hplace
  | cons name more ih =>
      rw [List.map_cons] at h
      by_cases hmore : more = []
      · subst hmore
        refine ⟨?_, by simpa using hplace⟩
        rcases t.node_cases (place ++ [name]) with hnode | ⟨target, hnode⟩ | ⟨hother, hlink⟩
        · rw [walk_directory hnode] at h
          cases h
          rfl
        · rw [walk_link hnode] at h
          split at h
          · cases h
            rfl
          · next hlast =>
            have htrue : followLast = true := by simpa using hlast
            exact absurd hnode (hplain [name] (by simp) (List.prefix_refl _) (.inr htrue) target)
        · rw [walk_other hother hlink] at h
          cases h
          rfl
      · rw [List.dropLast_cons_of_ne_nil hmore, ← List.singleton_append, ← List.append_assoc]
        rcases t.node_cases (place ++ [name]) with hnode | ⟨target, hnode⟩ | ⟨hother, hlink⟩
        · rw [walk_directory hnode] at h
          obtain ⟨rfl, hdirectory⟩ := ih hplain.tail hnode h
          exact ⟨by simp, by simpa using hdirectory⟩
        · exact absurd hnode
            (hplain [name] (by simp) (by simp) (.inl (by simp [Ne.symm hmore])) target)
        · rw [walk_other hother hlink, if_neg (by simp [hmore])] at h
          exact nomatch h

/-- The names lead from the root to a directory. -/
structure Leads (t : FileTree Name Content) (names place : List Name) : Prop where
  resolve : t.resolve true maxLinks [] (names.map .name) = .ok place
  directory : t.node place = some .directory

theorem Leads.root (t : FileTree Name Content) : t.Leads [] [] := ⟨rfl, t.root⟩

theorem Leads.unique {q : List Name} (hlead : t.Leads names place) (h : t.Leads names q) :
    place = q :=
  Except.ok.inj (hlead.resolve.symm.trans h.resolve)

theorem Leads.keeps (hlead : t.Leads names place) (hkeeps : t.Keeps t') : t'.Leads names place where
  resolve := resolve_keeps hkeeps hlead.resolve (by rw [hlead.directory]; nofun)
  directory := hkeeps _ _ hlead.directory

theorem locate_eq (t : FileTree Name Content) (here : List Name) {p : Path Name}
    (hp : p.absolute = true) :
    t.locate followLast here p = t.resolve (followLast || p.trailing) maxLinks [] p.parts := by
  simp [locate, Path.isEmpty, hp]

theorem locate_ofNames (t : FileTree Name Content) (here names : List Name) :
    t.locate followLast here (.ofNames names) =
      t.resolve followLast maxLinks [] (names.map .name) := by
  rw [locate_eq t here (Path.ofNames_absolute names), Path.ofNames_trailing, Bool.or_false,
    Path.ofNames_parts]

/-- More names without links, from a directory that names lead to. -/
theorem Leads.resolve_append (hlead : t.Leads names place) (hmore : more ≠ [])
    (hplain : t.Plain followLast place more)
    (hdirectory : t.node (place ++ more.dropLast) = some .directory) :
    t.resolve followLast maxLinks [] ((names ++ more).map .name) = .ok (place ++ more) := by
  obtain ⟨next, hnext⟩ := exists_resolve_append followLast hlead.resolve hlead.directory
  rw [List.map_append, hnext _ (by simpa using hmore)]
  exact walk_names hplain hdirectory

theorem Leads.eq_of_resolve (hlead : t.Leads names place) (hmore : more ≠ [])
    (hplain : t.Plain followLast place more) {q : List Name}
    (h : t.resolve followLast maxLinks [] ((names ++ more).map .name) = .ok q) :
    q = place ++ more ∧ t.node (place ++ more.dropLast) = some .directory := by
  obtain ⟨next, hnext⟩ := exists_resolve_append followLast hlead.resolve hlead.directory
  rw [List.map_append, hnext _ (by simpa using hmore)] at h
  exact eq_of_walk_names hplain hlead.directory h

/-- A way that exists has no links. -/
theorem plain_of_node (hnode : t.node (place ++ more) = some .directory) :
    t.Plain followLast place more := by
  intro pre hpre hmore _ target hlink
  obtain ⟨rest, rfl⟩ := hmore
  rw [← List.append_assoc] at hnode
  by_cases hrest : rest = []
  · rw [hrest, List.append_nil] at hnode
    exact absurd (hlink.symm.trans hnode) (by simp)
  · have hdirectory := node_eq_directory (by rw [hnode]; rintro ⟨⟩) hrest
    exact absurd (hlink.symm.trans hdirectory) (by simp)

theorem Leads.append (hlead : t.Leads names place)
    (hnode : t.node (place ++ more) = some .directory) :
    t.Leads (names ++ more) (place ++ more) := by
  by_cases hmore : more = []
  · subst hmore
    simpa using hlead
  · refine ⟨hlead.resolve_append hmore (plain_of_node hnode) ?_, hnode⟩
    by_cases hlast : more.dropLast = []
    · simpa [hlast] using hlead.directory
    · have hsplit := List.dropLast_append_getLast hmore
      rw [← hsplit, ← List.append_assoc] at hnode
      exact node_eq_directory (by rw [hnode]; nofun) (by simp)

/-- A link on the way shows up when one looks at the places on the way. -/
theorem Leads.plain_of_lstat (hlead : t.Leads names place) {here : List Name}
    (h : ∀ pre, pre ≠ [] → pre <+: more → ∀ target,
      t.lstat here (.ofNames (names ++ pre)) ≠ .ok (some (.link target))) :
    t.Plain true place more := by
  intro pre hpre hmore _ target hlink
  induction pre using List.reverseRecOn generalizing target with
  | nil => exact hpre rfl
  | append_singleton pre name ih =>
      have hdirectory : t.node (place ++ pre) = some .directory :=
        t.parent _ name (by rw [List.append_assoc, hlink]; nofun)
      apply h (pre ++ [name]) hpre hmore target
      have hplain : t.Plain false (place ++ pre) [name] := plain_singleton nofun
      have hresolve := (hlead.append hdirectory).resolve_append (by simp) hplain
        (by simpa using hdirectory)
      rw [List.append_assoc, List.append_assoc] at hresolve
      simp only [lstat, look, locate_ofNames, hresolve, hlink, Path.ofNames_trailing]
      simp

/-- What is found along names without links is what is there. -/
theorem Leads.stat_eq (hlead : t.Leads names place) (hplain : t.Plain true place more)
    {here : List Name} {p : Path Name} (habsolute : p.absolute = true)
    (hparts : p.parts = (names ++ more).map .name) :
    t.stat here p = .ok (if p.trailing = true ∧ ¬ t.node (place ++ more) = some .directory then none
      else t.node (place ++ more)) := by
  rw [stat, look, locate_eq t here habsolute, Bool.true_or, hparts]
  by_cases hmore : more = []
  · subst hmore
    simp only [List.append_nil, hlead.resolve]
  · by_cases hdirectory : t.node (place ++ more.dropLast) = some .directory
    · rw [hlead.resolve_append hmore hplain hdirectory]
    · -- The directory is missing, and what would be in it with it.
      obtain ⟨next, hnext⟩ := exists_resolve_append true hlead.resolve hlead.directory
      have hnone : t.node (place ++ more) = none := by
        rw [← List.dropLast_append_getLast hmore, ← List.append_assoc]
        exact node_eq_none hdirectory (by simp)
      rw [List.map_append, hnext _ (by simpa using hmore),
        walk_names_missing hplain hlead.directory hdirectory, hnone, ite_self]

/-- What is found stays there while everything that exists is kept. -/
theorem look_keeps (hkeeps : t.Keeps t') {here : List Name} {path : Path Name}
    {node : Node Name Content} (h : t.look followLast here path = .ok (some node)) :
    t'.look followLast here path = .ok (some node) := by
  unfold look at h ⊢
  split at h
  · next q hlocate =>
    split at h
    · exact nomatch h
    · next hdirectory =>
      have hnode : t.node q = some node := Except.ok.inj h
      have hlocate' : t'.locate followLast here path = .ok q := by
        unfold locate at hlocate ⊢
        split at hlocate
        · exact nomatch hlocate
        · next hempty =>
          rw [if_neg hempty]
          exact resolve_keeps hkeeps hlocate (by rw [hnode]; nofun)
      have hkept := hkeeps q node hnode
      rw [hnode] at hdirectory
      simp only [hlocate', hkept, if_neg hdirectory]
  · exact nomatch h
  · exact nomatch h

end Names

/-! ## Canonical paths -/

/-- The normal form of a path from the root is made of names. -/
theorem exists_names_of_normal {p : Path Name} (habsolute : p.absolute = true) :
    p.normal.absolute = true ∧ ∃ names : List Name, p.normal.parts = names.map .name := by
  obtain ⟨names, hnames⟩ := Path.exists_names_of_cancel [] p.parts
  have hempty : p.isEmpty = false := by simp [Path.isEmpty, habsolute]
  refine ⟨?_, names, ?_⟩
  · simp [Path.normal, hempty, habsolute]
  · simpa [Path.normal, hempty, habsolute] using hnames

/-- A canonical path is made of names from the root. -/
theorem exists_names_of_weaklyCanonical {here : List Name} {path canonical : Path Name}
    (h : t.weaklyCanonical here path = .ok canonical) :
    canonical.absolute = true ∧ ∃ names : List Name, canonical.parts = names.map .name := by
  unfold weaklyCanonical at h
  generalize path.elements.length = count at h
  induction count with
  | zero =>
      cases h
      exact exists_names_of_normal (by rw [Path.foldl_appendElement_absolute]; rfl)
  | succ count ih =>
      simp only [canonicalFrom] at h
      split at h
      · cases h
        exact exists_names_of_normal (by rw [Path.foldl_appendElement_absolute]; rfl)
      · exact nomatch h
      · exact ih h

end FileTree

end ManicRoom.Foundation
