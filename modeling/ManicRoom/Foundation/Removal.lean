/-
# Removing

Beyond a directory a path goes on with the links that are left to it. Removing leaves every other
place as it was, so a path that still leads to something led there before. A directory can only be
removed when it is empty, and what is in a directory is for the system to list. Nothing here refers
to a particular program.
-/

import ManicRoom.Foundation.Resolution

namespace ManicRoom.Foundation

universe u v

namespace FileTree

variable {Name : Type u} {Content : Type v} {t t' t'' : FileTree Name Content}
  {followLast : Bool} {links : ℕ} {here place names : List Name} {name : Name}
  {parts rest more : List (Part Name)}

/-! ## Resolution, part by part -/

/-- Where the target of a link is looked up. -/
def startOf (target : Path Name) (here : List Name) : List Name :=
  if target.absolute then [] else here

@[simp]
theorem resolve_nil (t : FileTree Name Content) (followLast : Bool) (links : ℕ)
    (here : List Name) : t.resolve followLast links here [] = .ok here := by
  cases links <;> rfl

@[simp]
theorem resolve_here (t : FileTree Name Content) (followLast : Bool) (links : ℕ)
    (here : List Name) (rest : List (Part Name)) :
    t.resolve followLast links here (.here :: rest) = t.resolve followLast links here rest := by
  cases links <;> rfl

@[simp]
theorem resolve_up (t : FileTree Name Content) (followLast : Bool) (links : ℕ)
    (here : List Name) (rest : List (Part Name)) :
    t.resolve followLast links here (.up :: rest) =
      t.resolve followLast links here.dropLast rest := by
  cases links <;> rfl

theorem resolve_directory (h : t.node (here ++ [name]) = some .directory) :
    t.resolve followLast links here (.name name :: rest) =
      t.resolve followLast links (here ++ [name]) rest := by
  cases links with
  | zero => exact walk_directory h
  | succ links => exact walk_directory h

/-- A link costs one of the links that are left. -/
theorem resolve_link {target : Path Name} (h : t.node (here ++ [name]) = some (.link target)) :
    t.resolve followLast links here (.name name :: rest) =
      if rest.isEmpty ∧ followLast = false then .ok (here ++ [name])
      else match links with
        | 0 => .error .loop
        | left + 1 => t.resolve followLast left (startOf target here) (target.parts ++ rest) := by
  cases links with
  | zero => exact walk_link h
  | succ links => exact walk_link h

theorem resolve_other (hdirectory : t.node (here ++ [name]) ≠ some .directory)
    (hlink : ∀ target, t.node (here ++ [name]) ≠ some (.link target)) :
    t.resolve followLast links here (.name name :: rest) =
      if rest.isEmpty then .ok (here ++ [name]) else .error .notFound := by
  cases links with
  | zero => exact walk_other hdirectory hlink
  | succ links => exact walk_other hdirectory hlink

@[simp]
theorem resolve_last (t : FileTree Name Content) (links : ℕ) (here : List Name) (name : Name) :
    t.resolve false links here [.name name] = .ok (here ++ [name]) := by
  cases links with
  | zero => exact walk_last t _ here name
  | succ links => exact walk_last t _ here name

/-- A name that is no link leads to its place. -/
theorem resolve_single (hlink : ∀ target, t.node (here ++ [name]) ≠ some (.link target)) :
    t.resolve followLast links here [.name name] = .ok (here ++ [name]) := by
  by_cases hdirectory : t.node (here ++ [name]) = some .directory
  · rw [resolve_directory hdirectory, resolve_nil]
  · rw [resolve_other hdirectory hlink]
    rfl

/-- Resolution takes one part after the other and, with fewer links, goes into what a link
leads to. -/
theorem resolve_induction (t : FileTree Name Content)
    {motive : ℕ → List Name → List (Part Name) → Prop}
    (nil : ∀ links here, motive links here [])
    (here : ∀ links here rest, motive links here rest → motive links here (.here :: rest))
    (up : ∀ links here rest, motive links here.dropLast rest → motive links here (.up :: rest))
    (directory : ∀ links here name rest, t.node (here ++ [name]) = some .directory →
      motive links (here ++ [name]) rest → motive links here (.name name :: rest))
    (link : ∀ links here name rest target, t.node (here ++ [name]) = some (.link target) →
      (∀ left, links = left + 1 → motive left (startOf target here) (target.parts ++ rest)) →
        motive links here (.name name :: rest))
    (other : ∀ links here name rest, t.node (here ++ [name]) ≠ some .directory →
      (∀ target, t.node (here ++ [name]) ≠ some (.link target)) →
        motive links here (.name name :: rest))
    (links : ℕ) (place : List Name) (parts : List (Part Name)) : motive links place parts := by
  induction links using Nat.strongRecOn generalizing place parts with
  | ind links ih =>
      induction parts generalizing place with
      | nil => exact nil links place
      | cons part rest ihParts =>
          cases part with
          | here => exact here links place rest (ihParts place)
          | up => exact up links place rest (ihParts place.dropLast)
          | name name =>
              rcases t.node_cases (place ++ [name]) with hnode | ⟨target, hnode⟩ | ⟨hother, hlink⟩
              · exact directory links place name rest hnode (ihParts (place ++ [name]))
              · apply link links place name rest target hnode
                intro left hleft
                exact ih left (by omega) _ _
              · exact other links place name rest hother hlink

/-- **Beyond a directory** a path goes on with the links that are left to it. -/
theorem exists_links_left (h : t.resolve true links here parts = .ok place)
    (hdirectory : t.node place = some .directory) :
    ∃ left, ∀ followLast more, more ≠ [] →
      t.resolve followLast links here (parts ++ more) =
        t.resolve followLast left place more := by
  induction links, here, parts using resolve_induction t with
  | nil links here =>
      rw [resolve_nil, Except.ok.injEq] at h
      exact ⟨links, fun _ _ _ => by rw [h, List.nil_append]⟩
  | here links here rest ih =>
      simp only [List.cons_append, resolve_here] at h ⊢
      exact ih h
  | up links here rest ih =>
      simp only [List.cons_append, resolve_up] at h ⊢
      exact ih h
  | directory links here name rest hnode ih =>
      rw [resolve_directory hnode] at h
      simp only [List.cons_append, resolve_directory hnode]
      exact ih h
  | link links here name rest target hnode ih =>
      rw [resolve_link hnode, if_neg (by simp)] at h
      cases links with
      | zero => cases h
      | succ links =>
          obtain ⟨left, hleft⟩ := ih links rfl h
          refine ⟨left, ?_⟩
          intro followLast more hmore
          rw [List.cons_append, resolve_link hnode, if_neg (by simp [hmore]),
            ← List.append_assoc]
          exact hleft followLast more hmore
  | other links here name rest hother hlink =>
      rw [resolve_other hother hlink] at h
      split at h
      · cases h
        exact absurd hdirectory hother
      · cases h

/-- A name that leads to something is that of something. -/
theorem node_ne_none_of_resolve
    (h : t.resolve followLast links here (.name name :: rest) = .ok place)
    (hsome : t.node place ≠ none) : t.node (here ++ [name]) ≠ none := by
  intro hnone
  rw [resolve_other (by rw [hnone]; rintro ⟨⟩) (by rw [hnone]; rintro _ ⟨⟩)] at h
  split at h
  · cases h
    exact hsome hnone
  · cases h

/-- A path that goes on by names to something leads through a directory. -/
theorem directory_of_resolve_append (hnames : names ≠ [])
    (h : t.resolve followLast links here (parts ++ names.map .name) = .ok place)
    (hsome : t.node place ≠ none) :
    ∃ through, t.resolve true links here parts = .ok through ∧
      t.node through = some .directory := by
  have hmore : names.map Part.name ≠ [] := by simpa using hnames
  induction links, here, parts using resolve_induction t with
  | nil links here =>
      obtain ⟨name, more, rfl⟩ := List.exists_cons_of_ne_nil hnames
      exact ⟨here, by simp, t.parent here name (node_ne_none_of_resolve h hsome)⟩
  | here links here rest ih =>
      rw [List.cons_append, resolve_here] at h
      rw [resolve_here]
      exact ih h
  | up links here rest ih =>
      rw [List.cons_append, resolve_up] at h
      rw [resolve_up]
      exact ih h
  | directory links here name rest hnode ih =>
      rw [List.cons_append, resolve_directory hnode] at h
      rw [resolve_directory hnode]
      exact ih h
  | link links here name rest target hnode ih =>
      rw [List.cons_append, resolve_link hnode, if_neg (by simp [hmore])] at h
      rw [resolve_link hnode, if_neg (by simp)]
      cases links with
      | zero => cases h
      | succ links =>
          rw [← List.append_assoc] at h
          exact ih links rfl h
  | other links here name rest hother hlink =>
      rw [List.cons_append, resolve_other hother hlink, if_neg (by simp [hmore])] at h
      cases h

/-- What ends at a directory without following its last part ends there as well when followed. -/
theorem resolve_true_of_directory (h : t.resolve false links here parts = .ok place)
    (hdirectory : t.node place = some .directory) :
    t.resolve true links here parts = .ok place := by
  induction links, here, parts using resolve_induction t with
  | nil links here => simpa using h
  | here links here rest ih =>
      rw [resolve_here] at h ⊢
      exact ih h
  | up links here rest ih =>
      rw [resolve_up] at h ⊢
      exact ih h
  | directory links here name rest hnode ih =>
      rw [resolve_directory hnode] at h ⊢
      exact ih h
  | link links here name rest target hnode ih =>
      rw [resolve_link hnode] at h
      rw [resolve_link hnode, if_neg (by simp)]
      split at h
      · cases h
        exact absurd (hdirectory.symm.trans hnode) (by simp)
      · cases links with
        | zero => cases h
        | succ links => exact ih links rfl h
  | other links here name rest hother hlink =>
      rw [resolve_other hother hlink] at h ⊢
      exact h

/-- The directories that names and links lead to, from a directory. -/
inductive Reaches (t : FileTree Name Content) (root : List Name) : List Name → Prop
  | refl : Reaches t root root
  | directory {here : List Name} {name : Name} : Reaches t root here →
      t.node (here ++ [name]) = some .directory → Reaches t root (here ++ [name])
  | link {here there : List Name} {name : Name} {target : Path Name} {links : ℕ} :
      Reaches t root here → t.node (here ++ [name]) = some (.link target) →
        t.resolve true links (startOf target here) target.parts = .ok there →
          t.node there = some .directory → Reaches t root there

/-- The directory that a name leads to. -/
theorem Reaches.entry {root : List Name} (h : t.Reaches root here)
    (hresolve : t.resolve true links here [.name name] = .ok place)
    (hdirectory : t.node place = some .directory) : t.Reaches root place := by
  rcases t.node_cases (here ++ [name]) with hnode | ⟨target, hnode⟩ | ⟨hother, hlink⟩
  · rw [resolve_directory hnode, resolve_nil] at hresolve
    cases hresolve
    exact h.directory hnode
  · rw [resolve_link hnode, if_neg (by simp)] at hresolve
    cases links with
    | zero => cases hresolve
    | succ links =>
        simp only [List.append_nil] at hresolve
        exact h.link hnode hresolve hdirectory
  · rw [resolve_other hother hlink] at hresolve
    cases hresolve
    exact absurd hdirectory hother

/-! ## Without a place -/

/-- The file system without what was at and below a place. -/
def Without (t t' : FileTree Name Content) (place : List Name) : Prop :=
  ∀ other, (place <+: other → t'.node other = none) ∧
    (¬ place <+: other → t'.node other = t.node other)

theorem Without.keeps (h : t.Without t' place) : t'.Keeps t := by
  intro other node hnode
  by_cases hbelow : place <+: other
  · rw [(h other).1 hbelow] at hnode
    cases hnode
  · rwa [← (h other).2 hbelow]

/-- Nothing is missing where there was nothing. -/
theorem without_self (h : t.node place = none) : t.Without t place := by
  intro other
  refine ⟨?_, fun _ => rfl⟩
  rintro ⟨more, rfl⟩
  by_cases hmore : more = []
  · rw [hmore, List.append_nil, h]
  · exact node_eq_none (by rw [h]; rintro ⟨⟩) hmore

/-- Where nothing was below the place, nothing else is gone. -/
theorem Without.eq_of_gone (h : t.Without t' place)
    (hempty : ∀ name, t.node (place ++ [name]) = none) {other : List Name}
    (hsome : t.node other ≠ none) (hgone : t'.node other = none) : other = place := by
  by_cases hbelow : place <+: other
  · obtain ⟨more, rfl⟩ := hbelow
    cases more with
    | nil => rw [List.append_nil]
    | cons name more =>
        exfalso
        by_cases hmore : more = []
        · exact hsome (hmore ▸ hempty name)
        · have hnone : t.node (place ++ [name]) ≠ some .directory := by
            rw [hempty name]
            rintro ⟨⟩
          apply hsome
          rw [List.append_cons]
          exact node_eq_none hnone hmore
  · rw [(h other).2 hbelow] at hgone
    exact absurd hgone hsome

variable [DecidableEq Name]

theorem without_remove (t : FileTree Name Content) (hplace : place ≠ []) :
    t.Without (t.remove place hplace) place :=
  fun _ => ⟨fun hbelow => if_pos hbelow, fun hbelow => if_neg hbelow⟩

/-! ## Operations -/

/-- `unlink`, where the system refuses to remove some places. -/
def unlink (t : FileTree Name Content) (refuses : List Name → Bool) (here : List Name)
    (path : Path Name) : Option (FileTree Name Content) :=
  match t.locate false here path with
  | .error _ => none
  | .ok place =>
      if h : place ≠ [] ∧ ¬ t.node place = none ∧ ¬ t.node place = some .directory ∧
          path.trailing = false ∧ refuses place = false then
        some (t.remove place h.1)
      else none

/-- `rmdir`, where the system lists what is in a directory. -/
def rmdir (t : FileTree Name Content) (listing : FileTree Name Content → List Name → List Name)
    (refuses : List Name → Bool) (here : List Name) (path : Path Name) :
    Option (FileTree Name Content) :=
  match t.locate false here path with
  | .error _ => none
  | .ok place =>
      if h : place ≠ [] ∧ t.node place = some .directory ∧ (listing t place).isEmpty ∧
          refuses place = false then
        some (t.remove place h.1)
      else none

/-- The system lists the names of what is in each directory, also when something has been
removed. -/
def Lists (t : FileTree Name Content)
    (listing : FileTree Name Content → List Name → List Name) : Prop :=
  ∀ smaller : FileTree Name Content, smaller.Keeps t → ∀ place name,
    name ∈ listing smaller place ↔ smaller.node (place ++ [name]) ≠ none

omit [DecidableEq Name] in
theorem Lists.smaller {listing : FileTree Name Content → List Name → List Name}
    (h : t.Lists listing) (hkeeps : t'.Keeps t) : t'.Lists listing :=
  fun smaller hsmaller => h smaller (hsmaller.trans hkeeps)

theorem unlink_eq_some {refuses : List Name → Bool} {path : Path Name}
    (h : t.unlink refuses here path = some t') :
    ∃ place, t.locate false here path = .ok place ∧ t.node place ≠ none ∧
      t.node place ≠ some .directory ∧ t.Without t' place := by
  unfold unlink at h
  split at h
  · cases h
  · next place hlocate =>
    split at h
    · next hplace =>
      cases h
      exact ⟨place, hlocate, hplace.2.1, hplace.2.2.1, without_remove t hplace.1⟩
    · cases h

theorem rmdir_eq_some {listing : FileTree Name Content → List Name → List Name}
    {refuses : List Name → Bool} {path : Path Name}
    (h : t.rmdir listing refuses here path = some t') :
    ∃ place, t.locate false here path = .ok place ∧ t.node place = some .directory ∧
      listing t place = [] ∧ t.Without t' place := by
  unfold rmdir at h
  split at h
  · cases h
  · next place hlocate =>
    split at h
    · next hplace =>
      cases h
      exact ⟨place, hlocate, hplace.2.1, List.isEmpty_iff.mp hplace.2.2.1,
        without_remove t hplace.1⟩
    · cases h

end FileTree

end ManicRoom.Foundation
