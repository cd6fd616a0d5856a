/-
# Histories of user paths

The maps are empty at first, and the first call fills them. From then on the directories that are
derived from the user directory lie below one directory. This is the user directory, unless
`SetUserPath("")` has exchanged the user directory alone.
-/

import ManicRoom.Storage.Isolation

namespace ManicRoom.Storage

open ManicRoom.Foundation

/-- `SetUserPath` with a path of its own. -/
def Call.IsExplicit : Call → Prop
  | .setUserPath path _ _ => path ≠ []
  | _ => False

/-- `SetUserPath("")` -/
def Call.IsDefault : Call → Prop
  | .setUserPath path _ _ => path = []
  | _ => False

/-- Since the last `SetUserPath` with a path of its own, or else since the first call, there has
been no `SetUserPath("")`. -/
def Undivided (history : List Call) : Prop :=
  ∃ before call after, history = before ++ call :: after ∧ (before = [] ∨ call.IsExplicit) ∧
    ∀ later ∈ after, ¬ later.IsDefault

section Maps

variable (constants : Constants)

/-- The derived directories lie below this one. -/
def Below (m : PathMap) (base : Text) : Prop :=
  ∀ key ∈ derivedKeys, m.lookup key = some (base ++ constants.folder key)

/-- The derived directories lie below one directory, and the default paths are known as well. -/
structure Gathered (s : PathMaps) : Prop where
  below : ∃ base, Below constants s.paths base
  defaults : s.defaults ≠ []

/-- The directory below which they lie is the user directory. -/
structure United (s : PathMaps) : Prop where
  derived : ∃ user, Derived constants s.paths user
  defaults : s.defaults ≠ []

variable {constants}

theorem Derived.below {m : PathMap} {user : Text} (h : Derived constants m user) :
    Below constants m user := h.derived

theorem Below.ne_nil {m : PathMap} {base : Text} (h : Below constants m base) : m ≠ [] := by
  rintro rfl
  exact nomatch h .sdmcDir (by decide)

theorem Below.touch {m : PathMap} {base : Text} (h : Below constants m base) (key : UserPath) :
    Below constants (m.touch key) base :=
  fun key' hmem => PathMap.lookup_touch (h key' hmem) key

theorem PathMap.touch_ne_nil {m : PathMap} (h : m ≠ []) (key : UserPath) : m.touch key ≠ [] := by
  unfold touch emplace
  split
  · exact h
  · exact List.cons_ne_nil _ _

theorem United.gathered {s : PathMaps} (united : United constants s) : Gathered constants s := by
  obtain ⟨user, hderived⟩ := united.derived
  exact ⟨⟨user, hderived.below⟩, united.defaults⟩

/-- `SetUserPath("")` leaves the derived directories where they are. -/
theorem Below.setUserPath {s : PathMaps} {base : Text} (h : Below constants s.paths base)
    (created : Bool) (around : Surroundings) :
    Below constants (setUserPath constants [] created around s).paths base := by
  intro key hmem
  have hbefore := PathMap.lookup_touch (h key hmem) .userDir
  have hkept := (@lookup_defaultPaths constants around (s.paths.touch .userDir)).2 key hmem
  simp only [Storage.setUserPath, if_true, ne_eq, not_true_eq_false, false_and, if_false]
  rw [lookup_foldl_derive, if_pos hmem, hkept, hbefore, Option.getD_some]

end Maps

/-! ## Single calls -/

section Calls

variable {constants : Constants} {s : PathMaps}

/-- What `SetUserPath` does is copied to the default paths. -/
theorem setUserPath_defaults (path : Text) (created : Bool) (around : Surroundings)
    (s : PathMaps) : (setUserPath constants path created around s).defaults =
      (setUserPath constants path created around s).paths := rfl

theorem united_setUserPath (path : Text) (created : Bool) (around : Surroundings)
    (h : path ≠ [] ∨ s.paths = []) :
    United constants (setUserPath constants path created around s) := by
  obtain ⟨user, hderived, -⟩ := @derived_setUserPath constants path created around s h
  refine ⟨⟨user, hderived⟩, ?_⟩
  rw [setUserPath_defaults]
  exact hderived.ne_nil

/-- The maps are filled if they have to be. -/
theorem united_filled (h : s.paths = [] ∨ United constants s) (around : Surroundings) :
    United constants (if s.paths = [] then setUserPath constants [] false around s else s) := by
  split
  · next hempty => exact united_setUserPath [] false around (.inr hempty)
  · next hfilled => exact h.resolve_left hfilled

theorem united_getUserPath (h : s.paths = [] ∨ United constants s) (key : UserPath)
    (around : Surroundings) : United constants (getUserPath constants key around s).1 := by
  have united := united_filled h around
  unfold getUserPath
  generalize (if s.paths = [] then setUserPath constants [] false around s else s) = s at united ⊢
  obtain ⟨user, hderived⟩ := united.derived
  exact ⟨⟨user, hderived.touch key⟩, united.defaults⟩

theorem united_getDefaultUserPath (h : s = start ∨ United constants s) (key : UserPath)
    (around : Surroundings) : United constants (getDefaultUserPath constants key around s).1 := by
  have united : United constants
      (if s.defaults = [] then setUserPath constants [] false around s else s) := by
    split
    · next hempty =>
      apply united_setUserPath [] false around
      rcases h with rfl | united
      · exact .inr rfl
      · exact absurd hempty united.defaults
    · next hfilled =>
      apply h.resolve_left
      rintro rfl
      exact hfilled rfl
  unfold getDefaultUserPath
  generalize
    (if s.defaults = [] then setUserPath constants [] false around s else s) = s at united ⊢
  exact ⟨united.derived, PathMap.touch_ne_nil united.defaults key⟩

theorem Gathered.getUserPath (gathered : Gathered constants s) (key : UserPath)
    (around : Surroundings) : Gathered constants (getUserPath constants key around s).1 := by
  obtain ⟨base, hbelow⟩ := gathered.below
  simp only [Storage.getUserPath, hbelow.ne_nil, if_false]
  exact ⟨⟨base, hbelow.touch key⟩, gathered.defaults⟩

theorem Gathered.getDefaultUserPath (gathered : Gathered constants s) (key : UserPath)
    (around : Surroundings) :
    Gathered constants (getDefaultUserPath constants key around s).1 := by
  simp only [Storage.getDefaultUserPath, gathered.defaults, if_false]
  exact ⟨gathered.below, PathMap.touch_ne_nil gathered.defaults key⟩

/-- The first call, and every call with a path of its own. -/
theorem united_step (call : Call) (h : s = start ∨ call.IsExplicit) :
    United constants ((machine constants).step s call).1 := by
  cases call with
  | setUserPath path created around =>
      apply united_setUserPath
      rcases h with rfl | hpath
      · exact .inr rfl
      · exact .inl hpath
  | getUserPath key around =>
      obtain rfl := h.resolve_right id
      exact united_getUserPath (.inl rfl) key around
  | getDefaultUserPath key around =>
      exact united_getDefaultUserPath (h.imp_right False.elim) key around

/-- **No call but `SetUserPath("")` takes the user directory away from the others.** -/
theorem United.step (united : United constants s) {call : Call} (hcall : ¬ call.IsDefault) :
    United constants ((machine constants).step s call).1 := by
  cases call with
  | setUserPath path created around => exact united_setUserPath path created around (.inl hcall)
  | getUserPath key around => exact united_getUserPath (.inr united) key around
  | getDefaultUserPath key around => exact united_getDefaultUserPath (.inr united) key around

/-- Every call leaves the derived directories below one directory. -/
theorem Gathered.step (gathered : Gathered constants s) (call : Call) :
    Gathered constants ((machine constants).step s call).1 := by
  cases call with
  | setUserPath path created around =>
      by_cases hpath : path = []
      · subst hpath
        obtain ⟨base, hbelow⟩ := gathered.below
        have hbelow := hbelow.setUserPath created around
        refine ⟨⟨base, hbelow⟩, ?_⟩
        show (setUserPath constants [] created around s).defaults ≠ []
        rw [setUserPath_defaults]
        exact hbelow.ne_nil
      · exact (united_setUserPath path created around (.inl hpath)).gathered
  | getUserPath key around => exact gathered.getUserPath key around
  | getDefaultUserPath key around => exact gathered.getDefaultUserPath key around

end Calls

/-! ## Histories -/

section Histories

variable {constants : Constants} {history : List Call}

/-- **The derived directories lie below one directory** after every history. -/
theorem gathered_run (h : history ≠ []) :
    Gathered constants ((machine constants).run start history) := by
  obtain ⟨first, rest, rfl⟩ := List.exists_cons_of_ne_nil h
  have hfirst := (@united_step constants start first (.inl rfl)).gathered
  exact Machine.run_invariant _ (fun _ call gathered => gathered.step call) hfirst rest

/-- **The derived directories lie below the user directory** after every undivided history. -/
theorem united_run (h : Undivided history) :
    United constants ((machine constants).run start history) := by
  obtain ⟨before, call, after, rfl, hreset, hafter⟩ := h
  rw [Machine.run_append]
  apply @Machine.run_invariant_of_mem _ _ _ (machine constants) (United constants) after
  · exact fun later hmem _ united => united.step (hafter later hmem)
  · apply united_step
    apply hreset.imp _ id
    rintro rfl
    rfl

/-- Asking for the user directory, first of all or after an undivided history. -/
theorem derived_getUserPath (h : history = [] ∨ Undivided history) (around : Surroundings) :
    let answer := getUserPath constants .userDir around ((machine constants).run start history)
    Derived constants answer.1.paths answer.2 := by
  have united : ((machine constants).run start history).paths = [] ∨
      United constants ((machine constants).run start history) := by
    rcases h with rfl | h
    · exact .inl rfl
    · exact .inr (united_run h)
  obtain ⟨user, hderived⟩ := (united_filled united around).derived
  simp only [getUserPath, hderived.userDir, Option.getD_some]
  exact hderived.touch .userDir

end Histories

end ManicRoom.Storage
