/-
# One user directory

Whatever was cached before, an explicit `SetUserPath` leaves all directories of the emulator
below one user directory, and asking for paths does not change that. The one call that can
mix directories is `SetUserPath("")` while paths are cached: it changes the user directory
and keeps the others. The getters only make it while nothing is cached.
-/

import ManicRoom.Storage.UserPath

namespace ManicRoom.Storage

open ManicRoom.Foundation

section Maps

variable (constants : Constants)

/-- The directories that are derived from the user directory are those of this one. -/
structure Derived (m : PathMap) (user : Text) : Prop where
  userDir : m.lookup .userDir = some user
  derived : ∀ key ∈ derivedKeys, m.lookup key = some (user ++ constants.folder key)

variable {constants}

theorem Derived.ne_nil {m : PathMap} {user : Text} (h : Derived constants m user) : m ≠ [] := by
  rintro rfl
  exact nomatch h.userDir

/-- Asking for a path changes no path that is there. -/
theorem PathMap.lookup_touch {m : PathMap} {key' : UserPath} {value : Text}
    (h : m.lookup key' = some value) (key : UserPath) : (m.touch key).lookup key' = some value := by
  rw [PathMap.touch, PathMap.lookup_emplace]
  split
  · next heq => rw [← heq, h, Option.getD_some]
  · exact h

theorem Derived.touch {m : PathMap} {user : Text} (h : Derived constants m user) (key : UserPath) :
    Derived constants (m.touch key) user :=
  ⟨PathMap.lookup_touch h.userDir key,
    fun key' hmem => PathMap.lookup_touch (h.derived key' hmem) key⟩

/-- What the end of `SetUserPath` does to a map. -/
theorem lookup_foldl_derive (keys : List UserPath) (user : Text) (m : PathMap) (key : UserPath) :
    (keys.foldl (derive constants user) m).lookup key =
      if key ∈ keys then some ((m.lookup key).getD (user ++ constants.folder key))
      else m.lookup key := by
  induction keys generalizing m with
  | nil => rfl
  | cons first keys ih =>
      rw [List.foldl_cons, ih, derive, PathMap.lookup_emplace]
      by_cases hfirst : key = first
      · subst hfirst
        simp
      · simp [hfirst]

/-- The default paths set the user directory, and none of the derived directories. -/
theorem lookup_defaultPaths (around : Surroundings) (m : PathMap) :
    (defaultPaths constants around m).2.lookup .userDir =
        some (defaultPaths constants around m).1 ∧
      ∀ key ∈ derivedKeys, (defaultPaths constants around m).2.lookup key = m.lookup key := by
  simp only [defaultPaths, derive, PathMap.touch, derivedKeys]
  split
  · simp
  · split <;> simp

/-- Where the other directories come from if the user directory is not the one asked for. -/
theorem derived_setUserPath (path : Text) (created : Bool) (around : Surroundings) (s : PathMaps)
    (h : path ≠ [] ∨ s.paths = []) :
    ∃ user, Derived constants (setUserPath constants path created around s).paths user ∧
      (path ≠ [] ∧ created = true → user = path) := by
  have hcleared : (if path = [] then s.paths else []) = [] := by
    split
    · next hempty => exact h.resolve_left fun hne => hne hempty
    · rfl
  have hderived (chosen : Text × PathMap) (huser : chosen.2.lookup .userDir = some chosen.1)
      (hfree : ∀ key ∈ derivedKeys, chosen.2.lookup key = none) :
      Derived constants (derivedKeys.foldl (derive constants chosen.1) chosen.2) chosen.1 := by
    refine ⟨?_, fun key hmem => ?_⟩
    · rw [lookup_foldl_derive, if_neg (by decide)]
      exact huser
    · rw [lookup_foldl_derive, if_pos hmem, hfree key hmem, Option.getD_none]
  simp only [setUserPath, hcleared]
  split
  · next hcreated =>
    refine ⟨path, hderived (path, _) (by simp [derive]) fun key hmem => ?_, fun _ => rfl⟩
    simp only [derivedKeys, List.mem_cons, List.not_mem_nil, or_false] at hmem
    rcases hmem with rfl | rfl | rfl | rfl | rfl | rfl | rfl | rfl | rfl | rfl | rfl <;>
      simp [derive, PathMap.touch]
  · next hdefault =>
    obtain ⟨huser, hkept⟩ := @lookup_defaultPaths constants around
      (PathMap.touch [] .userDir)
    refine ⟨_, hderived (defaultPaths constants around (PathMap.touch [] .userDir)) huser
      fun key hmem => ?_, fun hcreated => absurd hcreated hdefault⟩
    rw [hkept key hmem]
    simp only [derivedKeys, List.mem_cons, List.not_mem_nil, or_false] at hmem
    rcases hmem with rfl | rfl | rfl | rfl | rfl | rfl | rfl | rfl | rfl | rfl | rfl <;>
      simp [PathMap.touch]

/-- **An explicit user path.** All directories are below it, whatever was cached before. -/
theorem lookup_setUserPath {path : Text} (hpath : path ≠ []) (around : Surroundings)
    (s : PathMaps) :
    Derived constants (setUserPath constants path true around s).paths path ∧
      ∀ key ∈ [.configDir, .cacheDir],
        (setUserPath constants path true around s).paths.lookup key =
          some (path ++ constants.folder key) := by
  obtain ⟨user, hderived, huser⟩ := @derived_setUserPath constants path true around s
    (.inl hpath)
  have hcreated : path ≠ [] ∧ true = true := ⟨hpath, rfl⟩
  obtain rfl := huser hcreated
  refine ⟨hderived, fun key hmem => ?_⟩
  rw [setUserPath, if_neg hpath, if_pos hcreated]
  simp only [List.mem_cons, List.not_mem_nil, or_false] at hmem
  rcases hmem with rfl | rfl
  · rw [lookup_foldl_derive, if_neg (by decide)]
    simp [derive, PathMap.touch]
  · rw [lookup_foldl_derive, if_neg (by decide)]
    simp [derive, PathMap.touch]

end Maps

end ManicRoom.Storage
