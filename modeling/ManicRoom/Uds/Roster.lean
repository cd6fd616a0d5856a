/-
# The roster of a network

What a host keeps track of, apart from how it stores it: which consoles it knows, in which
role, and which places of its network are taken. The first place is the host's own. A console
waits between its authentication and the start of its session; then it is seated in the
lowest free place, or watches without one. This is what the tables of the host are for, and
`Uds.Hosting` proves that they refine it.
-/

import Mathlib.Data.Finset.Card
import Mathlib.Logic.Relation

namespace ManicRoom.Uds

universe u

/-- What a console is to a host that knows it. -/
inductive Role
  | waiting
  | watching
  | seated (place : ℕ)
  deriving DecidableEq

/-- A network of so many places, and the consoles its host knows. -/
structure Roster (Address : Type u) where
  capacity : ℕ
  role : Address → Option Role
  places : Finset ℕ
  zero_mem : 0 ∈ places
  lt_capacity : ∀ {place}, place ∈ places → place < capacity
  taken_iff : ∀ {place}, place ≠ 0 → (place ∈ places ↔ ∃ a, role a = some (.seated place))
  seated_ne_zero : ∀ {a place}, role a = some (.seated place) → place ≠ 0
  seated_inj : ∀ {a b place}, role a = some (.seated place) → role b = some (.seated place) → a = b

namespace Roster

variable {Address : Type u} {r r' : Roster Address}

theorem mem_places (r : Roster Address) {a : Address} {place : ℕ}
    (h : r.role a = some (.seated place)) : place ∈ r.places :=
  (r.taken_iff (r.seated_ne_zero h)).mpr ⟨a, h⟩

theorem card_places_le (r : Roster Address) : r.places.card ≤ r.capacity := by
  have hsubset : r.places ⊆ Finset.range r.capacity := fun place h =>
    Finset.mem_range.mpr (r.lt_capacity h)
  simpa using Finset.card_le_card hsubset

/-- While there is room some place is free. -/
theorem exists_free (h : r.places.card < r.capacity) : ∃ place < r.capacity, place ∉ r.places := by
  by_contra hnone
  push Not at hnone
  have hsubset : Finset.range r.capacity ⊆ r.places := fun place hplace =>
    hnone place (Finset.mem_range.mp hplace)
  have hcard := Finset.card_le_card hsubset
  rw [Finset.card_range] at hcard
  omega

variable [DecidableEq Address]

/-- The roster of a network that has just been created. -/
def founded (capacity : ℕ) (h : 0 < capacity) : Roster Address where
  capacity
  role _ := none
  places := {0}
  zero_mem := Finset.mem_singleton_self 0
  lt_capacity := by simp [h]
  taken_iff := by simp +contextual
  seated_ne_zero := by simp
  seated_inj := by simp

/-- Give a console a role without a place, or none. -/
def assign (r : Roster Address) (a : Address) (role : Option Role)
    (hrole : ∀ place, role ≠ some (.seated place))
    (hfree : ∀ place, r.role a ≠ some (.seated place)) : Roster Address where
  capacity := r.capacity
  role := Function.update r.role a role
  places := r.places
  zero_mem := r.zero_mem
  lt_capacity := r.lt_capacity
  taken_iff := by
    intro place hplace
    rw [r.taken_iff hplace]
    apply exists_congr
    intro b
    by_cases hb : b = a
    · subst hb
      simp [hrole place, hfree place]
    · simp [hb]
  seated_ne_zero := by
    intro b place h
    by_cases hb : b = a
    · subst hb
      simp [hrole place] at h
    · exact r.seated_ne_zero (by simpa [hb] using h)
  seated_inj := by
    intro b c place hb hc
    by_cases hba : b = a
    · subst hba
      simp [hrole place] at hb
    · by_cases hca : c = a
      · subst hca
        simp [hrole place] at hc
      · exact r.seated_inj (by simpa [hba] using hb) (by simpa [hca] using hc)

/-- Seat a console that has no place in one that is free. -/
def seat (r : Roster Address) (a : Address) (place : ℕ) (hlt : place < r.capacity)
    (hfree : place ∉ r.places) (ha : ∀ other, r.role a ≠ some (.seated other)) :
    Roster Address where
  capacity := r.capacity
  role := Function.update r.role a (some (.seated place))
  places := insert place r.places
  zero_mem := Finset.mem_insert_of_mem r.zero_mem
  lt_capacity := by
    intro other h
    rcases Finset.mem_insert.mp h with rfl | h
    · exact hlt
    · exact r.lt_capacity h
  taken_iff := by
    intro other hother
    rw [Finset.mem_insert, r.taken_iff hother]
    constructor
    · rintro (rfl | ⟨b, hb⟩)
      · exact ⟨a, by simp⟩
      · have hne : b ≠ a := by
          rintro rfl
          exact ha other hb
        exact ⟨b, by simpa [hne] using hb⟩
    · rintro ⟨b, hb⟩
      by_cases hne : b = a
      · subst hne
        left
        simpa using hb.symm
      · right
        exact ⟨b, by simpa [hne] using hb⟩
  seated_ne_zero := by
    intro b other h
    by_cases hb : b = a
    · subst hb
      have hplace : place = other := by simpa using h
      rintro rfl
      exact hfree (hplace ▸ r.zero_mem)
    · exact r.seated_ne_zero (by simpa [hb] using h)
  seated_inj := by
    intro b c other hb hc
    by_cases hba : b = a
    · by_cases hca : c = a
      · rw [hba, hca]
      · have hplace : place = other := by simpa [hba] using hb
        exact absurd (r.mem_places (by simpa [hca] using hc)) (hplace ▸ hfree)
    · by_cases hca : c = a
      · have hplace : place = other := by simpa [hca] using hc
        exact absurd (r.mem_places (by simpa [hba] using hb)) (hplace ▸ hfree)
      · exact r.seated_inj (by simpa [hba] using hb) (by simpa [hca] using hc)

/-- A seated console leaves its place. -/
def leave (r : Roster Address) (a : Address) (place : ℕ) (h : r.role a = some (.seated place)) :
    Roster Address where
  capacity := r.capacity
  role := Function.update r.role a none
  places := r.places.erase place
  zero_mem := Finset.mem_erase.mpr ⟨(r.seated_ne_zero h).symm, r.zero_mem⟩
  lt_capacity := fun hother => r.lt_capacity (Finset.mem_of_mem_erase hother)
  taken_iff := by
    intro other hother
    rw [Finset.mem_erase, r.taken_iff hother]
    constructor
    · rintro ⟨hne, b, hb⟩
      have hba : b ≠ a := by
        rintro rfl
        rw [h] at hb
        exact hne (by simpa using hb.symm)
      exact ⟨b, by simpa [hba] using hb⟩
    · rintro ⟨b, hb⟩
      by_cases hba : b = a
      · subst hba
        simp at hb
      · have hb' : r.role b = some (.seated other) := by simpa [hba] using hb
        refine ⟨?_, b, hb'⟩
        rintro rfl
        exact hba (r.seated_inj hb' h)
  seated_ne_zero := by
    intro b other hb
    by_cases hba : b = a
    · subst hba
      simp at hb
    · exact r.seated_ne_zero (by simpa [hba] using hb)
  seated_inj := by
    intro b c other hb hc
    by_cases hba : b = a
    · subst hba
      simp at hb
    · by_cases hca : c = a
      · subst hca
        simp at hc
      · exact r.seated_inj (by simpa [hba] using hb) (by simpa [hca] using hc)

/-- What a host does to its roster in one step. -/
inductive Step : Roster Address → Roster Address → Prop
  /-- A stranger is authenticated while there is room. -/
  | wait {r : Roster Address} {a : Address} (hnone : ∀ place, r.role a ≠ some (.seated place))
      (hstranger : r.role a = none) (hroom : r.places.card < r.capacity) :
      Step r (r.assign a (some .waiting) (by simp) hnone)
  /-- A console that waits starts to watch. -/
  | watch {r : Roster Address} {a : Address} (hnone : ∀ place, r.role a ≠ some (.seated place))
      (hwaiting : r.role a = some .waiting) :
      Step r (r.assign a (some .watching) (by simp) hnone)
  /-- A console that waits takes the lowest free place. -/
  | seat {r : Roster Address} {a : Address} {place : ℕ} (hlt : place < r.capacity)
      (hfree : place ∉ r.places) (ha : ∀ other, r.role a ≠ some (.seated other))
      (hwaiting : r.role a = some .waiting) (hleast : ∀ lower < place, lower ∈ r.places) :
      Step r (r.seat a place hlt hfree ha)
  /-- A console without a place goes. -/
  | forget {r : Roster Address} {a : Address} (hnone : ∀ place, r.role a ≠ some (.seated place))
      (hknown : r.role a ≠ none) : Step r (r.assign a none (by simp) hnone)
  /-- A seated console goes. -/
  | leave {r : Roster Address} {a : Address} {place : ℕ}
      (hseated : r.role a = some (.seated place)) : Step r (r.leave a place hseated)

end Roster

end ManicRoom.Uds
