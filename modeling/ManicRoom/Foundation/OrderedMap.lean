/-
# Maps in the order of their keys

A map that is gone over in the order of its keys, as `std::map` is: its entries are a list
whose keys increase. Inserting keeps the order and replaces an entry that is there; a key
greater than all others comes last. Nothing here refers to a particular program.
-/

import Mathlib.Order.Lattice
import Mathlib.Data.List.Basic

namespace ManicRoom.Foundation

universe u v

/-- Entries with increasing keys. -/
structure OrderedMap (Key : Type u) (Value : Type v) [LinearOrder Key] where
  entries : List (Key × Value)
  sorted : entries.Pairwise fun a b => a.1 < b.1

namespace OrderedMap

variable {Key : Type u} {Value : Type v} [LinearOrder Key]

/-- Put an entry where it belongs, instead of one with its key. -/
def insertEntry (key : Key) (value : Value) : List (Key × Value) → List (Key × Value)
  | [] => [(key, value)]
  | entry :: entries =>
      if key < entry.1 then (key, value) :: entry :: entries
      else if key = entry.1 then (key, value) :: entries
      else entry :: insertEntry key value entries

theorem mem_insertEntry {key : Key} {value : Value} {entries : List (Key × Value)}
    {entry : Key × Value} (h : entry ∈ insertEntry key value entries) :
    entry = (key, value) ∨ entry ∈ entries := by
  induction entries with
  | nil => simpa [insertEntry] using h
  | cons first entries ih =>
      unfold insertEntry at h
      split at h
      · simpa using h
      · split at h
        · rcases List.mem_cons.mp h with heq | hmem
          · exact .inl heq
          · exact .inr (List.mem_cons_of_mem first hmem)
        · rcases List.mem_cons.mp h with heq | hmem
          · exact .inr (heq ▸ List.mem_cons_self ..)
          · exact (ih hmem).imp_right (List.mem_cons_of_mem first)

theorem sorted_insertEntry {key : Key} {value : Value} {entries : List (Key × Value)}
    (h : entries.Pairwise fun a b => a.1 < b.1) :
    (insertEntry key value entries).Pairwise fun a b => a.1 < b.1 := by
  induction entries with
  | nil => simp [insertEntry]
  | cons first entries ih =>
      obtain ⟨hfirst, hrest⟩ := List.pairwise_cons.mp h
      unfold insertEntry
      split
      · next hlt =>
        refine List.pairwise_cons.mpr ⟨fun entry hmem => ?_, h⟩
        rcases List.mem_cons.mp hmem with rfl | hmem
        · exact hlt
        · exact lt_trans hlt (hfirst entry hmem)
      · next hle =>
        split
        · next heq =>
          exact List.pairwise_cons.mpr ⟨fun entry hmem => heq ▸ hfirst entry hmem, hrest⟩
        · next hne =>
          refine List.pairwise_cons.mpr ⟨fun entry hmem => ?_, ih hrest⟩
          rcases mem_insertEntry hmem with rfl | hmem
          · exact lt_of_le_of_ne (not_lt.mp hle) (Ne.symm hne)
          · exact hfirst entry hmem

/-- The map without entries. -/
def empty : OrderedMap Key Value where
  entries := []
  sorted := .nil

instance : Inhabited (OrderedMap Key Value) := ⟨empty⟩

theorem entries_eq_nil_iff {m : OrderedMap Key Value} : m.entries = [] ↔ m = empty := by
  constructor
  · intro h
    obtain ⟨entries, sorted⟩ := m
    subst h
    rfl
  · intro h
    rw [h]
    rfl

/-- `m.insert_or_assign(key, value)` -/
def insert (m : OrderedMap Key Value) (key : Key) (value : Value) : OrderedMap Key Value where
  entries := insertEntry key value m.entries
  sorted := sorted_insertEntry m.sorted

/-- `m.erase(key)` -/
def erase (m : OrderedMap Key Value) (key : Key) : OrderedMap Key Value where
  entries := m.entries.filter fun entry => entry.1 ≠ key
  sorted := m.sorted.filter _

/-- The value of a key. -/
def lookup (m : OrderedMap Key Value) (key : Key) : Option Value := m.entries.lookup key

@[simp]
theorem lookup_empty (key : Key) : (empty : OrderedMap Key Value).lookup key = none := rfl

theorem lookup_cons (first : Key × Value) (entries : List (Key × Value)) (key : Key) :
    (first :: entries).lookup key = if key = first.1 then some first.2 else entries.lookup key := by
  rw [List.lookup_cons]
  by_cases h : key = first.1
  · rw [h, beq_self_eq_true, if_pos rfl]
  · rw [beq_false_of_ne h, if_neg h]

theorem lookup_insertEntry (key : Key) (value : Value) (entries : List (Key × Value)) (key' : Key) :
    (insertEntry key value entries).lookup key' =
      if key' = key then some value else entries.lookup key' := by
  induction entries with
  | nil => rw [insertEntry, lookup_cons]
  | cons first entries ih =>
      unfold insertEntry
      split
      · rw [lookup_cons]
      · split
        · next heq =>
          rw [lookup_cons, lookup_cons, ← heq]
          split <;> rfl
        · next hne =>
          rw [lookup_cons, lookup_cons, ih]
          by_cases h : key' = key
          · rw [h, if_neg hne, if_pos rfl, if_pos rfl]
          · rw [if_neg h, if_neg h]

@[simp]
theorem lookup_insert (m : OrderedMap Key Value) (key : Key) (value : Value) (key' : Key) :
    (m.insert key value).lookup key' = if key' = key then some value else m.lookup key' :=
  lookup_insertEntry key value m.entries key'

@[simp]
theorem lookup_erase (m : OrderedMap Key Value) (key key' : Key) :
    (m.erase key).lookup key' = if key' = key then none else m.lookup key' := by
  simp only [lookup, erase]
  generalize m.entries = entries
  induction entries with
  | nil => simp
  | cons first entries ih =>
      by_cases hfirst : first.1 = key
      · rw [List.filter_cons_of_neg (by simpa using hfirst), ih, lookup_cons, hfirst]
        split <;> rfl
      · rw [List.filter_cons_of_pos (by simpa using hfirst), lookup_cons, lookup_cons, ih]
        by_cases h : key' = first.1
        · rw [if_pos h, if_pos h, if_neg fun heq => hfirst (h.symm.trans heq)]
        · rw [if_neg h, if_neg h]

/-- What is inserted with the greatest key comes last. -/
theorem entries_insert_of_lt (m : OrderedMap Key Value) {key : Key} (value : Value)
    (h : ∀ entry ∈ m.entries, entry.1 < key) :
    (m.insert key value).entries = m.entries ++ [(key, value)] := by
  simp only [insert]
  generalize m.entries = entries at h
  induction entries with
  | nil => rfl
  | cons first entries ih =>
      have hfirst := h first (List.mem_cons_self ..)
      rw [insertEntry, if_neg (lt_asymm hfirst), if_neg (ne_of_gt hfirst),
        ih fun entry hmem => h entry (List.mem_cons_of_mem first hmem)]
      rfl

/-- Erasing a key that is not there. -/
theorem erase_eq_self (m : OrderedMap Key Value) {key : Key}
    (h : ∀ entry ∈ m.entries, entry.1 ≠ key) : m.erase key = m := by
  obtain ⟨entries, sorted⟩ := m
  have hfilter : entries.filter (fun entry => decide (entry.1 ≠ key)) = entries := by
    rw [List.filter_eq_self]
    intro entry hmem
    exact decide_eq_true (h entry hmem)
  simp only [erase, hfilter]

theorem lookup_eq_none_of_lt {key : Key} {entries : List (Key × Value)}
    (h : ∀ entry ∈ entries, key < entry.1) : entries.lookup key = none := by
  induction entries with
  | nil => rfl
  | cons first entries ih =>
      rw [lookup_cons, if_neg (ne_of_lt (h first (List.mem_cons_self ..)))]
      exact ih fun entry hmem => h entry (List.mem_cons_of_mem first hmem)

theorem countP_insertEntry (kind : Key × Value → Bool) (key : Key) (value : Value)
    {entries : List (Key × Value)} (sorted : entries.Pairwise fun a b => a.1 < b.1) :
    (insertEntry key value entries).countP kind +
        (if (entries.lookup key).any fun old => kind (key, old) then 1 else 0) =
      entries.countP kind + if kind (key, value) then 1 else 0 := by
  induction entries with
  | nil => simp [insertEntry, List.countP_cons]
  | cons first entries ih =>
      obtain ⟨hfirst, hrest⟩ := List.pairwise_cons.mp sorted
      unfold insertEntry
      rw [lookup_cons]
      split
      · next hlt =>
        have hnone : entries.lookup key = none :=
          lookup_eq_none_of_lt fun entry hmem => lt_trans hlt (hfirst entry hmem)
        rw [if_neg (ne_of_lt hlt), hnone]
        simp [List.countP_cons]
      · split
        · next heq =>
          obtain ⟨firstKey, old⟩ := first
          simp only at heq
          subst heq
          simp only [List.countP_cons, Option.any_some]
          omega
        · next hne =>
          have hcount := ih hrest
          simp only [List.countP_cons]
          omega

/-- The entries of a kind after an insertion: the one that was replaced no longer counts. -/
theorem countP_insert (m : OrderedMap Key Value) (kind : Key × Value → Bool) (key : Key)
    (value : Value) :
    (m.insert key value).entries.countP kind +
        (if (m.lookup key).any fun old => kind (key, old) then 1 else 0) =
      m.entries.countP kind + if kind (key, value) then 1 else 0 :=
  countP_insertEntry kind key value m.sorted

/-- Erasing leaves no more entries of a kind. -/
theorem countP_erase_le (m : OrderedMap Key Value) (kind : Key × Value → Bool) (key : Key) :
    (m.erase key).entries.countP kind ≤ m.entries.countP kind :=
  List.Sublist.countP_le List.filter_sublist

/-- An entry is what its key looks up. -/
theorem lookup_eq_some_iff (m : OrderedMap Key Value) {key : Key} {value : Value} :
    m.lookup key = some value ↔ (key, value) ∈ m.entries := by
  obtain ⟨entries, sorted⟩ := m
  simp only [lookup]
  induction entries with
  | nil => simp
  | cons first entries ih =>
      obtain ⟨hfirst, hrest⟩ := List.pairwise_cons.mp sorted
      rw [lookup_cons, List.mem_cons, ← ih hrest]
      split
      · next heq =>
        subst heq
        rw [lookup_eq_none_of_lt hfirst]
        simp [Prod.ext_iff, eq_comm]
      · next hne =>
        rw [Prod.ext_iff]
        simp [hne]

/-- A search through the entries finds the one with the least key. -/
theorem find?_entries_eq_some_iff (m : OrderedMap Key Value) {kind : Key × Value → Bool}
    {key : Key} {value : Value} :
    m.entries.find? kind = some (key, value) ↔
      m.lookup key = some value ∧ kind (key, value) = true ∧
        ∀ key' value', key' < key → m.lookup key' = some value' → kind (key', value') = false := by
  simp only [lookup_eq_some_iff]
  obtain ⟨entries, sorted⟩ := m
  induction entries with
  | nil => simp
  | cons first entries ih =>
      obtain ⟨hfirst, hrest⟩ := List.pairwise_cons.mp sorted
      specialize ih hrest
      simp only [List.find?_cons, List.mem_cons] at ih ⊢
      cases hkind : kind first with
      | true =>
          simp only [Option.some.injEq]
          constructor
          · rintro rfl
            refine ⟨.inl rfl, hkind, ?_⟩
            rintro key' value' hlt (heq | hmem)
            · cases heq
              exact absurd hlt (lt_irrefl _)
            · exact absurd hlt (lt_asymm (hfirst _ hmem))
          · rintro ⟨heq | hmem, -, hleast⟩
            · exact heq.symm
            · rw [hleast first.1 first.2 (hfirst _ hmem) (.inl rfl)] at hkind
              cases hkind
      | false =>
          simp only [ih]
          constructor
          · rintro ⟨hmem, hvalue, hleast⟩
            refine ⟨.inr hmem, hvalue, ?_⟩
            rintro key' value' hlt (heq | hmem')
            · rw [heq]
              exact hkind
            · exact hleast key' value' hlt hmem'
          · rintro ⟨heq | hmem, hvalue, hleast⟩
            · rw [← heq, hvalue] at hkind
              cases hkind
            · exact ⟨hmem, hvalue, fun key' value' hlt hmem' => hleast key' value' hlt (.inr hmem')⟩

end OrderedMap

end ManicRoom.Foundation
