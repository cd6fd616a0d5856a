/-
# The latest of each kind

A bounded buffer keeps one entry for each key. A new entry replaces the one of its key and goes
to the end, and if there is no room the first one goes. Such a buffer holds the most recent of
the latest entries of each key. Nothing here refers to a particular program.
-/

import Mathlib.Data.List.DropRight
import Mathlib.Data.List.Pairwise

namespace ManicRoom.Foundation

universe u v

variable {Entry : Type u} {Key : Type v} [DecidableEq Key] (key : Entry → Key)

/-- The last entry of each key, in the order in which these came. -/
def latest (entries : List Entry) : List Entry :=
  entries.pwFilter fun first second => key first ≠ key second

theorem pairwise_latest (entries : List Entry) :
    (latest key entries).Pairwise fun first second => key first ≠ key second :=
  List.pairwise_pwFilter entries

theorem latest_cons (first : Entry) (entries : List Entry) :
    latest key (first :: entries) =
      if ∀ entry ∈ latest key entries, key first ≠ key entry then first :: latest key entries
      else latest key entries := by
  split
  · next hkeep => exact List.pwFilter_cons_of_pos hkeep
  · next hdrop => exact List.pwFilter_cons_of_neg hdrop

/-- A new entry takes the place of the one of its key. -/
theorem latest_concat (entries : List Entry) (new : Entry) :
    latest key (entries ++ [new]) =
      (latest key entries).filter (fun entry => key entry ≠ key new) ++ [new] := by
  induction entries with
  | nil => rfl
  | cons first entries ih =>
      rw [List.cons_append, latest_cons, latest_cons, ih]
      by_cases hnew : key first = key new
      · have hdrop : ¬ ∀ entry ∈ (latest key entries).filter (fun entry => key entry ≠ key new) ++
            [new], key first ≠ key entry := by
          intro hall
          exact hall new (List.mem_append_right _ (List.mem_singleton_self _)) hnew
        rw [if_neg hdrop]
        split
        · simp [hnew]
        · rfl
      · have hkeep : (∀ entry ∈ (latest key entries).filter (fun entry => key entry ≠ key new) ++
            [new], key first ≠ key entry) ↔
              ∀ entry ∈ latest key entries, key first ≠ key entry := by
          constructor
          · intro hall entry hmem heq
            refine hall entry (List.mem_append_left _ (List.mem_filter.mpr ⟨hmem, ?_⟩)) heq
            simpa [← heq] using hnew
          · intro hall entry hmem
            rcases List.mem_append.mp hmem with hold | hlast
            · exact hall entry (List.mem_of_mem_filter hold)
            · rwa [List.mem_singleton.mp hlast]
        simp only [hkeep]
        split
        · simp [hnew]
        · rfl

/-- What the buffer does with a new entry. -/
def remember (limit : ℕ) (buffer : List Entry) (new : Entry) : List Entry :=
  let buffer' := (buffer.eraseP fun entry => key entry = key new) ++ [new]
  if limit < buffer'.length then buffer'.tail else buffer'

theorem eraseP_eq_filter {buffer : List Entry} {value : Key}
    (hpairwise : buffer.Pairwise fun first second => key first ≠ key second) :
    (buffer.eraseP fun entry => key entry = value) =
      buffer.filter fun entry => key entry ≠ value := by
  induction buffer with
  | nil => rfl
  | cons first buffer ih =>
      obtain ⟨hfirst, hrest⟩ := List.pairwise_cons.mp hpairwise
      by_cases hkey : key first = value
      · have hall : ∀ entry ∈ buffer, decide (key entry ≠ value) = true := by
          intro entry hmem
          exact decide_eq_true (hkey ▸ (hfirst entry hmem).symm)
        rw [List.eraseP_cons_of_pos (by simpa using hkey),
          List.filter_cons_of_neg (by simpa using hkey), List.filter_eq_self.mpr hall]
      · rw [List.eraseP_cons_of_neg (by simpa using hkey),
          List.filter_cons_of_pos (by simpa using hkey), ih hrest]

theorem rtake_append_of_le {before after : List Entry} {limit : ℕ} (h : limit ≤ after.length) :
    (before ++ after).rtake limit = after.rtake limit := by
  have hbefore : before.drop (before.length + after.length - limit) = [] :=
    List.drop_eq_nil_of_le (by omega)
  have hafter : before.length + after.length - limit - before.length = after.length - limit := by
    omega
  simp only [List.rtake, List.length_append, List.drop_append, hbefore, hafter, List.nil_append]

/-- A buffer that is too long by at most one. -/
theorem ite_tail_eq_rtake {buffer : List Entry} {limit : ℕ} (h : buffer.length ≤ limit + 1) :
    (if limit < buffer.length then buffer.tail else buffer) = buffer.rtake limit := by
  split
  · next hlong =>
    have hone : buffer.length - limit = 1 := by omega
    rw [List.rtake, hone, List.drop_one]
  · next hshort =>
    have hzero : buffer.length - limit = 0 := by omega
    rw [List.rtake, hzero, List.drop_zero]

/-- **The buffer holds the most recent of the latest entries.** -/
theorem remember_rtake_latest (limit : ℕ) (entries : List Entry) (new : Entry) :
    remember key limit ((latest key entries).rtake limit) new =
      (latest key (entries ++ [new])).rtake limit := by
  have hpairwise := pairwise_latest key entries
  rw [latest_concat]
  generalize latest key entries = all at hpairwise ⊢
  -- what the buffer has forgotten and what it holds
  obtain ⟨old, buffer, rfl, hbuffer, hold⟩ : ∃ old buffer, all = old ++ buffer ∧
      all.rtake limit = buffer ∧ (old = [] ∧ buffer.length ≤ limit ∨ buffer.length = limit) := by
    refine ⟨all.take (all.length - limit), all.rtake limit, ?_, rfl, ?_⟩
    · exact (List.take_append_drop _ _).symm
    · rcases Nat.le_total all.length limit with hle | hle
      · left
        simp [List.rtake, Nat.sub_eq_zero_of_le hle, hle]
      · right
        simp only [List.rtake, List.length_drop]
        omega
  have hbound : buffer.length ≤ limit := hold.elim And.right le_of_eq
  have herase : buffer.eraseP (fun entry => key entry = key new) =
      buffer.filter fun entry => key entry ≠ key new :=
    eraseP_eq_filter key (List.pairwise_append.mp hpairwise).2.1
  rw [hbuffer, remember, ite_tail_eq_rtake, herase, List.filter_append, List.append_assoc]
  · rcases hold with ⟨rfl, -⟩ | hlength
    · rw [List.filter_nil, List.nil_append]
    · have hfew : buffer.length - 1 ≤ (buffer.filter fun entry => key entry ≠ key new).length := by
        rw [← herase]
        exact List.le_length_eraseP
      symm
      apply rtake_append_of_le
      rw [List.length_append, List.length_singleton]
      omega
  · have hless := buffer.length_eraseP_le (p := fun entry => key entry = key new)
    rw [List.length_append, List.length_singleton]
    omega

theorem foldl_remember_latest (limit : ℕ) (entries new : List Entry) :
    new.foldl (remember key limit) ((latest key entries).rtake limit) =
      (latest key (entries ++ new)).rtake limit := by
  induction new generalizing entries with
  | nil => rw [List.append_nil, List.foldl_nil]
  | cons first new ih =>
      rw [List.foldl_cons, remember_rtake_latest, ih, List.append_assoc, List.singleton_append]

end ManicRoom.Foundation
