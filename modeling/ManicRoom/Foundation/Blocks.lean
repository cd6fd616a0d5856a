/-
# Blocks of a range

A range of positions is gone over in blocks of a given size. Every block begins where the one
before it ends, and only the last may be shorter than the others. So the blocks partition the
range: each of its positions is in exactly one of them, and what they cover of a sequence is,
put together, what the range covers of it. Nothing here refers to a particular program.
-/

import Mathlib.Data.List.Basic

namespace ManicRoom.Foundation

universe u

/-- A range of positions. -/
structure Span where
  start : ℕ
  length : ℕ
  deriving DecidableEq, Repr

/-- Where a range ends. -/
def Span.stop (s : Span) : ℕ := s.start + s.length

/-- What a range covers of a sequence. -/
def Span.of {α : Type u} (s : Span) (xs : List α) : List α := (xs.drop s.start).take s.length

/-- The blocks of a range, of `size` positions each as long as there are so many. -/
def blocks (size start length : ℕ) : List Span :=
  (List.range ((length + (size - 1)) / size)).map fun i =>
    ⟨start + i * size, min size (length - i * size)⟩

section Blocks

variable {size : ℕ} (hsize : 0 < size) {start length : ℕ}

include hsize

theorem blocks_zero : blocks size start 0 = [] := by
  rw [blocks, Nat.zero_add, Nat.div_eq_of_lt (by omega)]
  rfl

/-- The first block and those after it. -/
theorem blocks_cons (hlength : 0 < length) :
    blocks size start length = ⟨start, min size length⟩ ::
      blocks size (start + min size length) (length - min size length) := by
  have hcount : (length + (size - 1)) / size =
      (length - min size length + (size - 1)) / size + 1 := by
    rcases Nat.le_total size length with hle | hle
    · rw [Nat.min_eq_left hle, ← Nat.add_div_right _ hsize]
      congr 1
      omega
    · rw [Nat.min_eq_right hle, Nat.sub_self, Nat.zero_add,
        Nat.div_eq_of_lt (show size - 1 < size by omega)]
      exact Nat.div_eq_of_lt_le (by omega) (by omega)
  rw [blocks, hcount, List.range_succ_eq_map, List.map_cons, List.map_map, Nat.zero_mul,
    Nat.add_zero, Nat.sub_zero, blocks]
  congr 1
  apply List.map_congr_left
  intro i hi
  have hlong : size ≤ length := by
    by_contra hlt
    rw [List.mem_range, Nat.min_eq_right (by omega), Nat.sub_self, Nat.zero_add,
      Nat.div_eq_of_lt (by omega)] at hi
    omega
  have hnext : (i + 1) * size = i * size + size := Nat.succ_mul i size
  simp only [Function.comp_apply, Nat.succ_eq_add_one, Nat.min_eq_left hlong, hnext]
  congr 1
  · omega
  · congr 1
    omega

theorem mem_blocks_iff {s : Span} :
    s ∈ blocks size start length ↔ ∃ i, i * size < length ∧ s.start = start + i * size ∧
      s.length = min size (length - i * size) := by
  have hrange (i : ℕ) : i < (length + (size - 1)) / size ↔ i * size < length := by
    rw [Nat.lt_iff_add_one_le, Nat.le_div_iff_mul_le hsize, Nat.succ_mul]
    omega
  simp only [blocks, List.mem_map, List.mem_range, hrange]
  constructor
  · rintro ⟨i, hi, rfl⟩
    exact ⟨i, hi, rfl, rfl⟩
  · rintro ⟨i, hi, hstart, hlength⟩
    exact ⟨i, hi, by rw [← hstart, ← hlength]⟩

/-- A block lies in the range and is not empty; it is a whole one unless the range ends with it. -/
theorem bounds_of_mem_blocks {s : Span} (h : s ∈ blocks size start length) :
    0 < s.length ∧ s.length ≤ size ∧ start ≤ s.start ∧ s.stop ≤ start + length ∧
      (s.stop < start + length → s.length = size) := by
  obtain ⟨i, hi, hstart, hlength⟩ := (mem_blocks_iff hsize).mp h
  rw [Span.stop, hstart, hlength]
  omega

/-- **No position is skipped and none is repeated.** -/
theorem existsUnique_block {p : ℕ} (hfirst : start ≤ p) (hlast : p < start + length) :
    ∃! s, s ∈ blocks size start length ∧ s.start ≤ p ∧ p < s.stop := by
  have hmod := Nat.mod_lt (p - start) hsize
  have hdiv : (p - start) / size * size + (p - start) % size = p - start := Nat.div_add_mod' _ _
  refine ⟨⟨start + (p - start) / size * size, min size (length - (p - start) / size * size)⟩,
    ⟨(mem_blocks_iff hsize).mpr ⟨_, by omega, rfl, rfl⟩, ?_, ?_⟩, ?_⟩
  · show start + _ ≤ p
    omega
  · simp only [Span.stop]
    omega
  · rintro ⟨sstart, slength⟩ ⟨hmem, hbegin, hend⟩
    obtain ⟨i, -, hstart, hlength⟩ := (mem_blocks_iff hsize).mp hmem
    simp only [Span.stop] at hstart hlength hbegin hend
    have hindex : (p - start) / size = i := by
      apply Nat.div_eq_of_lt_le
      · omega
      · rw [Nat.succ_mul]
        omega
    rw [hindex, hstart, hlength]

/-- Every block begins where the one before it ends. -/
theorem isChain_blocks : (blocks size start length).IsChain fun s next => s.stop = next.start := by
  induction length using Nat.strongRecOn generalizing start with
  | ind length ih =>
      rcases Nat.eq_zero_or_pos length with rfl | hpos
      · rw [blocks_zero hsize]
        exact .nil
      · rw [blocks_cons hsize hpos]
        have hrest := @ih (length - min size length) (by omega) (start + min size length)
        rcases Nat.eq_zero_or_pos (length - min size length) with hzero | hmore
        · rw [hzero, blocks_zero hsize]
          exact .singleton _
        · rw [blocks_cons hsize hmore] at hrest ⊢
          exact .cons_cons rfl hrest

/-- What the blocks cover is what the range covers. -/
theorem flatMap_blocks {α : Type u} (xs : List α) :
    (blocks size start length).flatMap (·.of xs) = Span.of ⟨start, length⟩ xs := by
  induction length using Nat.strongRecOn generalizing start with
  | ind length ih =>
      rcases Nat.eq_zero_or_pos length with rfl | hpos
      · rw [blocks_zero hsize]
        rfl
      · rw [blocks_cons hsize hpos, List.flatMap_cons, ih _ (by omega)]
        simp only [Span.of]
        conv_rhs => rw [show length = min size length + (length - min size length) by omega,
          List.take_add, List.drop_drop]

/-- What it is for spans to make up a range. -/
structure Partition (size start length : ℕ) (spans : List Span) : Prop where
  /-- They lie in the range, and only the last may be shorter than the others. -/
  bounds : ∀ s ∈ spans, 0 < s.length ∧ s.length ≤ size ∧ start ≤ s.start ∧
    s.stop ≤ start + length ∧ (s.stop < start + length → s.length = size)
  /-- Each begins where the one before it ends. -/
  chain : spans.IsChain fun s next => s.stop = next.start
  /-- No position is skipped and none is repeated. -/
  unique : ∀ p, start ≤ p → p < start + length → ∃! s, s ∈ spans ∧ s.start ≤ p ∧ p < s.stop

theorem partition_blocks (start length : ℕ) :
    Partition size start length (blocks size start length) where
  bounds _ h := bounds_of_mem_blocks hsize h
  chain := isChain_blocks hsize
  unique _ hfirst hlast := existsUnique_block hsize hfirst hlast

end Blocks

end ManicRoom.Foundation
