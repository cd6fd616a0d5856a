/-
# Bit masks as finite sets

A word whose bits say which of a few numbered things are present is a finite set of
numbers. Setting a bit inserts a number, clearing one erases it and the exclusive or of two
words is what the sets differ in. Nothing here refers to a particular program.
-/

import Mathlib.Data.Finset.SymmDiff
import Mathlib.Data.Finset.Card

namespace ManicRoom.Foundation

variable {w : ℕ}

/-- The numbers of the bits that are set. -/
def bits (mask : BitVec w) : Finset ℕ := {i ∈ Finset.range w | mask.getLsbD i}

@[simp]
theorem mem_bits {mask : BitVec w} {i : ℕ} : i ∈ bits mask ↔ mask.getLsbD i = true := by
  rw [bits, Finset.mem_filter, Finset.mem_range]
  exact and_iff_right_of_imp BitVec.lt_of_getLsbD

@[simp]
theorem bits_zero : bits (0 : BitVec w) = ∅ := by
  ext i
  simp

theorem bits_injective : Function.Injective (bits (w := w)) := by
  intro first second h
  apply BitVec.eq_of_getLsbD_eq
  intro i _
  have hi : first.getLsbD i = true ↔ second.getLsbD i = true := by
    rw [← mem_bits, ← mem_bits, h]
  exact Bool.eq_iff_iff.mpr hi

/-- The bit of a number, alone. -/
theorem getLsbD_one_shiftLeft {i j : ℕ} (hi : i < w) :
    (1#w <<< i).getLsbD j = true ↔ j = i := by
  rw [BitVec.getLsbD_shiftLeft, BitVec.getLsbD_one]
  by_cases h : j < w
  · simp
    omega
  · simp
    omega

/-- Setting a bit inserts its number. -/
theorem bits_or_one_shiftLeft (mask : BitVec w) {i : ℕ} (hi : i < w) :
    bits (mask ||| 1#w <<< i) = insert i (bits mask) := by
  ext j
  rw [mem_bits, BitVec.getLsbD_or, Bool.or_eq_true, getLsbD_one_shiftLeft hi, Finset.mem_insert,
    mem_bits, or_comm]

/-- Clearing a bit erases its number. -/
theorem bits_and_not_one_shiftLeft (mask : BitVec w) {i : ℕ} (hi : i < w) :
    bits (mask &&& ~~~(1#w <<< i)) = (bits mask).erase i := by
  ext j
  rw [mem_bits, BitVec.getLsbD_and, Bool.and_eq_true, BitVec.getLsbD_not, Finset.mem_erase,
    mem_bits, and_comm]
  apply and_congr_left
  intro hj
  rw [Bool.and_eq_true, decide_eq_true_iff, and_iff_right (BitVec.lt_of_getLsbD hj),
    Bool.not_eq_true', ← Bool.not_eq_true, getLsbD_one_shiftLeft hi]

/-- The exclusive or is what two words differ in. -/
theorem bits_xor (first second : BitVec w) :
    bits (first ^^^ second) = symmDiff (bits first) (bits second) := by
  ext j
  rw [mem_bits, BitVec.getLsbD_xor, Finset.mem_symmDiff, mem_bits, mem_bits]
  cases first.getLsbD j <;> cases second.getLsbD j <;> simp

/-- What a mask of one bit selects is nothing exactly if the bit is clear. -/
theorem and_one_shiftLeft_eq_zero {mask : BitVec w} {i : ℕ} (hi : i < w) :
    mask &&& 1#w <<< i = 0 ↔ i ∉ bits mask := by
  constructor
  · intro hzero hmem
    have hbit : (mask &&& 1#w <<< i).getLsbD i = true := by
      rw [BitVec.getLsbD_and, Bool.and_eq_true]
      exact ⟨mem_bits.mp hmem, (getLsbD_one_shiftLeft hi).mpr rfl⟩
    rw [hzero] at hbit
    simp at hbit
  · intro hmem
    apply bits_injective
    ext j
    rw [mem_bits, BitVec.getLsbD_and, Bool.and_eq_true, getLsbD_one_shiftLeft hi, ← mem_bits,
      bits_zero]
    constructor
    · rintro ⟨hj, rfl⟩
      exact absurd hj hmem
    · intro hj
      exact absurd hj (Finset.notMem_empty j)

end ManicRoom.Foundation
