/-
# Numbers in bytes and words

A file format stores its numbers as bytes, and its reader puts them together by shifting
and rounds offsets up by masking. Both are arithmetic as long as nothing overflows: the
shifted bytes add up to their value in base 256, and the mask gives the least multiple of
a power of two that is not below. Nothing here refers to a particular program.
-/

import Mathlib.Data.Nat.Digits.Defs
import Mathlib.Order.Bounds.Basic
import Mathlib.Tactic.Ring

namespace ManicRoom.Foundation

/-! ## Bytes -/

/-- The number that bytes stand for, the least significant byte first. -/
def ofBytes (bytes : List UInt8) : ℕ := Nat.ofDigits 256 (bytes.map UInt8.toNat)

theorem ofBytes_lt (bytes : List UInt8) : ofBytes bytes < 256 ^ bytes.length := by
  have hdigits : ∀ digit ∈ bytes.map UInt8.toNat, digit < 256 := by
    intro digit hmem
    obtain ⟨byte, -, rfl⟩ := List.mem_map.mp hmem
    exact byte.toNat_lt
  simpa [ofBytes] using Nat.ofDigits_lt_base_pow_length (by decide) hdigits

theorem ofBytes_concat (bytes : List UInt8) (byte : UInt8) :
    ofBytes (bytes ++ [byte]) = ofBytes bytes + 256 ^ bytes.length * byte.toNat := by
  simp [ofBytes, Nat.ofDigits_append]

/-- The least significant bytes of a number, as many as asked for. -/
def toBytes (count value : ℕ) : List UInt8 :=
  match count with
  | 0 => []
  | count + 1 => UInt8.ofNat value :: toBytes count (value / 256)

@[simp]
theorem length_toBytes (count value : ℕ) : (toBytes count value).length = count := by
  induction count generalizing value with
  | zero => rfl
  | succ count ih => simp [toBytes, ih]

/-- A number that fits is read back. -/
theorem ofBytes_toBytes {count value : ℕ} (h : value < 256 ^ count) :
    ofBytes (toBytes count value) = value := by
  induction count generalizing value with
  | zero =>
      have hzero : value = 0 := by simpa using h
      rw [hzero]
      rfl
  | succ count ih =>
      have hrest : value / 256 < 256 ^ count := by
        apply Nat.div_lt_of_lt_mul
        rwa [← pow_succ']
      have hhead : ofBytes (toBytes (count + 1) value) =
          value % 256 + 256 * ofBytes (toBytes count (value / 256)) := by
        simp [toBytes, ofBytes, Nat.ofDigits_cons]
      rw [hhead, ih hrest, Nat.mod_add_div]

/-- A byte that is shifted above a value adds to it. -/
theorem toNat_or_shiftLeft {value : UInt64} {index : ℕ} (byte : UInt8) (hindex : index < 8)
    (hvalue : value.toNat < 256 ^ index) :
    (value ||| byte.toUInt64 <<< UInt64.ofNat (8 * index)).toNat =
      value.toNat + 256 ^ index * byte.toNat := by
  have hbyte := byte.toNat_lt
  have hpow : (256 : ℕ) ^ index = 2 ^ (8 * index) := (pow_mul 2 8 index).symm
  have hshift : (UInt64.ofNat (8 * index)).toNat % 64 = 8 * index := by
    rw [UInt64.toNat_ofNat', Nat.mod_eq_of_lt (by omega), Nat.mod_eq_of_lt (by omega)]
  have hsmall : byte.toNat * 2 ^ (8 * index) < 2 ^ 64 := by
    calc byte.toNat * 2 ^ (8 * index) < 2 ^ 8 * 2 ^ (8 * index) :=
          Nat.mul_lt_mul_of_pos_right hbyte (by positivity)
      _ = 2 ^ (8 + 8 * index) := (pow_add 2 8 (8 * index)).symm
      _ ≤ 2 ^ 64 := Nat.pow_le_pow_right (by decide) (by omega)
  rw [UInt64.toNat_or, UInt64.toNat_shiftLeft, hshift, Nat.shiftLeft_eq, UInt8.toNat_toUInt64,
    Nat.mod_eq_of_lt hsmall, hpow, Nat.or_comm, Nat.mul_comm byte.toNat,
    ← Nat.two_pow_add_eq_or_of_lt (hpow ▸ hvalue), Nat.add_comm]

/-! ## Alignment -/

/-- The next multiple of `d`. -/
def roundUp (d n : ℕ) : ℕ := (n + (d - 1)) / d * d

theorem roundUp_isLeast {d : ℕ} (hd : 0 < d) (n : ℕ) :
    IsLeast {m | d ∣ m ∧ n ≤ m} (roundUp d n) := by
  refine ⟨⟨Dvd.intro_left _ rfl, ?_⟩, fun m ⟨hdvd, hle⟩ => ?_⟩
  · have hdiv := Nat.lt_div_mul_add (a := n + (d - 1)) hd
    simp only [roundUp]
    omega
  · obtain ⟨k, rfl⟩ := hdvd
    have hk : (n + (d - 1)) / d ≤ k := by
      rw [Nat.div_le_iff_le_mul_add_pred hd]
      omega
    rw [roundUp, Nat.mul_comm d k]
    exact Nat.mul_le_mul_right d hk

theorem roundUp_lt {d : ℕ} (hd : 0 < d) (n : ℕ) : roundUp d n < n + d := by
  have hle := Nat.div_mul_le_self (n + (d - 1)) d
  simp only [roundUp]
  omega

/-- Clearing the low bits. -/
theorem and_mask {bits low value : ℕ} (hlow : low ≤ bits) (hvalue : value < 2 ^ bits) :
    value &&& (2 ^ bits - 2 ^ low) = value / 2 ^ low * 2 ^ low := by
  have hmask : 2 ^ bits - 2 ^ low = 2 ^ low * (2 ^ (bits - low) - 1) := by
    rw [Nat.mul_sub, Nat.mul_one, ← pow_add, Nat.add_sub_cancel' hlow]
  apply Nat.eq_of_testBit_eq
  intro i
  rw [hmask, Nat.testBit_and, Nat.testBit_two_pow_mul, Nat.testBit_two_pow_sub_one,
    Nat.testBit_mul_two_pow, Nat.testBit_div_two_pow]
  by_cases hi : low ≤ i
  · by_cases hbits : i < bits
    · have hin : i - low < bits - low := by omega
      simp [hi, hin]
    · have hzero : value.testBit i = false :=
        Nat.testBit_lt_two_pow (hvalue.trans_le (Nat.pow_le_pow_right (by decide) (by omega)))
      simp [hi, hzero]
  · simp [hi]

/-- Adding and masking rounds up, as long as the sum does not overflow. -/
theorem toNat_mask {n : UInt64} (h : n.toNat + 63 < 2 ^ 64) :
    ((n + 63) &&& ~~~63).toNat = roundUp 64 n.toNat := by
  have hsum : (n + 63).toNat = n.toNat + 63 := by
    rw [UInt64.toNat_add]
    exact Nat.mod_eq_of_lt h
  rw [UInt64.toNat_and, hsum]
  exact @and_mask 64 6 _ (by decide) h

end ManicRoom.Foundation
