/-
# The bit operations of memory maps

A memory descriptor can leave address lines unconnected. `mmap_inflate` spreads a number over
the lines that are connected and `mmap_reduce` collects it from them; both run through the mask
from its lowest bit on. `mmap_add_bits_down` and `mmap_highest_bit` find the size of a number.

Source: `runloop.c`, where `size_t` has 64 bits.
-/

import ManicRoom.Foundation.Positions

namespace ManicRoom.MemoryMap

open ManicRoom.Foundation

/-- `size_t` -/
abbrev Size := BitVec 64

/-- `mmap_add_bits_down` -/
def mmapAddBitsDown (n : Size) : Size :=
  let n := n ||| n >>> 1
  let n := n ||| n >>> 2
  let n := n ||| n >>> 4
  let n := n ||| n >>> 8
  let n := n ||| n >>> 16
  n ||| n >>> 16 >>> 16

theorem rest_lt {mask : Size} (h : mask ≠ 0) : (mask &&& (mask - 1)).toNat < mask.toNat := by
  obtain ⟨p, hp⟩ := exists_isLowest h
  exact BitVec.lt_def.mp hp.rest_lt

/-- `mmap_inflate` -/
def mmapInflate (addr mask : Size) : Size :=
  if mask = 0 then addr
  else
    let tmp := (mask - 1) &&& ~~~mask
    mmapInflate ((addr &&& ~~~tmp) <<< 1 ||| (addr &&& tmp)) (mask &&& (mask - 1))
termination_by mask.toNat
decreasing_by exact rest_lt ‹_›

/-- `mmap_reduce` -/
def mmapReduce (addr mask : Size) : Size :=
  if mask = 0 then addr
  else
    let tmp := (mask - 1) &&& ~~~mask
    mmapReduce ((addr &&& tmp) ||| ((addr >>> 1) &&& ~~~tmp)) ((mask &&& (mask - 1)) >>> 1)
termination_by mask.toNat
decreasing_by
  rw [BitVec.toNat_ushiftRight, Nat.shiftRight_eq_div_pow]
  exact lt_of_le_of_lt (Nat.div_le_self ..) (rest_lt ‹_›)

/-- `mmap_highest_bit` -/
def mmapHighestBit (n : Size) : Size :=
  let n := mmapAddBitsDown n
  n ^^^ n >>> 1

/-! ## Spreading and collecting -/

section

variable {tmp : Size} {p : ℕ}

/-- A zero is put in at a position. -/
theorem getLsbD_insert (htmp : ∀ i, tmp.getLsbD i = decide (i < p)) (addr : Size) (j : ℕ) :
    ((addr &&& ~~~tmp) <<< 1 ||| (addr &&& tmp)).getLsbD j =
      (decide (j < 64 ∧ j ≠ p) && addr.getLsbD (if j < p then j else j - 1)) := by
  simp only [BitVec.getLsbD_or, BitVec.getLsbD_shiftLeft, BitVec.getLsbD_and, BitVec.getLsbD_not,
    htmp]
  rcases Nat.lt_trichotomy j p with hj | rfl | hj
  · have hbefore : j - 1 < p := by omega
    by_cases hsize : j < 64
    · simp [hj, hbefore, hsize, Nat.ne_of_lt hj]
    · simp [hsize, BitVec.getLsbD_of_ge addr j (by omega)]
  · by_cases hzero : j = 0
    · simp [hzero]
    · have hbefore : j - 1 < j := by omega
      simp [hbefore]
  · have hbefore : ¬ j - 1 < p := by omega
    have hnot : ¬ j < p := by omega
    have hpos : ¬ j = 0 := by omega
    by_cases hsize : j < 64
    · have hsize' : j - 1 < 64 := by omega
      simp [hbefore, hnot, hpos, hsize, hsize', Nat.ne_of_gt hj]
    · simp [hnot, hsize]

/-- The bit at a position is taken out. -/
theorem getLsbD_remove (htmp : ∀ i, tmp.getLsbD i = decide (i < p)) (addr : Size) (j : ℕ) :
    ((addr &&& tmp) ||| ((addr >>> 1) &&& ~~~tmp)).getLsbD j =
      addr.getLsbD (if j < p then j else j + 1) := by
  simp only [BitVec.getLsbD_or, BitVec.getLsbD_ushiftRight, BitVec.getLsbD_and,
    BitVec.getLsbD_not, htmp]
  by_cases hj : j < p
  · simp [hj]
  · have hsize : addr.getLsbD (1 + j) = true → j < 64 := by
      intro hbit
      have := BitVec.lt_of_getLsbD hbit
      omega
    rw [Nat.add_comm] at hsize
    simpa [hj, Nat.add_comm 1 j] using hsize

/-- `mmap_inflate` spreads a number over the positions that the mask leaves. -/
theorem getLsbD_mmapInflate (addr mask : Size) (i : ℕ) :
    (mmapInflate addr mask).getLsbD i =
      (decide (i < 64 ∧ Leaves mask i) && addr.getLsbD (rank mask i)) := by
  fun_induction mmapInflate addr mask with
  | case1 addr =>
      have hleaves : Leaves (0 : Size) i := BitVec.getLsbD_zero
      have hrank : rank (0 : Size) i = i := rank_eq_self fun _ _ => BitVec.getLsbD_zero
      rw [hrank, Bool.eq_iff_iff, Bool.and_eq_true, decide_eq_true_eq]
      exact ⟨fun hbit => ⟨⟨BitVec.lt_of_getLsbD hbit, hleaves⟩, hbit⟩, And.right⟩
  | case2 addr mask hmask tmp ih =>
      obtain ⟨p, hp⟩ := exists_isLowest hmask
      rw [ih, getLsbD_insert hp.getLsbD_below]
      rcases Nat.lt_trichotomy i p with hi | rfl | hi
      · have hrest : rank (mask &&& (mask - 1)) i = i := rank_eq_self fun j hj =>
          hp.leaves_rest.mpr (.inl (hp.leaves_of_lt (hj.trans hi)))
        have hrank : rank mask i = i := rank_eq_self fun j hj => hp.below j (hj.trans hi)
        have hsize : i < 64 := hi.trans hp.lt
        have hleaves : Leaves (mask &&& (mask - 1)) i :=
          hp.leaves_rest.mpr (.inl (hp.leaves_of_lt hi))
        rw [hrest, hrank, if_pos hi, decide_eq_true ⟨hsize, hleaves⟩,
          decide_eq_true ⟨hsize, Nat.ne_of_lt hi⟩, decide_eq_true ⟨hsize, hp.leaves_of_lt hi⟩]
        rfl
      · have hrest : rank (mask &&& (mask - 1)) i = i := rank_eq_self fun j hj =>
          hp.leaves_rest.mpr (.inl (hp.leaves_of_lt hj))
        have hout : ¬(i < 64 ∧ i ≠ i) := fun h => h.2 rfl
        have hmasked : ¬(i < 64 ∧ Leaves mask i) := fun h => hp.not_leaves h.2
        rw [hrest, decide_eq_false hout, decide_eq_false hmasked, Bool.false_and, Bool.false_and,
          Bool.and_false]
      · have hrest := hp.rank_rest hi
        have hle : rank mask i + 1 ≤ i := by
          rw [← hrest]
          exact Nat.count_le _
        have hge : p ≤ rank mask i := by
          rw [← rank_eq_self hp.below]
          exact rank_mono (Nat.le_of_lt hi)
        have hleaves : Leaves (mask &&& (mask - 1)) i ↔ Leaves mask i := by
          rw [hp.leaves_rest, or_iff_left (Nat.ne_of_gt hi)]
        rw [hrest, if_neg (Nat.not_lt.mpr (Nat.le_succ_of_le hge)), Nat.add_sub_cancel]
        simp only [hleaves]
        by_cases hbit : i < 64 ∧ Leaves mask i
        · have hinside : rank mask i + 1 < 64 ∧ rank mask i + 1 ≠ p := by omega
          rw [decide_eq_true hinside, Bool.true_and]
        · rw [decide_eq_false hbit, Bool.false_and, Bool.false_and]

/-- `mmap_reduce` collects the bits at the positions that the mask leaves. -/
theorem getLsbD_mmapReduce (addr mask : Size) (k : ℕ) :
    (mmapReduce addr mask).getLsbD k = addr.getLsbD (place mask k) := by
  fun_induction mmapReduce addr mask with
  | case1 addr =>
      have hplace : place (0 : Size) k = k := by
        have hleaves : Leaves (0 : Size) k := BitVec.getLsbD_zero
        have hrank : rank (0 : Size) k = k := rank_eq_self fun _ _ => BitVec.getLsbD_zero
        simpa only [hrank] using place_rank hleaves
      rw [hplace]
  | case2 addr mask hmask tmp ih =>
      obtain ⟨p, hp⟩ := exists_isLowest hmask
      rw [ih, getLsbD_remove hp.getLsbD_below, hp.place_eq]

end

/-! ## Round trips -/

/-- The offset fits into the positions that the mask leaves. -/
def Fits (offset mask : Size) : Prop := offset.toNat < 2 ^ rank mask 64

theorem fits_iff {offset mask : Size} :
    Fits offset mask ↔ ∀ k, offset.getLsbD k = true → place mask k < 64 := by
  constructor
  · intro hfits k hbit
    rw [← rank_lt_iff]
    by_contra hge
    have hpow := Nat.pow_le_pow_right Nat.two_pos (Nat.not_lt.mp hge)
    have hle := Nat.ge_two_pow_of_testBit (BitVec.testBit_toNat .. ▸ hbit)
    exact absurd (hpow.trans hle) (Nat.not_le.mpr hfits)
  · intro hplace
    apply Nat.lt_pow_two_of_testBit
    intro k hk
    by_contra hbit
    have hlt := rank_lt_iff.mpr (hplace k (Bool.eq_true_of_not_eq_false hbit))
    omega

/-- What is spread can be collected, exactly where it fits. -/
theorem mmapReduce_mmapInflate_iff (offset mask : Size) :
    mmapReduce (mmapInflate offset mask) mask = offset ↔ Fits offset mask := by
  have hbits (k : ℕ) : (mmapReduce (mmapInflate offset mask) mask).getLsbD k =
      (decide (place mask k < 64) && offset.getLsbD k) := by
    rw [getLsbD_mmapReduce, getLsbD_mmapInflate, rank_place]
    simp only [leaves_place, and_true]
  rw [fits_iff]
  constructor
  · intro heq k hbit
    have hback := hbits k
    rw [heq, hbit, Bool.and_true] at hback
    exact of_decide_eq_true hback.symm
  · intro hplace
    apply BitVec.eq_of_getLsbD_eq
    intro k _
    rw [hbits]
    cases hbit : offset.getLsbD k with
    | false => exact Bool.and_false _
    | true => rw [decide_eq_true (hplace k hbit), Bool.true_and]

/-- Spreading what was collected loses the bits of the mask and nothing else. -/
theorem mmapInflate_mmapReduce (addr mask : Size) :
    mmapInflate (mmapReduce addr mask) mask = addr &&& ~~~mask := by
  apply BitVec.eq_of_getLsbD_eq
  intro i hi
  rw [getLsbD_mmapInflate, getLsbD_mmapReduce, BitVec.getLsbD_and, BitVec.getLsbD_not]
  by_cases hleaves : Leaves mask i
  · rw [place_rank hleaves, decide_eq_true ⟨hi, hleaves⟩, decide_eq_true hi]
    rw [Leaves] at hleaves
    simp [hleaves]
  · have hset : mask.getLsbD i = true := Bool.eq_true_of_not_eq_false hleaves
    simp [hleaves, hset]

/-- The lines of the mask do not matter to what is collected. -/
theorem mmapReduce_and_not (addr mask : Size) :
    mmapReduce (addr &&& ~~~mask) mask = mmapReduce addr mask := by
  apply BitVec.eq_of_getLsbD_eq
  intro k _
  have hleaves : mask.getLsbD (place mask k) = false := leaves_place k
  rw [getLsbD_mmapReduce, getLsbD_mmapReduce, BitVec.getLsbD_and, BitVec.getLsbD_not, hleaves]
  cases hbit : addr.getLsbD (place mask k) with
  | false => rfl
  | true => simp [BitVec.lt_of_getLsbD hbit]

/-- **Spreading and collecting undo each other, up to what the mask takes away.** A number comes
back exactly if it fits into the positions that the mask leaves, and an address comes back
without the bits of the mask. -/
theorem mmap_round_trips (offset addr mask : Size) :
    (mmapReduce (mmapInflate offset mask) mask = offset ↔ Fits offset mask) ∧
      mmapInflate (mmapReduce addr mask) mask = addr &&& ~~~mask :=
  ⟨mmapReduce_mmapInflate_iff offset mask, mmapInflate_mmapReduce addr mask⟩

/-- Only lines that the mask leaves are used. -/
theorem within_mmapInflate_not (offset mask : Size) :
    Within (mmapInflate offset mask) (~~~mask) := by
  intro i hbit
  rw [getLsbD_mmapInflate, Bool.and_eq_true, decide_eq_true_eq] at hbit
  obtain ⟨⟨hi, hleaves⟩, -⟩ := hbit
  rw [Leaves] at hleaves
  rw [BitVec.getLsbD_not, hleaves, decide_eq_true hi]
  rfl

theorem mmapInflate_within {m n : Size} (h : Within m n) (mask : Size) :
    Within (mmapInflate m mask) (mmapInflate n mask) := by
  intro i hbit
  rw [getLsbD_mmapInflate, Bool.and_eq_true] at hbit ⊢
  exact ⟨hbit.1, h _ hbit.2⟩

@[simp]
theorem mmapInflate_zero (offset : Size) : mmapInflate offset 0 = offset := by
  rw [mmapInflate, if_pos rfl]

@[simp]
theorem mmapReduce_zero (addr : Size) : mmapReduce addr 0 = addr := by
  rw [mmapReduce, if_pos rfl]

/-! ## Lengths -/

/-- One line of `mmap_add_bits_down` doubles how far down the bits reach. -/
theorem getLsbD_or_shift {n spread : Size} {reach : ℕ}
    (h : ∀ i, spread.getLsbD i = true ↔ ∃ j, (i ≤ j ∧ j < i + reach) ∧ n.getLsbD j = true)
    (i : ℕ) :
    (spread ||| spread >>> reach).getLsbD i = true ↔
      ∃ j, (i ≤ j ∧ j < i + 2 * reach) ∧ n.getLsbD j = true := by
  rw [BitVec.getLsbD_or, BitVec.getLsbD_ushiftRight, Bool.or_eq_true, h, h]
  constructor
  · intro hbit
    cases hbit with
    | inl hnear =>
        obtain ⟨j, hj, hbit⟩ := hnear
        exact ⟨j, by omega, hbit⟩
    | inr hfar =>
        obtain ⟨j, hj, hbit⟩ := hfar
        exact ⟨j, by omega, hbit⟩
  · intro hbit
    obtain ⟨j, hj, hbit⟩ := hbit
    by_cases hnear : j < i + reach
    · exact .inl ⟨j, by omega, hbit⟩
    · exact .inr ⟨j, by omega, hbit⟩

theorem isRun_mmapAddBitsDown (n : Size) : IsRun (mmapAddBitsDown n) (bitLength n) := by
  intro i
  have h1 (i : ℕ) : n.getLsbD i = true ↔ ∃ j, (i ≤ j ∧ j < i + 1) ∧ n.getLsbD j = true := by
    constructor
    · intro hbit
      exact ⟨i, by omega, hbit⟩
    · intro hbit
      obtain ⟨j, hj, hbit⟩ := hbit
      have heq : j = i := by omega
      rwa [heq] at hbit
  have h64 := getLsbD_or_shift (getLsbD_or_shift (getLsbD_or_shift (getLsbD_or_shift
    (getLsbD_or_shift (getLsbD_or_shift h1)))))
  rw [Bool.eq_iff_iff, decide_eq_true_eq, lt_bitLength_iff, mmapAddBitsDown]
  simp only [← BitVec.shiftRight_add]
  rw [h64]
  constructor
  · intro hbit
    obtain ⟨j, hj, hbit⟩ := hbit
    exact ⟨j, hj.1, hbit⟩
  · intro hbit
    obtain ⟨j, hj, hbit⟩ := hbit
    have hlt := BitVec.lt_of_getLsbD hbit
    exact ⟨j, by omega, hbit⟩

theorem mmapAddBitsDown_of_isRun {n : Size} {p : ℕ} (h : IsRun n p) : mmapAddBitsDown n = n := by
  apply BitVec.eq_of_getLsbD_eq
  intro i _
  rw [isRun_mmapAddBitsDown, h.bitLength, h]

theorem toNat_mmapHighestBit (n : Size) : (mmapHighestBit n).toNat = 2 ^ bitLength n / 2 := by
  apply Nat.eq_of_testBit_eq
  intro i
  rw [BitVec.testBit_toNat, mmapHighestBit, BitVec.getLsbD_xor, BitVec.getLsbD_ushiftRight,
    isRun_mmapAddBitsDown n, isRun_mmapAddBitsDown n, ← Nat.testBit_succ, Nat.testBit_two_pow]
  rcases Nat.lt_trichotomy (i + 1) (bitLength n) with hi | hi | hi
  · simp [Nat.lt_of_succ_lt hi, Nat.add_comm 1, hi, Nat.ne_of_gt hi]
  · simp [← hi, Nat.add_comm 1]
  · have hnot : ¬ i < bitLength n := by omega
    have hnot' : ¬ i + 1 < bitLength n := by omega
    simp [Nat.add_comm 1, hnot, hnot', Nat.ne_of_lt hi]

/-- The highest bits are compared where the lengths are. -/
theorem mmapHighestBit_lt_iff {m n : Size} :
    mmapHighestBit m < mmapHighestBit n ↔ bitLength m < bitLength n := by
  rw [BitVec.lt_def, toNat_mmapHighestBit, toNat_mmapHighestBit]
  constructor
  · intro hlt
    by_contra hge
    have hpow := Nat.pow_le_pow_right Nat.two_pos (Nat.not_lt.mp hge)
    omega
  · intro hlt
    have hpow : 2 ^ (bitLength m + 1) ≤ 2 ^ bitLength n := Nat.pow_le_pow_right Nat.two_pos hlt
    have hpos : 0 < 2 ^ bitLength m := Nat.two_pow_pos _
    omega

/-- What is collected is shorter by the positions taken out. -/
theorem bitLength_mmapReduce_le (addr mask : Size) :
    bitLength (mmapReduce addr mask) ≤ rank mask (bitLength addr) := by
  rw [bitLength_le_iff]
  intro k hk
  rw [getLsbD_mmapReduce]
  by_contra hbit
  have hlt : place mask k < bitLength addr :=
    lt_bitLength_iff.mpr ⟨_, le_rfl, Bool.eq_true_of_not_eq_false hbit⟩
  have hrank := rank_lt_iff.mpr hlt
  omega

/-- What is spread is longer by no more than the positions put in. -/
theorem rank_bitLength_mmapInflate_le (offset mask : Size) :
    rank mask (bitLength (mmapInflate offset mask)) ≤ bitLength offset := by
  cases hlength : bitLength (mmapInflate offset mask) with
  | zero => exact (Nat.count_zero _).trans_le (Nat.zero_le _)
  | succ i =>
      have hbit := getLsbD_of_bitLength hlength
      rw [getLsbD_mmapInflate, Bool.and_eq_true, decide_eq_true_eq] at hbit
      obtain ⟨⟨-, hleaves⟩, hbit⟩ := hbit
      have hlt : rank mask i < bitLength offset := lt_bitLength_iff.mpr ⟨_, le_rfl, hbit⟩
      rw [rank, Nat.count_succ, if_pos hleaves]
      exact hlt

end ManicRoom.MemoryMap
