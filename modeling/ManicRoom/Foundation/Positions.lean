/-
# Words without some of their bits

A mask takes some positions out of a word. What is left has a numbering of its own: position `i`
of the word is number `rank i` of those that are left, and number `k` of these is position
`place k`. Positions behind the end of the word are never taken out. Nothing here refers to a
particular program.
-/

import Mathlib.Data.Nat.Nth
import Mathlib.Data.Nat.Size
import Mathlib.Order.Interval.Set.Infinite

namespace ManicRoom.Foundation

variable {w : ℕ} (mask : BitVec w)

/-- The bits of the first word are bits of the second. -/
def Within (x y : BitVec w) : Prop := ∀ i, x.getLsbD i = true → y.getLsbD i = true

theorem within_iff_and_not {x y : BitVec w} : Within x y ↔ x &&& ~~~y = 0 := by
  constructor
  · intro hwithin
    apply BitVec.eq_of_getLsbD_eq
    intro i hi
    rw [BitVec.getLsbD_and, BitVec.getLsbD_not, BitVec.ofNat_eq_ofNat, BitVec.getLsbD_zero]
    cases hbit : x.getLsbD i with
    | false => rfl
    | true => simp [hwithin i hbit]
  · intro hzero i hbit
    have hand := congrArg (fun word => word.getLsbD i) hzero
    simpa [hbit, BitVec.lt_of_getLsbD hbit] using hand

theorem Within.and_eq {x y : BitVec w} (h : Within x y) : x &&& y = x := by
  apply BitVec.eq_of_getLsbD_eq
  intro i _
  rw [BitVec.getLsbD_and]
  cases hbit : x.getLsbD i with
  | false => rfl
  | true => exact h i hbit

theorem Within.le {x y : BitVec w} (h : Within x y) : x ≤ y := by
  rw [← h.and_eq, BitVec.le_def, BitVec.toNat_and]
  exact Nat.and_le_right

/-- The mask leaves a position. -/
def Leaves (i : ℕ) : Prop := mask.getLsbD i = false

instance : DecidablePred (Leaves mask) := fun _ => inferInstanceAs (Decidable (_ = false))

/-- How many positions below a position are left. -/
def rank (i : ℕ) : ℕ := Nat.count (Leaves mask) i

/-- The position that has a number among those that are left. -/
noncomputable def place (k : ℕ) : ℕ := Nat.nth (Leaves mask) k

theorem infinite_leaves : (Set.ofPred (Leaves mask)).Infinite := by
  apply Set.infinite_of_not_bddAbove
  rintro ⟨bound, hbound⟩
  have hleaves : Leaves mask (max w bound + 1) :=
    BitVec.getLsbD_of_ge mask _ (by omega)
  have hle : max w bound + 1 ≤ bound := hbound hleaves
  omega

variable {mask}

@[simp]
theorem rank_place (k : ℕ) : rank mask (place mask k) = k :=
  Nat.count_nth_of_infinite (infinite_leaves mask) k

theorem place_rank {i : ℕ} (h : Leaves mask i) : place mask (rank mask i) = i :=
  Nat.nth_count h

theorem leaves_place (k : ℕ) : Leaves mask (place mask k) :=
  Nat.nth_mem_of_infinite (infinite_leaves mask) k

theorem rank_mono : Monotone (rank mask) := Nat.count_monotone _

theorem rank_lt_iff {i k : ℕ} : k < rank mask i ↔ place mask k < i := by
  rw [← not_le, ← not_le, not_iff_not]
  exact Nat.count_le_iff_le_nth (infinite_leaves mask)

/-- Where nothing is taken out, every position keeps its number. -/
theorem rank_eq_self {i : ℕ} (h : ∀ j < i, mask.getLsbD j = false) : rank mask i = i :=
  Nat.count_iff_forall.mpr h

/-- The more a mask takes out, the fewer positions are left. -/
theorem rank_le_rank {mask' : BitVec w} (h : Within mask mask') (i : ℕ) :
    rank mask' i ≤ rank mask i := by
  apply Nat.count_mono_left
  intro j _ hleaves
  by_contra hset
  have hset' := h j (Bool.eq_true_of_not_eq_false hset)
  rw [Leaves, hset'] at hleaves
  cases hleaves

/-! ## The length of a number -/

/-- How many bits a number needs. -/
def bitLength (x : BitVec w) : ℕ := Nat.size x.toNat

theorem lt_bitLength_iff {x : BitVec w} {i : ℕ} :
    i < bitLength x ↔ ∃ j, i ≤ j ∧ x.getLsbD j = true := by
  rw [bitLength, Nat.lt_size]
  constructor
  · intro hle
    obtain ⟨j, hj, hbit⟩ := Nat.exists_ge_and_testBit_of_ge_two_pow hle
    exact ⟨j, hj, hbit⟩
  · intro hbit
    obtain ⟨j, hj, hbit⟩ := hbit
    exact (Nat.pow_le_pow_right Nat.two_pos hj).trans (Nat.ge_two_pow_of_testBit hbit)

theorem bitLength_le_iff {x : BitVec w} {n : ℕ} :
    bitLength x ≤ n ↔ ∀ j, n ≤ j → x.getLsbD j = false := by
  rw [← Nat.not_lt, lt_bitLength_iff]
  simp

theorem bitLength_le_bitLength {x y : BitVec w} (h : Within x y) : bitLength x ≤ bitLength y := by
  rw [bitLength_le_iff]
  intro j hj
  by_contra hbit
  have hlt : j < bitLength y :=
    lt_bitLength_iff.mpr ⟨j, le_rfl, h j (Bool.eq_true_of_not_eq_false hbit)⟩
  omega

/-- The bit at the end of a number is set. -/
theorem getLsbD_of_bitLength {x : BitVec w} {i : ℕ} (h : bitLength x = i + 1) :
    x.getLsbD i = true := by
  have hlt : i < bitLength x := h ▸ Nat.lt_succ_self i
  obtain ⟨j, hj, hbit⟩ := lt_bitLength_iff.mp hlt
  have hbound : j < bitLength x := lt_bitLength_iff.mpr ⟨j, le_rfl, hbit⟩
  have heq : j = i := by omega
  rwa [heq] at hbit

/-- The bits of the word are those below a position. -/
def IsRun (x : BitVec w) (p : ℕ) : Prop := ∀ i, x.getLsbD i = decide (i < p)

theorem IsRun.toNat {x : BitVec w} {p : ℕ} (h : IsRun x p) : x.toNat = 2 ^ p - 1 := by
  apply Nat.eq_of_testBit_eq
  intro i
  rw [BitVec.testBit_toNat, h, Nat.testBit_two_pow_sub_one]

theorem isRun_of_toNat {x : BitVec w} {p : ℕ} (h : x.toNat = 2 ^ p - 1) : IsRun x p := by
  intro i
  rw [← BitVec.testBit_toNat, h, Nat.testBit_two_pow_sub_one]

/-- Without the bits of a run, words agree if they lie in the same block. -/
theorem IsRun.and_not_eq_iff {x y z : BitVec w} {p : ℕ} (h : IsRun z p) :
    x &&& ~~~z = y &&& ~~~z ↔ x.toNat / 2 ^ p = y.toNat / 2 ^ p := by
  have hbit (v : BitVec w) (i : ℕ) :
      (v &&& ~~~z).getLsbD i = (decide (p ≤ i) && v.getLsbD i) := by
    rw [BitVec.getLsbD_and, BitVec.getLsbD_not, h]
    by_cases hi : i < w
    · rw [decide_eq_true hi, Bool.true_and, Bool.and_comm, ← decide_not,
        decide_eq_decide.mpr Nat.not_lt]
    · rw [BitVec.getLsbD_of_ge v i (Nat.not_lt.mp hi), Bool.false_and, Bool.and_false]
  constructor
  · intro heq
    apply Nat.eq_of_testBit_eq
    intro i
    have hi := congrArg (fun word => word.getLsbD (i + p)) heq
    simp only [hbit, decide_eq_true (Nat.le_add_left p i), Bool.true_and] at hi
    rw [Nat.testBit_div_two_pow, Nat.testBit_div_two_pow]
    exact hi
  · intro heq
    apply BitVec.eq_of_getLsbD_eq
    intro i _
    rw [hbit, hbit]
    by_cases hi : p ≤ i
    · have hdiv := congrArg (fun number => number.testBit (i - p)) heq
      simp only [Nat.testBit_div_two_pow, Nat.sub_add_cancel hi, BitVec.testBit_toNat] at hdiv
      rw [hdiv]
    · rw [decide_eq_false hi, Bool.false_and, Bool.false_and]

/-- The numbers up to a run are those made of its bits. -/
theorem IsRun.le_iff {x y : BitVec w} {p : ℕ} (h : IsRun y p) : x ≤ y ↔ Within x y := by
  constructor
  · intro hle i hbit
    rw [BitVec.le_def, h.toNat] at hle
    rw [h, decide_eq_true_eq]
    have hpow : 2 ^ i ≤ x.toNat := Nat.ge_two_pow_of_testBit (BitVec.testBit_toNat .. ▸ hbit)
    have hlt := hpow.trans_lt (Nat.lt_of_le_pred (Nat.two_pow_pos _) hle)
    exact (Nat.pow_lt_pow_iff_right Nat.one_lt_two).mp hlt
  · exact Within.le

theorem IsRun.bitLength {x : BitVec w} {p : ℕ} (h : IsRun x p) : bitLength x = p := by
  apply le_antisymm
  · rw [bitLength_le_iff]
    intro j hj
    rw [h, decide_eq_false (Nat.not_lt.mpr hj)]
  · cases p with
    | zero => exact Nat.zero_le _
    | succ i =>
        have hbit : x.getLsbD i = true := by rw [h, decide_eq_true (Nat.lt_succ_self i)]
        exact lt_bitLength_iff.mpr ⟨i, le_rfl, hbit⟩

/-! ## The lowest bit of a mask -/

/-- The position is that of the lowest bit that is set. -/
structure IsLowest (mask : BitVec w) (p : ℕ) : Prop where
  set : mask.getLsbD p = true
  below : ∀ i < p, mask.getLsbD i = false

theorem exists_isLowest (h : mask ≠ 0) : ∃ p, IsLowest mask p := by
  have hsome : ∃ p, mask.getLsbD p = true := by
    by_contra hnone
    apply h
    apply BitVec.eq_of_getLsbD_eq
    intro i _
    simpa using fun hi => hnone ⟨i, hi⟩
  refine ⟨Nat.find hsome, Nat.find_spec hsome, fun i hi => ?_⟩
  simpa using Nat.find_min hsome hi

variable {p : ℕ}

theorem IsLowest.lt (h : IsLowest mask p) : p < w := BitVec.lt_of_getLsbD h.set

/-- Subtracting one turns over the bits up to the lowest that is set. -/
theorem IsLowest.getLsbD_sub_one (h : IsLowest mask p) (i : ℕ) :
    (mask - 1).getLsbD i = if i < p then true else if i = p then false else mask.getLsbD i := by
  have hmod : mask.toNat % 2 ^ (p + 1) = 2 ^ p := by
    apply Nat.eq_of_testBit_eq
    intro j
    rw [Nat.testBit_mod_two_pow, Nat.testBit_two_pow, BitVec.testBit_toNat]
    rcases Nat.lt_trichotomy j p with hj | rfl | hj
    · simp [h.below j hj, Nat.ne_of_gt hj]
    · simp [h.set]
    · simp [Nat.not_lt.mpr hj, Nat.ne_of_lt hj]
  have hsplit : mask.toNat = 2 ^ (p + 1) * (mask.toNat / 2 ^ (p + 1)) + 2 ^ p := by
    rw [← hmod, Nat.div_add_mod]
  have hpos : 0 < 2 ^ p := Nat.two_pow_pos p
  have hlt : 2 ^ p < 2 ^ (p + 1) := Nat.pow_lt_pow_right Nat.one_lt_two (Nat.lt_succ_self p)
  have hone : (1#w).toNat = 1 := BitVec.toNat_one (Nat.zero_lt_of_lt h.lt)
  have hle : 1#w ≤ mask := by
    rw [BitVec.le_def, hone]
    omega
  have hsub : (mask - 1#w).toNat = 2 ^ (p + 1) * (mask.toNat / 2 ^ (p + 1)) + (2 ^ p - 1) := by
    rw [BitVec.toNat_sub_of_le hle, hone]
    omega
  have hbit : mask.getLsbD i = if i < p + 1 then (2 ^ p).testBit i
      else (mask.toNat / 2 ^ (p + 1)).testBit (i - (p + 1)) := by
    rw [← BitVec.testBit_toNat, hsplit, Nat.testBit_two_pow_mul_add _ hlt, ← hsplit]
  rw [BitVec.ofNat_eq_ofNat, ← BitVec.testBit_toNat, hsub,
    Nat.testBit_two_pow_mul_add _ (by omega), hbit, Nat.testBit_two_pow_sub_one]
  rcases Nat.lt_trichotomy i p with hi | rfl | hi
  · simp [hi, Nat.lt_succ_of_lt hi]
  · simp
  · simp [Nat.not_lt.mpr (Nat.le_of_lt hi), Nat.not_lt.mpr hi, Nat.ne_of_gt hi]

/-- The bits below the lowest that is set. -/
theorem IsLowest.getLsbD_below (h : IsLowest mask p) (i : ℕ) :
    ((mask - 1) &&& ~~~mask).getLsbD i = decide (i < p) := by
  have hp := h.lt
  rw [BitVec.getLsbD_and, BitVec.getLsbD_not, h.getLsbD_sub_one]
  rcases Nat.lt_trichotomy i p with hi | rfl | hi
  · rw [if_pos hi, h.below i hi]
    simp only [Bool.not_false, Bool.true_and, Bool.and_true, decide_eq_decide]
    omega
  · simp
  · rw [if_neg (Nat.not_lt.mpr (Nat.le_of_lt hi)), if_neg (Nat.ne_of_gt hi)]
    cases mask.getLsbD i <;> simp [Nat.le_of_lt hi]

/-- The mask without its lowest bit. -/
theorem IsLowest.getLsbD_rest (h : IsLowest mask p) (i : ℕ) :
    (mask &&& (mask - 1)).getLsbD i = (mask.getLsbD i && decide (i ≠ p)) := by
  rw [BitVec.getLsbD_and, h.getLsbD_sub_one]
  rcases Nat.lt_trichotomy i p with hi | rfl | hi
  · rw [h.below i hi]
    rfl
  · simp
  · rw [if_neg (Nat.not_lt.mpr (Nat.le_of_lt hi)), if_neg (Nat.ne_of_gt hi)]
    simp [Nat.ne_of_gt hi]

/-- Below a power of two is a run. -/
theorem exists_isRun_sub_one {x : BitVec w} (h : x ≠ 0) (hand : x &&& (x - 1) = 0) :
    ∃ p, IsRun (x - 1) p := by
  obtain ⟨p, hp⟩ := exists_isLowest h
  refine ⟨p, fun i => ?_⟩
  rw [hp.getLsbD_sub_one]
  rcases Nat.lt_trichotomy i p with hi | rfl | hi
  · rw [if_pos hi, decide_eq_true hi]
  · simp
  · have hrest := hp.getLsbD_rest i
    rw [hand, BitVec.ofNat_eq_ofNat, BitVec.getLsbD_zero, decide_eq_true (Nat.ne_of_gt hi),
      Bool.and_true] at hrest
    rw [if_neg (Nat.not_lt.mpr (Nat.le_of_lt hi)), if_neg (Nat.ne_of_gt hi), ← hrest,
      decide_eq_false (Nat.not_lt.mpr (Nat.le_of_lt hi))]

theorem IsLowest.rest_lt (h : IsLowest mask p) : mask &&& (mask - 1) < mask := by
  have hle : (mask &&& (mask - 1)).toNat ≤ mask.toNat := by
    rw [BitVec.toNat_and]
    exact Nat.and_le_left
  have hne : mask &&& (mask - 1) ≠ mask := by
    intro heq
    have hbit := h.getLsbD_rest p
    rw [heq, h.set] at hbit
    simp at hbit
  rw [BitVec.lt_def]
  exact lt_of_le_of_ne hle fun heq => hne (BitVec.eq_of_toNat_eq heq)

theorem IsLowest.leaves_rest (h : IsLowest mask p) {i : ℕ} :
    Leaves (mask &&& (mask - 1)) i ↔ Leaves mask i ∨ i = p := by
  rw [Leaves, h.getLsbD_rest, Bool.and_eq_false_iff, decide_eq_false_iff_not, ne_eq, not_not]
  rfl

theorem IsLowest.leaves_of_lt (h : IsLowest mask p) {i : ℕ} (hi : i < p) : Leaves mask i :=
  h.below i hi

theorem IsLowest.not_leaves (h : IsLowest mask p) : ¬ Leaves mask p := by
  rw [Leaves, h.set]
  exact Bool.noConfusion

/-- Without the lowest bit of the mask, one more position below each later one is left. -/
theorem IsLowest.rank_rest (h : IsLowest mask p) {i : ℕ} (hi : p < i) :
    rank (mask &&& (mask - 1)) i = rank mask i + 1 := by
  simp only [rank]
  induction i, hi using Nat.le_induction with
  | base =>
      have hbelow : Nat.count (Leaves (mask &&& (mask - 1))) p = Nat.count (Leaves mask) p := by
        rw [Nat.count_iff_forall.mpr fun j hj => h.leaves_of_lt hj, Nat.count_iff_forall]
        exact fun j hj => h.leaves_rest.mpr (.inl (h.leaves_of_lt hj))
      rw [Nat.succ_eq_add_one, Nat.count_succ, if_pos (h.leaves_rest.mpr (.inr rfl)),
        Nat.count_succ, if_neg h.not_leaves, hbelow]
  | succ i hi ih =>
      have hsame : Leaves (mask &&& (mask - 1)) i ↔ Leaves mask i := by
        rw [h.leaves_rest, or_iff_left (by omega)]
      rw [Nat.count_succ, Nat.count_succ, ih, Nat.add_right_comm]
      simp only [hsame]

/-- Taking out the lowest position of the mask shifts the later ones. -/
theorem IsLowest.place_eq (h : IsLowest mask p) (k : ℕ) :
    place mask k =
      if place ((mask &&& (mask - 1)) >>> 1) k < p then place ((mask &&& (mask - 1)) >>> 1) k
      else place ((mask &&& (mask - 1)) >>> 1) k + 1 := by
  let skip (j : ℕ) : ℕ := if j < p then j else j + 1
  have hskip : StrictMono skip := by
    intro i j hij
    simp only [skip]
    split <;> split <;> omega
  have hrange (j : ℕ) (hj : Leaves mask j) : j ∈ Set.range skip := by
    have hne : j ≠ p := by
      rintro rfl
      exact h.not_leaves hj
    rcases Nat.lt_or_gt_of_ne hne with hlt | hlt
    · exact ⟨j, if_pos hlt⟩
    · refine ⟨j - 1, ?_⟩
      simp only [skip]
      rw [if_neg (by omega)]
      omega
  have hleaves : Leaves ((mask &&& (mask - 1)) >>> 1) = fun j => Leaves mask (skip j) := by
    funext j
    have hshift : Leaves ((mask &&& (mask - 1)) >>> 1) j ↔
        Leaves (mask &&& (mask - 1)) (j + 1) := by
      rw [Leaves, BitVec.getLsbD_ushiftRight, Nat.add_comm]
      rfl
    rw [hshift, h.leaves_rest]
    simp only [skip]
    split
    · next hlt =>
      simp only [h.leaves_of_lt hlt, iff_true, eq_iff_iff]
      rcases Nat.lt_or_eq_of_le (Nat.succ_le_of_lt hlt) with hlt | heq
      · exact .inl (h.leaves_of_lt hlt)
      · exact .inr heq
    · rw [or_iff_left (by omega)]
  have hcomp := Nat.nth_comp_of_strictMono (n := k) hskip hrange
    (fun hfinite => absurd hfinite (infinite_leaves mask))
  rw [← hleaves] at hcomp
  exact hcomp.symm

end ManicRoom.Foundation
