/-
# The memory map of a console

`setup_memory_maps` describes the memory of the emulated process to the frontend: one descriptor
for each area that a game can use. The areas rarely have the size of a power of two, so that most
selections are computed here and not inferred.

Source: `citra_libretro.cpp`. The bounds of the regions and the flags come from headers outside
and are parameters.
-/

import ManicRoom.MemoryMap.Translation
import Mathlib.Data.Nat.Log

namespace ManicRoom.MemoryMap

open ManicRoom.Foundation

universe u

variable {Pointer : Type u}

/-- A region of the address space of a process. -/
structure Region where
  vaddr : BitVec 32
  vaddrEnd : BitVec 32

/-- The address lies in the region. -/
def Region.Holds (region : Region) (addr : BitVec 32) : Prop :=
  region.vaddr ≤ addr ∧ addr < region.vaddrEnd

instance (region : Region) (addr : BitVec 32) : Decidable (region.Holds addr) :=
  inferInstanceAs (Decidable (_ ∧ _))

/-- The constants of `Memory` and of the frontend. -/
structure Platform where
  heap : Region
  linearHeap : Region
  newLinearHeap : Region
  vram : Region
  systemRam : BitVec 64
  videoRam : BitVec 64

/-- A virtual memory area. -/
structure VirtualMemoryArea (Pointer : Type u) where
  base : BitVec 32
  size : BitVec 32
  isBackingMemory : Bool
  backingMemory : Option Pointer

/-- The flags of an area, if it is one of those that are exposed. -/
def Platform.flags (platform : Platform) (base : BitVec 32) : Option (BitVec 64) :=
  if platform.heap.Holds base then some platform.systemRam
  else if platform.linearHeap.Holds base then some platform.systemRam
  else if platform.newLinearHeap.Holds base then some platform.systemRam
  else if platform.vram.Holds base then some platform.videoRam
  else none

theorem toNat_double {size : BitVec 32} {np2 : Size} (h : np2.toNat < size.toNat) :
    (np2 <<< 1).toNat = 2 * np2.toNat := by
  have hsize := size.isLt
  rw [BitVec.toNat_shiftLeft, Nat.shiftLeft_eq, Nat.mod_eq_of_lt (by omega)]
  omega

/-- The loop that doubles `np2` until it holds the area. -/
def doubleUntil (size : BitVec 32) (np2 : Size) (hpos : 0 < np2.toNat) : Size :=
  if h : np2.toNat < size.toNat then
    doubleUntil size (np2 <<< 1) (toNat_double h ▸ Nat.mul_pos Nat.two_pos hpos)
  else np2
termination_by size.toNat - np2.toNat
decreasing_by
  rw [toNat_double h]
  omega

/-- The smallest power of two that holds the area. -/
def nextPowerOfTwo (size : BitVec 32) : Size := doubleUntil size 1 Nat.one_pos

/-- The body of the loop of `setup_memory_maps`. -/
def describe (platform : Platform) (vma : VirtualMemoryArea Pointer) :
    Option (Descriptor Pointer) :=
  if !vma.isBackingMemory then none
  else if vma.size = 0 ∨ vma.backingMemory = none then none
  else
    match platform.flags vma.base with
    | none => none
    | some flags =>
        let desc : Descriptor Pointer :=
          { flags := flags
            ptr := vma.backingMemory
            start := vma.base.setWidth 64
            select := 0
            disconnect := 0
            len := vma.size.setWidth 64 }
        let needSelect := vma.size &&& (vma.size - 1) ≠ 0 ∨ vma.base &&& (vma.size - 1) ≠ 0
        if needSelect then
          let np2 := nextPowerOfTwo vma.size
          if vma.base.setWidth 64 &&& (np2 - 1) ≠ 0 then none
          else some { desc with select := ~~~(np2 - 1) }
        else some desc

/-- `setup_memory_maps`, for the areas of the process if there is one: the descriptors it sets,
if it sets any. -/
def setupMemoryMaps (platform : Platform) (vmaMap : Option (List (VirtualMemoryArea Pointer))) :
    Option (List (Descriptor Pointer)) := do
  let vmas ← vmaMap
  let descs := vmas.filterMap (describe platform)
  if descs.isEmpty then none else some descs

/-! ## The power of two that holds an area -/

variable {platform : Platform} {vma : VirtualMemoryArea Pointer}
  {vmas : List (VirtualMemoryArea Pointer)} {desc : Descriptor Pointer}
  {descs : List (Descriptor Pointer)} {top addr : Size}

/-- How many lines the smallest power of two that holds the area leaves open. -/
def VirtualMemoryArea.lines (vma : VirtualMemoryArea Pointer) : ℕ := Nat.clog 2 vma.size.toNat

theorem VirtualMemoryArea.lines_le (vma : VirtualMemoryArea Pointer) : vma.lines ≤ 32 :=
  Nat.clog_le_of_le_pow (Nat.le_of_lt vma.size.isLt)

theorem toNat_doubleUntil (size : BitVec 32) (np2 : Size) (hpos : 0 < np2.toNat) {k : ℕ}
    (hnp2 : np2.toNat = 2 ^ k) (hk : k ≤ Nat.clog 2 size.toNat) :
    (doubleUntil size np2 hpos).toNat = 2 ^ Nat.clog 2 size.toNat := by
  fun_induction doubleUntil size np2 hpos generalizing k with
  | case1 np2 hpos hlt ih =>
      have hdouble : (np2 <<< 1).toNat = 2 ^ (k + 1) := by
        rw [toNat_double hlt, hnp2, Nat.pow_succ, Nat.mul_comm]
      rw [hnp2] at hlt
      exact ih hdouble ((Nat.lt_clog_iff_pow_lt Nat.one_lt_two).mpr hlt)
  | case2 np2 hpos hge =>
      rw [hnp2] at hge
      have heq := le_antisymm hk (Nat.clog_le_of_le_pow (Nat.not_lt.mp hge))
      rw [hnp2, heq]

theorem isRun_nextPowerOfTwo (vma : VirtualMemoryArea Pointer) :
    IsRun (nextPowerOfTwo vma.size - 1) vma.lines := by
  have hdouble : (nextPowerOfTwo vma.size).toNat = 2 ^ vma.lines :=
    toNat_doubleUntil vma.size 1 _ (Nat.pow_zero 2).symm (Nat.zero_le _)
  have hpos : 0 < 2 ^ vma.lines := Nat.two_pow_pos _
  apply isRun_of_toNat
  rw [← hdouble] at hpos ⊢
  bv_omega

theorem and_sub_one_eq_zero_iff (h : vma.size ≠ 0) :
    vma.size &&& (vma.size - 1) = 0 ↔ vma.size.toNat = 2 ^ vma.lines := by
  have hsub : (vma.size - 1).toNat = vma.size.toNat - 1 := by bv_omega
  constructor
  · intro hand
    obtain ⟨p, hp⟩ := exists_isRun_sub_one h hand
    have hpos : 0 < 2 ^ p := Nat.two_pow_pos p
    have hpow : vma.size.toNat = 2 ^ p := by
      have hrun := hp.toNat
      rw [hsub] at hrun
      bv_omega
    rw [VirtualMemoryArea.lines, hpow, Nat.clog_pow 2 p Nat.one_lt_two]
  · intro hpow
    apply BitVec.eq_of_toNat_eq
    rw [BitVec.toNat_and, hsub, hpow, Nat.and_two_pow_sub_one_eq_mod, Nat.mod_self]
    rfl

theorem and_size_sub_one_eq_zero_iff (h : vma.size.toNat = 2 ^ vma.lines) :
    vma.base &&& (vma.size - 1) = 0 ↔ 2 ^ vma.lines ∣ vma.base.toNat := by
  have hpos : 0 < 2 ^ vma.lines := Nat.two_pow_pos _
  have hsub : (vma.size - 1).toNat = 2 ^ vma.lines - 1 := by
    rw [← h] at hpos ⊢
    bv_omega
  rw [← BitVec.toNat_inj, BitVec.toNat_and, hsub, Nat.and_two_pow_sub_one_eq_mod,
    Nat.dvd_iff_mod_eq_zero]
  rfl

theorem and_nextPowerOfTwo_eq_zero_iff :
    vma.base.setWidth 64 &&& (nextPowerOfTwo vma.size - 1) = 0 ↔
      2 ^ vma.lines ∣ vma.base.toNat := by
  rw [← BitVec.toNat_inj, BitVec.toNat_and, (isRun_nextPowerOfTwo vma).toNat,
    Nat.and_two_pow_sub_one_eq_mod, Nat.dvd_iff_mod_eq_zero,
    BitVec.toNat_setWidth_of_le (by decide)]
  rfl

/-! ## What is exposed -/

/-- The areas that get a descriptor: those in one of the regions that start at a multiple of the
smallest power of two that holds them. -/
def Exposed (platform : Platform) (vma : VirtualMemoryArea Pointer) : Prop :=
  vma.isBackingMemory = true ∧ vma.size ≠ 0 ∧ vma.backingMemory.isSome = true ∧
    (platform.flags vma.base).isSome = true ∧ 2 ^ vma.lines ∣ vma.base.toNat

instance (platform : Platform) (vma : VirtualMemoryArea Pointer) :
    Decidable (Exposed platform vma) :=
  inferInstanceAs (Decidable (_ ∧ _))

/-- What the descriptor of an area says. -/
structure Describes (vma : VirtualMemoryArea Pointer) (desc : Descriptor Pointer) : Prop where
  ptr : desc.ptr = vma.backingMemory
  start : desc.start = vma.base.setWidth 64
  disconnect : desc.disconnect = 0
  len : desc.len = vma.size.setWidth 64
  select : (desc.select = 0 ∧ vma.size.toNat = 2 ^ vma.lines) ∨
    desc.select = ~~~(nextPowerOfTwo vma.size - 1)

theorem describe_of_exposed (h : Exposed platform vma) :
    ∃ desc, describe platform vma = some desc ∧ Describes vma desc := by
  obtain ⟨hbacking, hsize, hptr, hflags, haligned⟩ := h
  obtain ⟨flags, hflags⟩ := Option.isSome_iff_exists.mp hflags
  have hmemory : ¬(vma.size = 0 ∨ vma.backingMemory = none) := by
    intro hor
    cases hor with
    | inl hzero => exact hsize hzero
    | inr hnone => simp [hnone] at hptr
  have haligned64 := not_not.mpr (and_nextPowerOfTwo_eq_zero_iff.mpr haligned)
  simp only [describe, hbacking, Bool.not_true, Bool.false_eq_true, if_false, if_neg hmemory,
    hflags, if_neg haligned64]
  split
  · exact ⟨_, rfl, rfl, rfl, rfl, rfl, .inr rfl⟩
  · next hneed =>
    rw [not_or, not_not] at hneed
    exact ⟨_, rfl, rfl, rfl, rfl, rfl, .inl ⟨rfl, (and_sub_one_eq_zero_iff hsize).mp hneed.1⟩⟩

theorem describe_of_not_exposed (h : ¬Exposed platform vma) : describe platform vma = none := by
  rw [describe]
  split
  · rfl
  · next hbacking =>
    split
    · rfl
    · next hmemory =>
      rw [not_or] at hmemory
      cases hflags : platform.flags vma.base with
      | none => rfl
      | some flags =>
          have hunaligned : ¬2 ^ vma.lines ∣ vma.base.toNat := by
            intro haligned
            refine h ⟨by simpa using hbacking, hmemory.1, ?_, by simp [hflags], haligned⟩
            exact Option.isSome_iff_ne_none.mpr hmemory.2
          have haligned64 := mt and_nextPowerOfTwo_eq_zero_iff.mp hunaligned
          have hneed : vma.size &&& (vma.size - 1) ≠ 0 ∨ vma.base &&& (vma.size - 1) ≠ 0 := by
            by_contra hneither
            rw [not_or, not_not, not_not] at hneither
            have hpow := (and_sub_one_eq_zero_iff hmemory.1).mp hneither.1
            exact hunaligned ((and_size_sub_one_eq_zero_iff hpow).mp hneither.2)
          simp only [if_pos hneed, if_pos haligned64]

/-- The descriptors are those of the exposed areas, in their order. -/
theorem forall₂_describe (platform : Platform) (vmas : List (VirtualMemoryArea Pointer)) :
    List.Forall₂ Describes (vmas.filter fun vma => Exposed platform vma)
      (vmas.filterMap (describe platform)) := by
  induction vmas with
  | nil => exact .nil
  | cons vma vmas ih =>
      by_cases hexposed : Exposed platform vma
      · obtain ⟨desc, hdesc, hdescribes⟩ := describe_of_exposed hexposed
        rw [List.filter_cons_of_pos (by simpa using hexposed), List.filterMap_cons_some hdesc]
        exact .cons hdescribes ih
      · rw [List.filter_cons_of_neg (by simpa using hexposed),
          List.filterMap_cons_none (describe_of_not_exposed hexposed)]
        exact ih

/-! ## Descriptors of areas -/

/-- The lines that the descriptor of an area leaves open. -/
def VirtualMemoryArea.mask (vma : VirtualMemoryArea Pointer) : Size := nextPowerOfTwo vma.size - 1

/-- A computed selection has the highest line. -/
theorem getLsbD_not_mask (vma : VirtualMemoryArea Pointer) :
    (~~~(nextPowerOfTwo vma.size - 1)).getLsbD 63 = true := by
  have hout : ¬63 < vma.lines := by
    have hlines := vma.lines_le
    omega
  rw [BitVec.getLsbD_not, isRun_nextPowerOfTwo vma, decide_eq_false hout]
  rfl

theorem Describes.select_eq_zero_iff (h : Describes vma desc) :
    desc.select = 0 ↔ desc.select ≠ ~~~(nextPowerOfTwo vma.size - 1) := by
  have hcomputed : ~~~(nextPowerOfTwo vma.size - 1) ≠ 0 := by
    intro hzero
    have hbit := getLsbD_not_mask vma
    rw [hzero, BitVec.ofNat_eq_ofNat, BitVec.getLsbD_zero] at hbit
    cases hbit
  constructor
  · intro hzero
    rw [hzero]
    exact hcomputed.symm
  · intro hne
    exact (h.select.resolve_right hne).1

section

variable (h : Describes vma desc) (hexposed : Exposed platform vma)

include h hexposed

theorem Describes.len_ne_zero : desc.len ≠ 0 := by
  have hsize := hexposed.2.1
  rw [h.len]
  bv_omega

theorem Describes.start_within : Within desc.start (~~~vma.mask) := by
  rw [within_iff_and_not, BitVec.not_not, h.start]
  exact and_nextPowerOfTwo_eq_zero_iff.mpr hexposed.2.2.2.2

theorem Describes.toNat_len_sub_one : (desc.len - 1).toNat = vma.size.toNat - 1 := by
  have hsize := hexposed.2.1
  rw [h.len]
  bv_omega

theorem Describes.len_sub_one_eq (hpow : vma.size.toNat = 2 ^ vma.lines) :
    desc.len - 1 = vma.mask := by
  apply BitVec.eq_of_toNat_eq
  rw [h.toNat_len_sub_one hexposed, VirtualMemoryArea.mask, (isRun_nextPowerOfTwo vma).toNat, hpow]

theorem Describes.lines_le_bitLength : vma.lines ≤ bitLength (desc.len - 1) := by
  apply Nat.clog_le_of_le_pow
  rw [bitLength, h.toNat_len_sub_one hexposed]
  have hlt := Nat.lt_size_self (vma.size.toNat - 1)
  omega

/-- The top has all lines of the area, and all there are if some selection was computed. -/
theorem Describes.within_top {p : ℕ} (hp : IsRun top p)
    (hline : Within
      (if desc.select ≠ 0 then desc.select else desc.start + desc.len - 1) top) :
    Within (desc.start ||| vma.mask) top ∧ (desc.select ≠ 0 → ∀ word, Within word top) := by
  cases h.select with
  | inl hinferred =>
      obtain ⟨hselect, hpow⟩ := hinferred
      have hdisjoint : desc.start &&& vma.mask = 0 := by
        simpa using within_iff_and_not.mp (h.start_within hexposed)
      have hassoc : desc.start + desc.len - 1 = desc.start + (desc.len - 1) := by bv_omega
      rw [if_neg (not_not.mpr hselect), hassoc, h.len_sub_one_eq hexposed hpow,
        BitVec.add_eq_or_of_and_eq_zero _ _ hdisjoint] at hline
      exact ⟨hline, fun hne => absurd hselect hne⟩
  | inr hcomputed =>
      have hne : desc.select ≠ 0 := mt h.select_eq_zero_iff.mp (not_not.mpr hcomputed)
      rw [if_pos hne, hcomputed] at hline
      have hfull : 63 < p := by
        have htop := hline 63 (getLsbD_not_mask vma)
        rwa [hp, decide_eq_true_eq] at htop
      have hall (word : Size) : Within word top := by
        intro i hi
        have hlt := BitVec.lt_of_getLsbD hi
        rw [hp, decide_eq_true_eq]
        omega
      exact ⟨hall _, fun _ => hall⟩

/-- The descriptor of an area can be prepared, and selects what lies above its cover. -/
theorem Describes.preprocessDescriptor_eq {p : ℕ} (hp : IsRun top p)
    (hline : Within
      (if desc.select ≠ 0 then desc.select else desc.start + desc.len - 1) top) :
    preprocessDescriptor top desc = (true, { desc with select := top &&& ~~~vma.mask }) := by
  obtain ⟨hwithin, hall⟩ := h.within_top hexposed hp hline
  have hlen := h.len_ne_zero hexposed
  have hcomplete : complete top desc = { desc with select := top &&& ~~~vma.mask } := by
    rw [complete, inferSelect]
    cases h.select with
    | inl hinferred =>
        obtain ⟨hselect, hpow⟩ := hinferred
        have hrun := isRun_nextPowerOfTwo vma
        rw [if_pos hselect, h.len_sub_one_eq hexposed hpow, VirtualMemoryArea.mask,
          mmapAddBitsDown_of_isRun hrun, h.disconnect, mmapInflate_zero, inferLen, if_neg hlen]
    | inr hcomputed =>
        have hne : desc.select ≠ 0 := mt h.select_eq_zero_iff.mp (not_not.mpr hcomputed)
        have hselect : desc.select = top &&& ~~~vma.mask := by
          rw [BitVec.and_comm, (hall hne _).and_eq]
          exact hcomputed
        rw [if_neg hne, inferLen, if_neg hlen, ← hselect]
  have hopen : desc.select = 0 → desc.len ≠ 0 ∧ desc.len &&& (desc.len - 1) = 0 := by
    intro hzero
    have hpow := (h.select.resolve_right (h.select_eq_zero_iff.mp hzero)).2
    refine ⟨hlen, BitVec.eq_of_toNat_eq ?_⟩
    rw [BitVec.toNat_and, h.toNat_len_sub_one hexposed, h.len, hpow,
      BitVec.toNat_setWidth_of_le (by decide), hpow, Nat.and_two_pow_sub_one_eq_mod, Nat.mod_self]
    rfl
  have hselected : Within desc.start (top &&& ~~~vma.mask) := by
    intro i hbit
    have htop := hwithin i (by rw [BitVec.getLsbD_or, hbit, Bool.true_or])
    rw [BitVec.getLsbD_and, htop, h.start_within hexposed i hbit]
    rfl
  have hshort : bitLength (openLines top (top &&& ~~~vma.mask) desc.disconnect) ≤
      bitLength (mmapInflate (desc.len - 1) desc.disconnect) := by
    rw [h.disconnect, mmapInflate_zero]
    refine le_trans ?_ (h.lines_le_bitLength hexposed)
    rw [← (isRun_nextPowerOfTwo vma).bitLength]
    apply bitLength_le_bitLength
    intro i hbit
    have hi := BitVec.lt_of_getLsbD hbit
    by_contra hout
    simp_all [openLines, VirtualMemoryArea.mask]
  apply preprocessDescriptor_eq_true_iff.mpr
  rw [hcomplete]
  exact ⟨hopen, hselected, by rw [disconnectHigh_of_le hshort]⟩

end

theorem Describes.toNat_start (h : Describes vma desc) : desc.start.toNat = vma.base.toNat := by
  rw [h.start, BitVec.toNat_setWidth_of_le (by decide)]

theorem VirtualMemoryArea.size_le (vma : VirtualMemoryArea Pointer) :
    vma.size.toNat ≤ 2 ^ vma.lines :=
  Nat.le_pow_clog Nat.one_lt_two _

/-- What the descriptor of an area is once it is prepared: it keeps what was set, selects the
addresses of the block that holds the area, and leaves the lines open that tell the addresses of
the area apart. -/
structure Covers (top : Size) (vma : VirtualMemoryArea Pointer) (desc : Descriptor Pointer) :
    Prop where
  ptr : desc.ptr = vma.backingMemory
  start : desc.start = vma.base.setWidth 64
  disconnect : desc.disconnect = 0
  len : desc.len = vma.size.setWidth 64
  selected_iff : ∀ addr ≤ top, addr &&& desc.select = desc.start ↔
    vma.base.toNat ≤ addr.toNat ∧ addr.toNat < vma.base.toNat + 2 ^ vma.lines
  reach : ∀ addr : Size, vma.base.toNat ≤ addr.toNat →
    addr.toNat < vma.base.toNat + vma.size.toNat → addr ≤ top
  distance : ∀ addr : Size, vma.base.toNat ≤ addr.toNat →
    addr.toNat < vma.base.toNat + vma.size.toNat →
    (mmapReduce (addr &&& ~~~desc.select) desc.disconnect).toNat = addr.toNat - vma.base.toNat

section

variable (h : Describes vma desc) (hexposed : Exposed platform vma)

include h hexposed

/-- The block of an address is that of the area exactly between the bounds of the block. -/
theorem Describes.div_eq_iff : addr.toNat / 2 ^ vma.lines = desc.start.toNat / 2 ^ vma.lines ↔
    vma.base.toNat ≤ addr.toNat ∧ addr.toNat < vma.base.toNat + 2 ^ vma.lines := by
  obtain ⟨block, hblock⟩ := hexposed.2.2.2.2
  have hpos : 0 < 2 ^ vma.lines := Nat.two_pow_pos _
  rw [h.toNat_start, hblock, Nat.mul_div_cancel_left _ hpos, Nat.div_eq_iff hpos,
    Nat.mul_comm block]
  omega

theorem Describes.selected_iff (haddr : Within addr top) :
    addr &&& (top &&& ~~~vma.mask) = desc.start ↔
      vma.base.toNat ≤ addr.toNat ∧ addr.toNat < vma.base.toNat + 2 ^ vma.lines := by
  have hrun : IsRun vma.mask vma.lines := isRun_nextPowerOfTwo vma
  rw [← h.div_eq_iff hexposed, ← hrun.and_not_eq_iff, ← BitVec.and_assoc, haddr.and_eq,
    (h.start_within hexposed).and_eq]

theorem Describes.le_top (hwithin : Within (desc.start ||| vma.mask) top)
    (hlt : addr.toNat < vma.base.toNat + vma.size.toNat) : addr ≤ top := by
  have hrun : IsRun vma.mask vma.lines := isRun_nextPowerOfTwo vma
  have hdisjoint : desc.start &&& vma.mask = 0 := by
    simpa using within_iff_and_not.mp (h.start_within hexposed)
  have hle := hwithin.le
  rw [← BitVec.add_eq_or_of_and_eq_zero _ _ hdisjoint] at hle
  have hsum : (desc.start + vma.mask).toNat = vma.base.toNat + (2 ^ vma.lines - 1) := by
    have hbase := vma.base.isLt
    have hcover : 2 ^ vma.lines ≤ 2 ^ 32 := Nat.pow_le_pow_right Nat.two_pos vma.lines_le
    rw [BitVec.toNat_add, h.toNat_start, hrun.toNat, Nat.mod_eq_of_lt (by omega)]
  have hsize := vma.size_le
  rw [BitVec.le_def, hsum] at hle
  rw [BitVec.le_def]
  omega

/-- The lines that are not selected spell the distance from the start of the area. -/
theorem Describes.toNat_and_not_select (haddr : Within addr top)
    (hle : vma.base.toNat ≤ addr.toNat) (hlt : addr.toNat < vma.base.toNat + 2 ^ vma.lines) :
    (addr &&& ~~~(top &&& ~~~vma.mask)).toNat = addr.toNat - vma.base.toNat := by
  have hrun : IsRun vma.mask vma.lines := isRun_nextPowerOfTwo vma
  have hopen : addr &&& ~~~(top &&& ~~~vma.mask) = addr &&& vma.mask := by
    apply BitVec.eq_of_getLsbD_eq
    intro i hi
    have hbit := haddr i
    simp only [BitVec.getLsbD_and, BitVec.getLsbD_not]
    cases hset : addr.getLsbD i with
    | false => rfl
    | true => simp [hbit hset, hi]
  obtain ⟨block, hblock⟩ := hexposed.2.2.2.2
  have hdiv := (h.div_eq_iff hexposed).mpr ⟨hle, hlt⟩
  rw [h.toNat_start, hblock, Nat.mul_div_cancel_left _ (Nat.two_pow_pos _)] at hdiv
  rw [hopen, BitVec.toNat_and, hrun.toNat, Nat.and_two_pow_sub_one_eq_mod, hblock, ← hdiv]
  exact Nat.eq_sub_of_add_eq (Nat.mod_add_div ..)

theorem Describes.covers {p : ℕ} (hp : IsRun top p)
    (hline : Within
      (if desc.select ≠ 0 then desc.select else desc.start + desc.len - 1) top) :
    Covers top vma { desc with select := top &&& ~~~vma.mask } := by
  have hwithin := (h.within_top hexposed hp hline).1
  have hsize := vma.size_le
  exact
    { ptr := h.ptr
      start := h.start
      disconnect := h.disconnect
      len := h.len
      selected_iff := fun addr hle => h.selected_iff hexposed (hp.le_iff.mp hle)
      reach := fun addr _ hlt => h.le_top hexposed hwithin hlt
      distance := by
        intro addr hle hlt
        have haddr := hp.le_iff.mp (h.le_top hexposed hwithin hlt)
        rw [h.disconnect, mmapReduce_zero]
        exact h.toNat_and_not_select hexposed haddr hle (by omega) }

end

theorem preprocessDescriptors_describes {areas : List (VirtualMemoryArea Pointer)} {p : ℕ}
    (hp : IsRun top p) (h : List.Forall₂ Describes areas descs)
    (hexposed : ∀ vma ∈ areas, Exposed platform vma)
    (hline : ∀ desc ∈ descs, Within
      (if desc.select ≠ 0 then desc.select else desc.start + desc.len - 1) top) :
    (preprocessDescriptors top descs).1 = true ∧
      List.Forall₂ (Covers top) areas (preprocessDescriptors top descs).2 := by
  induction h with
  | nil => exact ⟨rfl, .nil⟩
  | @cons vma desc areas descs hdescribes hrest ih =>
      obtain ⟨hexposed, hexposed'⟩ := List.forall_mem_cons.mp hexposed
      obtain ⟨hline, hline'⟩ := List.forall_mem_cons.mp hline
      obtain ⟨hprepared, hcovers⟩ := ih hexposed' hline'
      simp only [preprocessDescriptors, hdescribes.preprocessDescriptor_eq hexposed hp hline]
      exact ⟨hprepared, .cons (hdescribes.covers hexposed hp hline) hcovers⟩

/-- **The memory map of a process says where its memory is.** The frontend prepares every
descriptor that `setup_memory_maps` sets, in the order of the exposed areas. Each then selects the
addresses from the start of its area up to the smallest power of two that holds it, and the lines
it leaves open spell the distance from the start for each address of the area. -/
theorem setMemoryMaps_covers (h : setupMemoryMaps platform (some vmas) = some descs) :
    (mmapPreprocessDescriptors descs).1 = true ∧
      List.Forall₂ (Covers (topAddr descs)) (vmas.filter fun vma => Exposed platform vma)
        (setMemoryMaps descs) := by
  have hdescs : descs = vmas.filterMap (describe platform) := by
    simp only [setupMemoryMaps, Option.bind_eq_bind, Option.bind_some] at h
    split at h
    · cases h
    · exact (Option.some.inj h).symm
  obtain ⟨p, hp⟩ := isRun_topAddr descs
  have hall := forall₂_describe platform vmas
  rw [← hdescs] at hall
  have hexposed : ∀ vma ∈ vmas.filter fun vma => Exposed platform vma, Exposed platform vma :=
    fun vma hmem => by simpa using (List.mem_filter.mp hmem).2
  exact preprocessDescriptors_describes hp hall hexposed fun desc hmem => within_topAddr hmem

/-! ## A sample map -/

/-- The regions of a console. -/
def samplePlatform : Platform where
  heap := ⟨0x08000000, 0x10000000⟩
  linearHeap := ⟨0x14000000, 0x1C000000⟩
  newLinearHeap := ⟨0x30000000, 0x40000000⟩
  vram := ⟨0x1F000000, 0x1F600000⟩
  systemRam := 4
  videoRam := 16

/-- A heap of three pages and the video memory. -/
def sampleAreas : List (VirtualMemoryArea Unit) :=
  [⟨0x08000000, 0x3000, true, some ()⟩, ⟨0x1F000000, 0x600000, true, some ()⟩]

theorem setMemoryMaps_covers_sample : ∃ descs,
    setupMemoryMaps samplePlatform (some sampleAreas) = some descs ∧
      List.Forall₂ (Covers (topAddr descs))
        (sampleAreas.filter fun vma => Exposed samplePlatform vma) (setMemoryMaps descs) := by
  have hexposed : Exposed samplePlatform
      (⟨0x08000000, 0x3000, true, some ()⟩ : VirtualMemoryArea Unit) := by decide
  obtain ⟨desc, hdesc, -⟩ := describe_of_exposed hexposed
  have hset : ∃ descs, setupMemoryMaps samplePlatform (some sampleAreas) = some descs := by
    simp only [setupMemoryMaps, sampleAreas, Option.bind_eq_bind, Option.bind_some,
      List.filterMap_cons_some hdesc]
    exact ⟨_, rfl⟩
  obtain ⟨descs, hdescs⟩ := hset
  exact ⟨descs, hdescs, (setMemoryMaps_covers hdescs).2⟩

end ManicRoom.MemoryMap
