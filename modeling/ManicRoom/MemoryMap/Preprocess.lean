/-
# How memory descriptors are prepared

A core describes its memory by descriptors: where it starts, how long it is, which address lines
have to agree with the start and which are not connected. `mmap_preprocess_descriptors` infers
what the core has left open and disconnects the lines that are too high to index into the memory.

Source: `runloop.c`.
-/

import ManicRoom.MemoryMap.Bits
import Mathlib.Data.Set.Function

namespace ManicRoom.MemoryMap

open ManicRoom.Foundation

universe u

variable {Pointer : Type u}

/-- `retro_memory_descriptor` -/
structure Descriptor (Pointer : Type u) where
  flags : BitVec 64
  ptr : Option Pointer
  start : Size
  select : Size
  disconnect : Size
  len : Size
  deriving DecidableEq

/-! ## Preparing one descriptor -/

/-- The highest bit is one of those of the number. -/
theorem getLsbD_mmapHighestBit (n : Size) (i : ℕ) :
    (mmapHighestBit n).getLsbD i = decide (bitLength n = i + 1) := by
  rw [← BitVec.testBit_toNat, toNat_mmapHighestBit, ← Nat.testBit_succ, Nat.testBit_two_pow]

theorem and_not_mmapHighestBit_lt {n : Size} (h : 0 < bitLength n) :
    n &&& ~~~mmapHighestBit n < n := by
  have hle : (n &&& ~~~mmapHighestBit n).toNat ≤ n.toNat := by
    rw [BitVec.toNat_and]
    exact Nat.and_le_left
  have hne : n &&& ~~~mmapHighestBit n ≠ n := by
    intro heq
    obtain ⟨i, hi⟩ := Nat.exists_eq_succ_of_ne_zero (Nat.ne_of_gt h)
    have hbit := congrArg (fun word => word.getLsbD i) heq
    simp [getLsbD_mmapHighestBit, hi, getLsbD_of_bitLength hi] at hbit
  rw [BitVec.lt_def]
  exact lt_of_le_of_ne hle fun heq => hne (BitVec.eq_of_toNat_eq heq)

/-- The lines that may vary and are connected. -/
def openLines (topAddr select disconnect : Size) : Size :=
  topAddr &&& ~~~select &&& ~~~disconnect

theorem openLines_or_lt {topAddr select disconnect reachable : Size}
    (h : mmapHighestBit reachable < mmapHighestBit (openLines topAddr select disconnect)) :
    openLines topAddr select
        (disconnect ||| mmapHighestBit (openLines topAddr select disconnect)) <
      openLines topAddr select disconnect := by
  have hpos := Nat.zero_lt_of_lt (mmapHighestBit_lt_iff.mp h)
  have heq (bit : Size) : openLines topAddr select (disconnect ||| bit) =
      openLines topAddr select disconnect &&& ~~~bit := by
    simp only [openLines, BitVec.not_or, BitVec.and_assoc]
  rw [heq]
  exact and_not_mmapHighestBit_lt hpos

/-- The last loop of `mmap_preprocess_descriptors`: disconnect the lines that are too high to
ever index into the buffer. -/
def disconnectHigh (topAddr select reachable disconnect : Size) : Size :=
  if mmapHighestBit reachable < mmapHighestBit (openLines topAddr select disconnect) then
    disconnectHigh topAddr select reachable
      (disconnect ||| mmapHighestBit (openLines topAddr select disconnect))
  else disconnect
termination_by (openLines topAddr select disconnect).toNat
decreasing_by exact BitVec.lt_def.mp (openLines_or_lt ‹_›)

/-- A descriptor without `select` gets one from its length. -/
def inferSelect (topAddr : Size) (desc : Descriptor Pointer) : Descriptor Pointer :=
  if desc.select = 0 then
    { desc with
      select := topAddr &&& ~~~mmapInflate (mmapAddBitsDown (desc.len - 1)) desc.disconnect }
  else desc

/-- A descriptor without a length gets it from the lines that may vary. -/
def inferLen (topAddr : Size) (desc : Descriptor Pointer) : Descriptor Pointer :=
  if desc.len = 0 then
    { desc with
      len := mmapAddBitsDown (mmapReduce (topAddr &&& ~~~desc.select) desc.disconnect) + 1 }
  else desc

/-- What the second loop of `mmap_preprocess_descriptors` fills in. -/
def complete (topAddr : Size) (desc : Descriptor Pointer) : Descriptor Pointer :=
  inferLen topAddr (inferSelect topAddr desc)

section

variable (topAddr : Size) (desc : Descriptor Pointer)

@[simp]
theorem complete_flags : (complete topAddr desc).flags = desc.flags := by
  simp only [complete, inferLen, inferSelect, apply_ite Descriptor.flags, ite_self]

@[simp]
theorem complete_ptr : (complete topAddr desc).ptr = desc.ptr := by
  simp only [complete, inferLen, inferSelect, apply_ite Descriptor.ptr, ite_self]

@[simp]
theorem complete_start : (complete topAddr desc).start = desc.start := by
  simp only [complete, inferLen, inferSelect, apply_ite Descriptor.start, ite_self]

@[simp]
theorem complete_disconnect : (complete topAddr desc).disconnect = desc.disconnect := by
  simp only [complete, inferLen, inferSelect, apply_ite Descriptor.disconnect, ite_self]

end

/-- The body of the second loop of `mmap_preprocess_descriptors`. -/
def preprocessDescriptor (topAddr : Size) (desc : Descriptor Pointer) :
    Bool × Descriptor Pointer :=
  if desc.select = 0 ∧ desc.len = 0 then (false, desc)
  else if desc.select = 0 ∧ desc.len &&& (desc.len - 1) ≠ 0 then (false, desc)
  else
    let desc := complete topAddr desc
    if desc.start &&& ~~~desc.select ≠ 0 then (false, desc)
    else
      (true, { desc with
        disconnect := disconnectHigh topAddr desc.select
          (mmapInflate (desc.len - 1) desc.disconnect) desc.disconnect })

/-! ## Preparing all of them -/

/-- The first loop: the lines that some descriptor looks at, and all below them. -/
def topAddr (descs : List (Descriptor Pointer)) : Size :=
  mmapAddBitsDown <| descs.foldl (fun top desc =>
    if desc.select ≠ 0 then top ||| desc.select else top ||| (desc.start + desc.len - 1)) 1

/-- The second loop: it stops at the first descriptor that cannot be prepared. -/
def preprocessDescriptors (topAddr : Size) :
    List (Descriptor Pointer) → Bool × List (Descriptor Pointer)
  | [] => (true, [])
  | desc :: descs =>
      match preprocessDescriptor topAddr desc with
      | (false, desc) => (false, desc :: descs)
      | (true, desc) =>
          let (prepared, descs) := preprocessDescriptors topAddr descs
          (prepared, desc :: descs)

/-- `mmap_preprocess_descriptors` -/
def mmapPreprocessDescriptors (descs : List (Descriptor Pointer)) :
    Bool × List (Descriptor Pointer) :=
  preprocessDescriptors (topAddr descs) descs

/-- What `RETRO_ENVIRONMENT_SET_MEMORY_MAPS` keeps of the descriptors of a core: it does not
look at what `mmap_preprocess_descriptors` returns. -/
def setMemoryMaps (descs : List (Descriptor Pointer)) : List (Descriptor Pointer) :=
  (mmapPreprocessDescriptors descs).2

end ManicRoom.MemoryMap
