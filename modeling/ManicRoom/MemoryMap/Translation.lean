/-
# What the open lines can spell

After `mmap_preprocess_descriptors` the lines that a descriptor neither selects nor disconnects
spell no number behind the smallest power of two that holds its memory. Where `select` was
inferred they spell each number below the length that the address lines can reach, and each one
in one way.
-/

import ManicRoom.MemoryMap.Preprocess

namespace ManicRoom.MemoryMap

open ManicRoom.Foundation

universe u

variable {Pointer : Type u} {desc desc' : Descriptor Pointer}
  {descs descs' : List (Descriptor Pointer)} {top addr : Size}

/-! ## The last loop -/

/-- It connects no line, and leaves none that is higher than what is reachable. -/
theorem disconnectHigh_spec (top select reachable disconnect : Size) :
    Within disconnect (disconnectHigh top select reachable disconnect) ∧
      bitLength (openLines top select (disconnectHigh top select reachable disconnect)) ≤
        bitLength reachable := by
  fun_induction disconnectHigh top select reachable disconnect with
  | case1 disconnect hhigh ih =>
      refine ⟨fun i hbit => ih.1 i ?_, ih.2⟩
      rw [BitVec.getLsbD_or, hbit, Bool.true_or]
  | case2 disconnect hhigh =>
      exact ⟨fun i hbit => hbit, Nat.not_lt.mp fun hlt => hhigh (mmapHighestBit_lt_iff.mpr hlt)⟩

theorem disconnectHigh_of_le {top select reachable disconnect : Size}
    (h : bitLength (openLines top select disconnect) ≤ bitLength reachable) :
    disconnectHigh top select reachable disconnect = disconnect := by
  rw [disconnectHigh, if_neg fun hhigh => Nat.not_lt.mpr h (mmapHighestBit_lt_iff.mp hhigh)]

/-! ## The top -/

theorem foldl_topAddr_within (descs : List (Descriptor Pointer)) (start : Size) :
    let line := descs.foldl (fun top desc =>
      if desc.select ≠ 0 then top ||| desc.select else top ||| (desc.start + desc.len - 1)) start
    Within start line ∧ ∀ desc ∈ descs,
      Within (if desc.select ≠ 0 then desc.select else desc.start + desc.len - 1) line := by
  induction descs generalizing start with
  | nil => exact ⟨fun _ hbit => hbit, fun _ hmem => absurd hmem List.not_mem_nil⟩
  | cons desc descs ih =>
      obtain ⟨hstart, hrest⟩ := ih
        (if desc.select ≠ 0 then start ||| desc.select else start ||| (desc.start + desc.len - 1))
      rw [← apply_ite (start ||| ·)] at hstart hrest
      simp only [List.foldl_cons, ← apply_ite (start ||| ·)]
      refine ⟨fun i hbit => hstart i ?_,
        List.forall_mem_cons.mpr ⟨fun i hbit => hstart i ?_, hrest⟩⟩
      · rw [BitVec.getLsbD_or, hbit, Bool.true_or]
      · rw [BitVec.getLsbD_or, hbit, Bool.or_true]

theorem isRun_topAddr (descs : List (Descriptor Pointer)) : ∃ p, IsRun (topAddr descs) p :=
  ⟨_, isRun_mmapAddBitsDown _⟩

/-- The top has all the lines that a descriptor looks at. -/
theorem within_topAddr (h : desc ∈ descs) :
    Within (if desc.select ≠ 0 then desc.select else desc.start + desc.len - 1)
      (topAddr descs) := by
  intro i hbit
  have hline := (foldl_topAddr_within descs 1).2 desc h i hbit
  rw [topAddr, isRun_mmapAddBitsDown, decide_eq_true_eq]
  exact lt_bitLength_iff.mpr ⟨i, le_rfl, hline⟩

/-! ## One descriptor -/

theorem preprocessDescriptor_eq_true_iff :
    preprocessDescriptor top desc = (true, desc') ↔
      (desc.select = 0 → desc.len ≠ 0 ∧ desc.len &&& (desc.len - 1) = 0) ∧
      Within desc.start (complete top desc).select ∧
      desc' = { complete top desc with
        disconnect := disconnectHigh top (complete top desc).select
          (mmapInflate ((complete top desc).len - 1) desc.disconnect) desc.disconnect } := by
  rw [within_iff_and_not, preprocessDescriptor]
  simp only [complete_start, complete_disconnect]
  constructor
  · intro h
    split_ifs at h with hempty hpower hselected
    · cases h
    · cases h
    · cases h
    · cases h
      have hopen (hselect : desc.select = 0) :
          desc.len ≠ 0 ∧ desc.len &&& (desc.len - 1) = 0 :=
        ⟨fun hlen => hempty ⟨hselect, hlen⟩, not_not.mp fun hne => hpower ⟨hselect, hne⟩⟩
      exact ⟨hopen, not_not.mp hselected, rfl⟩
  · intro h
    obtain ⟨hopen, hselected, rfl⟩ := h
    rw [if_neg fun hempty => (hopen hempty.1).1 hempty.2,
      if_neg fun hpower => hpower.2 (hopen hpower.1).2, if_neg (not_not.mpr hselected)]

/-- What the second loop has made of a descriptor. -/
structure Prepared (top : Size) (desc desc' : Descriptor Pointer) : Prop where
  start : desc'.start = desc.start
  ptr : desc'.ptr = desc.ptr
  flags : desc'.flags = desc.flags
  selected : Within desc'.start desc'.select
  lines : Within desc.disconnect desc'.disconnect
  short : bitLength (openLines top desc'.select desc'.disconnect) ≤
    bitLength (mmapInflate (desc'.len - 1) desc.disconnect)

theorem prepared_preprocessDescriptor (h : preprocessDescriptor top desc = (true, desc')) :
    Prepared top desc desc' := by
  obtain ⟨-, hselected, rfl⟩ := preprocessDescriptor_eq_true_iff.mp h
  have hspec := disconnectHigh_spec top (complete top desc).select
    (mmapInflate ((complete top desc).len - 1) desc.disconnect) desc.disconnect
  exact
    { start := complete_start top desc
      ptr := complete_ptr top desc
      flags := complete_flags top desc
      selected := by simpa using hselected
      lines := hspec.1
      short := hspec.2 }

/-- The second loop prepares one descriptor after the other. -/
theorem forall₂_preprocessDescriptors
    (h : preprocessDescriptors top descs = (true, descs')) :
    List.Forall₂ (fun desc desc' => preprocessDescriptor top desc = (true, desc'))
      descs descs' := by
  induction descs generalizing descs' with
  | nil =>
      cases h
      exact .nil
  | cons desc descs ih =>
      rw [preprocessDescriptors] at h
      split at h
      · cases h
      · next prepared hprepared =>
        generalize hrest : preprocessDescriptors top descs = rest at h
        obtain ⟨ok, rest⟩ := rest
        cases h
        exact .cons hprepared (ih hrest)

/-! ## The highest number -/

/-- **The open lines index into the memory.** Whatever descriptors a core sets, if they can be
prepared, an address below the top without its selected lines is collected to a number below the
smallest power of two that is not below the length of the memory. -/
theorem mmapReduce_le_of_mmapPreprocessDescriptors
    (h : mmapPreprocessDescriptors descs = (true, descs')) (hmem : desc' ∈ descs')
    (hreach : addr ≤ topAddr descs) :
    mmapReduce (addr &&& ~~~desc'.select) desc'.disconnect ≤ mmapAddBitsDown (desc'.len - 1) := by
  have hall := forall₂_preprocessDescriptors h
  obtain ⟨i, hi, hget⟩ := List.getElem_of_mem hmem
  have hi' : i < descs.length := hall.length_eq ▸ hi
  have hprepared : Prepared (topAddr descs) descs[i] desc' :=
    prepared_preprocessDescriptor (hget ▸ hall.get hi' hi)
  have hwithin := (isRun_mmapAddBitsDown _).le_iff.mp hreach
  have hopen : Within ((addr &&& ~~~desc'.select) &&& ~~~desc'.disconnect)
      (openLines (topAddr descs) desc'.select desc'.disconnect) := by
    intro i hbit
    simp only [openLines, BitVec.getLsbD_and, Bool.and_eq_true] at hbit ⊢
    exact ⟨⟨hwithin i hbit.1.1, hbit.1.2⟩, hbit.2⟩
  have hlength : bitLength (mmapReduce (addr &&& ~~~desc'.select) desc'.disconnect) ≤
      bitLength (desc'.len - 1) := by
    rw [← mmapReduce_and_not]
    calc bitLength (mmapReduce ((addr &&& ~~~desc'.select) &&& ~~~desc'.disconnect)
          desc'.disconnect)
        ≤ rank desc'.disconnect
            (bitLength ((addr &&& ~~~desc'.select) &&& ~~~desc'.disconnect)) :=
          bitLength_mmapReduce_le ..
      _ ≤ rank desc'.disconnect
            (bitLength (mmapInflate (desc'.len - 1) descs[i].disconnect)) :=
          rank_mono ((bitLength_le_bitLength hopen).trans hprepared.short)
      _ ≤ rank descs[i].disconnect
            (bitLength (mmapInflate (desc'.len - 1) descs[i].disconnect)) :=
          rank_le_rank hprepared.lines _
      _ ≤ bitLength (desc'.len - 1) := rank_bitLength_mmapInflate_le ..
  apply Within.le
  intro k hbit
  rw [isRun_mmapAddBitsDown, decide_eq_true_eq]
  exact (lt_bitLength_iff.mpr ⟨k, le_rfl, hbit⟩).trans_le hlength

/-! ## Descriptors whose selection is inferred -/

/-- A descriptor with the selection that follows from its length. -/
structure Inferred (top : Size) (desc : Descriptor Pointer) : Prop where
  top_isRun : ∃ p, IsRun top p
  len_ne_zero : desc.len ≠ 0
  len_isRun : ∃ p, IsRun (desc.len - 1) p
  select : desc.select = top &&& ~~~mmapInflate (desc.len - 1) desc.disconnect

theorem inferred_of_preprocessDescriptor (htop : ∃ p, IsRun top p)
    (h : preprocessDescriptor top desc = (true, desc')) (hselect : desc.select = 0) :
    Inferred top desc' ∧ desc'.len = desc.len ∧ desc'.disconnect = desc.disconnect := by
  obtain ⟨hopen, -, rfl⟩ := preprocessDescriptor_eq_true_iff.mp h
  obtain ⟨hlen, hpower⟩ := hopen hselect
  obtain ⟨p, hrun⟩ := exists_isRun_sub_one hlen hpower
  have hcomplete : complete top desc =
      { desc with select := top &&& ~~~mmapInflate (desc.len - 1) desc.disconnect } := by
    rw [complete, inferSelect, if_pos hselect, mmapAddBitsDown_of_isRun hrun, inferLen, if_neg hlen]
  have hshort : Within
      (openLines top (top &&& ~~~mmapInflate (desc.len - 1) desc.disconnect) desc.disconnect)
      (mmapInflate (desc.len - 1) desc.disconnect) := by
    intro i hbit
    have hi := BitVec.lt_of_getLsbD hbit
    by_contra hout
    simp_all [openLines]
  rw [hcomplete, disconnectHigh_of_le (bitLength_le_bitLength hshort)]
  exact ⟨⟨htop, hlen, ⟨p, hrun⟩, rfl⟩, rfl, rfl⟩

/-- The words on the lines that a descriptor neither selects nor disconnects. -/
def Descriptor.words (top : Size) (desc : Descriptor Pointer) : Set Size :=
  {word | Within word (openLines top desc.select desc.disconnect)}

/-- The numbers below its length for which there are enough address lines. -/
def Descriptor.offsets (top : Size) (desc : Descriptor Pointer) : Set Size :=
  {offset | offset < desc.len ∧ Fits offset desc.disconnect ∧
    mmapInflate offset desc.disconnect ≤ top}

section

variable (h : Inferred top desc)

include h

/-- The open lines are those on which the numbers below the length are spread. -/
theorem Inferred.openLines_eq : openLines top desc.select desc.disconnect =
    top &&& mmapInflate (desc.len - 1) desc.disconnect := by
  rw [openLines, h.select]
  apply BitVec.eq_of_getLsbD_eq
  intro i _
  have hconnected := within_mmapInflate_not (desc.len - 1) desc.disconnect i
  simp only [BitVec.getLsbD_and, BitVec.getLsbD_not] at hconnected ⊢
  cases hspread : (mmapInflate (desc.len - 1) desc.disconnect).getLsbD i with
  | false => cases htop : top.getLsbD i <;> simp
  | true => simp_all

theorem Inferred.mem_words_iff {word : Size} : word ∈ desc.words top ↔
    Within word top ∧ Within word (mmapInflate (desc.len - 1) desc.disconnect) := by
  have hbits : word ∈ desc.words top ↔
      Within word (top &&& mmapInflate (desc.len - 1) desc.disconnect) := by
    rw [← h.openLines_eq]
    rfl
  rw [hbits]
  simp only [Within, BitVec.getLsbD_and, Bool.and_eq_true, imp_and, forall_and]

theorem Inferred.lt_len_iff {offset : Size} : offset < desc.len ↔ Within offset (desc.len - 1) := by
  obtain ⟨p, hp⟩ := h.len_isRun
  rw [← hp.le_iff]
  have hne := h.len_ne_zero
  bv_omega

/-- Spreading what a word spells gives the word back. -/
theorem Inferred.mmapInflate_mmapReduce {word : Size} (hword : word ∈ desc.words top) :
    mmapInflate (mmapReduce word desc.disconnect) desc.disconnect = word := by
  rw [MemoryMap.mmapInflate_mmapReduce]
  exact Within.and_eq fun i hbit =>
    within_mmapInflate_not _ _ i ((h.mem_words_iff.mp hword).2 i hbit)

theorem Inferred.mapsTo_mmapReduce :
    Set.MapsTo (mmapReduce · desc.disconnect) (desc.words top) (desc.offsets top) := by
  intro word hword
  have hback := h.mmapInflate_mmapReduce hword
  obtain ⟨hwithin, hspread⟩ := h.mem_words_iff.mp hword
  obtain ⟨p, hp⟩ := h.top_isRun
  refine ⟨h.lt_len_iff.mpr fun k hbit => ?_, fits_iff.mpr fun k hbit => ?_, ?_⟩
  · rw [getLsbD_mmapReduce] at hbit
    have hline := hspread _ hbit
    rw [getLsbD_mmapInflate, rank_place, Bool.and_eq_true] at hline
    exact hline.2
  · rw [getLsbD_mmapReduce] at hbit
    exact BitVec.lt_of_getLsbD hbit
  · rw [hback]
    exact hp.le_iff.mpr hwithin

theorem Inferred.mapsTo_mmapInflate :
    Set.MapsTo (mmapInflate · desc.disconnect) (desc.offsets top) (desc.words top) := by
  intro offset hoffset
  obtain ⟨hlt, -, hle⟩ := hoffset
  obtain ⟨p, hp⟩ := h.top_isRun
  exact h.mem_words_iff.mpr
    ⟨hp.le_iff.mp hle, mmapInflate_within (h.lt_len_iff.mp hlt) desc.disconnect⟩

theorem Inferred.invOn : Set.InvOn (mmapInflate · desc.disconnect) (mmapReduce · desc.disconnect)
    (desc.words top) (desc.offsets top) := by
  constructor
  · intro word hword
    exact h.mmapInflate_mmapReduce hword
  · intro offset hoffset
    exact (mmapReduce_mmapInflate_iff ..).mpr hoffset.2.1

end

/-- **Where the selection is inferred, the open lines spell each offset in one way.** A
descriptor without `select` keeps its length and its lines. `mmap_reduce` then is a bijection
from the words on its open lines to the numbers below its length for which there are enough
address lines, and `mmap_inflate` its inverse. -/
theorem inferred_bijOn (h : mmapPreprocessDescriptors descs = (true, descs')) {i : ℕ}
    (hdesc : descs[i]? = some desc) (hselect : desc.select = 0) :
    ∃ desc', descs'[i]? = some desc' ∧ desc'.len = desc.len ∧
      desc'.disconnect = desc.disconnect ∧
      Set.BijOn (mmapReduce · desc'.disconnect) (desc'.words (topAddr descs))
        (desc'.offsets (topAddr descs)) ∧
      Set.InvOn (mmapInflate · desc'.disconnect) (mmapReduce · desc'.disconnect)
        (desc'.words (topAddr descs)) (desc'.offsets (topAddr descs)) := by
  have hall := forall₂_preprocessDescriptors h
  obtain ⟨hi, hget⟩ := List.getElem?_eq_some_iff.mp hdesc
  have hi' : i < descs'.length := hall.length_eq ▸ hi
  have hprepared : preprocessDescriptor (topAddr descs) desc = (true, descs'[i]) :=
    hget ▸ hall.get hi hi'
  obtain ⟨hinferred, hlen, hdisconnect⟩ :=
    inferred_of_preprocessDescriptor (isRun_topAddr descs) hprepared hselect
  exact ⟨descs'[i], List.getElem?_eq_getElem hi', hlen, hdisconnect,
    hinferred.invOn.bijOn hinferred.mapsTo_mmapReduce hinferred.mapsTo_mmapInflate,
    hinferred.invOn⟩

/-! ## A sample descriptor -/

/-- Four bytes on the even addresses from 16 on. -/
def evenBytes (select : Size) : Descriptor Unit where
  flags := 0
  ptr := none
  start := 16
  select := select
  disconnect := 1
  len := 4

theorem mmapPreprocessDescriptors_evenBytes :
    mmapPreprocessDescriptors [evenBytes 0] = (true, [evenBytes 25]) := by
  have hspread : mmapInflate 3#64 1#64 = 6#64 := by
    simp [mmapInflate]
  have hcomplete : complete 31#64 (evenBytes 0) = evenBytes 25 := by
    simp [complete, inferSelect, inferLen, evenBytes, mmapAddBitsDown, hspread]
  have hlast : disconnectHigh 31#64 25#64 6#64 1#64 = 1#64 := by
    rw [disconnectHigh, if_neg (by decide)]
  have hone : preprocessDescriptor 31#64 (evenBytes 0) = (true, evenBytes 25) := by
    apply preprocessDescriptor_eq_true_iff.mpr
    rw [hcomplete]
    simp [hspread, hlast, evenBytes, within_iff_and_not]
  have htop : topAddr [evenBytes 0] = 31#64 := by decide
  simp only [mmapPreprocessDescriptors, htop, preprocessDescriptors, hone]

theorem mmapReduce_le_of_mmapPreprocessDescriptors_evenBytes :
    mmapReduce (22 &&& ~~~25) 1 ≤ mmapAddBitsDown (4 - 1) := by
  have hreach : (22 : Size) ≤ topAddr [evenBytes 0] := by decide
  have hbound := mmapReduce_le_of_mmapPreprocessDescriptors mmapPreprocessDescriptors_evenBytes
    (List.mem_singleton_self _) hreach
  exact hbound

theorem inferred_bijOn_evenBytes :
    Set.BijOn (mmapReduce · 1) ((evenBytes 25).words (topAddr [evenBytes 0]))
        ((evenBytes 25).offsets (topAddr [evenBytes 0])) ∧
      Set.InvOn (mmapInflate · 1) (mmapReduce · 1) ((evenBytes 25).words (topAddr [evenBytes 0]))
        ((evenBytes 25).offsets (topAddr [evenBytes 0])) := by
  have hdesc : [evenBytes 0][0]? = some (evenBytes 0) := rfl
  obtain ⟨desc, hget, -, -, hbij⟩ := inferred_bijOn mmapPreprocessDescriptors_evenBytes hdesc rfl
  obtain rfl : evenBytes 25 = desc := Option.some.inj hget
  exact hbij

end ManicRoom.MemoryMap
