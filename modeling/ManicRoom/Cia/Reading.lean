/-
# Reading a file in blocks

`Hash` goes over a range of a file block by block. Its blocks make up the range, so that it
returns the hash of exactly these bytes, and it fails where they are not all in the file.
Every block lies within the range, none of its sums wraps and none of its buffers is larger
than a block.
-/

import ManicRoom.Cia.Layout
import ManicRoom.Cia.Rules
import ManicRoom.Foundation.Blocks

namespace ManicRoom.Cia

open ManicRoom.Foundation ManicRoom.Storage

/-- Nothing goes wrong outside the importer, and it is not cancelled. -/
structure Host.Undisturbed (host : Host) : Prop where
  fault : ∀ moment, host.fault moment = none
  cancel : ∀ answers, host.cancel = some answers → ∀ poll, answers poll = false

/-- The bytes of a range of a stream; of an empty range there are none. -/
def Covers (stream : Stream) (offset size : ℕ) (bytes : Bytes) : Prop :=
  size = 0 ∧ bytes = [] ∨
    ∃ data, stream = some data ∧ offset + size ≤ data.length ∧ bytes = slice data offset size

theorem slice_append_slice (data : Bytes) (p m n : ℕ) :
    slice data p m ++ slice data (p + m) n = slice data p (m + n) := by
  simp only [slice]
  rw [List.take_add, List.drop_drop]

theorem slice_whole (data : Bytes) : slice data 0 data.length = data := List.take_length

theorem slice_zero (data : Bytes) (p : ℕ) : slice data p 0 = [] := rfl

/-- A block and what comes after it. -/
theorem Covers.append {stream : Stream} {offset m n : ℕ} {data bytes : Bytes}
    (hstream : stream = some data) (hblock : offset + m ≤ data.length)
    (h : Covers stream (offset + m) n bytes) :
    Covers stream offset (m + n) (slice data offset m ++ bytes) := by
  right
  rcases h with ⟨rfl, rfl⟩ | ⟨data', hstream', hrest, rfl⟩
  · exact ⟨data, hstream, by omega, by simp⟩
  · cases hstream.symm.trans hstream'
    exact ⟨data, hstream, by omega, slice_append_slice data offset m n⟩

theorem toNat_blockSize (size : UInt64) : (blockSize size).toNat = min 65536 size.toNat := by
  unfold blockSize
  rw [UInt64.min_def]
  split
  · next h => exact (Nat.min_eq_right (UInt64.le_iff_toNat_le.mp h)).symm
  · next h =>
    rw [UInt64.le_iff_toNat_le] at h
    exact (Nat.min_eq_left (Nat.le_of_not_le h)).symm

theorem blockSize_le_64KiB (size : UInt64) : (blockSize size).toNat ≤ 2 ^ 16 := by
  rw [toNat_blockSize]
  exact Nat.min_le_left ..

/-- The first of the blocks that are left has the size that the importer takes. -/
theorem blocks_blockSize {size : UInt64} (hsize : size ≠ 0) (start : ℕ) :
    blocks 65536 start size.toNat = ⟨start, (blockSize size).toNat⟩ ::
      blocks 65536 (start + (blockSize size).toNat) (size.toNat - (blockSize size).toNat) := by
  have hpos := blockSize_pos hsize
  have hle := blockSize_le size
  rw [blocks_cons (by decide) (by omega), toNat_blockSize]

section Reads

variable {host : Host} {stopped : Stop → World → Prop} {w : World}

/-- A read that lies within what is known of the file, of at most 1 MiB. -/
theorem wp_read_safe {stream : Stream} {offset size limit : UInt64} {done : Bytes → World → Prop}
    (safe : w.memory.Safe) (hsize : size.toNat ≤ 2 ^ 20)
    (hinside : offset.toNat + size.toNat ≤ limit.toNat)
    (hreturned : ∀ data, Readable stream offset size data → ∀ w : World, w.memory.Safe →
      done (slice data offset.toNat size.toNat) w)
    (hstopped : ∀ stop, (host.Undisturbed →
      stop = .failure .invalidFile ∧ ¬ ∃ data, Readable stream offset size data) →
      ∀ w : World, w.memory.Safe → stopped stop w) :
    (read host stream offset size limit).wp done stopped w := by
  have hsafe : (afterRead host offset size limit w).memory.Safe := by
    rw [afterRead, pass_memory]
    have hallocate : MemoryEvent.Safe (.allocate size.toNat) := hsize
    exact (safe.note hallocate).note hinside
  apply wp_read
  · intro data hreadable
    exact hreturned data hreadable _ hsafe
  · intro stop _ hstop
    exact hstopped stop (fun undisturbed => hstop (undisturbed.fault w.clock)) _ hsafe

/-- An attempt fails only where the host is disturbed. -/
theorem wp_attempt_undisturbed {failure : Stop} {done : Unit → World → Prop}
    (hreturned : done () (pass host w))
    (hstopped : ∀ stop, ¬ host.Undisturbed → stopped stop (pass host w)) :
    (attempt host failure).wp done stopped w := by
  simp only [attempt, Program.wp_bind, Program.wp_get, Program.wp_modify]
  cases hfault : host.fault w.clock with
  | none => exact (Program.wp_pure ()).mpr hreturned
  | some fault =>
      have disturbed : ¬ host.Undisturbed := fun undisturbed =>
        absurd (hfault.symm.trans (undisturbed.fault w.clock)) (by simp)
      cases fault with
      | fails => exact (Program.wp_throw failure).mpr (hstopped _ disturbed)
      | throws => exact (Program.wp_throw Stop.exception).mpr (hstopped _ disturbed)

/-- A poll, if the log of the memory is all that matters. -/
theorem wp_check_safe {done : Unit → World → Prop} (safe : w.memory.Safe)
    (hreturned : ∀ w : World, w.memory.Safe → done () w)
    (hstopped : ¬ host.Undisturbed → ∀ w : World, w.memory.Safe →
      stopped (.failure .cancelled) w) :
    (check host).wp done stopped w := by
  apply wp_check
  · exact fun _ => hreturned w safe
  · exact fun _ _ => hreturned _ safe
  · intro answers hcancel hanswer
    refine hstopped (fun undisturbed => ?_) _ safe
    exact nomatch (undisturbed.cancel answers hcancel _).symm.trans hanswer

/-- The size is more than the file has. -/
theorem not_covers_of_not_readable {stream : Stream} {offset n size : UInt64}
    (hpos : 0 < n.toNat) (hinside : offset.toNat + n.toNat ≤ size.toNat)
    (hsize : size.toNat ≤ 2 ^ 63) (hnone : ¬ ∃ data, Readable stream offset n data) :
    ¬ ∃ bytes, Covers stream 0 size.toNat bytes := by
  rintro ⟨bytes, ⟨h0, -⟩ | ⟨data, hstream, hrange, -⟩⟩
  · omega
  · exact hnone ⟨data, hstream, by omega, .inr (by omega)⟩

/-- What a loop over blocks preserves, with the blocks that are left. -/
structure Ongoing (host : Host) (limit : UInt64) (holds : List Span → World → Prop) : Prop where
  poll : ∀ {answer left w}, holds left w → holds left { w with events := .poll answer :: w.events }
  note : ∀ {event left w}, event.Safe → holds left w →
    holds left { w with memory := event :: w.memory }
  read : ∀ {offset size : UInt64} {left w}, holds (⟨offset.toNat, size.toNat⟩ :: left) w →
    holds (⟨offset.toNat, size.toNat⟩ :: left) (afterRead host offset size limit w)

section Blocks

variable {holds : List Span → World → Prop} {limit : UInt64} (ongoing : Ongoing host limit holds)
  {left : List Span}

include ongoing

theorem wp_check_ongoing {done : Unit → World → Prop} (h : holds left w)
    (hreturned : ∀ w, holds left w → done () w)
    (hstopped : ¬ host.Undisturbed → ∀ w, holds left w → stopped (.failure .cancelled) w) :
    (check host).wp done stopped w := by
  apply wp_check
  · exact fun _ => hreturned w h
  · exact fun _ _ => hreturned _ (ongoing.poll h)
  · intro answers hcancel hanswer
    refine hstopped (fun undisturbed => ?_) _ (ongoing.poll h)
    exact nomatch (undisturbed.cancel answers hcancel _).symm.trans hanswer

/-- A block is read and recorded. -/
theorem wp_block {α : Type} {stream : Stream} {use : BlockUse} {offset size : UInt64}
    {rest : Bytes → Import α} {done : α → World → Prop}
    (h : holds (⟨offset.toNat, size.toNat⟩ :: left) w)
    (hreturned : ∀ data, Readable stream offset size data → ∀ w,
      holds (⟨offset.toNat, size.toNat⟩ :: left) w →
        (rest (slice data offset.toNat size.toNat)).wp done stopped { w with
          events := .block use offset.toNat (slice data offset.toNat size.toNat) :: w.events })
    (hstopped : ∀ stop, (host.Undisturbed →
      stop = .failure .invalidFile ∧ ¬ ∃ data, Readable stream offset size data) →
      ∀ w, holds (⟨offset.toNat, size.toNat⟩ :: left) w → stopped stop w) :
    (do
      let b ← read host stream offset size limit
      record (.block use offset.toNat b)
      rest b : Import α).wp done stopped w := by
  rw [Program.wp_bind]
  apply wp_read
  · intro data hreadable
    simp only [record, Program.wp_bind, Program.wp_modify]
    exact hreturned data hreadable _ (ongoing.read h)
  · intro stop _ hstop
    exact hstopped stop (fun undisturbed => hstop (undisturbed.fault w.clock)) _ (ongoing.read h)

/-- **Hashing in blocks.** The loop of `Hash` feeds the bytes of its range. -/
theorem wp_hashBlocks {stream : Stream} {use : BlockUse} {offset size : UInt64}
    {state : host.hash.State} {done : host.hash.State → World → Prop}
    (hrange : offset.toNat + size.toNat < 2 ^ 64)
    (hblock : ∀ {span left w} data, stream = some data → holds (span :: left) w →
      holds left { w with events := .block use span.start (span.of data) :: w.events })
    (h : holds (blocks 65536 offset.toNat size.toNat) w)
    (hreturned : ∀ bytes, Covers stream offset.toNat size.toNat bytes → ∀ w, holds [] w →
      done (host.hash.update state bytes) w)
    (hstopped : ∀ stop, (host.Undisturbed → offset.toNat + size.toNat ≤ 2 ^ 63 →
      stop = .failure .invalidFile ∧ ¬ ∃ bytes, Covers stream offset.toNat size.toNat bytes) →
      ∀ left w, holds left w → stopped stop w) :
    (hashBlocks host stream use limit offset size state).wp done stopped w := by
  induction offset, size, state using hashBlocks.induct host generalizing w with
  | case1 offset size state hsize ih =>
      have hpos := blockSize_pos hsize
      have hle := blockSize_le size
      have hnext : (offset + blockSize size).toNat = offset.toNat + (blockSize size).toNat := by
        rw [UInt64.toNat_add]
        exact Nat.mod_eq_of_lt (by omega)
      have hleft := toNat_sub_blockSize size
      have hsplit : (blockSize size).toNat + (size - blockSize size).toNat = size.toNat := by omega
      rw [blocks_blockSize hsize] at h
      rw [hashBlocks, if_pos hsize, Program.wp_bind]
      apply wp_check_ongoing ongoing h
      · intro w h
        apply wp_block ongoing h
        · intro data ⟨hstream, _, hdata⟩ w h
          have hdata : offset.toNat + (blockSize size).toNat ≤ data.length :=
            hdata.resolve_left fun h0 => by simp [h0] at hpos
          simp only [note, Program.wp_bind, wp_policy, Program.wp_modify]
          apply ih
          · omega
          · rw [hnext, hleft]
            have hsum : (MemoryEvent.sum (offset.toNat + (blockSize size).toNat)).Safe := by
              simp only [MemoryEvent.Safe]
              omega
            have hdifference :
                (MemoryEvent.difference size.toNat (blockSize size).toNat).Safe := hle
            exact ongoing.note hdifference (ongoing.note hsum (hblock data hstream h))
          · intro bytes hcovers w h
            rw [hnext] at hcovers
            rw [host.hash.update_append]
            exact hreturned _ (hsplit ▸ hcovers.append hstream hdata) w h
          · intro stop hstop left w h
            refine hstopped stop (fun undisturbed hrange => ?_) left w h
            obtain ⟨hinvalid, hnone⟩ := hstop undisturbed (by omega)
            refine ⟨hinvalid, ?_⟩
            rintro ⟨bytes, ⟨h0, -⟩ | ⟨data', hstream', hrange, -⟩⟩
            · omega
            · refine hnone ⟨_, .inr ⟨data', hstream', ?_, rfl⟩⟩
              omega
        · intro stop hstop w h
          refine hstopped stop (fun undisturbed hrange => ?_) _ w h
          obtain ⟨hinvalid, hnone⟩ := hstop undisturbed
          refine ⟨hinvalid, ?_⟩
          rintro ⟨bytes, ⟨h0, -⟩ | ⟨data, hstream, hrange, -⟩⟩
          · omega
          · exact hnone ⟨data, hstream, by omega, .inr (by omega)⟩
      · intro hdisturbed w h
        exact hstopped _ (fun undisturbed => absurd undisturbed hdisturbed) _ w h
  | case2 offset size state hsize =>
      have hzero : size = 0 := not_not.mp hsize
      rw [hzero, UInt64.toNat_zero, blocks_zero (by decide)] at h
      rw [hashBlocks, if_neg hsize, Program.wp_pure]
      have hdone := hreturned [] (.inl ⟨by rw [hzero]; rfl, rfl⟩) w h
      rwa [host.hash.update_nil] at hdone

/-- **Taking a file in blocks.** Every block of it is handed to the body, one after another, and
where the loop returns they were all there. -/
theorem wp_forBlocks {stream : Stream} {use : BlockUse} {offset : UInt64}
    {body : UInt64 → Bytes → Import Unit}
    (hbody : ∀ {offset n : UInt64} {left w} data, Readable stream offset n data →
      holds (⟨offset.toNat, n.toNat⟩ :: left) w →
        (body offset (slice data offset.toNat n.toNat)).wp (fun _ t => holds left t) stopped
          { w with
            events := .block use offset.toNat (slice data offset.toNat n.toNat) :: w.events })
    (hstopped : ∀ stop, (host.Undisturbed → limit.toNat ≤ 2 ^ 63 →
      stop = .failure .invalidFile ∧ ¬ ∃ bytes, Covers stream 0 limit.toNat bytes) →
      ∀ left w, holds left w → stopped stop w)
    (h : holds (blocks 65536 offset.toNat (limit.toNat - offset.toNat)) w) :
    (forBlocks host stream use limit body offset).wp
      (fun _ t => holds [] t ∧
        ∃ bytes, Covers stream offset.toNat (limit.toNat - offset.toNat) bytes) stopped w := by
  induction offset using forBlocks.induct limit generalizing w with
  | case1 offset hlt ih =>
      have hoffset : offset.toNat < limit.toNat := UInt64.lt_iff_toNat_lt.mp hlt
      have hsub := UInt64.toNat_sub_of_le limit offset (Nat.le_of_lt hlt)
      have hne : limit - offset ≠ 0 := fun h0 => by
        rw [h0, UInt64.toNat_zero] at hsub
        omega
      have hpos := blockSize_pos hne
      have hle := blockSize_le (limit - offset)
      have hnext := toNat_add_blockSize hlt
      have hlimit := limit.toNat_lt
      rw [← hsub, blocks_blockSize hne, ← hnext] at h
      rw [forBlocks, if_pos hlt, Program.wp_bind]
      apply wp_check_ongoing ongoing h
      · intro w h
        have hdifference : (MemoryEvent.difference limit.toNat offset.toNat).Safe := hoffset.le
        rw [Program.wp_bind, wp_policy, note, Program.wp_modify]
        apply wp_block ongoing (ongoing.note hdifference h)
        · intro data hreadable w h
          rw [Program.wp_bind]
          apply Program.wp_mono (hbody data hreadable h) _ fun _ _ h => h
          intro _ t ht
          have hsum :
              (MemoryEvent.sum (offset.toNat + (blockSize (limit - offset)).toNat)).Safe := by
            simp only [MemoryEvent.Safe]
            omega
          have hrest : limit.toNat - (offset + blockSize (limit - offset)).toNat =
              (limit - offset).toNat - (blockSize (limit - offset)).toNat := by omega
          have hsplit : (blockSize (limit - offset)).toNat +
              (limit.toNat - (offset + blockSize (limit - offset)).toNat) =
                limit.toNat - offset.toNat := by omega
          simp only [note, Program.wp_bind, wp_policy, Program.wp_modify]
          apply Program.wp_mono (ih _) _ fun _ _ h => h
          · rw [hrest]
            exact ongoing.note hsum ht
          · rintro _ u ⟨hu, bytes, hcovers⟩
            obtain ⟨hstream, -, hdata⟩ := hreadable
            have hdata := hdata.resolve_left fun h0 => by simp [h0] at hpos
            rw [hnext] at hcovers hsplit
            exact ⟨hu, _, hsplit ▸ hcovers.append hstream hdata⟩
        · intro stop hstop w h
          refine hstopped stop (fun undisturbed hsize => ?_) _ w h
          obtain ⟨hinvalid, hnone⟩ := hstop undisturbed
          exact ⟨hinvalid, not_covers_of_not_readable hpos (by omega) hsize hnone⟩
      · intro hdisturbed w h
        exact hstopped _ (fun undisturbed => absurd undisturbed hdisturbed) _ w h
  | case2 offset hlt =>
      have hzero : limit.toNat - offset.toNat = 0 := by
        rw [UInt64.lt_iff_toNat_lt] at hlt
        omega
      rw [hzero, blocks_zero (by decide)] at h
      rw [forBlocks, if_neg hlt, Program.wp_pure]
      exact ⟨h, [], .inl ⟨hzero, rfl⟩⟩

end Blocks

/-- Blocks that are within the limit are read within the bounds. -/
theorem safe_ongoing (host : Host) (limit : UInt64) : Ongoing host limit fun left w =>
    w.memory.Safe ∧ ∀ s ∈ left, s.length ≤ 65536 ∧ s.stop ≤ limit.toNat where
  poll h := h
  note hevent h := ⟨h.1.note hevent, h.2⟩
  read := by
    intro offset size left w ⟨safe, hleft⟩
    obtain ⟨hlength, hstop⟩ := hleft _ (List.mem_cons_self ..)
    have hallocate : MemoryEvent.Safe (.allocate size.toNat) :=
      hlength.trans (show 65536 ≤ 2 ^ 20 by decide)
    refine ⟨?_, hleft⟩
    rw [afterRead, pass_memory]
    exact (safe.note hallocate).note hstop

theorem safe_blocks {limit : UInt64} {start length : ℕ} (hinside : start + length ≤ limit.toNat) :
    ∀ s ∈ blocks 65536 start length, s.length ≤ 65536 ∧ s.stop ≤ limit.toNat := by
  intro s hs
  obtain ⟨-, hlength, -, hstop, -⟩ := bounds_of_mem_blocks (by decide) hs
  exact ⟨hlength, hstop.trans hinside⟩

/-- **`Hash`** returns the hash of the bytes of its range. -/
theorem wp_hash {stream : Stream} {use : BlockUse} {limit offset size : UInt64}
    {done : Bytes → World → Prop} (safe : w.memory.Safe)
    (hinside : offset.toNat + size.toNat ≤ limit.toNat)
    (hreturned : ∀ bytes, Covers stream offset.toNat size.toNat bytes → ∀ w : World,
      w.memory.Safe → done (host.hash.digest bytes) w)
    (hstopped : ∀ stop, (host.Undisturbed → limit.toNat ≤ 2 ^ 63 →
      stop = .failure .invalidFile ∧ ¬ ∃ bytes, Covers stream offset.toNat size.toNat bytes) →
      ∀ w : World, w.memory.Safe → stopped stop w) :
    (hash host stream use limit offset size).wp done stopped w := by
  have hlimit := limit.toNat_lt
  rw [hash, Program.wp_map]
  apply wp_hashBlocks (safe_ongoing host limit) (by omega)
  · exact fun _ _ h => ⟨h.1, fun s hs => h.2 s (List.mem_cons_of_mem _ hs)⟩
  · exact ⟨safe, safe_blocks hinside⟩
  · exact fun bytes hcovers w h => hreturned bytes hcovers w h.1
  · intro stop hstop left w h
    exact hstopped stop (fun undisturbed hlimit => hstop undisturbed (hinside.trans hlimit)) w h.1

end Reads

end ManicRoom.Cia
