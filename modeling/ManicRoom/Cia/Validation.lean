/-
# Validation

The importer validates the staged copy before anything is installed. It accepts exactly the
files of the supported format: a header whose layout fits, title metadata and a ticket of
one update title, and contents that lie one after another from the content offset to the
end of the content section, each with the hash that its record gives.
-/

import ManicRoom.Cia.Format
import ManicRoom.Cia.Reading

namespace ManicRoom.Cia

open ManicRoom.Foundation

/-! ## The format of a file -/

section File

variable (file : Bytes)

def headerBytes : Bytes := slice file 0 0x2020

def layout : Sizes := sizes (headerBytes file)

def tmdBytes : Bytes := slice file (layout file).tmdOffset (layout file).tmd

def ticketBytes : Bytes := slice file (layout file).ticketOffset (layout file).tik

/-- Where a content begins: the contents lie one after another. -/
def contentStart : ℕ → ℕ
  | 0 => (layout file).contentOffset
  | i + 1 => contentStart i + contentSize (tmdBytes file) i

/-- A content as it should be. -/
structure ValidContent (hash : StreamingHash) (i : ℕ) : Prop where
  index : contentIndex (tmdBytes file) i = i
  listed : contentListed (headerBytes file) i
  /-- It is not encrypted, not optional and not shared. -/
  flags : ∀ bit ∈ [0, 14, 15], (contentFlags (tmdBytes file) i).testBit bit = false
  id : ∀ j < i, contentId (tmdBytes file) j ≠ contentId (tmdBytes file) i
  size : 0x200 ≤ contentSize (tmdBytes file) i
  hash : hash.digest (slice file (contentStart file i) (contentSize (tmdBytes file) i)) =
    contentHash (tmdBytes file) i

/-- The supported format, of a file of this size. -/
structure Valid (hash : StreamingHash) (size : ℕ) : Prop where
  header : Accepts (headerBytes file) size
  title : ValidTitle (tmdBytes file)
  ticket : ValidTicket (ticketBytes file) (titleId (tmdBytes file))
  contents : ∀ i < contentCount (tmdBytes file), ValidContent file hash i
  /-- The contents fill their section. -/
  filled : contentStart file (contentCount (tmdBytes file)) = (layout file).contentEnd

/-- What the importer goes on with. -/
structure Describes (valid : Validated) : Prop where
  sections : LaidOut (layout file) valid.sections
  title : TitleRead (tmdBytes file) valid.title
  hashes : valid.hashes =
    (List.range (contentCount (tmdBytes file))).map (contentHash (tmdBytes file))

end File

/-! ## The loop over the contents -/

/-- The variables of the loop after so many contents. -/
structure Reached (file : Bytes) (hash : StreamingHash) (k : ℕ) (progress : Progress) : Prop where
  ids : progress.ids.map UInt32.toNat = ((List.range k).map (contentId (tmdBytes file))).reverse
  hashes : progress.hashes = (List.range k).map (contentHash (tmdBytes file))
  offset : progress.offset.toNat = contentStart file k
  /-- There are that many bytes in the content section. -/
  inside : contentStart file k ≤ (layout file).contentEnd
  contents : ∀ i < k, ValidContent file hash i

section Loop

variable {host : Host} {file : Bytes} {size : UInt64} {stopped : Stop → World → Prop} {w : World}

theorem Reached.notMem_ids {hash : StreamingHash} {k : ℕ} {progress : Progress}
    (reached : Reached file hash k progress) :
    contentId (tmdBytes file) k ∉ progress.ids.map UInt32.toNat ↔
      ∀ j < k, contentId (tmdBytes file) j ≠ contentId (tmdBytes file) k := by
  rw [reached.ids]
  simp

/-- A content that is as it should be takes the loop one step further. -/
theorem Reached.succ {hash : StreamingHash} {k : ℕ} {progress next : Progress}
    (reached : Reached file hash k progress) (content : ValidContent file hash k)
    (hids : next.ids.map UInt32.toNat =
      contentId (tmdBytes file) k :: progress.ids.map UInt32.toNat)
    (hhashes : next.hashes = progress.hashes ++ [contentHash (tmdBytes file) k])
    (hoffset : next.offset.toNat = contentStart file (k + 1))
    (hinside : contentStart file (k + 1) ≤ (layout file).contentEnd) :
    Reached file hash (k + 1) next where
  ids := by rw [hids, reached.ids, List.range_succ, List.map_append, List.reverse_append]; rfl
  hashes := by rw [hhashes, reached.hashes, List.range_succ, List.map_append]; rfl
  offset := hoffset
  inside := hinside
  contents i hi := by
    rcases Nat.lt_succ_iff_lt_or_eq.mp hi with hlt | rfl
    · exact reached.contents i hlt
    · exact content

/-- One content. -/
theorem wp_validateContent {title : Title} {ending : UInt64} {progress : Progress} {k : ℕ}
    {done : Progress → World → Prop} (safe : w.memory.Safe)
    (accepts : Accepts (headerBytes file) size.toNat) (valid : ValidTitle (tmdBytes file))
    (fields : TitleRead (tmdBytes file) title)
    (hending : ending.toNat = (layout file).contentEnd)
    (reached : Reached file host.hash k progress) (hk : k < contentCount (tmdBytes file))
    (accepted : ∀ next, Reached file host.hash (k + 1) next → ∀ w : World, w.memory.Safe →
      done next w)
    (rejected : (host.Undisturbed → file.length = size.toNat →
      ¬ (ValidContent file host.hash k ∧ contentStart file (k + 1) ≤ (layout file).contentEnd)) →
      ∀ stop, ∀ w : World, w.memory.Safe → stopped stop w) :
    (validateContent host (some file) size (headerBytes file) (tmdBytes file) title ending
      progress k).wp done stopped w := by
  have hfits := accepts.content
  have hsize := accepts.file.2
  have hcount := valid.count.2
  have hrecords := valid.records
  have hoffset := reached.offset
  have hinside := reached.inside
  have hsum : contentStart file (k + 1) =
      contentStart file k + contentSize (tmdBytes file) k := rfl
  unfold validateContent
  rw [Program.wp_bind, wp_policy]
  apply wp_recordFields safe accepts.length valid fields hk (by omega)
  · intro hrecord bytes hbytes id hid memory safe
    have hleft := hrecord.fits
    have hcontentEnd : (layout file).contentEnd ≤ size.toNat := hfits
    rw [Program.wp_bind]
    apply wp_hash safe (by omega)
    · intro content hcovers w safe
      have hcontent :
          content = slice file (contentStart file k) (contentSize (tmdBytes file) k) := by
        rcases hcovers with ⟨h0, -⟩ | ⟨data, hdata, -, rfl⟩
        · have hmin := hrecord.size
          omega
        · cases hdata
          rw [hoffset, hbytes]
      have hlength : (host.hash.digest content).length = 32 := host.hash.length_final _
      have hstart : recordOffset title k = recordStart (tmdBytes file) k := by
        rw [recordOffset, fields.body]
        rfl
      rw [Program.wp_bind, wp_policy, hstart]
      apply wp_equal (by rw [hlength]; simp only [recordStart]; omega) safe
      intro same hsame memory safe
      rw [hlength] at hsame
      rw [Program.wp_bind, wp_require, hsame]
      refine ⟨fun hhash => ?_, fun hhash => rejected (fun _ _ h => hhash ?_) _ _ safe⟩
      · have content' : ValidContent file host.hash k :=
          ⟨hrecord.index, hrecord.listed, hrecord.flags, reached.notMem_ids.mp hrecord.id,
            hrecord.size, hcontent ▸ hhash⟩
        rw [Program.wp_bind, wp_policy]
        apply wp_add (by omega) safe
        intro offset hoffset' memory safe
        rw [Program.wp_pure]
        refine accepted _ (reached.succ content' ?_ ?_ ?_ ?_) _ safe
        · rw [List.map_cons, hid]
        · rw [hhash]
          rfl
        · rw [hoffset', hoffset, hbytes]
          rfl
        · omega
      · rw [hcontent]
        exact h.1.hash
    · intro stop hstop w safe
      refine rejected (fun undisturbed hlength _ => ?_) stop w safe
      obtain ⟨-, hnone⟩ := hstop undisturbed (by omega)
      exact hnone ⟨_, .inr ⟨file, rfl, by omega, rfl⟩⟩
  · intro hrecord stop memory safe
    refine rejected (fun _ _ h => hrecord ?_) stop _ safe
    obtain ⟨content, hend⟩ := h
    exact ⟨content.index, content.listed, content.flags, reached.notMem_ids.mpr content.id,
      content.size, by omega⟩

/-- The contents of a section that is filled do not go beyond it. -/
theorem contentStart_le (file : Bytes) {i k : ℕ} (h : i ≤ k) :
    contentStart file i ≤ contentStart file k := by
  induction h with
  | refl => exact le_refl _
  | step _ ih => exact ih.trans (Nat.le_add_right _ _)

/-- The first contents, one after another. -/
theorem wp_validateContents {title : Title} {ending : UInt64} {start : Progress} {k : ℕ}
    {done : Progress → World → Prop} (safe : w.memory.Safe)
    (accepts : Accepts (headerBytes file) size.toNat) (valid : ValidTitle (tmdBytes file))
    (fields : TitleRead (tmdBytes file) title)
    (hending : ending.toNat = (layout file).contentEnd)
    (hstart : Reached file host.hash 0 start) (hk : k ≤ contentCount (tmdBytes file))
    (accepted : ∀ progress, Reached file host.hash k progress → ∀ w : World, w.memory.Safe →
      done progress w)
    (rejected : (host.Undisturbed → file.length = size.toNat →
      ¬ Valid file host.hash size.toNat) → ∀ stop, ∀ w : World, w.memory.Safe → stopped stop w) :
    ((List.range k).foldlM (validateContent host (some file) size (headerBytes file)
      (tmdBytes file) title ending) start).wp done stopped w := by
  induction k generalizing done with
  | zero => exact (Program.wp_pure start).mpr (accepted start hstart w safe)
  | succ k ih =>
      rw [List.range_succ, List.foldlM_append, Program.wp_bind]
      apply ih (Nat.le_of_succ_le hk)
      intro progress reached w safe
      rw [List.foldlM_cons, Program.wp_bind]
      apply wp_validateContent safe accepts valid fields hending reached hk
      · intro next hnext w safe
        exact (Program.wp_pure next).mpr (accepted next hnext w safe)
      · intro hinvalid
        refine rejected fun undisturbed hlength whole => hinvalid undisturbed hlength ?_
        exact ⟨whole.contents k hk, (contentStart_le file hk).trans whole.filled.le⟩

/-- The offsets of a layout are in order. -/
theorem Sizes.ordered (z : Sizes) : z.ticketOffset + z.tik ≤ z.tmdOffset ∧
    z.tmdOffset + z.tmd ≤ z.contentOffset ∧ z.contentOffset ≤ z.contentEnd :=
  ⟨(roundUp_isLeast (by decide) _).1.2, (roundUp_isLeast (by decide) _).1.2,
    Nat.le_add_right _ _⟩

/-- The ticket or the metadata, all of which is in the file. -/
theorem wp_readSection {at' : UInt64} {bytes : UInt32} {offset n : ℕ}
    {done : Bytes → World → Prop} (safe : w.memory.Safe) (hat : at'.toNat = offset)
    (hbytes : bytes.toNat = n) (hn : n ≤ 2 ^ 20) (hsize : size.toNat ≤ 2 ^ 33)
    (hinside : offset + n ≤ size.toNat)
    (returned : ∀ w : World, w.memory.Safe → done (slice file offset n) w)
    (unreadable : (host.Undisturbed → file.length ≠ size.toNat) →
      ∀ stop, ∀ w : World, w.memory.Safe → stopped stop w) :
    (read host (some file) at' bytes.toUInt64 size).wp done stopped w := by
  have hwide : bytes.toUInt64.toNat = n := by rw [UInt32.toNat_toUInt64, hbytes]
  apply wp_read_safe safe (by omega) (by omega)
  · intro data ⟨hdata, _⟩ w safe
    cases hdata
    rw [hat, hwide]
    exact returned w safe
  · intro stop hstop w safe
    refine unreadable (fun undisturbed hlength => ?_) stop w safe
    obtain ⟨-, hnone⟩ := hstop undisturbed
    exact hnone ⟨file, rfl, by omega, .inr (by omega)⟩

/-- **What validation does**: it lets through what is of the supported format, whatever else
happens stays within bounds, and undisturbed it rejects nothing else. -/
theorem wp_validate {stream : Stream} {done : Validated → World → Prop} (safe : w.memory.Safe)
    (hsize : 0x2020 ≤ size.toNat)
    (accepted : ∀ file, stream = some file → Valid file host.hash size.toNat →
      ∀ valid, Describes file valid → ∀ w : World, w.memory.Safe → done valid w)
    (rejected : (host.Undisturbed → ∀ file, stream = some file → file.length = size.toNat →
      ¬ Valid file host.hash size.toNat) → ∀ stop, ∀ w : World, w.memory.Safe → stopped stop w) :
    (validate host stream size).wp done stopped w := by
  have hheader : (0x2020 : UInt64).toNat = 0x2020 := rfl
  unfold validate
  rw [Program.wp_bind]
  apply wp_read_safe safe (by decide) (by rw [UInt64.toNat_zero]; omega)
  · intro file ⟨hstream, _, hlong⟩ w safe
    subst hstream
    have rejected (h : host.Undisturbed → file.length = size.toNat →
        ¬ Valid file host.hash size.toNat) :
        ∀ stop, ∀ w : World, w.memory.Safe → stopped stop w :=
      rejected fun undisturbed _ hfile => Option.some.inj hfile ▸ h undisturbed
    have unreadable (h : host.Undisturbed → file.length ≠ size.toNat) :
        ∀ stop, ∀ w : World, w.memory.Safe → stopped stop w :=
      rejected fun undisturbed hlength => absurd hlength (h undisturbed)
    rw [UInt64.toNat_zero, hheader, ← headerBytes, Program.wp_bind, wp_policy]
    apply wp_header safe
    · intro accepts sections laid memory safe
      have laid : LaidOut (layout file) sections := laid
      have range := accepts.range
      have hcontent : (layout file).contentEnd ≤ size.toNat := accepts.content
      obtain ⟨htik, htmd, hend⟩ := (layout file).ordered
      rw [Program.wp_bind]
      apply wp_readSection safe laid.tmd laid.tmdSize range.tmd.2 accepts.file.2 (by omega) _
        unreadable
      intro w safe
      rw [← tmdBytes, Program.wp_bind, wp_policy]
      apply wp_titleFields safe _ fun hinvalid stop memory safe =>
        rejected (fun _ _ whole => hinvalid whole.title) stop _ safe
      intro title fields hfields memory safe
      rw [Program.wp_bind]
      apply wp_readSection safe laid.ticket laid.ticketSize range.tik.2 accepts.file.2 (by omega) _
        unreadable
      intro w safe
      rw [← ticketBytes, Program.wp_bind, wp_policy]
      apply wp_ticketFields safe _ fun hinvalid stop memory safe =>
        rejected (fun _ _ whole => hinvalid (hfields.tid ▸ whole.ticket)) stop _ safe
      intro ticket memory safe
      have hstart : Reached file host.hash 0
          { ids := [], hashes := [], offset := sections.content } :=
        ⟨rfl, rfl, laid.content, hend, nofun⟩
      rw [Program.wp_bind, hfields.count]
      apply wp_validateContents safe accepts title hfields laid.ending hstart (le_refl _) _ rejected
      intro progress reached w safe
      have hfilled : progress.offset = sections.ending ↔
          contentStart file (contentCount (tmdBytes file)) = (layout file).contentEnd := by
        rw [← UInt64.toNat_inj, reached.offset, laid.ending]
      rw [Program.wp_bind, wp_require, hfilled, Program.wp_pure]
      refine ⟨fun filled => ?_, fun hopen =>
        rejected (fun _ _ whole => hopen whole.filled) _ w safe⟩
      exact accepted file rfl ⟨accepts, title, hfields.tid ▸ ticket, reached.contents, filled⟩ _
        ⟨laid, hfields, reached.hashes⟩ w safe
    · intro hrejects status memory safe
      exact rejected (fun _ _ valid => hrejects valid.header) _ _ safe
  · intro stop hstop w safe
    refine rejected (fun undisturbed file hstream hlength valid => ?_) stop w safe
    obtain ⟨-, hnone⟩ := hstop undisturbed
    refine hnone ⟨file, hstream, by decide, .inr ?_⟩
    rw [UInt64.toNat_zero, hheader]
    omega

end Loop

/-! ## The result -/

/-- **Validation accepts exactly the supported format.** With every file and its size, unless
the system fails or a poll cancels it, what `Install` does from `Header` to the end of the
loop over the contents succeeds if and only if the file is of the supported format. -/
theorem validate_returns_iff (host : Host) (undisturbed : host.Undisturbed) (file : Bytes)
    (size : UInt64) (hsize : size.toNat = file.length) (w : World) :
    (validate host (some file) size).Returns { w with memory := [] } ↔
      Valid file host.hash file.length := by
  have safe : Memory.Safe [] := nofun
  apply Program.returns_iff_of_wp
  rw [← hsize]
  by_cases hlong : 0x2020 ≤ size.toNat
  · apply wp_validate safe hlong
    · intro _ hfile valid _ _ _ _
      exact Option.some.inj hfile ▸ valid
    · intro hinvalid _ _ _
      exact hinvalid undisturbed file rfl hsize.symm
  · rw [validate, Program.wp_bind]
    apply wp_read
    · intro data ⟨hdata, _, hreadable⟩
      cases hdata
      have hheader : (0x2020 : UInt64).toNat = 0x2020 := rfl
      rcases hreadable with hzero | hreadable
      · exact absurd hzero (by decide)
      · rw [UInt64.toNat_zero, hheader] at hreadable
        omega
    · intro _ _ _ valid
      exact hlong valid.header.file.1

/-- A CIA file with one content. -/
def sampleFile : Bytes :=
  let zeros (n : ℕ) : Bytes := List.replicate n 0
  let titleId : Bytes := [0, 4, 0, 0x0e, 0, 0, 0, 1]
  let signature : Bytes := [0, 1, 0, 5] ++ zeros 0x3c
  let header : Bytes := [0x20, 0x20] ++ zeros 10 ++ [0xb8, 1, 0, 0, 0x34, 0x0a] ++ zeros 7 ++ [2] ++
    zeros 6 ++ [0x80] ++ zeros 0x201f
  let ticket : Bytes := signature ++ zeros 0x9c ++ titleId ++ zeros 0xc7 ++ [0x14] ++ zeros 20
  let metadata : Bytes := signature ++ zeros 0x4c ++ titleId ++ zeros 0x4b ++ [1] ++ zeros 0x932 ++
    [2] ++ zeros 45
  header ++ ticket ++ metadata ++ zeros 0x200

/-- A host whose user is asked at every poll and never cancels. -/
def patientHost : Host := { (default : Host) with cancel := some fun _ => false }

theorem patientHost_undisturbed : patientHost.Undisturbed where
  fault _ := rfl
  cancel answers h poll := by
    cases h
    rfl

theorem length_sampleFile : sampleFile.length = 0x2e40 := by
  simp only [sampleFile, List.length_append, List.length_replicate, List.length_cons,
    List.length_nil]

set_option maxRecDepth 100000 in
theorem sampleFile_contents :
    contentCount (tmdBytes sampleFile) = 1 ∧ contentSize (tmdBytes sampleFile) 0 = 0x200 := by
  decide +kernel

set_option maxRecDepth 100000 in
/-- The file is gone through to the end. -/
theorem outcome_validate_sampleFile :
    ((validate patientHost (some sampleFile) 0x2e40).outcome default).1.toBool = true := by
  decide +kernel

/-- The file with its one content is of the supported format. -/
theorem validate_returns_sampleFile :
    contentCount (tmdBytes sampleFile) = 1 ∧
      Valid sampleFile patientHost.hash sampleFile.length := by
  have hreturns := (Program.returns_iff_toBool _ _).mpr outcome_validate_sampleFile
  exact ⟨sampleFile_contents.1, (validate_returns_iff patientHost patientHost_undisturbed sampleFile
    0x2e40 length_sampleFile.symm default).mp hreturns⟩

end ManicRoom.Cia
