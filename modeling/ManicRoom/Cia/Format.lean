/-
# The supported format

What a CIA must look like to be imported, in terms of the numbers in its header, its title
metadata and its ticket, and what the tests of the importer on these bytes amount to. Every
test stays within the bytes it looks at.
-/

import Mathlib.Data.Nat.Bitwise
import ManicRoom.Cia.Layout
import ManicRoom.Cia.Rules

namespace ManicRoom.Cia

open ManicRoom.Foundation

/-! ## Signed data -/

/-- The signature type. -/
def signature (data : Bytes) : ℕ := number data 0 4 true

/-- How long a signature of this type is with its padding, if there is such a type. -/
def bodyOffset (signature : ℕ) : Option ℕ :=
  if signature = 0x10000 ∨ signature = 0x10003 then some 0x240
  else if signature = 0x10001 ∨ signature = 0x10004 then some 0x140
  else if signature = 0x10002 ∨ signature = 0x10005 then some 0x40
  else none

/-- Where the body of signed data begins. -/
def bodyStart (data : Bytes) : ℕ := (bodyOffset (signature data)).getD 0

/-- The signature is of a known type, and the body has at least this length. -/
structure Signed (data : Bytes) (least : ℕ) : Prop where
  signature : 4 ≤ data.length
  known : (bodyOffset (Cia.signature data)).isSome
  length : bodyStart data + least ≤ data.length

theorem bodyStart_le (data : Bytes) : bodyStart data ≤ 0x240 := by
  simp only [bodyStart, bodyOffset]
  split
  · decide
  · split
    · decide
    · split <;> decide

/-! ## Title metadata and ticket -/

def contentCount (tmd : Bytes) : ℕ := number tmd (bodyStart tmd + 0x9e) 2 true

def titleId (tmd : Bytes) : ℕ := number tmd (bodyStart tmd + 0x4c) 8 true

structure ValidTitle (tmd : Bytes) : Prop where
  signed : Signed tmd 0x9c4
  count : 1 ≤ contentCount tmd ∧ contentCount tmd ≤ 256
  /-- The content records fit. -/
  records : bodyStart tmd + 0x9c4 + contentCount tmd * 0x30 ≤ tmd.length
  /-- It is an update. -/
  category : titleId tmd / 2 ^ 32 = 0x0004000e

/-- The fields that the importer goes on with. -/
structure TitleRead (tmd : Bytes) (title : Title) : Prop where
  body : title.body.toNat = bodyStart tmd
  count : title.count.toNat = contentCount tmd
  tid : title.tid.toNat = titleId tmd

def ticketTitleId (ticket : Bytes) : ℕ := number ticket (bodyStart ticket + 0x9c) 8 true

def indexSize (ticket : Bytes) : ℕ := number ticket (bodyStart ticket + 0x164 + 4) 4 true

structure ValidTicket (ticket : Bytes) (tid : ℕ) : Prop where
  signed : Signed ticket (0x164 + 8)
  title : ticketTitleId ticket = tid
  /-- The content index has a header, and it fits. -/
  index : 0x14 ≤ indexSize ticket
  indexFits : bodyStart ticket + 0x164 + indexSize ticket ≤ ticket.length

/-! ## Content records -/

def recordStart (tmd : Bytes) (i : ℕ) : ℕ := bodyStart tmd + 0x9c4 + i * 0x30

def contentId (tmd : Bytes) (i : ℕ) : ℕ := number tmd (recordStart tmd i) 4 true

def contentIndex (tmd : Bytes) (i : ℕ) : ℕ := number tmd (recordStart tmd i + 4) 2 true

def contentFlags (tmd : Bytes) (i : ℕ) : ℕ := number tmd (recordStart tmd i + 6) 2 true

def contentSize (tmd : Bytes) (i : ℕ) : ℕ := number tmd (recordStart tmd i + 8) 8 true

def contentHash (tmd : Bytes) (i : ℕ) : Bytes := slice tmd (recordStart tmd i + 16) 32

/-- The bit for the content in the bitmap of the header. -/
def contentListed (header : Bytes) (i : ℕ) : Prop :=
  (header.getD (0x20 + i / 8) 0).toNat.testBit (7 - i % 8) = true

/-- What is tested of a record before the content is hashed, with the ids so far and the
bytes that are left. -/
structure ValidRecord (header tmd : Bytes) (i : ℕ) (ids : List ℕ) (left : ℕ) : Prop where
  index : contentIndex tmd i = i
  listed : contentListed header i
  /-- It is not encrypted, not optional and not shared. -/
  flags : ∀ bit ∈ [0, 14, 15], (contentFlags tmd i).testBit bit = false
  id : contentId tmd i ∉ ids
  size : 0x200 ≤ contentSize tmd i
  fits : contentSize tmd i ≤ left

/-! ## The tests -/

section Tests

variable {stopped : Stop → Memory → Prop} {memory : Memory}

theorem toNat_beq {v c : UInt64} {k : ℕ} (hv : v.toNat = k) : v = c ↔ k = c.toNat := by
  rw [← UInt64.toNat_inj, hv]

theorem wp_signedBody {data : Bytes} {done : UInt64 → Memory → Prop} (safe : memory.Safe)
    (accepted : 4 ≤ data.length → (bodyOffset (signature data)).isSome →
      ∀ body : UInt64, body.toNat = bodyStart data → ∀ memory : Memory, memory.Safe →
        done body memory)
    (rejected : ¬ (4 ≤ data.length ∧ (bodyOffset (signature data)).isSome) →
      ∀ stop, ∀ memory : Memory, memory.Safe → stopped stop memory) :
    (signedBody data).wp done stopped memory := by
  unfold signedBody
  rw [Program.wp_bind, wp_require]
  refine ⟨fun hlength => ?_, fun hlength => rejected (fun h => hlength h.1) _ memory safe⟩
  rw [Program.wp_bind]
  apply wp_integer (by decide) (by omega) safe
  intro v hv memory safe
  have hv : v.toNat = signature data := hv
  have hequal (c : UInt64) : v = c ↔ signature data = c.toNat := toNat_beq hv
  have haccepted (body : UInt64) (hbody : bodyOffset (signature data) = some body.toNat) :
      done body memory := by
    refine accepted hlength (by simp [hbody]) body ?_ memory safe
    rw [bodyStart, hbody, Option.getD_some]
  simp only [Program.wp_ite, Program.wp_pure, Program.wp_throw, hequal, UInt64.reduceToNat]
  refine ⟨fun h => haccepted _ (by simp [bodyOffset, h]), fun h4096 => ?_⟩
  refine ⟨fun h => haccepted _ (by simp [bodyOffset, h4096, h]), fun h2048 => ?_⟩
  refine ⟨fun h => haccepted _ (by simp [bodyOffset, h4096, h2048, h]), fun hecc => ?_⟩
  refine rejected (fun h => ?_) _ memory safe
  simp [bodyOffset, h4096, h2048, hecc] at h

/-- A product that does not wrap. -/
theorem wp_multiply {left right : UInt64} {done : UInt64 → Memory → Prop}
    (hproduct : left.toNat * right.toNat < 2 ^ 64) (safe : memory.Safe)
    (h : ∀ v : UInt64, v.toNat = left.toNat * right.toNat → ∀ memory : Memory, memory.Safe →
      done v memory) :
    (multiply left right).wp done stopped memory := by
  simp only [multiply, Cia.note, Program.wp_bind, Program.wp_modify, Program.wp_pure]
  refine h _ ?_ _ (safe.note hproduct)
  rw [UInt64.toNat_mul]
  exact Nat.mod_eq_of_lt hproduct

/-- A difference that does not wrap. -/
theorem wp_subtract {left right : UInt64} {done : UInt64 → Memory → Prop}
    (hle : right.toNat ≤ left.toNat) (safe : memory.Safe)
    (h : ∀ v : UInt64, v.toNat = left.toNat - right.toNat → ∀ memory : Memory, memory.Safe →
      done v memory) :
    (subtract left right).wp done stopped memory := by
  simp only [subtract, Cia.note, Program.wp_bind, Program.wp_modify, Program.wp_pure]
  exact h _ (UInt64.toNat_sub_of_le _ _ (UInt64.le_iff_toNat_le.mpr hle)) _ (safe.note hle)

/-- Two tests of which the second is only made where the first succeeds. -/
theorem wp_both {first : Prop} [Decidable first] {second : Program Stop Memory Bool}
    (ok : Prop) {done : Bool → Memory → Prop} (safe : memory.Safe) (hfirst : ok → first)
    (hsecond : first → second.wp (fun b memory => (b = true ↔ ok) ∧ memory.Safe)
      (fun _ _ => False) memory)
    (next : ∀ b, (b = true ↔ ok) → ∀ memory : Memory, memory.Safe → done b memory) :
    Program.wp (pure (decide first) <&&> second) done stopped memory := by
  rw [Program.wp_andM, Program.wp_pure]
  by_cases h : first
  · rw [decide_eq_true h, if_pos rfl]
    exact Program.wp_mono (hsecond h) (fun b memory ⟨hb, safe⟩ => next b hb memory safe)
      fun _ _ => False.elim
  · rw [decide_eq_false h, if_neg (by decide)]
    exact next false (by simp [mt hfirst h]) memory safe

/-- What is tested of the metadata before the contents. -/
theorem wp_titleFields {tmd : Bytes} {done : Title → Memory → Prop} (safe : memory.Safe)
    (accepted : ValidTitle tmd → ∀ title, TitleRead tmd title → ∀ memory : Memory,
      memory.Safe → done title memory)
    (rejected : ¬ ValidTitle tmd → ∀ stop, ∀ memory : Memory, memory.Safe → stopped stop memory) :
    (titleFields tmd).wp done stopped memory := by
  unfold titleFields
  rw [Program.wp_bind]
  apply wp_signedBody safe
  · intro hlength hknown body hbody memory safe
    have hle := bodyStart_le tmd
    have hleast : (0x9c4 : UInt64).toNat = 0x9c4 := rfl
    have hrecord : (0x30 : UInt64).toNat = 0x30 := rfl
    rw [Program.wp_bind]
    apply wp_add (by omega) safe
    intro least hleastEq memory safe
    rw [Program.wp_bind, wp_require]
    refine ⟨fun hleastLe => ?_, fun hshort => rejected (fun valid => hshort ?_) _ memory safe⟩
    · have signed : Signed tmd 0x9c4 := ⟨hlength, hknown, by omega⟩
      rw [Program.wp_bind]
      apply wp_integer (by decide) (by omega) safe
      intro count hcount memory safe
      have hcount : count.toNat = contentCount tmd := by rw [hcount, hbody]; rfl
      rw [Program.wp_bind]
      apply wp_both ((1 ≤ contentCount tmd ∧ contentCount tmd ≤ 256) ∧
        bodyStart tmd + 0x9c4 + contentCount tmd * 0x30 ≤ tmd.length) safe
      · intro ⟨⟨hpos, hmax⟩, _⟩
        rw [UInt64.lt_iff_toNat_lt, UInt64.le_iff_toNat_le, hcount]
        exact ⟨hpos, hmax⟩
      · intro ⟨hpos, hmax⟩
        rw [UInt64.lt_iff_toNat_lt, hcount] at hpos
        rw [UInt64.le_iff_toNat_le, hcount] at hmax
        have hmax : contentCount tmd ≤ 256 := hmax
        have hpos : 1 ≤ contentCount tmd := hpos
        rw [Program.wp_bind]
        apply wp_add (by omega) safe
        intro start hstart memory safe
        rw [Program.wp_bind]
        apply wp_multiply (by rw [hcount, hrecord]; omega) safe
        intro records hrecords memory safe
        rw [hcount, hrecord] at hrecords
        rw [Program.wp_bind]
        apply wp_add (by omega) safe
        intro last hlast memory safe
        rw [Program.wp_pure, decide_eq_true_iff, hlast, hstart, hrecords, hbody, hleast]
        exact ⟨⟨fun h => ⟨⟨hpos, hmax⟩, h⟩, fun h => h.2⟩, safe⟩
      · intro fits hfits memory safe
        rw [Program.wp_bind, wp_require]
        refine ⟨fun hok => ?_, fun hno =>
          rejected (fun valid => hno (hfits.mpr ⟨valid.count, valid.records⟩)) _ memory safe⟩
        obtain ⟨hcounts, hrecords⟩ := hfits.mp hok
        rw [Program.wp_bind]
        apply wp_integer (by decide) (by omega) safe
        intro tid htid memory safe
        have htid : tid.toNat = titleId tmd := by rw [htid, hbody]; rfl
        have hcategory : tid >>> 32 = 0x0004000e ↔ titleId tmd / 2 ^ 32 = 0x0004000e := by
          rw [← UInt64.toNat_inj, UInt64.toNat_shiftRight, htid, Nat.shiftRight_eq_div_pow]
          rfl
        rw [Program.wp_bind, wp_require, hcategory, Program.wp_pure]
        exact ⟨fun h => accepted ⟨signed, hcounts, hrecords, h⟩ _ ⟨hbody, hcount, htid⟩ memory
          safe, fun h => rejected (fun valid => h valid.category) _ memory safe⟩
    · rw [hleastEq, hbody, hleast]
      exact valid.signed.length
  · exact fun hunknown => rejected fun valid =>
      hunknown ⟨valid.signed.signature, valid.signed.known⟩

/-- What is tested of the ticket. -/
theorem wp_ticketFields {ticket : Bytes} {tid : UInt64} {done : Unit → Memory → Prop}
    (safe : memory.Safe)
    (accepted : ValidTicket ticket tid.toNat → ∀ memory : Memory, memory.Safe → done () memory)
    (rejected : ¬ ValidTicket ticket tid.toNat → ∀ stop, ∀ memory : Memory, memory.Safe →
      stopped stop memory) :
    (ticketFields ticket tid).wp done stopped memory := by
  unfold ticketFields
  rw [Program.wp_bind]
  apply wp_signedBody safe
  · intro hlength hknown body hbody memory safe
    have hle := bodyStart_le ticket
    have hfields : (0x164 : UInt64).toNat = 0x164 := rfl
    have height : (8 : UInt64).toNat = 8 := rfl
    rw [Program.wp_bind]
    apply wp_add (by omega) safe
    intro start hstart memory safe
    rw [Program.wp_bind]
    apply wp_add (by omega) safe
    intro least hleast memory safe
    rw [Program.wp_bind, wp_require]
    refine ⟨fun hleastLe => ?_, fun hshort => rejected (fun valid => hshort ?_) _ memory safe⟩
    · have signed : Signed ticket (0x164 + 8) := ⟨hlength, hknown, by omega⟩
      rw [Program.wp_bind]
      apply wp_integer (by decide) (by omega) safe
      intro ticketId hticketId memory safe
      have hticketId : ticketId.toNat = ticketTitleId ticket := by rw [hticketId, hbody]; rfl
      have htitle : ticketId = tid ↔ ticketTitleId ticket = tid.toNat := toNat_beq hticketId
      rw [Program.wp_bind, wp_require, htitle]
      refine ⟨fun hsame => ?_, fun hother => rejected (fun valid => hother valid.title) _ memory
        safe⟩
      rw [Program.wp_bind]
      apply wp_integer (by decide) (by omega) safe
      intro index hindex memory safe
      have hbound : index.toNat < 256 ^ 4 := hindex ▸ number_lt (by omega)
      have hindex : index.toNat = indexSize ticket := by rw [hindex, hbody]; rfl
      rw [Program.wp_bind]
      apply wp_both (0x14 ≤ indexSize ticket ∧
        bodyStart ticket + 0x164 + indexSize ticket ≤ ticket.length) safe
      · intro ⟨hmin, _⟩
        rw [UInt64.le_iff_toNat_le, hindex]
        exact hmin
      · intro hmin
        rw [UInt64.le_iff_toNat_le, hindex] at hmin
        rw [Program.wp_bind]
        apply wp_add (by omega) safe
        intro start hstart memory safe
        rw [Program.wp_bind]
        apply wp_add (by omega) safe
        intro last hlast memory safe
        rw [Program.wp_pure, decide_eq_true_iff, hlast, hstart, hbody, hfields, hindex]
        exact ⟨⟨fun h => ⟨hmin, h⟩, fun h => h.2⟩, safe⟩
      · intro fits hfits memory safe
        rw [wp_require]
        refine ⟨fun hok => ?_, fun hno =>
          rejected (fun valid => hno (hfits.mpr ⟨valid.index, valid.indexFits⟩)) _ memory safe⟩
        obtain ⟨hmin, hindexFits⟩ := hfits.mp hok
        exact accepted ⟨signed, hsame, hmin, hindexFits⟩ memory safe
    · rw [hleast, hstart, hbody, hfields, height]
      exact valid.signed.length
  · exact fun hunknown => rejected fun valid =>
      hunknown ⟨valid.signed.signature, valid.signed.known⟩

theorem wp_access {data : Bytes} {index : ℕ} {done : UInt8 → Memory → Prop}
    (hindex : index < data.length) (safe : memory.Safe)
    (h : ∀ memory : Memory, memory.Safe → done (data.getD index 0) memory) :
    (access data index).wp done stopped memory := by
  simp only [access, Cia.note, Program.wp_bind, Program.wp_modify, Program.wp_pure]
  exact h _ (safe.note hindex)

/-- The three flags are the bits of the mask. -/
theorem flags_eq_zero {flags : UInt64} {k : ℕ} (hflags : flags.toNat = k) :
    flags &&& (1 ||| 0x4000 ||| 0x8000) = 0 ↔ ∀ bit ∈ [0, 14, 15], k.testBit bit = false := by
  have hmask : ((1 ||| 0x4000 ||| 0x8000 : UInt64)).toNat = 0xc001 := rfl
  have hbits : ∀ bit < 16, (0xc001).testBit bit = true ↔ bit ∈ [0, 14, 15] := by decide
  rw [← UInt64.toNat_inj, UInt64.toNat_and, hflags, hmask, UInt64.toNat_zero]
  constructor
  · intro hzero bit hmem
    have hlt : bit < 16 := by
      simp only [List.mem_cons, List.not_mem_nil, or_false] at hmem
      omega
    have hbit : (k &&& 0xc001).testBit bit = false := by rw [hzero, Nat.zero_testBit]
    rw [Nat.testBit_and, (hbits bit hlt).mpr hmem, Bool.and_true] at hbit
    exact hbit
  · intro hclear
    apply Nat.eq_of_testBit_eq
    intro bit
    rw [Nat.testBit_and, Nat.zero_testBit]
    by_cases hlt : bit < 16
    · by_cases hmem : bit ∈ [0, 14, 15]
      · rw [hclear bit hmem, Bool.false_and]
      · rw [Bool.eq_false_iff.mpr (mt (hbits bit hlt).mp hmem), Bool.and_false]
    · have hhigh : (0xc001).testBit bit = false :=
        Nat.testBit_lt_two_pow (calc 0xc001 < 2 ^ 16 := by decide
          _ ≤ 2 ^ bit := Nat.pow_le_pow_right (by decide) (by omega))
      rw [hhigh, Bool.and_false]

/-- The bit of a content in its byte of the bitmap. -/
theorem listed_iff {byte : UInt8} {i : ℕ} :
    byte &&& 0x80 >>> UInt8.ofNat (i % 8) ≠ 0 ↔ byte.toNat.testBit (7 - i % 8) = true := by
  have hi : i % 8 < 8 := Nat.mod_lt i (by decide)
  have hshift : (0x80 >>> UInt8.ofNat (i % 8) : UInt8).toNat = 2 ^ (7 - i % 8) := by
    generalize i % 8 = k at hi
    decide +revert
  rw [ne_eq, ← UInt8.toNat_inj, UInt8.toNat_and, hshift, Nat.and_two_pow]
  cases byte.toNat.testBit (7 - i % 8) <;> simp

/-- What is tested of a content record. -/
theorem wp_recordFields {header tmd : Bytes} {title : Title} {ending : UInt64} {i : ℕ}
    {progress : Progress} {done : UInt64 × UInt32 → Memory → Prop} (safe : memory.Safe)
    (hheader : header.length = 0x2020) (valid : ValidTitle tmd) (fields : TitleRead tmd title)
    (hi : i < contentCount tmd) (hoffset : progress.offset.toNat ≤ ending.toNat)
    (accepted : ValidRecord header tmd i (progress.ids.map UInt32.toNat)
        (ending.toNat - progress.offset.toNat) →
      ∀ bytes : UInt64, bytes.toNat = contentSize tmd i → ∀ id : UInt32,
        id.toNat = contentId tmd i → ∀ memory : Memory, memory.Safe → done (bytes, id) memory)
    (rejected : ¬ ValidRecord header tmd i (progress.ids.map UInt32.toNat)
        (ending.toNat - progress.offset.toNat) →
      ∀ stop, ∀ memory : Memory, memory.Safe → stopped stop memory) :
    (recordFields header tmd title ending i progress).wp done stopped memory := by
  have hcount := valid.count.2
  have hrecords := valid.records
  have hstart : recordOffset title i = recordStart tmd i := by
    rw [recordOffset, fields.body]
    rfl
  have hend : recordStart tmd i + 0x30 ≤ tmd.length := by
    simp only [recordStart]
    omega
  unfold recordFields
  rw [hstart, Program.wp_bind]
  apply wp_integer (by decide) (by omega) safe
  intro bytes hbytes memory safe
  rw [Program.wp_bind, Program.wp_andM, Program.wp_map]
  apply wp_integer (by decide) (by omega) safe
  intro index hindex memory safe
  have hindexEq : (index == UInt64.ofNat i) = true ↔ contentIndex tmd i = i := by
    rw [beq_iff_eq, toNat_beq hindex, UInt64.toNat_ofNat', Nat.mod_eq_of_lt (by omega)]
    rfl
  have htested (listed : Bool)
      (hlisted : listed = true ↔ contentIndex tmd i = i ∧ contentListed header i)
      (memory : Memory) (safe : memory.Safe) :
      Program.wp (do
        require (listed = true) .unsupported
        let flags ← integer tmd (recordStart tmd i + 6) 2 true
        require (flags &&& (1 ||| 0x4000 ||| 0x8000) = 0) .unsupported
        let id ← integer tmd (recordStart tmd i) 4 true
        require (id.toUInt32 ∉ progress.ids)
        let fits ← pure (decide (0x200 ≤ bytes)) <&&> do
          let left ← subtract ending progress.offset
          pure (decide (bytes ≤ left))
        require (fits = true)
        pure (bytes, id.toUInt32)) done stopped memory := by
    rw [Program.wp_bind, wp_require, hlisted]
    refine ⟨fun ⟨hindex, hbit⟩ => ?_, fun hno =>
      rejected (fun valid => hno ⟨valid.index, valid.listed⟩) _ memory safe⟩
    rw [Program.wp_bind]
    apply wp_integer (by decide) (by omega) safe
    intro flags hflags memory safe
    rw [Program.wp_bind, wp_require, flags_eq_zero hflags]
    refine ⟨fun hflags => ?_, fun hno => rejected (fun valid => hno valid.flags) _ memory safe⟩
    rw [Program.wp_bind]
    apply wp_integer (by decide) (by omega) safe
    intro id hid memory safe
    have hidLt : id.toNat < 256 ^ 4 := hid ▸ number_lt (by omega)
    have hid : id.toUInt32.toNat = contentId tmd i := by
      rw [UInt64.toNat_toUInt32, Nat.mod_eq_of_lt (show id.toNat < 2 ^ 32 from hidLt)]
      exact hid
    have hfresh : id.toUInt32 ∉ progress.ids ↔
        contentId tmd i ∉ progress.ids.map UInt32.toNat := by
      rw [← hid, List.mem_map_of_injective fun _ _ h => UInt32.toNat_inj.mp h]
    rw [Program.wp_bind, wp_require, hfresh]
    refine ⟨fun hfresh => ?_, fun hno => rejected (fun valid => hno valid.id) _ memory safe⟩
    rw [Program.wp_bind]
    apply wp_both (0x200 ≤ contentSize tmd i ∧
      contentSize tmd i ≤ ending.toNat - progress.offset.toNat) safe
    · intro ⟨hsize, _⟩
      rw [UInt64.le_iff_toNat_le, hbytes]
      exact hsize
    · intro hsize
      rw [UInt64.le_iff_toNat_le, hbytes] at hsize
      rw [Program.wp_bind]
      apply wp_subtract hoffset safe
      intro left hleft memory safe
      rw [Program.wp_pure, decide_eq_true_iff, UInt64.le_iff_toNat_le, hbytes, hleft]
      exact ⟨⟨fun h => ⟨hsize, h⟩, fun h => h.2⟩, safe⟩
    · intro fits hfits memory safe
      rw [Program.wp_bind, wp_require, hfits, Program.wp_pure]
      refine ⟨fun ⟨hsize, hleft⟩ => ?_, fun hno =>
        rejected (fun valid => hno ⟨valid.size, valid.fits⟩) _ memory safe⟩
      exact accepted ⟨hindex, hbit, hflags, hfresh, hsize, hleft⟩ bytes hbytes _ hid memory safe
  split
  · next heq =>
    rw [Program.wp_bind]
    apply wp_access (by omega) safe
    intro memory safe
    rw [Program.wp_pure]
    refine htested _ ?_ memory safe
    rw [decide_eq_true_iff, listed_iff]
    exact ⟨fun h => ⟨hindexEq.mp heq, h⟩, fun h => h.2⟩
  · next hne =>
    refine htested false ?_ memory safe
    rw [← hindexEq]
    simp [hne]

/-- `std::equal` of a hash and as many bytes. -/
theorem wp_equal {hash data : Bytes} {p : ℕ} {done : Bool → Memory → Prop}
    (hinside : p + hash.length ≤ data.length) (safe : memory.Safe)
    (next : ∀ same, (same = true ↔ hash = slice data p hash.length) → ∀ memory : Memory,
      memory.Safe → done same memory) :
    (equal hash data p).wp done stopped memory := by
  induction hash generalizing p memory with
  | nil => exact (Program.wp_pure true).mpr (next true (by simp [slice]) memory safe)
  | cons first hash ih =>
      simp only [List.length_cons] at hinside next
      have hslice : slice data p (hash.length + 1) =
          data.getD p 0 :: slice data (p + 1) hash.length := by
        have hp : p < data.length := by omega
        rw [slice, List.drop_eq_getElem_cons hp, List.take_succ_cons, slice,
          List.getD_eq_getElem _ _ hp]
      rw [equal, Program.wp_bind]
      apply wp_access (by omega) safe
      intro memory safe
      rw [Program.wp_ite]
      refine ⟨fun heq => ?_, fun hne => ?_⟩
      · apply ih (by omega) safe
        intro same hsame
        refine next same ?_
        rw [hsame, hslice, List.cons.injEq]
        exact ⟨fun h => ⟨heq, h⟩, fun h => h.2⟩
      · rw [Program.wp_pure]
        refine next false ?_ memory safe
        rw [hslice, List.cons.injEq]
        exact ⟨by rintro ⟨⟩, fun h => absurd h.1 hne⟩

end Tests

end ManicRoom.Cia
