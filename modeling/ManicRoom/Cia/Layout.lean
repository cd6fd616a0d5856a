/-
# The layout of a CIA

A CIA is a header of 0x2020 bytes and up to five sections, each at the next multiple of 64
after the one before. `Header` accepts exactly the headers whose fixed fields match, whose
sizes are in range and whose layout fits into the file, and the offsets it returns are
those of the layout.
-/

import Mathlib.Order.CompletePartialOrder
import Mathlib.Order.Interval.Set.Disjoint
import ManicRoom.Cia.Policy

namespace ManicRoom.Cia

open ManicRoom.Foundation

/-! ## Numbers -/

/-- The digits of the number that is stored there, the least significant first. -/
def digits (data : Bytes) (p n : ℕ) (big : Bool) : Bytes :=
  if big then (slice data p n).reverse else slice data p n

/-- That number. -/
def number (data : Bytes) (p n : ℕ) (big : Bool := false) : ℕ := ofBytes (digits data p n big)

variable {data : Bytes} {p n : ℕ} {big : Bool}

theorem length_slice (h : p + n ≤ data.length) : (slice data p n).length = n := by
  simp only [slice, List.length_take, List.length_drop]
  omega

theorem length_digits (h : p + n ≤ data.length) : (digits data p n big).length = n := by
  unfold digits
  split
  · rw [List.length_reverse, length_slice h]
  · exact length_slice h

theorem number_lt (h : p + n ≤ data.length) : number data p n big < 256 ^ n := by
  have hlt := ofBytes_lt (digits data p n big)
  rwa [length_digits h] at hlt

/-- `Integer` takes the digits in this order. -/
theorem getElem?_digits (h : p + n ≤ data.length) {i : ℕ} (hi : i < n) :
    (digits data p n big)[i]? = some (data.getD (p + digit n big i) 0) := by
  have hslice (j : ℕ) (hj : j < n) : (slice data p n)[j]? = some (data.getD (p + j) 0) := by
    have hbound : p + j < data.length := by omega
    simp [slice, hj, List.getElem?_eq_getElem hbound]
  have hlength := length_slice h
  cases big with
  | true =>
      simp only [digits, if_true, digit]
      rw [List.getElem?_reverse (by omega), hlength, hslice _ (by omega)]
  | false => exact hslice i hi

theorem digit_lt {i : ℕ} (hi : i < n) : digit n big i < n := by
  unfold digit
  split <;> omega

section Steps

variable {done : UInt64 → Memory → Prop} {stopped : Stop → Memory → Prop} {memory : Memory}

theorem Memory.Safe.note (safe : memory.Safe) {event : MemoryEvent} (h : event.Safe) :
    Memory.Safe (event :: memory) := by
  intro other hmem
  rcases List.mem_cons.mp hmem with rfl | hold
  · exact h
  · exact safe other hold

/-- After `k` rounds of its loop `Integer` has put together the first `k` digits. -/
theorem wp_integer_rounds (hn : n ≤ 8) (hin : p + n ≤ data.length) (safe : memory.Safe) {k : ℕ}
    (hk : k ≤ n)
    (h : ∀ v : UInt64, v.toNat = ofBytes ((digits data p n big).take k) →
      ∀ memory : Memory, memory.Safe → done v memory) :
    ((List.range k).foldlM (fun v i => do
      let byte ← access data (p + digit n big i)
      pure (v ||| byte.toUInt64 <<< UInt64.ofNat (8 * i))) 0).wp done stopped memory := by
  induction k generalizing done with
  | zero => exact (Program.wp_pure 0).mpr (h 0 rfl memory safe)
  | succ k ih =>
      rw [List.range_succ, List.foldlM_append, Program.wp_bind]
      apply ih (Nat.le_of_succ_le hk)
      intro v hv memory safe
      simp only [List.foldlM_cons, List.foldlM_nil, access, Cia.note, bind_assoc, pure_bind,
        bind_pure, Program.wp_bind, Program.wp_modify, Program.wp_pure]
      have hdigit := @getElem?_digits _ _ _ big hin _ hk
      refine h _ ?_ _ (safe.note ?_)
      · have hprior : v.toNat < 256 ^ k := by
          have hlt := ofBytes_lt ((digits data p n big).take k)
          rw [List.length_take, length_digits hin, Nat.min_eq_left (Nat.le_of_succ_le hk)] at hlt
          rwa [hv]
        rw [toNat_or_shiftLeft _ (Nat.lt_of_lt_of_le hk hn) hprior, hv, List.take_add_one, hdigit,
          Option.toList_some, ofBytes_concat, List.length_take, length_digits hin,
          Nat.min_eq_left (Nat.le_of_succ_le hk)]
      · have hlt := @digit_lt _ big _ hk
        simp only [MemoryEvent.Safe]
        omega

/-- `Integer` stays inside the vector and returns the number that is stored there. -/
theorem wp_integer (hn : n ≤ 8) (hin : p + n ≤ data.length) (safe : memory.Safe)
    (h : ∀ v : UInt64, v.toNat = number data p n big → ∀ memory : Memory, memory.Safe →
      done v memory) :
    (integer data p n big).wp done stopped memory := by
  apply wp_integer_rounds hn hin safe (le_refl n)
  intro v hv
  refine h v ?_
  rw [hv, number, List.take_of_length_le (length_digits hin).le]

/-- A sum that does not wrap. -/
theorem wp_add {left right : UInt64} (hsum : left.toNat + right.toNat < 2 ^ 64)
    (safe : memory.Safe)
    (h : ∀ v : UInt64, v.toNat = left.toNat + right.toNat → ∀ memory : Memory, memory.Safe →
      done v memory) :
    (add left right).wp done stopped memory := by
  simp only [add, Cia.note, Program.wp_bind, Program.wp_modify, Program.wp_pure]
  refine h _ ?_ _ (safe.note hsum)
  rw [UInt64.toNat_add]
  exact Nat.mod_eq_of_lt hsum

/-- `Align` rounds up to a multiple of 64, as long as its sum does not wrap. -/
theorem wp_align {v : UInt64} (hsum : v.toNat + 63 < 2 ^ 64) (safe : memory.Safe)
    (h : ∀ a : UInt64, a.toNat = roundUp 64 v.toNat → ∀ memory : Memory, memory.Safe →
      done a memory) :
    (align v).wp done stopped memory := by
  simp only [align, add, Cia.note, bind_assoc, pure_bind, Program.wp_bind, Program.wp_modify,
    Program.wp_pure]
  exact h _ (toNat_mask hsum) _ (safe.note hsum)

end Steps

/-! ## The layout -/

/-- `cert`, `tik`, `tmd`, `meta` and `content` of `Header`. -/
structure Sizes where
  cert : ℕ
  tik : ℕ
  tmd : ℕ
  «meta» : ℕ
  content : ℕ

/-- The sizes that a header gives. -/
def sizes (h : Bytes) : Sizes where
  cert := number h 8 4
  tik := number h 12 4
  tmd := number h 16 4
  «meta» := number h 20 4
  content := number h 24 8

namespace Sizes

variable (z : Sizes)

def ticketOffset : ℕ := roundUp 64 (0x2020 + z.cert)

def tmdOffset : ℕ := roundUp 64 (z.ticketOffset + z.tik)

def contentOffset : ℕ := roundUp 64 (z.tmdOffset + z.tmd)

def contentEnd : ℕ := z.contentOffset + z.content

def metaEnd : ℕ := roundUp 64 z.contentEnd + z.meta

/-- The sizes are in their ranges. -/
structure InRange : Prop where
  cert : z.cert ≤ 2 ^ 20
  tik : 0x164 ≤ z.tik ∧ z.tik ≤ 2 ^ 20
  tmd : 0x9c4 ≤ z.tmd ∧ z.tmd ≤ 2 ^ 20
  «meta» : z.meta ≤ 2 ^ 20
  content : z.content ≤ 2 ^ 33

variable {z}

/-- No offset comes near the limits of a word. -/
theorem InRange.bounds (range : z.InRange) :
    z.ticketOffset < 2 ^ 34 ∧ z.tmdOffset < 2 ^ 34 ∧ z.contentOffset < 2 ^ 34 ∧
      z.contentEnd < 2 ^ 35 ∧ z.metaEnd < 2 ^ 36 := by
  have hticket := roundUp_lt (d := 64) (by decide) (0x2020 + z.cert)
  have htmd := roundUp_lt (d := 64) (by decide) (z.ticketOffset + z.tik)
  have hcontent := roundUp_lt (d := 64) (by decide) (z.tmdOffset + z.tmd)
  have hmeta := roundUp_lt (d := 64) (by decide) z.contentEnd
  have hcert := range.cert
  have htik := range.tik
  have htmdSize := range.tmd
  have hmetaSize := range.meta
  have hcontentSize := range.content
  simp only [ticketOffset, tmdOffset, contentOffset, contentEnd, metaEnd] at *
  omega

end Sizes

/-- What `Header` accepts. -/
structure Accepts (h : Bytes) (fileSize : ℕ) : Prop where
  length : h.length = 0x2020
  file : 0x2020 ≤ fileSize ∧ fileSize ≤ 2 ^ 33
  /-- The header size, the type and the version. -/
  fixed : number h 0 4 = 0x2020 ∧ number h 4 2 = 0 ∧ number h 6 2 = 0
  range : (sizes h).InRange
  /-- The file contains the whole layout. -/
  content : (sizes h).contentEnd ≤ fileSize
  «meta» : (sizes h).meta ≠ 0 → (sizes h).metaEnd ≤ fileSize

/-- The sections that `Header` returns are those of the layout. -/
structure LaidOut (z : Sizes) (s : Sections) : Prop where
  ticket : s.ticket.toNat = z.ticketOffset
  tmd : s.tmd.toNat = z.tmdOffset
  content : s.content.toNat = z.contentOffset
  ending : s.ending.toNat = z.contentEnd
  ticketSize : s.ticketSize.toNat = z.tik
  tmdSize : s.tmdSize.toNat = z.tmd

/-- The test of the fixed fields, which stops at the first that differs. -/
theorem wp_fixed {h : Bytes} {done : Bool → Memory → Prop} {stopped : Stop → Memory → Prop}
    {memory : Memory} (hlength : h.length = 0x2020) (safe : memory.Safe)
    (next : ∀ fixed : Bool,
      (fixed = true ↔ number h 0 4 = 0x2020 ∧ number h 4 2 = 0 ∧ number h 6 2 = 0) →
      ∀ memory : Memory, memory.Safe → done fixed memory) :
    Program.wp (((· == 0x2020) <$> integer h 0 4) <&&> ((· == 0) <$> integer h 4 2) <&&>
      ((· == 0) <$> integer h 6 2)) done stopped memory := by
  have equal {v c : UInt64} {k : ℕ} (hv : v.toNat = k) : (v == c) = true ↔ k = c.toNat := by
    rw [beq_iff_eq, ← UInt64.toNat_inj, hv]
  simp only [Program.wp_andM, Program.wp_map]
  apply wp_integer (by decide) (by omega) safe
  intro size hsize memory safe
  have hsize : (size == 0x2020) = true ↔ number h 0 4 = 0x2020 := equal hsize
  split
  · next heq =>
    apply wp_integer (by decide) (by omega) safe
    intro type htype memory safe
    have htype : (type == 0) = true ↔ number h 4 2 = 0 := equal htype
    split
    · next htypeEq =>
      apply wp_integer (by decide) (by omega) safe
      intro version hversion memory safe
      have hversion : (version == 0) = true ↔ number h 6 2 = 0 := equal hversion
      exact next _ (by rw [hversion, ← hsize, ← htype]; simp [heq, htypeEq]) memory safe
    · next htypeNe =>
      exact next false (by rw [← htype]; simp [htypeNe]) memory safe
  · next hne => exact next false (by rw [← hsize]; simp [hne]) memory safe

/-- The last test of `Header`. -/
theorem wp_fits {h : Bytes} {fileSize ending «meta» : UInt64} {done : Bool → Memory → Prop}
    {stopped : Stop → Memory → Prop} {memory : Memory} (range : (sizes h).InRange)
    (hending : ending.toNat = (sizes h).contentEnd) (hmeta : «meta».toNat = (sizes h).meta)
    (safe : memory.Safe)
    (next : ∀ fits : Bool,
      (fits = true ↔ (sizes h).contentEnd ≤ fileSize.toNat ∧
        ((sizes h).meta ≠ 0 → (sizes h).metaEnd ≤ fileSize.toNat)) →
      ∀ memory : Memory, memory.Safe → done fits memory) :
    Program.wp (pure (decide (ending ≤ fileSize)) <&&> (pure («meta» == 0) <||> do
      let last ← add (← align ending) «meta»
      pure (decide (last ≤ fileSize)))) done stopped memory := by
  obtain ⟨-, -, -, hend, hlast⟩ := range.bounds
  have hzero : («meta» == 0) = true ↔ (sizes h).meta = 0 := by
    rw [beq_iff_eq, ← UInt64.toNat_inj, hmeta]
    rfl
  have hcontent : decide (ending ≤ fileSize) = true ↔ (sizes h).contentEnd ≤ fileSize.toNat := by
    rw [decide_eq_true_iff, UInt64.le_iff_toNat_le, hending]
  simp only [Program.wp_andM, Program.wp_orM, Program.wp_pure, Program.wp_bind]
  split
  · next hfits =>
    split
    · next heq =>
      refine next true ?_ memory safe
      simp [hcontent.mp hfits, hzero.mp heq]
    · next hne =>
      apply wp_align (by omega) safe
      intro boundary hboundary memory safe
      rw [hending] at hboundary
      have hsum : boundary.toNat + «meta».toNat = (sizes h).metaEnd := by
        rw [hboundary, hmeta, Sizes.metaEnd]
      apply wp_add (by omega) safe
      intro last hlastEq memory safe
      have hsome : (sizes h).meta ≠ 0 := fun h => hne (hzero.mpr h)
      refine next _ ?_ memory safe
      rw [decide_eq_true_iff, UInt64.le_iff_toNat_le, hlastEq, hsum]
      simp [hcontent.mp hfits, hsome]
  · next hfits =>
    refine next false ?_ memory safe
    simp only [Bool.false_eq_true, false_iff, not_and]
    exact fun h => absurd (hcontent.mpr h) hfits

/-- **What `Header` does**: it accepts what it should, computes the layout and stays
within bounds. -/
theorem wp_header {h : Bytes} {fileSize : UInt64} {done : Sections → Memory → Prop}
    {stopped : Stop → Memory → Prop} {memory : Memory} (safe : memory.Safe)
    (accepted : Accepts h fileSize.toNat → ∀ s : Sections, LaidOut (sizes h) s →
      ∀ memory : Memory, memory.Safe → done s memory)
    (rejected : ¬ Accepts h fileSize.toNat → ∀ status, ∀ memory : Memory, memory.Safe →
      stopped (.failure status) memory) :
    (header h fileSize).wp done stopped memory := by
  unfold header
  simp only [Program.wp_bind, wp_require]
  have hmax : maxInput.toNat = 2 ^ 33 := by decide
  constructor
  · rintro ⟨hlength, hfile, hsmall⟩
    rw [UInt64.le_iff_toNat_le, hmax] at hsmall
    apply wp_fixed hlength safe
    intro fixed hfixed memory safe
    refine ⟨fun hfields => ?_, fun hne => rejected (fun h => hne (hfixed.mpr h.fixed)) _ memory
      safe⟩
    apply wp_integer (by decide) (by omega) safe
    intro cert hcert memory safe
    apply wp_integer (by decide) (by omega) safe
    intro tik htik memory safe
    apply wp_integer (by decide) (by omega) safe
    intro tmd htmd memory safe
    apply wp_integer (by decide) (by omega) safe
    intro «meta» hmeta memory safe
    apply wp_integer (by decide) (by omega) safe
    intro content hcontent memory safe
    have hrange : (cert ≤ 0x100000 ∧ 0x164 ≤ tik ∧ tik ≤ 0x100000 ∧ 0x9c4 ≤ tmd ∧
        tmd ≤ 0x100000 ∧ «meta» ≤ 0x100000 ∧ content ≤ maxInput) ↔ (sizes h).InRange := by
      simp only [UInt64.le_iff_toNat_le, hcert, htik, htmd, hmeta, hcontent, hmax]
      constructor
      · rintro ⟨hc, ht, ht', hm, hm', hmeta, hcontent⟩
        exact ⟨hc, ⟨ht, ht'⟩, ⟨hm, hm'⟩, hmeta, hcontent⟩
      · intro range
        exact ⟨range.cert, range.tik.1, range.tik.2, range.tmd.1, range.tmd.2, range.meta,
          range.content⟩
    refine ⟨fun hsizes => ?_, fun hsizes => rejected (fun h => hsizes (hrange.mpr h.range)) _
      memory safe⟩
    have range := hrange.mp hsizes
    obtain ⟨hticketLt, htmdLt, hcontentLt, hendLt, -⟩ := range.bounds
    have hcertSize : cert.toNat = (sizes h).cert := hcert
    have htikSize : tik.toNat = (sizes h).tik := htik
    have htmdSize : tmd.toNat = (sizes h).tmd := htmd
    have hcontentSize : content.toNat = (sizes h).content := hcontent
    have hcertLe := range.cert
    have htikLe := range.tik.2
    have htmdLe := range.tmd.2
    have hcontentLe := range.content
    have hbase : (0x2020 : UInt64).toNat = 0x2020 := rfl
    apply wp_add (by omega) safe
    intro base hbaseEq memory safe
    apply wp_align (by omega) safe
    intro ticketAt hticketAt memory safe
    rw [hbaseEq, hbase, hcertSize, ← Sizes.ticketOffset] at hticketAt
    apply wp_add (by omega) safe
    intro ticketEnd hticketEnd memory safe
    apply wp_align (by omega) safe
    intro tmdAt htmdAt memory safe
    rw [hticketEnd, hticketAt, htikSize, ← Sizes.tmdOffset] at htmdAt
    apply wp_add (by omega) safe
    intro tmdEnd htmdEnd memory safe
    apply wp_align (by omega) safe
    intro contentAt hcontentAt memory safe
    rw [htmdEnd, htmdAt, htmdSize, ← Sizes.contentOffset] at hcontentAt
    apply wp_add (by omega) safe
    intro ending hending memory safe
    rw [hcontentAt, hcontentSize, ← Sizes.contentEnd] at hending
    apply wp_fits range hending hmeta safe
    intro fits hfits memory safe
    refine ⟨fun heq => ?_, fun hne => rejected (fun h => hne (hfits.mpr ⟨h.content, h.meta⟩)) _
      memory safe⟩
    have accepts : Accepts h fileSize.toNat :=
      ⟨hlength, ⟨hlength ▸ hfile, hsmall⟩, hfixed.mp hfields, range, (hfits.mp heq).1,
        (hfits.mp heq).2⟩
    rw [Program.wp_pure]
    refine accepted accepts _ ⟨hticketAt, htmdAt, hcontentAt, hending, ?_, ?_⟩ memory safe
    · rw [UInt64.toNat_toUInt32, htikSize]
      exact Nat.mod_eq_of_lt (by omega)
    · rw [UInt64.toNat_toUInt32, htmdSize]
      exact Nat.mod_eq_of_lt (by omega)
  · intro hfile
    refine rejected (fun h => hfile ⟨h.length, ?_, ?_⟩) _ memory safe
    · exact h.length ▸ h.file.1
    · rw [UInt64.le_iff_toNat_le, hmax]
      exact h.file.2

/-! ## The result -/

/-- The offset is the least multiple of 64 that is not before the end of what precedes. -/
def IsBoundary (preceding offset : ℕ) : Prop := IsLeast {m | 64 ∣ m ∧ preceding ≤ m} offset

/-- The sections of a file, in terms of the numbers in its header. -/
structure IsLayout (h : Bytes) (fileSize : ℕ) (s : Sections) : Prop where
  ticket : IsBoundary (0x2020 + number h 8 4) s.ticket.toNat
  tmd : IsBoundary (s.ticket.toNat + number h 12 4) s.tmd.toNat
  content : IsBoundary (s.tmd.toNat + number h 16 4) s.content.toNat
  ending : s.ending.toNat = s.content.toNat + number h 24 8 ∧ s.ending.toNat ≤ fileSize
  /-- A metadata section also fits. -/
  «meta» : number h 20 4 ≠ 0 →
    ∃ offset, IsBoundary s.ending.toNat offset ∧ offset + number h 20 4 ≤ fileSize
  /-- Narrowing the sizes to 32 bits has lost nothing. -/
  narrow : s.ticketSize.toNat = number h 12 4 ∧ s.tmdSize.toNat = number h 16 4
  /-- Header and certificates, ticket, metadata and content, in this order. -/
  ordered : 0x2020 + number h 8 4 ≤ s.ticket.toNat ∧
    s.ticket.toNat + s.ticketSize.toNat ≤ s.tmd.toNat ∧
    s.tmd.toNat + s.tmdSize.toNat ≤ s.content.toNat ∧ s.content.toNat ≤ s.ending.toNat
  disjoint : List.Pairwise Disjoint
    [Set.Ico 0 (0x2020 + number h 8 4),
      Set.Ico s.ticket.toNat (s.ticket.toNat + s.ticketSize.toNat),
      Set.Ico s.tmd.toNat (s.tmd.toNat + s.tmdSize.toNat),
      Set.Ico s.content.toNat s.ending.toNat]

theorem LaidOut.isLayout {h : Bytes} {fileSize : ℕ} {s : Sections} (laid : LaidOut (sizes h) s)
    (accepts : Accepts h fileSize) : IsLayout h fileSize s := by
  have hticket : IsBoundary (0x2020 + number h 8 4) s.ticket.toNat := by
    rw [laid.ticket]
    exact roundUp_isLeast (by decide) _
  have htmd : IsBoundary (s.ticket.toNat + number h 12 4) s.tmd.toNat := by
    rw [laid.tmd, laid.ticket]
    exact roundUp_isLeast (by decide) _
  have hcontent : IsBoundary (s.tmd.toNat + number h 16 4) s.content.toNat := by
    rw [laid.content, laid.tmd]
    exact roundUp_isLeast (by decide) _
  have hending : s.ending.toNat = s.content.toNat + number h 24 8 := by
    rw [laid.ending, laid.content]
    rfl
  have htik : s.ticketSize.toNat = number h 12 4 := laid.ticketSize
  have htmdSize : s.tmdSize.toNat = number h 16 4 := laid.tmdSize
  have ordered : 0x2020 + number h 8 4 ≤ s.ticket.toNat ∧
      s.ticket.toNat + s.ticketSize.toNat ≤ s.tmd.toNat ∧
      s.tmd.toNat + s.tmdSize.toNat ≤ s.content.toNat ∧ s.content.toNat ≤ s.ending.toNat :=
    ⟨hticket.1.2, htik ▸ htmd.1.2, htmdSize ▸ hcontent.1.2, by omega⟩
  have apart {a b c d : ℕ} (h : b ≤ c) : Disjoint (Set.Ico a b) (Set.Ico c d) :=
    Set.Ico_disjoint_Ico.mpr (by simp only [le_sup_iff, inf_le_iff]; omega)
  refine ⟨hticket, htmd, hcontent, ⟨hending, laid.ending ▸ accepts.content⟩, fun hsome => ?_,
    ⟨htik, htmdSize⟩, ordered, ?_⟩
  · refine ⟨roundUp 64 s.ending.toNat, roundUp_isLeast (by decide) _, ?_⟩
    rw [laid.ending]
    exact accepts.meta hsome
  · simp only [List.pairwise_cons, List.mem_cons, List.not_mem_nil, or_false, forall_eq_or_imp,
      forall_eq, IsEmpty.forall_iff, implies_true, List.Pairwise.nil, and_true]
    refine ⟨⟨apart ?_, apart ?_, apart ?_⟩, ⟨apart ?_, apart ?_⟩, apart ?_⟩ <;> omega

/-- **The layout of a CIA**: `Header` accepts exactly the headers whose layout fits into the
file, and returns that layout. -/
theorem header_layout (h : Bytes) (fileSize : UInt64) :
    ((header h fileSize).Returns [] ↔ Accepts h fileSize.toNat) ∧
      ∀ s memory, (header h fileSize).outcome [] = (.ok s, memory) →
        IsLayout h fileSize.toNat s := by
  have safe : Memory.Safe [] := nofun
  constructor
  · apply Program.returns_iff_of_wp
    exact wp_header safe (fun accepts _ _ _ _ => accepts) fun rejects _ _ _ => rejects
  · have hlayout : (header h fileSize).wp (fun s _ => IsLayout h fileSize.toNat s)
        (fun _ _ => True) [] :=
      wp_header safe (fun accepts s laid _ _ => laid.isLayout accepts) fun _ _ _ _ => trivial
    exact (Program.wp_iff_outcome.mp hlayout).1

end ManicRoom.Cia
