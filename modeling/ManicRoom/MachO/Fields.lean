/-
# The fields of an export trie

How the fields of an export trie are written: a text in UTF-8 with a zero byte after it, a
number in seven bits a byte, and the fields of a terminal in their order. Every way of writing
a field is read back by the decoder, wherever in the data it stands.
-/

import Mathlib.Data.Nat.Bitwise
import ManicRoom.MachO.Nodes

namespace ManicRoom.MachO

open ManicRoom.Foundation

variable {data : Bytes}

/-! ## Texts -/

/-- The UTF-8 bytes of a character. -/
def utf8 (c : Char) : Bytes :=
  let v := c.toNat
  if v < 0x80 then [UInt8.ofNat v]
  else if v < 0x800 then [UInt8.ofNat (0xc0 + v / 0x40), UInt8.ofNat (0x80 + v % 0x40)]
  else if v < 0x10000 then
    [UInt8.ofNat (0xe0 + v / 0x1000), UInt8.ofNat (0x80 + v / 0x40 % 0x40),
      UInt8.ofNat (0x80 + v % 0x40)]
  else
    [UInt8.ofNat (0xf0 + v / 0x40000), UInt8.ofNat (0x80 + v / 0x1000 % 0x40),
      UInt8.ofNat (0x80 + v / 0x40 % 0x40), UInt8.ofNat (0x80 + v % 0x40)]

/-- The UTF-8 bytes of a text. -/
def encodeText (text : Text) : Bytes := text.flatMap utf8

/-- The text has no NUL. -/
def NulFree (text : Text) : Prop := Char.ofNat 0 ∉ text

instance (text : Text) : Decidable (NulFree text) :=
  inferInstanceAs (Decidable (Char.ofNat 0 ∉ text))

theorem toNat_ofNat_byte {n : ℕ} (h : n < 256) : (UInt8.ofNat n).toNat = n := by
  simp [Nat.mod_eq_of_lt h]

theorem decodeFrom_none_cons (b : UInt8) (rest : Bytes) :
    decodeFrom none (b :: rest) = match leadByte b with
      | .inl c => c :: decodeFrom none rest
      | .inr pending => decodeFrom (some pending) rest :=
  decodeFrom.eq_def none (b :: rest)

/-- A byte in its range is taken for the six bits that it carries. -/
theorem decodeFrom_more {bits : ℕ} {least greatest : UInt8} {ranges : List (UInt8 × UInt8)}
    {n : ℕ} {rest : Bytes} (hn : n < 64) (hleast : least.toNat ≤ 0x80 + n)
    (hgreatest : 0x80 + n ≤ greatest.toNat) (hranges : ranges ≠ []) :
    decodeFrom (some ⟨bits, (least, greatest) :: ranges⟩) (UInt8.ofNat (0x80 + n) :: rest) =
      decodeFrom (some ⟨bits * 64 + n, ranges⟩) rest := by
  have hbyte : (UInt8.ofNat (0x80 + n)).toNat = 0x80 + n := toNat_ofNat_byte (by omega)
  have hbits : (0x80 + n) &&& 0x3f = n := by
    rw [Nat.and_two_pow_sub_one_eq_mod _ 6]
    omega
  rw [decodeFrom, if_pos, if_neg hranges, hbyte, hbits]
  simp only [UInt8.le_iff_toNat_le, hbyte]
  exact ⟨hleast, hgreatest⟩

theorem decodeFrom_last {bits : ℕ} {least greatest : UInt8} {n : ℕ} {rest : Bytes}
    (hn : n < 64) (hleast : least.toNat ≤ 0x80 + n) (hgreatest : 0x80 + n ≤ greatest.toNat) :
    decodeFrom (some ⟨bits, [(least, greatest)]⟩) (UInt8.ofNat (0x80 + n) :: rest) =
      Char.ofNat (bits * 64 + n) :: decodeFrom none rest := by
  have hbyte : (UInt8.ofNat (0x80 + n)).toNat = 0x80 + n := toNat_ofNat_byte (by omega)
  have hbits : (0x80 + n) &&& 0x3f = n := by
    rw [Nat.and_two_pow_sub_one_eq_mod _ 6]
    omega
  rw [decodeFrom, if_pos, if_pos rfl, hbyte, hbits]
  simp only [UInt8.le_iff_toNat_le, hbyte]
  exact ⟨hleast, hgreatest⟩

theorem leadByte_one {n : ℕ} (h : n < 0x80) :
    leadByte (UInt8.ofNat n) = .inl (Char.ofNat n) := by
  have hbyte : (UInt8.ofNat n).toNat = n := toNat_ofNat_byte (by omega)
  rw [leadByte, if_pos, hbyte]
  rw [UInt8.lt_iff_toNat_lt, hbyte]
  exact h

theorem leadByte_two {n : ℕ} (hleast : 2 ≤ n) (hgreatest : n < 0x20) :
    leadByte (UInt8.ofNat (0xc0 + n)) = .inr ⟨n, [(0x80, 0xbf)]⟩ := by
  have hbyte : (UInt8.ofNat (0xc0 + n)).toNat = 0xc0 + n := toNat_ofNat_byte (by omega)
  have hbits : (0xc0 + n) &&& 0x1f = n := by
    rw [Nat.and_two_pow_sub_one_eq_mod _ 5]
    omega
  simp only [leadByte, UInt8.lt_iff_toNat_lt, hbyte, hbits]
  rw [if_neg (by simp; omega), if_neg (by simp; omega), if_pos (by simp; omega)]

/-- The range of the second byte of three. -/
def secondOfThree (n : ℕ) : UInt8 × UInt8 :=
  if n = 0 then (0xa0, 0xbf) else if n = 0xd then (0x80, 0x9f) else (0x80, 0xbf)

theorem leadByte_three {n : ℕ} (hgreatest : n < 0x10) :
    leadByte (UInt8.ofNat (0xe0 + n)) = .inr ⟨n, [secondOfThree n, (0x80, 0xbf)]⟩ := by
  have hbyte : (UInt8.ofNat (0xe0 + n)).toNat = 0xe0 + n := toNat_ofNat_byte (by omega)
  have hbits : (0xe0 + n) &&& 0xf = n := by
    rw [Nat.and_two_pow_sub_one_eq_mod _ 4]
    omega
  simp only [leadByte, UInt8.lt_iff_toNat_lt, ← UInt8.toNat_inj, hbyte, hbits, secondOfThree]
  rw [if_neg (by simp; omega), if_neg (by simp; omega), if_neg (by simp),
    if_pos (by simp; omega)]
  have hsecond : 224 + n = 237 ↔ n = 13 := by omega
  simp [hsecond]

/-- The range of the second byte of four. -/
def secondOfFour (n : ℕ) : UInt8 × UInt8 :=
  if n = 0 then (0x90, 0xbf) else if n = 4 then (0x80, 0x8f) else (0x80, 0xbf)

theorem leadByte_four {n : ℕ} (hgreatest : n < 5) :
    leadByte (UInt8.ofNat (0xf0 + n)) =
      .inr ⟨n, [secondOfFour n, (0x80, 0xbf), (0x80, 0xbf)]⟩ := by
  have hbyte : (UInt8.ofNat (0xf0 + n)).toNat = 0xf0 + n := toNat_ofNat_byte (by omega)
  have hbits : (0xf0 + n) &&& 0x7 = n := by
    rw [Nat.and_two_pow_sub_one_eq_mod _ 3]
    omega
  simp only [leadByte, UInt8.lt_iff_toNat_lt, ← UInt8.toNat_inj, hbyte, hbits, secondOfFour]
  rw [if_neg (by simp; omega), if_neg (by simp; omega), if_neg (by simp; omega),
    if_neg (by simp), if_pos (by simp; omega)]
  have hsecond : 240 + n = 244 ↔ n = 4 := by omega
  simp [hsecond]

/-- A character is a scalar value. -/
theorem toNat_isValid (c : Char) :
    c.toNat < 0xd800 ∨ (0xdfff < c.toNat ∧ c.toNat < 0x110000) :=
  c.valid

theorem secondOfThree_range {v : ℕ} (hleast : 0x800 ≤ v) (hsurrogate : v < 0xd800 ∨ 0xdfff < v)
    (hgreatest : v < 0x10000) :
    (secondOfThree (v / 0x1000)).1.toNat ≤ 0x80 + v / 0x40 % 0x40 ∧
      0x80 + v / 0x40 % 0x40 ≤ (secondOfThree (v / 0x1000)).2.toNat := by
  unfold secondOfThree
  split
  · simp
    omega
  · split
    · simp
      omega
    · simp
      omega

theorem secondOfFour_range {v : ℕ} (hleast : 0x10000 ≤ v) (hgreatest : v < 0x110000) :
    (secondOfFour (v / 0x40000)).1.toNat ≤ 0x80 + v / 0x1000 % 0x40 ∧
      0x80 + v / 0x1000 % 0x40 ≤ (secondOfFour (v / 0x40000)).2.toNat := by
  unfold secondOfFour
  split
  · simp
    omega
  · split
    · simp
      omega
    · simp
      omega

/-- The decoder reads a character back from its bytes. -/
theorem decodeFrom_utf8 (c : Char) (rest : Bytes) :
    decodeFrom none (utf8 c ++ rest) = c :: decodeFrom none rest := by
  have hvalid := toNat_isValid c
  have hchar : Char.ofNat c.toNat = c := Char.ofNat_toNat c
  unfold utf8
  generalize c.toNat = v at hvalid hchar
  dsimp only
  split
  · rename_i hone
    simp only [List.cons_append, List.nil_append]
    rw [decodeFrom_none_cons, leadByte_one hone]
    simp only [hchar]
  split
  · rename_i hone htwo
    simp only [List.cons_append, List.nil_append]
    rw [decodeFrom_none_cons, leadByte_two (by omega) (by omega)]
    dsimp only
    rw [decodeFrom_last (by omega) (by simp) (by simp; omega)]
    have hbits : v / 0x40 * 64 + v % 0x40 = v := by omega
    rw [hbits, hchar]
  split
  · rename_i hone htwo hthree
    simp only [List.cons_append, List.nil_append]
    rw [decodeFrom_none_cons, leadByte_three (by omega)]
    dsimp only
    obtain ⟨hleast, hgreatest⟩ := secondOfThree_range (v := v) (by omega) (by omega) (by omega)
    rw [decodeFrom_more (by omega) hleast hgreatest (by simp),
      decodeFrom_last (by omega) (by simp) (by simp; omega)]
    have hbits : (v / 0x1000 * 64 + v / 0x40 % 0x40) * 64 + v % 0x40 = v := by omega
    rw [hbits, hchar]
  · rename_i hone htwo hthree
    simp only [List.cons_append, List.nil_append]
    rw [decodeFrom_none_cons, leadByte_four (by omega)]
    dsimp only
    obtain ⟨hleast, hgreatest⟩ := secondOfFour_range (v := v) (by omega) (by omega)
    rw [decodeFrom_more (by omega) hleast hgreatest (by simp),
      decodeFrom_more (by omega) (by simp) (by simp; omega) (by simp),
      decodeFrom_last (by omega) (by simp) (by simp; omega)]
    have hbits : ((v / 0x40000 * 64 + v / 0x1000 % 0x40) * 64 + v / 0x40 % 0x40) * 64 + v % 0x40 =
        v := by omega
    rw [hbits, hchar]

theorem decode_encodeText (text : Text) : decode (encodeText text) = text := by
  unfold decode encodeText
  induction text with
  | nil => rfl
  | cons c text ih => rw [List.flatMap_cons, decodeFrom_utf8, ih]

/-- Only NUL has a zero byte. -/
theorem zero_notMem_utf8 {c : Char} (hc : c ≠ Char.ofNat 0) : (0 : UInt8) ∉ utf8 c := by
  have hvalid := toNat_isValid c
  have hpos : c.toNat ≠ 0 := by
    intro hzero
    apply hc
    rw [← Char.ofNat_toNat c, hzero]
  unfold utf8
  generalize c.toNat = v at hvalid hpos
  dsimp only
  split <;> [skip; split <;> [skip; split]]
  all_goals
    simp only [List.mem_cons, List.not_mem_nil, or_false, ← UInt8.toNat_inj, UInt8.toNat_ofNat']
    simp
    omega

theorem zero_notMem_encodeText {text : Text} (h : NulFree text) :
    (0 : UInt8) ∉ encodeText text := by
  intro hmem
  obtain ⟨c, hc, hzero⟩ := List.mem_flatMap.mp hmem
  exact zero_notMem_utf8 (fun heq => h (heq ▸ hc)) hzero

/-! ## Numbers -/

/-- The groups of a number: seven bits a byte, the least significant first; every byte but the
last one has its high bit set. -/
inductive Groups : Bytes → ℕ → Prop
  | last {b : UInt8} : b.toNat < 128 → Groups [b] b.toNat
  | more {b : UInt8} {rest : Bytes} {value : ℕ} : 128 ≤ b.toNat → Groups rest value →
      Groups (b :: rest) (b.toNat % 128 + 128 * value)

/-- A ULEB128 field of at most ten bytes. -/
structure Uleb (bytes : Bytes) (value : ℕ) : Prop where
  groups : Groups bytes value
  length_le : bytes.length ≤ 10

/-! ## Positions -/

/-- These bytes stand at this position of the data. -/
def At (data : Bytes) (pos : ℕ) (bytes : Bytes) : Prop := bytes <+: data.drop pos

instance (data : Bytes) (pos : ℕ) (bytes : Bytes) : Decidable (At data pos bytes) :=
  inferInstanceAs (Decidable (bytes <+: data.drop pos))

theorem at_append {pos : ℕ} {first second : Bytes} :
    At data pos (first ++ second) ↔ At data pos first ∧ At data (pos + first.length) second := by
  unfold At
  constructor
  · rintro ⟨rest, hrest⟩
    constructor
    · exact ⟨second ++ rest, by rw [← hrest, List.append_assoc]⟩
    · refine ⟨rest, ?_⟩
      rw [← List.drop_drop, ← hrest, List.append_assoc, List.drop_left]
  · rintro ⟨⟨rest, hrest⟩, ⟨more, hmore⟩⟩
    rw [← List.drop_drop, ← hrest, List.drop_left] at hmore
    exact ⟨more, by rw [← hrest, List.append_assoc, hmore]⟩

theorem at_cons {pos : ℕ} {b : UInt8} {rest : Bytes} :
    At data pos (b :: rest) ↔ At data pos [b] ∧ At data (pos + 1) rest :=
  @at_append _ _ [b] _

theorem byteAt_of_at {pos : ℕ} {b : UInt8} (h : At data pos [b]) : byteAt data pos = .ok b := by
  obtain ⟨rest, hrest⟩ := h
  have hget : data[pos]? = some b := by
    rw [← List.head?_drop, ← hrest]
    rfl
  rw [byteAt, hget]

theorem continues_iff (b : UInt8) : b.toNat &&& 128 = 0 ↔ b.toNat < 128 := by
  have hbit : b.toNat &&& 2 ^ 7 = (b.toNat.testBit 7).toNat * 2 ^ 7 := Nat.and_two_pow b.toNat 7
  have hlt := b.toNat_lt
  rw [show 128 = 2 ^ 7 from rfl, hbit, Nat.testBit_eq_decide_div_mod_eq]
  by_cases hset : b.toNat / 2 ^ 7 % 2 = 1
  · simp only [hset, decide_true, Bool.toNat_true]
    omega
  · simp only [hset, decide_false, Bool.toNat_false]
    omega

theorem or_shiftLeft_of_lt {shift low : ℕ} (h : low < 2 ^ shift) (n : ℕ) :
    low ||| n <<< shift = low + 2 ^ shift * n := by
  rw [Nat.or_comm, Nat.shiftLeft_eq, Nat.mul_comm, ← Nat.two_pow_add_eq_or_of_lt h, Nat.add_comm]

/-- The rounds of the loop put the groups above the bits that there are. -/
theorem ulebRounds_of_at {bytes : Bytes} {value : ℕ} (h : Groups bytes value)
    {rounds shift low pos : ℕ} (hlength : bytes.length ≤ rounds) (hlow : low < 2 ^ shift)
    (hat : At data pos bytes) :
    ulebRounds data rounds shift low pos = .ok (low + 2 ^ shift * value, pos + bytes.length) := by
  induction h generalizing rounds shift low pos with
  | @last b hb =>
      cases rounds with
      | zero => simp at hlength
      | succ rounds =>
          have hbits : b.toNat &&& 127 = b.toNat := by
            rw [Nat.and_two_pow_sub_one_eq_mod _ 7]
            omega
          rw [ulebRounds, byteAt_of_at hat]
          simp only [bind, Except.bind, (continues_iff b).mpr hb, if_true, hbits,
            or_shiftLeft_of_lt hlow]
          rfl
  | @more b rest value hb _ ih =>
      cases rounds with
      | zero => simp at hlength
      | succ rounds =>
          obtain ⟨hbyte, hrest⟩ := at_cons.mp hat
          have hbits : b.toNat &&& 127 = b.toNat % 128 := Nat.and_two_pow_sub_one_eq_mod _ 7
          have hcontinues : ¬ b.toNat &&& 128 = 0 := by
            rw [continues_iff]
            omega
          have hbound : low + 2 ^ shift * (b.toNat % 128) < 2 ^ (shift + 7) := by
            have hgroup : b.toNat % 128 < 128 := Nat.mod_lt _ (by omega)
            rw [Nat.pow_add]
            calc low + 2 ^ shift * (b.toNat % 128)
                < 2 ^ shift * 1 + 2 ^ shift * (b.toNat % 128) := by omega
              _ = 2 ^ shift * (1 + b.toNat % 128) := by rw [Nat.mul_add]
              _ ≤ 2 ^ shift * 2 ^ 7 := Nat.mul_le_mul_left _ (by omega)
          rw [ulebRounds, byteAt_of_at hbyte]
          simp only [bind, Except.bind, hcontinues, if_false, hbits,
            or_shiftLeft_of_lt hlow]
          rw [ih (by simpa using hlength) hbound hrest]
          have hvalue : low + 2 ^ shift * (b.toNat % 128) + 2 ^ (shift + 7) * value =
              low + 2 ^ shift * (b.toNat % 128 + 128 * value) := by
            rw [Nat.pow_add, Nat.mul_add, Nat.mul_assoc, Nat.add_assoc]
          rw [hvalue, List.length_cons]
          congr 2
          omega

/-- A number is read back, and the position is the one after it. -/
theorem uleb_of_at {bytes : Bytes} {value pos : ℕ} (h : Uleb bytes value)
    (hat : At data pos bytes) : uleb data pos = .ok (value, pos + bytes.length) := by
  rw [uleb, ulebRounds_of_at h.groups h.length_le (by simp) hat]
  simp

theorem idxOf?_zero {bytes rest : Bytes} (h : (0 : UInt8) ∉ bytes) :
    (bytes ++ 0 :: rest).idxOf? 0 = some bytes.length := by
  induction bytes with
  | nil => simp [List.idxOf?_cons]
  | cons b bytes ih =>
      simp only [List.mem_cons, not_or] at h
      have hb : b ≠ 0 := fun heq => h.1 heq.symm
      simp [List.idxOf?_cons, hb, ih h.2]

/-- A text is read back, and the position is the one after its zero byte. -/
theorem cstr_of_at {text : Text} {pos : ℕ} (h : NulFree text)
    (hat : At data pos (encodeText text ++ [0])) :
    cstr data pos = .ok (text, pos + (encodeText text ++ [0]).length) := by
  obtain ⟨rest, hrest⟩ := hat
  rw [List.append_assoc, List.singleton_append] at hrest
  rw [cstr, ← hrest, idxOf?_zero (zero_notMem_encodeText h)]
  simp [decode_encodeText, Nat.add_assoc]

/-! ## Terminals -/

/-- The fields of a terminal in their order. -/
inductive EntryBytes : Entry → Bytes → Prop
  | regular {flags address : ℕ} {first second : Bytes} :
      flags &&& 8 = 0 → flags &&& 16 = 0 → Uleb first flags → Uleb second address →
      EntryBytes ⟨flags, .address address none⟩ (first ++ second)
  | resolver {flags address resolver : ℕ} {first second third : Bytes} :
      flags &&& 8 = 0 → flags &&& 16 ≠ 0 → Uleb first flags → Uleb second address →
      Uleb third resolver →
      EntryBytes ⟨flags, .address address (some resolver)⟩ (first ++ (second ++ third))
  | reexport {flags ordinal : ℕ} {importName : Text} {first second : Bytes} :
      flags &&& 8 ≠ 0 → Uleb first flags → Uleb second ordinal → NulFree importName →
      EntryBytes ⟨flags, .reexport ordinal importName⟩
        (first ++ (second ++ (encodeText importName ++ [0])))

/-- The terminal of a node: nothing, or the fields of its entry. -/
inductive TerminalBytes : Option Entry → Bytes → Prop
  | none : TerminalBytes none []
  | some {entry : Entry} {bytes : Bytes} : EntryBytes entry bytes →
      TerminalBytes (some entry) bytes

theorem entryAt_of_at {entry : Entry} {bytes : Bytes} {pos : ℕ} (h : EntryBytes entry bytes)
    (hat : At data pos bytes) : entryAt data pos = .ok (entry, pos + bytes.length) := by
  cases h with
  | regular hreexport hresolver hflags haddress =>
      obtain ⟨hfirst, hsecond⟩ := at_append.mp hat
      simp only [entryAt, uleb_of_at hflags hfirst, uleb_of_at haddress hsecond, bind, Except.bind,
        hreexport, hresolver]
      simp [pure, Except.pure, Nat.add_assoc]
  | resolver hreexport hresolver hflags haddress hthird =>
      obtain ⟨hfirst, hat⟩ := at_append.mp hat
      obtain ⟨hsecond, hat⟩ := at_append.mp hat
      simp only [entryAt, uleb_of_at hflags hfirst, uleb_of_at haddress hsecond,
        uleb_of_at hthird hat, bind, Except.bind, hreexport]
      simp [hresolver, pure, Except.pure, Nat.add_assoc]
  | reexport hreexport hflags hordinal hname =>
      obtain ⟨hfirst, hat⟩ := at_append.mp hat
      obtain ⟨hsecond, hat⟩ := at_append.mp hat
      simp only [entryAt, uleb_of_at hflags hfirst, uleb_of_at hordinal hsecond,
        cstr_of_at hname hat, bind, Except.bind]
      simp [hreexport, pure, Except.pure, Nat.add_assoc]

theorem EntryBytes.ne_nil {entry : Entry} {bytes : Bytes} (h : EntryBytes entry bytes) :
    bytes ≠ [] := by
  have hne : ∀ {field : Bytes} {value : ℕ}, Uleb field value → field ≠ [] := by
    intro field value hfield
    cases hfield.groups <;> simp
  cases h with
  | regular _ _ hflags _ => simp [hne hflags]
  | resolver _ _ hflags _ _ => simp [hne hflags]
  | reexport _ hflags _ _ => simp

/-- A terminal is read back where it ends. -/
theorem terminalAt_of_at {entry : Option Entry} {bytes : Bytes} {pos : ℕ}
    (h : TerminalBytes entry bytes) (hat : At data pos bytes) :
    terminalAt data bytes.length pos (pos + bytes.length) = .ok entry := by
  cases h with
  | none => rfl
  | some h =>
      have hlength : bytes.length ≠ 0 := by
        simpa using h.ne_nil
      rw [terminalAt, if_neg hlength, entryAt_of_at h hat]
      simp [bind, Except.bind, pure, Except.pure]

end ManicRoom.MachO
