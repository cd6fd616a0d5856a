/-
# The checks of join and host

The recognisers of `Request` are loops with counters and early returns. Here they are the
grammar that they stand for: four decimal numbers with dots between them, a nickname of
certain characters, bounded lengths. The loops are also written with the indices that the
source uses, where an access outside the string fails: they make none.
-/

import Mathlib.Data.List.Basic
import ManicRoom.Session.Request

namespace ManicRoom.Session

/-! ## Bounded -/

/-- What a `const char*` points to: nothing, or a text with a NUL after it and anything
behind that. -/
inductive Denotes : CString → Option Bytes → Prop
  | null : Denotes none none
  | text {text rest : Bytes} : 0 ∉ text → Denotes (some (text ++ 0 :: rest)) (some text)

theorem scanLength_eq {limit length : ℕ} {text rest : Bytes} (hnul : 0 ∉ text)
    (hlength : length ≤ limit + 1) :
    scanLength limit (text ++ 0 :: rest) length =
      min (length + text.length) (limit + 1) := by
  induction text generalizing length with
  | nil =>
      simp only [List.nil_append, scanLength, List.length_nil]
      simp
      omega
  | cons byte text ih =>
      simp only [List.mem_cons, not_or] at hnul
      have hbyte : byte ≠ 0 := fun heq => hnul.1 heq.symm
      simp only [List.cons_append, scanLength]
      by_cases hless : length ≤ limit
      · rw [if_pos ⟨hless, hbyte⟩, ih hnul.2 (by omega), List.length_cons]
        omega
      · rw [if_neg (fun h => hless h.1), List.length_cons]
        omega

/-- `Bounded` copies a text of at most this length. -/
theorem bounded_eq {value : CString} {text : Option Bytes} (h : Denotes value text) (limit : ℕ) :
    bounded value limit = text.filter (fun text => text.length ≤ limit) := by
  cases h with
  | null => rfl
  | @text text rest hnul =>
      simp only [bounded, @scanLength_eq _ _ _ rest hnul (Nat.zero_le _), Nat.zero_add]
      by_cases hlength : text.length ≤ limit
      · rw [if_neg (by omega), Nat.min_eq_left (by omega), List.take_left]
        simp [Option.filter, hlength]
      · rw [if_pos (by omega)]
        simp [Option.filter, hlength]

/-- The loop of `Bounded` on memory of which some is readable; `none` for an access to other
memory. -/
def boundedLength (memory : ℕ → Option UInt8) (limit length : ℕ) : Option ℕ :=
  if length ≤ limit then
    match memory length with
    | none => none
    | some byte => if byte ≠ 0 then boundedLength memory limit (length + 1) else some length
  else some length
termination_by limit + 1 - length

/-- `copy.assign(value, length)`, from this position on. -/
def copyFrom (memory : ℕ → Option UInt8) : ℕ → ℕ → Option Bytes
  | 0, _ => some []
  | length + 1, position =>
      match memory position with
      | none => none
      | some byte => (copyFrom memory length (position + 1)).map (byte :: ·)

/-- `Bounded(value, limit, copy)` on such memory. -/
def boundedIn (memory : ℕ → Option UInt8) (limit : ℕ) : Option (Option Bytes) :=
  match boundedLength memory limit 0 with
  | none => none
  | some length =>
      if length > limit then some none
      else (copyFrom memory length 0).map some

/-- The memory from the start of a text to its NUL or to the limit. -/
def readable (text : Bytes) (limit : ℕ) (position : ℕ) : Option UInt8 :=
  if position ≤ limit then (text ++ [0])[position]? else none

theorem readable_text {text : Bytes} {limit position : ℕ} (hposition : position < text.length)
    (hlimit : position ≤ limit) : readable text limit position = some text[position] := by
  rw [readable, if_pos hlimit, List.getElem?_append_left hposition, List.getElem?_eq_getElem]

theorem boundedLength_readable {text : Bytes} {limit length : ℕ} (hnul : 0 ∉ text)
    (hlength : length ≤ text.length) (hlimit : length ≤ limit + 1) :
    boundedLength (readable text limit) limit length = some (min text.length (limit + 1)) := by
  induction hleft : limit + 1 - length generalizing length with
  | zero =>
      rw [boundedLength, if_neg (by omega)]
      congr 1
      omega
  | succ left ih =>
      have hless : length ≤ limit := by omega
      rw [boundedLength, if_pos hless]
      by_cases hend : length = text.length
      · subst hend
        simp [readable, hless]
        omega
      · have hbefore : length < text.length := by omega
        have hbyte : text[length] ≠ 0 := fun heq => hnul (heq ▸ List.getElem_mem _)
        simp only [readable_text hbefore hless, if_pos hbyte]
        exact ih (by omega) (by omega) (by omega)

theorem copyFrom_readable {text : Bytes} {limit length position : ℕ}
    (htext : position + length ≤ text.length) (hlimit : position + length ≤ limit + 1) :
    copyFrom (readable text limit) length position =
      some ((text.drop position).take length) := by
  induction length generalizing position with
  | zero => simp [copyFrom]
  | succ length ih =>
      have hless : position < text.length := by omega
      rw [copyFrom, readable_text hless (by omega), ih (by omega) (by omega),
        List.drop_eq_getElem_cons hless, List.take_succ_cons]
      rfl

/-- **`Bounded` reads nothing behind the first NUL and nothing behind the limit.** -/
theorem boundedIn_readable {text rest : Bytes} (hnul : 0 ∉ text) (limit : ℕ) :
    boundedIn (readable text limit) limit = some (bounded (some (text ++ 0 :: rest)) limit) := by
  rw [bounded_eq (.text hnul), boundedIn,
    boundedLength_readable hnul (Nat.zero_le _) (Nat.zero_le _)]
  by_cases hlength : text.length ≤ limit
  · have hmin : min text.length (limit + 1) = text.length := by omega
    have hread : copyFrom (readable text limit) text.length 0 = some text := by
      rw [copyFrom_readable (by omega) (by omega)]
      simp
    simp only [hmin]
    rw [if_neg (by omega), hread]
    simp [Option.filter, hlength]
  · have hmin : min text.length (limit + 1) = limit + 1 := by omega
    simp only [hmin]
    rw [if_pos (by omega)]
    simp [Option.filter, hlength]

/-! ## IPv4 -/

/-- A decimal number without leading zeros. -/
def decimal (n : ℕ) : Bytes := (Nat.toDigits 10 n).map fun digit => digit.toNat.toUInt8

/-- The character of a digit. -/
def digit (n : ℕ) : UInt8 := UInt8.ofNat (48 + n)

theorem decimal_one : ∀ a < 10, decimal a = [digit a] := by decide

theorem decimal_two : ∀ a < 10, ∀ b < 10, a ≠ 0 →
    decimal (10 * a + b) = [digit a, digit b] := by decide

theorem decimal_three : ∀ a < 3, ∀ b < 10, ∀ c < 10, a ≠ 0 →
    decimal (100 * a + 10 * b + c) = [digit a, digit b, digit c] := by decide

theorem toNat_digit {n : ℕ} (h : n < 10) : (digit n).toNat = 48 + n := by
  simp [digit]
  omega

theorem isDigit_digit {n : ℕ} (h : n < 10) : isDigit (digit n) = true := by
  simp only [isDigit, Bool.and_eq_true, decide_eq_true_eq, UInt8.le_iff_toNat_le, toNat_digit h]
  simp
  omega

theorem exists_digit {byte : UInt8} (h : isDigit byte = true) : ∃ n < 10, byte = digit n := by
  simp only [isDigit, Bool.and_eq_true, decide_eq_true_eq, UInt8.le_iff_toNat_le] at h
  simp at h
  have hless : byte.toNat - 48 < 10 := by omega
  refine ⟨byte.toNat - 48, hless, ?_⟩
  rw [← UInt8.toNat_inj, toNat_digit hless]
  omega

theorem digit_zero_iff {n : ℕ} (h : n < 10) : digit n = 48 ↔ n = 0 := by
  rw [← UInt8.toNat_inj, toNat_digit h]
  simp

/-- Nothing follows, or something that is no digit. -/
def Stops (rest : Bytes) : Prop := ∀ byte, rest.head? = some byte → isDigit byte = false

theorem octet_stops {digits value : ℕ} {rest : Bytes} (h : Stops rest) :
    octet digits value rest = some (digits, rest) := by
  cases rest with
  | nil => rfl
  | cons byte rest => simp [octet, h byte rfl]

theorem octet_digit {digits value n : ℕ} {rest : Bytes} (h : n < 10) :
    octet digits value (digit n :: rest) =
      if digits + 1 > 3 ∨ value * 10 + n > 255 then none
      else octet (digits + 1) (value * 10 + n) rest := by
  simp only [octet, isDigit_digit h, if_true, toNat_digit h, Nat.add_sub_cancel_left]

/-- The number that digits stand for, behind a number. -/
def valueOf (value : ℕ) (digits : List ℕ) : ℕ :=
  digits.foldl (fun value digit => value * 10 + digit) value

/-- The inner loop takes at most three digits, and a number of at most 255. -/
theorem octet_ok {digits value count : ℕ} {ip rest : Bytes} (hdigits : digits ≤ 3)
    (hvalue : value ≤ 255) (h : octet digits value ip = some (count, rest)) :
    Stops rest ∧ ∃ taken : List ℕ, ip = taken.map digit ++ rest ∧ (∀ n ∈ taken, n < 10) ∧
      count = digits + taken.length ∧ count ≤ 3 ∧ valueOf value taken ≤ 255 := by
  induction ip generalizing digits value with
  | nil =>
      cases h
      exact ⟨nofun, [], rfl, nofun, rfl, hdigits, hvalue⟩
  | cons byte ip ih =>
      cases hbyte : isDigit byte with
      | false =>
          have hstops : Stops (byte :: ip) := by
            intro other hother
            cases hother
            exact hbyte
          rw [octet_stops hstops] at h
          cases h
          exact ⟨hstops, [], rfl, nofun, rfl, hdigits, hvalue⟩
      | true =>
          obtain ⟨n, hn, rfl⟩ := exists_digit hbyte
          rw [octet_digit hn] at h
          split at h
          · cases h
          · next hbounds =>
            obtain ⟨hstops, taken, rfl, htaken, hcount, hthree, hsum⟩ :=
              ih (by omega) (by omega) h
            refine ⟨hstops, n :: taken, rfl, ?_, ?_, hthree, hsum⟩
            · intro other hother
              rcases List.mem_cons.mp hother with rfl | hother
              · exact hn
              · exact htaken other hother
            · rw [List.length_cons]
              omega

/-- The characters of a number are one digit, or up to three of which the first is not zero. -/
inductive Octet : ℕ → Bytes → Prop
  | one {a : ℕ} : a < 10 → Octet a [digit a]
  | two {a b : ℕ} : a < 10 → b < 10 → a ≠ 0 → Octet (10 * a + b) [digit a, digit b]
  | three {a b c : ℕ} : a < 3 → b < 10 → c < 10 → a ≠ 0 → 100 * a + 10 * b + c ≤ 255 →
      Octet (100 * a + 10 * b + c) [digit a, digit b, digit c]

theorem octet_iff_decimal {n : ℕ} {text : Bytes} :
    Octet n text ↔ n ≤ 255 ∧ text = decimal n := by
  constructor
  · intro h
    cases h with
    | one ha => exact ⟨by omega, (decimal_one _ ha).symm⟩
    | two ha hb hzero => exact ⟨by omega, (decimal_two _ ha _ hb hzero).symm⟩
    | three ha hb hc hzero hbound =>
        exact ⟨hbound, (decimal_three _ ha _ hb _ hc hzero).symm⟩
  · rintro ⟨hbound, rfl⟩
    by_cases hone : n < 10
    · rw [decimal_one n hone]
      exact .one hone
    by_cases htwo : n < 100
    · have hsplit : 10 * (n / 10) + n % 10 = n := by omega
      rw [← hsplit, decimal_two (n / 10) (by omega) (n % 10) (by omega) (by omega)]
      exact .two (by omega) (by omega) (by omega)
    · have hsplit : 100 * (n / 100) + 10 * (n / 10 % 10) + n % 10 = n := by omega
      rw [← hsplit, decimal_three (n / 100) (by omega) (n / 10 % 10) (by omega) (n % 10)
        (by omega) (by omega)]
      exact .three (by omega) (by omega) (by omega) (by omega) (by omega)

/-- What is taken without a leading zero is a number from 0 to 255. -/
theorem octet_of_taken {taken : List ℕ} {rest : Bytes} (htaken : ∀ n ∈ taken, n < 10)
    (hthree : taken.length ≤ 3) (hvalue : valueOf 0 taken ≤ 255)
    (hleading : ¬ (taken.length = 0 ∨
      (taken.length > 1 ∧ (taken.map digit ++ rest).head? = some 48))) :
    ∃ n, Octet n (taken.map digit) := by
  match taken, hthree with
  | [], _ => simp at hleading
  | [a], _ => exact ⟨a, .one (htaken a (by simp))⟩
  | [a, b], _ =>
      have ha : a < 10 := htaken a (by simp)
      refine ⟨10 * a + b, .two ha (htaken b (by simp)) ?_⟩
      rintro rfl
      simp [digit_zero_iff] at hleading
  | [a, b, c], _ =>
      have ha : a < 10 := htaken a (by simp)
      have hb : b < 10 := htaken b (by simp)
      have hc : c < 10 := htaken c (by simp)
      have hsum : 100 * a + 10 * b + c ≤ 255 := by
        simp only [valueOf, List.foldl] at hvalue
        omega
      refine ⟨100 * a + 10 * b + c, .three (by omega) hb hc ?_ hsum⟩
      rintro rfl
      simp [digit_zero_iff] at hleading

theorem octet_of_octet {n : ℕ} {text rest : Bytes} (h : Octet n text) (hstops : Stops rest) :
    octet 0 0 (text ++ rest) = some (text.length, rest) ∧
      ¬ (text.length = 0 ∨ (text.length > 1 ∧ (text ++ rest).head? = some 48)) := by
  cases h with
  | one ha =>
      simp only [List.cons_append, List.nil_append]
      rw [octet_digit ha, if_neg (by omega), octet_stops hstops]
      simp
  | two ha hb hzero =>
      simp only [List.cons_append, List.nil_append]
      rw [octet_digit ha, if_neg (by omega), octet_digit hb, if_neg (by omega),
        octet_stops hstops]
      simp [digit_zero_iff ha, hzero]
  | three ha hb hc hzero hbound =>
      have ha' : _ < 10 := Nat.lt_of_lt_of_le ha (by omega)
      simp only [List.cons_append, List.nil_append]
      rw [octet_digit ha', if_neg (by omega), octet_digit hb, if_neg (by omega),
        octet_digit hc, if_neg (by omega), octet_stops hstops]
      simp [digit_zero_iff ha', hzero]

/-- One round of the outer loop takes a number from 0 to 255. -/
theorem octet_round {ip rest : Bytes} {count : ℕ} :
    (octet 0 0 ip = some (count, rest) ∧ ¬ (count = 0 ∨ (count > 1 ∧ ip.head? = some 48))) ↔
      Stops rest ∧ ∃ n ≤ 255, ip = decimal n ++ rest ∧ count = (decimal n).length := by
  constructor
  · rintro ⟨h, hleading⟩
    obtain ⟨hstops, taken, rfl, htaken, hcount, hthree, hvalue⟩ :=
      octet_ok (Nat.zero_le _) (Nat.zero_le _) h
    rw [Nat.zero_add] at hcount
    subst hcount
    obtain ⟨n, hn⟩ := octet_of_taken htaken hthree hvalue hleading
    obtain ⟨hbound, htext⟩ := octet_iff_decimal.mp hn
    refine ⟨hstops, n, hbound, by rw [htext], ?_⟩
    rw [← htext, List.length_map]
  · rintro ⟨hstops, n, hn, rfl, rfl⟩
    exact octet_of_octet (octet_iff_decimal.mpr ⟨hn, rfl⟩) hstops

theorem stops_dot (rest : Bytes) : Stops (46 :: rest) := by
  intro byte hbyte
  cases hbyte
  decide

/-- The last number is followed by nothing. -/
theorem octets_last {ip : Bytes} : octets 1 ip = some [] ↔ ∃ n ≤ 255, ip = decimal n := by
  have hstops : Stops [] := nofun
  constructor
  · intro h
    rw [octets] at h
    split at h
    · cases h
    · next count rest hoctet =>
      split at h
      · cases h
      · next hleading =>
        simp only [if_true, Option.some.injEq] at h
        subst h
        obtain ⟨-, n, hn, hip, -⟩ := octet_round.mp ⟨hoctet, hleading⟩
        exact ⟨n, hn, by simpa using hip⟩
  · rintro ⟨n, hn, rfl⟩
    obtain ⟨hoctet, hleading⟩ :=
      octet_round.mpr ⟨hstops, n, hn, (List.append_nil _).symm, rfl⟩
    simp only [octets, hoctet, if_neg hleading, if_true]

/-- The other numbers are followed by a dot. -/
theorem octets_more {parts : ℕ} {ip : Bytes} : octets (parts + 2) ip = some [] ↔
    ∃ n ≤ 255, ∃ rest, ip = decimal n ++ 46 :: rest ∧ octets (parts + 1) rest = some [] := by
  constructor
  · intro h
    rw [octets] at h
    split at h
    · cases h
    · next count rest hoctet =>
      split at h
      · cases h
      · next hleading =>
        rw [if_neg (Nat.succ_ne_zero parts)] at h
        split at h
        · next rest =>
          obtain ⟨-, n, hn, hip, -⟩ := octet_round.mp ⟨hoctet, hleading⟩
          exact ⟨n, hn, rest, hip, h⟩
        · cases h
  · rintro ⟨n, hn, rest, rfl, hrest⟩
    obtain ⟨hoctet, hleading⟩ :=
      octet_round.mpr ⟨stops_dot rest, n, hn, rfl, rfl⟩
    rw [octets, hoctet]
    simp only [if_neg hleading]
    simpa using hrest

/-- Four numbers with dots between them. -/
def dotted (a b c d : ℕ) : Bytes :=
  decimal a ++ 46 :: (decimal b ++ 46 :: (decimal c ++ 46 :: decimal d))

/-- The addresses that are accepted. -/
structure ValidAddress (text : Bytes) : Prop where
  numbers : ∃ a ≤ 255, ∃ b ≤ 255, ∃ c ≤ 255, ∃ d ≤ 255, text = dotted a b c d
  notZero : text ≠ ascii "0.0.0.0"
  notBroadcast : text ≠ ascii "255.255.255.255"

theorem ipv4_iff {text : Bytes} : ipv4 text = true ↔ ValidAddress text := by
  have hdotted : octets 4 text = some [] ↔
      ∃ a ≤ 255, ∃ b ≤ 255, ∃ c ≤ 255, ∃ d ≤ 255, text = dotted a b c d := by
    constructor
    · intro h
      obtain ⟨a, ha, first, rfl, hfirst⟩ := octets_more.mp h
      obtain ⟨b, hb, second, rfl, hsecond⟩ := octets_more.mp hfirst
      obtain ⟨c, hc, third, rfl, hthird⟩ := octets_more.mp hsecond
      obtain ⟨d, hd, rfl⟩ := octets_last.mp hthird
      exact ⟨a, ha, b, hb, c, hc, d, hd, rfl⟩
    · rintro ⟨a, ha, b, hb, c, hc, d, hd, rfl⟩
      refine octets_more.mpr ⟨a, ha, _, rfl, ?_⟩
      refine octets_more.mpr ⟨b, hb, _, rfl, ?_⟩
      refine octets_more.mpr ⟨c, hc, _, rfl, ?_⟩
      exact octets_last.mpr ⟨d, hd, rfl⟩
  simp only [ipv4, Bool.and_eq_true, decide_eq_true_eq, bne_iff_ne]
  constructor
  · rintro ⟨⟨h, hzero⟩, hbroadcast⟩
    exact ⟨hdotted.mp h, hzero, hbroadcast⟩
  · rintro ⟨h, hzero, hbroadcast⟩
    exact ⟨⟨hdotted.mpr h, hzero⟩, hbroadcast⟩

theorem decimal_length {n : ℕ} (h : n ≤ 255) : (decimal n).length ≤ 3 := by
  generalize htext : decimal n = text
  have hoctet : Octet n text := octet_iff_decimal.mpr ⟨h, htext.symm⟩
  cases hoctet <;> simp

/-- An address fits into the bound of its copy. -/
theorem ValidAddress.length_le {text : Bytes} (h : ValidAddress text) : text.length ≤ 15 := by
  obtain ⟨a, ha, b, hb, c, hc, d, hd, rfl⟩ := h.numbers
  have ha := decimal_length ha
  have hb := decimal_length hb
  have hc := decimal_length hc
  have hd := decimal_length hd
  simp only [dotted, List.length_append, List.length_cons]
  omega

/-! ## IPv4 with its indices -/

/-- The inner loop of `IPv4` at an index: where it stops, or `none` where it returns false.
The outer `none` is an access outside the string. -/
def digitsAt (ip : Bytes) (begin pos value : ℕ) : Option (Option ℕ) :=
  if pos < ip.length then
    match ip[pos]? with
    | none => none
    | some byte =>
        if isDigit byte then
          let value := value * 10 + (byte.toNat - 48)
          if pos + 1 - begin > 3 ∨ value > 255 then some none
          else digitsAt ip begin (pos + 1) value
        else some (some pos)
  else some (some pos)
termination_by ip.length - pos

/-- `pos - begin > 1 && ip[begin] == '0'` -/
def leadingZeroAt (ip : Bytes) (begin pos : ℕ) : Option Bool :=
  if pos - begin > 1 then (ip[begin]?).map (· = 48) else some false

/-- The outer loop of `IPv4` at an index, with this many parts to go. -/
def partsAt (ip : Bytes) : ℕ → ℕ → Option (Option ℕ)
  | 0, pos => some (some pos)
  | parts + 1, begin =>
      match digitsAt ip begin begin 0 with
      | none => none
      | some none => some none
      | some (some pos) =>
          if pos = begin then some none
          else
            match leadingZeroAt ip begin pos with
            | none => none
            | some true => some none
            | some false =>
                if parts = 0 then some (some pos)
                else if pos ≥ ip.length then some none
                else
                  match ip[pos]? with
                  | none => none
                  | some byte => if byte ≠ 46 then some none else partsAt ip parts (pos + 1)

/-- `IPv4(ip)` with its indices. -/
def ipv4At (ip : Bytes) : Option Bool :=
  match partsAt ip 4 0 with
  | none => none
  | some none => some false
  | some (some pos) =>
      some (pos = ip.length && ip != ascii "0.0.0.0" && ip != ascii "255.255.255.255")

/-- The index that stands for what follows. -/
def indexOf (ip rest : Bytes) : ℕ := ip.length - rest.length

theorem digitsAt_eq {ip : Bytes} {begin pos value : ℕ} (hbegin : begin ≤ pos)
    (hpos : pos ≤ ip.length) :
    digitsAt ip begin pos value =
      some ((octet (pos - begin) value (ip.drop pos)).map fun taken => begin + taken.1) ∧
    ∀ count rest, octet (pos - begin) value (ip.drop pos) = some (count, rest) →
      pos ≤ begin + count ∧ begin + count ≤ ip.length ∧ rest = ip.drop (begin + count) := by
  induction hleft : ip.length - pos generalizing pos value with
  | zero =>
      have hend : pos = ip.length := by omega
      subst hend
      rw [digitsAt, if_neg (by omega), List.drop_length]
      refine ⟨?_, ?_⟩
      · simp [octet]
        omega
      · intro count rest h
        cases h
        have hcount : begin + (ip.length - begin) = ip.length := by omega
        simp [hcount]
  | succ left ih =>
      have hless : pos < ip.length := by omega
      rw [digitsAt, if_pos hless, List.getElem?_eq_getElem hless,
        List.drop_eq_getElem_cons hless]
      have hdigits : pos - begin + 1 = pos + 1 - begin := by omega
      simp only [octet]
      cases hdigit : isDigit ip[pos] with
      | false =>
          have hcount : begin + (pos - begin) = pos := by omega
          refine ⟨by simp [hcount], ?_⟩
          intro count rest h
          cases h
          rw [hcount, List.drop_eq_getElem_cons hless]
          exact ⟨Nat.le_refl _, hpos, rfl⟩
      | true =>
          simp only [if_true, hdigits]
          split
          · exact ⟨rfl, nofun⟩
          · obtain ⟨heq, hrest⟩ := @ih (pos + 1) (value * 10 + (ip[pos].toNat - 48))
              (by omega) (by omega) (by omega)
            refine ⟨heq, ?_⟩
            intro count rest h
            obtain ⟨hle, hbound, hdrop⟩ := hrest count rest h
            exact ⟨by omega, hbound, hdrop⟩

theorem leadingZeroAt_eq {ip : Bytes} {begin pos : ℕ} (hpos : pos ≤ ip.length) :
    leadingZeroAt ip begin pos =
      some (decide (pos - begin > 1 ∧ (ip.drop begin).head? = some 48)) := by
  rw [leadingZeroAt]
  split
  · next hlong =>
    have hless : begin < ip.length := by omega
    rw [List.getElem?_eq_getElem hless, List.head?_drop, List.getElem?_eq_getElem hless]
    simp [hlong]
  · next hlong => simp [hlong]

theorem indexOf_drop {ip : Bytes} {pos : ℕ} (h : pos ≤ ip.length) :
    indexOf ip (ip.drop pos) = pos := by
  rw [indexOf, List.length_drop]
  omega

theorem octets_next {parts count : ℕ} {ip rest : Bytes} {byte : UInt8} (hparts : parts ≠ 0)
    (hoctet : octet 0 0 ip = some (count, byte :: rest))
    (hleading : ¬ (count = 0 ∨ (count > 1 ∧ ip.head? = some 48))) :
    octets (parts + 1) ip = if byte = 46 then octets parts rest else none := by
  rw [octets, hoctet]
  simp only [if_neg hleading, if_neg hparts]
  split
  · next heq =>
    cases heq
    rfl
  · next hother =>
    rw [if_neg]
    rintro rfl
    exact hother rest rfl

/-- The rounds of the outer loop at an index are those on what follows it. -/
theorem partsAt_eq {ip : Bytes} {parts begin : ℕ} (hbegin : begin ≤ ip.length) :
    partsAt ip parts begin = some ((octets parts (ip.drop begin)).map (indexOf ip)) ∧
    ∀ rest, octets parts (ip.drop begin) = some rest → rest.length ≤ ip.length := by
  induction parts generalizing begin with
  | zero =>
      refine ⟨?_, ?_⟩
      · simp [partsAt, octets, indexOf_drop hbegin]
      · intro rest h
        cases h
        simp
  | succ parts ih =>
      obtain ⟨hdigits, hrest⟩ := @digitsAt_eq ip begin begin 0 (Nat.le_refl begin) hbegin
      rw [Nat.sub_self] at hdigits hrest
      rw [partsAt, hdigits]
      cases hoctet : octet 0 0 (ip.drop begin) with
      | none =>
          rw [octets, hoctet]
          exact ⟨rfl, nofun⟩
      | some taken =>
          obtain ⟨count, rest⟩ := taken
          obtain ⟨-, hbound, rfl⟩ := hrest count rest hoctet
          simp only [Option.map_some, leadingZeroAt_eq hbound, Nat.add_sub_cancel_left]
          by_cases hzero : count = 0
          · rw [octets, hoctet]
            simp [hzero]
          by_cases hleading : count > 1 ∧ (ip.drop begin).head? = some 48
          · rw [octets, hoctet]
            simp [hzero, hleading]
          have hpassed : ¬ (count = 0 ∨ (count > 1 ∧ (ip.drop begin).head? = some 48)) := by
            rintro (h | h)
            · exact hzero h
            · exact hleading h
          have hmoved : ¬ begin + count = begin := by omega
          simp only [if_neg hmoved, hleading, decide_false]
          by_cases hlast : parts = 0
          · rw [octets, hoctet]
            simp only [if_pos hlast, if_neg hpassed, Option.map_some, indexOf_drop hbound,
              true_and]
            intro rest h
            cases h
            simp
          rw [if_neg hlast]
          by_cases hend : begin + count ≥ ip.length
          · have hnil : ip.drop (begin + count) = [] := List.drop_eq_nil_of_le hend
            rw [octets, hoctet, hnil]
            simp [hend, hlast, hzero]
          have hless : begin + count < ip.length := by omega
          rw [List.drop_eq_getElem_cons hless] at hoctet
          rw [if_neg hend, List.getElem?_eq_getElem hless, octets_next hlast hoctet hpassed]
          by_cases hdot : ip[begin + count] = 46
          · simp only [hdot, ne_eq, not_true_eq_false, if_false, if_true]
            exact ih hless
          · simp [hdot]

/-- **`IPv4` never indexes outside the string**, and with its indices it is the same. -/
theorem ipv4At_eq (ip : Bytes) : ipv4At ip = some (ipv4 ip) := by
  obtain ⟨hparts, hrest⟩ := @partsAt_eq ip 4 0 (Nat.zero_le _)
  rw [List.drop_zero] at hparts hrest
  rw [ipv4At, hparts, ipv4]
  cases hoctets : octets 4 ip with
  | none => simp
  | some rest =>
      have hlength := hrest rest hoctets
      have hend : indexOf ip rest = ip.length ↔ rest = [] := by
        rw [indexOf, ← List.length_eq_zero_iff]
        omega
      simp [hend]

/-! ## The arguments as a whole -/

/-- `[A-Za-z0-9._ -]` -/
def NicknameByte (byte : UInt8) : Prop :=
  (65 ≤ byte ∧ byte ≤ 90) ∨ (97 ≤ byte ∧ byte ≤ 122) ∨ (48 ≤ byte ∧ byte ≤ 57) ∨
    byte = 46 ∨ byte = 95 ∨ byte = 32 ∨ byte = 45

instance (byte : UInt8) : Decidable (NicknameByte byte) := by
  unfold NicknameByte
  infer_instance

theorem nicknameCharacters_contains (byte : UInt8) :
    nicknameCharacters.contains byte = true ↔ NicknameByte byte := by
  have hall : ∀ n < 256, nicknameCharacters.contains (UInt8.ofNat n) = true ↔
      NicknameByte (UInt8.ofNat n) := by decide +kernel
  simpa using hall byte.toNat byte.toNat_lt

/-- The nicknames that are accepted. -/
structure ValidNickname (text : Bytes) : Prop where
  least : 4 ≤ text.length
  greatest : text.length ≤ 20
  bytes : ∀ byte ∈ text, NicknameByte byte

/-- The passwords that are accepted. -/
def ValidSecret (text : Bytes) : Prop := text.length ≤ 128

/-- There is a text, and it is valid. -/
def Accepts (valid : Bytes → Prop) (text : Option Bytes) : Prop :=
  ∃ found, text = some found ∧ valid found

theorem address_iff {address : CString} {text : Option Bytes} (h : Denotes address text) :
    (∃ ip, bounded address 15 = some ip ∧ ipv4 ip = true) ↔ Accepts ValidAddress text := by
  simp only [bounded_eq h, Option.filter_eq_some_iff, decide_eq_true_eq, ipv4_iff, Accepts]
  constructor
  · rintro ⟨ip, ⟨htext, -⟩, hvalid⟩
    exact ⟨ip, htext, hvalid⟩
  · rintro ⟨ip, htext, hvalid⟩
    exact ⟨ip, ⟨htext, hvalid.length_le⟩, hvalid⟩

theorem nickname_iff {nickname : CString} {text : Option Bytes} (h : Denotes nickname text) :
    (∃ nick, checkNickname nickname = some nick) ↔ Accepts ValidNickname text := by
  rw [checkNickname, bounded_eq h]
  cases text with
  | none => simp [Accepts]
  | some text =>
      simp only [Option.filter, decide_eq_true_eq]
      constructor
      · intro hnick
        obtain ⟨nick, hnick⟩ := hnick
        by_cases hlength : text.length ≤ 20
        · simp only [if_pos hlength] at hnick
          split at hnick
          · cases hnick
          · next hchecks =>
            obtain ⟨hleast, hbytes⟩ := not_or.mp hchecks
            refine ⟨text, rfl, by omega, hlength, ?_⟩
            intro byte hbyte
            have hall := List.all_eq_true.mp (Decidable.not_not.mp hbytes) byte hbyte
            exact (nicknameCharacters_contains byte).mp hall
        · simp [if_neg hlength] at hnick
      · rintro ⟨found, hfound, hvalid⟩
        cases hfound
        refine ⟨text, ?_⟩
        have hall : text.all (nicknameCharacters.contains ·) = true := by
          rw [List.all_eq_true]
          intro byte hbyte
          exact (nicknameCharacters_contains byte).mpr (hvalid.bytes byte hbyte)
        simp only [if_pos hvalid.greatest]
        rw [if_neg]
        rintro (hleast | hbytes)
        · have := hvalid.least
          omega
        · exact hbytes hall

theorem secret_iff {secret : CString} {text : Option Bytes} (h : Denotes secret text) :
    (∃ password, bounded secret 128 = some password) ↔ Accepts ValidSecret text := by
  simp only [bounded_eq h, Option.filter_eq_some_iff, decide_eq_true_eq, Accepts, ValidSecret]

theorem port_iff {port : UInt32} :
    (∃ checked, checkPort port = some checked) ↔ 1 ≤ port.toNat ∧ port.toNat ≤ 65535 := by
  simp only [checkPort]
  split
  · next hport =>
    simp only [UInt32.lt_iff_toNat_lt, gt_iff_lt] at hport
    simp at hport ⊢
    omega
  · next hport =>
    simp only [UInt32.lt_iff_toNat_lt, gt_iff_lt] at hport
    simp at hport ⊢
    omega

/-- **`join` refuses exactly the arguments that are not documented.** -/
theorem check_join_iff {address nickname secret : CString} {port : UInt32}
    {addressText nicknameText secretText : Option Bytes} (haddress : Denotes address addressText)
    (hnickname : Denotes nickname nicknameText) (hsecret : Denotes secret secretText) :
    (Request.join address port nickname secret).check = none ↔
      ¬ (Accepts ValidAddress addressText ∧ (1 ≤ port.toNat ∧ port.toNat ≤ 65535) ∧
        Accepts ValidNickname nicknameText ∧ Accepts ValidSecret secretText) := by
  rw [← address_iff haddress, ← port_iff, ← nickname_iff hnickname, ← secret_iff hsecret]
  rw [← not_iff_not, not_not, ← ne_eq, Option.ne_none_iff_exists']
  simp only [Request.check, Option.bind_eq_bind, Option.bind_eq_some_iff]
  constructor
  · rintro ⟨accepted, ip, hip, h⟩
    split at h
    · next hvalid =>
      simp only [Option.bind_eq_some_iff] at h
      obtain ⟨checked, hchecked, nick, hnick, password, hpassword, -⟩ := h
      exact ⟨⟨ip, hip, hvalid⟩, ⟨checked, hchecked⟩, ⟨nick, hnick⟩, password, hpassword⟩
    · cases h
  · rintro ⟨⟨ip, hip, hvalid⟩, ⟨checked, hchecked⟩, ⟨nick, hnick⟩, password, hpassword⟩
    refine ⟨⟨ip, checked, nick, password, false⟩, ip, hip, ?_⟩
    simp [hvalid, hchecked, hnick, hpassword]

/-- `host` does the same without an address. -/
theorem check_host_iff {nickname secret : CString} {port : UInt32}
    {nicknameText secretText : Option Bytes}
    (hnickname : Denotes nickname nicknameText) (hsecret : Denotes secret secretText) :
    (Request.host port nickname secret).check = none ↔
      ¬ ((1 ≤ port.toNat ∧ port.toNat ≤ 65535) ∧
        Accepts ValidNickname nicknameText ∧ Accepts ValidSecret secretText) := by
  rw [← port_iff, ← nickname_iff hnickname, ← secret_iff hsecret]
  rw [← not_iff_not, not_not, ← ne_eq, Option.ne_none_iff_exists']
  simp only [Request.check, Option.bind_eq_bind, Option.bind_eq_some_iff]
  constructor
  · rintro ⟨accepted, checked, hchecked, nick, hnick, password, hpassword, -⟩
    exact ⟨⟨checked, hchecked⟩, ⟨nick, hnick⟩, password, hpassword⟩
  · rintro ⟨⟨checked, hchecked⟩, ⟨nick, hnick⟩, password, hpassword⟩
    exact ⟨_, checked, hchecked, nick, hnick, password, hpassword, rfl⟩

end ManicRoom.Session
