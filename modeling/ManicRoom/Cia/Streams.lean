/-
# Reading from a stream

`Read` takes bytes from a `std::ifstream`, which has a position and flags that one `Read` leaves
to the next. It clears the flags and sets the position before it reads, so that what it answers
depends on the file alone: a stream that has come to its end answers like one that has just been
opened. This is why the importer's programs may take the stream to be nothing but its file.
-/

import ManicRoom.Cia.Rules

namespace ManicRoom.Cia

open ManicRoom.Foundation

/-- `std::ifstream`. Its `badbit` is for errors of the system, which are faults of the host. -/
structure InputStream where
  file : Stream
  position : ℕ
  eofbit : Bool
  failbit : Bool
  gcount : ℕ
  deriving DecidableEq, Repr

namespace InputStream

/-- `std::ifstream in(path, std::ios::binary)` -/
def opened (file : Stream) : InputStream where
  file := file
  position := 0
  eofbit := false
  failbit := file.isNone
  gcount := 0

def good (s : InputStream) : Bool := !s.eofbit && !s.failbit

def clear (s : InputStream) : InputStream := { s with eofbit := false, failbit := false }

/-- The end is forgotten first. A file that is not open has no positions, and no file has a
negative one. -/
def seekg (s : InputStream) (pos : ℤ) : InputStream :=
  let s := { s with eofbit := false }
  if s.failbit then s
  else if s.file.isSome ∧ 0 ≤ pos then { s with position := pos.toNat }
  else { s with failbit := true }

/-- The bytes that are taken, at most `n` and at most those up to the end. -/
def read (s : InputStream) (n : ℤ) : Bytes × InputStream :=
  let s := { s with gcount := 0 }
  if s.good then
    let bytes := slice (s.file.getD []) s.position n.toNat
    let s := { s with position := s.position + bytes.length, gcount := bytes.length }
    (bytes, if (bytes.length : ℤ) = n then s else { s with eofbit := true, failbit := true })
  else ([], { s with failbit := true })

/-- `static_cast<std::streamoff>(n)` and `static_cast<std::streamsize>(n)` -/
def signed (n : UInt64) : ℤ := n.toBitVec.toInt

/-- `Read(in, offset, size)`: the buffer, if the requirements are met, and the stream. -/
def readBlock (s : InputStream) (offset size : UInt64) : Option Bytes × InputStream :=
  let b := List.replicate size.toNat 0
  let (bytes, s) := (s.clear.seekg (signed offset)).read (signed size)
  let b := bytes ++ b.drop bytes.length
  if (s.good ∨ s.eofbit ∧ (s.gcount : ℤ) = signed size) ∧ (s.gcount : ℤ) = signed size then
    (some b, s)
  else (none, s)

section Lemmas

variable {s : InputStream} {offset size : UInt64}

theorem signed_of_lt {n : UInt64} (h : n.toNat < 2 ^ 63) : signed n = n.toNat := by
  have hn : n.toBitVec.toNat = n.toNat := rfl
  rw [signed, BitVec.toInt_eq_toNat_cond, hn, if_pos (by omega)]

theorem signed_of_le {n : UInt64} (h : 2 ^ 63 ≤ n.toNat) : signed n < 0 := by
  have hn : n.toBitVec.toNat = n.toNat := rfl
  have hlt := n.toNat_lt
  rw [signed, BitVec.toInt_eq_toNat_cond, hn, if_neg (by omega)]
  omega

@[simp]
theorem file_seekg (pos : ℤ) : (s.seekg pos).file = s.file := by
  unfold seekg
  dsimp only
  split
  · rfl
  · split <;> rfl

@[simp]
theorem file_read (n : ℤ) : (s.read n).2.file = s.file := by
  unfold read
  dsimp only
  split
  · split <;> rfl
  · rfl

/-- The file stays the same. -/
@[simp]
theorem file_readBlock : (s.readBlock offset size).2.file = s.file := by
  unfold readBlock
  dsimp only
  split <;> simp [clear]

/-- A position that there is, is where the bytes are taken from. -/
theorem clear_seekg (hfile : s.file.isSome) (hoffset : offset.toNat < 2 ^ 63) :
    s.clear.seekg (signed offset) = { s.clear with position := offset.toNat } := by
  simp [seekg, clear, signed_of_lt hoffset, hfile]

theorem clear_seekg_fails (h : ¬ (s.file.isSome ∧ offset.toNat < 2 ^ 63)) :
    s.clear.seekg (signed offset) = { s.clear with failbit := true } := by
  have hposition : ¬ (s.clear.file.isSome ∧ 0 ≤ signed offset) := fun ⟨hfile, hsigned⟩ =>
    h ⟨hfile, Nat.lt_of_not_le fun hle => Int.not_le.mpr (signed_of_le hle) hsigned⟩
  unfold seekg
  dsimp only
  rw [if_neg (by simp [clear]), if_neg hposition]
  rfl

/-- Nothing is taken from a stream that has failed. -/
theorem read_of_failbit (h : s.failbit = true) (n : ℤ) :
    s.read n = ([], { s with gcount := 0, failbit := true }) := by
  simp [read, good, h]

theorem length_slice_eq_iff (data : Bytes) (p n : ℕ) :
    (slice data p n).length = n ↔ n = 0 ∨ p + n ≤ data.length := by
  rw [slice, List.length_take, List.length_drop]
  omega

end Lemmas

/-- **What a `Read` answers** depends on the file alone. -/
theorem readBlock_eq (s : InputStream) {offset size : UInt64} (hsize : size.toNat < 2 ^ 63) :
    (s.readBlock offset size).1 =
      match s.file with
      | some data =>
          if offset.toNat < 2 ^ 63 ∧ (size = 0 ∨ offset.toNat + size.toNat ≤ data.length) then
            some (slice data offset.toNat size.toNat)
          else none
      | none => none := by
  by_cases h : s.file.isSome ∧ offset.toNat < 2 ^ 63
  · obtain ⟨data, hfile⟩ := Option.isSome_iff_exists.mp h.1
    have hcount := length_slice_eq_iff data offset.toNat size.toNat
    have hzero : size.toNat = 0 ↔ size = 0 := UInt64.toNat_inj (b := 0)
    rw [readBlock, clear_seekg h.1 h.2, signed_of_lt hsize]
    simp only [hfile, read, clear, good, h.2, true_and, ← hzero, ← hcount, Option.getD_some,
      Int.toNat_natCast, Nat.cast_inj, Bool.not_false, Bool.and_self, if_true]
    by_cases hall : (slice data offset.toNat size.toNat).length = size.toNat
    · simp [hall]
    · simp [hall]
  · rw [readBlock, clear_seekg_fails h, read_of_failbit rfl]
    cases hfile : s.file with
    | none => simp [good, clear]
    | some data =>
        have hoffset : ¬ offset.toNat < 2 ^ 63 := fun hlt => h ⟨by simp [hfile], hlt⟩
        simp only [hoffset, false_and, if_false]
        simp [good, clear]

/-- What is left of a stream after several reads. -/
def after (s : InputStream) (requests : List (UInt64 × UInt64)) : InputStream :=
  requests.foldl (fun s request => (s.readBlock request.1 request.2).2) s

theorem file_after (s : InputStream) (requests : List (UInt64 × UInt64)) :
    (s.after requests).file = s.file := by
  induction requests generalizing s with
  | nil => rfl
  | cons request requests ih => exact (ih _).trans file_readBlock

/-- **No read affects a later one**, not even one that has come to the end of the file. -/
theorem readBlock_after (s : InputStream) (requests : List (UInt64 × UInt64)) {offset size : UInt64}
    (hsize : size.toNat < 2 ^ 63) :
    ((s.after requests).readBlock offset size).1 = (s.readBlock offset size).1 := by
  rw [readBlock_eq _ hsize, readBlock_eq _ hsize, file_after]

/-- The importer's programs read from the file what a stream answers in any state. -/
theorem outcome_read (host : Host) (s : InputStream) {offset size : UInt64} (limit : UInt64)
    (hsize : size.toNat < 2 ^ 63) {w : World} (hfault : host.fault w.clock = none) :
    (Cia.read host s.file offset size limit).outcome w =
      ((s.readBlock offset size).1.elim (.error (.failure .invalidFile)) .ok,
        afterRead host offset size limit w) := by
  have hread : (Cia.read host s.file offset size limit).wp
      (fun bytes t =>
        (s.readBlock offset size).1 = some bytes ∧ t = afterRead host offset size limit w)
      (fun stop t => stop = .failure .invalidFile ∧ (s.readBlock offset size).1 = none ∧
        t = afterRead host offset size limit w) w := by
    apply wp_read
    · intro data ⟨hfile, hrange⟩
      rw [readBlock_eq s hsize, hfile]
      exact ⟨if_pos hrange, rfl⟩
    · intro stop _ hstop
      obtain ⟨hinvalid, hnone⟩ := hstop hfault
      refine ⟨hinvalid, ?_, rfl⟩
      rw [readBlock_eq s hsize]
      cases hfile : s.file with
      | none => rfl
      | some data => exact if_neg fun hrange => hnone ⟨data, hfile, hrange⟩
  obtain ⟨hdone, hstopped⟩ := Program.wp_iff_outcome.mp hread
  cases houtcome : (Cia.read host s.file offset size limit).outcome w with
  | mk result t =>
      cases result with
      | ok bytes =>
          obtain ⟨hbytes, rfl⟩ := hdone bytes t houtcome
          rw [hbytes]
          rfl
      | error stop =>
          obtain ⟨rfl, hnone, rfl⟩ := hstopped stop t houtcome
          rw [hnone]
          rfl

end InputStream

end ManicRoom.Cia
