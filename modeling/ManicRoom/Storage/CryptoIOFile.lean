/-
# Encrypted files as plain files

To its users a `CryptoIOFile` is to be an `IOFile` with the contents in the clear. It is one as
long as the ciphers stand where the file does. A read that ends within an element, a write that
is not taken whole or leaves a gap, a seek after an error and a `ReadAt` that is followed by a
`Read` break this; otherwise every answer is that of the plain file, and where the C library
leaves the plain file open it leaves the encrypted one open too.
-/

import ManicRoom.Storage.IOFile

namespace ManicRoom.Storage

open ManicRoom.Foundation

/-! ## What users do with a file -/

/-- The operations on an open file. -/
inductive FileOp
  | read (length dataSize : ℕ)
  | readAt (byteCount offset : ℕ)
  | write (length dataSize : ℕ) (data : List UInt8) (taken : ℕ)
  | seek (off : ℤ) (origin : SeekOrigin)

/-- What an operation answers. -/
inductive FileAnswer
  | read (res : Option ℕ) (data : List UInt8)
  | wrote (res : Option ℕ)
  | done (res : Bool)
  deriving DecidableEq

/-- An operation on a plain file. -/
def IOFile.step (f : IOFile) : FileOp → Option (IOFile × FileAnswer)
  | .read length dataSize =>
      (f.readImpl length dataSize).map fun (f', res, data) => (f', .read res data)
  | .readAt byteCount offset =>
      (f.readAtImpl byteCount offset).map fun (f', res, data) => (f', .read res data)
  | .write length dataSize data taken =>
      (f.writeImpl length dataSize data taken).map fun (f', res) => (f', .wrote res)
  | .seek off origin =>
      let (f', res) := f.seekImpl off origin
      some (f', .done res)

/-- The same operation on an encrypted file. -/
def CryptoIOFile.step (stream : ℕ → UInt8) (f : CryptoIOFile) :
    FileOp → Option (CryptoIOFile × FileAnswer)
  | .read length dataSize =>
      (f.readImpl stream length dataSize).map fun (f', res, data) => (f', .read res data)
  | .readAt byteCount offset =>
      (f.readAtImpl stream byteCount offset).map fun (f', res, data) => (f', .read res data)
  | .write length dataSize data taken =>
      (f.writeImpl stream length dataSize data taken).map fun (f', res) => (f', .wrote res)
  | .seek off origin =>
      let (f', res) := f.seekImpl off origin
      some (f', .done res)

/-- Operations one after the other, and their answers, unless one is left open. -/
def runOps {File : Type} (step : File → FileOp → Option (File × FileAnswer)) (f : File) :
    List FileOp → Option (File × List FileAnswer)
  | [] => some (f, [])
  | op :: ops =>
      match step f op with
      | none => none
      | some (f', answer) =>
          (runOps step f' ops).map fun (last, answers) => (last, answer :: answers)

/-! ## The plain file behind an encrypted one -/

/-- The file with its contents decrypted. -/
def CryptoIOFile.plain (stream : ℕ → UInt8) (f : CryptoIOFile) : IOFile where
  file := f.file.file.map fun file => { file with bytes := mask stream 0 file.bytes }
  good := f.file.good

/-- The ciphers stand where the file does. Once a `ReadAt` has moved it, `d` need not. -/
structure CryptoIOFile.Aligned (f : CryptoIOFile) (moved : Bool) : Prop where
  e : ∀ file, f.file.file = some file → f.e = file.position
  d : moved = false → ∀ file, f.file.file = some file → f.d = file.position

/-- Whether `d` was moved away by a `ReadAt` and not moved back by a later operation. -/
def IOFile.movesCipher (f : IOFile) (moved : Bool) : FileOp → Bool
  | .read _ _ => moved
  | .readAt byteCount offset =>
      moved || (f.readAtImpl byteCount offset).any fun (_, res, _) => res.any (decide <| · ≠ 0)
  | .write length _ _ _ => moved && decide (length = 0)
  | .seek off origin => moved && !(f.seekImpl off origin).2

/-- The plain file takes the operation as an encrypted one does: a read ends with a whole element
and does not follow a `ReadAt`, a write is taken whole and leaves no gap, and a seek that succeeds
follows no error. -/
def IOFile.Suits (f : IOFile) (moved : Bool) : FileOp → Prop
  | .read length dataSize =>
      moved = false ∧ 0 < dataSize ∧ ∀ file, f.file = some file →
        (file.bytesAt file.position (length * dataSize)).length % dataSize = 0
  | .readAt _ _ => True
  | .write length dataSize data taken =>
      0 < dataSize ∧ data.length = length * dataSize ∧ data.length ≤ taken ∧
        ∀ file, f.file = some file → file.position ≤ file.bytes.length
  | .seek off origin =>
      f.good = true ∨ ∀ file, f.file = some file → file.seekTarget off origin = none

/-- Every operation of a run suits the file when it comes. -/
def IOFile.SuitsAll (f : IOFile) (moved : Bool) : List FileOp → Prop
  | [] => True
  | op :: ops => f.Suits moved op ∧
      ∀ f' answer, f.step op = some (f', answer) → f'.SuitsAll (f.movesCipher moved op) ops

variable {stream : ℕ → UInt8} {f : CryptoIOFile} {moved : Bool}

theorem bytesAt_mask (file : OpenFile) (place count : ℕ) :
    ({ file with bytes := mask stream 0 file.bytes } : OpenFile).bytesAt place count =
      mask stream place (file.bytesAt place count) := by
  simp only [OpenFile.bytesAt, mask_take]
  rw [← mask_drop, Nat.zero_add]

theorem mask_overwrite {bytes data : List UInt8} {place : ℕ} (h : place ≤ bytes.length) :
    mask stream 0 (overwrite bytes place (mask stream place data)) =
      overwrite (mask stream 0 bytes) place data := by
  have hlength : (bytes.take place).length = place := List.length_take_of_le h
  unfold overwrite
  by_cases hdata : data = []
  · simp [hdata]
  · have hmasked : mask stream place data ≠ [] := by
      rwa [Ne, ← List.length_eq_zero_iff, length_mask, List.length_eq_zero_iff]
    have hdrop : mask stream (0 + (place + data.length)) (bytes.drop (place + data.length)) =
        (mask stream 0 bytes).drop (place + data.length) := mask_drop ..
    rw [if_neg hdata, if_neg hmasked, length_mask, length_mask, Nat.sub_eq_zero_of_le h,
      List.replicate_zero, List.append_nil, List.append_nil, mask_append, mask_append,
      List.length_append, hlength, length_mask, Nat.zero_add, mask_mask, mask_take, ← hdrop]

/-- An encrypted file does with an operation that suits it what the plain file does. -/
structure Simulates (stream : ℕ → UInt8) (f : CryptoIOFile) (moved : Bool) (op : FileOp) :
    Prop where
  plain : (f.step stream op).map (fun (f', answer) => (f'.plain stream, answer)) =
    (f.plain stream).step op
  aligned : ∀ f' answer, f.step stream op = some (f', answer) →
    f'.Aligned ((f.plain stream).movesCipher moved op)

theorem simulates_read {length dataSize : ℕ} (ha : f.Aligned moved)
    (hsuits : (f.plain stream).Suits moved (.read length dataSize)) :
    Simulates stream f moved (.read length dataSize) := by
  obtain ⟨rfl, hpos, hwhole⟩ := hsuits
  obtain ⟨⟨file, good⟩, d, e⟩ := f
  cases file with
  | none => exact ⟨rfl, by rintro _ _ ⟨⟩; exact ⟨by rintro _ ⟨⟩, by rintro _ _ ⟨⟩⟩⟩
  | some file =>
      obtain rfl : d = file.position := ha.d rfl file rfl
      obtain rfl : e = file.position := ha.e file rfl
      by_cases hlength : length = 0
      · subst hlength
        exact ⟨rfl, by rintro _ _ ⟨⟩; exact ⟨by rintro _ ⟨⟩; rfl, by rintro _ _ ⟨⟩; rfl⟩⟩
      · by_cases hlast : file.last = some .writing
        · have hnone : CryptoIOFile.step stream ⟨⟨some file, good⟩, file.position, file.position⟩
              (.read length dataSize) = none := by
            simp [CryptoIOFile.step, CryptoIOFile.readImpl, IOFile.readImpl, hlength, hlast]
          refine ⟨?_, fun f' answer h => by rw [hnone] at h; cases h⟩
          rw [hnone]
          simp [IOFile.step, IOFile.readImpl, CryptoIOFile.plain, hlength, hlast]
        have hwhole := hwhole _ rfl
        simp only [bytesAt_mask, length_mask] at hwhole
        generalize hread : file.bytesAt file.position (length * dataSize) = read at hwhole
        have hsize : read.length / dataSize * dataSize = read.length :=
          Nat.div_mul_cancel (Nat.dvd_of_mod_eq_zero hwhole)
        have hplain : (CryptoIOFile.plain stream ⟨⟨some file, good⟩, file.position,
            file.position⟩).step (.read length dataSize) =
              some (⟨some
                  { bytes := mask stream 0 file.bytes
                    position := file.position + read.length
                    last := some .reading }, good⟩,
                .read (some (read.length / dataSize)) (mask stream file.position read)) := by
          simp [IOFile.step, CryptoIOFile.plain, IOFile.readImpl, hlength, hlast, bytesAt_mask,
            hread]
        have hcrypto : CryptoIOFile.step stream ⟨⟨some file, good⟩, file.position,
            file.position⟩ (.read length dataSize) =
              some (⟨⟨some { file with
                    position := file.position + read.length
                    last := some .reading }, good⟩,
                  file.position + read.length, file.position + read.length⟩,
                .read (some (read.length / dataSize)) (mask stream file.position read)) := by
          simp only [CryptoIOFile.step, CryptoIOFile.readImpl, IOFile.readImpl, if_neg hlength,
            if_neg hlast, hread, Option.map_some]
          split
          · next hnone =>
            rw [hnone, Nat.zero_mul] at hsize
            rw [List.length_eq_zero_iff.mp hsize.symm]
            rfl
          · rw [hsize, List.take_length, List.drop_length, List.append_nil]
            rfl
        refine ⟨by rw [hcrypto, hplain]; rfl, fun f' answer h => ?_⟩
        rw [hcrypto] at h
        cases h
        exact ⟨by rintro _ ⟨⟩; rfl, by rintro - _ ⟨⟩; rfl⟩

theorem simulates_readAt {byteCount offset : ℕ} (ha : f.Aligned moved) :
    Simulates stream f moved (.readAt byteCount offset) := by
  obtain ⟨⟨file, good⟩, d, e⟩ := f
  cases file with
  | none => exact ⟨rfl, by rintro _ _ ⟨⟩; exact ⟨by rintro _ ⟨⟩, by rintro _ _ ⟨⟩⟩⟩
  | some file =>
      obtain rfl : e = file.position := ha.e file rfl
      by_cases hcount : byteCount = 0
      · subst hcount
        refine ⟨rfl, ?_⟩
        rintro _ _ ⟨⟩
        refine ⟨by rintro _ ⟨⟩; rfl, ?_⟩
        rintro hmoved _ ⟨⟩
        refine ha.d ?_ file rfl
        simpa [IOFile.movesCipher, IOFile.readAtImpl, CryptoIOFile.plain] using hmoved
      · by_cases hlast : file.last = some .writing
        · have hnone : CryptoIOFile.step stream ⟨⟨some file, good⟩, d, file.position⟩
              (.readAt byteCount offset) = none := by
            simp [CryptoIOFile.step, CryptoIOFile.readAtImpl, IOFile.readAtImpl, hcount, hlast]
          refine ⟨?_, fun f' answer h => by rw [hnone] at h; cases h⟩
          rw [hnone]
          simp [IOFile.step, IOFile.readAtImpl, CryptoIOFile.plain, hcount, hlast]
        generalize hread : file.bytesAt offset byteCount = read
        have hplainImpl : (CryptoIOFile.plain stream ⟨⟨some file, good⟩, d,
            file.position⟩).readAtImpl byteCount offset =
              some (CryptoIOFile.plain stream ⟨⟨some file, good⟩, d, file.position⟩,
                some read.length, mask stream offset read) := by
          simp [CryptoIOFile.plain, IOFile.readAtImpl, hcount, hlast, bytesAt_mask, hread]
        have hcrypto : CryptoIOFile.step stream ⟨⟨some file, good⟩, d, file.position⟩
            (.readAt byteCount offset) =
              some (⟨⟨some file, good⟩, if read.length = 0 then d else offset + read.length,
                file.position⟩, .read (some read.length) (mask stream offset read)) := by
          simp only [CryptoIOFile.step, CryptoIOFile.readAtImpl, IOFile.readAtImpl, if_neg hcount,
            if_neg hlast, hread, Option.map_some]
          split
          · next hnone =>
            rw [List.length_eq_zero_iff.mp hnone]
            rfl
          · rfl
        refine ⟨by rw [hcrypto, IOFile.step, hplainImpl]; rfl, fun f' answer h => ?_⟩
        rw [hcrypto] at h
        cases h
        refine ⟨by rintro _ ⟨⟩; rfl, ?_⟩
        rw [IOFile.movesCipher, hplainImpl]
        rintro hmoved _ ⟨⟩
        simp only [Option.any_some, Bool.or_eq_false_iff, decide_eq_false_iff_not, not_not]
          at hmoved
        simp only [if_pos hmoved.2]
        exact ha.d hmoved.1 file rfl

theorem simulates_write {length dataSize taken : ℕ} {data : List UInt8} (ha : f.Aligned moved)
    (hsuits : (f.plain stream).Suits moved (.write length dataSize data taken)) :
    Simulates stream f moved (.write length dataSize data taken) := by
  obtain ⟨hpos, hdata, htaken, hgap⟩ := hsuits
  obtain ⟨⟨file, good⟩, d, e⟩ := f
  cases file with
  | none => exact ⟨rfl, by rintro _ _ ⟨⟩; exact ⟨by rintro _ ⟨⟩, by rintro _ _ ⟨⟩⟩⟩
  | some file =>
      obtain rfl : e = file.position := ha.e file rfl
      by_cases hlength : length = 0
      · subst hlength
        refine ⟨rfl, ?_⟩
        rintro _ _ ⟨⟩
        refine ⟨by rintro _ ⟨⟩; simp, ?_⟩
        rintro hmoved _ ⟨⟩
        refine ha.d ?_ file rfl
        simpa [IOFile.movesCipher] using hmoved
      · by_cases hlast : file.last = some .reading
        · have hnone : CryptoIOFile.step stream ⟨⟨some file, good⟩, d, file.position⟩
              (.write length dataSize data taken) = none := by
            simp [CryptoIOFile.step, CryptoIOFile.writeImpl, IOFile.writeImpl, hlength, hlast]
          refine ⟨?_, fun f' answer h => by rw [hnone] at h; cases h⟩
          rw [hnone]
          simp [IOFile.step, IOFile.writeImpl, CryptoIOFile.plain, hlength, hlast]
        have hgap : file.position ≤ file.bytes.length := by
          simpa using hgap _ rfl
        have hsize : data.length ≠ 0 := by
          rw [hdata]
          exact Nat.mul_ne_zero hlength (Nat.ne_of_gt hpos)
        have hcount : data.length / dataSize = length := by
          rw [hdata]
          exact Nat.mul_div_cancel _ hpos
        have hplain : (CryptoIOFile.plain stream ⟨⟨some file, good⟩, d,
            file.position⟩).step (.write length dataSize data taken) =
              some (⟨some
                  { bytes := overwrite (mask stream 0 file.bytes) file.position data
                    position := file.position + data.length
                    last := some .writing }, good⟩, .wrote (some length)) := by
          simp [IOFile.step, CryptoIOFile.plain, IOFile.writeImpl, hlength, hlast,
            List.take_of_length_le htaken, hcount]
        have hcrypto : CryptoIOFile.step stream ⟨⟨some file, good⟩, d, file.position⟩
            (.write length dataSize data taken) =
              some (⟨⟨some
                  { bytes := overwrite file.bytes file.position (mask stream file.position data)
                    position := file.position + data.length
                    last := some .writing }, good⟩,
                file.position + data.length, file.position + data.length⟩,
                .wrote (some length)) := by
          have htake : (mask stream file.position data).take taken =
              mask stream file.position data :=
            List.take_of_length_le (by simpa using htaken)
          simp only [CryptoIOFile.step, CryptoIOFile.writeImpl, IOFile.writeImpl, if_neg hlength,
            if_neg hlast, htake, length_mask, hcount, ← hdata, Option.map_some]
          rfl
        refine ⟨?_, fun f' answer h => ?_⟩
        · rw [hcrypto, hplain, Option.map_some]
          simp [CryptoIOFile.plain, mask_overwrite hgap]
        · rw [hcrypto] at h
          cases h
          exact ⟨by rintro _ ⟨⟩; rfl, by rintro - _ ⟨⟩; rfl⟩

theorem simulates_seek {off : ℤ} {origin : SeekOrigin} (ha : f.Aligned moved)
    (hsuits : (f.plain stream).Suits moved (.seek off origin)) :
    Simulates stream f moved (.seek off origin) := by
  obtain ⟨⟨file, good⟩, d, e⟩ := f
  cases file with
  | none => exact ⟨rfl, by rintro _ _ ⟨⟩; exact ⟨by rintro _ ⟨⟩, by rintro _ _ ⟨⟩⟩⟩
  | some file =>
      have htarget : ({ file with bytes := mask stream 0 file.bytes } : OpenFile).seekTarget off
          origin = file.seekTarget off origin := by
        cases origin <;> simp [OpenFile.seekTarget]
      cases hseek : file.seekTarget off origin with
      | none =>
          refine ⟨?_, ?_⟩
          · simp [CryptoIOFile.step, CryptoIOFile.seekImpl, IOFile.step, IOFile.seekImpl,
              CryptoIOFile.plain, htarget, hseek]
          · simp only [CryptoIOFile.step, CryptoIOFile.seekImpl, IOFile.seekImpl, hseek]
            rintro _ _ ⟨⟩
            refine ⟨by rintro _ ⟨⟩; exact ha.e file rfl, ?_⟩
            rintro hmoved _ ⟨⟩
            refine ha.d ?_ file rfl
            simpa [IOFile.movesCipher, IOFile.seekImpl, CryptoIOFile.plain, htarget, hseek]
              using hmoved
      | some position =>
          have hgood : good = true := by
            rcases hsuits with hgood | hnone
            · exact hgood
            · rw [hnone _ rfl] at htarget
              rw [hseek] at htarget
              cases htarget
          subst hgood
          refine ⟨?_, ?_⟩
          · simp [CryptoIOFile.step, CryptoIOFile.seekImpl, IOFile.step, IOFile.seekImpl,
              CryptoIOFile.plain, htarget, hseek]
          · simp only [CryptoIOFile.step, CryptoIOFile.seekImpl, IOFile.seekImpl, hseek]
            rintro _ _ ⟨⟩
            exact ⟨by rintro _ ⟨⟩; rfl, by rintro - _ ⟨⟩; rfl⟩

theorem simulates (ha : f.Aligned moved) {op : FileOp}
    (hsuits : (f.plain stream).Suits moved op) : Simulates stream f moved op := by
  cases op with
  | read length dataSize => exact simulates_read ha hsuits
  | readAt byteCount offset => exact simulates_readAt ha
  | write length dataSize data taken => exact simulates_write ha hsuits
  | seek off origin => exact simulates_seek ha hsuits

/-- A key stream and an encrypted file that was just created. -/
def sampleStream (i : ℕ) : UInt8 := UInt8.ofNat (7 * i + 3)

def newFile : CryptoIOFile where
  file := { file := some { bytes := [], position := 0 }, good := true }
  d := 0
  e := 0

theorem aligned_newFile : newFile.Aligned false where
  e := by
    rintro _ ⟨⟩
    rfl
  d := by
    rintro - _ ⟨⟩
    rfl

/-- Three bytes are written and read back, the last of them once more. -/
def sampleOps : List FileOp :=
  [.write 3 1 [1, 2, 3] 3, .seek 0 .set, .read 3 1, .readAt 1 2, .seek 1 .set, .read 2 1]

/-- What a whole read of an open file returns, wherever the ciphers stand. -/
theorem answer_read {file : OpenFile} {good : Bool} {d e length dataSize : ℕ}
    (hlast : file.last ≠ some .writing)
    (hwhole : (file.bytesAt file.position (length * dataSize)).length % dataSize = 0) :
    ((CryptoIOFile.mk ⟨some file, good⟩ d e).step stream (.read length dataSize)).map Prod.snd =
      some (.read (some ((file.bytesAt file.position (length * dataSize)).length / dataSize))
        (mask stream d (file.bytesAt file.position (length * dataSize)))) := by
  by_cases hlength : length = 0
  · subst hlength
    simp [CryptoIOFile.step, CryptoIOFile.readImpl, IOFile.readImpl, OpenFile.bytesAt]
  · generalize hread : file.bytesAt file.position (length * dataSize) = read at hwhole ⊢
    have hsize : read.length / dataSize * dataSize = read.length :=
      Nat.div_mul_cancel (Nat.dvd_of_mod_eq_zero hwhole)
    simp only [CryptoIOFile.step, CryptoIOFile.readImpl, IOFile.readImpl, if_neg hlength,
      if_neg hlast, hread, Option.map_some]
    split
    · next hnone =>
      rw [hnone, Nat.zero_mul] at hsize
      rw [List.length_eq_zero_iff.mp hsize.symm]
      rfl
    · rw [hsize, List.take_length, List.drop_length, List.append_nil]

/-- The answers of two operations, of which the first changes the file to `f'`. -/
theorem runOps_two {File : Type} {step : File → FileOp → Option (File × FileAnswer)}
    {f f' : File} {op next : FileOp} {answer : FileAnswer} (h : step f op = some (f', answer)) :
    (runOps step f [op, next]).map Prod.snd =
      ((step f' next).map Prod.snd).map fun last => [answer, last] := by
  simp only [runOps, h]
  cases step f' next <;> rfl

/-- **What a read after a `ReadAt` returns.** `ReadAt` leaves the decryption behind the bytes it
read, not at the position of the file. A `Read` that follows returns the contents of the file
exactly if the key stream is the same in both places for as long as it reads. -/
theorem readAt_then_read_iff {file : OpenFile} (hopen : f.file.file = some file)
    (hlast : file.last ≠ some .writing)
    {byteCount offset length dataSize : ℕ} (hread : file.bytesAt offset byteCount ≠ [])
    (hwhole : (file.bytesAt file.position (length * dataSize)).length % dataSize = 0) :
    (runOps (CryptoIOFile.step stream) f
        [.readAt byteCount offset, .read length dataSize]).map Prod.snd =
        (runOps IOFile.step (f.plain stream)
          [.readAt byteCount offset, .read length dataSize]).map Prod.snd ↔
      ∀ i < (file.bytesAt file.position (length * dataSize)).length,
        stream (offset + (file.bytesAt offset byteCount).length + i) =
          stream (file.position + i) := by
  obtain ⟨⟨_, good⟩, d, e⟩ := f
  cases hopen
  have hcount : byteCount ≠ 0 := by
    rintro rfl
    exact hread rfl
  have hsome : (file.bytesAt offset byteCount).length ≠ 0 := by
    rwa [Ne, List.length_eq_zero_iff]
  have hcrypto : CryptoIOFile.step stream ⟨⟨some file, good⟩, d, e⟩ (.readAt byteCount offset) =
      some (⟨⟨some file, good⟩, offset + (file.bytesAt offset byteCount).length, file.position⟩,
        .read (some (file.bytesAt offset byteCount).length)
          (mask stream offset (file.bytesAt offset byteCount))) := by
    simp only [CryptoIOFile.step, CryptoIOFile.readAtImpl, IOFile.readAtImpl, if_neg hcount,
      if_neg hlast, if_neg hsome, Option.map_some]
    rfl
  have hplain : IOFile.step (CryptoIOFile.plain stream ⟨⟨some file, good⟩, d, e⟩)
      (.readAt byteCount offset) =
        some (CryptoIOFile.plain stream ⟨⟨some file, good⟩, d, e⟩,
          .read (some (file.bytesAt offset byteCount).length)
            (mask stream offset (file.bytesAt offset byteCount))) := by
    simp [IOFile.step, IOFile.readAtImpl, CryptoIOFile.plain, hcount, hlast, bytesAt_mask]
  have hplainRead : (IOFile.step (CryptoIOFile.plain stream ⟨⟨some file, good⟩, d, e⟩)
      (.read length dataSize)).map Prod.snd =
        some (.read (some ((file.bytesAt file.position (length * dataSize)).length / dataSize))
          (mask stream file.position (file.bytesAt file.position (length * dataSize)))) := by
    by_cases hlength : length = 0
    · subst hlength
      simp [IOFile.step, IOFile.readImpl, CryptoIOFile.plain, OpenFile.bytesAt]
    · simp [IOFile.step, IOFile.readImpl, CryptoIOFile.plain, hlength, hlast, bytesAt_mask]
  rw [runOps_two hcrypto, runOps_two hplain, hplainRead, answer_read hlast hwhole]
  simp only [Option.map_some, Option.some.injEq, List.cons.injEq, FileAnswer.read.injEq,
    true_and, and_true]
  exact mask_eq_mask_iff

/-- The encrypted file of five bytes, of which the first is the next. -/
def sampleFile : CryptoIOFile where
  file := { file := some { bytes := mask sampleStream 0 [1, 2, 3, 4, 5], position := 0 }
            good := true }
  d := 0
  e := 0

/-- A read after a `ReadAt` of two bytes returns something else than the contents. -/
theorem readAt_then_read_iff_shifted :
    (runOps (CryptoIOFile.step sampleStream) sampleFile
        [.readAt 2 3, .read 2 1]).map Prod.snd ≠
      (runOps IOFile.step (sampleFile.plain sampleStream)
        [.readAt 2 3, .read 2 1]).map Prod.snd := by
  intro heq
  have hsame := (readAt_then_read_iff (f := sampleFile) rfl (by decide) (by decide)
    (by decide)).mp heq 0 (by decide)
  exact absurd hsame (by decide)

theorem overwrite_of_le {bytes data : List UInt8} {place : ℕ} (h : bytes.length ≤ place)
    (hdata : data ≠ []) :
    overwrite bytes place data =
      bytes ++ List.replicate (place - bytes.length) 0 ++ data := by
  have hlength : (bytes ++ List.replicate (place - bytes.length) (0 : UInt8)).length = place := by
    rw [List.length_append, List.length_replicate]
    omega
  have hnothing : bytes.drop (place + data.length) = [] := List.drop_eq_nil_of_le (by omega)
  rw [overwrite, if_neg hdata, List.take_of_length_le (Nat.le_of_eq hlength), hnothing,
    List.append_nil]

theorem mask_replicate_zero_iff {place count : ℕ} :
    mask stream place (List.replicate count 0) = List.replicate count 0 ↔
      ∀ i < count, stream (place + i) = 0 := by
  constructor
  · intro heq i hi
    have hbyte := congrArg (fun masked => masked[i]?) heq
    simpa only [getElem?_mask, List.getElem?_replicate, if_pos hi, Option.map_some,
      UInt8.zero_xor, Option.some.injEq] using hbyte
  · intro hzero
    ext1 i
    rw [getElem?_mask, List.getElem?_replicate]
    split
    · next hi => simp [hzero i hi]
    · rfl

end ManicRoom.Storage
