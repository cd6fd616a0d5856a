/-
# Masking with a key stream

A cipher in counter mode masks byte `i` of a text with byte `i` of a key stream, so a piece of
the text can be masked by itself as long as its place in the text is known. Nothing here refers
to a particular program.
-/

import Mathlib.Data.List.Basic

namespace ManicRoom.Foundation

/-- The bytes, which begin at a place of the text, masked with the key stream. -/
def mask (stream : ℕ → UInt8) (place : ℕ) (bytes : List UInt8) : List UInt8 :=
  bytes.mapIdx fun i byte => byte ^^^ stream (place + i)

variable {stream : ℕ → UInt8} {place : ℕ}

@[simp]
theorem mask_nil : mask stream place [] = [] := rfl

@[simp]
theorem length_mask (bytes : List UInt8) : (mask stream place bytes).length = bytes.length :=
  List.length_mapIdx

theorem getElem?_mask (bytes : List UInt8) (i : ℕ) :
    (mask stream place bytes)[i]? = bytes[i]?.map (· ^^^ stream (place + i)) :=
  List.getElem?_mapIdx

theorem mask_append (first second : List UInt8) :
    mask stream place (first ++ second) =
      mask stream place first ++ mask stream (place + first.length) second := by
  simp only [mask, List.mapIdx_append]
  congr 2
  funext i byte
  rw [Nat.add_right_comm, Nat.add_assoc]

theorem mask_take (bytes : List UInt8) (count : ℕ) :
    mask stream place (bytes.take count) = (mask stream place bytes).take count := by
  ext1 i
  simp only [getElem?_mask, List.getElem?_take]
  split <;> rfl

theorem mask_drop (bytes : List UInt8) (count : ℕ) :
    mask stream (place + count) (bytes.drop count) = (mask stream place bytes).drop count := by
  ext1 i
  simp only [getElem?_mask, List.getElem?_drop, Nat.add_assoc]

/-- Masking twice at the same place gives the text back. -/
@[simp]
theorem mask_mask (bytes : List UInt8) :
    mask stream place (mask stream place bytes) = bytes := by
  ext1 i
  rw [getElem?_mask, getElem?_mask, Option.map_map]
  have hback : (fun byte : UInt8 => byte ^^^ stream (place + i)) ∘
      (fun byte => byte ^^^ stream (place + i)) = id := by
    funext byte
    calc (byte ^^^ stream (place + i)) ^^^ stream (place + i)
        = byte ^^^ (stream (place + i) ^^^ stream (place + i)) := UInt8.xor_assoc _ _ _
      _ = byte := by rw [UInt8.xor_self, UInt8.xor_zero]
  rw [hback, Option.map_id]
  rfl

/-- Two places mask a text alike exactly if the key stream is the same there. -/
theorem mask_eq_mask_iff {place' : ℕ} {bytes : List UInt8} :
    mask stream place bytes = mask stream place' bytes ↔
      ∀ i < bytes.length, stream (place + i) = stream (place' + i) := by
  constructor
  · intro heq i hi
    have hbyte := congrArg (fun masked => masked[i]?) heq
    simp only [getElem?_mask, List.getElem?_eq_getElem hi, Option.map_some, Option.some.injEq]
      at hbyte
    simpa [← UInt8.xor_assoc] using congrArg (bytes[i] ^^^ ·) hbyte
  · intro hsame
    ext1 i
    rw [getElem?_mask, getElem?_mask]
    rcases Nat.lt_or_ge i bytes.length with hi | hi
    · rw [hsame i hi]
    · rw [List.getElem?_eq_none hi]
      rfl

end ManicRoom.Foundation
