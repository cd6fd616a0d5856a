/-
# Looking at untrusted bytes

`cia_update_policy.h` reads the numbers of a CIA header, bounds them and lays the sections
out. C++ does not stop at an index outside a vector or at a sum that wraps; the model does
not either. It computes with 64-bit words as the code does and keeps a log beside, of every
access, sum, difference, buffer and read, so that one can ask afterwards whether they were
all in order.
-/

import ManicRoom.Foundation.Program
import ManicRoom.Foundation.Words

namespace ManicRoom.Cia

open ManicRoom.Foundation

/-- A `std::vector<uint8_t>`. -/
abbrev Bytes := List UInt8

/-- `MCIA_SUCCESS` to `MCIA_NO_SPACE`. -/
inductive Status
  | success
  | invalidFile
  | unsupported
  | wrongEnvironment
  | installFailed
  | alreadyInstalled
  | busy
  | cancelled
  | noSpace
  deriving DecidableEq, Repr, Inhabited

/-- What is thrown. -/
inductive Stop
  /-- `Failure{status}`. -/
  | failure (status : Status)
  /-- Any other exception. -/
  | exception
  deriving DecidableEq, Repr

/-- The status that an import returns then. -/
def Stop.status : Stop → Status
  | .failure status => status
  | .exception => .installFailed

/-- History: something that is only defined within bounds. -/
inductive MemoryEvent
  /-- `data[index]` of a vector of this length. -/
  | access (index length : ℕ)
  /-- A 64-bit sum or product, with its exact value. -/
  | sum (exact : ℕ)
  | difference (minuend subtrahend : ℕ)
  /-- A buffer for file data. -/
  | allocate (size : ℕ)
  /-- A `Read` from a file of which the caller knows the size. -/
  | read (offset size fileSize : ℕ)
  deriving DecidableEq, Repr

/-- It was within bounds. -/
def MemoryEvent.Safe : MemoryEvent → Prop
  | .access index length => index < length
  | .sum exact => exact < 2 ^ 64
  | .difference minuend subtrahend => subtrahend ≤ minuend
  | .allocate size => size ≤ 2 ^ 20
  | .read offset size fileSize => offset + size ≤ fileSize

/-- History: the latest event first. -/
abbrev Memory := List MemoryEvent

def Memory.Safe (memory : Memory) : Prop := ∀ event ∈ memory, event.Safe

/-! ## The log -/

/-- `Require(ok, status)`. -/
def require {σ : Type} (ok : Prop) [Decidable ok] (status : Status := .invalidFile) :
    Program Stop σ Unit :=
  if ok then pure () else throw (.failure status)

@[simp]
theorem wp_require {σ : Type} {ok : Prop} [Decidable ok] {status : Status}
    {done : Unit → σ → Prop} {stopped : Stop → σ → Prop} {s : σ} :
    (require ok status).wp done stopped s ↔
      (ok → done () s) ∧ (¬ ok → stopped (.failure status) s) := by
  simp [require]

def note (event : MemoryEvent) : Program Stop Memory Unit := modify (event :: ·)

/-- The `n` bytes at `p`. -/
def slice (data : Bytes) (p n : ℕ) : Bytes := (data.drop p).take n

/-- `data[index]`. -/
def access (data : Bytes) (index : ℕ) : Program Stop Memory UInt8 := do
  note (.access index data.length)
  pure (data.getD index 0)

/-- `left + right`. -/
def add (left right : UInt64) : Program Stop Memory UInt64 := do
  note (.sum (left.toNat + right.toNat))
  pure (left + right)

/-- `left * right`. -/
def multiply (left right : UInt64) : Program Stop Memory UInt64 := do
  note (.sum (left.toNat * right.toNat))
  pure (left * right)

/-- `left - right`. -/
def subtract (left right : UInt64) : Program Stop Memory UInt64 := do
  note (.difference left.toNat right.toNat)
  pure (left - right)

/-! ## The functions -/

/-- Which byte `Integer` takes next: `big ? n-1-i : i`. -/
def digit (n : ℕ) (big : Bool) (i : ℕ) : ℕ := if big then n - 1 - i else i

/-- `Integer(data.data() + p, n, big)`. -/
def integer (data : Bytes) (p n : ℕ) (big : Bool := false) : Program Stop Memory UInt64 :=
  (List.range n).foldlM
    (fun v i => do
      let byte ← access data (p + digit n big i)
      pure (v ||| byte.toUInt64 <<< UInt64.ofNat (8 * i)))
    0

/-- `Align(n)`. -/
def align (n : UInt64) : Program Stop Memory UInt64 := do
  let sum ← add n 63
  pure (sum &&& ~~~63)

/-- `MaxInput`. -/
def maxInput : UInt64 := (8 : UInt64) <<< 30

/-- `Sections`. -/
structure Sections where
  ticket : UInt64
  tmd : UInt64
  content : UInt64
  /-- `end`. -/
  ending : UInt64
  ticketSize : UInt32
  tmdSize : UInt32
  deriving DecidableEq, Repr

/-- `Header(h, file_size)`. -/
def header (h : Bytes) (fileSize : UInt64) : Program Stop Memory Sections := do
  require (h.length = 0x2020 ∧ h.length ≤ fileSize.toNat ∧ fileSize ≤ maxInput)
  let fixed ← ((· == 0x2020) <$> integer h 0 4) <&&> ((· == 0) <$> integer h 4 2) <&&>
    ((· == 0) <$> integer h 6 2)
  require fixed .unsupported
  let cert ← integer h 8 4
  let tik ← integer h 12 4
  let tmd ← integer h 16 4
  let «meta» ← integer h 20 4
  let content ← integer h 24 8
  require (cert ≤ 0x100000 ∧ 0x164 ≤ tik ∧ tik ≤ 0x100000 ∧ 0x9c4 ≤ tmd ∧ tmd ≤ 0x100000 ∧
    «meta» ≤ 0x100000 ∧ content ≤ maxInput)
  let ticketAt ← align (← add 0x2020 cert)
  let tmdAt ← align (← add ticketAt tik)
  let contentAt ← align (← add tmdAt tmd)
  let ending ← add contentAt content
  let fits ← pure (decide (ending ≤ fileSize)) <&&> (pure («meta» == 0) <||> do
    let last ← add (← align ending) «meta»
    pure (decide (last ≤ fileSize)))
  require fits
  pure
    { ticket := ticketAt, tmd := tmdAt, content := contentAt, ending := ending
      ticketSize := tik.toUInt32, tmdSize := tmd.toUInt32 }

/-- `SignedBody(data)`. -/
def signedBody (data : Bytes) : Program Stop Memory UInt64 := do
  require (4 ≤ data.length)
  let signature ← integer data 0 4 true
  if signature = 0x10000 ∨ signature = 0x10003 then pure 0x240
  else if signature = 0x10001 ∨ signature = 0x10004 then pure 0x140
  else if signature = 0x10002 ∨ signature = 0x10005 then pure 0x40
  else throw (.failure .invalidFile)

end ManicRoom.Cia
