/-
# The decoder of export tries

`macho_export_decoder.py` reads the export trie of a Mach-O image: nodes with an optional
entry and with edges to other nodes, which are offsets into the same bytes. A node is refused
that is its own ancestor. Where Python raises an exception there is an error here, and the
recursion limit of the interpreter is a parameter.
-/

import Mathlib.Data.Char
import Mathlib.Data.List.Lex
import ManicRoom.Foundation.Path

namespace ManicRoom.MachO

open ManicRoom.Foundation

/-- `bytes` -/
abbrev Bytes := List UInt8

/-- What Python raises. -/
inductive PythonError
  | valueError (message : String)
  | indexError
  | recursionError
  deriving DecidableEq, Repr

/-! ## Texts -/

/-- U+FFFD -/
def replacement : Char := Char.ofNat 0xfffd

/-- A character that is not complete: its bits so far, and the ranges of the bytes to come. -/
structure Pending where
  bits : ℕ
  ranges : List (UInt8 × UInt8)

/-- The first byte of a character. -/
def leadByte (b : UInt8) : Char ⊕ Pending :=
  let continuation : UInt8 × UInt8 := (0x80, 0xbf)
  if b < 0x80 then .inl (Char.ofNat b.toNat)
  else if b < 0xc2 then .inl replacement
  else if b < 0xe0 then .inr ⟨b.toNat &&& 0x1f, [continuation]⟩
  else if b < 0xf0 then
    let second : UInt8 × UInt8 :=
      if b = 0xe0 then (0xa0, 0xbf) else if b = 0xed then (0x80, 0x9f) else continuation
    .inr ⟨b.toNat &&& 0xf, [second, continuation]⟩
  else if b < 0xf5 then
    let second : UInt8 × UInt8 :=
      if b = 0xf0 then (0x90, 0xbf) else if b = 0xf4 then (0x80, 0x8f) else continuation
    .inr ⟨b.toNat &&& 0x7, [second, continuation, continuation]⟩
  else .inl replacement

/-- The characters of the bytes to come; what is not well-formed is replaced. -/
def decodeFrom : Option Pending → Bytes → List Char
  | none, [] => []
  | some _, [] => [replacement]
  | some ⟨bits, (least, greatest) :: ranges⟩, b :: rest =>
      if least ≤ b ∧ b ≤ greatest then
        let bits := bits * 64 + (b.toNat &&& 0x3f)
        if ranges = [] then Char.ofNat bits :: decodeFrom none rest
        else decodeFrom (some ⟨bits, ranges⟩) rest
      else
        replacement :: match leadByte b with
          | .inl c => c :: decodeFrom none rest
          | .inr pending => decodeFrom (some pending) rest
  | _, b :: rest =>
      match leadByte b with
      | .inl c => c :: decodeFrom none rest
      | .inr pending => decodeFrom (some pending) rest

/-- `data.decode('utf8',errors='replace')` -/
def decode (data : Bytes) : Text := decodeFrom none data

/-! ## Fields -/

/-- `data[pos]` -/
def byteAt (data : Bytes) (pos : ℕ) : Except PythonError UInt8 :=
  match data[pos]? with
  | some x => .ok x
  | none => .error .indexError

/-- The loop of `uleb`, with the number of rounds that are left. -/
def ulebRounds (data : Bytes) : ℕ → ℕ → ℕ → ℕ → Except PythonError (ℕ × ℕ)
  | 0, _, _, _ => .error (.valueError "invalid ULEB")
  | rounds + 1, shift, value, pos => do
      let x ← byteAt data pos
      let value := value ||| (x.toNat &&& 127) <<< shift
      if x.toNat &&& 128 = 0 then pure (value, pos + 1)
      else ulebRounds data rounds (shift + 7) value (pos + 1)

/-- `uleb(data,pos)`: the value, and the position after it. -/
def uleb (data : Bytes) (pos : ℕ) : Except PythonError (ℕ × ℕ) := ulebRounds data 10 0 0 pos

/-- `cstr(data,pos)`: the text, and the position after its zero byte. -/
def cstr (data : Bytes) (pos : ℕ) : Except PythonError (Text × ℕ) :=
  let rest := data.drop pos
  match rest.idxOf? 0 with
  | some length => .ok (decode (rest.take length), pos + length + 1)
  | none => .error (.valueError "subsection not found")

/-! ## Entries -/

/-- What a symbol is exported as. -/
inductive Target
  | reexport (ordinal : ℕ) (importName : Text)
  | address (address : ℕ) (resolver : Option ℕ)
  deriving DecidableEq, Repr

/-- The fields of a terminal. -/
structure Entry where
  flags : ℕ
  target : Target
  deriving DecidableEq, Repr

/-- A row of the result. -/
structure Row where
  name : Text
  nodeOffset : ℕ
  entry : Entry
  deriving DecidableEq, Repr

/-- The fields of a terminal that is not empty, up to the position after them. -/
def entryAt (data : Bytes) (pos : ℕ) : Except PythonError (Entry × ℕ) := do
  let (flags, pos) ← uleb data pos
  if flags &&& 8 ≠ 0 then do
    let (ordinal, pos) ← uleb data pos
    let (importName, pos) ← cstr data pos
    pure ({ flags, target := .reexport ordinal importName }, pos)
  else do
    let (address, pos) ← uleb data pos
    if flags &&& 16 ≠ 0 then do
      let (resolver, pos) ← uleb data pos
      pure ({ flags, target := .address address (some resolver) }, pos)
    else pure ({ flags, target := .address address none }, pos)

/-- The entry of a terminal that ends at `ending`, if it is not empty. -/
def terminalAt (data : Bytes) (terminal pos ending : ℕ) : Except PythonError (Option Entry) :=
  if terminal = 0 then pure none
  else do
    let (entry, pos) ← entryAt data pos
    if pos ≠ ending then throw (.valueError "unconsumed terminal")
    pure (some entry)

/-! ## Nodes -/

/-- The loop over the edges of a node, with the number of edges that are left. -/
def walkEdges (data : Bytes) (name : Text) (walk : ℕ → Text → Except PythonError (List Row)) :
    ℕ → ℕ → Except PythonError (List Row)
  | 0, _ => pure []
  | count + 1, pos => do
      let (label, pos) ← cstr data pos
      let (child, pos) ← uleb data pos
      let found ← walk child (name ++ label)
      let others ← walkEdges data name walk count pos
      pure (found ++ others)

/-- `walk(offset,name,ancestors)`: the rows that it appends, with this many calls left. -/
def walk (data : Bytes) : ℕ → ℕ → Text → List ℕ → Except PythonError (List Row)
  | 0, _, _, _ => .error .recursionError
  | limit + 1, offset, name, ancestors => do
      if offset ∈ ancestors ∨ data.length ≤ offset then throw (.valueError "invalid trie")
      let (terminal, pos) ← uleb data offset
      let ending := pos + terminal
      let entry ← terminalAt data terminal pos ending
      let count ← byteAt data ending
      let found ← walkEdges data name
        (fun child name => walk data limit child name (offset :: ancestors))
        count.toNat (ending + 1)
      pure ((entry.toList.map fun entry => { name, nodeOffset := offset, entry }) ++ found)

/-- The order of names. -/
def Row.le (first second : Row) : Bool := decide (first.name ≤ second.name)

/-- `export_trie(data)` -/
def exportTrie (limit : ℕ) (data : Bytes) : Except PythonError (List Row) := do
  let found ← walk data limit 0 [] []
  pure (found.mergeSort Row.le)

end ManicRoom.MachO
