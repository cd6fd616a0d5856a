/-
# The nodes of an export trie

The bytes of an export trie are the nodes that can be read in them and the edges between
these. This says which node stands at an offset, where its edges lead, and what the path to a
node spells; the decoder itself comes afterwards.
-/

import Mathlib.Logic.Relation
import ManicRoom.MachO.Decoder

namespace ManicRoom.MachO

open ManicRoom.Foundation

variable {α β : Type} {data : Bytes}

/-! ## Errors -/

/-- A computation that goes on returns what the rest of it returns. -/
theorem bind_eq_ok {x : Except PythonError α} {f : α → Except PythonError β} {result : β} :
    (x >>= f) = .ok result ↔ ∃ a, x = .ok a ∧ f a = .ok result := by
  cases x with
  | ok a => simp [bind, Except.bind]
  | error e => simp [bind, Except.bind]

theorem bind_congr_ok {x : Except PythonError α} {f g : α → Except PythonError β}
    (h : ∀ a, x = .ok a → f a = g a) : (x >>= f) = (x >>= g) := by
  cases x with
  | ok a => exact h a rfl
  | error e => rfl

/-- The computation does not run out of calls. -/
def NoRecursionError (x : Except PythonError α) : Prop := x ≠ .error .recursionError

theorem noRecursionError_ok (a : α) : NoRecursionError (.ok a) := by
  intro h
  cases h

theorem noRecursionError_valueError (message : String) :
    NoRecursionError (.error (.valueError message) : Except PythonError α) := by
  intro h
  cases h

theorem noRecursionError_bind {x : Except PythonError α} {f : α → Except PythonError β}
    (hx : NoRecursionError x) (hf : ∀ a, x = .ok a → NoRecursionError (f a)) :
    NoRecursionError (x >>= f) := by
  cases x with
  | ok a => exact hf a rfl
  | error e => simpa [NoRecursionError, bind, Except.bind] using hx

/-- What goes on without running out of calls began without. -/
theorem noRecursionError_of_bind {x : Except PythonError α} {f : α → Except PythonError β}
    (h : NoRecursionError (x >>= f)) :
    NoRecursionError x ∧ ∀ a, x = .ok a → NoRecursionError (f a) := by
  cases x with
  | ok a =>
      constructor
      · exact noRecursionError_ok a
      · intro b hb
        cases hb
        exact h
  | error e =>
      constructor
      · simpa [NoRecursionError, bind, Except.bind] using h
      · intro b hb
        cases hb

/-! ## The readers -/

theorem noRecursionError_byteAt (pos : ℕ) : NoRecursionError (byteAt data pos) := by
  unfold byteAt
  split
  · exact noRecursionError_ok _
  · intro h
    cases h

theorem noRecursionError_ulebRounds (rounds shift value pos : ℕ) :
    NoRecursionError (ulebRounds data rounds shift value pos) := by
  induction rounds generalizing shift value pos with
  | zero => exact noRecursionError_valueError _
  | succ rounds ih =>
      apply noRecursionError_bind (noRecursionError_byteAt pos)
      intro x hx
      dsimp only
      split
      · exact noRecursionError_ok _
      · apply ih

theorem noRecursionError_uleb (pos : ℕ) : NoRecursionError (uleb data pos) :=
  noRecursionError_ulebRounds 10 0 0 pos

theorem noRecursionError_cstr (pos : ℕ) : NoRecursionError (cstr data pos) := by
  unfold cstr
  dsimp only
  split
  · exact noRecursionError_ok _
  · exact noRecursionError_valueError _

theorem noRecursionError_entryAt (pos : ℕ) : NoRecursionError (entryAt data pos) := by
  apply noRecursionError_bind (noRecursionError_uleb pos)
  intro flags hflags
  dsimp only
  split
  · apply noRecursionError_bind (noRecursionError_uleb _)
    intro ordinal hordinal
    apply noRecursionError_bind (noRecursionError_cstr _)
    intro importName himportName
    exact noRecursionError_ok _
  · apply noRecursionError_bind (noRecursionError_uleb _)
    intro ⟨address, next⟩ haddress
    dsimp only
    split
    · apply noRecursionError_bind (noRecursionError_uleb _)
      intro resolver hresolver
      exact noRecursionError_ok _
    · exact noRecursionError_ok _

theorem noRecursionError_terminalAt (terminal pos ending : ℕ) :
    NoRecursionError (terminalAt data terminal pos ending) := by
  unfold terminalAt
  split
  · exact noRecursionError_ok _
  · apply noRecursionError_bind (noRecursionError_entryAt pos)
    intro ⟨entry, next⟩ hentry
    dsimp only
    split
    · exact noRecursionError_valueError _
    · exact noRecursionError_ok _

/-- Ten rounds read at most ten bytes, and at least one. -/
theorem ulebRounds_pos {rounds shift value pos result next : ℕ}
    (h : ulebRounds data rounds shift value pos = .ok (result, next)) :
    pos < next ∧ next ≤ pos + rounds := by
  induction rounds generalizing shift value pos with
  | zero => cases h
  | succ rounds ih =>
      obtain ⟨x, -, h⟩ := bind_eq_ok.mp h
      dsimp only at h
      split at h
      · cases h
        omega
      · have := ih h
        omega

theorem uleb_pos {pos value next : ℕ} (h : uleb data pos = .ok (value, next)) :
    pos < next ∧ next ≤ pos + 10 :=
  ulebRounds_pos h

/-! ## Nodes -/

/-- What is read at an offset: the entry of a terminal that is not empty, and the edges. -/
structure Node where
  entry : Option Entry
  edges : List (Text × ℕ)

/-- The labels and children of this many edges. -/
def edgesAt (data : Bytes) : ℕ → ℕ → Except PythonError (List (Text × ℕ))
  | 0, _ => pure []
  | count + 1, pos => do
      let (label, pos) ← cstr data pos
      let (child, pos) ← uleb data pos
      let others ← edgesAt data count pos
      pure ((label, child) :: others)

/-- The node at an offset. -/
def nodeAt (data : Bytes) (offset : ℕ) : Except PythonError Node := do
  let (terminal, pos) ← uleb data offset
  let entry ← terminalAt data terminal pos (pos + terminal)
  let count ← byteAt data (pos + terminal)
  let edges ← edgesAt data count.toNat (pos + terminal + 1)
  pure { entry, edges }

theorem edgesAt_length {count pos : ℕ} {edges : List (Text × ℕ)}
    (h : edgesAt data count pos = .ok edges) : edges.length = count := by
  induction count generalizing pos edges with
  | zero =>
      cases h
      rfl
  | succ count ih =>
      obtain ⟨label, -, h⟩ := bind_eq_ok.mp h
      obtain ⟨child, -, h⟩ := bind_eq_ok.mp h
      obtain ⟨others, hothers, h⟩ := bind_eq_ok.mp h
      cases h
      simp [ih hothers]

/-- A node consists of its terminal and at most 255 edges. -/
theorem nodeAt_ok {offset : ℕ} {node : Node} (h : nodeAt data offset = .ok node) :
    ∃ terminal pos, uleb data offset = .ok (terminal, pos) ∧
      terminalAt data terminal pos (pos + terminal) = .ok node.entry ∧
      ∃ count, byteAt data (pos + terminal) = .ok count ∧
        edgesAt data count.toNat (pos + terminal + 1) = .ok node.edges := by
  obtain ⟨⟨terminal, pos⟩, hterminal, h⟩ := bind_eq_ok.mp h
  obtain ⟨entry, hentry, h⟩ := bind_eq_ok.mp h
  obtain ⟨count, hcount, h⟩ := bind_eq_ok.mp h
  obtain ⟨edges, hedges, h⟩ := bind_eq_ok.mp h
  cases h
  exact ⟨terminal, pos, hterminal, hentry, count, hcount, hedges⟩

theorem nodeAt_edges_length {offset : ℕ} {node : Node} (h : nodeAt data offset = .ok node) :
    node.edges.length ≤ 255 := by
  obtain ⟨terminal, pos, -, -, count, -, hedges⟩ := nodeAt_ok h
  rw [edgesAt_length hedges]
  have := count.toNat_lt
  omega

/-- The fields of a terminal take exactly the length that it declares. -/
def TerminalConsumed (data : Bytes) (offset : ℕ) (node : Node) : Prop :=
  ∃ terminal pos, uleb data offset = .ok (terminal, pos) ∧
    (terminal = 0 → node.entry = none) ∧
    (terminal ≠ 0 → ∃ entry, node.entry = some entry ∧
      entryAt data pos = .ok (entry, pos + terminal))

theorem nodeAt_terminalConsumed {offset : ℕ} {node : Node} (h : nodeAt data offset = .ok node) :
    TerminalConsumed data offset node := by
  obtain ⟨terminal, pos, hterminal, hentry, -⟩ := nodeAt_ok h
  refine ⟨terminal, pos, hterminal, ?_, ?_⟩
  · intro hzero
    rw [terminalAt, if_pos hzero] at hentry
    exact (Except.ok.inj hentry).symm
  · intro hzero
    rw [terminalAt, if_neg hzero] at hentry
    obtain ⟨⟨entry, next⟩, hread, hentry⟩ := bind_eq_ok.mp hentry
    dsimp only at hentry
    split at hentry
    · cases hentry
    · rename_i hnext
      rw [not_not.mp hnext] at hread
      exact ⟨entry, (Except.ok.inj hentry).symm, hread⟩

/-- An edge leads from one offset to another. -/
def Edge (data : Bytes) (offset child : ℕ) : Prop :=
  ∃ node, nodeAt data offset = .ok node ∧ ∃ label, (label, child) ∈ node.edges

/-- The root is at offset 0. -/
def Reachable (data : Bytes) (offset : ℕ) : Prop :=
  Relation.ReflTransGen (Edge data) 0 offset

/-! ## Paths -/

/-- The node to which a path of edge numbers leads, and the name that the path spells. -/
def follow (data : Bytes) : List ℕ → ℕ → Text → Option (ℕ × Text)
  | [], offset, name => some (offset, name)
  | i :: path, offset, name =>
      match nodeAt data offset with
      | .error _ => none
      | .ok node =>
          match node.edges[i]? with
          | none => none
          | some (label, child) => follow data path child (name ++ label)

/-- The row of the node to which a path leads, if its terminal is not empty. -/
def rowFrom (data : Bytes) (offset : ℕ) (name : Text) (path : List ℕ) : Option Row :=
  match follow data path offset name with
  | none => none
  | some (target, name) =>
      match nodeAt data target with
      | .error _ => none
      | .ok node => node.entry.map fun entry => { name, nodeOffset := target, entry }

/-- The row of a path from the root. -/
def rowAt (data : Bytes) (path : List ℕ) : Option Row := rowFrom data 0 [] path

/-- The row of a path that begins with one of these edges. -/
def rowThrough (data : Bytes) (name : Text) (edges : List (Text × ℕ)) : List ℕ → Option Row
  | [] => none
  | i :: path =>
      match edges[i]? with
      | none => none
      | some (label, child) => rowFrom data child (name ++ label) path

theorem rowFrom_nil {offset : ℕ} {node : Node} (h : nodeAt data offset = .ok node) (name : Text) :
    rowFrom data offset name [] =
      node.entry.map fun entry => { name, nodeOffset := offset, entry } := by
  simp [rowFrom, follow, h]

theorem rowFrom_cons {offset : ℕ} {node : Node} (h : nodeAt data offset = .ok node) (name : Text)
    (i : ℕ) (path : List ℕ) :
    rowFrom data offset name (i :: path) = rowThrough data name node.edges (i :: path) := by
  unfold rowFrom rowThrough
  simp only [follow, h]
  cases node.edges[i]? with
  | none => rfl
  | some edge => rfl

end ManicRoom.MachO
