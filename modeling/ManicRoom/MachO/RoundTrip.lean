/-
# Export tries are read back

An export trie as a tree: what each node stands for, the bytes that are written for it and
where they are placed. The nodes of a tree may be laid out in any order and with any gaps, as
long as they do not overlap and the root comes first. The decoder gives back exactly the
symbols of the tree.
-/

import ManicRoom.MachO.Fields
import ManicRoom.MachO.Walk

namespace ManicRoom.MachO

open ManicRoom.Foundation

variable {data : Bytes}

/-! ## Tries -/

mutual

/-- A node with its place, its bytes, its entry and its edges. -/
inductive Trie
  | node (offset : ℕ) (bytes : Bytes) (entry : Option Entry) (edges : Edges)

/-- The edges of a node with their labels and children. -/
inductive Edges
  | nil
  | cons (label : Text) (child : Trie) (rest : Edges)

end

def Trie.offset : Trie → ℕ
  | .node offset _ _ _ => offset

def Edges.length : Edges → ℕ
  | .nil => 0
  | .cons _ _ rest => rest.length + 1

mutual

/-- The symbols below a node that is reached by this name. -/
def Trie.symbols (name : Text) : Trie → List (Text × Entry)
  | .node _ _ entry edges => (entry.toList.map fun entry => (name, entry)) ++ edges.symbols name

def Edges.symbols (name : Text) : Edges → List (Text × Entry)
  | .nil => []
  | .cons label child rest => child.symbols (name ++ label) ++ rest.symbols name

end

mutual

/-- The offset and the length of each node. -/
def Trie.places : Trie → List (ℕ × ℕ)
  | .node offset bytes _ edges => (offset, bytes.length) :: edges.places

def Edges.places : Edges → List (ℕ × ℕ)
  | .nil => []
  | .cons _ child rest => child.places ++ rest.places

end

mutual

/-- The number of nodes on a longest path. -/
def Trie.height : Trie → ℕ
  | .node _ _ _ edges => edges.height + 1

def Edges.height : Edges → ℕ
  | .nil => 0
  | .cons _ child rest => max child.height rest.height

end

/-! ## Layouts -/

/-- The edges of a node one after the other: a label, and the offset of the child. -/
inductive EdgesBytes : Edges → Bytes → Prop
  | nil : EdgesBytes .nil []
  | cons {label : Text} {child : Trie} {rest : Edges} {second third : Bytes} :
      NulFree label → Uleb second child.offset → EdgesBytes rest third →
      EdgesBytes (.cons label child rest) ((encodeText label ++ [0]) ++ (second ++ third))

/-- The bytes of a node: the length of the terminal, the terminal, the number of edges, the
edges. -/
inductive NodeBytes (entry : Option Entry) (edges : Edges) : Bytes → Prop
  | mk {first terminal last : Bytes} : Uleb first terminal.length → TerminalBytes entry terminal →
      edges.length ≤ 255 → EdgesBytes edges last →
      NodeBytes entry edges (first ++ (terminal ++ ([UInt8.ofNat edges.length] ++ last)))

mutual

/-- Every node stands at its place in the data. -/
def Trie.Placed (data : Bytes) : Trie → Prop
  | .node offset bytes entry edges =>
      At data offset bytes ∧ NodeBytes entry edges bytes ∧ edges.Placed data

def Edges.Placed (data : Bytes) : Edges → Prop
  | .nil => True
  | .cons _ child rest => child.Placed data ∧ rest.Placed data

end

/-- Two places do not overlap. -/
def Apart (first second : ℕ × ℕ) : Prop :=
  first.1 + first.2 ≤ second.1 ∨ second.1 + second.2 ≤ first.1

/-- The data are a layout of the trie: the root is at 0, every node stands at its place, and no
two nodes overlap. -/
structure Trie.LaidOut (data : Bytes) (trie : Trie) : Prop where
  root : trie.offset = 0
  placed : trie.Placed data
  apart : trie.places.Pairwise Apart

/-- The trie represents a map of names to entries: it has each of its symbols once. -/
structure Trie.Represents (trie : Trie) (exports : Text → Option Entry) : Prop where
  symbols : ∀ name entry, (name, entry) ∈ trie.symbols [] ↔ exports name = some entry
  nodup : (trie.symbols []).Nodup

/-! ## Reading -/

mutual

/-- The rows below a node that is reached by this name. -/
def Trie.rows (name : Text) : Trie → List Row
  | .node offset _ entry edges =>
      (entry.toList.map fun entry => { name, nodeOffset := offset, entry }) ++ edges.rows name

def Edges.rows (name : Text) : Edges → List Row
  | .nil => []
  | .cons label child rest => child.rows (name ++ label) ++ rest.rows name

end

mutual

theorem Trie.rows_symbols (name : Text) :
    ∀ trie : Trie, (trie.rows name).map (fun row => (row.name, row.entry)) = trie.symbols name
  | .node offset bytes entry edges => by
      rw [Trie.rows, Trie.symbols, List.map_append, Edges.rows_symbols name edges, List.map_map]
      rfl

theorem Edges.rows_symbols (name : Text) :
    ∀ edges : Edges, (edges.rows name).map (fun row => (row.name, row.entry)) =
      edges.symbols name
  | .nil => rfl
  | .cons label child rest => by
      rw [Edges.rows, Edges.symbols, List.map_append, Trie.rows_symbols (name ++ label) child,
        Edges.rows_symbols name rest]

end

mutual

/-- The offsets of the nodes. -/
def Trie.offsets : Trie → List ℕ
  | .node offset _ _ edges => offset :: edges.offsets

def Edges.offsets : Edges → List ℕ
  | .nil => []
  | .cons _ child rest => child.offsets ++ rest.offsets

end

mutual

theorem Trie.places_offsets : ∀ trie : Trie, trie.places.map Prod.fst = trie.offsets
  | .node offset bytes entry edges => by
      rw [Trie.places, Trie.offsets, List.map_cons, Edges.places_offsets edges]

theorem Edges.places_offsets : ∀ edges : Edges, edges.places.map Prod.fst = edges.offsets
  | .nil => rfl
  | .cons label child rest => by
      rw [Edges.places, Edges.offsets, List.map_append, Trie.places_offsets child,
        Edges.places_offsets rest]

end

theorem NodeBytes.length_pos {entry : Option Entry} {edges : Edges} {bytes : Bytes}
    (h : NodeBytes entry edges bytes) : 0 < bytes.length := by
  cases h with
  | mk _ _ _ _ =>
      simp only [List.length_append, List.length_singleton]
      omega

mutual

/-- No node is empty. -/
theorem Trie.Placed.places_pos :
    ∀ {trie : Trie}, trie.Placed data → ∀ place ∈ trie.places, 0 < place.2
  | .node offset bytes entry edges, h => by
      intro place hplace
      rw [Trie.places] at hplace
      rcases List.mem_cons.mp hplace with rfl | hplace
      · exact h.2.1.length_pos
      · exact Edges.Placed.places_pos h.2.2 place hplace

theorem Edges.Placed.places_pos :
    ∀ {edges : Edges}, edges.Placed data → ∀ place ∈ edges.places, 0 < place.2
  | .nil, _ => by simp [Edges.places]
  | .cons label child rest, h => by
      intro place hplace
      rw [Edges.places] at hplace
      rcases List.mem_append.mp hplace with hplace | hplace
      · exact Trie.Placed.places_pos h.1 place hplace
      · exact Edges.Placed.places_pos h.2 place hplace

end

/-- Nodes that do not overlap have different offsets. -/
theorem Trie.LaidOut.nodup {trie : Trie} (h : trie.LaidOut data) : trie.offsets.Nodup := by
  rw [← Trie.places_offsets, List.Nodup, List.pairwise_map]
  apply h.apart.imp_of_mem
  intro first second hfirst hsecond hapart heq
  have hpos := Trie.Placed.places_pos h.placed first hfirst
  have hpos' := Trie.Placed.places_pos h.placed second hsecond
  rcases hapart with hle | hle <;> omega

theorem at_inside {pos : ℕ} {b : UInt8} {rest : Bytes} (h : At data pos (b :: rest)) :
    pos < data.length := by
  have hlength := h.length_le
  rw [List.length_drop, List.length_cons] at hlength
  omega

theorem ofNat_toNat_of_le {n : ℕ} (h : n ≤ 255) : (UInt8.ofNat n).toNat = n :=
  toNat_ofNat_byte (by omega)

mutual

/-- The walk over a trie that is laid out returns its rows: no node is an ancestor of itself. -/
theorem Trie.walk_eq : ∀ {trie : Trie} {limit : ℕ} {name : Text} {ancestors : List ℕ},
    trie.Placed data → trie.height ≤ limit → trie.offsets.Nodup →
    (∀ offset ∈ trie.offsets, offset ∉ ancestors) →
    walk data limit trie.offset name ancestors = .ok (trie.rows name)
  | .node offset bytes entry edges, 0, name, ancestors, _, hheight, _, _ => by
      rw [Trie.height] at hheight
      omega
  | .node offset bytes entry edges, limit + 1, name, ancestors, hplaced, hheight, hnodup,
      hancestors => by
      obtain ⟨hat, hbytes, hedges⟩ := hplaced
      rw [Trie.height] at hheight
      rw [Trie.offsets] at hnodup hancestors
      obtain ⟨hfresh, hrest⟩ := List.nodup_cons.mp hnodup
      have hadmitted : ¬ (offset ∈ ancestors ∨ data.length ≤ offset) := by
        rw [not_or]
        constructor
        · exact hancestors offset List.mem_cons_self
        · have hpos := hbytes.length_pos
          cases bytes with
          | nil => simp at hpos
          | cons b rest => exact Nat.not_le.mpr (at_inside hat)
      have hgrown : ∀ other ∈ edges.offsets, other ∉ offset :: ancestors := by
        intro other hother hmem
        rcases List.mem_cons.mp hmem with rfl | hmem
        · exact hfresh hother
        · exact hancestors other (List.mem_cons_of_mem _ hother) hmem
      cases hbytes with
      | @mk first terminal last hfirst hterminal hcount hlast =>
          obtain ⟨hatFirst, hat⟩ := at_append.mp hat
          obtain ⟨hatTerminal, hat⟩ := at_append.mp hat
          obtain ⟨hatCount, hatLast⟩ := at_append.mp hat
          rw [List.length_singleton] at hatLast
          have hwalk := @Edges.walkEdges_eq _ _ _ _ name _ hlast hatLast hedges
            (Nat.le_of_succ_le_succ hheight) hrest hgrown
          rw [Trie.offset, walk_admitted hadmitted]
          simp only [bind, Except.bind, uleb_of_at hfirst hatFirst,
            terminalAt_of_at hterminal hatTerminal, byteAt_of_at hatCount,
            ofNat_toNat_of_le hcount, hwalk]
          rfl

theorem Edges.walkEdges_eq : ∀ {edges : Edges} {bytes : Bytes} {pos limit : ℕ} {name : Text}
    {ancestors : List ℕ}, EdgesBytes edges bytes → At data pos bytes → edges.Placed data →
    edges.height ≤ limit → edges.offsets.Nodup →
    (∀ offset ∈ edges.offsets, offset ∉ ancestors) →
    walkEdges data name (fun child name => walk data limit child name ancestors)
      edges.length pos = .ok (edges.rows name)
  | .nil, _, _, _, _, _, _, _, _, _, _, _ => rfl
  | .cons label child rest, _, pos, limit, name, ancestors, hbytes, hat, hplaced, hheight, hnodup,
      hancestors => by
      cases hbytes with
      | @cons _ _ _ second third hlabel hchild hthird =>
          obtain ⟨hatLabel, hat⟩ := at_append.mp hat
          obtain ⟨hatChild, hatRest⟩ := at_append.mp hat
          rw [Edges.height, Nat.max_le] at hheight
          rw [Edges.offsets] at hnodup hancestors
          obtain ⟨hfirst, hothers, -⟩ := List.nodup_append.mp hnodup
          have hfound := @Trie.walk_eq _ _ (name ++ label) _ hplaced.1 hheight.1 hfirst
            fun offset hoffset => hancestors offset (List.mem_append_left _ hoffset)
          have hmore := @Edges.walkEdges_eq _ _ _ _ name _ hthird hatRest hplaced.2 hheight.2
            hothers fun offset hoffset => hancestors offset (List.mem_append_right _ hoffset)
          simp only [Edges.length, walkEdges, bind, Except.bind, cstr_of_at hlabel hatLabel,
            uleb_of_at hchild hatChild, hfound, hmore]
          rfl

end

/-- Different symbols of a map have different names. -/
theorem Trie.Represents.nodup_names {trie : Trie} {exports : Text → Option Entry}
    (h : trie.Represents exports) : ((trie.symbols []).map Prod.fst).Nodup := by
  apply List.Nodup.map_on _ h.nodup
  intro first hfirst second hsecond heq
  have hfirst := (h.symbols first.1 first.2).mp hfirst
  have hsecond := (h.symbols second.1 second.2).mp hsecond
  rw [heq, hsecond] at hfirst
  exact Prod.ext heq (Option.some.inj hfirst).symm

/-- **The decoder gives back the map.** For every layout of every trie that represents a map of
names to entries, there is one row for each name, with its entry, in the order of the names. -/
theorem exportTrie_of_laidOut {trie : Trie} {exports : Text → Option Entry} {limit : ℕ}
    (hlaidOut : trie.LaidOut data) (hrepresents : trie.Represents exports)
    (hlimit : trie.height ≤ limit) :
    ∃ rows, exportTrie limit data = .ok rows ∧
      (∀ name entry, (∃ row ∈ rows, row.name = name ∧ row.entry = entry) ↔
        exports name = some entry) ∧
      rows.Pairwise fun first second => first.name < second.name := by
  have hwalk : walk data limit 0 [] [] = .ok (trie.rows []) := by
    have hwalk := @Trie.walk_eq _ _ _ [] [] hlaidOut.placed hlimit
      hlaidOut.nodup (by simp)
    rwa [hlaidOut.root] at hwalk
  have hok : exportTrie limit data = .ok ((trie.rows []).mergeSort Row.le) := by
    rw [exportTrie, hwalk]
    rfl
  obtain ⟨found, hfound, hperm, hsorted⟩ := exportTrie_ok hok
  rw [hwalk] at hfound
  cases hfound
  generalize (trie.rows []).mergeSort Row.le = rows at hok hperm hsorted
  have hsymbols : (rows.map fun row => (row.name, row.entry)).Perm (trie.symbols []) := by
    rw [← Trie.rows_symbols [] trie]
    exact hperm.map _
  refine ⟨rows, hok, ?_, ?_⟩
  · intro name entry
    rw [← hrepresents.symbols, ← hsymbols.mem_iff, List.mem_map]
    simp only [Prod.mk.injEq]
  · have hnames : (rows.map Row.name).Nodup := by
      have hnodup := (hsymbols.map Prod.fst).nodup_iff.mpr hrepresents.nodup_names
      rwa [List.map_map] at hnodup
    rw [List.Nodup, List.pairwise_map] at hnames
    apply (hsorted.and hnames).imp
    rintro first second ⟨hle, hne⟩
    apply Decidable.byContradiction
    intro hlt
    exact hne (le_antisymm hle (not_lt.mp hlt))

/-- Three symbols, one of each kind, with the child of the root before its last node. -/
def threeSymbols : Trie :=
  .node 0 [0, 2, 95, 97, 0, 11, 95, 0, 0x91, 0] none
    (.cons ['_', 'a'] (.node 11 [2, 0, 5, 0] (some ⟨0, .address 5 none⟩) .nil)
      (.cons ['_'] (.node 17 [0x83, 0, 16, 7, 9, 1, 98, 0, 26] (some ⟨16, .address 7 (some 9)⟩)
        (.cons ['b'] (.node 26 [4, 8, 1, 120, 0, 0] (some ⟨8, .reexport 1 ['x']⟩) .nil) .nil))
        .nil))

/-- The bytes of the three symbols; what is between the nodes is not read. -/
def threeSymbolsData : Bytes :=
  [0, 2, 95, 97, 0, 11, 95, 0, 0x91, 0, 0xff, 2, 0, 5, 0, 0xff, 0xff,
    0x83, 0, 16, 7, 9, 1, 98, 0, 26, 4, 8, 1, 120, 0, 0]

/-- The map of the three symbols. -/
def threeExports (name : Text) : Option Entry :=
  if name = ['_', 'a'] then some ⟨0, .address 5 none⟩
  else if name = ['_'] then some ⟨16, .address 7 (some 9)⟩
  else if name = ['_', 'b'] then some ⟨8, .reexport 1 ['x']⟩
  else none

theorem uleb_one (b : UInt8) (h : b.toNat < 128) : Uleb [b] b.toNat :=
  ⟨.last h, by simp⟩

theorem threeSymbols_placed : threeSymbols.Placed threeSymbolsData := by
  refine ⟨by decide, ?_, ⟨by decide, ?_, trivial⟩, ⟨by decide, ?_, ⟨by decide, ?_, trivial⟩,
    trivial⟩, trivial⟩
  · refine @NodeBytes.mk _ _ [0] [] [95, 97, 0, 11, 95, 0, 0x91, 0]
      (uleb_one 0 (by decide)) .none (by decide) ?_
    refine @EdgesBytes.cons _ _ _ [11] [95, 0, 0x91, 0] (by decide)
      (uleb_one 11 (by decide)) ?_
    exact @EdgesBytes.cons _ _ _ [0x91, 0] [] (by decide)
      ⟨.more (b := 0x91) (by decide) (.last (b := 0) (by decide)), by decide⟩ .nil
  · refine @NodeBytes.mk _ _ [2] [0, 5] [] (uleb_one 2 (by decide)) ?_
      (by decide) .nil
    exact .some (.regular (by decide) (by decide) (uleb_one 0 (by decide))
      (uleb_one 5 (by decide)))
  · refine @NodeBytes.mk _ _ [0x83, 0] [16, 7, 9] [98, 0, 26]
      ⟨.more (b := 0x83) (by decide) (.last (b := 0) (by decide)), by decide⟩ ?_ (by decide) ?_
    · exact .some (.resolver (by decide) (by decide) (uleb_one 16 (by decide))
        (uleb_one 7 (by decide)) (uleb_one 9 (by decide)))
    · exact @EdgesBytes.cons _ _ _ [26] [] (by decide) (uleb_one 26 (by decide)) .nil
  · refine @NodeBytes.mk _ _ [4] [8, 1, 120, 0] []
      (uleb_one 4 (by decide)) ?_ (by decide) .nil
    exact .some (@EntryBytes.reexport _ _ ['x'] _ _ (by decide) (uleb_one 8 (by decide))
      (uleb_one 1 (by decide)) (by decide))

/-- The three symbols are read back. -/
theorem exportTrie_of_laidOut_threeSymbols :
    ∃ rows, exportTrie 3 threeSymbolsData = .ok rows ∧
      (∀ name entry, (∃ row ∈ rows, row.name = name ∧ row.entry = entry) ↔
        threeExports name = some entry) ∧
      rows.Pairwise fun first second => first.name < second.name := by
  apply @exportTrie_of_laidOut _ threeSymbols
  · refine ⟨rfl, threeSymbols_placed, ?_⟩
    simp [threeSymbols, Trie.places, Edges.places, Apart]
  · constructor
    · intro name entry
      simp only [threeSymbols, Trie.symbols, Edges.symbols, threeExports]
      constructor
      · intro hmem
        simp only [Option.toList_none, Option.toList_some, List.map_nil, List.map_cons,
          List.nil_append, List.append_nil, List.cons_append, List.mem_cons, List.not_mem_nil,
          or_false, Prod.mk.injEq] at hmem
        rcases hmem with ⟨rfl, rfl⟩ | ⟨rfl, rfl⟩ | ⟨rfl, rfl⟩ <;> decide
      · intro hexports
        split at hexports
        · simp_all
        · split at hexports
          · simp_all
          · split at hexports <;> simp_all
    · decide
  · decide

end ManicRoom.MachO
