/-
# The walk over an export trie

The walk ends because the ancestors of a call are distinct offsets inside the data, so that
there are at most as many of them as bytes. What a walk returns are the rows of the paths from
its node, one for each path to a node whose terminal is not empty, and a node on a cycle is
refused before that.
-/

import Mathlib.Data.List.Nodup
import Mathlib.Data.List.Perm.Subperm
import ManicRoom.MachO.Nodes

namespace ManicRoom.MachO

open ManicRoom.Foundation

variable {data : Bytes}

/-! ## Calls -/

/-- A call of `walk`. -/
structure Call where
  offset : ℕ
  name : Text
  ancestors : List ℕ

/-- An edge that can be read among this many, when those before it can. -/
inductive EdgeRead (data : Bytes) : ℕ → ℕ → Text → ℕ → Prop
  | here {count pos afterLabel afterChild child : ℕ} {label : Text} :
      cstr data pos = .ok (label, afterLabel) → uleb data afterLabel = .ok (child, afterChild) →
      EdgeRead data (count + 1) pos label child
  | later {count pos afterLabel afterChild child next : ℕ} {label other : Text} :
      cstr data pos = .ok (label, afterLabel) → uleb data afterLabel = .ok (child, afterChild) →
      EdgeRead data count afterChild other next → EdgeRead data (count + 1) pos other next

/-- A call can make another one: its own node is not refused, and an edge leads on. -/
structure Call.Makes (data : Bytes) (call next : Call) : Prop where
  fresh : call.offset ∉ call.ancestors
  inside : call.offset < data.length
  edge : ∃ terminal pos entry count, uleb data call.offset = .ok (terminal, pos) ∧
    terminalAt data terminal pos (pos + terminal) = .ok entry ∧
    byteAt data (pos + terminal) = .ok count ∧
    ∃ label child, EdgeRead data count.toNat (pos + terminal + 1) label child ∧
      next = ⟨child, call.name ++ label, call.offset :: call.ancestors⟩

/-- The calls that a walk from the root can make. -/
def Call.FromRoot (data : Bytes) (call : Call) : Prop :=
  Relation.ReflTransGen (Call.Makes data) ⟨0, [], []⟩ call

/-- The ancestors are distinct offsets inside the data. -/
structure Within (data : Bytes) (ancestors : List ℕ) : Prop where
  nodup : ancestors.Nodup
  inside : ∀ offset ∈ ancestors, offset < data.length

theorem within_nil : Within data [] where
  nodup := List.nodup_nil
  inside := by simp

/-- There are no more ancestors than bytes. -/
theorem Within.length_le {ancestors : List ℕ} (h : Within data ancestors) :
    ancestors.length ≤ data.length := by
  have hsub : ancestors ⊆ List.range data.length := by
    intro offset hoffset
    exact List.mem_range.mpr (h.inside offset hoffset)
  simpa using (List.subperm_of_subset h.nodup hsub).length_le

theorem Within.cons {ancestors : List ℕ} {offset : ℕ} (h : Within data ancestors)
    (hfresh : offset ∉ ancestors) (hinside : offset < data.length) :
    Within data (offset :: ancestors) where
  nodup := List.nodup_cons.mpr ⟨hfresh, h.nodup⟩
  inside := by
    intro other hother
    rcases List.mem_cons.mp hother with rfl | hother
    · exact hinside
    · exact h.inside other hother

/-- Every call from the root has ancestors inside the data. -/
theorem Call.FromRoot.within {call : Call} (h : call.FromRoot data) :
    Within data call.ancestors := by
  induction h with
  | refl => exact within_nil
  | tail _ hmakes ih =>
      obtain ⟨terminal, pos, entry, count, -, -, -, label, child, -, rfl⟩ := hmakes.edge
      exact ih.cons hmakes.fresh hmakes.inside

/-! ## Termination -/

theorem walk_refused {limit offset : ℕ} {name : Text} {ancestors : List ℕ}
    (h : offset ∈ ancestors ∨ data.length ≤ offset) :
    walk data (limit + 1) offset name ancestors = .error (.valueError "invalid trie") := by
  rw [walk, if_pos h]
  rfl

/-- What a walk does at an offset that is not refused. -/
theorem walk_admitted {limit offset : ℕ} {name : Text} {ancestors : List ℕ}
    (h : ¬ (offset ∈ ancestors ∨ data.length ≤ offset)) :
    walk data (limit + 1) offset name ancestors = (do
      let terminal ← uleb data offset
      let entry ← terminalAt data terminal.1 terminal.2 (terminal.2 + terminal.1)
      let count ← byteAt data (terminal.2 + terminal.1)
      let found ← walkEdges data name
        (fun child name => walk data limit child name (offset :: ancestors))
        count.toNat (terminal.2 + terminal.1 + 1)
      pure ((entry.toList.map fun entry => { name, nodeOffset := offset, entry }) ++ found)) := by
  rw [walk, if_neg h]

theorem noRecursionError_walkEdges {name : Text}
    {walk : ℕ → Text → Except PythonError (List Row)} {count pos : ℕ}
    (h : ∀ label child, EdgeRead data count pos label child →
      NoRecursionError (walk child (name ++ label))) :
    NoRecursionError (walkEdges data name walk count pos) := by
  induction count generalizing pos with
  | zero => exact noRecursionError_ok _
  | succ count ih =>
      apply noRecursionError_bind (noRecursionError_cstr pos)
      intro label hlabel
      apply noRecursionError_bind (noRecursionError_uleb _)
      intro child hchild
      apply noRecursionError_bind (h _ _ (.here hlabel hchild))
      intro found hfound
      apply noRecursionError_bind
      · apply ih
        intro other next hother
        exact h other next (.later hlabel hchild hother)
      · intro others hothers
        exact noRecursionError_ok _

/-- A walk gets by with its limit of calls when the calls that it makes get by with one less. -/
theorem noRecursionError_walk_succ {limit offset : ℕ} {name : Text} {ancestors : List ℕ}
    (h : ∀ next, Call.Makes data ⟨offset, name, ancestors⟩ next →
      NoRecursionError (walk data limit next.offset next.name next.ancestors)) :
    NoRecursionError (walk data (limit + 1) offset name ancestors) := by
  by_cases hrefused : offset ∈ ancestors ∨ data.length ≤ offset
  · rw [walk_refused hrefused]
    exact noRecursionError_valueError _
  rw [walk_admitted hrefused]
  obtain ⟨hfresh, hinside⟩ := not_or.mp hrefused
  apply noRecursionError_bind (noRecursionError_uleb offset)
  intro terminal hterminal
  apply noRecursionError_bind (noRecursionError_terminalAt _ _ _)
  intro entry hentry
  apply noRecursionError_bind (noRecursionError_byteAt _)
  intro count hcount
  apply noRecursionError_bind
  · apply noRecursionError_walkEdges
    intro label child hread
    exact h ⟨child, name ++ label, offset :: ancestors⟩
      ⟨hfresh, Nat.not_le.mp hinside, terminal.1, terminal.2, entry, count, hterminal, hentry,
        hcount, label, child, hread, rfl⟩
  · intro found hfound
    exact noRecursionError_ok _

/-- **A walk ends when there are more calls left than offsets that are not ancestors.** -/
theorem noRecursionError_walk {limit offset : ℕ} {name : Text} {ancestors : List ℕ}
    (hwithin : Within data ancestors) (hlimit : data.length < limit + ancestors.length) :
    NoRecursionError (walk data limit offset name ancestors) := by
  induction limit generalizing offset name ancestors with
  | zero =>
      have := hwithin.length_le
      omega
  | succ limit ih =>
      apply noRecursionError_walk_succ
      intro next hmakes
      obtain ⟨terminal, pos, entry, count, -, -, -, label, child, -, rfl⟩ := hmakes.edge
      apply ih (hwithin.cons hmakes.fresh hmakes.inside)
      simp only [List.length_cons]
      omega

theorem walkEdges_eq_of_noRecursionError {name : Text}
    {f g : ℕ → Text → Except PythonError (List Row)} {count pos : ℕ}
    (h : ∀ child label, NoRecursionError (f child label) → g child label = f child label)
    (hends : NoRecursionError (walkEdges data name f count pos)) :
    walkEdges data name g count pos = walkEdges data name f count pos := by
  induction count generalizing pos with
  | zero => rfl
  | succ count ih =>
      unfold walkEdges at hends ⊢
      apply bind_congr_ok
      intro label hlabel
      have hends := (noRecursionError_of_bind hends).2 label hlabel
      apply bind_congr_ok
      intro child hchild
      obtain ⟨hfound, hrest⟩ :=
        noRecursionError_of_bind ((noRecursionError_of_bind hends).2 child hchild)
      dsimp only
      rw [h _ _ hfound]
      apply bind_congr_ok
      intro found hwalk
      rw [ih (noRecursionError_of_bind (hrest found hwalk)).1]

/-- More calls make no difference to a walk that does not run out of them. -/
theorem walk_succ_of_noRecursionError {limit offset : ℕ} {name : Text} {ancestors : List ℕ}
    (h : NoRecursionError (walk data limit offset name ancestors)) :
    walk data (limit + 1) offset name ancestors = walk data limit offset name ancestors := by
  induction limit generalizing offset name ancestors with
  | zero => exact absurd rfl h
  | succ limit ih =>
      by_cases hrefused : offset ∈ ancestors ∨ data.length ≤ offset
      · rw [walk_refused hrefused, walk_refused hrefused]
      rw [walk_admitted hrefused] at h
      rw [walk_admitted hrefused, walk_admitted hrefused]
      apply bind_congr_ok
      intro terminal hterminal
      have h := (noRecursionError_of_bind h).2 terminal hterminal
      apply bind_congr_ok
      intro entry hentry
      have h := (noRecursionError_of_bind h).2 entry hentry
      apply bind_congr_ok
      intro count hcount
      have h := (noRecursionError_of_bind h).2 count hcount
      rw [walkEdges_eq_of_noRecursionError (fun child name hends => ih hends)
        (noRecursionError_of_bind h).1]

theorem walk_of_le {limit greater offset : ℕ} {name : Text} {ancestors : List ℕ}
    (hle : limit ≤ greater) (h : NoRecursionError (walk data limit offset name ancestors)) :
    walk data greater offset name ancestors = walk data limit offset name ancestors := by
  induction hle with
  | refl => rfl
  | step _ ih =>
      rw [← ih] at h
      rw [walk_succ_of_noRecursionError h, ih]

/-! ## The rows of a walk -/

theorem walkEdges_ok {name : Text} {walk : ℕ → Text → Except PythonError (List Row)}
    {count pos : ℕ} {found : List Row} (h : walkEdges data name walk count pos = .ok found) :
    ∃ edges founds, edgesAt data count pos = .ok edges ∧
      List.Forall₂ (fun edge rows => walk edge.2 (name ++ edge.1) = .ok rows) edges founds ∧
      found = founds.flatten := by
  induction count generalizing pos found with
  | zero =>
      cases h
      exact ⟨[], [], rfl, .nil, rfl⟩
  | succ count ih =>
      obtain ⟨⟨label, afterLabel⟩, hlabel, h⟩ := bind_eq_ok.mp h
      obtain ⟨⟨child, afterChild⟩, hchild, h⟩ := bind_eq_ok.mp h
      obtain ⟨rows, hrows, h⟩ := bind_eq_ok.mp h
      obtain ⟨others, hothers, h⟩ := bind_eq_ok.mp h
      cases h
      obtain ⟨edges, founds, hedges, hfounds, rfl⟩ := ih hothers
      refine ⟨(label, child) :: edges, rows :: founds, ?_, .cons hrows hfounds, rfl⟩
      simp [edgesAt, bind, Except.bind, hlabel, hchild, hedges, pure, Except.pure]

/-- A walk that returns has read its node and walked along every edge of it. -/
theorem walk_ok {limit offset : ℕ} {name : Text} {ancestors : List ℕ} {found : List Row}
    (h : walk data limit offset name ancestors = .ok found) :
    ∃ less, limit = less + 1 ∧ offset ∉ ancestors ∧ offset < data.length ∧
      ∃ node, nodeAt data offset = .ok node ∧ ∃ founds,
        List.Forall₂ (fun edge rows =>
          walk data less edge.2 (name ++ edge.1) (offset :: ancestors) = .ok rows)
          node.edges founds ∧
        found = (node.entry.toList.map fun entry => { name, nodeOffset := offset, entry }) ++
          founds.flatten := by
  cases limit with
  | zero => cases h
  | succ less =>
      by_cases hrefused : offset ∈ ancestors ∨ data.length ≤ offset
      · rw [walk_refused hrefused] at h
        cases h
      rw [walk_admitted hrefused] at h
      obtain ⟨hfresh, hinside⟩ := not_or.mp hrefused
      obtain ⟨terminal, hterminal, h⟩ := bind_eq_ok.mp h
      obtain ⟨entry, hentry, h⟩ := bind_eq_ok.mp h
      obtain ⟨count, hcount, h⟩ := bind_eq_ok.mp h
      obtain ⟨found, hfound, h⟩ := bind_eq_ok.mp h
      cases h
      obtain ⟨edges, founds, hedges, hfounds, rfl⟩ := walkEdges_ok hfound
      refine ⟨less, rfl, hfresh, Nat.not_le.mp hinside, ⟨entry, edges⟩, ?_, founds, hfounds, rfl⟩
      simp [nodeAt, bind, Except.bind, hterminal, hentry, hcount, hedges, pure, Except.pure]

/-- The walk has been at this offset, with these ancestors, and has returned. -/
def Walked (data : Bytes) (offset : ℕ) (ancestors : List ℕ) : Prop :=
  ∃ limit name found, walk data limit offset name ancestors = .ok found

theorem Walked.step {offset child : ℕ} {ancestors : List ℕ} (h : Walked data offset ancestors)
    (hedge : Edge data offset child) : Walked data child (offset :: ancestors) := by
  obtain ⟨limit, name, found, h⟩ := h
  obtain ⟨less, -, -, -, node, hnode, founds, hfounds, -⟩ := walk_ok h
  obtain ⟨other, hother, label, hmem⟩ := hedge
  rw [hnode] at hother
  cases hother
  clear hnode
  generalize node.edges = edges at hmem hfounds
  induction hfounds with
  | nil => cases hmem
  | cons hwalk _ ih =>
      rcases List.mem_cons.mp hmem with rfl | hmem
      · exact ⟨less, _, _, hwalk⟩
      · exact ih hmem

theorem Walked.reach {offset target : ℕ} {ancestors : List ℕ} (h : Walked data offset ancestors)
    (hreach : Relation.ReflTransGen (Edge data) offset target) :
    ∃ grown, Walked data target grown ∧ ancestors ⊆ grown := by
  induction hreach with
  | refl => exact ⟨ancestors, h, List.Subset.refl _⟩
  | tail _ hedge ih =>
      obtain ⟨grown, hwalked, hsub⟩ := ih
      exact ⟨_, hwalked.step hedge, List.subset_cons_of_subset _ hsub⟩

/-- A node that has been walked is on no cycle: it would be one of its own ancestors. -/
theorem Walked.not_cycle {offset : ℕ} {ancestors : List ℕ} (h : Walked data offset ancestors) :
    ¬ Relation.TransGen (Edge data) offset offset := by
  intro hcycle
  obtain ⟨child, hedge, hreach⟩ := Relation.TransGen.head'_iff.mp hcycle
  obtain ⟨grown, ⟨limit, name, found, hwalk⟩, hsub⟩ := (h.step hedge).reach hreach
  obtain ⟨-, -, hfresh, -⟩ := walk_ok hwalk
  exact hfresh (hsub List.mem_cons_self)

/-- The next edge of the same node. -/
def nextEdge : List ℕ → List ℕ
  | [] => []
  | i :: path => (i + 1) :: path

theorem nextEdge_injective : Function.Injective nextEdge := by
  intro first second h
  cases first <;> cases second <;> simp_all [nextEdge]

/-- The rows are those of these paths, each of which has one. -/
structure RowsOf (rowOf : List ℕ → Option Row) (paths : List (List ℕ)) (rows : List Row) :
    Prop where
  nodup : paths.Nodup
  complete : ∀ path, path ∈ paths ↔ (rowOf path).isSome
  rows : paths.map rowOf = rows.map some

theorem rowThrough_next (name : Text) (edge : Text × ℕ) (edges : List (Text × ℕ))
    (path : List ℕ) :
    rowThrough data name (edge :: edges) (nextEdge path) = rowThrough data name edges path := by
  cases path with
  | nil => rfl
  | cons i path => rfl

/-- The paths through a list of edges are those through the first one and through the others. -/
theorem RowsOf.cons {name : Text} {edge : Text × ℕ} {edges : List (Text × ℕ)}
    {first others : List (List ℕ)} {rows more : List Row}
    (hfirst : RowsOf (rowFrom data edge.2 (name ++ edge.1)) first rows)
    (hothers : RowsOf (rowThrough data name edges) others more) :
    RowsOf (rowThrough data name (edge :: edges))
      (first.map (0 :: ·) ++ others.map nextEdge) (rows ++ more) where
  nodup := by
    apply List.nodup_append.mpr
    refine ⟨List.Nodup.map List.cons_injective hfirst.nodup,
      List.Nodup.map nextEdge_injective hothers.nodup, ?_⟩
    intro path hpath other hother
    obtain ⟨rest, -, rfl⟩ := List.mem_map.mp hpath
    obtain ⟨next, -, rfl⟩ := List.mem_map.mp hother
    cases next with
    | nil => simp [nextEdge]
    | cons i next => simp [nextEdge]
  complete := by
    intro path
    rw [List.mem_append]
    cases path with
    | nil =>
        have hnil : ([] : List ℕ) ∉ others := by
          simp [hothers.complete, rowThrough]
        have hmapped : ([] : List ℕ) ∈ others.map nextEdge ↔ [] ∈ others :=
          List.mem_map_of_injective nextEdge_injective (a := [])
        simp [hmapped, hnil, rowThrough]
    | cons i path =>
        cases i with
        | zero =>
            have hnone : 0 :: path ∉ others.map nextEdge := by
              intro hmem
              obtain ⟨next, -, hnext⟩ := List.mem_map.mp hmem
              cases next with
              | nil => cases hnext
              | cons i next => cases hnext
            have hthrough : rowThrough data name (edge :: edges) (0 :: path) =
                rowFrom data edge.2 (name ++ edge.1) path := rfl
            rw [hthrough, ← hfirst.complete, List.mem_map_of_injective List.cons_injective]
            simp [hnone]
        | succ i =>
            have hnone : (i + 1) :: path ∉ first.map (0 :: ·) := by simp
            have hmapped : (i + 1) :: path ∈ others.map nextEdge ↔ i :: path ∈ others :=
              List.mem_map_of_injective nextEdge_injective (a := i :: path)
            rw [hmapped, hothers.complete, ← rowThrough_next name edge edges (i :: path)]
            simp [hnone, nextEdge]
  rows := by
    have hnext : rowThrough data name (edge :: edges) ∘ nextEdge = rowThrough data name edges := by
      funext path
      exact rowThrough_next name edge edges path
    have hzero : rowThrough data name (edge :: edges) ∘ (0 :: ·) =
        rowFrom data edge.2 (name ++ edge.1) := by
      funext path
      rfl
    rw [List.map_append, List.map_map, List.map_map, hnext, hzero, hfirst.rows, hothers.rows,
      List.map_append]

theorem rowsOf_through {name : Text} {edges : List (Text × ℕ)} {founds : List (List Row)}
    (h : List.Forall₂ (fun edge rows =>
      ∃ paths, RowsOf (rowFrom data edge.2 (name ++ edge.1)) paths rows) edges founds) :
    ∃ paths, RowsOf (rowThrough data name edges) paths founds.flatten := by
  induction h with
  | nil =>
      refine ⟨[], List.nodup_nil, ?_, rfl⟩
      intro path
      cases path with
      | nil => simp [rowThrough]
      | cons i path => simp [rowThrough]
  | cons hfirst _ ih =>
      obtain ⟨first, hfirst⟩ := hfirst
      obtain ⟨others, hothers⟩ := ih
      exact ⟨_, hfirst.cons hothers⟩

/-- The paths from a node are the empty one, if its terminal is not empty, and those through its
edges. -/
theorem RowsOf.node {offset : ℕ} {name : Text} {node : Node} {others : List (List ℕ)}
    {more : List Row} (hnode : nodeAt data offset = .ok node)
    (hothers : RowsOf (rowThrough data name node.edges) others more) :
    RowsOf (rowFrom data offset name) ((node.entry.toList.map fun _ => []) ++ others)
      ((node.entry.toList.map fun entry => { name, nodeOffset := offset, entry }) ++ more) := by
  have hnil : ([] : List ℕ) ∉ others := by
    simp [hothers.complete, rowThrough]
  have hrows : others.map (rowFrom data offset name) = more.map some := by
    rw [← hothers.rows]
    apply List.map_congr_left
    intro path hpath
    cases path with
    | nil => exact absurd hpath hnil
    | cons i path => exact rowFrom_cons hnode name i path
  refine ⟨?_, ?_, ?_⟩
  · cases node.entry with
    | none => simpa using hothers.nodup
    | some entry => simpa [hnil] using hothers.nodup
  · intro path
    cases path with
    | nil =>
        rw [rowFrom_nil hnode]
        cases node.entry with
        | none => simp [hnil]
        | some entry => simp
    | cons i path =>
        rw [rowFrom_cons hnode, ← hothers.complete]
        cases node.entry with
        | none => simp
        | some entry => simp
  · have hroot := rowFrom_nil hnode name
    cases hentry : node.entry with
    | none => simpa using hrows
    | some entry =>
        rw [hentry] at hroot
        simp [hrows, hroot]

/-- **A walk returns one row for each path to a node whose terminal is not empty.** -/
theorem walk_rowsOf {limit offset : ℕ} {name : Text} {ancestors : List ℕ} {found : List Row}
    (h : walk data limit offset name ancestors = .ok found) :
    ∃ paths, RowsOf (rowFrom data offset name) paths found := by
  induction limit generalizing offset name ancestors found with
  | zero => cases h
  | succ limit ih =>
      obtain ⟨less, hless, -, -, node, hnode, founds, hfounds, rfl⟩ := walk_ok h
      cases hless
      obtain ⟨others, hothers⟩ := rowsOf_through (hfounds.imp fun _ _ hwalk => ih hwalk)
      exact ⟨_, hothers.node hnode⟩

/-! ## The decoder -/

theorem Row.le_trans {first second third : Row} (h : first.le second) (h' : second.le third) :
    first.le third := by
  simp only [Row.le, decide_eq_true_eq] at *
  exact h.trans h'

theorem Row.le_total (first second : Row) : first.le second || second.le first := by
  simp only [Row.le, Bool.or_eq_true, decide_eq_true_eq]
  exact LinearOrder.le_total _ _

/-- The rows of a result are those of the walk from the root, in the order of their names. -/
theorem exportTrie_ok {limit : ℕ} {rows : List Row} (h : exportTrie limit data = .ok rows) :
    ∃ found, walk data limit 0 [] [] = .ok found ∧ rows.Perm found ∧
      rows.Pairwise fun first second => first.name ≤ second.name := by
  obtain ⟨found, hfound, h⟩ := bind_eq_ok.mp h
  cases h
  refine ⟨found, hfound, List.mergeSort_perm found Row.le, ?_⟩
  have hsorted := @List.pairwise_mergeSort _ Row.le (fun _ _ _ => Row.le_trans)
    Row.le_total found
  exact hsorted.imp fun h => of_decide_eq_true h

/-- What holds of every result: the reachable nodes are inside the data, are read completely and
lie on no cycle, and the rows are those of the paths from the root. -/
structure Sound (data : Bytes) (rows : List Row) : Prop where
  inside : ∀ offset, Reachable data offset → offset < data.length
  consumed : ∀ offset, Reachable data offset →
    ∃ node, nodeAt data offset = .ok node ∧ TerminalConsumed data offset node
  acyclic : ∀ offset, Reachable data offset → ¬ Relation.TransGen (Edge data) offset offset
  rowsOfPaths : ∃ paths : List (List ℕ), paths.Nodup ∧
    (∀ path, path ∈ paths ↔ (rowAt data path).isSome) ∧
    (paths.map (rowAt data)).Perm (rows.map some)

theorem sound_of_ok {limit : ℕ} {rows : List Row} (h : exportTrie limit data = .ok rows) :
    Sound data rows := by
  obtain ⟨found, hfound, hperm, -⟩ := exportTrie_ok h
  have hroot : Walked data 0 [] := ⟨limit, [], found, hfound⟩
  have hwalked : ∀ offset, Reachable data offset → ∃ ancestors, Walked data offset ancestors := by
    intro offset hreach
    obtain ⟨ancestors, hwalked, -⟩ := hroot.reach hreach
    exact ⟨ancestors, hwalked⟩
  refine ⟨?_, ?_, ?_, ?_⟩
  · intro offset hreach
    obtain ⟨ancestors, less, name, rows, hwalk⟩ := hwalked offset hreach
    obtain ⟨-, -, -, hinside, -⟩ := walk_ok hwalk
    exact hinside
  · intro offset hreach
    obtain ⟨ancestors, less, name, rows, hwalk⟩ := hwalked offset hreach
    obtain ⟨-, -, -, -, node, hnode, -⟩ := walk_ok hwalk
    exact ⟨node, hnode, nodeAt_terminalConsumed hnode⟩
  · intro offset hreach
    obtain ⟨ancestors, hwalked⟩ := hwalked offset hreach
    exact hwalked.not_cycle
  · obtain ⟨paths, hpaths⟩ := walk_rowsOf hfound
    refine ⟨paths, hpaths.nodup, hpaths.complete, ?_⟩
    have hrows : paths.map (rowAt data) = found.map some := hpaths.rows
    rw [hrows]
    exact (hperm.map some).symm

/-- The loops of the readers are bounded: at most ten bytes of a number, at most 255 edges. -/
structure LoopsBounded (data : Bytes) : Prop where
  uleb : ∀ pos value next, uleb data pos = .ok (value, next) → next ≤ pos + 10
  edges : ∀ offset node, nodeAt data offset = .ok node → node.edges.length ≤ 255

/-- The recursion goes down: a call from the root has distinct ancestors inside the data, and
the calls that it makes have one more. -/
structure RecursionBounded (data : Bytes) : Prop where
  within : ∀ call : Call, call.FromRoot data → Within data call.ancestors
  grows : ∀ call next : Call, call.FromRoot data → call.Makes data next →
    call.offset ∉ call.ancestors ∧ next.ancestors = call.offset :: call.ancestors
  depth : ∀ call : Call, call.FromRoot data → call.ancestors.length ≤ data.length

/-- **The decoder ends on all bytes, and a result is sound.** With more calls than bytes it does
not run out of them; with fewer, it runs out or gives the same. -/
theorem exportTrie_ends (data : Bytes) :
    LoopsBounded data ∧ RecursionBounded data ∧
    (∀ limit, data.length < limit →
      exportTrie limit data ≠ .error .recursionError) ∧
    (∀ limit, exportTrie limit data = .error .recursionError ∨
      exportTrie limit data = exportTrie (data.length + 1) data) ∧
    ∀ limit rows, exportTrie limit data = .ok rows → Sound data rows := by
  have hends : ∀ limit, data.length < limit → NoRecursionError (walk data limit 0 [] []) := by
    intro limit hlimit
    apply noRecursionError_walk within_nil
    simpa using hlimit
  refine ⟨⟨?_, ?_⟩, ⟨?_, ?_, ?_⟩, ?_, ?_, ?_⟩
  · intro pos value next hread
    exact (uleb_pos hread).2
  · intro offset node hnode
    exact nodeAt_edges_length hnode
  · intro call hcall
    exact hcall.within
  · intro call next hcall hmakes
    obtain ⟨terminal, pos, entry, count, -, -, -, label, child, -, rfl⟩ := hmakes.edge
    exact ⟨hmakes.fresh, rfl⟩
  · intro call hcall
    exact hcall.within.length_le
  · intro limit hlimit
    apply noRecursionError_bind (hends limit hlimit)
    intro found hfound
    exact noRecursionError_ok _
  · intro limit
    by_cases hlimit : NoRecursionError (walk data limit 0 [] [])
    · right
      have hmany := hends (data.length + 1) (Nat.lt_succ_self _)
      have heq : walk data limit 0 [] [] = walk data (data.length + 1) 0 [] [] := by
        rcases Nat.le_total limit (data.length + 1) with hle | hle
        · exact (walk_of_le hle hlimit).symm
        · exact walk_of_le hle hmany
      rw [exportTrie, exportTrie, heq]
    · left
      rw [exportTrie, not_not.mp hlimit]
      rfl
  · intro limit rows hrows
    exact sound_of_ok hrows

end ManicRoom.MachO
