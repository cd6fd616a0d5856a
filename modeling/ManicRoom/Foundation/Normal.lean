/-
# Normal forms of paths

What `lexically_normal` leaves of a path are names, after parts that lead upwards if the path is
relative. Nothing more can be taken from such parts, so that a normal form stays what it is, and
it depends on the parts of the path and on where it begins, not on separators at its end. Nothing
here refers to a particular program.
-/

import ManicRoom.Foundation.Path

namespace ManicRoom.Foundation

universe u

namespace Path

variable {Name : Type u} {absolute : Bool}

/-! ## Parts -/

/-- Nothing can be cancelled, of parts in reverse: they are names, and only before them a relative
path may lead upwards. -/
def Settled (absolute : Bool) : List (Part Name) → Prop
  | [] => True
  | .name _ :: left => Settled absolute left
  | .up :: left => absolute = false ∧ ∀ part ∈ left, part = .up
  | .here :: _ => False

theorem settled_of_up {left : List (Part Name)} (h : ∀ part ∈ left, part = .up)
    (hrelative : absolute = false) : Settled absolute left := by
  cases left with
  | nil => trivial
  | cons part left =>
      obtain ⟨rfl, hleft⟩ := List.forall_mem_cons.mp h
      exact ⟨hrelative, hleft⟩

theorem Settled.tail {part : Part Name} {left : List (Part Name)}
    (h : Settled absolute (part :: left)) : Settled absolute left := by
  cases part with
  | name name => exact h
  | up => exact settled_of_up h.2 h.1
  | here => exact h.elim

theorem Settled.of_append {more left : List (Part Name)} (h : Settled absolute (more ++ left)) :
    Settled absolute left := by
  induction more with
  | nil => exact h
  | cons part more ih => exact ih h.tail

/-- What is left is settled. -/
theorem settled_cancel (parts : List (Part Name)) {left : List (Part Name)}
    (h : Settled absolute left) : Settled absolute (cancel absolute left parts).reverse := by
  induction parts generalizing left with
  | nil => rwa [cancel, List.reverse_reverse]
  | cons part parts ih =>
      cases part with
      | name name =>
          rw [cancel]
          exact ih h
      | here =>
          rw [cancel]
          exact ih h
      | up =>
          cases left with
          | nil =>
              cases absolute with
              | true => exact ih h
              | false => exact ih ⟨rfl, by rintro _ ⟨⟩⟩
          | cons last left =>
              cases last with
              | name name => exact ih h
              | here => exact h.elim
              | up =>
                  obtain ⟨rfl, hleft⟩ := h
                  exact ih ⟨rfl, List.forall_mem_cons.mpr ⟨rfl, hleft⟩⟩

/-- Settled parts are left as they are. -/
theorem cancel_of_settled (parts : List (Part Name)) {left : List (Part Name)}
    (h : Settled absolute (parts.reverse ++ left)) :
    cancel absolute left parts = left.reverse ++ parts := by
  induction parts generalizing left with
  | nil => rw [cancel, List.append_nil]
  | cons part parts ih =>
      have h : Settled absolute (parts.reverse ++ part :: left) := by
        rwa [List.reverse_cons, List.append_assoc] at h
      have hnext : cancel absolute left (part :: parts) = cancel absolute (part :: left) parts := by
        have hpart := h.of_append
        cases part with
        | name name => rw [cancel]
        | here => exact hpart.elim
        | up =>
            obtain ⟨rfl, hleft⟩ := hpart
            cases left with
            | nil => rfl
            | cons last left =>
                obtain ⟨rfl, -⟩ := List.forall_mem_cons.mp hleft
                rfl
      rw [hnext, ih h, List.reverse_cons, List.append_assoc]
      rfl

/-! ## Normal forms -/

theorem normal_absolute (p : Path Name) : p.normal.absolute = p.absolute := by
  unfold normal
  split
  · rfl
  · dsimp only
    split
    · next h =>
      rw [Bool.and_eq_true, Bool.not_eq_true'] at h
      exact h.1.symm
    · rfl

/-- The parts of a normal form do not depend on separators at the end. -/
theorem normal_parts_congr {p q : Path Name} (habsolute : p.absolute = q.absolute)
    (hparts : p.parts = q.parts) : p.normal.parts = q.normal.parts := by
  have hempty : p.isEmpty = q.isEmpty := by rw [isEmpty, isEmpty, habsolute, hparts]
  unfold normal
  rw [hempty, habsolute, hparts]
  split
  · exact hparts
  · dsimp only
    split <;> rfl

/-- The parts of a normal form: the current directory, or parts that are settled. -/
theorem normal_parts_cases (p : Path Name) (hp : p.isEmpty = false) :
    p.absolute = false ∧ p.normal.parts = [.here] ∨
      Settled p.absolute p.normal.parts.reverse ∧ (p.absolute = true ∨ p.normal.parts ≠ []) := by
  have hsettled : Settled p.absolute (cancel p.absolute [] p.parts).reverse :=
    settled_cancel p.parts trivial
  simp only [normal, hp, Bool.false_eq_true, if_false]
  split
  · next h =>
    rw [Bool.and_eq_true, Bool.not_eq_true'] at h
    exact .inl ⟨h.1, rfl⟩
  · next h =>
    refine .inr ⟨hsettled, ?_⟩
    simp only [of_parts]
    cases habsolute : p.absolute with
    | true => exact .inl rfl
    | false => exact .inr fun hparts => h (by simp [habsolute] at hparts ⊢; exact hparts)

/-- What has the parts of a normal form and no separator at its end is a normal form. -/
theorem normal_of_settled {p : Path Name} (hparts : Settled p.absolute p.parts.reverse)
    (hsome : p.absolute = true ∨ p.parts ≠ []) (htrailing : p.trailing = false) :
    p.normal = p := by
  have hempty : p.isEmpty = false := by
    rcases hsome with habsolute | hne
    · simp [isEmpty, habsolute]
    · simp [isEmpty, hne]
  have hcancel : cancel p.absolute [] p.parts = p.parts := by
    rw [cancel_of_settled p.parts (by rwa [List.append_nil]), List.reverse_nil, List.nil_append]
  have hhere : (!p.absolute && p.parts.isEmpty) = false := by
    rcases hsome with habsolute | hne
    · simp [habsolute]
    · simp [hne]
  have hself (trailing : Bool) (h : trailing = false) : of p.absolute p.parts trailing = p := by
    obtain ⟨absolute, parts, trailing, proper⟩ := p
    simp only at htrailing
    simp [of, h, htrailing]
  unfold normal
  rw [hempty]
  simp only [Bool.false_eq_true, if_false, hcancel, hhere, htrailing, Bool.false_or]
  apply hself
  -- The last part is a name, or it leads upwards.
  rw [List.getLast?_eq_head?_reverse]
  cases hreverse : p.parts.reverse with
  | nil => rfl
  | cons last left =>
      rw [hreverse] at hparts
      cases last with
      | name name => rfl
      | up => rfl
      | here => exact hparts.elim

theorem normal_ofPart_here : (ofPart .here : Path Name).normal = ofPart .here := rfl

end Path

end ManicRoom.Foundation
