/-
# Tokens that are replaced by smaller ones

A system works off a pool of tokens: a step takes one of them and may put a bounded number of
others in its place. If those are always of smaller depth, the pool is worked off after as
many steps as its weight, in whatever order the tokens are taken. Nothing here refers to a
particular program.
-/

import Mathlib.Algebra.Order.BigOperators.Group.List
import Mathlib.Algebra.Order.Ring.Nat

namespace ManicRoom.Foundation

universe u v

/-- So many steps of a relation, one after the other. -/
inductive Steps {State : Type u} (step : State → State → Prop) : ℕ → State → State → Prop
  | nil (state : State) : Steps step 0 state state
  | cons {count : ℕ} {first second third : State} (head : step first second)
      (tail : Steps step count second third) : Steps step (count + 1) first third

/-- A run of a relation whose steps are marked: so many of them count, and any number of others
may come between. -/
inductive CountedSteps {State : Type u} (step : Bool → State → State → Prop) :
    ℕ → State → State → Prop
  | nil (state : State) : CountedSteps step 0 state state
  | cons {count : ℕ} {counts : Bool} {first second third : State}
      (head : step counts first second) (tail : CountedSteps step count second third) :
      CountedSteps step (count + counts.toNat) first third

/-- A measure that the steps that count decrease and the others do not increase bounds how many
count. -/
theorem CountedSteps.le_of_decreasing {State : Type u} {step : Bool → State → State → Prop}
    (holds : State → Prop) (measure : State → ℕ)
    (hstep : ∀ counts first second, holds first → step counts first second →
      holds second ∧ measure second + counts.toNat ≤ measure first)
    {count : ℕ} {first last : State} (hfirst : holds first)
    (h : CountedSteps step count first last) : count + measure last ≤ measure first := by
  induction h with
  | nil state => exact (Nat.zero_add _).le
  | @cons count counts first second third head tail ih =>
      obtain ⟨hsecond, hless⟩ := hstep counts first second hfirst head
      have hrest := ih hsecond
      omega

/-- How many steps a token of a depth can cause, if each is replaced by at most so many. -/
def tokenWeight (branching : ℕ) : ℕ → ℕ
  | 0 => 1
  | depth + 1 => 1 + branching * tokenWeight branching depth

theorem tokenWeight_pos (branching depth : ℕ) : 0 < tokenWeight branching depth := by
  cases depth with
  | zero => exact Nat.zero_lt_one
  | succ depth => exact Nat.add_pos_left Nat.zero_lt_one _

theorem tokenWeight_mono (branching : ℕ) : Monotone (tokenWeight branching) := by
  apply monotone_nat_of_le_succ
  intro depth
  induction depth with
  | zero => simp [tokenWeight]
  | succ depth ih => exact Nat.add_le_add_left (Nat.mul_le_mul_left branching ih) 1

variable {Token : Type v}

/-- The weight of a pool. -/
def poolWeight (branching : ℕ) (depth : Token → ℕ) (pool : List Token) : ℕ :=
  (pool.map fun token => tokenWeight branching (depth token)).sum

theorem poolWeight_append (branching : ℕ) (depth : Token → ℕ) (first second : List Token) :
    poolWeight branching depth (first ++ second) =
      poolWeight branching depth first + poolWeight branching depth second := by
  simp [poolWeight]

/-- Few tokens of smaller depth weigh less than the token they replace. -/
theorem poolWeight_lt {branching : ℕ} {depth : Token → ℕ} {token : Token} {new : List Token}
    (hlength : new.length ≤ branching) (hdepth : ∀ other ∈ new, depth other < depth token) :
    poolWeight branching depth new < tokenWeight branching (depth token) := by
  cases hd : depth token with
  | zero =>
      have hnil : new = [] := by
        apply List.eq_nil_iff_forall_not_mem.mpr
        intro other hmem
        have hless := hdepth other hmem
        omega
      rw [hnil]
      exact tokenWeight_pos branching 0
  | succ d =>
      have hsum : poolWeight branching depth new ≤ new.length * tokenWeight branching d := by
        have hle : ∀ weight ∈ new.map fun other => tokenWeight branching (depth other),
            weight ≤ tokenWeight branching d := by
          intro weight hmem
          obtain ⟨other, hother, rfl⟩ := List.mem_map.mp hmem
          have hless := hdepth other hother
          exact tokenWeight_mono branching (by omega)
        simpa [poolWeight] using List.sum_le_card_nsmul _ _ hle
      calc poolWeight branching depth new ≤ new.length * tokenWeight branching d := hsum
        _ ≤ branching * tokenWeight branching d := Nat.mul_le_mul_right _ hlength
        _ < 1 + branching * tokenWeight branching d := by omega

/-- Taking a token and leaving few of smaller depth makes the pool lighter. -/
theorem poolWeight_replace_lt {branching : ℕ} {depth : Token → ℕ} {token : Token}
    {before after new : List Token} (hlength : new.length ≤ branching)
    (hdepth : ∀ other ∈ new, depth other < depth token) :
    poolWeight branching depth (before ++ after ++ new) <
      poolWeight branching depth (before ++ token :: after) := by
  have hnew := poolWeight_lt hlength hdepth
  have hcons : poolWeight branching depth (token :: after) =
      tokenWeight branching (depth token) + poolWeight branching depth after := by
    simp [poolWeight]
  rw [poolWeight_append, poolWeight_append, poolWeight_append, hcons]
  omega

end ManicRoom.Foundation
