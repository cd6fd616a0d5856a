/-
# Machines that answer every input

Where a component answers each call and never refuses one, its behaviour is a total
function from inputs to answers. A machine is run over a list of inputs and compared
with another through an abstraction of its state: if the abstraction commutes with
every step, the two run in lockstep, and their answers agree as long as the single
steps answer alike. Nothing here refers to a particular program.
-/

import Mathlib.Data.Nat.Init
import Mathlib.Data.List.Basic

namespace ManicRoom.Foundation

universe u v w x

/-- A deterministic machine: every input moves the state and is answered. -/
structure Machine (State : Type u) (Input : Type v) (Output : Type w) where
  step : State → Input → State × Output

namespace Machine

variable {State : Type u} {Input : Type v} {Output : Type w} (M : Machine State Input Output)

/-- The state after a list of inputs. -/
def run : State → List Input → State
  | state, [] => state
  | state, input :: inputs => run (M.step state input).1 inputs

/-- The answers to a list of inputs. -/
def outputs : State → List Input → List Output
  | _, [] => []
  | state, input :: inputs => (M.step state input).2 :: outputs (M.step state input).1 inputs

variable {M}

/-- What the step of every input of a run preserves, the run preserves. -/
theorem run_invariant_of_mem (holds : State → Prop) {inputs : List Input}
    (hstep : ∀ input ∈ inputs, ∀ state, holds state → holds (M.step state input).1)
    {state : State} (h : holds state) : holds (M.run state inputs) := by
  induction inputs generalizing state with
  | nil => exact h
  | cons input inputs ih =>
      apply ih
      · exact fun later hmem => hstep later (List.mem_cons_of_mem _ hmem)
      · exact hstep input (List.mem_cons_self ..) state h

/-- What every step preserves, every run preserves. -/
theorem run_invariant (holds : State → Prop)
    (hstep : ∀ state input, holds state → holds (M.step state input).1)
    {state : State} (h : holds state) (inputs : List Input) : holds (M.run state inputs) :=
  run_invariant_of_mem holds (fun input _ state => hstep state input) h

theorem run_append (state : State) (before after : List Input) :
    M.run state (before ++ after) = M.run (M.run state before) after := by
  induction before generalizing state with
  | nil => rfl
  | cons input before ih => exact ih (M.step state input).1

section Lockstep

variable {State' : Type x} {N : Machine State' Input Output} (abstraction : State → State')
  (holds : State → Prop) (hinvariant : ∀ state input, holds state → holds (M.step state input).1)
  (hstep : ∀ state input, holds state →
    (N.step (abstraction state) input).1 = abstraction (M.step state input).1)

include hinvariant hstep

/-- **Lockstep.** An abstraction that commutes with every step commutes with runs. -/
theorem run_lockstep {state : State} (h : holds state) (inputs : List Input) :
    N.run (abstraction state) inputs = abstraction (M.run state inputs) := by
  induction inputs generalizing state with
  | nil => rfl
  | cons input inputs ih =>
      simp only [run, hstep state input h]
      exact ih (hinvariant state input h)

/-- In lockstep two machines answer alike where all their steps do. -/
theorem outputs_lockstep {state : State} (h : holds state) (inputs : List Input)
    (houtput : ∀ before input after, inputs = before ++ input :: after →
      (N.step (abstraction (M.run state before)) input).2 =
        (M.step (M.run state before) input).2) :
    N.outputs (abstraction state) inputs = M.outputs state inputs := by
  induction inputs generalizing state with
  | nil => rfl
  | cons input inputs ih =>
      have hhead : (N.step (abstraction state) input).2 = (M.step state input).2 :=
        houtput [] input inputs rfl
      simp only [outputs, hhead, hstep state input h]
      refine congrArg _ (ih (hinvariant state input h) fun before later after hsplit => ?_)
      exact houtput (input :: before) later after (by rw [hsplit]; rfl)

end Lockstep

/-! ## Histories

A history is a list of inputs, the latest one last. -/

section Histories

variable (M) (start : State) (grants ends : State → Input → Prop)

/-- Some input of the history granted something, and nothing has ended it since. -/
inductive Since : List Input → Prop
  | grant {before : List Input} {input : Input} (h : grants (M.run start before) input) :
      Since (before ++ [input])
  | keep {before : List Input} {input : Input} (h : Since before)
      (hkeeps : ¬ ends (M.run start before) input) : Since (before ++ [input])

/-- How many inputs of the history met the condition when they came. -/
def count (counts : State → Input → Bool) : State → List Input → ℕ
  | _, [] => 0
  | state, input :: inputs =>
      (if counts state input then 1 else 0) + count counts (M.step state input).1 inputs

variable {M start grants ends}

theorem since_append_singleton {before : List Input} {input : Input} :
    M.Since start grants ends (before ++ [input]) ↔
      grants (M.run start before) input ∨
        M.Since start grants ends before ∧ ¬ ends (M.run start before) input := by
  constructor
  · intro h
    generalize hinputs : before ++ [input] = inputs at h
    cases h with
    | grant h =>
        obtain ⟨rfl, heq⟩ := List.append_inj' hinputs rfl
        cases heq
        exact .inl h
    | keep h hkeeps =>
        obtain ⟨rfl, heq⟩ := List.append_inj' hinputs rfl
        cases heq
        exact .inr ⟨h, hkeeps⟩
  · rintro (h | ⟨h, hkeeps⟩)
    · exact .grant h
    · exact .keep h hkeeps

/-- The input that granted it, and what came after it. -/
theorem Since.exists_split {inputs : List Input} (h : M.Since start grants ends inputs) :
    ∃ before input after, inputs = before ++ input :: after ∧ grants (M.run start before) input ∧
      ∀ middle later rest, after = middle ++ later :: rest →
        ¬ ends (M.run start (before ++ input :: middle)) later := by
  induction h with
  | @grant before input h =>
      refine ⟨before, input, [], rfl, h, fun middle later rest hsplit => ?_⟩
      simp at hsplit
  | @keep inputs last h hkeeps ih =>
      obtain ⟨before, input, after, rfl, hgrants, hafter⟩ := ih
      refine ⟨before, input, after ++ [last], by simp, hgrants, fun middle later rest hsplit => ?_⟩
      rcases List.eq_nil_or_concat rest with rfl | ⟨rest, final, rfl⟩
      · obtain ⟨rfl, heq⟩ := List.append_inj' hsplit rfl
        cases heq
        exact hkeeps
      · rw [List.concat_eq_append, ← List.cons_append, ← List.append_assoc] at hsplit
        exact hafter middle later rest (List.append_inj' hsplit rfl).1

theorem count_append (counts : State → Input → Bool) (state : State) (before after : List Input) :
    M.count counts state (before ++ after) =
      M.count counts state before + M.count counts (M.run state before) after := by
  induction before generalizing state with
  | nil => simp [count, run]
  | cons input before ih => simp [count, run, ih, Nat.add_assoc]

theorem count_le_add {counts left right : State → Input → Bool}
    (h : ∀ state input, counts state input = true → left state input = true ∨
      right state input = true) (state : State) (inputs : List Input) :
    M.count counts state inputs ≤ M.count left state inputs + M.count right state inputs := by
  induction inputs generalizing state with
  | nil => exact Nat.le_refl 0
  | cons input inputs ih =>
      have hrest := ih (M.step state input).1
      have hone : (if counts state input then 1 else 0) ≤
          (if left state input then 1 else 0) + if right state input then 1 else 0 := by
        cases hcounts : counts state input with
        | false => exact Nat.zero_le _
        | true => rcases h state input hcounts with hleft | hright <;> simp [*]
      simp only [count]
      omega

end Histories

end Machine

end ManicRoom.Foundation
