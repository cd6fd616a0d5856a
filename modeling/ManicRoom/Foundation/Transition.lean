/-
# Guarded transition systems

A concurrent component is modelled by a partial step function: a label names the
thread that moves and the outcome its environment chose, and `none` says that the
thread cannot make that move now. This module fixes the vocabulary shared by all
such models and proves the induction rules once.

Reachability carries a *guard*, a condition on each step and on the state it is
taken from. The unguarded relation is the instance whose guard is always true, so
a safety theorem and a theorem about the runs that avoid some step are two
instances of one rule. Nothing here refers to a particular program.
-/

import Mathlib.Data.Nat.Init
import Mathlib.Data.Option.Basic

namespace ManicRoom.Foundation

universe u v w x

/-- A transition system: initial states and a partial, deterministic step under a
label that carries every choice the environment makes. -/
structure System (State : Type u) (Label : Type v) where
  /-- The states a run may start in. -/
  init : State → Prop
  /-- One step, or `none` where the label is not enabled. -/
  step : State → Label → Option State

namespace System

variable {State : Type u} {Label : Type v} (S : System State Label)

/-- States reached by steps that all meet `guard`. -/
inductive ReachableVia (guard : State → Label → Prop) : State → Prop
  | init {state : State} (h : S.init state) : ReachableVia guard state
  | step {source target : State} (label : Label) (prior : ReachableVia guard source)
      (ok : guard source label) (h : S.step source label = some target) :
      ReachableVia guard target

/-- States reached by any steps at all. -/
def Reachable : State → Prop := S.ReachableVia fun _ _ => True

variable {S}

/-- A weaker condition on the steps reaches at least as many states. -/
theorem ReachableVia.mono {strong weak : State → Label → Prop}
    (himp : ∀ state label, strong state label → weak state label) {state : State}
    (h : S.ReachableVia strong state) : S.ReachableVia weak state := by
  induction h with
  | init hinit => exact .init hinit
  | step label _ ok hstep ih => exact .step label ih (himp _ _ ok) hstep

/-- A guarded run is in particular a run. -/
theorem ReachableVia.reachable {guard : State → Label → Prop} {state : State}
    (h : S.ReachableVia guard state) : S.Reachable state :=
  h.mono fun _ _ _ => trivial

theorem Reachable.init {state : State} (h : S.init state) : S.Reachable state :=
  ReachableVia.init h

theorem Reachable.step {source target : State} (label : Label)
    (prior : S.Reachable source) (h : S.step source label = some target) :
    S.Reachable target :=
  ReachableVia.step label prior trivial h

/-- **The invariant rule.** What holds initially and survives every step that
meets the guard holds in every state such steps reach. The step obligation may
use that its source is reachable, hence every invariant proved before. -/
theorem ReachableVia.invariant {guard : State → Label → Prop} (holds : State → Prop)
    (hinit : ∀ state, S.init state → holds state)
    (hstep : ∀ source label target, S.ReachableVia guard source → guard source label →
      holds source → S.step source label = some target → holds target)
    {state : State} (h : S.ReachableVia guard state) : holds state := by
  induction h with
  | init hi => exact hinit _ hi
  | step label prior ok hs ih => exact hstep _ label _ prior ok ih hs

/-- The invariant rule without a guard. -/
theorem Reachable.invariant (holds : State → Prop)
    (hinit : ∀ state, S.init state → holds state)
    (hstep : ∀ source label target, S.Reachable source →
      holds source → S.step source label = some target → holds target)
    {state : State} (h : S.Reachable state) : holds state :=
  ReachableVia.invariant holds hinit
    (fun source label target prior _ hs => hstep source label target prior hs) h

variable (S) in
/-- Execute a schedule, stopping with `none` at the first label that is not
enabled or does not meet the guard. -/
def runVia (guard : State → Label → Prop) [∀ state label, Decidable (guard state label)] :
    State → List Label → Option State
  | state, [] => some state
  | state, label :: rest =>
      if guard state label then
        match S.step state label with
        | some target => runVia guard target rest
        | none => none
      else none

variable (S) in
/-- Execute a schedule without a guard. -/
def run : State → List Label → Option State
  | state, [] => some state
  | state, label :: rest =>
      match S.step state label with
      | some target => run target rest
      | none => none

/-- A schedule that executes under the guard ends in a guarded-reachable state. -/
theorem reachableVia_of_runVia {guard : State → Label → Prop}
    [∀ state label, Decidable (guard state label)] {source target : State}
    (hsource : S.ReachableVia guard source) (schedule : List Label)
    (hrun : S.runVia guard source schedule = some target) :
    S.ReachableVia guard target := by
  induction schedule generalizing source with
  | nil =>
      simp only [runVia, Option.some.injEq] at hrun
      exact hrun ▸ hsource
  | cons label rest ih =>
      simp only [runVia] at hrun
      split at hrun
      · next ok =>
        split at hrun
        · next hstep => exact ih (.step label hsource ok hstep) hrun
        · cases hrun
      · cases hrun

/-- A schedule that executes ends in a reachable state. -/
theorem reachable_of_run {source target : State} (hsource : S.Reachable source)
    (schedule : List Label) (hrun : S.run source schedule = some target) :
    S.Reachable target := by
  induction schedule generalizing source with
  | nil =>
      simp only [run, Option.some.injEq] at hrun
      exact hrun ▸ hsource
  | cons label rest ih =>
      simp only [run] at hrun
      split at hrun
      · next hstep => exact ih (.step label hsource hstep) hrun
      · cases hrun

/-- Executing a schedule exhibits a guarded-reachable state with a decidable
property. -/
theorem exists_reachableVia_of_runVia (guard : State → Label → Prop)
    [∀ state label, Decidable (guard state label)] {source : State}
    (hsource : S.init source) (schedule : List Label) (holds : State → Prop)
    [DecidablePred holds]
    (hrun : (S.runVia guard source schedule).any (fun state => decide (holds state)) = true) :
    ∃ state, S.ReachableVia guard state ∧ holds state := by
  cases hend : S.runVia guard source schedule with
  | none => simp [hend] at hrun
  | some target =>
      exact ⟨target, reachableVia_of_runVia (.init hsource) schedule hend,
        by simpa [hend] using hrun⟩

/-- Executing a schedule exhibits a reachable state with a decidable property. -/
theorem exists_reachable_of_run {source : State} (hsource : S.init source)
    (schedule : List Label) (holds : State → Prop) [DecidablePred holds]
    (hrun : (S.run source schedule).any (fun state => decide (holds state)) = true) :
    ∃ state, S.Reachable state ∧ holds state := by
  cases hend : S.run source schedule with
  | none => simp [hend] at hrun
  | some target =>
      exact ⟨target, reachable_of_run (.init hsource) schedule hend,
        by simpa [hend] using hrun⟩

variable (S) in
/-- **Termination by a measure.** If, short of the goal, some allowed label is
enabled, keeps `holds` and decreases `cost`, an allowed schedule reaches the goal. -/
theorem exists_run_of_cost (holds goal : State → Prop) (allowed : Label → Prop)
    (cost : State → ℕ)
    (hstep : ∀ source, holds source → ¬ goal source → ∃ label target,
      allowed label ∧ S.step source label = some target ∧ holds target ∧
        cost target < cost source)
    (source : State) (hsource : holds source) :
    ∃ schedule, (∀ label ∈ schedule, allowed label) ∧
      ∃ target, S.run source schedule = some target ∧ goal target := by
  induction hcost : cost source using Nat.strongRecOn generalizing source with
  | ind bound ih =>
      by_cases hgoal : goal source
      · exact ⟨[], by simp, source, rfl, hgoal⟩
      · obtain ⟨label, middle, hallowed, hmove, hmiddle, hless⟩ := hstep source hsource hgoal
        obtain ⟨rest, hrest, target, hrun, htarget⟩ :=
          ih (cost middle) (hcost ▸ hless) middle hmiddle rfl
        refine ⟨label :: rest, ?_, target, ?_, htarget⟩
        · intro other hother
          rcases List.mem_cons.mp hother with rfl | hother
          · exact hallowed
          · exact hrest other hother
        · simpa only [run, hmove] using hrun

/-- **Projection.** If every step of the larger system moves a component by one
step of the smaller system, leaves it alone, or starts it afresh, the component
only visits states the smaller system reaches. -/
theorem Reachable.project {State' : Type w} {Label' : Type x} {T : System State' Label'}
    (component : State → State')
    (hinit : ∀ state, S.init state → T.init (component state))
    (hstep : ∀ source label target, S.step source label = some target →
      component target = component source ∨ T.init (component target) ∨
        ∃ label', T.step (component source) label' = some (component target))
    {state : State} (h : S.Reachable state) : T.Reachable (component state) := by
  refine Reachable.invariant (fun s => T.Reachable (component s))
    (fun s hs => .init (hinit s hs)) (fun source label target _ ih hs => ?_) h
  rcases hstep source label target hs with hsame | hfresh | ⟨label', hmove⟩
  · exact hsame ▸ ih
  · exact .init hfresh
  · exact ih.step label' hmove

/-! ## Observers -/

section Observed

variable {Record : Type w} {record : Record} {observe : State → Label → Record → Record}

variable (S record observe) in
/-- The system with a record of its run beside the state. The record follows every
step and prevents none. -/
def observed : System (State × Record) Label where
  init pair := S.init pair.1 ∧ pair.2 = record
  step pair label := (S.step pair.1 label).map fun target => (target, observe pair.1 label pair.2)

theorem observed_step_iff {source target : State × Record} {label : Label} :
    (S.observed record observe).step source label = some target ↔
      S.step source.1 label = some target.1 ∧ target.2 = observe source.1 label source.2 := by
  simp only [observed, Option.map_eq_some_iff, Prod.ext_iff]
  constructor
  · rintro ⟨state, hstep, rfl, hrecord⟩
    exact ⟨hstep, hrecord.symm⟩
  · rintro ⟨hstep, hrecord⟩
    exact ⟨target.1, hstep, rfl, hrecord.symm⟩

/-- An observed run is a run. -/
theorem Reachable.of_observed {pair : State × Record}
    (h : (S.observed record observe).Reachable pair) : S.Reachable pair.1 := by
  refine h.project Prod.fst (fun pair hinit => ?_) (fun source label target hstep => ?_)
  · exact hinit.1
  · exact .inr (.inr ⟨label, (observed_step_iff.mp hstep).1⟩)

end Observed

end System

end ManicRoom.Foundation
