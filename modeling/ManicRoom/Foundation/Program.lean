/-
# Programs that may stop

A program reads and changes a state and may stop with an error, as a C++ function does
that throws: what it changed before stays changed. This module gives such programs their
weakest preconditions. `wp p done stopped s` says that `p`, started in `s`, either returns
in a state that satisfies `done` or stops in one that satisfies `stopped`; programs always
do one of the two. The rules for the constructs are equivalences and belong to the simp
set, so that the precondition of a straight-line program unfolds into a formula. Nothing
here refers to a particular program.
-/

import Mathlib.Data.Nat.Init

namespace ManicRoom.Foundation

/-- Computations over a state `σ` that may stop with an error `ε`. -/
abbrev Program (ε σ : Type) := ExceptT ε (StateM σ)

namespace Program

variable {ε σ α β : Type}

/-- Run a program on a part of the state. -/
def zoom {τ : Type} (view : σ → τ) (update : τ → σ → σ) (p : Program ε τ α) : Program ε σ α :=
  fun s => ((p (view s)).1, update (p (view s)).2 s)

/-- Run a program and then, whether it returns or stops, clean up. -/
def ensuring (p : Program ε σ α) (cleanup : σ → σ) : Program ε σ α :=
  fun s => ((p s).1, cleanup (p s).2)

/-- What a run returns or stops with, and the state it ends in. -/
def outcome (p : Program ε σ α) (s : σ) : Except ε α × σ := StateT.run (ExceptT.run p) s

/-- The run returns. -/
def Returns (p : Program ε σ α) (s : σ) : Prop := ∃ a t, p.outcome s = (.ok a, t)

theorem returns_iff_toBool (p : Program ε σ α) (s : σ) :
    p.Returns s ↔ (p.outcome s).1.toBool = true := by
  unfold Returns
  cases houtcome : p.outcome s with
  | mk result t =>
      cases result with
      | ok a => exact ⟨fun _ => rfl, fun _ => ⟨a, t, rfl⟩⟩
      | error e => exact ⟨fun ⟨a, t, h⟩ => by simp at h, fun h => by simp [Except.toBool] at h⟩

/-- The weakest precondition of a program. -/
def wp (p : Program ε σ α) (done : α → σ → Prop) (stopped : ε → σ → Prop) (s : σ) : Prop :=
  match p.outcome s with
  | (.ok a, t) => done a t
  | (.error e, t) => stopped e t

section Constructs

variable {done : α → σ → Prop} {stopped : ε → σ → Prop} {s : σ}

@[simp]
theorem wp_pure (a : α) : wp (pure a : Program ε σ α) done stopped s ↔ done a s := Iff.rfl

@[simp]
theorem wp_throw (e : ε) : wp (throw e : Program ε σ α) done stopped s ↔ stopped e s := Iff.rfl

@[simp]
theorem wp_get {done : σ → σ → Prop} : wp (get : Program ε σ σ) done stopped s ↔ done s s :=
  Iff.rfl

@[simp]
theorem wp_modify {done : Unit → σ → Prop} (change : σ → σ) :
    wp (modify change : Program ε σ Unit) done stopped s ↔ done () (change s) := Iff.rfl

@[simp]
theorem wp_set {done : PUnit → σ → Prop} (t : σ) :
    wp (set t : Program ε σ PUnit) done stopped s ↔ done ⟨⟩ t := Iff.rfl

theorem outcome_bind (p : Program ε σ α) (q : α → Program ε σ β) (s : σ) :
    (p >>= q).outcome s =
      match p.outcome s with
      | (.ok a, t) => (q a).outcome t
      | (.error e, t) => (.error e, t) := by
  simp only [outcome, ExceptT.run_bind, StateT.run_bind]
  rcases p.run.run s with ⟨e | a, t⟩ <;> rfl

/-- A sequence returns what its second part returns after the first one has. -/
theorem outcome_bind_eq_ok {p : Program ε σ α} {q : α → Program ε σ β} {s u : σ} {b : β} :
    (p >>= q).outcome s = (.ok b, u) ↔
      ∃ a t, p.outcome s = (.ok a, t) ∧ (q a).outcome t = (.ok b, u) := by
  rw [outcome_bind]
  rcases p.outcome s with ⟨e | a, t⟩
  · simp
  · constructor
    · exact fun h => ⟨a, t, rfl, h⟩
    · rintro ⟨_, _, ⟨⟩, h⟩
      exact h

theorem outcome_ensuring (p : Program ε σ α) (cleanup : σ → σ) (s : σ) :
    (p.ensuring cleanup).outcome s = ((p.outcome s).1, cleanup (p.outcome s).2) := rfl

@[simp]
theorem wp_bind {done : β → σ → Prop} (p : Program ε σ α) (q : α → Program ε σ β) :
    wp (p >>= q) done stopped s ↔ wp p (fun a t => wp (q a) done stopped t) stopped s := by
  simp only [wp, outcome_bind]
  rcases p.outcome s with ⟨e | a, t⟩ <;> rfl

@[simp]
theorem wp_map {done : β → σ → Prop} (f : α → β) (p : Program ε σ α) :
    wp (f <$> p) done stopped s ↔ wp p (fun a t => done (f a) t) stopped s := by
  rw [map_eq_pure_bind, wp_bind]
  rfl

@[simp]
theorem wp_andM {done : Bool → σ → Prop} (p q : Program ε σ Bool) :
    wp (p <&&> q) done stopped s ↔
      wp p (fun a t => if a then wp q done stopped t else done false t) stopped s := by
  rw [andM, wp_bind]
  refine iff_of_eq (congrArg (fun done => wp p done stopped s) ?_)
  funext a t
  cases a <;> rfl

@[simp]
theorem wp_orM {done : Bool → σ → Prop} (p q : Program ε σ Bool) :
    wp (p <||> q) done stopped s ↔
      wp p (fun a t => if a then done true t else wp q done stopped t) stopped s := by
  rw [orM, wp_bind]
  refine iff_of_eq (congrArg (fun done => wp p done stopped s) ?_)
  funext a t
  cases a <;> rfl

@[simp]
theorem wp_ite (c : Prop) [Decidable c] (p q : Program ε σ α) :
    wp (if c then p else q) done stopped s ↔
      (c → wp p done stopped s) ∧ (¬ c → wp q done stopped s) := by
  split <;> simp [*]

@[simp]
theorem wp_zoom {τ : Type} (view : σ → τ) (update : τ → σ → σ) (p : Program ε τ α) :
    wp (zoom view update p) done stopped s ↔
      wp p (fun a t => done a (update t s)) (fun e t => stopped e (update t s)) (view s) := by
  simp only [wp, outcome, zoom, StateT.run, ExceptT.run]
  rcases p (view s) with ⟨e | a, t⟩ <;> rfl

@[simp]
theorem wp_ensuring (p : Program ε σ α) (cleanup : σ → σ) :
    wp (p.ensuring cleanup) done stopped s ↔
      wp p (fun a t => done a (cleanup t)) (fun e t => stopped e (cleanup t)) s := by
  simp only [wp, outcome, ensuring, StateT.run, ExceptT.run]
  rcases p s with ⟨e | a, t⟩ <;> rfl

end Constructs

/-! ## Consequence -/

theorem wp_mono {p : Program ε σ α} {done done' : α → σ → Prop} {stopped stopped' : ε → σ → Prop}
    {s : σ} (h : wp p done stopped s) (hdone : ∀ a t, done a t → done' a t)
    (hstopped : ∀ e t, stopped e t → stopped' e t) : wp p done' stopped' s := by
  unfold wp at h ⊢
  generalize p.outcome s = run at h ⊢
  rcases run with ⟨e | a, t⟩
  · exact hstopped _ _ h
  · exact hdone _ _ h

theorem wp_and {p : Program ε σ α} {done done' : α → σ → Prop} {stopped stopped' : ε → σ → Prop}
    {s : σ} (h : wp p done stopped s) (h' : wp p done' stopped' s) :
    wp p (fun a t => done a t ∧ done' a t) (fun e t => stopped e t ∧ stopped' e t) s := by
  unfold wp at h h' ⊢
  generalize p.outcome s = run at h h' ⊢
  rcases run with ⟨e | a, t⟩
  · exact ⟨h, h'⟩
  · exact ⟨h, h'⟩

/-- What a precondition says about the run. -/
theorem wp_iff_outcome {p : Program ε σ α} {done : α → σ → Prop} {stopped : ε → σ → Prop} {s : σ} :
    wp p done stopped s ↔
      (∀ a t, p.outcome s = (.ok a, t) → done a t) ∧
        ∀ e t, p.outcome s = (.error e, t) → stopped e t := by
  unfold wp
  rcases p.outcome s with ⟨e | a, t⟩ <;> simp

/-- What is said of the state alone. -/
theorem wp_iff_state {p : Program ε σ α} {holds : σ → Prop} {s : σ} :
    wp p (fun _ => holds) (fun _ => holds) s ↔ holds (p.outcome s).2 := by
  unfold wp
  rcases p.outcome s with ⟨e | a, t⟩ <;> rfl

/-- Every run comes to what it comes to. -/
theorem wp_outcome (p : Program ε σ α) (s : σ) :
    wp p (fun a t => p.outcome s = (.ok a, t)) (fun e t => p.outcome s = (.error e, t)) s :=
  wp_iff_outcome.mpr ⟨fun _ _ h => h, fun _ _ h => h⟩

/-- Which inputs a program accepts, from what its two ends say about the input. -/
theorem returns_iff_of_wp {p : Program ε σ α} {s : σ} {accepted : Prop}
    (h : wp p (fun _ _ => accepted) (fun _ _ => ¬ accepted) s) : p.Returns s ↔ accepted := by
  unfold wp at h
  unfold Returns
  rcases hrun : p.outcome s with ⟨e | a, t⟩ <;> simp only [hrun] at h
  · simpa using h
  · simpa using h

/-- What a loop over items finds out about each of them. -/
theorem wp_forM {γ : Type} {body : γ → Program ε σ Unit} {items : List γ} {holds : σ → Prop}
    {halted : ε → σ → Prop} {found : γ → Prop}
    (hbody : ∀ item ∈ items, ∀ s, holds s →
      wp (body item) (fun _ t => holds t ∧ found item) halted s) {s : σ} (h : holds s) :
    wp (items.forM body) (fun _ t => holds t ∧ ∀ item ∈ items, found item) halted s := by
  induction items generalizing s with
  | nil => exact (wp_pure ()).mpr ⟨h, nofun⟩
  | cons item items ih =>
      show wp (body item >>= fun _ => items.forM body) _ _ _
      rw [wp_bind]
      apply wp_mono (hbody item (List.mem_cons_self ..) s h) _ fun _ _ h => h
      intro _ t ⟨ht, hitem⟩
      apply wp_mono (ih (fun other hmem => hbody other (List.mem_cons_of_mem item hmem)) ht) _
        fun _ _ h => h
      exact fun _ u ⟨hu, hitems⟩ => ⟨hu, List.forall_mem_cons.mpr ⟨hitem, hitems⟩⟩

-- The rules above are all that is used of it: a program is not to be run by unfolding.
attribute [irreducible] wp

/-! ## Invariants -/

/-- From a state of the invariant the program either returns in one or stops in one of the
states allowed then. -/
structure Maintains (holds : σ → Prop) (halted : ε → σ → Prop) (p : Program ε σ α) : Prop where
  run : ∀ s, holds s → p.wp (fun _ => holds) halted s

namespace Maintains

variable {holds : σ → Prop} {halted : ε → σ → Prop}

theorem pure (a : α) : Maintains holds halted (pure a : Program ε σ α) :=
  ⟨fun _ h => (wp_pure a).mpr h⟩

theorem throw {e : ε} (h : ∀ s, holds s → halted e s) :
    Maintains holds halted (throw e : Program ε σ α) :=
  ⟨fun s hs => (wp_throw e).mpr (h s hs)⟩

theorem bind {p : Program ε σ α} {q : α → Program ε σ β} (hp : Maintains holds halted p)
    (hq : ∀ a, Maintains holds halted (q a)) : Maintains holds halted (p >>= q) where
  run s h := by
    rw [wp_bind]
    exact wp_mono (hp.run s h) (fun a t ht => (hq a).run t ht) fun _ _ he => he

/-- The invariant is there for what follows, whatever that comes to. -/
theorem andThen {p : Program ε σ α} {q : α → Program ε σ β} {done : β → σ → Prop} {s : σ}
    (hp : Maintains holds halted p) (h : holds s)
    (hq : ∀ a t, holds t → (q a).wp done halted t) : (p >>= q).wp done halted s := by
  rw [wp_bind]
  exact wp_mono (hp.run s h) (fun a t ht => hq a t ht) fun _ _ he => he

/-- What follows may use the state, as long as it maintains the invariant anyway. -/
theorem get_bind {q : σ → Program ε σ β} (hq : ∀ s, Maintains holds halted (q s)) :
    Maintains holds halted (get >>= q) where
  run s h := by
    rw [wp_bind, wp_get]
    exact (hq s).run s h

theorem modify_bind {change : σ → σ} {q : PUnit → Program ε σ β}
    (h : ∀ s, holds s → holds (change s)) (hq : ∀ a, Maintains holds halted (q a)) :
    Maintains holds halted (modify change >>= q) where
  run s hs := by
    rw [wp_bind, wp_modify]
    exact (hq _).run _ (h s hs)

theorem modify {change : σ → σ} (h : ∀ s, holds s → holds (change s)) :
    Maintains holds halted (modify change : Program ε σ Unit) :=
  ⟨fun s hs => (wp_modify change).mpr (h s hs)⟩

theorem ite {c : Prop} [Decidable c] {p q : Program ε σ α} (hp : c → Maintains holds halted p)
    (hq : ¬ c → Maintains holds halted q) : Maintains holds halted (if c then p else q) := by
  split
  · next h => exact hp h
  · next h => exact hq h

theorem map (f : α → β) {p : Program ε σ α} (hp : Maintains holds halted p) :
    Maintains holds halted (f <$> p) where
  run s h := by
    rw [wp_map]
    exact hp.run s h

theorem andM {p q : Program ε σ Bool} (hp : Maintains holds halted p)
    (hq : Maintains holds halted q) : Maintains holds halted (p <&&> q) := by
  apply bind hp
  intro a
  cases a with
  | false => exact pure false
  | true => exact hq

theorem orM {p q : Program ε σ Bool} (hp : Maintains holds halted p)
    (hq : Maintains holds halted q) : Maintains holds halted (p <||> q) := by
  apply bind hp
  intro a
  cases a with
  | false => exact hq
  | true => exact pure true

theorem foldlM {γ δ : Type} {body : δ → γ → Program ε σ δ} {items : List γ} {start : δ}
    (hbody : ∀ item ∈ items, ∀ value, Maintains holds halted (body value item)) :
    Maintains holds halted (items.foldlM body start) := by
  induction items generalizing start with
  | nil => exact pure start
  | cons item items ih =>
      rw [List.foldlM_cons]
      apply bind (hbody item (List.mem_cons_self ..) start)
      intro value
      exact ih fun other hmem => hbody other (List.mem_cons_of_mem item hmem)

theorem forM {γ : Type} {items : List γ} {body : γ → Program ε σ Unit}
    (hbody : ∀ item ∈ items, Maintains holds halted (body item)) :
    Maintains holds halted (items.forM body) := by
  induction items with
  | nil => exact pure ()
  | cons item items ih =>
      show Maintains holds halted (body item >>= fun _ => items.forM body)
      apply bind (hbody item (List.mem_cons_self ..))
      intro _
      exact ih fun other hmem => hbody other (List.mem_cons_of_mem item hmem)

/-- Two invariants at once. -/
theorem and {holds' : σ → Prop} {halted' : ε → σ → Prop} {p : Program ε σ α}
    (hp : Maintains holds halted p) (hp' : Maintains holds' halted' p) :
    Maintains (fun s => holds s ∧ holds' s) (fun e s => halted e s ∧ halted' e s) p :=
  ⟨fun s h => wp_and (hp.run s h.1) (hp'.run s h.2)⟩

theorem ensuring {p : Program ε σ α} {cleanup : σ → σ} (hp : Maintains holds halted p)
    (hreturned : ∀ s, holds s → holds (cleanup s))
    (hhalted : ∀ e s, halted e s → halted e (cleanup s)) :
    Maintains holds halted (p.ensuring cleanup) where
  run s h := by
    rw [wp_ensuring]
    exact wp_mono (hp.run s h) (fun _ t ht => hreturned t ht) hhalted

end Maintains

end Program

end ManicRoom.Foundation
