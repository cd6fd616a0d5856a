/-
# Requests of the software keyboard

`AppleKeyboard` asks the frontend for a text and keeps a static pointer to the keyboard that
asked last. Input of the frontend goes to that keyboard, which validates it; the pointer is
reset when an input is accepted and when the keyboard is destroyed. It is not reset where no
callback is registered: then `Execute` answers the request itself, with the empty text, and a
later input reaches a keyboard whose request is complete.
-/

import Mathlib.Logic.Function.Basic
import ManicRoom.Foundation.Path
import ManicRoom.Foundation.Transition

namespace ManicRoom.Keyboard

open ManicRoom.Foundation

variable {Config : Type}

/-! ## The state -/

structure State (Config : Type) where
  /-- `s_retro_keyboard_callback` -/
  retroKeyboardCallback : Option ℕ
  /-- `s_keyboard_request_callback` is set. -/
  requestCallback : Bool
  /-- `s_current_instance` -/
  currentInstance : Option ℕ
  /-- `s_apple_keyboard` -/
  appleKeyboard : Option ℕ
  /-- The keyboard that is registered with the system, unless it is the default one. -/
  registered : Option ℕ
  /-- The keyboards that exist, and how many have been made. -/
  keyboards : List ℕ
  made : ℕ
  /-- What a keyboard was executed with last. -/
  config : ℕ → Option Config
  /-- What the callbacks of the frontend have been given, the latest first. -/
  requests : List (ℕ × Config)

/-- Nothing is registered at first. -/
def State.initial : State Config where
  retroKeyboardCallback := none
  requestCallback := false
  currentInstance := none
  appleKeyboard := none
  registered := none
  keyboards := []
  made := 0
  config := fun _ => none
  requests := []

inductive Label (Config : Type)
  /-- `AppleKeyboard::Execute(config)` of this keyboard. -/
  | execute (keyboard : ℕ) (config : Config)
  /-- `retro_keyboard_input(text, button)` or `retro_apple_keyboard_submit(text, button)` -/
  | submit (text : Option Text) (button : ℤ)
  /-- `retro_set_keyboard_callback(callback)` -/
  | setKeyboardCallback (callback : Option ℕ)
  /-- The last reference to a keyboard goes. -/
  | destroy (keyboard : ℕ)

/-! ## The functions -/

section Functions

-- `Finalize` accepts a text and a button.
variable (accepts : Config → Text → UInt8 → Bool)

/-- `Finalize(text, button) == ValidationError::None` of a keyboard. -/
def finalize (s : State Config) (keyboard : ℕ) (text : Text) (button : UInt8) : Bool :=
  (s.config keyboard).any fun config => accepts config text button

/-- `AppleKeyboard::Execute(config)` -/
def execute (keyboard : ℕ) (config : Config) (s : State Config) : State Config :=
  let s := { s with
    config := Function.update s.config keyboard (some config)
    currentInstance := some keyboard }
  if s.requestCallback = false then
    -- `Finalize("", 0)` does not touch the pointer.
    s
  else { s with requests := (s.retroKeyboardCallback.toList.map (·, config)) ++ s.requests }

/-- `SubmitInput(text, button)` of the current keyboard, if there is one. -/
def submit (text : Option Text) (button : ℤ) (s : State Config) : State Config :=
  match s.currentInstance with
  | some keyboard =>
      if finalize accepts s keyboard (text.getD []) (UInt8.ofInt button) then
        { s with currentInstance := none }
      else s
  | none => s

/-- `retro_set_keyboard_callback(callback)` -/
def setKeyboardCallback (callback : Option ℕ) (s : State Config) : State Config :=
  let s := { s with retroKeyboardCallback := callback }
  match callback with
  | some _ =>
      let s := match s.appleKeyboard with
        | some _ => s
        | none => { s with
            appleKeyboard := some s.made
            keyboards := s.made :: s.keyboards
            made := s.made + 1 }
      { s with requestCallback := true, registered := s.appleKeyboard }
  | none => { s with requestCallback := false, registered := none, appleKeyboard := none }

/-- `~AppleKeyboard()` -/
def destroy (keyboard : ℕ) (s : State Config) : State Config :=
  { s with
    keyboards := s.keyboards.erase keyboard
    currentInstance := if s.currentInstance = some keyboard then none else s.currentInstance }

/-- A keyboard is executed while it exists and destroyed when nobody holds it any more. -/
def step (s : State Config) : Label Config → Option (State Config)
  | .execute keyboard config =>
      if keyboard ∈ s.keyboards then some (execute keyboard config s) else none
  | .submit text button => some (submit accepts text button s)
  | .setKeyboardCallback callback => some (setKeyboardCallback callback s)
  | .destroy keyboard =>
      if keyboard ∈ s.keyboards ∧ s.appleKeyboard ≠ some keyboard ∧
          s.registered ≠ some keyboard then
        some (destroy keyboard s)
      else none

def system : System (State Config) (Label Config) where
  init s := s = .initial
  step := step accepts

/-- The calls of `Finalize` in a step: the keyboard, and whether it accepts. -/
def finalizeCalls (s : State Config) : Label Config → List (ℕ × Bool)
  | .execute keyboard config =>
      if s.requestCallback = false then [(keyboard, accepts config [] 0)] else []
  | .submit text button =>
      s.currentInstance.toList.map fun keyboard =>
        (keyboard, finalize accepts s keyboard (text.getD []) (UInt8.ofInt button))
  | .setKeyboardCallback _ | .destroy _ => []

/-! ## What is asked for -/

/-- A record of the requests. -/
structure Record where
  /-- The keyboard whose request is not complete. -/
  outstanding : Option ℕ
  /-- How often `Finalize` has succeeded since the last `Execute`. -/
  completed : ℕ
  deriving DecidableEq, Repr

/-- A call of `Finalize` completes the request if it is accepted. -/
def Record.call (record : Record) (call : ℕ × Bool) : Record :=
  if call.2 then { outstanding := none, completed := record.completed + 1 } else record

/-- `Execute` opens a request, calls of `Finalize` may complete it, and it goes with its
keyboard. -/
def observe (s : State Config) (label : Label Config) (record : Record) : Record :=
  let opened := match label with
    | .execute keyboard _ => { outstanding := some keyboard, completed := 0 }
    | .destroy keyboard =>
        if record.outstanding = some keyboard then { record with outstanding := none } else record
    | _ => record
  (finalizeCalls accepts s label).foldl Record.call opened

/-- Runs with the record of their requests. -/
def observed : System (State Config × Record) (Label Config) :=
  (system accepts).observed { outstanding := none, completed := 0 } (observe accepts)

/-- **Each request is completed at most once.** -/
structure AtMostOnce (pair : State Config × Record) : Prop where
  completed : pair.2.completed ≤ 1
  /-- Input never reaches a keyboard that has been destroyed. -/
  alive : ∀ keyboard, pair.1.currentInstance = some keyboard → keyboard ∈ pair.1.keyboards
  /-- Without a request input reaches no keyboard. -/
  idle : pair.2.outstanding = none → ∀ text button,
    finalizeCalls accepts pair.1 (.submit text button) = []
  /-- Input that is rejected changes nothing, other input completes the request. -/
  waiting : ∀ keyboard, pair.2.outstanding = some keyboard → ∀ text button,
    ∃ accepted, finalizeCalls accepts pair.1 (.submit text button) = [(keyboard, accepted)] ∧
      (accepted = false → (observed accepts).step pair (.submit text button) = some pair) ∧
      (accepted = true → ∃ s, (observed accepts).step pair (.submit text button) =
        some (s, { outstanding := none, completed := 1 }))

/-- A keyboard is executed while a callback is registered, or with a configuration that the empty
text does not satisfy. -/
def Registered (pair : State Config × Record) : Label Config → Prop
  | .execute _ config => pair.1.requestCallback = true ∨ accepts config [] 0 = false
  | _ => True

end Functions

/-! ## The invariant -/

section Invariant

variable {accepts : Config → Text → UInt8 → Bool} {s t : State Config} {record : Record}

/-- The pointer is to the keyboard whose request is not complete. -/
structure Pointed (pair : State Config × Record) : Prop where
  current : pair.1.currentInstance = pair.2.outstanding
  completed : ∀ keyboard, pair.2.outstanding = some keyboard → pair.2.completed = 0
  atMost : pair.2.completed ≤ 1
  alive : ∀ keyboard, pair.1.currentInstance = some keyboard → keyboard ∈ pair.1.keyboards

theorem pointed_execute {keyboard : ℕ} {config : Config} (hmem : keyboard ∈ s.keyboards)
    (ok : Registered accepts (s, record) (.execute keyboard config)) :
    Pointed (execute keyboard config s, observe accepts s (.execute keyboard config) record) := by
  have hcalls : (finalizeCalls accepts s (.execute keyboard config)).foldl Record.call
      { outstanding := some keyboard, completed := 0 } =
        { outstanding := some keyboard, completed := 0 } := by
    simp only [finalizeCalls]
    split
    · next hnone =>
      have hrejected : accepts config [] 0 = false := ok.resolve_left fun h => by simp [hnone] at h
      rw [hrejected]
      rfl
    · rfl
  have hexecute : (execute keyboard config s).currentInstance = some keyboard ∧
      (execute keyboard config s).keyboards = s.keyboards := by
    unfold execute
    dsimp only
    split <;> exact ⟨rfl, rfl⟩
  obtain ⟨hcurrent, hkeyboards⟩ := hexecute
  simp only [observe, hcalls]
  refine ⟨hcurrent, fun _ _ => rfl, Nat.zero_le 1, fun other hother => ?_⟩
  rw [hcurrent, Option.some.injEq] at hother
  rw [hkeyboards, ← hother]
  exact hmem

theorem submit_rejected {keyboard : ℕ} {text : Option Text} {button : ℤ}
    (hcurrent : s.currentInstance = some keyboard)
    (h : finalize accepts s keyboard (text.getD []) (UInt8.ofInt button) = false) :
    submit accepts text button s = s ∧
      observe accepts s (.submit text button) record = record := by
  simp [submit, observe, finalizeCalls, hcurrent, h, Record.call]

theorem submit_accepted {keyboard : ℕ} {text : Option Text} {button : ℤ}
    (hcurrent : s.currentInstance = some keyboard)
    (h : finalize accepts s keyboard (text.getD []) (UInt8.ofInt button) = true) :
    submit accepts text button s = { s with currentInstance := none } ∧
      observe accepts s (.submit text button) record =
        { outstanding := none, completed := record.completed + 1 } := by
  simp [submit, observe, finalizeCalls, hcurrent, h, Record.call]

theorem pointed_submit {text : Option Text} {button : ℤ} (h : Pointed (s, record)) :
    Pointed (submit accepts text button s, observe accepts s (.submit text button) record) := by
  cases hpointer : s.currentInstance with
  | none =>
      simp only [submit, observe, finalizeCalls, hpointer]
      exact h
  | some keyboard =>
      cases hverdict : finalize accepts s keyboard (text.getD []) (UInt8.ofInt button) with
      | false =>
          obtain ⟨hsubmit, hobserve⟩ := @submit_rejected _ _ _ record _ _ _ hpointer hverdict
          rw [hsubmit, hobserve]
          exact h
      | true =>
          obtain ⟨hsubmit, hobserve⟩ := @submit_accepted _ _ _ record _ _ _ hpointer hverdict
          have hzero : record.completed = 0 := h.completed keyboard (h.current.symm.trans hpointer)
          rw [hsubmit, hobserve, hzero]
          exact ⟨rfl, nofun, Nat.le_refl 1, nofun⟩

theorem pointed_setKeyboardCallback {callback : Option ℕ} (h : Pointed (s, record)) :
    Pointed (setKeyboardCallback callback s,
      observe accepts s (.setKeyboardCallback callback) record) := by
  obtain ⟨hcurrent, hcompleted, hatMost, halive⟩ := h
  cases callback with
  | none => exact ⟨hcurrent, hcompleted, hatMost, halive⟩
  | some callback =>
      simp only [setKeyboardCallback]
      split
      · exact ⟨hcurrent, hcompleted, hatMost, halive⟩
      · exact ⟨hcurrent, hcompleted, hatMost,
          fun keyboard hkeyboard => List.mem_cons_of_mem _ (halive keyboard hkeyboard)⟩

theorem pointed_destroy {keyboard : ℕ} (h : Pointed (s, record)) :
    Pointed (destroy keyboard s, observe accepts s (.destroy keyboard) record) := by
  obtain ⟨hcurrent, hcompleted, hatMost, halive⟩ := h
  simp only at hcurrent
  simp only [observe, finalizeCalls, List.foldl_nil, destroy, hcurrent]
  by_cases hdestroyed : record.outstanding = some keyboard
  · rw [if_pos hdestroyed, if_pos hdestroyed]
    exact ⟨rfl, nofun, hatMost, nofun⟩
  · rw [if_neg hdestroyed, if_neg hdestroyed]
    refine ⟨rfl, hcompleted, hatMost, fun other hother => ?_⟩
    have hne : other ≠ keyboard := fun heq => hdestroyed (heq ▸ hother)
    exact (List.mem_erase_of_ne hne).mpr (halive other (hcurrent.trans hother))

theorem pointed_step {label : Label Config} (h : Pointed (s, record))
    (ok : Registered accepts (s, record) label) (hstep : step accepts s label = some t) :
    Pointed (t, observe accepts s label record) := by
  cases label with
  | execute keyboard config =>
      obtain ⟨hmem, hsome⟩ := Option.ite_none_right_eq_some.mp hstep
      cases hsome
      exact pointed_execute hmem ok
  | submit text button =>
      cases hstep
      exact pointed_submit h
  | setKeyboardCallback callback =>
      cases hstep
      exact pointed_setKeyboardCallback h
  | destroy keyboard =>
      obtain ⟨-, hsome⟩ := Option.ite_none_right_eq_some.mp hstep
      cases hsome
      exact pointed_destroy h

/-- Where the pointer is to the keyboard whose request is not complete, it is completed at most
once. -/
theorem Pointed.atMostOnce (h : Pointed (s, record)) : AtMostOnce accepts (s, record) := by
  obtain ⟨hcurrent, hcompleted, hatMost, halive⟩ := h
  refine ⟨hatMost, halive, fun hidle text button => ?_, fun keyboard hwaiting text button => ?_⟩
  · have hpointer : s.currentInstance = none := hcurrent.trans hidle
    simp only [finalizeCalls, hpointer]
    rfl
  · have hpointer : s.currentInstance = some keyboard := hcurrent.trans hwaiting
    refine ⟨finalize accepts s keyboard (text.getD []) (UInt8.ofInt button), ?_, ?_, ?_⟩
    · simp only [finalizeCalls, hpointer]
      rfl
    · intro hrejected
      obtain ⟨hsubmit, hobserve⟩ := @submit_rejected _ _ _ record _ _ _ hpointer hrejected
      refine System.observed_step_iff.mpr ⟨?_, hobserve.symm⟩
      exact congrArg some hsubmit
    · intro haccepted
      obtain ⟨hsubmit, hobserve⟩ := @submit_accepted _ _ _ record _ _ _ hpointer haccepted
      rw [hcompleted keyboard hwaiting] at hobserve
      refine ⟨{ s with currentInstance := none }, ?_⟩
      exact System.observed_step_iff.mpr ⟨congrArg some hsubmit, hobserve.symm⟩

end Invariant

/-! ## The result -/

/-- **Requests are completed at most once** in every run in which no keyboard answers its own
request with the empty text. -/
theorem atMostOnce_of_registered (accepts : Config → Text → UInt8 → Bool)
    {pair : State Config × Record}
    (h : (observed accepts).ReachableVia (Registered accepts) pair) : AtMostOnce accepts pair := by
  have hpointed : Pointed pair := by
    refine h.invariant Pointed (fun pair hinit => ?_)
      fun source label target _ ok hsource hstep => ?_
    · obtain ⟨state, record⟩ := pair
      obtain ⟨rfl, rfl⟩ := hinit
      exact ⟨rfl, nofun, Nat.zero_le 1, nofun⟩
    · obtain ⟨t, record⟩ := target
      obtain ⟨hmove, hrecord⟩ := System.observed_step_iff.mp hstep
      simp only at hmove hrecord
      subst hrecord
      exact pointed_step hsource ok hmove
  exact hpointed.atMostOnce

/-- Any text and button are accepted. -/
def acceptsAll (_config : Unit) (_text : Text) (_button : UInt8) : Bool := true

instance (accepts : Config → Text → UInt8 → Bool) (pair : State Config × Record) :
    (label : Label Config) → Decidable (Registered accepts pair label)
  | .execute _ _ => inferInstanceAs (Decidable (_ ∨ _))
  | .submit _ _ => isTrue trivial
  | .setKeyboardCallback _ => isTrue trivial
  | .destroy _ => isTrue trivial

/-- A request is answered, and there is one more input. -/
def answersOnce : List (Label Unit) :=
  [.setKeyboardCallback (some 0), .execute 0 (), .submit (some "x".toList) 0, .submit none 0]

theorem atMostOnce_answersOnce :
    ∃ pair, pair.2 = { outstanding := none, completed := 1 } ∧ AtMostOnce acceptsAll pair := by
  have hsource : (observed acceptsAll).init (.initial, { outstanding := none, completed := 0 }) :=
    ⟨rfl, rfl⟩
  obtain ⟨pair, hreach, hrecord⟩ :=
    System.exists_reachableVia_of_runVia (Registered acceptsAll) hsource
      answersOnce (fun pair => pair.2 = { outstanding := none, completed := 1 }) (by decide)
  exact ⟨pair, hrecord, atMostOnce_of_registered acceptsAll hreach⟩

/-- The callback is unregistered while the game still holds the keyboard. -/
def answersItself : List (Label Unit) :=
  [.setKeyboardCallback (some 0), .setKeyboardCallback none, .execute 0 (),
    .submit (some "x".toList) 0]

/-- **A request can be completed twice**: by the keyboard itself and by an input. -/
theorem completed_twice :
    ∃ pair, (observed acceptsAll).Reachable pair ∧ ¬ AtMostOnce acceptsAll pair := by
  have hsource : (observed acceptsAll).init (.initial, { outstanding := none, completed := 0 }) :=
    ⟨rfl, rfl⟩
  obtain ⟨pair, hreach, hrecord⟩ :=
    System.exists_reachable_of_run hsource
      answersItself (fun pair => pair.2.completed = 2) (by decide)
  refine ⟨pair, hreach, fun once => ?_⟩
  have hcompleted := once.completed
  omega

end ManicRoom.Keyboard
