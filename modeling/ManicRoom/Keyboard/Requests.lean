/-
# From the core to the keyboard on the screen and back

The core asks for a keyboard on a thread of its own. `azahar_keyboard_request_callback` takes
the registered callback and its generation under a lock and queues a block for the main
thread, which shows the keyboard only if the generation is still the same; the keyboard keeps
the generation of that moment and drops its answer if it has changed. Registrations take place
on the main thread, where calls from other threads are queued first. So whatever is queued, a
request reaches the callback it was taken for or none, and so does the answer.
-/

import Mathlib.Data.List.Basic
import ManicRoom.Foundation.Path
import ManicRoom.Foundation.Transition

namespace ManicRoom.Keyboard.Requests

open ManicRoom.Foundation

/-! ## The state -/

/-- `AzaharButtonConfig` -/
inductive ButtonConfig
  | none
  | single
  | dual
  | triple
  deriving DecidableEq, Repr

/-- `AzaharButtonType` -/
inductive ButtonType
  | ok
  | cancel
  | forgot
  | noButton
  deriving DecidableEq, Repr

/-- `AzaharKeyboardConfig`, of which only the buttons are used here. -/
structure KeyboardConfig where
  buttonConfig : ButtonConfig
  deriving DecidableEq, Repr

/-- What a request has taken under the lock. -/
structure Capture where
  callback : ℕ
  generation : ℕ
  config : KeyboardConfig
  /-- History: how many registrations there had been. -/
  registrations : ℕ
  deriving DecidableEq, Repr

/-- A request that a callback has been given. -/
structure Delivery where
  capture : Capture
  /-- History: how many registrations there had been. -/
  registrations : ℕ
  deriving DecidableEq, Repr

/-- A keyboard on the screen. -/
structure Shown where
  delivery : Delivery
  /-- `keyboardGeneration` -/
  keyboardGeneration : ℕ
  deriving DecidableEq, Repr

/-- An answer that `inputAzaharKeyboard` has been given. -/
structure Answer where
  delivery : Delivery
  /-- History: how many registrations there had been. -/
  registrations : ℕ
  /-- What the core is told, if there is one. -/
  input : Option (Text × ℕ)
  deriving DecidableEq, Repr

/-- A block on the main queue. -/
inductive Block
  | deliver (capture : Capture)
  | register (callback : Option ℕ)
  | stop
  deriving DecidableEq, Repr

structure State where
  /-- `s_azahar_keyboard_callback` -/
  callback : Option ℕ := none
  /-- `s_azahar_keyboard_generation`, an `NSUInteger` of 64 bits that each registration
  increments: the same as long as there have been fewer than `2 ^ 64` of them. -/
  generation : ℕ := 0
  /-- `s_azahar_last_button_config` -/
  lastButtonConfig : ButtonConfig := .single
  /-- `runloop_st->lib_handle` is set. -/
  libHandle : Bool := false
  /-- The core has `azahar_keyboard_request_callback`. -/
  coreCallback : Bool := false
  ciaImportBusy : Bool := false
  ciaImportCancelled : Bool := false
  /-- Requests that have not been queued yet. -/
  captured : List Capture := []
  /-- The main queue. -/
  queue : List Block := []
  /-- The keyboards on the screen. -/
  shown : List Shown := []
  /-- History: the callbacks, from that of generation 0 on. -/
  registered : List (Option ℕ) := [none]
  deliveries : List Delivery := []
  answers : List Answer := []
  /-- History: how many registrations there had been after a `stop` that unregistered. -/
  stops : List ℕ := []
  deriving DecidableEq, Repr

inductive Label
  /-- The core calls `azahar_keyboard_request_callback(config)`, up to the end of the lock. -/
  | request (config : Option KeyboardConfig)
  /-- A thread queues the block of its request. -/
  | dispatch (index : ℕ)
  /-- `registerAzaharKeyboard:` on the main thread or on another one. -/
  | register (callback : Option ℕ) (onMain : Bool)
  /-- `stop` -/
  | stop (onMain : Bool)
  /-- The main thread takes a block. The view of a delivered request may be gone. -/
  | runBlock (alive : Bool)
  /-- The user taps a button of a keyboard on the screen. -/
  | tap (index : ℕ) (buttonType : ButtonType) (text : Option Text)
  /-- An import begins or ends, a core is loaded or unloaded. -/
  | importChanges (busy : Bool)
  | coreChanges (loaded : Bool)
  deriving DecidableEq, Repr

/-! ## The functions -/

/-- `azahar_keyboard_request_callback(config)`, up to the end of the lock. -/
def request (config : Option KeyboardConfig) (s : State) : State :=
  match config, s.callback with
  | some config, some callback =>
      { s with captured :=
          ⟨callback, s.generation, config, s.registered.length⟩ :: s.captured }
  | _, _ => s

/-- `registerAzaharKeyboard:` on the main thread. -/
def registerOnMain (callback : Option ℕ) (s : State) : State :=
  let s := { s with
    callback
    generation := s.generation + 1
    registered := s.registered ++ [callback] }
  if s.libHandle = false then s
  else
    let s := if callback = none then { s with lastButtonConfig := .single } else s
    { s with coreCallback := callback.isSome }

/-- `stop` on the main thread, as far as it concerns the keyboard. -/
def stopOnMain (s : State) : State :=
  if s.ciaImportBusy then { s with ciaImportCancelled := true }
  else
    let s := registerOnMain none s
    { s with stops := s.registered.length :: s.stops }

/-- The block of a request on the main thread, with the callback of the play view. -/
def deliver (capture : Capture) (alive : Bool) (s : State) : State :=
  if capture.generation ≠ s.generation then s
  else
    let delivery : Delivery := ⟨capture, s.registered.length⟩
    let s := { s with
      lastButtonConfig := capture.config.buttonConfig
      deliveries := delivery :: s.deliveries }
    if alive then { s with shown := s.shown ++ [⟨delivery, s.generation⟩] } else s

/-- The button that the core is told. -/
def button (config : ButtonConfig) : ButtonType → ℕ
  | .ok =>
      match config with
      | .dual => 1
      | .triple => 2
      | _ => 0
  | .cancel => 0
  | .forgot => 1
  | .noButton => 0

/-- The tap handler of a keyboard on the screen, with `inputAzaharKeyboard` on the main thread. -/
def tap (keyboard : Shown) (buttonType : ButtonType) (text : Option Text) (s : State) : State :=
  if keyboard.keyboardGeneration ≠ s.generation then s
  else
    let input :=
      if s.libHandle then some (text.getD [], button s.lastButtonConfig buttonType) else none
    { s with answers := ⟨keyboard.delivery, s.registered.length, input⟩ :: s.answers }

def step (s : State) : Label → Option State
  | .request config => some (request config s)
  | .dispatch index =>
      match s.captured[index]? with
      | some capture =>
          some { s with
            captured := s.captured.eraseIdx index
            queue := s.queue ++ [.deliver capture] }
      | none => none
  | .register callback onMain =>
      if onMain then some (registerOnMain callback s)
      else some { s with queue := s.queue ++ [.register callback] }
  | .stop onMain =>
      if onMain then some (stopOnMain s) else some { s with queue := s.queue ++ [.stop] }
  | .runBlock alive =>
      match s.queue with
      | [] => none
      | block :: queue =>
          let s := { s with queue }
          match block with
          | .deliver capture => some (deliver capture alive s)
          | .register callback => some (registerOnMain callback s)
          | .stop => some (stopOnMain s)
  | .tap index buttonType text =>
      match s.shown[index]? with
      | some keyboard => some (tap keyboard buttonType text s)
      | none => none
  | .importChanges busy => some { s with ciaImportBusy := busy, ciaImportCancelled := false }
  | .coreChanges loaded => some { s with libHandle := loaded }

def system : System State Label where
  init s := s = {}
  step := step

/-! ## What is claimed -/

/-- The callback of the moment at which a request was taken. -/
def Capture.Current (registered : List (Option ℕ)) (capture : Capture) : Prop :=
  registered[capture.registrations - 1]? = some (some capture.callback)

/-- **No request outlives its registration.** -/
structure Timely (s : State) : Prop where
  /-- A request is given to the callback it was taken for, and there has been no registration
  since. -/
  delivered : ∀ delivery ∈ s.deliveries,
    delivery.capture.Current s.registered ∧
      delivery.registrations = delivery.capture.registrations
  /-- An answer is passed on only if there still has been none. -/
  answered : ∀ answer ∈ s.answers, answer.delivery ∈ s.deliveries ∧
    answer.registrations = answer.delivery.capture.registrations
  /-- Nothing that was asked for before a `stop` happens after it. -/
  stopped : ∀ registrations ∈ s.stops,
    (∀ delivery ∈ s.deliveries, registrations ≤ delivery.registrations →
      registrations ≤ delivery.capture.registrations) ∧
    ∀ answer ∈ s.answers, registrations ≤ answer.registrations →
      registrations ≤ answer.delivery.capture.registrations

/-! ## The invariant -/

/-- What was taken under the lock is the callback of its generation. -/
structure Capture.Sound (registered : List (Option ℕ)) (capture : Capture) : Prop where
  generation : capture.registrations = capture.generation + 1
  current : registered[capture.generation]? = some (some capture.callback)

theorem Capture.Sound.append {registered : List (Option ℕ)} {capture : Capture}
    (h : capture.Sound registered) (callback : Option ℕ) :
    capture.Sound (registered ++ [callback]) where
  generation := h.generation
  current := by
    obtain ⟨hlt, -⟩ := List.getElem?_eq_some_iff.mp h.current
    rw [List.getElem?_append_left hlt]
    exact h.current

/-- A delivery at the generation of its request. -/
structure Delivery.Sound (registered : List (Option ℕ)) (delivery : Delivery) : Prop where
  capture : delivery.capture.Sound registered
  registrations : delivery.registrations = delivery.capture.registrations

theorem Delivery.Sound.append {registered : List (Option ℕ)} {delivery : Delivery}
    (h : delivery.Sound registered) (callback : Option ℕ) :
    delivery.Sound (registered ++ [callback]) :=
  ⟨h.capture.append callback, h.registrations⟩

structure Invariant (s : State) : Prop where
  length : s.registered.length = s.generation + 1
  callback : s.registered[s.generation]? = some s.callback
  captured : ∀ capture ∈ s.captured, capture.Sound s.registered
  queue : ∀ capture, .deliver capture ∈ s.queue → capture.Sound s.registered
  deliveries : ∀ delivery ∈ s.deliveries, delivery.Sound s.registered
  shown : ∀ keyboard ∈ s.shown, keyboard.delivery ∈ s.deliveries ∧
    keyboard.delivery.capture.generation = keyboard.keyboardGeneration
  answers : ∀ answer ∈ s.answers, answer.delivery ∈ s.deliveries ∧
    answer.registrations = answer.delivery.capture.registrations

theorem invariant_init : Invariant {} :=
  ⟨rfl, rfl, nofun, nofun, nofun, nofun, nofun⟩

section Steps

variable {s : State} (inv : Invariant s)

include inv

theorem invariant_request (config : Option KeyboardConfig) : Invariant (request config s) := by
  unfold request
  split
  · next config callback hcallback =>
    refine { inv with captured := fun capture hmem => ?_ }
    rcases List.mem_cons.mp hmem with rfl | hmem
    · exact ⟨inv.length, inv.callback.trans (congrArg some hcallback)⟩
    · exact inv.captured capture hmem
  · exact inv

/-- The one change of the callback. -/
theorem invariant_registered (callback : Option ℕ) : Invariant { s with
    callback
    generation := s.generation + 1
    registered := s.registered ++ [callback] } where
  length := by rw [List.length_append, inv.length]; rfl
  callback := by rw [← inv.length, List.getElem?_concat_length]
  captured capture hmem := (inv.captured capture hmem).append callback
  queue capture hmem := (inv.queue capture hmem).append callback
  deliveries delivery hmem := (inv.deliveries delivery hmem).append callback
  shown := inv.shown
  answers := inv.answers

omit inv in
/-- What the registration does to the core does not matter. -/
theorem Invariant.frame {t : State} (inv : Invariant s) (hcallback : t.callback = s.callback)
    (hgeneration : t.generation = s.generation) (hregistered : t.registered = s.registered)
    (hcaptured : t.captured = s.captured) (hqueue : t.queue = s.queue)
    (hdeliveries : t.deliveries = s.deliveries) (hshown : t.shown = s.shown)
    (hanswers : t.answers = s.answers) : Invariant t := by
  obtain ⟨length, callback, captured, queue, deliveries, shown, answers⟩ := inv
  constructor <;> simpa only [hcallback, hgeneration, hregistered, hcaptured, hqueue, hdeliveries,
    hshown, hanswers]

theorem invariant_registerOnMain (callback : Option ℕ) : Invariant (registerOnMain callback s) := by
  have h := invariant_registered inv callback
  unfold registerOnMain
  dsimp only
  split
  · exact h
  · split
    · exact h.frame rfl rfl rfl rfl rfl rfl rfl rfl
    · exact h.frame rfl rfl rfl rfl rfl rfl rfl rfl

theorem invariant_stopOnMain : Invariant (stopOnMain s) := by
  unfold stopOnMain
  split
  · exact inv.frame rfl rfl rfl rfl rfl rfl rfl rfl
  · exact (invariant_registerOnMain inv none).frame rfl rfl rfl rfl rfl rfl rfl rfl

theorem invariant_deliver {capture : Capture} (hcapture : capture.Sound s.registered)
    (alive : Bool) : Invariant (deliver capture alive s) := by
  unfold deliver
  split
  · exact inv
  · next hsame =>
    have hgeneration : capture.generation = s.generation := not_not.mp hsame
    have hdelivery : (⟨capture, s.registered.length⟩ : Delivery).Sound s.registered := by
      refine ⟨hcapture, ?_⟩
      rw [hcapture.generation, hgeneration]
      exact inv.length
    have hdelivered : Invariant { s with
        lastButtonConfig := capture.config.buttonConfig
        deliveries := ⟨capture, s.registered.length⟩ :: s.deliveries } := by
      refine { inv with
        deliveries := fun delivery hmem => ?_
        shown := fun keyboard hmem => ?_
        answers := fun answer hmem => ?_ }
      · rcases List.mem_cons.mp hmem with rfl | hmem
        · exact hdelivery
        · exact inv.deliveries delivery hmem
      · exact (inv.shown keyboard hmem).imp_left (List.mem_cons_of_mem _)
      · exact (inv.answers answer hmem).imp_left (List.mem_cons_of_mem _)
    dsimp only
    split
    · refine { hdelivered with shown := fun keyboard hmem => ?_ }
      rcases List.mem_append.mp hmem with hmem | hmem
      · exact hdelivered.shown keyboard hmem
      · cases List.mem_singleton.mp hmem
        exact ⟨List.mem_cons_self .., hgeneration⟩
    · exact hdelivered

theorem invariant_tap {keyboard : Shown} (hmem : keyboard ∈ s.shown) (buttonType : ButtonType)
    (text : Option Text) : Invariant (tap keyboard buttonType text s) := by
  unfold tap
  split
  · exact inv
  · next hsame =>
    obtain ⟨hdelivered, hgeneration⟩ := inv.shown keyboard hmem
    refine { inv with answers := fun answer hanswer => ?_ }
    rcases List.mem_cons.mp hanswer with rfl | hanswer
    · refine ⟨hdelivered, ?_⟩
      have hcapture := (inv.deliveries _ hdelivered).capture.generation
      rw [hcapture, hgeneration, not_not.mp hsame]
      exact inv.length
    · exact inv.answers answer hanswer

/-- A block that is queued is one of those, or a request that was taken. -/
theorem invariant_enqueue {block : Block}
    (hblock : ∀ capture, block = .deliver capture → capture.Sound s.registered) :
    Invariant { s with queue := s.queue ++ [block] } := by
  refine { inv with queue := fun capture hmem => ?_ }
  rcases List.mem_append.mp hmem with hmem | hmem
  · exact inv.queue capture hmem
  · exact hblock capture (List.mem_singleton.mp hmem).symm

theorem invariant_step {t : State} {label : Label} (h : step s label = some t) : Invariant t := by
  cases label with
  | request config =>
      cases h
      exact invariant_request inv config
  | dispatch index =>
      simp only [step] at h
      split at h
      · next capture hcapture =>
        cases h
        have hsound := inv.captured capture (List.mem_of_getElem? hcapture)
        have hblock (other : Capture) (hother : Block.deliver capture = .deliver other) :
            other.Sound s.registered := by
          cases hother
          exact hsound
        have hqueued := invariant_enqueue inv hblock
        exact { hqueued with
          captured := fun other hmem => inv.captured other (List.mem_of_mem_eraseIdx hmem) }
      · cases h
  | register callback onMain =>
      cases onMain with
      | true =>
          cases h
          exact invariant_registerOnMain inv callback
      | false =>
          cases h
          exact invariant_enqueue inv nofun
  | stop onMain =>
      cases onMain with
      | true =>
          cases h
          exact invariant_stopOnMain inv
      | false =>
          cases h
          exact invariant_enqueue inv nofun
  | runBlock alive =>
      simp only [step] at h
      split at h
      · cases h
      · next block blocks hqueue =>
        have hrest : Invariant { s with queue := blocks } :=
          { inv with queue := fun capture hmem =>
              inv.queue capture (hqueue ▸ List.mem_cons_of_mem block hmem) }
        cases block with
        | deliver capture =>
            cases h
            exact invariant_deliver hrest (inv.queue capture (hqueue ▸ List.mem_cons_self ..)) alive
        | register callback =>
            cases h
            exact invariant_registerOnMain hrest callback
        | stop =>
            cases h
            exact invariant_stopOnMain hrest
  | tap index buttonType text =>
      simp only [step] at h
      split at h
      · next keyboard hkeyboard =>
        cases h
        exact invariant_tap inv (List.mem_of_getElem? hkeyboard) buttonType text
      · cases h
  | importChanges busy =>
      cases h
      exact inv.frame rfl rfl rfl rfl rfl rfl rfl rfl
  | coreChanges loaded =>
      cases h
      exact inv.frame rfl rfl rfl rfl rfl rfl rfl rfl

end Steps

/-! ## The result -/

theorem Invariant.timely {s : State} (inv : Invariant s) : Timely s where
  delivered delivery hmem := by
    have hsound := inv.deliveries delivery hmem
    refine ⟨?_, hsound.registrations⟩
    rw [Capture.Current, hsound.capture.generation]
    exact hsound.capture.current
  answered := inv.answers
  stopped registrations _ := by
    refine ⟨fun delivery hmem hle => ?_, fun answer hmem hle => ?_⟩
    · rwa [(inv.deliveries delivery hmem).registrations] at hle
    · rwa [(inv.answers answer hmem).2] at hle

/-- **Keyboard requests never outlive their registration**, in any order of the threads. -/
theorem timely_of_reachable {s : State} (h : system.Reachable s) : Timely s := by
  have inv : Invariant s := by
    refine h.invariant Invariant (fun s hs => ?_) fun s label t _ inv hstep => ?_
    · exact hs ▸ invariant_init
    · exact invariant_step inv hstep
  exact inv.timely

/-- A request waits in the queue while another view registers; the next request is answered, the
keyboard of one more is still there after a stop. -/
def registersAgain : List Label :=
  [.coreChanges true, .register (some 1) true, .request (some ⟨.dual⟩), .dispatch 0,
    .register (some 2) false, .runBlock true, .request (some ⟨.dual⟩), .dispatch 0, .runBlock true,
    .runBlock true, .tap 0 .ok none, .request (some ⟨.dual⟩), .dispatch 0, .runBlock true,
    .tap 1 .ok (some "x".toList), .request (some ⟨.dual⟩), .dispatch 0, .runBlock true, .stop true,
    .tap 2 .ok none]

theorem timely_registersAgain :
    ∃ s, (s.answers.map Answer.input = [some ("x".toList, 1)] ∧ s.deliveries.length = 3) ∧
      Timely s := by
  obtain ⟨s, hreach, hends⟩ :=
    System.exists_reachable_of_run (show system.init {} from rfl) registersAgain
      (fun s => s.answers.map Answer.input = [some ("x".toList, 1)] ∧ s.deliveries.length = 3)
      (by decide +kernel)
  exact ⟨s, hends, timely_of_reachable hreach⟩

end ManicRoom.Keyboard.Requests
