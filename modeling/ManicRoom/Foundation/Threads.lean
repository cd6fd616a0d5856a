/-
# Threads that wait for locks and for each other

Threads run code of which only the synchronisation is left: scopes that hold a lock, joining
and starting threads through handles, exceptions, and choices that stand for everything else
the code decides. A thread waits for the owner of a lock, or for the end of a thread that it
joins. This module gives the transition system and its one theorem: where locks and handles
have ranks, and all code asks for them in the order of the ranks, no cycle of threads that
wait for each other is ever reached. Locks of one component may have one rank and nest in each
other in any order, as long as no thread waits for such a lock while its owner waits for
another. Nothing here refers to a particular program.
-/

import Mathlib.Logic.Function.Basic
import Mathlib.Logic.Relation
import Mathlib.Order.Nat
import ManicRoom.Foundation.Transition

namespace ManicRoom.Foundation

universe u v

/-- Code, as far as it waits. -/
inductive Code (Lock : Type u) (Handle : Type v)
  | skip
  | seq (first second : Code Lock Handle)
  | either (left right : Code Lock Handle)
  /-- Any number of rounds. -/
  | many (body : Code Lock Handle)
  /-- The scope of a `lock_guard`. -/
  | guarded (lock : Lock) (body : Code Lock Handle)
  /-- Wait for the end of the thread of a handle, if it has one. -/
  | join (handle : Handle)
  | start (handle : Handle) (body : Code Lock Handle)
  /-- Whether a handle has a thread. -/
  | test (handle : Handle) (joinable other : Code Lock Handle)
  /-- `try` and `catch`. -/
  | attempt (body handler : Code Lock Handle)
  deriving DecidableEq, Repr

namespace Code

variable {Lock : Type u} {Handle : Type v}

/-- Code that only runs under some condition. -/
def maybe (code : Code Lock Handle) : Code Lock Handle := either code skip

/-- One after another. -/
def block : List (Code Lock Handle) → Code Lock Handle
  | [] => skip
  | first :: rest => seq first (block rest)

end Code

/-- What a thread has still to do. -/
inductive Task (Lock : Type u) (Handle : Type v)
  | run (code : Code Lock Handle)
  /-- The end of the scope of a `lock_guard`. -/
  | release (lock : Lock)
  /-- The end of a `try`, and what is done there after an exception. -/
  | handle (handler : Code Lock Handle)
  /-- An exception is looking for its handler. -/
  | unwind
  deriving DecidableEq, Repr

/-- Threads that are there, and threads that have been started. -/
inductive ThreadId
  | caller (number : ℕ)
  | started (number : ℕ)
  deriving DecidableEq, Repr

structure Threads (Lock : Type u) (Handle : Type v) where
  stack : ThreadId → List (Task Lock Handle)
  owner : Lock → Option ThreadId
  /-- The number of the thread of a handle. -/
  handle : Handle → Option ℕ
  /-- How many threads have been started. -/
  started : ℕ

/-- What happens next. -/
inductive Move
  /-- An idle caller calls a function of the program. -/
  | call (caller function : ℕ)
  /-- A thread does its next task; at a choice it takes the first branch or the second. -/
  | advance (thread : ThreadId) (first : Bool)
  /-- The next task of a thread throws. -/
  | throw (thread : ThreadId)
  deriving DecidableEq, Repr

namespace Threads

variable {Lock : Type u} {Handle : Type v}

/-- The thread goes on with these tasks. -/
def goOn (s : Threads Lock Handle) (thread : ThreadId) (tasks : List (Task Lock Handle)) :
    Threads Lock Handle :=
  { s with stack := Function.update s.stack thread tasks }

/-- The tasks of a thread after a step of its code that neither waits nor changes anything but
them. -/
def unfold (first : Bool) (rest : List (Task Lock Handle)) :
    Code Lock Handle → List (Task Lock Handle)
  | .seq left right => .run left :: .run right :: rest
  | .either left right => .run (if first then left else right) :: rest
  | .many body => if first then .run body :: .run (.many body) :: rest else rest
  | .attempt body handler => .run body :: .handle handler :: rest
  | _ => rest

variable [DecidableEq Lock] [DecidableEq Handle]

/-- A thread goes on and no longer owns a lock. -/
def release (s : Threads Lock Handle) (thread : ThreadId) (lock : Lock)
    (tasks : List (Task Lock Handle)) : Threads Lock Handle :=
  { s.goOn thread tasks with owner := Function.update s.owner lock none }

/-- A thread does its next task, if it does not have to wait. -/
def advance (s : Threads Lock Handle) (thread : ThreadId) (first : Bool) :
    Option (Threads Lock Handle) :=
  match s.stack thread with
  | [] => none
  | .release lock :: rest => some (s.release thread lock rest)
  | .handle _ :: rest => some (s.goOn thread rest)
  | .unwind :: .release lock :: rest => some (s.release thread lock (.unwind :: rest))
  | .unwind :: .handle handler :: rest => some (s.goOn thread (.run handler :: rest))
  | .unwind :: _ :: rest => some (s.goOn thread (.unwind :: rest))
  | [.unwind] => none
  | .run (.guarded lock body) :: rest =>
      if s.owner lock = none then
        some { s.goOn thread (.run body :: .release lock :: rest) with
          owner := Function.update s.owner lock (some thread) }
      else none
  | .run (.join handle) :: rest =>
      match s.handle handle with
      | none => some (s.goOn thread rest)
      | some number =>
          if (s.stack (.started number)).isEmpty then
            some { s.goOn thread rest with handle := Function.update s.handle handle none }
          else none
  | .run (.start handle body) :: rest =>
      some { (s.goOn thread rest).goOn (.started s.started) [.run body] with
        handle := Function.update s.handle handle (some s.started)
        started := s.started + 1 }
  | .run (.test handle joinable other) :: rest =>
      some (s.goOn thread (.run (if (s.handle handle).isSome then joinable else other) :: rest))
  | .run code :: rest => some (s.goOn thread (unfold first rest code))

/-- One step of the threads, whose callers call these functions. -/
def step (functions : List (Code Lock Handle)) (s : Threads Lock Handle) :
    Move → Option (Threads Lock Handle)
  | .call caller function =>
      match s.stack (.caller caller), functions[function]? with
      | [], some code => some (s.goOn (.caller caller) [.run code])
      | _, _ => none
  | .advance thread first => s.advance thread first
  | .throw thread =>
      match s.stack thread with
      | .run _ :: rest => some (s.goOn thread (.unwind :: rest))
      | _ => none

/-- No thread runs, and no lock is taken. -/
def Idle (s : Threads Lock Handle) : Prop :=
  (∀ thread, s.stack thread = []) ∧ (∀ lock, s.owner lock = none) ∧ ∀ handle, s.handle handle = none

/-- The threads as a transition system. -/
def system (functions : List (Code Lock Handle)) : System (Threads Lock Handle) Move where
  init := Idle
  step := step functions

omit [DecidableEq Lock] [DecidableEq Handle] in
/-- A thread waits for another, or for itself. -/
inductive Waits (s : Threads Lock Handle) (thread other : ThreadId) : Prop
  | lock {lock : Lock} {body : Code Lock Handle} {rest : List (Task Lock Handle)}
      (next : s.stack thread = .run (.guarded lock body) :: rest)
      (owned : s.owner lock = some other)
  | finish {handle : Handle} {number : ℕ} {rest : List (Task Lock Handle)}
      (next : s.stack thread = .run (.join handle) :: rest)
      (joined : s.handle handle = some number) (same : other = .started number)
      (running : s.stack other ≠ [])

end Threads

/-! ## Ranks -/

/-- In which order locks and the ends of threads are waited for. -/
structure Ranks (Lock : Type u) (Handle : Type v) where
  lock : Lock → ℕ
  handle : Handle → ℕ
  /-- In the scope of such a lock a thread may also ask for the locks of the same rank. -/
  nests : Lock → Bool
  nests_of_eq : ∀ {inner outer}, nests outer = true → lock inner = lock outer → nests inner = true
  handle_ne : ∀ {outer}, nests outer = true → ∀ joined, handle joined ≠ lock outer

/-- From which rank on a thread may wait in the scope of a lock. -/
def Ranks.within {Lock : Type u} {Handle : Type v} (ranks : Ranks Lock Handle) (lock : Lock) : ℕ :=
  if ranks.nests lock then ranks.lock lock else ranks.lock lock + 1

section Ranks

variable {Lock : Type u} {Handle : Type v} (ranks : Ranks Lock Handle)

theorem Ranks.lock_le_within (lock : Lock) : ranks.lock lock ≤ ranks.within lock := by
  unfold Ranks.within
  split
  · exact le_refl _
  · exact Nat.le_succ _

/-- The code waits for nothing below a rank, and inside the scope of a lock only for what comes
after it. The code of a thread that it starts waits only for what comes after its end. -/
def Code.Ordered : ℕ → Code Lock Handle → Prop
  | _, .skip => True
  | least, .seq first second => first.Ordered least ∧ second.Ordered least
  | least, .either left right => left.Ordered least ∧ right.Ordered least
  | least, .many body => body.Ordered least
  | least, .guarded lock body => least ≤ ranks.lock lock ∧ body.Ordered (ranks.within lock)
  | least, .join handle => least ≤ ranks.handle handle
  | _, .start handle body => body.Ordered (ranks.handle handle + 1)
  | least, .test _ joinable other => joinable.Ordered least ∧ other.Ordered least
  | least, .attempt body handler => body.Ordered least ∧ handler.Ordered least

/-- From which rank on a thread waits in the scopes that it is in. -/
def floor (least : ℕ) : List (Task Lock Handle) → ℕ
  | [] => least
  | .release lock :: _ => ranks.within lock
  | _ :: rest => floor least rest

/-- What a thread has still to do keeps to the order. -/
def TasksOrdered (least : ℕ) : List (Task Lock Handle) → Prop
  | [] => True
  | .run code :: rest => code.Ordered ranks (floor ranks least rest) ∧ TasksOrdered least rest
  | .release lock :: rest => floor ranks least rest ≤ ranks.lock lock ∧ TasksOrdered least rest
  | .handle handler :: rest =>
      handler.Ordered ranks (floor ranks least rest) ∧ TasksOrdered least rest
  | .unwind :: rest => TasksOrdered least rest

variable {ranks} {least : ℕ} {tasks : List (Task Lock Handle)}

theorem TasksOrdered.tail {task : Task Lock Handle} (h : TasksOrdered ranks least (task :: tasks)) :
    TasksOrdered ranks least tasks := by
  cases task with
  | run code => exact h.2
  | release lock => exact h.2
  | handle handler => exact h.2
  | unwind => exact h

theorem TasksOrdered.least_le_floor (h : TasksOrdered ranks least tasks) :
    least ≤ floor ranks least tasks := by
  induction tasks with
  | nil => exact le_refl least
  | cons task rest ih =>
      cases task with
      | release lock => exact (ih h.2).trans (h.1.trans (ranks.lock_le_within lock))
      | run code => exact ih h.2
      | handle handler => exact ih h.2
      | unwind => exact ih h

/-- The locks that a thread holds come before what it waits for. -/
theorem TasksOrdered.within_le_floor (h : TasksOrdered ranks least tasks) {lock : Lock}
    (hmem : .release lock ∈ tasks) : ranks.within lock ≤ floor ranks least tasks := by
  induction tasks with
  | nil => exact absurd hmem List.not_mem_nil
  | cons task rest ih =>
      have hrest := ih h.tail
      cases task with
      | release last =>
          rcases List.mem_cons.mp hmem with heq | hmem
          · cases heq
            exact le_refl _
          · exact (hrest hmem).trans (h.1.trans (ranks.lock_le_within last))
      | run code => exact hrest (by simpa using hmem)
      | handle handler => exact hrest (by simpa using hmem)
      | unwind => exact hrest (by simpa using hmem)

/-- A step of the code of a thread keeps to the order. -/
theorem TasksOrdered.unfold {code : Code Lock Handle} (first : Bool)
    (h : TasksOrdered ranks least (.run code :: tasks)) :
    TasksOrdered ranks least (Threads.unfold first tasks code) := by
  obtain ⟨hcode, hrest⟩ := h
  cases code with
  | seq left right => exact ⟨hcode.1, hcode.2, hrest⟩
  | either left right =>
      cases first with
      | true => exact ⟨hcode.1, hrest⟩
      | false => exact ⟨hcode.2, hrest⟩
  | many body =>
      cases first with
      | true => exact ⟨hcode, hcode, hrest⟩
      | false => exact hrest
  | attempt body handler => exact ⟨hcode.1, hcode.2, hrest⟩
  | skip => exact hrest
  | guarded lock body => exact hrest
  | join handle => exact hrest
  | start handle body => exact hrest
  | test handle joinable other => exact hrest

theorem mem_unfold {code : Code Lock Handle} (first : Bool) {task : Task Lock Handle}
    (h : task ∈ tasks) : task ∈ Threads.unfold first tasks code := by
  cases code with
  | seq left right => exact List.mem_cons_of_mem _ (List.mem_cons_of_mem _ h)
  | either left right => exact List.mem_cons_of_mem _ h
  | many body =>
      cases first with
      | true => exact List.mem_cons_of_mem _ (List.mem_cons_of_mem _ h)
      | false => exact h
  | attempt body handler => exact List.mem_cons_of_mem _ (List.mem_cons_of_mem _ h)
  | skip => exact h
  | guarded lock body => exact h
  | join handle => exact h
  | start handle body => exact h
  | test handle joinable other => exact h

end Ranks

/-! ## The invariant -/

namespace Threads

variable {Lock : Type u} {Handle : Type v}

/-- The locks in whose scopes a thread is. -/
def scopes (tasks : List (Task Lock Handle)) : List Lock :=
  tasks.filterMap fun
    | .release lock => some lock
    | _ => none

theorem mem_scopes {tasks : List (Task Lock Handle)} {lock : Lock} :
    lock ∈ scopes tasks ↔ .release lock ∈ tasks := by
  rw [scopes, List.mem_filterMap]
  constructor
  · rintro ⟨task, hmem, htask⟩
    cases task <;> cases htask
    exact hmem
  · exact fun hmem => ⟨_, hmem, rfl⟩

/-- A thread owns the locks in whose scopes it is, and is in the scope of each once. -/
structure Scoped (s : Threads Lock Handle) : Prop where
  held : ∀ thread lock, lock ∈ scopes (s.stack thread) → s.owner lock = some thread
  once : ∀ thread, (scopes (s.stack thread)).Nodup

/-- Every thread keeps to the order, above the rank of its end if a handle refers to it, and
is inside the scopes of the locks that it owns. -/
structure Orderly (ranks : Ranks Lock Handle) (s : Threads Lock Handle) : Prop where
  tasks : ∀ thread, ∃ least, TasksOrdered ranks least (s.stack thread) ∧
    ∀ handle number, s.handle handle = some number → thread = .started number →
      ranks.handle handle < least
  owned : ∀ lock thread, s.owner lock = some thread → .release lock ∈ s.stack thread
  fresh : ∀ number, s.started ≤ number → s.stack (.started number) = []
  known : ∀ handle number, s.handle handle = some number → number < s.started

section Invariant

variable {ranks : Ranks Lock Handle} {s : Threads Lock Handle}

theorem Idle.orderly (h : s.Idle) : s.Orderly ranks where
  tasks thread := by
    obtain ⟨hstack, -, hhandle⟩ := h
    refine ⟨0, ?_, ?_⟩
    · rw [hstack thread]
      exact trivial
    · intro handle number heq
      exact nomatch (hhandle handle).symm.trans heq
  owned lock thread heq := nomatch (h.2.1 lock).symm.trans heq
  fresh number _ := h.1 _
  known handle number heq := nomatch (h.2.2 handle).symm.trans heq

/-- A thread goes on with other tasks, and possibly takes or releases a lock or has joined a
thread. -/
theorem Orderly.goOn (orderly : s.Orderly ranks) {thread : ThreadId} {task : Task Lock Handle}
    {rest tasks : List (Task Lock Handle)} {owner : Lock → Option ThreadId}
    {handle : Handle → Option ℕ} (hstack : s.stack thread = task :: rest)
    (htasks : ∀ least, TasksOrdered ranks least (task :: rest) → TasksOrdered ranks least tasks)
    (hown : ∀ lock, owner lock = some thread →
      .release lock ∈ tasks ∨ s.owner lock = some thread ∧
        (.release lock ∈ task :: rest → .release lock ∈ tasks))
    (hother : ∀ lock other, owner lock = some other → other ≠ thread → s.owner lock = some other)
    (hhandle : ∀ h number, handle h = some number → s.handle h = some number) :
    Orderly ranks { s.goOn thread tasks with owner, handle } where
  tasks other := by
    obtain ⟨least, hleast, habove⟩ := orderly.tasks other
    refine ⟨least, ?_, fun h number heq => habove h number (hhandle h number heq)⟩
    by_cases hsame : other = thread
    · subst hsame
      rw [hstack] at hleast
      simpa [Threads.goOn] using htasks least hleast
    · simpa [Threads.goOn, hsame] using hleast
  owned lock other heq := by
    by_cases hsame : other = thread
    · subst hsame
      rcases hown lock heq with hmem | ⟨howned, hkept⟩
      · simpa [Threads.goOn] using hmem
      · have hmem := orderly.owned lock _ howned
        rw [hstack] at hmem
        simpa [Threads.goOn] using hkept hmem
    · simpa [Threads.goOn, hsame] using orderly.owned lock other (hother lock other heq hsame)
  fresh number hle := by
    have hidle := orderly.fresh number hle
    have hne : ThreadId.started number ≠ thread := by
      rintro rfl
      exact nomatch hidle.symm.trans hstack
    simpa [Threads.goOn, hne] using hidle
  known h number heq := orderly.known h number (hhandle h number heq)

/-- A thread goes on with other tasks, and nothing else changes. -/
theorem Orderly.goOn_only (orderly : s.Orderly ranks) {thread : ThreadId} {task : Task Lock Handle}
    {rest tasks : List (Task Lock Handle)} (hstack : s.stack thread = task :: rest)
    (htasks : ∀ least, TasksOrdered ranks least (task :: rest) → TasksOrdered ranks least tasks)
    (hkept : ∀ lock, .release lock ∈ task :: rest → .release lock ∈ tasks) :
    (s.goOn thread tasks).Orderly ranks :=
  orderly.goOn hstack htasks (fun lock howned => .inr ⟨howned, hkept lock⟩)
    (fun _ _ howned _ => howned) fun _ _ heq => heq

/-- The call of a function whose code keeps to the order. -/
theorem Orderly.call (orderly : s.Orderly ranks) {caller : ℕ} {code : Code Lock Handle}
    (hidle : s.stack (.caller caller) = []) (hcode : code.Ordered ranks 0) :
    (s.goOn (.caller caller) [.run code]).Orderly ranks := by
  have hown (lock : Lock) (howned : s.owner lock = some (.caller caller)) :
      Task.release lock ∈ [Task.run code] := by
    have hmem := orderly.owned lock _ howned
    rw [hidle] at hmem
    exact absurd hmem List.not_mem_nil
  refine ⟨fun other => ?_, fun lock other heq => ?_, fun number hle => ?_, orderly.known⟩
  · by_cases hsame : other = .caller caller
    · subst hsame
      refine ⟨0, ?_, fun handle number _ hnumber => nomatch hnumber⟩
      simpa [Threads.goOn, TasksOrdered, floor] using hcode
    · simpa [Threads.goOn, hsame] using orderly.tasks other
  · by_cases hsame : other = .caller caller
    · subst hsame
      simpa [Threads.goOn] using hown lock heq
    · simpa [Threads.goOn, hsame] using orderly.owned lock other heq
  · simpa [Threads.goOn] using orderly.fresh number hle

/-- An exception leaves the tasks that are left to do in order. -/
theorem Orderly.throw (orderly : s.Orderly ranks) {thread : ThreadId} {code : Code Lock Handle}
    {rest : List (Task Lock Handle)} (hstack : s.stack thread = .run code :: rest) :
    (s.goOn thread (.unwind :: rest)).Orderly ranks := by
  apply orderly.goOn_only hstack
  · exact fun _ hordered => hordered.2
  · intro lock hmem
    simpa using hmem

variable [DecidableEq Handle]

/-- A thread goes on and starts another. -/
theorem Orderly.start (orderly : s.Orderly ranks) {thread : ThreadId} {handle : Handle}
    {body : Code Lock Handle} {rest : List (Task Lock Handle)}
    (hstack : s.stack thread = .run (.start handle body) :: rest) :
    Orderly ranks { (s.goOn thread rest).goOn (.started s.started) [.run body] with
      handle := Function.update s.handle handle (some s.started)
      started := s.started + 1 } := by
  have hthread (number : ℕ) (hle : s.started ≤ number) : thread ≠ .started number := by
    rintro rfl
    exact nomatch (orderly.fresh number hle).symm.trans hstack
  -- Only the handle that is set refers to the new thread.
  have hhandle (h : Handle) (number : ℕ)
      (heq : Function.update s.handle handle (some s.started) h = some number) :
      h = handle ∧ number = s.started ∨ s.handle h = some number := by
    by_cases hsame : h = handle
    · subst hsame
      rw [Function.update_self, Option.some.injEq] at heq
      exact .inl ⟨rfl, heq.symm⟩
    · rw [Function.update_of_ne hsame] at heq
      exact .inr heq
  refine ⟨fun other => ?_, fun lock other heq => ?_, fun number hle => ?_, fun h number heq => ?_⟩
  · by_cases hnew : other = .started s.started
    · subst hnew
      obtain ⟨least, hleast, -⟩ := orderly.tasks thread
      rw [hstack] at hleast
      refine ⟨ranks.handle handle + 1, ?_, fun h number heq hnumber => ?_⟩
      · simpa [Threads.goOn, TasksOrdered, floor, Code.Ordered] using hleast.1
      · rcases hhandle h number heq with ⟨rfl, -⟩ | hold
        · exact Nat.lt_succ_self _
        · cases hnumber
          exact absurd (orderly.known h _ hold) (Nat.lt_irrefl _)
    · obtain ⟨least, hleast, habove⟩ := orderly.tasks other
      refine ⟨least, ?_, fun h number heq hnumber => ?_⟩
      · by_cases hsame : other = thread
        · subst hsame
          rw [hstack] at hleast
          simpa [Threads.goOn, hnew] using hleast.2
        · simpa [Threads.goOn, hnew, hsame] using hleast
      · rcases hhandle h number heq with ⟨-, rfl⟩ | hold
        · exact absurd hnumber hnew
        · exact habove h number hold hnumber
  · have hold := orderly.owned lock other heq
    have hnew : other ≠ .started s.started := by
      rintro rfl
      rw [orderly.fresh _ (le_refl _)] at hold
      exact absurd hold List.not_mem_nil
    by_cases hsame : other = thread
    · subst hsame
      rw [hstack] at hold
      simpa [Threads.goOn, hnew] using hold
    · simpa [Threads.goOn, hnew, hsame] using hold
  · have hle : s.started + 1 ≤ number := hle
    have hnew : ThreadId.started number ≠ .started s.started := by
      intro heq
      cases heq
      omega
    have hsame := (hthread number (by omega)).symm
    simpa [Threads.goOn, hnew, hsame] using orderly.fresh number (by omega)
  · show number < s.started + 1
    rcases hhandle h number heq with ⟨-, rfl⟩ | hold
    · exact Nat.lt_succ_self _
    · exact (orderly.known h number hold).trans (Nat.lt_succ_self _)

variable [DecidableEq Lock]

omit [DecidableEq Handle] in
theorem Orderly.release (orderly : s.Orderly ranks) {thread : ThreadId} {lock : Lock}
    {task : Task Lock Handle} {rest tasks : List (Task Lock Handle)}
    (hstack : s.stack thread = task :: rest)
    (htasks : ∀ least, TasksOrdered ranks least (task :: rest) → TasksOrdered ranks least tasks)
    (hkept : ∀ other ≠ lock, .release other ∈ task :: rest → .release other ∈ tasks) :
    (s.release thread lock tasks).Orderly ranks := by
  have howner (other : Lock) (owner : ThreadId)
      (howned : Function.update s.owner lock none other = some owner) :
      other ≠ lock ∧ s.owner other = some owner := by
    by_cases hsame : other = lock
    · subst hsame
      simp at howned
    · rw [Function.update_of_ne hsame] at howned
      exact ⟨hsame, howned⟩
  apply orderly.goOn hstack htasks
  · intro other howned
    obtain ⟨hne, howned⟩ := howner other thread howned
    exact .inr ⟨howned, hkept other hne⟩
  · exact fun other owner howned _ => (howner other owner howned).2
  · exact fun _ _ heq => heq

omit [DecidableEq Handle] in
theorem Orderly.acquire (orderly : s.Orderly ranks) {thread : ThreadId} {lock : Lock}
    {body : Code Lock Handle} {rest : List (Task Lock Handle)}
    (hstack : s.stack thread = .run (.guarded lock body) :: rest) :
    Orderly ranks { s.goOn thread (.run body :: .release lock :: rest) with
      owner := Function.update s.owner lock (some thread) } := by
  apply orderly.goOn hstack
  · exact fun _ hordered => ⟨hordered.1.2, hordered.1.1, hordered.2⟩
  · intro other howned
    by_cases hsame : other = lock
    · subst hsame
      exact .inl (List.mem_cons_of_mem _ (List.mem_cons_self ..))
    · rw [Function.update_of_ne hsame] at howned
      refine .inr ⟨howned, fun hmem => ?_⟩
      simpa [hsame] using hmem
  · intro other owner howned hne
    by_cases hsame : other = lock
    · subst hsame
      rw [Function.update_self, Option.some.injEq] at howned
      exact absurd howned.symm hne
    · rwa [Function.update_of_ne hsame] at howned
  · exact fun _ _ heq => heq

omit [DecidableEq Lock] in
theorem Orderly.joined (orderly : s.Orderly ranks) {thread : ThreadId} {handle : Handle}
    {rest : List (Task Lock Handle)} (hstack : s.stack thread = .run (.join handle) :: rest) :
    Orderly ranks { s.goOn thread rest with handle := Function.update s.handle handle none } := by
  apply orderly.goOn hstack
  · exact fun _ hordered => hordered.2
  · intro lock howned
    refine .inr ⟨howned, fun hmem => ?_⟩
    simpa using hmem
  · exact fun _ _ howned _ => howned
  · intro other number heq
    by_cases hsame : other = handle
    · subst hsame
      simp at heq
    · rwa [Function.update_of_ne hsame] at heq

/-- A task of a thread preserves the invariant. -/
theorem Orderly.advance (orderly : s.Orderly ranks) {thread : ThreadId} {first : Bool}
    {t : Threads Lock Handle} (h : s.advance thread first = some t) : t.Orderly ranks := by
  unfold Threads.advance at h
  split at h
  · exact nomatch h
  · next lock rest hstack =>
    cases h
    apply orderly.release hstack
    · exact fun _ hordered => hordered.2
    · intro other hne hmem
      simpa [hne] using hmem
  · next handler rest hstack =>
    cases h
    apply orderly.goOn_only hstack
    · exact fun _ hordered => hordered.2
    · intro lock hmem
      simpa using hmem
  · next lock rest hstack =>
    cases h
    apply orderly.release hstack
    · exact fun _ hordered => hordered.2
    · intro other hne hmem
      simpa [hne] using hmem
  · next handler rest hstack =>
    cases h
    apply orderly.goOn_only hstack
    · exact fun _ hordered => hordered
    · intro lock hmem
      simpa using hmem
  · next task rest hrelease _ hstack =>
    cases h
    apply orderly.goOn_only hstack
    · intro least hordered
      have hrest : TasksOrdered ranks least (task :: rest) := hordered
      exact hrest.tail
    · intro lock hmem
      have hne : Task.release lock ≠ task := fun heq => hrelease lock heq.symm
      simpa [hne] using hmem
  · exact nomatch h
  · next lock body rest hstack =>
    split at h
    · cases h
      exact orderly.acquire hstack
    · exact nomatch h
  · next handle rest hstack =>
    split at h
    · cases h
      apply orderly.goOn_only hstack
      · exact fun _ hordered => hordered.2
      · intro lock hmem
        simpa using hmem
    · split at h
      · cases h
        exact orderly.joined hstack
      · exact nomatch h
  · next handle body rest hstack =>
    cases h
    exact orderly.start hstack
  · next handle joinable other rest hstack =>
    cases h
    apply orderly.goOn_only hstack
    · intro least hordered
      refine ⟨?_, hordered.2⟩
      split
      · exact hordered.1.1
      · exact hordered.1.2
    · intro lock hmem
      simpa using hmem
  · next code rest _ _ _ _ hstack =>
    cases h
    apply orderly.goOn_only hstack
    · exact fun _ hordered => hordered.unfold first
    · intro lock hmem
      exact mem_unfold first (by simpa using hmem)

/-! ### The scopes -/

omit [DecidableEq Lock] [DecidableEq Handle]

/-- A thread goes on with other tasks, and what others own stays theirs. -/
theorem Scoped.goOn (holds : s.Scoped) {thread : ThreadId} {tasks : List (Task Lock Handle)}
    {owner : Lock → Option ThreadId} (handle : Handle → Option ℕ) (started : ℕ)
    (htasks : ∀ lock ∈ scopes tasks, owner lock = some thread) (honce : (scopes tasks).Nodup)
    (hothers : ∀ lock other, s.owner lock = some other → other ≠ thread →
      owner lock = some other) :
    Scoped { s.goOn thread tasks with owner, handle, started } where
  held other lock hmem := by
    by_cases hsame : other = thread
    · subst hsame
      exact htasks lock (by simpa [Threads.goOn] using hmem)
    · have hold : lock ∈ scopes (s.stack other) := by simpa [Threads.goOn, hsame] using hmem
      exact hothers lock other (holds.held other lock hold) hsame
  once other := by
    by_cases hsame : other = thread
    · subst hsame
      simpa [Threads.goOn] using honce
    · simpa [Threads.goOn, hsame] using holds.once other

/-- A thread goes on in the scopes that it is in. -/
theorem Scoped.goOn_only (holds : s.Scoped) {thread : ThreadId} {tasks : List (Task Lock Handle)}
    (handle : Handle → Option ℕ) (started : ℕ)
    (hscopes : scopes tasks = scopes (s.stack thread)) :
    Scoped { s.goOn thread tasks with handle, started } := by
  apply holds.goOn
  · rw [hscopes]
    exact holds.held thread
  · rw [hscopes]
    exact holds.once thread
  · exact fun _ _ howned _ => howned

theorem scopes_unfold (first : Bool) (rest : List (Task Lock Handle)) (code : Code Lock Handle) :
    scopes (unfold first rest code) = scopes rest := by
  cases code with
  | many body => cases first <;> rfl
  | _ => rfl

variable [DecidableEq Lock]

theorem Scoped.acquire (holds : s.Scoped) {thread : ThreadId} {lock : Lock}
    {body : Code Lock Handle} {rest : List (Task Lock Handle)}
    (hstack : s.stack thread = .run (.guarded lock body) :: rest) (hfree : s.owner lock = none) :
    Scoped { s.goOn thread (.run body :: .release lock :: rest) with
      owner := Function.update s.owner lock (some thread) } := by
  have hrest : scopes (s.stack thread) = scopes rest := by rw [hstack]; rfl
  have hheld := holds.held thread
  have honce := holds.once thread
  rw [hrest] at hheld honce
  have hnew : lock ∉ scopes rest := fun hmem => by simp [hheld lock hmem] at hfree
  apply holds.goOn
  · intro other hmem
    rcases List.mem_cons.mp (show other ∈ lock :: scopes rest from hmem) with rfl | hmem
    · exact Function.update_self ..
    · have hne : other ≠ lock := fun heq => hnew (heq ▸ hmem)
      rw [Function.update_of_ne hne]
      exact hheld other hmem
  · exact List.nodup_cons.mpr ⟨hnew, honce⟩
  · intro other owner howned _
    have hne : other ≠ lock := fun heq => by simp [← heq, howned] at hfree
    rwa [Function.update_of_ne hne]

theorem Scoped.release (holds : s.Scoped) {thread : ThreadId} {lock : Lock}
    {tasks : List (Task Lock Handle)} (hscopes : scopes (s.stack thread) = lock :: scopes tasks) :
    (s.release thread lock tasks).Scoped := by
  have hheld := holds.held thread
  have honce := holds.once thread
  rw [hscopes] at hheld honce
  obtain ⟨hlast, honce⟩ := List.nodup_cons.mp honce
  apply holds.goOn s.handle s.started
  · intro other hmem
    have hne : other ≠ lock := fun heq => hlast (heq ▸ hmem)
    rw [Function.update_of_ne hne]
    exact hheld other (List.mem_cons_of_mem _ hmem)
  · exact honce
  · intro other owner howned hothers
    have hne : other ≠ lock := by
      rintro rfl
      have hmine := hheld other (List.mem_cons_self ..)
      exact hothers (Option.some.inj (howned.symm.trans hmine))
    rwa [Function.update_of_ne hne]

variable [DecidableEq Handle]

omit [DecidableEq Lock] in
theorem Scoped.start (holds : s.Scoped) {thread : ThreadId} {handle : Handle}
    {body : Code Lock Handle} {rest : List (Task Lock Handle)}
    (hstack : s.stack thread = .run (.start handle body) :: rest)
    (hfresh : s.stack (.started s.started) = []) :
    Scoped { (s.goOn thread rest).goOn (.started s.started) [.run body] with
      handle := Function.update s.handle handle (some s.started)
      started := s.started + 1 } := by
  have hne : ThreadId.started s.started ≠ thread := by
    rintro rfl
    simp [hfresh] at hstack
  have hrest : (s.goOn thread rest).Scoped :=
    holds.goOn_only s.handle s.started (by rw [hstack]; rfl)
  refine hrest.goOn_only _ _ ?_
  rw [show (s.goOn thread rest).stack (.started s.started) = [] by simp [Threads.goOn, hne, hfresh]]
  rfl

/-- A task of a thread keeps the scopes. -/
theorem Scoped.advance (holds : s.Scoped) (hfresh : s.stack (.started s.started) = [])
    {thread : ThreadId} {first : Bool} {t : Threads Lock Handle}
    (h : s.advance thread first = some t) : t.Scoped := by
  have goes {tasks : List (Task Lock Handle)} (hscopes : scopes tasks = scopes (s.stack thread)) :
      (s.goOn thread tasks).Scoped :=
    holds.goOn_only s.handle s.started hscopes
  unfold Threads.advance at h
  split at h
  · cases h
  · next hstack =>
    cases h
    exact holds.release (by rw [hstack]; rfl)
  · next hstack =>
    cases h
    exact goes (by rw [hstack]; rfl)
  · next hstack =>
    cases h
    exact holds.release (by rw [hstack]; rfl)
  · next hstack =>
    cases h
    exact goes (by rw [hstack]; rfl)
  · next task rest hrelease _ hstack =>
    cases h
    apply goes
    rw [hstack]
    cases task with
    | release lock => exact absurd rfl (hrelease lock)
    | _ => rfl
  · cases h
  · next hstack =>
    split at h
    · next hfree =>
      cases h
      exact holds.acquire hstack hfree
    · cases h
  · next hstack =>
    split at h
    · cases h
      exact goes (by rw [hstack]; rfl)
    · split at h
      · cases h
        exact holds.goOn_only _ _ (by rw [hstack]; rfl)
      · cases h
  · next hstack =>
    cases h
    exact holds.start hstack hfresh
  · next hstack =>
    cases h
    exact goes (by rw [hstack]; rfl)
  · next code rest _ _ _ _ hstack =>
    cases h
    exact goes (by rw [hstack, scopes_unfold]; rfl)

/-! ### Runs -/

/-- Code in order keeps all threads in order, in the scopes of the locks that they own. -/
theorem orderly_of_reachable {functions : List (Code Lock Handle)}
    (hfunctions : ∀ code ∈ functions, code.Ordered ranks 0)
    (h : (system functions).Reachable s) : s.Orderly ranks ∧ s.Scoped := by
  apply h.invariant (fun s => s.Orderly ranks ∧ s.Scoped)
  · intro source hidle
    exact ⟨hidle.orderly, ⟨fun thread lock hmem => by simp [hidle.1, scopes] at hmem,
      fun thread => by simp [hidle.1, scopes]⟩⟩
  · intro source label target _ known hstep
    obtain ⟨orderly, holds⟩ := known
    cases label with
    | call caller function =>
        simp only [system, step] at hstep
        split at hstep
        · next code hidle hcode =>
          cases hstep
          refine ⟨orderly.call hidle (hfunctions code (List.mem_of_getElem? hcode)), ?_⟩
          exact holds.goOn_only source.handle source.started
            (by rw [hidle]; rfl)
        · cases hstep
    | advance thread first =>
        exact ⟨orderly.advance hstep, holds.advance (orderly.fresh _ (le_refl _)) hstep⟩
    | throw thread =>
        simp only [system, step] at hstep
        split at hstep
        · next code rest hstack =>
          cases hstep
          refine ⟨orderly.throw hstack, ?_⟩
          exact holds.goOn_only source.handle source.started
            (by rw [hstack]; rfl)
        · cases hstep

end Invariant

/-! ## No cycles -/

section Cycles

variable {ranks : Ranks Lock Handle} {s : Threads Lock Handle}

/-- The rank of what a thread waits for. -/
def level (ranks : Ranks Lock Handle) (s : Threads Lock Handle) (thread : ThreadId) : ℕ :=
  match s.stack thread with
  | .run (.guarded lock _) :: _ => ranks.lock lock
  | .run (.join handle) :: _ => ranks.handle handle
  | _ => 0

/-- A thread waits for a lock in whose scope others of the same rank may be asked for. -/
def WaitsNested (ranks : Ranks Lock Handle) (s : Threads Lock Handle)
    (thread other : ThreadId) : Prop :=
  ∃ lock body rest, ranks.nests lock = true ∧
    s.stack thread = .run (.guarded lock body) :: rest ∧ s.owner lock = some other

/-- No thread waits for such a lock while its owner waits for another. -/
def NestedApart (ranks : Ranks Lock Handle) (s : Threads Lock Handle) : Prop :=
  ∀ thread other last, WaitsNested ranks s thread other → ¬ WaitsNested ranks s other last

/-- A thread that waits does so above the scopes it is in. -/
theorem floor_le_level {thread other : ThreadId} {least : ℕ} (hwaits : s.Waits thread other)
    (h : TasksOrdered ranks least (s.stack thread)) :
    floor ranks least (s.stack thread) ≤ s.level ranks thread := by
  cases hwaits with
  | lock next =>
      rw [next] at h
      rw [level, next]
      exact h.1.1
  | finish next =>
      rw [next] at h
      rw [level, next]
      exact h.1

/-- Only a thread that waits for a lock that nests waits at the rank of one. -/
theorem waitsNested_of_level {thread other : ThreadId} {outer : Lock}
    (hnests : ranks.nests outer = true) (hwaits : s.Waits thread other)
    (hlevel : s.level ranks thread = ranks.lock outer) : WaitsNested ranks s thread other := by
  cases hwaits with
  | lock next owned =>
      rw [level, next] at hlevel
      exact ⟨_, _, _, ranks.nests_of_eq hnests hlevel, next, owned⟩
  | finish next =>
      rw [level, next] at hlevel
      exact absurd hlevel (ranks.handle_ne hnests _)

/-- Along a chain of waiting threads the ranks increase. -/
theorem Orderly.level_lt (orderly : s.Orderly ranks) (apart : NestedApart ranks s)
    {thread other last : ThreadId} (hwaits : s.Waits thread other) (hnext : s.Waits other last) :
    s.level ranks thread < s.level ranks other := by
  obtain ⟨least, hordered, habove⟩ := orderly.tasks other
  have hfloor := floor_le_level hnext hordered
  cases hwaits with
  | @lock lock body rest next owned =>
      have hwithin := (hordered.within_le_floor (orderly.owned _ other owned)).trans hfloor
      rw [level, next]
      cases hnests : ranks.nests lock with
      | false =>
          rw [Ranks.within, hnests] at hwithin
          exact hwithin
      | true =>
          have hwaits : WaitsNested ranks s thread other := ⟨lock, body, rest, hnests, next, owned⟩
          refine lt_of_le_of_ne ((ranks.lock_le_within lock).trans hwithin) fun hlevel => ?_
          exact apart _ _ _ hwaits (waitsNested_of_level hnests hnext hlevel.symm)
  | finish next joined same =>
      have hhandle := habove _ _ joined same
      rw [level, next]
      exact (hhandle.trans_le hordered.least_le_floor).trans_le hfloor

theorem Orderly.level_lt_of_transGen (orderly : s.Orderly ranks) (apart : NestedApart ranks s)
    {thread other last : ThreadId} (hwaits : Relation.TransGen s.Waits thread other)
    (hnext : s.Waits other last) : s.level ranks thread < s.level ranks other := by
  induction hwaits generalizing last with
  | single h => exact orderly.level_lt apart h hnext
  | tail _ h ih => exact (ih h).trans (orderly.level_lt apart h hnext)

/-- **No deadlock.** No cycle of threads wait for each other. -/
theorem Orderly.not_transGen_waits (orderly : s.Orderly ranks) (apart : NestedApart ranks s)
    (thread : ThreadId) : ¬ Relation.TransGen s.Waits thread thread := by
  intro hcycle
  obtain ⟨next, hnext, -⟩ := (Relation.TransGen.head'_iff).mp hcycle
  exact Nat.lt_irrefl _ (orderly.level_lt_of_transGen apart hcycle hnext)

/-- No thread asks for a lock that it holds. -/
theorem Orderly.release_notMem (orderly : s.Orderly ranks) (holds : s.Scoped)
    (apart : NestedApart ranks s) {thread : ThreadId} {lock : Lock} {body : Code Lock Handle}
    {rest : List (Task Lock Handle)} (hstack : s.stack thread = .run (.guarded lock body) :: rest) :
    .release lock ∉ rest := by
  intro hmem
  have howned : s.owner lock = some thread :=
    holds.held thread lock (by rw [hstack]; exact mem_scopes.mpr (List.mem_cons_of_mem _ hmem))
  exact orderly.not_transGen_waits apart thread (.single (.lock hstack howned))

end Cycles

end Threads

end ManicRoom.Foundation
