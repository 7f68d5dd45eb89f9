import Mathlib.Tactic.Lemma
import MessageSchema.Workbench.Stages

namespace MessageSchema.Workbench

/-!
What an action on the workbench does.

A stage on the workbench is compared with the same step of a compilation: both fail
with the same error, or both succeed, and the store that is left shows what the step
has computed.  Such descriptions are put together along the action.
-/

variable {α β γ : Type}

/-- The action succeeds, and its value and the store that it leaves are as
described. -/
def Yields (action : Work α) (store : Store) (post : α -> Store -> Prop) : Prop :=
  ∃ value after, action.run store = (.ok value, after) ∧ post value after

/-- The action goes the way of a step of compilation: it fails with the same error, or the
description fits its value, the result of the step and the store. -/
inductive Follows (action : Work α) (store : Store) (post : α -> β -> Store -> Prop) :
    Except CompileError β -> Prop
  | done {value : α} {result : β} {after : Store}
      (ran : action.run store = (.ok value, after)) (holds : post value result after) :
      Follows action store post (.ok result)
  | failed {error : CompileError} {after : Store}
      (ran : action.run store = (.error (.compile error), after)) :
      Follows action store post (.error error)

section
variable {store after : Store} {action : Work α} {next : α -> Work β}

lemma run_bind_of_ok {value : α} (ran : action.run store = (.ok value, after)) :
    (action >>= next).run store = (next value).run after := by
  change ExceptT.bindCont next (action.run store).1 (action.run store).2 = _
  rw [ran]
  rfl

lemma run_bind_of_error {failure : Failure} (ran : action.run store = (.error failure, after)) :
    (action >>= next).run store = (.error failure, after) := by
  change ExceptT.bindCont next (action.run store).1 (action.run store).2 = _
  rw [ran]
  rfl

lemma run_get_bind (next : Store -> Work β) (store : Store) :
    (get >>= next).run store = (next store).run store :=
  rfl

end

variable {other : α -> γ -> Store -> Prop} {result : γ}

namespace Yields

variable {store : Store} {action : Work α} {next : α -> Work β}
  {post : α -> Store -> Prop} {last : β -> Store -> Prop}

lemma pure {value : α} (holds : post value store) : Yields (Pure.pure value) store post :=
  ⟨value, store, rfl, holds⟩

lemma of_run {other : Work α} (same : action.run store = other.run store)
    (done : Yields other store post) : Yields action store post := by
  rcases done with ⟨value, after, ran, holds⟩
  exact ⟨value, after, same.trans ran, holds⟩

lemma get_bind {next : Store -> Work β} (rest : Yields (next store) store last) :
    Yields (get >>= next) store last :=
  rest

lemma bind (first : Yields action store post)
    (rest : ∀ value after, post value after -> Yields (next value) after last) :
    Yields (action >>= next) store last := by
  rcases first with ⟨value, after, ran, holds⟩
  rcases rest value after holds with ⟨result, left, done, ends⟩
  exact ⟨result, left, (run_bind_of_ok ran).trans done, ends⟩

lemma mono {other : α -> Store -> Prop} (done : Yields action store post)
    (weaker : ∀ value after, post value after -> other value after) :
    Yields action store other := by
  rcases done with ⟨value, after, ran, holds⟩
  exact ⟨value, after, ran, weaker value after holds⟩

/-- An action that succeeds goes the way of a step that does. -/
lemma follows (done : Yields action store post)
    (holds : ∀ value after, post value after -> other value result after) :
    Follows action store other (.ok result) := by
  rcases done with ⟨value, after, ran, true⟩
  exact .done ran (holds value after true)

end Yields

namespace Follows

variable {δ : Type} {store : Store} {action : Work α} {next : α -> Work β}
  {step : Except CompileError γ} {post : α -> γ -> Store -> Prop} {last : β -> δ -> Store -> Prop}

lemma of_run {other : Work α} {left : Store} (same : action.run store = other.run left)
    (follows : Follows other left post step) : Follows action store post step := by
  cases follows with
  | failed ran => exact .failed (same.trans ran)
  | done ran holds => exact .done (same.trans ran) holds

/-- After an action that goes the way of a step, the rest goes the way of what
follows the step. -/
lemma bind_ok {later : γ -> Except CompileError δ} (first : Follows action store post step)
    (rest : ∀ value result after, step = .ok result -> post value result after ->
      Follows (next value) after last (later result)) :
    Follows (action >>= next) store last (step.bind later) := by
  cases first with
  | failed ran => exact .failed (run_bind_of_error ran)
  | done ran holds => exact of_run (run_bind_of_ok ran) (rest _ _ _ rfl holds)

lemma bind {later : γ -> Except CompileError δ} (first : Follows action store post step)
    (rest : ∀ value result after, post value result after ->
      Follows (next value) after last (later result)) :
    Follows (action >>= next) store last (step.bind later) :=
  first.bind_ok fun value result after _ => rest value result after

/-- After an action that succeeds, the rest goes the way of the whole step. -/
lemma of_yields {step : Except CompileError δ} {done : α -> Store -> Prop}
    (first : Yields action store done)
    (rest : ∀ value after, done value after -> Follows (next value) after last step) :
    Follows (action >>= next) store last step := by
  rcases first with ⟨value, after, ran, holds⟩
  exact of_run (run_bind_of_ok ran) (rest value after holds)

lemma get_bind {next : Store -> Work β} {step : Except CompileError δ}
    (rest : Follows (next store) store last step) : Follows (get >>= next) store last step :=
  of_run (run_get_bind next store) rest

section
variable (follows : Follows action store post step)
include follows

lemma mono_ok (weaker : ∀ value result after, step = .ok result -> post value result after ->
      other value result after) : Follows action store other step := by
  cases follows with
  | failed ran => exact .failed ran
  | done ran holds => exact .done ran (weaker _ _ _ rfl holds)

lemma mono (weaker : ∀ value result after, post value result after -> other value result after) :
    Follows action store other step :=
  follows.mono_ok fun value result after _ => weaker value result after

/-- The step may go on with a computation that cannot fail. -/
lemma map {other : α -> δ -> Store -> Prop} {change : γ -> δ}
    (holds : ∀ value result after, post value result after -> other value (change result) after) :
    Follows action store other (step.map change) := by
  cases follows with
  | failed ran => exact .failed ran
  | done ran true => exact .done ran (holds _ _ _ true)

end

/-- An action that goes the way of a step that succeeds does so as well. -/
lemma yields (follows : Follows action store post (.ok result)) :
    Yields action store fun value after => post value result after := by
  cases follows with
  | done ran holds => exact ⟨_, _, ran, holds⟩

lemma fail (error : CompileError) (store : Store) (post : α -> γ -> Store -> Prop) :
    Follows (failCompile error) store post (.error error) :=
  .failed rfl

lemma lift (step : Except CompileError α) (store : Store) :
    Follows (liftCompile step) store (fun value result after => value = result ∧ after = store)
      step := by
  cases step with
  | error error => exact .failed rfl
  | ok value => exact .done rfl ⟨rfl, rfl⟩

/-- What a step has computed may be changed before the action goes on with it. -/
lemma lift_map (step : Except CompileError γ) (change : γ -> α) (store : Store) :
    Follows (liftCompile (step.map change)) store
      (fun value result after => value = change result ∧ after = store) step := by
  cases step with
  | error error => exact .failed rfl
  | ok value => exact .done rfl ⟨rfl, rfl⟩

end Follows

namespace Store

/-- The store with a definition put on the stack of a stage. -/
def enter (store : Store) (runner key : Key) : Store :=
  { store with
    runners := store.runners.setIfInBounds runner
      { store.runner runner with stack := key :: store.stackOf runner } }

/-- The store with the innermost definition taken off the stack of a stage. -/
def leave (store : Store) (runner : Key) : Store :=
  { store with
    runners := store.runners.setIfInBounds runner
      { store.runner runner with stack := (store.stackOf runner).drop 1 } }

end Store

lemma run_walk (runner key : Key) (visit : Key -> Work Unit) (store : Store) :
    (walk runner visit key).run store = (((visit key).run (store.enter runner key)).1,
        ((visit key).run (store.enter runner key)).2.leave runner) :=
  rfl

lemma Yields.walk {runner key : Key} {visit : Key -> Work Unit} {store : Store}
    {post : Store -> Prop} (inside : Yields (visit key) (store.enter runner key) fun _ after =>
      post (after.leave runner)) :
    Yields (Workbench.walk runner visit key) store fun _ after => post after := by
  rcases inside with ⟨value, after, ran, holds⟩
  refine ⟨value, after.leave runner, ?_, holds⟩
  rw [run_walk, ran]

lemma Follows.walk {runner key : Key} {visit : Key -> Work Unit} {store : Store}
    {step : Except CompileError γ} {post : γ -> Store -> Prop}
    (inside : Follows (visit key) (store.enter runner key)
      (fun _ result after => post result (after.leave runner)) step) :
    Follows (Workbench.walk runner visit key) store (fun _ result after => post result after)
      step := by
  cases inside with
  | failed ran => exact .failed (by rw [run_walk, ran])
  | done ran holds => exact .done (by rw [run_walk, ran]) holds

end MessageSchema.Workbench
