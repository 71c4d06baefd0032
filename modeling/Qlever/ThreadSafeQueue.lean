import Mathlib

/-! The queue of `ThreadSafeQueue.h`. Each function is one section under the mutex; `none` means that the caller
waits, as the condition variables are notified whenever this may change.
-/
namespace Qlever
variable {E T : Type}

structure ThreadSafeQueue (E T : Type) where
  pushedException : Option E := none
  queue : List T := []
  finished : Bool := false
  maxSize : Nat

/-- What `pop` yields. -/
inductive Popped (E T : Type)
  | value (value : T)
  | nullopt
  | exception (exception : E)
  deriving DecidableEq

namespace ThreadSafeQueue

def push (value : T) (q : ThreadSafeQueue E T) : Option (Bool × ThreadSafeQueue E T) :=
  if q.queue.length < q.maxSize ∨ q.finished then
    if q.finished then some (false,q) else some (true,{q with queue := q.queue ++ [value]})
  else none

def pushException (exception : E) (q : ThreadSafeQueue E T) : ThreadSafeQueue E T :=
  if q.pushedException.isSome then q else {q with pushedException := some exception,finished := true}

def finish (q : ThreadSafeQueue E T) : ThreadSafeQueue E T := {q with finished := true}

def pop (q : ThreadSafeQueue E T) : Option (Popped E T × ThreadSafeQueue E T) :=
  match q.pushedException with
  | some exception => some (.exception exception,q)
  | none =>
    match q.queue with
    | value::queue => some (.value value,{q with queue := queue})
    | [] => if q.finished then some (.nullopt,q) else none

variable {q : ThreadSafeQueue E T}

theorem push_cases {q' : ThreadSafeQueue E T} {value : T} {active : Bool} (run : q.push value = some (active,q')) :
    active = false ∧ q.finished = true ∧ q' = q ∨
      active = true ∧ q.finished = false ∧ q.queue.length < q.maxSize ∧ q' = {q with queue := q.queue ++ [value]} := by
  unfold push at run
  split at run
  next hasSpace =>
    split at run
    next isFinished =>
      cases run
      exact Or.inl ⟨rfl,isFinished,rfl⟩
    next notFinished =>
      cases run
      exact Or.inr ⟨rfl,by simpa using notFinished,hasSpace.resolve_right notFinished,rfl⟩
  next => cases run

theorem pop_cases {q' : ThreadSafeQueue E T} {popped : Popped E T} (run : q.pop = some (popped,q')) :
    (∃ exception,popped = .exception exception ∧ q.pushedException = some exception ∧ q' = q) ∨
    (∃ value,popped = .value value ∧ q.pushedException = none ∧ q.queue = value::q'.queue ∧ q' = {q with queue := q'.queue}) ∨
    popped = .nullopt ∧ q.pushedException = none ∧ q.queue = [] ∧ q.finished = true ∧ q' = q := by
  unfold pop at run
  split at run
  next exception isException =>
    cases run
    exact Or.inl ⟨exception,rfl,isException,rfl⟩
  next noException =>
    split at run
    next value queue isQueue =>
      cases run
      exact Or.inr (Or.inl ⟨value,rfl,noException,isQueue,rfl⟩)
    next empty =>
      split at run
      next isFinished =>
        cases run
        exact Or.inr (Or.inr ⟨rfl,noException,empty,isFinished,rfl⟩)
      next => cases run

theorem push_eq_none {value : T} (waits : q.push value = none) : q.finished = false ∧ q.maxSize ≤ q.queue.length := by
  unfold push at waits
  split at waits
  next => split at waits <;> cases waits
  next noSpace =>
    obtain ⟨full,notFinished⟩ := not_or.mp noSpace
    exact ⟨by simpa using notFinished,Nat.le_of_not_lt full⟩

theorem pop_eq_none (waits : q.pop = none) : q.pushedException = none ∧ q.queue = [] ∧ q.finished = false := by
  unfold pop at waits
  split at waits
  next => cases waits
  next noException =>
    split at waits
    next => cases waits
    next empty =>
      split at waits
      next => cases waits
      next notFinished => exact ⟨noException,empty,by simpa using notFinished⟩

end ThreadSafeQueue
end Qlever
