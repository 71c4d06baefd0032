import Qlever.Library.Interleaving
import Qlever.ThreadSafeQueue

/-! The `OrderedThreadSafeQueue` and the threads of `queueManager`. The outer mutex is held while a value is
pushed to the inner queue, and `finish` and `pushException` change the two queues in two sections.
-/
namespace Qlever
open Library

namespace OrderedThreadSafeQueue
variable {E T Thread : Type}

/-- What the producer of one thread yields: the indices of its values, and possibly the exception that it throws instead of the next one. -/
structure Producer (E : Type) where
  indices : List Nat
  throws : Option (Nat × E)

def Producer.yielded (producer : Producer E) : List Nat :=
  match producer.throws with
  | some (count,_) => producer.indices.take count
  | none => producer.indices

/-- Where a thread is in the task of `makeQueueTask`. The indices are those that the producer has not yet yielded. -/
inductive Task
  | calling (indices : List Nat)
  | waiting (index : Nat) (indices : List Nat)
  | pushing (index : Nat) (indices : List Nat)
  | unlocking (active : Bool) (indices : List Nat)
  | throwing
  | throwingOuter
  | decrementing
  | checking
  | finishing
  | finishingOuter
  | done

inductive Outcome (E : Type)
  | nullopt
  | exception (exception : E)
  | stopped
  deriving DecidableEq

/-- The consumer of the generator, which cleans up by a call to `finish`. -/
inductive Consumer (E : Type)
  | running
  | finishing (outcome : Outcome E)
  | finishingOuter (outcome : Outcome E)
  | done (outcome : Outcome E)

structure State (E T Thread : Type) where
  queue : ThreadSafeQueue E T
  nextIndex : Nat := 0
  finished : Bool := false
  lock : Option Thread := none
  numUnfinishedThreads : Nat
  tasks : Thread → Task
  consumer : Consumer E := .running
  received : List T := []

inductive Action (Thread : Type)
  | thread (thread : Thread)
  | consumer
  | stop

section Step
variable (producers : Thread → Producer E) (value : Nat → T)

def initial [Fintype Thread] (queueSize : Nat) : State E T Thread where
  queue := {maxSize := queueSize}
  numUnfinishedThreads := Fintype.card Thread
  tasks thread := .calling (producers thread).yielded

variable [DecidableEq Thread]

def State.setTask (s : State E T Thread) (thread : Thread) (task : Task) : State E T Thread :=
  {s with tasks := Function.update s.tasks thread task}

def stepThread (thread : Thread) (s : State E T Thread) : Option (State E T Thread) :=
  match s.tasks thread with
  | .calling (index::indices) => some (s.setTask thread (.waiting index indices))
  | .calling [] => some (s.setTask thread (if (producers thread).throws.isSome then .throwing else .decrementing))
  | .waiting index indices =>
    if s.lock = none ∧ (index = s.nextIndex ∨ s.finished = true) then
      if s.finished then some (s.setTask thread .decrementing)
      else some ({s with nextIndex := s.nextIndex + 1,lock := some thread}.setTask thread (.pushing index indices))
    else none
  | .pushing index indices => do
    let (active,queue) ← s.queue.push (value index)
    return {s with queue := queue}.setTask thread (.unlocking active indices)
  | .unlocking active indices => some ({s with lock := none}.setTask thread (if active then .calling indices else .decrementing))
  | .throwing =>
    match (producers thread).throws with
    | some (_,exception) => some ({s with queue := s.queue.pushException exception}.setTask thread .throwingOuter)
    | none => none
  | .throwingOuter => if s.lock = none then some ({s with finished := true}.setTask thread .decrementing) else none
  | .decrementing => some ({s with numUnfinishedThreads := s.numUnfinishedThreads - 1}.setTask thread .checking)
  | .checking => some (s.setTask thread (if s.numUnfinishedThreads = 0 then .finishing else .done))
  | .finishing => some ({s with queue := s.queue.finish}.setTask thread .finishingOuter)
  | .finishingOuter => if s.lock = none then some ({s with finished := true}.setTask thread .done) else none
  | .done => none

omit [DecidableEq Thread] in
def stepConsumer (s : State E T Thread) : Option (State E T Thread) :=
  match s.consumer with
  | .running => do
    let (popped,queue) ← s.queue.pop
    match popped with
    | .value value => return {s with queue := queue,received := s.received ++ [value]}
    | .nullopt => return {s with consumer := .finishing .nullopt}
    | .exception exception => return {s with consumer := .finishing (.exception exception)}
  | .finishing outcome => some {s with queue := s.queue.finish,consumer := .finishingOuter outcome}
  | .finishingOuter outcome => if s.lock = none then some {s with finished := true,consumer := .done outcome} else none
  | .done _ => none

def step (s : State E T Thread) : Action Thread → Option (State E T Thread)
  | .thread thread => stepThread producers value thread s
  | .consumer => stepConsumer s
  | .stop => match s.consumer with
    | .running => some {s with consumer := .finishing .stopped}
    | _ => none

end Step

section Moves
variable {producers : Thread → Producer E} {value : Nat → T} [DecidableEq Thread] {s s' : State E T Thread} {thread : Thread}

inductive Moves (producers : Thread → Producer E) (value : Nat → T) (s : State E T Thread) (thread : Thread) : State E T Thread → Prop
  | call (index : Nat) (indices : List Nat) (task : s.tasks thread = .calling (index::indices)) :
    Moves producers value s thread (s.setTask thread (.waiting index indices))
  | throw (task : s.tasks thread = .calling []) (throws : (producers thread).throws.isSome = true) :
    Moves producers value s thread (s.setTask thread .throwing)
  | noMore (task : s.tasks thread = .calling []) (returns : (producers thread).throws = none) :
    Moves producers value s thread (s.setTask thread .decrementing)
  | inactive (index : Nat) (indices : List Nat) (task : s.tasks thread = .waiting index indices) (free : s.lock = none) (finished : s.finished = true) :
    Moves producers value s thread (s.setTask thread .decrementing)
  | acquire (indices : List Nat) (task : s.tasks thread = .waiting s.nextIndex indices) (free : s.lock = none) (active : s.finished = false) :
    Moves producers value s thread ({s with nextIndex := s.nextIndex + 1,lock := some thread}.setTask thread (.pushing s.nextIndex indices))
  | push (index : Nat) (indices : List Nat) (task : s.tasks thread = .pushing index indices) (active : s.queue.finished = false)
    (space : s.queue.queue.length < s.queue.maxSize) :
    Moves producers value s thread
      ({s with queue := {s.queue with queue := s.queue.queue ++ [value index]}}.setTask thread (.unlocking true indices))
  | pushFails (index : Nat) (indices : List Nat) (task : s.tasks thread = .pushing index indices) (finished : s.queue.finished = true) :
    Moves producers value s thread (s.setTask thread (.unlocking false indices))
  | unlock (indices : List Nat) (task : s.tasks thread = .unlocking true indices) :
    Moves producers value s thread ({s with lock := none}.setTask thread (.calling indices))
  | leave (indices : List Nat) (task : s.tasks thread = .unlocking false indices) :
    Moves producers value s thread ({s with lock := none}.setTask thread .decrementing)
  | pushException (count : Nat) (exception : E) (task : s.tasks thread = .throwing) (throws : (producers thread).throws = some (count,exception)) :
    Moves producers value s thread ({s with queue := s.queue.pushException exception}.setTask thread .throwingOuter)
  | exceptionOuter (task : s.tasks thread = .throwingOuter) (free : s.lock = none) :
    Moves producers value s thread ({s with finished := true}.setTask thread .decrementing)
  | decrement (task : s.tasks thread = .decrementing) :
    Moves producers value s thread ({s with numUnfinishedThreads := s.numUnfinishedThreads - 1}.setTask thread .checking)
  | last (task : s.tasks thread = .checking) (isLast : s.numUnfinishedThreads = 0) : Moves producers value s thread (s.setTask thread .finishing)
  | notLast (task : s.tasks thread = .checking) (notLast : s.numUnfinishedThreads ≠ 0) : Moves producers value s thread (s.setTask thread .done)
  | finish (task : s.tasks thread = .finishing) :
    Moves producers value s thread ({s with queue := s.queue.finish}.setTask thread .finishingOuter)
  | finishOuter (task : s.tasks thread = .finishingOuter) (free : s.lock = none) :
    Moves producers value s thread ({s with finished := true}.setTask thread .done)

theorem stepThread_moves (taken : stepThread producers value thread s = some s') : Moves producers value s thread s' := by
  unfold stepThread at taken
  split at taken
  next index indices task =>
    cases taken
    exact .call index indices task
  next task =>
    cases throws : (producers thread).throws with
    | none =>
      rw [throws] at taken
      cases taken
      exact .noMore task throws
    | some exception =>
      rw [throws] at taken
      cases taken
      exact .throw task (by rw [throws]; rfl)
  next index indices task =>
    split at taken
    next guard =>
      split at taken
      next finished =>
        cases taken
        exact .inactive index indices task guard.1 finished
      next active =>
        cases taken
        obtain rfl := guard.2.resolve_right active
        exact .acquire indices task guard.1 (by simpa using active)
    next => cases taken
  next index indices task =>
    simp only [Option.bind_eq_bind,Option.bind_eq_some_iff] at taken
    obtain ⟨⟨active,queue⟩,pushing,taken⟩ := taken
    cases taken
    rcases ThreadSafeQueue.push_cases pushing with ⟨rfl,finished,rfl⟩ | ⟨rfl,active,space,rfl⟩
    · exact .pushFails index indices task finished
    · exact .push index indices task active space
  next active indices task =>
    cases taken
    cases active with
    | true => exact .unlock indices task
    | false => exact .leave indices task
  next task =>
    split at taken
    next count exception throws =>
      cases taken
      exact .pushException count exception task throws
    next => cases taken
  next task =>
    split at taken
    next free =>
      cases taken
      exact .exceptionOuter task free
    next => cases taken
  next task =>
    cases taken
    exact .decrement task
  next task =>
    cases taken
    by_cases isLast : s.numUnfinishedThreads = 0
    · rw [if_pos isLast]
      exact .last task isLast
    · rw [if_neg isLast]
      exact .notLast task isLast
  next task =>
    cases taken
    exact .finish task
  next task =>
    split at taken
    next free =>
      cases taken
      exact .finishOuter task free
    next => cases taken
  next => cases taken

inductive ConsumerMoves (s : State E T Thread) : State E T Thread → Prop
  | receive (value : T) (queue : List T) (running : s.consumer = .running) (noException : s.queue.pushedException = none)
    (isQueue : s.queue.queue = value::queue) :
    ConsumerMoves s {s with queue := {s.queue with queue := queue},received := s.received ++ [value]}
  | nullopt (running : s.consumer = .running) (noException : s.queue.pushedException = none) (empty : s.queue.queue = [])
    (finished : s.queue.finished = true) : ConsumerMoves s {s with consumer := .finishing .nullopt}
  | exception (exception : E) (running : s.consumer = .running) (isException : s.queue.pushedException = some exception) :
    ConsumerMoves s {s with consumer := .finishing (.exception exception)}
  | finish (outcome : Outcome E) (finishing : s.consumer = .finishing outcome) :
    ConsumerMoves s {s with queue := s.queue.finish,consumer := .finishingOuter outcome}
  | finishOuter (outcome : Outcome E) (finishing : s.consumer = .finishingOuter outcome) (free : s.lock = none) :
    ConsumerMoves s {s with finished := true,consumer := .done outcome}
  | stop (running : s.consumer = .running) : ConsumerMoves s {s with consumer := .finishing .stopped}

omit [DecidableEq Thread] in
theorem stepConsumer_moves (taken : stepConsumer s = some s') : ConsumerMoves s s' := by
  unfold stepConsumer at taken
  split at taken
  next running =>
    simp only [Option.bind_eq_bind,Option.bind_eq_some_iff] at taken
    obtain ⟨⟨popped,queue⟩,popping,taken⟩ := taken
    rcases ThreadSafeQueue.pop_cases popping with ⟨exception,rfl,isException,_⟩ | ⟨value,rfl,noException,isQueue,isRest⟩ | ⟨rfl,noException,empty,finished,_⟩
    · cases taken
      exact .exception exception running isException
    · cases taken
      rw [isRest]
      exact .receive value queue.queue running noException isQueue
    · cases taken
      exact .nullopt running noException empty finished
  next outcome finishing =>
    cases taken
    exact .finish outcome finishing
  next outcome finishing =>
    split at taken
    next free =>
      cases taken
      exact .finishOuter outcome finishing free
    next => cases taken
  next => cases taken

theorem step_moves {action : Action Thread} (taken : step producers value s action = some s') :
    (∃ thread,Moves producers value s thread s') ∨ ConsumerMoves s s' := by
  cases action with
  | thread thread => exact Or.inl ⟨thread,stepThread_moves taken⟩
  | consumer => exact Or.inr (stepConsumer_moves taken)
  | stop =>
    simp only [step] at taken
    split at taken
    next running =>
      cases taken
      exact Or.inr (.stop running)
    next => cases taken

end Moves
end OrderedThreadSafeQueue
end Qlever
