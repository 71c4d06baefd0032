import Qlever.Library.Interleaving
import Qlever.ThreadSafeQueue

/-! The `RdfParallelParser`: a feeder thread reads batches and pushes one task per batch, the threads of the task queue
parse the batches and push their triples to the triple collector, and `getLineImpl` or `getBatch` pop them. The last of
the tasks is found by comparing two counters. The two operands of this comparison are evaluated from left to right.
-/
namespace Qlever
open Library Option

/-- The steps of a call to `TaskQueue::finish`. -/
inductive TaskQueueFinish
  | testAndSet
  | finishQueue
  | join
  deriving DecidableEq

structure TaskQueue (T : Type) where
  startedFinishing : Bool := false
  finishedFinishing : Bool := false
  queuedTasks : ThreadSafeQueue Empty T

/-- `none` as the next step means that `finish` returns. Joining waits until all other threads are done. -/
def TaskQueue.finish {T : Type} (othersDone : Bool) (q : TaskQueue T) : TaskQueueFinish → Option (Option TaskQueueFinish × TaskQueue T)
  | .testAndSet => some (if q.startedFinishing then none else some .finishQueue,{q with startedFinishing := true})
  | .finishQueue => some (some .join,{q with queuedTasks := q.queuedTasks.finish})
  | .join => if othersDone then some (none,{q with finishedFinishing := true}) else none

namespace RdfParallelParser

/-- The batches of the file, what the reader throws after them, and the parser of a batch that starts at a position. -/
structure Source (E Batch Triple : Type) where
  batches : List Batch
  error : Option E := none
  size : Batch → Nat
  parseAndReturnAllTriples : Nat → Batch → Except E (List Triple)

inductive Task (Batch : Type)
  | parseBatch (parsePosition : Nat) (batch : Batch)
  | finishTripleCollectorIfLastBatch

/-- `feedBatchesToParser`: before a block is read, before the task of a batch is pushed, in the handler of an exception, and in the cleanup. -/
inductive Feeder (E Batch : Type)
  | next (parsePosition : Nat) (batches : List Batch)
  | pushing (parsePosition : Nat) (batch : Batch) (batches : List Batch)
  | failing (parsePosition : Nat) (error : E)
  | throwing (error : E)
  | cleanup
  | finishing (next : TaskQueueFinish)
  | done

/-- A thread of the task queue: before the triples are pushed, before `batchIdx_` is increased, before its old value is compared, and in the
handler of an exception. -/
inductive Thread (E Triple : Type)
  | idle
  | pushing (triples : List Triple)
  | counting
  | comparing (old : Nat)
  | finishingCollector
  | failing (parsePosition : Nat) (error : E)
  | throwing (error : E)
  | finishing (next : TaskQueueFinish)
  | done

inductive Consumer (E : Type)
  | running
  | waiting
  | ended
  | threw (error : E)
  | checkFailed
  deriving DecidableEq

variable {E Batch Triple Worker : Type}

/-- The rest of a call to `TaskQueue::finish`, which is the last thing that the feeder or the task of a thread does. -/
def Feeder.resume : Option TaskQueueFinish → Feeder E Batch
  | some call => .finishing call
  | none => .done

def Thread.resume : Option TaskQueueFinish → Thread E Triple
  | some call => .finishing call
  | none => .idle

def Thread.isDone : Thread E Triple → Bool
  | .done => true
  | _ => false

structure State (E Batch Triple Worker : Type) where
  feeder : Feeder E Batch
  parallelParser : TaskQueue (Task Batch)
  numBatchesTotal : Nat := 0
  batchIdx : Nat := 0
  workers : Worker → Thread E Triple := fun _ => .idle
  errorMessages : List (Nat × E) := []
  tripleCollector : ThreadSafeQueue E (List Triple)
  triples : List Triple := []
  consumer : Consumer E := .running
  received : List Triple := []
  -- What was pushed to the collector, and how often it was finished, as a history.
  pushed : List (List Triple) := []
  numFinishes : Nat := 0

inductive Action (Worker : Type)
  | feeder
  | worker (worker : Worker)
  | getLine
  | getBatch

variable (source : Source E Batch Triple)

def initial (queueSize collectorSize : Nat) : State E Batch Triple Worker where
  feeder := .next 0 source.batches
  parallelParser := {queuedTasks := {maxSize := queueSize}}
  tripleCollector := {maxSize := collectorSize}

variable [Fintype Worker] [DecidableEq Worker]

def feedBatchesToParser (s : State E Batch Triple Worker) : Option (State E Batch Triple Worker) :=
  match s.feeder with
  | .next parsePosition (batch::batches) => some {s with numBatchesTotal := s.numBatchesTotal + 1,feeder := .pushing parsePosition batch batches}
  | .next parsePosition [] => some {s with feeder := match source.error with
    | some error => .failing parsePosition error
    | none => .cleanup}
  | .pushing parsePosition batch batches => do
    let (stillActive,queuedTasks) ← s.parallelParser.queuedTasks.push (.parseBatch parsePosition batch)
    return {s with parallelParser := {s.parallelParser with queuedTasks := queuedTasks},
                   feeder := if stillActive then .next (parsePosition + source.size batch) batches else .cleanup}
  | .failing parsePosition error => some {s with errorMessages := s.errorMessages ++ [(parsePosition,error)],feeder := .throwing error}
  | .throwing error => some {s with tripleCollector := s.tripleCollector.pushException error,feeder := .cleanup}
  | .cleanup => do
    let (_,queuedTasks) ← s.parallelParser.queuedTasks.push .finishTripleCollectorIfLastBatch
    return {s with parallelParser := {s.parallelParser with queuedTasks := queuedTasks},feeder := .finishing .testAndSet}
  | .finishing next => do
    let (next,parallelParser) ← s.parallelParser.finish (decide (∀ worker,(s.workers worker).isDone = true)) next
    return {s with parallelParser := parallelParser,feeder := .resume next}
  | .done => none

omit [Fintype Worker] in
def State.setWorker (s : State E Batch Triple Worker) (worker : Worker) (thread : Thread E Triple) : State E Batch Triple Worker :=
  {s with workers := Function.update s.workers worker thread}

def Task.start : Task Batch → Thread E Triple
  | .parseBatch parsePosition batch => match source.parseAndReturnAllTriples parsePosition batch with
    | .ok triples => .pushing triples
    | .error error => .failing parsePosition error
  | .finishTripleCollectorIfLastBatch => .counting

/-- `function_for_thread` of the task queue. -/
def functionForThread (worker : Worker) (s : State E Batch Triple Worker) : Option (State E Batch Triple Worker) :=
  match s.workers worker with
  | .idle => do
    let (task,queuedTasks) ← s.parallelParser.queuedTasks.pop
    match task with
    | .value task => return {s with parallelParser := {s.parallelParser with queuedTasks := queuedTasks}}.setWorker worker (task.start source)
    | _ => return s.setWorker worker .done
  | .pushing triples => do
    let (active,tripleCollector) ← s.tripleCollector.push triples
    return {s with tripleCollector := tripleCollector,pushed := if active then s.pushed ++ [triples] else s.pushed}.setWorker worker .counting
  | .counting => some ({s with batchIdx := s.batchIdx + 1}.setWorker worker (.comparing s.batchIdx))
  | .comparing old => some (s.setWorker worker (if old = s.numBatchesTotal then .finishingCollector else .idle))
  | .finishingCollector =>
    some ({s with tripleCollector := s.tripleCollector.finish,numFinishes := s.numFinishes + 1}.setWorker worker .idle)
  | .failing parsePosition error => some ({s with errorMessages := s.errorMessages ++ [(parsePosition,error)]}.setWorker worker (.throwing error))
  | .throwing error => some ({s with tripleCollector := s.tripleCollector.pushException error}.setWorker worker (.finishing .testAndSet))
  | .finishing next => do
    let (next,parallelParser) ← s.parallelParser.finish (decide (∀ other,other ≠ worker → (s.workers other).isDone = true)) next
    return {s with parallelParser := parallelParser}.setWorker worker (.resume next)
  | .done => none

section
omit [Fintype Worker] [DecidableEq Worker]

/-- The error of the first batch, as `min_element` finds it. -/
def firstError (errorMessages : List (Nat × E)) : Option E := (errorMessages.argmin Prod.fst).map Prod.snd

/-- The steps of repeated calls to `getLineImpl`, up to the end or an exception. -/
def getLineImpl (s : State E Batch Triple Worker) : Option (State E Batch Triple Worker) :=
  match s.consumer with
  | .running => match s.triples.getLast? with
    | some triple => some {s with triples := s.triples.dropLast,received := s.received ++ [triple]}
    | none => do
      let (task,tripleCollector) ← s.tripleCollector.pop
      match task with
      | .value triples => return {s with tripleCollector := tripleCollector,triples := triples}
      | .nullopt => return {s with consumer := .ended}
      | .exception _ => return {s with consumer := .waiting}
  | .waiting =>
    if s.parallelParser.finishedFinishing then
      some {s with errorMessages := [],consumer := match firstError s.errorMessages with
        | some error => .threw error
        | none => .checkFailed}
    else none
  | _ => none

/-- The same for `getBatch`. -/
def getBatch (s : State E Batch Triple Worker) : Option (State E Batch Triple Worker) :=
  match s.consumer with
  | .running => match s.triples with
    | _::_ => some {s with triples := [],received := s.received ++ s.triples}
    | [] => do
      let (task,tripleCollector) ← s.tripleCollector.pop
      match task with
      | .value triples => return {s with tripleCollector := tripleCollector,triples := triples}
      | .nullopt => return {s with consumer := .ended}
      | .exception error => return {s with consumer := .threw error}
  | _ => none

end

def step (s : State E Batch Triple Worker) : Action Worker → Option (State E Batch Triple Worker)
  | .feeder => feedBatchesToParser source s
  | .worker worker => functionForThread source worker s
  | .getLine => getLineImpl s
  | .getBatch => getBatch s

section Steps
variable {source} {s s' : State E Batch Triple Worker}

def State.setTasks (s : State E Batch Triple Worker) (queue : List (Task Batch)) : State E Batch Triple Worker :=
  {s with parallelParser := {s.parallelParser with queuedTasks := {s.parallelParser.queuedTasks with queue := queue}}}

inductive FeederStep (source : Source E Batch Triple) (s : State E Batch Triple Worker) : State E Batch Triple Worker → Prop
  | register (parsePosition : Nat) (batch : Batch) (batches : List Batch) (feeder : s.feeder = .next parsePosition (batch::batches)) :
    FeederStep source s {s with numBatchesTotal := s.numBatchesTotal + 1,feeder := .pushing parsePosition batch batches}
  | endOfFile (parsePosition : Nat) (feeder : s.feeder = .next parsePosition []) (noError : source.error = none) :
    FeederStep source s {s with feeder := .cleanup}
  | readError (parsePosition : Nat) (error : E) (feeder : s.feeder = .next parsePosition []) (isError : source.error = some error) :
    FeederStep source s {s with feeder := .failing parsePosition error}
  | push (parsePosition : Nat) (batch : Batch) (batches : List Batch) (feeder : s.feeder = .pushing parsePosition batch batches)
    (notFinished : s.parallelParser.queuedTasks.finished = false) :
    FeederStep source s {s.setTasks (s.parallelParser.queuedTasks.queue ++ [.parseBatch parsePosition batch]) with
      feeder := .next (parsePosition + source.size batch) batches}
  | drop (parsePosition : Nat) (batch : Batch) (batches : List Batch) (feeder : s.feeder = .pushing parsePosition batch batches)
    (finished : s.parallelParser.queuedTasks.finished = true) : FeederStep source s {s with feeder := .cleanup}
  | report (parsePosition : Nat) (error : E) (feeder : s.feeder = .failing parsePosition error) :
    FeederStep source s {s with errorMessages := s.errorMessages ++ [(parsePosition,error)],feeder := .throwing error}
  | throw (error : E) (feeder : s.feeder = .throwing error) :
    FeederStep source s {s with tripleCollector := s.tripleCollector.pushException error,feeder := .cleanup}
  | pushLast (feeder : s.feeder = .cleanup) (notFinished : s.parallelParser.queuedTasks.finished = false) :
    FeederStep source s {s.setTasks (s.parallelParser.queuedTasks.queue ++ [.finishTripleCollectorIfLastBatch]) with feeder := .finishing .testAndSet}
  | dropLast (feeder : s.feeder = .cleanup) (finished : s.parallelParser.queuedTasks.finished = true) :
    FeederStep source s {s with feeder := .finishing .testAndSet}
  | finish (call : TaskQueueFinish) (next : Option TaskQueueFinish) (queue : TaskQueue (Task Batch)) (feeder : s.feeder = .finishing call)
    (finishing : s.parallelParser.finish (decide (∀ worker,(s.workers worker).isDone = true)) call = some (next,queue)) :
    FeederStep source s {s with parallelParser := queue,feeder := .resume next}

omit [DecidableEq Worker] in
theorem feedBatchesToParser_cases (taken : feedBatchesToParser source s = some s') : FeederStep source s s' := by
  cases feeder : s.feeder with
  | done => simp [feedBatchesToParser,feeder] at taken
  | next parsePosition batches =>
    cases batches with
    | cons batch batches =>
      simp only [feedBatchesToParser,feeder,Option.some.injEq] at taken
      subst taken
      exact .register parsePosition batch batches feeder
    | nil =>
      simp only [feedBatchesToParser,feeder,Option.some.injEq] at taken
      subst taken
      cases isError : source.error with
      | none => exact .endOfFile parsePosition feeder isError
      | some error => exact .readError parsePosition error feeder isError
  | pushing parsePosition batch batches =>
    simp only [feedBatchesToParser,feeder,bind_eq_bind,bind_eq_some_iff] at taken
    obtain ⟨⟨active,queue⟩,pushing,taken⟩ := taken
    cases taken
    rcases ThreadSafeQueue.push_cases pushing with ⟨rfl,finished,rfl⟩ | ⟨rfl,notFinished,_,rfl⟩
    · exact .drop parsePosition batch batches feeder finished
    · exact .push parsePosition batch batches feeder notFinished
  | failing parsePosition error =>
    simp only [feedBatchesToParser,feeder,Option.some.injEq] at taken
    subst taken
    exact .report parsePosition error feeder
  | throwing error =>
    simp only [feedBatchesToParser,feeder,Option.some.injEq] at taken
    subst taken
    exact .throw error feeder
  | cleanup =>
    simp only [feedBatchesToParser,feeder,bind_eq_bind,bind_eq_some_iff] at taken
    obtain ⟨⟨active,queue⟩,pushing,taken⟩ := taken
    cases taken
    rcases ThreadSafeQueue.push_cases pushing with ⟨rfl,finished,rfl⟩ | ⟨rfl,notFinished,_,rfl⟩
    · exact .dropLast feeder finished
    · exact .pushLast feeder notFinished
  | finishing call =>
    simp only [feedBatchesToParser,feeder,bind_eq_bind,bind_eq_some_iff] at taken
    obtain ⟨⟨next,queue⟩,finishing,taken⟩ := taken
    cases taken
    exact .finish call next queue feeder finishing

inductive ThreadStep (source : Source E Batch Triple) (worker : Worker) (s : State E Batch Triple Worker) : State E Batch Triple Worker → Prop
  | start (task : Task Batch) (queue : List (Task Batch)) (thread : s.workers worker = .idle) (isQueue : s.parallelParser.queuedTasks.queue = task::queue) :
    ThreadStep source worker s ((s.setTasks queue).setWorker worker (task.start source))
  | stop (thread : s.workers worker = .idle) (empty : s.parallelParser.queuedTasks.queue = []) (finished : s.parallelParser.queuedTasks.finished = true) :
    ThreadStep source worker s (s.setWorker worker .done)
  | push (triples : List Triple) (thread : s.workers worker = .pushing triples) (notFinished : s.tripleCollector.finished = false) :
    ThreadStep source worker s ({s with tripleCollector := {s.tripleCollector with queue := s.tripleCollector.queue ++ [triples]},
                                        pushed := s.pushed ++ [triples]}.setWorker worker .counting)
  | drop (triples : List Triple) (thread : s.workers worker = .pushing triples) (finished : s.tripleCollector.finished = true) :
    ThreadStep source worker s (s.setWorker worker .counting)
  | count (thread : s.workers worker = .counting) :
    ThreadStep source worker s ({s with batchIdx := s.batchIdx + 1}.setWorker worker (.comparing s.batchIdx))
  | isLast (thread : s.workers worker = .comparing s.numBatchesTotal) : ThreadStep source worker s (s.setWorker worker .finishingCollector)
  | notLast (old : Nat) (thread : s.workers worker = .comparing old) (different : old ≠ s.numBatchesTotal) :
    ThreadStep source worker s (s.setWorker worker .idle)
  | finishCollector (thread : s.workers worker = .finishingCollector) :
    ThreadStep source worker s ({s with tripleCollector := s.tripleCollector.finish,numFinishes := s.numFinishes + 1}.setWorker worker .idle)
  | report (parsePosition : Nat) (error : E) (thread : s.workers worker = .failing parsePosition error) :
    ThreadStep source worker s ({s with errorMessages := s.errorMessages ++ [(parsePosition,error)]}.setWorker worker (.throwing error))
  | throw (error : E) (thread : s.workers worker = .throwing error) :
    ThreadStep source worker s ({s with tripleCollector := s.tripleCollector.pushException error}.setWorker worker (.finishing .testAndSet))
  | finish (call : TaskQueueFinish) (next : Option TaskQueueFinish) (queue : TaskQueue (Task Batch)) (thread : s.workers worker = .finishing call)
    (finishing : s.parallelParser.finish (decide (∀ other,other ≠ worker → (s.workers other).isDone = true)) call = some (next,queue)) :
    ThreadStep source worker s ({s with parallelParser := queue}.setWorker worker (.resume next))

theorem functionForThread_cases {worker : Worker} (taken : functionForThread source worker s = some s') : ThreadStep source worker s s' := by
  cases thread : s.workers worker with
  | done => simp [functionForThread,thread] at taken
  | idle =>
    simp only [functionForThread,thread,bind_eq_bind,bind_eq_some_iff] at taken
    obtain ⟨⟨task,queue⟩,popping,taken⟩ := taken
    rcases ThreadSafeQueue.pop_cases popping with ⟨exception,_⟩ | ⟨task,rfl,_,isQueue,isRest⟩ | ⟨rfl,_,empty,finished,rfl⟩
    · exact exception.elim
    · cases taken
      have step : ThreadStep source worker s _ := .start task queue.queue thread isQueue
      rwa [State.setTasks,← isRest] at step
    · cases taken
      exact .stop thread empty finished
  | pushing triples =>
    simp only [functionForThread,thread,bind_eq_bind,bind_eq_some_iff] at taken
    obtain ⟨⟨active,collector⟩,pushing,taken⟩ := taken
    cases taken
    rcases ThreadSafeQueue.push_cases pushing with ⟨rfl,finished,rfl⟩ | ⟨rfl,notFinished,_,rfl⟩
    · exact .drop triples thread finished
    · exact .push triples thread notFinished
  | counting =>
    simp only [functionForThread,thread,Option.some.injEq] at taken
    subst taken
    exact .count thread
  | comparing old =>
    simp only [functionForThread,thread,Option.some.injEq] at taken
    subst taken
    by_cases last : old = s.numBatchesTotal
    · rw [if_pos last]
      exact .isLast (last ▸ thread)
    · rw [if_neg last]
      exact .notLast old thread last
  | finishingCollector =>
    simp only [functionForThread,thread,Option.some.injEq] at taken
    subst taken
    exact .finishCollector thread
  | failing parsePosition error =>
    simp only [functionForThread,thread,Option.some.injEq] at taken
    subst taken
    exact .report parsePosition error thread
  | throwing error =>
    simp only [functionForThread,thread,Option.some.injEq] at taken
    subst taken
    exact .throw error thread
  | finishing call =>
    simp only [functionForThread,thread,bind_eq_bind,bind_eq_some_iff] at taken
    obtain ⟨⟨next,queue⟩,finishing,taken⟩ := taken
    cases taken
    exact .finish call next queue thread finishing

inductive ConsumerStep (s : State E Batch Triple Worker) : State E Batch Triple Worker → Prop
  | take (triples taken : List Triple) (running : s.consumer = .running) (some : taken ≠ []) (same : s.triples = triples ++ taken) :
    ConsumerStep s {s with triples := triples,received := s.received ++ taken}
  | pop (triples : List Triple) (queue : List (List Triple)) (running : s.consumer = .running) (empty : s.triples = [])
    (noException : s.tripleCollector.pushedException = none) (isQueue : s.tripleCollector.queue = triples::queue) :
    ConsumerStep s {s with tripleCollector := {s.tripleCollector with queue := queue},triples := triples}
  | stop (running : s.consumer = .running) (empty : s.triples = []) (noException : s.tripleCollector.pushedException = none)
    (noTriples : s.tripleCollector.queue = []) (finished : s.tripleCollector.finished = true) : ConsumerStep s {s with consumer := .ended}
  | wait (running : s.consumer = .running) (exception : s.tripleCollector.pushedException.isSome = true) : ConsumerStep s {s with consumer := .waiting}
  | rethrow (error : E) (running : s.consumer = .running) (exception : s.tripleCollector.pushedException = .some error) :
    ConsumerStep s {s with consumer := .threw error}
  | throw (waiting : s.consumer = .waiting) (finished : s.parallelParser.finishedFinishing = true) :
    ConsumerStep s {s with errorMessages := [],consumer := match firstError s.errorMessages with
      | .some error => .threw error
      | none => .checkFailed}

section
omit [Fintype Worker] [DecidableEq Worker]

theorem getLineImpl_cases (taken : getLineImpl s = some s') : ConsumerStep s s' := by
  unfold getLineImpl at taken
  split at taken
  next running =>
    split at taken
    next triple isLast =>
      cases taken
      obtain ⟨triples,isTriples⟩ := List.getLast?_eq_some_iff.mp isLast
      exact .take s.triples.dropLast [triple] running (by simp) (by rw [isTriples,List.dropLast_concat])
    next isEmpty =>
      simp only [bind_eq_bind,bind_eq_some_iff] at taken
      obtain ⟨⟨task,collector⟩,popping,taken⟩ := taken
      have empty := List.getLast?_eq_none_iff.mp isEmpty
      rcases ThreadSafeQueue.pop_cases popping with ⟨error,rfl,isException,rfl⟩ | ⟨triples,rfl,noException,isQueue,isRest⟩ | ⟨rfl,noException,noTriples,finished,_⟩
      · cases taken
        exact .wait running (by rw [isException]; rfl)
      · cases taken
        have step := ConsumerStep.pop triples collector.queue running empty noException isQueue
        rwa [← isRest] at step
      · cases taken
        exact .stop running empty noException noTriples finished
  next waiting =>
    split at taken
    next finished =>
      cases taken
      exact .throw waiting finished
    next => cases taken
  next => cases taken

theorem getBatch_cases (taken : getBatch s = some s') : ConsumerStep s s' := by
  unfold getBatch at taken
  split at taken
  next running =>
    split at taken
    next isTriples =>
      cases taken
      exact .take [] s.triples running (by simp [isTriples]) rfl
    next empty =>
      simp only [bind_eq_bind,bind_eq_some_iff] at taken
      obtain ⟨⟨task,collector⟩,popping,taken⟩ := taken
      rcases ThreadSafeQueue.pop_cases popping with ⟨error,rfl,isException,rfl⟩ | ⟨triples,rfl,noException,isQueue,isRest⟩ | ⟨rfl,noException,noTriples,finished,_⟩
      · cases taken
        exact .rethrow error running isException
      · cases taken
        have step := ConsumerStep.pop triples collector.queue running empty noException isQueue
        rwa [← isRest] at step
      · cases taken
        exact .stop running empty noException noTriples finished
  next => cases taken

end

theorem step_cases (property : State E Batch Triple Worker → Prop) {action : Action Worker} (taken : step source s action = some s')
    (feeder : ∀ s',FeederStep source s s' → property s') (thread : ∀ worker s',ThreadStep source worker s s' → property s')
    (consumer : ∀ s',ConsumerStep s s' → property s') : property s' := by
  cases action with
  | feeder => exact feeder s' (feedBatchesToParser_cases taken)
  | worker worker => exact thread worker s' (functionForThread_cases taken)
  | getLine => exact consumer s' (getLineImpl_cases taken)
  | getBatch => exact consumer s' (getBatch_cases taken)

end Steps

section TaskQueue
variable {source} {s s' : State E Batch Triple Worker}

def Feeder.at (point : TaskQueueFinish) : Feeder E Batch → Nat
  | .finishing call => if call = point then 1 else 0
  | _ => 0

def Thread.at (point : TaskQueueFinish) : Thread E Triple → Nat
  | .finishing call => if call = point then 1 else 0
  | _ => 0

/-- How many calls of `finish` are at a point. -/
def callsAt (point : TaskQueueFinish) (s : State E Batch Triple Worker) : Nat := s.feeder.at point + ∑ worker,(s.workers worker).at point

theorem callsAt_setWorker (point : TaskQueueFinish) (s : State E Batch Triple Worker) (worker : Worker) (thread : Thread E Triple) :
    callsAt point (s.setWorker worker thread) + (s.workers worker).at point = callsAt point s + thread.at point := by
  have moved := sum_update (Thread.at point) s.workers worker thread
  simp only [callsAt,State.setWorker]
  omega

/-- Only one call of `finish` finishes the queue and joins the threads. -/
structure TaskQueueInvariant (s : State E Batch Triple Worker) : Prop where
  started : callsAt .finishQueue s + s.parallelParser.queuedTasks.finished.toNat = s.parallelParser.startedFinishing.toNat
  joined : callsAt .join s + s.parallelParser.finishedFinishing.toNat = s.parallelParser.queuedTasks.finished.toNat
  feederDone : s.feeder = .done → s.parallelParser.startedFinishing = true
  workerDone : ∀ worker,s.workers worker = .done → s.parallelParser.queuedTasks.finished = true ∧ s.parallelParser.queuedTasks.queue = []

section
omit [DecidableEq Worker]

theorem TaskQueueInvariant.initial (queueSize collectorSize : Nat) :
    TaskQueueInvariant (initial source queueSize collectorSize : State E Batch Triple Worker) where
  started := by simp [callsAt,RdfParallelParser.initial,Feeder.at,Thread.at]
  joined := by simp [callsAt,RdfParallelParser.initial,Feeder.at,Thread.at]
  feederDone := by simp [RdfParallelParser.initial]
  workerDone := by simp [RdfParallelParser.initial]

theorem TaskQueueInvariant.keep (invariant : TaskQueueInvariant s) (calls : ∀ point,point ≠ .testAndSet → callsAt point s' = callsAt point s)
    (started : s'.parallelParser.startedFinishing = s.parallelParser.startedFinishing)
    (finishedFinishing : s'.parallelParser.finishedFinishing = s.parallelParser.finishedFinishing)
    (finished : s'.parallelParser.queuedTasks.finished = s.parallelParser.queuedTasks.finished) (feeder : s'.feeder = .done → s.feeder = .done)
    (workers : ∀ worker,s'.workers worker = .done → s'.parallelParser.queuedTasks.finished = true ∧ s'.parallelParser.queuedTasks.queue = []) :
    TaskQueueInvariant s' where
  started := by
    rw [calls _ (by decide),finished,started]
    exact invariant.started
  joined := by
    rw [calls _ (by decide),finished,finishedFinishing]
    exact invariant.joined
  feederDone isDone := by
    rw [started]
    exact invariant.feederDone (feeder isDone)
  workerDone := workers

end

theorem finish_cases {q q' : TaskQueue (Task Batch)} {othersDone : Bool} {next : TaskQueueFinish} {next' : Option TaskQueueFinish}
    (taken : q.finish othersDone next = some (next',q')) :
    next = .testAndSet ∧ q.startedFinishing = true ∧ next' = none ∧ q' = q ∨
    next = .testAndSet ∧ q.startedFinishing = false ∧ next' = some .finishQueue ∧ q' = {q with startedFinishing := true} ∨
    next = .finishQueue ∧ next' = some .join ∧ q' = {q with queuedTasks := q.queuedTasks.finish} ∨
    next = .join ∧ othersDone = true ∧ next' = none ∧ q' = {q with finishedFinishing := true} := by
  cases next with
  | testAndSet =>
    cases started : q.startedFinishing with
    | true =>
      simp only [TaskQueue.finish,started,if_true,Option.some.injEq,Prod.mk.injEq] at taken
      obtain ⟨rfl,rfl⟩ := taken
      refine Or.inl ⟨rfl,rfl,rfl,?_⟩
      rw [← started]
    | false =>
      simp only [TaskQueue.finish,started,Bool.false_eq_true,if_false,Option.some.injEq,Prod.mk.injEq] at taken
      obtain ⟨rfl,rfl⟩ := taken
      exact Or.inr (Or.inl ⟨rfl,rfl,rfl,rfl⟩)
  | finishQueue =>
    simp only [TaskQueue.finish,Option.some.injEq,Prod.mk.injEq] at taken
    obtain ⟨rfl,rfl⟩ := taken
    exact Or.inr (Or.inr (Or.inl ⟨rfl,rfl,rfl⟩))
  | join =>
    simp only [TaskQueue.finish] at taken
    split at taken
    next isDone =>
      simp only [Option.some.injEq,Prod.mk.injEq] at taken
      obtain ⟨rfl,rfl⟩ := taken
      exact Or.inr (Or.inr (Or.inr ⟨rfl,isDone,rfl,rfl⟩))
    next => cases taken

section
omit [DecidableEq Worker]

theorem TaskQueueInvariant.finish (invariant : TaskQueueInvariant s) {othersDone : Bool} {next : TaskQueueFinish} {next' : Option TaskQueueFinish}
    (taken : s.parallelParser.finish othersDone next = some (next',s'.parallelParser))
    (moved : ∀ point,callsAt point s' + (if next = point then 1 else 0) = callsAt point s + (if next' = some point then 1 else 0))
    (feeder : s'.feeder = .done → s.feeder = .done ∨ next' = none) (workers : ∀ worker,s'.workers worker = .done → s.workers worker = .done) :
    TaskQueueInvariant s' := by
  have started := invariant.started
  have joined := invariant.joined
  have atQueue := moved .finishQueue
  have atJoin := moved .join
  have bounded := Bool.toNat_le s.parallelParser.startedFinishing
  rcases finish_cases taken with ⟨rfl,isStarted,rfl,same⟩ | ⟨rfl,notStarted,rfl,same⟩ | ⟨rfl,rfl,same⟩ | ⟨rfl,_,rfl,same⟩
  · refine ⟨?_,?_,?_,?_⟩
    · rw [same]
      simp only [reduceCtorEq,if_false] at atQueue
      omega
    · rw [same]
      simp only [reduceCtorEq,if_false] at atJoin
      omega
    · rw [same]
      exact fun _ => isStarted
    · rw [same]
      exact fun worker isDone => invariant.workerDone worker (workers worker isDone)
  · have notFinished : s.parallelParser.queuedTasks.finished.toNat = 0 := by
      rw [notStarted,Bool.toNat_false] at started
      omega
    refine ⟨?_,?_,?_,?_⟩
    · rw [same]
      simp only [notStarted,Bool.toNat_false,Bool.toNat_true,reduceCtorEq,if_false,if_true,notFinished] at started atQueue ⊢
      omega
    · rw [same]
      simp only [reduceCtorEq,Option.some.injEq,if_false] at atJoin
      change _ + s.parallelParser.finishedFinishing.toNat = s.parallelParser.queuedTasks.finished.toNat
      omega
    · rw [same]
      exact fun _ => rfl
    · rw [same]
      exact fun worker isDone => invariant.workerDone worker (workers worker isDone)
  · simp only [reduceCtorEq,Option.some.injEq,if_true,if_false] at atQueue atJoin
    have notFinished : s.parallelParser.queuedTasks.finished.toNat = 0 := by omega
    refine ⟨?_,?_,?_,?_⟩
    · rw [same]
      simp only [ThreadSafeQueue.finish,Bool.toNat_true]
      omega
    · rw [same]
      simp only [ThreadSafeQueue.finish,Bool.toNat_true]
      omega
    · rw [same]
      intro isDone
      exact invariant.feederDone ((feeder isDone).resolve_right (by simp))
    · rw [same]
      exact fun worker isDone => ⟨rfl,(invariant.workerDone worker (workers worker isDone)).2⟩
  · simp only [reduceCtorEq,if_true,if_false] at atQueue atJoin
    have bounded' := Bool.toNat_le s.parallelParser.queuedTasks.finished
    refine ⟨?_,?_,?_,?_⟩
    · rw [same]
      change _ + s.parallelParser.queuedTasks.finished.toNat = s.parallelParser.startedFinishing.toNat
      omega
    · rw [same]
      change _ + 1 = s.parallelParser.queuedTasks.finished.toNat
      omega
    · rw [same]
      intro _
      change s.parallelParser.startedFinishing = true
      rw [← Bool.toNat_eq_one]
      omega
    · rw [same]
      exact fun worker isDone => invariant.workerDone worker (workers worker isDone)

theorem TaskQueueInvariant.moveFeeder (invariant : TaskQueueInvariant s) (workers : s'.workers = s.workers)
    (started : s'.parallelParser.startedFinishing = s.parallelParser.startedFinishing)
    (finishedFinishing : s'.parallelParser.finishedFinishing = s.parallelParser.finishedFinishing)
    (finished : s'.parallelParser.queuedTasks.finished = s.parallelParser.queuedTasks.finished)
    (tasks : s.parallelParser.queuedTasks.finished = true → s'.parallelParser.queuedTasks.queue = s.parallelParser.queuedTasks.queue)
    (notDone : s'.feeder ≠ .done) (calls : ∀ point,point ≠ .testAndSet → s'.feeder.at point = s.feeder.at point) : TaskQueueInvariant s' := by
  refine invariant.keep (fun point different => ?_) started finishedFinishing finished (fun isDone => absurd isDone notDone) (fun worker isDone => ?_)
  · simp only [callsAt,calls point different,workers]
  · rw [workers] at isDone
    obtain ⟨isFinished,empty⟩ := invariant.workerDone worker isDone
    exact ⟨finished.trans isFinished,(tasks isFinished).trans empty⟩

theorem FeederStep.taskQueue (invariant : TaskQueueInvariant s) (step : FeederStep source s s') : TaskQueueInvariant s' := by
  cases step with
  | register parsePosition batch batches feeder =>
    exact invariant.moveFeeder rfl rfl rfl rfl (fun _ => rfl) (by simp) (by simp [feeder,Feeder.at])
  | endOfFile parsePosition feeder noError | readError parsePosition error feeder isError | drop parsePosition batch batches feeder finished
  | report parsePosition error feeder | throw error feeder => exact invariant.moveFeeder rfl rfl rfl rfl (fun _ => rfl) (by simp) (by simp [feeder,Feeder.at])
  | push parsePosition batch batches feeder notFinished =>
    refine invariant.moveFeeder rfl rfl rfl rfl (fun finished => ?_) (by simp) (by simp [feeder,Feeder.at])
    rw [notFinished] at finished
    cases finished
  | pushLast feeder notFinished =>
    refine invariant.moveFeeder rfl rfl rfl rfl (fun finished => ?_) (by simp) (fun point different => by simp [feeder,Feeder.at,different.symm])
    rw [notFinished] at finished
    cases finished
  | dropLast feeder finished =>
    exact invariant.moveFeeder rfl rfl rfl rfl (fun _ => rfl) (by simp) (fun point different => by simp [feeder,Feeder.at,different.symm])
  | finish call next queue feeder finishing =>
    refine invariant.finish finishing (fun point => ?_) (fun isDone => ?_) (fun _ isDone => isDone)
    · cases next <;> simp [callsAt,feeder,Feeder.resume,Feeder.at] <;> omega
    · cases next with
      | none => exact Or.inr rfl
      | some next => cases isDone

end

variable {worker : Worker}

omit [Fintype Worker] in
theorem setWorker_cases {other : Worker} {thread state : Thread E Triple} (same : (s.setWorker worker thread).workers other = state) :
    other = worker ∧ thread = state ∨ s.workers other = state := by
  by_cases own : other = worker
  · subst own
    exact Or.inl ⟨rfl,by simpa [State.setWorker] using same⟩
  · exact Or.inr (by simpa [State.setWorker,Function.update_of_ne own] using same)

theorem TaskQueueInvariant.moveThread (invariant : TaskQueueInvariant s) {thread : Thread E Triple} (feeder : s'.feeder = s.feeder)
    (queue : s'.parallelParser = s.parallelParser) (workers : s'.workers = s.workers) (notDone : thread ≠ .done)
    (calls : ∀ point,point ≠ .testAndSet → thread.at point = (s.workers worker).at point) : TaskQueueInvariant (s'.setWorker worker thread) := by
  refine invariant.keep (fun point different => ?_) (congrArg _ queue) (congrArg _ queue) (congrArg (·.queuedTasks.finished) queue)
    (fun isDone => feeder.symm.trans isDone) (fun other isDone => ?_)
  · have counted := callsAt_setWorker point s' worker thread
    rw [calls point different,workers] at counted
    have same : callsAt point s' = callsAt point s := by simp only [callsAt,feeder,workers]
    omega
  · change s'.parallelParser.queuedTasks.finished = true ∧ s'.parallelParser.queuedTasks.queue = []
    rw [queue]
    rcases setWorker_cases isDone with ⟨_,own⟩ | isDone
    · exact absurd own notDone
    · exact invariant.workerDone other (workers ▸ isDone)

theorem Task.start_cases (source : Source E Batch Triple) (task : Task Batch) : task.start source = (.counting : Thread E Triple) ∨
    (∃ triples,task.start source = .pushing triples) ∨ ∃ parsePosition error,task.start source = .failing parsePosition error := by
  cases task with
  | finishTripleCollectorIfLastBatch => exact .inl rfl
  | parseBatch parsePosition batch =>
    simp only [Task.start]
    cases source.parseAndReturnAllTriples parsePosition batch <;> simp

theorem Task.start_at (task : Task Batch) (point : TaskQueueFinish) : (task.start source : Thread E Triple).at point = 0 := by
  rcases task.start_cases source with started | ⟨_,started⟩ | ⟨_,_,started⟩ <;> rw [started] <;> rfl

theorem Task.start_ne_done (task : Task Batch) : (task.start source : Thread E Triple) ≠ .done := by
  rcases task.start_cases source with started | ⟨_,started⟩ | ⟨_,_,started⟩ <;> simp [started]

theorem ThreadStep.taskQueue (invariant : TaskQueueInvariant s) (step : ThreadStep source worker s s') : TaskQueueInvariant s' := by
  cases step with
  | start task queue thread isQueue =>
    refine invariant.keep (fun point _ => ?_) rfl rfl rfl (fun isDone => isDone) (fun other isDone => ?_)
    · have counted := callsAt_setWorker point (s.setTasks queue) worker (task.start source)
      change _ + (s.workers worker).at point = callsAt point s + _ at counted
      rw [thread,Task.start_at] at counted
      exact counted
    · rcases setWorker_cases isDone with ⟨_,own⟩ | isDone
      · exact absurd own (Task.start_ne_done task)
      · have empty := (invariant.workerDone other isDone).2
        rw [isQueue] at empty
        cases empty
  | stop thread empty finished =>
    refine invariant.keep (fun point _ => ?_) rfl rfl rfl (fun isDone => isDone) (fun _ _ => ⟨finished,empty⟩)
    have counted := callsAt_setWorker point s worker .done
    rw [thread] at counted
    exact counted
  | push triples thread notFinished | drop triples thread finished | count thread | isLast thread | notLast old thread different
  | finishCollector thread | report parsePosition error thread => exact invariant.moveThread rfl rfl rfl (by simp) (by simp [thread,Thread.at])
  | throw error thread => exact invariant.moveThread rfl rfl rfl (by simp) (fun point different => by simp [thread,Thread.at,different.symm])
  | finish call next queue thread finishing =>
    refine invariant.finish finishing (fun point => ?_) (fun isDone => Or.inl isDone) (fun other isDone => ?_)
    · have counted := callsAt_setWorker point {s with parallelParser := queue} worker (.resume next)
      change _ + (s.workers worker).at point = callsAt point s + _ at counted
      rw [thread] at counted
      cases next <;> simpa [Thread.at,Thread.resume] using counted
    · rcases setWorker_cases isDone with ⟨_,own⟩ | isDone
      · cases next <;> cases own
      · exact isDone

omit [DecidableEq Worker] in
theorem ConsumerStep.taskQueue (invariant : TaskQueueInvariant s) (step : ConsumerStep s s') : TaskQueueInvariant s' := by
  cases step <;> exact ⟨invariant.started,invariant.joined,invariant.feederDone,invariant.workerDone⟩

end TaskQueue
end RdfParallelParser
end Qlever
