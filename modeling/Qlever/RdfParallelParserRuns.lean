import Qlever.RdfParallelParser

/-! What the consumer of the `RdfParallelParser` gets, for every order of the steps of the feeder, of the threads and of the
consumer.
-/
namespace Qlever
open Library
open Multiset (coe_add mem_coe coe_nil)

namespace RdfParallelParser
variable {E Batch Triple Worker : Type} (source : Source E Batch Triple)

section Results

def Source.results (source : Source E Batch Triple) : Nat → List Batch → List (Except E (List Triple))
  | _,[] => []
  | parsePosition,batch::batches =>
    source.parseAndReturnAllTriples parsePosition batch::source.results (parsePosition + source.size batch) batches

def Source.Succeeds (parsed : List (List Triple)) : Prop := source.error = none ∧ source.results 0 source.batches = parsed.map .ok

def Source.Fails : Prop := source.error.isSome = true ∨ ∃ error,.error error ∈ source.results 0 source.batches

theorem Source.Succeeds.not_fails {source : Source E Batch Triple} {parsed : List (List Triple)} (succeeds : source.Succeeds parsed) : ¬ source.Fails := by
  intro fails
  rcases fails with reader | ⟨error,member⟩
  · rw [succeeds.1] at reader
    cases reader
  · rw [succeeds.2] at member
    simp at member

def Feeder.results : Feeder E Batch → List (Except E (List Triple))
  | .next parsePosition batches => source.results parsePosition batches
  | .pushing parsePosition batch batches => source.results parsePosition (batch::batches)
  | _ => []

def Task.results : Task Batch → List (Except E (List Triple))
  | .parseBatch parsePosition batch => [source.parseAndReturnAllTriples parsePosition batch]
  | .finishTripleCollectorIfLastBatch => []

def Thread.results : Thread E Triple → Multiset (Except E (List Triple))
  | .pushing triples => {.ok triples}
  | .failing _ error => {.error error}
  | .throwing error => {.error error}
  | _ => 0

/-- How often `finishTripleCollectorIfLastBatch` is still to be called, a call that an exception prevents included. -/
def Feeder.calls : Feeder E Batch → Nat
  | .pushing _ _ _ => 2
  | .next _ _ | .failing _ _ | .throwing _ | .cleanup => 1
  | .finishing _ | .done => 0

def Thread.calls : Thread E Triple → Nat
  | .pushing _ | .counting | .failing _ _ | .throwing _ => 1
  | _ => 0

def Thread.closing (numBatchesTotal : Nat) : Thread E Triple → Nat
  | .comparing old => if old = numBatchesTotal then 1 else 0
  | .finishingCollector => 1
  | _ => 0

theorem Task.start_results (task : Task Batch) : (task.start source : Thread E Triple).results = (task.results source : Multiset (Except E (List Triple))) := by
  cases task with
  | finishTripleCollectorIfLastBatch => rfl
  | parseBatch parsePosition batch =>
    simp only [Task.start,Task.results]
    cases source.parseAndReturnAllTriples parsePosition batch <;> rfl

theorem Task.start_calls (task : Task Batch) : (task.start source : Thread E Triple).calls = 1 := by
  rcases task.start_cases source with started | ⟨_,started⟩ | ⟨_,_,started⟩ <;> rw [started] <;> rfl

theorem Task.start_closing (task : Task Batch) (numBatchesTotal : Nat) : (task.start source : Thread E Triple).closing numBatchesTotal = 0 := by
  rcases task.start_cases source with started | ⟨_,started⟩ | ⟨_,_,started⟩ <;> rw [started] <;> rfl

variable [Fintype Worker]

def pendingResults (s : State E Batch Triple Worker) : Multiset (Except E (List Triple)) :=
  s.feeder.results source + (s.parallelParser.queuedTasks.queue.flatMap (Task.results source) : Multiset (Except E (List Triple))) +
    ∑ worker,(s.workers worker).results

def pendingCalls (s : State E Batch Triple Worker) : Nat :=
  s.feeder.calls + s.parallelParser.queuedTasks.queue.length + ∑ worker,(s.workers worker).calls

def closing (s : State E Batch Triple Worker) : Nat := ∑ worker,(s.workers worker).closing s.numBatchesTotal

variable [DecidableEq Worker]

section
variable (s : State E Batch Triple Worker) (worker : Worker) (thread : Thread E Triple)

theorem pendingResults_setWorker :
    pendingResults source (s.setWorker worker thread) + (s.workers worker).results = pendingResults source s + thread.results := by
  have moved := sum_update Thread.results s.workers worker thread
  simp only [pendingResults,State.setWorker,add_assoc,moved]

theorem pendingCalls_setWorker :
    pendingCalls (s.setWorker worker thread) + (s.workers worker).calls = pendingCalls s + thread.calls := by
  have moved := sum_update Thread.calls s.workers worker thread
  simp only [pendingCalls,State.setWorker,add_assoc,moved]

theorem closing_setWorker :
    closing (s.setWorker worker thread) + (s.workers worker).closing s.numBatchesTotal = closing s + thread.closing s.numBatchesTotal :=
  sum_update (Thread.closing s.numBatchesTotal) s.workers worker thread

end

end Results

section Invariant
variable [Fintype Worker]

/-- The last call of `finishTripleCollectorIfLastBatch` is the one that finishes the collector. -/
structure Counting (s : State E Batch Triple Worker) : Prop where
  counter : s.batchIdx + pendingCalls s = s.numBatchesTotal + 1
  closing : s.numFinishes + closing s = if pendingCalls s = 0 then 1 else 0
  olds : ∀ worker old,s.workers worker = .comparing old → old < s.batchIdx
  finished : s.tripleCollector.finished.toNat = s.numFinishes

/-- Every result is pending or pushed, and every triple that was pushed is where the consumer gets it. -/
structure Contents (s : State E Batch Triple Worker) : Prop where
  results : ((s.pushed.map Except.ok : List (Except E (List Triple))) : Multiset (Except E (List Triple))) + pendingResults source s = source.results 0 source.batches
  triples : (s.received : Multiset Triple) + s.triples + s.tripleCollector.queue.flatten = s.pushed.flatten

def Feeder.Reads (error : Option E) : Feeder E Batch → Prop
  | .next _ _ | .pushing _ _ _ => True
  | .failing _ thrown | .throwing thrown => error = some thrown
  | .cleanup | .finishing _ | .done => error = none

structure Open (s : State E Batch Triple Worker) : Prop where
  counting : Counting s
  contents : Contents source s
  noException : s.tripleCollector.pushedException = none
  consumer : s.consumer = .running ∨ s.consumer = .ended ∧ s.numFinishes = 1 ∧ s.triples = [] ∧ s.tripleCollector.queue = []
  threads : ∀ worker call,s.workers worker ≠ .finishing call
  started : s.parallelParser.startedFinishing = true → s.feeder.calls = 0
  reads : s.feeder.Reads source.error

structure Failed (s : State E Batch Triple Worker) : Prop where
  exception : s.tripleCollector.pushedException.isSome = true
  notEnded : s.consumer ≠ .ended
  fails : source.Fails

variable {source} {s s' : State E Batch Triple Worker}

theorem Counting.initial (queueSize collectorSize : Nat) : Counting (initial source queueSize collectorSize : State E Batch Triple Worker) where
  counter := by simp [RdfParallelParser.initial,pendingCalls,Feeder.calls,Thread.calls]
  closing := by simp [RdfParallelParser.initial,pendingCalls,RdfParallelParser.closing,Thread.closing,Feeder.calls]
  olds := by simp [RdfParallelParser.initial]
  finished := rfl

theorem Open.initial (queueSize collectorSize : Nat) : Open source (initial source queueSize collectorSize : State E Batch Triple Worker) where
  counting := Counting.initial queueSize collectorSize
  contents :=
    { results := by simp [RdfParallelParser.initial,pendingResults,Feeder.results,Thread.results]
      triples := by simp [RdfParallelParser.initial] }
  noException := rfl
  consumer := Or.inl rfl
  threads := by simp [RdfParallelParser.initial]
  started := by simp [RdfParallelParser.initial]
  reads := trivial

theorem Counting.pending (counting : Counting s) (positive : 0 < pendingCalls s) : s.numFinishes = 0 ∧ RdfParallelParser.closing s = 0 := by
  have closing := counting.closing
  rw [if_neg (by omega)] at closing
  omega

theorem pendingCalls_pos_of_worker (worker : Worker) (positive : 0 < (s.workers worker).calls) : 0 < pendingCalls s := by
  have single : (s.workers worker).calls ≤ ∑ other,(s.workers other).calls :=
    Finset.single_le_sum (f := fun other => (s.workers other).calls) (fun _ _ => Nat.zero_le _) (Finset.mem_univ worker)
  simp only [pendingCalls]
  omega

theorem Open.running (isOpen : Open source s) (positive : 0 < pendingCalls s) : s.consumer = .running := by
  rcases isOpen.consumer with running | ⟨_,once,_⟩
  · exact running
  · have never := (isOpen.counting.pending positive).1
    omega

section Feeder

theorem Open.moveFeeder (isOpen : Open source s) {feeder : Feeder E Batch} {queue : TaskQueue (Task Batch)} (errorMessages : List (Nat × E))
    (calls : feeder.calls + queue.queuedTasks.queue.length = s.feeder.calls + s.parallelParser.queuedTasks.queue.length)
    (results : (feeder.results source ++ queue.queuedTasks.queue.flatMap (Task.results source)).Perm
      (s.feeder.results source ++ s.parallelParser.queuedTasks.queue.flatMap (Task.results source)))
    (started : queue.startedFinishing = true → feeder.calls = 0) (reads : feeder.Reads source.error) :
    Open source {s with feeder := feeder,parallelParser := queue,errorMessages := errorMessages} := by
  have sameCalls : pendingCalls {s with feeder := feeder,parallelParser := queue,errorMessages := errorMessages} = pendingCalls s := congrArg (· + _) calls
  have sameResults : pendingResults source {s with feeder := feeder,parallelParser := queue,errorMessages := errorMessages} = pendingResults source s := by
    simp only [pendingResults,coe_add]
    rw [Multiset.coe_eq_coe.mpr results]
  exact
    { counting :=
        { counter := by
            rw [sameCalls]
            exact isOpen.counting.counter
          closing := by
            rw [sameCalls]
            exact isOpen.counting.closing
          olds := isOpen.counting.olds
          finished := isOpen.counting.finished }
      contents :=
        { results := by
            rw [sameResults]
            exact isOpen.contents.results
          triples := isOpen.contents.triples }
      noException := isOpen.noException
      consumer := isOpen.consumer
      threads := isOpen.threads
      started := started
      reads := reads }

theorem Counting.register (counting : Counting s) {parsePosition : Nat} {batch : Batch} {batches : List Batch}
    (feeder : s.feeder = .next parsePosition (batch::batches)) :
    Counting {s with numBatchesTotal := s.numBatchesTotal + 1,feeder := .pushing parsePosition batch batches} := by
  have positive : 0 < pendingCalls s := by
    simp only [pendingCalls,feeder,Feeder.calls]
    omega
  have more : pendingCalls {s with numBatchesTotal := s.numBatchesTotal + 1,feeder := .pushing parsePosition batch batches} = pendingCalls s + 1 := by
    simp only [pendingCalls,feeder,Feeder.calls]
    omega
  obtain ⟨never,nobody⟩ := counting.pending positive
  have counter := counting.counter
  refine ⟨?_,?_,counting.olds,counting.finished⟩
  · rw [more]
    change s.batchIdx + (pendingCalls s + 1) = s.numBatchesTotal + 1 + 1
    omega
  · rw [more,if_neg (by omega)]
    change s.numFinishes + _ = 0
    rw [never,zero_add]
    apply Finset.sum_eq_zero
    intro worker member
    have zero : (s.workers worker).closing s.numBatchesTotal = 0 := Finset.sum_eq_zero_iff.mp nobody worker member
    change (s.workers worker).closing (s.numBatchesTotal + 1) = 0
    cases thread : s.workers worker with
    | comparing old =>
      have less := counting.olds worker old thread
      simp only [Thread.closing]
      rw [if_neg (by omega)]
    | finishingCollector => simp [thread,Thread.closing] at zero
    | _ => rfl

theorem FeederStep.open (taskQueue : TaskQueueInvariant s) (isOpen : Open source s) (step : FeederStep source s s') :
    Open source s' ∨ Failed source s' := by
  -- While the feeder pushes tasks, the task queue is not finished.
  have notStarted : 0 < s.feeder.calls → s.parallelParser.startedFinishing ≠ true := by
    intro positive started
    have zero := isOpen.started started
    omega
  have notFinished : 0 < s.feeder.calls → s.parallelParser.queuedTasks.finished ≠ true := by
    intro positive finished
    have started := taskQueue.started
    have bounded := Bool.toNat_le s.parallelParser.startedFinishing
    rw [finished,Bool.toNat_true] at started
    exact notStarted positive (Bool.toNat_eq_one.mp (by omega))
  have reads := isOpen.reads
  cases step with
  | register parsePosition batch batches feeder =>
    refine Or.inl ⟨isOpen.counting.register feeder,⟨?_,isOpen.contents.triples⟩,isOpen.noException,isOpen.consumer,isOpen.threads,?_,trivial⟩
    · have results := isOpen.contents.results
      simpa only [pendingResults,feeder,Feeder.results] using results
    · exact fun started => absurd started (notStarted (by simp [feeder,Feeder.calls]))
  | endOfFile parsePosition feeder noError =>
    refine Or.inl (isOpen.moveFeeder s.errorMessages ?_ ?_ ?_ noError)
    · simp [feeder,Feeder.calls]
    · simp [feeder,Feeder.results,Source.results]
    · exact fun started => absurd started (notStarted (by simp [feeder,Feeder.calls]))
  | readError parsePosition error feeder isError =>
    refine Or.inl (isOpen.moveFeeder s.errorMessages ?_ ?_ ?_ isError)
    · simp [feeder,Feeder.calls]
    · simp [feeder,Feeder.results,Source.results]
    · exact fun started => absurd started (notStarted (by simp [feeder,Feeder.calls]))
  | push parsePosition batch batches feeder _ =>
    refine Or.inl (isOpen.moveFeeder s.errorMessages ?_ ?_ ?_ trivial)
    · simp only [State.setTasks,feeder,Feeder.calls,List.length_append,List.length_singleton]
      omega
    · simp only [State.setTasks,feeder,Feeder.results,Source.results,Task.results,List.flatMap_append,List.flatMap_singleton,List.cons_append]
      rw [← List.append_assoc]
      exact List.perm_append_comm
    · exact fun started => absurd started (notStarted (by simp [feeder,Feeder.calls]))
  | drop parsePosition batch batches feeder finished | dropLast feeder finished => exact absurd finished (notFinished (by simp [feeder,Feeder.calls]))
  | report parsePosition error feeder =>
    rw [feeder] at reads
    refine Or.inl (isOpen.moveFeeder _ ?_ ?_ ?_ reads)
    · simp [feeder,Feeder.calls]
    · simp [feeder,Feeder.results]
    · exact fun started => absurd started (notStarted (by simp [feeder,Feeder.calls]))
  | throw error feeder =>
    rw [feeder] at reads
    refine Or.inr ⟨?_,?_,Or.inl ?_⟩
    · simp [ThreadSafeQueue.pushException,isOpen.noException]
    · rw [isOpen.running (by simp only [pendingCalls,feeder,Feeder.calls]; omega)]
      simp
    · rw [show source.error = some error from reads]
      rfl
  | pushLast feeder _ =>
    rw [feeder] at reads
    refine Or.inl (isOpen.moveFeeder s.errorMessages ?_ ?_ (fun _ => rfl) reads)
    · simp only [State.setTasks,feeder,Feeder.calls,List.length_append,List.length_singleton]
      omega
    · simp [State.setTasks,feeder,Feeder.results,Task.results]
  | finish call next queue feeder finishing =>
    rw [feeder] at reads
    have sameTasks : queue.queuedTasks.queue = s.parallelParser.queuedTasks.queue := by
      rcases finish_cases finishing with ⟨_,_,_,same⟩ | ⟨_,_,_,same⟩ | ⟨_,_,same⟩ | ⟨_,_,_,same⟩ <;> rw [same]; rfl
    refine Or.inl (isOpen.moveFeeder s.errorMessages ?_ ?_ ?_ ?_)
    · cases next <;> simp [feeder,Feeder.calls,Feeder.resume,sameTasks]
    · cases next <;> simp [feeder,Feeder.results,Feeder.resume,sameTasks]
    · cases next <;> exact fun _ => rfl
    · cases next <;> exact reads

end Feeder

section Thread
variable [DecidableEq Worker] {worker : Worker} {thread : Thread E Triple}

section
omit [Fintype Worker]

theorem threads_setWorker (others : ∀ other call,s.workers other ≠ .finishing call) (own : ∀ call,thread ≠ .finishing call)
    (other : Worker) (call : TaskQueueFinish) : (s.setWorker worker thread).workers other ≠ .finishing call := by
  intro same
  rcases setWorker_cases same with ⟨_,isOwn⟩ | before
  · exact own call isOwn
  · exact others other call before

theorem olds_setWorker {bound : Nat} (others : ∀ other old,s.workers other = .comparing old → old < bound)
    (own : ∀ old,thread = .comparing old → old < bound) (other : Worker) (old : Nat) (same : (s.setWorker worker thread).workers other = .comparing old) :
    old < bound := by
  rcases setWorker_cases same with ⟨_,isOwn⟩ | before
  · exact own old isOwn
  · exact others other old before

end

section
variable (isOpen : Open source s)
include isOpen

theorem Open.moveThread {thread : Thread E Triple} {queue : TaskQueue (Task Batch)} (errorMessages : List (Nat × E))
    (calls : queue.queuedTasks.queue.length + thread.calls = s.parallelParser.queuedTasks.queue.length + (s.workers worker).calls)
    (results : (queue.queuedTasks.queue.flatMap (Task.results source) : Multiset (Except E (List Triple))) + thread.results =
      (s.parallelParser.queuedTasks.queue.flatMap (Task.results source) : Multiset (Except E (List Triple))) + (s.workers worker).results)
    (closing : thread.closing s.numBatchesTotal = (s.workers worker).closing s.numBatchesTotal) (olds : ∀ old,thread ≠ .comparing old)
    (threads : ∀ call,thread ≠ .finishing call) (started : queue.startedFinishing = s.parallelParser.startedFinishing) :
    Open source ({s with parallelParser := queue,errorMessages := errorMessages}.setWorker worker thread) := by
  have sameCalls : pendingCalls ({s with parallelParser := queue,errorMessages := errorMessages}.setWorker worker thread) = pendingCalls s := by
    have moved := pendingCalls_setWorker {s with parallelParser := queue,errorMessages := errorMessages} worker thread
    change _ + (s.workers worker).calls = s.feeder.calls + queue.queuedTasks.queue.length + (∑ other,(s.workers other).calls) + _ at moved
    simp only [pendingCalls] at moved ⊢
    omega
  have sameResults : pendingResults source ({s with parallelParser := queue,errorMessages := errorMessages}.setWorker worker thread) =
      pendingResults source s := by
    have moved := pendingResults_setWorker source {s with parallelParser := queue,errorMessages := errorMessages} worker thread
    change _ + (s.workers worker).results = (s.feeder.results source : Multiset _) + (queue.queuedTasks.queue.flatMap (Task.results source) : Multiset _) +
      (∑ other,(s.workers other).results) + _ at moved
    apply add_right_cancel (b := (s.workers worker).results)
    rw [moved,pendingResults,add_right_comm,add_assoc _ _ thread.results,results,← add_assoc,add_right_comm]
  have sameClosing : RdfParallelParser.closing ({s with parallelParser := queue,errorMessages := errorMessages}.setWorker worker thread) =
      RdfParallelParser.closing s := by
    have moved := closing_setWorker {s with parallelParser := queue,errorMessages := errorMessages} worker thread
    change _ + (s.workers worker).closing s.numBatchesTotal = RdfParallelParser.closing s + thread.closing s.numBatchesTotal at moved
    omega
  exact
    { counting :=
        { counter := by
            rw [sameCalls]
            exact isOpen.counting.counter
          closing := by
            rw [sameCalls,sameClosing]
            exact isOpen.counting.closing
          olds := olds_setWorker isOpen.counting.olds (fun old own => absurd own (olds old))
          finished := isOpen.counting.finished }
      contents :=
        { results := by
            rw [sameResults]
            exact isOpen.contents.results
          triples := isOpen.contents.triples }
      noException := isOpen.noException
      consumer := isOpen.consumer
      threads := threads_setWorker isOpen.threads threads
      started := fun isStarted => isOpen.started (started.symm.trans isStarted)
      reads := isOpen.reads }

theorem Open.pushTriples {triples : List Triple} (thread : s.workers worker = .pushing triples) :
    Open source ({s with tripleCollector := {s.tripleCollector with queue := s.tripleCollector.queue ++ [triples]},
                         pushed := s.pushed ++ [triples]}.setWorker worker .counting) := by
  have running := isOpen.running (pendingCalls_pos_of_worker worker (by simp [thread,Thread.calls]))
  have calls := pendingCalls_setWorker s worker .counting
  have closing := closing_setWorker s worker .counting
  have results := pendingResults_setWorker source s worker .counting
  simp only [thread,Thread.calls,Thread.closing,Thread.results,add_zero,Nat.add_right_cancel_iff] at calls closing results
  have total := isOpen.contents.results
  have sameTriples := isOpen.contents.triples
  exact
    { counting :=
        { counter := (congrArg (s.batchIdx + ·) calls).trans isOpen.counting.counter
          closing := by
            refine (congrArg (s.numFinishes + ·) closing).trans (isOpen.counting.closing.trans ?_)
            exact congrArg (fun calls => if calls = 0 then 1 else 0) calls.symm
          olds := olds_setWorker isOpen.counting.olds nofun
          finished := isOpen.counting.finished }
      contents :=
        { results := by
            change (((s.pushed ++ [triples]).map Except.ok : List (Except E (List Triple))) : Multiset (Except E (List Triple))) +
              pendingResults source (s.setWorker worker .counting) = _
            rw [← total,← results,List.map_append,← coe_add,add_assoc,add_comm (pendingResults _ _)]
            rfl
          triples := by
            change (s.received : Multiset Triple) + s.triples + ((s.tripleCollector.queue ++ [triples]).flatten : List Triple) =
              ((s.pushed ++ [triples]).flatten : List Triple)
            rw [List.flatten_append,List.flatten_append,← coe_add,← coe_add,← sameTriples,← add_assoc] }
      noException := isOpen.noException
      consumer := Or.inl running
      threads := threads_setWorker isOpen.threads (by simp)
      started := isOpen.started
      reads := isOpen.reads }

/-- A call of `finishTripleCollectorIfLastBatch` increases the counter. It is the last one if it gets the total number. -/
theorem Open.count (thread : s.workers worker = .counting) :
    Open source ({s with batchIdx := s.batchIdx + 1}.setWorker worker (.comparing s.batchIdx)) := by
  have positive : 0 < pendingCalls s := pendingCalls_pos_of_worker worker (by simp [thread,Thread.calls])
  obtain ⟨never,nobody⟩ := isOpen.counting.pending positive
  have running := isOpen.running positive
  have counter := isOpen.counting.counter
  have calls := pendingCalls_setWorker s worker (.comparing s.batchIdx)
  have closing := closing_setWorker s worker (.comparing s.batchIdx)
  have results := pendingResults_setWorker source s worker (.comparing s.batchIdx)
  simp only [thread,Thread.calls,Thread.closing,Thread.results,add_zero,nobody,zero_add] at calls closing results
  exact
    { counting :=
        { counter := by
            change s.batchIdx + 1 + pendingCalls (s.setWorker worker (.comparing s.batchIdx)) = s.numBatchesTotal + 1
            omega
          closing := by
            change s.numFinishes + RdfParallelParser.closing (s.setWorker worker (.comparing s.batchIdx)) =
              if pendingCalls (s.setWorker worker (.comparing s.batchIdx)) = 0 then 1 else 0
            rw [closing,never,zero_add]
            exact if_congr (by omega) rfl rfl
          olds := olds_setWorker (fun other old before => Nat.lt_succ_of_lt (isOpen.counting.olds other old before))
            (fun old own => by cases own; exact Nat.lt_succ_self s.batchIdx)
          finished := isOpen.counting.finished }
      contents :=
        { results := (congrArg (_ + ·) results).trans isOpen.contents.results
          triples := isOpen.contents.triples }
      noException := isOpen.noException
      consumer := Or.inl running
      threads := threads_setWorker isOpen.threads (by simp)
      started := isOpen.started
      reads := isOpen.reads }

theorem Open.finishCollector (thread : s.workers worker = .finishingCollector) :
    Open source ({s with tripleCollector := s.tripleCollector.finish,numFinishes := s.numFinishes + 1}.setWorker worker .idle) := by
  have calls := pendingCalls_setWorker s worker .idle
  have closing := closing_setWorker s worker .idle
  have results := pendingResults_setWorker source s worker .idle
  simp only [thread,Thread.calls,Thread.closing,Thread.results,add_zero] at calls closing results
  have before := isOpen.counting.closing
  have bounded : (if pendingCalls s = 0 then 1 else 0) ≤ 1 := by split <;> simp
  have never : s.numFinishes = 0 := by omega
  have running : s.consumer = .running := by
    rcases isOpen.consumer with running | ⟨_,once,_⟩
    · exact running
    · omega
  exact
    { counting :=
        { counter := (congrArg (s.batchIdx + ·) calls).trans isOpen.counting.counter
          closing := by
            change s.numFinishes + 1 + RdfParallelParser.closing (s.setWorker worker .idle) =
              if pendingCalls (s.setWorker worker .idle) = 0 then 1 else 0
            rw [calls]
            omega
          olds := olds_setWorker isOpen.counting.olds nofun
          finished := by
            change 1 = s.numFinishes + 1
            rw [never] }
      contents :=
        { results := (congrArg (_ + ·) results).trans isOpen.contents.results
          triples := isOpen.contents.triples }
      noException := isOpen.noException
      consumer := Or.inl running
      threads := threads_setWorker isOpen.threads (by simp)
      started := isOpen.started
      reads := isOpen.reads }

theorem Open.error_mem {error : E} (thread : s.workers worker = .throwing error) :
    .error error ∈ source.results 0 source.batches := by
  have moved := pendingResults_setWorker source s worker .idle
  simp only [thread,Thread.results,add_zero] at moved
  rw [← mem_coe,← isOpen.contents.results,← moved]
  simp

end

theorem Task.start_ne_comparing (task : Task Batch) (old : Nat) : (task.start source : Thread E Triple) ≠ .comparing old := by
  rcases task.start_cases source with started | ⟨_,started⟩ | ⟨_,_,started⟩ <;> simp [started]

theorem Task.start_ne_finishing (task : Task Batch) (call : TaskQueueFinish) : (task.start source : Thread E Triple) ≠ .finishing call := by
  rcases task.start_cases source with started | ⟨_,started⟩ | ⟨_,_,started⟩ <;> simp [started]

theorem ThreadStep.open (isOpen : Open source s) (step : ThreadStep source worker s s') : Open source s' ∨ Failed source s' := by
  cases step with
  | start task queue thread isQueue =>
    refine Or.inl (isOpen.moveThread s.errorMessages ?_ ?_ ?_ (Task.start_ne_comparing task) (Task.start_ne_finishing task) rfl)
    · rw [thread,isQueue,Task.start_calls]
      rfl
    · rw [thread,isQueue,Task.start_results,List.flatMap_cons,← coe_add]
      exact (add_comm _ _).trans (add_zero _).symm
    · rw [thread,Task.start_closing]
      rfl
  | stop thread _ _ =>
    exact Or.inl (isOpen.moveThread s.errorMessages (by rw [thread]; rfl) (by rw [thread]; rfl) (by rw [thread]; rfl) (by simp) (by simp) rfl)
  | push triples thread _ => exact Or.inl (isOpen.pushTriples thread)
  | drop triples thread finished =>
    -- As the call of this thread is pending, the collector is not finished.
    have never := (isOpen.counting.pending (pendingCalls_pos_of_worker worker (by simp [thread,Thread.calls]))).1
    have isFinished := isOpen.counting.finished
    rw [finished,never] at isFinished
    cases isFinished
  | count thread => exact Or.inl (isOpen.count thread)
  | isLast thread =>
    exact Or.inl (isOpen.moveThread s.errorMessages (by rw [thread]; rfl) (by rw [thread]; rfl) (by simp [thread,Thread.closing]) (by simp) (by simp) rfl)
  | notLast old thread different =>
    exact Or.inl (isOpen.moveThread s.errorMessages (by rw [thread]; rfl) (by rw [thread]; rfl) (by simp [thread,Thread.closing,different]) (by simp)
      (by simp) rfl)
  | finishCollector thread => exact Or.inl (isOpen.finishCollector thread)
  | report parsePosition error thread =>
    exact Or.inl (isOpen.moveThread _ (by rw [thread]; rfl) (by rw [thread]; rfl) (by rw [thread]; rfl) (by simp) (by simp) rfl)
  | throw error thread =>
    refine Or.inr ⟨?_,?_,Or.inr ⟨error,isOpen.error_mem thread⟩⟩
    · simp [State.setWorker,ThreadSafeQueue.pushException,isOpen.noException]
    · change s.consumer ≠ .ended
      rw [isOpen.running (pendingCalls_pos_of_worker worker (by simp [thread,Thread.calls]))]
      simp
  | finish call next queue thread _ => exact absurd thread (isOpen.threads worker call)

end Thread

theorem ConsumerStep.open (isOpen : Open source s) (step : ConsumerStep s s') : Open source s' := by
  have counting : Counting s' := by
    have counting := isOpen.counting
    cases step <;> exact ⟨counting.counter,counting.closing,counting.olds,counting.finished⟩
  have sameTriples := isOpen.contents.triples
  cases step with
  | take triples taken running some same =>
    refine ⟨counting,⟨isOpen.contents.results,?_⟩,isOpen.noException,Or.inl running,isOpen.threads,isOpen.started,isOpen.reads⟩
    rw [← sameTriples,same,← coe_add,← coe_add,add_assoc (s.received : Multiset Triple),add_comm (taken : Multiset Triple)]
  | pop triples queue running empty noException isQueue =>
    refine ⟨counting,⟨isOpen.contents.results,?_⟩,noException,Or.inl running,isOpen.threads,isOpen.started,isOpen.reads⟩
    rw [← sameTriples,empty,isQueue,List.flatten_cons,← coe_add,coe_nil,add_zero,← add_assoc]
  | stop running empty noException noTriples finished =>
    have once := isOpen.counting.finished
    rw [finished] at once
    exact ⟨counting,⟨isOpen.contents.results,sameTriples⟩,noException,Or.inr ⟨rfl,once.symm,empty,noTriples⟩,isOpen.threads,isOpen.started,isOpen.reads⟩
  | wait running exception | rethrow error running exception =>
    rw [isOpen.noException] at exception
    cases exception
  | throw waiting _ =>
    rcases isOpen.consumer with running | ⟨ended,_⟩
    · cases running.symm.trans waiting
    · cases ended.symm.trans waiting

section Failed

omit [Fintype Worker] in
theorem Failed.keep (failed : Failed source s) (exception : s'.tripleCollector.pushedException.isSome = true) (consumer : s'.consumer = s.consumer) :
    Failed source s' := ⟨exception,consumer ▸ failed.notEnded,failed.fails⟩

theorem pushException_isSome (collector : ThreadSafeQueue E (List Triple)) (error : E) : (collector.pushException error).pushedException.isSome = true := by
  unfold ThreadSafeQueue.pushException
  split
  next isSome => exact isSome
  next => rfl

theorem FeederStep.failed (failed : Failed source s) (step : FeederStep source s s') : Failed source s' := by
  cases step with
  | throw error feeder => exact failed.keep (pushException_isSome _ error) rfl
  | _ => exact failed.keep failed.exception rfl

theorem ThreadStep.failed [DecidableEq Worker] {worker : Worker} (failed : Failed source s) (step : ThreadStep source worker s s') : Failed source s' := by
  cases step with
  | throw error feeder => exact failed.keep (pushException_isSome _ error) rfl
  | _ => exact failed.keep failed.exception rfl

omit [Fintype Worker] in
theorem ConsumerStep.failed (failed : Failed source s) (step : ConsumerStep s s') : Failed source s' := by
  have exception := failed.exception
  cases step with
  | take triples taken running some same => exact failed.keep exception rfl
  | pop triples queue running empty noException isQueue | stop running empty noException noTriples finished =>
    rw [noException] at exception
    cases exception
  | wait running _ | rethrow error running _ => exact ⟨exception,by simp,failed.fails⟩
  | throw waiting _ =>
    refine ⟨exception,?_,failed.fails⟩
    cases firstError s.errorMessages <;> simp

end Failed
end Invariant
end RdfParallelParser
end Qlever
