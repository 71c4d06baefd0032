import Qlever.Library.Interleaving
import Qlever.ThreadSafeQueue

/-! The `RdfMultifileParser`: a feeder thread registers the files and pushes one task per file, the threads of the
task queue parse the files, and `getBatch` pops the batches. The batches are complete if the counter of the active parsers
does not drop to zero while files with batches are not registered.
-/
namespace Qlever
open Library
open Multiset (coe_add coe_singleton coe_nil)

namespace RdfMultifileParser
variable {Batch Worker : Type}

/-- The loop over the files: before the counter is increased for the first of them, or before the task of a file is pushed. -/
inductive Feeder (Batch : Type)
  | next (files : List (List Batch))
  | pushing (file : List Batch) (files : List (List Batch))
  | done

inductive Thread (Batch : Type)
  | idle
  | parsing (batches : List Batch)
  | finishing
  | done

structure State (Batch Worker : Type) where
  feeder : Feeder Batch
  parsingQueue : ThreadSafeQueue Empty (List Batch)
  numActiveParsers : Nat := 0
  workers : Worker → Thread Batch := fun _ => .idle
  finishedBatchQueue : ThreadSafeQueue Empty Batch
  received : List Batch := []
  sawNullopt : Bool := false

inductive Action (Worker : Type)
  | feeder
  | worker (worker : Worker)
  | getBatch

def initial (queueSize batchQueueSize : Nat) (files : List (List Batch)) : State Batch Worker where
  feeder := .next files
  parsingQueue := {maxSize := queueSize}
  finishedBatchQueue := {maxSize := batchQueueSize}

def makeParsers (s : State Batch Worker) : Option (State Batch Worker) :=
  match s.feeder with
  | .next (file::files) => some {s with numActiveParsers := s.numActiveParsers + 1,feeder := .pushing file files}
  | .pushing file files => do
    let (active,parsingQueue) ← s.parsingQueue.push file
    return {s with parsingQueue := parsingQueue,feeder := if active then .next files else .done}
  | .next [] => some {s with parsingQueue := s.parsingQueue.finish,feeder := .done}
  | .done => none

variable [DecidableEq Worker]

def State.setWorker (s : State Batch Worker) (worker : Worker) (thread : Thread Batch) : State Batch Worker :=
  {s with workers := Function.update s.workers worker thread}

/-- `function_for_thread` of the task queue, with `parseFile` as its tasks. -/
def functionForThread (worker : Worker) (s : State Batch Worker) : Option (State Batch Worker) :=
  match s.workers worker with
  | .idle => do
    let (task,parsingQueue) ← s.parsingQueue.pop
    match task with
    | .value batches => return {s with parsingQueue := parsingQueue}.setWorker worker (.parsing batches)
    | _ => return s.setWorker worker .done
  | .parsing (batch::batches) => do
    let (active,finishedBatchQueue) ← s.finishedBatchQueue.push batch
    return {s with finishedBatchQueue := finishedBatchQueue}.setWorker worker (if active then .parsing batches else .idle)
  | .parsing [] =>
    some ({s with numActiveParsers := s.numActiveParsers - 1}.setWorker worker (if s.numActiveParsers = 1 then .finishing else .idle))
  | .finishing => some ({s with finishedBatchQueue := s.finishedBatchQueue.finish}.setWorker worker .idle)
  | .done => none

/-- The consumer, up to the first `nullopt`. -/
def getBatch (s : State Batch Worker) : Option (State Batch Worker) :=
  if s.sawNullopt then none
  else do
    let (batch,finishedBatchQueue) ← s.finishedBatchQueue.pop
    match batch with
    | .value batch => return {s with finishedBatchQueue := finishedBatchQueue,received := s.received ++ [batch]}
    | _ => return {s with sawNullopt := true}

def step (s : State Batch Worker) : Action Worker → Option (State Batch Worker)
  | .feeder => makeParsers s
  | .worker worker => functionForThread worker s
  | .getBatch => getBatch s

section Condition

def Feeder.unregistered : Feeder Batch → List (List Batch)
  | .next files => files
  | .pushing _ files => files
  | .done => []

def LastIsRegistered (s : State Batch Worker) : Action Worker → Prop
  | .worker worker => match s.workers worker with
    | .parsing [] => s.numActiveParsers = 1 → ∀ file ∈ s.feeder.unregistered,file = []
    | _ => True
  | _ => True

end Condition

section Invariant
variable [Fintype Worker] {s s' : State Batch Worker}

def Feeder.pending : Feeder Batch → Multiset Batch
  | .next files => (files.flatten : Multiset Batch)
  | .pushing file files => ((file::files).flatten : Multiset Batch)
  | .done => 0

def Thread.pending : Thread Batch → Multiset Batch
  | .parsing batches => (batches : Multiset Batch)
  | _ => 0

def pending (s : State Batch Worker) : Multiset Batch :=
  s.feeder.pending + (s.parsingQueue.queue.flatten : Multiset Batch) + ∑ worker,(s.workers worker).pending

def Feeder.active : Feeder Batch → Nat
  | .pushing _ _ => 1
  | _ => 0

def Thread.active : Thread Batch → Nat
  | .parsing _ => 1
  | _ => 0

def active (s : State Batch Worker) : Nat := s.feeder.active + s.parsingQueue.queue.length + ∑ worker,(s.workers worker).active

section
variable (s : State Batch Worker) (worker : Worker) (thread : Thread Batch)

theorem pending_setWorker :
    pending (s.setWorker worker thread) + (s.workers worker).pending = pending s + thread.pending := by
  have moved := sum_update Thread.pending s.workers worker thread
  simp only [pending,State.setWorker,add_assoc,moved]

theorem active_setWorker :
    active (s.setWorker worker thread) + (s.workers worker).active = active s + thread.active := by
  have moved := sum_update Thread.active s.workers worker thread
  simp only [active,State.setWorker,add_assoc,moved]

end

theorem pending_worker (nothing : pending s = 0) (worker : Worker) : (s.workers worker).pending = 0 := by
  have moved : pending (s.setWorker worker .done) + (s.workers worker).pending = pending s + 0 := pending_setWorker s worker .done
  rw [nothing,add_zero] at moved
  exact (add_eq_zero.mp moved).2

structure Open (s : State Batch Worker) : Prop where
  notFinished : s.finishedBatchQueue.finished = false
  notFinishing : ∀ worker,s.workers worker ≠ .finishing
  counter : s.numActiveParsers = active s

structure Invariant (files : List (List Batch)) (s : State Batch Worker) : Prop where
  total : (s.received : Multiset Batch) + s.finishedBatchQueue.queue + pending s = files.flatten
  feeding : s.parsingQueue.finished = true → s.feeder = .done
  phase : Open s ∨ pending s = 0
  ended : s.sawNullopt = true → pending s = 0 ∧ s.finishedBatchQueue.queue = []

variable {files : List (List Batch)}

section
omit [DecidableEq Worker]

theorem Invariant.initial (queueSize batchQueueSize : Nat) : Invariant files (initial queueSize batchQueueSize files : State Batch Worker) where
  total := by simp [RdfMultifileParser.initial,pending,Feeder.pending,Thread.pending]
  feeding := by simp [RdfMultifileParser.initial]
  phase := Or.inl ⟨rfl,by simp [RdfMultifileParser.initial],by simp [RdfMultifileParser.initial,active,Feeder.active,Thread.active]⟩
  ended := by simp [RdfMultifileParser.initial]

theorem Invariant.of_pending (invariant : Invariant files s) (received : s'.received = s.received)
    (queue : s'.finishedBatchQueue.queue = s.finishedBatchQueue.queue) (nullopt : s'.sawNullopt = s.sawNullopt) (same : pending s' = pending s)
    (feeding : s'.parsingQueue.finished = true → s'.feeder = .done) (phase : Open s → Open s' ∨ pending s = 0) : Invariant files s' where
  total := by
    rw [received,queue,same]
    exact invariant.total
  feeding := feeding
  phase := by
    rw [same]
    rcases invariant.phase with isOpen | nothing
    · exact phase isOpen
    · exact Or.inr nothing
  ended isEnded := by
    rw [same,queue]
    exact invariant.ended (nullopt ▸ isEnded)

theorem makeParsers_invariant (invariant : Invariant files s) (taken : makeParsers s = some s') : Invariant files s' := by
  cases feeder : s.feeder with
  | done => simp [makeParsers,feeder] at taken
  | next rest =>
    cases rest with
    | nil =>
      simp only [makeParsers,feeder,Option.some.injEq] at taken
      subst taken
      refine invariant.of_pending rfl rfl rfl ?_ ?_ ?_
      · simp [pending,feeder,Feeder.pending,ThreadSafeQueue.finish]
      · exact fun _ => rfl
      · intro isOpen
        refine Or.inl ⟨isOpen.notFinished,isOpen.notFinishing,?_⟩
        simpa [active,feeder,Feeder.active,ThreadSafeQueue.finish] using isOpen.counter
    | cons file rest =>
      simp only [makeParsers,feeder,Option.some.injEq] at taken
      subst taken
      refine invariant.of_pending rfl rfl rfl ?_ ?_ ?_
      · simp [pending,feeder,Feeder.pending]
      · intro finished
        have done := invariant.feeding finished
        rw [feeder] at done
        cases done
      · intro isOpen
        refine Or.inl ⟨isOpen.notFinished,isOpen.notFinishing,?_⟩
        have counter := isOpen.counter
        simp only [active,feeder,Feeder.active] at counter ⊢
        omega
  | pushing file rest =>
    simp only [makeParsers,feeder,Option.bind_eq_bind,Option.bind_eq_some_iff] at taken
    obtain ⟨⟨isActive,queue⟩,pushing,taken⟩ := taken
    cases taken
    rcases ThreadSafeQueue.push_cases pushing with ⟨rfl,finished,rfl⟩ | ⟨rfl,notFinished,_,rfl⟩
    · have done := invariant.feeding finished
      rw [feeder] at done
      cases done
    · refine invariant.of_pending rfl rfl rfl ?_ ?_ ?_
      · simp only [pending,feeder,Feeder.pending,if_true,List.flatten_append,List.flatten_cons,List.flatten_nil,List.append_nil,← coe_add]
        abel
      · intro finished
        rw [notFinished] at finished
        cases finished
      · intro isOpen
        refine Or.inl ⟨isOpen.notFinished,isOpen.notFinishing,?_⟩
        have counter := isOpen.counter
        simp only [active,feeder,Feeder.active,if_true,List.length_append,List.length_singleton] at counter ⊢
        omega

end

variable {worker : Worker} {thread : Thread Batch}

theorem pending_setWorker_eq (before : (s.workers worker).pending = 0) (after : thread.pending = 0) :
    pending (s.setWorker worker thread) = pending s := by
  have moved := pending_setWorker s worker thread
  rwa [before,after,add_zero,add_zero] at moved

omit [Fintype Worker] in
theorem notFinishing_setWorker (notFinishing : ∀ worker,s.workers worker ≠ .finishing)     (different : thread ≠ .finishing) (other : Worker) : (s.setWorker worker thread).workers other ≠ .finishing := by
  by_cases same : other = worker
  · subst same
    simpa [State.setWorker] using different
  · simp only [State.setWorker,Function.update_of_ne same]
    exact notFinishing other

theorem pending_last (isOpen : Open s) (parsing : s.workers worker = .parsing []) (last : s.numActiveParsers = 1)
    (registered : ∀ file ∈ s.feeder.unregistered,file = []) : pending s = 0 := by
  have removed := active_setWorker s worker .idle
  have counter := isOpen.counter
  simp only [parsing,Thread.active,add_zero] at removed
  have nobody : active (s.setWorker worker .idle) = 0 := by omega
  simp only [active,Nat.add_eq_zero_iff,List.length_eq_zero_iff,Finset.sum_eq_zero_iff,Finset.mem_univ,true_implies] at nobody
  obtain ⟨⟨notPushing,noTasks⟩,noParsers⟩ := nobody
  have others : ∀ other,(s.workers other).pending = 0 := by
    intro other
    by_cases same : other = worker
    · rw [same,parsing]
      rfl
    · have inactive := noParsers other
      simp only [State.setWorker,Function.update_of_ne same] at inactive
      cases state : s.workers other with
      | parsing batches => simp [state,Thread.active] at inactive
      | _ => rfl
  have fed : s.feeder.pending = 0 := by
    cases feeder : s.feeder with
    | next rest =>
      rw [feeder,Feeder.unregistered] at registered
      simp only [Feeder.pending,Multiset.coe_eq_zero,List.flatten_eq_nil_iff]
      exact registered
    | pushing file rest => simp [State.setWorker,feeder,Feeder.active] at notPushing
    | done => rfl
  have noTasks' : s.parsingQueue.queue = [] := noTasks
  simp [pending,fed,noTasks',others]

theorem functionForThread_invariant (invariant : Invariant files s) (isAllowed : LastIsRegistered s (.worker worker))
    (taken : functionForThread worker s = some s') : Invariant files s' := by
  cases thread : s.workers worker with
  | done => simp [functionForThread,thread] at taken
  | idle =>
    simp only [functionForThread,thread,Option.bind_eq_bind,Option.bind_eq_some_iff] at taken
    obtain ⟨⟨task,queue⟩,popping,taken⟩ := taken
    rcases ThreadSafeQueue.pop_cases popping with ⟨exception,_⟩ | ⟨batches,rfl,_,isQueue,isRest⟩ | ⟨rfl,_,_,_,rfl⟩
    · exact exception.elim
    · cases taken
      have moved := pending_setWorker {s with parsingQueue := queue} worker (.parsing batches)
      have counted := active_setWorker {s with parsingQueue := queue} worker (.parsing batches)
      simp only [thread,Thread.pending,Thread.active,add_zero] at moved counted
      refine invariant.of_pending rfl rfl rfl ?_ ?_ ?_
      · rw [moved]
        simp only [pending,isQueue,List.flatten_cons,← coe_add]
        abel
      · intro finished
        rw [isRest] at finished
        exact invariant.feeding finished
      · intro isOpen
        refine Or.inl ⟨isOpen.notFinished,notFinishing_setWorker isOpen.notFinishing (by simp),?_⟩
        rw [counted]
        have counter := isOpen.counter
        simp only [active,isQueue,List.length_cons,State.setWorker] at counter ⊢
        omega
    · cases taken
      refine invariant.of_pending rfl rfl rfl (pending_setWorker_eq (by rw [thread]; rfl) rfl) invariant.feeding ?_
      intro isOpen
      have counted := active_setWorker s worker .done
      simp only [thread,Thread.active,add_zero] at counted
      exact Or.inl ⟨isOpen.notFinished,notFinishing_setWorker isOpen.notFinishing (by simp),counted ▸ isOpen.counter⟩
  | finishing =>
    simp only [functionForThread,thread,Option.some.injEq] at taken
    subst taken
    refine invariant.of_pending rfl rfl rfl (pending_setWorker_eq (by rw [show State.workers _ worker = _ from thread]; rfl) rfl) invariant.feeding ?_
    intro isOpen
    exact absurd thread (isOpen.notFinishing worker)
  | parsing batches =>
    cases batches with
    | nil =>
      simp only [functionForThread,thread,Option.some.injEq] at taken
      subst taken
      refine invariant.of_pending rfl rfl rfl (pending_setWorker_eq (by rw [show State.workers _ worker = _ from thread]; rfl) ?_) invariant.feeding ?_
      · split <;> rfl
      · intro isOpen
        by_cases last : s.numActiveParsers = 1
        · right
          simp only [LastIsRegistered,thread] at isAllowed
          exact pending_last isOpen thread last (isAllowed last)
        · left
          rw [if_neg last]
          refine ⟨isOpen.notFinished,notFinishing_setWorker isOpen.notFinishing (by simp),?_⟩
          have counted := active_setWorker {s with numActiveParsers := s.numActiveParsers - 1} worker .idle
          have counter := isOpen.counter
          simp only [thread,Thread.active,add_zero] at counted
          change s.numActiveParsers - 1 = _
          change _ = active s at counted
          omega
    | cons batch batches =>
      simp only [functionForThread,thread,Option.bind_eq_bind,Option.bind_eq_some_iff] at taken
      obtain ⟨⟨isActive,queue⟩,pushing,taken⟩ := taken
      cases taken
      have something : pending s ≠ 0 := by
        intro nothing
        have none := pending_worker nothing worker
        simp [thread,Thread.pending] at none
      obtain isOpen : Open s := invariant.phase.resolve_right something
      rcases ThreadSafeQueue.push_cases pushing with ⟨_,finished,_⟩ | ⟨rfl,_,_,rfl⟩
      · rw [isOpen.notFinished] at finished
        cases finished
      · have moved := pending_setWorker {s with finishedBatchQueue := {s.finishedBatchQueue with queue := s.finishedBatchQueue.queue ++ [batch]}}
          worker (.parsing batches)
        have counted := active_setWorker {s with finishedBatchQueue := {s.finishedBatchQueue with queue := s.finishedBatchQueue.queue ++ [batch]}}
          worker (.parsing batches)
        simp only [thread,Thread.pending,Thread.active,Nat.add_right_cancel_iff] at moved counted
        refine ⟨?_,invariant.feeding,Or.inl ⟨isOpen.notFinished,notFinishing_setWorker isOpen.notFinishing (by simp),?_⟩,?_⟩
        · have total := invariant.total
          have split : ((batch::batches : List Batch) : Multiset Batch) = {batch} + batches := rfl
          rw [split,← add_assoc] at moved
          have taken := add_right_cancel moved
          change _ = pending s at taken
          rw [← total,← taken]
          simp only [State.setWorker,if_true,← coe_add,coe_singleton]
          abel
        · exact isOpen.counter.trans counted.symm
        · intro ended
          exact absurd (invariant.ended ended).1 something

omit [DecidableEq Worker] in
theorem getBatch_invariant (invariant : Invariant files s) (taken : getBatch s = some s') : Invariant files s' := by
  unfold getBatch at taken
  split at taken
  next => cases taken
  next notEnded =>
    simp only [Option.bind_eq_bind,Option.bind_eq_some_iff] at taken
    obtain ⟨⟨batch,queue⟩,popping,taken⟩ := taken
    rcases ThreadSafeQueue.pop_cases popping with ⟨exception,_⟩ | ⟨batch,rfl,_,isQueue,isRest⟩ | ⟨rfl,_,empty,finished,rfl⟩
    · exact exception.elim
    · cases taken
      have total := invariant.total
      rw [isQueue] at total
      refine ⟨?_,invariant.feeding,?_,fun ended => absurd ended notEnded⟩
      · have split : ((batch::queue.queue : List Batch) : Multiset Batch) = {batch} + queue.queue := rfl
        rw [← total,split]
        simp only [pending,← coe_add,coe_singleton]
        abel
      · rcases invariant.phase with isOpen | nothing
        · refine Or.inl ⟨?_,isOpen.notFinishing,isOpen.counter⟩
          rw [isRest]
          exact isOpen.notFinished
        · exact Or.inr nothing
    · cases taken
      have nothing : pending s = 0 := by
        rcases invariant.phase with isOpen | nothing
        · rw [isOpen.notFinished] at finished
          cases finished
        · exact nothing
      exact ⟨invariant.total,invariant.feeding,Or.inr nothing,fun _ => ⟨nothing,empty⟩⟩

variable {queueSize batchQueueSize : Nat}

theorem run_invariant (run : Run step LastIsRegistered (initial queueSize batchQueueSize files) s) : Invariant files s := by
  apply run.invariant (Invariant.initial queueSize batchQueueSize)
  intro s action s' invariant isAllowed taken
  cases action with
  | feeder => exact makeParsers_invariant invariant taken
  | worker worker => exact functionForThread_invariant invariant isAllowed taken
  | getBatch => exact getBatch_invariant invariant taken

/-- In all runs where the counter does not drop to zero too early, the consumer gets every batch of every file once. -/
theorem allBatches_received (run : Run step LastIsRegistered (initial queueSize batchQueueSize files) s)
    (ended : s.sawNullopt = true) : s.received.Perm files.flatten := by
  have invariant := run_invariant run
  obtain ⟨nothing,empty⟩ := invariant.ended ended
  have total := invariant.total
  rw [nothing,empty,add_zero,coe_nil,add_zero] at total
  exact Multiset.coe_eq_coe.mp total

end Invariant

instance (s : State Batch Worker) : (action : Action Worker) → Decidable (LastIsRegistered s action)
  | .feeder => inferInstanceAs (Decidable True)
  | .getBatch => inferInstanceAs (Decidable True)
  | .worker worker =>
    match thread : s.workers worker with
    | .parsing [] => decidable_of_iff (s.numActiveParsers = 1 → ∀ file ∈ s.feeder.unregistered,file = []) (by simp only [LastIsRegistered,thread])
    | .idle | .finishing | .done | .parsing (_::_) => isTrue (by simp only [LastIsRegistered,thread])

/-- Both files are registered before the first one is parsed. -/
theorem allBatches_received_twoFiles : ∃ s : State Nat Unit,Run step LastIsRegistered (initial 10 10 [[1],[2]]) s ∧ s.sawNullopt = true ∧
    s.received.Perm [1,2] := by
  let actions : List (Action Unit) := [.feeder,.feeder,.feeder,.worker (),.worker (),.feeder,.worker (),.worker (),.worker (),.worker (),.worker (),
    .getBatch,.getBatch,.getBatch]
  obtain ⟨s,done⟩ := Option.isSome_iff_exists.mp
    (show (actions.foldlM (fun s action => if LastIsRegistered s action then step s action else none) (initial 10 10 [[1],[2]])).isSome = true by decide)
  have ended : (actions.foldlM (fun s action => if LastIsRegistered s action then step s action else none)
    (initial 10 10 [[1],[2]])).map State.sawNullopt = some true := by decide
  rw [done] at ended
  have run := Run.of_actions done
  exact ⟨s,run,Option.some.inj ended,allBatches_received run (Option.some.inj ended)⟩

/-- The first file is parsed completely before the second one is registered. -/
theorem not_allBatches_received : ∃ s : State Nat Unit,Run step Always (initial 10 10 [[1],[2]]) s ∧ s.sawNullopt = true ∧
    ¬ s.received.Perm [1,2] := by
  let actions : List (Action Unit) := [.feeder,.feeder,.worker (),.worker (),.worker (),.worker (),.getBatch,.getBatch]
  obtain ⟨s,done⟩ := Option.isSome_iff_exists.mp
    (show (actions.foldlM (fun s action => if Always s action then step s action else none) (initial 10 10 [[1],[2]])).isSome = true by decide)
  have ended : (actions.foldlM (fun s action => if Always s action then step s action else none)
    (initial 10 10 [[1],[2]])).map (fun s => (s.sawNullopt,s.received)) = some (true,[1]) := by decide
  rw [done] at ended
  obtain ⟨sawNullopt,received⟩ := Prod.mk.inj (Option.some.inj ended)
  refine ⟨s,Run.of_actions done,sawNullopt,?_⟩
  rw [received]
  decide

end RdfMultifileParser
end Qlever
