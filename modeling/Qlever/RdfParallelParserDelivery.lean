import Qlever.RdfParallelParserRuns

/-! Every run of the `RdfParallelParser` comes to an end, and it ends with all triples or with an exception.
-/
namespace Qlever
open Library List
open Option (bind_eq_bind bind_eq_none_iff)

namespace RdfParallelParser
variable {E Batch Triple Worker : Type} {source : Source E Batch Triple} {s s' : State E Batch Triple Worker} {worker : Worker}

section Reported

structure Reported (s : State E Batch Triple Worker) : Prop where
  finished : s.tripleCollector.pushedException.isSome = true → s.tripleCollector.finished = true
  waiting : s.consumer = .waiting → s.tripleCollector.pushedException.isSome = true
  messages : s.errorMessages = [] → s.consumer = .running ∨ s.consumer = .waiting →
    s.tripleCollector.pushedException = none ∧ (∀ error,s.feeder ≠ .throwing error) ∧ ∀ worker error,s.workers worker ≠ .throwing error
  checked : s.consumer ≠ .checkFailed

theorem Reported.initial (queueSize collectorSize : Nat) : Reported (initial source queueSize collectorSize : State E Batch Triple Worker) where
  finished := by simp [RdfParallelParser.initial]
  waiting := by simp [RdfParallelParser.initial]
  messages := by simp [RdfParallelParser.initial]
  checked := by simp [RdfParallelParser.initial]

theorem Reported.keep (reported : Reported s) (consumer : s'.consumer = s.consumer)
    (exception : s'.tripleCollector.pushedException = s.tripleCollector.pushedException)
    (finished : s.tripleCollector.finished = true → s'.tripleCollector.finished = true) (messages : s'.errorMessages = [] → s.errorMessages = [])
    (feeder : s'.errorMessages = [] → ∀ error,s'.feeder = .throwing error → s.feeder = .throwing error)
    (workers : s'.errorMessages = [] → ∀ worker error,s'.workers worker = .throwing error → s.workers worker = .throwing error) : Reported s' where
  finished isSome := finished (reported.finished (exception ▸ isSome))
  waiting isWaiting := by
    rw [exception]
    exact reported.waiting (consumer ▸ isWaiting)
  messages empty reads := by
    rw [consumer] at reads
    obtain ⟨noException,notFeeder,notWorker⟩ := reported.messages (messages empty) reads
    exact ⟨exception.trans noException,fun error same => notFeeder error (feeder empty error same),
      fun worker error same => notWorker worker error (workers empty worker error same)⟩
  checked := consumer ▸ reported.checked

theorem Reported.throw (reported : Reported s) (error : E) (stored : s.consumer = .running ∨ s.consumer = .waiting → s.errorMessages ≠ [])
    (consumer : s'.consumer = s.consumer) (messages : s'.errorMessages = s.errorMessages)
    (collector : s'.tripleCollector = s.tripleCollector.pushException error) : Reported s' where
  finished _ := by
    rw [collector]
    unfold ThreadSafeQueue.pushException
    split
    next isSome => exact reported.finished isSome
    next => rfl
  waiting _ := by
    rw [collector]
    exact pushException_isSome _ error
  messages empty reads := absurd (messages ▸ empty) (stored (consumer ▸ reads))
  checked := consumer ▸ reported.checked

variable [Fintype Worker]

theorem FeederStep.reported (reported : Reported s) (step : FeederStep source s s') : Reported s' := by
  cases step with
  | throw error feeder => exact reported.throw error (fun reads empty => (reported.messages empty reads).2.1 error feeder) rfl rfl rfl
  | report parsePosition error feeder =>
    exact reported.keep rfl rfl id (fun empty => by simp at empty) (fun empty => by simp at empty) (fun _ _ _ same => same)
  | finish call next queue feeder _ => exact reported.keep rfl rfl id id (fun _ error same => by cases next <;> cases same) (fun _ _ _ same => same)
  | _ => exact reported.keep rfl rfl id id (fun _ error same => by cases same) (fun _ _ _ same => same)

theorem Task.start_ne_throwing (task : Task Batch) (error : E) : (task.start source : Thread E Triple) ≠ .throwing error := by
  rcases task.start_cases source with started | ⟨_,started⟩ | ⟨_,_,started⟩ <;> simp [started]

variable [DecidableEq Worker]

omit [Fintype Worker] in
theorem Reported.moveThread (reported : Reported s) {t : State E Batch Triple Worker} {thread : Thread E Triple} (consumer : t.consumer = s.consumer)
    (exception : t.tripleCollector.pushedException = s.tripleCollector.pushedException)
    (finished : s.tripleCollector.finished = true → t.tripleCollector.finished = true) (messages : t.errorMessages = [] → s.errorMessages = [])
    (feeder : t.feeder = s.feeder) (workers : t.workers = s.workers) (own : t.errorMessages = [] → ∀ error,thread ≠ .throwing error) :
    Reported (t.setWorker worker thread) := by
  refine reported.keep consumer exception finished messages (fun _ error same => feeder.symm.trans same) (fun empty other error same => ?_)
  rcases setWorker_cases same with ⟨_,isOwn⟩ | before
  · exact absurd isOwn (own empty error)
  · exact workers ▸ before

theorem ThreadStep.reported (reported : Reported s) (step : ThreadStep source worker s s') : Reported s' := by
  cases step with
  | throw error thread => exact reported.throw error (fun reads empty => (reported.messages empty reads).2.2 worker error thread) rfl rfl rfl
  | report parsePosition error thread => exact reported.moveThread rfl rfl id (fun empty => by simp at empty) rfl rfl (fun empty => by simp at empty)
  | start task queue thread isQueue => exact reported.moveThread rfl rfl id id rfl rfl (fun _ => Task.start_ne_throwing task)
  | finishCollector thread => exact reported.moveThread rfl rfl (fun _ => rfl) id rfl rfl (fun _ => by simp)
  | finish call next queue thread _ => exact reported.moveThread rfl rfl id id rfl rfl (fun _ error => by cases next <;> simp [Thread.resume])
  | _ => exact reported.moveThread rfl rfl id id rfl rfl (fun _ => by simp)

section
omit [Fintype Worker] [DecidableEq Worker]

theorem firstError_isSome {errorMessages : List (Nat × E)} (stored : errorMessages ≠ []) : ∃ error,firstError errorMessages = some error := by
  cases found : errorMessages.argmin Prod.fst with
  | none => exact absurd (argmin_eq_none.mp found) stored
  | some message => exact ⟨message.2,by rw [firstError,found]; rfl⟩

theorem ConsumerStep.reported (reported : Reported s) (step : ConsumerStep s s') : Reported s' := by
  cases step with
  | take triples taken running some same | pop triples queue running empty noException isQueue => exact reported.keep rfl rfl id id (fun _ _ same => same) (fun _ _ _ same => same)
  | stop running empty noException noTriples finished | rethrow error running exception => exact ⟨reported.finished,by simp,by simp,by simp⟩
  | wait running exception => exact ⟨reported.finished,fun _ => exception,fun empty _ => reported.messages empty (Or.inl running),by simp⟩
  | throw waiting finished =>
    have isSome := reported.waiting waiting
    have stored : s.errorMessages ≠ [] := by
      intro empty
      rw [(reported.messages empty (Or.inr waiting)).1] at isSome
      cases isSome
    obtain ⟨error,found⟩ := firstError_isSome stored
    rw [found]
    exact ⟨reported.finished,by simp,by simp,by simp⟩

end

end Reported

section Sizes

def Sizes (s : State E Batch Triple Worker) : Prop := 0 < s.parallelParser.queuedTasks.maxSize ∧ 0 < s.tripleCollector.maxSize

theorem finish_maxSize {q q' : TaskQueue (Task Batch)} {othersDone : Bool} {next : TaskQueueFinish} {next' : Option TaskQueueFinish}
    (taken : q.finish othersDone next = some (next',q')) : q'.queuedTasks.maxSize = q.queuedTasks.maxSize := by
  rcases finish_cases taken with ⟨_,_,_,same⟩ | ⟨_,_,_,same⟩ | ⟨_,_,same⟩ | ⟨_,_,_,same⟩ <;> rw [same]; rfl

theorem pushException_maxSize (collector : ThreadSafeQueue E (List Triple)) (error : E) : (collector.pushException error).maxSize = collector.maxSize := by
  unfold ThreadSafeQueue.pushException
  split <;> rfl

variable [Fintype Worker]

theorem FeederStep.sizes (sizes : Sizes s) (step : FeederStep source s s') : Sizes s' := by
  cases step with
  | throw error feeder => exact ⟨sizes.1,(pushException_maxSize s.tripleCollector error).symm ▸ sizes.2⟩
  | finish call next queue feeder finishing => exact ⟨(finish_maxSize finishing).symm ▸ sizes.1,sizes.2⟩
  | _ => exact sizes

theorem ThreadStep.sizes [DecidableEq Worker] (sizes : Sizes s) (step : ThreadStep source worker s s') : Sizes s' := by
  cases step with
  | throw error feeder => exact ⟨sizes.1,(pushException_maxSize s.tripleCollector error).symm ▸ sizes.2⟩
  | finish call next queue feeder finishing => exact ⟨(finish_maxSize finishing).symm ▸ sizes.1,sizes.2⟩
  | _ => exact sizes

omit [Fintype Worker] in
theorem ConsumerStep.sizes (sizes : Sizes s) (step : ConsumerStep s s') : Sizes s' := by
  cases step <;> exact sizes

end Sizes

structure Invariant [Fintype Worker] (source : Source E Batch Triple) (s : State E Batch Triple Worker) : Prop where
  taskQueue : TaskQueueInvariant s
  phase : Open source s ∨ Failed source s
  reported : Reported s
  sizes : Sizes s

theorem run_invariant [Fintype Worker] [DecidableEq Worker] {queueSize collectorSize : Nat} (positiveQueue : 0 < queueSize)
    (positiveCollector : 0 < collectorSize) (run : Run (step source) Always (initial source queueSize collectorSize) s) : Invariant source s := by
  apply run.invariant
  · exact ⟨TaskQueueInvariant.initial queueSize collectorSize,Or.inl (Open.initial queueSize collectorSize),Reported.initial queueSize collectorSize,
      positiveQueue,positiveCollector⟩
  · intro s action s' invariant _ taken
    refine step_cases (Invariant source) taken (fun s' step => ?_) (fun worker s' step => ?_) (fun s' step => ?_)
    · exact ⟨step.taskQueue invariant.taskQueue,invariant.phase.elim (step.open invariant.taskQueue) (fun failed => Or.inr (step.failed failed)),
        step.reported invariant.reported,step.sizes invariant.sizes⟩
    · exact ⟨step.taskQueue invariant.taskQueue,invariant.phase.elim step.open (fun failed => Or.inr (step.failed failed)),
        step.reported invariant.reported,step.sizes invariant.sizes⟩
    · exact ⟨step.taskQueue invariant.taskQueue,invariant.phase.elim (fun isOpen => Or.inl (step.open isOpen)) (fun failed => Or.inr (step.failed failed)),
        step.reported invariant.reported,step.sizes invariant.sizes⟩

section Progress
variable [Fintype Worker] [DecidableEq Worker]

omit [DecidableEq Worker] in
theorem feeder_waits (waits : feedBatchesToParser source s = none) :
    s.feeder = .done ∨ s.feeder = .finishing .join ∧ (∃ worker,(s.workers worker).isDone = false) ∨
      s.parallelParser.queuedTasks.finished = false ∧ s.parallelParser.queuedTasks.maxSize ≤ s.parallelParser.queuedTasks.queue.length := by
  cases feeder : s.feeder with
  | done => exact Or.inl rfl
  | next parsePosition batches => cases batches <;> simp [feedBatchesToParser,feeder] at waits
  | pushing parsePosition batch batches | cleanup =>
    simp only [feedBatchesToParser,feeder,bind_eq_bind,bind_eq_none_iff] at waits
    exact Or.inr (Or.inr (ThreadSafeQueue.push_eq_none (Option.eq_none_iff_forall_ne_some.mpr (fun result same => by simpa using waits result same))))
  | failing parsePosition error | throwing error => simp [feedBatchesToParser,feeder] at waits
  | finishing call =>
    cases call with
    | testAndSet | finishQueue => simp [feedBatchesToParser,feeder,TaskQueue.finish] at waits
    | join =>
      refine Or.inr (Or.inl ⟨rfl,?_⟩)
      simpa [feedBatchesToParser,feeder,TaskQueue.finish] using waits

theorem thread_waits (waits : functionForThread source worker s = none) :
    s.workers worker = .done ∨ s.workers worker = .finishing .join ∧ (∃ other,other ≠ worker ∧ (s.workers other).isDone = false) ∨
      s.workers worker = .idle ∧ s.parallelParser.queuedTasks.queue = [] ∧ s.parallelParser.queuedTasks.finished = false ∨
      s.tripleCollector.finished = false ∧ s.tripleCollector.maxSize ≤ s.tripleCollector.queue.length := by
  cases thread : s.workers worker with
  | done => exact Or.inl rfl
  | idle =>
    simp only [functionForThread,thread,bind_eq_bind,bind_eq_none_iff] at waits
    have none : s.parallelParser.queuedTasks.pop = none := by
      apply Option.eq_none_iff_forall_ne_some.mpr
      intro result same
      have absurd := waits result same
      obtain ⟨task,queue⟩ := result
      cases task <;> simp at absurd
    obtain ⟨_,empty,notFinished⟩ := ThreadSafeQueue.pop_eq_none none
    exact Or.inr (Or.inr (Or.inl ⟨rfl,empty,notFinished⟩))
  | pushing triples =>
    simp only [functionForThread,thread,bind_eq_bind,bind_eq_none_iff] at waits
    have none : s.tripleCollector.push triples = none := Option.eq_none_iff_forall_ne_some.mpr (fun result same => by simpa using waits result same)
    exact Or.inr (Or.inr (Or.inr (ThreadSafeQueue.push_eq_none none)))
  | finishing call =>
    cases call with
    | testAndSet | finishQueue => simp [functionForThread,thread,TaskQueue.finish] at waits
    | join =>
      refine Or.inr (Or.inl ⟨rfl,?_⟩)
      simpa [functionForThread,thread,TaskQueue.finish] using waits
  | counting | comparing _ | finishingCollector | failing _ _ | throwing _ => simp [functionForThread,thread] at waits

omit [Fintype Worker] [DecidableEq Worker] in
theorem consumer_waits (waits : getLineImpl s = none) :
    s.consumer = .ended ∨ (∃ error,s.consumer = .threw error) ∨ s.consumer = .checkFailed ∨
      s.consumer = .waiting ∧ s.parallelParser.finishedFinishing = false ∨
      s.consumer = .running ∧ s.tripleCollector.pushedException = none ∧ s.tripleCollector.queue = [] ∧ s.tripleCollector.finished = false := by
  cases consumer : s.consumer with
  | ended => exact Or.inl rfl
  | threw error => exact Or.inr (Or.inl ⟨error,rfl⟩)
  | checkFailed => exact Or.inr (Or.inr (Or.inl rfl))
  | waiting => simpa [getLineImpl,consumer] using waits
  | running =>
    simp only [getLineImpl,consumer] at waits
    split at waits
    next => cases waits
    next =>
      simp only [bind_eq_bind,bind_eq_none_iff] at waits
      have none : s.tripleCollector.pop = none := by
        apply Option.eq_none_iff_forall_ne_some.mpr
        intro result same
        have absurd := waits result same
        obtain ⟨task,queue⟩ := result
        cases task <;> simp at absurd
      exact Or.inr (Or.inr (Or.inr (Or.inr ⟨rfl,ThreadSafeQueue.pop_eq_none none⟩)))

section
omit [DecidableEq Worker]

theorem callsAt_pos_of_worker (point : TaskQueueFinish) (thread : s.workers worker = .finishing point) : 0 < callsAt point s := by
  have single : (s.workers worker).at point ≤ ∑ other,(s.workers other).at point :=
    Finset.single_le_sum (f := fun other => (s.workers other).at point) (fun _ _ => Nat.zero_le _) (Finset.mem_univ worker)
  have own : (s.workers worker).at point = 1 := by simp [thread,Thread.at]
  simp only [callsAt]
  omega

theorem TaskQueueInvariant.finished_of_join (invariant : TaskQueueInvariant s) (positive : 0 < callsAt .join s) :
    s.parallelParser.queuedTasks.finished = true ∧ s.parallelParser.finishedFinishing = false ∧ callsAt .join s = 1 := by
  have joined := invariant.joined
  have bounded := Bool.toNat_le s.parallelParser.queuedTasks.finished
  exact ⟨Bool.toNat_eq_one.mp (by omega),Bool.toNat_eq_zero.mp (by omega),by omega⟩

end

theorem other_of_join (invariant : TaskQueueInvariant s) (point : s.workers worker = .finishing .join) {other : Worker} (different : other ≠ worker) :
    s.workers other ≠ .finishing .join := by
  intro same
  have removed := callsAt_setWorker .join s worker .done
  have once := (invariant.finished_of_join (callsAt_pos_of_worker .join point)).2.2
  have kept : (s.setWorker worker .done).workers other = .finishing .join := by simpa [State.setWorker,Function.update_of_ne different] using same
  have still := callsAt_pos_of_worker .join kept
  simp only [point,Thread.at,if_true] at removed
  omega

theorem all_done [Nonempty Worker] (invariant : Invariant source s) (stuck : ∀ action,step source s action = none)
    (notEnded : s.consumer = .running ∨ s.consumer = .waiting) : s.feeder = .done ∧ ∀ worker,s.workers worker = .done := by
  -- As the consumer waits for the collector or gets an exception, no thread waits for the collector.
  have collector : ¬ (s.tripleCollector.finished = false ∧ s.tripleCollector.maxSize ≤ s.tripleCollector.queue.length) := by
    intro full
    obtain ⟨notFinished,full⟩ := full
    have size := invariant.sizes.2
    rcases consumer_waits (stuck .getLine) with same | ⟨_,same⟩ | same | ⟨waiting,_⟩ | ⟨_,_,empty,_⟩
    · rcases notEnded with other | other <;> cases same.symm.trans other
    · rcases notEnded with other | other <;> cases same.symm.trans other
    · rcases notEnded with other | other <;> cases same.symm.trans other
    · rw [invariant.reported.finished (invariant.reported.waiting waiting)] at notFinished
      cases notFinished
    · rw [empty,length_nil] at full
      omega
  have noJoin : ∀ worker,s.workers worker ≠ .finishing .join := by
    intro worker point
    have isFinished := (invariant.taskQueue.finished_of_join (callsAt_pos_of_worker .join point)).1
    rcases thread_waits (stuck (.worker worker)) with isDone | ⟨_,other,different,notDone⟩ | ⟨_,_,notFinished⟩ | full
    · cases point.symm.trans isDone
    · rcases thread_waits (stuck (.worker other)) with isDone | ⟨joins,_⟩ | ⟨_,_,notFinished⟩ | full
      · rw [isDone] at notDone
        cases notDone
      · exact other_of_join invariant.taskQueue point different joins
      · rw [isFinished] at notFinished
        cases notFinished
      · exact collector full
    · rw [isFinished] at notFinished
      cases notFinished
    · exact collector full
  have shape : ∀ worker,s.workers worker = .done ∨
      s.workers worker = .idle ∧ s.parallelParser.queuedTasks.queue = [] ∧ s.parallelParser.queuedTasks.finished = false := by
    intro worker
    rcases thread_waits (stuck (.worker worker)) with isDone | ⟨joins,_⟩ | isIdle | full
    · exact Or.inl isDone
    · exact absurd joins (noJoin worker)
    · exact Or.inr isIdle
    · exact absurd full collector
  have done : s.parallelParser.queuedTasks.finished = true → ∀ worker,s.workers worker = .done := by
    intro finished worker
    rcases shape worker with isDone | ⟨_,_,notFinished⟩
    · exact isDone
    · rw [finished] at notFinished
      cases notFinished
  rcases feeder_waits (stuck .feeder) with isDone | ⟨joins,worker,notDone⟩ | ⟨notFinished,full⟩
  · refine ⟨isDone,done ?_⟩
    -- The call of `finish` that started is neither at its queue nor before its end.
    have started := invariant.taskQueue.started
    rw [invariant.taskQueue.feederDone isDone,Bool.toNat_true] at started
    have noCall : callsAt .finishQueue s = 0 := by
      simp only [callsAt,isDone,Feeder.at,zero_add]
      apply Finset.sum_eq_zero
      intro worker _
      rcases shape worker with same | ⟨same,_⟩ <;> rw [same] <;> rfl
    exact Bool.toNat_eq_one.mp (by omega)
  · have finished := (invariant.taskQueue.finished_of_join (s := s) (by simp only [callsAt,joins,Feeder.at,if_true]; omega)).1
    rw [done finished worker] at notDone
    cases notDone
  · obtain ⟨worker⟩ := ‹Nonempty Worker›
    have size := invariant.sizes.1
    rcases shape worker with isDone | ⟨_,empty,_⟩
    · rw [(invariant.taskQueue.workerDone worker isDone).1] at notFinished
      cases notFinished
    · rw [empty,length_nil] at full
      omega

theorem stuck_ended [Nonempty Worker] (invariant : Invariant source s) (stuck : ∀ action,step source s action = none) :
    s.consumer = .ended ∨ ∃ error,s.consumer = .threw error := by
  rcases consumer_waits (stuck .getLine) with ended | threw | failed | ⟨waiting,notFinished⟩ | ⟨running,noException,_,notFinished⟩
  · exact Or.inl ended
  · exact Or.inr threw
  · exact absurd failed invariant.reported.checked
  · obtain ⟨feeder,threads⟩ := all_done invariant stuck (Or.inr waiting)
    obtain ⟨worker⟩ := ‹Nonempty Worker›
    have joined := invariant.taskQueue.joined
    have noCall : callsAt .join s = 0 := by simp [callsAt,feeder,threads,Feeder.at,Thread.at]
    rw [notFinished,noCall,(invariant.taskQueue.workerDone worker (threads worker)).1] at joined
    cases joined
  · obtain ⟨feeder,threads⟩ := all_done invariant stuck (Or.inl running)
    obtain ⟨worker⟩ := ‹Nonempty Worker›
    rcases invariant.phase with isOpen | failed
    · have closed := isOpen.counting.closing
      have noCalls : pendingCalls s = 0 := by
        simp [pendingCalls,feeder,threads,Feeder.calls,Thread.calls,(invariant.taskQueue.workerDone worker (threads worker)).2]
      have nobody : closing s = 0 := by simp [closing,threads,Thread.closing]
      have finished := isOpen.counting.finished
      rw [if_pos noCalls,nobody] at closed
      rw [notFinished,Bool.toNat_false] at finished
      omega
    · have exception := failed.exception
      rw [noException] at exception
      cases exception

end Progress

section Termination

def finishWeight : Option TaskQueueFinish → Nat
  | some .testAndSet => 3
  | some .finishQueue => 2
  | some .join => 1
  | none => 0

def Thread.weight : Thread E Triple → Nat
  | .pushing triples => triples.length + 6
  | .counting => 4
  | .comparing _ => 3
  | .finishingCollector => 2
  | .failing _ _ => 6
  | .throwing _ => 5
  | .finishing call => finishWeight (some call) + 1
  | .idle => 1
  | .done => 0

def Task.weight (source : Source E Batch Triple) (task : Task Batch) : Nat := (task.start source : Thread E Triple).weight

def batchesWeight (source : Source E Batch Triple) : Nat → List Batch → Nat
  | _,[] => 11
  | parsePosition,batch::batches =>
    (Task.parseBatch parsePosition batch).weight source + 2 + batchesWeight source (parsePosition + source.size batch) batches

theorem batchesWeight_ge (source : Source E Batch Triple) (parsePosition : Nat) (batches : List Batch) : 11 ≤ batchesWeight source parsePosition batches := by
  induction batches generalizing parsePosition with
  | nil => simp [batchesWeight]
  | cons batch batches ih =>
    have rest := ih (parsePosition + source.size batch)
    rw [batchesWeight]
    omega

def Feeder.weight (source : Source E Batch Triple) : Feeder E Batch → Nat
  | .next parsePosition batches => batchesWeight source parsePosition batches
  | .pushing parsePosition batch batches =>
    (Task.parseBatch parsePosition batch).weight source + 1 + batchesWeight source (parsePosition + source.size batch) batches
  | .failing _ _ => 10
  | .throwing _ => 9
  | .cleanup => 8
  | .finishing call => finishWeight (some call)
  | .done => 0

def Consumer.weight : Consumer E → Nat
  | .running => 2
  | .waiting => 1
  | _ => 0

section
variable {q q' : TaskQueue (Task Batch)} {othersDone : Bool} {next : TaskQueueFinish} {next' : Option TaskQueueFinish}
  (taken : q.finish othersDone next = some (next',q'))
include taken

theorem finish_weight : finishWeight next' < finishWeight (some next) := by
  rcases finish_cases taken with ⟨rfl,_,rfl,_⟩ | ⟨rfl,_,rfl,_⟩ | ⟨rfl,rfl,_⟩ | ⟨rfl,_,rfl,_⟩ <;> decide

theorem finish_tasks : q'.queuedTasks.queue = q.queuedTasks.queue := by
  rcases finish_cases taken with ⟨_,_,_,same⟩ | ⟨_,_,_,same⟩ | ⟨_,_,same⟩ | ⟨_,_,_,same⟩ <;> rw [same]; rfl

end

theorem pushException_queue (collector : ThreadSafeQueue E (List Triple)) (error : E) : (collector.pushException error).queue = collector.queue := by
  unfold ThreadSafeQueue.pushException
  split <;> rfl

variable [Fintype Worker]

def weight (source : Source E Batch Triple) (s : State E Batch Triple Worker) : Nat :=
  s.feeder.weight source + (s.parallelParser.queuedTasks.queue.map (Task.weight source)).sum + (∑ worker,(s.workers worker).weight) +
    (s.tripleCollector.queue.map (·.length + 1)).sum + s.triples.length + s.consumer.weight

theorem FeederStep.weight_lt (step : FeederStep source s s') : weight source s' < weight source s := by
  cases step with
  | register parsePosition batch batches feeder | endOfFile parsePosition feeder noError | readError parsePosition error feeder isError =>
    simp only [weight,feeder,Feeder.weight,batchesWeight]
    omega
  | push parsePosition batch batches feeder notFinished =>
    simp only [weight,feeder,Feeder.weight,State.setTasks,map_append,map_singleton,sum_append,sum_singleton]
    omega
  | drop parsePosition batch batches feeder finished =>
    have rest := batchesWeight_ge source (parsePosition + source.size batch) batches
    simp only [weight,feeder,Feeder.weight]
    omega
  | report parsePosition error feeder =>
    simp only [weight,feeder,Feeder.weight]
    omega
  | throw error feeder =>
    simp only [weight,feeder,Feeder.weight,pushException_queue]
    omega
  | pushLast feeder notFinished =>
    have last : (Task.finishTripleCollectorIfLastBatch : Task Batch).weight source = 4 := rfl
    simp only [weight,feeder,Feeder.weight,State.setTasks,map_append,map_singleton,sum_append,sum_singleton,last,finishWeight]
    omega
  | dropLast feeder finished =>
    simp only [weight,feeder,Feeder.weight,finishWeight]
    omega
  | finish call next queue feeder finishing =>
    have less := finish_weight finishing
    have resumed : (Feeder.resume next : Feeder E Batch).weight source = finishWeight next := by cases next <;> rfl
    simp only [weight,feeder,resumed,finish_tasks finishing]
    rw [Feeder.weight]
    omega

variable [DecidableEq Worker]

theorem weight_setWorker {t : State E Batch Triple Worker} {before after : Thread E Triple} (workers : t.workers = s.workers)
    (thread : s.workers worker = before) (less : weight source t + after.weight < weight source s + before.weight) :
    weight source (t.setWorker worker after) < weight source s := by
  have moved := sum_update Thread.weight t.workers worker after
  rw [workers,thread] at moved
  simp only [weight,State.setWorker,workers] at less ⊢
  omega

theorem ThreadStep.weight_lt (step : ThreadStep source worker s s') : weight source s' < weight source s := by
  cases step with
  | start task queue thread isQueue =>
    refine weight_setWorker rfl thread ?_
    have shorter : weight source (s.setTasks queue) + task.weight source = weight source s := by
      simp only [weight,State.setTasks,isQueue,map_cons,sum_cons]
      omega
    rw [Task.weight] at shorter
    rw [shorter]
    exact Nat.lt_succ_self _
  | stop thread empty finished | isLast thread | notLast old thread different => exact weight_setWorker rfl thread (Nat.add_lt_add_left (by simp [Thread.weight]) _)
  | push triples thread notFinished =>
    refine weight_setWorker rfl thread ?_
    simp only [weight,Thread.weight,map_append,map_singleton,sum_append,sum_singleton]
    omega
  | drop triples thread finished =>
    refine weight_setWorker rfl thread (Nat.add_lt_add_left ?_ _)
    simp only [Thread.weight]
    omega
  | count thread | finishCollector thread | report parsePosition error thread => exact weight_setWorker rfl thread (Nat.add_lt_add_left (by simp [Thread.weight]) (weight source s))
  | throw error thread =>
    refine weight_setWorker rfl thread ?_
    simp only [weight,Thread.weight,finishWeight,pushException_queue]
    omega
  | finish call next queue thread finishing =>
    have less := finish_weight finishing
    have resumed : (Thread.resume next : Thread E Triple).weight = finishWeight next + 1 := by cases next <;> rfl
    refine weight_setWorker rfl thread ?_
    rw [resumed]
    simp only [weight,finish_tasks finishing,Thread.weight]
    omega

omit [DecidableEq Worker] in
theorem ConsumerStep.weight_lt (step : ConsumerStep s s') : weight source s' < weight source s := by
  cases step with
  | take triples taken running some same =>
    have positive := length_pos_iff.mpr some
    simp only [weight,same,length_append]
    omega
  | pop triples queue running empty noException isQueue =>
    simp only [weight,empty,isQueue,map_cons,sum_cons,length_nil]
    omega
  | stop running empty noException noTriples finished | wait running exception | rethrow error running exception =>
    simp only [weight,running,Consumer.weight]
    omega
  | throw waiting finished =>
    simp only [weight,waiting]
    cases firstError s.errorMessages <;> simp [Consumer.weight]

theorem step_weight {action : Action Worker} (taken : step source s action = some s') : weight source s' < weight source s :=
  step_cases (weight source · < weight source s) taken (fun _ => FeederStep.weight_lt) (fun _ _ => ThreadStep.weight_lt) (fun _ => ConsumerStep.weight_lt)

end Termination

section Delivered
variable [Fintype Worker]

section
variable (isOpen : Open source s) (finished : s.numFinishes = 1)
include isOpen finished

theorem Open.all_pushed : pendingResults source s = 0 ∧ source.error = none := by
  have noCalls : pendingCalls s = 0 := by
    have closed := isOpen.counting.closing
    by_contra some
    rw [if_neg some] at closed
    omega
  simp only [pendingCalls,Nat.add_eq_zero_iff,length_eq_zero_iff,Finset.sum_eq_zero_iff,Finset.mem_univ,true_implies] at noCalls
  obtain ⟨⟨noFeeder,noTasks⟩,noThreads⟩ := noCalls
  have threads : ∀ worker,(s.workers worker).results = 0 := by
    intro worker
    have none := noThreads worker
    cases thread : s.workers worker with
    | pushing _ | failing _ _ | throwing _ => simp [thread,Thread.calls] at none
    | _ => rfl
  have reads := isOpen.reads
  cases feeder : s.feeder with
  | finishing call | done =>
    rw [feeder] at reads
    exact ⟨by simp [pendingResults,feeder,Feeder.results,noTasks,threads],reads⟩
  | _ => simp [feeder,Feeder.calls] at noFeeder

theorem Open.results_eq :
    (s.pushed.map Except.ok : List (Except E (List Triple))).Perm (source.results 0 source.batches) := by
  have results := isOpen.contents.results
  rw [(isOpen.all_pushed finished).1,add_zero] at results
  exact Multiset.coe_eq_coe.mp results

theorem Open.pushed_perm {parsed : List (List Triple)} (succeeds : source.Succeeds parsed) :
    s.pushed.Perm parsed := by
  have results := isOpen.results_eq finished
  rw [succeeds.2] at results
  have injective : Function.Injective (Except.ok : List Triple → Except E (List Triple)) := fun _ _ same => Except.ok.inj same
  exact (map_perm_map_iff injective).mp results

theorem Open.not_fails : ¬ source.Fails := by
  intro fails
  rcases fails with reader | ⟨error,member⟩
  · rw [(isOpen.all_pushed finished).2] at reader
    cases reader
  · have isOk := (isOpen.results_eq finished).mem_iff.mpr member
    simp at isOk

end

theorem Open.received_perm (isOpen : Open source s) (ended : s.consumer = .ended) : s.numFinishes = 1 ∧ s.received.Perm s.pushed.flatten := by
  rcases isOpen.consumer with running | ⟨_,once,empty,noTriples⟩
  · cases running.symm.trans ended
  · have triples := isOpen.contents.triples
    rw [empty,noTriples,flatten_nil,Multiset.coe_nil,add_zero,add_zero] at triples
    exact ⟨once,Multiset.coe_eq_coe.mp triples⟩

variable [DecidableEq Worker]

/-- What holds in a state. A state where nobody can move is the end of a run, and there are no infinite runs. -/
structure Delivered (source : Source E Batch Triple) (s : State E Batch Triple Worker) : Prop where
  finishedOnce : ∀ parsed,source.Succeeds parsed → s.numFinishes ≤ 1 ∧ (s.tripleCollector.finished = true ↔ s.numFinishes = 1)
  afterAllBatches : ∀ parsed,source.Succeeds parsed → s.numFinishes = 1 → s.pushed.Perm parsed
  noException : ∀ parsed,source.Succeeds parsed → s.consumer = .running ∨ s.consumer = .ended
  allReceived : ∀ parsed,source.Succeeds parsed → s.consumer = .ended → s.received.Perm parsed.flatten
  ends : ∀ parsed,source.Succeeds parsed → (∀ action,step source s action = none) → s.consumer = .ended ∧ s.numFinishes = 1
  noRegularEnd : source.Fails → s.consumer ≠ .ended
  throws : source.Fails → (∀ action,step source s action = none) → ∃ error,s.consumer = .threw error
  terminates : ∀ (actions : List (Action Worker)) last,actions.foldlM (step source) s = some last → actions.length ≤ weight source s

theorem batches_delivered [Nonempty Worker] {queueSize collectorSize : Nat} (positiveQueue : 0 < queueSize) (positiveCollector : 0 < collectorSize)
    (run : Run (step source) Always (initial source queueSize collectorSize) s) : Delivered source s := by
  have invariant := run_invariant positiveQueue positiveCollector run
  have isOpen : ∀ {parsed},source.Succeeds parsed → Open source s := fun succeeds =>
    invariant.phase.resolve_right (fun failed => succeeds.not_fails failed.fails)
  have noRegularEnd : source.Fails → s.consumer ≠ .ended := by
    intro fails ended
    rcases invariant.phase with isOpen | failed
    · exact isOpen.not_fails (isOpen.received_perm ended).1 fails
    · exact failed.notEnded ended
  have noException : ∀ parsed,source.Succeeds parsed → s.consumer = .running ∨ s.consumer = .ended := fun parsed succeeds =>
    (isOpen succeeds).consumer.imp id And.left
  exact
    { finishedOnce := by
        intro parsed succeeds
        have counting := (isOpen succeeds).counting
        have bounded := Bool.toNat_le s.tripleCollector.finished
        rw [← counting.finished]
        exact ⟨bounded,Bool.toNat_eq_one.symm⟩
      afterAllBatches := fun parsed succeeds finished => (isOpen succeeds).pushed_perm finished succeeds
      noException := noException
      allReceived := by
        intro parsed succeeds ended
        obtain ⟨finished,received⟩ := (isOpen succeeds).received_perm ended
        exact received.trans ((isOpen succeeds).pushed_perm finished succeeds).flatten
      ends := by
        intro parsed succeeds stuck
        rcases stuck_ended invariant stuck with ended | ⟨error,threw⟩
        · exact ⟨ended,((isOpen succeeds).received_perm ended).1⟩
        · rcases noException parsed succeeds with other | other <;> cases other.symm.trans threw
      noRegularEnd := noRegularEnd
      throws := fun fails stuck => (stuck_ended invariant stuck).resolve_left (noRegularEnd fails)
      terminates := by
        intro actions last done
        have bound := length_le_measure (fun _ _ _ taken => step_weight taken) done
        omega }

end Delivered

/-- Two batches, of which the second one is parsed first. -/
theorem batches_delivered_twoBatches : ∃ s : State Unit Nat Nat Bool,
    Run (step ⟨[1,2],none,fun _ => 1,fun _ batch => .ok [batch]⟩) Always (initial ⟨[1,2],none,fun _ => 1,fun _ batch => .ok [batch]⟩ 10 10) s ∧
    s.consumer = .ended ∧ s.received.Perm [1,2] := by
  let source : Source Unit Nat Nat := ⟨[1,2],none,fun _ => 1,fun _ batch => .ok [batch]⟩
  let actions : List (Action Bool) := [.feeder,.feeder,.worker true,.feeder,.feeder,.worker false,.feeder,.feeder,.worker false,.worker false,.worker false,
    .worker false,.worker false,.worker false,.worker true,.worker true,.worker true,.worker true,.getLine,.getLine,.getLine,.getLine,.getLine]
  obtain ⟨s,done⟩ := Option.isSome_iff_exists.mp
    (show (actions.foldlM (fun s action => if Always s action then step source s action else none) (initial source 10 10)).isSome = true by decide +kernel)
  have ended : (actions.foldlM (fun s action => if Always s action then step source s action else none) (initial source 10 10)).map State.consumer =
    some .ended := by decide +kernel
  rw [done] at ended
  have run := Run.of_actions done
  have isEnded : s.consumer = .ended := Option.some.inj ended
  exact ⟨s,run,isEnded,(batches_delivered (by decide) (by decide) run).allReceived [[1],[2]] ⟨rfl,rfl⟩ isEnded⟩

end RdfParallelParser
end Qlever
