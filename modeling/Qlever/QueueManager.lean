import Qlever.OrderedThreadSafeQueue

/-! All interleavings of the threads of `queueManager` and its consumer: the values arrive in the order of their indices, and every run
ends with all of them or with an exception.
-/
namespace Qlever
open Library List

namespace OrderedThreadSafeQueue
variable {E T Thread : Type} {producers : Thread → Producer E} {value : Nat → T} {n : Nat}

/-- Every index below `n` is yielded by exactly one thread, and each thread yields its indices in increasing order. -/
structure Distributed (n : Nat) (producers : Thread → Producer E) : Prop where
  increasing : ∀ thread,(producers thread).indices.Pairwise (· < ·)
  bound : ∀ thread,∀ index ∈ (producers thread).indices,index < n
  covers : ∀ index < n,∃ thread,index ∈ (producers thread).indices
  distinct : ∀ thread other index,index ∈ (producers thread).indices → index ∈ (producers other).indices → thread = other

theorem Producer.yielded_isPrefix (producer : Producer E) : producer.yielded <+: producer.indices := by
  unfold Producer.yielded
  split
  · exact List.take_prefix _ _
  · exact prefix_refl _

theorem Producer.yielded_eq {producer : Producer E} (returns : producer.throws = none) : producer.yielded = producer.indices := by
  unfold Producer.yielded
  rw [returns]

namespace Task

def remaining : Task → List Nat
  | calling indices => indices
  | waiting index indices => index::indices
  | pushing _ indices => indices
  | unlocking _ indices => indices
  | _ => []

def holdsLock : Task → Bool
  | pushing _ _ => true
  | unlocking _ _ => true
  | _ => false

def beforeException : Task → Bool
  | calling _ => true
  | waiting _ _ => true
  | pushing _ _ => true
  | unlocking _ _ => true
  | throwing => true
  | _ => false

def counted : Task → Nat
  | checking => 0
  | finishing => 0
  | finishingOuter => 0
  | done => 0
  | _ => 1

def afterFinish : Task → Bool
  | unlocking false _ => true
  | throwingOuter => true
  | finishingOuter => true
  | _ => false

def inFlight : Task → Nat
  | pushing _ _ => 1
  | _ => 0

end Task

def Consumer.outcome : Consumer E → Option (Outcome E)
  | running => none
  | finishing outcome => some outcome
  | finishingOuter outcome => some outcome
  | done outcome => some outcome

variable [DecidableEq Thread] {s s' : State E T Thread} {thread : Thread}

section
variable (s : State E T Thread) (thread : Thread)

@[simp] theorem tasks_setTask (other : Thread) (task : Task) :
    (s.setTask thread task).tasks other = if other = thread then task else s.tasks other := by
  simp [State.setTask,Function.update_apply]

section
variable (task : Task)

@[simp] theorem queue_setTask : (s.setTask thread task).queue = s.queue := rfl
@[simp] theorem lock_setTask : (s.setTask thread task).lock = s.lock := rfl
@[simp] theorem nextIndex_setTask : (s.setTask thread task).nextIndex = s.nextIndex := rfl
@[simp] theorem finished_setTask : (s.setTask thread task).finished = s.finished := rfl
@[simp] theorem consumer_setTask : (s.setTask thread task).consumer = s.consumer := rfl
@[simp] theorem received_setTask : (s.setTask thread task).received = s.received := rfl
@[simp] theorem numUnfinishedThreads_setTask :
    (s.setTask thread task).numUnfinishedThreads = s.numUnfinishedThreads := rfl

end

end

section Flags

def Locking (s : State E T Thread) : Prop := ∀ thread,s.lock = some thread ↔ (s.tasks thread).holdsLock = true

theorem Locking.move (locking : Locking s) (move : Moves producers value s thread s') : Locking s' := by
  intro other
  have here := locking thread
  have there := locking other
  cases move <;> grind [Task.holdsLock,tasks_setTask,lock_setTask]

structure Flags (s : State E T Thread) : Prop where
  outer : s.finished = true → s.queue.finished = true
  tasks : ∀ thread,(s.tasks thread).afterFinish = true → s.queue.finished = true
  exception : ∀ exception,s.queue.pushedException = some exception → s.queue.finished = true
  cleaning : ∀ outcome,s.consumer = .finishingOuter outcome → s.queue.finished = true
  cleaned : ∀ outcome,s.consumer = .done outcome → s.finished = true

@[simp] theorem finished_pushException (q : ThreadSafeQueue E T) (exception : E) (finished : ∀ e,q.pushedException = some e → q.finished = true) :
    (q.pushException exception).finished = true := by
  unfold ThreadSafeQueue.pushException
  split
  next isSome =>
    obtain ⟨e,isException⟩ := Option.isSome_iff_exists.mp isSome
    exact finished e isException
  next => rfl

structure Frame (thread : Thread) (s s' : State E T Thread) : Prop where
  tasks : ∀ other,other ≠ thread → s'.tasks other = s.tasks other
  consumer : s'.consumer = s.consumer
  received : s'.received = s.received
  finished : s.finished = true → s'.finished = true
  queueFinished : s.queue.finished = true → s'.queue.finished = true

theorem Moves.frame (flags : Flags s) (move : Moves producers value s thread s') : Frame thread s s' := by
  have others : ∀ (before : State E T Thread) (task : Task) (other : Thread),other ≠ thread → (before.setTask thread task).tasks other = before.tasks other := by
    intro before task other different
    simp [different]
  cases move with
  | pushException count exception task throws =>
    exact ⟨others _ _,rfl,rfl,id,fun _ => finished_pushException s.queue exception flags.exception⟩
  | finish task => exact ⟨others _ _,rfl,rfl,id,fun _ => rfl⟩
  | exceptionOuter task free | finishOuter task free => exact ⟨others _ _,rfl,rfl,fun _ => rfl,id⟩
  | _ => exact ⟨others _ _,rfl,rfl,id,id⟩

theorem Flags.move (flags : Flags s) (move : Moves producers value s thread s') : Flags s' := by
  have frame := move.frame flags
  refine ⟨?_,?_,?_,?_,?_⟩
  · cases move with
    | exceptionOuter task free | finishOuter task free => exact fun _ => flags.tasks thread (by rw [task]; rfl)
    | pushException count exception task throws => exact fun finished => frame.queueFinished (flags.outer finished)
    | finish task => exact fun _ => rfl
    | _ => exact flags.outer
  · intro other after
    by_cases same : other = thread
    · subst same
      cases move with
      | pushException count exception task throws => exact finished_pushException s.queue exception flags.exception
      | finish task => rfl
      | pushFails index indices task finished => exact finished
      | _ => simp [Task.afterFinish] at after
    · rw [frame.tasks other same] at after
      exact frame.queueFinished (flags.tasks other after)
  · cases move with
    | pushException count exception task throws => exact fun _ _ => finished_pushException s.queue exception flags.exception
    | finish task => exact fun _ _ => rfl
    | _ => exact flags.exception
  · intro outcome cleaning
    exact frame.queueFinished (flags.cleaning outcome (frame.consumer ▸ cleaning))
  · intro outcome cleaned
    exact frame.finished (flags.cleaned outcome (frame.consumer ▸ cleaned))

omit [DecidableEq Thread] in
theorem Flags.consume (flags : Flags s) (move : ConsumerMoves s s') : Flags s' := by
  obtain ⟨outer,tasks,exception,cleaning,cleaned⟩ := flags
  cases move with
  | receive value queue running noException isQueue => exact ⟨outer,tasks,exception,cleaning,cleaned⟩
  | nullopt running noException empty finished | exception exception' running isException | stop running => exact ⟨outer,tasks,exception,by simp,by simp⟩
  | finish outcome finishing => exact ⟨fun _ => rfl,fun _ _ => rfl,fun _ _ => rfl,fun _ _ => rfl,by simp⟩
  | finishOuter outcome finishing free => exact ⟨fun _ => cleaning outcome finishing,tasks,exception,by simp,fun _ _ => rfl⟩

end Flags

section Threads

structure Local (producers : Thread → Producer E) (s : State E T Thread) : Prop where
  suffixes : ∀ thread,(s.tasks thread).remaining <:+ (producers thread).yielded
  throwing : ∀ thread,s.tasks thread = .throwing → (producers thread).throws.isSome = true

theorem Local.move (threads : Local producers s) (move : Moves producers value s thread s') : Local producers s' := by
  obtain ⟨suffixes,throwing⟩ := threads
  have here := suffixes thread
  refine ⟨?_,?_⟩
  · intro other
    have there := suffixes other
    have shorter : ∀ index indices,index::indices <:+ (producers thread).yielded → indices <:+ (producers thread).yielded :=
      fun index indices => (suffix_cons index indices).trans
    cases move <;> grind [Task.remaining,tasks_setTask]
  · intro other
    have there := throwing other
    cases move <;> grind [tasks_setTask]

variable [Fintype Thread]

def unfinished (tasks : Thread → Task) : Nat := ∑ thread,(tasks thread).counted

theorem unfinished_update (tasks : Thread → Task) (thread : Thread) (task : Task) :
    unfinished (Function.update tasks thread task) + (tasks thread).counted = unfinished tasks + task.counted := sum_update Task.counted tasks thread task

structure Counting (s : State E T Thread) : Prop where
  counter : s.numUnfinishedThreads = unfinished s.tasks
  finishing : ∀ thread,s.tasks thread = .finishing → s.numUnfinishedThreads = 0
  last : s.numUnfinishedThreads = 0 → s.queue.finished = true ∨ ∃ thread,s.tasks thread = .checking ∨ s.tasks thread = .finishing

theorem Counting.move (counting : Counting s) (flags : Flags s) (move : Moves producers value s thread s') : Counting s' := by
  obtain ⟨counter,finishing,last⟩ := counting
  have moved := unfinished_update s.tasks thread
  have pushed := finished_pushException s.queue
  have exception := flags.exception
  refine ⟨?_,?_,?_⟩
  · cases move <;> grind [State.setTask,Task.counted]
  · intro other
    have there := finishing other
    cases move <;> grind [tasks_setTask,numUnfinishedThreads_setTask]
  · intro nobody
    have frame := move.frame flags
    have keep : (s.tasks thread).counted = 1 → s'.numUnfinishedThreads = s.numUnfinishedThreads →
        s'.queue.finished = true ∨ ∃ thread,s'.tasks thread = .checking ∨ s'.tasks thread = .finishing := by
      intro isCounted same
      rcases last (same ▸ nobody) with finished | ⟨other,isLast⟩
      · exact Or.inl (frame.queueFinished finished)
      · right
        refine ⟨other,?_⟩
        have different : other ≠ thread := by
          intro equal
          rw [equal] at isLast
          rcases isLast with task | task <;> simp [task,Task.counted] at isCounted
        rw [frame.tasks other different]
        exact isLast
    cases move with
    | decrement task => exact Or.inr ⟨thread,Or.inl (by simp)⟩
    | last task isLast => exact Or.inr ⟨thread,Or.inr (by simp)⟩
    | notLast task notLast => exact absurd nobody notLast
    | finish task => exact Or.inl rfl
    | finishOuter task free => exact Or.inl (flags.tasks thread (by rw [task]; rfl))
    | _ => exact keep (by rw [‹s.tasks thread = _›]; rfl) rfl

end Threads

section Order

def inFlight (s : State E T Thread) : Nat :=
  match s.lock with
  | some thread => (s.tasks thread).inFlight
  | none => 0

structure Open (n : Nat) (producers : Thread → Producer E) (value : Nat → T) (s : State E T Thread) : Prop where
  ahead : ∀ thread,∀ index ∈ (s.tasks thread).remaining,s.nextIndex ≤ index
  behind : ∀ thread,∀ index ∈ (producers thread).yielded,index ∈ (s.tasks thread).remaining ∨ index < s.nextIndex
  throwers : ∀ thread,(producers thread).throws.isSome = true → (s.tasks thread).beforeException = true
  current : ∀ thread index indices,s.tasks thread = .pushing index indices → index + 1 = s.nextIndex
  bound : s.nextIndex ≤ n
  content : ∃ m,s.received ++ s.queue.queue = (range m).map value ∧ m + inFlight s = s.nextIndex

theorem Open.keep (isOpen : Open n producers value s) (frame : Frame thread s s') (nextIndex : s'.nextIndex = s.nextIndex)
    (queue : s'.queue.queue = s.queue.queue) (same : inFlight s' = inFlight s) (remaining : (s'.tasks thread).remaining = (s.tasks thread).remaining)
    (throws : (producers thread).throws.isSome = true → (s.tasks thread).beforeException = true → (s'.tasks thread).beforeException = true)
    (notPushing : (s'.tasks thread).inFlight = 0) : Open n producers value s' := by
  have remaining' : ∀ other,(s'.tasks other).remaining = (s.tasks other).remaining := by
    intro other
    by_cases here : other = thread
    · rw [here,remaining]
    · rw [frame.tasks other here]
  refine ⟨?_,?_,?_,?_,nextIndex ▸ isOpen.bound,?_⟩
  · intro other
    rw [remaining',nextIndex]
    exact isOpen.ahead other
  · intro other
    rw [remaining',nextIndex]
    exact isOpen.behind other
  · intro other isThrower
    by_cases here : other = thread
    · subst here
      exact throws isThrower (isOpen.throwers other isThrower)
    · rw [frame.tasks other here]
      exact isOpen.throwers other isThrower
  · intro other index indices pushing
    have different : other ≠ thread := by
      intro here
      rw [← here,pushing] at notPushing
      cases notPushing
    rw [frame.tasks other different] at pushing
    rw [nextIndex]
    exact isOpen.current other index indices pushing
  · rw [frame.received,queue,same,nextIndex]
    exact isOpen.content

theorem inFlight_setTask (locking : Locking s) (free : (s.tasks thread).holdsLock = false) (task : Task) : inFlight (s.setTask thread task) = inFlight s := by
  unfold inFlight
  rw [lock_setTask]
  cases lock : s.lock with
  | none => rfl
  | some holder =>
    have different : holder ≠ thread := by
      intro same
      have holds := (locking holder).mp lock
      rw [same,free] at holds
      cases holds
    simp [different]

variable {indices : List Nat}

section
omit [DecidableEq Thread]

theorem increasing_suffix (distributed : Distributed n producers) (suffix : indices <:+ (producers thread).yielded) :
    indices.Pairwise (· < ·) :=
  (distributed.increasing thread).sublist (suffix.sublist.trans (producers thread).yielded_isPrefix.sublist)

theorem mem_indices {index : Nat} (suffix : indices <:+ (producers thread).yielded) (member : index ∈ indices) :
    index ∈ (producers thread).indices := (producers thread).yielded_isPrefix.subset (suffix.subset member)

end

theorem Open.acquire (distributed : Distributed n producers) (locking : Locking s) (threads : Local producers s) (isOpen : Open n producers value s)
    (task : s.tasks thread = .waiting s.nextIndex indices) (free : s.lock = none) :
    Open n producers value ({s with nextIndex := s.nextIndex + 1,lock := some thread}.setTask thread (.pushing s.nextIndex indices)) := by
  have suffix := threads.suffixes thread
  rw [task,Task.remaining] at suffix
  have here := mem_indices suffix mem_cons_self
  have later := (pairwise_cons.mp (increasing_suffix distributed suffix)).1
  refine ⟨?_,?_,?_,?_,distributed.bound thread _ here,?_⟩
  · intro other index member
    by_cases same : other = thread
    · simp only [tasks_setTask,same,if_true,Task.remaining] at member
      exact later index member
    · simp only [tasks_setTask,same,if_false] at member
      have ahead := isOpen.ahead other index member
      have different : index ≠ s.nextIndex := by
        intro equal
        rw [equal] at member
        exact same (distributed.distinct other thread _ (mem_indices (threads.suffixes other) member) here)
      simp only [nextIndex_setTask]
      omega
  · intro other index member
    have behind := isOpen.behind other index member
    by_cases same : other = thread
    · rw [same,task,Task.remaining,mem_cons] at behind
      simp only [tasks_setTask,same,if_true,Task.remaining,nextIndex_setTask]
      rcases behind with (equal | member) | less
      · exact Or.inr (by omega)
      · exact Or.inl member
      · exact Or.inr (by omega)
    · simp only [tasks_setTask,same,if_false,nextIndex_setTask]
      rcases behind with member | less
      · exact Or.inl member
      · exact Or.inr (by omega)
  · intro other isThrower
    by_cases same : other = thread
    · simp [same,Task.beforeException]
    · simp only [tasks_setTask,same,if_false]
      exact isOpen.throwers other isThrower
  · intro other index indices' pushing
    by_cases same : other = thread
    · simp only [tasks_setTask,same,if_true,Task.pushing.injEq] at pushing
      simp only [nextIndex_setTask]
      omega
    · simp only [tasks_setTask,same,if_false] at pushing
      have holds := (locking other).mpr (by rw [pushing]; rfl)
      rw [free] at holds
      cases holds
  · obtain ⟨m,content,count⟩ := isOpen.content
    refine ⟨m,content,?_⟩
    simp only [inFlight,free] at count
    simp only [inFlight,lock_setTask,tasks_setTask,if_true,Task.inFlight,nextIndex_setTask]
    omega

theorem Open.push (locking : Locking s) (isOpen : Open n producers value s) {index : Nat}
    (task : s.tasks thread = .pushing index indices) :
    Open n producers value
      ({s with queue := {s.queue with queue := s.queue.queue ++ [value index]}}.setTask thread (.unlocking true indices)) := by
  have holds := (locking thread).mpr (by rw [task]; rfl)
  obtain ⟨m,content,count⟩ := isOpen.content
  simp only [inFlight,holds,task,Task.inFlight] at count
  have current := isOpen.current thread index indices task
  obtain rfl : m = index := by omega
  refine ⟨?_,?_,?_,?_,isOpen.bound,?_⟩
  · intro other
    by_cases same : other = thread
    · simpa [same,task,Task.remaining] using isOpen.ahead thread
    · simpa [same] using isOpen.ahead other
  · intro other
    by_cases same : other = thread
    · simpa [same,task,Task.remaining] using isOpen.behind thread
    · simpa [same] using isOpen.behind other
  · intro other isThrower
    by_cases same : other = thread
    · simp [same,Task.beforeException]
    · simpa [same] using isOpen.throwers other isThrower
  · intro other index' indices' pushing
    by_cases same : other = thread
    · simp [same] at pushing
    · simp only [tasks_setTask,same,if_false] at pushing
      exact isOpen.current other index' indices' pushing
  · refine ⟨m + 1,?_,?_⟩
    · simp only [received_setTask,queue_setTask,← append_assoc,content,range_succ,map_append,map_singleton]
    · simp only [inFlight,lock_setTask,holds,tasks_setTask,if_true,Task.inFlight,nextIndex_setTask]
      omega

theorem Open.move (distributed : Distributed n producers) (locking : Locking s) (flags : Flags s) (threads : Local producers s)
    (isOpen : Open n producers value s) (move : Moves producers value s thread s') (still : s'.queue.finished = false) : Open n producers value s' := by
  have frame := move.frame flags
  have notFinished : s.queue.finished ≠ true := by
    intro finished
    rw [frame.queueFinished finished] at still
    cases still
  cases move with
  | call index indices task | throw task throws =>
    exact isOpen.keep frame rfl rfl (inFlight_setTask locking (by rw [task]; rfl) _) (by simp [task,Task.remaining]) (by simp [Task.beforeException])
      (by simp [Task.inFlight])
  | noMore task returns =>
    exact isOpen.keep frame rfl rfl (inFlight_setTask locking (by rw [task]; rfl) _) (by simp [task,Task.remaining]) (by simp [returns])
      (by simp [Task.inFlight])
  | inactive index indices task free finished => exact absurd (flags.outer finished) notFinished
  | acquire indices task free active => exact Open.acquire distributed locking threads isOpen task free
  | push index indices task active space => exact Open.push locking isOpen task
  | pushFails index indices task finished => exact absurd finished notFinished
  | unlock indices task =>
    have holds := (locking thread).mpr (by rw [task]; rfl)
    refine isOpen.keep frame rfl rfl ?_ (by simp [task,Task.remaining]) (by simp [Task.beforeException]) (by simp [Task.inFlight])
    simp [inFlight,holds,task,Task.inFlight]
  | leave indices task | exceptionOuter task free | finishOuter task free => exact absurd (flags.tasks thread (by rw [task]; rfl)) notFinished
  | pushException count exception task throws =>
    rw [queue_setTask,finished_pushException s.queue exception flags.exception] at still
    cases still
  | decrement task | last task isLast | notLast task notLast =>
    exact isOpen.keep frame rfl rfl (inFlight_setTask locking (by rw [task]; rfl) _) (by simp [task,Task.remaining]) (by simp [task,Task.beforeException])
      (by simp [Task.inFlight])
  | finish task => cases still

end Order

section Invariant
variable [Fintype Thread]

omit [DecidableEq Thread] [Fintype Thread] in
def Complete (n : Nat) (producers : Thread → Producer E) (value : Nat → T) (values : List T) : Prop :=
  values = (range n).map value ∧ ∀ thread,(producers thread).throws = none

structure Invariant (n : Nat) (producers : Thread → Producer E) (value : Nat → T) (s : State E T Thread) : Prop where
  locking : Locking s
  flags : Flags s
  threads : Local producers s
  counting : Counting s
  isOpen : s.queue.finished = false → Open n producers value s
  isPrefix : ∃ m ≤ n,s.received ++ s.queue.queue = (range m).map value
  thrown : ∀ exception,s.queue.pushedException = some exception → ∃ thread count,(producers thread).throws = some (count,exception)
  closed : s.queue.finished = true → s.queue.pushedException = none → s.consumer = .running → Complete n producers value (s.received ++ s.queue.queue)
  nullopt : s.consumer.outcome = some .nullopt → Complete n producers value s.received
  caught : ∀ exception,s.consumer.outcome = some (.exception exception) → ∃ thread count,(producers thread).throws = some (count,exception)

section
omit [DecidableEq Thread]

theorem Invariant.initial [Nonempty Thread] (queueSize : Nat) :
    Invariant n producers value (initial producers queueSize : State E T Thread) where
  locking thread := by simp [OrderedThreadSafeQueue.initial,Task.holdsLock]
  flags := ⟨by simp [OrderedThreadSafeQueue.initial],by simp [OrderedThreadSafeQueue.initial,Task.afterFinish],by simp [OrderedThreadSafeQueue.initial],
    by simp [OrderedThreadSafeQueue.initial],by simp [OrderedThreadSafeQueue.initial]⟩
  threads := ⟨fun _ => suffix_refl _,by simp [OrderedThreadSafeQueue.initial]⟩
  counting := ⟨by simp [OrderedThreadSafeQueue.initial,unfinished,Task.counted],by simp [OrderedThreadSafeQueue.initial],
    by simp [OrderedThreadSafeQueue.initial]⟩
  isOpen _ := ⟨by simp [OrderedThreadSafeQueue.initial],by simp +contextual [OrderedThreadSafeQueue.initial,Task.remaining],
    by simp [OrderedThreadSafeQueue.initial,Task.beforeException],by simp [OrderedThreadSafeQueue.initial],Nat.zero_le n,
    ⟨0,by simp [OrderedThreadSafeQueue.initial],by simp [OrderedThreadSafeQueue.initial,inFlight]⟩⟩
  isPrefix := ⟨0,Nat.zero_le n,by simp [OrderedThreadSafeQueue.initial]⟩
  thrown := by simp [OrderedThreadSafeQueue.initial]
  closed := by simp [OrderedThreadSafeQueue.initial]
  nullopt := by simp [OrderedThreadSafeQueue.initial,Consumer.outcome]
  caught := by simp [OrderedThreadSafeQueue.initial,Consumer.outcome]

theorem Open.complete (distributed : Distributed n producers) (locking : Locking s) (counting : Counting s) (isOpen : Open n producers value s)
    (nobody : s.numUnfinishedThreads = 0) : Complete n producers value (s.received ++ s.queue.queue) := by
  have ended : ∀ thread,(s.tasks thread).counted = 0 := by
    have none := counting.counter
    rw [nobody,unfinished,eq_comm,Finset.sum_eq_zero_iff] at none
    exact fun thread => none thread (Finset.mem_univ thread)
  have returns : ∀ thread,(producers thread).throws = none := by
    intro thread
    by_contra throws
    have before := isOpen.throwers thread (Option.isSome_iff_ne_none.mpr throws)
    have counted := ended thread
    cases task : s.tasks thread <;> simp [task,Task.beforeException,Task.counted] at before counted
  have noLock : s.lock = none := by
    by_contra holds
    obtain ⟨holder,isHolder⟩ := Option.ne_none_iff_exists'.mp holds
    have locks := (locking holder).mp isHolder
    have counted := ended holder
    cases task : s.tasks holder <;> simp [task,Task.holdsLock,Task.counted] at locks counted
  have nothing : ∀ thread,(s.tasks thread).remaining = [] := by
    intro thread
    have counted := ended thread
    cases task : s.tasks thread <;> simp [task,Task.remaining,Task.counted] at counted ⊢
  obtain ⟨m,content,count⟩ := isOpen.content
  have allPushed : n ≤ s.nextIndex := by
    by_contra less
    obtain ⟨thread,member⟩ := distributed.covers s.nextIndex (not_le.mp less)
    rw [← Producer.yielded_eq (returns thread)] at member
    rcases isOpen.behind thread _ member with still | less'
    · rw [nothing thread] at still
      cases still
    · exact lt_irrefl _ less'
  have bound := isOpen.bound
  simp only [inFlight,noLock] at count
  obtain rfl : m = n := by omega
  exact ⟨content,returns⟩

end

theorem Invariant.move (distributed : Distributed n producers) (invariant : Invariant n producers value s) (move : Moves producers value s thread s') :
    Invariant n producers value s' := by
  have frame := move.frame invariant.flags
  have isOpen' : s'.queue.finished = false → Open n producers value s' := by
    intro still
    have before : s.queue.finished = false := by
      by_contra finished
      rw [frame.queueFinished (by simpa using finished)] at still
      cases still
    exact (invariant.isOpen before).move distributed invariant.locking invariant.flags invariant.threads move still
  have nullopt' : s'.consumer.outcome = some .nullopt → Complete n producers value s'.received := by
    rw [frame.consumer,frame.received]
    exact invariant.nullopt
  have caught' : ∀ exception,s'.consumer.outcome = some (.exception exception) → ∃ thread count,(producers thread).throws = some (count,exception) := by
    rw [frame.consumer]
    exact invariant.caught
  refine ⟨invariant.locking.move move,invariant.flags.move move,invariant.threads.move move,invariant.counting.move invariant.flags move,isOpen',?_,?_,?_,
    nullopt',caught'⟩
  · cases move with
    | push index indices task active space =>
      obtain ⟨m,content,count⟩ := (isOpen' active).content
      exact ⟨m,by have bound := (isOpen' active).bound; omega,content⟩
    | pushException count exception task throws =>
      simp only [received_setTask,queue_setTask,ThreadSafeQueue.pushException]
      split <;> exact invariant.isPrefix
    | _ => exact invariant.isPrefix
  · cases move with
    | pushException count exception task throws =>
      intro exception' isException
      simp only [ThreadSafeQueue.pushException] at isException
      split at isException
      next => exact invariant.thrown exception' isException
      next =>
        cases isException
        exact ⟨thread,count,throws⟩
    | _ => exact invariant.thrown
  · cases move with
    | push index indices task active space =>
      intro finished
      rw [queue_setTask] at finished
      rw [active] at finished
      cases finished
    | pushException count exception task throws =>
      intro _ noException
      simp only [queue_setTask,ThreadSafeQueue.pushException] at noException
      split at noException
      next isSome => simp [noException] at isSome
      next => cases noException
    | finish task =>
      intro _ noException running
      cases finished : s.queue.finished with
      | true => exact invariant.closed finished noException running
      | false =>
        have nobody := invariant.counting.finishing thread task
        have complete := (invariant.isOpen finished).complete distributed invariant.locking invariant.counting nobody
        exact complete
    | _ => exact invariant.closed

omit [DecidableEq Thread] [Fintype Thread] in
theorem Open.consume (isOpen : Open n producers value s) (move : ConsumerMoves s s') (notFinish : ∀ outcome,s.consumer ≠ .finishing outcome) :
    Open n producers value s' := by
  obtain ⟨m,content,count⟩ := isOpen.content
  have keeps : ∃ m,s'.received ++ s'.queue.queue = (range m).map value ∧ m + inFlight s' = s'.nextIndex := by
    cases move with
    | receive value queue running noException isQueue =>
      refine ⟨m,?_,count⟩
      rw [← content,isQueue]
      simp
    | finish outcome finishing => exact absurd finishing (notFinish outcome)
    | _ => exact ⟨m,content,count⟩
  cases move <;> exact ⟨isOpen.ahead,isOpen.behind,isOpen.throwers,isOpen.current,isOpen.bound,keeps⟩

omit [DecidableEq Thread] in
theorem Invariant.consume (invariant : Invariant n producers value s) (move : ConsumerMoves s s') : Invariant n producers value s' := by
  obtain ⟨locking,flags,⟨suffixes,throwing⟩,⟨counter,finishing,last⟩,isOpen,isPrefix,thrown,closed,nullopt,caught⟩ := invariant
  have flags' := flags.consume move
  cases move with
  | receive value queue running noException isQueue =>
    have content : s.received ++ [value] ++ queue = s.received ++ s.queue.queue := by
      rw [isQueue]
      simp
    refine ⟨locking,flags',⟨suffixes,throwing⟩,⟨counter,finishing,last⟩,?_,content ▸ isPrefix,thrown,?_,?_,?_⟩
    · exact fun still => (isOpen still).consume (.receive value queue running noException isQueue) (by simp [running])
    · exact fun finished noException' running' => content ▸ closed finished noException' running'
    · exact fun ended => by simp [running,Consumer.outcome] at ended
    · exact fun _ ended => by simp [running,Consumer.outcome] at ended
  | nullopt running noException empty finished =>
    refine ⟨locking,flags',⟨suffixes,throwing⟩,⟨counter,finishing,last⟩,?_,isPrefix,thrown,by simp,?_,by simp [Consumer.outcome]⟩
    · exact fun still => (isOpen still).consume (.nullopt running noException empty finished) (by simp [running])
    · intro _
      have complete := closed finished noException running
      rwa [empty,append_nil] at complete
  | exception exception running isException =>
    refine ⟨locking,flags',⟨suffixes,throwing⟩,⟨counter,finishing,last⟩,?_,isPrefix,thrown,by simp,by simp [Consumer.outcome],?_⟩
    · exact fun still => (isOpen still).consume (.exception exception running isException) (by simp [running])
    · intro exception' ended
      simp only [Consumer.outcome,Option.some.injEq,Outcome.exception.injEq] at ended
      exact ended ▸ thrown exception isException
  | finish outcome isFinishing =>
    rw [isFinishing] at nullopt caught
    exact ⟨locking,flags',⟨suffixes,throwing⟩,⟨counter,finishing,fun _ => Or.inl rfl⟩,fun still => (by cases still),isPrefix,thrown,by simp,nullopt,caught⟩
  | finishOuter outcome isFinishing free =>
    rw [isFinishing] at nullopt caught
    refine ⟨locking,flags',⟨suffixes,throwing⟩,⟨counter,finishing,last⟩,?_,isPrefix,thrown,by simp,nullopt,caught⟩
    exact fun still => (isOpen still).consume (.finishOuter outcome isFinishing free) (by simp [isFinishing])
  | stop running =>
    refine ⟨locking,flags',⟨suffixes,throwing⟩,⟨counter,finishing,last⟩,?_,isPrefix,thrown,by simp,by simp [Consumer.outcome],by simp [Consumer.outcome]⟩
    exact fun still => (isOpen still).consume (.stop running) (by simp [running])

theorem run_invariant [Nonempty Thread] (distributed : Distributed n producers) {queueSize : Nat}
    (run : Run (step producers value) Always (initial producers queueSize) s) : Invariant n producers value s := by
  apply run.invariant (Invariant.initial queueSize)
  intro s action s' invariant _ taken
  rcases step_moves taken with ⟨thread,move⟩ | move
  · exact invariant.move distributed move
  · exact invariant.consume move

end Invariant
section Progress

def Stuck (producers : Thread → Producer E) (value : Nat → T) (s : State E T Thread) : Prop :=
  ∀ action,action ≠ .stop → step producers value s action = none

theorem stepThread_none (blocked : stepThread producers value thread s = none) (throws : s.tasks thread = .throwing → (producers thread).throws.isSome = true) :
    s.tasks thread = .done ∨
    (∃ index indices,s.tasks thread = .waiting index indices ∧ (s.lock = none → index ≠ s.nextIndex ∧ s.finished = false)) ∨
    (∃ index indices,s.tasks thread = .pushing index indices ∧ s.queue.finished = false ∧ s.queue.maxSize ≤ s.queue.queue.length) ∨
    s.lock ≠ none ∧ (s.tasks thread).holdsLock = false := by
  cases task : s.tasks thread with
  | calling indices => cases indices <;> simp [stepThread,task] at blocked
  | waiting index indices =>
    right
    left
    refine ⟨index,indices,rfl,?_⟩
    intro free
    cases finished : s.finished with
    | true => simp [stepThread,task,free,finished] at blocked
    | false =>
      refine ⟨?_,rfl⟩
      intro isNext
      simp [stepThread,task,free,finished,isNext] at blocked
  | pushing index indices =>
    right
    right
    left
    refine ⟨index,indices,rfl,?_⟩
    have waits : s.queue.push (value index) = none := by
      cases result : s.queue.push (value index) with
      | none => rfl
      | some pushed => simp [stepThread,task,result] at blocked
    unfold ThreadSafeQueue.push at waits
    split at waits
    next => split at waits <;> cases waits
    next full =>
      obtain ⟨noSpace,active⟩ := not_or.mp full
      exact ⟨by simpa using active,not_lt.mp noSpace⟩
  | unlocking active indices | decrementing | checking | finishing => simp [stepThread,task] at blocked
  | throwing =>
    obtain ⟨⟨count,exception⟩,isThrown⟩ := Option.isSome_iff_exists.mp (throws task)
    simp [stepThread,task,isThrown] at blocked
  | throwingOuter | finishingOuter =>
    right
    right
    right
    refine ⟨?_,rfl⟩
    intro free
    simp [stepThread,task,free] at blocked
  | done => exact Or.inl rfl

omit [DecidableEq Thread] in
theorem stepConsumer_none (blocked : stepConsumer s = none) :
    (∃ outcome,s.consumer = .done outcome) ∨ (s.queue.queue = [] ∧ s.queue.finished = false ∧ s.consumer = .running) ∨
      s.lock ≠ none ∧ ∃ outcome,s.consumer = .finishingOuter outcome := by
  cases consumer : s.consumer with
  | running =>
    right
    left
    have waits : s.queue.pop = none := by
      cases result : s.queue.pop with
      | none => rfl
      | some popped =>
        obtain ⟨popped,queue⟩ := popped
        cases popped <;> simp [stepConsumer,consumer,result] at blocked
    unfold ThreadSafeQueue.pop at waits
    split at waits
    next => cases waits
    next =>
      split at waits
      next => cases waits
      next empty =>
        split at waits
        next => cases waits
        next active => exact ⟨empty,by simpa using active,rfl⟩
  | finishing outcome => simp [stepConsumer,consumer] at blocked
  | finishingOuter outcome =>
    right
    right
    refine ⟨?_,outcome,rfl⟩
    intro free
    simp [stepConsumer,consumer,free] at blocked
  | done outcome => exact Or.inl ⟨outcome,rfl⟩

variable [Fintype Thread]

section
omit [DecidableEq Thread] [Fintype Thread]

theorem Open.next_not_waiting (distributed : Distributed n producers) (threads : Local producers s) (isOpen : Open n producers value s) {owner : Thread}
    (owns : s.nextIndex ∈ (producers owner).indices) {index : Nat} {indices : List Nat} (task : s.tasks owner = .waiting index indices) :
    index = s.nextIndex := by
  by_contra different
  have suffix := threads.suffixes owner
  rw [task,Task.remaining] at suffix
  have ahead := isOpen.ahead owner index (by simp [task,Task.remaining])
  have later := (pairwise_cons.mp (increasing_suffix distributed suffix)).1
  by_cases yielded : s.nextIndex ∈ (producers owner).yielded
  · rcases isOpen.behind owner _ yielded with member | less
    · rw [task,Task.remaining,mem_cons] at member
      rcases member with same | member
      · exact different same.symm
      · have less := later _ member
        omega
    · exact lt_irrefl _ less
  · -- The index is cut off by an exception, so the indices that are yielded are smaller.
    obtain ⟨rest,split⟩ := (producers owner).yielded_isPrefix
    have increasing := distributed.increasing owner
    rw [← split] at increasing owns
    have inRest := (mem_append.mp owns).resolve_left yielded
    have less := (pairwise_append.mp increasing).2.2 index (suffix.subset mem_cons_self) _ inRest
    omega

theorem Open.next_not_done (isOpen : Open n producers value s) {owner : Thread} (owns : s.nextIndex ∈ (producers owner).indices) :
    s.tasks owner ≠ .done := by
  intro task
  have returns : (producers owner).throws = none := by
    by_contra throws
    have before := isOpen.throwers owner (Option.isSome_iff_ne_none.mpr throws)
    rw [task] at before
    cases before
  rw [← Producer.yielded_eq returns] at owns
  rcases isOpen.behind owner _ owns with member | less
  · rw [task] at member
    cases member
  · exact lt_irrefl _ less

end

theorem Invariant.stuck (distributed : Distributed n producers) (invariant : Invariant n producers value s) (capacity : 0 < s.queue.maxSize)
    (stuck : Stuck producers value s) : (∃ outcome,s.consumer = .done outcome) ∧ ∀ thread,s.tasks thread = .done := by
  have flags := invariant.flags
  have threadBlocked := fun thread => stepThread_none (stuck (.thread thread) (by simp)) (invariant.threads.throwing thread)
  have consumerBlocked := stepConsumer_none (stuck .consumer (by simp))
  have free : s.lock = none := by
    by_contra held
    obtain ⟨holder,isHolder⟩ := Option.ne_none_iff_exists'.mp held
    have holds := (invariant.locking holder).mp isHolder
    rcases threadBlocked holder with task | ⟨_,_,task,_⟩ | ⟨_,_,_,active,full⟩ | ⟨_,notHolding⟩
    · rw [task] at holds
      cases holds
    · rw [task] at holds
      cases holds
    · rcases consumerBlocked with ⟨outcome,done⟩ | ⟨empty,_⟩ | ⟨_,outcome,cleaning⟩
      · rw [flags.outer (flags.cleaned outcome done)] at active
        cases active
      · rw [empty,length_nil] at full
        omega
      · rw [flags.cleaning outcome cleaning] at active
        cases active
    · rw [holds] at notHolding
      cases notHolding
  have waiting : ∀ thread,s.tasks thread = .done ∨ ∃ index indices,s.tasks thread = .waiting index indices ∧ index ≠ s.nextIndex ∧ s.finished = false := by
    intro thread
    rcases threadBlocked thread with task | ⟨index,indices,task,blocked⟩ | ⟨_,_,task,_⟩ | ⟨held,_⟩
    · exact Or.inl task
    · exact Or.inr ⟨index,indices,task,blocked free⟩
    · have holds := (invariant.locking thread).mpr (by rw [task]; rfl)
      rw [free] at holds
      cases holds
    · exact absurd free held
  rcases consumerBlocked with ⟨outcome,done⟩ | ⟨_,active,_⟩ | ⟨held,_⟩
  · refine ⟨⟨outcome,done⟩,?_⟩
    intro thread
    rcases waiting thread with task | ⟨_,_,_,_,notFinished⟩
    · exact task
    · rw [flags.cleaned outcome done] at notFinished
      cases notFinished
  · exfalso
    have isOpen := invariant.isOpen active
    by_cases someWaits : ∃ thread,s.tasks thread ≠ .done
    · obtain ⟨thread,notDone⟩ := someWaits
      obtain ⟨index,indices,task,different,_⟩ := (waiting thread).resolve_left notDone
      have ahead := isOpen.ahead thread index (by simp [task,Task.remaining])
      have suffix := invariant.threads.suffixes thread
      rw [task,Task.remaining] at suffix
      have below := distributed.bound thread index (mem_indices suffix mem_cons_self)
      obtain ⟨owner,owns⟩ := distributed.covers s.nextIndex (by omega)
      rcases waiting owner with done | ⟨index',indices',task',different',_⟩
      · exact isOpen.next_not_done owns done
      · exact different' (isOpen.next_not_waiting distributed invariant.threads owns task')
    · have done : ∀ thread,s.tasks thread = .done := by
        intro thread
        by_contra notDone
        exact someWaits ⟨thread,notDone⟩
      have nobody : s.numUnfinishedThreads = 0 := by
        rw [invariant.counting.counter,unfinished]
        apply Finset.sum_eq_zero
        intro thread _
        rw [done thread]
        rfl
      rcases invariant.counting.last nobody with finished | ⟨thread,task | task⟩
      · rw [finished] at active
        cases active
      all_goals
        rw [done thread] at task
        cases task
  · exact absurd free held

end Progress

section Termination

def Task.weight : Task → Nat
  | calling indices => 5 * indices.length + 7
  | waiting _ indices => 5 * indices.length + 11
  | pushing _ indices => 5 * indices.length + 10
  | unlocking _ indices => 5 * indices.length + 8
  | throwing => 6
  | throwingOuter => 5
  | decrementing => 4
  | checking => 3
  | finishing => 2
  | finishingOuter => 1
  | done => 0

def Consumer.weight : Consumer E → Nat
  | running => 3
  | finishing _ => 2
  | finishingOuter _ => 1
  | done _ => 0

variable [Fintype Thread]

def weight (s : State E T Thread) : Nat := ∑ thread,(s.tasks thread).weight + s.queue.queue.length + s.consumer.weight

theorem weight_setTask (s : State E T Thread) (thread : Thread) (task : Task) :
    weight (s.setTask thread task) + (s.tasks thread).weight = weight s + task.weight := by
  have moved := sum_update Task.weight s.tasks thread task
  simp only [weight,State.setTask]
  omega

theorem weight_lt {before : State E T Thread} {task : Task} (tasks : before.tasks thread = s.tasks thread)
    (less : weight before + task.weight < weight s + (s.tasks thread).weight) : weight (before.setTask thread task) < weight s := by
  have moved := weight_setTask before thread task
  rw [tasks] at moved
  omega

theorem weight_move (move : Moves producers value s thread s') : weight s' < weight s := by
  cases move with
  | push index indices task active space =>
    refine weight_lt rfl ?_
    rw [task]
    simp only [weight,Task.weight,length_append,length_singleton]
    omega
  | call index indices task =>
    refine weight_lt rfl ?_
    rw [task]
    simp only [Task.weight,length_cons]
    omega
  | pushException count exception task throws =>
    refine weight_lt rfl ?_
    rw [task]
    unfold ThreadSafeQueue.pushException
    split <;> simp [weight,Task.weight]
  | _ =>
    refine weight_lt rfl ?_
    rw [‹s.tasks thread = _›]
    simp [weight,Task.weight,ThreadSafeQueue.finish]

omit [DecidableEq Thread] in
theorem weight_consume (move : ConsumerMoves s s') : weight s' < weight s := by
  cases move with
  | receive value queue running noException isQueue =>
    simp only [weight,isQueue,length_cons]
    omega
  | nullopt running noException empty finished | exception exception running isException | stop running => simp [weight,running,Consumer.weight]
  | finish outcome finishing => simp [weight,finishing,Consumer.weight,ThreadSafeQueue.finish]
  | finishOuter outcome finishing free => simp [weight,finishing,Consumer.weight]

theorem weight_step (s : State E T Thread) (action : Action Thread) (s' : State E T Thread) (taken : step producers value s action = some s') :
    weight s' < weight s := by
  rcases step_moves taken with ⟨thread,move⟩ | move
  · exact weight_move move
  · exact weight_consume move

theorem run_maxSize {queueSize : Nat} (run : Run (step producers value) Always (initial producers queueSize) s) : s.queue.maxSize = queueSize := by
  let inv : State E T Thread → Prop := fun s => s.queue.maxSize = queueSize
  have initially : inv (initial producers queueSize) := rfl
  refine run.invariant initially ?_
  intro s action s' same _ taken
  rcases step_moves taken with ⟨thread,move⟩ | move
  · cases move with
    | pushException count exception task throws =>
      simp only [ThreadSafeQueue.pushException]
      split <;> exact same
    | _ => exact same
  · cases move <;> exact same

end Termination

section Delivery
variable [Fintype Thread]

structure Delivers (n : Nat) (producers : Thread → Producer E) (value : Nat → T) (s : State E T Thread) : Prop where
  isPrefix : ∃ m ≤ n,s.received = (range m).map value
  complete : s.consumer.outcome = some .nullopt → s.received = (range n).map value
  ends : Stuck producers value s → ∃ outcome,s.consumer = .done outcome
  regular : (∀ thread,(producers thread).throws = none) → ∀ outcome,s.consumer.outcome = some outcome → outcome = .nullopt ∨ outcome = .stopped
  exceptional : (∃ thread,(producers thread).throws.isSome = true) → ∀ outcome,s.consumer.outcome = some outcome →
    (∃ exception thread count,outcome = .exception exception ∧ (producers thread).throws = some (count,exception)) ∨ outcome = .stopped

/-- All runs are finite, and in all states that are reached the consumer has got the values in their order. Nobody is stuck before the
consumer has seen the regular end, an exception of a producer, or has stopped. -/
theorem queueManager_delivers [Nonempty Thread] (distributed : Distributed n producers) {queueSize : Nat} (capacity : 1 ≤ queueSize) :
    (∃ bound,∀ actions : List (Action Thread),(actions.foldlM (step producers value) (initial producers queueSize)).isSome = true → actions.length ≤ bound) ∧
      ∀ s : State E T Thread,Run (step producers value) Always (initial producers queueSize) s → Delivers n producers value s := by
  refine ⟨⟨weight (initial producers queueSize : State E T Thread),?_⟩,?_⟩
  · intro actions possible
    obtain ⟨last,done⟩ := Option.isSome_iff_exists.mp possible
    have bounded := length_le_measure weight_step done
    omega
  · intro s run
    have invariant := run_invariant distributed run
    have capacity' : 0 < s.queue.maxSize := by
      rw [run_maxSize run]
      omega
    refine ⟨?_,fun ended => (invariant.nullopt ended).1,fun stuck => (invariant.stuck distributed capacity' stuck).1,?_,?_⟩
    · obtain ⟨m,bound,content⟩ := invariant.isPrefix
      refine ⟨min s.received.length m,by omega,?_⟩
      have first := congrArg (List.take s.received.length) content
      rw [take_left,← map_take,take_range] at first
      exact first
    · intro returns outcome ended
      cases outcome with
      | nullopt => exact Or.inl rfl
      | stopped => exact Or.inr rfl
      | exception exception =>
        obtain ⟨thread,count,throws⟩ := invariant.caught exception ended
        rw [returns thread] at throws
        cases throws
    · intro thrown outcome ended
      cases outcome with
      | nullopt =>
        obtain ⟨thread,throws⟩ := thrown
        rw [(invariant.nullopt ended).2 thread] at throws
        cases throws
      | stopped => exact Or.inr rfl
      | exception exception =>
        obtain ⟨thread,count,throws⟩ := invariant.caught exception ended
        exact Or.inl ⟨exception,thread,count,rfl,throws⟩

def twoProducers : Bool → Producer Unit
  | true => ⟨[0,2],none⟩
  | false => ⟨[1],none⟩

theorem twoProducers_distributed : Distributed 3 twoProducers where
  increasing := by decide
  bound := by decide
  covers := by decide
  distinct thread other index first second := by
    cases thread <;> cases other <;> simp [twoProducers] at first second ⊢ <;> omega

theorem queueManager_delivers_twoProducers : ∃ s : State Unit Nat Bool,
    Run (step twoProducers id) Always (initial twoProducers 1) s ∧ s.consumer.outcome = some .nullopt ∧ s.received = [0,1,2] := by
  let push (thread : Bool) : List (Action Bool) := [.thread thread,.thread thread,.thread thread,.thread thread,.consumer]
  let actions := push true ++ push false ++ push true ++ [.thread true,.thread true,.thread true,.thread false,.thread false,.thread false,.thread false,.consumer]
  have ended : (actions.foldlM (fun s action => if Always s action then step twoProducers id s action else none)
    (initial twoProducers 1)).map (fun s => s.consumer.outcome) = some (some .nullopt) := by decide
  obtain ⟨s,done,outcome⟩ := Option.map_eq_some_iff.mp ended
  have run := Run.of_actions done
  exact ⟨s,run,outcome,((queueManager_delivers twoProducers_distributed (le_refl 1)).2 s run).complete outcome⟩

end Delivery
end OrderedThreadSafeQueue
end Qlever
