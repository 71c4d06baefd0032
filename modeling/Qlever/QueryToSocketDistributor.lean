import Qlever.Library.Interleaving

/-! The `QueryToSocketDistributor` with its sender and any number of listeners. The sender's calls run outside of the strand:
the flag `finished_` is set at once, but the payloads are appended by handlers that are posted to the strand. The handlers and
the steps of the listeners run on the strand in the order in which they were posted.
-/
namespace Qlever
open Library List

namespace QueryToSocketDistributor
variable {Payload Listener : Type}

inductive Handler (Payload Listener : Type)
  | update (payload : Payload)
  | ended
  | resume (listener : Listener)
  deriving DecidableEq

/-- Where a listener is in `waitForNextDataPiece`: before a call, at the first test, in `waitForUpdate`, at the test after it,
or after it got a `nullptr`. -/
inductive Position
  | idle
  | testing
  | waiting
  | woken
  | ended
  deriving DecidableEq

/-- An `UpdateFetcher` with the payloads that it returned. -/
structure UpdateFetcher (Payload : Type) where
  position : Position := .idle
  nextIndex : Nat := 0
  received : List Payload := []
  cancelled : Bool := false

/-- The sender, before `signalEnd` with the payloads that it still sends. In `signalEnd` the flag is set before the handler is
posted. -/
inductive Sender (Payload : Type)
  | sending (payloads : List Payload)
  | signalling
  | done

structure State (Payload Listener : Type) where
  sender : Sender Payload
  finished : Bool := false
  data : List Payload := []
  strand : List (Handler Payload Listener) := []
  waiting : List Listener := []
  fetchers : Listener → UpdateFetcher Payload := fun _ => {}

inductive Action (Listener : Type)
  | send
  | waitForEvent (listener : Listener)
  | cancel (listener : Listener)
  | run

def initial (payloads : List Payload) : State Payload Listener := {sender := .sending payloads}

def post (handler : Handler Payload Listener) (s : State Payload Listener) : State Payload Listener := {s with strand := s.strand ++ [handler]}

/-- `addQueryStatusUpdate` and the two parts of `signalEnd`. -/
def send (s : State Payload Listener) : Option (State Payload Listener) :=
  match s.sender with
  | .sending (payload::payloads) => if s.finished then none else some (post (.update payload) {s with sender := .sending payloads})
  | .sending [] => if s.finished then none else some {s with finished := true,sender := .signalling}
  | .signalling => some (post .ended {s with sender := .done})
  | .done => none

variable [DecidableEq Listener]

def State.setFetcher (s : State Payload Listener) (listener : Listener) (fetcher : UpdateFetcher Payload) : State Payload Listener :=
  {s with fetchers := Function.update s.fetchers listener fetcher}

def wakeUpWaitingListeners (s : State Payload Listener) : State Payload Listener :=
  {s with strand := s.strand ++ s.waiting.map .resume
          fetchers := fun listener => if listener ∈ s.waiting then {s.fetchers listener with position := .woken} else s.fetchers listener
          waiting := []}

/-- `waitForEvent` is awaited on the strand. -/
def waitForEvent (listener : Listener) (s : State Payload Listener) : Option (State Payload Listener) :=
  if (s.fetchers listener).position = .idle then some (post (.resume listener) (s.setFetcher listener {s.fetchers listener with position := .testing}))
  else none

def cancel (listener : Listener) (s : State Payload Listener) : State Payload Listener :=
  if (s.fetchers listener).position = .waiting then
    post (.resume listener) ({s with waiting := s.waiting.erase listener}.setFetcher listener {s.fetchers listener with position := .woken,cancelled := true})
  else s.setFetcher listener {s.fetchers listener with cancelled := true}

def UpdateFetcher.receive (fetcher : UpdateFetcher Payload) (payload : Payload) : UpdateFetcher Payload :=
  {fetcher with position := .idle,nextIndex := fetcher.nextIndex + 1,received := fetcher.received ++ [payload]}

/-- The part of `waitForNextDataPiece` before or after `waitForUpdate`. -/
def waitForNextDataPiece (listener : Listener) (s : State Payload Listener) : State Payload Listener :=
  let fetcher := s.fetchers listener
  match s.data[fetcher.nextIndex]? with
  | some payload => s.setFetcher listener (fetcher.receive payload)
  | none =>
    if fetcher.position = .testing ∧ s.finished = false then
      {s with waiting := s.waiting ++ [listener]}.setFetcher listener {fetcher with position := .waiting}
    else s.setFetcher listener {fetcher with position := .ended}

def run (s : State Payload Listener) : Option (State Payload Listener) :=
  match s.strand with
  | [] => none
  | .update payload::strand => some (wakeUpWaitingListeners {s with strand := strand,data := s.data ++ [payload]})
  | .ended::strand => some (wakeUpWaitingListeners {s with strand := strand})
  | .resume listener::strand => some (waitForNextDataPiece listener {s with strand := strand})

def step (s : State Payload Listener) : Action Listener → Option (State Payload Listener)
  | .send => send s
  | .waitForEvent listener => waitForEvent listener s
  | .cancel listener => some (cancel listener s)
  | .run => run s

/-! ### What the listeners receive -/

def updates (strand : List (Handler Payload Listener)) : List Payload :=
  strand.filterMap (fun handler => match handler with
    | .update payload => some payload
    | _ => none)

/-- A listener that has all of `data_` tests the flag only when it is not set or no payload is waiting on the strand. -/
def NoPendingUpdate (s : State Payload Listener) : Action Listener → Prop
  | .run => match s.strand with
    | .resume listener::strand =>
      (s.fetchers listener).position = .testing → s.data.length ≤ (s.fetchers listener).nextIndex → s.finished = true → updates strand = []
    | _ => True
  | _ => True

/-- What is delivered: a listener that is not cancelled has received the first payloads in their order, and all of them when it
gets the `nullptr`. When nothing is left to run, no listener waits. -/
structure Delivered (payloads : List Payload) (s : State Payload Listener) : Prop where
  inOrder : ∀ listener, (s.fetchers listener).received <+: payloads
  complete : ∀ listener, (s.fetchers listener).cancelled = false → (s.fetchers listener).position = .ended → (s.fetchers listener).received = payloads
  noneWaits : s.sender = .done → s.strand = [] → ∀ listener, (s.fetchers listener).position = .idle ∨ (s.fetchers listener).position = .ended

section Invariant
variable {payloads : List Payload} {s s' : State Payload Listener}

def Sender.unsent : Sender Payload → List Payload
  | .sending payloads => payloads
  | _ => []

structure Posted (payloads : List Payload) (s : State Payload Listener) : Prop where
  total : payloads = s.data ++ updates s.strand ++ s.sender.unsent
  finished : s.finished = true ↔ ∀ rest, s.sender ≠ .sending rest
  endedLast : ∀ before after, s.strand = before ++ .ended::after → updates after = []
  endedPosted : .ended ∈ s.strand → s.sender = .done

structure Listens (payloads : List Payload) (s : State Payload Listener) (listener : Listener) : Prop where
  received : (s.fetchers listener).received = s.data.take (s.fetchers listener).nextIndex
  bound : (s.fetchers listener).nextIndex ≤ s.data.length
  waits : listener ∈ s.waiting ↔ (s.fetchers listener).position = .waiting
  waitsForMore : (s.fetchers listener).position = .waiting → (s.fetchers listener).nextIndex = s.data.length ∧ (s.sender = .done → .ended ∈ s.strand)
  woken : (s.fetchers listener).position = .woken → (s.fetchers listener).cancelled = false → (s.fetchers listener).nextIndex < s.data.length ∨ s.data = payloads
  ended : (s.fetchers listener).position = .ended → (s.fetchers listener).cancelled = false → (s.fetchers listener).received = payloads
  posted : (s.fetchers listener).position = .testing ∨ (s.fetchers listener).position = .woken ↔ .resume listener ∈ s.strand

def resumes (strand : List (Handler Payload Listener)) : List Listener :=
  strand.filterMap (fun handler => match handler with
    | .resume listener => some listener
    | _ => none)

structure Invariant (payloads : List Payload) (s : State Payload Listener) : Prop where
  posted : Posted payloads s
  distinct : s.waiting.Nodup
  single : (resumes s.strand).Nodup
  listens : ∀ listener, Listens payloads s listener

section
omit [DecidableEq Listener]

theorem Invariant.initial : Invariant payloads (initial payloads : State Payload Listener) where
  posted := ⟨by simp [QueryToSocketDistributor.initial,updates,Sender.unsent],by simp [QueryToSocketDistributor.initial],by simp [QueryToSocketDistributor.initial],
    by simp [QueryToSocketDistributor.initial]⟩
  distinct := nodup_nil
  single := nodup_nil
  listens _ := ⟨rfl,Nat.zero_le _,by simp [QueryToSocketDistributor.initial],by simp [QueryToSocketDistributor.initial],by simp [QueryToSocketDistributor.initial],
    by simp [QueryToSocketDistributor.initial],by simp [QueryToSocketDistributor.initial]⟩

@[simp] theorem updates_append (first second : List (Handler Payload Listener)) : updates (first ++ second) = updates first ++ updates second := by
  simp [updates,filterMap_append]

@[simp] theorem updates_resume (listeners : List Listener) : updates (listeners.map .resume : List (Handler Payload Listener)) = [] := by
  simp [updates,filterMap_map]

@[simp] theorem resumes_append (first second : List (Handler Payload Listener)) : resumes (first ++ second) = resumes first ++ resumes second := by
  simp [resumes,filterMap_append]

@[simp] theorem resumes_resume (listeners : List Listener) : resumes (listeners.map .resume : List (Handler Payload Listener)) = listeners := by
  simp [resumes,filterMap_map]

theorem mem_resumes (strand : List (Handler Payload Listener)) (listener : Listener) : listener ∈ resumes strand ↔ .resume listener ∈ strand := by
  simp only [resumes,mem_filterMap]
  constructor
  · rintro ⟨handler,member,same⟩
    cases handler with
    | resume other => rwa [← Option.some.inj same]
    | update payload | ended => cases same
  · exact fun member => ⟨_,member,rfl⟩

theorem endedLast_append {strand : List (Handler Payload Listener)} (more : List (Handler Payload Listener))
    (last : ∀ before after, strand = before ++ .ended::after → updates after = []) (noUpdate : .ended ∈ strand → updates more = [])
    (single : ∀ before after, more = before ++ .ended::after → updates after = []) :
    ∀ before after, strand ++ more = before ++ .ended::after → updates after = [] := by
  intro before after same
  rw [append_eq_append_iff] at same
  rcases same with ⟨middle,rfl,rest⟩ | ⟨middle,rfl,rest⟩
  · cases middle with
    | nil => exact single [] after (by simpa using rest)
    | cons handler middle => exact single (handler::middle) after rest
  · cases middle with
    | nil => exact single [] after (by simpa using rest.symm)
    | cons handler middle =>
      obtain ⟨rfl,rfl⟩ := List.cons.inj rest
      change updates (middle ++ more) = []
      rw [updates_append,last before middle rfl,noUpdate (by simp)]
      rfl

theorem Listens.frame {listener : Listener} (listens : Listens payloads s listener) (fetcher : s'.fetchers listener = s.fetchers listener)
    (data : s'.data = s.data) (waiting : listener ∈ s'.waiting ↔ listener ∈ s.waiting) (ended : s'.sender = .done → s.sender = .done ∨ .ended ∈ s'.strand)
    (endedStays : .ended ∈ s.strand → .ended ∈ s'.strand) (resumeStays : .resume listener ∈ s'.strand ↔ .resume listener ∈ s.strand) :
    Listens payloads s' listener where
  received := by rw [fetcher,data]; exact listens.received
  bound := by rw [fetcher,data]; exact listens.bound
  waits := by rw [waiting,fetcher]; exact listens.waits
  waitsForMore isWaiting := by
    rw [fetcher] at isWaiting ⊢
    obtain ⟨index,pending⟩ := listens.waitsForMore isWaiting
    refine ⟨by rw [data,index],fun done => ?_⟩
    rcases ended done with before | now
    · exact endedStays (pending before)
    · exact now
  woken := by rw [fetcher,data]; exact listens.woken
  ended := by rw [fetcher]; exact listens.ended
  posted := by rw [fetcher,resumeStays]; exact listens.posted

theorem send_invariant (invariant : Invariant payloads s) (taken : send s = some s') : Invariant payloads s' := by
  obtain ⟨⟨total,finished,endedLast,endedPosted⟩,distinct,single,listens⟩ := invariant
  cases sender : s.sender with
  | done => simp [send,sender] at taken
  | signalling =>
    simp only [send,sender,Option.some.injEq] at taken
    subst taken
    refine ⟨⟨?_,?_,?_,fun _ => rfl⟩,distinct,by simpa [post,resumes] using single,fun listener => ?_⟩
    · simpa [post,updates,sender,Sender.unsent] using total
    · simpa [post,sender] using finished
    · refine endedLast_append [.ended] endedLast (fun _ => rfl) ?_
      intro before after same
      cases before with
      | nil => rw [(List.cons.inj same).2.symm]; rfl
      | cons handler before => simp at same
    · exact (listens listener).frame rfl rfl Iff.rfl (fun _ => .inr (by simp [post])) (fun _ => by simp [post]) (by simp [post])
  | sending rest =>
    cases rest with
    | nil =>
      simp only [send,sender] at taken
      split at taken
      · cases taken
      · obtain rfl := Option.some.inj taken
        refine ⟨⟨by simpa [sender,Sender.unsent] using total,by simp,endedLast,?_⟩,distinct,single,fun listener => ?_⟩
        · exact fun member => absurd (endedPosted member) (by rw [sender]; simp)
        · exact (listens listener).frame rfl rfl Iff.rfl (fun done => by cases done) id Iff.rfl
    | cons payload rest =>
      simp only [send,sender] at taken
      split at taken
      · cases taken
      · rename_i unfinished
        obtain rfl := Option.some.inj taken
        have notEnded : .ended ∉ s.strand := fun member => absurd (endedPosted member) (by rw [sender]; simp)
        refine ⟨⟨?_,?_,?_,?_⟩,distinct,by simpa [post,resumes] using single,fun listener => ?_⟩
        · simpa [post,updates,sender,Sender.unsent] using total
        · simpa [post] using unfinished
        · refine endedLast_append [.update payload] endedLast (fun member => absurd member notEnded) ?_
          intro before after same
          cases before <;> simp at same
        · intro member
          simp only [post,mem_append,mem_singleton,reduceCtorEq,or_false] at member
          exact absurd member notEnded
        · exact (listens listener).frame rfl rfl Iff.rfl (fun done => by cases done) (fun member => by simp [post,member]) (by simp [post])

end

section
variable (posted : Posted payloads s) (listener : Listener) (fetcher : UpdateFetcher Payload)
include posted

theorem Posted.setFetcher :
    Posted payloads (s.setFetcher listener fetcher) := ⟨posted.total,posted.finished,posted.endedLast,posted.endedPosted⟩

theorem Posted.resume (waiting : List Listener) :
    Posted payloads (post (.resume listener) ({s with waiting := waiting}.setFetcher listener fetcher)) := by
  obtain ⟨total,finished,endedLast,endedPosted⟩ := posted
  refine ⟨by simpa [post,updates,State.setFetcher] using total,finished,?_,?_⟩
  · refine endedLast_append [.resume listener] endedLast (fun _ => rfl) ?_
    intro before after same
    cases before <;> simp at same
  · intro member
    simp only [post,State.setFetcher,mem_append,mem_singleton,reduceCtorEq,or_false] at member
    exact endedPosted member

end

variable {strand : List (Handler Payload Listener)}

omit [DecidableEq Listener] in
theorem single_resume {listener : Listener} (single : (resumes strand).Nodup) (absent : listener ∉ resumes strand) :
    (resumes (strand ++ [.resume listener])).Nodup := by
  rw [resumes_append]
  refine nodup_append'.mpr ⟨single,nodup_singleton _,fun other member last => ?_⟩
  rw [mem_singleton.mp last] at member
  exact absent member

theorem waitForEvent_invariant
    (invariant : Invariant payloads s) (listener : Listener) (taken : waitForEvent listener s = some s') : Invariant payloads s' := by
  unfold waitForEvent at taken
  split at taken
  · rename_i idle
    obtain rfl := Option.some.inj taken
    have absent : listener ∉ resumes s.strand := fun member => by
      have position := (invariant.listens listener).posted.mpr ((mem_resumes _ _).mp member)
      rw [idle] at position
      simp at position
    refine ⟨invariant.posted.resume listener _ s.waiting,invariant.distinct,single_resume invariant.single absent,fun other => ?_⟩
    by_cases same : other = listener
    · subst same
      have listens := invariant.listens other
      have notWaiting : other ∉ s.waiting := fun member => absurd (listens.waits.mp member) (by rw [idle]; simp)
      exact ⟨by simpa [post,State.setFetcher] using listens.received,by simpa [post,State.setFetcher] using listens.bound,
        by simpa [post,State.setFetcher] using notWaiting,by simp [post,State.setFetcher],by simp [post,State.setFetcher],by simp [post,State.setFetcher],
        by simp [post,State.setFetcher]⟩
    · refine (invariant.listens other).frame ?_ rfl Iff.rfl (fun done => .inl done) (fun member => by simp [post,State.setFetcher,member]) (by simp [post,State.setFetcher,same])
      simp [post,State.setFetcher,same]
  · cases taken

theorem cancel_invariant (invariant : Invariant payloads s) (listener : Listener) : Invariant payloads (cancel listener s) := by
  have listens := invariant.listens listener
  unfold cancel
  split
  · rename_i waiting
    have absent : listener ∉ resumes s.strand := fun member => by
      have position := listens.posted.mpr ((mem_resumes _ _).mp member)
      rw [waiting] at position
      simp at position
    refine ⟨invariant.posted.resume listener _ _,invariant.distinct.erase listener,single_resume invariant.single absent,fun other => ?_⟩
    by_cases same : other = listener
    · subst same
      exact ⟨by simpa [post,State.setFetcher] using listens.received,by simpa [post,State.setFetcher] using listens.bound,
        by simpa [post,State.setFetcher] using invariant.distinct.not_mem_erase,by simp [post,State.setFetcher],by simp [post,State.setFetcher],
        by simp [post,State.setFetcher],by simp [post,State.setFetcher]⟩
    · refine (invariant.listens other).frame ?_ rfl ?_ (fun done => .inl done) (fun member => by simp [post,State.setFetcher,member]) (by simp [post,State.setFetcher,same])
      · simp [post,State.setFetcher,same]
      · simp [post,State.setFetcher,mem_erase_of_ne same]
  · rename_i notWaiting
    refine ⟨invariant.posted.setFetcher listener _,invariant.distinct,invariant.single,fun other => ?_⟩
    by_cases same : other = listener
    · subst same
      exact ⟨by simpa [State.setFetcher] using listens.received,by simpa [State.setFetcher] using listens.bound,by simpa [State.setFetcher] using listens.waits,
        by simpa [State.setFetcher] using listens.waitsForMore,by simp [State.setFetcher],by simp [State.setFetcher],by simpa [State.setFetcher] using listens.posted⟩
    · exact (invariant.listens other).frame (by simp [State.setFetcher,same]) rfl Iff.rfl (fun done => .inl done) id Iff.rfl

theorem wakeUp_invariant (posted : Posted payloads s) (distinct : s.waiting.Nodup) (single : (resumes s.strand).Nodup)
    (received : ∀ listener, (s.fetchers listener).received = s.data.take (s.fetchers listener).nextIndex)
    (bound : ∀ listener, (s.fetchers listener).nextIndex ≤ s.data.length)
    (waits : ∀ listener, listener ∈ s.waiting ↔ (s.fetchers listener).position = .waiting)
    (reached : ∀ listener ∈ s.waiting, (s.fetchers listener).nextIndex < s.data.length ∨ s.data = payloads)
    (woken : ∀ listener, (s.fetchers listener).position = .woken → (s.fetchers listener).cancelled = false → (s.fetchers listener).nextIndex < s.data.length ∨ s.data = payloads)
    (ended : ∀ listener, (s.fetchers listener).position = .ended → (s.fetchers listener).cancelled = false → (s.fetchers listener).received = payloads)
    (resumed : ∀ listener, (s.fetchers listener).position = .testing ∨ (s.fetchers listener).position = .woken ↔ .resume listener ∈ s.strand) :
    Invariant payloads (wakeUpWaitingListeners s) := by
  obtain ⟨total,finished,endedLast,endedPosted⟩ := posted
  refine ⟨⟨?_,finished,?_,?_⟩,nodup_nil,?_,fun listener => ?_⟩
  · simpa [wakeUpWaitingListeners] using total
  · refine endedLast_append _ endedLast (fun _ => updates_resume _) ?_
    intro before after same
    have member : Handler.ended ∈ s.waiting.map (Handler.resume : Listener → Handler Payload Listener) := by simp [same]
    simp at member
  · intro member
    simp only [wakeUpWaitingListeners,mem_append,List.mem_map,reduceCtorEq,and_false,exists_false,or_false] at member
    exact endedPosted member
  · change (resumes (s.strand ++ s.waiting.map .resume)).Nodup
    rw [resumes_append,resumes_resume]
    refine nodup_append'.mpr ⟨single,distinct,?_⟩
    intro listener onStrand isWaiting
    have position := (resumed listener).mpr ((mem_resumes _ _).mp onStrand)
    rw [(waits listener).mp isWaiting] at position
    simp at position
  · by_cases member : listener ∈ s.waiting
    · have fetcher : (wakeUpWaitingListeners s).fetchers listener = {s.fetchers listener with position := .woken} := if_pos member
      exact ⟨by rw [fetcher]; exact received listener,by rw [fetcher]; exact bound listener,iff_of_false (by simp [wakeUpWaitingListeners]) (by rw [fetcher]; simp),by simp [fetcher],
        fun _ _ => by rw [fetcher]; exact reached listener member,by simp [fetcher],
        iff_of_true (by simp [fetcher]) (mem_append_right _ (mem_map_of_mem member))⟩
    · have fetcher : (wakeUpWaitingListeners s).fetchers listener = s.fetchers listener := if_neg member
      have notWaiting : (s.fetchers listener).position ≠ .waiting := fun waiting => member ((waits listener).mpr waiting)
      exact ⟨by rw [fetcher]; exact received listener,by rw [fetcher]; exact bound listener,iff_of_false (by simp [wakeUpWaitingListeners]) (by rw [fetcher]; exact notWaiting),
        fun waiting => absurd (fetcher ▸ waiting) notWaiting,by rw [fetcher]; exact woken listener,by rw [fetcher]; exact ended listener,
        by rw [fetcher,resumed]; simp [wakeUpWaitingListeners,member]⟩

omit [DecidableEq Listener] in
theorem Posted.tail {handler : Handler Payload Listener} (posted : Posted payloads s)
    (first : s.strand = handler::strand) : ∀ before after, strand = before ++ .ended::after → updates after = [] :=
  fun before after same => posted.endedLast (handler::before) after (by rw [first,same]; rfl)

theorem update_invariant (invariant : Invariant payloads s) (payload : Payload) (strand : List (Handler Payload Listener))
    (first : s.strand = .update payload::strand) :
    Invariant payloads (wakeUpWaitingListeners {s with strand := strand,data := s.data ++ [payload]}) := by
  obtain ⟨posted,distinct,single,listens⟩ := invariant
  have longer : ∀ listener, (s.fetchers listener).nextIndex < (s.data ++ [payload]).length := by
    intro listener
    have bound := (listens listener).bound
    simp only [length_append,length_singleton]
    omega
  refine wakeUp_invariant ⟨?_,posted.finished,posted.tail first,?_⟩ distinct (by rw [first] at single; exact single) ?_ (fun listener => (longer listener).le) (fun listener => (listens listener).waits)
    (fun listener _ => .inl (longer listener)) (fun listener _ _ => .inl (longer listener)) (fun listener => (listens listener).ended) ?_
  · have total := posted.total
    simp only [first,updates,filterMap_cons] at total
    simpa [updates] using total
  · exact fun member => posted.endedPosted (by rw [first]; exact mem_cons_of_mem _ member)
  · intro listener
    rw [(listens listener).received,take_append_of_le_length (listens listener).bound]
  · intro listener
    rw [(listens listener).posted,first]
    simp

theorem ended_invariant (invariant : Invariant payloads s) (strand : List (Handler Payload Listener)) (first : s.strand = .ended::strand) :
    Invariant payloads (wakeUpWaitingListeners {s with strand := strand}) := by
  obtain ⟨posted,distinct,single,listens⟩ := invariant
  have done : s.sender = .done := posted.endedPosted (by simp [first])
  have noUpdates : updates strand = [] := posted.endedLast [] strand first
  have all : s.data = payloads := by
    have total := posted.total
    rw [done,first] at total
    have rest : updates (.ended::strand : List (Handler Payload Listener)) = updates strand := rfl
    simpa [rest,noUpdates,Sender.unsent] using total.symm
  refine wakeUp_invariant ⟨?_,posted.finished,posted.tail first,fun _ => done⟩ distinct (by rw [first] at single; exact single) (fun listener => (listens listener).received)
    (fun listener => (listens listener).bound) (fun listener => (listens listener).waits) (fun listener _ => .inr all) (fun listener _ _ => .inr all)
    (fun listener => (listens listener).ended) ?_
  · simp [all,noUpdates,done,Sender.unsent]
  · intro listener
    rw [(listens listener).posted,first]
    simp

theorem resume_others
    (invariant : Invariant payloads s) (listener : Listener) (strand : List (Handler Payload Listener)) (first : s.strand = .resume listener::strand)
    (fetcher : UpdateFetcher Payload) (waiting : List Listener) (distinct : waiting.Nodup) (others : ∀ other ≠ listener, (other ∈ waiting ↔ other ∈ s.waiting))
    (listens : .resume listener ∉ strand → Listens payloads ({s with strand := strand,waiting := waiting}.setFetcher listener fetcher) listener) :
    Invariant payloads ({s with strand := strand,waiting := waiting}.setFetcher listener fetcher) := by
  obtain ⟨posted,_,single,others'⟩ := invariant
  rw [first] at single
  obtain ⟨absent,single⟩ := nodup_cons.mp single
  refine ⟨⟨?_,posted.finished,posted.tail first,fun member => ?_⟩,distinct,single,fun other => ?_⟩
  · have total := posted.total
    rw [first] at total
    exact total
  · exact posted.endedPosted (by rw [first]; exact mem_cons_of_mem _ member)
  · by_cases same : other = listener
    · subst same
      exact listens (fun member => absent ((mem_resumes strand other).mpr member))
    · refine (others' other).frame (by simp [State.setFetcher,same]) rfl (others other same) (fun done => .inl done) ?_ ?_
      · rw [first]
        simp [State.setFetcher]
      · rw [first]
        simp [State.setFetcher,same]

omit [DecidableEq Listener] in
theorem ended_received
    (invariant : Invariant payloads s) (listener : Listener) (strand : List (Handler Payload Listener)) (first : s.strand = .resume listener::strand)
    (allowed : NoPendingUpdate s .run) (noMore : s.data.length ≤ (s.fetchers listener).nextIndex)
    (finished : (s.fetchers listener).position = .testing → s.finished = true) (live : (s.fetchers listener).cancelled = false) :
    (s.fetchers listener).received = payloads := by
  have listens := invariant.listens listener
  have all : s.data = payloads := by
    rcases listens.posted.mpr (by rw [first]; exact mem_cons_self) with testing | woken
    · have isFinished := finished testing
      simp only [NoPendingUpdate,first] at allowed
      have none := allowed testing noMore isFinished
      have unsent : s.sender.unsent = [] := by
        cases sender : s.sender with
        | sending rest => exact absurd sender (invariant.posted.finished.mp isFinished rest)
        | signalling | done => rfl
      have total := invariant.posted.total
      have rest : updates (.resume listener::strand : List (Handler Payload Listener)) = updates strand := rfl
      rw [first,rest,none,unsent] at total
      simpa using total.symm
    · rcases listens.woken woken live with less | all
      · omega
      · exact all
  rw [listens.received,take_of_length_le noMore,all]

section
variable (invariant : Invariant payloads s)
include invariant

theorem resume_invariant (listener : Listener) (strand : List (Handler Payload Listener))
    (first : s.strand = .resume listener::strand) (allowed : NoPendingUpdate s .run) :
    Invariant payloads (waitForNextDataPiece listener {s with strand := strand}) := by
  have listens := invariant.listens listener
  have onStrand := listens.posted.mpr (by rw [first]; exact mem_cons_self)
  have notWaiting : listener ∉ s.waiting := fun member => by
    rw [listens.waits.mp member] at onStrand
    simp at onStrand
  unfold waitForNextDataPiece
  simp only
  cases entry : s.data[(s.fetchers listener).nextIndex]? with
  | some payload =>
    obtain ⟨inside,value⟩ := List.getElem?_eq_some_iff.mp entry
    refine resume_others invariant listener strand first _ s.waiting invariant.distinct (fun _ _ => Iff.rfl) (fun absent => ?_)
    refine ⟨?_,?_,?_,?_,?_,?_,?_⟩
    · simp only [State.setFetcher,Function.update_self,UpdateFetcher.receive]
      rw [listens.received,take_add_one,entry]
      rfl
    · simpa [State.setFetcher,UpdateFetcher.receive] using Nat.succ_le_of_lt inside
    · simpa [State.setFetcher,UpdateFetcher.receive] using notWaiting
    · simp [State.setFetcher,UpdateFetcher.receive]
    · simp [State.setFetcher,UpdateFetcher.receive]
    · simp [State.setFetcher,UpdateFetcher.receive]
    · simpa [State.setFetcher,UpdateFetcher.receive] using absent
  | none =>
    have noMore := List.getElem?_eq_none_iff.mp entry
    simp only
    split
    · rename_i waits
      have sending : s.sender ≠ .done := fun done => by
        have finished := invariant.posted.finished.mpr (fun rest => by rw [done]; simp)
        rw [finished] at waits
        exact absurd waits.2 (by simp)
      refine resume_others invariant listener strand first _ (s.waiting ++ [listener]) ?_ (fun other differs => by simp [differs]) (fun absent => ?_)
      · refine nodup_append'.mpr ⟨invariant.distinct,nodup_singleton _,fun other member last => ?_⟩
        rw [mem_singleton.mp last] at member
        exact notWaiting member
      · refine ⟨by simpa [State.setFetcher] using listens.received,by simpa [State.setFetcher] using listens.bound,by simp [State.setFetcher],fun _ => ⟨?_,?_⟩,
          by simp [State.setFetcher],by simp [State.setFetcher],by simpa [State.setFetcher] using absent⟩
        · simpa [State.setFetcher] using Nat.le_antisymm listens.bound noMore
        · exact fun done => absurd done sending
    · rename_i ends
      refine resume_others invariant listener strand first _ s.waiting invariant.distinct (fun _ _ => Iff.rfl) (fun absent => ?_)
      refine ⟨by simpa [State.setFetcher] using listens.received,by simpa [State.setFetcher] using listens.bound,by simpa [State.setFetcher] using notWaiting,
        by simp [State.setFetcher],by simp [State.setFetcher],fun _ live => ?_,by simpa [State.setFetcher] using absent⟩
      have finished : (s.fetchers listener).position = .testing → s.finished = true := by simpa using ends
      simpa [State.setFetcher] using ended_received invariant listener strand first allowed noMore finished (by simpa [State.setFetcher] using live)

theorem run_invariant (allowed : NoPendingUpdate s .run) (taken : run s = some s') : Invariant payloads s' := by
  cases strand : s.strand with
  | nil => simp [run,strand] at taken
  | cons handler strand' =>
    cases handler with
    | update payload =>
      simp only [run,strand,Option.some.injEq] at taken
      subst taken
      exact update_invariant invariant payload strand' strand
    | ended =>
      simp only [run,strand,Option.some.injEq] at taken
      subst taken
      exact ended_invariant invariant strand' strand
    | resume listener =>
      simp only [run,strand,Option.some.injEq] at taken
      subst taken
      exact resume_invariant invariant listener strand' strand allowed

theorem step_invariant (action : Action Listener) (allowed : NoPendingUpdate s action) (taken : step s action = some s') :
    Invariant payloads s' := by
  cases action with
  | send => exact send_invariant invariant taken
  | waitForEvent listener => exact waitForEvent_invariant invariant listener taken
  | cancel listener =>
    obtain rfl := Option.some.inj taken
    exact cancel_invariant invariant listener
  | run => exact run_invariant invariant allowed taken

end

omit [DecidableEq Listener] in
theorem Invariant.delivered (invariant : Invariant payloads s) : Delivered payloads s := by
  obtain ⟨posted,distinct,single,listens⟩ := invariant
  refine ⟨fun listener => ?_,fun listener live ended => (listens listener).ended ended live,fun done empty listener => ?_⟩
  · rw [(listens listener).received,posted.total,append_assoc]
    exact (List.take_prefix _ _).trans (prefix_append _ _)
  · cases position : (s.fetchers listener).position with
    | idle => exact .inl rfl
    | ended => exact .inr rfl
    | testing => exact absurd ((listens listener).posted.mp (.inl position)) (by simp [empty])
    | woken => exact absurd ((listens listener).posted.mp (.inr position)) (by simp [empty])
    | waiting => exact absurd (((listens listener).waitsForMore position).2 done) (by simp [empty])

end Invariant

/-- In every run in which no listener tests the flag too early, the payloads are delivered. -/
theorem run_delivered (payloads : List Payload) (s : State Payload Listener) (steps : Run step NoPendingUpdate (initial payloads) s) : Delivered payloads s :=
  (steps.invariant Invariant.initial (fun _ action _ invariant allowed taken => step_invariant invariant action allowed taken)).delivered

instance [DecidableEq Payload] (s : State Payload Listener) (action : Action Listener) : Decidable (NoPendingUpdate s action) :=
  match action with
  | .run => match strand : s.strand with
    | .resume listener::rest =>
      if early : (s.fetchers listener).position = .testing ∧ s.data.length ≤ (s.fetchers listener).nextIndex ∧ s.finished = true ∧ updates rest ≠ [] then
        isFalse (by
          simp only [NoPendingUpdate,strand]
          exact fun allowed => early.2.2.2 (allowed early.1 early.2.1 early.2.2.1))
      else
        isTrue (by
          simp only [NoPendingUpdate,strand]
          exact fun testing noMore finished => by_contra (fun pending => early ⟨testing,noMore,finished,pending⟩))
    | [] | .update _::_ | .ended::_ => isTrue (by simp only [NoPendingUpdate,strand])
  | .send | .waitForEvent _ | .cancel _ => isTrue trivial

/-- A listener waits, receives the only payload, waits again and is ended by the handler of `signalEnd`. -/
theorem run_delivered_onePayload : ∃ s : State Nat Unit, Run step NoPendingUpdate (initial [1]) s ∧ (s.fetchers ()).position = .ended ∧
    (s.fetchers ()).received = [1] := by
  let actions : List (Action Unit) := [.waitForEvent (),.run,.send,.run,.run,.waitForEvent (),.run,.send,.send,.run,.run]
  let played := actions.foldlM (fun s action => if NoPendingUpdate s action then step s action else none) (initial [1])
  obtain ⟨s,done⟩ := Option.isSome_iff_exists.mp (show played.isSome = true by decide)
  have ended : played.map (fun s => ((s.fetchers ()).position,(s.fetchers ()).cancelled)) = some (.ended,false) := by decide
  rw [done] at ended
  obtain ⟨position,live⟩ := Prod.mk.inj (Option.some.inj ended)
  have steps := Run.of_actions done
  exact ⟨s,steps,position,(run_delivered [1] s steps).complete () live position⟩

/-- The step of the listener is posted before the payload and runs after the flag is set. -/
theorem run_not_delivered : ∃ s : State Nat Unit, Run step Always (initial [1]) s ∧ ¬ Delivered [1] s := by
  let actions : List (Action Unit) := [.waitForEvent (),.send,.send,.run]
  let played := actions.foldlM (fun s action => if Always s action then step s action else none) (initial [1])
  obtain ⟨s,done⟩ := Option.isSome_iff_exists.mp (show played.isSome = true by decide)
  have ended : played.map (fun s => ((s.fetchers ()).position,(s.fetchers ()).cancelled,(s.fetchers ()).received)) = some (.ended,false,[]) := by decide
  rw [done] at ended
  simp only [Option.map_some,Option.some.injEq,Prod.mk.injEq] at ended
  obtain ⟨position,live,received⟩ := ended
  refine ⟨s,Run.of_actions done,fun delivered => ?_⟩
  have all := delivered.complete () live position
  rw [received] at all
  cases all

end QueryToSocketDistributor
end Qlever
