import Qlever.ConcurrentCache

/-! Runs of the `ConcurrentCache`. Nothing is thrown as long as no key is inserted a second time and the pinned entries fit into
the cache.
-/
namespace Qlever.ConcurrentCache
open Library FlexibleCache Function
open Option (some_inj)
variable {Key Value Client : Type} [DecidableEq Key] [DecidableEq Client] {config : CacheConfig Value} {calls : Client → Call Key Value}
  {s s' : State Key Value Client}

def ComputedFor (calls : Client → Call Key Value) (key : Key) (value : Value) : Prop :=
  ∃ client,(∃ computation,calls client = .computeOnce computation ∧ computation.key = key ∧ computation.value = value) ∨
    ∃ pinned,calls client = .tryInsertIfNotPresent pinned key value

/-- Every value fits the limit for a single entry, and the value of a pinned call is suitable for the cache. -/
structure Admissible (config : CacheConfig Value) (calls : Client → Call Key Value) : Prop where
  fits : ∀ key value,ComputedFor calls key value → config.size value ≤ config.maxSizeSingleEntry
  suitable : ∀ client computation,calls client = .computeOnce computation → computation.pinned = true → computation.suitableForCache = true

def Phase.raised : Phase Client Value → Bool
  | .catching => true
  | .aborting => true
  | .threw => true
  | _ => false

def Phase.finished : Phase Client Value → Bool
  | .returned _ => true
  | .done => true
  | .threw => true
  | _ => false

def Phase.sectionsLeft : Phase Client Value → Nat
  | .ready => 5
  | .computing => 4
  | .stored => 3
  | .released => 3
  | .catching => 2
  | .aborting => 1
  | .waiting _ => 2
  | .recomputing => 1
  | _ => 0

/-- The condition on a step: an owner moves its result to the cache only if nobody else has inserted the key in the meantime, and
whenever a key is inserted, the pinned entries are not larger than the cache. -/
def InsertsOnce (config : CacheConfig Value) (calls : Client → Call Key Value) (s : State Key Value Client) (action : Action Key Value Client) : Prop :=
  match s.phase action.client,calls action.client with
  | .computing,.computeOnce computation => computation.suitableForCache = true → FlexibleCache.CanInsert config s.cache computation.key
  | .recomputing,.computeOnce computation =>
    computation.suitableForCache = true → s.cache.contains computation.key = false → FlexibleCache.CanInsert config s.cache computation.key
  | .ready,.tryInsertIfNotPresent _ key _ => s.cache.contains key = false → FlexibleCache.CanInsert config s.cache key
  | _,_ => True

def StaysPinned (s : State Key Value Client) (client : Client) (key : Key) : Prop :=
  s.startedAt client = s.clears → s.cache.containsPinned key = true

structure Correct (config : CacheConfig Value) (calls : Client → Call Key Value) (s : State Key Value Client) : Prop where
  noneThrows : ∀ client,(s.phase client).raised = false
  computed : ∀ client computation result,calls client = .computeOnce computation → s.phase client = .returned result →
    match result.resultPointer with
    | some value => ComputedFor calls computation.key value
    | none => computation.onlyReadFromCache = true
  oneOwner : ∀ client client' computation computation',calls client = .computeOnce computation → calls client' = .computeOnce computation' →
    computation.key = computation'.key → s.phase client = .computing → s.phase client' = .computing → client = client'
  ownedUntilReturn : ∀ key pinned owner,s.inProgress key = some (pinned,owner) → s.phase owner = .computing
  pinned : ∀ client computation value cacheStatus,calls client = .computeOnce computation → computation.pinned = true →
    s.phase client = .returned ⟨some value,cacheStatus⟩ → StaysPinned s client computation.key
  progress : ∀ client evict,(s.phase client).finished = false → (step config calls s ⟨client,evict⟩).isSome = true ∨
    ∃ owner,s.phase client = .waiting owner ∧ (step config calls s ⟨owner,evict⟩).isSome = true
  closer : ∀ action s',step config calls s action = some s' → (s'.phase action.client).sectionsLeft < (s.phase action.client).sectionsLeft

section Invariant

def Waits (calls : Client → Call Key Value) (s : State Key Value Client) (client : Client) (computation : Computation Key Value) (owner : Client) : Prop :=
  match s.phase owner with
  | .computing => computation.pinned = true → s.inProgress computation.key = some (true,owner)
  | .stored => computation.pinned = true → StaysPinned s client computation.key
  | .released => True
  | .returned _ =>
    match s.results owner with
    | .finished (some value) => ComputedFor calls computation.key value ∧ (computation.pinned = true → StaysPinned s client computation.key)
    | .finished none => True
    | _ => False
  | _ => False

/-- What holds for a call of `computeOnce` in each phase. -/
def ComputationInv (calls : Client → Call Key Value) (s : State Key Value Client) (client : Client) (computation : Computation Key Value) : Prop :=
  match s.phase client with
  | .ready => s.results client = .inProgress
  | .computing => s.results client = .inProgress ∧
    ∃ pinned,s.inProgress computation.key = some (pinned,client) ∧ (computation.pinned = true → pinned = true)
  | .stored => s.results client = .inProgress ∧ (computation.pinned = true → StaysPinned s client computation.key)
  | .released => s.results client = .inProgress ∧ computation.pinned = false
  | .waiting owner => (∃ other,calls owner = .computeOnce other ∧ other.key = computation.key) ∧ Waits calls s client computation owner
  | .recomputing => True
  | .returned result =>
    match result.resultPointer with
    | some value => ComputedFor calls computation.key value ∧ (computation.pinned = true → StaysPinned s client computation.key)
    | none => computation.onlyReadFromCache = true
  | _ => False

structure Inv (config : CacheConfig Value) (calls : Client → Call Key Value) (s : State Key Value Client) : Prop where
  counted : FlexibleCache.Counted config s.cache
  values : ∀ entry,s.cache.Holds entry → ComputedFor calls entry.1 entry.2
  entries : ∀ key pinned owner,s.inProgress key = some (pinned,owner) →
    s.phase owner = .computing ∧ ∃ computation,calls owner = .computeOnce computation ∧ computation.key = key
  started : ∀ client,s.startedAt client ≤ s.clears
  computations : ∀ client computation,calls client = .computeOnce computation → ComputationInv calls s client computation
  others : ∀ client,(∀ computation,calls client ≠ .computeOnce computation) → s.phase client = .ready ∨ s.phase client = .done

structure Frame (calls : Client → Call Key Value) (s s' : State Key Value Client) (client : Client) : Prop where
  phase : ∀ other,other ≠ client → s'.phase other = s.phase other
  results : ∀ other,other ≠ client → s'.results other = s.results other
  staysPinned : ∀ other key,other ≠ client → StaysPinned s other key → StaysPinned s' other key
  entries : ∀ key pinned owner,owner ≠ client → s.inProgress key = some (pinned,owner) →
    ∃ pinned',s'.inProgress key = some (pinned',owner) ∧ (pinned = true → pinned' = true)
  waits : ∀ other own computation,other ≠ client → calls client = .computeOnce own → own.key = computation.key →
    Waits calls s other computation client → Waits calls s' other computation client

variable {client : Client} {computation : Computation Key Value}

theorem Frame.keeps_waits {other owner : Client} (frame : Frame calls s s' client) (different : other ≠ client)
    {own : Computation Key Value} (isCall : calls owner = .computeOnce own) (sameKey : own.key = computation.key)
    (waits : Waits calls s other computation owner) : Waits calls s' other computation owner := by
  by_cases same : owner = client
  · subst same
    exact frame.waits other own computation different isCall sameKey waits
  unfold Waits at waits ⊢
  rw [frame.phase owner same,frame.results owner same]
  cases phase : s.phase owner <;> simp only [phase] at waits ⊢
  case computing =>
    intro pinned
    obtain ⟨pinned',entry,kept⟩ := frame.entries computation.key true owner same (waits pinned)
    rw [entry,kept rfl]
  case stored => exact fun pinned => frame.staysPinned other _ different (waits pinned)
  case returned =>
    cases result : s.results owner with
    | inProgress | aborted => simp [result] at waits
    | finished value =>
      cases value with
      | none => trivial
      | some value =>
        simp only [result] at waits ⊢
        exact ⟨waits.1,fun pinned => frame.staysPinned other _ different (waits.2 pinned)⟩

theorem Frame.keeps {other : Client} (frame : Frame calls s s' client) (different : other ≠ client)
    (inv : ComputationInv calls s other computation) : ComputationInv calls s' other computation := by
  unfold ComputationInv at inv ⊢
  rw [frame.phase other different,frame.results other different]
  cases phase : s.phase other <;> simp only [phase] at inv ⊢
  case ready => exact inv
  case computing =>
    obtain ⟨result,pinned,entry,isPinned⟩ := inv
    obtain ⟨pinned',entry',kept⟩ := frame.entries _ _ _ different entry
    exact ⟨result,pinned',entry',fun required => kept (isPinned required)⟩
  case stored => exact ⟨inv.1,fun pinned => frame.staysPinned other _ different (inv.2 pinned)⟩
  case released => exact inv
  case waiting owner =>
    obtain ⟨⟨own,isCall,sameKey⟩,waits⟩ := inv
    exact ⟨⟨own,isCall,sameKey⟩,frame.keeps_waits different isCall sameKey waits⟩
  case returned result =>
    cases pointer : result.resultPointer with
    | none => simpa only [pointer] using inv
    | some value =>
      simp only [pointer] at inv ⊢
      exact ⟨inv.1,fun pinned => frame.staysPinned other _ different (inv.2 pinned)⟩

theorem Inv.of_frame (client : Client) (inv : Inv config calls s) (frame : Frame calls s s' client) (counted : FlexibleCache.Counted config s'.cache)
    (values : ∀ entry,s'.cache.Holds entry → ComputedFor calls entry.1 entry.2)
    (entries : ∀ key pinned owner,s'.inProgress key = some (pinned,owner) →
      s'.phase owner = .computing ∧ ∃ computation,calls owner = .computeOnce computation ∧ computation.key = key)
    (started : ∀ other,s'.startedAt other ≤ s'.clears)
    (mover : ∀ computation,calls client = .computeOnce computation → ComputationInv calls s' client computation)
    (noComputation : (∀ computation,calls client ≠ .computeOnce computation) → s'.phase client = .ready ∨ s'.phase client = .done) :
    Inv config calls s' where
  counted := counted
  values := values
  entries := entries
  started := started
  computations other computation isCall := by
    by_cases same : other = client
    · subst same
      exact mover computation isCall
    · exact frame.keeps same (inv.computations other computation isCall)
  others other isCall := by
    by_cases same : other = client
    · subst same
      exact noComputation isCall
    · rw [frame.phase other same]
      exact inv.others other isCall

def Phase.alone : Phase Client Value → Bool
  | .ready => true
  | .waiting _ => true
  | .recomputing => true
  | _ => false

section
omit [DecidableEq Client]

theorem not_waits {owner : Client} (alone : (s.phase owner).alone = true) :
    ¬ Waits calls s client computation owner := by
  intro waits
  unfold Waits at waits
  cases phase : s.phase owner <;> simp only [phase,Phase.alone,Bool.false_eq_true] at alone waits

theorem staysPinned_of {key : Key} (started : s'.startedAt client = s.startedAt client) (clears : s'.clears = s.clears)
    (kept : s.cache.pinnedMap ⊆ s'.cache.pinnedMap) (pinned : StaysPinned s client key) : StaysPinned s' client key := by
  intro notCleared
  rw [started,clears] at notCleared
  exact containsPinned_mono kept (pinned notCleared)

end

theorem Inv.move {cache : FlexibleCache Key Value} {phase : Phase Client Value} (inv : Inv config calls s)
    (alone : (s.phase client).alone = true) (counted : FlexibleCache.Counted config cache)
    (values : ∀ entry,cache.Holds entry → ComputedFor calls entry.1 entry.2) (kept : s.cache.pinnedMap ⊆ cache.pinnedMap)
    (mover : ∀ computation,calls client = .computeOnce computation → ComputationInv calls ({s with cache}.setPhase client phase) client computation)
    (noComputation : (∀ computation,calls client ≠ .computeOnce computation) → phase = .ready ∨ phase = .done) :
    Inv config calls ({s with cache}.setPhase client phase) := by
  refine inv.of_frame client ⟨?_,fun _ _ => rfl,?_,?_,?_⟩ counted values ?_ inv.started mover ?_
  · exact fun other different => update_of_ne different _ _
  · exact fun other key _ pinned => staysPinned_of (s := s) rfl rfl kept pinned
  · exact fun key pinned owner _ entry => ⟨pinned,entry,id⟩
  · exact fun _ _ _ _ _ _ waits => absurd waits (not_waits alone)
  · intro key pinned owner entry
    obtain ⟨computing,isCall⟩ := inv.entries key pinned owner entry
    refine ⟨?_,isCall⟩
    have different : owner ≠ client := by
      intro same
      rw [same] at computing
      rw [computing] at alone
      cases alone
    exact (update_of_ne different _ _).trans computing
  · intro isCall
    have now : ({s with cache}.setPhase client phase).phase client = phase := update_self _ _ _
    rw [now]
    exact noComputation isCall

end Invariant

section Steps
variable {client : Client} {computation : Computation Key Value}

omit [DecidableEq Key] in
@[simp] theorem setPhase_phase (s : State Key Value Client) (client : Client) (phase : Phase Client Value) :
    (s.setPhase client phase).phase client = phase := update_self _ _ _

theorem getCacheStatus_eq_computed (cache : FlexibleCache Key Value) (key : Key) : getCacheStatus cache key = .computed ↔ cache.contains key = false := by
  unfold getCacheStatus contains
  cases cache.containsPinned key <;> cases cache.containsNonPinned key <;> simp

omit [DecidableEq Client] in
theorem pin_spec (counted : FlexibleCache.Counted config s.cache) (computation : Computation Key Value) :
    ∃ present cache,(if computation.pinned then s.cache.containsAndMakePinnedIfExists config computation.key else .ok (false,s.cache)) =
        .ok (present,cache) ∧ FlexibleCache.Counted config cache ∧ (∀ entry,cache.Holds entry → s.cache.Holds entry) ∧
      s.cache.pinnedMap ⊆ cache.pinnedMap ∧ (computation.pinned = true → s.cache.contains computation.key = true →
        cache.containsPinned computation.key = true) ∧ cache.contains computation.key = s.cache.contains computation.key := by
  cases pinned : computation.pinned with
  | false => exact ⟨false,s.cache,rfl,counted,fun _ holds => holds,List.Subset.refl _,by simp,rfl⟩
  | true =>
    obtain ⟨cache,run,counted',holds,kept,isPinned,same,_⟩ :=
      containsAndMakePinnedIfExists_spec computation.key counted
    exact ⟨_,cache,run,counted',holds,kept,fun _ => isPinned,same⟩

section
variable (inv : Inv config calls s) (isCall : calls client = .computeOnce computation)
include inv isCall

section
variable (ready : s.phase client = .ready)
include ready

theorem Inv.begin {cache : FlexibleCache Key Value} (counted : FlexibleCache.Counted config cache) (holds : ∀ entry,cache.Holds entry → s.cache.Holds entry)
    (kept : s.cache.pinnedMap ⊆ cache.pinnedMap) : Inv config calls {s with cache,startedAt := update s.startedAt client s.clears} := by
  have alone : (s.phase client).alone = true := by rw [ready]; rfl
  refine inv.of_frame client ⟨fun _ _ => rfl,fun _ _ => rfl,?_,fun _ pinned _ _ entry => ⟨pinned,entry,id⟩,?_⟩ counted
    (fun entry inside => inv.values entry (holds entry inside)) inv.entries ?_ ?_ (fun notCall => absurd isCall (notCall _))
  · exact fun other key different pinned => staysPinned_of (s := s) (update_of_ne different _ _) rfl kept pinned
  · exact fun _ _ _ _ _ _ waits => absurd waits (not_waits alone)
  · intro other
    by_cases same : other = client
    · subst same
      exact (update_self _ _ _).le
    · exact (update_of_ne same _ _).le.trans (inv.started other)
  · intro computation' isCall'
    have before := inv.computations client computation' isCall'
    unfold ComputationInv at before ⊢
    simpa only [ready] using before

theorem Inv.wait {pinned : Bool}
    {owner : Client} (entry : s.inProgress computation.key = some (pinned,owner)) :
    Inv config calls ((s.setInProgress computation.key (some (pinned || computation.pinned,owner))).setPhase client (.waiting owner)) := by
  have alone : (s.phase client).alone = true := by rw [ready]; rfl
  obtain ⟨computing,ownerCall⟩ := inv.entries _ _ _ entry
  have different : owner ≠ client := by
    intro same
    rw [same,ready] at computing
    cases computing
  have updated : ∀ key,key ≠ computation.key → ((s.setInProgress computation.key (some (pinned || computation.pinned,owner))).setPhase client
      (.waiting owner)).inProgress key = s.inProgress key := fun key other => update_of_ne other _ _
  have here : ((s.setInProgress computation.key (some (pinned || computation.pinned,owner))).setPhase client (.waiting owner)).inProgress
      computation.key = some (pinned || computation.pinned,owner) := update_self _ _ _
  refine inv.of_frame client ⟨?_,fun _ _ => rfl,fun _ _ _ isPinned => isPinned,?_,?_⟩ inv.counted inv.values ?_ inv.started ?_
    (fun notCall => absurd isCall (notCall _))
  · exact fun other isOther => update_of_ne isOther _ _
  · intro key isPinned holder _ isEntry
    by_cases same : key = computation.key
    · subst same
      rw [entry] at isEntry
      cases isEntry
      exact ⟨_,here,by simp +contextual⟩
    · exact ⟨isPinned,(updated key same).trans isEntry,id⟩
  · exact fun _ _ _ _ _ _ waits => absurd waits (not_waits alone)
  · intro key isPinned holder isEntry
    have old : ∃ isPinned',s.inProgress key = some (isPinned',holder) := by
      by_cases same : key = computation.key
      · subst same
        rw [here] at isEntry
        cases isEntry
        exact ⟨pinned,entry⟩
      · exact ⟨isPinned,(updated key same).symm.trans isEntry⟩
    obtain ⟨isPinned',isOld⟩ := old
    obtain ⟨stillComputing,holderCall⟩ := inv.entries key isPinned' holder isOld
    refine ⟨(update_of_ne ?_ _ _).trans stillComputing,holderCall⟩
    intro same
    rw [same,ready] at stillComputing
    cases stillComputing
  · intro computation' isCall'
    rw [isCall] at isCall'
    cases isCall'
    have stillComputing : ((s.setInProgress computation.key (some (pinned || computation.pinned,owner))).setPhase client (.waiting owner)).phase owner =
        .computing := (update_of_ne different _ _).trans computing
    unfold ComputationInv
    simp only [setPhase_phase]
    refine ⟨ownerCall,?_⟩
    unfold Waits
    rw [stillComputing]
    intro isPinned
    rw [here,isPinned,Bool.or_true]

theorem Inv.own (noEntry : s.inProgress computation.key = none) :
    Inv config calls ((s.setInProgress computation.key (some (computation.pinned,client))).setPhase client .computing) := by
  have alone : (s.phase client).alone = true := by rw [ready]; rfl
  have updated : ∀ key,key ≠ computation.key → ((s.setInProgress computation.key (some (computation.pinned,client))).setPhase client
      .computing).inProgress key = s.inProgress key := fun key other => update_of_ne other _ _
  have here : ((s.setInProgress computation.key (some (computation.pinned,client))).setPhase client .computing).inProgress
      computation.key = some (computation.pinned,client) := update_self _ _ _
  refine inv.of_frame client ⟨?_,fun _ _ => rfl,fun _ _ _ isPinned => isPinned,?_,?_⟩ inv.counted inv.values ?_ inv.started ?_
    (fun notCall => absurd isCall (notCall _))
  · exact fun other isOther => update_of_ne isOther _ _
  · intro key isPinned holder _ isEntry
    have different : key ≠ computation.key := by
      intro same
      rw [same,noEntry] at isEntry
      cases isEntry
    exact ⟨isPinned,(updated key different).trans isEntry,id⟩
  · exact fun _ _ _ _ _ _ waits => absurd waits (not_waits alone)
  · intro key isPinned holder isEntry
    by_cases same : key = computation.key
    · subst same
      rw [here] at isEntry
      cases isEntry
      exact ⟨setPhase_phase _ _ _,computation,isCall,rfl⟩
    · rw [updated key same] at isEntry
      obtain ⟨stillComputing,holderCall⟩ := inv.entries key isPinned holder isEntry
      refine ⟨(update_of_ne ?_ _ _).trans stillComputing,holderCall⟩
      intro isClient
      rw [isClient,ready] at stillComputing
      cases stillComputing
  · intro computation' isCall'
    rw [isCall] at isCall'
    cases isCall'
    have before := inv.computations client computation isCall
    unfold ComputationInv at before ⊢
    simp only [ready,setPhase_phase] at before ⊢
    exact ⟨before,computation.pinned,here,id⟩

theorem startComputation_inv :
    Inv config calls (startComputation config client computation s) := by
  obtain ⟨present,cache,run,counted,holds,kept,isPinned,same⟩ := pin_spec inv.counted computation
  have begun := inv.begin isCall ready counted holds kept
  have alone : (s.phase client).alone = true := by rw [ready]; rfl
  unfold startComputation
  simp only [run]
  split
  next cached =>
    have contained : s.cache.contains computation.key = true := by
      rw [← Bool.not_eq_false]
      exact fun absent => cached ((getCacheStatus_eq_computed _ _).mpr absent)
    obtain ⟨value,isValue,inside⟩ := get_of_contains (same.trans contained)
    refine Inv.move begun alone begun.counted begun.values (List.Subset.refl _) ?_ (fun notCall => absurd isCall (notCall _))
    intro computation' isCall'
    rw [isCall] at isCall'
    cases isCall'
    unfold ComputationInv
    simp only [setPhase_phase,isValue]
    exact ⟨begun.values _ inside,fun pinned _ => isPinned pinned contained⟩
  next =>
    split
    next onlyRead =>
      refine Inv.move begun alone begun.counted begun.values (List.Subset.refl _) ?_ (fun notCall => absurd isCall (notCall _))
      intro computation' isCall'
      rw [isCall] at isCall'
      cases isCall'
      unfold ComputationInv
      simpa only [setPhase_phase] using onlyRead
    next =>
      cases entry : s.inProgress computation.key with
      | none => exact begun.own isCall ready entry
      | some pair =>
        obtain ⟨pinned,owner⟩ := pair
        exact begun.wait isCall ready entry

end

theorem Inv.leave (computing : s.phase client = .computing) {pinned : Bool}
    (entry : s.inProgress computation.key = some (pinned,client)) {cache : FlexibleCache Key Value} (counted : FlexibleCache.Counted config cache)
    (values : ∀ entry,cache.Holds entry → ComputedFor calls entry.1 entry.2) (kept : s.cache.pinnedMap ⊆ cache.pinnedMap) {phase : Phase Client Value}
    (left : (phase = .stored ∧ (pinned = true → cache.containsPinned computation.key = true)) ∨ (phase = .released ∧ computation.pinned = false)) :
    Inv config calls (({s with cache}.erase computation.key).setPhase client phase) := by
  have updated : ∀ key,key ≠ computation.key → (({s with cache}.erase computation.key).setPhase client phase).inProgress key = s.inProgress key :=
    fun key other => update_of_ne other _ _
  have gone : (({s with cache}.erase computation.key).setPhase client phase).inProgress computation.key = none := update_self _ _ _
  have before := inv.computations client computation isCall
  unfold ComputationInv at before
  simp only [computing] at before
  obtain ⟨result,pinned',entry',isPinned⟩ := before
  rw [entry] at entry'
  cases entry'
  refine inv.of_frame client ⟨?_,fun _ _ => rfl,?_,?_,?_⟩ counted values ?_ inv.started ?_ (fun notCall => absurd isCall (notCall _))
  · exact fun other isOther => update_of_ne isOther _ _
  · exact fun other key _ stays => staysPinned_of (s := s) rfl rfl kept stays
  · intro key flag holder different isEntry
    have otherKey : key ≠ computation.key := by
      intro same
      rw [same,entry] at isEntry
      cases isEntry
      exact different rfl
    exact ⟨flag,(updated key otherKey).trans isEntry,id⟩
  · intro other own waiting _ isOwn sameKey waits
    rw [isCall] at isOwn
    cases isOwn
    unfold Waits at waits ⊢
    simp only [computing,setPhase_phase] at waits ⊢
    rcases left with ⟨rfl,inCache⟩ | ⟨rfl,_⟩
    · intro wanted _
      have flagged := waits wanted
      rw [← sameKey,entry] at flagged
      cases flagged
      rw [← sameKey]
      exact inCache rfl
    · trivial
  · intro key flag holder isEntry
    have otherKey : key ≠ computation.key := by
      intro same
      rw [same,gone] at isEntry
      cases isEntry
    rw [updated key otherKey] at isEntry
    obtain ⟨stillComputing,own,ownCall,ownKey⟩ := inv.entries key flag holder isEntry
    refine ⟨(update_of_ne ?_ _ _).trans stillComputing,own,ownCall,ownKey⟩
    intro isClient
    rw [isClient,isCall] at ownCall
    cases ownCall
    exact otherKey ownKey.symm
  · intro computation' isCall'
    rw [isCall] at isCall'
    cases isCall'
    unfold ComputationInv
    simp only [setPhase_phase]
    rcases left with ⟨rfl,inCache⟩ | ⟨rfl,notPinned⟩
    · exact ⟨result,fun wanted _ => inCache (isPinned wanted)⟩
    · exact ⟨result,notPinned⟩

theorem finish_inv (result : Option Value)
    (phase : (s.phase client = .stored ∧ result = some computation.value) ∨ (s.phase client = .released ∧ result = none)) :
    Inv config calls (finish client computation result s) := by
  have before := inv.computations client computation isCall
  have own : ComputedFor calls computation.key computation.value := ⟨client,Or.inl ⟨computation,isCall,rfl,rfl⟩⟩
  have unfinished : s.results client = .inProgress := by
    unfold ComputationInv at before
    rcases phase with ⟨stored,_⟩ | ⟨released,_⟩
    · simp only [stored] at before
      exact before.1
    · simp only [released] at before
      exact before.1
  have notComputing : s.phase client ≠ .computing := by
    rcases phase with ⟨stored,_⟩ | ⟨released,_⟩
    · simp [stored]
    · simp [released]
  simp only [finish,unfinished]
  have finished : ((s.setResult client (.finished result)).setPhase client (.returned ⟨some computation.value,.computed⟩)).results client =
      .finished result := update_self _ _ _
  refine inv.of_frame client ⟨?_,?_,fun _ _ _ stays => stays,fun _ pinned _ _ entry => ⟨pinned,entry,id⟩,?_⟩ inv.counted inv.values ?_ inv.started ?_
    (fun notCall => absurd isCall (notCall _))
  · exact fun other isOther => update_of_ne isOther _ _
  · exact fun other isOther => update_of_ne isOther _ _
  · intro other own' waiting _ isOwn sameKey waits
    rw [isCall] at isOwn
    cases isOwn
    unfold Waits at waits ⊢
    simp only [setPhase_phase,finished]
    rcases phase with ⟨stored,rfl⟩ | ⟨released,rfl⟩
    · simp only [stored] at waits
      exact ⟨sameKey ▸ own,waits⟩
    · trivial
  · intro key pinned holder isEntry
    obtain ⟨stillComputing,holderCall⟩ := inv.entries key pinned holder isEntry
    refine ⟨(update_of_ne ?_ _ _).trans stillComputing,holderCall⟩
    intro isClient
    rw [isClient] at stillComputing
    exact notComputing stillComputing
  · intro computation' isCall'
    rw [isCall] at isCall'
    cases isCall'
    unfold ComputationInv at before ⊢
    simp only [setPhase_phase]
    refine ⟨own,?_⟩
    rcases phase with ⟨stored,rfl⟩ | ⟨released,rfl⟩
    · simp only [stored] at before
      exact before.2
    · simp only [released] at before
      simp [before.2]

end

variable {owner : Client}

omit [DecidableEq Client] in
theorem Inv.awaited (inv : Inv config calls s) (isCall : calls client = .computeOnce computation)
    (waiting : s.phase client = .waiting owner) :
    match s.results owner with
    | .inProgress => (s.phase owner).finished = false
    | .finished (some value) => ComputedFor calls computation.key value ∧ (computation.pinned = true → StaysPinned s client computation.key)
    | .finished none => True
    | .aborted => False := by
  have mine := inv.computations client computation isCall
  unfold ComputationInv at mine
  simp only [waiting] at mine
  obtain ⟨⟨own,ownCall,_⟩,waits⟩ := mine
  have theirs := inv.computations owner own ownCall
  unfold ComputationInv at theirs
  unfold Waits at waits
  cases phase : s.phase owner <;> simp only [phase] at waits theirs
  case computing => simp [theirs.1,Phase.finished]
  case stored => simp [theirs.1,Phase.finished]
  case released => simp [theirs.1,Phase.finished]
  case returned =>
    cases result : s.results owner with
    | inProgress | aborted => simp [result] at waits
    | finished value =>
      cases value with
      | none => trivial
      | some value => simpa only [result] using waits

variable {cache : FlexibleCache Key Value}

omit [DecidableEq Client] in
theorem tryInsertIfNotPresent_spec (evict : FlexibleCache.Evict Key Value) (counted : FlexibleCache.Counted config cache)
    (pinned : Bool) (key : Key) {value : Value} (fits : config.size value ≤ config.maxSizeSingleEntry) :
    if cache.contains key = true ∨ FlexibleCache.CanInsert config cache key then
      ∃ cache',tryInsertIfNotPresent config evict pinned key value cache = .ok cache' ∧
        FlexibleCache.Inserted config (key,value) cache cache' ∧ (pinned = true → cache'.containsPinned key = true)
    else ∃ failure,tryInsertIfNotPresent config evict pinned key value cache = .error failure := by
  obtain ⟨pinnedCache,made,counted',holds,kept,isPinned,_,unchanged⟩ := containsAndMakePinnedIfExists_spec key counted
  have insert := insert_spec evict key counted fits
  have insertPinned := insertPinned_spec evict key counted fits
  cases present : cache.contains key with
  | true =>
    rw [if_pos (Or.inl rfl)]
    unfold tryInsertIfNotPresent
    cases pinned with
    | false =>
      refine ⟨cache,by simp [present,pure,Except.pure],FlexibleCache.Inserted.refl counted _,by simp⟩
    | true =>
      refine ⟨pinnedCache,by simp [made,present,bind,Except.bind,pure,Except.pure],⟨counted',fun entry inside => Or.inl (holds entry inside),kept⟩,?_⟩
      exact fun _ => isPinned present
  | false =>
    have same := unchanged present
    subst same
    by_cases canInsert : FlexibleCache.CanInsert config pinnedCache key
    · rw [if_pos (Or.inr canInsert)]
      rw [if_pos canInsert] at insert insertPinned
      unfold tryInsertIfNotPresent
      cases pinned with
      | false =>
        obtain ⟨cache',done,inserted⟩ := insert
        exact ⟨cache',by simp [present,done],inserted,by simp⟩
      | true =>
        obtain ⟨cache',done,inserted,nowPinned⟩ := insertPinned
        exact ⟨cache',by simp [made,present,done,bind,Except.bind],inserted,fun _ => nowPinned⟩
    · rw [if_neg (by simp [canInsert])]
      rw [if_neg canInsert] at insert insertPinned
      unfold tryInsertIfNotPresent
      cases pinned with
      | false =>
        obtain ⟨failure,failed⟩ := insert
        exact ⟨failure,by simp [present,failed]⟩
      | true =>
        obtain ⟨failure,failed⟩ := insertPinned
        exact ⟨failure,by simp [made,present,failed,bind,Except.bind]⟩

omit [DecidableEq Key] [DecidableEq Client] in
theorem Inserted.values {cache' : FlexibleCache Key Value} {entry : Key × Value} (inserted : FlexibleCache.Inserted config entry cache cache')
    (values : ∀ entry,cache.Holds entry → ComputedFor calls entry.1 entry.2) (computed : ComputedFor calls entry.1 entry.2) :
    ∀ entry,cache'.Holds entry → ComputedFor calls entry.1 entry.2 := by
  intro other inside
  rcases inserted.holds other inside with old | rfl
  · exact values other old
  · exact computed

theorem Inv.clear (inv : Inv config calls s) (isCall : ∀ computation,calls client ≠ .computeOnce computation) (ready : s.phase client = .ready)
    (counted : FlexibleCache.Counted config cache) (holds : ∀ entry,cache.Holds entry → s.cache.Holds entry) :
    Inv config calls ({s with cache,clears := s.clears + 1}.setPhase client .done) := by
  have alone : (s.phase client).alone = true := by rw [ready]; rfl
  refine inv.of_frame client ⟨?_,fun _ _ => rfl,?_,fun _ pinned _ _ entry => ⟨pinned,entry,id⟩,fun _ _ _ _ _ _ waits => absurd waits (not_waits alone)⟩
    counted (fun entry inside => inv.values entry (holds entry inside)) ?_ ?_ (fun computation called => absurd called (isCall computation))
    (fun _ => Or.inr (setPhase_phase _ _ _))
  · exact fun other isOther => update_of_ne isOther _ _
  · intro other key _ _ notCleared
    have atMost := inv.started other
    have same : s.startedAt other = s.clears + 1 := notCleared
    omega
  · intro key pinned holder isEntry
    obtain ⟨stillComputing,holderCall⟩ := inv.entries key pinned holder isEntry
    refine ⟨(update_of_ne ?_ _ _).trans stillComputing,holderCall⟩
    intro isClient
    rw [isClient,ready] at stillComputing
    cases stillComputing
  · intro other
    exact (inv.started other).trans (Nat.le_succ _)

omit [DecidableEq Client] in
theorem moveFromInProgressToCache_spec (evict : FlexibleCache.Evict Key Value) (counted : FlexibleCache.Counted config s.cache) {key : Key}
    {value : Value} (fits : config.size value ≤ config.maxSizeSingleEntry) {pinned : Bool}
    (entry : s.inProgress key = some (pinned,owner)) :
    if FlexibleCache.CanInsert config s.cache key then
      ∃ cache,moveFromInProgressToCache config evict key value s = .ok ({s with cache}.erase key) ∧
        FlexibleCache.Inserted config (key,value) s.cache cache ∧ (pinned = true → cache.containsPinned key = true)
    else ∃ failure,moveFromInProgressToCache config evict key value s = .error failure := by
  have insert := insert_spec evict key counted fits
  have insertPinned := insertPinned_spec evict key counted fits
  unfold moveFromInProgressToCache
  simp only [entry]
  split at insert
  next canInsert =>
    rw [if_pos canInsert] at insertPinned ⊢
    obtain ⟨cache,done,inserted⟩ := insert
    obtain ⟨pinnedCache,donePinned,insertedPinned,isPinned⟩ := insertPinned
    cases pinned with
    | false => exact ⟨cache,by simp [done,bind,Except.bind,pure,Except.pure],inserted,by simp⟩
    | true => exact ⟨pinnedCache,by simp [donePinned,bind,Except.bind,pure,Except.pure],insertedPinned,fun _ => isPinned⟩
  next cannot =>
    rw [if_neg cannot] at insertPinned ⊢
    obtain ⟨failure,failed⟩ := insert
    obtain ⟨failure',failed'⟩ := insertPinned
    cases pinned with
    | false => exact ⟨failure,by simp [failed,bind,Except.bind]⟩
    | true => exact ⟨failure',by simp [failed',bind,Except.bind]⟩

section
variable (admissible : Admissible config calls) (inv : Inv config calls s) (isCall : calls client = .computeOnce computation)
include admissible inv isCall

theorem computing_inv (computing : s.phase client = .computing) (evict : FlexibleCache.Evict Key Value)
    (taken : computeOnceImpl config ⟨client,evict⟩ computation s = some s') :
    if computation.suitableForCache = true → FlexibleCache.CanInsert config s.cache computation.key then Inv config calls s'
    else (s'.phase client).raised = true := by
  have before := inv.computations client computation isCall
  unfold ComputationInv at before
  simp only [computing] at before
  obtain ⟨_,pinned,entry,isPinned⟩ := before
  have own : ComputedFor calls computation.key computation.value := ⟨client,Or.inl ⟨computation,isCall,rfl,rfl⟩⟩
  simp only [computeOnceImpl,computing] at taken
  cases suitable : computation.suitableForCache with
  | false =>
    have notPinned : computation.pinned = false := by
      rw [← Bool.not_eq_true]
      intro isPinned
      rw [admissible.suitable client computation isCall isPinned] at suitable
      cases suitable
    simp only [suitable,notPinned,Bool.false_eq_true,if_false,some_inj] at taken
    rw [if_pos (by simp),← taken]
    exact inv.leave isCall computing entry inv.counted inv.values (List.Subset.refl _) (Or.inr ⟨rfl,notPinned⟩)
  | true =>
    have moved := moveFromInProgressToCache_spec evict inv.counted (admissible.fits _ _ own) entry
    rw [suitable,if_pos rfl] at taken
    split at moved
    next canInsert =>
      obtain ⟨cache,done,inserted,inCache⟩ := moved
      simp only [done,some_inj] at taken
      rw [if_pos (fun _ => canInsert),← taken]
      exact inv.leave isCall computing entry inserted.counted (Inserted.values inserted inv.values own) inserted.pinned (Or.inl ⟨rfl,inCache⟩)
    next cannot =>
      obtain ⟨failure,failed⟩ := moved
      simp only [failed,some_inj] at taken
      rw [if_neg (by simp [cannot]),← taken,setPhase_phase]
      rfl

theorem recomputing_inv (recomputing : s.phase client = .recomputing) (evict : FlexibleCache.Evict Key Value)
    (taken : computeOnceImpl config ⟨client,evict⟩ computation s = some s') :
    if computation.suitableForCache = true → s.cache.contains computation.key = false → FlexibleCache.CanInsert config s.cache computation.key
    then Inv config calls s' else (s'.phase client).raised = true := by
  have own : ComputedFor calls computation.key computation.value := ⟨client,Or.inl ⟨computation,isCall,rfl,rfl⟩⟩
  have alone : (s.phase client).alone = true := by rw [recomputing]; rfl
  simp only [computeOnceImpl,recomputing] at taken
  cases suitable : computation.suitableForCache with
  | false =>
    have notPinned : computation.pinned = false := by
      rw [← Bool.not_eq_true]
      intro isPinned
      rw [admissible.suitable client computation isCall isPinned] at suitable
      cases suitable
    simp only [suitable,notPinned,Bool.false_eq_true,if_false,some_inj] at taken
    rw [if_pos (by simp),← taken]
    refine inv.move alone inv.counted inv.values (List.Subset.refl _) ?_ (fun notCall => absurd isCall (notCall _))
    intro computation' isCall'
    rw [isCall] at isCall'
    cases isCall'
    unfold ComputationInv
    simp only [setPhase_phase]
    exact ⟨own,by simp [notPinned]⟩
  | true =>
    have tried := tryInsertIfNotPresent_spec evict inv.counted computation.pinned computation.key (admissible.fits _ _ own)
    rw [suitable,if_pos rfl] at taken
    split at tried
    next canInsert =>
      obtain ⟨cache,done,inserted,inCache⟩ := tried
      simp only [done,some_inj] at taken
      rw [if_pos (by intro _ absent; exact canInsert.resolve_left (by simp [absent])),← taken]
      refine inv.move alone inserted.counted (Inserted.values inserted inv.values own) inserted.pinned ?_ (fun notCall => absurd isCall (notCall _))
      intro computation' isCall'
      rw [isCall] at isCall'
      cases isCall'
      unfold ComputationInv
      simp only [setPhase_phase]
      exact ⟨own,fun isPinned _ => inCache isPinned⟩
    next cannot =>
      obtain ⟨failure,failed⟩ := tried
      simp only [failed,some_inj] at taken
      rw [not_or,Bool.not_eq_true] at cannot
      rw [if_neg (by simp [cannot]),← taken,setPhase_phase]
      rfl

end

theorem waiting_inv (inv : Inv config calls s) (isCall : calls client = .computeOnce computation)
    (waiting : s.phase client = .waiting owner) (evict : FlexibleCache.Evict Key Value)
    (taken : computeOnceImpl config ⟨client,evict⟩ computation s = some s') : Inv config calls s' := by
  have alone : (s.phase client).alone = true := by rw [waiting]; rfl
  have awaited := inv.awaited isCall waiting
  simp only [computeOnceImpl,waiting] at taken
  cases result : s.results owner with
  | inProgress => simp [result] at taken
  | aborted => simp [result] at awaited
  | finished value =>
    cases value with
    | none =>
      simp only [result,some_inj] at taken
      rw [← taken]
      refine inv.move alone inv.counted inv.values (List.Subset.refl _) ?_ (fun notCall => absurd isCall (notCall _))
      intro computation' _
      unfold ComputationInv
      simp only [setPhase_phase]
    | some value =>
      simp only [result,some_inj] at taken awaited
      rw [← taken]
      refine inv.move alone inv.counted inv.values (List.Subset.refl _) ?_ (fun notCall => absurd isCall (notCall _))
      intro computation' isCall'
      rw [isCall] at isCall'
      cases isCall'
      unfold ComputationInv
      simp only [setPhase_phase]
      exact awaited

theorem computeOnceImpl_inv (admissible : Admissible config calls) (inv : Inv config calls s) (isCall : calls client = .computeOnce computation)
    (evict : FlexibleCache.Evict Key Value) (taken : computeOnceImpl config ⟨client,evict⟩ computation s = some s') :
    (InsertsOnce config calls s ⟨client,evict⟩ → Inv config calls s') ∧
      (¬ InsertsOnce config calls s ⟨client,evict⟩ → (s'.phase client).raised = true) := by
  have mine := inv.computations client computation isCall
  unfold ComputationInv at mine
  unfold InsertsOnce
  simp only [isCall]
  cases phase : s.phase client <;> simp only [phase] at mine ⊢
  case ready =>
    simp only [computeOnceImpl,phase,some_inj] at taken
    rw [← taken]
    exact ⟨fun _ => startComputation_inv inv isCall phase,by simp⟩
  case computing =>
    have moved := computing_inv admissible inv isCall phase evict taken
    constructor
    · intro allowed
      rwa [if_pos allowed] at moved
    · intro notAllowed
      rwa [if_neg notAllowed] at moved
  case stored =>
    simp only [computeOnceImpl,phase,some_inj] at taken
    rw [← taken]
    exact ⟨fun _ => finish_inv inv isCall _ (Or.inl ⟨phase,rfl⟩),by simp⟩
  case released =>
    simp only [computeOnceImpl,phase,some_inj] at taken
    rw [← taken]
    exact ⟨fun _ => finish_inv inv isCall _ (Or.inr ⟨phase,rfl⟩),by simp⟩
  case waiting owner => exact ⟨fun _ => waiting_inv inv isCall phase evict taken,by simp⟩
  case recomputing =>
    have inserted := recomputing_inv admissible inv isCall phase evict taken
    constructor
    · intro allowed
      rwa [if_pos allowed] at inserted
    · intro notAllowed
      rwa [if_neg notAllowed] at inserted
  case returned => simp [computeOnceImpl,phase] at taken

theorem step_inv (admissible : Admissible config calls) (inv : Inv config calls s) (action : Action Key Value Client)
    (taken : step config calls s action = some s') :
    (InsertsOnce config calls s action → Inv config calls s') ∧
      (¬ InsertsOnce config calls s action → (s'.phase action.client).raised = true) := by
  obtain ⟨client,evict⟩ := action
  cases call : calls client with
  | computeOnce computation =>
    simp only [step,call] at taken
    exact computeOnceImpl_inv admissible inv call evict taken
  | tryInsertIfNotPresent pinned key value =>
    have own : ComputedFor calls key value := ⟨client,Or.inr ⟨pinned,call⟩⟩
    rcases inv.others client (by simp [call]) with ready | done
    · have alone : (s.phase client).alone = true := by rw [ready]; rfl
      have tried := tryInsertIfNotPresent_spec evict inv.counted pinned key (admissible.fits _ _ own)
      simp only [step,call,ready] at taken
      simp only [InsertsOnce,call,ready]
      split at tried
      next canInsert =>
        obtain ⟨cache,done,inserted,_⟩ := tried
        simp only [done,some_inj] at taken
        rw [← taken]
        refine ⟨fun _ => inv.move alone inserted.counted (Inserted.values inserted inv.values own) inserted.pinned ?_ (fun _ => Or.inr rfl),?_⟩
        · simp [call]
        · exact fun notAllowed => absurd (fun absent => canInsert.resolve_left (by simp [absent])) notAllowed
      next cannot =>
        obtain ⟨failure,failed⟩ := tried
        simp only [failed,some_inj] at taken
        rw [not_or,Bool.not_eq_true] at cannot
        rw [← taken,setPhase_phase]
        exact ⟨fun allowed => absurd (allowed cannot.1) cannot.2,fun _ => rfl⟩
    · simp [step,call,done] at taken
  | clearUnpinnedOnly | clearAll =>
    rcases inv.others client (by simp [call]) with ready | done
    · simp only [step,call,ready,some_inj] at taken
      simp only [InsertsOnce,call,ready,not_true_eq_false,false_imp_iff,and_true,true_imp_iff]
      rw [← taken]
      refine inv.clear (by simp [call]) ready rfl ?_
      intro entry holds
      exact holds.imp (by simp [FlexibleCache.clearUnpinnedOnly,FlexibleCache.clearAll]) (by simp [FlexibleCache.clearUnpinnedOnly,FlexibleCache.clearAll])
    · simp [step,call,done] at taken

end Steps
section Runs
variable {client : Client} {computation : Computation Key Value}

theorem Inv.progress (inv : Inv config calls s) (client : Client) (evict : FlexibleCache.Evict Key Value) (unfinished : (s.phase client).finished = false) :
    (step config calls s ⟨client,evict⟩).isSome = true ∨
      ∃ owner,s.phase client = .waiting owner ∧ (step config calls s ⟨owner,evict⟩).isSome = true := by
  have enabled : ∀ client computation,calls client = .computeOnce computation → (s.phase client).finished = false →
      (∀ owner,s.phase client ≠ .waiting owner) → (step config calls s ⟨client,evict⟩).isSome = true := by
    intro client computation isCall unfinished notWaiting
    simp only [step,isCall,computeOnceImpl]
    cases phase : s.phase client <;> simp only [phase,Phase.finished,Bool.true_eq_false] at unfinished notWaiting ⊢
    case computing => split <;> split <;> rfl
    case aborting => split <;> rfl
    case waiting owner => exact absurd rfl (notWaiting owner)
    case recomputing => split <;> split <;> rfl
    all_goals rfl
  by_cases isCall : ∃ computation,calls client = .computeOnce computation
  · obtain ⟨computation,isCall⟩ := isCall
    by_cases waiting : ∃ owner,s.phase client = .waiting owner
    · obtain ⟨owner,waiting⟩ := waiting
      have awaited := inv.awaited isCall waiting
      have mine := inv.computations client computation isCall
      unfold ComputationInv at mine
      simp only [waiting] at mine
      obtain ⟨⟨own,ownCall,_⟩,waits⟩ := mine
      cases result : s.results owner with
      | inProgress =>
        simp only [result] at awaited
        refine Or.inr ⟨owner,waiting,enabled owner own ownCall awaited ?_⟩
        intro other isWaiting
        exact not_waits (by rw [isWaiting]; rfl) waits
      | aborted => simp [result] at awaited
      | finished value =>
        left
        cases value <;> simp [step,isCall,computeOnceImpl,waiting,result]
    · exact Or.inl (enabled client computation isCall unfinished (not_exists.mp waiting))
  · left
    rw [not_exists] at isCall
    rcases inv.others client isCall with ready | done
    · cases call : calls client with
      | computeOnce computation => exact absurd call (isCall computation)
      | tryInsertIfNotPresent pinned key value =>
        simp only [step,call,ready]
        split <;> rfl
      | clearUnpinnedOnly | clearAll => simp [step,call,ready]
    · simp [done,Phase.finished] at unfinished

theorem sectionsLeft_startComputation (client : Client) (computation : Computation Key Value) (s : State Key Value Client) :
    ((startComputation config client computation s).phase client).sectionsLeft < 5 := by
  unfold startComputation
  dsimp only
  repeat' split
  all_goals simp [Phase.sectionsLeft]

omit [DecidableEq Key] in
theorem sectionsLeft_finish (client : Client) (computation : Computation Key Value) (result : Option Value) (s : State Key Value Client) :
    ((finish client computation result s).phase client).sectionsLeft < 3 := by
  unfold finish
  split <;> simp [Phase.sectionsLeft]

theorem step_closer (action : Action Key Value Client) (taken : step config calls s action = some s') :
    (s'.phase action.client).sectionsLeft < (s.phase action.client).sectionsLeft := by
  obtain ⟨client,evict⟩ := action
  cases call : calls client with
  | computeOnce computation =>
    simp only [step,call,computeOnceImpl] at taken
    cases phase : s.phase client <;> simp only [phase,some_inj,reduceCtorEq] at taken
    case ready =>
      rw [← taken]
      exact sectionsLeft_startComputation client computation s
    case stored =>
      rw [← taken]
      exact sectionsLeft_finish client computation _ s
    case released =>
      rw [← taken]
      exact sectionsLeft_finish client computation _ s
    all_goals
      repeat' split at taken
      all_goals cases taken
      all_goals simp [Phase.sectionsLeft]
  | tryInsertIfNotPresent pinned key value =>
    simp only [step,call] at taken
    cases phase : s.phase client <;> simp only [phase,reduceCtorEq] at taken
    split at taken
    all_goals
      cases taken
      simp [Phase.sectionsLeft]
  | clearUnpinnedOnly | clearAll =>
    simp only [step,call] at taken
    cases phase : s.phase client <;> simp only [phase,reduceCtorEq,some_inj] at taken
    rw [← taken]
    simp [Phase.sectionsLeft]

theorem Inv.correct (inv : Inv config calls s) : Correct config calls s where
  noneThrows client := by
    by_cases isCall : ∃ computation,calls client = .computeOnce computation
    · obtain ⟨computation,isCall⟩ := isCall
      have mine := inv.computations client computation isCall
      unfold ComputationInv at mine
      cases phase : s.phase client <;> simp only [phase] at mine <;> rfl
    · rcases inv.others client (not_exists.mp isCall) with ready | done
      · rw [ready]
        rfl
      · rw [done]
        rfl
  computed client computation result isCall returned := by
    have mine := inv.computations client computation isCall
    unfold ComputationInv at mine
    simp only [returned] at mine
    cases pointer : result.resultPointer <;> simp only [pointer] at mine ⊢
    · exact mine
    · exact mine.1
  oneOwner client client' computation computation' isCall isCall' sameKey computing computing' := by
    have mine := inv.computations client computation isCall
    have theirs := inv.computations client' computation' isCall'
    unfold ComputationInv at mine theirs
    simp only [computing,computing'] at mine theirs
    obtain ⟨_,pinned,entry,_⟩ := mine
    obtain ⟨_,pinned',entry',_⟩ := theirs
    rw [sameKey,entry'] at entry
    cases entry
    rfl
  ownedUntilReturn key pinned owner entry := (inv.entries key pinned owner entry).1
  pinned client computation value cacheStatus isCall isPinned returned := by
    have mine := inv.computations client computation isCall
    unfold ComputationInv at mine
    simp only [returned] at mine
    exact mine.2 isPinned
  progress := inv.progress
  closer action s' taken := step_closer action taken

omit [DecidableEq Client] in
theorem Inv.initial (config : CacheConfig Value) (calls : Client → Call Key Value) : Inv config calls {} where
  counted := rfl
  values entry holds := by
    rcases holds with inEntries | pinned
    · cases inEntries
    · cases pinned
  entries key pinned owner entry := by cases entry
  started client := le_refl _
  computations client computation isCall := rfl
  others client isCall := Or.inl rfl

/-- In every run whose steps meet the condition, what is promised holds in every state. The first step that does not meet it throws. -/
theorem run_correct (config : CacheConfig Value) (calls : Client → Call Key Value) (admissible : Admissible config calls) (s : State Key Value Client)
    (run : Run (step config calls) (InsertsOnce config calls) {} s) :
    Correct config calls s ∧ ∀ action s',step config calls s action = some s' → ¬ InsertsOnce config calls s action →
      (s'.phase action.client).raised = true := by
  have inv : Inv config calls s := run.invariant (Inv.initial config calls)
    (fun _ action _ inv allowed taken => (step_inv admissible inv action taken).1 allowed)
  exact ⟨inv.correct,fun action s' taken => (step_inv admissible inv action taken).2⟩

def smallCache : CacheConfig Nat := ⟨10,10,10,fun _ => 1⟩

/-- One client computes the value of a key, and the other one inserts the result of a lazy computation. -/
def computeAndInsert : Bool → Call Nat Nat
  | false => .computeOnce ⟨false,0,false,7,true⟩
  | true => .tryInsertIfNotPresent false 0 7

theorem computeAndInsert_admissible : Admissible smallCache computeAndInsert where
  fits _ _ _ := by
    change 1 ≤ 10
    decide
  suitable client computation isCall pinned := by
    cases client with
    | false =>
      cases isCall
      rfl
    | true => cases isCall

/-- The result is inserted while the other client computes it, which then throws. -/
theorem run_not_correct : Admissible smallCache computeAndInsert ∧
    ¬ ∀ s,Run (step smallCache computeAndInsert) Always {} s → Correct smallCache computeAndInsert s := by
  refine ⟨computeAndInsert_admissible,?_⟩
  intro correct
  have computing : Run (step smallCache computeAndInsert) Always {} _ := Run.start.next ⟨false,fun _ => 0⟩ trivial rfl
  have inserted := computing.next ⟨true,fun _ => 0⟩ trivial rfl
  have thrown := inserted.next ⟨false,fun _ => 0⟩ trivial rfl
  exact absurd ((correct _ thrown).noneThrows false) (by decide)

/-- If the lazy result is inserted first, then the other client gets it from the cache. -/
theorem run_correct_insertFirst : ∃ s,s.phase false = .returned ⟨some 7,.cachedNotPinned⟩ ∧ Correct smallCache computeAndInsert s := by
  have inserted : Run (step smallCache computeAndInsert) (InsertsOnce smallCache computeAndInsert) {} _ :=
    Run.start.next ⟨true,fun _ => 0⟩ (fun _ => by decide) rfl
  have returned := inserted.next ⟨false,fun _ => 0⟩ (by trivial) rfl
  exact ⟨_,rfl,(run_correct smallCache computeAndInsert computeAndInsert_admissible _ returned).1⟩

end Runs
end Qlever.ConcurrentCache
