import Qlever.FlexibleCache
import Qlever.Library.Interleaving

/-! The `ConcurrentCache`. Each call is made by a client of its own, and a step is a section that is protected by a lock,
together with the computation before it. A `ResultInProgress` is identified by the client that has created it, because a call
creates at most one of them.
-/
namespace Qlever.ConcurrentCache
open Library
open Function (update)

inductive CacheStatus
  | cachedNotPinned
  | cachedPinned
  | computed
  | notInCacheAndNotComputed
  deriving DecidableEq, Repr

structure ResultAndCacheStatus (Value : Type) where
  resultPointer : Option Value
  cacheStatus : CacheStatus
  deriving DecidableEq, Repr

/-- The arguments of `computeOnce` and `computeOncePinned`, with the value that the `computeFunction` returns. -/
structure Computation (Key Value : Type) where
  pinned : Bool
  key : Key
  onlyReadFromCache : Bool
  value : Value
  suitableForCache : Bool
  deriving DecidableEq, Repr

inductive Call (Key Value : Type)
  | computeOnce (computation : Computation Key Value)
  | tryInsertIfNotPresent (pinned : Bool) (key : Key) (value : Value)
  | clearUnpinnedOnly
  | clearAll
  deriving DecidableEq, Repr

inductive ResultInProgress (Value : Type)
  | inProgress
  | finished (result : Option Value)
  | aborted
  deriving DecidableEq, Repr

inductive Phase (Client Value : Type)
  | ready
  | computing
  -- the result is in the cache, but not yet given to the other clients
  | stored
  -- the result is not suitable for the cache, and `nullptr` is not yet given to the other clients
  | released
  | catching
  | aborting
  | waiting (owner : Client)
  | recomputing
  | returned (result : ResultAndCacheStatus Value)
  | done
  | threw
  deriving DecidableEq, Repr

/-- `clears` and `startedAt` are not in the source: they count how often the cache was cleared, in total and before the start
of each call. -/
structure State (Key Value Client : Type) where
  cache : FlexibleCache Key Value := {}
  inProgress : Key → Option (Bool × Client) := fun _ => none
  results : Client → ResultInProgress Value := fun _ => .inProgress
  phase : Client → Phase Client Value := fun _ => .ready
  clears : Nat := 0
  startedAt : Client → Nat := fun _ => 0

structure Action (Key Value Client : Type) where
  client : Client
  evict : FlexibleCache.Evict Key Value

variable {Key Value Client : Type} [DecidableEq Key] [DecidableEq Client] (config : CacheConfig Value)

def getCacheStatus (cache : FlexibleCache Key Value) (key : Key) : CacheStatus :=
  if cache.containsPinned key then .cachedPinned
  else if cache.containsNonPinned key then .cachedNotPinned
  else .computed

omit [DecidableEq Key] in
def State.setPhase (s : State Key Value Client) (client : Client) (phase : Phase Client Value) : State Key Value Client :=
  {s with phase := update s.phase client phase}

def State.setInProgress (s : State Key Value Client) (key : Key) (entry : Option (Bool × Client)) : State Key Value Client :=
  {s with inProgress := update s.inProgress key entry}

omit [DecidableEq Key] in
def State.setResult (s : State Key Value Client) (client : Client) (result : ResultInProgress Value) : State Key Value Client :=
  {s with results := update s.results client result}

/-- The section that protects `inProgress.erase(key)`. -/
def State.erase (s : State Key Value Client) (key : Key) : State Key Value Client := s.setInProgress key none

def tryInsertIfNotPresent (evict : FlexibleCache.Evict Key Value) (pinned : Bool) (key : Key) (value : Value) (cache : FlexibleCache Key Value) :
    Except CacheFailure (FlexibleCache Key Value) :=
  if pinned then do
    let (present,cache) ← cache.containsAndMakePinnedIfExists config key
    if present then return cache else cache.insertPinned config evict key value
  else if cache.contains key then return cache
  else cache.insert config evict key value

def moveFromInProgressToCache (evict : FlexibleCache.Evict Key Value) (key : Key) (value : Value) (s : State Key Value Client) :
    Except CacheFailure (State Key Value Client) :=
  match s.inProgress key with
  | none => .error .notInProgress
  | some (pinned,_) => do
    let cache ← if pinned then s.cache.insertPinned config evict key value else s.cache.insert config evict key value
    return {s with cache}.erase key

/-- The first section of `computeOnceImpl`. -/
def startComputation (client : Client) (computation : Computation Key Value) (s : State Key Value Client) : State Key Value Client :=
  let key := computation.key
  match if computation.pinned then s.cache.containsAndMakePinnedIfExists config key else .ok (false,s.cache) with
  | .error _ => s.setPhase client .threw
  | .ok (_,cache) =>
    let cacheStatus := getCacheStatus s.cache key
    let s := {s with cache,startedAt := update s.startedAt client s.clears}
    if cacheStatus ≠ .computed then s.setPhase client (.returned ⟨cache.get key,cacheStatus⟩)
    else if computation.onlyReadFromCache then s.setPhase client (.returned ⟨none,.notInCacheAndNotComputed⟩)
    else match s.inProgress key with
      | some (pinned,owner) => (s.setInProgress key (some (pinned || computation.pinned,owner))).setPhase client (.waiting owner)
      | none => (s.setInProgress key (some (computation.pinned,client))).setPhase client .computing

/-- `finish` of the `ResultInProgress`, after which the client returns its result. -/
def finish (client : Client) (computation : Computation Key Value) (result : Option Value) (s : State Key Value Client) : State Key Value Client :=
  match s.results client with
  | .inProgress => (s.setResult client (.finished result)).setPhase client (.returned ⟨some computation.value,.computed⟩)
  | _ => s.setPhase client .catching

/-- The next section of `computeOnceImpl`. -/
def computeOnceImpl (action : Action Key Value Client) (computation : Computation Key Value) (s : State Key Value Client) :
    Option (State Key Value Client) :=
  let client := action.client
  match s.phase client with
  | .ready => some (startComputation config client computation s)
  | .computing =>
    if computation.suitableForCache then
      match moveFromInProgressToCache config action.evict computation.key computation.value s with
      | .ok s => some (s.setPhase client .stored)
      | .error _ => some (s.setPhase client .catching)
    else if computation.pinned then some (s.setPhase client .catching)
    else some ((s.erase computation.key).setPhase client .released)
  | .stored => some (finish client computation (some computation.value) s)
  | .released => some (finish client computation none s)
  | .catching => some ((s.erase computation.key).setPhase client .aborting)
  | .aborting =>
    match s.results client with
    | .inProgress => some ((s.setResult client .aborted).setPhase client .threw)
    | _ => some (s.setPhase client .threw)
  | .waiting owner =>
    match s.results owner with
    | .inProgress => none
    | .aborted => some (s.setPhase client .threw)
    | .finished (some value) => some (s.setPhase client (.returned ⟨some value,.computed⟩))
    | .finished none => some (s.setPhase client .recomputing)
  | .recomputing =>
    let returned := Phase.returned ⟨some computation.value,.computed⟩
    if computation.suitableForCache then
      match tryInsertIfNotPresent config action.evict computation.pinned computation.key computation.value s.cache with
      | .ok cache => some ({s with cache}.setPhase client returned)
      | .error _ => some (s.setPhase client .threw)
    else if computation.pinned then some (s.setPhase client .threw)
    else some (s.setPhase client returned)
  | .returned _ => none
  | .done => none
  | .threw => none

def step (calls : Client → Call Key Value) (s : State Key Value Client) (action : Action Key Value Client) : Option (State Key Value Client) :=
  match calls action.client with
  | .computeOnce computation => computeOnceImpl config action computation s
  | call =>
    match s.phase action.client,call with
    | .ready,.tryInsertIfNotPresent pinned key value =>
      match tryInsertIfNotPresent config action.evict pinned key value s.cache with
      | .ok cache => some ({s with cache}.setPhase action.client .done)
      | .error _ => some (s.setPhase action.client .threw)
    | .ready,.clearUnpinnedOnly => some ({s with cache := s.cache.clearUnpinnedOnly,clears := s.clears + 1}.setPhase action.client .done)
    | .ready,.clearAll => some ({s with cache := s.cache.clearAll,clears := s.clears + 1}.setPhase action.client .done)
    | _,_ => none

end Qlever.ConcurrentCache
