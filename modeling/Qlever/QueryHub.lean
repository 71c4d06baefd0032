import Qlever.Library.Interleaving

/-! The `QueryHub`: its map holds for each query id a weak pointer to a distributor. The functions on the map run under its lock.
A distributor expires when its last reference is released, and the cleanup call of its destructor is a later step.
-/
namespace Qlever
open Library
open Function (update update_self update_of_ne)

namespace QueryHub
variable {QueryId Client : Type}

/-- A distributor with what is left to do for it: `ended` is set at the end of `signalEnd`, which also disables the cleanup call. -/
structure Distributor (QueryId : Type) where
  queryId : QueryId
  ended : Bool := false
  cleanupCall : Bool := true

/-- The reference that a client holds. A sender is in `signalEnd` after it has set the flag `finished_`. -/
inductive Holding
  | nothing
  | receiving (distributor : Nat)
  | sending (distributor : Nat)
  | signalling (distributor : Nat)
  | ended (distributor : Nat)
  deriving DecidableEq

def Holding.distributor : Holding → Option Nat
  | .nothing => none
  | .receiving distributor | .sending distributor | .signalling distributor | .ended distributor => some distributor

/-- A sender between its acquisition and the end of `signalEnd`. -/
def Holding.Active (holding : Holding) (distributor : Nat) : Prop := holding = .sending distributor ∨ holding = .signalling distributor

instance (holding : Holding) (distributor : Nat) : Decidable (holding.Active distributor) := inferInstanceAs (Decidable (_ ∨ _))

/-- The map with the weak pointers and the flags `started_`, all distributors that were created, and what the clients hold. -/
structure State (QueryId Client : Type) where
  socketDistributors : QueryId → Option (Nat × Bool) := fun _ => none
  distributors : List (Distributor QueryId) := []
  clients : Client → Holding := fun _ => .nothing
  checkFailed : Bool := false

inductive Action (QueryId Client : Type)
  | acquireForSending (client : Client) (queryId : QueryId)
  | acquireForReceiving (client : Client) (queryId : QueryId)
  | signalEnd (client : Client)
  | copy (source target : Client)
  | release (client : Client)
  | cleanup (distributor : Nat)

def initial : State QueryId Client := {}

def Live (s : State QueryId Client) (distributor : Nat) : Prop := ∃ client, (s.clients client).distributor = some distributor

variable [DecidableEq QueryId] [DecidableEq Client] [Fintype Client]

instance (s : State QueryId Client) (distributor : Nat) : Decidable (Live s distributor) := Fintype.decidableExistsFintype

def State.hold (s : State QueryId Client) (client : Client) (holding : Holding) : State QueryId Client :=
  {s with clients := update s.clients client holding}

def State.setEntry (s : State QueryId Client) (queryId : QueryId) (entry : Option (Nat × Bool)) : State QueryId Client :=
  {s with socketDistributors := update s.socketDistributors queryId entry}

def holdingOf (isSender : Bool) (distributor : Nat) : Holding := if isSender then .sending distributor else .receiving distributor

def create (isSender : Bool) (client : Client) (queryId : QueryId) (s : State QueryId Client) : State QueryId Client :=
  ({s with distributors := s.distributors ++ [({queryId := queryId} : Distributor QueryId)]}.setEntry queryId (some (s.distributors.length,isSender))).hold client (holdingOf isSender s.distributors.length)

def createOrAcquireDistributorInternal (isSender : Bool) (client : Client) (queryId : QueryId) (s : State QueryId Client) : State QueryId Client :=
  match s.socketDistributors queryId with
  | some (distributor,started) =>
    if Live s distributor then
      if isSender && started then {s with checkFailed := true}
      else (s.setEntry queryId (some (distributor,started || isSender))).hold client (holdingOf isSender distributor)
    else create isSender client queryId s
  | none => create isSender client queryId s

def deleteFromDistributors (queryId : QueryId) (alwaysDelete : Bool) (s : State QueryId Client) : State QueryId Client :=
  match s.socketDistributors queryId with
  | none => s
  | some (distributor,_) => if alwaysDelete ∨ ¬ Live s distributor then s.setEntry queryId none else s

/-- The two parts of `signalEnd`: the flag is set, then the entry is deleted and the cleanup call is cancelled. -/
def signalEnd (client : Client) (s : State QueryId Client) : Option (State QueryId Client) :=
  match s.clients client with
  | .sending distributor => some (s.hold client (.signalling distributor))
  | .signalling distributor => do
    let entry ← s.distributors[distributor]?
    let deleted := deleteFromDistributors entry.queryId true s
    return {deleted with distributors := s.distributors.set distributor {entry with ended := true,cleanupCall := false}}.hold client (.ended distributor)
  | _ => none

def cleanup (distributor : Nat) (s : State QueryId Client) : Option (State QueryId Client) := do
  let entry ← s.distributors[distributor]?
  if entry.cleanupCall ∧ ¬ Live s distributor then
    return {deleteFromDistributors entry.queryId false s with distributors := s.distributors.set distributor {entry with cleanupCall := false}}
  else none

/-- A step of a client that may wait for nothing. A sender keeps its reference until `signalEnd` is done. -/
def step (s : State QueryId Client) : Action QueryId Client → Option (State QueryId Client)
  | .acquireForSending client queryId =>
    if s.clients client = .nothing then some (createOrAcquireDistributorInternal true client queryId s) else none
  | .acquireForReceiving client queryId =>
    if s.clients client = .nothing then some (createOrAcquireDistributorInternal false client queryId s) else none
  | .signalEnd client => signalEnd client s
  | .copy source target =>
    match s.clients target,(s.clients source).distributor with
    | .nothing,some distributor => some (s.hold target (.receiving distributor))
    | _,_ => none
  | .release client =>
    match s.clients client with
    | .receiving _ | .ended _ => some (s.hold client .nothing)
    | _ => none
  | .cleanup distributor => cleanup distributor s

def Of (s : State QueryId Client) (distributor : Nat) (queryId : QueryId) : Prop := ∃ entry, s.distributors[distributor]? = some entry ∧ entry.queryId = queryId

def SingleSender (s : State QueryId Client) : Action QueryId Client → Prop
  | .acquireForSending _ queryId => ∀ client distributor, (s.clients client).Active distributor → ¬ Of s distributor queryId
  | _ => True

def Ended (s : State QueryId Client) (distributor : Nat) : Prop := ∃ entry, s.distributors[distributor]? = some entry ∧ entry.ended = true

/-- What holds of a step. An acquired distributor is not ended. A sender gets the distributor of every receiver of the same session,
and a receiver gets the one of the active sender. A cleanup call does not delete the entry of another live distributor. -/
def Correct (s s' : State QueryId Client) (action : Action QueryId Client) : Prop := s'.checkFailed = false ∧
  match action with
  | .acquireForSending client queryId => ∃ distributor, s'.clients client = .sending distributor ∧ Of s' distributor queryId ∧ ¬ Ended s' distributor ∧
    ∀ other shared, s.clients other = .receiving shared → Of s shared queryId → ¬ Ended s shared → shared = distributor
  | .acquireForReceiving client queryId => ∃ distributor, s'.clients client = .receiving distributor ∧ Of s' distributor queryId ∧ ¬ Ended s' distributor ∧
    ∀ other shared, (s.clients other).Active shared → Of s shared queryId → shared = distributor
  | .signalEnd client => ∀ queryId distributor started, s.socketDistributors queryId = some (distributor,started) → Live s distributor →
    (s.clients client).distributor ≠ some distributor → s'.socketDistributors queryId = s.socketDistributors queryId
  | .cleanup destroyed => ∀ queryId distributor started, s.socketDistributors queryId = some (distributor,started) → Live s distributor →
    distributor ≠ destroyed → s'.socketDistributors queryId = s.socketDistributors queryId
  | _ => True

/-! ### The invariant -/

section Invariant
variable {s s' : State QueryId Client}

structure Invariant (s : State QueryId Client) : Prop where
  checked : s.checkFailed = false
  entry : ∀ queryId distributor started, s.socketDistributors queryId = some (distributor,started) → Of s distributor queryId ∧ ¬ Ended s distributor
  held : ∀ client distributor, (s.clients client).distributor = some distributor → distributor < s.distributors.length
  active : ∀ client distributor queryId, (s.clients client).Active distributor → Of s distributor queryId → s.socketDistributors queryId = some (distributor,true)
  single : ∀ client other distributor, (s.clients client).Active distributor → (s.clients other).Active distributor → client = other
  started : ∀ queryId distributor, s.socketDistributors queryId = some (distributor,true) → Live s distributor → ∃ client, (s.clients client).Active distributor
  present : ∀ distributor queryId, Live s distributor → Of s distributor queryId → ¬ Ended s distributor → ∃ started, s.socketDistributors queryId = some (distributor,started)

section
omit [DecidableEq QueryId] [DecidableEq Client] [Fintype Client]

theorem Invariant.initial : Invariant (initial : State QueryId Client) where
  checked := rfl
  entry _ _ _ same := by cases same
  held _ _ same := by cases same
  active _ _ _ isActive := by rcases isActive with same | same <;> cases same
  single _ _ _ isActive := by rcases isActive with same | same <;> cases same
  started _ _ same := by cases same
  present _ _ live := by obtain ⟨_,same⟩ := live; cases same

variable {distributor : Nat}

theorem Of.unique {queryId other : QueryId} (first : Of s distributor queryId) (second : Of s distributor other) : queryId = other := by
  obtain ⟨entry,found,rfl⟩ := first
  obtain ⟨entry',found',rfl⟩ := second
  rw [Option.some.inj (found.symm.trans found')]

theorem Of.lt {queryId : QueryId} (isOf : Of s distributor queryId) : distributor < s.distributors.length := by
  obtain ⟨entry,found,_⟩ := isOf
  exact (List.getElem?_eq_some_iff.mp found).1

theorem Holding.Active.distributor_eq {holding : Holding} (isActive : holding.Active distributor) : holding.distributor = some distributor := by
  rcases isActive with rfl | rfl <;> rfl

theorem Holding.Active.live {client : Client} (isActive : (s.clients client).Active distributor) : Live s distributor :=
  ⟨client,isActive.distributor_eq⟩

end

open State

section
omit [DecidableEq QueryId] [Fintype Client]

theorem live_hold {client : Client} {holding : Holding} {distributor other : Nat} (free : s.clients client = .nothing) (holds : holding.distributor = some distributor) :
    Live (s.hold client holding) other ↔ Live s other ∨ other = distributor := by
  constructor
  · rintro ⟨holder,same⟩
    by_cases isClient : holder = client
    · subst isClient
      simp only [hold,update_self,holds,Option.some.injEq] at same
      exact .inr same.symm
    · simp only [hold,update_of_ne isClient] at same
      exact .inl ⟨holder,same⟩
  · rintro (⟨holder,same⟩ | rfl)
    · have isOther : holder ≠ client := by
        rintro rfl
        rw [free] at same
        cases same
      exact ⟨holder,by simpa [hold,isOther] using same⟩
    · exact ⟨client,by simpa [hold] using holds⟩

theorem active_hold {client other : Client} {holding : Holding} {distributor : Nat} :
    ((s.hold client holding).clients other).Active distributor ↔ if other = client then holding.Active distributor else (s.clients other).Active distributor := by
  by_cases isClient : other = client
  · subst isClient
    simp [hold]
  · simp [hold,isClient]

end

section
omit [DecidableEq QueryId] [DecidableEq Client] [Fintype Client]

theorem active_holdingOf {isSender : Bool} {distributor other : Nat} : (holdingOf isSender distributor).Active other ↔ isSender = true ∧ other = distributor := by
  cases isSender <;> simp [holdingOf,Holding.Active,eq_comm]

theorem distributor_holdingOf (isSender : Bool) (distributor : Nat) : (holdingOf isSender distributor).distributor = some distributor := by
  cases isSender <;> rfl

end

section
omit [Fintype Client]

theorem acquire_invariant (invariant : Invariant s) (isSender started : Bool) (client : Client) (queryId : QueryId) (distributor : Nat)
    (free : s.clients client = .nothing) (found : s.socketDistributors queryId = some (distributor,started)) (live : Live s distributor)
    (noSender : isSender = true → ∀ other shared, (s.clients other).Active shared → ¬ Of s shared queryId) :
    Invariant ((s.setEntry queryId (some (distributor,started || isSender))).hold client (holdingOf isSender distributor)) := by
  obtain ⟨isOf,notEnded⟩ := invariant.entry queryId distributor started found
  have notClient : ∀ other shared, (s.clients other).Active shared → other ≠ client := by
    rintro other shared isActive rfl
    simp [free,Holding.Active] at isActive
  have liveIff : ∀ other, Live ((s.setEntry queryId (some (distributor,started || isSender))).hold client (holdingOf isSender distributor)) other ↔ Live s other := by
    intro other
    refine (live_hold (s := s.setEntry queryId (some (distributor,started || isSender))) free (distributor_holdingOf isSender distributor)).trans ?_
    exact ⟨fun either => either.elim id (fun same => same ▸ live),.inl⟩
  refine ⟨invariant.checked,?_,?_,?_,?_,?_,?_⟩
  · intro queryId' distributor' started' found'
    by_cases same : queryId' = queryId
    · subst same
      simp only [hold,setEntry,update_self,Option.some.injEq,Prod.mk.injEq] at found'
      obtain ⟨rfl,_⟩ := found'
      exact ⟨isOf,notEnded⟩
    · simp only [hold,setEntry,update_of_ne same] at found'
      exact invariant.entry queryId' distributor' started' found'
  · intro other distributor' holds
    by_cases isClient : other = client
    · subst isClient
      simp only [hold,update_self,distributor_holdingOf,Option.some.injEq] at holds
      subst holds
      exact isOf.lt
    · simp only [hold,update_of_ne isClient] at holds
      exact invariant.held other distributor' holds
  · intro other distributor' queryId' isActive isOf'
    rw [active_hold] at isActive
    split at isActive
    · obtain ⟨rfl,rfl⟩ := active_holdingOf.mp isActive
      obtain rfl := Of.unique isOf isOf'
      simp [hold,setEntry]
    · have entry := invariant.active other distributor' queryId' isActive isOf'
      by_cases same : queryId' = queryId
      · subst same
        rw [found] at entry
        obtain ⟨rfl,rfl⟩ := Prod.mk.inj (Option.some.inj entry)
        simp [hold,setEntry]
      · simpa [hold,setEntry,same] using entry
  · intro first second distributor' activeFirst activeSecond
    rw [active_hold] at activeFirst activeSecond
    split at activeFirst
    · obtain ⟨sender,rfl⟩ := active_holdingOf.mp activeFirst
      split at activeSecond
      · rw [‹first = client›,‹second = client›]
      · exact absurd isOf (noSender sender second distributor' activeSecond)
    · split at activeSecond
      · obtain ⟨sender,rfl⟩ := active_holdingOf.mp activeSecond
        exact absurd isOf (noSender sender first distributor' activeFirst)
      · exact invariant.single first second distributor' activeFirst activeSecond
  · intro queryId' distributor' entry isLive
    rw [liveIff] at isLive
    by_cases same : queryId' = queryId
    · subst same
      simp only [hold,setEntry,update_self,Option.some.injEq,Prod.mk.injEq] at entry
      obtain ⟨rfl,isStarted⟩ := entry
      cases isSender with
      | true => exact ⟨client,by simp [hold,holdingOf,Holding.Active]⟩
      | false =>
        obtain ⟨other,isActive⟩ := invariant.started queryId' distributor (by simpa [← isStarted] using found) isLive
        exact ⟨other,active_hold.mpr (by rw [if_neg (notClient other distributor isActive)]; exact isActive)⟩
    · simp only [hold,setEntry,update_of_ne same] at entry
      obtain ⟨other,isActive⟩ := invariant.started queryId' distributor' entry isLive
      exact ⟨other,active_hold.mpr (by rw [if_neg (notClient other distributor' isActive)]; exact isActive)⟩
  · intro distributor' queryId' isLive isOf' notEnded'
    obtain ⟨started',entry⟩ := invariant.present distributor' queryId' ((liveIff distributor').mp isLive) isOf' notEnded'
    by_cases same : queryId' = queryId
    · subst same
      rw [found] at entry
      obtain ⟨rfl,rfl⟩ := Prod.mk.inj (Option.some.inj entry)
      exact ⟨started || isSender,by simp [hold,setEntry]⟩
    · exact ⟨started',by simpa [hold,setEntry,same] using entry⟩

theorem create_of (isSender : Bool) (client : Client) (queryId other : QueryId) (distributor : Nat) :
    Of (create isSender client queryId s) distributor other ↔ Of s distributor other ∨ distributor = s.distributors.length ∧ other = queryId := by
  change (∃ entry, (s.distributors ++ [_])[distributor]? = some entry ∧ entry.queryId = other) ↔ _
  rcases lt_trichotomy distributor s.distributors.length with less | rfl | greater
  · rw [List.getElem?_append_left less]
    simp [Of,less.ne]
  · have absent : ¬ Of s s.distributors.length other := fun isOf => absurd isOf.lt (lt_irrefl _)
    simp [absent,eq_comm]
  · have absent : ¬ Of s distributor other := fun isOf => absurd isOf.lt greater.not_gt
    have outside : (s.distributors ++ [({queryId := queryId} : Distributor QueryId)])[distributor]? = none := by simpa using Nat.succ_le_of_lt greater
    simp [outside,absent,greater.ne']

theorem create_ended (isSender : Bool) (client : Client) (queryId : QueryId) (distributor : Nat) :
    Ended (create isSender client queryId s) distributor ↔ Ended s distributor := by
  change (∃ entry, (s.distributors ++ [_])[distributor]? = some entry ∧ entry.ended = true) ↔ _
  rcases lt_trichotomy distributor s.distributors.length with less | rfl | greater
  · rw [List.getElem?_append_left less]
    rfl
  · simp [Ended]
  · have outside : (s.distributors ++ [({queryId := queryId} : Distributor QueryId)])[distributor]? = none := by simpa using Nat.succ_le_of_lt greater
    have outside' : s.distributors[distributor]? = none := by simpa using greater.le
    simp [Ended,outside,outside']

theorem create_invariant (invariant : Invariant s) (isSender : Bool) (client : Client) (queryId : QueryId) (free : s.clients client = .nothing)
    (expired : ∀ distributor started, s.socketDistributors queryId = some (distributor,started) → ¬ Live s distributor) :
    Invariant (create isSender client queryId s) := by
  have notClient : ∀ other shared, (s.clients other).Active shared → other ≠ client := by
    rintro other shared isActive rfl
    simp [free,Holding.Active] at isActive
  have notHeld : ∀ other, (s.clients other).distributor ≠ some s.distributors.length := fun other holds => lt_irrefl _ (invariant.held other _ holds)
  have noSender : ∀ other shared, (s.clients other).Active shared → ¬ Of s shared queryId := fun other shared isActive isOf =>
    expired shared true (invariant.active other shared queryId isActive isOf) isActive.live
  have liveIff : ∀ other, Live (create isSender client queryId s) other ↔ Live s other ∨ other = s.distributors.length := by
    intro other
    change Live (s.hold client (holdingOf isSender s.distributors.length)) other ↔ _
    exact live_hold free (distributor_holdingOf isSender _)
  have activeIff : ∀ other shared, ((create isSender client queryId s).clients other).Active shared ↔
      if other = client then (holdingOf isSender s.distributors.length).Active shared else (s.clients other).Active shared := by
    intro other shared
    change ((s.hold client (holdingOf isSender s.distributors.length)).clients other).Active shared ↔ _
    exact active_hold
  have entries : ∀ other, (create isSender client queryId s).socketDistributors other =
      if other = queryId then some (s.distributors.length,isSender) else s.socketDistributors other := by
    intro other
    by_cases same : other = queryId
    · subst same
      simp [create,hold,setEntry]
    · simp [create,hold,setEntry,same]
  refine ⟨invariant.checked,?_,?_,?_,?_,?_,?_⟩
  · intro queryId' distributor' started' found
    rw [entries] at found
    rw [create_of,create_ended]
    split at found
    · obtain ⟨rfl,_⟩ := Prod.mk.inj (Option.some.inj found)
      exact ⟨.inr ⟨rfl,‹_›⟩,fun ⟨entry,inside,_⟩ => absurd (List.getElem?_eq_some_iff.mp inside).1 (lt_irrefl _)⟩
    · obtain ⟨isOf,notEnded⟩ := invariant.entry queryId' distributor' started' found
      exact ⟨.inl isOf,notEnded⟩
  · intro other distributor' holds
    have total : (create isSender client queryId s).distributors.length = s.distributors.length + 1 := List.length_append
    rw [total]
    have isLive := (liveIff distributor').mp ⟨other,holds⟩
    rcases isLive with ⟨holder,same⟩ | rfl
    · exact (invariant.held holder distributor' same).trans (Nat.lt_succ_self _)
    · exact Nat.lt_succ_self _
  · intro other distributor' queryId' isActive isOf
    rw [activeIff] at isActive
    rw [create_of] at isOf
    rw [entries]
    split at isActive
    · obtain ⟨rfl,rfl⟩ := active_holdingOf.mp isActive
      rcases isOf with isOf | ⟨_,rfl⟩
      · exact absurd isOf.lt (lt_irrefl _)
      · rw [if_pos rfl]
    · rcases isOf with isOf | ⟨rfl,_⟩
      · rw [if_neg (fun same : queryId' = queryId => noSender other distributor' isActive (same ▸ isOf))]
        exact invariant.active other distributor' queryId' isActive isOf
      · exact absurd isActive.distributor_eq (notHeld other)
  · intro first second distributor' activeFirst activeSecond
    rw [activeIff] at activeFirst activeSecond
    split at activeFirst
    · obtain ⟨_,rfl⟩ := active_holdingOf.mp activeFirst
      split at activeSecond
      · rw [‹first = client›,‹second = client›]
      · exact absurd activeSecond.distributor_eq (notHeld second)
    · split at activeSecond
      · obtain ⟨_,rfl⟩ := active_holdingOf.mp activeSecond
        exact absurd activeFirst.distributor_eq (notHeld first)
      · exact invariant.single first second distributor' activeFirst activeSecond
  · intro queryId' distributor' found isLive
    rw [entries] at found
    split at found
    · obtain ⟨rfl,rfl⟩ := Prod.mk.inj (Option.some.inj found)
      exact ⟨client,by rw [activeIff,if_pos rfl]; exact active_holdingOf.mpr ⟨rfl,rfl⟩⟩
    · rcases (liveIff distributor').mp isLive with isLive | rfl
      · obtain ⟨other,isActive⟩ := invariant.started queryId' distributor' found isLive
        exact ⟨other,by rw [activeIff,if_neg (notClient other distributor' isActive)]; exact isActive⟩
      · exact absurd (invariant.entry queryId' _ _ found).1.lt (lt_irrefl _)
  · intro distributor' queryId' isLive isOf notEnded
    rw [create_of] at isOf
    rw [create_ended] at notEnded
    rw [entries]
    rcases isOf with isOf | ⟨rfl,rfl⟩
    · have isLive : Live s distributor' := ((liveIff distributor').mp isLive).resolve_right isOf.lt.ne
      obtain ⟨started',found⟩ := invariant.present distributor' queryId' isLive isOf notEnded
      exact ⟨started',by rw [if_neg (fun same : queryId' = queryId => expired distributor' started' (same ▸ found) isLive)]; exact found⟩
    · exact ⟨isSender,by rw [if_pos rfl]⟩

end

omit [DecidableEq QueryId] [Fintype Client] in
theorem hold_invariant (invariant : Invariant s) (client : Client) (holding : Holding) (live : ∀ distributor, holding.distributor = some distributor → Live s distributor)
    (active : ∀ distributor, holding.Active distributor ↔ (s.clients client).Active distributor) : Invariant (s.hold client holding) := by
  have liveBefore : ∀ distributor, Live (s.hold client holding) distributor → Live s distributor := by
    rintro distributor ⟨other,holds⟩
    by_cases isClient : other = client
    · subst isClient
      exact live distributor (by simpa [hold] using holds)
    · exact ⟨other,by simpa [hold,isClient] using holds⟩
  have activeIff : ∀ other distributor, ((s.hold client holding).clients other).Active distributor ↔ (s.clients other).Active distributor := by
    intro other distributor
    rw [active_hold]
    split
    · rw [active,‹other = client›]
    · rfl
  refine ⟨invariant.checked,invariant.entry,?_,?_,?_,?_,?_⟩
  · intro other distributor holds
    obtain ⟨holder,same⟩ := liveBefore distributor ⟨other,holds⟩
    exact invariant.held holder distributor same
  · exact fun other distributor queryId isActive => invariant.active other distributor queryId ((activeIff other distributor).mp isActive)
  · exact fun first second distributor activeFirst activeSecond => invariant.single first second distributor ((activeIff _ _).mp activeFirst) ((activeIff _ _).mp activeSecond)
  · intro queryId distributor found isLive
    obtain ⟨other,isActive⟩ := invariant.started queryId distributor found (liveBefore distributor isLive)
    exact ⟨other,(activeIff other distributor).mpr isActive⟩
  · exact fun distributor queryId isLive => invariant.present distributor queryId (liveBefore distributor isLive)

section
omit [DecidableEq QueryId] [DecidableEq Client] [Fintype Client]

variable {entry : Distributor QueryId} {distributors : List (Distributor QueryId)}

theorem of_set {distributor other : Nat} {queryId : QueryId} (found : distributors[distributor]? = some entry)
    (changed : Distributor QueryId) (same : changed.queryId = entry.queryId) :
    (∃ value, (distributors.set distributor changed)[other]? = some value ∧ value.queryId = queryId) ↔ ∃ value, distributors[other]? = some value ∧ value.queryId = queryId := by
  by_cases isSame : distributor = other
  · subst isSame
    obtain ⟨inside,_⟩ := List.getElem?_eq_some_iff.mp found
    rw [List.getElem?_set_self inside,found]
    simp [same]
  · rw [List.getElem?_set_ne isSame]

theorem ended_set {distributor other : Nat} (found : distributors[distributor]? = some entry)
    (changed : Distributor QueryId) :
    (∃ value, (distributors.set distributor changed)[other]? = some value ∧ value.ended = true) ↔
      if other = distributor then changed.ended = true else ∃ value, distributors[other]? = some value ∧ value.ended = true := by
  by_cases isSame : other = distributor
  · subst isSame
    obtain ⟨inside,_⟩ := List.getElem?_eq_some_iff.mp found
    simp [inside]
  · rw [List.getElem?_set_ne (Ne.symm isSame),if_neg isSame]

end

omit [Fintype Client] in
theorem end_invariant (invariant : Invariant s) (client : Client) (distributor : Nat) (entry : Distributor QueryId) (found : s.distributors[distributor]? = some entry)
    (signalling : s.clients client = .signalling distributor) :
    Invariant ({s.setEntry entry.queryId none with distributors := s.distributors.set distributor {entry with ended := true,cleanupCall := false}}.hold client (.ended distributor)) := by
  have isActive : (s.clients client).Active distributor := .inr signalling
  have isOf : Of s distributor entry.queryId := ⟨entry,found,rfl⟩
  have own := invariant.active client distributor entry.queryId isActive isOf
  let after := {s.setEntry entry.queryId none with distributors := s.distributors.set distributor {entry with ended := true,cleanupCall := false}}.hold client (.ended distributor)
  have entries : ∀ queryId, after.socketDistributors queryId = if queryId = entry.queryId then none else s.socketDistributors queryId := by
    intro queryId
    by_cases same : queryId = entry.queryId
    · simp [after,hold,setEntry,same]
    · simp [after,hold,setEntry,same]
  have ofIff : ∀ other queryId, Of after other queryId ↔ Of s other queryId := fun other queryId => of_set found _ rfl
  have endedIff : ∀ other, other ≠ distributor → (Ended after other ↔ Ended s other) := fun other differs => (ended_set found _).trans (by rw [if_neg differs]; rfl)
  have isEnded : Ended after distributor := (ended_set found _).mpr (by rw [if_pos rfl])
  have activeIff : ∀ other shared, (after.clients other).Active shared ↔ other ≠ client ∧ (s.clients other).Active shared := by
    intro other shared
    change ((s.hold client (.ended distributor)).clients other).Active shared ↔ _
    rw [active_hold]
    split
    · simp [Holding.Active,‹other = client›]
    · simp [‹¬ other = client›]
  have liveBefore : ∀ other, Live after other → Live s other := by
    rintro other ⟨holder,holds⟩
    change ((s.hold client (.ended distributor)).clients holder).distributor = some other at holds
    by_cases isClient : holder = client
    · subst isClient
      obtain rfl : distributor = other := by simpa [hold,Holding.distributor] using holds
      exact isActive.live
    · exact ⟨holder,by simpa [hold,isClient] using holds⟩
  refine ⟨invariant.checked,?_,?_,?_,?_,?_,?_⟩
  · intro queryId other started entryFound
    rw [entries] at entryFound
    split at entryFound
    · cases entryFound
    · obtain ⟨isOf',notEnded⟩ := invariant.entry queryId other started entryFound
      have differs : other ≠ distributor := by
        rintro rfl
        exact absurd (Of.unique isOf' isOf) ‹_›
      exact ⟨(ofIff other queryId).mpr isOf',fun ended => notEnded ((endedIff other differs).mp ended)⟩
  · intro other shared holds
    obtain ⟨holder,same⟩ := liveBefore shared ⟨other,holds⟩
    have inside := invariant.held holder shared same
    simpa [hold] using inside
  · intro other shared queryId activeOther isOf'
    obtain ⟨notClient,activeOther⟩ := (activeIff other shared).mp activeOther
    have shown := invariant.active other shared queryId activeOther ((ofIff shared queryId).mp isOf')
    have differs : queryId ≠ entry.queryId := by
      rintro rfl
      obtain ⟨rfl,_⟩ := Prod.mk.inj (Option.some.inj (own.symm.trans shown))
      exact notClient (invariant.single other client distributor activeOther isActive)
    exact (entries queryId).trans (by rw [if_neg differs]; exact shown)
  · exact fun first second shared activeFirst activeSecond => invariant.single first second shared ((activeIff _ _).mp activeFirst).2 ((activeIff _ _).mp activeSecond).2
  · intro queryId other entryFound isLive
    rw [entries] at entryFound
    split at entryFound
    · cases entryFound
    · obtain ⟨holder,activeHolder⟩ := invariant.started queryId other entryFound (liveBefore other isLive)
      refine ⟨holder,(activeIff holder other).mpr ⟨?_,activeHolder⟩⟩
      rintro rfl
      have same : other = distributor := Option.some.inj (activeHolder.distributor_eq.symm.trans isActive.distributor_eq)
      exact absurd (Of.unique (invariant.entry queryId other true entryFound).1 (same ▸ isOf)) ‹_›
  · intro other queryId isLive isOf' notEnded
    have differs : other ≠ distributor := by
      rintro rfl
      exact notEnded isEnded
    obtain ⟨started,shown⟩ := invariant.present other queryId (liveBefore other isLive) ((ofIff other queryId).mp isOf') (fun ended => notEnded ((endedIff other differs).mpr ended))
    have otherId : queryId ≠ entry.queryId := by
      rintro rfl
      exact differs (Prod.mk.inj (Option.some.inj (shown.symm.trans own))).1
    exact ⟨started,(entries queryId).trans (by rw [if_neg otherId]; exact shown)⟩

/-- The two parts of `signalEnd`, where the second one deletes the entry of the sender's own distributor. -/
theorem signalEnd_cases (invariant : Invariant s) (client : Client) (taken : signalEnd client s = some s') :
    (∃ distributor, s.clients client = .sending distributor ∧ s' = s.hold client (.signalling distributor)) ∨
    ∃ distributor entry, s.clients client = .signalling distributor ∧ s.distributors[distributor]? = some entry ∧
      s.socketDistributors entry.queryId = some (distributor,true) ∧
      s' = {s.setEntry entry.queryId none with distributors := s.distributors.set distributor {entry with ended := true,cleanupCall := false}}.hold client (.ended distributor) := by
  unfold signalEnd at taken
  split at taken
  · rename_i distributor sending
    exact .inl ⟨distributor,sending,(Option.some.inj taken).symm⟩
  · rename_i distributor signalling
    cases found : s.distributors[distributor]? with
    | none => simp [found] at taken
    | some entry =>
      have own := invariant.active client distributor entry.queryId (.inr signalling) ⟨entry,found,rfl⟩
      simp only [found,Option.bind_eq_bind,Option.bind_some,Option.pure_def,Option.some.injEq,deleteFromDistributors,own,true_or,if_true] at taken
      exact .inr ⟨distributor,entry,signalling,found,own,taken.symm⟩
  · cases taken

theorem signalEnd_invariant (invariant : Invariant s) (client : Client) (taken : signalEnd client s = some s') : Invariant s' := by
  obtain ⟨distributor,sending,rfl⟩ | ⟨distributor,entry,signalling,found,_,rfl⟩ := signalEnd_cases invariant client taken
  · refine hold_invariant invariant client _ (fun other same => ⟨client,by rw [sending]; exact same⟩) (fun other => ?_)
    rw [sending]
    simp [Holding.Active]
  · exact end_invariant invariant client distributor entry found signalling

section
omit [DecidableEq Client]

theorem delete_entry (queryId other : QueryId) (s : State QueryId Client) :
    (deleteFromDistributors queryId false s).socketDistributors other = s.socketDistributors other ∨
      (deleteFromDistributors queryId false s).socketDistributors other = none ∧ ∀ distributor started, s.socketDistributors other = some (distributor,started) → ¬ Live s distributor := by
  unfold deleteFromDistributors
  split
  · exact .inl rfl
  · rename_i distributor started found
    split
    · rename_i expired
      by_cases same : other = queryId
      · subst same
        refine .inr ⟨by simp [setEntry],fun distributor' started' found' => ?_⟩
        obtain ⟨rfl,_⟩ := Prod.mk.inj (Option.some.inj (found.symm.trans found'))
        simpa using expired
      · exact .inl (by simp [setEntry,same])
    · exact .inl rfl

theorem delete_clients (queryId : QueryId) (alwaysDelete : Bool) (s : State QueryId Client) :
    (deleteFromDistributors queryId alwaysDelete s).clients = s.clients ∧ (deleteFromDistributors queryId alwaysDelete s).checkFailed = s.checkFailed := by
  unfold deleteFromDistributors
  split
  · exact ⟨rfl,rfl⟩
  · split <;> exact ⟨rfl,rfl⟩

theorem cleanup_cases (distributor : Nat) (taken : cleanup distributor s = some s') :
    ∃ entry, s.distributors[distributor]? = some entry ∧ entry.cleanupCall = true ∧ ¬ Live s distributor ∧
      s' = {deleteFromDistributors entry.queryId false s with distributors := s.distributors.set distributor {entry with cleanupCall := false}} := by
  unfold cleanup at taken
  cases found : s.distributors[distributor]? with
  | none => simp [found] at taken
  | some entry =>
    simp only [found,Option.bind_eq_bind,Option.bind_some] at taken
    split at taken
    · rename_i expired
      exact ⟨entry,rfl,expired.1,expired.2,(Option.some.inj taken).symm⟩
    · cases taken

theorem cleanup_invariant (invariant : Invariant s) (distributor : Nat) (taken : cleanup distributor s = some s') : Invariant s' := by
  obtain ⟨entry,found,_,_,rfl⟩ := cleanup_cases distributor taken
  let after : State QueryId Client := {deleteFromDistributors entry.queryId false s with distributors := s.distributors.set distributor {entry with cleanupCall := false}}
  obtain ⟨clients,checked⟩ := delete_clients entry.queryId false s
  have ofIff : ∀ other queryId, Of after other queryId ↔ Of s other queryId := fun other queryId => of_set found _ rfl
  have endedIff : ∀ other, Ended after other ↔ Ended s other := by
    intro other
    refine (ended_set found _).trans ?_
    split
    · rename_i same
      simp [Ended,same,found]
    · rfl
  have liveIff : ∀ other, Live after other ↔ Live s other := by
    intro other
    simp only [Live,after,clients]
  have kept : ∀ queryId other started, s.socketDistributors queryId = some (other,started) → Live s other → after.socketDistributors queryId = some (other,started) := by
    intro queryId other started shown isLive
    rcases delete_entry entry.queryId queryId s with same | ⟨_,expired⟩
    · exact same.trans shown
    · exact absurd isLive (expired other started shown)
  have before : ∀ queryId other started, after.socketDistributors queryId = some (other,started) → s.socketDistributors queryId = some (other,started) := by
    intro queryId other started shown
    rcases delete_entry entry.queryId queryId s with same | ⟨gone,_⟩
    · exact same.symm.trans shown
    · exact absurd (gone.symm.trans shown) (by simp)
  refine ⟨checked.trans invariant.checked,?_,?_,?_,?_,?_,?_⟩
  · intro queryId other started shown
    obtain ⟨isOf,notEnded⟩ := invariant.entry queryId other started (before queryId other started shown)
    exact ⟨(ofIff other queryId).mpr isOf,fun ended => notEnded ((endedIff other).mp ended)⟩
  · intro client other holds
    rw [clients] at holds
    simpa using invariant.held client other holds
  · intro client other queryId isActive isOf
    rw [clients] at isActive
    exact kept queryId other true (invariant.active client other queryId isActive ((ofIff other queryId).mp isOf)) isActive.live
  · intro first second other activeFirst activeSecond
    rw [clients] at activeFirst activeSecond
    exact invariant.single first second other activeFirst activeSecond
  · intro queryId other shown isLive
    obtain ⟨client,isActive⟩ := invariant.started queryId other (before queryId other true shown) ((liveIff other).mp isLive)
    exact ⟨client,by rw [clients]; exact isActive⟩
  · intro other queryId isLive isOf notEnded
    have live := (liveIff other).mp isLive
    obtain ⟨started,shown⟩ := invariant.present other queryId live ((ofIff other queryId).mp isOf) (fun ended => notEnded ((endedIff other).mpr ended))
    exact ⟨started,kept queryId other started shown live⟩

end

theorem acquire_cases (invariant : Invariant s) (isSender : Bool) (client : Client) (queryId : QueryId) (free : s.clients client = .nothing)
    (noSender : isSender = true → ∀ other shared, (s.clients other).Active shared → ¬ Of s shared queryId) :
    Invariant (createOrAcquireDistributorInternal isSender client queryId s) ∧ ∃ distributor,
      (createOrAcquireDistributorInternal isSender client queryId s).clients client = holdingOf isSender distributor ∧
      Of (createOrAcquireDistributorInternal isSender client queryId s) distributor queryId ∧ ¬ Ended (createOrAcquireDistributorInternal isSender client queryId s) distributor ∧
      ∀ other started, s.socketDistributors queryId = some (other,started) → Live s other → other = distributor := by
  have new : (∀ distributor started, s.socketDistributors queryId = some (distributor,started) → ¬ Live s distributor) →
      Invariant (create isSender client queryId s) ∧ ∃ distributor, (create isSender client queryId s).clients client = holdingOf isSender distributor ∧
        Of (create isSender client queryId s) distributor queryId ∧ ¬ Ended (create isSender client queryId s) distributor ∧
        ∀ other started, s.socketDistributors queryId = some (other,started) → Live s other → other = distributor := by
    intro expired
    refine ⟨create_invariant invariant isSender client queryId free expired,s.distributors.length,?_,?_,?_,?_⟩
    · simp [create,hold]
    · rw [create_of]
      exact .inr ⟨rfl,rfl⟩
    · rw [create_ended]
      exact fun ⟨entry,inside,_⟩ => absurd (List.getElem?_eq_some_iff.mp inside).1 (lt_irrefl _)
    · exact fun other started found live => absurd live (expired other started found)
  unfold createOrAcquireDistributorInternal
  split
  · rename_i distributor started found
    split
    · rename_i live
      obtain ⟨isOf,notEnded⟩ := invariant.entry queryId distributor started found
      split
      · rename_i both
        obtain ⟨rfl,rfl⟩ : isSender = true ∧ started = true := by simpa using both
        obtain ⟨other,isActive⟩ := invariant.started queryId distributor found live
        exact absurd isOf (noSender rfl other distributor isActive)
      · refine ⟨acquire_invariant invariant isSender started client queryId distributor free found live noSender,distributor,?_,isOf,notEnded,?_⟩
        · simp [hold]
        · intro other started' found' _
          exact (Prod.mk.inj (Option.some.inj (found'.symm.trans found))).1
    · rename_i expired
      refine new (fun other started' found' => ?_)
      rw [found] at found'
      obtain ⟨rfl,_⟩ := Prod.mk.inj (Option.some.inj found')
      exact expired
  · rename_i none
    exact new (fun other started' found' => absurd (none.symm.trans found') (by simp))

theorem step_correct (invariant : Invariant s) (action : Action QueryId Client) (allowed : SingleSender s action) (taken : step s action = some s') :
    Invariant s' ∧ Correct s s' action := by
  cases action with
  | acquireForSending client queryId =>
    simp only [step] at taken
    split at taken
    · rename_i free
      obtain rfl := Option.some.inj taken
      obtain ⟨after,distributor,holds,isOf,notEnded,shares⟩ := acquire_cases invariant true client queryId free (fun _ => allowed)
      refine ⟨after,after.checked,distributor,holds,isOf,notEnded,fun other shared receiving isOf' notEnded' => ?_⟩
      have live : Live s shared := ⟨other,by rw [receiving]; rfl⟩
      obtain ⟨started,found⟩ := invariant.present shared queryId live isOf' notEnded'
      exact shares shared started found live
    · cases taken
  | acquireForReceiving client queryId =>
    simp only [step] at taken
    split at taken
    · rename_i free
      obtain rfl := Option.some.inj taken
      obtain ⟨after,distributor,holds,isOf,notEnded,shares⟩ := acquire_cases invariant false client queryId free (fun absurd => by cases absurd)
      exact ⟨after,after.checked,distributor,holds,isOf,notEnded,fun other shared isActive isOf' =>
        shares shared true (invariant.active other shared queryId isActive isOf') isActive.live⟩
    · cases taken
  | signalEnd client =>
    have after := signalEnd_invariant invariant client taken
    refine ⟨after,after.checked,fun queryId distributor started found live notOwn => ?_⟩
    obtain ⟨_,_,rfl⟩ | ⟨own,entry,signalling,_,shown,rfl⟩ := signalEnd_cases invariant client taken
    · rfl
    · have differs : queryId ≠ entry.queryId := by
        rintro rfl
        obtain ⟨rfl,_⟩ := Prod.mk.inj (Option.some.inj (found.symm.trans shown))
        exact notOwn (by rw [signalling]; rfl)
      simp [hold,setEntry,differs]
  | copy source target =>
    simp only [step] at taken
    split at taken
    · rename_i distributor free holds
      obtain rfl := Option.some.inj taken
      have after : Invariant (s.hold target (.receiving distributor)) := by
        refine hold_invariant invariant target _ (fun other same => ⟨source,holds.trans same⟩) (fun other => ?_)
        rw [free]
        simp [Holding.Active]
      exact ⟨after,after.checked,trivial⟩
    · cases taken
  | release client =>
    have after : Invariant s' := by
      simp only [step] at taken
      split at taken
      case h_3 => cases taken
      all_goals
        rename_i distributor holds
        obtain rfl := Option.some.inj taken
        exact hold_invariant invariant client _ (fun other same => by cases same) (fun other => by rw [holds]; simp [Holding.Active])
    exact ⟨after,after.checked,trivial⟩
  | cleanup destroyed =>
    have after := cleanup_invariant invariant destroyed taken
    refine ⟨after,after.checked,fun queryId distributor started found live _ => ?_⟩
    obtain ⟨entry,_,_,_,rfl⟩ := cleanup_cases destroyed taken
    rcases delete_entry entry.queryId queryId s with same | ⟨_,expired⟩
    · exact same
    · exact absurd live (expired distributor started found)

end Invariant

/-- In every run in which a query id has at most one active sender, every step is correct. -/
theorem sessions_correct (s s' : State QueryId Client) (action : Action QueryId Client) (steps : Run step SingleSender initial s) (allowed : SingleSender s action)
    (taken : step s action = some s') : Correct s s' action :=
  (step_correct (steps.invariant Invariant.initial (fun _ action _ invariant allowed taken => (step_correct invariant action allowed taken).1)) action allowed taken).2

/-- A receiver waits for the query, then a sender acquires it and gets the same distributor. -/
theorem sessions_correct_oneReceiver : ∃ s s' : State Unit Bool, Run step SingleSender initial s ∧ step s (.acquireForSending true ()) = some s' ∧
    Correct s s' (.acquireForSending true ()) := by
  have steps : Run step SingleSender (initial : State Unit Bool) (createOrAcquireDistributorInternal false false () initial) :=
    Run.start.next (.acquireForReceiving false ()) trivial rfl
  have allowed : SingleSender (createOrAcquireDistributorInternal false false () (initial : State Unit Bool)) (.acquireForSending true ()) := by
    rintro client distributor (same | same)
    · cases client <;> cases same
    · cases client <;> cases same
  exact ⟨_,_,steps,rfl,sessions_correct _ _ _ steps allowed rfl⟩

/-- A receiver of an ended session holds its distributor when the next sender acquires the query id, and does not share it. -/
theorem receiver_of_ended_session : ∃ s s' : State Unit (Fin 3), Run step SingleSender initial s ∧ SingleSender s (.acquireForSending 2 ()) ∧
    step s (.acquireForSending 2 ()) = some s' ∧ s.clients 0 = .receiving 0 ∧ Of s 0 () ∧ s'.clients 2 ≠ .sending 0 := by
  let waiting : State Unit (Fin 3) := createOrAcquireDistributorInternal false 0 () initial
  let started := createOrAcquireDistributorInternal true 1 () waiting
  let signalling := started.hold 1 (.signalling 0)
  let ended := (signalEnd 1 signalling).get rfl
  have inactive : ∀ s : State Unit (Fin 3), (∀ client, s.clients client ∈ [.nothing,.receiving 0,.ended 0]) → ∀ client, SingleSender s (.acquireForSending client ()) := by
    intro s none client other distributor isActive
    have member := none other
    rcases isActive with same | same <;> simp [same] at member
  have steps : Run step SingleSender initial waiting := Run.start.next (.acquireForReceiving 0 ()) trivial rfl
  have steps : Run step SingleSender initial started := steps.next (.acquireForSending 1 ()) (inactive waiting (by decide) 1) rfl
  have steps : Run step SingleSender initial signalling := steps.next (.signalEnd 1) (show SingleSender started (.signalEnd 1) from trivial) rfl
  have steps : Run step SingleSender initial ended := steps.next (.signalEnd 1) (show SingleSender signalling (.signalEnd 1) from trivial) rfl
  exact ⟨ended,createOrAcquireDistributorInternal true 2 () ended,steps,inactive ended (by decide) 2,rfl,by decide,⟨_,rfl,rfl⟩,by decide⟩

end QueryHub
end Qlever
