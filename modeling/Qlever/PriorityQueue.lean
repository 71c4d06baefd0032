import Qlever.Library.PriorityQueue

/-! `PriorityQueue.h`: the two priority queues with handles. `HeapBasedPQ` leaves the old entry of an element in its heap when the score of the element
changes, and recognizes it later by its score.
-/
namespace Qlever.PriorityQueue
open Library.PriorityQueue List

structure StrictOrder {Score : Type} (comp : Score → Score → Bool) : Prop where
  irreflexive : ∀ score,comp score score = false
  transitive : ∀ {a b c},comp a b = true → comp b c = true → comp a c = true

/-- `std::priority_queue` with an order that makes it a min-heap. Which one of several smallest entries is at the top is left open. -/
structure StdPriorityQueue (Score : Type) (comp : Score → Score → Bool) where
  Queue : Type
  entries : Queue → List (Score × Nat)
  empty : Queue
  top : Queue → Option (Score × Nat)
  emplace : Queue → Score × Nat → Queue
  pop : Queue → Queue
  entries_empty : entries empty = []
  top_eq_none : ∀ {queue},top queue = none → entries queue = []
  entries_emplace : ∀ queue entry,(entries (emplace queue entry)).Perm (entry :: entries queue)
  entries_pop : ∀ {queue entry},top queue = some entry → (entries queue).Perm (entry :: entries (pop queue))
  top_least : ∀ {queue entry},top queue = some entry → ∀ other ∈ entries queue,comp other.1 entry.1 = false

section HeapBased
variable {Score Value : Type} {comp : Score → Score → Bool}

/-- The score of an erased element is `none`. -/
structure PqNode (Score Value : Type) where
  mScore : Option Score
  mValue : Value
  mIsInPQ : Bool := true

structure HeapBasedPQ (Value : Type) (std : StdPriorityQueue Score comp) where
  nodes : List (PqNode Score Value) := []
  pq : std.Queue := std.empty
  mSize : Nat := 0

def decrement (size : Nat) : Nat := if size = 0 then 2 ^ 64 - 1 else size - 1

variable [DecidableEq Score] {std : StdPriorityQueue Score comp}

/-- `top.mHandle.isValid() && top.mScore == top.mHandle.score()` -/
def isCurrent (nodes : List (PqNode Score Value)) (entry : Score × Nat) : Prop := (nodes[entry.2]?).bind PqNode.mScore = some entry.1

instance (nodes : List (PqNode Score Value)) : DecidablePred (isCurrent nodes) := fun entry =>
  inferInstanceAs (Decidable ((nodes[entry.2]?).bind PqNode.mScore = some entry.1))

/-- `fuel` is the number of entries. -/
def pruneChangedKeys (std : StdPriorityQueue Score comp) (nodes : List (PqNode Score Value)) : Nat → std.Queue → std.Queue
  | 0,pq => pq
  | fuel + 1,pq =>
    match std.top pq with
    | none => pq
    | some top => if isCurrent nodes top then pq else pruneChangedKeys std nodes fuel (std.pop pq)

namespace HeapBasedPQ
variable [Inhabited Value]

def insert (heap : HeapBasedPQ Value std) (s : Score) (v : Value) : Answer Value × HeapBasedPQ Value std :=
  (.handle heap.nodes.length v,⟨heap.nodes ++ [⟨some s,v,true⟩],std.emplace heap.pq (s,heap.nodes.length),heap.mSize + 1⟩)

def pop (heap : HeapBasedPQ Value std) : Answer Value × HeapBasedPQ Value std :=
  let pq := pruneChangedKeys std heap.nodes (std.entries heap.pq).length heap.pq
  match std.top pq with
  | none => (.emptyPop,{ heap with pq := pq })
  | some top =>
    match heap.nodes[top.2]? with
    | none => (.emptyPop,{ heap with pq := pq })
    | some node => (.handle top.2 node.mValue,⟨heap.nodes.set top.2 { node with mIsInPQ := false },std.pop pq,decrement heap.mSize⟩)

/-- `assertValidHandle` and then `body`. -/
def withValidHandle (heap : HeapBasedPQ Value std) (handle : Nat) (body : PqNode Score Value → HeapBasedPQ Value std) :
    Answer Value × HeapBasedPQ Value std :=
  match heap.nodes[handle]? with
  | none => (.notInPQ,heap)
  | some node => if node.mIsInPQ then (.done,body node) else (.notInPQ,heap)

def updateKey (heap : HeapBasedPQ Value std) (newKey : Score) (handle : Nat) : Answer Value × HeapBasedPQ Value std :=
  heap.withValidHandle handle (fun node =>
    if some newKey = node.mScore then heap
    else { heap with nodes := heap.nodes.set handle { node with mScore := some newKey },pq := std.emplace heap.pq (newKey,handle) })

def erase (heap : HeapBasedPQ Value std) (handle : Nat) : Answer Value × HeapBasedPQ Value std :=
  heap.withValidHandle handle (fun _ =>
    { heap with nodes := heap.nodes.set handle ⟨none,default,false⟩,mSize := decrement heap.mSize })

def clear (heap : HeapBasedPQ Value std) : HeapBasedPQ Value std := { heap with pq := std.empty,mSize := 0 }

def size (heap : HeapBasedPQ Value std) : Nat := heap.mSize

def step (heap : HeapBasedPQ Value std) : Request Score Value → Answer Value × HeapBasedPQ Value std
  | .insert score value => heap.insert score value
  | .updateKey handle newKey => heap.updateKey newKey handle
  | .erase handle => heap.erase handle
  | .pop => heap.pop
  | .clear => (.done,heap.clear)

def run (heap : HeapBasedPQ Value std) : List (Request Score Value) → List (Answer Value) × HeapBasedPQ Value std
  | [] => ([],heap)
  | request :: requests =>
    let next := heap.step request
    let rest := next.2.run requests
    (next.1 :: rest.1,rest.2)

end HeapBasedPQ

end HeapBased

section TreeBased
variable {Score Value : Type} (comp : Score → Score → Bool)

/-- `handles` has the handles as their owners see them, with the score that `updateKey` wrote last. A value is known by its number. -/
structure TreeBasedPQ (Score Value : Type) where
  handles : List (Score × Value) := []
  mMap : List (Score × Nat) := []

/-- `std::multiset::insert`: after all elements that are not greater. -/
def multisetInsert (element : Score × Nat) (mMap : List (Score × Nat)) : List (Score × Nat) :=
  mMap.takeWhile (fun other => !comp element.1 other.1) ++ element :: mMap.dropWhile (fun other => !comp element.1 other.1)

namespace TreeBasedPQ

def find (tree : TreeBasedPQ Score Value) (handle : Nat) : Option (Score × Nat) :=
  match tree.handles[handle]? with
  | none => none
  | some (score,_) => (tree.mMap.filter (fun a => !comp a.1 score && !comp score a.1)).find? (fun a => a.2 = handle)

def insert (tree : TreeBasedPQ Score Value) (s : Score) (v : Value) : Answer Value × TreeBasedPQ Score Value :=
  (.handle tree.handles.length v,⟨tree.handles ++ [(s,v)],multisetInsert comp (s,tree.handles.length) tree.mMap⟩)

def pop (tree : TreeBasedPQ Score Value) : Answer Value × TreeBasedPQ Score Value :=
  match tree.mMap with
  | [] => (.emptyPop,tree)
  | first :: others =>
    match tree.handles[first.2]? with
    | none => (.emptyPop,tree)
    | some (_,value) => (.handle first.2 value,{ tree with mMap := others })

variable [DecidableEq Score]

def erase (tree : TreeBasedPQ Score Value) (handle : Nat) : Answer Value × TreeBasedPQ Score Value :=
  match tree.find comp handle with
  | some it => (.done,{ tree with mMap := tree.mMap.erase it })
  | none => (.notInPQ,tree)

def updateKey (tree : TreeBasedPQ Score Value) (newKey : Score) (handle : Nat) : Answer Value × TreeBasedPQ Score Value :=
  match tree.find comp handle with
  | some it => (.done,⟨tree.handles.modify handle (fun old => (newKey,old.2)),multisetInsert comp (newKey,handle) (tree.mMap.erase it)⟩)
  | none => (.notInPQ,tree)

def clear (tree : TreeBasedPQ Score Value) : TreeBasedPQ Score Value := { tree with mMap := [] }

def size (tree : TreeBasedPQ Score Value) : Nat := tree.mMap.length

def step (tree : TreeBasedPQ Score Value) : Request Score Value → Answer Value × TreeBasedPQ Score Value
  | .insert score value => tree.insert comp score value
  | .updateKey handle newKey => tree.updateKey comp newKey handle
  | .erase handle => tree.erase comp handle
  | .pop => tree.pop
  | .clear => (.done,tree.clear)

end TreeBasedPQ

def Sorted (mMap : List (Score × Nat)) : Prop := mMap.Pairwise (fun first second => comp second.1 first.1 = false)

variable [DecidableEq Score]

/-- Runs of a `TreeBasedPQ` in which, before each operation, elements with equal scores may change their order. -/
inductive TreeRun : TreeBasedPQ Score Value → List (Request Score Value) → List (Answer Value) → TreeBasedPQ Score Value → Prop
  | nil (tree : TreeBasedPQ Score Value) : TreeRun tree [] [] tree
  | cons {tree last : TreeBasedPQ Score Value} {mMap : List (Score × Nat)} {request : Request Score Value} {requests : List (Request Score Value)}
      {answers : List (Answer Value)} (same : mMap.Perm tree.mMap) (sorted : Sorted comp mMap)
      (run : TreeRun (({ tree with mMap := mMap }.step comp request).2) requests answers last) :
      TreeRun tree (request :: requests) (({ tree with mMap := mMap }.step comp request).1 :: answers) last

end TreeBased

section Pruned
variable {Score Value : Type} [DecidableEq Score] {comp : Score → Score → Bool} {std : StdPriorityQueue Score comp}

theorem pruneChangedKeys_spec (nodes : List (PqNode Score Value)) (fuel : Nat) (pq : std.Queue) (enough : (std.entries pq).length ≤ fuel) :
    (∃ stale,(std.entries pq).Perm (stale ++ std.entries (pruneChangedKeys std nodes fuel pq)) ∧ ∀ entry ∈ stale,¬isCurrent nodes entry) ∧
      ∀ top,std.top (pruneChangedKeys std nodes fuel pq) = some top → isCurrent nodes top := by
  have unchanged : ∃ stale,(std.entries pq).Perm (stale ++ std.entries pq) ∧ ∀ entry ∈ stale,¬isCurrent nodes entry :=
    ⟨[],.refl _,fun entry isStale => absurd isStale not_mem_nil⟩
  induction fuel generalizing pq with
  | zero =>
    refine ⟨unchanged,?_⟩
    intro top isTop
    have popped : (std.entries pq).Perm (top :: std.entries (std.pop pq)) := std.entries_pop isTop
    rw [length_eq_zero_iff.mp (Nat.le_zero.mp enough)] at popped
    exact absurd popped.symm not_perm_cons_nil
  | succ fuel ih =>
    rw [pruneChangedKeys]
    cases isTop : std.top pq with
    | none =>
      refine ⟨unchanged,?_⟩
      intro top isOther
      simp only [isTop] at isOther
      cases isOther
    | some top =>
      by_cases current : isCurrent nodes top
      · simp only [if_pos current]
        refine ⟨unchanged,?_⟩
        intro other isOther
        rw [isTop] at isOther
        cases isOther
        exact current
      · simp only [if_neg current]
        have popped := std.entries_pop isTop
        have fewer : (std.entries (std.pop pq)).length ≤ fuel := by
          have shorter := popped.length_eq
          rw [length_cons] at shorter
          omega
        obtain ⟨⟨stale,parts,isStale⟩,last⟩ := ih (std.pop pq) fewer ⟨[],.refl _,fun entry isStale => absurd isStale not_mem_nil⟩
        refine ⟨⟨top :: stale,popped.trans (parts.cons top),?_⟩,last⟩
        intro entry isEntry
        rcases mem_cons.mp isEntry with rfl | isEntry
        · exact current
        · exact isStale entry isEntry

end Pruned

section Heap
variable {Score Value : Type} {comp : Score → Score → Bool} {std : StdPriorityQueue Score comp}

/-- Each live element has an entry with its score, and an entry with the score of its node belongs to a live element. -/
structure Represents (heap : HeapBasedPQ Value std) (contents : Contents Score Value) : Prop where
  created : heap.nodes.length = contents.values.length
  size : heap.mSize = contents.live.length
  inside : ∀ entry ∈ std.entries heap.pq,entry.2 < heap.nodes.length
  present : ∀ element ∈ contents.live,element ∈ std.entries heap.pq
  nodes : ∀ element ∈ contents.live,∃ value,heap.nodes[element.2]? = some ⟨some element.1,value,true⟩ ∧ contents.values[element.2]? = some value
  live : ∀ entry ∈ std.entries heap.pq,isCurrent heap.nodes entry → entry ∈ contents.live

theorem decrement_eq {size length : Nat} (same : size = length + 1) : decrement size = length := by
  rw [decrement,if_neg (by omega)]
  omega

variable {heap : HeapBasedPQ Value std} {contents : Contents Score Value} {element : Score × Nat}

theorem Represents.current (represents : Represents heap contents)
    (isLive : element ∈ contents.live) : isCurrent heap.nodes element := by
  obtain ⟨value,isNode,-⟩ := represents.nodes element isLive
  rw [isCurrent,isNode,Option.bind_some]

variable {nodes : List (PqNode Score Value)} {node : PqNode Score Value} {entry : Score × Nat}

theorem isCurrent_set {handle : Nat}     (different : entry.2 ≠ handle) : isCurrent (nodes.set handle node) entry ↔ isCurrent nodes entry := by
  rw [isCurrent,isCurrent,getElem?_set_ne (Ne.symm different)]

theorem isCurrent_set_self (inside : entry.2 < nodes.length) :
    isCurrent (nodes.set entry.2 node) entry ↔ node.mScore = some entry.1 := by
  rw [isCurrent,getElem?_set_self inside,Option.bind_some]

section
variable {heap : HeapBasedPQ Value std} {contents : Contents Score Value} (represents : Represents heap contents)
include represents

variable {element : Score × Nat}

/-- An element is taken out when no entry is current for it afterwards, which is so after `pop` and `erase`. -/
theorem Represents.remove
    (wellFormed : contents.WellFormed) (isLive : element ∈ contents.live) (node : PqNode Score Value) (pq : std.Queue)
    (subset : ∀ entry ∈ std.entries pq,entry ∈ std.entries heap.pq)
    (kept : ∀ other ∈ contents.live,other.2 ≠ element.2 → other ∈ std.entries pq)
    (gone : ∀ entry ∈ std.entries pq,entry.2 = element.2 → node.mScore ≠ some entry.1) :
    Represents (⟨heap.nodes.set element.2 node,pq,decrement heap.mSize⟩ : HeapBasedPQ Value std) { contents with live := remove element.2 contents.live } := by
  refine ⟨?_,?_,?_,?_,?_,?_⟩
  · rw [length_set,represents.created]
  · apply decrement_eq
    rw [represents.size]
    exact (length_remove wellFormed.distinct isLive).symm
  · intro entry isEntry
    rw [length_set]
    exact represents.inside entry (subset entry isEntry)
  · intro other isOther
    obtain ⟨isOther,different⟩ := mem_remove.mp isOther
    exact kept other isOther different
  · intro other isOther
    obtain ⟨isOther,different⟩ := mem_remove.mp isOther
    rw [getElem?_set_ne (Ne.symm different)]
    exact represents.nodes other isOther
  · intro entry isEntry current
    have different : entry.2 ≠ element.2 := by
      intro same
      have inside := represents.inside entry (subset entry isEntry)
      rw [← same] at current
      exact gone entry isEntry same ((isCurrent_set_self inside).mp current)
    exact mem_remove.mpr ⟨represents.live entry (subset entry isEntry) ((isCurrent_set different).mp current),different⟩

theorem withValidHandle_eq (isLive : element ∈ contents.live) (body : PqNode Score Value → HeapBasedPQ Value std) :
    ∃ value,heap.nodes[element.2]? = some ⟨some element.1,value,true⟩ ∧ contents.values[element.2]? = some value ∧
      heap.withValidHandle element.2 body = (.done,body ⟨some element.1,value,true⟩) := by
  obtain ⟨value,isNode,isValue⟩ := represents.nodes element isLive
  refine ⟨value,isNode,isValue,?_⟩
  rw [HeapBasedPQ.withValidHandle,isNode]
  rfl

theorem Represents.insert
    (score : Score) (value : Value) : ∃ contents',Step (fun a b => comp a b = true) contents (.insert score value) (heap.insert score value).1 contents' ∧
      Represents (heap.insert score value).2 contents' := by
  refine ⟨⟨contents.values ++ [value],contents.live ++ [(score,contents.values.length)]⟩,?_,?_⟩
  · rw [HeapBasedPQ.insert,represents.created]
    exact .insert contents score value
  · have isEntry : ∀ entry,entry ∈ std.entries (heap.insert score value).2.pq ↔ entry = (score,heap.nodes.length) ∨ entry ∈ std.entries heap.pq := by
      intro entry
      rw [← mem_cons]
      exact (std.entries_emplace heap.pq (score,heap.nodes.length)).mem_iff
    have nodesOld : ∀ handle,handle < heap.nodes.length → (heap.insert score value).2.nodes[handle]? = heap.nodes[handle]? := fun handle inside =>
      getElem?_append_left inside
    have nodeNew : (heap.insert score value).2.nodes[heap.nodes.length]? = some ⟨some score,value,true⟩ := getElem?_concat_length
    have created := represents.created
    refine ⟨?_,?_,?_,?_,?_,?_⟩
    · simp only [HeapBasedPQ.insert,length_append,length_singleton,represents.created]
    · simp only [HeapBasedPQ.insert,length_append,length_singleton,represents.size]
    · intro entry isOne
      simp only [HeapBasedPQ.insert,length_append,length_singleton]
      rcases (isEntry entry).mp isOne with rfl | isOld
      · exact Nat.lt_succ_self _
      · exact Nat.lt_succ_of_lt (represents.inside entry isOld)
    · intro element isElement
      rw [isEntry]
      rcases mem_append.mp isElement with isOld | isNew
      · exact .inr (represents.present element isOld)
      · rw [mem_singleton.mp isNew,created]
        exact .inl rfl
    · intro element isElement
      rcases mem_append.mp isElement with isOld | isNew
      · obtain ⟨old,isNode,isValue⟩ := represents.nodes element isOld
        have inside := represents.inside element (represents.present element isOld)
        refine ⟨old,(nodesOld _ inside).trans isNode,?_⟩
        rw [getElem?_append_left (created ▸ inside),isValue]
      · rw [mem_singleton.mp isNew]
        refine ⟨value,?_,getElem?_concat_length⟩
        rw [← created]
        exact nodeNew
    · intro entry isOne current
      rw [mem_append,mem_singleton]
      rcases (isEntry entry).mp isOne with rfl | isOld
      · rw [created]
        exact .inr rfl
      · have inside := represents.inside entry isOld
        rw [isCurrent,nodesOld _ inside] at current
        exact .inl (represents.live entry isOld current)

theorem Represents.clear :
    Represents heap.clear { contents with live := [] } := by
  have none : ∀ entry,entry ∉ std.entries std.empty := fun entry => std.entries_empty ▸ not_mem_nil
  exact ⟨represents.created,rfl,fun entry isEntry => absurd isEntry (none entry),fun element isLive => absurd isLive not_mem_nil,
    fun element isLive => absurd isLive not_mem_nil,fun entry isEntry => absurd isEntry (none entry)⟩

end

theorem Represents.erase [Inhabited Value] (represents : Represents heap contents)
    (wellFormed : contents.WellFormed) (isLive : element ∈ contents.live) :
    ∃ contents',Step (fun a b => comp a b = true) contents (.erase element.2) (heap.erase element.2).1 contents' ∧
      Represents (heap.erase element.2).2 contents' := by
  obtain ⟨value,-,-,done⟩ := withValidHandle_eq represents isLive (fun _ =>
    { heap with nodes := heap.nodes.set element.2 ⟨none,default,false⟩,mSize := decrement heap.mSize })
  rw [HeapBasedPQ.erase,done]
  refine ⟨{ contents with live := Library.PriorityQueue.remove element.2 contents.live },.erase isLive,?_⟩
  exact represents.remove wellFormed isLive ⟨none,default,false⟩ heap.pq (fun _ isEntry => isEntry) (fun other isOther _ => represents.present other isOther)
    (fun _ _ _ isScore => nomatch isScore)

variable [DecidableEq Score]

def HeapBasedPQ.NoCopyOnTop (heap : HeapBasedPQ Value std) : Prop :=
  ∀ entry ∈ std.entries heap.pq,isCurrent heap.nodes entry →
    (∀ other ∈ std.entries heap.pq,isCurrent heap.nodes other → comp other.1 entry.1 = false) → (std.entries heap.pq).count entry = 1

section
variable {heap : HeapBasedPQ Value std} {contents : Contents Score Value} (represents : Represents heap contents) (wellFormed : contents.WellFormed)
include represents wellFormed

theorem Represents.updateKey (newKey : Score) {element : Score × Nat} (isLive : element ∈ contents.live) :
    ∃ contents',Step (fun a b => comp a b = true) contents (.updateKey element.2 newKey) (heap.updateKey newKey element.2).1 contents' ∧
      Represents (heap.updateKey newKey element.2).2 contents' := by
  obtain ⟨value,isNode,isValue,done⟩ := withValidHandle_eq represents isLive (fun node =>
    if some newKey = node.mScore then heap
    else { heap with nodes := heap.nodes.set element.2 { node with mScore := some newKey },pq := std.emplace heap.pq (newKey,element.2) })
  rw [HeapBasedPQ.updateKey,done]
  refine ⟨{ contents with live := setScore element.2 newKey contents.live },.updateKey newKey isLive,?_⟩
  by_cases same : newKey = element.1
  · simp only [same,if_true]
    rw [setScore_same wellFormed.distinct isLive]
    exact represents
  · simp only [Option.some.injEq,if_neg same]
    have isEntry : ∀ entry,entry ∈ std.entries (std.emplace heap.pq (newKey,element.2)) ↔ entry = (newKey,element.2) ∨ entry ∈ std.entries heap.pq := by
      intro entry
      rw [← mem_cons]
      exact (std.entries_emplace heap.pq (newKey,element.2)).mem_iff
    have inside := represents.inside element (represents.present element isLive)
    have isUpdated : ∀ {other},other ∈ setScore element.2 newKey contents.live ↔ other = (newKey,element.2) ∨ other ∈ contents.live ∧ other.2 ≠ element.2 :=
      mem_setScore ⟨element.1,isLive⟩
    refine ⟨?_,?_,?_,?_,?_,?_⟩
    · rw [length_set,represents.created]
    · rw [represents.size,setScore,length_map]
    · intro entry isOne
      rw [length_set]
      rcases (isEntry entry).mp isOne with rfl | isOld
      · exact inside
      · exact represents.inside entry isOld
    · intro other isOther
      rw [isEntry]
      exact (isUpdated.mp isOther).imp_right (fun isOld => represents.present other isOld.1)
    · intro other isOther
      rcases isUpdated.mp isOther with rfl | ⟨isOld,different⟩
      · exact ⟨value,getElem?_set_self inside,isValue⟩
      · rw [getElem?_set_ne (Ne.symm different)]
        exact represents.nodes other isOld
    · intro entry isOne current
      rw [isUpdated]
      by_cases sameHandle : entry.2 = element.2
      · rw [← sameHandle] at current inside
        have isScore := (isCurrent_set_self inside).mp current
        rw [Option.some.injEq] at isScore
        exact .inl (Prod.ext isScore.symm sameHandle)
      · rw [isCurrent_set sameHandle] at current
        rcases (isEntry entry).mp isOne with rfl | isOld
        · exact absurd rfl sameHandle
        · exact .inr ⟨represents.live entry isOld current,sameHandle⟩

theorem Represents.pop (noCopy : heap.NoCopyOnTop) :
    ∃ contents',Step (fun a b => comp a b = true) contents .pop heap.pop.1 contents' ∧ Represents heap.pop.2 contents' := by
  obtain ⟨⟨stale,parts,isStale⟩,last⟩ := pruneChangedKeys_spec heap.nodes (std.entries heap.pq).length heap.pq (Nat.le_refl _)
  generalize isPruned : pruneChangedKeys std heap.nodes (std.entries heap.pq).length heap.pq = pruned at parts last
  have subset : ∀ entry ∈ std.entries pruned,entry ∈ std.entries heap.pq := fun entry isEntry =>
    parts.mem_iff.mpr (mem_append_right stale isEntry)
  have kept : ∀ entry ∈ std.entries heap.pq,isCurrent heap.nodes entry → entry ∈ std.entries pruned := fun entry isEntry current =>
    (mem_append.mp (parts.mem_iff.mp isEntry)).resolve_left (fun isOld => isStale entry isOld current)
  have present : ∀ element ∈ contents.live,element ∈ std.entries pruned := fun element isLive =>
    kept element (represents.present element isLive) (represents.current isLive)
  rw [HeapBasedPQ.pop,isPruned]
  cases isTop : std.top pruned with
  | none =>
    simp only
    have empty := std.top_eq_none isTop
    refine ⟨contents,.emptyPop (eq_nil_iff_forall_not_mem.mpr ?_),?_⟩
    · intro element isLive
      have isEntry := present element isLive
      rw [empty] at isEntry
      exact not_mem_nil isEntry
    · exact ⟨represents.created,represents.size,fun entry isEntry => represents.inside entry (subset entry isEntry),present,represents.nodes,
        fun entry isEntry => represents.live entry (subset entry isEntry)⟩
  | some top =>
    have current := last top isTop
    have popped := std.entries_pop isTop
    have isEntry : top ∈ std.entries pruned := popped.mem_iff.mpr mem_cons_self
    have isLive := represents.live top (subset top isEntry) current
    obtain ⟨value,isNode,isValue⟩ := represents.nodes top isLive
    simp only [isNode]
    refine ⟨{ contents with live := Library.PriorityQueue.remove top.2 contents.live },?_,?_⟩
    · refine .pop isLive isValue ?_
      intro other isOther
      rw [Bool.not_eq_true]
      exact std.top_least isTop other (present other isOther)
    · have once := noCopy top (subset top isEntry) current (fun other isOther isCurrent => std.top_least isTop other (kept other isOther isCurrent))
      -- There is no second entry that will be taken for this element later.
      have onlyOne : top ∉ std.entries (std.pop pruned) := by
        rw [parts.count_eq,count_append,popped.count_eq,count_cons_self] at once
        rw [← count_eq_zero]
        omega
      refine represents.remove wellFormed isLive ⟨some top.1,value,false⟩ (std.pop pruned) ?_ ?_ ?_
      · intro entry isRest
        exact subset entry (popped.mem_iff.mpr (mem_cons_of_mem top isRest))
      · intro other isOther different
        rcases mem_cons.mp (popped.mem_iff.mp (present other isOther)) with rfl | isRest
        · exact absurd rfl different
        · exact isRest
      · intro entry isRest sameHandle sameScore
        rw [Option.some.injEq] at sameScore
        have same : entry = top := Prod.ext sameScore.symm sameHandle
        exact onlyOne (same ▸ isRest)

end

variable [Inhabited Value]

theorem Represents.step (represents : Represents heap contents)
    (wellFormed : contents.WellFormed) {request : Request Score Value} (through : request.IsThrough (contents.live.map Prod.snd))
    (noCopy : request = .pop → heap.NoCopyOnTop) :
    ∃ contents',Step (fun a b => comp a b = true) contents request (heap.step request).1 contents' ∧ Represents (heap.step request).2 contents' := by
  cases request with
  | insert score value => exact represents.insert score value
  | updateKey handle newKey =>
    obtain ⟨element,isLive,rfl⟩ := List.mem_map.mp through
    exact represents.updateKey wellFormed newKey isLive
  | erase handle =>
    obtain ⟨element,isLive,rfl⟩ := List.mem_map.mp through
    exact represents.erase wellFormed isLive
  | pop => exact represents.pop wellFormed (noCopy rfl)
  | clear => exact ⟨{ contents with live := [] },.clear contents,represents.clear⟩

end Heap

section Tree
variable {Score Value : Type} {comp : Score → Score → Bool}

structure TreeRepresents (comp : Score → Score → Bool) (tree : TreeBasedPQ Score Value) (contents : Contents Score Value) : Prop where
  elements : tree.mMap.Perm contents.live
  sorted : Sorted comp tree.mMap
  handles : tree.handles.map Prod.snd = contents.values
  scores : ∀ element ∈ contents.live,(tree.handles[element.2]?).map Prod.fst = some element.1

theorem multisetInsert_perm (element : Score × Nat) (mMap : List (Score × Nat)) : (multisetInsert comp element mMap).Perm (element :: mMap) := by
  rw [multisetInsert]
  refine perm_middle.trans ?_
  rw [takeWhile_append_dropWhile]

variable {mMap : List (Score × Nat)}

theorem sorted_multisetInsert (order : StrictOrder comp) (element : Score × Nat) (sorted : Sorted comp mMap) :
    Sorted comp (multisetInsert comp element mMap) := by
  induction mMap with
  | nil => exact pairwise_singleton _ _
  | cons first mMap ih =>
    have parts := pairwise_cons.mp sorted
    rw [multisetInsert]
    cases greater : comp element.1 first.1 with
    | true =>
      rw [takeWhile_cons_of_neg (by simp [greater]),dropWhile_cons_of_neg (by simp [greater]),nil_append]
      refine pairwise_cons.mpr ⟨?_,sorted⟩
      intro other isOther
      rw [← Bool.not_eq_true]
      intro smaller
      have before := order.transitive smaller greater
      rcases mem_cons.mp isOther with rfl | isLater
      · rw [order.irreflexive] at before
        cases before
      · rw [parts.1 other isLater] at before
        cases before
    | false =>
      rw [takeWhile_cons_of_pos (by simp [greater]),dropWhile_cons_of_pos (by simp [greater]),cons_append]
      refine pairwise_cons.mpr ⟨?_,ih parts.2⟩
      intro other isOther
      rcases mem_cons.mp ((multisetInsert_perm element mMap).mem_iff.mp isOther) with rfl | isLater
      · exact greater
      · exact parts.1 other isLater

variable {element : Score × Nat}

theorem TreeRepresents.find {tree : TreeBasedPQ Score Value} {contents : Contents Score Value} (represents : TreeRepresents comp tree contents)
    (order : StrictOrder comp) (wellFormed : contents.WellFormed) (isLive : element ∈ contents.live) :
    tree.find comp element.2 = some element := by
  have isScore := represents.scores element isLive
  rw [Option.map_eq_some_iff] at isScore
  obtain ⟨⟨score,value⟩,isHandle,rfl⟩ := isScore
  simp only [TreeBasedPQ.find,isHandle]
  have isElement : element ∈ tree.mMap.filter (fun a => !comp a.1 element.1 && !comp element.1 a.1) := by
    rw [mem_filter,represents.elements.mem_iff]
    refine ⟨isLive,?_⟩
    rw [order.irreflexive]
    rfl
  cases isFound : (tree.mMap.filter (fun a => !comp a.1 element.1 && !comp element.1 a.1)).find? (fun a => a.2 = element.2) with
  | none =>
    have missing := find?_eq_none.mp isFound element isElement
    simp at missing
  | some other =>
    have same := find?_some isFound
    rw [decide_eq_true_eq] at same
    have isOther := mem_of_find?_eq_some isFound
    rw [mem_filter,represents.elements.mem_iff] at isOther
    rw [eq_of_handle wellFormed.distinct isOther.1 isLive same]

variable [DecidableEq Score]

theorem erase_perm {live : List (Score × Nat)} (elements : mMap.Perm live) (distinct : (live.map Prod.snd).Nodup)
    (isLive : element ∈ live) : (mMap.erase element).Perm (remove element.2 live) :=
  (elements.erase element).trans (remove_perm distinct isLive)

theorem sorted_erase (sorted : Sorted comp mMap) (element : Score × Nat) : Sorted comp (mMap.erase element) :=
  sorted.sublist erase_sublist

section
variable {tree : TreeBasedPQ Score Value} {contents contents' : Contents Score Value} {request : Request Score Value} {answer : Answer Value}
  (represents : TreeRepresents comp tree contents)
include represents

theorem TreeRepresents.stay (sameAnswer : (tree.step comp request).1 = answer)
    (represents' : TreeRepresents comp (tree.step comp request).2 contents') :
    ∃ mMap,mMap.Perm tree.mMap ∧ Sorted comp mMap ∧ ({ tree with mMap := mMap }.step comp request).1 = answer ∧
      TreeRepresents comp ({ tree with mMap := mMap }.step comp request).2 contents' :=
  ⟨tree.mMap,.refl _,represents.sorted,sameAnswer,represents'⟩

theorem TreeRepresents.step (order : StrictOrder comp) (wellFormed : contents.WellFormed)
    (step : Step (fun a b => comp a b = true) contents request answer contents') :
    ∃ mMap,mMap.Perm tree.mMap ∧ Sorted comp mMap ∧ ({ tree with mMap := mMap }.step comp request).1 = answer ∧
      TreeRepresents comp ({ tree with mMap := mMap }.step comp request).2 contents' := by
  have created : tree.handles.length = contents.values.length := by rw [← represents.handles,length_map]
  cases step with
  | insert score value =>
    apply represents.stay
    · rw [TreeBasedPQ.step,TreeBasedPQ.insert,created]
    · refine ⟨?_,sorted_multisetInsert order _ represents.sorted,?_,?_⟩
      · have added : (multisetInsert comp (score,tree.handles.length) tree.mMap).Perm _ := multisetInsert_perm _ _
        simp only [TreeBasedPQ.step,TreeBasedPQ.insert]
        rw [← created]
        exact added.trans ((represents.elements.cons _).trans (perm_append_singleton _ _).symm)
      · simp only [TreeBasedPQ.step,TreeBasedPQ.insert,map_append,map_singleton,represents.handles]
      · intro element isElement
        simp only [TreeBasedPQ.step,TreeBasedPQ.insert]
        rcases mem_append.mp isElement with isOld | isNew
        · rw [getElem?_append_left (created ▸ wellFormed.inserted element isOld)]
          exact represents.scores element isOld
        · rw [mem_singleton.mp isNew,← created,getElem?_concat_length]
          rfl
  | updateKey newKey isLive =>
    rename_i score handle
    have found := represents.find order wellFormed isLive
    apply represents.stay
    · simp only [TreeBasedPQ.step,TreeBasedPQ.updateKey,found]
    · simp only [TreeBasedPQ.step,TreeBasedPQ.updateKey,found]
      refine ⟨?_,sorted_multisetInsert order _ (sorted_erase represents.sorted _),?_,?_⟩
      · calc
          multisetInsert comp (newKey,handle) (tree.mMap.erase (score,handle))
          _ |>.Perm ((newKey,handle) :: tree.mMap.erase (score,handle)) := multisetInsert_perm _ _
          _ |>.Perm ((newKey,handle) :: remove handle contents.live) := (erase_perm represents.elements wellFormed.distinct isLive).cons _
          _ |>.Perm (setScore handle newKey contents.live) := setScore_perm wellFormed.distinct isLive
      · rw [← represents.handles]
        apply ext_getElem?
        intro position
        rw [getElem?_map,getElem?_map,getElem?_modify]
        cases tree.handles[position]? with
        | none => rfl
        | some old => by_cases same : handle = position <;> simp [same]
      · intro element isElement
        rw [getElem?_modify]
        rcases (mem_setScore ⟨score,isLive⟩).mp isElement with rfl | ⟨isOld,different⟩
        · have isScore := represents.scores (score,handle) isLive
          rw [Option.map_eq_some_iff] at isScore
          obtain ⟨old,isOld,-⟩ := isScore
          rw [isOld]
          simp
        · have isScore := represents.scores element isOld
          rw [← isScore]
          congr 1
          cases tree.handles[element.2]? with
          | none => rfl
          | some old => simp [Ne.symm different]
  | erase isLive =>
    have found := represents.find order wellFormed isLive
    apply represents.stay
    · simp only [TreeBasedPQ.step,TreeBasedPQ.erase,found]
    · simp only [TreeBasedPQ.step,TreeBasedPQ.erase,found]
      exact ⟨erase_perm represents.elements wellFormed.distinct isLive,sorted_erase represents.sorted _,represents.handles,
        fun element isElement => represents.scores element (mem_remove.mp isElement).1⟩
  | pop isLive isValue least =>
    rename_i score handle value
    have isElement := represents.elements.mem_iff.mpr isLive
    have isHandle : ∃ old,tree.handles[handle]? = some old ∧ old.2 = value := by
      rw [← represents.handles,getElem?_map,Option.map_eq_some_iff] at isValue
      exact isValue
    obtain ⟨⟨old,_⟩,isHandle,rfl⟩ := isHandle
    refine ⟨(score,handle) :: tree.mMap.erase (score,handle),(perm_cons_erase isElement).symm,?_,?_,?_⟩
    · refine pairwise_cons.mpr ⟨?_,sorted_erase represents.sorted _⟩
      intro other isOther
      rw [← Bool.not_eq_true]
      exact least other (represents.elements.mem_iff.mp (mem_of_mem_erase isOther))
    · simp only [TreeBasedPQ.step,TreeBasedPQ.pop,isHandle]
    · simp only [TreeBasedPQ.step,TreeBasedPQ.pop,isHandle]
      exact ⟨erase_perm represents.elements wellFormed.distinct isLive,sorted_erase represents.sorted _,represents.handles,
        fun element isElement => represents.scores element (mem_remove.mp isElement).1⟩
  | emptyPop empty =>
    have noElements : tree.mMap = [] := (empty ▸ represents.elements).eq_nil
    apply represents.stay
    · simp only [TreeBasedPQ.step,TreeBasedPQ.pop,noElements]
    · simp only [TreeBasedPQ.step,TreeBasedPQ.pop,noElements]
      exact represents
  | clear =>
    apply represents.stay
    · rfl
    · exact ⟨.refl _,.nil,represents.handles,fun element isElement => absurd isElement not_mem_nil⟩

end

end Tree

section Runs
variable {Score Value : Type} [DecidableEq Score] [Inhabited Value] {comp : Score → Score → Bool} {std : StdPriorityQueue Score comp}

/-- Before each `pop` no smallest element has two entries with its score. -/
def HeapBasedPQ.NoCopiesOnTop (heap : HeapBasedPQ Value std) : List (Request Score Value) → Prop
  | [] => True
  | request :: requests => (request = .pop → heap.NoCopyOnTop) ∧ HeapBasedPQ.NoCopiesOnTop (heap.step request).2 requests

theorem Represents.run {heap : HeapBasedPQ Value std} {tree : TreeBasedPQ Score Value} {contents : Contents Score Value}
    (represents : Represents heap contents) (treeRepresents : TreeRepresents comp tree contents) (order : StrictOrder comp)
    (wellFormed : contents.WellFormed) (requests : List (Request Score Value))
    (valid : UsesValidHandles (contents.live.map Prod.snd) requests (heap.run requests).1) (noCopies : heap.NoCopiesOnTop requests) :
    ∃ last,Run (fun a b => comp a b = true) contents requests (heap.run requests).1 last ∧ Represents (heap.run requests).2 last ∧
      ∃ lastTree,TreeRun comp tree requests (heap.run requests).1 lastTree ∧ TreeRepresents comp lastTree last := by
  induction requests generalizing heap tree contents with
  | nil => exact ⟨contents,.nil contents,represents,tree,.nil tree,treeRepresents⟩
  | cons request requests ih =>
    rw [HeapBasedPQ.run] at valid
    obtain ⟨through,valid⟩ := valid
    obtain ⟨contents',step,represents'⟩ := represents.step wellFormed through noCopies.1
    obtain ⟨mMap,same,sorted,sameAnswer,treeRepresents'⟩ := treeRepresents.step order wellFormed step
    rw [step.validAfter_eq] at valid
    obtain ⟨last,run,representsLast,lastTree,treeRun,treeLast⟩ := ih represents' treeRepresents' (step.wellFormed wellFormed) valid noCopies.2
    have firstAnswer := TreeRun.cons same sorted treeRun
    rw [sameAnswer] at firstAnswer
    exact ⟨last,.cons step run,representsLast,lastTree,firstAnswer,treeLast⟩

/-- The heap is a priority queue, and a tree gives the same answers, up to the order of equal scores. -/
theorem heapBasedPQ_isPriorityQueue (std : StdPriorityQueue Score comp) (order : StrictOrder comp) (requests : List (Request Score Value))
    (valid : UsesValidHandles [] requests (({} : HeapBasedPQ Value std).run requests).1) (noCopies : ({} : HeapBasedPQ Value std).NoCopiesOnTop requests) :
    ∃ contents : Contents Score Value,Run (fun a b => comp a b = true) {} requests (({} : HeapBasedPQ Value std).run requests).1 contents ∧
      (({} : HeapBasedPQ Value std).run requests).2.size = contents.live.length ∧
      (popped requests (({} : HeapBasedPQ Value std).run requests).1).Nodup ∧
      ∃ tree : TreeBasedPQ Score Value,TreeRun comp {} requests (({} : HeapBasedPQ Value std).run requests).1 tree ∧
        tree.size = (({} : HeapBasedPQ Value std).run requests).2.size := by
  have represents : Represents ({} : HeapBasedPQ Value std) ({} : Contents Score Value) := by
    refine ⟨rfl,rfl,?_,?_,?_,?_⟩
    all_goals
      intro element isElement
      try rw [std.entries_empty] at isElement
      exact absurd isElement not_mem_nil
  have treeRepresents : TreeRepresents comp ({} : TreeBasedPQ Score Value) {} :=
    ⟨.refl _,.nil,rfl,fun element isElement => absurd isElement not_mem_nil⟩
  have wellFormed : ({} : Contents Score Value).WellFormed := ⟨nodup_nil,fun element isElement => absurd isElement not_mem_nil⟩
  obtain ⟨last,run,representsLast,tree,treeRun,treeLast⟩ := represents.run treeRepresents order wellFormed requests valid noCopies
  refine ⟨last,run,representsLast.size,run.popped_nodup wellFormed,tree,treeRun,?_⟩
  rw [TreeBasedPQ.size,treeLast.elements.length_eq,HeapBasedPQ.size,representsLast.size]

instance (heap : HeapBasedPQ Value std) : Decidable heap.NoCopyOnTop := decidableBAll _ _

instance decidableNoCopiesOnTop : (heap : HeapBasedPQ Value std) → (requests : List (Request Score Value)) → Decidable (heap.NoCopiesOnTop requests)
  | _,[] => .isTrue trivial
  | heap,request :: requests =>
    have := decidableNoCopiesOnTop (heap.step request).2 requests
    have : Decidable (request = .pop → heap.NoCopyOnTop) :=
      match request with
      | .pop => decidable_of_iff heap.NoCopyOnTop ⟨fun noCopy _ => noCopy,fun noCopy => noCopy rfl⟩
      | .insert _ _ => .isTrue (fun other => nomatch other)
      | .updateKey _ _ => .isTrue (fun other => nomatch other)
      | .erase _ => .isTrue (fun other => nomatch other)
      | .clear => .isTrue (fun other => nomatch other)
    inferInstanceAs (Decidable ((request = .pop → heap.NoCopyOnTop) ∧ HeapBasedPQ.NoCopiesOnTop (heap.step request).2 requests))

def sortedQueue {comp : Score → Score → Bool} (order : StrictOrder comp) : StdPriorityQueue Score comp where
  Queue := { entries : List (Score × Nat) // Sorted comp entries }
  entries := Subtype.val
  empty := ⟨[],.nil⟩
  top := fun queue => queue.1.head?
  emplace := fun queue entry => ⟨multisetInsert comp entry queue.1,sorted_multisetInsert order entry queue.2⟩
  pop := fun queue => ⟨queue.1.tail,queue.2.sublist (List.tail_sublist queue.1)⟩
  entries_empty := rfl
  top_eq_none := fun isTop => head?_eq_none_iff.mp isTop
  entries_emplace := fun queue entry => multisetInsert_perm entry queue.1
  entries_pop := fun {queue} {entry} isTop => by
    obtain ⟨others,isQueue⟩ := head?_eq_some_iff.mp isTop
    change queue.1.Perm (entry :: queue.1.tail)
    rw [isQueue,tail_cons]
  top_least := fun {queue} {entry} isTop other isOther => by
    obtain ⟨others,isQueue⟩ := head?_eq_some_iff.mp isTop
    have sorted := queue.2
    rw [isQueue] at sorted isOther
    rcases mem_cons.mp isOther with rfl | isLater
    · exact order.irreflexive _
    · exact (pairwise_cons.mp sorted).1 other isLater

theorem strictOrder_nat : StrictOrder (fun first second : Nat => decide (first < second)) :=
  ⟨fun score => by simp,fun {a b c} first second => by
    rw [decide_eq_true_eq] at first second ⊢
    exact Nat.lt_trans first second⟩

def someRequests : List (Request Nat Nat) :=
  [.insert 5 10,.insert 2 11,.updateKey 0 1,.updateKey 1 7,.updateKey 0 6,.pop,.insert 1 12,.erase 2,.pop,.pop]

theorem heapBasedPQ_isPriorityQueue_someRequests :
    ∃ contents : Contents Nat Nat,
      Run (fun a b => decide (a < b) = true) {} someRequests (({} : HeapBasedPQ Nat (sortedQueue strictOrder_nat)).run someRequests).1 contents ∧
      (({} : HeapBasedPQ Nat (sortedQueue strictOrder_nat)).run someRequests).2.size = contents.live.length ∧
      (popped someRequests (({} : HeapBasedPQ Nat (sortedQueue strictOrder_nat)).run someRequests).1).Nodup ∧
      ∃ tree : TreeBasedPQ Nat Nat,
        TreeRun (fun a b => decide (a < b)) {} someRequests (({} : HeapBasedPQ Nat (sortedQueue strictOrder_nat)).run someRequests).1 tree ∧
        tree.size = (({} : HeapBasedPQ Nat (sortedQueue strictOrder_nat)).run someRequests).2.size :=
  heapBasedPQ_isPriorityQueue (sortedQueue strictOrder_nat) strictOrder_nat someRequests (by decide +kernel) (by decide +kernel)

/-- The score of the only element returns to 5 and has two entries then. -/
theorem heapBasedPQ_popsTwice :
    UsesValidHandles [] [.insert 5 10,.updateKey 0 3,.updateKey 0 5,.pop,.pop]
      (({} : HeapBasedPQ Nat (sortedQueue strictOrder_nat)).run [.insert 5 10,.updateKey 0 3,.updateKey 0 5,.pop,.pop]).1 ∧
    ¬(popped [.insert 5 10,.updateKey 0 3,.updateKey 0 5,.pop,.pop]
      (({} : HeapBasedPQ Nat (sortedQueue strictOrder_nat)).run [.insert 5 10,.updateKey 0 3,.updateKey 0 5,.pop,.pop]).1).Nodup ∧
    (({} : HeapBasedPQ Nat (sortedQueue strictOrder_nat)).run [.insert 5 10,.updateKey 0 3,.updateKey 0 5,.pop,.pop]).2.size = 2 ^ 64 - 1 := by
  decide +kernel

end Runs

end Qlever.PriorityQueue
