import Qlever.Library.Run

/-! The four structures and the two sums of a `FlexibleCache`, with limits that change and sizes that are checked. The
priority queue is a list of nodes, and the entry with the smallest score is a choice of each operation. A failure comes with
the cache at that time.
-/
namespace Qlever.CacheAccounting
open List

inductive Failure
  | alreadyPresent
  | tooBigToPin
  | sizeUnderflow
  | sizeOverflow
  | noEntries
  deriving DecidableEq, Repr

/-- `operator+` of `MemorySize`. -/
def plus (a b : Nat) : Except Failure Nat := if a + b < 2 ^ 64 then .ok (a + b) else .error .sizeOverflow

/-- `operator-` of `MemorySize`. -/
def minus (a b : Nat) : Except Failure Nat := if a < b then .error .sizeUnderflow else .ok (a - b)

/-- A node of the priority queue with its entry. `id` stands for its address. -/
structure Handle (Key Value : Type) where
  id : Nat
  key : Key
  value : Value
  deriving DecidableEq, Repr

structure Cache (Key Value : Type) where
  maxNumEntries : Nat
  maxSize : Nat
  maxSizeSingleEntry : Nat
  totalSizeNonPinned : Nat := 0
  totalSizePinned : Nat := 0
  entries : List (Handle Key Value) := []
  pinnedMap : List (Key × Value) := []
  accessMap : List (Key × Handle Key Value) := []
  nextId : Nat := 0
  deriving DecidableEq, Repr

/-- The constructor. -/
def newCache {Key Value : Type} (maxNumEntries maxSize maxSizeSingleEntry : Nat) : Cache Key Value := {maxNumEntries,maxSize,maxSizeSingleEntry}

abbrev Outcome (Key Value α : Type) := Except (Failure × Cache Key Value) α

abbrev Smallest (Key Value : Type) := List (Handle Key Value) → Nat

inductive Request (Key Value : Type)
  | insert (smallest : Smallest Key Value) (key : Key) (value : Value)
  | insertPinned (smallest : Smallest Key Value) (key : Key) (value : Value)
  | get (key : Key)
  | containsAndMakePinnedIfExists (key : Key)
  | clearUnpinnedOnly
  | clearAll
  | makeRoomAsMuchAsPossible (smallest : Smallest Key Value) (sizeToMakeRoomFor : Nat)
  | setMaxSize (smallest : Smallest Key Value) (maxSize : Nat)
  | setMaxNumEntries (smallest : Smallest Key Value) (maxNumEntries : Nat)
  | setMaxSizeSingleEntry (maxSizeSingleEntry : Nat)

section Maps
variable {Key Value α : Type}

/-- `erase` of the priority queue. -/
def removeNode (handle : Handle Key Value) (entries : List (Handle Key Value)) : List (Handle Key Value) := entries.filter (fun other => other.id ≠ handle.id)

variable [DecidableEq Key]

def find (key : Key) (map : List (Key × α)) : Option α := (map.find? (fun item => item.1 = key)).map Prod.snd

def erase (key : Key) (map : List (Key × α)) : List (Key × α) := map.filter (fun item => item.1 ≠ key)

def assign (key : Key) (x : α) (map : List (Key × α)) : List (Key × α) := (key,x)::erase key map

end Maps

section Definitions
variable {Key Value : Type} [DecidableEq Key] (size : Value → Nat)

def Cache.containsPinned (key : Key) (cache : Cache Key Value) : Bool := (find key cache.pinnedMap).isSome

def Cache.containsNonPinned (key : Key) (cache : Cache Key Value) : Bool := (find key cache.accessMap).isSome && !cache.containsPinned key

def Cache.contains (key : Key) (cache : Cache Key Value) : Bool := cache.containsPinned key || cache.containsNonPinned key

def removeOneEntry (smallest : Smallest Key Value) (cache : Cache Key Value) : Outcome Key Value (Cache Key Value) :=
  match cache.entries[smallest cache.entries % cache.entries.length]? with
  | none => .error (.noEntries,cache)
  | some handle => do
    let cache := {cache with entries := removeNode handle cache.entries}
    let totalSizeNonPinned ← (minus cache.totalSizeNonPinned (size handle.value)).mapError (·,cache)
    return {cache with totalSizeNonPinned,accessMap := erase handle.key cache.accessMap}

def removeWhile (condition : Cache Key Value → Except Failure Bool) (smallest : Smallest Key Value) :
    Nat → Cache Key Value → Outcome Key Value (Cache Key Value)
  | 0,cache => .ok cache
  | iterations + 1,cache => do
    if ← (condition cache).mapError (·,cache) then
      let cache ← removeOneEntry size smallest cache
      removeWhile condition smallest iterations cache
    else return cache

def needToAddNewElement (sizeToMakeRoomFor : Nat) : Nat := if sizeToMakeRoomFor ≠ 0 then 1 else 0

/-- The condition of the loop of `makeRoomIfFits`. -/
def isFull (sizeToMakeRoomFor : Nat) (cache : Cache Key Value) : Except Failure Bool :=
  if cache.entries.isEmpty then .ok false
  else if cache.entries.length + cache.pinnedMap.length + needToAddNewElement sizeToMakeRoomFor > cache.maxNumEntries then .ok true
  else do
    let totalSize ← plus cache.totalSizeNonPinned cache.totalSizePinned
    let totalSize ← plus totalSize sizeToMakeRoomFor
    return decide (totalSize > cache.maxSize)

def makeRoomIfFits (smallest : Smallest Key Value) (sizeToMakeRoomFor : Nat) (cache : Cache Key Value) : Outcome Key Value (Bool × Cache Key Value) := do
  let available ← (minus cache.maxSize cache.totalSizePinned).mapError (·,cache)
  if available < sizeToMakeRoomFor then return (false,cache)
  else
    let cache ← removeWhile size (isFull sizeToMakeRoomFor) smallest cache.entries.length cache
    return (true,cache)

def insert (smallest : Smallest Key Value) (key : Key) (value : Value) (cache : Cache Key Value) : Outcome Key Value (Option Value × Cache Key Value) :=
  if cache.contains key then .error (.alreadyPresent,cache)
  else if size value > cache.maxSizeSingleEntry then .ok (none,cache)
  else do
    let (fits,cache) ← makeRoomIfFits size smallest (size value) cache
    if !fits then return (none,cache)
    else
      let totalSizeNonPinned ← (plus cache.totalSizeNonPinned (size value)).mapError (·,cache)
      let handle := ⟨cache.nextId,key,value⟩
      let entries := cache.entries ++ [handle]
      return (some value,{cache with totalSizeNonPinned,entries,accessMap := assign key handle cache.accessMap,nextId := cache.nextId + 1})

def insertPinned (smallest : Smallest Key Value) (key : Key) (value : Value) (cache : Cache Key Value) : Outcome Key Value (Value × Cache Key Value) :=
  if cache.contains key then .error (.alreadyPresent,cache)
  else if size value > cache.maxSizeSingleEntry then .error (.tooBigToPin,cache)
  else do
    let (_,cache) ← makeRoomIfFits size smallest (size value) cache
    let cache := {cache with pinnedMap := assign key value cache.pinnedMap}
    let totalSizePinned ← (plus cache.totalSizePinned (size value)).mapError (·,cache)
    return (value,{cache with totalSizePinned})

/-- `operator[]`. The node gets a new score, and the handle in the `_accessMap` becomes that of the new node. -/
def get (key : Key) (cache : Cache Key Value) : Option Value × Cache Key Value :=
  match find key cache.pinnedMap with
  | some value => (some value,cache)
  | none =>
    match find key cache.accessMap with
    | none => (none,cache)
    | some handle =>
      let updated := {handle with id := cache.nextId}
      let entries := removeNode handle cache.entries ++ [updated]
      (some updated.value,{cache with entries,accessMap := assign key updated cache.accessMap,nextId := cache.nextId + 1})

def containsAndMakePinnedIfExists (key : Key) (cache : Cache Key Value) : Outcome Key Value (Bool × Cache Key Value) :=
  if cache.containsPinned key then .ok (true,cache)
  else
    match find key cache.accessMap with
    | none => .ok (false,cache)
    | some handle => do
      let totalSizeNonPinned ← (minus cache.totalSizeNonPinned (size handle.value)).mapError (·,cache)
      let cache := {cache with totalSizeNonPinned}
      let totalSizePinned ← (plus cache.totalSizePinned (size handle.value)).mapError (·,cache)
      let entries := removeNode handle cache.entries
      let pinnedMap := assign key handle.value cache.pinnedMap
      return (true,{cache with totalSizePinned,pinnedMap,entries,accessMap := erase key cache.accessMap})

def clearUnpinnedOnly (cache : Cache Key Value) : Cache Key Value := {cache with entries := [],accessMap := [],totalSizeNonPinned := 0}

def clearAll (cache : Cache Key Value) : Cache Key Value :=
  {cache with entries := [],pinnedMap := [],accessMap := [],totalSizeNonPinned := 0,totalSizePinned := 0}

def makeRoomAsMuchAsPossible (smallest : Smallest Key Value) (sizeToMakeRoomFor : Nat) (cache : Cache Key Value) : Outcome Key Value (Bool × Cache Key Value) :=
  if sizeToMakeRoomFor > cache.totalSizeNonPinned then .ok (false,clearUnpinnedOnly cache)
  else do
    let targetSize ← (minus cache.totalSizeNonPinned sizeToMakeRoomFor).mapError (·,cache)
    let cache ← removeWhile size (fun cache => .ok (!cache.entries.isEmpty && cache.totalSizeNonPinned > targetSize)) smallest cache.entries.length cache
    return (true,cache)

def setMaxNumEntries (smallest : Smallest Key Value) (maxNumEntries : Nat) (cache : Cache Key Value) : Outcome Key Value (Bool × Cache Key Value) :=
  makeRoomIfFits size smallest 0 {cache with maxNumEntries}

def setMaxSize (smallest : Smallest Key Value) (maxSize : Nat) (cache : Cache Key Value) : Outcome Key Value (Bool × Cache Key Value) :=
  makeRoomIfFits size smallest 0 {cache with maxSize}

def cacheAfter {α : Type} (outcome : Outcome Key Value (α × Cache Key Value)) : Cache Key Value :=
  match outcome with
  | .ok (_,cache) => cache
  | .error (_,cache) => cache

def perform (cache : Cache Key Value) : Request Key Value → Cache Key Value
  | .insert smallest key value => cacheAfter (insert size smallest key value cache)
  | .insertPinned smallest key value => cacheAfter (insertPinned size smallest key value cache)
  | .get key => (get key cache).2
  | .containsAndMakePinnedIfExists key => cacheAfter (containsAndMakePinnedIfExists size key cache)
  | .clearUnpinnedOnly => clearUnpinnedOnly cache
  | .clearAll => clearAll cache
  | .makeRoomAsMuchAsPossible smallest sizeToMakeRoomFor => cacheAfter (makeRoomAsMuchAsPossible size smallest sizeToMakeRoomFor cache)
  | .setMaxSize smallest maxSize => cacheAfter (setMaxSize size smallest maxSize cache)
  | .setMaxNumEntries smallest maxNumEntries => cacheAfter (setMaxNumEntries size smallest maxNumEntries cache)
  | .setMaxSizeSingleEntry maxSizeSingleEntry => {cache with maxSizeSingleEntry}

end Definitions

section Consistency
variable {Key Value : Type} (size : Value → Nat)

/-- The priority queue and the `_accessMap` have the same entries, none of them is pinned, and the sums are those of the sizes. -/
structure Consistent (cache : Cache Key Value) : Prop where
  sameEntries : cache.accessMap.Perm (cache.entries.map (fun handle => (handle.key,handle)))
  distinctKeys : (cache.entries.map Handle.key ++ cache.pinnedMap.map Prod.fst).Nodup
  distinctNodes : (cache.entries.map Handle.id).Nodup
  oldNodes : ∀ handle ∈ cache.entries,handle.id < cache.nextId
  nonPinned : cache.totalSizeNonPinned = (cache.entries.map (fun handle => size handle.value)).sum
  pinned : cache.totalSizePinned = (cache.pinnedMap.map (fun item => size item.2)).sum
  inRange : cache.totalSizeNonPinned + cache.totalSizePinned < 2 ^ 64

def WithinLimits (cache : Cache Key Value) : Prop := cache.entries ≠ [] →
  cache.entries.length + cache.pinnedMap.length ≤ cache.maxNumEntries ∧ cache.totalSizeNonPinned + cache.totalSizePinned ≤ cache.maxSize

variable {size} {cache : Cache Key Value} {handle : Handle Key Value}

theorem perm_cons_removeNode {entries : List (Handle Key Value)} (distinct : (entries.map Handle.id).Nodup) (isEntry : handle ∈ entries) :
    entries.Perm (handle::removeNode handle entries) := by
  induction entries with
  | nil => cases isEntry
  | cons first rest ih =>
    obtain ⟨fresh,distinct⟩ := nodup_cons.mp distinct
    rcases mem_cons.mp isEntry with rfl | isLater
    · have others : removeNode handle (handle::rest) = rest := by
        rw [removeNode,filter_cons_of_neg (by simp),filter_eq_self.mpr]
        intro other isOther
        exact decide_eq_true (fun same => fresh (same ▸ mem_map_of_mem isOther))
      rw [others]
    · have kept : removeNode handle (first::rest) = first::removeNode handle rest :=
        filter_cons_of_pos (decide_eq_true (fun same => fresh (same ▸ mem_map_of_mem isLater)))
      rw [kept]
      exact ((ih distinct isLater).cons first).trans (List.Perm.swap _ _ _)

variable [DecidableEq Key] {key : Key} {value : Value}

section
variable {α : Type} {map : List (Key × α)}

theorem mem_of_find {x : α} (found : find key map = some x) : (key,x) ∈ map := by
  obtain ⟨item,isItem,rfl⟩ := Option.map_eq_some_iff.mp found
  have same : item.1 = key := by simpa using find?_some isItem
  rw [← same]
  exact mem_of_find?_eq_some isItem

theorem find_isNone : find key map = none ↔ key ∉ map.map Prod.fst := by
  simp only [find,Option.map_eq_none_iff,find?_eq_none,List.mem_map,decide_eq_true_eq,not_exists,not_and]

theorem erase_eq_self (absent : key ∉ map.map Prod.fst) : erase key map = map := by
  refine filter_eq_self.mpr (fun item isItem => decide_eq_true ?_)
  rintro rfl
  exact absent (mem_map_of_mem isItem)

end

omit [DecidableEq Key] in
theorem Consistent.sameKeys (consistent : Consistent size cache) : (cache.accessMap.map Prod.fst).Perm (cache.entries.map Handle.key) := by
  have same := consistent.sameEntries.map Prod.fst
  rwa [map_map] at same

theorem Consistent.mem_of_find (consistent : Consistent size cache) (found : find key cache.accessMap = some handle) :
    handle ∈ cache.entries ∧ handle.key = key := by
  obtain ⟨other,isEntry,same⟩ := List.mem_map.mp (consistent.sameEntries.mem_iff.mp (CacheAccounting.mem_of_find found))
  cases same
  exact ⟨isEntry,rfl⟩

def Absent (key : Key) (cache : Cache Key Value) : Prop := key ∉ cache.entries.map Handle.key ∧ key ∉ cache.pinnedMap.map Prod.fst

theorem Consistent.contains_iff (consistent : Consistent size cache) : cache.contains key = false ↔ Absent key cache := by
  rw [Absent,← consistent.sameKeys.mem_iff,← find_isNone,← find_isNone]
  simp only [Cache.contains,Cache.containsPinned,Cache.containsNonPinned]
  cases find key cache.accessMap <;> cases find key cache.pinnedMap <;> simp

def Cache.without (size : Value → Nat) (handle : Handle Key Value) (cache : Cache Key Value) : Cache Key Value :=
  {cache with
    totalSizeNonPinned := cache.totalSizeNonPinned - size handle.value
    entries := removeNode handle cache.entries
    accessMap := erase handle.key cache.accessMap}

section
omit [DecidableEq Key]

theorem Consistent.size_le (consistent : Consistent size cache) (isEntry : handle ∈ cache.entries) : size handle.value ≤ cache.totalSizeNonPinned := by
  rw [consistent.nonPinned,((perm_cons_removeNode consistent.distinctNodes isEntry).map _).sum_eq,map_cons,sum_cons]
  exact Nat.le_add_right _ _

theorem Consistent.length_removeNode (consistent : Consistent size cache) (isEntry : handle ∈ cache.entries) :
    (removeNode handle cache.entries).length + 1 = cache.entries.length :=
  (perm_cons_removeNode consistent.distinctNodes isEntry).length_eq.symm

end

theorem Consistent.without (consistent : Consistent size cache) (isEntry : handle ∈ cache.entries) :
    Consistent size (cache.without size handle) ∧ Absent handle.key (cache.without size handle) := by
  have perm := perm_cons_removeNode consistent.distinctNodes isEntry
  have sub : (removeNode handle cache.entries).Sublist cache.entries := filter_sublist
  have keys : (handle.key::((removeNode handle cache.entries).map Handle.key ++ cache.pinnedMap.map Prod.fst)).Nodup :=
    ((perm.map Handle.key).append_right _).nodup_iff.mp consistent.distinctKeys
  obtain ⟨fresh,distinct⟩ := nodup_cons.mp keys
  rw [mem_append,not_or] at fresh
  have total : cache.totalSizeNonPinned = size handle.value + ((removeNode handle cache.entries).map (fun handle => size handle.value)).sum := by
    rw [consistent.nonPinned,(perm.map _).sum_eq,map_cons,sum_cons]
  have range := consistent.inRange
  refine ⟨⟨?_,distinct,(sub.map _).nodup consistent.distinctNodes,fun other isOther => consistent.oldNodes other (sub.subset isOther),?_,
    consistent.pinned,?_⟩,fresh⟩
  · refine (consistent.sameEntries.trans (perm.map _)).filter _ |>.trans ?_
    rw [map_cons,filter_cons_of_neg (by simp)]
    refine List.Perm.of_eq (filter_eq_self.mpr (fun item isItem => ?_))
    obtain ⟨other,isOther,rfl⟩ := List.mem_map.mp isItem
    exact decide_eq_true (fun same => fresh.1 (same ▸ mem_map_of_mem isOther))
  · change cache.totalSizeNonPinned - _ = ((removeNode handle cache.entries).map (fun handle => size handle.value)).sum
    omega
  · change cache.totalSizeNonPinned - _ + cache.totalSizePinned < _
    omega

def Cache.with (size : Value → Nat) (key : Key) (value : Value) (cache : Cache Key Value) : Cache Key Value :=
  {cache with
    totalSizeNonPinned := cache.totalSizeNonPinned + size value
    entries := cache.entries ++ [⟨cache.nextId,key,value⟩]
    accessMap := assign key ⟨cache.nextId,key,value⟩ cache.accessMap
    nextId := cache.nextId + 1}

theorem Consistent.with (consistent : Consistent size cache) (absent : Absent key cache)
    (range : cache.totalSizeNonPinned + cache.totalSizePinned + size value < 2 ^ 64) : Consistent size (cache.with size key value) := by
  have unmapped : key ∉ cache.accessMap.map Prod.fst := fun isMapped => absent.1 (consistent.sameKeys.mem_iff.mp isMapped)
  have last : (cache.with size key value).entries.Perm (⟨cache.nextId,key,value⟩::cache.entries) := perm_append_singleton _ _
  refine ⟨?_,?_,?_,?_,?_,consistent.pinned,?_⟩
  · refine List.Perm.trans ?_ (last.map _).symm
    change (assign key ⟨cache.nextId,key,value⟩ cache.accessMap).Perm _
    rw [map_cons,assign,erase_eq_self unmapped]
    exact consistent.sameEntries.cons _
  · refine ((last.map Handle.key).append_right _).nodup_iff.mpr (nodup_cons.mpr ⟨?_,consistent.distinctKeys⟩)
    exact fun isKey => (mem_append.mp isKey).elim absent.1 absent.2
  · refine (last.map Handle.id).nodup_iff.mpr (nodup_cons.mpr ⟨fun isNode => ?_,consistent.distinctNodes⟩)
    obtain ⟨other,isOther,same⟩ := List.mem_map.mp isNode
    exact absurd same (Nat.ne_of_lt (consistent.oldNodes other isOther))
  · intro other isOther
    rcases mem_cons.mp (last.mem_iff.mp isOther) with rfl | isOld
    · exact Nat.lt_succ_self _
    · exact Nat.lt_succ_of_lt (consistent.oldNodes other isOld)
  · change cache.totalSizeNonPinned + size value = _
    rw [(last.map _).sum_eq,map_cons,sum_cons,← consistent.nonPinned,Nat.add_comm]
  · change cache.totalSizeNonPinned + size value + cache.totalSizePinned < _
    omega

def Cache.withPinned (size : Value → Nat) (key : Key) (value : Value) (cache : Cache Key Value) : Cache Key Value :=
  {cache with totalSizePinned := cache.totalSizePinned + size value,pinnedMap := assign key value cache.pinnedMap}

theorem length_withPinned (absent : Absent key cache) : (cache.withPinned size key value).pinnedMap.length = cache.pinnedMap.length + 1 := by
  simp [Cache.withPinned,assign,erase_eq_self absent.2]

theorem Consistent.withPinned (consistent : Consistent size cache) (absent : Absent key cache)
    (range : cache.totalSizeNonPinned + cache.totalSizePinned + size value < 2 ^ 64) : Consistent size (cache.withPinned size key value) := by
  have assigned : assign key value cache.pinnedMap = (key,value)::cache.pinnedMap := by rw [assign,erase_eq_self absent.2]
  refine ⟨consistent.sameEntries,?_,consistent.distinctNodes,consistent.oldNodes,consistent.nonPinned,?_,?_⟩
  · change (cache.entries.map Handle.key ++ (assign key value cache.pinnedMap).map Prod.fst).Nodup
    rw [assigned]
    refine perm_middle.nodup_iff.mpr (nodup_cons.mpr ⟨?_,consistent.distinctKeys⟩)
    exact fun isKey => (mem_append.mp isKey).elim absent.1 absent.2
  · change cache.totalSizePinned + size value = ((assign key value cache.pinnedMap).map _).sum
    rw [assigned,map_cons,sum_cons,← consistent.pinned,Nat.add_comm]
  · change cache.totalSizeNonPinned + (cache.totalSizePinned + size value) < _
    omega

end Consistency

section Operations
variable {Key Value : Type} {size : Value → Nat} {cache : Cache Key Value}

structure Shrunk (before after : Cache Key Value) : Prop where
  same : after = {before with entries := after.entries,accessMap := after.accessMap,totalSizeNonPinned := after.totalSizeNonPinned}
  sub : after.entries.Sublist before.entries
  smaller : after.totalSizeNonPinned ≤ before.totalSizeNonPinned

theorem Shrunk.refl (cache : Cache Key Value) : Shrunk cache cache := ⟨rfl,List.Sublist.refl _,Nat.le_refl _⟩

theorem Shrunk.trans {first second third : Cache Key Value} (before : Shrunk first second) (after : Shrunk second third) : Shrunk first third := by
  refine ⟨?_,after.sub.trans before.sub,Nat.le_trans after.smaller before.smaller⟩
  rw [after.same,before.same]

variable {after : Cache Key Value}

theorem Absent.shrunk (absent : Absent key cache) (shrunk : Shrunk cache after) : Absent key after := by
  refine ⟨fun isKey => absent.1 ((shrunk.sub.map _).subset isKey),?_⟩
  rw [shrunk.same]
  exact absent.2

theorem plus_eq {a b : Nat} (range : a + b < 2 ^ 64) : plus a b = .ok (a + b) := if_pos range

theorem minus_eq {a b : Nat} (le : b ≤ a) : minus a b = .ok (a - b) := if_neg (Nat.not_lt.mpr le)

theorem Shrunk.unchanged (shrunk : Shrunk cache after) : after.maxNumEntries = cache.maxNumEntries ∧
    after.maxSize = cache.maxSize ∧ after.totalSizePinned = cache.totalSizePinned ∧ after.pinnedMap = cache.pinnedMap := by
  rw [shrunk.same]
  exact ⟨rfl,rfl,rfl,rfl⟩

theorem WithinLimits.shrunk (within : WithinLimits cache) (shrunk : Shrunk cache after) : WithinLimits after := by
  obtain ⟨sameNumber,sameSize,samePinned,sameMap⟩ := shrunk.unchanged
  intro nonempty
  obtain ⟨few,small⟩ := within (fun empty => nonempty (eq_nil_of_subset_nil (empty ▸ shrunk.sub.subset)))
  have length := shrunk.sub.length_le
  have smaller := shrunk.smaller
  rw [sameNumber,sameSize,samePinned,sameMap]
  omega

variable [DecidableEq Key] {key : Key} {value : Value} {smallest : Smallest Key Value}

theorem shrunk_without (handle : Handle Key Value) : Shrunk cache (cache.without size handle) := ⟨rfl,filter_sublist,Nat.sub_le _ _⟩

theorem removeOneEntry_spec (consistent : Consistent size cache) (nonempty : cache.entries ≠ []) :
    ∃ handle ∈ cache.entries,removeOneEntry size smallest cache = .ok (cache.without size handle) := by
  have inside : smallest cache.entries % cache.entries.length < cache.entries.length := Nat.mod_lt _ (length_pos_iff.mpr nonempty)
  refine ⟨_,getElem_mem inside,?_⟩
  have enough := consistent.size_le (getElem_mem inside)
  rw [removeOneEntry,getElem?_eq_getElem inside]
  simp only [minus,if_neg (Nat.not_lt.mpr enough)]
  rfl

theorem removeWhile_spec {condition : Cache Key Value → Except Failure Bool} {isTrue : Cache Key Value → Bool} (iterations : Nat)
    (consistent : Consistent size cache) (enough : cache.entries.length ≤ iterations) (checks : ∀ after,Shrunk cache after → condition after = .ok (isTrue after))
    (stops : ∀ after,isTrue after = true → after.entries ≠ []) :
    ∃ after,removeWhile size condition smallest iterations cache = .ok after ∧ Consistent size after ∧ Shrunk cache after ∧ isTrue after = false := by
  induction iterations generalizing cache with
  | zero =>
    have empty := length_eq_zero_iff.mp (Nat.le_zero.mp enough)
    exact ⟨cache,rfl,consistent,Shrunk.refl cache,Bool.eq_false_iff.mpr (fun holds => stops cache holds empty)⟩
  | succ iterations ih =>
    rw [removeWhile,checks cache (Shrunk.refl cache)]
    cases holds : isTrue cache with
    | false => exact ⟨cache,rfl,consistent,Shrunk.refl cache,holds⟩
    | true =>
      obtain ⟨handle,isEntry,removed⟩ := @removeOneEntry_spec _ _ _ _ _ smallest consistent (stops cache holds)
      have shrunk := @shrunk_without _ _ size cache _ handle
      have length := consistent.length_removeNode isEntry
      obtain ⟨after,ran,consistent',shrunk',done⟩ := ih (consistent.without isEntry).1 (by change (removeNode handle _).length ≤ _; omega)
        (fun after later => checks after (shrunk.trans later))
      refine ⟨after,?_,consistent',shrunk.trans shrunk',done⟩
      change (removeOneEntry size smallest cache >>= _) = _
      rw [removed]
      exact ran

def HasRoom (sizeToMakeRoomFor : Nat) (cache : Cache Key Value) : Prop := cache.entries ≠ [] →
  cache.entries.length + cache.pinnedMap.length + needToAddNewElement sizeToMakeRoomFor ≤ cache.maxNumEntries ∧
    cache.totalSizeNonPinned + cache.totalSizePinned + sizeToMakeRoomFor ≤ cache.maxSize

instance (sizeToMakeRoomFor : Nat) (cache : Cache Key Value) [DecidableEq Value] : Decidable (HasRoom sizeToMakeRoomFor cache) :=
  inferInstanceAs (Decidable (_ → _))

inductive MakesRoom (size : Value → Nat) (sizeToMakeRoomFor : Nat) (cache : Cache Key Value) : Outcome Key Value (Bool × Cache Key Value) → Prop
  | underflow : cache.maxSize < cache.totalSizePinned → MakesRoom size sizeToMakeRoomFor cache (.error (.sizeUnderflow,cache))
  | doesNotFit : cache.totalSizePinned ≤ cache.maxSize → cache.maxSize - cache.totalSizePinned < sizeToMakeRoomFor →
      MakesRoom size sizeToMakeRoomFor cache (.ok (false,cache))
  | fits {after : Cache Key Value} : cache.totalSizePinned ≤ cache.maxSize → sizeToMakeRoomFor ≤ cache.maxSize - cache.totalSizePinned →
      Consistent size after → Shrunk cache after → HasRoom sizeToMakeRoomFor after → MakesRoom size sizeToMakeRoomFor cache (.ok (true,after))

omit [DecidableEq Key] in
theorem isFull_eq (sizeToMakeRoomFor : Nat) [Decidable (HasRoom sizeToMakeRoomFor cache)]
    (range : cache.totalSizeNonPinned + cache.totalSizePinned + sizeToMakeRoomFor < 2 ^ 64) :
    isFull sizeToMakeRoomFor cache = .ok (!decide (HasRoom sizeToMakeRoomFor cache)) := by
  rw [isFull]
  by_cases empty : cache.entries = []
  · simp [empty,HasRoom]
  · have both : HasRoom sizeToMakeRoomFor cache ↔ _ := ⟨fun room => room empty,fun room _ => room⟩
    rw [if_neg (by simpa using empty)]
    simp only [both]
    split
    next many => simp [Nat.not_le.mpr many]
    next few =>
      rw [plus_eq (Nat.lt_of_le_of_lt (Nat.le_add_right _ _) range)]
      simp only [bind,Except.bind,plus_eq range]
      simp only [Nat.not_lt.mp few,pure,Except.pure,true_and,gt_iff_lt,← decide_not,Nat.not_le]

theorem makeRoomIfFits_spec (consistent : Consistent size cache) (sizeToMakeRoomFor : Nat)
    (range : cache.totalSizeNonPinned + cache.totalSizePinned + sizeToMakeRoomFor < 2 ^ 64) :
    MakesRoom size sizeToMakeRoomFor cache (makeRoomIfFits size smallest sizeToMakeRoomFor cache) := by
  classical
  rw [makeRoomIfFits]
  rcases Nat.lt_or_ge cache.maxSize cache.totalSizePinned with less | le
  · rw [minus,if_pos less]
    exact .underflow less
  · rw [minus_eq le]
    change MakesRoom size sizeToMakeRoomFor cache (ite _ _ _)
    split
    next small => exact .doesNotFit le small
    next enough =>
      obtain ⟨after,ran,consistent',shrunk,done⟩ := @removeWhile_spec _ _ size _ _ smallest (isFull sizeToMakeRoomFor)
        (fun after => !decide (HasRoom sizeToMakeRoomFor after)) _ consistent (Nat.le_refl _)
        (fun after shrunk => isFull_eq sizeToMakeRoomFor (by
          have smaller := shrunk.smaller
          rw [shrunk.same]
          change after.totalSizeNonPinned + cache.totalSizePinned + _ < _
          omega))
        (fun after full empty => by simp [HasRoom,empty] at full)
      rw [ran]
      exact .fits le (Nat.not_lt.mp enough) consistent' shrunk (by simpa using done)

def InRange (size : Value → Nat) (cache : Cache Key Value) : Request Key Value → Prop
  | .insert _ _ value => cache.totalSizeNonPinned + cache.totalSizePinned + size value < 2 ^ 64
  | .insertPinned _ _ value => cache.totalSizeNonPinned + cache.totalSizePinned + size value < 2 ^ 64
  | _ => True

/-- The pinned entries leave room for a new entry, also if its size is zero, and a pinned one and a new limit leave room for the others. -/
def KeepsLimits (size : Value → Nat) (cache : Cache Key Value) : Request Key Value → Prop
  | .insert _ key value => cache.contains key = false → size value ≤ cache.maxSizeSingleEntry →
      cache.totalSizePinned ≤ cache.maxSize ∧ (size value ≤ cache.maxSize - cache.totalSizePinned →
        if size value = 0 then cache.entries.length + cache.pinnedMap.length + 1 ≤ cache.maxNumEntries
        else cache.pinnedMap.length + 1 ≤ cache.maxNumEntries)
  | .insertPinned _ key value => cache.contains key = false → size value ≤ cache.maxSizeSingleEntry → cache.totalSizePinned ≤ cache.maxSize →
      cache.entries = [] ∨ (size value ≤ cache.maxSize - cache.totalSizePinned ∧
        (size value = 0 → cache.entries.length + cache.pinnedMap.length + 1 ≤ cache.maxNumEntries))
  | .setMaxSize _ maxSize => cache.entries = [] ∨ cache.totalSizePinned ≤ maxSize
  | _ => True

inductive Inserted (size : Value → Nat) (key : Key) (value : Value) (cache : Cache Key Value) : Outcome Key Value (Option Value × Cache Key Value) → Prop
  | underflow : size value ≤ cache.maxSizeSingleEntry → cache.maxSize < cache.totalSizePinned → Inserted size key value cache (.error (.sizeUnderflow,cache))
  | ignored : Inserted size key value cache (.ok (none,cache))
  | stored {after : Cache Key Value} : size value ≤ cache.maxSizeSingleEntry → size value ≤ cache.maxSize - cache.totalSizePinned →
      cache.totalSizePinned ≤ cache.maxSize → Consistent size after → Shrunk cache after → HasRoom (size value) after →
      Inserted size key value cache (.ok (some value,after.with size key value))

theorem insert_cases (consistent : Consistent size cache) (absent : cache.contains key = false)
    (range : cache.totalSizeNonPinned + cache.totalSizePinned + size value < 2 ^ 64) :
    Inserted size key value cache (insert size smallest key value cache) := by
  rw [insert,if_neg (by simp [absent])]
  split
  next => exact .ignored
  next small =>
    have made := @makeRoomIfFits_spec _ _ size cache _ smallest consistent (size value) range
    generalize makeRoomIfFits size smallest (size value) cache = outcome at made
    cases made with
    | underflow less => exact .underflow (Nat.not_lt.mp small) less
    | doesNotFit => exact .ignored
    | @fits after le enough consistent' shrunk room =>
      obtain ⟨_,_,samePinned,_⟩ := shrunk.unchanged
      have smaller := shrunk.smaller
      have stored : plus after.totalSizeNonPinned (size value) = .ok (after.totalSizeNonPinned + size value) := plus_eq (by omega)
      simp only [bind,Except.bind,stored]
      exact .stored (Nat.not_lt.mp small) enough le consistent' shrunk room

def Keeps (size : Value → Nat) (cache after : Cache Key Value) (allowed : Prop) : Prop :=
  Consistent size after ∧ (WithinLimits cache → allowed → WithinLimits after)

section
variable (consistent : Consistent size cache)
include consistent

theorem insert_spec (range : InRange size cache (.insert smallest key value)) :
    Keeps size cache (perform size cache (.insert smallest key value)) (KeepsLimits size cache (.insert smallest key value)) := by
  rw [perform]
  cases absent : cache.contains key with
  | true =>
    rw [insert,if_pos absent]
    exact ⟨consistent,fun within _ => within⟩
  | false =>
    have cases := @insert_cases _ _ size cache _ key value smallest consistent absent range
    generalize insert size smallest key value cache = outcome at cases
    cases cases with
    | underflow | ignored => exact ⟨consistent,fun within _ => within⟩
    | @stored after small enough le consistent' shrunk room =>
      obtain ⟨sameNumber,sameSize,samePinned,sameMap⟩ := shrunk.unchanged
      have smaller := shrunk.smaller
      refine ⟨consistent'.with ((consistent.contains_iff.mp absent).shrunk shrunk) ?_,?_⟩
      · rw [InRange] at range
        omega
      · intro within keeps _
        have few := (keeps absent small).2 enough
        have length := shrunk.sub.length_le
        change (after.entries ++ [_]).length + after.pinnedMap.length ≤ after.maxNumEntries ∧
          after.totalSizeNonPinned + size value + after.totalSizePinned ≤ after.maxSize
        rw [length_append,length_singleton,sameNumber,sameSize,samePinned,sameMap]
        by_cases empty : after.entries = []
        · have none : after.totalSizeNonPinned = 0 := by rw [consistent'.nonPinned,empty]; rfl
          rw [empty,none,length_nil]
          split at few <;> omega
        · obtain ⟨number,total⟩ := room empty
          rw [sameNumber,sameMap,needToAddNewElement] at number
          rw [sameSize,samePinned] at total
          split at few
          next zero => omega
          next positive =>
            rw [if_pos positive] at number
            omega

theorem insertPinned_spec (range : InRange size cache (.insertPinned smallest key value)) :
    Keeps size cache (perform size cache (.insertPinned smallest key value)) (KeepsLimits size cache (.insertPinned smallest key value)) := by
  rw [perform,insertPinned]
  split
  next => exact ⟨consistent,fun within _ => within⟩
  next isAbsent =>
    have absent := consistent.contains_iff.mp (Bool.not_eq_true _ ▸ isAbsent)
    split
    next => exact ⟨consistent,fun within _ => within⟩
    next small =>
      have made := @makeRoomIfFits_spec _ _ size cache _ smallest consistent (size value) range
      generalize makeRoomIfFits size smallest (size value) cache = outcome at made
      rw [InRange] at range
      cases made with
      | underflow => exact ⟨consistent,fun within _ => within⟩
      | doesNotFit le large =>
        have stored : plus cache.totalSizePinned (size value) = .ok (cache.totalSizePinned + size value) := plus_eq (by omega)
        simp only [bind,Except.bind,stored]
        refine ⟨consistent.withPinned absent range,fun _ keeps nonempty => ?_⟩
        rcases keeps (Bool.not_eq_true _ ▸ isAbsent) (Nat.not_lt.mp small) le with empty | ⟨fits,_⟩
        · exact absurd empty nonempty
        · exact absurd fits (Nat.not_le.mpr large)
      | @fits after le enough consistent' shrunk room =>
        obtain ⟨sameNumber,sameSize,samePinned,sameMap⟩ := shrunk.unchanged
        have smaller := shrunk.smaller
        have length := shrunk.sub.length_le
        have stored : plus after.totalSizePinned (size value) = .ok (after.totalSizePinned + size value) := plus_eq (by omega)
        simp only [bind,Except.bind,stored]
        refine ⟨consistent'.withPinned (absent.shrunk shrunk) (by omega),fun _ keeps nonempty => ?_⟩
        have keeps := keeps (Bool.not_eq_true _ ▸ isAbsent) (Nat.not_lt.mp small) le
        obtain ⟨number,total⟩ := room nonempty
        change after.entries.length + (after.withPinned size key value).pinnedMap.length ≤ after.maxNumEntries ∧
          after.totalSizeNonPinned + (after.totalSizePinned + size value) ≤ after.maxSize
        rw [length_withPinned (absent.shrunk shrunk),← Nat.add_assoc,← Nat.add_assoc]
        refine ⟨?_,total⟩
        rw [needToAddNewElement] at number
        split at number
        next => exact number
        next zero =>
          rcases keeps with empty | ⟨_,few⟩
          · exact absurd (eq_nil_of_subset_nil (empty ▸ shrunk.sub.subset)) nonempty
          · have few := few (not_not.mp zero)
            rw [sameMap,sameNumber]
            omega

theorem get_spec : Keeps size cache (get key cache).2 True := by
  rw [get]
  split
  next => exact ⟨consistent,fun within _ => within⟩
  next unpinned =>
    split
    next => exact ⟨consistent,fun within _ => within⟩
    next handle found =>
      obtain ⟨isEntry,rfl⟩ := consistent.mem_of_find found
      obtain ⟨without,absent⟩ := consistent.without isEntry
      have enough := consistent.size_le isEntry
      have length := consistent.length_removeNode isEntry
      have replaced : {cache with
          entries := removeNode handle cache.entries ++ [{handle with id := cache.nextId}]
          accessMap := assign handle.key {handle with id := cache.nextId} cache.accessMap
          nextId := cache.nextId + 1} = (cache.without size handle).with size handle.key handle.value := by
        simp [Cache.with,Cache.without,assign,erase,filter_filter,Nat.sub_add_cancel enough]
      change Keeps size cache {cache with entries := _,accessMap := _,nextId := _} True
      rw [replaced]
      refine ⟨without.with absent ?_,fun within _ _ => ?_⟩
      · have range := consistent.inRange
        change cache.totalSizeNonPinned - size handle.value + cache.totalSizePinned + size handle.value < _
        omega
      · have limits := within (ne_nil_of_mem isEntry)
        change (removeNode handle cache.entries ++ [_]).length + cache.pinnedMap.length ≤ cache.maxNumEntries ∧
          cache.totalSizeNonPinned - size handle.value + size handle.value + cache.totalSizePinned ≤ cache.maxSize
        rw [length_append,length_singleton,length,Nat.sub_add_cancel enough]
        exact limits

theorem containsAndMakePinnedIfExists_spec :
    Keeps size cache (perform size cache (.containsAndMakePinnedIfExists key)) True := by
  rw [perform,containsAndMakePinnedIfExists]
  split
  next => exact ⟨consistent,fun within _ => within⟩
  next =>
    split
    next => exact ⟨consistent,fun within _ => within⟩
    next handle found =>
      obtain ⟨isEntry,rfl⟩ := consistent.mem_of_find found
      obtain ⟨without,absent⟩ := consistent.without isEntry
      have enough := consistent.size_le isEntry
      have range := consistent.inRange
      have length := consistent.length_removeNode isEntry
      have stored : plus cache.totalSizePinned (size handle.value) = .ok (cache.totalSizePinned + size handle.value) := plus_eq (by omega)
      simp only [minus_eq enough,Except.mapError,bind,Except.bind,stored]
      change Keeps size cache ((cache.without size handle).withPinned size handle.key handle.value) True
      refine ⟨without.withPinned absent ?_,fun within _ _ => ?_⟩
      · change cache.totalSizeNonPinned - size handle.value + cache.totalSizePinned + size handle.value < _
        omega
      · have limits := within (ne_nil_of_mem isEntry)
        have pinned := @length_withPinned _ _ size (cache.without size handle) _ handle.key handle.value absent
        change (removeNode handle cache.entries).length + ((cache.without size handle).withPinned size handle.key handle.value).pinnedMap.length ≤
          cache.maxNumEntries ∧ cache.totalSizeNonPinned - size handle.value + (cache.totalSizePinned + size handle.value) ≤ cache.maxSize
        rw [pinned]
        change (removeNode handle cache.entries).length + (cache.pinnedMap.length + 1) ≤ _ ∧ _
        omega

end

omit [DecidableEq Key] in
theorem clearUnpinnedOnly_spec (consistent : Consistent size cache) : Keeps size cache (clearUnpinnedOnly cache) True := by
  refine ⟨⟨List.Perm.refl _,(nodup_append.mp consistent.distinctKeys).2.1,nodup_nil,by simp [clearUnpinnedOnly],rfl,consistent.pinned,?_⟩,
    fun _ _ nonempty => absurd rfl nonempty⟩
  have range := consistent.inRange
  change 0 + cache.totalSizePinned < _
  omega

theorem makeRoomAsMuchAsPossible_spec (consistent : Consistent size cache) (sizeToMakeRoomFor : Nat) :
    Keeps size cache (perform size cache (.makeRoomAsMuchAsPossible smallest sizeToMakeRoomFor)) True := by
  rw [perform,makeRoomAsMuchAsPossible]
  split
  next => exact clearUnpinnedOnly_spec consistent
  next enough =>
    rw [minus_eq (Nat.not_lt.mp enough)]
    obtain ⟨after,ran,consistent',shrunk,_⟩ := @removeWhile_spec _ _ size _ _ smallest
      (fun cache' => .ok (!cache'.entries.isEmpty && cache'.totalSizeNonPinned > cache.totalSizeNonPinned - sizeToMakeRoomFor))
      (fun cache' => !cache'.entries.isEmpty && cache'.totalSizeNonPinned > cache.totalSizeNonPinned - sizeToMakeRoomFor)
      _ consistent (Nat.le_refl _) (fun _ _ => rfl) (fun after more empty => by simp [empty] at more)
    simp only [Except.mapError,bind,Except.bind,ran]
    exact ⟨consistent',fun within _ => within.shrunk shrunk⟩

/-- A cache with new limits keeps them after `makeRoomIfFits` if the pinned entries do not exceed the size. -/
theorem makeRoomIfFits_keeps {before : Cache Key Value} (consistent : Consistent size cache) (allowed : Prop)
    (underflow : WithinLimits before → allowed → cache.maxSize < cache.totalSizePinned → cache.entries = []) :
    Keeps size before (cacheAfter (makeRoomIfFits size smallest 0 cache)) allowed := by
  have made := @makeRoomIfFits_spec _ _ size cache _ smallest consistent 0 consistent.inRange
  generalize makeRoomIfFits size smallest 0 cache = outcome at made
  cases made with
  | underflow less => exact ⟨consistent,fun within isAllowed nonempty => absurd (underflow within isAllowed less) nonempty⟩
  | doesNotFit _ less => exact absurd less (Nat.not_lt_zero _)
  | fits _ _ consistent' _ room => exact ⟨consistent',fun _ _ nonempty => room nonempty⟩

theorem perform_spec (consistent : Consistent size cache) (request : Request Key Value) (range : InRange size cache request) :
    Keeps size cache (perform size cache request) (KeepsLimits size cache request) := by
  cases request with
  | insert => exact insert_spec consistent range
  | insertPinned => exact insertPinned_spec consistent range
  | get => exact get_spec consistent
  | containsAndMakePinnedIfExists => exact containsAndMakePinnedIfExists_spec consistent
  | clearUnpinnedOnly => exact clearUnpinnedOnly_spec consistent
  | clearAll =>
    exact ⟨⟨List.Perm.refl _,nodup_nil,nodup_nil,by simp [perform,clearAll],rfl,rfl,by simp [perform,clearAll]⟩,
      fun _ _ nonempty => absurd rfl nonempty⟩
  | makeRoomAsMuchAsPossible => exact makeRoomAsMuchAsPossible_spec consistent _
  | setMaxSize smallest maxSize =>
    have changed : Consistent size {cache with maxSize} := {consistent with}
    exact makeRoomIfFits_keeps changed _ (fun _ keeps less => keeps.resolve_right (Nat.not_le.mpr less))
  | setMaxNumEntries smallest maxNumEntries =>
    have changed : Consistent size {cache with maxNumEntries} := {consistent with}
    refine makeRoomIfFits_keeps changed _ (fun within _ less => by_contra (fun nonempty => ?_))
    have total := (within nonempty).2
    change cache.maxSize < cache.totalSizePinned at less
    omega
  | setMaxSizeSingleEntry maxSizeSingleEntry => exact ⟨{consistent with},fun within _ => within⟩

end Operations

section Runs
variable {Key Value : Type} [DecidableEq Key] {size : Value → Nat}

def Along (size : Value → Nat) (condition : Cache Key Value → Request Key Value → Prop) : List (Request Key Value) → Cache Key Value → Prop
  | [],_ => True
  | request::requests,cache => condition cache request ∧ Along size condition requests (perform size cache request)

variable {cache : Cache Key Value}

theorem performAll_spec {requests : List (Request Key Value)} (consistent : Consistent size cache)
    (inRange : Along size (InRange size) requests cache) :
    Keeps size cache (requests.foldl (perform size) cache) (Along size (KeepsLimits size) requests cache) := by
  induction requests generalizing cache with
  | nil => exact ⟨consistent,fun within _ => within⟩
  | cons request requests ih =>
    obtain ⟨first,rest⟩ := inRange
    obtain ⟨consistent',kept⟩ := perform_spec consistent request first
    obtain ⟨last,keptAll⟩ := ih consistent' rest
    exact ⟨last,fun within keeps => keptAll (kept within keeps.1) keeps.2⟩

def StoresOrLeaves (size : Value → Nat) (smallest : Smallest Key Value) (key : Key) (value : Value) (cache : Cache Key Value) : Prop :=
  ∃ answer after,insert size smallest key value cache = .ok (answer,after) ∧
    ((find key after.accessMap).map Handle.value = some value ∨ after.contains key = false)

theorem insert_storesOrLeaves (consistent : Consistent size cache) (smallest : Smallest Key Value) (key : Key) (value : Value)
    (absent : cache.contains key = false) (inRange : InRange size cache (.insert smallest key value))
    (keeps : KeepsLimits size cache (.insert smallest key value)) : StoresOrLeaves size smallest key value cache := by
  have cases := @insert_cases _ _ size cache _ key value smallest consistent absent inRange
  rw [StoresOrLeaves]
  generalize insert size smallest key value cache = outcome at cases
  cases cases with
  | underflow small less => exact absurd (keeps absent small).1 (Nat.not_le.mpr less)
  | ignored => exact ⟨_,_,rfl,.inr absent⟩
  | stored => exact ⟨_,_,rfl,.inl (by simp [Cache.with,assign,find])⟩

/-- In every run, the four structures and the two sums agree. If each operation leaves room, the limits are kept, and the insertion of an absent key
does not fail. -/
theorem accounting_correct (maxNumEntries maxSize maxSizeSingleEntry : Nat) (requests : List (Request Key Value))
    (inRange : Along size (InRange size) requests (newCache maxNumEntries maxSize maxSizeSingleEntry)) :
    let final := requests.foldl (perform size) (newCache maxNumEntries maxSize maxSizeSingleEntry)
    Consistent size final ∧ (Along size (KeepsLimits size) requests (newCache maxNumEntries maxSize maxSizeSingleEntry) →
      WithinLimits final ∧ ∀ smallest key value,final.contains key = false → InRange size final (.insert smallest key value) →
        KeepsLimits size final (.insert smallest key value) → StoresOrLeaves size smallest key value final) := by
  have start : Consistent size (newCache maxNumEntries maxSize maxSizeSingleEntry : Cache Key Value) :=
    ⟨List.Perm.refl _,nodup_nil,nodup_nil,by simp [newCache],rfl,rfl,by simp [newCache]⟩
  obtain ⟨consistent,kept⟩ := performAll_spec start inRange
  exact ⟨consistent,fun keeps => ⟨kept (fun nonempty => absurd rfl nonempty) keeps,insert_storesOrLeaves consistent⟩⟩

/-- Two entries, of which one is then pinned, and a smaller limit. -/
theorem accounting_correct_threeEntries :
    WithinLimits ([Request.insert (fun _ => 0) 0 4,.insert (fun _ => 0) 1 5,.containsAndMakePinnedIfExists 0,.setMaxSize (fun _ => 0) 8].foldl (perform id) (newCache 2 10 10)) := by
  refine ((accounting_correct 2 10 10 _ ?_).2 ?_).1
  · refine ⟨?_,?_,trivial,trivial,trivial⟩
    all_goals
      rw [InRange]
      decide
  · refine ⟨fun _ _ => ⟨by decide,fun _ => by decide⟩,fun _ _ => ⟨by decide,fun _ => by decide⟩,trivial,.inr (by decide),trivial⟩

/-- Two values of size zero exceed the limit of one entry, and after two pinned entries that exceed the size together each insertion fails. -/
theorem accounting_fails :
    ¬WithinLimits ([Request.insert (fun _ => 0) 0 0,.insert (fun _ => 0) 1 0].foldl (perform id) (newCache 1 10 10)) ∧
      ¬StoresOrLeaves id (fun _ => 0) 2 1 ([Request.insertPinned (fun _ => 0) 0 6,.insertPinned (fun _ => 0) 1 6].foldl (perform id) (newCache 5 10 10)) := by
  constructor
  · intro within
    exact absurd (within (by decide)).1 (by decide)
  · intro stores
    obtain ⟨_,_,inserted,_⟩ := stores
    cases inserted

end Runs

end Qlever.CacheAccounting
