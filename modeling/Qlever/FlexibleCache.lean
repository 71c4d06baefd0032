import Qlever.Library.Run

/-! The `FlexibleCache` of `Cache.h`. The order in which `_entries` gives up its entries depends on the scores, which
the clock decides, so each operation gets the choice as an argument. Sizes are in bytes, and the values that are counted
are in memory, so that only the subtraction of two sizes can fail.
-/
namespace Qlever
open Library List

inductive CacheFailure
  | alreadyPresent
  | tooBigToPin
  | sizeUnderflow
  | noEntries
  | notInProgress
  deriving DecidableEq, Repr

/-- The limits of a cache, and its `ValueSizeGetter`. -/
structure CacheConfig (Value : Type) where
  maxNumEntries : Nat
  maxSize : Nat
  maxSizeSingleEntry : Nat
  size : Value → Nat

/-- `entries` stands for `_entries` together with the `_accessMap`. -/
structure FlexibleCache (Key Value : Type) where
  entries : List (Key × Value) := []
  pinnedMap : List (Key × Value) := []
  totalSizeNonPinned : Nat := 0
  totalSizePinned : Nat := 0
  deriving DecidableEq, Repr

namespace FlexibleCache
variable {Key Value : Type} (config : CacheConfig Value)

abbrev Evict (Key Value : Type) := List (Key × Value) → Nat

/-- `operator-` of `MemorySize`. -/
def subtract (a b : Nat) : Except CacheFailure Nat := if a < b then .error .sizeUnderflow else .ok (a - b)

def removeOneEntry (evict : Evict Key Value) (cache : FlexibleCache Key Value) : Except CacheFailure (FlexibleCache Key Value) :=
  let position := evict cache.entries % cache.entries.length
  match cache.entries[position]? with
  | none => .error .noEntries
  | some entry => do
    let totalSizeNonPinned ← subtract cache.totalSizeNonPinned (config.size entry.2)
    return {cache with entries := cache.entries.eraseIdx position,totalSizeNonPinned}

/-- The condition of the loop of `makeRoomIfFits`. -/
def isFull (sizeToMakeRoomFor : Nat) (cache : FlexibleCache Key Value) : Bool :=
  let needToAddNewElement := if sizeToMakeRoomFor ≠ 0 then 1 else 0
  !cache.entries.isEmpty && (decide (cache.entries.length + cache.pinnedMap.length + needToAddNewElement > config.maxNumEntries) ||
    decide (cache.totalSizeNonPinned + cache.totalSizePinned + sizeToMakeRoomFor > config.maxSize))

/-- The loop of `makeRoomIfFits`, which removes an entry in each iteration. -/
def removeWhileFull (evict : Evict Key Value) (sizeToMakeRoomFor : Nat) :
    Nat → FlexibleCache Key Value → Except CacheFailure (FlexibleCache Key Value)
  | 0,cache => .ok cache
  | iterations + 1,cache =>
    if isFull config sizeToMakeRoomFor cache then do
      let cache ← removeOneEntry config evict cache
      removeWhileFull evict sizeToMakeRoomFor iterations cache
    else .ok cache

def makeRoomIfFits (evict : Evict Key Value) (sizeToMakeRoomFor : Nat) (cache : FlexibleCache Key Value) :
    Except CacheFailure (Bool × FlexibleCache Key Value) := do
  let available ← subtract config.maxSize cache.totalSizePinned
  if available < sizeToMakeRoomFor then return (false,cache)
  else
    let cache ← removeWhileFull config evict sizeToMakeRoomFor cache.entries.length cache
    return (true,cache)

def clearUnpinnedOnly (cache : FlexibleCache Key Value) : FlexibleCache Key Value := {cache with entries := [],totalSizeNonPinned := 0}

def clearAll (_ : FlexibleCache Key Value) : FlexibleCache Key Value := {}

variable [DecidableEq Key]

def find (key : Key) (entries : List (Key × Value)) : Option Value := (entries.find? (fun entry => entry.1 = key)).map Prod.snd

def containsPinned (key : Key) (cache : FlexibleCache Key Value) : Bool := (find key cache.pinnedMap).isSome

def containsNonPinned (key : Key) (cache : FlexibleCache Key Value) : Bool := (find key cache.entries).isSome && !cache.containsPinned key

def contains (key : Key) (cache : FlexibleCache Key Value) : Bool := cache.containsPinned key || cache.containsNonPinned key

/-- `operator[]`. The new score of the entry has no influence on the contents. -/
def get (key : Key) (cache : FlexibleCache Key Value) : Option Value :=
  match find key cache.pinnedMap with
  | some value => some value
  | none => find key cache.entries

def insert (evict : Evict Key Value) (key : Key) (value : Value) (cache : FlexibleCache Key Value) :
    Except CacheFailure (FlexibleCache Key Value) :=
  if cache.contains key then .error .alreadyPresent
  else if config.size value > config.maxSizeSingleEntry then .ok cache
  else do
    let (fits,cache) ← makeRoomIfFits config evict (config.size value) cache
    if !fits then return cache
    else return {cache with entries := cache.entries ++ [(key,value)],totalSizeNonPinned := cache.totalSizeNonPinned + config.size value}

def insertPinned (evict : Evict Key Value) (key : Key) (value : Value) (cache : FlexibleCache Key Value) :
    Except CacheFailure (FlexibleCache Key Value) :=
  if cache.contains key then .error .alreadyPresent
  else if config.size value > config.maxSizeSingleEntry then .error .tooBigToPin
  else do
    let (_,cache) ← makeRoomIfFits config evict (config.size value) cache
    return {cache with pinnedMap := (key,value)::cache.pinnedMap,totalSizePinned := cache.totalSizePinned + config.size value}

def containsAndMakePinnedIfExists (key : Key) (cache : FlexibleCache Key Value) : Except CacheFailure (Bool × FlexibleCache Key Value) :=
  if cache.containsPinned key then .ok (true,cache)
  else match find key cache.entries with
    | none => .ok (false,cache)
    | some value => do
      let totalSizeNonPinned ← subtract cache.totalSizeNonPinned (config.size value)
      let moved := {cache with entries := cache.entries.eraseP (fun entry => entry.1 = key),pinnedMap := (key,value)::cache.pinnedMap}
      return (true,{moved with totalSizeNonPinned,totalSizePinned := cache.totalSizePinned + config.size value})

section Lookup
variable {cache : FlexibleCache Key Value} {key : Key} {value : Value}

def Holds (cache : FlexibleCache Key Value) (entry : Key × Value) : Prop := entry ∈ cache.entries ∨ entry ∈ cache.pinnedMap

variable {entries : List (Key × Value)}

theorem mem_of_find (found : find key entries = some value) : (key,value) ∈ entries := by
  obtain ⟨entry,isEntry,rfl⟩ := Option.map_eq_some_iff.mp found
  have same : entry.1 = key := by simpa using find?_some isEntry
  rw [← same]
  exact mem_of_find?_eq_some isEntry

theorem find_isSome : (find key entries).isSome = true ↔ ∃ value,(key,value) ∈ entries := by
  constructor
  · intro found
    obtain ⟨value,isValue⟩ := Option.isSome_iff_exists.mp found
    exact ⟨value,mem_of_find isValue⟩
  · intro present
    obtain ⟨value,member⟩ := present
    rw [find,Option.isSome_map,find?_isSome]
    exact ⟨(key,value),member,by simp⟩

theorem containsPinned_iff : cache.containsPinned key = true ↔ ∃ value,(key,value) ∈ cache.pinnedMap := find_isSome

theorem containsPinned_mono {cache' : FlexibleCache Key Value} (kept : cache.pinnedMap ⊆ cache'.pinnedMap)
    (pinned : cache.containsPinned key = true) : cache'.containsPinned key = true := by
  rw [containsPinned_iff] at pinned ⊢
  obtain ⟨value,member⟩ := pinned
  exact ⟨value,kept member⟩

theorem get_of_contains (present : cache.contains key = true) : ∃ value,cache.get key = some value ∧ cache.Holds (key,value) := by
  unfold get
  cases pinned : find key cache.pinnedMap with
  | some value => exact ⟨value,rfl,Or.inr (mem_of_find pinned)⟩
  | none =>
    simp only [contains,containsNonPinned,containsPinned,pinned,Option.isSome_none,Bool.false_or,Bool.not_false,Bool.and_true] at present
    obtain ⟨value,isValue⟩ := Option.isSome_iff_exists.mp present
    exact ⟨value,isValue,Or.inl (mem_of_find isValue)⟩

end Lookup

section Room
variable {config}

theorem subtract_eq {a b : Nat} (le : b ≤ a) : subtract a b = .ok (a - b) := by
  rw [subtract,if_neg (Nat.not_lt.mpr le)]

/-- `_totalSizeNonPinned` is the size of the entries that are not pinned. -/
def Counted (config : CacheConfig Value) (cache : FlexibleCache Key Value) : Prop :=
  cache.totalSizeNonPinned = (cache.entries.map (fun entry => config.size entry.2)).sum

structure Shrunk (config : CacheConfig Value) (cache cache' : FlexibleCache Key Value) : Prop where
  entries : cache'.entries.Sublist cache.entries
  pinnedMap : cache'.pinnedMap = cache.pinnedMap
  totalSizePinned : cache'.totalSizePinned = cache.totalSizePinned
  counted : Counted config cache'

section
omit [DecidableEq Key]

variable {cache : FlexibleCache Key Value}

variable (evict : Evict Key Value)

theorem removeOneEntry_spec (counted : Counted config cache)
    (some : cache.entries ≠ []) :
    ∃ cache',removeOneEntry config evict cache = .ok cache' ∧ Shrunk config cache cache' := by
  have inside : evict cache.entries % cache.entries.length < cache.entries.length := Nat.mod_lt _ (length_pos_iff.mpr some)
  have perm := getElem_cons_eraseIdx_perm inside
  have sum := (perm.map (fun entry => config.size entry.2)).sum_eq
  rw [map_cons,sum_cons,← counted] at sum
  have enough : config.size (cache.entries.get ⟨_,inside⟩).2 ≤ cache.totalSizeNonPinned := by
    change config.size cache.entries[evict cache.entries % cache.entries.length].2 ≤ _
    omega
  refine ⟨{cache with entries := cache.entries.eraseIdx (evict cache.entries % cache.entries.length),
                      totalSizeNonPinned := cache.totalSizeNonPinned - config.size (cache.entries.get ⟨_,inside⟩).2},?_,
    eraseIdx_sublist _ _,rfl,rfl,?_⟩
  · simp only [removeOneEntry,getElem?_eq_getElem inside]
    have subtracted := subtract_eq enough
    simp only [get_eq_getElem] at subtracted ⊢
    rw [subtracted]
    rfl
  · simp only [Counted,get_eq_getElem]
    omega

theorem Shrunk.refl (counted : Counted config cache) : Shrunk config cache cache :=
  ⟨List.Sublist.refl _,rfl,rfl,counted⟩

theorem Shrunk.trans {cache' cache'' : FlexibleCache Key Value} (first : Shrunk config cache cache') (second : Shrunk config cache' cache'') :
    Shrunk config cache cache'' where
  entries := second.entries.trans first.entries
  pinnedMap := second.pinnedMap.trans first.pinnedMap
  totalSizePinned := second.totalSizePinned.trans first.totalSizePinned
  counted := second.counted

theorem removeWhileFull_spec (size iterations : Nat) (counted : Counted config cache) :
    ∃ cache',removeWhileFull config evict size iterations cache = .ok cache' ∧ Shrunk config cache cache' := by
  induction iterations generalizing cache with
  | zero => exact ⟨cache,rfl,Shrunk.refl counted⟩
  | succ iterations ih =>
    rw [removeWhileFull]
    split
    next full =>
      have some : cache.entries ≠ [] := by
        rw [isFull,Bool.and_eq_true] at full
        simpa using full.1
      obtain ⟨cache',removed,shrunk⟩ := removeOneEntry_spec evict counted some
      obtain ⟨last,rest,shrunk'⟩ := ih shrunk.counted
      exact ⟨last,by simp [bind,Except.bind,removed,rest],shrunk.trans shrunk'⟩
    next => exact ⟨cache,rfl,Shrunk.refl counted⟩

theorem makeRoomIfFits_spec (size : Nat) (counted : Counted config cache) :
    if cache.totalSizePinned ≤ config.maxSize then
      ∃ fits cache',makeRoomIfFits config evict size cache = .ok (fits,cache') ∧ Shrunk config cache cache'
    else makeRoomIfFits config evict size cache = .error .sizeUnderflow := by
  split
  next small =>
    obtain ⟨cache',removed,shrunk⟩ := removeWhileFull_spec evict size cache.entries.length counted
    rw [makeRoomIfFits,subtract_eq small]
    by_cases fits : config.maxSize - cache.totalSizePinned < size
    · exact ⟨false,cache,by simp [bind,Except.bind,fits,pure,Except.pure],Shrunk.refl counted⟩
    · exact ⟨true,cache',by simp [bind,Except.bind,fits,removed,pure,Except.pure],shrunk⟩
  next large => simp [makeRoomIfFits,subtract,Nat.not_le.mp large,bind,Except.bind]

end

end Room

section Insert
variable {config} {cache cache' : FlexibleCache Key Value} {key : Key} {value : Value}

def CanInsert (config : CacheConfig Value) (cache : FlexibleCache Key Value) (key : Key) : Prop :=
  cache.contains key = false ∧ cache.totalSizePinned ≤ config.maxSize

instance (config : CacheConfig Value) (cache : FlexibleCache Key Value) (key : Key) : Decidable (CanInsert config cache key) :=
  inferInstanceAs (Decidable (_ ∧ _))

structure Inserted (config : CacheConfig Value) (entry : Key × Value) (cache cache' : FlexibleCache Key Value) : Prop where
  counted : Counted config cache'
  holds : ∀ other,cache'.Holds other → cache.Holds other ∨ other = entry
  pinned : cache.pinnedMap ⊆ cache'.pinnedMap

section
omit [DecidableEq Key]

theorem Shrunk.inserted (shrunk : Shrunk config cache cache') (entry : Key × Value) : Inserted config entry cache cache' where
  counted := shrunk.counted
  holds other holds := Or.inl (holds.imp (fun old => shrunk.entries.subset old) (fun pinned => shrunk.pinnedMap ▸ pinned))
  pinned := by rw [shrunk.pinnedMap]; exact List.Subset.refl _

theorem Inserted.refl (counted : Counted config cache) (entry : Key × Value) : Inserted config entry cache cache :=
  ⟨counted,fun _ holds => Or.inl holds,List.Subset.refl _⟩

end

section
variable (evict : Evict Key Value) (key : Key) (counted : Counted config cache) (fits : config.size value ≤ config.maxSizeSingleEntry)
include counted fits

theorem insert_spec :
    if CanInsert config cache key then
      ∃ cache',insert config evict key value cache = .ok cache' ∧ Inserted config (key,value) cache cache'
    else ∃ failure,insert config evict key value cache = .error failure := by
  have room := makeRoomIfFits_spec evict (config.size value) counted
  rw [insert,if_neg (Nat.not_lt.mpr fits)]
  cases present : cache.contains key with
  | true =>
    rw [if_neg (by simp [CanInsert,present])]
    exact ⟨_,rfl⟩
  | false =>
    simp only [CanInsert,present]
    by_cases small : cache.totalSizePinned ≤ config.maxSize
    · rw [if_pos small] at room
      obtain ⟨fits,shrunkCache,made,shrunk⟩ := room
      simp only [small,and_true,Bool.false_eq_true,if_false,if_true,made,bind,Except.bind,pure,Except.pure]
      cases fits with
      | false => exact ⟨shrunkCache,rfl,shrunk.inserted _⟩
      | true =>
        have counted' := shrunk.counted
        refine ⟨_,rfl,?_,?_,(shrunk.inserted (key,value)).pinned⟩
        · simp only [Counted,map_append,sum_append] at counted' ⊢
          simp [counted']
        · intro other holds
          rcases holds with inEntries | isPinned
          · rcases mem_append.mp inEntries with old | new
            · exact Or.inl (Or.inl (shrunk.entries.subset old))
            · exact Or.inr (mem_singleton.mp new)
          · exact Or.inl (Or.inr (shrunk.pinnedMap ▸ isPinned))
    · rw [if_neg small] at room
      simp [small,room,bind,Except.bind]

theorem insertPinned_spec :
    if CanInsert config cache key then
      ∃ cache',insertPinned config evict key value cache = .ok cache' ∧ Inserted config (key,value) cache cache' ∧
        cache'.containsPinned key = true
    else ∃ failure,insertPinned config evict key value cache = .error failure := by
  have room := makeRoomIfFits_spec evict (config.size value) counted
  rw [insertPinned,if_neg (Nat.not_lt.mpr fits)]
  cases present : cache.contains key with
  | true =>
    rw [if_neg (by simp [CanInsert,present])]
    exact ⟨_,rfl⟩
  | false =>
    simp only [CanInsert,present]
    by_cases small : cache.totalSizePinned ≤ config.maxSize
    · rw [if_pos small] at room
      obtain ⟨fits,shrunkCache,made,shrunk⟩ := room
      simp only [small,and_true,Bool.false_eq_true,if_false,if_true,made,bind,Except.bind,pure,Except.pure]
      refine ⟨_,rfl,⟨shrunk.counted,?_,?_⟩,?_⟩
      · intro other holds
        rcases holds with inEntries | isPinned
        · exact Or.inl (Or.inl (shrunk.entries.subset inEntries))
        · rcases mem_cons.mp isPinned with new | old
          · exact Or.inr new
          · exact Or.inl (Or.inr (shrunk.pinnedMap ▸ old))
      · rw [← shrunk.pinnedMap]
        exact subset_cons_self _ _
      · rw [containsPinned_iff]
        exact ⟨value,by simp⟩
    · rw [if_neg small] at room
      simp [small,room,bind,Except.bind]

end

theorem containsAndMakePinnedIfExists_spec (key : Key) (counted : Counted config cache) :
    ∃ cache',containsAndMakePinnedIfExists config key cache = .ok (cache.contains key,cache') ∧ Counted config cache' ∧
      (∀ entry,cache'.Holds entry → cache.Holds entry) ∧ cache.pinnedMap ⊆ cache'.pinnedMap ∧
      (cache.contains key = true → cache'.containsPinned key = true) ∧ cache'.contains key = cache.contains key ∧
      (cache.contains key = false → cache' = cache) := by
  unfold containsAndMakePinnedIfExists
  cases pinned : cache.containsPinned key with
  | true =>
    refine ⟨cache,?_,counted,fun _ holds => holds,List.Subset.refl _,fun _ => pinned,rfl,fun _ => rfl⟩
    simp [contains,pinned]
  | false =>
    cases found : find key cache.entries with
    | none =>
      have absent : cache.contains key = false := by simp [contains,containsNonPinned,pinned,found]
      refine ⟨cache,by simp [absent],counted,fun _ holds => holds,List.Subset.refl _,?_,rfl,fun _ => rfl⟩
      simp [absent]
    | some value =>
      have present : cache.contains key = true := by simp [contains,containsNonPinned,pinned,found]
      obtain ⟨entry,isEntry,isValue⟩ := Option.map_eq_some_iff.mp found
      obtain ⟨isKey,before,after,split,none⟩ := find?_eq_some_iff_append.mp isEntry
      have same : entry = (key,value) := by
        rw [← isValue]
        exact Prod.ext (by simpa using isKey) rfl
      subst same
      have erased : cache.entries.eraseP (fun entry => entry.1 = key) = before ++ after := by
        rw [split,eraseP_append_right _ (by simpa using none)]
        simp
      have sum : cache.totalSizeNonPinned = config.size value + ((before ++ after).map (fun entry => config.size entry.2)).sum := by
        rw [counted,split]
        simp only [map_append,map_cons,sum_append,sum_cons]
        omega
      have pinnedNow : ∀ entries total total',containsPinned key (⟨entries,(key,value)::cache.pinnedMap,total,total'⟩ : FlexibleCache Key Value) = true := by
        intro entries total total'
        rw [containsPinned_iff]
        exact ⟨value,by simp⟩
      have subtracted : subtract cache.totalSizeNonPinned (config.size value) = .ok (cache.totalSizeNonPinned - config.size value) :=
        subtract_eq (by omega)
      refine ⟨⟨before ++ after,(key,value)::cache.pinnedMap,cache.totalSizeNonPinned - config.size value,
        cache.totalSizePinned + config.size value⟩,?_,?_,?_,?_,?_,?_,?_⟩
      · simp [subtracted,erased,present,bind,Except.bind,pure,Except.pure]
      · simp only [Counted]
        omega
      · intro other holds
        rcases holds with inEntries | isPinned
        · left
          rw [split]
          rcases mem_append.mp inEntries with old | old
          · exact mem_append_left _ old
          · exact mem_append_right _ (mem_cons_of_mem _ old)
        · rcases mem_cons.mp isPinned with new | old
          · left
            rw [split,new]
            simp
          · exact Or.inr old
      · exact subset_cons_self _ _
      · exact fun _ => pinnedNow _ _ _
      · rw [present,contains,pinnedNow,Bool.true_or]
      · simp [present]

end Insert
end FlexibleCache
end Qlever
