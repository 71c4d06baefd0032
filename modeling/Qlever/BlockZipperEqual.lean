import Qlever.BlockZipperLess
import Qlever.BlockZipperBuffers

/-! The Cartesian product of the elements that are equal to the current element. All
blocks with these elements are in the buffer of at least one of the sides, the
blocks of the other side pass through its buffer.
-/
namespace Qlever.BlockZipperJoin
open ZipperJoin Library List
variable {κ : Type} [LinearOrder κ]

def JoinSide.equalItems (side : JoinSide κ) (currentEl : κ) : List (Item κ) :=
  side.pending.filter (fun item => key item = currentEl)

section Sums
variable (undefLeft undefRight : List (Item κ))

theorem equalPairs_of_equal {currentEl : κ} {left right : List (Item κ)} (equalLeft : ∀ item ∈ left,key item = currentEl)
    (equalRight : ∀ item ∈ right,key item = currentEl) : equalPairs left right = product left right := by
  apply nestedLoop_congr
  intro x hx y hy
  simp [equalLeft x hx,equalRight y hy]

theorem joined_append_right (left right right' : List (Item κ)) :
    ((equalPairs left right ++ product undefLeft right) ++ joined undefLeft undefRight left right').Perm
      (joined undefLeft undefRight left (right ++ right')) := by
  have first : (equalPairs left (right ++ right')).Perm (equalPairs left right ++ equalPairs left right') :=
    nestedLoop_append_right _ _ _ _
  have second : (product undefLeft (right ++ right')).Perm (product undefLeft right ++ product undefLeft right') :=
    nestedLoop_append_right _ _ _ _
  apply List.Perm.symm
  apply ((first.append_right _).append second).trans
  classical
  rw [perm_iff_count]
  intro pair
  simp only [joined,count_append]
  omega

theorem joined_append_left (left left' right : List (Item κ)) :
    ((equalPairs left right ++ product left undefRight) ++ joined undefLeft undefRight left' right).Perm
      (joined undefLeft undefRight (left ++ left') right) := by
  have first : equalPairs (left ++ left') right = equalPairs left right ++ equalPairs left' right :=
    nestedLoop_append_left _ _ _ _
  have second : product (left ++ left') undefRight = product left undefRight ++ product left' undefRight :=
    nestedLoop_append_left _ _ _ _
  rw [joined,joined,first,second]
  classical
  rw [perm_iff_count]
  intro pair
  simp only [count_append]
  omega

end Sums

structure Cleared (currentEl : κ) (side side' : JoinSide κ) : Prop where
  pending : side'.pending = side.pending.filter (fun item => currentEl < key item)
  length : side'.currentBlocks.length ≤ 1
  nonempty : ∀ block ∈ side'.currentBlocks,block.elements ≠ []
  advanced : Advanced side side'

section Ready
variable {currentEl : κ} {side : JoinSide κ}

theorem Ready.equalItems (ready : Ready currentEl side true) :
    side.equalItems currentEl = items (getEqualToCurrentEl side.currentBlocks currentEl) := by
  have none : (rest side.it).filter (fun item => decide (key item = currentEl)) = [] := by
    rw [filter_eq_nil_iff]
    intro item member
    simpa using (ready.done rfl item member).ne'
  rw [getEqualToCurrentEl_items ready.chunk,JoinSide.equalItems,JoinSide.pending,filter_append,none,append_nil]

theorem Ready.clear (ready : Ready currentEl side true) (some : side.currentBlocks ≠ []) :
    ∃ blocks,removeEqualToCurrentEl side.currentBlocks currentEl = .ok blocks ∧
      Cleared currentEl side {side with currentBlocks := blocks} := by
  obtain ⟨blocks,removed,remaining,length,nonempty,ids⟩ := removeEqualToCurrentEl_spec ready.chunk some
  refine ⟨blocks,removed,?_,length,nonempty,rfl,suffix_rfl,?_⟩
  · have all : (rest side.it).filter (fun item => decide (currentEl < key item)) = rest side.it := by
      rw [filter_eq_self]
      intro item member
      simpa using ready.done rfl item member
    rw [JoinSide.pending,JoinSide.pending,filter_append,all,remaining]
  · exact ids.append_right _

theorem Ready.removeIfNotEmpty (ready : Ready currentEl side true) :
    ∃ side',removeIfNotEmpty side currentEl = .ok side' ∧ Cleared currentEl side side' := by
  cases blocks : side.currentBlocks with
  | nil =>
    refine ⟨side,by simp [BlockZipperJoin.removeIfNotEmpty,blocks,pure,Except.pure],?_,by simp [blocks],by simp [blocks],
      Advanced.refl side⟩
    rw [eq_comm,filter_eq_self]
    intro item member
    have inside : item ∈ rest side.it := by simpa [JoinSide.pending,blocks] using member
    simpa using ready.done rfl item inside
  | cons block later =>
    have some : side.currentBlocks ≠ [] := by simp [blocks]
    obtain ⟨blocks',removed,cleared⟩ := ready.clear some
    refine ⟨{side with currentBlocks := blocks'},?_,cleared⟩
    have notEmpty : side.currentBlocks.isEmpty = false := by simp [blocks]
    simp [BlockZipperJoin.removeIfNotEmpty,notEmpty,removed,bind,Except.bind,pure,Except.pure]

variable {taken : List (Block κ)}

theorem Next.equalItems {side' : JoinSide κ} {all : Bool} (ready : Ready currentEl side false)
    (next : Next currentEl side side' taken all) :
    side.equalItems currentEl = items (getEqualToCurrentEl side.currentBlocks currentEl) ++ side'.equalItems currentEl := by
  rw [JoinSide.equalItems,JoinSide.equalItems,next.pending ready,filter_append,filter_filter,
    getEqualToCurrentEl_items ready.chunk]
  simp

theorem Next.cleared {side' side'' : JoinSide κ} {all : Bool} (ready : Ready currentEl side false)
    (next : Next currentEl side side' taken all) (cleared : Cleared currentEl side' side'') :
    Cleared currentEl side side'' := by
  refine ⟨?_,cleared.length,cleared.nonempty,next.advanced.trans cleared.advanced⟩
  have none : ((items side.currentBlocks).filter (fun item => decide (key item = currentEl))).filter
      (fun item => decide (currentEl < key item)) = [] := by
    rw [filter_eq_nil_iff]
    intro item member
    have equal := (mem_filter.mp member).2
    simp only [decide_eq_true_eq] at equal
    simp [equal]
  rw [cleared.pending,next.pending ready,filter_append,none,nil_append]

end Ready

section Emitted
variable {config : Config κ}

section
omit [LinearOrder κ]

theorem all_empty (blocks : List (BlockAndSubrange κ)) : blocks.all (·.empty) = (items blocks).isEmpty := by
  induction blocks with
  | nil => rfl
  | cons block blocks ih =>
    have first : block.empty = block.items.isEmpty := by
      rw [BlockAndSubrange.empty,← map_key_items block,isEmpty_map]
    rw [all_cons,ih,first,items_cons,Bool.eq_iff_iff]
    simp

theorem joinWithUndefBlocks_emits (status : BlockStatus) (leftSide rightSide : JoinSide κ)
    (left right : List (BlockAndSubrange κ)) (action : RowAction) :
    Emits action (joinWithUndefBlocks status leftSide rightSide left right action)
      ((if status = .rightMissing then [] else product (items left) (items rightSide.undefBlocks)) ++
        (if status = .leftMissing then [] else product (items leftSide.undefBlocks) (items right))) [] := by
  have leftRows := addCartesianProduct_emits left rightSide.undefBlocks action
  cases status with
  | allFilled => exact leftRows.trans (addCartesianProduct_emits leftSide.undefBlocks right _)
  | leftMissing => simpa [joinWithUndefBlocks] using leftRows
  | rightMissing => simpa [joinWithUndefBlocks] using addCartesianProduct_emits leftSide.undefBlocks right action

theorem addAll_emits {rightSide : JoinSide κ} (undefs : Undefs config rightSide.undefBlocks)
    (left right : List (BlockAndSubrange κ)) (action : RowAction) :
    Emits action (addAll config rightSide left right action) (product (items left) (items right))
      (if config.doOptionalJoin && (items rightSide.undefBlocks).isEmpty && (items right).isEmpty then items left else []) := by
  have pairs := addCartesianProduct_emits left right
    (addNonMatchingRowsFromLeftForOptionalJoin config rightSide left right action)
  rw [addAll,addNonMatchingRowsFromLeftForOptionalJoin,hasUndef_eq undefs,Bool.not_not,all_empty] at *
  split
  next test =>
    rw [if_pos test] at pairs
    simpa using (addOptionalRows_emits left action).trans pairs
  next test =>
    rw [if_neg test] at pairs
    exact pairs

end

end Emitted

def spills (currentEl : κ) (its : List (Item κ)) : Bool :=
  its.any (fun item => key item = currentEl && its.any (fun other => currentEl < key other && other.1 = item.1))

/-- The buffer is filled when its last block with the current element is read, but there are
further blocks, and this last block also contains larger elements. -/
def spillsLater (currentEl : κ) (side : JoinSide κ) : Bool :=
  numEqual currentEl side.it % fetchBlocks = 0 && !endsEqual currentEl side.it && spills currentEl side.pending

/-- The rows of `left` for which the Cartesian product adds optional rows. -/
def optionalEqual (config : Config κ) (currentEl : κ) (status : BlockStatus) (left right : JoinSide κ) : List (Item κ) :=
  if config.doOptionalJoin && (items right.undefBlocks).isEmpty && (match status with
    | .rightMissing => spillsLater currentEl right
    | _ => !right.currentBlocks.isEmpty && (right.equalItems currentEl).isEmpty)
  then left.equalItems currentEl else []

structure Missing (currentEl : κ) (side : JoinSide κ) : Prop where
  ready : Ready currentEl side false
  heads : ∀ block ∈ side.currentBlocks,block.elements.head? = some currentEl
  some : side.currentBlocks ≠ []

/-- The states of the loop of `joinBuffers`. -/
def LoopState (currentEl : κ) (status : BlockStatus) (left right : JoinSide κ) : Prop :=
  match status with
  | .allFilled => Ready currentEl left true ∧ Ready currentEl right true
  | .rightMissing => Ready currentEl left true ∧ left.currentBlocks ≠ [] ∧ Missing currentEl right
  | .leftMissing => Missing currentEl left ∧ Ready currentEl right true ∧ right.currentBlocks ≠ []

section Loop
variable {config : Config κ} {currentEl : κ} {blocks : List (BlockAndSubrange κ)}

theorem Chunk.heads (chunk : Chunk currentEl blocks) {item : Item κ}
    (member : item ∈ items blocks) (equal : key item = currentEl) :
    ∀ block ∈ blocks,block.elements.head? = some currentEl := by
  intro block present
  cases blocks with
  | nil => simp at present
  | cons first later =>
    rcases mem_cons.mp present with rfl | inside
    · obtain ⟨element,tail,elements⟩ := exists_cons_of_ne_nil (chunk.nonempty block mem_cons_self)
      obtain ⟨head,headMember,headKey⟩ := exists_item block (show element ∈ block.elements by simp [elements])
      have atLeast := chunk.least head (by simp [headMember])
      have keys : (items (block::later)).map key = element::(tail ++ (items later).map key) := by
        rw [items_cons,map_append,map_key_items,elements,cons_append]
      have sorted : ((items (block::later)).map key).Pairwise (· ≤ ·) := pairwise_map.mpr chunk.sorted
      have keyMember : currentEl ∈ (items (block::later)).map key := equal ▸ mem_map_of_mem member
      rw [keys] at sorted keyMember
      have atMost : element ≤ currentEl := by
        rcases mem_cons.mp keyMember with same | later
        · exact same.ge
        · exact (pairwise_cons.mp sorted).1 _ later
      rw [elements,head?_cons,le_antisymm atMost (headKey ▸ atLeast)]
    · exact chunk.later block inside

variable {taken : List (Block κ)}

theorem exists_taken {it it' : List (Block κ)} {remaining : Nat} {all : Bool}
    (filled : Filled currentEl remaining it it' taken all) (some : taken ≠ []) : ∃ item ∈ rest taken,key item = currentEl := by
  obtain ⟨block,later,rfl⟩ := exists_cons_of_ne_nil some
  have head := filled.equal block mem_cons_self
  simp only [starts,decide_eq_true_eq] at head
  obtain ⟨item,member,equal⟩ := exists_item (BlockAndSubrange.ofBlock block) (mem_of_mem_head? head)
  exact ⟨item,by simp [member],equal⟩

theorem taken_ne_nil {it it' : List (Block κ)} (filled : Filled currentEl fetchBlocks it it' taken false) :
    taken ≠ [] := by
  intro nil
  have length := (filled.more rfl).1
  simp [nil,fetchBlocks] at length

variable {side : JoinSide κ}

theorem Next.missing {side' : JoinSide κ} (next : Next currentEl side side' taken false) :
    Missing currentEl side' := by
  obtain ⟨item,member,equal⟩ := exists_taken next.filled (taken_ne_nil next.filled)
  refine ⟨next.ready,next.ready.chunk.heads ?_ equal,next.some rfl⟩
  rw [next.current]
  exact mem_append_right _ member

section Spills
variable {side side' : JoinSide κ} {taken : List (Block κ)} {all : Bool}

section
omit [LinearOrder κ]

theorem fst_mem_items {blocks : List (BlockAndSubrange κ)} {item : Item κ} (member : item ∈ items blocks) :
    ∃ block ∈ blocks,item ∈ block.items ∧ item.1 = block.fullBlock := by
  obtain ⟨block,present,inside⟩ := mem_flatMap.mp member
  refine ⟨block,present,inside,?_⟩
  obtain ⟨it,_,rfl⟩ := List.mem_map.mp inside
  rfl

theorem fst_ne_of_nodup (nodup : side.ids.Nodup) {x y : Item κ} (hx : x ∈ items side.currentBlocks) (hy : y ∈ rest side.it) :
    x.1 ≠ y.1 := by
  obtain ⟨block,present,_,first⟩ := fst_mem_items hx
  obtain ⟨block',present',_,second⟩ := fst_mem_items hy
  obtain ⟨original,inside,rfl⟩ := List.mem_map.mp present'
  rw [first,second]
  exact (nodup_append.mp nodup).2.2 _ (mem_map_of_mem present) _ (mem_map_of_mem inside)

end

theorem spills_iff (its : List (Item κ)) : spills currentEl its = true ↔
    ∃ x ∈ its,∃ y ∈ its,key x = currentEl ∧ currentEl < key y ∧ y.1 = x.1 := by
  simp only [spills,any_eq_true,Bool.and_eq_true,decide_eq_true_eq]
  constructor
  · rintro ⟨x,hx,equal,y,hy,less,same⟩
    exact ⟨x,hx,y,hy,equal,less,same⟩
  · rintro ⟨x,hx,y,hy,equal,less,same⟩
    exact ⟨x,hx,equal,y,hy,less,same⟩

theorem Next.current_equal (ready : Ready currentEl side false) (next : Next currentEl side side' taken all) (some : taken ≠ []) :
    ∀ item ∈ items side.currentBlocks,key item = currentEl := by
  intro item member
  obtain ⟨other,inside,equal⟩ := exists_taken next.filled some
  apply le_antisymm _ (ready.chunk.least item member)
  rw [← equal]
  apply ready.sorted.le member
  rw [next.filled.pending]
  exact mem_append_left _ inside

theorem Next.spills_eq (ready : Ready currentEl side false) (nodup : side.ids.Nodup)
    (next : Next currentEl side side' taken all) (some : taken ≠ []) :
    spills currentEl side.pending = spills currentEl side'.pending := by
  have equal := next.current_equal ready some
  have pending := next.pending ready
  rw [Bool.eq_iff_iff,spills_iff,spills_iff]
  constructor
  · rintro ⟨x,hx,y,hy,keyX,less,same⟩
    have larger : y ∈ rest side.it := by
      rcases mem_append.mp hy with current | later
      · exact absurd less (by rw [equal y current]; exact lt_irrefl currentEl)
      · exact later
    have outside : x ∈ rest side.it := by
      rcases mem_append.mp hx with current | later
      · exact absurd same.symm (fst_ne_of_nodup nodup current larger)
      · exact later
    have subset : ∀ item ∈ rest side.it,item ∈ side'.pending := by
      intro item member
      rw [next.filled.pending] at member
      rw [JoinSide.pending,next.current,append_assoc]
      exact mem_append_right _ member
    exact ⟨x,subset x outside,y,subset y larger,keyX,less,same⟩
  · rintro ⟨x,hx,y,hy,keyX,less,same⟩
    rw [pending]
    exact ⟨x,mem_append_right _ hx,y,mem_append_right _ hy,keyX,less,same⟩

variable {it : List (Block κ)}

theorem numEqual_eq_zero (above : ∀ item ∈ rest it,currentEl < key item) : numEqual currentEl it = 0 := by
  rw [numEqual,length_eq_zero_iff,filter_eq_nil_iff]
  intro block member head
  simp only [starts,decide_eq_true_eq] at head
  obtain ⟨item,inside,equal⟩ := exists_item (BlockAndSubrange.ofBlock block) (mem_of_mem_head? head)
  have present : item ∈ rest it := mem_flatMap.mpr ⟨_,mem_map_of_mem member,inside⟩
  exact absurd (above item present) (by simp [equal])

theorem endsEqual_eq_false (none : numEqual currentEl it = 0) : endsEqual currentEl it = false := by
  rw [endsEqual,Option.any_eq_false_iff_get]
  intro some
  rw [numEqual,length_eq_zero_iff,filter_eq_nil_iff] at none
  have member : it.getLast?.get some ∈ it := mem_of_getLast? (Option.eq_some_of_isSome some)
  simpa using none _ member

theorem Next.equalItems_isEmpty (next : Next currentEl side side' taken true) :
    (side'.equalItems currentEl).isEmpty = taken.isEmpty := by
  cases taken with
  | nil =>
    have none : side'.equalItems currentEl = [] := by
      rw [JoinSide.equalItems,filter_eq_nil_iff]
      intro item member
      rw [JoinSide.pending,next.current] at member
      have above : currentEl < key item := by
        rcases mem_append.mp member with old | later
        · rw [rest_nil,append_nil,mem_filter] at old
          simpa using old.2
        · exact next.filled.done rfl item later
      simpa using above.ne'
    simp [none]
  | cons block later =>
    obtain ⟨item,member,equal⟩ := exists_taken next.filled (cons_ne_nil block later)
    have present : item ∈ side'.equalItems currentEl := by
      rw [JoinSide.equalItems,mem_filter,JoinSide.pending,next.current]
      exact ⟨mem_append_left _ (mem_append_right _ member),by simpa using equal⟩
    simpa using ne_nil_of_mem present

theorem Next.spills_of_nil (missing : Missing currentEl side) (nodup : side.ids.Nodup)
    (next : Next currentEl side side' [] true) : spills currentEl side.pending = !side'.currentBlocks.isEmpty := by
  have current : items side'.currentBlocks = (items side.currentBlocks).filter (fun item => currentEl < key item) := by
    simpa using next.current
  have above : ∀ item ∈ rest side.it,currentEl < key item := by
    intro item member
    rw [next.filled.pending] at member
    exact next.filled.done rfl item (by simpa using member)
  rw [← items_isEmpty next.ready.chunk.nonempty,current,Bool.eq_iff_iff,spills_iff]
  simp only [Bool.not_eq_true',isEmpty_eq_false_iff_exists_mem,mem_filter,decide_eq_true_eq]
  constructor
  · rintro ⟨x,hx,y,hy,equal,less,same⟩
    have inside : x ∈ items side.currentBlocks := by
      rcases mem_append.mp hx with current | later
      · exact current
      · exact absurd equal (above x later).ne'
    rcases mem_append.mp hy with current | later
    · exact ⟨y,current,less⟩
    · exact absurd same.symm (fst_ne_of_nodup nodup inside later)
  · rintro ⟨y,hy,less⟩
    obtain ⟨block,present,_,first⟩ := fst_mem_items hy
    obtain ⟨x,hx,equal⟩ := exists_item block (mem_of_mem_head? (missing.heads block present))
    have inside : x ∈ items side.currentBlocks := mem_flatMap.mpr ⟨block,present,hx⟩
    obtain ⟨it,_,rfl⟩ := List.mem_map.mp hx
    exact ⟨_,mem_append_left _ inside,y,mem_append_left _ hy,equal,less,first⟩

theorem Next.spillsLater_eq (missing : Missing currentEl side) (nodup : side.ids.Nodup)
    (next : Next currentEl side side' taken all) :
    spillsLater currentEl side = if all then !side'.currentBlocks.isEmpty && (side'.equalItems currentEl).isEmpty
      else spillsLater currentEl side' := by
  have counted := next.filled.count
  cases all with
  | false =>
    obtain ⟨length,more⟩ := next.filled.more rfl
    rw [spillsLater,spillsLater,next.spills_eq missing.ready nodup (taken_ne_nil next.filled),next.filled.endsMore more,
      counted,length,Nat.add_mod_left]
    rfl
  | true =>
    rw [numEqual_eq_zero (next.filled.done rfl),Nat.add_zero] at counted
    rw [if_pos rfl,next.equalItems_isEmpty]
    cases taken with
    | nil =>
      rw [spillsLater,counted,endsEqual_eq_false counted,next.spills_of_nil missing nodup]
      simp
    | cons block later =>
      have atMost := next.filled.atMost
      by_cases full : (block::later).length = fetchBlocks
      · have ended := next.filled.endsFull (next.filled.full rfl full) full (by simp [fetchBlocks])
        simp [spillsLater,ended]
      · have positive : 0 < (block::later).length := Nat.succ_pos later.length
        have partly : (block::later).length % fetchBlocks ≠ 0 := by
          rw [Nat.mod_eq_of_lt (by omega)]
          omega
        rw [spillsLater,counted,decide_eq_false partly]
        simp

end Spills

variable {impl : Impl κ} {status : BlockStatus}

/-- What the loop of `joinBuffers` does. -/
structure JoinedEqual (config : Config κ) (currentEl : κ) (status : BlockStatus) (impl impl' : Impl κ) : Prop where
  emits : Emits impl.compatibleRowAction impl'.compatibleRowAction
    (joined (items impl.leftSide.undefBlocks) (items impl.rightSide.undefBlocks) (impl.leftSide.equalItems currentEl)
      (impl.rightSide.equalItems currentEl)) (optionalEqual config currentEl status impl.leftSide impl.rightSide)
  left : Cleared currentEl impl.leftSide impl'.leftSide
  right : Cleared currentEl impl.rightSide impl'.rightSide

theorem equalItems_key (side : JoinSide κ) (currentEl : κ) : ∀ item ∈ side.equalItems currentEl,key item = currentEl := by
  intro item member
  simpa using (mem_filter.mp member).2

theorem getEqual_key (chunk : Chunk currentEl blocks) :
    ∀ item ∈ items (getEqualToCurrentEl blocks currentEl),key item = currentEl := by
  rw [getEqualToCurrentEl_items chunk]
  intro item member
  simpa using (mem_filter.mp member).2

theorem joinEqual_allFilled (undefs : Undefs config impl.rightSide.undefBlocks)
    (readyLeft : Ready currentEl impl.leftSide true) (readyRight : Ready currentEl impl.rightSide true) (fuel : Nat) :
    ∃ impl',joinEqual config currentEl (fuel + 1) .allFilled
        (getEqualToCurrentEl impl.leftSide.currentBlocks currentEl)
        (getEqualToCurrentEl impl.rightSide.currentBlocks currentEl) impl = .ok impl' ∧
      JoinedEqual config currentEl .allFilled impl impl' := by
  have undefRows := joinWithUndefBlocks_emits .allFilled impl.leftSide impl.rightSide
    (getEqualToCurrentEl impl.leftSide.currentBlocks currentEl)
    (getEqualToCurrentEl impl.rightSide.currentBlocks currentEl) impl.compatibleRowAction
  simp only [reduceCtorEq,if_false] at undefRows
  rw [← readyLeft.equalItems,← readyRight.equalItems] at undefRows
  have equalProduct := equalPairs_of_equal (equalItems_key impl.leftSide currentEl) (equalItems_key impl.rightSide currentEl)
  rw [joinEqual,getEqualToCurrentEl_isEmpty,getEqualToCurrentEl_isEmpty]
  cases exhausted : (impl.leftSide.currentBlocks.isEmpty || impl.rightSide.currentBlocks.isEmpty) with
  | true =>
    obtain ⟨left,removeLeft,clearedLeft⟩ := readyLeft.removeIfNotEmpty
    obtain ⟨right,removeRight,clearedRight⟩ := readyRight.removeIfNotEmpty
    refine ⟨_,by simp [check,removeLeft,removeRight,bind,Except.bind,pure,Except.pure]; rfl,?_,clearedLeft,clearedRight⟩
    have noPairs : product (impl.leftSide.equalItems currentEl) (impl.rightSide.equalItems currentEl) = [] := by
      rcases Bool.or_eq_true_iff.mp exhausted with none | none
      · rw [readyLeft.equalItems,List.isEmpty_iff.mp none]
        rfl
      · rw [readyRight.equalItems,List.isEmpty_iff.mp none]
        exact product_nil_right _
    have noOptional : optionalEqual config currentEl .allFilled impl.leftSide impl.rightSide = [] := by
      rcases Bool.or_eq_true_iff.mp exhausted with none | none
      · have nil : impl.leftSide.equalItems currentEl = [] := by
          rw [readyLeft.equalItems,List.isEmpty_iff.mp none]
          rfl
        simp [optionalEqual,nil]
      · simp [optionalEqual,none]
    rw [joined,equalProduct,noPairs,noOptional]
    exact undefRows
  | false =>
    obtain ⟨someLeft,someRight⟩ := Bool.or_eq_false_iff.mp exhausted
    obtain ⟨left,removeLeft,clearedLeft⟩ := readyLeft.clear (by simpa using someLeft)
    obtain ⟨right,removeRight,clearedRight⟩ := readyRight.clear (by simpa using someRight)
    refine ⟨_,by simp [removeLeft,removeRight,bind,Except.bind,pure,Except.pure]; rfl,?_,clearedLeft,clearedRight⟩
    have pairs := undefRows.trans (addAll_emits undefs (getEqualToCurrentEl impl.leftSide.currentBlocks currentEl)
      (getEqualToCurrentEl impl.rightSide.currentBlocks currentEl) _)
    rw [← readyLeft.equalItems,← readyRight.equalItems] at pairs
    apply pairs.perm
    · rw [joined,equalProduct,append_assoc (product (impl.leftSide.equalItems currentEl) (impl.rightSide.equalItems currentEl))]
      exact perm_append_comm
    · simp [optionalEqual,someRight]

theorem Missing.exists_item (missing : Missing currentEl side) : ∃ item ∈ items side.currentBlocks,key item = currentEl := by
  obtain ⟨block,later,blocks⟩ := exists_cons_of_ne_nil missing.some
  have present : block ∈ side.currentBlocks := by simp [blocks]
  obtain ⟨item,member,equal⟩ := BlockZipperJoin.exists_item block (mem_of_mem_head? (missing.heads block present))
  exact ⟨item,mem_flatMap.mpr ⟨block,present,member⟩,equal⟩

theorem Missing.chunk_ne_nil (missing : Missing currentEl side) :
    (items (getEqualToCurrentEl side.currentBlocks currentEl)).isEmpty = false := by
  obtain ⟨item,member,equal⟩ := missing.exists_item
  rw [getEqualToCurrentEl_items missing.ready.chunk]
  simpa using ⟨_,_,member,equal⟩

theorem rightMissing_emits (undefs : Undefs config impl.rightSide.undefBlocks) (readyLeft : Ready currentEl impl.leftSide true)
    (missing : Missing currentEl impl.rightSide) :
    Emits impl.compatibleRowAction (addAll config impl.rightSide (getEqualToCurrentEl impl.leftSide.currentBlocks currentEl)
        (getEqualToCurrentEl impl.rightSide.currentBlocks currentEl)
        (joinWithUndefBlocks .rightMissing impl.leftSide impl.rightSide
          (getEqualToCurrentEl impl.leftSide.currentBlocks currentEl)
          (getEqualToCurrentEl impl.rightSide.currentBlocks currentEl) impl.compatibleRowAction))
      (equalPairs (impl.leftSide.equalItems currentEl) (items (getEqualToCurrentEl impl.rightSide.currentBlocks currentEl)) ++
        product (items impl.leftSide.undefBlocks) (items (getEqualToCurrentEl impl.rightSide.currentBlocks currentEl))) [] := by
  have undefRows := joinWithUndefBlocks_emits .rightMissing impl.leftSide impl.rightSide
    (getEqualToCurrentEl impl.leftSide.currentBlocks currentEl)
    (getEqualToCurrentEl impl.rightSide.currentBlocks currentEl) impl.compatibleRowAction
  have pairs := undefRows.trans (addAll_emits undefs (getEqualToCurrentEl impl.leftSide.currentBlocks currentEl)
    (getEqualToCurrentEl impl.rightSide.currentBlocks currentEl) _)
  rw [equalPairs_of_equal (equalItems_key impl.leftSide currentEl) (getEqual_key missing.ready.chunk)]
  rw [missing.chunk_ne_nil,← readyLeft.equalItems] at pairs
  apply pairs.perm
  · simpa using perm_append_comm
  · simp

theorem leftMissing_emits (undefs : Undefs config impl.rightSide.undefBlocks) (missing : Missing currentEl impl.leftSide)
    (readyRight : Ready currentEl impl.rightSide true) :
    Emits impl.compatibleRowAction (addAll config impl.rightSide (getEqualToCurrentEl impl.leftSide.currentBlocks currentEl)
        (getEqualToCurrentEl impl.rightSide.currentBlocks currentEl)
        (joinWithUndefBlocks .leftMissing impl.leftSide impl.rightSide
          (getEqualToCurrentEl impl.leftSide.currentBlocks currentEl)
          (getEqualToCurrentEl impl.rightSide.currentBlocks currentEl) impl.compatibleRowAction))
      (equalPairs (items (getEqualToCurrentEl impl.leftSide.currentBlocks currentEl)) (impl.rightSide.equalItems currentEl) ++
        product (items (getEqualToCurrentEl impl.leftSide.currentBlocks currentEl)) (items impl.rightSide.undefBlocks))
      (if config.doOptionalJoin && (items impl.rightSide.undefBlocks).isEmpty && (impl.rightSide.equalItems currentEl).isEmpty
        then items (getEqualToCurrentEl impl.leftSide.currentBlocks currentEl) else []) := by
  have undefRows := joinWithUndefBlocks_emits .leftMissing impl.leftSide impl.rightSide
    (getEqualToCurrentEl impl.leftSide.currentBlocks currentEl)
    (getEqualToCurrentEl impl.rightSide.currentBlocks currentEl) impl.compatibleRowAction
  have pairs := undefRows.trans (addAll_emits undefs (getEqualToCurrentEl impl.leftSide.currentBlocks currentEl)
    (getEqualToCurrentEl impl.rightSide.currentBlocks currentEl) _)
  rw [equalPairs_of_equal (getEqual_key missing.ready.chunk) (equalItems_key impl.rightSide currentEl)]
  rw [← readyRight.equalItems] at pairs
  apply pairs.perm
  · simpa using perm_append_comm
  · simp

theorem Next.enough {side' : JoinSide κ} {all : Bool} {status : BlockStatus} {other fuel : Nat}
    (next : Next currentEl side side' taken all) (missing : status ≠ .allFilled) (enough : other + side.it.length + 2 ≤ fuel + 1) :
    other + side'.it.length + (if (if all then BlockStatus.allFilled else status) = .allFilled then 1 else 2) ≤ fuel := by
  have shorter := next.filled.ids.length_le
  rw [length_append] at shorter
  cases all with
  | true =>
    simp only [if_true]
    omega
  | false =>
    have length := (next.filled.more rfl).1
    simp only [Bool.false_eq_true,if_false,missing]
    simp only [fetchBlocks] at length
    omega

theorem joinEqual_spec (impl : Impl κ) (status : BlockStatus) (undefs : Undefs config impl.rightSide.undefBlocks) (nodup : impl.rightSide.ids.Nodup)
    (state : LoopState currentEl status impl.leftSide impl.rightSide) (fuel : Nat)
    (enough : impl.leftSide.it.length + impl.rightSide.it.length + (if status = .allFilled then 1 else 2) ≤ fuel) :
    ∃ impl',joinEqual config currentEl fuel status (getEqualToCurrentEl impl.leftSide.currentBlocks currentEl)
        (getEqualToCurrentEl impl.rightSide.currentBlocks currentEl) impl = .ok impl' ∧
      JoinedEqual config currentEl status impl impl' := by
  induction fuel generalizing impl status with
  | zero => split at enough <;> omega
  | succ fuel ih =>
    cases status with
    | allFilled => exact joinEqual_allFilled undefs state.1 state.2 fuel
    | rightMissing =>
      obtain ⟨readyLeft,someLeft,missing⟩ := state
      obtain ⟨side',taken,all,run,next⟩ := getNextBlocks_spec missing.ready missing.some
      have emitted := rightMissing_emits undefs readyLeft missing
      generalize same : addAll config impl.rightSide _ _ _ = action at emitted
      obtain ⟨impl',rest,done⟩ := ih ⟨impl.leftSide,side',action⟩ (if all then .allFilled else .rightMissing)
        (by rw [next.advanced.undefBlocks]; exact undefs) (nodup.sublist next.advanced.ids)
        (by cases all with
            | true => exact ⟨readyLeft,next.ready⟩
            | false => exact ⟨readyLeft,someLeft,next.missing⟩)
        (next.enough (by simp) (by simpa using enough))
      refine ⟨impl',?_,?_,done.left,next.cleared missing.ready done.right⟩
      · have continues : (impl.leftSide.currentBlocks.isEmpty || impl.rightSide.currentBlocks.isEmpty) = false := by
          simp [someLeft,missing.some]
        rw [joinEqual,getEqualToCurrentEl_isEmpty,getEqualToCurrentEl_isEmpty,continues]
        simp only [Bool.false_eq_true,if_false,same,run,bind,Except.bind]
        exact rest
      · have pairs := joined_append_right (items impl.leftSide.undefBlocks) (items impl.rightSide.undefBlocks)
          (impl.leftSide.equalItems currentEl) (items (getEqualToCurrentEl impl.rightSide.currentBlocks currentEl))
          (side'.equalItems currentEl)
        rw [← next.equalItems missing.ready] at pairs
        have emits := emitted.trans done.emits
        simp only [next.advanced.undefBlocks] at emits
        apply emits.perm pairs
        have spilled := next.spillsLater_eq missing nodup
        cases all <;> simp only [Bool.false_eq_true,if_true,if_false] at spilled ⊢ <;>
          simp [optionalEqual,spilled,next.advanced.undefBlocks]
    | leftMissing =>
      obtain ⟨missing,readyRight,someRight⟩ := state
      obtain ⟨side',taken,all,run,next⟩ := getNextBlocks_spec missing.ready missing.some
      have emitted := leftMissing_emits undefs missing readyRight
      generalize same : addAll config impl.rightSide _ _ _ = action at emitted
      obtain ⟨impl',rest,done⟩ := ih ⟨side',impl.rightSide,action⟩ (if all then .allFilled else .leftMissing) undefs nodup
        (by cases all with
            | true => exact ⟨next.ready,readyRight⟩
            | false => exact ⟨next.missing,readyRight,someRight⟩)
        (by rw [Nat.add_comm side'.it.length]
            exact next.enough (by simp) (by rw [Nat.add_comm impl.rightSide.it.length]; simpa using enough))
      refine ⟨impl',?_,?_,next.cleared missing.ready done.left,done.right⟩
      · have continues : (impl.leftSide.currentBlocks.isEmpty || impl.rightSide.currentBlocks.isEmpty) = false := by
          simp [someRight,missing.some]
        rw [joinEqual,getEqualToCurrentEl_isEmpty,getEqualToCurrentEl_isEmpty,continues]
        simp only [Bool.false_eq_true,if_false,same,run,bind,Except.bind]
        exact rest
      · have pairs := joined_append_left (items impl.leftSide.undefBlocks) (items impl.rightSide.undefBlocks)
          (items (getEqualToCurrentEl impl.leftSide.currentBlocks currentEl)) (side'.equalItems currentEl)
          (impl.rightSide.equalItems currentEl)
        rw [← next.equalItems missing.ready] at pairs
        have emits := emitted.trans done.emits
        simp only [next.advanced.undefBlocks] at emits
        apply emits.perm pairs
        have notEmpty : impl.rightSide.currentBlocks.isEmpty = false := by simpa using someRight
        have rows := next.equalItems missing.ready
        cases all <;> simp only [optionalEqual,notEmpty,rows,Bool.not_false,Bool.true_and,Bool.false_eq_true,if_false,if_true]
        · split <;> simp
        · split <;> simp

end Loop
end Qlever.BlockZipperJoin
