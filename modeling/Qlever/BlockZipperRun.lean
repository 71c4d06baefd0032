import Qlever.BlockZipperRound

/-! Whole runs of the block zipper. The rounds join disjoint parts of both sides, until
one side is exhausted.
-/
namespace Qlever.BlockZipperJoin
open ZipperJoin Library List BlockAndSubrange
variable {κ : Type} [LinearOrder κ]

def blocksWith (value : κ) (its : List (Item κ)) : Finset Nat :=
  ((its.filter (fun item => key item = value)).map Prod.fst).toFinset

/-- The condition under which the rows of `left` with a value get an optional row although
they are matched. `lastLeft` and `lastRight` are the last blocks of the inputs. -/
def doubled (lastLeft lastRight : Nat) (value : κ) (left right : List (Item κ)) : Bool :=
  fetchBlocks < (blocksWith value right).card && (blocksWith value right).card % fetchBlocks = 1 &&
    decide (lastRight ∉ blocksWith value right) && spills value right && decide (blocksWith value left ≠ ∅) &&
    (decide ((blocksWith value left).card < (blocksWith value right).card) ||
      (decide ((blocksWith value left).card = (blocksWith value right).card) && decide (lastLeft ∈ blocksWith value left)))

section Blocks

theorem mem_blocksWith {value : κ} {its : List (Item κ)} {id : Nat} :
    id ∈ blocksWith value its ↔ ∃ item ∈ its,key item = value ∧ item.1 = id := by
  simp [blocksWith,and_assoc]

theorem blocksWith_append (value : κ) (first second : List (Item κ)) :
    blocksWith value (first ++ second) = blocksWith value first ∪ blocksWith value second := by
  simp [blocksWith,toFinset_append]

theorem blocksWith_block (value : κ) (block : BlockAndSubrange κ) :
    blocksWith value block.items = if value ∈ block.elements then {block.fullBlock} else ∅ := by
  have id : ∀ item ∈ block.items,item.1 = block.fullBlock := by
    intro item member
    obtain ⟨it,_,rfl⟩ := List.mem_map.mp member
    rfl
  ext other
  rw [mem_blocksWith]
  split
  next present =>
    rw [Finset.mem_singleton]
    constructor
    · rintro ⟨item,member,_,rfl⟩
      exact id item member
    · rintro rfl
      obtain ⟨item,member,equal⟩ := exists_item block present
      exact ⟨item,member,equal,id item member⟩
  next absent =>
    simp only [Finset.notMem_empty,iff_false]
    rintro ⟨item,member,equal,_⟩
    exact absent (equal ▸ key_mem member)

theorem card_blocksWith (value : κ) (blocks : List (BlockAndSubrange κ)) (nodup : (blocks.map (·.fullBlock)).Nodup) :
    (blocksWith value (items blocks)).card = (blocks.filter (fun block => value ∈ block.elements)).length := by
  induction blocks with
  | nil => rfl
  | cons block blocks ih =>
    obtain ⟨fresh,tail⟩ := nodup_cons.mp nodup
    have apart : block.fullBlock ∉ blocksWith value (items blocks) := by
      rw [mem_blocksWith]
      rintro ⟨item,member,_,same⟩
      obtain ⟨other,present,_,first⟩ := fst_mem_items member
      apply fresh
      change block.fullBlock ∈ _
      rw [← same,first]
      exact mem_map_of_mem present
    rw [items_cons,blocksWith_append,blocksWith_block]
    by_cases present : value ∈ block.elements
    · rw [if_pos present,Finset.singleton_union,Finset.card_insert_of_notMem apart,ih tail]
      simp [present]
    · rw [if_neg present,Finset.empty_union,ih tail]
      simp [present]

theorem blocksWith_filter {value bound : κ} (above : bound < value) (its : List (Item κ)) :
    blocksWith value (its.filter (fun item => bound < key item)) = blocksWith value its := by
  ext id
  simp only [mem_blocksWith,mem_filter,decide_eq_true_eq]
  constructor
  · rintro ⟨item,⟨member,_⟩,rest⟩
    exact ⟨item,member,rest⟩
  · rintro ⟨item,member,rfl,same⟩
    exact ⟨item,⟨member,above⟩,rfl,same⟩

theorem doubled_filter {lastLeft lastRight : Nat} {value bound : κ} (above : bound < value) (left right : List (Item κ)) :
    doubled lastLeft lastRight value (left.filter (fun item => bound < key item)) (right.filter (fun item => bound < key item)) =
      doubled lastLeft lastRight value left right := by
  have kept : ∀ item : Item κ,value ≤ key item → decide (bound < key item) := fun item le => decide_eq_true (above.trans_le le)
  rw [doubled,doubled,blocksWith_filter above,blocksWith_filter above,spills_filter kept]

end Blocks

def EndsAt (last : Nat) (side : JoinSide κ) : Prop := ∀ block,side.it.getLast? = some block → block.id = last

omit [LinearOrder κ] in
theorem EndsAt.advance {last : Nat} {side side' : JoinSide κ} (ends : EndsAt last side) (advanced : Advanced side side') :
    EndsAt last side' := by
  intro block final
  obtain ⟨consumed,split⟩ := advanced.suffix
  apply ends block
  rw [← split,getLast?_append,final]
  rfl

section Round
variable {config : Config κ} {side : JoinSide κ} {front : BlockAndSubrange κ} {last currentEl : κ} {lastId : Nat}

omit [LinearOrder κ] in
theorem pending_blocks (side : JoinSide κ) : side.pending = items (side.currentBlocks ++ side.it.map ofBlock) := by
  rw [items_append]
  rfl

theorem mem_eq_starts (block : Block κ) (sorted : block.elements.Pairwise (· ≤ ·)) (least : ∀ element ∈ block.elements,currentEl ≤ element) :
    decide (currentEl ∈ block.elements) = starts currentEl block := by
  rw [starts,decide_eq_decide]
  constructor
  · intro member
    obtain ⟨first,tail,elements⟩ := exists_cons_of_ne_nil (ne_nil_of_mem member)
    have atLeast := least first (by simp [elements])
    rw [elements] at sorted member
    rw [elements,head?_cons,Option.some_inj]
    rcases mem_cons.mp member with same | later
    · exact same.symm
    · exact le_antisymm ((pairwise_cons.mp sorted).1 _ later) atLeast
  · exact mem_of_mem_head?

theorem starts_of_mem (fillable : Fillable currentEl side) : ∀ block ∈ side.it,
    decide (currentEl ∈ block.elements) = starts currentEl block := by
  intro block member
  obtain ⟨before,after,split⟩ := append_of_mem member
  have sorted : SortedItems (rest side.it) := SortedItems.right fillable.sorted
  have least := fillable.least
  rw [split,rest_append,rest_cons] at sorted least
  apply mem_eq_starts
  · have inner : SortedItems (ofBlock block).items := sorted.right.left
    exact inner.elements
  · intro element present
    obtain ⟨item,inside,rfl⟩ := exists_item (ofBlock block) present
    exact least item (by simp [inside])

omit [LinearOrder κ] in
theorem nodup_blocks (nodup : side.ids.Nodup) :
    ((side.currentBlocks ++ side.it.map ofBlock).map (·.fullBlock)).Nodup := by
  rw [map_append,ids_ofBlock]
  exact nodup

section
variable (isFront : Front side front last) (inv : SideInv config side) (atMost : currentEl ≤ last)
include isFront inv atMost

theorem card_currentEl :
    (blocksWith currentEl side.pending).card = (if currentEl ∈ front.elements then 1 else 0) + numEqual currentEl side.it := by
  have heads := starts_of_mem (isFront.fillable inv atMost)
  have counted : ((side.it.map ofBlock).filter (fun block => decide (currentEl ∈ block.elements))).length =
      numEqual currentEl side.it := by
    rw [filter_map,length_map,numEqual]
    congr 1
    exact filter_congr heads
  rw [pending_blocks,card_blocksWith _ _ (nodup_blocks inv.ids),filter_append,length_append,counted,isFront.current]
  by_cases present : currentEl ∈ front.elements <;> simp [present]

theorem Front.mem_of_numEqual (positive : 0 < numEqual currentEl side.it) : currentEl ∈ front.elements := by
  obtain ⟨block,member⟩ := exists_mem_of_length_pos positive
  obtain ⟨present,head⟩ := mem_filter.mp member
  simp only [starts,decide_eq_true_eq] at head
  obtain ⟨item,inside,equal⟩ := exists_item (ofBlock block) (mem_of_mem_head? head)
  obtain ⟨final,finalMember,finalEqual⟩ := exists_item front isFront.mem
  have sorted := inv.sorted
  rw [JoinSide.pending] at sorted
  have le : key final ≤ key item := by
    apply sorted.le
    · simp [isFront.current,finalMember]
    · exact mem_flatMap.mpr ⟨_,mem_map_of_mem present,inside⟩
  rw [equal,finalEqual] at le
  rw [le_antisymm atMost le]
  exact isFront.mem

theorem mem_blocksWith_last (ends : EndsAt lastId side) (positive : 0 < numEqual currentEl side.it) :
    decide (lastId ∈ blocksWith currentEl side.pending) = endsEqual currentEl side.it := by
  have heads := starts_of_mem (isFront.fillable inv atMost)
  have some : side.it ≠ [] := by
    intro none
    simp [numEqual,none] at positive
  obtain ⟨init,final,it⟩ := eq_nil_or_concat' side.it |>.resolve_left some
  have finalMember : final ∈ side.it := by simp [it]
  have finalId : final.id = lastId := ends final (by simp [it])
  have ended : endsEqual currentEl side.it = starts currentEl final := by simp [endsEqual,it]
  rw [ended,← heads final finalMember,decide_eq_decide,mem_blocksWith]
  have present : ofBlock final ∈ side.currentBlocks ++ side.it.map ofBlock :=
    mem_append_right _ (mem_map_of_mem finalMember)
  constructor
  · rintro ⟨item,member,rfl,same⟩
    rw [pending_blocks] at member
    obtain ⟨block,blockMember,inside,first⟩ := fst_mem_items member
    have equal := inj_on_of_nodup_map (nodup_blocks inv.ids) blockMember present
      (by rw [← first,same,← finalId]; rfl)
    rw [equal] at inside
    exact key_mem inside
  · intro member
    obtain ⟨item,inside,equal⟩ := exists_item (ofBlock final) member
    refine ⟨item,?_,equal,?_⟩
    · rw [pending_blocks]
      exact mem_flatMap.mpr ⟨_,present,inside⟩
    · obtain ⟨it,_,rfl⟩ := List.mem_map.mp inside
      exact finalId

end

theorem doubled_currentEl {left right : JoinSide κ} {frontLeft frontRight : BlockAndSubrange κ} {reachLeft reachRight : κ}
    {lastLeft lastRight : Nat} (isLeft : Front left frontLeft reachLeft) (isRight : Front right frontRight reachRight)
    (invLeft : SideInv config left) (invRight : SideInv config right) (endsLeft : EndsAt lastLeft left)
    (endsRight : EndsAt lastRight right) (atMostLeft : currentEl ≤ reachLeft) (atMostRight : currentEl ≤ reachRight)
    (some : left.equalItems currentEl ≠ []) :
    doubled lastLeft lastRight currentEl left.pending right.pending =
      (incomplete (numEqual currentEl left.it) (endsEqual currentEl left.it) (numEqual currentEl right.it)
        (endsEqual currentEl right.it) && spills currentEl right.pending) := by
  have cardLeft := card_currentEl isLeft invLeft atMostLeft
  have cardRight := card_currentEl isRight invRight atMostRight
  have nonempty : blocksWith currentEl left.pending ≠ ∅ := by
    obtain ⟨item,member⟩ := exists_mem_of_ne_nil _ some
    obtain ⟨inside,equal⟩ := mem_filter.mp member
    apply Finset.ne_empty_of_mem (a := item.1)
    rw [mem_blocksWith]
    exact ⟨item,inside,by simpa using equal,rfl⟩
  have positiveLeft : 0 < (blocksWith currentEl left.pending).card := Finset.card_pos.mpr (Finset.nonempty_iff_ne_empty.mpr nonempty)
  rcases Nat.eq_zero_or_pos (numEqual currentEl right.it) with none | positive
  · have few : ¬ fetchBlocks < (blocksWith currentEl right.pending).card := by
      rw [cardRight,none]
      split <;> simp [fetchBlocks]
    have noFetch : ¬ fetchBlocks ≤ numEqual currentEl right.it := by simp [none,fetchBlocks]
    rw [doubled,decide_eq_false few,incomplete,decide_eq_false noFetch]
    simp
  · rw [if_pos (isRight.mem_of_numEqual invRight atMostRight positive)] at cardRight
    have endRight := mem_blocksWith_last isRight invRight atMostRight endsRight positive
    have before : (decide ((blocksWith currentEl left.pending).card < (blocksWith currentEl right.pending).card) ||
        (decide ((blocksWith currentEl left.pending).card = (blocksWith currentEl right.pending).card) &&
          decide (lastLeft ∈ blocksWith currentEl left.pending))) =
        (decide (numEqual currentEl left.it < numEqual currentEl right.it) ||
          (decide (numEqual currentEl left.it = numEqual currentEl right.it) && endsEqual currentEl left.it)) := by
      rcases Nat.eq_zero_or_pos (numEqual currentEl left.it) with noneLeft | someLeft
      · have one : (blocksWith currentEl left.pending).card = 1 := by
          rw [noneLeft] at cardLeft
          split at cardLeft <;> omega
        have less : numEqual currentEl left.it < numEqual currentEl right.it := by omega
        have less' : (blocksWith currentEl left.pending).card < (blocksWith currentEl right.pending).card := by omega
        simp [less,less']
      · rw [if_pos (isLeft.mem_of_numEqual invLeft atMostLeft someLeft)] at cardLeft
        rw [mem_blocksWith_last isLeft invLeft atMostLeft endsLeft someLeft,cardLeft,cardRight]
        simp
    have counts : (decide (fetchBlocks < (blocksWith currentEl right.pending).card) &&
        decide ((blocksWith currentEl right.pending).card % fetchBlocks = 1)) =
        (decide (fetchBlocks ≤ numEqual currentEl right.it) && decide (numEqual currentEl right.it % fetchBlocks = 0)) := by
      rw [cardRight,← Bool.decide_and,← Bool.decide_and,decide_eq_decide]
      simp only [fetchBlocks]
      omega
    rw [doubled,counts,decide_not,endRight,before,decide_eq_true nonempty,incomplete]
    generalize decide (fetchBlocks ≤ numEqual currentEl right.it) = a
    generalize decide (numEqual currentEl right.it % fetchBlocks = 0) = b
    generalize endsEqual currentEl right.it = c
    generalize spills currentEl right.pending = d
    cases a <;> cases b <;> cases c <;> cases d <;> simp

end Round

/-- The rows of `left` that get a second, optional row in a run. -/
def extraRows (config : Config κ) (lastLeft lastRight : Nat) (undefRight left right : List (Item κ)) : List (Item κ) :=
  if config.doOptionalJoin && undefRight.isEmpty then left.filter (fun item => doubled lastLeft lastRight (key item) left right) else []

theorem extraRows_exhausted {config : Config κ} {lastLeft lastRight : Nat} {undefRight left right : List (Item κ)}
    (oneEmpty : left = [] ∨ right = []) : extraRows config lastLeft lastRight undefRight left right = [] := by
  rcases oneEmpty with none | none
  · simp [extraRows,none]
  · simp [extraRows,none,doubled,blocksWith,fetchBlocks]

def beyond (right : List (Item κ)) (item : Item κ) : Bool := right.all (fun other => key other < key item)

/-- The rows of `left` for which no optional row is added: when `right` is exhausted, `addRemainingUndefPairs` consumes all blocks of
`left` except for the one in the buffer. -/
def lost (config : Config κ) (left right : List (Item κ)) (item : Item κ) : Bool :=
  config.potentiallyHasUndef && beyond right item && (left.filter (beyond right)).head?.any (fun first => first.1 ≠ item.1)

/-- The rows of `left` without a partner that are not lost. -/
def keptRows (config : Config κ) (undefRight left right : List (Item κ)) : List (Item κ) :=
  (optionalItems config.doOptionalJoin undefRight left right).filter (fun item => !lost config left right item)

section Lost
variable {config : Config κ} {right : List (Item κ)}

theorem optionalItems_subset {doOptionalJoin : Bool} {undefRight left : List (Item κ)} :
    optionalItems doOptionalJoin undefRight left right ⊆ left := by
  intro item member
  unfold optionalItems at member
  split at member
  · exact (mem_filter.mp member).1
  · cases member

theorem keptRows_eq (plain : config.doOptionalJoin = true → config.potentiallyHasUndef = false) (undefRight left right : List (Item κ)) :
    keptRows config undefRight left right = optionalItems config.doOptionalJoin undefRight left right := by
  cases optional : config.doOptionalJoin with
  | false => simp [keptRows,optionalItems,optional]
  | true =>
    have none : ∀ item,lost config left right item = false := by simp [lost,plain optional]
    simp [keptRows,none,optional]

variable {currentEl : κ}

theorem beyond_round (reached : ∃ item ∈ right,currentEl ≤ key item) (item : Item κ) :
    beyond right item = (decide (currentEl < key item) && beyond (right.filter (fun item => currentEl < key item)) item) := by
  obtain ⟨largest,member,atLeast⟩ := reached
  rw [Bool.eq_iff_iff]
  simp only [beyond,all_eq_true,decide_eq_true_eq,Bool.and_eq_true,mem_filter]
  constructor
  · intro larger
    exact ⟨atLeast.trans_lt (larger largest member),fun other inside => larger other inside.1⟩
  · intro larger other inside
    rcases lt_or_ge currentEl (key other) with above | below
    · exact larger.2 other ⟨inside,above⟩
    · exact below.trans_lt larger.1

theorem lost_round {left : List (Item κ)} (reached : ∃ item ∈ right,currentEl ≤ key item) (item : Item κ) :
    lost config left right item = (decide (currentEl < key item) &&
      lost config (left.filter (fun item => currentEl < key item)) (right.filter (fun item => currentEl < key item)) item) := by
  have rows : left.filter (beyond right) = (left.filter (fun item => currentEl < key item)).filter
      (beyond (right.filter (fun item => currentEl < key item))) := by
    rw [filter_filter]
    apply filter_congr
    intro other _
    rw [beyond_round reached,Bool.and_comm]
  rw [lost,lost,rows,beyond_round reached]
  cases config.potentiallyHasUndef <;> cases decide (currentEl < key item) <;> simp

theorem kept_sums {left : List (Item κ)} {less equal above undefRight : List (Item κ)}
    (reached : ∃ item ∈ right,currentEl ≤ key item) (atMost : ∀ item ∈ less ++ equal,key item ≤ currentEl)
    (larger : ∀ item ∈ above,currentEl < key item)
    (split : optionalItems config.doOptionalJoin undefRight left right = less ++ (equal ++ above))
    (later : optionalItems config.doOptionalJoin undefRight (left.filter (fun item => currentEl < key item))
      (right.filter (fun item => currentEl < key item)) = above) :
    keptRows config undefRight left right = less ++ (equal ++ keptRows config undefRight (left.filter (fun item => currentEl < key item))
      (right.filter (fun item => currentEl < key item))) := by
  have first : (less ++ equal).filter (fun item => !lost config left right item) = less ++ equal := by
    rw [filter_eq_self]
    intro item member
    rw [lost_round reached,decide_eq_false (not_lt.mpr (atMost item member))]
    rfl
  have second : above.filter (fun item => !lost config left right item) = above.filter (fun item => !lost config
      (left.filter (fun item => currentEl < key item)) (right.filter (fun item => currentEl < key item)) item) := by
    apply filter_congr
    intro item member
    rw [lost_round reached,decide_eq_true (larger item member),Bool.true_and]
  rw [keptRows,split,← append_assoc,filter_append,first,second,keptRows,later,append_assoc]

end Lost

/-- A side whose buffer was filled by `fillWithAtLeastOne`. -/
structure Buffered (side : JoinSide κ) : Prop where
  length : side.currentBlocks.length ≤ 1
  nonempty : ∀ block ∈ side.currentBlocks,block.elements ≠ []
  ids : side.ids.Nodup
  none : side.currentBlocks = [] → side.pending = []

section Run
variable {config : Config κ} {side : JoinSide κ}

omit [LinearOrder κ] in
theorem Buffered.filter_first (buffered : Buffered side) :
    side.pending.filter (fun item => !side.pending.head?.any (fun first => first.1 ≠ item.1)) = items side.currentBlocks := by
  cases current : side.currentBlocks with
  | nil => simp [buffered.none current]
  | cons front later =>
    have single : later = [] := by
      have length := buffered.length
      rw [current,length_cons] at length
      exact length_eq_zero_iff.mp (by omega)
    subst single
    obtain ⟨item,inside⟩ := exists_mem_of_ne_nil _ (buffered.nonempty front (by simp [current]))
    have inFront : ∀ item ∈ front.items,item.1 = front.fullBlock := by
      intro item member
      obtain ⟨it,_,rfl⟩ := List.mem_map.mp member
      rfl
    have notInFront : ∀ item ∈ rest side.it,item.1 ≠ front.fullBlock := by
      intro item member same
      obtain ⟨block,present,_,first⟩ := fst_mem_items member
      have apart := (nodup_append.mp buffered.ids).2.2 front.fullBlock (by simp [current]) block.fullBlock
        (by rw [← ids_ofBlock]; exact mem_map_of_mem present)
      exact apart (same.symm.trans first)
    obtain ⟨first,tail,items⟩ := exists_cons_of_ne_nil (fun none => ne_nil_of_mem (exists_item front inside).choose_spec.1 none :
      front.items ≠ [])
    have isFirst : first.1 = front.fullBlock := inFront first (by simp [items])
    have head : side.pending.head? = some first := by simp [JoinSide.pending,current,items]
    have keeps : front.items.filter (fun item => !side.pending.head?.any (fun first => first.1 ≠ item.1)) = front.items := by
      rw [filter_eq_self]
      intro item member
      simp [head,isFirst,inFront item member]
    have drops : (rest side.it).filter (fun item => !side.pending.head?.any (fun first => first.1 ≠ item.1)) = [] := by
      rw [filter_eq_nil_iff]
      intro item member
      have apart := notInFront item member
      simp [head,isFirst,Ne.symm apart]
    have pending : side.pending = front.items ++ rest side.it := by simp [JoinSide.pending,current]
    conv_lhs => arg 2; rw [pending]
    rw [filter_append,keeps,drops]
    simp

variable {left : JoinSide κ}

theorem Buffered.keptRows (buffered : Buffered left) (potential : config.potentiallyHasUndef = true)
    (undefRight right : List (Item κ)) (exhausted : left.pending = [] ∨ right = []) :
    keptRows config undefRight left.pending right = if config.doOptionalJoin && undefRight.isEmpty then items left.currentBlocks else [] := by
  cases on : (config.doOptionalJoin && undefRight.isEmpty) with
  | false => simp [BlockZipperJoin.keptRows,optionalItems,on]
  | true =>
    rw [if_pos rfl,← buffered.filter_first]
    rcases exhausted with none | none
    · simp [BlockZipperJoin.keptRows,optionalItems,none]
    · subst none
      have all : beyond ([] : List (Item κ)) = fun _ => true := by
        funext item
        rfl
      simp [BlockZipperJoin.keptRows,optionalItems,on,unmatched,lost,potential,all]

theorem finish_emits (impl : Impl κ) (undefsLeft : Undefs config impl.leftSide.undefBlocks)
    (undefsRight : Undefs config impl.rightSide.undefBlocks) (buffered : Buffered impl.leftSide)
    (exhausted : impl.leftSide.pending = [] ∨ impl.rightSide.pending = []) :
    Emits impl.compatibleRowAction
      (if config.doOptionalJoin && !hasUndef config (addRemainingUndefPairs config impl).rightSide then
        fillWithAllFromLeft (addRemainingUndefPairs config impl).leftSide (addRemainingUndefPairs config impl).compatibleRowAction
        else (addRemainingUndefPairs config impl).compatibleRowAction)
      (joined (items impl.leftSide.undefBlocks) (items impl.rightSide.undefBlocks) impl.leftSide.pending impl.rightSide.pending)
      (keptRows config (items impl.rightSide.undefBlocks) impl.leftSide.pending impl.rightSide.pending) := by
  have noPairs : equalPairs impl.leftSide.pending impl.rightSide.pending = [] := by
    rcases exhausted with none | none
    · rw [none]
      rfl
    · rw [none]
      exact nestedLoop_false _ _ _ (by simp)
  rw [joined,noPairs,nil_append]
  cases potential : config.potentiallyHasUndef with
  | false =>
    have noLeft : items impl.leftSide.undefBlocks = [] := by
      have noUndef : hasUndef config impl.leftSide = false := by simp [hasUndef,potential]
      simpa [hasUndef_eq undefsLeft] using noUndef
    have noRight : items impl.rightSide.undefBlocks = [] := by
      have noUndef : hasUndef config impl.rightSide = false := by simp [hasUndef,potential]
      simpa [hasUndef_eq undefsRight] using noUndef
    have unchanged : addRemainingUndefPairs config impl = impl := by simp [addRemainingUndefPairs,potential]
    rw [unchanged,noLeft,noRight,hasUndef_eq undefsRight,noRight,keptRows_eq (fun _ => potential)]
    cases optional : config.doOptionalJoin with
    | false => simpa [optionalItems] using Emits.refl impl.compatibleRowAction
    | true =>
      have all : impl.leftSide.pending.filter (unmatched impl.rightSide.pending) = impl.leftSide.pending := by
        rcases exhausted with none | none
        · simp [none]
        · simp [none,unmatched]
      have rows := (addOptionalRows_emits impl.leftSide.currentBlocks impl.compatibleRowAction).trans
        (addOptionalRows_emits (impl.leftSide.it.map ofBlock) _)
      rw [optionalItems,all]
      simpa [fillWithAllFromLeft,JoinSide.pending,rest] using rows
  | true =>
    have unfolded : addRemainingUndefPairs config impl =
        ⟨{impl.leftSide with it := []},{impl.rightSide with it := []},consumeRemainingBlocks true impl.rightSide.it impl.leftSide.undefBlocks
          (addCartesianProduct impl.leftSide.undefBlocks impl.rightSide.currentBlocks
            (consumeRemainingBlocks false impl.leftSide.it impl.rightSide.undefBlocks
              (addCartesianProduct impl.leftSide.currentBlocks impl.rightSide.undefBlocks impl.compatibleRowAction)))⟩ := by
      simp [addRemainingUndefPairs,potential]
    have first := (addCartesianProduct_emits impl.leftSide.currentBlocks impl.rightSide.undefBlocks impl.compatibleRowAction).trans
      (consumeRemainingBlocks_emits impl.leftSide.it impl.rightSide.undefBlocks _)
    have second := (addCartesianProduct_emits impl.leftSide.undefBlocks impl.rightSide.currentBlocks
      (consumeRemainingBlocks false impl.leftSide.it impl.rightSide.undefBlocks
        (addCartesianProduct impl.leftSide.currentBlocks impl.rightSide.undefBlocks impl.compatibleRowAction))).trans
      (consumeRemainingBlocks_reversed_emits impl.rightSide.it impl.leftSide.undefBlocks _)
    have undefPairs : Emits impl.compatibleRowAction (addRemainingUndefPairs config impl).compatibleRowAction
        (product impl.leftSide.pending (items impl.rightSide.undefBlocks) ++ product (items impl.leftSide.undefBlocks) impl.rightSide.pending) [] := by
      rw [unfolded]
      apply (first.trans second).perm _ (List.Perm.refl _)
      apply List.Perm.append
      · exact List.Perm.of_eq (nestedLoop_append_left _ _ _ _).symm
      · exact (nestedLoop_append_right _ _ _ _).symm
    have sameUndefs : Undefs config (addRemainingUndefPairs config impl).rightSide.undefBlocks := by
      rw [unfolded]
      exact undefsRight
    rw [buffered.keptRows potential _ _ exhausted,hasUndef_eq sameUndefs,unfolded,Bool.not_not]
    rw [unfolded] at undefPairs
    split
    next optional =>
      have rows := undefPairs.trans (addOptionalRows_emits impl.leftSide.currentBlocks _)
      rw [append_nil,nil_append] at rows
      simpa [fillWithAllFromLeft,addOptionalRows] using rows
    next => exact undefPairs

variable {lastLeft lastRight : Nat}

theorem cut_pending {its : List (Item κ)} (sorted : SortedItems its) (currentEl : κ) :
    its.filter (fun item => key item < currentEl) ++ (its.filter (fun item => key item = currentEl) ++
      its.filter (fun item => currentEl < key item)) = its := by
  have outer := filter_lt_append_filter_le key currentEl sorted
  have sortedAbove : SortedItems (its.filter (fun item => currentEl ≤ key item)) := sorted.sublist filter_sublist
  have inner := filter_equal_append_filter_lt sortedAbove (fun item member => by simpa using (mem_filter.mp member).2)
  have equal : (its.filter (fun item => currentEl ≤ key item)).filter (fun item => key item = currentEl) =
      its.filter (fun item => key item = currentEl) := by
    rw [filter_filter]
    apply filter_congr
    intro item _
    rw [Bool.eq_iff_iff]
    simpa using fun same : key item = currentEl => same.ge
  have above : (its.filter (fun item => currentEl ≤ key item)).filter (fun item => currentEl < key item) =
      its.filter (fun item => currentEl < key item) := by
    rw [filter_filter]
    apply filter_congr
    intro item _
    rw [Bool.eq_iff_iff]
    simpa using fun less : currentEl < key item => less.le
  rw [equal,above] at inner
  rw [inner,outer]

theorem doubled_below {front : BlockAndSubrange κ} {last value currentEl : κ} (isFront : Front side front last)
    (inv : SideInv config side) (atMost : currentEl ≤ last) (below : value < currentEl) (left : List (Item κ)) :
    doubled lastLeft lastRight value left side.pending = false := by
  have only : blocksWith value side.pending ⊆ {front.fullBlock} := by
    intro id member
    obtain ⟨item,inside,equal,same⟩ := mem_blocksWith.mp member
    rcases mem_append.mp inside with current | later
    · rw [isFront.current] at current
      obtain ⟨block,present,_,first⟩ := fst_mem_items current
      rw [Finset.mem_singleton,← same,first,mem_singleton.mp present]
    · have atLeast := (isFront.fillable inv atMost).least item later
      rw [equal] at atLeast
      exact absurd below atLeast.not_gt
  have few : ¬ fetchBlocks < (blocksWith value side.pending).card := by
    have card := Finset.card_le_card only
    simp only [Finset.card_singleton] at card
    simp only [fetchBlocks]
    omega
  rw [doubled,decide_eq_false few]
  simp

variable {right : JoinSide κ}

theorem round_sums (sortedLeft : SortedItems left.pending) (sortedRight : SortedItems right.pending)
    (currentEl : κ) (undefLeft undefRight : List (Item κ)) (doOptionalJoin : Bool) :
    (joined undefLeft undefRight left.pending right.pending).Perm
      ((joined undefLeft undefRight (left.lessItems currentEl) (right.lessItems currentEl) ++
        joined undefLeft undefRight (left.equalItems currentEl) (right.equalItems currentEl)) ++
        joined undefLeft undefRight (left.pending.filter (fun item => currentEl < key item))
          (right.pending.filter (fun item => currentEl < key item))) ∧
    optionalItems doOptionalJoin undefRight left.pending right.pending =
      optionalItems doOptionalJoin undefRight (left.lessItems currentEl) (right.lessItems currentEl) ++
        (optionalItems doOptionalJoin undefRight (left.equalItems currentEl) (right.equalItems currentEl) ++
          optionalItems doOptionalJoin undefRight (left.pending.filter (fun item => currentEl < key item))
            (right.pending.filter (fun item => currentEl < key item))) := by
  have cutLeft := cut_pending sortedLeft currentEl
  have cutRight := cut_pending sortedRight currentEl
  have lessThanRest : ∀ {first second : JoinSide κ},∀ x ∈ first.lessItems currentEl,∀ y ∈ second.equalItems currentEl ++
      second.pending.filter (fun item => currentEl < key item),key x < key y := by
    intro first second x hx y hy
    have less : key x < currentEl := by simpa using (mem_filter.mp hx).2
    rcases mem_append.mp hy with equal | above
    · rw [equalItems_key second currentEl y equal]
      exact less
    · exact less.trans (by simpa using (mem_filter.mp above).2)
  have equalThanRest : ∀ {first second : JoinSide κ},∀ x ∈ first.equalItems currentEl,∀ y ∈
      second.pending.filter (fun item => currentEl < key item),key x < key y := by
    intro first second x hx y hy
    rw [equalItems_key first currentEl x hx]
    simpa using (mem_filter.mp hy).2
  have outer : ∀ x ∈ left.lessItems currentEl,∀ y ∈ right.equalItems currentEl ++
      right.pending.filter (fun item => currentEl < key item),key x ≠ key y := fun x hx y hy => (lessThanRest x hx y hy).ne
  have outer' : ∀ x ∈ left.equalItems currentEl ++ left.pending.filter (fun item => currentEl < key item),
      ∀ y ∈ right.lessItems currentEl,key x ≠ key y := fun x hx y hy => (lessThanRest y hy x hx).ne'
  have inner : ∀ x ∈ left.equalItems currentEl,∀ y ∈ right.pending.filter (fun item => currentEl < key item),
      key x ≠ key y := fun x hx y hy => (equalThanRest x hx y hy).ne
  have inner' : ∀ x ∈ left.pending.filter (fun item => currentEl < key item),∀ y ∈ right.equalItems currentEl,
      key x ≠ key y := fun x hx y hy => (equalThanRest y hy x hx).ne'
  constructor
  · nth_rewrite 1 [← cutLeft,← cutRight]
    apply (joined_split undefLeft undefRight outer outer').trans
    rw [append_assoc]
    exact (joined_split undefLeft undefRight inner inner').append_left _
  · nth_rewrite 1 [← cutLeft,← cutRight]
    rw [← optionalItems_split undefRight doOptionalJoin inner inner']
    exact optionalItems_split undefRight doOptionalJoin outer outer'

section
variable {left right : JoinSide κ} {frontLeft frontRight : BlockAndSubrange κ} {reachLeft reachRight : κ}

theorem extra_sums {currentEl : κ}
    (isLeft : Front left frontLeft reachLeft) (isRight : Front right frontRight reachRight)
    (invLeft : SideInv config left) (invRight : SideInv config right) (endsLeft : EndsAt lastLeft left)
    (endsRight : EndsAt lastRight right) (atMostLeft : currentEl ≤ reachLeft) (atMostRight : currentEl ≤ reachRight) :
    extraRows config lastLeft lastRight (items right.undefBlocks) left.pending right.pending =
      extraItems config currentEl left right ++ extraRows config lastLeft lastRight (items right.undefBlocks)
        (left.pending.filter (fun item => currentEl < key item)) (right.pending.filter (fun item => currentEl < key item)) := by
  cases on : (config.doOptionalJoin && (items right.undefBlocks).isEmpty) with
  | false => simp [extraRows,extraItems,on]
  | true =>
    have cut := cut_pending invLeft.sorted currentEl
    have below : (left.pending.filter (fun item => key item < currentEl)).filter
        (fun item => doubled lastLeft lastRight (key item) left.pending right.pending) = [] := by
      rw [filter_eq_nil_iff]
      intro item member
      have less : key item < currentEl := by simpa using (mem_filter.mp member).2
      simp [doubled_below isRight invRight atMostRight less]
    have above : (left.pending.filter (fun item => currentEl < key item)).filter
        (fun item => doubled lastLeft lastRight (key item) left.pending right.pending) =
        (left.pending.filter (fun item => currentEl < key item)).filter (fun item => doubled lastLeft lastRight (key item)
          (left.pending.filter (fun item => currentEl < key item)) (right.pending.filter (fun item => currentEl < key item))) := by
      apply filter_congr
      intro item member
      have more : currentEl < key item := by simpa using (mem_filter.mp member).2
      rw [doubled_filter more]
    have equal : (left.equalItems currentEl).filter (fun item => doubled lastLeft lastRight (key item) left.pending right.pending) =
        extraItems config currentEl left right := by
      rw [extraItems,on,Bool.true_and]
      cases some : left.equalItems currentEl with
      | nil => simp
      | cons item later =>
        rw [← some,← doubled_currentEl isLeft isRight invLeft invRight endsLeft endsRight atMostLeft atMostRight (by simp [some])]
        have same : (left.equalItems currentEl).filter (fun item => doubled lastLeft lastRight (key item) left.pending right.pending) =
            (left.equalItems currentEl).filter (fun _ => doubled lastLeft lastRight currentEl left.pending right.pending) := by
          apply filter_congr
          intro item member
          rw [equalItems_key left currentEl item member]
        rw [same]
        cases doubled lastLeft lastRight currentEl left.pending right.pending <;> simp
    simp only [extraRows,on,if_true]
    conv_lhs => rw [← cut]
    rw [filter_append,filter_append,cut,below,above,nil_append]
    congr 1

theorem getCurrentEl_eq (isLeft : Front left frontLeft reachLeft) (isRight : Front right frontRight reachRight) (action : RowAction) :
    getCurrentEl ⟨left,right,action⟩ = .ok (min reachLeft reachRight) := by
  simp [getCurrentEl,getFirst_eq isLeft.current isLeft.getLast,getFirst_eq isRight.current isRight.getLast,
    bind,Except.bind,pure,Except.pure]

end

theorem fillBuffer_eq (impl : Impl κ) (lengthLeft : impl.leftSide.currentBlocks.length ≤ 1)
    (lengthRight : impl.rightSide.currentBlocks.length ≤ 1) (fillLeft : fillWithAtLeastOne impl.leftSide = .ok left)
    (fillRight : fillWithAtLeastOne impl.rightSide = .ok right) :
    fillBuffer impl = if left.currentBlocks.isEmpty || right.currentBlocks.isEmpty then
        .ok (⟨left,right,impl.compatibleRowAction⟩,.allFilled)
      else (getCurrentEl ⟨left,right,impl.compatibleRowAction⟩).bind (fun currentEl =>
        fillEqualToCurrentElBothSides currentEl (left.it.length + right.it.length + 1) ⟨left,right,impl.compatibleRowAction⟩) := by
  simp [fillBuffer,check,lengthLeft,lengthRight,fillLeft,fillRight,bind,Except.bind,pure,Except.pure]

theorem joinRounds_exhausted
    (impl : Impl κ) (buffered : Buffered left) (lengthLeft : impl.leftSide.currentBlocks.length ≤ 1) (lengthRight : impl.rightSide.currentBlocks.length ≤ 1)
    (fillLeft : fillWithAtLeastOne impl.leftSide = .ok left) (fillRight : fillWithAtLeastOne impl.rightSide = .ok right)
    (undefsLeft : Undefs config left.undefBlocks) (undefsRight : Undefs config right.undefBlocks)
    (exhausted : (left.currentBlocks.isEmpty || right.currentBlocks.isEmpty) = true)
    (oneEmpty : left.pending = [] ∨ right.pending = []) (fuel : Nat) :
    ∃ impl',joinRounds config (fuel + 1) impl = .ok impl' ∧ Emits impl.compatibleRowAction impl'.compatibleRowAction
      (joined (items left.undefBlocks) (items right.undefBlocks) left.pending right.pending)
      (keptRows config (items right.undefBlocks) left.pending right.pending) := by
  have buffer := fillBuffer_eq impl lengthLeft lengthRight fillLeft fillRight
  have emits := finish_emits ⟨left,right,impl.compatibleRowAction⟩ undefsLeft undefsRight buffered oneEmpty
  rw [exhausted,if_pos rfl] at buffer
  rw [joinRounds,buffer]
  simp only [bind,Except.bind,exhausted,if_true,pure,Except.pure]
  split
  next optional =>
    rw [if_pos optional] at emits
    exact ⟨_,rfl,emits⟩
  next optional =>
    rw [if_neg optional] at emits
    exact ⟨_,rfl,emits⟩

/-- A side after `fillWithAtLeastOne`. -/
structure Refilled (config : Config κ) (side side' : JoinSide κ) : Prop where
  run : fillWithAtLeastOne side = .ok side'
  inv : SideInv config side'
  advanced : Advanced side side'
  pending : side'.pending = side.pending
  none : side'.currentBlocks = [] → side'.pending = []

theorem SideInv.refilled (inv : SideInv config side) : ∃ side',Refilled config side side' := by
  obtain ⟨side',run,inv',advanced,pending,none⟩ := fillWithAtLeastOne_spec inv
  exact ⟨side',run,inv',advanced,pending,none⟩

theorem Refilled.buffered {side' : JoinSide κ} (refilled : Refilled config side side') : Buffered side' :=
  ⟨refilled.inv.length,refilled.inv.nonempty,refilled.inv.ids,refilled.none⟩

structure RoundTo (config : Config κ) (currentEl : κ) (impl impl' : Impl κ) : Prop where
  done : RoundDone config currentEl impl impl'
  invLeft : SideInv config impl'.leftSide
  invRight : SideInv config impl'.rightSide
  frontLeft : ∃ front last,Front impl.leftSide front last ∧ currentEl ≤ last
  frontRight : ∃ front last,Front impl.rightSide front last ∧ currentEl ≤ last
  shorter : impl'.leftSide.pending.length + impl'.rightSide.pending.length < impl.leftSide.pending.length + impl.rightSide.pending.length

theorem joinRounds_step (lawful : config.Lawful) (impl : Impl κ) (filledLeft : Refilled config impl.leftSide left)
    (filledRight : Refilled config impl.rightSide right) (lengthLeft : impl.leftSide.currentBlocks.length ≤ 1)
    (lengthRight : impl.rightSide.currentBlocks.length ≤ 1) :
    ((left.currentBlocks.isEmpty || right.currentBlocks.isEmpty) = true ∧ (left.pending = [] ∨ right.pending = [])) ∨
    ∃ currentEl impl',RoundTo config currentEl ⟨left,right,impl.compatibleRowAction⟩ impl' ∧
      ∀ fuel,joinRounds config (fuel + 1) impl = joinRounds config fuel impl' := by
  have buffer := fillBuffer_eq impl lengthLeft lengthRight filledLeft.run filledRight.run
  cases exhausted : (left.currentBlocks.isEmpty || right.currentBlocks.isEmpty) with
  | true =>
    refine Or.inl ⟨rfl,?_⟩
    rcases Bool.or_eq_true_iff.mp exhausted with none | none
    · exact Or.inl (filledLeft.none (List.isEmpty_iff.mp none))
    · exact Or.inr (filledRight.none (List.isEmpty_iff.mp none))
  | false =>
    rw [exhausted,if_neg Bool.false_ne_true] at buffer
    obtain ⟨someLeft,someRight⟩ := Bool.or_eq_false_iff.mp exhausted
    obtain ⟨currentEl,impl₁,status,impl₂,current,fill,stillLeft,stillRight,buffers,done,present⟩ := round_spec lawful
      ⟨left,right,impl.compatibleRowAction⟩ filledLeft.inv filledRight.inv (by simpa using someLeft) (by simpa using someRight)
    obtain ⟨frontLeft,reachLeft,isLeft⟩ := filledLeft.inv.front (by simpa using someLeft)
    obtain ⟨frontRight,reachRight,isRight⟩ := filledRight.inv.front (by simpa using someRight)
    have minimum := (getCurrentEl_eq isLeft isRight impl.compatibleRowAction).symm.trans current
    injection minimum with minimum
    have clearedLeft := done.left
    have clearedRight := done.right
    refine Or.inr ⟨currentEl,impl₂,⟨done,?_,?_,⟨frontLeft,reachLeft,isLeft,minimum ▸ min_le_left _ _⟩,
      ⟨frontRight,reachRight,isRight,minimum ▸ min_le_right _ _⟩,?_⟩,?_⟩
    · exact filledLeft.inv.advance clearedLeft.advanced (by rw [clearedLeft.pending]; exact filter_sublist) clearedLeft.length clearedLeft.nonempty
    · exact filledRight.inv.advance clearedRight.advanced (by rw [clearedRight.pending]; exact filter_sublist) clearedRight.length
        clearedRight.nonempty
    · have atMostLeft := length_filter_le (fun item : Item κ => decide (currentEl < key item)) left.pending
      have atMostRight := length_filter_le (fun item : Item κ => decide (currentEl < key item)) right.pending
      have fewer : ∀ its : List (Item κ),currentEl ∈ its.map key → (its.filter (fun item => currentEl < key item)).length < its.length := by
        intro its member
        obtain ⟨item,inside,equal⟩ := List.mem_map.mp member
        rw [length_filter_lt_length_iff_exists]
        exact ⟨item,inside,by simp [equal]⟩
      rw [clearedLeft.pending,clearedRight.pending]
      rcases present with inside | inside
      · have less := fewer left.pending inside
        simp only
        omega
      · have less := fewer right.pending inside
        simp only
        omega
    · intro fuel
      have again : (impl₁.leftSide.currentBlocks.isEmpty || impl₁.rightSide.currentBlocks.isEmpty) = false := by
        simp [stillLeft,stillRight]
      rw [joinRounds,buffer,current]
      simp only [bind,Except.bind,fill,again,Bool.false_eq_true,if_false,buffers]

theorem RoundTo.reached {currentEl : κ} {impl impl' : Impl κ} (round : RoundTo config currentEl impl impl') :
    (∃ item ∈ impl.leftSide.pending,currentEl ≤ key item) ∧ ∃ item ∈ impl.rightSide.pending,currentEl ≤ key item := by
  obtain ⟨_,_,isLeft,atMostLeft⟩ := round.frontLeft
  obtain ⟨_,_,isRight,atMostRight⟩ := round.frontRight
  obtain ⟨x,insideLeft,equalLeft⟩ := List.mem_map.mp (isLeft.key_mem isLeft.mem)
  obtain ⟨y,insideRight,equalRight⟩ := List.mem_map.mp (isRight.key_mem isRight.mem)
  exact ⟨⟨x,insideLeft,equalLeft ▸ atMostLeft⟩,⟨y,insideRight,equalRight ▸ atMostRight⟩⟩

theorem joinRounds_spec (lawful : config.Lawful) (impl : Impl κ) (invLeft : SideInv config impl.leftSide) (invRight : SideInv config impl.rightSide)
    (endsLeft : EndsAt lastLeft impl.leftSide) (endsRight : EndsAt lastRight impl.rightSide) (fuel : Nat)
    (enough : impl.leftSide.pending.length + impl.rightSide.pending.length < fuel) :
    ∃ impl',joinRounds config fuel impl = .ok impl' ∧ Emits impl.compatibleRowAction impl'.compatibleRowAction
      (joined (items impl.leftSide.undefBlocks) (items impl.rightSide.undefBlocks) impl.leftSide.pending impl.rightSide.pending)
      (keptRows config (items impl.rightSide.undefBlocks) impl.leftSide.pending impl.rightSide.pending ++
        extraRows config lastLeft lastRight (items impl.rightSide.undefBlocks) impl.leftSide.pending impl.rightSide.pending) := by
  induction fuel generalizing impl with
  | zero => omega
  | succ fuel ih =>
    obtain ⟨left,filledLeft⟩ := invLeft.refilled
    obtain ⟨right,filledRight⟩ := invRight.refilled
    have endsLeft' := endsLeft.advance filledLeft.advanced
    have endsRight' := endsRight.advance filledRight.advanced
    rw [← filledLeft.pending,← filledRight.pending] at enough
    rw [← filledLeft.pending,← filledRight.pending,← filledLeft.advanced.undefBlocks,← filledRight.advanced.undefBlocks]
    rcases joinRounds_step lawful impl filledLeft filledRight invLeft.length invRight.length with ⟨exhausted,oneEmpty⟩ | ⟨currentEl,impl₂,round,next⟩
    · rw [extraRows_exhausted oneEmpty,append_nil]
      exact joinRounds_exhausted impl filledLeft.buffered invLeft.length invRight.length filledLeft.run filledRight.run
        filledLeft.inv.undefs filledRight.inv.undefs exhausted oneEmpty fuel
    · have clearedLeft := round.done.left
      have clearedRight := round.done.right
      obtain ⟨frontLeft,reachLeft,isLeft,atMostLeft⟩ := round.frontLeft
      obtain ⟨frontRight,reachRight,isRight,atMostRight⟩ := round.frontRight
      obtain ⟨impl',rest,emits⟩ := ih impl₂ round.invLeft round.invRight (endsLeft'.advance clearedLeft.advanced)
        (endsRight'.advance clearedRight.advanced) (by have less := round.shorter; simp only at less; omega)
      refine ⟨impl',(next fuel).trans rest,?_⟩
      rw [clearedLeft.pending,clearedRight.pending,clearedLeft.advanced.undefBlocks,clearedRight.advanced.undefBlocks] at emits
      obtain ⟨pairs,optional⟩ := round_sums filledLeft.inv.sorted filledRight.inv.sorted currentEl (items left.undefBlocks)
        (items right.undefBlocks) config.doOptionalJoin
      have extra := extra_sums isLeft isRight filledLeft.inv filledRight.inv endsLeft' endsRight' atMostLeft atMostRight
      have kept : keptRows config (items right.undefBlocks) left.pending right.pending = _ := kept_sums round.reached.2 (by
        intro item member
        rcases mem_append.mp member with below | same
        · exact (by simpa using (mem_filter.mp (optionalItems_subset below)).2 : key item < currentEl).le
        · exact (equalItems_key left currentEl item (optionalItems_subset same)).le) (by
        intro item member
        simpa using (mem_filter.mp (optionalItems_subset member)).2) optional rfl
      apply (round.done.emits.trans emits).perm pairs.symm
      rw [kept,extra]
      classical
      rw [perm_iff_count]
      intro item
      simp only [count_append]
      omega

end Run
end Qlever.BlockZipperJoin
