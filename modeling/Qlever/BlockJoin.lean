import Qlever.BlockZipperRun

/-! The joins of `JoinAlgorithms.h` on inputs that are given as blocks. The inputs are
sorted, and they are cut into blocks in any way.
-/
namespace Qlever.BlockZipperJoin
open ZipperJoin Library List
variable {κ : Type}

def elementAt (blocks : List (List κ)) (position : Nat × Nat) : Option κ :=
  match blocks[position.1]? with
  | none => none
  | some block => block[position.2]?

def inputItems (blocks : List (List κ)) : List (Item κ) := (makeJoinSide blocks).pending

section Items

theorem inputItems_eq (blocks : List (List κ)) :
    inputItems blocks = blocks.zipIdx.flatMap (fun pair => (iters 0 pair.1).map (Prod.mk pair.2)) := by
  simp [inputItems,makeJoinSide,JoinSide.pending,rest,items,flatMap_map,BlockAndSubrange.items,
    BlockAndSubrange.subrange,BlockAndSubrange.ofBlock]

theorem mem_inputItems (blocks : List (List κ)) (item : Item κ) :
    item ∈ inputItems blocks ↔ elementAt blocks (place item) = some (key item) := by
  obtain ⟨id,it⟩ := item
  rw [inputItems_eq]
  simp only [mem_flatMap,List.mem_map,Prod.mk.injEq,Prod.exists,elementAt,place,key]
  constructor
  · rintro ⟨block,index,member,it',inside,rfl,rfl⟩
    rw [mk_mem_zipIdx_iff_getElem?] at member
    rw [member]
    exact (mem_iters block it').mp inside
  · intro found
    split at found
    next => simp at found
    next block present =>
      exact ⟨block,id,mk_mem_zipIdx_iff_getElem?.mpr present,it,(mem_iters block it).mpr found,rfl,rfl⟩

theorem eq_of_place {blocks : List (List κ)} {x y : Item κ} (left : x ∈ inputItems blocks) (right : y ∈ inputItems blocks)
    (same : place x = place y) : x = y := by
  obtain ⟨id,row,pos⟩ := x
  obtain ⟨id',row',pos'⟩ := y
  rw [mem_inputItems] at left right
  rw [same,right] at left
  simp only [place,key,Prod.mk.injEq,Option.some_inj] at same left
  rw [same.1,same.2,left]

section
variable (blocks : List (List κ))

theorem nodup_inputItems : (inputItems blocks).Nodup := by
  rw [inputItems_eq,nodup_flatMap]
  constructor
  · intro pair _
    exact (nodup_iters 0 pair.1).map (Prod.mk_right_injective pair.2)
  · have indices : (blocks.zipIdx.map Prod.snd).Nodup := by
      rw [zipIdx_map_snd]
      exact nodup_range'
    apply (pairwise_map.mp indices).imp
    intro first second different item member member'
    obtain ⟨_,_,rfl⟩ := List.mem_map.mp member
    obtain ⟨_,_,same⟩ := List.mem_map.mp member'
    exact different (congrArg Prod.fst same).symm

theorem map_key_inputItems : (inputItems blocks).map key = blocks.flatten := by
  have rows : ∀ pair : List κ × Nat,((iters 0 pair.1).map (Prod.mk pair.2)).map key = pair.1 := by
    intro pair
    rw [map_map]
    exact map_row_iters 0 pair.1
  rw [inputItems_eq,map_flatMap]
  simp only [rows]
  rw [flatMap_def,zipIdx_map_fst]

theorem mem_flatten_iff (value : κ) :
    value ∈ blocks.flatten ↔ ∃ item ∈ inputItems blocks,key item = value := by
  rw [← map_key_inputItems,List.mem_map]

end

end Items

variable [LinearOrder κ]

def equalAt (left right : List (List κ)) (p q : Nat × Nat) : Bool :=
  match elementAt left p,elementAt right q with
  | some a,some b => a = b
  | _,_ => false

local instance lawfulKeys : LawfulBEq κ := inferInstance

/-- The row of `left` exists and its join value does not occur in `right`. -/
def unmatchedAt (left right : List (List κ)) (p : Nat × Nat) : Bool :=
  match elementAt left p with
  | some a => a ∉ right.flatten
  | none => false

section Counts

section
omit [LinearOrder κ]

theorem count_pairs (rel : κ → κ → Bool) (left right : List (List κ)) (p q : Nat × Nat) :
    ((nestedLoop (fun x y => rel (key x) (key y)) (inputItems left) (inputItems right)).map places).count (p,q) =
      if (match elementAt left p,elementAt right q with
        | some a,some b => rel a b
        | _,_ => false) then 1 else 0 := by
  apply count_of_mem_iff
  · apply List.Nodup.map_on _ (nodup_nestedLoop _ _ _ (nodup_inputItems left) (nodup_inputItems right))
    rintro ⟨x,y⟩ member ⟨x',y'⟩ member' same
    rw [mem_nestedLoop] at member member'
    obtain ⟨sameLeft,sameRight⟩ := Prod.mk.inj same
    rw [eq_of_place member.1 member'.1 sameLeft,eq_of_place member.2.1 member'.2.1 sameRight]
  · rw [List.mem_map]
    constructor
    · rintro ⟨⟨x,y⟩,member,same⟩
      obtain ⟨rfl,rfl⟩ := Prod.mk.inj same
      rw [mem_nestedLoop,mem_inputItems,mem_inputItems] at member
      rw [member.1,member.2.1]
      exact member.2.2
    · intro related
      split at related
      next a b first second =>
        refine ⟨((p.1,⟨a,p.2⟩),(q.1,⟨b,q.2⟩)),?_,rfl⟩
        rw [mem_nestedLoop,mem_inputItems,mem_inputItems]
        exact ⟨first,second,related⟩
      next => exact Bool.noConfusion related

theorem count_filter (test : κ → Bool) (left : List (List κ)) (p : Nat × Nat) :
    (((inputItems left).filter (fun item => test (key item))).map place).count p = if (elementAt left p).any test then 1 else 0 := by
  apply count_of_mem_iff
  · apply List.Nodup.map_on _ ((nodup_inputItems left).filter _)
    intro x member x' member' same
    exact eq_of_place (mem_filter.mp member).1 (mem_filter.mp member').1 same
  · simp only [List.mem_map,mem_filter,mem_inputItems,Option.any_eq_true]
    constructor
    · rintro ⟨x,⟨found,passes⟩,rfl⟩
      exact ⟨key x,found,passes⟩
    · rintro ⟨a,found,passes⟩
      exact ⟨(p.1,⟨a,p.2⟩),⟨found,passes⟩,rfl⟩

end

end Counts

section Start

section
omit [LinearOrder κ]

theorem size_eq (side : JoinSide κ) : side.size = side.pending.length := by
  have lengths : ∀ blocks : List (BlockAndSubrange κ),(items blocks).length = (blocks.map (·.elements.length)).sum := by
    intro blocks
    have each : ∀ block : BlockAndSubrange κ,block.items.length = block.elements.length := by
      intro block
      rw [← map_key_items block,length_map]
    simp only [items,length_flatMap,each]
  rw [JoinSide.size,JoinSide.pending,rest,length_append,lengths,lengths,map_map]
  rfl

theorem ids_makeJoinSide (blocks : List (List κ)) : (makeJoinSide blocks).ids = range' 0 blocks.length := by
  simp [makeJoinSide,JoinSide.ids,Function.comp_def]

end

variable {blocks : List (List κ)}

theorem sorted_inputItems (sorted : blocks.flatten.Pairwise (· ≤ ·)) : SortedItems (inputItems blocks) := by
  rw [← map_key_inputItems,pairwise_map] at sorted
  exact sorted

theorem makeJoinSide_inv {config : Config κ} (none : config.isUndefined = none)
    (sorted : blocks.flatten.Pairwise (· ≤ ·)) : SideInv config (makeJoinSide blocks) where
  sorted := sorted_inputItems sorted
  length := by simp [makeJoinSide]
  nonempty := by simp [makeJoinSide]
  undefs := ⟨by simp [makeJoinSide],by simp [makeJoinSide]⟩
  defined := by simp [Config.isUndef,none]
  ids := by
    rw [ids_makeJoinSide]
    exact nodup_range'

omit [LinearOrder κ] in
theorem makeJoinSide_endsAt (blocks : List (List κ)) : EndsAt (blocks.length - 1) (makeJoinSide blocks) := by
  intro block final
  have ids := ids_makeJoinSide blocks
  rw [JoinSide.ids,makeJoinSide,map_nil,nil_append] at ids
  have last : ((makeJoinSide blocks).it.map (·.id)).getLast? = some block.id := by
    rw [getLast?_map,final]
    rfl
  rw [makeJoinSide,ids,getLast?_range'] at last
  split at last <;> simp at last
  omega

theorem withoutUndef_emits (doOptionalJoin : Bool) {left right : List (List κ)} (sortedLeft : left.flatten.Pairwise (· ≤ ·))
    (sortedRight : right.flatten.Pairwise (· ≤ ·)) :
    ∃ action,zipperJoinForBlocksWithoutUndef doOptionalJoin left right = .ok action ∧
      Emits {} action (equalPairs (inputItems left) (inputItems right))
        (optionalItems doOptionalJoin [] (inputItems left) (inputItems right) ++
          extraRows ⟨none,doOptionalJoin⟩ (left.length - 1) (right.length - 1) [] (inputItems left) (inputItems right)) := by
  have lawful : (⟨none,doOptionalJoin⟩ : Config κ).Lawful := by
    intro undef element isUndef
    simp [Config.isUndef] at isUndef
  obtain ⟨impl,run,emits⟩ := joinRounds_spec lawful ⟨makeJoinSide left,makeJoinSide right,{}⟩
    (makeJoinSide_inv rfl sortedLeft) (makeJoinSide_inv rfl sortedRight) (makeJoinSide_endsAt left) (makeJoinSide_endsAt right)
    ((makeJoinSide left).size + (makeJoinSide right).size + 1) (by rw [size_eq,size_eq]; exact Nat.lt_succ_self _)
  refine ⟨impl.compatibleRowAction,?_,?_⟩
  · have same : runJoin ⟨none,doOptionalJoin⟩ ⟨makeJoinSide left,makeJoinSide right,{}⟩ = .ok impl := run
    rw [zipperJoinForBlocksWithoutUndef,zipperJoinForBlocks,same]
    rfl
  · have pairs : joined [] [] (inputItems left) (inputItems right) = equalPairs (inputItems left) (inputItems right) := by
      simp [joined]
    rw [keptRows_eq (fun _ => rfl)] at emits
    rw [← pairs]
    exact emits

end Start

section Inner

theorem count_equalPairs (left right : List (List κ)) (p q : Nat × Nat) :
    ((equalPairs (inputItems left) (inputItems right)).map places).count (p,q) = if equalAt left right p q then 1 else 0 :=
  count_pairs (fun a b => decide (a = b)) left right p q

theorem innerJoin_correct (left right : List (List κ)) (sortedLeft : left.flatten.Pairwise (· ≤ ·))
    (sortedRight : right.flatten.Pairwise (· ≤ ·)) :
    ∃ action,zipperJoinForBlocksWithoutUndef false left right = .ok action ∧
      ∀ p q,action.rows.count (p,q) = if equalAt left right p q then 1 else 0 := by
  obtain ⟨action,run,emits⟩ := withoutUndef_emits false sortedLeft sortedRight
  refine ⟨action,run,?_⟩
  intro p q
  rw [emits.rows.count_eq,nil_append,count_equalPairs]

/-- Equal values in more blocks than are fetched at once, next to an empty block. -/
theorem innerJoin_correct_manyBlocks :
    ∃ action,zipperJoinForBlocksWithoutUndef false [[1],[],[1,2]] [[1],[1],[1],[1],[1,3]] = .ok action ∧
      action.rows.count ((2,0),(4,0)) = 1 ∧ action.rows.count ((2,1),(4,1)) = 0 := by
  obtain ⟨action,run,counts⟩ := innerJoin_correct [[1],[],[1,2]] [[1],[1],[1],[1],[1,3]] (by decide) (by decide)
  exact ⟨action,run,counts _ _,counts _ _⟩

end Inner

/-- What an optional join has to add: the pairs of the inner join, and one optional row for
each row of `left` without a partner. -/
def OptionalJoinCorrect (left right : List (List κ)) : Prop :=
  ∃ action inner,zipperJoinForBlocksWithoutUndef true left right = .ok action ∧
    zipperJoinForBlocksWithoutUndef false left right = .ok inner ∧ action.rows.Perm inner.rows ∧
    (∀ p q,action.rows.count (p,q) = if equalAt left right p q then 1 else 0) ∧
    ∀ p,action.optionalRows.count p = if unmatchedAt left right p then 1 else 0

def numBlocksWith (value : κ) (blocks : List (List κ)) : Nat := (blocks.filter (fun block => value ∈ block)).length

/-- The buffer of the right blocks is filled when the last block with the value is read, and
the next call of `getNextBlocks` returns the empty rest of this block. This takes more blocks
than are fetched at once, a larger value in the last of them and a further block, and the left
side has to be complete before the right side. -/
def EndsWithFullBuffer (value : κ) (left right : List (List κ)) : Prop :=
  fetchBlocks < numBlocksWith value right ∧ numBlocksWith value right % fetchBlocks = 1 ∧
    (∃ block ∈ right,value ∈ block ∧ ∃ larger ∈ block,value < larger) ∧ (∀ block,right.getLast? = some block → value ∉ block) ∧
    0 < numBlocksWith value left ∧ (numBlocksWith value left < numBlocksWith value right ∨
      numBlocksWith value left = numBlocksWith value right ∧ ∃ block,left.getLast? = some block ∧ value ∈ block)

section Optional

section
variable (value : κ) (blocks : List (List κ))

theorem card_inputItems :
    (blocksWith value (inputItems blocks)).card = numBlocksWith value blocks := by
  have ids : (((makeJoinSide blocks).it.map BlockAndSubrange.ofBlock).map (·.fullBlock)).Nodup := by
    rw [ids_ofBlock]
    have nodup := ids_makeJoinSide blocks ▸ nodup_range' (s := 0) (n := blocks.length)
    simpa [JoinSide.ids,makeJoinSide] using nodup
  have counted := card_blocksWith value _ ids
  have same : inputItems blocks = items ((makeJoinSide blocks).it.map BlockAndSubrange.ofBlock) := by
    simp [inputItems,JoinSide.pending,makeJoinSide,rest]
  rw [same,counted,numBlocksWith,filter_map,length_map]
  have fst := zipIdx_map_fst 0 blocks
  conv_rhs => rw [← fst,filter_map,length_map]
  simp only [makeJoinSide,filter_map,length_map]
  rfl

theorem mem_blocksWith_inputItems (id : Nat) :
    id ∈ blocksWith value (inputItems blocks) ↔ ∃ block,blocks[id]? = some block ∧ value ∈ block := by
  rw [mem_blocksWith]
  constructor
  · rintro ⟨item,member,rfl,rfl⟩
    rw [mem_inputItems,elementAt] at member
    split at member
    next => simp at member
    next block present => exact ⟨block,present,mem_of_getElem? member⟩
  · rintro ⟨block,present,member⟩
    obtain ⟨pos,found⟩ := getElem?_of_mem member
    refine ⟨(id,⟨value,pos⟩),?_,rfl,rfl⟩
    rw [mem_inputItems]
    simp only [elementAt,place,key,present,found]

theorem spills_inputItems :
    spills value (inputItems blocks) = true ↔ ∃ block ∈ blocks,value ∈ block ∧ ∃ larger ∈ block,value < larger := by
  rw [spills_iff]
  constructor
  · rintro ⟨x,hx,y,hy,rfl,less,same⟩
    obtain ⟨block,present,member⟩ := (mem_blocksWith_inputItems (key x) blocks x.1).mp (mem_blocksWith.mpr ⟨x,hx,rfl,rfl⟩)
    obtain ⟨block',present',member'⟩ := (mem_blocksWith_inputItems (key y) blocks y.1).mp (mem_blocksWith.mpr ⟨y,hy,rfl,rfl⟩)
    rw [same,present] at present'
    cases present'
    exact ⟨block,mem_of_getElem? present,member,key y,member',less⟩
  · rintro ⟨block,present,member,larger,member',less⟩
    obtain ⟨id,found⟩ := getElem?_of_mem present
    obtain ⟨x,hx,keyX,idX⟩ := mem_blocksWith.mp ((mem_blocksWith_inputItems value blocks id).mpr ⟨block,found,member⟩)
    obtain ⟨y,hy,keyY,idY⟩ := mem_blocksWith.mp ((mem_blocksWith_inputItems larger blocks id).mpr ⟨block,found,member'⟩)
    exact ⟨x,hx,y,hy,keyX,keyY ▸ less,idY.trans idX.symm⟩

end

theorem doubled_iff (value : κ) (left right : List (List κ)) :
    doubled (left.length - 1) (right.length - 1) value (inputItems left) (inputItems right) = true ↔
      EndsWithFullBuffer value left right := by
  have nonempty : blocksWith value (inputItems left) ≠ ∅ ↔ 0 < numBlocksWith value left := by
    rw [← card_inputItems,Finset.card_pos,Finset.nonempty_iff_ne_empty]
  have last : ∀ blocks : List (List κ),blocks.length - 1 ∈ blocksWith value (inputItems blocks) ↔
      ∃ block,blocks.getLast? = some block ∧ value ∈ block := by
    intro blocks
    rw [mem_blocksWith_inputItems,getLast?_eq_getElem?]
  simp only [doubled,Bool.and_eq_true,Bool.or_eq_true,decide_eq_true_eq,card_inputItems,nonempty,last,spills_inputItems,
    EndsWithFullBuffer,not_exists,not_and]
  tauto

theorem count_optionalItems (left right : List (List κ)) (p : Nat × Nat) :
    ((optionalItems true [] (inputItems left) (inputItems right)).map place).count p = if unmatchedAt left right p then 1 else 0 := by
  have items : optionalItems true [] (inputItems left) (inputItems right) =
      (inputItems left).filter (fun item => decide (key item ∉ right.flatten)) := by
    simp only [optionalItems,isEmpty_nil,Bool.and_self,if_true]
    apply filter_congr
    intro item _
    rw [unmatched,Bool.eq_iff_iff]
    simp only [Bool.not_eq_true',any_eq_false,decide_eq_true_eq,mem_flatten_iff,not_exists,not_and]
  have test : unmatchedAt left right p = (elementAt left p).any (fun a => decide (a ∉ right.flatten)) := by
    rw [unmatchedAt]
    cases elementAt left p <;> rfl
  rw [items,test]
  exact count_filter (fun a => decide (a ∉ right.flatten)) left p

theorem count_optionalRows {left right : List (List κ)} (sortedLeft : left.flatten.Pairwise (· ≤ ·))
    (sortedRight : right.flatten.Pairwise (· ≤ ·)) :
    ∃ action,zipperJoinForBlocksWithoutUndef true left right = .ok action ∧
      (∀ p q,action.rows.count (p,q) = if equalAt left right p q then 1 else 0) ∧
      ∀ p,action.optionalRows.count p = (if unmatchedAt left right p then 1 else 0) +
        (if (elementAt left p).any (fun a => doubled (left.length - 1) (right.length - 1) a (inputItems left) (inputItems right))
          then 1 else 0) := by
  obtain ⟨action,run,emits⟩ := withoutUndef_emits true sortedLeft sortedRight
  refine ⟨action,run,?_,?_⟩
  · intro p q
    rw [emits.rows.count_eq,nil_append,count_equalPairs]
  · intro p
    rw [emits.optionalRows.count_eq,nil_append,map_append,count_append,count_optionalItems]
    congr 1
    exact count_filter (fun a => doubled (left.length - 1) (right.length - 1) a (inputItems left) (inputItems right)) left p

variable {blocks : List (List κ)}

omit [LinearOrder κ] in
theorem exists_position {value : κ} (member : value ∈ blocks.flatten) :
    ∃ p,elementAt blocks p = some value := by
  obtain ⟨item,inside,rfl⟩ := (mem_flatten_iff blocks value).mp member
  exact ⟨place item,(mem_inputItems blocks item).mp inside⟩

theorem mem_flatten_of_numBlocksWith {value : κ} (positive : 0 < numBlocksWith value blocks) :
    value ∈ blocks.flatten := by
  obtain ⟨block,member⟩ := exists_mem_of_length_pos positive
  obtain ⟨present,inside⟩ := mem_filter.mp member
  exact mem_flatten.mpr ⟨block,present,by simpa using inside⟩

theorem optionalJoin_correct_iff (left right : List (List κ)) (sortedLeft : left.flatten.Pairwise (· ≤ ·))
    (sortedRight : right.flatten.Pairwise (· ≤ ·)) :
    OptionalJoinCorrect left right ↔ ∀ value,¬ EndsWithFullBuffer value left right := by
  obtain ⟨action,run,pairs,optional⟩ := count_optionalRows sortedLeft sortedRight
  constructor
  · rintro ⟨other,_,runOther,_,_,_,counts⟩ value full
    rw [run] at runOther
    cases runOther
    obtain ⟨p,found⟩ := exists_position (mem_flatten_of_numBlocksWith full.2.2.2.2.1)
    have matched : unmatchedAt left right p = false := by
      have member := mem_flatten_of_numBlocksWith (Nat.zero_lt_of_lt full.1)
      simp only [unmatchedAt,found]
      exact decide_eq_false (not_not.mpr member)
    have twice := optional p
    rw [counts p,matched,found,Option.any_some,(doubled_iff value left right).mpr full] at twice
    simp at twice
  · intro never
    obtain ⟨inner,runInner,emits⟩ := withoutUndef_emits false sortedLeft sortedRight
    refine ⟨action,inner,run,runInner,?_,pairs,?_⟩
    · rw [perm_iff_count]
      rintro ⟨p,q⟩
      rw [pairs,emits.rows.count_eq,nil_append,count_equalPairs]
    · intro p
      rw [optional p]
      have single : (elementAt left p).any (fun a => doubled (left.length - 1) (right.length - 1) a (inputItems left) (inputItems right)) = false := by
        cases elementAt left p with
        | none => rfl
        | some value => exact Bool.eq_false_iff.mpr (fun full => never value ((doubled_iff value left right).mp full))
      rw [single]
      simp

/-- The left row is joined with four right rows, and it also gets an optional row. -/
theorem optionalJoin_not_correct : ¬ OptionalJoinCorrect [[1]] [[1],[1],[1],[1,2],[3]] := by
  have run : zipperJoinForBlocksWithoutUndef true [[1]] [[1],[1],[1],[1,2],[3]] =
      .ok ⟨0,3,[((0,0),(0,0)),((0,0),(1,0)),((0,0),(2,0)),((0,0),(3,0))],[(0,0)]⟩ := by rfl
  rintro ⟨action,_,runAction,_,_,_,optional⟩
  rw [run] at runAction
  cases runAction
  exact absurd (optional (0,0)) (by decide)

theorem optionalJoin_correct_iff_fewBlocks :
    OptionalJoinCorrect [[1],[2]] [[1],[1,3],[3]] ↔ ∀ value,¬ EndsWithFullBuffer value [[1],[2]] [[1],[1,3],[3]] :=
  optionalJoin_correct_iff [[1],[2]] [[1],[1,3],[3]] (by decide) (by decide)

end Optional

end Qlever.BlockZipperJoin
