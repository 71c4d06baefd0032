import Qlever.LocatedTriples
import Qlever.ValueId

/-! The local vocabulary of the updates, `LocalVocab.h`, and the blank nodes that it gets from
the `BlankNodeManager` of the index. Blocks that are used by other local vocabularies
are not given to this one.
-/
namespace Qlever
open List

def blockSize : Nat := 1000

def totalAvailableBlocks (minIndex : Nat) : Nat := (2 ^ 60 - 1 - minIndex + 1) / blockSize

/-- The manager as one call sees it: the blocks that other local vocabularies use during the
call, and the first random block index that is not in use. -/
structure BlankNodeManager (minIndex : Nat) where
  othersBlocks : Finset Nat
  randBlockIndex : Finset Nat → Nat
  unused : ∀ used,used.card < totalAvailableBlocks minIndex / 256 →
    randBlockIndex used ∉ used ∧ randBlockIndex used < totalAvailableBlocks minIndex

def BlankNodeManager.counting (minIndex : Nat) (othersBlocks : Finset Nat) : BlankNodeManager minIndex where
  othersBlocks := othersBlocks
  randBlockIndex used := ((List.range (used.card + 1)).find? (fun blockIdx => blockIdx ∉ used)).getD 0
  unused used few := by
    obtain ⟨free,inRange,notUsed⟩ := Finset.exists_mem_notMem_of_card_lt_card (s := used) (t := Finset.range (used.card + 1)) (by simp)
    have some : ((List.range (used.card + 1)).find? (fun blockIdx => blockIdx ∉ used)).isSome := by
      rw [find?_isSome]
      exact ⟨free,by simpa using inRange,by simpa using notUsed⟩
    obtain ⟨blockIdx,found⟩ := Option.isSome_iff_exists.mp some
    have inside := mem_range.mp (mem_of_find?_eq_some found)
    have fits : totalAvailableBlocks minIndex / 256 ≤ totalAvailableBlocks minIndex := Nat.div_le_self _ _
    have passes := find?_some found
    rw [found]
    exact ⟨by simpa using passes,by simp only [Option.getD_some]; omega⟩

structure BlankNodeBlock where
  blockIdx : Nat
  startIdx : Nat
  nextIdx : Nat
  deriving DecidableEq, Repr

def BlankNodeBlock.containsIndex (block : BlankNodeBlock) (index : Nat) : Bool := block.startIdx ≤ index && index < block.nextIdx

variable {Word : Type} {minIndex : Nat}

def BlankNodeManager.allocateBlock (manager : BlankNodeManager minIndex) (usedBlocksSet : Finset Nat) : Except Failure BlankNodeBlock :=
  if usedBlocksSet.card < totalAvailableBlocks minIndex / 256 then
    let blockIdx := manager.randBlockIndex usedBlocksSet
    .ok ⟨blockIdx,minIndex + blockIdx * blockSize,minIndex + blockIdx * blockSize⟩
  else .error .tooManyBlankNodeBlocks

structure LocalVocab (Word : Type) where
  primaryWordSet : List (Nat × Word) := []
  nextAddress : Nat := 0
  blocks : List BlankNodeBlock := []
  idxAfterCurrentBlock : Nat := 0
  deriving DecidableEq, Repr

namespace LocalVocab

def getIndexAndAddIfNotContained [DecidableEq Word] (vocab : LocalVocab Word) (word : Word) : Nat × LocalVocab Word :=
  match vocab.primaryWordSet.find? (fun entry => entry.2 = word) with
  | some entry => (entry.1,vocab)
  | none => (vocab.nextAddress,{vocab with
      primaryWordSet := vocab.primaryWordSet ++ [(vocab.nextAddress,word)]
      nextAddress := vocab.nextAddress + 1})

def usedBlocks (vocab : LocalVocab Word) : Finset Nat := (vocab.blocks.map (·.blockIdx)).toFinset

def getIdFromNewBlock (manager : BlankNodeManager minIndex) (vocab : LocalVocab Word) : Except Failure (Nat × LocalVocab Word) := do
  let block ← manager.allocateBlock (vocab.usedBlocks ∪ manager.othersBlocks)
  return (block.nextIdx,{vocab with
    blocks := {block with nextIdx := block.nextIdx + 1}::vocab.blocks
    idxAfterCurrentBlock := block.nextIdx + blockSize})

/-- `getId` of the blank node manager of the local vocabulary. -/
def getBlankNodeIndex (manager : BlankNodeManager minIndex) (vocab : LocalVocab Word) : Except Failure (Nat × LocalVocab Word) :=
  match vocab.blocks with
  | [] => getIdFromNewBlock manager vocab
  | block::blocks =>
    if block.nextIdx = vocab.idxAfterCurrentBlock then getIdFromNewBlock manager vocab
    else .ok (block.nextIdx,{vocab with blocks := {block with nextIdx := block.nextIdx + 1}::blocks})

def isBlankNodeIndexContained (vocab : LocalVocab Word) (index : Nat) : Bool := vocab.blocks.any (fun block => block.containsIndex index)

structure WellFormed (minIndex : Nat) (vocab : LocalVocab Word) : Prop where
  addresses : vocab.primaryWordSet.Pairwise (fun e1 e2 => e1.1 ≠ e2.1)
  below : ∀ entry ∈ vocab.primaryWordSet,entry.1 < vocab.nextAddress
  start : ∀ block ∈ vocab.blocks,block.startIdx = minIndex + block.blockIdx * blockSize
  range : ∀ block ∈ vocab.blocks,block.startIdx ≤ block.nextIdx ∧ block.nextIdx ≤ block.startIdx + blockSize
  distinct : (vocab.blocks.map (·.blockIdx)).Nodup
  current : ∀ block,vocab.blocks.head? = some block → vocab.idxAfterCurrentBlock = block.startIdx + blockSize

section Words
variable [DecidableEq Word] {vocab : LocalVocab Word}

section
variable (vocab : LocalVocab Word) (word : Word)

theorem getIndexAndAddIfNotContained_mem :
    ((vocab.getIndexAndAddIfNotContained word).1,word) ∈ (vocab.getIndexAndAddIfNotContained word).2.primaryWordSet := by
  cases found : vocab.primaryWordSet.find? (fun entry => entry.2 = word) with
  | none => simp [getIndexAndAddIfNotContained,found]
  | some entry =>
    have same : entry.2 = word := by simpa using find?_some found
    simp only [getIndexAndAddIfNotContained,found]
    rw [← same]
    exact mem_of_find?_eq_some found

theorem getIndexAndAddIfNotContained_subset :
    vocab.primaryWordSet ⊆ (vocab.getIndexAndAddIfNotContained word).2.primaryWordSet := by
  cases found : vocab.primaryWordSet.find? (fun entry => entry.2 = word) <;> simp [getIndexAndAddIfNotContained,found]

theorem getIndexAndAddIfNotContained_blocks :
    (vocab.getIndexAndAddIfNotContained word).2.blocks = vocab.blocks := by
  cases found : vocab.primaryWordSet.find? (fun entry => entry.2 = word) <;> simp [getIndexAndAddIfNotContained,found]

end

theorem WellFormed.addWord (well : WellFormed minIndex vocab) (word : Word) :
    WellFormed minIndex (vocab.getIndexAndAddIfNotContained word).2 := by
  cases found : vocab.primaryWordSet.find? (fun entry => entry.2 = word) with
  | some entry => simpa [getIndexAndAddIfNotContained,found] using well
  | none =>
    simp only [getIndexAndAddIfNotContained,found]
    refine ⟨?_,?_,well.start,well.range,well.distinct,well.current⟩
    · rw [pairwise_append]
      refine ⟨well.addresses,pairwise_singleton _ _,?_⟩
      intro entry member new isNew
      obtain rfl := mem_singleton.mp isNew
      exact (well.below entry member).ne
    · intro entry member
      rcases mem_append.mp member with old | new
      · exact (well.below entry old).trans (Nat.lt_succ_self _)
      · obtain rfl := mem_singleton.mp new
        exact Nat.lt_succ_self _

end Words

section BlankNodes
variable {vocab vocab' : LocalVocab Word} {manager : BlankNodeManager minIndex} {index : Nat}

def blockOf (minIndex index : Nat) : Nat := (index - minIndex) / blockSize

theorem contained_iff : vocab.isBlankNodeIndexContained index = true ↔ ∃ block ∈ vocab.blocks,block.startIdx ≤ index ∧ index < block.nextIdx := by
  simp [isBlankNodeIndexContained,BlankNodeBlock.containsIndex]

theorem mem_usedBlocks {blockIdx : Nat} : blockIdx ∈ vocab.usedBlocks ↔ ∃ block ∈ vocab.blocks,block.blockIdx = blockIdx := by
  simp [usedBlocks]

theorem blockOf_eq {blockIdx : Nat} (lower : minIndex + blockIdx * blockSize ≤ index) (upper : index < minIndex + blockIdx * blockSize + blockSize) :
    blockOf minIndex index = blockIdx := by
  unfold blockOf
  rw [Nat.div_eq_iff (by decide)]
  unfold blockSize at *
  omega

theorem WellFormed.contained (well : WellFormed minIndex vocab) (contained : vocab.isBlankNodeIndexContained index = true) :
    minIndex ≤ index ∧ blockOf minIndex index ∈ vocab.usedBlocks := by
  obtain ⟨block,member,lower,upper⟩ := contained_iff.mp contained
  have start := well.start block member
  have range := well.range block member
  refine ⟨by omega,mem_usedBlocks.mpr ⟨block,member,?_⟩⟩
  exact (blockOf_eq (by omega) (by omega)).symm

structure Fresh (manager : BlankNodeManager minIndex) (vocab : LocalVocab Word) (index : Nat) (vocab' : LocalVocab Word) : Prop where
  well : WellFormed minIndex vocab'
  isLocal : minIndex ≤ index
  notContained : vocab.isBlankNodeIndexContained index = false
  contained : ∀ other,vocab'.isBlankNodeIndexContained other = true ↔ vocab.isBlankNodeIndexContained other = true ∨ other = index
  words : vocab'.primaryWordSet = vocab.primaryWordSet
  disjoint : Disjoint vocab'.usedBlocks manager.othersBlocks

section
variable (well : WellFormed minIndex vocab) (disjoint : Disjoint vocab.usedBlocks manager.othersBlocks)
include well disjoint

theorem getIdFromNewBlock_fresh (run : vocab.getIdFromNewBlock manager = .ok (index,vocab')) : Fresh manager vocab index vocab' := by
  rw [getIdFromNewBlock,BlankNodeManager.allocateBlock] at run
  split at run
  next few =>
    obtain ⟨unused,_⟩ := manager.unused _ few
    rw [Finset.mem_union,not_or] at unused
    cases run
    generalize manager.randBlockIndex (vocab.usedBlocks ∪ manager.othersBlocks) = blockIdx at unused
    refine ⟨⟨well.addresses,well.below,?_,?_,?_,?_⟩,Nat.le_add_right _ _,?_,?_,rfl,?_⟩
    · rintro block member
      rcases mem_cons.mp member with rfl | old
      · rfl
      · exact well.start block old
    · rintro block member
      rcases mem_cons.mp member with rfl | old
      · simp [blockSize]
      · exact well.range block old
    · rw [map_cons,nodup_cons]
      exact ⟨by simpa [usedBlocks] using unused.1,well.distinct⟩
    · intro block head
      cases head
      rfl
    · by_contra contained
      have inside := (well.contained (Bool.not_eq_false _ ▸ contained)).2
      rw [blockOf_eq (le_refl _) (by simp [blockSize])] at inside
      exact unused.1 inside
    · intro other
      simp only [isBlankNodeIndexContained,BlankNodeBlock.containsIndex,any_cons,Bool.or_eq_true,Bool.and_eq_true,decide_eq_true_eq]
      constructor
      · rintro (new | old)
        · exact Or.inr (by omega)
        · exact Or.inl old
      · rintro (old | rfl)
        · exact Or.inr old
        · exact Or.inl (by omega)
    · simp only [usedBlocks,map_cons,toFinset_cons,Finset.disjoint_insert_left]
      exact ⟨unused.2,disjoint⟩
  next => cases run

theorem getBlankNodeIndex_fresh (run : vocab.getBlankNodeIndex manager = .ok (index,vocab')) : Fresh manager vocab index vocab' := by
  cases blocks : vocab.blocks with
  | nil =>
    simp only [getBlankNodeIndex,blocks] at run
    exact getIdFromNewBlock_fresh well disjoint run
  | cons block rest =>
    simp only [getBlankNodeIndex,blocks] at run
    split at run
    next => exact getIdFromNewBlock_fresh well disjoint run
    next notFull =>
      cases run
      have member : block ∈ vocab.blocks := by simp [blocks]
      have later : ∀ other ∈ rest,other ∈ vocab.blocks := by
        intro other isRest
        simp [blocks,isRest]
      have current := well.current block (by simp [blocks])
      have start := well.start block member
      have range := well.range block member
      have distinct := well.distinct
      rw [blocks,map_cons,nodup_cons] at distinct
      refine ⟨⟨well.addresses,well.below,?_,?_,?_,?_⟩,by omega,?_,?_,rfl,?_⟩
      · intro other isBlock
        rcases mem_cons.mp isBlock with rfl | old
        · exact start
        · exact well.start other (later other old)
      · intro other isBlock
        rcases mem_cons.mp isBlock with rfl | old
        · simp only
          omega
        · exact well.range other (later other old)
      · exact nodup_cons.mpr distinct
      · intro other head
        cases head
        exact current
      · by_contra contained
        obtain ⟨other,isBlock,lower,upper⟩ := contained_iff.mp (Bool.not_eq_false _ ▸ contained)
        rw [blocks] at isBlock
        rcases mem_cons.mp isBlock with rfl | old
        · omega
        · -- The index is in the range of the current block, so in no other one.
          have otherStart := well.start other (later other old)
          have otherRange := well.range other (later other old)
          have ofOther : blockOf minIndex block.nextIdx = other.blockIdx := blockOf_eq (by omega) (by omega)
          have ofCurrent : blockOf minIndex block.nextIdx = block.blockIdx := blockOf_eq (by omega) (by omega)
          exact distinct.1 (List.mem_map.mpr ⟨other,old,by rw [← ofOther,ofCurrent]⟩)
      · intro other
        simp only [isBlankNodeIndexContained,BlankNodeBlock.containsIndex,blocks,any_cons,Bool.or_eq_true,Bool.and_eq_true,decide_eq_true_eq]
        constructor
        · rintro (new | old)
          · by_cases same : other = block.nextIdx
            · exact Or.inr same
            · exact Or.inl (Or.inl (by omega))
          · exact Or.inl (Or.inr old)
        · rintro ((old | old) | rfl)
          · exact Or.inl (by omega)
          · exact Or.inr old
          · exact Or.inl (by omega)
      · simpa [usedBlocks,blocks] using disjoint

end

section
variable (manager : BlankNodeManager minIndex) (vocab : LocalVocab Word)

theorem getIdFromNewBlock_cases :
    vocab.getIdFromNewBlock manager = .error .tooManyBlankNodeBlocks ∨ ∃ result,vocab.getIdFromNewBlock manager = .ok result := by
  rw [getIdFromNewBlock,BlankNodeManager.allocateBlock]
  split
  · exact Or.inr ⟨_,rfl⟩
  · exact Or.inl rfl

theorem getBlankNodeIndex_cases :
    vocab.getBlankNodeIndex manager = .error .tooManyBlankNodeBlocks ∨ ∃ result,vocab.getBlankNodeIndex manager = .ok result := by
  cases blocks : vocab.blocks with
  | nil =>
    simp only [getBlankNodeIndex,blocks]
    exact getIdFromNewBlock_cases manager vocab
  | cons block rest =>
    simp only [getBlankNodeIndex,blocks]
    split
    · exact getIdFromNewBlock_cases manager vocab
    · exact Or.inr ⟨_,rfl⟩

end

end BlankNodes
end LocalVocab
end Qlever
