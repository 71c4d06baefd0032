import Qlever.ScanSpecAndBlocks
import Qlever.Library.BinarySearch

/-! The blocks of an index scan that may contain an ID of a join column, `CompressedRelationReader::getBlocksForJoin`. The join column of the
scan is its first column that is not fixed. The undefined ID is `⊥`.
-/
namespace Qlever.BlocksForJoin
open Qlever.Library IdTriple
open Bool (and_eq_true not_eq_true')
variable {Id : Type}

/-- The metadata for a scan, and the rows that reading a block yields. A block at the edge of a scan is read by a function of its own, which
keeps the triples that stand in several graphs more than once. -/
structure IndexScan (Id : Type) where
  scanSpec : ScanSpecification Id
  blocks : List (CompressedBlockMetadata Id)
  firstTriple : IdTriple Id
  lastTriple : IdTriple Id
  readPossiblyIncompleteBlock : CompressedBlockMetadata Id → List (IdTriple Id)
  readAndDecompressBlock : CompressedBlockMetadata Id → List (IdTriple Id)
  limit : Option Nat
  offset : Nat

def joinId (spec : ScanSpecification Id) (triple : IdTriple Id) : Id :=
  if spec.col0Id.isNone then triple.col0Id else if spec.col1Id.isNone then triple.col1Id else triple.col2Id

section Definitions
variable [LinearOrder Id]

def idForNonMatchingBlock (idFromTriple id minId maxId : Id) : Option Id :=
  if idFromTriple < id then some minId else if idFromTriple > id then some maxId else none

def getRelevantIdFromTriple (triple : IdTriple Id) (scan : IndexScan Id) : Id :=
  match scan.scanSpec.col0Id with
  | none => triple.col0Id
  | some col0Id =>
    match scan.scanSpec.col1Id with
    | none => (idForNonMatchingBlock triple.col0Id col0Id scan.firstTriple.col1Id scan.lastTriple.col1Id).getD triple.col1Id
    | some col1Id =>
      match idForNonMatchingBlock triple.col0Id col0Id scan.firstTriple.col2Id scan.lastTriple.col2Id with
      | some id => id
      | none => (idForNonMatchingBlock triple.col1Id col1Id scan.firstTriple.col2Id scan.lastTriple.col2Id).getD triple.col2Id

def firstId (scan : IndexScan Id) (block : CompressedBlockMetadata Id) : Id := getRelevantIdFromTriple block.firstTriple scan

def lastId (scan : IndexScan Id) (block : CompressedBlockMetadata Id) : Id := getRelevantIdFromTriple block.lastTriple scan

def blockIsNeeded (scan : IndexScan Id) (joinColumn : List Id) (block : CompressedBlockMetadata Id) : Bool :=
  !rangeIsEmpty (equalRange (fun id => id < firstId scan block) (fun id => lastId scan block < id) joinColumn)

def getBlocksForJoin (joinColumn : List Id) (scan : IndexScan Id) : Option (List (CompressedBlockMetadata Id)) :=
  let result := scan.blocks.filter (blockIsNeeded scan joinColumn)
  if result.IsChain (· ≠ ·) then some result else none

/-- The blocks whose `equal_range` in the blocks of the other scan is not empty. -/
def findMatchingBlocks (scan other : IndexScan Id) : Option (List (CompressedBlockMetadata Id)) :=
  let result := scan.blocks.filter (fun block => !rangeIsEmpty (equalRange (fun otherBlock => lastId other otherBlock < firstId scan block)
    (fun otherBlock => lastId scan block < firstId other otherBlock) other.blocks))
  if result.IsChain (· ≠ ·) then some result else none

/-- The check `is_sorted` of the blocks with their first and last ID. -/
def isSortedById (scan : IndexScan Id) : Prop := scan.blocks.IsChain (fun block next => ¬ lastId scan next < firstId scan block)

instance (scan : IndexScan Id) : Decidable (isSortedById scan) := by
  unfold isSortedById
  infer_instance

/-- `getBlocksForJoin` of two scans. -/
def getBlocksForJoinOfScans (scan1 scan2 : IndexScan Id) : Option (List (CompressedBlockMetadata Id) × List (CompressedBlockMetadata Id)) :=
  if isSortedById scan1 ∧ isSortedById scan2 then
    match findMatchingBlocks scan1 scan2,findMatchingBlocks scan2 scan1 with
    | some blocks1,some blocks2 => some (blocks1,blocks2)
    | _,_ => none
  else none

end Definitions

section Invariant
variable [LinearOrder Id] [BoundedOrder Id]

def innerBlocks (blocks : List (CompressedBlockMetadata Id)) : List (CompressedBlockMetadata Id) := blocks.tail.dropLast

/-- The metadata belongs to the scan: the blocks are in order and may contain triples of the scan, the rows of a block lie between its first and
its last triple, and all rows lie between the first and the last triple of the scan. Both ways to read an inner block find the same IDs. -/
structure IsScan (scan : IndexScan Id) : Prop where
  free : scan.scanSpec.col2Id = none
  ordered : OrderedBlocks scan.blocks
  relevant : ∀ block ∈ scan.blocks,isRelevant scan.scanSpec block = true
  inBlock : ∀ block ∈ scan.blocks,∀ row ∈ scan.readPossiblyIncompleteBlock block,block.firstTriple ≤ row ∧ row ≤ block.lastTriple
  inScan : ∀ block ∈ scan.blocks,∀ row ∈ scan.readPossiblyIncompleteBlock block,scan.firstTriple ≤ row ∧ row ≤ scan.lastTriple
  bounds : scan.scanSpec.firstTriple ≤ scan.firstTriple ∧ scan.lastTriple ≤ scan.scanSpec.lastTriple
  nonempty : scan.firstTriple ≤ scan.lastTriple
  defined : ∀ block ∈ scan.blocks,∀ row ∈ scan.readPossiblyIncompleteBlock block,joinId scan.scanSpec row ≠ ⊥
  inner : ∀ block ∈ innerBlocks scan.blocks,∀ id,id ∈ (scan.readAndDecompressBlock block).map (joinId scan.scanSpec) ↔
    id ∈ (scan.readPossiblyIncompleteBlock block).map (joinId scan.scanSpec)

variable {scan : IndexScan Id} {first second : IdTriple Id} {spec : ScanSpecification Id} {triple : IdTriple Id}

theorem columns_eq (above : spec.firstTriple ≤ triple) (below : triple ≤ spec.lastTriple) :
    (∀ col0Id,spec.col0Id = some col0Id → triple.col0Id = col0Id) ∧ ∀ col1Id,spec.col1Id = some col1Id → triple.col1Id = col1Id := by
  obtain ⟨col0Id,col1Id,col2Id,graphs,valid⟩ := spec
  have atCol0 : ∀ a,col0Id = some a → triple.col0Id = a := by
    rintro a rfl
    exact le_antisymm (col0_le below) (col0_le above)
  refine ⟨atCol0,?_⟩
  rintro b rfl
  obtain ⟨a,rfl⟩ := Option.isSome_iff_exists.mp (valid.1 rfl)
  have same := atCol0 a rfl
  exact le_antisymm (col1_le below same) (col1_le above same.symm)

theorem joinId_le (le : first ≤ second) (above : spec.firstTriple ≤ first) (below : first ≤ spec.lastTriple)
    (above' : spec.firstTriple ≤ second) (below' : second ≤ spec.lastTriple) : joinId spec first ≤ joinId spec second := by
  obtain ⟨col0,col1⟩ := columns_eq above below
  obtain ⟨col0',col1'⟩ := columns_eq above' below'
  unfold joinId
  cases isCol0 : spec.col0Id with
  | none => simpa using col0_le le
  | some a =>
    have same : first.col0Id = second.col0Id := (col0 a isCol0).trans (col0' a isCol0).symm
    cases isCol1 : spec.col1Id with
    | none => simpa using col1_le le same
    | some b => simpa using col2_le le same ((col1 b isCol1).trans (col1' b isCol1).symm)

theorem getRelevantIdFromTriple_eq (above : scan.scanSpec.firstTriple ≤ triple) (below : triple ≤ scan.scanSpec.lastTriple) :
    getRelevantIdFromTriple triple scan = joinId scan.scanSpec triple := by
  obtain ⟨col0,col1⟩ := columns_eq above below
  unfold getRelevantIdFromTriple joinId
  cases isCol0 : scan.scanSpec.col0Id with
  | none => rfl
  | some a =>
    rw [col0 a isCol0]
    cases isCol1 : scan.scanSpec.col1Id with
    | none => simp [idForNonMatchingBlock]
    | some b => simp [idForNonMatchingBlock,col1 b isCol1]

section
omit [BoundedOrder Id]

theorem idForNonMatchingBlock_le {idFromTriple id minId maxId default value : Id} (le : idFromTriple ≤ id) (min : minId ≤ value)
    (matching : idFromTriple = id → default ≤ value) : (idForNonMatchingBlock idFromTriple id minId maxId).getD default ≤ value := by
  unfold idForNonMatchingBlock
  rcases le.lt_or_eq with less | same
  · rw [if_pos less]
    exact min
  · rw [if_neg (by rw [same]; exact lt_irrefl _),if_neg (by rw [same]; exact lt_irrefl _)]
    exact matching same

theorem le_idForNonMatchingBlock {idFromTriple id minId maxId default value : Id} (le : id ≤ idFromTriple) (max : value ≤ maxId)
    (matching : idFromTriple = id → value ≤ default) : value ≤ (idForNonMatchingBlock idFromTriple id minId maxId).getD default := by
  unfold idForNonMatchingBlock
  rcases le.lt_or_eq with less | same
  · rw [if_neg less.not_gt,if_pos less]
    exact max
  · rw [if_neg (by rw [same]; exact lt_irrefl _),if_neg (by rw [same]; exact lt_irrefl _)]
    exact matching same.symm

end

variable {block : CompressedBlockMetadata Id} {row : IdTriple Id}

omit [BoundedOrder Id] in
theorem getRelevantIdFromTriple_getD (col0Id col1Id : Id) (triple : IdTriple Id) (isCol0 : scan.scanSpec.col0Id = some col0Id)
    (isCol1 : scan.scanSpec.col1Id = some col1Id) :
    getRelevantIdFromTriple triple scan = (idForNonMatchingBlock triple.col0Id col0Id scan.firstTriple.col2Id scan.lastTriple.col2Id).getD
      ((idForNonMatchingBlock triple.col1Id col1Id scan.firstTriple.col2Id scan.lastTriple.col2Id).getD triple.col2Id) := by
  unfold getRelevantIdFromTriple
  simp only [isCol0,isCol1]
  cases idForNonMatchingBlock triple.col0Id col0Id scan.firstTriple.col2Id scan.lastTriple.col2Id <;> rfl

theorem IsScan.inRange (isScan : IsScan scan) (isBlock : block ∈ scan.blocks) (isRow : row ∈ scan.readPossiblyIncompleteBlock block) :
    firstId scan block ≤ joinId scan.scanSpec row ∧ joinId scan.scanSpec row ≤ lastId scan block := by
  unfold firstId lastId
  obtain ⟨lower,upper⟩ := isScan.inBlock block isBlock row isRow
  obtain ⟨least,greatest⟩ := isScan.inScan block isBlock row isRow
  have above := isScan.bounds.1.trans least
  have below := greatest.trans isScan.bounds.2
  obtain ⟨col0,col1⟩ := columns_eq above below
  have min := joinId_le least isScan.bounds.1 (least.trans below) above below
  have max := joinId_le greatest above below (above.trans greatest) isScan.bounds.2
  cases isCol0 : scan.scanSpec.col0Id with
  | none =>
    simp only [getRelevantIdFromTriple,joinId,isCol0]
    exact ⟨col0_le lower,col0_le upper⟩
  | some a =>
    have isA := col0 a isCol0
    have first0 : block.firstTriple.col0Id ≤ a := (col0_le lower).trans_eq isA
    have last0 : a ≤ block.lastTriple.col0Id := isA.symm.trans_le (col0_le upper)
    cases isCol1 : scan.scanSpec.col1Id with
    | none =>
      simp only [joinId,isCol0,isCol1,Option.isNone_some,Option.isNone_none,Bool.false_eq_true,if_false,if_true] at min max ⊢
      simp only [getRelevantIdFromTriple,isCol0,isCol1]
      constructor
      · exact idForNonMatchingBlock_le first0 min (fun same => col1_le lower (same.trans isA.symm))
      · exact le_idForNonMatchingBlock last0 max (fun same => col1_le upper (isA.trans same.symm))
    | some b =>
      have isB := col1 b isCol1
      simp only [joinId,isCol0,isCol1,Option.isNone_some,Bool.false_eq_true,if_false] at min max ⊢
      rw [getRelevantIdFromTriple_getD a b _ isCol0 isCol1,getRelevantIdFromTriple_getD a b _ isCol0 isCol1]
      constructor
      · apply idForNonMatchingBlock_le first0 min
        intro same
        have same0 := same.trans isA.symm
        exact idForNonMatchingBlock_le ((col1_le lower same0).trans_eq isB) min (fun same1 => col2_le lower same0 (same1.trans isB.symm))
      · apply le_idForNonMatchingBlock last0 max
        intro same
        have same0 := isA.trans same.symm
        exact le_idForNonMatchingBlock (isB.symm.trans_le (col1_le upper same0)) max
          (fun same1 => col2_le upper same0 (isB.trans same1.symm))

theorem IsScan.range_le (isScan : IsScan scan) {later : CompressedBlockMetadata Id} (isBlock : block ∈ scan.blocks) (isLater : later ∈ scan.blocks)
    (before : block.lastTriple < later.firstTriple) : lastId scan block ≤ firstId scan later := by
  unfold firstId lastId
  have relevant := isScan.relevant block isBlock
  have relevant' := isScan.relevant later isLater
  simp only [isRelevant,and_eq_true,not_eq_true',decide_eq_false_iff_not,not_lt] at relevant relevant'
  have below := before.le.trans relevant'.2
  have above := relevant.1.trans before.le
  rw [getRelevantIdFromTriple_eq relevant.1 below,getRelevantIdFromTriple_eq above relevant'.2]
  exact joinId_le before.le relevant.1 below above relevant'.2

def hasIdInRange (scan : IndexScan Id) (joinColumn : List Id) (block : CompressedBlockMetadata Id) : Bool :=
  joinColumn.any (fun id => decide (firstId scan block ≤ id) && decide (id ≤ lastId scan block))

variable {joinColumn : List Id}

omit [BoundedOrder Id] in
theorem blockIsNeeded_eq (sorted : joinColumn.Pairwise (· ≤ ·)) (block : CompressedBlockMetadata Id) :
    blockIsNeeded scan joinColumn block = hasIdInRange scan joinColumn block := by
  have closedLess : Closed (fun id => decide (id < firstId scan block)) joinColumn := by
    apply sorted.imp
    intro first second le less
    simp only [decide_eq_true_eq] at less ⊢
    exact le.trans_lt less
  have closedGreater : Closed (fun id => !decide (lastId scan block < id)) joinColumn := by
    apply sorted.imp
    intro first second le notGreater
    simp only [not_eq_true',decide_eq_false_iff_not,not_lt] at notGreater ⊢
    exact le.trans notGreater
  rw [blockIsNeeded,Bool.eq_iff_iff,not_eq_true',hasIdInRange,List.any_eq_true]
  simp only [and_eq_true,decide_eq_true_eq]
  constructor
  · intro nonempty
    obtain ⟨i,j,x,y,le,isX,isY,notLess,notGreater⟩ := equalRange_ends nonempty
    simp only [decide_eq_false_iff_not,not_lt] at notLess notGreater
    have ordered : x ≤ y := by
      rcases le.lt_or_eq with less | rfl
      · exact pairwise_get sorted isX isY less
      · exact (Option.some.inj (isX.symm.trans isY)).le
    exact ⟨x,List.mem_of_getElem? isX,notLess,ordered.trans notGreater⟩
  · rintro ⟨id,member,above,below⟩
    exact equalRange_complete closedLess closedGreater member (by simpa using above) (by simpa using below)

theorem distinct_filter (isScan : IsScan scan) (p : CompressedBlockMetadata Id → Bool) : (scan.blocks.filter p).IsChain (· ≠ ·) := by
  have distinct : (scan.blocks.filter p).Pairwise (· ≠ ·) := by
    apply ((isScan.ordered.sublist List.filter_sublist).indices).imp
    rintro first second less rfl
    exact lt_irrefl _ less
  exact distinct.isChain

theorem getBlocksForJoin_eq (isScan : IsScan scan) (sorted : joinColumn.Pairwise (· ≤ ·)) :
    getBlocksForJoin joinColumn scan = some (scan.blocks.filter (hasIdInRange scan joinColumn)) := by
  have same : scan.blocks.filter (blockIsNeeded scan joinColumn) = scan.blocks.filter (hasIdInRange scan joinColumn) :=
    List.filter_congr (fun block _ => blockIsNeeded_eq sorted block)
  rw [getBlocksForJoin,same]
  exact if_pos (distinct_filter isScan _)

theorem IsScan.needed (isScan : IsScan scan) (isBlock : block ∈ scan.blocks) (isRow : row ∈ scan.readPossiblyIncompleteBlock block)
    (isId : joinId scan.scanSpec row ∈ joinColumn) : hasIdInRange scan joinColumn block = true := by
  obtain ⟨lower,upper⟩ := isScan.inRange isBlock isRow
  rw [hasIdInRange,List.any_eq_true]
  refine ⟨_,isId,?_⟩
  simp only [and_eq_true,decide_eq_true_eq]
  exact ⟨lower,upper⟩

end Invariant

section Scans
variable [LinearOrder Id] [BoundedOrder Id] {scan other : IndexScan Id} {block later : CompressedBlockMetadata Id} {triple : IdTriple Id}

theorem getRelevantIdFromTriple_of_gt (free : scan.scanSpec.col2Id = none) (behind : scan.scanSpec.lastTriple < triple) :
    getRelevantIdFromTriple triple scan = joinId scan.scanSpec scan.lastTriple := by
  have valid := scan.scanSpec.validate
  simp only [ScanSpecification.lastTriple,free,Option.getD_none,lt_iff,not_top_lt,and_false,or_false] at behind
  unfold getRelevantIdFromTriple joinId
  cases isCol0 : scan.scanSpec.col0Id with
  | none =>
    have isCol1 : scan.scanSpec.col1Id = none := by simpa [isCol0] using valid.1
    simp [isCol0,isCol1] at behind
  | some a =>
    cases isCol1 : scan.scanSpec.col1Id with
    | none =>
      have above : a < triple.col0Id := by simpa [isCol0,isCol1] using behind
      simp [idForNonMatchingBlock,above,not_lt_of_gt above]
    | some b =>
      have above : a < triple.col0Id ∨ a = triple.col0Id ∧ b < triple.col1Id := by simpa [isCol0,isCol1] using behind
      rcases above with above | ⟨rfl,above⟩
      all_goals simp [idForNonMatchingBlock,above,not_lt_of_gt above]

theorem getRelevantIdFromTriple_of_lt (free : scan.scanSpec.col2Id = none) (before : triple < scan.scanSpec.firstTriple) :
    getRelevantIdFromTriple triple scan = joinId scan.scanSpec scan.firstTriple := by
  have valid := scan.scanSpec.validate
  simp only [ScanSpecification.firstTriple,free,Option.getD_none,lt_iff,not_lt_bot,and_false,or_false] at before
  unfold getRelevantIdFromTriple joinId
  cases isCol0 : scan.scanSpec.col0Id with
  | none =>
    have isCol1 : scan.scanSpec.col1Id = none := by simpa [isCol0] using valid.1
    simp [isCol0,isCol1] at before
  | some a =>
    cases isCol1 : scan.scanSpec.col1Id with
    | none =>
      have below : triple.col0Id < a := by simpa [isCol0,isCol1] using before
      simp [idForNonMatchingBlock,below]
    | some b =>
      have below : triple.col0Id < a ∨ triple.col0Id = a ∧ triple.col1Id < b := by simpa [isCol0,isCol1] using before
      rcases below with below | ⟨rfl,below⟩
      · simp [idForNonMatchingBlock,below]
      · simp [idForNonMatchingBlock,below]

section
variable (isScan : IsScan scan) (isBlock : block ∈ scan.blocks) (isLater : later ∈ scan.blocks) (before : block.lastTriple < later.firstTriple)
include isScan isBlock isLater before

theorem IsScan.lastId_le : lastId scan block ≤ lastId scan later ∨ lastId scan later = joinId scan.scanSpec scan.lastTriple := by
  have relevant := isScan.relevant block isBlock
  have relevant' := isScan.relevant later isLater
  simp only [isRelevant,and_eq_true,not_eq_true',decide_eq_false_iff_not,not_lt] at relevant relevant'
  have below := before.le.trans relevant'.2
  have ordered := before.le.trans (isScan.ordered.bounds later isLater)
  rcases le_or_gt later.lastTriple scan.scanSpec.lastTriple with inside | behind
  · left
    unfold lastId
    rw [getRelevantIdFromTriple_eq relevant.1 below,getRelevantIdFromTriple_eq relevant'.1 inside]
    exact joinId_le ordered relevant.1 below relevant'.1 inside
  · exact Or.inr (getRelevantIdFromTriple_of_gt isScan.free behind)

theorem IsScan.firstId_le : firstId scan block ≤ firstId scan later ∨ firstId scan block = joinId scan.scanSpec scan.firstTriple := by
  have relevant := isScan.relevant block isBlock
  have relevant' := isScan.relevant later isLater
  simp only [isRelevant,and_eq_true,not_eq_true',decide_eq_false_iff_not,not_lt] at relevant relevant'
  have above := relevant.1.trans before.le
  have ordered := (isScan.ordered.bounds block isBlock).trans before.le
  rcases lt_or_ge block.firstTriple scan.scanSpec.firstTriple with outside | inside
  · exact Or.inr (getRelevantIdFromTriple_of_lt isScan.free outside)
  · left
    unfold firstId
    rw [getRelevantIdFromTriple_eq inside relevant.2,getRelevantIdFromTriple_eq above relevant'.2]
    exact joinId_le ordered inside relevant.2 above relevant'.2

end

theorem IsScan.joinId_bounds (isScan : IsScan scan) {row : IdTriple Id} (isBlock : block ∈ scan.blocks)
    (isRow : row ∈ scan.readPossiblyIncompleteBlock block) :
    joinId scan.scanSpec scan.firstTriple ≤ joinId scan.scanSpec row ∧ joinId scan.scanSpec row ≤ joinId scan.scanSpec scan.lastTriple := by
  obtain ⟨least,greatest⟩ := isScan.inScan block isBlock row isRow
  have above := isScan.bounds.1.trans least
  have below := greatest.trans isScan.bounds.2
  exact ⟨joinId_le least isScan.bounds.1 (least.trans below) above below,joinId_le greatest above below (above.trans greatest) isScan.bounds.2⟩

theorem IsScan.firstId_le_lastId (isScan : IsScan scan) : joinId scan.scanSpec scan.firstTriple ≤ joinId scan.scanSpec scan.lastTriple :=
  joinId_le isScan.nonempty isScan.bounds.1 (isScan.nonempty.trans isScan.bounds.2) (isScan.bounds.1.trans isScan.nonempty) isScan.bounds.2

def RangesMeet (scan other : IndexScan Id) (block otherBlock : CompressedBlockMetadata Id) : Prop :=
  firstId scan block ≤ lastId other otherBlock ∧ firstId other otherBlock ≤ lastId scan block

def isMatching (scan other : IndexScan Id) (block : CompressedBlockMetadata Id) : Bool :=
  !rangeIsEmpty (equalRange (fun otherBlock => decide (lastId other otherBlock < firstId scan block))
    (fun otherBlock => decide (lastId scan block < firstId other otherBlock)) other.blocks)

theorem isMatching_of_partner (isScan : IsScan scan) (isOther : IsScan other) {row otherRow : IdTriple Id} (isBlock : block ∈ scan.blocks)
    (isRow : row ∈ scan.readPossiblyIncompleteBlock block) {otherBlock : CompressedBlockMetadata Id} (isOtherBlock : otherBlock ∈ other.blocks)
    (isOtherRow : otherRow ∈ other.readPossiblyIncompleteBlock otherBlock) (partner : joinId other.scanSpec otherRow = joinId scan.scanSpec row) :
    isMatching scan other block = true := by
  obtain ⟨lower,upper⟩ := isScan.inRange isBlock isRow
  obtain ⟨lower',upper'⟩ := isOther.inRange isOtherBlock isOtherRow
  obtain ⟨least,greatest⟩ := isOther.joinId_bounds isOtherBlock isOtherRow
  rw [partner] at lower' upper' least greatest
  have closedLess : Closed (fun otherBlock => decide (lastId other otherBlock < firstId scan block)) other.blocks := by
    apply (List.Pairwise.and_mem.mp isOther.ordered.disjoint).imp
    rintro first second ⟨isFirst,isSecond,before⟩ less
    simp only [decide_eq_true_eq] at less ⊢
    rcases isOther.lastId_le isFirst isSecond before with le | isLast
    · exact le.trans_lt less
    · exact absurd (lower.trans greatest) (isLast ▸ less).not_ge
  have closedGreater : Closed (fun otherBlock => !decide (lastId scan block < firstId other otherBlock)) other.blocks := by
    apply (List.Pairwise.and_mem.mp isOther.ordered.disjoint).imp
    rintro first second ⟨isFirst,isSecond,before⟩ notGreater
    simp only [not_eq_true',decide_eq_false_iff_not,not_lt] at notGreater ⊢
    rcases isOther.firstId_le isFirst isSecond before with le | isLeast
    · exact le.trans notGreater
    · exact isLeast.trans_le (least.trans upper)
  rw [isMatching,equalRange_complete closedLess closedGreater isOtherBlock (by simpa using lower.trans upper') (by simpa using lower'.trans upper)]
  rfl

theorem meets_of_isMatching (isOther : IsScan other) (matching : isMatching scan other block = true) :
    ∃ otherBlock ∈ other.blocks,RangesMeet scan other block otherBlock := by
  rw [isMatching,not_eq_true'] at matching
  obtain ⟨i,j,first,second,le,isFirst,isSecond,notLess,notGreater⟩ := equalRange_ends matching
  simp only [decide_eq_false_iff_not,not_lt] at notLess notGreater
  have memberFirst := List.mem_of_getElem? isFirst
  have memberSecond := List.mem_of_getElem? isSecond
  rcases le.lt_or_eq with less | rfl
  swap
  · obtain rfl := Option.some.inj (isFirst.symm.trans isSecond)
    exact ⟨first,memberFirst,notLess,notGreater⟩
  have before : first.lastTriple < second.firstTriple := pairwise_get isOther.ordered.disjoint isFirst isSecond less
  by_cases atFirst : firstId other first ≤ lastId scan block
  · exact ⟨first,memberFirst,notLess,atFirst⟩
  -- The range ends before the rows of the other scan begin, so the first of the two blocks is the block at the begin of the other scan.
  have isLeast := (isOther.firstId_le memberFirst memberSecond before).resolve_left (fun ordered => atFirst (ordered.trans notGreater))
  refine ⟨second,memberSecond,?_,notGreater⟩
  rcases isOther.lastId_le memberFirst memberSecond before with ordered | isLast
  · exact notLess.trans ordered
  · by_contra notMeets
    have range := isOther.range_le memberFirst memberSecond before
    have ends := isOther.firstId_le_lastId
    rw [← isLeast,← isLast] at ends
    exact atFirst ((ends.trans (not_le.mp notMeets).le).trans (notLess.trans (range.trans notGreater)))

theorem findMatchingBlocks_eq (isScan : IsScan scan) : findMatchingBlocks scan other = some (scan.blocks.filter (isMatching scan other)) :=
  if_pos (distinct_filter isScan _)

end Scans

section Selection
variable [LinearOrder Id] [BoundedOrder Id]

/-- The blocks that are returned for a join: all blocks with a row that has a partner, in order and each of them once, and no block whose range
meets nothing on the other side. -/
structure Selects (scan : IndexScan Id) (hasPartner : Id → Prop) (meets : CompressedBlockMetadata Id → Prop)
    (result : List (CompressedBlockMetadata Id)) : Prop where
  isBlock : ∀ block ∈ result,block ∈ scan.blocks
  ascending : result.Pairwise (fun block next => block.blockIndex < next.blockIndex)
  complete : ∀ block ∈ scan.blocks,∀ row ∈ scan.readPossiblyIncompleteBlock block,hasPartner (joinId scan.scanSpec row) → block ∈ result
  minimal : ∀ block ∈ result,meets block

def SelectsForColumn (scan : IndexScan Id) : Prop :=
  ∀ joinColumn : List Id,joinColumn.Pairwise (· ≤ ·) → ∃ result,getBlocksForJoin joinColumn scan = some result ∧
    Selects scan (· ∈ joinColumn) (fun block => ∃ id ∈ joinColumn,firstId scan block ≤ id ∧ id ≤ lastId scan block) result

def occursIn (scan : IndexScan Id) (id : Id) : Prop :=
  ∃ block ∈ scan.blocks,∃ row ∈ scan.readPossiblyIncompleteBlock block,joinId scan.scanSpec row = id

def SelectsForScans (scan1 scan2 : IndexScan Id) : Prop :=
  ∃ blocks1 blocks2,getBlocksForJoinOfScans scan1 scan2 = some (blocks1,blocks2) ∧
    Selects scan1 (occursIn scan2) (fun block => ∃ other ∈ scan2.blocks,RangesMeet scan1 scan2 block other) blocks1 ∧
    Selects scan2 (occursIn scan1) (fun block => ∃ other ∈ scan1.blocks,RangesMeet scan2 scan1 block other) blocks2

variable {scan : IndexScan Id}

theorem selects_filter (isScan : IsScan scan) {hasPartner : Id → Prop} {meets : CompressedBlockMetadata Id → Prop}
    {p : CompressedBlockMetadata Id → Bool}
    (complete : ∀ block ∈ scan.blocks,∀ row ∈ scan.readPossiblyIncompleteBlock block,hasPartner (joinId scan.scanSpec row) → p block = true)
    (minimal : ∀ block,p block = true → meets block) : Selects scan hasPartner meets (scan.blocks.filter p) where
  isBlock _ member := (List.mem_filter.mp member).1
  ascending := (isScan.ordered.sublist List.filter_sublist).indices
  complete block isBlock row isRow partner := List.mem_filter.mpr ⟨isBlock,complete block isBlock row isRow partner⟩
  minimal _ member := minimal _ (List.mem_filter.mp member).2

theorem selectsForColumn (isScan : IsScan scan) : SelectsForColumn scan := by
  intro joinColumn sorted
  refine ⟨_,getBlocksForJoin_eq isScan sorted,selects_filter isScan ?_ ?_⟩
  · exact fun block isBlock row isRow isId => isScan.needed isBlock isRow isId
  · intro block needed
    simpa [hasIdInRange] using needed

theorem selects_matching {other : IndexScan Id} (isScan : IsScan scan) (isOther : IsScan other) :
    Selects scan (occursIn other) (fun block => ∃ otherBlock ∈ other.blocks,RangesMeet scan other block otherBlock)
      (scan.blocks.filter (isMatching scan other)) := by
  apply selects_filter isScan
  · rintro block isBlock row isRow ⟨otherBlock,isOtherBlock,otherRow,isOtherRow,partner⟩
    exact isMatching_of_partner isScan isOther isBlock isRow isOtherBlock isOtherRow partner
  · exact fun _ matching => meets_of_isMatching isOther matching

/-- Both functions select the needed blocks exactly if the blocks of both scans are sorted by their IDs. -/
theorem getBlocksForJoin_selects_iff (scan1 scan2 : IndexScan Id) (isScan1 : IsScan scan1) (isScan2 : IsScan scan2) :
    (SelectsForColumn scan1 ∧ SelectsForScans scan1 scan2) ↔ isSortedById scan1 ∧ isSortedById scan2 := by
  constructor
  · rintro ⟨_,blocks1,blocks2,found,_⟩
    by_contra unsorted
    rw [getBlocksForJoinOfScans,if_neg unsorted] at found
    cases found
  · intro sorted
    refine ⟨selectsForColumn isScan1,_,_,?_,selects_matching isScan1 isScan2,selects_matching isScan2 isScan1⟩
    rw [getBlocksForJoinOfScans,if_pos sorted,findMatchingBlocks_eq isScan1,findMatchingBlocks_eq isScan2]

section Examples

/-- A relation in three blocks with two rows in the first one. The rows of the other blocks have been deleted. The last block ends in the relation or
in the next one. -/
def deletedRows (endsInside : Bool) : IndexScan (Fin 100) where
  scanSpec := ⟨some 1,none,none,none,by simp⟩
  blocks := [⟨[],2,⟨1,10,0,0⟩,⟨1,40,0,0⟩,none,false,0⟩,⟨[],2,⟨1,50,0,0⟩,⟨1,60,0,0⟩,none,false,1⟩,
    ⟨[],2,⟨1,70,0,0⟩,if endsInside then ⟨1,80,0,0⟩ else ⟨2,5,0,0⟩,none,false,2⟩]
  firstTriple := ⟨1,10,0,0⟩
  lastTriple := ⟨1,40,0,0⟩
  readPossiblyIncompleteBlock block := if block.blockIndex = 0 then [⟨1,10,0,0⟩,⟨1,40,0,0⟩] else []
  readAndDecompressBlock _ := []
  limit := none
  offset := 0

theorem isScan_deletedRows (endsInside : Bool) : IsScan (deletedRows endsInside) where
  free := rfl
  ordered := ⟨by cases endsInside <;> decide,by cases endsInside <;> decide,by cases endsInside <;> decide⟩
  relevant := by cases endsInside <;> decide
  inBlock := by cases endsInside <;> decide
  inScan := by cases endsInside <;> decide
  bounds := by cases endsInside <;> decide
  nonempty := by cases endsInside <;> decide
  defined := by cases endsInside <;> decide
  inner := by cases endsInside <;> decide

theorem getBlocksForJoin_selects_deleted : SelectsForColumn (deletedRows true) ∧ SelectsForScans (deletedRows true) (deletedRows true) :=
  (getBlocksForJoin_selects_iff _ _ (isScan_deletedRows true) (isScan_deletedRows true)).mpr (by decide)

/-- The last ID of a block that ends in the next relation is that of the last row, which is before the second block. -/
theorem getBlocksForJoin_not_selects : IsScan (deletedRows false) ∧ ¬ SelectsForScans (deletedRows false) (deletedRows false) := by
  refine ⟨isScan_deletedRows false,?_⟩
  rintro ⟨blocks1,blocks2,found,_⟩
  have unsorted : getBlocksForJoinOfScans (deletedRows false) (deletedRows false) = none := if_neg (by decide)
  rw [unsorted] at found
  cases found

end Examples
end Selection
end Qlever.BlocksForJoin
