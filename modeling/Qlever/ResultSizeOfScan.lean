import Qlever.ScanDuplicates

/-! `getResultSizeImpl`: the size of a scan from the metadata of its blocks, of which only the first and the last one and those with updates are read. -/
namespace Qlever
open Library MergeTriples List
open LocatedTriplesPerBlock (Visible Original GraphsKnown WellLocated augmentedBlocks)
variable {Id : Type}
namespace CompressedRelationReader

section Definitions

inductive ElementMatch
  | guaranteedMatch
  | mismatch
  | mustCheckNextElement
  deriving DecidableEq, Repr

def checkElement [DecidableEq Id] (optId : Option Id) (id : Id) : ElementMatch :=
  match optId with
  | none => .guaranteedMatch
  | some other => if other ≠ id then .mismatch else .mustCheckNextElement

def isTripleInSpecification [DecidableEq Id] (scanSpec : ScanSpecification Id) (triple : IdTriple Id) : Bool :=
  let result := checkElement scanSpec.col0Id triple.col0Id
  let result := if result = .mustCheckNextElement then checkElement scanSpec.col1Id triple.col1Id else result
  let result := if result = .mustCheckNextElement then checkElement scanSpec.col2Id triple.col2Id else result
  result ≠ .mismatch

structure ResultSizes where
  numResults : Nat
  inserted : Nat
  deleted : Nat

variable [LinearOrder Id] [BoundedOrder Id] (file : File Id)

/-- The `divisor` is a runtime parameter. -/
def readSizeOfPossiblyIncompleteBlock (exactSize : Bool) (divisor : Nat) (scanSpec : ScanSpecification Id) (config : ScanImplConfig Id)
    (locatedTriplesPerBlock : LocatedTriplesPerBlock Id) (sizes : ResultSizes) (block : CompressedBlockMetadata Id) : Except ScanFailure ResultSizes :=
  if exactSize then do
    let table ← readPossiblyIncompleteBlock file scanSpec config block locatedTriplesPerBlock
    return {sizes with numResults := sizes.numResults + table.length}
  else
    let isComplete := isTripleInSpecification scanSpec block.firstTriple && isTripleInSpecification scanSpec block.lastTriple
    let divisor := if isComplete then 1 else divisor
    let (ins,del) := locatedTriplesPerBlock.numAddedAndDeleted block.blockIndex
    let trunc := fun num : Nat => max (min num 1) (num / divisor)
    .ok ⟨sizes.numResults + trunc block.numRows,sizes.inserted + trunc ins,sizes.deleted + trunc del⟩

def sizeOfInnerBlock (exactSize : Bool) (config : ScanImplConfig Id) (locatedTriplesPerBlock : LocatedTriplesPerBlock Id) (sizes : ResultSizes)
    (block : CompressedBlockMetadata Id) : Except ScanFailure ResultSizes :=
  let (ins,del) := locatedTriplesPerBlock.numAddedAndDeleted block.blockIndex
  if !exactSize || (ins = 0 && del = 0) then
    .ok ⟨sizes.numResults + block.numRows,sizes.inserted + ins,sizes.deleted + del⟩
  else do
    let b ← readAndDecompressBlock file block config
    return {sizes with numResults := sizes.numResults + (b.getD []).length}

def getResultSizeImpl (exactSize : Bool) (divisor : Nat) (scanSpecAndBlocks : ScanSpecAndBlocks Id) (locatedTriplesPerBlock : LocatedTriplesPerBlock Id) :
    Except ScanFailure (Nat × Nat) := do
  let blocks := getBlockMetadataView scanSpecAndBlocks
  let scanSpec := scanSpecAndBlocks.scanSpec
  let config := getScanConfig scanSpec [] locatedTriplesPerBlock
  let sizes ← (outerBlocks blocks).foldlM (readSizeOfPossiblyIncompleteBlock file exactSize divisor scanSpec config locatedTriplesPerBlock) ⟨0,0,0⟩
  let sizes ← (innerBlocks blocks).foldlM (sizeOfInnerBlock file exactSize config locatedTriplesPerBlock) sizes
  return (sizes.numResults - min sizes.deleted sizes.numResults,sizes.numResults + sizes.inserted)

def getSizeEstimateForScan (divisor : Nat) (scanSpecAndBlocks : ScanSpecAndBlocks Id) (locatedTriplesPerBlock : LocatedTriplesPerBlock Id) :
    Except ScanFailure (Nat × Nat) :=
  getResultSizeImpl file false divisor scanSpecAndBlocks locatedTriplesPerBlock

def getResultSizeOfScan (divisor : Nat) (scanSpecAndBlocks : ScanSpecAndBlocks Id) (locatedTriplesPerBlock : LocatedTriplesPerBlock Id) :
    Except ScanFailure Nat := do
  let (lower,upper) ← getResultSizeImpl file true divisor scanSpecAndBlocks locatedTriplesPerBlock
  if lower = upper then return lower else .error .sizesDiffer

end Definitions

section Sums
variable {β α : Type}

theorem sum_eq_iff {f g : β → Nat} {xs : List β} (le : ∀ x ∈ xs,f x ≤ g x) : (xs.map f).sum = (xs.map g).sum ↔ ∀ x ∈ xs,f x = g x := by
  induction xs with
  | nil => simp
  | cons x xs ih =>
    have ih := ih (forall_mem_cons.mp le).2
    have first := le x mem_cons_self
    have rest : (xs.map f).sum ≤ (xs.map g).sum := sum_le_sum (forall_mem_cons.mp le).2
    rw [map_cons,map_cons,sum_cons,sum_cons,forall_mem_cons,← ih]
    omega

theorem foldlM_sizes {ε : Type} {step : ResultSizes → β → Except ε ResultSizes} {size : β → Nat} {xs : List β}
    (steps : ∀ x ∈ xs,∀ sizes,step sizes x = .ok ⟨sizes.numResults + size x,sizes.inserted,sizes.deleted⟩) (sizes : ResultSizes) :
    xs.foldlM step sizes = .ok ⟨sizes.numResults + (xs.map size).sum,sizes.inserted,sizes.deleted⟩ := by
  induction xs generalizing sizes with
  | nil => rfl
  | cons x xs ih =>
    rw [foldlM_cons,steps x mem_cons_self]
    refine (ih (forall_mem_cons.mp steps).2 _).trans ?_
    simp [Nat.add_assoc]

theorem length_joinBlocks (outer inner : β → List α) (blocks : List β) : (joinBlocks outer inner blocks).length =
    ((outerBlocks blocks).map (fun block => (outer block).length)).sum + ((innerBlocks blocks).map (fun block => (inner block).length)).sum := by
  match blocks with
  | [] => rfl
  | [block] => simp [joinBlocks,outerBlocks,innerBlocks]
  | block::next::blocks =>
    simp only [joinBlocks,outerBlocks,innerBlocks,length_append,length_flatMap,tail_cons,map_cons,map_nil,sum_cons,sum_nil]
    omega

end Sums

section Sizes
variable [LinearOrder Id] [BoundedOrder Id] {metadata : List (CompressedBlockMetadata Id)} {file : File Id} {ltpb : LocatedTriplesPerBlock Id}
  {scanSpec : ScanSpecification Id} {scanSpecAndBlocks : ScanSpecAndBlocks Id} {block : CompressedBlockMetadata Id} {divisor : Nat}

def contentOf (read : Except ScanFailure (Option (Table Id))) : Table Id :=
  match read with
  | .ok table => table.getD []
  | .error _ => []

def innerSize (file : File Id) (ltpb : LocatedTriplesPerBlock Id) (scanSpec : ScanSpecification Id) (block : CompressedBlockMetadata Id) : Nat :=
  if ltpb.map block.blockIndex = [] then block.numRows
  else (contentOf (readAndDecompressBlock file block (getScanConfig scanSpec [] ltpb))).length

theorem sizes_of_scan {blocks : List (CompressedBlockMetadata Id)} (scan : ScanBlocks file ltpb scanSpecAndBlocks.scanSpec blocks)
    (view : getBlockMetadataView scanSpecAndBlocks = blocks)
    (reads : ∀ block ∈ innerBlocks blocks,∃ table,readAndDecompressBlock file block (getScanConfig scanSpecAndBlocks.scanSpec [] ltpb) = .ok table) :
    (∃ tables,lazyScan file scanSpecAndBlocks.scanSpec blocks [] ltpb = .ok tables ∧ tables.flatten.length =
        ((outerBlocks blocks).map (fun block => (scannedRows file ltpb scanSpecAndBlocks.scanSpec block).length)).sum +
          ((innerBlocks blocks).map (fun block => (contentOf (readAndDecompressBlock file block (getScanConfig scanSpecAndBlocks.scanSpec [] ltpb))).length)).sum) ∧
      getResultSizeOfScan file divisor scanSpecAndBlocks ltpb =
        .ok (((outerBlocks blocks).map (fun block => (scannedRows file ltpb scanSpecAndBlocks.scanSpec block).length)).sum +
          ((innerBlocks blocks).map (innerSize file ltpb scanSpecAndBlocks.scanSpec)).sum) := by
  have outer : ∀ block ∈ outerBlocks blocks,readPossiblyIncompleteBlock file scanSpecAndBlocks.scanSpec (getScanConfig scanSpecAndBlocks.scanSpec [] ltpb) block ltpb =
      .ok ((scannedRows file ltpb scanSpecAndBlocks.scanSpec block).map (StoredRow.select (columnsFrom (numFixed scanSpecAndBlocks.scanSpec) []))) :=
    fun block member => readOuter_withoutGraph (scan.each block (outerBlocks_subset blocks member))
  constructor
  · have contents : ∀ block ∈ innerBlocks blocks,∃ table,readAndDecompressBlock file block (getScanConfig scanSpecAndBlocks.scanSpec [] ltpb) = .ok table ∧
        table.getD [] = contentOf (readAndDecompressBlock file block (getScanConfig scanSpecAndBlocks.scanSpec [] ltpb)) := by
      intro block member
      obtain ⟨table,read⟩ := reads block member
      refine ⟨table,read,?_⟩
      rw [read]
      rfl
    obtain ⟨tables,ran,content⟩ := lazyScan_eq outer contents
    refine ⟨tables,ran,?_⟩
    rw [content,length_joinBlocks]
    simp
  · have outerSteps : ∀ block ∈ outerBlocks blocks,∀ sizes,readSizeOfPossiblyIncompleteBlock file true divisor scanSpecAndBlocks.scanSpec
        (getScanConfig scanSpecAndBlocks.scanSpec [] ltpb) ltpb sizes block =
          .ok ⟨sizes.numResults + (scannedRows file ltpb scanSpecAndBlocks.scanSpec block).length,sizes.inserted,sizes.deleted⟩ := by
      intro block member sizes
      rw [readSizeOfPossiblyIncompleteBlock,if_pos rfl,outer block member]
      simp [bind,Except.bind,pure,Except.pure]
    have innerSteps : ∀ block ∈ innerBlocks blocks,∀ sizes,sizeOfInnerBlock file true (getScanConfig scanSpecAndBlocks.scanSpec [] ltpb) ltpb sizes block =
        .ok ⟨sizes.numResults + innerSize file ltpb scanSpecAndBlocks.scanSpec block,sizes.inserted,sizes.deleted⟩ := by
      intro block member sizes
      obtain ⟨table,read⟩ := reads block member
      rw [sizeOfInnerBlock,innerSize,LocatedTriplesPerBlock.numAddedAndDeleted]
      by_cases noUpdates : ltpb.map block.blockIndex = []
      · simp [noUpdates]
      · simp [noUpdates,read,contentOf,bind,Except.bind,pure,Except.pure]
    rw [getResultSizeOfScan,getResultSizeImpl]
    simp only [view,foldlM_sizes outerSteps,foldlM_sizes innerSteps,bind,Except.bind,pure,Except.pure]
    simp

variable {filter : FilterDuplicatesAndGraphs Id} {columns : List Nat}

theorem readAndDecompressBlock_total (isBlock : IsBlock file ltpb block) {k : Nat}
    {includeGraphColumn : Bool} (prepared : prepareLocatedTriples columns = .ok (k,includeGraphColumn)) (positive : 1 ≤ k) (small : k ≤ 3)
    (wide : k + includeGraphColumn.toNat ≤ columns.length) (inRange : ∀ column ∈ columns,column < block.offsetsAndCompressedSize.length) :
    ∃ table,readAndDecompressBlock file block ⟨columns,filter,ltpb⟩ = .ok table := by
  rw [readAndDecompressBlock]
  split
  · exact ⟨none,rfl⟩
  · have merged : ∀ rows : IdTable Id columns.length,mergeLocatedTriples ltpb block.blockIndex rows k includeGraphColumn = .ok _ :=
      fun rows => mergeLocatedTriples_eq positive small wide rows
    rw [decompressAndPostprocessBlock]
    simp only [decompressBlock_eq isBlock inRange,prepared,merged,bind,Except.bind,pure,Except.pure]
    exact ⟨_,rfl⟩

theorem readInner_total (isBlock : IsBlock file ltpb block) (atMostTwo : scanSpec.col2Id = none) :
    ∃ table,readAndDecompressBlock file block (getScanConfig scanSpec [] ltpb) = .ok table := by
  have small := numFixed_le_two atMostTwo
  rw [getScanConfig_withoutGraph]
  split
  · exact readAndDecompressBlock_total isBlock (prepareLocatedTriples_withoutGraph (by omega)) (by omega) (by omega) (by simp [columnsFrom])
      (columnsFrom_inRange isBlock (by omega) (by simp))
  · exact readAndDecompressBlock_total isBlock (prepareLocatedTriples_withGraph (by omega) (by simp)) (by omega) (by omega) (by simp [columnsFrom])
      (columnsFrom_inRange isBlock (by omega) (by simp [ADDITIONAL_COLUMN_GRAPH_ID]))

def isSkipped (ltpb : LocatedTriplesPerBlock Id) (scanSpec : ScanSpecification Id) (block : CompressedBlockMetadata Id) : Bool :=
  (getScanConfig scanSpec [] ltpb).graphFilter.canBlockBeSkipped block

theorem readAndDecompressBlock_fails (isBlock : IsBlock file ltpb block)     {includeGraphColumn : Bool} (prepared : prepareLocatedTriples columns = .ok (0,includeGraphColumn))
    (inRange : ∀ column ∈ columns,column < block.offsetsAndCompressedSize.length) (updates : ltpb.map block.blockIndex ≠ [])
    (notSkipped : filter.canBlockBeSkipped block = false) :
    readAndDecompressBlock file block ⟨columns,filter,ltpb⟩ = .error (.merge .notOneIndexColumn) := by
  have contained : ltpb.containsTriples block.blockIndex = true := by
    simpa [LocatedTriplesPerBlock.containsTriples,LocatedTriplesPerBlock.hasUpdates] using updates
  have merged : ∀ rows : IdTable Id columns.length,
      mergeLocatedTriples ltpb block.blockIndex rows 0 includeGraphColumn = .error (.merge .notOneIndexColumn) := by
    intro rows
    rw [mergeLocatedTriples,if_pos contained,mergeTriples]
    rfl
  rw [readAndDecompressBlock,if_neg (by simp [notSkipped]),decompressAndPostprocessBlock]
  simp only [decompressBlock_eq isBlock inRange,prepared,merged,bind,Except.bind]

theorem readInner_fails (isBlock : IsBlock file ltpb block) (fixed : scanSpec.col2Id ≠ none) (updates : ltpb.map block.blockIndex ≠ [])
    (notSkipped : isSkipped ltpb scanSpec block = false) :
    readAndDecompressBlock file block (getScanConfig scanSpec [] ltpb) = .error (.merge .notOneIndexColumn) := by
  have three : numFixed scanSpec = 3 := by
    obtain ⟨a,col2⟩ := Option.ne_none_iff_exists'.mp fixed
    obtain ⟨b,col1⟩ := Option.isSome_iff_exists.mp (scanSpec.validate.2 (by simp [col2]))
    obtain ⟨c,col0⟩ := Option.isSome_iff_exists.mp (scanSpec.validate.1 (by simp [col1]))
    simp [numFixed,ScanSpecification.firstFreeColIndex,col0,col1,col2]
  have small := numFixed_le scanSpec
  rw [isSkipped,getScanConfig_withoutGraph,three] at notSkipped
  rw [getScanConfig_withoutGraph,three]
  by_cases noFilter : scanSpec.graphsToFilter.isNone = true
  · rw [if_pos noFilter] at notSkipped ⊢
    exact readAndDecompressBlock_fails isBlock (prepareLocatedTriples_withoutGraph (le_refl 3)) (by simp [columnsFrom]) updates notSkipped
  · rw [if_neg noFilter] at notSkipped ⊢
    have inRange : ∀ column ∈ columnsFrom 3 [ADDITIONAL_COLUMN_GRAPH_ID],column < block.offsetsAndCompressedSize.length :=
      three ▸ columnsFrom_inRange isBlock small (by simp [ADDITIONAL_COLUMN_GRAPH_ID])
    exact readAndDecompressBlock_fails isBlock (prepareLocatedTriples_withGraph (le_refl 3) (pairwise_singleton _ _)) inRange updates notSkipped

section
variable {blocks : List (CompressedBlockMetadata Id)}

theorem length_content_iff (scan : ScanBlocks file ltpb scanSpec blocks) (member : block ∈ innerBlocks blocks)
    (noUpdates : ltpb.map block.blockIndex = []) :
    (contentOf (readAndDecompressBlock file block (getScanConfig scanSpec [] ltpb))).length ≤ block.numRows ∧
      ((contentOf (readAndDecompressBlock file block (getScanConfig scanSpec [] ltpb))).length = block.numRows ↔
        (∀ x ∈ file block.blockIndex,wanted scanSpec.graphsToFilter x.quad = true) ∧ DistinctTriples (file block.blockIndex)) := by
  have isBlock := scan.each block (innerBlocks_subset blocks member)
  obtain ⟨table,read,content⟩ := readInner_withoutGraph scan member noUpdates
  have contents : contentOf (readAndDecompressBlock file block (getScanConfig scanSpec [] ltpb)) = innerRows file ltpb scanSpec block := by
    rw [read]
    exact content
  have rows : scannedRows file ltpb scanSpec block = (file block.blockIndex).filter (fun x => wanted scanSpec.graphsToFilter x.quad) := by
    rw [scan.scannedRows_inner member,updatedRows_withoutUpdates noUpdates]
  have isMatch : ∀ x ∈ file block.blockIndex,scanSpec.isMatch x.quad = true := by
    intro x isRow
    obtain ⟨above,below⟩ := isBlock.insideRows x isRow
    exact scan.isMatch_of_inner member above below
  have sub : (innerRows file ltpb scanSpec block).Sublist _ := innerRows_sublist
  rw [contents,← isBlock.numRows]
  have shorter : (innerRows file ltpb scanSpec block).length ≤ (file block.blockIndex).length := by
    have filtered := length_filter_le (fun x : StoredRow Id => wanted scanSpec.graphsToFilter x.quad) (file block.blockIndex)
    have unique := sub.length_le
    rw [length_map,rows] at unique
    exact unique.trans filtered
  refine ⟨shorter,?_⟩
  constructor
  · intro same
    have long := sub.length_le
    rw [length_map,rows,same] at long
    have all : (file block.blockIndex).filter (fun x => wanted scanSpec.graphsToFilter x.quad) = file block.blockIndex :=
      filter_sublist.eq_of_length_le long
    have whole : innerRows file ltpb scanSpec block = (file block.blockIndex).map (freeColumns scanSpec) := by
      have equal := sub.eq_of_length_le (by rw [length_map,rows,all,same])
      rwa [rows,all] at equal
    refine ⟨filter_eq_self.mp all,?_⟩
    have nodup : (innerRows file ltpb scanSpec block).Nodup := innerRows_nodup isBlock noUpdates
    rw [whole] at nodup
    refine (pairwise_map.mp nodup).imp_of_mem ?_
    intro x y isX isY different sameTriple
    exact different ((freeColumns_eq_iff (isMatch x isX) (isMatch y isY)).mpr sameTriple)
  · rintro ⟨all,distinct⟩
    have allRows : scannedRows file ltpb scanSpec block = file block.blockIndex := by
      rw [rows]
      exact filter_eq_self.mpr all
    have nodup : ((scannedRows file ltpb scanSpec block).map (freeColumns scanSpec)).Pairwise (fun x y => decide (x = y) = false) := by
      rw [allRows]
      apply pairwise_map.mpr
      refine List.Pairwise.imp_of_mem ?_ distinct
      intro x y isX isY different
      exact decide_eq_false (fun same => different ((freeColumns_eq_iff (isMatch x isX) (isMatch y isY)).mp same))
    rw [innerRows,FilterDuplicatesAndGraphs.filterDuplicatesIfNecessary,unique_eq_self nodup,ite_self,length_map,allRows]

def SizeAgrees (file : File Id) (divisor : Nat) (scanSpecAndBlocks : ScanSpecAndBlocks Id) (ltpb : LocatedTriplesPerBlock Id) : Prop :=
  ∃ tables,lazyScan file scanSpecAndBlocks.scanSpec (getBlockMetadataView scanSpecAndBlocks) [] ltpb = .ok tables ∧
    scan file scanSpecAndBlocks [] ltpb = .ok tables.flatten ∧ getResultSizeOfScan file divisor scanSpecAndBlocks ltpb = .ok tables.flatten.length

/-- The inner blocks without updates have only rows of the desired graphs and no triple in several graphs, and the others can be read. -/
def SizesKnown (file : File Id) (ltpb : LocatedTriplesPerBlock Id) (scanSpec : ScanSpecification Id) (blocks : List (CompressedBlockMetadata Id)) : Prop :=
  ∀ block ∈ innerBlocks blocks,
    if ltpb.map block.blockIndex = [] then
      (∀ x ∈ file block.blockIndex,wanted scanSpec.graphsToFilter x.quad = true) ∧ DistinctTriples (file block.blockIndex)
    else scanSpec.col2Id = none ∨ isSkipped ltpb scanSpec block = true

theorem reads_of_lazyScan {additionalColumns : List Nat} {tables : List (Table Id)}
    (ran : lazyScan file scanSpec blocks additionalColumns ltpb = .ok tables) :
    ∀ block ∈ innerBlocks blocks,∃ table,readAndDecompressBlock file block (getScanConfig scanSpec additionalColumns ltpb) = .ok table := by
  rw [lazyScan,bind_eq_ok] at ran
  obtain ⟨all,ran,_⟩ := ran
  rcases blocks with _ | ⟨block,_ | ⟨next,blocks⟩⟩
  · simp [innerBlocks]
  · simp [innerBlocks]
  · simp only [lazyScanTables,bind_eq_ok] at ran
    obtain ⟨_,_,inner,generated,_⟩ := ran
    rw [asyncParallelBlockGenerator,bind_eq_ok] at generated
    obtain ⟨reads,run,_⟩ := generated
    intro other member
    exact ok_of_mem_mapM run member

theorem sizeAgrees_iff_of_scan (scan : ScanBlocks file ltpb scanSpecAndBlocks.scanSpec blocks)
    (view : getBlockMetadataView scanSpecAndBlocks = blocks) :
    SizeAgrees file divisor scanSpecAndBlocks ltpb ↔ SizesKnown file ltpb scanSpecAndBlocks.scanSpec blocks := by
  have smaller : ∀ block ∈ innerBlocks blocks,(contentOf (readAndDecompressBlock file block (getScanConfig scanSpecAndBlocks.scanSpec [] ltpb))).length ≤
      innerSize file ltpb scanSpecAndBlocks.scanSpec block := by
    intro block member
    rw [innerSize]
    split
    next noUpdates => exact (length_content_iff scan member noUpdates).1
    next => exact le_refl _
  rw [SizeAgrees,view]
  constructor
  · rintro ⟨tables,ran,_,size⟩ block member
    have reads := reads_of_lazyScan ran
    obtain ⟨⟨others,ran',length⟩,size'⟩ := sizes_of_scan scan view reads
    cases ran.symm.trans ran'
    have equal := Except.ok.inj (size.symm.trans size')
    rw [length,Nat.add_left_cancel_iff,sum_eq_iff smaller] at equal
    split
    next noUpdates =>
      have same := equal block member
      rw [innerSize,if_pos noUpdates] at same
      exact (length_content_iff scan member noUpdates).2.mp same
    next updates =>
      by_contra unreadable
      rw [not_or,Bool.not_eq_true] at unreadable
      obtain ⟨table,read⟩ := reads block member
      have fails := readInner_fails (scan.each block (innerBlocks_subset blocks member)) unreadable.1 updates unreadable.2
      exact absurd (fails.symm.trans read) (by simp)
  · intro known
    have reads : ∀ block ∈ innerBlocks blocks,∃ table,readAndDecompressBlock file block (getScanConfig scanSpecAndBlocks.scanSpec [] ltpb) = .ok table := by
      intro block member
      have isKnown := known block member
      split at isKnown
      next noUpdates =>
        obtain ⟨table,read,_⟩ := readInner_withoutGraph scan member noUpdates
        exact ⟨table,read⟩
      next =>
        rcases isKnown with atMostTwo | skipped
        · exact readInner_total (scan.each block (innerBlocks_subset blocks member)) atMostTwo
        · exact ⟨none,if_pos skipped⟩
    obtain ⟨⟨tables,ran,length⟩,size⟩ := sizes_of_scan scan view reads
    refine ⟨tables,ran,?_,?_⟩
    · rw [CompressedRelationReader.scan,view,ran]
      rfl
    · rw [size,length,(sum_eq_iff smaller).mpr]
      intro block member
      have isKnown := known block member
      rw [innerSize]
      split at isKnown
      next noUpdates =>
        rw [if_pos noUpdates]
        exact (length_content_iff scan member noUpdates).2.mpr isKnown
      next updates => rw [if_neg updates]

end

theorem sizeAgrees_iff (stored : Stored metadata file) {keyOrder : KeyOrder} {operations : List (LocatedTriplesPerBlock.Operation Id)}
    (ran : LocatedTriplesPerBlock.run metadata keyOrder operations = .ok ltpb) {blocks : List (CompressedBlockMetadata Id)}
    (augmented : ltpb.updateAugmentedMetadata.getAugmentedMetadata = .ok blocks)
    (made : makeScanSpecAndBlocks scanSpec [blocks] = .ok scanSpecAndBlocks) (divisor : Nat) :
    SizeAgrees file divisor scanSpecAndBlocks ltpb.updateAugmentedMetadata ↔
      SizesKnown file ltpb.updateAugmentedMetadata scanSpec (getBlockMetadataView scanSpecAndBlocks) := by
  obtain ⟨well,same⟩ := augmented_of_run ran augmented
  subst same
  have sameSpec := scanSpec_of_made stored well made
  obtain ⟨_,scan⟩ := scanBlocks_of_run stored well made
  rw [← sameSpec] at scan ⊢
  exact sizeAgrees_iff_of_scan scan rfl

end Sizes

section ThreeBlocks
local instance idsPositive : NeZero 256 := ⟨by decide⟩

def threeBlocks : List (CompressedBlockMetadata (Fin 256)) :=
  [⟨replicate 4 ⟨0,0⟩,1,⟨1,1,1,0⟩,⟨1,1,1,0⟩,some [0],false,0⟩,
    ⟨replicate 4 ⟨0,0⟩,2,⟨2,2,2,0⟩,⟨2,2,2,1⟩,some [0,1],true,1⟩,
    ⟨replicate 4 ⟨0,0⟩,1,⟨3,3,3,0⟩,⟨3,3,3,0⟩,some [0],false,2⟩]

def threeBlocksFile : File (Fin 256)
  | 0 => [⟨⟨1,1,1,0⟩,[]⟩]
  | 1 => [⟨⟨2,2,2,0⟩,[]⟩,⟨⟨2,2,2,1⟩,[]⟩]
  | 2 => [⟨⟨3,3,3,0⟩,[]⟩]
  | _ => []

theorem threeBlocks_stored : Stored threeBlocks threeBlocksFile := by
  refine ⟨⟨⟨by decide,by decide,by decide⟩,?_,?_⟩,?_,by decide,?_,?_⟩
  · intro i block found
    match i,found with
    | 0,found => cases found; exact ⟨by decide,by rintro graphs ⟨⟩; decide⟩
    | 1,found => cases found; exact ⟨by decide,by rintro graphs ⟨⟩; decide⟩
    | 2,found => cases found; exact ⟨by decide,by rintro graphs ⟨⟩; decide⟩
  · intro i length
    match i,length with
    | i + 3,_ => rfl
  · intro i block found
    match i,found with
    | 0,found => cases found; rfl
    | 1,found => cases found; rfl
    | 2,found => cases found; rfl
  · intro i
    match i with
    | 0 | 1 | 2 => decide
    | i + 3 => exact List.Pairwise.nil
  · intro i block found noDuplicates
    match i,found with
    | 0,found => exact pairwise_singleton _ _
    | 1,found =>
      cases found
      exact absurd noDuplicates (by decide)
    | 2,found => exact pairwise_singleton _ _

theorem sizeAgrees_iff_threeBlocks :
    ∃ ltpb blocks scanSpecAndBlocks,LocatedTriplesPerBlock.run threeBlocks Permutation.SPO.toKeyOrder [.add [⟨2,2,2,5⟩] true] = .ok ltpb ∧
      ltpb.updateAugmentedMetadata.getAugmentedMetadata = .ok blocks ∧
      makeScanSpecAndBlocks (.allColumns none) [blocks] = .ok scanSpecAndBlocks ∧
      (SizeAgrees threeBlocksFile 5 scanSpecAndBlocks ltpb.updateAugmentedMetadata ↔
        SizesKnown threeBlocksFile ltpb.updateAugmentedMetadata (.allColumns none) (getBlockMetadataView scanSpecAndBlocks)) := by
  obtain ⟨ltpb,ran⟩ : ∃ ltpb,LocatedTriplesPerBlock.run threeBlocks Permutation.SPO.toKeyOrder [.add [⟨2,2,2,5⟩] true] = .ok ltpb := ⟨_,rfl⟩
  have ordered : OrderedBlocks [augmentedBlocks threeBlocks ltpb.updateAugmentedMetadata.map].flatten := by
    obtain ⟨well,_⟩ := augmented_of_run ran rfl
    simpa using (LocatedTriplesPerBlock.augmentedBlocks_sorted threeBlocks_stored.original well).ordered
  obtain ⟨_,same⟩ := augmented_of_run ran rfl
  have made := makeScanSpecAndBlocks_ok (.allColumns none) ordered
  rw [← same] at made
  exact ⟨ltpb,_,_,ran,rfl,made,sizeAgrees_iff threeBlocks_stored ran rfl made 5⟩

/-- Without updates, the metadata counts the triple of the second block twice, and the scan yields it once. -/
theorem threeBlocks_size : Stored threeBlocks threeBlocksFile ∧
    LocatedTriplesPerBlock.run threeBlocks Permutation.SPO.toKeyOrder [] = .ok (withoutUpdates threeBlocks) ∧
    makeScanSpecAndBlocks (.allColumns none) [threeBlocks] = .ok ⟨.allColumns none,[threeBlocks],3⟩ ∧
    ¬SizeAgrees threeBlocksFile 5 ⟨.allColumns none,[threeBlocks],3⟩ (withoutUpdates threeBlocks) := by
  refine ⟨threeBlocks_stored,rfl,rfl,?_⟩
  intro agrees
  have well : WellLocated threeBlocks (withoutUpdates threeBlocks) := ⟨fun _ => List.Pairwise.nil,by simp [withoutUpdates],rfl⟩
  have made : makeScanSpecAndBlocks (.allColumns none) [augmentedBlocks threeBlocks (withoutUpdates threeBlocks).map] =
      .ok ⟨.allColumns none,[threeBlocks],3⟩ := rfl
  obtain ⟨_,scan⟩ := scanBlocks_of_run threeBlocks_stored well made
  have known := (sizeAgrees_iff_of_scan scan rfl).mp agrees
  have second : _ ∧ DistinctTriples (threeBlocksFile 1) :=
    known ⟨replicate 4 ⟨0,0⟩,2,⟨2,2,2,0⟩,⟨2,2,2,1⟩,some [0,1],true,1⟩ (by decide)
  have distinct := second.2
  unfold DistinctTriples at distinct
  exact absurd distinct (by decide)

end ThreeBlocks

end CompressedRelationReader
end Qlever
