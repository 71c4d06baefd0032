import Qlever.ScannedBlocks

/-! The tables of a scan of a permutation with updates. -/
namespace Qlever
open Library MergeTriples List
open LocatedTriplesPerBlock (Visible Original GraphsKnown WellLocated augmentedBlocks)
variable {Id : Type}
namespace CompressedRelationReader

section Incomplete
variable [LinearOrder Id] [BoundedOrder Id] {file : File Id} {ltpb : LocatedTriplesPerBlock Id} {block : CompressedBlockMetadata Id}
  {scanSpec : ScanSpecification Id}

def payloadColumns (block : CompressedBlockMetadata Id) : List Nat := range' 4 (block.offsetsAndCompressedSize.length - 4)

def allColumns (block : CompressedBlockMetadata Id) : List Nat := columnsFrom 0 (ADDITIONAL_COLUMN_GRAPH_ID::payloadColumns block)

omit [LinearOrder Id] [BoundedOrder Id] in
theorem payloadColumns_ascending (block : CompressedBlockMetadata Id) : (ADDITIONAL_COLUMN_GRAPH_ID::payloadColumns block).Pairwise (· < ·) := by
  refine pairwise_cons.mpr ⟨?_,pairwise_lt_range'⟩
  intro column member
  exact (mem_range'_1.mp member).1

section
omit [BoundedOrder Id]

theorem allAdditionalColumns_eq (isBlock : IsBlock file ltpb block) : allAdditionalColumns block = ADDITIONAL_COLUMN_GRAPH_ID::payloadColumns block := by
  have columns := isBlock.columns
  have size : block.offsetsAndCompressedSize.length - 3 = block.offsetsAndCompressedSize.length - 4 + 1 := by omega
  rw [allAdditionalColumns,ADDITIONAL_COLUMN_GRAPH_ID,size,range'_succ]
  rfl

theorem length_allColumns (isBlock : IsBlock file ltpb block) : (allColumns block).length = block.offsetsAndCompressedSize.length := by
  have columns := isBlock.columns
  simp [allColumns,columnsFrom,payloadColumns]
  omega

end

omit [LinearOrder Id] [BoundedOrder Id] in
theorem getScanConfig_allColumns (graphs : Option (List Id)) (rest : List Nat) :
    getScanConfig (.allColumns graphs) (ADDITIONAL_COLUMN_GRAPH_ID::rest) ltpb =
      ⟨columnsFrom 0 (ADDITIONAL_COLUMN_GRAPH_ID::rest),⟨graphs,if graphs.isSome then 3 else 0,false⟩,ltpb⟩ := by
  cases graphs with
  | none => rfl
  | some graphs => simp [getScanConfig,prepareColumnIndices,ScanSpecification.allColumns,columnsFrom,ADDITIONAL_COLUMN_GRAPH_ID,range'_succ]

theorem readAllColumns_eq (isBlock : IsBlock file ltpb block) (graphs : Option (List Id)) :
    ∃ table,readAndDecompressBlock file block (getScanConfig (.allColumns graphs) (allAdditionalColumns block) ltpb) = .ok table ∧
      table.getD [] = ((updatedRows file ltpb block.blockIndex).filter (fun row => wanted graphs row.quad)).map (StoredRow.select (allColumns block)) := by
  have payload : ∀ column ∈ payloadColumns block,column < block.offsetsAndCompressedSize.length := by
    intro column member
    have bounds := mem_range'_1.mp member
    omega
  have graphColumn : graphs.isSome ∨ false = true → (if graphs.isSome then 3 else 0) = 3 - 0 := by
    simp +contextual
  let graphFilter : FilterDuplicatesAndGraphs Id := ⟨graphs,if graphs.isSome then 3 else 0,false⟩
  obtain ⟨table,read,content⟩ : ∃ table,readAndDecompressBlock file block ⟨allColumns block,graphFilter,ltpb⟩ = .ok table ∧ _ :=
    readAndDecompressBlock_withGraph isBlock (Nat.zero_le 2) (payloadColumns_ascending block) payload (fun _ _ => take_zero)
      (fun _ _ => take_zero) graphColumn
  have sorted := updatedRows_sorted isBlock.sortedRows isBlock.sortedUpdates
  refine ⟨table,?_,?_⟩
  · rw [allAdditionalColumns_eq isBlock,getScanConfig_allColumns]
    exact read
  · rw [content,outColumns,if_neg Bool.false_ne_true]
    exact filterDuplicates_withGraph (Nat.zero_le 2) (sorted.filter _) (fun _ _ => take_zero)

omit [LinearOrder Id] in
theorem select_allColumns [LE Id] [OrderBot Id] (row : StoredRow Id) {column : Nat}
    (inRange : column < block.offsetsAndCompressedSize.length) : (row.select (allColumns block)).getD column ⊥ = row.columns.getD column ⊥ := by
  have isColumn : (allColumns block)[column]? = some column := by
    rw [allColumns]
    rcases Nat.lt_or_ge 3 column with payload | inQuad
    · rw [getElem?_columnsFrom_payload payload,payloadColumns,List.getElem?_range' (by omega)]
      congr 1
      omega
    · rw [getElem?_columnsFrom (by omega) (by omega),Nat.zero_add]
  rw [getD_eq_getElem?_getD,StoredRow.select,List.getElem?_map,isColumn]
  rfl

theorem readAndNarrow_eq (isBlock : IsBlock file ltpb block) (graphs : Option (List Id)) {columns : List Nat}
    (inRange : ∀ column ∈ columns,column < block.offsetsAndCompressedSize.length) :
    readAndNarrow file scanSpec (getScanConfig (.allColumns graphs) (allAdditionalColumns block) ltpb) block columns =
      .ok (((updatedRows file ltpb block.blockIndex).filter (fun row => scanSpec.isMatch row.quad && wanted graphs row.quad)).map
        (StoredRow.select columns)) := by
  obtain ⟨table,read,content⟩ := readAllColumns_eq isBlock graphs
  have sorted := (updatedRows_sorted isBlock.sortedRows isBlock.sortedUpdates).filter (fun row => wanted graphs row.quad)
  have narrowed := filterColumns_eq scanSpec (StoredRow.select (allColumns block)) sorted (fun _ => rfl) (fun _ => rfl) (fun _ => rfl)
  have width : (getScanConfig (.allColumns graphs) (allAdditionalColumns block) ltpb).scanColumns.length = block.offsetsAndCompressedSize.length := by
    rw [allAdditionalColumns_eq isBlock,getScanConfig_allColumns]
    exact length_allColumns isBlock
  have noneMissing : ¬columns.any (fun column => decide (block.offsetsAndCompressedSize.length ≤ column)) = true := by simpa using inRange
  rw [readAndNarrow,read]
  simp only [bind,Except.bind,pure,Except.pure,content,narrowed,width,if_neg noneMissing,map_map,filter_filter]
  congr 1
  apply map_congr_left
  intro row _
  apply map_congr_left
  intro column member
  exact select_allColumns row (inRange column member)

theorem readPossiblyIncompleteBlock_eq (isBlock : IsBlock file ltpb block) (scanConfig : ScanImplConfig Id)
    (inRange : ∀ column ∈ scanConfig.scanColumns,column < block.offsetsAndCompressedSize.length) :
    readPossiblyIncompleteBlock file scanSpec scanConfig block ltpb =
      .ok (((updatedRows file ltpb block.blockIndex).filter
        (fun row => scanSpec.isMatch row.quad && wanted scanConfig.graphFilter.desiredGraphs row.quad)).map
          (StoredRow.select (scanConfig.scanColumns.filter (fun idx => !scanConfig.graphFilter.deleteGraphColumn || idx ≠ ADDITIONAL_COLUMN_GRAPH_ID)))) := by
  have four := isBlock.columns
  have enough : ¬block.offsetsAndCompressedSize.length ≤ ADDITIONAL_COLUMN_GRAPH_ID := by
    rw [ADDITIONAL_COLUMN_GRAPH_ID]
    omega
  rw [readPossiblyIncompleteBlock,if_neg enough]
  exact readAndNarrow_eq isBlock _ (fun column member => inRange column (mem_filter.mp member).1)

end Incomplete

section Config
variable {scanSpec : ScanSpecification Id} {ltpb : LocatedTriplesPerBlock Id} {rest : List Nat}

def numFixed (scanSpec : ScanSpecification Id) : Nat := scanSpec.firstFreeColIndex.val

theorem numFixed_le (scanSpec : ScanSpecification Id) : numFixed scanSpec ≤ 3 := Nat.lt_succ_iff.mp scanSpec.firstFreeColIndex.isLt

theorem numFixed_le_two (col2 : scanSpec.col2Id = none) : numFixed scanSpec ≤ 2 := by
  rw [numFixed,ScanSpecification.firstFreeColIndex,col2]
  cases scanSpec.col0Id <;> cases scanSpec.col1Id <;> simp

theorem prepareColumnIndices_eq (scanSpec : ScanSpecification Id) (additionalColumns : List Nat) :
    prepareColumnIndices scanSpec additionalColumns = columnsFrom (numFixed scanSpec) additionalColumns := by
  obtain ⟨col0Id,col1Id,col2Id,graphs,validate⟩ := scanSpec
  cases col0Id <;> cases col1Id <;> cases col2Id <;> first | rfl | simp at validate

section
variable (scanSpec : ScanSpecification Id) (ltpb : LocatedTriplesPerBlock Id)

theorem getScanConfig_withGraph (rest : List Nat) :
    getScanConfig scanSpec (ADDITIONAL_COLUMN_GRAPH_ID::rest) ltpb =
      ⟨columnsFrom (numFixed scanSpec) (ADDITIONAL_COLUMN_GRAPH_ID::rest),
        ⟨scanSpec.graphsToFilter,if scanSpec.graphsToFilter.isSome then 3 - numFixed scanSpec else 0,false⟩,ltpb⟩ := by
  have small := numFixed_le scanSpec
  rw [getScanConfig,prepareColumnIndices_eq]
  cases isDesired : scanSpec.graphsToFilter with
  | none => simp
  | some graphs =>
    obtain fixed | fixed | fixed | fixed : numFixed scanSpec = 0 ∨ numFixed scanSpec = 1 ∨ numFixed scanSpec = 2 ∨ numFixed scanSpec = 3 := by omega
    all_goals simp [fixed,columnsFrom,ADDITIONAL_COLUMN_GRAPH_ID,range'_succ]

theorem getScanConfig_withoutGraph :
    getScanConfig scanSpec [] ltpb =
      if scanSpec.graphsToFilter.isNone then ⟨columnsFrom (numFixed scanSpec) [],⟨scanSpec.graphsToFilter,0,false⟩,ltpb⟩
      else ⟨columnsFrom (numFixed scanSpec) [ADDITIONAL_COLUMN_GRAPH_ID],⟨scanSpec.graphsToFilter,3 - numFixed scanSpec,true⟩,ltpb⟩ := by
  have small := numFixed_le scanSpec
  rw [getScanConfig,prepareColumnIndices_eq]
  obtain fixed | fixed | fixed | fixed : numFixed scanSpec = 0 ∨ numFixed scanSpec = 1 ∨ numFixed scanSpec = 2 ∨ numFixed scanSpec = 3 := by omega
  all_goals simp [fixed,columnsFrom,ADDITIONAL_COLUMN_GRAPH_ID,range'_succ]

end

end Config

section Tables
variable [LinearOrder Id] [BoundedOrder Id] {file : File Id} {ltpb : LocatedTriplesPerBlock Id} {scanSpec : ScanSpecification Id}
  {additionalColumns : List Nat} {blocks : List (CompressedBlockMetadata Id)} {outer inner : CompressedBlockMetadata Id → Table Id}

def innerBlocks {β : Type} (blocks : List β) : List β := blocks.tail.dropLast

def outerBlocks {β : Type} (blocks : List β) : List β :=
  match blocks with
  | [] => []
  | [block] => [block]
  | block::next::blocks => [block,(next::blocks).getLast (cons_ne_nil next blocks)]

def joinBlocks {β α : Type} (outer inner : β → List α) (blocks : List β) : List α :=
  match blocks with
  | [] => []
  | [block] => outer block
  | block::next::blocks => outer block ++ (next::blocks).dropLast.flatMap inner ++ outer ((next::blocks).getLast (cons_ne_nil next blocks))

theorem joinBlocks_same {β α : Type} (outer inner : β → List α) {blocks : List β} (same : ∀ block ∈ innerBlocks blocks,inner block = outer block) :
    joinBlocks outer inner blocks = blocks.flatMap outer := by
  match blocks with
  | [] => rfl
  | [block] => simp [joinBlocks]
  | block::next::blocks =>
    have middle : (next::blocks).dropLast.flatMap inner = (next::blocks).dropLast.flatMap outer := flatMap_congr same
    have split := dropLast_concat_getLast (cons_ne_nil next blocks)
    rw [joinBlocks,middle,flatMap_cons,append_assoc]
    conv_rhs => rw [← split]
    simp

theorem mapM_readAndDecompressBlock {scanConfig : ScanImplConfig Id}
    (reads : ∀ block ∈ blocks,∃ table,readAndDecompressBlock file block scanConfig = .ok table ∧ table.getD [] = inner block) :
    ∃ tables,asyncParallelBlockGenerator file blocks scanConfig = .ok tables ∧ tables.flatten = blocks.flatMap inner := by
  induction blocks with
  | nil => exact ⟨[],rfl,rfl⟩
  | cons block blocks ih =>
    obtain ⟨table,read,content⟩ := reads block mem_cons_self
    obtain ⟨tables,generated,contents⟩ := ih (forall_mem_cons.mp reads).2
    rw [asyncParallelBlockGenerator,bind_eq_ok] at generated
    obtain ⟨read',later,same⟩ := generated
    cases pure_eq_ok.mp same
    refine ⟨(table::read').filterMap id,?_,?_⟩
    · rw [asyncParallelBlockGenerator,mapM_cons,read]
      simp only [bind,Except.bind] at later ⊢
      rw [later]
      rfl
    · rw [flatMap_cons,← contents,← content]
      cases table <;> rfl

theorem lazyScan_eq
    (first : ∀ block ∈ outerBlocks blocks,readPossiblyIncompleteBlock file scanSpec (getScanConfig scanSpec additionalColumns ltpb) block ltpb = .ok (outer block))
    (reads : ∀ block ∈ innerBlocks blocks,∃ table,readAndDecompressBlock file block (getScanConfig scanSpec additionalColumns ltpb) = .ok table ∧
      table.getD [] = inner block) :
    ∃ tables,lazyScan file scanSpec blocks additionalColumns ltpb = .ok tables ∧ tables.flatten = joinBlocks outer inner blocks := by
  have scanned : ∃ tables,lazyScanTables file scanSpec blocks additionalColumns ltpb = .ok tables ∧ tables.flatten = joinBlocks outer inner blocks := by
    match blocks with
    | [] => exact ⟨[],rfl,rfl⟩
    | [block] =>
      refine ⟨[outer block],?_,by simp [joinBlocks]⟩
      simp only [lazyScanTables,first block mem_cons_self]
      rfl
    | block::next::blocks =>
      obtain ⟨tables,generated,contents⟩ := mapM_readAndDecompressBlock reads
      refine ⟨outer block::tables ++ [outer ((next::blocks).getLast (cons_ne_nil next blocks))],?_,?_⟩
      · have last := first ((next::blocks).getLast (cons_ne_nil next blocks)) (by simp [outerBlocks])
        simp only [lazyScanTables,first block mem_cons_self,last]
        simp only [innerBlocks,tail_cons] at generated
        rw [generated]
        rfl
      · rw [joinBlocks,flatten_append,flatten_cons,contents]
        simp [innerBlocks]
  obtain ⟨tables,run,contents⟩ := scanned
  refine ⟨tables.filter (fun table => !table.isEmpty),?_,?_⟩
  · rw [lazyScan,run]
    rfl
  · rw [flatten_filter_not_isEmpty,contents]

end Tables

section Match
variable {scanSpec : ScanSpecification Id} {quad : IdTriple Id}

def fixedIds (scanSpec : ScanSpecification Id) : List Id := [scanSpec.col0Id,scanSpec.col1Id,scanSpec.col2Id].filterMap id

theorem take_ids_of_isMatch
    [DecidableEq Id] (isMatch : scanSpec.isMatch quad = true) : (MergeTriples.ids quad).take (numFixed scanSpec) = fixedIds scanSpec := by
  obtain ⟨col0Id,col1Id,col2Id,graphs,validate⟩ := scanSpec
  cases col0Id <;> cases col1Id <;> cases col2Id <;> simp at validate
  all_goals simp_all [ScanSpecification.isMatch,fixedIds,numFixed,ScanSpecification.firstFreeColIndex,MergeTriples.ids]

variable [LinearOrder Id] [BoundedOrder Id]

theorem isMatch_iff : scanSpec.isMatch quad = true ↔ scanSpec.firstTriple ≤ quad ∧ quad ≤ scanSpec.lastTriple := by
  obtain ⟨col0Id,col1Id,col2Id,graphs,validate⟩ := scanSpec
  simp only [← not_lt,IdTriple.lt_iff,ScanSpecification.firstTriple,ScanSpecification.lastTriple,ScanSpecification.isMatch]
  cases col0Id <;> cases col1Id <;> cases col2Id <;> simp at validate
  all_goals simp
  all_goals grind

end Match

section Scanned
variable [LinearOrder Id] [BoundedOrder Id] {metadata : List (CompressedBlockMetadata Id)} {file : File Id} {ltpb : LocatedTriplesPerBlock Id}
  {scanSpec : ScanSpecification Id} {blocks : List (CompressedBlockMetadata Id)} {block : CompressedBlockMetadata Id} {quad : IdTriple Id}

def scannedRows (file : File Id) (ltpb : LocatedTriplesPerBlock Id) (scanSpec : ScanSpecification Id) (block : CompressedBlockMetadata Id) :
    List (StoredRow Id) :=
  (updatedRows file ltpb block.blockIndex).filter (fun row => scanSpec.isMatch row.quad && wanted scanSpec.graphsToFilter row.quad)

structure ScanBlocks (file : File Id) (ltpb : LocatedTriplesPerBlock Id) (scanSpec : ScanSpecification Id) (blocks : List (CompressedBlockMetadata Id)) :
    Prop where
  each : ∀ block ∈ blocks,IsBlock file ltpb block
  ordered : OrderedBlocks blocks
  relevant : ∀ block ∈ blocks,isRelevant scanSpec block = true

theorem ScanBlocks.quad_inside (scan : ScanBlocks file ltpb scanSpec blocks) (member : block ∈ blocks) {row : StoredRow Id}
    (isRow : row ∈ updatedRows file ltpb block.blockIndex) : block.firstTriple ≤ row.quad ∧ row.quad ≤ block.lastTriple := by
  have isBlock := scan.each block member
  exact isBlock.inside ((mem_updatedRows isBlock.sortedRows isBlock.sortedUpdates).mp (mem_map_of_mem isRow))

theorem mem_innerBlocks {β : Type} {blocks : List β} {block : β} (member : block ∈ innerBlocks blocks) :
    ∃ i previous next,blocks[i]? = some previous ∧ blocks[i + 1]? = some block ∧ blocks[i + 2]? = some next := by
  obtain ⟨i,found⟩ := List.getElem?_of_mem member
  rw [innerBlocks,List.getElem?_dropLast] at found
  split at found
  next inside =>
    rw [length_tail] at inside
    rw [List.getElem?_tail] at found
    exact ⟨i,_,_,List.getElem?_eq_getElem (by omega),found,List.getElem?_eq_getElem (by omega)⟩
  next => simp at found

theorem innerBlocks_subset {β : Type} (blocks : List β) : innerBlocks blocks ⊆ blocks :=
  ((dropLast_sublist _).trans (List.tail_sublist _)).subset

theorem outerBlocks_subset {β : Type} (blocks : List β) : outerBlocks blocks ⊆ blocks := by
  match blocks with
  | [] => exact List.Subset.refl _
  | [block] => exact List.Subset.refl _
  | block::next::blocks =>
    intro other member
    rcases mem_cons.mp member with rfl | last
    · exact mem_cons_self
    · rw [mem_singleton.mp last]
      exact mem_cons_of_mem _ (getLast_mem _)

section
variable (scan : ScanBlocks file ltpb scanSpec blocks) (member : block ∈ innerBlocks blocks)
include scan member

theorem ScanBlocks.isMatch_of_inner (above : block.firstTriple ≤ quad) (below : quad ≤ block.lastTriple) : scanSpec.isMatch quad = true := by
  obtain ⟨i,previous,next,foundPrevious,found,foundNext⟩ := mem_innerBlocks member
  have fromPrevious := between_of_relevant scan.ordered scan.relevant foundPrevious found (Nat.lt_succ_self i)
  have toNext := between_of_relevant scan.ordered scan.relevant found foundNext (Nat.lt_succ_self (i + 1))
  exact isMatch_iff.mpr ⟨fromPrevious.2.1.trans above,below.trans toNext.1.2⟩

theorem ScanBlocks.shared :
    (∀ row ∈ file block.blockIndex,(MergeTriples.ids row.quad).take (numFixed scanSpec) = fixedIds scanSpec) ∧
      ∀ located ∈ locatedTriplesOfBlock ltpb block.blockIndex,(MergeTriples.ids located.triple).take (numFixed scanSpec) = fixedIds scanSpec := by
  have isBlock := scan.each block (innerBlocks_subset blocks member)
  constructor
  · intro row isRow
    obtain ⟨above,below⟩ := isBlock.insideRows row isRow
    exact take_ids_of_isMatch (scan.isMatch_of_inner member above below)
  · intro located isLocated
    obtain ⟨node,isNode,rfl⟩ := mem_locatedTriplesOfBlock.mp isLocated
    obtain ⟨above,below⟩ := isBlock.insideUpdates node isNode
    exact take_ids_of_isMatch (scan.isMatch_of_inner member above below)

theorem ScanBlocks.scannedRows_inner :
    scannedRows file ltpb scanSpec block = (updatedRows file ltpb block.blockIndex).filter (fun row => wanted scanSpec.graphsToFilter row.quad) := by
  apply filter_congr
  intro row isRow
  obtain ⟨above,below⟩ := scan.quad_inside (innerBlocks_subset blocks member) isRow
  rw [scan.isMatch_of_inner member above below,Bool.true_and]

end

theorem ScanBlocks.sorted (scan : ScanBlocks file ltpb scanSpec blocks) :
    (blocks.flatMap (scannedRows file ltpb scanSpec)).Pairwise (fun x y => x.quad < y.quad) := by
  rw [pairwise_flatMap]
  constructor
  · intro block member
    have isBlock := scan.each block member
    exact (updatedRows_sorted isBlock.sortedRows isBlock.sortedUpdates).filter _
  · refine (List.Pairwise.and_mem.mp scan.ordered.disjoint).imp ?_
    rintro first second ⟨isFirst,isSecond,less⟩ x isX y isY
    have upper := (scan.quad_inside isFirst (mem_filter.mp isX).1).2
    have lower := (scan.quad_inside isSecond (mem_filter.mp isY).1).1
    exact (upper.trans_lt less).trans_le lower

section
variable (stored : Stored metadata file) (well : WellLocated metadata ltpb) {scanSpecAndBlocks : ScanSpecAndBlocks Id}
  (made : makeScanSpecAndBlocks scanSpec [augmentedBlocks metadata ltpb.map] = .ok scanSpecAndBlocks)
include stored well made

theorem scanSpec_of_made : scanSpecAndBlocks.scanSpec = scanSpec := by
  rw [makeScanSpecAndBlocks_ok scanSpec (by simpa using (LocatedTriplesPerBlock.augmentedBlocks_sorted stored.original well).ordered)] at made
  cases made
  rfl

theorem scanBlocks_of_run :
    getBlockMetadataView scanSpecAndBlocks = (augmentedBlocks metadata ltpb.map).filter (isRelevant scanSpec) ∧
      ScanBlocks file ltpb scanSpec (getBlockMetadataView scanSpecAndBlocks) := by
  have ordered : OrderedBlocks [augmentedBlocks metadata ltpb.map].flatten := by
    simpa using (LocatedTriplesPerBlock.augmentedBlocks_sorted stored.original well).ordered
  have view : getBlockMetadataView scanSpecAndBlocks = (augmentedBlocks metadata ltpb.map).filter (isRelevant scanSpec) := by
    rw [makeScanSpecAndBlocks_ok scanSpec ordered] at made
    cases made
    rw [getBlockMetadataView,getRelevantBlocks_flatten scanSpec ordered]
    simp
  refine ⟨view,?_,?_,?_⟩
  all_goals rw [view]
  · exact fun block member => isBlock_of_mem stored well (mem_filter.mp member).1
  · exact (LocatedTriplesPerBlock.augmentedBlocks_sorted stored.original well).ordered.sublist filter_sublist
  · exact fun block member => (mem_filter.mp member).2

end

end Scanned

end CompressedRelationReader
end Qlever
