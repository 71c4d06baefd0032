import Qlever.ScanCompleteness

/-! A scan without the graphs. Duplicates are removed inside the blocks between the first and the last one. -/
namespace Qlever
open Library MergeTriples List FilterDuplicatesAndGraphs MergeTriples
open LocatedTriplesPerBlock (Visible Original GraphsKnown WellLocated augmentedBlocks)
variable {Id : Type}
namespace CompressedRelationReader

section Chunks
variable {β α : Type} {outer inner outer' inner' : β → List α} {blocks : List β} {block : β}

theorem joinBlocks_congr (sameOuter : ∀ block ∈ outerBlocks blocks,outer block = outer' block)
    (sameInner : ∀ block ∈ innerBlocks blocks,inner block = inner' block) : joinBlocks outer inner blocks = joinBlocks outer' inner' blocks := by
  match blocks with
  | [] => rfl
  | [block] => exact sameOuter block mem_cons_self
  | block::next::blocks =>
    have first := sameOuter block mem_cons_self
    have last := sameOuter ((next::blocks).getLast (cons_ne_nil next blocks)) (mem_cons_of_mem _ mem_cons_self)
    have middle : (next::blocks).dropLast.flatMap inner = (next::blocks).dropLast.flatMap inner' := flatMap_congr sameInner
    rw [joinBlocks,joinBlocks,first,last,middle]

theorem notMem_innerBlocks (distinct : blocks.Nodup) (member : block ∈ outerBlocks blocks) : block ∉ innerBlocks blocks := by
  match blocks with
  | [] => simp [outerBlocks] at member
  | [first] => simp [innerBlocks]
  | first::next::blocks =>
    obtain ⟨notFirst,tail⟩ := nodup_cons.mp distinct
    rcases mem_cons.mp member with rfl | isLast
    · exact fun inside => notFirst ((dropLast_sublist _).subset inside)
    · rw [mem_singleton.mp isLast]
      rw [← dropLast_concat_getLast (cons_ne_nil next blocks),nodup_append] at tail
      exact fun inside => tail.2.2 _ inside _ mem_cons_self rfl

theorem joinBlocks_eq_flatMap [DecidableEq β] (distinct : blocks.Nodup) :
    joinBlocks outer inner blocks = blocks.flatMap (fun block => if block ∈ innerBlocks blocks then inner block else outer block) := by
  rw [← joinBlocks_same _ _ (fun _ _ => rfl)]
  apply joinBlocks_congr
  · intro block member
    rw [if_neg (notMem_innerBlocks distinct member)]
  · intro block member
    rw [if_pos member]

end Chunks

section WithoutGraph
variable [LinearOrder Id] [BoundedOrder Id] {file : File Id} {ltpb : LocatedTriplesPerBlock Id} {scanSpec : ScanSpecification Id}
  {blocks : List (CompressedBlockMetadata Id)} {block : CompressedBlockMetadata Id} {filter : FilterDuplicatesAndGraphs Id}

omit [BoundedOrder Id] in
theorem updatedRows_withoutUpdates {i : Nat} (noUpdates : ltpb.map i = []) : updatedRows file ltpb i = file i := by
  rw [updatedRows,locatedTriplesOfBlock,noUpdates,map_nil,applyUpdates_nil]

theorem readAndDecompressBlock_withoutUpdates (isBlock : IsBlock file ltpb block) (noUpdates : ltpb.map block.blockIndex = []) {columns : List Nat}
    {k : Nat} {includeGraphColumn : Bool} (prepared : prepareLocatedTriples columns = .ok (k,includeGraphColumn))
    (inRange : ∀ column ∈ columns,column < block.offsetsAndCompressedSize.length) :
    readAndDecompressBlock file block ⟨columns,filter,ltpb⟩ =
      .ok (if filter.canBlockBeSkipped block then none
        else some (filter.postprocessBlock ((file block.blockIndex).map (StoredRow.select columns)) block)) := by
  have merged : ∀ rows : IdTable Id columns.length,mergeLocatedTriples ltpb block.blockIndex rows k includeGraphColumn = .ok rows := by
    intro rows
    rw [mergeLocatedTriples,if_neg]
    simp [LocatedTriplesPerBlock.containsTriples,LocatedTriplesPerBlock.hasUpdates,noUpdates]
  rw [readAndDecompressBlock]
  split
  next => rfl
  next =>
    rw [decompressAndPostprocessBlock]
    simp only [decompressBlock_eq isBlock inRange,prepared,merged,bind,Except.bind,pure,Except.pure,map_map,Function.comp_def,ofFn_project]

omit [BoundedOrder Id] in
theorem columnsFrom_inRange (isBlock : IsBlock file ltpb block) (small : numFixed scanSpec ≤ 3) {rest : List Nat} (graph : ∀ column ∈ rest,column = 3) :
    ∀ column ∈ columnsFrom (numFixed scanSpec) rest,column < block.offsetsAndCompressedSize.length := by
  intro column member
  have four := isBlock.columns
  rcases mem_append.mp member with free | isGraph
  · have bounds := mem_range'_1.mp free
    omega
  · have isThree := graph column isGraph
    omega

theorem readOuter_withoutGraph (isBlock : IsBlock file ltpb block) :
    readPossiblyIncompleteBlock file scanSpec (getScanConfig scanSpec [] ltpb) block ltpb =
      .ok ((scannedRows file ltpb scanSpec block).map (StoredRow.select (columnsFrom (numFixed scanSpec) []))) := by
  have small := numFixed_le scanSpec
  have free : ∀ column ∈ range' (numFixed scanSpec) (3 - numFixed scanSpec),column ≠ 3 := by
    intro column member
    have bounds := mem_range'_1.mp member
    omega
  rw [getScanConfig_withoutGraph]
  split
  next =>
    refine (readPossiblyIncompleteBlock_eq isBlock _ (columnsFrom_inRange isBlock small (by simp))).trans ?_
    simp [scannedRows]
  next =>
    refine (readPossiblyIncompleteBlock_eq isBlock _ (columnsFrom_inRange isBlock small (by simp [ADDITIONAL_COLUMN_GRAPH_ID]))).trans ?_
    have deleted : (columnsFrom (numFixed scanSpec) [ADDITIONAL_COLUMN_GRAPH_ID]).filter (fun idx => !true || decide (idx ≠ ADDITIONAL_COLUMN_GRAPH_ID)) =
        columnsFrom (numFixed scanSpec) [] := by
      rw [columnsFrom,filter_append,filter_eq_self.mpr (fun column member => by simp [ADDITIONAL_COLUMN_GRAPH_ID,free column member])]
      rfl
    simp only [deleted]
    rfl

theorem readInner_withoutGraph (scan : ScanBlocks file ltpb scanSpec blocks) (member : block ∈ innerBlocks blocks)
    (noUpdates : ltpb.map block.blockIndex = []) :
    ∃ table,readAndDecompressBlock file block (getScanConfig scanSpec [] ltpb) = .ok table ∧
      table.getD [] = filterDuplicatesIfNecessary
        ((scannedRows file ltpb scanSpec block).map (StoredRow.select (columnsFrom (numFixed scanSpec) []))) block := by
  have isBlock := scan.each block (innerBlocks_subset blocks member)
  have small := numFixed_le scanSpec
  have known : ∀ graphs,block.graphInfo = some graphs → ∀ row ∈ file block.blockIndex,row.quad.graphId ∈ graphs :=
    fun graphs info row isRow => (isBlock.graphs graphs info).1 row.quad (mem_map_of_mem isRow)
  rw [scan.scannedRows_inner member,updatedRows_withoutUpdates noUpdates,getScanConfig_withoutGraph]
  split
  next noFilter =>
    have none : scanSpec.graphsToFilter = none := by simpa using noFilter
    refine ⟨_,readAndDecompressBlock_withoutUpdates isBlock noUpdates (prepareLocatedTriples_withoutGraph small)
      (columnsFrom_inRange isBlock small (by simp)),?_⟩
    simp [none,canBlockBeSkipped,postprocessBlock,filterByGraphIfNecessary,
      blockNeedsFilteringByGraph,wanted]
  next =>
    refine ⟨_,readAndDecompressBlock_withoutUpdates isBlock noUpdates (prepareLocatedTriples_withGraph small (by simp))
      (columnsFrom_inRange isBlock small (by simp [ADDITIONAL_COLUMN_GRAPH_ID])),?_⟩
    split
    next skipped =>
      have nothing := filter_wanted_of_skipped known skipped
      simp only at nothing
      rw [nothing,filterDuplicatesIfNecessary]
      simp [unique]
    next => exact postprocessBlock_eq known small (fun _ => rfl)

end WithoutGraph

section Copies
variable [LinearOrder Id] [BoundedOrder Id] {metadata : List (CompressedBlockMetadata Id)} {file : File Id} {ltpb : LocatedTriplesPerBlock Id}
  {scanSpec : ScanSpecification Id} {blocks : List (CompressedBlockMetadata Id)} {block : CompressedBlockMetadata Id} {x y : StoredRow Id} {n : Nat}

omit [LinearOrder Id] in
theorem select_withoutGraph [LE Id] [BoundedOrder Id] (small : n ≤ 3) (row : StoredRow Id) :
    row.select (columnsFrom n []) = ((ids row.quad).take 3).drop n := by
  obtain rfl | rfl | rfl | rfl : n = 0 ∨ n = 1 ∨ n = 2 ∨ n = 3 := by omega
  all_goals rfl

def freeColumns (scanSpec : ScanSpecification Id) (row : StoredRow Id) : List Id := row.select (columnsFrom (numFixed scanSpec) [])

theorem append_freeColumns (isMatch : scanSpec.isMatch x.quad = true) :
    fixedIds scanSpec ++ freeColumns scanSpec x = (ids x.quad).take 3 := by
  have small := numFixed_le scanSpec
  have fixed : ((ids x.quad).take 3).take (numFixed scanSpec) = fixedIds scanSpec := by
    rw [take_take,Nat.min_eq_left small]
    exact take_ids_of_isMatch isMatch
  rw [freeColumns,select_withoutGraph small,← fixed,take_append_drop]

theorem freeColumns_eq_iff (matchX : scanSpec.isMatch x.quad = true) (matchY : scanSpec.isMatch y.quad = true) :
    freeColumns scanSpec x = freeColumns scanSpec y ↔ (ids x.quad).take 3 = (ids y.quad).take 3 := by
  rw [← append_freeColumns matchX,← append_freeColumns matchY,append_cancel_left_eq]

theorem freeColumns_le (matchX : scanSpec.isMatch x.quad = true) (matchY : scanSpec.isMatch y.quad = true) (less : x.quad < y.quad) :
    freeColumns scanSpec x ≤ freeColumns scanSpec y := by
  have le := take_mono (ids_lt_iff.mpr less).le 3
  rw [← append_freeColumns matchX,← append_freeColumns matchY] at le
  exact not_lt.mp (fun greater => le.not_gt ((append_lt_append_iff _).mpr greater))

section
omit [BoundedOrder Id]

theorem isMatch_of_scanned (member : x ∈ scannedRows file ltpb scanSpec block) : scanSpec.isMatch x.quad = true :=
  (Bool.and_eq_true_iff.mp (mem_filter.mp member).2).1

theorem isSame_id (x y : List Id) : decide (x = y) = true ↔ id x = id y := decide_eq_true_iff

end

def innerRows (file : File Id) (ltpb : LocatedTriplesPerBlock Id) (scanSpec : ScanSpecification Id) (block : CompressedBlockMetadata Id) : Table Id :=
  filterDuplicatesIfNecessary ((scannedRows file ltpb scanSpec block).map (freeColumns scanSpec)) block

theorem innerRows_sublist : (innerRows file ltpb scanSpec block).Sublist ((scannedRows file ltpb scanSpec block).map (freeColumns scanSpec)) := by
  rw [innerRows,filterDuplicatesIfNecessary]
  split
  · exact List.Sublist.refl _
  · exact unique_sublist _

theorem mem_innerRows {row : List Id} : row ∈ innerRows file ltpb scanSpec block ↔
    row ∈ (scannedRows file ltpb scanSpec block).map (freeColumns scanSpec) := by
  rw [innerRows,filterDuplicatesIfNecessary]
  split
  · exact Iff.rfl
  · have keys := mem_keys_unique isSame_id ((scannedRows file ltpb scanSpec block).map (freeColumns scanSpec)) row
    rwa [map_id,map_id] at keys

omit [BoundedOrder Id] in
theorem scannedRows_sorted (isBlock : IsBlock file ltpb block) : (scannedRows file ltpb scanSpec block).Pairwise (fun x y => x.quad < y.quad) :=
  (updatedRows_sorted isBlock.sortedRows isBlock.sortedUpdates).filter _

theorem freeColumns_sorted (isBlock : IsBlock file ltpb block) :
    ((scannedRows file ltpb scanSpec block).map (freeColumns scanSpec)).Pairwise (· ≤ ·) := by
  apply pairwise_map.mpr
  refine (scannedRows_sorted isBlock).imp_of_mem ?_
  intro x y isX isY less
  exact freeColumns_le (isMatch_of_scanned isX) (isMatch_of_scanned isY) less

theorem innerRows_nodup (isBlock : IsBlock file ltpb block) (noUpdates : ltpb.map block.blockIndex = []) :
    (innerRows file ltpb scanSpec block).Nodup := by
  rw [innerRows,filterDuplicatesIfNecessary]
  split
  next noDuplicates =>
    have distinct : DistinctTriples (updatedRows file ltpb block.blockIndex) := by
      rw [updatedRows_withoutUpdates noUpdates]
      exact isBlock.distinct (by simpa using noDuplicates)
    apply pairwise_map.mpr
    refine (distinct.filter _).imp_of_mem ?_
    intro x y isX isY different same
    exact different ((freeColumns_eq_iff (isMatch_of_scanned isX) (isMatch_of_scanned isY)).mp same)
  next =>
    have sorted : ((scannedRows file ltpb scanSpec block).map (freeColumns scanSpec)).Pairwise (fun x y => id x ≤ id y) := freeColumns_sorted isBlock
    exact (unique_strict isSame_id sorted).imp (fun less => less.ne)

def contributedRows (file : File Id) (ltpb : LocatedTriplesPerBlock Id) (scanSpec : ScanSpecification Id) (blocks : List (CompressedBlockMetadata Id))
    (block : CompressedBlockMetadata Id) : Table Id :=
  if block ∈ innerBlocks blocks then innerRows file ltpb scanSpec block else (scannedRows file ltpb scanSpec block).map (freeColumns scanSpec)

theorem contributedRows_sublist : (contributedRows file ltpb scanSpec blocks block).Sublist ((scannedRows file ltpb scanSpec block).map (freeColumns scanSpec)) := by
  rw [contributedRows]
  split
  · exact innerRows_sublist
  · exact List.Sublist.refl _

theorem mem_contributedRows {row : List Id} : row ∈ contributedRows file ltpb scanSpec blocks block ↔
    ∃ x ∈ scannedRows file ltpb scanSpec block,freeColumns scanSpec x = row := by
  rw [← List.mem_map,contributedRows]
  split
  · exact mem_innerRows
  · exact Iff.rfl

omit [BoundedOrder Id] in
theorem OrderedBlocks.nodup (ordered : OrderedBlocks blocks) : blocks.Nodup :=
  ordered.indices.imp (fun less same => by simp [same] at less)

def CopiesTogether (file : File Id) (ltpb : LocatedTriplesPerBlock Id) (scanSpec : ScanSpecification Id) (blocks : List (CompressedBlockMetadata Id)) : Prop :=
  ∀ b1 ∈ blocks,∀ b2 ∈ blocks,∀ x ∈ scannedRows file ltpb scanSpec b1,∀ y ∈ scannedRows file ltpb scanSpec b2,
    (ids x.quad).take 3 = (ids y.quad).take 3 → x ≠ y → b1 = b2 ∧ b1 ∈ innerBlocks blocks

theorem contributedRows_nodup_iff (scan : ScanBlocks file ltpb scanSpec blocks) (noUpdates : ∀ b,ltpb.map b = []) :
    (blocks.flatMap (contributedRows file ltpb scanSpec blocks)).Nodup ↔ CopiesTogether file ltpb scanSpec blocks := by
  have sameTriple : ∀ b1 b2 x y,x ∈ scannedRows file ltpb scanSpec b1 → y ∈ scannedRows file ltpb scanSpec b2 →
      (freeColumns scanSpec x = freeColumns scanSpec y ↔ (ids x.quad).take 3 = (ids y.quad).take 3) :=
    fun b1 b2 x y isX isY => freeColumns_eq_iff (isMatch_of_scanned isX) (isMatch_of_scanned isY)
  have distinctRows : (blocks.flatMap (scannedRows file ltpb scanSpec)).Nodup := scan.sorted.imp (fun less same => by simp [same] at less)
  rw [nodup_flatMap] at distinctRows ⊢
  constructor
  · rintro ⟨each,disjoint⟩ b1 is1 b2 is2 x isX y isY same different
    have sameColumns := (sameTriple b1 b2 x y isX isY).mpr same
    have together : b1 = b2 := by
      by_contra apart
      have symmetric : Std.Symm (Function.onFun List.Disjoint (contributedRows file ltpb scanSpec blocks)) := ⟨fun _ _ separate => separate.symm⟩
      have separate := disjoint.forall is1 is2 apart
      exact separate (mem_contributedRows.mpr ⟨x,isX,sameColumns⟩) (mem_contributedRows.mpr ⟨y,isY,rfl⟩)
    subst together
    refine ⟨rfl,?_⟩
    by_contra outer
    have nodup := each b1 is1
    rw [contributedRows,if_neg outer] at nodup
    exact different (inj_on_of_nodup_map nodup isX isY sameColumns)
  · intro together
    constructor
    · intro block isBlock
      rw [contributedRows]
      split
      next => exact innerRows_nodup (scan.each block isBlock) (noUpdates _)
      next outer =>
        apply List.Nodup.map_on _ (distinctRows.1 block isBlock)
        intro x isX y isY same
        by_contra different
        exact outer (together block isBlock block isBlock x isX y isY ((sameTriple block block x y isX isY).mp same) different).2
    · refine (List.Pairwise.and_mem.mp (distinctRows.2.and (OrderedBlocks.nodup scan.ordered))).imp ?_
      rintro b1 b2 ⟨is1,is2,separate,apart⟩ row in1 in2
      obtain ⟨x,isX,rfl⟩ := mem_contributedRows.mp in1
      obtain ⟨y,isY,same⟩ := mem_contributedRows.mp in2
      by_cases equal : x = y
      · subst equal
        exact separate isX isY
      · exact apart (together b1 is1 b2 is2 x isX y isY ((sameTriple b1 b2 x y isX isY).mp same.symm) equal).1

theorem contributedRows_sorted (scan : ScanBlocks file ltpb scanSpec blocks) :
    (blocks.flatMap (contributedRows file ltpb scanSpec blocks)).Pairwise (· ≤ ·) := by
  have sorted := scan.sorted
  rw [pairwise_flatMap] at sorted ⊢
  constructor
  · intro block isBlock
    exact (freeColumns_sorted (scan.each block isBlock)).sublist contributedRows_sublist
  · refine sorted.2.imp ?_
    intro b1 b2 less row1 in1 row2 in2
    obtain ⟨x,isX,rfl⟩ := mem_contributedRows.mp in1
    obtain ⟨y,isY,rfl⟩ := mem_contributedRows.mp in2
    exact freeColumns_le (isMatch_of_scanned isX) (isMatch_of_scanned isY) (less x isX y isY)

end Copies

section Once
variable [LinearOrder Id] [BoundedOrder Id] {metadata : List (CompressedBlockMetadata Id)} {file : File Id} {ltpb : LocatedTriplesPerBlock Id}
  {scanSpec : ScanSpecification Id} {blocks : List (CompressedBlockMetadata Id)}

theorem ScanBlocks.lazyScan_withoutGraph (scan : ScanBlocks file ltpb scanSpec blocks) (noUpdates : ∀ b,ltpb.map b = []) :
    ∃ tables,lazyScan file scanSpec blocks [] ltpb = .ok tables ∧ tables.flatten = blocks.flatMap (contributedRows file ltpb scanSpec blocks) := by
  obtain ⟨tables,ran,content⟩ := lazyScan_eq (fun block member => readOuter_withoutGraph (scan.each block (outerBlocks_subset blocks member)))
    (fun block member => readInner_withoutGraph scan member (noUpdates _))
  exact ⟨tables,ran,content.trans (joinBlocks_eq_flatMap (OrderedBlocks.nodup scan.ordered))⟩

def withoutUpdates (metadata : List (CompressedBlockMetadata Id)) : LocatedTriplesPerBlock Id := {originalMetadata := some metadata}

omit [BoundedOrder Id] in
theorem augmentedBlocks_withoutUpdates (metadata : List (CompressedBlockMetadata Id)) : augmentedBlocks metadata (withoutUpdates metadata).map = metadata := by
  apply ext_getElem?
  intro i
  rw [augmentedBlocks]
  simp [withoutUpdates,LocatedTriplesPerBlock.augmentBlock,LocatedTriplesPerBlock.lastBlock]

def isScanned (scanSpec : ScanSpecification Id) (row : StoredRow Id) : Bool := scanSpec.isMatch row.quad && wanted scanSpec.graphsToFilter row.quad

variable {x : StoredRow Id}

theorem exists_block_of_row (stored : Stored metadata file) {i : Nat} (member : x ∈ file i) (scanned : isScanned scanSpec x = true) :
    ∃ block ∈ metadata.filter (isRelevant scanSpec),block.blockIndex = i ∧ x ∈ scannedRows file (withoutUpdates metadata) scanSpec block := by
  have isQuad : x.quad ∈ (file i).map StoredRow.quad := mem_map_of_mem member
  have inside : i < metadata.length := by
    by_contra outside
    rw [stored.original.empty i (Nat.le_of_not_lt outside)] at isQuad
    simp at isQuad
  have found : metadata[i]? = some metadata[i] := getElem?_eq_getElem inside
  have index := LocatedTriplesPerBlock.blockIndex_eq stored.original.sorted.indices found
  obtain ⟨above,below⟩ := (stored.original.describes i _ found).inside x.quad isQuad
  refine ⟨metadata[i],mem_filter.mpr ⟨getElem_mem inside,?_⟩,index,?_⟩
  · exact isRelevant_of_isMatch (Bool.and_eq_true_iff.mp scanned).1 above below
  · rw [scannedRows,index,updatedRows_withoutUpdates rfl]
    exact mem_filter.mpr ⟨member,scanned⟩

omit [BoundedOrder Id] in
theorem of_mem_scannedRows {block : CompressedBlockMetadata Id} (member : x ∈ scannedRows file (withoutUpdates metadata) scanSpec block) :
    x ∈ file block.blockIndex ∧ isScanned scanSpec x = true := by
  rw [scannedRows,updatedRows_withoutUpdates rfl] at member
  exact mem_filter.mp member

/-- Two rows of the result with the same triple are in the same block, and this is neither the first nor the last block of the scan. -/
def CopiesInInnerBlock (file : File Id) (scanSpec : ScanSpecification Id) (blocks : List (CompressedBlockMetadata Id)) : Prop :=
  ∀ i j,∀ x ∈ file i,∀ y ∈ file j,isScanned scanSpec x = true → isScanned scanSpec y = true →
    (ids x.quad).take 3 = (ids y.quad).take 3 → x ≠ y → ∃ block ∈ innerBlocks blocks,block.blockIndex = i ∧ block.blockIndex = j

theorem copiesTogether_iff (stored : Stored metadata file) : CopiesTogether file (withoutUpdates metadata) scanSpec (metadata.filter (isRelevant scanSpec)) ↔
    CopiesInInnerBlock file scanSpec (metadata.filter (isRelevant scanSpec)) := by
  constructor
  · intro together i j x isX y isY scannedX scannedY same different
    obtain ⟨b1,is1,rfl,in1⟩ := exists_block_of_row stored isX scannedX
    obtain ⟨b2,is2,rfl,in2⟩ := exists_block_of_row stored isY scannedY
    obtain ⟨rfl,inner⟩ := together b1 is1 b2 is2 x in1 y in2 same different
    exact ⟨b1,inner,rfl,rfl⟩
  · intro copies b1 is1 b2 is2 x isX y isY same different
    obtain ⟨inX,scannedX⟩ := of_mem_scannedRows isX
    obtain ⟨inY,scannedY⟩ := of_mem_scannedRows isY
    obtain ⟨block,inner,index1,index2⟩ := copies _ _ x inX y inY scannedX scannedY same different
    have unique : ∀ other ∈ metadata,block.blockIndex = other.blockIndex → block = other := by
      intro other isOther sameIndex
      have distinct : (metadata.map (·.blockIndex)).Nodup := by
        rw [stored.original.sorted.indices]
        exact nodup_range
      exact inj_on_of_nodup_map distinct (mem_filter.mp (innerBlocks_subset _ inner)).1 isOther sameIndex
    have first := unique b1 (mem_filter.mp is1).1 index1
    have second := unique b2 (mem_filter.mp is2).1 index2
    exact ⟨first.symm.trans second,first ▸ inner⟩

def ScansOnce (file : File Id) (scanSpecAndBlocks : ScanSpecAndBlocks Id) (ltpb : LocatedTriplesPerBlock Id) : Prop :=
  ∃ tables,lazyScan file scanSpecAndBlocks.scanSpec (getBlockMetadataView scanSpecAndBlocks) [] ltpb = .ok tables ∧
    scan file scanSpecAndBlocks [] ltpb = .ok tables.flatten ∧ tables.flatten.Pairwise (· < ·) ∧
    ∀ row,row ∈ tables.flatten ↔ ∃ i,∃ x ∈ file i,isScanned scanSpecAndBlocks.scanSpec x = true ∧
      ((ids x.quad).take 3).drop (numFixed scanSpecAndBlocks.scanSpec) = row

theorem scansOnce_iff (stored : Stored metadata file) {scanSpecAndBlocks : ScanSpecAndBlocks Id}
    (made : makeScanSpecAndBlocks scanSpec [metadata] = .ok scanSpecAndBlocks) :
    ScansOnce file scanSpecAndBlocks (withoutUpdates metadata) ↔ CopiesInInnerBlock file scanSpec (getBlockMetadataView scanSpecAndBlocks) := by
  have well : WellLocated metadata (withoutUpdates metadata) := ⟨fun _ => List.Pairwise.nil,by simp [withoutUpdates],rfl⟩
  rw [← augmentedBlocks_withoutUpdates metadata] at made
  have same := scanSpec_of_made stored well made
  obtain ⟨view,scan⟩ := scanBlocks_of_run stored well made
  rw [augmentedBlocks_withoutUpdates] at view
  obtain ⟨tables,ran,content⟩ := scan.lazyScan_withoutGraph (fun _ => rfl)
  have nodup := contributedRows_nodup_iff scan (fun _ => rfl)
  have sorted := contributedRows_sorted scan
  rw [← content] at nodup sorted
  rw [view,← copiesTogether_iff stored,← view,← nodup]
  have scanned : CompressedRelationReader.scan file scanSpecAndBlocks [] (withoutUpdates metadata) = .ok tables.flatten := by
    rw [CompressedRelationReader.scan,same,ran]
    rfl
  constructor
  · rintro ⟨others,ran',_,strict,_⟩
    rw [same] at ran'
    cases ran.symm.trans ran'
    exact strict.imp (fun less => less.ne)
  · intro distinct
    refine ⟨tables,same ▸ ran,scanned,(sorted.and distinct).imp (fun ⟨le,different⟩ => lt_of_le_of_ne le different),?_⟩
    intro row
    rw [content,mem_flatMap,same]
    constructor
    · rintro ⟨block,isBlock,inBlock⟩
      obtain ⟨x,isX,rfl⟩ := mem_contributedRows.mp inBlock
      obtain ⟨member,passes⟩ := of_mem_scannedRows isX
      exact ⟨block.blockIndex,x,member,passes,(select_withoutGraph (numFixed_le scanSpec) x).symm⟩
    · rintro ⟨i,x,member,passes,rfl⟩
      obtain ⟨block,isBlock,rfl,isX⟩ := exists_block_of_row stored member passes
      exact ⟨block,view ▸ isBlock,mem_contributedRows.mpr ⟨x,isX,select_withoutGraph (numFixed_le scanSpec) x⟩⟩

end Once

section TwoGraphs

def twoGraphsBlock : CompressedBlockMetadata (Fin 256) := ⟨replicate 4 ⟨0,0⟩,2,⟨1,1,1,0⟩,⟨1,1,1,1⟩,some [0,1],true,0⟩

def twoGraphsFile : File (Fin 256) := fun i => if i = 0 then [⟨⟨1,1,1,0⟩,[]⟩,⟨⟨1,1,1,1⟩,[]⟩] else []

theorem twoGraphs_stored : Stored [twoGraphsBlock] twoGraphsFile :=
  .singleton ⟨by decide,by decide,by decide⟩ ⟨by decide,by rintro graphs ⟨⟩; decide⟩ rfl (by decide) (by decide)
    (fun noDuplicates => absurd noDuplicates (by decide))

theorem scansOnce_iff_twoGraphs : ScansOnce twoGraphsFile ⟨.allColumns none,[[twoGraphsBlock]],1⟩ (withoutUpdates [twoGraphsBlock]) ↔
    CopiesInInnerBlock twoGraphsFile (.allColumns none) (getBlockMetadataView ⟨.allColumns none,[[twoGraphsBlock]],1⟩) :=
  scansOnce_iff twoGraphs_stored rfl

/-- The triple is yielded twice, because its only block is the first one. -/
theorem twoGraphs_not_once : Stored [twoGraphsBlock] twoGraphsFile ∧
    makeScanSpecAndBlocks (.allColumns none) [[twoGraphsBlock]] = .ok ⟨.allColumns none,[[twoGraphsBlock]],1⟩ ∧
    ¬ScansOnce twoGraphsFile ⟨.allColumns none,[[twoGraphsBlock]],1⟩ (withoutUpdates [twoGraphsBlock]) := by
  refine ⟨twoGraphs_stored,rfl,?_⟩
  rintro ⟨tables,ran,_,strict,_⟩
  have well : WellLocated [twoGraphsBlock] (withoutUpdates [twoGraphsBlock]) := ⟨fun _ => List.Pairwise.nil,by simp [withoutUpdates],rfl⟩
  have made : makeScanSpecAndBlocks (.allColumns none) [augmentedBlocks [twoGraphsBlock] (withoutUpdates [twoGraphsBlock]).map] =
      .ok ⟨.allColumns none,[[twoGraphsBlock]],1⟩ := rfl
  obtain ⟨_,scan⟩ := scanBlocks_of_run twoGraphs_stored well made
  obtain ⟨others,ran',content⟩ := scan.lazyScan_withoutGraph (fun _ => rfl)
  cases ran.symm.trans ran'
  have distinct : tables.flatten.Nodup := strict.imp (fun less => less.ne)
  rw [content] at distinct
  have together := (contributedRows_nodup_iff scan (fun _ => rfl)).mp distinct
  have rows : scannedRows twoGraphsFile (withoutUpdates [twoGraphsBlock]) (.allColumns none) twoGraphsBlock = [⟨⟨1,1,1,0⟩,[]⟩,⟨⟨1,1,1,1⟩,[]⟩] := by
    rw [scannedRows,updatedRows_withoutUpdates rfl]
    rfl
  obtain ⟨_,inner⟩ := together twoGraphsBlock mem_cons_self twoGraphsBlock mem_cons_self ⟨⟨1,1,1,0⟩,[]⟩ (by rw [rows]; decide)
    ⟨⟨1,1,1,1⟩,[]⟩ (by rw [rows]; decide) rfl (by decide)
  exact absurd inner (by decide)

end TwoGraphs

end CompressedRelationReader
end Qlever
