import Qlever.LazyScan

/-! A scan with the graphs yields exactly the quads of the permutation that match its specification, with all updates. -/
namespace Qlever
open Library MergeTriples List LocatedTriplesPerBlock
open LocatedTriplesPerBlock (Visible Original GraphsKnown WellLocated augmentedBlocks)
variable {Id : Type}
namespace CompressedRelationReader

def InPermutation (file : File Id) (ltpb : LocatedTriplesPerBlock Id) (quad : IdTriple Id) : Prop :=
  ((∃ i,∃ row ∈ file i,row.quad = quad) ∧ ¬∃ b,∃ node ∈ ltpb.map b,node.triple = quad ∧ node.located.insertOrDelete = false) ∨
    ∃ b,∃ node ∈ ltpb.map b,node.triple = quad ∧ node.located.insertOrDelete = true

variable [LinearOrder Id] {metadata : List (CompressedBlockMetadata Id)} {file : File Id} {ltpb : LocatedTriplesPerBlock Id} {quad : IdTriple Id}

theorem locate_of_mem (stored : Stored metadata file) {i : Nat} {row : StoredRow Id} (member : row ∈ file i) :
    locate metadata row.quad = i := by
  have isQuad : row.quad ∈ (file i).map StoredRow.quad := mem_map_of_mem member
  have inside : i < metadata.length := by
    by_contra outside
    rw [stored.original.empty i (Nat.le_of_not_lt outside)] at isQuad
    simp at isQuad
  have found : metadata[i]? = some metadata[i] := getElem?_eq_getElem inside
  obtain ⟨above,below⟩ := (stored.original.describes i _ found).inside row.quad isQuad
  rcases lt_trichotomy (locate metadata row.quad) i with before | same | behind
  · have earlier : metadata[locate metadata row.quad]? = some metadata[locate metadata row.quad] := getElem?_eq_getElem (before.trans inside)
    have upper := le_of_locate earlier
    have disjoint := pairwise_get stored.original.sorted.disjoint earlier found before
    exact absurd (upper.trans_lt disjoint) (not_lt.mpr above)
  · exact same
  · exact absurd (lt_of_locate behind found) (not_lt.mpr below)

theorem inPermutation_iff (stored : Stored metadata file) (well : WellLocated metadata ltpb) :
    InPermutation file ltpb quad ↔ ∃ i,Visible ((file i).map StoredRow.quad) (ltpb.map i) quad := by
  constructor
  · rintro (⟨⟨i,row,isRow,rfl⟩,notDeleted⟩ | ⟨b,node,isNode,same,inserted⟩)
    · refine ⟨i,Or.inl ⟨mem_map_of_mem isRow,?_⟩⟩
      intro node isNode same
      exact Bool.eq_true_of_not_eq_false (fun deleted => notDeleted ⟨i,node,isNode,same,deleted⟩)
    · exact ⟨b,Or.inr ⟨node,isNode,same,inserted⟩⟩
  · rintro ⟨i,⟨isQuad,inserted⟩ | ⟨node,isNode,same,inserted⟩⟩
    · obtain ⟨row,isRow,rfl⟩ := List.mem_map.mp isQuad
      refine Or.inl ⟨⟨i,row,isRow,rfl⟩,?_⟩
      rintro ⟨b,node,isNode,same,deleted⟩
      have sameBlock : b = i := by rw [well.located b node isNode,same,locate_of_mem stored isRow]
      subst sameBlock
      exact absurd ((inserted node isNode same).symm.trans deleted) (by decide)
    · exact Or.inr ⟨i,node,isNode,same,inserted⟩

variable [BoundedOrder Id] {scanSpec : ScanSpecification Id}

theorem isRelevant_of_isMatch {block : CompressedBlockMetadata Id} (isMatch : scanSpec.isMatch quad = true) (above : block.firstTriple ≤ quad)
    (below : quad ≤ block.lastTriple) : isRelevant scanSpec block = true := by
  obtain ⟨first,last⟩ := isMatch_iff.mp isMatch
  simp only [isRelevant,Bool.and_eq_true,Bool.not_eq_true',decide_eq_false_iff_not,not_lt]
  exact ⟨first.trans below,above.trans last⟩

theorem mem_scannedRows (stored : Stored metadata file) (well : WellLocated metadata ltpb) :
    quad ∈ (((augmentedBlocks metadata ltpb.map).filter (isRelevant scanSpec)).flatMap (scannedRows file ltpb scanSpec)).map StoredRow.quad ↔
      InPermutation file ltpb quad ∧ scanSpec.isMatch quad = true ∧ wanted scanSpec.graphsToFilter quad = true := by
  rw [inPermutation_iff stored well]
  constructor
  · intro member
    obtain ⟨row,isRow,rfl⟩ := List.mem_map.mp member
    obtain ⟨block,isBlock,inBlock⟩ := mem_flatMap.mp isRow
    obtain ⟨updated,passes⟩ := mem_filter.mp inBlock
    have described := isBlock_of_mem stored well (mem_filter.mp isBlock).1
    have visible := (mem_updatedRows described.sortedRows described.sortedUpdates).mp (mem_map_of_mem updated)
    exact ⟨⟨block.blockIndex,visible⟩,Bool.and_eq_true_iff.mp passes⟩
  · rintro ⟨⟨i,visible⟩,isMatch,isWanted⟩
    obtain ⟨block,found⟩ : ∃ block,(augmentedBlocks metadata ltpb.map)[i]? = some block := by
      rcases visible with ⟨isQuad,_⟩ | ⟨node,isNode,_⟩
      · have inside : i < metadata.length := by
          by_contra outside
          rw [stored.original.empty i (Nat.le_of_not_lt outside)] at isQuad
          simp at isQuad
        rw [augmentedBlocks,getElem?_append_left (by simpa using inside)]
        exact ⟨_,getElem?_eq_getElem (by simpa using inside)⟩
      · exact augmentedBlocks_contains well isNode
    have member := mem_of_getElem? found
    obtain ⟨_,rfl⟩ := augmentedBlocks_get stored.original well found
    have described := isBlock_of_mem stored well member
    obtain ⟨above,below⟩ := described.inside visible
    obtain ⟨row,isRow,rfl⟩ := List.mem_map.mp ((mem_updatedRows described.sortedRows described.sortedUpdates).mpr visible)
    apply mem_map_of_mem
    refine mem_flatMap.mpr ⟨block,mem_filter.mpr ⟨member,isRelevant_of_isMatch isMatch above below⟩,?_⟩
    exact mem_filter.mpr ⟨isRow,Bool.and_eq_true_iff.mpr ⟨isMatch,isWanted⟩⟩

omit [LinearOrder Id] in
theorem select_withGraph [LE Id] [BoundedOrder Id] {n : Nat} (small : n ≤ 2) (row : StoredRow Id) :
    row.select (columnsFrom n [ADDITIONAL_COLUMN_GRAPH_ID]) = (MergeTriples.ids row.quad).drop n := by
  obtain rfl | rfl | rfl : n = 0 ∨ n = 1 ∨ n = 2 := by omega
  all_goals rfl

variable {blocks : List (CompressedBlockMetadata Id)}

theorem ScanBlocks.lazyScan_withGraph (scan : ScanBlocks file ltpb scanSpec blocks) (atMostTwo : scanSpec.col2Id = none) :
    ∃ tables,lazyScan file scanSpec blocks [ADDITIONAL_COLUMN_GRAPH_ID] ltpb = .ok tables ∧
      tables.flatten = (blocks.flatMap (scannedRows file ltpb scanSpec)).map (fun row => (MergeTriples.ids row.quad).drop (numFixed scanSpec)) := by
  have small := numFixed_le_two atMostTwo
  let table := fun block : CompressedBlockMetadata Id =>
    (scannedRows file ltpb scanSpec block).map (StoredRow.select (columnsFrom (numFixed scanSpec) [ADDITIONAL_COLUMN_GRAPH_ID]))
  have first : ∀ block ∈ outerBlocks blocks,readPossiblyIncompleteBlock file scanSpec (getScanConfig scanSpec [ADDITIONAL_COLUMN_GRAPH_ID] ltpb) block ltpb =
      .ok (table block) := by
    intro block member
    have isBlock := scan.each block (outerBlocks_subset blocks member)
    have columns : ∀ column ∈ columnsFrom (numFixed scanSpec) [ADDITIONAL_COLUMN_GRAPH_ID],column < block.offsetsAndCompressedSize.length := by
      intro column isColumn
      have four := isBlock.columns
      have small := numFixed_le scanSpec
      simp only [columnsFrom,ADDITIONAL_COLUMN_GRAPH_ID,mem_append,mem_range'_1,mem_singleton] at isColumn
      omega
    rw [getScanConfig_withGraph]
    refine (readPossiblyIncompleteBlock_eq isBlock _ columns).trans ?_
    simp [table,scannedRows]
  have reads : ∀ block ∈ innerBlocks blocks,∃ read,readAndDecompressBlock file block (getScanConfig scanSpec [ADDITIONAL_COLUMN_GRAPH_ID] ltpb) = .ok read ∧
      read.getD [] = table block := by
    intro block member
    have isBlock := scan.each block (innerBlocks_subset blocks member)
    obtain ⟨sharedRows,sharedUpdates⟩ := scan.shared member
    have graphColumn : scanSpec.graphsToFilter.isSome ∨ false = true →
        (if scanSpec.graphsToFilter.isSome then 3 - numFixed scanSpec else 0) = 3 - numFixed scanSpec := by
      simp +contextual
    let filter : FilterDuplicatesAndGraphs Id := ⟨scanSpec.graphsToFilter,if scanSpec.graphsToFilter.isSome then 3 - numFixed scanSpec else 0,false⟩
    obtain ⟨read,ran,content⟩ : ∃ read,readAndDecompressBlock file block ⟨columnsFrom (numFixed scanSpec) [ADDITIONAL_COLUMN_GRAPH_ID],filter,ltpb⟩ = .ok read ∧ _ :=
      readAndDecompressBlock_withGraph isBlock small (by simp) (by simp) sharedRows sharedUpdates graphColumn
    refine ⟨read,?_,?_⟩
    · rw [getScanConfig_withGraph]
      exact ran
    · have sorted := (updatedRows_sorted isBlock.sortedRows isBlock.sortedUpdates).filter (fun row => wanted scanSpec.graphsToFilter row.quad)
      rw [content,outColumns,if_neg Bool.false_ne_true]
      simp only [table,scan.scannedRows_inner member]
      have shared : ∀ row ∈ (updatedRows file ltpb block.blockIndex).filter (fun row => wanted scanSpec.graphsToFilter row.quad),
          (MergeTriples.ids row.quad).take (numFixed scanSpec) = fixedIds scanSpec := by
        intro row isRow
        obtain ⟨above,below⟩ := scan.quad_inside (innerBlocks_subset blocks member) (mem_filter.mp isRow).1
        exact take_ids_of_isMatch (scan.isMatch_of_inner member above below)
      exact filterDuplicates_withGraph small sorted shared
  obtain ⟨tables,ran,content⟩ := lazyScan_eq first reads
  refine ⟨tables,ran,?_⟩
  rw [content,joinBlocks_same table table (fun _ _ => rfl),map_flatMap]
  apply flatMap_congr
  intro block _
  exact map_congr_left (fun row _ => select_withGraph small row)

omit [BoundedOrder Id] in
theorem augmented_of_run {keyOrder : KeyOrder} {operations : List (LocatedTriplesPerBlock.Operation Id)}
    (ran : run metadata keyOrder operations = .ok ltpb)
    (augmented : ltpb.updateAugmentedMetadata.getAugmentedMetadata = .ok blocks) :
    WellLocated metadata ltpb.updateAugmentedMetadata ∧ blocks = augmentedBlocks metadata ltpb.updateAugmentedMetadata.map := by
  have reached := run_wellLocated ran
  refine ⟨⟨reached.sorted,reached.located,reached.original⟩,?_⟩
  rw [getAugmentedMetadata] at augmented
  simp only [updateAugmentedMetadata,reached.original,Option.getD_some,Except.ok.injEq] at augmented
  exact augmented.symm

/-- A scan of any reachable state with at most two fixed columns and the graph column: the matching quads, each of them once and in order. -/
theorem lazyScan_complete (stored : Stored metadata file) {keyOrder : KeyOrder} {operations : List (LocatedTriplesPerBlock.Operation Id)}
    (ran : run metadata keyOrder operations = .ok ltpb) {blocks : List (CompressedBlockMetadata Id)}
    (augmented : ltpb.updateAugmentedMetadata.getAugmentedMetadata = .ok blocks) (atMostTwo : scanSpec.col2Id = none) :
    ∃ (scanSpecAndBlocks : ScanSpecAndBlocks Id) (tables : List (Table Id)) (quads : List (IdTriple Id)),
      makeScanSpecAndBlocks scanSpec [blocks] = .ok scanSpecAndBlocks ∧
      lazyScan file scanSpec (getBlockMetadataView scanSpecAndBlocks) [ADDITIONAL_COLUMN_GRAPH_ID] ltpb.updateAugmentedMetadata = .ok tables ∧
      tables.flatten = quads.map (fun quad => (MergeTriples.ids quad).drop (numFixed scanSpec)) ∧ quads.Pairwise (· < ·) ∧
      ∀ quad,quad ∈ quads ↔ InPermutation file ltpb.updateAugmentedMetadata quad ∧ scanSpec.isMatch quad = true ∧
        wanted scanSpec.graphsToFilter quad = true := by
  obtain ⟨well,same⟩ := augmented_of_run ran augmented
  have made : ∃ scanSpecAndBlocks,makeScanSpecAndBlocks scanSpec [blocks] = .ok scanSpecAndBlocks := by
    refine ⟨_,makeScanSpecAndBlocks_ok scanSpec ?_⟩
    simpa [same] using (augmentedBlocks_sorted stored.original well).ordered
  obtain ⟨scanSpecAndBlocks,made⟩ := made
  obtain ⟨view,scan⟩ := scanBlocks_of_run stored well (same ▸ made)
  obtain ⟨tables,scanned,content⟩ := scan.lazyScan_withGraph atMostTwo
  refine ⟨scanSpecAndBlocks,tables,_,made,scanned,?_,pairwise_map.mpr scan.sorted,?_⟩
  · rw [content,map_map]
    rfl
  · intro quad
    rw [view]
    exact mem_scannedRows stored well

/-- The first quad of a block is deleted, and a quad behind all blocks is inserted. -/
theorem lazyScan_complete_lastBlock :
    ∃ ltpb blocks,run [⟨replicate 4 ⟨0,0⟩,2,⟨1,1,1,0⟩,⟨2,2,2,0⟩,some [0],false,0⟩] Permutation.SPO.toKeyOrder
        [.add [⟨1,1,1,0⟩] false,.add [⟨3,3,3,5⟩] true] = .ok ltpb ∧ ltpb.updateAugmentedMetadata.getAugmentedMetadata = .ok blocks ∧
      ∃ (scanSpecAndBlocks : ScanSpecAndBlocks (Fin 256)) (tables : List (Table (Fin 256))) (quads : List (IdTriple (Fin 256))),
        makeScanSpecAndBlocks (.allColumns none) [blocks] = .ok scanSpecAndBlocks ∧
        lazyScan (fun i => if i = 0 then [⟨⟨1,1,1,0⟩,[]⟩,⟨⟨2,2,2,0⟩,[]⟩] else []) (.allColumns none) (getBlockMetadataView scanSpecAndBlocks)
          [ADDITIONAL_COLUMN_GRAPH_ID] ltpb.updateAugmentedMetadata = .ok tables ∧
        tables.flatten = quads.map (fun quad => (MergeTriples.ids quad).drop (numFixed (.allColumns none : ScanSpecification (Fin 256)))) ∧
        quads.Pairwise (· < ·) ∧
        ∀ quad,quad ∈ quads ↔
          InPermutation (fun i => if i = 0 then [⟨⟨1,1,1,0⟩,[]⟩,⟨⟨2,2,2,0⟩,[]⟩] else []) ltpb.updateAugmentedMetadata quad ∧
            (ScanSpecification.allColumns none).isMatch quad = true ∧ wanted none quad = true := by
  have stored : Stored [⟨replicate 4 ⟨0,0⟩,2,⟨1,1,1,0⟩,⟨2,2,2,0⟩,some [0],false,0⟩]
      (fun i => if i = 0 then [⟨⟨1,1,1,0⟩,[]⟩,⟨⟨2,2,2,0⟩,[]⟩] else ([] : List (StoredRow (Fin 256)))) :=
    .singleton ⟨by decide,by decide,by decide⟩ ⟨by decide,by rintro graphs ⟨⟩; decide⟩ rfl (by decide) (by decide)
      (fun _ => by unfold DistinctTriples; decide)
  obtain ⟨ltpb,ran⟩ : ∃ ltpb,run [⟨replicate 4 ⟨0,0⟩,2,⟨1,1,1,0⟩,⟨2,2,2,0⟩,some [0],false,0⟩] Permutation.SPO.toKeyOrder
      [.add [⟨1,1,1,0⟩] false,.add [(⟨3,3,3,5⟩ : IdTriple (Fin 256))] true] = .ok ltpb := ⟨_,rfl⟩
  exact ⟨ltpb,_,ran,rfl,lazyScan_complete stored ran rfl rfl⟩

end CompressedRelationReader
end Qlever
