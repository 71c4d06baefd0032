import Qlever.CompressedRelationReader
import Qlever.AugmentedMetadata

/-! What the reading of one block yields, in terms of the quads of the block and of the updates that are located there. -/
namespace Qlever
open Library MergeTriples List MergeTriples FilterDuplicatesAndGraphs LocatedTriplesPerBlock
open LocatedTriplesPerBlock (Visible Original GraphsKnown WellLocated augmentedBlocks)
open Option (some_inj all_some)
variable {Id : Type}

def StoredRow.select [Bot Id] (columns : List Nat) (row : StoredRow Id) : List Id := columns.map (fun column => row.columns.getD column ⊥)

def LocatedTriple.row (located : LocatedTriple Id) : StoredRow Id := ⟨located.triple,[]⟩

@[simp] theorem LocatedTriple.quad_row (located : LocatedTriple Id) : located.row.quad = located.triple := rfl

def ScanSpecification.isMatch [DecidableEq Id] (scanSpec : ScanSpecification Id) (quad : IdTriple Id) : Bool :=
  scanSpec.col0Id.all (fun id => id = quad.col0Id) && scanSpec.col1Id.all (fun id => id = quad.col1Id) && scanSpec.col2Id.all (fun id => id = quad.col2Id)

namespace CompressedRelationReader

section Columns
variable {n : Nat} {rest : List Nat}

/-- The columns of a scan where the first `n` columns are fixed: the free columns of the triple, the graph, and the payload. -/
def columnsFrom (n : Nat) (rest : List Nat) : List Nat := range' n (3 - n) ++ rest

theorem pairwise_columnsFrom (rest : List Nat) (ascending : rest.Pairwise (· ≤ ·)) (behind : ∀ column ∈ rest,3 ≤ column) :
    (columnsFrom n rest).Pairwise (· ≤ ·) := by
  refine pairwise_append.mpr ⟨(pairwise_lt_range' ).imp le_of_lt,ascending,?_⟩
  intro column isFree other isRest
  have free := mem_range'_1.mp isFree
  have above := behind other isRest
  omega

theorem prepareLocatedTriples_withGraph (small : n ≤ 3) (ascending : (ADDITIONAL_COLUMN_GRAPH_ID::rest).Pairwise (· < ·)) :
    prepareLocatedTriples (columnsFrom n (ADDITIONAL_COLUMN_GRAPH_ID::rest)) = .ok (3 - n,true) := by
  have sorted : (columnsFrom n (ADDITIONAL_COLUMN_GRAPH_ID::rest)).Pairwise (· ≤ ·) := by
    apply pairwise_columnsFrom _ (ascending.imp le_of_lt)
    intro column member
    rcases mem_cons.mp member with rfl | later
    · exact le_refl _
    · exact ((pairwise_cons.mp ascending).1 column later).le
  rw [prepareLocatedTriples]
  simp only [sorted,decide_true,Bool.not_true,Bool.false_eq_true,if_false]
  obtain rfl | rfl | rfl | rfl : n = 0 ∨ n = 1 ∨ n = 2 ∨ n = 3 := by omega
  all_goals simp [columnsFrom,ADDITIONAL_COLUMN_GRAPH_ID,range'_succ]

theorem prepareLocatedTriples_withoutGraph (small : n ≤ 3) : prepareLocatedTriples (columnsFrom n []) = .ok (3 - n,false) := by
  obtain rfl | rfl | rfl | rfl : n = 0 ∨ n = 1 ∨ n = 2 ∨ n = 3 := by omega
  all_goals decide

end Columns

section Rows
variable [LinearOrder Id] (file : File Id) (ltpb : LocatedTriplesPerBlock Id) (blockIndex : Nat)

def updatedRows : List (StoredRow Id) :=
  applyUpdates StoredRow.quad LocatedTriple.triple LocatedTriple.insertOrDelete LocatedTriple.row (file blockIndex)
    (locatedTriplesOfBlock ltpb blockIndex)

variable {file ltpb blockIndex} (sortedRows : (file blockIndex).Pairwise (fun x y => x.quad < y.quad))
  (sortedUpdates : KeyedSet.Sorted Node.triple (ltpb.map blockIndex))

omit [LinearOrder Id] in
theorem mem_locatedTriplesOfBlock {located : LocatedTriple Id} :
    located ∈ locatedTriplesOfBlock ltpb blockIndex ↔ ∃ node ∈ ltpb.map blockIndex,node.located = located := by
  rw [locatedTriplesOfBlock,List.mem_map]

include sortedRows sortedUpdates

theorem updatedRows_sorted : (updatedRows file ltpb blockIndex).Pairwise (fun x y => x.quad < y.quad) := by
  have increasing : (locatedTriplesOfBlock ltpb blockIndex).Pairwise (fun x y => x.triple < y.triple) := pairwise_map.mpr sortedUpdates
  exact applyUpdates_pairwise LocatedTriple.quad_row (fun _ _ less => less) (fun _ _ _ => lt_trans) sortedRows increasing

theorem mem_updatedRows {quad : IdTriple Id} : quad ∈ (updatedRows file ltpb blockIndex).map StoredRow.quad ↔
    Visible ((file blockIndex).map StoredRow.quad) (ltpb.map blockIndex) quad := by
  have increasing : (locatedTriplesOfBlock ltpb blockIndex).Pairwise (fun x y => x.triple < y.triple) := pairwise_map.mpr sortedUpdates
  have mem : ∀ row : StoredRow Id,row ∈ updatedRows file ltpb blockIndex ↔ _ := fun _ =>
    mem_applyUpdates LocatedTriple.quad_row sortedRows increasing
  rw [Visible,List.mem_map]
  constructor
  · rintro ⟨row,isRow,rfl⟩
    rcases (mem row).mp isRow with ⟨kept,notDeleted⟩ | ⟨located,isLocated,inserted,rfl,_⟩
    · refine Or.inl ⟨mem_map_of_mem kept,?_⟩
      intro node isNode same
      exact notDeleted node.located (mem_locatedTriplesOfBlock.mpr ⟨node,isNode,rfl⟩) same
    · obtain ⟨node,isNode,rfl⟩ := mem_locatedTriplesOfBlock.mp isLocated
      exact Or.inr ⟨node,isNode,rfl,inserted⟩
  · intro visible
    by_cases inFile : quad ∈ (file blockIndex).map StoredRow.quad
    · obtain ⟨row,isRow,rfl⟩ := List.mem_map.mp inFile
      refine ⟨row,(mem row).mpr (Or.inl ⟨isRow,?_⟩),rfl⟩
      intro located isLocated same
      obtain ⟨node,isNode,rfl⟩ := mem_locatedTriplesOfBlock.mp isLocated
      rcases visible with ⟨_,notDeleted⟩ | ⟨other,isOther,sameQuad,inserted⟩
      · exact notDeleted node isNode same
      · have distinct : ((ltpb.map blockIndex).map Node.triple).Nodup := pairwise_map.mpr (sortedUpdates.imp (fun less => less.ne))
        rw [← inj_on_of_nodup_map distinct isOther isNode (sameQuad.trans same.symm)]
        exact inserted
    · rcases visible with ⟨member,_⟩ | ⟨node,isNode,rfl,inserted⟩
      · exact absurd member inFile
      · refine ⟨node.located.row,(mem _).mpr (Or.inr ⟨node.located,mem_locatedTriplesOfBlock.mpr ⟨node,isNode,rfl⟩,inserted,rfl,?_⟩),rfl⟩
        intro row isRow same
        exact inFile (List.mem_map.mpr ⟨row,isRow,same⟩)

end Rows

section Blocks
variable [LinearOrder Id]

def DistinctTriples (rows : List (StoredRow Id)) : Prop :=
  rows.Pairwise (fun x y => (ids x.quad).take 3 ≠ (ids y.quad).take 3)

structure Stored (metadata : List (CompressedBlockMetadata Id)) (file : File Id) : Prop where
  original : Original metadata (fun i => (file i).map StoredRow.quad)
  numRows : ∀ (i : Nat) block,metadata[i]? = some block → (file i).length = block.numRows
  columns : ∀ block ∈ metadata,4 ≤ block.offsetsAndCompressedSize.length
  sorted : ∀ i,(file i).Pairwise (fun x y => x.quad < y.quad)
  distinct : ∀ (i : Nat) block,metadata[i]? = some block → block.containsDuplicatesWithDifferentGraphs = false → DistinctTriples (file i)

theorem Stored.singleton {block : CompressedBlockMetadata Id} {rows : List (StoredRow Id)} (sorted : SortedBlocks [block])
    (describes : LocatedTriplesPerBlock.Describes block (rows.map StoredRow.quad)) (numRows : rows.length = block.numRows)
    (columns : 4 ≤ block.offsetsAndCompressedSize.length) (sortedRows : rows.Pairwise (fun x y => x.quad < y.quad))
    (distinct : block.containsDuplicatesWithDifferentGraphs = false → DistinctTriples rows) : Stored [block] (fun i => if i = 0 then rows else []) := by
  refine ⟨?_,?_,by simpa using columns,?_,?_⟩
  · have quads : (fun i => (if i = 0 then rows else []).map StoredRow.quad) = fun i => if i = 0 then rows.map StoredRow.quad else [] := by
      funext i
      split <;> rfl
    rw [quads]
    exact .singleton sorted describes
  · intro i other found
    match i,found with
    | 0,found =>
      cases found
      exact numRows
  · intro i
    split
    · exact sortedRows
    · exact List.Pairwise.nil
  · intro i other found
    match i,found with
    | 0,found =>
      cases found
      exact distinct

structure IsBlock (file : File Id) (ltpb : LocatedTriplesPerBlock Id) (block : CompressedBlockMetadata Id) : Prop where
  numRows : (file block.blockIndex).length = block.numRows
  columns : 4 ≤ block.offsetsAndCompressedSize.length
  sortedRows : (file block.blockIndex).Pairwise (fun x y => x.quad < y.quad)
  sortedUpdates : KeyedSet.Sorted Node.triple (ltpb.map block.blockIndex)
  graphs : GraphsKnown block.graphInfo ((file block.blockIndex).map StoredRow.quad) (ltpb.map block.blockIndex)
  insideRows : ∀ row ∈ file block.blockIndex,block.firstTriple ≤ row.quad ∧ row.quad ≤ block.lastTriple
  insideUpdates : ∀ node ∈ ltpb.map block.blockIndex,block.firstTriple ≤ node.triple ∧ node.triple ≤ block.lastTriple
  distinct : block.containsDuplicatesWithDifferentGraphs = false → DistinctTriples (file block.blockIndex)

variable {metadata : List (CompressedBlockMetadata Id)} {file : File Id} {ltpb : LocatedTriplesPerBlock Id} {block : CompressedBlockMetadata Id}

theorem augmentBlock_sizes (updates : List (Node Id)) (block : CompressedBlockMetadata Id) :
    (augmentBlock updates block).numRows = block.numRows ∧
      (augmentBlock updates block).offsetsAndCompressedSize = block.offsetsAndCompressedSize := by
  rw [augmentBlock]
  split <;> exact ⟨rfl,rfl⟩

theorem augmentedBlocks_sizes (stored : Stored metadata file) {i : Nat} (found : (augmentedBlocks metadata ltpb.map)[i]? = some block) :
    (file i).length = block.numRows ∧ 4 ≤ block.offsetsAndCompressedSize.length := by
  rw [augmentedBlocks] at found
  by_cases inside : i < metadata.length
  · rw [List.getElem?_append_left (by simpa using inside),List.getElem?_mapIdx,List.getElem?_eq_getElem inside,Option.map_some,
      some_inj] at found
    obtain ⟨sameRows,sameColumns⟩ := augmentBlock_sizes (ltpb.map i) metadata[i]
    rw [found] at sameRows sameColumns
    rw [sameRows,sameColumns]
    exact ⟨stored.numRows i _ (List.getElem?_eq_getElem inside),stored.columns _ (getElem_mem inside)⟩
  · have behind : metadata.length ≤ i := Nat.le_of_not_lt inside
    have noRows : file i = [] := map_eq_nil_iff.mp (stored.original.empty i behind)
    rw [List.getElem?_append_right (by simpa using behind)] at found
    have member := mem_of_getElem? found
    rw [lastBlock] at member
    split at member
    next first last head final =>
      rw [mem_singleton.mp member,noRows]
      exact ⟨rfl,le_refl _⟩
    next => simp at member

theorem augmentBlock_duplicates {updates : List (Node Id)}
    (noDuplicates : (augmentBlock updates block).containsDuplicatesWithDifferentGraphs = false) :
    block.containsDuplicatesWithDifferentGraphs = false := by
  rw [augmentBlock] at noDuplicates
  split at noDuplicates
  next => simp [updateGraphMetadata] at noDuplicates
  next => exact noDuplicates

theorem augmentedBlocks_distinct (stored : Stored metadata file) {i : Nat} (found : (augmentedBlocks metadata ltpb.map)[i]? = some block)
    (noDuplicates : block.containsDuplicatesWithDifferentGraphs = false) : DistinctTriples (file i) := by
  by_cases inside : i < metadata.length
  · rw [augmentedBlocks,List.getElem?_append_left (by simpa using inside),List.getElem?_mapIdx,List.getElem?_eq_getElem inside,Option.map_some,
      some_inj] at found
    rw [← found] at noDuplicates
    exact stored.distinct i _ (List.getElem?_eq_getElem inside) (augmentBlock_duplicates noDuplicates)
  · have noRows : file i = [] := map_eq_nil_iff.mp (stored.original.empty i (Nat.le_of_not_lt inside))
    rw [noRows]
    exact List.Pairwise.nil

theorem isBlock_of_mem (stored : Stored metadata file) (well : WellLocated metadata ltpb)
    (member : block ∈ augmentedBlocks metadata ltpb.map) : IsBlock file ltpb block := by
  obtain ⟨i,found⟩ := List.getElem?_of_mem member
  obtain ⟨augmented,rfl⟩ := augmentedBlocks_get stored.original well found
  obtain ⟨numRows,columns⟩ := augmentedBlocks_sizes stored found
  refine ⟨numRows,columns,stored.sorted _,well.sorted _,augmented.graphs,?_,augmented.inside,augmentedBlocks_distinct stored found⟩
  intro row isRow
  have isQuad : row.quad ∈ (file block.blockIndex).map StoredRow.quad := mem_map_of_mem isRow
  cases source : metadata[block.blockIndex]? with
  | none =>
    rw [stored.original.empty _ (List.getElem?_eq_none_iff.mp source)] at isQuad
    simp at isQuad
  | some original =>
    obtain ⟨first,last⟩ := augmented.covers original source
    obtain ⟨above,below⟩ := (stored.original.describes _ original source).inside row.quad isQuad
    exact ⟨first.trans above,below.trans last⟩

theorem IsBlock.inside (isBlock : IsBlock file ltpb block) {quad : IdTriple Id}
    (visible : Visible ((file block.blockIndex).map StoredRow.quad) (ltpb.map block.blockIndex) quad) :
    block.firstTriple ≤ quad ∧ quad ≤ block.lastTriple := by
  rcases visible with ⟨isQuad,_⟩ | ⟨node,isNode,rfl,_⟩
  · obtain ⟨row,isRow,rfl⟩ := List.mem_map.mp isQuad
    exact isBlock.insideRows row isRow
  · exact isBlock.insideUpdates node isNode

theorem IsBlock.graphKnown (isBlock : IsBlock file ltpb block) {graphs : List Id} (info : block.graphInfo = some graphs) {row : StoredRow Id}
    (member : row ∈ updatedRows file ltpb block.blockIndex) : row.quad.graphId ∈ graphs := by
  have visible := (mem_updatedRows isBlock.sortedRows isBlock.sortedUpdates).mp (mem_map_of_mem member)
  obtain ⟨fromRows,fromUpdates⟩ := isBlock.graphs graphs info
  rcases visible with ⟨isQuad,_⟩ | ⟨node,isNode,same,inserted⟩
  · exact fromRows row.quad isQuad
  · rw [← same]
    exact fromUpdates node isNode inserted

end Blocks

section Project
variable {n : Nat} {rest : List Nat}

def project [Bot Id] (columns : List Nat) (row : StoredRow Id) : Fin columns.length → Id := fun i => row.columns.getD (columns.get i) ⊥

theorem ofFn_project [Bot Id] (columns : List Nat) (row : StoredRow Id) : ofFn (project columns row) = row.select columns := by
  apply ext_getElem
  · simp [StoredRow.select]
  · intro i left right
    simp [project,StoredRow.select]

theorem getElem?_columnsFrom (small : n ≤ 3) {i : Nat} (inQuad : i ≤ 3 - n) :
    (columnsFrom n (ADDITIONAL_COLUMN_GRAPH_ID::rest))[i]? = some (n + i) := by
  rw [columnsFrom]
  rcases inQuad.lt_or_eq with free | rfl
  · rw [List.getElem?_append_left (by simpa using free),List.getElem?_range' free,Nat.one_mul]
  · rw [List.getElem?_append_right (by simp),length_range',Nat.sub_self,List.getElem?_cons_zero,Nat.add_sub_cancel' small]
    rfl

theorem getElem?_columnsFrom_payload {i : Nat} (inPayload : 3 - n < i) :
    (columnsFrom n (ADDITIONAL_COLUMN_GRAPH_ID::rest))[i]? = rest[i - (3 - n) - 1]? := by
  obtain ⟨j,rfl⟩ := Nat.exists_eq_add_of_lt inPayload
  rw [columnsFrom,List.getElem?_append_right (by simp; omega),length_range',Nat.add_assoc,Nat.add_sub_cancel_left,List.getElem?_cons_succ,
    Nat.add_sub_cancel]

end Project

section Merge
variable [LinearOrder Id] [BoundedOrder Id] {file : File Id} {ltpb : LocatedTriplesPerBlock Id} {block : CompressedBlockMetadata Id}
  {n blockIndex : Nat} {rest columns : List Nat}

theorem decompressBlock_eq (isBlock : IsBlock file ltpb block) (inRange : ∀ column ∈ columns,column < block.offsetsAndCompressedSize.length) :
    decompressBlock file columns block = .ok ((file block.blockIndex).map (project columns)) := by
  have present : ¬(columns.any (fun column => decide (block.offsetsAndCompressedSize.length ≤ column))) = true := by
    simpa using inRange
  rw [decompressBlock,if_neg present,if_neg (not_not.mpr isBlock.numRows)]
  rfl

section
omit [BoundedOrder Id]

theorem append_lt_append_iff (fixed : List Id) {x y : List Id} : fixed ++ x < fixed ++ y ↔ x < y := by
  induction fixed with
  | nil => rfl
  | cons id fixed ih => simp [ih]

theorem drop_ids_lt_iff {s t : IdTriple Id} (shared : (ids s).take n = (ids t).take n) :
    (ids s).drop n < (ids t).drop n ↔ s < t := by
  rw [← ids_lt_iff,← append_lt_append_iff ((ids s).take n),take_append_drop,shared,take_append_drop]

end

omit [LinearOrder Id] [BoundedOrder Id] in
theorem drop_ids_inj {s t : IdTriple Id} (shared : (ids s).take n = (ids t).take n) :
    (ids s).drop n = (ids t).drop n ↔ s = t := by
  constructor
  · intro same
    have all : ids s = ids t := by
      rw [← take_append_drop n (ids s),shared,same,take_append_drop]
    simp only [ids,List.cons.injEq] at all
    exact IdTriple.ext all.1 all.2.1 all.2.2.1 all.2.2.2.1
  · rintro rfl
    rfl

theorem tieIdTableRow_project (small : n ≤ 2) (row : StoredRow Id) :
    tieIdTableRow (3 - n) true (project (columnsFrom n (ADDITIONAL_COLUMN_GRAPH_ID::rest)) row) = (ids row.quad).drop n := by
  rw [tieIdTableRow,ofFn_project]
  obtain rfl | rfl | rfl : n = 0 ∨ n = 1 ∨ n = 2 := by omega
  all_goals simp [StoredRow.select,StoredRow.columns,columnsFrom,ids,ADDITIONAL_COLUMN_GRAPH_ID,range'_succ]

omit [LinearOrder Id] [BoundedOrder Id] in
theorem tieLocatedTriple_eq (small : n ≤ 2) (located : LocatedTriple Id) :
    tieLocatedTriple (3 - n) true located = (ids located.triple).drop n := by
  obtain rfl | rfl | rfl : n = 0 ∨ n = 1 ∨ n = 2 := by omega
  all_goals rfl

theorem rowOfLocatedTriple_project (small : n ≤ 2) (ascending : (ADDITIONAL_COLUMN_GRAPH_ID::rest).Pairwise (· < ·)) (located : LocatedTriple Id) :
    rowOfLocatedTriple (3 - n) true located = project (columnsFrom n (ADDITIONAL_COLUMN_GRAPH_ID::rest)) located.row := by
  funext i
  have graph : ∀ column ∈ rest,3 < column := (pairwise_cons.mp ascending).1
  have columns : (located.row).columns = ids located.triple := append_nil _
  have column : (columnsFrom n (ADDITIONAL_COLUMN_GRAPH_ID::rest))[i.val]? = some ((columnsFrom n (ADDITIONAL_COLUMN_GRAPH_ID::rest)).get i) :=
    List.getElem?_eq_getElem i.isLt
  rw [rowOfLocatedTriple,project,columns]
  split
  next inQuad =>
    rw [Bool.toNat_true] at inQuad
    rw [getElem?_columnsFrom (by omega) (by omega),some_inj] at column
    rw [← column,show 3 - (3 - n) = n by omega]
  next inPayload =>
    rw [Bool.toNat_true] at inPayload
    rw [getElem?_columnsFrom_payload (by omega)] at column
    have behind := graph _ (mem_of_getElem? column)
    have noColumn : (ids located.triple)[(columnsFrom n (ADDITIONAL_COLUMN_GRAPH_ID::rest)).get i]? = none :=
      List.getElem?_eq_none_iff.mpr behind
    rw [getD_eq_getElem?_getD,noColumn]
    rfl

theorem mergedRows_project (small : n ≤ 2) (ascending : (ADDITIONAL_COLUMN_GRAPH_ID::rest).Pairwise (· < ·)) {fixed : List Id}
    (sharedRows : ∀ row ∈ file blockIndex,(ids row.quad).take n = fixed)
    (sharedUpdates : ∀ located ∈ locatedTriplesOfBlock ltpb blockIndex,(ids located.triple).take n = fixed) :
    mergedRows (3 - n) true ((file blockIndex).map (project (columnsFrom n (ADDITIONAL_COLUMN_GRAPH_ID::rest)))) (locatedTriplesOfBlock ltpb blockIndex) =
      (updatedRows file ltpb blockIndex).map (project (columnsFrom n (ADDITIONAL_COLUMN_GRAPH_ID::rest))) := by
  apply applyUpdates_map
  · intro located isLocated row isRow
    rw [tieIdTableRow_project small,tieLocatedTriple_eq small]
    exact drop_ids_lt_iff ((sharedUpdates located isLocated).trans (sharedRows row isRow).symm)
  · intro located isLocated row isRow
    rw [tieIdTableRow_project small,tieLocatedTriple_eq small]
    exact drop_ids_inj ((sharedUpdates located isLocated).trans (sharedRows row isRow).symm)
  · intro located _
    exact rowOfLocatedTriple_project small ascending located

end Merge

def wanted [DecidableEq Id] (desiredGraphs : Option (List Id)) (quad : IdTriple Id) : Bool :=
  desiredGraphs.all (fun graphs => graphs.contains quad.graphId)

section Postprocess
variable [DecidableEq Id] {filter : FilterDuplicatesAndGraphs Id} {block : CompressedBlockMetadata Id} {rows : List (StoredRow Id)}
  {n : Nat} {rest columns : List Nat} (known : ∀ graphs,block.graphInfo = some graphs → ∀ row ∈ rows,row.quad.graphId ∈ graphs)
include known

theorem filterByGraphIfNecessary_eq [Bot Id] (graphColumn : filter.desiredGraphs.isSome → columns[filter.graphColumn]? = some ADDITIONAL_COLUMN_GRAPH_ID) :
    filter.filterByGraphIfNecessary (rows.map (StoredRow.select columns)) block =
      (rows.filter (fun row => wanted filter.desiredGraphs row.quad)).map (StoredRow.select columns) := by
  rw [filterByGraphIfNecessary,blockNeedsFilteringByGraph]
  cases isDesired : filter.desiredGraphs with
  | none => simp [wanted]
  | some desired =>
    have column := graphColumn (by simp [isDesired])
    have graphOf : ∀ row : StoredRow Id,(row.select columns)[filter.graphColumn]? = some row.quad.graphId := by
      intro row
      rw [StoredRow.select,List.getElem?_map,column]
      rfl
    have filtered : (rows.map (StoredRow.select columns)).filter (fun row => (row[filter.graphColumn]?).any (fun graph => ((some desired).getD []).contains graph)) =
        (rows.filter (fun row => wanted (some desired) row.quad)).map (StoredRow.select columns) := by
      rw [filter_map]
      congr 1
      apply filter_congr
      intro row _
      simp [graphOf,wanted]
    cases info : block.graphInfo with
    | none => simpa using filtered
    | some graphs =>
      by_cases needed : (!graphs.all (fun containedGraph => decide (containedGraph ∈ desired))) = true
      · simpa only [needed,if_true] using filtered
      · have all : rows.filter (fun row => wanted (some desired) row.quad) = rows := by
          apply filter_eq_self.mpr
          intro row isRow
          have isWanted : ∀ graph ∈ graphs,graph ∈ desired := by simpa using needed
          simpa [wanted] using isWanted _ (known graphs info row isRow)
        simp only [needed,all]
        simp

theorem filter_wanted_of_skipped (skipped : filter.canBlockBeSkipped block = true) :
    rows.filter (fun row => wanted filter.desiredGraphs row.quad) = [] := by
  rw [canBlockBeSkipped] at skipped
  split at skipped
  next desired graphs isDesired info =>
    apply filter_eq_nil_iff.mpr
    intro row isRow
    have notContained : ∀ graph ∈ desired,graph ∉ graphs := by simpa using skipped
    simp only [wanted,isDesired,all_some,contains_iff_mem]
    exact fun isWanted => notContained _ isWanted (known graphs info row isRow)
  next => exact absurd skipped Bool.false_ne_true

section
omit known [DecidableEq Id]

theorem eraseIdx_select [Bot Id] (i : Nat) (row : StoredRow Id) : (row.select columns).eraseIdx i = row.select (columns.eraseIdx i) := by
  rw [StoredRow.select,StoredRow.select,eraseIdx_map]

theorem eraseIdx_columnsFrom : (columnsFrom n (ADDITIONAL_COLUMN_GRAPH_ID::rest)).eraseIdx (3 - n) = columnsFrom n rest := by
  rw [columnsFrom,eraseIdx_append_of_length_le (by simp)]
  simp [columnsFrom]

end

def outColumns (filter : FilterDuplicatesAndGraphs Id) (n : Nat) (rest : List Nat) : List Nat :=
  if filter.deleteGraphColumn then columnsFrom n rest else columnsFrom n (ADDITIONAL_COLUMN_GRAPH_ID::rest)

theorem postprocessBlock_eq [Bot Id] (small : n ≤ 3)
    (graphColumn : filter.desiredGraphs.isSome ∨ filter.deleteGraphColumn = true → filter.graphColumn = 3 - n) :
    filter.postprocessBlock (rows.map (StoredRow.select (columnsFrom n (ADDITIONAL_COLUMN_GRAPH_ID::rest)))) block =
      filterDuplicatesIfNecessary
        ((rows.filter (fun row => wanted filter.desiredGraphs row.quad)).map (StoredRow.select (outColumns filter n rest))) block := by
  have column : filter.desiredGraphs.isSome → (columnsFrom n (ADDITIONAL_COLUMN_GRAPH_ID::rest))[filter.graphColumn]? = some ADDITIONAL_COLUMN_GRAPH_ID := by
    intro isDesired
    rw [graphColumn (Or.inl isDesired),getElem?_columnsFrom small (le_refl _),Nat.add_sub_cancel' small]
    rfl
  rw [postprocessBlock,filterByGraphIfNecessary_eq known column,outColumns]
  cases deleted : filter.deleteGraphColumn with
  | false => rfl
  | true =>
    simp only [if_true,map_map,Function.comp_def,eraseIdx_select,graphColumn (Or.inr deleted),eraseIdx_columnsFrom]

end Postprocess

section Read
variable [LinearOrder Id] [BoundedOrder Id] {file : File Id} {ltpb : LocatedTriplesPerBlock Id} {block : CompressedBlockMetadata Id}
  {n blockIndex : Nat} {rest : List Nat} {filter : FilterDuplicatesAndGraphs Id}

theorem mergeLocatedTriples_eq {numColumns k : Nat} {includeGraphColumn : Bool} (positive : 1 ≤ k) (small : k ≤ 3)
    (columns : k + includeGraphColumn.toNat ≤ numColumns) (rows : IdTable Id numColumns) :
    mergeLocatedTriples ltpb blockIndex rows k includeGraphColumn =
      .ok (mergedRows k includeGraphColumn rows (locatedTriplesOfBlock ltpb blockIndex)) := by
  rw [mergeLocatedTriples]
  split
  next contained =>
    have impl := mergeTriplesImpl_eq contained columns rows
    have merged : mergeTriples ltpb blockIndex rows k includeGraphColumn = .ok (mergedRows k includeGraphColumn rows (locatedTriplesOfBlock ltpb blockIndex)) := by
      obtain rfl | rfl | rfl : k = 1 ∨ k = 2 ∨ k = 3 := by omega
      all_goals exact impl
    rw [merged]
  next absent =>
    have noUpdates : ltpb.map blockIndex = [] := by
      simpa [containsTriples,hasUpdates] using absent
    rw [locatedTriplesOfBlock,noUpdates,mergedRows,map_nil,applyUpdates_nil]

theorem readAndDecompressBlock_withGraph (isBlock : IsBlock file ltpb block) (small : n ≤ 2)
    (ascending : (ADDITIONAL_COLUMN_GRAPH_ID::rest).Pairwise (· < ·)) (inRange : ∀ column ∈ rest,column < block.offsetsAndCompressedSize.length)
    {fixed : List Id} (sharedRows : ∀ row ∈ file block.blockIndex,(ids row.quad).take n = fixed)
    (sharedUpdates : ∀ located ∈ locatedTriplesOfBlock ltpb block.blockIndex,(ids located.triple).take n = fixed)
    (graphColumn : filter.desiredGraphs.isSome ∨ filter.deleteGraphColumn = true → filter.graphColumn = 3 - n) :
    ∃ table,readAndDecompressBlock file block ⟨columnsFrom n (ADDITIONAL_COLUMN_GRAPH_ID::rest),filter,ltpb⟩ = .ok table ∧
      table.getD [] = filterDuplicatesIfNecessary
        (((updatedRows file ltpb block.blockIndex).filter (fun row => wanted filter.desiredGraphs row.quad)).map (StoredRow.select (outColumns filter n rest))) block := by
  have known : ∀ graphs,block.graphInfo = some graphs → ∀ row ∈ updatedRows file ltpb block.blockIndex,row.quad.graphId ∈ graphs :=
    fun graphs info row member => isBlock.graphKnown info member
  rw [readAndDecompressBlock]
  by_cases skipped : filter.canBlockBeSkipped block = true
  · refine ⟨none,if_pos skipped,?_⟩
    rw [filter_wanted_of_skipped known skipped,filterDuplicatesIfNecessary]
    simp [unique]
  · have columns : ∀ column ∈ columnsFrom n (ADDITIONAL_COLUMN_GRAPH_ID::rest),column < block.offsetsAndCompressedSize.length := by
      intro column member
      have four := isBlock.columns
      rcases mem_append.mp member with free | isGraph
      · have free := mem_range'_1.mp free
        omega
      · rcases mem_cons.mp isGraph with rfl | payload
        · exact four
        · exact inRange column payload
    have wide : 3 - n + true.toNat ≤ (columnsFrom n (ADDITIONAL_COLUMN_GRAPH_ID::rest)).length := by simp [columnsFrom]
    have merged : mergeLocatedTriples ltpb block.blockIndex ((file block.blockIndex).map (project (columnsFrom n (ADDITIONAL_COLUMN_GRAPH_ID::rest))))
        (3 - n) true = _ := mergeLocatedTriples_eq (by omega : 1 ≤ 3 - n) (by omega) wide _
    rw [mergedRows_project small ascending sharedRows sharedUpdates] at merged
    refine ⟨some _,?_,rfl⟩
    rw [if_neg skipped,decompressAndPostprocessBlock]
    simp only [decompressBlock_eq isBlock columns,prepareLocatedTriples_withGraph (by omega : n ≤ 3) ascending,merged,bind,Except.bind,pure,Except.pure,
      map_map,Function.comp_def,ofFn_project]
    exact congrArg (fun table => Except.ok (some table)) (postprocessBlock_eq known (by omega) graphColumn)

theorem filterDuplicates_withGraph (small : n ≤ 2) {rows : List (StoredRow Id)} (sorted : rows.Pairwise (fun x y => x.quad < y.quad)) {fixed : List Id}
    (shared : ∀ row ∈ rows,(ids row.quad).take n = fixed) :
    filterDuplicatesIfNecessary (rows.map (StoredRow.select (columnsFrom n (ADDITIONAL_COLUMN_GRAPH_ID::rest)))) block =
      rows.map (StoredRow.select (columnsFrom n (ADDITIONAL_COLUMN_GRAPH_ID::rest))) := by
  rw [filterDuplicatesIfNecessary]
  split
  next => rfl
  next =>
    apply unique_eq_self
    apply pairwise_map.mpr
    refine sorted.imp_of_mem ?_
    intro x y isX isY less
    apply decide_eq_false
    intro same
    have keys : (ids x.quad).drop n = (ids y.quad).drop n := by
      rw [← tieIdTableRow_project small x,← tieIdTableRow_project small y,tieIdTableRow,tieIdTableRow,ofFn_project,ofFn_project,same]
    exact less.ne ((drop_ids_inj ((shared x isX).trans (shared y isY).symm)).mp keys)

end Read

section Narrow
variable [LinearOrder Id] [OrderBot Id] {rows : List (StoredRow Id)} {toRow : StoredRow Id → List Id} {key : StoredRow Id → Id}

theorem filterColumn_eq (relevantId : Option Id) {columnIdx : Nat} (keyOf : ∀ row,(toRow row).getD columnIdx ⊥ = key row)
    (sorted : relevantId.isSome → rows.Pairwise (fun x y => key x ≤ key y)) :
    filterColumn relevantId columnIdx (rows.map toRow) = (rows.filter (fun row => relevantId.all (fun id => id = key row))).map toRow := by
  cases relevantId with
  | none => simp [filterColumn]
  | some id =>
    have sorted := sorted rfl
    have behind : (rows.filter (fun row => id ≤ key row)).Pairwise (fun x y => key x ≤ key y) := sorted.filter _
    simp only [filterColumn,dropWhile_map,takeWhile_map,Function.comp_def,keyOf,dropWhile_lt key id sorted,← decide_not,not_lt,takeWhile_le key id behind,
      filter_filter,all_some]
    congr 1
    apply filter_congr
    intro row _
    rw [← Bool.decide_and]
    exact decide_eq_decide.mpr ⟨fun ⟨le,ge⟩ => le_antisymm ge le,fun same => ⟨same.ge,same.le⟩⟩

theorem filterColumns_eq (scanSpec : ScanSpecification Id) (toRow : StoredRow Id → List Id) (sorted : rows.Pairwise (fun x y => x.quad < y.quad))
    (col0 : ∀ row,(toRow row).getD 0 ⊥ = row.quad.col0Id) (col1 : ∀ row,(toRow row).getD 1 ⊥ = row.quad.col1Id)
    (col2 : ∀ row,(toRow row).getD 2 ⊥ = row.quad.col2Id) :
    filterColumn scanSpec.col2Id 2 (filterColumn scanSpec.col1Id 1 (filterColumn scanSpec.col0Id 0 (rows.map toRow))) =
      (rows.filter (fun row => scanSpec.isMatch row.quad)).map toRow := by
  have sorted0 : rows.Pairwise (fun x y => x.quad.col0Id ≤ y.quad.col0Id) := sorted.imp (fun less => IdTriple.col0_le less.le)
  rw [filterColumn_eq scanSpec.col0Id col0 (fun _ => sorted0)]
  have sorted1 : scanSpec.col1Id.isSome → (rows.filter (fun row => scanSpec.col0Id.all (fun id => id = row.quad.col0Id))).Pairwise
      (fun x y => x.quad.col1Id ≤ y.quad.col1Id) := by
    intro fixed1
    obtain ⟨a,fixed0⟩ := Option.isSome_iff_exists.mp (scanSpec.validate.1 fixed1)
    refine (sorted.filter _).imp_of_mem ?_
    intro x y isX isY less
    simp only [mem_filter,fixed0,all_some,decide_eq_true_eq] at isX isY
    exact IdTriple.col1_le less.le (isX.2.symm.trans isY.2)
  rw [filterColumn_eq scanSpec.col1Id col1 sorted1,filter_filter]
  have sorted2 : scanSpec.col2Id.isSome → (rows.filter (fun row => scanSpec.col1Id.all (fun id => id = row.quad.col1Id) &&
      scanSpec.col0Id.all (fun id => id = row.quad.col0Id))).Pairwise (fun x y => x.quad.col2Id ≤ y.quad.col2Id) := by
    intro fixed2
    obtain ⟨b,fixed1⟩ := Option.isSome_iff_exists.mp (scanSpec.validate.2 fixed2)
    obtain ⟨a,fixed0⟩ := Option.isSome_iff_exists.mp (scanSpec.validate.1 (Option.isSome_iff_exists.mpr ⟨b,fixed1⟩))
    refine (sorted.filter _).imp_of_mem ?_
    intro x y isX isY less
    simp only [mem_filter,fixed0,fixed1,all_some,Bool.and_eq_true,decide_eq_true_eq] at isX isY
    exact IdTriple.col2_le less.le (isX.2.2.symm.trans isY.2.2) (isX.2.1.symm.trans isY.2.1)
  rw [filterColumn_eq scanSpec.col2Id col2 sorted2,filter_filter]
  congr 1
  apply filter_congr
  intro row _
  rw [ScanSpecification.isMatch,Bool.and_comm,Bool.and_comm (scanSpec.col1Id.all _)]

end Narrow
end CompressedRelationReader
end Qlever
