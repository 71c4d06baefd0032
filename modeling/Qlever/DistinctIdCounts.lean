import Qlever.ResultSizeOfScan
import Qlever.Library.Histogram

/-! `getDistinctColIdsAndCountsImpl`: the distinct IDs of a column with their counts. Blocks with a single ID are counted without reading them.
-/
namespace Qlever
open Library MergeTriples List
open LocatedTriplesPerBlock (Visible Original GraphsKnown WellLocated augmentedBlocks)
variable {Id : Type}
namespace CompressedRelationReader

structure DistinctIdCounter (Id : Type) where
  table : List (Id × Nat)
  currentColId : Option Id
  currentCount : Nat

section Definitions

def processColId [DecidableEq Id] (colId : Option Id) (colIdCount : Nat) (counter : DistinctIdCounter Id) : DistinctIdCounter Id :=
  if colId ≠ counter.currentColId then
    match counter.currentColId with
    | some current => ⟨counter.table ++ [(current,counter.currentCount)],colId,0 + colIdCount⟩
    | none => ⟨counter.table,colId,0 + colIdCount⟩
  else {counter with currentCount := counter.currentCount + colIdCount}

variable [LinearOrder Id] [BoundedOrder Id] (file : File Id)

/-- The block with index `i` of the blocks of the scan, of which only the first one is narrowed down to the specification. -/
def readBlockToCount (scanSpec : ScanSpecification Id) (scanConfig : ScanImplConfig Id) (locatedTriplesPerBlock : LocatedTriplesPerBlock Id) (i : Nat)
    (blockMetadata : CompressedBlockMetadata Id) : Except ScanFailure (Option (Table Id)) :=
  if i = 0 then do
    let block ← readPossiblyIncompleteBlock file scanSpec scanConfig blockMetadata locatedTriplesPerBlock
    return some block
  else readAndDecompressBlock file blockMetadata scanConfig

def countBlock (idGetter : IdTriple Id → Id) (scanSpec : ScanSpecification Id) (scanConfig : ScanImplConfig Id)
    (locatedTriplesPerBlock : LocatedTriplesPerBlock Id) (counter : DistinctIdCounter Id) (entry : CompressedBlockMetadata Id × Nat) :
    Except ScanFailure (DistinctIdCounter Id) :=
  let (blockMetadata,i) := entry
  let firstColId := idGetter blockMetadata.firstTriple
  let lastColId := idGetter blockMetadata.lastTriple
  if firstColId = lastColId then .ok (processColId (some firstColId) blockMetadata.numRows counter)
  else do
    let optionalBlock ← readBlockToCount file scanSpec scanConfig locatedTriplesPerBlock i blockMetadata
    match optionalBlock with
    | none => return counter
    | some block => return block.foldl (fun counter row => processColId (some (row.getD 0 ⊥)) 1 counter) counter

def getDistinctColIdsAndCountsImpl (idGetter : IdTriple Id → Id) (scanSpecAndBlocks : ScanSpecAndBlocks Id)
    (locatedTriplesPerBlock : LocatedTriplesPerBlock Id) : Except ScanFailure (List (Id × Nat)) := do
  let scanSpec := scanSpecAndBlocks.scanSpec
  let blocks := getBlockMetadataView scanSpecAndBlocks
  let scanConfig := getScanConfig scanSpec [] locatedTriplesPerBlock
  let counter ← blocks.zipIdx.foldlM (countBlock file idGetter scanSpec scanConfig locatedTriplesPerBlock) ⟨[],none,0⟩
  return (processColId none 0 counter).table

def getDistinctCol0IdsAndCounts (scanSpecAndBlocks : ScanSpecAndBlocks Id) (locatedTriplesPerBlock : LocatedTriplesPerBlock Id) :
    Except ScanFailure (List (Id × Nat)) :=
  getDistinctColIdsAndCountsImpl file IdTriple.col0Id scanSpecAndBlocks locatedTriplesPerBlock

def getDistinctCol1IdsAndCounts (scanSpecAndBlocks : ScanSpecAndBlocks Id) (locatedTriplesPerBlock : LocatedTriplesPerBlock Id) :
    Except ScanFailure (List (Id × Nat)) :=
  getDistinctColIdsAndCountsImpl file IdTriple.col1Id scanSpecAndBlocks locatedTriplesPerBlock

end Definitions

section Counter
variable [LinearOrder Id] {counter : DistinctIdCounter Id}

def pending (counter : DistinctIdCounter Id) : List (Id × Nat) :=
  match counter.currentColId with
  | some current => [(current,counter.currentCount)]
  | none => []

def countEntries (entries : List (Id × Nat)) (counter : DistinctIdCounter Id) : DistinctIdCounter Id :=
  entries.foldl (fun counter entry => processColId (some entry.1) entry.2 counter) counter

theorem table_countEntries (entries : List (Id × Nat)) (counter : DistinctIdCounter Id) :
    (processColId none 0 (countEntries entries counter)).table = counter.table ++ joinRuns (pending counter ++ entries) := by
  induction entries generalizing counter with
  | nil =>
    obtain ⟨table,currentColId,currentCount⟩ := counter
    cases currentColId <;> simp [countEntries,processColId,pending,joinRuns]
  | cons entry entries ih =>
    rw [countEntries,foldl_cons]
    refine (ih (processColId (some entry.1) entry.2 counter)).trans ?_
    obtain ⟨table,currentColId,currentCount⟩ := counter
    obtain ⟨colId,count⟩ := entry
    cases currentColId with
    | none => simp [processColId,pending]
    | some current =>
      by_cases same : colId = current
      · subst same
        simp [processColId,pending,joinRuns_same]
      · have different : (current,currentCount).1 ≠ (colId,count).1 := Ne.symm same
        simp [processColId,pending,same,joinRuns_different different]

end Counter

section Entries
variable [LinearOrder Id] [BoundedOrder Id] {file : File Id} {ltpb : LocatedTriplesPerBlock Id} {scanSpec : ScanSpecification Id}
  {idGetter : IdTriple Id → Id} {blocks : List (CompressedBlockMetadata Id)} {block : CompressedBlockMetadata Id}

def firstColumn (table : Table Id) : List Id := table.map (fun row => row.getD 0 ⊥)

def narrowedIds (file : File Id) (ltpb : LocatedTriplesPerBlock Id) (scanSpec : ScanSpecification Id) (block : CompressedBlockMetadata Id) : List Id :=
  firstColumn ((scannedRows file ltpb scanSpec block).map (StoredRow.select (columnsFrom (numFixed scanSpec) [])))

def wholeIds (file : File Id) (ltpb : LocatedTriplesPerBlock Id) (scanSpec : ScanSpecification Id) (block : CompressedBlockMetadata Id) : List Id :=
  firstColumn (contentOf (readAndDecompressBlock file block (getScanConfig scanSpec [] ltpb)))

local instance lawfulBlocks : LawfulBEq (CompressedBlockMetadata Id) := inferInstance

def scannedIds (file : File Id) (ltpb : LocatedTriplesPerBlock Id) (scanSpec : ScanSpecification Id) (blocks : List (CompressedBlockMetadata Id))
    (block : CompressedBlockMetadata Id) : List Id :=
  if block ∈ innerBlocks blocks then wholeIds file ltpb scanSpec block else narrowedIds file ltpb scanSpec block

def hasSingleId (idGetter : IdTriple Id → Id) (block : CompressedBlockMetadata Id) : Bool := idGetter block.firstTriple = idGetter block.lastTriple

def countsOfBlock (idGetter : IdTriple Id → Id) (ids : List Id) (block : CompressedBlockMetadata Id) : List (Id × Nat) :=
  if hasSingleId idGetter block then [(idGetter block.firstTriple,block.numRows)] else ids.map (fun id => (id,1))

def countsAmong (idGetter : IdTriple Id → Id) (file : File Id) (ltpb : LocatedTriplesPerBlock Id) (scanSpec : ScanSpecification Id)
    (blocks : List (CompressedBlockMetadata Id)) (block : CompressedBlockMetadata Id) : List (Id × Nat) :=
  countsOfBlock idGetter (if blocks.head? = some block then narrowedIds file ltpb scanSpec block else wholeIds file ltpb scanSpec block) block

theorem countEntries_ones (table : Table Id) (counter : DistinctIdCounter Id) :
    table.foldl (fun counter row => processColId (some (row.getD 0 ⊥)) 1 counter) counter =
      countEntries ((firstColumn table).map (fun id => (id,1))) counter := by
  rw [countEntries,firstColumn,map_map,foldl_map]
  rfl

theorem countBlock_eq {i : Nat} {read : Option (Table Id)} (ran : readBlockToCount file scanSpec (getScanConfig scanSpec [] ltpb) ltpb i block = .ok read)
    (counter : DistinctIdCounter Id) :
    countBlock file idGetter scanSpec (getScanConfig scanSpec [] ltpb) ltpb counter (block,i) =
      .ok (countEntries (countsOfBlock idGetter (firstColumn (read.getD [])) block) counter) := by
  rw [countBlock,countsOfBlock,hasSingleId]
  by_cases single : idGetter block.firstTriple = idGetter block.lastTriple
  · simp [single,countEntries]
  · simp only [single,decide_false,Bool.false_eq_true,if_false,ran,bind,Except.bind]
    cases read with
    | none => rfl
    | some table => exact congrArg Except.ok (countEntries_ones table counter)

theorem foldlM_countBlock {blocks : List (CompressedBlockMetadata Id)} (start : Nat) {ids : CompressedBlockMetadata Id → List Id}
    (reads : ∀ block ∈ blocks,∃ read,readAndDecompressBlock file block (getScanConfig scanSpec [] ltpb) = .ok read ∧ firstColumn (read.getD []) = ids block)
    (counter : DistinctIdCounter Id) :
    (blocks.zipIdx (start + 1)).foldlM (countBlock file idGetter scanSpec (getScanConfig scanSpec [] ltpb) ltpb) counter =
      .ok (countEntries (blocks.flatMap (fun block => countsOfBlock idGetter (ids block) block)) counter) := by
  induction blocks generalizing start counter with
  | nil => rfl
  | cons block blocks ih =>
    obtain ⟨read,ran,content⟩ := reads block mem_cons_self
    have first : readBlockToCount file scanSpec (getScanConfig scanSpec [] ltpb) ltpb (start + 1) block = .ok read := by
      rw [readBlockToCount,if_neg (Nat.succ_ne_zero start)]
      exact ran
    rw [zipIdx_cons,foldlM_cons,countBlock_eq first counter]
    refine (ih (start + 1) (forall_mem_cons.mp reads).2 _).trans ?_
    rw [flatMap_cons,content,countEntries,countEntries,countEntries,foldl_append]

theorem getDistinctColIdsAndCountsImpl_eq {scanSpecAndBlocks : ScanSpecAndBlocks Id} (scan : ScanBlocks file ltpb scanSpecAndBlocks.scanSpec blocks)
    (view : getBlockMetadataView scanSpecAndBlocks = blocks) (atMostTwo : scanSpecAndBlocks.scanSpec.col2Id = none) :
    getDistinctColIdsAndCountsImpl file idGetter scanSpecAndBlocks ltpb =
      .ok (joinRuns (blocks.flatMap (countsAmong idGetter file ltpb scanSpecAndBlocks.scanSpec blocks))) := by
  have counted : blocks.zipIdx.foldlM (countBlock file idGetter scanSpecAndBlocks.scanSpec (getScanConfig scanSpecAndBlocks.scanSpec [] ltpb) ltpb) ⟨[],none,0⟩ =
      .ok (countEntries (blocks.flatMap (countsAmong idGetter file ltpb scanSpecAndBlocks.scanSpec blocks)) ⟨[],none,0⟩) := by
    match blocks,scan with
    | [],_ => rfl
    | block::blocks,scan =>
      have distinct := OrderedBlocks.nodup scan.ordered
      have outer : readPossiblyIncompleteBlock file scanSpecAndBlocks.scanSpec _ block ltpb = .ok _ := readOuter_withoutGraph (scan.each block mem_cons_self)
      have first : readBlockToCount file scanSpecAndBlocks.scanSpec (getScanConfig scanSpecAndBlocks.scanSpec [] ltpb) ltpb 0 block =
          .ok (some ((scannedRows file ltpb scanSpecAndBlocks.scanSpec block).map (StoredRow.select (columnsFrom (numFixed scanSpecAndBlocks.scanSpec) [])))) := by
        rw [readBlockToCount,if_pos rfl,outer]
        rfl
      have reads : ∀ other ∈ blocks,∃ read,readAndDecompressBlock file other (getScanConfig scanSpecAndBlocks.scanSpec [] ltpb) = .ok read ∧
          firstColumn (read.getD []) = wholeIds file ltpb scanSpecAndBlocks.scanSpec other := by
        intro other member
        obtain ⟨table,read⟩ := readInner_total (scan.each other (mem_cons_of_mem _ member)) atMostTwo
        refine ⟨table,read,?_⟩
        rw [wholeIds,read]
        rfl
      have rest : blocks.flatMap (countsAmong idGetter file ltpb scanSpecAndBlocks.scanSpec (block::blocks)) =
          blocks.flatMap (fun other => countsOfBlock idGetter (wholeIds file ltpb scanSpecAndBlocks.scanSpec other) other) := by
        apply flatMap_congr
        intro other member
        have notFirst : ¬(block::blocks).head? = some other := by
          rintro ⟨⟩
          exact (nodup_cons.mp distinct).1 member
        rw [countsAmong,if_neg notFirst]
      rw [zipIdx_cons,foldlM_cons,countBlock_eq first]
      refine (foldlM_countBlock 0 reads _).trans ?_
      rw [flatMap_cons,rest,countEntries,countEntries,countEntries,foldl_append,countsAmong,if_pos (head?_cons ..)]
      rfl
  rw [getDistinctColIdsAndCountsImpl]
  simp only [view,counted,bind,Except.bind,pure,Except.pure,table_countEntries]
  simp [pending]

theorem lazyScan_firstColumn (scan : ScanBlocks file ltpb scanSpec blocks) (atMostTwo : scanSpec.col2Id = none) :
    ∃ tables,lazyScan file scanSpec blocks [] ltpb = .ok tables ∧ firstColumn tables.flatten = blocks.flatMap (scannedIds file ltpb scanSpec blocks) := by
  have contents : ∀ block ∈ innerBlocks blocks,∃ table,readAndDecompressBlock file block (getScanConfig scanSpec [] ltpb) = .ok table ∧
      table.getD [] = contentOf (readAndDecompressBlock file block (getScanConfig scanSpec [] ltpb)) := by
    intro block member
    obtain ⟨table,read⟩ := readInner_total (scan.each block (innerBlocks_subset blocks member)) atMostTwo
    refine ⟨table,read,?_⟩
    rw [read]
    rfl
  obtain ⟨tables,ran,content⟩ := lazyScan_eq (fun block member => readOuter_withoutGraph (scan.each block (outerBlocks_subset blocks member))) contents
  refine ⟨tables,ran,?_⟩
  rw [content,joinBlocks_eq_flatMap (OrderedBlocks.nodup scan.ordered),firstColumn,map_flatMap]
  apply flatMap_congr
  intro block _
  rw [scannedIds]
  split <;> rfl

/-- The blocks that are not counted by the rows that the scan takes from them: those with a single ID, and the last one of several blocks. -/
def isUnchecked (idGetter : IdTriple Id → Id) (blocks : List (CompressedBlockMetadata Id)) (block : CompressedBlockMetadata Id) : Bool :=
  hasSingleId idGetter block || (blocks.head? ≠ some block && blocks.getLast? = some block)

theorem mem_innerBlocks_iff {β : Type} [DecidableEq β] {blocks : List β} (distinct : blocks.Nodup) {block : β} (member : block ∈ blocks) :
    block ∈ innerBlocks blocks ↔ blocks.head? ≠ some block ∧ blocks.getLast? ≠ some block := by
  match blocks with
  | [] => simp at member
  | [first] =>
    have same : block = first := mem_singleton.mp member
    simp [innerBlocks,same]
  | first::next::blocks =>
    have outer : block ∈ outerBlocks (first::next::blocks) ↔ first = block ∨ (next::blocks).getLast (cons_ne_nil next blocks) = block := by
      simp only [outerBlocks,mem_cons,not_mem_nil,or_false]
      exact or_congr eq_comm eq_comm
    have split : block ∈ innerBlocks (first::next::blocks) ↔ block ∉ outerBlocks (first::next::blocks) := by
      constructor
      · exact fun inner isOuter => notMem_innerBlocks distinct isOuter inner
      · rw [outer,not_or]
        rintro ⟨notFirst,notLast⟩
        have inTail : block ∈ next::blocks := (mem_cons.mp member).resolve_left (Ne.symm notFirst)
        rw [← dropLast_concat_getLast (cons_ne_nil next blocks),mem_append,mem_singleton] at inTail
        exact inTail.resolve_right (Ne.symm notLast)
    rw [split,outer,not_or,head?_cons,getLast?_cons_cons,getLast?_eq_some_getLast (cons_ne_nil next blocks)]
    simp

theorem total_of_checked (distinct : blocks.Nodup) (member : block ∈ blocks) (checked : isUnchecked idGetter blocks block = false) (id : Id) :
    total (countsAmong idGetter file ltpb scanSpec blocks block) id = (scannedIds file ltpb scanSpec blocks block).count id := by
  rw [isUnchecked,Bool.or_eq_false_iff] at checked
  obtain ⟨several,notLast⟩ := checked
  have isInner := mem_innerBlocks_iff distinct member
  rw [countsAmong,countsOfBlock,several,if_neg Bool.false_ne_true,total_ones,scannedIds]
  by_cases first : blocks.head? = some block
  · rw [if_pos first,if_neg (fun inner => (isInner.mp inner).1 first)]
  · have inner : block ∈ innerBlocks blocks := isInner.mpr ⟨first,by simpa [first] using notLast⟩
    rw [if_neg first,if_pos inner]

end Entries

section Sums
variable {β : Type} {p : β → Bool} {f g : β → Nat} {xs : List β}

theorem sum_add_sum_filter (same : ∀ x ∈ xs,p x = false → f x = g x) :
    (xs.map f).sum + ((xs.filter p).map g).sum = (xs.map g).sum + ((xs.filter p).map f).sum := by
  induction xs with
  | nil => rfl
  | cons x xs ih =>
    have ih := ih (forall_mem_cons.mp same).2
    cases passes : p x with
    | true =>
      simp only [filter_cons_of_pos passes,map_cons,sum_cons]
      omega
    | false =>
      have first := same x mem_cons_self passes
      rw [filter_cons_of_neg (by simp [passes])]
      simp only [map_cons,sum_cons]
      omega

theorem sum_eq_iff_filter (same : ∀ x ∈ xs,p x = false → f x = g x) :
    (xs.map f).sum = (xs.map g).sum ↔ ((xs.filter p).map f).sum = ((xs.filter p).map g).sum := by
  have sums := sum_add_sum_filter same
  omega

end Sums

section Agree
variable [LinearOrder Id] [BoundedOrder Id] {metadata : List (CompressedBlockMetadata Id)} {file : File Id} {ltpb : LocatedTriplesPerBlock Id}
  {scanSpec : ScanSpecification Id} {scanSpecAndBlocks : ScanSpecAndBlocks Id} {idGetter : IdTriple Id → Id} {blocks : List (CompressedBlockMetadata Id)}

def CountsAgree (file : File Id) (scanSpecAndBlocks : ScanSpecAndBlocks Id) (ltpb : LocatedTriplesPerBlock Id) (table : Except ScanFailure (List (Id × Nat))) :
    Prop :=
  ∃ tables counts,lazyScan file scanSpecAndBlocks.scanSpec (getBlockMetadataView scanSpecAndBlocks) [] ltpb = .ok tables ∧ table = .ok counts ∧
    IsHistogram (firstColumn tables.flatten) counts

/-- The unchecked blocks are counted with as many rows of each ID as the scan takes from them, every single ID occurs in the scan, and the IDs ascend
from block to block. -/
structure CountsRight (idGetter : IdTriple Id → Id) (file : File Id) (ltpb : LocatedTriplesPerBlock Id) (scanSpec : ScanSpecification Id)
    (blocks : List (CompressedBlockMetadata Id)) : Prop where
  totals : ∀ id,((blocks.filter (isUnchecked idGetter blocks)).map (fun block => total (countsAmong idGetter file ltpb scanSpec blocks block) id)).sum =
    ((blocks.filter (isUnchecked idGetter blocks)).map (fun block => (scannedIds file ltpb scanSpec blocks block).count id)).sum
  occur : ∀ block ∈ blocks,hasSingleId idGetter block = true → ∃ other ∈ blocks,idGetter block.firstTriple ∈ scannedIds file ltpb scanSpec blocks other
  ascending : (blocks.flatMap (fun block => (countsAmong idGetter file ltpb scanSpec blocks block).map Prod.fst)).Pairwise (· ≤ ·)

omit [BoundedOrder Id] in
theorem total_flatMap {β : Type} (f : β → List (Id × Nat)) (xs : List β) (id : Id) : total (xs.flatMap f) id = (xs.map (fun x => total (f x) id)).sum := by
  induction xs with
  | nil => rfl
  | cons x xs ih => rw [flatMap_cons,total_append,ih,map_cons,sum_cons]

theorem totals_iff (distinct : blocks.Nodup) (id : Id) :
    total (blocks.flatMap (countsAmong idGetter file ltpb scanSpec blocks)) id = (blocks.flatMap (scannedIds file ltpb scanSpec blocks)).count id ↔
      ((blocks.filter (isUnchecked idGetter blocks)).map (fun block => total (countsAmong idGetter file ltpb scanSpec blocks block) id)).sum =
        ((blocks.filter (isUnchecked idGetter blocks)).map (fun block => (scannedIds file ltpb scanSpec blocks block).count id)).sum := by
  rw [total_flatMap,count_flatMap]
  exact sum_eq_iff_filter (fun block member checked => total_of_checked distinct member checked id)

theorem total_pos {block : CompressedBlockMetadata Id} {id : Id} (several : hasSingleId idGetter block = false)
    (member : id ∈ (countsAmong idGetter file ltpb scanSpec blocks block).map Prod.fst) : 0 < total (countsAmong idGetter file ltpb scanSpec blocks block) id := by
  rw [countsAmong,countsOfBlock,several,if_neg Bool.false_ne_true] at member ⊢
  rw [total_ones]
  simpa using member

theorem countsAgree_iff_of_scan (scan : ScanBlocks file ltpb scanSpecAndBlocks.scanSpec blocks) (view : getBlockMetadataView scanSpecAndBlocks = blocks)
    (atMostTwo : scanSpecAndBlocks.scanSpec.col2Id = none) :
    CountsAgree file scanSpecAndBlocks ltpb (getDistinctColIdsAndCountsImpl file idGetter scanSpecAndBlocks ltpb) ↔
      CountsRight idGetter file ltpb scanSpecAndBlocks.scanSpec blocks := by
  have distinct := OrderedBlocks.nodup scan.ordered
  obtain ⟨tables,ran,columns⟩ := lazyScan_firstColumn scan atMostTwo
  have counted : getDistinctColIdsAndCountsImpl file idGetter scanSpecAndBlocks ltpb = _ := getDistinctColIdsAndCountsImpl_eq scan view atMostTwo
  have agree : CountsAgree file scanSpecAndBlocks ltpb (getDistinctColIdsAndCountsImpl file idGetter scanSpecAndBlocks ltpb) ↔
      IsHistogram (blocks.flatMap (scannedIds file ltpb scanSpecAndBlocks.scanSpec blocks))
        (joinRuns (blocks.flatMap (countsAmong idGetter file ltpb scanSpecAndBlocks.scanSpec blocks))) := by
    rw [CountsAgree,view,counted,← columns]
    constructor
    · rintro ⟨others,counts,ran',rfl',isHistogram⟩
      cases ran.symm.trans ran'
      cases rfl'
      exact isHistogram
    · exact fun isHistogram => ⟨tables,_,ran,rfl,isHistogram⟩
  rw [agree,joinRuns_isHistogram,map_flatMap]
  constructor
  · rintro ⟨ascending,totals,occur⟩
    refine ⟨fun id => (totals_iff distinct id).mp (totals id),?_,ascending⟩
    intro block member single
    apply mem_flatMap.mp
    apply occur
    refine mem_flatMap.mpr ⟨block,member,?_⟩
    rw [countsAmong,countsOfBlock,single]
    simp
  · rintro ⟨totals,occur,ascending⟩
    have allTotals := fun id => (totals_iff distinct id).mpr (totals id)
    refine ⟨ascending,allTotals,?_⟩
    intro id member
    obtain ⟨block,isBlock,inBlock⟩ := mem_flatMap.mp member
    cases single : hasSingleId idGetter block with
    | true =>
      rw [countsAmong,countsOfBlock,single] at inBlock
      simp only [if_true,map_cons,map_nil,mem_singleton] at inBlock
      subst inBlock
      exact mem_flatMap.mpr (occur block isBlock single)
    | false =>
      have positive := total_pos single inBlock
      have inSum : total (countsAmong idGetter file ltpb scanSpecAndBlocks.scanSpec blocks block) id ≤
          total (blocks.flatMap (countsAmong idGetter file ltpb scanSpecAndBlocks.scanSpec blocks)) id := by
        rw [total_flatMap]
        exact single_le_sum (fun _ _ => Nat.zero_le _) _ (mem_map_of_mem isBlock)
      rw [allTotals] at inSum
      exact count_pos_iff.mp (positive.trans_le inSum)

def fixedCol0 (col0Id : Id) : ScanSpecification Id := ⟨some col0Id,none,none,none,by simp⟩

theorem countsAgree_iff (stored : Stored metadata file) (well : WellLocated metadata ltpb) (atMostTwo : scanSpec.col2Id = none) :
    ∃ scanSpecAndBlocks,makeScanSpecAndBlocks scanSpec [augmentedBlocks metadata ltpb.map] = .ok scanSpecAndBlocks ∧
      (CountsAgree file scanSpecAndBlocks ltpb (getDistinctColIdsAndCountsImpl file idGetter scanSpecAndBlocks ltpb) ↔
        CountsRight idGetter file ltpb scanSpec (getBlockMetadataView scanSpecAndBlocks)) := by
  have ordered : OrderedBlocks [augmentedBlocks metadata ltpb.map].flatten := by
    simpa using (LocatedTriplesPerBlock.augmentedBlocks_sorted stored.original well).ordered
  have made := makeScanSpecAndBlocks_ok scanSpec ordered
  refine ⟨_,made,?_⟩
  obtain ⟨_,scan⟩ := scanBlocks_of_run stored well made
  exact countsAgree_iff_of_scan scan rfl atMostTwo

end Agree

section SmallRelations
local instance someIds : NeZero 256 := ⟨by decide⟩

/-- Three small relations share a block, and the first and the last triple have the same ID in the second column. -/
def smallRelations : CompressedBlockMetadata (Fin 256) := ⟨replicate 4 ⟨0,0⟩,3,⟨1,9,1,0⟩,⟨3,9,1,0⟩,some [0],false,0⟩

def smallRelationsFile : File (Fin 256) := fun i => if i = 0 then [⟨⟨1,9,1,0⟩,[]⟩,⟨⟨2,3,1,0⟩,[]⟩,⟨⟨3,9,1,0⟩,[]⟩] else []

theorem smallRelations_stored : Stored [smallRelations] smallRelationsFile :=
  .singleton ⟨by decide,by decide,by decide⟩ ⟨by decide,by rintro graphs ⟨⟩; decide⟩ rfl (by decide) (by decide)
    (fun _ => by unfold DistinctTriples; decide)

end SmallRelations

end CompressedRelationReader
end Qlever
