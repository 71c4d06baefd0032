import Qlever.MergeTriples
import Qlever.ScanSpecAndBlocks
import Qlever.Library.SortedSet

/-! `CompressedRelationReader`: the blocks of a permutation, read with located triples. A table is a list of rows, and a row is the list of
its IDs. The smallest ID is `⊥`, and it is also the undefined one.
-/
namespace Qlever
open Library MergeTriples
variable {Id : Type}

inductive ScanFailure
  | merge (failure : MergeFailure)
  | columnOutOfRange
  | numRowsMismatch
  | columnsNotSorted
  | graphColumnMisplaced
  | noGraphColumn
  | sizesDiffer
  deriving DecidableEq, Repr

def ADDITIONAL_COLUMN_GRAPH_ID : Nat := 3

abbrev Table (Id : Type) := List (List Id)

structure StoredRow (Id : Type) where
  quad : IdTriple Id
  payload : List Id
  deriving DecidableEq, Repr

def StoredRow.columns (row : StoredRow Id) : List Id := MergeTriples.ids row.quad ++ row.payload

structure ScanImplConfig (Id : Type) where
  scanColumns : List Nat
  graphFilter : FilterDuplicatesAndGraphs Id
  locatedTriples : LocatedTriplesPerBlock Id

namespace FilterDuplicatesAndGraphs
variable [DecidableEq Id]

def filterByGraphIfNecessary (filter : FilterDuplicatesAndGraphs Id) (block : Table Id) (blockMetadata : CompressedBlockMetadata Id) : Table Id :=
  if filter.blockNeedsFilteringByGraph blockMetadata then
    block.filter (fun row => (row[filter.graphColumn]?).any (fun graph => (filter.desiredGraphs.getD []).contains graph))
  else block

def filterDuplicatesIfNecessary (block : Table Id) (blockMetadata : CompressedBlockMetadata Id) : Table Id :=
  if !blockMetadata.containsDuplicatesWithDifferentGraphs then block else unique (fun x y => decide (x = y)) block

def postprocessBlock (filter : FilterDuplicatesAndGraphs Id) (block : Table Id) (blockMetadata : CompressedBlockMetadata Id) : Table Id :=
  let block := filter.filterByGraphIfNecessary block blockMetadata
  let block := if filter.deleteGraphColumn then block.map (fun row => row.eraseIdx filter.graphColumn) else block
  filterDuplicatesIfNecessary block blockMetadata

end FilterDuplicatesAndGraphs

namespace CompressedRelationReader

def prepareColumnIndices (scanSpec : ScanSpecification Id) (additionalColumns : List Nat) : List Nat :=
  if scanSpec.col2Id.isSome then additionalColumns
  else if scanSpec.col1Id.isSome then [2] ++ additionalColumns
  else if scanSpec.col0Id.isSome then [1,2] ++ additionalColumns
  else [0,1,2] ++ additionalColumns

/-- The number of columns that are read without the graph and the payload, and whether the graph is read. -/
def prepareLocatedTriples (columns : List Nat) : Except ScanFailure (Nat × Bool) :=
  if !decide (columns.Pairwise (· ≤ ·)) then .error .columnsNotSorted
  else
    let numScanColumns := match columns.head? with
      | none => 0
      | some column => if column > 3 then 0 else 3 - column
    let it := columns.idxOf ADDITIONAL_COLUMN_GRAPH_ID
    let containsGraphId := it ≠ columns.length
    if containsGraphId && it ≠ numScanColumns then .error .graphColumnMisplaced else .ok (numScanColumns,containsGraphId)

def getScanConfig (scanSpec : ScanSpecification Id) (additionalColumns : List Nat) (locatedTriples : LocatedTriplesPerBlock Id) : ScanImplConfig Id :=
  let columnIndices := prepareColumnIndices scanSpec additionalColumns
  if scanSpec.graphsToFilter.isNone then ⟨columnIndices,⟨scanSpec.graphsToFilter,0,false⟩,locatedTriples⟩
  else
    let idx := columnIndices.idxOf ADDITIONAL_COLUMN_GRAPH_ID
    if idx = columnIndices.length then
      let idx := columnIndices.length - additionalColumns.length
      ⟨columnIndices.insertIdx idx ADDITIONAL_COLUMN_GRAPH_ID,⟨scanSpec.graphsToFilter,idx,true⟩,locatedTriples⟩
    else ⟨columnIndices,⟨scanSpec.graphsToFilter,idx,false⟩,locatedTriples⟩

section Read
variable [LinearOrder Id] [OrderBot Id]

abbrev File (Id : Type) := Nat → List (StoredRow Id)

variable (file : File Id)

/-- `readCompressedBlockFromFile` and `decompressBlock`. -/
def decompressBlock (columnIndices : List Nat) (blockMetadata : CompressedBlockMetadata Id) : Except ScanFailure (IdTable Id columnIndices.length) :=
  if columnIndices.any (fun column => blockMetadata.offsetsAndCompressedSize.length ≤ column) then .error .columnOutOfRange
  else if (file blockMetadata.blockIndex).length ≠ blockMetadata.numRows then .error .numRowsMismatch
  else .ok ((file blockMetadata.blockIndex).map (fun row i => row.columns.getD (columnIndices.get i) ⊥))

def mergeLocatedTriples {numColumns : Nat} (locatedTriples : LocatedTriplesPerBlock Id) (blockIndex : Nat) (block : IdTable Id numColumns)
    (numIndexColumns : Nat) (includeGraphColumn : Bool) : Except ScanFailure (IdTable Id numColumns) :=
  if locatedTriples.containsTriples blockIndex then
    match mergeTriples locatedTriples blockIndex block numIndexColumns includeGraphColumn with
    | .ok rows => .ok rows
    | .error failure => .error (.merge failure)
  else .ok block

def decompressAndPostprocessBlock (scanConfig : ScanImplConfig Id) (blockMetadata : CompressedBlockMetadata Id) : Except ScanFailure (Table Id) := do
  let decompressedBlock ← decompressBlock file scanConfig.scanColumns blockMetadata
  let (numIndexColumns,includeGraphColumn) ← prepareLocatedTriples scanConfig.scanColumns
  let decompressedBlock ← mergeLocatedTriples scanConfig.locatedTriples blockMetadata.blockIndex decompressedBlock numIndexColumns includeGraphColumn
  return scanConfig.graphFilter.postprocessBlock (decompressedBlock.map List.ofFn) blockMetadata

def readAndDecompressBlock (blockMetadata : CompressedBlockMetadata Id) (scanConfig : ScanImplConfig Id) : Except ScanFailure (Option (Table Id)) :=
  if scanConfig.graphFilter.canBlockBeSkipped blockMetadata then .ok none
  else do
    let block ← decompressAndPostprocessBlock file scanConfig blockMetadata
    return some block

/-- The `equal_range` of the ID in a column. -/
def filterColumn (relevantId : Option Id) (columnIdx : Nat) (block : Table Id) : Table Id :=
  match relevantId with
  | none => block
  | some id => (block.dropWhile (fun row => row.getD columnIdx ⊥ < id)).takeWhile (fun row => !decide (id < row.getD columnIdx ⊥))

def allAdditionalColumns (blockMetadata : CompressedBlockMetadata Id) : List Nat :=
  List.range' ADDITIONAL_COLUMN_GRAPH_ID (blockMetadata.offsetsAndCompressedSize.length - ADDITIONAL_COLUMN_GRAPH_ID)

/-- `readAndDecompressBlock` for the columns of `config`, of which the given ones are copied to the result. -/
def readAndNarrow (scanSpec : ScanSpecification Id) (config : ScanImplConfig Id) (blockMetadata : CompressedBlockMetadata Id) (columns : List Nat) :
    Except ScanFailure (Table Id) := do
  let block ← readAndDecompressBlock file blockMetadata config
  let block := filterColumn scanSpec.col0Id 0 (block.getD [])
  let block := filterColumn scanSpec.col1Id 1 block
  let block := filterColumn scanSpec.col2Id 2 block
  if columns.any (fun column => config.scanColumns.length ≤ column) then .error .columnOutOfRange
  else return block.map (fun row => columns.map (fun inputColIdx => row.getD inputColIdx ⊥))

def readPossiblyIncompleteBlock (scanSpec : ScanSpecification Id) (scanConfig : ScanImplConfig Id) (blockMetadata : CompressedBlockMetadata Id)
    (locatedTriples : LocatedTriplesPerBlock Id) : Except ScanFailure (Table Id) :=
  if blockMetadata.offsetsAndCompressedSize.length ≤ ADDITIONAL_COLUMN_GRAPH_ID then .error .noGraphColumn
  else readAndNarrow file scanSpec
    (getScanConfig (.allColumns scanConfig.graphFilter.desiredGraphs) (allAdditionalColumns blockMetadata) locatedTriples) blockMetadata
    (scanConfig.scanColumns.filter (fun idx => !scanConfig.graphFilter.deleteGraphColumn || idx ≠ ADDITIONAL_COLUMN_GRAPH_ID))

def asyncParallelBlockGenerator (blocks : List (CompressedBlockMetadata Id)) (scanConfig : ScanImplConfig Id) : Except ScanFailure (List (Table Id)) := do
  let tables ← blocks.mapM (fun block => readAndDecompressBlock file block scanConfig)
  return tables.filterMap id

def lazyScanTables (scanSpec : ScanSpecification Id) (relevantBlockMetadata : List (CompressedBlockMetadata Id)) (additionalColumns : List Nat)
    (locatedTriplesPerBlock : LocatedTriplesPerBlock Id) : Except ScanFailure (List (Table Id)) :=
  let config := getScanConfig scanSpec additionalColumns locatedTriplesPerBlock
  match relevantBlockMetadata with
  | [] => .ok []
  | [block] => do
    let first ← readPossiblyIncompleteBlock file scanSpec config block locatedTriplesPerBlock
    return [first]
  | block::next::blocks => do
    let first ← readPossiblyIncompleteBlock file scanSpec config block locatedTriplesPerBlock
    let inner ← asyncParallelBlockGenerator file (next::blocks).dropLast config
    let last ← readPossiblyIncompleteBlock file scanSpec config ((next::blocks).getLast (List.cons_ne_nil next blocks)) locatedTriplesPerBlock
    return first::inner ++ [last]

def lazyScan (scanSpec : ScanSpecification Id) (relevantBlockMetadata : List (CompressedBlockMetadata Id)) (additionalColumns : List Nat)
    (locatedTriplesPerBlock : LocatedTriplesPerBlock Id) : Except ScanFailure (List (Table Id)) := do
  let tables ← lazyScanTables file scanSpec relevantBlockMetadata additionalColumns locatedTriplesPerBlock
  return tables.filter (fun table => !table.isEmpty)

variable [OrderTop Id]

def getBlockMetadataView (scanSpecAndBlocks : ScanSpecAndBlocks Id) : List (CompressedBlockMetadata Id) := scanSpecAndBlocks.blockMetadata.flatten

def scan (scanSpecAndBlocks : ScanSpecAndBlocks Id) (additionalColumns : List Nat) (locatedTriplesPerBlock : LocatedTriplesPerBlock Id) :
    Except ScanFailure (Table Id) := do
  let tables ← lazyScan file scanSpecAndBlocks.scanSpec (getBlockMetadataView scanSpecAndBlocks) additionalColumns locatedTriplesPerBlock
  return tables.flatten

end Read
end CompressedRelationReader
end Qlever
