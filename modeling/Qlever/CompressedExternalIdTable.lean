import Qlever.Library.Chunks
import Qlever.Library.StdHeap

/-! `CompressedExternalIdTable.h`: rows are pushed, sorted in blocks that fit into the memory, written to a file and merged. The compression and
the file give back what was written. A task that was started with `std::async` is run when its future is asked for its result.
-/
namespace Qlever.CompressedExternalIdTable
open Library.Chunks Library.StdHeap List

abbrev Row (Id : Type) (n : Nat) := Fin n → Id

inductive Error
  | currentlyIterated
  | contractCheck
  | correctnessCheck
  | sizeOverflow
  | insufficientMemory
  deriving DecidableEq, Repr

def sizeofId : Nat := 8

section Writer
variable {Id : Type} {n : Nat}

structure CompressedExternalIdTableWriter (Id : Type) (n : Nat) where
  blockSizeUncompressed_ : Nat
  blocksPerColumn_ : Fin n → List (List Id) := fun _ => []
  startOfSingleIdTables_ : List Nat := []
  numActiveGenerators_ : Nat := 0

namespace CompressedExternalIdTableWriter
variable [NeZero n]

def writeIdTable (writer : CompressedExternalIdTableWriter Id n) (table : List (Row Id n)) : Except Error (CompressedExternalIdTableWriter Id n) :=
  let blockSize := writer.blockSizeUncompressed_ / sizeofId
  if writer.numActiveGenerators_ ≠ 0 then .error .currentlyIterated
  else if blockSize = 0 then .error .contractCheck
  else .ok { writer with
    startOfSingleIdTables_ := writer.startOfSingleIdTables_ ++ [(writer.blocksPerColumn_ 0).length]
    blocksPerColumn_ := fun i => writer.blocksPerColumn_ i ++ chunks blockSize (table.map (fun row => row i)) }

def clear (writer : CompressedExternalIdTableWriter Id n) : Except Error (CompressedExternalIdTableWriter Id n) :=
  if writer.numActiveGenerators_ > 0 then .error .currentlyIterated
  else .ok { writer with blocksPerColumn_ := fun _ => [],startOfSingleIdTables_ := [] }

variable [Inhabited Id]

def readBlock (writer : CompressedExternalIdTableWriter Id n) (blockIdx : Nat) : List (Row Id n) :=
  let blockSize := ((writer.blocksPerColumn_ 0).getD blockIdx []).length
  (range blockSize).map (fun row i => ((writer.blocksPerColumn_ i).getD blockIdx []).getD row default)

/-- The blocks of one table. There must be one, because the generator waits for the last block after the loop. -/
def makeGeneratorForIdTable (writer : CompressedExternalIdTableWriter Id n) (index : Nat) : Except Error (List (List (Row Id n))) :=
  let firstBlock := writer.startOfSingleIdTables_.getD index 0
  let lastBlock :=
    if index + 1 < writer.startOfSingleIdTables_.length then writer.startOfSingleIdTables_.getD (index + 1) 0 else (writer.blocksPerColumn_ 0).length
  if lastBlock ≤ firstBlock then .error .correctnessCheck
  else .ok ((range' firstBlock (lastBlock - firstBlock)).map writer.readBlock)

def makeGeneratorForRows (writer : CompressedExternalIdTableWriter Id n) (index : Nat) : Except Error (List (Row Id n)) := do
  let blocks ← writer.makeGeneratorForIdTable index
  .ok blocks.flatten

def getAllRowGenerators (writer : CompressedExternalIdTableWriter Id n) :
    Except Error (List (List (Row Id n)) × CompressedExternalIdTableWriter Id n) := do
  let generators ← (range writer.startOfSingleIdTables_.length).mapM writer.makeGeneratorForRows
  .ok (generators,{ writer with numActiveGenerators_ := writer.numActiveGenerators_ + generators.length })

def destroyGenerators (writer : CompressedExternalIdTableWriter Id n) (generators : List (List (Row Id n))) : CompressedExternalIdTableWriter Id n :=
  { writer with numActiveGenerators_ := writer.numActiveGenerators_ - generators.length }

end CompressedExternalIdTableWriter

end Writer

/-- What the sorter is made with. The sorting of a block need not be stable, and the operations of `MemorySize` use doubles. -/
structure Settings (Id : Type) (n : Nat) where
  comparator_ : Row Id n → Row Id n → Bool
  sort : List (Row Id n) → List (Row Id n)
  heap : HeapAlgorithms (compareRuns comparator_)
  memory_ : Nat
  blockSizeUncompressed_ : Nat
  ignoreMemoryLimitForTesting : Bool
  times : Nat → Nat → Option Nat
  divide : Nat → Nat → Nat

structure Settings.Lawful {Id : Type} {n : Nat} (settings : Settings Id n) : Prop where
  order : IsStrictWeakOrder (Row Id n) (fun a b => settings.comparator_ a b = true)
  sort_perm : ∀ rows,(settings.sort rows).Perm rows
  sort_sorted : ∀ rows,(settings.sort rows).Pairwise (fun first second => settings.comparator_ second first = false)

section Sorter
variable {Id : Type} {n : Nat}

structure CompressedExternalIdTableSorter (Id : Type) (n : Nat) where
  writer_ : CompressedExternalIdTableWriter Id n
  currentBlock_ : List (Row Id n) := []
  numElementsPushed_ : Nat := 0
  numBlocksPushed_ : Nat := 0
  compressAndWriteFuture_ : Option (List (Row Id n)) := none
  isFirstIteration_ : Bool := true
  moveResultOnMerge_ : Bool := true

variable (settings : Settings Id n)

def Settings.blocksize_ : Nat := settings.memory_ / (n * sizeofId * 2)

def computeBlockSizeForMergePhase (numBlocksToMerge : Nat) : Except Error Nat :=
  match settings.times (numBlocksToMerge * n) settings.blockSizeUncompressed_ with
  | none => .error .sizeOverflow
  | some requiredMemoryForInputBlocks =>
    if settings.ignoreMemoryLimitForTesting then .ok 5
    else if requiredMemoryForInputBlocks ≥ settings.memory_ then .error .insufficientMemory
    else
      let blockSizeOutputMemory := min (settings.divide (settings.memory_ - requiredMemoryForInputBlocks) 4) (10 ^ 9)
      let blockSizeForOutput := blockSizeOutputMemory / (sizeofId * n)
      if blockSizeForOutput ≤ 10000 then .error .insufficientMemory else .ok blockSizeForOutput

/-- The blocks of the merge and `numPopped`. `fuel` is the number of rows. -/
def mergeRuns (blockSizeOutput : Nat) : Nat → List (Row Id n × List (Row Id n)) → List (Row Id n) → Nat → List (List (Row Id n)) × Nat
  | 0,_,result,numPopped => if result.isEmpty then ([],numPopped) else ([result],numPopped + result.length)
  | fuel + 1,pq,result,numPopped =>
    match nextElement settings.heap pq with
    | none => if result.isEmpty then ([],numPopped) else ([result],numPopped + result.length)
    | some (row,pq) =>
      let result := result ++ [row]
      if result.length ≥ blockSizeOutput then
        let (blocks,numPopped) := mergeRuns blockSizeOutput fuel pq [] (numPopped + result.length)
        (result :: blocks,numPopped)
      else mergeRuns blockSizeOutput fuel pq result numPopped

def beginOfRun : List (Row Id n) → Except Error (Row Id n × List (Row Id n))
  | [] => .error .correctnessCheck
  | row :: rows => .ok (row,rows)

namespace CompressedExternalIdTableSorter
variable [NeZero n]

def new (moveResultOnMerge : Bool) : CompressedExternalIdTableSorter Id n where
  writer_ := { blockSizeUncompressed_ := settings.blockSizeUncompressed_ }
  moveResultOnMerge_ := moveResultOnMerge

variable (sorter : CompressedExternalIdTableSorter Id n)

/-- `compressAndWriteFuture_.get()` if there is a future. -/
def getFuture : Except Error (CompressedExternalIdTableSorter Id n) :=
  match sorter.compressAndWriteFuture_ with
  | none => .ok sorter
  | some block => do
    let writer ← sorter.writer_.writeIdTable (settings.sort block)
    .ok { sorter with writer_ := writer,compressAndWriteFuture_ := none }

/-- `pushBlock` of the base class, which leaves `currentBlock_` empty. -/
def pushCurrentBlock : Except Error (CompressedExternalIdTableSorter Id n) := do
  let block := sorter.currentBlock_
  let sorter ← sorter.getFuture settings
  if block.isEmpty then .ok sorter
  else .ok { sorter with currentBlock_ := [],numBlocksPushed_ := sorter.numBlocksPushed_ + 1,compressAndWriteFuture_ := some block }

def push (row : Row Id n) : Except Error (CompressedExternalIdTableSorter Id n) :=
  let sorter := { sorter with numElementsPushed_ := sorter.numElementsPushed_ + 1,currentBlock_ := sorter.currentBlock_ ++ [row] }
  if sorter.currentBlock_.length ≥ settings.blocksize_ then sorter.pushCurrentBlock settings else .ok sorter

def pushBlock (block : List (Row Id n)) : Except Error (CompressedExternalIdTableSorter Id n) :=
  block.foldlM (fun sorter row => sorter.push settings row) sorter

def clear : Except Error (CompressedExternalIdTableSorter Id n) := do
  let sorter ← { sorter with currentBlock_ := [],numElementsPushed_ := 0 }.getFuture settings
  let writer ← sorter.writer_.clear
  .ok { sorter with writer_ := writer,numBlocksPushed_ := 0,isFirstIteration_ := true }

def transformAndPushLastBlock : Except Error (Bool × CompressedExternalIdTableSorter Id n) := do
  if !sorter.isFirstIteration_ then .ok (sorter.numBlocksPushed_ ≠ 0,sorter)
  else if (sorter.numBlocksPushed_ == 0) = sorter.compressAndWriteFuture_.isSome then .error .correctnessCheck
  else if sorter.numBlocksPushed_ = 0 then
    if sorter.numElementsPushed_ ≠ sorter.currentBlock_.length then .error .correctnessCheck
    else .ok (false,{ sorter with currentBlock_ := settings.sort sorter.currentBlock_ })
  else
    let sorter ← sorter.pushCurrentBlock settings
    let sorter ← sorter.getFuture settings
    .ok (true,sorter)

/-- The result when nothing was written. A block that fits into one output block is moved or copied, a larger one is cut. -/
def singleBlock (blocksize : Option Nat) : List (List (Row Id n)) × CompressedExternalIdTableSorter Id n :=
  let block := sorter.currentBlock_
  let blocksizeOutput := blocksize.getD block.length
  if block.isEmpty then ([],sorter)
  else if block.length ≤ blocksizeOutput then ([block],if sorter.moveResultOnMerge_ then { sorter with currentBlock_ := [] } else sorter)
  else (chunks blocksizeOutput block,sorter)

variable [Inhabited Id]

/-- `value_or` computes the block size in any case. -/
def mergedBlocks (blocksize : Option Nat) : Except Error (List (List (Row Id n)) × CompressedExternalIdTableSorter Id n) := do
  let (rowGenerators,writer) ← sorter.writer_.getAllRowGenerators
  let computedBlockSize ← computeBlockSizeForMergePhase settings rowGenerators.length
  let runs ← rowGenerators.mapM beginOfRun
  let (blocks,numPopped) := mergeRuns settings (blocksize.getD computedBlockSize) (rowGenerators.flatten.length) (settings.heap.makeHeap runs) [] 0
  if numPopped ≠ sorter.numElementsPushed_ then .error .correctnessCheck
  else .ok (blocks,{ sorter with writer_ := writer.destroyGenerators rowGenerators })

def sortedBlocks (blocksize : Option Nat) : Except Error (List (List (Row Id n)) × CompressedExternalIdTableSorter Id n) := do
  let (written,sorter) ← sorter.transformAndPushLastBlock settings
  if written then sorter.mergedBlocks settings blocksize else .ok (sorter.singleBlock blocksize)

def getSortedBlocks (blocksize : Option Nat) : Except Error (List (List (Row Id n)) × CompressedExternalIdTableSorter Id n) := do
  if sorter.isFirstIteration_ = false ∧ sorter.moveResultOnMerge_ = true then .error .contractCheck
  else
    let (blocks,sorter) ← sorter.sortedBlocks settings blocksize
    .ok (blocks,{ sorter with isFirstIteration_ := false })

/-- The generator is destroyed when it has yielded `numConsumed` blocks. It does not start before it is asked for a block. -/
def abandonSortedBlocks (blocksize : Option Nat) (numConsumed : Nat) : Except Error (Option (CompressedExternalIdTableSorter Id n)) := do
  if numConsumed = 0 then .ok (some sorter)
  else if sorter.isFirstIteration_ = false ∧ sorter.moveResultOnMerge_ = true then .error .contractCheck
  else
    let (blocks,sorter) ← sorter.sortedBlocks settings blocksize
    .ok (if numConsumed ≤ blocks.length then some sorter else none)

end CompressedExternalIdTableSorter

end Sorter

section Stored
variable {Id : Type} {n : Nat} [NeZero n]

theorem mapM_eq_ok {α β : Type} {f : α → Except Error β} {g : α → β} {list : List α} (same : ∀ element ∈ list,f element = .ok (g element)) :
    list.mapM f = .ok (list.map g) := by
  induction list with
  | nil => rfl
  | cons element list ih =>
    rw [mapM_cons,same element mem_cons_self,ih (fun other isOther => same other (mem_cons_of_mem element isOther))]
    rfl

def rowBlocks (blockSize : Nat) (tables : List (List (Row Id n))) : List (List (Row Id n)) := tables.flatMap (chunks blockSize)

structure Stores (writer : CompressedExternalIdTableWriter Id n) (tables : List (List (Row Id n))) : Prop where
  notEmpty : ∀ table ∈ tables,table ≠ []
  positive : tables ≠ [] → 0 < writer.blockSizeUncompressed_ / sizeofId
  columns : ∀ i,writer.blocksPerColumn_ i = (rowBlocks (writer.blockSizeUncompressed_ / sizeofId) tables).map (List.map (fun row => row i))
  starts : writer.startOfSingleIdTables_ =
    (range tables.length).map (fun index => (rowBlocks (writer.blockSizeUncompressed_ / sizeofId) (tables.take index)).length)
  inactive : writer.numActiveGenerators_ = 0

omit [NeZero n] in
theorem stores_nil (blockSizeUncompressed : Nat) : Stores (⟨blockSizeUncompressed,fun _ => [],[],0⟩ : CompressedExternalIdTableWriter Id n) [] :=
  ⟨fun _ isTable => absurd isTable not_mem_nil,fun none => absurd rfl none,fun _ => rfl,rfl,rfl⟩

variable {writer : CompressedExternalIdTableWriter Id n} {tables : List (List (Row Id n))}

theorem writeIdTable_spec (stores : Stores writer tables)
    (positive : 0 < writer.blockSizeUncompressed_ / sizeofId) {table : List (Row Id n)} (notEmpty : table ≠ []) :
    ∃ writer',writer.writeIdTable table = .ok writer' ∧ Stores writer' (tables ++ [table]) ∧
      writer'.blockSizeUncompressed_ = writer.blockSizeUncompressed_ := by
  rw [CompressedExternalIdTableWriter.writeIdTable]
  simp only [if_neg (not_not.mpr stores.inactive),if_neg (Nat.pos_iff_ne_zero.mp positive)]
  refine ⟨_,rfl,⟨?_,fun _ => positive,?_,?_,stores.inactive⟩,rfl⟩
  · intro other isOther
    rcases mem_append.mp isOther with isOld | isNew
    · exact stores.notEmpty other isOld
    · rw [mem_singleton.mp isNew]
      exact notEmpty
  · intro i
    simp only
    rw [stores.columns i,chunks_map _ positive,rowBlocks,rowBlocks,flatMap_append,flatMap_singleton,map_append]
  · simp only
    rw [stores.starts,stores.columns 0,length_map,length_append,length_singleton,range_succ,map_append,map_singleton,
      take_left]
    congr 1
    apply map_congr_left
    intro index isIndex
    rw [take_append_of_le_length (mem_range.mp isIndex).le]

variable [Inhabited Id]

theorem readBlock_eq (stores : Stores writer tables) (blockIdx : Nat) :
    writer.readBlock blockIdx = (rowBlocks (writer.blockSizeUncompressed_ / sizeofId) tables).getD blockIdx [] := by
  have column : ∀ i,(writer.blocksPerColumn_ i).getD blockIdx [] =
      ((rowBlocks (writer.blockSizeUncompressed_ / sizeofId) tables).getD blockIdx []).map (fun row => row i) := by
    intro i
    rw [stores.columns i,getD_eq_getElem?_getD,getD_eq_getElem?_getD,getElem?_map]
    cases (rowBlocks (writer.blockSizeUncompressed_ / sizeofId) tables)[blockIdx]? <;> rfl
  rw [CompressedExternalIdTableWriter.readBlock]
  simp only [column,length_map]
  generalize (rowBlocks (writer.blockSizeUncompressed_ / sizeofId) tables).getD blockIdx [] = block
  apply ext_getElem
  · rw [length_map,length_range]
  · intro row inside inside'
    ext i
    rw [getElem_map,getElem_range,getD_eq_getElem?_getD,getElem?_map,getElem?_eq_getElem inside']
    rfl

omit [NeZero n] [Inhabited Id] in
theorem rowBlocks_split (blockSize : Nat) {index : Nat} (inside : index < tables.length) :
    rowBlocks blockSize tables = rowBlocks blockSize (tables.take index) ++ chunks blockSize tables[index] ++
      rowBlocks blockSize (tables.drop (index + 1)) := by
  calc
    rowBlocks blockSize tables
    _ = rowBlocks blockSize (tables.take index ++ tables[index] :: tables.drop (index + 1)) := by
      rw [← drop_eq_getElem_cons inside,take_append_drop]
    _ = _ := by rw [rowBlocks,rowBlocks,rowBlocks,flatMap_append,flatMap_cons,append_assoc]

theorem map_getD_range' {α : Type} (default : α) (front middle back : List α) :
    (range' front.length middle.length).map (fun index => (front ++ middle ++ back).getD index default) = middle := by
  apply ext_getElem
  · rw [length_map,length_range']
  · intro index inside inside'
    rw [getElem_map,getElem_range',Nat.one_mul,append_assoc,getD_append_right _ _ _ _ (Nat.le_add_right _ _),Nat.add_sub_cancel_left,
      getD_append _ _ _ _ inside',getD_eq_getElem _ _ inside']

section
variable {writer : CompressedExternalIdTableWriter Id n} {tables : List (List (Row Id n))} (stores : Stores writer tables)
include stores

theorem makeGeneratorForRows_eq {index : Nat} (inside : index < tables.length) : writer.makeGeneratorForRows index = .ok tables[index] := by
  have positive := stores.positive (ne_nil_of_length_pos (Nat.lt_of_le_of_lt (Nat.zero_le index) inside))
  have split := rowBlocks_split (writer.blockSizeUncompressed_ / sizeofId) inside
  have start : ∀ position,position < tables.length → writer.startOfSingleIdTables_.getD position 0 =
      (rowBlocks (writer.blockSizeUncompressed_ / sizeofId) (tables.take position)).length := by
    intro position isInside
    rw [stores.starts,getD_eq_getElem _ _ (by simpa using isInside),getElem_map,getElem_range]
  have numTables : writer.startOfSingleIdTables_.length = tables.length := by rw [stores.starts,length_map,length_range]
  have next : rowBlocks (writer.blockSizeUncompressed_ / sizeofId) (tables.take (index + 1)) =
      rowBlocks (writer.blockSizeUncompressed_ / sizeofId) (tables.take index) ++ chunks (writer.blockSizeUncompressed_ / sizeofId) tables[index] := by
    rw [take_succ_eq_append_getElem inside,rowBlocks,rowBlocks,flatMap_append,flatMap_singleton]
  have last : (if index + 1 < writer.startOfSingleIdTables_.length then writer.startOfSingleIdTables_.getD (index + 1) 0
      else (writer.blocksPerColumn_ 0).length) =
      (rowBlocks (writer.blockSizeUncompressed_ / sizeofId) (tables.take index)).length +
        (chunks (writer.blockSizeUncompressed_ / sizeofId) tables[index]).length := by
    rw [numTables]
    split_ifs with more
    · rw [start (index + 1) more,next,length_append]
    · rw [← length_append,← next,take_of_length_le (by omega),stores.columns 0,length_map]
  have blocks : 0 < (chunks (writer.blockSizeUncompressed_ / sizeofId) tables[index]).length :=
    length_pos_iff.mpr (fun none => stores.notEmpty _ (getElem_mem inside) (chunks_eq_nil positive none))
  rw [CompressedExternalIdTableWriter.makeGeneratorForRows,CompressedExternalIdTableWriter.makeGeneratorForIdTable]
  simp only [start index inside,last]
  rw [if_neg (by omega),Nat.add_sub_cancel_left]
  have read : writer.readBlock = fun blockIdx => (rowBlocks (writer.blockSizeUncompressed_ / sizeofId) tables).getD blockIdx [] :=
    funext (readBlock_eq stores)
  rw [read,split,map_getD_range']
  exact congrArg Except.ok (flatten_chunks positive tables[index])

theorem getAllRowGenerators_eq :
    writer.getAllRowGenerators = .ok (tables,{ writer with numActiveGenerators_ := writer.numActiveGenerators_ + tables.length }) := by
  have numTables : writer.startOfSingleIdTables_.length = tables.length := by rw [stores.starts,length_map,length_range]
  have each : ∀ index ∈ range tables.length,writer.makeGeneratorForRows index = .ok (tables.getD index []) := by
    intro index isIndex
    have inside := mem_range.mp isIndex
    rw [makeGeneratorForRows_eq stores inside,getD_eq_getElem _ _ inside]
  have all : (range tables.length).map (fun index => tables.getD index []) = tables := by
    apply ext_getElem
    · rw [length_map,length_range]
    · intro index inside inside'
      rw [getElem_map,getElem_range,getD_eq_getElem _ _ inside']
  rw [CompressedExternalIdTableWriter.getAllRowGenerators,numTables,mapM_eq_ok each,all]
  rfl

end

end Stored

section Merge
variable {Id : Type} {n : Nat} (settings : Settings Id n)

theorem lastBlock_eq {blockSizeOutput : Nat} {result : List (Row Id n)} (notFull : result.length < blockSizeOutput) (numPopped : Nat) :
    (if result.isEmpty then ([],numPopped) else ([result],numPopped + result.length)) = (chunks blockSizeOutput result,numPopped + result.length) := by
  split
  case isTrue empty => rw [List.isEmpty_iff.mp empty,chunks_nil,length_nil,Nat.add_zero]
  case isFalse notEmpty => rw [chunks_of_length_le notFull.le (fun empty => notEmpty (List.isEmpty_iff.mpr empty))]

theorem mergeRuns_eq {blockSizeOutput : Nat} (positive : 0 < blockSizeOutput) (fuel : Nat) (pq : List (Row Id n × List (Row Id n)))
    (result : List (Row Id n)) (numPopped : Nat) (notFull : result.length < blockSizeOutput) :
    mergeRuns settings blockSizeOutput fuel pq result numPopped =
      (chunks blockSizeOutput (result ++ mergedElements settings.heap fuel pq),numPopped + (result ++ mergedElements settings.heap fuel pq).length) := by
  induction fuel generalizing pq result numPopped with
  | zero => rw [mergeRuns,mergedElements,append_nil,lastBlock_eq notFull]
  | succ fuel ih =>
    rw [mergeRuns,mergedElements]
    cases nextElement settings.heap pq with
    | none =>
      simp only [append_nil]
      exact lastBlock_eq notFull numPopped
    | some next =>
      obtain ⟨row,pq'⟩ := next
      have regroup : result ++ row :: mergedElements settings.heap fuel pq' = (result ++ [row]) ++ mergedElements settings.heap fuel pq' := by
        rw [append_assoc,singleton_append]
      have length : (result ++ [row]).length = result.length + 1 := by rw [length_append,length_singleton]
      simp only
      rw [regroup]
      split
      case isTrue full =>
        have isFull : (result ++ [row]).length = blockSizeOutput := by omega
        rw [ih pq' [] _ positive,chunks_append positive isFull,nil_append]
        simp only [length_append,Nat.add_assoc]
      case isFalse notFull' => exact ih pq' _ _ (by omega)

variable [Inhabited Id]

def startOfRun (run : List (Row Id n)) : Row Id n × List (Row Id n) := (run.headD default,run.tail)

theorem beginOfRun_eq {run : List (Row Id n)} (notEmpty : run ≠ []) : beginOfRun run = .ok (startOfRun run) := by
  cases run with
  | nil => exact absurd rfl notEmpty
  | cons row rows => rfl

variable {runs : List (List (Row Id n))}

theorem elementsOf_map_startOfRun (notEmpty : ∀ run ∈ runs,run ≠ []) : elementsOf (runs.map startOfRun) = runs.flatten := by
  rw [elementsOf,flatMap_map,flatten_eq_flatMap]
  apply flatMap_congr
  intro run isRun
  cases run with
  | nil => exact absurd rfl (notEmpty [] isRun)
  | cons row rows => rfl

def mergedRows (runs : List (List (Row Id n))) : List (Row Id n) :=
  mergedElements settings.heap runs.flatten.length (settings.heap.makeHeap (runs.map startOfRun))

variable {settings}

theorem mergedRows_spec (lawful : settings.Lawful) (notEmpty : ∀ run ∈ runs,run ≠ [])
    (sorted : ∀ run ∈ runs,run.Pairwise (fun first second => settings.comparator_ second first = false)) :
    (mergedRows settings runs).Perm runs.flatten ∧ (mergedRows settings runs).Pairwise (fun first second => settings.comparator_ second first = false) := by
  have made := settings.heap.makeHeap_perm (runs.map startOfRun)
  have elements : (elementsOf (settings.heap.makeHeap (runs.map startOfRun))).Perm runs.flatten := by
    rw [← elementsOf_map_startOfRun notEmpty]
    exact elementsOf_perm made
  have sortedRuns : RunsSorted settings.comparator_ (settings.heap.makeHeap (runs.map startOfRun)) := by
    intro start isStart
    obtain ⟨run,isRun,rfl⟩ := List.mem_map.mp (made.mem_iff.mp isStart)
    cases run with
    | nil => exact absurd rfl (notEmpty [] isRun)
    | cons row rows => exact sorted _ isRun
  obtain ⟨perm,sorted⟩ := mergedElements_spec settings.heap lawful.order runs.flatten.length _ elements.length_eq.le
    (settings.heap.isHeap_makeHeap _) sortedRuns
  exact ⟨perm.trans elements,sorted⟩

omit [Inhabited Id] in
theorem computeBlockSizeForMergePhase_pos {numBlocksToMerge size : Nat} (computed : computeBlockSizeForMergePhase settings numBlocksToMerge = .ok size) :
    0 < size := by
  simp only [computeBlockSizeForMergePhase] at computed
  split at computed
  · cases computed
  · split_ifs at computed with _ _ tooSmall
    · cases computed
      decide
    · cases computed
      exact Nat.lt_trans (by decide) (not_le.mp tooSmall)

end Merge

section Pushed
variable {Id : Type} {n : Nat} [NeZero n] (settings : Settings Id n)

/-- A block is written when it has as many rows, also if `blocksize_` is zero. -/
def Settings.rowsPerBlock : Nat := max 1 settings.blocksize_

structure Pushing (sorter : CompressedExternalIdTableSorter Id n) (rows : List (Row Id n)) (blocks : List (List (Row Id n))) : Prop where
  parts : rows = blocks.flatten ++ sorter.currentBlock_
  full : ∀ block ∈ blocks,block.length = settings.rowsPerBlock
  notFull : sorter.currentBlock_.length < settings.rowsPerBlock
  numElements : sorter.numElementsPushed_ = rows.length
  numBlocks : sorter.numBlocksPushed_ = blocks.length
  future : sorter.compressAndWriteFuture_ = blocks.getLast?
  first : sorter.isFirstIteration_ = true
  stores : Stores sorter.writer_ (blocks.dropLast.map settings.sort)
  blockSize : sorter.writer_.blockSizeUncompressed_ = settings.blockSizeUncompressed_

variable {settings} {sorter : CompressedExternalIdTableSorter Id n}

omit [NeZero n] in
theorem rowsPerBlock_pos : 0 < settings.rowsPerBlock := Nat.lt_of_lt_of_le Nat.zero_lt_one (Nat.le_max_left _ _)

omit [NeZero n] in
theorem sort_ne_nil (lawful : settings.Lawful) {rows : List (Row Id n)} (notEmpty : rows ≠ []) : settings.sort rows ≠ [] := by
  intro none
  have perm := lawful.sort_perm rows
  rw [none] at perm
  exact notEmpty perm.symm.eq_nil

variable {blocks : List (List (Row Id n))}

omit [NeZero n] in
theorem Pushing.ne_nil {rows : List (Row Id n)} (pushing : Pushing settings sorter rows blocks) : ∀ block ∈ blocks,block ≠ [] := by
  intro block isBlock
  rw [← length_pos_iff,pushing.full block isBlock]
  exact rowsPerBlock_pos

section
variable (lawful : settings.Lawful) (positive : 0 < settings.blockSizeUncompressed_ / sizeofId)
include lawful positive

section
variable {blocks : List (List (Row Id n))} (notEmpty : ∀ block ∈ blocks,block ≠ []) (future : sorter.compressAndWriteFuture_ = blocks.getLast?)
  (stores : Stores sorter.writer_ (blocks.dropLast.map settings.sort)) (blockSize : sorter.writer_.blockSizeUncompressed_ = settings.blockSizeUncompressed_)
include notEmpty future stores blockSize

theorem getFuture_spec :
    ∃ writer,sorter.getFuture settings = .ok { sorter with writer_ := writer,compressAndWriteFuture_ := none } ∧
      Stores writer (blocks.map settings.sort) ∧ writer.blockSizeUncompressed_ = settings.blockSizeUncompressed_ := by
  rcases List.eq_nil_or_concat blocks with rfl | ⟨others,block,rfl⟩
  · refine ⟨sorter.writer_,?_,stores,blockSize⟩
    rw [getLast?_nil] at future
    rw [CompressedExternalIdTableSorter.getFuture,future]
    simp only
    rw [← future]
  · rw [concat_eq_append] at *
    rw [getLast?_concat] at future
    rw [List.dropLast_concat] at stores
    have isBlock := notEmpty block (mem_append_right others mem_cons_self)
    obtain ⟨writer,written,stores',blockSize'⟩ := writeIdTable_spec stores (blockSize ▸ positive) (sort_ne_nil lawful isBlock)
    refine ⟨writer,?_,?_,blockSize'.trans blockSize⟩
    · rw [CompressedExternalIdTableSorter.getFuture,future]
      simp only [written]
      rfl
    · rw [map_append,map_singleton]
      exact stores'

theorem pushCurrentBlock_spec (isRest : sorter.currentBlock_ ≠ []) :
    ∃ writer,sorter.pushCurrentBlock settings = .ok { sorter with
        writer_ := writer
        currentBlock_ := []
        numBlocksPushed_ := sorter.numBlocksPushed_ + 1
        compressAndWriteFuture_ := some sorter.currentBlock_ } ∧
      Stores writer (blocks.map settings.sort) ∧ writer.blockSizeUncompressed_ = settings.blockSizeUncompressed_ := by
  obtain ⟨writer,gotten,stores',blockSize'⟩ := getFuture_spec lawful positive notEmpty future stores blockSize
  refine ⟨writer,?_,stores',blockSize'⟩
  rw [CompressedExternalIdTableSorter.pushCurrentBlock,gotten]
  exact if_neg (fun empty => isRest (List.isEmpty_iff.mp empty))

end

theorem Pushing.push {rows : List (Row Id n)}
    (pushing : Pushing settings sorter rows blocks) (row : Row Id n) :
    ∃ sorter' blocks',sorter.push settings row = .ok sorter' ∧ Pushing settings sorter' (rows ++ [row]) blocks' ∧
      sorter'.moveResultOnMerge_ = sorter.moveResultOnMerge_ := by
  have length : (sorter.currentBlock_ ++ [row]).length = sorter.currentBlock_.length + 1 := by rw [length_append,length_singleton]
  have parts : rows ++ [row] = blocks.flatten ++ (sorter.currentBlock_ ++ [row]) := by rw [pushing.parts,append_assoc]
  have numElements : sorter.numElementsPushed_ + 1 = (rows ++ [row]).length := by
    rw [pushing.numElements,length_append,length_singleton]
  have notFull := pushing.notFull
  rw [CompressedExternalIdTableSorter.push]
  by_cases full : sorter.currentBlock_.length + 1 ≥ settings.blocksize_
  · generalize isAdded : { sorter with
      numElementsPushed_ := sorter.numElementsPushed_ + 1,currentBlock_ := sorter.currentBlock_ ++ [row] } = added
    have future : added.compressAndWriteFuture_ = blocks.getLast? := isAdded ▸ pushing.future
    have stores : Stores added.writer_ (blocks.dropLast.map settings.sort) := isAdded ▸ pushing.stores
    have blockSize : added.writer_.blockSizeUncompressed_ = settings.blockSizeUncompressed_ := isAdded ▸ pushing.blockSize
    have isRest : added.currentBlock_ = sorter.currentBlock_ ++ [row] := isAdded ▸ rfl
    obtain ⟨writer,pushed,stores',blockSize'⟩ := pushCurrentBlock_spec lawful positive pushing.ne_nil future stores blockSize
      (isRest ▸ concat_ne_nil row sorter.currentBlock_)
    simp only [isRest,length,if_pos full,pushed]
    refine ⟨_,blocks ++ [sorter.currentBlock_ ++ [row]],rfl,?_,isAdded ▸ rfl⟩
    refine ⟨?_,?_,rowsPerBlock_pos,isAdded ▸ numElements,?_,?_,isAdded ▸ pushing.first,?_,blockSize'⟩
    · rw [parts,flatten_append,flatten_singleton,append_nil]
    · intro block isBlock
      rcases mem_append.mp isBlock with isOld | isNew
      · exact pushing.full block isOld
      · rw [mem_singleton.mp isNew,length]
        rw [Settings.rowsPerBlock] at notFull ⊢
        omega
    · rw [length_append,length_singleton,← pushing.numBlocks,← isAdded]
    · rw [getLast?_concat]
    · rw [List.dropLast_concat]
      exact stores'
  · have notFull' : (sorter.currentBlock_ ++ [row]).length < settings.rowsPerBlock := by
      rw [length,Settings.rowsPerBlock]
      omega
    simp only [length,if_neg full]
    exact ⟨_,blocks,rfl,⟨parts,pushing.full,notFull',numElements,pushing.numBlocks,pushing.future,pushing.first,pushing.stores,pushing.blockSize⟩,rfl⟩

end

inductive Request (Id : Type) (n : Nat)
  | push (row : Row Id n)
  | pushBlock (block : List (Row Id n))

def Request.rows : Request Id n → List (Row Id n)
  | .push row => [row]
  | .pushBlock block => block

variable (settings)

def Request.perform (sorter : CompressedExternalIdTableSorter Id n) : Request Id n → Except Error (CompressedExternalIdTableSorter Id n)
  | .push row => sorter.push settings row
  | .pushBlock block => sorter.pushBlock settings block

def pushAll (sorter : CompressedExternalIdTableSorter Id n) (requests : List (Request Id n)) : Except Error (CompressedExternalIdTableSorter Id n) :=
  requests.foldlM (Request.perform settings) sorter

def Pushes (step : CompressedExternalIdTableSorter Id n → Except Error (CompressedExternalIdTableSorter Id n)) (pushed : List (Row Id n)) : Prop :=
  ∀ sorter rows blocks,Pushing settings sorter rows blocks →
    ∃ sorter' blocks',step sorter = .ok sorter' ∧ Pushing settings sorter' (rows ++ pushed) blocks' ∧
      sorter'.moveResultOnMerge_ = sorter.moveResultOnMerge_

variable {settings}

omit [NeZero n] in
theorem Pushes.foldlM {α : Type} {step : CompressedExternalIdTableSorter Id n → α → Except Error (CompressedExternalIdTableSorter Id n)}
    {rowsOf : α → List (Row Id n)} (pushes : ∀ item,Pushes settings (fun sorter => step sorter item) (rowsOf item)) (items : List α) :
    Pushes settings (fun sorter => items.foldlM step sorter) (items.flatMap rowsOf) := by
  induction items with
  | nil => exact fun sorter rows blocks pushing => ⟨sorter,blocks,rfl,(append_nil rows).symm ▸ pushing,rfl⟩
  | cons item items ih =>
    intro sorter rows blocks pushing
    obtain ⟨sorter',blocks',pushed,pushing',sameMode⟩ := pushes item sorter rows blocks pushing
    obtain ⟨last,lastBlocks,rest,pushingLast,sameMode'⟩ := ih _ _ _ pushing'
    refine ⟨last,lastBlocks,?_,?_,sameMode'.trans sameMode⟩
    · simp only [foldlM_cons,pushed]
      exact rest
    · rw [append_assoc,← flatMap_cons] at pushingLast
      exact pushingLast

theorem pushes_pushAll (lawful : settings.Lawful) (positive : 0 < settings.blockSizeUncompressed_ / sizeofId) (requests : List (Request Id n)) :
    Pushes settings (fun sorter => pushAll settings sorter requests) (requests.flatMap Request.rows) := by
  apply Pushes.foldlM
  intro request
  cases request with
  | push row => exact fun _ _ _ pushing => pushing.push lawful positive row
  | pushBlock block =>
    have rows : block.flatMap (fun row => [row]) = block := flatMap_singleton' block
    have pushes : Pushes settings (fun sorter => sorter.pushBlock settings block) (block.flatMap (fun row => [row])) :=
      Pushes.foldlM (fun row _ _ _ pushing => pushing.push lawful positive row) block
    rw [rows] at pushes
    exact pushes

variable (settings) in
omit [NeZero n] in
theorem pushing_new (moveResultOnMerge : Bool) : Pushing settings (.new settings moveResultOnMerge) [] [] :=
  ⟨rfl,fun _ isBlock => absurd isBlock not_mem_nil,rowsPerBlock_pos,rfl,rfl,rfl,rfl,stores_nil _,rfl⟩

variable {rows : List (Row Id n)}

def withCurrentBlock (blocks : List (List (Row Id n))) (currentBlock : List (Row Id n)) : List (List (Row Id n)) :=
  if currentBlock = [] then blocks else blocks ++ [currentBlock]

omit [NeZero n] in
theorem Pushing.chunks_eq (pushing : Pushing settings sorter rows blocks) : chunks settings.rowsPerBlock rows = withCurrentBlock blocks sorter.currentBlock_ := by
  have rest : chunks settings.rowsPerBlock sorter.currentBlock_ = withCurrentBlock [] sorter.currentBlock_ := by
    rw [withCurrentBlock]
    split_ifs with empty
    · rw [empty,chunks_nil]
    · exact chunks_of_length_le pushing.notFull.le empty
  have full := pushing.full
  rw [pushing.parts]
  clear pushing
  induction blocks with
  | nil => exact rest
  | cons block blocks ih =>
    rw [flatten_cons,append_assoc,chunks_append rowsPerBlock_pos (full block mem_cons_self),
      ih (fun other isOther => full other (mem_cons_of_mem block isOther)),withCurrentBlock,withCurrentBlock]
    split_ifs <;> rfl

omit [NeZero n] in
theorem Pushing.eq_nil_iff (pushing : Pushing settings sorter rows blocks) : blocks = [] ↔ rows.length < settings.rowsPerBlock := by
  rw [pushing.parts,length_append]
  cases blocks with
  | nil => simpa using pushing.notFull
  | cons block blocks =>
    have full := pushing.full block mem_cons_self
    rw [flatten_cons,length_append]
    simp only [cons_ne_nil,false_iff,not_lt]
    omega

theorem Pushing.flush (lawful : settings.Lawful) (positive : 0 < settings.blockSizeUncompressed_ / sizeofId)
    (pushing : Pushing settings sorter rows blocks) (notEmpty : blocks ≠ []) :
    ∃ writer,sorter.transformAndPushLastBlock settings = .ok (true,{ sorter with
        writer_ := writer
        currentBlock_ := []
        numBlocksPushed_ := (chunks settings.rowsPerBlock rows).length
        compressAndWriteFuture_ := none }) ∧
      Stores writer ((chunks settings.rowsPerBlock rows).map settings.sort) ∧ writer.blockSizeUncompressed_ = settings.blockSizeUncompressed_ := by
  have someBlocks : sorter.numBlocksPushed_ ≠ 0 := by
    rw [pushing.numBlocks]
    exact fun none => notEmpty (length_eq_zero_iff.mp none)
  have pending : sorter.compressAndWriteFuture_.isSome = true := by
    rw [pushing.future,getLast?_isSome]
    exact notEmpty
  have start : sorter.transformAndPushLastBlock settings = (do
      let sorter ← sorter.pushCurrentBlock settings
      let sorter ← sorter.getFuture settings
      .ok (true,sorter)) := by
    rw [CompressedExternalIdTableSorter.transformAndPushLastBlock,pushing.first,pending]
    simp [someBlocks]
  rw [start,pushing.chunks_eq,withCurrentBlock]
  split_ifs with empty
  · obtain ⟨writer,gotten,stores,blockSize⟩ := getFuture_spec lawful positive pushing.ne_nil pushing.future pushing.stores pushing.blockSize
    refine ⟨writer,?_,stores,blockSize⟩
    rw [CompressedExternalIdTableSorter.pushCurrentBlock,gotten,← pushing.numBlocks]
    simp only [bind,Except.bind,empty,isEmpty_nil,if_true,CompressedExternalIdTableSorter.getFuture]
  · obtain ⟨writer,pushed,stores,blockSize⟩ := pushCurrentBlock_spec lawful positive pushing.ne_nil pushing.future pushing.stores pushing.blockSize empty
    have allFull : ∀ block ∈ blocks ++ [sorter.currentBlock_],block ≠ [] := by
      intro block isBlock
      rcases mem_append.mp isBlock with isOld | isLast
      · exact pushing.ne_nil block isOld
      · rw [mem_singleton.mp isLast]
        exact empty
    rw [← @List.dropLast_concat _ blocks sorter.currentBlock_] at stores
    obtain ⟨writer',gotten,stores',blockSize'⟩ := @getFuture_spec Id n _ settings { sorter with
        writer_ := writer
        currentBlock_ := []
        numBlocksPushed_ := sorter.numBlocksPushed_ + 1
        compressAndWriteFuture_ := some sorter.currentBlock_ } lawful positive (blocks ++ [sorter.currentBlock_]) allFull getLast?_concat.symm stores blockSize
    refine ⟨writer',?_,stores',blockSize'⟩
    rw [pushed,length_append,length_singleton,← pushing.numBlocks]
    simp only [bind,Except.bind,gotten]

end Pushed

section Output
variable {Id : Type} {n : Nat} [NeZero n] {settings : Settings Id n} {sorter : CompressedExternalIdTableSorter Id n} {rows : List (Row Id n)}

structure Idle (settings : Settings Id n) (sorter : CompressedExternalIdTableSorter Id n) : Prop where
  future : sorter.compressAndWriteFuture_ = none
  inactive : sorter.writer_.numActiveGenerators_ = 0
  blockSize : sorter.writer_.blockSizeUncompressed_ = settings.blockSizeUncompressed_

theorem clear_eq (writer : CompressedExternalIdTableWriter Id n)
    (gotten : { sorter with currentBlock_ := [],numElementsPushed_ := 0 }.getFuture settings =
      .ok { sorter with currentBlock_ := [],numElementsPushed_ := 0,writer_ := writer,compressAndWriteFuture_ := none })
    (inactive : writer.numActiveGenerators_ = 0) (blockSize : writer.blockSizeUncompressed_ = settings.blockSizeUncompressed_) :
    sorter.clear settings = .ok (.new settings sorter.moveResultOnMerge_) := by
  rw [CompressedExternalIdTableSorter.clear,gotten]
  simp only [bind,Except.bind,CompressedExternalIdTableWriter.clear,inactive,gt_iff_lt,Nat.lt_irrefl,if_false,blockSize]
  rfl

theorem Idle.clear (idle : Idle settings sorter) :
    sorter.clear settings = .ok (.new settings sorter.moveResultOnMerge_) := by
  refine clear_eq sorter.writer_ ?_ idle.inactive idle.blockSize
  rw [CompressedExternalIdTableSorter.getFuture]
  simp only [idle.future]

variable {blocks : List (List (Row Id n))}

theorem Pushing.clear (lawful : settings.Lawful) (positive : 0 < settings.blockSizeUncompressed_ / sizeofId)
    (pushing : Pushing settings sorter rows blocks) : sorter.clear settings = .ok (.new settings sorter.moveResultOnMerge_) := by
  obtain ⟨writer,gotten,stores,blockSize⟩ := @getFuture_spec Id n _ settings { sorter with currentBlock_ := [],numElementsPushed_ := 0 }
    lawful positive blocks pushing.ne_nil pushing.future pushing.stores pushing.blockSize
  exact clear_eq writer gotten stores.inactive blockSize

structure IsOutput (blocksize : Option Nat) (result : List (Row Id n)) (blocks : List (List (Row Id n))) : Prop where
  flatten : blocks.flatten = result
  size : ∀ size,blocksize = some size → ∀ block ∈ blocks.dropLast,block.length = size

omit [NeZero n] in
theorem isOutput_chunks (blocksize : Option Nat) {size : Nat} (positive : 0 < size) (same : ∀ requested,blocksize = some requested → size = requested)
    (result : List (Row Id n)) : IsOutput blocksize result (chunks size result) :=
  ⟨flatten_chunks positive result,fun requested isRequested block isBlock =>
    (length_of_mem_dropLast positive result block isBlock).trans (same requested isRequested)⟩

variable {blocksize : Option Nat}

omit [NeZero n] in
theorem singleBlock_spec (sorter : CompressedExternalIdTableSorter Id n)
    (positive : ∀ size,blocksize = some size → 0 < size) :
    IsOutput blocksize sorter.currentBlock_ (sorter.singleBlock blocksize).1 ∧
      ∃ rest,(sorter.singleBlock blocksize).2 = { sorter with currentBlock_ := rest } ∧
        (sorter.moveResultOnMerge_ = false → rest = sorter.currentBlock_) := by
  rw [CompressedExternalIdTableSorter.singleBlock]
  split_ifs with empty fits moves
  · rw [List.isEmpty_iff.mp empty]
    exact ⟨⟨rfl,fun _ _ _ isBlock => absurd isBlock not_mem_nil⟩,[],by rw [← List.isEmpty_iff.mp empty],fun _ => rfl⟩
  · exact ⟨⟨flatten_singleton,fun _ _ _ isBlock => absurd isBlock not_mem_nil⟩,[],rfl,fun noMove => absurd (moves.symm.trans noMove) (by decide)⟩
  · exact ⟨⟨flatten_singleton,fun _ _ _ isBlock => absurd isBlock not_mem_nil⟩,_,rfl,fun _ => rfl⟩
  · cases blocksize with
    | none => exact absurd (le_refl _) fits
    | some size => exact ⟨isOutput_chunks (some size) (positive size rfl) (fun _ isRequested => Option.some.inj isRequested) _,_,rfl,fun _ => rfl⟩

variable [Inhabited Id]

section
variable {blocksize : Option Nat}

theorem mergedBlocks_eq {runs : List (List (Row Id n))} (stores : Stores sorter.writer_ runs)
    (elements : sorter.numElementsPushed_ = (mergedRows settings runs).length) {computed : Nat}
    (isComputed : computeBlockSizeForMergePhase settings runs.length = .ok computed)
    (positive : ∀ size,blocksize = some size → 0 < size) :
    ∃ blocks,sorter.mergedBlocks settings blocksize = .ok (blocks,sorter) ∧ IsOutput blocksize (mergedRows settings runs) blocks := by
  have positive' : 0 < blocksize.getD computed := by
    cases blocksize with
    | none => exact computeBlockSizeForMergePhase_pos isComputed
    | some size => exact positive size rfl
  have begins : runs.mapM beginOfRun = .ok (runs.map startOfRun) := mapM_eq_ok (fun run isRun => beginOfRun_eq (stores.notEmpty run isRun))
  refine ⟨chunks (blocksize.getD computed) (mergedRows settings runs),?_,isOutput_chunks blocksize positive' ?_ _⟩
  · rw [CompressedExternalIdTableSorter.mergedBlocks,getAllRowGenerators_eq stores]
    simp only [bind,Except.bind,isComputed,begins]
    rw [mergeRuns_eq settings positive' _ _ [] 0 positive',nil_append,← mergedRows,Nat.zero_add]
    simp only [← elements,ne_eq,not_true_eq_false,if_false,CompressedExternalIdTableWriter.destroyGenerators,Nat.add_sub_cancel_right]
  · intro requested isRequested
    rw [isRequested,Option.getD_some]

theorem getSortedBlocks_of_sortedBlocks {sorter' : CompressedExternalIdTableSorter Id n} {blocks : List (List (Row Id n))}
    (allowed : sorter.isFirstIteration_ = true ∨ sorter.moveResultOnMerge_ = false)
    (sortedBlocks : sorter.sortedBlocks settings blocksize = .ok (blocks,sorter')) :
    sorter.getSortedBlocks settings blocksize = .ok (blocks,{ sorter' with isFirstIteration_ := false }) := by
  rw [CompressedExternalIdTableSorter.getSortedBlocks,sortedBlocks]
  refine if_neg ?_
  rintro ⟨notFirst,moves⟩
  rcases allowed with first | noMove
  · exact absurd (first.symm.trans notFirst) (by decide)
  · exact absurd (noMove.symm.trans moves) (by decide)

def Extracts (settings : Settings Id n) (sorter : CompressedExternalIdTableSorter Id n) (result : List (Row Id n))
    (isLast : CompressedExternalIdTableSorter Id n → Prop) : Prop :=
  ∀ blocksize,(∀ size,blocksize = some size → 0 < size) → ∃ blocks last,sorter.getSortedBlocks settings blocksize = .ok (blocks,last) ∧
    IsOutput blocksize result blocks ∧ Idle settings last ∧ last.moveResultOnMerge_ = sorter.moveResultOnMerge_ ∧ isLast last

def Again (settings : Settings Id n) (result : List (Row Id n)) (sorter : CompressedExternalIdTableSorter Id n) : Prop :=
  sorter.moveResultOnMerge_ = false → Extracts settings sorter result (fun last => last = sorter)

theorem again_inMemory (idle : Idle settings sorter) (notFirst : sorter.isFirstIteration_ = false)
    (none : sorter.numBlocksPushed_ = 0) : Again settings sorter.currentBlock_ sorter := by
  intro noMove blocksize positive
  obtain ⟨output,rest,isRest,same⟩ := singleBlock_spec sorter positive
  rw [same noMove] at isRest
  refine ⟨_,sorter,?_,output,idle,rfl,rfl⟩
  have sortedBlocks : sorter.sortedBlocks settings blocksize = .ok ((sorter.singleBlock blocksize).1,sorter) := by
    rw [CompressedExternalIdTableSorter.sortedBlocks,CompressedExternalIdTableSorter.transformAndPushLastBlock]
    simp only [notFirst,none]
    exact congrArg Except.ok (Prod.ext rfl isRest)
  rw [getSortedBlocks_of_sortedBlocks (.inr noMove) sortedBlocks,← notFirst]

theorem again_onDisk (idle : Idle settings sorter) (notFirst : sorter.isFirstIteration_ = false)
    (written : sorter.numBlocksPushed_ ≠ 0) {result : List (Row Id n)} (merges : ∀ {blocksize : Option Nat},(∀ size,blocksize = some size → 0 < size) →
      ∃ blocks,sorter.mergedBlocks settings blocksize = .ok (blocks,sorter) ∧ IsOutput blocksize result blocks) : Again settings result sorter := by
  intro noMove blocksize positive
  obtain ⟨blocks,isMerged,output⟩ := merges positive
  refine ⟨blocks,sorter,?_,output,idle,rfl,rfl⟩
  have sortedBlocks : sorter.sortedBlocks settings blocksize = .ok (blocks,sorter) := by
    rw [CompressedExternalIdTableSorter.sortedBlocks,CompressedExternalIdTableSorter.transformAndPushLastBlock]
    simp only [notFirst,bind,Except.bind,isMerged,written,ne_eq,not_false_eq_true,decide_true,Bool.not_false,if_true]
  rw [getSortedBlocks_of_sortedBlocks (.inr noMove) sortedBlocks,← notFirst]

end

def Settings.MergeFits (settings : Settings Id n) (rows : List (Row Id n)) : Prop :=
  ∃ size,computeBlockSizeForMergePhase settings (chunks settings.rowsPerBlock rows).length = .ok size

omit [Inhabited Id] in
theorem transform_inMemory (pushing : Pushing settings sorter rows []) :
    sorter.transformAndPushLastBlock settings = .ok (false,{ sorter with currentBlock_ := settings.sort sorter.currentBlock_ }) := by
  have all : sorter.numElementsPushed_ = sorter.currentBlock_.length := by
    rw [pushing.numElements,pushing.parts,flatten_nil,nil_append]
  rw [CompressedExternalIdTableSorter.transformAndPushLastBlock,pushing.first,pushing.numBlocks,pushing.future]
  simp [all]

theorem Pushing.extract_inMemory (lawful : settings.Lawful) (pushing : Pushing settings sorter rows []) :
    ∃ result,result.Perm rows ∧ result.Pairwise (fun first second => settings.comparator_ second first = false) ∧
      Extracts settings sorter result (Again settings result) := by
  have isRows : rows = sorter.currentBlock_ := by rw [pushing.parts,flatten_nil,nil_append]
  refine ⟨settings.sort sorter.currentBlock_,isRows ▸ lawful.sort_perm _,lawful.sort_sorted _,?_⟩
  intro blocksize positive
  have transformed := transform_inMemory pushing
  generalize isStart : { sorter with currentBlock_ := settings.sort sorter.currentBlock_ } = start at transformed
  obtain ⟨output,rest,isRest,same⟩ := singleBlock_spec start positive
  have sortedBlocks : sorter.sortedBlocks settings blocksize = .ok ((start.singleBlock blocksize).1,{ start with currentBlock_ := rest }) := by
    rw [CompressedExternalIdTableSorter.sortedBlocks,transformed,← isRest]
    rfl
  have isCurrent : start.currentBlock_ = settings.sort sorter.currentBlock_ := isStart ▸ rfl
  have idle : Idle settings { start with currentBlock_ := rest,isFirstIteration_ := false } := by
    rw [← isStart]
    exact ⟨pushing.future,pushing.stores.inactive,pushing.blockSize⟩
  refine ⟨_,_,getSortedBlocks_of_sortedBlocks (.inl pushing.first) sortedBlocks,isCurrent ▸ output,idle,?_,?_⟩
  · rw [← isStart]
  · intro noMove
    have again := again_inMemory idle rfl (by rw [← isStart]; exact pushing.numBlocks)
    simp only [same noMove,isCurrent] at again ⊢
    exact again noMove

structure OnDisk (settings : Settings Id n) (rows : List (Row Id n)) (sorter : CompressedExternalIdTableSorter Id n) (runs : List (List (Row Id n))) :
    Prop where
  stores : Stores sorter.writer_ runs
  numRuns : runs.length = (chunks settings.rowsPerBlock rows).length
  perm : (mergedRows settings runs).Perm rows
  sorted : (mergedRows settings runs).Pairwise (fun first second => settings.comparator_ second first = false)
  numElements : sorter.numElementsPushed_ = rows.length
  numBlocks : sorter.numBlocksPushed_ ≠ 0
  first : sorter.isFirstIteration_ = true
  idle : Idle settings sorter

omit [NeZero n] [Inhabited Id] in
theorem Pushing.sorted_runs (lawful : settings.Lawful) (rows : List (Row Id n)) :
    (∀ run ∈ (chunks settings.rowsPerBlock rows).map settings.sort,run.Pairwise (fun first second => settings.comparator_ second first = false)) ∧
      ((chunks settings.rowsPerBlock rows).map settings.sort).flatten.Perm rows := by
  constructor
  · intro run isRun
    obtain ⟨block,-,rfl⟩ := List.mem_map.mp isRun
    exact lawful.sort_sorted block
  · calc
      ((chunks settings.rowsPerBlock rows).map settings.sort).flatten
      _ |>.Perm (chunks settings.rowsPerBlock rows).flatten := by
        rw [flatten_eq_flatMap,flatMap_map,flatten_eq_flatMap]
        exact List.Perm.flatMap_left _ (fun block _ => lawful.sort_perm block)
      _ = rows := flatten_chunks rowsPerBlock_pos rows

theorem Pushing.onDisk (lawful : settings.Lawful) (large : 0 < settings.blockSizeUncompressed_ / sizeofId)
    (pushing : Pushing settings sorter rows blocks) (notEmpty : blocks ≠ []) :
    ∃ start runs,sorter.transformAndPushLastBlock settings = .ok (true,start) ∧ OnDisk settings rows start runs ∧
      start.moveResultOnMerge_ = sorter.moveResultOnMerge_ := by
  obtain ⟨writer,transformed,stores,blockSize⟩ := pushing.flush lawful large notEmpty
  obtain ⟨sorted,sameRows⟩ := Pushing.sorted_runs lawful rows
  obtain ⟨perm,sortedRows⟩ := mergedRows_spec lawful stores.notEmpty sorted
  have written : (chunks settings.rowsPerBlock rows).length ≠ 0 := by
    rw [pushing.chunks_eq,withCurrentBlock]
    split_ifs <;> simp [notEmpty]
  exact ⟨_,_,transformed,⟨stores,length_map _,perm.trans sameRows,sortedRows,pushing.numElements,written,pushing.first,rfl,stores.inactive,blockSize⟩,rfl⟩

variable {runs : List (List (Row Id n))}

theorem OnDisk.merges (onDisk : OnDisk settings rows sorter runs) (fits : settings.MergeFits rows) (isFirst : Bool)
    (positive : ∀ size,blocksize = some size → 0 < size) :
    ∃ blocks,{ sorter with isFirstIteration_ := isFirst }.mergedBlocks settings blocksize = .ok (blocks,{ sorter with isFirstIteration_ := isFirst }) ∧
      IsOutput blocksize (mergedRows settings runs) blocks := by
  obtain ⟨computed,isComputed⟩ := fits
  rw [← onDisk.numRuns] at isComputed
  exact @mergedBlocks_eq Id n _ settings { sorter with isFirstIteration_ := isFirst } _ _ runs onDisk.stores
    (onDisk.numElements.trans onDisk.perm.length_eq.symm) _ isComputed positive

theorem OnDisk.fits_of_merged {sorter last : CompressedExternalIdTableSorter Id n}
    (onDisk : OnDisk settings rows sorter runs) (merged : sorter.mergedBlocks settings blocksize = .ok (blocks,last)) :
    settings.MergeFits rows := by
  cases computed : computeBlockSizeForMergePhase settings runs.length with
  | error error =>
    rw [CompressedExternalIdTableSorter.mergedBlocks,getAllRowGenerators_eq onDisk.stores] at merged
    simp only [bind,Except.bind,computed] at merged
    cases merged
  | ok size => exact ⟨size,onDisk.numRuns ▸ computed⟩

theorem Pushing.extract_onDisk (lawful : settings.Lawful) (large : 0 < settings.blockSizeUncompressed_ / sizeofId)
    (pushing : Pushing settings sorter rows blocks) (notEmpty : blocks ≠ []) (fits : settings.MergeFits rows) :
    ∃ result,result.Perm rows ∧ result.Pairwise (fun first second => settings.comparator_ second first = false) ∧
      Extracts settings sorter result (Again settings result) := by
  obtain ⟨start,runs,transformed,onDisk,sameMode⟩ := pushing.onDisk lawful large notEmpty
  refine ⟨mergedRows settings runs,onDisk.perm,onDisk.sorted,?_⟩
  intro blocksize positive
  obtain ⟨blocks,isMerged,output⟩ := onDisk.merges fits start.isFirstIteration_ positive
  have sortedBlocks : sorter.sortedBlocks settings blocksize = .ok (blocks,start) := by
    rw [CompressedExternalIdTableSorter.sortedBlocks,transformed]
    exact isMerged
  have idle : Idle settings { start with isFirstIteration_ := false } := ⟨onDisk.idle.future,onDisk.idle.inactive,onDisk.idle.blockSize⟩
  refine ⟨blocks,_,getSortedBlocks_of_sortedBlocks (.inl pushing.first) sortedBlocks,output,idle,sameMode,?_⟩
  exact again_onDisk idle rfl onDisk.numBlocks (onDisk.merges fits false)

theorem OnDisk.getSortedBlocks_again (onDisk : OnDisk settings rows sorter runs) (blocksize : Option Nat) :
    sorter.getSortedBlocks settings blocksize = .error .correctnessCheck := by
  have notPending : (sorter.numBlocksPushed_ == 0) = sorter.compressAndWriteFuture_.isSome := by
    rw [onDisk.idle.future,Option.isSome_none,beq_eq_false_iff_ne]
    exact onDisk.numBlocks
  rw [CompressedExternalIdTableSorter.getSortedBlocks,CompressedExternalIdTableSorter.sortedBlocks,
    CompressedExternalIdTableSorter.transformAndPushLastBlock,onDisk.first,if_neg (fun both => absurd both.1 (by decide)),if_neg (by decide),
    if_pos notPending]
  rfl

theorem Pushing.extract (lawful : settings.Lawful) (large : 0 < settings.blockSizeUncompressed_ / sizeofId)
    (pushing : Pushing settings sorter rows blocks) (fits : settings.rowsPerBlock ≤ rows.length → settings.MergeFits rows) :
    ∃ result,result.Perm rows ∧ result.Pairwise (fun first second => settings.comparator_ second first = false) ∧
      Extracts settings sorter result (Again settings result) := by
  by_cases inMemory : blocks = []
  · rw [inMemory] at pushing
    exact pushing.extract_inMemory lawful
  · exact pushing.extract_onDisk lawful large inMemory (fits (not_lt.mp (fun few => inMemory (pushing.eq_nil_iff.mpr few))))

def extractAll (settings : Settings Id n) : CompressedExternalIdTableSorter Id n → List (Option Nat) →
    Except Error (List (List (List (Row Id n))) × CompressedExternalIdTableSorter Id n)
  | sorter,[] => .ok ([],sorter)
  | sorter,blocksize :: blocksizes => do
    let (blocks,sorter) ← sorter.getSortedBlocks settings blocksize
    let (others,sorter) ← extractAll settings sorter blocksizes
    .ok (blocks :: others,sorter)

theorem Again.extractAll {result : List (Row Id n)} (again : Again settings result sorter)
    (noMove : sorter.moveResultOnMerge_ = false) (blocksizes : List (Option Nat)) (positive : ∀ size,some size ∈ blocksizes → 0 < size) :
    ∃ outputs,CompressedExternalIdTable.extractAll settings sorter blocksizes = .ok (outputs,sorter) ∧
      List.Forall₂ (fun blocksize blocks => IsOutput blocksize result blocks) blocksizes outputs := by
  induction blocksizes with
  | nil => exact ⟨[],rfl,.nil⟩
  | cons blocksize blocksizes ih =>
    obtain ⟨blocks,last,extracted,output,-,-,isSorter⟩ := again noMove blocksize (fun size isSize => positive size (isSize ▸ mem_cons_self))
    rw [isSorter] at extracted
    obtain ⟨others,extractedAll,outputs⟩ := ih (fun size isSize => positive size (mem_cons_of_mem blocksize isSize))
    refine ⟨blocks :: others,?_,.cons output outputs⟩
    rw [CompressedExternalIdTable.extractAll,extracted]
    simp only [bind,Except.bind,extractedAll]

/-- The rows are sorted, as often as they are extracted, and `clear` gives a new sorter. -/
theorem externalSort_correct (settings : Settings Id n) (lawful : settings.Lawful) (large : sizeofId ≤ settings.blockSizeUncompressed_)
    (moveResultOnMerge : Bool) (requests : List (Request Id n))
    (fits : settings.rowsPerBlock ≤ (requests.flatMap Request.rows).length → settings.MergeFits (requests.flatMap Request.rows))
    (blocksizes : List (Option Nat)) (positive : ∀ size,some size ∈ blocksizes → 0 < size)
    (once : moveResultOnMerge = true → blocksizes.length ≤ 1) :
    ∃ sorter result outputs last,pushAll settings (.new settings moveResultOnMerge) requests = .ok sorter ∧
      result.Perm (requests.flatMap Request.rows) ∧ result.Pairwise (fun first second => settings.comparator_ second first = false) ∧
      extractAll settings sorter blocksizes = .ok (outputs,last) ∧
      List.Forall₂ (fun blocksize blocks => IsOutput blocksize result blocks) blocksizes outputs ∧
      last.clear settings = .ok (.new settings moveResultOnMerge) := by
  have large' : 0 < settings.blockSizeUncompressed_ / sizeofId := Nat.div_pos large (by decide)
  obtain ⟨sorter,blocks,pushed,pushing,sameMode⟩ := pushes_pushAll lawful large' requests _ _ _ (pushing_new settings moveResultOnMerge)
  rw [nil_append] at pushing
  obtain ⟨result,perm,sorted,extracts⟩ := pushing.extract lawful large' fits
  have mode : sorter.moveResultOnMerge_ = moveResultOnMerge := sameMode
  cases blocksizes with
  | nil => exact ⟨sorter,result,[],sorter,pushed,perm,sorted,rfl,.nil,mode ▸ pushing.clear lawful large'⟩
  | cons blocksize blocksizes =>
    obtain ⟨blocks,next,extracted,output,idle,sameMode',again⟩ := extracts blocksize (fun size isSize => positive size (isSize ▸ mem_cons_self))
    have later : ∃ outputs,extractAll settings next blocksizes = .ok (outputs,next) ∧
        List.Forall₂ (fun blocksize blocks => IsOutput blocksize result blocks) blocksizes outputs := by
      cases moves : moveResultOnMerge with
      | true =>
        have none : blocksizes = [] := length_eq_zero_iff.mp (Nat.le_zero.mp (Nat.le_of_succ_le_succ (once moves)))
        rw [none]
        exact ⟨[],rfl,.nil⟩
      | false =>
        exact again.extractAll (sameMode'.trans (mode.trans moves)) blocksizes (fun size isSize => positive size (mem_cons_of_mem blocksize isSize))
    obtain ⟨outputs,extractedAll,isOutputs⟩ := later
    refine ⟨sorter,result,blocks :: outputs,next,pushed,perm,sorted,?_,.cons output isOutputs,?_⟩
    · rw [extractAll,extracted]
      simp only [bind,Except.bind,extractedAll]
    · rw [idle.clear,sameMode',mode]

theorem sortedBlocks_of_getSortedBlocks {last : CompressedExternalIdTableSorter Id n}
    (extracted : sorter.getSortedBlocks settings blocksize = .ok (blocks,last)) : ∃ last',sorter.sortedBlocks settings blocksize = .ok (blocks,last') := by
  rw [CompressedExternalIdTableSorter.getSortedBlocks] at extracted
  split_ifs at extracted
  cases isSorted : sorter.sortedBlocks settings blocksize with
  | error error =>
    rw [isSorted] at extracted
    cases extracted
  | ok result =>
    rw [isSorted] at extracted
    cases extracted
    exact ⟨_,rfl⟩

/-- After an abandoned extraction, the next one yields all rows exactly if no block was written before, or the generator was never started. -/
theorem extractionAfterAbandoned_iff (settings : Settings Id n) (lawful : settings.Lawful) (large : sizeofId ≤ settings.blockSizeUncompressed_)
    (requests : List (Request Id n)) {sorter abandoned : CompressedExternalIdTableSorter Id n} (pushed : pushAll settings (.new settings false) requests = .ok sorter)
    (blocksize blocksize' : Option Nat) (positive : ∀ size,blocksize = some size → 0 < size) (positive' : ∀ size,blocksize' = some size → 0 < size)
    (numConsumed : Nat) (isAbandoned : sorter.abandonSortedBlocks settings blocksize numConsumed = .ok (some abandoned)) :
    (∃ blocks last,abandoned.getSortedBlocks settings blocksize' = .ok (blocks,last) ∧
      blocks.flatten.Perm (requests.flatMap Request.rows) ∧ blocks.flatten.Pairwise (fun first second => settings.comparator_ second first = false)) ↔
    (requests.flatMap Request.rows).length < settings.rowsPerBlock ∨ numConsumed = 0 ∧ settings.MergeFits (requests.flatMap Request.rows) := by
  have large' : 0 < settings.blockSizeUncompressed_ / sizeofId := Nat.div_pos large (by decide)
  obtain ⟨sorter',blocks,pushed',pushing,sameMode⟩ := pushes_pushAll lawful large' requests _ _ _ (pushing_new settings false)
  rw [nil_append] at pushing
  obtain rfl := Except.ok.inj (pushed'.symm.trans pushed)
  generalize requests.flatMap Request.rows = rows at pushing ⊢
  have noMove : sorter'.moveResultOnMerge_ = false := sameMode
  rw [← pushing.eq_nil_iff]
  have extracted : ∀ {start : CompressedExternalIdTableSorter Id n} {result : List (Row Id n)} {isLast : CompressedExternalIdTableSorter Id n → Prop},
      result.Perm rows → result.Pairwise (fun first second => settings.comparator_ second first = false) → Extracts settings start result isLast →
      ∃ blocks last,start.getSortedBlocks settings blocksize' = .ok (blocks,last) ∧ blocks.flatten.Perm rows ∧
        blocks.flatten.Pairwise (fun first second => settings.comparator_ second first = false) := by
    intro start result isLast perm sorted extracts
    obtain ⟨blocks,last,isExtracted,output,-⟩ := extracts blocksize' positive'
    exact ⟨blocks,last,isExtracted,output.flatten.symm ▸ perm,output.flatten.symm ▸ sorted⟩
  cases numConsumed with
  | zero =>
    rw [CompressedExternalIdTableSorter.abandonSortedBlocks,if_pos rfl,Except.ok.injEq,Option.some.injEq] at isAbandoned
    subst isAbandoned
    by_cases inMemory : blocks = []
    · rw [inMemory] at pushing
      obtain ⟨result,perm,sorted,extracts⟩ := pushing.extract_inMemory lawful
      exact iff_of_true (extracted perm sorted extracts) (.inl inMemory)
    · by_cases fits : settings.MergeFits rows
      · obtain ⟨result,perm,sorted,extracts⟩ := pushing.extract_onDisk lawful large' inMemory fits
        exact iff_of_true (extracted perm sorted extracts) (.inr ⟨rfl,fits⟩)
      · refine iff_of_false ?_ (fun either => either.elim inMemory (fun both => fits both.2))
        rintro ⟨blocks',last,isExtracted,-⟩
        obtain ⟨start,runs,transformed,onDisk,-⟩ := pushing.onDisk lawful large' inMemory
        obtain ⟨last',isSorted⟩ := sortedBlocks_of_getSortedBlocks isExtracted
        rw [CompressedExternalIdTableSorter.sortedBlocks,transformed] at isSorted
        exact fits (onDisk.fits_of_merged isSorted)
  | succ numConsumed =>
    have isStarted : ∃ blocks',sorter'.sortedBlocks settings blocksize = .ok (blocks',abandoned) := by
      rw [CompressedExternalIdTableSorter.abandonSortedBlocks,if_neg (Nat.succ_ne_zero _),pushing.first,if_neg (fun both => absurd both.1 (by decide))]
        at isAbandoned
      cases isSorted : sorter'.sortedBlocks settings blocksize with
      | error error =>
        rw [isSorted] at isAbandoned
        cases isAbandoned
      | ok result =>
        rw [isSorted] at isAbandoned
        simp only [bind,Except.bind,Except.ok.injEq] at isAbandoned
        split_ifs at isAbandoned
        cases isAbandoned
        exact ⟨result.1,rfl⟩
    obtain ⟨blocks',isSorted⟩ := isStarted
    by_cases inMemory : blocks = []
    · refine iff_of_true ?_ (.inl inMemory)
      rw [inMemory] at pushing
      rw [CompressedExternalIdTableSorter.sortedBlocks,transform_inMemory pushing] at isSorted
      obtain ⟨-,rest,isRest,same⟩ := singleBlock_spec { sorter' with currentBlock_ := settings.sort sorter'.currentBlock_ } positive
      have isAbandoned' : abandoned = { sorter' with currentBlock_ := settings.sort sorter'.currentBlock_ } :=
        (congrArg Prod.snd (Except.ok.inj isSorted)).symm.trans (isRest.trans (by rw [same noMove]))
      have isRows : rows = sorter'.currentBlock_ := by rw [pushing.parts,flatten_nil,nil_append]
      have perm : (settings.sort sorter'.currentBlock_).Perm rows := isRows ▸ lawful.sort_perm _
      -- The block was sorted, but nothing else was changed.
      have pushing' : Pushing settings abandoned (settings.sort sorter'.currentBlock_) [] := by
        rw [isAbandoned']
        refine ⟨rfl,pushing.full,?_,?_,pushing.numBlocks,pushing.future,pushing.first,pushing.stores,pushing.blockSize⟩
        · rw [(lawful.sort_perm _).length_eq]
          exact pushing.notFull
        · exact pushing.numElements.trans perm.length_eq.symm
      obtain ⟨result,perm',sorted,extracts⟩ := pushing'.extract_inMemory lawful
      exact extracted (perm'.trans perm) sorted extracts
    · refine iff_of_false ?_ (fun either => either.elim inMemory (fun both => absurd both.1 (Nat.succ_ne_zero _)))
      rintro ⟨blocks'',last,isExtracted,-⟩
      obtain ⟨start,runs,transformed,onDisk,-⟩ := pushing.onDisk lawful large' inMemory
      rw [CompressedExternalIdTableSorter.sortedBlocks,transformed] at isSorted
      obtain ⟨merged,isMerged,-⟩ := onDisk.merges (onDisk.fits_of_merged isSorted) start.isFirstIteration_ positive
      have isStart : start = abandoned := congrArg Prod.snd (Except.ok.inj (isMerged.symm.trans isSorted))
      rw [← isStart,onDisk.getSortedBlocks_again] at isExtracted
      cases isExtracted

end Output

section Examples

def oneColumn (row : Row Nat 1) : Nat := row 0

theorem oneColumn_order : IsStrictWeakOrder (Row Nat 1) (fun a b => decide (oneColumn a < oneColumn b) = true) where
  irrefl a := by simp
  trans a b c first second := by
    rw [decide_eq_true_eq] at first second ⊢
    exact Nat.lt_trans first second
  incomp_trans a b c first second := by
    simp only [decide_eq_true_eq] at first second ⊢
    omega

theorem compareRuns_order :
    IsStrictWeakOrder (Row Nat 1 × List (Row Nat 1)) (fun a b => compareRuns (fun a b => decide (oneColumn a < oneColumn b)) a b = true) where
  irrefl a := oneColumn_order.irrefl a.1
  trans a b c first second := oneColumn_order.trans c.1 b.1 a.1 second first
  incomp_trans _ _ _ first second := oneColumn_order.incomp_trans _ _ _ first.symm second.symm |>.symm

def oneColumnSettings (memory blockSizeUncompressed : Nat) (ignoreMemoryLimitForTesting : Bool) : Settings Nat 1 where
  comparator_ a b := decide (oneColumn a < oneColumn b)
  sort rows := rows.mergeSort (fun a b => decide (oneColumn a ≤ oneColumn b))
  heap := searchedHeap compareRuns_order
  memory_ := memory
  blockSizeUncompressed_ := blockSizeUncompressed
  ignoreMemoryLimitForTesting := ignoreMemoryLimitForTesting
  times first second := if first * second < 2 ^ 64 then some (first * second) else none
  divide first second := (first + second - 1) / second

theorem oneColumnSettings_lawful (memory blockSizeUncompressed : Nat) (ignoreMemoryLimitForTesting : Bool) :
    (oneColumnSettings memory blockSizeUncompressed ignoreMemoryLimitForTesting).Lawful where
  order := oneColumn_order
  sort_perm rows := mergeSort_perm rows _
  sort_sorted rows := by
    have sorted := @pairwise_mergeSort _ (fun a b : Row Nat 1 => decide (oneColumn a ≤ oneColumn b))
      (fun a b c first second => by simp only [decide_eq_true_eq] at first second ⊢; omega)
      (fun a b => by simp only [Bool.or_eq_true,decide_eq_true_eq]; omega) rows
    apply sorted.imp
    intro first second inOrder
    simp only [oneColumnSettings,decide_eq_true_eq,decide_eq_false_iff_not] at inOrder ⊢
    omega

def rowsOf (values : List Nat) : List (Row Nat 1) := values.map (fun value _ => value)

def someRequests : List (Request Nat 1) := [.push (fun _ => 3),.pushBlock (rowsOf [1,2,5]),.push (fun _ => 4)]

theorem externalSort_correct_threeRuns :
    ∃ sorter result outputs last,pushAll (oneColumnSettings 32 16 true) (.new (oneColumnSettings 32 16 true) false) someRequests = .ok sorter ∧
      result.Perm (someRequests.flatMap Request.rows) ∧
      result.Pairwise (fun first second => (oneColumnSettings 32 16 true).comparator_ second first = false) ∧
      extractAll (oneColumnSettings 32 16 true) sorter [some 2,none,some 3] = .ok (outputs,last) ∧
      List.Forall₂ (fun blocksize blocks => IsOutput blocksize result blocks) [some 2,none,some 3] outputs ∧
      last.clear (oneColumnSettings 32 16 true) = .ok (.new (oneColumnSettings 32 16 true) false) :=
  externalSort_correct (oneColumnSettings 32 16 true) (oneColumnSettings_lawful 32 16 true) (by decide) false someRequests
    (fun _ => ⟨5,by decide +kernel⟩) [some 2,none,some 3] (by simp) (by simp)

def errorOf {α : Type} : Except Error α → Option Error
  | .error error => some error
  | .ok _ => none

/-- A block of the compression has to have room for an ID, and the memory is checked also if a block size is requested. -/
theorem externalSort_fails :
    errorOf (pushAll (oneColumnSettings 16 7 true) (.new (oneColumnSettings 16 7 true) true) [.pushBlock (rowsOf [2,1])]) = some .contractCheck ∧
    errorOf (do
      let sorter ← pushAll (oneColumnSettings 16 1000 false) (.new (oneColumnSettings 16 1000 false) true) [.pushBlock (rowsOf [1])]
      sorter.getSortedBlocks (oneColumnSettings 16 1000 false) (some 10)) = some .insufficientMemory := by
  decide +kernel

theorem pushAll_someRequests :
    ∃ sorter,pushAll (oneColumnSettings 32 16 true) (.new (oneColumnSettings 32 16 true) false) someRequests = .ok sorter := by
  obtain ⟨sorter,-,pushed,-⟩ := pushes_pushAll (oneColumnSettings_lawful 32 16 true) (by decide) someRequests _ _ _ (pushing_new _ false)
  exact ⟨sorter,pushed⟩

theorem extractionAfterAbandoned_iff_notStarted :
    ∃ sorter : CompressedExternalIdTableSorter Nat 1,(∃ blocks last,sorter.getSortedBlocks (oneColumnSettings 32 16 true) none = .ok (blocks,last) ∧
      blocks.flatten.Perm (someRequests.flatMap Request.rows) ∧
      blocks.flatten.Pairwise (fun first second => (oneColumnSettings 32 16 true).comparator_ second first = false)) ↔
    (someRequests.flatMap Request.rows).length < (oneColumnSettings 32 16 true).rowsPerBlock ∨
      0 = 0 ∧ (oneColumnSettings 32 16 true).MergeFits (someRequests.flatMap Request.rows) :=
  Exists.elim pushAll_someRequests (fun sorter pushed => ⟨sorter,extractionAfterAbandoned_iff (oneColumnSettings 32 16 true)
    (oneColumnSettings_lawful 32 16 true) (by decide) someRequests pushed (some 2) none (by simp) (by simp) 0 rfl⟩)

/-- One block was written and one block was consumed. -/
theorem extractionAfterAbandoned_fails :
    errorOf (do
      let sorter ← pushAll (oneColumnSettings 16 8 true) (.new (oneColumnSettings 16 8 true) false) [.pushBlock (rowsOf [2,1])]
      match ← sorter.abandonSortedBlocks (oneColumnSettings 16 8 true) (some 1) 1 with
      | none => .ok ([],sorter)
      | some abandoned => abandoned.getSortedBlocks (oneColumnSettings 16 8 true) (some 1)) = some .correctnessCheck := by
  decide +kernel

end Examples

end Qlever.CompressedExternalIdTable
