import Qlever.CompressedRelationReader
import Qlever.LimitOffsetClause

/-! `lazyScan` with a LIMIT and an OFFSET. The rest of the clause is passed from block to block, and the statistics of the scan are checked at
its end.
-/
namespace Qlever.CompressedRelationReader
open Library List
variable {Id : Type}

structure LazyScanMetadata where
  numBlocksRead : Nat := 0
  numBlocksSkippedBecauseOfGraph : Nat := 0
  numElementsRead : Nat := 0
  numElementsYielded : Nat := 0

namespace LazyScanMetadata

def update (details : LazyScanMetadata) : Option (Table Id) → LazyScanMetadata
  | some block => {details with numBlocksRead := details.numBlocksRead + 1, numElementsRead := details.numElementsRead + block.length}
  | none => {details with numBlocksSkippedBecauseOfGraph := details.numBlocksSkippedBecauseOfGraph + 1}

end LazyScanMetadata

inductive LimitedScanFailure
  | read (failure : ScanFailure)
  | sanityCheck
  deriving DecidableEq, Repr

/-- The variables of `lazyScan` that change, and the tables that are yielded. -/
structure LimitedScan (Id : Type) where
  details : LazyScanMetadata := {}
  limitOffset : LimitOffsetClause
  yielded : List (Table Id) := []

def LimitedScan.yieldBlock (state : LimitedScan Id) (block : Table Id) : LimitedScan Id :=
  let (block,limitOffset) := pruneBlock block state.limitOffset
  {details := {state.details with numElementsYielded := state.details.numElementsYielded + block.length}
   limitOffset
   yielded := if block.isEmpty then state.yielded else state.yielded ++ [block]}

section Scan
variable [LinearOrder Id] [OrderBot Id] (file : File Id)

/-- The loop of `asyncParallelBlockGenerator` over the results for the given blocks. -/
def generateBlocks (config : ScanImplConfig Id) : List (CompressedBlockMetadata Id) → LimitedScan Id → Except ScanFailure (LimitedScan Id)
  | [],state => .ok state
  | blockMetadata::rest,state => do
    let optBlock ← readAndDecompressBlock file blockMetadata config
    let state := {state with details := state.details.update optBlock}
    match optBlock with
    | none => generateBlocks config rest state
    | some block =>
      let state := state.yieldBlock block
      if state.limitOffset.limit.getD 1 = 0 then .ok state else generateBlocks config rest state

/-- The lambda `getIncompleteBlock` with the pruning that follows it. The statistics count the complete block. -/
def yieldIncompleteBlock (scanSpec : ScanSpecification Id) (config : ScanImplConfig Id) (ltpb : LocatedTriplesPerBlock Id)
    (blockMetadata : CompressedBlockMetadata Id) (state : LimitedScan Id) : Except ScanFailure (LimitedScan Id) := do
  let block ← readPossiblyIncompleteBlock file scanSpec config blockMetadata ltpb
  let read ← readAndDecompressBlock file blockMetadata
    (getScanConfig (.allColumns config.graphFilter.desiredGraphs) (allAdditionalColumns blockMetadata) ltpb)
  return LimitedScan.yieldBlock {state with details := state.details.update read} block

omit [LinearOrder Id] [OrderBot Id] in
theorem cons_blocks_ne_nil (next : CompressedBlockMetadata Id) (blocks : List (CompressedBlockMetadata Id)) : next::blocks ≠ [] := nofun

def scanBlocks (scanSpec : ScanSpecification Id) (config : ScanImplConfig Id) (ltpb : LocatedTriplesPerBlock Id)
    (relevantBlockMetadata : List (CompressedBlockMetadata Id)) (state : LimitedScan Id) : Except ScanFailure (LimitedScan Id) :=
  match relevantBlockMetadata with
  | [] => .ok state
  | [block] => yieldIncompleteBlock file scanSpec config ltpb block state
  | block::next::blocks => do
    let state ← yieldIncompleteBlock file scanSpec config ltpb block state
    let state ← generateBlocks file config (next::blocks).dropLast state
    yieldIncompleteBlock file scanSpec config ltpb ((next::blocks).getLast (cons_blocks_ne_nil next blocks)) state

/-- The checks at the end of `lazyScan`. -/
def checksPass (originalLimit : LimitOffsetClause) (numBlocksTotal : Nat) (state : LimitedScan Id) : Bool :=
  originalLimit.limit.all (fun limit => state.details.numElementsYielded ≤ limit) &&
    (numBlocksTotal = state.details.numBlocksRead + state.details.numBlocksSkippedBecauseOfGraph || !state.limitOffset.isUnconstrained)

def lazyScanWithLimit (scanSpec : ScanSpecification Id) (relevantBlockMetadata : List (CompressedBlockMetadata Id)) (additionalColumns : List Nat)
    (ltpb : LocatedTriplesPerBlock Id) (limitOffset : LimitOffsetClause) : Except LimitedScanFailure (List (Table Id)) :=
  if relevantBlockMetadata.isEmpty then .ok []
  else
    match scanBlocks file scanSpec (getScanConfig scanSpec additionalColumns ltpb) ltpb relevantBlockMetadata {limitOffset} with
    | .error failure => .error (.read failure)
    | .ok state => if checksPass limitOffset relevantBlockMetadata.length state then .ok state.yielded else .error .sanityCheck

end Scan

section Steps
variable {original : LimitOffsetClause} {numBlocks : Nat} {state next last : LimitedScan Id} {rows rest : Table Id}

/-- The scan went over the given rows: it yielded their slice, and the remaining clause is that for the rows behind them. -/
structure Went (state : LimitedScan Id) (rows : Table Id) (next : LimitedScan Id) : Prop where
  yielded : next.yielded.flatten = state.yielded.flatten ++ state.limitOffset.slice rows
  remaining : ∀ rest,state.limitOffset.slice (rows ++ rest) = state.limitOffset.slice rows ++ next.limitOffset.slice rest

theorem Went.trans (first : Went state rows next) (second : Went next rest last) : Went state (rows ++ rest) last where
  yielded := by
    rw [second.yielded,first.yielded,first.remaining,append_assoc]
  remaining := by
    intro more
    rw [append_assoc,first.remaining,second.remaining,first.remaining,append_assoc]

theorem went_nil {details : LazyScanMetadata} : Went state [] {state with details} where
  yielded := by simp
  remaining := by simp

theorem went_yieldBlock (state : LimitedScan Id) (details : LazyScanMetadata) (block : Table Id) :
    Went state block (LimitedScan.yieldBlock {state with details} block) where
  yielded := by
    rw [← LimitOffsetClause.pruneBlock_block]
    simp only [LimitedScan.yieldBlock]
    split
    next empty => rw [List.isEmpty_iff.mp empty,append_nil]
    next => rw [flatten_append,flatten_singleton]
  remaining := by
    intro more
    rw [LimitOffsetClause.slice_append,LimitOffsetClause.pruneBlock_block]
    rfl

theorem Went.stop (went : Went state rows next) (reached : next.limitOffset.limit.getD 1 = 0) (rest : Table Id) : Went state (rows ++ rest) next := by
  have isLimit : next.limitOffset.limit = some 0 := by
    cases limit : next.limitOffset.limit with
    | none => simp [limit] at reached
    | some count => simpa [limit] using reached
  have nothing : ∀ more : Table Id,next.limitOffset.slice more = [] := by
    intro more
    rw [LimitOffsetClause.slice,isLimit]
    exact take_zero
  refine ⟨?_,?_⟩
  · rw [went.yielded,went.remaining,nothing,append_nil]
  · intro more
    rw [append_assoc,went.remaining,went.remaining,nothing,nothing,nothing,append_nil,append_nil]

structure Counts (original : LimitOffsetClause) (numBlocks : Nat) (state : LimitedScan Id) : Prop where
  limit : state.limitOffset.limit = original.limit.map (fun limit => limit - state.details.numElementsYielded)
  withinLimit : ∀ limit ∈ original.limit,state.details.numElementsYielded ≤ limit
  blocks : original.limit = none → numBlocks = state.details.numBlocksRead + state.details.numBlocksSkippedBecauseOfGraph

section
variable (counts : Counts original numBlocks state)
include counts

theorem Counts.update (block : Option (Table Id)) :
    Counts original (numBlocks + 1) {state with details := state.details.update block} := by
  cases block with
  | none | some block =>
    refine ⟨counts.limit,counts.withinLimit,fun unlimited => ?_⟩
    have blocks := counts.blocks unlimited
    simp only [LazyScanMetadata.update]
    omega

theorem Counts.yieldBlock (block : Table Id) : Counts original numBlocks (state.yieldBlock block) := by
  have limit := counts.limit
  have remaining := state.limitOffset.limit_pruneBlock block
  have length := state.limitOffset.pruneBlock_block block
  refine ⟨?_,?_,counts.blocks⟩
  · simp only [LimitedScan.yieldBlock,remaining,length,limit,Option.map_map]
    congr 1
    funext count
    simp only [Function.comp_apply]
    omega
  · intro count isLimit
    have within := counts.withinLimit count isLimit
    rw [Option.mem_def.mp isLimit,Option.map_some] at limit
    have slice := state.limitOffset.length_slice_le block limit
    simp only [LimitedScan.yieldBlock,length]
    omega

theorem Counts.checksPass : checksPass original numBlocks state = true := by
  rw [CompressedRelationReader.checksPass,Bool.and_eq_true]
  constructor
  · cases isLimit : original.limit with
    | none => rfl
    | some limit => exact decide_eq_true (counts.withinLimit limit isLimit)
  · rw [Bool.or_eq_true,decide_eq_true_eq,Bool.not_eq_true',LimitOffsetClause.isUnconstrained,counts.limit]
    cases isLimit : original.limit with
    | none => exact Or.inl (counts.blocks isLimit)
    | some limit => exact Or.inr rfl

end

end Steps

section Runs
variable [LinearOrder Id] [OrderBot Id] {file : File Id} {scanSpec : ScanSpecification Id} {config : ScanImplConfig Id}
  {ltpb : LocatedTriplesPerBlock Id} {blocks : List (CompressedBlockMetadata Id)} {original : LimitOffsetClause} {numBlocks : Nat}
  {state next : LimitedScan Id}

theorem generateBlocks_counts (counts : Counts original numBlocks state) (run : generateBlocks file config blocks state = .ok next) :
    Counts original (numBlocks + blocks.length) next := by
  induction blocks generalizing state numBlocks with
  | nil =>
    cases run
    exact counts
  | cons block blocks ih =>
    rw [generateBlocks,bind_eq_ok] at run
    obtain ⟨read,_,run⟩ := run
    have updated := counts.update read
    rw [length_cons,Nat.add_comm blocks.length,← Nat.add_assoc]
    cases read with
    | none => exact ih updated run
    | some table =>
      have yielded := updated.yieldBlock table
      simp only at run
      split at run
      next reached =>
        cases run
        refine ⟨yielded.limit,yielded.withinLimit,fun unlimited => ?_⟩
        rw [yielded.limit,unlimited] at reached
        cases reached
      next => exact ih yielded run

variable {block : CompressedBlockMetadata Id}

theorem yieldIncompleteBlock_counts (counts : Counts original numBlocks state)
    (run : yieldIncompleteBlock file scanSpec config ltpb block state = .ok next) : Counts original (numBlocks + 1) next := by
  rw [yieldIncompleteBlock,bind_eq_ok] at run
  obtain ⟨table,_,run⟩ := run
  obtain ⟨read,_,run⟩ := bind_eq_ok.mp run
  cases run
  exact (counts.update read).yieldBlock table

theorem scanBlocks_counts (counts : Counts original numBlocks state) (run : scanBlocks file scanSpec config ltpb blocks state = .ok next) :
    Counts original (numBlocks + blocks.length) next := by
  match blocks with
  | [] =>
    cases run
    exact counts
  | [block] => exact yieldIncompleteBlock_counts counts run
  | block::other::blocks =>
    rw [scanBlocks,bind_eq_ok] at run
    obtain ⟨first,isFirst,run⟩ := run
    obtain ⟨inner,isInner,isLast⟩ := bind_eq_ok.mp run
    have all := yieldIncompleteBlock_counts (generateBlocks_counts (yieldIncompleteBlock_counts counts isFirst) isInner) isLast
    have length : (other::blocks).dropLast.length + 1 = (other::blocks).length := by
      rw [length_dropLast,length_cons]
      omega
    rw [length_cons,← length]
    rwa [show numBlocks + ((other::blocks).dropLast.length + 1 + 1) = numBlocks + 1 + (other::blocks).dropLast.length + 1 by omega]

variable {tables : List (Table Id)}

theorem generateBlocks_went (run : asyncParallelBlockGenerator file blocks config = .ok tables) (state : LimitedScan Id) :
    ∃ next,generateBlocks file config blocks state = .ok next ∧ Went state tables.flatten next := by
  rw [asyncParallelBlockGenerator,bind_eq_ok] at run
  obtain ⟨reads,isReads,same⟩ := run
  cases pure_eq_ok.mp same
  induction blocks generalizing state reads with
  | nil =>
    cases isReads
    exact ⟨state,rfl,went_nil⟩
  | cons block blocks ih =>
    rw [mapM_cons,bind_eq_ok] at isReads
    obtain ⟨read,isRead,isReads⟩ := isReads
    obtain ⟨rest,isRest,same⟩ := bind_eq_ok.mp isReads
    cases pure_eq_ok.mp same
    rw [generateBlocks,isRead]
    cases read with
    | none =>
      obtain ⟨next,isNext,went⟩ := ih {state with details := state.details.update none} rest isRest rfl
      exact ⟨next,isNext,went_nil.trans went⟩
    | some table =>
      have yielded := went_yieldBlock state (state.details.update (some table)) table
      simp only [bind,Except.bind,filterMap_cons,id_eq,flatten_cons]
      split
      next reached => exact ⟨_,rfl,yielded.stop reached _⟩
      next =>
        obtain ⟨next,isNext,went⟩ := ih (LimitedScan.yieldBlock {state with details := state.details.update (some table)} table) rest isRest rfl
        exact ⟨next,isNext,yielded.trans went⟩

theorem yieldIncompleteBlock_went {table : Table Id}
    (run : readPossiblyIncompleteBlock file scanSpec config block ltpb = .ok table) (state : LimitedScan Id) :
    ∃ next,yieldIncompleteBlock file scanSpec config ltpb block state = .ok next ∧ Went state table next := by
  obtain ⟨read,isRead⟩ : ∃ read,readAndDecompressBlock file block
      (getScanConfig (.allColumns config.graphFilter.desiredGraphs) (allAdditionalColumns block) ltpb) = .ok read := by
    rw [readPossiblyIncompleteBlock] at run
    split at run
    · cases run
    · rw [readAndNarrow,bind_eq_ok] at run
      obtain ⟨read,isRead,_⟩ := run
      exact ⟨read,isRead⟩
  refine ⟨_,?_,went_yieldBlock state (state.details.update read) table⟩
  rw [yieldIncompleteBlock,run,isRead]
  rfl

theorem scanBlocks_went {additionalColumns : List Nat}
    (run : lazyScanTables file scanSpec blocks additionalColumns ltpb = .ok tables) (state : LimitedScan Id) :
    ∃ next,scanBlocks file scanSpec (getScanConfig scanSpec additionalColumns ltpb) ltpb blocks state = .ok next ∧ Went state tables.flatten next := by
  match blocks with
  | [] =>
    cases run
    exact ⟨state,rfl,went_nil⟩
  | [block] =>
    rw [lazyScanTables,bind_eq_ok] at run
    obtain ⟨first,isFirst,same⟩ := run
    cases pure_eq_ok.mp same
    rw [flatten_singleton]
    exact yieldIncompleteBlock_went isFirst state
  | block::other::blocks =>
    rw [lazyScanTables,bind_eq_ok] at run
    obtain ⟨first,isFirst,run⟩ := run
    obtain ⟨inner,isInner,run⟩ := bind_eq_ok.mp run
    obtain ⟨last,isLast,same⟩ := bind_eq_ok.mp run
    cases pure_eq_ok.mp same
    obtain ⟨state₁,run₁,went₁⟩ := yieldIncompleteBlock_went isFirst state
    obtain ⟨state₂,run₂,went₂⟩ := generateBlocks_went isInner state₁
    obtain ⟨state₃,run₃,went₃⟩ := yieldIncompleteBlock_went isLast state₂
    refine ⟨state₃,?_,?_⟩
    · rw [scanBlocks,run₁]
      simp only [bind,Except.bind,run₂,run₃]
    · rw [flatten_append,flatten_cons,flatten_singleton]
      exact (went₁.trans went₂).trans went₃

/-- A scan with a limit and an offset yields the slice of the scan without them, and its checks never fail. -/
theorem lazyScanWithLimit_eq (file : File Id) (scanSpec : ScanSpecification Id) (blocks : List (CompressedBlockMetadata Id))
    (additionalColumns : List Nat) (ltpb : LocatedTriplesPerBlock Id) (limitOffset : LimitOffsetClause) :
    (∀ tables,lazyScan file scanSpec blocks additionalColumns ltpb = .ok tables →
        ∃ limited,lazyScanWithLimit file scanSpec blocks additionalColumns ltpb limitOffset = .ok limited ∧
          limited.flatten = limitOffset.slice tables.flatten) ∧
      lazyScanWithLimit file scanSpec blocks additionalColumns ltpb limitOffset ≠ .error .sanityCheck := by
  have start : Counts limitOffset 0 ({limitOffset} : LimitedScan Id) := by
    refine ⟨?_,fun _ _ => Nat.zero_le _,fun _ => rfl⟩
    simp
  have checked : ∀ next,scanBlocks file scanSpec (getScanConfig scanSpec additionalColumns ltpb) ltpb blocks {limitOffset} = .ok next →
      checksPass limitOffset blocks.length next = true := by
    intro next run
    have counts := scanBlocks_counts start run
    rw [Nat.zero_add] at counts
    exact counts.checksPass
  constructor
  · intro tables run
    rw [lazyScan,bind_eq_ok] at run
    obtain ⟨all,isAll,same⟩ := run
    cases pure_eq_ok.mp same
    rw [flatten_filter_not_isEmpty]
    obtain ⟨next,isNext,went⟩ := scanBlocks_went isAll {limitOffset}
    rw [lazyScanWithLimit]
    split
    next empty =>
      rw [List.isEmpty_iff.mp empty] at isAll
      cases isAll
      exact ⟨[],rfl,by simp⟩
    next =>
      refine ⟨next.yielded,?_,went.yielded⟩
      rw [isNext]
      simp only [checked next isNext,if_true]
  · rw [lazyScanWithLimit]
    split
    · simp
    · split
      next => simp
      next next isNext => simp [checked next isNext]

end Runs
end Qlever.CompressedRelationReader
