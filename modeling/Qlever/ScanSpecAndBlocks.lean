import Qlever.LocatedTriples
import Qlever.Library.SortedPrefix

/-! Scan specifications and the blocks that are relevant for them, `ScanSpecification.h` and
`CompressedRelationReader::ScanSpecAndBlocks`. The smallest and the largest ID are `⊥` and `⊤`.
-/
namespace Qlever
open Library List
variable {Id : Type}

structure ScanSpecification (Id : Type) where
  col0Id : Option Id
  col1Id : Option Id
  col2Id : Option Id
  graphsToFilter : Option (List Id)
  validate : (col1Id.isSome → col0Id.isSome) ∧ (col2Id.isSome → col1Id.isSome)

namespace ScanSpecification

def allColumns (graphsToFilter : Option (List Id)) : ScanSpecification Id :=
  ⟨none,none,none,graphsToFilter,by simp⟩

section
local instance fourPositive : NeZero 4 := ⟨by decide⟩

def firstFreeColIndex (spec : ScanSpecification Id) : Fin 4 :=
  if spec.col0Id.isNone then 0
  else if spec.col1Id.isNone then 1
  else if spec.col2Id.isNone then 2
  else 3

end

end ScanSpecification

structure FilterDuplicatesAndGraphs (Id : Type) where
  desiredGraphs : Option (List Id)
  graphColumn : Nat
  deleteGraphColumn : Bool

namespace FilterDuplicatesAndGraphs
variable [DecidableEq Id]

def blockNeedsFilteringByGraph (filter : FilterDuplicatesAndGraphs Id) (metadata : CompressedBlockMetadata Id) : Bool :=
  match filter.desiredGraphs,metadata.graphInfo with
  | none,_ => false
  | some _,none => true
  | some wantedGraphs,some graphInfo => !graphInfo.all (fun containedGraph => containedGraph ∈ wantedGraphs)

def canBlockBeSkipped (filter : FilterDuplicatesAndGraphs Id) (block : CompressedBlockMetadata Id) : Bool :=
  match filter.desiredGraphs,block.graphInfo with
  | some desiredGraphs,some containedGraphs => desiredGraphs.all (fun desiredGraph => desiredGraph ∉ containedGraphs)
  | _,_ => false

end FilterDuplicatesAndGraphs

inductive ContractViolation
  | duplicateBlocks
  | orderViolation
  | columnInconsistency
  | nonConstantColumns
  deriving DecidableEq, Repr

def contractCheck (condition : Bool) (violation : ContractViolation) : Except ContractViolation Unit :=
  if condition then .ok () else .error violation

section Masked
variable [Bot Id]

def getMaskedTriple (triple : IdTriple Id) : Fin 4 → Id × Id × Id
  | 3 => (triple.col0Id,triple.col1Id,triple.col2Id)
  | 2 => (triple.col0Id,triple.col1Id,⊥)
  | 1 => (triple.col0Id,⊥,⊥)
  | 0 => (⊥,⊥,⊥)

namespace CompressedBlockMetadata
variable [DecidableEq Id]

def containsInconsistentTriples (block : CompressedBlockMetadata Id) (columnIndex : Fin 4) : Bool :=
  getMaskedTriple block.firstTriple columnIndex ≠ getMaskedTriple block.lastTriple columnIndex

def isConsistentWith (block other : CompressedBlockMetadata Id) (columnIndex : Fin 4) : Bool :=
  getMaskedTriple block.lastTriple columnIndex = getMaskedTriple other.firstTriple columnIndex

end CompressedBlockMetadata
end Masked

variable [LinearOrder Id] [BoundedOrder Id]

/-- The smallest and the largest triple of a specification, the `key` of `getRelevantBlocks`. -/
def ScanSpecification.firstTriple (spec : ScanSpecification Id) : IdTriple Id :=
  ⟨spec.col0Id.getD ⊥,spec.col1Id.getD ⊥,spec.col2Id.getD ⊥,⊥⟩

def ScanSpecification.lastTriple (spec : ScanSpecification Id) : IdTriple Id :=
  ⟨spec.col0Id.getD ⊤,spec.col1Id.getD ⊤,spec.col2Id.getD ⊤,⊤⟩

/-- The `equal_range` of the key in a range of blocks. -/
def relevantBlocksOfRange (spec : ScanSpecification Id) (range : List (CompressedBlockMetadata Id)) :
    List (CompressedBlockMetadata Id) :=
  (range.dropWhile (fun block => block.lastTriple < spec.firstTriple)).takeWhile
    (fun block => !decide (spec.lastTriple < block.firstTriple))

def getRelevantBlocks (spec : ScanSpecification Id) (ranges : List (List (CompressedBlockMetadata Id))) :
    List (List (CompressedBlockMetadata Id)) :=
  (ranges.map (relevantBlocksOfRange spec)).filter (fun range => !range.isEmpty)

def checkUniquenessAndOrder (b1 b2 : CompressedBlockMetadata Id) : Except ContractViolation Unit := do
  contractCheck (b1 ≠ b2 && b1.blockIndex ≠ b2.blockIndex) .duplicateBlocks
  contractCheck (b1.lastTriple < b2.lastTriple && b1.blockIndex < b2.blockIndex) .orderViolation

def checkBlockMetadataInvariantOrderAndUniqueness (blocks : List (CompressedBlockMetadata Id)) : Except ContractViolation Unit :=
  (blocks.zip (blocks.drop 1)).forM (fun pair => checkUniquenessAndOrder pair.1 pair.2)

def checkConsistency (firstFreeColIndex : Fin 4) (i : Nat) (b1 b2 : CompressedBlockMetadata Id) : Except ContractViolation Unit := do
  contractCheck (b1.isConsistentWith b2 firstFreeColIndex) .columnInconsistency
  if i > 0 then contractCheck (!b1.containsInconsistentTriples firstFreeColIndex) .nonConstantColumns

def checkBlockMetadataInvariantBlockConsistency (blocks : List (CompressedBlockMetadata Id)) (firstFreeColIndex : Fin 4) :
    Except ContractViolation Unit :=
  (blocks.zip (blocks.drop 1)).zipIdx.forM (fun pair => checkConsistency firstFreeColIndex pair.2 pair.1.1 pair.1.2)

structure ScanSpecAndBlocks (Id : Type) where
  scanSpec : ScanSpecification Id
  blockMetadata : List (List (CompressedBlockMetadata Id))
  sizeBlockMetadata : Nat

def makeScanSpecAndBlocks (scanSpec : ScanSpecification Id) (ranges : List (List (CompressedBlockMetadata Id))) :
    Except ContractViolation (ScanSpecAndBlocks Id) := do
  checkBlockMetadataInvariantOrderAndUniqueness ranges.flatten
  let blockMetadata := getRelevantBlocks scanSpec ranges
  checkBlockMetadataInvariantBlockConsistency blockMetadata.flatten scanSpec.firstFreeColIndex
  return ⟨scanSpec,blockMetadata,(blockMetadata.map List.length).sum⟩

structure SortedBlocks (blocks : List (CompressedBlockMetadata Id)) : Prop where
  bounds : ∀ block ∈ blocks,block.firstTriple ≤ block.lastTriple
  disjoint : blocks.Pairwise (fun b1 b2 => b1.lastTriple < b2.firstTriple)
  indices : blocks.map (·.blockIndex) = List.range blocks.length

section Relevant
variable {spec : ScanSpecification Id}

theorem getMaskedTriple_eq {triple : IdTriple Id} (above : spec.firstTriple ≤ triple) (below : triple ≤ spec.lastTriple) :
    getMaskedTriple triple spec.firstFreeColIndex = (spec.col0Id.getD ⊥,spec.col1Id.getD ⊥,spec.col2Id.getD ⊥) := by
  obtain ⟨col0Id,col1Id,col2Id,graphs,valid⟩ := spec
  cases col0Id with
  | none =>
    have none1 : col1Id = none := by simpa using valid.1
    have none2 : col2Id = none := by simpa [none1] using valid.2
    simp [none1,none2,ScanSpecification.firstFreeColIndex,getMaskedTriple]
  | some a =>
    have col0 : triple.col0Id = a := le_antisymm (IdTriple.col0_le below) (IdTriple.col0_le above)
    cases col1Id with
    | none =>
      have none2 : col2Id = none := by simpa using valid.2
      simp [none2,ScanSpecification.firstFreeColIndex,getMaskedTriple,col0]
    | some b =>
      have col1 : triple.col1Id = b :=
        le_antisymm (IdTriple.col1_le below col0) (IdTriple.col1_le above col0.symm)
      cases col2Id with
      | none => simp [ScanSpecification.firstFreeColIndex,getMaskedTriple,col0,col1]
      | some c =>
        have col2 : triple.col2Id = c :=
          le_antisymm (IdTriple.col2_le below col0 col1) (IdTriple.col2_le above col0.symm col1.symm)
        simp [ScanSpecification.firstFreeColIndex,getMaskedTriple,col0,col1,col2]

/-- A block that is neither completely before nor completely behind the triples of the specification. -/
def isRelevant (spec : ScanSpecification Id) (block : CompressedBlockMetadata Id) : Bool :=
  !decide (block.lastTriple < spec.firstTriple) && !decide (spec.lastTriple < block.firstTriple)

/-- The part of `SortedBlocks` that also holds for parts of the blocks. -/
structure OrderedBlocks (blocks : List (CompressedBlockMetadata Id)) : Prop where
  bounds : ∀ block ∈ blocks,block.firstTriple ≤ block.lastTriple
  disjoint : blocks.Pairwise (fun b1 b2 => b1.lastTriple < b2.firstTriple)
  indices : blocks.Pairwise (fun b1 b2 => b1.blockIndex < b2.blockIndex)

variable {blocks blocks' : List (CompressedBlockMetadata Id)}

section
omit [BoundedOrder Id]

theorem SortedBlocks.ordered (sorted : SortedBlocks blocks) : OrderedBlocks blocks where
  bounds := sorted.bounds
  disjoint := sorted.disjoint
  indices := by
    have increasing := pairwise_lt_range (n := blocks.length)
    rw [← sorted.indices,pairwise_map] at increasing
    exact increasing

theorem OrderedBlocks.sublist (ordered : OrderedBlocks blocks) (sub : blocks'.Sublist blocks) : OrderedBlocks blocks' where
  bounds block member := ordered.bounds block (sub.subset member)
  disjoint := ordered.disjoint.sublist sub
  indices := ordered.indices.sublist sub

end

theorem relevantBlocksOfRange_eq (spec : ScanSpecification Id) (ordered : OrderedBlocks blocks) :
    relevantBlocksOfRange spec blocks = blocks.filter (isRelevant spec) := by
  have before : blocks.Pairwise (fun b1 b2 => decide (b2.lastTriple < spec.firstTriple) = true →
      decide (b1.lastTriple < spec.firstTriple) = true) := by
    apply (List.Pairwise.and_mem.mp ordered.disjoint).imp
    rintro b1 b2 ⟨_,member,less⟩ early
    simp only [decide_eq_true_eq] at early ⊢
    exact less.trans ((ordered.bounds b2 member).trans_lt early)
  have behind : (blocks.filter (fun block => !decide (block.lastTriple < spec.firstTriple))).Pairwise (fun b1 b2 =>
      (!decide (spec.lastTriple < b2.firstTriple)) = true → (!decide (spec.lastTriple < b1.firstTriple)) = true) := by
    apply (List.Pairwise.and_mem.mp (ordered.sublist filter_sublist).disjoint).imp
    rintro b1 b2 ⟨member,_,less⟩ early
    simp only [Bool.not_eq_true',decide_eq_false_iff_not,not_lt] at early ⊢
    exact (ordered.bounds b1 (mem_filter.mp member).1).trans (less.le.trans early)
  rw [relevantBlocksOfRange,dropWhile_eq_filter _ _ before,takeWhile_eq_filter _ _ behind,filter_filter]
  apply filter_congr
  intro block _
  rw [isRelevant,Bool.and_comm]

theorem getRelevantBlocks_flatten (spec : ScanSpecification Id) {ranges : List (List (CompressedBlockMetadata Id))} (ordered : OrderedBlocks ranges.flatten) :
    (getRelevantBlocks spec ranges).flatten = ranges.flatten.filter (isRelevant spec) := by
  induction ranges with
  | nil => rfl
  | cons range ranges ih =>
    rw [flatten_cons] at ordered
    have first := relevantBlocksOfRange_eq spec (ordered.sublist (sublist_append_left range ranges.flatten))
    have rest := ih (ordered.sublist (sublist_append_right range ranges.flatten))
    rw [getRelevantBlocks] at rest ⊢
    rw [map_cons,flatten_cons,filter_append,← rest,← first]
    cases empty : (relevantBlocksOfRange spec range).isEmpty with
    | true => simp [List.isEmpty_iff.mp empty]
    | false => simp [empty]

end Relevant

section Checks

theorem forM_ok {α ε : Type} {f : α → Except ε Unit} {xs : List α} (ok : ∀ x ∈ xs,f x = .ok ()) : xs.forM f = .ok () := by
  induction xs with
  | nil => rfl
  | cons x xs ih =>
    change (f x).bind (fun _ => xs.forM f) = .ok ()
    rw [ok x mem_cons_self]
    exact ih (forall_mem_cons.mp ok).2

theorem zip_drop_get {α : Type} {xs : List α} {x y : α} {i : Nat} (member : ((x,y),i) ∈ (xs.zip (xs.drop 1)).zipIdx) :
    xs[i]? = some x ∧ xs[i + 1]? = some y := by
  rw [mk_mem_zipIdx_iff_getElem?,List.getElem?_zip_eq_some,List.getElem?_drop,Nat.add_comm 1] at member
  exact member

theorem pairwise_get {α : Type} {rel : α → α → Prop} {xs : List α} (pairwise : xs.Pairwise rel) {i j : Nat} {x y : α}
    (first : xs[i]? = some x) (second : xs[j]? = some y) (less : i < j) : rel x y := by
  obtain ⟨hi,rfl⟩ := List.getElem?_eq_some_iff.mp first
  obtain ⟨hj,rfl⟩ := List.getElem?_eq_some_iff.mp second
  exact List.pairwise_iff_getElem.mp pairwise i j hi hj less

variable {blocks : List (CompressedBlockMetadata Id)}

omit [BoundedOrder Id] in
theorem checkOrder_ok (ordered : OrderedBlocks blocks) : checkBlockMetadataInvariantOrderAndUniqueness blocks = .ok () := by
  apply forM_ok
  rintro ⟨b1,b2⟩ member
  obtain ⟨i,found⟩ := List.getElem?_of_mem member
  obtain ⟨first,second⟩ := zip_drop_get (mk_mem_zipIdx_iff_getElem?.mpr found)
  have index : b1.blockIndex < b2.blockIndex := pairwise_get ordered.indices first second (Nat.lt_succ_self i)
  have disjoint : b1.lastTriple < b2.firstTriple := pairwise_get ordered.disjoint first second (Nat.lt_succ_self i)
  have less : b1.lastTriple < b2.lastTriple := disjoint.trans_le (ordered.bounds b2 (mem_of_getElem? second))
  have different : b1 ≠ b2 := by
    rintro rfl
    exact lt_irrefl _ index
  simp [checkUniquenessAndOrder,contractCheck,different,index.ne,index,less,bind,Except.bind]

section
variable {spec : ScanSpecification Id} (ordered : OrderedBlocks blocks) (relevant : ∀ block ∈ blocks,isRelevant spec block = true)
include ordered relevant

theorem between_of_relevant {i j : Nat} {b1 b2 : CompressedBlockMetadata Id}
    (first : blocks[i]? = some b1) (second : blocks[j]? = some b2) (less : i < j) :
    (spec.firstTriple ≤ b1.lastTriple ∧ b1.lastTriple ≤ spec.lastTriple) ∧
      (spec.firstTriple ≤ b2.firstTriple ∧ b2.firstTriple ≤ spec.lastTriple) := by
  have disjoint : b1.lastTriple < b2.firstTriple := pairwise_get ordered.disjoint first second less
  have relevant1 := relevant b1 (mem_of_getElem? first)
  have relevant2 := relevant b2 (mem_of_getElem? second)
  simp only [isRelevant,Bool.and_eq_true,Bool.not_eq_true',decide_eq_false_iff_not,not_lt] at relevant1 relevant2
  exact ⟨⟨relevant1.1,disjoint.le.trans relevant2.2⟩,relevant1.1.trans disjoint.le,relevant2.2⟩

theorem checkBlockConsistency_ok :
    checkBlockMetadataInvariantBlockConsistency blocks spec.firstFreeColIndex = .ok () := by
  apply forM_ok
  rintro ⟨⟨b1,b2⟩,i⟩ member
  obtain ⟨first,second⟩ := zip_drop_get member
  obtain ⟨last1,first2⟩ := between_of_relevant ordered relevant first second (Nat.lt_succ_self i)
  have consistent : b1.isConsistentWith b2 spec.firstFreeColIndex = true := by
    rw [CompressedBlockMetadata.isConsistentWith,getMaskedTriple_eq last1.1 last1.2,getMaskedTriple_eq first2.1 first2.2]
    simp
  rcases Nat.eq_zero_or_pos i with zero | positive
  · simp [checkConsistency,contractCheck,consistent,zero,bind,Except.bind,pure,Except.pure]
  · obtain ⟨length,_⟩ := List.getElem?_eq_some_iff.mp first
    have previous : blocks[i - 1]? = some blocks[i - 1] := List.getElem?_eq_getElem (by omega)
    obtain ⟨_,first1⟩ := between_of_relevant ordered relevant previous first (by omega)
    have constant : b1.containsInconsistentTriples spec.firstFreeColIndex = false := by
      rw [CompressedBlockMetadata.containsInconsistentTriples,getMaskedTriple_eq last1.1 last1.2,
        getMaskedTriple_eq first1.1 first1.2]
      simp
    simp [checkConsistency,contractCheck,consistent,constant,positive.ne',bind,Except.bind]

end

theorem makeScanSpecAndBlocks_ok (spec : ScanSpecification Id) {ranges : List (List (CompressedBlockMetadata Id))}
    (ordered : OrderedBlocks ranges.flatten) : makeScanSpecAndBlocks spec ranges =
      .ok ⟨spec,getRelevantBlocks spec ranges,((getRelevantBlocks spec ranges).map List.length).sum⟩ := by
  have relevant := getRelevantBlocks_flatten spec ordered
  have consistent : checkBlockMetadataInvariantBlockConsistency (getRelevantBlocks spec ranges).flatten spec.firstFreeColIndex =
      .ok () := by
    rw [relevant]
    exact checkBlockConsistency_ok (ordered.sublist filter_sublist) (fun block member => (mem_filter.mp member).2)
  simp only [makeScanSpecAndBlocks,checkOrder_ok ordered,consistent,bind,Except.bind,pure,Except.pure]

end Checks

end Qlever
