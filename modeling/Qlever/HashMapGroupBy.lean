import Qlever.GroupBy

/-! The `GROUP BY` with a hash map of `GroupByImpl.cpp`, which is left for a sort-based one when there are too many groups. The
aggregates are those of `GroupByHashMapOptimization.h` and, for whole groups, those of `AggregateExpression.h`.
-/
namespace Qlever.GroupBy

/-- What the aggregates use of IDs: integers (without a bound), and the comparison of `MIN` and `MAX`, which is the one of the
ranks. -/
structure IdOperations (Id κ : Type) where
  undefined : Id
  isValid : Id → Bool
  getInt : Id → Int
  makeFromInt : Int → Id
  rank : Id → κ
  isValid_makeFromInt : ∀ value, isValid (makeFromInt value) = true
  getInt_makeFromInt : ∀ value, getInt (makeFromInt value) = value
  rank_makeFromInt : ∀ value other, rank (makeFromInt value) = rank (makeFromInt other) → value = other

inductive AggregateFunction
  | count
  | sum
  | min
  | max
  deriving DecidableEq, Repr

structure Aggregate (Id : Type) where
  function : AggregateFunction
  child : List Id → Id

section Aggregates
variable {Id κ : Type} [LinearOrder κ] (ops : IdOperations Id κ)

/-- The value that `CountExpression` or `SumExpression` adds for a row. -/
def summand (aggregate : Aggregate Id) (row : List Id) : Int :=
  if aggregate.function = .count then (if ops.isValid (aggregate.child row) then 1 else 0) else ops.getInt (aggregate.child row)

/-- `minMaxLambdaForAllTypes`. -/
def minMax (function : AggregateFunction) (first second : Id) : Id :=
  if function = .min then (if ops.rank first < ops.rank second then first else second)
  else (if ops.rank second < ops.rank first then first else second)

/-- The aggregates `COUNT` and `SUM`. -/
def additive (aggregate : Aggregate Id) : Alias Id where
  Data := Int
  reset := 0
  addValue data row := data + summand ops aggregate row
  evaluate rows _ := match rows with
    | [] => ops.makeFromInt 0
    | row::rows => ops.makeFromInt (rows.foldl (fun result next => result + summand ops aggregate next) (summand ops aggregate row))
  evaluateAlias data _ _ := ops.makeFromInt data

/-- The aggregates `MIN` and `MAX`. -/
def extremum (aggregate : Aggregate Id) : Alias Id where
  Data := Option Id
  reset := none
  addValue data row := match data with
    | none => some (aggregate.child row)
    | some current => some (minMax ops aggregate.function (aggregate.child row) current)
  evaluate rows _ := match rows with
    | [] => ops.undefined
    | row::rows => rows.foldl (fun result next => minMax ops aggregate.function result (aggregate.child next)) (aggregate.child row)
  evaluateAlias data _ _ := data.getD ops.undefined

def Aggregate.toAlias (aggregate : Aggregate Id) : Alias Id :=
  match aggregate.function with
  | .count | .sum => additive ops aggregate
  | .min | .max => extremum ops aggregate

end Aggregates

inductive SubResults (Id : Type)
  | materialized (table : IdTable Id)
  | lazily (blocks : List (IdTable Id))

def SubResults.rows {Id : Type} : SubResults Id → IdTable Id
  | materialized table => table
  | lazily blocks => blocks.flatten

/-- The value of `singleBlock`, and the blocks that the loop sees. For a lazy sequence `std::ranges::next(beginIt)` advances the
sequence itself. -/
def SubResults.begin {Id : Type} : SubResults Id → Bool × List (IdTable Id)
  | materialized table => (true,[table])
  | lazily blocks => (decide (blocks.length ≤ 1),blocks.tail)

section HashMap
variable {Id : Type} [LinearOrder Id] [Inhabited Id]

/-- The map from the values of a group to its index, and for each alias a vector with the data of all groups. -/
structure HashMapAggregationData (aliases : List (Alias Id)) where
  map : List (List Id × Nat)
  vectors : (i : Fin aliases.length) → List (aliases.get i).Data

namespace HashMapAggregationData
variable {aliases : List (Alias Id)}

def empty (aliases : List (Alias Id)) : HashMapAggregationData aliases := ⟨[],fun _ => []⟩

def getNumberOfGroups (data : HashMapAggregationData aliases) : Nat := data.map.length

def tryEmplace (map : List (List Id × Nat)) (key : List Id) : List (List Id × Nat) × Nat :=
  match map.lookup key with
  | some index => (map,index)
  | none => (map ++ [(key,map.length)],map.length)

def emplaceAll : List (List Id) → List (List Id × Nat) → List (List Id × Nat) × List Nat
  | [],map => (map,[])
  | key::keys,map => ((emplaceAll keys (tryEmplace map key).1).1,(tryEmplace map key).2::(emplaceAll keys (tryEmplace map key).1).2)

omit [LinearOrder Id] [Inhabited Id] in
def resize {α : Type} (vector : List α) (size : Nat) (value : α) : List α := vector ++ List.replicate (size - vector.length) value

def getHashEntries (keys : List (List Id)) (data : HashMapAggregationData aliases) : HashMapAggregationData aliases × List Nat :=
  let (map,entries) := emplaceAll keys data.map
  (⟨map,fun i => resize (data.vectors i) map.length (aliases.get i).reset⟩,entries)

/-- The rows of a part of a block with up to `GROUP_BY_HASH_MAP_BLOCK_SIZE` rows. -/
def addRows (columnIndices : List Nat) (rows : IdTable Id) (data : HashMapAggregationData aliases) : HashMapAggregationData aliases :=
  let (data,entries) := getHashEntries (rows.map (keyOf columnIndices)) data
  {data with vectors := fun i => (rows.zip entries).foldl (fun vector pair => vector.modify pair.2 (fun old => (aliases.get i).addValue old pair.1)) (data.vectors i)}

end HashMapAggregationData

def groupByHashMapBlockSize : Nat := 262144

omit [LinearOrder Id] [Inhabited Id] in
/-- The parts of a block, for at most `fuel` parts. -/
def blockParts (size : Nat) : Nat → IdTable Id → List (IdTable Id)
  | 0,_ => []
  | fuel + 1,rows => if rows.isEmpty then [] else rows.take size::blockParts size fuel (rows.drop size)

variable {aliases : List (Alias Id)} (columnIndices : List Nat)

def addTable (table : IdTable Id) (data : HashMapAggregationData aliases) : HashMapAggregationData aliases :=
  (blockParts groupByHashMapBlockSize table.length table).foldl (fun data rows => data.addRows columnIndices rows) data

/-- The loop over the blocks, which ends early with the remaining blocks when there are too many groups. -/
def addBlocks (groupThreshold : Nat) (singleBlock : Bool) : List (IdTable Id) → HashMapAggregationData aliases →
    HashMapAggregationData aliases × Option (List (IdTable Id))
  | [],data => (data,none)
  | block::blocks,data =>
    if !singleBlock && groupThreshold < (addTable columnIndices block data).getNumberOfGroups then (addTable columnIndices block data,some blocks)
    else addBlocks groupThreshold singleBlock blocks (addTable columnIndices block data)

/-- `getHashMapAggregationResults` for one group and one alias. -/
def getHashMapAggregationResult (data : HashMapAggregationData aliases) (key previous : List Id) (i : Fin aliases.length) : Id :=
  (aliases.get i).evaluateAlias ((data.vectors i).getD ((data.map.lookup key).getD 0) (aliases.get i).reset) key previous

def createResultFromHashMap (data : HashMapAggregationData aliases) : IdTable Id :=
  ((data.map.map Prod.fst).insertionSort (· ≤ ·)).map (fun key =>
    key ++ (List.finRange aliases.length).foldl (fun previous i => previous ++ [getHashMapAggregationResult data key previous i]) [])

omit [Inhabited Id] in
def compareColumns : List Nat → List Id → List Id → Option Ordering
  | [],_,_ => some .eq
  | column::columns,left,right =>
    match left[column]?,right[column]? with
    | some first,some second => if first < second then some .lt else if second < first then some .gt else compareColumns columns left right
    | _,_ => none

omit [Inhabited Id] in
/-- `std::sort` by the given columns. The result is unspecified if a comparison reads a column that does not exist, or if
different rows compare equal. -/
def sortByColumns (table : IdTable Id) : Option (IdTable Id) :=
  if table.Pairwise (fun left right => compareColumns columnIndices left right ≠ none ∧ (left = right ∨ compareColumns columnIndices left right ≠ some .eq)) then
    some (table.insertionSort (fun left right => compareColumns columnIndices left right ≠ some .gt))
  else none

def aggregateTailBlocks (aliases : List (Alias Id)) (tailBlocks : List (IdTable Id)) : IdTable Id :=
  if tailBlocks.isEmpty then [] else doGroupBy columnIndices aliases tailBlocks.flatten

variable {κ : Type} (ops : IdOperations Id κ)

omit [LinearOrder Id] [Inhabited Id] in
def addAggregates (numGroupCols : Nat) (partialRow tailRow : List Id) : List Id :=
  partialRow.take numGroupCols ++ List.zipWith (fun first second => ops.makeFromInt (ops.getInt first + ops.getInt second))
    (partialRow.drop numGroupCols) (tailRow.drop numGroupCols)

omit [Inhabited Id] in
/-- The merge of the partial result and the tail by the first `numGroupCols` columns. -/
def mergeRows (numGroupCols : Nat) : IdTable Id → IdTable Id → IdTable Id
  | [],tail => tail
  | partialRow::rest,tail => mergeTail partialRow rest (mergeRows numGroupCols rest) tail
where
  mergeTail (partialRow : List Id) (rest : IdTable Id) (mergeRest : IdTable Id → IdTable Id) : IdTable Id → IdTable Id
  | [] => partialRow::rest
  | tailRow::tail =>
    if partialRow.take numGroupCols = tailRow.take numGroupCols then addAggregates ops numGroupCols partialRow tailRow::mergeRest tail
    else if partialRow.take numGroupCols < tailRow.take numGroupCols then partialRow::mergeRest (tailRow::tail)
    else tailRow::mergeTail partialRow rest mergeRest tail

def mergeSortedTailIntoPartial (aliases : List (Alias Id)) (partialResult : IdTable Id) (tailBlocks : List (IdTable Id)) : Option (IdTable Id) := do
  let aggregatedTailData ← sortByColumns columnIndices (aggregateTailBlocks columnIndices aliases tailBlocks)
  if aggregatedTailData.isEmpty then return partialResult
  else if partialResult.isEmpty then return aggregatedTailData
  else return mergeRows ops columnIndices.length partialResult aggregatedTailData

end HashMap

variable {Id κ : Type} [LinearOrder Id] [Inhabited Id] [LinearOrder κ]

def computeGroupByForHashMapOptimization (ops : IdOperations Id κ) (columnIndices : List Nat) (aggregates : List (Aggregate Id))
    (groupThreshold : Nat) (subresults : SubResults Id) : Option (IdTable Id) :=
  let aliases := aggregates.map (·.toAlias ops)
  let (singleBlock,blocks) := subresults.begin
  let (data,tailBlocks) := addBlocks columnIndices groupThreshold singleBlock blocks (HashMapAggregationData.empty aliases)
  match tailBlocks with
  | none => some (createResultFromHashMap data)
  | some tailBlocks => mergeSortedTailIntoPartial columnIndices ops aliases (createResultFromHashMap data) tailBlocks

end Qlever.GroupBy
