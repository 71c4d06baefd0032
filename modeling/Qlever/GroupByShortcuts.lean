import Qlever.ResultSizeOfScan
import Qlever.GroupBy
import Qlever.LimitOffsetClause
import Qlever.Library.Histogram

/-! The two shortcuts of `GroupByImpl.cpp` that answer a `GROUP BY` without its input: from the size of an index scan or the
statistics of the index, and from the cardinalities of the values that are joined with a full scan. The undefined ID is `⊥`.
-/
namespace Qlever.GroupByShortcuts
open Library GroupBy CompressedRelationReader List
variable {Id Variable : Type}

inductive ShortcutFailure
  | scan (failure : ScanFailure)
  | contractCheck
  deriving DecidableEq, Repr

/-- The numbers that are counted when the index is built, without the internal triples. -/
structure IndexStatistics where
  numTriples : Nat
  numSubjects : Nat
  numPredicates : Nat
  numObjects : Nat
  hasAllPermutations : Bool

/-- An index scan. A part of the triple is `none` if it is fixed. -/
structure IndexScan (Id Variable : Type) where
  permutation : Permutation
  subject : Option Variable
  predicate : Option Variable
  object : Option Variable
  additionalColumns : List Nat := []
  additionalVariables : List Variable := []
  scanSpecAndBlocks : ScanSpecAndBlocks Id
  limitOffset : LimitOffsetClause := {}

/-- The expression of an alias: the count of a variable, or anything else. -/
inductive AliasExpression (Id Variable : Type)
  | count (counted : Variable) (isDistinct : Bool)
  | other (expression : Alias Id)

structure GroupByImpl (Id Variable : Type) where
  groupByVariables : List Variable
  aliases : List (AliasExpression Id Variable)

section Scan

namespace IndexScan

def numVariables (scan : IndexScan Id Variable) : Nat := scan.subject.toList.length + scan.predicate.toList.length + scan.object.toList.length

def getResultWidth (scan : IndexScan Id Variable) : Nat := scan.numVariables + scan.additionalVariables.length

def graphsToFilter (scan : IndexScan Id Variable) : Option (List Id) := scan.scanSpecAndBlocks.scanSpec.graphsToFilter

def getPermutedTriple (scan : IndexScan Id Variable) : List (Option Variable) :=
  (finRange 3).map (fun i => [scan.subject,scan.predicate,scan.object].getD (scan.permutation.toKeyOrder.keys i.castSucc) none)

def getVariableColumnOrNullopt [DecidableEq Variable] (scan : IndexScan Id Variable) (name : Variable) : Option Nat :=
  (scan.getPermutedTriple.filterMap id ++ scan.additionalVariables).idxOf? name

section Read
variable [LinearOrder Id] [BoundedOrder Id] (scan : IndexScan Id Variable) (file : File Id) (divisor : Nat) (ltpb : LocatedTriplesPerBlock Id)

def getExactSize : Except ShortcutFailure Nat := (getResultSizeOfScan file divisor scan.scanSpecAndBlocks ltpb).mapError .scan

/-- The result of the scan, of which the LIMIT and OFFSET keep a slice. -/
def materializedIndexScan : Except ShortcutFailure (IdTable Id) := do
  let rows ← (CompressedRelationReader.scan file scan.scanSpecAndBlocks scan.additionalColumns ltpb).mapError .scan
  return scan.limitOffset.slice rows

end Read

end IndexScan

variable [DecidableEq Variable]

def getPermutationForThreeVariableTriple (scan : IndexScan Id Variable) (variableByWhichToSort variableThatMustBeContained : Variable) :
    Option Permutation :=
  if scan.graphsToFilter.isSome || scan.getResultWidth ≠ 3 then none
  else if some variableThatMustBeContained ∉ [scan.subject,scan.predicate,scan.object] then none
  else if some variableByWhichToSort = scan.subject then some .SPO
  else if some variableByWhichToSort = scan.predicate then some .POS
  else if some variableByWhichToSort = scan.object then some .OSP
  else none

def IndexStatistics.numDistinctCol0 (statistics : IndexStatistics) : Permutation → Except ShortcutFailure Nat
  | .SOP | .SPO => if statistics.hasAllPermutations then .ok statistics.numSubjects else .error .contractCheck
  | .OPS | .OSP => if statistics.hasAllPermutations then .ok statistics.numObjects else .error .contractCheck
  | .POS | .PSO => .ok statistics.numPredicates

def GroupByImpl.getVariableForCountOfSingleAlias (groupBy : GroupByImpl Id Variable) : Option (Variable × Bool) :=
  match groupBy.aliases with
  | [.count counted isDistinct] => some (counted,isDistinct)
  | _ => none

def GroupByImpl.getVariableForNonDistinctCountOfSingleAlias (groupBy : GroupByImpl Id Variable) : Option Variable :=
  match groupBy.getVariableForCountOfSingleAlias with
  | some (counted,false) => some counted
  | _ => none

end Scan

section Evaluation
variable [LinearOrder Id] [BoundedOrder Id] [Inhabited Id] [DecidableEq Variable] (makeFromInt : Nat → Id)

/-- The values that are counted: those of a column that are defined, and none for a variable without a column. -/
def countedValues (column : Option Nat) (isDistinct : Bool) (rows : IdTable Id) : List Id :=
  let values := match column with
    | some column => (rows.map (fun row => idAt row column)).filter (fun id => id ≠ ⊥)
    | none => []
  if isDistinct then values.dedup else values

def countAlias (column : Option Nat) (isDistinct : Bool) : Alias Id where
  Data := IdTable Id
  reset := []
  addValue data row := data ++ [row]
  evaluate rows _ := makeFromInt (countedValues column isDistinct rows).length
  evaluateAlias data _ _ := makeFromInt (countedValues column isDistinct data).length

def AliasExpression.toAlias (columns : Variable → Option Nat) : AliasExpression Id Variable → Alias Id
  | .count counted isDistinct => countAlias makeFromInt (columns counted) isDistinct
  | .other expression => expression

/-- The plain evaluation. The constructor removes grouped variables that have no column. -/
def GroupByImpl.evaluate (groupBy : GroupByImpl Id Variable) (columns : Variable → Option Nat) (rows : IdTable Id) : IdTable Id :=
  doGroupBy (groupBy.groupByVariables.map (fun name => (columns name).getD 0)) (groupBy.aliases.map (AliasExpression.toAlias makeFromInt columns)) rows

def GroupByImpl.computeGroupByForSingleIndexScan (groupBy : GroupByImpl Id Variable) (scan : IndexScan Id Variable) (statistics : IndexStatistics)
    (file : File Id) (divisor : Nat) (ltpb : LocatedTriplesPerBlock Id) : Except ShortcutFailure (Option (IdTable Id)) := do
  if (← scan.getExactSize file divisor ltpb) = 0 then return some []
  else if scan.getResultWidth ≤ 1 || scan.graphsToFilter.isSome || !groupBy.groupByVariables.isEmpty then return none
  else
    match groupBy.getVariableForCountOfSingleAlias with
    | none => return none
    | some (counted,countIsDistinct) =>
      if countIsDistinct && scan.getResultWidth ≠ 3 then return none
      else if (scan.getVariableColumnOrNullopt counted).isNone then return some [[makeFromInt 0]]
      else if scan.getResultWidth = 3 then
        if countIsDistinct then
          match getPermutationForThreeVariableTriple scan counted counted with
          | none => .error .contractCheck
          | some permutation => return some [[makeFromInt (← statistics.numDistinctCol0 permutation)]]
        else return some [[makeFromInt statistics.numTriples]]
      else return some [[makeFromInt (← scan.getExactSize file divisor ltpb)]]

/-- A child of the join. `rows` is its result. -/
structure Subtree (Id Variable : Type) [LinearOrder Id] [Inhabited Id] where
  indexScan : Option (IndexScan Id Variable)
  primarySortKeyVariable : Option Variable
  getVariableColumn : Variable → Nat
  rows : IdTable Id
  sorted : ∀ name,primarySortKeyVariable = some name → (rows.map (fun row => idAt row (getVariableColumn name))).Pairwise (· ≤ ·)

structure OptimizedGroupByData (Id Variable : Type) [LinearOrder Id] [Inhabited Id] where
  otherSubtree : Subtree Id Variable
  permutation : Permutation
  subtreeColumnIndex : Nat
  sorted : (otherSubtree.rows.map (fun row => idAt row subtreeColumnIndex)).Pairwise (· ≤ ·)

def OptimizedGroupByData.otherIds (data : OptimizedGroupByData Id Variable) : List Id :=
  data.otherSubtree.rows.map (fun row => idAt row data.subtreeColumnIndex)

/-- The check of one of the children, for the permutation that the other one gives. -/
def checkOtherSubtree (groupByVariable : Variable) (other : Subtree Id Variable) (permutation : Permutation) : Option (OptimizedGroupByData Id Variable) :=
  if isSortKey : other.primarySortKeyVariable = some groupByVariable then
    some ⟨other,permutation,other.getVariableColumn groupByVariable,other.sorted groupByVariable isSortKey⟩
  else none

def GroupByImpl.checkIfJoinWithFullScan (groupBy : GroupByImpl Id Variable) (child1 child2 : Subtree Id Variable) : Option (OptimizedGroupByData Id Variable) :=
  match groupBy.groupByVariables,groupBy.getVariableForNonDistinctCountOfSingleAlias with
  | [groupByVariable],some countedVariable =>
    match child1.indexScan.bind (getPermutationForThreeVariableTriple · groupByVariable countedVariable) with
    | some permutation => checkOtherSubtree groupByVariable child2 permutation
    | none =>
      match child2.indexScan.bind (getPermutationForThreeVariableTriple · groupByVariable countedVariable) with
      | some permutation => checkOtherSubtree groupByVariable child1 permutation
      | none => none
  | _,_ => none

/-- The variables of the loop over the rows of the other child. -/
structure CountState (Id : Type) where
  idTable : IdTable Id := []
  currentId : Id
  currentCount : Nat := 0
  currentCardinality : Nat

def pushRow (state : CountState Id) : IdTable Id :=
  if state.currentCount > 0 then state.idTable ++ [[state.currentId,makeFromInt state.currentCount]] else state.idTable

def addRow (getCardinality : Id → Nat) (columnIndex : Nat) (state : CountState Id) (row : List Id) : CountState Id :=
  let id := idAt row columnIndex
  let state := if id ≠ state.currentId then ⟨pushRow makeFromInt state,id,0,getCardinality id⟩ else state
  {state with currentCount := state.currentCount + state.currentCardinality}

/-- The loop of `computeGroupByForJoinWithFullScan` and the last `pushRow`. -/
def countsOfSubresult (getCardinality : Id → Nat) (columnIndex : Nat) (rows : IdTable Id) : IdTable Id :=
  match rows with
  | [] => []
  | first::_ =>
    let currentId := idAt first columnIndex
    pushRow makeFromInt (rows.foldl (addRow makeFromInt getCardinality columnIndex) ⟨[],currentId,0,getCardinality currentId⟩)

def GroupByImpl.computeGroupByForJoinWithFullScan (groupBy : GroupByImpl Id Variable) (getCardinality : Permutation → Id → Nat)
    (child1 child2 : Subtree Id Variable) : Option (IdTable Id) :=
  (groupBy.checkIfJoinWithFullScan child1 child2).map (fun data =>
    countsOfSubresult makeFromInt (getCardinality data.permutation) data.subtreeColumnIndex data.otherSubtree.rows)

end Evaluation

section PlainEvaluation
variable [LinearOrder Id] [Inhabited Id] {aliases : List (Alias Id)} {groupByCols : List Nat}

theorem doGroupBy_noColumns (rows : IdTable Id) : doGroupBy [] aliases rows = [evaluateAll (fun item => item.evaluate rows) aliases] := by
  rw [doGroupBy_eq_groupedRows]
  cases rows with
  | nil => rfl
  | cons first rest => simp [groupedRows,cut_noColumns,groupRow,keyOf]

theorem doGroupBy_eq_nil {rows : IdTable Id} : doGroupBy groupByCols aliases rows = [] ↔ rows = [] ∧ groupByCols ≠ [] := by
  rw [doGroupBy_eq_groupedRows]
  cases rows with
  | nil => cases groupByCols <;> simp [groupedRows]
  | cons first rest => simp [groupedRows]

/-- The group values and sizes of the groups of adjacent rows. -/
theorem groups_eq_joinRuns (column : Nat) (first : List Id) (opened rows : IdTable Id) :
    ((cut [column] first opened rows).1 ++ [(cut [column] first opened rows).2]).map (fun group => (idAt group.1 column,group.2.length)) =
      joinRuns ((idAt first column,opened.length)::rows.map (fun row => (idAt row column,1))) := by
  fun_induction cut [column] first opened rows with
  | case1 first opened => rfl
  | case2 first opened row rows same ih =>
    have sameId : idAt row column = idAt first column := by simpa [keyOf] using same
    rw [ih,length_append,map_cons,sameId,joinRuns_same,length_singleton]
  | case3 first opened row rows differs ih =>
    have different : idAt first column ≠ idAt row column := fun same => differs (by simp [keyOf,same])
    rw [map_cons,joinRuns_different (by exact different),cons_append,map_cons,ih,length_singleton]

theorem mem_of_mem_cut (first : List Id) (opened rows : IdTable Id) :
    ∀ group ∈ (cut groupByCols first opened rows).1 ++ [(cut groupByCols first opened rows).2],group.2 ⊆ opened ++ rows := by
  fun_induction cut groupByCols first opened rows with
  | case1 first opened => simp
  | case2 first opened row rows same ih => simpa [append_assoc] using ih
  | case3 first opened row rows differs ih =>
    intro group isGroup
    rcases mem_cons.mp isGroup with rfl | isLater
    · exact subset_append_left _ _
    · exact List.Subset.trans (ih group isLater) (subset_append_right opened (row::rows))

variable [BoundedOrder Id] {makeFromInt : Nat → Id}

theorem length_countedValues {column : Nat} {isDistinct : Bool} {rows : IdTable Id} (defined : ∀ row ∈ rows,idAt row column ≠ ⊥) :
    (countedValues (some column) isDistinct rows).length =
      if isDistinct then (rows.map (fun row => idAt row column)).dedup.length else rows.length := by
  have all : (rows.map (fun row => idAt row column)).filter (fun id => id ≠ ⊥) = rows.map (fun row => idAt row column) := by
    refine filter_eq_self.mpr (fun id isId => ?_)
    obtain ⟨row,isRow,rfl⟩ := List.mem_map.mp isId
    exact decide_eq_true (defined row isRow)
  cases isDistinct <;> simp only [countedValues,Bool.false_eq_true,if_false,if_true,all,length_map]

def entryRow (makeFromInt : Nat → Id) (entry : Id × Nat) : List Id := [entry.1,makeFromInt entry.2]

omit [LinearOrder Id] [Inhabited Id] [BoundedOrder Id] in
theorem entryRow_injective (injective : Function.Injective makeFromInt) : Function.Injective (entryRow makeFromInt) := by
  intro first second same
  obtain ⟨sameId,sameCount⟩ := cons_eq_cons.mp same
  exact Prod.ext sameId (injective (head_eq_of_cons_eq sameCount))

/-- The counts of the groups, for a counted variable that is always defined. -/
theorem doGroupBy_count {column counted : Nat} {rows : IdTable Id} (defined : ∀ row ∈ rows,idAt row counted ≠ ⊥) :
    doGroupBy [column] [countAlias makeFromInt (some counted) false] rows =
      (joinRuns (rows.map (fun row => (idAt row column,1)))).map (entryRow makeFromInt) := by
  rw [doGroupBy_eq_groupedRows]
  cases rows with
  | nil => rfl
  | cons first rest =>
    have groups := groups_eq_joinRuns column first [first] rest
    change _ = (joinRuns ((idAt first column,[first].length)::rest.map _)).map _
    rw [groupedRows,← groups,map_map,map_append]
    have members := @mem_of_mem_cut Id _ _ [column] first [first] rest
    have eachRow : ∀ group ∈ (cut [column] first [first] rest).1 ++ [(cut [column] first [first] rest).2],
        groupRow [column] [countAlias makeFromInt (some counted) false] group = entryRow makeFromInt (idAt group.1 column,group.2.length) := by
      intro group isGroup
      have length := @length_countedValues _ _ _ _ counted false group.2 (fun row isRow => defined row (members group isGroup isRow))
      simp [groupRow,keyOf,evaluateAll,countAlias,length,entryRow]
    rw [map_singleton]
    rw [eachRow _ (mem_append_right _ (mem_singleton_self _))]
    exact congrArg (· ++ _) (map_congr_left (fun group isGroup => eachRow group (mem_append_left _ isGroup)))

end PlainEvaluation

section SingleIndexScan
variable [LinearOrder Id] [BoundedOrder Id] [Inhabited Id] [DecidableEq Variable] {makeFromInt : Nat → Id} {groupBy : GroupByImpl Id Variable}
  {scan : IndexScan Id Variable} {statistics : IndexStatistics} {file : File Id} {divisor : Nat} {ltpb : LocatedTriplesPerBlock Id} {rows table : IdTable Id}

/-- The exact size is the number of rows. Without the graph column and without a LIMIT or OFFSET, it is a matter of the blocks. -/
def SizeKnown (scan : IndexScan Id Variable) (file : File Id) (divisor : Nat) (ltpb : LocatedTriplesPerBlock Id) (rows : IdTable Id) : Prop :=
  if scan.additionalColumns = [] ∧ scan.limitOffset.isUnconstrained = true then
    SizesKnown file ltpb scan.scanSpecAndBlocks.scanSpec (getBlockMetadataView scan.scanSpecAndBlocks)
  else scan.getExactSize file divisor ltpb = .ok rows.length

/-- The condition under which the first shortcut is right: an empty scan is grouped by a variable, and what is counted is still what the statistics
say, or the exact size. A variable that is not bound is always counted right. -/
def ScanShortcutRight (groupBy : GroupByImpl Id Variable) (scan : IndexScan Id Variable) (statistics : IndexStatistics) (file : File Id) (divisor : Nat)
    (ltpb : LocatedTriplesPerBlock Id) (rows : IdTable Id) : Prop :=
  if scan.getExactSize file divisor ltpb = .ok 0 then rows = [] ∧ groupBy.groupByVariables ≠ []
  else ∀ counted isDistinct column,groupBy.getVariableForCountOfSingleAlias = some (counted,isDistinct) →
    scan.getVariableColumnOrNullopt counted = some column →
      if scan.getResultWidth ≠ 3 then SizeKnown scan file divisor ltpb rows
      else if isDistinct then ∀ permutation,getPermutationForThreeVariableTriple scan counted counted = some permutation →
        statistics.numDistinctCol0 permutation = .ok (rows.map (fun row => idAt row column)).dedup.length
      else statistics.numTriples = rows.length

theorem mapError_eq_ok {ε δ α : Type} {result : Except ε α} {f : ε → δ} {value : α} : result.mapError f = .ok value ↔ result = .ok value := by
  cases result <;> simp [Except.mapError]

omit [Inhabited Id] [DecidableEq Variable] in
theorem sizeKnown_iff (blocks : ScanBlocks file ltpb scan.scanSpecAndBlocks.scanSpec (getBlockMetadataView scan.scanSpecAndBlocks))
    (materialized : scan.materializedIndexScan file ltpb = .ok rows) :
    SizeKnown scan file divisor ltpb rows ↔ scan.getExactSize file divisor ltpb = .ok rows.length := by
  rw [SizeKnown]
  split
  next plain =>
    rw [← @sizeAgrees_iff_of_scan _ _ _ file ltpb scan.scanSpecAndBlocks divisor _ blocks rfl,SizeAgrees,IndexScan.getExactSize,mapError_eq_ok]
    rw [IndexScan.materializedIndexScan,bind_eq_ok] at materialized
    obtain ⟨all,scanned,sliced⟩ := materialized
    rw [mapError_eq_ok,plain.1] at scanned
    have whole : all = rows := by
      have same := pure_eq_ok.mp sliced
      have unlimited := plain.2
      simp only [LimitOffsetClause.isUnconstrained,Bool.and_eq_true,Option.isNone_iff_eq_none,decide_eq_true_eq] at unlimited
      rw [← same,LimitOffsetClause.slice,unlimited.1,unlimited.2]
      exact drop_zero.symm
    subst whole
    constructor
    · rintro ⟨tables,-,asTable,size⟩
      rw [size,Except.ok.inj (scanned.symm.trans asTable)]
    · intro size
      rw [CompressedRelationReader.scan,bind_eq_ok] at scanned
      obtain ⟨tables,lazily,flat⟩ := scanned
      obtain rfl := pure_eq_ok.mp flat
      refine ⟨tables,lazily,?_,size⟩
      rw [CompressedRelationReader.scan,lazily]
      rfl
  next => exact Iff.rfl

omit [DecidableEq Variable] in
/-- The count of a variable by the plain evaluation without grouping. -/
theorem evaluate_count {counted : Variable} {isDistinct : Bool} {columns : Variable → Option Nat} (noVariables : groupBy.groupByVariables = [])
    (single : groupBy.getVariableForCountOfSingleAlias = some (counted,isDistinct)) (rows : IdTable Id) :
    groupBy.evaluate makeFromInt columns rows = [[makeFromInt (countedValues (columns counted) isDistinct rows).length]] := by
  obtain ⟨names,aliases⟩ := groupBy
  obtain rfl : names = [] := noVariables
  rw [GroupByImpl.getVariableForCountOfSingleAlias] at single
  split at single
  next isAlias =>
    cases single
    change aliases = _ at isAlias
    subst isAlias
    exact doGroupBy_noColumns rows
  next => cases single

section
omit [LinearOrder Id] [BoundedOrder Id] [Inhabited Id]

theorem singleCell_inj (injective : Function.Injective makeFromInt) {first second : Nat} : [[makeFromInt first]] = [[makeFromInt second]] ↔ first = second := by
  rw [singleton_inj,singleton_inj,injective.eq_iff]

/-- There is only one counted variable and only one column. -/
theorem onlyCount {counted : Variable} {isDistinct : Bool} {column : Nat} {holds : Variable → Bool → Nat → Prop}
    (isColumn : scan.getVariableColumnOrNullopt counted = some column) :
    (∀ counted' isDistinct' column',some (counted,isDistinct) = some (counted',isDistinct') → scan.getVariableColumnOrNullopt counted' = some column' →
      holds counted' isDistinct' column') ↔ holds counted isDistinct column := by
  constructor
  · exact fun all => all counted isDistinct column rfl isColumn
  · intro right counted' isDistinct' column' same isColumn'
    obtain ⟨rfl,rfl⟩ := Prod.mk.inj (Option.some.inj same)
    rw [← Option.some.inj (isColumn.symm.trans isColumn')]
    exact right

end

/-- If the first shortcut gives a table, it is that of the plain evaluation exactly under the condition. -/
theorem scanShortcut_agrees_iff (injective : Function.Injective makeFromInt)
    (blocks : ScanBlocks file ltpb scan.scanSpecAndBlocks.scanSpec (getBlockMetadataView scan.scanSpecAndBlocks))
    (materialized : scan.materializedIndexScan file ltpb = .ok rows)
    (defined : ∀ name column,scan.getVariableColumnOrNullopt name = some column → ∀ row ∈ rows,idAt row column ≠ ⊥)
    (computed : groupBy.computeGroupByForSingleIndexScan makeFromInt scan statistics file divisor ltpb = .ok (some table)) :
    table = groupBy.evaluate makeFromInt scan.getVariableColumnOrNullopt rows ↔ ScanShortcutRight groupBy scan statistics file divisor ltpb rows := by
  rw [GroupByImpl.computeGroupByForSingleIndexScan,bind_eq_ok] at computed
  obtain ⟨size,isSize,computed⟩ := computed
  have isEmpty : scan.getExactSize file divisor ltpb = .ok 0 ↔ size = 0 := by rw [isSize,Except.ok.injEq]
  unfold ScanShortcutRight
  split at computed
  next empty =>
    obtain rfl := Option.some.inj (Except.ok.inj computed)
    rw [if_pos (isEmpty.mpr empty),eq_comm,GroupByImpl.evaluate,doGroupBy_eq_nil,ne_eq,map_eq_nil_iff]
  next nonempty =>
    rw [if_neg (isEmpty.not.mpr nonempty)]
    split at computed
    next => cases computed
    next suited =>
      have noVariables : groupBy.groupByVariables = [] := by
        simp only [Bool.or_eq_true,Bool.not_eq_true',not_or,Bool.not_eq_false,List.isEmpty_iff] at suited
        exact suited.2
      split at computed
      next => cases computed
      next counted isDistinct single =>
        rw [evaluate_count noVariables single]
        split at computed
        next => cases computed
        next =>
          rw [single]
          cases isColumn : scan.getVariableColumnOrNullopt counted with
          | none =>
            simp only [isColumn,Option.isNone_none,if_true] at computed
            obtain rfl := Option.some.inj (Except.ok.inj computed)
            have noValues : (countedValues (none : Option Nat) isDistinct rows).length = 0 := by cases isDistinct <;> rfl
            refine iff_of_true (by rw [noValues]) (fun counted' isDistinct' column same isColumn' => ?_)
            obtain ⟨rfl,rfl⟩ := Prod.mk.inj (Option.some.inj same)
            cases isColumn.symm.trans isColumn'
          | some column =>
            simp only [isColumn,Option.isNone_some,Bool.false_eq_true,if_false] at computed
            rw [length_countedValues (defined counted column isColumn),onlyCount isColumn]
            by_cases threeColumns : scan.getResultWidth = 3
            · rw [if_neg (not_not.mpr threeColumns)]
              rw [if_pos threeColumns] at computed
              cases isDistinct with
              | false =>
                obtain rfl := Option.some.inj (Except.ok.inj computed)
                exact singleCell_inj injective
              | true =>
                simp only [if_true] at computed ⊢
                split at computed
                next => cases computed
                next permutation isPermutation =>
                  obtain ⟨number,isNumber,result⟩ := bind_eq_ok.mp computed
                  obtain rfl := Option.some.inj (Except.ok.inj result)
                  rw [singleCell_inj injective]
                  constructor
                  · rintro rfl permutation' same
                    rw [← Option.some.inj (isPermutation.symm.trans same),isNumber]
                  · intro all
                    exact Except.ok.inj (isNumber.symm.trans (all permutation isPermutation))
            · rw [if_pos threeColumns,sizeKnown_iff blocks materialized,isSize,Except.ok.injEq]
              rw [if_neg threeColumns,isSize] at computed
              obtain rfl := Option.some.inj (Except.ok.inj computed)
              cases isDistinct with
              | true => exact absurd threeColumns (by simpa using ‹¬(true && decide (scan.getResultWidth ≠ 3)) = true›)
              | false => exact singleCell_inj injective

end SingleIndexScan

section JoinWithFullScan
variable [LinearOrder Id] [Inhabited Id] {makeFromInt : Nat → Id}

section
variable (getCardinality : Id → Nat) (columnIndex : Nat) (rows : IdTable Id)

theorem foldl_addRow (state : CountState Id)
    (current : state.currentCardinality = getCardinality state.currentId) :
    pushRow makeFromInt (rows.foldl (addRow makeFromInt getCardinality columnIndex) state) = state.idTable ++
      ((joinRuns ((state.currentId,state.currentCount)::rows.map (fun row => (idAt row columnIndex,getCardinality (idAt row columnIndex))))).filter
        (fun entry => 0 < entry.2)).map (entryRow makeFromInt) := by
  induction rows generalizing state with
  | nil =>
    by_cases positive : 0 < state.currentCount <;> simp [pushRow,joinRuns,positive,entryRow]
  | cons row rows ih =>
    have stays : (addRow makeFromInt getCardinality columnIndex state row).currentCardinality =
        getCardinality (addRow makeFromInt getCardinality columnIndex state row).currentId := by
      by_cases same : idAt row columnIndex = state.currentId <;> simp [addRow,same,current]
    rw [foldl_cons,ih _ stays,map_cons]
    by_cases same : idAt row columnIndex = state.currentId
    · simp [addRow,same,joinRuns_same,current]
    · rw [joinRuns_different (by exact fun equal => same equal.symm)]
      by_cases positive : 0 < state.currentCount <;> simp [addRow,same,pushRow,positive,entryRow]

theorem countsOfSubresult_eq :
    countsOfSubresult makeFromInt getCardinality columnIndex rows =
      ((joinRuns (rows.map (fun row => (idAt row columnIndex,getCardinality (idAt row columnIndex))))).filter (fun entry => 0 < entry.2)).map
        (entryRow makeFromInt) := by
  cases rows with
  | nil => rfl
  | cons first rest =>
    rw [countsOfSubresult,foldl_addRow getCardinality columnIndex _ _ rfl,map_cons,joinRuns_same,Nat.zero_add]
    rfl

end

variable [BoundedOrder Id] [DecidableEq Variable] {groupBy : GroupByImpl Id Variable} {child1 child2 : Subtree Id Variable} {data : OptimizedGroupByData Id Variable}

/-- The values of the join column: a row with an undefined value is joined with every row of the scan. -/
def joinedIds (scanIds otherIds : List Id) : List Id :=
  (otherIds.flatMap (fun id => if id = ⊥ then scanIds else scanIds.filter (fun other => other = id))).mergeSort (· ≤ ·)

/-- The result of the join, by the columns that are grouped and counted. The counted variable is one of the scan. -/
structure MaterializedJoin (groupBy : GroupByImpl Id Variable) (limitOffset : LimitOffsetClause) (columns : Variable → Option Nat)
    (scanIds otherIds : List Id) (joined : IdTable Id) : Prop where
  grouped : ∀ name ∈ groupBy.groupByVariables,∃ column,columns name = some column ∧
    joined.map (fun row => idAt row column) = limitOffset.slice (joinedIds scanIds otherIds)
  counted : ∀ name,groupBy.getVariableForNonDistinctCountOfSingleAlias = some name → ∃ column,columns name = some column ∧ ∀ row ∈ joined,idAt row column ≠ ⊥

omit [Inhabited Id] in
theorem joinedIds_sorted (limitOffset : LimitOffsetClause) (scanIds otherIds : List Id) :
    (limitOffset.slice (joinedIds scanIds otherIds)).Pairwise (· ≤ ·) := by
  have sorted : (joinedIds scanIds otherIds).Pairwise (· ≤ ·) := pairwise_mergeSort' _ _
  unfold LimitOffsetClause.slice
  cases limitOffset.limit with
  | none => exact sorted.sublist (drop_sublist _ _)
  | some limit => exact sorted.sublist ((take_sublist _ _).trans (drop_sublist _ _))

omit [LinearOrder Id] [Inhabited Id] [BoundedOrder Id] [DecidableEq Variable] in
theorem aliases_of_count {names : List Variable} {aliases : List (AliasExpression Id Variable)} {counted : Variable}
    (isCounted : (GroupByImpl.mk names aliases).getVariableForNonDistinctCountOfSingleAlias = some counted) : aliases = [.count counted false] := by
  rw [GroupByImpl.getVariableForNonDistinctCountOfSingleAlias] at isCounted
  split at isCounted
  next counted' single =>
    obtain rfl := Option.some.inj isCounted
    rw [GroupByImpl.getVariableForCountOfSingleAlias] at single
    split at single
    next isAlias =>
      obtain ⟨rfl,rfl⟩ := Prod.mk.inj (Option.some.inj single)
      exact isAlias
    next => cases single
  next => cases isCounted

/-- The second shortcut is right if and only if the join has as many rows for each value as the cardinalities say. -/
theorem joinShortcut_agrees_iff (injective : Function.Injective makeFromInt) {getCardinality : Permutation → Id → Nat} {limitOffset : LimitOffsetClause}
    {columns : Variable → Option Nat} {scanIds otherIds : List Id} {joined : IdTable Id} (checked : groupBy.checkIfJoinWithFullScan child1 child2 = some data)
    (isOther : data.otherSubtree.rows.map (fun row => idAt row data.subtreeColumnIndex) = otherIds)
    (cardinality : ∀ id,getCardinality data.permutation id = scanIds.count id)
    (materialized : MaterializedJoin groupBy limitOffset columns scanIds otherIds joined) :
    groupBy.computeGroupByForJoinWithFullScan makeFromInt getCardinality child1 child2 = some (groupBy.evaluate makeFromInt columns joined) ↔
      ∀ id,(limitOffset.slice (joinedIds scanIds otherIds)).count id = otherIds.count id * scanIds.count id := by
  rw [GroupByImpl.computeGroupByForJoinWithFullScan,checked,Option.map_some,Option.some_inj,countsOfSubresult_eq]
  subst isOther
  obtain ⟨names,aliases⟩ := groupBy
  rw [GroupByImpl.checkIfJoinWithFullScan] at checked
  split at checked
  next groupByVariable countedVariable isGrouped isCounted =>
    change names = [groupByVariable] at isGrouped
    subst isGrouped
    obtain ⟨column,isColumn,ids⟩ := materialized.grouped groupByVariable (mem_singleton_self _)
    obtain ⟨countedColumn,isCountedColumn,defined⟩ := materialized.counted countedVariable isCounted
    obtain rfl := aliases_of_count isCounted
    have plain : GroupByImpl.evaluate makeFromInt ⟨[groupByVariable],[.count countedVariable false]⟩ columns joined =
        doGroupBy [column] [countAlias makeFromInt (some countedColumn) false] joined := by
      simp [GroupByImpl.evaluate,AliasExpression.toAlias,isColumn,isCountedColumn]
    have ones : joined.map (fun row => (idAt row column,1)) = (joined.map (fun row => idAt row column)).map (fun id => (id,1)) := by
      rw [map_map]
      rfl
    have sorted := joinedIds_sorted limitOffset scanIds (data.otherSubtree.rows.map (fun row => idAt row data.subtreeColumnIndex))
    have weights : data.otherSubtree.rows.map (fun row => (idAt row data.subtreeColumnIndex,getCardinality data.permutation (idAt row data.subtreeColumnIndex))) =
        (data.otherSubtree.rows.map (fun row => idAt row data.subtreeColumnIndex)).map (fun id => (id,getCardinality data.permutation id)) := by
      rw [map_map]
      rfl
    rw [plain,doGroupBy_count defined,ones,ids,(map_injective_iff.mpr (entryRow_injective injective)).eq_iff,← joinRuns_ones sorted,weights,
      joinRuns_positive_eq_iff (by rw [map_fst_weights]; exact data.sorted) (by rw [map_fst_weights]; exact sorted)]
    refine forall_congr' (fun id => ?_)
    rw [total_weights,total_ones,cardinality,eq_comm]
  next => cases checked

omit [Inhabited Id] in
theorem count_joinedIds (scanIds otherIds : List Id) (id : Id) :
    (joinedIds scanIds otherIds).count id = ((if id = ⊥ then 0 else otherIds.count id) + otherIds.count ⊥) * scanIds.count id := by
  rw [joinedIds,(mergeSort_perm _ _).count_eq]
  induction otherIds with
  | nil => simp
  | cons other otherIds ih =>
    rw [flatMap_cons,count_append,ih,count_cons,count_cons]
    by_cases undefined : other = ⊥
    · subst undefined
      by_cases isUndefined : id = ⊥
      · simp [isUndefined,Nat.add_mul,Nat.add_comm]
      · simp [isUndefined,Ne.symm isUndefined,Nat.add_mul,Nat.add_comm,Nat.add_left_comm]
    · by_cases same : other = id
      · subst same
        simp [undefined,List.count_filter,Nat.add_mul,Nat.add_comm,Nat.add_left_comm]
      · have absent : (scanIds.filter (fun scanId => scanId = other)).count id = 0 := by
          rw [count_eq_zero]
          exact fun member => same (of_decide_eq_true (mem_filter.mp member).2).symm
        simp [undefined,same,absent]

omit [Inhabited Id] in
/-- Without a LIMIT or OFFSET, the cardinalities are right if no value of the other child is undefined. -/
theorem count_joinedIds_iff {scanIds otherIds : List Id} {limitOffset : LimitOffsetClause} (unconstrained : limitOffset.isUnconstrained = true)
    (defined : ⊥ ∉ scanIds) : (∀ id,(limitOffset.slice (joinedIds scanIds otherIds)).count id = otherIds.count id * scanIds.count id) ↔
      ⊥ ∉ otherIds ∨ scanIds = [] := by
  simp only [LimitOffsetClause.isUnconstrained,Bool.and_eq_true,Option.isNone_iff_eq_none,decide_eq_true_eq] at unconstrained
  simp only [LimitOffsetClause.slice,unconstrained.1,unconstrained.2,drop_zero,count_joinedIds]
  constructor
  · intro counts
    by_contra wrong
    obtain ⟨undefined,someIds⟩ := not_or.mp wrong
    obtain ⟨id,isId⟩ := exists_mem_of_ne_nil _ someIds
    have isDefined : id ≠ ⊥ := ne_of_mem_of_not_mem isId defined
    have count := counts id
    rw [if_neg isDefined,Nat.add_mul] at count
    have extra := Nat.mul_pos (count_pos_iff.mpr (not_not.mp undefined)) (count_pos_iff.mpr isId)
    omega
  · rintro (noUndefined | rfl) id
    · by_cases isUndefined : id = ⊥
      · rw [isUndefined,count_eq_zero.mpr defined,Nat.mul_zero,Nat.mul_zero]
      · rw [if_neg isUndefined,count_eq_zero.mpr noUndefined,Nat.add_zero]
    · rw [count_nil,Nat.mul_zero,Nat.mul_zero]

end JoinWithFullScan

section Shortcuts
variable [LinearOrder Id] [BoundedOrder Id] [Inhabited Id] [DecidableEq Variable] {makeFromInt : Nat → Id}

end Shortcuts

section EmptyIndex

/-- A scan of an empty index. -/
def emptyScan : IndexScan (WithTop Nat) Nat := {
  permutation := .SPO
  subject := some 0
  predicate := some 1
  object := some 2
  scanSpecAndBlocks := ⟨.allColumns none,[],0⟩ }

def countObjects : GroupByImpl (WithTop Nat) Nat := ⟨[0],[.count 1 false]⟩

def twoRows : IdTable (WithTop Nat) := replicate 2 [WithTop.some 1,WithTop.some 2]

def fullScanChild : Subtree (WithTop Nat) Nat := ⟨some emptyScan,none,id,[],by simp⟩

def otherChild : Subtree (WithTop Nat) Nat := ⟨none,some 0,id,twoRows,fun _ _ => by simp [twoRows,replicate]⟩

end EmptyIndex

end Qlever.GroupByShortcuts
