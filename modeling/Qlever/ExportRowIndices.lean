import Qlever.ApplyLimitOffset

/-! The rows of a result that are exported, `ExportQueryExecutionTrees::getRowIndices`. The result is `none` if a check fires or a 64-bit number
wraps.
-/
namespace Qlever.ExportQueryExecutionTrees
open Result List
variable {Row : Type}

/-- A result as its tables. The total number of rows is a 64-bit number. -/
structure DeliveredResult (Row : Type) where
  idTables : List (List Row)
  numRows_lt : idTables.flatten.length < 2 ^ 64

structure TableWithRange (Row : Type) where
  table : List Row
  rangeBegin : Nat
  numRows : Nat

def TableWithRange.rows (range : TableWithRange Row) : List Row := (range.table.drop range.rangeBegin).take range.numRows

def yieldRows (table : List Row) (rangeBegin numRows : Nat) : List (TableWithRange Row) := if numRows > 0 then [⟨table,rangeBegin,numRows⟩] else []

def checkedAdd (first second : Nat) : Option Nat := if first + second < 2 ^ 64 then some (first + second) else none

def reduceLimit (limit subtrahend : Nat) : Option Nat :=
  if limit ≠ 2 ^ 64 - 1 then
    if limit > subtrahend then checkedSub limit subtrahend else some 0
  else some limit

/-- The loop over the tables. -/
def getRowIndicesOfTables (effectiveOffset effectiveLimit effectiveExportLimit resultSize : Nat) : List (List Row) → Option (List (TableWithRange Row) × Nat)
  | [] => some ([],resultSize)
  | table::tables => do
    let currentBlockSize := table.length
    if effectiveOffset ≥ currentBlockSize then
      getRowIndicesOfTables (← checkedSub effectiveOffset currentBlockSize) effectiveLimit effectiveExportLimit resultSize tables
    else
      guard (effectiveLimit > 0)
      let rangeBegin := effectiveOffset
      let numRowsToBeExported := min effectiveExportLimit (← checkedSub currentBlockSize rangeBegin)
      let numRowsToBeCounted := min effectiveLimit (← checkedSub currentBlockSize rangeBegin)
      guard ((← checkedAdd rangeBegin numRowsToBeExported) ≤ currentBlockSize)
      guard ((← checkedAdd rangeBegin numRowsToBeCounted) ≤ currentBlockSize)
      guard (numRowsToBeCounted > 0)
      let yielded := yieldRows table rangeBegin numRowsToBeExported
      let resultSize ← checkedAdd resultSize numRowsToBeCounted
      let effectiveLimit ← reduceLimit effectiveLimit numRowsToBeCounted
      let effectiveExportLimit ← reduceLimit effectiveExportLimit numRowsToBeCounted
      if effectiveLimit = 0 then return (yielded,resultSize)
      else
        let (ranges,resultSize) ← getRowIndicesOfTables 0 effectiveLimit effectiveExportLimit resultSize tables
        return (yielded ++ ranges,resultSize)

/-- The yielded ranges, and the final `resultSize`. -/
def getRowIndices (limitOffset : LimitOffsetClause) (result : DeliveredResult Row) : Option (List (TableWithRange Row) × Nat) :=
  if limitOffset.limit.getD 1 = 0 then some ([],0)
  else getRowIndicesOfTables limitOffset.offset limitOffset.limitOrDefault (min limitOffset.exportLimitOrDefault limitOffset.limitOrDefault) 0 result.idTables

theorem checkedAdd_eq {first second : Nat} (fits : first + second < 2 ^ 64) : checkedAdd first second = some (first + second) := if_pos fits

theorem bind_guard {β : Type} {condition : Prop} [Decidable condition] (holds : condition) (next : Unit → Option β) :
    (guard condition : Option Unit).bind next = next () := by
  rw [guard,if_pos holds]
  rfl

def reduced (limit subtrahend : Nat) : Nat := if limit = 2 ^ 64 - 1 then limit else limit - subtrahend

theorem reduced_cases (limit subtrahend : Nat) : limit = 2 ^ 64 - 1 ∧ reduced limit subtrahend = limit ∨ reduced limit subtrahend = limit - subtrahend := by
  by_cases unlimited : limit = 2 ^ 64 - 1
  · exact .inl ⟨unlimited,if_pos unlimited⟩
  · exact .inr (if_neg unlimited)

theorem reduceLimit_eq (limit subtrahend : Nat) : reduceLimit limit subtrahend = some (reduced limit subtrahend) := by
  rw [reduceLimit,reduced]
  by_cases unlimited : limit = 2 ^ 64 - 1
  · rw [if_neg (not_not.mpr unlimited),if_pos unlimited]
  · rw [if_pos unlimited,if_neg unlimited]
    by_cases more : limit > subtrahend
    · rw [if_pos more,checkedSub_eq more.le]
    · rw [if_neg more,Nat.sub_eq_zero_of_le (not_lt.mp more)]

/-- The ranges are for some of the tables, in their order, and each has rows and ends within its table. -/
structure RangesIn (tables : List (List Row)) (ranges : List (TableWithRange Row)) : Prop where
  inOrder : (ranges.map TableWithRange.table).Sublist tables
  within : ∀ range ∈ ranges,0 < range.numRows ∧ range.rangeBegin + range.numRows ≤ range.table.length

theorem RangesIn.nil (tables : List (List Row)) : RangesIn tables [] := ⟨nil_sublist tables,by simp⟩

theorem RangesIn.yield {table : List Row} {tables : List (List Row)} {ranges : List (TableWithRange Row)} (rangesIn : RangesIn tables ranges)
    {rangeBegin numRows : Nat} (within : rangeBegin + numRows ≤ table.length) :
    RangesIn (table::tables) (yieldRows table rangeBegin numRows ++ ranges) := by
  unfold yieldRows
  by_cases someRows : numRows > 0
  · rw [if_pos someRows]
    exact ⟨rangesIn.inOrder.cons_cons table,forall_mem_cons.mpr ⟨⟨someRows,within⟩,rangesIn.within⟩⟩
  · rw [if_neg someRows]
    exact ⟨rangesIn.inOrder.cons table,rangesIn.within⟩

theorem rows_of_yielded (table : List Row) (rangeBegin numRows : Nat) (ranges : List (TableWithRange Row)) :
    (yieldRows table rangeBegin numRows ++ ranges).flatMap TableWithRange.rows =
      (table.drop rangeBegin).take numRows ++ ranges.flatMap TableWithRange.rows := by
  unfold yieldRows
  by_cases someRows : numRows > 0
  · rw [if_pos someRows]
    rfl
  · rw [if_neg someRows,Nat.eq_zero_of_not_pos someRows]
    rfl

theorem getRowIndicesOfTables_spec (tables : List (List Row)) {offset limit exportLimit resultSize : Nat} (positive : 0 < limit)
    (atMost : exportLimit ≤ limit ∨ tables.flatten.length - offset ≤ limit) (fits : resultSize + tables.flatten.length < 2 ^ 64) :
    ∃ ranges,getRowIndicesOfTables offset limit exportLimit resultSize tables = some (ranges,resultSize + min limit (tables.flatten.length - offset)) ∧
      ranges.flatMap TableWithRange.rows = (tables.flatten.drop offset).take exportLimit ∧ RangesIn tables ranges := by
  induction tables generalizing offset limit exportLimit resultSize with
  | nil => exact ⟨[],by simp [getRowIndicesOfTables],by simp,RangesIn.nil []⟩
  | cons table tables ih =>
    rw [flatten_cons,length_append] at fits atMost ⊢
    by_cases skipped : offset ≥ table.length
    · obtain ⟨ranges,computed,rows,rangesIn⟩ := @ih (offset - table.length) limit exportLimit resultSize positive (by omega) (by omega)
      refine ⟨ranges,?_,?_,⟨rangesIn.inOrder.cons table,rangesIn.within⟩⟩
      · rw [getRowIndicesOfTables]
        simp only [if_pos skipped,checkedSub_eq skipped,Option.bind_eq_bind,Option.bind_some,computed]
        congr 4
        omega
      · rw [rows,drop_append,drop_eq_nil_of_le skipped,nil_append]
    · have limitCases := reduced_cases limit (min limit (table.length - offset))
      have exportCases := reduced_cases exportLimit (min limit (table.length - offset))
      rw [getRowIndicesOfTables]
      simp only [if_neg skipped,checkedSub_eq (not_le.mp skipped).le,Option.bind_eq_bind,Option.bind_some,reduceLimit_eq]
      rw [bind_guard positive,checkedAdd_eq (by omega),Option.bind_some,bind_guard (by omega),checkedAdd_eq (by omega),Option.bind_some,bind_guard (by omega),
        bind_guard (by omega),checkedAdd_eq (by omega),Option.bind_some]
      by_cases limitReached : reduced limit (min limit (table.length - offset)) = 0
      · refine ⟨yieldRows table offset (min exportLimit (table.length - offset)) ++ [],?_,?_,RangesIn.yield (RangesIn.nil tables) (by omega)⟩
        · rw [if_pos limitReached,append_nil]
          congr 3
          omega
        · have noMore : tables.flatten.take (exportLimit - (table.length - offset)) = [] :=
            eq_nil_of_length_eq_zero (by rw [length_take]; omega)
          rw [rows_of_yielded,flatMap_nil,append_nil,drop_append_of_le_length (by omega),take_append,length_drop,noMore,
            append_nil,take_eq_take_iff,length_drop]
          omega
      · obtain ⟨ranges,computed,rows,rangesIn⟩ := @ih 0 _ (reduced exportLimit (min limit (table.length - offset)))
          (resultSize + min limit (table.length - offset)) (Nat.pos_of_ne_zero limitReached) (by omega) (by omega)
        refine ⟨yieldRows table offset (min exportLimit (table.length - offset)) ++ ranges,?_,?_,rangesIn.yield (by omega)⟩
        · rw [if_neg limitReached,computed]
          refine congrArg (fun size => some (_,size)) ?_
          omega
        · have here : (table.drop offset).take exportLimit = (table.drop offset).take (min exportLimit (table.length - offset)) := by
            rw [take_eq_take_iff,length_drop]
            omega
          rw [rows_of_yielded,rows,drop_append_of_le_length (by omega),take_append,drop_zero,here,length_drop]
          congr 1
          rw [take_eq_take_iff]
          omega

/-- The exported rows are those of the OFFSET, the LIMIT and the export limit, and `resultSize` counts those of the OFFSET and the LIMIT. -/
theorem getRowIndices_selects (limitOffset : LimitOffsetClause) (result : DeliveredResult Row) :
    ∃ ranges,getRowIndices limitOffset result =
        some (ranges,min limitOffset.limitOrDefault (result.idTables.flatten.length - limitOffset.offset)) ∧
      ranges.flatMap TableWithRange.rows =
        (result.idTables.flatten.drop limitOffset.offset).take (min limitOffset.limitOrDefault limitOffset.exportLimitOrDefault) ∧
      RangesIn result.idTables ranges := by
  unfold getRowIndices
  by_cases noRows : limitOffset.limit.getD 1 = 0
  · have isZero : limitOffset.limitOrDefault = 0 := by
      unfold LimitOffsetClause.limitOrDefault
      cases isLimit : limitOffset.limit with
      | none => simp [isLimit] at noRows
      | some limit => simpa [isLimit] using noRows
    refine ⟨[],?_,?_,RangesIn.nil _⟩
    · rw [if_pos noRows,isZero,Nat.zero_min]
    · rw [isZero,Nat.zero_min]
      rfl
  · have positive : 0 < limitOffset.limitOrDefault := by
      unfold LimitOffsetClause.limitOrDefault
      cases isLimit : limitOffset.limit with
      | none => decide
      | some limit => exact Nat.pos_of_ne_zero (by simpa [isLimit] using noRows)
    obtain ⟨ranges,computed,rows,rangesIn⟩ := @getRowIndicesOfTables_spec _ result.idTables limitOffset.offset _ _ 0 positive
      (.inl (Nat.min_le_right limitOffset.exportLimitOrDefault limitOffset.limitOrDefault)) (by rw [Nat.zero_add]; exact result.numRows_lt)
    refine ⟨ranges,?_,?_,rangesIn⟩
    · rw [if_neg noRows,computed,Nat.zero_add]
    · rw [rows,Nat.min_comm]

/-- Successive pages of one LIMIT deliver the rows from the first on, each once and in their order. -/
theorem getRowIndices_pages (result : DeliveredResult Row) (size n : Nat) :
    ∃ pages,Forall₂ (fun page ranges => ∃ resultSize,getRowIndices {limit := some size,offset := page * size} result = some (ranges,resultSize)) (range n) pages ∧
      pages.flatMap (flatMap TableWithRange.rows) = result.idTables.flatten.take (n * size) := by
  induction n with
  | zero => exact ⟨[],.nil,by simp⟩
  | succ n ih =>
    obtain ⟨pages,delivered,rows⟩ := ih
    have next : ∃ ranges resultSize,getRowIndices {limit := some size,offset := n * size} result = some (ranges,resultSize) ∧
        ranges.flatMap TableWithRange.rows = (result.idTables.flatten.drop (n * size)).take size := by
      cases size with
      | zero => exact ⟨[],0,rfl,by simp⟩
      | succ size =>
        have few := result.numRows_lt
        obtain ⟨ranges,computed,rows,-⟩ := @getRowIndicesOfTables_spec _ result.idTables (n * (size + 1)) _ _ 0 (Nat.succ_pos size)
          (.inl (Nat.min_le_right (2 ^ 64 - 1) _)) (by omega)
        refine ⟨ranges,_,(if_neg (Nat.succ_ne_zero size)).trans computed,rows.trans ?_⟩
        rw [take_eq_take_iff,length_drop]
        omega
    obtain ⟨ranges,resultSize,computed,nextRows⟩ := next
    refine ⟨pages ++ [ranges],?_,?_⟩
    · rw [range_succ]
      exact rel_append delivered (.cons ⟨resultSize,computed⟩ .nil)
    · rw [flatMap_append,flatMap_singleton,rows,nextRows,Nat.succ_mul,take_add]

end Qlever.ExportQueryExecutionTrees
