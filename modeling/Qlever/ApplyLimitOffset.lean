import Qlever.LimitOffsetClause

/-! How a LIMIT and OFFSET is applied to a result, `Result::applyLimitOffset`, and how two of them are merged. The values are `uint64_t`, and
`none` stands for a failed check or a difference that is not positive.
-/
namespace Qlever
open List
open Option (getD_none bind_eq_bind bind_some getD_some)
variable {Row : Type}

def checkedSub (minuend subtrahend : Nat) : Option Nat := if subtrahend ≤ minuend then some (minuend - subtrahend) else none

theorem checkedSub_eq {minuend subtrahend : Nat} (le : subtrahend ≤ minuend) : checkedSub minuend subtrahend = some (minuend - subtrahend) :=
  if_pos le

namespace LimitOffsetClause

def actualOffset (clause : LimitOffsetClause) (actualSize : Nat) : Nat := min actualSize clause.offset

def upperBound (clause : LimitOffsetClause) (actualSize : Nat) : Nat :=
  let val := (clause.limitOrDefault + clause.offset) % 2 ^ 64
  let val := if val ≥ max clause.limitOrDefault clause.offset then val else 2 ^ 64 - 1
  min val actualSize

def actualSize (clause : LimitOffsetClause) (actualSize : Nat) : Option Nat :=
  checkedSub (clause.upperBound actualSize) (clause.actualOffset actualSize)

def mergeLimitAndOffset (clause other : LimitOffsetClause) : LimitOffsetClause :=
  {clause with
    offset := (clause.offset + other.offset) % 2 ^ 64
    limit := match other.limit with
      | some limit => some (min clause.limitOrDefault limit)
      | none => clause.limit}

structure Fits (clause : LimitOffsetClause) : Prop where
  limit : clause.limitOrDefault < 2 ^ 64
  offset : clause.offset < 2 ^ 64

end LimitOffsetClause

def shiftLeft (column : List Row) (n : Nat) : List Row :=
  if n = 0 ∨ column.length ≤ n then column else column.drop n ++ column.drop (column.length - n)

def resizeIdTable (idTable : List Row) (limitOffset : LimitOffsetClause) : Option (List Row) := do
  let offset := limitOffset.actualOffset idTable.length
  let upperBound := limitOffset.upperBound idTable.length
  let shifted := shiftLeft (idTable.take upperBound) offset ++ idTable.drop upperBound
  let targetSize ← limitOffset.actualSize idTable.length
  guard (targetSize ≤ idTable.length)
  return shifted.take targetSize

namespace Result

def applyLimitOffset (limitOffset : LimitOffsetClause) (idTable : List Row) : Option (List Row) :=
  if limitOffset.isUnconstrained then some idTable else resizeIdTable idTable limitOffset

def limitedTables (limitOffset : LimitOffsetClause) : List (List Row) → Option (List (List Row))
  | [] => some []
  | idTable :: idTables =>
    if limitOffset.limit.getD 1 = 0 then some []
    else do
      let originalSize := idTable.length
      let idTable ← resizeIdTable idTable limitOffset
      let offsetDelta := limitOffset.actualOffset originalSize
      let limitOffset := {limitOffset with offset := ← checkedSub limitOffset.offset offsetDelta}
      let limit ← limitOffset.limit.mapM (fun limit => do
        checkedSub limit (← limitOffset.actualSize (← checkedSub originalSize offsetDelta)))
      let limitOffset := {limitOffset with limit := limit}
      let rest ← limitedTables limitOffset idTables
      return if limitOffset.offset = 0 then idTable :: rest else rest

def applyLimitOffsetLazily (limitOffset : LimitOffsetClause) (idTables : List (List Row)) : Option (List (List Row)) :=
  if limitOffset.isUnconstrained then some idTables else limitedTables limitOffset idTables

end Result

namespace LimitOffsetClause
variable {clause : LimitOffsetClause}

theorem Fits.upperBound_eq (fits : clause.Fits) {n : Nat} (small : n < 2 ^ 64) :
    clause.upperBound n = min (clause.limitOrDefault + clause.offset) n := by
  have limit := fits.limit
  have offset := fits.offset
  simp only [upperBound]
  split <;> omega

theorem Fits.actualSize_eq (fits : clause.Fits) {n : Nat} (small : n < 2 ^ 64) :
    clause.actualSize n = some (min clause.limitOrDefault (n - clause.offset)) := by
  rw [actualSize,fits.upperBound_eq small,actualOffset,checkedSub_eq (by omega)]
  congr 1
  omega

variable {rows : List Row}

theorem slice_eq (clause : LimitOffsetClause) (small : rows.length < 2 ^ 64) :
    clause.slice rows = (rows.drop clause.offset).take clause.limitOrDefault := by
  rw [slice,limitOrDefault]
  cases clause.limit with
  | none =>
    rw [getD_none,take_of_length_le]
    rw [length_drop]
    omega
  | some limit => rfl

theorem shiftLeft_take (column : List Row) (n : Nat) : (shiftLeft column n).take (column.length - n) = column.drop n := by
  unfold shiftLeft
  split
  next noEffect =>
    rcases noEffect with rfl | short
    · simp
    · rw [drop_eq_nil_of_le short,Nat.sub_eq_zero_of_le short,take_zero]
  next => rw [take_left' (length_drop)]

theorem length_shiftLeft (column : List Row) (n : Nat) : (shiftLeft column n).length = column.length := by
  unfold shiftLeft
  split
  next => rfl
  next effect =>
    rw [length_append,length_drop,length_drop]
    omega

theorem drop_take_slice (rows : List Row) (offset limit : Nat) :
    (rows.take (min (limit + offset) rows.length)).drop (min rows.length offset) = (rows.drop offset).take limit := by
  rw [drop_take,Nat.min_comm rows.length,← drop_eq_drop_min,take_eq_take_iff,length_drop]
  omega

theorem Fits.resizeIdTable_eq (fits : clause.Fits) (small : rows.length < 2 ^ 64) :
    resizeIdTable rows clause = some (clause.slice rows) := by
  have upper := fits.upperBound_eq small
  have length : (rows.take (clause.upperBound rows.length)).length - clause.actualOffset rows.length =
      min clause.limitOrDefault (rows.length - clause.offset) := by
    rw [length_take,upper,actualOffset]
    omega
  have shifted : (shiftLeft (rows.take (clause.upperBound rows.length)) (clause.actualOffset rows.length) ++
      rows.drop (clause.upperBound rows.length)).take (min clause.limitOrDefault (rows.length - clause.offset)) = clause.slice rows := by
    rw [← length,take_append_of_le_length (by rw [length_shiftLeft]; omega),shiftLeft_take,upper,actualOffset,drop_take_slice,
      slice_eq clause small]
  rw [resizeIdTable,fits.actualSize_eq small]
  simp only [guard,bind_eq_bind,bind_some,Option.pure_def,shifted]
  rw [if_pos (by omega)]
  rfl

end LimitOffsetClause

namespace Result
open LimitOffsetClause
variable {clause : LimitOffsetClause} {n : Nat}

theorem applyLimitOffset_eq (fits : clause.Fits) {rows : List Row} (small : rows.length < 2 ^ 64) :
    applyLimitOffset clause rows = some (clause.slice rows) := by
  rw [applyLimitOffset]
  split
  next unconstrained =>
    simp only [isUnconstrained,Bool.and_eq_true,Option.isNone_iff_eq_none,decide_eq_true_eq] at unconstrained
    rw [slice,unconstrained.1,unconstrained.2]
    rfl
  next => exact fits.resizeIdTable_eq small

def rest (clause : LimitOffsetClause) (size : Nat) : LimitOffsetClause :=
  {clause with offset := clause.offset - size, limit := clause.limit.map (fun limit => limit - (size - clause.offset))}

theorem Fits.rest (fits : clause.Fits) (size : Nat) : (rest clause size).Fits where
  limit := by
    have limit := fits.limit
    revert limit
    simp only [Result.rest,limitOrDefault]
    cases clause.limit with
    | none => exact id
    | some limit =>
      simp only [Option.map_some,getD_some]
      omega
  offset := by
    have offset := fits.offset
    simp only [Result.rest]
    omega

theorem slice_append_rest (clause : LimitOffsetClause) (block rows : List Row) :
    clause.slice (block ++ rows) = clause.slice block ++ (rest clause block.length).slice rows := by
  simp only [slice,rest,drop_append]
  cases clause.limit with
  | none => rfl
  | some limit => simp only [Option.map_some,take_append,length_drop]

theorem checkedSub_actualSize
    {limit offset : Nat} {reduced : LimitOffsetClause} (isReduced : reduced = {reduced with limit := some limit, offset := offset - n})
    (fits : reduced.Fits) (small : n < 2 ^ 64) :
    (do checkedSub limit (← reduced.actualSize (← checkedSub n (min n offset)))) = some (limit - (n - offset)) := by
  have default : reduced.limitOrDefault = limit := by
    rw [isReduced]
    rfl
  have left : reduced.offset = offset - n := by
    rw [isReduced]
  rw [checkedSub_eq (by omega)]
  simp only [bind_eq_bind,bind_some,fits.actualSize_eq (show n - min n offset < 2 ^ 64 by omega),default,left]
  rw [checkedSub_eq (by omega)]
  congr 1
  omega

theorem limitedTables_cons (fits : clause.Fits) {table : List Row} (small : table.length < 2 ^ 64) (tables : List (List Row))
    (unfinished : clause.limit ≠ some 0) :
    limitedTables clause (table :: tables) = (limitedTables (rest clause table.length) tables).map
      (fun others => if clause.offset ≤ table.length then clause.slice table :: others else others) := by
  have notZero : clause.limit.getD 1 ≠ 0 := by
    cases isLimit : clause.limit with
    | none => exact Nat.one_ne_zero
    | some limit =>
      rintro rfl
      exact unfinished isLimit
  have offset' : clause.offset - min table.length clause.offset = clause.offset - table.length := by omega
  have reduced : {clause with offset := clause.offset - table.length}.Fits := ⟨fits.limit,by have offset := fits.offset; simp only; omega⟩
  have yielded : clause.offset - table.length = 0 ↔ clause.offset ≤ table.length := Nat.sub_eq_zero_iff_le
  rw [limitedTables,if_neg notZero]
  simp only [fits.resizeIdTable_eq small,actualOffset,checkedSub_eq (Nat.min_le_right table.length clause.offset),bind_eq_bind,bind_some,
    offset']
  obtain ⟨limit,offset,exportLimit⟩ := clause
  cases limit with
  | none =>
    simp only [Option.mapM_none,Option.pure_def,bind_some,rest,Option.map_none,yielded]
    cases limitedTables _ tables <;> rfl
  | some limit =>
    have left := @checkedSub_actualSize _ limit offset _ rfl reduced small
    simp only [bind_eq_bind] at left
    simp only [Option.mapM_some,Option.map_eq_map,left,Option.map_some,Option.pure_def,bind_some,rest,yielded]
    cases limitedTables _ tables <;> rfl

section
variable (fits : clause.Fits) {tables : List (List Row)} (small : tables.flatten.length < 2 ^ 64)
include fits small

theorem limitedTables_flatten :
    ∃ result,limitedTables clause tables = some result ∧ result.flatten = clause.slice tables.flatten := by
  induction tables generalizing clause with
  | nil => exact ⟨[],rfl,by simp⟩
  | cons table tables ih =>
    rw [flatten_cons,length_append] at small
    by_cases finished : clause.limit = some 0
    · refine ⟨[],by rw [limitedTables,finished]; rfl,?_⟩
      simp [slice,finished]
    obtain ⟨others,areOthers,content⟩ := ih (Fits.rest fits table.length) (by omega)
    refine ⟨_,by rw [limitedTables_cons fits (by omega) tables finished,areOthers]; rfl,?_⟩
    rw [flatten_cons,slice_append_rest,← content]
    split
    next => rw [flatten_cons]
    next skipped =>
      have empty : clause.slice table = [] := by
        rw [slice_eq clause (by omega),drop_eq_nil_of_le (by omega),take_nil]
      rw [empty,nil_append]

/-- A lazy result yields the rows of the result that is materialized, and no check fails. -/
theorem applyLimitOffsetLazily_correct :
    ∃ result,applyLimitOffsetLazily clause tables = some result ∧ applyLimitOffset clause tables.flatten = some result.flatten ∧
      result.flatten = (tables.flatten.drop clause.offset).take (clause.limit.getD tables.flatten.length) := by
  have sliced : clause.slice tables.flatten = (tables.flatten.drop clause.offset).take (clause.limit.getD tables.flatten.length) := by
    rw [slice]
    cases clause.limit with
    | none => rw [getD_none,take_of_length_le (by rw [length_drop]; omega)]
    | some limit => rfl
  rw [← sliced,applyLimitOffset_eq fits small,applyLimitOffsetLazily]
  split
  next unconstrained =>
    simp only [isUnconstrained,Bool.and_eq_true,Option.isNone_iff_eq_none,decide_eq_true_eq] at unconstrained
    have whole : clause.slice tables.flatten = tables.flatten := by
      rw [slice,unconstrained.1,unconstrained.2]
      rfl
    exact ⟨tables,rfl,by rw [whole],whole.symm⟩
  next =>
    obtain ⟨result,isResult,content⟩ := limitedTables_flatten fits small
    exact ⟨result,isResult,by rw [content],content⟩

end

theorem applyLimitOffsetLazily_correct_twoTables :
    ∃ result,applyLimitOffsetLazily {limit := some 3,offset := 1} [[1,2],[],[3,4,5]] = some result ∧
      applyLimitOffset {limit := some 3,offset := 1} [1,2,3,4,5] = some result.flatten ∧ result.flatten = [2,3,4] :=
  @applyLimitOffsetLazily_correct _ _ ⟨by decide,by decide⟩ [[1,2],[],[3,4,5]] (by decide)

section Merge
variable {inner outer : LimitOffsetClause}

/-- The outer offset takes no rows away that the inner limit lets pass, or the outer limit is reached before the inner one. -/
def Mergeable (inner outer : LimitOffsetClause) (size : Nat) : Prop :=
  ∀ limit,inner.limit = some limit → limit = 0 ∨ outer.offset = 0 ∨ size ≤ inner.offset + max limit outer.offset ∨
    ∃ limit',outer.limit = some limit' ∧ (limit' = 0 ∨ outer.offset + limit' ≤ limit)

theorem limitOrDefault_mergeLimitAndOffset (fits : inner.Fits) :
    (inner.mergeLimitAndOffset outer).limitOrDefault = min inner.limitOrDefault outer.limitOrDefault := by
  have limit := fits.limit
  revert limit
  simp only [LimitOffsetClause.mergeLimitAndOffset,limitOrDefault]
  cases outer.limit with
  | none =>
    simp only [getD_none]
    omega
  | some limit' => exact fun _ => rfl

theorem fits_mergeLimitAndOffset (fits : inner.Fits) : (inner.mergeLimitAndOffset outer).Fits where
  limit := by
    have limit := fits.limit
    rw [limitOrDefault_mergeLimitAndOffset fits]
    omega
  offset := Nat.mod_lt _ (by norm_num)

/-- Two clauses one after the other are the merged clause if and only if the outer offset and the inner limit do not interfere. -/
theorem mergeLimitAndOffset_correct_iff (fits : inner.Fits) (fits' : outer.Fits) (noOverflow : inner.offset + outer.offset < 2 ^ 64)
    {rows : List Row} (small : rows.length < 2 ^ 64) :
    (applyLimitOffset inner rows).bind (applyLimitOffset outer) = applyLimitOffset (inner.mergeLimitAndOffset outer) rows ↔
      Mergeable inner outer rows.length := by
  have shorter : (inner.slice rows).length ≤ rows.length := by
    rw [slice_eq inner small,length_take,length_drop]
    omega
  rw [applyLimitOffset_eq fits small,bind_some,applyLimitOffset_eq fits' (by omega),applyLimitOffset_eq (fits_mergeLimitAndOffset fits) small,
    Option.some_inj,slice_eq outer (by omega),slice_eq inner small,slice_eq _ small]
  have offset : (inner.mergeLimitAndOffset outer).offset = inner.offset + outer.offset := Nat.mod_eq_of_lt noOverflow
  rw [offset,drop_take,drop_drop,take_take,take_eq_take_iff,length_drop,limitOrDefault_mergeLimitAndOffset fits]
  have limit := fits.limit
  have limit' := fits'.limit
  simp only [limitOrDefault] at limit limit' ⊢
  unfold Mergeable
  cases inner.limit with
  | none =>
    simp only [getD_none,reduceCtorEq,false_implies,implies_true,iff_true]
    omega
  | some limit =>
    simp only [getD_some,Option.some.injEq,forall_eq'] at limit ⊢
    cases outer.limit with
    | none =>
      simp only [getD_none,reduceCtorEq,false_and,exists_false,or_false]
      omega
    | some limit' =>
      simp only [getD_some,Option.some.injEq,exists_eq_left']
      omega

theorem mergeLimitAndOffset_correct_limits :
    (applyLimitOffset {limit := some 5} (range 10)).bind (applyLimitOffset {limit := some 2,offset := 3}) =
      applyLimitOffset (LimitOffsetClause.mergeLimitAndOffset {limit := some 5} {limit := some 2,offset := 3}) (range 10) :=
  (mergeLimitAndOffset_correct_iff ⟨by decide,by decide⟩ ⟨by decide,by decide⟩ (by decide) (by decide)).mpr
    (fun _ isLimit => Or.inr (Or.inr (Or.inr ⟨2,rfl,Or.inr (by cases isLimit; decide)⟩)))

/-- The subquery has five rows, and the outer OFFSET leaves two of them. -/
theorem mergeLimitAndOffset_ignoresOffset :
    (applyLimitOffset {limit := some 5} (range 10)).bind (applyLimitOffset {offset := 3}) = some [3,4] ∧
      applyLimitOffset (LimitOffsetClause.mergeLimitAndOffset {limit := some 5} {offset := 3}) (range 10) = some [3,4,5,6,7] := by
  decide

end Merge

end Result
end Qlever
