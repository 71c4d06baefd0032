import Qlever.ApplyLimitOffset
import Qlever.Library.CartesianProduct
import Qlever.Library.Run

/-! The Cartesian product of tables, of which the last one may be delivered lazily. Sizes and positions are 64-bit values, and `none` stands for a
failed check, a division by zero and an access outside of a table.
-/
namespace Qlever.CartesianProductJoin
open Qlever Qlever.Library List Nat
open Option (bind_eq_bind bind_some getD_some bind_eq_some_iff some_inj)
variable {Id : Type}

structure IdTable (Id : Type) where
  numColumns : Nat
  rows : List (Fin numColumns → Id)

namespace IdTable

def numRows (idTable : IdTable Id) : Nat := idTable.rows.length

def getColumn (idTable : IdTable Id) (column : Fin idTable.numColumns) : List Id := idTable.rows.map (fun row => row column)

def content (idTable : IdTable Id) : List (List Id) := idTable.rows.map ofFn

end IdTable

/-- The rows of a result, in which `none` is an ID that was not written. -/
abbrev ResultTable (Id : Type) := List (List (Option Id))

section Source

/-- The position behind the one that was written: the next repetition, the next element or the first one again. -/
def nextPosition (inputSize groupSize i u : Nat) : Nat × Nat :=
  if u + 1 < groupSize then (i,u + 1) else if i + 1 < inputSize then (i + 1,0) else (0,0)

/-- The loops of `writeResultColumn`, from the repetition `u` of the element `i` on, until all rows are written. -/
def writeRows (inputColumn : List Id) (groupSize : Nat) : Nat → Nat → Nat → Option (List Id)
  | 0,_,_ => some []
  | left + 1,i,u => do
    let id ← inputColumn[i]?
    let next := nextPosition inputColumn.length groupSize i u
    let rest ← writeRows inputColumn groupSize left next.1 next.2
    return id :: rest

def writeResultColumn (inputColumn : List Id) (groupSize offset targetSize : Nat) : Option (List Id) := do
  let period := inputColumn.length * groupSize % 2 ^ 64
  guard (period ≠ 0 ∧ groupSize ≠ 0)
  writeRows inputColumn groupSize targetSize (offset % period / groupSize) (offset % groupSize)

def writeColumns (offset lastTableOffset targetSize : Nat) : Nat → List (IdTable Id) → Option (List (List Id))
  | _,[] => some []
  | groupSize,input :: idTables => do
    let extraOffset := if idTables.isEmpty then lastTableOffset * groupSize % 2 ^ 64 else 0
    let columns ← (finRange input.numColumns).mapM (fun column =>
      writeResultColumn (input.getColumn column) groupSize ((offset + 2 ^ 64 - extraOffset) % 2 ^ 64) targetSize)
    let rest ← writeColumns offset lastTableOffset targetSize (groupSize * input.numRows % 2 ^ 64) idTables
    return columns ++ rest

def tableOf (resultWidth size : Nat) (columns : List (List Id)) : ResultTable Id :=
  (range size).map (fun row => columns.map (fun column => column[row]?) ++ replicate (resultWidth - columns.length) none)

def totalResultSize (lastTableOffset : Nat) (idTables : List (IdTable Id)) : Option Nat :=
  let total := (idTables.map IdTable.numRows).foldl (fun product size => product * size % 2 ^ 64) 1
  let lastSize := (idTables.map IdTable.numRows).getLast?.getD 0
  if lastSize ≠ 0 then some ((total + total / lastSize * lastTableOffset) % 2 ^ 64)
  else if lastTableOffset = 0 then some total
  else none

def writeAllColumns (resultWidth : Nat) (idTables : List (IdTable Id)) (offset limit lastTableOffset : Nat) : Option (ResultTable Id) := do
  guard (lastTableOffset ≤ offset)
  let totalResultSize ← totalResultSize lastTableOffset idTables
  let limitOffset : LimitOffsetClause := {limit := some limit,offset := offset}
  let totalSizeIncludingLimit ← limitOffset.actualSize totalResultSize
  let offset := limitOffset.actualOffset totalResultSize
  let written := if totalSizeIncludingLimit ≠ 0 then writeColumns offset lastTableOffset totalSizeIncludingLimit 1 idTables else some []
  let columns ← written
  return tableOf resultWidth totalSizeIncludingLimit columns

variable (chunkSize resultWidth : Nat)

def produceRounds (idTables : List (IdTable Id)) (lastTableOffset : Nat) : Nat → Nat → Nat → Option (List (ResultTable Id))
  | 0,_,_ => none
  | rounds + 1,offset,limit =>
    if limit = 0 then some []
    else do
      let limitWithChunkSize := min limit chunkSize
      let idTable ← writeAllColumns resultWidth idTables offset limitWithChunkSize lastTableOffset
      guard (idTable.length ≤ limit)
      if idTable.isEmpty then return []
      else if 0 < limit - idTable.length ∧ limitWithChunkSize ≤ idTable.length then
        let rest ← produceRounds idTables lastTableOffset rounds (offset + idTable.length) (limit - idTable.length)
        return idTable :: rest
      else return [idTable]

def produceTablesLazily (idTables : List (IdTable Id)) (offset limit lastTableOffset : Nat) : Option (List (ResultTable Id)) :=
  produceRounds chunkSize resultWidth idTables lastTableOffset (limit + 1) offset limit

/-- The variables of the lambda in `createLazyConsumer`. -/
structure Consumer (Id : Type) where
  limit : Nat
  offset : Nat
  idTables : List (IdTable Id)
  lastTableOffset : Nat
  producedTableSize : Nat
  idTableOpt : Option (IdTable Id)

def Consumer.finishPrevious (consumer : Consumer Id) : Option (Consumer Id) :=
  match consumer.idTableOpt with
  | none => some consumer
  | some idTable =>
    if consumer.idTables.isEmpty then none
    else some {consumer with
      idTables := consumer.idTables.dropLast
      lastTableOffset := (consumer.lastTableOffset + idTable.numRows) % 2 ^ 64
      limit := consumer.limit - consumer.producedTableSize
      offset := consumer.offset + consumer.producedTableSize
      producedTableSize := 0}

def Consumer.get (consumer : Consumer Id) (idTable : IdTable Id) : Option (List (ResultTable Id) × Consumer Id) := do
  let consumer ← consumer.finishPrevious
  let consumer := {consumer with idTableOpt := some idTable}
  if idTable.rows.isEmpty then return ([],consumer)
  else
    let consumer := {consumer with idTables := consumer.idTables ++ [idTable]}
    let tables ← produceTablesLazily chunkSize resultWidth consumer.idTables consumer.offset consumer.limit consumer.lastTableOffset
    return (tables,{consumer with producedTableSize := consumer.producedTableSize + (tables.map List.length).sum})

def consumeAll : Consumer Id → List (IdTable Id) → Option (List (ResultTable Id))
  | _,[] => some []
  | consumer,idTable :: idTables => do
    let (tables,consumer) ← consumer.get chunkSize resultWidth idTable
    let rest ← consumeAll consumer idTables
    return tables ++ rest

def createLazyConsumer (clause : LimitOffsetClause) (subresults lazyResult : List (IdTable Id)) : Option (List (ResultTable Id)) :=
  consumeAll chunkSize resultWidth ⟨clause.limitOrDefault,clause.offset,subresults,0,0,none⟩ lazyResult

end Source

section Columns

theorem succ_div_mod {n k : Nat} (positive : 0 < k) :
    (n % k + 1 < k → (n + 1) / k = n / k ∧ (n + 1) % k = n % k + 1) ∧ (¬n % k + 1 < k → (n + 1) / k = n / k + 1 ∧ (n + 1) % k = 0) := by
  have split : n + 1 = k * (n / k) + (n % k + 1) := by rw [← Nat.add_assoc,div_add_mod]
  have inside := mod_lt n positive
  constructor
  · intro less
    constructor
    · rw [split,mul_add_div positive,div_eq_of_lt less,Nat.add_zero]
    · rw [split,mul_add_mod,mod_eq_of_lt less]
  · intro notLess
    have isLast : n % k + 1 = k := by omega
    constructor
    · rw [split,isLast,mul_add_div positive,Nat.div_self positive]
    · rw [split,isLast,mul_add_mod,mod_self]

theorem nextPosition_eq {inputSize groupSize : Nat} (someInput : 0 < inputSize) (someGroup : 0 < groupSize) (position : Nat) :
    nextPosition inputSize groupSize (position / groupSize % inputSize) (position % groupSize) =
      ((position + 1) / groupSize % inputSize,(position + 1) % groupSize) := by
  obtain ⟨inGroup,newGroup⟩ := @succ_div_mod position groupSize someGroup
  rw [nextPosition]
  split
  next more => rw [(inGroup more).1,(inGroup more).2]
  next last =>
    obtain ⟨inInput,newRound⟩ := @succ_div_mod (position / groupSize) inputSize someInput
    rw [(newGroup last).1,(newGroup last).2]
    split
    next more => rw [(inInput more).2]
    next lastElement => rw [(newRound lastElement).2]

section
variable {inputColumn : List Id} {groupSize : Nat} (someInput : 0 < inputColumn.length) (someGroup : 0 < groupSize)
include someInput someGroup

theorem writeRows_spec (left position : Nat) :
    ∃ column,writeRows inputColumn groupSize left (position / groupSize % inputColumn.length) (position % groupSize) = some column ∧
      column.length = left ∧ ∀ row < left,column[row]? = inputColumn[(position + row) / groupSize % inputColumn.length]? := by
  induction left generalizing position with
  | zero => exact ⟨[],rfl,rfl,fun row small => absurd small (Nat.not_lt_zero row)⟩
  | succ left ih =>
    obtain ⟨rest,isRest,length,ids⟩ := ih (position + 1)
    obtain ⟨id,isId⟩ : ∃ id,inputColumn[position / groupSize % inputColumn.length]? = some id :=
      ⟨_,getElem?_eq_getElem (mod_lt (position / groupSize) someInput)⟩
    have isColumn : writeRows inputColumn groupSize (left + 1) (position / groupSize % inputColumn.length) (position % groupSize) =
        some (id :: rest) := by
      rw [writeRows,isId,nextPosition_eq someInput someGroup]
      simp only [bind_eq_bind,bind_some,isRest,Option.pure_def]
    refine ⟨_,isColumn,by rw [length_cons,length],fun row small => ?_⟩
    cases row with
    | zero => rw [getElem?_cons_zero,Nat.add_zero,isId]
    | succ row => rw [getElem?_cons_succ,ids row (lt_of_succ_lt_succ small),Nat.add_right_comm,Nat.add_assoc]

theorem writeResultColumn_spec (small : inputColumn.length * groupSize < 2 ^ 64) (offset targetSize : Nat) :
    ∃ column,writeResultColumn inputColumn groupSize offset targetSize = some column ∧
      column.length = targetSize ∧ ∀ row < targetSize,column[row]? = inputColumn[(offset + row) / groupSize % inputColumn.length]? := by
  have period : inputColumn.length * groupSize ≠ 0 ∧ groupSize ≠ 0 := ⟨(Nat.mul_pos someInput someGroup).ne',someGroup.ne'⟩
  obtain ⟨column,isColumn,spec⟩ := writeRows_spec someInput someGroup targetSize offset
  refine ⟨column,?_,spec⟩
  rw [writeResultColumn,mod_eq_of_lt small]
  simp only [guard,if_pos period,Option.pure_def,bind_eq_bind,bind_some]
  rw [mod_mul_left_div_self]
  exact isColumn

end

theorem writeTable_spec {input : IdTable Id} (someRows : input.rows ≠ []) {groupSize : Nat} (someGroup : 0 < groupSize)
    (small : input.numRows * groupSize < 2 ^ 64) (offset targetSize : Nat) :
    ∃ columns,(finRange input.numColumns).mapM (fun column => writeResultColumn (input.getColumn column) groupSize offset targetSize) = some columns ∧
      columns.length = input.numColumns ∧ ∀ row < targetSize,
        columns.map (fun column => column[row]?) = (input.content[(offset + row) / groupSize % input.numRows]?.getD []).map some := by
  have length : ∀ column,(input.getColumn column).length = input.numRows := fun column => by rw [IdTable.getColumn,length_map,IdTable.numRows]
  have positive : 0 < input.numRows := length_pos_iff.mpr someRows
  have each : ∀ column,∃ written,writeResultColumn (input.getColumn column) groupSize offset targetSize = some written ∧
      written.length = targetSize ∧ ∀ row < targetSize,written[row]? = (input.getColumn column)[(offset + row) / groupSize % input.numRows]? := by
    intro column
    have someInput : 0 < (input.getColumn column).length := by rw [length column]; exact positive
    have spec := writeResultColumn_spec someInput someGroup (by rw [length column]; exact small) offset targetSize
    rw [length column] at spec
    exact spec
  choose written isWritten _ ids using each
  refine ⟨(finRange input.numColumns).map written,mapM_some (fun column _ => isWritten column),by rw [length_map,length_finRange],
    fun row isRow => ?_⟩
  have inside : (offset + row) / groupSize % input.numRows < input.rows.length := mod_lt _ positive
  rw [IdTable.content,getElem?_map,getElem?_eq_getElem inside,Option.map_some,getD_some,map_map,ofFn_eq_map,map_map]
  refine map_congr_left (fun column _ => ?_)
  rw [Function.comp_apply,ids column row isRow,IdTable.getColumn,getElem?_map,getElem?_eq_getElem inside]
  rfl

theorem writeColumns_spec {lastTableOffset targetSize offset : Nat} {idTables : List (IdTable Id)} {groupSize shift : Nat} (someGroup : 0 < groupSize)
    (nonempty : ∀ input ∈ idTables,input.rows ≠ []) (small : groupSize * productSize (idTables.map IdTable.content) < 2 ^ 64) (smallOffset : offset < 2 ^ 64)
    (isShift : ∀ last ∈ idTables.getLast?,offset = shift + groupSize * productSize (idTables.dropLast.map IdTable.content) * lastTableOffset) :
    ∃ columns,writeColumns offset lastTableOffset targetSize groupSize idTables = some columns ∧
      columns.length = (idTables.map IdTable.numColumns).sum ∧ ∀ row < targetSize,
        columns.map (fun column => column[row]?) = (rowAt (idTables.map IdTable.content) ((shift + row) / groupSize)).map some := by
  induction idTables generalizing groupSize with
  | nil => exact ⟨[],rfl,rfl,fun row _ => rfl⟩
  | cons input idTables ih =>
    have someRows := nonempty input mem_cons_self
    have positive : 0 < input.numRows := length_pos_iff.mpr someRows
    have size : input.content.length = input.numRows := by rw [IdTable.content,length_map,IdTable.numRows]
    have others : 0 < productSize (idTables.map IdTable.content) := by
      refine productSize_pos (fun rows member => ?_)
      obtain ⟨other,isOther,rfl⟩ := List.mem_map.mp member
      rw [IdTable.content,Ne,map_eq_nil_iff]
      exact nonempty other (mem_cons_of_mem input isOther)
    rw [map_cons,productSize_cons,size,← Nat.mul_assoc] at small
    have smallGroup : groupSize * input.numRows < 2 ^ 64 := lt_of_le_of_lt (Nat.le_mul_of_pos_right _ others) small
    have shiftRest : ∀ last ∈ idTables.getLast?,
        offset = shift + groupSize * input.numRows * productSize (idTables.dropLast.map IdTable.content) * lastTableOffset := by
      intro last isLast
      cases idTables with
      | nil => cases isLast
      | cons other idTables =>
        rw [isShift last isLast,dropLast_cons_cons,map_cons,productSize_cons,size,Nat.mul_assoc groupSize input.numRows]
    obtain ⟨rest,isRest,widths,rows⟩ := @ih (groupSize * input.numRows) (Nat.mul_pos someGroup positive)
      (forall_mem_cons.mp nonempty).2 small shiftRest
    obtain ⟨columns,isColumns,width,ids⟩ := writeTable_spec someRows someGroup (by rw [Nat.mul_comm]; exact smallGroup)
      ((offset + 2 ^ 64 - if idTables.isEmpty then lastTableOffset * groupSize % 2 ^ 64 else 0) % 2 ^ 64) targetSize
    have position : ∀ row,
        (((offset + 2 ^ 64 - if idTables.isEmpty then lastTableOffset * groupSize % 2 ^ 64 else 0) % 2 ^ 64) + row) / groupSize % input.numRows =
          (shift + row) / groupSize % input.numRows := by
      intro row
      cases idTables with
      | nil =>
        have last := isShift input rfl
        rw [dropLast_singleton,map_nil,productSize_nil,Nat.mul_one] at last
        rw [Nat.mul_comm lastTableOffset]
        generalize groupSize * lastTableOffset = extraOffset at last
        have difference : (offset + 2 ^ 64 - extraOffset % 2 ^ 64) % 2 ^ 64 = shift := by omega
        rw [isEmpty_nil,if_pos rfl,difference]
      | cons other idTables =>
        obtain ⟨last,isLast⟩ : ∃ last,(other :: idTables).getLast? = some last := ⟨_,getLast?_eq_some_getLast (cons_ne_nil other idTables)⟩
        rw [isEmpty_cons,if_neg Bool.false_ne_true,Nat.sub_zero,add_mod_right,mod_eq_of_lt smallOffset,shiftRest last isLast,
          Nat.add_right_comm,Nat.mul_assoc groupSize,Nat.mul_assoc groupSize,add_mul_div_left _ _ someGroup,Nat.mul_assoc,add_mul_mod_self_left]
    refine ⟨columns ++ rest,?_,by rw [length_append,width,widths,map_cons,sum_cons],fun row isRow => ?_⟩
    · rw [writeColumns,mod_eq_of_lt smallGroup]
      simp only [isColumns,isRest,bind_eq_bind,bind_some,Option.pure_def]
    · rw [map_append,ids row isRow,rows row isRow,position,map_cons,rowAt,size,map_append,Nat.div_div_eq_div_mul]

end Columns

section Tables
variable {idTables : List (IdTable Id)} {last : IdTable Id} {offset limit lastTableOffset resultWidth : Nat}

def contents (idTables : List (IdTable Id)) : List (List (List Id)) := idTables.map IdTable.content

@[simp] theorem length_content (idTable : IdTable Id) : idTable.content.length = idTable.numRows := by
  rw [IdTable.content,length_map,IdTable.numRows]

theorem contents_concat (idTables : List (IdTable Id)) (last : IdTable Id) : contents (idTables ++ [last]) = contents idTables ++ [last.content] := by
  rw [contents,map_append]
  rfl

theorem productSize_contents_pos (nonempty : ∀ input ∈ idTables,input.rows ≠ []) : 0 < productSize (contents idTables) := by
  refine productSize_pos (fun rows member => ?_)
  obtain ⟨other,isOther,rfl⟩ := List.mem_map.mp member
  rw [IdTable.content,Ne,map_eq_nil_iff]
  exact nonempty other isOther

theorem foldl_sizes {start : Nat} (small : start < 2 ^ 64) (sizes : List Nat) :
    sizes.foldl (fun product size => product * size % 2 ^ 64) start = start * sizes.prod % 2 ^ 64 := by
  induction sizes generalizing start with
  | nil => rw [foldl_nil,prod_nil,Nat.mul_one,mod_eq_of_lt small]
  | cons size sizes ih => rw [foldl_cons,ih (mod_lt _ (by decide)),prod_cons,mod_mul_mod,Nat.mul_assoc]

theorem prod_numRows (idTables : List (IdTable Id)) : (idTables.map IdTable.numRows).prod = productSize (contents idTables) := by
  rw [productSize,contents,map_map]
  congr 2
  funext idTable
  exact (length_content idTable).symm

theorem totalResultSize_eq (someRows : last.rows ≠ []) (small : productSize (contents idTables) * (lastTableOffset + last.numRows) < 2 ^ 64) :
    totalResultSize lastTableOffset (idTables ++ [last]) = some (productSize (contents idTables) * (lastTableOffset + last.numRows)) := by
  have positive : 0 < last.numRows := length_pos_iff.mpr someRows
  rw [Nat.mul_add] at small
  have product : ((idTables ++ [last]).map IdTable.numRows).foldl (fun product size => product * size % 2 ^ 64) 1 =
      productSize (contents idTables) * last.numRows := by
    rw [foldl_sizes (by decide),Nat.one_mul,prod_numRows,contents_concat,productSize_concat,length_content,mod_eq_of_lt (by omega)]
  have lastSize : ((idTables ++ [last]).map IdTable.numRows).getLast?.getD 0 = last.numRows := by simp
  rw [totalResultSize]
  simp only [product,lastSize]
  rw [if_pos positive.ne',Nat.mul_div_cancel _ positive,mod_eq_of_lt (by omega),Nat.mul_add,Nat.add_comm]

theorem totalResultSize_of_empty (noRows : last.rows = []) : totalResultSize 0 (idTables ++ [last]) = some 0 := by
  have noNumRows : last.numRows = 0 := by rw [IdTable.numRows,noRows,length_nil]
  have product : ((idTables ++ [last]).map IdTable.numRows).foldl (fun product size => product * size % 2 ^ 64) 1 = 0 := by
    rw [foldl_sizes (by decide),prod_numRows,contents_concat,productSize_concat,length_content,noNumRows,Nat.mul_zero,Nat.mul_zero,zero_mod]
  have lastSize : ((idTables ++ [last]).map IdTable.numRows).getLast?.getD 0 = 0 := by simp [noNumRows]
  rw [totalResultSize]
  simp only [product,lastSize,ne_eq,not_true_eq_false,if_false,if_true]

theorem fits (smallLimit : limit < 2 ^ 64) (smallOffset : offset < 2 ^ 64) : LimitOffsetClause.Fits {limit := some limit,offset := offset} :=
  ⟨smallLimit,smallOffset⟩

theorem writeAllColumns_nil {total : Nat} (inside : lastTableOffset ≤ offset) (isTotal : totalResultSize lastTableOffset idTables = some total)
    (smallTotal : total < 2 ^ 64) (smallLimit : limit < 2 ^ 64) (smallOffset : offset < 2 ^ 64) (noRows : limit = 0 ∨ total ≤ offset) :
    writeAllColumns resultWidth idTables offset limit lastTableOffset = some [] := by
  have size : min limit (total - offset) = 0 := by omega
  rw [writeAllColumns,isTotal]
  simp only [guard,if_pos inside,Option.pure_def,bind_eq_bind,bind_some]
  rw [(fits smallLimit smallOffset).actualSize_eq smallTotal]
  simp only [LimitOffsetClause.limitOrDefault,getD_some,size,bind_some,ne_eq,not_true_eq_false,if_false]
  rfl

theorem writeAllColumns_eq (nonempty : ∀ input ∈ idTables,input.rows ≠ []) (someRows : last.rows ≠ [])
    (small : productSize (contents idTables) * (lastTableOffset + last.numRows) < 2 ^ 64) (inside : productSize (contents idTables) * lastTableOffset ≤ offset)
    (smallLimit : limit < 2 ^ 64) (smallOffset : offset < 2 ^ 64) (width : resultWidth = ((idTables ++ [last]).map IdTable.numColumns).sum) :
    writeAllColumns resultWidth (idTables ++ [last]) offset limit lastTableOffset =
      some ((((productRows (contents (idTables ++ [last]))).drop (offset - productSize (contents idTables) * lastTableOffset)).take limit).map (List.map some)) := by
  have total := totalResultSize_eq someRows small
  have behind : lastTableOffset ≤ offset := (Nat.le_mul_of_pos_left _ (productSize_contents_pos nonempty)).trans inside
  have length : (productRows (contents (idTables ++ [last]))).length = productSize (contents idTables) * last.numRows := by
    rw [length_productRows,contents_concat,productSize_concat,length_content]
  by_cases noRows : limit = 0 ∨ productSize (contents idTables) * (lastTableOffset + last.numRows) ≤ offset
  · rw [writeAllColumns_nil behind total small smallLimit smallOffset noRows]
    rcases noRows with rfl | allSkipped
    · rw [take_zero,map_nil]
    · rw [Nat.mul_add] at allSkipped
      rw [drop_eq_nil_of_le (by omega),take_nil,map_nil]
  · rw [not_or,not_le] at noRows
    have sizePositive : min limit (productSize (contents idTables) * (lastTableOffset + last.numRows) - offset) ≠ 0 := by omega
    generalize isSize : min limit (productSize (contents idTables) * (lastTableOffset + last.numRows) - offset) = size at sizePositive
    have nonemptyAll : ∀ input ∈ idTables ++ [last],input.rows ≠ [] := by
      intro input member
      rcases mem_append.mp member with isFirst | isLast
      · exact nonempty input isFirst
      · rw [mem_singleton.mp isLast]
        exact someRows
    have smallProduct : 1 * productSize (contents (idTables ++ [last])) < 2 ^ 64 := by
      rw [Nat.one_mul,← length_productRows,length]
      rw [Nat.mul_add] at small
      omega
    obtain ⟨columns,isColumns,columnsWidth,rows⟩ := @writeColumns_spec Id lastTableOffset size offset (idTables ++ [last]) 1
      (offset - productSize (contents idTables) * lastTableOffset) Nat.one_pos nonemptyAll smallProduct smallOffset (by
        intro input isLast
        rw [List.dropLast_concat,Nat.one_mul,← contents,Nat.sub_add_cancel inside])
    have result : writeAllColumns resultWidth (idTables ++ [last]) offset limit lastTableOffset = some (tableOf resultWidth size columns) := by
      rw [writeAllColumns,total]
      simp only [guard,if_pos behind,Option.pure_def,bind_eq_bind,bind_some]
      rw [(fits smallLimit smallOffset).actualSize_eq small]
      simp only [LimitOffsetClause.limitOrDefault,getD_some,isSize,bind_some,if_pos sizePositive,LimitOffsetClause.actualOffset,
        Nat.min_eq_right noRows.2.le,isColumns]
    rw [result,tableOf,columnsWidth,← width,Nat.sub_self,replicate_zero]
    refine congrArg some (ext_getElem ?_ (fun row inside inside' => ?_))
    · rw [length_map,length_range,length_map,length_take,length_drop,length,← isSize,Nat.mul_add]
      omega
    · rw [length_map,length_range] at inside
      rw [getElem_map,getElem_range,append_nil,rows row inside,getElem_map,getElem_take,getElem_drop]
      simp only [productRows_eq,getElem_map,getElem_range,Nat.div_one]
      rfl

theorem writeAllColumns_materialized (nonempty : ∀ input ∈ idTables,input.rows ≠ [])
    (small : productSize (contents idTables) * last.numRows < 2 ^ 64) (smallLimit : limit < 2 ^ 64) (smallOffset : offset < 2 ^ 64)
    (width : resultWidth = ((idTables ++ [last]).map IdTable.numColumns).sum) :
    writeAllColumns resultWidth (idTables ++ [last]) offset limit 0 =
      some ((((productRows (contents (idTables ++ [last]))).drop offset).take limit).map (List.map some)) := by
  by_cases someRows : last.rows = []
  · have noRows : productRows (contents (idTables ++ [last])) = [] := by
      rw [← length_eq_zero_iff,length_productRows,contents_concat,productSize_concat,length_content,IdTable.numRows,someRows,length_nil,Nat.mul_zero]
    rw [writeAllColumns_nil (Nat.zero_le offset) (totalResultSize_of_empty someRows) (Nat.two_pow_pos 64) smallLimit smallOffset (.inr (Nat.zero_le offset)),
      noRows,drop_nil,take_nil,map_nil]
  · have result := @writeAllColumns_eq Id idTables last offset limit 0 resultWidth nonempty someRows (by rw [Nat.zero_add]; exact small)
      (by rw [Nat.mul_zero]; exact Nat.zero_le offset) smallLimit smallOffset width
    rw [Nat.mul_zero,Nat.sub_zero] at result
    exact result

theorem length_tableOf (resultWidth size : Nat) (columns : List (List Id)) : (tableOf resultWidth size columns).length = size := by
  rw [tableOf,length_map,length_range]

theorem nil_of_no_limit {rows : ResultTable Id} (smallOffset : offset < 2 ^ 64)
    (isResult : writeAllColumns resultWidth idTables offset 0 lastTableOffset = some rows) : rows = [] := by
  rw [writeAllColumns] at isResult
  simp only [bind_eq_bind,bind_eq_some_iff,Option.pure_def,some_inj] at isResult
  obtain ⟨_,_,total,_,size,isSize,columns,_,rfl⟩ := isResult
  rw [← length_eq_zero_iff,length_tableOf]
  rw [LimitOffsetClause.actualSize,checkedSub] at isSize
  split at isSize
  · cases isSize
    simp only [LimitOffsetClause.upperBound,LimitOffsetClause.actualOffset,LimitOffsetClause.limitOrDefault,getD_some,Nat.zero_add]
    rw [mod_eq_of_lt smallOffset]
    split <;> omega
  · cases isSize

theorem length_writeColumns {targetSize groupSize : Nat} {columns : List (List Id)}
    (isResult : writeColumns offset lastTableOffset targetSize groupSize idTables = some columns) :
    columns.length = (idTables.map IdTable.numColumns).sum := by
  induction idTables generalizing groupSize columns with
  | nil =>
    cases isResult
    rfl
  | cons input idTables ih =>
    rw [writeColumns] at isResult
    simp only [bind_eq_bind,bind_eq_some_iff,Option.pure_def,some_inj] at isResult
    obtain ⟨first,isFirst,rest,isRest,rfl⟩ := isResult
    have width := (forall₂_of_mapM isFirst).length_eq
    rw [length_finRange] at width
    rw [length_append,ih isRest,map_cons,sum_cons,width]

theorem none_mem_of_width {rows : ResultTable Id} (missing : (idTables.map IdTable.numColumns).sum < resultWidth)
    (isResult : writeAllColumns resultWidth idTables offset limit lastTableOffset = some rows) : ∀ row ∈ rows,none ∈ row := by
  rw [writeAllColumns] at isResult
  simp only [bind_eq_bind,bind_eq_some_iff,Option.pure_def,some_inj] at isResult
  obtain ⟨_,_,total,_,size,_,columns,isColumns,rfl⟩ := isResult
  intro row member
  obtain ⟨index,isIndex,rfl⟩ := List.mem_map.mp member
  have someRows : size ≠ 0 := (zero_lt_of_lt (mem_range.mp isIndex)).ne'
  rw [if_pos someRows] at isColumns
  refine mem_append_right _ (mem_replicate.mpr ⟨?_,rfl⟩)
  rw [length_writeColumns isColumns]
  omega

end Tables

section Chunks
variable {idTables : List (IdTable Id)} {last : IdTable Id} {offset limit lastTableOffset resultWidth chunkSize : Nat} {tables : List (ResultTable Id)}

theorem produceTablesLazily_noLimit : produceTablesLazily chunkSize resultWidth idTables offset 0 lastTableOffset = some [] := rfl

theorem produceTablesLazily_skipped (nonempty : ∀ input ∈ idTables,input.rows ≠ []) (someRows : last.rows ≠ [])
    (smallLimit : limit < 2 ^ 64) (smallOffset : offset < 2 ^ 64) (skipped : productSize (contents idTables) * (lastTableOffset + last.numRows) ≤ offset) :
    produceTablesLazily chunkSize resultWidth (idTables ++ [last]) offset limit lastTableOffset = some [] := by
  have behind : lastTableOffset ≤ offset :=
    (Nat.le_add_right _ last.numRows).trans ((Nat.le_mul_of_pos_left _ (productSize_contents_pos nonempty)).trans skipped)
  have small := lt_of_le_of_lt skipped smallOffset
  have noTable := @writeAllColumns_nil Id (idTables ++ [last]) offset (min limit chunkSize) lastTableOffset resultWidth _ behind
    (totalResultSize_eq someRows small) small (lt_of_le_of_lt (Nat.min_le_left limit chunkSize) smallLimit) smallOffset (.inr skipped)
  rw [produceTablesLazily,produceRounds]
  split
  next => rfl
  next =>
    simp only [noTable]
    rfl

theorem produceTablesLazily_noChunk (smallOffset : offset < 2 ^ 64)
    (isResult : produceTablesLazily 0 resultWidth idTables offset limit lastTableOffset = some tables) : tables = [] := by
  rw [produceTablesLazily,produceRounds] at isResult
  split at isResult
  next =>
    cases isResult
    rfl
  next =>
    simp only [Nat.min_zero,bind_eq_bind,bind_eq_some_iff] at isResult
    obtain ⟨idTable,isTable,_,_,isResult⟩ := isResult
    rw [nil_of_no_limit smallOffset isTable,isEmpty_nil,if_pos rfl] at isResult
    cases isResult
    rfl

theorem none_mem_of_produceRounds {rounds : Nat} (missing : (idTables.map IdTable.numColumns).sum < resultWidth)
    (isResult : produceRounds chunkSize resultWidth idTables lastTableOffset rounds offset limit = some tables) : ∀ row ∈ tables.flatten,none ∈ row := by
  induction rounds generalizing offset limit tables with
  | zero => cases isResult
  | succ rounds ih =>
    rw [produceRounds] at isResult
    split at isResult
    next =>
      cases isResult
      exact fun row member => absurd member not_mem_nil
    next =>
      simp only [bind_eq_bind,bind_eq_some_iff] at isResult
      obtain ⟨idTable,isTable,_,_,isResult⟩ := isResult
      have unwritten := none_mem_of_width missing isTable
      split at isResult
      next =>
        cases isResult
        exact fun row member => absurd member not_mem_nil
      next =>
        split at isResult
        next =>
          simp only [bind_eq_some_iff,Option.pure_def,some_inj] at isResult
          obtain ⟨rest,isRest,rfl⟩ := isResult
          intro row member
          rw [flatten_cons] at member
          rcases mem_append.mp member with isFirst | isLater
          · exact unwritten row isFirst
          · exact ih isRest row isLater
        next =>
          cases isResult
          rw [flatten_singleton]
          exact unwritten

theorem produceRounds_eq {rounds : Nat} (someChunk : 0 < chunkSize) (nonempty : ∀ input ∈ idTables,input.rows ≠ []) (someRows : last.rows ≠ [])
    (small : productSize (contents idTables) * (lastTableOffset + last.numRows) < 2 ^ 64) (inside : productSize (contents idTables) * lastTableOffset ≤ offset)
    (smallLimit : limit < 2 ^ 64) (smallOffset : offset < 2 ^ 64) (width : resultWidth = ((idTables ++ [last]).map IdTable.numColumns).sum)
    (enough : limit < rounds) :
    ∃ tables,produceRounds chunkSize resultWidth (idTables ++ [last]) lastTableOffset rounds offset limit = some tables ∧ tables.flatten =
      (((productRows (contents (idTables ++ [last]))).drop (offset - productSize (contents idTables) * lastTableOffset)).take limit).map (List.map some) := by
  induction rounds generalizing offset limit with
  | zero => exact absurd enough (Nat.not_lt_zero limit)
  | succ rounds ih =>
    rw [produceRounds]
    split
    next noLimit => exact ⟨[],rfl,by rw [noLimit,take_zero]; rfl⟩
    next someLimit =>
      have table := @writeAllColumns_eq Id idTables last offset (min limit chunkSize) lastTableOffset resultWidth nonempty someRows small inside
        (lt_of_le_of_lt (Nat.min_le_left limit chunkSize) smallLimit) smallOffset width
      have total : (productRows (contents (idTables ++ [last]))).length = productSize (contents idTables) * last.numRows := by
        rw [length_productRows,contents_concat,productSize_concat,length_content]
      rw [Nat.mul_add] at small
      generalize isRest : (productRows (contents (idTables ++ [last]))).drop (offset - productSize (contents idTables) * lastTableOffset) = rest at table
      have restLength : rest.length = productSize (contents idTables) * last.numRows - (offset - productSize (contents idTables) * lastTableOffset) := by
        rw [← isRest,length_drop,total]
      have size : ((rest.take (min limit chunkSize)).map (List.map some)).length = min (min limit chunkSize) rest.length := by
        rw [length_map,length_take]
      have fitsLimit : ((rest.take (min limit chunkSize)).map (List.map some)).length ≤ limit := by omega
      simp only [table,guard,bind_eq_bind,bind_some,if_pos fitsLimit,Option.pure_def]
      split
      next noRows =>
        rw [List.isEmpty_iff,← length_eq_zero_iff,size] at noRows
        have noRest : rest = [] := length_eq_zero_iff.mp (by omega)
        exact ⟨[],rfl,by rw [noRest,take_nil]; rfl⟩
      next someTable =>
        rw [List.isEmpty_iff,← length_eq_zero_iff,size] at someTable
        split
        next more =>
          rw [size] at more ⊢
          have isChunk : min (min limit chunkSize) rest.length = chunkSize := by omega
          rw [isChunk] at more ⊢
          obtain ⟨tables,isTables,rows⟩ := @ih (offset + chunkSize) (limit - chunkSize) (by omega) (by omega) (by omega) (by omega)
          refine ⟨_,by rw [isTables]; rfl,?_⟩
          have behind : (productRows (contents (idTables ++ [last]))).drop (offset + chunkSize - productSize (contents idTables) * lastTableOffset) =
              rest.drop chunkSize := by
            rw [← isRest,drop_drop]
            congr 1
            omega
          have split : limit = chunkSize + (limit - chunkSize) := by omega
          rw [flatten_cons,rows,behind,← map_append,Nat.min_eq_right (by omega : chunkSize ≤ limit)]
          conv => rhs; rw [split,take_add]
        next isLast =>
          refine ⟨_,rfl,?_⟩
          rw [size] at isLast
          rw [flatten_singleton,take_eq_take_iff.mpr (show min (min limit chunkSize) rest.length = min limit rest.length by omega)]

end Chunks

section Runs
variable (chunkSize resultWidth : Nat)

def isEmptyTable (idTable : IdTable Id) : Bool := idTable.rows.isEmpty

def hasRows (idTable : IdTable Id) : Bool := !isEmptyTable idTable

/-- The tables that are left when the next one is handled: behind an empty one a materialized table is removed. -/
def remainingTables (subresults : List (IdTable Id)) (idTable : IdTable Id) : Option (List (IdTable Id)) :=
  if isEmptyTable idTable then if subresults.isEmpty then none else some subresults.dropLast else some subresults

def deliver (subresults : List (IdTable Id)) (limit offset lastTableOffset : Nat) (idTable : IdTable Id) : Option (List (ResultTable Id)) :=
  if isEmptyTable idTable then some [] else produceTablesLazily chunkSize resultWidth (subresults ++ [idTable]) offset limit lastTableOffset

def run : List (IdTable Id) → Nat → Nat → Nat → List (IdTable Id) → Option (List (ResultTable Id))
  | _,_,_,_,[] => some []
  | subresults,limit,offset,lastTableOffset,idTable :: idTables => do
    let tables ← deliver chunkSize resultWidth subresults limit offset lastTableOffset idTable
    let produced := (tables.map List.length).sum
    let rest ←
      match idTables with
      | [] => some []
      | _ => do
        let subresults ← remainingTables subresults idTable
        run subresults (limit - produced) (offset + produced) ((lastTableOffset + idTable.numRows) % 2 ^ 64) idTables
    return tables ++ rest

variable {chunkSize resultWidth} {consumer : Consumer Id} {subresults : List (IdTable Id)} {limit offset lastTableOffset : Nat} {idTable next : IdTable Id}
  {previous : Option (IdTable Id)} {idTables : List (IdTable Id)} {tables : List (ResultTable Id)}

theorem run_singleton : run chunkSize resultWidth subresults limit offset lastTableOffset [idTable] =
    deliver chunkSize resultWidth subresults limit offset lastTableOffset idTable := by
  rw [run]
  cases deliver chunkSize resultWidth subresults limit offset lastTableOffset idTable with
  | none => rfl
  | some tables => exact congrArg some (append_nil tables)

theorem run_cons_cons (isDelivered : deliver chunkSize resultWidth subresults limit offset lastTableOffset idTable = some tables) :
    run chunkSize resultWidth subresults limit offset lastTableOffset (idTable :: next :: idTables) =
      (remainingTables subresults idTable).bind (fun remaining =>
        (run chunkSize resultWidth remaining (limit - tables.flatten.length) (offset + tables.flatten.length)
          ((lastTableOffset + idTable.numRows) % 2 ^ 64) (next :: idTables)).map (fun rest => tables ++ rest)) := by
  rw [run,isDelivered,length_flatten]
  simp only [bind_eq_bind,bind_some,Option.pure_def,Option.map_eq_bind]
  rfl

theorem get_eq (finished : consumer.finishPrevious = some ⟨limit,offset,subresults,lastTableOffset,0,previous⟩) :
    consumer.get chunkSize resultWidth idTable =
      (deliver chunkSize resultWidth subresults limit offset lastTableOffset idTable).map (fun tables =>
        (tables,⟨limit,offset,if isEmptyTable idTable then subresults else subresults ++ [idTable],lastTableOffset,tables.flatten.length,some idTable⟩)) := by
  rw [Consumer.get,finished,deliver,isEmptyTable]
  simp only [bind_eq_bind,bind_some,Option.pure_def]
  split
  next => rfl
  next =>
    cases produceTablesLazily chunkSize resultWidth (subresults ++ [idTable]) offset limit lastTableOffset with
    | none => rfl
    | some tables => simp only [bind_some,Option.map_some,Nat.zero_add,length_flatten]

theorem finishPrevious_eq {produced : Nat} :
    Consumer.finishPrevious ⟨limit,offset,if isEmptyTable idTable then subresults else subresults ++ [idTable],lastTableOffset,produced,some idTable⟩ =
      (remainingTables subresults idTable).map (fun remaining =>
        ⟨limit - produced,offset + produced,remaining,(lastTableOffset + idTable.numRows) % 2 ^ 64,0,some idTable⟩) := by
  rw [Consumer.finishPrevious,remainingTables]
  by_cases isEmpty : isEmptyTable idTable = true
  · simp only [if_pos isEmpty]
    cases subresults <;> rfl
  · simp only [if_neg isEmpty,List.dropLast_concat]
    rw [if_neg (by simp)]
    rfl

theorem consumeAll_eq (finished : consumer.finishPrevious = some ⟨limit,offset,subresults,lastTableOffset,0,previous⟩) (idTables : List (IdTable Id)) :
    consumeAll chunkSize resultWidth consumer idTables = run chunkSize resultWidth subresults limit offset lastTableOffset idTables := by
  induction idTables generalizing consumer subresults limit offset lastTableOffset previous with
  | nil => rfl
  | cons idTable idTables ih =>
    rw [consumeAll,get_eq finished]
    cases isDelivered : deliver chunkSize resultWidth subresults limit offset lastTableOffset idTable with
    | none =>
      rw [run,isDelivered]
      rfl
    | some tables =>
      simp only [Option.map_some,bind_eq_bind,bind_some,Option.pure_def]
      cases idTables with
      | nil =>
        rw [run_singleton,isDelivered]
        exact congrArg some (append_nil tables)
      | cons next idTables =>
        rw [run_cons_cons isDelivered]
        cases isRemaining : remainingTables subresults idTable with
        | none =>
          have notFinished := @finishPrevious_eq Id subresults limit offset lastTableOffset idTable tables.flatten.length
          rw [isRemaining,Option.map_none] at notFinished
          rw [consumeAll,Consumer.get,notFinished]
          rfl
        | some remaining =>
          have nowFinished := @finishPrevious_eq Id subresults limit offset lastTableOffset idTable tables.flatten.length
          rw [isRemaining,Option.map_some] at nowFinished
          rw [ih nowFinished,bind_some]
          cases run chunkSize resultWidth remaining (limit - tables.flatten.length) (offset + tables.flatten.length)
            ((lastTableOffset + idTable.numRows) % 2 ^ 64) (next :: idTables) <;> rfl

def rowsOf (idTables : List (IdTable Id)) : List (List Id) := idTables.flatMap IdTable.content

theorem rowsOf_cons (idTable : IdTable Id) (idTables : List (IdTable Id)) : rowsOf (idTable :: idTables) = idTable.content ++ rowsOf idTables := rfl

def emptyBeforeLast (idTables : List (IdTable Id)) : Nat := idTables.dropLast.countP isEmptyTable

theorem emptyBeforeLast_cons_cons (idTable next : IdTable Id) (idTables : List (IdTable Id)) :
    emptyBeforeLast (idTable :: next :: idTables) = emptyBeforeLast (next :: idTables) + if isEmptyTable idTable then 1 else 0 := by
  rw [emptyBeforeLast,dropLast_cons_cons,countP_cons,emptyBeforeLast]

theorem content_of_isEmpty (isEmpty : isEmptyTable idTable = true) : idTable.content = [] ∧ idTable.numRows = 0 := by
  have noRows := List.isEmpty_iff.mp isEmpty
  rw [IdTable.content,IdTable.numRows,noRows]
  exact ⟨rfl,rfl⟩

theorem rows_of_not_isEmpty (someRows : ¬isEmptyTable idTable = true) : idTable.rows ≠ [] := fun noRows => someRows (List.isEmpty_iff.mpr noRows)

theorem remainingTables_eq_some {remaining : List (IdTable Id)} (isRemaining : remainingTables subresults idTable = some remaining) :
    remaining = (if isEmptyTable idTable then subresults.dropLast else subresults) ∧ (isEmptyTable idTable = true → 0 < subresults.length) := by
  rw [remainingTables] at isRemaining
  split at isRemaining
  next isEmpty =>
    rw [if_pos isEmpty]
    split at isRemaining
    next => cases isRemaining
    next someTables =>
      cases isRemaining
      exact ⟨rfl,fun _ => length_pos_iff.mpr (fun noTables => someTables (List.isEmpty_iff.mpr noTables))⟩
  next notEmpty =>
    cases isRemaining
    rw [if_neg notEmpty]
    exact ⟨rfl,fun isEmpty => absurd isEmpty notEmpty⟩

theorem exists_remainingTables
    (enough : isEmptyTable idTable = true → 0 < subresults.length) : ∃ remaining,remainingTables subresults idTable = some remaining := by
  rw [remainingTables]
  split
  next isEmpty =>
    have someTables : ¬subresults.isEmpty = true := fun noTables => (length_pos_iff.mp (enough isEmpty)) (List.isEmpty_iff.mp noTables)
    exact ⟨_,if_neg someTables⟩
  next => exact ⟨_,rfl⟩

/-- Nothing is yielded when there is no row, when the limit is used up and when everything is skipped. -/
def Quiet (subresults : List (IdTable Id)) (limit offset lastTableOffset : Nat) (idTables : List (IdTable Id)) : Prop :=
  (∀ idTable ∈ idTables,isEmptyTable idTable = true) ∨ limit = 0 ∨
    productSize (contents subresults) * (lastTableOffset + (rowsOf idTables).length) ≤ offset

theorem productSize_dropLast (nonempty : ∀ input ∈ subresults,input.rows ≠ []) :
    productSize (contents subresults.dropLast) ≤ productSize (contents subresults) := by
  rcases List.eq_nil_or_concat subresults with rfl | ⟨first,last,rfl⟩
  · rfl
  · rw [concat_eq_append,List.dropLast_concat,contents_concat,productSize_concat,length_content]
    refine Nat.le_mul_of_pos_right _ (length_pos_iff.mpr (nonempty last ?_))
    rw [concat_eq_append]
    exact mem_append_right first (mem_singleton_self last)

theorem run_quiet (nonempty : ∀ input ∈ subresults,input.rows ≠ []) (smallLimit : limit < 2 ^ 64) (smallOffset : offset < 2 ^ 64)
    (enough : emptyBeforeLast idTables ≤ subresults.length) (quiet : Quiet subresults limit offset lastTableOffset idTables) :
    run chunkSize resultWidth subresults limit offset lastTableOffset idTables = some [] := by
  induction idTables generalizing subresults lastTableOffset with
  | nil => rfl
  | cons idTable idTables ih =>
    have positive := productSize_contents_pos nonempty
    have delivered : deliver chunkSize resultWidth subresults limit offset lastTableOffset idTable = some [] := by
      rw [deliver]
      split
      next => rfl
      next someRows =>
        rcases quiet with allEmpty | rfl | skipped
        · exact absurd (allEmpty idTable mem_cons_self) someRows
        · exact produceTablesLazily_noLimit
        · refine produceTablesLazily_skipped nonempty (rows_of_not_isEmpty someRows) smallLimit smallOffset (le_trans (Nat.mul_le_mul_left _ ?_) skipped)
          rw [rowsOf_cons,length_append,length_content]
          omega
    cases idTables with
    | nil => rw [run_singleton,delivered]
    | cons next idTables =>
      rw [emptyBeforeLast_cons_cons] at enough
      obtain ⟨remaining,isRemaining⟩ := exists_remainingTables (fun isEmpty : isEmptyTable idTable = true => by
        rw [if_pos isEmpty] at enough
        omega : isEmptyTable idTable = true → 0 < subresults.length)
      have isTables := (remainingTables_eq_some isRemaining).1
      have fewer : productSize (contents remaining) ≤ productSize (contents subresults) := by
        rw [isTables]
        split
        · exact productSize_dropLast nonempty
        · exact le_rfl
      have quietRest : Quiet remaining limit offset ((lastTableOffset + idTable.numRows) % 2 ^ 64) (next :: idTables) := by
        rcases quiet with allEmpty | noLimit | skipped
        · exact .inl (forall_mem_cons.mp allEmpty).2
        · exact .inr (.inl noLimit)
        · rw [rowsOf_cons,length_append,length_content,← Nat.add_assoc] at skipped
          have inside := (Nat.le_mul_of_pos_left _ positive).trans skipped
          rw [Quiet,mod_eq_of_lt (by omega)]
          exact .inr (.inr ((Nat.mul_le_mul_right _ fewer).trans skipped))
      have nonemptyRest : ∀ input ∈ remaining,input.rows ≠ [] := by
        intro input member
        rw [isTables] at member
        split at member
        · exact nonempty input ((dropLast_sublist subresults).subset member)
        · exact nonempty input member
      have enoughRest : emptyBeforeLast (next :: idTables) ≤ remaining.length := by
        rw [isTables]
        split
        next isEmpty =>
          rw [if_pos isEmpty] at enough
          rw [length_dropLast]
          omega
        next notEmpty =>
          rw [if_neg notEmpty] at enough
          exact enough
      rw [run_cons_cons delivered,isRemaining,bind_some]
      have rest := ih nonemptyRest enoughRest quietRest
      simp only [flatten_nil,length_nil,Nat.sub_zero,Nat.add_zero,rest]
      rfl

def expectedRows (subresults : List (IdTable Id)) (limit offset lastTableOffset : Nat) (idTables : List (IdTable Id)) : ResultTable Id :=
  (((productRows (contents subresults ++ [rowsOf idTables])).drop (offset - productSize (contents subresults) * lastTableOffset)).take limit).map
    (List.map some)

theorem length_expectedRows : (expectedRows subresults limit offset lastTableOffset idTables).length =
    min limit (productSize (contents subresults) * (rowsOf idTables).length - (offset - productSize (contents subresults) * lastTableOffset)) := by
  rw [expectedRows,length_map,length_take,length_drop,length_productRows,productSize_concat]

theorem expectedRows_cons {produced : Nat} (inside : productSize (contents subresults) * lastTableOffset ≤ offset)
    (isProduced : produced = (expectedRows subresults limit offset lastTableOffset [idTable]).length) :
    expectedRows subresults limit offset lastTableOffset (idTable :: idTables) = expectedRows subresults limit offset lastTableOffset [idTable] ++
      expectedRows subresults (limit - produced) (offset + produced) (lastTableOffset + idTable.numRows) idTables := by
  have rows : rowsOf [idTable] = idTable.content := append_nil _
  rw [length_expectedRows,rows,length_content] at isProduced
  have length : (productRows (contents subresults ++ [idTable.content])).length = productSize (contents subresults) * idTable.numRows := by
    rw [length_productRows,productSize_concat,length_content]
  simp only [expectedRows,rows]
  rw [rowsOf_cons,productRows_concat_append,drop_append,take_append,map_append,length_drop,length,Nat.mul_add]
  congr 2
  have left : limit - produced =
      limit - (productSize (contents subresults) * idTable.numRows - (offset - productSize (contents subresults) * lastTableOffset)) := by omega
  rw [← left]
  by_cases noLimit : limit - produced = 0
  · rw [noLimit,take_zero,take_zero]
  · congr 2
    omega

def NothingBehindEmpty (subresults : List (IdTable Id)) (limit offset lastTableOffset : Nat) (idTables : List (IdTable Id)) : Prop :=
  (∀ idTable ∈ idTables.dropWhile hasRows,isEmptyTable idTable = true) ∨ limit = 0 ∨
    offset + limit ≤ productSize (contents subresults) * (lastTableOffset + (rowsOf (idTables.takeWhile hasRows)).length) ∨
    productSize (contents subresults) * (lastTableOffset + (rowsOf idTables).length) ≤ offset

theorem deliver_eq (someChunk : 0 < chunkSize) (nonempty : ∀ input ∈ subresults,input.rows ≠ []) (someRows : ¬isEmptyTable idTable = true)
    (width : resultWidth = ((subresults ++ [idTable]).map IdTable.numColumns).sum)
    (small : productSize (contents subresults) * (lastTableOffset + idTable.numRows) < 2 ^ 64)
    (smallLimit : limit < 2 ^ 64) (smallOffset : offset < 2 ^ 64) (inside : productSize (contents subresults) * lastTableOffset ≤ offset) :
    ∃ tables,deliver chunkSize resultWidth subresults limit offset lastTableOffset idTable = some tables ∧
      tables.flatten = expectedRows subresults limit offset lastTableOffset [idTable] := by
  rw [deliver,if_neg someRows,produceTablesLazily,expectedRows,rowsOf_cons,rowsOf,flatMap_nil,append_nil,← contents_concat]
  exact produceRounds_eq someChunk nonempty (rows_of_not_isEmpty someRows) small inside smallLimit smallOffset width (lt_succ_self limit)

structure Left (subresults : List (IdTable Id)) (limit offset lastTableOffset : Nat) (idTable : IdTable Id) (idTables : List (IdTable Id))
    (produced : Nat) : Prop where
  small : productSize (contents subresults) * (lastTableOffset + idTable.numRows + (rowsOf idTables).length) < 2 ^ 64
  smallLimit : limit - produced < 2 ^ 64
  smallOffset : offset + produced < 2 ^ 64
  inside : limit - produced = 0 ∨ productSize (contents subresults) * (lastTableOffset + idTable.numRows) ≤ offset + produced
  sameOffset : (lastTableOffset + idTable.numRows) % 2 ^ 64 = lastTableOffset + idTable.numRows
  behind : NothingBehindEmpty subresults limit offset lastTableOffset (idTable :: idTables) ↔
    NothingBehindEmpty subresults (limit - produced) (offset + produced) (lastTableOffset + idTable.numRows) idTables

theorem all_isEmpty_of_rowsOf (noRows : rowsOf idTables = []) : ∀ idTable ∈ idTables,isEmptyTable idTable = true := by
  intro idTable member
  have noContent := flatMap_eq_nil_iff.mp noRows idTable member
  rw [IdTable.content,map_eq_nil_iff] at noContent
  rw [isEmptyTable,noContent]
  rfl

theorem left_of_deliver {produced : Nat} (nonempty : ∀ input ∈ subresults,input.rows ≠ []) (someRows : ¬isEmptyTable idTable = true)
    (small : productSize (contents subresults) * (lastTableOffset + (rowsOf (idTable :: idTables)).length) < 2 ^ 64)
    (smallLimit : limit < 2 ^ 64) (smallOffset : offset < 2 ^ 64) (inside : productSize (contents subresults) * lastTableOffset ≤ offset)
    (isProduced : produced = (expectedRows subresults limit offset lastTableOffset [idTable]).length) :
    Left subresults limit offset lastTableOffset idTable idTables produced := by
  have positive := productSize_contents_pos nonempty
  have rows : (rowsOf [idTable]).length = idTable.numRows := by rw [rowsOf_cons,length_append,length_content]; rfl
  have notEmpty : hasRows idTable = true := by simpa [hasRows] using someRows
  rw [length_expectedRows,rows] at isProduced
  rw [rowsOf_cons,length_append,length_content,← Nat.add_assoc] at small
  have fewerRows : lastTableOffset + idTable.numRows ≤ productSize (contents subresults) * (lastTableOffset + idTable.numRows + (rowsOf idTables).length) :=
    (Nat.le_add_right _ _).trans (Nat.le_mul_of_pos_left _ positive)
  have expand : productSize (contents subresults) * (lastTableOffset + idTable.numRows + (rowsOf idTables).length) =
      productSize (contents subresults) * lastTableOffset + productSize (contents subresults) * idTable.numRows +
        productSize (contents subresults) * (rowsOf idTables).length := by rw [Nat.mul_add,Nat.mul_add]
  refine ⟨small,by omega,by omega,?_,mod_eq_of_lt (by omega),?_⟩
  · rw [Nat.mul_add]
    omega
  · simp only [NothingBehindEmpty,dropWhile_cons_of_pos notEmpty,takeWhile_cons_of_pos notEmpty,rowsOf_cons,length_append,length_content,
      ← Nat.add_assoc,expand]
    simp only [Nat.mul_add]
    constructor
    · rintro (allEmpty | noLimit | before | skipped)
      · exact .inl allEmpty
      · exact .inr (.inl (by omega))
      · exact .inr (.inr (.inl (by omega)))
      · exact .inr (.inr (.inr (by omega)))
    · rintro (allEmpty | usedUp | before | skipped)
      · exact .inl allEmpty
      · by_cases noLimit : limit = 0
        · exact .inr (.inl noLimit)
        · exact .inr (.inr (.inl (by omega)))
      · exact .inr (.inr (.inl (by omega)))
      · by_cases noRows : (rowsOf idTables).length = 0
        · refine .inl (fun table member => all_isEmpty_of_rowsOf (length_eq_zero_iff.mp noRows) table ?_)
          exact (dropWhile_sublist _).subset member
        · have someMore := Nat.mul_pos positive (Nat.pos_of_ne_zero noRows)
          exact .inr (.inr (.inr (by omega)))

theorem run_eq (someChunk : 0 < chunkSize) (nonempty : ∀ input ∈ subresults,input.rows ≠ [])
    (width : ∀ idTable ∈ idTables,resultWidth = ((subresults ++ [idTable]).map IdTable.numColumns).sum)
    (small : productSize (contents subresults) * (lastTableOffset + (rowsOf idTables).length) < 2 ^ 64) (smallLimit : limit < 2 ^ 64)
    (smallOffset : offset < 2 ^ 64) (inside : limit = 0 ∨ productSize (contents subresults) * lastTableOffset ≤ offset)
    (enough : emptyBeforeLast idTables ≤ subresults.length) (behind : NothingBehindEmpty subresults limit offset lastTableOffset idTables) :
    ∃ tables,run chunkSize resultWidth subresults limit offset lastTableOffset idTables = some tables ∧
      tables.flatten = expectedRows subresults limit offset lastTableOffset idTables := by
  induction idTables generalizing limit offset lastTableOffset with
  | nil =>
    refine ⟨[],rfl,?_⟩
    have noRows : (expectedRows subresults limit offset lastTableOffset []).length = 0 := by rw [length_expectedRows,rowsOf]; simp
    rw [length_eq_zero_iff.mp noRows]
    rfl
  | cons idTable idTables ih =>
    by_cases noLimit : limit = 0
    · refine ⟨[],run_quiet nonempty smallLimit smallOffset enough (.inr (.inl noLimit)),?_⟩
      rw [expectedRows,noLimit,take_zero]
      rfl
    have insideTable := inside.resolve_left noLimit
    by_cases isEmpty : isEmptyTable idTable = true
    · have notKept : ¬hasRows idTable = true := by simpa [hasRows] using isEmpty
      have noRows : Quiet subresults limit offset lastTableOffset (idTable :: idTables) ∧
          (expectedRows subresults limit offset lastTableOffset (idTable :: idTables)).length = 0 := by
        rw [length_expectedRows]
        rw [Nat.mul_add] at small
        rcases behind with allEmpty | noLimit' | before | skipped
        · rw [dropWhile_cons_of_neg notKept] at allEmpty
          have noRows : rowsOf (idTable :: idTables) = [] :=
            flatMap_eq_nil_iff.mpr (fun table member => (content_of_isEmpty (allEmpty table member)).1)
          exact ⟨.inl allEmpty,by rw [noRows,length_nil,Nat.mul_zero,Nat.zero_sub,Nat.min_zero]⟩
        · exact absurd noLimit' noLimit
        · rw [takeWhile_cons_of_neg notKept,rowsOf,flatMap_nil,length_nil,Nat.add_zero] at before
          omega
        · have skipped' := skipped
          rw [Nat.mul_add] at skipped'
          exact ⟨.inr (.inr skipped),by omega⟩
      refine ⟨[],run_quiet nonempty smallLimit smallOffset enough noRows.1,?_⟩
      rw [length_eq_zero_iff.mp noRows.2]
      rfl
    · have smallTable : productSize (contents subresults) * (lastTableOffset + idTable.numRows) < 2 ^ 64 := by
        refine lt_of_le_of_lt (Nat.mul_le_mul_left _ ?_) small
        rw [rowsOf_cons,length_append,length_content]
        omega
      obtain ⟨tables,delivered,rows⟩ := @deliver_eq Id chunkSize resultWidth subresults limit offset lastTableOffset idTable someChunk nonempty isEmpty
        (width idTable mem_cons_self) smallTable smallLimit smallOffset insideTable
      have left := left_of_deliver nonempty isEmpty small smallLimit smallOffset insideTable (congrArg List.length rows)
      have split := @expectedRows_cons Id subresults limit offset lastTableOffset idTable idTables tables.flatten.length insideTable (congrArg List.length rows)
      cases idTables with
      | nil => exact ⟨tables,by rw [run_singleton,delivered],rows⟩
      | cons next idTables =>
        rw [emptyBeforeLast_cons_cons,if_neg isEmpty,Nat.add_zero] at enough
        obtain ⟨rest,isRest,restRows⟩ := ih (forall_mem_cons.mp width).2 left.small left.smallLimit left.smallOffset
          left.inside enough (left.behind.mp behind)
        refine ⟨tables ++ rest,?_,by rw [flatten_append,rows,restRows,split]⟩
        rw [run_cons_cons delivered,remainingTables,if_neg isEmpty,bind_some,left.sameOffset,isRest]
        rfl

theorem run_cons_cons_inv (isRun : run chunkSize resultWidth subresults limit offset lastTableOffset (idTable :: next :: idTables) = some tables) :
    ∃ first remaining rest,deliver chunkSize resultWidth subresults limit offset lastTableOffset idTable = some first ∧
      remainingTables subresults idTable = some remaining ∧
      run chunkSize resultWidth remaining (limit - first.flatten.length) (offset + first.flatten.length)
        ((lastTableOffset + idTable.numRows) % 2 ^ 64) (next :: idTables) = some rest ∧ tables = first ++ rest := by
  cases delivered : deliver chunkSize resultWidth subresults limit offset lastTableOffset idTable with
  | none =>
    rw [run,delivered] at isRun
    cases isRun
  | some first =>
    rw [run_cons_cons delivered] at isRun
    simp only [bind_eq_some_iff,Option.map_eq_some_iff] at isRun
    obtain ⟨remaining,isRemaining,rest,isRest,isTables⟩ := isRun
    exact ⟨first,remaining,rest,rfl,isRemaining,isRest,isTables.symm⟩

theorem enough_of_run (isRun : run chunkSize resultWidth subresults limit offset lastTableOffset idTables = some tables) :
    emptyBeforeLast idTables ≤ subresults.length := by
  induction idTables generalizing subresults limit offset lastTableOffset tables with
  | nil => exact Nat.zero_le _
  | cons idTable idTables ih =>
    cases idTables with
    | nil => exact Nat.zero_le _
    | cons next idTables =>
      obtain ⟨first,remaining,rest,_,isRemaining,isRest,_⟩ := run_cons_cons_inv isRun
      obtain ⟨isTables,someTables⟩ := remainingTables_eq_some isRemaining
      have enough := ih isRest
      rw [emptyBeforeLast_cons_cons]
      rw [isTables] at enough
      split
      next isEmpty =>
        rw [if_pos isEmpty,length_dropLast] at enough
        have positive := someTables isEmpty
        omega
      next notEmpty =>
        rw [if_neg notEmpty] at enough
        exact enough

theorem nil_of_noChunk (smallOffset : offset < 2 ^ 64)
    (isRun : run 0 resultWidth subresults limit offset lastTableOffset idTables = some tables) : tables = [] := by
  have noRows : ∀ {subresults limit offset lastTableOffset} {idTable : IdTable Id} {tables},offset < 2 ^ 64 →
      deliver 0 resultWidth subresults limit offset lastTableOffset idTable = some tables → tables = [] := by
    intro subresults limit offset lastTableOffset idTable tables small delivered
    rw [deliver] at delivered
    split at delivered
    next =>
      cases delivered
      rfl
    next => exact produceTablesLazily_noChunk small delivered
  induction idTables generalizing subresults limit offset lastTableOffset tables with
  | nil =>
    cases isRun
    rfl
  | cons idTable idTables ih =>
    cases idTables with
    | nil =>
      rw [run_singleton] at isRun
      exact noRows smallOffset isRun
    | cons next idTables =>
      obtain ⟨first,remaining,rest,delivered,_,isRest,rfl⟩ := run_cons_cons_inv isRun
      have isFirst := noRows smallOffset delivered
      rw [isFirst,flatten_nil,length_nil,Nat.add_zero] at isRest
      rw [isFirst,ih smallOffset isRest,append_nil]

theorem none_mem_of_run (missing : ∀ idTable ∈ idTables,((subresults ++ [idTable]).map IdTable.numColumns).sum < resultWidth)
    (isRun : run chunkSize resultWidth subresults limit offset lastTableOffset idTables = some tables) : ∀ row ∈ tables.flatten,none ∈ row := by
  have unwritten : ∀ {limit offset lastTableOffset} {subresults : List (IdTable Id)} {idTable tables},
      ((subresults ++ [idTable]).map IdTable.numColumns).sum < resultWidth →
      deliver chunkSize resultWidth subresults limit offset lastTableOffset idTable = some tables → ∀ row ∈ tables.flatten,none ∈ row := by
    intro limit offset lastTableOffset subresults idTable tables missing delivered
    rw [deliver] at delivered
    split at delivered
    next =>
      cases delivered
      exact fun row member => absurd member not_mem_nil
    next => exact none_mem_of_produceRounds missing delivered
  induction idTables generalizing subresults limit offset lastTableOffset tables with
  | nil =>
    cases isRun
    exact fun row member => absurd member not_mem_nil
  | cons idTable idTables ih =>
    cases idTables with
    | nil =>
      rw [run_singleton] at isRun
      exact unwritten (missing idTable mem_cons_self) isRun
    | cons next idTables =>
      obtain ⟨first,remaining,rest,delivered,isRemaining,isRest,rfl⟩ := run_cons_cons_inv isRun
      have fewer : remaining.Sublist subresults := by
        rw [(remainingTables_eq_some isRemaining).1]
        split
        · exact dropLast_sublist subresults
        · exact List.Sublist.refl subresults
      have missingRest : ∀ table ∈ next :: idTables,((remaining ++ [table]).map IdTable.numColumns).sum < resultWidth := by
        intro table member
        refine lt_of_le_of_lt ?_ (missing table (mem_cons_of_mem idTable member))
        exact ((fewer.append_right [table]).map IdTable.numColumns).sum_le_sum (fun _ _ => Nat.zero_le _)
      intro row member
      rw [flatten_append] at member
      rcases mem_append.mp member with isFirst | isLater
      · exact unwritten (missing idTable mem_cons_self) delivered row isFirst
      · exact ih missingRest isRest row isLater

theorem expectedRows_written {row : List (Option Id)} (member : row ∈ expectedRows subresults limit offset lastTableOffset idTables) : none ∉ row := by
  obtain ⟨written,_,rfl⟩ := List.mem_map.mp member
  simp

theorem behind_of_run (someChunk : 0 < chunkSize) (nonempty : ∀ input ∈ subresults,input.rows ≠ [] ∧ 0 < input.numColumns)
    (width : ∀ idTable ∈ idTables,resultWidth = ((subresults ++ [idTable]).map IdTable.numColumns).sum)
    (small : productSize (contents subresults) * (lastTableOffset + (rowsOf idTables).length) < 2 ^ 64) (smallLimit : limit < 2 ^ 64)
    (smallOffset : offset < 2 ^ 64) (inside : limit = 0 ∨ productSize (contents subresults) * lastTableOffset ≤ offset)
    (isRun : run chunkSize resultWidth subresults limit offset lastTableOffset idTables = some tables)
    (rows : tables.flatten = expectedRows subresults limit offset lastTableOffset idTables) :
    NothingBehindEmpty subresults limit offset lastTableOffset idTables := by
  induction idTables generalizing limit offset lastTableOffset tables with
  | nil => exact .inl (fun idTable member => absurd member not_mem_nil)
  | cons idTable idTables ih =>
    by_cases noLimit : limit = 0
    · exact .inr (.inl noLimit)
    have insideTable := inside.resolve_left noLimit
    cases idTables with
    | nil =>
      by_cases isEmpty : isEmptyTable idTable = true
      · refine .inl (fun table member => ?_)
        rw [mem_singleton.mp ((dropWhile_sublist _).subset member)]
        exact isEmpty
      · refine .inl (fun table member => ?_)
        have notEmpty : hasRows idTable = true := by simpa [hasRows] using isEmpty
        rw [dropWhile_cons_of_pos notEmpty] at member
        exact absurd member not_mem_nil
    | cons next idTables =>
      obtain ⟨first,remaining,rest,delivered,isRemaining,isRest,rfl⟩ := run_cons_cons_inv isRun
      obtain ⟨isTables,someTables⟩ := remainingTables_eq_some isRemaining
      by_cases isEmpty : isEmptyTable idTable = true
      · -- a materialized table is removed, so no row may be yielded from here on
        rw [deliver,if_pos isEmpty] at delivered
        cases delivered
        rw [if_pos isEmpty] at isTables
        obtain ⟨others,removed,rfl⟩ : ∃ others removed,subresults = others ++ [removed] := by
          rcases List.eq_nil_or_concat subresults with noTables | ⟨others,removed,isConcat⟩
          · exact absurd (someTables isEmpty) (by rw [noTables]; exact Nat.lt_irrefl 0)
          · exact ⟨others,removed,by rw [isConcat,concat_eq_append]⟩
        rw [List.dropLast_concat] at isTables
        subst isTables
        have someColumns := (nonempty removed (mem_append_right remaining (mem_singleton_self removed))).2
        have missing : ∀ table ∈ next :: idTables,((remaining ++ [table]).map IdTable.numColumns).sum < resultWidth := by
          intro table member
          rw [width table (mem_cons_of_mem idTable member)]
          simp only [map_append,map_cons,map_nil,sum_append,sum_cons,sum_nil]
          omega
        have unwritten := none_mem_of_run missing isRest
        have noRows : expectedRows (remaining ++ [removed]) limit offset lastTableOffset (idTable :: next :: idTables) = [] := by
          rw [nil_append] at rows
          rw [← rows]
          refine eq_nil_iff_forall_not_mem.mpr (fun row member => ?_)
          have written := unwritten row member
          rw [rows] at member
          exact expectedRows_written member written
        have length := congrArg List.length noRows
        rw [length_expectedRows,length_nil] at length
        refine .inr (.inr (.inr ?_))
        rw [Nat.mul_add]
        omega
      · have someRows := isEmpty
        have nonemptyRows : ∀ input ∈ subresults,input.rows ≠ [] := fun input member => (nonempty input member).1
        have smallTable : productSize (contents subresults) * (lastTableOffset + idTable.numRows) < 2 ^ 64 := by
          refine lt_of_le_of_lt (Nat.mul_le_mul_left _ ?_) small
          rw [rowsOf_cons,length_append,length_content]
          omega
        obtain ⟨tables,isDelivered,firstRows⟩ := @deliver_eq Id chunkSize resultWidth subresults limit offset lastTableOffset idTable someChunk nonemptyRows
          isEmpty (width idTable mem_cons_self) smallTable smallLimit smallOffset insideTable
        rw [delivered] at isDelivered
        cases isDelivered
        have left := left_of_deliver nonemptyRows isEmpty small smallLimit smallOffset insideTable (congrArg List.length firstRows)
        have split := @expectedRows_cons Id subresults limit offset lastTableOffset idTable (next :: idTables) first.flatten.length insideTable
          (congrArg List.length firstRows)
        rw [flatten_append,split,← firstRows] at rows
        rw [if_neg isEmpty] at isTables
        rw [isTables,left.sameOffset] at isRest
        exact left.behind.mpr (ih (forall_mem_cons.mp width).2 left.small left.smallLimit left.smallOffset
          left.inside isRest (append_cancel_left rows))

end Runs

section Consumer
variable (chunkSize : Nat) (clause : LimitOffsetClause) (subresults : List (IdTable Id)) {lazyWidth : Nat} (lazyTables : List (List (Fin lazyWidth → Id)))

def lazyResult : List (IdTable Id) := lazyTables.map (IdTable.mk lazyWidth)

def materializedChildren : List (IdTable Id) := subresults ++ [⟨lazyWidth,lazyTables.flatten⟩]

def widthOf (idTables : List (IdTable Id)) : Nat := (idTables.map IdTable.numColumns).sum

def limitedProduct : ResultTable Id := (clause.slice (productRows (contents (materializedChildren subresults lazyTables)))).map (List.map some)

def Correct : Prop :=
  ∃ tables,createLazyConsumer chunkSize (widthOf (materializedChildren subresults lazyTables)) clause subresults (lazyResult lazyTables) = some tables ∧
    tables.flatten = limitedProduct clause subresults lazyTables

/-- Some rows can be yielded, every table that is removed exists, and an empty table hides no row of the result. -/
structure DeliversAll : Prop where
  someChunk : 0 < chunkSize ∨ clause.limitOrDefault = 0 ∨ productSize (contents subresults) * lazyTables.flatten.length ≤ clause.offset
  enough : emptyBeforeLast (lazyResult lazyTables) ≤ subresults.length
  behind : NothingBehindEmpty subresults clause.limitOrDefault clause.offset 0 (lazyResult lazyTables)

variable {chunkSize clause subresults lazyTables}

theorem rowsOf_lazyResult : rowsOf (lazyResult lazyTables) = (⟨lazyWidth,lazyTables.flatten⟩ : IdTable Id).content := by
  rw [rowsOf,lazyResult,flatMap_map,IdTable.content,map_flatten]
  rfl

theorem length_rowsOf_lazyResult : (rowsOf (lazyResult lazyTables)).length = lazyTables.flatten.length := by
  rw [rowsOf_lazyResult,length_content]
  rfl

theorem width_lazyResult : ∀ idTable ∈ lazyResult lazyTables,
    widthOf (materializedChildren subresults lazyTables) = ((subresults ++ [idTable]).map IdTable.numColumns).sum := by
  intro idTable member
  obtain ⟨rows,_,rfl⟩ := List.mem_map.mp member
  rw [widthOf,materializedChildren,map_append,map_append]
  rfl

theorem limitedProduct_eq (small : productSize (contents subresults) * lazyTables.flatten.length < 2 ^ 64) :
    limitedProduct clause subresults lazyTables = expectedRows subresults clause.limitOrDefault clause.offset 0 (lazyResult lazyTables) := by
  have smallRows : (productRows (contents (materializedChildren subresults lazyTables))).length < 2 ^ 64 := by
    rw [length_productRows,materializedChildren,contents_concat,productSize_concat,length_content]
    exact small
  rw [limitedProduct,LimitOffsetClause.slice_eq clause smallRows,expectedRows,rowsOf_lazyResult,materializedChildren,contents_concat,Nat.mul_zero,
    Nat.sub_zero]

theorem createLazyConsumer_eq (resultWidth : Nat) :
    createLazyConsumer chunkSize resultWidth clause subresults (lazyResult lazyTables) =
      run chunkSize resultWidth subresults clause.limitOrDefault clause.offset 0 (lazyResult lazyTables) := consumeAll_eq rfl _

/-- On materialized children the rows of the limited product are written. The lazy consumer yields the same rows if it removes no table that is needed,
and otherwise it does not, provided that every materialized child has a column. -/
theorem createLazyConsumer_correct_iff (chunkSize : Nat) (clause : LimitOffsetClause) (fits : clause.Fits) (subresults : List (IdTable Id))
    (nonempty : ∀ input ∈ subresults,input.rows ≠ []) (lazyTables : List (List (Fin lazyWidth → Id)))
    (small : productSize (contents subresults) * lazyTables.flatten.length < 2 ^ 64) :
    writeAllColumns (widthOf (materializedChildren subresults lazyTables)) (materializedChildren subresults lazyTables) clause.offset clause.limitOrDefault 0 =
        some (limitedProduct clause subresults lazyTables) ∧
      (DeliversAll chunkSize clause subresults lazyTables → Correct chunkSize clause subresults lazyTables) ∧
      ((∀ input ∈ subresults,0 < input.numColumns) →
        (Correct chunkSize clause subresults lazyTables ↔ DeliversAll chunkSize clause subresults lazyTables)) := by
  have smallRows : productSize (contents subresults) * (0 + (rowsOf (lazyResult lazyTables)).length) < 2 ^ 64 := by
    rw [Nat.zero_add,length_rowsOf_lazyResult]
    exact small
  have inside : clause.limitOrDefault = 0 ∨ productSize (contents subresults) * 0 ≤ clause.offset := .inr (by rw [Nat.mul_zero]; exact Nat.zero_le _)
  have enoughRows : DeliversAll chunkSize clause subresults lazyTables → Correct chunkSize clause subresults lazyTables := by
    rintro ⟨someChunk,enough,behind⟩
    rw [Correct,createLazyConsumer_eq,limitedProduct_eq small]
    rcases Nat.eq_zero_or_pos chunkSize with noChunk | someChunk'
    · have nothing := someChunk.resolve_left (by omega)
      refine ⟨[],run_quiet nonempty fits.limit fits.offset enough (.inr ?_),?_⟩
      · rw [Nat.zero_add,length_rowsOf_lazyResult]
        exact nothing
      · have length := @length_expectedRows Id subresults clause.limitOrDefault clause.offset 0 (lazyResult lazyTables)
        rw [length_rowsOf_lazyResult,Nat.mul_zero,Nat.sub_zero] at length
        rw [length_eq_zero_iff.mp (length.trans (by omega))]
        rfl
    · exact run_eq someChunk' nonempty width_lazyResult smallRows fits.limit fits.offset inside enough behind
  refine ⟨?_,enoughRows,fun someColumns => ⟨?_,enoughRows⟩⟩
  · have written := @writeAllColumns_materialized Id subresults ⟨lazyWidth,lazyTables.flatten⟩ clause.offset clause.limitOrDefault
      (widthOf (materializedChildren subresults lazyTables)) nonempty small fits.limit fits.offset rfl
    rw [limitedProduct_eq small,expectedRows,rowsOf_lazyResult,← contents_concat,Nat.mul_zero,Nat.sub_zero]
    exact written
  · rw [Correct,createLazyConsumer_eq,limitedProduct_eq small]
    rintro ⟨tables,isRun,rows⟩
    refine ⟨?_,enough_of_run isRun,?_⟩
    · rcases Nat.eq_zero_or_pos chunkSize with rfl | someChunk
      · rw [nil_of_noChunk fits.offset isRun] at rows
        have length := congrArg List.length rows
        rw [length_expectedRows,length_rowsOf_lazyResult,Nat.mul_zero,Nat.sub_zero,flatten_nil,length_nil] at length
        exact .inr (by omega)
      · exact .inl someChunk
    · rcases Nat.eq_zero_or_pos chunkSize with rfl | someChunk
      · rw [nil_of_noChunk fits.offset isRun] at rows
        have length := congrArg List.length rows
        rw [length_expectedRows,Nat.mul_zero,Nat.sub_zero,flatten_nil,length_nil] at length
        rw [NothingBehindEmpty,Nat.zero_add,Nat.zero_add]
        exact .inr (by omega)
      · exact behind_of_run someChunk (fun input member => ⟨nonempty input member,someColumns input member⟩) width_lazyResult smallRows fits.limit fits.offset
          inside isRun rows

def twoRows : List (IdTable Nat) := [⟨1,[![1],![2]]⟩]

/-- Two lazy tables and an empty one at the end, in chunks of one row. -/
theorem createLazyConsumer_correct_twoRows :
    writeAllColumns (widthOf (materializedChildren twoRows [[![7]],[![8]],[]])) (materializedChildren twoRows [[![7]],[![8]],[]]) 1 2 0 =
        some (limitedProduct {limit := some 2,offset := 1} twoRows [[![7]],[![8]],[]]) ∧
      (DeliversAll 1 {limit := some 2,offset := 1} twoRows [[![7]],[![8]],[]] → Correct 1 {limit := some 2,offset := 1} twoRows [[![7]],[![8]],[]]) ∧
      ((∀ input ∈ twoRows,0 < input.numColumns) →
        (Correct 1 {limit := some 2,offset := 1} twoRows [[![7]],[![8]],[]] ↔ DeliversAll 1 {limit := some 2,offset := 1} twoRows [[![7]],[![8]],[]])) :=
  createLazyConsumer_correct_iff 1 {limit := some 2,offset := 1} ⟨by decide,by decide⟩ twoRows (by simp [twoRows]) [[![7]],[![8]],[]] (by decide)

/-- Behind the empty table the materialized child is removed, so only its column is left and one row is yielded instead of two. -/
theorem createLazyConsumer_removesChild :
    createLazyConsumer 1000000 2 {limit := some 10} twoRows (lazyResult [[],[![7]]]) = some [[[some 7,none]]] ∧
      writeAllColumns 2 (materializedChildren twoRows [[],[![7]]]) 0 10 0 = some [[some 1,some 7],[some 2,some 7]] ∧
      limitedProduct {limit := some 10} twoRows [[],[![7]]] = [[some 1,some 7],[some 2,some 7]] := by
  decide +kernel

end Consumer
end Qlever.CartesianProductJoin
