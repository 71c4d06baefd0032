import Qlever.Library.Run

/-! The rows of a join result are requested by the indices of the rows that match, and are written in blocks. What an access outside of a table or
a failed check does is `none`.
-/
namespace Qlever.AddCombinedRowToIdTable
open Qlever List
open Option (bind_some bind_eq_bind isNone_none)
open Function (update update_self update_of_ne)
variable {Id Word : Type} {width : Nat}

section IdTable

structure IdTable (Id : Type) (numColumns : Nat) where
  numRows : Nat
  column : Fin numColumns → List Id
  length_column : ∀ c,(column c).length = numRows

namespace IdTable

def row (table : IdTable Id width) (i : Fin table.numRows) : Fin width → Id :=
  fun c => (table.column c).get (i.cast (table.length_column c).symm)

def rows (table : IdTable Id width) : List (Fin width → Id) := ofFn table.row

def empty : IdTable Id width := ⟨0,fun _ => [],fun _ => rfl⟩

/-- The new entries are not initialized, they are given here by `filler`. -/
def resize (filler : Id) (table : IdTable Id width) (numRows : Nat) : IdTable Id width where
  numRows := numRows
  column c := (table.column c).take numRows ++ replicate (numRows - table.numRows) filler
  length_column c := by
    rw [length_append,length_take,table.length_column,length_replicate]
    omega

def set (table : IdTable Id width) (i : Nat) (c : Fin width) (id : Id) : IdTable Id width where
  numRows := table.numRows
  column := update table.column c ((table.column c).set i id)
  length_column c' := by
    by_cases same : c' = c
    · rw [same,update_self,length_set,table.length_column]
    · rw [update_of_ne same,table.length_column]

theorem map_rows (table : IdTable Id width) (c : Fin width) : table.rows.map (fun row => row c) = table.column c := by
  rw [rows,map_ofFn]
  refine ext_getElem ?_ (fun i _ _ => ?_)
  · rw [length_ofFn,table.length_column]
  · rw [List.getElem_ofFn]
    rfl

theorem length_rows (table : IdTable Id width) : table.rows.length = table.numRows := length_ofFn

theorem ext_columns {xs ys : List (Fin width → Id)} (sameLength : xs.length = ys.length)
    (columns : ∀ c,xs.map (fun row => row c) = ys.map (fun row => row c)) : xs = ys := by
  refine ext_getElem sameLength (fun i inX inY => funext (fun c => ?_))
  have cell := congrArg (fun col => col[i]?) (columns c)
  simp only [List.getElem?_map,List.getElem?_eq_getElem inX,List.getElem?_eq_getElem inY,Option.map_some,Option.some_inj] at cell
  exact cell

end IdTable
end IdTable

/-- One of the two inputs: a table with a local vocabulary, or a plain view. A local vocabulary is given by what it keeps alive. -/
structure Input (Id Word : Type) where
  numColumns : Nat
  table : IdTable Id numColumns
  localVocab : Option (List Word)

namespace Input

def getColumn (input : Input Id Word) (colIdx : Nat) : Option (List Id) :=
  if inside : colIdx < input.numColumns then some (input.table.column ⟨colIdx,inside⟩) else none

def words (input : Input Id Word) : List Word := input.localVocab.getD []

end Input

/-- The arguments of the constructor that stay the same. The callback sees the table and the vocabulary and moves both out, or leaves them alone. -/
structure Config (Id Word : Type) (width : Nat) where
  undefined : Id
  filler : Id
  numJoinColumns : Nat
  bufferSize : Nat
  movesOut : Nat → IdTable Id width → List Word → Bool

structure TargetIndexAndRowIndices where
  targetIndex : Nat
  rowIndices : Nat × Nat

structure TargetIndexAndRowIndex where
  targetIndex : Nat
  rowIndex : Nat

structure Adder (Id Word : Type) (width : Nat) where
  numUndefinedPerColumn : Fin width → Nat
  inputLeftAndRight : Option (Input Id Word × Input Id Word)
  resultTable : IdTable Id width
  mergedVocab : List Word
  currentVocabs : Option (List Word) × Option (List Word)
  indexBuffer : List TargetIndexAndRowIndices
  optionalIndexBuffer : List TargetIndexAndRowIndex
  nextIndex : Nat
  /-- What the callback has taken so far. -/
  movedOut : List (IdTable Id width × List Word)
  numCalls : Nat

section Source
variable [DecidableEq Id] (config : Config Id Word width)

def getJoinValue (a b : Id) : Id := if a = config.undefined then b else a

def checkNumColumns (left right : Input Id Word) : Bool :=
  config.numJoinColumns ≤ left.numColumns && config.numJoinColumns ≤ right.numColumns &&
    width = left.numColumns + right.numColumns - config.numJoinColumns

structure Written (Id : Type) (width : Nat) where
  result : IdTable Id width
  numUndefinedPerColumn : Fin width → Nat
  nextResultColIdx : Nat

def writeColumn (oldSize : Nat) (ids : List (Nat × Id)) (written : Written Id width) : Option (Written Id width) :=
  if inside : written.nextResultColIdx < width then do
    let resultCol : Fin width := ⟨written.nextResultColIdx,inside⟩
    let result ← ids.foldlM (fun result (targetIndex,resultId) =>
      if oldSize + targetIndex < result.numRows then some (result.set (oldSize + targetIndex) resultCol resultId) else none) written.result
    let numUndef := written.numUndefinedPerColumn resultCol + ids.countP (fun entry => entry.2 = config.undefined)
    return ⟨result,update written.numUndefinedPerColumn resultCol numUndef,written.nextResultColIdx + 1⟩
  else none

variable (adder : Adder Id Word width)

def writeJoinColumn (left right : Input Id Word) (oldSize : Nat) (written : Written Id width) (colIdx : Nat) : Option (Written Id width) := do
  let colLeft ← left.getColumn colIdx
  let colRight ← right.getColumn colIdx
  let matching ← adder.indexBuffer.mapM (fun entry => do
    return (entry.targetIndex,getJoinValue config (← colLeft[entry.rowIndices.1]?) (← colRight[entry.rowIndices.2]?)))
  let optional ← adder.optionalIndexBuffer.mapM (fun entry => do return (entry.targetIndex,← colLeft[entry.rowIndex]?))
  writeColumn config oldSize (matching ++ optional) written

def writeNonJoinColumn (isColFromLeft : Bool) (left right : Input Id Word) (oldSize : Nat) (written : Written Id width) (colIdx : Nat) :
    Option (Written Id width) := do
  let col ← (if isColFromLeft then left else right).getColumn colIdx
  let matching ← adder.indexBuffer.mapM (fun entry => do
    return (entry.targetIndex,← col[if isColFromLeft then entry.rowIndices.1 else entry.rowIndices.2]?))
  let optional ← adder.optionalIndexBuffer.mapM (fun entry => do
    return (entry.targetIndex,← if isColFromLeft then col[entry.rowIndex]? else some config.undefined))
  writeColumn config oldSize (matching ++ optional) written

/-- The buffered rows, written below the first `oldSize` rows of the result. -/
def writeBuffers (left right : Input Id Word) : Option (Written Id width) := do
  let oldSize := adder.resultTable.numRows
  let result := adder.resultTable.resize config.filler (oldSize + adder.nextIndex)
  let written ← (range config.numJoinColumns).foldlM (writeJoinColumn config adder left right oldSize) ⟨result,adder.numUndefinedPerColumn,0⟩
  let written ← (range' config.numJoinColumns (left.numColumns - config.numJoinColumns)).foldlM
    (writeNonJoinColumn config adder true left right oldSize) written
  (range' config.numJoinColumns (right.numColumns - config.numJoinColumns)).foldlM
    (writeNonJoinColumn config adder false left right oldSize) written

def currentWords : List Word := adder.currentVocabs.1.getD [] ++ adder.currentVocabs.2.getD []

/-- The call of the callback, after which the vocabularies of the current inputs are merged again if the table is empty. -/
def invokeBlockwiseCallback : Adder Id Word width :=
  let adder :=
    if config.movesOut adder.numCalls adder.resultTable adder.mergedVocab then
      {adder with
        resultTable := .empty,mergedVocab := [],movedOut := adder.movedOut ++ [(adder.resultTable,adder.mergedVocab)],numCalls := adder.numCalls + 1}
    else {adder with numCalls := adder.numCalls + 1}
  if adder.resultTable.numRows = 0 then {adder with mergedVocab := currentWords adder} else adder

def flush : Option (Adder Id Word width) := do
  guard (adder.nextIndex = adder.indexBuffer.length + adder.optionalIndexBuffer.length)
  if adder.nextIndex = 0 then return adder
  let (left,right) ← adder.inputLeftAndRight
  let written ← writeBuffers config adder left right
  return invokeBlockwiseCallback config
    {adder with
      resultTable := written.result,numUndefinedPerColumn := written.numUndefinedPerColumn,indexBuffer := [],optionalIndexBuffer := [],nextIndex := 0}

def addRow (rowIndexA rowIndexB : Nat) : Option (Adder Id Word width) :=
  let adder := {adder with indexBuffer := adder.indexBuffer ++ [⟨adder.nextIndex,rowIndexA,rowIndexB⟩],nextIndex := adder.nextIndex + 1}
  if config.bufferSize < adder.nextIndex then flush config adder else some adder

def addOptionalRow (rowIndexA : Nat) : Option (Adder Id Word width) :=
  let adder := {adder with optionalIndexBuffer := adder.optionalIndexBuffer ++ [⟨adder.nextIndex,rowIndexA⟩],nextIndex := adder.nextIndex + 1}
  if config.bufferSize < adder.nextIndex then flush config adder else some adder

def flushBeforeInputChange : Option (Adder Id Word width) := do
  let adder := {adder with currentVocabs := (none,none)}
  if adder.nextIndex ≠ 0 then
    guard adder.inputLeftAndRight.isSome
    flush config adder
  else if adder.resultTable.numRows = 0 then return {adder with mergedVocab := []}
  else return adder

def mergeLeftVocab (input : Input Id Word) : Option (Adder Id Word width) := do
  guard adder.currentVocabs.1.isNone
  return {adder with currentVocabs := (input.localVocab,adder.currentVocabs.2),mergedVocab := adder.mergedVocab ++ input.words}

def mergeRightVocab (input : Input Id Word) : Option (Adder Id Word width) := do
  guard adder.currentVocabs.2.isNone
  return {adder with currentVocabs := (adder.currentVocabs.1,input.localVocab),mergedVocab := adder.mergedVocab ++ input.words}

def setInput (inputLeft inputRight : Input Id Word) : Option (Adder Id Word width) := do
  let adder ← flushBeforeInputChange config adder
  let adder ← mergeLeftVocab adder inputLeft
  let adder ← mergeRightVocab adder inputRight
  guard (checkNumColumns config inputLeft inputRight)
  return {adder with inputLeftAndRight := some (inputLeft,inputRight)}

def withoutRows (numColumns : Nat) : Input Id Word := ⟨numColumns,.empty,none⟩

def setOnlyLeftInputForOptionalJoin (inputLeft : Input Id Word) : Option (Adder Id Word width) := do
  let adder ← flushBeforeInputChange config adder
  let adder ← mergeLeftVocab adder inputLeft
  guard (inputLeft.numColumns ≤ width + config.numJoinColumns)
  return {adder with inputLeftAndRight := some (inputLeft,withoutRows (width + config.numJoinColumns - inputLeft.numColumns))}

def create (output : IdTable Id width) : Adder Id Word width :=
  ⟨fun _ => 0,none,output,[],(none,none),[],[],0,[],0⟩

def createWithInputs (input1 input2 : Input Id Word) (output : IdTable Id width) : Option (Adder Id Word width) := do
  guard (checkNumColumns config input1 input2)
  return {create output with inputLeftAndRight := some ({input1 with localVocab := none},{input2 with localVocab := none})}

inductive Call (Id Word : Type)
  | setInput (inputLeft inputRight : Input Id Word)
  | setOnlyLeftInputForOptionalJoin (inputLeft : Input Id Word)
  | addRow (rowIndexA rowIndexB : Nat)
  | addOptionalRow (rowIndexA : Nat)
  | flush

def call : Call Id Word → Option (Adder Id Word width)
  | .setInput inputLeft inputRight => setInput config adder inputLeft inputRight
  | .setOnlyLeftInputForOptionalJoin inputLeft => setOnlyLeftInputForOptionalJoin config adder inputLeft
  | .addRow rowIndexA rowIndexB => addRow config adder rowIndexA rowIndexB
  | .addOptionalRow rowIndexA => addOptionalRow config adder rowIndexA
  | .flush => flush config adder

def run (calls : List (Call Id Word)) : Option (Adder Id Word width) := do flush config (← calls.foldlM (call config) adder)

end Source

inductive Added
  | matching (a b : Nat)
  | optional (a : Nat)

section Buffers

def buffered (pending : List Added) (start : Nat) : List TargetIndexAndRowIndices :=
  (pending.zipIdx start).filterMap fun entry =>
    match entry with
    | (.matching a b,targetIndex) => some ⟨targetIndex,a,b⟩
    | (.optional _,_) => none

def bufferedOptional (pending : List Added) (start : Nat) : List TargetIndexAndRowIndex :=
  (pending.zipIdx start).filterMap fun entry =>
    match entry with
    | (.matching _ _,_) => none
    | (.optional a,targetIndex) => some ⟨targetIndex,a⟩

def idsOf (value : Added → Id) (pending : List Added) (start : Nat) : List (Nat × Id) :=
  (buffered pending start).map (fun entry => (entry.targetIndex,value (.matching entry.rowIndices.1 entry.rowIndices.2))) ++
    (bufferedOptional pending start).map (fun entry => (entry.targetIndex,value (.optional entry.rowIndex)))

theorem length_buffered (pending : List Added) (start : Nat) :
    (buffered pending start).length + (bufferedOptional pending start).length = pending.length := by
  induction pending generalizing start with
  | nil => rfl
  | cons added pending ih =>
    have rest := ih (start + 1)
    cases added with
    | matching a b =>
      change (buffered pending (start + 1)).length + 1 + (bufferedOptional pending (start + 1)).length = pending.length + 1
      omega
    | optional a =>
      change (buffered pending (start + 1)).length + ((bufferedOptional pending (start + 1)).length + 1) = pending.length + 1
      omega

section
variable (value : Added → Id) (pending : List Added)

theorem idsOf_perm (start : Nat) :
    (idsOf value pending start).Perm (((pending.map value).zipIdx start).map Prod.swap) := by
  induction pending generalizing start with
  | nil => exact List.Perm.nil
  | cons added pending ih =>
    rw [map_cons,zipIdx_cons,map_cons]
    cases added with
    | matching a b => exact (ih (start + 1)).cons _
    | optional a => exact perm_middle.trans ((ih (start + 1)).cons _)

theorem countP_idsOf (test : Id → Bool) :
    (idsOf value pending 0).countP (fun entry => test entry.2) = (pending.map value).countP test := by
  have values : ((pending.map value).zipIdx.map Prod.swap).map Prod.snd = pending.map value := by
    rw [map_map]
    exact zipIdx_map_fst 0 (pending.map value)
  rw [(idsOf_perm value pending 0).countP_eq]
  conv => rhs; rw [← values,countP_map]
  rfl

end

theorem buffered_append_matching (pending : List Added) (a b : Nat) :
    buffered (pending ++ [.matching a b]) 0 = buffered pending 0 ++ [⟨pending.length,a,b⟩] ∧
      bufferedOptional (pending ++ [.matching a b]) 0 = bufferedOptional pending 0 := by
  simp [buffered,bufferedOptional,zipIdx_append,filterMap_append]

theorem buffered_append_optional (pending : List Added) (a : Nat) :
    buffered (pending ++ [.optional a]) 0 = buffered pending 0 ∧
      bufferedOptional (pending ++ [.optional a]) 0 = bufferedOptional pending 0 ++ [⟨pending.length,a⟩] := by
  simp [buffered,bufferedOptional,zipIdx_append,filterMap_append]

end Buffers

section Columns

def writeAll (oldSize : Nat) (ids : List (Nat × Id)) (col : List Id) : List Id :=
  ids.foldl (fun col entry => col.set (oldSize + entry.1) entry.2) col

theorem length_writeAll (oldSize : Nat) (ids : List (Nat × Id)) (col : List Id) : (writeAll oldSize ids col).length = col.length := by
  induction ids generalizing col with
  | nil => rfl
  | cons entry ids ih => exact (ih _).trans length_set

variable {ids : List (Nat × Id)}

theorem getElem?_writeAll_of_not_target {oldSize i : Nat} (other : ∀ entry ∈ ids,oldSize + entry.1 ≠ i) (col : List Id) :
    (writeAll oldSize ids col)[i]? = col[i]? := by
  induction ids generalizing col with
  | nil => rfl
  | cons entry ids ih =>
    refine (ih (forall_mem_cons.mp other).2 _).trans ?_
    exact List.getElem?_set_ne (other entry mem_cons_self)

theorem getElem?_writeAll {oldSize : Nat} (distinct : (ids.map Prod.fst).Nodup) {entry : Nat × Id} (member : entry ∈ ids)
    {col : List Id} (inside : oldSize + entry.1 < col.length) : (writeAll oldSize ids col)[oldSize + entry.1]? = some entry.2 := by
  induction ids generalizing col with
  | nil => exact absurd member not_mem_nil
  | cons first ids ih =>
    rw [map_cons,nodup_cons] at distinct
    rcases mem_cons.mp member with rfl | member
    · have others : ∀ other ∈ ids,oldSize + other.1 ≠ oldSize + entry.1 :=
        fun other otherMember same => distinct.1 (List.mem_map.mpr ⟨other,otherMember,by omega⟩)
      exact (getElem?_writeAll_of_not_target others _).trans (List.getElem?_set_self inside)
    · exact ih distinct.2 member (by rw [length_set]; exact inside)

theorem writeAll_eq_append {values old fresh : List Id} (written : ids.Perm (values.zipIdx.map Prod.swap))
    (sameLength : fresh.length = values.length) : writeAll old.length ids (old ++ fresh) = old ++ values := by
  have targets : (ids.map Prod.fst).Perm (range values.length) := by
    refine (written.map Prod.fst).trans (List.Perm.of_eq ?_)
    rw [map_map,range_eq_range',← zipIdx_map_snd]
    rfl
  refine ext_getElem? (fun i => ?_)
  by_cases isOld : i < old.length
  · rw [List.getElem?_append_left isOld,getElem?_writeAll_of_not_target (fun entry _ => by omega),List.getElem?_append_left isOld]
  obtain ⟨t,rfl⟩ := Nat.exists_eq_add_of_le (not_lt.mp isOld)
  rw [List.getElem?_append_right (by omega),Nat.add_sub_cancel_left]
  by_cases isValue : t < values.length
  · have member : (t,values[t]) ∈ ids := by
      refine written.mem_iff.mpr (List.mem_map.mpr ⟨(values[t],t),?_,rfl⟩)
      exact mem_zipIdx_iff_getElem?.mpr (List.getElem?_eq_getElem isValue)
    rw [List.getElem?_eq_getElem isValue]
    exact getElem?_writeAll (targets.nodup_iff.mpr nodup_range) member (by rw [length_append]; omega)
  · rw [List.getElem?_eq_none (not_lt.mp isValue),List.getElem?_eq_none_iff,length_writeAll,length_append]
    omega

end Columns

section Writing
variable [DecidableEq Id] (config : Config Id Word width)

def Input.cell (undefined : Id) (input : Input Id Word) (rowIdx colIdx : Nat) : Id :=
  ((input.getColumn colIdx).bind (fun col => col[rowIdx]?)).getD undefined

/-- The ID in a column of a combined row: the join columns stand first, then the rest of the left row, then the rest of the right row. -/
def combinedCell (left right : Input Id Word) (colIdx : Nat) : Added → Id
  | .matching a b =>
    if colIdx < config.numJoinColumns then getJoinValue config (left.cell config.undefined a colIdx) (right.cell config.undefined b colIdx)
    else if colIdx < left.numColumns then left.cell config.undefined a colIdx
    else right.cell config.undefined b (colIdx - left.numColumns + config.numJoinColumns)
  | .optional a => if colIdx < left.numColumns then left.cell config.undefined a colIdx else config.undefined

def combinedRow (left right : Input Id Word) (added : Added) : Fin width → Id := fun c => combinedCell config left right c added

def Inside (left right : Input Id Word) : Added → Prop
  | .matching a b => a < left.table.numRows ∧ b < right.table.numRows
  | .optional a => a < left.table.numRows

structure Fits (left right : Input Id Word) : Prop where
  leftColumns : config.numJoinColumns ≤ left.numColumns
  rightColumns : config.numJoinColumns ≤ right.numColumns
  width_eq : width = left.numColumns + right.numColumns - config.numJoinColumns

omit [DecidableEq Id] in
theorem fits_iff {left right : Input Id Word} : checkNumColumns config left right = true ↔ Fits config left right := by
  rw [checkNumColumns,Bool.and_eq_true,Bool.and_eq_true,decide_eq_true_iff,decide_eq_true_iff,decide_eq_true_iff]
  exact ⟨fun ⟨⟨l,r⟩,w⟩ => ⟨l,r,w⟩,fun ⟨l,r,w⟩ => ⟨⟨l,r⟩,w⟩⟩

variable {colIdx : Nat}

omit [DecidableEq Id] in
theorem Input.getElem?_getColumn {input : Input Id Word} (undefined : Id) (inColumns : colIdx < input.numColumns) :
    ∃ col,input.getColumn colIdx = some col ∧ ∀ rowIdx < input.table.numRows,col[rowIdx]? = some (input.cell undefined rowIdx colIdx) := by
  have isColumn : input.getColumn colIdx = some (input.table.column ⟨colIdx,inColumns⟩) := dif_pos inColumns
  refine ⟨_,isColumn,fun rowIdx inRows => ?_⟩
  have inside : rowIdx < (input.table.column ⟨colIdx,inColumns⟩).length := by
    rw [input.table.length_column]
    exact inRows
  rw [Input.cell,isColumn,bind_some,List.getElem?_eq_getElem inside,Option.getD_some]

variable {config} {adder : Adder Id Word width} {left right : Input Id Word} {pending : List Added}

/-- The first `colIdx` columns of the pending rows have been written. -/
structure WrittenUpTo (config : Config Id Word width) (adder : Adder Id Word width) (left right : Input Id Word) (pending : List Added)
    (colIdx : Nat) (written : Written Id width) : Prop where
  next : written.nextResultColIdx = colIdx
  size : written.result.numRows = adder.resultTable.numRows + pending.length
  done : ∀ c : Fin width,c < colIdx →
    written.result.column c = adder.resultTable.column c ++ pending.map (combinedCell config left right c) ∧
      written.numUndefinedPerColumn c =
        adder.numUndefinedPerColumn c + (pending.map (combinedCell config left right c)).countP (fun id => id = config.undefined)
  rest : ∀ c : Fin width,colIdx ≤ c →
    written.result.column c = adder.resultTable.column c ++ replicate pending.length config.filler ∧
      written.numUndefinedPerColumn c = adder.numUndefinedPerColumn c

omit [DecidableEq Id] in
theorem foldlM_set (oldSize : Nat) (c : Fin width) {ids : List (Nat × Id)} {table : IdTable Id width}
    (inside : ∀ entry ∈ ids,oldSize + entry.1 < table.numRows) :
    ∃ table',ids.foldlM (fun (result : IdTable Id width) (targetIndex,resultId) =>
        if oldSize + targetIndex < result.numRows then some (result.set (oldSize + targetIndex) c resultId) else none) table = some table' ∧
      table'.numRows = table.numRows ∧ table'.column = update table.column c (writeAll oldSize ids (table.column c)) := by
  induction ids generalizing table with
  | nil => exact ⟨table,rfl,rfl,(Function.update_eq_self c _).symm⟩
  | cons entry ids ih =>
    obtain ⟨table',isTable',size,columns⟩ := @ih (table.set (oldSize + entry.1) c entry.2) (forall_mem_cons.mp inside).2
    refine ⟨table',?_,size,?_⟩
    · simp only [foldlM_cons,if_pos (inside entry mem_cons_self)]
      exact isTable'
    · have column_set : (table.set (oldSize + entry.1) c entry.2).column =
          update table.column c ((table.column c).set (oldSize + entry.1) entry.2) := rfl
      rw [columns,column_set,update_self,Function.update_idem]
      rfl

variable {written : Written Id width}

theorem writeColumn_step (upTo : WrittenUpTo config adder left right pending colIdx written)
    (inside : colIdx < width) :
    ∃ next,writeColumn config adder.resultTable.numRows (idsOf (combinedCell config left right colIdx) pending 0) written = some next ∧
      WrittenUpTo config adder left right pending (colIdx + 1) next := by
  obtain ⟨rfl,size,done,rest⟩ := upTo
  have perm := idsOf_perm (combinedCell config left right written.nextResultColIdx) pending 0
  have targets : ∀ entry ∈ idsOf (combinedCell config left right written.nextResultColIdx) pending 0,
      adder.resultTable.numRows + entry.1 < written.result.numRows := by
    intro entry member
    obtain ⟨⟨id,targetIndex⟩,isEntry,rfl⟩ := List.mem_map.mp (perm.mem_iff.mp member)
    have small := (mem_zipIdx' isEntry).1
    rw [length_map] at small
    rw [size]
    exact Nat.add_lt_add_left small _
  obtain ⟨result,isResult,sameSize,columns⟩ := foldlM_set adder.resultTable.numRows ⟨written.nextResultColIdx,inside⟩ targets
  have isNext : writeColumn config adder.resultTable.numRows (idsOf (combinedCell config left right written.nextResultColIdx) pending 0) written =
      some ⟨result,update written.numUndefinedPerColumn ⟨written.nextResultColIdx,inside⟩
        (written.numUndefinedPerColumn ⟨written.nextResultColIdx,inside⟩ +
          (idsOf (combinedCell config left right written.nextResultColIdx) pending 0).countP (fun entry => entry.2 = config.undefined)),
        written.nextResultColIdx + 1⟩ := by
    simp only [writeColumn,dif_pos inside,isResult]
    rfl
  refine ⟨_,isNext,?_⟩
  have new := rest ⟨written.nextResultColIdx,inside⟩ (le_refl _)
  refine ⟨rfl,sameSize.trans size,fun c small => ?_,fun c large => ?_⟩
  · by_cases current : c = ⟨written.nextResultColIdx,inside⟩
    · subst current
      simp only [columns,update_self]
      rw [new.1,new.2,← adder.resultTable.length_column ⟨written.nextResultColIdx,inside⟩]
      refine ⟨writeAll_eq_append perm (by rw [length_replicate,length_map]),?_⟩
      rw [countP_idsOf _ _ (fun id => decide (id = config.undefined))]
    · have before := done c (lt_of_le_of_ne (Nat.le_of_lt_succ small) (fun same => current (Fin.ext same)))
      simp only [columns,update_of_ne current]
      exact before
  · have current : c ≠ ⟨written.nextResultColIdx,inside⟩ := fun same => by
      rw [same] at large
      exact absurd large (Nat.not_succ_le_self _)
    simp only [columns,update_of_ne current]
    exact rest c (Nat.le_of_succ_le large)

variable (config left right pending) in
structure Buffers (adder : Adder Id Word width) : Prop where
  inside : ∀ added ∈ pending,Inside left right added
  fits : Fits config left right
  indexBuffer : adder.indexBuffer = buffered pending 0
  optionalIndexBuffer : adder.optionalIndexBuffer = bufferedOptional pending 0
  nextIndex : adder.nextIndex = pending.length

variable (buffers : Buffers config left right pending adder)
include buffers

section
omit [DecidableEq Id]

theorem Buffers.of_mem_buffered {entry : TargetIndexAndRowIndices} (member : entry ∈ adder.indexBuffer) :
    entry.rowIndices.1 < left.table.numRows ∧ entry.rowIndices.2 < right.table.numRows := by
  rw [buffers.indexBuffer] at member
  obtain ⟨⟨added,targetIndex⟩,isAdded,isEntry⟩ := mem_filterMap.mp member
  have inside := buffers.inside added (fst_mem_of_mem_zipIdx isAdded)
  cases added with
  | matching a b =>
    cases isEntry
    exact inside
  | optional a => cases isEntry

theorem Buffers.of_mem_bufferedOptional {entry : TargetIndexAndRowIndex} (member : entry ∈ adder.optionalIndexBuffer) :
    entry.rowIndex < left.table.numRows := by
  rw [buffers.optionalIndexBuffer] at member
  obtain ⟨⟨added,targetIndex⟩,isAdded,isEntry⟩ := mem_filterMap.mp member
  have inside := buffers.inside added (fst_mem_of_mem_zipIdx isAdded)
  cases added with
  | matching a b => cases isEntry
  | optional a =>
    cases isEntry
    exact inside

end

theorem Buffers.write_step (upTo : WrittenUpTo config adder left right pending colIdx written)
    (inResult : colIdx < width) {matching : TargetIndexAndRowIndices → Option (Nat × Id)} {optional : TargetIndexAndRowIndex → Option (Nat × Id)}
    (readMatching : ∀ entry ∈ adder.indexBuffer,
      matching entry = some (entry.targetIndex,combinedCell config left right colIdx (.matching entry.rowIndices.1 entry.rowIndices.2)))
    (readOptional : ∀ entry ∈ adder.optionalIndexBuffer,
      optional entry = some (entry.targetIndex,combinedCell config left right colIdx (.optional entry.rowIndex))) :
    ∃ next,(do
        let matching ← adder.indexBuffer.mapM matching
        let optional ← adder.optionalIndexBuffer.mapM optional
        writeColumn config adder.resultTable.numRows (matching ++ optional) written) = some next ∧
      WrittenUpTo config adder left right pending (colIdx + 1) next := by
  obtain ⟨next,isNext,upToNext⟩ := writeColumn_step upTo inResult
  refine ⟨next,?_,upToNext⟩
  rw [Library.mapM_some readMatching,Library.mapM_some readOptional,buffers.indexBuffer,buffers.optionalIndexBuffer]
  exact isNext

theorem Buffers.writeJoinColumn_step (isJoinColumn : colIdx < config.numJoinColumns)
    (upTo : WrittenUpTo config adder left right pending colIdx written) :
    ∃ next,writeJoinColumn config adder left right adder.resultTable.numRows written colIdx = some next ∧
      WrittenUpTo config adder left right pending (colIdx + 1) next := by
  have fits := buffers.fits
  have inLeft := lt_of_lt_of_le isJoinColumn fits.leftColumns
  obtain ⟨colLeft,isLeft,cellLeft⟩ := Input.getElem?_getColumn config.undefined inLeft
  obtain ⟨colRight,isRight,cellRight⟩ := Input.getElem?_getColumn config.undefined (lt_of_lt_of_le isJoinColumn fits.rightColumns)
  have inResult : colIdx < width := by
    have columns := fits.width_eq
    have inRight := fits.rightColumns
    omega
  rw [writeJoinColumn,isLeft,isRight]
  refine buffers.write_step upTo inResult (fun entry member => ?_) (fun entry member => ?_)
  · obtain ⟨inLeft,inRight⟩ := buffers.of_mem_buffered member
    rw [cellLeft _ inLeft,cellRight _ inRight,combinedCell,if_pos isJoinColumn]
    rfl
  · rw [cellLeft _ (buffers.of_mem_bufferedOptional member),combinedCell,if_pos inLeft]
    rfl

theorem Buffers.writeLeftColumn_step (isOther : config.numJoinColumns ≤ colIdx) (inLeft : colIdx < left.numColumns)
    (upTo : WrittenUpTo config adder left right pending colIdx written) :
    ∃ next,writeNonJoinColumn config adder true left right adder.resultTable.numRows written colIdx = some next ∧
      WrittenUpTo config adder left right pending (colIdx + 1) next := by
  have fits := buffers.fits
  obtain ⟨col,isCol,cell⟩ := Input.getElem?_getColumn config.undefined inLeft
  have inResult : colIdx < width := by
    have columns := fits.width_eq
    have inRight := fits.rightColumns
    omega
  rw [writeNonJoinColumn,if_pos rfl,isCol]
  refine buffers.write_step upTo inResult (fun entry member => ?_) (fun entry member => ?_)
  · rw [if_pos rfl,cell _ (buffers.of_mem_buffered member).1,combinedCell,if_neg (not_lt.mpr isOther),if_pos inLeft]
    rfl
  · rw [if_pos rfl,cell _ (buffers.of_mem_bufferedOptional member),combinedCell,if_pos inLeft]
    rfl

theorem Buffers.writeRightColumn_step {i : Nat} (inRight : i < right.numColumns - config.numJoinColumns)
    (upTo : WrittenUpTo config adder left right pending (left.numColumns + i) written) :
    ∃ next,writeNonJoinColumn config adder false left right adder.resultTable.numRows written (config.numJoinColumns + i) = some next ∧
      WrittenUpTo config adder left right pending (left.numColumns + i + 1) next := by
  have fits := buffers.fits
  have columns := fits.width_eq
  have inLeft := fits.leftColumns
  obtain ⟨col,isCol,cell⟩ := Input.getElem?_getColumn config.undefined (show config.numJoinColumns + i < right.numColumns by omega)
  have source : left.numColumns + i - left.numColumns + config.numJoinColumns = config.numJoinColumns + i := by omega
  rw [writeNonJoinColumn,if_neg Bool.false_ne_true,isCol]
  refine buffers.write_step upTo (by omega) (fun entry member => ?_) (fun entry member => ?_)
  · rw [if_neg Bool.false_ne_true,cell _ (buffers.of_mem_buffered member).2,combinedCell,if_neg (by omega),if_neg (by omega),source]
    rfl
  · rw [if_neg Bool.false_ne_true,combinedCell,if_neg (by omega)]
    rfl

theorem Buffers.writeBuffers_spec : ∃ written,writeBuffers config adder left right = some written ∧
    WrittenUpTo config adder left right pending width written := by
  have fits := buffers.fits
  have start : WrittenUpTo config adder left right pending 0
      ⟨adder.resultTable.resize config.filler (adder.resultTable.numRows + adder.nextIndex),adder.numUndefinedPerColumn,0⟩ := by
    refine ⟨rfl,by rw [← buffers.nextIndex]; rfl,fun c small => absurd small (Nat.not_lt_zero _),fun c _ => ⟨?_,rfl⟩⟩
    change (adder.resultTable.column c).take _ ++ _ = _
    rw [take_of_length_le (by rw [adder.resultTable.length_column]; omega),Nat.add_sub_cancel_left,buffers.nextIndex]
  obtain ⟨joined,isJoined,upToJoined⟩ := Library.foldlM_range' 0
    (fun colIdx isJoinColumn written upTo => by
      rw [Nat.zero_add]
      exact buffers.writeJoinColumn_step isJoinColumn upTo) start
  obtain ⟨leftWritten,isLeft,upToLeft⟩ := @Library.foldlM_range' _ (writeNonJoinColumn config adder true left right adder.resultTable.numRows)
    (fun i => WrittenUpTo config adder left right pending (config.numJoinColumns + i)) config.numJoinColumns (left.numColumns - config.numJoinColumns)
    (fun i small written upTo => buffers.writeLeftColumn_step (by omega) (by omega) upTo) joined upToJoined
  have enough := fits.leftColumns
  obtain ⟨written,isWritten,upTo⟩ := @Library.foldlM_range' _ (writeNonJoinColumn config adder false left right adder.resultTable.numRows)
    (fun i => WrittenUpTo config adder left right pending (left.numColumns + i)) config.numJoinColumns (right.numColumns - config.numJoinColumns)
    (fun i small written upTo => buffers.writeRightColumn_step small upTo) leftWritten (by rw [Nat.add_sub_cancel' enough] at upToLeft; exact upToLeft)
  refine ⟨written,?_,?_⟩
  · rw [writeBuffers,range_eq_range']
    simp only [isJoined,isLeft,isWritten,bind_eq_bind,bind_some]
  · have columns := fits.width_eq
    have enoughRight := fits.rightColumns
    have last : left.numColumns + (right.numColumns - config.numJoinColumns) = width := by omega
    rw [last] at upTo
    exact upTo

omit buffers in
theorem WrittenUpTo.rows (all : WrittenUpTo config adder left right pending width written) :
    written.result.rows = adder.resultTable.rows ++ pending.map (combinedRow config left right) := by
  refine IdTable.ext_columns ?_ (fun c => ?_)
  · rw [length_append,IdTable.length_rows,IdTable.length_rows,length_map,all.size]
  · rw [map_append,IdTable.map_rows,IdTable.map_rows,map_map,(all.done c c.isLt).1]
    rfl

end Writing

section Runs
variable [DecidableEq Id] (config : Config Id Word width)

abbrev Entry (Id Word : Type) (width : Nat) := (Fin width → Id) × List Word

def entries : Option (Input Id Word × Input Id Word) → List Added → List (Entry Id Word width)
  | none,_ => []
  | some (left,right),pending => pending.map (fun added => (combinedRow config left right added,left.words ++ right.words))

def newInputs : Call Id Word → Option (Input Id Word × Input Id Word)
  | .setInput inputLeft inputRight => some (inputLeft,inputRight)
  | .setOnlyLeftInputForOptionalJoin inputLeft => some (inputLeft,withoutRows (width + config.numJoinColumns - inputLeft.numColumns))
  | _ => none

def inputsAfter (inputs : Option (Input Id Word × Input Id Word)) (call : Call Id Word) : Option (Input Id Word × Input Id Word) :=
  (newInputs config call).or inputs

def requests : Call Id Word → List Added
  | .addRow rowIndexA rowIndexB => [.matching rowIndexA rowIndexB]
  | .addOptionalRow rowIndexA => [.optional rowIndexA]
  | _ => []

def requested : Option (Input Id Word × Input Id Word) → List (Call Id Word) → List (Entry Id Word width)
  | _,[] => []
  | inputs,call :: calls => entries config inputs (requests call) ++ requested (inputsAfter config inputs call) calls

/-- The inputs have the columns of the result, and the indices are those of rows of the current inputs. -/
def Legal : Option (Input Id Word × Input Id Word) → List (Call Id Word) → Prop
  | _,[] => True
  | inputs,call :: calls =>
    (∀ added ∈ requests call,∃ left right,inputs = some (left,right) ∧ Inside left right added) ∧
      (∀ left right,newInputs config call = some (left,right) → Fits config left right) ∧ Legal (inputsAfter config inputs call) calls

structure Accompanied (part : List (Entry Id Word width)) (table : IdTable Id width × List Word) : Prop where
  rows : table.1.rows = part.map Prod.fst
  words : ∀ entry ∈ part,entry.2 ⊆ table.2

def Sources (inputs : Option (Input Id Word × Input Id Word)) (vocab : List Word) : Prop :=
  ∀ left right,inputs = some (left,right) → left.words ++ right.words ⊆ vocab

structure Holds (output done : List (Entry Id Word width)) (inputs : Option (Input Id Word × Input Id Word)) (pending : List Added)
    (adder : Adder Id Word width) : Prop where
  inputs_eq : adder.inputLeftAndRight = inputs
  empty : inputs = none → adder.indexBuffer = [] ∧ adder.optionalIndexBuffer = [] ∧ adder.nextIndex = 0
  buffers : ∀ left right,inputs = some (left,right) → Buffers config left right pending adder
  tables : ∃ parts written,parts.flatten ++ written = output ++ done ∧ List.Forall₂ Accompanied parts adder.movedOut ∧
    Accompanied written (adder.resultTable,adder.mergedVocab)
  numUndefined : ∀ c,adder.numUndefinedPerColumn c = done.countP (fun entry => entry.1 c = config.undefined)

variable {config} {adder : Adder Id Word width} {output done : List (Entry Id Word width)} {inputs : Option (Input Id Word × Input Id Word)}
  {pending : List Added}

section
omit [DecidableEq Id]

variable {part : List (Entry Id Word width)} {table : IdTable Id width}

theorem Accompanied.mono {vocab vocab' : List Word}
    (accompanied : Accompanied part (table,vocab)) (grows : vocab ⊆ vocab') : Accompanied part (table,vocab') :=
  ⟨accompanied.rows,fun entry member => List.Subset.trans (accompanied.words entry member) grows⟩

theorem Accompanied.of_no_rows {vocab : List Word}
    (accompanied : Accompanied part (table,vocab)) (noRows : table.numRows = 0) (vocab' : List Word) : Accompanied part (table,vocab') := by
  have isEmpty : part = [] := by
    rw [← length_eq_zero_iff,← @length_map _ _ part Prod.fst,← accompanied.rows,IdTable.length_rows]
    exact noRows
  subst isEmpty
  exact ⟨accompanied.rows,fun entry member => absurd member not_mem_nil⟩

theorem flatMap_rows {parts : List (List (Entry Id Word width))} {tables : List (IdTable Id width × List Word)}
    (accompanied : List.Forall₂ Accompanied parts tables) : tables.flatMap (fun table => table.1.rows) = parts.flatten.map Prod.fst := by
  induction accompanied with
  | nil => rfl
  | cons first _ ih => rw [flatMap_cons,ih,first.rows,flatten_cons,map_append]

theorem accompanied_empty (vocab : List Word) : Accompanied ([] : List (Entry Id Word width)) (.empty,vocab) :=
  ⟨rfl,fun _ member => absurd member not_mem_nil⟩

end

theorem invokeBlockwiseCallback_spec (holds : Holds config output done inputs [] adder) (hasRows : adder.resultTable.numRows ≠ 0)
    (sources : Sources inputs adder.mergedVocab) :
    Holds config output done inputs [] (invokeBlockwiseCallback config adder) ∧
      (invokeBlockwiseCallback config adder).currentVocabs = adder.currentVocabs ∧
      (Sources inputs (currentWords adder) → Sources inputs (invokeBlockwiseCallback config adder).mergedVocab) := by
  obtain ⟨parts,written,whole,moved,accompanied⟩ := holds.tables
  rw [invokeBlockwiseCallback]
  by_cases moves : config.movesOut adder.numCalls adder.resultTable adder.mergedVocab = true
  · have noRows : (IdTable.empty : IdTable Id width).numRows = 0 := rfl
    simp only [if_pos moves,if_pos noRows]
    refine ⟨⟨holds.inputs_eq,holds.empty,fun left right isInputs => ?_,⟨parts ++ [written],[],?_,?_,accompanied_empty _⟩,holds.numUndefined⟩,trivial,id⟩
    · obtain ⟨inside,fits,index,optionalIndex,next⟩ := holds.buffers left right isInputs
      exact ⟨inside,fits,index,optionalIndex,next⟩
    · rw [flatten_append,flatten_singleton,append_nil,whole]
    · exact rel_append moved (List.Forall₂.cons accompanied List.Forall₂.nil)
  · simp only [if_neg moves,if_neg hasRows]
    refine ⟨⟨holds.inputs_eq,holds.empty,fun left right isInputs => ?_,⟨parts,written,whole,moved,accompanied⟩,holds.numUndefined⟩,trivial,fun _ => sources⟩
    obtain ⟨inside,fits,index,optionalIndex,next⟩ := holds.buffers left right isInputs
    exact ⟨inside,fits,index,optionalIndex,next⟩

theorem flush_spec (holds : Holds config output done inputs pending adder) (sources : Sources inputs adder.mergedVocab) :
    ∃ flushed,flush config adder = some flushed ∧ Holds config output (done ++ entries config inputs pending) inputs [] flushed ∧
      flushed.currentVocabs = adder.currentVocabs ∧ (Sources inputs (currentWords adder) → Sources inputs flushed.mergedVocab) := by
  rcases inputs with - | ⟨left,right⟩
  · obtain ⟨noRows,noOptionalRows,noIndex⟩ := holds.empty rfl
    refine ⟨adder,?_,?_,rfl,fun _ => sources⟩
    · rw [flush,noRows,noOptionalRows,noIndex]
      rfl
    · exact ⟨holds.inputs_eq,holds.empty,fun _ _ isInputs => absurd isInputs (by simp),by rw [entries,append_nil]; exact holds.tables,
        by rw [entries,append_nil]; exact holds.numUndefined⟩
  have buffers := holds.buffers left right rfl
  have counts : adder.nextIndex = adder.indexBuffer.length + adder.optionalIndexBuffer.length := by
    rw [buffers.nextIndex,buffers.indexBuffer,buffers.optionalIndexBuffer,length_buffered]
  simp only [flush,guard,if_pos counts,Option.pure_def,bind_eq_bind,bind_some]
  by_cases nothing : adder.nextIndex = 0
  · have isEmpty : pending = [] := length_eq_zero_iff.mp (buffers.nextIndex.symm.trans nothing)
    subst isEmpty
    refine ⟨adder,by rw [if_pos nothing],?_,rfl,fun _ => sources⟩
    rw [entries,map_nil,append_nil]
    exact holds
  obtain ⟨written,isWritten,all⟩ := buffers.writeBuffers_spec
  rw [if_neg nothing,holds.inputs_eq]
  simp only [bind_some,isWritten]
  refine ⟨_,rfl,invokeBlockwiseCallback_spec ⟨rfl,fun isNone => absurd isNone (by simp),?_,?_,fun c => ?_⟩ ?_ sources⟩
  · intro left' right' isInputs
    cases isInputs
    exact ⟨fun _ member => absurd member not_mem_nil,buffers.fits,rfl,rfl,rfl⟩
  · obtain ⟨parts,old,whole,moved,accompanied⟩ := holds.tables
    refine ⟨parts,old ++ entries config (some (left,right)) pending,by rw [← append_assoc,whole,append_assoc],moved,?_,?_⟩
    · rw [all.rows,accompanied.rows,map_append,entries,map_map]
      rfl
    · intro entry member
      rcases mem_append.mp member with isOld | isNew
      · exact accompanied.words entry isOld
      · obtain ⟨added,_,rfl⟩ := List.mem_map.mp isNew
        exact sources left right rfl
  · change written.numUndefinedPerColumn c = _
    rw [countP_append,← holds.numUndefined c,(all.done c c.isLt).2,entries,countP_map,countP_map]
    rfl
  · change written.result.numRows ≠ 0
    rw [all.size,← buffers.nextIndex]
    omega

/-- What holds between two calls: all that was requested is written or buffered, and the vocabularies of the current inputs are merged. -/
structure Running (config : Config Id Word width) (output request : List (Entry Id Word width))
    (inputs : Option (Input Id Word × Input Id Word)) (adder : Adder Id Word width) : Prop where
  holds : ∃ done pending,Holds config output done inputs pending adder ∧ done ++ entries config inputs pending = request
  merged : Sources inputs adder.mergedVocab
  current : Sources inputs (currentWords adder)

variable {request : List (Entry Id Word width)}

theorem flush_running (running : Running config output request inputs adder) :
    ∃ flushed,flush config adder = some flushed ∧ Holds config output request inputs [] flushed ∧ Running config output request inputs flushed := by
  obtain ⟨done,pending,holds,rfl⟩ := running.holds
  obtain ⟨flushed,isFlushed,holdsFlushed,sameVocabs,merged⟩ := flush_spec holds running.merged
  refine ⟨flushed,isFlushed,holdsFlushed,⟨_,[],holdsFlushed,?_⟩,merged running.current,?_⟩
  · rcases inputs with - | ⟨left,right⟩
    · exact append_nil _
    · exact append_nil _
  · rw [currentWords,sameVocabs]
    exact running.current

theorem entries_append (pending more : List Added) :
    entries config inputs (pending ++ more) = entries config inputs pending ++ entries config inputs more := by
  rcases inputs with - | ⟨left,right⟩
  · rfl
  · exact map_append

theorem buffer_running {left right : Input Id Word} (running : Running config output request (some (left,right)) adder) {added : Added}
    {adder' : Adder Id Word width} (same : adder' = {adder with
      indexBuffer := adder'.indexBuffer,optionalIndexBuffer := adder'.optionalIndexBuffer,nextIndex := adder'.nextIndex})
    (buffers : ∀ pending,Buffers config left right pending adder → Buffers config left right (pending ++ [added]) adder') :
    ∃ next,(if config.bufferSize < adder'.nextIndex then flush config adder' else some adder') = some next ∧
      Running config output (request ++ entries config (some (left,right)) [added]) (some (left,right)) next := by
  obtain ⟨done,pending,holds,rfl⟩ := running.holds
  have running' : Running config output (done ++ entries config (some (left,right)) pending ++ entries config (some (left,right)) [added])
      (some (left,right)) adder' := by
    refine ⟨⟨done,pending ++ [added],?_,by rw [entries_append,append_assoc]⟩,?_,?_⟩
    · refine ⟨?_,fun isNone => absurd isNone (by simp),fun left' right' isInputs => ?_,?_,?_⟩
      · rw [same]
        exact holds.inputs_eq
      · cases isInputs
        exact buffers pending (holds.buffers left right rfl)
      · rw [same]
        exact holds.tables
      · rw [same]
        exact holds.numUndefined
    · rw [same]
      exact running.merged
    · rw [same]
      exact running.current
  by_cases full : config.bufferSize < adder'.nextIndex
  · obtain ⟨flushed,isFlushed,-,runningFlushed⟩ := flush_running running'
    exact ⟨flushed,by rw [if_pos full,isFlushed],runningFlushed⟩
  · exact ⟨adder',by rw [if_neg full],running'⟩

section
variable {left right : Input Id Word} (running : Running config output request (some (left,right)) adder) {a : Nat}
include running

theorem addRow_running {b : Nat}
    (inside : Inside left right (.matching a b)) :
    ∃ next,addRow config adder a b = some next ∧
      Running config output (request ++ entries config (some (left,right)) [.matching a b]) (some (left,right)) next := by
  refine buffer_running running rfl (fun pending buffers => ?_)
  obtain ⟨index,optionalIndex⟩ := buffered_append_matching pending a b
  refine ⟨fun added member => ?_,buffers.fits,?_,?_,?_⟩
  · rcases mem_append.mp member with isOld | isNew
    · exact buffers.inside added isOld
    · cases mem_singleton.mp isNew
      exact inside
  · rw [index,← buffers.indexBuffer,← buffers.nextIndex]
  · rw [optionalIndex,← buffers.optionalIndexBuffer]
  · rw [length_append,← buffers.nextIndex]
    rfl

theorem addOptionalRow_running (inside : Inside left right (.optional a)) :
    ∃ next,addOptionalRow config adder a = some next ∧
      Running config output (request ++ entries config (some (left,right)) [.optional a]) (some (left,right)) next := by
  refine buffer_running running rfl (fun pending buffers => ?_)
  obtain ⟨index,optionalIndex⟩ := buffered_append_optional pending a
  refine ⟨fun added member => ?_,buffers.fits,?_,?_,?_⟩
  · rcases mem_append.mp member with isOld | isNew
    · exact buffers.inside added isOld
    · cases mem_singleton.mp isNew
      exact inside
  · rw [index,← buffers.indexBuffer]
  · rw [optionalIndex,← buffers.optionalIndexBuffer,← buffers.nextIndex]
  · rw [length_append,← buffers.nextIndex]
    rfl

end

theorem flushBeforeInputChange_spec (running : Running config output request inputs adder) :
    ∃ flushed,flushBeforeInputChange config adder = some flushed ∧ Holds config output request inputs [] flushed ∧
      flushed.currentVocabs = (none,none) := by
  obtain ⟨done,pending,holds,rfl⟩ := running.holds
  have cleared : Holds config output done inputs pending {adder with currentVocabs := (none,none)} := by
    refine ⟨holds.inputs_eq,holds.empty,fun left right isInputs => ?_,holds.tables,holds.numUndefined⟩
    obtain ⟨inside,fits,index,optionalIndex,next⟩ := holds.buffers left right isInputs
    exact ⟨inside,fits,index,optionalIndex,next⟩
  obtain ⟨flushed,isFlushed,holdsFlushed,sameVocabs,-⟩ := flush_spec cleared running.merged
  rw [flushBeforeInputChange]
  by_cases pendingRows : adder.nextIndex ≠ 0
  · have isSome : adder.inputLeftAndRight.isSome = true := by
      rw [holds.inputs_eq]
      cases isInputs : inputs with
      | none => exact absurd (holds.empty isInputs).2.2 pendingRows
      | some pair => rfl
    refine ⟨flushed,?_,holdsFlushed,sameVocabs⟩
    simp only [if_pos pendingRows,guard,if_pos isSome,Option.pure_def,bind_eq_bind,bind_some,isFlushed]
  have unchanged : flushed = {adder with currentVocabs := (none,none)} := by
    have zero := not_not.mp pendingRows
    rw [flush] at isFlushed
    simp only [if_pos zero,bind_eq_bind,Option.bind_eq_some_iff,Option.pure_def,Option.some.injEq] at isFlushed
    obtain ⟨-,-,isFlushed⟩ := isFlushed
    exact isFlushed.symm
  subst unchanged
  simp only [if_neg pendingRows]
  by_cases noRows : adder.resultTable.numRows = 0
  · refine ⟨_,if_pos noRows,?_,rfl⟩
    obtain ⟨inputs_eq,empty,buffers,⟨parts,written,whole,moved,accompanied⟩,numUndefined⟩ := holdsFlushed
    refine ⟨inputs_eq,empty,fun left right isInputs => ?_,⟨parts,written,whole,moved,accompanied.of_no_rows noRows []⟩,numUndefined⟩
    obtain ⟨inside,fits,index,optionalIndex,next⟩ := buffers left right isInputs
    exact ⟨inside,fits,index,optionalIndex,next⟩
  · exact ⟨_,if_neg noRows,holdsFlushed,rfl⟩

theorem Holds.changeInputs (holds : Holds config output request inputs [] adder) {left right : Input Id Word} (fits : Fits config left right)
    {mergedVocab : List Word} (grows : adder.mergedVocab ⊆ mergedVocab) {currentVocabs : Option (List Word) × Option (List Word)}
    (current : left.words ++ right.words ⊆ currentVocabs.1.getD [] ++ currentVocabs.2.getD [])
    (merged : left.words ++ right.words ⊆ mergedVocab) :
    Running config output request (some (left,right))
      {adder with inputLeftAndRight := some (left,right),currentVocabs := currentVocabs,mergedVocab := mergedVocab} := by
  obtain ⟨parts,written,whole,moved,accompanied⟩ := holds.tables
  have noBuffers : adder.indexBuffer = [] ∧ adder.optionalIndexBuffer = [] ∧ adder.nextIndex = 0 := by
    cases isInputs : inputs with
    | none => exact holds.empty isInputs
    | some pair =>
      have buffers := holds.buffers pair.1 pair.2 isInputs
      exact ⟨buffers.indexBuffer,buffers.optionalIndexBuffer,buffers.nextIndex⟩
  refine ⟨⟨request,[],⟨rfl,fun isNone => absurd isNone (by simp),fun left' right' isInputs => ?_,
    ⟨parts,written,whole,moved,accompanied.mono grows⟩,holds.numUndefined⟩,append_nil _⟩,fun left' right' isInputs => ?_,fun left' right' isInputs => ?_⟩
  · cases isInputs
    exact ⟨fun _ member => absurd member not_mem_nil,fits,noBuffers.1,noBuffers.2.1,noBuffers.2.2⟩
  · cases isInputs
    exact merged
  · cases isInputs
    exact current

section
variable (running : Running config output request inputs adder)
include running

theorem setInput_running {left right : Input Id Word} (fits : Fits config left right) :
    ∃ next,setInput config adder left right = some next ∧ Running config output request (some (left,right)) next := by
  obtain ⟨flushed,isFlushed,holds,noVocabs⟩ := flushBeforeInputChange_spec running
  refine ⟨_,?_,@Holds.changeInputs _ _ _ _ _ _ _ _ _ holds _ _ fits _ (subset_append_left _ (left.words ++ right.words))
    (left.localVocab,right.localVocab) (List.Subset.refl _) (subset_append_right _ _)⟩
  rw [setInput,isFlushed]
  simp only [mergeLeftVocab,mergeRightVocab,noVocabs,guard,isNone_none,if_pos ((fits_iff config).mpr fits),Option.pure_def,bind_eq_bind,
    bind_some,if_true,append_assoc]

theorem setOnlyLeftInputForOptionalJoin_running {left : Input Id Word}
    (fits : Fits config left (withoutRows (width + config.numJoinColumns - left.numColumns))) :
    ∃ next,setOnlyLeftInputForOptionalJoin config adder left = some next ∧
      Running config output request (some (left,withoutRows (width + config.numJoinColumns - left.numColumns))) next := by
  obtain ⟨flushed,isFlushed,holds,noVocabs⟩ := flushBeforeInputChange_spec running
  have noWords : left.words ++ (withoutRows (width + config.numJoinColumns - left.numColumns) : Input Id Word).words = left.words := append_nil _
  have enough : left.numColumns ≤ width + config.numJoinColumns := by
    have columns := fits.width_eq
    have rightColumns := fits.rightColumns
    omega
  refine ⟨_,?_,@Holds.changeInputs _ _ _ _ _ _ _ _ _ holds _ _ fits _ (subset_append_left _ left.words) (left.localVocab,none) ?_ ?_⟩
  · rw [setOnlyLeftInputForOptionalJoin,isFlushed]
    simp only [mergeLeftVocab,noVocabs,guard,isNone_none,if_pos enough,Option.pure_def,bind_eq_bind,bind_some,if_true]
  · rw [noWords]
    exact subset_append_left _ _
  · rw [noWords]
    exact subset_append_right _ _

theorem call_running {call' : Call Id Word}
    (inside : ∀ added ∈ requests call',∃ left right,inputs = some (left,right) ∧ Inside left right added)
    (fits : ∀ left right,newInputs config call' = some (left,right) → Fits config left right) :
    ∃ next,call config adder call' = some next ∧
      Running config output (request ++ entries config inputs (requests call')) (inputsAfter config inputs call') next := by
  have nothing : request ++ entries config inputs [] = request := by
    rcases inputs with - | ⟨left,right⟩
    · exact append_nil _
    · exact append_nil _
  cases call' with
  | setInput left right =>
    change ∃ next,_ ∧ Running config output (request ++ entries config inputs []) _ next
    rw [nothing]
    exact setInput_running running (fits left right rfl)
  | setOnlyLeftInputForOptionalJoin left =>
    change ∃ next,_ ∧ Running config output (request ++ entries config inputs []) _ next
    rw [nothing]
    exact setOnlyLeftInputForOptionalJoin_running running (fits left _ rfl)
  | addRow a b =>
    obtain ⟨left,right,rfl,insideRow⟩ := inside _ (mem_singleton_self _)
    exact addRow_running running insideRow
  | addOptionalRow a =>
    obtain ⟨left,right,rfl,insideRow⟩ := inside _ (mem_singleton_self _)
    exact addOptionalRow_running running insideRow
  | flush =>
    obtain ⟨flushed,isFlushed,-,runningFlushed⟩ := flush_running running
    change ∃ next,_ ∧ Running config output (request ++ entries config inputs []) _ next
    rw [nothing]
    exact ⟨flushed,isFlushed,runningFlushed⟩

theorem calls_running {calls : List (Call Id Word)} (legal : Legal config inputs calls) :
    ∃ next inputs',calls.foldlM (call config) adder = some next ∧ Running config output (request ++ requested config inputs calls) inputs' next := by
  induction calls generalizing request inputs adder with
  | nil => exact ⟨adder,inputs,rfl,by rw [requested,append_nil]; exact running⟩
  | cons call' calls ih =>
    obtain ⟨inside,fits,legal⟩ := legal
    obtain ⟨next,isNext,runningNext⟩ := call_running running inside fits
    obtain ⟨final,inputs',isFinal,runningFinal⟩ := ih runningNext legal
    refine ⟨final,inputs',?_,?_⟩
    · rw [foldlM_cons,isNext]
      exact isFinal
    · rw [requested,← append_assoc]
      exact runningFinal

end

def Started (config : Config Id Word width) (output : IdTable Id width) (inputs : Option (Input Id Word × Input Id Word))
    (adder : Adder Id Word width) : Prop :=
  (inputs = none ∧ adder = create output) ∨ ∃ left right,createWithInputs config left right output = some adder ∧ inputs = adder.inputLeftAndRight

section
variable {table : IdTable Id width} (started : Started config table inputs adder)
include started

theorem Started.running :
    Running config (table.rows.map (fun row => (row,[]))) [] inputs adder := by
  have accompanied : Accompanied (table.rows.map (fun row => (row,([] : List Word)))) (table,[]) := by
    refine ⟨?_,fun entry member => ?_⟩
    · rw [map_map]
      exact (map_id _).symm
    · obtain ⟨row,_,rfl⟩ := List.mem_map.mp member
      exact nil_subset _
  have tables : ∃ parts written,parts.flatten ++ written = table.rows.map (fun row => (row,([] : List Word))) ++ [] ∧
      List.Forall₂ Accompanied parts ([] : List (IdTable Id width × List Word)) ∧ Accompanied written (table,[]) :=
    ⟨[],_,(append_nil _).symm,List.Forall₂.nil,accompanied⟩
  rcases started with ⟨rfl,rfl⟩ | ⟨left,right,isAdder,rfl⟩
  · exact ⟨⟨[],[],⟨rfl,fun _ => ⟨rfl,rfl,rfl⟩,fun _ _ isInputs => absurd isInputs (by simp),tables,fun _ => rfl⟩,rfl⟩,
      fun _ _ isInputs => absurd isInputs (by simp),fun _ _ isInputs => absurd isInputs (by simp)⟩
  have checked : checkNumColumns config left right = true := by
    by_contra failed
    simp [createWithInputs,guard,failed] at isAdder
  simp only [createWithInputs,guard,if_pos checked,Option.pure_def,bind_eq_bind,bind_some] at isAdder
  cases isAdder
  have fits := (fits_iff config).mp checked
  refine ⟨⟨[],[],⟨rfl,fun isNone => absurd isNone (by simp),fun left' right' isInputs => ?_,tables,fun _ => rfl⟩,rfl⟩,
    fun left' right' isInputs => ?_,fun left' right' isInputs => ?_⟩
  · cases isInputs
    exact ⟨fun _ member => absurd member not_mem_nil,⟨fits.leftColumns,fits.rightColumns,fits.width_eq⟩,rfl,rfl,rfl⟩
  · cases isInputs
    exact nil_subset _
  · cases isInputs
    exact nil_subset _

section
variable {calls : List (Call Id Word)} (legal : Legal config inputs calls)
include legal

theorem run_accompanied :
    ∃ final,run config adder calls = some final ∧
      (∃ parts,parts.flatten = table.rows.map (fun row => (row,[])) ++ requested config inputs calls ∧
        List.Forall₂ Accompanied parts (final.movedOut ++ [(final.resultTable,final.mergedVocab)])) ∧
      ∀ c,final.numUndefinedPerColumn c = (requested config inputs calls).countP (fun entry => entry.1 c = config.undefined) := by
  obtain ⟨last,inputs',isLast,running⟩ := calls_running started.running legal
  obtain ⟨final,isFinal,holds,-⟩ := flush_running running
  obtain ⟨parts,written,whole,moved,accompanied⟩ := holds.tables
  refine ⟨final,by rw [run,isLast]; exact isFinal,
    ⟨parts ++ [written],?_,rel_append moved (List.Forall₂.cons accompanied List.Forall₂.nil)⟩,holds.numUndefined⟩
  rw [flatten_append,flatten_singleton,whole]
  rfl

/-- The tables that were moved out and the last one contain what was requested, in this order, each with the words of its rows. -/
theorem addedRows_correct :
    ∃ final,run config adder calls = some final ∧
      (final.movedOut ++ [(final.resultTable,final.mergedVocab)]).flatMap (fun moved => moved.1.rows) =
        table.rows ++ (requested config inputs calls).map Prod.fst ∧
      (∃ parts,parts.flatten = table.rows.map (fun row => (row,[])) ++ requested config inputs calls ∧
        List.Forall₂ Accompanied parts (final.movedOut ++ [(final.resultTable,final.mergedVocab)])) ∧
      ∀ c,final.numUndefinedPerColumn c = (requested config inputs calls).countP (fun entry => entry.1 c = config.undefined) := by
  obtain ⟨final,isFinal,⟨parts,whole,accompanied⟩,counts⟩ := run_accompanied started legal
  refine ⟨final,isFinal,?_,⟨parts,whole,accompanied⟩,counts⟩
  rw [flatMap_rows accompanied,whole,map_append,map_map]
  exact congrArg (fun rows => rows ++ _) (map_id _)

end

end

def twoRows (word : Nat) : Input Nat Nat := ⟨2,⟨2,![[7,8],[0,5]],by decide⟩,some [word]⟩

theorem addedRows_correct_twoInputs :
    let config : Config Nat Nat 3 := ⟨0,9,1,0,fun numCalls _ _ => numCalls = 0⟩
    let calls := [.setInput (twoRows 1) (twoRows 2),.addRow 0 0,.setOnlyLeftInputForOptionalJoin (twoRows 3),.addOptionalRow 1,.flush]
    ∃ final,run config (create .empty) calls = some final ∧
      (final.movedOut ++ [(final.resultTable,final.mergedVocab)]).flatMap (fun moved => moved.1.rows) =
        IdTable.empty.rows ++ (requested config none calls).map Prod.fst ∧
      (∃ parts,parts.flatten = IdTable.empty.rows.map (fun row => (row,[])) ++ requested config none calls ∧
        List.Forall₂ Accompanied parts (final.movedOut ++ [(final.resultTable,final.mergedVocab)])) ∧
      ∀ c,final.numUndefinedPerColumn c = (requested config none calls).countP (fun entry => entry.1 c = config.undefined) := by
  intro config calls
  have noRequest : ∀ inputs : Option (Input Nat Nat × Input Nat Nat),∀ added ∈ ([] : List Added),
      ∃ left right,inputs = some (left,right) ∧ Inside left right added := fun _ _ member => absurd member not_mem_nil
  refine addedRows_correct (.inl ⟨rfl,rfl⟩) ⟨noRequest _,fun _ _ isNew => ?_,fun _ member => ?_,fun _ _ isNew => absurd isNew (by simp [newInputs]),
    noRequest _,fun _ _ isNew => ?_,fun _ member => ?_,fun _ _ isNew => absurd isNew (by simp [newInputs]),
    noRequest _,fun _ _ isNew => absurd isNew (by simp [newInputs]),trivial⟩
  · cases isNew
    exact ⟨by decide,by decide,by decide⟩
  · cases mem_singleton.mp member
    exact ⟨_,_,rfl,by decide,by decide⟩
  · cases isNew
    exact ⟨by decide,by decide,by decide⟩
  · cases mem_singleton.mp member
    exact ⟨_,_,rfl,show 1 < 2 by decide⟩

def lazyJoinCallback (chunkSize : Nat) (_numCalls : Nat) (idTable : IdTable Id width) (_localVocab : List Word) : Bool :=
  !(decide (idTable.numRows < chunkSize))

def runLazyJoinAndConvertToGenerator (permutation : Fin width → Fin width) (final : Adder Id Word width) : List (List (Fin width → Id) × List Word) :=
  ((final.movedOut ++ [(final.resultTable,final.mergedVocab)]).filter (fun value => value.1.numRows ≠ 0)).map
    (fun value => (value.1.rows.map (fun row => row ∘ permutation),value.2))

theorem runLazyJoin_rows (chunkSize : Nat) {lazyConfig : Config Id Word width}
    (isLazy : lazyConfig = {config with movesOut := lazyJoinCallback chunkSize}) {table : IdTable Id width}
    (started : Started lazyConfig table inputs adder) {calls : List (Call Id Word)} (legal : Legal lazyConfig inputs calls)
    (permutation : Fin width → Fin width) :
    ∃ final,run lazyConfig adder calls = some final ∧
      (runLazyJoinAndConvertToGenerator permutation final).flatMap Prod.fst =
        (table.rows ++ (requested config inputs calls).map Prod.fst).map (fun row => row ∘ permutation) := by
  obtain ⟨final,isFinal,⟨parts,whole,accompanied⟩,-⟩ := run_accompanied started legal
  have nonempty : ∀ tables : List (IdTable Id width × List Word),
      (tables.filter (fun value => value.1.numRows ≠ 0)).flatMap (fun value => value.1.rows) = tables.flatMap (fun value => value.1.rows) := by
    intro tables
    induction tables with
    | nil => rfl
    | cons value tables ih =>
      by_cases noRows : value.1.numRows = 0
      · have isEmpty : value.1.rows = [] := length_eq_zero_iff.mp ((IdTable.length_rows _).trans noRows)
        rw [filter_cons_of_neg (by simpa using noRows),ih,flatMap_cons,isEmpty,nil_append]
      · rw [filter_cons_of_pos (by simpa using noRows),flatMap_cons,flatMap_cons,ih]
  refine ⟨final,isFinal,?_⟩
  have sameRequest : requested config inputs calls = requested lazyConfig inputs calls := by
    subst isLazy
    clear started legal isFinal whole
    induction calls generalizing inputs with
    | nil => rfl
    | cons call calls ih => exact congrArg₂ (· ++ ·) (by rcases inputs with - | ⟨left,right⟩ <;> rfl) ih
  have rows : table.rows ++ (requested config inputs calls).map Prod.fst = parts.flatten.map Prod.fst := by
    rw [sameRequest,whole,map_append,map_map]
    exact congrArg (fun rows => rows ++ _) (map_id _).symm
  rw [rows,← flatMap_rows accompanied,← nonempty,map_flatMap,runLazyJoinAndConvertToGenerator,flatMap_map]

theorem runLazyJoin_rows_oneInput :
    let config : Config Nat Nat 3 := ⟨0,9,1,0,fun _ _ _ => false⟩
    let lazyConfig : Config Nat Nat 3 := {config with movesOut := lazyJoinCallback 1}
    let calls := [.setInput (twoRows 1) (twoRows 2),.addRow 0 0]
    ∃ final,run lazyConfig (create .empty) calls = some final ∧
      (runLazyJoinAndConvertToGenerator ![2,0,1] final).flatMap Prod.fst =
        (IdTable.empty.rows ++ (requested config none calls).map Prod.fst).map (fun row => row ∘ ![2,0,1]) := by
  intro config lazyConfig calls
  have isLazy : lazyConfig = {config with movesOut := lazyJoinCallback 1} := rfl
  refine runLazyJoin_rows 1 isLazy (.inl ⟨rfl,rfl⟩) (show Legal lazyConfig none calls from ?_) _
  refine ⟨fun _ member => absurd member not_mem_nil,fun _ _ isNew => ?_,fun _ member => ?_,fun _ _ isNew => absurd isNew (by simp [newInputs]),trivial⟩
  · cases isNew
    exact ⟨by decide,by decide,by decide⟩
  · cases mem_singleton.mp member
    exact ⟨_,_,rfl,by decide,by decide⟩

end Runs
end Qlever.AddCombinedRowToIdTable
