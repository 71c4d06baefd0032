import Qlever.Library.Loop
import Qlever.Library.SortedMerge

/-! The union of two results that keeps a sort order, by a merge of the sorted children. A column that a child does not have is UNDEF in the result,
and UNDEF is the smallest ID.
-/
namespace Qlever.SortedUnion
open Qlever.Library List
variable {Id : Type} [LinearOrder Id] [OrderBot Id] {n w w1 w2 : Nat}

/-- The columns of the children behind a column of the result, where `none` is `NO_COLUMN`. -/
structure ColumnOrigin (w1 w2 : Nat) where
  left : Option (Fin w1)
  right : Option (Fin w2)
  atLeastOneDefined : left = none → right ≠ none

def ColumnOrigin.swap (origin : ColumnOrigin w1 w2) : ColumnOrigin w2 w1 :=
  ⟨origin.right,origin.left,fun noRight noLeft => origin.atLeastOneDefined noLeft noRight⟩

section Columns

/-- The next missing column gets the index `startOfUndefColumns`. -/
def permutationFrom (startOfUndefColumns : Nat) : List (Option (Fin w)) → List Nat
  | [] => []
  | some originIndex :: columnOrigins => originIndex :: permutationFrom startOfUndefColumns columnOrigins
  | none :: columnOrigins => startOfUndefColumns :: permutationFrom (startOfUndefColumns + 1) columnOrigins

theorem length_permutationFrom (startOfUndefColumns : Nat) (columnOrigins : List (Option (Fin w))) :
    (permutationFrom startOfUndefColumns columnOrigins).length = columnOrigins.length := by
  induction columnOrigins generalizing startOfUndefColumns with
  | nil => rfl
  | cons origin columnOrigins ih => cases origin <;> simp [permutationFrom,ih]

def computePermutation (origins : Fin n → Option (Fin w)) : List.Vector Nat n :=
  ⟨permutationFrom w (ofFn origins),by rw [length_permutationFrom,length_ofFn]⟩

def maxNumRequiredColumns (permutation : List.Vector Nat n) : Nat := (permutation.toList.max?.map (· + 1)).getD 0

def addEmptyColumns (permutation : List.Vector Nat n) (row : Fin w → Id) : List Id :=
  ofFn row ++ replicate (maxNumRequiredColumns permutation - w) ⊥

theorem get_lt_addEmptyColumns (permutation : List.Vector Nat n) (row : Fin w → Id) (column : Fin n) :
    permutation.get column < (addEmptyColumns permutation row).length := by
  have member : permutation.get column ∈ permutation.toList := get_mem _ _
  have required : permutation.get column < maxNumRequiredColumns permutation := by
    rw [maxNumRequiredColumns]
    cases isMax : permutation.toList.max? with
    | none =>
      rw [max?_eq_none_iff] at isMax
      rw [isMax] at member
      cases member
    | some largest => exact Nat.lt_succ_of_le ((max?_eq_some_iff.mp isMax).2 _ member)
  rw [addEmptyColumns,length_append,length_ofFn,length_replicate]
  omega

/-- The columns of the subset are inside, so the check of `setColumnSubset` holds. -/
def transformToCorrectColumnFormat (permutation : List.Vector Nat n) (idTable : List (Fin w → Id)) : List (Fin n → Id) :=
  idTable.map (fun row column => (addEmptyColumns permutation row).get ⟨permutation.get column,get_lt_addEmptyColumns permutation row column⟩)

/-- A row that `insertAtEnd` copies, with UNDEF for an index behind the last column. -/
def insertedRow (permutation : List.Vector Nat n) (row : Fin w → Id) (column : Fin n) : Id :=
  if inside : permutation.get column < w then row ⟨permutation.get column,inside⟩ else ⊥

/-- The row that `pushRow` writes. -/
def pushedRow (origins : Fin n → Option (Fin w)) (row : Fin w → Id) (column : Fin n) : Id := (origins column).elim ⊥ row

section
variable {origins : Fin n → Option (Fin w)} {column : Fin n} {row : Fin w → Id}

theorem pushedRow_none (missing : origins column = none) :
    pushedRow origins row column = ⊥ := by rw [pushedRow,missing,Option.elim_none]

theorem pushedRow_some {originIndex : Fin w}
    (isOrigin : origins column = some originIndex) : pushedRow origins row column = row originIndex := by rw [pushedRow,isOrigin,Option.elim_some]

end

theorem get_permutationFrom {startOfUndefColumns : Nat} (behind : w ≤ startOfUndefColumns) {columnOrigins : List (Option (Fin w))} {column index : Nat}
    {origin : Option (Fin w)} (isIndex : (permutationFrom startOfUndefColumns columnOrigins)[column]? = some index)
    (isOrigin : columnOrigins[column]? = some origin) : origin.elim (w ≤ index) (fun originIndex => index = originIndex) := by
  induction columnOrigins generalizing startOfUndefColumns column with
  | nil => cases isOrigin
  | cons first columnOrigins ih =>
    cases column with
    | zero =>
      cases isOrigin
      cases origin with
      | none =>
        cases isIndex
        exact behind
      | some originIndex =>
        cases isIndex
        rfl
    | succ column =>
      rw [getElem?_cons_succ] at isOrigin
      cases first with
      | none => exact ih (Nat.le_succ_of_le behind) isIndex isOrigin
      | some originIndex => exact ih behind isIndex isOrigin

section
variable (origins : Fin n → Option (Fin w))

theorem get_computePermutation (column : Fin n) :
    (origins column).elim (w ≤ (computePermutation origins).get column) (fun originIndex => (computePermutation origins).get column = originIndex) := by
  have isIndex : (permutationFrom w (ofFn origins))[column.val]? = some ((computePermutation origins).get column) := getElem?_eq_getElem _
  exact get_permutationFrom le_rfl isIndex (by simp)

theorem insertedRow_eq :
    (insertedRow (computePermutation origins) : (Fin w → Id) → Fin n → Id) = pushedRow origins := by
  funext row column
  have index := get_computePermutation origins column
  rw [insertedRow,pushedRow]
  cases isOrigin : origins column with
  | none =>
    rw [isOrigin] at index
    exact dif_neg (not_lt.mpr index)
  | some originIndex =>
    rw [isOrigin] at index
    have index : (computePermutation origins).get column = originIndex := index
    simp [index]

theorem transformToCorrectColumnFormat_eq :
    (transformToCorrectColumnFormat (computePermutation origins) : List (Fin w → Id) → List (Fin n → Id)) = List.map (pushedRow origins) := by
  funext idTable
  refine map_congr_left (fun row _ => ?_)
  rw [← insertedRow_eq]
  funext column
  rw [insertedRow,get_eq_getElem]
  simp only [addEmptyColumns]
  split
  next inside => rw [getElem_append_left (by rw [length_ofFn]; exact inside),List.getElem_ofFn]
  next behind => rw [getElem_append_right (by rw [length_ofFn]; exact not_lt.mp behind),getElem_replicate]

end

end Columns

section Order
variable (columnOrigins : Fin n → ColumnOrigin w1 w2)

abbrev leftOrigins (column : Fin n) : Option (Fin w1) := (columnOrigins column).left

abbrev rightOrigins (column : Fin n) : Option (Fin w2) := (columnOrigins column).right

def isSmaller (row1 : Fin w1 → Id) (row2 : Fin w2 → Id) : List (Fin n) → Bool
  | [] => false
  | column :: targetOrder =>
    match (columnOrigins column).left,(columnOrigins column).right with
    | none,_ => true
    | some _,none => false
    | some index1,some index2 => if row1 index1 ≠ row2 index2 then row1 index1 < row2 index2 else isSmaller row1 row2 targetOrder

def trimmedTargetOrder (targetOrder : List (Fin n)) : List (Fin n) :=
  targetOrder.take (targetOrder.findIdx (fun index => (columnOrigins index).left = none ∨ (columnOrigins index).right = none) + 1)

/-- The rows agree on all sort columns before the first one that a child lacks, the other row is UNDEF there, and it is smaller on the columns behind
it. -/
def Conflict (row1 : Fin w1 → Id) (row2 : Fin w2 → Id) : List (Fin n) → Prop
  | [] => False
  | column :: targetOrder =>
    match (columnOrigins column).left,(columnOrigins column).right with
    | none,none => False
    | none,some index2 =>
      row2 index2 = ⊥ ∧ targetOrder.map (pushedRow (rightOrigins columnOrigins) row2) < targetOrder.map (pushedRow (leftOrigins columnOrigins) row1)
    | some index1,none =>
      row1 index1 = ⊥ ∧ targetOrder.map (pushedRow (leftOrigins columnOrigins) row1) < targetOrder.map (pushedRow (rightOrigins columnOrigins) row2)
    | some index1,some index2 => row1 index1 = row2 index2 ∧ Conflict row1 row2 targetOrder

def specificSortOrder (origins : Fin n → Option (Fin w)) (targetOrder : List (Fin n)) : List (Fin w) := targetOrder.filterMap origins

def SortedBy (sortColumns : List (Fin w)) (rows : List (Fin w → Id)) : Prop :=
  rows.Pairwise (fun row row' => sortColumns.map row ≤ sortColumns.map row')

omit [OrderBot Id] in
theorem isSmaller_trimmed (row1 : Fin w1 → Id) (row2 : Fin w2 → Id) (targetOrder : List (Fin n)) :
    isSmaller columnOrigins row1 row2 (trimmedTargetOrder columnOrigins targetOrder) = isSmaller columnOrigins row1 row2 targetOrder := by
  induction targetOrder with
  | nil => rfl
  | cons column targetOrder ih =>
    rw [trimmedTargetOrder] at ih ⊢
    cases isLeft : (columnOrigins column).left with
    | none => simp [findIdx_cons,isSmaller,isLeft]
    | some index1 =>
      cases isRight : (columnOrigins column).right with
      | none => simp [findIdx_cons,isSmaller,isLeft,isRight]
      | some index2 =>
        have both : decide ((columnOrigins column).left = none ∨ (columnOrigins column).right = none) = false := by simp [isLeft,isRight]
        rw [findIdx_cons,both,cond_false,take_succ_cons,isSmaller,isSmaller,isLeft,isRight]
        simp only [ih]

variable {columnOrigins}

theorem map_pushedRow_le_iff (origins : Fin n → Option (Fin w)) (row row' : Fin w → Id) (targetOrder : List (Fin n)) :
    targetOrder.map (pushedRow origins row) ≤ targetOrder.map (pushedRow origins row') ↔
      (specificSortOrder origins targetOrder).map row ≤ (specificSortOrder origins targetOrder).map row' := by
  induction targetOrder with
  | nil => simp [specificSortOrder]
  | cons column targetOrder ih =>
    rw [specificSortOrder] at ih ⊢
    rw [map_cons,map_cons,cons_le_cons_iff_lex,ih,filterMap_cons]
    cases isOrigin : origins column with
    | none => simp [pushedRow,isOrigin]
    | some originIndex => simp [pushedRow,isOrigin,cons_le_cons_iff_lex]

theorem ordered_iff (row1 : Fin w1 → Id) (row2 : Fin w2 → Id) (targetOrder : List (Fin n)) :
    (if isSmaller columnOrigins row1 row2 targetOrder = true
      then targetOrder.map (pushedRow (leftOrigins columnOrigins) row1) ≤ targetOrder.map (pushedRow (rightOrigins columnOrigins) row2)
      else targetOrder.map (pushedRow (rightOrigins columnOrigins) row2) ≤ targetOrder.map (pushedRow (leftOrigins columnOrigins) row1)) ↔
      ¬Conflict columnOrigins row1 row2 targetOrder := by
  induction targetOrder with
  | nil => simp [isSmaller,Conflict]
  | cons column targetOrder ih =>
    have undefLeft := @pushedRow_none Id _ _ n w1 (leftOrigins columnOrigins) column row1
    have undefRight := @pushedRow_none Id _ _ n w2 (rightOrigins columnOrigins) column row2
    have valueLeft := @pushedRow_some Id _ _ n w1 (leftOrigins columnOrigins) column row1
    have valueRight := @pushedRow_some Id _ _ n w2 (rightOrigins columnOrigins) column row2
    rw [isSmaller,Conflict]
    simp only [map_cons,cons_le_cons_iff_lex]
    cases isLeft : (columnOrigins column).left with
    | none =>
      cases isRight : (columnOrigins column).right with
      | none => exact absurd isRight ((columnOrigins column).atLeastOneDefined isLeft)
      | some index2 =>
        rw [if_pos rfl,undefLeft isLeft,valueRight isRight]
        simp only
        rw [not_and,not_lt,bot_lt_iff_ne_bot,eq_comm,or_iff_not_imp_left,not_not]
        tauto
    | some index1 =>
      cases isRight : (columnOrigins column).right with
      | none =>
        rw [if_neg Bool.false_ne_true,valueLeft isLeft,undefRight isRight]
        simp only
        rw [not_and,not_lt,bot_lt_iff_ne_bot,eq_comm,or_iff_not_imp_left,not_not]
        tauto
      | some index2 =>
        rw [valueLeft isLeft,valueRight isRight]
        simp only
        rcases lt_trichotomy (row1 index1) (row2 index2) with less | same | greater
        · simp [less,less.ne]
        · simp [same,ih]
        · simp [greater,greater.ne',greater.not_gt]

omit [OrderBot Id] in
theorem isSmaller_of_le {row row1 : Fin w1 → Id} {row2 row' : Fin w2 → Id} {targetOrder : List (Fin n)}
    (le : (specificSortOrder (leftOrigins columnOrigins) targetOrder).map row ≤ (specificSortOrder (leftOrigins columnOrigins) targetOrder).map row1)
    (le' : (specificSortOrder (rightOrigins columnOrigins) targetOrder).map row2 ≤ (specificSortOrder (rightOrigins columnOrigins) targetOrder).map row')
    (smaller : isSmaller columnOrigins row1 row2 targetOrder = true) : isSmaller columnOrigins row row' targetOrder = true := by
  induction targetOrder with
  | nil => cases smaller
  | cons column targetOrder ih =>
    rw [isSmaller] at smaller ⊢
    rw [specificSortOrder,filterMap_cons] at le le'
    cases isLeft : (columnOrigins column).left with
    | none => rfl
    | some index1 =>
      cases isRight : (columnOrigins column).right with
      | none =>
        rw [isLeft,isRight] at smaller
        cases smaller
      | some index2 =>
        rw [isLeft,isRight] at smaller
        rw [leftOrigins,isLeft] at le
        rw [rightOrigins,isRight] at le'
        simp only [map_cons,cons_le_cons_iff_lex] at le le'
        simp only at smaller ⊢
        have leValues : row1 index1 ≤ row2 index2 := by
          split at smaller
          next => exact (of_decide_eq_true smaller).le
          next same => exact (not_not.mp same).le
        have isLess : row index1 < row' index2 → (if row index1 ≠ row' index2 then decide (row index1 < row' index2)
            else isSmaller columnOrigins row row' targetOrder) = true := by
          intro less
          rw [if_pos less.ne]
          exact decide_eq_true less
        rcases le with less | ⟨same,le⟩
        · exact isLess (less.trans_le (leValues.trans (le'.elim le_of_lt (fun equal => equal.1.le))))
        rcases le' with less | ⟨same',le'⟩
        · exact isLess (same.trans_le leValues |>.trans_lt less)
        · rw [same,← same']
          split at smaller
          next differ => rw [if_pos differ]; exact smaller
          next same => rw [if_neg same]; exact ih le le' smaller

end Order

section Source

structure IterationData (Row : Type) where
  range : List (List Row)
  index : Nat
  inside : index ≤ (range.headD []).length

namespace IterationData
variable {Row : Type}

def start (range : List (List Row)) : IterationData Row := ⟨range,0,Nat.zero_le _⟩

def next (data : IterationData Row) (inside : data.index < (data.range.headD []).length) : IterationData Row :=
  ⟨data.range,data.index + 1,inside⟩

def advanceRangeIfConsumed (data : IterationData Row) : IterationData Row :=
  if data.index = (data.range.headD []).length then start data.range.tail else data

def appendCurrent (permutation : List.Vector Nat n) (current : List (Fin n → Id) × IterationData (Fin w → Id)) :
    List (Fin n → Id) × IterationData (Fin w → Id) :=
  (current.1 ++ ((current.2.range.headD []).drop current.2.index).map (insertedRow permutation),start current.2.range.tail)

def appendRemaining (permutation : List.Vector Nat n) (current : List (Fin n → Id) × IterationData (Fin w → Id)) :
    List (Fin n → Id) × IterationData (Fin w → Id) :=
  (appendCurrent permutation)^[current.2.range.length] current

def passNext (permutation : List.Vector Nat n) (data : IterationData (Fin w → Id)) : Option (List (Fin n → Id) × IterationData (Fin w → Id)) :=
  match data.range with
  | [] => none
  | idTable :: range => some (transformToCorrectColumnFormat permutation idTable,start range)

end IterationData

/-- The members of `SortedUnionImpl` and the tables that it has yielded. -/
structure State (Id : Type) (w1 w2 n : Nat) where
  data1 : IterationData (Fin w1 → Id)
  data2 : IterationData (Fin w2 → Id)
  resultTable : List (Fin n → Id)
  done : Bool
  yielded : List (List (Fin n → Id))

namespace State

def advanceRangeIfConsumed (state : State Id w1 w2 n) : State Id w1 w2 n :=
  {state with data1 := state.data1.advanceRangeIfConsumed,data2 := state.data2.advanceRangeIfConsumed}

def popResult (state : State Id w1 w2 n) : State Id w1 w2 n := {state with resultTable := [],yielded := state.yielded ++ [state.resultTable]}

def appendCurrent1 (permutation : List.Vector Nat n) (state : State Id w1 w2 n) : State Id w1 w2 n :=
  let (resultTable,data1) := IterationData.appendCurrent permutation (state.resultTable,state.data1)
  {state with resultTable,data1}

def appendCurrent2 (permutation : List.Vector Nat n) (state : State Id w1 w2 n) : State Id w1 w2 n :=
  let (resultTable,data2) := IterationData.appendCurrent permutation (state.resultTable,state.data2)
  {state with resultTable,data2}

end State

variable (columnOrigins : Fin n → ColumnOrigin w1 w2) (targetOrder : List (Fin n)) (requestLaziness : Bool) (chunkSize : Nat)

/-- The body of the inner loop, or `none` when one of the tables is consumed. -/
def pushSmaller (state : State Id w1 w2 n) : Option (State Id w1 w2 n) :=
  if inside1 : state.data1.index < (state.data1.range.headD []).length then
    if inside2 : state.data2.index < (state.data2.range.headD []).length then
      let row1 := (state.data1.range.headD []).get ⟨state.data1.index,inside1⟩
      let row2 := (state.data2.range.headD []).get ⟨state.data2.index,inside2⟩
      if isSmaller columnOrigins row1 row2 targetOrder then
        some {state with resultTable := state.resultTable ++ [pushedRow (leftOrigins columnOrigins) row1],data1 := state.data1.next inside1}
      else some {state with resultTable := state.resultTable ++ [pushedRow (rightOrigins columnOrigins) row2],data2 := state.data2.next inside2}
    else none
  else none

/-- The end of `get` when one of the ranges is exhausted. -/
def passRemaining (state : State Id w1 w2 n) : Option (State Id w1 w2 n) :=
  let state := if state.data1.index ≠ 0 then state.appendCurrent1 (computePermutation (leftOrigins columnOrigins)) else state
  let state := if state.data2.index ≠ 0 then state.appendCurrent2 (computePermutation (rightOrigins columnOrigins)) else state
  if state.resultTable ≠ [] then some state.popResult
  else
    match state.data1.passNext (computePermutation (leftOrigins columnOrigins)) with
    | some (leftTable,data1) => some {state with data1,yielded := state.yielded ++ [leftTable]}
    | none =>
      match state.data2.passNext (computePermutation (rightOrigins columnOrigins)) with
      | some (rightTable,data2) => some {state with data2,yielded := state.yielded ++ [rightTable]}
      | none => none

def appendAll (state : State Id w1 w2 n) : State Id w1 w2 n :=
  let (resultTable,data1) := IterationData.appendRemaining (computePermutation (leftOrigins columnOrigins)) (state.resultTable,state.data1)
  let (resultTable,data2) := IterationData.appendRemaining (computePermutation (rightOrigins columnOrigins)) (resultTable,state.data2)
  {state with resultTable := [],data1,data2,done := true,yielded := state.yielded ++ [resultTable]}

/-- One round of the loops of `get`, which is called again after every table that it yields. -/
def round (state : State Id w1 w2 n) : Option (State Id w1 w2 n) :=
  if state.done then none
  else if state.data1.range ≠ [] ∧ state.data2.range ≠ [] then
    match pushSmaller columnOrigins targetOrder state with
    | some state =>
      if requestLaziness ∧ chunkSize ≤ state.resultTable.length then some state.popResult.advanceRangeIfConsumed else some state
    | none => some state.advanceRangeIfConsumed
  else if requestLaziness then passRemaining columnOrigins state
  else some (appendAll columnOrigins state)

inductive Result (Row : Type)
  | materialized (idTable : List Row)
  | lazy (idTables : List (List Row))

namespace Result
variable {Row : Type}

def toRange : Result Row → List (List Row)
  | materialized idTable => [idTable]
  | lazy idTables => idTables

/-- The table of a materialized result, where `none` is a failed check. -/
def idTable : Result Row → Option (List Row)
  | materialized idTable => some idTable
  | lazy _ => none

def rows (result : Result Row) : List Row := result.toRange.flatten

end Result

def computeResultKeepOrder (fuel : Nat) (result1 : Result (Fin w1 → Id)) (result2 : Result (Fin w2 → Id)) : Option (List (List (Fin n → Id))) :=
  (loop (round columnOrigins (trimmedTargetOrder columnOrigins targetOrder) requestLaziness chunkSize) fuel
    ⟨.start result1.toRange,.start result2.toRange,[],false,[]⟩).map State.yielded

def getSingleElement {Table : Type} : List Table → Option Table
  | [element] => some element
  | _ => none

def computeResultLazily (result1 : Result (Fin w1 → Id)) (result2 : Result (Fin w2 → Id)) : List (List (Fin n → Id)) :=
  result1.toRange.map (transformToCorrectColumnFormat (computePermutation (leftOrigins columnOrigins))) ++
    result2.toRange.map (transformToCorrectColumnFormat (computePermutation (rightOrigins columnOrigins)))

def computeUnion (left : List (Fin w1 → Id)) (right : List (Fin w2 → Id)) : List (Fin n → Id) :=
  left.map (pushedRow (leftOrigins columnOrigins)) ++ right.map (pushedRow (rightOrigins columnOrigins))

def computeResult (fuel : Nat) (subRes1 : Result (Fin w1 → Id)) (subRes2 : Result (Fin w2 → Id)) : Option (Result (Fin n → Id)) :=
  if ∃ first ∈ targetOrder.head?,(columnOrigins first).left ≠ none then do
    let generator ← computeResultKeepOrder columnOrigins targetOrder requestLaziness chunkSize fuel subRes1 subRes2
    if requestLaziness then return .lazy generator else return .materialized (← getSingleElement generator)
  else if requestLaziness then some (.lazy (computeResultLazily columnOrigins subRes1 subRes2))
  else do return .materialized (computeUnion columnOrigins (← subRes1.idTable) (← subRes2.idTable))

/-- The result of a `Union` that was made for these children. The constructor swaps them if the right one lacks the first sort column. -/
def unionResult (fuel : Nat) (subRes1 : Result (Fin w1 → Id)) (subRes2 : Result (Fin w2 → Id)) : Option (Result (Fin n → Id)) :=
  if ∃ first ∈ targetOrder.head?,(columnOrigins first).right = none then
    computeResult (fun column => (columnOrigins column).swap) targetOrder requestLaziness chunkSize fuel subRes2 subRes1
  else computeResult columnOrigins targetOrder requestLaziness chunkSize fuel subRes1 subRes2

end Source

section Remaining
variable {Row : Type}

namespace IterationData

def remaining (data : IterationData Row) : List Row := (data.range.headD []).drop data.index ++ data.range.tail.flatten

@[simp] theorem range_start (range : List (List Row)) : (start range).range = range := rfl

@[simp] theorem remaining_start (range : List (List Row)) : (start range).remaining = range.flatten := by cases range <;> rfl

variable (data : IterationData Row)

@[simp] theorem range_next (inside : data.index < (data.range.headD []).length) : (data.next inside).range = data.range := rfl

theorem remaining_next {data : IterationData Row} (inside : data.index < (data.range.headD []).length) :
    data.remaining = (data.range.headD []).get ⟨data.index,inside⟩ :: (data.next inside).remaining := by
  rw [remaining,drop_eq_getElem_cons inside]
  rfl

theorem remaining_advance : data.advanceRangeIfConsumed.remaining = data.remaining := by
  rw [advanceRangeIfConsumed]
  split
  next consumed => rw [remaining_start,remaining,consumed,drop_length,nil_append]
  next => rfl

theorem length_range_advance : data.advanceRangeIfConsumed.range.length ≤ data.range.length := by
  rw [advanceRangeIfConsumed]
  split
  next =>
    rw [start,length_tail]
    omega
  next => exact le_rfl

section
variable {data : IterationData Row}

theorem length_range_advance_lt (notEmpty : data.range ≠ []) (consumed : ¬data.index < (data.range.headD []).length) :
    data.advanceRangeIfConsumed.range.length < data.range.length := by
  rw [advanceRangeIfConsumed,if_pos (le_antisymm data.inside (not_lt.mp consumed)),start,length_tail]
  exact Nat.sub_lt (length_pos_iff.mpr notEmpty) Nat.one_pos

theorem remaining_of_empty (isEmpty : data.range = []) : data.remaining = [] ∧ data.index = 0 := by
  have inside := data.inside
  rw [isEmpty,headD_nil,length_nil,Nat.le_zero] at inside
  rw [remaining,isEmpty]
  exact ⟨by simp,inside⟩

theorem remaining_of_index (first : data.index = 0) : data.remaining = data.range.flatten := by
  rw [remaining,first]
  cases data.range <;> rfl

end

section
variable (permutation : List.Vector Nat n) (current : List (Fin n → Id) × IterationData (Fin w → Id))

theorem appendCurrent_eq :
    (appendCurrent permutation current).1 ++ (appendCurrent permutation current).2.remaining.map (insertedRow permutation) =
      current.1 ++ current.2.remaining.map (insertedRow permutation) := by
  rw [appendCurrent,remaining_start,remaining,map_append,append_assoc]

theorem length_appendCurrent :
    (appendCurrent permutation current).1.length + (appendCurrent permutation current).2.remaining.length =
        current.1.length + current.2.remaining.length ∧
      (appendCurrent permutation current).2.remaining.length ≤ current.2.remaining.length ∧
      (appendCurrent permutation current).2.range.length ≤ current.2.range.length := by
  have lengths := congrArg List.length (appendCurrent_eq permutation current)
  rw [length_append,length_append,length_map,length_map] at lengths
  refine ⟨lengths,?_,?_⟩
  · rw [appendCurrent,remaining_start,remaining,length_append]
    omega
  · rw [appendCurrent,start,length_tail]
    omega

theorem appendRemaining_eq :
    (appendRemaining permutation current).1 = current.1 ++ current.2.remaining.map (insertedRow permutation) ∧
      (appendRemaining permutation current).2.range = [] := by
  rw [appendRemaining]
  induction tables : current.2.range.length generalizing current with
  | zero =>
    have isEmpty := length_eq_zero_iff.mp tables
    rw [Function.iterate_zero,id,(remaining_of_empty isEmpty).1,map_nil,append_nil]
    exact ⟨rfl,isEmpty⟩
  | succ count ih =>
    have fewer : (appendCurrent permutation current).2.range.length = count := by
      rw [appendCurrent,start,length_tail,tables]
      rfl
    rw [Function.iterate_succ_apply,← appendCurrent_eq]
    exact ih _ fewer

end

end IterationData
end Remaining

section Run
variable (columnOrigins : Fin n → ColumnOrigin w1 w2) (targetOrder : List (Fin n))

def takesLeft : (Fin w1 → Id) ⊕ (Fin w2 → Id) → (Fin w1 → Id) ⊕ (Fin w2 → Id) → Bool
  | .inl row1,.inr row2 => isSmaller columnOrigins row1 row2 targetOrder
  | _,_ => false

def rowOf : (Fin w1 → Id) ⊕ (Fin w2 → Id) → Fin n → Id := Sum.elim (pushedRow (leftOrigins columnOrigins)) (pushedRow (rightOrigins columnOrigins))

def mergedRows (rows1 : List (Fin w1 → Id)) (rows2 : List (Fin w2 → Id)) : List (Fin n → Id) :=
  ((rows1.map Sum.inl).merge (rows2.map Sum.inr) (takesLeft columnOrigins targetOrder)).map (rowOf columnOrigins)

theorem mergedRows_nil_left (rows2 : List (Fin w2 → Id)) :
    mergedRows columnOrigins targetOrder [] rows2 = rows2.map (pushedRow (rightOrigins columnOrigins)) := by
  rw [mergedRows,map_nil,nil_merge,map_map]
  rfl

theorem mergedRows_nil_right (rows1 : List (Fin w1 → Id)) :
    mergedRows columnOrigins targetOrder rows1 [] = rows1.map (pushedRow (leftOrigins columnOrigins)) := by
  rw [mergedRows,map_nil,merge_right,map_map]
  rfl

theorem mergedRows_cons (row1 : Fin w1 → Id) (row2 : Fin w2 → Id) (rows1 : List (Fin w1 → Id)) (rows2 : List (Fin w2 → Id)) :
    mergedRows columnOrigins targetOrder (row1 :: rows1) (row2 :: rows2) =
      if isSmaller columnOrigins row1 row2 targetOrder then
        pushedRow (leftOrigins columnOrigins) row1 :: mergedRows columnOrigins targetOrder rows1 (row2 :: rows2)
      else pushedRow (rightOrigins columnOrigins) row2 :: mergedRows columnOrigins targetOrder (row1 :: rows1) rows2 := by
  rw [mergedRows,map_cons,map_cons,cons_merge_cons,takesLeft]
  split <;> rfl

namespace State

def expected (state : State Id w1 w2 n) : List (Fin n → Id) :=
  state.yielded.flatten ++ state.resultTable ++ mergedRows columnOrigins targetOrder state.data1.remaining state.data2.remaining

def measure (state : State Id w1 w2 n) : Nat :=
  2 * (state.data1.remaining.length + state.data2.remaining.length) + state.data1.range.length + state.data2.range.length + state.resultTable.length +
    (!state.done).toNat

end State

variable {columnOrigins targetOrder} {requestLaziness : Bool} {chunkSize : Nat} {state next : State Id w1 w2 n}

structure Progress (columnOrigins : Fin n → ColumnOrigin w1 w2) (targetOrder : List (Fin n)) (state next : State Id w1 w2 n) : Prop where
  expected : next.expected columnOrigins targetOrder = state.expected columnOrigins targetOrder
  measure : next.measure < state.measure

theorem expected_popResult : state.popResult.expected columnOrigins targetOrder = state.expected columnOrigins targetOrder := by
  simp [State.popResult,State.expected]

omit [LinearOrder Id] [OrderBot Id] in
theorem measure_popResult : state.popResult.measure + state.resultTable.length = state.measure := by
  simp only [State.popResult,State.measure,length_nil]
  omega

theorem expected_advance : state.advanceRangeIfConsumed.expected columnOrigins targetOrder = state.expected columnOrigins targetOrder := by
  simp only [State.advanceRangeIfConsumed,State.expected,IterationData.remaining_advance]

omit [LinearOrder Id] [OrderBot Id] in
theorem measure_advance : state.advanceRangeIfConsumed.measure ≤ state.measure := by
  have fewer1 := state.data1.length_range_advance
  have fewer2 := state.data2.length_range_advance
  simp only [State.advanceRangeIfConsumed,State.measure,IterationData.remaining_advance]
  omega

theorem progress_of_pushSmaller (isNext : pushSmaller columnOrigins targetOrder state = some next) :
    Progress columnOrigins targetOrder state next ∧ next.yielded = state.yielded ∧ next.done = state.done := by
  rw [pushSmaller] at isNext
  split at isNext
  next inside1 =>
    split at isNext
    next inside2 =>
      have rows1 := IterationData.remaining_next inside1
      have rows2 := IterationData.remaining_next inside2
      have merged := mergedRows_cons columnOrigins targetOrder ((state.data1.range.headD []).get ⟨state.data1.index,inside1⟩)
        ((state.data2.range.headD []).get ⟨state.data2.index,inside2⟩) (state.data1.next inside1).remaining (state.data2.next inside2).remaining
      rw [← rows1,← rows2] at merged
      simp only at isNext
      split at isNext
      next smaller =>
        rw [if_pos smaller] at merged
        cases isNext
        refine ⟨⟨?_,?_⟩,rfl,rfl⟩
        · simp only [State.expected,merged,append_assoc,singleton_append]
        · simp only [State.measure,rows1,length_cons,length_append,IterationData.range_next,length_nil]
          omega
      next notSmaller =>
        rw [if_neg notSmaller] at merged
        cases isNext
        refine ⟨⟨?_,?_⟩,rfl,rfl⟩
        · simp only [State.expected,merged,append_assoc,singleton_append]
        · simp only [State.measure,rows2,length_cons,length_append,IterationData.range_next,length_nil]
          omega
    next => cases isNext
  next => cases isNext

theorem consumed_of_pushSmaller (isLast : pushSmaller columnOrigins targetOrder state = none) :
    ¬state.data1.index < (state.data1.range.headD []).length ∨ ¬state.data2.index < (state.data2.range.headD []).length := by
  by_contra inside
  rw [not_or,not_not,not_not] at inside
  rw [pushSmaller,dif_pos inside.1,dif_pos inside.2] at isLast
  simp only at isLast
  split at isLast <;> cases isLast

theorem progress_of_advance (both : state.data1.range ≠ [] ∧ state.data2.range ≠ []) (isLast : pushSmaller columnOrigins targetOrder state = none) :
    Progress columnOrigins targetOrder state state.advanceRangeIfConsumed := by
  refine ⟨expected_advance,?_⟩
  have fewer1 := state.data1.length_range_advance
  have fewer2 := state.data2.length_range_advance
  simp only [State.advanceRangeIfConsumed,State.measure,IterationData.remaining_advance]
  rcases consumed_of_pushSmaller isLast with consumed | consumed
  · have fewer := IterationData.length_range_advance_lt both.1 consumed
    omega
  · have fewer := IterationData.length_range_advance_lt both.2 consumed
    omega

theorem expected_of_exhausted (exhausted : state.data1.range = [] ∨ state.data2.range = []) :
    state.expected columnOrigins targetOrder = state.yielded.flatten ++ state.resultTable ++
      (state.data1.remaining.map (pushedRow (leftOrigins columnOrigins)) ++ state.data2.remaining.map (pushedRow (rightOrigins columnOrigins))) := by
  rw [State.expected]
  rcases exhausted with isEmpty | isEmpty
  · rw [(IterationData.remaining_of_empty isEmpty).1,mergedRows_nil_left,map_nil,nil_append]
  · rw [(IterationData.remaining_of_empty isEmpty).1,mergedRows_nil_right,map_nil,append_nil]

structure Appended (columnOrigins : Fin n → ColumnOrigin w1 w2) (targetOrder : List (Fin n)) (state next : State Id w1 w2 n) : Prop where
  expected : next.expected columnOrigins targetOrder = state.expected columnOrigins targetOrder
  measure : next.measure ≤ state.measure
  exhausted : next.data1.range = [] ∨ next.data2.range = []
  done : next.done = state.done
  yielded : next.yielded = state.yielded

section
variable (exhausted : state.data1.range = [] ∨ state.data2.range = [])
include exhausted

theorem appended1 (isNext : next = if state.data1.index ≠ 0 then state.appendCurrent1 (computePermutation (leftOrigins columnOrigins)) else state) :
    Appended columnOrigins targetOrder state next ∧ next.data1.index = 0 ∧ next.data2 = state.data2 := by
  by_cases started : state.data1.index ≠ 0
  · rw [if_pos started] at isNext
    subst isNext
    have isEmpty : state.data2.range = [] := exhausted.resolve_left (fun isEmpty => started (IterationData.remaining_of_empty isEmpty).2)
    have rows := IterationData.appendCurrent_eq (computePermutation (leftOrigins columnOrigins)) (state.resultTable,state.data1)
    simp only [insertedRow_eq] at rows
    refine ⟨⟨?_,?_,.inr isEmpty,rfl,rfl⟩,rfl,rfl⟩
    · have after := @expected_of_exhausted Id _ _ n w1 w2 columnOrigins targetOrder (state.appendCurrent1 (computePermutation (leftOrigins columnOrigins)))
        (.inr isEmpty)
      rw [expected_of_exhausted exhausted,after]
      simp only [State.appendCurrent1,append_assoc]
      rw [← append_assoc (IterationData.appendCurrent _ _).1,rows,append_assoc]
    · have lengths := IterationData.length_appendCurrent (computePermutation (leftOrigins columnOrigins)) (state.resultTable,state.data1)
      simp only at lengths
      simp only [State.appendCurrent1,State.measure]
      omega
  · rw [if_neg started] at isNext
    subst isNext
    exact ⟨⟨rfl,le_rfl,exhausted,rfl,rfl⟩,not_not.mp started,rfl⟩

theorem appended2 (isNext : next = if state.data2.index ≠ 0 then state.appendCurrent2 (computePermutation (rightOrigins columnOrigins)) else state) :
    Appended columnOrigins targetOrder state next ∧ next.data2.index = 0 ∧ next.data1 = state.data1 := by
  by_cases started : state.data2.index ≠ 0
  · rw [if_pos started] at isNext
    subst isNext
    have isEmpty : state.data1.range = [] := exhausted.resolve_right (fun isEmpty => started (IterationData.remaining_of_empty isEmpty).2)
    have rows := IterationData.appendCurrent_eq (computePermutation (rightOrigins columnOrigins)) (state.resultTable,state.data2)
    simp only [insertedRow_eq] at rows
    refine ⟨⟨?_,?_,.inl isEmpty,rfl,rfl⟩,rfl,rfl⟩
    · have noRows : state.data1.remaining = [] := (IterationData.remaining_of_empty isEmpty).1
      have after := @expected_of_exhausted Id _ _ n w1 w2 columnOrigins targetOrder
        (state.appendCurrent2 (computePermutation (rightOrigins columnOrigins))) (.inl isEmpty)
      rw [expected_of_exhausted exhausted,after]
      simp only [State.appendCurrent2,append_assoc,noRows,map_nil,nil_append]
      rw [rows]
    · have lengths := IterationData.length_appendCurrent (computePermutation (rightOrigins columnOrigins)) (state.resultTable,state.data2)
      simp only at lengths
      simp only [State.appendCurrent2,State.measure]
      omega
  · rw [if_neg started] at isNext
    subst isNext
    exact ⟨⟨rfl,le_rfl,exhausted,rfl,rfl⟩,not_not.mp started,rfl⟩

theorem passRemaining_spec :
    match passRemaining columnOrigins state with
    | some next => Progress columnOrigins targetOrder state next ∧ next.done = state.done
    | none => state.expected columnOrigins targetOrder = state.yielded.flatten := by
  obtain ⟨state1,isState1⟩ : ∃ next,next = if state.data1.index ≠ 0 then state.appendCurrent1 (computePermutation (leftOrigins columnOrigins)) else state :=
    ⟨_,rfl⟩
  obtain ⟨appendedLeft,index1,sameData2⟩ := @appended1 Id _ _ n w1 w2 columnOrigins targetOrder state state1 exhausted isState1
  obtain ⟨state2,isState2⟩ : ∃ next,next =
      if state1.data2.index ≠ 0 then state1.appendCurrent2 (computePermutation (rightOrigins columnOrigins)) else state1 := ⟨_,rfl⟩
  obtain ⟨appendedRight,index2,sameData1⟩ := @appended2 Id _ _ n w1 w2 columnOrigins targetOrder state1 state2 appendedLeft.exhausted isState2
  rw [← sameData1] at index1
  have expected := appendedRight.expected.trans appendedLeft.expected
  have measure := appendedRight.measure.trans appendedLeft.measure
  have done := appendedRight.done.trans appendedLeft.done
  have yielded := appendedRight.yielded.trans appendedLeft.yielded
  have rest := @expected_of_exhausted Id _ _ n w1 w2 columnOrigins targetOrder state2 appendedRight.exhausted
  rw [expected,IterationData.remaining_of_index index1,IterationData.remaining_of_index index2] at rest
  simp only [passRemaining]
  rw [← isState1,← isState2]
  by_cases noRows : state2.resultTable = []
  · rw [noRows,append_nil] at rest
    rw [if_neg (not_not.mpr noRows),IterationData.passNext]
    cases range1 : state2.data1.range with
    | cons idTable range =>
      have noTables : state2.data2.range = [] := appendedRight.exhausted.resolve_left (by rw [range1]; exact cons_ne_nil _ _)
      refine ⟨⟨?_,?_⟩,done⟩
      · rw [rest,State.expected,range1,noTables,transformToCorrectColumnFormat_eq,noRows]
        simp [(IterationData.remaining_of_empty noTables).1,mergedRows_nil_right]
      · refine lt_of_lt_of_le ?_ measure
        simp only [State.measure,IterationData.remaining_start,IterationData.remaining_of_index index1,range1,flatten_cons,length_append,
          length_cons,IterationData.range_start]
        omega
    | nil =>
      simp only
      rw [IterationData.passNext]
      cases range2 : state2.data2.range with
      | cons idTable range =>
        refine ⟨⟨?_,?_⟩,done⟩
        · rw [rest,State.expected,range1,range2,transformToCorrectColumnFormat_eq,noRows]
          simp [(IterationData.remaining_of_empty range1).1,mergedRows_nil_left]
        · refine lt_of_lt_of_le ?_ measure
          simp only [State.measure,IterationData.remaining_start,IterationData.remaining_of_index index2,range2,flatten_cons,length_append,
            length_cons,IterationData.range_start]
          omega
      | nil =>
        rw [range1,range2,yielded] at rest
        simpa using rest
  · rw [if_pos noRows]
    have popped := @measure_popResult Id n w1 w2 state2
    have someRows := length_pos_iff.mpr noRows
    exact ⟨⟨expected_popResult.trans expected,by omega⟩,done⟩

theorem appendAll_spec (notDone : state.done = false) :
    Progress columnOrigins targetOrder state (appendAll columnOrigins state) ∧
      (appendAll columnOrigins state).yielded = state.yielded ++ [state.resultTable ++
        (state.data1.remaining.map (pushedRow (leftOrigins columnOrigins)) ++ state.data2.remaining.map (pushedRow (rightOrigins columnOrigins)))] ∧
      (appendAll columnOrigins state).expected columnOrigins targetOrder = (appendAll columnOrigins state).yielded.flatten := by
  obtain ⟨rows1,isEmpty1⟩ := IterationData.appendRemaining_eq (computePermutation (leftOrigins columnOrigins)) (state.resultTable,state.data1)
  obtain ⟨rows2,isEmpty2⟩ := IterationData.appendRemaining_eq (computePermutation (rightOrigins columnOrigins))
    ((IterationData.appendRemaining (computePermutation (leftOrigins columnOrigins)) (state.resultTable,state.data1)).1,state.data2)
  have noRows1 := (IterationData.remaining_of_empty isEmpty1).1
  have noRows2 := (IterationData.remaining_of_empty isEmpty2).1
  rw [insertedRow_eq] at rows1 rows2
  simp only [rows1] at rows2 isEmpty2 noRows2
  have yielded : (appendAll columnOrigins state).yielded = state.yielded ++ [state.resultTable ++
      (state.data1.remaining.map (pushedRow (leftOrigins columnOrigins)) ++ state.data2.remaining.map (pushedRow (rightOrigins columnOrigins)))] := by
    simp only [appendAll,rows1,rows2,append_assoc]
  have final : (appendAll columnOrigins state).expected columnOrigins targetOrder = (appendAll columnOrigins state).yielded.flatten := by
    rw [State.expected]
    simp only [appendAll,rows1,noRows1,noRows2,mergedRows_nil_left,map_nil,append_nil]
  refine ⟨⟨?_,?_⟩,yielded,final⟩
  · rw [final,yielded,expected_of_exhausted exhausted]
    simp
  · simp only [State.measure,appendAll,rows1,noRows1,noRows2,isEmpty1,isEmpty2,length_nil,notDone,Bool.not_false,Bool.not_true,Bool.toNat_true,
      Bool.toNat_false]
    omega

end

structure Valid (columnOrigins : Fin n → ColumnOrigin w1 w2) (targetOrder : List (Fin n)) (requestLaziness : Bool) (state : State Id w1 w2 n) : Prop where
  notDone : state.done = false → requestLaziness = false → state.yielded = []
  ofDone : state.done = true → requestLaziness = false ∧ (∃ table,state.yielded = [table]) ∧
    state.expected columnOrigins targetOrder = state.yielded.flatten

section
variable (valid : Valid columnOrigins targetOrder requestLaziness state)
include valid

theorem round_spec (isNext : round columnOrigins targetOrder requestLaziness chunkSize state = some next) :
    Valid columnOrigins targetOrder requestLaziness next ∧ Progress columnOrigins targetOrder state next := by
  rw [round] at isNext
  split at isNext
  next => cases isNext
  next notDone =>
    rw [Bool.not_eq_true] at notDone
    split at isNext
    next both =>
      split at isNext
      next pushed isPushed =>
        obtain ⟨progress,yielded,done⟩ := progress_of_pushSmaller isPushed
        split at isNext
        next full =>
          cases isNext
          refine ⟨⟨fun _ notLazy => Bool.noConfusion (full.1.symm.trans notLazy),fun isDone => ?_⟩,?_,?_⟩
          · exact Bool.noConfusion (isDone.symm.trans (done.trans notDone))
          · exact (expected_advance.trans expected_popResult).trans progress.expected
          · have popped := @measure_popResult Id n w1 w2 pushed
            have advanced := @measure_advance Id n w1 w2 pushed.popResult
            have smaller := progress.measure
            omega
        next =>
          cases isNext
          refine ⟨⟨fun _ notLazy => yielded.trans (valid.notDone notDone notLazy),fun isDone => ?_⟩,progress⟩
          exact Bool.noConfusion (isDone.symm.trans (done.trans notDone))
      next isLast =>
        cases isNext
        refine ⟨⟨fun _ notLazy => valid.notDone notDone notLazy,fun isDone => ?_⟩,progress_of_advance both isLast⟩
        exact Bool.noConfusion (isDone.symm.trans notDone)
    next notBoth =>
      rw [not_and_or,not_not,not_not] at notBoth
      split at isNext
      next isLazy =>
        have spec := @passRemaining_spec Id _ _ n w1 w2 columnOrigins targetOrder state notBoth
        rw [isNext] at spec
        refine ⟨⟨fun _ notLazy => Bool.noConfusion (isLazy.symm.trans notLazy),fun isDone => ?_⟩,spec.1⟩
        exact Bool.noConfusion (isDone.symm.trans (spec.2.trans notDone))
      next notLazy =>
        rw [Bool.not_eq_true] at notLazy
        cases isNext
        obtain ⟨progress,yielded,final⟩ := @appendAll_spec Id _ _ n w1 w2 columnOrigins targetOrder state notBoth notDone
        rw [valid.notDone notDone notLazy,nil_append] at yielded
        exact ⟨⟨fun isDone => absurd isDone (by simp [appendAll]),fun _ => ⟨notLazy,⟨_,yielded⟩,final⟩⟩,progress⟩

theorem expected_of_last (isLast : round columnOrigins targetOrder requestLaziness chunkSize state = none) :
    state.expected columnOrigins targetOrder = state.yielded.flatten ∧ (requestLaziness = false → state.done = true) := by
  rw [round] at isLast
  split at isLast
  next isDone => exact ⟨(valid.ofDone isDone).2.2,fun _ => isDone⟩
  next =>
    split at isLast
    next =>
      split at isLast
      next =>
        split at isLast <;> cases isLast
      next => cases isLast
    next notBoth =>
      rw [not_and_or,not_not,not_not] at notBoth
      split at isLast
      next isLazy =>
        have spec := @passRemaining_spec Id _ _ n w1 w2 columnOrigins targetOrder state notBoth
        rw [isLast] at spec
        exact ⟨spec,fun notLazy => Bool.noConfusion (isLazy.symm.trans notLazy)⟩
      next => cases isLast

end

variable {result1 : Result (Fin w1 → Id)} {result2 : Result (Fin w2 → Id)}

theorem computeResultKeepOrder_eq (columnOrigins : Fin n → ColumnOrigin w1 w2) (targetOrder : List (Fin n)) (requestLaziness : Bool) (chunkSize : Nat)
    (result1 : Result (Fin w1 → Id)) (result2 : Result (Fin w2 → Id)) :
    ∃ fuel tables,computeResultKeepOrder columnOrigins targetOrder requestLaziness chunkSize fuel result1 result2 = some tables ∧
      tables.flatten = mergedRows columnOrigins (trimmedTargetOrder columnOrigins targetOrder) result1.rows result2.rows ∧
      (requestLaziness = false → ∃ table,tables = [table]) := by
  let order := trimmedTargetOrder columnOrigins targetOrder
  let first : State Id w1 w2 n := ⟨.start result1.toRange,.start result2.toRange,[],false,[]⟩
  have validFirst : Valid columnOrigins order requestLaziness first := ⟨fun _ _ => rfl,fun isDone => absurd isDone Bool.false_ne_true⟩
  obtain ⟨fuel,last,isLast⟩ := loop_terminates Nat.lt_wfRel.wf State.measure
    (fun state next (valid : Valid columnOrigins order requestLaziness state)
      (isNext : round columnOrigins order requestLaziness chunkSize state = some next) =>
      ⟨(round_spec valid isNext).1,(round_spec valid isNext).2.measure⟩) validFirst
  obtain ⟨steps,noNext⟩ := steps_of_loop isLast
  have keeps : ∀ state next,
      Valid columnOrigins order requestLaziness state ∧ state.expected columnOrigins order = first.expected columnOrigins order →
      round columnOrigins order requestLaziness chunkSize state = some next →
      Valid columnOrigins order requestLaziness next ∧ next.expected columnOrigins order = first.expected columnOrigins order :=
    fun state next ⟨valid,same⟩ isNext => ⟨(round_spec valid isNext).1,(round_spec valid isNext).2.expected.trans same⟩
  have kept := steps.invariant keeps ⟨validFirst,rfl⟩
  obtain ⟨yielded,isDone⟩ := expected_of_last kept.1 noNext
  refine ⟨fuel,last.yielded,by rw [computeResultKeepOrder,isLast]; rfl,?_,fun notLazy => (kept.1.ofDone (isDone notLazy)).2.1⟩
  rw [← yielded,kept.2,State.expected]
  simp [first,order,Result.rows]

end Run

section Union
variable {columnOrigins : Fin n → ColumnOrigin w1 w2} {targetOrder : List (Fin n)} {rows1 : List (Fin w1 → Id)} {rows2 : List (Fin w2 → Id)}

theorem mergedRows_trimmed (columnOrigins : Fin n → ColumnOrigin w1 w2) (targetOrder : List (Fin n)) :
    (mergedRows columnOrigins (trimmedTargetOrder columnOrigins targetOrder) : List (Fin w1 → Id) → _) = mergedRows columnOrigins targetOrder := by
  have sameTest : (takesLeft columnOrigins (trimmedTargetOrder columnOrigins targetOrder) : (Fin w1 → Id) ⊕ (Fin w2 → Id) → _) =
      takesLeft columnOrigins targetOrder := by
    funext row row'
    rcases row with row1 | row2
    · rcases row' with row1' | row2
      · rfl
      · exact isSmaller_trimmed columnOrigins row1 row2 targetOrder
    · rfl
  funext rows1 rows2
  rw [mergedRows,mergedRows,sameTest]

theorem mergedRows_of_missing {first : Fin n} (missing : (columnOrigins first).left = none) (targetOrder : List (Fin n))
    (rows1 : List (Fin w1 → Id)) (rows2 : List (Fin w2 → Id)) :
    mergedRows columnOrigins (first :: targetOrder) rows1 rows2 =
      rows1.map (pushedRow (leftOrigins columnOrigins)) ++ rows2.map (pushedRow (rightOrigins columnOrigins)) := by
  rw [mergedRows,merge_of_le,map_append,map_map,map_map]
  · rfl
  · intro row row' isRow1 isRow2
    obtain ⟨row1,_,rfl⟩ := List.mem_map.mp isRow1
    obtain ⟨row2,_,rfl⟩ := List.mem_map.mp isRow2
    rw [takesLeft,isSmaller,missing]

theorem mergedRows_perm (columnOrigins : Fin n → ColumnOrigin w1 w2) (targetOrder : List (Fin n)) (rows1 : List (Fin w1 → Id))
    (rows2 : List (Fin w2 → Id)) :
    (mergedRows columnOrigins targetOrder rows1 rows2).Perm
      (rows1.map (pushedRow (leftOrigins columnOrigins)) ++ rows2.map (pushedRow (rightOrigins columnOrigins))) := by
  have perm := (@merge_perm_append _ (takesLeft columnOrigins targetOrder) (rows1.map Sum.inl) (rows2.map Sum.inr)).map (rowOf columnOrigins)
  rw [map_append,map_map,map_map] at perm
  exact perm

theorem sortedBy_mergedRows_iff (sorted1 : SortedBy (specificSortOrder (leftOrigins columnOrigins) targetOrder) rows1)
    (sorted2 : SortedBy (specificSortOrder (rightOrigins columnOrigins) targetOrder) rows2) :
    SortedBy targetOrder (mergedRows columnOrigins targetOrder rows1 rows2) ↔
      ∀ row1 ∈ rows1,∀ row2 ∈ rows2,¬Conflict columnOrigins row1 row2 targetOrder := by
  rw [SortedBy,mergedRows,pairwise_map,pairwise_merge_iff]
  · constructor
    · intro ordered row1 isRow1 row2 isRow2
      exact (ordered_iff row1 row2 targetOrder).mp (ordered (.inl row1) (mem_map_of_mem isRow1) (.inr row2) (mem_map_of_mem isRow2))
    · intro noConflict row isRow row' isRow'
      obtain ⟨row1,isRow1,rfl⟩ := List.mem_map.mp isRow
      obtain ⟨row2,isRow2,rfl⟩ := List.mem_map.mp isRow'
      exact (ordered_iff row1 row2 targetOrder).mpr (noConflict row1 isRow1 row2 isRow2)
  · exact pairwise_map.mpr (sorted1.imp (fun le => (map_pushedRow_le_iff _ _ _ targetOrder).mpr le))
  · exact pairwise_map.mpr (sorted2.imp (fun le => (map_pushedRow_le_iff _ _ _ targetOrder).mpr le))
  · refine pairwise_map.mpr (sorted1.imp (fun le row isRow smaller => ?_))
    obtain ⟨row2,_,rfl⟩ := List.mem_map.mp isRow
    exact isSmaller_of_le le le_rfl smaller
  · refine pairwise_map.mpr (sorted2.imp (fun le row isRow smaller => ?_))
    obtain ⟨row1,_,rfl⟩ := List.mem_map.mp isRow
    exact isSmaller_of_le le_rfl le smaller

omit [LinearOrder Id] [OrderBot Id] in
theorem Result.rows_materialized {Row : Type} (idTable : List Row) : (Result.materialized idTable).rows = idTable := append_nil idTable

theorem computeResult_eq (chunkSize : Nat) {requestLaziness : Bool} {subRes1 : Result (Fin w1 → Id)} {subRes2 : Result (Fin w2 → Id)}
    (nonempty : targetOrder ≠ []) (materialized : requestLaziness = false → subRes1 = .materialized subRes1.rows ∧ subRes2 = .materialized subRes2.rows) :
    ∃ fuel result,computeResult columnOrigins targetOrder requestLaziness chunkSize fuel subRes1 subRes2 = some result ∧
      result.rows = mergedRows columnOrigins targetOrder subRes1.rows subRes2.rows := by
  obtain ⟨first,order,rfl⟩ := exists_cons_of_ne_nil nonempty
  by_cases missing : (columnOrigins first).left = none
  · have concatenates : ¬∃ column ∈ (first :: order).head?,(columnOrigins column).left ≠ none := by simp [missing]
    refine ⟨0,?_⟩
    rw [computeResult,if_neg concatenates,mergedRows_of_missing missing]
    cases requestLaziness with
    | true =>
      refine ⟨_,rfl,?_⟩
      rw [Result.rows,Result.toRange,computeResultLazily,flatten_append]
      simp only [transformToCorrectColumnFormat_eq,Result.rows,map_flatten]
    | false =>
      obtain ⟨isTable1,isTable2⟩ := materialized rfl
      rw [isTable1,isTable2]
      exact ⟨_,rfl,by rw [Result.rows_materialized,Result.rows_materialized,Result.rows_materialized,computeUnion]⟩
  · have merges : ∃ column ∈ (first :: order).head?,(columnOrigins column).left ≠ none := ⟨first,rfl,missing⟩
    obtain ⟨fuel,tables,isResult,rows,isSingle⟩ := computeResultKeepOrder_eq columnOrigins (first :: order) requestLaziness chunkSize subRes1 subRes2
    rw [mergedRows_trimmed] at rows
    refine ⟨fuel,?_⟩
    rw [computeResult,if_pos merges,isResult]
    cases requestLaziness with
    | true => exact ⟨_,rfl,rows⟩
    | false =>
      obtain ⟨table,rfl⟩ := isSingle rfl
      refine ⟨_,rfl,?_⟩
      rw [← rows,Result.rows_materialized,flatten_singleton]

theorem conflict_swap (row1 : Fin w1 → Id) (row2 : Fin w2 → Id) (targetOrder : List (Fin n)) :
    Conflict (fun column => (columnOrigins column).swap) row2 row1 targetOrder ↔ Conflict columnOrigins row1 row2 targetOrder := by
  induction targetOrder with
  | nil => rfl
  | cons column targetOrder ih =>
    rw [Conflict,Conflict]
    simp only [ColumnOrigin.swap]
    cases (columnOrigins column).left with
    | none => cases (columnOrigins column).right <;> rfl
    | some index1 =>
      cases (columnOrigins column).right with
      | none => rfl
      | some index2 => exact and_congr eq_comm ih

/-- The rows of a sorted union do not depend on the laziness and on how the children are cut, and they are those of both children. They are sorted by the
target order if and only if no two rows of the children are in conflict. -/
theorem unionResult_correct_iff (columnOrigins : Fin n → ColumnOrigin w1 w2) (targetOrder : List (Fin n)) (chunkSize : Nat)
    (subRes1 : Result (Fin w1 → Id)) (subRes2 : Result (Fin w2 → Id)) (nonempty : targetOrder ≠ [])
    (sorted1 : SortedBy (specificSortOrder (leftOrigins columnOrigins) targetOrder) subRes1.rows)
    (sorted2 : SortedBy (specificSortOrder (rightOrigins columnOrigins) targetOrder) subRes2.rows) :
    ∃ rows,(∃ fuel result,unionResult columnOrigins targetOrder true chunkSize fuel subRes1 subRes2 = some result ∧ result.rows = rows) ∧
      (∃ fuel result,unionResult columnOrigins targetOrder false chunkSize fuel (.materialized subRes1.rows) (.materialized subRes2.rows) = some result ∧
        result.rows = rows) ∧
      rows.Perm (subRes1.rows.map (pushedRow (leftOrigins columnOrigins)) ++ subRes2.rows.map (pushedRow (rightOrigins columnOrigins))) ∧
      (SortedBy targetOrder rows ↔ ∀ row1 ∈ subRes1.rows,∀ row2 ∈ subRes2.rows,¬Conflict columnOrigins row1 row2 targetOrder) := by
  have isTable1 := Result.rows_materialized subRes1.rows
  have isTable2 := Result.rows_materialized subRes2.rows
  by_cases swapped : ∃ first ∈ targetOrder.head?,(columnOrigins first).right = none
  · simp only [unionResult,if_pos swapped]
    refine ⟨mergedRows (fun column => (columnOrigins column).swap) targetOrder subRes2.rows subRes1.rows,?_,?_,?_,?_⟩
    · exact computeResult_eq chunkSize nonempty (fun isFalse => nomatch isFalse)
    · have result := @computeResult_eq Id _ _ n w2 w1 (fun column => (columnOrigins column).swap) targetOrder chunkSize false
        (.materialized subRes2.rows) (.materialized subRes1.rows) nonempty
      rw [isTable1,isTable2] at result
      exact result (fun _ => ⟨rfl,rfl⟩)
    · exact (mergedRows_perm _ targetOrder subRes2.rows subRes1.rows).trans perm_append_comm
    · rw [sortedBy_mergedRows_iff sorted2 sorted1]
      constructor
      · exact fun noConflict row1 isRow1 row2 isRow2 conflict => noConflict row2 isRow2 row1 isRow1 ((conflict_swap row1 row2 targetOrder).mpr conflict)
      · exact fun noConflict row2 isRow2 row1 isRow1 conflict => noConflict row1 isRow1 row2 isRow2 ((conflict_swap row1 row2 targetOrder).mp conflict)
  · simp only [unionResult,if_neg swapped]
    refine ⟨mergedRows columnOrigins targetOrder subRes1.rows subRes2.rows,?_,?_,?_,?_⟩
    · exact computeResult_eq chunkSize nonempty (fun isFalse => nomatch isFalse)
    · have result := @computeResult_eq Id _ _ n w1 w2 columnOrigins targetOrder chunkSize false
        (.materialized subRes1.rows) (.materialized subRes2.rows) nonempty
      rw [isTable1,isTable2] at result
      exact result (fun _ => ⟨rfl,rfl⟩)
    · exact mergedRows_perm columnOrigins targetOrder subRes1.rows subRes2.rows
    · exact sortedBy_mergedRows_iff sorted1 sorted2

local instance twoPositive : NeZero 2 := ⟨by decide⟩

def withoutSecond : Fin 3 → ColumnOrigin 2 3 :=
  ![⟨some 0,some 0,fun missing => nomatch missing⟩,⟨none,some 1,fun _ => Option.some_ne_none 1⟩,⟨some 1,some 2,fun missing => nomatch missing⟩]

theorem specificSortOrder_withoutSecond : specificSortOrder (leftOrigins withoutSecond) [0,1,2] = [0,1] := rfl

theorem unionResult_correct_withoutSecond :
    ∃ rows,(∃ fuel result,unionResult withoutSecond [0,1,2] true 1 fuel (.lazy [[],[![1,5]],[![2,3]]]) (.lazy [[![1,4,3]],[]]) = some result ∧
        result.rows = rows) ∧
      (∃ fuel result,unionResult withoutSecond [0,1,2] false 1 fuel (.materialized [![1,5],![2,3]]) (.materialized [![1,4,3]]) = some result ∧
        result.rows = rows) ∧
      rows.Perm ([![1,5],![2,3]].map (pushedRow (leftOrigins withoutSecond)) ++ [![1,4,3]].map (pushedRow (rightOrigins withoutSecond))) ∧
      (SortedBy [0,1,2] rows ↔ ∀ row1 ∈ [![1,5],![2,3]],∀ row2 ∈ [![1,4,3]],¬Conflict withoutSecond row1 row2 [0,1,2]) :=
  unionResult_correct_iff withoutSecond [0,1,2] 1 (.lazy [[],[![1,5]],[![2,3]]]) (.lazy [[![1,4,3]],[]]) (cons_ne_nil 0 [1,2])
    (by rw [specificSortOrder_withoutSecond]; simp [SortedBy,Result.rows,Result.toRange,cons_le_cons_iff_lex])
    (by simp [SortedBy,Result.rows,Result.toRange])

/-- The row of the left child is put first, because its second column is missing, although the second column of the other row is UNDEF as well. -/
theorem unionResult_notSorted :
    SortedBy (specificSortOrder (leftOrigins withoutSecond) [0,1,2]) [![1,5]] ∧ SortedBy (specificSortOrder (rightOrigins withoutSecond) [0,1,2]) [![1,0,3]] ∧
      (∀ requestLaziness,(unionResult withoutSecond [0,1,2] requestLaziness 1000000 10 (.materialized [![1,5]]) (.materialized [![1,0,3]])).map Result.rows =
        some [![1,0,5],![1,0,3]]) ∧
      ¬SortedBy [0,1,2] [![1,0,5],![1,0,3]] := by
  refine ⟨pairwise_singleton _ _,pairwise_singleton _ _,by decide +kernel,?_⟩
  simp [SortedBy,cons_le_cons_iff_lex]

end Union
end Qlever.SortedUnion
