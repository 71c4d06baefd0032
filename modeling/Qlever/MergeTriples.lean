import Qlever.LocatedTriples
import Qlever.Library.Run
import Qlever.Library.SortedUpdates

/-! `LocatedTriplesPerBlock::mergeTriples`. The result is a buffer of rows that are not yet written, an iterator into this buffer, and a final
shrinking. The undefined ID is `⊥`.
-/
namespace Qlever.MergeTriples
open Qlever.Library List
variable {Id : Type} {numColumns : Nat}

inductive MergeFailure
  | blockNotContained
  | tooFewColumns
  | notOneIndexColumn
  | notAtEnd
  | writeOutOfRange
  | rowNotWritten
  deriving DecidableEq, Repr

abbrev IdTable (Id : Type) (numColumns : Nat) := List (Fin numColumns → Id)

/-- `ids()` of a triple. -/
def ids (triple : IdTriple Id) : List Id := [triple.col0Id,triple.col1Id,triple.col2Id,triple.graphId]

def tieIdTableRow (numIndexColumns : Nat) (includeGraphColumn : Bool) (row : Fin numColumns → Id) : List Id :=
  (ofFn row).take (numIndexColumns + includeGraphColumn.toNat)

def tieLocatedTriple (numIndexColumns : Nat) (includeGraphColumn : Bool) (located : LocatedTriple Id) : List Id :=
  ((ids located.triple).drop (3 - numIndexColumns)).take numIndexColumns ++
    if includeGraphColumn then [located.triple.graphId] else []

/-- The table `result` with the iterator `resultIt`. -/
structure ResultBuffer (Id : Type) (numColumns : Nat) where
  result : List (Option (Fin numColumns → Id))
  resultIt : Nat

def ResultBuffer.write (row : Fin numColumns → Id) (buffer : ResultBuffer Id numColumns) : Except MergeFailure (ResultBuffer Id numColumns) :=
  if buffer.resultIt < buffer.result.length then .ok ⟨buffer.result.set buffer.resultIt (some row),buffer.resultIt + 1⟩
  else .error .writeOutOfRange

def ResultBuffer.writeAll (rows : IdTable Id numColumns) (buffer : ResultBuffer Id numColumns) : Except MergeFailure (ResultBuffer Id numColumns) :=
  rows.foldlM (fun buffer row => buffer.write row) buffer

/-- `resize(resultIt - result.begin())`. No row of the table that is returned may be unwritten. -/
def ResultBuffer.resize (buffer : ResultBuffer Id numColumns) : Except MergeFailure (IdTable Id numColumns) :=
  match (buffer.result.take buffer.resultIt ++ replicate (buffer.resultIt - buffer.result.length) none).mapM id with
  | some rows => .ok rows
  | none => .error .rowNotWritten

section Merge
variable [LinearOrder Id] [OrderBot Id] (numIndexColumns : Nat) (includeGraphColumn : Bool)

/-- The row that `writeLocatedTripleToResult` writes. -/
def rowOfLocatedTriple (located : LocatedTriple Id) : Fin numColumns → Id := fun i =>
  if i < numIndexColumns + includeGraphColumn.toNat then (ids located.triple).getD (3 - numIndexColumns + i) ⊥ else ⊥

def mergeLoop : IdTable Id numColumns → List (LocatedTriple Id) → ResultBuffer Id numColumns →
    Except MergeFailure (IdTable Id numColumns × List (LocatedTriple Id) × ResultBuffer Id numColumns)
  | [],locatedTriples,buffer => .ok ([],locatedTriples,buffer)
  | row::rows,[],buffer => .ok (row::rows,[],buffer)
  | row::rows,located::locatedTriples,buffer =>
    if tieLocatedTriple numIndexColumns includeGraphColumn located < tieIdTableRow numIndexColumns includeGraphColumn row then
      if located.insertOrDelete then
        match buffer.write (rowOfLocatedTriple numIndexColumns includeGraphColumn located) with
        | .ok buffer => mergeLoop (row::rows) locatedTriples buffer
        | .error failure => .error failure
      else mergeLoop (row::rows) locatedTriples buffer
    else if tieLocatedTriple numIndexColumns includeGraphColumn located = tieIdTableRow numIndexColumns includeGraphColumn row then
      if !located.insertOrDelete then mergeLoop rows locatedTriples buffer
      else mergeLoop (row::rows) locatedTriples buffer
    else
      match buffer.write row with
      | .ok buffer => mergeLoop rows (located::locatedTriples) buffer
      | .error failure => .error failure
termination_by rows locatedTriples => rows.length + locatedTriples.length

def writeRest (rows : IdTable Id numColumns) (locatedTriples : List (LocatedTriple Id)) (buffer : ResultBuffer Id numColumns) :
    Except MergeFailure (ResultBuffer Id numColumns) := do
  let buffer ←
    if locatedTriples.isEmpty then .ok buffer
    else if !rows.isEmpty then .error .notAtEnd
    else buffer.writeAll ((locatedTriples.filter (·.insertOrDelete)).map (rowOfLocatedTriple numIndexColumns includeGraphColumn))
  if rows.isEmpty then .ok buffer
  else if !locatedTriples.isEmpty then .error .notAtEnd
  else buffer.writeAll rows

def mergeTriplesImpl (ltpb : LocatedTriplesPerBlock Id) (blockIndex : Nat) (block : IdTable Id numColumns) :
    Except MergeFailure (IdTable Id numColumns) :=
  if !ltpb.containsTriples blockIndex then .error .blockNotContained
  else if numColumns < numIndexColumns + includeGraphColumn.toNat then .error .tooFewColumns
  else do
    let buffer := ⟨replicate (block.length + (ltpb.numAddedAndDeleted blockIndex).1) none,0⟩
    let (rows,locatedTriples,buffer) ← mergeLoop numIndexColumns includeGraphColumn block ((ltpb.map blockIndex).map (·.located)) buffer
    let buffer ← writeRest numIndexColumns includeGraphColumn rows locatedTriples buffer
    buffer.resize

def mergeTriples (ltpb : LocatedTriplesPerBlock Id) (blockIndex : Nat) (block : IdTable Id numColumns) (numIndexColumns : Nat)
    (includeGraphColumn : Bool) : Except MergeFailure (IdTable Id numColumns) :=
  if numIndexColumns = 3 then mergeTriplesImpl 3 includeGraphColumn ltpb blockIndex block
  else if numIndexColumns = 2 then mergeTriplesImpl 2 includeGraphColumn ltpb blockIndex block
  else if numIndexColumns = 1 then mergeTriplesImpl 1 includeGraphColumn ltpb blockIndex block
  else .error .notOneIndexColumn

end Merge

section Buffer
variable {buffer : ResultBuffer Id numColumns} {capacity : Nat} {written rows : IdTable Id numColumns}

structure ResultBuffer.Holds (capacity : Nat) (written : IdTable Id numColumns) (buffer : ResultBuffer Id numColumns) : Prop where
  result : buffer.result = written.map some ++ replicate (capacity - written.length) none
  resultIt : buffer.resultIt = written.length
  fits : written.length ≤ capacity

theorem ResultBuffer.Holds.write (holds : buffer.Holds capacity written) (row : Fin numColumns → Id) (space : written.length < capacity) :
    ∃ next,buffer.write row = .ok next ∧ next.Holds capacity (written ++ [row]) := by
  have inRange : buffer.resultIt < buffer.result.length := by
    rw [holds.result,holds.resultIt]
    simp
    omega
  refine ⟨_,if_pos inRange,?_,?_,?_⟩
  · obtain ⟨rest,same⟩ : ∃ rest,capacity - written.length = rest + 1 := ⟨capacity - written.length - 1,by omega⟩
    have remaining : capacity - (written ++ [row]).length = rest := by simp; omega
    simp only [holds.result,holds.resultIt,same,remaining]
    simp [replicate_succ]
  · simp [holds.resultIt]
  · simpa using Nat.succ_le_of_lt space

theorem ResultBuffer.Holds.writeAll (holds : buffer.Holds capacity written) (space : written.length + rows.length ≤ capacity) :
    ∃ next,buffer.writeAll rows = .ok next ∧ next.Holds capacity (written ++ rows) := by
  induction rows generalizing buffer written with
  | nil => exact ⟨buffer,rfl,by simpa using holds⟩
  | cons row rows ih =>
    rw [length_cons] at space
    obtain ⟨next,first,holds'⟩ := holds.write row (by omega)
    obtain ⟨last,rest,final⟩ := ih holds' (by simp; omega)
    refine ⟨last,?_,by simpa using final⟩
    rw [ResultBuffer.writeAll,foldlM_cons,first]
    exact rest

theorem ResultBuffer.Holds.resize (holds : buffer.Holds capacity written) : buffer.resize = .ok written := by
  have none : buffer.resultIt - buffer.result.length = 0 := by
    rw [holds.result,holds.resultIt]
    simp
  rw [ResultBuffer.resize,none,holds.result,holds.resultIt]
  have all : mapM some written = some written := by
    simpa using mapM_pure (m := Option) (f := id) (l := written)
  simp [all]

end Buffer

section Refinement
variable [LinearOrder Id] [OrderBot Id] {numIndexColumns : Nat} {includeGraphColumn : Bool}
  {buffer : ResultBuffer Id numColumns} {capacity : Nat} {written rows : IdTable Id numColumns} {locatedTriples : List (LocatedTriple Id)}

def mergedRows (numIndexColumns : Nat) (includeGraphColumn : Bool) (rows : IdTable Id numColumns) (locatedTriples : List (LocatedTriple Id)) :
    IdTable Id numColumns :=
  applyUpdates (tieIdTableRow numIndexColumns includeGraphColumn) (tieLocatedTriple numIndexColumns includeGraphColumn) (·.insertOrDelete)
    (rowOfLocatedTriple numIndexColumns includeGraphColumn) rows locatedTriples

def mergeAndWriteRest (numIndexColumns : Nat) (includeGraphColumn : Bool) (rows : IdTable Id numColumns) (locatedTriples : List (LocatedTriple Id))
    (buffer : ResultBuffer Id numColumns) : Except MergeFailure (ResultBuffer Id numColumns) := do
  let (rows,locatedTriples,buffer) ← mergeLoop numIndexColumns includeGraphColumn rows locatedTriples buffer
  writeRest numIndexColumns includeGraphColumn rows locatedTriples buffer

theorem writeRest_nil_left : writeRest numIndexColumns includeGraphColumn [] locatedTriples buffer =
    buffer.writeAll ((locatedTriples.filter (·.insertOrDelete)).map (rowOfLocatedTriple numIndexColumns includeGraphColumn)) := by
  cases locatedTriples with
  | nil => rfl
  | cons located locatedTriples =>
    rw [writeRest]
    simp only [isEmpty_cons,isEmpty_nil,Bool.not_true,Bool.false_eq_true,if_false,if_true]
    exact bind_pure _

theorem writeRest_nil_right (k : Nat) (g : Bool) : writeRest k g rows [] buffer = buffer.writeAll rows := by
  cases rows <;> rfl

theorem mergeAndWriteRest_spec (holds : buffer.Holds capacity written)
    (space : written.length + (mergedRows numIndexColumns includeGraphColumn rows locatedTriples).length ≤ capacity) :
    ∃ next,mergeAndWriteRest numIndexColumns includeGraphColumn rows locatedTriples buffer = .ok next ∧
      next.Holds capacity (written ++ mergedRows numIndexColumns includeGraphColumn rows locatedTriples) := by
  unfold mergedRows mergeAndWriteRest at *
  fun_induction applyUpdates (tieIdTableRow numIndexColumns includeGraphColumn) (tieLocatedTriple numIndexColumns includeGraphColumn)
    (fun located : LocatedTriple Id => located.insertOrDelete) (rowOfLocatedTriple numIndexColumns includeGraphColumn) rows locatedTriples
    generalizing buffer written with
  | case1 locatedTriples =>
    obtain ⟨next,wrote,final⟩ := holds.writeAll space
    refine ⟨next,?_,final⟩
    rw [mergeLoop]
    exact writeRest_nil_left.trans wrote
  | case2 row rows =>
    obtain ⟨next,wrote,final⟩ := holds.writeAll space
    refine ⟨next,?_,final⟩
    rw [mergeLoop]
    exact (writeRest_nil_right numIndexColumns includeGraphColumn).trans wrote
  | case3 row rows located locatedTriples less inserted ih =>
    rw [length_cons] at space
    obtain ⟨next,wrote,holds'⟩ := holds.write (rowOfLocatedTriple numIndexColumns includeGraphColumn located) (by omega)
    obtain ⟨last,run,final⟩ := ih holds' (by simp; omega)
    refine ⟨last,?_,by simpa using final⟩
    rw [mergeLoop,if_pos less,if_pos inserted,wrote]
    exact run
  | case4 row rows located locatedTriples less deleted ih =>
    obtain ⟨last,run,final⟩ := ih holds space
    refine ⟨last,?_,final⟩
    rw [mergeLoop,if_pos less,if_neg deleted]
    exact run
  | case5 row rows located locatedTriples notLess equal inserted ih =>
    obtain ⟨last,run,final⟩ := ih holds space
    refine ⟨last,?_,final⟩
    rw [mergeLoop,if_neg notLess,if_pos equal,if_neg (by simp [inserted])]
    exact run
  | case6 row rows located locatedTriples notLess equal deleted ih =>
    obtain ⟨last,run,final⟩ := ih holds space
    refine ⟨last,?_,final⟩
    rw [mergeLoop,if_neg notLess,if_pos equal,if_pos (by simp [deleted])]
    exact run
  | case7 row rows located locatedTriples notLess different ih =>
    rw [length_cons] at space
    obtain ⟨next,wrote,holds'⟩ := holds.write row (by omega)
    obtain ⟨last,run,final⟩ := ih holds' (by simp; omega)
    refine ⟨last,?_,by simpa using final⟩
    rw [mergeLoop,if_neg notLess,if_neg different,wrote]
    exact run

theorem mergeTriplesImpl_eq {ltpb : LocatedTriplesPerBlock Id} {blockIndex : Nat} (contained : ltpb.containsTriples blockIndex = true)
    (columns : numIndexColumns + includeGraphColumn.toNat ≤ numColumns) (block : IdTable Id numColumns) :
    mergeTriplesImpl numIndexColumns includeGraphColumn ltpb blockIndex block =
      .ok (mergedRows numIndexColumns includeGraphColumn block ((ltpb.map blockIndex).map (·.located))) := by
  let buffer : ResultBuffer Id numColumns := ⟨replicate (block.length + (ltpb.map blockIndex).length) none,0⟩
  have start : buffer.Holds (block.length + (ltpb.map blockIndex).length) [] := ⟨by simp [buffer],rfl,Nat.zero_le _⟩
  have enough : (mergedRows numIndexColumns includeGraphColumn block ((ltpb.map blockIndex).map (·.located))).length ≤
      block.length + (ltpb.map blockIndex).length := by
    have size : ((ltpb.map blockIndex).map (·.located)).length = (ltpb.map blockIndex).length := length_map _
    rw [← size]
    exact length_applyUpdates_le
  obtain ⟨last,run,final⟩ := mergeAndWriteRest_spec start (by simpa using enough)
  have resized := final.resize
  rw [mergeAndWriteRest,bind_eq_ok] at run
  obtain ⟨⟨rows,locatedTriples,buffer⟩,looped,rest⟩ := run
  have wide : ¬ numColumns < numIndexColumns + includeGraphColumn.toNat := not_lt.mpr columns
  rw [mergeTriplesImpl,if_neg (by simp [contained]),if_neg wide]
  apply bind_eq_ok.mpr
  refine ⟨(rows,locatedTriples,buffer),looped,?_⟩
  exact bind_eq_ok.mpr ⟨last,rest,resized⟩

end Refinement

section Keys
variable [LinearOrder Id] {numIndexColumns : Nat} {includeGraphColumn : Bool} {first second : LocatedTriple Id}

theorem lt_of_take_lt {x y : List Id} {n : Nat} (less : x.take n < y.take n) : x < y := by
  induction n generalizing x y with
  | zero => simp at less
  | succ n ih =>
    cases y with
    | nil => simp at less
    | cons b y =>
      cases x with
      | nil => exact nil_lt_cons b y
      | cons a x =>
        rw [take_succ_cons,take_succ_cons,cons_lt_cons_iff] at less
        exact cons_lt_cons_iff.mpr (less.imp id (fun ⟨same,rest⟩ => ⟨same,ih rest⟩))

theorem take_mono {x y : List Id} (le : x ≤ y) (n : Nat) : x.take n ≤ y.take n := not_lt.mp (fun less => le.not_gt (lt_of_take_lt less))

section
omit [LinearOrder Id]

theorem take_tieIdTableRow (row : Fin numColumns → Id) : (tieIdTableRow numIndexColumns true row).take numIndexColumns = tieIdTableRow numIndexColumns false row := by
  simp [tieIdTableRow,take_take]

theorem take_tieLocatedTriple (small : numIndexColumns ≤ 3) (located : LocatedTriple Id) :
    (tieLocatedTriple numIndexColumns true located).take numIndexColumns = tieLocatedTriple numIndexColumns false located := by
  have size : (((ids located.triple).drop (3 - numIndexColumns)).take numIndexColumns).length = numIndexColumns := by
    simp [ids]
    omega
  simp [tieLocatedTriple,size]

end

theorem tieIdTableRow_rowOfLocatedTriple [OrderBot Id] (positive : 1 ≤ numIndexColumns) (small : numIndexColumns ≤ 3) (includeGraphColumn : Bool)
    (columns : numIndexColumns + includeGraphColumn.toNat ≤ numColumns) (located : LocatedTriple Id) :
    tieIdTableRow numIndexColumns includeGraphColumn (rowOfLocatedTriple numIndexColumns includeGraphColumn located : Fin numColumns → Id) =
      tieLocatedTriple numIndexColumns includeGraphColumn located := by
  have size : (ids located.triple).length = 4 := rfl
  have written : tieLocatedTriple numIndexColumns includeGraphColumn located =
      ((ids located.triple).drop (3 - numIndexColumns)).take (numIndexColumns + includeGraphColumn.toNat) := by
    obtain rfl | rfl | rfl : numIndexColumns = 1 ∨ numIndexColumns = 2 ∨ numIndexColumns = 3 := by omega
    all_goals cases includeGraphColumn <;> rfl
  have atMostOne := includeGraphColumn.toNat_le
  rw [written]
  apply ext_getElem
  · simp only [tieIdTableRow,length_take,length_ofFn,length_drop,size]
    omega
  · intro i inRow inTriple
    simp only [length_take,length_drop,size] at inTriple
    have inside : 3 - numIndexColumns + i < (ids located.triple).length := by omega
    have included : i < numIndexColumns + includeGraphColumn.toNat := by omega
    simp [tieIdTableRow,rowOfLocatedTriple,included,getElem?_eq_getElem inside]

theorem ids_lt_iff {s t : IdTriple Id} : ids s < ids t ↔ s < t := by
  rw [IdTriple.lt_iff]
  simp [ids,cons_lt_cons_iff]

theorem tieLocatedTriple_lt (positive : 1 ≤ numIndexColumns) (small : numIndexColumns ≤ 3)
    (shared : (ids first.triple).take (3 - numIndexColumns) = (ids second.triple).take (3 - numIndexColumns)) (less : first.triple < second.triple) :
    tieLocatedTriple numIndexColumns true first < tieLocatedTriple numIndexColumns true second := by
  have prefix' : ∀ located : LocatedTriple Id,ids located.triple = (ids located.triple).take (3 - numIndexColumns) ++ tieLocatedTriple numIndexColumns true located := by
    intro located
    obtain rfl | rfl | rfl : numIndexColumns = 1 ∨ numIndexColumns = 2 ∨ numIndexColumns = 3 := by omega
    all_goals rfl
  have less := ids_lt_iff.mpr less
  rw [prefix' first,prefix' second,shared] at less
  rcases lt_trichotomy (tieLocatedTriple numIndexColumns true first) (tieLocatedTriple numIndexColumns true second) with smaller | equal | greater
  · exact smaller
  · exact absurd less (equal ▸ lt_irrefl _)
  · exact absurd (append_left_lt greater) less.not_gt

end Keys

section WithGraph
variable [LinearOrder Id] {numIndexColumns blockIndex : Nat} {ltpb : LocatedTriplesPerBlock Id} {block result : IdTable Id numColumns}

def locatedTriplesOfBlock (ltpb : LocatedTriplesPerBlock Id) (blockIndex : Nat) : List (LocatedTriple Id) := (ltpb.map blockIndex).map (·.located)

/-- A call for rows with at least one and at most three index columns. All located triples have the same IDs in the columns that are omitted. -/
structure IsCall (numIndexColumns : Nat) (ltpb : LocatedTriplesPerBlock Id) (blockIndex : Nat) : Prop where
  positive : 1 ≤ numIndexColumns
  small : numIndexColumns ≤ 3
  contained : ltpb.containsTriples blockIndex = true
  sorted : KeyedSet.Sorted Node.triple (ltpb.map blockIndex)
  shared : ∀ first ∈ locatedTriplesOfBlock ltpb blockIndex,∀ second ∈ locatedTriplesOfBlock ltpb blockIndex,
    (ids first.triple).take (3 - numIndexColumns) = (ids second.triple).take (3 - numIndexColumns)

def quadKey (numIndexColumns : Nat) (row : Fin numColumns → Id) : List Id := tieIdTableRow numIndexColumns true row

def Inserted (numIndexColumns : Nat) (locatedTriples : List (LocatedTriple Id)) (key : List Id) : Prop :=
  ∃ located ∈ locatedTriples,located.insertOrDelete = true ∧ tieLocatedTriple numIndexColumns true located = key

def Deleted (numIndexColumns : Nat) (locatedTriples : List (LocatedTriple Id)) (key : List Id) : Prop :=
  ∃ located ∈ locatedTriples,located.insertOrDelete = false ∧ tieLocatedTriple numIndexColumns true located = key

instance (numIndexColumns : Nat) (locatedTriples : List (LocatedTriple Id)) (key : List Id) : Decidable (Inserted numIndexColumns locatedTriples key) :=
  inferInstanceAs (Decidable (∃ located ∈ locatedTriples,_))

instance (numIndexColumns : Nat) (locatedTriples : List (LocatedTriple Id)) (key : List Id) : Decidable (Deleted numIndexColumns locatedTriples key) :=
  inferInstanceAs (Decidable (∃ located ∈ locatedTriples,_))

structure Merged [OrderBot Id] (numIndexColumns : Nat) (locatedTriples : List (LocatedTriple Id)) (block result : IdTable Id numColumns) : Prop where
  increasing : result.Pairwise (fun x y => quadKey numIndexColumns x < quadKey numIndexColumns y)
  keys : ∀ key,key ∈ result.map (quadKey numIndexColumns) ↔
    (key ∈ block.map (quadKey numIndexColumns) ∧ ¬ Deleted numIndexColumns locatedTriples key) ∨ Inserted numIndexColumns locatedTriples key
  kept : ∀ row ∈ result,quadKey numIndexColumns row ∈ block.map (quadKey numIndexColumns) → row ∈ block
  payload : ∀ row ∈ result,quadKey numIndexColumns row ∉ block.map (quadKey numIndexColumns) → ∀ i : Fin numColumns,numIndexColumns + 1 ≤ i → row i = ⊥
  size : result.length = (block.filter (fun row => ¬ Deleted numIndexColumns locatedTriples (quadKey numIndexColumns row))).length +
    (locatedTriples.filter (fun located => located.insertOrDelete ∧
      tieLocatedTriple numIndexColumns true located ∉ block.map (quadKey numIndexColumns))).length

theorem IsCall.increasing (call : IsCall numIndexColumns ltpb blockIndex) :
    (locatedTriplesOfBlock ltpb blockIndex).Pairwise (fun x y => tieLocatedTriple numIndexColumns true x < tieLocatedTriple numIndexColumns true y) := by
  have sorted : (locatedTriplesOfBlock ltpb blockIndex).Pairwise (fun x y => x.triple < y.triple) := pairwise_map.mpr call.sorted
  refine sorted.imp_of_mem ?_
  intro x y isX isY less
  exact tieLocatedTriple_lt call.positive call.small (call.shared x isX y isY) less

theorem IsCall.mergeTriples_eq [OrderBot Id] (call : IsCall numIndexColumns ltpb blockIndex) (includeGraphColumn : Bool)
    (columns : numIndexColumns + includeGraphColumn.toNat ≤ numColumns) (block : IdTable Id numColumns) :
    mergeTriples ltpb blockIndex block numIndexColumns includeGraphColumn =
      .ok (mergedRows numIndexColumns includeGraphColumn block (locatedTriplesOfBlock ltpb blockIndex)) := by
  have eq := mergeTriplesImpl_eq call.contained columns block
  have positive := call.positive
  have small := call.small
  obtain rfl | rfl | rfl : numIndexColumns = 1 ∨ numIndexColumns = 2 ∨ numIndexColumns = 3 := by omega
  all_goals exact eq

section Rows
variable [OrderBot Id] (call : IsCall numIndexColumns ltpb blockIndex) (columns : numIndexColumns + 1 ≤ numColumns)
  (increasing : block.Pairwise (fun x y => quadKey numIndexColumns x < quadKey numIndexColumns y))
include call columns increasing

theorem mem_mergedRows (row : Fin numColumns → Id) :
    row ∈ mergedRows numIndexColumns true block (locatedTriplesOfBlock ltpb blockIndex) ↔
      (row ∈ block ∧ ¬ Deleted numIndexColumns (locatedTriplesOfBlock ltpb blockIndex) (quadKey numIndexColumns row)) ∨
        ∃ located ∈ locatedTriplesOfBlock ltpb blockIndex,located.insertOrDelete = true ∧ rowOfLocatedTriple numIndexColumns true located = row ∧
          quadKey numIndexColumns row ∉ block.map (quadKey numIndexColumns) := by
  have keyOfRow := fun located : LocatedTriple Id => tieIdTableRow_rowOfLocatedTriple call.positive call.small true columns located
  rw [mergedRows,mem_applyUpdates keyOfRow increasing call.increasing]
  refine or_congr (and_congr Iff.rfl ?_) ?_
  · constructor
    · rintro all ⟨located,isLocated,deleted,same⟩
      exact Bool.false_ne_true (deleted.symm.trans (all located isLocated same))
    · intro notDeleted located isLocated same
      exact Bool.eq_true_of_not_eq_false (fun deleted => notDeleted ⟨located,isLocated,deleted,same⟩)
  · simp [quadKey]

theorem mergedRows_increasing : (mergedRows numIndexColumns true block (locatedTriplesOfBlock ltpb blockIndex)).Pairwise
    (fun x y => quadKey numIndexColumns x < quadKey numIndexColumns y) :=
  applyUpdates_pairwise (fun located => tieIdTableRow_rowOfLocatedTriple call.positive call.small true columns located)
    (fun _ _ less => less) (fun _ _ _ => lt_trans) increasing call.increasing

omit [OrderBot Id] columns increasing in
theorem not_deleted_of_inserted {key : List Id} (inserted : Inserted numIndexColumns (locatedTriplesOfBlock ltpb blockIndex) key) :
    ¬ Deleted numIndexColumns (locatedTriplesOfBlock ltpb blockIndex) key := by
  rintro ⟨other,isOther,deleted,sameKey⟩
  obtain ⟨located,isLocated,isInserted,isKey⟩ := inserted
  rcases filter_key_cases call.increasing key with ⟨_,absent⟩ | ⟨_,_,_,_,only⟩
  · exact absent located isLocated isKey
  · have same : other = located := (only other isOther sameKey).trans (only located isLocated isKey).symm
    exact Bool.false_ne_true (deleted.symm.trans (same ▸ isInserted))

theorem mergedRows_perm : (mergedRows numIndexColumns true block (locatedTriplesOfBlock ltpb blockIndex)).Perm
    (block.filter (fun row => ¬ Deleted numIndexColumns (locatedTriplesOfBlock ltpb blockIndex) (quadKey numIndexColumns row)) ++
      ((locatedTriplesOfBlock ltpb blockIndex).filter (fun located => located.insertOrDelete ∧
        tieLocatedTriple numIndexColumns true located ∉ block.map (quadKey numIndexColumns))).map (rowOfLocatedTriple numIndexColumns true)) := by
  have keyOfRow : ∀ located,quadKey numIndexColumns (rowOfLocatedTriple numIndexColumns true located : Fin numColumns → Id) =
      tieLocatedTriple numIndexColumns true located :=
    fun located => tieIdTableRow_rowOfLocatedTriple call.positive call.small true columns located
  have distinct : ∀ {rows : IdTable Id numColumns},rows.Pairwise (fun x y => quadKey numIndexColumns x < quadKey numIndexColumns y) → rows.Nodup :=
    fun sorted => sorted.imp (fun less same => less.ne (congrArg _ same))
  apply (perm_ext_iff_of_nodup (distinct (mergedRows_increasing call columns increasing)) ?_).mpr
  · intro row
    rw [mem_mergedRows call columns increasing]
    simp only [mem_append,mem_filter,List.mem_map,decide_eq_true_eq]
    refine or_congr Iff.rfl ⟨?_,?_⟩
    · rintro ⟨located,isLocated,inserted,rfl,fresh⟩
      exact ⟨located,⟨isLocated,inserted,by simpa only [keyOfRow,List.mem_map] using fresh⟩,rfl⟩
    · rintro ⟨located,⟨isLocated,inserted,fresh⟩,rfl⟩
      exact ⟨located,isLocated,inserted,rfl,by simpa only [keyOfRow,List.mem_map] using fresh⟩
  · refine nodup_append.mpr ⟨(distinct increasing).filter _,?_,?_⟩
    · apply distinct
      apply pairwise_map.mpr
      refine (call.increasing.filter _).imp ?_
      intro x y less
      rwa [keyOfRow,keyOfRow]
    · rintro row isKept other isNew rfl
      obtain ⟨located,isLocated,rfl⟩ := List.mem_map.mp isNew
      have fresh := (of_decide_eq_true (mem_filter.mp isLocated).2).2
      apply fresh
      rw [← keyOfRow]
      exact mem_map_of_mem (mem_filter.mp isKept).1

/-- A merge with the graph column yields the rows that are not deleted and the insertions of new quads, and the buffer
is shrunk to them. -/
theorem mergeTriples_withGraph : ∃ result,mergeTriples ltpb blockIndex block numIndexColumns true = .ok result ∧
    Merged numIndexColumns (locatedTriplesOfBlock ltpb blockIndex) block result := by
  refine ⟨_,call.mergeTriples_eq true columns block,?_⟩
  have mem := mem_mergedRows call columns increasing
  have keyOfRow : ∀ located,quadKey numIndexColumns (rowOfLocatedTriple numIndexColumns true located : Fin numColumns → Id) =
      tieLocatedTriple numIndexColumns true located :=
    fun located => tieIdTableRow_rowOfLocatedTriple call.positive call.small true columns located
  constructor
  case increasing => exact mergedRows_increasing call columns increasing
  case keys =>
    intro key
    constructor
    · intro isKey
      obtain ⟨row,member,rfl⟩ := List.mem_map.mp isKey
      rcases (mem row).mp member with ⟨isRow,notDeleted⟩ | ⟨located,isLocated,inserted,rfl,_⟩
      · exact Or.inl ⟨mem_map_of_mem isRow,notDeleted⟩
      · exact Or.inr ⟨located,isLocated,inserted,(keyOfRow located).symm⟩
    · rintro (⟨isKey,notDeleted⟩ | inserted)
      · obtain ⟨row,isRow,rfl⟩ := List.mem_map.mp isKey
        exact mem_map_of_mem ((mem row).mpr (Or.inl ⟨isRow,notDeleted⟩))
      · -- An inserted quad that the block contains already stays in the block.
        have notDeleted := not_deleted_of_inserted call inserted
        obtain ⟨located,isLocated,isInserted,rfl⟩ := inserted
        by_cases inBlock : tieLocatedTriple numIndexColumns true located ∈ block.map (quadKey numIndexColumns)
        · obtain ⟨row,isRow,same⟩ := List.mem_map.mp inBlock
          rw [← same] at notDeleted ⊢
          exact mem_map_of_mem ((mem row).mpr (Or.inl ⟨isRow,notDeleted⟩))
        · rw [← keyOfRow] at inBlock ⊢
          exact mem_map_of_mem ((mem _).mpr (Or.inr ⟨located,isLocated,isInserted,rfl,inBlock⟩))
  case kept =>
    intro row member inBlock
    rcases (mem row).mp member with ⟨isRow,_⟩ | ⟨_,_,_,_,fresh⟩
    · exact isRow
    · exact absurd inBlock fresh
  case payload =>
    intro row member fresh i isPayload
    rcases (mem row).mp member with ⟨isRow,_⟩ | ⟨located,_,_,rfl,_⟩
    · exact absurd (mem_map_of_mem isRow) fresh
    · exact if_neg (by simpa using isPayload)
  case size =>
    rw [(mergedRows_perm call columns increasing).length_eq,length_append,length_map]

end Rows

def objectsAndGraphs : IdTable Nat 3 := [![1,10,100],![2,10,100]]

def objectUpdates : LocatedTriplesPerBlock Nat where
  map := fun blockIndex => if blockIndex = 0 then
    [⟨0,⟨0,⟨7,7,1,10⟩,false⟩⟩,⟨1,⟨0,⟨7,7,2,10⟩,true⟩⟩,⟨2,⟨0,⟨7,7,3,10⟩,true⟩⟩] else []

theorem mergeTriples_withGraph_objects : ∃ result,mergeTriples objectUpdates 0 objectsAndGraphs 1 true = .ok result ∧
    Merged 1 (locatedTriplesOfBlock objectUpdates 0) objectsAndGraphs result :=
  mergeTriples_withGraph ⟨by decide,by decide,rfl,by simp [objectUpdates,KeyedSet.Sorted,Node.triple,IdTriple.lt_iff],by decide⟩ (by decide) (by decide)

end WithGraph
end Qlever.MergeTriples
