import Mathlib

/-! The operation `Distinct`, which keeps the first of several neighbouring rows that agree on some columns. Tables of a lazy result are worked on
in place, a materialized table is copied in chunks. The position behind the last row is the `end` of a table.
-/
namespace Qlever.Distinct
open List
open Option (any_some bind_eq_bind bind_some any_none)
variable {Id : Type} [DecidableEq Id] {width : Nat} (keepIndices : List (Fin width))

abbrev Row (Id : Type) (width : Nat) := Fin width → Id

def matchesRow (a b : Row Id width) : Bool := keepIndices.all (fun i => a i = b i)

/-- `std::adjacent_find` with `matchesRow`. -/
def adjacentFind : List (Row Id width) → Nat
  | a :: b :: rows => if matchesRow keepIndices a b then 0 else adjacentFind (b :: rows) + 1
  | rows => rows.length

def moveRows (rows : List (Row Id width)) (dest start : Nat) : List (Row Id width) × Nat :=
  match rows[dest]?,found : rows[start + 1]? with
  | some kept,some row =>
    if matchesRow keepIndices kept row then moveRows rows dest (start + 1)
    else moveRows (rows.set (dest + 1) row) (dest + 1) (start + 1)
  | _,_ => (rows,dest)
termination_by rows.length - start
decreasing_by
  · have inside := (List.getElem?_eq_some_iff.mp found).1
    omega
  · have inside := (List.getElem?_eq_some_iff.mp found).1
    rw [List.length_set]
    omega

def moveAndErase (result : List (Row Id width)) (dest start : Nat) : List (Row Id width) :=
  if start ≠ result.length then
    let (result,dest) := moveRows keepIndices result dest start
    result.take (dest + 1)
  else result.take dest

/-- The variant that works in place. A failed check is `none`. -/
def distinct (dynInput : List (Row Id width)) (previousRow : Option (Row Id width)) : Option (List (Row Id width)) := do
  guard (keepIndices.length ≤ width)
  let start := dynInput.findIdx (fun row => previousRow.all (fun previous => !matchesRow keepIndices row previous))
  if start = 0 then
    let start := adjacentFind keepIndices dynInput
    return moveAndErase keepIndices dynInput start (if start ≠ dynInput.length then start + 1 else start)
  else
    match dynInput[start]? with
    | some row => return moveAndErase keepIndices (dynInput.set 0 row) 0 start
    | none => return moveAndErase keepIndices dynInput 0 start

def distinctTables (previousRow : Option (Row Id width)) : List (List (Row Id width)) → Option (List (List (Row Id width)))
  | [] => some []
  | idTable :: input => do
    let result ← distinct keepIndices idTable previousRow
    if result.isEmpty then distinctTables previousRow input else return result :: (← distinctTables result.getLast? input)

/-- With `yieldOnce` there is one table. -/
def lazyDistinct (input : List (List (Row Id width))) (yieldOnce : Bool) : Option (List (List (Row Id width))) := do
  let results ← distinctTables keepIndices none input
  return if yieldOnce then [results.flatten] else results

/-- The rows that differ from the last row that was kept, as `std::unique_copy` copies them. -/
def withoutRepeats (previous : Option (Row Id width)) : List (Row Id width) → List (Row Id width)
  | [] => []
  | row :: rows =>
    if previous.any (fun previous => matchesRow keepIndices previous row) then withoutRepeats previous rows
    else row :: withoutRepeats (some row) rows

section Matches
variable {keepIndices} {a b c : Row Id width}

theorem matchesRow_iff : matchesRow keepIndices a b = true ↔ ∀ i ∈ keepIndices,a i = b i := by
  simp [matchesRow]

theorem matchesRow_refl (a : Row Id width) : matchesRow keepIndices a a = true := by
  simp [matchesRow]

theorem matchesRow_comm (a b : Row Id width) : matchesRow keepIndices a b = matchesRow keepIndices b a := by
  simp only [matchesRow,eq_comm]

theorem matchesRow_congr (same : matchesRow keepIndices a b = true) (c : Row Id width) : matchesRow keepIndices a c = matchesRow keepIndices b c := by
  rw [matchesRow_iff] at same
  rw [Bool.eq_iff_iff,matchesRow_iff,matchesRow_iff]
  exact forall₂_congr (fun i isKept => by rw [same i isKept])

end Matches

section Repeats
variable {keepIndices} {rows : List (Row Id width)}

theorem withoutRepeats_congr {a b : Row Id width} (same : matchesRow keepIndices a b = true) (rows : List (Row Id width)) :
    withoutRepeats keepIndices (some a) rows = withoutRepeats keepIndices (some b) rows := by
  induction rows with
  | nil => rfl
  | cons row rows ih =>
    simp only [withoutRepeats,any_some,matchesRow_congr same row,ih]

theorem withoutRepeats_append (previous : Option (Row Id width)) (front back : List (Row Id width)) :
    withoutRepeats keepIndices previous (front ++ back) = withoutRepeats keepIndices previous front ++
      withoutRepeats keepIndices ((withoutRepeats keepIndices previous front).getLast?.or previous) back := by
  induction front generalizing previous with
  | nil => simp [withoutRepeats]
  | cons row front ih =>
    rw [cons_append,withoutRepeats,withoutRepeats]
    split
    next => exact ih previous
    next =>
      rw [ih,cons_append,getLast?_cons]
      cases (withoutRepeats keepIndices (some row) front).getLast? <;> rfl

theorem withoutRepeats_some (previous : Row Id width) (rows : List (Row Id width)) :
    withoutRepeats keepIndices (some previous) rows =
      withoutRepeats keepIndices none (rows.dropWhile (fun row => matchesRow keepIndices row previous)) := by
  induction rows with
  | nil => rfl
  | cons row rows ih =>
    rw [dropWhile_cons,withoutRepeats,any_some,matchesRow_comm]
    split
    next => exact ih
    next => rfl

theorem matchesRow_getLast {row last : Row Id width} (isLast : rows.getLast? = some last) {previous : Option (Row Id width)}
    (isKept : (withoutRepeats keepIndices previous rows).getLast?.or previous = some row) : matchesRow keepIndices row last = true := by
  induction rows generalizing previous with
  | nil => cases isLast
  | cons first rows ih =>
    have later : ∀ {previous},rows ≠ [] → (withoutRepeats keepIndices previous rows).getLast?.or previous = some row →
        matchesRow keepIndices row last = true := by
      intro previous more isKept
      rw [getLast?_cons_of_ne_nil more] at isLast
      exact ih isLast isKept
    rw [withoutRepeats] at isKept
    split at isKept
    next repeats =>
      by_cases more : rows = []
      · subst more
        obtain rfl := Option.some_inj.mp isLast
        rw [withoutRepeats,getLast?_nil,Option.none_or] at isKept
        rwa [isKept,any_some] at repeats
      · exact later more isKept
    next =>
      have isKept' : (withoutRepeats keepIndices (some first) rows).getLast?.or (some first) = some row := by
        rw [getLast?_cons] at isKept
        cases isEnd : (withoutRepeats keepIndices (some first) rows).getLast? <;> rwa [isEnd] at isKept
      by_cases more : rows = []
      · subst more
        obtain rfl := Option.some_inj.mp isLast
        obtain rfl := Option.some_inj.mp isKept'
        exact matchesRow_refl _
      · exact later more isKept'

end Repeats

section InPlace
variable {keepIndices} {rows : List (Row Id width)} {dest start : Nat}

section
variable (rows : List (Row Id width))

theorem moveRows_spec (le : dest ≤ start) (inside : start < rows.length) :
    (moveRows keepIndices rows dest start).1.take ((moveRows keepIndices rows dest start).2 + 1) =
      rows.take (dest + 1) ++ withoutRepeats keepIndices rows[dest]? (rows.drop (start + 1)) := by
  fun_induction moveRows keepIndices rows dest start with
  | case1 rows dest start kept row found isKept repeats ih =>
    obtain ⟨inside',rfl⟩ := List.getElem?_eq_some_iff.mp found
    rw [ih (by omega) inside',List.drop_eq_getElem_cons inside',isKept,withoutRepeats,any_some,if_pos repeats]
  | case2 rows dest start kept row found isKept new ih =>
    obtain ⟨inside',rfl⟩ := List.getElem?_eq_some_iff.mp found
    have moved : (rows.set (dest + 1) rows[start + 1]).take (dest + 1 + 1) = rows.take (dest + 1) ++ [rows[start + 1]] := by
      rw [List.take_add_one,List.take_set,List.set_eq_of_length_le (by rw [List.length_take]; omega),List.getElem?_set_self (by omega)]
      rfl
    rw [ih (by omega) (by rwa [List.length_set]),moved,drop_set_of_lt (by omega),List.getElem?_set_self (by omega),
      List.drop_eq_getElem_cons inside',isKept,withoutRepeats,any_some,if_neg new,append_assoc]
    rfl
  | case3 rows dest start outside =>
    have atEnd : rows.length ≤ start + 1 := by
      by_contra more
      exact outside rows[dest] rows[start + 1] (List.getElem?_eq_getElem (by omega)) (List.getElem?_eq_getElem (by omega))
    rw [drop_eq_nil_of_le atEnd,withoutRepeats,append_nil]

theorem adjacentFind_le :
    adjacentFind keepIndices rows = rows.length ∨ adjacentFind keepIndices rows + 1 < rows.length := by
  fun_induction adjacentFind keepIndices rows with
  | case1 a b rows repeats => exact Or.inr (by simp)
  | case2 a b rows new ih =>
    simp only [length_cons] at ih ⊢
    omega
  | case3 rows short => exact Or.inl rfl

theorem withoutRepeats_of_adjacentFind :
    withoutRepeats keepIndices none rows = rows.take (adjacentFind keepIndices rows + 1) ++
      withoutRepeats keepIndices rows[adjacentFind keepIndices rows]? (rows.drop (adjacentFind keepIndices rows + 2)) := by
  fun_induction adjacentFind keepIndices rows with
  | case1 a b rows repeats => simp [withoutRepeats,repeats]
  | case2 a b rows new ih =>
    have first : withoutRepeats keepIndices none (a :: b :: rows) = a :: withoutRepeats keepIndices none (b :: rows) := by
      simp [withoutRepeats,new]
    rw [first,ih]
    rfl
  | case3 rows short =>
    rcases rows with _ | ⟨row,_ | ⟨second,rows⟩⟩
    · rfl
    · simp [withoutRepeats]
    · exact absurd rfl (short row second rows)

end

theorem withoutRepeats_drop_findIdx (previousRow : Option (Row Id width)) (rows : List (Row Id width)) :
    withoutRepeats keepIndices previousRow rows = withoutRepeats keepIndices none
      (rows.drop (rows.findIdx (fun row => previousRow.all (fun previous => !matchesRow keepIndices row previous)))) := by
  induction rows with
  | nil => rfl
  | cons row rows ih =>
    cases previousRow with
    | none => simp [findIdx_cons]
    | some previous =>
      rw [findIdx_cons]
      cases repeats : matchesRow keepIndices row previous with
      | true => simpa [withoutRepeats,matchesRow_comm previous row,repeats] using ih
      | false => simp [withoutRepeats,matchesRow_comm previous row,repeats]

theorem moveAndErase_eq (rows : List (Row Id width)) (le : dest ≤ start) (inside : start < rows.length) :
    moveAndErase keepIndices rows dest start = rows.take (dest + 1) ++ withoutRepeats keepIndices rows[dest]? (rows.drop (start + 1)) := by
  rw [moveAndErase,if_pos inside.ne]
  exact moveRows_spec rows le inside

theorem distinct_eq (allowed : keepIndices.length ≤ width) (rows : List (Row Id width)) (previousRow : Option (Row Id width)) :
    distinct keepIndices rows previousRow = some (withoutRepeats keepIndices previousRow rows) := by
  simp only [distinct,guard,if_pos allowed,Option.pure_def,bind_eq_bind,bind_some]
  rw [withoutRepeats_drop_findIdx]
  have bound : rows.findIdx (fun row => previousRow.all (fun previous => !matchesRow keepIndices row previous)) ≤ rows.length :=
    findIdx_le_length
  generalize rows.findIdx (fun row => previousRow.all (fun previous => !matchesRow keepIndices row previous)) = start at bound ⊢
  by_cases atBegin : start = 0
  · rw [if_pos atBegin,atBegin,drop_zero,withoutRepeats_of_adjacentFind,Option.some_inj]
    rcases @adjacentFind_le _ _ _ keepIndices rows with none | inside
    · rw [none,if_neg (by simp),moveAndErase,if_neg (by simp),take_length,take_of_length_le (by omega),drop_eq_nil_of_le (by omega),
        withoutRepeats,append_nil]
    · rw [if_pos (by omega),moveAndErase_eq rows (by omega) inside]
  · rw [if_neg atBegin]
    cases found : rows[start]? with
    | none =>
      have atEnd := List.getElem?_eq_none_iff.mp found
      rw [drop_eq_nil_of_le atEnd,withoutRepeats,moveAndErase,if_neg (by omega),List.take_zero]
    | some row =>
      obtain ⟨inside,rfl⟩ := List.getElem?_eq_some_iff.mp found
      have first : (rows.set 0 rows[start]).take (0 + 1) = [rows[start]] := by
        rw [List.take_add_one,List.take_zero,List.getElem?_set_self (by omega)]
        rfl
      simp only
      rw [moveAndErase_eq _ (by omega) (by rwa [List.length_set]),first,List.getElem?_set_self (by omega),drop_set_of_lt (by omega),
        List.drop_eq_getElem_cons inside,withoutRepeats]
      rfl

end InPlace
section OutOfPlace
variable (chunkSize : ℕ+)

section
variable (lastRow : Row Id width) (rows : List (Row Id width))

theorem dropWhile_skipped :
    rows.dropWhile (fun row => matchesRow keepIndices row lastRow) =
      (rows.drop ((rows.take chunkSize).takeWhile (fun row => matchesRow keepIndices row lastRow)).length).dropWhile
        (fun row => matchesRow keepIndices row lastRow) := by
  have isPrefix := (List.takeWhile_prefix (l := rows.take chunkSize) (fun row => matchesRow keepIndices row lastRow)).trans (List.take_prefix _ rows)
  obtain ⟨rest,isRest⟩ := isPrefix
  nth_rewrite 1 [← isRest]
  rw [dropWhile_append_of_pos (fun row isSkipped => mem_takeWhile_imp (p := fun row => matchesRow keepIndices row lastRow) isSkipped)]
  nth_rewrite 2 [← isRest]
  rw [drop_left]

theorem matchesRow_lastSkipped :
    matchesRow keepIndices ((rows.takeWhile (fun row => matchesRow keepIndices row lastRow)).getLast?.getD lastRow) lastRow = true := by
  cases isLast : (rows.takeWhile (fun row => matchesRow keepIndices row lastRow)).getLast? with
  | none => exact matchesRow_refl lastRow
  | some last =>
    have isSkipped := mem_of_getLast? isLast
    exact mem_takeWhile_imp (p := fun row => matchesRow keepIndices row lastRow) isSkipped

end

theorem skip_progress {lastRow row : Row Id width} {rows rest : List (Row Id width)}
    (isRest : rows.drop ((rows.take chunkSize).takeWhile (fun row => matchesRow keepIndices row lastRow)).length = row :: rest)
    (repeats : matchesRow keepIndices row (((rows.take chunkSize).takeWhile (fun row => matchesRow keepIndices row lastRow)).getLast?.getD lastRow) = true) :
    (row :: rest).length < rows.length := by
  rw [← isRest,length_drop]
  have nonempty : rows ≠ [] := by
    rintro rfl
    rw [drop_nil] at isRest
    cases isRest
  have positive := length_pos_iff.mpr nonempty
  cases isSkipped : (rows.take chunkSize).takeWhile (fun row => matchesRow keepIndices row lastRow) with
  | cons first skipped =>
    rw [length_cons]
    omega
  | nil =>
    rw [isSkipped,length_nil,drop_zero] at isRest
    rw [isSkipped,getLast?_nil,Option.getD_none] at repeats
    obtain ⟨n,isSucc⟩ := Nat.exists_eq_succ_of_ne_zero chunkSize.ne_zero
    rw [isRest,isSucc,take_succ_cons,takeWhile_cons_of_pos (p := fun row => matchesRow keepIndices row lastRow) repeats] at isSkipped
    cases isSkipped

def skipRepeats (lastRow : Row Id width) (rows : List (Row Id width)) : List (Row Id width) :=
  let skipped := (rows.take chunkSize).takeWhile (fun row => matchesRow keepIndices row lastRow)
  match _isRest : rows.drop skipped.length with
  | [] => []
  | row :: rest =>
    if _repeats : matchesRow keepIndices row (skipped.getLast?.getD lastRow) then skipRepeats (skipped.getLast?.getD lastRow) (row :: rest)
    else row :: rest
termination_by rows.length
decreasing_by exact skip_progress keepIndices chunkSize _isRest _repeats

theorem skipRepeats_eq (lastRow : Row Id width) (rows : List (Row Id width)) :
    skipRepeats keepIndices chunkSize lastRow rows = rows.dropWhile (fun row => matchesRow keepIndices row lastRow) := by
  fun_induction skipRepeats keepIndices chunkSize lastRow rows with
  | case1 lastRow rows skipped isRest => rw [dropWhile_skipped keepIndices chunkSize,isRest,dropWhile_nil]
  | case2 lastRow rows skipped row rest isRest repeats ih =>
    have sameLast := matchesRow_lastSkipped keepIndices lastRow (rows.take chunkSize)
    have sameTest : (fun row => matchesRow keepIndices row (skipped.getLast?.getD lastRow)) = fun row => matchesRow keepIndices row lastRow := by
      funext other
      rw [matchesRow_comm other,matchesRow_comm other]
      exact matchesRow_congr sameLast other
    rw [ih,dropWhile_skipped keepIndices chunkSize lastRow,isRest,sameTest]
  | case3 lastRow rows skipped row rest isRest new =>
    have sameLast := matchesRow_lastSkipped keepIndices lastRow (rows.take chunkSize)
    have new' : ¬ matchesRow keepIndices row lastRow = true := by
      rwa [matchesRow_comm,← matchesRow_congr sameLast,matchesRow_comm]
    rw [dropWhile_skipped keepIndices chunkSize,isRest,dropWhile_cons_of_neg (p := fun row => matchesRow keepIndices row lastRow) new']

def copyChunks : List (Row Id width) → List (Row Id width)
  | [] => []
  | row :: rows =>
    let chunk := (row :: rows).take chunkSize
    withoutRepeats keepIndices none chunk ++ copyChunks (skipRepeats keepIndices chunkSize (chunk.getLast?.getD row) ((row :: rows).drop chunkSize))
termination_by rows => rows.length
decreasing_by
  have positive := chunkSize.pos
  have shorter := (dropWhile_sublist (l := (row :: rows).drop chunkSize)
    (fun other => matchesRow keepIndices other (((row :: rows).take chunkSize).getLast?.getD row))).length_le
  rw [length_drop,length_cons] at shorter
  rw [skipRepeats_eq,length_cons]
  omega

def outOfPlaceDistinct (dynInput : List (Row Id width)) : Option (List (Row Id width)) := do
  guard (keepIndices.length ≤ width)
  return copyChunks keepIndices chunkSize dynInput

variable {keepIndices}

theorem copyChunks_eq (rows : List (Row Id width)) : copyChunks keepIndices chunkSize rows = withoutRepeats keepIndices none rows := by
  fun_induction copyChunks keepIndices chunkSize rows with
  | case1 => rfl
  | case2 row rows chunk ih =>
    obtain ⟨n,isSucc⟩ := Nat.exists_eq_succ_of_ne_zero chunkSize.ne_zero
    have isChunk : chunk = row :: rows.take n := by
      simp only [chunk,isSucc,take_succ_cons]
    have isLast : chunk.getLast? = some (chunk.getLast?.getD row) := by
      rw [isChunk,getLast?_cons]
      rfl
    obtain ⟨kept,isKept⟩ : ∃ kept,(withoutRepeats keepIndices none chunk).getLast? = some kept := by
      rw [isChunk,withoutRepeats,any_none,if_neg Bool.false_ne_true,getLast?_cons]
      exact ⟨_,rfl⟩
    have same := @matchesRow_getLast _ _ _ _ _ _ _ isLast none (by rw [isKept]; rfl)
    conv => rhs; rw [← take_append_drop chunkSize (row :: rows)]
    rw [ih,skipRepeats_eq,withoutRepeats_append,isKept,Option.some_or,withoutRepeats_congr same,withoutRepeats_some]

theorem outOfPlaceDistinct_eq (allowed : keepIndices.length ≤ width) (rows : List (Row Id width)) :
    outOfPlaceDistinct keepIndices chunkSize rows = some (withoutRepeats keepIndices none rows) := by
  rw [outOfPlaceDistinct,copyChunks_eq]
  simp [guard,allowed]

end OutOfPlace
variable {keepIndices}

theorem distinctTables_flatten (allowed : keepIndices.length ≤ width) (previousRow : Option (Row Id width)) (tables : List (List (Row Id width))) :
    ∃ results,distinctTables keepIndices previousRow tables = some results ∧ results.flatten = withoutRepeats keepIndices previousRow tables.flatten := by
  induction tables generalizing previousRow with
  | nil => exact ⟨[],rfl,rfl⟩
  | cons table tables ih =>
    rw [flatten_cons,withoutRepeats_append,distinctTables,distinct_eq allowed]
    simp only [bind_eq_bind,bind_some]
    cases isResult : withoutRepeats keepIndices previousRow table with
    | nil =>
      obtain ⟨results,areResults,content⟩ := ih previousRow
      exact ⟨results,areResults,content⟩
    | cons row result =>
      obtain ⟨results,areResults,content⟩ := ih (row :: result).getLast?
      refine ⟨(row :: result) :: results,by rw [areResults]; rfl,?_⟩
      rw [flatten_cons,content,getLast?_cons]
      rfl

theorem withoutRepeats_eq_heads (rows : List (Row Id width)) :
    withoutRepeats keepIndices none rows = (rows.splitBy (matchesRow keepIndices)).filterMap head? := by
  induction isLength : rows.length using Nat.strong_induction_on generalizing rows with
  | _ n ih =>
    cases rows with
    | nil => rfl
    | cons row rows =>
      let test := fun other => matchesRow keepIndices other row
      have isRun : ∀ other ∈ row :: rows.takeWhile test,matchesRow keepIndices row other = true := by
        intro other isMember
        rcases mem_cons.mp isMember with rfl | later
        · exact matchesRow_refl other
        · rw [matchesRow_comm]
          exact mem_takeWhile_imp (p := test) later
      have chain : (row :: rows.takeWhile test).IsChain (fun a b => matchesRow keepIndices a b = true) := by
        apply List.Pairwise.isChain
        apply pairwise_of_forall_mem_list
        intro a isA b isB
        rw [← matchesRow_congr (isRun a isA)]
        exact isRun b isB
      have apart : ∀ a ∈ (row :: rows.takeWhile test).getLast?,∀ b ∈ (rows.dropWhile test).head?,matchesRow keepIndices a b = false := by
        intro a isA b isB
        have new : test b = false := by
          have notTest := head?_dropWhile_not test rows
          rw [Option.mem_def.mp isB] at notTest
          simpa using notTest
        rw [← matchesRow_congr (isRun a (mem_of_getLast? isA)),matchesRow_comm]
        exact new
      have split : (row :: rows).splitBy (matchesRow keepIndices) =
          (row :: rows.takeWhile test) :: (rows.dropWhile test).splitBy (matchesRow keepIndices) := by
        conv => lhs; rw [← takeWhile_append_dropWhile (p := test) (l := rows),← cons_append]
        rw [splitBy_append apart,splitBy_of_isChain (cons_ne_nil _ _) chain,singleton_append]
      have shorter := (dropWhile_sublist (l := rows) test).length_le
      rw [length_cons] at isLength
      rw [split,filterMap_cons,head?_cons,withoutRepeats,any_none,if_neg Bool.false_ne_true,withoutRepeats_some,
        ih (rows.dropWhile test).length (by omega) (rows.dropWhile test) rfl]

/-- The tables of a lazy result contain the rows that the whole table gives, the first one of every run. -/
theorem lazyDistinct_correct (allowed : keepIndices.length ≤ width) (chunkSize : ℕ+) (tables : List (List (Row Id width))) ( yieldOnce : Bool) :
    ∃ results,lazyDistinct keepIndices tables yieldOnce = some results ∧
      outOfPlaceDistinct keepIndices chunkSize tables.flatten = some results.flatten ∧
        results.flatten = (tables.flatten.splitBy (matchesRow keepIndices)).filterMap head? := by
  obtain ⟨results,areResults,content⟩ := distinctTables_flatten allowed none tables
  refine ⟨if yieldOnce then [results.flatten] else results,by rw [lazyDistinct,areResults]; rfl,?_⟩
  have flat : (if yieldOnce then [results.flatten] else results).flatten = results.flatten := by
    cases yieldOnce <;> simp
  rw [flat,content]
  exact ⟨outOfPlaceDistinct_eq chunkSize allowed _,withoutRepeats_eq_heads _⟩

theorem lazyDistinct_correct_threeTables :
    ∃ results,lazyDistinct [0] [[![1,2],![1,3]],[],[![1,4],![2,5]]] false = some results ∧
      outOfPlaceDistinct [0] 2 [![1,2],![1,3],![1,4],![2,5]] = some results.flatten ∧
        results.flatten = ([![1,2],![1,3],![1,4],![2,5]].splitBy (matchesRow [0])).filterMap head? :=
  lazyDistinct_correct (show ([0] : List (Fin 2)).length ≤ 2 by decide) 2 [[![1,2],![1,3]],[],[![1,4],![2,5]]] false

end Qlever.Distinct
