import Qlever.Library.Run
import Qlever.SmallerUndefRangesMasks

/-! When the dispatching function yields exactly the smaller, compatible rows. The search for the end of the rows of a mask compares with the
next id, so the ids of the range have to be on one side of it.
-/
namespace Qlever.SmallerUndefRanges
open ZipperJoin FindUndefRanges Library List
open Bool (not_eq_true' not_eq_true and_eq_true)
variable {α κ : Type} [LinearOrder κ] [OrderBot κ] (ids : IdColumns α κ)

section NextRow
variable {ids} {element row : List α}

omit [OrderBot κ] in
theorem less_iff {row other : List α} : ids.less row other = true ↔ ids.values row < ids.values other := decide_eq_true_iff

omit [OrderBot κ] in
theorem compareRows_lt {row other : List α} : ids.compareRows row other = .lt ↔ ids.values row < ids.values other := by
  rw [← less_iff,IdColumns.compareRows]
  split
  next less => simp [less]
  next notLess => split <;> simp [notLess]

def idAt (ids : IdColumns α κ) (row : List α) (colIdx : Nat) : α := row.getD colIdx ids.makeUndefined

theorem value_idAt (undefined : ids.value ids.makeUndefined = ⊥) (row : List α) (colIdx : Nat) :
    ids.value (idAt ids row colIdx) = column (ids.values row) colIdx := by
  simp only [idAt,column,IdColumns.values,getD_eq_getElem?_getD,getElem?_map]
  cases row[colIdx]? with
  | none => exact undefined
  | some id => rfl

variable {count : Nat}

omit [LinearOrder κ] [OrderBot κ] in
theorem cons_of_inside (width : element.length = row.length) (inside : count < row.length) :
    ∃ id element' other row',element = id :: element' ∧ row = other :: row' := by
  obtain ⟨other,row',isRow⟩ := exists_cons_of_length_pos (Nat.zero_lt_of_lt inside)
  obtain ⟨id,element',isElement⟩ := exists_cons_of_length_pos (width ▸ Nat.zero_lt_of_lt inside)
  exact ⟨id,element',other,row',isElement,isRow⟩

theorem compareRowWithNext_lt (width : element.length = row.length) (inside : count < row.length)
    (rest : ∀ j,count < j → column (ids.values row) j = ⊥) :
    compareRowWithNext ids element row count = some .lt ↔ (ids.values element).take count < (ids.values row).take count ∨
      (ids.values element).take count = (ids.values row).take count ∧ ids.compareWithNext (idAt ids element count) (idAt ids row count) = some .lt := by
  induction count generalizing element row with
  | zero =>
    obtain ⟨id,element,other,row,rfl,rfl⟩ := cons_of_inside width inside
    have notLess : ¬ ids.values element < ids.values row := by
      apply not_lt_of_ge
      apply le_of_columns (by simpa [IdColumns.values] using width.symm)
      intro j
      have undef := rest (j + 1) (by omega)
      simp only [column,IdColumns.values,map_cons,getD_cons_succ] at undef ⊢
      rw [undef]
      exact bot_le
    simp only [compareRowWithNext,take_zero,lt_irrefl,false_or,true_and,idAt,getD_cons_zero]
    rcases ids.compareWithNext id other with _ | _ | _ | _
    · simp
    · simp
    · constructor
      · intro holds
        have isLess : ids.compareRows element row = .lt := Option.some.inj holds
        exact absurd (compareRows_lt.mp isLess) notLess
      · intro holds
        cases holds
    · simp
  | succ count ih =>
    obtain ⟨id,element,other,row,rfl,rfl⟩ := cons_of_inside width inside
    have tail := @ih element row (by simpa using width) (by simpa using inside) (fun j after => rest (j + 1) (by omega))
    simp only [compareRowWithNext,IdColumns.values,map_cons,take_succ_cons,idAt,getD_cons_succ,cons_lt_cons_iff,
      List.cons.injEq] at tail ⊢
    rcases lt_trichotomy (ids.value id) (ids.value other) with less | same | more
    · rw [(cmp_eq_lt_iff _ _).mpr less]
      simp [less]
    · rw [same,cmp_self_eq_eq]
      simpa using tail
    · rw [(cmp_eq_gt_iff _ _).mpr more]
      simp [more.not_gt,more.ne']

omit [OrderBot κ] in
theorem compareRowWithNext_none (ids : IdColumns α κ) (width : element.length = row.length) (inside : count < row.length) :
    compareRowWithNext ids element row count = none ↔ (ids.values element).take count = (ids.values row).take count ∧
      ids.compareWithNext (idAt ids element count) (idAt ids row count) = none := by
  induction count generalizing element row with
  | zero =>
    obtain ⟨id,element,other,row,rfl,rfl⟩ := cons_of_inside width inside
    simp only [compareRowWithNext,take_zero,true_and,idAt,getD_cons_zero]
    match ids.compareWithNext id other with
    | none => simp
    | some .lt => simp
    | some .gt => simp
    | some .eq => simp
  | succ count ih =>
    obtain ⟨id,element,other,row,rfl,rfl⟩ := cons_of_inside width inside
    have tail := @ih element row (by simpa using width) (by simpa using inside)
    simp only [compareRowWithNext,IdColumns.values,map_cons,take_succ_cons,idAt,getD_cons_succ,List.cons.injEq] at tail ⊢
    rcases lt_trichotomy (ids.value id) (ids.value other) with less | same | more
    · rw [(cmp_eq_lt_iff _ _).mpr less]
      simp [less.ne]
    · rw [same,cmp_self_eq_eq]
      simpa using tail
    · rw [(cmp_eq_gt_iff _ _).mpr more]
      simp [more.ne']

end NextRow

/-- What the ids of a range have in common: UNDEF is the smallest one, and the next id comes after the id. -/
structure Lawful (ids : IdColumns α κ) (IsId : α → Prop) : Prop where
  undefined : ids.value ids.makeUndefined = ⊥
  isId : IsId ids.makeUndefined
  mono : ∀ {id id' other},IsId id → IsId id' → IsId other → ids.value id ≤ ids.value id' →
    searchRank ((ids.compareWithNext id other).map (fun order => order = .lt)) ≤
      searchRank ((ids.compareWithNext id' other).map (fun order => order = .lt))
  next : ∀ {id other},IsId id → IsId other → ids.value id ≤ ids.value other →
    ids.compareWithNext id other = some .lt ∨ ids.compareWithNext id other = none
  nextOfUndefined : ∀ {id},IsId id →
    (ids.compareWithNext id ids.makeUndefined).map (fun order => decide (order = .lt)) = some (decide (ids.value id = ⊥))

section Searches
variable {ids} {IsId : α → Prop} {range : List (Iter (List α))} {width : Nat}

structure RangeOf (ids : IdColumns α κ) (IsId : α → Prop) (width : Nat) (range : List (Iter (List α))) : Prop where
  widths : ∀ it ∈ range,it.row.length = width
  isId : ∀ it ∈ range,∀ id ∈ it.row,IsId id
  sorted : range.Pairwise (fun it other => ids.values it.row ≤ ids.values other.row)
  nodup : range.Nodup

section
omit [OrderBot κ]

theorem closed_less (sorted : range.Pairwise (fun it other => ids.values it.row ≤ ids.values other.row)) (row : List α) :
    Closed (fun it => ids.less it.row row) range := by
  apply sorted.imp
  intro it other le less
  rw [less_iff] at less ⊢
  exact le.trans_lt less

theorem closed_notMore (sorted : range.Pairwise (fun it other => ids.values it.row ≤ ids.values other.row)) (row : List α) :
    Closed (fun it => !ids.less row it.row) range := by
  apply sorted.imp
  intro it other le notMore
  rw [not_eq_true',← not_eq_true,less_iff,not_lt] at notMore ⊢
  exact le.trans notMore

theorem RangeOf.equalRange (isRange : RangeOf ids IsId width range) (mask : List α) :
    (do let (first,last) ← Library.equalRange (fun it : Iter (List α) => ids.less it.row mask) (fun it => ids.less mask it.row) range
        return iteratorRange range first last) = some (range.filter (fun it => ids.values it.row = ids.values mask)) := by
  have closedLess := closed_less isRange.sorted mask
  have closedNotMore := closed_notMore isRange.sorted mask
  have imp : ∀ it ∈ range,ids.less it.row mask = true → (!ids.less mask it.row) = true := by
    intro it _ less
    rw [less_iff] at less
    rw [not_eq_true',← not_eq_true,less_iff]
    exact less.not_gt
  rw [equalRange_eq closedLess closedNotMore (partitionPoint_mono imp)]
  change some (iteratorRange range _ _) = _
  rw [iteratorRange,slice_partitionPoint closedLess closedNotMore imp]
  congr 1
  apply filter_congr
  intro it _
  rw [Bool.eq_iff_iff,and_eq_true,not_eq_true',not_eq_true',← not_eq_true,← not_eq_true,less_iff,less_iff,not_lt,not_lt,
    decide_eq_true_eq]
  exact ⟨fun both => le_antisymm both.1 both.2,fun equal => ⟨equal.le,equal.ge⟩⟩

theorem withoutUndef_eq (isRange : RangeOf ids IsId width range) (row : List α) :
    findSmallerUndefRangesForRowsWithoutUndef ids row range = if row.length < 64 then
      some ((List.range (2 ^ row.length - 1)).flatMap
        (fun i => range.filter (fun it => ids.values it.row = ids.values (getIthMask ids row row.length i)))) else none := by
  rw [findSmallerUndefRangesForRowsWithoutUndef,shiftedOne]
  split
  next =>
    have each := mapM_some (fun i (_ : i ∈ List.range (2 ^ row.length - 1)) => isRange.equalRange (getIthMask ids row row.length i))
    simp only [Option.bind_eq_bind,Option.bind_some] at each ⊢
    rw [each]
    rfl
  next => rfl

end

variable {order : Option Ordering}

theorem map_isLess_true : order.map (fun order => decide (order = .lt)) = some true ↔ order = some .lt := by
  match order with
  | none | some .lt | some .eq | some .gt => simp

theorem map_isLess_false (defined : order ≠ none) (notLess : order ≠ some .lt) :
    order.map (fun order => decide (order = .lt)) = some false := by
  match order,defined,notLess with
  | some .eq,_,_ => rfl
  | some .gt,_,_ => rfl
  | some .lt,_,notLess => exact absurd rfl notLess
  | none,defined,_ => exact absurd rfl defined

theorem map_isLess_congr {order' : Option Ordering} (none : order = none ↔ order' = none) (less : order = some .lt ↔ order' = some .lt) :
    order.map (fun order => decide (order = .lt)) = order'.map (fun order => decide (order = .lt)) := by
  by_cases isNone : order = Option.none
  · rw [isNone,none.mp isNone]
  by_cases isLess : order = some .lt
  · rw [isLess,less.mp isLess]
  rw [map_isLess_false isNone isLess,map_isLess_false (mt none.mpr isNone) (mt less.mpr isLess)]

theorem nextSlice_eq (lawful : Lawful ids IsId) (isRange : RangeOf ids IsId width range) {mask : List α} {count : Nat}
    (widthMask : mask.length = width) (inside : count < width) (isMask : IsId (idAt ids mask count))
    (rest : ∀ j,count < j → column (ids.values mask) j = ⊥) :
    (do let begOfUndef ← lowerBound (fun it => some (ids.less it.row mask)) range
        let endOfUndef ← lowerBound (fun it => (compareRowWithNext ids it.row mask count).map (fun order => decide (order = .lt))) range
        return iteratorRange range begOfUndef endOfUndef) =
      if ∃ it ∈ range,(ids.values it.row).take count = (ids.values mask).take count ∧
          ids.compareWithNext (idAt ids it.row count) (idAt ids mask count) = none then none
      else some (range.filter (fun it => (ids.values it.row).take count = (ids.values mask).take count ∧
        ids.compareWithNext (idAt ids it.row count) (idAt ids mask count) = some .lt ∧
          column (ids.values mask) count ≤ column (ids.values it.row) count)) := by
  have widths : ∀ it ∈ range,it.row.length = mask.length := by
    intro it member
    rw [isRange.widths it member,widthMask]
  have idAtIsId : ∀ it ∈ range,IsId (idAt ids it.row count) := by
    intro it member
    have bound : count < it.row.length := by rwa [isRange.widths it member]
    rw [idAt,getD_eq_getElem?_getD,getElem?_eq_getElem bound]
    exact isRange.isId it member _ (getElem_mem bound)
  have fails := fun it (member : it ∈ range) => compareRowWithNext_none ids (widths it member) (widthMask ▸ inside)
  have goesRight := fun it (member : it ∈ range) => compareRowWithNext_lt (widths it member) (widthMask ▸ inside) rest
  have below : ∀ it ∈ range,(ids.values it.row).take count < (ids.values mask).take count →
      (compareRowWithNext ids it.row mask count).map (fun order => decide (order = .lt)) = some true := by
    intro it member less
    exact map_isLess_true.mpr ((goesRight it member).mpr (Or.inl less))
  have equal : ∀ it ∈ range,(ids.values it.row).take count = (ids.values mask).take count →
      (compareRowWithNext ids it.row mask count).map (fun order => decide (order = .lt)) =
        (ids.compareWithNext (idAt ids it.row count) (idAt ids mask count)).map (fun order => decide (order = .lt)) := by
    intro it member same
    have none := fails it member
    have less := goesRight it member
    simp only [same,true_and,lt_irrefl,false_or] at none less
    exact map_isLess_congr none less
  have above : ∀ it ∈ range,(ids.values mask).take count < (ids.values it.row).take count →
      (compareRowWithNext ids it.row mask count).map (fun order => decide (order = .lt)) = some false := by
    intro it member more
    apply map_isLess_false
    · rw [Ne,fails it member]
      exact fun both => more.ne both.1.symm
    · rw [Ne,goesRight it member]
      rintro (less | ⟨same,_⟩)
      · exact more.not_gt less
      · exact more.ne same.symm
  have ranked : range.Pairwise (fun it other =>
      searchRank ((compareRowWithNext ids it.row mask count).map (fun order => decide (order = .lt))) ≤
        searchRank ((compareRowWithNext ids other.row mask count).map (fun order => decide (order = .lt)))) := by
    apply isRange.sorted.imp_of_mem
    intro it other member member' le
    have takes := take_le le count
    rcases lt_trichotomy ((ids.values it.row).take count) ((ids.values mask).take count) with less | same | more
    · rw [below it member less]
      exact Nat.zero_le _
    · rcases (same ▸ takes).lt_or_eq with more | same'
      · rw [above other member' more,searchRank_le_iff]
        simp
      · rw [equal it member same,equal other member' same'.symm]
        apply lawful.mono (idAtIsId it member) (idAtIsId other member') isMask
        rw [value_idAt lawful.undefined,value_idAt lawful.undefined]
        apply column_le _ le (same.trans same')
        rw [length_values,length_values,widths it member,widths other member']
    · rw [above it member more,above other member' (more.trans_le takes)]
  have closedLess := closed_less isRange.sorted mask
  have first : lowerBound (fun it => some (ids.less it.row mask)) range = some (partitionPoint (fun it => ids.less it.row mask) range) := by
    rw [← bisect_partitionPoint closedLess,lowerBound]
    congr 1
    funext i
    cases range[i]? <;> rfl
  have second := bisect_ranked ranked
  have failing : (∃ it ∈ range,(compareRowWithNext ids it.row mask count).map (fun order => decide (order = .lt)) = none) ↔
      ∃ it ∈ range,(ids.values it.row).take count = (ids.values mask).take count ∧
        ids.compareWithNext (idAt ids it.row count) (idAt ids mask count) = none := by
    apply exists_congr
    intro it
    apply and_congr_right
    intro member
    rw [Option.map_eq_none_iff,fails it member]
  rw [first]
  simp only [failing] at second
  rw [← lowerBound] at second
  rw [second]
  split
  next => rfl
  next total =>
    have imp : ∀ it ∈ range,ids.less it.row mask = true →
        decide ((compareRowWithNext ids it.row mask count).map (fun order => decide (order = .lt)) = some true) = true := by
      intro it member less
      rw [less_iff] at less
      rw [decide_eq_true_eq]
      rcases (take_le less.le count).lt_or_eq with smaller | same
      · exact below it member smaller
      · have columns := (lt_iff_column (by rw [length_values,length_values,widths it member]) same rest).mp less
        rw [equal it member same,map_isLess_true]
        rw [← value_idAt lawful.undefined,← value_idAt lawful.undefined] at columns
        rcases lawful.next (idAtIsId it member) isMask columns.le with isLess | isNone
        · exact isLess
        · exact absurd ⟨it,member,same,isNone⟩ total
    change some (iteratorRange range _ _) = _
    rw [iteratorRange,slice_partitionPoint closedLess (closed_of_ranked ranked) imp]
    congr 1
    apply filter_congr
    intro it member
    rw [Bool.eq_iff_iff,and_eq_true,decide_eq_true_eq,map_isLess_true,goesRight it member,not_eq_true',← not_eq_true,less_iff,
      decide_eq_true_eq]
    have lengths : (ids.values it.row).length = (ids.values mask).length := by rw [length_values,length_values,widths it member]
    constructor
    · rintro ⟨less | ⟨same,isLess⟩,notLess⟩
      · exact absurd less (take_le (le_of_not_gt notLess) count).not_gt
      · rw [lt_iff_column lengths same rest,not_lt] at notLess
        exact ⟨same,isLess,notLess⟩
    · rintro ⟨same,isLess,atLeast⟩
      refine ⟨Or.inr ⟨same,isLess⟩,?_⟩
      rw [lt_iff_column lengths same rest]
      exact atLeast.not_gt

end Searches

section Exact
variable {ids} {IsId : α → Prop} {row : List α} {range : List (Iter (List α))}

def Exact (ids : IdColumns α κ) (row : List α) (range : List (Iter (List α))) (result : Option (List (Iter (List α)) × Bool)) : Prop :=
  ∃ found resultMightBeUnsorted,result = some (found,resultMightBeUnsorted) ∧ found.Nodup ∧
    ∀ it,it ∈ found ↔ it ∈ range ∧ ids.values it.row < ids.values row ∧ compatible (ids.values it.row) (ids.values row) = true

structure DefinedFirst (ids : IdColumns α κ) (row : List α) (numDefined : Nat) : Prop where
  le : numDefined ≤ row.length
  defined : ∀ j < numDefined,column (ids.values row) j ≠ ⊥
  undefined : ∀ j,numDefined ≤ j → column (ids.values row) j = ⊥

def PartlyUndef (row element : List κ) (count : Nat) : Prop :=
  (∀ j < count,column element j = ⊥ ∨ column element j = column row j) ∧ ∃ j < count,column element j = ⊥

theorem take_mask_iff (undefined : ids.value ids.makeUndefined = ⊥) {element : List α} (width : element.length = row.length) {count numDefined i : Nat}
    (inside : count ≤ numDefined) (le : numDefined ≤ row.length) :
    (ids.values element).take count = (ids.values (getIthMask ids row numDefined i)).take count ↔
      ∀ j < count,column (ids.values element) j = if i.testBit (numDefined - j - 1) then column (ids.values row) j else ⊥ := by
  rw [take_eq_iff (by rw [length_values]; omega) (by rw [length_values,length_getIthMask]; omega)]
  apply forall₂_congr
  intro j below
  rw [column_mask undefined]
  cases i.testBit (numDefined - j - 1) with
  | true => simp
  | false => simp [show j < numDefined by omega]

theorem masks_exact (lawful : Lawful ids IsId) (isRange : RangeOf ids IsId row.length range) {numDefined : Nat}
    (first : DefinedFirst ids row numDefined) :
    ((List.range (2 ^ numDefined - 1)).flatMap (fun i => range.filter (fun it =>
        (ids.values it.row).take numDefined = (ids.values (getIthMask ids row numDefined i)).take numDefined))).Nodup ∧
      ∀ it,it ∈ (List.range (2 ^ numDefined - 1)).flatMap (fun i => range.filter (fun it =>
          (ids.values it.row).take numDefined = (ids.values (getIthMask ids row numDefined i)).take numDefined)) ↔
        it ∈ range ∧ ids.values it.row < ids.values row ∧ compatible (ids.values it.row) (ids.values row) = true := by
  have isMatch : ∀ it ∈ range,∀ i,(ids.values it.row).take numDefined = (ids.values (getIthMask ids row numDefined i)).take numDefined ↔
      Matches ids row numDefined i (ids.values it.row) := by
    intro it member i
    exact take_mask_iff lawful.undefined (isRange.widths it member) le_rfl first.le
  constructor
  · rw [nodup_flatMap]
    refine ⟨fun i _ => isRange.nodup.filter _,?_⟩
    apply nodup_range.imp_of_mem
    intro i i' isFirst isSecond different it inFirst inSecond
    rw [mem_range] at isFirst isSecond
    rw [mem_filter,decide_eq_true_eq] at inFirst inSecond
    apply different
    exact matches_unique first.defined (by omega) (by omega) ((isMatch it inFirst.1 i).mp inFirst.2) ((isMatch it inSecond.1 i').mp inSecond.2)
  · intro it
    simp only [mem_flatMap,mem_range,mem_filter,decide_eq_true_eq]
    by_cases member : it ∈ range
    · simp only [member,true_and,isMatch it member]
      rw [smaller_compatible_iff (by rw [length_values,length_values,isRange.widths it member]) first.defined first.undefined]
      exact exists_matches_iff first.defined _
    · simp [member]

omit [LinearOrder κ] [OrderBot κ] in
theorem idAt_mask (numDefined i j : Nat) :
    idAt ids (getIthMask ids row numDefined i) j =
      if j < numDefined ∧ i.testBit (numDefined - j - 1) = false then ids.makeUndefined else idAt ids row j := by
  simp only [idAt,getIthMask,getD_eq_getElem?_getD,getElem?_mapIdx]
  cases row[j]? with
  | none => simp
  | some id =>
    simp only [Option.map_some,Option.getD_some,and_eq_true,decide_eq_true_eq,not_eq_true']

/-- No id in the column comes after the id of the row but before the next id, and none of them is compared with an invalid id. -/
def Separated (ids : IdColumns α κ) (row : List α) (colIdx : Nat) (range : List (Iter (List α))) : Prop :=
  ∀ it ∈ range,PartlyUndef (ids.values row) (ids.values it.row) colIdx →
    ∃ order,ids.compareWithNext (idAt ids it.row colIdx) (idAt ids row colIdx) = some order ∧
      (order = .lt → column (ids.values it.row) colIdx ≤ column (ids.values row) colIdx)

theorem partlyUndef_iff (undefined : ids.value ids.makeUndefined = ⊥) {element : List α} (width : element.length = row.length) {colIdx : Nat}
    (first : DefinedFirst ids row (colIdx + 1)) :
    PartlyUndef (ids.values row) (ids.values element) colIdx ↔ ∃ i < 2 ^ (colIdx + 1) - 1,i.testBit 0 = true ∧
      (ids.values element).take colIdx = (ids.values (getIthMask ids row (colIdx + 1) i)).take colIdx := by
  have le := first.le
  rw [PartlyUndef,← exists_matches_iff (fun j below => first.defined j (by omega))]
  have bits : ∀ i,(∀ j < colIdx,column (ids.values element) j = if i.testBit (colIdx + 1 - j - 1) then column (ids.values row) j else ⊥) ↔
      Matches ids row colIdx (i / 2) (ids.values element) := by
    intro i
    apply forall₂_congr
    intro j below
    rw [show colIdx + 1 - j - 1 = colIdx - j - 1 + 1 by omega,Nat.testBit_add_one]
  constructor
  · rintro ⟨i,inside,isMatch⟩
    refine ⟨2 * i + 1,by rw [Nat.pow_succ]; omega,by simp,?_⟩
    rw [take_mask_iff undefined width (by omega) le,bits,show (2 * i + 1) / 2 = i by omega]
    exact isMatch
  · rintro ⟨i,inside,odd,isMatch⟩
    rw [take_mask_iff undefined width (by omega) le,bits] at isMatch
    refine ⟨i / 2,?_,isMatch⟩
    rw [Nat.testBit_zero,decide_eq_true_eq] at odd
    rw [Nat.pow_succ] at inside
    omega

variable {colIdx : Nat}

section
omit [LinearOrder κ] [OrderBot κ]

theorem idAt_isId (undefined : IsId ids.makeUndefined) {row : List α} (isId : ∀ id ∈ row,IsId id) (colIdx : Nat) : IsId (idAt ids row colIdx) := by
  rw [idAt,getD_eq_getElem?_getD]
  cases read : row[colIdx]? with
  | none => exact undefined
  | some id => exact isId id (mem_of_getElem? read)

theorem idAt_mask_isId (undefined : IsId ids.makeUndefined) (isId : ∀ id ∈ row,IsId id) (numDefined i j : Nat) :
    IsId (idAt ids (getIthMask ids row numDefined i) j) := by
  rw [idAt_mask]
  split
  next => exact undefined
  next => exact idAt_isId undefined isId j

end

/-- The two searches for the mask `i`. -/
def maskSlice (ids : IdColumns α κ) (row : List α) (colIdx : Nat) (range : List (Iter (List α))) (i : Nat) : Option (List (Iter (List α))) := do
  let mask := getIthMask ids row (colIdx + 1) i
  let begOfUndef ← lowerBound (fun it => some (ids.less it.row mask)) range
  let endOfUndef ← lowerBound (fun it => (compareRowWithNext ids it.row mask colIdx).map (fun order => decide (order = .lt))) range
  return iteratorRange range begOfUndef endOfUndef

section
variable (lawful : Lawful ids IsId) (isRange : RangeOf ids IsId row.length range) (isId : ∀ id ∈ row,IsId id) (first : DefinedFirst ids row (colIdx + 1))
include lawful isRange isId first

theorem maskSlice_eq (i : Nat) :
    maskSlice ids row colIdx range i =
      if ∃ it ∈ range,(ids.values it.row).take colIdx = (ids.values (getIthMask ids row (colIdx + 1) i)).take colIdx ∧
          ids.compareWithNext (idAt ids it.row colIdx) (idAt ids (getIthMask ids row (colIdx + 1) i) colIdx) = none then none
      else some (range.filter (fun it => (ids.values it.row).take colIdx = (ids.values (getIthMask ids row (colIdx + 1) i)).take colIdx ∧
        ids.compareWithNext (idAt ids it.row colIdx) (idAt ids (getIthMask ids row (colIdx + 1) i) colIdx) = some .lt ∧
          column (ids.values (getIthMask ids row (colIdx + 1) i)) colIdx ≤ column (ids.values it.row) colIdx)) := by
  apply nextSlice_eq lawful isRange (length_getIthMask _ _ _) first.le (idAt_mask_isId lawful.isId isId _ _ _)
  intro j after
  rw [column_mask lawful.undefined,if_neg (by omega)]
  exact first.undefined j after

theorem maskSlice_of_separated (separated : Separated ids row colIdx range) {i : Nat} (inside : i < 2 ^ (colIdx + 1) - 1) :
    maskSlice ids row colIdx range i = some (range.filter (fun it =>
      (ids.values it.row).take (colIdx + 1) = (ids.values (getIthMask ids row (colIdx + 1) i)).take (colIdx + 1))) := by
  have idInRange : ∀ it ∈ range,IsId (idAt ids it.row colIdx) := fun it member => idAt_isId lawful.isId (isRange.isId it member) colIdx
  have le := first.le
  -- In its last defined column the mask has the id of the row or UNDEF.
  have last : ∀ it ∈ range,(ids.values it.row).take colIdx = (ids.values (getIthMask ids row (colIdx + 1) i)).take colIdx →
      ids.compareWithNext (idAt ids it.row colIdx) (idAt ids (getIthMask ids row (colIdx + 1) i) colIdx) ≠ none ∧
        (ids.compareWithNext (idAt ids it.row colIdx) (idAt ids (getIthMask ids row (colIdx + 1) i) colIdx) = some .lt ∧
            column (ids.values (getIthMask ids row (colIdx + 1) i)) colIdx ≤ column (ids.values it.row) colIdx ↔
          column (ids.values it.row) colIdx = column (ids.values (getIthMask ids row (colIdx + 1) i)) colIdx) := by
    intro it member same
    rw [idAt_mask,column_mask lawful.undefined,show colIdx + 1 - colIdx - 1 = 0 by omega]
    cases odd : i.testBit 0 with
    | false =>
      have next := lawful.nextOfUndefined (idInRange it member)
      rw [value_idAt lawful.undefined] at next
      simp only [Nat.lt_add_one,and_self,if_true,bot_le,and_true]
      constructor
      · intro isNone
        rw [isNone] at next
        cases next
      · rw [← map_isLess_true,next,Option.some.injEq,decide_eq_true_eq]
    | true =>
      have partly := (partlyUndef_iff lawful.undefined (isRange.widths it member) first).mpr ⟨i,inside,odd,same⟩
      obtain ⟨order,isOrder,atMost⟩ := separated it member partly
      simp only [Bool.true_eq_false,and_false,if_false]
      refine ⟨by rw [isOrder]; exact Option.some_ne_none _,?_,?_⟩
      · rintro ⟨isLess,atLeast⟩
        exact le_antisymm (atMost (Option.some.inj (isOrder.symm.trans isLess))) atLeast
      · intro equal
        refine ⟨?_,equal.ge⟩
        rcases lawful.next (idInRange it member) (idAt_isId lawful.isId isId colIdx)
          (by rw [value_idAt lawful.undefined,value_idAt lawful.undefined,equal]) with isLess | isNone
        · exact isLess
        · rw [isOrder] at isNone
          cases isNone
  rw [maskSlice_eq lawful isRange isId first,if_neg]
  · congr 1
    apply filter_congr
    intro it member
    rw [Bool.eq_iff_iff,decide_eq_true_eq,decide_eq_true_eq,
      take_succ_eq_iff (by rw [length_values,isRange.widths it member]; omega) (by rw [length_values,length_getIthMask]; omega)]
    exact and_congr_right (fun same => (last it member same).2)
  · rintro ⟨it,member,same,isNone⟩
    exact (last it member same).1 isNone

end

omit [OrderBot κ] in
theorem lastColumns_eq {numLastUndefined : Nat} (some_ : numLastUndefined ≠ 0) (count : row.length - numLastUndefined = colIdx + 1) :
    findSmallerUndefRangesForRowsWithUndefInLastColumns ids row numLastUndefined range =
      if colIdx + 1 < 32 then ((List.range (2 ^ (colIdx + 1) - 1)).mapM (maskSlice ids row colIdx range)).map
        (fun ranges => (ranges.flatten,!ranges.isEmpty)) else none := by
  simp only [findSmallerUndefRangesForRowsWithUndefInLastColumns,count,shiftedOne,if_neg some_,Nat.add_sub_cancel]
  split
  next =>
    change ((List.range (2 ^ (colIdx + 1) - 1)).mapM (maskSlice ids row colIdx range) >>= _) = _
    cases (List.range (2 ^ (colIdx + 1) - 1)).mapM (maskSlice ids row colIdx range) <;> rfl
  next => rfl

theorem mem_of_not_separated (lawful : Lawful ids IsId) (isRange : RangeOf ids IsId row.length range) (isId : ∀ id ∈ row,IsId id)
    (first : DefinedFirst ids row (colIdx + 1)) (notSeparated : ¬ Separated ids row colIdx range) {ranges : List (List (Iter (List α)))}
    (run : (List.range (2 ^ (colIdx + 1) - 1)).mapM (maskSlice ids row colIdx range) = some ranges) :
    ∃ it ∈ ranges.flatten,column (ids.values row) colIdx < column (ids.values it.row) colIdx := by
  simp only [Separated,not_forall] at notSeparated
  obtain ⟨it,member,partly,notOrder⟩ := notSeparated
  obtain ⟨i,inside,odd,same⟩ := (partlyUndef_iff lawful.undefined (isRange.widths it member) first).mp partly
  obtain ⟨slice,isSlice,run⟩ := exists_of_mem_mapM_left run (mem_range.mpr inside)
  rw [maskSlice_eq lawful isRange isId first] at run
  split at run
  next => cases run
  next total =>
    have isNext : idAt ids (getIthMask ids row (colIdx + 1) i) colIdx = idAt ids row colIdx := by
      rw [idAt_mask,if_neg]
      rw [show colIdx + 1 - colIdx - 1 = 0 by omega,odd]
      simp
    have isColumn : column (ids.values (getIthMask ids row (colIdx + 1) i)) colIdx = column (ids.values row) colIdx := by
      rw [← value_idAt lawful.undefined,← value_idAt lawful.undefined,isNext]
    obtain ⟨order,isOrder⟩ : ∃ order,ids.compareWithNext (idAt ids it.row colIdx) (idAt ids row colIdx) = some order := by
      rw [← Option.ne_none_iff_exists']
      intro isNone
      exact total ⟨it,member,same,by rw [isNext,isNone]⟩
    have between : order = .lt ∧ column (ids.values row) colIdx < column (ids.values it.row) colIdx := by
      by_contra neither
      apply notOrder
      refine ⟨order,isOrder,fun isLess => ?_⟩
      exact le_of_not_gt (fun more => neither ⟨isLess,more⟩)
    refine ⟨it,mem_flatten.mpr ⟨slice,isSlice,?_⟩,between.2⟩
    cases run
    rw [mem_filter,decide_eq_true_eq,isNext,isColumn]
    exact ⟨member,same,by rw [isOrder,between.1],between.2.le⟩

def numDefinedColumns (ids : IdColumns α κ) (row : List α) : Nat := row.length - (row.reverse.takeWhile ids.isUndefined).length

def Searchable (ids : IdColumns α κ) (row : List α) (range : List (Iter (List α))) : Prop :=
  (∀ j < numDefinedColumns ids row,column (ids.values row) j ≠ ⊥) →
    if numDefinedColumns ids row = row.length then row.length < 64
    else numDefinedColumns ids row < 32 ∧ Separated ids row (numDefinedColumns ids row - 1) range

theorem column_append (a b : List κ) (j : Nat) : column (a ++ b) j = if j < a.length then column a j else column b (j - a.length) := by
  simp only [column,getD_eq_getElem?_getD,getElem?_append]
  split <;> rfl

theorem definedColumns (ids : IdColumns α κ) (row : List α) :
    (∀ j,numDefinedColumns ids row ≤ j → column (ids.values row) j = ⊥) ∧
      ((row.reverse.drop (row.reverse.takeWhile ids.isUndefined).length).any ids.isUndefined = false ↔
        ∀ j < numDefinedColumns ids row,column (ids.values row) j ≠ ⊥) := by
  have split := takeWhile_append_dropWhile (p := ids.isUndefined) (l := row.reverse)
  have dropped : row.reverse.drop (row.reverse.takeWhile ids.isUndefined).length = row.reverse.dropWhile ids.isUndefined := by
    have behind := congrArg (drop (row.reverse.takeWhile ids.isUndefined).length) split
    rw [drop_left] at behind
    exact behind.symm
  have isRow : row = (row.reverse.dropWhile ids.isUndefined).reverse ++ (row.reverse.takeWhile ids.isUndefined).reverse := by
    rw [← reverse_append,split,reverse_reverse]
  have count : numDefinedColumns ids row = (row.reverse.dropWhile ids.isUndefined).length := by
    have length := congrArg List.length split
    rw [length_append,length_reverse] at length
    rw [numDefinedColumns]
    omega
  have isColumn : ∀ j,column (ids.values row) j = if j < (row.reverse.dropWhile ids.isUndefined).length then
      column (ids.values (row.reverse.dropWhile ids.isUndefined).reverse) j
      else column (ids.values (row.reverse.takeWhile ids.isUndefined).reverse) (j - (row.reverse.dropWhile ids.isUndefined).length) := by
    intro j
    conv_lhs => rw [isRow]
    rw [IdColumns.values,map_append,column_append,length_map,length_reverse]
    rfl
  constructor
  · intro j after
    rw [isColumn,if_neg (by omega),column,getD_eq_getElem?_getD]
    cases read : (ids.values (row.reverse.takeWhile ids.isUndefined).reverse)[j - (row.reverse.dropWhile ids.isUndefined).length]? with
    | none => rfl
    | some value =>
      obtain ⟨id,member,rfl⟩ := List.mem_map.mp (mem_of_getElem? read)
      have isUndef : ids.isUndefined id = true := mem_takeWhile_imp (mem_reverse.mp member)
      exact of_decide_eq_true isUndef
  · rw [dropped,count,any_eq_false]
    constructor
    · intro none j below isUndef
      rw [isColumn,if_pos below,column,IdColumns.values,getD_eq_getElem?_getD,
        getElem?_eq_getElem (by rwa [length_map,length_reverse]),Option.getD_some,getElem_map] at isUndef
      exact none _ (mem_reverse.mp (getElem_mem _)) (decide_eq_true isUndef)
    · intro all id member isUndef
      obtain ⟨j,inside,rfl⟩ := getElem_of_mem (mem_reverse.mpr member)
      have below := inside
      rw [length_reverse] at below
      apply all j below
      rw [isColumn,if_pos below,column,IdColumns.values,getD_eq_getElem?_getD,
        getElem?_eq_getElem (by rwa [length_map]),Option.getD_some,getElem_map]
      exact of_decide_eq_true isUndef

theorem arbitrary_exact (isRange : RangeOf ids IsId row.length range) :
    (findSmallerUndefRangesForRowsOfIds ids row range).1.Nodup ∧ ∀ it,it ∈ (findSmallerUndefRangesForRowsOfIds ids row range).1 ↔
      it ∈ range ∧ ids.values it.row < ids.values row ∧ compatible (ids.values it.row) (ids.values row) = true := by
  simp only [findSmallerUndefRangesForRowsOfIds]
  rw [takeWhile_eq_filter _ _ (closed_less isRange.sorted row)]
  refine ⟨(isRange.nodup.filter _).filter _,?_⟩
  intro it
  rw [mem_filter,mem_filter,less_iff,and_assoc,compatible_comm]

section
variable (lawful : Lawful ids IsId) (isRange : RangeOf ids IsId row.length range)
include lawful isRange

theorem withoutUndef_exact (first : DefinedFirst ids row row.length) :
    Exact ids row range ((findSmallerUndefRangesForRowsWithoutUndef ids row range).map (fun found => (found,false))) ↔ row.length < 64 := by
  rw [withoutUndef_eq isRange]
  constructor
  · rintro ⟨found,_,result,_⟩
    by_contra large
    rw [if_neg large] at result
    cases result
  · intro small
    rw [if_pos small]
    refine ⟨_,_,rfl,?_⟩
    have same : ∀ i,range.filter (fun it => decide (ids.values it.row = ids.values (getIthMask ids row row.length i))) =
        range.filter (fun it => decide ((ids.values it.row).take row.length = (ids.values (getIthMask ids row row.length i)).take row.length)) := by
      intro i
      apply filter_congr
      intro it member
      rw [take_of_length_le (by rw [length_values,isRange.widths it member]),take_of_length_le (by rw [length_values,length_getIthMask])]
    simp only [same]
    exact masks_exact lawful isRange first

theorem allUndef_exact (first : DefinedFirst ids row 0)
    {numLastUndefined : Nat} (count : row.length - numLastUndefined = 0) :
    Exact ids row range (findSmallerUndefRangesForRowsWithUndefInLastColumns ids row numLastUndefined range) := by
  have nothing : findSmallerUndefRangesForRowsWithUndefInLastColumns ids row numLastUndefined range = some ([],false) := by
    have noMasks : (if numLastUndefined = 0 then 0 else 2 ^ 0 - 1) = 0 := by simp
    simp only [findSmallerUndefRangesForRowsWithUndefInLastColumns,count,shiftedOne,Option.bind_eq_bind,Nat.zero_lt_succ,if_true,Option.bind_some,
      noMasks]
    rfl
  rw [nothing]
  exact ⟨_,_,rfl,masks_exact lawful isRange first⟩

theorem lastColumns_exact (isId : ∀ id ∈ row,IsId id)
    (first : DefinedFirst ids row (colIdx + 1)) {numLastUndefined : Nat} (some_ : numLastUndefined ≠ 0)
    (count : row.length - numLastUndefined = colIdx + 1) :
    Exact ids row range (findSmallerUndefRangesForRowsWithUndefInLastColumns ids row numLastUndefined range) ↔
      colIdx + 1 < 32 ∧ Separated ids row colIdx range := by
  rw [lastColumns_eq some_ count]
  constructor
  · rintro ⟨found,_,result,_,isFound⟩
    split at result
    next small =>
      refine ⟨small,?_⟩
      by_contra notSeparated
      obtain ⟨ranges,run,same⟩ := Option.map_eq_some_iff.mp result
      cases same
      obtain ⟨it,member,more⟩ := mem_of_not_separated lawful isRange isId first notSeparated run
      obtain ⟨inRange,_,agree⟩ := (isFound it).mp member
      rw [compatible_iff_columns (by rw [length_values,length_values,isRange.widths it inRange])] at agree
      rcases agree colIdx with undef | undef | equal
      · rw [undef] at more
        exact not_lt_bot more
      · exact first.defined colIdx (by omega) undef
      · exact more.ne' equal
    next => cases result
  · rintro ⟨small,separated⟩
    have each := mapM_some (fun i inside => maskSlice_of_separated lawful isRange isId first separated (mem_range.mp inside))
    rw [if_pos small,each]
    exact ⟨_,_,rfl,masks_exact lawful isRange first⟩

theorem exact_iff_searchable (isId : ∀ id ∈ row,IsId id) :
    Exact ids row range (findSmallerUndefRanges ids row range) ↔ Searchable ids row range := by
  obtain ⟨undefined,arbitrary⟩ := definedColumns ids row
  rw [Searchable,findSmallerUndefRanges]
  by_cases defined : ∀ j < numDefinedColumns ids row,column (ids.values row) j ≠ ⊥
  · have first : DefinedFirst ids row (numDefinedColumns ids row) := ⟨Nat.sub_le _ _,defined,undefined⟩
    have bound : (row.reverse.takeWhile ids.isUndefined).length ≤ row.length := by
      have part := (takeWhile_sublist (l := row.reverse) ids.isUndefined).length_le
      rwa [length_reverse] at part
    rw [imp_iff_right defined,arbitrary.mpr defined,if_neg Bool.false_ne_true]
    by_cases whole : (row.reverse.takeWhile ids.isUndefined).length = 0
    · have count : numDefinedColumns ids row = row.length := by
        rw [numDefinedColumns,whole,Nat.sub_zero]
      rw [count] at first
      rw [if_pos whole,if_pos count]
      exact withoutUndef_exact lawful isRange first
    · have fewer : numDefinedColumns ids row ≠ row.length := by
        rw [numDefinedColumns]
        omega
      rw [if_neg whole,if_neg fewer]
      cases count : numDefinedColumns ids row with
      | zero =>
        rw [count] at first
        refine iff_of_true (allUndef_exact lawful isRange first count) ⟨by omega,?_⟩
        rintro it _ ⟨_,j,inside,_⟩
        exact absurd inside (Nat.not_lt_zero j)
      | succ colIdx =>
        rw [count] at first
        exact lastColumns_exact lawful isRange isId first whole count
  · have isSome : (row.reverse.drop (row.reverse.takeWhile ids.isUndefined).length).any ids.isUndefined = true := by
      rw [← Bool.not_eq_false,arbitrary]
      exact defined
    rw [isSome,if_pos rfl]
    exact ⟨fun _ all => absurd all defined,fun _ => ⟨_,_,rfl,arbitrary_exact isRange⟩⟩

end

end Exact

end Qlever.SmallerUndefRanges
