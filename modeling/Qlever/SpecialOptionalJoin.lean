import Qlever.UndefJoinOrder

/-! The OPTIONAL join `specialOptionalJoin` for a right input without UNDEF values and a left input that has them only in the last join column.
It runs the general join on the last column of the rows that agree in the other columns.
-/
namespace Qlever.UndefJoin

def Call.shift (left right : Nat) : Call → Call
  | compatibleRowAction i j => compatibleRowAction (left + i) (right + j)
  | elFromFirstNotFoundAction i => elFromFirstNotFoundAction (left + i)

end Qlever.UndefJoin

namespace Qlever.SpecialOptionalJoin
open ZipperJoin FindUndefRanges UndefJoin SmallerUndefRanges Library
variable {Id : Type} [LinearOrder Id] [OrderBot Id]

def compareAllButLast (a b : List Id) : Bool := a.dropLast < b.dropLast

def compareEqButLast (a b : List Id) : Bool := a.dropLast = b.dropLast

def lastColumn (row : List Id) : Id := row.getLastD ⊥

def findSmallerUndefRangeLeft (leftSub : List Id) : FindUndef Id :=
  fun _ _ => ((iters 0 leftSub).takeWhile (fun it => it.row = ⊥),false)

def joinLastColumn (leftSub rightSub : List Id) : List UndefJoin.Call × Nat :=
  zipperJoinWithUndef (callbacks (fun id => decide (id = ⊥)) (some (findSmallerUndefRangeLeft leftSub)) none true)
    (iters 0 leftSub) (iters 0 rightSub) []

def notFoundCalls (its : List (Iter (List Id))) : List UndefJoin.Call := its.map (fun it => .elFromFirstNotFoundAction it.pos)

/-- The calls for rows that agree in the other columns. It fails if the correctness check of the source fails. -/
def joinSame (same1 same2 : List (Iter (List Id))) : Option (List UndefJoin.Call) :=
  match same1,same2 with
  | it1::_,it2::_ =>
    let (joined,numOutOfOrder) := joinLastColumn (same1.map (fun it => lastColumn it.row)) (same2.map (fun it => lastColumn it.row))
    if numOutOfOrder = 0 then some (joined.map (UndefJoin.Call.shift it1.pos it2.pos)) else none
  | _,_ => some []

def joinBlocks : Nat → List (Iter (List Id)) → List (Iter (List Id)) → List UndefJoin.Call → Option (List UndefJoin.Call)
  | 0,_,_,_ => none
  | fuel + 1,rest1,rest2,calls =>
    match rest1 with
    | [] => some calls
    | it1::_ =>
      match rest2.dropWhile (fun it => compareAllButLast it.row it1.row) with
      | [] => some (calls ++ notFoundCalls rest1)
      | it2::rest2 =>
        let calls := calls ++ notFoundCalls (rest1.takeWhile (fun it => compareAllButLast it.row it2.row))
        match rest1.dropWhile (fun it => compareAllButLast it.row it2.row) with
        | [] => some calls
        | it1::rest1 =>
          let same1 := (it1::rest1).takeWhile (fun it => compareEqButLast it.row it2.row)
          let same2 := (it2::rest2).takeWhile (fun it => compareEqButLast it1.row it.row)
          if same1.isEmpty then joinBlocks fuel (it1::rest1) (it2::rest2) calls
          else
            (joinSame same1 same2).bind (fun joined =>
              joinBlocks fuel ((it1::rest1).dropWhile (fun it => compareEqButLast it.row it2.row))
                ((it2::rest2).dropWhile (fun it => compareEqButLast it1.row it.row)) (calls ++ joined))

/-- The calls of `specialOptionalJoin`. It fails if its check fails. -/
def specialOptionalJoin (left right : List (List Id)) : Option (List UndefJoin.Call) :=
  joinBlocks (left.length + right.length + 1) (iters 0 left) (iters 0 right) []

section LastColumn
variable {leftSub rightSub : List Id}

def columnCalls (leftSub rightSub : List Id) : List UndefJoin.Call :=
  (nestedLoop (fun a b => decide (a.row = ⊥) || decide (b.row = a.row)) (iters 0 leftSub) (iters 0 rightSub)).map
      (fun pair => .compatibleRowAction pair.1.pos pair.2.pos) ++
    ((iters 0 leftSub).filter (fun it => it.row ≠ ⊥ && !hasEqual (iters 0 rightSub) it)).map (fun it => .elFromFirstNotFoundAction it.pos)

theorem undefs_eq (sorted : leftSub.Pairwise (· ≤ ·)) :
    (iters 0 leftSub).takeWhile (fun it => it.row = ⊥) = (iters 0 leftSub).filter (fun it => it.row = ⊥) := by
  apply takeWhile_eq_filter
  apply (sorted_iters 0 leftSub sorted).imp
  intro it other le undef
  rw [decide_eq_true_eq] at undef ⊢
  exact le_bot_iff.mp (le.trans_eq undef)

theorem smaller_undefs (sorted : leftSub.Pairwise (· ≤ ·)) {it : Iter Id} (defined : it.row ≠ ⊥) (range : List (Iter Id)) :
    smaller (some (findSmallerUndefRangeLeft leftSub)) it range = (iters 0 leftSub).filter (fun other => other.row = ⊥) := by
  rw [smaller,findSmallerUndefRangeLeft,undefs_eq sorted,List.filter_filter]
  apply List.filter_congr
  intro other _
  rw [Bool.eq_iff_iff,Bool.and_eq_true,decide_eq_true_eq,decide_eq_true_eq]
  constructor
  · exact And.right
  · intro undef
    refine ⟨?_,undef⟩
    rw [undef]
    exact bot_lt_iff_ne_bot.mpr defined

def columnCallbacks (leftSub : List Id) : Callbacks Id (List UndefJoin.Call) :=
  callbacks (fun id => decide (id = ⊥)) (some (findSmallerUndefRangeLeft leftSub)) none true

theorem containsNoUndefined_eq (leftSub : List Id) (id : Id) : containsNoUndefined (columnCallbacks leftSub) id = !decide (id = ⊥) := rfl

variable {visits : List (Visit Id)}

theorem columnCalls_perm (sorted : leftSub.Pairwise (· ≤ ·)) (defined : ⊥ ∉ rightSub)
    (complete : Complete (iters 0 leftSub) (iters 0 rightSub) visits) :
    (visits.flatMap (callsOf (fun id => decide (id = ⊥)) (some (findSmallerUndefRangeLeft leftSub)) none true)).Perm (columnCalls leftSub rightSub) := by
  have rowDefined : ∀ it ∈ iters 0 rightSub,it.row ≠ ⊥ := by
    intro it member undef
    apply defined
    rw [← undef]
    exact List.mem_of_getElem? ((mem_iters rightSub it).mp member)
  have calls := complete.flatMap_perm (callsOf (fun id => decide (id = ⊥)) (some (findSmallerUndefRangeLeft leftSub)) none true)
    (fun it => if it.row ≠ ⊥ && !hasEqual (iters 0 rightSub) it then [.elFromFirstNotFoundAction it.pos] else [])
    (fun it => ((iters 0 leftSub).filter (fun other => other.row = ⊥)).map (fun other => .compatibleRowAction other.pos it.pos))
    (fun it => ((iters 0 rightSub).filter (fun other => other.row = it.row)).map (fun other => .compatibleRowAction it.pos other.pos))
    (by
      intro v member
      have sound := complete.sound v member
      apply List.Perm.of_eq
      cases v with
      | right it range hasNoMatch =>
        have flag : hasNoMatch = !hasEqual (iters 0 rightSub) it := sound.2.2
        change (if hasNoMatch && containsNoUndefined (columnCallbacks leftSub) it.row && true then _ else _) = _
        rw [flag,containsNoUndefined_eq,Visit.select,Bool.and_true,Bool.and_comm]
        simp
      | left it range =>
        have inRight := complete.mem_right member it rfl
        rw [callsOf,smaller_undefs sorted (rowDefined it inRight)]
        rfl
      | same it others =>
        have equal : others = (iters 0 rightSub).filter (fun other => other.row = it.row) := sound
        rw [callsOf,equal]
        rfl)
  refine calls.trans ?_
  rw [flatMap_if_singleton,columnCalls]
  have undefs : ((iters 0 rightSub).flatMap (fun it => ((iters 0 leftSub).filter (fun other => other.row = ⊥)).map
      (fun other => UndefJoin.Call.compatibleRowAction other.pos it.pos))).Perm
      ((nestedLoop (fun a _ => decide (a.row = ⊥)) (iters 0 leftSub) (iters 0 rightSub)).map (fun pair => .compatibleRowAction pair.1.pos pair.2.pos)) := by
    have swapped := (nestedLoop_swap (fun a _ => decide (a.row = ⊥)) (iters 0 leftSub) (iters 0 rightSub)).map
      (fun pair => UndefJoin.Call.compatibleRowAction pair.1.pos pair.2.pos)
    simpa only [List.map_flatMap,List.map_map,Function.comp_def] using swapped
  have equals : ((iters 0 leftSub).filter (hasEqual (iters 0 rightSub))).flatMap (fun it => ((iters 0 rightSub).filter
      (fun other => other.row = it.row)).map (fun other => UndefJoin.Call.compatibleRowAction it.pos other.pos)) =
      (nestedLoop (fun a b => decide (b.row = a.row)) (iters 0 leftSub) (iters 0 rightSub)).map (fun pair => .compatibleRowAction pair.1.pos pair.2.pos) := by
    rw [flatMap_filter_of_nil,nestedLoop,List.map_flatMap]
    · simp only [List.map_map,Function.comp_def]
    · intro it _ noEqual
      rw [List.map_eq_nil_iff,List.filter_eq_nil_iff]
      exact List.any_eq_false.mp noEqual
  have both := (nestedLoop_or (fun a _ => decide (a.row = ⊥)) (fun a b => decide (b.row = a.row)) (iters 0 leftSub) (iters 0 rightSub) (by
    intro a _ b inRight
    rintro ⟨undef,same⟩
    rw [decide_eq_true_eq] at undef same
    exact rowDefined b inRight (same.trans undef))).map (fun pair => UndefJoin.Call.compatibleRowAction pair.1.pos pair.2.pos)
  rw [List.map_append] at both
  rw [equals,List.append_assoc]
  exact List.perm_append_comm.trans (((undefs.append_right _).trans both.symm).append_right _)

theorem mem_columnCovers (sorted : leftSub.Pairwise (· ≤ ·)) (defined : ⊥ ∉ rightSub) (nonempty : rightSub ≠ [])
    (complete : Complete (iters 0 leftSub) (iters 0 rightSub) visits) {it : Iter Id} (member : it ∈ iters 0 leftSub) :
    it.pos ∈ visits.flatMap (coversOf (fun id => decide (id = ⊥)) (some (findSmallerUndefRangeLeft leftSub)) none true) := by
  rw [List.mem_flatMap]
  by_cases undef : it.row = ⊥
  · obtain ⟨other,inRight⟩ : ∃ other,other ∈ iters 0 rightSub := by
      apply List.exists_mem_of_ne_nil
      simpa [iters] using nonempty
    have otherDefined : other.row ≠ ⊥ := by
      intro isUndef
      apply defined
      rw [← isUndef]
      exact List.mem_of_getElem? ((mem_iters rightSub other).mp inRight)
    rw [← complete.lefts,List.mem_filterMap] at inRight
    obtain ⟨v,isVisit,isOther⟩ := inRight
    refine ⟨v,isVisit,?_⟩
    cases v with
    | left other' range =>
      cases isOther
      rw [coversOf,smaller_undefs sorted otherDefined]
      exact List.mem_map_of_mem (List.mem_filter.mpr ⟨member,decide_eq_true undef⟩)
    | right _ _ _ | same _ _ => cases isOther
  · cases equal : hasEqual (iters 0 rightSub) it with
    | true =>
      have isSame : it ∈ visits.filterMap Visit.same? := by
        rw [complete.sames]
        exact List.mem_filter.mpr ⟨member,equal⟩
      obtain ⟨v,isVisit,isIt⟩ := List.mem_filterMap.mp isSame
      refine ⟨v,isVisit,?_⟩
      cases v with
      | same it' others =>
        cases isIt
        exact List.mem_singleton.mpr rfl
      | right _ _ _ | left _ _ => cases isIt
    | false =>
      rw [← complete.rights,List.mem_filterMap] at member
      obtain ⟨v,isVisit,isIt⟩ := member
      refine ⟨v,isVisit,?_⟩
      cases v with
      | right it' range hasNoMatch =>
        cases isIt
        have flag : hasNoMatch = !hasEqual (iters 0 rightSub) it := (complete.sound _ isVisit).2.2
        change it.pos ∈ if (!true || (hasNoMatch && containsNoUndefined (columnCallbacks leftSub) it.row)) then _ else _
        rw [flag,equal,containsNoUndefined_eq,decide_eq_false undef]
        exact List.mem_singleton.mpr rfl
      | left _ _ | same _ _ => cases isIt

theorem joinLastColumn_perm (sortedLeft : leftSub.Pairwise (· ≤ ·)) (sortedRight : rightSub.Pairwise (· ≤ ·)) (defined : ⊥ ∉ rightSub)
    (nonempty : rightSub ≠ []) :
    (joinLastColumn leftSub rightSub).1.Perm (columnCalls leftSub rightSub) ∧ (joinLastColumn leftSub rightSub).2 = 0 := by
  obtain ⟨visits,run,complete⟩ := mergeAll_visits (columnCallbacks leftSub) (sorted_iters 0 leftSub sortedLeft) (sorted_iters 0 rightSub sortedRight)
    (initialState (columnCallbacks leftSub) (iters 0 leftSub) [])
  obtain ⟨target,covered⟩ := visits_effect (fun id => decide (id = ⊥)) (some (findSmallerUndefRangeLeft leftSub)) none true visits
    (initialState (columnCallbacks leftSub) (iters 0 leftSub) [])
  have flags := visits_outOfOrderFound (fun id => decide (id = ⊥)) (some (findSmallerUndefRangeLeft leftSub)) none true visits
    (initialState (columnCallbacks leftSub) (iters 0 leftSub) [])
  rw [← columnCallbacks,← run] at target covered flags
  have unset : (mergeAll (columnCallbacks leftSub) (iters 0 leftSub) (iters 0 rightSub)
      (initialState (columnCallbacks leftSub) (iters 0 leftSub) [])).outOfOrderFound = false := by
    have noFlag : visits.any (flagOf (some (findSmallerUndefRangeLeft leftSub)) none) = false := by
      rw [List.any_eq_false]
      intro v _
      cases v with
      | right it range hasNoMatch | same it others => simp [flagOf]
      | left it range => simp [flagOf,findSmallerUndefRangeLeft]
    rw [flags,noFlag]
    rfl
  have none : uncovered (iters 0 leftSub) (mergeAll (columnCallbacks leftSub) (iters 0 leftSub) (iters 0 rightSub)
      (initialState (columnCallbacks leftSub) (iters 0 leftSub) [])) = [] := by
    rw [uncovered_eq 0 leftSub _ _ covered,List.filter_eq_nil_iff]
    intro it member
    simpa using mem_columnCovers sortedLeft defined nonempty complete member
  have present : (columnCallbacks leftSub).hasNotFoundAction = true := rfl
  rw [joinLastColumn,← columnCallbacks,zipperJoinWithUndef]
  simp only [present,if_true,none,List.foldl_nil,unset,Bool.false_eq_true,if_false,List.length_nil,and_true]
  rw [target]
  exact columnCalls_perm sortedLeft defined complete

end LastColumn

section Rows
variable {width : Nat}

structure IsLeftRow (width : Nat) (row : List Id) : Prop where
  width : row.length = width
  defined : ⊥ ∉ row.dropLast

structure IsRightRow (width : Nat) (row : List Id) : Prop where
  width : row.length = width
  defined : ⊥ ∉ row

theorem eq_append_lastColumn {row : List Id} (positive : 0 < width) (isWidth : row.length = width) : row = row.dropLast ++ [lastColumn row] := by
  have nonempty : row ≠ [] := by
    rintro rfl
    simp at isWidth
    omega
  rw [lastColumn,List.getLastD_eq_getLast?,List.getLast?_eq_getLast_of_ne_nil nonempty,Option.getD_some,List.dropLast_append_getLast]

variable {a b : List Id}

theorem compatible_append (width : a.length = b.length) (x y : Id) :
    compatible (a ++ [x]) (b ++ [y]) = (compatible a b && (decide (x = ⊥) || decide (y = ⊥) || decide (x = y))) := by
  rw [FindUndefRanges.compatible,List.zip_append width,List.all_append]
  simp [FindUndefRanges.compatible]

theorem compatible_defined (width : a.length = b.length) (definedA : ⊥ ∉ a) (definedB : ⊥ ∉ b) :
    compatible a b = true ↔ a = b := by
  constructor
  · intro agree
    rw [← mergedKey_left width definedA,mergedKey_right width definedB agree]
  · rintro rfl
    exact compatible_self a

theorem IsRightRow.lastColumn_ne (positive : 0 < width) {row : List Id} (isRight : IsRightRow width row) : lastColumn row ≠ ⊥ := by
  intro undef
  apply isRight.defined
  rw [eq_append_lastColumn positive isRight.width,undef]
  simp

theorem compatible_iff_lastColumn (positive : 0 < width) (isLeft : IsLeftRow width a) (isRight : IsRightRow width b) :
    compatible a b = true ↔ a.dropLast = b.dropLast ∧ (lastColumn a = ⊥ ∨ lastColumn b = lastColumn a) := by
  have lengths : a.dropLast.length = b.dropLast.length := by
    rw [List.length_dropLast,List.length_dropLast,isLeft.width,isRight.width]
  have isB := eq_append_lastColumn positive isRight.width
  have definedB : ⊥ ∉ b.dropLast := fun undef => isRight.defined (List.dropLast_subset b undef)
  conv_lhs => rw [eq_append_lastColumn positive isLeft.width,isB]
  rw [compatible_append lengths,Bool.and_eq_true,compatible_defined lengths isLeft.defined definedB,Bool.or_eq_true,Bool.or_eq_true,decide_eq_true_eq,
    decide_eq_true_eq,decide_eq_true_eq]
  apply and_congr_right
  intro _
  constructor
  · rintro ((undef | undef) | equal)
    · exact Or.inl undef
    · exact absurd undef (isRight.lastColumn_ne positive)
    · exact Or.inr equal.symm
  · rintro (undef | equal)
    · exact Or.inl (Or.inl undef)
    · exact Or.inr equal.symm

omit [OrderBot Id] in
theorem dropLast_le (widthA : a.length = width) (widthB : b.length = width) (le : a ≤ b) : a.dropLast ≤ b.dropLast := by
  rw [List.dropLast_eq_take,List.dropLast_eq_take,widthA,widthB]
  exact SmallerUndefRanges.take_le le (width - 1)

theorem lastColumn_le (positive : 0 < width) (widthA : a.length = width) (widthB : b.length = width) (le : a ≤ b)
    (same : a.dropLast = b.dropLast) : lastColumn a ≤ lastColumn b := by
  by_contra notLe
  apply le.not_gt
  rw [eq_append_lastColumn positive widthA,eq_append_lastColumn positive widthB,same]
  exact List.append_left_lt (List.cons_lt_cons_iff.mpr (Or.inl (lt_of_not_ge notLe)))

end Rows

section Iters
variable {ρ : Type}

theorem iters_cons (start : Nat) (row : ρ) (rows : List ρ) : iters start (row::rows) = ⟨row,start⟩::iters (start + 1) rows := by
  simp [iters]

theorem head_pos {start : Nat} {rows : List ρ} {it : Iter ρ} {its : List (Iter ρ)} (head : it::its = iters start rows) : it.pos = start := by
  cases rows with
  | nil => cases head
  | cons row rows =>
    rw [iters_cons,List.cons.injEq] at head
    rw [head.1]

theorem eq_iters_of_append {start : Nat} {rows : List ρ} {front back : List (Iter ρ)} (parts : iters start rows = front ++ back) :
    ∃ rows1 rows2,front = iters start rows1 ∧ back = iters (start + rows1.length) rows2 := by
  induction front generalizing start rows with
  | nil => exact ⟨[],rows,rfl,parts.symm⟩
  | cons it front ih =>
    cases rows with
    | nil => cases parts
    | cons row rows =>
      rw [iters_cons,List.cons_append,List.cons.injEq] at parts
      obtain ⟨rows1,rows2,isFront,isBack⟩ := ih parts.2
      refine ⟨row::rows1,rows2,?_,?_⟩
      · rw [iters_cons,parts.1,isFront]
      · rw [isBack,List.length_cons,Nat.add_assoc,Nat.add_comm 1]

theorem iters_shift (start count : Nat) (rows : List ρ) : iters (start + count) rows = (iters count rows).map (fun it => ⟨it.row,start + it.pos⟩) := by
  induction rows generalizing count with
  | nil => rfl
  | cons row rows ih => rw [iters_cons,iters_cons,List.map_cons,Nat.add_assoc,ih]

theorem iters_map {γ : Type} (f : ρ → γ) (rows : List ρ) : iters 0 (rows.map f) = (iters 0 rows).map (fun it => ⟨f it.row,it.pos⟩) := by
  simp [iters,List.zipIdx_map,Function.comp_def]

end Iters

section Expected

def expectedCalls (left right : List (Iter (List Id))) : List UndefJoin.Call :=
  (nestedLoop (fun a b => compatible a.row b.row) left right).map compatibleCall ++ (left.filter (unmatched right)).map notFoundCall

def Separate (left right : List (Iter (List Id))) : Prop := ∀ a ∈ left,∀ b ∈ right,compatible a.row b.row = false

variable {left left' right right' : List (Iter (List Id))}

theorem expectedCalls_congr (same : ∀ a ∈ left,right.filter (fun b => compatible a.row b.row) = right'.filter (fun b => compatible a.row b.row)) :
    expectedCalls left right = expectedCalls left right' := by
  have pairs : nestedLoop (fun a b => compatible a.row b.row) left right = nestedLoop (fun a b => compatible a.row b.row) left right' := by
    apply List.flatMap_congr
    intro a member
    rw [same a member]
  have misses : left.filter (unmatched right) = left.filter (unmatched right') := by
    apply List.filter_congr
    intro a member
    have none : ∀ others : List (Iter (List Id)),unmatched others a = (others.filter (fun b => compatible a.row b.row)).isEmpty := by
      intro others
      rw [Bool.eq_iff_iff,List.isEmpty_iff,List.filter_eq_nil_iff,unmatched,List.all_eq_true]
      simp
    rw [none,none,same a member]
  rw [expectedCalls,expectedCalls,pairs,misses]

theorem expectedCalls_dropRight (separate : Separate left right) : expectedCalls left (right ++ right') = expectedCalls left right' := by
  apply expectedCalls_congr
  intro a member
  have none : right.filter (fun b => compatible a.row b.row) = [] := by
    rw [List.filter_eq_nil_iff]
    intro b inRight agree
    rw [separate a member b inRight] at agree
    cases agree
  rw [List.filter_append,none,List.nil_append]

theorem expectedCalls_dropEnd (separate : Separate left right') : expectedCalls left (right ++ right') = expectedCalls left right := by
  apply expectedCalls_congr
  intro a member
  have none : right'.filter (fun b => compatible a.row b.row) = [] := by
    rw [List.filter_eq_nil_iff]
    intro b inRight agree
    rw [separate a member b inRight] at agree
    cases agree
  rw [List.filter_append,none,List.append_nil]

theorem expectedCalls_append : (expectedCalls (left ++ left') right).Perm (expectedCalls left right ++ expectedCalls left' right) := by
  rw [expectedCalls,expectedCalls,expectedCalls,nestedLoop_append_left,List.filter_append,List.map_append,List.map_append,List.append_assoc,
    List.append_assoc]
  apply List.Perm.append_left
  exact List.perm_append_comm_assoc _ _ _

theorem expectedCalls_separate (separate : Separate left right) : expectedCalls left right = notFoundCalls left := by
  rw [expectedCalls,nestedLoop_false _ _ _ separate,List.map_nil,List.nil_append,List.filter_eq_self.mpr]
  · rfl
  · intro a member
    rw [unmatched,List.all_eq_true]
    intro b inRight
    rw [separate a member b inRight]
    rfl

theorem columnCalls_shift {width : Nat} (positive : 0 < width) {rows1 rows2 : List (List Id)} (isLeft : ∀ row ∈ rows1,IsLeftRow width row)
    (isRight : ∀ row ∈ rows2,IsRightRow width row) {value : List Id} (same1 : ∀ row ∈ rows1,row.dropLast = value)
    (same2 : ∀ row ∈ rows2,row.dropLast = value) (nonempty : rows2 ≠ []) (start1 start2 : Nat) :
    (columnCalls (rows1.map lastColumn) (rows2.map lastColumn)).map (UndefJoin.Call.shift start1 start2) =
      expectedCalls (iters start1 rows1) (iters start2 rows2) := by
  have agree : ∀ a ∈ iters 0 rows1,∀ b ∈ iters 0 rows2,
      (decide (lastColumn a.row = ⊥) || decide (lastColumn b.row = lastColumn a.row)) = compatible a.row b.row := by
    intro a inLeft b inRight
    rw [Bool.eq_iff_iff,compatible_iff_lastColumn positive (isLeft _ (row_mem inLeft)) (isRight _ (row_mem inRight)),Bool.or_eq_true,decide_eq_true_eq,
      decide_eq_true_eq,same1 _ (row_mem inLeft),same2 _ (row_mem inRight)]
    simp
  have none : ∀ a ∈ iters 0 rows1,(decide (lastColumn a.row ≠ ⊥) && !hasEqual (iters 0 (rows2.map lastColumn)) ⟨lastColumn a.row,a.pos⟩) =
      unmatched (iters start2 rows2) ⟨a.row,start1 + a.pos⟩ := by
    intro a inLeft
    obtain ⟨b,inRight⟩ : ∃ b,b ∈ iters 0 rows2 := by
      apply List.exists_mem_of_ne_nil
      simpa [iters] using nonempty
    have shifted : unmatched (iters start2 rows2) ⟨a.row,start1 + a.pos⟩ = (iters 0 rows2).all (fun b => !compatible a.row b.row) := by
      rw [← Nat.add_zero start2,iters_shift,unmatched,List.all_map]
      rfl
    have equals : hasEqual (iters 0 (rows2.map lastColumn)) ⟨lastColumn a.row,a.pos⟩ =
        (iters 0 rows2).any (fun b => lastColumn b.row = lastColumn a.row) := by
      rw [hasEqual,iters_map,List.any_map]
      rfl
    rw [shifted,equals]
    by_cases undef : lastColumn a.row = ⊥
    · rw [eq_comm,decide_eq_false (not_not.mpr undef),Bool.false_and,List.all_eq_false]
      refine ⟨b,inRight,?_⟩
      rw [← agree a inLeft b inRight,decide_eq_true undef]
      simp
    · rw [decide_eq_true undef,Bool.true_and,List.not_any_eq_all_not]
      rw [Bool.eq_iff_iff,List.all_eq_true,List.all_eq_true]
      apply forall₂_congr
      intro b inRight
      rw [← agree a inLeft b inRight,decide_eq_false undef,Bool.false_or]
  have shift1 := iters_shift start1 0 rows1
  have shift2 := iters_shift start2 0 rows2
  rw [Nat.add_zero] at shift1 shift2
  rw [expectedCalls,columnCalls,List.map_append,shift1,iters_map,List.filter_map,List.filter_map]
  congr 1
  · rw [iters_map,shift2,nestedLoop_map,nestedLoop_map,List.map_map,List.map_map,List.map_map,nestedLoop_congr _ _ _ _ agree]
    rfl
  · rw [List.map_map,List.map_map,List.map_map]
    have filters : (iters 0 rows1).filter ((fun it => decide (it.row ≠ ⊥) && !hasEqual (iters 0 (rows2.map lastColumn)) it) ∘
        (fun it => ⟨lastColumn it.row,it.pos⟩)) = (iters 0 rows1).filter (unmatched (iters start2 rows2) ∘ fun it => ⟨it.row,start1 + it.pos⟩) :=
      List.filter_congr none
    rw [filters]
    rfl

end Expected

section Loop
variable {width : Nat} {left right : List (Iter (List Id))}

omit [OrderBot Id] in
theorem compareAllButLast_iff (a b : List Id) : compareAllButLast a b = true ↔ a.dropLast < b.dropLast := by
  rw [compareAllButLast,decide_eq_true_eq]

omit [OrderBot Id] in
theorem compareEqButLast_iff (a b : List Id) : compareEqButLast a b = true ↔ a.dropLast = b.dropLast := by
  rw [compareEqButLast,decide_eq_true_eq]

structure Input (isRow : List Id → Prop) (its : List (Iter (List Id))) : Prop where
  rows : ∀ it ∈ its,isRow it.row
  sorted : Sorted its
  contiguous : ∃ start rows,its = iters start rows

variable {isRow : List Id → Prop}

omit [OrderBot Id] in
theorem Input.append {front back : List (Iter (List Id))} (input : Input isRow (front ++ back)) :
    Input isRow front ∧ Input isRow back := by
  obtain ⟨start,rows,parts⟩ := input.contiguous
  obtain ⟨rows1,rows2,isFront,isBack⟩ := eq_iters_of_append parts.symm
  have sorted := List.pairwise_append.mp input.sorted
  constructor
  · exact ⟨fun it member => input.rows it (List.mem_append_left _ member),sorted.1,start,rows1,isFront⟩
  · exact ⟨fun it member => input.rows it (List.mem_append_right _ member),sorted.2.1,_,rows2,isBack⟩

variable {its : List (Iter (List Id))}

omit [OrderBot Id] in
theorem Input.split (input : Input isRow its) (test : Iter (List Id) → Bool) :
    Input isRow (its.takeWhile test) ∧ Input isRow (its.dropWhile test) := by
  apply Input.append
  rwa [List.takeWhile_append_dropWhile]

omit [OrderBot Id] in
theorem Input.head_le (widths : ∀ row,isRow row → row.length = width) {head : Iter (List Id)} {tail : List (Iter (List Id))}
    (input : Input isRow (head::tail)) : ∀ it ∈ head::tail,head.row.dropLast ≤ it.row.dropLast := by
  intro it member
  obtain rfl | inTail := List.mem_cons.mp member
  · exact le_refl _
  · exact dropLast_le (widths _ (input.rows _ List.mem_cons_self)) (widths _ (input.rows _ member)) ((List.pairwise_cons.mp input.sorted).1 it inTail)

theorem separate_of_ne (positive : 0 < width) (isLeft : ∀ it ∈ left,IsLeftRow width it.row) (isRight : ∀ it ∈ right,IsRightRow width it.row)
    (differ : ∀ a ∈ left,∀ b ∈ right,a.row.dropLast ≠ b.row.dropLast) : Separate left right := by
  intro a inLeft b inRight
  rw [Bool.eq_false_iff]
  intro agree
  exact differ a inLeft b inRight ((compatible_iff_lastColumn positive (isLeft a inLeft) (isRight b inRight)).mp agree).1

variable {it1 : Iter (List Id)}

theorem expectedCalls_skipRight (positive : 0 < width) (isLeft : Input (IsLeftRow width) (it1::left))
    (isRight : Input (IsRightRow width) right) :
    expectedCalls (it1::left) right = expectedCalls (it1::left) (right.dropWhile (fun it => compareAllButLast it.row it1.row)) := by
  conv_lhs => rw [← List.takeWhile_append_dropWhile (p := fun it => compareAllButLast it.row it1.row) (l := right)]
  apply expectedCalls_dropRight
  apply separate_of_ne positive isLeft.rows (isRight.split _).1.rows
  intro a inLeft b inRight same
  have less := List.mem_takeWhile_imp inRight
  rw [compareAllButLast_iff] at less
  have le := isLeft.head_le (fun _ isRow => isRow.width) a inLeft
  exact (less.trans_le le).ne' same

variable {it2 : Iter (List Id)}

theorem expectedCalls_skipLeft (positive : 0 < width) (isLeft : Input (IsLeftRow width) left)
    (isRight : Input (IsRightRow width) (it2::right)) :
    (expectedCalls left (it2::right)).Perm (notFoundCalls (left.takeWhile (fun it => compareAllButLast it.row it2.row)) ++
      expectedCalls (left.dropWhile (fun it => compareAllButLast it.row it2.row)) (it2::right)) := by
  conv_lhs => rw [← List.takeWhile_append_dropWhile (p := fun it => compareAllButLast it.row it2.row) (l := left)]
  refine expectedCalls_append.trans (List.Perm.of_eq ?_)
  rw [expectedCalls_separate]
  apply separate_of_ne positive (isLeft.split _).1.rows isRight.rows
  intro a inLeft b inRight same
  have less := List.mem_takeWhile_imp inLeft
  rw [compareAllButLast_iff] at less
  have le := isRight.head_le (fun _ isRow => isRow.width) b inRight
  exact (less.trans_le le).ne same

omit [OrderBot Id] in
theorem same_iff (same : it1.row.dropLast = it2.row.dropLast) (it : Iter (List Id)) :
    compareEqButLast it1.row it.row = true ↔ it.row.dropLast = it2.row.dropLast := by
  rw [compareEqButLast_iff,same,eq_comm]

variable {value : List Id} {test : Iter (List Id) → Bool}

omit [OrderBot Id] [LinearOrder Id] in
theorem eq_of_mem_takeWhile (its : List (Iter (List Id)))     (isTest : ∀ it,test it = true ↔ it.row.dropLast = value) : ∀ it ∈ its.takeWhile test,it.row.dropLast = value := by
  intro it member
  exact (isTest it).mp (List.mem_takeWhile_imp member)

omit [OrderBot Id] in
theorem ne_of_mem_dropWhile (widths : ∀ row,isRow row → row.length = width)
    (input : Input isRow its) (atLeast : ∀ it ∈ its,value ≤ it.row.dropLast)
    (isTest : ∀ it,test it = true ↔ it.row.dropLast = value) : ∀ it ∈ its.dropWhile test,it.row.dropLast ≠ value := by
  rw [dropWhile_eq_filter]
  · intro it member same
    have fails := (List.mem_filter.mp member).2
    rw [(isTest it).mpr same] at fails
    cases fails
  · apply input.sorted.imp_of_mem
    intro a b memberA memberB le same
    rw [isTest] at same ⊢
    have less := dropLast_le (widths _ (input.rows a memberA)) (widths _ (input.rows b memberB)) le
    exact le_antisymm (less.trans_eq same) (atLeast a memberA)

theorem expectedCalls_blocks (positive : 0 < width) (isLeft : Input (IsLeftRow width) (it1::left))
    (isRight : Input (IsRightRow width) (it2::right)) (same : it1.row.dropLast = it2.row.dropLast) :
    (expectedCalls (it1::left) (it2::right)).Perm
      (expectedCalls ((it1::left).takeWhile (fun it => compareEqButLast it.row it2.row))
          ((it2::right).takeWhile (fun it => compareEqButLast it1.row it.row)) ++
        expectedCalls ((it1::left).dropWhile (fun it => compareEqButLast it.row it2.row))
          ((it2::right).dropWhile (fun it => compareEqButLast it1.row it.row))) := by
  have sameLeft := eq_of_mem_takeWhile (it1::left) (fun it => compareEqButLast_iff it.row it2.row)
  have sameRight := eq_of_mem_takeWhile (it2::right) (same_iff same)
  have otherLeft : ∀ a ∈ (it1::left).dropWhile (fun it => compareEqButLast it.row it2.row),a.row.dropLast ≠ it2.row.dropLast := by
    apply ne_of_mem_dropWhile (fun _ isRow => isRow.width) isLeft
    · rw [← same]
      exact isLeft.head_le (fun _ isRow => isRow.width)
    · exact fun it => compareEqButLast_iff it.row it2.row
  have otherRight : ∀ b ∈ (it2::right).dropWhile (fun it => compareEqButLast it1.row it.row),b.row.dropLast ≠ it2.row.dropLast := by
    exact ne_of_mem_dropWhile (fun _ isRow => isRow.width) isRight (isRight.head_le (fun _ isRow => isRow.width)) (same_iff same)
  conv_lhs => rw [← List.takeWhile_append_dropWhile (p := fun it => compareEqButLast it.row it2.row) (l := it1::left)]
  refine expectedCalls_append.trans (List.Perm.of_eq ?_)
  congr 1
  · conv_lhs => rw [← List.takeWhile_append_dropWhile (p := fun it => compareEqButLast it1.row it.row) (l := it2::right)]
    apply expectedCalls_dropEnd
    apply separate_of_ne positive (isLeft.split _).1.rows (isRight.split _).2.rows
    intro a inLeft b inRight
    rw [sameLeft a inLeft]
    exact (otherRight b inRight).symm
  · conv_lhs => rw [← List.takeWhile_append_dropWhile (p := fun it => compareEqButLast it1.row it.row) (l := it2::right)]
    apply expectedCalls_dropRight
    apply separate_of_ne positive (isLeft.split _).2.rows (isRight.split _).1.rows
    intro a inLeft b inRight
    rw [sameRight b inRight]
    exact otherLeft a inLeft

theorem Input.sorted_lastColumn (positive : 0 < width) (widths : ∀ row,isRow row → row.length = width)
    (input : Input isRow its) (same : ∀ it ∈ its,it.row.dropLast = value) :
    (its.map (fun it => lastColumn it.row)).Pairwise (· ≤ ·) := by
  rw [List.pairwise_map]
  apply input.sorted.imp_of_mem
  intro a b memberA memberB le
  exact lastColumn_le positive (widths _ (input.rows a memberA)) (widths _ (input.rows b memberB)) le ((same a memberA).trans (same b memberB).symm)

section
variable (positive : 0 < width) {it1 it2 : Iter (List Id)} (isLeft : Input (IsLeftRow width) (it1::left)) (isRight : Input (IsRightRow width) (it2::right))
include positive isLeft isRight

theorem joinSame_perm {value : List Id} (same1 : ∀ it ∈ it1::left,it.row.dropLast = value)
    (same2 : ∀ it ∈ it2::right,it.row.dropLast = value) :
    ∃ joined,joinSame (it1::left) (it2::right) = some joined ∧ joined.Perm (expectedCalls (it1::left) (it2::right)) := by
  have defined : ⊥ ∉ (it2::right).map (fun it => lastColumn it.row) := by
    intro member
    obtain ⟨it,inRight,undef⟩ := List.mem_map.mp member
    exact (isRight.rows it inRight).lastColumn_ne positive undef
  obtain ⟨calls,number⟩ := joinLastColumn_perm (isLeft.sorted_lastColumn positive (fun _ isRow => isRow.width) same1)
    (isRight.sorted_lastColumn positive (fun _ isRow => isRow.width) same2) defined (List.cons_ne_nil _ _)
  obtain ⟨start1,rows1,part1⟩ := isLeft.contiguous
  obtain ⟨start2,rows2,part2⟩ := isRight.contiguous
  have isRows1 : rows1 = (it1::left).map Iter.row := by rw [part1,map_row_iters]
  have isRows2 : rows2 = (it2::right).map Iter.row := by rw [part2,map_row_iters]
  have columns := columnCalls_shift positive (List.forall_mem_map.mpr isLeft.rows) (List.forall_mem_map.mpr isRight.rows)
    (List.forall_mem_map.mpr same1) (List.forall_mem_map.mpr same2) (by simp) start1 start2
  rw [← isRows1,← isRows2,← part1,← part2,isRows1,isRows2,List.map_map,List.map_map] at columns
  refine ⟨_,if_pos number,(calls.map _).trans (List.Perm.of_eq ?_)⟩
  rw [head_pos part1,head_pos part2]
  exact columns

theorem joinSame_takeWhile (same : it1.row.dropLast = it2.row.dropLast) :
    ∃ joined,joinSame ((it1::left).takeWhile (fun it => compareEqButLast it.row it2.row))
        ((it2::right).takeWhile (fun it => compareEqButLast it1.row it.row)) = some joined ∧
      (joined ++ expectedCalls ((it1::left).dropWhile (fun it => compareEqButLast it.row it2.row))
        ((it2::right).dropWhile (fun it => compareEqButLast it1.row it.row))).Perm (expectedCalls (it1::left) (it2::right)) := by
  have present : compareEqButLast it1.row it2.row = true := (compareEqButLast_iff _ _).mpr same
  have sameLeft := eq_of_mem_takeWhile (it1::left) (fun it => compareEqButLast_iff it.row it2.row)
  have sameRight := eq_of_mem_takeWhile (it2::right) (same_iff same)
  have input1 := (isLeft.split (fun it => compareEqButLast it.row it2.row)).1
  have input2 := (isRight.split (fun it => compareEqButLast it1.row it.row)).1
  have blocks := expectedCalls_blocks positive isLeft isRight same
  rw [List.takeWhile_cons,if_pos present] at sameLeft input1
  rw [List.takeWhile_cons,if_pos present] at sameRight input2
  obtain ⟨joined,isJoined,calls⟩ := joinSame_perm positive input1 input2 sameLeft sameRight
  rw [List.takeWhile_cons,if_pos present,List.takeWhile_cons,if_pos present] at blocks ⊢
  exact ⟨joined,isJoined,(calls.append_right _).trans blocks.symm⟩

end

omit [OrderBot Id] in
theorem skipLeft_cases (left : List (Iter (List Id))) (notLess : compareAllButLast it2.row it1.row = false) :
    ((it1::left).dropWhile (fun it => compareAllButLast it.row it2.row)).length ≤ left.length ∨
      (it1::left).dropWhile (fun it => compareAllButLast it.row it2.row) = it1::left ∧ it1.row.dropLast = it2.row.dropLast := by
  rw [List.dropWhile_cons]
  cases less : compareAllButLast it1.row it2.row with
  | true => exact Or.inl (List.dropWhile_sublist _).length_le
  | false =>
    rw [Bool.eq_false_iff,Ne,compareAllButLast_iff,not_lt] at less notLess
    exact Or.inr ⟨rfl,le_antisymm notLess less⟩

omit [LinearOrder Id] [OrderBot Id] in
theorem length_dropWhile_lt {it : Iter (List Id)} (its : List (Iter (List Id))) {p : Iter (List Id) → Bool} (passes : p it = true) :
    ((it::its).dropWhile p).length < (it::its).length := by
  rw [List.dropWhile_cons,if_pos passes,List.length_cons]
  exact Nat.lt_succ_of_le (List.dropWhile_sublist p).length_le

theorem joinBlocks_perm (positive : 0 < width) {fuel : Nat} (isLeft : Input (IsLeftRow width) left) (isRight : Input (IsRightRow width) right)
    (enough : left.length + right.length < fuel) (calls : List UndefJoin.Call) :
    ∃ result,joinBlocks fuel left right calls = some result ∧ result.Perm (calls ++ expectedCalls left right) := by
  induction fuel generalizing left right calls with
  | zero => omega
  | succ fuel ih =>
    cases left with
    | nil => exact ⟨calls,rfl,by simp [expectedCalls,nestedLoop]⟩
    | cons it1 left =>
      rw [joinBlocks,expectedCalls_skipRight positive isLeft isRight]
      have lengthRight := (List.dropWhile_sublist (fun it => compareAllButLast it.row it1.row) (l := right)).length_le
      have notLess := List.head?_dropWhile_not (fun it => compareAllButLast it.row it1.row) right
      replace isRight := (isRight.split (fun it => compareAllButLast it.row it1.row)).2
      generalize right.dropWhile (fun it => compareAllButLast it.row it1.row) = rest2 at *
      cases rest2 with
      | nil =>
        refine ⟨_,rfl,List.Perm.of_eq ?_⟩
        rw [expectedCalls_separate]
        intro a _ b inRight
        cases inRight
      | cons it2 rest2 =>
        dsimp only
        have skipped := expectedCalls_skipLeft positive isLeft isRight
        have shorter := skipLeft_cases left notLess
        replace isLeft := (isLeft.split (fun it => compareAllButLast it.row it2.row)).2
        generalize (it1::left).takeWhile (fun it => compareAllButLast it.row it2.row) = missing at *
        generalize (it1::left).dropWhile (fun it => compareAllButLast it.row it2.row) = rest1 at *
        cases rest1 with
        | nil =>
          refine ⟨_,rfl,(List.Perm.append_left calls ?_)⟩
          simpa [expectedCalls,nestedLoop] using skipped.symm
        | cons it1' rest1 =>
          dsimp only
          have prepend : ∀ result part : List UndefJoin.Call,result.Perm (calls ++ notFoundCalls missing ++ part) →
              part.Perm (expectedCalls (it1'::rest1) (it2::rest2)) → result.Perm (calls ++ expectedCalls (it1::left) (it2::rest2)) := by
            intro result part isResult isPart
            rw [List.append_assoc] at isResult
            exact isResult.trans ((skipped.trans (isPart.symm.append_left _)).symm.append_left calls)
          by_cases same : it1'.row.dropLast = it2.row.dropLast
          · have present : compareEqButLast it1'.row it2.row = true := (compareEqButLast_iff _ _).mpr same
            have nonempty : ((it1'::rest1).takeWhile (fun it => compareEqButLast it.row it2.row)).isEmpty = false := by
              rw [List.takeWhile_cons,if_pos present]
              rfl
            have length1 := length_dropWhile_lt rest1 (p := fun it => compareEqButLast it.row it2.row) present
            have length2 := length_dropWhile_lt rest2 (p := fun it => compareEqButLast it1'.row it.row) present
            have lengthLeft : (it1'::rest1).length ≤ left.length + 1 := by
              obtain shorter | ⟨unchanged,_⟩ := shorter
              · exact shorter.trans (Nat.le_succ _)
              · rw [unchanged,List.length_cons]
            simp only [List.length_cons] at enough lengthLeft lengthRight length1 length2
            obtain ⟨joined,isJoined,isPart⟩ := joinSame_takeWhile positive isLeft isRight same
            obtain ⟨result,run,isResult⟩ := ih (isLeft.split (fun it => compareEqButLast it.row it2.row)).2
              (isRight.split (fun it => compareEqButLast it1'.row it.row)).2 (by omega) (calls ++ notFoundCalls missing ++ joined)
            rw [List.append_assoc] at isResult
            refine ⟨result,?_,prepend result _ isResult isPart⟩
            rw [nonempty,if_neg Bool.false_ne_true,isJoined]
            exact run
          · have different : compareEqButLast it1'.row it2.row = false := by rwa [Bool.eq_false_iff,Ne,compareEqButLast_iff]
            have lengthLeft : (it1'::rest1).length ≤ left.length := by
              obtain shorter | ⟨unchanged,sameFirst⟩ := shorter
              · exact shorter
              · rw [List.cons.injEq] at unchanged
                rw [unchanged.1] at same
                exact absurd sameFirst same
            have empty : (it1'::rest1).takeWhile (fun it => compareEqButLast it.row it2.row) = [] := by
              rw [List.takeWhile_cons_of_neg]
              simpa using different
            simp only [List.length_cons] at enough lengthLeft lengthRight
            obtain ⟨result,run,isResult⟩ := ih isLeft isRight (by simp only [List.length_cons]; omega) (calls ++ notFoundCalls missing)
            refine ⟨result,?_,prepend result _ isResult (List.Perm.refl _)⟩
            rw [empty,List.isEmpty_nil,if_pos rfl]
            exact run

end Loop

section General
variable {width : Nat} {left right : List (List Id)} {compareWithNext : Id → Id → Option Ordering}

theorem column_mem {row : List Id} {j : Nat} (inside : j < row.length) : column row j ∈ row := by
  rw [column,List.getD_eq_getElem?_getD,List.getElem?_eq_getElem inside]
  exact List.getElem_mem inside

theorem searchable_of_defined {row : List Id} {range : List (Iter (List Id))} (small : row.length ≤ 32)
    (widths : ∀ it ∈ range,it.row.length = row.length) (defined : ⊥ ∉ row ∨ ∀ it ∈ range,⊥ ∉ it.row) :
    Searchable (⟨id,⊥,compareWithNext⟩ : IdColumns Id Id) row range := by
  intro _
  have atMost : numDefinedColumns (⟨id,⊥,compareWithNext⟩ : IdColumns Id Id) row ≤ row.length := Nat.sub_le _ _
  split
  next => omega
  next undefs =>
    refine ⟨by omega,?_⟩
    rintro it member ⟨_,j,below,undef⟩
    exfalso
    rcases defined with rowDefined | rangeDefined
    · have isUndef := (definedColumns (⟨id,⊥,compareWithNext⟩ : IdColumns Id Id) row).1 _ (le_refl _)
      rw [IdColumns.values,List.map_id] at isUndef
      exact rowDefined (isUndef ▸ column_mem (lt_of_le_of_ne atMost undefs))
    · rw [IdColumns.values,List.map_id] at undef
      exact rangeDefined it member (undef ▸ column_mem (by rw [widths it member]; omega))

section
variable (lawful : Lawful (⟨id,⊥,compareWithNext⟩ : IdColumns Id Id) (fun _ => True)) (small : width ≤ 32)
include lawful small

/-- What `findSmallerUndefRanges` yields in a join if the row or the searched input has no UNDEF values. -/
theorem smaller_findSmallerUndefRangesOfRows
    {rows : List (List Id)} (widths : ∀ row ∈ rows,row.length = width) (sorted : rows.Pairwise (· ≤ ·)) {it : Iter (List Id)}
    (itWidth : it.row.length = width) (defined : ⊥ ∉ it.row ∨ ∀ row ∈ rows,⊥ ∉ row) {range : List (Iter (List Id))}
    (isPrefix : range <+: iters 0 rows) (all : ∀ other ∈ iters 0 rows,other.row < it.row → other ∈ range) :
    (smaller (some (findSmallerUndefRangesOfRows compareWithNext)) it range).Perm ((iters 0 rows).filter (smallerCompatible · it)) := by
  have rangeWidths : ∀ other ∈ range,other.row.length = it.row.length :=
    fun other member => (widths _ (row_mem (isPrefix.subset member))).trans itWidth.symm
  have isRange : RangeOf (⟨id,⊥,compareWithNext⟩ : IdColumns Id Id) (fun _ => True) it.row.length range := by
    refine ⟨rangeWidths,fun _ _ _ _ => trivial,?_,(nodup_iters 0 rows).sublist isPrefix.sublist⟩
    simp only [IdColumns.values,List.map_id]
    exact (sorted_iters 0 rows sorted).sublist isPrefix.sublist
  have searchable : Searchable (⟨id,⊥,compareWithNext⟩ : IdColumns Id Id) it.row range := searchable_of_defined (itWidth.trans_le small) rangeWidths
    (defined.imp_right (fun rowsDefined other member => rowsDefined _ (row_mem (isPrefix.subset member))))
  obtain ⟨found,flag,result,nodup,isFound⟩ := (exact_iff_searchable lawful isRange (fun _ _ => trivial)).mpr searchable
  simp only [IdColumns.values,List.map_id] at isFound
  rw [smaller,findSmallerUndefRangesOfRows,result,Option.getD_some]
  apply (List.perm_ext_iff_of_nodup (nodup.filter _) ((nodup_iters 0 rows).filter _)).mpr
  intro other
  simp only [List.mem_filter,isFound,smallerCompatible,Bool.and_eq_true,decide_eq_true_eq,compatible_comm it.row]
  constructor
  · rintro ⟨⟨member,less,agree⟩,_⟩
    exact ⟨isPrefix.subset member,less,agree⟩
  · rintro ⟨member,less,agree⟩
    exact ⟨⟨all other member less,less,agree⟩,less⟩

theorem exactCalls_findSmallerUndefRangesOfRows
    (isLeft : ∀ row ∈ left,IsLeftRow width row) (isRight : ∀ row ∈ right,IsRightRow width row) (sortedLeft : left.Pairwise (· ≤ ·))
    (sortedRight : right.Pairwise (· ≤ ·)) :
    ExactCalls width left right (some (findSmallerUndefRangesOfRows compareWithNext)) (some (findSmallerUndefRangesOfRows compareWithNext)) where
  widthLeft := fun row member => (isLeft row member).width
  widthRight := fun row member => (isRight row member).width
  sortedLeft := sortedLeft
  sortedRight := sortedRight
  noop := nofun
  foundLeft := by
    intro it member range isPrefix all
    have isRow := isRight _ (row_mem member)
    exact smaller_findSmallerUndefRangesOfRows lawful small (fun row inLeft => (isLeft row inLeft).width) sortedLeft isRow.width (Or.inl isRow.defined)
      isPrefix all
  foundRight := by
    intro it member range isPrefix all
    have isRow := isLeft _ (row_mem member)
    exact smaller_findSmallerUndefRangesOfRows lawful small (fun row inRight => (isRight row inRight).width) sortedRight isRow.width
      (Or.inr (fun row inRight => (isRight row inRight).defined)) isPrefix all

end

/-- `specialOptionalJoin` is the OPTIONAL join: its check does not fail, every compatible pair is reported once and every row of the left input
without a compatible row is reported once. The calls are those of the general join, with callbacks that meet their contract and with
`findSmallerUndefRanges`, whose shifts are defined for up to 32 columns. -/
theorem specialOptionalJoin_correct (positive : 0 < width) (isLeft : ∀ row ∈ left,IsLeftRow width row) (isRight : ∀ row ∈ right,IsRightRow width row)
    (sortedLeft : left.Pairwise (· ≤ ·)) (sortedRight : right.Pairwise (· ≤ ·)) :
    ∃ calls,specialOptionalJoin left right = some calls ∧
      (∀ i j,calls.count (.compatibleRowAction i j) = if compatibleAt left right i j then 1 else 0) ∧
      (∀ i,calls.count (.elFromFirstNotFoundAction i) = if unmatchedAt left right i then 1 else 0) ∧
      (∀ findLeft findRight,Valid width left right findLeft findRight → calls.Perm (join hasUndef findLeft findRight true left right)) ∧
      ∀ compareWithNext,Lawful (⟨id,⊥,compareWithNext⟩ : IdColumns Id Id) (fun _ => True) → width ≤ 32 →
        calls.Perm (join hasUndef (some (findSmallerUndefRangesOfRows compareWithNext)) (some (findSmallerUndefRangesOfRows compareWithNext)) true
          left right) := by
  have inputLeft : Input (IsLeftRow width) (iters 0 left) :=
    ⟨fun it member => isLeft _ (row_mem member),sorted_iters 0 left sortedLeft,0,left,rfl⟩
  have inputRight : Input (IsRightRow width) (iters 0 right) :=
    ⟨fun it member => isRight _ (row_mem member),sorted_iters 0 right sortedRight,0,right,rfl⟩
  obtain ⟨calls,run,isExpected⟩ := joinBlocks_perm positive inputLeft inputRight (by
    simp only [iters,List.length_map,List.length_zipIdx]
    exact Nat.lt_succ_self _) []
  rw [List.nil_append] at isExpected
  have general : ∀ {findLeft findRight},ExactCalls width left right findLeft findRight →
      calls.Perm (join hasUndef findLeft findRight true left right) :=
    fun exactCalls => isExpected.trans (List.Perm.symm (@join_perm Id _ _ width left right _ _ true exactCalls))
  have counts := count_calls left right true isExpected
  refine ⟨calls,run,fun i j => (counts i j).1,fun i => ?_,fun _ _ valid => general valid.exactCalls,?_⟩
  · simpa using (counts i 0).2
  · intro compareWithNext lawful small
    exact general (exactCalls_findSmallerUndefRangesOfRows lawful small isLeft isRight sortedLeft sortedRight)

/-- A row with an UNDEF value and a row whose first column is not found. -/
theorem specialOptionalJoin_correct_columns :
    ∃ calls,specialOptionalJoin [[1,0],[1,5],[2,5]] [[1,4],[1,5]] = some calls ∧
      (∀ i j,calls.count (.compatibleRowAction i j) = if compatibleAt [[1,0],[1,5],[2,5]] [[1,4],[1,5]] i j then 1 else 0) ∧
      (∀ i,calls.count (.elFromFirstNotFoundAction i) = if unmatchedAt [[1,0],[1,5],[2,5]] [[1,4],[1,5]] i then 1 else 0) ∧
      (∀ findLeft findRight,Valid 2 [[1,0],[1,5],[2,5]] [[1,4],[1,5]] findLeft findRight →
        calls.Perm (join hasUndef findLeft findRight true [[1,0],[1,5],[2,5]] [[1,4],[1,5]])) ∧
      ∀ compareWithNext,Lawful (⟨id,⊥,compareWithNext⟩ : IdColumns Nat Nat) (fun _ => True) → 2 ≤ 32 →
        calls.Perm (join hasUndef (some (findSmallerUndefRangesOfRows compareWithNext)) (some (findSmallerUndefRangesOfRows compareWithNext)) true
          [[1,0],[1,5],[2,5]] [[1,4],[1,5]]) := by
  have widths : ∀ row ∈ [[1,0],[1,5],[2,5]],row.length = 2 := by decide
  have definedFirst : ∀ row ∈ [[1,0],[1,5],[2,5]],⊥ ∉ row.dropLast := by decide
  have widthsRight : ∀ row ∈ [[1,4],[1,5]],row.length = 2 := by decide
  have defined : ∀ row ∈ [[1,4],[1,5]],⊥ ∉ row := by decide
  exact specialOptionalJoin_correct (by decide) (fun row member => ⟨widths row member,definedFirst row member⟩)
    (fun row member => ⟨widthsRight row member,defined row member⟩) (by decide) (by decide)

end General
end Qlever.SpecialOptionalJoin
