import Qlever.SmallerUndefRangesExact
import Qlever.UndefJoin

/-! The number that `zipperJoinWithUndef` returns says how far the rows of its result are sorted by the join columns.
-/
namespace Qlever.UndefJoin
open ZipperJoin FindUndefRanges Library SmallerUndefRanges List

section Flag
variable {ρ : Type} [LinearOrder ρ] (rowHasUndef : ρ → Bool) (findLeft findRight : Option (FindUndef ρ)) (optional : Bool)

/-- Whether a visit sets `outOfOrderFound`. -/
def flagOf : Visit ρ → Bool
  | .right it range _ => findRight.any (fun find => (find it.row range).2)
  | .left it range => findLeft.any (fun find => (find it.row range).2)
  | .same _ _ => false

section
omit [LinearOrder ρ]

theorem outOfOrderFound_foldl (its : List (Iter ρ)) (body : Iter ρ → State (List Call) → State (List Call))
    (keeps : ∀ it s,(body it s).outOfOrderFound = s.outOfOrderFound) (s : State (List Call)) :
    (its.foldl (fun s it => body it s) s).outOfOrderFound = s.outOfOrderFound := by
  induction its generalizing s with
  | nil => rfl
  | cons it its ih => rw [foldl_cons,ih,keeps]

theorem outOfOrderFound_cover (it : Iter ρ) (s : State (List Call)) :
    (cover (callbacks rowHasUndef findLeft findRight optional) it s).outOfOrderFound = s.outOfOrderFound := by
  rw [cover]
  split <;> rfl

theorem outOfOrderFound_notFound (it : Iter ρ) (s : State (List Call)) :
    (notFound (callbacks rowHasUndef findLeft findRight optional) it s).outOfOrderFound = s.outOfOrderFound := by
  rw [notFound]
  split <;> rfl

theorem outOfOrderFound_finder (find : FindUndef ρ) (row : ρ) (range : List (Iter ρ)) {body : Iter ρ → State (List Call) → State (List Call)}
    (keeps : ∀ it s,(body it s).outOfOrderFound = s.outOfOrderFound) (s : State (List Call)) :
    (finder find row range body s).outOfOrderFound = (s.outOfOrderFound || (find row range).2) :=
  outOfOrderFound_foldl _ body keeps _

end

theorem visit_outOfOrderFound (v : Visit ρ) (s : State (List Call)) :
    (visit (callbacks rowHasUndef findLeft findRight optional) s v).outOfOrderFound = (s.outOfOrderFound || flagOf findLeft findRight v) := by
  cases v with
  | right it range hasNoMatch =>
    cases findRight with
    | none =>
      have unfolded : visit (callbacks rowHasUndef findLeft none optional) s (.right it range hasNoMatch) =
          if hasNoMatch && containsNoUndefined (callbacks rowHasUndef findLeft none optional) it.row then
            cover (callbacks rowHasUndef findLeft none optional) it (notFound (callbacks rowHasUndef findLeft none optional) it s) else s := rfl
      rw [unfolded,flagOf,Option.any_none,Bool.or_false]
      split
      · rw [outOfOrderFound_cover,outOfOrderFound_notFound]
      · rfl
    | some find =>
      have unfolded : visit (callbacks rowHasUndef findLeft (some find) optional) s (.right it range hasNoMatch) =
          let t := finder find it.row range (fun other s => if other.row < it.row then
            act (callbacks rowHasUndef findLeft (some find) optional) it other {s with compatibleWasFound := true} else s)
            {s with compatibleWasFound := false}
          if t.compatibleWasFound then cover (callbacks rowHasUndef findLeft (some find) optional) it t
          else if hasNoMatch && containsNoUndefined (callbacks rowHasUndef findLeft (some find) optional) it.row then
            cover (callbacks rowHasUndef findLeft (some find) optional) it (notFound (callbacks rowHasUndef findLeft (some find) optional) it t)
          else t := rfl
      rw [unfolded,flagOf,Option.any_some]
      have found := outOfOrderFound_finder find it.row range (fun other s => apply_ite State.outOfOrderFound (other.row < it.row)
        (act (callbacks rowHasUndef findLeft (some find) optional) it other {s with compatibleWasFound := true}) s |>.trans (ite_self _))
        {s with compatibleWasFound := false}
      simp only
      split
      · rw [outOfOrderFound_cover]
        exact found
      · split
        · rw [outOfOrderFound_cover,outOfOrderFound_notFound]
          exact found
        · exact found
  | left it range =>
    cases findLeft with
    | none => exact (Bool.or_false _).symm
    | some find =>
      apply outOfOrderFound_finder find it.row range
      intro other s
      split
      · exact outOfOrderFound_cover rowHasUndef (some find) findRight optional other _
      · rfl
  | same it others =>
    have pairs := outOfOrderFound_foldl others (fun other s => act (callbacks rowHasUndef findLeft findRight optional) it other s)
      (fun _ _ => rfl) (cover (callbacks rowHasUndef findLeft findRight optional) it s)
    rw [outOfOrderFound_cover] at pairs
    exact pairs.trans (Bool.or_false _).symm

theorem visits_outOfOrderFound (visits : List (Visit ρ)) (s : State (List Call)) :
    (visits.foldl (visit (callbacks rowHasUndef findLeft findRight optional)) s).outOfOrderFound =
      (s.outOfOrderFound || visits.any (flagOf findLeft findRight)) := by
  induction visits generalizing s with
  | nil => simp
  | cons v visits ih => rw [foldl_cons,ih,visit_outOfOrderFound,any_cons,Bool.or_assoc]

end Flag

variable {Id : Type} [LinearOrder Id] [OrderBot Id]

def mergedKey (left right : List Id) : List Id := zipWith (fun x y => if x = ⊥ then y else x) left right

def Call.key (left right : List (List Id)) : Call → List Id
  | compatibleRowAction i j => mergedKey (left.getD i []) (right.getD j [])
  | elFromFirstNotFoundAction i => left.getD i []

/-- The generic function of `FindUndefRanges.h` as a callback. Nothing is said about the order of a result whose computation is undefined. -/
def findSmallerUndefRangesOfRows (compareWithNext : Id → Id → Option Ordering) : FindUndef (List Id) :=
  fun row range => (SmallerUndefRanges.findSmallerUndefRanges ⟨id,⊥,compareWithNext⟩ row range).getD ([],true)

section Keys
variable {a b : List Id}

theorem mergedKey_left (width : a.length = b.length) (defined : ⊥ ∉ a) : mergedKey a b = a := by
  induction a generalizing b with
  | nil => rfl
  | cons x a ih =>
    cases b with
    | nil => simp at width
    | cons y b =>
      rw [mem_cons,not_or] at defined
      have rest := ih (b := b) (by simpa using width) defined.2
      rw [mergedKey] at rest ⊢
      rw [zipWith_cons_cons,if_neg (Ne.symm defined.1),rest]

theorem mergedKey_right (width : a.length = b.length) (defined : ⊥ ∉ b) (agree : compatible a b = true) : mergedKey a b = b := by
  induction a generalizing b with
  | nil => exact (length_eq_zero_iff.mp width.symm).symm
  | cons x a ih =>
    cases b with
    | nil => simp at width
    | cons y b =>
      rw [mem_cons,not_or] at defined
      simp only [FindUndefRanges.compatible,zip_cons_cons,all_cons,Bool.and_eq_true,Bool.or_eq_true,decide_eq_true_eq] at agree
      have rest := ih (b := b) (by simpa using width) defined.2 agree.2
      rw [mergedKey] at rest ⊢
      rw [zipWith_cons_cons,rest]
      rcases agree.1 with (undef | undef) | equal
      · rw [if_pos undef]
      · exact absurd undef.symm defined.1
      · rw [equal,ite_self]

theorem mergedKey_self (a : List Id) : mergedKey a a = a := by
  induction a with
  | nil => rfl
  | cons x a ih =>
    rw [mergedKey] at ih ⊢
    rw [zipWith_cons_cons,ih,ite_self]

end Keys

/-- What is found without setting `resultMightBeUnsorted`: the row has no UNDEF, so it is the merged row. -/
def Reports (width : Nat) (find : FindUndef (List Id)) : Prop :=
  ∀ row range,row.length = width → (∀ it ∈ range,it.row.length = width) → Sorted range → range.Nodup → (find row range).2 = false →
    ∀ it ∈ (find row range).1,it ∈ range ∧ ⊥ ∉ row ∧ compatible it.row row = true

theorem found_unset {α κ : Type} [LinearOrder κ] [OrderBot κ] {ids : IdColumns α κ} {row : List α} {range found : List (Iter (List α))}
    (result : SmallerUndefRanges.findSmallerUndefRanges ids row range = some (found,false)) :
    found = [] ∨ row.any ids.isUndefined = false ∧ findSmallerUndefRangesForRowsWithoutUndef ids row range = some found := by
  simp only [SmallerUndefRanges.findSmallerUndefRanges] at result
  split at result
  next =>
    simp only [findSmallerUndefRangesForRowsOfIds,Option.some.injEq,Prod.mk.injEq,Bool.not_eq_false',List.isEmpty_iff] at result
    left
    rw [← result.1,result.2]
  next notArbitrary =>
    split at result
    next whole =>
      right
      rw [whole,drop_zero,any_reverse,Bool.not_eq_true] at notArbitrary
      obtain ⟨_,isFound,same⟩ := Option.map_eq_some_iff.mp result
      cases same
      exact ⟨notArbitrary,isFound⟩
    next =>
      left
      obtain ⟨_,_,result⟩ := Option.bind_eq_some_iff.mp result
      obtain ⟨ranges,_,same⟩ := Option.bind_eq_some_iff.mp result
      have pair := Option.some.inj same
      rw [Prod.mk.injEq,Bool.not_eq_false',List.isEmpty_iff] at pair
      rw [← pair.1,pair.2,flatten_nil]

theorem findSmallerUndefRangesOfRows_reports (compareWithNext : Id → Id → Option Ordering) (width : Nat) :
    Reports width (findSmallerUndefRangesOfRows compareWithNext) := by
  intro row range rowWidth widths sorted nodup unset it member
  have isRange : RangeOf (⟨id,⊥,compareWithNext⟩ : IdColumns Id Id) (fun _ => True) row.length range := by
    refine ⟨fun it member => (widths it member).trans rowWidth.symm,fun _ _ _ _ => trivial,?_,nodup⟩
    simp only [IdColumns.values,map_id]
    exact sorted
  rw [findSmallerUndefRangesOfRows] at unset member
  cases result : SmallerUndefRanges.findSmallerUndefRanges (⟨id,⊥,compareWithNext⟩ : IdColumns Id Id) row range with
  | none =>
    rw [result] at unset
    cases unset
  | some pair =>
    obtain ⟨found,flag⟩ := pair
    rw [result,Option.getD_some] at unset member
    cases unset
    rcases found_unset result with none | ⟨defined,isFound⟩
    · rw [none] at member
      cases member
    · have noUndef : ⊥ ∉ row := by
        intro isUndef
        exact any_eq_false.mp defined ⊥ isUndef (decide_eq_true rfl)
      rw [withoutUndef_eq isRange] at isFound
      split at isFound
      next =>
        cases isFound
        obtain ⟨i,_,inSlice⟩ := mem_flatMap.mp member
        rw [mem_filter,decide_eq_true_eq] at inSlice
        refine ⟨inSlice.1,noUndef,?_⟩
        have same : it.row = getIthMask (⟨id,⊥,compareWithNext⟩ : IdColumns Id Id) row row.length i := by
          simpa only [IdColumns.values,map_id] using inSlice.2
        rw [compatible_iff_columns (by rw [same,length_getIthMask])]
        intro j
        have mask := @column_mask Id Id _ _ ⟨id,⊥,compareWithNext⟩ row row.length rfl i j
        simp only [IdColumns.values,map_id,← same] at mask
        rw [mask]
        split
        next => exact Or.inl rfl
        next => exact Or.inr (Or.inr rfl)
      next => cases isFound

section Order
variable {width : Nat} {left right : List (List Id)} {findLeft findRight : Option (FindUndef (List Id))} {optional : Bool}

/-- Sorted rows of `width` join columns on both sides, and callbacks that set the flag. -/
structure Reported (width : Nat) (left right : List (List Id)) (findLeft findRight : Option (FindUndef (List Id))) : Prop where
  widthLeft : ∀ row ∈ left,row.length = width
  widthRight : ∀ row ∈ right,row.length = width
  sortedLeft : left.Pairwise (· ≤ ·)
  sortedRight : right.Pairwise (· ≤ ·)
  left : ∀ find ∈ findLeft,Reports width find
  right : ∀ find ∈ findRight,Reports width find

variable {rows : List (List Id)} {it : Iter (List Id)}

section
omit [LinearOrder Id] [OrderBot Id]

theorem getD_pos (member : it ∈ iters 0 rows) : rows.getD it.pos [] = it.row := by
  rw [getD_eq_getElem?_getD,(mem_iters rows it).mp member,Option.getD_some]

theorem row_mem (member : it ∈ iters 0 rows) : it.row ∈ rows :=
  mem_of_getElem? ((mem_iters rows it).mp member)

end

theorem smaller_unset {find : Option (FindUndef (List Id))} (reports : ∀ callback ∈ find,Reports width callback)
    (widths : ∀ row ∈ rows,row.length = width) (sorted : rows.Pairwise (· ≤ ·)) (itWidth : it.row.length = width)
    {range : List (Iter (List Id))} (isPrefix : range <+: iters 0 rows) (unset : find.any (fun find => (find it.row range).2) = false) :
    ∀ other ∈ smaller find it range,other ∈ iters 0 rows ∧ ⊥ ∉ it.row ∧ compatible other.row it.row = true := by
  intro other member
  cases find with
  | none => cases member
  | some find =>
    obtain ⟨inRange,defined,agree⟩ := reports find rfl it.row range itWidth (fun other inside => widths _ (row_mem (isPrefix.subset inside)))
      ((sorted_iters 0 rows sorted).sublist isPrefix.sublist) ((nodup_iters 0 rows).sublist isPrefix.sublist) unset other
      (mem_filter.mp member).1
    exact ⟨isPrefix.subset inRange,defined,agree⟩

section
variable (reported : Reported width left right findLeft findRight)
include reported

theorem key_callsOf {visits : List (Visit (List Id))}
    (complete : Complete (iters 0 left) (iters 0 right) visits) {v : Visit (List Id)} (member : v ∈ visits)
    (unset : flagOf findLeft findRight v = false) :
    ∀ call ∈ callsOf hasUndef findLeft findRight optional v,call.key left right = v.row := by
  intro call isCall
  have sound := complete.sound v member
  cases v with
  | right it range hasNoMatch =>
    have inLeft := complete.mem_left member it rfl
    have itWidth := reported.widthLeft _ (row_mem inLeft)
    have found := smaller_unset reported.right reported.widthRight reported.sortedRight itWidth sound.1 unset
    rw [callsOf,mem_append,List.mem_map] at isCall
    rcases isCall with ⟨other,isSmaller,rfl⟩ | notFound
    · obtain ⟨inRight,defined,_⟩ := found other isSmaller
      rw [Call.key,getD_pos inLeft,getD_pos inRight]
      exact mergedKey_left (by rw [itWidth,reported.widthRight _ (row_mem inRight)]) defined
    · split at notFound
      next =>
        rw [mem_singleton.mp notFound]
        exact getD_pos inLeft
      next => cases notFound
  | left it range =>
    have inRight := complete.mem_right member it rfl
    have itWidth := reported.widthRight _ (row_mem inRight)
    have found := smaller_unset reported.left reported.widthLeft reported.sortedLeft itWidth sound.1 unset
    rw [callsOf,List.mem_map] at isCall
    obtain ⟨other,isSmaller,rfl⟩ := isCall
    obtain ⟨inLeft,defined,agree⟩ := found other isSmaller
    rw [Call.key,getD_pos inLeft,getD_pos inRight]
    exact mergedKey_right (by rw [itWidth,reported.widthLeft _ (row_mem inLeft)]) defined agree
  | same it others =>
    have inLeft : it ∈ iters 0 left := by
      have isSame : it ∈ visits.filterMap Visit.same? := mem_filterMap.mpr ⟨_,member,rfl⟩
      rw [complete.sames] at isSame
      exact (mem_filter.mp isSame).1
    have equal : others = (iters 0 right).filter (equalRow · it) := sound
    rw [callsOf,List.mem_map] at isCall
    obtain ⟨other,isSame,rfl⟩ := isCall
    rw [equal,mem_filter] at isSame
    have sameRow : other.row = it.row := by simpa [equalRow] using isSame.2
    rw [Call.key,getD_pos inLeft,getD_pos isSame.1,sameRow]
    exact mergedKey_self it.row

theorem join_unset (s : State (List Call))
    (run : mergeAll (callbacks hasUndef findLeft findRight optional) (iters 0 left) (iters 0 right)
      (initialState (callbacks hasUndef findLeft findRight optional) (iters 0 left) []) = s) (unset : s.outOfOrderFound = false) :
    (s.target.map (Call.key left right)).Pairwise (· ≤ ·) ∧
      (optional = true → (uncovered (iters 0 left) s).Sublist (iters 0 left)) := by
  obtain ⟨visits,isRun,complete⟩ := mergeAll_visits (callbacks hasUndef findLeft findRight optional)
    (sorted_iters 0 left reported.sortedLeft) (sorted_iters 0 right reported.sortedRight)
    (initialState (callbacks hasUndef findLeft findRight optional) (iters 0 left) [])
  obtain ⟨target,covered⟩ := visits_effect hasUndef findLeft findRight optional visits
    (initialState (callbacks hasUndef findLeft findRight optional) (iters 0 left) [])
  have flags := visits_outOfOrderFound hasUndef findLeft findRight optional visits
    (initialState (callbacks hasUndef findLeft findRight optional) (iters 0 left) [])
  rw [← isRun,run] at target covered flags
  rw [unset] at flags
  have unsetFlags := any_eq_false.mp (Bool.or_eq_false_iff.mp flags.symm).2
  constructor
  · have calls : s.target = visits.flatMap (callsOf hasUndef findLeft findRight optional) := target
    have keys : ∀ v ∈ visits,∀ call ∈ callsOf hasUndef findLeft findRight optional v,call.key left right = v.row := fun v member =>
      key_callsOf reported complete member (by simpa using unsetFlags v member)
    rw [calls,map_flatMap,pairwise_flatMap]
    constructor
    · intro v member
      rw [pairwise_map]
      apply pairwise_of_forall_mem_list
      intro call isCall call' isCall'
      rw [keys v member call isCall,keys v member call' isCall']
    · apply complete.ordered.imp_of_mem
      intro v w isV isW le key isKey key' isKey'
      obtain ⟨call,isCall,rfl⟩ := List.mem_map.mp isKey
      obtain ⟨call',isCall',rfl⟩ := List.mem_map.mp isKey'
      rw [keys v isV call isCall,keys w isW call' isCall']
      exact le
  · rintro rfl
    rw [uncovered_eq 0 left _ _ covered]
    exact filter_sublist

theorem join_parts {calls : List Call} {numOutOfOrder : Nat}
    (result : zipperJoinWithUndef (callbacks hasUndef findLeft findRight optional) (iters 0 left) (iters 0 right) [] = (calls,numOutOfOrder))
    (notMax : numOutOfOrder ≠ maxSizeT) :
    ∃ first second,calls.map (Call.key left right) = first ++ second ∧ second.length = numOutOfOrder ∧ first.Pairwise (· ≤ ·) ∧
      second.Pairwise (· ≤ ·) := by
  rw [zipperJoinWithUndef] at result
  generalize run : mergeAll (callbacks hasUndef findLeft findRight optional) (iters 0 left) (iters 0 right)
    (initialState (callbacks hasUndef findLeft findRight optional) (iters 0 left) []) = s at result
  simp only [Prod.mk.injEq] at result
  obtain ⟨isCalls,isNumber⟩ := result
  have unset : s.outOfOrderFound = false := by
    cases set : s.outOfOrderFound with
    | false => rfl
    | true => exact absurd (by rw [← isNumber,set,if_pos rfl]) notMax
  obtain ⟨sorted,atEnd⟩ := join_unset reported s run unset
  rw [unset,if_neg Bool.false_ne_true] at isNumber
  cases optional with
  | false =>
    refine ⟨s.target.map (Call.key left right),[],?_,isNumber,sorted,List.Pairwise.nil⟩
    rw [← isCalls,append_nil]
    rfl
  | true =>
    have present : (callbacks hasUndef findLeft findRight true).hasNotFoundAction = true := rfl
    rw [present,if_pos rfl] at isCalls isNumber
    rw [foldl_notFound] at isCalls
    have sublist := atEnd rfl
    have rows : ((uncovered (iters 0 left) s).map notFoundCall).map (Call.key left right) = (uncovered (iters 0 left) s).map Iter.row := by
      rw [map_map]
      apply map_congr_left
      intro it member
      exact getD_pos (sublist.subset member)
    refine ⟨s.target.map (Call.key left right),(uncovered (iters 0 left) s).map Iter.row,?_,?_,sorted,?_⟩
    · rw [← isCalls,map_append,rows]
    · rw [length_map,isNumber]
    · rw [pairwise_map]
      exact (sorted_iters 0 left reported.sortedLeft).sublist sublist

end

/-- If the join returns 0, its calls are sorted by the join columns. If it returns less than the largest number, they consist of two sorted parts of
which the second one has this length, and merging the two parts sorts them. -/
theorem zipperJoinWithUndef_sorted (compareWithNext : Id → Id → Option Ordering) (undefLeft undefRight optional : Bool) {left right : List (List Id)}
    {width : Nat} (widthLeft : ∀ row ∈ left,row.length = width) (widthRight : ∀ row ∈ right,row.length = width)
    (sortedLeft : left.Pairwise (· ≤ ·)) (sortedRight : right.Pairwise (· ≤ ·)) {calls : List Call} {numOutOfOrder : Nat}
    (result : zipperJoinWithUndef (callbacks hasUndef (if undefLeft then some (findSmallerUndefRangesOfRows compareWithNext) else none)
      (if undefRight then some (findSmallerUndefRangesOfRows compareWithNext) else none) optional) (iters 0 left) (iters 0 right) [] =
        (calls,numOutOfOrder)) :
    (numOutOfOrder = 0 → (calls.map (Call.key left right)).Pairwise (· ≤ ·)) ∧
      (0 < numOutOfOrder → numOutOfOrder < maxSizeT → ∃ first second,calls.map (Call.key left right) = first ++ second ∧
        second.length = numOutOfOrder ∧ first.Pairwise (· ≤ ·) ∧ second.Pairwise (· ≤ ·) ∧ (first.merge second (· ≤ ·)).Pairwise (· ≤ ·)) := by
  have reported : Reported width left right (if undefLeft then some (findSmallerUndefRangesOfRows compareWithNext) else none)
      (if undefRight then some (findSmallerUndefRangesOfRows compareWithNext) else none) := by
    refine ⟨widthLeft,widthRight,sortedLeft,sortedRight,?_,?_⟩
    all_goals
      intro find member
      rw [Option.mem_ite_none_right,Option.mem_some] at member
      rw [← member.2]
      exact findSmallerUndefRangesOfRows_reports compareWithNext width
  constructor
  · intro isZero
    obtain ⟨first,second,keys,length,sortedFirst,_⟩ := join_parts reported result (by rw [isZero]; decide)
    rw [isZero,length_eq_zero_iff] at length
    rw [keys,length,append_nil]
    exact sortedFirst
  · intro _ notMax
    obtain ⟨first,second,keys,length,sortedFirst,sortedSecond⟩ := join_parts reported result notMax.ne
    exact ⟨first,second,keys,length,sortedFirst,sortedSecond,sortedFirst.merge sortedSecond⟩

/-- An OPTIONAL join of an UNDEF row and a defined row with an empty input. -/
theorem zipperJoinWithUndef_sorted_emptyRight : ∃ first second : List (List Nat),
    ([.elFromFirstNotFoundAction 1,.elFromFirstNotFoundAction 0] : List Call).map (Call.key [[0],[3]] []) = first ++ second ∧
      second.length = 1 ∧ first.Pairwise (· ≤ ·) ∧ second.Pairwise (· ≤ ·) ∧ (first.merge second (· ≤ ·)).Pairwise (· ≤ ·) :=
  (@zipperJoinWithUndef_sorted Nat _ _ (fun _ _ => none) true false true [[0],[3]] [] 1 (by decide) (by decide) (by decide) (by decide) _ _
    rfl).2 (by decide) (by decide)

end Order
end Qlever.UndefJoin
