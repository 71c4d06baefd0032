import Qlever.Library.BinarySearch
import Qlever.Library.NestedLoop
import Qlever.ZipperJoinVisits

/-! The join `gallopingJoin` of a small and a large input without UNDEF values. `checkCancellation` is left out. A read behind the end of the
larger input is a failure.
-/
namespace Qlever.GallopingJoin
open ZipperJoin Library List

inductive Call
  | action (small large : Nat)
  | elementFromSmallerNotFoundAction (small : Nat)
  deriving DecidableEq, Repr

variable {ρ : Type} [LinearOrder ρ] (larger : List (Iter ρ)) (hasNotFoundAction : Bool)

/-- The loop of the exponential search, with `step = 2 ^ exponent`. -/
def exponentialSearch (itS : ρ) (lower itL exponent : Nat) : Option (Nat × Nat) :=
  match _read : larger[itL]? with
  | none => none
  | some element =>
    if element.row < itS then
      if larger.length ≤ itL + 2 ^ exponent then some (itL,larger.length) else exponentialSearch itS itL (itL + 2 ^ exponent) (exponent + 1)
    else some (lower,itL + 1)
termination_by larger.length - itL
decreasing_by
  have inside := (List.getElem?_eq_some_iff.mp _read).1
  have step := Nat.two_pow_pos exponent
  omega

def lowerBound (needle : ρ) (lower upper : Nat) : Option Nat :=
  bisect (fun i => larger[i]?.map (fun element => decide (element.row < needle))) lower (upper - lower)

section
omit [LinearOrder ρ]

def notFoundCalls (its : List (Iter ρ)) : List Call :=
  if hasNotFoundAction then its.map (fun it => .elementFromSmallerNotFoundAction it.pos) else []

def actionCalls (same : List (Iter ρ)) (it : Iter ρ) : List Call := same.map (fun innerItLarge => .action it.pos innerItLarge.pos)

end

def gallop : Nat → List (Iter ρ) → Nat → List Call → Option (List Call)
  | 0,_,_,_ => none
  | fuel + 1,restSmall,itLarge,calls =>
    match larger[itLarge]? with
    | none => some (calls ++ notFoundCalls hasNotFoundAction restSmall)
    | some elLarge =>
      let calls := calls ++ notFoundCalls hasNotFoundAction (restSmall.takeWhile (fun it => it.row < elLarge.row))
      match restSmall.dropWhile (fun it => it.row < elLarge.row) with
      | [] => some calls
      | itSmall::restSmall => do
        let (lower,upper) ← exponentialSearch larger itSmall.row itLarge itLarge 0
        let itLarge ← lowerBound larger itSmall.row lower upper
        if itLarge = larger.length then some (calls ++ notFoundCalls hasNotFoundAction (itSmall::restSmall))
        else
          let found ← larger[itLarge]?
          let sameSmall := (itSmall::restSmall).takeWhile (fun it => it.row = found.row)
          let sameLarge := (larger.drop itLarge).takeWhile (fun it => it.row = itSmall.row)
          gallop fuel ((itSmall::restSmall).dropWhile (fun it => it.row = found.row)) (itLarge + sameLarge.length)
            (calls ++ sameSmall.flatMap (actionCalls sameLarge))

/-- The calls of `gallopingJoin`. Without a `elementFromSmallerNotFoundAction` there are only those of `action`. -/
def gallopingJoin (smaller larger : List ρ) : Option (List Call) :=
  gallop (iters 0 larger) hasNotFoundAction (smaller.length + larger.length + 1) (iters 0 smaller) 0 []

section Search
variable {larger} {needle : ρ} {itL : Nat}

/-- The position that `std::lower_bound` finds. -/
def firstNotLess (larger : List (Iter ρ)) (needle : ρ) : Nat := partitionPoint (fun element => decide (element.row < needle)) larger

theorem below_firstNotLess (sorted : Sorted larger) {i : Nat} {it : Iter ρ} (isElement : larger[i]? = some it) :
    i < firstNotLess larger needle ↔ it.row < needle := by
  constructor
  · intro below
    have holds := @before_partitionPoint _ (fun element : Iter ρ => decide (element.row < needle)) larger i it below isElement
    exact of_decide_eq_true holds
  · intro less
    by_contra notBelow
    have fails := after_partitionPoint (closed_lt Iter.row needle sorted) (Nat.le_of_not_lt notBelow) isElement
    exact of_decide_eq_false fails less

theorem exponentialSearch_spec (sorted : Sorted larger) {lower exponent : Nat} (inside : itL < larger.length)
    (atMost : lower ≤ firstNotLess larger needle) :
    ∃ first last,exponentialSearch larger needle lower itL exponent = some (first,last) ∧
      first ≤ firstNotLess larger needle ∧
      firstNotLess larger needle ≤ last ∧ last ≤ larger.length := by
  fun_induction exponentialSearch larger needle lower itL exponent with
  | case1 lower itL exponent outside => exact absurd inside (by simpa using outside)
  | case2 lower itL exponent element read less overrun =>
    exact ⟨itL,larger.length,rfl,((below_firstNotLess sorted read).mpr less).le,partitionPoint_le,le_rfl⟩
  | case3 lower itL exponent element read less more ih =>
    exact ih (Nat.lt_of_not_le more) ((below_firstNotLess sorted read).mpr less).le
  | case4 lower itL exponent element read notLess =>
    have notBelow := mt (below_firstNotLess sorted read).mp notLess
    exact ⟨lower,itL + 1,rfl,atMost,by omega,inside⟩

theorem lowerBound_eq (sorted : Sorted larger) {first last : Nat}
    (lower : first ≤ firstNotLess larger needle)
    (upper : firstNotLess larger needle ≤ last) (inside : last ≤ larger.length) :
    lowerBound larger needle first last = some (firstNotLess larger needle) := by
  have cuts := cuts_partitionPoint (closed_lt Iter.row needle sorted)
  apply bisect_eq (fun i => (larger[i]?.map (fun element => decide (element.row < needle))).getD false)
  · intro i _ below
    exact reads_element _ larger (by omega)
  · exact ⟨lower,by omega,fun i _ => cuts.before i (Nat.zero_le i),fun i above below => cuts.after i above (by omega)⟩

theorem search_eq (sorted : Sorted larger) (inside : itL < larger.length)
    (atMost : itL ≤ firstNotLess larger needle) :
    ∃ first last,exponentialSearch larger needle itL itL 0 = some (first,last) ∧
      lowerBound larger needle first last = some (firstNotLess larger needle) := by
  obtain ⟨first,last,found,lower,upper,bound⟩ := @exponentialSearch_spec _ _ _ needle _ sorted itL 0 inside atMost
  exact ⟨first,last,found,lowerBound_eq sorted lower upper bound⟩

end Search

section Calls
variable {larger hasNotFoundAction}

def callsFor (larger : List (Iter ρ)) (hasNotFoundAction : Bool) (it : Iter ρ) : List Call :=
  if hasEqual larger it then actionCalls (larger.filter (fun other => other.row = it.row)) it else notFoundCalls hasNotFoundAction [it]

theorem calls_of_noEqual {its : List (Iter ρ)} (none : ∀ it ∈ its,∀ other ∈ larger,other.row ≠ it.row) :
    its.flatMap (callsFor larger hasNotFoundAction) = notFoundCalls hasNotFoundAction its := by
  have each : its.flatMap (callsFor larger hasNotFoundAction) = its.flatMap (fun it => notFoundCalls hasNotFoundAction [it]) := by
    apply flatMap_congr
    intro it member
    have noEqual : hasEqual larger it = false := by
      simpa [hasEqual] using none it member
    rw [callsFor,noEqual,if_neg Bool.false_ne_true]
  rw [each]
  cases hasNotFoundAction with
  | false => simp [notFoundCalls]
  | true => simp [notFoundCalls,map_eq_flatMap]

theorem calls_of_equal {its same : List (Iter ρ)} {value : ρ} (equal : ∀ it ∈ its,it.row = value) (nonempty : same ≠ [])
    (isSame : larger.filter (fun other => other.row = value) = same) :
    its.flatMap (callsFor larger hasNotFoundAction) = its.flatMap (actionCalls same) := by
  apply flatMap_congr
  intro it member
  have isEqual : hasEqual larger it = true := by
    obtain ⟨other,inSame⟩ := exists_mem_of_ne_nil same nonempty
    rw [← isSame,mem_filter,decide_eq_true_eq] at inSame
    rw [hasEqual,any_eq_true]
    exact ⟨other,inSame.1,decide_eq_true (inSame.2.trans (equal it member).symm)⟩
  rw [callsFor,isEqual,if_pos rfl,equal it member,isSame]

end Calls

section Loop
variable {larger} {hasNotFoundAction} {restSmall : List (Iter ρ)} {itLarge : Nat}

/-- The passed elements of the larger input are smaller than the remaining elements of the smaller one. -/
def Behind (larger restSmall : List (Iter ρ)) (itLarge : Nat) : Prop := ∀ other ∈ larger.take itLarge,∀ it ∈ restSmall,other.row < it.row

omit [LinearOrder ρ] in
theorem mem_take_or_drop {its : List (Iter ρ)} {other : Iter ρ} (member : other ∈ its) (count : Nat) :
    other ∈ its.take count ∨ other ∈ its.drop count := by
  rwa [← mem_append,take_append_drop]

section
variable (sorted : Sorted larger)
include sorted

theorem le_of_mem_drop {elLarge : Iter ρ} (read : larger[itLarge]? = some elLarge) :
    ∀ other ∈ larger.drop itLarge,elLarge.row ≤ other.row := by
  obtain ⟨inside,rfl⟩ := List.getElem?_eq_some_iff.mp read
  have sortedDrop : Sorted (larger.drop itLarge) := sorted.sublist (List.drop_sublist _ _)
  rw [List.drop_eq_getElem_cons inside] at sortedDrop ⊢
  exact sortedDrop.head_le

theorem less_of_mem_take (needle : ρ) :
    ∀ other ∈ larger.take (firstNotLess larger needle),other.row < needle := by
  intro other member
  obtain ⟨i,inside,rfl⟩ := getElem_of_mem member
  rw [length_take,Nat.lt_min] at inside
  rw [getElem_take]
  exact (below_firstNotLess sorted (List.getElem?_eq_getElem inside.2)).mp inside.1

variable {needle : ρ}

theorem ne_of_whole (whole : firstNotLess larger needle = larger.length)
    (above : ∀ it ∈ restSmall,needle ≤ it.row) : ∀ it ∈ restSmall,∀ other ∈ larger,other.row ≠ it.row := by
  intro it member other inside
  have less := less_of_mem_take sorted needle other
  rw [whole,take_length] at less
  exact ((less inside).trans_le (above it member)).ne

theorem filter_eq_takeWhile {found : Iter ρ}
    (read : larger[firstNotLess larger needle]? = some found) (atLeast : needle ≤ found.row) :
    larger.filter (fun other => other.row = needle) =
      (larger.drop (firstNotLess larger needle)).takeWhile (fun other => other.row = needle) := by
  have above := le_of_mem_drop sorted read
  have sortedDrop : Sorted (larger.drop (firstNotLess larger needle)) :=
    sorted.sublist (List.drop_sublist _ _)
  have closed : (larger.drop (firstNotLess larger needle)).Pairwise
      (fun first second => decide (second.row = needle) = true → decide (first.row = needle) = true) := by
    apply sortedDrop.imp_of_mem
    intro first second isFirst _ le equal
    simp only [decide_eq_true_eq] at equal ⊢
    exact le_antisymm (le.trans_eq equal) (atLeast.trans (above first isFirst))
  have before : (larger.take (firstNotLess larger needle)).filter (fun other => other.row = needle) = [] := by
    rw [filter_eq_nil_iff]
    intro other member equal
    exact (less_of_mem_take sorted needle other member).ne (of_decide_eq_true equal)
  rw [takeWhile_eq_filter _ _ closed]
  conv_lhs => rw [← take_append_drop (firstNotLess larger needle) larger]
  rw [filter_append,before,nil_append]

theorem behind_next (above : ∀ it ∈ restSmall,needle < it.row) :
    Behind larger restSmall
      (firstNotLess larger needle + ((larger.drop (firstNotLess larger needle)).takeWhile (fun other => other.row = needle)).length) := by
  intro other member it isRest
  rw [take_add,mem_append,← prefix_iff_eq_take.mp (List.takeWhile_prefix _)] at member
  rcases member with before | same
  · exact (less_of_mem_take sorted needle other before).trans (above it isRest)
  · have equal := mem_takeWhile_imp same
    rw [of_decide_eq_true equal]
    exact above it isRest

theorem behind_firstNotLess (above : ∀ it ∈ restSmall,needle ≤ it.row) :
    Behind larger restSmall (firstNotLess larger needle) := by
  intro other member it isRest
  exact (less_of_mem_take sorted needle other member).trans_le (above it isRest)

theorem gallop_eq {fuel : Nat} {calls : List Call} (sortedSmall : Sorted restSmall) (inside : itLarge ≤ larger.length)
    (behind : Behind larger restSmall itLarge) (enough : restSmall.length + (larger.length - itLarge) < fuel) :
    gallop larger hasNotFoundAction fuel restSmall itLarge calls = some (calls ++ restSmall.flatMap (callsFor larger hasNotFoundAction)) := by
  induction fuel generalizing restSmall itLarge calls with
  | zero => omega
  | succ fuel ih =>
    rw [gallop]
    cases read : larger[itLarge]? with
    | none =>
      have whole : itLarge = larger.length := by
        have outside := List.getElem?_eq_none_iff.mp read
        omega
      rw [calls_of_noEqual]
      intro it member other isElement
      apply (behind other _ it member).ne
      rwa [whole,take_length]
    | some elLarge =>
      have skipped : (restSmall.takeWhile (fun it => it.row < elLarge.row)).flatMap (callsFor larger hasNotFoundAction) =
          notFoundCalls hasNotFoundAction (restSmall.takeWhile (fun it => it.row < elLarge.row)) := by
        apply calls_of_noEqual
        intro it member other isElement
        rcases mem_take_or_drop isElement itLarge with passed | remaining
        · exact (behind other passed it ((takeWhile_sublist _).subset member)).ne
        · exact ((takeWhile_below restSmall elLarge.row it member).trans_le (le_of_mem_drop sorted read other remaining)).ne'
      have split : restSmall.flatMap (callsFor larger hasNotFoundAction) =
          notFoundCalls hasNotFoundAction (restSmall.takeWhile (fun it => it.row < elLarge.row)) ++
            (restSmall.dropWhile (fun it => it.row < elLarge.row)).flatMap (callsFor larger hasNotFoundAction) := by
        rw [← skipped,← flatMap_append,takeWhile_append_dropWhile]
      rw [split]
      simp only
      cases remaining : restSmall.dropWhile (fun it => it.row < elLarge.row) with
      | nil => rw [flatMap_nil,append_nil]
      | cons itSmall later =>
        have inRange := (List.getElem?_eq_some_iff.mp read).1
        have sortedLater : Sorted (itSmall::later) := remaining ▸ sortedSmall.sublist (List.dropWhile_sublist _)
        have isRest : ∀ it ∈ itSmall::later,it ∈ restSmall := by
          intro it member
          rw [← remaining] at member
          exact (List.dropWhile_sublist _).subset member
        have atMost : itLarge ≤ firstNotLess larger itSmall.row := by
          by_contra beyond
          have position := Nat.lt_of_not_le beyond
          have bound : firstNotLess larger itSmall.row < larger.length := by omega
          have less := behind larger[firstNotLess larger itSmall.row] (mem_take_iff_getElem.mpr ⟨_,by omega,rfl⟩) itSmall
            (isRest itSmall mem_cons_self)
          have below := (below_firstNotLess sorted (List.getElem?_eq_getElem bound)).mpr less
          omega
        obtain ⟨first,last,isRange,isPosition⟩ := search_eq sorted inRange atMost
        simp only [bind,Option.bind,isRange,isPosition]
        split
        next whole => rw [calls_of_noEqual (ne_of_whole sorted whole sortedLater.head_le),append_assoc]
        next notWhole =>
          have bound : firstNotLess larger itSmall.row ≤ larger.length := partitionPoint_le
          have isFound := List.getElem?_eq_getElem (show firstNotLess larger itSmall.row < larger.length by omega)
          have atLeast : itSmall.row ≤ larger[firstNotLess larger itSmall.row].row :=
            le_of_not_gt (fun less => (lt_irrefl _) ((below_firstNotLess sorted isFound).mpr less))
          have first := List.drop_eq_getElem_cons (show firstNotLess larger itSmall.row < larger.length by omega)
          have fewer := length_dropWhile_le (fun it : Iter ρ => decide (it.row < elLarge.row)) restSmall
          rw [remaining,length_cons] at fewer
          simp only [isFound]
          by_cases equal : larger[firstNotLess larger itSmall.row].row = itSmall.row
          · have nonempty : (larger.drop (firstNotLess larger itSmall.row)).takeWhile (fun it => it.row = itSmall.row) ≠ [] := by
              rw [first,takeWhile_cons_of_pos (p := fun it : Iter ρ => decide (it.row = itSmall.row)) (decide_eq_true equal)]
              exact cons_ne_nil _ _
            have length : firstNotLess larger itSmall.row +
                ((larger.drop (firstNotLess larger itSmall.row)).takeWhile (fun it => it.row = itSmall.row)).length ≤ larger.length := by
              have part := (takeWhile_sublist (l := larger.drop (firstNotLess larger itSmall.row)) (fun it => it.row = itSmall.row)).length_le
              rw [length_drop] at part
              omega
            simp only [equal]
            have shorter : ((itSmall::later).dropWhile (fun it => it.row = itSmall.row)).length ≤ later.length := by
              simpa using length_dropWhile_le _ later
            have same : ∀ it ∈ (itSmall::later).takeWhile (fun it => it.row = itSmall.row),it.row = itSmall.row := by
              intro it member
              simpa using mem_takeWhile_imp member
            rw [ih (sortedLater.sublist (List.dropWhile_sublist _)) length (behind_next sorted sortedLater.above) (by omega),
              ← calls_of_equal same nonempty (filter_eq_takeWhile sorted isFound atLeast),append_assoc,append_assoc,
              ← flatMap_append,takeWhile_append_dropWhile]
          · have noneSmall : (itSmall::later).takeWhile (fun it => it.row = larger[firstNotLess larger itSmall.row].row) = [] := by
              simp [Ne.symm equal]
            have noneLarge : (larger.drop (firstNotLess larger itSmall.row)).takeWhile (fun it => it.row = itSmall.row) = [] := by
              rw [first,takeWhile_cons_of_neg (by simpa using equal)]
            have allSmall : (itSmall::later).dropWhile (fun it => it.row = larger[firstNotLess larger itSmall.row].row) = itSmall::later := by
              simp [Ne.symm equal]
            -- The current element was smaller, so the search has moved.
            have moved : itLarge < firstNotLess larger itSmall.row := by
              apply lt_of_le_of_ne atMost
              intro isSame
              have isElement : larger[firstNotLess larger itSmall.row]? = some elLarge := isSame ▸ read
              have same := Option.some.inj (isFound.symm.trans isElement)
              rw [same] at atLeast equal
              have head := head_dropWhile_not (fun it : Iter ρ => decide (it.row < elLarge.row)) (l := restSmall) (by simp [remaining])
              have notLess : ¬ itSmall.row < elLarge.row := by simpa [remaining] using head
              exact notLess (lt_of_le_of_ne atLeast (Ne.symm equal))
            rw [noneSmall,noneLarge,allSmall,flatMap_nil,append_nil,length_nil,Nat.add_zero]
            rw [ih sortedLater bound (behind_firstNotLess sorted sortedLater.head_le) (by rw [length_cons]; omega),append_assoc]

end

end Loop

def Call.action? : Call → Option (Nat × Nat)
  | action small large => some (small,large)
  | elementFromSmallerNotFoundAction _ => none

def Call.notFound? : Call → Option Nat
  | action _ _ => none
  | elementFromSmallerNotFoundAction small => some small

section Correct
variable {hasNotFoundAction}

theorem actions_callsFor (its larger : List (Iter ρ)) :
    (its.flatMap (callsFor larger hasNotFoundAction)).filterMap Call.action? =
      (nestedLoop (fun it other => other.row = it.row) its larger).map (fun pair => (pair.1.pos,pair.2.pos)) := by
  rw [filterMap_flatMap,nestedLoop,map_flatMap]
  apply flatMap_congr
  intro it _
  rw [callsFor]
  cases equal : hasEqual larger it with
  | true => simp [actionCalls,Call.action?,filterMap_map,Function.comp_def]
  | false =>
    have none : larger.filter (fun other => other.row = it.row) = [] := by
      simpa [hasEqual,filter_eq_nil_iff] using equal
    cases hasNotFoundAction <;> simp [notFoundCalls,Call.action?,none]

theorem notFound_callsFor (its larger : List (Iter ρ)) :
    (its.flatMap (callsFor larger hasNotFoundAction)).filterMap Call.notFound? =
      if hasNotFoundAction then (its.filter (fun it => !hasEqual larger it)).map Iter.pos else [] := by
  rw [filterMap_flatMap]
  have each : ∀ it,(callsFor larger hasNotFoundAction it).filterMap Call.notFound? =
      if !hasEqual larger it && hasNotFoundAction then [it.pos] else [] := by
    intro it
    rw [callsFor]
    cases equal : hasEqual larger it with
    | true => simp [actionCalls,Call.notFound?,filterMap_map,Function.comp_def]
    | false => cases hasNotFoundAction <;> simp [notFoundCalls,Call.notFound?]
  simp only [each]
  rw [flatMap_if_singleton]
  cases hasNotFoundAction <;> simp

/-- The join makes the calls of the nested loop, in the order of the nested loop, and one for each element without a partner. -/
theorem gallopingJoin_correct (hasNotFoundAction : Bool) {smaller larger : List ρ} (sortedSmaller : smaller.Pairwise (· ≤ ·))
    (sortedLarger : larger.Pairwise (· ≤ ·)) :
    ∃ calls,gallopingJoin hasNotFoundAction smaller larger = some calls ∧
      calls.filterMap Call.action? =
        (nestedLoop (fun it other => other.row = it.row) (iters 0 smaller) (iters 0 larger)).map (fun pair => (pair.1.pos,pair.2.pos)) ∧
      calls.filterMap Call.notFound? =
        if hasNotFoundAction then ((iters 0 smaller).filter (fun it => !hasEqual (iters 0 larger) it)).map Iter.pos else [] := by
  refine ⟨(iters 0 smaller).flatMap (callsFor (iters 0 larger) hasNotFoundAction),?_,actions_callsFor _ _,notFound_callsFor _ _⟩
  rw [gallopingJoin,gallop_eq (sorted_iters 0 larger sortedLarger) (sorted_iters 0 smaller sortedSmaller) (Nat.zero_le _)]
  · rw [nil_append]
  · intro other member
    simp at member
  · simp [iters]

theorem gallopingJoin_correct_numbers : ∃ calls,gallopingJoin true [1,3,3] [0,2,3,3,5] = some calls ∧
    calls.filterMap Call.action? = [(1,2),(1,3),(2,2),(2,3)] ∧ calls.filterMap Call.notFound? = [0] :=
  gallopingJoin_correct true (by decide) (by decide)

end Correct
end Qlever.GallopingJoin
